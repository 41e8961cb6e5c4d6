import LarsSystem.HostInfo
import LarsSystem.ObjectHeap
import Mathlib.Data.List.AList

/-!
# `load_balance`: the hosts of one (modid, cmdid)

Each host is an object reached through three structures: the map from its
address to it, and the list of idle or the list of overload hosts. The operations
fail where the code follows a pointer to a deleted host, takes the front of an
empty list, or fails an assertion. `update` deletes a host, takes it out of its
list, and leaves its entry in the map.
-/

namespace LarsSystem.Agent

open LarsSystem.MachineWord

inductive Fault where
  | deletedHost
  | emptyFront
  | hostSizeAssert
deriving DecidableEq, Repr

abbrev HostMap := AList fun _ : BitVec 64 => Ptr

structure LoadBalance where
  modid : BitVec 32
  cmdid : BitVec 32
  accessCnt : Int
  heap : ObjectHeap HostInfo
  hostMap : HostMap
  idleList : List Ptr
  overloadList : List Ptr

namespace LoadBalance

/-- The constructor; it leaves `_access_cnt` as it finds it. -/
def create (modid cmdid : BitVec 32) (accessCnt : Int) : LoadBalance :=
  { modid := modid
    cmdid := cmdid
    accessCnt := accessCnt
    heap := ObjectHeap.empty
    hostMap := ∅
    idleList := []
    overloadList := [] }

def empty (lb : LoadBalance) : Bool := lb.hostMap.entries.isEmpty

def host (lb : LoadBalance) (p : Ptr) : Except Fault HostInfo :=
  match lb.heap.cells p with
  | none => Except.error Fault.deletedHost
  | some hi => Except.ok hi

/-- `get_host_from_list`: the front of the list goes into the answer and to its end. -/
def getHostFromList (lb : LoadBalance) : List Ptr → Except Fault (HostEntry × List Ptr)
  | [] => Except.error Fault.emptyFront
  | p :: rest =>
    match lb.host p with
    | Except.error fault => Except.error fault
    | Except.ok hi => Except.ok (⟨hi.ip, hi.port⟩, rest ++ [p])

/-- `choice_one_host`: the return value, the host in the answer, and the state. Where
    some hosts are overload and some are not, an idle host is taken once more at the
    end, over the host chosen before. -/
def choiceOneHost (cfg : LbConfig) (lb : LoadBalance) :
    Except Fault (BitVec 32 × Option HostEntry × LoadBalance) :=
  if lb.idleList = [] then
    if lb.accessCnt ≥ cfg.probeNum then
      match lb.getHostFromList lb.overloadList with
      | Except.error fault => Except.error fault
      | Except.ok (h, overload) =>
        Except.ok (RET_SUCC, some h, { lb with accessCnt := 0, overloadList := overload })
    else Except.ok (RET_OVERLOAD, none, { lb with accessCnt := lb.accessCnt + 1 })
  else if lb.overloadList = [] then
    match lb.getHostFromList lb.idleList with
    | Except.error fault => Except.error fault
    | Except.ok (h, idle) => Except.ok (RET_SUCC, some h, { lb with idleList := idle })
  else
    let chosen :=
      if lb.accessCnt ≥ cfg.probeNum then
        match lb.getHostFromList lb.overloadList with
        | Except.error fault => Except.error fault
        | Except.ok (_, overload) => Except.ok { lb with accessCnt := 0, overloadList := overload }
      else
        match lb.getHostFromList lb.idleList with
        | Except.error fault => Except.error fault
        | Except.ok (_, idle) =>
          Except.ok { lb with accessCnt := lb.accessCnt + 1, idleList := idle }
    match chosen with
    | Except.error fault => Except.error fault
    | Except.ok lb =>
      match lb.getHostFromList lb.idleList with
      | Except.error fault => Except.error fault
      | Except.ok (h, idle) => Except.ok (RET_SUCC, some h, { lb with idleList := idle })

/-- Step 1 of `update` for one host of the answer. -/
def insertHost (cfg : LbConfig) (lb : LoadBalance) (h : HostEntry) : LoadBalance :=
  if h.key ∈ lb.hostMap then lb
  else
    { lb with
      heap := lb.heap.alloc (HostInfo.create h.ip h.port cfg.initSuccCnt)
      hostMap := lb.hostMap.insert h.key lb.heap.next
      idleList := lb.idleList ++ [lb.heap.next] }

/-- Step 2.2 of `update` for one key. -/
def deleteHost (lb : LoadBalance) (key : BitVec 64) : Except Fault LoadBalance :=
  match lb.hostMap.lookup key with
  | none => Except.error Fault.deletedHost
  | some p =>
    match lb.host p with
    | Except.error fault => Except.error fault
    | Except.ok hi =>
      if hi.overload then
        Except.ok { lb with
          overloadList := lb.overloadList.filter (· ≠ p)
          heap := lb.heap.free p }
      else
        Except.ok { lb with
          idleList := lb.idleList.filter (· ≠ p)
          heap := lb.heap.free p }

/-- `update`; the keys to delete are taken in the order of the map, which for a `delete`
    of each is of no consequence. -/
def update (cfg : LbConfig) (lb : LoadBalance) (rsp : List HostEntry) :
    Except Fault LoadBalance :=
  if rsp.length = 0 then Except.error Fault.hostSizeAssert
  else
    let lb := rsp.foldl (insertHost cfg) lb
    let remoteHosts := rsp.map HostEntry.key
    let needDelete := lb.hostMap.keys.filter (· ∉ remoteHosts)
    needDelete.foldlM deleteHost lb

/-- `report`. -/
def report (cfg : LbConfig) (lb : LoadBalance) (ip port retcode : BitVec 32) :
    Except Fault LoadBalance :=
  match lb.hostMap.lookup (pack ip port) with
  | none => Except.ok lb
  | some p =>
    match lb.host p with
    | Except.error fault => Except.error fault
    | Except.ok old =>
      let hi := old.count retcode
      let lb := { lb with heap := lb.heap.modify p fun _ => hi }
      if hi.overload = false ∧ retcode ≠ RET_SUCC then
        if hi.failing cfg then
          Except.ok { lb with
            heap := lb.heap.modify p (HostInfo.setOverload cfg)
            idleList := lb.idleList.filter (· ≠ p)
            overloadList := lb.overloadList ++ [p] }
        else Except.ok lb
      else if hi.overload = true ∧ retcode = RET_SUCC then
        if hi.recovered cfg then
          Except.ok { lb with
            heap := lb.heap.modify p (HostInfo.setIdle cfg)
            overloadList := lb.overloadList.filter (· ≠ p)
            idleList := lb.idleList ++ [p] }
        else Except.ok lb
      else Except.ok lb

/-- The results of one list in `commit`. -/
def callResults (lb : LoadBalance) (overload : Bool) (hosts : List Ptr) :
    Except Fault (List HostCallResult) :=
  hosts.mapM fun p => do
    let hi ← lb.host p
    return ⟨hi.ip, hi.port, hi.rsucc, hi.rerr, overload⟩

/-- `commit`: what is sent to the report client, if anything, at the time `ts`. -/
def commit (cfg : LbConfig) (lb : LoadBalance) (ts : BitVec 32) :
    Except Fault (Option ReportStatusRequest) :=
  if lb.empty then Except.ok none
  else do
    let idle ← lb.callResults false lb.idleList
    let overload ← lb.callResults true lb.overloadList
    return some ⟨lb.modid, lb.cmdid, cfg.localIp, idle ++ overload, ts⟩

end LoadBalance

end LarsSystem.Agent
