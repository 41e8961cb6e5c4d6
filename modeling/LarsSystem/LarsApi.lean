import LarsSystem.RouteLb

/-!
# `lars_api` and the servers of the agent

A caller asks the API for a host of a module and reports how the call went. The
API sends both to one of the agent's three UDP servers, each of which has a
`route_lb`; the answers of the DNS service go to one of the three `route_lb` as
well. Which one, each site computes for itself, as `(modid+cmdid)%3`. The sum
wraps, and the remainder of a negative sum is not positive.

`inet_ntoa` and `inet_aton` are parameters. An `inet_aton` that fails leaves the
address as it finds it.
-/

namespace LarsSystem.Agent

open LarsSystem.MachineWord

/-- The machine's `(modid+cmdid)%3`. -/
def shardIndex (modid cmdid : CInt) : Int := (modid + cmdid).toInt.tmod 3

/-- The entry of an array of three, `r_lb` or `_sockfd`, if the index is within it. -/
def slot (index : Int) : Option (Fin 3) :=
  if hin : 0 ≤ index ∧ index < 3 then some ⟨index.toNat, by omega⟩ else none

inductive AgentFault where
  | route (fault : RouteFault)
  | outOfBounds
deriving DecidableEq, Repr

/-! ## The agent -/

/-- `r_lb`. -/
abbrev RouteLbs := Fin 3 → RouteMap

/-- What a request of the API leads to: the response, the request to the DNS service, and the
    maps. -/
structure HostAnswer where
  rsp : GetHostResponse
  sent : Option GetRouteRequest
  routeLbs : RouteLbs

namespace RouteLbs

/-- `r_lb[port - 8888]` in `agent_server_main`. -/
def serverRoute (port : Nat) : Option (Fin 3) := slot ((port : Int) - 8888)

/-- `get_host_cb` of the server with `r_lb[i]`. -/
def getHostCb (cfg : LbConfig) (rLb : RouteLbs) (i : Fin 3) (req : GetHostRequest)
    (accessCnt : Int) (number : Nat) : Except AgentFault HostAnswer :=
  match (rLb i).getHost cfg req.modid req.cmdid ⟨req.seq, req.modid, req.cmdid, 0, none⟩
      accessCnt number with
  | Except.error fault => Except.error (.route fault)
  | Except.ok result =>
    Except.ok ⟨result.rsp, result.sent, Function.update rLb i result.map⟩

/-- `report_cb`, with what `commit` sends at the time `ts`. -/
def reportCb (cfg : LbConfig) (rLb : RouteLbs) (i : Fin 3) (req : ReportRequest)
    (ts : BitVec 32) : Except AgentFault (RouteLbs × Option ReportStatusRequest) :=
  match (rLb i).reportHost cfg req.modid req.cmdid req.host.ip req.host.port req.retcode ts with
  | Except.error fault => Except.error (.route fault)
  | Except.ok (map, report) => Except.ok (Function.update rLb i map, report)

def recvRouteIndex (rsp : GetRouteResponse) : Int := shardIndex rsp.modid rsp.cmdid

/-- `deal_recv_route`. -/
def dealRecvRoute (cfg : LbConfig) (rLb : RouteLbs) (rsp : GetRouteResponse) :
    Except AgentFault RouteLbs :=
  match slot (recvRouteIndex rsp) with
  | none => Except.error .outOfBounds
  | some i =>
    match (rLb i).updateHost cfg rsp.modid rsp.cmdid rsp with
    | Except.error fault => Except.error (.route fault)
    | Except.ok map => Except.ok (Function.update rLb i map)

end RouteLbs

/-! ## The API -/

/-- `lars_client`; `_sockfd[i]` is connected to the port `8888 + i`. -/
structure LarsClient where
  seqid : BitVec 32

/-- What one `recvfrom` of `get_host` gives; `none` where the body is not a response. -/
inductive Received where
  | failed
  | packet (msgid : CInt) (rsp : Option GetHostResponse)

namespace LarsClient

def sockPort (i : Fin 3) : Nat := 8888 + i.val

def getHostIndex (modid cmdid : CInt) : Int := shardIndex modid cmdid

def reportIndex (modid cmdid : CInt) : Int := shardIndex modid cmdid

/-- `get_host` up to `sendto`: the port and the request, if the socket is there. -/
def getHostRequest (c : LarsClient) (modid cmdid : CInt) : Option (Nat × GetHostRequest) :=
  (slot (getHostIndex modid cmdid)).map fun i => (sockPort i, ⟨c.seqid, modid, cmdid⟩)

/-- The `do` loop of `get_host`: the response, or the error that is returned. With nothing more
    received, the call waits. -/
def awaitResponse (seq : BitVec 32) : List Received → Option (Except (BitVec 32) GetHostResponse)
  | [] => none
  | .failed :: _ => some (Except.error RET_SYSTEM_ERROR)
  | .packet msgid rsp :: more =>
    if msgid ≠ ID_GetHostResponse then some (Except.error RET_SYSTEM_ERROR)
    else
      match rsp with
      | none => some (Except.error RET_SYSTEM_ERROR)
      | some rsp => if rsp.seq < seq then awaitResponse seq more else some (Except.ok rsp)

/-- The end of `get_host`: the return value, and ip and port where they are set. A response
    without a host has the host of zeros. -/
def takeResponse (inetNtoa : CInt → String) (seq : BitVec 32) (modid cmdid : CInt)
    (rsp : GetHostResponse) : BitVec 32 × Option (String × CInt) :=
  if rsp.seq ≠ seq ∨ rsp.modid ≠ modid ∨ rsp.cmdid ≠ cmdid then (RET_SYSTEM_ERROR, none)
  else if rsp.retcode = 0 then
    let host := rsp.host.getD ⟨0, 0⟩
    (rsp.retcode, some (inetNtoa host.ip, host.port))
  else (rsp.retcode, none)

/-- `get_host` behind `sendto`, with what it receives. -/
def getHost (inetNtoa : CInt → String) (c : LarsClient) (modid cmdid : CInt)
    (received : List Received) : Option (BitVec 32 × Option (String × CInt)) :=
  (awaitResponse c.seqid received).map fun outcome =>
    match outcome with
    | Except.error ret => (ret, none)
    | Except.ok rsp => takeResponse inetNtoa c.seqid modid cmdid rsp

/-- `report`: the port and the request; `inaddr` is what the address holds before. -/
def reportRequest (inetAton : String → Option CInt) (inaddr : CInt) (modid cmdid : CInt)
    (ip : String) (port retcode : CInt) : Option (Nat × ReportRequest) :=
  (slot (reportIndex modid cmdid)).map fun i =>
    (sockPort i, ⟨modid, cmdid, ⟨(inetAton ip).getD inaddr, port⟩, retcode⟩)

end LarsClient

/-! ## From the API to the maps -/

/-- `lars_client::get_host` as far as the agent's response. -/
def requestHost (cfg : LbConfig) (rLb : RouteLbs) (c : LarsClient) (modid cmdid : CInt)
    (accessCnt : Int) (number : Nat) : Except AgentFault HostAnswer :=
  match c.getHostRequest modid cmdid with
  | none => Except.error .outOfBounds
  | some (port, req) =>
    match RouteLbs.serverRoute port with
    | none => Except.error .outOfBounds
    | some i => rLb.getHostCb cfg i req accessCnt number

/-- `lars_client::report` with what it does in the agent. -/
def reportCall (inetAton : String → Option CInt) (inaddr : CInt) (cfg : LbConfig) (rLb : RouteLbs)
    (modid cmdid : CInt) (ip : String) (port retcode : CInt) (ts : BitVec 32) :
    Except AgentFault (RouteLbs × Option ReportStatusRequest) :=
  match LarsClient.reportRequest inetAton inaddr modid cmdid ip port retcode with
  | none => Except.error .outOfBounds
  | some (port, req) =>
    match RouteLbs.serverRoute port with
    | none => Except.error .outOfBounds
    | some i => rLb.reportCb cfg i req ts

end LarsSystem.Agent
