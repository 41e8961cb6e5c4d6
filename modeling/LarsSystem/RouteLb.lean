import LarsSystem.LoadBalanceInvariant

/-!
# `route_lb`: the load balancers of many (modid, cmdid)

Each of the three UDP servers of an agent has a `route_lb`, a map from keys to
`load_balance` objects, which the thread of the server and the thread of the DNS
client take turns on. A key comes into the map with a pull, which sends a
request to the DNS client, and leaves it with an answer that has no hosts. The
number of that request is kept beside the object; the code does not have it.
-/

namespace LarsSystem.Agent

open LarsSystem.MachineWord

/-- `load_balance::STATUS`. -/
inductive Status where
  | pulling
  | new
deriving DecidableEq, Repr

structure RouteEntry where
  lb : LoadBalance
  status : Status
  /-- Which request the pull of this object sent. -/
  request : Nat

abbrev RouteMap := BitVec 64 → Option RouteEntry

/-- `(modid+cmdid)%3` as an index into `r_lb`; none where the sum overflows or the
    remainder is negative. The API takes the server by it, and `deal_recv_route` the map. -/
def routeIndex (modid cmdid : BitVec 32) : Option (Fin 3) :=
  let sum := modid.toInt + cmdid.toInt
  if sum < -2 ^ 31 ∨ 2 ^ 31 ≤ sum then none
  else
    match sum.tmod 3 with
    | 0 => some 0
    | 1 => some 1
    | 2 => some 2
    | _ => none

inductive RouteFault where
  | balance (fault : Fault)
  | statusAssert
deriving DecidableEq, Repr

/-- `pull`: what goes to `dns_queue`, and the status after it. -/
def LoadBalance.pull (lb : LoadBalance) : GetRouteRequest × Status :=
  (⟨lb.modid, lb.cmdid⟩, .pulling)

/-- What `get_host` leaves: its value, the answer, the request that was sent, the map. -/
structure GetHostResult where
  ret : BitVec 32
  rsp : GetHostResponse
  sent : Option GetRouteRequest
  map : RouteMap

namespace RouteMap

def empty : RouteMap := fun _ => none

def set (map : RouteMap) (key : BitVec 64) (entry : RouteEntry) : RouteMap :=
  Function.update map key (some entry)

def erase (map : RouteMap) (key : BitVec 64) : RouteMap := Function.update map key none

/-- `get_host`; `accessCnt` is what a new object finds in its counter, and `number` tells
    its request apart. -/
def getHost (cfg : LbConfig) (map : RouteMap) (modid cmdid : BitVec 32) (rsp : GetHostResponse)
    (accessCnt : Int) (number : Nat) : Except RouteFault GetHostResult :=
  let key := pack modid cmdid
  match map key with
  | some entry =>
    if entry.lb.empty then
      if entry.status = .pulling then
        Except.ok ⟨RET_SUCC, { rsp with retcode := RET_NOEXIST }, none, map⟩
      else Except.error .statusAssert
    else
      match entry.lb.choiceOneHost cfg with
      | Except.error fault => Except.error (.balance fault)
      | Except.ok (ret, host, lb) =>
        Except.ok ⟨ret, { rsp with retcode := ret, host := host.or rsp.host }, none,
          map.set key { entry with lb := lb }⟩
  | none =>
    let lb := LoadBalance.create modid cmdid accessCnt
    let (req, status) := lb.pull
    Except.ok ⟨RET_NOEXIST, { rsp with retcode := RET_NOEXIST }, some req,
      map.set key ⟨lb, status, number⟩⟩

/-- `update_host`. -/
def updateHost (cfg : LbConfig) (map : RouteMap) (modid cmdid : BitVec 32)
    (rsp : GetRouteResponse) : Except RouteFault RouteMap :=
  let key := pack modid cmdid
  match map key with
  | none => Except.ok map
  | some entry =>
    if rsp.hosts.length = 0 then Except.ok (map.erase key)
    else
      match entry.lb.update cfg rsp.hosts with
      | Except.error fault => Except.error (.balance fault)
      | Except.ok lb => Except.ok (map.set key { entry with lb := lb })

/-- `report_host`, with what `commit` sends to the reporter at the time `ts`. -/
def reportHost (cfg : LbConfig) (map : RouteMap) (modid cmdid ip port retcode ts : BitVec 32) :
    Except RouteFault (RouteMap × Option ReportStatusRequest) :=
  let key := pack modid cmdid
  match map key with
  | none => Except.ok (map, none)
  | some entry =>
    match entry.lb.report cfg ip port retcode with
    | Except.error fault => Except.error (.balance fault)
    | Except.ok lb =>
      match lb.commit cfg ts with
      | Except.error fault => Except.error (.balance fault)
      | Except.ok report => Except.ok (map.set key { entry with lb := lb }, report)

end RouteMap

/-! ## The index of a key -/

/-- A sum that is not negative and representable has an index. -/
theorem routeIndex_isSome {modid cmdid : BitVec 32} (hlow : 0 ≤ modid.toInt + cmdid.toInt)
    (hhigh : modid.toInt + cmdid.toInt < 2 ^ 31) : (routeIndex modid cmdid).isSome := by
  unfold routeIndex
  have hsum : ¬ (modid.toInt + cmdid.toInt < -2 ^ 31 ∨ 2 ^ 31 ≤ modid.toInt + cmdid.toInt) := by
    omega
  simp only [if_neg hsum]
  rw [Int.tmod_eq_emod_of_nonneg hlow]
  have hcases : (modid.toInt + cmdid.toInt) % 3 = 0 ∨ (modid.toInt + cmdid.toInt) % 3 = 1 ∨
      (modid.toInt + cmdid.toInt) % 3 = 2 := by
    omega
  rcases hcases with h | h | h <;> rw [h] <;> rfl

/-! ## Which operations change the hosts that are known

A load balancer without hosts gets them from an answer, and from nothing else. -/

namespace LoadBalance

theorem empty_eq_false_iff {lb : LoadBalance} : lb.empty = false ↔ ∃ key, key ∈ lb.hostMap := by
  unfold empty
  simp only [AList.mem_keys, AList.keys]
  cases hentries : lb.hostMap.entries with
  | nil => simp
  | cons entry rest => exact iff_of_true rfl ⟨entry.1, List.mem_cons_self⟩

/-- The object as it was, or after a choice. -/
def Chosen (cfg : LbConfig) (lb lb' : LoadBalance) : Prop :=
  lb' = lb ∨ ∃ ret host, lb.choiceOneHost cfg = Except.ok (ret, host, lb')

theorem Chosen.empty {cfg : LbConfig} {lb lb' : LoadBalance} (chosen : lb.Chosen cfg lb') :
    lb'.empty = lb.empty := by
  rcases chosen with rfl | ⟨ret, host, hchoice⟩
  · rfl
  · obtain ⟨⟨accessCnt, idle, overload, -, -, rfl⟩, -⟩ := choiceOneHost_cases hchoice
    rfl

theorem report_empty {cfg : LbConfig} {lb lb' : LoadBalance} {ip port retcode : BitVec 32}
    (hreport : lb.report cfg ip port retcode = Except.ok lb') : lb'.empty = lb.empty := by
  unfold empty
  rw [(report_frame hreport).2]

/-- The hosts of an answer are known after it, whatever was deleted. -/
theorem update_not_empty {cfg : LbConfig} {lb lb' : LoadBalance} {rsp : List HostEntry}
    (hupdate : lb.update cfg rsp = Except.ok lb') : lb'.empty = false := by
  obtain ⟨h, hmem⟩ := List.exists_mem_of_ne_nil rsp (ne_nil_of_update hupdate)
  exact empty_eq_false_iff.mpr
    ⟨h.key, (mem_update hupdate h.key).mpr (Or.inl (List.mem_map_of_mem hmem))⟩

/-- A load balancer without hosts takes those of an answer; there is none to delete. -/
theorem update_of_empty (cfg : LbConfig) {lb : LoadBalance} {rsp : List HostEntry}
    (hempty : lb.empty = true) (hne : rsp ≠ []) :
    ∃ lb', lb.update cfg rsp = Except.ok lb' ∧
      ∀ key, key ∈ lb'.hostMap ↔ key ∈ rsp.map HostEntry.key := by
  have hnone : ∀ key, key ∉ lb.hostMap := by
    intro key hmem
    rw [empty_eq_false_iff.mpr ⟨key, hmem⟩] at hempty
    cases hempty
  have hkept : (rsp.foldl (insertHost cfg) lb).hostMap.keys.filter
      (· ∉ rsp.map HostEntry.key) = [] := by
    rw [List.filter_eq_nil_iff]
    intro key hkey
    have hmem : key ∈ rsp.map HostEntry.key :=
      ((mem_insertHosts cfg lb rsp key).mp hkey).resolve_right (hnone key)
    simp [hmem]
  have hupdate : lb.update cfg rsp = Except.ok (rsp.foldl (insertHost cfg) lb) := by
    rw [update_eq cfg lb hne, hkept]
    rfl
  refine ⟨_, hupdate, fun key => ?_⟩
  rw [mem_update hupdate, or_iff_left (hnone key)]

end LoadBalance

/-! ## What each operation does to the map -/

namespace RouteMap

variable {cfg : LbConfig} {map : RouteMap} {modid cmdid : BitVec 32}

/-- `get_host` on a key of the map keeps the object or chooses a host from it; on a new key it
    creates an object without hosts and sends a request for it. -/
theorem getHost_cases {rsp : GetHostResponse} {accessCnt : Int} {number : Nat}
    {result : GetHostResult}
    (hget : map.getHost cfg modid cmdid rsp accessCnt number = Except.ok result) :
    (∃ entry lb, map (pack modid cmdid) = some entry ∧ entry.lb.Chosen cfg lb ∧
        result.sent = none ∧ result.map = map.set (pack modid cmdid) { entry with lb := lb }) ∨
      (map (pack modid cmdid) = none ∧ result.sent = some ⟨modid, cmdid⟩ ∧
        result.map = map.set (pack modid cmdid)
          ⟨LoadBalance.create modid cmdid accessCnt, .pulling, number⟩) := by
  unfold getHost at hget
  simp only at hget
  split at hget
  · rename_i entry hentry
    left
    split at hget
    · split at hget
      · cases hget
        refine ⟨entry, entry.lb, hentry, Or.inl rfl, rfl, ?_⟩
        unfold set
        rw [← hentry, Function.update_eq_self]
      · cases hget
    · split at hget
      · cases hget
      · rename_i ret host lb hchoice
        cases hget
        exact ⟨entry, lb, hentry, Or.inr ⟨ret, host, hchoice⟩, rfl, rfl⟩
  · rename_i hnone
    right
    cases hget
    exact ⟨hnone, rfl, rfl⟩

/-- `update_host` takes a key out or updates its object; a key that is not in the map stays out. -/
theorem updateHost_cases {rsp : GetRouteResponse} {map' : RouteMap}
    (hupdate : map.updateHost cfg modid cmdid rsp = Except.ok map') :
    map (pack modid cmdid) = none ∧ map' = map ∨ map' = map.erase (pack modid cmdid) ∨
      ∃ entry lb, map (pack modid cmdid) = some entry ∧
        entry.lb.update cfg rsp.hosts = Except.ok lb ∧
        map' = map.set (pack modid cmdid) { entry with lb := lb } := by
  unfold updateHost at hupdate
  simp only at hupdate
  split at hupdate
  · rename_i hnone
    cases hupdate
    exact Or.inl ⟨hnone, rfl⟩
  · rename_i entry hentry
    split at hupdate
    · cases hupdate
      exact Or.inr (Or.inl rfl)
    · split at hupdate
      · cases hupdate
      · rename_i lb hlb
        cases hupdate
        exact Or.inr (Or.inr ⟨entry, lb, hentry, hlb, rfl⟩)

/-- `report_host` reports to the object of the map. -/
theorem reportHost_cases {ip port retcode ts : BitVec 32} {map' : RouteMap}
    {report : Option ReportStatusRequest}
    (hreport : map.reportHost cfg modid cmdid ip port retcode ts = Except.ok (map', report)) :
    map' = map ∨ ∃ entry lb, map (pack modid cmdid) = some entry ∧
      entry.lb.report cfg ip port retcode = Except.ok lb ∧
      map' = map.set (pack modid cmdid) { entry with lb := lb } := by
  unfold reportHost at hreport
  simp only at hreport
  split at hreport
  · cases hreport
    exact Or.inl rfl
  · rename_i entry hentry
    split at hreport
    · cases hreport
    · rename_i lb hlb
      split at hreport
      · cases hreport
      · cases hreport
        exact Or.inr ⟨entry, lb, hentry, hlb, rfl⟩

end RouteMap

end LarsSystem.Agent
