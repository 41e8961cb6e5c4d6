import LarsSystem.HostHysteresis
import LarsSystem.ShardIndex

/-!
# From `get_host` to the report of the call

The agent answers with the address of a host. The API makes a dotted string of
the ip; the caller gives string and port back to the API with the outcome of the
call, and the agent finds the host again by the key of ip and port. On the way ip
and port pass through unsigned and signed fields of the same width, so the key is
the one under which `update` filed the host, for all bit patterns.
-/

namespace LarsSystem.Agent

open LarsSystem.MachineWord

namespace LoadBalance

/-! ## The host that is credited -/

/-- **A report is credited to the host `p`**: it is counted there and nowhere else, and no other
    host moves. -/
structure Credited (cfg : LbConfig) (retcode : BitVec 32) (lb : LoadBalance) (p : Ptr)
    (lb' : LoadBalance) : Prop where
  host : ∃ hi, lb.heap.cells p = some hi ∧
    lb'.heap.cells p = some (hi.afterReport cfg retcode)
  others : ∀ q ≠ p, lb'.heap.cells q = lb.heap.cells q
  idle : lb'.idleList.filter (· ≠ p) = lb.idleList.filter (· ≠ p)
  overload : lb'.overloadList.filter (· ≠ p) = lb.overloadList.filter (· ≠ p)
  hostMap : lb'.hostMap = lb.hostMap
  accessCnt : lb'.accessCnt = lb.accessCnt

theorem filter_filter_ne (l : List Ptr) (p : Ptr) :
    (l.filter (· ≠ p)).filter (· ≠ p) = l.filter (· ≠ p) := by
  rw [List.filter_filter]
  simp

theorem filter_append_ne (l : List Ptr) (p : Ptr) :
    (l ++ [p]).filter (· ≠ p) = l.filter (· ≠ p) := by
  simp

theorem report_credited (cfg : LbConfig) {lb : LoadBalance} {ip port : BitVec 32} {p : Ptr}
    {hi : HostInfo} (hlookup : lb.hostMap.lookup (pack ip port) = some p)
    (hcell : lb.heap.cells p = some hi) (retcode : BitVec 32) :
    ∃ lb', lb.report cfg ip port retcode = Except.ok lb' ∧ Credited cfg retcode lb p lb' := by
  obtain ⟨heap, idle, overload, hreport, refiled⟩ := report_cases cfg hlookup hcell retcode
  have hlists : idle.filter (· ≠ p) = lb.idleList.filter (· ≠ p) ∧
      overload.filter (· ≠ p) = lb.overloadList.filter (· ≠ p) := by
    rcases refiled.lists with ⟨-, rfl, rfl⟩ | ⟨-, -, rfl, rfl⟩ | ⟨-, -, rfl, rfl⟩
    · exact ⟨rfl, rfl⟩
    · exact ⟨filter_filter_ne _ p, filter_append_ne _ p⟩
    · exact ⟨filter_append_ne _ p, filter_filter_ne _ p⟩
  exact ⟨_, hreport, ⟨hi, hcell, refiled.self⟩, refiled.other, hlists.1, hlists.2, rfl, rfl⟩

/-- A listed host is found by its address. -/
theorem RepInv.lookup_listed {lb : LoadBalance} (hinv : RepInv lb) {p : Ptr} {hi : HostInfo}
    (hp : p ∈ lb.idleList ++ lb.overloadList) (hcell : lb.heap.cells p = some hi) :
    lb.hostMap.lookup (pack hi.ip hi.port) = some p := by
  obtain ⟨key, hkey⟩ := (hinv.listed p).mp hp
  obtain ⟨hi', hcell', hfiled⟩ := hinv.filed key p hkey
  cases hcell.symm.trans hcell'
  rw [← hkey, ← hfiled]
  rfl

end LoadBalance

/-- An answer of `get_host` has the code for no host, or comes from `choice_one_host`. -/
theorem RouteMap.getHost_rsp {cfg : LbConfig} {map : RouteMap} {modid cmdid : BitVec 32}
    {rsp : GetHostResponse} {accessCnt : Int} {number : Nat} {result : GetHostResult}
    (hget : map.getHost cfg modid cmdid rsp accessCnt number = Except.ok result) :
    result.rsp.retcode = RET_NOEXIST ∨
      ∃ entry ret host lb, map (pack modid cmdid) = some entry ∧
        entry.lb.choiceOneHost cfg = Except.ok (ret, host, lb) ∧
        result.rsp = { rsp with retcode := ret, host := host.or rsp.host } := by
  unfold getHost at hget
  simp only at hget
  split at hget
  · rename_i entry hentry
    split at hget
    · split at hget <;> cases hget
      exact Or.inl rfl
    · split at hget
      · cases hget
      · rename_i ret host lb hchoice
        cases hget
        exact Or.inr ⟨entry, ret, host, lb, hentry, hchoice, rfl⟩
  · cases hget
    exact Or.inl rfl

/-! ## The way of an address -/

/-- Every object of every map is represented as it should be. -/
def RouteLbs.RepInv (rLb : RouteLbs) : Prop :=
  ∀ i key entry, rLb i key = some entry → entry.lb.RepInv

section Address

variable {inetNtoa : CInt → String} {cfg : LbConfig} {rLb : RouteLbs} {modid cmdid : CInt}

/-- What the API makes of an answer of the agent that names a host. -/
theorem takeResponse_names {i : Fin 3} {req : GetHostRequest} {accessCnt : Int} {number : Nat}
    {answer : HostAnswer} {seq ret : BitVec 32} {ip : String} {port : CInt}
    (hget : rLb.getHostCb cfg i req accessCnt number = Except.ok answer)
    (htook : LarsClient.takeResponse inetNtoa seq modid cmdid answer.rsp =
      (ret, some (ip, port))) :
    ret = RET_SUCC ∧ ∃ entry h, rLb i (pack req.modid req.cmdid) = some entry ∧
      entry.lb.Names h ∧ ip = inetNtoa h.ip ∧ port = h.port := by
  unfold LarsClient.takeResponse at htook
  split_ifs at htook with hmatch hsucc
  · cases htook
  · cases htook
    refine ⟨hsucc, ?_⟩
    unfold RouteLbs.getHostCb at hget
    split at hget
    · cases hget
    · rename_i result hresult
      cases hget
      rcases RouteMap.getHost_rsp hresult with hnone | ⟨entry, ret, host, lb, hentry, hchoice, hrsp⟩
      · exact absurd (hsucc.symm.trans hnone) (by decide)
      · rcases (LoadBalance.choiceOneHost_cases hchoice).2 with hover | ⟨h, rfl, hnames⟩
        · rw [hrsp] at hsucc
          exact absurd (hsucc.symm.trans hover) (by decide)
        · refine ⟨entry, h, hentry, hnames, ?_, ?_⟩ <;> rw [hrsp] <;> rfl
  · cases htook

end Address

/-- **A reported call is credited to the host that was handed out.** The API got the host `h` for
    the module, and reports the call while the object `p` of the module has its address. -/
theorem report_credits {inetNtoa : CInt → String} {inetAton : String → Option CInt}
    (inverse : ∀ addr, inetAton (inetNtoa addr) = some addr) {cfg : LbConfig}
    {modid cmdid : CInt} (hlow : 0 ≤ modid.toInt + cmdid.toInt)
    (hhigh : modid.toInt + cmdid.toInt < 2 ^ 31) {rLb : RouteLbs} {c : LarsClient}
    {accessCnt : Int} {number : Nat} {answer : HostAnswer}
    (hget : requestHost cfg rLb c modid cmdid accessCnt number = Except.ok answer)
    {ret : BitVec 32} {ip : String} {port : CInt}
    (htook : LarsClient.takeResponse inetNtoa c.seqid modid cmdid answer.rsp =
      (ret, some (ip, port))) :
    ∃ (i : Fin 3) (entry : RouteEntry) (h : HostEntry),
      rLb i (pack modid cmdid) = some entry ∧ entry.lb.Names h ∧
      ip = inetNtoa h.ip ∧ port = h.port ∧
      ∀ (later : RouteLbs) (held : RouteEntry) (p : Ptr) (hi : HostInfo), later.RepInv →
        later i (pack modid cmdid) = some held →
        p ∈ held.lb.idleList ++ held.lb.overloadList → held.lb.heap.cells p = some hi →
        hi.ip = h.ip → hi.port = h.port →
        ∀ (inaddr retcode ts : BitVec 32), ∃ lb report,
          reportCall inetAton inaddr cfg later modid cmdid ip port retcode ts =
            Except.ok (Function.update later i
              ((later i).set (pack modid cmdid) { held with lb := lb }), report) ∧
          held.lb.Credited cfg retcode p lb := by
  obtain ⟨i, hindex⟩ := Option.isSome_iff_exists.mp (routeIndex_isSome hlow hhigh)
  have hslot := routeIndex_eq_some hindex
  rw [requestHost_some hslot] at hget
  obtain ⟨-, entry, h, hentry, hnames, hip, hport⟩ := takeResponse_names hget htook
  refine ⟨i, entry, h, hentry, hnames, hip, hport, ?_⟩
  intro later held p hi hrep hheld hp hcell haddr hportEq inaddr retcode ts
  have hinv : held.lb.RepInv := hrep i _ held hheld
  -- the ip comes back out of the string, and with the port gives the key of the host
  have hkey : held.lb.hostMap.lookup (pack ((inetAton ip).getD inaddr) port) = some p := by
    rw [hip, hport, inverse, Option.getD_some, ← haddr, ← hportEq]
    exact hinv.lookup_listed hp hcell
  obtain ⟨lb, hreport, hcredited⟩ := LoadBalance.report_credited cfg hkey hcell retcode
  obtain ⟨lb', hreport', hinv', -⟩ :=
    hinv.report cfg ((inetAton ip).getD inaddr) port retcode
  cases hreport.symm.trans hreport'
  obtain ⟨report, hcommit⟩ := hinv'.commit cfg ts
  refine ⟨lb, report, ?_, hcredited⟩
  rw [reportCall_some hslot, RouteLbs.reportCb]
  simp only [RouteMap.reportHost, hheld, hreport, hcommit]

/-! ## Dotted strings -/

def decimal (byte : Byte) : List Char := Nat.toDigits 10 byte.toNat

/-- `inet_ntoa`: the bytes of the address, in memory order, in decimal. -/
def dotted (addr : CInt) : String :=
  String.ofList (List.intercalate ['.'] ((le32 addr).map decimal))

def byteOfDecimal (digits : List Char) : Option Byte :=
  if digits ≠ [] ∧ digits.all Char.isDigit = true then
    let value := digits.foldl (fun n digit => 10 * n + (digit.toNat - '0'.toNat)) 0
    if value < 256 then some (BitVec.ofNat 8 value) else none
  else none

/-- `inet_aton` on strings of four decimal numbers. -/
def undotted (text : String) : Option CInt :=
  match (text.toList.splitOn '.').mapM byteOfDecimal with
  | some [b0, b1, b2, b3] => some (ofLe32 [b0, b1, b2, b3])
  | _ => none

theorem byteOfDecimal_decimal : ∀ byte : Byte, byteOfDecimal (decimal byte) = some byte := by
  decide +kernel

theorem dot_notMem_decimal : ∀ byte : Byte, '.' ∉ decimal byte := by decide +kernel

theorem undotted_dotted (addr : CInt) : undotted (dotted addr) = some addr := by
  have hsplit : (dotted addr).toList.splitOn '.' = (le32 addr).map decimal := by
    rw [dotted, String.toList_ofList]
    refine List.splitOn_intercalate '.' ?_ (by simp [le32])
    intro digits hdigits
    obtain ⟨byte, -, rfl⟩ := List.mem_map.mp hdigits
    exact dot_notMem_decimal byte
  have hword : ofLe32 (le32 addr) = addr := by
    have happend := ofLe32_append addr []
    rwa [List.append_nil] at happend
  rw [undotted, hsplit]
  simp only [le32, List.map_cons, List.map_nil, List.mapM_cons, List.mapM_nil,
    byteOfDecimal_decimal, Option.pure_def, Option.bind_eq_bind, Option.bind_some]
  exact congrArg some hword

/-- The module (1, 2) with the host 127.0.0.1:8080. -/
def homeBalance : LoadBalance :=
  (LoadBalance.create 1 2 0).insertHost Balancer.defaultConfig ⟨0x0100007F, 8080⟩

def homeRoutes : RouteLbs := fun i =>
  if i.val = 0 then RouteMap.empty.set (pack 1 2) ⟨homeBalance, .pulling, 0⟩ else RouteMap.empty

theorem homeRoutes_some {i : Fin 3} {key : BitVec 64} {entry : RouteEntry}
    (hentry : homeRoutes i key = some entry) :
    i = 0 ∧ entry = ⟨homeBalance, .pulling, 0⟩ := by
  unfold homeRoutes at hentry
  split at hentry
  · rename_i hzero
    refine ⟨Fin.ext hzero, ?_⟩
    by_cases hkey : key = pack 1 2
    · rw [hkey, RouteMap.set, Function.update_self] at hentry
      exact (Option.some.inj hentry).symm
    · rw [RouteMap.set, Function.update_of_ne hkey] at hentry
      cases hentry
  · cases hentry

theorem homeRoutes_repInv : homeRoutes.RepInv := by
  intro i key entry hentry
  rw [(homeRoutes_some hentry).2]
  exact (LoadBalance.repInv_create 1 2 0).insertHost _ _

/-- The API is given 127.0.0.1:8080 and reports a call. -/
theorem report_credits_home : ∃ answer lb report,
    requestHost Balancer.defaultConfig homeRoutes ⟨0⟩ 1 2 0 0 = Except.ok answer ∧
      LarsClient.takeResponse dotted 0 1 2 answer.rsp =
        (RET_SUCC, some (dotted 0x0100007F, 8080)) ∧
      reportCall undotted 0 Balancer.defaultConfig homeRoutes 1 2 (dotted 0x0100007F) 8080 0 0 =
        Except.ok (Function.update homeRoutes 0
          ((homeRoutes 0).set (pack 1 2) ⟨lb, .pulling, 0⟩), report) ∧
      homeBalance.Credited Balancer.defaultConfig 0 0 lb := by
  have hanswer : ∃ answer,
      requestHost Balancer.defaultConfig homeRoutes ⟨0⟩ 1 2 0 0 = Except.ok answer ∧
        LarsClient.takeResponse dotted 0 1 2 answer.rsp =
          (RET_SUCC, some (dotted 0x0100007F, 8080)) := ⟨_, rfl, rfl⟩
  obtain ⟨answer, hget, htook⟩ := hanswer
  obtain ⟨i, entry, h, hentry, -, hip, hport, hreport⟩ :=
    report_credits undotted_dotted (by decide) (by decide) hget htook
  have hi : i = 0 := (homeRoutes_some hentry).1
  have haddr : h.ip = 0x0100007F := by
    have hsame := undotted_dotted h.ip
    rw [← hip, undotted_dotted] at hsame
    exact (Option.some.inj hsame).symm
  subst hi
  obtain ⟨lb, report, hcall, hcredited⟩ := hreport homeRoutes ⟨homeBalance, .pulling, 0⟩ 0
    (HostInfo.create 0x0100007F 8080 180) homeRoutes_repInv rfl List.mem_cons_self rfl
    haddr.symm hport 0 0 0
  exact ⟨answer, lb, report, hget, htook, hcall, hcredited⟩

end LarsSystem.Agent
