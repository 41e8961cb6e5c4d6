import LarsSystem.HostCredit

/-!
# The address of a host as text, at both ends

The address of a host is a number on its whole way from the route table to the
API. `load_balance::report` prints it through `htonl`; `lars_client::get_host`
gives the number itself to `inet_ntoa`, which takes its bytes in memory order.
The API therefore names the bytes of an address backwards, and the two texts
agree for the addresses that read the same in both directions. `lars_client::report`
turns the text around again, so that the agent is told the address it knows.
-/

namespace LarsSystem.Agent

open LarsSystem.MachineWord

/-! ## Quads -/

/-- The address a.b.c.d in host byte order, as the column `serverip` holds it. -/
def serverip (a b c d : Byte) : CInt :=
  BitVec.ofNat 32 (((a.toNat * 256 + b.toNat) * 256 + c.toNat) * 256 + d.toNat)

/-- The text `a.b.c.d`. -/
def quad (a b c d : Byte) : String :=
  String.ofList (List.intercalate ['.'] ([a, b, c, d].map decimal))

/-- `htonl` of a little-endian machine. -/
def htonl (hostlong : CInt) : CInt := ofLe32 (le32 hostlong).reverse

/-- The text of the address in the lines that `report` prints. -/
def HostInfo.printedAddress (hi : HostInfo) : String := dotted (htonl hi.ip)

theorem serverip_eq (a b c d : Byte) : serverip a b c d = ofLe32 [d, c, b, a] := by
  have ha := a.isLt
  have hb := b.isLt
  have hc := c.isLt
  have hd := d.isLt
  apply BitVec.eq_of_toNat_eq
  change _ = (a ++ b ++ c ++ d).toNat
  rw [serverip, BitVec.toNat_ofNat, BitVec.toNat_append, BitVec.toNat_append,
    BitVec.toNat_append, ← Nat.shiftLeft_add_eq_or_of_lt hd, ← Nat.shiftLeft_add_eq_or_of_lt hc,
    ← Nat.shiftLeft_add_eq_or_of_lt hb, Nat.shiftLeft_eq, Nat.shiftLeft_eq, Nat.shiftLeft_eq,
    Nat.mod_eq_of_lt (by omega)]

theorem le32_serverip (a b c d : Byte) : le32 (serverip a b c d) = [d, c, b, a] := by
  rw [serverip_eq, le32_ofLe32 rfl]

theorem exists_serverip (addr : CInt) : ∃ a b c d, addr = serverip a b c d := by
  have hword := ofLe32_append addr []
  rw [List.append_nil] at hword
  exact ⟨_, _, _, _, hword.symm.trans (serverip_eq _ _ _ _).symm⟩

theorem htonl_serverip (a b c d : Byte) : htonl (serverip a b c d) = serverip d c b a := by
  rw [htonl, le32_serverip, serverip_eq]
  rfl

/-- `inet_ntoa` reads a quad from its end. -/
theorem dotted_serverip (a b c d : Byte) : dotted (serverip a b c d) = quad d c b a := by
  rw [dotted, le32_serverip]
  rfl

/-- A text has one address. -/
theorem dotted_inj {addr addr' : CInt} : dotted addr = dotted addr' ↔ addr = addr' := by
  refine ⟨fun htext => ?_, congrArg dotted⟩
  have haddr := undotted_dotted addr
  rw [htext, undotted_dotted] at haddr
  exact (Option.some.inj haddr).symm

/-- What `report` prints is the quad of the address. -/
theorem printedAddress_quad {hi : HostInfo} {a b c d : Byte} (hip : hi.ip = serverip a b c d) :
    hi.printedAddress = quad a b c d := by
  rw [HostInfo.printedAddress, hip, htonl_serverip, dotted_serverip]

/-! ## What a caller is given -/

/-- A route table with one module, (1, 2), of one host. -/
def onlyRoutes (h : HostEntry) : RouteLbs := fun i =>
  if i.val = 0 then
    RouteMap.empty.set (pack 1 2)
      ⟨(LoadBalance.create 1 2 0).insertHost Balancer.defaultConfig h, .pulling, 0⟩
  else RouteMap.empty

/-- Every address can be handed out. -/
theorem onlyRoutes_gives (h : HostEntry) :
    ∃ answer, requestHost Balancer.defaultConfig (onlyRoutes h) ⟨0⟩ 1 2 0 0 = Except.ok answer ∧
      answer.rsp.host = some h ∧
      LarsClient.takeResponse dotted 0 1 2 answer.rsp = (RET_SUCC, some (dotted h.ip, h.port)) :=
  ⟨_, rfl, rfl, rfl⟩

/-- The API hands out the bytes of the number as they lie in memory. -/
theorem takeResponse_text {seq ret : BitVec 32} {modid cmdid : CInt} {rsp : GetHostResponse}
    {h : HostEntry} {ip : String} {port : CInt} (hhost : rsp.host = some h)
    (htook : LarsClient.takeResponse dotted seq modid cmdid rsp = (ret, some (ip, port))) :
    ip = dotted h.ip := by
  unfold LarsClient.takeResponse at htook
  split_ifs at htook
  · cases htook
  · rw [hhost] at htook
    cases htook
    rfl
  · cases htook

/-- **What both ends promise** for a host: the text that `report` prints, and the one a caller of
    the API is given when the agent answers with the host, is the quad of its address. -/
def SameAddress (hi : HostInfo) : Prop :=
  ∀ a b c d : Byte, hi.ip = serverip a b c d →
    hi.printedAddress = quad a b c d ∧
    ∀ (cfg : LbConfig) (rLb : RouteLbs) (client : LarsClient) (modid cmdid : CInt)
      (accessCnt : Int) (number : Nat) (answer : HostAnswer) (ret : BitVec 32) (ip : String)
      (port : CInt),
      requestHost cfg rLb client modid cmdid accessCnt number = Except.ok answer →
      answer.rsp.host = some ⟨hi.ip, hi.port⟩ →
      LarsClient.takeResponse dotted client.seqid modid cmdid answer.rsp =
        (ret, some (ip, port)) →
      ip = quad a b c d

/-- A caller that is given the quad has an address that `htonl` leaves as it is. -/
theorem SameAddress.palindrome {hi : HostInfo} (hsame : SameAddress hi) {a b c d : Byte}
    (hip : hi.ip = serverip a b c d) : a = d ∧ b = c := by
  obtain ⟨answer, hrequest, hhost, htook⟩ := onlyRoutes_gives ⟨hi.ip, hi.port⟩
  have htext := (hsame a b c d hip).2 _ _ _ _ _ _ _ _ _ _ _ hrequest hhost htook
  rw [← dotted_serverip, dotted_inj, hip] at htext
  have hbytes := congrArg le32 htext
  rw [le32_serverip, le32_serverip] at hbytes
  simp only [List.cons.injEq, and_true] at hbytes
  exact ⟨hbytes.2.2.2, hbytes.2.2.1⟩

/-- **API and agent mean the same address exactly where it is a quad a.b.b.a.** -/
theorem sameAddress_iff (hi : HostInfo) :
    SameAddress hi ↔ ∃ a b, hi.ip = serverip a b b a := by
  constructor
  · intro hsame
    obtain ⟨a, b, c, d, hip⟩ := exists_serverip hi.ip
    obtain ⟨rfl, rfl⟩ := hsame.palindrome hip
    exact ⟨a, b, hip⟩
  · rintro ⟨a, b, hip⟩ a' b' c' d' hip'
    refine ⟨printedAddress_quad hip', ?_⟩
    intro cfg rLb client modid cmdid accessCnt number answer ret ip port hrequest hhost htook
    have hquads := congrArg le32 (hip.symm.trans hip')
    rw [le32_serverip, le32_serverip] at hquads
    cases hquads
    rw [takeResponse_text hhost htook]
    change dotted hi.ip = _
    rw [hip, dotted_serverip]

/-- The host 192.168.1.177:7777 of `dns_route_insert.sql`. -/
theorem inserted_host_backwards : ¬ SameAddress (HostInfo.create 3232235953 7777 180) := by
  intro hsame
  have hip : (HostInfo.create 3232235953 7777 180).ip = serverip 192 168 1 177 := by decide
  exact absurd (hsame.palindrome hip).1 (by decide)

end LarsSystem.Agent
