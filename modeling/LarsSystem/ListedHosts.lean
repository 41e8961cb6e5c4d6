import LarsSystem.UpdateHosts

/-!
# The hosts that a `load_balance` can hand out

Once a host has left, `_host_map` leads to deleted hosts, and the representation is
lost for good. What stays: the listed hosts are those that are there and filed under
their own key. So whatever was deleted before, an answer of the DNS service leaves
no other hosts to hand out than its own, and nothing else brings one in.
-/

namespace LarsSystem.Agent

open LarsSystem.MachineWord

namespace LoadBalance

/-- What no operation breaks, and that the listed hosts are those that are there and filed. -/
structure Catalogued (lb : LoadBalance) : Prop where
  alive : Alive lb
  listed : ∀ p, p ∈ lb.idleList ++ lb.overloadList ↔
    ∃ hi, lb.heap.cells p = some hi ∧ lb.hostMap.lookup hi.key = some p

theorem catalogued_create (modid cmdid : BitVec 32) (accessCnt : Int) :
    Catalogued (create modid cmdid accessCnt) where
  alive := alive_create modid cmdid accessCnt
  listed := by
    intro p
    refine iff_of_false List.not_mem_nil ?_
    rintro ⟨hi, hcell, -⟩
    cases hcell

theorem not_names_create (modid cmdid : BitVec 32) (accessCnt : Int) (h : HostEntry) :
    ¬ (create modid cmdid accessCnt).Names h := by
  rintro ⟨p, hp, -⟩
  exact List.not_mem_nil hp

section Catalogued

variable {cfg : LbConfig} {lb lb' : LoadBalance}

/-- The addresses of the listed hosts, by the map. -/
theorem Catalogued.names_iff (catalogued : Catalogued lb) {h : HostEntry} :
    lb.Names h ↔ ∃ p hi, lb.hostMap.lookup h.key = some p ∧ lb.heap.cells p = some hi := by
  constructor
  · rintro ⟨p, hp, hi, hcell, rfl⟩
    obtain ⟨hi', hcell', hlookup⟩ := (catalogued.listed p).mp hp
    cases hcell.symm.trans hcell'
    exact ⟨p, hi, hlookup, hcell⟩
  · rintro ⟨p, hi, hlookup, hcell⟩
    have hkey : hi.key = h.key := catalogued.alive.filed h.key p hi hlookup hcell
    refine ⟨p, (catalogued.listed p).mpr ⟨hi, hcell, by rw [hkey]; exact hlookup⟩, hi, hcell, ?_⟩
    exact HostEntry.key_inj.mp hkey.symm

/-! ## Choices and reports -/

theorem Catalogued.choice (catalogued : Catalogued lb) {ret : BitVec 32} {h : Option HostEntry}
    (hchoice : lb.choiceOneHost cfg = Except.ok (ret, h, lb')) : Catalogued lb' := by
  have halive := catalogued.alive.choice hchoice
  obtain ⟨⟨accessCnt, idle, overload, hidle, hover, rfl⟩, -⟩ := choiceOneHost_cases hchoice
  exact ⟨halive, fun p => (hidle.append hover).mem_iff.trans (catalogued.listed p)⟩

theorem names_choice {ret : BitVec 32} {h : Option HostEntry}
    (hchoice : lb.choiceOneHost cfg = Except.ok (ret, h, lb')) (host : HostEntry) :
    lb'.Names host ↔ lb.Names host := by
  obtain ⟨⟨accessCnt, idle, overload, hidle, hover, rfl⟩, -⟩ := choiceOneHost_cases hchoice
  unfold Names
  simp only [(hidle.append hover).mem_iff]

/-- The host that a report is about stays listed, in one of the lists. -/
theorem Catalogued.refiled (catalogued : Catalogued lb) {p : Ptr} {old hi : HostInfo}
    (hcell : lb.heap.cells p = some old) (hlookup : lb.hostMap.lookup old.key = some p)
    (hkey : hi.key = old.key) {heap : ObjectHeap HostInfo} {idle overload : List Ptr}
    (refiled : Refiled lb p old hi heap idle overload) :
    Catalogued { lb with heap := heap, idleList := idle, overloadList := overload } := by
  have hself : p ∈ idle ++ overload := by
    have hp := (catalogued.listed p).mpr ⟨old, hcell, hlookup⟩
    rcases refiled.lists with ⟨-, rfl, rfl⟩ | ⟨-, -, rfl, rfl⟩ | ⟨-, -, rfl, rfl⟩ <;> simp_all
  have hother : ∀ q ≠ p, q ∈ idle ++ overload ↔ q ∈ lb.idleList ++ lb.overloadList := by
    intro q hq
    rcases refiled.lists with ⟨-, rfl, rfl⟩ | ⟨-, -, rfl, rfl⟩ | ⟨-, -, rfl, rfl⟩ <;> simp [hq]
  refine ⟨catalogued.alive.refiled hcell hkey refiled, ?_⟩
  intro q
  by_cases hq : q = p
  · rw [hq]
    exact iff_of_true hself ⟨hi, refiled.self, by rw [hkey]; exact hlookup⟩
  · exact (hother q hq).trans (by simpa only [refiled.other q hq] using catalogued.listed q)

theorem Catalogued.report (catalogued : Catalogued lb) {ip port retcode : BitVec 32}
    (hreport : lb.report cfg ip port retcode = Except.ok lb') :
    Catalogued lb' ∧ ∀ h, lb'.Names h ↔ lb.Names h := by
  rcases hlookup : lb.hostMap.lookup (pack ip port) with _ | p
  · obtain rfl := Except.ok.inj ((report_absent hlookup).symm.trans hreport)
    exact ⟨catalogued, fun _ => Iff.rfl⟩
  · obtain ⟨old, hcell⟩ := hostThere_of_report hreport p hlookup
    obtain ⟨heap, idle, overload, hcases, refiled⟩ := report_cases cfg hlookup hcell retcode
    obtain rfl := Except.ok.inj (hcases.symm.trans hreport)
    have hfiled : old.key = pack ip port := catalogued.alive.filed _ p old hlookup hcell
    have hafter := catalogued.refiled hcell (by rw [hfiled]; exact hlookup)
      (HostInfo.key_afterReport cfg old retcode) refiled
    refine ⟨hafter, fun h => ?_⟩
    rw [hafter.names_iff, catalogued.names_iff]
    -- the same hosts are there
    apply exists_congr
    intro q
    by_cases hq : q = p
    · subst hq
      simp only [refiled.self, hcell, Option.some.injEq, exists_and_left, exists_eq', and_true]
    · simp only [refiled.other q hq]

/-! ## Answers -/

theorem Catalogued.insertHost (cfg : LbConfig) (catalogued : Catalogued lb) (h : HostEntry) :
    Catalogued (lb.insertHost cfg h) := by
  have halive := catalogued.alive.insertHost cfg h
  refine ⟨halive, ?_⟩
  intro p
  by_cases hold : h.key ∈ lb.hostMap
  · have hsame : lb.insertHost cfg h = lb := if_pos hold
    rw [hsame]
    exact catalogued.listed p
  · rw [LoadBalance.insertHost, if_neg hold]
    have hnone : lb.hostMap.lookup h.key = none := AList.lookup_eq_none.mpr hold
    have hmoved : p ∈ (lb.idleList ++ [lb.heap.next]) ++ lb.overloadList ↔
        p = lb.heap.next ∨ p ∈ lb.idleList ++ lb.overloadList := by
      simp only [List.mem_append, List.mem_singleton]
      tauto
    rw [hmoved, catalogued.listed p]
    by_cases hnew : p = lb.heap.next
    · subst hnew
      exact iff_of_true (Or.inl rfl) ⟨_, ObjectHeap.alloc_self _ _, AList.lookup_insert _⟩
    · have hcells : (lb.heap.alloc (HostInfo.create h.ip h.port cfg.initSuccCnt)).cells p =
          lb.heap.cells p := Function.update_of_ne hnew _ _
      simp only [hnew, false_or, hcells]
      apply exists_congr
      intro hi
      apply and_congr_right
      intro _
      by_cases hkey : hi.key = h.key
      · rw [hkey, hnone, AList.lookup_insert]
        simpa using fun heq : lb.heap.next = p => hnew heq.symm
      · rw [AList.lookup_insert_ne hkey]

theorem Catalogued.insertHosts (cfg : LbConfig) (catalogued : Catalogued lb)
    (rsp : List HostEntry) : Catalogued (rsp.foldl (LoadBalance.insertHost cfg) lb) :=
  List.foldlRecOn rsp (LoadBalance.insertHost cfg) catalogued fun _ catalogued' h _ =>
    catalogued'.insertHost cfg h

theorem Catalogued.deleteHost (catalogued : Catalogued lb) {key : BitVec 64}
    (hdelete : lb.deleteHost key = Except.ok lb') : Catalogued lb' := by
  have halive := catalogued.alive.deleteHost hdelete
  obtain ⟨p, gone, -, hcell, rfl⟩ := deleteHost_cases hdelete
  have hlisted : ∀ q, q ∈ (if gone.overload then lb.idleList else lb.idleList.filter (· ≠ p)) ++
      (if gone.overload then lb.overloadList.filter (· ≠ p) else lb.overloadList) ↔
      q ≠ p ∧ q ∈ lb.idleList ++ lb.overloadList := by
    intro q
    by_cases hq : q = p
    · subst hq
      refine iff_of_false ?_ (fun h => h.1 rfl)
      -- a host that was deleted is in neither list
      intro hmem
      have hlive := halive.live hmem
      simp [host] at hlive
    · split <;> simp [hq]
  refine ⟨halive, fun q => ?_⟩
  rw [hlisted q, catalogued.listed q]
  by_cases hq : q = p
  · subst hq
    simp
  · simp [hq]

theorem Catalogued.deleteHosts (catalogued : Catalogued lb) {keys : List (BitVec 64)}
    (hdelete : keys.foldlM LoadBalance.deleteHost lb = Except.ok lb') : Catalogued lb' :=
  Transition.foldlM_invariant Catalogued
    (fun _ _ _ hdeleted catalogued => catalogued.deleteHost hdeleted) hdelete catalogued

/-- **An answer leaves no other hosts than its own**, whatever was deleted before it. -/
theorem Catalogued.update (catalogued : Catalogued lb) {rsp : List HostEntry}
    (hupdate : lb.update cfg rsp = Except.ok lb') :
    Catalogued lb' ∧ ∀ h, lb'.Names h → h ∈ rsp := by
  rw [update_eq cfg lb (ne_nil_of_update hupdate)] at hupdate
  have hafter := (catalogued.insertHosts cfg rsp).deleteHosts hupdate
  refine ⟨hafter, ?_⟩
  intro h hnames
  obtain ⟨hmap, -, hdeleted⟩ := deleteHosts_map hupdate
  obtain ⟨p, hi, hlookup, hcell⟩ := hafter.names_iff.mp hnames
  rw [hmap] at hlookup
  by_contra hleft
  have hneeded : h.key ∈ (rsp.foldl (LoadBalance.insertHost cfg) lb).hostMap.keys.filter
      (· ∉ rsp.map HostEntry.key) := by
    refine List.mem_filter.mpr ⟨AList.mem_keys.mp (AList.lookup_isSome.mp ?_), ?_⟩
    · rw [hlookup]
      rfl
    · refine decide_eq_true fun hmem => hleft ?_
      obtain ⟨h', hh', hkey⟩ := List.mem_map.mp hmem
      exact HostEntry.key_inj.mp hkey ▸ hh'
  rw [hdeleted h.key hneeded p hlookup] at hcell
  cases hcell

end Catalogued

end LoadBalance

end LarsSystem.Agent
