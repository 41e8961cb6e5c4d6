import LarsSystem.HostLists

/-!
# The representation of a `load_balance`

The map, the two lists and the overload flag of each host tell one story: every
host in the map is in one list, once, the one its flag names. Every operation
keeps it, except an `update` whose answer leaves out a host of the map: that host
is deleted and its entry stays behind. A run is sound exactly if no update in it
does that.
-/

namespace LarsSystem.Agent

open LarsSystem.MachineWord
open LarsSystem.Transition

namespace LoadBalance

/-- Map, lists and flags agree, and nothing refers to a deleted host. -/
structure RepInv (lb : LoadBalance) : Prop where
  nodup : (lb.idleList ++ lb.overloadList).Nodup
  listed : ∀ p, p ∈ lb.idleList ++ lb.overloadList ↔ ∃ key, lb.hostMap.lookup key = some p
  idle : ∀ p ∈ lb.idleList, ∃ hi, lb.heap.cells p = some hi ∧ hi.overload = false
  overload : ∀ p ∈ lb.overloadList, ∃ hi, lb.heap.cells p = some hi ∧ hi.overload = true
  filed : ∀ key p, lb.hostMap.lookup key = some p → ∃ hi, lb.heap.cells p = some hi ∧ hi.key = key

theorem repInv_create (modid cmdid : BitVec 32) (accessCnt : Int) :
    RepInv (create modid cmdid accessCnt) := by
  constructor
  · exact List.nodup_nil
  · intro p
    simp [create]
  · intro p hp
    exact absurd hp List.not_mem_nil
  · intro p hp
    exact absurd hp List.not_mem_nil
  · intro key p hlookup
    simp [create] at hlookup

section RepInv

variable {lb : LoadBalance}

theorem RepInv.alive (hinv : RepInv lb) : Alive lb where
  idle := hinv.idle
  overload := hinv.overload
  filed := by
    intro key p hi hlookup hcell
    obtain ⟨hi', hcell', hfiled⟩ := hinv.filed key p hlookup
    obtain rfl := Option.some.inj (hcell.symm.trans hcell')
    exact hfiled
  known := by
    intro key p hlookup
    obtain ⟨hi, hcell, -⟩ := hinv.filed key p hlookup
    exact ObjectHeap.lt_next hcell

theorem RepInv.there (hinv : RepInv lb) (key : BitVec 64) : lb.HostThere key := by
  intro p hlookup
  obtain ⟨hi, hcell, -⟩ := hinv.filed key p hlookup
  exact ⟨hi, hcell⟩

/-- The representation is what no operation breaks, and that the lists have the hosts of the map,
    each once, and none of them deleted. -/
theorem repInv_of_alive (halive : Alive lb) (hnodup : (lb.idleList ++ lb.overloadList).Nodup)
    (hlisted : ∀ p, p ∈ lb.idleList ++ lb.overloadList ↔ ∃ key, lb.hostMap.lookup key = some p)
    (hthere : ∀ key, lb.HostThere key) : RepInv lb := by
  refine ⟨hnodup, hlisted, halive.idle, halive.overload, ?_⟩
  intro key p hlookup
  obtain ⟨hi, hcell⟩ := hthere key p hlookup
  exact ⟨hi, hcell, halive.filed key p hi hlookup hcell⟩

theorem RepInv.live (hinv : RepInv lb) {p : Ptr} (hp : p ∈ lb.idleList ++ lb.overloadList) :
    ∃ hi, lb.host p = Except.ok hi := hinv.alive.live hp

/-! ## `choice_one_host` -/

theorem RepInv.some_listed (hinv : RepInv lb) (hne : lb.empty = false) :
    lb.idleList ++ lb.overloadList ≠ [] := by
  intro hnone
  cases hentries : lb.hostMap.entries with
  | nil => simp [empty, hentries] at hne
  | cons entry entries =>
    have hlookup : lb.hostMap.lookup entry.1 = some entry.2 := by
      apply AList.mem_lookup_iff.mpr
      rw [hentries]
      exact List.mem_cons_self
    have hlisted := (hinv.listed entry.2).mpr ⟨entry.1, hlookup⟩
    rw [hnone] at hlisted
    exact absurd hlisted List.not_mem_nil

/-- `choice_one_host` on a map with hosts takes one, or answers that all are overload. -/
theorem RepInv.choice (cfg : LbConfig) (hinv : RepInv lb) (hne : lb.empty = false) :
    ∃ ret h lb', lb.choiceOneHost cfg = Except.ok (ret, h, lb') ∧ RepInv lb' ∧
      lb'.hostMap = lb.hostMap := by
  obtain ⟨⟨ret, h, lb'⟩, hchoice⟩ :=
    (choiceOneHost_ok_iff fun _ hp => hinv.live hp).mpr (Or.inl (hinv.some_listed hne))
  have halive := hinv.alive.choice hchoice
  obtain ⟨⟨accessCnt, idle, overload, hidle, hover, rfl⟩, -⟩ := choiceOneHost_cases hchoice
  -- the lists are in another order
  have hboth := hidle.append hover
  refine ⟨ret, h, _, hchoice, repInv_of_alive halive (hboth.nodup_iff.mpr hinv.nodup) ?_ hinv.there,
    rfl⟩
  exact fun p => hboth.mem_iff.trans (hinv.listed p)

/-! ## `report` -/

/-- Taking an element out of one list and appending it to another keeps what the two
    hold together. -/
theorem move_perm {l m : List Ptr} {p : Ptr} (hnodup : l.Nodup) (hp : p ∈ l) :
    (l.filter (· ≠ p) ++ (m ++ [p])).Perm (l ++ m) := by
  have herase : l.filter (· ≠ p) = l.erase p := by
    rw [hnodup.erase_eq_filter]
    congr 1
    funext q
    by_cases hq : q = p <;> simp [hq]
  rw [herase]
  have hfront : (l.erase p ++ (m ++ [p])).Perm (p :: (l.erase p ++ m)) := by
    rw [← List.append_assoc]
    exact List.perm_append_singleton p _
  exact hfront.trans ((List.perm_cons_erase hp).symm.append_right m)

/-- A listed host is in the list its flag names. -/
theorem RepInv.mem_idle (hinv : RepInv lb) {p : Ptr} {hi : HostInfo}
    (hcell : lb.heap.cells p = some hi) {key : BitVec 64} (hkey : lb.hostMap.lookup key = some p)
    (hflag : hi.overload = false) : p ∈ lb.idleList := by
  rcases List.mem_append.mp ((hinv.listed p).mpr ⟨key, hkey⟩) with hidle | hover
  · exact hidle
  · exact Bool.noConfusion (hflag.symm.trans (hinv.alive.overload_flag hover hcell))

theorem RepInv.mem_overload (hinv : RepInv lb) {p : Ptr} {hi : HostInfo}
    (hcell : lb.heap.cells p = some hi) {key : BitVec 64} (hkey : lb.hostMap.lookup key = some p)
    (hflag : hi.overload = true) : p ∈ lb.overloadList := by
  rcases List.mem_append.mp ((hinv.listed p).mpr ⟨key, hkey⟩) with hidle | hover
  · exact Bool.noConfusion (hflag.symm.trans (hinv.alive.idle_flag hidle hcell))
  · exact hover

/-- A report keeps the representation, and the map as it is. -/
theorem RepInv.report (cfg : LbConfig) (hinv : RepInv lb) (ip port retcode : BitVec 32) :
    ∃ lb', lb.report cfg ip port retcode = Except.ok lb' ∧ RepInv lb' ∧
      lb'.hostMap = lb.hostMap := by
  rcases hlookup : lb.hostMap.lookup (pack ip port) with _ | p
  · exact ⟨lb, report_absent hlookup, hinv, rfl⟩
  · obtain ⟨old, hcell⟩ := hinv.there _ p hlookup
    obtain ⟨heap, idle, overload, hreport, refiled⟩ := report_cases cfg hlookup hcell retcode
    have halive := hinv.alive.refiled hcell (HostInfo.key_afterReport cfg old retcode) refiled
    obtain ⟨hidleNodup, hoverNodup, -⟩ := List.nodup_append'.mp hinv.nodup
    -- the host goes from the list of its old flag to that of its new one
    have hperm : (idle ++ overload).Perm (lb.idleList ++ lb.overloadList) := by
      rcases refiled.lists with ⟨-, rfl, rfl⟩ | ⟨hflag, -, rfl, rfl⟩ | ⟨hflag, -, rfl, rfl⟩
      · exact List.Perm.refl _
      · exact move_perm hidleNodup (hinv.mem_idle hcell hlookup hflag)
      · exact List.perm_append_comm.trans ((move_perm hoverNodup
          (hinv.mem_overload hcell hlookup hflag)).trans List.perm_append_comm)
    refine ⟨_, hreport, repInv_of_alive halive (hperm.nodup_iff.mpr hinv.nodup)
      (fun q => hperm.mem_iff.trans (hinv.listed q)) ?_, rfl⟩
    intro key q hq
    by_cases hqp : q = p
    · exact ⟨_, hqp ▸ refiled.self⟩
    · obtain ⟨hi, hcell'⟩ := hinv.there key q hq
      exact ⟨hi, (refiled.other q hqp).trans hcell'⟩

/-! ## `update` -/

theorem RepInv.insertHost (cfg : LbConfig) (hinv : RepInv lb) (h : HostEntry) :
    RepInv (lb.insertHost cfg h) := by
  have halive := hinv.alive.insertHost cfg h
  by_cases hold : h.key ∈ lb.hostMap
  · have hsame : lb.insertHost cfg h = lb := if_pos hold
    rw [hsame]
    exact hinv
  · rw [LoadBalance.insertHost, if_neg hold] at halive ⊢
    have hnone : lb.hostMap.lookup h.key = none := AList.lookup_eq_none.mpr hold
    have hmoved : ((lb.idleList ++ [lb.heap.next]) ++ lb.overloadList).Perm
        (lb.heap.next :: (lb.idleList ++ lb.overloadList)) :=
      (List.perm_append_singleton _ _).append_right _
    apply repInv_of_alive halive
    · refine hmoved.nodup_iff.mpr (List.nodup_cons.mpr ⟨?_, hinv.nodup⟩)
      intro hmem
      obtain ⟨key, hkey⟩ := (hinv.listed _).mp hmem
      exact Nat.lt_irrefl _ (hinv.alive.known key _ hkey)
    · intro q
      rw [hmoved.mem_iff, List.mem_cons, hinv.listed q]
      constructor
      · rintro (rfl | ⟨key, hkey⟩)
        · exact ⟨h.key, AList.lookup_insert _⟩
        · refine ⟨key, ?_⟩
          have hne : key ≠ h.key := by
            rintro rfl
            exact absurd (hkey.symm.trans hnone) (by simp)
          rw [AList.lookup_insert_ne hne]
          exact hkey
      · rintro ⟨key, hkey⟩
        by_cases hsame : key = h.key
        · rw [hsame, AList.lookup_insert] at hkey
          exact Or.inl (Option.some.inj hkey).symm
        · rw [AList.lookup_insert_ne hsame] at hkey
          exact Or.inr ⟨key, hkey⟩
    · intro key q hkey
      by_cases hsame : key = h.key
      · rw [hsame, AList.lookup_insert] at hkey
        rw [← Option.some.inj hkey]
        exact ⟨_, ObjectHeap.alloc_self _ _⟩
      · rw [AList.lookup_insert_ne hsame] at hkey
        obtain ⟨hi, hcell⟩ := hinv.there key q hkey
        exact ⟨hi, ObjectHeap.alloc_live hcell _⟩

theorem RepInv.insertHosts (cfg : LbConfig) (hinv : RepInv lb) (rsp : List HostEntry) :
    RepInv (rsp.foldl (LoadBalance.insertHost cfg) lb) :=
  List.foldlRecOn rsp (LoadBalance.insertHost cfg) hinv fun _ hinv' h _ => hinv'.insertHost cfg h

/-- An answer with every host of the map deletes none. -/
theorem RepInv.update (cfg : LbConfig) (hinv : RepInv lb) {rsp : List HostEntry}
    (hne : rsp ≠ []) (hall : ∀ key ∈ lb.hostMap, key ∈ rsp.map HostEntry.key) :
    ∃ lb', lb.update cfg rsp = Except.ok lb' ∧ RepInv lb' ∧
      ∀ key, key ∈ lb'.hostMap ↔ key ∈ rsp.map HostEntry.key := by
  have hkeys : ∀ key, key ∈ (rsp.foldl (LoadBalance.insertHost cfg) lb).hostMap ↔
      key ∈ rsp.map HostEntry.key := by
    intro key
    rw [mem_insertHosts]
    exact ⟨fun h => h.elim id (hall key), Or.inl⟩
  have hnone : (rsp.foldl (LoadBalance.insertHost cfg) lb).hostMap.keys.filter
      (· ∉ rsp.map HostEntry.key) = [] := by
    apply List.filter_eq_nil_iff.mpr
    intro key hkey
    simpa using (hkeys key).mp (AList.mem_keys.mpr hkey)
  refine ⟨rsp.foldl (LoadBalance.insertHost cfg) lb, ?_, hinv.insertHosts cfg rsp, hkeys⟩
  rw [update_eq cfg lb hne, hnone]
  rfl

/-- An answer that leaves out a host of the map breaks the representation. -/
theorem not_repInv_update {cfg : LbConfig} {rsp : List HostEntry}
    {lb' : LoadBalance} (hupdate : lb.update cfg rsp = Except.ok lb') {key : BitVec 64}
    (hkey : key ∈ lb.hostMap) (hleft : key ∉ rsp.map HostEntry.key) : ¬ RepInv lb' := by
  intro hinv'
  rw [update_eq cfg lb (ne_nil_of_update hupdate)] at hupdate
  obtain ⟨hmap, -, hdeleted⟩ := deleteHosts_map hupdate
  have hstays := (mem_insertHosts cfg lb rsp key).mpr (Or.inr hkey)
  obtain ⟨p, hp⟩ := Option.isSome_iff_exists.mp (AList.lookup_isSome.mpr hstays)
  have hneeded : key ∈ (rsp.foldl (LoadBalance.insertHost cfg) lb).hostMap.keys.filter
      (· ∉ rsp.map HostEntry.key) :=
    List.mem_filter.mpr ⟨AList.mem_keys.mp hstays, by simpa using hleft⟩
  obtain ⟨hi, hcell, -⟩ := hinv'.filed key p (by rw [hmap]; exact hp)
  exact absurd (hcell.symm.trans (hdeleted key hneeded p hp)) (by simp)

/-! ## `commit` -/

theorem RepInv.commit (cfg : LbConfig) (hinv : RepInv lb) (ts : BitVec 32) :
    ∃ req, lb.commit cfg ts = Except.ok req :=
  commit_ok cfg (fun _ hp => hinv.live hp) ts

end RepInv

end LoadBalance

/-! ## Runs

A `load_balance` with the hosts of the last DNS answer, none before the first one. -/

structure Balancer where
  lb : LoadBalance
  lastAnswer : List HostEntry

/-- The operations of `route_lb`; an answer without hosts does not get to `update`. -/
inductive BalancerOp where
  | update (rsp : List HostEntry) (nonempty : rsp ≠ [])
  | choice
  | report (ip port retcode : BitVec 32)
  | commit (ts : BitVec 32)

namespace Balancer

def create (modid cmdid : BitVec 32) (accessCnt : Int) : Balancer :=
  ⟨LoadBalance.create modid cmdid accessCnt, []⟩

/-- One operation; `get_host` chooses only where the map has hosts. -/
def step (cfg : LbConfig) (b : Balancer) : BalancerOp → Except Fault Balancer
  | .update rsp _ => (b.lb.update cfg rsp).map fun lb => ⟨lb, rsp⟩
  | .choice =>
    if b.lb.empty then Except.ok b
    else (b.lb.choiceOneHost cfg).map fun (_, _, lb) => { b with lb := lb }
  | .report ip port retcode => (b.lb.report cfg ip port retcode).map fun lb => { b with lb := lb }
  | .commit ts => (b.lb.commit cfg ts).map fun _ => b

/-- **What the load balancer promises**, in every state: its representation is intact,
    and a report for a host that the last answer did not name changes nothing. -/
def Sound (cfg : LbConfig) (b : Balancer) : Prop :=
  b.lb.RepInv ∧ ∀ ip port retcode, (⟨ip, port⟩ : HostEntry) ∉ b.lastAnswer →
    b.lb.report cfg ip port retcode = Except.ok b.lb

/-- No host of the map is missing from the answer. -/
def NoHostLeaves (b : Balancer) : BalancerOp → Prop
  | .update rsp _ => ∀ key ∈ b.lb.hostMap, key ∈ rsp.map HostEntry.key
  | _ => True

/-- The invariant: the map also holds exactly the hosts of the last answer. -/
structure Inv (b : Balancer) : Prop where
  rep : b.lb.RepInv
  answered : ∀ key, key ∈ b.lb.hostMap ↔ key ∈ b.lastAnswer.map HostEntry.key

theorem Inv.sound {b : Balancer} (cfg : LbConfig) (hinv : Inv b) : b.Sound cfg := by
  refine ⟨hinv.rep, ?_⟩
  intro ip port retcode habsent
  have hmissing : pack ip port ∉ b.lb.hostMap := by
    intro hmem
    obtain ⟨h, hmem', hkey⟩ := List.mem_map.mp ((hinv.answered _).mp hmem)
    obtain ⟨rfl, rfl⟩ := pack_inj.mp hkey
    exact habsent hmem'
  unfold LoadBalance.report
  rw [AList.lookup_eq_none.mpr hmissing]

/-- One operation that takes no host away keeps the invariant and does not fail. -/
theorem Inv.step {b : Balancer} (cfg : LbConfig) (hinv : Inv b) (op : BalancerOp)
    (hguard : b.NoHostLeaves op) : Lands Inv (fun _ => False) (b.step cfg op) := by
  cases op with
  | update rsp nonempty =>
    obtain ⟨lb, hupdate, hrep, hkeys⟩ := hinv.rep.update cfg nonempty hguard
    simp only [Balancer.step, hupdate]
    exact ⟨hrep, hkeys⟩
  | choice =>
    unfold Balancer.step
    cases hempty : b.lb.empty with
    | true => exact hinv
    | false =>
      obtain ⟨ret, h, lb, hchoice, hrep, hmap⟩ := hinv.rep.choice cfg hempty
      simp only [Bool.false_eq_true, if_false, hchoice]
      exact ⟨hrep, fun key => by rw [hmap]; exact hinv.answered key⟩
  | report ip port retcode =>
    obtain ⟨lb, hreport, hrep, hmap⟩ := hinv.rep.report cfg ip port retcode
    simp only [Balancer.step, hreport]
    exact ⟨hrep, fun key => by rw [hmap]; exact hinv.answered key⟩
  | commit ts =>
    obtain ⟨req, hcommit⟩ := hinv.rep.commit cfg ts
    simp only [Balancer.step, hcommit]
    exact hinv

theorem noHostLeaves_of_lands {b : Balancer} (cfg : LbConfig) (op : BalancerOp)
    (hlands : Lands (Sound cfg) (fun _ => False) (b.step cfg op)) : b.NoHostLeaves op := by
  cases op with
  | update rsp nonempty =>
    intro key hkey
    by_contra hleft
    simp only [Balancer.step] at hlands
    cases hupdate : b.lb.update cfg rsp with
    | error fault =>
      rw [hupdate] at hlands
      exact hlands
    | ok lb =>
      rw [hupdate] at hlands
      exact LoadBalance.not_repInv_update hupdate hkey hleft hlands.1
  | choice => trivial
  | report ip port retcode => trivial
  | commit ts => trivial

/-- **The representation holds in every state of a run exactly if no host ever leaves.** -/
theorem sound_iff_no_host_leaves (cfg : LbConfig) (modid cmdid : BitVec 32) (accessCnt : Int)
    (ops : List BalancerOp) :
    Safe (step cfg) (Sound cfg) (fun _ => False) (create modid cmdid accessCnt) ops ↔
      Meets (step cfg) NoHostLeaves (create modid cmdid accessCnt) ops := by
  apply safe_iff_meets Inv
  · exact fun b hinv => hinv.sound cfg
  · exact fun b op hinv hguard => hinv.step cfg op hguard
  · exact fun b op _ hlands => noHostLeaves_of_lands cfg op hlands
  · refine ⟨LoadBalance.repInv_create modid cmdid accessCnt, ?_⟩
    intro key
    simp [create, LoadBalance.create]

/-- The `float`s nearest to 0.1 and to 0.92. -/
def defaultErrRate : Single :=
  ⟨13421773 / 134217728, 13421773, -27, by decide, by norm_num⟩

def defaultSuccRate : Single :=
  ⟨15435039 / 16777216, 15435039, -24, by decide, by norm_num⟩

/-- The defaults of the configuration. -/
def defaultConfig : LbConfig :=
  ⟨10, 180, 5, defaultErrRate, defaultSuccRate, 10, 10, 0⟩

/-- A host leaves and comes back, and no host is left to choose: after ten answers of
    overload the front of an empty list is taken. -/
theorem host_comes_back :
    ¬ Safe (step defaultConfig) (Sound defaultConfig) (fun _ => False) (create 1 1 0)
      ([.update [⟨1, 80⟩] (by simp), .update [⟨2, 80⟩] (by simp), .update [⟨1, 80⟩] (by simp)] ++
        List.replicate 11 .choice) := by
  intro hsafe
  obtain ⟨b, hrun, -⟩ := hsafe.ends
  have hfront : ([.update [⟨1, 80⟩] (by simp), .update [⟨2, 80⟩] (by simp),
      .update [⟨1, 80⟩] (by simp)] ++ List.replicate 11 .choice : List BalancerOp).foldlM
        (step defaultConfig) (create 1 1 0) = Except.error Fault.emptyFront := rfl
  exact absurd (hrun.symm.trans hfront) (by simp)

end Balancer

end LarsSystem.Agent
