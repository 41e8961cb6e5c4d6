import LarsSystem.LoadBalance
import LarsSystem.Transition

/-!
# What each operation of a `load_balance` does

One lemma for each operation says all it can do: what it leaves of the lists, the
hosts and the map, and where it does not end. An invariant follows from these
without another look at the code. The first one is what no operation can break: a
listed host is there, in the list that its flag names, and a host that is there is
filed under its own key.
-/

namespace LarsSystem.Agent

open LarsSystem.MachineWord
open LarsSystem.Transition

namespace LoadBalance

/-- A listed host has the address. -/
def Names (lb : LoadBalance) (h : HostEntry) : Prop :=
  ∃ p ∈ lb.idleList ++ lb.overloadList, ∃ hi, lb.heap.cells p = some hi ∧
    h = ⟨hi.ip, hi.port⟩

/-! ## Lists without one host -/

section Filter

variable {p : Ptr}

theorem filter_ne_subset {l : List Ptr} {q : Ptr} (hq : q ∈ l.filter (· ≠ p)) : q ∈ l :=
  (List.mem_filter.mp hq).1

theorem not_mem_filter_ne (l : List Ptr) : p ∉ l.filter (· ≠ p) := by
  intro hp
  exact absurd rfl (of_decide_eq_true (List.mem_filter.mp hp).2)

theorem mem_append_self {l : List Ptr} {q : Ptr} (hq : q ∈ l ++ [p]) (hqp : q ≠ p) : q ∈ l := by
  rcases List.mem_append.mp hq with hl | hlast
  · exact hl
  · exact absurd (List.mem_singleton.mp hlast) hqp

theorem filter_ne_of_notMem {l : List Ptr} {p : Ptr} (hp : p ∉ l) : l.filter (· ≠ p) = l := by
  apply List.filter_eq_self.mpr
  intro q hq
  simpa using fun heq : q = p => hp (heq ▸ hq)

end Filter

section Operations

variable {cfg : LbConfig} {lb lb' : LoadBalance}

/-! ## `choice_one_host` -/

/-- Taking a host from a list rotates the list. -/
theorem getHostFromList_cases {l l' : List Ptr} {h : HostEntry}
    (hget : lb.getHostFromList l = Except.ok (h, l')) :
    l'.Perm l ∧ ∃ p ∈ l, ∃ hi, lb.heap.cells p = some hi ∧ h = ⟨hi.ip, hi.port⟩ := by
  cases l with
  | nil => cases hget
  | cons p rest =>
    simp only [getHostFromList, host] at hget
    cases hcell : lb.heap.cells p with
    | none =>
      rw [hcell] at hget
      cases hget
    | some hi =>
      rw [hcell] at hget
      cases hget
      exact ⟨List.perm_append_singleton p rest, p, List.mem_cons_self, hi, hcell, rfl⟩

/-- **What `choice_one_host` does where it ends**: it changes the counter and the order of the
    lists, and hands out a listed host or none. -/
theorem choiceOneHost_cases {ret : BitVec 32} {h : Option HostEntry}
    (hchoice : lb.choiceOneHost cfg = Except.ok (ret, h, lb')) :
    (∃ accessCnt idle overload, idle.Perm lb.idleList ∧ overload.Perm lb.overloadList ∧
      lb' = { lb with accessCnt := accessCnt, idleList := idle, overloadList := overload }) ∧
    (ret = RET_OVERLOAD ∨ ∃ entry, h = some entry ∧ lb.Names entry) := by
  have hnames : ∀ {l l' : List Ptr} {entry : HostEntry},
      l ⊆ lb.idleList ++ lb.overloadList → lb.getHostFromList l = Except.ok (entry, l') →
        lb.Names entry := by
    intro l l' entry hsub hget
    obtain ⟨-, p, hp, hi, hcell, hentry⟩ := getHostFromList_cases hget
    exact ⟨p, hsub hp, hi, hcell, hentry⟩
  unfold choiceOneHost at hchoice
  split at hchoice
  · split at hchoice
    · -- all hosts are overload, and one is probed
      split at hchoice
      · cases hchoice
      · rename_i entry overload hget
        cases hchoice
        exact ⟨⟨_, _, _, List.Perm.refl _, (getHostFromList_cases hget).1, rfl⟩,
          Or.inr ⟨entry, rfl, hnames (List.subset_append_right _ _) hget⟩⟩
    · cases hchoice
      exact ⟨⟨_, _, _, List.Perm.refl _, List.Perm.refl _, rfl⟩, Or.inl rfl⟩
  · split at hchoice
    · split at hchoice
      · cases hchoice
      · rename_i entry idle hget
        cases hchoice
        exact ⟨⟨_, _, _, (getHostFromList_cases hget).1, List.Perm.refl _, rfl⟩,
          Or.inr ⟨entry, rfl, hnames (List.subset_append_left _ _) hget⟩⟩
    · -- a host is taken from one of the lists, and then an idle one
      simp only at hchoice
      split at hchoice
      · cases hchoice
      · rename_i mid hmid
        have hpermuted : ∃ accessCnt idle overload, idle.Perm lb.idleList ∧
            overload.Perm lb.overloadList ∧ mid =
              { lb with accessCnt := accessCnt, idleList := idle, overloadList := overload } := by
          split at hmid <;> split at hmid <;> cases hmid <;> rename_i hget
          · exact ⟨_, _, _, List.Perm.refl _, (getHostFromList_cases hget).1, rfl⟩
          · exact ⟨_, _, _, (getHostFromList_cases hget).1, List.Perm.refl _, rfl⟩
        obtain ⟨accessCnt, idle, overload, hidle, hover, rfl⟩ := hpermuted
        split at hchoice
        · cases hchoice
        · rename_i entry idle' hget
          cases hchoice
          refine ⟨⟨_, _, _, (getHostFromList_cases hget).1.trans hidle, hover, rfl⟩,
            Or.inr ⟨entry, rfl, hnames ?_ hget⟩⟩
          exact fun q hq => List.mem_append_left _ (hidle.mem_iff.mp hq)

theorem getHostFromList_ok {l : List Ptr} (hne : l ≠ [])
    (hlive : ∀ p ∈ l, ∃ hi, lb.host p = Except.ok hi) :
    ∃ h l', lb.getHostFromList l = Except.ok (h, l') ∧ l' ≠ [] := by
  obtain ⟨p, rest, rfl⟩ := List.exists_cons_of_ne_nil hne
  obtain ⟨hi, hhost⟩ := hlive p List.mem_cons_self
  exact ⟨⟨hi.ip, hi.port⟩, rest ++ [p], by simp only [getHostFromList, hhost], by simp⟩

/-- There is a host to choose, or the answer is that all are overload. -/
def CanChoose (cfg : LbConfig) (lb : LoadBalance) : Prop :=
  lb.idleList ++ lb.overloadList ≠ [] ∨ lb.accessCnt < cfg.probeNum

/-- **`choice_one_host` ends exactly where it can choose**, if the listed hosts are there. -/
theorem choiceOneHost_ok_iff
    (hlive : ∀ p ∈ lb.idleList ++ lb.overloadList, ∃ hi, lb.host p = Except.ok hi) :
    (∃ r, lb.choiceOneHost cfg = Except.ok r) ↔ lb.CanChoose cfg := by
  have hliveIdle : ∀ p ∈ lb.idleList, ∃ hi, lb.host p = Except.ok hi :=
    fun p hp => hlive p (List.mem_append_left _ hp)
  have hliveOver : ∀ p ∈ lb.overloadList, ∃ hi, lb.host p = Except.ok hi :=
    fun p hp => hlive p (List.mem_append_right _ hp)
  unfold choiceOneHost CanChoose
  by_cases hidle : lb.idleList = []
  · rw [if_pos hidle, hidle, List.nil_append]
    by_cases hprobe : lb.accessCnt ≥ cfg.probeNum
    · rw [if_pos hprobe]
      by_cases hover : lb.overloadList = []
      · rw [hover]
        refine iff_of_false ?_ (by simpa using hprobe)
        rintro ⟨r, hr⟩
        exact nomatch hr
      · obtain ⟨h, overload, hget, -⟩ := getHostFromList_ok hover hliveOver
        simp only [hget]
        exact iff_of_true ⟨_, rfl⟩ (Or.inl hover)
    · rw [if_neg hprobe]
      exact iff_of_true ⟨_, rfl⟩ (Or.inr (not_le.mp hprobe))
  · rw [if_neg hidle]
    refine iff_of_true ?_ (Or.inl (by simp [hidle]))
    obtain ⟨h, idle, hget, hne⟩ := getHostFromList_ok hidle hliveIdle
    by_cases hover : lb.overloadList = []
    · rw [if_pos hover]
      simp only [hget]
      exact ⟨_, rfl⟩
    · rw [if_neg hover]
      by_cases hprobe : lb.accessCnt ≥ cfg.probeNum
      · obtain ⟨first, overload, hfirst, -⟩ := getHostFromList_ok hover hliveOver
        have hsecond : getHostFromList { lb with accessCnt := 0, overloadList := overload }
            lb.idleList = Except.ok (h, idle) := hget
        rw [if_pos hprobe]
        simp only [hfirst, hsecond]
        exact ⟨_, rfl⟩
      · have hlive' : ∀ p ∈ idle, ∃ hi, lb.host p = Except.ok hi := fun p hp =>
          hliveIdle p ((getHostFromList_cases hget).1.mem_iff.mp hp)
        obtain ⟨second, idle', hsecond, -⟩ := getHostFromList_ok hne hlive'
        have hsecond' : getHostFromList
            { lb with accessCnt := lb.accessCnt + 1, idleList := idle } idle =
              Except.ok (second, idle') := hsecond
        rw [if_neg hprobe]
        simp only [hget, hsecond']
        exact ⟨_, rfl⟩

/-! ## `report` -/

theorem report_absent {ip port retcode : BitVec 32}
    (hlookup : lb.hostMap.lookup (pack ip port) = none) :
    lb.report cfg ip port retcode = Except.ok lb := by
  simp only [report, hlookup]

theorem report_deleted {ip port retcode : BitVec 32} {p : Ptr}
    (hlookup : lb.hostMap.lookup (pack ip port) = some p) (hcell : lb.heap.cells p = none) :
    lb.report cfg ip port retcode = Except.error Fault.deletedHost := by
  simp only [report, hlookup, host, hcell]

/-- The host behind `p` is changed, and is in the list that its flag names. -/
structure Refiled (lb : LoadBalance) (p : Ptr) (old hi : HostInfo) (heap : ObjectHeap HostInfo)
    (idle overload : List Ptr) : Prop where
  next : heap.next = lb.heap.next
  self : heap.cells p = some hi
  other : ∀ q ≠ p, heap.cells q = lb.heap.cells q
  lists : hi.overload = old.overload ∧ idle = lb.idleList ∧ overload = lb.overloadList ∨
    old.overload = false ∧ hi.overload = true ∧ idle = lb.idleList.filter (· ≠ p) ∧
      overload = lb.overloadList ++ [p] ∨
    old.overload = true ∧ hi.overload = false ∧ idle = lb.idleList ++ [p] ∧
      overload = lb.overloadList.filter (· ≠ p)

/-- **What `report` does with a host that is there.** -/
theorem report_cases (cfg : LbConfig) {ip port : BitVec 32} {p : Ptr} {old : HostInfo}
    (hlookup : lb.hostMap.lookup (pack ip port) = some p) (hcell : lb.heap.cells p = some old)
    (retcode : BitVec 32) :
    ∃ heap idle overload, lb.report cfg ip port retcode =
        Except.ok { lb with heap := heap, idleList := idle, overloadList := overload } ∧
      Refiled lb p old (old.afterReport cfg retcode) heap idle overload := by
  have hhost : lb.host p = Except.ok old := by simp only [host, hcell]
  have hcounted : (lb.heap.modify p fun _ => old.count retcode).cells p =
      some (old.count retcode) := by
    rw [ObjectHeap.modify_self, hcell, Option.map_some]
  have hother : ∀ q ≠ p, (lb.heap.modify p fun _ => old.count retcode).cells q =
      lb.heap.cells q := fun q hq => ObjectHeap.modify_other hq _
  have hstays : Refiled lb p old (old.count retcode)
      (lb.heap.modify p fun _ => old.count retcode) lb.idleList lb.overloadList :=
    ⟨rfl, hcounted, hother, Or.inl ⟨HostInfo.overload_count old retcode, rfl, rfl⟩⟩
  unfold report HostInfo.afterReport
  simp only [hlookup, hhost]
  split
  · rename_i hidle
    rw [HostInfo.overload_count] at hidle
    split
    · refine ⟨_, _, _, rfl, rfl, ?_, ?_, Or.inr (Or.inl ⟨hidle.1, rfl, rfl, rfl⟩)⟩
      · rw [ObjectHeap.modify_self, hcounted, Option.map_some]
      · intro q hq
        rw [ObjectHeap.modify_other hq, hother q hq]
    · exact ⟨_, _, _, rfl, hstays⟩
  · split
    · rename_i hover
      rw [HostInfo.overload_count] at hover
      split
      · refine ⟨_, _, _, rfl, rfl, ?_, ?_, Or.inr (Or.inr ⟨hover.1, rfl, rfl, rfl⟩)⟩
        · rw [ObjectHeap.modify_self, hcounted, Option.map_some]
        · intro q hq
          rw [ObjectHeap.modify_other hq, hother q hq]
      · exact ⟨_, _, _, rfl, hstays⟩
    · exact ⟨_, _, _, rfl, hstays⟩

/-- `report` leaves the counter and the addresses alone. -/
theorem report_frame {ip port retcode : BitVec 32}
    (hreport : lb.report cfg ip port retcode = Except.ok lb') :
    lb'.accessCnt = lb.accessCnt ∧ lb'.hostMap = lb.hostMap := by
  rcases hlookup : lb.hostMap.lookup (pack ip port) with _ | p
  · obtain rfl := Except.ok.inj ((report_absent hlookup).symm.trans hreport)
    exact ⟨rfl, rfl⟩
  · rcases hcell : lb.heap.cells p with _ | old
    · exact nomatch (report_deleted hlookup hcell).symm.trans hreport
    · obtain ⟨heap, idle, overload, hcases, -⟩ := report_cases cfg hlookup hcell retcode
      obtain rfl := Except.ok.inj (hcases.symm.trans hreport)
      exact ⟨rfl, rfl⟩

/-! ## `update` -/

theorem mem_insertHost (cfg : LbConfig) (lb : LoadBalance) (h : HostEntry) (key : BitVec 64) :
    key ∈ (lb.insertHost cfg h).hostMap ↔ key = h.key ∨ key ∈ lb.hostMap := by
  unfold insertHost
  split
  · rename_i hmem
    constructor
    · exact Or.inr
    · rintro (rfl | hold)
      · exact hmem
      · exact hold
  · exact AList.mem_insert _

/-- The keys after the first half of `update`. -/
theorem mem_insertHosts (cfg : LbConfig) (lb : LoadBalance) (rsp : List HostEntry)
    (key : BitVec 64) :
    key ∈ (rsp.foldl (LoadBalance.insertHost cfg) lb).hostMap ↔
      key ∈ rsp.map HostEntry.key ∨ key ∈ lb.hostMap := by
  induction rsp generalizing lb with
  | nil => simp
  | cons h rsp ih =>
    rw [List.foldl_cons, ih, mem_insertHost, List.map_cons, List.mem_cons]
    tauto

/-- A `delete` takes the host out of its list. -/
theorem deleteHost_cases {key : BitVec 64} (hdelete : lb.deleteHost key = Except.ok lb') :
    ∃ p hi, lb.hostMap.lookup key = some p ∧ lb.heap.cells p = some hi ∧
      lb' = { lb with
        idleList := if hi.overload then lb.idleList else lb.idleList.filter (· ≠ p)
        overloadList := if hi.overload then lb.overloadList.filter (· ≠ p) else lb.overloadList
        heap := lb.heap.free p } := by
  unfold deleteHost at hdelete
  split at hdelete
  · cases hdelete
  · rename_i p hlookup
    simp only [host] at hdelete
    cases hcell : lb.heap.cells p with
    | none =>
      rw [hcell] at hdelete
      cases hdelete
    | some hi =>
      simp only [hcell] at hdelete
      refine ⟨p, hi, hlookup, hcell, ?_⟩
      split at hdelete <;> cases hdelete
      · rename_i hflag
        rw [if_pos hflag, if_pos hflag]
      · rename_i hflag
        rw [if_neg hflag, if_neg hflag]

theorem deleteHost_map {key : BitVec 64} (hdelete : lb.deleteHost key = Except.ok lb') :
    lb'.hostMap = lb.hostMap ∧ ∃ p, lb.hostMap.lookup key = some p ∧
      lb'.heap = lb.heap.free p := by
  obtain ⟨p, hi, hlookup, -, rfl⟩ := deleteHost_cases hdelete
  exact ⟨rfl, p, hlookup, rfl⟩

/-- Deletions leave the map alone and the deleted hosts dangling. -/
theorem deleteHosts_map {keys : List (BitVec 64)}
    (hdelete : keys.foldlM deleteHost lb = Except.ok lb') :
    lb'.hostMap = lb.hostMap ∧
      (∀ p, lb.heap.cells p = none → lb'.heap.cells p = none) ∧
      ∀ key ∈ keys, ∀ p, lb.hostMap.lookup key = some p → lb'.heap.cells p = none := by
  induction keys generalizing lb with
  | nil =>
    cases hdelete
    exact ⟨rfl, fun _ h => h, fun key hkey => absurd hkey List.not_mem_nil⟩
  | cons key keys ih =>
    rw [List.foldlM_cons] at hdelete
    cases hfirst : lb.deleteHost key with
    | error fault =>
      rw [hfirst] at hdelete
      cases hdelete
    | ok mid =>
      rw [hfirst] at hdelete
      obtain ⟨hmap, p, hlookup, hheap⟩ := deleteHost_map hfirst
      obtain ⟨hmap', hdangling, hdeleted⟩ := ih hdelete
      refine ⟨hmap'.trans hmap, ?_, ?_⟩
      · intro q hq
        apply hdangling
        rw [hheap]
        exact ObjectHeap.free_dangling hq p
      · intro other hother q hq
        rcases List.mem_cons.mp hother with rfl | hrest
        · cases hlookup.symm.trans hq
          apply hdangling
          rw [hheap]
          exact ObjectHeap.free_self _ _
        · exact hdeleted other hrest q (by rw [hmap]; exact hq)

/-- `update` is its two halves. -/
theorem update_eq (cfg : LbConfig) (lb : LoadBalance) {rsp : List HostEntry} (hne : rsp ≠ []) :
    lb.update cfg rsp =
      ((rsp.foldl (LoadBalance.insertHost cfg) lb).hostMap.keys.filter
        (· ∉ rsp.map HostEntry.key)).foldlM deleteHost
          (rsp.foldl (LoadBalance.insertHost cfg) lb) := by
  rw [LoadBalance.update, if_neg (by simpa using hne)]

theorem ne_nil_of_update {cfg : LbConfig} {rsp : List HostEntry} {lb' : LoadBalance}
    (hupdate : lb.update cfg rsp = Except.ok lb') : rsp ≠ [] := by
  rintro rfl
  exact nomatch hupdate

/-- No key goes out of the map. -/
theorem mem_update {cfg : LbConfig} {rsp : List HostEntry} {lb' : LoadBalance}
    (hupdate : lb.update cfg rsp = Except.ok lb') (key : BitVec 64) :
    key ∈ lb'.hostMap ↔ key ∈ rsp.map HostEntry.key ∨ key ∈ lb.hostMap := by
  rw [update_eq cfg lb (ne_nil_of_update hupdate)] at hupdate
  rw [(deleteHosts_map hupdate).1, mem_insertHosts]

/-! ## `commit` -/

theorem callResults_ok (overload : Bool) {hosts : List Ptr}
    (hlive : ∀ p ∈ hosts, ∃ hi, lb.host p = Except.ok hi) :
    ∃ results, lb.callResults overload hosts = Except.ok results := by
  induction hosts with
  | nil => exact ⟨[], rfl⟩
  | cons p hosts ih =>
    obtain ⟨hi, hhost⟩ := hlive p List.mem_cons_self
    obtain ⟨results, hrest⟩ := ih fun q hq => hlive q (List.mem_cons_of_mem _ hq)
    unfold callResults at hrest ⊢
    rw [List.mapM_cons, hhost]
    refine ⟨⟨hi.ip, hi.port, hi.rsucc, hi.rerr, overload⟩ :: results, ?_⟩
    change (do
      let rest ← hosts.mapM fun q => do
        let hi ← lb.host q
        return (⟨hi.ip, hi.port, hi.rsucc, hi.rerr, overload⟩ : HostCallResult)
      pure (_ :: rest)) = _
    rw [hrest]
    rfl

theorem commit_ok (cfg : LbConfig)
    (hlive : ∀ p ∈ lb.idleList ++ lb.overloadList, ∃ hi, lb.host p = Except.ok hi)
    (ts : BitVec 32) : ∃ req, lb.commit cfg ts = Except.ok req := by
  unfold commit
  split
  · exact ⟨none, rfl⟩
  · obtain ⟨idle, hidle⟩ := callResults_ok false fun p hp => hlive p (List.mem_append_left _ hp)
    obtain ⟨overload, hover⟩ := callResults_ok true fun p hp => hlive p (List.mem_append_right _ hp)
    rw [hidle, hover]
    exact ⟨_, rfl⟩

end Operations

/-! ## Hosts that are there -/

/-- A listed host is there, in the list that its flag names, and a host that is there is filed
    under its own key. -/
structure Alive (lb : LoadBalance) : Prop where
  idle : ∀ p ∈ lb.idleList, ∃ hi, lb.heap.cells p = some hi ∧ hi.overload = false
  overload : ∀ p ∈ lb.overloadList, ∃ hi, lb.heap.cells p = some hi ∧ hi.overload = true
  filed : ∀ key p hi, lb.hostMap.lookup key = some p → lb.heap.cells p = some hi → hi.key = key
  known : ∀ key p, lb.hostMap.lookup key = some p → p < lb.heap.next

/-- The key leads to no deleted host. -/
def HostThere (lb : LoadBalance) (key : BitVec 64) : Prop :=
  ∀ p, lb.hostMap.lookup key = some p → ∃ hi, lb.heap.cells p = some hi

theorem alive_create (modid cmdid : BitVec 32) (accessCnt : Int) :
    Alive (create modid cmdid accessCnt) := by
  constructor
  · intro p hp
    exact absurd hp List.not_mem_nil
  · intro p hp
    exact absurd hp List.not_mem_nil
  · intro key p hi hlookup
    simp [create] at hlookup
  · intro key p hlookup
    simp [create] at hlookup

section Alive

variable {cfg : LbConfig} {lb lb' : LoadBalance}

theorem Alive.live (halive : Alive lb) {p : Ptr} (hp : p ∈ lb.idleList ++ lb.overloadList) :
    ∃ hi, lb.host p = Except.ok hi := by
  rcases List.mem_append.mp hp with hidle | hover
  · obtain ⟨hi, hcell, -⟩ := halive.idle p hidle
    exact ⟨hi, by simp only [host, hcell]⟩
  · obtain ⟨hi, hcell, -⟩ := halive.overload p hover
    exact ⟨hi, by simp only [host, hcell]⟩

theorem Alive.choice (halive : Alive lb) {ret : BitVec 32} {h : Option HostEntry}
    (hchoice : lb.choiceOneHost cfg = Except.ok (ret, h, lb')) : Alive lb' := by
  obtain ⟨⟨accessCnt, idle, overload, hidle, hover, rfl⟩, -⟩ := choiceOneHost_cases hchoice
  exact ⟨fun p hp => halive.idle p (hidle.mem_iff.mp hp),
    fun p hp => halive.overload p (hover.mem_iff.mp hp), halive.filed, halive.known⟩

theorem Alive.idle_flag (halive : Alive lb) {p : Ptr} {hi : HostInfo} (hp : p ∈ lb.idleList)
    (hcell : lb.heap.cells p = some hi) : hi.overload = false := by
  obtain ⟨hi', hcell', hflag⟩ := halive.idle p hp
  rw [Option.some.inj (hcell.symm.trans hcell'), hflag]

theorem Alive.overload_flag (halive : Alive lb) {p : Ptr} {hi : HostInfo}
    (hp : p ∈ lb.overloadList) (hcell : lb.heap.cells p = some hi) : hi.overload = true := by
  obtain ⟨hi', hcell', hflag⟩ := halive.overload p hp
  rw [Option.some.inj (hcell.symm.trans hcell'), hflag]

/-- A list whose hosts have the flag `flag`, after one host was changed and moved. -/
theorem Refiled.flags {p : Ptr} {old hi : HostInfo} {heap : ObjectHeap HostInfo}
    {idle overload : List Ptr} (refiled : Refiled lb p old hi heap idle overload)
    (hcell : lb.heap.cells p = some old) {l l' : List Ptr} {flag : Bool}
    (hl : ∀ q ∈ l, ∃ hi', lb.heap.cells q = some hi' ∧ hi'.overload = flag)
    (hmoved : hi.overload = old.overload ∧ l' = l ∨ l' = l.filter (· ≠ p) ∨
      hi.overload = flag ∧ l' = l ++ [p]) :
    ∀ q ∈ l', ∃ hi', heap.cells q = some hi' ∧ hi'.overload = flag := by
  have hother : ∀ q ∈ l, q ≠ p → ∃ hi', heap.cells q = some hi' ∧ hi'.overload = flag := by
    intro q hq hqp
    rw [refiled.other q hqp]
    exact hl q hq
  intro q hq
  rcases hmoved with ⟨hkept, rfl⟩ | rfl | ⟨hflag, rfl⟩
  · by_cases hqp : q = p
    · obtain ⟨hi', hcell', hflag⟩ := hl q hq
      rw [hqp, hcell] at hcell'
      exact ⟨hi, by rw [hqp, refiled.self], by rw [hkept, Option.some.inj hcell', hflag]⟩
    · exact hother q hq hqp
  · exact hother q (filter_ne_subset hq) fun hqp => not_mem_filter_ne _ (hqp ▸ hq)
  · by_cases hqp : q = p
    · exact ⟨hi, by rw [hqp, refiled.self], hflag⟩
    · exact hother q (mem_append_self hq hqp) hqp

/-- Changing a host, and with its flag the list it is in. -/
theorem Alive.refiled (halive : Alive lb) {p : Ptr} {old hi : HostInfo}
    (hcell : lb.heap.cells p = some old) (hkey : hi.key = old.key) {heap : ObjectHeap HostInfo}
    {idle overload : List Ptr} (refiled : Refiled lb p old hi heap idle overload) :
    Alive { lb with heap := heap, idleList := idle, overloadList := overload } := by
  constructor
  · apply refiled.flags hcell halive.idle
    rcases refiled.lists with ⟨hkept, hidle, -⟩ | ⟨-, -, hidle, -⟩ | ⟨-, hflag, hidle, -⟩
    · exact Or.inl ⟨hkept, hidle⟩
    · exact Or.inr (Or.inl hidle)
    · exact Or.inr (Or.inr ⟨hflag, hidle⟩)
  · apply refiled.flags hcell halive.overload
    rcases refiled.lists with ⟨hkept, -, hover⟩ | ⟨-, hflag, -, hover⟩ | ⟨-, -, -, hover⟩
    · exact Or.inl ⟨hkept, hover⟩
    · exact Or.inr (Or.inr ⟨hflag, hover⟩)
    · exact Or.inr (Or.inl hover)
  · intro key q host hlookup hhost
    by_cases hqp : q = p
    · subst hqp
      obtain rfl := Option.some.inj (refiled.self.symm.trans hhost)
      exact hkey.trans (halive.filed key q old hlookup hcell)
    · exact halive.filed key q host hlookup ((refiled.other q hqp).symm.trans hhost)
  · intro key q hlookup
    rw [refiled.next]
    exact halive.known key q hlookup

theorem hostThere_of_report {ip port retcode : BitVec 32}
    (hreport : lb.report cfg ip port retcode = Except.ok lb') : lb.HostThere (pack ip port) := by
  intro p hlookup
  rcases hcell : lb.heap.cells p with _ | hi
  · exact nomatch (report_deleted hlookup hcell).symm.trans hreport
  · exact ⟨hi, rfl⟩

/-- A report keeps it, and ends where its host is there. -/
theorem Alive.report (cfg : LbConfig) (halive : Alive lb) {ip port : BitVec 32}
    (hthere : lb.HostThere (pack ip port)) (retcode : BitVec 32) :
    ∃ lb', lb.report cfg ip port retcode = Except.ok lb' ∧ Alive lb' := by
  rcases hlookup : lb.hostMap.lookup (pack ip port) with _ | p
  · exact ⟨lb, report_absent hlookup, halive⟩
  · obtain ⟨old, hcell⟩ := hthere p hlookup
    obtain ⟨heap, idle, overload, hreport, refiled⟩ := report_cases cfg hlookup hcell retcode
    exact ⟨_, hreport, halive.refiled hcell (HostInfo.key_afterReport cfg old retcode) refiled⟩

theorem Alive.insertHost (cfg : LbConfig) (halive : Alive lb) (h : HostEntry) :
    Alive (lb.insertHost cfg h) := by
  unfold LoadBalance.insertHost
  split
  · exact halive
  · constructor
    · intro q hq
      rcases List.mem_append.mp hq with hold | hlast
      · obtain ⟨hi, hcell, hflag⟩ := halive.idle q hold
        exact ⟨hi, ObjectHeap.alloc_live hcell _, hflag⟩
      · rw [List.mem_singleton.mp hlast]
        exact ⟨_, ObjectHeap.alloc_self _ _, rfl⟩
    · intro q hq
      obtain ⟨hi, hcell, hflag⟩ := halive.overload q hq
      exact ⟨hi, ObjectHeap.alloc_live hcell _, hflag⟩
    · intro key q hi hkey hcell
      by_cases hsame : key = h.key
      · rw [hsame, AList.lookup_insert] at hkey
        rw [← Option.some.inj hkey, ObjectHeap.alloc_self] at hcell
        rw [← Option.some.inj hcell, hsame]
        rfl
      · rw [AList.lookup_insert_ne hsame] at hkey
        rw [ObjectHeap.alloc_below (halive.known key q hkey)] at hcell
        exact halive.filed key q hi hkey hcell
    · intro key q hkey
      by_cases hsame : key = h.key
      · rw [hsame, AList.lookup_insert] at hkey
        rw [← Option.some.inj hkey]
        exact Nat.lt_succ_self _
      · rw [AList.lookup_insert_ne hsame] at hkey
        exact Nat.lt_succ_of_lt (halive.known key q hkey)

theorem Alive.insertHosts (cfg : LbConfig) (halive : Alive lb) (rsp : List HostEntry) :
    Alive (rsp.foldl (LoadBalance.insertHost cfg) lb) :=
  List.foldlRecOn rsp (LoadBalance.insertHost cfg) halive fun _ halive' h _ =>
    halive'.insertHost cfg h

theorem Alive.deleteHost (halive : Alive lb) {key : BitVec 64}
    (hdelete : lb.deleteHost key = Except.ok lb') : Alive lb' := by
  obtain ⟨p, gone, -, hcell, rfl⟩ := deleteHost_cases hdelete
  have hidle : ∀ q ∈ (if gone.overload then lb.idleList else lb.idleList.filter (· ≠ p)),
      q ∈ lb.idleList ∧ q ≠ p := by
    intro q hq
    split at hq
    · rename_i hflag
      refine ⟨hq, ?_⟩
      rintro rfl
      exact Bool.noConfusion (hflag.symm.trans (halive.idle_flag hq hcell))
    · exact ⟨filter_ne_subset hq, of_decide_eq_true (List.mem_filter.mp hq).2⟩
  have hover : ∀ q ∈ (if gone.overload then lb.overloadList.filter (· ≠ p) else lb.overloadList),
      q ∈ lb.overloadList ∧ q ≠ p := by
    intro q hq
    split at hq
    · exact ⟨filter_ne_subset hq, of_decide_eq_true (List.mem_filter.mp hq).2⟩
    · rename_i hflag
      refine ⟨hq, ?_⟩
      rintro rfl
      exact hflag (halive.overload_flag hq hcell)
  constructor
  · intro q hq
    rw [ObjectHeap.free_other (hidle q hq).2]
    exact halive.idle q (hidle q hq).1
  · intro q hq
    rw [ObjectHeap.free_other (hover q hq).2]
    exact halive.overload q (hover q hq).1
  · intro other q hi hlookup hhost
    by_cases hqp : q = p
    · rw [hqp, ObjectHeap.free_self] at hhost
      exact nomatch hhost
    · rw [ObjectHeap.free_other hqp] at hhost
      exact halive.filed other q hi hlookup hhost
  · exact halive.known

theorem Alive.deleteHosts (halive : Alive lb) {keys : List (BitVec 64)}
    (hdelete : keys.foldlM LoadBalance.deleteHost lb = Except.ok lb') : Alive lb' :=
  foldlM_invariant Alive (fun _ _ _ hdeleted halive => halive.deleteHost hdeleted) hdelete halive

theorem Alive.update (halive : Alive lb) {rsp : List HostEntry}
    (hupdate : lb.update cfg rsp = Except.ok lb') : Alive lb' := by
  rw [update_eq cfg lb (ne_nil_of_update hupdate)] at hupdate
  exact (halive.insertHosts cfg rsp).deleteHosts hupdate

end Alive

end LoadBalance

end LarsSystem.Agent
