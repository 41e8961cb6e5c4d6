import LarsSystem.LoadBalanceInvariant

/-!
# What `load_balance::update` leaves

An answer of the DNS service is to become the set of hosts: hosts that are in it
stay as they are and where they are, new ones are appended to the idle list in
the order in which the answer names them first, and the others leave. The two
lists and the hosts behind them come out so for every answer. The map comes out
so only where no host leaves, because `update` deletes a host without taking its
key out of `_host_map`. A later `update` that leaves the host out again follows
the pointer to what was deleted.
-/

namespace LarsSystem.Agent

open LarsSystem.MachineWord

theorem HostEntry.key_inj {h h' : HostEntry} : h.key = h'.key ↔ h = h' := by
  constructor
  · intro hkey
    obtain ⟨hip, hport⟩ := pack_inj.mp hkey
    cases h
    cases h'
    exact congrArg₂ HostEntry.mk hip hport
  · exact congrArg HostEntry.key

namespace LoadBalance

/-- The host behind `p` is in the answer. -/
def Stays (lb : LoadBalance) (rsp : List HostEntry) (p : Ptr) : Prop :=
  ∃ h ∈ rsp, lb.hostMap.lookup h.key = some p

instance (lb : LoadBalance) (rsp : List HostEntry) (p : Ptr) : Decidable (lb.Stays rsp p) :=
  inferInstanceAs (Decidable (∃ h ∈ rsp, lb.hostMap.lookup h.key = some p))

/-- The hosts that the answer brings, in the order of their first appearance. -/
def newHosts (lb : LoadBalance) (rsp : List HostEntry) : List HostEntry :=
  (rsp.filter (·.key ∉ lb.hostMap)).eraseDups

/-- What is right after every `update`: the lists and the hosts in them. -/
structure Lists (cfg : LbConfig) (lb : LoadBalance) (rsp : List HostEntry) (lb' : LoadBalance) :
    Prop where
  idle : ∃ fresh, lb'.idleList = lb.idleList.filter (lb.Stays rsp) ++ fresh ∧
    fresh.map lb'.heap.cells =
      (lb.newHosts rsp).map fun h => some (HostInfo.create h.ip h.port cfg.initSuccCnt)
  overload : lb'.overloadList = lb.overloadList.filter (lb.Stays rsp)
  survivors : ∀ p, lb.Stays rsp p → lb'.heap.cells p = lb.heap.cells p
  listed : ∀ h, lb'.Names h ↔ h ∈ rsp

/-- **What `update` promises.** -/
structure Installs (cfg : LbConfig) (lb : LoadBalance) (rsp : List HostEntry)
    (lb' : LoadBalance) : Prop extends Lists cfg lb rsp lb' where
  map : ∀ key, key ∈ lb'.hostMap ↔ key ∈ rsp.map HostEntry.key
  kept : ∀ h ∈ rsp, h.key ∈ lb.hostMap → lb'.hostMap.lookup h.key = lb.hostMap.lookup h.key

/-! ## Inserting -/

section Insert

variable {lb : LoadBalance}

theorem newHosts_cons_known {h : HostEntry} {rsp : List HostEntry} (hknown : h.key ∈ lb.hostMap) :
    lb.newHosts (h :: rsp) = lb.newHosts rsp := by
  rw [newHosts, List.filter_cons_of_neg (by simpa using hknown), newHosts]

theorem newHosts_cons_new (cfg : LbConfig) {h : HostEntry} {rsp : List HostEntry}
    (hnew : h.key ∉ lb.hostMap) :
    lb.newHosts (h :: rsp) = h :: (lb.insertHost cfg h).newHosts rsp := by
  rw [newHosts, List.filter_cons_of_pos (by simpa using hnew), List.eraseDups_cons, newHosts,
    List.filter_filter]
  congr 2
  apply List.filter_congr
  intro h' _
  have hmem := mem_insertHost cfg lb h h'.key
  rw [HostEntry.key_inj] at hmem
  by_cases hsame : h' = h
  · subst hsame
    simp [hmem]
  · simp [hmem, hsame]

/-- **The first half of `update`** appends the new hosts to the idle list and leaves the others
    alone. -/
theorem insertHosts_fresh (cfg : LbConfig) (lb : LoadBalance) (rsp : List HostEntry) :
    (∃ fresh, (rsp.foldl (insertHost cfg) lb).idleList = lb.idleList ++ fresh ∧
      fresh.map (rsp.foldl (insertHost cfg) lb).heap.cells =
        (lb.newHosts rsp).map fun h => some (HostInfo.create h.ip h.port cfg.initSuccCnt)) ∧
    (rsp.foldl (insertHost cfg) lb).overloadList = lb.overloadList ∧
    (∀ p < lb.heap.next, (rsp.foldl (insertHost cfg) lb).heap.cells p = lb.heap.cells p) ∧
    ∀ key p, lb.hostMap.lookup key = some p →
      (rsp.foldl (insertHost cfg) lb).hostMap.lookup key = some p := by
  induction rsp generalizing lb with
  | nil => exact ⟨⟨[], by simp [newHosts]⟩, rfl, fun _ _ => rfl, fun _ _ h => h⟩
  | cons h rsp ih =>
    obtain ⟨⟨fresh, hidle, hcells⟩, hover, hbelow, hlookup⟩ := ih (lb.insertHost cfg h)
    rw [List.foldl_cons]
    by_cases hknown : h.key ∈ lb.hostMap
    · have hsame : lb.insertHost cfg h = lb := if_pos hknown
      rw [hsame] at hidle hcells hover hbelow hlookup ⊢
      rw [newHosts_cons_known hknown]
      exact ⟨⟨fresh, hidle, hcells⟩, hover, hbelow, hlookup⟩
    · have hinserted : lb.insertHost cfg h = { lb with
          heap := lb.heap.alloc (HostInfo.create h.ip h.port cfg.initSuccCnt)
          hostMap := lb.hostMap.insert h.key lb.heap.next
          idleList := lb.idleList ++ [lb.heap.next] } := if_neg hknown
      have hnone : lb.hostMap.lookup h.key = none := AList.lookup_eq_none.mpr hknown
      rw [newHosts_cons_new cfg hknown]
      refine ⟨⟨lb.heap.next :: fresh, ?_, ?_⟩, ?_, ?_, ?_⟩
      · rw [hidle, hinserted, List.append_assoc]
        rfl
      · have hcell := hbelow lb.heap.next (by rw [hinserted]; exact Nat.lt_succ_self _)
        rw [List.map_cons, List.map_cons, hcells, hcell, hinserted]
        congr 1
        exact ObjectHeap.alloc_self _ _
      · rw [hover, hinserted]
      · intro p hp
        rw [hbelow p (by rw [hinserted]; exact Nat.lt_succ_of_lt hp), hinserted]
        exact ObjectHeap.alloc_below hp _
      · intro key p hkey
        apply hlookup key p
        have hother : key ≠ h.key := by
          rintro rfl
          exact absurd (hkey.symm.trans hnone) (by simp)
        rw [hinserted]
        exact (AList.lookup_insert_ne hother).trans hkey

end Insert

/-! ## Deleting -/

/-- The host behind a key is there and in the list that its flag names. -/
structure Filed (lb : LoadBalance) (key : BitVec 64) (p : Ptr) (hi : HostInfo) : Prop where
  lookup : lb.hostMap.lookup key = some p
  cell : lb.heap.cells p = some hi
  key : hi.key = key
  idle : hi.overload = true → p ∉ lb.idleList
  overload : hi.overload = false → p ∉ lb.overloadList

/-- The lists and the heap after the hosts behind `keys` are deleted. -/
structure Deleted (lb : LoadBalance) (keys : List (BitVec 64)) (lb' : LoadBalance) : Prop where
  hostMap : lb'.hostMap = lb.hostMap
  idle : lb'.idleList = lb.idleList.filter fun p => ∀ key ∈ keys, lb.hostMap.lookup key ≠ some p
  overload : lb'.overloadList =
    lb.overloadList.filter fun p => ∀ key ∈ keys, lb.hostMap.lookup key ≠ some p
  cells : ∀ p, (∀ key ∈ keys, lb.hostMap.lookup key ≠ some p) →
    lb'.heap.cells p = lb.heap.cells p

theorem Filed.delete {lb : LoadBalance} {key : BitVec 64} {p : Ptr} {hi : HostInfo}
    (filed : lb.Filed key p hi) :
    lb.deleteHost key = Except.ok { lb with
      idleList := lb.idleList.filter (· ≠ p)
      overloadList := lb.overloadList.filter (· ≠ p)
      heap := lb.heap.free p } := by
  have hhost : lb.host p = Except.ok hi := by simp only [host, filed.cell]
  simp only [deleteHost, filed.lookup, hhost]
  split
  · rename_i hflag
    rw [filter_ne_of_notMem (filed.idle hflag)]
  · rename_i hflag
    rw [filter_ne_of_notMem (filed.overload (Bool.eq_false_iff.mpr hflag))]

theorem filter_keys_cons {lb : LoadBalance} {key : BitVec 64} {keys : List (BitVec 64)} {p : Ptr}
    (hlookup : lb.hostMap.lookup key = some p) (l : List Ptr) :
    (l.filter (· ≠ p)).filter (fun q => ∀ other ∈ keys, lb.hostMap.lookup other ≠ some q) =
      l.filter fun q => ∀ other ∈ key :: keys, lb.hostMap.lookup other ≠ some q := by
  rw [List.filter_filter]
  apply List.filter_congr
  intro q _
  rw [← Bool.decide_and, decide_eq_decide, List.forall_mem_cons, hlookup, and_comm]
  have hsame : q ≠ p ↔ some p ≠ some q :=
    not_congr ⟨fun h => congrArg some h.symm, fun h => (Option.some.inj h).symm⟩
  exact and_congr_left fun _ => hsame

/-- **The second half of `update`**: different keys of hosts that are there delete one host each. -/
theorem deleteHosts_filed {lb : LoadBalance} {keys : List (BitVec 64)} (hnodup : keys.Nodup)
    (hfiled : ∀ key ∈ keys, ∃ p hi, lb.Filed key p hi) :
    ∃ lb', keys.foldlM deleteHost lb = Except.ok lb' ∧ Deleted lb keys lb' := by
  induction keys generalizing lb with
  | nil => exact ⟨lb, rfl, rfl, by simp, by simp, fun _ _ => rfl⟩
  | cons key keys ih =>
    obtain ⟨hnew, hrest⟩ := List.nodup_cons.mp hnodup
    obtain ⟨p, hi, hfirst⟩ := hfiled key List.mem_cons_self
    -- the hosts behind the other keys are other hosts
    have hfiled' : ∀ other ∈ keys, ∃ q hi', Filed { lb with
        idleList := lb.idleList.filter (· ≠ p)
        overloadList := lb.overloadList.filter (· ≠ p)
        heap := lb.heap.free p } other q hi' := by
      intro other hother
      obtain ⟨q, hi', hlookup, hcell, hkey, hidle, hover⟩ :=
        hfiled other (List.mem_cons_of_mem _ hother)
      have hqp : q ≠ p := by
        rintro rfl
        cases hcell.symm.trans hfirst.cell
        exact hnew (hkey.symm.trans hfirst.key ▸ hother)
      exact ⟨q, hi', hlookup, by rw [ObjectHeap.free_other hqp, hcell], hkey,
        fun hflag hq => hidle hflag (filter_ne_subset hq),
        fun hflag hq => hover hflag (filter_ne_subset hq)⟩
    obtain ⟨lb', hdelete, hmap, hidle, hover, hcells⟩ := ih hrest hfiled'
    refine ⟨lb', ?_, hmap, ?_, ?_, ?_⟩
    · rw [List.foldlM_cons, hfirst.delete]
      exact hdelete
    · rw [hidle]
      exact filter_keys_cons hfirst.lookup lb.idleList
    · rw [hover]
      exact filter_keys_cons hfirst.lookup lb.overloadList
    · intro q hq
      have hqp : q ≠ p := fun heq => hq key List.mem_cons_self (heq ▸ hfirst.lookup)
      rw [hcells q fun other hother => hq other (List.mem_cons_of_mem _ hother)]
      exact ObjectHeap.free_other hqp

/-! ## The whole of `update` -/

section Update

variable {lb : LoadBalance}

theorem Alive.exists_filed (halive : Alive lb) {key : BitVec 64} (hkey : key ∈ lb.hostMap)
    (hthere : lb.HostThere key) : ∃ p hi, lb.Filed key p hi := by
  obtain ⟨p, hlookup⟩ := Option.isSome_iff_exists.mp (AList.lookup_isSome.mpr hkey)
  obtain ⟨hi, hcell⟩ := hthere p hlookup
  refine ⟨p, hi, hlookup, hcell, halive.filed key p hi hlookup hcell, ?_, ?_⟩
  · exact fun hflag hp => Bool.noConfusion (hflag.symm.trans (halive.idle_flag hp hcell))
  · exact fun hflag hp => Bool.noConfusion (hflag.symm.trans (halive.overload_flag hp hcell))

/-- A pointer is filed under one key. -/
theorem RepInv.lookup_unique (hinv : RepInv lb) {key key' : BitVec 64} {p : Ptr}
    (hkey : lb.hostMap.lookup key = some p) (hkey' : lb.hostMap.lookup key' = some p) :
    key = key' := by
  obtain ⟨hi, hcell, hfiled⟩ := hinv.filed key p hkey
  obtain ⟨hi', hcell', hfiled'⟩ := hinv.filed key' p hkey'
  cases hcell.symm.trans hcell'
  exact hfiled.symm.trans hfiled'

/-- What `Names` says of an address whose host is filed. -/
theorem RepInv.entry_eq (hinv : RepInv lb) {h : HostEntry} {p : Ptr} {hi : HostInfo}
    (hlookup : lb.hostMap.lookup h.key = some p) (hcell : lb.heap.cells p = some hi) :
    h = ⟨hi.ip, hi.port⟩ := by
  obtain ⟨hi', hcell', hfiled⟩ := hinv.filed h.key p hlookup
  cases hcell.symm.trans hcell'
  exact HostEntry.key_inj.mp hfiled.symm

theorem mem_newHosts {rsp : List HostEntry} {h : HostEntry} :
    h ∈ lb.newHosts rsp ↔ h ∈ rsp ∧ h.key ∉ lb.hostMap := by
  rw [newHosts, List.mem_eraseDups, List.mem_filter, decide_eq_true_iff]

/-- The fresh objects are the new hosts. -/
theorem mem_fresh {lb' : LoadBalance} {cfg : LbConfig} {rsp : List HostEntry} {fresh : List Ptr}
    (hcells : fresh.map lb'.heap.cells =
      (lb.newHosts rsp).map fun h => some (HostInfo.create h.ip h.port cfg.initSuccCnt)) :
    (∀ p ∈ fresh, ∃ h ∈ lb.newHosts rsp,
      lb'.heap.cells p = some (HostInfo.create h.ip h.port cfg.initSuccCnt)) ∧
    ∀ h ∈ lb.newHosts rsp, ∃ p ∈ fresh,
      lb'.heap.cells p = some (HostInfo.create h.ip h.port cfg.initSuccCnt) := by
  constructor
  · intro p hp
    have hmem := List.mem_map_of_mem (f := lb'.heap.cells) hp
    rw [hcells] at hmem
    obtain ⟨h, hh, heq⟩ := List.mem_map.mp hmem
    exact ⟨h, hh, heq.symm⟩
  · intro h hh
    have hmem := List.mem_map_of_mem
      (f := fun h => some (HostInfo.create h.ip h.port cfg.initSuccCnt)) hh
    rw [← hcells] at hmem
    exact List.mem_map.mp hmem

/-! Which hosts the second half leaves, `mid` being the state between the halves. -/

/-- The keys that `update` deletes. -/
theorem RepInv.kept_iff {mid : LoadBalance} (hinv : RepInv mid) {rsp : List HostEntry}
    {key : BitVec 64} {p : Ptr} (hlookup : mid.hostMap.lookup key = some p) :
    (∀ other ∈ mid.hostMap.keys.filter (· ∉ rsp.map HostEntry.key),
      mid.hostMap.lookup other ≠ some p) ↔ key ∈ rsp.map HostEntry.key := by
  constructor
  · intro hkept
    by_contra hleft
    have hmem : key ∈ mid.hostMap.keys :=
      AList.mem_keys.mp (AList.lookup_isSome.mp (by rw [hlookup]; rfl))
    exact hkept key (List.mem_filter.mpr ⟨hmem, decide_eq_true hleft⟩) hlookup
  · intro hkey other hother hsame
    rw [hinv.lookup_unique hsame hlookup] at hother
    exact of_decide_eq_true (List.mem_filter.mp hother).2 hkey

theorem RepInv.stays_iff (hinv : RepInv lb) {rsp : List HostEntry} {key : BitVec 64} {p : Ptr}
    (hlookup : lb.hostMap.lookup key = some p) :
    lb.Stays rsp p ↔ key ∈ rsp.map HostEntry.key := by
  constructor
  · rintro ⟨h, hrsp, hsame⟩
    rw [hinv.lookup_unique hlookup hsame]
    exact List.mem_map_of_mem hrsp
  · intro hkey
    obtain ⟨h, hrsp, rfl⟩ := List.mem_map.mp hkey
    exact ⟨h, hrsp, hlookup⟩

/-- The hosts that are left in the lists are those of the answer. -/
theorem RepInv.names_deleted {mid lb' : LoadBalance} (hinv : RepInv mid) {rsp : List HostEntry}
    (hmem : ∀ h ∈ rsp, h.key ∈ mid.hostMap)
    (deleted : Deleted mid (mid.hostMap.keys.filter (· ∉ rsp.map HostEntry.key)) lb')
    (h : HostEntry) : lb'.Names h ↔ h ∈ rsp := by
  have hlisted : ∀ p, p ∈ lb'.idleList ++ lb'.overloadList ↔
      p ∈ mid.idleList ++ mid.overloadList ∧
        ∀ key ∈ mid.hostMap.keys.filter (· ∉ rsp.map HostEntry.key),
          mid.hostMap.lookup key ≠ some p := by
    intro p
    rw [deleted.idle, deleted.overload, ← List.filter_append, List.mem_filter,
      decide_eq_true_iff]
  constructor
  · rintro ⟨p, hp, hi, hcell, rfl⟩
    obtain ⟨hmid, hkept⟩ := (hlisted p).mp hp
    obtain ⟨key, hlookup⟩ := (hinv.listed p).mp hmid
    obtain ⟨h, hrsp, rfl⟩ := List.mem_map.mp ((hinv.kept_iff hlookup).mp hkept)
    rw [deleted.cells p hkept] at hcell
    rwa [← hinv.entry_eq hlookup hcell]
  · intro hrsp
    obtain ⟨p, hlookup⟩ := Option.isSome_iff_exists.mp (AList.lookup_isSome.mpr (hmem h hrsp))
    obtain ⟨hi, hcell, -⟩ := hinv.filed h.key p hlookup
    have hkept := (hinv.kept_iff hlookup).mpr (List.mem_map_of_mem hrsp)
    exact ⟨p, (hlisted p).mpr ⟨(hinv.listed p).mpr ⟨h.key, hlookup⟩, hkept⟩, hi,
      (deleted.cells p hkept).trans hcell, hinv.entry_eq hlookup hcell⟩

/-- **The lists are right after every update**; the map keeps every key it had. -/
theorem RepInv.update_lists (cfg : LbConfig) (hinv : RepInv lb) {rsp : List HostEntry}
    (hne : rsp ≠ []) :
    ∃ lb', lb.update cfg rsp = Except.ok lb' ∧ Lists cfg lb rsp lb' ∧
      lb'.hostMap = (rsp.foldl (LoadBalance.insertHost cfg) lb).hostMap := by
  have hinv1 := hinv.insertHosts cfg rsp
  have hmem1 := mem_insertHosts cfg lb rsp
  obtain ⟨⟨fresh, hidle1, hcells1⟩, hover1, hbelow1, hlookup1⟩ := insertHosts_fresh cfg lb rsp
  rw [update_eq cfg lb hne]
  generalize rsp.foldl (LoadBalance.insertHost cfg) lb = mid at *
  have hfiled : ∀ key ∈ mid.hostMap.keys.filter (· ∉ rsp.map HostEntry.key),
      ∃ p hi, mid.Filed key p hi := by
    intro key hkey
    exact hinv1.alive.exists_filed (AList.mem_keys.mpr (List.mem_filter.mp hkey).1)
      (hinv1.there key)
  obtain ⟨lb', hdelete, deleted⟩ :=
    deleteHosts_filed ((AList.keys_nodup mid.hostMap).filter _) hfiled
  -- what was listed before is left exactly if it stays, and what is new is left
  have hold : ∀ p ∈ lb.idleList ++ lb.overloadList,
      (∀ key ∈ mid.hostMap.keys.filter (· ∉ rsp.map HostEntry.key),
        mid.hostMap.lookup key ≠ some p) ↔ lb.Stays rsp p := by
    intro p hp
    obtain ⟨key, hlookup⟩ := (hinv.listed p).mp hp
    rw [hinv1.kept_iff (hlookup1 key p hlookup), hinv.stays_iff hlookup]
  have hfresh : ∀ p ∈ fresh, ∀ key ∈ mid.hostMap.keys.filter (· ∉ rsp.map HostEntry.key),
      mid.hostMap.lookup key ≠ some p := by
    intro p hp
    have hlisted : p ∈ mid.idleList ++ mid.overloadList := by
      rw [hidle1]
      exact List.mem_append_left _ (List.mem_append_right _ hp)
    obtain ⟨key, hlookup⟩ := (hinv1.listed p).mp hlisted
    obtain ⟨h, hh, hcell⟩ := (mem_fresh hcells1).1 p hp
    obtain ⟨hi, hcell', hkey⟩ := hinv1.filed key p hlookup
    obtain rfl := Option.some.inj (hcell.symm.trans hcell')
    apply (hinv1.kept_iff hlookup).mpr
    rw [← hkey]
    exact List.mem_map_of_mem (f := HostEntry.key) (mem_newHosts.mp hh).1
  have hfilter : ∀ l, l ⊆ lb.idleList ++ lb.overloadList →
      (l.filter fun p => ∀ key ∈ mid.hostMap.keys.filter (· ∉ rsp.map HostEntry.key),
        mid.hostMap.lookup key ≠ some p) = l.filter (lb.Stays rsp) := by
    intro l hl
    apply List.filter_congr
    intro p hp
    rw [decide_eq_decide, hold p (hl hp)]
  refine ⟨lb', hdelete, ⟨⟨fresh, ?_, ?_⟩, ?_, ?_, ?_⟩, deleted.hostMap⟩
  · rw [deleted.idle, hidle1, List.filter_append, hfilter _ (List.subset_append_left _ _),
      List.filter_eq_self.mpr fun p hp => decide_eq_true (hfresh p hp)]
  · rw [← hcells1]
    exact List.map_congr_left fun p hp => deleted.cells p (hfresh p hp)
  · rw [deleted.overload, hover1, hfilter _ (List.subset_append_right _ _)]
  · intro p hstays
    obtain ⟨h, -, hlookup⟩ := id hstays
    have hlisted := (hinv.listed p).mpr ⟨h.key, hlookup⟩
    obtain ⟨hi, hcell, -⟩ := hinv.filed h.key p hlookup
    rw [deleted.cells p ((hold p hlisted).mpr hstays), hbelow1 p (ObjectHeap.lt_next hcell)]
  · exact hinv1.names_deleted (fun h hh => (hmem1 h.key).mpr (Or.inl (List.mem_map_of_mem hh)))
      deleted

/-- **`update` does what it promises exactly if no host of the map leaves.** -/
theorem update_installs_iff (cfg : LbConfig) (hinv : RepInv lb) {rsp : List HostEntry}
    (hne : rsp ≠ []) :
    (∃ lb', lb.update cfg rsp = Except.ok lb' ∧ Installs cfg lb rsp lb') ↔
      ∀ key ∈ lb.hostMap, key ∈ rsp.map HostEntry.key := by
  constructor
  · rintro ⟨lb', hupdate, installs⟩ key hkey
    exact (installs.map key).mp ((mem_update hupdate key).mpr (Or.inr hkey))
  · intro hall
    obtain ⟨lb', hupdate, lists, hmap⟩ := hinv.update_lists cfg hne
    refine ⟨lb', hupdate, lists, ?_, ?_⟩
    · intro key
      rw [mem_update hupdate key]
      exact ⟨fun h => h.elim id (hall key), Or.inl⟩
    · intro h _ hkey
      obtain ⟨-, -, -, hlookup⟩ := insertHosts_fresh cfg lb rsp
      obtain ⟨p, hp⟩ := Option.isSome_iff_exists.mp (AList.lookup_isSome.mpr hkey)
      rw [hmap, hp, hlookup h.key p hp]

/-- A load balancer with one host. -/
def oneHost : LoadBalance := (create 1 1 0).insertHost Balancer.defaultConfig ⟨1, 80⟩

theorem repInv_oneHost : RepInv oneHost :=
  (repInv_create 1 1 0).insertHost Balancer.defaultConfig ⟨1, 80⟩

theorem mem_oneHost (key : BitVec 64) : key ∈ oneHost.hostMap ↔ key = pack 1 80 := by
  rw [oneHost, mem_insertHost]
  simp [create, HostEntry.key]

theorem update_installs_second :
    ∃ lb', oneHost.update Balancer.defaultConfig [⟨2, 80⟩, ⟨1, 80⟩] = Except.ok lb' ∧
      Installs Balancer.defaultConfig oneHost [⟨2, 80⟩, ⟨1, 80⟩] lb' := by
  apply (update_installs_iff Balancer.defaultConfig repInv_oneHost (by simp)).mpr
  intro key hkey
  rw [(mem_oneHost key).mp hkey]
  simp [HostEntry.key]

/-- The only host is replaced, and its key is still in the map. -/
theorem replaced_host_stays :
    ¬ ∃ lb', oneHost.update Balancer.defaultConfig [⟨2, 80⟩] = Except.ok lb' ∧
      Installs Balancer.defaultConfig oneHost [⟨2, 80⟩] lb' := by
  rintro ⟨lb', hupdate, installs⟩
  have hstays : pack 1 80 ∈ lb'.hostMap :=
    (mem_update hupdate _).mpr (Or.inr ((mem_oneHost _).mpr rfl))
  exact absurd ((installs.map _).mp hstays) (by decide)

end Update

/-! ## Which updates end

`update` fails where a host that leaves was deleted by an earlier one. -/

/-- No host that the answer leaves out is deleted already. -/
def LeaversThere (lb : LoadBalance) (rsp : List HostEntry) : Prop :=
  ∀ key ∉ rsp.map HostEntry.key, lb.HostThere key

section Ends

variable {lb lb' : LoadBalance}

/-- Insertions concern keys of the answer only. -/
theorem hostThere_insertHosts (cfg : LbConfig) (halive : Alive lb) {rsp : List HostEntry}
    {key : BitVec 64} (hleft : key ∉ rsp.map HostEntry.key) :
    (rsp.foldl (LoadBalance.insertHost cfg) lb).HostThere key ↔ lb.HostThere key := by
  obtain ⟨-, -, hbelow, hlookup⟩ := insertHosts_fresh cfg lb rsp
  have hsame : (rsp.foldl (LoadBalance.insertHost cfg) lb).hostMap.lookup key =
      lb.hostMap.lookup key := by
    cases hkey : lb.hostMap.lookup key with
    | some p => exact hlookup key p hkey
    | none =>
      refine AList.lookup_eq_none.mpr fun hmem => ?_
      rcases (mem_insertHosts cfg lb rsp key).mp hmem with hrsp | hold
      · exact hleft hrsp
      · exact AList.lookup_eq_none.mp hkey hold
  unfold HostThere
  rw [hsame]
  refine forall_congr' fun p => forall_congr' fun hkey => ?_
  rw [hbelow p (halive.known key p hkey)]

/-- Deletions that end come upon no deleted host. -/
theorem hostThere_of_deleteHosts {keys : List (BitVec 64)}
    (hdelete : keys.foldlM LoadBalance.deleteHost lb = Except.ok lb') :
    ∀ key ∈ keys, lb.HostThere key := by
  induction keys generalizing lb with
  | nil => exact fun key hkey => absurd hkey List.not_mem_nil
  | cons first keys ih =>
    rw [List.foldlM_cons] at hdelete
    rcases hfirst : lb.deleteHost first with fault | mid
    · rw [hfirst] at hdelete
      cases hdelete
    · rw [hfirst] at hdelete
      obtain ⟨p, hi, hlookup, hcell, rfl⟩ := deleteHost_cases hfirst
      intro key hkey q hq
      rcases List.mem_cons.mp hkey with rfl | hrest
      · obtain rfl := Option.some.inj (hlookup.symm.trans hq)
        exact ⟨hi, hcell⟩
      · obtain ⟨hi', hcell'⟩ := ih hdelete key hrest q hq
        by_cases hqp : q = p
        · rw [hqp, ObjectHeap.free_self] at hcell'
          exact nomatch hcell'
        · rw [ObjectHeap.free_other hqp] at hcell'
          exact ⟨hi', hcell'⟩

/-- **`update` ends exactly where every host that leaves is there.** -/
theorem Alive.update_ok_iff (cfg : LbConfig) (halive : Alive lb) {rsp : List HostEntry}
    (hne : rsp ≠ []) : (∃ lb', lb.update cfg rsp = Except.ok lb') ↔ lb.LeaversThere rsp := by
  rw [update_eq cfg lb hne]
  have hneeded : ∀ key, key ∈ (rsp.foldl (LoadBalance.insertHost cfg) lb).hostMap.keys.filter
      (· ∉ rsp.map HostEntry.key) ↔
        key ∈ (rsp.foldl (LoadBalance.insertHost cfg) lb).hostMap ∧
          key ∉ rsp.map HostEntry.key := by
    intro key
    rw [List.mem_filter, ← AList.mem_keys, decide_eq_true_iff]
  constructor
  · rintro ⟨lb', hdelete⟩ key hleft p hlookup
    refine (hostThere_insertHosts cfg halive hleft).mp ?_ p hlookup
    have hkey : key ∈ lb.hostMap := AList.lookup_isSome.mp (by rw [hlookup]; rfl)
    exact hostThere_of_deleteHosts hdelete key
      ((hneeded key).mpr ⟨(mem_insertHosts cfg lb rsp key).mpr (Or.inr hkey), hleft⟩)
  · intro hthere
    obtain ⟨lb', hdelete, -⟩ := deleteHosts_filed
      ((AList.keys_nodup (rsp.foldl (LoadBalance.insertHost cfg) lb).hostMap).filter _)
      fun key hkey =>
        have hkey' := (hneeded key).mp hkey
        (halive.insertHosts cfg rsp).exists_filed hkey'.1
          ((hostThere_insertHosts cfg halive hkey'.2).mpr (hthere key hkey'.2))
    exact ⟨lb', hdelete⟩

end Ends

end LoadBalance

end LarsSystem.Agent
