import LarsSystem.RouteReads

/-!
# What the monitor still owes

A writer changes `RouteData` first and puts the row into `RouteChange` afterwards.
Until it has, and until the monitor has published the row, the hosts of the module
may be others in the table than in the map, or others in the map than the
subscribers know. Everywhere else the table, the newest map and the map in place
have the same hosts.

Two things are owed. The table may be ahead of the newest map, which only a row
that is not yet due makes good, as a due one is dropped with the map that was
loaded; and a publish may be to come, for which a due row will do until it has
been published.
-/

namespace LarsSystem.Dns

open LarsSystem.MachineWord
open LarsSystem.Transition

/-- The two maps have the same hosts for the module. -/
def SameHosts (map map' : RouteMap) (mod : Mod) : Prop :=
  ∀ value, value ∈ map mod ↔ value ∈ map' mod

theorem sameHosts_refl (map : RouteMap) (mod : Mod) : SameHosts map map mod := fun _ => Iff.rfl

theorem SameHosts.symm {map map' : RouteMap} {mod : Mod} (hsame : SameHosts map map' mod) :
    SameHosts map' map mod :=
  fun value => (hsame value).symm

theorem SameHosts.trans {map map' map'' : RouteMap} {mod : Mod} (hsame : SameHosts map map' mod)
    (hsame' : SameHosts map' map'' mod) : SameHosts map map'' mod :=
  fun value => (hsame value).trans (hsame' value)

namespace Monitor

/-- The map of what is in `RouteData` now. -/
def tableMap (m : Monitor) : RouteMap := Route.mapOf m.tables.routeData

/-- The modules that have changed in the table since a row of `RouteChange` last named them. -/
def announce (m : Monitor) (unannounced : Set Mod) : MonitorLabel → Set Mod
  | .writeData rows => unannounced ∪ { mod | ¬ SameHosts m.tableMap (Route.mapOf rows) mod }
  | .insertChange modid cmdid _ => unannounced \ {pack modid cmdid}
  | _ => unannounced

/-- The first `remove_changes` of the thread finds no row. -/
def FindsNoChange (m : Monitor) : MonitorLabel → Prop
  | .removeAllChanges _ => m.tables.routeChange = []
  | _ => True

/-- Between `publish` and `remove_changes(false)`. -/
def Announced (m : Monitor) : Prop :=
  match m.pc with
  | .changesPublished => True
  | _ => False

/-- A change of the module will be found after the newest map was loaded. -/
def Ahead (m : Monitor) (unannounced : Set Mod) (mod : Mod) : Prop :=
  mod ∈ unannounced ∨
    ∃ row ∈ m.tables.routeChange, row.key = mod ∧ (m.Draining → m.route.version < row.version)

/-- A publish of the module is to come. -/
def Owes (m : Monitor) (unannounced : Set Mod) (mod : Mod) : Prop :=
  mod ∈ unannounced ∨
    ∃ row ∈ m.tables.routeChange, row.key = mod ∧ (m.Announced → m.route.version < row.version)

/-- The modules that a step publishes. -/
def publishes (m : Monitor) (label : MonitorLabel) : List Mod :=
  match label, m.pc with
  | .publish, .changesLoaded changes _ => changes
  | _, _ => []

/-- The map that was loaded last. -/
def newest (m : Monitor) : RouteMap :=
  match m.pc with
  | .dataLoaded _ => m.route.temp
  | .dataReloaded _ => m.route.temp
  | _ => m.route.data

/-! ## What a step does to the maps and to the rows -/

section Steps

variable {m m' : Monitor} {unannounced : Set Mod} {label : MonitorLabel} {mod : Mod}

/-- The maps of a step: nothing new, a new map, or the new map in its place. -/
inductive MapStep (m m' : Monitor) : Prop
  | stays (hnewest : m'.newest = m.newest) (hdata : m'.route.data = m.route.data) : MapStep m m'
  | loads (hbefore : m.newest = m.route.data) (hnewest : m'.newest = m'.tableMap)
      (htable : m'.tableMap = m.tableMap) (hdata : m'.route.data = m.route.data)
      (hannounced : ¬ m.Announced) : MapStep m m'
  | swaps (hnewest : m'.newest = m.newest) (hdata : m'.route.data = m.newest) : MapStep m m'

theorem mapStep_of_next (hnext : m.next label = some m') : MapStep m m' := by
  cases label with
  | writeData rows =>
    cases hnext
    exact MapStep.stays rfl rfl
  | setVersion version =>
    cases hnext
    exact MapStep.stays rfl rfl
  | insertChange modid cmdid version =>
    cases hnext
    exact MapStep.stays rfl rfl
  | removeAllChanges startTime =>
    obtain ⟨hpc, rfl⟩ := removeAllChanges_cases hnext
    exact MapStep.stays (by simp only [newest, hpc]) rfl
  | loadVersion currentTime =>
    obtain ⟨hpc, rfl⟩ := loadVersion_cases hnext
    have hdata := (loadVersion_maps m.route (some m.tables.routeVersion)).1
    refine MapStep.stays ?_ hdata
    simp only [newest, hpc]
    split <;> rename_i hafter
    · split at hafter <;> cases hafter
    · split at hafter <;> cases hafter
    · exact hdata
  | loadRouteData =>
    obtain ⟨currentTime, hpc, rfl⟩ := loadRouteData_cases hnext
    exact MapStep.loads (by simp only [newest, hpc]) rfl rfl rfl
      (by simp only [Announced, hpc, not_false_eq_true])
  | swap =>
    obtain ⟨currentTime, ⟨hpc, rfl⟩ | ⟨hpc, rfl⟩⟩ := swap_cases hnext
    · exact MapStep.swaps (by simp only [newest, hpc, swapMaps, Route.swap])
        (by simp only [newest, hpc, swapMaps, Route.swap])
    · exact MapStep.swaps (by simp only [newest, hpc, swapMaps, Route.swap])
        (by simp only [newest, hpc, swapMaps, Route.swap])
  | loadChanges =>
    obtain ⟨hpc, rfl⟩ := loadChanges_cases hnext
    exact MapStep.stays (by simp only [newest, hpc]) rfl
  | publish =>
    obtain ⟨changes, rows, hpc, rfl⟩ := publish_cases hnext
    exact MapStep.stays (by simp only [newest, hpc]) rfl
  | removeChanges =>
    obtain ⟨hpc, rfl⟩ := removeChanges_cases hnext
    exact MapStep.stays (by simp only [newest, hpc]) rfl
  | checkReload =>
    obtain ⟨currentTime, hpc, ⟨-, rfl⟩ | ⟨-, rfl⟩⟩ := checkReload_cases hnext
    · exact MapStep.loads (by simp only [newest, hpc]) rfl rfl rfl
        (by simp only [Announced, hpc, not_false_eq_true])
    · exact MapStep.stays (by simp only [newest, hpc]) rfl

/-- A module that has changed in the table is to be announced. -/
theorem tableMap_next (hnext : m.next label = some m') :
    SameHosts m'.tableMap m.tableMap mod ∨ mod ∈ m.announce unannounced label := by
  have hkeeps : m'.tables.routeData = m.tables.routeData →
      SameHosts m'.tableMap m.tableMap mod := by
    intro htable
    unfold tableMap
    rw [htable]
    exact sameHosts_refl _ _
  rcases next_moves hnext with ⟨rows, htable, -, -⟩ | ⟨-, htable, -, -, -⟩ | ⟨-, htable, -, -⟩ |
    ⟨-, htable, -, -⟩
  · by_cases hsame : SameHosts m.tableMap (Route.mapOf rows) mod
    · left
      unfold tableMap at hsame ⊢
      rw [htable]
      exact hsame.symm
    · exact Or.inr (Or.inr hsame)
  · exact Or.inl (hkeeps htable)
  · exact Or.inl (hkeeps htable)
  · exact Or.inl (hkeeps htable)

/-! ## What a step leaves to be announced and to be published -/

/-- A row goes only when it is due and has been published, no version comes between a load and the
    end of its round, and a module is announced by a row that is not yet due. -/
structure NoticeStep (m m' : Monitor) (label : MonitorLabel) : Prop where
  rows : ∀ row ∈ m.tables.routeChange,
    row ∈ m'.tables.routeChange ∨ m.Announced ∧ row.version ≤ m.route.version
  draining : m'.Draining → label = .loadRouteData ∨ m.Draining ∧ m'.route.version = m.route.version
  announced : m'.Announced → (label = .publish ∨ m.Announced) ∧ m'.route.version = m.route.version
  found : ∀ {unannounced : Set Mod} {mod : Mod}, mod ∈ unannounced →
    mod ∈ m.announce unannounced label ∨
      ∃ row ∈ m'.tables.routeChange, row.key = mod ∧ (m'.Draining → m'.route.version < row.version)

theorem noticeStep_of_next (hlate : m.NoLateChange label) (hfinds : m.FindsNoChange label)
    (hnext : m.next label = some m') : NoticeStep m m' label := by
  cases label with
  | writeData rows =>
    cases hnext
    exact ⟨fun _ => Or.inl, fun h => Or.inr ⟨h, rfl⟩, fun h => ⟨Or.inr h, rfl⟩,
      fun hmem => Or.inl (Or.inl hmem)⟩
  | setVersion version =>
    cases hnext
    exact ⟨fun _ => Or.inl, fun h => Or.inr ⟨h, rfl⟩, fun h => ⟨Or.inr h, rfl⟩, Or.inl⟩
  | insertChange modid cmdid version =>
    cases hnext
    refine ⟨fun row hrow => Or.inl (List.mem_append_left _ hrow), fun h => Or.inr ⟨h, rfl⟩,
      fun h => ⟨Or.inr h, rfl⟩, ?_⟩
    intro unannounced mod hmem
    by_cases hmod : mod = pack modid cmdid
    · exact Or.inr ⟨_, List.mem_append_right _ List.mem_cons_self, hmod.symm, hlate⟩
    · exact Or.inl ⟨hmem, hmod⟩
  | removeAllChanges startTime =>
    obtain ⟨-, rfl⟩ := removeAllChanges_cases hnext
    have hnone : m.tables.routeChange = [] := hfinds
    refine ⟨fun row hrow => ?_, False.elim, False.elim, Or.inl⟩
    rw [hnone] at hrow
    cases hrow
  | loadVersion currentTime =>
    obtain ⟨-, rfl⟩ := loadVersion_cases hnext
    refine ⟨fun _ => Or.inl, fun hdraining => ?_, fun hannounced => ?_, Or.inl⟩
    · simp only [Draining] at hdraining
      split at hdraining <;> rename_i hafter <;> first
        | exact hdraining.elim
        | split at hafter <;> cases hafter
    · simp only [Announced] at hannounced
      split at hannounced <;> rename_i hafter <;> first
        | exact hannounced.elim
        | split at hafter <;> cases hafter
  | loadRouteData =>
    obtain ⟨currentTime, -, rfl⟩ := loadRouteData_cases hnext
    exact ⟨fun _ => Or.inl, fun _ => Or.inl rfl, False.elim, Or.inl⟩
  | swap =>
    obtain ⟨currentTime, ⟨hpc, rfl⟩ | ⟨-, rfl⟩⟩ := swap_cases hnext
    · exact ⟨fun _ => Or.inl, fun _ => Or.inr ⟨by simp only [Draining, hpc], rfl⟩, False.elim,
        Or.inl⟩
    · exact ⟨fun _ => Or.inl, False.elim, False.elim, Or.inl⟩
  | loadChanges =>
    obtain ⟨hpc, rfl⟩ := loadChanges_cases hnext
    exact ⟨fun _ => Or.inl, fun _ => Or.inr ⟨by simp only [Draining, hpc], rfl⟩, False.elim,
      Or.inl⟩
  | publish =>
    obtain ⟨changes, rows, hpc, rfl⟩ := publish_cases hnext
    exact ⟨fun _ => Or.inl, fun _ => Or.inr ⟨by simp only [Draining, hpc], rfl⟩,
      fun _ => ⟨Or.inl rfl, rfl⟩, Or.inl⟩
  | removeChanges =>
    obtain ⟨hpc, rfl⟩ := removeChanges_cases hnext
    refine ⟨fun row hrow => ?_, False.elim, False.elim, Or.inl⟩
    by_cases hdue : row.version ≤ m.route.version
    · exact Or.inr ⟨by simp only [Announced, hpc], hdue⟩
    · exact Or.inl (List.mem_filter.mpr ⟨hrow, decide_eq_true hdue⟩)
  | checkReload =>
    obtain ⟨currentTime, -, ⟨-, rfl⟩ | ⟨-, rfl⟩⟩ := checkReload_cases hnext <;>
      exact ⟨fun _ => Or.inl, False.elim, False.elim, Or.inl⟩

theorem Announced.draining (hannounced : m.Announced) : m.Draining := by
  unfold Announced at hannounced
  unfold Draining
  split at hannounced
  · rename_i hpc
    simp only [hpc]
  · exact hannounced.elim

/-- What is ahead stays ahead, but where the table is loaded. -/
theorem Ahead.next (hahead : m.Ahead unannounced mod) (hlate : m.NoLateChange label)
    (hfinds : m.FindsNoChange label) (hload : label ≠ .loadRouteData)
    (hnext : m.next label = some m') : m'.Ahead (m.announce unannounced label) mod := by
  have hstep := noticeStep_of_next hlate hfinds hnext
  rcases hahead with hmem | ⟨row, hrow, hkey, hcounts⟩
  · exact hstep.found hmem
  · rcases hstep.rows row hrow with hstill | ⟨hannounced, hdue⟩
    · refine Or.inr ⟨row, hstill, hkey, fun hdraining' => ?_⟩
      rcases hstep.draining hdraining' with hlabel | ⟨hdraining, hversion⟩
      · exact absurd hlabel hload
      · rw [hversion]
        exact hcounts hdraining
    · exact absurd (hcounts hannounced.draining) (Nat.not_lt.mpr hdue)

/-- A row that is due is among the changes that were loaded. -/
theorem mem_publishes (hmonitor : MonitorInv m) (hnext : m.next .publish = some m')
    {row : ChangeRow} (hrow : row ∈ m.tables.routeChange) (hdue : row.version ≤ m.route.version) :
    row.key ∈ m.publishes .publish := by
  have hsafe := hmonitor.due row hrow hdue
  obtain ⟨changes, rows, hpc, -⟩ := publish_cases hnext
  simp only [SafeToDelete, hpc] at hsafe
  simp only [publishes, hpc]
  exact hsafe.2.1

/-- What is owed stays owed until it is published. -/
theorem Owes.next (howes : m.Owes unannounced mod) (hmonitor : MonitorInv m)
    (hlate : m.NoLateChange label) (hfinds : m.FindsNoChange label)
    (hnext : m.next label = some m') :
    m'.Owes (m.announce unannounced label) mod ∨ mod ∈ m.publishes label := by
  have hstep := noticeStep_of_next hlate hfinds hnext
  rcases howes with hmem | ⟨row, hrow, hkey, hcounts⟩
  · left
    rcases hstep.found hmem with hstill | ⟨row, hrow, hkey, hlater⟩
    · exact Or.inl hstill
    · exact Or.inr ⟨row, hrow, hkey, fun hannounced => hlater hannounced.draining⟩
  · rcases hstep.rows row hrow with hstill | ⟨hannounced, hdue⟩
    · by_cases hpublish : label = .publish ∧ row.version ≤ m.route.version
      · obtain ⟨rfl, hdue⟩ := hpublish
        exact Or.inr (hkey ▸ mem_publishes hmonitor hnext hrow hdue)
      · refine Or.inl (Or.inr ⟨row, hstill, hkey, fun hannounced' => ?_⟩)
        obtain ⟨hbefore, hversion⟩ := hstep.announced hannounced'
        rw [hversion]
        rcases hbefore with hlabel | hannounced
        · exact Nat.not_le.mp fun hdue => hpublish ⟨hlabel, hdue⟩
        · exact hcounts hannounced
    · exact absurd (hcounts hannounced) (Nat.not_lt.mpr hdue)

/-- Between two rounds what is ahead is owed. -/
theorem Ahead.owes (hahead : m.Ahead unannounced mod) (hannounced : ¬ m.Announced) :
    m.Owes unannounced mod := by
  rcases hahead with hmem | ⟨row, hrow, hkey, -⟩
  · exact Or.inl hmem
  · exact Or.inr ⟨row, hrow, hkey, fun h => absurd h hannounced⟩

/-! ## The invariant -/

/-- **What the monitor is behind with**: the newest map has what the table has unless a change
    is to be found, and the map in place has what the newest has unless a publish is to come. -/
structure NoticeInv (m : Monitor) (unannounced : Set Mod) : Prop where
  monitor : MonitorInv m
  table : ∀ mod, SameHosts m.tableMap m.newest mod ∨ m.Ahead unannounced mod
  newest : ∀ mod, SameHosts m.newest m.route.data mod ∨ m.Owes unannounced mod

/-- After a publish there is no other map than the one in place. -/
theorem settled_of_publishes (hmem : mod ∈ m.publishes label) (hnext : m.next label = some m') :
    m'.newest = m'.route.data := by
  unfold publishes at hmem
  split at hmem
  · obtain ⟨changes, rows, -, rfl⟩ := publish_cases hnext
    rfl
  · cases hmem

/-- One step keeps the invariant. -/
theorem NoticeInv.next (hinv : NoticeInv m unannounced) (hlate : m.NoLateChange label)
    (hfinds : m.FindsNoChange label) (hnext : m.next label = some m') :
    NoticeInv m' (m.announce unannounced label) := by
  refine ⟨hinv.monitor.next hlate hnext, ?_, ?_⟩
  · intro mod
    by_cases hload : label = .loadRouteData
    · subst hload
      obtain ⟨currentTime, -, rfl⟩ := loadRouteData_cases hnext
      exact Or.inl (sameHosts_refl _ _)
    · rcases tableMap_next hnext with hsame | hmem
      · rcases hinv.table mod with hnewest | hahead
        · rcases mapStep_of_next hnext with ⟨hstays, -⟩ | ⟨-, hloads, -⟩ | ⟨hstays, -⟩
          · exact Or.inl (hstays ▸ hsame.trans hnewest)
          · exact Or.inl (hloads ▸ sameHosts_refl _ _)
          · exact Or.inl (hstays ▸ hsame.trans hnewest)
        · exact Or.inr (hahead.next hlate hfinds hload hnext)
      · exact Or.inr (Or.inl hmem)
  · intro mod
    have howed : m.Owes unannounced mod → SameHosts m'.newest m'.route.data mod ∨
        m'.Owes (m.announce unannounced label) mod := by
      intro howes
      rcases howes.next hinv.monitor hlate hfinds hnext with hstill | hmem
      · exact Or.inr hstill
      · rw [settled_of_publishes hmem hnext]
        exact Or.inl (sameHosts_refl _ _)
    rcases mapStep_of_next hnext with ⟨hnewest, hdata⟩ | ⟨hbefore, hnewest, htable, hdata, hnot⟩ |
      ⟨hnewest, hdata⟩
    · rcases hinv.newest mod with hsame | howes
      · exact Or.inl (by rw [hnewest, hdata]; exact hsame)
      · exact howed howes
    · -- the table is loaded: what it is ahead of the map is owed from here on
      rcases hinv.table mod with hsame | hahead
      · exact Or.inl (by rw [hnewest, htable, hdata, ← hbefore]; exact hsame)
      · exact howed (hahead.owes hnot)
    · exact Or.inl (by rw [hnewest, hdata]; exact sameHosts_refl _ _)

/-- What the map in place has, it has after the step, or a publish is to come, or it is this
    step. -/
theorem NoticeInv.current (hinv : NoticeInv m unannounced) (hlate : m.NoLateChange label)
    (hfinds : m.FindsNoChange label) (hnext : m.next label = some m') {map : RouteMap}
    (hmap : SameHosts map m.route.data mod ∨ m.Owes unannounced mod) :
    SameHosts map m'.route.data mod ∨ m'.Owes (m.announce unannounced label) mod ∨
      mod ∈ m.publishes label := by
  have howed : m.Owes unannounced mod → SameHosts map m'.route.data mod ∨
      m'.Owes (m.announce unannounced label) mod ∨ mod ∈ m.publishes label :=
    fun howes => Or.inr (howes.next hinv.monitor hlate hfinds hnext)
  rcases hmap with hsame | howes
  · rcases mapStep_of_next hnext with ⟨-, hdata⟩ | ⟨-, -, -, hdata, -⟩ | ⟨-, hdata⟩
    · exact Or.inl (hdata ▸ hsame)
    · exact Or.inl (hdata ▸ hsame)
    · rcases hinv.newest mod with hnewest | howes
      · exact Or.inl (hdata ▸ hsame.trans hnewest.symm)
      · exact howed howes
  · exact howed howes

/-- Where nothing is announced or to be announced, the map in place is that of the table. -/
theorem NoticeInv.settled (hinv : NoticeInv m unannounced) (hmem : mod ∉ unannounced)
    (hnone : ∀ row ∈ m.tables.routeChange, row.key ≠ mod) :
    SameHosts m.route.data m.tableMap mod := by
  have hno : ∀ counts : ChangeRow → Prop, ¬ (mod ∈ unannounced ∨
      ∃ row ∈ m.tables.routeChange, row.key = mod ∧ counts row) := by
    rintro counts (hin | ⟨row, hrow, hkey, -⟩)
    · exact hmem hin
    · exact hnone row hrow hkey
  rcases hinv.newest mod with hnewest | howes
  · rcases hinv.table mod with htable | hahead
    · exact (htable.trans hnewest).symm
    · exact absurd hahead (hno _)
  · exact absurd howes (hno _)

end Steps

end Monitor

end LarsSystem.Dns
