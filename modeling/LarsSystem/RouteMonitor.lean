import LarsSystem.DnsRoute
import LarsSystem.Transition

/-!
# `check_route_changes` among writers of the database

The monitor as a loop of single queries and calls, between which writers change
the tables one statement at a time; no query fails. `remove_changes(false)`
deletes by version and not by what `load_changes` returned, so that a row which
comes late into the range of the recorded version is deleted unpublished. A row
is published with a map that knows it if it was there when the data was loaded.

Rows of `RouteChange` are numbered as they come. So the number of the next row
tells what existed when a map was loaded, which is kept with both maps.
-/

namespace LarsSystem.Dns

open LarsSystem.Transition

/-- Where `check_route_changes` is, with the values of its local variables. -/
inductive MonitorPc where
  | starting
  | sleeping
  | versionLoaded (currentTime : Int)
  | dataLoaded (currentTime : Int)
  | swapped
  | changesLoaded (changes : List (BitVec 64)) (rows : List ChangeRow)
  | changesPublished
  | versionSame (currentTime : Int)
  | dataReloaded (currentTime : Int)

/-- A call of `publish`, the rows its changes are from, and the number of the next row
    when the current map was loaded. -/
structure Publishing where
  changes : List (BitVec 64)
  rows : List ChangeRow
  loadedAt : Nat

structure Monitor where
  tables : Tables
  route : Route
  pc : MonitorPc
  lastLoadTime : Int
  nextId : Nat
  dataLoadedAt : Nat
  tempLoadedAt : Nat
  publishings : List Publishing
  removed : List ChangeRow

inductive MonitorLabel where
  | writeData (rows : List RouteRow)
  | setVersion (version : Nat)
  | insertChange (modid cmdid : BitVec 32) (version : Nat)
  | removeAllChanges (startTime : Int)
  | loadVersion (currentTime : Int)
  | loadRouteData
  | swap
  | loadChanges
  | publish
  | removeChanges
  | checkReload

namespace Monitor

def waitTime : Int := 10

/-- `Route` has been built from `rows`; `check_route_changes` starts. -/
def create (rows : List RouteRow) (version : Option Nat) : Monitor :=
  { tables := ⟨rows, version, []⟩
    route := Route.create rows
    pc := .starting
    lastLoadTime := 0
    nextId := 0
    dataLoadedAt := 0
    tempLoadedAt := 0
    publishings := []
    removed := [] }

def swapMaps (m : Monitor) : Monitor :=
  { m with
    route := m.route.swap
    dataLoadedAt := m.tempLoadedAt
    tempLoadedAt := m.dataLoadedAt }

def loadMap (m : Monitor) : Monitor :=
  { m with
    route := (m.route.loadRouteData (some m.tables.routeData)).2
    tempLoadedAt := m.nextId }

/-- One statement of a writer or one step of the monitor; `none` where the monitor is
    elsewhere. -/
def next (m : Monitor) : MonitorLabel → Option Monitor
  | .writeData rows => some { m with tables := { m.tables with routeData := rows } }
  | .setVersion version =>
    some { m with tables := { m.tables with routeVersion := some version } }
  | .insertChange modid cmdid version =>
    some { m with
      tables := { m.tables with
        routeChange := m.tables.routeChange ++ [⟨m.nextId, modid, cmdid, version⟩] }
      nextId := m.nextId + 1 }
  | .removeAllChanges startTime =>
    match m.pc with
    | .starting =>
      some { m with
        tables := m.route.removeChanges m.tables true true
        lastLoadTime := startTime
        pc := .sleeping }
    | _ => none
  | .loadVersion currentTime =>
    match m.pc with
    | .sleeping =>
      let (ret, route) := m.route.loadVersion (some m.tables.routeVersion)
      some { m with
        route := route
        pc := if ret = 1 then .versionLoaded currentTime else .versionSame currentTime }
    | _ => none
  | .loadRouteData =>
    match m.pc with
    | .versionLoaded currentTime => some { m.loadMap with pc := .dataLoaded currentTime }
    | _ => none
  | .swap =>
    match m.pc with
    | .dataLoaded currentTime =>
      some { m.swapMaps with lastLoadTime := currentTime, pc := .swapped }
    | .dataReloaded currentTime =>
      some { m.swapMaps with lastLoadTime := currentTime, pc := .sleeping }
    | _ => none
  | .loadChanges =>
    match m.pc with
    | .swapped =>
      some { m with
        pc := .changesLoaded (m.route.loadChanges (some m.tables.routeChange))
          (m.route.dueChanges m.tables.routeChange) }
    | _ => none
  | .publish =>
    match m.pc with
    | .changesLoaded changes rows =>
      some { m with
        publishings := m.publishings ++ [⟨changes, rows, m.dataLoadedAt⟩]
        pc := .changesPublished }
    | _ => none
  | .removeChanges =>
    match m.pc with
    | .changesPublished =>
      some { m with
        tables := m.route.removeChanges m.tables false true
        removed := m.removed ++ m.route.dueChanges m.tables.routeChange
        pc := .sleeping }
    | _ => none
  | .checkReload =>
    match m.pc with
    | .versionSame currentTime =>
      if currentTime - m.lastLoadTime ≥ waitTime then
        some { m.loadMap with pc := .dataReloaded currentTime }
      else some { m with pc := .sleeping }
    | _ => none

section Cases

/-! ## What the steps of the monitor do -/

variable {m m' : Monitor}

theorem removeAllChanges_cases {startTime : Int}
    (hnext : m.next (.removeAllChanges startTime) = some m') :
    m.pc = .starting ∧ m' = { m with
      tables := m.route.removeChanges m.tables true true
      lastLoadTime := startTime
      pc := .sleeping } := by
  simp only [next] at hnext
  split at hnext
  · rename_i hpc
    exact ⟨hpc, (Option.some.inj hnext).symm⟩
  · cases hnext

theorem loadVersion_cases {currentTime : Int}
    (hnext : m.next (.loadVersion currentTime) = some m') :
    m.pc = .sleeping ∧ m' = { m with
      route := (m.route.loadVersion (some m.tables.routeVersion)).2
      pc := if (m.route.loadVersion (some m.tables.routeVersion)).1 = 1 then
        .versionLoaded currentTime else .versionSame currentTime } := by
  simp only [next] at hnext
  split at hnext
  · rename_i hpc
    exact ⟨hpc, (Option.some.inj hnext).symm⟩
  · cases hnext

theorem loadRouteData_cases (hnext : m.next .loadRouteData = some m') :
    ∃ currentTime, m.pc = .versionLoaded currentTime ∧
      m' = { m.loadMap with pc := .dataLoaded currentTime } := by
  simp only [next] at hnext
  split at hnext
  · rename_i currentTime hpc
    exact ⟨currentTime, hpc, (Option.some.inj hnext).symm⟩
  · cases hnext

theorem swap_cases (hnext : m.next .swap = some m') :
    ∃ currentTime,
      m.pc = .dataLoaded currentTime ∧
        m' = { m.swapMaps with lastLoadTime := currentTime, pc := .swapped } ∨
      m.pc = .dataReloaded currentTime ∧
        m' = { m.swapMaps with lastLoadTime := currentTime, pc := .sleeping } := by
  simp only [next] at hnext
  split at hnext
  · rename_i currentTime hpc
    exact ⟨currentTime, Or.inl ⟨hpc, (Option.some.inj hnext).symm⟩⟩
  · rename_i currentTime hpc
    exact ⟨currentTime, Or.inr ⟨hpc, (Option.some.inj hnext).symm⟩⟩
  · cases hnext

theorem loadChanges_cases (hnext : m.next .loadChanges = some m') :
    m.pc = .swapped ∧ m' = { m with
      pc := .changesLoaded (m.route.loadChanges (some m.tables.routeChange))
        (m.route.dueChanges m.tables.routeChange) } := by
  simp only [next] at hnext
  split at hnext
  · rename_i hpc
    exact ⟨hpc, (Option.some.inj hnext).symm⟩
  · cases hnext

theorem publish_cases (hnext : m.next .publish = some m') :
    ∃ changes rows, m.pc = .changesLoaded changes rows ∧ m' = { m with
      publishings := m.publishings ++ [⟨changes, rows, m.dataLoadedAt⟩]
      pc := .changesPublished } := by
  simp only [next] at hnext
  split at hnext
  · rename_i changes rows hpc
    exact ⟨changes, rows, hpc, (Option.some.inj hnext).symm⟩
  · cases hnext

theorem removeChanges_cases (hnext : m.next .removeChanges = some m') :
    m.pc = .changesPublished ∧ m' = { m with
      tables := m.route.removeChanges m.tables false true
      removed := m.removed ++ m.route.dueChanges m.tables.routeChange
      pc := .sleeping } := by
  simp only [next] at hnext
  split at hnext
  · rename_i hpc
    exact ⟨hpc, (Option.some.inj hnext).symm⟩
  · cases hnext

theorem checkReload_cases (hnext : m.next .checkReload = some m') :
    ∃ currentTime, m.pc = .versionSame currentTime ∧
      (currentTime - m.lastLoadTime ≥ waitTime ∧
          m' = { m.loadMap with pc := .dataReloaded currentTime } ∨
        ¬ currentTime - m.lastLoadTime ≥ waitTime ∧ m' = { m with pc := .sleeping }) := by
  simp only [next] at hnext
  split at hnext
  · rename_i currentTime hpc
    refine ⟨currentTime, hpc, ?_⟩
    split at hnext
    · rename_i hdue
      exact Or.inl ⟨hdue, (Option.some.inj hnext).symm⟩
    · rename_i hdue
      exact Or.inr ⟨hdue, (Option.some.inj hnext).symm⟩
  · cases hnext

end Cases

/-! ## What is promised, and when it holds -/

/-- The row's change was published, with a map loaded when the row existed. -/
def Covered (m : Monitor) (row : ChangeRow) : Prop :=
  ∃ p ∈ m.publishings, row ∈ p.rows ∧ row.key ∈ p.changes ∧ row.id < p.loadedAt

/-- **What the monitor promises**, in every state: what `remove_changes(false)` has deleted
    was covered. -/
def DiscardsNothing (m : Monitor) : Prop := ∀ row ∈ m.removed, m.Covered row

/-- Between the query of `load_route_data` and that of `remove_changes(false)`. -/
def Draining (m : Monitor) : Prop :=
  match m.pc with
  | .dataLoaded _ => True
  | .swapped => True
  | .changesLoaded _ _ => True
  | .changesPublished => True
  | _ => False

/-- A row that comes while the monitor is at work has a version it has not recorded yet. -/
def NoLateChange (m : Monitor) : MonitorLabel → Prop
  | .insertChange _ _ version => m.Draining → m.route.version < version
  | _ => True

/-! ## The invariant -/

/-- What the monitor's place says about a row that it is going to delete. -/
def SafeToDelete (m : Monitor) (row : ChangeRow) : Prop :=
  match m.pc with
  | .dataLoaded _ => row.id < m.tempLoadedAt
  | .swapped => row.id < m.dataLoadedAt
  | .changesLoaded changes rows => row ∈ rows ∧ row.key ∈ changes ∧ row.id < m.dataLoadedAt
  | .changesPublished => m.Covered row
  | _ => True

theorem safeToDelete_of_not_draining {m : Monitor} (hdraining : ¬ m.Draining) (row : ChangeRow) :
    m.SafeToDelete row := by
  unfold Draining at hdraining
  unfold SafeToDelete
  cases hpc : m.pc with
  | dataLoaded currentTime => exact absurd trivial (by simpa only [hpc] using hdraining)
  | swapped => exact absurd trivial (by simpa only [hpc] using hdraining)
  | changesLoaded changes rows => exact absurd trivial (by simpa only [hpc] using hdraining)
  | changesPublished => exact absurd trivial (by simpa only [hpc] using hdraining)
  | _ => trivial

structure MonitorInv (m : Monitor) : Prop where
  discards : m.DiscardsNothing
  numbered : ∀ row ∈ m.tables.routeChange, row.id < m.nextId
  due : ∀ row ∈ m.tables.routeChange, row.version ≤ m.route.version → m.SafeToDelete row

theorem monitorInv_create (rows : List RouteRow) (version : Option Nat) :
    MonitorInv (create rows version) := by
  constructor
  · intro row hrow
    exact absurd hrow List.not_mem_nil
  · intro row hrow
    exact absurd hrow List.not_mem_nil
  · exact fun _ _ _ => trivial

/-- Statements on the other tables. -/
theorem MonitorInv.frame {m : Monitor} (hinv : MonitorInv m) {tables : Tables}
    (hchange : tables.routeChange = m.tables.routeChange) :
    MonitorInv { m with tables := tables } := by
  constructor
  · exact hinv.discards
  · rw [hchange]
    exact hinv.numbered
  · rw [hchange]
    exact hinv.due

theorem MonitorInv.insertChange {m : Monitor} (hinv : MonitorInv m) {modid cmdid : BitVec 32}
    {version : Nat} (hguard : m.NoLateChange (.insertChange modid cmdid version)) :
    MonitorInv { m with
      tables := { m.tables with
        routeChange := m.tables.routeChange ++ [⟨m.nextId, modid, cmdid, version⟩] }
      nextId := m.nextId + 1 } := by
  constructor
  · exact hinv.discards
  · intro row hrow
    rcases List.mem_append.mp hrow with hold | hnew
    · exact Nat.lt_succ_of_lt (hinv.numbered row hold)
    · rw [List.mem_singleton.mp hnew]
      exact Nat.lt_succ_self _
  · intro row hrow hversion
    rcases List.mem_append.mp hrow with hold | hnew
    · exact hinv.due row hold hversion
    · -- the new row is not deleted, or the monitor is not at work
      by_cases hdraining : m.Draining
      · rw [List.mem_singleton.mp hnew] at hversion
        exact absurd (hguard hdraining) (Nat.not_lt.mpr hversion)
      · exact safeToDelete_of_not_draining hdraining row

/-- What is covered stays covered. -/
theorem Covered.publish {m : Monitor} {row : ChangeRow} (hcovered : m.Covered row)
    (p : Publishing) :
    Covered { m with publishings := m.publishings ++ [p], pc := .changesPublished } row := by
  obtain ⟨p', hp', hrow⟩ := hcovered
  exact ⟨p', List.mem_append_left _ hp', hrow⟩

/-- Where the monitor goes on with the same tables and the same version, what its new place
    says about a row has to follow from what the last place said. -/
theorem MonitorInv.advance {m m' : Monitor} (hinv : MonitorInv m)
    (hsame : m'.tables = m.tables ∧ m'.route.version = m.route.version ∧ m'.nextId = m.nextId)
    (hlogs : m'.publishings = m.publishings ∧ m'.removed = m.removed)
    (hsafe : ∀ row ∈ m.tables.routeChange, row.version ≤ m.route.version → m.SafeToDelete row →
      m'.SafeToDelete row) :
    MonitorInv m' := by
  obtain ⟨htables, hroute, hnextId⟩ := hsame
  obtain ⟨hpublishings, hremoved⟩ := hlogs
  constructor
  · intro row hrow
    rw [hremoved] at hrow
    obtain ⟨p, hp, hcovered⟩ := hinv.discards row hrow
    exact ⟨p, hpublishings ▸ hp, hcovered⟩
  · intro row hrow
    rw [htables] at hrow
    rw [hnextId]
    exact hinv.numbered row hrow
  · intro row hrow hversion
    rw [htables] at hrow
    rw [hroute] at hversion
    exact hsafe row hrow hversion (hinv.due row hrow hversion)

theorem MonitorInv.publish {m : Monitor} (hinv : MonitorInv m) {changes : List (BitVec 64)}
    {rows : List ChangeRow} (hpc : m.pc = .changesLoaded changes rows) :
    MonitorInv { m with
      publishings := m.publishings ++ [⟨changes, rows, m.dataLoadedAt⟩]
      pc := .changesPublished } := by
  refine ⟨?_, hinv.numbered, ?_⟩
  · intro row hrow
    exact (hinv.discards row hrow).publish _
  · intro row hrow hversion
    have hdue := hinv.due row hrow hversion
    simp only [SafeToDelete, hpc] at hdue
    exact ⟨⟨changes, rows, m.dataLoadedAt⟩, List.mem_append_right _ (List.mem_singleton.mpr rfl),
      hdue⟩

/-- The deleted rows are those the monitor's place has declared safe. -/
theorem MonitorInv.removeChanges {m : Monitor} (hinv : MonitorInv m)
    (hpc : m.pc = .changesPublished) :
    MonitorInv { m with
      tables := m.route.removeChanges m.tables false true
      removed := m.removed ++ m.route.dueChanges m.tables.routeChange
      pc := .sleeping } := by
  refine ⟨?_, ?_, fun _ _ _ => trivial⟩
  · intro row hrow
    rcases List.mem_append.mp hrow with hold | hnew
    · exact hinv.discards row hold
    · obtain ⟨hin, hversion⟩ := List.mem_filter.mp hnew
      have hdue := hinv.due row hin (of_decide_eq_true hversion)
      simp only [SafeToDelete, hpc] at hdue
      exact hdue
  · intro row hrow
    exact hinv.numbered row (List.mem_filter.mp hrow).1

/-- One step keeps the invariant. -/
theorem MonitorInv.next {m m' : Monitor} {label : MonitorLabel} (hinv : MonitorInv m)
    (hguard : m.NoLateChange label) (hnext : m.next label = some m') : MonitorInv m' := by
  cases label with
  | writeData rows =>
    cases hnext
    exact hinv.frame rfl
  | setVersion version =>
    cases hnext
    exact hinv.frame rfl
  | insertChange modid cmdid version =>
    cases hnext
    exact hinv.insertChange hguard
  | removeAllChanges startTime =>
    obtain ⟨-, rfl⟩ := removeAllChanges_cases hnext
    exact ⟨hinv.discards, fun row hrow => absurd hrow List.not_mem_nil, fun _ _ _ => trivial⟩
  | loadVersion currentTime =>
    obtain ⟨-, rfl⟩ := loadVersion_cases hnext
    refine ⟨hinv.discards, hinv.numbered, ?_⟩
    intro row _ _
    by_cases hret : (m.route.loadVersion (some m.tables.routeVersion)).1 = 1 <;>
      simp only [SafeToDelete, hret, if_true, if_false]
  | loadRouteData =>
    obtain ⟨currentTime, -, rfl⟩ := loadRouteData_cases hnext
    -- every row that is there now has a number below the next one
    exact hinv.advance ⟨rfl, rfl, rfl⟩ ⟨rfl, rfl⟩ fun row hrow _ _ => hinv.numbered row hrow
  | swap =>
    obtain ⟨currentTime, ⟨hpc, rfl⟩ | ⟨-, rfl⟩⟩ := swap_cases hnext
    · refine hinv.advance ⟨rfl, rfl, rfl⟩ ⟨rfl, rfl⟩ ?_
      intro row _ _ hsafe
      simp only [SafeToDelete, hpc] at hsafe
      exact hsafe
    · exact hinv.advance ⟨rfl, rfl, rfl⟩ ⟨rfl, rfl⟩ fun _ _ _ _ => trivial
  | loadChanges =>
    obtain ⟨hpc, rfl⟩ := loadChanges_cases hnext
    refine hinv.advance ⟨rfl, rfl, rfl⟩ ⟨rfl, rfl⟩ ?_
    intro row hrow hversion hsafe
    simp only [SafeToDelete, hpc] at hsafe
    have hread : row ∈ m.route.dueChanges m.tables.routeChange :=
      List.mem_filter.mpr ⟨hrow, decide_eq_true hversion⟩
    exact ⟨hread, List.mem_map_of_mem hread, hsafe⟩
  | publish =>
    obtain ⟨changes, rows, hpc, rfl⟩ := publish_cases hnext
    exact hinv.publish hpc
  | removeChanges =>
    obtain ⟨hpc, rfl⟩ := removeChanges_cases hnext
    exact hinv.removeChanges hpc
  | checkReload =>
    obtain ⟨currentTime, -, ⟨-, rfl⟩ | ⟨-, rfl⟩⟩ := checkReload_cases hnext <;>
      exact hinv.advance ⟨rfl, rfl, rfl⟩ ⟨rfl, rfl⟩ fun _ _ _ _ => trivial

/-- **The monitor discards no change it has not published**, in every run in which no
    change comes late. -/
theorem discards_nothing {rows : List RouteRow} {version : Option Nat}
    {labels : List MonitorLabel} {m : Monitor}
    (hrun : Run (Guarded NoLateChange (ofOption next)) (create rows version) labels m) :
    m.DiscardsNothing := by
  have hinv : MonitorInv m := by
    apply Run.invariant _ hrun (monitorInv_create rows version)
    rintro t label t' ht ⟨hguard, hnext⟩
    exact ht.next hguard hnext
  exact hinv.discards

/-- An update before the round begins. -/
theorem discards_nothing_early :
    ∃ m, Run (Guarded NoLateChange (ofOption next)) (create [] (some 0))
        [.removeAllChanges 0, .writeData [⟨1, 1, 0x0a000001, 80⟩], .setVersion 5,
          .insertChange 1 1 5, .loadVersion 1, .loadRouteData, .swap, .loadChanges, .publish,
          .removeChanges] m ∧ m.removed = [⟨0, 1, 1, 5⟩] ∧ m.DiscardsNothing := by
  have hrun : ∃ m, Run (Guarded NoLateChange (ofOption next)) (create [] (some 0))
      [.removeAllChanges 0, .writeData [⟨1, 1, 0x0a000001, 80⟩], .setVersion 5,
        .insertChange 1 1 5, .loadVersion 1, .loadRouteData, .swap, .loadChanges, .publish,
        .removeChanges] m ∧ m.removed = [⟨0, 1, 1, 5⟩] := by
    refine ⟨_, Run.cons ⟨trivial, rfl⟩ (Run.cons ⟨trivial, rfl⟩ (Run.cons ⟨trivial, rfl⟩
      (Run.cons ⟨?_, rfl⟩ (Run.cons ⟨trivial, rfl⟩ (Run.cons ⟨trivial, rfl⟩
      (Run.cons ⟨trivial, rfl⟩ (Run.cons ⟨trivial, rfl⟩ (Run.cons ⟨trivial, rfl⟩
      (Run.cons ⟨trivial, rfl⟩ (Run.nil _)))))))))), rfl⟩
    exact fun hdraining => hdraining.elim
  obtain ⟨m, hrun, hremoved⟩ := hrun
  exact ⟨m, hrun, hremoved, discards_nothing hrun⟩

/-- Two updates in one second: the row of the second comes between `load_changes` and
    `remove_changes(false)`. -/
theorem late_change_discarded :
    ∃ m, Run (ofOption next) (create [] (some 0))
        [.removeAllChanges 0, .setVersion 5, .insertChange 1 1 5, .loadVersion 1, .loadRouteData,
          .swap, .loadChanges, .writeData [⟨1, 2, 0x0a000001, 80⟩], .setVersion 5,
          .insertChange 1 2 5, .publish, .removeChanges] m ∧ ¬ m.DiscardsNothing := by
  refine ⟨_, run_of_foldlM rfl, ?_⟩
  intro hdiscards
  obtain ⟨p, hp, hrow, -⟩ := hdiscards ⟨1, 1, 2, 5⟩ (by decide)
  change p ∈ [(⟨[0x100000001], [⟨0, 1, 1, 5⟩], 1⟩ : Publishing)] at hp
  rw [List.mem_singleton.mp hp] at hrow
  exact absurd hrow (by decide)

end Monitor

end LarsSystem.Dns
