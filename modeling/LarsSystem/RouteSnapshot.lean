import LarsSystem.DoubleBuffer
import LarsSystem.RouteAnswer
import LarsSystem.Transition

/-!
# The two maps of `Route`, while one is loaded

`get_hosts` reads the map behind `_data_pointer` under the read lock, and the
monitor fills the one behind `_temp_pointer` without a lock: it clears it, asks
the database, and inserts row after row, until `swap` exchanges the pointers
under the write lock. Each critical section is one step, and each access to the
temporary map is a step of its own. A query that fails leaves the temporary map
cleared and is followed by no swap.
-/

namespace LarsSystem.Dns

open LarsSystem.MachineWord
open LarsSystem.Transition

/-- How far `load_route_data` is: before it, after the clear, with rows to insert, and
    returned with 0. -/
inductive LoadPhase where
  | idle
  | querying
  | inserting (rest : List RouteRow)
  | loaded

/-- `_data_pointer` is the front of the buffers, `_temp_pointer` the back. -/
structure RouteMaps where
  buffers : DoubleBuffer RouteMap
  phase : LoadPhase

inductive LoadLabel where
  | clear
  | queryFails
  | queryReturns (rows : List RouteRow)
  | insertRow
  | returns
  | swap

namespace RouteMaps

def dataPointer (s : RouteMaps) : Ptr := s.buffers.front

def tempPointer (s : RouteMaps) : Ptr := s.buffers.back

/-- The constructor with `build_maps`, whose query returned `rows`. -/
def create (rows : List RouteRow) : RouteMaps :=
  ⟨DoubleBuffer.create (Route.mapOf rows) Route.emptyMap, .idle⟩

/-- `get_hosts`, at the moment it holds the read lock. -/
def getHosts (s : RouteMaps) (modid cmdid : CInt) : HostSet :=
  Route.getHosts s.buffers.read modid cmdid

/-- One step of the monitor. -/
def next (s : RouteMaps) : LoadLabel → Option RouteMaps
  | .clear =>
    match s.phase with
    | .idle => some ⟨s.buffers.edit fun _ => Route.emptyMap, .querying⟩
    | _ => none
  | .queryFails =>
    match s.phase with
    | .querying => some { s with phase := .idle }
    | _ => none
  | .queryReturns rows =>
    match s.phase with
    | .querying => some { s with phase := .inserting rows }
    | _ => none
  | .insertRow =>
    match s.phase with
    | .inserting (row :: rest) =>
      some ⟨s.buffers.edit fun map => Route.insertRow map row, .inserting rest⟩
    | _ => none
  | .returns =>
    match s.phase with
    | .inserting [] => some { s with phase := .loaded }
    | _ => none
  | .swap =>
    match s.phase with
    | .loaded => some ⟨s.buffers.swap, .idle⟩
    | _ => none

/-! ## The queries and their answers -/

/-- The answer to the last query, and the answer that was last swapped in. -/
structure Queries where
  answered : List RouteRow
  swapped : List RouteRow

def Queries.step (q : Queries) : LoadLabel → Queries
  | .queryReturns rows => { q with answered := rows }
  | .swap => { q with swapped := q.answered }
  | _ => q

/-- The queries of a run; `build_maps` made the first. -/
def queries (rows : List RouteRow) (labels : List LoadLabel) : Queries :=
  labels.foldl Queries.step ⟨rows, rows⟩

/-- **What a reader finds**, after the queries `q`: for each pair the hosts of the answer that was
    last swapped in, each once, and the pointers are different. -/
structure Whole (q : Queries) (s : RouteMaps) : Prop where
  apart : s.dataPointer ≠ s.tempPointer
  hosts : ∀ modid cmdid value, value ∈ s.getHosts modid cmdid ↔
    ∃ row ∈ q.swapped, row.modid = modid ∧ row.cmdid = cmdid ∧
      value = pack row.serverip row.serverport
  nodup : ∀ modid cmdid, (s.getHosts modid cmdid).Nodup

/-! ## The invariant -/

/-- What the temporary map is, by how far the load is. -/
def Staged (q : Queries) : LoadPhase → RouteMap → Prop
  | .idle, _ => True
  | .querying, map => map = Route.emptyMap
  | .inserting rest, map => ∃ done, q.answered = done ++ rest ∧ map = Route.mapOf done
  | .loaded, map => map = Route.mapOf q.answered

structure SnapshotInv (q : Queries) (s : RouteMaps) : Prop where
  data : s.buffers.read = Route.mapOf q.swapped
  temp : Staged q s.phase s.buffers.staged

theorem snapshotInv_create (rows : List RouteRow) :
    SnapshotInv (queries rows []) (create rows) :=
  ⟨rfl, trivial⟩

theorem SnapshotInv.whole {q : Queries} {s : RouteMaps} (hinv : SnapshotInv q s) : s.Whole q := by
  refine ⟨s.buffers.apart, ?_, ?_⟩
  · intro modid cmdid value
    unfold getHosts Route.getHosts
    rw [hinv.data]
    exact Route.mem_mapOf
  · intro modid cmdid
    unfold getHosts Route.getHosts
    rw [hinv.data]
    exact Route.mapOf_nodup _ _

/-- One step of the monitor. -/
theorem SnapshotInv.next {q : Queries} {s s' : RouteMaps} {label : LoadLabel}
    (hinv : SnapshotInv q s) (hnext : s.next label = some s') :
    SnapshotInv (q.step label) s' := by
  obtain ⟨hdata, htemp⟩ := hinv
  cases label with
  | clear =>
    simp only [RouteMaps.next] at hnext
    split at hnext
    · cases hnext
      exact ⟨(DoubleBuffer.read_edit _ _).trans hdata, DoubleBuffer.staged_edit _ _⟩
    · cases hnext
  | queryFails =>
    simp only [RouteMaps.next] at hnext
    split at hnext
    · cases hnext
      exact ⟨hdata, trivial⟩
    · cases hnext
  | queryReturns rows =>
    simp only [RouteMaps.next] at hnext
    split at hnext
    · rename_i hphase
      cases hnext
      rw [hphase] at htemp
      exact ⟨hdata, [], rfl, htemp⟩
    · cases hnext
  | insertRow =>
    simp only [RouteMaps.next] at hnext
    split at hnext
    · rename_i row rest hphase
      cases hnext
      rw [hphase] at htemp
      obtain ⟨done, hrows, hmap⟩ := htemp
      refine ⟨(DoubleBuffer.read_edit _ _).trans hdata, done ++ [row], ?_, ?_⟩
      · rw [List.append_assoc]
        exact hrows
      · rw [DoubleBuffer.staged_edit, hmap]
        exact (List.foldl_concat ..).symm
    · cases hnext
  | returns =>
    simp only [RouteMaps.next] at hnext
    split at hnext
    · rename_i hphase
      cases hnext
      rw [hphase] at htemp
      obtain ⟨done, hrows, hmap⟩ := htemp
      refine ⟨hdata, ?_⟩
      change s.buffers.staged = Route.mapOf q.answered
      rw [hrows, List.append_nil]
      exact hmap
    · cases hnext
  | swap =>
    simp only [RouteMaps.next] at hnext
    split at hnext
    · rename_i hphase
      cases hnext
      rw [hphase] at htemp
      exact ⟨htemp, trivial⟩
    · cases hnext

/-! ## Every run -/

theorem run_snapshotInv {q : Queries} {labels : List LoadLabel} {s t : RouteMaps}
    (hrun : Run (ofOption next) s labels t) (hinv : SnapshotInv q s) :
    SnapshotInv (labels.foldl Queries.step q) t := by
  induction hrun generalizing q with
  | nil s => exact hinv
  | cons hstep _ ih => exact ih (hinv.next hstep)

/-- **Readers see whole snapshots**: at every moment between any steps of the monitor, over any
    number of rounds, `get_hosts` answers from the last query that was swapped in. -/
theorem reads_whole_snapshots {rows : List RouteRow} {labels : List LoadLabel} {s : RouteMaps}
    (hrun : Run (ofOption next) (create rows) labels s) : s.Whole (queries rows labels) :=
  (run_snapshotInv hrun (snapshotInv_create rows)).whole

/-- A load that fails, and one that is half done: the reader still has the map of `build_maps`. -/
theorem reads_whole_snapshots_half_loaded :
    ∃ s, Run (ofOption next) (create [⟨1, 2, 9, 80⟩])
        [.clear, .queryFails, .clear, .queryReturns [⟨1, 2, 7, 80⟩, ⟨1, 2, 8, 80⟩], .insertRow] s ∧
      s.getHosts 1 2 = [pack 9 80] ∧
      s.Whole (queries [⟨1, 2, 9, 80⟩]
        [.clear, .queryFails, .clear, .queryReturns [⟨1, 2, 7, 80⟩, ⟨1, 2, 8, 80⟩],
          .insertRow]) := by
  have hrun : ∃ s, Run (ofOption next) (create [⟨1, 2, 9, 80⟩])
      [.clear, .queryFails, .clear, .queryReturns [⟨1, 2, 7, 80⟩, ⟨1, 2, 8, 80⟩], .insertRow] s ∧
      s.getHosts 1 2 = [pack 9 80] :=
    ⟨_, run_of_foldlM rfl, rfl⟩
  obtain ⟨s, hs, hhosts⟩ := hrun
  exact ⟨s, hs, hhosts, reads_whole_snapshots hs⟩

/-! ## A load as one operation

Taken as a whole, the steps are those of `Route`, which has the two maps by value. -/

def route (s : RouteMaps) (version : Nat) : Route := ⟨s.buffers.read, s.buffers.staged, version⟩

theorem insertRows_run (buffers : DoubleBuffer RouteMap) (rows : List RouteRow) :
    ∃ t : RouteMaps, Run (ofOption next) ⟨buffers, .inserting rows⟩
        (List.replicate rows.length .insertRow ++ [.returns]) t ∧
      t.phase = .loaded ∧ t.buffers.read = buffers.read ∧
      t.buffers.staged = rows.foldl Route.insertRow buffers.staged := by
  induction rows generalizing buffers with
  | nil => exact ⟨⟨buffers, .loaded⟩, Run.cons rfl (Run.nil _), rfl, rfl, rfl⟩
  | cons row rows ih =>
    obtain ⟨t, hrun, hphase, hread, hstaged⟩ := ih (buffers.edit fun map => Route.insertRow map row)
    refine ⟨t, Run.cons rfl hrun, hphase, ?_, ?_⟩
    · rw [hread, DoubleBuffer.read_edit]
    · rw [hstaged, DoubleBuffer.staged_edit]
      rfl

/-- The steps of a load that returns 0. -/
theorem load_run {s : RouteMaps} (hidle : s.phase = .idle) (rows : List RouteRow) (version : Nat) :
    ∃ t, Run (ofOption next) s (.clear :: .queryReturns rows ::
        (List.replicate rows.length .insertRow ++ [.returns])) t ∧
      t.phase = .loaded ∧ (0, t.route version) = (s.route version).loadRouteData (some rows) := by
  obtain ⟨buffers, phase⟩ := s
  obtain rfl : phase = .idle := hidle
  obtain ⟨t, hrun, hphase, hread, hstaged⟩ :=
    insertRows_run (buffers.edit fun _ => Route.emptyMap) rows
  refine ⟨t, Run.cons rfl (Run.cons rfl hrun), hphase, ?_⟩
  unfold route Route.loadRouteData Route.mapOf
  rw [hread, hstaged, DoubleBuffer.read_edit, DoubleBuffer.staged_edit]

/-- The steps of a load that returns -1. -/
theorem load_fails {s : RouteMaps} (hidle : s.phase = .idle) (version : Nat) :
    ∃ t, Run (ofOption next) s [.clear, .queryFails] t ∧ t.phase = .idle ∧
      (-1, t.route version) = (s.route version).loadRouteData none := by
  obtain ⟨buffers, phase⟩ := s
  obtain rfl : phase = .idle := hidle
  refine ⟨_, Run.cons rfl (Run.cons rfl (Run.nil _)), rfl, ?_⟩
  unfold route Route.loadRouteData
  rw [DoubleBuffer.read_edit, DoubleBuffer.staged_edit]

theorem swap_run {s : RouteMaps} (hloaded : s.phase = .loaded) (version : Nat) :
    ∃ t, Run (ofOption next) s [.swap] t ∧ t.phase = .idle ∧
      t.route version = (s.route version).swap := by
  obtain ⟨buffers, phase⟩ := s
  obtain rfl : phase = .loaded := hloaded
  exact ⟨⟨buffers.swap, .idle⟩, Run.cons rfl (Run.nil _), rfl, rfl⟩

end RouteMaps

end LarsSystem.Dns
