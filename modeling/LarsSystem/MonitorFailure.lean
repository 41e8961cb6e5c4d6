import LarsSystem.RouteMonitor

/-!
# Rounds of `check_route_changes` with failing queries

One round as a function of the tables, with no writer about. `load_version`
records the new version before anything is loaded, and the rest of the round does
not look at what failed before it: changes are published with the old map, or
deleted without having been read, and as the version is recorded no later round
looks for them. A failing round loses nothing exactly where there is nothing to
lose.
-/

namespace LarsSystem.Dns

open LarsSystem.Transition

/-- Which queries of a round are answered; `load_version` is. -/
structure RoundAnswers where
  dataOk : Bool
  changesOk : Bool
  removeOk : Bool
deriving DecidableEq, Repr

def RoundAnswers.clean : RoundAnswers := ⟨true, true, true⟩

/-- Between two rounds. -/
structure RoundState where
  tables : Tables
  route : Route
  lastLoadTime : Int

/-- A round's outcome: whether it loaded the data, and what it handed to `publish`. -/
structure RoundOutcome where
  state : RoundState
  loaded : Bool
  published : List (BitVec 64)

namespace RoundState

/-- `load_route_data`, and `swap` where it returned 0. -/
def reload (s : RoundState) (currentTime : Int) (dataOk : Bool) : RoundOutcome :=
  let (ret, route) := s.route.loadRouteData (if dataOk then some s.tables.routeData else none)
  if ret = 0 then ⟨{ s with route := route.swap, lastLoadTime := currentTime }, true, []⟩
  else ⟨{ s with route := route }, false, []⟩

/-- One round. -/
def round (s : RoundState) (currentTime : Int) (answers : RoundAnswers) : RoundOutcome :=
  let (ret, route) := s.route.loadVersion (some s.tables.routeVersion)
  let s := { s with route := route }
  if ret = 1 then
    let ⟨s, loaded, _⟩ := s.reload currentTime answers.dataOk
    let changes :=
      s.route.loadChanges (if answers.changesOk then some s.tables.routeChange else none)
    ⟨{ s with tables := s.route.removeChanges s.tables false answers.removeOk }, loaded, changes⟩
  else if currentTime - s.lastLoadTime ≥ Monitor.waitTime then
    s.reload currentTime answers.dataOk
  else ⟨s, false, []⟩

/-- Rounds without failures at the given times: the state after them, and what they
    published. -/
def cleanRounds (s : RoundState) : List Int → RoundState × List (BitVec 64)
  | [] => (s, [])
  | currentTime :: times =>
    let outcome := s.round currentTime .clean
    let (last, published) := outcome.state.cleanRounds times
    (last, outcome.published ++ published)

/-! ## What is promised -/

/-- `load_route_data` or `load_changes` is called in the round and fails. -/
def QueryFails (s : RoundState) (currentTime : Int) (answers : RoundAnswers) : Prop :=
  if (s.route.loadVersion (some s.tables.routeVersion)).1 = 1 then
    answers.dataOk = false ∨ answers.changesOk = false
  else currentTime - s.lastLoadTime ≥ Monitor.waitTime ∧ answers.dataOk = false

/-- The version the round leaves recorded. -/
def recordedVersion (s : RoundState) : Nat := s.tables.routeVersion.getD s.route.version

/-- The changes up to the recorded version. -/
def changesDue (s : RoundState) : List ChangeRow :=
  s.tables.routeChange.filter fun row => row.version ≤ s.recordedVersion

/-- Later rounds without failures load the data and publish the changes. -/
def Recovers (s : RoundState) (currentTime : Int) (changes : List ChangeRow) : Prop :=
  ∃ times : List Int, (currentTime :: times).IsChain (· < ·) ∧
    (s.cleanRounds times).1.route.data = Route.mapOf s.tables.routeData ∧
    ∀ row ∈ changes, row.key ∈ (s.cleanRounds times).2

/-- **What a failing round promises**: no change is deleted, nothing is published with a
    map older than the recorded version, and later rounds make up for it. -/
def LosesNothing (s : RoundState) (currentTime : Int) (answers : RoundAnswers) : Prop :=
  let outcome := s.round currentTime answers
  outcome.state.tables.routeChange = s.tables.routeChange ∧
    (outcome.published ≠ [] → outcome.loaded = true) ∧
    outcome.state.Recovers currentTime s.changesDue

/-! ## The functions of a round -/

/-- After `load_version`. -/
def recorded (s : RoundState) : RoundState :=
  { s with route := (s.route.loadVersion (some s.tables.routeVersion)).2 }

theorem recorded_version (s : RoundState) : s.recorded.route.version = s.recordedVersion := by
  unfold recorded Route.loadVersion recordedVersion
  cases s.tables.routeVersion with
  | none => rfl
  | some version =>
    simp only [Option.getD_some]
    split
    · rename_i hsame
      exact hsame.symm
    · rfl

/-- A round on a new version. -/
theorem round_of_new {s : RoundState} (currentTime : Int) (answers : RoundAnswers)
    (hnew : (s.route.loadVersion (some s.tables.routeVersion)).1 = 1) :
    s.round currentTime answers =
      let outcome := s.recorded.reload currentTime answers.dataOk
      ⟨{ outcome.state with
          tables :=
            outcome.state.route.removeChanges outcome.state.tables false answers.removeOk },
        outcome.loaded,
        outcome.state.route.loadChanges
          (if answers.changesOk then some outcome.state.tables.routeChange else none)⟩ :=
  if_pos hnew

/-- A round on the same version, or on none, is at most a reload. -/
theorem round_of_same {s : RoundState} (currentTime : Int) (answers : RoundAnswers)
    (hsame : (s.route.loadVersion (some s.tables.routeVersion)).1 ≠ 1) :
    s.round currentTime answers =
      if currentTime - s.lastLoadTime ≥ Monitor.waitTime then
        s.recorded.reload currentTime answers.dataOk
      else ⟨s.recorded, false, []⟩ :=
  if_neg hsame

theorem reload_frame (s : RoundState) (currentTime : Int) (dataOk : Bool) :
    (s.reload currentTime dataOk).state.tables = s.tables ∧
      (s.reload currentTime dataOk).state.route.version = s.route.version ∧
      (s.reload currentTime dataOk).published = [] := by
  unfold reload Route.loadRouteData
  cases dataOk <;> exact ⟨rfl, rfl, rfl⟩

/-- What a round leaves as it was, and the version it records. -/
theorem round_frame (s : RoundState) (currentTime : Int) (answers : RoundAnswers) :
    (s.round currentTime answers).state.tables.routeData = s.tables.routeData ∧
      (s.round currentTime answers).state.tables.routeVersion = s.tables.routeVersion ∧
      (s.round currentTime answers).state.route.version = s.recordedVersion := by
  have hversion := s.recorded_version
  obtain ⟨htables, hkept, -⟩ := reload_frame s.recorded currentTime answers.dataOk
  by_cases hnew : (s.route.loadVersion (some s.tables.routeVersion)).1 = 1
  · rw [round_of_new currentTime answers hnew]
    unfold Route.removeChanges
    simp only
    split <;> exact ⟨by rw [htables]; rfl, by rw [htables]; rfl, hkept.trans hversion⟩
  · rw [round_of_same currentTime answers hnew]
    split
    · exact ⟨by rw [htables]; rfl, by rw [htables]; rfl, hkept.trans hversion⟩
    · exact ⟨rfl, rfl, hversion⟩

/-- The version of `RouteVersion`, if there is one, is the recorded one. -/
def Settled (s : RoundState) : Prop := s.recordedVersion = s.route.version

/-- After any round the version is settled. -/
theorem round_settled (s : RoundState) (currentTime : Int) (answers : RoundAnswers) :
    (s.round currentTime answers).state.Settled := by
  obtain ⟨-, hrow, hversion⟩ := s.round_frame currentTime answers
  unfold Settled recordedVersion
  rw [hrow, hversion]
  unfold recordedVersion
  cases s.tables.routeVersion <;> rfl

theorem loadVersion_settled {s : RoundState} (hsettled : s.Settled) :
    (s.route.loadVersion (some s.tables.routeVersion)).1 ≠ 1 ∧
      (s.route.loadVersion (some s.tables.routeVersion)).2 = s.route := by
  unfold Settled recordedVersion at hsettled
  unfold Route.loadVersion
  cases hversion : s.tables.routeVersion with
  | none => exact ⟨fun hret => absurd hret (by simp), rfl⟩
  | some version =>
    rw [hversion, Option.getD_some] at hsettled
    simp only [hsettled, if_true]
    exact ⟨by decide, trivial⟩

theorem round_of_settled {s : RoundState} (hsettled : s.Settled) (currentTime : Int)
    (answers : RoundAnswers) :
    s.round currentTime answers =
      if currentTime - s.lastLoadTime ≥ Monitor.waitTime then s.reload currentTime answers.dataOk
      else ⟨s, false, []⟩ := by
  obtain ⟨hsame, hroute⟩ := loadVersion_settled hsettled
  have hrecorded : s.recorded = s := by
    unfold recorded
    rw [hroute]
  rw [round_of_same currentTime answers hsame, hrecorded]

/-! ## A round without failures is a run of the monitor -/

/-- What a round sees of the monitor. -/
def ofMonitor (m : Monitor) : RoundState := ⟨m.tables, m.route, m.lastLoadTime⟩

/-- What the monitor has handed to `publish`. -/
def publishedBy (m : Monitor) : List (BitVec 64) := m.publishings.flatMap Publishing.changes

/-- From one `sleep` to the next, with no writer stepping in, the monitor does a round. -/
theorem clean_round_run {m : Monitor} (hpc : m.pc = .sleeping) (currentTime : Int) :
    ∃ labels m', Run (ofOption Monitor.next) m labels m' ∧ m'.pc = .sleeping ∧
      ofMonitor m' = ((ofMonitor m).round currentTime .clean).state ∧
      publishedBy m' =
        publishedBy m ++ ((ofMonitor m).round currentTime .clean).published := by
  by_cases hnew : (m.route.loadVersion (some m.tables.routeVersion)).1 = 1
  · have hversion : m.next (.loadVersion currentTime) = some { m with
        route := (m.route.loadVersion (some m.tables.routeVersion)).2
        pc := .versionLoaded currentTime } := by
      simp only [Monitor.next, hpc, hnew, if_true]
    have hround := round_of_new (s := ofMonitor m) currentTime .clean hnew
    refine ⟨[.loadVersion currentTime, .loadRouteData, .swap, .loadChanges, .publish,
      .removeChanges], _, Run.cons hversion (run_of_foldlM rfl), rfl, ?_, ?_⟩
    · rw [hround]
      rfl
    · rw [hround]
      simp only [publishedBy, List.flatMap_append, List.flatMap_singleton]
      rfl
  · have hversion : m.next (.loadVersion currentTime) = some { m with
        route := (m.route.loadVersion (some m.tables.routeVersion)).2
        pc := .versionSame currentTime } := by
      simp only [Monitor.next, hpc, hnew, if_false]
    have hround := round_of_same (s := ofMonitor m) currentTime .clean hnew
    by_cases hdue : currentTime - (ofMonitor m).lastLoadTime ≥ Monitor.waitTime
    · have hreload : Monitor.next { m with
          route := (m.route.loadVersion (some m.tables.routeVersion)).2
          pc := .versionSame currentTime } .checkReload = some _ := if_pos hdue
      refine ⟨[.loadVersion currentTime, .checkReload, .swap], _,
        Run.cons hversion (Run.cons hreload (run_of_foldlM rfl)), rfl, ?_, ?_⟩
      · rw [hround, if_pos hdue]
        rfl
      · rw [hround, if_pos hdue]
        exact (List.append_nil _).symm
    · have hwait : Monitor.next { m with
          route := (m.route.loadVersion (some m.tables.routeVersion)).2
          pc := .versionSame currentTime } .checkReload = some _ := if_neg hdue
      refine ⟨[.loadVersion currentTime, .checkReload], _,
        Run.cons hversion (Run.cons hwait (Run.nil _)), rfl, ?_, ?_⟩
      · rw [hround, if_neg hdue]
        rfl
      · rw [hround, if_neg hdue]
        exact (List.append_nil _).symm

/-! ## What later rounds do -/

/-- As long as the version stays the same, nothing is published. -/
theorem cleanRounds_published {s : RoundState} (hsettled : s.Settled) (times : List Int) :
    (s.cleanRounds times).2 = [] := by
  induction times generalizing s with
  | nil => rfl
  | cons currentTime times ih =>
    have hnone : (s.round currentTime .clean).published = [] := by
      rw [round_of_settled hsettled]
      split
      · exact (s.reload_frame currentTime _).2.2
      · rfl
    simp only [cleanRounds, hnone, List.nil_append]
    exact ih (s.round_settled currentTime .clean)

/-! ## When a round loses nothing -/

/-- Ten seconds later the data is loaded, whatever happened. -/
theorem recovers_nil {s : RoundState} (hsettled : s.Settled) (currentTime : Int) :
    s.Recovers currentTime [] := by
  let later := max (currentTime + 1) (s.lastLoadTime + Monitor.waitTime)
  refine ⟨[later], ?_, ?_, fun row hrow => absurd hrow List.not_mem_nil⟩
  · have hlater : currentTime < later :=
      Int.lt_of_lt_of_le (Int.lt_succ currentTime) (Int.le_max_left _ _)
    simpa using hlater
  · have hdue : later - s.lastLoadTime ≥ Monitor.waitTime := by
      have hlate : s.lastLoadTime + Monitor.waitTime ≤ later := Int.le_max_right _ _
      omega
    simp only [cleanRounds]
    rw [round_of_settled hsettled, if_pos hdue]
    rfl

/-- With no change up to the recorded version a round deletes and publishes none. -/
theorem round_of_no_due {s : RoundState} (currentTime : Int) (answers : RoundAnswers)
    (hnone : ∀ row ∈ s.tables.routeChange, s.recordedVersion < row.version) :
    (s.round currentTime answers).state.tables.routeChange = s.tables.routeChange ∧
      (s.round currentTime answers).published = [] := by
  obtain ⟨htables, hkept, hquiet⟩ := reload_frame s.recorded currentTime answers.dataOk
  by_cases hnew : (s.route.loadVersion (some s.tables.routeVersion)).1 = 1
  · have hlater : ∀ row ∈ s.recorded.tables.routeChange,
        (s.recorded.reload currentTime answers.dataOk).state.route.version < row.version := by
      intro row hrow
      rw [hkept, recorded_version]
      exact hnone row hrow
    rw [round_of_new currentTime answers hnew]
    simp only [htables]
    exact ⟨by rw [Route.removeChanges_of_none_due _ hlater]; rfl,
      Route.loadChanges_of_none_due _ hlater⟩
  · rw [round_of_same currentTime answers hnew]
    split
    · exact ⟨by rw [htables]; rfl, hquiet⟩
    · exact ⟨rfl, rfl⟩

/-- **A failing round loses nothing exactly if no change is due.** -/
theorem loses_nothing_iff (s : RoundState) (currentTime : Int) (answers : RoundAnswers) :
    (s.QueryFails currentTime answers → s.LosesNothing currentTime answers) ↔
      (s.QueryFails currentTime answers →
        ∀ row ∈ s.tables.routeChange, s.recordedVersion < row.version) := by
  constructor
  · intro hpromise hfails row hrow
    by_contra hdue
    obtain ⟨-, -, times, -, -, hpublished⟩ := hpromise hfails
    have hmem : row ∈ s.changesDue :=
      List.mem_filter.mpr ⟨hrow, decide_eq_true (Nat.le_of_not_lt hdue)⟩
    have hkey := hpublished row hmem
    rw [cleanRounds_published (s.round_settled currentTime answers)] at hkey
    exact absurd hkey List.not_mem_nil
  · intro hcondition hfails
    have hnone := hcondition hfails
    obtain ⟨hchange, hpublished⟩ := round_of_no_due currentTime answers hnone
    refine ⟨hchange, fun hsome => absurd hpublished hsome, ?_⟩
    have hempty : s.changesDue = [] := by
      apply List.filter_eq_nil_iff.mpr
      intro row hrow
      simpa using hnone row hrow
    rw [hempty]
    exact recovers_nil (s.round_settled currentTime answers) currentTime

/-- `load_route_data` fails in the round that sees version 5: the change is published with
    the old map and deleted. -/
theorem failed_load_loses_change :
    ¬ (QueryFails ⟨⟨[⟨1, 1, 0x0a000001, 80⟩], some 5, [⟨0, 1, 1, 5⟩]⟩, Route.create [], 0⟩ 1
        ⟨false, true, true⟩ →
      LosesNothing ⟨⟨[⟨1, 1, 0x0a000001, 80⟩], some 5, [⟨0, 1, 1, 5⟩]⟩, Route.create [], 0⟩ 1
        ⟨false, true, true⟩) := by
  intro hpromise
  have hfails : QueryFails ⟨⟨[⟨1, 1, 0x0a000001, 80⟩], some 5, [⟨0, 1, 1, 5⟩]⟩,
      Route.create [], 0⟩ 1 ⟨false, true, true⟩ := Or.inl rfl
  obtain ⟨hkept, -⟩ := hpromise hfails
  exact absurd hkept (by decide)

end RoundState

end LarsSystem.Dns
