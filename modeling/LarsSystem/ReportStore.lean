import LarsSystem.LarsProto
import LarsSystem.LastWrite
import LarsSystem.Transition
import Mathlib.Data.Nat.Basic

/-!
# The reporter's store threads

`get_report_status` gives the reports to the queues of the store threads in turn.
A thread takes all that is in its queue and stores report by report, row by row;
each row is one atomic statement that inserts the row of its key or updates it.
Reports carry their number here, which no step of the code reads.

The last report of a key is in the table once all is stored, if no thread stores
a row while another still has an older row of the same key before it. With one
thread that is always so; with more nothing in the code provides for it.
-/

namespace LarsSystem.Reporter

open LarsSystem.LastWrite
open LarsSystem.Transition

/-- The primary key of `ServerCallStatus`. -/
structure StatusKey where
  modid : BitVec 32
  cmdid : BitVec 32
  ip : BitVec 32
  port : BitVec 32
  caller : BitVec 32
deriving DecidableEq, Repr

/-- The other columns of `ServerCallStatus`. -/
structure CallStatus where
  succCnt : BitVec 32
  errCnt : BitVec 32
  ts : BitVec 32
  overload : Bool
deriving DecidableEq, Repr

def CallStatus.stamp (status : CallStatus) : Nat := status.ts.toNat

/-- What `StoreReport::store` writes for one report. -/
def statusRows (req : ReportStatusRequest) : List (StatusKey × CallStatus) :=
  req.results.map fun result =>
    (⟨req.modid, req.cmdid, result.ip, result.port, req.caller⟩,
      ⟨result.succ, result.err, req.ts, result.overload⟩)

structure ReportStore where
  index : Nat
  reportQueues : Nat → List (Nat × ReportStatusRequest)
  reportMsg : Nat → List (Nat × ReportStatusRequest)
  rows : Nat → List (Pending StatusKey CallStatus)
  table : StatusKey → Option CallStatus
  received : List ReportStatusRequest

inductive ReportStep where
  | receive (req : ReportStatusRequest)
  | recv (i : Nat)
  | pop (i : Nat)
  | store (i : Nat)

namespace ReportStore

def start (table : StatusKey → Option CallStatus) : ReportStore :=
  ⟨0, fun _ => [], fun _ => [], fun _ => [], table, []⟩

/-- `get_report_status`. -/
def getReportStatus (threadCnt : Nat) (s : ReportStore) (req : ReportStatusRequest) : ReportStore :=
  { s with
    index := (s.index + 1) % threadCnt
    reportQueues := Function.update s.reportQueues s.index
      (s.reportQueues s.index ++ [(s.received.length, req)])
    received := s.received ++ [req] }

/-- `thread_report` takes the queue when it has stored all of the last one, a report when it
    has stored the last one, and a row. -/
def next (threadCnt : Nat) (s : ReportStore) : ReportStep → Option ReportStore
  | .receive req => some (s.getReportStatus threadCnt req)
  | .recv i =>
    if s.reportMsg i = [] ∧ s.rows i = [] then
      some { s with
        reportMsg := Function.update s.reportMsg i (s.reportQueues i)
        reportQueues := Function.update s.reportQueues i [] }
    else none
  | .pop i =>
    match s.rows i, s.reportMsg i with
    | [], (number, req) :: rest =>
      some { s with
        rows := Function.update s.rows i (numbered number (statusRows req))
        reportMsg := Function.update s.reportMsg i rest }
    | _, _ => none
  | .store i =>
    match s.rows i with
    | [] => none
    | row :: rest =>
      some { s with
        rows := Function.update s.rows i rest
        table := Function.update s.table row.key (some row.value) }

/-- All queues are empty and all reports are stored. -/
def Drained (s : ReportStore) : Prop :=
  ∀ i, s.reportQueues i = [] ∧ s.reportMsg i = [] ∧ s.rows i = []

/-- The last report of a key. -/
def lastReport (received : List ReportStatusRequest) (key : StatusKey) : Option CallStatus :=
  lastWrite (received.map statusRows) key

/-! ## As writers of a table -/

def pendingRows (reports : List (Nat × ReportStatusRequest)) :
    List (Pending StatusKey CallStatus) :=
  reports.flatMap fun report => numbered report.1 (statusRows report.2)

/-- The rows a thread has still to store, in its order. -/
def waiting (s : ReportStore) (i : Nat) : List (Pending StatusKey CallStatus) :=
  s.rows i ++ (pendingRows (s.reportMsg i) ++ pendingRows (s.reportQueues i))

def writers (s : ReportStore) : Writers Nat StatusKey CallStatus :=
  ⟨s.received.map statusRows, s.waiting, s.table⟩

theorem pendingRows_append (first second : List (Nat × ReportStatusRequest)) :
    pendingRows (first ++ second) = pendingRows first ++ pendingRows second :=
  List.flatMap_append

section Steps

variable {threadCnt : Nat} {s t : ReportStore}

theorem writers_receive (req : ReportStatusRequest) :
    (s.getReportStatus threadCnt req).writers = s.writers.receive s.index (statusRows req) := by
  have hlog : (s.received ++ [req]).map statusRows =
      s.received.map statusRows ++ [statusRows req] := List.map_append
  have hwaiting : (s.getReportStatus threadCnt req).waiting =
      Function.update s.waiting s.index
        (s.waiting s.index ++ numbered s.received.length (statusRows req)) := by
    funext j
    by_cases hj : j = s.index
    · subst hj
      rw [Function.update_self]
      simp only [waiting, getReportStatus, Function.update_self, pendingRows_append,
        List.append_assoc]
      simp [pendingRows]
    · rw [Function.update_of_ne hj]
      simp only [waiting, getReportStatus, Function.update_of_ne hj]
  unfold writers Writers.receive
  rw [hwaiting, List.length_map]
  simp only [getReportStatus, hlog]

/-- Taking the queue, and taking a report, do not change what a thread has still to store. -/
theorem writers_recv {i : Nat} (hnext : s.next threadCnt (.recv i) = some t) :
    t.writers = s.writers := by
  simp only [next] at hnext
  split at hnext
  · rename_i hidle
    cases hnext
    have hwaiting : waiting { s with
        reportMsg := Function.update s.reportMsg i (s.reportQueues i)
        reportQueues := Function.update s.reportQueues i [] } = s.waiting := by
      funext j
      by_cases hj : j = i
      · subst hj
        simp [waiting, pendingRows, hidle.1]
      · simp only [waiting, Function.update_of_ne hj]
    unfold writers
    rw [hwaiting]
  · cases hnext

theorem writers_pop {i : Nat} (hnext : s.next threadCnt (.pop i) = some t) :
    t.writers = s.writers := by
  simp only [next] at hnext
  split at hnext
  · rename_i number req rest hrows hmsg
    cases hnext
    have hwaiting : waiting { s with
        rows := Function.update s.rows i (numbered number (statusRows req))
        reportMsg := Function.update s.reportMsg i rest } = s.waiting := by
      funext j
      by_cases hj : j = i
      · subst hj
        simp [waiting, pendingRows, hrows, hmsg]
      · simp only [waiting, Function.update_of_ne hj]
    unfold writers
    rw [hwaiting]
  · cases hnext

theorem writers_store {i : Nat} (hnext : s.next threadCnt (.store i) = some t) :
    ∃ row rest, (s.rows i).head? = some row ∧ s.writers.waiting i = row :: rest ∧
      t.writers = s.writers.store i row rest := by
  simp only [next] at hnext
  split at hnext
  · cases hnext
  · rename_i row rest hrows
    cases hnext
    refine ⟨row, rest ++ (pendingRows (s.reportMsg i) ++ pendingRows (s.reportQueues i)),
      by rw [hrows]; rfl, by simp only [writers, waiting, hrows, List.cons_append], ?_⟩
    have hwaiting : waiting { s with
        rows := Function.update s.rows i rest
        table := Function.update s.table row.key (some row.value) } =
        Function.update s.waiting i
          (rest ++ (pendingRows (s.reportMsg i) ++ pendingRows (s.reportQueues i))) := by
      funext j
      by_cases hj : j = i
      · subst hj
        simp only [waiting, Function.update_self]
      · simp only [waiting, Function.update_of_ne hj]
    unfold writers Writers.store
    rw [hwaiting]

end Steps

/-! ## Runs -/

/-- A report is not older than those before it, nor than what the table holds. -/
def Dated (s : ReportStore) : ReportStep → Prop
  | .receive req =>
    (∀ old ∈ s.received, old.ts.toNat ≤ req.ts.toNat) ∧
      ∀ key status, s.table key = some status → status.stamp ≤ req.ts.toNat
  | _ => True

/-- No row is stored while another thread has an older row of the same key before it. -/
def InOrder (s : ReportStore) : ReportStep → Prop
  | .store i => ∀ row, (s.rows i).head? = some row → s.writers.InOrder i row
  | _ => True

/-- **A step keeps the invariant of the writers, and no row gets older.** -/
theorem next_inv {threadCnt : Nat} {table : StatusKey → Option CallStatus} {s t : ReportStore}
    {label : ReportStep} (hinv : s.writers.Inv CallStatus.stamp table)
    (hdated : s.Dated label) (horder : s.InOrder label)
    (hnext : s.next threadCnt label = some t) :
    t.writers.Inv CallStatus.stamp table ∧
      ∀ key status, s.table key = some status →
        ∃ status', t.table key = some status' ∧ status.stamp ≤ status'.stamp := by
  have hsame : t.writers = s.writers → t.writers.Inv CallStatus.stamp table ∧
      ∀ key status, s.table key = some status →
        ∃ status', t.table key = some status' ∧ status.stamp ≤ status'.stamp := by
    intro hwriters
    refine ⟨by rw [hwriters]; exact hinv, ?_⟩
    intro key status hstatus
    exact ⟨status, (congrFun (congrArg Writers.table hwriters) key).trans hstatus, Nat.le_refl _⟩
  cases label with
  | receive req =>
    cases hnext
    refine ⟨?_, fun key status hstatus => ⟨status, hstatus, Nat.le_refl _⟩⟩
    have hts : ∀ row ∈ statusRows req, row.2.stamp = req.ts.toNat := by
      intro row hrow
      obtain ⟨result, -, rfl⟩ := List.mem_map.mp hrow
      rfl
    rw [writers_receive]
    apply hinv.receive
    · intro row hrow other hother
      rw [hts row hrow, hts other hother]
    · intro earlier hearlier row hrow other hother
      obtain ⟨old, hold, rfl⟩ := List.mem_map.mp hearlier
      obtain ⟨result, -, rfl⟩ := List.mem_map.mp hrow
      rw [hts other hother]
      exact hdated.1 old hold
    · intro key status hstatus row hrow
      rw [hts row hrow]
      exact hdated.2 key status hstatus
  | recv i => exact hsame (writers_recv hnext)
  | pop i => exact hsame (writers_pop hnext)
  | store i =>
    obtain ⟨row, rest, hhead, hfront, hwriters⟩ := writers_store hnext
    refine ⟨by rw [hwriters]; exact hinv.store hfront (horder row hhead), ?_⟩
    intro key status hstatus
    obtain ⟨status', hstatus', hle⟩ := hinv.store_stamp hfront hstatus
    rw [← hwriters] at hstatus'
    exact ⟨status', hstatus', hle⟩

/-- What a run is to keep: no row gets older, and once all is stored each row is the last
    report of its key. -/
structure KeepsNewest (table : StatusKey → Option CallStatus) (s t : ReportStore) : Prop where
  stamps : ∀ key status, s.table key = some status →
    ∃ status', t.table key = some status' ∧ status.ts.toNat ≤ status'.ts.toNat
  newest : t.Drained → ∀ key, t.table key = (lastReport t.received key).or (table key)

section Runs

variable {threadCnt : Nat} {table : StatusKey → Option CallStatus}

theorem keepsNewest_of_run {s t : ReportStore} {labels : List ReportStep}
    (hinv : s.writers.Inv CallStatus.stamp table)
    (run : Run (Guarded (fun s label => s.Dated label ∧ s.InOrder label)
      (ofOption (next threadCnt))) s labels t) :
    t.writers.Inv CallStatus.stamp table ∧ KeepsNewest table s t := by
  induction run with
  | nil s =>
    refine ⟨hinv, fun key status hstatus => ⟨status, hstatus, Nat.le_refl _⟩, ?_⟩
    intro hdrained key
    refine hinv.drained ?_ key
    intro i
    obtain ⟨hqueue, hmsg, hrows⟩ := hdrained i
    simp [writers, waiting, pendingRows, hqueue, hmsg, hrows]
  | cons hstep _ ih =>
    obtain ⟨⟨hdated, horder⟩, hnext⟩ := hstep
    obtain ⟨hinv', hstamps⟩ := next_inv hinv hdated horder hnext
    obtain ⟨hend, hkeeps⟩ := ih hinv'
    refine ⟨hend, ?_, hkeeps.newest⟩
    intro key status hstatus
    obtain ⟨status', hstatus', hle⟩ := hstamps key status hstatus
    obtain ⟨status'', hstatus'', hle'⟩ := hkeeps.stamps key status' hstatus'
    exact ⟨status'', hstatus'', Nat.le_trans hle hle'⟩

/-- **The reporter keeps the newest status where rows of one key are stored in order**: in every
    run, for any number of threads. -/
theorem stores_newest {s t : ReportStore} {labels labels' : List ReportStep}
    (run : Run (Guarded (fun s label => s.Dated label ∧ s.InOrder label)
      (ofOption (next threadCnt))) (start table) labels s)
    (run' : Run (Guarded (fun s label => s.Dated label ∧ s.InOrder label)
      (ofOption (next threadCnt))) s labels' t) :
    KeepsNewest table s t := by
  obtain ⟨hinv, -⟩ := keepsNewest_of_run (Writers.inv_start CallStatus.stamp table) run
  exact (keepsNewest_of_run hinv run').2

/-! ## One thread -/

/-- The only thread has all the rows. -/
def OneThread (s : ReportStore) : Prop :=
  s.index = 0 ∧ ∀ j, j ≠ 0 → s.writers.waiting j = []

theorem oneThread_next {s t : ReportStore} {label : ReportStep} (hone : s.OneThread)
    (hnext : s.next 1 label = some t) : t.OneThread := by
  obtain ⟨hindex, hempty⟩ := hone
  cases label with
  | receive req =>
    cases hnext
    refine ⟨Nat.mod_one _, ?_⟩
    intro j hj
    rw [writers_receive, hindex, Writers.receive_other hj]
    exact hempty j hj
  | recv i =>
    have hwriters := writers_recv hnext
    simp only [next] at hnext
    split at hnext
    · cases hnext
      exact ⟨hindex, fun j hj => by rw [hwriters]; exact hempty j hj⟩
    · cases hnext
  | pop i =>
    have hwriters := writers_pop hnext
    simp only [next] at hnext
    split at hnext
    · cases hnext
      exact ⟨hindex, fun j hj => by rw [hwriters]; exact hempty j hj⟩
    · cases hnext
  | store i =>
    obtain ⟨row, rest, -, hfront, hwriters⟩ := writers_store hnext
    have hzero : i = 0 := by
      by_contra hi
      rw [hempty i hi] at hfront
      cases hfront
    simp only [next] at hnext
    split at hnext
    · cases hnext
    · cases hnext
      refine ⟨hindex, ?_⟩
      intro j hj
      rw [hwriters, hzero, Writers.store_other hj]
      exact hempty j hj

/-- A thread that alone has rows stores them in order. -/
theorem inOrder_of_alone {s : ReportStore} {i : Nat}
    (halone : ∀ j, j ≠ i → s.writers.waiting j = []) : s.InOrder (.store i) := by
  intro row _ j hji other hother
  rw [halone j hji] at hother
  cases hother

theorem OneThread.inOrder {s : ReportStore} (hone : s.OneThread) (label : ReportStep) :
    s.InOrder label := by
  cases label with
  | store i =>
    by_cases hi : i = 0
    · rw [hi]
      exact inOrder_of_alone hone.2
    · intro row hhead
      have hrow : row ∈ s.writers.waiting i := List.mem_append_left _ (List.mem_of_head? hhead)
      rw [hone.2 i hi] at hrow
      cases hrow
  | receive req => trivial
  | recv i => trivial
  | pop i => trivial

/-- **With one store thread the reporter keeps the newest status** in every run. -/
theorem one_thread_keeps_newest {t : ReportStore} {labels : List ReportStep}
    (run : Run (Guarded Dated (ofOption (next 1))) (start table) labels t) :
    KeepsNewest table (start table) t := by
  have hpreserved : ∀ s label t, OneThread s → Guarded Dated (ofOption (next 1)) s label t →
      OneThread t := fun s label t hone hstep => oneThread_next hone hstep.2
  have hordered := run.strengthen hpreserved (fun s label hone => hone.inOrder label)
    ⟨rfl, fun _ _ => rfl⟩
  have run' : Run (Guarded (fun s label => s.Dated label ∧ s.InOrder label) (ofOption (next 1)))
      (start table) labels t := by
    apply hordered.mono
    intro s label t hstep
    exact ⟨⟨hstep.2.1, hstep.1⟩, hstep.2.2⟩
  exact (keepsNewest_of_run (Writers.inv_start CallStatus.stamp table) run').2

end Runs

/-! ## Two threads -/

def report (succ ts : BitVec 32) : ReportStatusRequest := ⟨1, 1, 1, [⟨1, 80, succ, 0, false⟩], ts⟩

def reportKey : StatusKey := ⟨1, 1, 1, 80, 1⟩

/-- The second report is received when the first is stored. -/
theorem stores_newest_in_turn :
    ∃ t, KeepsNewest (fun _ => none) (start fun _ => none) t ∧ t.Drained ∧
      t.table reportKey = some ⟨2, 0, 2, false⟩ := by
  obtain ⟨t, run, hdrained, htable⟩ : ∃ t,
      Run (Guarded (fun s label => s.Dated label ∧ s.InOrder label) (ofOption (next 2)))
        (start fun _ => none)
        [.receive (report 1 1), .recv 0, .pop 0, .store 0, .receive (report 2 2), .recv 1, .pop 1,
          .store 1] t ∧ t.Drained ∧ t.table reportKey = some ⟨2, 0, 2, false⟩ := by
    refine ⟨_, Run.cons ⟨⟨⟨?_, ?_⟩, trivial⟩, rfl⟩ (Run.cons ⟨⟨trivial, trivial⟩, rfl⟩
      (Run.cons ⟨⟨trivial, trivial⟩, rfl⟩ (Run.cons ⟨⟨trivial, inOrder_of_alone ?_⟩, rfl⟩
      (Run.cons ⟨⟨⟨?_, ?_⟩, trivial⟩, rfl⟩ (Run.cons ⟨⟨trivial, trivial⟩, rfl⟩
      (Run.cons ⟨⟨trivial, trivial⟩, rfl⟩ (Run.cons ⟨⟨trivial, inOrder_of_alone ?_⟩, rfl⟩
        (Run.nil _)))))))), ?_, rfl⟩
    · intro old hold
      cases hold
    · intro key status hstatus
      cases hstatus
    · intro j hj
      rcases j with _ | _ | j
      · exact absurd rfl hj
      · rfl
      · rfl
    · intro old hold
      rw [List.mem_singleton.mp hold]
      decide
    · intro key status hstatus
      change Function.update (fun _ => none) reportKey (some ⟨1, 0, 1, false⟩) key =
        some status at hstatus
      by_cases hkey : key = reportKey
      · rw [hkey, Function.update_self] at hstatus
        cases hstatus
        decide
      · rw [Function.update_of_ne hkey] at hstatus
        cases hstatus
    · intro j hj
      rcases j with _ | _ | j
      · rfl
      · exact absurd rfl hj
      · rfl
    · intro i
      rcases i with _ | _ | i <;> exact ⟨rfl, rfl, rfl⟩
  exact ⟨t, stores_newest (Run.nil _) run, hdrained, htable⟩

/-- The second thread is faster: the first report is what is left in the table. -/
theorem older_report_stays :
    ¬ ∀ labels t, Run (Guarded Dated (ofOption (next 2))) (start fun _ => none) labels t →
      KeepsNewest (fun _ => none) (start fun _ => none) t := by
  intro hall
  obtain ⟨t, run, hdrained, htable, hreceived⟩ : ∃ t,
      Run (Guarded Dated (ofOption (next 2))) (start fun _ => none)
        [.receive (report 1 1), .receive (report 2 2), .recv 0, .pop 0, .recv 1, .pop 1, .store 1,
          .store 0] t ∧
        t.Drained ∧ t.table reportKey = some ⟨1, 0, 1, false⟩ ∧
          t.received = [report 1 1, report 2 2] := by
    refine ⟨_, Run.cons ⟨⟨?_, ?_⟩, rfl⟩ (Run.cons ⟨⟨?_, ?_⟩, rfl⟩ (Run.cons ⟨trivial, rfl⟩
      (Run.cons ⟨trivial, rfl⟩ (Run.cons ⟨trivial, rfl⟩ (Run.cons ⟨trivial, rfl⟩
        (Run.cons ⟨trivial, rfl⟩ (Run.cons ⟨trivial, rfl⟩ (Run.nil _)))))))), ?_, rfl, rfl⟩
    · intro old hold
      cases hold
    · intro key status hstatus
      cases hstatus
    · intro old hold
      rw [List.mem_singleton.mp hold]
      decide
    · intro key status hstatus
      cases hstatus
    · intro i
      rcases i with _ | _ | i <;> exact ⟨rfl, rfl, rfl⟩
  have hlast := (hall _ t run).newest hdrained reportKey
  rw [htable, hreceived] at hlast
  exact absurd hlast (by decide)

end ReportStore

end LarsSystem.Reporter
