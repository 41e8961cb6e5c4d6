import LarsSystem.ConnectionTable
import LarsSystem.TextRuns
import Mathlib.Data.Int.CardIntervalMod

/-!
# What the threads of a pool get

The main thread gives each accepted connection to one thread, the next in turn.
`send_task` gives a task to all of them, queue by queue, and while it does so
connections and other tasks come in between. Connections and tasks are numbered
here in the order in which they were begun; no step of the code reads that.

Each thread deals with its part of the connections, which is that of the turn, and
with each task once, in the order in which they were sent to it; and where a task
was begun after a connection was given away, its thread makes the connection first.
-/

namespace LarsSystem.Reactor

open LarsSystem.Transition

/-- A message for a thread with its number. -/
inductive PoolMsg where
  | newConn (k connfd : Nat)
  | newTask (b : Nat)
deriving DecidableEq

namespace PoolMsg

/-- What is sent of it. -/
def task : PoolMsg → TaskMsg
  | .newConn _ connfd => .newConn connfd
  | .newTask _ => .newTask

def conn? : PoolMsg → Option (Nat × Nat)
  | .newConn k connfd => some (connfd, k)
  | .newTask _ => none

end PoolMsg

/-- A pool with its history: the connections that were given to it, how many there were when a
    call of `send_task` began, and for each thread what was sent to it and what it has dealt
    with. `progress` is the variable `i` of the calls of `send_task`. -/
structure PoolRun where
  pool : ThreadPool
  given : List Nat
  calls : Nat
  base : Nat → Nat
  progress : Nat → Nat
  sent : Nat → List PoolMsg
  dealt : Nat → List TaskMsg

inductive PoolStep where
  | newConn (connfd : Nat)
  | beginTask
  | sendTask (b : Nat)
  | recv (i : Nat)
  | dealTask (i : Nat)

namespace PoolRun

def create (threadCnt : Nat) : PoolRun :=
  { pool := ThreadPool.create threadCnt
    given := []
    calls := 0
    base := fun _ => 0
    progress := fun _ => 0
    sent := fun _ => []
    dealt := fun _ => [] }

/-- `queue->send(task)`. -/
def send (r : PoolRun) (i : Nat) (msg : PoolMsg) : PoolRun :=
  { r with
    pool := r.pool.send i msg.task
    sent := Function.update r.sent i (r.sent i ++ [msg]) }

def next (r : PoolRun) : PoolStep → Option PoolRun
  | .newConn connfd =>
    -- a server without threads has no pool
    if r.pool.threadCnt = 0 then none
    else
      let (i, pool) := r.pool.getThread
      some ({ r with pool := pool, given := r.given ++ [connfd] }.send i
        (.newConn r.given.length connfd))
  | .beginTask =>
    some { r with calls := r.calls + 1, base := Function.update r.base r.calls r.given.length }
  | .sendTask b =>
    if b < r.calls ∧ r.progress b < r.pool.threadCnt then
      some ({ r with progress := Function.update r.progress b (r.progress b + 1) }.send
        (r.progress b) (.newTask b))
    else none
  | .recv i =>
    if i < r.pool.threadCnt ∧ r.pool.tasks i = [] then some { r with pool := r.pool.recv i }
    else none
  | .dealTask i =>
    match r.pool.tasks i with
    | [] => none
    | task :: _ =>
      some { r with
        pool := r.pool.popTask i
        dealt := Function.update r.dealt i (r.dealt i ++ [task]) }

/-- The connections whose turn is that of thread `i`, with their numbers. -/
def share (given : List Nat) (threadCnt i : Nat) : List (Nat × Nat) :=
  given.zipIdx.filter (·.2 % threadCnt = i)

/-- **What thread `i` gets.** -/
structure Receives (r : PoolRun) (i : Nat) : Prop where
  fifo : (r.sent i).map PoolMsg.task = r.dealt i ++ (r.pool.tasks i ++ (r.pool.queues i).queue)
  conns : (r.sent i).filterMap PoolMsg.conn? = share r.given r.pool.threadCnt i
  tasks : ∀ b, (r.sent i).count (.newTask b) =
    if b < r.calls ∧ i < r.progress b then 1 else 0
  order : ∀ b before after, r.sent i = before ++ .newTask b :: after →
    ∀ k connfd, r.given[k]? = some connfd → k < r.base b → k % r.pool.threadCnt = i →
      .newConn k connfd ∈ before

/-- No thread gets two connections more than another. -/
def Balanced (r : PoolRun) : Prop :=
  ∀ i j, i < r.pool.threadCnt → j < r.pool.threadCnt →
    ((r.sent i).filterMap PoolMsg.conn?).length ≤ ((r.sent j).filterMap PoolMsg.conn?).length + 1

/-! ## Shares -/

section Share

variable {given : List Nat} {threadCnt i : Nat}

theorem share_snoc (connfd : Nat) :
    share (given ++ [connfd]) threadCnt i =
      share given threadCnt i ++
        if given.length % threadCnt = i then [(connfd, given.length)] else [] := by
  unfold share
  rw [List.zipIdx_append, List.filter_append]
  congr 1
  by_cases hi : given.length % threadCnt = i <;> simp [hi]

theorem mem_share {connfd k : Nat} :
    (connfd, k) ∈ share given threadCnt i ↔ given[k]? = some connfd ∧ k % threadCnt = i := by
  unfold share
  rw [List.mem_filter, List.mk_mem_zipIdx_iff_getElem?, decide_eq_true_iff]

theorem length_share (hi : i < threadCnt) :
    (share given threadCnt i).length = given.length.count (· ≡ i [MOD threadCnt]) := by
  have hmod (m : Nat) : m ≡ i [MOD threadCnt] ↔ m % threadCnt = i := by
    rw [Nat.ModEq, Nat.mod_eq_of_lt hi]
  induction given using List.reverseRecOn with
  | nil => rfl
  | append_singleton given connfd ih =>
    rw [share_snoc, List.length_append, ih, List.length_append, List.length_singleton,
      Nat.count_succ]
    by_cases hlast : given.length % threadCnt = i
    · rw [if_pos hlast, if_pos ((hmod _).mpr hlast)]
      rfl
    · rw [if_neg hlast, if_neg fun hmodEq => hlast ((hmod _).mp hmodEq)]
      rfl

theorem share_balanced {j : Nat} (hi : i < threadCnt) (hj : j < threadCnt) :
    (share given threadCnt i).length ≤ (share given threadCnt j).length + 1 := by
  have hpos : 0 < threadCnt := Nat.zero_lt_of_lt hi
  rw [length_share hi, length_share hj, Nat.count_modEq_card _ hpos, Nat.count_modEq_card _ hpos]
  split <;> split <;> omega

end Share

/-! ## One step -/

/-- What holds in every run. -/
structure Inv (r : PoolRun) : Prop where
  index : r.pool.index ≤ r.pool.threadCnt
  turn : r.pool.threadCnt ≠ 0 → r.pool.getThread.1 = r.given.length % r.pool.threadCnt
  base : ∀ b, r.base b ≤ r.given.length
  fresh : ∀ b, r.calls ≤ b → r.progress b = 0
  receives : ∀ i < r.pool.threadCnt, r.Receives i

section Steps

variable {r r' : PoolRun} {i : Nat}

theorem inv_create (threadCnt : Nat) : (create threadCnt).Inv where
  index := Nat.zero_le _
  turn := by
    intro _
    have hzero : (create threadCnt).given.length % (create threadCnt).pool.threadCnt = 0 :=
      Nat.zero_mod _
    rw [hzero]
    exact ite_self 0
  base := fun _ => Nat.le_refl 0
  fresh := fun _ _ => rfl
  receives := by
    intro i _
    refine ⟨rfl, rfl, ?_, ?_⟩
    · intro b
      rfl
    · intro b before after hsent
      simp [create] at hsent

theorem sent_send (r : PoolRun) (j : Nat) (msg : PoolMsg) (i : Nat) :
    (r.send j msg).sent i = if i = j then r.sent i ++ [msg] else r.sent i := by
  by_cases hi : i = j
  · subst hi
    rw [if_pos rfl]
    exact Function.update_self _ _ _
  · rw [if_neg hi]
    exact Function.update_of_ne hi _ _

/-- A message goes to the end of what its thread has been sent. -/
theorem fifo_send (j : Nat) (msg : PoolMsg)
    (hfifo : (r.sent i).map PoolMsg.task =
      r.dealt i ++ (r.pool.tasks i ++ (r.pool.queues i).queue)) :
    ((r.send j msg).sent i).map PoolMsg.task = (r.send j msg).dealt i ++
      ((r.send j msg).pool.tasks i ++ ((r.send j msg).pool.queues i).queue) := by
  by_cases hi : i = j
  · subst hi
    simp only [PoolRun.send, ThreadPool.send, Function.update_self, List.map_append, hfifo,
      ThreadQueue.queue_send, List.append_assoc, List.map_cons, List.map_nil]
  · simp only [PoolRun.send, ThreadPool.send, Function.update_of_ne hi, hfifo]

/-- A connection does not come before a task that is there. -/
theorem before_newConn {sent before after : List PoolMsg} {k connfd b : Nat}
    (hsent : sent ++ [.newConn k connfd] = before ++ .newTask b :: after) :
    ∃ after', sent = before ++ .newTask b :: after' := by
  rcases snoc_eq_append_cons.mp hsent with ⟨-, -, heq⟩ | ⟨after', -, hrest⟩
  · cases heq
  · exact ⟨after', hrest⟩

/-- The thread after the one whose turn it is. -/
theorem next_turn {m n : Nat} (hn : n ≠ 0) :
    (if m % n + 1 = n then 0 else m % n + 1) = (m + 1) % n := by
  have hlt := Nat.mod_lt m (Nat.pos_of_ne_zero hn)
  have hsucc : (m + 1) % n = (m % n + 1) % n := (Nat.mod_add_mod m n 1).symm
  rw [hsucc]
  split
  · next hlast => rw [hlast, Nat.mod_self]
  · next hmore =>
    have hfits : m % n + 1 < n := by omega
    rw [Nat.mod_eq_of_lt hfits]

theorem Inv.newConn (inv : r.Inv) (hsome : r.pool.threadCnt ≠ 0) (connfd : Nat) :
    Inv ({ r with pool := r.pool.getThread.2, given := r.given ++ [connfd] }.send
      r.pool.getThread.1 (.newConn r.given.length connfd)) where
  index := (ThreadPool.getThread_lt inv.index hsome).2
  turn := by
    intro _
    have hnext := next_turn (m := r.given.length) hsome
    rw [← inv.turn hsome] at hnext
    simp only [PoolRun.send, List.length_append, List.length_singleton]
    exact hnext
  base := by
    intro b
    have hbase := inv.base b
    simp only [PoolRun.send, List.length_append, List.length_singleton]
    omega
  fresh := inv.fresh
  receives := by
    intro i hi
    have receives := inv.receives i hi
    rw [inv.turn hsome]
    refine ⟨fifo_send _ _ receives.fifo, ?_, ?_, ?_⟩
    · rw [sent_send]
      change _ = share (r.given ++ [connfd]) r.pool.threadCnt i
      rw [share_snoc, ← receives.conns]
      by_cases hturn : i = r.given.length % r.pool.threadCnt
      · rw [if_pos hturn, if_pos hturn.symm, List.filterMap_append]
        rfl
      · rw [if_neg hturn, if_neg (Ne.symm hturn), List.append_nil]
    · intro b
      rw [sent_send]
      split
      · rw [List.count_append, List.count_cons_of_ne (by simp), List.count_nil, Nat.add_zero]
        exact receives.tasks b
      · exact receives.tasks b
    · intro b before after hsent k connfd' hget hk hturn
      obtain ⟨after', hold⟩ : ∃ after', r.sent i = before ++ .newTask b :: after' := by
        rw [sent_send] at hsent
        split at hsent
        · exact before_newConn hsent
        · exact ⟨after, hsent⟩
      have hbase := inv.base b
      have hlt : k < r.given.length := Nat.lt_of_lt_of_le hk hbase
      have hget' : r.given[k]? = some connfd' := by
        rw [← List.getElem?_append_left hlt]
        exact hget
      exact receives.order b before after' hold k connfd' hget' hk hturn

/-- A task that has been sent is one of a call. -/
theorem Receives.call_lt (receives : r.Receives i) {b : Nat} (hmem : .newTask b ∈ r.sent i) :
    b < r.calls := by
  have hcount : 0 < (r.sent i).count (.newTask b) := List.count_pos_iff.mpr hmem
  rw [receives.tasks] at hcount
  split at hcount
  · next hcall => exact hcall.1
  · exact absurd hcount (Nat.lt_irrefl 0)

theorem Inv.beginTask (inv : r.Inv) :
    Inv { r with
      calls := r.calls + 1, base := Function.update r.base r.calls r.given.length } where
  index := inv.index
  turn := inv.turn
  base := by
    intro b
    simp only
    by_cases hb : b = r.calls
    · subst hb
      rw [Function.update_self]
    · rw [Function.update_of_ne hb]
      exact inv.base b
  fresh := fun b hb => inv.fresh b (Nat.le_of_succ_le hb)
  receives := by
    intro i hi
    have receives := inv.receives i hi
    refine ⟨receives.fifo, receives.conns, ?_, ?_⟩
    · intro b
      rw [receives.tasks]
      have hcall : b < r.calls + 1 ∧ i < r.progress b ↔ b < r.calls ∧ i < r.progress b := by
        constructor
        · rintro ⟨hb, hprogress⟩
          refine ⟨?_, hprogress⟩
          by_contra hnew
          rw [inv.fresh b (Nat.le_of_not_lt hnew)] at hprogress
          exact Nat.not_lt_zero i hprogress
        · rintro ⟨hb, hprogress⟩
          exact ⟨Nat.lt_succ_of_lt hb, hprogress⟩
      simp only [hcall]
    · intro b before after hsent k connfd hget hk
      have hmem : .newTask b ∈ r.sent i := by
        rw [hsent]
        exact List.mem_append_right _ List.mem_cons_self
      simp only [Function.update_of_ne (Nat.ne_of_lt (receives.call_lt hmem))] at hk
      exact receives.order b before after hsent k connfd hget hk

/-- The connections of a thread's turn have been sent to it. -/
theorem Receives.mem_sent (receives : r.Receives i) {k connfd : Nat}
    (hget : r.given[k]? = some connfd) (hturn : k % r.pool.threadCnt = i) :
    .newConn k connfd ∈ r.sent i := by
  have hshare : (connfd, k) ∈ (r.sent i).filterMap PoolMsg.conn? := by
    rw [receives.conns]
    exact mem_share.mpr ⟨hget, hturn⟩
  obtain ⟨msg, hmem, hmsg⟩ := List.mem_filterMap.mp hshare
  cases msg with
  | newConn k' connfd' =>
    cases hmsg
    exact hmem
  | newTask b => cases hmsg

theorem Inv.sendTask (inv : r.Inv) {b : Nat} (hcall : b < r.calls) :
    Inv ({ r with progress := Function.update r.progress b (r.progress b + 1) }.send
      (r.progress b) (.newTask b)) where
  index := inv.index
  turn := inv.turn
  base := inv.base
  fresh := by
    intro b' hb'
    have hne : b' ≠ b := by
      rintro rfl
      exact Nat.not_lt.mpr hb' hcall
    exact (Function.update_of_ne hne _ _).trans (inv.fresh b' hb')
  receives := by
    intro i hi
    have receives := inv.receives i hi
    refine ⟨fifo_send _ _ receives.fifo, ?_, ?_, ?_⟩
    · rw [sent_send]
      split
      · rw [List.filterMap_append]
        exact (List.append_nil _).trans receives.conns
      · exact receives.conns
    · intro b'
      rw [sent_send]
      change _ = if b' < r.calls ∧ i < Function.update r.progress b (r.progress b + 1) b' then 1
        else 0
      by_cases hb' : b' = b
      · subst hb'
        rw [Function.update_self]
        split
        · -- its queue is the next one of the call
          next hnext =>
          rw [List.count_append, receives.tasks, List.count_singleton_self, hnext,
            if_neg fun h => Nat.lt_irrefl _ h.2, if_pos ⟨hcall, Nat.lt_succ_self _⟩]
        · next hother =>
          rw [receives.tasks]
          have hiff : i < r.progress b' ↔ i < r.progress b' + 1 := by omega
          simp only [hiff]
      · rw [Function.update_of_ne hb', ← receives.tasks]
        split
        · rw [List.count_append, List.count_cons_of_ne (by simpa using Ne.symm hb'),
            List.count_nil, Nat.add_zero]
        · rfl
    · intro b' before after hsent k connfd hget hk hturn
      rw [sent_send] at hsent
      split at hsent
      · rcases snoc_eq_append_cons.mp hsent with ⟨-, rfl, -⟩ | ⟨after', -, hold⟩
        · exact receives.mem_sent hget hturn
        · exact receives.order b' before after' hold k connfd hget hk hturn
      · exact receives.order b' before after hsent k connfd hget hk hturn

theorem Inv.recv (inv : r.Inv) {j : Nat} (hempty : r.pool.tasks j = []) :
    Inv { r with pool := r.pool.recv j } where
  index := inv.index
  turn := inv.turn
  base := inv.base
  fresh := inv.fresh
  receives := by
    intro i hi
    have receives := inv.receives i hi
    refine ⟨?_, receives.conns, receives.tasks, receives.order⟩
    simp only
    rw [receives.fifo]
    by_cases hj : i = j
    · subst hj
      simp [ThreadPool.recv, ThreadQueue.recv, hempty]
    · simp [ThreadPool.recv, Function.update_of_ne hj]

theorem Inv.dealTask (inv : r.Inv) {j : Nat} {task : TaskMsg} {rest : List TaskMsg}
    (htasks : r.pool.tasks j = task :: rest) :
    Inv { r with
      pool := r.pool.popTask j, dealt := Function.update r.dealt j (r.dealt j ++ [task]) } where
  index := inv.index
  turn := inv.turn
  base := inv.base
  fresh := inv.fresh
  receives := by
    intro i hi
    have receives := inv.receives i hi
    refine ⟨?_, receives.conns, receives.tasks, receives.order⟩
    simp only
    rw [receives.fifo]
    by_cases hj : i = j
    · subst hj
      simp [ThreadPool.popTask, htasks]
    · simp [ThreadPool.popTask, Function.update_of_ne hj]

theorem Inv.next (inv : r.Inv) {step : PoolStep} (hnext : r.next step = some r') : r'.Inv := by
  cases step with
  | newConn connfd =>
    simp only [PoolRun.next] at hnext
    split at hnext <;> cases hnext
    next hsome => exact inv.newConn hsome connfd
  | beginTask =>
    cases hnext
    exact inv.beginTask
  | sendTask b =>
    simp only [PoolRun.next] at hnext
    split at hnext <;> cases hnext
    next hcall => exact inv.sendTask hcall.1
  | recv i =>
    simp only [PoolRun.next] at hnext
    split at hnext <;> cases hnext
    next hempty => exact inv.recv hempty.2
  | dealTask i =>
    simp only [PoolRun.next] at hnext
    split at hnext <;> cases hnext
    next htasks => exact inv.dealTask htasks

end Steps

/-! ## Runs -/

/-- **Every thread gets its turn's connections and every task**: in every run of the main thread,
    of any calls of `send_task` and of the threads. -/
theorem threads_receive {threadCnt : Nat} {steps : List PoolStep} {r : PoolRun}
    (run : Run (ofOption next) (create threadCnt) steps r) :
    (∀ i < r.pool.threadCnt, r.Receives i) ∧ r.Balanced := by
  have hstep : ∀ r step r', r.Inv → ofOption next r step r' → r'.Inv :=
    fun r step r' inv hnext => inv.next hnext
  have inv := run.invariant hstep (inv_create threadCnt)
  refine ⟨inv.receives, ?_⟩
  intro i j hi hj
  rw [(inv.receives i hi).conns, (inv.receives j hj).conns]
  exact share_balanced hi hj

/-- Two threads; a third connection comes in while a task is on its way to the second thread. -/
theorem threads_receive_between :
    ∃ r, Run (ofOption next) (create 2)
        [.newConn 7, .newConn 8, .beginTask, .sendTask 0, .newConn 9, .sendTask 0, .recv 0,
          .dealTask 0, .dealTask 0] r ∧
      r.dealt 0 = [.newConn 7, .newTask] ∧ r.pool.tasks 0 = [.newConn 9] ∧
      r.sent 1 = [.newConn 1 8, .newTask 0] ∧
      (∀ i < r.pool.threadCnt, r.Receives i) ∧ r.Balanced := by
  obtain ⟨r, hrun, hdealt, htasks, hsent⟩ : ∃ r, Run (ofOption next) (create 2)
        [.newConn 7, .newConn 8, .beginTask, .sendTask 0, .newConn 9, .sendTask 0, .recv 0,
          .dealTask 0, .dealTask 0] r ∧
      r.dealt 0 = [.newConn 7, .newTask] ∧ r.pool.tasks 0 = [.newConn 9] ∧
      r.sent 1 = [.newConn 1 8, .newTask 0] :=
    ⟨_, run_of_foldlM rfl, rfl, rfl, rfl⟩
  exact ⟨r, hrun, hdealt, htasks, hsent, threads_receive hrun⟩

end PoolRun

end LarsSystem.Reactor
