import LarsSystem.EventLoop
import LarsSystem.Transition
import Mathlib.Algebra.Group.Nat.Defs

/-!
# `thread_queue`: tasks for another thread, and the descriptor that wakes it

Any number of threads send, one receives; the mutex makes each call one step. A
`send` puts the task into the queue and writes 1 to the eventfd, a `recv` reads
the eventfd and swaps the queue with the one it was given. The kernel's counter
and the queue are two pieces of state, and the receiver's loop only sees the
counter: it calls back while the counter is positive and the descriptor is
registered for reading, which may happen after the first tasks were sent.
-/

namespace LarsSystem.Reactor

open LarsSystem.Transition

universe u v

/-- The counter of an eventfd does not go beyond this. -/
def eventfdLimit : Nat := 2 ^ 64 - 2

/-- `_queue`, and the counter behind `_evfd`. -/
structure ThreadQueue (T : Type u) where
  queue : List T
  counter : Nat

namespace ThreadQueue

variable {T : Type u}

def create : ThreadQueue T := ⟨[], 0⟩

/-- `write(_evfd, 1)` on a descriptor that does not block: it fails where the counter is
    at its limit. -/
def writeEvent (q : ThreadQueue T) : ThreadQueue T :=
  if q.counter < eventfdLimit then { q with counter := q.counter + 1 } else q

/-- `read(_evfd)`, which resets the counter, or fails if it is zero. -/
def readEvent (q : ThreadQueue T) : ThreadQueue T := { q with counter := 0 }

/-- `send`. -/
def send (q : ThreadQueue T) (task : T) : ThreadQueue T :=
  { q with queue := q.queue ++ [task] }.writeEvent

/-- `recv`: what is in the queue goes to the caller, and what the caller had into the queue. -/
def recv (q : ThreadQueue T) (newQueue : List T) : List T × ThreadQueue T :=
  (q.queue, { q.readEvent with queue := newQueue })

/-- The counter tells whether there is a task. -/
def Signalled (q : ThreadQueue T) : Prop := q.counter = min q.queue.length eventfdLimit

@[simp] theorem queue_send (q : ThreadQueue T) (task : T) :
    (q.send task).queue = q.queue ++ [task] := by
  unfold send writeEvent
  split <;> rfl

theorem Signalled.send {q : ThreadQueue T} (hsignalled : q.Signalled) (task : T) :
    (q.send task).Signalled := by
  unfold Signalled at hsignalled ⊢
  rw [queue_send, List.length_append, List.length_singleton]
  unfold ThreadQueue.send writeEvent
  split
  · rename_i hroom
    simp only at hroom ⊢
    omega
  · rename_i hfull
    simp only at hfull ⊢
    omega

theorem signalled_recv (q : ThreadQueue T) : (q.recv []).2.Signalled := by
  simp [recv, readEvent, Signalled]

theorem Signalled.counter_pos {q : ThreadQueue T} (hsignalled : q.Signalled)
    (hsome : q.queue ≠ []) : 0 < q.counter := by
  have hlength : 0 < q.queue.length := List.length_pos_of_ne_nil hsome
  have hlimit : 0 < eventfdLimit := by decide
  rw [hsignalled]
  exact Nat.lt_min.mpr ⟨hlength, hlimit⟩

end ThreadQueue

/-! ## A queue with its threads and its loop -/

/-- A queue of a receiver whose loop serves other descriptors too. The history has the tasks
    that each call of `recv` returned. -/
structure QueueThreads (κ : Type) (T : Type u) where
  evfd : Int
  queue : ThreadQueue T
  loopSet : Bool
  loop : EventLoop κ
  registered : Bool
  received : List (List T)

/-- `S` names the senders. -/
inductive QueueLabel (S : Type v) (κ : Type) (T : Type u) where
  | send (sender : S) (task : T)
  | recv (newQueue : List T)
  | setLoop
  | setCallback (cb : κ) (ctlOk : Bool)
  | addIoEvent (fd : Int) (proc : κ) (mask : Mask) (ctlOk : Bool)
  | delIoEvent (fd : Int)
  | delIoEventMask (fd : Int) (mask : Mask)
  | closeFd (fd : Int)

/-- The tasks that a step sends. -/
def QueueLabel.tasks {S : Type v} {κ : Type} {T : Type u} : QueueLabel S κ T → List T
  | .send _ task => [task]
  | _ => []

namespace QueueThreads

variable {S : Type v} {κ : Type} {T : Type u}

/-- A new queue, and the loop of its receiver with whatever is registered there. -/
def create (evfd : Int) (loop : EventLoop κ) : QueueThreads κ T :=
  { evfd := evfd
    queue := ThreadQueue.create
    loopSet := false
    loop := loop
    registered := false
    received := [] }

/-- One step; the loop's other operations are about other descriptors than `_evfd`. -/
def next (s : QueueThreads κ T) : QueueLabel S κ T → Option (QueueThreads κ T)
  | .send _ task => some { s with queue := s.queue.send task }
  | .recv newQueue =>
    let (tasks, queue) := s.queue.recv newQueue
    some { s with queue := queue, received := s.received ++ [tasks] }
  | .setLoop => some { s with loopSet := true }
  | .setCallback cb ctlOk =>
    -- without a loop `set_callback` does nothing
    if s.loopSet then
      some { s with
        loop := s.loop.addIoEvent s.evfd cb .EPOLLIN ctlOk
        registered := s.registered ||
          (ctlOk && ((s.loop.ioEvs s.evfd).isSome == (s.loop.kernel s.evfd).isSome)) }
    else some s
  | .addIoEvent fd proc mask ctlOk =>
    if fd = s.evfd then none else some { s with loop := s.loop.addIoEvent fd proc mask ctlOk }
  | .delIoEvent fd => if fd = s.evfd then none else some { s with loop := s.loop.delIoEvent fd }
  | .delIoEventMask fd mask =>
    if fd = s.evfd then none else some { s with loop := s.loop.delIoEventMask fd mask }
  | .closeFd fd => if fd = s.evfd then none else some { s with loop := s.loop.closeFd fd }

/-- Callers give `recv` a queue without tasks. -/
def IntoEmpty (_ : QueueThreads κ T) : QueueLabel S κ T → Prop
  | .recv newQueue => newQueue = []
  | _ => True

/-- The tasks that the steps send, in the order in which the senders held the mutex. -/
def sentTasks (labels : List (QueueLabel S κ T)) : List T := labels.flatMap QueueLabel.tasks

/-- A level-triggered EPOLLIN is pending: `epoll_wait` reports `_evfd`. -/
def EpollinPending (s : QueueThreads κ T) : Prop :=
  (∃ mask, s.loop.kernel s.evfd = some mask ∧ mask.epollin = true) ∧ 0 < s.queue.counter

/-- **What a queue promises** after the steps `labels`. -/
structure Delivers (labels : List (QueueLabel S κ T)) (s : QueueThreads κ T) : Prop where
  inOrder : s.received.flatten ++ s.queue.queue = sentTasks labels
  wakes : s.queue.queue ≠ [] → 0 < s.queue.counter
  pending : s.registered = true → s.queue.queue ≠ [] → s.EpollinPending
  /-- The loop finds a callback for it. -/
  calls : s.registered = true → ∃ cb, s.loop.dispatch s.evfd .EPOLLIN = .call cb

/-! ## The invariant -/

structure QueueInv (sent : List T) (s : QueueThreads κ T) : Prop where
  inOrder : s.received.flatten ++ s.queue.queue = sent
  signalled : s.queue.Signalled
  reading : s.registered = true → ∃ cb, s.loop.Reading s.evfd cb

theorem queueInv_create (evfd : Int) (loop : EventLoop κ) :
    QueueInv [] (create evfd loop : QueueThreads κ T) := by
  refine ⟨rfl, rfl, ?_⟩
  intro hregistered
  cases hregistered

section Steps

variable {sent : List T} {s s' : QueueThreads κ T}

theorem QueueInv.send (hinv : QueueInv sent s) (task : T) :
    QueueInv (sent ++ [task]) { s with queue := s.queue.send task } := by
  refine ⟨?_, hinv.signalled.send task, hinv.reading⟩
  rw [ThreadQueue.queue_send, ← List.append_assoc, hinv.inOrder]

theorem QueueInv.recv (hinv : QueueInv sent s) :
    QueueInv sent { s with
      queue := (s.queue.recv []).2
      received := s.received ++ [(s.queue.recv []).1] } := by
  refine ⟨?_, s.queue.signalled_recv, hinv.reading⟩
  simpa [ThreadQueue.recv] using hinv.inOrder

theorem QueueInv.setCallback (hinv : QueueInv sent s) (cb : κ) (ctlOk : Bool) :
    QueueInv sent { s with
      loop := s.loop.addIoEvent s.evfd cb .EPOLLIN ctlOk
      registered := s.registered ||
        (ctlOk && ((s.loop.ioEvs s.evfd).isSome == (s.loop.kernel s.evfd).isSome)) } := by
  refine ⟨hinv.inOrder, hinv.signalled, ?_⟩
  intro hregistered
  rcases Bool.or_eq_true_iff.mp hregistered with hbefore | hnow
  · obtain ⟨old, hreading⟩ := hinv.reading hbefore
    exact ⟨cb, hreading.addRead ctlOk⟩
  · obtain ⟨rfl, hmatched⟩ := Bool.and_eq_true_iff.mp hnow
    exact ⟨cb, EventLoop.Matched.reading (beq_iff_eq.mp hmatched) cb⟩

/-- What the loop does with other descriptors. -/
theorem QueueInv.loopStep (hinv : QueueInv sent s) {loop : EventLoop κ}
    (hsame : s.loop.SameEntry loop s.evfd) : QueueInv sent { s with loop := loop } := by
  refine ⟨hinv.inOrder, hinv.signalled, ?_⟩
  intro hregistered
  obtain ⟨cb, hreading⟩ := hinv.reading hregistered
  exact ⟨cb, hsame.reading hreading⟩

/-- One step keeps the invariant. -/
theorem QueueInv.next (hinv : QueueInv sent s) {label : QueueLabel S κ T}
    (hempty : s.IntoEmpty label) (hnext : s.next label = some s') :
    QueueInv (sent ++ label.tasks) s' := by
  cases label with
  | send sender task =>
    cases hnext
    exact hinv.send task
  | recv newQueue =>
    obtain rfl : newQueue = [] := hempty
    cases hnext
    simp only [QueueLabel.tasks, List.append_nil]
    exact hinv.recv
  | setLoop =>
    cases hnext
    simp only [QueueLabel.tasks, List.append_nil]
    exact ⟨hinv.inOrder, hinv.signalled, hinv.reading⟩
  | setCallback cb ctlOk =>
    simp only [QueueLabel.tasks, List.append_nil]
    simp only [QueueThreads.next] at hnext
    split at hnext
    · cases hnext
      exact hinv.setCallback cb ctlOk
    · cases hnext
      exact hinv
  | addIoEvent fd proc mask ctlOk =>
    simp only [QueueLabel.tasks, List.append_nil]
    simp only [QueueThreads.next] at hnext
    split at hnext
    · cases hnext
    · rename_i hother
      cases hnext
      exact hinv.loopStep (EventLoop.sameEntry_addIoEvent (Ne.symm hother))
  | delIoEvent fd =>
    simp only [QueueLabel.tasks, List.append_nil]
    simp only [QueueThreads.next] at hnext
    split at hnext
    · cases hnext
    · rename_i hother
      cases hnext
      exact hinv.loopStep (EventLoop.sameEntry_delIoEvent (Ne.symm hother))
  | delIoEventMask fd mask =>
    simp only [QueueLabel.tasks, List.append_nil]
    simp only [QueueThreads.next] at hnext
    split at hnext
    · cases hnext
    · rename_i hother
      cases hnext
      exact hinv.loopStep (EventLoop.sameEntry_delIoEventMask (Ne.symm hother))
  | closeFd fd =>
    simp only [QueueLabel.tasks, List.append_nil]
    simp only [QueueThreads.next] at hnext
    split at hnext
    · cases hnext
    · rename_i hother
      cases hnext
      exact hinv.loopStep (EventLoop.sameEntry_closeFd (Ne.symm hother))

theorem QueueInv.delivers {labels : List (QueueLabel S κ T)}
    (hinv : QueueInv (sentTasks labels) s) : Delivers labels s := by
  refine ⟨hinv.inOrder, hinv.signalled.counter_pos, ?_, ?_⟩
  · intro hregistered hsome
    obtain ⟨cb, ev, mask, -, -, -, hkernel, hmask⟩ := hinv.reading hregistered
    exact ⟨⟨mask, hkernel, hmask⟩, hinv.signalled.counter_pos hsome⟩
  · intro hregistered
    obtain ⟨cb, hreading⟩ := hinv.reading hregistered
    exact ⟨cb, hreading.dispatch_read⟩

end Steps

/-! ## Every run -/

theorem run_queueInv {sent : List T} {labels : List (QueueLabel S κ T)}
    {s t : QueueThreads κ T} (hrun : Run (Guarded IntoEmpty (ofOption next)) s labels t)
    (hinv : QueueInv sent s) : QueueInv (sent ++ sentTasks labels) t := by
  induction hrun generalizing sent with
  | nil s =>
    rw [sentTasks, List.flatMap_nil, List.append_nil]
    exact hinv
  | cons hstep _ ih =>
    obtain ⟨hempty, hnext⟩ := hstep
    rw [sentTasks, List.flatMap_cons, ← List.append_assoc]
    exact ih (hinv.next hempty hnext)

/-- **A queue loses, duplicates and reorders nothing, and wakes its receiver**: in every
    state of every run, what the receiver got and what is still in the queue are the tasks
    sent, in their order, and the loop is told of a queue that is not empty. -/
theorem run_delivers {evfd : Int} {loop : EventLoop κ} {labels : List (QueueLabel S κ T)}
    {s : QueueThreads κ T}
    (hrun : Run (Guarded IntoEmpty (ofOption next)) (create evfd loop) labels s) :
    Delivers labels s := by
  have hinv := run_queueInv hrun (queueInv_create evfd loop)
  rw [List.nil_append] at hinv
  exact hinv.delivers

/-- A task is sent before the receiver has registered the descriptor. -/
theorem run_delivers_early_send :
    ∃ s : QueueThreads Bool Nat, Run (Guarded IntoEmpty (ofOption next)) (create 6 .empty)
        [.send 'a' 1, .setLoop, .setCallback true true, .recv [], .send 'b' 2, .send 'a' 3] s ∧
      s.received = [[1]] ∧ s.queue.queue = [2, 3] ∧
      Delivers [.send 'a' 1, .setLoop, .setCallback true true, .recv [], .send 'b' 2,
        .send 'a' 3] s := by
  have hrun : ∃ s : QueueThreads Bool Nat, Run (Guarded IntoEmpty (ofOption next))
      (create 6 .empty) [.send 'a' 1, .setLoop, .setCallback true true, .recv [], .send 'b' 2,
        .send 'a' 3] s ∧ s.received = [[1]] ∧ s.queue.queue = [2, 3] := by
    refine ⟨_, Run.cons ⟨trivial, rfl⟩ (Run.cons ⟨trivial, rfl⟩ (Run.cons ⟨trivial, rfl⟩
      (Run.cons ⟨rfl, rfl⟩ (Run.cons ⟨trivial, rfl⟩ (Run.cons ⟨trivial, rfl⟩ (Run.nil _)))))),
      ?_, ?_⟩
    · rfl
    · rfl
  obtain ⟨s, hs, hreceived, hqueue⟩ := hrun
  exact ⟨s, hs, hreceived, hqueue, run_delivers hs⟩

end QueueThreads

end LarsSystem.Reactor
