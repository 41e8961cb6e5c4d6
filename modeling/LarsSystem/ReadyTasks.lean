import LarsSystem.GrowingVector
import LarsSystem.Transition

/-!
# The async tasks of an event loop

`execute_ready_tasks` walks the vector of ready tasks with an iterator while the
tasks it runs append to the same vector with `add_task`. As long as the vector has
room for them, the walk reaches the tasks added on the way and every task runs
once, in the order of adding. Where it has not, the vector moves away under the
iterator.
-/

namespace LarsSystem.Reactor

open LarsSystem.Transition

universe u

/-- A task function with its argument, and the tasks that running it adds. -/
inductive Task (α : Type u) where
  | mk (func : α) (adds : List (Task α))

namespace Task

variable {α : Type u}

def adds : Task α → List (Task α)
  | .mk _ adds => adds

mutual
/-- A task with all that running it adds, directly or by what it adds. -/
def count : Task α → Nat
  | .mk _ adds => countAll adds + 1
def countAll : List (Task α) → Nat
  | [] => 0
  | task :: tasks => task.count + countAll tasks
end

theorem count_eq (task : Task α) : task.count = countAll task.adds + 1 := by
  cases task with
  | mk func adds => rw [count, Task.adds]

theorem countAll_append (first second : List (Task α)) :
    countAll (first ++ second) = countAll first + countAll second := by
  induction first with
  | nil => rw [List.nil_append, countAll, Nat.zero_add]
  | cons task first ih => rw [List.cons_append, countAll, countAll, ih, Nat.add_assoc]

theorem length_le_countAll (tasks : List (Task α)) : tasks.length ≤ countAll tasks := by
  induction tasks with
  | nil => exact Nat.zero_le _
  | cons task tasks ih =>
    rw [countAll, count_eq, List.length_cons]
    omega

/-- What is left of a list from one task on: the task, what it adds, and the rest. -/
theorem countAll_drop {tasks : List (Task α)} {i : Nat} {task : Task α}
    (hget : tasks[i]? = some task) :
    countAll (tasks.drop i) = countAll (tasks.drop (i + 1) ++ task.adds) + 1 := by
  obtain ⟨hlt, rfl⟩ := List.getElem?_eq_some_iff.mp hget
  rw [List.drop_eq_getElem_cons hlt, countAll, count_eq, countAll_append]
  omega

end Task

inductive TaskFault where
  | invalidIterator    -- an iterator into an allocation that the vector has left
deriving DecidableEq, Repr

/-- `_ready_tasks`, with the tasks that were ever added and those that were executed. -/
structure TaskLoop (α : Type u) where
  ready : GrowingVector (Task α)
  added : List (Task α)
  executed : List (Task α)

/-- What happens to the tasks of a loop: an `add_task` between rounds, or a round. -/
inductive TaskEvent (α : Type u) where
  | addTask (task : Task α)
  | executeReadyTasks

namespace TaskLoop

variable {α : Type u}

def start : TaskLoop α := ⟨GrowingVector.empty, [], []⟩

variable (growth : Growth)

def addTask (s : TaskLoop α) (task : Task α) : TaskLoop α :=
  { s with ready := s.ready.pushBack growth task, added := s.added ++ [task] }

/-- `func(this, args)`, with the `add_task`s of the function. -/
def run (s : TaskLoop α) (task : Task α) : TaskLoop α :=
  { ready := s.ready.pushAll growth task.adds
    added := s.added ++ task.adds
    executed := s.executed ++ [task] }

/-- The loop of `execute_ready_tasks` from an iterator on. -/
def executeFrom (s : TaskLoop α) (it : VectorIter) : Except TaskFault (TaskLoop α) :=
  if it.block ≠ s.ready.block then Except.error TaskFault.invalidIterator
  else
    match _hget : s.ready.items[it.index]? with
    | none => Except.ok s
    | some task => executeFrom (s.run growth task) it.next
termination_by Task.countAll (s.ready.items.drop it.index)
decreasing_by
  have hleft := Task.countAll_drop _hget
  have hlt := (List.getElem?_eq_some_iff.mp _hget).1
  simp only [run, GrowingVector.pushAll_items, VectorIter.next]
  rw [List.drop_append_of_le_length (show it.index + 1 ≤ _ from hlt)]
  omega

/-- `execute_ready_tasks`. -/
def executeReadyTasks (s : TaskLoop α) : Except TaskFault (TaskLoop α) :=
  (s.executeFrom growth s.ready.first).map fun s => { s with ready := s.ready.clear }

def step (s : TaskLoop α) : TaskEvent α → Except TaskFault (TaskLoop α)
  | .addTask task => Except.ok (s.addTask growth task)
  | .executeReadyTasks => s.executeReadyTasks growth

/-- The vector has room for the ready tasks and all that running them adds. -/
def Fits (s : TaskLoop α) : TaskEvent α → Prop
  | .addTask _ => True
  | .executeReadyTasks => Task.countAll s.ready.items ≤ s.ready.capacity

/-- The tasks added were executed, in this order, but for those that are ready; and a round that
    comes to its end has executed all of them. -/
def Ordered (s : TaskLoop α) : Prop :=
  s.added = s.executed ++ s.ready.items ∧
    ∀ t, s.executeReadyTasks growth = Except.ok t → t.executed = t.added

/-! ## One round -/

section Round

variable {growth} {s : TaskLoop α} {i : Nat}

theorem executeFrom_end (hend : s.ready.items[i]? = none) :
    s.executeFrom growth ⟨s.ready.block, i⟩ = Except.ok s := by
  rw [executeFrom, if_neg (not_not.mpr rfl)]
  split
  · rfl
  · rename_i task hget
    cases hend.symm.trans hget

theorem executeFrom_next {task : Task α} (hget : s.ready.items[i]? = some task) :
    s.executeFrom growth ⟨s.ready.block, i⟩ =
      (s.run growth task).executeFrom growth ⟨s.ready.block, i + 1⟩ := by
  rw [executeFrom, if_neg (not_not.mpr rfl)]
  split
  · rename_i hnone
    cases hget.symm.trans hnone
  · rename_i task' hget'
    cases hget.symm.trans hget'
    rfl

theorem executeFrom_moved {it : VectorIter} (hmoved : it.block ≠ s.ready.block) :
    s.executeFrom growth it = Except.error TaskFault.invalidIterator := by
  rw [executeFrom, if_pos hmoved]

/-- Running the task at `i`: what is left to walk. -/
theorem run_left {task : Task α} (hget : s.ready.items[i]? = some task) :
    (s.run growth task).ready.items.drop (i + 1) =
      s.ready.items.drop (i + 1) ++ task.adds := by
  have hlt := (List.getElem?_eq_some_iff.mp hget).1
  rw [run, GrowingVector.pushAll_items, List.drop_append_of_le_length hlt]

/-- The vector keeps its place while a task adds what it has room for. -/
theorem run_inPlace (growth : Growth) {task : Task α} (hget : s.ready.items[i]? = some task)
    (hfits : i + Task.countAll (s.ready.items.drop i) ≤ s.ready.capacity) :
    (s.run growth task).ready.block = s.ready.block ∧
      (s.run growth task).ready.capacity = s.ready.capacity := by
  have hlt := (List.getElem?_eq_some_iff.mp hget).1
  have hcount := Task.countAll_drop hget
  have hlength := Task.length_le_countAll (s.ready.items.drop (i + 1) ++ task.adds)
  rw [List.length_append, List.length_drop] at hlength
  exact GrowingVector.pushAll_inPlace growth (by omega)

/-- **A walk with room** runs every task that is or gets into the vector. -/
theorem executeFrom_fits (growth : Growth) (hadded : s.added = s.executed ++ s.ready.items.drop i)
    (hfits : i + Task.countAll (s.ready.items.drop i) ≤ s.ready.capacity) :
    ∃ t, s.executeFrom growth ⟨s.ready.block, i⟩ = Except.ok t ∧ t.executed = t.added := by
  induction hcount : Task.countAll (s.ready.items.drop i) generalizing s i with
  | zero =>
    have hempty : s.ready.items.drop i = [] := by
      have hlength := Task.length_le_countAll (s.ready.items.drop i)
      rw [hcount] at hlength
      exact List.length_eq_zero_iff.mp (Nat.le_zero.mp hlength)
    have hend : s.ready.items[i]? = none :=
      List.getElem?_eq_none (List.drop_eq_nil_iff.mp hempty)
    refine ⟨s, executeFrom_end hend, ?_⟩
    rw [hadded, hempty, List.append_nil]
  | succ n ih =>
    cases hget : s.ready.items[i]? with
    | none =>
      have hempty : s.ready.items.drop i = [] :=
        List.drop_eq_nil_iff.mpr (List.getElem?_eq_none_iff.mp hget)
      rw [hempty] at hcount
      cases hcount
    | some task =>
      obtain ⟨hblock, hcapacity⟩ := run_inPlace growth hget hfits
      have hleft : Task.countAll ((s.run growth task).ready.items.drop (i + 1)) = n := by
        have hdrop := Task.countAll_drop hget
        rw [run_left hget]
        omega
      rw [executeFrom_next hget, ← hblock]
      refine ih ?_ ?_ hleft
      · obtain ⟨hlt, heq⟩ := List.getElem?_eq_some_iff.mp hget
        rw [run_left hget]
        simp only [run, hadded, List.append_assoc, List.drop_eq_getElem_cons hlt, heq,
          List.cons_append, List.nil_append]
      · rw [hleft, hcapacity]
        omega

/-- **A walk without room** ends on an iterator into the old allocation. -/
theorem executeFrom_overflows (hi : i ≤ s.ready.items.length)
    (hfull : s.ready.capacity < i + Task.countAll (s.ready.items.drop i)) :
    s.executeFrom growth ⟨s.ready.block, i⟩ = Except.error TaskFault.invalidIterator := by
  have hfits := s.ready.fits
  induction hcount : Task.countAll (s.ready.items.drop i) generalizing s i with
  | zero => omega
  | succ n ih =>
    cases hget : s.ready.items[i]? with
    | none =>
      have hempty : s.ready.items.drop i = [] :=
        List.drop_eq_nil_iff.mpr (List.getElem?_eq_none_iff.mp hget)
      rw [hempty] at hcount
      cases hcount
    | some task =>
      have hlt := (List.getElem?_eq_some_iff.mp hget).1
      rw [executeFrom_next hget]
      rcases Nat.lt_or_ge s.ready.capacity (s.ready.items.length + task.adds.length) with
        hmoves | hroom
      · have hblock : s.ready.block < (s.run growth task).ready.block :=
          GrowingVector.pushAll_moves growth hmoves
        exact executeFrom_moved (Nat.ne_of_lt hblock)
      · have hplace : (s.run growth task).ready.block = s.ready.block ∧
            (s.run growth task).ready.capacity = s.ready.capacity :=
          GrowingVector.pushAll_inPlace growth hroom
        have hleft : Task.countAll ((s.run growth task).ready.items.drop (i + 1)) = n := by
          have hdrop := Task.countAll_drop hget
          rw [run_left hget]
          omega
        rw [← hplace.1]
        refine ih ?_ ?_ (s.run growth task).ready.fits hleft
        · rw [run, GrowingVector.pushAll_items, List.length_append]
          omega
        · rw [hleft, hplace.2]
          omega

end Round

/-- What was added is what was executed and what is ready. -/
def Pending (s : TaskLoop α) : Prop := s.added = s.executed ++ s.ready.items

section Pending

variable {growth} {s : TaskLoop α} (hpending : s.Pending)
include hpending

theorem Pending.round (growth : Growth) (hfits : Task.countAll s.ready.items ≤ s.ready.capacity) :
    ∃ t, s.executeReadyTasks growth = Except.ok t ∧ t.Pending ∧ t.executed = t.added := by
  obtain ⟨t, hwalk, hall⟩ := executeFrom_fits growth (s := s) (i := 0) hpending
    (by rw [Nat.zero_add]; exact hfits)
  have hfirst : s.executeFrom growth s.ready.first = Except.ok t := hwalk
  refine ⟨{ t with ready := t.ready.clear }, by rw [executeReadyTasks, hfirst]; rfl, ?_, hall⟩
  exact hall.symm.trans (List.append_nil _).symm

omit hpending in
theorem round_overflows (hfull : s.ready.capacity < Task.countAll s.ready.items) :
    s.executeReadyTasks growth = Except.error TaskFault.invalidIterator := by
  have hwalk : s.executeFrom growth s.ready.first = Except.error TaskFault.invalidIterator :=
    executeFrom_overflows (i := 0) (Nat.zero_le _) (by rw [Nat.zero_add]; exact hfull)
  rw [executeReadyTasks, hwalk]
  rfl

theorem Pending.addTask (task : Task α) : (s.addTask growth task).Pending := by
  unfold Pending TaskLoop.addTask
  rw [GrowingVector.pushBack_items, ← List.append_assoc]
  exact congrArg (· ++ [task]) hpending

theorem Pending.ordered : s.Ordered growth := by
  refine ⟨hpending, ?_⟩
  intro t hround
  rcases Nat.lt_or_ge s.ready.capacity (Task.countAll s.ready.items) with hfull | hfits
  · cases hround.symm.trans (round_overflows hfull)
  · obtain ⟨t', hround', -, hall⟩ := hpending.round growth hfits
    cases hround.symm.trans hround'
    exact hall

end Pending

/-- **Every task is executed once and in order** in a run exactly if in each round the vector has
    room for the tasks that are added on the way. -/
theorem run_ordered_iff (growth : Growth) (events : List (TaskEvent α)) :
    Safe (step growth) (Ordered growth) (fun _ => False) start events ↔
      Meets (step growth) Fits start events := by
  refine safe_iff_meets Pending (fun s hpending => hpending.ordered) ?_ ?_ rfl
  · intro s event hpending hfits
    cases event with
    | addTask task => exact hpending.addTask task
    | executeReadyTasks =>
      obtain ⟨t, hround, hpending', -⟩ := hpending.round growth hfits
      rw [step, hround]
      exact hpending'
  · intro s event hpending hlands
    cases event with
    | addTask task => trivial
    | executeReadyTasks =>
      by_contra hfull
      rw [step, round_overflows (Nat.not_le.mp hfull)] at hlands
      exact hlands

/-- **A task that adds a task** moves the vector under the iterator. -/
theorem nested_add_moves :
    ¬ ∀ events : List (TaskEvent Nat),
      Safe (step Growth.double) (Ordered Growth.double) (fun _ => False) start events := by
  intro hsafe
  obtain ⟨-, -, hround⟩ := hsafe [.addTask (.mk 1 [.mk 2 []]), .executeReadyTasks]
  have hfull : ((start : TaskLoop Nat).addTask Growth.double (.mk 1 [.mk 2 []])).ready.capacity <
      Task.countAll ((start : TaskLoop Nat).addTask Growth.double (.mk 1 [.mk 2 []])).ready.items :=
    by decide
  rw [step, round_overflows hfull] at hround
  exact hround

end TaskLoop

end LarsSystem.Reactor
