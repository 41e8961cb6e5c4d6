import Mathlib.Data.List.Basic
import Mathlib.Logic.Function.Basic
import Mathlib.Order.Basic

/-!
# Writes to one table from several queues

Batches of writes arrive in an order and are spread over the queues of several
writers, each of which makes its own in the order in which it got them. Nothing
orders the writers among themselves. As long as no writer makes a write while
another has an older one of the same key before it, the table ends up as if one
writer had made all, and a stamp that does not go down from batch to batch does
not go down in the table.
-/

namespace LarsSystem.LastWrite

universe u v w

/-! ## The last element that meets a condition -/

section LastOf

variable {α : Type u} {p : α → Bool}

def lastOf (p : α → Bool) (l : List α) : Option α := (l.filter p).getLast?

@[simp] theorem lastOf_nil (p : α → Bool) : lastOf p [] = none := rfl

theorem lastOf_append (l m : List α) : lastOf p (l ++ m) = (lastOf p m).or (lastOf p l) := by
  rw [lastOf, List.filter_append, List.getLast?_append]
  rfl

theorem lastOf_cons_neg {a : α} (hp : p a = false) (l : List α) :
    lastOf p (a :: l) = lastOf p l := by
  rw [lastOf, List.filter_cons_of_neg (by simp [hp])]
  rfl

theorem lastOf_cons_pos {a : α} (hp : p a = true) (l : List α) :
    lastOf p (a :: l) = some ((lastOf p l).getD a) := by
  rw [lastOf, List.filter_cons_of_pos hp, List.getLast?_cons]
  rfl

theorem lastOf_eq_none_iff {l : List α} : lastOf p l = none ↔ ∀ a ∈ l, p a = false := by
  rw [lastOf, List.getLast?_eq_none_iff, List.filter_eq_nil_iff]
  simp only [Bool.not_eq_true]

theorem lastOf_map {β : Type v} (f : β → α) (l : List β) :
    lastOf p (l.map f) = (lastOf (p ∘ f) l).map f := by
  rw [lastOf, List.filter_map, List.getLast?_map]
  rfl

end LastOf

/-! ## Writers -/

/-- A write, with the number of the batch it came in. -/
structure Pending (κ : Type v) (ν : Type w) where
  number : Nat
  key : κ
  value : ν

structure Writers (ι : Type u) (κ : Type v) (ν : Type w) where
  log : List (List (κ × ν))
  waiting : ι → List (Pending κ ν)
  table : κ → Option ν

variable {ι : Type u} {κ : Type v} {ν : Type w}

def numbered (number : Nat) (batch : List (κ × ν)) : List (Pending κ ν) :=
  batch.map fun write => ⟨number, write.1, write.2⟩

namespace Writers

def start (table : κ → Option ν) : Writers ι κ ν := ⟨[], fun _ => [], table⟩

/-- No other writer has an older write of the key before it. -/
def InOrder (s : Writers ι κ ν) (i : ι) (write : Pending κ ν) : Prop :=
  ∀ j, j ≠ i → ∀ other ∈ s.waiting j, other.key = write.key → write.number ≤ other.number

section Receive

variable [DecidableEq ι] {s : Writers ι κ ν} {i : ι}

/-- A batch goes to a writer. -/
def receive (s : Writers ι κ ν) (i : ι) (batch : List (κ × ν)) : Writers ι κ ν :=
  { s with
    log := s.log ++ [batch]
    waiting := Function.update s.waiting i (s.waiting i ++ numbered s.log.length batch) }

@[simp] theorem receive_self (batch : List (κ × ν)) :
    (s.receive i batch).waiting i = s.waiting i ++ numbered s.log.length batch :=
  Function.update_self _ _ _

@[simp] theorem receive_other {j : ι} (hji : j ≠ i) (batch : List (κ × ν)) :
    (s.receive i batch).waiting j = s.waiting j :=
  Function.update_of_ne hji _ _

theorem mem_receive {batch : List (κ × ν)} {j : ι} {write : Pending κ ν}
    (hmem : write ∈ (s.receive i batch).waiting j) :
    write ∈ s.waiting j ∨
      (j = i ∧ write.number = s.log.length ∧ (write.key, write.value) ∈ batch) := by
  by_cases hji : j = i
  · rw [hji, receive_self] at hmem
    rcases List.mem_append.mp hmem with hold | hnew
    · exact Or.inl (by rwa [hji])
    · obtain ⟨entry, hentry, rfl⟩ := List.mem_map.mp hnew
      exact Or.inr ⟨hji, rfl, hentry⟩
  · rw [receive_other hji] at hmem
    exact Or.inl hmem

end Receive

end Writers

/-! ## The invariant -/

variable [DecidableEq κ]

/-- The last write of a key in the batches. -/
def lastWrite (log : List (List (κ × ν))) (key : κ) : Option ν :=
  (lastOf (fun write => write.1 = key) log.flatten).map Prod.snd

/-- The last of the writes of a key that are still to be made. -/
def lastPending (waiting : List (Pending κ ν)) (key : κ) : Option (Pending κ ν) :=
  lastOf (fun write => write.key = key) waiting

theorem lastWrite_append (log : List (List (κ × ν))) (batch : List (κ × ν)) (key : κ) :
    lastWrite (log ++ [batch]) key =
      ((lastOf (fun write => write.1 = key) batch).map Prod.snd).or (lastWrite log key) := by
  unfold lastWrite
  rw [List.flatten_append, List.flatten_singleton, lastOf_append]
  cases lastOf (fun write => decide (write.1 = key)) batch <;> rfl

theorem lastPending_numbered (number : Nat) (batch : List (κ × ν)) (key : κ) :
    lastPending (numbered number batch) key =
      (lastOf (fun write => write.1 = key) batch).map fun write => ⟨number, write.1, write.2⟩ := by
  rw [lastPending, numbered, lastOf_map]
  rfl

namespace Writers

variable {τ : Type*} [Preorder τ]

/-- What the last write of a key is: made, or the last of those that are still to be made. -/
def Newest (table : κ → Option ν) (s : Writers ι κ ν) (key : κ) : Prop :=
  ((∀ i, ∀ write ∈ s.waiting i, write.key ≠ key) ∧
      s.table key = (lastWrite s.log key).or (table key)) ∨
    ∃ i last, lastPending (s.waiting i) key = some last ∧
      lastWrite s.log key = some last.value ∧
      ∀ j, ∀ write ∈ s.waiting j, write.key = key → write.number ≤ last.number

/-- A writer has its writes in the order of their batches, no two writers share a batch, and
    stamps go up with the numbers, from what the table holds. -/
structure Inv (stamp : ν → τ) (table : κ → Option ν) (s : Writers ι κ ν) : Prop where
  received : ∀ i, ∀ write ∈ s.waiting i,
    write.number < s.log.length ∧ ∃ batch ∈ s.log, (write.key, write.value) ∈ batch
  sorted : ∀ i, (s.waiting i).Pairwise fun first second => first.number ≤ second.number
  apart : ∀ i j, i ≠ j → ∀ write ∈ s.waiting i, ∀ other ∈ s.waiting j,
    write.number ≠ other.number
  dated : ∀ i j, ∀ write ∈ s.waiting i, ∀ other ∈ s.waiting j,
    write.number ≤ other.number → stamp write.value ≤ stamp other.value
  old : ∀ key value, s.table key = some value →
    ∀ i, ∀ write ∈ s.waiting i, write.key = key → stamp value ≤ stamp write.value
  newest : ∀ key, Newest table s key

theorem inv_start (stamp : ν → τ) (table : κ → Option ν) :
    Inv stamp table (start table : Writers ι κ ν) := by
  constructor
  · intro i write hmem
    cases hmem
  · intro i
    exact List.Pairwise.nil
  · intro i j _ write hmem
    cases hmem
  · intro i j write hmem
    cases hmem
  · intro key value _ i write hmem
    cases hmem
  · intro key
    refine Or.inl ⟨?_, rfl⟩
    intro i write hmem
    cases hmem

section Invariant

variable {stamp : ν → τ} {table : κ → Option ν} {s : Writers ι κ ν} (hinv : Inv stamp table s)
include hinv

/-- When nothing is left to be written, the table holds the last write of each key. -/
theorem Inv.drained (hdrained : ∀ i, s.waiting i = []) (key : κ) :
    s.table key = (lastWrite s.log key).or (table key) := by
  rcases hinv.newest key with ⟨-, hmade⟩ | ⟨i, last, hlast, -, -⟩
  · exact hmade
  · rw [hdrained i] at hlast
    cases hlast

variable [DecidableEq ι] {i : ι}

theorem Inv.newest_receive {batch : List (κ × ν)} (key : κ) :
    Newest table (s.receive i batch) key := by
  have hlog : (s.receive i batch).log = s.log ++ [batch] := rfl
  cases hnew : lastOf (fun write => decide (write.1 = key)) batch with
  | none =>
    have hwrite : lastWrite (s.receive i batch).log key = lastWrite s.log key := by
      rw [hlog, lastWrite_append, hnew]
      rfl
    have hpending : ∀ j, lastPending ((s.receive i batch).waiting j) key =
        lastPending (s.waiting j) key := by
      intro j
      by_cases hji : j = i
      · rw [hji, receive_self]
        have hnone := lastPending_numbered s.log.length batch key
        rw [hnew] at hnone
        unfold lastPending at hnone ⊢
        rw [lastOf_append, hnone]
        rfl
      · rw [receive_other hji]
    have hmem : ∀ j, ∀ write ∈ (s.receive i batch).waiting j, write.key = key →
        write ∈ s.waiting j := by
      intro j write hwrite hkey
      rcases mem_receive hwrite with hold | ⟨-, -, hentry⟩
      · exact hold
      · have hother := lastOf_eq_none_iff.mp hnew _ hentry
        rw [hkey, decide_eq_false_iff_not] at hother
        exact absurd rfl hother
    rcases hinv.newest key with ⟨hnone, hmade⟩ | ⟨j, last, hlast, hvalue, hmax⟩
    · refine Or.inl ⟨?_, by rw [hwrite]; exact hmade⟩
      intro j write hwrite hkey
      exact hnone j write (hmem j write hwrite hkey) hkey
    · refine Or.inr ⟨j, last, (hpending j).trans hlast, hwrite.trans hvalue, ?_⟩
      intro j' write hwrite hkey
      exact hmax j' write (hmem j' write hwrite hkey) hkey
  | some entry =>
    refine Or.inr ⟨i, ⟨s.log.length, entry.1, entry.2⟩, ?_, ?_, ?_⟩
    · have hlast := lastPending_numbered s.log.length batch key
      rw [hnew] at hlast
      rw [receive_self]
      unfold lastPending at hlast ⊢
      rw [lastOf_append, hlast]
      rfl
    · rw [hlog, lastWrite_append, hnew]
      rfl
    · intro j write hwrite hkey
      rcases mem_receive hwrite with hold | ⟨-, hnumber, -⟩
      · exact Nat.le_of_lt (hinv.received j write hold).1
      · exact Nat.le_of_eq hnumber

/-- **A batch with stamps as new as any keeps the invariant.** -/
theorem Inv.receive {batch : List (κ × ν)}
    (hlevel : ∀ write ∈ batch, ∀ other ∈ batch, stamp write.2 ≤ stamp other.2)
    (hlater : ∀ earlier ∈ s.log, ∀ write ∈ earlier, ∀ other ∈ batch,
      stamp write.2 ≤ stamp other.2)
    (hold : ∀ key value, s.table key = some value → ∀ write ∈ batch, stamp value ≤ stamp write.2) :
    Inv stamp table (s.receive i batch) := by
  constructor
  · intro j write hwrite
    have hlength : (s.receive i batch).log.length = s.log.length + 1 := by
      simp [Writers.receive]
    rcases mem_receive hwrite with hwas | ⟨-, hnumber, hentry⟩
    · obtain ⟨hlt, earlier, hearlier, hin⟩ := hinv.received j write hwas
      exact ⟨by omega, earlier, List.mem_append_left _ hearlier, hin⟩
    · exact ⟨by omega, batch, List.mem_append_right _ List.mem_cons_self, hentry⟩
  · intro j
    by_cases hji : j = i
    · rw [hji, receive_self]
      refine List.pairwise_append.mpr ⟨hinv.sorted i, ?_, ?_⟩
      · exact List.pairwise_map.mpr (List.pairwise_of_forall fun _ _ => Nat.le_refl _)
      · intro first hfirst second hsecond
        obtain ⟨entry, -, rfl⟩ := List.mem_map.mp hsecond
        exact Nat.le_of_lt (hinv.received i first hfirst).1
    · rw [receive_other hji]
      exact hinv.sorted j
  · intro j j' hne write hwrite other hother
    rcases mem_receive hwrite with hwas | ⟨hj, hnumber, -⟩
    · rcases mem_receive hother with hwas' | ⟨-, hnumber', -⟩
      · exact hinv.apart j j' hne write hwas other hwas'
      · rw [hnumber']
        exact Nat.ne_of_lt (hinv.received j write hwas).1
    · rcases mem_receive hother with hwas' | ⟨hj', -, -⟩
      · rw [hnumber]
        exact Nat.ne_of_gt (hinv.received j' other hwas').1
      · exact absurd (hj.trans hj'.symm) hne
  · intro j j' write hwrite other hother hle
    rcases mem_receive hwrite with hwas | ⟨-, hnumber, hentry⟩
    · rcases mem_receive hother with hwas' | ⟨-, -, hentry'⟩
      · exact hinv.dated j j' write hwas other hwas' hle
      · obtain ⟨-, earlier, hearlier, hin⟩ := hinv.received j write hwas
        exact hlater earlier hearlier _ hin _ hentry'
    · rcases mem_receive hother with hwas' | ⟨-, -, hentry'⟩
      · have hlt := (hinv.received j' other hwas').1
        rw [hnumber] at hle
        exact absurd hlt (Nat.not_lt.mpr hle)
      · exact hlevel _ hentry _ hentry'
  · intro key value htable j write hwrite hkey
    rcases mem_receive hwrite with hwas | ⟨-, -, hentry⟩
    · exact hinv.old key value htable j write hwas hkey
    · exact hold key value htable _ hentry
  · exact hinv.newest_receive

end Invariant

/-! ## Writing -/

section Store

variable [DecidableEq ι] {s : Writers ι κ ν} {i : ι}

/-- A writer makes its next write. -/
def store (s : Writers ι κ ν) (i : ι) (write : Pending κ ν) (rest : List (Pending κ ν)) :
    Writers ι κ ν :=
  { s with
    waiting := Function.update s.waiting i rest
    table := Function.update s.table write.key (some write.value) }

@[simp] theorem store_self (write : Pending κ ν) (rest : List (Pending κ ν)) :
    (s.store i write rest).waiting i = rest :=
  Function.update_self _ _ _

@[simp] theorem store_other {j : ι} (hji : j ≠ i) (write : Pending κ ν)
    (rest : List (Pending κ ν)) : (s.store i write rest).waiting j = s.waiting j :=
  Function.update_of_ne hji _ _

variable {write : Pending κ ν} {rest : List (Pending κ ν)} (hfront : s.waiting i = write :: rest)
include hfront

theorem mem_store {other : Pending κ ν} {j : ι} (hmem : other ∈ (s.store i write rest).waiting j) :
    other ∈ s.waiting j := by
  by_cases hji : j = i
  · rw [hji, store_self] at hmem
    rw [hji, hfront]
    exact List.mem_cons_of_mem _ hmem
  · rwa [store_other hji] at hmem

variable {τ : Type*} [Preorder τ] {stamp : ν → τ} {table : κ → Option ν}
  (hinv : Inv stamp table s)
include hinv

/-- No stamp goes down. -/
theorem Inv.store_stamp {key : κ} {value : ν} (htable : s.table key = some value) :
    ∃ value', (s.store i write rest).table key = some value' ∧ stamp value ≤ stamp value' := by
  have hmem : write ∈ s.waiting i := hfront ▸ List.mem_cons_self
  by_cases hkey : key = write.key
  · refine ⟨write.value, by rw [hkey]; exact Function.update_self _ _ _, ?_⟩
    exact hinv.old key value htable i write hmem hkey.symm
  · exact ⟨value, (Function.update_of_ne hkey _ _).trans htable, le_refl _⟩

/-- The last of the pending writes of its key, made in order, was the only one. -/
theorem Inv.none_left (horder : s.InOrder i write)
    (hlast : ∀ other ∈ rest, other.key ≠ write.key)
    (hmax : ∀ j, ∀ other ∈ s.waiting j, other.key = write.key → other.number ≤ write.number) :
    ∀ j, ∀ other ∈ (s.store i write rest).waiting j, other.key ≠ write.key := by
  have hmem : write ∈ s.waiting i := hfront ▸ List.mem_cons_self
  intro j other hother
  by_cases hji : j = i
  · rw [hji, store_self] at hother
    exact hlast other hother
  · rw [store_other hji] at hother
    intro hkey
    have hle := hmax j other hother hkey
    have hge := horder j hji other hother hkey
    exact hinv.apart j i hji other hother write hmem (Nat.le_antisymm hle hge)

theorem Inv.newest_store (horder : s.InOrder i write) (key : κ) :
    Newest table (s.store i write rest) key := by
  have hmem : write ∈ s.waiting i := hfront ▸ List.mem_cons_self
  rcases hinv.newest key with ⟨hnone, hmade⟩ | ⟨j, last, hlast, hvalue, hmax⟩
  · refine Or.inl ⟨?_, ?_⟩
    · intro j other hother
      exact hnone j other (mem_store hfront hother)
    · exact (Function.update_of_ne (hnone i write hmem).symm _ _).trans hmade
  · have hmax' : ∀ j', ∀ other ∈ (s.store i write rest).waiting j', other.key = key →
        other.number ≤ last.number :=
      fun j' other hother hkey => hmax j' other (mem_store hfront hother) hkey
    by_cases hji : j = i
    · rw [hji, hfront] at hlast
      by_cases hkey : write.key = key
      · rw [lastPending, lastOf_cons_pos (by simpa using hkey)] at hlast
        cases hrest : lastOf (fun write => decide (write.key = key)) rest with
        | none =>
          -- it was the last one to be made
          rw [hrest] at hlast
          cases hlast
          subst hkey
          refine Or.inl ⟨hinv.none_left hfront horder ?_ hmax, ?_⟩
          · intro other hother hsame
            have hnone := lastOf_eq_none_iff.mp hrest other hother
            rw [hsame, decide_eq_false_iff_not] at hnone
            exact hnone rfl
          · have htable : (s.store i write rest).table write.key = some write.value :=
              Function.update_self _ _ _
            have hlog : (s.store i write rest).log = s.log := rfl
            rw [htable, hlog, hvalue]
            rfl
        | some last' =>
          rw [hrest] at hlast
          cases hlast
          exact Or.inr ⟨i, last', by rw [store_self]; exact hrest, hvalue, hmax'⟩
      · rw [lastPending, lastOf_cons_neg (by simpa using hkey)] at hlast
        exact Or.inr ⟨i, last, by rw [store_self]; exact hlast, hvalue, hmax'⟩
    · exact Or.inr ⟨j, last, by rw [store_other hji]; exact hlast, hvalue, hmax'⟩

/-- **A write made in order keeps the invariant.** -/
theorem Inv.store (horder : s.InOrder i write) : Inv stamp table (s.store i write rest) := by
  have hmem : write ∈ s.waiting i := hfront ▸ List.mem_cons_self
  constructor
  · intro j other hother
    exact hinv.received j other (mem_store hfront hother)
  · intro j
    by_cases hji : j = i
    · have hsorted := hinv.sorted i
      rw [hfront] at hsorted
      rw [hji, store_self]
      exact hsorted.of_cons
    · rw [store_other hji]
      exact hinv.sorted j
  · intro j j' hne first hfirst second hsecond
    exact hinv.apart j j' hne first (mem_store hfront hfirst) second (mem_store hfront hsecond)
  · intro j j' first hfirst second hsecond
    exact hinv.dated j j' first (mem_store hfront hfirst) second (mem_store hfront hsecond)
  · intro key value htable j other hother hkey
    by_cases hsame : key = write.key
    · have hwritten : (s.store i write rest).table key = some write.value := by
        rw [hsame]
        exact Function.update_self _ _ _
      rw [hwritten] at htable
      cases htable
      apply hinv.dated i j write hmem other (mem_store hfront hother)
      by_cases hji : j = i
      · have hsorted := hinv.sorted i
        rw [hfront] at hsorted
        rw [hji, store_self] at hother
        exact List.rel_of_pairwise_cons hsorted hother
      · rw [store_other hji] at hother
        exact horder j hji other hother (hkey.trans hsame)
    · have hwas : s.table key = some value := (Function.update_of_ne hsame _ _).symm.trans htable
      exact hinv.old key value hwas j other (mem_store hfront hother) hkey
  · exact hinv.newest_store hfront horder

end Store

end Writers

end LarsSystem.LastWrite
