import LarsSystem.BufferOwnership

/-!
# The output buffer is a queue of bytes

One `output_buf` of a program whose other buffers draw on the same pool: what the
descriptor has taken, followed by what is pending, is what `send_data` accepted,
whatever the other buffers do in between. The calls end the process at the memory
limit of the pool, and `write2fd` also where the buffer has no block.
-/

namespace LarsSystem.Reactor

open LarsSystem.MachineWord
open LarsSystem.Transition

/-- The answers to the `write` calls of one `write2fd`, which repeats an interrupted one. -/
inductive WriteAnswers where
  | eintr (more : WriteAnswers)
  | ends (result : WriteResult)

/-- `do .. while (already_write == -1 && errno == EINTR)`. -/
def WriteAnswers.last : WriteAnswers → WriteResult
  | .eintr more => more.last
  | .ends result => result

/-- The buffers of a program, of which `none` is the `output_buf`, with the data of the
    `send_data` calls that returned 0 and the bytes the descriptor took. -/
structure OutputQueue (R : Type) where
  bufs : Buffers (Option R)
  accepted : List Byte
  taken : List Byte

inductive OutputCall (R : Type) where
  | sendData (bytes : List Byte)
  | write2fd (answers : WriteAnswers)
  | other (r : R) (op : BufferOp)

namespace ReactorBuf

/-- Whatever `write` answers, `write2fd` takes from the front of a block that is there. -/
theorem write2fd_front {r : ReactorBuf} (hready : r.Ready) (hbuf : r.buf ≠ none)
    (result : WriteResult) :
    ∃ ret taken r', r.write2fd result = Except.ok (ret, taken, r') ∧ r'.Ready ∧
      taken ++ r'.content = r.content := by
  rcases r with ⟨_ | b⟩
  · exact absurd rfl hbuf
  · have hhead : b.head = 0 := hready b rfl
    simp only [write2fd, hhead, ne_eq, not_true_eq_false, if_false]
    cases result with
    | error => exact ⟨-1, [], ⟨some b⟩, rfl, hready, rfl⟩
    | again => exact ⟨0, [], ⟨some b⟩, rfl, hready, rfl⟩
    | took n =>
      refine ⟨_, _, _, rfl, ready_some (IoBuf.adjust_head _), ?_⟩
      have hrest : content ⟨some (b.pop (min n b.length) (Nat.min_le_right n b.length)).adjust⟩ =
          b.content.drop (min n b.length) :=
        (IoBuf.adjust_content _).trans (IoBuf.pop_content _ _ _)
      rw [hrest]
      exact List.take_append_drop _ _

/-- A `send_data` that returns -1 changes nothing. -/
theorem sendData_refused_content {r r' : ReactorBuf} {stale bytes : List Byte}
    (hsend : r.sendData stale bytes = Except.ok (-1, r')) : r'.content = r.content := by
  unfold sendData at hsend
  split at hsend
  · cases hsend
  · cases hsend
    rfl
  · split at hsend
    · cases hsend
    · cases hsend

end ReactorBuf

namespace OutputQueue

variable {R : Type}

/-- The `output_buf`. -/
def output (s : OutputQueue R) : PooledBuf := s.bufs.buffer none

def pending (s : OutputQueue R) : List Byte := s.output.view.content

def start (garbage : Ptr → List Byte) : OutputQueue R := ⟨Buffers.start garbage, [], []⟩

section Steps

variable [DecidableEq R] (garbage : Ptr → List Byte)

/-- One call; where it ends the process, with the buffer that was operated on. -/
def step (s : OutputQueue R) : OutputCall R → Except (Option R × PoolFault) (OutputQueue R)
  | .sendData bytes =>
    ((s.output.sendData garbage bytes).map fun (ret, x) =>
      { s with
        bufs := s.bufs.put none x
        accepted := if ret = 0 then s.accepted ++ bytes else s.accepted }).mapError
      (Prod.mk none)
  | .write2fd answers =>
    ((s.output.write2fd answers.last).map fun (_, bytes, x) =>
      { s with bufs := s.bufs.put none x, taken := s.taken ++ bytes }).mapError (Prod.mk none)
  | .other r op =>
    ((s.bufs.step garbage (some r, op)).map fun bufs => { s with bufs := bufs }).mapError
      (Prod.mk (some r))

/-- The length of the data and of the pending bytes together fits an `int`. -/
def FitsInt (s : OutputQueue R) : OutputCall R → Prop
  | .sendData bytes => s.pending.length + bytes.length < 2 ^ 31
  | .write2fd _ => True
  | .other _ _ => True

/-- The bytes that were taken and those that are pending are those that were accepted; the
    window of the block is at its front and inside it. -/
structure IsFifo (s : OutputQueue R) : Prop where
  bytes : s.taken ++ s.pending = s.accepted
  block : ∀ p, s.output.buf = some p → ∃ block, s.output.pool.heap.cells p = some block ∧
    block.buf.head = 0 ∧ block.buf.length ≤ block.buf.capacity.bytes
  refused : ∀ bytes x, s.output.sendData garbage bytes = Except.ok (-1, x) →
    x.view.content = s.pending
  asserted : ∀ result fault, s.output.write2fd result = Except.error fault →
    s.output.buf = none

/-- How a call may end the process: the output buffer's at the memory limit, or at the assertion
    of `write2fd`; those of other buffers in any way but by a pointer to no block. -/
def Ends : Option R × PoolFault → Prop
  | (none, fault) => fault = .memLimit ∨ fault = .buffer .writeAssert
  | (some _, fault) => fault ≠ .dangling

/-- What a run keeps. -/
structure Inv (s : OutputQueue R) : Prop where
  owned : s.bufs.Inv
  ready : s.output.view.Ready
  bytes : s.taken ++ s.pending = s.accepted

omit [DecidableEq R] in
theorem inv_start : (start garbage : OutputQueue R).Inv where
  owned := Buffers.inv_start garbage
  ready := ReactorBuf.ready_empty
  bytes := rfl

section Step

variable {garbage} {s : OutputQueue R} (hinv : s.Inv)
include hinv

theorem Inv.put {x : PooledBuf} {accepted taken : List Byte}
    (hkept : s.output.Kept (s.bufs.OtherBlocks none) x) (hready : x.view.Ready)
    (hbytes : taken ++ x.view.content = accepted) :
    Inv ⟨s.bufs.put none x, accepted, taken⟩ := by
  have hbuffer : (s.bufs.put none x).buffer none = x := Buffers.put_buffer s.bufs none x
  refine ⟨(hinv.owned.put hkept).1, ?_, ?_⟩
  · rw [output, hbuffer]
    exact hready
  · rw [pending, output, hbuffer]
    exact hbytes

/-- **`send_data`** appends its data and returns 0, or returns -1 and changes nothing; in both
    cases as far as the pool has memory. -/
theorem Inv.sendData {bytes : List Byte} (hfits : s.pending.length + bytes.length < 2 ^ 31) :
    Lands Inv Ends (s.step garbage (.sendData bytes)) := by
  have hlength : s.pending.length = s.output.view.length := ReactorBuf.content_length _
  rw [hlength] at hfits
  -- what the same call does to a buffer that has its block to itself
  have hsend : ∀ stale, ∃ ret r, s.output.view.sendData stale bytes = Except.ok (ret, r) ∧
      r.Ready ∧ s.taken ++ r.content = if ret = 0 then s.accepted ++ bytes else s.accepted := by
    intro stale
    rcases Nat.lt_or_ge maxBytes (s.output.view.length + bytes.length) with hlarge | hsmall
    · refine ⟨-1, s.output.view, ?_, hinv.ready, ?_⟩
      · exact ReactorBuf.sendData_refused stale bytes hinv.ready hlarge hfits
      · rw [if_neg (by decide)]
        exact hinv.bytes
    · obtain ⟨r, hok, hready, hcontent⟩ :=
        ReactorBuf.sendData_fits stale bytes hinv.ready hsmall
      refine ⟨0, r, hok, hready, ?_⟩
      rw [if_pos rfl, hcontent, ← List.append_assoc]
      exact congrArg (· ++ bytes) hinv.bytes
  refine ((PooledBuf.sendData_kept (hinv.owned.owns none) garbage bytes).map ?_
    fun _ hfails => hfails).mapError ?_
  · rintro ⟨ret, x⟩ ⟨hkept, stale, hview⟩
    obtain ⟨ret', r, hok, hready, hbytes⟩ := hsend stale
    cases hview.symm.trans hok
    exact hinv.put hkept hready hbytes
  · intro fault hfails
    cases fault with
    | memLimit => exact Or.inl rfl
    | dangling => exact hfails.elim
    | buffer fault =>
      obtain ⟨stale, herror⟩ := hfails
      obtain ⟨ret, r, hok, -⟩ := hsend stale
      cases herror.symm.trans hok

/-- The block of the buffer, with its window at the front. -/
theorem Inv.block {p : Ptr} (hbuf : s.output.buf = some p) :
    ∃ block, s.output.pool.heap.cells p = some block ∧ block.buf.head = 0 := by
  have hown : (⟨s.output.pool, some p⟩ : PooledBuf).Owns (s.bufs.OtherBlocks none) := by
    rw [← hbuf]
    exact hinv.owned.owns none
  obtain ⟨block, hcell, -, hview⟩ := hown.block
  refine ⟨block, hcell, hinv.ready block.buf ?_⟩
  have houtput : s.output = ⟨s.output.pool, some p⟩ := by rw [← hbuf]
  rw [houtput, hview]

/-- **`write2fd`** moves bytes from the front of the buffer to the descriptor. -/
theorem Inv.write2fd (answers : WriteAnswers) :
    Lands Inv Ends (s.step garbage (.write2fd answers)) := by
  refine ((PooledBuf.write2fd_kept (hinv.owned.owns none) answers.last).map ?_
    fun _ hfails => hfails).mapError ?_
  · rintro ⟨ret, bytes, x⟩ ⟨hkept, hview⟩
    have hbuf : s.output.view.buf ≠ none := by
      intro hnone
      have hassert : s.output.view.write2fd answers.last =
          Except.error Fault.writeAssert := by simp only [ReactorBuf.write2fd, hnone]
      cases hassert.symm.trans hview
    obtain ⟨ret', taken, r, hok, hready, hbytes⟩ :=
      ReactorBuf.write2fd_front hinv.ready hbuf answers.last
    cases hview.symm.trans hok
    apply hinv.put hkept hready
    rw [List.append_assoc, hbytes]
    exact hinv.bytes
  · intro fault hfails
    cases fault with
    | memLimit => exact Or.inl rfl
    | dangling => exact hfails.elim
    | buffer fault =>
      obtain ⟨_, herror⟩ := hfails
      refine Or.inr (congrArg PoolFault.buffer ?_)
      by_cases hbuf : s.output.view.buf = none
      · have hassert : s.output.view.write2fd answers.last =
            Except.error Fault.writeAssert := by simp only [ReactorBuf.write2fd, hbuf]
        cases herror.symm.trans hassert
        rfl
      · obtain ⟨ret, taken, r, hok, -⟩ :=
          ReactorBuf.write2fd_front hinv.ready hbuf answers.last
        cases herror.symm.trans hok

/-- What the other buffers do does not concern this one. -/
theorem Inv.other (r : R) (op : BufferOp) :
    Lands Inv Ends (s.step garbage (.other r op)) := by
  refine ((Buffers.step_apart garbage hinv.owned (some r) op).map ?_
    fun _ hfault => hfault).mapError fun _ hfault => hfault
  · rintro bufs ⟨howned, -, hothers⟩
    have hview : (bufs.buffer none).view = s.output.view := hothers none (by simp)
    refine ⟨howned, ?_, ?_⟩
    · rw [output, hview]
      exact hinv.ready
    · rw [pending, output, hview]
      exact hinv.bytes

theorem Inv.isFifo : s.IsFifo garbage where
  bytes := hinv.bytes
  block := by
    intro p hbuf
    obtain ⟨block, hcell, hhead⟩ := hinv.block hbuf
    refine ⟨block, hcell, hhead, ?_⟩
    have hbound := block.buf.inBounds
    omega
  refused := by
    intro bytes x hrefused
    have hkept := PooledBuf.sendData_kept (hinv.owned.owns none) garbage bytes
    have hsend : (s.bufs.buffer none).sendData garbage bytes = Except.ok (-1, x) := hrefused
    rw [hsend] at hkept
    obtain ⟨-, stale, hview⟩ := hkept
    exact ReactorBuf.sendData_refused_content hview
  asserted := by
    intro result fault herror
    cases hbuf : s.output.buf with
    | none => rfl
    | some p =>
      obtain ⟨block, hcell, hhead⟩ := hinv.block hbuf
      simp only [PooledBuf.write2fd, hbuf, BufPool.deref, hcell, hhead, ok_bind, ne_eq,
        not_true_eq_false, if_false] at herror
      cases result <;> cases herror

end Step

variable (R) in
/-- **The output buffer is a queue of bytes**: in every state of every run the bytes the
    descriptor took and the pending ones are the accepted ones, in order, across all moves to
    larger blocks, and a refused `send_data` leaves the pending bytes as they are. -/
theorem run_isFifo (calls : List (OutputCall R))
    (hfits : Meets (step garbage) FitsInt (start garbage) calls) :
    Safe (step garbage) (IsFifo garbage) Ends (start garbage) calls := by
  refine safe_of_meets Inv (fun s hinv => hinv.isFifo) ?_ (inv_start garbage) hfits
  intro s call hinv hfits
  cases call with
  | sendData bytes => exact hinv.sendData hfits
  | write2fd answers => exact hinv.write2fd answers
  | other r op => exact hinv.other r op

/-- Two bytes sent, one of them taken after an interrupted `write`. -/
theorem run_isFifo_two :
    Safe (step fun _ => []) (IsFifo fun _ => []) Ends (start fun _ => [])
      [OutputCall.sendData [1, 2], .write2fd (.eintr (.ends (.took 1))),
        .other () (.alloc 5000)] :=
  run_isFifo Unit (fun _ => []) _
    ⟨(by decide : 0 + 2 < 2 ^ 31), fun _ _ => ⟨trivial, fun _ _ => ⟨trivial, fun _ _ => trivial⟩⟩⟩

end Steps

end OutputQueue

end LarsSystem.Reactor
