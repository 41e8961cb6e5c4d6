import LarsSystem.BufferOwnership
import LarsSystem.MemoryAccount
import LarsSystem.TcpConn

/-!
# Where `read` stores its bytes

`read_data` makes room for as many bytes as `FIONREAD` reports, and where that is
none it asks for 4096 bytes without looking at the room that is left: an unparsed
rest and bytes that arrive between the two system calls go past the end of the
block. The other way out of a block is a count that leaves the `int` range with
the pending bytes. A read event stores inside its block exactly where neither
happens (`RoomFor`), and so does a run of read events of one buffer in a program
whose other buffers draw on the same pool.
-/

namespace LarsSystem.Reactor

open LarsSystem.MachineWord
open LarsSystem.Transition

/-- One `do_read` as its input buffer sees it: what `FIONREAD` and `read` answer, the lengths
    that are popped, and whether a malformed header ends the connection then. -/
structure InputEvent where
  fionread : Option Nat
  isInt : ∀ n, fionread = some n → n < 2 ^ 31
  read : Option (List Byte)
  pops : List Nat
  malformed : Bool

/-- The bytes `read` stores, at most as many as it is asked for. -/
def InputEvent.stored (e : InputEvent) (needRead : Nat) : List Byte :=
  (e.read.getD []).take (if needRead = 0 then MemCap.m4K.bytes else needRead)

theorem InputEvent.stored_le (e : InputEvent) {needRead : Nat} (hpos : needRead ≠ 0) :
    (e.stored needRead).length ≤ needRead := by
  unfold stored
  rw [if_neg hpos]
  exact List.length_take_le _ _

theorem InputEvent.stored_zero_le (e : InputEvent) : (e.stored 0).length ≤ MemCap.m4K.bytes :=
  List.length_take_le _ _

theorem MemCap.m4K_le (cap : MemCap) : MemCap.m4K.bytes ≤ cap.bytes := by
  cases cap <;> decide

namespace ReactorBuf

/-! ## One buffer -/

/-- The use `do_read` makes of its input buffer. -/
def inputEvent (r : ReactorBuf) (stale : List Byte) (e : InputEvent) : Except Fault ReactorBuf := do
  let (ret, r) ← r.readData ⟨e.fionread, e.read, stale⟩
  if ret = -1 ∨ ret = 0 then return r.clear
  else
    let r ← e.pops.foldlM pop r
    return (if e.malformed then r.clear else r).adjust

/-- Behind pending bytes: where `FIONREAD` reports nothing, what arrives all the same fits the
    block; where it reports something, that and the pending bytes fit an `int`, or at least what
    arrives fits the smallest block. -/
def RoomFor (r : ReactorBuf) (e : InputEvent) : Prop :=
  ∀ b needRead, r.buf = some b → e.fionread = some needRead →
    if needRead = 0 then b.length + (e.stored 0).length ≤ b.capacity.bytes
    else b.length + needRead < 2 ^ 31 ∨
      b.length + (e.stored needRead).length ≤ MemCap.m4K.bytes

/-- The failures of a read event that store nothing: assertions. -/
def Asserts (fault : Fault) : Prop := fault = .popAssert ∨ fault = .countAssert

section Fill

variable {b : IoBuf} {e : InputEvent} {needRead : Nat} (hhead : b.head = 0)
include hhead

theorem fillFrom_inBounds (hfits : b.length + (e.stored needRead).length ≤ b.capacity.bytes) :
    Lands (fun out => out.2.Ready) Asserts (fillFrom b needRead e.read) := by
  unfold InputEvent.stored at hfits
  unfold fillFrom
  cases hread : e.read with
  | none => exact ready_some hhead
  | some bytes =>
    rw [hread, Option.getD_some] at hfits
    simp only
    generalize bytes.take (if needRead = 0 then MemCap.m4K.bytes else needRead) = stored at hfits ⊢
    obtain ⟨b', happend, -, hhead'⟩ := IoBuf.append_ok b stored (by omega)
    simp only [happend]
    split
    · exact Or.inr rfl
    · exact ready_some (hhead'.trans hhead)

theorem fillFrom_overruns (hlong : b.capacity.bytes < b.length + (e.stored needRead).length) :
    fillFrom b needRead e.read = Except.error Fault.outOfBounds := by
  unfold InputEvent.stored at hlong
  unfold fillFrom
  cases hread : e.read with
  | none =>
    have hbound := b.inBounds
    rw [hread] at hlong
    simp at hlong
    omega
  | some bytes =>
    rw [hread, Option.getD_some] at hlong
    simp only
    generalize bytes.take (if needRead = 0 then MemCap.m4K.bytes else needRead) = stored at hlong ⊢
    have hpast : b.capacity.bytes < b.head + b.length + stored.length := by omega
    simp only [IoBuf.append_error b hpast]

end Fill

section Grow

variable {b : IoBuf} {needRead : Nat} (asserted : Fault) (stale : List Byte) (hhead : b.head = 0)
include hhead

/-- For no bytes there is always room. -/
theorem growFor_zero : growFor ⟨some b⟩ asserted stale 0 = Except.ok (some b) := by
  simp only [growFor, hhead, ne_eq, not_true_eq_false, if_false, Nat.not_lt_zero]

/-- A sum that leaves the `int` range asks for the smallest block. -/
theorem growFor_smallest (hneed : needRead < 2 ^ 31) (hwraps : 2 ^ 31 ≤ b.length + needRead) :
    (b.length ≤ MemCap.m4K.bytes →
      ∃ b', growFor ⟨some b⟩ asserted stale needRead = Except.ok (some b') ∧ b'.head = 0 ∧
        b'.length = b.length ∧ b'.capacity = .m4K) ∧
      (MemCap.m4K.bytes < b.length →
        growFor ⟨some b⟩ asserted stale needRead = Except.error Fault.outOfBounds) := by
  have hmax : maxBytes = 8388608 := rfl
  have hlen := b.length_le
  have hcap := b.capacity.bytes_le
  have hroom : b.capacity.bytes - b.length < needRead := by omega
  have hneg : wrap32 ((b.length : Int) + (needRead : Int)) < 0 := by
    rw [wrap32_of_ge (by omega) (by omega)]
    omega
  obtain ⟨newBuf, halloc, -, -, hsmall⟩ := allocBuf_neg stale hneg
  simp only [growFor, hhead, ne_eq, not_true_eq_false, if_false, hroom, if_true, halloc]
  constructor
  · intro hfits
    obtain ⟨copied, hcopy, hcontent, hhead', hcap'⟩ := IoBuf.copy_ok newBuf b (by rwa [hsmall])
    refine ⟨copied, by simp only [hcopy], hhead', ?_, hcap'.trans hsmall⟩
    rw [← IoBuf.content_length, hcontent, IoBuf.content_length]
  · intro hlong
    have hnot : ¬ b.length ≤ newBuf.capacity.bytes := by
      rw [hsmall]
      omega
    simp only [IoBuf.copy, dif_neg hnot]

end Grow

/-- Popping fails at its assertion only. -/
theorem popAll_asserts (pops : List Nat) (r : ReactorBuf) :
    Lands (fun _ => True) Asserts (pops.foldlM pop r) := by
  induction pops generalizing r with
  | nil => trivial
  | cons len pops ih =>
    rw [List.foldlM_cons]
    cases hpop : r.pop len with
    | ok r' => exact ih r'
    | error fault =>
      apply Or.inl
      unfold pop at hpop
      split at hpop
      · cases hpop
        rfl
      · split_ifs at hpop
        cases hpop
        rfl

section Event

variable {r : ReactorBuf} (hready : r.Ready) (stale : List Byte) {e : InputEvent}
include hready

/-- **With room, `read_data` stores inside its block.** -/
theorem readData_inBounds (hroom : r.RoomFor e) :
    Lands (fun out => out.2.Ready) Asserts (r.readData ⟨e.fionread, e.read, stale⟩) := by
  unfold readData
  cases hfionread : e.fionread with
  | none => exact hready
  | some needRead =>
    have hneed := e.isInt needRead hfionread
    have hpow : (2 : Nat) ^ 31 = 2147483648 := rfl
    have hmax : maxBytes = 8388608 := rfl
    rcases r with ⟨_ | b⟩
    · -- a new block holds what `FIONREAD` reports, and at least 4096 bytes
      rcases Nat.lt_or_ge maxBytes needRead with hlarge | hsmall
      · have hnone : allocBuf stale needRead = none :=
          (allocBuf_eq_none_iff stale needRead).mpr (by exact_mod_cast hlarge)
        simp only [growFor, hnone]
        exact hready
      · obtain ⟨b, halloc, hhead, hlength, hcap⟩ := allocBuf_some stale hsmall
        simp only [growFor, halloc]
        apply fillFrom_inBounds hhead
        rcases Nat.eq_zero_or_pos needRead with rfl | hpos
        · have hstored := e.stored_zero_le
          have hleast := b.capacity.m4K_le
          omega
        · have hstored := e.stored_le (Nat.ne_of_gt hpos)
          omega
    · have hhead : b.head = 0 := hready b rfl
      have hroom' := hroom b needRead rfl hfionread
      rcases Nat.eq_zero_or_pos needRead with rfl | hpos
      · simp only [growFor_zero _ stale hhead]
        exact fillFrom_inBounds hhead hroom'
      · have hne : needRead ≠ 0 := Nat.ne_of_gt hpos
        have hstored := e.stored_le hne
        rw [if_neg hne] at hroom'
        rcases Nat.lt_or_ge (b.length + needRead) (2 ^ 31) with hint | hwraps
        · rcases Nat.lt_or_ge maxBytes (b.length + needRead) with hlarge | hsmall
          · simp only [growFor_refused (r := ⟨some b⟩) _ stale hready hlarge hint]
            exact hready
          · obtain ⟨b', hgrow, hhead', hcontent, hcap⟩ :=
              growFor_fits (r := ⟨some b⟩) Fault.readAssert stale hready hsmall
            simp only [hgrow]
            exact fillFrom_inBounds hhead' (by omega)
        · have hfits : b.length + (e.stored needRead).length ≤ MemCap.m4K.bytes := by omega
          obtain ⟨b', hgrow, hhead', hlength, hcap⟩ :=
            (growFor_smallest Fault.readAssert stale hhead hneed hwraps).1 (by omega)
          simp only [hgrow]
          exact fillFrom_inBounds hhead' (by rw [hlength, hcap]; exact hfits)

/-- **Without room it stores past the end.** -/
theorem readData_overruns (hroom : ¬ r.RoomFor e) :
    r.readData ⟨e.fionread, e.read, stale⟩ = Except.error Fault.outOfBounds := by
  rcases r with ⟨_ | b⟩
  · exact absurd (fun b needRead hbuf => nomatch hbuf) hroom
  cases hfionread : e.fionread with
  | none => exact absurd (fun b needRead _ hsome => nomatch hfionread.symm.trans hsome) hroom
  | some needRead =>
    have hneed := e.isInt needRead hfionread
    have hhead : b.head = 0 := hready b rfl
    have hlong : ¬ if needRead = 0 then b.length + (e.stored 0).length ≤ b.capacity.bytes
        else b.length + needRead < 2 ^ 31 ∨
          b.length + (e.stored needRead).length ≤ MemCap.m4K.bytes := by
      intro hfits
      refine hroom fun b' needRead' hbuf hsome => ?_
      cases hbuf
      cases hfionread.symm.trans hsome
      exact hfits
    simp only [readData]
    split_ifs at hlong with hzero
    · subst hzero
      simp only [growFor_zero _ stale hhead]
      exact fillFrom_overruns hhead (Nat.not_le.mp hlong)
    · obtain ⟨hwraps, hlong⟩ := not_or.mp hlong
      obtain ⟨hkeep, hover⟩ :=
        growFor_smallest Fault.readAssert stale hhead hneed (Nat.not_lt.mp hwraps)
      rcases Nat.lt_or_ge MemCap.m4K.bytes b.length with hcopy | hcopy
      · simp only [hover hcopy]
      · obtain ⟨b', hgrow, hhead', hlength, hcap⟩ := hkeep hcopy
        simp only [hgrow]
        exact fillFrom_overruns hhead' (by rw [hlength, hcap]; exact Nat.not_le.mp hlong)

/-- A read event with room ends with the window at the front of the block, or at an assertion. -/
theorem inputEvent_inBounds (hroom : r.RoomFor e) : Lands Ready Asserts (r.inputEvent stale e) := by
  have hread := readData_inBounds hready stale hroom
  unfold inputEvent
  cases hok : r.readData ⟨e.fionread, e.read, stale⟩ with
  | error fault =>
    rw [hok] at hread
    exact hread
  | ok out =>
    simp only [ok_bind]
    split
    · exact ready_empty
    · have hpops := popAll_asserts e.pops out.2
      cases hpop : e.pops.foldlM pop out.2 with
      | error fault =>
        rw [hpop] at hpops
        exact hpops
      | ok r' => exact adjust_ready _

theorem inputEvent_overruns (hroom : ¬ r.RoomFor e) :
    r.inputEvent stale e = Except.error Fault.outOfBounds := by
  simp only [inputEvent, readData_overruns hready stale hroom, error_bind]

end Event

end ReactorBuf

/-! ## `do_read` is such an event -/

/-- The buffer a round of the loop leaves. -/
def Round.ibuf : Round → ReactorBuf
  | .leave ibuf _ _ => ibuf
  | .again ibuf _ => ibuf

theorem dispatchRound_pops (ibuf : ReactorBuf) (calls : List RouterCall) :
    ∃ pops : List Nat, pops.foldlM ReactorBuf.pop ibuf =
      ((dispatchRound ibuf calls).map Round.ibuf).mapError Crash.fault := by
  unfold dispatchRound
  split
  · exact ⟨[], rfl⟩
  · simp only
    split
    · exact ⟨[], rfl⟩
    · rename_i msglen hbody
      split
      · exact ⟨[], rfl⟩
      · split
        · rename_i fault hpop
          exact ⟨[messageHeadLen], by rw [List.foldlM_cons, hpop]; rfl⟩
        · rename_i body hpop
          refine ⟨[messageHeadLen, msglen], ?_⟩
          rw [List.foldlM_cons, hpop, ok_bind, List.foldlM_cons]
          cases body.pop msglen with
          | error fault => rfl
          | ok rest => rfl

/-- The loop of `do_read` does nothing to its buffer but pop. -/
theorem dispatchLoop_pops (ibuf : ReactorBuf) (calls : List RouterCall) :
    ∃ pops : List Nat, pops.foldlM ReactorBuf.pop ibuf =
      ((dispatchLoop ibuf calls).map Prod.fst).mapError Crash.fault := by
  induction hlength : ibuf.length using Nat.strong_induction_on generalizing ibuf calls with
  | h n ih =>
    obtain ⟨pops, hpops⟩ := dispatchRound_pops ibuf calls
    cases hround : dispatchRound ibuf calls with
    | error crash =>
      rw [hround] at hpops
      exact ⟨pops, by rw [hpops, dispatchLoop_error hround]; rfl⟩
    | ok round =>
      rw [hround] at hpops
      cases round with
      | leave ibuf' calls' malformed =>
        exact ⟨pops, by rw [hpops, dispatchLoop_leave hround]; rfl⟩
      | again ibuf' calls' =>
        have hshorter := dispatchRound_again_length hround
        obtain ⟨more, hmore⟩ := ih ibuf'.length (hlength ▸ hshorter) ibuf' calls' rfl
        have hfirst : pops.foldlM ReactorBuf.pop ibuf = Except.ok ibuf' := hpops
        refine ⟨pops ++ more, ?_⟩
        rw [List.foldlM_append, hfirst, ok_bind, hmore, dispatchLoop_again hround]

/-- What `do_read` makes of its input buffer is what an event makes of it. -/
theorem TcpConn.doRead_event (c : TcpConn) {env : ReadEnv}
    (hint : ∀ n, env.fionread = some n → n < 2 ^ 31) :
    ∃ e : InputEvent, e.fionread = env.fionread ∧ e.read = env.read ∧
      c.ibuf.inputEvent env.stale e = ((c.doRead env).map TcpConn.ibuf).mapError Crash.fault := by
  cases hread : c.ibuf.readData env with
  | error fault =>
    refine ⟨⟨env.fionread, hint, env.read, [], false⟩, rfl, rfl, ?_⟩
    simp only [ReactorBuf.inputEvent, doRead, hread]
    rfl
  | ok out =>
    obtain ⟨ret, ibuf⟩ := out
    by_cases hclosed : ret = -1 ∨ ret = 0
    · -- the connection is cleaned up before the loop
      refine ⟨⟨env.fionread, hint, env.read, [], false⟩, rfl, rfl, ?_⟩
      rcases hclosed with rfl | rfl
      · simp only [ReactorBuf.inputEvent, doRead, hread]
        rfl
      · simp only [ReactorBuf.inputEvent, doRead, hread]
        rfl
    · obtain ⟨hneg, hzero⟩ := not_or.mp hclosed
      obtain ⟨pops, hpops⟩ := dispatchLoop_pops ibuf c.calls
      cases hloop : dispatchLoop ibuf c.calls with
      | error crash =>
        rw [hloop] at hpops
        refine ⟨⟨env.fionread, hint, env.read, pops, false⟩, rfl, rfl, ?_⟩
        simp only [ReactorBuf.inputEvent, doRead, hread, hloop, ok_bind, hpops, hneg, hzero,
          or_self, if_false]
        rfl
      | ok left =>
        obtain ⟨ibuf', calls, malformed⟩ := left
        rw [hloop] at hpops
        refine ⟨⟨env.fionread, hint, env.read, pops, malformed⟩, rfl, rfl, ?_⟩
        simp only [ReactorBuf.inputEvent, doRead, hread, hloop, ok_bind, hpops, hneg, hzero,
          or_self, if_false]
        cases malformed <;> rfl

/-! ## With the pool -/

namespace PooledBuf

/-- The use `do_read` makes of its input buffer. -/
def inputEvent (garbage : Ptr → List Byte) (x : PooledBuf) (e : InputEvent) :
    Except PoolFault PooledBuf := do
  let (ret, x) ← x.readData garbage e.fionread e.read
  if ret = -1 ∨ ret = 0 then x.clear
  else
    let x ← e.pops.foldlM pop x
    let x ← if e.malformed then x.clear else Except.ok x
    x.adjust

/-- The pool has no block of the smallest size and may not make one. -/
def Exhausted (x : PooledBuf) : Prop :=
  x.pool.pool .m4K = none ∧ extraMemLimit ≤ x.pool.totalMem + 4

/-- The event finds room, or asks a pool that ends the process. -/
def RoomFor (x : PooledBuf) (e : InputEvent) : Prop :=
  x.view.RoomFor e ∨ x.Exhausted ∧ e.fionread ≠ some 0

/-- One operation after another: with the pool as without it. -/
theorem Fails.bind {β γ : Type} {β' γ' : Type} {m : Except PoolFault β} {f : β → Except PoolFault γ}
    {a : List Byte → Except Fault β'} {g : β' → Except Fault γ'} {v : β → β'} {w : γ → γ'}
    {P : β → Prop} {Q : γ → Prop}
    (first : Lands (fun b => P b ∧ ∃ stale, a stale = Except.ok (v b)) (Fails a) m)
    (second : ∀ b, P b →
      Lands (fun c => Q c ∧ g (v b) = Except.ok (w c)) (Fails fun _ => g (v b)) (f b)) :
    Lands (fun c => Q c ∧ ∃ stale, (a stale >>= g) = Except.ok (w c))
      (Fails fun stale => a stale >>= g) (m >>= f) := by
  cases m with
  | error fault =>
    cases fault with
    | memLimit => trivial
    | dangling => exact first.elim
    | buffer fault =>
      obtain ⟨stale, herror⟩ := first
      exact ⟨stale, congrArg (· >>= g) herror⟩
  | ok b =>
    obtain ⟨hP, stale, hok⟩ := first
    have hsame : (a stale >>= g) = g (v b) := congrArg (· >>= g) hok
    rw [ok_bind]
    apply (second b hP).imp
    · rintro c ⟨hQ, hc⟩
      exact ⟨hQ, stale, hsame.trans hc⟩
    · intro fault hfails
      cases fault with
      | memLimit => trivial
      | dangling => exact hfails.elim
      | buffer fault =>
        obtain ⟨_, herror⟩ := hfails
        exact ⟨stale, hsame.trans herror⟩

section Kept

variable {others : Ptr → Prop} {x : PooledBuf} (hown : x.Owns others)
include hown

theorem popAll_kept (pops : List Nat) :
    Lands (fun x' => Kept others x x' ∧ pops.foldlM ReactorBuf.pop x.view = Except.ok x'.view)
      (Fails fun _ => pops.foldlM ReactorBuf.pop x.view) (pops.foldlM pop x) := by
  induction pops generalizing x with
  | nil => exact ⟨Kept.refl hown, rfl⟩
  | cons len pops ih =>
    simp only [List.foldlM_cons]
    refine (Fails.bind (a := fun _ => x.view.pop len) (v := view) (w := view)
      (P := Kept others x) (Q := Kept others x) ?_ ?_).imp ?_ fun _ hfails => hfails
    · exact (pop_kept hown len).imp (fun _ h => ⟨h.1, [], h.2⟩) fun _ hfails => hfails
    · intro y hkept
      exact (ih hkept.owns).imp (fun _ hrest => ⟨hkept.trans hrest.1, hrest.2⟩)
        fun _ hfails => hfails
    · rintro z ⟨hkept, -, hview⟩
      exact ⟨hkept, hview⟩

/-- The end of the event: `clean_conn` for a malformed header, then `adjust`. -/
theorem endEvent_kept (malformed : Bool) :
    Lands
      (fun x' => Kept others x x' ∧
        x'.view = (if malformed then x.view.clear else x.view).adjust)
      (fun _ => False)
      (do let y ← if malformed then x.clear else Except.ok x
          y.adjust) := by
  cases malformed with
  | false => exact adjust_kept hown
  | true =>
    have hclear := clear_kept hown
    simp only [if_true]
    cases hok : x.clear with
    | error fault =>
      rw [hok] at hclear
      exact hclear.elim
    | ok y =>
      rw [hok] at hclear
      obtain ⟨hkept, hview⟩ := hclear
      apply (adjust_kept hkept.owns).imp
      · rintro z ⟨hadjusted, hview'⟩
        exact ⟨hkept.trans hadjusted, by rw [hview', hview]⟩
      · exact fun _ hno => hno

/-- With the pool, the event does to the block what it does to a block of its own. -/
theorem inputEvent_kept (garbage : Ptr → List Byte) (e : InputEvent) :
    Lands (fun x' => Kept others x x' ∧ ∃ stale, x.view.inputEvent stale e = Except.ok x'.view)
      (Fails fun stale => x.view.inputEvent stale e) (x.inputEvent garbage e) := by
  refine Fails.bind (v := fun out => (out.1, out.2.view)) (w := view)
    (P := fun out => Kept others x out.2) (Q := Kept others x)
    (readData_kept hown garbage e.fionread e.read) ?_
  rintro ⟨ret, y⟩ hkept
  simp only
  by_cases hret : ret = -1 ∨ ret = 0
  · simp only [if_pos hret]
    apply (clear_kept hkept.owns).imp
    · rintro z ⟨hcleared, hview⟩
      exact ⟨hkept.trans hcleared, congrArg Except.ok hview.symm⟩
    · exact fun _ hno => hno.elim
  · simp only [if_neg hret]
    refine (Fails.bind (a := fun _ => e.pops.foldlM ReactorBuf.pop y.view) (v := view)
      (w := view) (P := Kept others y) (Q := Kept others x) ?_ ?_).imp ?_ fun _ hfails => hfails
    · exact (popAll_kept hkept.owns e.pops).imp (fun _ h => ⟨h.1, [], h.2⟩)
        fun _ hfails => hfails
    · intro z hpopped
      apply (endEvent_kept hpopped.owns e.malformed).imp
      · rintro z' ⟨hended, hview⟩
        exact ⟨hkept.trans (hpopped.trans hended), congrArg Except.ok hview.symm⟩
      · exact fun _ hno => hno.elim
    · rintro z ⟨hkept', -, hview⟩
      exact ⟨hkept', hview⟩

end Kept

/-! ### At the memory limit -/

theorem allocBuf_memLimit_iff {s : BufPool} {garbage : Ptr → List Byte} {n : Int} (hneg : n < 0) :
    s.allocBuf garbage n = Except.error .memLimit ↔
      s.pool .m4K = none ∧ extraMemLimit ≤ s.totalMem + 4 := by
  have hindex : memIndex n = some .m4K := by
    unfold memIndex
    rw [if_pos (by omega)]
  simp only [BufPool.allocBuf, hindex]
  cases hpool : s.pool .m4K with
  | none =>
    simp only [true_and]
    split
    · rename_i hfull
      exact iff_of_true rfl hfull
    · rename_i hfull
      exact iff_of_false (by simp) hfull
  | some target =>
    simp only
    split <;> simp

theorem deref_ne_memLimit (s : BufPool) (p : Ptr) : s.deref p ≠ Except.error .memLimit := by
  unfold BufPool.deref
  split <;> simp

theorem revert_ne_memLimit (s : BufPool) (p : Ptr) : s.revert p ≠ Except.error .memLimit := by
  unfold BufPool.revert
  split <;> simp

section Limit

variable {others : Ptr → Prop} {x : PooledBuf} (hown : x.Owns others) (hready : x.view.Ready)
  (garbage : Ptr → List Byte) {e : InputEvent} (hroom : ¬ x.view.RoomFor e)
include hown hready hroom

/-- Without room for the event, `FIONREAD` reported nothing, or the sum wraps and the smallest
    block is asked for. -/
theorem growFor_noRoom :
    ∃ p block needRead, x.buf = some p ∧ x.pool.deref p = Except.ok block ∧ block.head = 0 ∧
      e.fionread = some needRead ∧
      (needRead ≠ 0 → block.capacity.bytes - block.length < needRead ∧
        wrap32 ((block.length : Int) + (needRead : Int)) < 0) := by
  obtain ⟨pool, _ | p⟩ := x
  · exact absurd (fun b needRead hbuf => nomatch hbuf) hroom
  obtain ⟨block, hcell, hderef, hview⟩ := hown.block
  rw [hview] at hready hroom
  cases hfionread : e.fionread with
  | none => exact absurd (fun b needRead _ hsome => nomatch hfionread.symm.trans hsome) hroom
  | some needRead =>
    refine ⟨p, block.buf, needRead, rfl, hderef, hready block.buf rfl, rfl, ?_⟩
    intro hne
    have hneed := e.isInt needRead hfionread
    have hwraps : 2 ^ 31 ≤ block.buf.length + needRead := by
      by_contra hint
      refine hroom fun b n hbuf hsome => ?_
      cases hbuf
      cases hfionread.symm.trans hsome
      rw [if_neg hne]
      exact Or.inl (Nat.not_le.mp hint)
    have hlen := block.buf.length_le
    have hcap := block.buf.capacity.bytes_le
    have hmax : maxBytes = 8388608 := rfl
    refine ⟨by omega, ?_⟩
    rw [wrap32_of_ge (by omega) (by omega)]
    omega

/-- Without room for the event, the pool ends it where it is exhausted. -/
theorem growFor_memLimit_iff {needRead : Nat} (hfionread : e.fionread = some needRead) :
    x.growFor garbage Fault.readAssert needRead = Except.error .memLimit ↔
      x.Exhausted ∧ e.fionread ≠ some 0 := by
  obtain ⟨p, block, n, hbuf, hderef, hhead, hsome, hask⟩ := growFor_noRoom hown hready hroom
  cases hfionread.symm.trans hsome
  simp only [growFor, hbuf, hderef, ok_bind, hhead, ne_eq, not_true_eq_false, if_false, hfionread,
    Option.some.injEq]
  by_cases hzero : needRead = 0
  · subst hzero
    rw [if_neg (Nat.not_lt_zero _)]
    exact iff_of_false (fun heq => by cases heq) fun hexhausted => hexhausted.2 rfl
  obtain ⟨hfull, hneg⟩ := hask hzero
  rw [if_pos hfull]
  constructor
  · intro hlimit
    refine ⟨?_, hzero⟩
    cases halloc : x.pool.allocBuf garbage (wrap32 (block.length + needRead)) with
    | error fault =>
      rw [halloc] at hlimit
      cases hlimit
      exact (allocBuf_memLimit_iff hneg).mp halloc
    | ok out =>
      rw [halloc] at hlimit
      obtain ⟨_ | q, pool'⟩ := out
      · cases hlimit
      simp only [ok_bind] at hlimit
      -- behind the allocation nothing meets the limit
      cases hderef' : pool'.deref q with
      | error fault =>
        rw [hderef', error_bind] at hlimit
        cases hlimit
        exact absurd hderef' (deref_ne_memLimit pool' q)
      | ok newBuf =>
        rw [hderef', ok_bind] at hlimit
        split at hlimit
        · cases hlimit
        · rename_i copied hcopy
          cases hrevert : (pool'.setBuf q copied).revert p with
          | error fault =>
            rw [hrevert, error_bind] at hlimit
            cases hlimit
            exact absurd hrevert (revert_ne_memLimit _ p)
          | ok pool'' =>
            rw [hrevert] at hlimit
            cases hlimit
  · rintro ⟨hexhausted, -⟩
    rw [(allocBuf_memLimit_iff hneg).mpr hexhausted]
    rfl

end Limit

/-- `read_data` meets the memory limit only where it asks for a block. -/
theorem readData_memLimit {garbage : Ptr → List Byte} {x : PooledBuf} {fionread : Option Nat}
    {read : Option (List Byte)}
    (hlimit : x.readData garbage fionread read = Except.error .memLimit) :
    ∃ needRead, fionread = some needRead ∧
      x.growFor garbage Fault.readAssert needRead = Except.error .memLimit := by
  cases fionread with
  | none => cases hlimit
  | some needRead =>
    refine ⟨needRead, rfl, ?_⟩
    simp only [readData] at hlimit
    cases hgrow : x.growFor garbage Fault.readAssert needRead with
    | error fault =>
      rw [hgrow, error_bind] at hlimit
      cases hlimit
      rfl
    | ok grown =>
      rw [hgrow, ok_bind] at hlimit
      obtain _ | ⟨p, pool⟩ := grown
      · cases hlimit
      · cases read with
        | none => cases hlimit
        | some bytes =>
          cases hderef : pool.deref p with
          | error fault =>
            simp only [hderef, error_bind] at hlimit
            cases hlimit
            exact absurd hderef (deref_ne_memLimit pool p)
          | ok b =>
            simp only [hderef, ok_bind] at hlimit
            generalize bytes.take (if needRead = 0 then MemCap.m4K.bytes else needRead) = stored
              at hlimit
            split at hlimit
            · cases hlimit
            · split at hlimit <;> cases hlimit

section Event

variable {others : Ptr → Prop} {x : PooledBuf} (hown : x.Owns others) (hready : x.view.Ready)
  (garbage : Ptr → List Byte) {e : InputEvent}
include hown hready

theorem inputEvent_exhausted (hroom : ¬ x.view.RoomFor e)
    (hexhausted : x.Exhausted ∧ e.fionread ≠ some 0) :
    x.inputEvent garbage e = Except.error .memLimit := by
  obtain ⟨p, block, needRead, -, -, -, hfionread, -⟩ := growFor_noRoom hown hready hroom
  have hgrow := (growFor_memLimit_iff hown hready garbage hroom hfionread).mpr hexhausted
  simp only [inputEvent, readData, hfionread, hgrow, error_bind]

theorem inputEvent_overruns (hroom : ¬ x.RoomFor e) :
    x.inputEvent garbage e = Except.error (.buffer .outOfBounds) := by
  obtain ⟨hview, hlimit⟩ := not_or.mp hroom
  have hread := readData_kept hown garbage e.fionread e.read
  cases hok : x.readData garbage e.fionread e.read with
  | ok out =>
    rw [hok] at hread
    obtain ⟨-, stale, hread⟩ := hread
    cases (ReactorBuf.readData_overruns hready stale hview).symm.trans hread
  | error fault =>
    rw [hok] at hread
    simp only [inputEvent, hok, error_bind]
    cases fault with
    | memLimit =>
      obtain ⟨needRead, hfionread, hgrow⟩ := readData_memLimit hok
      exact absurd ((growFor_memLimit_iff hown hready garbage hview hfionread).mp hgrow) hlimit
    | dangling => exact hread.elim
    | buffer fault =>
      obtain ⟨stale, herror⟩ := hread
      cases (ReactorBuf.readData_overruns hready stale hview).symm.trans herror
      rfl

end Event

end PooledBuf

/-! ## Runs -/

/-- A read event of the `input_buf`, which is the buffer `none`, or an operation of another
    buffer of the program. -/
inductive InputCall (R : Type) where
  | event (e : InputEvent)
  | other (r : R) (op : BufferOp)

namespace Buffers

variable {R : Type} [DecidableEq R] (garbage : Ptr → List Byte)

/-- One call; where it ends the process, with the buffer that was operated on. -/
def inputStep (s : Buffers (Option R)) :
    InputCall R → Except (Option R × PoolFault) (Buffers (Option R))
  | .event e => (((s.buffer none).inputEvent garbage e).map (s.put none)).mapError (Prod.mk none)
  | .other r op => (s.step garbage (some r, op)).mapError (Prod.mk (some r))

/-- The event finds room for what it stores. -/
def EventFits (s : Buffers (Option R)) : InputCall R → Prop
  | .event e => (s.buffer none).RoomFor e
  | .other _ _ => True

/-- The window of the input buffer is at the front of its block and inside it. -/
def InputInBounds (s : Buffers (Option R)) : Prop :=
  ∀ p, s.bufs none = some p → ∃ block, s.pool.heap.cells p = some block ∧
    block.buf.head = 0 ∧ block.buf.head + block.buf.length ≤ block.buf.capacity.bytes

/-- How a call may end the process: the input buffer's at the memory limit, or at the assertions
    of `pop` and of the count that was read, but with no byte past a block; those of other
    buffers in any way but by a pointer to no block. -/
def InputEnds : Option R × PoolFault → Prop
  | (none, fault) =>
    fault = .memLimit ∨ fault = .buffer .popAssert ∨ fault = .buffer .countAssert
  | (some _, fault) => fault ≠ .dangling

/-- Between events the window of the input buffer is at the front of its block. -/
def InputReady (s : Buffers (Option R)) : Prop := s.Inv ∧ (s.buffer none).view.Ready

theorem InputReady.inBounds {s : Buffers (Option R)} (hinv : s.InputReady) : s.InputInBounds := by
  intro p hbuf
  have hown := hinv.1.owns none
  rw [buffer, hbuf] at hown
  obtain ⟨block, hcell, -, hview⟩ := hown.block
  refine ⟨block, hcell, ?_, block.buf.inBounds⟩
  apply hinv.2 block.buf
  rw [buffer, hbuf, hview]

section Step

variable {s : Buffers (Option R)} (hinv : s.InputReady)
include hinv

theorem InputReady.event {e : InputEvent} (hroom : (s.buffer none).RoomFor e) :
    Lands InputReady InputEnds (s.inputStep garbage (.event e)) := by
  have hown := hinv.1.owns none
  by_cases hview : (s.buffer none).view.RoomFor e
  · refine ((PooledBuf.inputEvent_kept hown garbage e).map ?_ fun _ hfails => hfails).mapError ?_
    · rintro x ⟨hkept, stale, hok⟩
      have hevent := ReactorBuf.inputEvent_inBounds hinv.2 stale hview
      rw [hok] at hevent
      refine ⟨(hinv.1.put hkept).1, ?_⟩
      rw [put_buffer]
      exact hevent
    · intro fault hfails
      cases fault with
      | memLimit => exact Or.inl rfl
      | dangling => exact hfails.elim
      | buffer fault =>
        obtain ⟨stale, hfails⟩ := hfails
        have herror : (s.buffer none).view.inputEvent stale e = Except.error fault := hfails
        have hevent := ReactorBuf.inputEvent_inBounds hinv.2 stale hview
        rw [herror] at hevent
        rcases hevent with rfl | rfl
        · exact Or.inr (Or.inl rfl)
        · exact Or.inr (Or.inr rfl)
  · have hlimit := PooledBuf.inputEvent_exhausted hown hinv.2 garbage hview
      (hroom.resolve_left hview)
    simp only [inputStep, hlimit]
    exact Or.inl rfl

theorem InputReady.overruns {e : InputEvent} (hroom : ¬ (s.buffer none).RoomFor e) :
    s.inputStep garbage (.event e) = Except.error (none, .buffer .outOfBounds) := by
  simp only [inputStep, PooledBuf.inputEvent_overruns (hinv.1.owns none) hinv.2 garbage hroom]
  rfl

theorem InputReady.other (r : R) (op : BufferOp) :
    Lands InputReady InputEnds (s.inputStep garbage (.other r op)) := by
  refine ((step_apart garbage hinv.1 (some r) op).imp ?_ fun _ hfault => hfault).mapError
    fun _ hfault => hfault
  rintro t ⟨howned, -, hothers⟩
  refine ⟨howned, ?_⟩
  rw [hothers none (by simp)]
  exact hinv.2

end Step

/-- **Reads stay inside their block** in a run exactly as long as every event finds room. -/
theorem run_inBounds_iff (calls : List (InputCall R)) :
    Safe (inputStep garbage) InputInBounds InputEnds (start garbage) calls ↔
      Meets (inputStep garbage) EventFits (start garbage) calls := by
  refine safe_iff_meets InputReady (fun s hinv => hinv.inBounds) ?_ ?_
    ⟨inv_start garbage, ReactorBuf.ready_empty⟩
  · intro s call hinv hfits
    cases call with
    | event e => exact hinv.event garbage hfits
    | other r op => exact hinv.other garbage r op
  · intro s call hinv hlands
    cases call with
    | other r op => trivial
    | event e =>
      by_contra hroom
      rw [hinv.overruns garbage hroom] at hlands
      rcases hlands with hfault | hfault | hfault <;> cases hfault

/-! ### A late byte -/

/-- One byte arrives, and no message is complete. -/
def oneByte : InputEvent := ⟨some 1, by rintro n ⟨⟩; decide, some [0], [], false⟩

/-- `FIONREAD` reports nothing; then bytes arrive, and `read` finds them. -/
def lateBytes : InputEvent :=
  ⟨some 0, by rintro n ⟨⟩; decide, some (List.replicate 4096 0), [], false⟩

theorem append_window {b b' : IoBuf} {bytes : List Byte} (happend : b.append bytes = Except.ok b') :
    b'.head = b.head ∧ b'.length = b.length + bytes.length ∧ b'.capacity = b.capacity := by
  unfold IoBuf.append at happend
  split at happend
  · cases happend
    exact ⟨rfl, rfl, rfl⟩
  · cases happend

theorem oneByte_view (stale : List Byte) :
    ∃ b, ReactorBuf.inputEvent ⟨none⟩ stale oneByte = Except.ok ⟨some b⟩ ∧ b.length = 1 ∧
      b.capacity = .m4K := by
  have hfits : (IoBuf.create .m4K stale).head + (IoBuf.create .m4K stale).length +
      [(0 : Byte)].length ≤ (IoBuf.create .m4K stale).capacity.bytes :=
    show 0 + 0 + 1 ≤ 4096 by decide
  obtain ⟨b, happend, -, -⟩ := IoBuf.append_ok (IoBuf.create .m4K stale) [0] hfits
  obtain ⟨hhead, hlength, hcapacity⟩ := append_window happend
  have hread : ReactorBuf.readData ⟨none⟩ ⟨some 1, some [0], stale⟩ =
      Except.ok (1, ⟨some b⟩) := by
    have halloc : allocBuf stale ((1 : Nat) : Int) = some (IoBuf.create .m4K stale) := rfl
    have hstored : [(0 : Byte)].take (if 1 = 0 then MemCap.m4K.bytes else 1) = [0] := rfl
    simp only [ReactorBuf.readData, ReactorBuf.growFor, halloc, ReactorBuf.fillFrom, hstored,
      happend]
    rfl
  have hadjust : b.adjust = b := by
    unfold IoBuf.adjust
    exact if_neg (not_not.mpr hhead)
  refine ⟨b, ?_, hlength, hcapacity⟩
  simp only [ReactorBuf.inputEvent, oneByte, hread, ok_bind]
  exact congrArg (fun b => Except.ok (ReactorBuf.mk (some b))) hadjust

section FirstByte

variable {others : Ptr → Prop} {x : PooledBuf} (hown : x.Owns others) (hbuf : x.buf = none)
  (hmem : x.pool.totalMem + 4 < extraMemLimit) (garbage : Ptr → List Byte)
include hown hbuf hmem

/-- Below its limit the pool serves the first byte. -/
theorem oneByte_served : x.inputEvent garbage oneByte ≠ Except.error .memLimit := by
  intro hlimit
  have hdata := PooledBuf.readData_kept hown garbage (some 1) (some [0])
  cases hread : x.readData garbage (some 1) (some [0]) with
  | error fault =>
    simp only [PooledBuf.inputEvent, oneByte, hread, error_bind] at hlimit
    cases hlimit
    obtain ⟨needRead, hone, hgrow⟩ := PooledBuf.readData_memLimit hread
    cases hone
    have hindex : memIndex ((1 : Nat) : Int) = some .m4K := rfl
    have hkilobytes : MemCap.m4K.bytes / 1024 = 4 := rfl
    have hroom : ¬ x.pool.totalMem + 4 ≥ extraMemLimit := Nat.not_le.mpr hmem
    simp only [PooledBuf.growFor, hbuf, BufPool.allocBuf, hindex, hkilobytes, if_neg hroom]
      at hgrow
    cases hpool : x.pool.pool .m4K with
    | none =>
      rw [hpool] at hgrow
      cases hgrow
    | some target =>
      simp only [hpool] at hgrow
      cases hcell : x.pool.heap.cells target with
      | none =>
        rw [hcell] at hgrow
        cases hgrow
      | some block =>
        rw [hcell] at hgrow
        cases hgrow
  | ok out =>
    obtain ⟨ret, y⟩ := out
    rw [hread] at hdata
    obtain ⟨hkept, -⟩ := hdata
    simp only [PooledBuf.inputEvent, oneByte, hread, ok_bind] at hlimit
    split at hlimit
    · have hclear := PooledBuf.clear_kept hkept.owns
      rw [hlimit] at hclear
      exact hclear
    · have hadjust := PooledBuf.adjust_kept hkept.owns
      have hsame : y.adjust = Except.error .memLimit := hlimit
      rw [hsame] at hadjust
      exact hadjust

theorem oneByte_buffered :
    ∃ y b, x.inputEvent garbage oneByte = Except.ok y ∧ y.view = ⟨some b⟩ ∧ b.length = 1 ∧
      b.capacity = .m4K := by
  have hview : x.view = ⟨none⟩ := by simp only [PooledBuf.view, hbuf, Option.bind_none]
  have hserved := oneByte_served hown hbuf hmem garbage
  have hkept := PooledBuf.inputEvent_kept hown garbage oneByte
  rw [hview] at hkept
  cases hevent : x.inputEvent garbage oneByte with
  | ok y =>
    rw [hevent] at hkept
    obtain ⟨-, stale, hok⟩ := hkept
    obtain ⟨b, hone, hlength, hcapacity⟩ := oneByte_view stale
    exact ⟨y, b, rfl, Except.ok.inj (hok.symm.trans hone), hlength, hcapacity⟩
  | error fault =>
    rw [hevent] at hkept hserved
    cases fault with
    | dangling => exact hkept.elim
    | memLimit => exact absurd rfl hserved
    | buffer fault =>
      obtain ⟨stale, herror⟩ := hkept
      obtain ⟨b, hone, -⟩ := oneByte_view stale
      cases herror.symm.trans hone

end FirstByte

/-- The byte that is left, and the late ones, do not fit the block. -/
theorem lateBytes_noRoom {x : PooledBuf} {b : IoBuf} (hview : x.view = ⟨some b⟩)
    (hlength : b.length = 1) (hcapacity : b.capacity = .m4K) : ¬ x.RoomFor lateBytes := by
  rintro (hroom | ⟨-, hne⟩)
  · rw [hview] at hroom
    have hfits := hroom b 0 rfl rfl
    have hread : (lateBytes.read.getD []).length = 4096 := List.length_replicate
    have hstored : (lateBytes.stored 0).length = 4096 := by
      rw [InputEvent.stored, if_pos rfl, List.length_take, hread]
      rfl
    rw [if_pos rfl, hlength, hcapacity, hstored] at hfits
    exact absurd hfits (by decide)
  · exact hne rfl

/-- **Bytes that arrive late go past the block.** -/
theorem late_bytes_overrun :
    ¬ ∀ calls : List (InputCall Unit),
      Safe (inputStep fun _ => []) InputInBounds InputEnds (start fun _ => []) calls := by
  intro hsafe
  have hready : (start (fun _ => []) : Buffers (Option Unit)).InputReady :=
    ⟨inv_start _, ReactorBuf.ready_empty⟩
  have hmem : (BufPool.create fun _ => []).totalMem + 4 < extraMemLimit := by
    rw [(BufPool.create_account _).2]
    decide
  have hrun := hsafe [.event oneByte, .event lateBytes]
  have hpool : (start (fun _ => []) : Buffers (Option Unit)).pool.totalMem + 4 < extraMemLimit :=
    hmem
  have hbuf : (start (fun _ => []) : Buffers (Option Unit)).bufs none = none := rfl
  have hnone : ((start (fun _ => []) : Buffers (Option Unit)).buffer none).view = ⟨none⟩ := rfl
  generalize (start (fun _ => []) : Buffers (Option Unit)) = s at hready hrun hpool hbuf hnone
  obtain ⟨x, b, hfirst, hview, hlength, hcapacity⟩ :=
    oneByte_buffered (hready.1.owns none) hbuf hpool fun _ => []
  have hstep : s.inputStep (fun _ => []) (.event oneByte) = Except.ok (s.put none x) := by
    simp only [inputStep, hfirst]
    rfl
  have hready' : (s.put none x).InputReady := by
    have hkept := hready.event (fun _ => []) (e := oneByte)
      (Or.inl fun b n hsome => nomatch (congrArg ReactorBuf.buf hnone).symm.trans hsome)
    rw [hstep] at hkept
    exact hkept
  obtain ⟨-, hlands⟩ := hrun
  rw [hstep] at hlands
  have hends : Safe (inputStep fun _ => []) InputInBounds InputEnds (s.put none x)
      [.event lateBytes] := hlands
  have hroom : ¬ ((s.put none x).buffer none).RoomFor lateBytes := by
    rw [put_buffer]
    exact lateBytes_noRoom hview hlength hcapacity
  obtain ⟨-, hlate⟩ := hends
  rw [hready'.overruns (fun _ => []) hroom] at hlate
  rcases hlate with hfault | hfault | hfault <;> cases hfault

end Buffers

end LarsSystem.Reactor
