import LarsSystem.IoBuf

/-!
# `reactor_buf`, `input_buf` and `output_buf`

A connection owns one buffer for each direction: NULL, or one block of the pool.
What the kernel answers (`ioctl`, `read`, `write`) and what a block handed out by
the pool still holds are arguments of the operations, so that a theorem about an
operation is about every answer.

The second half states each operation once in terms of the bytes a buffer holds
(`content`): reading appends to them, sending appends unless the sum exceeds the
largest block, writing and popping take from their front.
-/

namespace LarsSystem.Reactor

open LarsSystem.MachineWord

/-- `reactor_buf` by its field `_buf`. -/
structure ReactorBuf where
  buf : Option IoBuf
deriving DecidableEq

/-- The kernel's answers to one `read_data`: the count `FIONREAD` reports (`none`
    if `ioctl` fails), the bytes `read` delivers (`none` for -1), and the earlier
    contents of the block that the pool hands out, if it is asked for one. -/
structure ReadEnv where
  fionread : Option Nat
  read : Option (List Byte)
  stale : List Byte

/-- The answer of one `write`: a number of bytes taken, `EAGAIN`, or an error.
    `EINTR` is retried at once and not seen. -/
inductive WriteResult where
  | took (n : Nat)
  | again
  | error
deriving DecidableEq, Repr

namespace ReactorBuf

/-! ## The operations of the source -/

def empty : ReactorBuf := ⟨none⟩

def length (r : ReactorBuf) : Nat :=
  match r.buf with
  | none => 0
  | some b => b.length

/-- `reactor_buf::pop`: a block whose last byte is popped goes back to the pool. -/
def pop (r : ReactorBuf) (len : Nat) : Except Fault ReactorBuf :=
  match r.buf with
  | none => Except.error Fault.popAssert
  | some b =>
    if hlen : len ≤ b.length then
      if (b.pop len hlen).length = 0 then Except.ok ⟨none⟩
      else Except.ok ⟨some (b.pop len hlen)⟩
    else Except.error Fault.popAssert

def clear (_ : ReactorBuf) : ReactorBuf := ⟨none⟩

/-- `input_buf::data`: NULL without a block, else the place of the valid bytes. -/
def data (r : ReactorBuf) : Option (List Byte) := r.buf.map IoBuf.content

def adjust (r : ReactorBuf) : ReactorBuf := ⟨r.buf.map IoBuf.adjust⟩

/-- The block new bytes go to, which `read_data` and `send_data` find in the same
    way: a buffer without a block asks the pool for one, a block with too little
    room is copied into one that holds old and new bytes and goes back. `none`
    where the pool returns NULL; `asserted` is the caller's own `assert(head == 0)`. -/
def growFor (r : ReactorBuf) (asserted : Fault) (stale : List Byte) (count : Nat) :
    Except Fault (Option IoBuf) :=
  match r.buf with
  | none => Except.ok (allocBuf stale count)
  | some b =>
    if b.head ≠ 0 then Except.error asserted
    else if b.capacity.bytes - b.length < count then
      match allocBuf stale (wrap32 (b.length + count)) with
      | none => Except.ok none
      | some newBuf =>
        match newBuf.copy b with
        | Except.error fault => Except.error fault
        | Except.ok newBuf => Except.ok (some newBuf)
    else Except.ok (some b)

/-- The tail of `read_data`, once a block with room for `needRead` bytes is there. -/
def fillFrom (b : IoBuf) (needRead : Nat) (read : Option (List Byte)) :
    Except Fault (Int × ReactorBuf) :=
  match read with
  | none => Except.ok (-1, ⟨some b⟩)
  | some bytes =>
    -- `read` stores at most the count it is asked for
    let stored := bytes.take (if needRead = 0 then MemCap.m4K.bytes else needRead)
    match b.append stored with
    | Except.error fault => Except.error fault
    | Except.ok b' =>
      if 0 < stored.length ∧ needRead ≠ 0 ∧ stored.length ≠ needRead then
        Except.error Fault.countAssert
      else Except.ok (stored.length, ⟨some b'⟩)

/-- `input_buf::read_data`. -/
def readData (r : ReactorBuf) (env : ReadEnv) : Except Fault (Int × ReactorBuf) :=
  match env.fionread with
  | none => Except.ok (-1, r)
  | some needRead =>
    match r.growFor Fault.readAssert env.stale needRead with
    | Except.error fault => Except.error fault
    | Except.ok none => Except.ok (-1, r)
    | Except.ok (some b) => fillFrom b needRead env.read

/-- `output_buf::send_data`; `stale` as in `ReadEnv`. -/
def sendData (r : ReactorBuf) (stale bytes : List Byte) : Except Fault (Int × ReactorBuf) :=
  match r.growFor Fault.sendAssert stale bytes.length with
  | Except.error fault => Except.error fault
  | Except.ok none => Except.ok (-1, r)
  | Except.ok (some b) =>
    match b.append bytes with
    | Except.error fault => Except.error fault
    | Except.ok b' => Except.ok (0, ⟨some b'⟩)

/-- `output_buf::write2fd`: the return value, the bytes the descriptor took, and
    the buffer. `io_buf::pop` keeps a block that becomes empty. -/
def write2fd (r : ReactorBuf) (result : WriteResult) :
    Except Fault (Int × List Byte × ReactorBuf) :=
  match r.buf with
  | none => Except.error Fault.writeAssert
  | some b =>
    if b.head ≠ 0 then Except.error Fault.writeAssert
    else
      match result with
      | .error => Except.ok (-1, [], r)
      | .again => Except.ok (0, [], r)
      | .took n =>
        let taken := min n b.length
        Except.ok (taken, b.content.take taken,
          ⟨some (b.pop taken (Nat.min_le_right n b.length)).adjust⟩)

/-! ## The bytes a buffer holds -/

def content (r : ReactorBuf) : List Byte :=
  match r.buf with
  | none => []
  | some b => b.content

/-- The buffer's window starts at the front of its block, as `read_data`,
    `send_data` and `write2fd` assert. -/
def Ready (r : ReactorBuf) : Prop := ∀ b, r.buf = some b → b.head = 0

@[simp] theorem content_length (r : ReactorBuf) : r.content.length = r.length := by
  rcases r with ⟨_ | b⟩
  · rfl
  · exact b.content_length

theorem length_le (r : ReactorBuf) : r.length ≤ maxBytes := by
  rcases r with ⟨_ | b⟩
  · exact Nat.zero_le _
  · exact b.length_le

theorem ready_empty : empty.Ready := by
  intro b hb
  cases hb

theorem ready_some {b : IoBuf} (hhead : b.head = 0) : Ready ⟨some b⟩ := by
  intro b' hb'
  cases hb'
  exact hhead

@[simp] theorem adjust_content (r : ReactorBuf) : r.adjust.content = r.content := by
  rcases r with ⟨_ | b⟩
  · rfl
  · exact b.adjust_content

theorem adjust_ready (r : ReactorBuf) : r.adjust.Ready := by
  rcases r with ⟨_ | b⟩
  · exact ready_empty
  · exact ready_some b.adjust_head

theorem data_eq_content {r : ReactorBuf} (hlen : 0 < r.length) : r.data = some r.content := by
  rcases r with ⟨_ | b⟩
  · simp [length] at hlen
  · rfl

/-! ## `pop` -/

theorem pop_ok {r : ReactorBuf} {len : Nat} (hpos : 0 < r.length) (hlen : len ≤ r.length) :
    ∃ r', r.pop len = Except.ok r' ∧ r'.content = r.content.drop len ∧
      (r'.buf = none ↔ r.length = len) := by
  rcases r with ⟨_ | b⟩
  · simp [length] at hpos
  · have hlen' : len ≤ b.length := hlen
    unfold pop
    simp only [hlen', dif_pos]
    by_cases hzero : (b.pop len hlen').length = 0
    · rw [if_pos hzero]
      have heq : b.length - len = 0 := hzero
      refine ⟨_, rfl, ?_, ?_⟩
      · have hdrop : b.content.drop len = [] :=
          List.drop_eq_nil_of_le (by rw [IoBuf.content_length]; omega)
        exact hdrop.symm
      · exact iff_of_true rfl (by change b.length = len; omega)
    · rw [if_neg hzero]
      have hne : b.length - len ≠ 0 := hzero
      refine ⟨_, rfl, b.pop_content len hlen', ?_⟩
      exact iff_of_false (by simp) (by change b.length ≠ len; omega)

/-- Popping moves the start of the window. -/
theorem pop_not_ready {r r' : ReactorBuf} {len : Nat} (hlen : 0 < len)
    (hpop : r.pop len = Except.ok r') (hsome : r'.buf ≠ none) : ¬ r'.Ready := by
  rcases r with ⟨_ | b⟩
  · cases hpop
  · unfold pop at hpop
    simp only at hpop
    split_ifs at hpop with hle hzero
    · cases hpop
      exact absurd rfl hsome
    · cases hpop
      intro hready
      have hhead : b.head + len = 0 := hready _ rfl
      omega

theorem pop_none (len : Nat) : pop ⟨none⟩ len = Except.error Fault.popAssert := rfl

theorem pop_length {r r' : ReactorBuf} {len : Nat} (hpop : r.pop len = Except.ok r') :
    r'.length = r.length - len := by
  rcases r with ⟨_ | b⟩
  · simp [pop_none] at hpop
  · unfold pop at hpop
    simp only at hpop
    split_ifs at hpop with hlen hzero
    · cases hpop
      exact hzero.symm
    · cases hpop
      rfl

/-! ## Growing a buffer -/

/-- With room in the largest block, growing keeps the bytes and makes the room. -/
theorem growFor_fits {r : ReactorBuf} (asserted : Fault) (stale : List Byte) {count : Nat}
    (hready : r.Ready) (hfits : r.length + count ≤ maxBytes) :
    ∃ b, r.growFor asserted stale count = Except.ok (some b) ∧ b.head = 0 ∧
      b.content = r.content ∧ b.length + count ≤ b.capacity.bytes := by
  have hmax : maxBytes = 8388608 := rfl
  rcases r with ⟨_ | b⟩
  · have hcount : count ≤ maxBytes := Nat.le_trans (Nat.le_add_left _ _) hfits
    obtain ⟨b, halloc, hhead, hlength, hcap⟩ := allocBuf_some stale hcount
    have hcontent : b.content = [] := List.length_eq_zero_iff.mp (by simp [hlength])
    exact ⟨b, by simp only [growFor, halloc], hhead, hcontent, by omega⟩
  · have hhead : b.head = 0 := hready b rfl
    have hfits' : b.length + count ≤ maxBytes := hfits
    by_cases hroom : b.capacity.bytes - b.length < count
    · have hwrap :
          wrap32 ((b.length : Int) + (count : Int)) = ((b.length + count : Nat) : Int) := by
        rw [wrap32_of_lt (by omega) (by omega)]
        rfl
      obtain ⟨newBuf, halloc, -, -, hcap⟩ := allocBuf_some stale hfits'
      obtain ⟨copied, hcopy, hsame, hhead', hcap'⟩ := IoBuf.copy_ok newBuf b (by omega)
      have hlen : copied.length = b.length := by
        rw [← IoBuf.content_length, hsame, IoBuf.content_length]
      refine ⟨copied, ?_, hhead', hsame, by rw [hlen, hcap']; exact hcap⟩
      simp only [growFor, hhead, ne_eq, not_true_eq_false, if_false, hroom, if_true,
        hwrap, halloc, hcopy]
    · have hbound := b.inBounds
      refine ⟨b, ?_, hhead, rfl, by omega⟩
      simp only [growFor, hhead, ne_eq, not_true_eq_false, if_false, hroom]

/-- Past the largest block the pool refuses. -/
theorem growFor_refused {r : ReactorBuf} (asserted : Fault) (stale : List Byte) {count : Nat}
    (hready : r.Ready) (hlarge : maxBytes < r.length + count)
    (hsmall : r.length + count < 2 ^ 31) :
    r.growFor asserted stale count = Except.ok none := by
  rcases r with ⟨_ | b⟩
  · have hcount : maxBytes < count := by
      have hzero : length ⟨none⟩ = 0 := rfl
      omega
    simp only [growFor, (allocBuf_eq_none_iff stale count).mpr (by exact_mod_cast hcount)]
  · have hhead : b.head = 0 := hready b rfl
    have hlarge' : maxBytes < b.length + count := hlarge
    have hsmall' : b.length + count < 2 ^ 31 := hsmall
    have hroom : b.capacity.bytes - b.length < count := by
      have hcap := b.capacity.bytes_le
      have hlen := b.length_le
      omega
    have halloc : allocBuf stale (wrap32 (b.length + count)) = none := by
      rw [allocBuf_eq_none_iff, wrap32_of_lt (by omega) (by omega)]
      omega
    simp only [growFor, hhead, ne_eq, not_true_eq_false, if_false, hroom, if_true, halloc]

/-- A sum that wraps is negative, and a negative size is not refused. -/
theorem growFor_wraps {r : ReactorBuf} (asserted : Fault) (stale : List Byte) {count : Nat}
    (hready : r.Ready)
    (hpos : 0 < r.length) (hwraps : 2 ^ 31 ≤ r.length + count) (hcount : count < 2 ^ 31) :
    r.growFor asserted stale count ≠ Except.ok none := by
  have hmax : maxBytes = 8388608 := rfl
  rcases r with ⟨_ | b⟩
  · simp [length] at hpos
  · have hhead : b.head = 0 := hready b rfl
    have hwraps' : 2 ^ 31 ≤ b.length + count := hwraps
    have hlen := b.length_le
    have hroom : b.capacity.bytes - b.length < count := by
      have hcap := b.capacity.bytes_le
      omega
    have hneg : wrap32 ((b.length : Int) + (count : Int)) < 0 := by
      rw [wrap32_of_ge (by omega) (by omega)]
      omega
    obtain ⟨newBuf, halloc, -, -, -⟩ := allocBuf_neg stale hneg
    simp only [growFor, hhead, ne_eq, not_true_eq_false, if_false, hroom, if_true, halloc]
    cases newBuf.copy b <;> simp

/-- Whatever is asked for, the block that comes back holds the old bytes. -/
theorem growFor_cases {r : ReactorBuf} (asserted : Fault) (stale : List Byte) (count : Nat)
    (hready : r.Ready) :
    r.growFor asserted stale count = Except.ok none ∨
      r.growFor asserted stale count = Except.error Fault.outOfBounds ∨
      ∃ b, r.growFor asserted stale count = Except.ok (some b) ∧ b.head = 0 ∧
        b.content = r.content := by
  rcases r with ⟨_ | b⟩
  · cases halloc : allocBuf stale count with
    | none => exact Or.inl (by simp only [growFor, halloc])
    | some b =>
      have hfits : (count : Int) ≤ maxBytes := by
        by_contra hlarge
        rw [(allocBuf_eq_none_iff stale count).mpr (by omega)] at halloc
        cases halloc
      obtain ⟨b', halloc', hhead, hlength, -⟩ := allocBuf_some stale (Int.ofNat_le.mp hfits)
      rw [halloc] at halloc'
      cases halloc'
      have hcontent : b.content = [] := List.length_eq_zero_iff.mp (by simp [hlength])
      exact Or.inr (Or.inr ⟨b, by simp only [growFor, halloc], hhead, hcontent⟩)
  · have hhead : b.head = 0 := hready b rfl
    by_cases hroom : b.capacity.bytes - b.length < count
    · simp only [growFor, hhead, ne_eq, not_true_eq_false, if_false, hroom, if_true]
      cases allocBuf stale (wrap32 (b.length + count)) with
      | none => exact Or.inl rfl
      | some newBuf =>
        by_cases hcopy : b.length ≤ newBuf.capacity.bytes
        · obtain ⟨copied, hok, hsame, hhead', -⟩ := IoBuf.copy_ok newBuf b hcopy
          exact Or.inr (Or.inr ⟨copied, by simp only [hok], hhead', hsame⟩)
        · exact Or.inr (Or.inl (by simp only [IoBuf.copy, dif_neg hcopy]))
    · refine Or.inr (Or.inr ⟨b, ?_, hhead, rfl⟩)
      simp only [growFor, hhead, ne_eq, not_true_eq_false, if_false, hroom]

/-- Past the largest block, a block that comes back is too small. -/
theorem growFor_short {r : ReactorBuf} {count : Nat} {b : IoBuf}
    (hlarge : maxBytes < r.length + count) (hcontent : b.content = r.content) :
    b.capacity.bytes < b.head + b.length + count := by
  have hcap := b.capacity.bytes_le
  have hlen : b.length = r.length := by
    rw [← IoBuf.content_length, hcontent, content_length]
  omega

/-! ## `read_data` and `send_data` -/

/-- **`read_data` appends what arrived**, whatever block it has to move to, as
    long as old and new bytes fit the largest block. -/
theorem readData_chunk {r : ReactorBuf} {bytes : List Byte} (stale : List Byte)
    (hready : r.Ready) (hne : bytes ≠ []) (hfits : r.length + bytes.length ≤ maxBytes) :
    ∃ r', r.readData ⟨some bytes.length, some bytes, stale⟩ =
        Except.ok ((bytes.length : Int), r') ∧
      r'.Ready ∧ r'.content = r.content ++ bytes := by
  have hpos := List.length_pos_iff.mpr hne
  obtain ⟨b, hgrow, hhead, hcontent, hcap⟩ := growFor_fits Fault.readAssert stale hready hfits
  obtain ⟨b', happend, hcontent', hhead'⟩ := IoBuf.append_ok b bytes (by omega)
  refine ⟨⟨some b'⟩, ?_, ready_some (hhead'.trans hhead), by rw [← hcontent]; exact hcontent'⟩
  simp only [readData, hgrow, fillFrom, if_neg (show bytes.length ≠ 0 by omega),
    List.take_length, happend]
  rw [if_neg (by omega)]

/-- Where they do not fit, `read_data` fails and keeps the old bytes, unless the
    sum of the lengths wraps. -/
theorem readData_large {r : ReactorBuf} (stale bytes : List Byte)
    (hready : r.Ready) (hlarge : maxBytes < r.length + bytes.length) :
    r.readData ⟨some bytes.length, some bytes, stale⟩ = Except.ok (-1, r) ∨
      r.readData ⟨some bytes.length, some bytes, stale⟩ =
        Except.error Fault.outOfBounds := by
  have hpos : bytes.length ≠ 0 := by
    have := r.length_le
    omega
  rcases growFor_cases Fault.readAssert stale bytes.length hready with
    hnone | herror | ⟨b, hsome, -, hcontent⟩
  · exact Or.inl (by simp only [readData, hnone])
  · exact Or.inr (by simp only [readData, herror])
  · apply Or.inr
    simp only [readData, hsome, fillFrom, if_neg hpos, List.take_length,
      IoBuf.append_error b (growFor_short hlarge hcontent)]

/-- **`send_data` appends its bytes** as long as everything pending fits the
    largest block. -/
theorem sendData_fits {r : ReactorBuf} (stale bytes : List Byte)
    (hready : r.Ready) (hfits : r.length + bytes.length ≤ maxBytes) :
    ∃ r', r.sendData stale bytes = Except.ok (0, r') ∧ r'.Ready ∧
      r'.content = r.content ++ bytes := by
  obtain ⟨b, hgrow, hhead, hcontent, hcap⟩ := growFor_fits Fault.sendAssert stale hready hfits
  obtain ⟨b', happend, hcontent', hhead'⟩ := IoBuf.append_ok b bytes (by omega)
  refine ⟨⟨some b'⟩, ?_, ready_some (hhead'.trans hhead), by rw [← hcontent]; exact hcontent'⟩
  simp only [sendData, hgrow, happend]

/-- Where they do not fit, `send_data` returns -1 and changes nothing. -/
theorem sendData_refused {r : ReactorBuf} (stale bytes : List Byte) (hready : r.Ready)
    (hlarge : maxBytes < r.length + bytes.length) (hsmall : r.length + bytes.length < 2 ^ 31) :
    r.sendData stale bytes = Except.ok (-1, r) := by
  simp only [sendData, growFor_refused Fault.sendAssert stale hready hlarge hsmall]

/-- Behind pending bytes, a length whose sum with theirs leaves the `int` range is
    served from the smallest class and overruns it. -/
theorem sendData_wraps {r : ReactorBuf} (stale bytes : List Byte) (hready : r.Ready)
    (hpos : 0 < r.length) (hwraps : 2 ^ 31 ≤ r.length + bytes.length)
    (hfits : bytes.length < 2 ^ 31) :
    r.sendData stale bytes = Except.error Fault.outOfBounds := by
  have hmax : maxBytes = 8388608 := rfl
  have hlarge : maxBytes < r.length + bytes.length := by omega
  rcases growFor_cases Fault.sendAssert stale bytes.length hready with
    hnone | herror | ⟨b, hsome, -, hcontent⟩
  · exact absurd hnone (growFor_wraps Fault.sendAssert stale hready hpos hwraps hfits)
  · simp only [sendData, herror]
  · simp only [sendData, hsome, IoBuf.append_error b (growFor_short hlarge hcontent)]

theorem sendData_not_ready {r : ReactorBuf} (stale bytes : List Byte) (hready : ¬ r.Ready) :
    r.sendData stale bytes = Except.error Fault.sendAssert := by
  rcases r with ⟨_ | b⟩
  · exact absurd ready_empty hready
  · have hhead : b.head ≠ 0 := fun hzero => hready (ready_some hzero)
    simp only [sendData, growFor, hhead, ne_eq, not_false_eq_true, if_true]

/-! ## `write2fd` -/

/-- **`write2fd` takes bytes from the front** and leaves the buffer ready. -/
theorem write2fd_took {r : ReactorBuf} (hready : r.Ready) (hpos : 0 < r.length) (n : Nat) :
    ∃ r' : ReactorBuf, r.write2fd (.took n) =
        Except.ok (((min n r.length : Nat) : Int), r.content.take (min n r.length), r') ∧
      r'.Ready ∧ r'.content = r.content.drop (min n r.length) := by
  rcases r with ⟨_ | b⟩
  · simp [length] at hpos
  · have hhead : b.head = 0 := hready b rfl
    refine ⟨⟨some (b.pop (min n b.length) (Nat.min_le_right n b.length)).adjust⟩, ?_,
      ready_some (IoBuf.adjust_head _), ?_⟩
    · simp only [write2fd, hhead, ne_eq, not_true_eq_false, if_false]
      rfl
    · exact (IoBuf.adjust_content _).trans (IoBuf.pop_content _ _ _)

/-- Without bytes taken, `write2fd` changes nothing. -/
theorem write2fd_again {r : ReactorBuf} (hready : r.Ready) (hpos : 0 < r.length) :
    r.write2fd .again = Except.ok (0, [], r) := by
  rcases r with ⟨_ | b⟩
  · simp [length] at hpos
  · have hhead : b.head = 0 := hready b rfl
    simp only [write2fd, hhead, ne_eq, not_true_eq_false, if_false]

theorem write2fd_error {r : ReactorBuf} (hready : r.Ready) (hpos : 0 < r.length) :
    r.write2fd .error = Except.ok (-1, [], r) := by
  rcases r with ⟨_ | b⟩
  · simp [length] at hpos
  · have hhead : b.head = 0 := hready b rfl
    simp only [write2fd, hhead, ne_eq, not_true_eq_false, if_false]

theorem write2fd_not_ready {r : ReactorBuf} (result : WriteResult) (hready : ¬ r.Ready) :
    r.write2fd result = Except.error Fault.writeAssert := by
  rcases r with ⟨_ | b⟩
  · exact absurd ready_empty hready
  · have hhead : b.head ≠ 0 := fun hzero => hready (ready_some hzero)
    simp only [write2fd, hhead, ne_eq, not_false_eq_true, if_true]

end ReactorBuf

end LarsSystem.Reactor
