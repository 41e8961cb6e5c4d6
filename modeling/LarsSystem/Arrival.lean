import LarsSystem.ReactorBuf

/-!
# What a read event can find

`read_data` asks `FIONREAD` how much has arrived, makes room for that, and reads.
The kernel's answers come in a few kinds; in each, the arriving bytes are
appended to the unread ones, or the buffer keeps its bytes and the caller
disconnects.
-/

namespace LarsSystem.Reactor

open LarsSystem.MachineWord

/-- What the kernel has for one `read_data`: bytes that `FIONREAD` announces, bytes
    that come between `FIONREAD` and `read` (of which `read` takes at most 4096),
    the end of the stream, or a failing call. -/
inductive Arrival where
  | chunk (bytes : List Byte) (nonempty : bytes ≠ [])
  | late (bytes : List Byte) (nonempty : bytes ≠ []) (small : bytes.length ≤ MemCap.m4K.bytes)
  | hangup
  | ioctlError
  | readError (fionread : Nat)

namespace Arrival

def env (stale : List Byte) : Arrival → ReadEnv
  | chunk bytes _ => ⟨some bytes.length, some bytes, stale⟩
  | late bytes _ _ => ⟨some 0, some bytes, stale⟩
  | hangup => ⟨some 0, some [], stale⟩
  | ioctlError => ⟨none, none, stale⟩
  | readError fionread => ⟨some fionread, none, stale⟩

def bytes : Arrival → List Byte
  | chunk bytes _ => bytes
  | late bytes _ _ => bytes
  | _ => []

/-- The arriving bytes find room: an announced chunk beside the unread bytes in the
    largest block, a late one in the block that is there. -/
def Stored (ibuf : ReactorBuf) : Arrival → Prop
  | chunk bytes _ => ibuf.length + bytes.length ≤ maxBytes
  | late bytes _ _ => ∀ b, ibuf.buf = some b → b.length + bytes.length ≤ b.capacity.bytes
  | _ => False

end Arrival

/-! ## What `read_data` makes of it -/

section ReadData

variable {ibuf : ReactorBuf} {a : Arrival}

theorem Arrival.Stored.bytes_pos (hstored : a.Stored ibuf) : 0 < a.bytes.length := by
  cases a with
  | chunk bytes nonempty => exact List.length_pos_iff.mpr nonempty
  | late bytes nonempty small => exact List.length_pos_iff.mpr nonempty
  | hangup => exact hstored.elim
  | ioctlError => exact hstored.elim
  | readError fionread => exact hstored.elim

/-- With nothing announced `read_data` reads into the block that is there, or into
    one of the smallest class. -/
theorem growFor_zero (stale : List Byte) (hready : ibuf.Ready) :
    ∃ b, ibuf.growFor Fault.readAssert stale 0 = Except.ok (some b) ∧ b.head = 0 ∧
      b.content = ibuf.content ∧
      ((∃ old, ibuf.buf = some old ∧ b = old) ∨
        ibuf.buf = none ∧ b.length = 0 ∧ b.capacity = MemCap.m4K) := by
  rcases ibuf with ⟨_ | b⟩
  · obtain ⟨b, halloc, hhead, hlength, -⟩ := allocBuf_some stale (Nat.zero_le maxBytes)
    have hcap : b.capacity = MemCap.m4K := by
      unfold allocBuf at halloc
      cases halloc
      rfl
    have hcontent : b.content = [] := List.length_eq_zero_iff.mp (by simp [hlength])
    exact ⟨b, by simp only [ReactorBuf.growFor, halloc], hhead, hcontent,
      Or.inr ⟨rfl, hlength, hcap⟩⟩
  · have hhead : b.head = 0 := hready b rfl
    refine ⟨b, ?_, hhead, rfl, Or.inl ⟨b, rfl, rfl⟩⟩
    simp only [ReactorBuf.growFor, hhead, ne_eq, not_true_eq_false, if_false, Nat.not_lt_zero]

/-- Bytes with room are appended. -/
theorem readData_stored (stale : List Byte) (hready : ibuf.Ready) (hstored : a.Stored ibuf) :
    ∃ filled : ReactorBuf,
      ibuf.readData (a.env stale) = Except.ok ((a.bytes.length : Int), filled) ∧
      filled.content = ibuf.content ++ a.bytes := by
  cases a with
  | chunk bytes nonempty =>
    obtain ⟨filled, hread, -, hcontent⟩ :=
      ReactorBuf.readData_chunk stale hready nonempty hstored
    exact ⟨filled, hread, hcontent⟩
  | late bytes nonempty small =>
    obtain ⟨b, hgrow, hhead, hcontent, hblock⟩ := growFor_zero stale hready
    have hroom : b.head + b.length + bytes.length ≤ b.capacity.bytes := by
      rcases hblock with ⟨old, hold, rfl⟩ | ⟨-, hlength, hcap⟩
      · have := hstored b hold
        omega
      · rw [hcap]
        omega
    obtain ⟨b', happend, hcontent', -⟩ := IoBuf.append_ok b bytes hroom
    refine ⟨⟨some b'⟩, ?_, by rw [← hcontent]; exact hcontent'⟩
    have htake : bytes.take MemCap.m4K.bytes = bytes := List.take_of_length_le small
    simp only [ReactorBuf.readData, Arrival.env, hgrow, ReactorBuf.fillFrom, if_true, htake,
      happend, ne_eq, not_true_eq_false, false_and, and_false, if_false]
    rfl
  | hangup => exact hstored.elim
  | ioctlError => exact hstored.elim
  | readError fionread => exact hstored.elim

/-- The end of the stream: `read` returns 0. -/
theorem readData_hangup (stale : List Byte) (hready : ibuf.Ready) :
    ∃ ibuf' : ReactorBuf, ibuf.readData (Arrival.hangup.env stale) = Except.ok (0, ibuf') ∧
      ibuf'.Ready ∧ ibuf'.content = ibuf.content := by
  obtain ⟨b, hgrow, hhead, hcontent, -⟩ := growFor_zero stale hready
  obtain ⟨b', happend, hcontent', hhead'⟩ := IoBuf.append_ok b [] b.inBounds
  refine ⟨⟨some b'⟩, ?_, ReactorBuf.ready_some (hhead'.trans hhead), ?_⟩
  · simp only [ReactorBuf.readData, Arrival.env, hgrow, ReactorBuf.fillFrom, if_true,
      List.take_nil, happend]
    rfl
  · rw [List.append_nil] at hcontent'
    exact hcontent'.trans hcontent

/-- Otherwise the buffer keeps its bytes and `do_read` disconnects, or a block is
    overrun. -/
theorem readData_not_stored (stale : List Byte) (hready : ibuf.Ready)
    (hstored : ¬ a.Stored ibuf) :
    (∃ ret ibuf', ibuf.readData (a.env stale) = Except.ok (ret, ibuf') ∧
        (ret = -1 ∨ ret = 0) ∧ ibuf'.Ready ∧ ibuf'.content = ibuf.content) ∨
      ibuf.readData (a.env stale) = Except.error Fault.outOfBounds := by
  cases a with
  | chunk bytes nonempty =>
    rcases ReactorBuf.readData_large stale bytes hready (Nat.lt_of_not_le hstored) with
      hfail | herror
    · exact Or.inl ⟨-1, ibuf, hfail, Or.inl rfl, hready, rfl⟩
    · exact Or.inr herror
  | late bytes nonempty small =>
    obtain ⟨b, hgrow, hhead, -, hblock⟩ := growFor_zero stale hready
    have hfull : b.capacity.bytes < b.head + b.length + bytes.length := by
      by_contra hroom
      apply hstored
      intro old hold
      rcases hblock with ⟨old', hold', rfl⟩ | ⟨hnone, -⟩
      · cases hold.symm.trans hold'
        omega
      · exact absurd (hold.symm.trans hnone) (by simp)
    have htake : bytes.take MemCap.m4K.bytes = bytes := List.take_of_length_le small
    apply Or.inr
    simp only [ReactorBuf.readData, Arrival.env, hgrow, ReactorBuf.fillFrom, if_true, htake,
      IoBuf.append_error b hfull]
  | hangup =>
    obtain ⟨ibuf', hread, hready', hcontent⟩ := readData_hangup stale hready
    exact Or.inl ⟨0, ibuf', hread, Or.inr rfl, hready', hcontent⟩
  | ioctlError => exact Or.inl ⟨-1, ibuf, rfl, Or.inl rfl, hready, rfl⟩
  | readError fionread =>
    rcases ReactorBuf.growFor_cases Fault.readAssert stale fionread hready with
      hnone | herror | ⟨b, hsome, hhead, hcontent⟩
    · exact Or.inl ⟨-1, ibuf, by simp only [ReactorBuf.readData, Arrival.env, hnone],
        Or.inl rfl, hready, rfl⟩
    · exact Or.inr (by simp only [ReactorBuf.readData, Arrival.env, herror])
    · exact Or.inl ⟨-1, ⟨some b⟩,
        by simp only [ReactorBuf.readData, Arrival.env, hsome, ReactorBuf.fillFrom],
        Or.inl rfl, ReactorBuf.ready_some hhead, hcontent⟩

end ReadData

end LarsSystem.Reactor
