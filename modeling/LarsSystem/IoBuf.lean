import LarsSystem.MachineWord

/-!
# `io_buf` and the allocation of io_bufs

One memory block with the window of valid bytes `[head, head + length)` inside
it. Blocks come from the pool in the seven sizes of `MEM_CAP`; the bytes outside
the window are whatever an earlier owner of the block left there, so allocation
takes them as an argument. A block never has a window that leaves it: the bound
is a field, and the operations that copy into a block report `outOfBounds` where
the code would write past its end.
-/

namespace LarsSystem.Reactor

open LarsSystem.MachineWord

/-- What ends the process: a failed assertion, `exit`, or a store past the end of
    a block. -/
inductive Fault where
  | popAssert     -- `assert(_buf && len <= _buf->length)` in `reactor_buf::pop`
  | readAssert    -- `assert(_buf->head == 0)` in `input_buf::read_data`
  | countAssert   -- `assert(already_read == need_read)` in `input_buf::read_data`
  | sendAssert    -- `assert(_buf->head == 0)` in `output_buf::send_data`
  | writeAssert   -- `assert(_buf != NULL && _buf->head == 0)` in `output_buf::write2fd`
  | outOfBounds   -- a store past `data + capacity`
  | loopAssert    -- `assert(ev_it != _io_evs.end())` in `event_loop::event_process`
  | nullCall      -- a call through a NULL callback
  | exitCall      -- `exit(1)`
deriving DecidableEq, Repr

/-- `enum MEM_CAP`: the block sizes of the pool. -/
inductive MemCap where
  | m4K | m16K | m64K | m256K | m1M | m4M | m8M
deriving DecidableEq, Repr

def MemCap.bytes : MemCap → Nat
  | .m4K => 4096
  | .m16K => 16384
  | .m64K => 65536
  | .m256K => 262144
  | .m1M => 1048576
  | .m4M => 4194304
  | .m8M => 8388608

/-- The largest block, and so the most one buffer ever holds. -/
def maxBytes : Nat := MemCap.m8M.bytes

theorem MemCap.bytes_le (cap : MemCap) : cap.bytes ≤ maxBytes := by
  cases cap <;> decide

/-- `io_buf`, with the fields of the header file; `next` only links free blocks. -/
structure IoBuf where
  data : List Byte
  head : Nat
  length : Nat
  capacity : MemCap
  data_length : data.length = capacity.bytes
  inBounds : head + length ≤ capacity.bytes
deriving DecidableEq

namespace IoBuf

/-- The valid bytes, from `data + head` on. -/
def content (b : IoBuf) : List Byte := (b.data.drop b.head).take b.length

@[simp] theorem content_length (b : IoBuf) : b.content.length = b.length := by
  have := b.inBounds
  simp only [content, List.length_take, List.length_drop, b.data_length]
  omega

theorem length_le (b : IoBuf) : b.length ≤ maxBytes :=
  Nat.le_trans (Nat.le_trans (Nat.le_add_left _ _) b.inBounds) b.capacity.bytes_le

/-- `io_buf::clear`. -/
def clear (b : IoBuf) : IoBuf :=
  { b with head := 0, length := 0, inBounds := Nat.zero_le _ }

/-- `io_buf::adjust`: move the valid bytes to the front of the block. -/
def adjust (b : IoBuf) : IoBuf :=
  if b.head ≠ 0 then
    { b with
      data := b.content ++ b.data.drop b.length
      head := 0
      data_length := by
        have := b.inBounds
        simp only [List.length_append, content_length, List.length_drop, b.data_length]
        omega
      inBounds := by have := b.inBounds; omega }
  else b

@[simp] theorem adjust_head (b : IoBuf) : b.adjust.head = 0 := by
  unfold adjust
  split
  · rfl
  · rename_i hhead
    exact not_not.mp hhead

@[simp] theorem adjust_content (b : IoBuf) : b.adjust.content = b.content := by
  unfold adjust
  split
  · exact List.take_left' (content_length b)
  · rfl

/-- `io_buf::copy`: take over the valid bytes of another block. -/
def copy (b other : IoBuf) : Except Fault IoBuf :=
  if hfits : other.length ≤ b.capacity.bytes then
    Except.ok
      { b with
        data := other.content ++ b.data.drop other.length
        head := 0
        length := other.length
        data_length := by
          simp only [List.length_append, content_length, List.length_drop, b.data_length]
          omega
        inBounds := by omega }
  else Except.error Fault.outOfBounds

theorem copy_ok (b other : IoBuf) (hfits : other.length ≤ b.capacity.bytes) :
    ∃ b', b.copy other = Except.ok b' ∧ b'.content = other.content ∧ b'.head = 0 ∧
      b'.capacity = b.capacity := by
  unfold copy
  rw [dif_pos hfits]
  exact ⟨_, rfl, List.take_left' (content_length other), rfl, rfl⟩

/-- `io_buf::pop`: drop bytes from the front of the window. -/
def pop (b : IoBuf) (len : Nat) (hlen : len ≤ b.length) : IoBuf :=
  { b with
    head := b.head + len
    length := b.length - len
    inBounds := by have := b.inBounds; omega }

@[simp] theorem pop_content (b : IoBuf) (len : Nat) (hlen : len ≤ b.length) :
    (b.pop len hlen).content = b.content.drop len := by
  simp only [pop, content, List.drop_take, List.drop_drop]

/-- `memcpy(data + length, bytes, n); length += n` (or `read` into that place):
    the callers have made sure that `head` is 0. -/
def append (b : IoBuf) (bytes : List Byte) : Except Fault IoBuf :=
  if hfits : b.head + b.length + bytes.length ≤ b.capacity.bytes then
    Except.ok
      { b with
        data := b.data.take (b.head + b.length) ++ bytes ++
          b.data.drop (b.head + b.length + bytes.length)
        length := b.length + bytes.length
        data_length := by
          simp only [List.length_append, List.length_take, List.length_drop, b.data_length]
          omega
        inBounds := by omega }
  else Except.error Fault.outOfBounds

theorem append_ok (b : IoBuf) (bytes : List Byte)
    (hfits : b.head + b.length + bytes.length ≤ b.capacity.bytes) :
    ∃ b', b.append bytes = Except.ok b' ∧ b'.content = b.content ++ bytes ∧
      b'.head = b.head := by
  unfold append
  rw [dif_pos hfits]
  refine ⟨_, rfl, ?_, rfl⟩
  have hbound := b.inBounds
  have hlen : (b.data.take (b.head + b.length)).length = b.head + b.length := by
    simp only [List.length_take, b.data_length]
    omega
  have hdrop : ((b.data.take (b.head + b.length)).drop b.head).length = b.length := by
    simp only [List.length_drop, hlen]
    omega
  simp only [content, List.append_assoc]
  rw [List.drop_append_of_le_length (by omega), List.take_append, hdrop,
    List.take_of_length_le (by omega), Nat.add_sub_cancel_left, List.take_left' rfl,
    List.drop_take, Nat.add_sub_cancel_left]

theorem append_error (b : IoBuf) {bytes : List Byte}
    (hlong : b.capacity.bytes < b.head + b.length + bytes.length) :
    b.append bytes = Except.error Fault.outOfBounds := by
  unfold append
  rw [dif_neg (by omega)]

end IoBuf

/-! ## `buf_pool::alloc_buf` -/

/-- The size class `alloc_buf(N)` looks into: the smallest that holds `N` bytes. -/
def memIndex (n : Int) : Option MemCap :=
  if n ≤ 4096 then some .m4K
  else if n ≤ 16384 then some .m16K
  else if n ≤ 65536 then some .m64K
  else if n ≤ 262144 then some .m256K
  else if n ≤ 1048576 then some .m1M
  else if n ≤ 4194304 then some .m4M
  else if n ≤ 8388608 then some .m8M
  else none

theorem memIndex_some {n : Int} {cap : MemCap} (hindex : memIndex n = some cap) :
    n ≤ cap.bytes := by
  unfold memIndex at hindex
  split_ifs at hindex <;> · cases hindex; assumption

theorem memIndex_eq_none_iff (n : Int) : memIndex n = none ↔ maxBytes < n := by
  unfold memIndex maxBytes MemCap.bytes
  split_ifs <;> simp <;> omega

/-- `buf_pool::alloc_buf(N)`: an empty block of the class of `N`, or NULL. The
    block still holds `stale`. Where the pool is at `EXTRA_MEM_LIMIT` the source
    ends the process with `exit(1)`; such runs end there. -/
def allocBuf (stale : List Byte) (n : Int) : Option IoBuf :=
  (memIndex n).map fun cap =>
    { data := (stale ++ List.replicate cap.bytes 0).take cap.bytes
      head := 0
      length := 0
      capacity := cap
      data_length := by simp
      inBounds := by omega }

theorem allocBuf_eq_none_iff (stale : List Byte) (n : Int) :
    allocBuf stale n = none ↔ maxBytes < n := by
  simp [allocBuf, memIndex_eq_none_iff]

/-- Between zero and eight megabytes an empty block that is large enough comes back. -/
theorem allocBuf_some (stale : List Byte) {n : Nat} (hn : n ≤ maxBytes) :
    ∃ b, allocBuf stale n = some b ∧ b.head = 0 ∧ b.length = 0 ∧ n ≤ b.capacity.bytes := by
  cases hindex : memIndex n with
  | none =>
    have := (memIndex_eq_none_iff _).mp hindex
    omega
  | some cap =>
    have := memIndex_some hindex
    exact ⟨_, by rw [allocBuf, hindex]; rfl, rfl, rfl, by exact_mod_cast this⟩

/-- A negative size, as a wrapped sum gives, is served from the smallest class. -/
theorem allocBuf_neg (stale : List Byte) {n : Int} (hn : n < 0) :
    ∃ b, allocBuf stale n = some b ∧ b.head = 0 ∧ b.length = 0 ∧ b.capacity = .m4K := by
  have hindex : memIndex n = some .m4K := by
    unfold memIndex
    rw [if_pos (by omega)]
  exact ⟨_, by rw [allocBuf, hindex]; rfl, rfl, rfl, rfl⟩

end LarsSystem.Reactor
