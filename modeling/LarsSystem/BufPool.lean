import LarsSystem.LinkedChain
import LarsSystem.ReactorBuf

/-!
# `buf_pool` and the buffers that draw on it

The pool keeps the free blocks of each size class in a list linked through their
`next`; a `reactor_buf` refers to the block it owns. Nothing is ever given back
to the system. What the memory of a new block holds is a parameter.

The operations are those of `reactor_buf` once more, with the pointer instead of
the block behind it. They fail as those do, at the memory limit of the pool, and
where they would follow a pointer to no block.
-/

namespace LarsSystem.Reactor

open LarsSystem.MachineWord

/-- An `io_buf` with its link. -/
structure PoolBlock where
  buf : IoBuf
  next : Option Ptr

structure BufPool where
  heap : ObjectHeap PoolBlock
  pool : MemCap → Option Ptr
  totalMem : Nat

/-- A `reactor_buf` by its field `_buf`, with the pool. -/
structure PooledBuf where
  pool : BufPool
  buf : Option Ptr

inductive PoolFault where
  | buffer (fault : Fault)
  | memLimit    -- `exit(1)` in `alloc_buf`, at `EXTRA_MEM_LIMIT`
  | dangling    -- a pointer to no block is followed
deriving DecidableEq, Repr

/-- `EXTRA_MEM_LIMIT`, in kilobytes. -/
def extraMemLimit : Nat := 5 * 1024 * 1024

theorem MemCap.fill_length (cap : MemCap) (garbage : List Byte) :
    ((garbage ++ List.replicate cap.bytes 0).take cap.bytes).length = cap.bytes := by
  simp

theorem MemCap.start_inBounds (cap : MemCap) : 0 + 0 ≤ cap.bytes := by omega

/-- The constructor of `io_buf`. -/
def IoBuf.create (cap : MemCap) (garbage : List Byte) : IoBuf :=
  { data := (garbage ++ List.replicate cap.bytes 0).take cap.bytes
    head := 0
    length := 0
    capacity := cap
    data_length := cap.fill_length garbage
    inBounds := cap.start_inBounds }

theorem IoBuf.written_le (b : IoBuf) (n : Nat) : min n b.length ≤ b.length :=
  Nat.min_le_right n b.length

section Operations

variable (garbage : Ptr → List Byte)

namespace BufPool

/-- `new io_buf(cap)`; the pointer is `heap.next`. -/
def newBuf (s : BufPool) (cap : MemCap) : BufPool :=
  { s with heap := s.heap.alloc ⟨IoBuf.create cap (garbage s.heap.next), none⟩ }

/-- The loop of `make_io_buf_list`: `prev->next = new io_buf(cap); prev = prev->next`. -/
def linkBufs (cap : MemCap) : Nat → Ptr → BufPool → BufPool
  | 0, _, s => s
  | num + 1, prev, s =>
    let new := s.newBuf garbage cap
    linkBufs cap num s.heap.next
      { new with heap := new.heap.modify prev fun block => { block with next := some s.heap.next } }

def makeIoBufList (cap : MemCap) (num : Nat) (s : BufPool) : BufPool :=
  let first := { s.newBuf garbage cap with pool := Function.update s.pool cap (some s.heap.next) }
  let linked := linkBufs garbage cap num s.heap.next first
  { linked with totalMem := linked.totalMem + cap.bytes / 1024 * num }

def start : BufPool := ⟨ObjectHeap.empty, fun _ => none, 0⟩

/-- What the constructor of `buf_pool` makes lists of, and how long. -/
def bufLists : List (MemCap × Nat) :=
  [(.m4K, 5000), (.m16K, 1000), (.m64K, 500), (.m256K, 200), (.m1M, 50), (.m4M, 20), (.m8M, 10)]

/-- The constructor of `buf_pool`. -/
def create : BufPool :=
  bufLists.foldl (fun s list => makeIoBufList garbage list.1 list.2 s) start

def deref (s : BufPool) (p : Ptr) : Except PoolFault IoBuf :=
  match s.heap.cells p with
  | none => Except.error PoolFault.dangling
  | some block => Except.ok block.buf

/-- The block behind `p` after an `io_buf` operation on it. -/
def setBuf (s : BufPool) (p : Ptr) (b : IoBuf) : BufPool :=
  { s with heap := s.heap.modify p fun block => { block with buf := b } }

/-- `alloc_buf`. -/
def allocBuf (s : BufPool) (n : Int) : Except PoolFault (Option Ptr × BufPool) :=
  match memIndex n with
  | none => Except.ok (none, s)
  | some index =>
    match s.pool index with
    | none =>
      if s.totalMem + index.bytes / 1024 ≥ extraMemLimit then Except.error PoolFault.memLimit
      else
        Except.ok (some s.heap.next,
          { s.newBuf garbage index with totalMem := s.totalMem + index.bytes / 1024 })
    | some target =>
      match s.heap.cells target with
      | none => Except.error PoolFault.dangling
      | some block =>
        Except.ok (some target,
          { s with
            heap := s.heap.modify target fun block => { block with next := none }
            pool := Function.update s.pool index block.next })

/-- `revert`; every capacity has its list. -/
def revert (s : BufPool) (p : Ptr) : Except PoolFault BufPool :=
  match s.heap.cells p with
  | none => Except.error PoolFault.dangling
  | some block =>
    Except.ok
      { s with
        heap := s.heap.modify p fun block => ⟨block.buf.clear, s.pool block.buf.capacity⟩
        pool := Function.update s.pool block.buf.capacity (some p) }

end BufPool

namespace PooledBuf

def pop (x : PooledBuf) (len : Nat) : Except PoolFault PooledBuf := do
  match x.buf with
  | none => Except.error (PoolFault.buffer Fault.popAssert)
  | some p =>
    let b ← x.pool.deref p
    if hlen : len ≤ b.length then
      let pool := x.pool.setBuf p (b.pop len hlen)
      if (b.pop len hlen).length = 0 then
        let pool ← pool.revert p
        return ⟨pool, none⟩
      else return ⟨pool, some p⟩
    else Except.error (PoolFault.buffer Fault.popAssert)

/-- `reactor_buf::clear`, and the destructor. -/
def clear (x : PooledBuf) : Except PoolFault PooledBuf := do
  match x.buf with
  | none => return x
  | some p =>
    let pool ← x.pool.revert p
    return ⟨pool, none⟩

def adjust (x : PooledBuf) : Except PoolFault PooledBuf := do
  match x.buf with
  | none => return x
  | some p =>
    let b ← x.pool.deref p
    return ⟨x.pool.setBuf p b.adjust, some p⟩

/-- The block new bytes go to, in `read_data` and `send_data`; `none` where the pool
    returns NULL. -/
def growFor (x : PooledBuf) (asserted : Fault) (count : Nat) :
    Except PoolFault (Option (Ptr × BufPool)) := do
  match x.buf with
  | none =>
    match ← x.pool.allocBuf garbage count with
    | (none, _) => return none
    | (some p, pool) => return some (p, pool)
  | some p =>
    let b ← x.pool.deref p
    if b.head ≠ 0 then Except.error (PoolFault.buffer asserted)
    else if b.capacity.bytes - b.length < count then
      match ← x.pool.allocBuf garbage (wrap32 (b.length + count)) with
      | (none, _) => return none
      | (some q, pool) =>
        let newBuf ← pool.deref q
        match newBuf.copy b with
        | Except.error fault => Except.error (PoolFault.buffer fault)
        | Except.ok newBuf =>
          let pool ← (pool.setBuf q newBuf).revert p
          return some (q, pool)
    else return some (p, x.pool)

/-- `input_buf::read_data`. -/
def readData (x : PooledBuf) (fionread : Option Nat) (read : Option (List Byte)) :
    Except PoolFault (Int × PooledBuf) := do
  match fionread with
  | none => return (-1, x)
  | some needRead =>
    match ← x.growFor garbage Fault.readAssert needRead with
    | none => return (-1, x)
    | some (p, pool) =>
      match read with
      | none => return (-1, ⟨pool, some p⟩)
      | some bytes =>
        let b ← pool.deref p
        let stored := bytes.take (if needRead = 0 then MemCap.m4K.bytes else needRead)
        match b.append stored with
        | Except.error fault => Except.error (PoolFault.buffer fault)
        | Except.ok b' =>
          if 0 < stored.length ∧ needRead ≠ 0 ∧ stored.length ≠ needRead then
            Except.error (PoolFault.buffer Fault.countAssert)
          else return (stored.length, ⟨pool.setBuf p b', some p⟩)

/-- `output_buf::send_data`. -/
def sendData (x : PooledBuf) (bytes : List Byte) : Except PoolFault (Int × PooledBuf) := do
  match ← x.growFor garbage Fault.sendAssert bytes.length with
  | none => return (-1, x)
  | some (p, pool) =>
    let b ← pool.deref p
    match b.append bytes with
    | Except.error fault => Except.error (PoolFault.buffer fault)
    | Except.ok b' => return (0, ⟨pool.setBuf p b', some p⟩)

/-- `output_buf::write2fd`. -/
def write2fd (x : PooledBuf) (result : WriteResult) :
    Except PoolFault (Int × List Byte × PooledBuf) := do
  match x.buf with
  | none => Except.error (PoolFault.buffer Fault.writeAssert)
  | some p =>
    let b ← x.pool.deref p
    if b.head ≠ 0 then Except.error (PoolFault.buffer Fault.writeAssert)
    else
      match result with
      | .error => return (-1, [], x)
      | .again => return (0, [], x)
      | .took n =>
        let taken := min n b.length
        return (taken, b.content.take taken,
          ⟨x.pool.setBuf p (b.pop taken (b.written_le n)).adjust, some p⟩)

end PooledBuf

end Operations

/-! ## As a buffer of its own -/

/-- The buffer that a `reactor_buf` is to the code that uses it. -/
def PooledBuf.view (x : PooledBuf) : ReactorBuf :=
  ⟨x.buf.bind fun p => (x.pool.heap.cells p).map PoolBlock.buf⟩

theorem allocBuf_eq (stale : List Byte) (n : Int) :
    allocBuf stale n = (memIndex n).map fun cap => IoBuf.create cap stale :=
  rfl

/-- An empty block is what the constructor would make of its bytes. -/
theorem IoBuf.eq_create {b : IoBuf} (hhead : b.head = 0) (hlength : b.length = 0) :
    b = IoBuf.create b.capacity b.data := by
  obtain ⟨data, head, length, capacity, data_length, inBounds⟩ := b
  cases hhead
  cases hlength
  simp only [IoBuf.create, IoBuf.mk.injEq, and_self, and_true]
  exact (List.take_left' data_length).symm

/-- The smallest size class that holds `n` bytes. -/
theorem memIndex_smallest {n : Int} {cap : MemCap} (hindex : memIndex n = some cap) (other : MemCap)
    (hother : n ≤ other.bytes) : cap.bytes ≤ other.bytes := by
  unfold memIndex at hindex
  split_ifs at hindex <;> cases hindex <;> cases other <;>
    simp only [MemCap.bytes] at hother ⊢ <;> omega

end LarsSystem.Reactor
