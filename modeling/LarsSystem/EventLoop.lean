import Mathlib.Data.Finset.Erase
import Mathlib.Data.Finset.Insert
import Mathlib.Logic.Function.Basic

/-!
# `event_loop`: the interest table and the epoll set behind it

The loop keeps, for each descriptor, an `io_event` (the mask and one callback
with its arguments for each direction) and the set of descriptors it listens to;
the kernel keeps the epoll set. `κ` stands for a callback together with its
arguments. An `epoll_ctl` of `add_io_event` may be refused: the flag `ctlOk` is
the kernel's answer, and the operation also fails by itself where it adds a
descriptor that is there or modifies one that is not. Those of the two
`del_io_event` have no such flag: on Linux they succeed on a descriptor that is in
the epoll set, and they do nothing to one that is not.
-/

namespace LarsSystem.Reactor

variable {κ : Type}

/-- An epoll mask, reduced to the two bits the code uses. -/
structure Mask where
  epollin : Bool
  epollout : Bool
deriving DecidableEq, Repr

def Mask.EPOLLIN : Mask := ⟨true, false⟩
def Mask.EPOLLOUT : Mask := ⟨false, true⟩

def Mask.union (m n : Mask) : Mask := ⟨m.epollin || n.epollin, m.epollout || n.epollout⟩
def Mask.without (m n : Mask) : Mask := ⟨m.epollin && !n.epollin, m.epollout && !n.epollout⟩
def Mask.isZero (m : Mask) : Bool := !m.epollin && !m.epollout

structure IoEvent (κ : Type) where
  mask : Mask
  readCallback : Option κ
  writeCallback : Option κ

structure EventLoop (κ : Type) where
  ioEvs : Int → Option (IoEvent κ)
  listenFds : Finset Int
  kernel : Int → Option Mask

namespace EventLoop

def empty : EventLoop κ := ⟨fun _ => none, ∅, fun _ => none⟩

/-- The callback slot a mask selects: `if (mask & EPOLLIN) .. else if (mask & EPOLLOUT)`. -/
def registerCallback (ev : IoEvent κ) (proc : κ) (mask : Mask) : IoEvent κ :=
  if mask.epollin then { ev with readCallback := some proc }
  else if mask.epollout then { ev with writeCallback := some proc }
  else ev

/-- `event_loop::add_io_event`. -/
def addIoEvent (l : EventLoop κ) (fd : Int) (proc : κ) (mask : Mask) (ctlOk : Bool) :
    EventLoop κ :=
  let finalMask := match l.ioEvs fd with
    | none => mask
    | some ev => ev.mask.union mask
  let old := (l.ioEvs fd).getD ⟨mask, none, none⟩
  let ev := { registerCallback old proc mask with mask := finalMask }
  let table := { l with ioEvs := Function.update l.ioEvs fd (some ev) }
  -- `EPOLL_CTL_ADD` where the table had no entry, `EPOLL_CTL_MOD` where it had one
  let accepted := ctlOk && ((l.ioEvs fd).isSome == (l.kernel fd).isSome)
  if accepted then
    { table with
      listenFds := insert fd l.listenFds
      kernel := Function.update l.kernel fd (some finalMask) }
  else table

/-- `event_loop::del_io_event(fd)`. -/
def delIoEvent (l : EventLoop κ) (fd : Int) : EventLoop κ :=
  { ioEvs := Function.update l.ioEvs fd none
    listenFds := l.listenFds.erase fd
    kernel := Function.update l.kernel fd none }

/-- `event_loop::del_io_event(fd, mask)`. -/
def delIoEventMask (l : EventLoop κ) (fd : Int) (mask : Mask) : EventLoop κ :=
  match l.ioEvs fd with
  | none => l
  | some ev =>
    let oMask := ev.mask.without mask
    if oMask.isZero then l.delIoEvent fd
    else
      { l with
        ioEvs := Function.update l.ioEvs fd (some { ev with mask := oMask })
        kernel := Function.update l.kernel fd ((l.kernel fd).map fun _ => oMask) }

/-- `close(fd)` takes the descriptor out of the epoll set. -/
def closeFd (l : EventLoop κ) (fd : Int) : EventLoop κ :=
  { l with kernel := Function.update l.kernel fd none }

/-- What `event_process` does with a fired descriptor. -/
inductive Dispatch (κ : Type) where
  | missing             -- no entry: the assertion fails
  | callNull            -- the selected callback is NULL
  | call (proc : κ)
  | remove              -- `EPOLLHUP` or `EPOLLERR` and no callback at all

/-- The choice of `event_process` for the fired bits `EPOLLIN` and `EPOLLOUT`; where
    neither is set, `EPOLLHUP` or `EPOLLERR` is. -/
def dispatch (l : EventLoop κ) (fd : Int) (fired : Mask) : Dispatch κ :=
  match l.ioEvs fd with
  | none => .missing
  | some ev =>
    if fired.epollin then ev.readCallback.elim .callNull .call
    else if fired.epollout then ev.writeCallback.elim .callNull .call
    else ev.readCallback.elim (ev.writeCallback.elim .remove .call) .call

/-! ## A registered direction

The table and the epoll set agree that a descriptor is read with a callback. The
write direction comes and goes without touching it. -/

/-- `EPOLLIN` is registered for `fd` with the callback `proc`. -/
def Reading (l : EventLoop κ) (fd : Int) (proc : κ) : Prop :=
  ∃ ev mask, l.ioEvs fd = some ev ∧ ev.mask.epollin = true ∧ ev.readCallback = some proc ∧
    l.kernel fd = some mask ∧ mask.epollin = true

/-- The table and the epoll set agree on whether `fd` is registered at all. -/
def Matched (l : EventLoop κ) (fd : Int) : Prop :=
  (l.ioEvs fd).isSome = (l.kernel fd).isSome

@[simp] theorem delIoEvent_ioEvs (l : EventLoop κ) (fd : Int) :
    (l.delIoEvent fd).ioEvs fd = none :=
  Function.update_self _ _ _

@[simp] theorem delIoEvent_kernel (l : EventLoop κ) (fd : Int) :
    (l.delIoEvent fd).kernel fd = none :=
  Function.update_self _ _ _

/-- A descriptor that is not in the epoll set does not come back by a `close`. -/
theorem closeFd_kernel {l : EventLoop κ} {fd : Int} (hkernel : l.kernel fd = none) (other : Int) :
    (l.closeFd other).kernel fd = none := by
  by_cases hsame : fd = other
  · simp [closeFd, hsame]
  · simp [closeFd, hsame, hkernel]

theorem delIoEvent_kernel_none {l : EventLoop κ} {fd : Int} (hkernel : l.kernel fd = none)
    (other : Int) : (l.delIoEvent other).kernel fd = none :=
  closeFd_kernel hkernel other

theorem matched_delIoEvent (l : EventLoop κ) (fd : Int) : (l.delIoEvent fd).Matched fd := by
  simp [Matched]

theorem Matched.addIoEvent {l : EventLoop κ} {fd : Int} (hmatched : l.Matched fd) (proc : κ)
    (mask : Mask) : (l.addIoEvent fd proc mask true).Matched fd := by
  have hmatched' : (l.ioEvs fd).isSome = (l.kernel fd).isSome := hmatched
  simp [Matched, EventLoop.addIoEvent, hmatched']

/-- An accepted registration for reading. -/
theorem Matched.reading {l : EventLoop κ} {fd : Int} (hmatched : l.Matched fd) (proc : κ) :
    (l.addIoEvent fd proc .EPOLLIN true).Reading fd proc := by
  have hmatched' : (l.ioEvs fd).isSome = (l.kernel fd).isSome := hmatched
  cases hevs : l.ioEvs fd with
  | none =>
    refine ⟨⟨.EPOLLIN, some proc, none⟩, .EPOLLIN, ?_, rfl, rfl, ?_, rfl⟩ <;>
      simp_all [EventLoop.addIoEvent, registerCallback, Mask.EPOLLIN]
  | some ev =>
    refine ⟨⟨ev.mask.union .EPOLLIN, some proc, ev.writeCallback⟩, ev.mask.union .EPOLLIN, ?_,
      ?_, rfl, ?_, ?_⟩ <;>
      simp_all [EventLoop.addIoEvent, registerCallback, Mask.EPOLLIN, Mask.union]

theorem addIoEvent_refused (l : EventLoop κ) (fd : Int) (proc : κ) (mask : Mask) :
    (l.addIoEvent fd proc mask false).kernel = l.kernel := by
  simp [addIoEvent]

/-- A registration for writing of a descriptor that the epoll set does not have: it is
    refused, or the only one. -/
theorem addIoEvent_waiting {l : EventLoop κ} {fd : Int} (hkernel : l.kernel fd = none)
    (proc : κ) (ctlOk : Bool) :
    (l.addIoEvent fd proc .EPOLLOUT ctlOk).kernel fd = none ∨
      (l.addIoEvent fd proc .EPOLLOUT ctlOk).ioEvs fd = some ⟨.EPOLLOUT, none, some proc⟩ ∧
        (l.addIoEvent fd proc .EPOLLOUT ctlOk).kernel fd = some .EPOLLOUT := by
  cases hevs : l.ioEvs fd with
  | some ev => exact Or.inl (by simp [addIoEvent, hevs, hkernel])
  | none =>
    cases ctlOk with
    | false => exact Or.inl (by simp [addIoEvent, hkernel])
    | true =>
      exact Or.inr (by simp [addIoEvent, hevs, hkernel, registerCallback, Mask.EPOLLOUT])

/-- The write slot of `fd` does not hold `proc`. -/
def WriteFree (l : EventLoop κ) (fd : Int) (proc : κ) : Prop :=
  ∀ ev, l.ioEvs fd = some ev → ev.writeCallback ≠ some proc

theorem writeFree_delIoEvent (l : EventLoop κ) (fd : Int) (proc : κ) :
    (l.delIoEvent fd).WriteFree fd proc := by
  intro ev hev
  simp at hev

/-- What the write slot holds after a registration, accepted or not. -/
theorem addIoEvent_writeCallback {l : EventLoop κ} {fd : Int} {proc : κ} {mask : Mask}
    {ctlOk : Bool} {ev : IoEvent κ} (hev : (l.addIoEvent fd proc mask ctlOk).ioEvs fd = some ev) :
    ev.writeCallback =
      (registerCallback ((l.ioEvs fd).getD ⟨mask, none, none⟩) proc mask).writeCallback := by
  unfold addIoEvent at hev
  simp only at hev
  split at hev <;> simp only [Function.update_self, Option.some.injEq] at hev <;> rw [← hev]

theorem WriteFree.addRead {l : EventLoop κ} {fd : Int} {proc : κ}
    (hfree : l.WriteFree fd proc) (read : κ) (ctlOk : Bool) :
    (l.addIoEvent fd read .EPOLLIN ctlOk).WriteFree fd proc := by
  intro ev hev
  rw [addIoEvent_writeCallback hev]
  cases hevs : l.ioEvs fd with
  | none => simp [registerCallback, Mask.EPOLLIN]
  | some old => exact hfree old hevs

theorem WriteFree.addWrite {l : EventLoop κ} {fd : Int} {proc write : κ} (hne : write ≠ proc)
    (ctlOk : Bool) : (l.addIoEvent fd write .EPOLLOUT ctlOk).WriteFree fd proc := by
  intro ev hev
  rw [addIoEvent_writeCallback hev]
  intro hsame
  exact hne (Option.some.inj hsame)

theorem WriteFree.delWrite {l : EventLoop κ} {fd : Int} {proc : κ}
    (hfree : l.WriteFree fd proc) (mask : Mask) :
    (l.delIoEventMask fd mask).WriteFree fd proc := by
  intro ev hev
  unfold delIoEventMask at hev
  split at hev
  · exact hfree ev hev
  · rename_i old hold
    simp only at hev
    split at hev
    · simp at hev
    · simp only [Function.update_self, Option.some.injEq] at hev
      rw [← hev]
      exact hfree old hold

theorem Reading.addWrite {l : EventLoop κ} {fd : Int} {proc write : κ}
    (hreading : l.Reading fd proc) (ctlOk : Bool) :
    (l.addIoEvent fd write .EPOLLOUT ctlOk).Reading fd proc := by
  obtain ⟨ev, mask, hevs, hin, hproc, hkernel, hmask⟩ := hreading
  cases ctlOk with
  | true =>
    refine ⟨⟨ev.mask.union .EPOLLOUT, some proc, some write⟩, ev.mask.union .EPOLLOUT,
      ?_, by simp [Mask.union, hin], rfl, ?_, by simp [Mask.union, hin]⟩ <;>
      simp [addIoEvent, hevs, hkernel, registerCallback, Mask.EPOLLOUT, hproc]
  | false =>
    refine ⟨⟨ev.mask.union .EPOLLOUT, some proc, some write⟩, mask,
      ?_, by simp [Mask.union, hin], rfl, by simpa [addIoEvent] using hkernel, hmask⟩
    simp [addIoEvent, hevs, registerCallback, Mask.EPOLLOUT, hproc]

theorem Reading.delWrite {l : EventLoop κ} {fd : Int} {proc : κ}
    (hreading : l.Reading fd proc) :
    (l.delIoEventMask fd .EPOLLOUT).Reading fd proc := by
  obtain ⟨ev, mask, hevs, hin, hproc, hkernel, hmask⟩ := hreading
  have hzero : (ev.mask.without .EPOLLOUT).isZero = false := by
    simp [Mask.without, Mask.isZero, Mask.EPOLLOUT, hin]
  refine ⟨{ ev with mask := ev.mask.without .EPOLLOUT }, ev.mask.without .EPOLLOUT,
    ?_, by simp [Mask.without, Mask.EPOLLOUT, hin], hproc, ?_,
    by simp [Mask.without, Mask.EPOLLOUT, hin]⟩ <;>
    simp [delIoEventMask, hevs, hzero, hkernel]

/-- A second registration for reading, accepted or not, replaces the callback. -/
theorem Reading.addRead {l : EventLoop κ} {fd : Int} {proc read : κ}
    (hreading : l.Reading fd proc) (ctlOk : Bool) :
    (l.addIoEvent fd read .EPOLLIN ctlOk).Reading fd read := by
  obtain ⟨ev, mask, hevs, hin, -, hkernel, hmask⟩ := hreading
  cases ctlOk with
  | true =>
    refine ⟨⟨ev.mask.union .EPOLLIN, some read, ev.writeCallback⟩, ev.mask.union .EPOLLIN,
      ?_, by simp [Mask.union, hin], rfl, ?_, by simp [Mask.union, hin]⟩ <;>
      simp [addIoEvent, hevs, hkernel, registerCallback, Mask.EPOLLIN]
  | false =>
    refine ⟨⟨ev.mask.union .EPOLLIN, some read, ev.writeCallback⟩, mask,
      ?_, by simp [Mask.union, hin], rfl, by simpa [addIoEvent] using hkernel, hmask⟩
    simp [addIoEvent, hevs, registerCallback, Mask.EPOLLIN]

theorem Reading.dispatch_read {l : EventLoop κ} {fd : Int} {proc : κ}
    (hreading : l.Reading fd proc) : l.dispatch fd .EPOLLIN = .call proc := by
  obtain ⟨ev, -, hevs, -, hproc, -, -⟩ := hreading
  simp [EventLoop.dispatch, hevs, hproc, Mask.EPOLLIN]

/-- A registered read callback is what a fired descriptor runs, or else the other slot
    is; the entry is not removed. -/
theorem Reading.dispatch {l : EventLoop κ} {fd : Int} {proc other : κ}
    (hreading : l.Reading fd proc) (hfree : l.WriteFree fd other) (hne : proc ≠ other)
    (fired : Mask) : l.dispatch fd fired ≠ .call other ∧ l.dispatch fd fired ≠ .remove := by
  obtain ⟨ev, -, hevs, -, hproc, -, -⟩ := hreading
  have hwrite := hfree ev hevs
  unfold EventLoop.dispatch
  simp only [hevs, hproc]
  cases hslot : ev.writeCallback with
  | none => cases fired.epollin <;> cases fired.epollout <;> simp [hne]
  | some write =>
    rw [hslot] at hwrite
    have hne' : write ≠ other := fun hsame => hwrite (congrArg some hsame)
    cases fired.epollin <;> cases fired.epollout <;> simp [hne, hne']

/-- An entry with only a write callback runs it on every event but EPOLLIN. -/
theorem dispatch_writeOnly {l : EventLoop κ} {fd : Int} {mask fired : Mask} {proc : κ}
    (hevs : l.ioEvs fd = some ⟨mask, none, some proc⟩) (hfired : fired.epollin = false) :
    l.dispatch fd fired = .call proc := by
  unfold dispatch
  cases fired.epollout <;> simp [hevs, hfired]

/-! ## Other descriptors -/

/-- The two loops have the same for `fd`. -/
structure SameEntry (l l' : EventLoop κ) (fd : Int) : Prop where
  ioEvs : l'.ioEvs fd = l.ioEvs fd
  kernel : l'.kernel fd = l.kernel fd

theorem SameEntry.reading {l l' : EventLoop κ} {fd : Int} {proc : κ} (hsame : SameEntry l l' fd)
    (hreading : l.Reading fd proc) : l'.Reading fd proc := by
  unfold Reading
  rw [hsame.ioEvs, hsame.kernel]
  exact hreading

section Other

variable {l : EventLoop κ} {fd other : Int} (hne : fd ≠ other)
include hne

theorem sameEntry_addIoEvent {proc : κ} {mask : Mask} {ctlOk : Bool} :
    SameEntry l (l.addIoEvent other proc mask ctlOk) fd := by
  unfold addIoEvent
  constructor <;> simp only <;> split <;> simp [Function.update_of_ne hne]

theorem sameEntry_delIoEvent : SameEntry l (l.delIoEvent other) fd :=
  ⟨Function.update_of_ne hne _ _, Function.update_of_ne hne _ _⟩

theorem sameEntry_delIoEventMask {mask : Mask} : SameEntry l (l.delIoEventMask other mask) fd := by
  unfold delIoEventMask
  split
  · exact ⟨rfl, rfl⟩
  · simp only
    split
    · exact sameEntry_delIoEvent hne
    · exact ⟨Function.update_of_ne hne _ _, Function.update_of_ne hne _ _⟩

theorem sameEntry_closeFd : SameEntry l (l.closeFd other) fd :=
  ⟨rfl, Function.update_of_ne hne _ _⟩

end Other

/-! ## Exactly the directions of a mask -/

/-- `fd` is registered for the directions of `mask` and no other, each with its callback, and the
    epoll set has the same mask. -/
structure Watched (l : EventLoop κ) (fd : Int) (mask : Mask) (read write : κ) : Prop where
  kernel : l.kernel fd = if mask.isZero then none else some mask
  agrees : (l.ioEvs fd).map IoEvent.mask = l.kernel fd
  reads : mask.epollin = true → ∀ ev, l.ioEvs fd = some ev → ev.readCallback = some read
  writes : mask.epollout = true → ∀ ev, l.ioEvs fd = some ev → ev.writeCallback = some write

/-- EPOLLOUT is registered for `fd` with the callback `proc`. -/
def Writing (l : EventLoop κ) (fd : Int) (proc : κ) : Prop :=
  ∃ ev mask, l.ioEvs fd = some ev ∧ ev.mask.epollout = true ∧ ev.writeCallback = some proc ∧
    l.kernel fd = some mask ∧ mask.epollout = true

/-- EPOLLOUT is in a mask for `fd`, in the table or in the epoll set. -/
def HasEpollout (l : EventLoop κ) (fd : Int) : Prop :=
  (∃ ev, l.ioEvs fd = some ev ∧ ev.mask.epollout = true) ∨
    ∃ mask, l.kernel fd = some mask ∧ mask.epollout = true

theorem watched_none {l : EventLoop κ} {fd : Int} (hevs : l.ioEvs fd = none)
    (hkernel : l.kernel fd = none) (read write : κ) :
    l.Watched fd ⟨false, false⟩ read write where
  kernel := hkernel
  agrees := by rw [hevs, hkernel, Option.map_none]
  reads := by simp
  writes := by simp

namespace Watched

variable {l : EventLoop κ} {fd : Int} {mask : Mask} {read write : κ}

/-- The entry that a mask other than 0 stands for. -/
theorem entry (watched : l.Watched fd mask read write) (hmask : mask.isZero = false) :
    l.kernel fd = some mask ∧ ∃ ev, l.ioEvs fd = some ev ∧ ev.mask = mask := by
  have hkernel := watched.kernel
  rw [hmask] at hkernel
  have hagrees := watched.agrees
  rw [hkernel, if_neg Bool.false_ne_true, Option.map_eq_some_iff] at hagrees
  exact ⟨hkernel, hagrees⟩

/-- The mask 0 stands for no entry. -/
theorem noEntry (watched : l.Watched fd mask read write) (hmask : mask.isZero = true) :
    l.ioEvs fd = none ∧ l.kernel fd = none := by
  have hkernel := watched.kernel
  rw [hmask, if_pos rfl] at hkernel
  have hagrees := watched.agrees
  rw [hkernel, Option.map_eq_none_iff] at hagrees
  exact ⟨hagrees, hkernel⟩

theorem reading (watched : l.Watched fd mask read write) (hin : mask.epollin = true) :
    l.Reading fd read := by
  obtain ⟨hkernel, ev, hevs, hmask⟩ := watched.entry (by simp [Mask.isZero, hin])
  exact ⟨ev, mask, hevs, by rw [hmask, hin], watched.reads hin ev hevs, hkernel, hin⟩

theorem writing_iff (watched : l.Watched fd mask read write) :
    l.Writing fd write ↔ mask.epollout = true := by
  constructor
  · rintro ⟨ev, mask', -, -, -, hkernel, hout⟩
    have hmask := watched.kernel
    rw [hkernel] at hmask
    split at hmask
    · cases hmask
    · rw [← Option.some.inj hmask, hout]
  · intro hout
    obtain ⟨hkernel, ev, hevs, hmask⟩ := watched.entry (by simp [Mask.isZero, hout])
    exact ⟨ev, mask, hevs, by rw [hmask, hout], watched.writes hout ev hevs, hkernel, hout⟩

/-- EPOLLOUT is nowhere to be found without its callback. -/
theorem hasEpollout_iff (watched : l.Watched fd mask read write) :
    l.HasEpollout fd ↔ l.Writing fd write := by
  constructor
  · rintro (⟨ev, hevs, hout⟩ | ⟨mask', hkernel, hout⟩)
    · have hagrees := watched.agrees
      rw [hevs, Option.map_some, watched.kernel] at hagrees
      rw [watched.writing_iff]
      split at hagrees
      · cases hagrees
      · rw [← Option.some.inj hagrees, hout]
    · have hmask := watched.kernel
      rw [hkernel] at hmask
      rw [watched.writing_iff]
      split at hmask
      · cases hmask
      · rw [← Option.some.inj hmask, hout]
  · rintro ⟨ev, mask', hevs, hout, -⟩
    exact Or.inl ⟨ev, hevs, hout⟩

/-- What an accepted registration leaves. -/
theorem addIoEvent_entry (watched : l.Watched fd mask read write) (proc : κ) (added : Mask) :
    (l.addIoEvent fd proc added true).kernel fd = some (mask.union added) ∧
      ∃ old, (∀ ev, l.ioEvs fd = some ev → old = ev) ∧
        (l.addIoEvent fd proc added true).ioEvs fd =
          some { registerCallback old proc added with mask := mask.union added } := by
  cases hmask : mask.isZero with
  | true =>
    obtain ⟨hevs, hkernel⟩ := watched.noEntry hmask
    have hunion : mask.union added = added := by
      simp only [Mask.isZero, Bool.and_eq_true, Bool.not_eq_true'] at hmask
      simp [Mask.union, hmask.1, hmask.2]
    refine ⟨?_, ⟨added, none, none⟩, by simp [hevs], ?_⟩ <;>
      simp [EventLoop.addIoEvent, hevs, hkernel, hunion]
  | false =>
    obtain ⟨hkernel, ev, hevs, rfl⟩ := watched.entry hmask
    refine ⟨?_, ev, by simp [hevs], ?_⟩ <;> simp [EventLoop.addIoEvent, hevs, hkernel]

theorem addRead (watched : l.Watched fd mask read write) :
    (l.addIoEvent fd read .EPOLLIN true).Watched fd (mask.union .EPOLLIN) read write := by
  obtain ⟨hkernel, old, hold, hevs⟩ := watched.addIoEvent_entry read .EPOLLIN
  refine ⟨?_, ?_, ?_, ?_⟩
  · rw [hkernel]
    simp [Mask.isZero, Mask.union, Mask.EPOLLIN]
  · rw [hevs, hkernel, Option.map_some]
  · intro _ ev hev
    rw [hevs] at hev
    cases hev
    rfl
  · intro hout ev hev
    rw [hevs] at hev
    cases hev
    have hout' : mask.epollout = true := by simpa [Mask.union, Mask.EPOLLIN] using hout
    obtain ⟨-, ev, hevs', -⟩ := watched.entry (by simp [Mask.isZero, hout'])
    rw [hold ev hevs']
    exact watched.writes hout' ev hevs'

theorem addWrite (watched : l.Watched fd mask read write) :
    (l.addIoEvent fd write .EPOLLOUT true).Watched fd (mask.union .EPOLLOUT) read write := by
  obtain ⟨hkernel, old, hold, hevs⟩ := watched.addIoEvent_entry write .EPOLLOUT
  refine ⟨?_, ?_, ?_, ?_⟩
  · rw [hkernel]
    simp [Mask.isZero, Mask.union, Mask.EPOLLOUT]
  · rw [hevs, hkernel, Option.map_some]
  · intro hin ev hev
    rw [hevs] at hev
    cases hev
    have hin' : mask.epollin = true := by simpa [Mask.union, Mask.EPOLLOUT] using hin
    obtain ⟨-, ev, hevs', -⟩ := watched.entry (by simp [Mask.isZero, hin'])
    rw [hold ev hevs']
    exact watched.reads hin' ev hevs'
  · intro _ ev hev
    rw [hevs] at hev
    cases hev
    rfl

theorem delWrite (watched : l.Watched fd mask read write) (hin : mask.epollin = true) :
    (l.delIoEventMask fd .EPOLLOUT).Watched fd (mask.without .EPOLLOUT) read write := by
  obtain ⟨hkernel, ev, hevs, rfl⟩ := watched.entry (by simp [Mask.isZero, hin])
  have hmask : (ev.mask.without .EPOLLOUT).isZero = false := by
    simp [Mask.isZero, Mask.without, Mask.EPOLLOUT, hin]
  refine ⟨?_, ?_, ?_, ?_⟩
  · simp [delIoEventMask, hevs, hmask, hkernel]
  · simp [delIoEventMask, hevs, hmask, hkernel]
  · intro _ ev' hev'
    simp only [delIoEventMask, hevs, hmask, Bool.false_eq_true, if_false, Function.update_self,
      Option.some.injEq] at hev'
    rw [← hev']
    exact watched.reads hin ev hevs
  · intro hout
    simp [Mask.without, Mask.EPOLLOUT] at hout

theorem sameEntry {l' : EventLoop κ} (watched : l.Watched fd mask read write)
    (hsame : SameEntry l l' fd) : l'.Watched fd mask read write where
  kernel := by rw [hsame.kernel, watched.kernel]
  agrees := by rw [hsame.ioEvs, hsame.kernel, watched.agrees]
  reads := by rw [hsame.ioEvs]; exact watched.reads
  writes := by rw [hsame.ioEvs]; exact watched.writes

end Watched

end EventLoop

end LarsSystem.Reactor
