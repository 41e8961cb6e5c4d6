import LarsSystem.EventLoop
import LarsSystem.Transition

/-!
# The interest table and the kernel

`add_io_event` writes the table before it asks the kernel and leaves what it wrote
where the kernel refuses; the two `del_io_event`s change table, listening set and
kernel together. The three agree with each other, and with what was successfully
added and not removed since, exactly as long as no refused registration was to
change something.
-/

namespace LarsSystem.Reactor

open LarsSystem.Transition

/-- The masks `add_io_event` is called with: one of the two bits. -/
inductive Direction where
  | epollin
  | epollout
deriving DecidableEq, Repr

def Direction.mask : Direction → Mask
  | .epollin => .EPOLLIN
  | .epollout => .EPOLLOUT

def Mask.has (m : Mask) : Direction → Bool
  | .epollin => m.epollin
  | .epollout => m.epollout

variable {κ : Type}

def IoEvent.callback (ev : IoEvent κ) : Direction → Option κ
  | .epollin => ev.readCallback
  | .epollout => ev.writeCallback

/-- The event loop with, for each descriptor and direction, the callback of the latest successful
    `add_io_event` that no `del_io_event` removed since. -/
structure InterestTable (κ : Type) where
  loop : EventLoop κ
  added : Int → Direction → Option κ

inductive LoopCall (κ : Type) where
  | addIoEvent (fd : Int) (proc : κ) (dir : Direction) (ctlOk : Bool)
  | delIoEvent (fd : Int)
  | delIoEventMask (fd : Int) (mask : Mask)

/-! ## Masks and slots -/

namespace Mask

theorem ext_has {m n : Mask} (hsame : ∀ dir, m.has dir = n.has dir) : m = n := by
  obtain ⟨min, mout⟩ := m
  obtain ⟨nin, nout⟩ := n
  have hin : min = nin := hsame .epollin
  have hout : mout = nout := hsame .epollout
  rw [hin, hout]

@[simp] theorem has_union (m n : Mask) (dir : Direction) :
    (m.union n).has dir = (m.has dir || n.has dir) := by
  cases dir <;> rfl

@[simp] theorem has_without (m n : Mask) (dir : Direction) :
    (m.without n).has dir = (m.has dir && !n.has dir) := by
  cases dir <;> rfl

@[simp] theorem has_mask (dir other : Direction) : dir.mask.has other = decide (other = dir) := by
  cases dir <;> cases other <;> rfl

theorem isZero_iff (m : Mask) : m.isZero = true ↔ ∀ dir, m.has dir = false := by
  constructor
  · intro hzero dir
    simp only [isZero, Bool.and_eq_true, Bool.not_eq_true'] at hzero
    cases dir
    · exact hzero.1
    · exact hzero.2
  · intro hnone
    have hin : m.epollin = false := hnone .epollin
    have hout : m.epollout = false := hnone .epollout
    simp [isZero, hin, hout]

/-- The directions that are set. -/
def ofSet (callbacks : Direction → Option κ) : Mask :=
  ⟨(callbacks .epollin).isSome, (callbacks .epollout).isSome⟩

@[simp] theorem has_ofSet (callbacks : Direction → Option κ) (dir : Direction) :
    (ofSet callbacks).has dir = (callbacks dir).isSome := by
  cases dir <;> rfl

end Mask

theorem callback_registerCallback (ev : IoEvent κ) (proc : κ) (dir other : Direction) :
    (EventLoop.registerCallback ev proc dir.mask).callback other =
      if other = dir then some proc else ev.callback other := by
  cases dir <;> cases other <;> rfl

namespace InterestTable

def start : InterestTable κ := ⟨EventLoop.empty, fun _ _ => none⟩

/-- What the kernel makes of `add_io_event`. -/
def accepts (l : EventLoop κ) (fd : Int) (ctlOk : Bool) : Bool :=
  ctlOk && ((l.ioEvs fd).isSome == (l.kernel fd).isSome)

def step (s : InterestTable κ) : LoopCall κ → InterestTable κ
  | .addIoEvent fd proc dir ctlOk =>
    { loop := s.loop.addIoEvent fd proc dir.mask ctlOk
      added :=
        if accepts s.loop fd ctlOk then
          Function.update s.added fd (Function.update (s.added fd) dir (some proc))
        else s.added }
  | .delIoEvent fd =>
    { loop := s.loop.delIoEvent fd, added := Function.update s.added fd fun _ => none }
  | .delIoEventMask fd mask =>
    { loop := s.loop.delIoEventMask fd mask
      added := Function.update s.added fd fun dir =>
        if mask.has dir then none else s.added fd dir }

/-- The loop has for `fd` what was added: the directions as its mask in the table and in the
    kernel, an element of the listening set unless there is none, and the callbacks. -/
structure AgreesAt (l : EventLoop κ) (fd : Int) (added : Direction → Option κ) : Prop where
  listen : fd ∈ l.listenFds ↔ (Mask.ofSet added).isZero = false
  kernel : l.kernel fd = if (Mask.ofSet added).isZero then none else some (Mask.ofSet added)
  table : (l.ioEvs fd).map IoEvent.mask = l.kernel fd
  callbacks : ∀ dir proc, added dir = some proc → ∀ ev, l.ioEvs fd = some ev →
    ev.callback dir = some proc

def Agrees (s : InterestTable κ) : Prop := ∀ fd, AgreesAt s.loop fd (s.added fd)

/-- A registration that is refused repeats what is there. -/
def Confirmed (s : InterestTable κ) : LoopCall κ → Prop
  | .addIoEvent fd proc dir ctlOk => ctlOk = true ∨ s.added fd dir = some proc
  | .delIoEvent _ => True
  | .delIoEventMask _ _ => True

/-! ## One descriptor -/

/-- What `add_io_event` writes into the table. -/
def newEvent (l : EventLoop κ) (fd : Int) (proc : κ) (dir : Direction) : IoEvent κ :=
  { EventLoop.registerCallback ((l.ioEvs fd).getD ⟨dir.mask, none, none⟩) proc dir.mask with
    mask := match l.ioEvs fd with
      | none => dir.mask
      | some ev => ev.mask.union dir.mask }

theorem addIoEvent_eq (l : EventLoop κ) (fd : Int) (proc : κ) (dir : Direction) (ctlOk : Bool) :
    l.addIoEvent fd proc dir.mask ctlOk =
      if accepts l fd ctlOk then
        { ioEvs := Function.update l.ioEvs fd (some (newEvent l fd proc dir))
          listenFds := insert fd l.listenFds
          kernel := Function.update l.kernel fd (some (newEvent l fd proc dir).mask) }
      else { l with ioEvs := Function.update l.ioEvs fd (some (newEvent l fd proc dir)) } :=
  rfl

theorem newEvent_callback (l : EventLoop κ) (fd : Int) (proc : κ) (dir other : Direction) :
    (newEvent l fd proc dir).callback other =
      if other = dir then some proc
      else ((l.ioEvs fd).getD ⟨dir.mask, none, none⟩).callback other := by
  rw [← callback_registerCallback]
  cases other <;> rfl

theorem ofSet_none_isZero : (Mask.ofSet fun _ : Direction => (none : Option κ)).isZero = true := rfl

theorem isZero_ofSet_iff (added : Direction → Option κ) :
    (Mask.ofSet added).isZero = true ↔ ∀ dir, added dir = none := by
  simp [Mask.isZero_iff]

section AgreesAt

variable {l : EventLoop κ} {fd : Int} {added : Direction → Option κ}
  (hagrees : AgreesAt l fd added)
include hagrees

/-- No entry, or one with the added directions. -/
theorem AgreesAt.entry :
    (∀ dir, added dir = none) ∧ l.ioEvs fd = none ∧ l.kernel fd = none ∨
      (Mask.ofSet added).isZero = false ∧ l.kernel fd = some (Mask.ofSet added) ∧
        ∃ ev, l.ioEvs fd = some ev ∧ ev.mask = Mask.ofSet added := by
  have hkernel := hagrees.kernel
  have htable := hagrees.table
  cases hzero : (Mask.ofSet added).isZero with
  | true =>
    rw [hzero, if_pos rfl] at hkernel
    rw [hkernel, Option.map_eq_none_iff] at htable
    exact Or.inl ⟨(isZero_ofSet_iff added).mp hzero, htable, hkernel⟩
  | false =>
    rw [hzero, if_neg Bool.false_ne_true] at hkernel
    rw [hkernel, Option.map_eq_some_iff] at htable
    exact Or.inr ⟨rfl, hkernel, htable⟩

theorem AgreesAt.accepts_eq (ctlOk : Bool) : accepts l fd ctlOk = ctlOk := by
  rcases hagrees.entry with ⟨-, hevs, hkernel⟩ | ⟨-, hkernel, ev, hevs, -⟩ <;>
    simp [accepts, hevs, hkernel]

/-- The mask of the new entry. -/
theorem AgreesAt.newEvent_mask (proc : κ) (dir : Direction) :
    (newEvent l fd proc dir).mask = Mask.ofSet (Function.update added dir (some proc)) := by
  apply Mask.ext_has
  intro other
  rw [Mask.has_ofSet]
  rcases hagrees.entry with ⟨hnone, hevs, -⟩ | ⟨-, -, ev, hevs, hmask⟩
  · by_cases hdir : other = dir
    · simp [newEvent, hevs, hdir]
    · simp [newEvent, hevs, hdir, hnone]
  · by_cases hdir : other = dir
    · simp [newEvent, hevs, hdir]
    · simp [newEvent, hevs, hdir, hmask]

/-- The callbacks of the new entry. -/
theorem AgreesAt.newEvent_callbacks (proc : κ) (dir : Direction) {other : Direction} {found : κ}
    (hadded : Function.update added dir (some proc) other = some found) :
    (newEvent l fd proc dir).callback other = some found := by
  rw [newEvent_callback]
  by_cases hdir : other = dir
  · rw [hdir, Function.update_self] at hadded
    rw [if_pos hdir, hadded]
  · rw [Function.update_of_ne hdir] at hadded
    rw [if_neg hdir]
    rcases hagrees.entry with ⟨hnone, -⟩ | ⟨-, -, ev, hevs, -⟩
    · rw [hnone other] at hadded
      cases hadded
    · rw [hevs, Option.getD_some]
      exact hagrees.callbacks other found hadded ev hevs

/-- An accepted registration. -/
theorem AgreesAt.addIoEvent (proc : κ) (dir : Direction) :
    AgreesAt (l.addIoEvent fd proc dir.mask true) fd
      (Function.update added dir (some proc)) := by
  have hzero : (Mask.ofSet (Function.update added dir (some proc))).isZero = false := by
    rw [Bool.eq_false_iff, ne_eq, isZero_ofSet_iff]
    intro hnone
    have hdir := hnone dir
    rw [Function.update_self] at hdir
    cases hdir
  rw [addIoEvent_eq, hagrees.accepts_eq, if_pos rfl]
  refine ⟨?_, ?_, ?_, ?_⟩
  · exact iff_of_true (Finset.mem_insert_self _ _) hzero
  · rw [hzero, if_neg Bool.false_ne_true]
    simp only [Function.update_self, hagrees.newEvent_mask]
  · simp only [Function.update_self, Option.map_some]
  · intro other found hadded ev hev
    simp only [Function.update_self, Option.some.injEq] at hev
    rw [← hev]
    exact hagrees.newEvent_callbacks proc dir hadded

/-- A refused registration that repeats what is there changes nothing that is seen. -/
theorem AgreesAt.addIoEvent_repeated {proc : κ} {dir : Direction} (hadded : added dir = some proc) :
    AgreesAt (l.addIoEvent fd proc dir.mask false) fd added := by
  have hsame : Function.update added dir (some proc) = added := by
    rw [← hadded, Function.update_eq_self]
  rw [addIoEvent_eq, hagrees.accepts_eq, if_neg Bool.false_ne_true]
  refine ⟨hagrees.listen, hagrees.kernel, ?_, ?_⟩
  · simp only [Function.update_self, Option.map_some, hagrees.newEvent_mask, hsame]
    rcases hagrees.entry with ⟨hnone, -⟩ | ⟨-, hkernel, -⟩
    · rw [hnone dir] at hadded
      cases hadded
    · exact hkernel.symm
  · intro other found hother ev hev
    simp only [Function.update_self, Option.some.injEq] at hev
    rw [← hev]
    exact hagrees.newEvent_callbacks proc dir (by rw [hsame]; exact hother)

/-- **A refused registration of something new stays in the table.** -/
theorem AgreesAt.addIoEvent_refused {proc : κ} {dir : Direction} (hadded : added dir ≠ some proc) :
    ¬ AgreesAt (l.addIoEvent fd proc dir.mask false) fd added := by
  rw [addIoEvent_eq, hagrees.accepts_eq, if_neg Bool.false_ne_true]
  intro hafter
  have htable := hafter.table
  simp only [Function.update_self, Option.map_some, hagrees.newEvent_mask] at htable
  rcases hagrees.entry with ⟨-, -, hkernel⟩ | ⟨-, hkernel, -⟩
  · rw [hkernel] at htable
    cases htable
  · rw [hkernel, Option.some.injEq] at htable
    -- the mask has the direction already, so another callback is there
    have hhas := congrArg (Mask.has · dir) htable
    simp only [Mask.has_ofSet, Function.update_self, Option.isSome_some] at hhas
    obtain ⟨found, hfound⟩ := Option.isSome_iff_exists.mp hhas.symm
    have hslot := hafter.callbacks dir found hfound _ (Function.update_self _ _ _)
    rw [newEvent_callback, if_pos rfl] at hslot
    exact hadded (hfound.trans hslot.symm)

omit hagrees in
theorem agreesAt_delIoEvent (l : EventLoop κ) (fd : Int) :
    AgreesAt (l.delIoEvent fd) fd fun _ => none where
  listen := by
    rw [ofSet_none_isZero]
    exact iff_of_false (fun hin => (Finset.mem_erase.mp hin).1 rfl) nofun
  kernel := l.delIoEvent_kernel fd
  table := by rw [l.delIoEvent_ioEvs, l.delIoEvent_kernel, Option.map_none]
  callbacks := nofun

theorem AgreesAt.delIoEventMask (mask : Mask) :
    AgreesAt (l.delIoEventMask fd mask) fd fun dir => if mask.has dir then none else added dir := by
  have hleft : (Mask.ofSet added).without mask =
      Mask.ofSet fun dir => if mask.has dir then none else added dir := by
    apply Mask.ext_has
    intro dir
    rw [Mask.has_ofSet, Mask.has_without, Mask.has_ofSet]
    cases mask.has dir <;> simp
  rcases hagrees.entry with ⟨hnone, hevs, hkernel⟩ | ⟨hzero, hkernel, ev, hevs, hmask⟩
  · have hadded : (fun dir => if mask.has dir then none else added dir) = added := by
      funext dir
      rw [hnone dir, ite_self]
    rw [hadded, EventLoop.delIoEventMask, hevs]
    exact hagrees
  · cases hempty : (ev.mask.without mask).isZero with
    | true =>
      have hnone : (fun dir => if mask.has dir then none else added dir) = fun _ => none := by
        funext dir
        rw [hmask, hleft, isZero_ofSet_iff] at hempty
        exact hempty dir
      rw [hnone, EventLoop.delIoEventMask, hevs]
      simp only [hempty, if_true]
      exact agreesAt_delIoEvent l fd
    | false =>
      rw [EventLoop.delIoEventMask, hevs]
      simp only [hempty, Bool.false_eq_true, if_false]
      rw [hmask, hleft] at hempty
      refine ⟨?_, ?_, ?_, ?_⟩
      · exact iff_of_true (hagrees.listen.mpr hzero) hempty
      · rw [hempty, if_neg Bool.false_ne_true]
        simp only [Function.update_self, hkernel, Option.map_some, hmask, hleft]
      · simp only [Function.update_self, hkernel, Option.map_some]
      · intro dir found hadded ev' hev'
        simp only [Function.update_self, Option.some.injEq] at hev'
        split at hadded
        · cases hadded
        · rw [← hev']
          exact hagrees.callbacks dir found hadded ev hevs

end AgreesAt

/-- What is the same for a descriptor stays in agreement. -/
theorem AgreesAt.congr {l l' : EventLoop κ} {fd : Int} {added : Direction → Option κ}
    (hagrees : AgreesAt l fd added) (hsame : EventLoop.SameEntry l l' fd)
    (hlisten : fd ∈ l'.listenFds ↔ fd ∈ l.listenFds) : AgreesAt l' fd added where
  listen := hlisten.trans hagrees.listen
  kernel := by rw [hsame.kernel, hagrees.kernel]
  table := by rw [hsame.ioEvs, hsame.kernel, hagrees.table]
  callbacks := by
    rw [hsame.ioEvs]
    exact hagrees.callbacks

section Other

variable {l : EventLoop κ} {fd other : Int} (hne : other ≠ fd)
include hne

theorem listen_addIoEvent {proc : κ} {mask : Mask} {ctlOk : Bool} :
    other ∈ (l.addIoEvent fd proc mask ctlOk).listenFds ↔ other ∈ l.listenFds := by
  unfold EventLoop.addIoEvent
  simp only
  split
  · exact Finset.mem_insert.trans (or_iff_right hne)
  · exact Iff.rfl

theorem listen_delIoEvent : other ∈ (l.delIoEvent fd).listenFds ↔ other ∈ l.listenFds :=
  Finset.mem_erase.trans (and_iff_right hne)

theorem listen_delIoEventMask {mask : Mask} :
    other ∈ (l.delIoEventMask fd mask).listenFds ↔ other ∈ l.listenFds := by
  unfold EventLoop.delIoEventMask
  split
  · exact Iff.rfl
  · simp only
    split
    · exact listen_delIoEvent hne
    · exact Iff.rfl

end Other

/-! ## Calls -/

/-- The call `call` leads from `s` to `t`. -/
def Calls (s : InterestTable κ) (call : LoopCall κ) (t : InterestTable κ) : Prop := t = s.step call

theorem agrees_start : (start : InterestTable κ).Agrees := by
  intro fd
  exact ⟨iff_of_false (Finset.notMem_empty fd) nofun, rfl, rfl, nofun⟩

section Step

variable {s : InterestTable κ} (hagrees : s.Agrees)
include hagrees

theorem Agrees.addIoEvent {fd : Int} {proc : κ} {dir : Direction} {ctlOk : Bool}
    (hconfirmed : ctlOk = true ∨ s.added fd dir = some proc) :
    (s.step (.addIoEvent fd proc dir ctlOk)).Agrees := by
  intro other
  simp only [step, (hagrees fd).accepts_eq]
  by_cases hfd : other = fd
  · subst hfd
    cases ctlOk with
    | true =>
      rw [if_pos rfl, Function.update_self]
      exact (hagrees other).addIoEvent proc dir
    | false =>
      rw [if_neg Bool.false_ne_true]
      exact (hagrees other).addIoEvent_repeated (hconfirmed.resolve_left Bool.false_ne_true)
  · have hadded : (if ctlOk then
        Function.update s.added fd (Function.update (s.added fd) dir (some proc))
          else s.added) other = s.added other := by
      split
      · exact Function.update_of_ne hfd _ _
      · rfl
    rw [hadded]
    exact (hagrees other).congr (EventLoop.sameEntry_addIoEvent hfd) (listen_addIoEvent hfd)

theorem Agrees.delIoEvent (fd : Int) : (s.step (.delIoEvent fd)).Agrees := by
  intro other
  simp only [step]
  by_cases hfd : other = fd
  · subst hfd
    rw [Function.update_self]
    exact agreesAt_delIoEvent s.loop other
  · rw [Function.update_of_ne hfd]
    exact (hagrees other).congr (EventLoop.sameEntry_delIoEvent hfd) (listen_delIoEvent hfd)

theorem Agrees.delIoEventMask (fd : Int) (mask : Mask) :
    (s.step (.delIoEventMask fd mask)).Agrees := by
  intro other
  simp only [step]
  by_cases hfd : other = fd
  · subst hfd
    rw [Function.update_self]
    exact (hagrees other).delIoEventMask mask
  · rw [Function.update_of_ne hfd]
    exact (hagrees other).congr (EventLoop.sameEntry_delIoEventMask hfd)
      (listen_delIoEventMask hfd)

/-- **One call**: table, kernel and listening set agree after it exactly if it is no refused
    registration of something new. -/
theorem Agrees.step_iff (call : LoopCall κ) : (s.step call).Agrees ↔ s.Confirmed call := by
  cases call with
  | delIoEvent fd => exact iff_of_true (hagrees.delIoEvent fd) trivial
  | delIoEventMask fd mask => exact iff_of_true (hagrees.delIoEventMask fd mask) trivial
  | addIoEvent fd proc dir ctlOk =>
    refine ⟨fun hafter => ?_, hagrees.addIoEvent⟩
    cases ctlOk with
    | true => exact Or.inl rfl
    | false =>
      apply Or.inr
      by_contra hadded
      have hat := hafter fd
      simp only [step, (hagrees fd).accepts_eq] at hat
      exact (hagrees fd).addIoEvent_refused hadded hat

/-- In agreement, `event_process` calls for a fired descriptor what was added for it. -/
theorem Agrees.dispatch {fd : Int} {mask fired : Mask} (hkernel : s.loop.kernel fd = some mask)
    (hfired : ∀ dir, fired.has dir = true → mask.has dir = true) (hsome : fired.isZero = false) :
    ∃ dir proc, fired.has dir = true ∧ s.added fd dir = some proc ∧
      s.loop.dispatch fd fired = .call proc := by
  rcases (hagrees fd).entry with ⟨-, -, hnone⟩ | ⟨-, hmask, ev, hevs, -⟩
  · rw [hnone] at hkernel
    cases hkernel
  · rw [hmask] at hkernel
    cases hkernel
    have hslot : ∀ dir, fired.has dir = true → ∃ proc, s.added fd dir = some proc ∧
        ev.callback dir = some proc := by
      intro dir hdir
      have hhas := hfired dir hdir
      rw [Mask.has_ofSet] at hhas
      obtain ⟨proc, hadded⟩ := Option.isSome_iff_exists.mp hhas
      exact ⟨proc, hadded, (hagrees fd).callbacks dir proc hadded ev hevs⟩
    cases hin : fired.epollin with
    | true =>
      obtain ⟨proc, hadded, hcallback⟩ := hslot .epollin hin
      have hread : ev.readCallback = some proc := hcallback
      refine ⟨.epollin, proc, hin, hadded, ?_⟩
      simp only [EventLoop.dispatch, hevs, hin, if_true, hread, Option.elim]
    | false =>
      have hout : fired.epollout = true := by simpa [Mask.isZero, hin] using hsome
      obtain ⟨proc, hadded, hcallback⟩ := hslot .epollout hout
      have hwrite : ev.writeCallback = some proc := hcallback
      refine ⟨.epollout, proc, hout, hadded, ?_⟩
      simp only [EventLoop.dispatch, hevs, hin, hout, Bool.false_eq_true, if_false, if_true,
        hwrite, Option.elim]

end Step

variable (κ) in
/-- **Table, kernel and listening set agree** after every call of a run exactly if every
    registration in it is confirmed by the kernel, or repeats what is there. -/
theorem run_agrees_iff (calls : List (LoopCall κ)) (t : InterestTable κ) :
    Run (Into Agrees Calls) start calls t ↔ Run (Guarded Confirmed Calls) start calls t := by
  refine run_into_iff_guarded ?_ ?_ agrees_start
  · rintro s call t hagrees hconfirmed rfl
    exact (hagrees.step_iff call).mpr hconfirmed
  · rintro s call t hagrees rfl
    exact hagrees.step_iff call

/-- **A refused `EPOLL_CTL_ADD`** leaves an entry in the table that the kernel does not have. -/
theorem refused_add_stays :
    ¬ ∀ (calls : List (LoopCall Unit)) (t : InterestTable Unit),
      Run Calls start calls t → t.Agrees := by
  intro hagrees
  have hrun : Run Calls start [.addIoEvent 5 () .epollin false]
      ((start : InterestTable Unit).step (.addIoEvent 5 () .epollin false)) :=
    Run.cons rfl (Run.nil _)
  have htable := (hagrees _ _ hrun 5).table
  cases htable

end InterestTable

end LarsSystem.Reactor
