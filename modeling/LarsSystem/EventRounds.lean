import LarsSystem.InterestTable
import LarsSystem.WriteInterest

/-!
# The rounds of `event_process`

`epoll_wait` reports up to `MAXEVENTS` fired descriptors, and the loop goes through
them with the table that the callbacks before have left: it asserts that a
descriptor has an entry, and calls the callback of the fired direction without
asking whether there is one. Between the report and its turn a descriptor can lose
its entry.

For a worker thread of the server it does not (`rounds_serve`): what a `tcp_conn`
does to its loop is about its own descriptor, the descriptors that the accept queue
brings are not in use, and a send only adds. Here the `epoll_ctl` of any `add_io_event`
may fail; that of a `del_io_event` fails only on a descriptor that the epoll set does
not have, where it changes nothing. The entry of the queue's own eventfd is not in the
table below; nothing removes it.
-/

namespace LarsSystem.Reactor

open LarsSystem.Transition

namespace EventLoop

open InterestTable (newEvent newEvent_callback addIoEvent_eq)

variable {κ : Type}

/-! ## Entries that can be called -/

/-- What the table and the epoll set have for `fd`: callbacks are those of their direction, a
    direction in the mask has one, and the epoll set asks for directions of the mask only. -/
structure Served (l : EventLoop κ) (fd : Int) (procs : Direction → κ) : Prop where
  slots : ∀ ev, l.ioEvs fd = some ev → ∀ dir proc, ev.callback dir = some proc → proc = procs dir
  masks : ∀ ev, l.ioEvs fd = some ev → ∀ dir, ev.mask.has dir = true → (ev.callback dir).isSome
  kernel : ∀ mask, l.kernel fd = some mask → mask.isZero = false ∧
    ∃ ev, l.ioEvs fd = some ev ∧ ∀ dir, mask.has dir = true → ev.mask.has dir = true

/-- The fired descriptor `fd` has an entry with the callback that its turn calls. -/
def Due (l : EventLoop κ) (fd : Int) (fired : Mask) : Prop :=
  ∃ ev, l.ioEvs fd = some ev ∧ (∀ dir, fired.has dir = true → (ev.callback dir).isSome) ∧
    ∃ dir, (ev.callback dir).isSome

section Served

variable {l l' : EventLoop κ} {fd : Int} {procs : Direction → κ} {fired : Mask}

theorem served_none (hevs : l.ioEvs fd = none) (hkernel : l.kernel fd = none) :
    l.Served fd procs := by
  constructor <;> simp [hevs, hkernel]

theorem Served.sameEntry (served : l.Served fd procs) (hsame : SameEntry l l' fd) :
    l'.Served fd procs where
  slots := by rw [hsame.ioEvs]; exact served.slots
  masks := by rw [hsame.ioEvs]; exact served.masks
  kernel := by rw [hsame.ioEvs, hsame.kernel]; exact served.kernel

theorem Due.sameEntry (due : l.Due fd fired) (hsame : SameEntry l l' fd) : l'.Due fd fired := by
  unfold Due
  rw [hsame.ioEvs]
  exact due

/-- **What the epoll set reports can be called.** -/
theorem Served.due (served : l.Served fd procs) {mask : Mask} (hkernel : l.kernel fd = some mask)
    (hfired : ∀ dir, fired.has dir = true → mask.has dir = true) : l.Due fd fired := by
  obtain ⟨hmask, ev, hevs, hev⟩ := served.kernel mask hkernel
  have hcallback : ∀ dir, mask.has dir = true → (ev.callback dir).isSome :=
    fun dir hdir => served.masks ev hevs dir (hev dir hdir)
  refine ⟨ev, hevs, fun dir hdir => hcallback dir (hfired dir hdir), ?_⟩
  obtain ⟨dir, hdir⟩ : ∃ dir, mask.has dir = true := by
    by_contra hnone
    have hzero := (Mask.isZero_iff mask).mpr fun dir => by
      simpa using fun hdir => hnone ⟨dir, hdir⟩
    rw [hmask] at hzero
    cases hzero
  exact ⟨dir, hcallback dir hdir⟩

/-- A slot that is due holds the callback of its direction. -/
theorem Served.slot (served : l.Served fd procs) {ev : IoEvent κ} (hevs : l.ioEvs fd = some ev)
    {dir : Direction} (hsome : (ev.callback dir).isSome) : ev.callback dir = some (procs dir) := by
  obtain ⟨proc, hproc⟩ := Option.isSome_iff_exists.mp hsome
  rw [hproc, served.slots ev hevs dir proc hproc]

theorem Due.dispatch (due : l.Due fd fired) (served : l.Served fd procs) :
    ∃ dir, l.dispatch fd fired = .call (procs dir) := by
  obtain ⟨ev, hevs, hslots, some, hsome⟩ := due
  by_cases hin : fired.epollin = true
  · have hslot : ev.readCallback = _ := served.slot hevs (hslots .epollin hin)
    exact ⟨.epollin, by simp [EventLoop.dispatch, hevs, hin, hslot]⟩
  · by_cases hout : fired.epollout = true
    · have hslot : ev.writeCallback = _ := served.slot hevs (hslots .epollout hout)
      exact ⟨.epollout, by simp [EventLoop.dispatch, hevs, hin, hout, hslot]⟩
    · -- `EPOLLHUP` or `EPOLLERR`: the read callback if there is one
      by_cases hread : (ev.callback .epollin).isSome
      · have hslot : ev.readCallback = _ := served.slot hevs hread
        exact ⟨.epollin, by simp [EventLoop.dispatch, hevs, hin, hout, hslot]⟩
      · have hnone : ev.readCallback = none := by simpa [IoEvent.callback] using hread
        rcases some with _ | _
        · exact absurd hsome hread
        · have hslot : ev.writeCallback = _ := served.slot hevs hsome
          exact ⟨.epollout, by simp [EventLoop.dispatch, hevs, hin, hout, hnone, hslot]⟩

/-! ### What the operations keep -/

theorem addIoEvent_ioEvs (proc : κ) (dir : Direction) (ctlOk : Bool) :
    (l.addIoEvent fd proc dir.mask ctlOk).ioEvs fd = some (newEvent l fd proc dir) := by
  rw [addIoEvent_eq]
  split <;> exact Function.update_self _ _ _

theorem newEvent_slot {dir other : Direction} {proc found : κ}
    (hfound : (newEvent l fd proc dir).callback other = some found) :
    other = dir ∧ found = proc ∨ ∃ ev, l.ioEvs fd = some ev ∧ ev.callback other = some found := by
  rw [newEvent_callback] at hfound
  split at hfound
  · rename_i hdir
    exact Or.inl ⟨hdir, (Option.some.inj hfound).symm⟩
  · rcases hevs : l.ioEvs fd with _ | ev
    · rw [hevs] at hfound
      cases other <;> cases hfound
    · rw [hevs] at hfound
      exact Or.inr ⟨ev, rfl, hfound⟩

theorem newEvent_kept (proc : κ) (dir : Direction) {ev : IoEvent κ} (hevs : l.ioEvs fd = some ev)
    {other : Direction} (hsome : (ev.callback other).isSome) :
    ((newEvent l fd proc dir).callback other).isSome := by
  rw [newEvent_callback, hevs]
  split
  · rfl
  · exact hsome

theorem newEvent_has (proc : κ) (dir other : Direction) :
    (newEvent l fd proc dir).mask.has other = true ↔
      other = dir ∨ ∃ ev, l.ioEvs fd = some ev ∧ ev.mask.has other = true := by
  rcases hevs : l.ioEvs fd with _ | ev
  · simp [newEvent, hevs]
  · simp [newEvent, hevs, or_comm]

theorem Due.addIoEvent (due : l.Due fd fired) (proc : κ) (dir : Direction) (ctlOk : Bool) :
    (l.addIoEvent fd proc dir.mask ctlOk).Due fd fired := by
  obtain ⟨ev, hevs, hslots, some, hsome⟩ := due
  exact ⟨_, addIoEvent_ioEvs proc dir ctlOk,
    fun other hother => newEvent_kept proc dir hevs (hslots other hother), some,
    newEvent_kept proc dir hevs hsome⟩

theorem Served.addIoEvent (served : l.Served fd procs) (dir : Direction) (ctlOk : Bool) :
    (l.addIoEvent fd (procs dir) dir.mask ctlOk).Served fd procs where
  slots := by
    intro ev hev other proc hproc
    rw [addIoEvent_ioEvs, Option.some.injEq] at hev
    rw [← hev] at hproc
    rcases newEvent_slot hproc with ⟨rfl, rfl⟩ | ⟨old, hold, hslot⟩
    · rfl
    · exact served.slots old hold other proc hslot
  masks := by
    intro ev hev other hother
    rw [addIoEvent_ioEvs, Option.some.injEq] at hev
    rw [← hev] at hother ⊢
    rcases (newEvent_has _ _ _).mp hother with rfl | ⟨old, hold, hmask⟩
    · rw [newEvent_callback, if_pos rfl]
      rfl
    · exact newEvent_kept _ _ hold (served.masks old hold other hmask)
  kernel := by
    intro mask hmask
    rw [addIoEvent_eq] at hmask
    rw [addIoEvent_ioEvs]
    split at hmask
    · -- accepted: the epoll set has the mask of the entry
      simp only [Function.update_self, Option.some.injEq] at hmask
      rw [← hmask]
      refine ⟨?_, _, rfl, fun _ hdir => hdir⟩
      have hdir : (newEvent l fd (procs dir) dir).mask.has dir = true :=
        (newEvent_has _ _ _).mpr (Or.inl rfl)
      by_contra hzero
      rw [Bool.not_eq_false, Mask.isZero_iff] at hzero
      rw [hzero dir] at hdir
      cases hdir
    · obtain ⟨hzero, ev, hevs, hev⟩ := served.kernel mask hmask
      refine ⟨hzero, _, rfl, fun other hother => ?_⟩
      exact (newEvent_has _ _ _).mpr (Or.inr ⟨ev, hevs, hev other hother⟩)

theorem served_delIoEvent (l : EventLoop κ) (fd : Int) (procs : Direction → κ) :
    (l.delIoEvent fd).Served fd procs :=
  served_none (delIoEvent_ioEvs l fd) (delIoEvent_kernel l fd)

theorem Served.delIoEventMask (served : l.Served fd procs) (mask : Mask) :
    (l.delIoEventMask fd mask).Served fd procs := by
  unfold EventLoop.delIoEventMask
  rcases hevs : l.ioEvs fd with _ | ev
  · exact served
  · simp only
    split
    · exact served_delIoEvent l fd procs
    · rename_i hzero
      constructor
      · intro ev' hev' dir proc hproc
        simp only [Function.update_self, Option.some.injEq] at hev'
        rw [← hev'] at hproc
        cases dir <;> exact served.slots ev hevs _ proc hproc
      · intro ev' hev' dir hdir
        simp only [Function.update_self, Option.some.injEq] at hev'
        rw [← hev'] at hdir ⊢
        simp only [Mask.has_without, Bool.and_eq_true] at hdir
        cases dir <;> exact served.masks ev hevs _ hdir.1
      · intro mask' hmask'
        simp only [Function.update_self, Option.map_eq_some_iff] at hmask'
        obtain ⟨-, -, rfl⟩ := hmask'
        exact ⟨Bool.eq_false_iff.mpr hzero, _, Function.update_self _ _ _, fun _ hdir => hdir⟩

end Served

end EventLoop

/-! ## What a connection does to its loop -/

namespace TcpConn

def procs : Direction → ConnCallback
  | .epollin => .connRdCallback
  | .epollout => .connWtCallback

/-- Behind an operation of the connection on `fd`, begun on the loop `l`: the others have what
    they had, and the connection has its entry or is closed. -/
structure Settled (l : EventLoop ConnCallback) (fd : Int) (c : TcpConn) : Prop where
  others : ∀ other, other ≠ fd → EventLoop.SameEntry l c.loop other
  own : c.connfd = fd ∧ c.loop.Served fd procs ∨
    c.connfd = -1 ∧ c.loop.ioEvs fd = none ∧ c.loop.kernel fd = none

section Settled

variable {c c' : TcpConn} {fd : Int}

theorem settled_same (hfd : c.connfd = fd) (served : c.loop.Served fd procs)
    (hfd' : c'.connfd = c.connfd) (hloop : c'.loop = c.loop) : Settled c.loop fd c' where
  others := fun _ _ => by rw [hloop]; exact ⟨rfl, rfl⟩
  own := Or.inl ⟨hfd'.trans hfd, hloop ▸ served⟩

theorem settled_cleanConn (hfd : c.connfd = fd) : Settled c.loop fd c.cleanConn where
  others := by
    intro other hne
    have hdel := EventLoop.sameEntry_delIoEvent (l := c.loop) (hfd ▸ hne)
    have hclose := EventLoop.sameEntry_closeFd (l := c.loop.delIoEvent c.connfd) (hfd ▸ hne)
    exact ⟨hclose.ioEvs.trans hdel.ioEvs, hclose.kernel.trans hdel.kernel⟩
  own := by
    have hgone := gone_cleanConn hfd
    exact Or.inr ⟨hgone.connfd, hgone.ioEvs, hgone.kernel⟩

theorem Settled.input {l : EventLoop ConnCallback} (settled : Settled l fd c)
    (ibuf : ReactorBuf) : Settled l fd { c with ibuf := ibuf } :=
  ⟨settled.others, settled.own⟩

variable (hfd : c.connfd = fd) (served : c.loop.Served fd procs)
include hfd served

theorem settled_beginRead {env : ReadEnv} {loops : Bool}
    (hread : c.beginRead env = Except.ok (c', loops)) : Settled c.loop fd c' := by
  unfold TcpConn.beginRead at hread
  split at hread
  · cases hread
  · rename_i ret ibuf _
    split_ifs at hread <;> cases hread
    · exact settled_cleanConn (c := { c with ibuf := ibuf }) hfd
    · exact settled_cleanConn (c := { c with ibuf := ibuf }) hfd
    · exact settled_same hfd served rfl rfl

theorem settled_readRound {again : Bool} (hround : c.readRound = Except.ok (c', again)) :
    Settled c.loop fd c' := by
  unfold TcpConn.readRound at hround
  split at hround
  · cases hround
  · cases hround
    exact settled_same hfd served rfl rfl
  · rename_i ibuf calls malformed _
    cases hround
    split
    · exact (settled_cleanConn (c := { c with ibuf := ibuf, calls := calls }) hfd).input _
    · exact settled_same hfd served rfl rfl

theorem settled_doWrite {results : List WriteResult}
    (hwrite : c.doWrite results = Except.ok c') : Settled c.loop fd c' := by
  unfold TcpConn.doWrite at hwrite
  split at hwrite
  · cases hwrite
  · rename_i obuf taken failed _
    simp only at hwrite
    split_ifs at hwrite <;> cases hwrite
    · exact settled_cleanConn (c := { c with obuf := obuf, written := _ }) hfd
    · subst hfd
      refine ⟨fun other hne => ?_, Or.inl ⟨rfl, served.delIoEventMask .EPOLLOUT⟩⟩
      exact EventLoop.sameEntry_delIoEventMask hne
    · exact settled_same hfd served rfl rfl

/-- A registration of one of the two directions. -/
theorem settled_addIoEvent (dir : Direction) (ctlOk : Bool) (hfd' : c'.connfd = c.connfd)
    (hloop : c'.loop = c.loop.addIoEvent c.connfd (procs dir) dir.mask ctlOk) :
    Settled c.loop fd c' := by
  subst hfd
  refine ⟨fun other hne => ?_, Or.inl ⟨hfd', ?_⟩⟩
  · rw [hloop]
    exact EventLoop.sameEntry_addIoEvent hne
  · rw [hloop]
    exact served.addIoEvent dir ctlOk

end Settled

/-- `send_message` leaves the loop alone or registers for writing. -/
theorem sendMessage_loop {c c' : TcpConn} {m : Message} {env : SendEnv} {ret : Int}
    (hsend : c.sendMessage m env = Except.ok (ret, c')) :
    c'.connfd = c.connfd ∧ (c'.loop = c.loop ∨
      c'.loop = c.loop.addIoEvent c.connfd (procs .epollout) Direction.epollout.mask
        env.ctlOk) := by
  unfold TcpConn.sendMessage at hsend
  split at hsend
  · cases hsend
  · cases hsend
    refine ⟨rfl, ?_⟩
    simp only
    split
    · exact Or.inr rfl
    · exact Or.inl rfl

end TcpConn

/-! ## A worker thread -/

/-- The event loop of a thread with its open connections. What is left of the last report of
    `epoll_wait`, and the connection that is inside `do_read`; `removed` is history: the
    descriptors that the loop has given up with "get error, delete it from epoll". -/
structure Worker where
  loop : EventLoop ConnCallback
  server : ConnTable
  conns : Int → Option TcpConn
  fired : List (Int × Mask)
  reading : Option Int
  removed : List Int

/-- What can happen on the thread: a report; the turn of the next fired descriptor, with the
    kernel's answers for a read and for a write; a round of the loop of the `do_read` under way; a
    `send_message` of a handler or a task; and the two halves of the constructor of a `tcp_conn`,
    between which its hook sends. -/
inductive WorkerStep where
  | epollWait (batch : List (Int × Mask))
  | turn (env : ReadEnv) (results : List WriteResult)
  | readRound
  | send (fd : Int) (m : Message) (env : SendEnv)
  | newConn (fd : Int)
  | register (fd : Int) (ctlOk : Bool)

inductive WorkerFault where
  | assertFails
  | callsNull
  | closedConn           -- a callback or a round without an open connection
  | conn (fault : Fault)
deriving DecidableEq

namespace Worker

def start : Worker := ⟨EventLoop.empty, ⟨fun _ => false, 0⟩, fun _ => none, [], none, []⟩

/-- A connection with the loop and the table that it shares with the others. -/
def borrow (w : Worker) (c : TcpConn) : TcpConn := { c with loop := w.loop, server := w.server }

/-- What an operation of the connection on `fd` leaves; a closed one is given up. -/
def settle (w : Worker) (fd : Int) (c : TcpConn) : Worker :=
  { w with
    loop := c.loop
    server := c.server
    conns := Function.update w.conns fd (if c.connfd = -1 then none else some c) }

/-- The callback of the connection on `fd`. -/
def callback (w : Worker) (fd : Int) (proc : ConnCallback) (env : ReadEnv)
    (results : List WriteResult) : Except WorkerFault Worker :=
  match w.conns fd with
  | none => Except.error .closedConn
  | some c =>
    match proc with
    | .connRdCallback =>
      match (w.borrow c).beginRead env with
      | Except.error crash => Except.error (.conn crash.fault)
      | Except.ok (c, loops) =>
        Except.ok ({ w with reading := if loops then some fd else none }.settle fd c)
    | .connWtCallback =>
      match (w.borrow c).doWrite results with
      | Except.error fault => Except.error (.conn fault)
      | Except.ok c => Except.ok (w.settle fd c)

def step (w : Worker) : WorkerStep → Except WorkerFault Worker
  | .epollWait batch => Except.ok { w with fired := batch }
  | .turn env results =>
    match w.fired with
    | [] => Except.ok w
    | (fd, events) :: rest =>
      let w := { w with fired := rest }
      match w.loop.dispatch fd events with
      | .missing => Except.error .assertFails
      | .callNull => Except.error .callsNull
      | .remove =>
        Except.ok { w with loop := w.loop.delIoEvent fd, removed := fd :: w.removed }
      | .call proc => w.callback fd proc env results
  | .readRound =>
    match w.reading with
    | none => Except.ok w
    | some fd =>
      match w.conns fd with
      | none => Except.error .closedConn
      | some c =>
        match (w.borrow c).readRound with
        | Except.error crash => Except.error (.conn crash.fault)
        | Except.ok (c, again) =>
          Except.ok ({ w with reading := if again then some fd else none }.settle fd c)
  | .send fd m env =>
    match w.conns fd with
    | none => Except.ok w
    | some c =>
      match (w.borrow c).sendMessage m env with
      | Except.error fault => Except.error (.conn fault)
      | Except.ok (_, c) => Except.ok (w.settle fd c)
  | .newConn fd => Except.ok (w.settle fd (TcpConn.allocate fd w.loop w.server))
  | .register fd ctlOk =>
    match w.conns fd with
    | none => Except.ok w
    | some c => Except.ok (w.settle fd ((w.borrow c).register ctlOk))

/-- What the thread and the kernel can do: a report names descriptors of the epoll set, each once,
    with directions that are asked for; it is gone through before the next one, and nothing else
    has a turn inside a `do_read`. A new connection is not on a descriptor that is open. -/
def Possible (w : Worker) : WorkerStep → Prop
  | .epollWait batch => w.fired = [] ∧ w.reading = none ∧ (batch.map Prod.fst).Nodup ∧
      ∀ fd events, (fd, events) ∈ batch → ∃ mask, w.loop.kernel fd = some mask ∧
        ∀ dir, events.has dir = true → mask.has dir = true
  | .turn _ _ => w.reading = none
  | .newConn fd => fd ≠ -1 ∧ w.conns fd = none
  | _ => True

/-- **What the loop relies on**: its entries are those of the open connections, each fired
    descriptor can be called, the one inside `do_read` is open and has had its turn, and none was
    given up. -/
structure Serving (w : Worker) : Prop where
  conns : ∀ fd c, w.conns fd = some c →
    c.connfd = fd ∧ fd ≠ -1 ∧ w.loop.Served fd TcpConn.procs
  free : ∀ fd, w.conns fd = none → w.loop.ioEvs fd = none ∧ w.loop.kernel fd = none
  once : (w.fired.map Prod.fst).Nodup
  due : ∀ fd events, (fd, events) ∈ w.fired → w.loop.Due fd events
  reading : ∀ fd, w.reading = some fd → w.conns fd ≠ none ∧ fd ∉ w.fired.map Prod.fst
  removed : w.removed = []

/-- A fault in an operation of a connection, none of the loop. -/
def InConn (fault : WorkerFault) : Prop := ∃ f, fault = .conn f

theorem serving_start : start.Serving where
  conns := nofun
  free := fun _ _ => ⟨rfl, rfl⟩
  once := List.nodup_nil
  due := nofun
  reading := nofun
  removed := rfl

section Steps

variable {w : Worker} {fd : Int} {c : TcpConn}

theorem Serving.settle (serving : w.Serving) (settled : TcpConn.Settled w.loop fd c)
    (hfd : fd ≠ -1) (hdue : ∀ events, (fd, events) ∈ w.fired → c.loop.Due fd events)
    (hreading : w.reading = some fd → c.connfd ≠ -1) : (w.settle fd c).Serving := by
  constructor
  · intro other c' hc'
    by_cases hother : other = fd
    · subst hother
      simp only [Worker.settle, Function.update_self] at hc'
      split at hc'
      · cases hc'
      · rename_i hopen
        cases hc'
        rcases settled.own with ⟨hown, served⟩ | ⟨hgone, -⟩
        · exact ⟨hown, hfd, served⟩
        · exact absurd hgone hopen
    · simp only [Worker.settle, Function.update_of_ne hother] at hc'
      obtain ⟨hconn, hne, served⟩ := serving.conns other c' hc'
      exact ⟨hconn, hne, served.sameEntry (settled.others other hother)⟩
  · intro other hnone
    by_cases hother : other = fd
    · subst hother
      simp only [Worker.settle, Function.update_self] at hnone
      split at hnone
      · rename_i hgone
        rcases settled.own with ⟨hopen, -⟩ | ⟨-, hnone⟩
        · exact absurd (hopen.symm.trans hgone) hfd
        · exact hnone
      · cases hnone
    · simp only [Worker.settle, Function.update_of_ne hother] at hnone
      obtain ⟨hevs, hkernel⟩ := serving.free other hnone
      have hsame := settled.others other hother
      exact ⟨hsame.ioEvs.trans hevs, hsame.kernel.trans hkernel⟩
  · exact serving.once
  · intro other events hmem
    by_cases hother : other = fd
    · subst hother
      exact hdue events hmem
    · exact (serving.due other events hmem).sameEntry (settled.others other hother)
  · intro other hread
    obtain ⟨hsome, hturn⟩ := serving.reading other hread
    refine ⟨?_, hturn⟩
    by_cases hother : other = fd
    · subst hother
      simp [Worker.settle, hreading hread]
    · simpa [Worker.settle, Function.update_of_ne hother] using hsome
  · exact serving.removed

/-- The descriptor at the front has its turn. -/
theorem Serving.tail (serving : w.Serving) {events : Mask} {rest : List (Int × Mask)}
    (hfired : w.fired = (fd, events) :: rest) :
    Serving { w with fired := rest } ∧ fd ∉ rest.map Prod.fst := by
  have honce := serving.once
  rw [hfired, List.map_cons, List.nodup_cons] at honce
  refine ⟨⟨serving.conns, serving.free, honce.2, ?_, ?_, serving.removed⟩, honce.1⟩
  · intro other events' hmem
    exact serving.due other events' (by rw [hfired]; exact List.mem_cons_of_mem _ hmem)
  · intro other hread
    obtain ⟨hsome, hturn⟩ := serving.reading other hread
    rw [hfired, List.map_cons, List.mem_cons, not_or] at hturn
    exact ⟨hsome, hturn.2⟩

/-- `do_read` begins, goes on or ends for a connection that has had its turn. -/
theorem Serving.withReading (serving : w.Serving) {loops : Bool} (hsome : w.conns fd ≠ none)
    (hturn : fd ∉ w.fired.map Prod.fst) :
    Serving { w with reading := if loops then some fd else none } := by
  refine ⟨serving.conns, serving.free, serving.once, serving.due, ?_, serving.removed⟩
  intro other hread
  simp only at hread
  split at hread
  · cases hread
    exact ⟨hsome, hturn⟩
  · cases hread

theorem beginRead_open {c c' : TcpConn} {env : ReadEnv}
    (hread : c.beginRead env = Except.ok (c', true)) : c'.connfd = c.connfd := by
  unfold TcpConn.beginRead at hread
  split at hread
  · cases hread
  · split_ifs at hread <;> cases hread
    rfl

theorem readRound_open {c c' : TcpConn} (hround : c.readRound = Except.ok (c', true)) :
    c'.connfd = c.connfd := by
  unfold TcpConn.readRound at hround
  split at hround
  · cases hround
  · cases hround
    rfl
  · cases hround

/-- An operation of an open connection that has had its turn, with the `do_read` that is under
    way behind it. -/
theorem Serving.operate (serving : w.Serving) {c c' : TcpConn} (hconn : w.conns fd = some c)
    (hturn : fd ∉ w.fired.map Prod.fst) (settled : TcpConn.Settled w.loop fd c') {loops : Bool}
    (hopen : loops = true → c'.connfd = c.connfd) :
    (({ w with reading := if loops then some fd else none } : Worker).settle fd c').Serving := by
  obtain ⟨hfd, hne, -⟩ := serving.conns fd c hconn
  have hreads : Serving { w with reading := if loops then some fd else none } :=
    serving.withReading (by rw [hconn]; simp) hturn
  refine hreads.settle settled hne ?_ ?_
  · intro events hmem
    exact absurd (List.mem_map_of_mem hmem) hturn
  · intro hread
    have hloops : loops = true := by
      by_contra hnot
      simp [hnot] at hread
    rw [hopen hloops, hfd]
    exact hne

end Steps

/-! ### The steps -/

section Step

variable {w : Worker} (serving : w.Serving)
include serving

theorem Serving.epollWait {batch : List (Int × Mask)} (hpossible : w.Possible (.epollWait batch)) :
    Serving { w with fired := batch } := by
  obtain ⟨-, hreading, honce, hreported⟩ := hpossible
  refine ⟨serving.conns, serving.free, honce, ?_, ?_, serving.removed⟩
  · intro fd events hmem
    obtain ⟨mask, hkernel, hevents⟩ := hreported fd events hmem
    rcases hconn : w.conns fd with _ | c
    · rw [(serving.free fd hconn).2] at hkernel
      cases hkernel
    · exact (serving.conns fd c hconn).2.2.due hkernel hevents
  · intro fd hread
    rw [hreading] at hread
    cases hread

/-- **A turn finds its callback and an open connection.** -/
theorem Serving.turn (env : ReadEnv) (results : List WriteResult) (hreading : w.reading = none) :
    Lands Serving InConn (w.step (.turn env results)) := by
  unfold Worker.step
  rcases hfired : w.fired with _ | ⟨⟨fd, events⟩, rest⟩
  · exact serving
  · have hdue := serving.due fd events (by rw [hfired]; exact List.mem_cons_self)
    obtain ⟨hserving, hturn⟩ := serving.tail hfired
    rcases hconn : w.conns fd with _ | c
    · obtain ⟨ev, hevs, -⟩ := hdue
      rw [(serving.free fd hconn).1] at hevs
      cases hevs
    obtain ⟨hfd, hne, served⟩ := serving.conns fd c hconn
    obtain ⟨dir, hdispatch⟩ := hdue.dispatch served
    simp only [hdispatch, callback, hconn]
    rcases dir with _ | _
    · simp only [TcpConn.procs]
      rcases hread : TcpConn.beginRead (borrow { w with fired := rest } c) env with
        crash | ⟨c', loops⟩
      · exact ⟨crash.fault, rfl⟩
      · have settled : TcpConn.Settled w.loop fd c' :=
          TcpConn.settled_beginRead (c := borrow { w with fired := rest } c) hfd served hread
        refine hserving.operate hconn hturn settled ?_
        rintro rfl
        have hopen := beginRead_open hread
        exact hopen
    · simp only [TcpConn.procs]
      rcases hwrite : TcpConn.doWrite (borrow { w with fired := rest } c) results with fault | c'
      · exact ⟨fault, rfl⟩
      · have settled : TcpConn.Settled w.loop fd c' :=
          TcpConn.settled_doWrite (c := borrow { w with fired := rest } c) hfd served hwrite
        refine hserving.settle settled hne ?_ ?_
        · intro events' hmem
          exact absurd (List.mem_map_of_mem hmem) hturn
        · intro hread
          rw [hreading] at hread
          cases hread

theorem Serving.readRound : Lands Serving InConn (w.step .readRound) := by
  unfold Worker.step
  rcases hreading : w.reading with _ | fd
  · exact serving
  · obtain ⟨hsome, hturn⟩ := serving.reading fd hreading
    rcases hconn : w.conns fd with _ | c
    · exact absurd hconn hsome
    obtain ⟨hfd, -, served⟩ := serving.conns fd c hconn
    simp only [hconn]
    rcases hround : TcpConn.readRound (w.borrow c) with crash | ⟨c', again⟩
    · exact ⟨crash.fault, rfl⟩
    · have settled : TcpConn.Settled w.loop fd c' :=
        TcpConn.settled_readRound (c := w.borrow c) hfd served hround
      refine serving.operate hconn hturn settled ?_
      rintro rfl
      have hopen := readRound_open hround
      exact hopen

/-- A registration of an open connection takes nothing away. -/
theorem Serving.registered {fd : Int} {c c' : TcpConn} (hconn : w.conns fd = some c)
    (dir : Direction) (ctlOk : Bool) (hfd' : c'.connfd = c.connfd)
    (hloop : c'.loop = w.loop.addIoEvent c.connfd (TcpConn.procs dir) dir.mask ctlOk) :
    (w.settle fd c').Serving := by
  obtain ⟨hfd, hne, served⟩ := serving.conns fd c hconn
  have settled := TcpConn.settled_addIoEvent (c := w.borrow c) hfd served dir ctlOk hfd' hloop
  refine serving.settle settled hne ?_ ?_
  · intro events hmem
    rw [hloop, hfd]
    exact (serving.due fd events hmem).addIoEvent _ dir ctlOk
  · intro _
    rw [hfd', hfd]
    exact hne

theorem Serving.send (fd : Int) (m : Message) (env : SendEnv) :
    Lands Serving InConn (w.step (.send fd m env)) := by
  unfold Worker.step
  rcases hconn : w.conns fd with _ | c
  · simp only [hconn]
    exact serving
  · simp only [hconn]
    rcases hsend : TcpConn.sendMessage (w.borrow c) m env with fault | ⟨ret, c'⟩
    · exact ⟨fault, rfl⟩
    · obtain ⟨hfd', hloop | hloop⟩ := TcpConn.sendMessage_loop hsend
      · obtain ⟨hfd, hne, served⟩ := serving.conns fd c hconn
        have settled := TcpConn.settled_same (c := w.borrow c) hfd served hfd' hloop
        refine serving.settle settled hne ?_ ?_
        · intro events hmem
          rw [hloop]
          exact serving.due fd events hmem
        · intro _
          rw [hfd']
          exact fun hclosed => hne (hfd.symm.trans hclosed)
      · exact serving.registered hconn .epollout env.ctlOk hfd' hloop

theorem Serving.newConn {fd : Int} (hpossible : w.Possible (.newConn fd)) :
    (w.settle fd (TcpConn.allocate fd w.loop w.server)).Serving := by
  obtain ⟨hne, hfree⟩ := hpossible
  obtain ⟨hevs, hkernel⟩ := serving.free fd hfree
  refine serving.settle ?_ hne ?_ fun _ => hne
  · exact ⟨fun _ _ => ⟨rfl, rfl⟩, Or.inl ⟨rfl, EventLoop.served_none hevs hkernel⟩⟩
  · exact fun events hmem => serving.due fd events hmem

end Step

/-- **No turn of `event_process` fails its assertion, calls NULL, or meets a closed connection.**
    Over every run of a worker thread (what `epoll_wait` reports, how reads, writes, handlers, tasks
    and new connections follow each other, which `add_io_event` the kernel refuses), its loop
    serves the open connections, and what ends the process is inside an operation of one of
    them. -/
theorem rounds_serve (w : Worker) (hserving : w.Serving) (steps : List WorkerStep)
    (hpossible : Meets step Possible w steps) : Safe step Serving InConn w steps := by
  refine safe_of_meets Serving (fun _ hserves => hserves) ?_ hserving hpossible
  intro w s serving hs
  rcases s with batch | ⟨env, results⟩ | _ | ⟨fd, m, env⟩ | fd | ⟨fd, ctlOk⟩
  · exact serving.epollWait hs
  · exact serving.turn env results hs
  · exact serving.readRound
  · exact serving.send fd m env
  · exact serving.newConn hs
  · unfold Worker.step
    rcases hconn : w.conns fd with _ | c
    · simp only [hconn]
      exact serving
    · simp only [hconn]
      exact serving.registered hconn .epollin ctlOk rfl rfl

/-- Two connections fire together; the first hangs up in its turn, which takes its entry out
    before the second has its own. -/
theorem rounds_serve_hangup :
    Safe step Serving InConn start
      [.newConn 7, .register 7 true, .newConn 8, .register 8 true,
        .epollWait [(7, .EPOLLIN), (8, .EPOLLIN)], .turn ⟨some 0, some [], []⟩ [],
        .turn ⟨some 0, some [], []⟩ []] := by
  apply rounds_serve start serving_start
  refine ⟨⟨by decide, rfl⟩, ?_⟩
  rintro _ ⟨rfl⟩
  refine ⟨trivial, ?_⟩
  rintro _ ⟨rfl⟩
  refine ⟨⟨by decide, rfl⟩, ?_⟩
  rintro _ ⟨rfl⟩
  refine ⟨trivial, ?_⟩
  rintro _ ⟨rfl⟩
  refine ⟨⟨rfl, rfl, by decide, ?_⟩, ?_⟩
  · intro fd events hmem
    rcases List.mem_cons.mp hmem with hfirst | hsecond
    · cases hfirst
      exact ⟨.EPOLLIN, rfl, fun _ hdir => hdir⟩
    · cases List.mem_singleton.mp hsecond
      exact ⟨.EPOLLIN, rfl, fun _ hdir => hdir⟩
  · rintro _ ⟨rfl⟩
    refine ⟨rfl, ?_⟩
    rintro _ ⟨rfl⟩
    exact ⟨rfl, fun _ _ => trivial⟩

end Worker

end LarsSystem.Reactor
