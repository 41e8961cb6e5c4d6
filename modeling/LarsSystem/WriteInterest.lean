import LarsSystem.TcpConn
import LarsSystem.Transition

/-!
# A connection of the server from its constructor to its end

The life of one `tcp_conn` on its event loop, in the steps between which somebody
else can look: the sends of the start hook, the registration for reading,
`do_write`, `clean_conn`, the sends of push tasks, and a `do_read` cut at its
calls of the router, so that the sends of the handlers stand where they happen.
Other connections work on the same loop in between.

`send_message` switches EPOLLOUT on when the output buffer stops being empty and
`do_write` switches it off when the buffer is empty again. The interest in the
descriptor is therefore always exactly what the connection needs: EPOLLIN once
the constructor is through, and EPOLLOUT as long as output is pending.
-/

namespace LarsSystem.Reactor

open LarsSystem.Transition

namespace TcpConn

/-! ## The pieces of the operations -/

/-- The constructor up to the hook. -/
def allocate (connfd : Int) (loop : EventLoop ConnCallback) (server : ConnTable) : TcpConn :=
  { connfd := connfd
    ibuf := ReactorBuf.empty
    obuf := ReactorBuf.empty
    loop := loop
    server := server
    calls := []
    accepted := []
    written := []
    closed := [] }

/-- The constructor behind the hook. -/
def register (c : TcpConn) (ctlOk : Bool) : TcpConn :=
  { c with
    loop := c.loop.addIoEvent c.connfd .connRdCallback .EPOLLIN ctlOk
    server := c.server.increaseConn c.connfd }

theorem create_eq (connfd : Int) (loop : EventLoop ConnCallback) (server : ConnTable)
    (ctlOk : Bool) :
    create connfd loop server ctlOk = (allocate connfd loop server).register ctlOk := rfl

/-- `do_read` up to its loop, and whether it gets there. -/
def beginRead (c : TcpConn) (env : ReadEnv) : Except Crash (TcpConn × Bool) :=
  match c.ibuf.readData env with
  | Except.error fault => Except.error ⟨fault, c.calls⟩
  | Except.ok (ret, ibuf) =>
    if ret = -1 then Except.ok ({ c with ibuf := ibuf }.cleanConn, false)
    else if ret = 0 then Except.ok ({ c with ibuf := ibuf }.cleanConn, false)
    else Except.ok ({ c with ibuf := ibuf }, true)

/-- One round of the loop of `do_read` with what follows the loop, and whether there is another
    round. What the handler of the round sends does not touch the input buffer. -/
def readRound (c : TcpConn) : Except Crash (TcpConn × Bool) :=
  match dispatchRound c.ibuf c.calls with
  | Except.error crash => Except.error crash
  | Except.ok (.again ibuf calls) => Except.ok ({ c with ibuf := ibuf, calls := calls }, true)
  | Except.ok (.leave ibuf calls malformed) =>
    let c := { c with ibuf := ibuf, calls := calls }
    let c := if malformed then c.cleanConn else c
    Except.ok ({ c with ibuf := c.ibuf.adjust }, false)

/-! ## What the operations do to the interest -/

/-- An open connection: its output buffer can be written, and its loop watches the descriptor for
    input if the constructor is through, and for output if there is any. -/
structure Tracks (c : TcpConn) (fd : Int) (constructed : Bool) : Prop where
  connfd : c.connfd = fd
  ready : c.obuf.Ready
  watched : c.loop.Watched fd ⟨constructed, decide (0 < c.obuf.length)⟩
    .connRdCallback .connWtCallback

/-- A closed connection. -/
structure Gone (c : TcpConn) (fd : Int) : Prop where
  connfd : c.connfd = -1
  ioEvs : c.loop.ioEvs fd = none
  kernel : c.loop.kernel fd = none
  ibuf : c.ibuf.length = 0
  obuf : c.obuf.length = 0

section Tracks

variable {c c' : TcpConn} {fd : Int} {constructed : Bool}

theorem tracks_allocate {loop : EventLoop ConnCallback} (hevs : loop.ioEvs fd = none)
    (hkernel : loop.kernel fd = none) (server : ConnTable) :
    (allocate fd loop server).Tracks fd false where
  connfd := rfl
  ready := ReactorBuf.ready_empty
  watched := EventLoop.watched_none hevs hkernel _ _

theorem Tracks.register (tracks : c.Tracks fd false) : (c.register true).Tracks fd true where
  connfd := tracks.connfd
  ready := tracks.ready
  watched := by
    have hmask : Mask.union ⟨false, decide (0 < c.obuf.length)⟩ .EPOLLIN =
        ⟨true, decide (0 < c.obuf.length)⟩ := by simp [Mask.union, Mask.EPOLLIN]
    have hwatched := tracks.watched.addRead
    rw [hmask, ← tracks.connfd] at hwatched
    rw [← tracks.connfd]
    exact hwatched

theorem gone_cleanConn (hconnfd : c.connfd = fd) : c.cleanConn.Gone fd := by
  rw [← hconnfd]
  exact ⟨rfl, EventLoop.delIoEvent_ioEvs c.loop c.connfd,
    EventLoop.closeFd_kernel (EventLoop.delIoEvent_kernel c.loop c.connfd) c.connfd, rfl, rfl⟩

/-- What leaves the descriptor, the output buffer and the loop alone. -/
theorem Tracks.input (tracks : c.Tracks fd constructed) (ibuf : ReactorBuf)
    (calls : List RouterCall) :
    TcpConn.Tracks { c with ibuf := ibuf, calls := calls } fd constructed :=
  ⟨tracks.connfd, tracks.ready, tracks.watched⟩

/-- **A send that fails with nothing pending only, keeps the interest right.** -/
theorem Tracks.sendMessage {m : Message} {env : SendEnv} {ret : Int}
    (tracks : c.Tracks fd constructed) (hctl : env.ctlOk = true)
    (hkept : 0 < c.obuf.length → ret = 0) (hsend : c.sendMessage m env = Except.ok (ret, c')) :
    c'.Tracks fd constructed := by
  unfold TcpConn.sendMessage at hsend
  split at hsend
  · cases hsend
  · rename_i ret' obuf active hqueue
    cases hsend
    have hwatched := tracks.watched
    obtain ⟨-, ⟨-, rfl, hready, hcontent, -⟩ | ⟨rfl, rfl, hcontent, hready⟩⟩ :=
      queueMessage_cases hqueue
    · have hlen : obuf.length = c.obuf.length + m.bytes.length := by
        rw [← ReactorBuf.content_length, hcontent, List.length_append,
          ReactorBuf.content_length]
      have hpos : 0 < obuf.length := by
        have hbytes := m.bytes_length
        have height : messageHeadLen = 8 := rfl
        omega
      refine ⟨tracks.connfd, hready, ?_⟩
      by_cases hzero : c.obuf.length = 0
      · -- the buffer stops being empty: EPOLLOUT is switched on
        have hadded := hwatched.addWrite
        simpa [hzero, hpos, hctl, tracks.connfd, Mask.union, Mask.EPOLLOUT] using hadded
      · simpa [hzero, hpos, Nat.pos_of_ne_zero hzero] using hwatched
    · have hzero : c.obuf.length = 0 := by
        by_contra hpending
        exact absurd (hkept (Nat.pos_of_ne_zero hpending)) (by decide)
      have hzero' : obuf.length = 0 := by
        rw [← ReactorBuf.content_length, hcontent (hready hzero), ReactorBuf.content_length, hzero]
      refine ⟨tracks.connfd, hready hzero, ?_⟩
      simpa [hzero, hzero'] using hwatched

/-- **`do_write` switches EPOLLOUT off exactly when the buffer is empty.** -/
theorem Tracks.doWrite {results : List WriteResult} (tracks : c.Tracks fd true)
    (hwrite : c.doWrite results = Except.ok c') : c'.Tracks fd true ∨ c'.Gone fd := by
  obtain ⟨obuf, taken, failed, hloop, hready, hcontent, -⟩ :=
    writeLoop_ready results tracks.ready
  have hlen : c.obuf.length = taken.length + obuf.length := by
    rw [← ReactorBuf.content_length, hcontent, List.length_append, ReactorBuf.content_length]
  have hwatched := tracks.watched
  simp only [TcpConn.doWrite, hloop] at hwrite
  split_ifs at hwrite with hfailed hzero
  · cases hwrite
    exact Or.inr (gone_cleanConn tracks.connfd)
  · cases hwrite
    refine Or.inl ⟨tracks.connfd, hready, ?_⟩
    have hdeleted := hwatched.delWrite rfl
    simpa [hzero, tracks.connfd, Mask.without, Mask.EPOLLOUT] using hdeleted
  · cases hwrite
    have hpos : 0 < obuf.length := Nat.pos_of_ne_zero hzero
    have hpos' : 0 < c.obuf.length := by omega
    refine Or.inl ⟨tracks.connfd, hready, ?_⟩
    simpa [hpos, hpos'] using hwatched

theorem Tracks.beginRead {env : ReadEnv} {loops : Bool} (tracks : c.Tracks fd true)
    (hread : c.beginRead env = Except.ok (c', loops)) : c'.Tracks fd true ∨ c'.Gone fd := by
  unfold TcpConn.beginRead at hread
  split at hread
  · cases hread
  · rename_i ret ibuf _
    have htracks := tracks.input ibuf c.calls
    split_ifs at hread <;> cases hread
    · exact Or.inr (gone_cleanConn htracks.connfd)
    · exact Or.inr (gone_cleanConn htracks.connfd)
    · exact Or.inl htracks

theorem Tracks.readRound {again : Bool} (tracks : c.Tracks fd true)
    (hround : c.readRound = Except.ok (c', again)) : c'.Tracks fd true ∨ c'.Gone fd := by
  unfold TcpConn.readRound at hround
  split at hround
  · cases hround
  · cases hround
    exact Or.inl (tracks.input _ _)
  · rename_i ibuf calls malformed _
    have htracks := tracks.input ibuf calls
    cases hround
    cases malformed with
    | false => exact Or.inl ⟨htracks.connfd, htracks.ready, htracks.watched⟩
    | true =>
      obtain ⟨hconnfd, hevs, hkernel, -, hobuf⟩ := gone_cleanConn htracks.connfd
      exact Or.inr ⟨hconnfd, hevs, hkernel, rfl, hobuf⟩

end Tracks

end TcpConn

/-! ## The life of a connection -/

inductive ConnPhase where
  | constructing
  | idle
  | reading      -- inside `do_read`
  | closed
deriving DecidableEq

structure ConnLife where
  phase : ConnPhase
  conn : TcpConn

inductive ConnStep where
  | send (m : Message) (env : SendEnv)
  | register (ctlOk : Bool)
  | beginRead (env : ReadEnv)
  | readRound
  | doWrite (results : List WriteResult)
  | cleanConn
  | others (loop : EventLoop ConnCallback)

namespace ConnLife

def start (connfd : Int) (loop : EventLoop ConnCallback) (server : ConnTable) : ConnLife :=
  ⟨.constructing, TcpConn.allocate connfd loop server⟩

/-- Where an operation that leaves the connection `c` leads to, if it is not closed. -/
def settle (phase : ConnPhase) (c : TcpConn) : ConnLife :=
  ⟨if c.connfd = -1 then .closed else phase, c⟩

/-- One step; `none` where the step is not possible or the process dies in it. -/
def next (l : ConnLife) : ConnStep → Option ConnLife
  | .send m env =>
    if l.phase = .closed then none
    else
      match l.conn.sendMessage m env with
      | Except.error _ => none
      | Except.ok (_, c) => some ⟨l.phase, c⟩
  | .register ctlOk =>
    if l.phase = .constructing then some ⟨.idle, l.conn.register ctlOk⟩ else none
  | .beginRead env =>
    if l.phase = .idle then
      match l.conn.beginRead env with
      | Except.error _ => none
      | Except.ok (c, loops) => some (settle (if loops then .reading else .idle) c)
    else none
  | .readRound =>
    if l.phase = .reading then
      match l.conn.readRound with
      | Except.error _ => none
      | Except.ok (c, again) => some (settle (if again then .reading else .idle) c)
    else none
  | .doWrite results =>
    if l.phase = .idle then
      match l.conn.doWrite results with
      | Except.error _ => none
      | Except.ok c => some (settle .idle c)
    else none
  | .cleanConn => if l.phase = .idle then some (settle .idle l.conn.cleanConn) else none
  | .others loop =>
    if l.phase = .closed then none else some ⟨l.phase, { l.conn with loop := loop }⟩

/-- What a step may rely on: `epoll_ctl` succeeds, `send_message` does not fail while bytes are
    pending, and the other connections keep to their own descriptors. -/
def Allowed (l : ConnLife) : ConnStep → Prop
  | .send m env => env.ctlOk = true ∧ (0 < l.conn.obuf.length → ∀ ret c,
      l.conn.sendMessage m env = Except.ok (ret, c) → ret = 0)
  | .register ctlOk => ctlOk = true
  | .others loop => EventLoop.SameEntry l.conn.loop loop l.conn.connfd
  | _ => True

/-- The interest in the descriptor `fd` is what the connection needs. -/
structure Interest (l : ConnLife) (fd : Int) : Prop where
  connfd : l.phase ≠ .closed → l.conn.connfd = fd
  reading : l.phase ≠ .closed → l.phase ≠ .constructing →
    l.conn.loop.Reading fd .connRdCallback
  writing : l.phase ≠ .closed →
    (l.conn.loop.Writing fd .connWtCallback ↔ 0 < l.conn.obuf.length)
  epollout : l.phase ≠ .closed → (l.conn.loop.HasEpollout fd ↔ 0 < l.conn.obuf.length)
  closed : l.phase = .closed → l.conn.loop.ioEvs fd = none ∧ l.conn.loop.kernel fd = none ∧
    l.conn.ibuf.length = 0 ∧ l.conn.obuf.length = 0

/-- The rounds of one loop. -/
theorem run_readRounds {ibuf ibuf' : ReactorBuf} {calls calls' : List RouterCall}
    {malformed : Bool}
    (hloop : dispatchLoop ibuf calls = Except.ok (ibuf', calls', malformed)) {c : TcpConn}
    (hopen : c.connfd ≠ -1) :
    let d := { c with ibuf := ibuf', calls := calls' }
    let d := if malformed then d.cleanConn else d
    ∃ rounds, Run (ofOption next) ⟨.reading, { c with ibuf := ibuf, calls := calls }⟩
      (List.replicate rounds .readRound) (settle .idle { d with ibuf := d.ibuf.adjust }) := by
  induction ibuf, calls using dispatchLoop.induct with
  | case1 ibuf calls crash hround =>
    rw [dispatchLoop_error hround] at hloop
    cases hloop
  | case2 ibuf calls ibuf' calls' malformed hround =>
    rw [dispatchLoop_leave hround] at hloop
    cases hloop
    refine ⟨1, Run.cons ?_ (Run.nil _)⟩
    simp [ofOption, next, TcpConn.readRound, hround]
  | case3 ibuf calls rest more hround ih =>
    rw [dispatchLoop_again hround] at hloop
    obtain ⟨rounds, run⟩ := ih hloop
    refine ⟨rounds + 1, Run.cons ?_ run⟩
    simp [ofOption, next, TcpConn.readRound, hround, settle, hopen]

/-- **The steps of a `do_read` in which no handler sends make up `TcpConn.doRead`.** -/
theorem run_doRead {c c' : TcpConn} {env : ReadEnv} (hread : c.doRead env = Except.ok c')
    (hopen : c.connfd ≠ -1) :
    ∃ rounds, Run (ofOption next) ⟨.idle, c⟩
      (.beginRead env :: List.replicate rounds .readRound) (settle .idle c') := by
  unfold TcpConn.doRead at hread
  split at hread
  · cases hread
  · rename_i ret ibuf hfilled
    split_ifs at hread with herror hend
    · cases hread
      refine ⟨0, Run.cons ?_ (Run.nil _)⟩
      simp [ofOption, next, TcpConn.beginRead, hfilled, herror]
    · cases hread
      refine ⟨0, Run.cons ?_ (Run.nil _)⟩
      simp [ofOption, next, TcpConn.beginRead, hfilled, hend]
    · split at hread
      · cases hread
      · rename_i rest calls malformed hloop
        cases hread
        obtain ⟨rounds, run⟩ := run_readRounds hloop hopen
        refine ⟨rounds, Run.cons ?_ run⟩
        simp [ofOption, next, TcpConn.beginRead, hfilled, herror, hend, settle, hopen]

/-! ## Every run -/

/-- What every step keeps. -/
structure Inv (l : ConnLife) (fd : Int) : Prop where
  tracks : l.phase ≠ .closed → l.conn.Tracks fd (decide (l.phase ≠ .constructing))
  gone : l.phase = .closed → l.conn.Gone fd

theorem Inv.settle {c : TcpConn} {fd : Int} (hfd : fd ≠ -1)
    (h : c.Tracks fd true ∨ c.Gone fd) {phase : ConnPhase} (hphase : phase ≠ .closed)
    (hthrough : phase ≠ .constructing) : (settle phase c).Inv fd := by
  rcases h with tracks | gone
  · have hopen : c.connfd ≠ -1 := by rw [tracks.connfd]; exact hfd
    rw [ConnLife.settle, if_neg hopen]
    refine ⟨fun _ => ?_, fun hclosed => absurd hclosed hphase⟩
    simpa [hthrough] using tracks
  · rw [ConnLife.settle, if_pos gone.connfd]
    exact ⟨fun hopen => absurd rfl hopen, fun _ => gone⟩

theorem Inv.step {l l' : ConnLife} {fd : Int} {step : ConnStep} (hfd : fd ≠ -1)
    (hinv : l.Inv fd) (hallowed : l.Allowed step) (hstep : l.next step = some l') :
    l'.Inv fd := by
  -- the operations between two events of the loop
  have hidle : ∀ {phase : ConnPhase}, l.phase = phase → phase ≠ .closed →
      phase ≠ .constructing → l.conn.Tracks fd true := by
    rintro phase rfl hopen hthrough
    simpa [hthrough] using hinv.tracks hopen
  cases step with
  | send m env =>
    simp only [next] at hstep
    split_ifs at hstep with hclosed
    split at hstep
    · cases hstep
    · rename_i ret c hsend
      cases hstep
      exact ⟨fun hopen => (hinv.tracks hopen).sendMessage hallowed.1
        (fun hpending => hallowed.2 hpending ret c hsend) hsend, fun h => absurd h hclosed⟩
  | register ctlOk =>
    cases hallowed
    simp only [next] at hstep
    split_ifs at hstep with hphase
    cases hstep
    have htracks := hinv.tracks (by rw [hphase]; decide)
    rw [hphase] at htracks
    exact ⟨fun _ => htracks.register, nofun⟩
  | beginRead env =>
    simp only [next] at hstep
    split_ifs at hstep with hphase
    split at hstep
    · cases hstep
    · rename_i c loops hread
      cases hstep
      have htracks := hidle hphase (by decide) (by decide)
      exact Inv.settle hfd (htracks.beginRead hread) (by cases loops <;> decide)
        (by cases loops <;> decide)
  | readRound =>
    simp only [next] at hstep
    split_ifs at hstep with hphase
    split at hstep
    · cases hstep
    · rename_i c again hround
      cases hstep
      have htracks := hidle hphase (by decide) (by decide)
      exact Inv.settle hfd (htracks.readRound hround) (by cases again <;> decide)
        (by cases again <;> decide)
  | doWrite results =>
    simp only [next] at hstep
    split_ifs at hstep with hphase
    split at hstep
    · cases hstep
    · rename_i c hwrite
      cases hstep
      have htracks := hidle hphase (by decide) (by decide)
      exact Inv.settle hfd (htracks.doWrite hwrite) (by decide) (by decide)
  | cleanConn =>
    simp only [next] at hstep
    split_ifs at hstep with hphase
    cases hstep
    have htracks := hidle hphase (by decide) (by decide)
    exact Inv.settle hfd (Or.inr (TcpConn.gone_cleanConn htracks.connfd)) (by decide) (by decide)
  | others loop =>
    simp only [next] at hstep
    split_ifs at hstep with hclosed
    cases hstep
    refine ⟨fun hopen => ?_, fun h => absurd h hclosed⟩
    obtain ⟨hconnfd, hready, hwatched⟩ := hinv.tracks hopen
    have hsame : EventLoop.SameEntry l.conn.loop loop fd := hconnfd ▸ hallowed
    exact ⟨hconnfd, hready, hwatched.sameEntry hsame⟩

theorem Inv.interest {l : ConnLife} {fd : Int} (hinv : l.Inv fd) : l.Interest fd where
  connfd hopen := (hinv.tracks hopen).connfd
  reading hopen hthrough := (hinv.tracks hopen).watched.reading (by simpa using hthrough)
  writing hopen := (hinv.tracks hopen).watched.writing_iff.trans decide_eq_true_iff
  epollout hopen :=
    (hinv.tracks hopen).watched.hasEpollout_iff.trans
      ((hinv.tracks hopen).watched.writing_iff.trans decide_eq_true_iff)
  closed hclosed :=
    have hgone := hinv.gone hclosed
    ⟨hgone.ioEvs, hgone.kernel, hgone.ibuf, hgone.obuf⟩

/-- **Queued output always has write interest.** After every step of every run the loop listens
    for output of an open connection exactly if some is pending, and for input once the
    constructor is through; of a closed connection nothing is left. -/
theorem run_interest {fd : Int} {loop : EventLoop ConnCallback} {server : ConnTable}
    {steps : List ConnStep} {l : ConnLife} (hfd : fd ≠ -1) (hevs : loop.ioEvs fd = none)
    (hkernel : loop.kernel fd = none)
    (run : Run (Guarded Allowed (ofOption next)) (start fd loop server) steps l) :
    l.Interest fd := by
  have hstart : (start fd loop server).Inv fd :=
    ⟨fun _ => TcpConn.tracks_allocate hevs hkernel server, nofun⟩
  have hkept : ∀ l step l', l.Inv fd → Guarded Allowed (ofOption next) l step l' → l'.Inv fd :=
    fun _ _ _ hinv hstep => hinv.step hfd hstep.1 hstep.2
  exact (run.invariant hkept hstart).interest

/-- The start hook sends a message of one byte before the descriptor is registered for reading. -/
theorem run_interest_early_send :
    ∃ l, Run (Guarded Allowed (ofOption next)) (start 5 EventLoop.empty ⟨fun _ => false, 0⟩)
        [.send ⟨1, [65], by decide⟩ ⟨[], [], true⟩, .register true] l ∧
      0 < l.conn.obuf.length ∧ l.Interest 5 := by
  obtain ⟨obuf, hqueue, -, hcontent⟩ := queueMessage_accepted (m := ⟨1, [65], by decide⟩)
    ⟨[], [], true⟩ ReactorBuf.ready_empty (by decide)
  have hlen : obuf.length = 9 := by
    rw [← ReactorBuf.content_length, hcontent]
    rfl
  have hfirst : ∃ c, (start 5 EventLoop.empty ⟨fun _ => false, 0⟩).next
      (.send ⟨1, [65], by decide⟩ ⟨[], [], true⟩) = some ⟨.constructing, c⟩ ∧ c.obuf = obuf := by
    simp only [next, start, TcpConn.sendMessage, TcpConn.allocate, hqueue]
    exact ⟨_, rfl, rfl⟩
  obtain ⟨c, hsend, hobuf⟩ := hfirst
  have run : Run (Guarded Allowed (ofOption next)) (start 5 EventLoop.empty ⟨fun _ => false, 0⟩)
      [.send ⟨1, [65], by decide⟩ ⟨[], [], true⟩, .register true] ⟨.idle, c.register true⟩ :=
    Run.cons ⟨⟨rfl, fun hpending => absurd hpending (by decide)⟩, hsend⟩
      (Run.cons ⟨rfl, rfl⟩ (Run.nil _))
  refine ⟨_, run, ?_, run_interest (by decide) rfl rfl run⟩
  change 0 < c.obuf.length
  rw [hobuf, hlen]
  decide

end ConnLife

end LarsSystem.Reactor
