import LarsSystem.ClientRun

/-!
# The connection state of a `tcp_client`

The completion of a connect and the writing of messages use the same slot of one
`io_event`. Where nothing else has been put there before the completion event,
`connection_succ` runs once, calls the start hook and registers the socket for
reading; a message that is accepted into an empty output buffer before that puts
`client_wr_callback` into the slot, and the socket is never read. A connect that
succeeds at once goes through `connection_succ` as well, which calls the start
hook a second time.
-/

namespace LarsSystem.Reactor

open LarsSystem.MachineWord
open LarsSystem.LengthFraming
open LarsSystem.Transition

/-- `epoll_ctl` takes the registration for reading and those of the start hook's sends. -/
def SuccEnv.Accepts (env : SuccEnv) : Prop :=
  env.ctlRead = true ∧ ∀ send ∈ env.startSends, send.2.ctlOk = true

namespace TcpClient

/-- **What a completed connection promises**: it is read with `client_rd_callback`, and
    the start hook, where one was registered, has been called once for it. -/
def ConnectionReady (c : TcpClient) : Prop :=
  c.phase = .established → c.completed = true →
    c.loop.Reading c.sockfd .clientRdCallback ∧ c.startCalls = if c.startDue then 1 else 0

/-- No message goes into an empty output buffer before the completion event of a connect
    that is not refused; no connect succeeds at once while a start hook is registered;
    and `connection_succ` gets its registrations. -/
def KeepsSlot (c : TcpClient) : ClientEvent → Prop
  | .send m _ =>
    c.phase ≠ .refused → c.completed = false → c.obuf.length = 0 → maxBytes < m.bytes.length
  | .fire fired env =>
    (c.loop.dispatch c.sockfd fired = .call .connectionSucc → env.succ.Accepts) ∧
      (env.clean.connect.connect = .success →
        c.connStartCb = false ∧ env.clean.connect.succ.ctlRead = true)
  | _ => True

/-! ## The loop under `send_message` and the hooks

A send registers the current socket for writing or leaves the loop alone, so a
property of the loop that such a registration keeps survives any sends. -/

section Sends

variable {c c' : TcpClient}

/-- The socket, what its connect has come to, and the hooks. -/
structure SameSocket (c c' : TcpClient) : Prop where
  sockfd : c'.sockfd = c.sockfd
  phase : c'.phase = c.phase
  completed : c'.completed = c.completed
  startDue : c'.startDue = c.startDue
  connStartCb : c'.connStartCb = c.connStartCb

theorem SameSocket.refl : SameSocket c c := ⟨rfl, rfl, rfl, rfl, rfl⟩

theorem SameSocket.trans {c'' : TcpClient} (first : SameSocket c c')
    (second : SameSocket c' c'') : SameSocket c c'' :=
  ⟨second.sockfd.trans first.sockfd, second.phase.trans first.phase,
    second.completed.trans first.completed, second.startDue.trans first.startDue,
    second.connStartCb.trans first.connStartCb⟩

theorem sendMessage_loop {m : Message} {env : SendEnv} {ret : Int}
    (hsend : c.sendMessage m env = Except.ok (ret, c')) :
    SameSocket c c' ∧ c'.startCalls = c.startCalls ∧
      (c'.loop = c.loop ∨
        c.obuf.length = 0 ∧ c.obuf.length + m.bytes.length ≤ maxBytes ∧
          c'.loop = c.loop.addIoEvent c.sockfd .clientWrCallback .EPOLLOUT env.ctlOk) := by
  unfold sendMessage at hsend
  split at hsend
  · cases hsend
  · rename_i ret' obuf active hqueue
    cases hsend
    refine ⟨⟨rfl, rfl, rfl, rfl, rfl⟩, rfl, ?_⟩
    obtain ⟨-, ⟨-, hactive, -, -, hfits⟩ | ⟨-, hactive, -⟩⟩ := queueMessage_cases hqueue
    · by_cases hzero : c.obuf.length = 0
      · exact Or.inr ⟨hzero, hfits, by simp [hactive, hzero]⟩
      · exact Or.inl (by simp [hactive, hzero])
    · exact Or.inl (by simp [hactive])

theorem sendAll_loop {p : EventLoop ClientCallback → Prop} {sends : HookSends}
    (kept : ∀ loop, p loop → ∀ send ∈ sends,
      p (loop.addIoEvent c.sockfd .clientWrCallback .EPOLLOUT send.2.ctlOk))
    (hsend : c.sendAll sends = Except.ok c') (hp : p c.loop) :
    SameSocket c c' ∧ c'.startCalls = c.startCalls ∧ p c'.loop := by
  induction sends generalizing c with
  | nil =>
    cases hsend
    exact ⟨SameSocket.refl, rfl, hp⟩
  | cons send sends ih =>
    obtain ⟨m, env⟩ := send
    rw [sendAll] at hsend
    split at hsend
    · cases hsend
    · rename_i ret d hfirst
      obtain ⟨hsame, hcalls, hloop⟩ := sendMessage_loop hfirst
      have hp' : p d.loop := by
        rcases hloop with hloop | ⟨-, -, hloop⟩
        · rw [hloop]
          exact hp
        · rw [hloop]
          exact kept _ hp _ List.mem_cons_self
      have kept' : ∀ loop, p loop → ∀ send ∈ sends,
          p (loop.addIoEvent d.sockfd .clientWrCallback .EPOLLOUT send.2.ctlOk) := by
        intro loop hloop send hmem
        rw [hsame.sockfd]
        exact kept loop hloop send (List.mem_cons_of_mem _ hmem)
      obtain ⟨hsame', hcalls', hlast⟩ := ih kept' hsend hp'
      exact ⟨hsame.trans hsame', hcalls'.trans hcalls, hlast⟩

theorem startHook_loop {p : EventLoop ClientCallback → Prop} {sends : HookSends}
    (kept : c.connStartCb = true → ∀ loop, p loop → ∀ send ∈ sends,
      p (loop.addIoEvent c.sockfd .clientWrCallback .EPOLLOUT send.2.ctlOk))
    (hhook : c.startHook sends = Except.ok c') (hp : p c.loop) :
    SameSocket c c' ∧ c'.startCalls = c.startCalls + (if c.connStartCb then 1 else 0) ∧
      p c'.loop := by
  unfold startHook at hhook
  split at hhook
  · rename_i hregistered
    obtain ⟨hsame, hcalls, hloop⟩ := sendAll_loop
      (c := { c with startCalls := c.startCalls + 1 }) (kept hregistered) hhook hp
    refine ⟨⟨hsame.1, hsame.2, hsame.3, hsame.4, hsame.5⟩, ?_, hloop⟩
    rw [hcalls, if_pos hregistered]
  · rename_i hnone
    cases hhook
    exact ⟨SameSocket.refl, by rw [if_neg hnone]; rfl, hp⟩

theorem closeHook_loop {p : EventLoop ClientCallback → Prop} {sends : HookSends}
    (kept : ∀ loop, p loop → ∀ send ∈ sends,
      p (loop.addIoEvent c.sockfd .clientWrCallback .EPOLLOUT send.2.ctlOk))
    (hhook : c.closeHook sends = Except.ok c') (hp : p c.loop) :
    SameSocket c c' ∧ p c'.loop := by
  unfold closeHook at hhook
  split at hhook
  · obtain ⟨hsame, -, hloop⟩ := sendAll_loop kept hhook hp
    exact ⟨hsame, hloop⟩
  · cases hhook
    exact ⟨SameSocket.refl, hp⟩

end Sends

/-! ## `connection_succ` -/

/-- The registrations of an established connection, where the table and the epoll set
    agree. -/
theorem watch_reading {c : TcpClient} {fd : Int} (ctlWrite : Bool) (hmatched : c.loop.Matched fd)
    (hfree : c.loop.WriteFree fd .connectionSucc) :
    (c.watch fd true ctlWrite).loop.Reading fd .clientRdCallback ∧
      (c.watch fd true ctlWrite).loop.WriteFree fd .connectionSucc := by
  have hreading := hmatched.reading ClientCallback.clientRdCallback
  unfold watch
  simp only
  split
  · exact ⟨hreading.addWrite ctlWrite,
      EventLoop.WriteFree.addWrite (fun hsame => ClientCallback.noConfusion hsame) ctlWrite⟩
  · exact ⟨hreading, hfree.addRead _ true⟩

/-- An established socket gets its registration for reading, and the start hook its
    call. -/
theorem connectionSucc_ready {c c' : TcpClient} {env : SuccEnv} (hphase : c.phase ≠ .refused)
    (hread : env.ctlRead = true)
    (hsends : c.connStartCb = true → ∀ send ∈ env.startSends, send.2.ctlOk = true)
    (hsucc : c.connectionSucc c.sockfd env = Except.ok c') :
    SameSocket c c' ∧ c'.startCalls = c.startCalls + (if c.connStartCb then 1 else 0) ∧
      c'.loop.Reading c.sockfd .clientRdCallback ∧
      c'.loop.WriteFree c.sockfd .connectionSucc := by
  unfold connectionSucc at hsucc
  simp only [ne_eq, hphase, not_false_eq_true, if_true] at hsucc
  split at hsucc
  · cases hsucc
  · rename_i d hhook
    cases hsucc
    -- the sends of the hook find no entry, or one that `connection_succ` is not in
    obtain ⟨hsame, hcalls, hmatched, hfree⟩ := startHook_loop
      (p := fun loop => loop.Matched c.sockfd ∧ loop.WriteFree c.sockfd .connectionSucc)
      (fun hregistered loop hloop send hmem => by
        rw [hsends hregistered send hmem]
        exact ⟨hloop.1.addIoEvent _ _,
          EventLoop.WriteFree.addWrite (fun hsame => ClientCallback.noConfusion hsame) true⟩)
      hhook ⟨c.loop.matched_delIoEvent c.sockfd, c.loop.writeFree_delIoEvent c.sockfd _⟩
    rw [hread]
    obtain ⟨hreading, hfree'⟩ := watch_reading env.ctlWrite hmatched hfree
    exact ⟨⟨hsame.1, hsame.2, hsame.3, hsame.4, hsame.5⟩, hcalls, hreading, hfree'⟩

/-! ## The invariant -/

/-- The write slot of the only registration waits for the completion of the connect; if
    the epoll set does not have the socket, no event comes. -/
def Waiting (c : TcpClient) : Prop :=
  c.startCalls = 0 ∧
    (c.loop.kernel c.sockfd = none ∨
      c.loop.ioEvs c.sockfd = some ⟨.EPOLLOUT, none, some .connectionSucc⟩ ∧
        c.loop.kernel c.sockfd = some .EPOLLOUT)

/-- The socket is read, and `connection_succ` is not called again. -/
def Connected (c : TcpClient) : Prop :=
  c.loop.Reading c.sockfd .clientRdCallback ∧ c.loop.WriteFree c.sockfd .connectionSucc ∧
    c.startCalls = if c.startDue then 1 else 0

/-- A socket that is not refused waits until its completion event and is connected
    after it; of a refused one nothing is known. -/
structure SlotInv (c : TcpClient) : Prop where
  socket : c.sockfd ≠ -1
  connecting : c.phase = .connecting → c.completed = false
  waiting : c.phase ≠ .refused → c.completed = false → c.Waiting
  connected : c.phase ≠ .refused → c.completed = true → c.Connected

theorem SlotInv.ready {c : TcpClient} (hinv : SlotInv c) : c.ConnectionReady := by
  intro hphase hcompleted
  obtain ⟨hreading, -, hcalls⟩ := hinv.connected (by rw [hphase]; simp) hcompleted
  exact ⟨hreading, hcalls⟩

theorem SlotInv.refused {c : TcpClient} (hsocket : c.sockfd ≠ -1) (hphase : c.phase = .refused) :
    SlotInv c := by
  constructor
  · exact hsocket
  · intro hconnecting
    exact SocketPhase.noConfusion (hphase.symm.trans hconnecting)
  · exact fun hne => absurd hphase hne
  · exact fun hne => absurd hphase hne

/-- After `connection_succ` on an established socket. -/
theorem SlotInv.succeeded {c c' : TcpClient} {env : SuccEnv}
    (hsucc : c.connectionSucc c.sockfd env = Except.ok c') (hsocket : c.sockfd ≠ -1)
    (hphase : c.phase = .established) (hcompleted : c.completed = true)
    (hcalls : c.startCalls + (if c.connStartCb then 1 else 0) = if c.startDue then 1 else 0)
    (hread : env.ctlRead = true)
    (hsends : c.connStartCb = true → ∀ send ∈ env.startSends, send.2.ctlOk = true) :
    SlotInv c' := by
  obtain ⟨hsame, hcalls', hreading, hfree⟩ :=
    connectionSucc_ready (by rw [hphase]; simp) hread hsends hsucc
  constructor
  · rw [hsame.sockfd]
    exact hsocket
  · intro hconnecting
    exact SocketPhase.noConfusion (hconnecting.symm.trans (hsame.phase.trans hphase))
  · intro _ hnot
    exact Bool.noConfusion (hnot.symm.trans (hsame.completed.trans hcompleted))
  · intro _ _
    refine ⟨?_, ?_, ?_⟩
    · rw [hsame.sockfd]
      exact hreading
    · rw [hsame.sockfd]
      exact hfree
    · rw [hcalls', hsame.startDue]
      exact hcalls

theorem openSocket_startDue (c : TcpClient) (socket : Int) (connect : ConnectResult) :
    (c.openSocket socket connect).connStartCb = c.connStartCb ∧
      (c.openSocket socket connect).startDue = c.connStartCb := by
  unfold openSocket
  split <;> exact ⟨rfl, rfl⟩

/-- The start of a connection on a descriptor that the epoll set does not have. -/
theorem SlotInv.connects {c c' : TcpClient} {env : ConnectEnv}
    (hconnect : c.doConnect env = Except.ok c')
    (hfresh : (c.openSocket env.socket env.connect).loop.kernel env.socket = none)
    (hsuccess : env.connect = .success → c.connStartCb = false ∧ env.succ.ctlRead = true) :
    SlotInv c' := by
  unfold doConnect at hconnect
  simp only at hconnect
  split at hconnect
  · cases hconnect
  · rename_i hsocket
    split at hconnect
    · -- `connection_succ` starts over what `do_connect` has registered
      rename_i hres
      obtain ⟨hnone, hread⟩ := hsuccess hres
      obtain ⟨hcb, hdue⟩ := c.openSocket_startDue env.socket env.connect
      rw [hnone] at hcb hdue
      split at hconnect
      · cases hconnect
      · rename_i d hhook
        rw [startHook, hcb] at hhook
        cases hhook
        refine SlotInv.succeeded hconnect hsocket ?_ ?_ ?_ hread ?_
        · exact if_pos hres
        · exact decide_eq_true hres
        · simp only [watch, hcb, hdue]
          rfl
        · intro hregistered
          exact Bool.noConfusion (hregistered.symm.trans hcb)
    · rename_i hres
      cases hconnect
      have hwait := EventLoop.addIoEvent_waiting hfresh ClientCallback.connectionSucc env.ctlWrite
      rw [hres]
      rw [hres] at hwait
      refine ⟨hsocket, fun _ => rfl, fun _ _ => ⟨rfl, hwait⟩, ?_⟩
      intro _ hcompleted
      cases hcompleted
    · cases hconnect

/-- A disconnect: the kernel has forgotten the old descriptor when the new one is
    opened. -/
theorem SlotInv.reconnects {c c' : TcpClient} {clean : CleanEnv}
    (hclean : c.cleanConn clean = Except.ok c') (hsocket : c.sockfd ≠ -1)
    (hdisconnects : c.Disconnects clean)
    (hsuccess : clean.connect.connect = .success →
      c.connStartCb = false ∧ clean.connect.succ.ctlRead = true) : SlotInv c' := by
  obtain ⟨hfresh, hrefused⟩ := hdisconnects
  unfold cleanConn at hclean
  split at hclean
  · cases hclean
  · rename_i old hhook
    have hloop : c.closeSocket.loop = (c.loop.delIoEvent c.sockfd).closeFd c.sockfd := by
      unfold closeSocket
      rw [if_pos hsocket]
      rfl
    have hclosed : c.closeSocket.loop.kernel clean.connect.socket = none := by
      rw [hloop]
      apply EventLoop.closeFd_kernel
      rcases hfresh with hsame | hkernel
      · rw [hsame]
        exact EventLoop.delIoEvent_kernel _ _
      · exact EventLoop.delIoEvent_kernel_none hkernel _
    obtain ⟨hsame, hkernel⟩ := closeHook_loop
      (p := fun loop => loop.kernel clean.connect.socket = none)
      (fun loop hloop send hmem => by
        rw [hrefused send hmem, EventLoop.addIoEvent_refused]
        exact hloop) hhook hclosed
    have hcb : old.connStartCb = c.connStartCb := by
      rw [hsame.connStartCb]
      unfold closeSocket
      split <;> rfl
    apply SlotInv.connects hclean
    · unfold openSocket
      split
      · exact EventLoop.closeFd_kernel hkernel _
      · exact hkernel
    · rw [hcb]
      exact hsuccess

/-! ## One event -/

/-- `c'` has read more than `c`, and is otherwise the same. -/
def Reads (c c' : TcpClient) : Prop :=
  ∃ ibuf received calls dispatched, c' = { c with
    ibuf := ibuf
    received := received
    calls := calls
    dispatched := dispatched }

theorem reads_refl (c : TcpClient) : c.Reads c := ⟨_, _, _, _, rfl⟩

theorem SlotInv.reads {c c' : TcpClient} (hinv : SlotInv c) (hreads : c.Reads c') :
    SlotInv c' := by
  obtain ⟨ibuf, received, calls, dispatched, rfl⟩ := hreads
  exact ⟨hinv.socket, hinv.connecting, hinv.waiting, hinv.connected⟩

/-- A read event reads, and may disconnect after that. -/
theorem doRead_reads {c c' : TcpClient} {env : ReadEnv} {clean : CleanEnv}
    (hread : c.doRead env clean = Except.ok c') :
    c.Reads c' ∨ ∃ d e, c.Reads d ∧ d.cleanConn clean = Except.ok e ∧ e.Reads c' := by
  unfold doRead at hread
  split at hread
  · cases hread
  · rename_i ret ibuf hdata
    simp only at hread
    split at hread
    · exact Or.inr ⟨_, c', ⟨ibuf, _, c.calls, c.dispatched, rfl⟩, ok_of_mapError hread,
        c'.reads_refl⟩
    · split at hread
      · exact Or.inr ⟨_, c', ⟨ibuf, _, c.calls, c.dispatched, rfl⟩, ok_of_mapError hread,
          c'.reads_refl⟩
      · split at hread
        · cases hread
        · rename_i rest calls malformed hloop
          split at hread
          · split at hread
            · cases hread
            · rename_i d hclean
              cases hread
              exact Or.inr ⟨_, d, ⟨rest, _, calls, _, rfl⟩, hclean,
                ⟨_, d.received, d.calls, d.dispatched, rfl⟩⟩
          · cases hread
            exact Or.inl ⟨rest.adjust, _, calls, _, rfl⟩

theorem SlotInv.read_event {c c' : TcpClient} {env : ReadEnv} {clean : CleanEnv}
    (hinv : SlotInv c) (hdisconnects : c.Disconnects clean)
    (hsuccess : clean.connect.connect = .success →
      c.connStartCb = false ∧ clean.connect.succ.ctlRead = true)
    (hread : c.doRead env clean = Except.ok c') : SlotInv c' := by
  rcases doRead_reads hread with hreads | ⟨d, e, hreads, hclean, hlast⟩
  · exact hinv.reads hreads
  · obtain ⟨ibuf, received, calls, dispatched, rfl⟩ := hreads
    exact (SlotInv.reconnects hclean hinv.socket hdisconnects hsuccess).reads hlast

theorem SlotInv.write_event {c c' : TcpClient} {results : List WriteResult} {clean : CleanEnv}
    (hinv : SlotInv c) (hcompleted : c.completed = true) (hdisconnects : c.Disconnects clean)
    (hsuccess : clean.connect.connect = .success →
      c.connStartCb = false ∧ clean.connect.succ.ctlRead = true)
    (hwrite : c.doWrite results clean = Except.ok c') : SlotInv c' := by
  unfold doWrite at hwrite
  split at hwrite
  · cases hwrite
  · simp only at hwrite
    split at hwrite
    · exact SlotInv.reconnects hwrite hinv.socket hdisconnects hsuccess
    · split at hwrite
      · cases hwrite
        refine ⟨hinv.socket, hinv.connecting, ?_, ?_⟩
        · intro _ hnot
          exact Bool.noConfusion (hnot.symm.trans hcompleted)
        · intro hphase _
          obtain ⟨hreading, hfree, hcalls⟩ := hinv.connected hphase hcompleted
          exact ⟨hreading.delWrite, hfree.delWrite _, hcalls⟩
      · cases hwrite
        exact ⟨hinv.socket, hinv.connecting, hinv.waiting, hinv.connected⟩

theorem SlotInv.send_event {c c' : TcpClient} {m : Message} {env : SendEnv} {ret : Int}
    (hinv : SlotInv c)
    (hguard : c.phase ≠ .refused → c.completed = false → c.obuf.length = 0 →
      maxBytes < m.bytes.length)
    (hsend : c.sendMessage m env = Except.ok (ret, c')) : SlotInv c' := by
  obtain ⟨hsame, hcalls, hloop⟩ := sendMessage_loop hsend
  constructor
  · rw [hsame.sockfd]
    exact hinv.socket
  · rw [hsame.phase, hsame.completed]
    exact hinv.connecting
  · rw [hsame.phase, hsame.completed]
    intro hphase hnot
    rcases hloop with hloop | ⟨hzero, hfits, -⟩
    · rw [Waiting, hcalls, hloop, hsame.sockfd]
      exact hinv.waiting hphase hnot
    · have hlarge := hguard hphase hnot hzero
      rw [hzero, Nat.zero_add] at hfits
      exact absurd hlarge (Nat.not_lt.mpr hfits)
  · rw [hsame.phase, hsame.completed]
    intro hphase hcompleted
    obtain ⟨hreading, hfree, hcount⟩ := hinv.connected hphase hcompleted
    rw [Connected, hcalls, hsame.startDue, hsame.sockfd]
    rcases hloop with hloop | ⟨-, -, hloop⟩
    · rw [hloop]
      exact ⟨hreading, hfree, hcount⟩
    · rw [hloop]
      exact ⟨hreading.addWrite _,
        EventLoop.WriteFree.addWrite (fun hsame => ClientCallback.noConfusion hsame) _, hcount⟩

theorem SlotInv.marked {c : TcpClient} (hinv : SlotInv c)
    (hlate : c.phase = .refused ∨ c.completed = true) : SlotInv c.markCompleted := by
  rcases hlate with hrefused | hcompleted
  · exact SlotInv.refused hinv.socket hrefused
  · have hsame : c.markCompleted = c := by
      simp only [markCompleted, hcompleted, if_true]
      rw [← hcompleted]
    rw [hsame]
    exact hinv

/-- The event that reports the end of an established connect finds `connection_succ`. -/
theorem Waiting.dispatch {c : TcpClient} {fired : Mask} (hwaiting : c.Waiting)
    (hreportable : c.Reportable fired) :
    c.loop.dispatch c.sockfd fired = .call .connectionSucc := by
  obtain ⟨-, mask, hmask, hin, -⟩ := hreportable
  rcases hwaiting.2 with hnone | ⟨hevs, hout⟩
  · exact absurd (hmask.symm.trans hnone) (by simp)
  · apply EventLoop.dispatch_writeOnly hevs
    cases hout.symm.trans hmask
    cases hfired : fired.epollin with
    | false => rfl
    | true => exact absurd (hin hfired) (by simp [Mask.EPOLLOUT])

theorem SlotInv.fire_event {c c' : TcpClient} {fired : Mask} {env : FireEnv}
    (hinv : SlotInv c) (hguard : c.KeepsSlot (.fire fired env))
    (hstep : c.step (.fire fired env) c') : SlotInv c' := by
  obtain ⟨hreportable, hdisconnects, hfire⟩ := hstep
  obtain ⟨haccepts, hsuccess⟩ := hguard
  by_cases hrefused : c.phase = .refused
  · have hmarked := hinv.marked (Or.inl hrefused)
    rcases fire_cases hfire with ⟨-, hread⟩ | ⟨-, hwrite⟩ | ⟨-, hsucc⟩ | ⟨-, rfl⟩
    · exact hmarked.read_event hdisconnects hsuccess hread
    · exact hmarked.write_event rfl hdisconnects hsuccess hwrite
    · -- `connection_succ` only takes the descriptor out of the loop
      have hphase : c.markCompleted.phase = .refused := hrefused
      simp only [connectionSucc, hphase, ne_eq, not_true_eq_false, if_false] at hsucc
      cases hsucc
      exact SlotInv.refused hinv.socket rfl
    · exact SlotInv.refused hinv.socket hrefused
  · by_cases hcompleted : c.completed = true
    · have hmarked := hinv.marked (Or.inr hcompleted)
      obtain ⟨hreading, hfree, -⟩ := hinv.connected hrefused hcompleted
      obtain ⟨hnotSucc, hnotRemove⟩ :=
        hreading.dispatch hfree (fun hsame => ClientCallback.noConfusion hsame) fired
      rcases fire_cases hfire with ⟨-, hread⟩ | ⟨-, hwrite⟩ | ⟨hcall, -⟩ | ⟨hremove, -⟩
      · exact hmarked.read_event hdisconnects hsuccess hread
      · exact hmarked.write_event rfl hdisconnects hsuccess hwrite
      · exact absurd hcall hnotSucc
      · exact absurd hremove hnotRemove
    · have hnot : c.completed = false := by simpa using hcompleted
      have hwaiting := hinv.waiting hrefused hnot
      have hcall := hwaiting.dispatch hreportable
      have hestablished : c.phase = .established := by
        cases hphase : c.phase with
        | established => rfl
        | connecting => exact absurd hphase hreportable.1
        | refused => exact absurd hphase hrefused
      have hsucc : c.markCompleted.connectionSucc c.sockfd env.succ = Except.ok c' := by
        simp only [fire, hcall] at hfire
        exact hfire
      obtain ⟨hread, hsends⟩ := haccepts hcall
      refine SlotInv.succeeded hsucc hinv.socket hestablished rfl ?_ hread (fun _ => hsends)
      simp only [markCompleted, hnot, hwaiting.1, Bool.false_eq_true, if_false, Nat.zero_add]

/-- One event keeps the invariant. -/
theorem SlotInv.step {c c' : TcpClient} {event : ClientEvent} (hinv : SlotInv c)
    (hguard : c.KeepsSlot event) (hstep : c.step event c') : SlotInv c' := by
  cases event with
  | settle accepted =>
    obtain ⟨hconnecting, rfl⟩ := hstep
    have hphase : c.phase ≠ .refused := by
      rw [hconnecting]
      simp
    cases accepted with
    | false => exact SlotInv.refused hinv.socket rfl
    | true => exact ⟨hinv.socket, fun h => SocketPhase.noConfusion h, fun _ => hinv.waiting hphase,
        fun _ => hinv.connected hphase⟩
  | send m env =>
    obtain ⟨ret, hsend⟩ := hstep
    exact hinv.send_event hguard hsend
  | fire fired env => exact hinv.fire_event hguard hstep
  | setConnStart registered =>
    have hc : c' = { c with connStartCb := registered } := hstep
    rw [hc]
    exact ⟨hinv.socket, hinv.connecting, hinv.waiting, hinv.connected⟩
  | setConnClose registered =>
    have hc : c' = { c with connCloseCb := registered } := hstep
    rw [hc]
    exact ⟨hinv.socket, hinv.connecting, hinv.waiting, hinv.connected⟩
  | others loop =>
    obtain ⟨hevs, hkernel, rfl⟩ := hstep
    constructor
    · exact hinv.socket
    · exact hinv.connecting
    · intro hphase hnot
      obtain ⟨hcalls, hwaiting⟩ := hinv.waiting hphase hnot
      refine ⟨hcalls, ?_⟩
      simp only [hevs, hkernel]
      exact hwaiting
    · intro hphase hcompleted
      obtain ⟨hreading, hfree, hcalls⟩ := hinv.connected hphase hcompleted
      refine ⟨?_, ?_, hcalls⟩
      · simp only [EventLoop.Reading, hevs, hkernel]
        exact hreading
      · simp only [EventLoop.WriteFree, hevs]
        exact hfree

/-- **A connection whose write slot is left alone becomes ready and stays so.** In every
    run in which no message is accepted into an empty buffer before the completion event,
    no connect succeeds at once under a start hook, and `connection_succ` gets its
    registrations, every completed connection is read and its start hook was called once. -/
theorem connection_ready {c c' : TcpClient} {env : ConnectEnv} {events : List ClientEvent}
    (hcreated : Created env c) (hread : env.connect = .success → env.succ.ctlRead = true)
    (hrun : Run (Guarded KeepsSlot step) c events c') : c'.ConnectionReady := by
  have hstart : SlotInv c := by
    obtain ⟨loop, hkernel, hcreate⟩ := hcreated
    exact SlotInv.connects hcreate hkernel (fun hsuccess => ⟨rfl, hread hsuccess⟩)
  have hinv : SlotInv c' := by
    apply Run.invariant _ hrun hstart
    rintro d event d' hd ⟨hguard, hstep⟩
    exact hd.step hguard hstep
  exact hinv.ready

/-- A connect that ends with nothing sent before it. -/
theorem connection_ready_silent :
    ∃ c c', Created firstSocket c ∧
      Run (Guarded KeepsSlot step) c [.settle true, .fire .EPOLLOUT (meets .hangup)] c' ∧
      c'.phase = .established ∧ c'.completed = true ∧ c'.ConnectionReady := by
  have hcreated : ∃ c, create EventLoop.empty firstSocket = Except.ok c := ⟨_, rfl⟩
  obtain ⟨c, hcreate⟩ := hcreated
  have hguard : ∀ d : TcpClient, d.KeepsSlot (.fire .EPOLLOUT (meets .hangup)) :=
    fun d => ⟨fun _ => ⟨rfl, fun send hsend => absurd hsend List.not_mem_nil⟩,
      fun hsuccess => ConnectResult.noConfusion hsuccess⟩
  have hrun : ∃ c', Run (Guarded KeepsSlot step) c
      [.settle true, .fire .EPOLLOUT (meets .hangup)] c' ∧
      c'.phase = .established ∧ c'.completed = true := by
    cases hcreate
    refine ⟨_, Run.cons ⟨trivial, rfl, rfl⟩
      (Run.cons ⟨hguard _, ⟨?_, .EPOLLOUT, rfl, id, id⟩, ⟨Or.inr rfl, ?_⟩, rfl⟩ (Run.nil _)),
      rfl, rfl⟩
    · exact fun hconnecting => SocketPhase.noConfusion hconnecting
    · exact fun send hsend => absurd hsend List.not_mem_nil
  obtain ⟨c', hrun, hphase, hcompleted⟩ := hrun
  have hfirst : Created firstSocket c := ⟨EventLoop.empty, rfl, hcreate⟩
  exact ⟨c, c', hfirst, hrun, hphase, hcompleted,
    connection_ready hfirst (fun hsuccess => ConnectResult.noConfusion hsuccess) hrun⟩

/-- A message accepted into an empty buffer before the completion event takes the slot of
    `connection_succ`. -/
theorem sendMessage_takesSlot {c : TcpClient} {m : Message} (env : SendEnv)
    (hready : c.obuf.Ready) (hzero : c.obuf.length = 0) (hfits : m.bytes.length ≤ maxBytes)
    (hctl : env.ctlOk = true)
    (hslot : c.loop.ioEvs c.sockfd = some ⟨.EPOLLOUT, none, some .connectionSucc⟩)
    (hkernel : c.loop.kernel c.sockfd = some .EPOLLOUT) :
    ∃ obuf accepted loop,
      c.sendMessage m env =
        Except.ok (0, { c with obuf := obuf, accepted := accepted, loop := loop }) ∧
      obuf.Ready ∧ obuf.length = m.bytes.length ∧
      loop.ioEvs c.sockfd = some ⟨.EPOLLOUT, none, some .clientWrCallback⟩ ∧
      loop.kernel c.sockfd = some .EPOLLOUT ∧
      ∀ fd, fd ≠ c.sockfd → loop.kernel fd = c.loop.kernel fd := by
  obtain ⟨obuf, hqueue, hready', hcontent⟩ :=
    queueMessage_accepted env hready (by rw [hzero, Nat.zero_add]; exact hfits)
  refine ⟨obuf, c.accepted ++ [m],
    c.loop.addIoEvent c.sockfd .clientWrCallback .EPOLLOUT env.ctlOk, ?_, hready', ?_, ?_, ?_, ?_⟩
  · simp only [sendMessage, hqueue, hzero, decide_true, if_true]
  · rw [← ReactorBuf.content_length, hcontent, List.length_append, ReactorBuf.content_length,
      hzero, Nat.zero_add]
  · simp [EventLoop.addIoEvent, hslot, hkernel, hctl, EventLoop.registerCallback, Mask.EPOLLOUT,
      Mask.union]
  · simp [EventLoop.addIoEvent, hslot, hkernel, hctl, Mask.EPOLLOUT, Mask.union]
  · intro fd hne
    simp [EventLoop.addIoEvent, hslot, hkernel, hctl, hne]

/-- Writing everything then takes the socket out of the loop. -/
theorem fire_unregisters {c : TcpClient} (env : FireEnv) (hready : c.obuf.Ready)
    (hpos : 0 < c.obuf.length) (hresults : env.results = [.took c.obuf.length])
    (hslot : c.loop.ioEvs c.sockfd = some ⟨.EPOLLOUT, none, some .clientWrCallback⟩) :
    ∃ c', c.fire .EPOLLOUT env = Except.ok c' ∧ c'.phase = c.phase ∧ c'.completed = true ∧
      c'.loop.ioEvs c'.sockfd = none := by
  have hcall : c.loop.dispatch c.sockfd .EPOLLOUT = .call .clientWrCallback := by
    simp [EventLoop.dispatch, hslot, Mask.EPOLLOUT]
  obtain ⟨rest, -, hnone, hloop⟩ := writeLoop_took c.obuf.length [] hready hpos
  have hwritten : rest.length = 0 := by
    rw [← ReactorBuf.content_length, hnone, List.length_drop, ReactorBuf.content_length,
      Nat.min_self, Nat.sub_self]
  rw [Nat.min_self, if_neg (Nat.pos_iff_ne_zero.mp hpos), writeLoop_empty [] hwritten] at hloop
  have hdel : c.loop.delIoEventMask c.sockfd .EPOLLOUT = c.loop.delIoEvent c.sockfd := by
    simp [EventLoop.delIoEventMask, hslot, Mask.without, Mask.isZero, Mask.EPOLLOUT]
  have hloop' : writeLoop c.markCompleted.obuf [.took c.obuf.length] = _ := hloop
  refine ⟨{ c.markCompleted with
    obuf := rest
    written := c.written ++ (c.obuf.content.take c.obuf.length ++ [])
    loop := c.loop.delIoEvent c.sockfd }, ?_, rfl, rfl, EventLoop.delIoEvent_ioEvs _ _⟩
  rw [← hdel]
  simp only [fire, hcall, callback, doWrite, hresults, hloop', Except.map, hwritten,
    Bool.false_eq_true, if_false, if_true]
  rfl

/-- A message of one byte is sent while the connect is in progress, and written whole when
    it has ended: the socket is no longer in the loop. -/
theorem earlySend_blinds :
    ∃ c c', Created firstSocket c ∧
      Run step c
        [.send ⟨1, [65], by decide⟩ ⟨[], [], true⟩, .settle true,
          .fire .EPOLLOUT ⟨.hangup, [], [.took 9], secondSocket, ⟨[], true, true⟩⟩] c' ∧
      ¬ c'.ConnectionReady := by
  obtain ⟨c, hcreate, hobuf, hsockfd, hphase, hslot, hkernel, hother⟩ :
      ∃ c, create EventLoop.empty firstSocket = Except.ok c ∧ c.obuf = ReactorBuf.empty ∧
        c.sockfd = 7 ∧ c.phase = .connecting ∧
        c.loop.ioEvs 7 = some ⟨.EPOLLOUT, none, some .connectionSucc⟩ ∧
        c.loop.kernel 7 = some .EPOLLOUT ∧ c.loop.kernel 8 = none :=
    ⟨_, rfl, rfl, rfl, rfl, rfl, rfl, rfl⟩
  have hempty : c.obuf.Ready ∧ c.obuf.length = 0 := by
    rw [hobuf]
    exact ⟨ReactorBuf.ready_empty, rfl⟩
  rw [← hsockfd] at hslot hkernel
  obtain ⟨obuf, accepted, loop, hsend, hready, hlength, hslot', hkernel', hothers⟩ :=
    sendMessage_takesSlot (m := ⟨1, [65], by decide⟩) ⟨[], [], true⟩ hempty.1 hempty.2
      (by decide) rfl hslot hkernel
  let sent : TcpClient :=
    { c with obuf := obuf, accepted := accepted, loop := loop, phase := .established }
  have hnine : obuf.length = 9 := hlength
  obtain ⟨c', hfire, hphase', hcompleted, hgone⟩ :=
    fire_unregisters (c := sent) ⟨.hangup, [], [.took 9], secondSocket, ⟨[], true, true⟩⟩ hready
      (by rw [show sent.obuf.length = 9 from hnine]; decide)
      (by rw [show sent.obuf.length = 9 from hnine]) hslot'
  have hreportable : sent.Reportable .EPOLLOUT :=
    ⟨fun hconnecting => SocketPhase.noConfusion hconnecting, .EPOLLOUT, hkernel', id, id⟩
  have hdisconnects : sent.Disconnects secondSocket := by
    refine ⟨Or.inr ?_, fun send hsend => absurd hsend List.not_mem_nil⟩
    have height : loop.kernel 8 = c.loop.kernel 8 := hothers 8 (by rw [hsockfd]; decide)
    exact height.trans hother
  refine ⟨c, c', ⟨EventLoop.empty, rfl, hcreate⟩, Run.cons ⟨0, hsend⟩
    (Run.cons ⟨hphase, rfl⟩ (Run.cons ⟨hreportable, hdisconnects, hfire⟩ (Run.nil c'))), ?_⟩
  intro hready
  obtain ⟨⟨ev, -, hevs, -⟩, -⟩ := hready hphase' hcompleted
  exact absurd (hevs.symm.trans hgone) (by simp)

end TcpClient

end LarsSystem.Reactor
