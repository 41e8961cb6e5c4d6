import LarsSystem.ClientRun

/-!
# What a `tcp_client` carries into its next connection

`clean_conn` clears neither buffer. Messages that wait whole in the output buffer
are sent on the next connection, as they should be; but a message cut in the
middle, or bytes that were received and not yet parsed, go over as well. A
connection starts at a message boundary in both directions exactly as far as the
one before ended at one, and a malformed header never leaves the input buffer.
-/

namespace LarsSystem.Reactor

open LarsSystem.MachineWord
open LarsSystem.LengthFraming
open LarsSystem.Transition

/-! ## Both directions of one connection -/

/-- The bytes received on the current connection, and only these, have been parsed:
    their frames were dispatched and their rest is in the buffer. -/
def ReadFrom (received : List Byte) (dispatched : List RouterCall) (ibuf : ReactorBuf) : Prop :=
  ibuf.content = (parse msgCodec received).rest ∧
    dispatched = (parse msgCodec received).frames.map RouterCall.ofFrame

/-- The bytes written on the current connection begin the stream of the later ones of
    the accepted messages, and what is pending continues it. A buffer that is not
    ready writes nothing more. -/
def WrittenFrom (accepted : List Message) (written : List Byte) (obuf : ReactorBuf) : Prop :=
  ∃ earlier later, accepted = earlier ++ later ∧ written <+: Message.stream later ∧
    (obuf.Ready → written ++ obuf.content = Message.stream later)

namespace TcpClient

/-- **What a reconnect promises**, in every state: the connection parses from the first
    byte it received and writes from the first byte of a message. -/
def StartsAtBoundary (c : TcpClient) : Prop :=
  ReadFrom c.received c.dispatched c.ibuf ∧ WrittenFrom c.accepted c.written c.obuf

/-! ## When a disconnect is at a boundary -/

/-- The received bytes end with a whole frame, and so do the written ones with a
    message, unless the buffer is spoilt and will write nothing more. -/
def EndsAtBoundary (c : TcpClient) (written : List Byte) : Prop :=
  (parse msgCodec c.received).rest = [] ∧
    (c.obuf.Ready → ∃ sent, written = Message.stream sent)

/-- Where a read event or a write event makes the client disconnect, the connection ends
    at a boundary in both directions; no header received is malformed. -/
def DisconnectsAtBoundary (c : TcpClient) : ClientEvent → Prop
  | .fire fired env =>
    match c.loop.dispatch c.sockfd fired with
    | .call .clientRdCallback =>
      (env.arrival.Stored c.ibuf →
        (parse msgCodec (c.received ++ env.arrival.bytes)).malformed = false) ∧
      (¬ env.arrival.Stored c.ibuf → c.EndsAtBoundary c.written)
    | .call .clientWrCallback =>
      ∀ taken, takenBeforeError c.obuf.length env.results = some taken →
        c.EndsAtBoundary (c.written ++ c.obuf.content.take taken)
    | _ => True
  | _ => True

/-! ## Sending and reconnecting -/

theorem Sends.output {c c' : TcpClient} (sends : Sends c c')
    (hfrom : WrittenFrom c.accepted c.written c.obuf) :
    WrittenFrom c'.accepted c'.written c'.obuf ∧ c'.written = c.written ∧
      (c'.obuf.Ready → c.obuf.Ready) := by
  induction sends with
  | refl => exact ⟨hfrom, rfl, id⟩
  | send _ hsend ih =>
    rename_i d e m env ret _
    obtain ⟨⟨earlier, later, haccepted, hwritten, hpending⟩, hsame, hready⟩ := ih
    unfold sendMessage at hsend
    split at hsend
    · cases hsend
    · rename_i ret' obuf active hqueue
      cases hsend
      obtain ⟨hready', hcases⟩ := queueMessage_cases hqueue
      refine ⟨?_, hsame, fun _ => hready hready'⟩
      rcases hcases with ⟨rfl, -, -, hcontent, -⟩ | ⟨rfl, -, hcontent, -⟩
      · -- accepted: the message joins the later ones
        refine ⟨earlier, later ++ [m], ?_, ?_, ?_⟩
        · simp only [if_true, haccepted, List.append_assoc]
        · rw [Message.stream_append]
          exact hwritten.trans (List.prefix_append _ _)
        · intro _
          rw [hcontent, ← List.append_assoc, hpending hready', Message.stream_append,
            Message.stream_singleton]
      · refine ⟨earlier, later, haccepted, hwritten, ?_⟩
        intro hkept
        rw [hcontent hkept]
        exact hpending hready'
  | loop loop _ ih => exact ih
  | closed closed _ ih => exact ih
  | startCalls startCalls _ ih => exact ih

/-- A connection that ends at a boundary leaves whole messages behind. -/
theorem writtenFrom_next {accepted : List Message} {written : List Byte} {obuf : ReactorBuf}
    (hfrom : WrittenFrom accepted written obuf)
    (hend : obuf.Ready → ∃ sent, written = Message.stream sent) :
    WrittenFrom accepted [] obuf := by
  obtain ⟨earlier, later, haccepted, hwritten, hpending⟩ := hfrom
  by_cases hready : obuf.Ready
  · obtain ⟨sent, hsent⟩ := hend hready
    have hinitial : sent <+: later := by
      apply Message.prefix_of_stream_prefix
      rw [← hsent]
      exact hwritten
    obtain ⟨rest, rfl⟩ := hinitial
    refine ⟨earlier ++ sent, rest, by rw [haccepted, List.append_assoc], List.nil_prefix, ?_⟩
    intro _
    have hstream := hpending hready
    rw [hsent, Message.stream_append] at hstream
    exact List.append_cancel_left hstream
  · exact ⟨accepted, [], by rw [List.append_nil], List.nil_prefix,
      fun hready' => absurd hready' hready⟩

theorem Sends.current {c c' : TcpClient} (sends : Sends c c') :
    c'.received = c.received ∧ c'.dispatched = c.dispatched := by
  induction sends with
  | refl => exact ⟨rfl, rfl⟩
  | send _ hsend ih =>
    unfold sendMessage at hsend
    split at hsend
    · cases hsend
    · cases hsend
      exact ih
  | loop loop _ ih => exact ih
  | closed closed _ ih => exact ih
  | startCalls startCalls _ ih => exact ih

theorem openSocket_output (c : TcpClient) (socket : Int) (connect : ConnectResult) :
    (c.openSocket socket connect).accepted = c.accepted ∧
      (c.openSocket socket connect).obuf = c.obuf ∧
      (c.openSocket socket connect).written = [] ∧
      (c.openSocket socket connect).received = [] ∧
      (c.openSocket socket connect).dispatched = [] := by
  unfold openSocket
  split <;> exact ⟨rfl, rfl, rfl, rfl, rfl⟩

/-- A reconnect from a message boundary starts at one. -/
theorem cleanConn_writtenFrom {c c' : TcpClient} {clean : CleanEnv}
    (hclean : c.cleanConn clean = Except.ok c')
    (hfrom : WrittenFrom c.accepted c.written c.obuf)
    (hend : c.obuf.Ready → ∃ sent, c.written = Message.stream sent) :
    WrittenFrom c'.accepted c'.written c'.obuf ∧ c'.received = [] ∧ c'.dispatched = [] := by
  obtain ⟨old, hold, hnew⟩ := sends_cleanConn hclean
  obtain ⟨hfrom', hwritten, hready⟩ := hold.output hfrom
  have hnext := writtenFrom_next hfrom' (by
    intro hready'
    rw [hwritten]
    exact hend (hready hready'))
  obtain ⟨haccepted, hobuf, hnone, hreceived, hdispatched⟩ :=
    old.openSocket_output clean.connect.socket clean.connect.connect
  rw [← haccepted, ← hobuf, ← hnone] at hnext
  exact ⟨(hnew.output hnext).1, hnew.current.1.trans hreceived,
    hnew.current.2.trans hdispatched⟩

/-! ## The invariant -/

/-- Besides the promise: the buffer is ready to read into, and no malformed header has
    been received. -/
structure BoundaryInv (c : TcpClient) : Prop where
  read : ReadFrom c.received c.dispatched c.ibuf
  written : WrittenFrom c.accepted c.written c.obuf
  ready : c.ibuf.Ready
  wellFormed : (parse msgCodec c.received).malformed = false

theorem readFrom_nil {ibuf : ReactorBuf} (hempty : ibuf.content = []) : ReadFrom [] [] ibuf := by
  rw [ReadFrom, parse_nil]
  exact ⟨hempty, rfl⟩

/-- After a reconnect from a boundary. -/
theorem BoundaryInv.reconnected {c c' : TcpClient} {clean : CleanEnv}
    (hclean : c.cleanConn clean = Except.ok c')
    (hfrom : WrittenFrom c.accepted c.written c.obuf) (hready : c.ibuf.Ready)
    (hunread : c.ibuf.content = [])
    (hend : c.obuf.Ready → ∃ sent, c.written = Message.stream sent) : BoundaryInv c' := by
  obtain ⟨hfrom', hreceived, hdispatched⟩ := cleanConn_writtenFrom hclean hfrom hend
  obtain ⟨hibuf, -⟩ := cleanConn_input hclean
  constructor
  · rw [hreceived, hdispatched, hibuf]
    exact readFrom_nil hunread
  · exact hfrom'
  · rw [hibuf]
    exact hready
  · rw [hreceived, parse_nil]

theorem BoundaryInv.read_event {c c' : TcpClient} {a : Arrival} {stale : List Byte}
    {clean : CleanEnv} (hinv : BoundaryInv c)
    (hwell : a.Stored c.ibuf → (parse msgCodec (c.received ++ a.bytes)).malformed = false)
    (hend : ¬ a.Stored c.ibuf → c.EndsAtBoundary c.written)
    (hread : c.doRead (a.env stale) clean = Except.ok c') : BoundaryInv c' := by
  have hparse := parse_append msgCodec c.received a.bytes hinv.wellFormed
  rw [← hinv.read.1] at hparse
  rcases doRead_cases hinv.ready hread with
    ⟨rest, hstored, hrest, hok, rfl⟩ | ⟨rest, d, hstored, -, hbad, -, -⟩ |
      ⟨ibuf, hstored, hready, hcontent, hclean⟩
  · -- the chunk continues the stream of this connection
    constructor
    · refine ⟨?_, ?_⟩
      · simp only [afterChunk, ReactorBuf.adjust_content, hrest, hparse]
        rfl
      · simp only [afterChunk, hinv.read.2, hparse, Parsed.prepend, List.map_append]
    · exact hinv.written
    · exact rest.adjust_ready
    · exact hwell hstored
  · -- a malformed header is excluded
    have hok := hwell hstored
    rw [hparse] at hok
    exact absurd (hbad.symm.trans hok) (by simp)
  · obtain ⟨hreceived, hwritten⟩ := hend hstored
    have hunread : ibuf.content = [] := by rw [hcontent, hinv.read.1, hreceived]
    exact BoundaryInv.reconnected hclean hinv.written hready hunread hwritten

theorem BoundaryInv.write_event {c c' : TcpClient} {results : List WriteResult}
    {clean : CleanEnv} (hinv : BoundaryInv c)
    (hend : ∀ taken, takenBeforeError c.obuf.length results = some taken →
      c.EndsAtBoundary (c.written ++ c.obuf.content.take taken))
    (hwrite : c.doWrite results clean = Except.ok c') : BoundaryInv c' := by
  unfold doWrite at hwrite
  by_cases hready : c.obuf.Ready
  · obtain ⟨obuf, taken, failed, hloop, hready', hcontent, -⟩ := writeLoop_ready results hready
    obtain ⟨earlier, later, haccepted, hwritten, hpending⟩ := hinv.written
    -- the bytes taken move from the front of what is pending to what is written
    have hmoved : (c.written ++ taken) ++ obuf.content = Message.stream later := by
      rw [List.append_assoc, ← hcontent, hpending hready]
    have hfrom : WrittenFrom c.accepted (c.written ++ taken) obuf :=
      ⟨earlier, later, haccepted, ⟨obuf.content, hmoved⟩, fun _ => hmoved⟩
    simp only [hloop] at hwrite
    cases failed with
    | true =>
      obtain ⟨hreceived, hsent⟩ := hend _ (writeLoop_failed hready hloop)
      have htake : c.obuf.content.take taken.length = taken := by
        rw [hcontent, List.take_left]
      rw [htake] at hsent
      have hunread : c.ibuf.content = [] := by rw [hinv.read.1, hreceived]
      exact BoundaryInv.reconnected hwrite hfrom hinv.ready hunread (fun _ => hsent hready)
    | false =>
      simp only [Bool.false_eq_true, if_false] at hwrite
      split at hwrite <;> cases hwrite <;> exact ⟨hinv.read, hfrom, hinv.ready, hinv.wellFormed⟩
  · by_cases hzero : c.obuf.length = 0
    · rw [writeLoop_empty results hzero] at hwrite
      simp only [Bool.false_eq_true, if_false, hzero, if_true, List.append_nil] at hwrite
      cases hwrite
      exact ⟨hinv.read, hinv.written, hinv.ready, hinv.wellFormed⟩
    · rw [writeLoop_not_ready results hready (Nat.pos_of_ne_zero hzero)] at hwrite
      cases hwrite

theorem BoundaryInv.sends {c c' : TcpClient} (hinv : BoundaryInv c) (sends : Sends c c') :
    BoundaryInv c' := by
  obtain ⟨hreceived, hdispatched⟩ := sends.current
  constructor
  · rw [hreceived, hdispatched, sends.input.1]
    exact hinv.read
  · exact (sends.output hinv.written).1
  · rw [sends.input.1]
    exact hinv.ready
  · rw [hreceived]
    exact hinv.wellFormed

/-- One event keeps the invariant. -/
theorem BoundaryInv.step {c c' : TcpClient} {event : ClientEvent} (hinv : BoundaryInv c)
    (hguard : c.DisconnectsAtBoundary event) (hstep : c.step event c') : BoundaryInv c' := by
  cases event with
  | settle accepted =>
    obtain ⟨-, rfl⟩ := hstep
    exact ⟨hinv.read, hinv.written, hinv.ready, hinv.wellFormed⟩
  | send m env =>
    obtain ⟨ret, hsend⟩ := hstep
    exact hinv.sends (Sends.send Sends.refl hsend)
  | fire fired env =>
    obtain ⟨-, -, hfire⟩ := hstep
    have hmarked : BoundaryInv c.markCompleted :=
      ⟨hinv.read, hinv.written, hinv.ready, hinv.wellFormed⟩
    rcases fire_cases hfire with ⟨hcall, hread⟩ | ⟨hcall, hwrite⟩ | ⟨-, hsucc⟩ | ⟨-, rfl⟩
    · simp only [DisconnectsAtBoundary, hcall] at hguard
      exact hmarked.read_event hguard.1 hguard.2 hread
    · simp only [DisconnectsAtBoundary, hcall] at hguard
      exact hmarked.write_event hguard hwrite
    · exact hmarked.sends (sends_connectionSucc hsucc)
    · exact ⟨hinv.read, hinv.written, hinv.ready, hinv.wellFormed⟩
  | setConnStart registered =>
    have hc : c' = { c with connStartCb := registered } := hstep
    rw [hc]
    exact ⟨hinv.read, hinv.written, hinv.ready, hinv.wellFormed⟩
  | setConnClose registered =>
    have hc : c' = { c with connCloseCb := registered } := hstep
    rw [hc]
    exact ⟨hinv.read, hinv.written, hinv.ready, hinv.wellFormed⟩
  | others loop =>
    obtain ⟨-, -, rfl⟩ := hstep
    exact ⟨hinv.read, hinv.written, hinv.ready, hinv.wellFormed⟩

theorem BoundaryInv.created {c : TcpClient} {env : ConnectEnv} (hcreated : Created env c) :
    BoundaryInv c := by
  obtain ⟨loop, -, hcreate⟩ := hcreated
  have hsends := sends_doConnect hcreate
  refine BoundaryInv.sends ?_ hsends
  constructor
  · exact readFrom_nil rfl
  · exact ⟨[], [], rfl, List.nil_prefix, fun _ => rfl⟩
  · exact ReactorBuf.ready_empty
  · exact congrArg Parsed.malformed (parse_nil msgCodec)

/-- **A reconnect starts from a message boundary where the connection before ended at
    one.** In every run of a client whose disconnects are at a boundary, every
    connection parses from the first byte it received and writes from the first
    byte of a message. -/
theorem reconnects_at_boundary {c c' : TcpClient} {env : ConnectEnv} {events : List ClientEvent}
    (hcreated : Created env c) (hrun : Run (Guarded DisconnectsAtBoundary step) c events c') :
    StartsAtBoundary c' := by
  have hinv : BoundaryInv c' := by
    apply Run.invariant _ hrun (BoundaryInv.created hcreated)
    rintro d event d' hd ⟨hguard, hstep⟩
    exact hd.step hguard hstep
  exact ⟨hinv.read, hinv.written⟩

/-- Connected on descriptor 7, with nothing to write. -/
structure ReadsOnFirst (c : TcpClient) : Prop where
  sockfd : c.sockfd = 7
  phase : c.phase = .established
  registered : c.loop.dispatch 7 .EPOLLIN = .call .clientRdCallback
  watched : c.loop.kernel 7 = some .EPOLLIN
  others : c.loop.kernel 8 = none
  nothing : c.obuf = ReactorBuf.empty ∧ c.written = []
  hooks : c.connCloseCb = false

/-- The connect ends and its event is handled. -/
theorem first_connected :
    ∃ c c', Created firstSocket c ∧
      Run (Guarded DisconnectsAtBoundary step) c
        [.settle true, .fire .EPOLLOUT (meets .hangup)] c' ∧
      c'.ReadsOnFirst ∧ c'.ibuf = ReactorBuf.empty ∧ c'.received = [] := by
  refine ⟨_, _, ⟨EventLoop.empty, rfl, rfl⟩,
    Run.cons ⟨trivial, rfl, rfl⟩ (Run.cons ⟨trivial, ⟨?_, .EPOLLOUT, rfl, ?_, ?_⟩, ?_, rfl⟩
      (Run.nil _)), ⟨rfl, rfl, rfl, rfl, rfl, ⟨rfl, rfl⟩, rfl⟩, rfl, rfl⟩
  · exact fun hconnecting => SocketPhase.noConfusion hconnecting
  · exact id
  · exact id
  · exact ⟨Or.inr rfl, fun send hsend => absurd hsend List.not_mem_nil⟩

theorem ReadsOnFirst.reportable {c : TcpClient} (hreads : c.ReadsOnFirst) :
    c.Reportable .EPOLLIN ∧ c.Disconnects secondSocket := by
  refine ⟨⟨?_, .EPOLLIN, by rw [hreads.sockfd]; exact hreads.watched, id, id⟩,
    Or.inr hreads.others, fun send hsend => absurd hsend List.not_mem_nil⟩
  rw [hreads.phase]
  exact fun hconnecting => SocketPhase.noConfusion hconnecting

theorem mapError_fault {α : Type} (x : Except Fault α) (calls : List RouterCall) :
    (x.mapError (Crash.mk · calls)).mapError Crash.fault = x := by
  cases x <;> rfl

/-- The end of the stream disconnects; the unread bytes stay in the buffer. -/
theorem ReadsOnFirst.hangup {c : TcpClient} (hreads : c.ReadsOnFirst) (hready : c.ibuf.Ready) :
    ∃ c', c.step (.fire .EPOLLIN (meets .hangup)) c' ∧ c'.received = [] ∧
      c'.ibuf.content = c.ibuf.content := by
  obtain ⟨hreportable, hfresh⟩ := hreads.reportable
  obtain ⟨ibuf, hread, -, hcontent⟩ := readData_hangup [] hready
  have hcall : c.loop.dispatch c.sockfd .EPOLLIN = .call .clientRdCallback := by
    rw [hreads.sockfd]
    exact hreads.registered
  have hread' : c.markCompleted.ibuf.readData (Arrival.hangup.env []) = Except.ok (0, ibuf) :=
    hread
  let closing : TcpClient :=
    { c.markCompleted with
      received := c.received ++ ibuf.content.drop c.ibuf.length
      ibuf := ibuf }
  have hfire : c.fire .EPOLLIN (meets .hangup) = closing.cleanConn secondSocket := by
    simp only [fire, hcall, callback, meets, doRead, hread']
    exact mapError_fault (closing.cleanConn secondSocket) c.calls
  have hhook : closing.closeSocket.connCloseCb = false := by
    unfold closeSocket
    split <;> exact hreads.hooks
  obtain ⟨c', hclean⟩ : ∃ c', closing.cleanConn secondSocket = Except.ok c' := by
    simp only [cleanConn, closeHook, hhook]
    exact ⟨_, rfl⟩
  refine ⟨c', ⟨hreportable, hfresh, hfire.trans hclean⟩, ?_, ?_⟩
  · obtain ⟨old, -, hnew⟩ := sends_cleanConn hclean
    exact hnew.current.1.trans (old.openSocket_output 8 .inProgress).2.2.2.1
  · rw [(cleanConn_input hclean).1]
    exact hcontent

/-- A connection that received nothing ends at a boundary, and the next one starts at
    one. -/
theorem reconnects_at_boundary_unused :
    ∃ c c', Created firstSocket c ∧
      Run (Guarded DisconnectsAtBoundary step) c
        [.settle true, .fire .EPOLLOUT (meets .hangup), .fire .EPOLLIN (meets .hangup)] c' ∧
      StartsAtBoundary c' := by
  obtain ⟨c, d, hcreated, hrun, hreads, hibuf, hreceived⟩ := first_connected
  obtain ⟨c', hstep, -⟩ := hreads.hangup (by rw [hibuf]; exact ReactorBuf.ready_empty)
  have hguard : d.DisconnectsAtBoundary (.fire .EPOLLIN (meets .hangup)) := by
    have hcall : d.loop.dispatch d.sockfd .EPOLLIN = .call .clientRdCallback := by
      rw [hreads.sockfd]
      exact hreads.registered
    simp only [DisconnectsAtBoundary, hcall]
    refine ⟨fun hstored => hstored.elim, fun _ => ⟨?_, fun _ => ⟨[], hreads.nothing.2⟩⟩⟩
    rw [hreceived, parse_nil]
  have hwhole := hrun.snoc ⟨hguard, hstep⟩
  exact ⟨c, c', hcreated, hwhole, reconnects_at_boundary hcreated hwhole⟩

/-- Half a header, and then the end of the stream: the half header waits in the buffer
    of the next connection. -/
theorem halfHeader_survives :
    ∃ c c', Created firstSocket c ∧
      Run step c [.settle true, .fire .EPOLLOUT (meets .hangup),
        .fire .EPOLLIN (meets (.chunk [1, 0, 0, 0] (by decide))),
        .fire .EPOLLIN (meets .hangup)] c' ∧
      ¬ StartsAtBoundary c' := by
  obtain ⟨c, d, hcreated, hrun, hreads, hibuf, -⟩ := first_connected
  obtain ⟨hreportable, hfresh⟩ := hreads.reportable
  have hcall : d.loop.dispatch d.sockfd .EPOLLIN = .call .clientRdCallback := by
    rw [hreads.sockfd]
    exact hreads.registered
  have hempty : d.markCompleted.ibuf = ReactorBuf.empty := hibuf
  have hlength : d.markCompleted.ibuf.length = 0 := by
    rw [hempty]
    rfl
  have hshort : parse msgCodec (d.markCompleted.ibuf.content ++ [1, 0, 0, 0]) =
      ⟨[], [1, 0, 0, 0], false⟩ := by
    rw [hempty]
    exact parse_short msgCodec (by decide)
  have htail : ¬ (parse msgCodec (d.markCompleted.ibuf.content ++ [1, 0, 0, 0])).EndsEmpty := by
    rw [hshort]
    exact Parsed.not_endsEmpty (fun frame hframe => absurd hframe List.not_mem_nil)
  obtain ⟨ibuf, hready, hcontent, hread⟩ :=
    doRead_chunk [] secondSocket (by rw [hempty]; exact ReactorBuf.ready_empty)
      (by decide) (by rw [hlength]; decide) htail (by rw [hshort])
  have hchunk : d.step (.fire .EPOLLIN (meets (.chunk [1, 0, 0, 0] (by decide))))
      (d.markCompleted.afterChunk [1, 0, 0, 0] ibuf) := by
    refine ⟨hreportable, hfresh, ?_⟩
    simp only [fire, hcall, callback, meets]
    exact congrArg (Except.mapError Crash.fault) hread
  have hreads' : (d.markCompleted.afterChunk [1, 0, 0, 0] ibuf).ReadsOnFirst :=
    ⟨hreads.sockfd, hreads.phase, hreads.registered, hreads.watched, hreads.others,
      hreads.nothing, hreads.hooks⟩
  obtain ⟨c', hhangup, hreceived, hkept⟩ := hreads'.hangup hready
  refine ⟨c, c', hcreated, ((hrun.mono fun _ _ _ h => h.2).snoc hchunk).snoc hhangup, ?_⟩
  rintro ⟨⟨hcut, -⟩, -⟩
  rw [hkept, hreceived, parse_nil] at hcut
  exact absurd (hcontent.symm.trans hcut) (by rw [hshort]; decide)

end TcpClient

end LarsSystem.Reactor
