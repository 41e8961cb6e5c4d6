import LarsSystem.NetConnection
import LarsSystem.Transition

/-!
# What a failed send leaves behind

`send_message` undoes a message whose body does not fit by popping eight bytes.
`reactor_buf::pop` pops from the front of the queue, so the undo is right when
the header is all there is. Behind pending bytes it removes the start of an older
message and leaves the window off the front of its block, where the next
`send_data` or `write2fd` fails its assertion.
-/

namespace LarsSystem.Reactor

open LarsSystem.MachineWord
open LarsSystem.Transition

/-! ## Buffers with the same bytes

An output buffer may hold an empty block where another holds none. Nothing that
is done to them tells them apart. -/

structure SameBytes (r r' : ReactorBuf) : Prop where
  content : r.content = r'.content
  ready : r.Ready ↔ r'.Ready

namespace SameBytes

variable {r r' : ReactorBuf}

theorem refl (r : ReactorBuf) : SameBytes r r := ⟨rfl, Iff.rfl⟩

theorem length (same : SameBytes r r') : r.length = r'.length := by
  rw [← ReactorBuf.content_length, same.content, ReactorBuf.content_length]

theorem of_ready (hready : r.Ready) (hready' : r'.Ready) (hcontent : r.content = r'.content) :
    SameBytes r r' :=
  ⟨hcontent, iff_of_true hready hready'⟩

theorem queueMessage (same : SameBytes r r') (m : Message) (env : SendEnv) :
    Agree (fun q q' => q.1 = q'.1 ∧ SameBytes q.2.1 q'.2.1 ∧ q.2.2 = q'.2.2)
      (queueMessage r m env) (queueMessage r' m env) := by
  have hlen := same.length
  by_cases hready : r.Ready
  · have hready' := same.ready.mp hready
    by_cases hfits : r.length + m.bytes.length ≤ maxBytes
    · obtain ⟨obuf, hqueue, hobuf, hcontent⟩ := queueMessage_accepted env hready hfits
      obtain ⟨obuf', hqueue', hobuf', hcontent'⟩ :=
        queueMessage_accepted (m := m) env hready' (by omega)
      rw [hqueue, hqueue', hlen]
      exact ⟨rfl, of_ready hobuf hobuf' (by rw [hcontent, hcontent', same.content]), rfl⟩
    · by_cases hhead : r.length + messageHeadLen ≤ maxBytes
      · have hrefused := queueMessage_bodyRefused (m := m) env hready hhead (by omega)
        have hrefused' := queueMessage_bodyRefused (m := m) env hready' (by omega) (by omega)
        rcases hrefused with ⟨hwraps, herror⟩ | ⟨hsmall, obuf, hqueue, hcontent, hnone, hpoison⟩
        · rcases hrefused' with ⟨-, herror'⟩ | ⟨hsmall', -⟩
          · rw [herror, herror']
            exact rfl
          · omega
        · rcases hrefused' with ⟨hwraps', -⟩ | ⟨-, obuf', hqueue', hcontent', hnone', hpoison'⟩
          · omega
          · rw [hqueue, hqueue']
            refine ⟨rfl, ⟨by rw [hcontent, hcontent', same.content], ?_⟩, rfl⟩
            by_cases hzero : r.length = 0
            · rw [hnone hzero, hnone' (by omega)]
            · exact iff_of_false (hpoison (by omega)) (hpoison' (by omega))
      · rw [queueMessage_headRefused env hready (by omega),
          queueMessage_headRefused env hready' (by omega)]
        exact ⟨rfl, same, rfl⟩
  · have hready' : ¬ r'.Ready := fun h => hready (same.ready.mpr h)
    rw [queueMessage_not_ready env hready, queueMessage_not_ready env hready']
    exact rfl

theorem writeLoop (same : SameBytes r r') (results : List WriteResult) :
    Agree (fun w w' => SameBytes w.1 w'.1 ∧ w.2 = w'.2)
      (writeLoop r results) (writeLoop r' results) := by
  by_cases hzero : r.length = 0
  · rw [writeLoop_empty results hzero, writeLoop_empty results (by rw [← same.length, hzero])]
    exact ⟨same, rfl⟩
  have hpos : 0 < r.length := by omega
  have hpos' : 0 < r'.length := by rw [← same.length]; exact hpos
  by_cases hready : r.Ready
  · have hready' := same.ready.mp hready
    induction results generalizing r r' with
    | nil =>
      rw [writeLoop_idle hready hpos, writeLoop_idle hready' hpos']
      exact ⟨same, rfl⟩
    | cons result results ih =>
      cases result with
      | error =>
        rw [writeLoop_error results hready hpos, writeLoop_error results hready' hpos']
        exact ⟨same, rfl⟩
      | again =>
        rw [writeLoop_again results hready hpos, writeLoop_again results hready' hpos']
        exact ⟨same, rfl⟩
      | took n =>
        obtain ⟨rest, hrest, hcontent, hloop⟩ := writeLoop_took n results hready hpos
        obtain ⟨rest', hrest', hcontent', hloop'⟩ := writeLoop_took n results hready' hpos'
        rw [hloop, hloop', ← same.length, ← same.content]
        have hsame : SameBytes rest rest' :=
          of_ready hrest hrest' (by rw [hcontent, hcontent', same.content, same.length])
        by_cases hnone : min n r.length = 0
        · rw [if_pos hnone, if_pos hnone]
          exact ⟨hsame, rfl⟩
        · rw [if_neg hnone, if_neg hnone]
          have hagree : Agree (fun w w' => SameBytes w.1 w'.1 ∧ w.2 = w'.2)
              (Reactor.writeLoop rest results) (Reactor.writeLoop rest' results) := by
            by_cases hlast : rest.length = 0
            · rw [writeLoop_empty results hlast,
                writeLoop_empty results (by rw [← hsame.length, hlast])]
              exact ⟨hsame, rfl⟩
            · exact ih hsame hlast (by omega) (by rw [← hsame.length]; omega) hrest hrest'
          apply hagree.map
          rintro w w' ⟨hbuf, htaken⟩
          exact ⟨hbuf, by simp only [htaken]⟩
  · have hready' : ¬ r'.Ready := fun h => hready (same.ready.mpr h)
    rw [writeLoop_not_ready results hready hpos, writeLoop_not_ready results hready' hpos']
    exact rfl

end SameBytes

/-! ## Connections with the same pending bytes -/

namespace TcpConn

def Alike (c c' : TcpConn) : Prop := ∃ r, c' = { c with obuf := r } ∧ SameBytes c.obuf r

theorem Alike.sendMessage {c c' : TcpConn} (alike : c.Alike c') (m : Message) (env : SendEnv) :
    Agree (fun p p' => p.1 = p'.1 ∧ Alike p.2 p'.2) (c.sendMessage m env)
      (c'.sendMessage m env) := by
  obtain ⟨r, rfl, same⟩ := alike
  have hagree := same.queueMessage m env
  simp only [TcpConn.sendMessage]
  rcases hagree.cases with ⟨e, hq, hq'⟩ | ⟨⟨ret, obuf, active⟩, ⟨ret', obuf', active'⟩, hq, hq',
    rfl, hsame, rfl⟩
  · simp only [hq, hq']
    exact rfl
  · simp only [hq, hq']
    exact ⟨rfl, obuf', rfl, hsame⟩

theorem Alike.doWrite {c c' : TcpConn} (alike : c.Alike c') (results : List WriteResult) :
    Agree Alike (c.doWrite results) (c'.doWrite results) := by
  obtain ⟨r, rfl, same⟩ := alike
  have hagree := same.writeLoop results
  simp only [TcpConn.doWrite]
  rcases hagree.cases with ⟨e, hw, hw'⟩ | ⟨⟨obuf, taken, failed⟩, ⟨obuf', taken', failed'⟩, hw,
    hw', hsame, htaken⟩
  · simp only [hw, hw']
    exact rfl
  · cases htaken
    simp only [hw, hw']
    have hlen : obuf.length = obuf'.length := hsame.length
    cases failed with
    | true => exact ⟨_, rfl, SameBytes.refl _⟩
    | false =>
      simp only [Bool.false_eq_true, if_false, hlen]
      split <;> exact ⟨obuf', rfl, hsame⟩

end TcpConn

namespace TcpClient

def Alike (c c' : TcpClient) : Prop := ∃ r, c' = { c with obuf := r } ∧ SameBytes c.obuf r

theorem Alike.sendMessage {c c' : TcpClient} (alike : c.Alike c') (m : Message)
    (env : SendEnv) :
    Agree (fun p p' => p.1 = p'.1 ∧ Alike p.2 p'.2) (c.sendMessage m env)
      (c'.sendMessage m env) := by
  obtain ⟨r, rfl, same⟩ := alike
  have hagree := same.queueMessage m env
  simp only [TcpClient.sendMessage]
  rcases hagree.cases with ⟨e, hq, hq'⟩ | ⟨⟨ret, obuf, active⟩, ⟨ret', obuf', active'⟩, hq, hq',
    rfl, hsame, rfl⟩
  · simp only [hq, hq']
    exact rfl
  · simp only [hq, hq']
    exact ⟨rfl, obuf', rfl, hsame⟩

theorem Alike.sendAll {c c' : TcpClient} (alike : c.Alike c') (sends : HookSends) :
    Agree Alike (c.sendAll sends) (c'.sendAll sends) := by
  induction sends generalizing c c' with
  | nil => exact alike
  | cons send sends ih =>
    obtain ⟨m, env⟩ := send
    have hagree := alike.sendMessage m env
    simp only [TcpClient.sendAll]
    rcases hagree.cases with ⟨e, hs, hs'⟩ | ⟨p, p', hs, hs', -, halike⟩
    · simp only [hs, hs']
      exact rfl
    · simp only [hs, hs']
      exact ih halike

theorem Alike.startHook {c c' : TcpClient} (alike : c.Alike c') (sends : HookSends) :
    Agree Alike (c.startHook sends) (c'.startHook sends) := by
  obtain ⟨r, rfl, same⟩ := alike
  have hcalled : Alike { c with startCalls := c.startCalls + 1 }
      { c with obuf := r, startCalls := c.startCalls + 1 } := ⟨r, rfl, same⟩
  simp only [TcpClient.startHook]
  split
  · exact hcalled.sendAll sends
  · exact ⟨r, rfl, same⟩

theorem Alike.closeHook {c c' : TcpClient} (alike : c.Alike c') (sends : HookSends) :
    Agree Alike (c.closeHook sends) (c'.closeHook sends) := by
  have hagree := alike.sendAll sends
  obtain ⟨r, rfl, same⟩ := alike
  simp only [TcpClient.closeHook]
  split
  · exact hagree
  · exact ⟨r, rfl, same⟩

theorem Alike.watch {c c' : TcpClient} (alike : c.Alike c') (fd : Int) (ctlRead ctlWrite : Bool) :
    Alike (c.watch fd ctlRead ctlWrite) (c'.watch fd ctlRead ctlWrite) := by
  obtain ⟨r, rfl, same⟩ := alike
  refine ⟨r, ?_, same⟩
  simp only [TcpClient.watch, same.length]

theorem Alike.connectionSucc {c c' : TcpClient} (alike : c.Alike c') (fd : Int) (env : SuccEnv) :
    Agree Alike (c.connectionSucc fd env) (c'.connectionSucc fd env) := by
  obtain ⟨r, rfl, same⟩ := alike
  have hdeleted : Alike { c with loop := c.loop.delIoEvent fd }
      { c with obuf := r, loop := c.loop.delIoEvent fd } := ⟨r, rfl, same⟩
  have hagree := hdeleted.startHook env.startSends
  simp only [TcpClient.connectionSucc]
  split
  · rcases hagree.cases with ⟨e, hs, hs'⟩ | ⟨d, d', hs, hs', hd⟩
    · simp only [hs, hs']
      exact rfl
    · simp only [hs, hs']
      exact hd.watch fd env.ctlRead env.ctlWrite
  · exact hdeleted

theorem Alike.openSocket {c c' : TcpClient} (alike : c.Alike c') (socket : Int)
    (connect : ConnectResult) :
    Alike (c.openSocket socket connect) (c'.openSocket socket connect) := by
  obtain ⟨r, rfl, same⟩ := alike
  unfold TcpClient.openSocket
  simp only
  split <;> exact ⟨r, rfl, same⟩

theorem Alike.closeSocket {c c' : TcpClient} (alike : c.Alike c') :
    Alike c.closeSocket c'.closeSocket := by
  obtain ⟨r, rfl, same⟩ := alike
  unfold TcpClient.closeSocket
  simp only
  split <;> exact ⟨r, rfl, same⟩

theorem Alike.doConnect {c c' : TcpClient} (alike : c.Alike c') (env : ConnectEnv) :
    Agree Alike (c.doConnect env) (c'.doConnect env) := by
  have hopened := alike.openSocket env.socket env.connect
  unfold TcpClient.doConnect
  split
  · exact rfl
  · simp only
    generalize env.connect = connect at hopened ⊢
    cases connect with
    | success =>
      have hagree := hopened.startHook env.startSends
      simp only
      rcases hagree.cases with ⟨e, hs, hs'⟩ | ⟨d, d', hs, hs', hd⟩
      · simp only [hs, hs']
        exact rfl
      · obtain ⟨r, hd', -⟩ := id hd
        have hfd : d'.sockfd = d.sockfd := by rw [hd']
        simp only [hs, hs', hfd]
        exact (hd.watch d.sockfd env.ctlRead env.ctlWrite).connectionSucc d.sockfd env.succ
    | inProgress =>
      obtain ⟨r, hc, same⟩ := hopened
      simp only [hc]
      exact ⟨r, rfl, same⟩
    | failure => exact rfl

theorem Alike.cleanConn {c c' : TcpClient} (alike : c.Alike c') (env : CleanEnv) :
    Agree Alike (c.cleanConn env) (c'.cleanConn env) := by
  have hagree := alike.closeSocket.closeHook env.closeSends
  unfold TcpClient.cleanConn
  rcases hagree.cases with ⟨e, hs, hs'⟩ | ⟨d, d', hs, hs', hd⟩
  · simp only [hs, hs']
    exact rfl
  · simp only [hs, hs']
    exact hd.doConnect env.connect

theorem Alike.doWrite {c c' : TcpClient} (alike : c.Alike c') (results : List WriteResult)
    (clean : CleanEnv) :
    Agree Alike (c.doWrite results clean) (c'.doWrite results clean) := by
  obtain ⟨r, rfl, same⟩ := alike
  have hagree := same.writeLoop results
  simp only [TcpClient.doWrite]
  rcases hagree.cases with ⟨e, hw, hw'⟩ | ⟨⟨obuf, taken, failed⟩, ⟨obuf', taken', failed'⟩, hw,
    hw', hsame, htaken⟩
  · simp only [hw, hw']
    exact rfl
  · cases htaken
    simp only [hw, hw']
    have hlen : obuf.length = obuf'.length := hsame.length
    have halike : Alike { c with obuf := obuf, written := c.written ++ taken }
        { c with obuf := obuf', written := c.written ++ taken } := ⟨obuf', rfl, hsame⟩
    cases failed with
    | true => exact halike.cleanConn clean
    | false =>
      simp only [Bool.false_eq_true, if_false, hlen]
      split <;> exact ⟨obuf', rfl, hsame⟩

end TcpClient

namespace NetConnection

def Alike (n n' : NetConnection) : Prop := ∃ r, n' = n.withObuf r ∧ SameBytes n.obuf r

/-- A later call: a send, or a write event with the answers of its `write` calls. -/
inductive OutputCall where
  | send (m : Message) (env : SendEnv)
  | write (results : List WriteResult) (clean : CleanEnv)

/-- A connection and the last value that `send_message` returned on it. -/
structure Output where
  connection : NetConnection
  ret : Int

def Output.perform (o : Output) : OutputCall → Except Fault Output
  | .send m env => (o.connection.sendMessage m env).map fun (ret, n) => ⟨n, ret⟩
  | .write results clean => (o.connection.doWrite results clean).map fun n => ⟨n, o.ret⟩

/-- What can be seen of an output: everything but the block that holds the pending
    bytes. -/
def Output.view (o : Output) : NetConnection × List Byte × Int :=
  (o.connection.withObuf ReactorBuf.empty, o.connection.obuf.content, o.ret)

theorem Alike.sendMessage {n n' : NetConnection} (alike : n.Alike n') (m : Message)
    (env : SendEnv) :
    Agree (fun p p' => p.1 = p'.1 ∧ Alike p.2 p'.2) (n.sendMessage m env)
      (n'.sendMessage m env) := by
  obtain ⟨r, rfl, same⟩ := alike
  cases n with
  | conn c =>
    have halike : c.Alike { c with obuf := r } := ⟨r, rfl, same⟩
    apply (halike.sendMessage m env).map
    rintro ⟨ret, d⟩ ⟨ret', d'⟩ ⟨hret, r', hd', hsame⟩
    exact ⟨hret, r', congrArg conn hd', hsame⟩
  | client c =>
    have halike : c.Alike { c with obuf := r } := ⟨r, rfl, same⟩
    apply (halike.sendMessage m env).map
    rintro ⟨ret, d⟩ ⟨ret', d'⟩ ⟨hret, r', hd', hsame⟩
    exact ⟨hret, r', congrArg client hd', hsame⟩

theorem Alike.doWrite {n n' : NetConnection} (alike : n.Alike n') (results : List WriteResult)
    (clean : CleanEnv) :
    Agree Alike (n.doWrite results clean) (n'.doWrite results clean) := by
  obtain ⟨r, rfl, same⟩ := alike
  cases n with
  | conn c =>
    have halike : c.Alike { c with obuf := r } := ⟨r, rfl, same⟩
    apply (halike.doWrite results).map
    rintro d d' ⟨r', hd', hsame⟩
    exact ⟨r', congrArg conn hd', hsame⟩
  | client c =>
    have halike : c.Alike { c with obuf := r } := ⟨r, rfl, same⟩
    apply (halike.doWrite results clean).map
    rintro d d' ⟨r', hd', hsame⟩
    exact ⟨r', congrArg client hd', hsame⟩

/-- Alike connections show the same to every sequence of later calls. -/
theorem Alike.outcomes_eq {n n' : NetConnection} (alike : n.Alike n') (ret : Int)
    (later : List OutputCall) :
    outcomes Output.perform Output.view ⟨n, ret⟩ later =
      outcomes Output.perform Output.view ⟨n', ret⟩ later := by
  let rel : Output → Output → Prop :=
    fun o o' => o.connection.Alike o'.connection ∧ o.ret = o'.ret
  have hstart : rel ⟨n, ret⟩ ⟨n', ret⟩ := ⟨alike, rfl⟩
  apply Transition.outcomes_eq _ _ hstart
  · rintro ⟨d, ret⟩ ⟨d', ret'⟩ ⟨⟨r, hd', same⟩, hret⟩
    have hret' : ret = ret' := hret
    have hd : d' = d.withObuf r := hd'
    subst hret' hd
    have hcontent := same.content
    cases d <;> simp only [Output.view, withObuf] <;> exact congrArg _ (congrArg₂ _ hcontent rfl)
  · rintro ⟨d, ret⟩ ⟨d', ret'⟩ call ⟨halike, hret⟩
    have hret' : ret = ret' := hret
    subst hret'
    cases call with
    | send m env =>
      apply (Alike.sendMessage halike m env).map
      rintro p p' ⟨hp, hp'⟩
      exact ⟨hp', hp⟩
    | write results clean =>
      apply (Alike.doWrite halike results clean).map
      intro e e' he
      exact ⟨he, rfl⟩

/-! ## Failed sends -/

/-- A send that returns -1 leaves the pending bytes and the head, and whatever is
    called later shows what it would show had the send not been called. -/
def FailureAtomic (n : NetConnection) (m : Message) (env : SendEnv) : Prop :=
  ∀ n', n.sendMessage m env = Except.ok (-1, n') →
    n'.obuf.content = n.obuf.content ∧ n'.obuf.Ready ∧
    ∀ (ret : Int) (later : List OutputCall),
      outcomes Output.perform Output.view ⟨n', ret⟩ later =
        outcomes Output.perform Output.view ⟨n, ret⟩ later

/-- The send does not get as far as to pop from behind pending bytes: nothing is
    pending, the header already does not fit, the whole message fits, or the sum
    of the lengths leaves the `int` range. -/
def PopsOwnHeader (n : NetConnection) (m : Message) : Prop :=
  n.obuf.length = 0 ∨ maxBytes < n.obuf.length + messageHeadLen ∨
    n.obuf.length + m.bytes.length ≤ maxBytes ∨ 2 ^ 31 ≤ n.obuf.length + m.bytes.length

section Failed

variable {n : NetConnection} {m : Message} (env : SendEnv)

/-- A send that pops from behind pending bytes leaves a window the next operation
    refuses. -/
theorem not_failureAtomic (hready : n.obuf.Ready) (hpops : ¬ n.PopsOwnHeader m) :
    ¬ n.FailureAtomic m env := by
  simp only [PopsOwnHeader, not_or, not_lt, not_le] at hpops
  obtain ⟨hpending, hhead, hfull, hsmall⟩ := hpops
  intro hatomic
  rcases queueMessage_bodyRefused env hready hhead hfull with
    ⟨hwraps, -⟩ | ⟨-, obuf, hqueue, -, -, hpoison⟩
  · omega
  · obtain ⟨-, hready', -⟩ := hatomic _ (sendMessage_failed hqueue)
    rw [withObuf_obuf] at hready'
    exact hpoison (by omega) hready'

theorem failureAtomic_of_alike {obuf : ReactorBuf}
    (hqueue : queueMessage n.obuf m env = Except.ok (-1, obuf, false)) (hready : obuf.Ready)
    (hready' : n.obuf.Ready) (hcontent : obuf.content = n.obuf.content) :
    n.FailureAtomic m env := by
  intro n' hsend
  rw [sendMessage_failed hqueue] at hsend
  cases hsend
  refine ⟨by rw [withObuf_obuf, hcontent], by rw [withObuf_obuf]; exact hready, ?_⟩
  intro ret later
  have halike : n.Alike (n.withObuf obuf) :=
    ⟨obuf, rfl, SameBytes.of_ready hready' hready hcontent.symm⟩
  exact (halike.outcomes_eq ret later).symm

/-- **A failed send is atomic exactly when it does not pop from behind pending
    bytes.** For `tcp_conn` and `tcp_client` alike, over every state of the output
    buffer, every message and every answer of the outside. -/
theorem failureAtomic_iff (n : NetConnection) (m : Message) (env : SendEnv) :
    n.FailureAtomic m env ↔ (n.obuf.Ready → n.PopsOwnHeader m) := by
  constructor
  · intro hatomic hready
    by_contra hpops
    exact not_failureAtomic env hready hpops hatomic
  · intro hcondition
    by_cases hready : n.obuf.Ready
    · by_cases hfits : n.obuf.length + m.bytes.length ≤ maxBytes
      · -- the send succeeds
        obtain ⟨n'', hsend, -⟩ := sendMessage_accepted env hready hfits
        intro n' hfailed
        rw [hsend] at hfailed
        cases hfailed
      · by_cases hhead : n.obuf.length + messageHeadLen ≤ maxBytes
        · rcases queueMessage_bodyRefused (m := m) env hready hhead (by omega) with
            ⟨-, herror⟩ | ⟨hsmall, obuf, hqueue, -, hnone, -⟩
          · intro n' hfailed
            rw [sendMessage_error herror] at hfailed
            cases hfailed
          · -- the header is all there is to pop
            have hempty : n.obuf.length = 0 := by
              rcases hcondition hready with h | h | h | h <;> omega
            rw [hnone hempty] at hqueue
            apply failureAtomic_of_alike env hqueue ReactorBuf.ready_empty hready
            exact (List.length_eq_zero_iff.mp (by rw [ReactorBuf.content_length, hempty])).symm
        · have hqueue := queueMessage_headRefused (m := m) env hready (by omega)
          exact failureAtomic_of_alike env hqueue hready hready rfl
    · intro n' hfailed
      rw [sendMessage_error (queueMessage_not_ready env hready)] at hfailed
      cases hfailed

end Failed

/-- A message of eight megabytes less eight bytes behind a queued message of one
    byte. -/
theorem rollback_takes_pending :
    ∃ n : NetConnection,
      (conn (TcpConn.create 7 EventLoop.empty ⟨fun _ => false, 0⟩ true)).sendMessage
        ⟨1, [65], by decide⟩ ⟨[], [], true⟩ = Except.ok (0, n) ∧
      ¬ n.FailureAtomic ⟨2, List.replicate 8388600 0, by rw [List.length_replicate]; decide⟩
        ⟨[], [], true⟩ := by
  have hmax : maxBytes = 8388608 := rfl
  have hhead : messageHeadLen = 8 := rfl
  have hready : (conn (TcpConn.create 7 EventLoop.empty ⟨fun _ => false, 0⟩ true)).obuf.Ready :=
    ReactorBuf.ready_empty
  obtain ⟨n, hsend, hready', hcontent, -⟩ :=
    sendMessage_accepted (m := ⟨1, [65], by decide⟩) ⟨[], [], true⟩ hready (by decide)
  have hlen : n.obuf.length = 9 := by
    rw [← ReactorBuf.content_length, hcontent]
    rfl
  refine ⟨n, hsend, not_failureAtomic _ hready' ?_⟩
  simp only [PopsOwnHeader, Message.bytes_length, List.length_replicate]
  omega

end NetConnection

end LarsSystem.Reactor
