import LarsSystem.TcpClient
import LarsSystem.TcpConn

/-!
# `net_connection`

The common base of the two ends of a connection. Where `tcp_conn` and
`tcp_client` do the same to their buffers, a statement about a `NetConnection`
is a statement about both.
-/

namespace LarsSystem.Reactor

open LarsSystem.MachineWord
open LarsSystem.LengthFraming

inductive NetConnection where
  | conn (c : TcpConn)
  | client (c : TcpClient)

namespace NetConnection

/-- `get_fd`. -/
def getFd : NetConnection → Int
  | conn c => c.connfd
  | client c => c.sockfd

def ibuf : NetConnection → ReactorBuf
  | conn c => c.ibuf
  | client c => c.ibuf

def obuf : NetConnection → ReactorBuf
  | conn c => c.obuf
  | client c => c.obuf

def calls : NetConnection → List RouterCall
  | conn c => c.calls
  | client c => c.calls

def accepted : NetConnection → List Message
  | conn c => c.accepted
  | client c => c.accepted

def written : NetConnection → List Byte
  | conn c => c.written
  | client c => c.written

def closed : NetConnection → List Int
  | conn c => c.closed
  | client c => c.closed

def withObuf (n : NetConnection) (obuf : ReactorBuf) : NetConnection :=
  match n with
  | conn c => conn { c with obuf := obuf }
  | client c => client { c with obuf := obuf }

@[simp] theorem withObuf_obuf (n : NetConnection) (obuf : ReactorBuf) :
    (n.withObuf obuf).obuf = obuf := by
  cases n <;> rfl

/-- `send_message`. -/
def sendMessage (n : NetConnection) (m : Message) (env : SendEnv) :
    Except Fault (Int × NetConnection) :=
  match n with
  | conn c => (c.sendMessage m env).map fun (ret, c) => (ret, conn c)
  | client c => (c.sendMessage m env).map fun (ret, c) => (ret, client c)

/-- `do_read`; only a client reconnects and meets `clean`. -/
def doRead (n : NetConnection) (env : ReadEnv) (clean : CleanEnv) :
    Except Crash NetConnection :=
  match n with
  | conn c => (c.doRead env).map conn
  | client c => (c.doRead env clean).map client

/-- `do_write`. -/
def doWrite (n : NetConnection) (results : List WriteResult) (clean : CleanEnv) :
    Except Fault NetConnection :=
  match n with
  | conn c => (c.doWrite results).map conn
  | client c => (c.doWrite results clean).map client

/-- The kernel's answers for a reconnect that does not happen. -/
def noReconnect : CleanEnv :=
  ⟨[], ⟨-1, .failure, [], true, true, ⟨[], true, true⟩⟩⟩

/-! ## `send_message` -/

section Send

variable {n : NetConnection} {m : Message} {env : SendEnv} {obuf : ReactorBuf}

theorem sendMessage_error {fault : Fault}
    (hqueue : queueMessage n.obuf m env = Except.error fault) :
    n.sendMessage m env = Except.error fault := by
  cases n with
  | conn c =>
    have hqueue' : queueMessage c.obuf m env = Except.error fault := hqueue
    simp only [sendMessage, TcpConn.sendMessage, hqueue']
    rfl
  | client c =>
    have hqueue' : queueMessage c.obuf m env = Except.error fault := hqueue
    simp only [sendMessage, TcpClient.sendMessage, hqueue']
    rfl

theorem sendMessage_failed (hqueue : queueMessage n.obuf m env = Except.ok (-1, obuf, false)) :
    n.sendMessage m env = Except.ok (-1, n.withObuf obuf) := by
  cases n with
  | conn c =>
    have hqueue' : queueMessage c.obuf m env = Except.ok (-1, obuf, false) := hqueue
    simp only [sendMessage, TcpConn.sendMessage, hqueue']
    rfl
  | client c =>
    have hqueue' : queueMessage c.obuf m env = Except.ok (-1, obuf, false) := hqueue
    simp only [sendMessage, TcpClient.sendMessage, hqueue']
    rfl

/-- A message that fits is accepted and queued whole. -/
theorem sendMessage_accepted (env : SendEnv) (hready : n.obuf.Ready)
    (hfits : n.obuf.length + m.bytes.length ≤ maxBytes) :
    ∃ n', n.sendMessage m env = Except.ok (0, n') ∧ n'.obuf.Ready ∧
      n'.obuf.content = n.obuf.content ++ m.bytes ∧ n'.accepted = n.accepted ++ [m] ∧
      n'.written = n.written := by
  obtain ⟨obuf, hqueue, hobuf, hcontent⟩ := queueMessage_accepted env hready hfits
  cases n with
  | conn c =>
    have hqueue' : queueMessage c.obuf m env = _ := hqueue
    simp only [sendMessage, TcpConn.sendMessage, hqueue']
    exact ⟨_, rfl, hobuf, hcontent, rfl, rfl⟩
  | client c =>
    have hqueue' : queueMessage c.obuf m env = _ := hqueue
    simp only [sendMessage, TcpClient.sendMessage, hqueue']
    exact ⟨_, rfl, hobuf, hcontent, rfl, rfl⟩

end Send

/-! ## `do_write` without a failing `write` -/

theorem doWrite_of_writeLoop {n : NetConnection} {results : List WriteResult}
    {obuf : ReactorBuf} {taken : List Byte} (clean : CleanEnv)
    (hloop : writeLoop n.obuf results = Except.ok (obuf, taken, false)) :
    ∃ n', n.doWrite results clean = Except.ok n' ∧ n'.obuf = obuf ∧
      n'.accepted = n.accepted ∧ n'.written = n.written ++ taken := by
  cases n with
  | conn c =>
    have hloop' : writeLoop c.obuf results = Except.ok (obuf, taken, false) := hloop
    simp only [doWrite, TcpConn.doWrite, hloop', Bool.false_eq_true, if_false]
    split <;> exact ⟨_, rfl, rfl, rfl, rfl⟩
  | client c =>
    have hloop' : writeLoop c.obuf results = Except.ok (obuf, taken, false) := hloop
    simp only [doWrite, TcpClient.doWrite, hloop', Bool.false_eq_true, if_false]
    split <;> exact ⟨_, rfl, rfl, rfl, rfl⟩

/-! ## `do_read` of a well-formed chunk -/

theorem doRead_chunk {n : NetConnection} {bytes : List Byte} (stale : List Byte)
    (clean : CleanEnv) (hready : n.ibuf.Ready) (hne : bytes ≠ [])
    (hfits : n.ibuf.length + bytes.length ≤ maxBytes)
    (htail : ¬ (parse msgCodec (n.ibuf.content ++ bytes)).EndsEmpty)
    (hok : (parse msgCodec (n.ibuf.content ++ bytes)).malformed = false) :
    ∃ n', n.doRead ⟨some bytes.length, some bytes, stale⟩ clean = Except.ok n' ∧
      n'.ibuf.Ready ∧ n'.ibuf.content = (parse msgCodec (n.ibuf.content ++ bytes)).rest ∧
      n'.calls = n.calls ++
        (parse msgCodec (n.ibuf.content ++ bytes)).frames.map RouterCall.ofFrame ∧
      n'.getFd = n.getFd ∧ n'.closed = n.closed := by
  cases n with
  | conn c =>
    obtain ⟨ibuf, hibuf, hcontent, hread⟩ := TcpConn.doRead_chunk stale hready hne hfits htail hok
    simp only [doRead, hread]
    exact ⟨_, rfl, hibuf, hcontent, rfl, rfl, rfl⟩
  | client c =>
    obtain ⟨ibuf, hibuf, hcontent, hread⟩ :=
      TcpClient.doRead_chunk stale clean hready hne hfits htail hok
    simp only [doRead, hread]
    exact ⟨_, rfl, hibuf, hcontent, rfl, rfl, rfl⟩

end NetConnection

end LarsSystem.Reactor
