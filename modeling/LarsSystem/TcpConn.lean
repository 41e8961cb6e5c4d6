import LarsSystem.EventLoop
import LarsSystem.MessageInput
import LarsSystem.MessageOutput

/-!
# `tcp_conn`

The server's end of a connection: its two buffers, its entry in the event loop
and its slot in the connection table of `tcp_server`. Next to the fields of the
source a connection carries what the outside has seen of it: the calls of the
router, the messages `send_message` accepted, the bytes the descriptor took, and
the descriptors handed to `close`. The hooks of `tcp_server` do not touch the
connection they are called with.
-/

namespace LarsSystem.Reactor

open LarsSystem.MachineWord
open LarsSystem.LengthFraming

inductive ConnCallback where
  | connRdCallback
  | connWtCallback
deriving DecidableEq, Repr

/-- `tcp_server::conns` by slot (does it hold a connection) and `_cur_conns`. -/
structure ConnTable where
  conns : Int → Bool
  curConns : Int

def ConnTable.increaseConn (table : ConnTable) (fd : Int) : ConnTable :=
  { conns := Function.update table.conns fd true, curConns := table.curConns + 1 }

def ConnTable.decreaseConn (table : ConnTable) (fd : Int) : ConnTable :=
  { conns := Function.update table.conns fd false, curConns := table.curConns - 1 }

structure TcpConn where
  connfd : Int
  ibuf : ReactorBuf
  obuf : ReactorBuf
  loop : EventLoop ConnCallback
  server : ConnTable
  calls : List RouterCall
  accepted : List Message
  written : List Byte
  closed : List Int

namespace TcpConn

/-- The constructor, for a descriptor that `accept` returned. -/
def create (connfd : Int) (loop : EventLoop ConnCallback) (server : ConnTable) (ctlOk : Bool) :
    TcpConn :=
  { connfd := connfd
    ibuf := ReactorBuf.empty
    obuf := ReactorBuf.empty
    loop := loop.addIoEvent connfd .connRdCallback .EPOLLIN ctlOk
    server := server.increaseConn connfd
    calls := []
    accepted := []
    written := []
    closed := [] }

/-- `tcp_conn::clean_conn`. -/
def cleanConn (c : TcpConn) : TcpConn :=
  { c with
    server := c.server.decreaseConn c.connfd
    loop := (c.loop.delIoEvent c.connfd).closeFd c.connfd
    ibuf := c.ibuf.clear
    obuf := c.obuf.clear
    connfd := -1
    closed := c.closed ++ [c.connfd] }

/-- `tcp_conn::do_read`. -/
def doRead (c : TcpConn) (env : ReadEnv) : Except Crash TcpConn :=
  match c.ibuf.readData env with
  | Except.error fault => Except.error ⟨fault, c.calls⟩
  | Except.ok (ret, ibuf) =>
    if ret = -1 then Except.ok { c with ibuf := ibuf }.cleanConn
    else if ret = 0 then Except.ok { c with ibuf := ibuf }.cleanConn
    else
      match dispatchLoop ibuf c.calls with
      | Except.error crash => Except.error crash
      | Except.ok (ibuf, calls, malformed) =>
        let c := { c with ibuf := ibuf, calls := calls }
        let c := if malformed then c.cleanConn else c
        Except.ok { c with ibuf := c.ibuf.adjust }

/-- `tcp_conn::do_write`, with the answers of its `write` calls. -/
def doWrite (c : TcpConn) (results : List WriteResult) : Except Fault TcpConn :=
  match writeLoop c.obuf results with
  | Except.error fault => Except.error fault
  | Except.ok (obuf, taken, failed) =>
    let c := { c with obuf := obuf, written := c.written ++ taken }
    if failed then Except.ok c.cleanConn
    else if obuf.length = 0 then
      Except.ok { c with loop := c.loop.delIoEventMask c.connfd .EPOLLOUT }
    else Except.ok c

/-- `tcp_conn::send_message`. -/
def sendMessage (c : TcpConn) (m : Message) (env : SendEnv) : Except Fault (Int × TcpConn) :=
  match queueMessage c.obuf m env with
  | Except.error fault => Except.error fault
  | Except.ok (ret, obuf, activeEpollout) =>
    let loop :=
      if activeEpollout then c.loop.addIoEvent c.connfd .connWtCallback .EPOLLOUT env.ctlOk
      else c.loop
    let accepted := if ret = 0 then c.accepted ++ [m] else c.accepted
    Except.ok (ret, { c with obuf := obuf, loop := loop, accepted := accepted })

/-! ## One chunk -/

section Chunk

variable {c : TcpConn} {bytes : List Byte}

/-- A read that appended `bytes` dispatches what they complete; a malformed header
    closes the connection. -/
theorem doRead_dispatch {env : ReadEnv} {filled : ReactorBuf}
    (hread : c.ibuf.readData env = Except.ok ((bytes.length : Int), filled))
    (hfilled : filled.content = c.ibuf.content ++ bytes) (hne : bytes ≠ [])
    (htail : ¬ (parse msgCodec (c.ibuf.content ++ bytes)).EndsEmpty) :
    ∃ rest : ReactorBuf, rest.content = (parse msgCodec (c.ibuf.content ++ bytes)).rest ∧
      c.doRead env =
        let calls := c.calls ++
          (parse msgCodec (c.ibuf.content ++ bytes)).frames.map RouterCall.ofFrame
        if (parse msgCodec (c.ibuf.content ++ bytes)).malformed then
          Except.ok { c with calls := calls }.cleanConn
        else Except.ok { c with ibuf := rest.adjust, calls := calls } := by
  rw [← hfilled] at htail
  obtain ⟨rest, hrest, hloop⟩ := dispatchLoop_parse filled c.calls htail
  rw [hfilled] at hrest hloop
  have hpos := List.length_pos_iff.mpr hne
  refine ⟨rest, hrest, ?_⟩
  simp only [doRead, hread, hloop]
  rw [if_neg (by omega), if_neg (by omega)]
  split <;> rfl

theorem doRead_chunk (stale : List Byte) (hready : c.ibuf.Ready) (hne : bytes ≠ [])
    (hfits : c.ibuf.length + bytes.length ≤ maxBytes)
    (htail : ¬ (parse msgCodec (c.ibuf.content ++ bytes)).EndsEmpty)
    (hok : (parse msgCodec (c.ibuf.content ++ bytes)).malformed = false) :
    ∃ ibuf : ReactorBuf, ibuf.Ready ∧
      ibuf.content = (parse msgCodec (c.ibuf.content ++ bytes)).rest ∧
      c.doRead ⟨some bytes.length, some bytes, stale⟩ =
        Except.ok { c with
          ibuf := ibuf
          calls := c.calls ++
            (parse msgCodec (c.ibuf.content ++ bytes)).frames.map RouterCall.ofFrame } := by
  obtain ⟨filled, hread, -, hfilled⟩ := ReactorBuf.readData_chunk stale hready hne hfits
  obtain ⟨rest, hrest, hdispatch⟩ := doRead_dispatch hread hfilled hne htail
  refine ⟨rest.adjust, rest.adjust_ready, by rw [ReactorBuf.adjust_content, hrest], ?_⟩
  rw [hdispatch]
  simp only [hok, Bool.false_eq_true, if_false]

theorem doRead_malformed (stale : List Byte) (hready : c.ibuf.Ready) (hne : bytes ≠ [])
    (hfits : c.ibuf.length + bytes.length ≤ maxBytes)
    (hbad : (parse msgCodec (c.ibuf.content ++ bytes)).malformed = true) :
    c.doRead ⟨some bytes.length, some bytes, stale⟩ =
      Except.ok { c with
        calls := c.calls ++
          (parse msgCodec (c.ibuf.content ++ bytes)).frames.map RouterCall.ofFrame }.cleanConn := by
  obtain ⟨filled, hread, -, hfilled⟩ := ReactorBuf.readData_chunk stale hready hne hfits
  obtain ⟨rest, -, hdispatch⟩ :=
    doRead_dispatch hread hfilled hne (Parsed.not_endsEmpty_of_malformed hbad)
  rw [hdispatch]
  simp only [hbad, if_true]

end Chunk

end TcpConn

end LarsSystem.Reactor
