import LarsSystem.Arrival
import LarsSystem.NetConnection
import LarsSystem.Transition

/-!
# Which byte streams abort the process

Both `do_read`s release the input block as soon as its last byte is popped. A
frame without a body that ends what has arrived loses its block with its header:
the router is handed NULL and the next `pop` fails its assertion. Nothing else a
peer can send fails an assertion of the input path, so a connection is safe
exactly as long as no read ends in such a frame (`arrivals_safe_iff`).
-/

namespace LarsSystem.Reactor

open LarsSystem.MachineWord
open LarsSystem.LengthFraming
open LarsSystem.Transition

/-! ## One `do_read` -/

/-- The router was never handed a NULL data pointer. -/
def NullFree (calls : List RouterCall) : Prop := ∀ call ∈ calls, call.data ≠ none

/-- A crash that is no failed assertion of the input path and hands out no NULL. -/
def NotFraming (crash : Crash) : Prop :=
  crash.fault ≠ Fault.popAssert ∧ crash.fault ≠ Fault.readAssert ∧ NullFree crash.calls

/-- A crash in the assertion of `pop`, after a NULL was handed out. -/
def Aborts (crash : Crash) : Prop :=
  crash.fault = Fault.popAssert ∧ ∃ call ∈ crash.calls, call.data = none

/-- The next `read_data` finds its window at the front, and no NULL was handed out. -/
def InputSafe (ibuf : ReactorBuf) (calls : List RouterCall) : Prop :=
  ibuf.Ready ∧ NullFree calls

/-- Stored, the arriving bytes end in an empty frame. -/
def EndsInEmptyFrame (ibuf : ReactorBuf) (a : Arrival) : Prop :=
  a.Stored ibuf ∧ (parse msgCodec (ibuf.content ++ a.bytes)).EndsEmpty

theorem nullFree_append_frames {calls : List RouterCall} (hnull : NullFree calls)
    (frames : List (MsgHead × List Byte)) :
    NullFree (calls ++ frames.map RouterCall.ofFrame) := by
  intro call hcall
  rcases List.mem_append.mp hcall with hold | hnew
  · exact hnull call hold
  · obtain ⟨frame, -, rfl⟩ := List.mem_map.mp hnew
    simp [RouterCall.ofFrame]

theorem notFraming_of_cleanFault {fault : Fault} {calls : List RouterCall}
    (hfault : TcpClient.CleanFault fault) (hnull : NullFree calls) :
    NotFraming ⟨fault, calls⟩ := by
  rcases hfault with rfl | rfl | rfl <;> exact ⟨by simp, by simp, hnull⟩

section DoRead

variable {ibuf : ReactorBuf} {calls : List RouterCall} {a : Arrival}

theorem dispatchLoop_stored (stale : List Byte) (hsafe : InputSafe ibuf calls)
    (hstored : a.Stored ibuf) (htail : ¬ EndsInEmptyFrame ibuf a) :
    ∃ filled rest calls' malformed,
      ibuf.readData (a.env stale) = Except.ok ((a.bytes.length : Int), filled) ∧
      dispatchLoop filled calls = Except.ok (rest, calls', malformed) ∧ NullFree calls' := by
  obtain ⟨filled, hread, hcontent⟩ := readData_stored stale hsafe.1 hstored
  have htail' : ¬ (parse msgCodec filled.content).EndsEmpty := by
    rw [hcontent]
    exact fun hends => htail ⟨hstored, hends⟩
  obtain ⟨rest, -, hloop⟩ := dispatchLoop_parse filled calls htail'
  exact ⟨filled, rest, _, _, hread, hloop, nullFree_append_frames hsafe.2 _⟩

theorem dispatchLoop_aborts (stale : List Byte) (calls : List RouterCall)
    (hready : ibuf.Ready) (htail : EndsInEmptyFrame ibuf a) :
    ∃ filled crash, ibuf.readData (a.env stale) = Except.ok ((a.bytes.length : Int), filled) ∧
      dispatchLoop filled calls = Except.error crash ∧ Aborts crash := by
  obtain ⟨filled, hread, hcontent⟩ := readData_stored stale hready htail.1
  obtain ⟨crash, hloop, hfault, hcall⟩ :=
    dispatchLoop_endsEmpty filled calls (hcontent ▸ htail.2)
  exact ⟨filled, crash, hread, hloop, hfault, hcall⟩

end DoRead

namespace TcpConn

variable {c : TcpConn} {a : Arrival}

theorem doRead_safe (stale : List Byte) (hsafe : InputSafe c.ibuf c.calls)
    (htail : ¬ EndsInEmptyFrame c.ibuf a) :
    Lands (fun c' : TcpConn => InputSafe c'.ibuf c'.calls) NotFraming
      (c.doRead (a.env stale)) := by
  by_cases hstored : a.Stored c.ibuf
  · obtain ⟨filled, rest, calls', malformed, hread, hloop, hnull⟩ :=
      dispatchLoop_stored stale hsafe hstored htail
    have hpos := hstored.bytes_pos
    simp only [doRead, hread, hloop]
    rw [if_neg (by omega), if_neg (by omega)]
    cases malformed with
    | true => exact ⟨ReactorBuf.ready_empty, hnull⟩
    | false => exact ⟨rest.adjust_ready, hnull⟩
  · rcases readData_not_stored stale hsafe.1 hstored with
      ⟨ret, ibuf', hread, hret, -, -⟩ | herror
    · simp only [doRead, hread]
      rcases hret with rfl | rfl <;> exact ⟨ReactorBuf.ready_empty, hsafe.2⟩
    · simp only [doRead, herror]
      exact ⟨by simp, by simp, hsafe.2⟩

theorem doRead_aborts (stale : List Byte) (hready : c.ibuf.Ready)
    (htail : EndsInEmptyFrame c.ibuf a) :
    ∃ crash, c.doRead (a.env stale) = Except.error crash ∧ Aborts crash := by
  obtain ⟨filled, crash, hread, hloop, haborts⟩ :=
    dispatchLoop_aborts stale c.calls hready htail
  have hpos := htail.1.bytes_pos
  refine ⟨crash, ?_, haborts⟩
  simp only [doRead, hread, hloop]
  rw [if_neg (by omega), if_neg (by omega)]

end TcpConn

namespace TcpClient

variable {c : TcpClient} {a : Arrival}

theorem doRead_safe (stale : List Byte) (clean : CleanEnv) (hsafe : InputSafe c.ibuf c.calls)
    (htail : ¬ EndsInEmptyFrame c.ibuf a) :
    Lands (fun c' : TcpClient => InputSafe c'.ibuf c'.calls) NotFraming
      (c.doRead (a.env stale) clean) := by
  by_cases hstored : a.Stored c.ibuf
  · obtain ⟨filled, rest, calls', malformed, hread, hloop, hnull⟩ :=
      dispatchLoop_stored stale hsafe hstored htail
    have hpos := hstored.bytes_pos
    simp only [doRead, hread, hloop]
    rw [if_neg (by omega), if_neg (by omega)]
    cases malformed with
    | true =>
      simp only [if_true]
      split
      · rename_i hclean
        exact notFraming_of_cleanFault (cleanConn_fault hclean) hnull
      · rename_i c' hclean
        obtain ⟨-, hcalls⟩ := cleanConn_input hclean
        exact ⟨c'.ibuf.adjust_ready, by rw [hcalls]; exact hnull⟩
    | false => exact ⟨rest.adjust_ready, hnull⟩
  · rcases readData_not_stored stale hsafe.1 hstored with
      ⟨ret, ibuf', hread, hret, hready, -⟩ | herror
    · have hlands : ∀ closing : TcpClient, closing.ibuf = ibuf' → closing.calls = c.calls →
          Lands (fun c' : TcpClient => InputSafe c'.ibuf c'.calls) NotFraming
            ((closing.cleanConn clean).mapError (⟨·, closing.calls⟩)) := by
        intro closing hibuf hcalls
        cases hclean : closing.cleanConn clean with
        | error fault =>
          exact notFraming_of_cleanFault (cleanConn_fault hclean) (hcalls ▸ hsafe.2)
        | ok c' =>
          obtain ⟨hibuf', hcalls'⟩ := cleanConn_input hclean
          exact ⟨by rw [hibuf', hibuf]; exact hready, by rw [hcalls', hcalls]; exact hsafe.2⟩
      simp only [doRead, hread]
      rcases hret with rfl | rfl <;> exact hlands _ rfl rfl
    · simp only [doRead, herror]
      exact ⟨by simp, by simp, hsafe.2⟩

theorem doRead_aborts (stale : List Byte) (clean : CleanEnv) (hready : c.ibuf.Ready)
    (htail : EndsInEmptyFrame c.ibuf a) :
    ∃ crash, c.doRead (a.env stale) clean = Except.error crash ∧
      Aborts crash := by
  obtain ⟨filled, crash, hread, hloop, haborts⟩ :=
    dispatchLoop_aborts stale c.calls hready htail
  have hpos := htail.1.bytes_pos
  refine ⟨crash, ?_, haborts⟩
  simp only [doRead, hread, hloop]
  rw [if_neg (by omega), if_neg (by omega)]

end TcpClient

/-! ## Every run of reads -/

/-- A read event: what arrives, what a block from the pool still holds, and what a
    reconnecting client meets. -/
structure ReadEvent where
  arrival : Arrival
  stale : List Byte
  clean : CleanEnv

namespace NetConnection

/-- The loop dispatches a read event while the descriptor is open. -/
def onReadable (n : NetConnection) (event : ReadEvent) : Except Crash NetConnection :=
  if n.getFd = -1 then Except.ok n else n.doRead (event.arrival.env event.stale) event.clean

/-- The read event does not end in an empty frame. -/
def NoEmptyTail (n : NetConnection) (event : ReadEvent) : Prop :=
  n.getFd ≠ -1 → ¬ EndsInEmptyFrame n.ibuf event.arrival

theorem doRead_safe {n : NetConnection} {event : ReadEvent} (hsafe : InputSafe n.ibuf n.calls)
    (htail : ¬ EndsInEmptyFrame n.ibuf event.arrival) :
    Lands (fun n' : NetConnection => InputSafe n'.ibuf n'.calls) NotFraming
      (n.doRead (event.arrival.env event.stale) event.clean) := by
  cases n with
  | conn c =>
    have hlands := TcpConn.doRead_safe event.stale hsafe htail
    simp only [doRead]
    cases hread : c.doRead (event.arrival.env event.stale) <;> rw [hread] at hlands <;>
      exact hlands
  | client c =>
    have hlands := TcpClient.doRead_safe event.stale event.clean hsafe htail
    simp only [doRead]
    cases hread : c.doRead (event.arrival.env event.stale) event.clean <;>
      rw [hread] at hlands <;> exact hlands

theorem doRead_aborts {n : NetConnection} (event : ReadEvent) (hready : n.ibuf.Ready)
    (htail : EndsInEmptyFrame n.ibuf event.arrival) :
    ∃ crash, n.doRead (event.arrival.env event.stale) event.clean = Except.error crash ∧
      Aborts crash := by
  cases n with
  | conn c =>
    obtain ⟨crash, hread, haborts⟩ := TcpConn.doRead_aborts event.stale hready htail
    exact ⟨crash, by rw [doRead, hread]; rfl, haborts⟩
  | client c =>
    obtain ⟨crash, hread, haborts⟩ :=
      TcpClient.doRead_aborts event.stale event.clean hready htail
    exact ⟨crash, by rw [doRead, hread]; rfl, haborts⟩

theorem onReadable_kept {n : NetConnection} (hsafe : InputSafe n.ibuf n.calls)
    (event : ReadEvent) (hguard : n.NoEmptyTail event) :
    Lands (fun n' : NetConnection => InputSafe n'.ibuf n'.calls) NotFraming
      (n.onReadable event) := by
  unfold onReadable
  split
  · exact hsafe
  · rename_i hopen
    exact doRead_safe hsafe (hguard hopen)

theorem onReadable_exact {n : NetConnection} (hsafe : InputSafe n.ibuf n.calls)
    (event : ReadEvent)
    (hlands : Lands (fun n' : NetConnection => NullFree n'.calls) NotFraming
      (n.onReadable event)) : n.NoEmptyTail event := by
  intro hopen htail
  obtain ⟨crash, hread, haborts⟩ := doRead_aborts event hsafe.1 htail
  rw [onReadable, if_neg hopen, hread] at hlands
  exact hlands.1 haborts.1

/-- **A connection is safe against its peer exactly as long as no read ends in an
    empty frame.** For `tcp_conn` and `tcp_client` alike, from an empty input
    buffer, over every sequence of read events: no assertion of `reactor_buf` or
    `read_data` fails and no NULL is handed out if and only if each event meets
    the condition. -/
theorem arrivals_safe_iff (n : NetConnection) (hempty : n.ibuf = ReactorBuf.empty)
    (hcalls : n.calls = []) (events : List ReadEvent) :
    Safe onReadable (fun n' => NullFree n'.calls) NotFraming n events ↔
      Meets onReadable NoEmptyTail n events := by
  have hstart : InputSafe n.ibuf n.calls := by
    constructor
    · rw [hempty]
      exact ReactorBuf.ready_empty
    · rw [hcalls]
      intro call hcall
      cases hcall
  apply safe_iff_meets (fun n : NetConnection => InputSafe n.ibuf n.calls)
  · exact fun _ hsafe => hsafe.2
  · exact fun _ event hsafe hguard => onReadable_kept hsafe event hguard
  · exact fun _ event hsafe hlands => onReadable_exact hsafe event hlands
  · exact hstart

/-- A message arriving in one read at a connection that has read nothing. -/
theorem endsInEmptyFrame_iff {m : Message} (hlimit : m.body.length ≤ messageLengthLimit)
    (hne : m.bytes ≠ []) {ibuf : ReactorBuf} (hempty : ibuf = ReactorBuf.empty) :
    EndsInEmptyFrame ibuf (.chunk m.bytes hne) ↔ m.body = [] := by
  have hstored : (Arrival.chunk m.bytes hne).Stored ibuf := by
    have hlen := m.bytes_length
    have h1 : maxBytes = 8388608 := rfl
    have h2 : messageLengthLimit = 65527 := rfl
    have h3 : messageHeadLen = 8 := rfl
    have h4 : ibuf.length = 0 := by rw [hempty]; rfl
    simp only [Arrival.Stored]
    omega
  have hbytes : ibuf.content ++ (Arrival.chunk m.bytes hne).bytes = m.bytes := by
    rw [hempty]
    rfl
  rw [EndsInEmptyFrame, hbytes, m.parse_bytes hlimit]
  constructor
  · rintro ⟨-, -, -, header, hlast⟩
    simpa [Message.frame] using congrArg (Option.map Prod.snd) hlast
  · intro hbody
    exact ⟨hstored, rfl, rfl, m.head, by simp [Message.frame, hbody]⟩

/-- A route request for module 0 and command 0 has an empty body. -/
def emptyRequest : Message := ⟨1, [], by decide⟩

/-- A new connection that reads it, as a server and as a client, hands out NULL and
    aborts. -/
theorem emptyRequest_aborts :
    ¬ Safe onReadable (fun n' => NullFree n'.calls) NotFraming
        (conn (TcpConn.create 7 EventLoop.empty ⟨fun _ => false, 0⟩ true))
        [⟨.chunk emptyRequest.bytes (by decide), [], noReconnect⟩] ∧
      ∃ client' : TcpClient,
        TcpClient.create EventLoop.empty ⟨7, .inProgress, [], true, true, ⟨[], true, true⟩⟩ =
          Except.ok client' ∧
        ¬ Safe onReadable (fun n' => NullFree n'.calls) NotFraming (client client')
          [⟨.chunk emptyRequest.bytes (by decide), [], noReconnect⟩] := by
  have habort : ∀ n : NetConnection, n.ibuf = ReactorBuf.empty → n.getFd = 7 →
      ¬ Safe onReadable (fun n' => NullFree n'.calls) NotFraming n
        [⟨.chunk emptyRequest.bytes (by decide), [], noReconnect⟩] := by
    rintro n hempty hfd ⟨-, hlands⟩
    have htail := (endsInEmptyFrame_iff (m := emptyRequest) (by decide) (by decide) hempty).mpr rfl
    have hready : n.ibuf.Ready := by
      rw [hempty]
      exact ReactorBuf.ready_empty
    obtain ⟨crash, hread, haborts⟩ :=
      doRead_aborts ⟨.chunk emptyRequest.bytes (by decide), [], noReconnect⟩ hready htail
    rw [onReadable, if_neg (by rw [hfd]; decide), hread] at hlands
    exact hlands.1 haborts.1
  exact ⟨habort _ rfl rfl, _, rfl, habort _ rfl rfl⟩

/-- A request with a body is read safely. -/
theorem arrivals_safe_request :
    Safe onReadable (fun n' => NullFree n'.calls) NotFraming
      (conn (TcpConn.create 7 EventLoop.empty ⟨fun _ => false, 0⟩ true))
      [⟨.chunk (Message.mk 1 [8, 1] (by decide)).bytes (by decide), [], noReconnect⟩] := by
  apply (arrivals_safe_iff _ rfl rfl _).mpr
  refine ⟨?_, fun _ _ => trivial⟩
  intro _ htail
  exact absurd ((endsInEmptyFrame_iff (by decide) (by decide) rfl).mp htail) (by decide)

end NetConnection

end LarsSystem.Reactor
