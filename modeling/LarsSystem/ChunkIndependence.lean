import LarsSystem.TcpConn

/-!
# Reading does not depend on how the stream is cut

A peer's byte stream reaches `tcp_conn::do_read` in chunks. Each chunk is
dispatched together with what the one before left unparsed, so after any number
of chunks the connection stands where the reference parser stands after the
whole stream.
-/

namespace LarsSystem.Reactor

open LarsSystem.MachineWord
open LarsSystem.LengthFraming

namespace TcpConn

/-- One `do_read` for each chunk, until the connection is closed: `FIONREAD` reports
    the size of the chunk, and `stale` is what a block from the pool still holds. -/
def readChunks (c : TcpConn) : List (List Byte × List Byte) → Except Crash TcpConn
  | [] => Except.ok c
  | (bytes, stale) :: chunks =>
    if c.connfd = -1 then Except.ok c
    else
      match c.doRead ⟨some bytes.length, some bytes, stale⟩ with
      | Except.error crash => Except.error crash
      | Except.ok c => c.readChunks chunks

/-- The stream the chunks are cut from. -/
def streamOf (chunks : List (List Byte × List Byte)) : List Byte := (chunks.map Prod.fst).flatten

theorem streamOf_cons (bytes stale : List Byte) (chunks : List (List Byte × List Byte)) :
    streamOf ((bytes, stale) :: chunks) = bytes ++ streamOf chunks := rfl

theorem streamOf_append (first second : List (List Byte × List Byte)) :
    streamOf (first ++ second) = streamOf first ++ streamOf second := by
  simp [streamOf]

/-! ## A whole stream

A connection that has read `symbols` has called the router with the frames of
`symbols` and holds their unparsed rest; behind a malformed header it is closed
and reads no more. -/

/-- The state of a connection that has read `symbols`, begun as `start`. -/
structure HasRead (start c : TcpConn) (symbols : List Byte) : Prop where
  ready : c.ibuf.Ready
  calls : c.calls = start.calls ++ (parse msgCodec symbols).frames.map RouterCall.ofFrame
  unread : c.ibuf.content = (parse msgCodec symbols).rest
  fd : c.connfd = start.connfd
  closed : c.closed = start.closed

theorem readChunks_closed {c : TcpConn} (hclosed : c.connfd = -1)
    (chunks : List (List Byte × List Byte)) : c.readChunks chunks = Except.ok c := by
  cases chunks with
  | nil => rfl
  | cons chunk chunks => rw [readChunks, if_pos hclosed]

section Step

variable {start c : TcpConn} {symbols bytes : List Byte}

/-- The calls of the next `do_read` are those the longer stream adds. -/
theorem HasRead.calls_append (hread : HasRead start c symbols)
    (hok : (parse msgCodec symbols).malformed = false) (bytes : List Byte) :
    c.calls ++ (parse msgCodec (c.ibuf.content ++ bytes)).frames.map RouterCall.ofFrame =
      start.calls ++ (parse msgCodec (symbols ++ bytes)).frames.map RouterCall.ofFrame := by
  rw [parse_append msgCodec symbols bytes hok, hread.calls, hread.unread]
  simp [Parsed.prepend]

/-- One more chunk of a stream that goes on. -/
theorem HasRead.chunk (hread : HasRead start c symbols)
    (hok : (parse msgCodec symbols).malformed = false) (stale : List Byte)
    (hne : bytes ≠ []) (hfits : c.ibuf.length + bytes.length ≤ maxBytes)
    (hbodies : ∀ frame ∈ (parse msgCodec (symbols ++ bytes)).frames, frame.2 ≠ [])
    (hmore : (parse msgCodec (symbols ++ bytes)).malformed = false) :
    ∃ c' : TcpConn, c.doRead ⟨some bytes.length, some bytes, stale⟩ = Except.ok c' ∧
      HasRead start c' (symbols ++ bytes) := by
  -- what `do_read` sees is the unparsed rest and the chunk
  have hparse := parse_append msgCodec symbols bytes hok
  rw [← hread.unread] at hparse
  have htail : ¬ (parse msgCodec (c.ibuf.content ++ bytes)).EndsEmpty := by
    apply Parsed.not_endsEmpty
    intro frame hframe
    apply hbodies
    rw [hparse]
    exact List.mem_append_right _ hframe
  rw [hparse] at hmore
  obtain ⟨ibuf, hready, hcontent, hdone⟩ :=
    doRead_chunk stale hread.ready hne hfits htail hmore
  refine ⟨_, hdone, hready, hread.calls_append hok bytes, ?_, hread.fd, hread.closed⟩
  rw [hcontent, hparse]
  rfl

/-- The chunk that completes a malformed header. -/
theorem HasRead.chunk_malformed (hread : HasRead start c symbols)
    (hok : (parse msgCodec symbols).malformed = false) (stale : List Byte)
    (hne : bytes ≠ []) (hfits : c.ibuf.length + bytes.length ≤ maxBytes)
    (hbad : (parse msgCodec (symbols ++ bytes)).malformed = true) :
    ∃ c' : TcpConn, c.doRead ⟨some bytes.length, some bytes, stale⟩ = Except.ok c' ∧
      c'.connfd = -1 ∧ c'.closed = start.closed ++ [start.connfd] ∧
      c'.calls = start.calls ++
        (parse msgCodec (symbols ++ bytes)).frames.map RouterCall.ofFrame := by
  rw [parse_append msgCodec symbols bytes hok, ← hread.unread] at hbad
  refine ⟨_, doRead_malformed stale hread.ready hne hfits hbad, rfl, ?_,
    hread.calls_append hok bytes⟩
  simp only [cleanConn, hread.closed, hread.fd]

end Step

theorem readChunks_hasRead {start c : TcpConn} {symbols : List Byte}
    (chunks : List (List Byte × List Byte)) (hread : HasRead start c symbols)
    (hok : (parse msgCodec symbols).malformed = false) (hopen : start.connfd ≠ -1)
    (hne : ∀ chunk ∈ chunks, chunk.1 ≠ [])
    (hbodies : ∀ frame ∈ (parse msgCodec (symbols ++ streamOf chunks)).frames, frame.2 ≠ [])
    (hfits : ∀ before chunk after, chunks = before ++ chunk :: after →
      (parse msgCodec (symbols ++ streamOf before)).malformed = false →
      (parse msgCodec (symbols ++ streamOf before)).rest.length + chunk.1.length ≤ maxBytes) :
    ∃ c' : TcpConn, c.readChunks chunks = Except.ok c' ∧
      ((parse msgCodec (symbols ++ streamOf chunks)).malformed = false ∧
          HasRead start c' (symbols ++ streamOf chunks) ∨
        (parse msgCodec (symbols ++ streamOf chunks)).malformed = true ∧
          c'.connfd = -1 ∧ c'.closed = start.closed ++ [start.connfd] ∧
          c'.calls = start.calls ++
            (parse msgCodec (symbols ++ streamOf chunks)).frames.map RouterCall.ofFrame) := by
  induction chunks generalizing c symbols with
  | nil =>
    have hsymbols : symbols ++ streamOf [] = symbols := List.append_nil symbols
    rw [hsymbols]
    exact ⟨c, rfl, Or.inl ⟨hok, hread⟩⟩
  | cons chunk chunks ih =>
    obtain ⟨bytes, stale⟩ := chunk
    have hsplit : symbols ++ streamOf ((bytes, stale) :: chunks) =
        (symbols ++ bytes) ++ streamOf chunks := by
      rw [streamOf_cons, List.append_assoc]
    rw [hsplit] at hbodies ⊢
    have hroom : c.ibuf.length + bytes.length ≤ maxBytes := by
      have := hfits [] (bytes, stale) chunks rfl (by simpa [streamOf] using hok)
      simpa [streamOf, ← hread.unread] using this
    have hbytes : bytes ≠ [] := hne (bytes, stale) List.mem_cons_self
    rw [readChunks, if_neg (by rw [hread.fd]; exact hopen)]
    cases hbad : (parse msgCodec (symbols ++ bytes)).malformed with
    | true =>
      obtain ⟨c', hdone, hclosed⟩ := hread.chunk_malformed hok stale hbytes hroom hbad
      simp only [hdone]
      rw [readChunks_closed hclosed.1, parse_append_malformed msgCodec _ _ hbad]
      exact ⟨c', rfl, Or.inr ⟨rfl, hclosed⟩⟩
    | false =>
      have hwhole : ∀ frame ∈ (parse msgCodec (symbols ++ bytes)).frames, frame.2 ≠ [] := by
        intro frame hframe
        exact hbodies frame ((parse_frames_append msgCodec _ _).subset hframe)
      obtain ⟨c', hdone, hread'⟩ := hread.chunk hok stale hbytes hroom hwhole hbad
      simp only [hdone]
      apply ih hread' hbad
      · intro other hother
        exact hne other (List.mem_cons_of_mem _ hother)
      · exact hbodies
      · intro before other after heq hok'
        have := hfits ((bytes, stale) :: before) other after (by rw [heq]; rfl)
        rw [streamOf_cons, ← List.append_assoc] at this
        exact this hok'

/-- **Chunking independence.** A connection that has read nothing yet, fed any cut of
    a stream without empty frames into non-empty chunks that fit beside the unread
    bytes, calls the router with the frames the reference parser finds in the
    stream, in order and once each; it keeps the incomplete tail, and at the first
    malformed header it is closed, once. -/
theorem readChunks_parse (c : TcpConn) (chunks : List (List Byte × List Byte))
    (hopen : c.connfd ≠ -1) (hempty : c.ibuf = ReactorBuf.empty)
    (hne : ∀ chunk ∈ chunks, chunk.1 ≠ [])
    (hbodies : ∀ frame ∈ (parse msgCodec (streamOf chunks)).frames, frame.2 ≠ [])
    (hfits : ∀ before chunk after, chunks = before ++ chunk :: after →
      (parse msgCodec (streamOf before)).malformed = false →
      (parse msgCodec (streamOf before)).rest.length + chunk.1.length ≤ maxBytes) :
    ∃ c' : TcpConn, c.readChunks chunks = Except.ok c' ∧
      c'.calls = c.calls ++ (parse msgCodec (streamOf chunks)).frames.map RouterCall.ofFrame ∧
      ((parse msgCodec (streamOf chunks)).malformed = false →
        c'.connfd = c.connfd ∧ c'.closed = c.closed ∧
        c'.ibuf.content = (parse msgCodec (streamOf chunks)).rest) ∧
      ((parse msgCodec (streamOf chunks)).malformed = true →
        c'.connfd = -1 ∧ c'.closed = c.closed ++ [c.connfd]) := by
  have hnil : parse msgCodec [] = ⟨[], [], false⟩ := parse_nil msgCodec
  have hstart : HasRead c c [] := by
    constructor
    · rw [hempty]
      exact ReactorBuf.ready_empty
    · rw [hnil]
      simp
    · rw [hempty, hnil]
      rfl
    · rfl
    · rfl
  obtain ⟨c', hread, hcases⟩ :=
    readChunks_hasRead chunks hstart (by rw [hnil]) hopen hne hbodies hfits
  rw [List.nil_append] at hcases
  refine ⟨c', hread, ?_⟩
  rcases hcases with ⟨hok, hdone⟩ | ⟨hbad, hfd, hclosed, hcalls⟩
  · refine ⟨hdone.calls, fun _ => ⟨hdone.fd, hdone.closed, hdone.unread⟩, ?_⟩
    intro hbad
    exact absurd (hok.symm.trans hbad) (by simp)
  · refine ⟨hcalls, ?_, fun _ => ⟨hfd, hclosed⟩⟩
    intro hok
    exact absurd (hok.symm.trans hbad) (by simp)

/-- A message of one byte, cut inside its header. -/
theorem readChunks_cutHeader :
    ∃ c' : TcpConn,
      (create 7 EventLoop.empty ⟨fun _ => false, 0⟩ true).readChunks
        [((Message.mk 1 [65] (by decide)).bytes.take 3, []),
          ((Message.mk 1 [65] (by decide)).bytes.drop 3, [])] = Except.ok c' ∧
      c'.calls = [⟨1, 1, some [65]⟩] := by
  have hstream : streamOf [((Message.mk 1 [65] (by decide)).bytes.take 3, []),
      ((Message.mk 1 [65] (by decide)).bytes.drop 3, [])] =
      (Message.mk 1 [65] (by decide)).bytes := by decide
  have hparse := Message.parse_bytes (Message.mk 1 [65] (by decide)) (by decide)
  obtain ⟨c', hread, hcalls, -, -⟩ := readChunks_parse
    (create 7 EventLoop.empty ⟨fun _ => false, 0⟩ true)
    [((Message.mk 1 [65] (by decide)).bytes.take 3, []),
      ((Message.mk 1 [65] (by decide)).bytes.drop 3, [])]
    (by decide) rfl (by decide)
    (by
      rw [hstream, hparse]
      decide)
    (by
      intro before chunk after heq _
      have hall := congrArg streamOf heq
      rw [streamOf_append, hstream] at hall
      have hlen := congrArg List.length hall
      have hrest := parse_rest_length_le msgCodec (streamOf before)
      obtain ⟨bytes, stale⟩ := chunk
      rw [streamOf_cons] at hlen
      have hmax : maxBytes = 8388608 := rfl
      have htotal : (Message.mk 1 [65] (by decide)).bytes.length = 9 := by decide
      simp only [List.length_append] at hlen ⊢
      omega)
  refine ⟨c', hread, ?_⟩
  rw [hcalls, hstream, hparse]
  rfl

end TcpConn

end LarsSystem.Reactor
