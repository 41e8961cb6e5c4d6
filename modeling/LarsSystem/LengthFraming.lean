import Mathlib.Data.List.Basic

/-!
# Length-prefixed framing of a symbol stream

A frame is a header of fixed size followed by a body whose length the header
announces; some headers are malformed and announce none. The reference parser
`parse` reads a finite stream once, from its first symbol. The facts here are
the ones an incremental reader needs: parsing a longer stream continues from the
unparsed rest of the shorter one, so that feeding a stream in pieces gives the
frames of the whole stream, and encoding inverts parsing.
-/

namespace LarsSystem.LengthFraming

universe u v

variable {α : Type u} {η : Type v}

/-- A header format: its size, how it is read and written, and the length of
    the body it announces (`none` for a malformed header). -/
structure Codec (α : Type u) (η : Type v) where
  headLen : Nat
  headLen_pos : 0 < headLen
  decode : List α → η
  encode : η → List α
  bodyLen : η → Option Nat
  encode_length : ∀ header, (encode header).length = headLen
  decode_encode : ∀ header, decode (encode header) = header
  encode_decode : ∀ symbols, symbols.length = headLen → encode (decode symbols) = symbols

/-- What one pass of the reference parser finds: the whole frames in order, the
    unparsed rest, and whether the rest starts with a malformed header. -/
structure Parsed (α : Type u) (η : Type v) where
  frames : List (η × List α)
  rest : List α
  malformed : Bool
deriving DecidableEq

def Parsed.prepend (earlier : List (η × List α)) (p : Parsed α η) : Parsed α η :=
  { p with frames := earlier ++ p.frames }

@[simp] theorem Parsed.prepend_nil (p : Parsed α η) : p.prepend [] = p := rfl

@[simp] theorem Parsed.prepend_prepend (first second : List (η × List α))
    (p : Parsed α η) : (p.prepend second).prepend first = p.prepend (first ++ second) := by
  simp [Parsed.prepend]

/-- The whole stream was read, and the last frame of it has an empty body. -/
def Parsed.EndsEmpty (p : Parsed α η) : Prop :=
  p.malformed = false ∧ p.rest = [] ∧ ∃ header, p.frames.getLast? = some (header, [])

theorem Parsed.endsEmpty_prepend_of_ne {frame : η × List α} {p : Parsed α η}
    (hne : p.frames ≠ []) : (p.prepend [frame]).EndsEmpty ↔ p.EndsEmpty := by
  obtain ⟨first, more, hframes⟩ := List.exists_cons_of_ne_nil hne
  simp [Parsed.EndsEmpty, Parsed.prepend, hframes, List.getLast?_cons_cons]

theorem Parsed.not_endsEmpty {p : Parsed α η} (hbodies : ∀ frame ∈ p.frames, frame.2 ≠ []) :
    ¬ p.EndsEmpty := by
  rintro ⟨-, -, header, hlast⟩
  exact hbodies _ (List.mem_of_getLast? hlast) rfl

theorem Parsed.not_endsEmpty_of_malformed {p : Parsed α η} (hbad : p.malformed = true) :
    ¬ p.EndsEmpty := by
  rintro ⟨hok, -⟩
  exact absurd (hbad.symm.trans hok) (by simp)

variable (c : Codec α η)

def parse (symbols : List α) : Parsed α η :=
  if c.headLen ≤ symbols.length then
    let header := c.decode (symbols.take c.headLen)
    match c.bodyLen header with
    | none => ⟨[], symbols, true⟩
    | some n =>
      if c.headLen + n ≤ symbols.length then
        (parse (symbols.drop (c.headLen + n))).prepend
          [(header, (symbols.drop c.headLen).take n)]
      else ⟨[], symbols, false⟩
  else ⟨[], symbols, false⟩
termination_by symbols.length
decreasing_by
  have := c.headLen_pos
  simp only [List.length_drop]
  omega

/-! ## One step of the parser -/

theorem parse_short {symbols : List α} (hshort : symbols.length < c.headLen) :
    parse c symbols = ⟨[], symbols, false⟩ := by
  rw [parse, if_neg (by omega)]

theorem parse_nil : parse c [] = ⟨[], [], false⟩ :=
  parse_short c (by simpa using c.headLen_pos)

theorem parse_malformed {symbols : List α} (hlen : c.headLen ≤ symbols.length)
    (hbad : c.bodyLen (c.decode (symbols.take c.headLen)) = none) :
    parse c symbols = ⟨[], symbols, true⟩ := by
  rw [parse, if_pos hlen]
  simp only [hbad]

theorem parse_incomplete {symbols : List α} {n : Nat} (hlen : c.headLen ≤ symbols.length)
    (hbody : c.bodyLen (c.decode (symbols.take c.headLen)) = some n)
    (hshort : symbols.length < c.headLen + n) :
    parse c symbols = ⟨[], symbols, false⟩ := by
  rw [parse, if_pos hlen]
  simp only [hbody]
  rw [if_neg (by omega)]

theorem parse_frame {symbols : List α} {n : Nat}
    (hbody : c.bodyLen (c.decode (symbols.take c.headLen)) = some n)
    (hlen : c.headLen + n ≤ symbols.length) :
    parse c symbols =
      (parse c (symbols.drop (c.headLen + n))).prepend
        [(c.decode (symbols.take c.headLen), (symbols.drop c.headLen).take n)] := by
  rw [parse, if_pos (by omega)]
  simp only [hbody]
  rw [if_pos hlen]

/-- Induction along the parser: a stream is too short for a header, starts with
    a malformed header, with an incomplete frame, or with a whole frame. -/
theorem parse_induction {motive : List α → Prop}
    (short : ∀ symbols, symbols.length < c.headLen → motive symbols)
    (malformed : ∀ symbols, c.headLen ≤ symbols.length →
      c.bodyLen (c.decode (symbols.take c.headLen)) = none → motive symbols)
    (incomplete : ∀ symbols n, c.headLen ≤ symbols.length →
      c.bodyLen (c.decode (symbols.take c.headLen)) = some n →
      symbols.length < c.headLen + n → motive symbols)
    (frame : ∀ symbols n, c.bodyLen (c.decode (symbols.take c.headLen)) = some n →
      c.headLen + n ≤ symbols.length → motive (symbols.drop (c.headLen + n)) →
      motive symbols)
    (symbols : List α) : motive symbols := by
  by_cases hlen : c.headLen ≤ symbols.length
  · cases hbody : c.bodyLen (c.decode (symbols.take c.headLen)) with
    | none => exact malformed symbols hlen hbody
    | some n =>
      by_cases hfull : c.headLen + n ≤ symbols.length
      · exact frame symbols n hbody hfull
          (parse_induction short malformed incomplete frame _)
      · exact incomplete symbols n hlen hbody (by omega)
  · exact short symbols (by omega)
termination_by symbols.length
decreasing_by
  have := c.headLen_pos
  simp only [List.length_drop]
  omega

/-! ## Continuing from the rest

A whole frame at the head is found whatever follows it, and behind a malformed
header nothing is found. -/

theorem parse_frame_append {symbols : List α} {n : Nat} (more : List α)
    (hbody : c.bodyLen (c.decode (symbols.take c.headLen)) = some n)
    (hlen : c.headLen + n ≤ symbols.length) :
    parse c (symbols ++ more) =
      (parse c (symbols.drop (c.headLen + n) ++ more)).prepend
        [(c.decode (symbols.take c.headLen), (symbols.drop c.headLen).take n)] := by
  have htake : (symbols ++ more).take c.headLen = symbols.take c.headLen :=
    List.take_append_of_le_length (by omega)
  have hpayload : ((symbols ++ more).drop c.headLen).take n =
      (symbols.drop c.headLen).take n := by
    rw [List.drop_append_of_le_length (by omega),
      List.take_append_of_le_length (by simp only [List.length_drop]; omega)]
  rw [parse_frame c (by rw [htake, hbody]) (by simp only [List.length_append]; omega),
    htake, hpayload, List.drop_append_of_le_length hlen]

/-- **Parsing continues from the rest.** Symbols that arrive later are parsed
    behind the unparsed rest of the earlier ones. -/
theorem parse_append (symbols more : List α) (hok : (parse c symbols).malformed = false) :
    parse c (symbols ++ more) =
      (parse c ((parse c symbols).rest ++ more)).prepend (parse c symbols).frames := by
  induction symbols using parse_induction c with
  | short symbols hshort => simp [parse_short c hshort]
  | malformed symbols hlen hbad => simp [parse_malformed c hlen hbad] at hok
  | incomplete symbols n hlen hbody hshort => simp [parse_incomplete c hlen hbody hshort]
  | frame symbols n hbody hlen ih =>
    rw [parse_frame c hbody hlen] at hok ⊢
    rw [parse_frame_append c more hbody hlen, ih hok]
    simp [Parsed.prepend]

theorem parse_append_malformed (symbols more : List α)
    (hbad : (parse c symbols).malformed = true) :
    parse c (symbols ++ more) =
      ⟨(parse c symbols).frames, (parse c symbols).rest ++ more, true⟩ := by
  induction symbols using parse_induction c with
  | short symbols hshort => simp [parse_short c hshort] at hbad
  | malformed symbols hlen hnone =>
    have htake : (symbols ++ more).take c.headLen = symbols.take c.headLen :=
      List.take_append_of_le_length hlen
    rw [parse_malformed c hlen hnone,
      parse_malformed c (by simp only [List.length_append]; omega) (by rw [htake, hnone])]
  | incomplete symbols n hlen hbody hshort =>
    simp [parse_incomplete c hlen hbody hshort] at hbad
  | frame symbols n hbody hlen ih =>
    rw [parse_frame c hbody hlen] at hbad ⊢
    rw [parse_frame_append c more hbody hlen, ih hbad]
    simp [Parsed.prepend]

/-- What a shorter stream shows, the longer one shows too. -/
theorem parse_frames_append (symbols more : List α) :
    (parse c symbols).frames <+: (parse c (symbols ++ more)).frames := by
  cases hbad : (parse c symbols).malformed with
  | true =>
    rewrite [parse_append_malformed c symbols more hbad]
    exact List.prefix_refl _
  | false =>
    rw [parse_append c symbols more hbad]
    exact List.prefix_append _ _

/-! ## Encoding

A frame is `Announced` when its header announces the length of its own body.
Announced frames are read back whatever follows them, and a stream cut inside
one shows neither a frame nor a malformed header. -/

def encodeFrame (frame : η × List α) : List α := c.encode frame.1 ++ frame.2

def encodeFrames (frames : List (η × List α)) : List α :=
  (frames.map (encodeFrame c)).flatten

@[simp] theorem encodeFrames_nil : encodeFrames c [] = [] := rfl

@[simp] theorem encodeFrames_cons (frame : η × List α) (frames : List (η × List α)) :
    encodeFrames c (frame :: frames) = encodeFrame c frame ++ encodeFrames c frames := rfl

@[simp] theorem encodeFrames_append (first second : List (η × List α)) :
    encodeFrames c (first ++ second) = encodeFrames c first ++ encodeFrames c second := by
  simp [encodeFrames]

@[simp] theorem encodeFrame_length (frame : η × List α) :
    (encodeFrame c frame).length = c.headLen + frame.2.length := by
  simp [encodeFrame, c.encode_length]

def Announced (frame : η × List α) : Prop := c.bodyLen frame.1 = some frame.2.length

theorem parse_encodeFrame_append (frame : η × List α) (hframe : Announced c frame)
    (more : List α) :
    parse c (encodeFrame c frame ++ more) = (parse c more).prepend [frame] := by
  have htake : (encodeFrame c frame ++ more).take c.headLen = c.encode frame.1 := by
    rw [encodeFrame, List.append_assoc, List.take_left' (c.encode_length _)]
  have hdrop : (encodeFrame c frame ++ more).drop c.headLen = frame.2 ++ more := by
    rw [encodeFrame, List.append_assoc, List.drop_left' (c.encode_length _)]
  have hbody : c.bodyLen (c.decode ((encodeFrame c frame ++ more).take c.headLen)) =
      some frame.2.length := by
    rw [htake, c.decode_encode]
    exact hframe
  rw [parse_frame c hbody (by simp), htake, hdrop, c.decode_encode,
    List.drop_left' (encodeFrame_length c frame), List.take_left' rfl]

theorem parse_encodeFrames_append (frames : List (η × List α))
    (hframes : ∀ frame ∈ frames, Announced c frame) (more : List α) :
    parse c (encodeFrames c frames ++ more) = (parse c more).prepend frames := by
  induction frames with
  | nil => simp
  | cons frame frames ih =>
    rw [encodeFrames_cons, List.append_assoc,
      parse_encodeFrame_append c frame (hframes frame (by simp)),
      ih (fun other hother => hframes other (by simp [hother]))]
    simp

theorem parse_cutFrame (frame : η × List α) (hframe : Announced c frame)
    {symbols more : List α} (hmore : more ≠ [])
    (hsplit : symbols ++ more = encodeFrame c frame) :
    parse c symbols = ⟨[], symbols, false⟩ := by
  have hlong : symbols.length < c.headLen + frame.2.length := by
    have := congrArg List.length hsplit
    simp only [List.length_append, encodeFrame_length] at this
    have := List.length_pos_iff.mpr hmore
    omega
  by_cases hlen : c.headLen ≤ symbols.length
  · have htake : symbols.take c.headLen = c.encode frame.1 := by
      have hwhole : (symbols ++ more).take c.headLen = c.encode frame.1 := by
        rw [hsplit, encodeFrame, List.take_left' (c.encode_length _)]
      rwa [List.take_append_of_le_length hlen] at hwhole
    have hbody : c.bodyLen (c.decode (symbols.take c.headLen)) = some frame.2.length := by
      rw [htake, c.decode_encode]
      exact hframe
    exact parse_incomplete c hlen hbody hlong
  · exact parse_short c (by omega)

/-- **Every prefix of an encoded sequence is parsed into a prefix of the
    sequence**, and no header in it is malformed. -/
theorem parse_initialSegment (frames : List (η × List α))
    (hframes : ∀ frame ∈ frames, Announced c frame) {symbols more : List α}
    (hsplit : symbols ++ more = encodeFrames c frames) :
    (parse c symbols).malformed = false ∧ (parse c symbols).frames <+: frames := by
  induction frames generalizing symbols with
  | nil =>
    obtain ⟨rfl, -⟩ := List.append_eq_nil_iff.mp hsplit
    simp [parse_nil]
  | cons frame frames ih =>
    have hframe := hframes frame (by simp)
    rw [encodeFrames_cons] at hsplit
    rcases List.append_eq_append_iff.mp hsplit with ⟨gap, hhead, -⟩ | ⟨gap, hhead, htail⟩
    · -- the prefix ends inside the first frame, or exactly at its end
      by_cases hgap : gap = []
      · subst hgap
        have hsymbols : symbols = encodeFrame c frame ++ [] := by simpa using hhead.symm
        rw [hsymbols, parse_encodeFrame_append c frame hframe]
        simp [parse_nil, Parsed.prepend]
      · rw [parse_cutFrame c frame hframe hgap hhead.symm]
        simp
    · have hrest := ih (fun other hother => hframes other (by simp [hother])) htail.symm
      rw [hhead, parse_encodeFrame_append c frame hframe]
      exact ⟨hrest.1, by simpa [Parsed.prepend] using hrest.2⟩

/-- **Parsing loses nothing**: the frames found, encoded again, and the rest
    make up the stream. -/
theorem encodeFrames_parse (symbols : List α) :
    encodeFrames c (parse c symbols).frames ++ (parse c symbols).rest = symbols := by
  induction symbols using parse_induction c with
  | short symbols hshort => simp [parse_short c hshort]
  | malformed symbols hlen hbad => simp [parse_malformed c hlen hbad]
  | incomplete symbols n hlen hbody hshort => simp [parse_incomplete c hlen hbody hshort]
  | frame symbols n hbody hlen ih =>
    have hhead : c.encode (c.decode (symbols.take c.headLen)) = symbols.take c.headLen :=
      c.encode_decode _ (by simp only [List.length_take]; omega)
    rw [parse_frame c hbody hlen]
    simp only [Parsed.prepend, encodeFrames_append, encodeFrames_cons, encodeFrames_nil,
      encodeFrame, hhead, List.append_nil, List.append_assoc]
    rw [ih, ← List.drop_drop, List.take_append_drop, List.take_append_drop]

theorem parse_rest_length_le (symbols : List α) :
    (parse c symbols).rest.length ≤ symbols.length := by
  have hsplit := congrArg List.length (encodeFrames_parse c symbols)
  rw [List.length_append] at hsplit
  omega

/-- What is left unparsed is less than the longest frame. -/
theorem parse_rest_length_lt {bound : Nat}
    (hbound : ∀ header n, c.bodyLen header = some n → n ≤ bound) {symbols : List α}
    (hok : (parse c symbols).malformed = false) :
    (parse c symbols).rest.length < c.headLen + bound := by
  induction symbols using parse_induction c with
  | short symbols hshort =>
    rw [parse_short c hshort]
    exact Nat.lt_of_lt_of_le hshort (Nat.le_add_right _ _)
  | malformed symbols hlen hbad => simp [parse_malformed c hlen hbad] at hok
  | incomplete symbols n hlen hbody hshort =>
    rw [parse_incomplete c hlen hbody hshort]
    exact Nat.lt_of_lt_of_le hshort (Nat.add_le_add_left (hbound _ n hbody) _)
  | frame symbols n hbody hlen ih =>
    rw [parse_frame c hbody hlen] at hok ⊢
    exact ih hok

end LarsSystem.LengthFraming
