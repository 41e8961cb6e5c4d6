import LarsSystem.MessageFormat
import LarsSystem.ReactorBuf

/-!
# The loop of `do_read`

`tcp_conn::do_read` and `tcp_client::do_read` cut their input buffer into messages
for the router with the same loop. It is the reference parser of the message
format (`dispatchLoop_parse`), with one exception: a frame without a body that
ends the buffer takes the block away before the body is popped, and the
assertion of `reactor_buf::pop` fails (`dispatchLoop_endsEmpty`).
-/

namespace LarsSystem.Reactor

open LarsSystem.MachineWord
open LarsSystem.LengthFraming

/-! ## The source -/

/-- One call of the router; `data` is NULL when the buffer has no block. -/
structure RouterCall where
  msgid : CInt
  msglen : Nat
  data : Option (List Byte)
deriving DecidableEq

/-- A process that ends inside an operation, with the router calls made before. -/
structure Crash where
  fault : Fault
  calls : List RouterCall
deriving DecidableEq

/-- How one round of the `while` loop ends: the loop is left (its condition fails,
    the frame is incomplete, or its header is malformed), or it goes on. -/
inductive Round where
  | leave (ibuf : ReactorBuf) (calls : List RouterCall) (malformed : Bool)
  | again (ibuf : ReactorBuf) (calls : List RouterCall)

/-- One round of the `while` loop of `do_read`. -/
def dispatchRound (ibuf : ReactorBuf) (calls : List RouterCall) : Except Crash Round :=
  if ibuf.length < messageHeadLen then Except.ok (.leave ibuf calls false)
  else
    let head := MsgHead.ofBytes (ibuf.content.take messageHeadLen)
    match head.bodyLen with
    | none => Except.ok (.leave ibuf calls true)
    | some msglen =>
      if ibuf.length < messageHeadLen + msglen then Except.ok (.leave ibuf calls false)
      else
        match ibuf.pop messageHeadLen with
        | Except.error fault => Except.error ⟨fault, calls⟩
        | Except.ok body =>
          let calls := calls ++ [⟨head.msgid, msglen, body.data.map (List.take msglen)⟩]
          match body.pop msglen with
          | Except.error fault => Except.error ⟨fault, calls⟩
          | Except.ok rest => Except.ok (.again rest calls)

theorem dispatchRound_again_length {ibuf rest : ReactorBuf} {calls calls' : List RouterCall}
    (hround : dispatchRound ibuf calls = Except.ok (.again rest calls')) :
    rest.length < ibuf.length := by
  unfold dispatchRound at hround
  split at hround
  · cases hround
  · rename_i hlen
    simp only at hround
    split at hround
    · cases hround
    · rename_i msglen hbodyLen
      split at hround
      · cases hround
      · split at hround
        · cases hround
        · rename_i body hpop
          split at hround
          · cases hround
          · rename_i rest' hpop'
            cases hround
            have h1 := ReactorBuf.pop_length hpop
            have h2 := ReactorBuf.pop_length hpop'
            have h3 : messageHeadLen = 8 := rfl
            omega

/-- The `while` loop of `do_read`: the buffer and the router calls it leaves, and
    whether it was left for a malformed header. -/
def dispatchLoop (ibuf : ReactorBuf) (calls : List RouterCall) :
    Except Crash (ReactorBuf × List RouterCall × Bool) :=
  match _hround : dispatchRound ibuf calls with
  | Except.error crash => Except.error crash
  | Except.ok (.leave ibuf calls malformed) => Except.ok (ibuf, calls, malformed)
  | Except.ok (.again ibuf calls) => dispatchLoop ibuf calls
termination_by ibuf.length
decreasing_by exact dispatchRound_again_length _hround

theorem dispatchLoop_leave {ibuf ibuf' : ReactorBuf} {calls calls' : List RouterCall}
    {malformed : Bool}
    (hround : dispatchRound ibuf calls = Except.ok (.leave ibuf' calls' malformed)) :
    dispatchLoop ibuf calls = Except.ok (ibuf', calls', malformed) := by
  rw [dispatchLoop]
  split <;> rename_i heq <;> rw [hround] at heq <;> cases heq
  rfl

theorem dispatchLoop_again {ibuf ibuf' : ReactorBuf} {calls calls' : List RouterCall}
    (hround : dispatchRound ibuf calls = Except.ok (.again ibuf' calls')) :
    dispatchLoop ibuf calls = dispatchLoop ibuf' calls' := by
  rw [dispatchLoop]
  split <;> rename_i heq <;> rw [hround] at heq <;> cases heq
  rfl

theorem dispatchLoop_error {ibuf : ReactorBuf} {calls : List RouterCall} {crash : Crash}
    (hround : dispatchRound ibuf calls = Except.error crash) :
    dispatchLoop ibuf calls = Except.error crash := by
  rw [dispatchLoop]
  split <;> rename_i heq <;> rw [hround] at heq <;> cases heq
  rfl

/-! ### One round by the state of the buffer -/

/-- The router call for a parsed frame. -/
def RouterCall.ofFrame (frame : MsgHead × List Byte) : RouterCall :=
  ⟨frame.1.msgid, frame.2.length, some frame.2⟩

section Round

variable {ibuf : ReactorBuf} {calls : List RouterCall} {n : Nat}

theorem dispatchRound_short (hshort : ibuf.length < messageHeadLen) :
    dispatchRound ibuf calls = Except.ok (.leave ibuf calls false) := by
  rw [dispatchRound, if_pos hshort]

theorem dispatchRound_malformed (hlen : messageHeadLen ≤ ibuf.length)
    (hbad : (MsgHead.ofBytes (ibuf.content.take messageHeadLen)).bodyLen = none) :
    dispatchRound ibuf calls = Except.ok (.leave ibuf calls true) := by
  rw [dispatchRound, if_neg (Nat.not_lt.mpr hlen)]
  simp only [hbad]

theorem dispatchRound_incomplete (hlen : messageHeadLen ≤ ibuf.length)
    (hbody : (MsgHead.ofBytes (ibuf.content.take messageHeadLen)).bodyLen = some n)
    (hshort : ibuf.length < messageHeadLen + n) :
    dispatchRound ibuf calls = Except.ok (.leave ibuf calls false) := by
  rw [dispatchRound, if_neg (Nat.not_lt.mpr hlen)]
  simp only [hbody]
  rw [if_pos hshort]

/-- A whole frame with bytes behind its header is dispatched with its body. -/
theorem dispatchRound_frame (calls : List RouterCall)
    (hbody : (MsgHead.ofBytes (ibuf.content.take messageHeadLen)).bodyLen = some n)
    (hlen : messageHeadLen + n ≤ ibuf.length) (hmore : messageHeadLen < ibuf.length) :
    ∃ rest : ReactorBuf, rest.content = ibuf.content.drop (messageHeadLen + n) ∧
      dispatchRound ibuf calls = Except.ok (.again rest (calls ++ [RouterCall.ofFrame
        (MsgHead.ofBytes (ibuf.content.take messageHeadLen),
          (ibuf.content.drop messageHeadLen).take n)])) := by
  have hpos : 0 < ibuf.length := by omega
  obtain ⟨body, hpop, hcontent, -⟩ := ReactorBuf.pop_ok hpos (Nat.le_of_lt hmore)
  have hbodyLen : body.length = ibuf.length - messageHeadLen := ReactorBuf.pop_length hpop
  have hbodyPos : 0 < body.length := by omega
  have hn : n ≤ body.length := by omega
  obtain ⟨rest, hpop', hrest, -⟩ := ReactorBuf.pop_ok hbodyPos hn
  refine ⟨rest, by rw [hrest, hcontent, List.drop_drop], ?_⟩
  have hpayload : ((ibuf.content.drop messageHeadLen).take n).length = n := by
    simp only [List.length_take, List.length_drop, ReactorBuf.content_length]
    omega
  have hdata : body.data.map (List.take n) =
      some ((ibuf.content.drop messageHeadLen).take n) := by
    rw [ReactorBuf.data_eq_content hbodyPos, hcontent, Option.map_some]
  rw [dispatchRound, if_neg (by omega)]
  simp only [hbody]
  rw [if_neg (Nat.not_lt.mpr hlen)]
  simp only [hpop, hpop', hdata, RouterCall.ofFrame, hpayload]

/-- A frame without a body at the end of the buffer: the router gets NULL, and
    the second `pop` has no block to pop from. -/
theorem dispatchRound_emptyTail
    (hbody : (MsgHead.ofBytes (ibuf.content.take messageHeadLen)).bodyLen = some 0)
    (hlen : ibuf.length = messageHeadLen) :
    dispatchRound ibuf calls = Except.error ⟨Fault.popAssert, calls ++
      [⟨(MsgHead.ofBytes (ibuf.content.take messageHeadLen)).msgid, 0, none⟩]⟩ := by
  have hpos : 0 < ibuf.length := by rw [hlen]; decide
  obtain ⟨body, hpop, -, hnone⟩ := ReactorBuf.pop_ok hpos (Nat.le_of_eq hlen.symm)
  obtain rfl : body = ⟨none⟩ := by
    rcases body with ⟨buf⟩
    exact congrArg ReactorBuf.mk (hnone.mpr hlen)
  rw [dispatchRound, if_neg (by omega)]
  simp only [hbody]
  rw [if_neg (by omega)]
  simp only [hpop]
  rfl

end Round

/-! ### The loop is the reference parser -/

/-- **The loop of `do_read` finds what the reference parser finds**: it dispatches
    the whole frames in order with their bodies, keeps the unparsed rest, and
    leaves for a malformed header where the parser stops at one. -/
theorem dispatchLoop_parse (ibuf : ReactorBuf) (calls : List RouterCall)
    (htail : ¬ (parse msgCodec ibuf.content).EndsEmpty) :
    ∃ ibuf' : ReactorBuf, ibuf'.content = (parse msgCodec ibuf.content).rest ∧
      dispatchLoop ibuf calls = Except.ok (ibuf',
        calls ++ (parse msgCodec ibuf.content).frames.map RouterCall.ofFrame,
        (parse msgCodec ibuf.content).malformed) := by
  generalize hsymbols : ibuf.content = symbols at htail
  induction symbols using parse_induction msgCodec generalizing ibuf calls with
  | short symbols hshort =>
    subst hsymbols
    rw [parse_short msgCodec hshort]
    rw [ReactorBuf.content_length] at hshort
    exact ⟨ibuf, rfl, by simpa using dispatchLoop_leave (dispatchRound_short hshort)⟩
  | malformed symbols hlen hbad =>
    subst hsymbols
    rw [parse_malformed msgCodec hlen hbad]
    rw [ReactorBuf.content_length] at hlen
    exact ⟨ibuf, rfl, by simpa using dispatchLoop_leave (dispatchRound_malformed hlen hbad)⟩
  | incomplete symbols n hlen hbody hshort =>
    subst hsymbols
    rw [parse_incomplete msgCodec hlen hbody hshort]
    rw [ReactorBuf.content_length] at hlen hshort
    exact ⟨ibuf, rfl,
      by simpa using dispatchLoop_leave (dispatchRound_incomplete hlen hbody hshort)⟩
  | frame symbols n hbody hlen ih =>
    subst hsymbols
    rw [parse_frame msgCodec hbody hlen] at htail ⊢
    rw [ReactorBuf.content_length] at hlen
    -- were the header the whole buffer, the stream would end in an empty frame
    have hmore : messageHeadLen < ibuf.length := by
      by_contra hnot
      have hhead : msgCodec.headLen = messageHeadLen := rfl
      have hn : n = 0 := by omega
      have hnil : ibuf.content.drop (msgCodec.headLen + n) = [] :=
        List.drop_eq_nil_of_le (by rw [ReactorBuf.content_length]; omega)
      rw [hnil, parse_nil, hn] at htail
      exact htail ⟨rfl, rfl, _, rfl⟩
    obtain ⟨rest, hrest, hround⟩ := dispatchRound_frame calls hbody hlen hmore
    have htail' : ¬ (parse msgCodec (ibuf.content.drop (msgCodec.headLen + n))).EndsEmpty := by
      intro hends
      have hne : (parse msgCodec (ibuf.content.drop (msgCodec.headLen + n))).frames ≠ [] := by
        obtain ⟨-, -, header, hlast⟩ := hends
        intro hnil
        simp [hnil] at hlast
      exact htail ((Parsed.endsEmpty_prepend_of_ne hne).mpr hends)
    obtain ⟨ibuf', hcontent, hloop⟩ := ih rest _ hrest htail'
    refine ⟨ibuf', hcontent, ?_⟩
    rw [dispatchLoop_again hround, hloop]
    simp [Parsed.prepend]
    rfl

/-- **A frame without a body that ends the buffer ends the process**, after the
    router was called with a NULL pointer. -/
theorem dispatchLoop_endsEmpty (ibuf : ReactorBuf) (calls : List RouterCall)
    (htail : (parse msgCodec ibuf.content).EndsEmpty) :
    ∃ crash : Crash, dispatchLoop ibuf calls = Except.error crash ∧
      crash.fault = Fault.popAssert ∧ ∃ call ∈ crash.calls, call.data = none := by
  generalize hsymbols : ibuf.content = symbols at htail
  induction symbols using parse_induction msgCodec generalizing ibuf calls with
  | short symbols hshort =>
    rw [parse_short msgCodec hshort] at htail
    obtain ⟨-, -, header, hlast⟩ := htail
    simp at hlast
  | malformed symbols hlen hbad =>
    rw [parse_malformed msgCodec hlen hbad] at htail
    exact absurd htail.1 (by simp)
  | incomplete symbols n hlen hbody hshort =>
    rw [parse_incomplete msgCodec hlen hbody hshort] at htail
    obtain ⟨-, -, header, hlast⟩ := htail
    simp at hlast
  | frame symbols n hbody hlen ih =>
    subst hsymbols
    rw [parse_frame msgCodec hbody hlen] at htail
    rw [ReactorBuf.content_length] at hlen
    have hhead : msgCodec.headLen = messageHeadLen := rfl
    by_cases hne : (parse msgCodec (ibuf.content.drop (msgCodec.headLen + n))).frames = []
    · -- the last frame is this one: its body is empty and nothing follows
      obtain ⟨-, hrest, header, hlast⟩ := htail
      simp only [Parsed.prepend, hne, List.append_nil, List.getLast?_singleton,
        Option.some.injEq, Prod.mk.injEq] at hlast hrest
      have hsplit := encodeFrames_parse msgCodec (ibuf.content.drop (msgCodec.headLen + n))
      rw [hne, hrest] at hsplit
      have hdrop := congrArg List.length hsplit
      have hpayload := congrArg List.length hlast.2
      simp only [encodeFrames_nil, List.append_nil, List.length_nil, List.length_drop,
        List.length_take, ReactorBuf.content_length] at hdrop hpayload
      have hn : n = 0 := by omega
      subst hn
      have hlen' : ibuf.length = messageHeadLen := by omega
      exact ⟨_, dispatchLoop_error (dispatchRound_emptyTail hbody hlen'), rfl, _,
        List.mem_append_right _ (List.mem_singleton.mpr rfl), rfl⟩
    · have htail' := (Parsed.endsEmpty_prepend_of_ne hne).mp htail
      -- a later frame means later bytes
      have hmore : messageHeadLen < ibuf.length := by
        by_contra hnot
        have hnil : ibuf.content.drop (msgCodec.headLen + n) = [] :=
          List.drop_eq_nil_of_le (by rw [ReactorBuf.content_length]; omega)
        rw [hnil, parse_nil] at hne
        exact hne rfl
      obtain ⟨rest, hrest, hround⟩ := dispatchRound_frame calls hbody hlen hmore
      obtain ⟨crash, hloop, hfault, hcall⟩ := ih rest _ hrest htail'
      exact ⟨crash, by rw [dispatchLoop_again hround, hloop], hfault, hcall⟩

end LarsSystem.Reactor
