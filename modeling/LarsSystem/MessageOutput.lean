import LarsSystem.MessageFormat
import LarsSystem.ReactorBuf

/-!
# Queueing and writing messages

The part of `send_message` that fills the output buffer and the loop of
`do_write`, which `tcp_conn` and `tcp_client` share. A message goes into the
buffer in two steps, header and body; where the body does not fit, eight bytes
are popped again. They are popped from the front: right when nothing was
pending, and otherwise eight bytes of an older message, with a window that no
longer starts at the front of its block, so that the next `send_data` or
`write2fd` fails its assertion.
-/

namespace LarsSystem.Reactor

open LarsSystem.MachineWord
open LarsSystem.LengthFraming

/-- What `send_message` meets outside: the earlier contents of blocks the pool
    hands out for header and body, and the answer of `epoll_ctl`. -/
structure SendEnv where
  staleHead : List Byte
  staleBody : List Byte
  ctlOk : Bool

/-- `send_message` up to the activation of EPOLLOUT: the return value, the output
    buffer, and whether EPOLLOUT is to be activated. -/
def queueMessage (obuf : ReactorBuf) (m : Message) (env : SendEnv) :
    Except Fault (Int × ReactorBuf × Bool) :=
  let activeEpollout := obuf.length = 0
  match obuf.sendData env.staleHead m.head.bytes with
  | Except.error fault => Except.error fault
  | Except.ok (ret, obuf) =>
    if ret ≠ 0 then Except.ok (-1, obuf, false)
    else
      match obuf.sendData env.staleBody m.body with
      | Except.error fault => Except.error fault
      | Except.ok (ret, obuf) =>
        if ret ≠ 0 then
          match obuf.pop messageHeadLen with
          | Except.error fault => Except.error fault
          | Except.ok obuf => Except.ok (-1, obuf, false)
        else Except.ok (0, obuf, decide activeEpollout)

/-- The `while` loop of `do_write` with the answers of its `write` calls (after
    the last of them the descriptor takes nothing): the buffer, the bytes the
    descriptor took, and whether a `write` failed. -/
def writeLoop (obuf : ReactorBuf) : List WriteResult →
    Except Fault (ReactorBuf × List Byte × Bool)
  | [] =>
    if obuf.length = 0 then Except.ok (obuf, [], false)
    else
      match obuf.write2fd .again with
      | Except.error fault => Except.error fault
      | Except.ok (_, taken, obuf) => Except.ok (obuf, taken, false)
  | result :: results =>
    if obuf.length = 0 then Except.ok (obuf, [], false)
    else
      match obuf.write2fd result with
      | Except.error fault => Except.error fault
      | Except.ok (ret, taken, obuf) =>
        if ret = -1 then Except.ok (obuf, taken, true)
        else if ret = 0 then Except.ok (obuf, taken, false)
        else
          match writeLoop obuf results with
          | Except.error fault => Except.error fault
          | Except.ok (obuf, more, failed) => Except.ok (obuf, taken ++ more, failed)

/-! ## Queueing a message -/

section Queue

variable {obuf : ReactorBuf} {m : Message}

/-- **A message that fits is queued whole** behind what is pending. -/
theorem queueMessage_accepted (env : SendEnv) (hready : obuf.Ready)
    (hfits : obuf.length + m.bytes.length ≤ maxBytes) :
    ∃ obuf' : ReactorBuf, queueMessage obuf m env =
        Except.ok (0, obuf', decide (obuf.length = 0)) ∧
      obuf'.Ready ∧ obuf'.content = obuf.content ++ m.bytes := by
  have hlen := m.bytes_length
  have hheadLen : m.head.bytes.length = messageHeadLen := rfl
  obtain ⟨withHead, hsend, hready1, hcontent1⟩ :=
    ReactorBuf.sendData_fits env.staleHead m.head.bytes hready (by omega)
  have hlen1 : withHead.length = obuf.length + messageHeadLen := by
    rw [← ReactorBuf.content_length, hcontent1, List.length_append,
      ReactorBuf.content_length, hheadLen]
  obtain ⟨obuf', hsend', hready', hcontent'⟩ :=
    ReactorBuf.sendData_fits env.staleBody m.body hready1 (by omega)
  refine ⟨obuf', ?_, hready', by rw [hcontent', hcontent1, m.bytes_eq, List.append_assoc]⟩
  simp only [queueMessage, hsend, hsend', ne_eq, not_true_eq_false, if_false]

/-- A header that does not fit leaves everything as it was. -/
theorem queueMessage_headRefused (env : SendEnv) (hready : obuf.Ready)
    (hfull : maxBytes < obuf.length + messageHeadLen) :
    queueMessage obuf m env = Except.ok (-1, obuf, false) := by
  have hheadLen : m.head.bytes.length = messageHeadLen := rfl
  have hmax := obuf.length_le
  have hsmall : obuf.length + m.head.bytes.length < 2 ^ 31 := by
    have h1 : maxBytes = 8388608 := rfl
    have h2 : messageHeadLen = 8 := rfl
    omega
  have hsend := ReactorBuf.sendData_refused env.staleHead m.head.bytes hready
    (by omega) hsmall
  simp only [queueMessage, hsend]
  rfl

/-- **A body that does not fit takes eight bytes away from the front.** With
    nothing pending these are the header's own; otherwise the buffer is left with
    its window off the front of its block. A length that leaves the `int` range
    overruns a block. -/
theorem queueMessage_bodyRefused (env : SendEnv) (hready : obuf.Ready)
    (hhead : obuf.length + messageHeadLen ≤ maxBytes)
    (hfull : maxBytes < obuf.length + m.bytes.length) :
    (2 ^ 31 ≤ obuf.length + m.bytes.length ∧
      queueMessage obuf m env = Except.error Fault.outOfBounds) ∨
    (obuf.length + m.bytes.length < 2 ^ 31 ∧
      ∃ obuf' : ReactorBuf, queueMessage obuf m env = Except.ok (-1, obuf', false) ∧
        obuf'.content = (obuf.content ++ m.head.bytes).drop messageHeadLen ∧
        (obuf.length = 0 → obuf' = ReactorBuf.empty) ∧ (0 < obuf.length → ¬ obuf'.Ready)) := by
  have hlen := m.bytes_length
  have hheadLen : m.head.bytes.length = messageHeadLen := rfl
  have height : messageHeadLen = 8 := rfl
  obtain ⟨withHead, hsend, hready1, hcontent1⟩ :=
    ReactorBuf.sendData_fits env.staleHead m.head.bytes hready (by omega)
  have hlen1 : withHead.length = obuf.length + messageHeadLen := by
    rw [← ReactorBuf.content_length, hcontent1, List.length_append,
      ReactorBuf.content_length, hheadLen]
  by_cases hwraps : 2 ^ 31 ≤ obuf.length + m.bytes.length
  · have hsend' := ReactorBuf.sendData_wraps env.staleBody m.body hready1 (by omega)
      (by omega) m.fits
    exact Or.inl ⟨hwraps, by
      simp only [queueMessage, hsend, hsend', ne_eq, not_true_eq_false, if_false]⟩
  · have hsend' := ReactorBuf.sendData_refused env.staleBody m.body hready1 (by omega)
      (by omega)
    have hpos : 0 < withHead.length := by omega
    have hpopLen : messageHeadLen ≤ withHead.length := by omega
    obtain ⟨obuf', hpop, hcontent', hnone⟩ := ReactorBuf.pop_ok hpos hpopLen
    refine Or.inr ⟨by omega, obuf', ?_, by rw [hcontent', hcontent1], ?_, ?_⟩
    · simp only [queueMessage, hsend, hsend', hpop]
      rfl
    · intro hempty
      rcases obuf' with ⟨buf⟩
      exact congrArg ReactorBuf.mk (hnone.mpr (by omega))
    · intro hpending
      exact ReactorBuf.pop_not_ready (by omega) hpop
        (fun hbuf => by have := hnone.mp hbuf; omega)

theorem queueMessage_not_ready (env : SendEnv) (hready : ¬ obuf.Ready) :
    queueMessage obuf m env = Except.error Fault.sendAssert := by
  simp only [queueMessage, ReactorBuf.sendData_not_ready _ _ hready]

/-- What a send that returns has done: queued the message, or failed with the pending
    bytes as they were unless the buffer is spoilt. -/
theorem queueMessage_cases {env : SendEnv} {ret : Int} {obuf' : ReactorBuf} {active : Bool}
    (hqueue : queueMessage obuf m env = Except.ok (ret, obuf', active)) :
    obuf.Ready ∧
      (ret = 0 ∧ active = decide (obuf.length = 0) ∧ obuf'.Ready ∧
          obuf'.content = obuf.content ++ m.bytes ∧
          obuf.length + m.bytes.length ≤ maxBytes ∨
        ret = -1 ∧ active = false ∧ (obuf'.Ready → obuf'.content = obuf.content) ∧
          (obuf.length = 0 → obuf'.Ready)) := by
  by_cases hready : obuf.Ready
  · refine ⟨hready, ?_⟩
    by_cases hfits : obuf.length + m.bytes.length ≤ maxBytes
    · obtain ⟨queued, hok, hready', hcontent⟩ := queueMessage_accepted env hready hfits
      cases hok.symm.trans hqueue
      exact Or.inl ⟨rfl, rfl, hready', hcontent, hfits⟩
    · apply Or.inr
      by_cases hhead : obuf.length + messageHeadLen ≤ maxBytes
      · rcases queueMessage_bodyRefused (m := m) env hready hhead (by omega) with
          ⟨-, herror⟩ | ⟨-, popped, hok, -, hempty, hpoison⟩
        · exact absurd (herror.symm.trans hqueue) (by simp)
        · cases hok.symm.trans hqueue
          refine ⟨rfl, rfl, ?_, fun hzero => hempty hzero ▸ ReactorBuf.ready_empty⟩
          intro hready'
          have hzero : obuf.length = 0 := by
            by_contra hpending
            exact hpoison (Nat.pos_of_ne_zero hpending) hready'
          rw [hempty hzero]
          exact (List.length_eq_zero_iff.mp (by rw [ReactorBuf.content_length, hzero])).symm
      · have hok := queueMessage_headRefused (m := m) env hready (by omega)
        cases hok.symm.trans hqueue
        exact ⟨rfl, rfl, fun _ => rfl, fun _ => hready⟩
  · have herror := queueMessage_not_ready (m := m) env hready
    exact absurd (herror.symm.trans hqueue) (by simp)

/-- The faults `send_message` can end in; `reactor_buf::pop` is not among them. -/
theorem queueMessage_fault {env : SendEnv} {fault : Fault}
    (hqueue : queueMessage obuf m env = Except.error fault) :
    fault = Fault.sendAssert ∨ fault = Fault.outOfBounds := by
  by_cases hready : obuf.Ready
  · by_cases hfits : obuf.length + m.bytes.length ≤ maxBytes
    · obtain ⟨obuf', hok, -, -⟩ := queueMessage_accepted env hready hfits
      exact absurd (hok.symm.trans hqueue) (by simp)
    · by_cases hhead : obuf.length + messageHeadLen ≤ maxBytes
      · rcases queueMessage_bodyRefused (m := m) env hready hhead (by omega) with
          ⟨-, herror⟩ | ⟨-, obuf', hok, -⟩
        · exact Or.inr (Except.error.inj (hqueue.symm.trans herror))
        · exact absurd (hok.symm.trans hqueue) (by simp)
      · have hok := queueMessage_headRefused (m := m) env hready (by omega)
        exact absurd (hok.symm.trans hqueue) (by simp)
  · have herror := queueMessage_not_ready (m := m) env hready
    exact Or.inl (Except.error.inj (hqueue.symm.trans herror))

end Queue

/-! ## Writing -/

/-! One step of the loop. -/

section Write

variable {obuf : ReactorBuf}

theorem writeLoop_empty (results : List WriteResult) (hzero : obuf.length = 0) :
    writeLoop obuf results = Except.ok (obuf, [], false) := by
  cases results <;> rw [writeLoop, if_pos hzero]

theorem writeLoop_idle (hready : obuf.Ready) (hpos : 0 < obuf.length) :
    writeLoop obuf [] = Except.ok (obuf, [], false) := by
  rw [writeLoop, if_neg (by omega)]
  simp only [ReactorBuf.write2fd_again hready hpos]

theorem writeLoop_again (results : List WriteResult) (hready : obuf.Ready)
    (hpos : 0 < obuf.length) :
    writeLoop obuf (.again :: results) = Except.ok (obuf, [], false) := by
  rw [writeLoop, if_neg (by omega)]
  simp only [ReactorBuf.write2fd_again hready hpos]
  rfl

theorem writeLoop_error (results : List WriteResult) (hready : obuf.Ready)
    (hpos : 0 < obuf.length) :
    writeLoop obuf (.error :: results) = Except.ok (obuf, [], true) := by
  rw [writeLoop, if_neg (by omega)]
  simp only [ReactorBuf.write2fd_error hready hpos]
  rfl

/-- Bytes are taken from the front, and the loop goes on with the rest; a `write`
    that takes nothing leaves it. -/
theorem writeLoop_took (n : Nat) (results : List WriteResult) (hready : obuf.Ready)
    (hpos : 0 < obuf.length) :
    ∃ rest : ReactorBuf, rest.Ready ∧
      rest.content = obuf.content.drop (min n obuf.length) ∧
      writeLoop obuf (.took n :: results) =
        if min n obuf.length = 0 then Except.ok (rest, [], false)
        else (writeLoop rest results).map fun (obuf', more, failed) =>
          (obuf', obuf.content.take (min n obuf.length) ++ more, failed) := by
  obtain ⟨rest, hwrite, hready', hcontent⟩ := ReactorBuf.write2fd_took hready hpos n
  refine ⟨rest, hready', hcontent, ?_⟩
  rw [writeLoop, if_neg (by omega)]
  simp only [hwrite]
  rw [if_neg (by omega)]
  by_cases hnone : min n obuf.length = 0
  · rw [if_pos (by omega), if_pos hnone, hnone]
    rfl
  · rw [if_neg (by omega), if_neg hnone]
    cases writeLoop rest results <;> rfl

theorem writeLoop_not_ready (results : List WriteResult)
    (hready : ¬ obuf.Ready) (hpos : 0 < obuf.length) :
    writeLoop obuf results = Except.error Fault.writeAssert := by
  cases results with
  | nil =>
    rw [writeLoop, if_neg (by omega)]
    simp only [ReactorBuf.write2fd_not_ready _ hready]
  | cons result results =>
    rw [writeLoop, if_neg (by omega)]
    simp only [ReactorBuf.write2fd_not_ready _ hready]

end Write

/-- **`do_write` takes bytes from the front of what is pending**, keeps the rest,
    and fails only with bytes left. -/
theorem writeLoop_ready {obuf : ReactorBuf} (results : List WriteResult)
    (hready : obuf.Ready) :
    ∃ (obuf' : ReactorBuf) (taken : List Byte) (failed : Bool),
      writeLoop obuf results = Except.ok (obuf', taken, failed) ∧ obuf'.Ready ∧
      obuf.content = taken ++ obuf'.content ∧
      (failed = true → 0 < obuf'.length ∧ WriteResult.error ∈ results) := by
  induction results generalizing obuf with
  | nil =>
    by_cases hzero : obuf.length = 0
    · exact ⟨obuf, [], false, writeLoop_empty [] hzero, hready, rfl, by simp⟩
    · exact ⟨obuf, [], false, writeLoop_idle hready (by omega), hready, rfl, by simp⟩
  | cons result results ih =>
    by_cases hzero : obuf.length = 0
    · exact ⟨obuf, [], false, writeLoop_empty _ hzero, hready, rfl, by simp⟩
    · have hpos : 0 < obuf.length := by omega
      cases result with
      | error =>
        exact ⟨obuf, [], true, writeLoop_error results hready hpos, hready, rfl,
          fun _ => ⟨hpos, by simp⟩⟩
      | again =>
        exact ⟨obuf, [], false, writeLoop_again results hready hpos, hready, rfl, by simp⟩
      | took n =>
        obtain ⟨rest, hrest, hcontent, hloop⟩ := writeLoop_took n results hready hpos
        rw [hloop]
        by_cases hnone : min n obuf.length = 0
        · rw [if_pos hnone]
          exact ⟨rest, [], false, rfl, hrest, by simp [hcontent, hnone], by simp⟩
        · rw [if_neg hnone]
          obtain ⟨obuf', more, failed, hloop', hready', hcontent', hfailed⟩ := ih hrest
          refine ⟨obuf', obuf.content.take (min n obuf.length) ++ more, failed,
            by rw [hloop']; rfl, hready', ?_, ?_⟩
          · rw [List.append_assoc, ← hcontent', hcontent, List.take_append_drop]
          · intro hfail
            exact ⟨(hfailed hfail).1, List.mem_cons_of_mem _ (hfailed hfail).2⟩

/-- How many of `pending` bytes the descriptor takes before a `write` fails; `none` if
    the loop ends before one does. -/
def takenBeforeError (pending : Nat) : List WriteResult → Option Nat
  | [] => none
  | result :: results =>
    if pending = 0 then none
    else
      match result with
      | .error => some 0
      | .again => none
      | .took n =>
        if min n pending = 0 then none
        else (takenBeforeError (pending - min n pending) results).map (min n pending + ·)

/-- A failing `do_write` has written as many bytes as the answers say. -/
theorem writeLoop_failed {obuf obuf' : ReactorBuf} {results : List WriteResult}
    {taken : List Byte} (hready : obuf.Ready)
    (hloop : writeLoop obuf results = Except.ok (obuf', taken, true)) :
    takenBeforeError obuf.length results = some taken.length := by
  induction results generalizing obuf obuf' taken with
  | nil =>
    obtain ⟨_, _, _, hok, -, -, hfailed⟩ := writeLoop_ready [] hready
    cases hok.symm.trans hloop
    exact absurd (hfailed rfl).2 (by simp)
  | cons result results ih =>
    by_cases hzero : obuf.length = 0
    · rw [writeLoop_empty _ hzero] at hloop
      cases hloop
    · have hpos : 0 < obuf.length := Nat.pos_of_ne_zero hzero
      cases result with
      | error =>
        rw [writeLoop_error results hready hpos] at hloop
        cases hloop
        simp only [takenBeforeError, if_neg hzero, List.length_nil]
      | again =>
        rw [writeLoop_again results hready hpos] at hloop
        cases hloop
      | took n =>
        obtain ⟨rest, hrest, hcontent, hstep⟩ := writeLoop_took n results hready hpos
        rw [hstep] at hloop
        have hlen : rest.length = obuf.length - min n obuf.length := by
          rw [← ReactorBuf.content_length, hcontent, List.length_drop, ReactorBuf.content_length]
        by_cases hnone : min n obuf.length = 0
        · rw [if_pos hnone] at hloop
          cases hloop
        · rw [if_neg hnone] at hloop
          cases hmore : writeLoop rest results with
          | error fault =>
            rw [hmore] at hloop
            cases hloop
          | ok result =>
            obtain ⟨last, more, failed⟩ := result
            rw [hmore] at hloop
            cases hloop
            simp only [takenBeforeError, if_neg hzero, if_neg hnone, ← hlen, ih hrest hmore,
              Option.map_some, List.length_append, List.length_take, ReactorBuf.content_length]
            congr 1
            omega

end LarsSystem.Reactor
