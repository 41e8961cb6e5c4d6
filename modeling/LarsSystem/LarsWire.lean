import LarsSystem.LarsProto
import LarsSystem.MessageFormat
import LarsSystem.Varint

/-!
# The generated code of `lars.proto`

For each class of `lars.pb.cpp` its switch (`cases`), what `_InternalSerialize`
writes, what `ByteSizeLong` counts, and `MergeFrom`. A scalar that is zero is
neither written nor merged, so a message whose fields are all zero has no bytes.
Unknown fields, which a parsed message keeps and no handler reads, are left out.
-/

namespace LarsSystem

open LarsSystem.MachineWord
open LarsSystem.WireFormat

variable (R : Runtime)

/-! ## `HostInfo` -/

namespace HostEntry

def setIp (m : HostEntry) (value : BitVec 32) : HostEntry := { m with ip := value }
def setPort (m : HostEntry) (value : BitVec 32) : HostEntry := { m with port := value }

def cases : List (FieldCase HostEntry) :=
  [varint32Case R 1 8 setIp, varint32Case R 2 16 setPort]

def pieces (m : HostEntry) : List (Piece HostEntry) :=
  [⟨writeInt32 R 1 m.ip, fun target => target.setIp (merged 0 target.ip m.ip)⟩,
    ⟨writeInt32 R 2 m.port, fun target => target.setPort (merged 0 target.port m.port)⟩]

def internalSerialize (m : HostEntry) : Bytes := writeInt32 R 1 m.ip ++ writeInt32 R 2 m.port

def byteSizeLong (m : HostEntry) : Nat := sizeInt32 R m.ip + sizeInt32 R m.port

def mergeFrom (target source : HostEntry) : HostEntry :=
  { ip := merged 0 target.ip source.ip
    port := merged 0 target.port source.port }

def messageClass : MessageClass R HostEntry where
  cleared := ⟨0, 0⟩
  cases := cases R
  pieces := pieces R
  internalSerialize := internalSerialize R
  byteSizeLong := byteSizeLong R
  mergeFrom := mergeFrom
  absorbs m := by
    simp only [pieces, absorbsAll_cons]
    exact ⟨absorbs_int32 ip setIp rfl (fun _ => rfl) _,
      absorbs_int32 port setPort rfl (fun _ => rfl) _, absorbsAll_nil⟩
  serialize_eq m := by simp [pieces, internalSerialize]
  apply_eq _ _ := rfl
  merge_cleared m := by simp [mergeFrom, merged_zero]
  size_eq m := by simp [internalSerialize, byteSizeLong, writeInt32_length]

theorem byteSizeLong_le (m : HostEntry) : byteSizeLong R m ≤ 22 :=
  Nat.add_le_add (sizeInt32_le m.ip) (sizeInt32_le m.port)

def sub : SubMessage R HostEntry :=
  (messageClass R).sub fun m => Nat.lt_of_le_of_lt (byteSizeLong_le R m) (by decide)

end HostEntry

/-! ## `HostCallResult` -/

namespace HostCallResult

def setIp (m : HostCallResult) (value : BitVec 32) : HostCallResult := { m with ip := value }
def setPort (m : HostCallResult) (value : BitVec 32) : HostCallResult := { m with port := value }
def setSucc (m : HostCallResult) (value : BitVec 32) : HostCallResult := { m with succ := value }
def setErr (m : HostCallResult) (value : BitVec 32) : HostCallResult := { m with err := value }
def setOverload (m : HostCallResult) (value : Bool) : HostCallResult := { m with overload := value }

def cases : List (FieldCase HostCallResult) :=
  [varint32Case R 1 8 setIp, varint32Case R 2 16 setPort, varint32Case R 3 24 setSucc,
    varint32Case R 4 32 setErr, boolCase R 5 40 setOverload]

def pieces (m : HostCallResult) : List (Piece HostCallResult) :=
  [⟨writeInt32 R 1 m.ip, fun target => target.setIp (merged 0 target.ip m.ip)⟩,
    ⟨writeInt32 R 2 m.port, fun target => target.setPort (merged 0 target.port m.port)⟩,
    ⟨writeUInt32 R 3 m.succ, fun target => target.setSucc (merged 0 target.succ m.succ)⟩,
    ⟨writeUInt32 R 4 m.err, fun target => target.setErr (merged 0 target.err m.err)⟩,
    ⟨writeBool R 5 m.overload,
      fun target => target.setOverload (merged false target.overload m.overload)⟩]

def internalSerialize (m : HostCallResult) : Bytes :=
  writeInt32 R 1 m.ip ++ writeInt32 R 2 m.port ++ writeUInt32 R 3 m.succ ++
    writeUInt32 R 4 m.err ++ writeBool R 5 m.overload

def byteSizeLong (m : HostCallResult) : Nat :=
  sizeInt32 R m.ip + sizeInt32 R m.port + sizeUInt32 R m.succ + sizeUInt32 R m.err +
    sizeBool m.overload

def mergeFrom (target source : HostCallResult) : HostCallResult :=
  { ip := merged 0 target.ip source.ip
    port := merged 0 target.port source.port
    succ := merged 0 target.succ source.succ
    err := merged 0 target.err source.err
    overload := merged false target.overload source.overload }

def messageClass : MessageClass R HostCallResult where
  cleared := ⟨0, 0, 0, 0, false⟩
  cases := cases R
  pieces := pieces R
  internalSerialize := internalSerialize R
  byteSizeLong := byteSizeLong R
  mergeFrom := mergeFrom
  absorbs m := by
    simp only [pieces, absorbsAll_cons]
    exact ⟨absorbs_int32 ip setIp rfl (fun _ => rfl) _,
      absorbs_int32 port setPort rfl (fun _ => rfl) _,
      absorbs_uint32 succ setSucc rfl (fun _ => rfl) _,
      absorbs_uint32 err setErr rfl (fun _ => rfl) _,
      absorbs_bool overload setOverload rfl (fun _ => rfl) _, absorbsAll_nil⟩
  serialize_eq m := by simp [pieces, internalSerialize]
  apply_eq _ _ := rfl
  merge_cleared m := by simp [mergeFrom, merged_zero]
  size_eq m := by
    simp [internalSerialize, byteSizeLong, writeInt32_length, writeUInt32_length,
      writeBool_length, Nat.add_assoc]

theorem byteSizeLong_le (m : HostCallResult) : byteSizeLong R m ≤ 36 := by
  have hip := sizeInt32_le (R := R) m.ip
  have hport := sizeInt32_le (R := R) m.port
  have hsucc := sizeUInt32_le (R := R) m.succ
  have herr := sizeUInt32_le (R := R) m.err
  have hoverload := sizeBool_le m.overload
  unfold byteSizeLong
  omega

def sub : SubMessage R HostCallResult :=
  (messageClass R).sub fun m => Nat.lt_of_le_of_lt (byteSizeLong_le R m) (by decide)

end HostCallResult

/-! ## `GetRouteRequest` -/

namespace GetRouteRequest

def setModid (m : GetRouteRequest) (value : BitVec 32) : GetRouteRequest :=
  { m with modid := value }
def setCmdid (m : GetRouteRequest) (value : BitVec 32) : GetRouteRequest :=
  { m with cmdid := value }

def cases : List (FieldCase GetRouteRequest) :=
  [varint32Case R 1 8 setModid, varint32Case R 2 16 setCmdid]

def pieces (m : GetRouteRequest) : List (Piece GetRouteRequest) :=
  [⟨writeInt32 R 1 m.modid, fun target => target.setModid (merged 0 target.modid m.modid)⟩,
    ⟨writeInt32 R 2 m.cmdid, fun target => target.setCmdid (merged 0 target.cmdid m.cmdid)⟩]

def internalSerialize (m : GetRouteRequest) : Bytes :=
  writeInt32 R 1 m.modid ++ writeInt32 R 2 m.cmdid

def byteSizeLong (m : GetRouteRequest) : Nat := sizeInt32 R m.modid + sizeInt32 R m.cmdid

def mergeFrom (target source : GetRouteRequest) : GetRouteRequest :=
  { modid := merged 0 target.modid source.modid
    cmdid := merged 0 target.cmdid source.cmdid }

def messageClass : MessageClass R GetRouteRequest where
  cleared := ⟨0, 0⟩
  cases := cases R
  pieces := pieces R
  internalSerialize := internalSerialize R
  byteSizeLong := byteSizeLong R
  mergeFrom := mergeFrom
  absorbs m := by
    simp only [pieces, absorbsAll_cons]
    exact ⟨absorbs_int32 modid setModid rfl (fun _ => rfl) _,
      absorbs_int32 cmdid setCmdid rfl (fun _ => rfl) _, absorbsAll_nil⟩
  serialize_eq m := by simp [pieces, internalSerialize]
  apply_eq _ _ := rfl
  merge_cleared m := by simp [mergeFrom, merged_zero]
  size_eq m := by simp [internalSerialize, byteSizeLong, writeInt32_length]

theorem byteSizeLong_le (m : GetRouteRequest) : byteSizeLong R m ≤ 22 :=
  Nat.add_le_add (sizeInt32_le m.modid) (sizeInt32_le m.cmdid)

end GetRouteRequest

/-! ## `GetRouteResponse` -/

namespace GetRouteResponse

def setModid (m : GetRouteResponse) (value : BitVec 32) : GetRouteResponse :=
  { m with modid := value }
def setCmdid (m : GetRouteResponse) (value : BitVec 32) : GetRouteResponse :=
  { m with cmdid := value }
def addHost (m : GetRouteResponse) (host : HostEntry) : GetRouteResponse :=
  { m with hosts := m.hosts ++ [host] }

def cases : List (FieldCase GetRouteResponse) :=
  [varint32Case R 1 8 setModid, varint32Case R 2 16 setCmdid,
    repeatedCase R (HostEntry.sub R) 3 26 addHost]

def pieces (m : GetRouteResponse) : List (Piece GetRouteResponse) :=
  [⟨writeInt32 R 1 m.modid, fun target => target.setModid (merged 0 target.modid m.modid)⟩,
    ⟨writeInt32 R 2 m.cmdid, fun target => target.setCmdid (merged 0 target.cmdid m.cmdid)⟩] ++
    elementPieces R (HostEntry.sub R) 3 addHost m.hosts

def internalSerialize (m : GetRouteResponse) : Bytes :=
  writeInt32 R 1 m.modid ++ writeInt32 R 2 m.cmdid ++
    m.hosts.flatMap (writeMessage R (HostEntry.sub R) 3)

def byteSizeLong (m : GetRouteResponse) : Nat :=
  sizeMessages R (HostEntry.sub R) m.hosts + sizeInt32 R m.modid + sizeInt32 R m.cmdid

def mergeFrom (target source : GetRouteResponse) : GetRouteResponse :=
  { modid := merged 0 target.modid source.modid
    cmdid := merged 0 target.cmdid source.cmdid
    hosts := target.hosts ++ source.hosts }

theorem foldl_addHost (hosts : List HostEntry) (m : GetRouteResponse) :
    hosts.foldl addHost m = { m with hosts := m.hosts ++ hosts } := by
  induction hosts generalizing m with
  | nil => simp
  | cons host hosts ih => simp [ih, addHost]

def messageClass : MessageClass R GetRouteResponse where
  cleared := ⟨0, 0, []⟩
  cases := cases R
  pieces := pieces R
  internalSerialize := internalSerialize R
  byteSizeLong := byteSizeLong R
  mergeFrom := mergeFrom
  absorbs m := by
    simp only [pieces, absorbsAll_append, absorbsAll_cons]
    exact ⟨⟨absorbs_int32 modid setModid rfl (fun _ => rfl) _,
      absorbs_int32 cmdid setCmdid rfl (fun _ => rfl) _, absorbsAll_nil⟩,
      absorbsAll_elements _ rfl (tagBytes_makeTag (by decide) (by decide)) _⟩
  serialize_eq m := by simp [pieces, internalSerialize]
  apply_eq m target := by
    simp only [pieces, Piece.applyAll_append, applyAll_elementPieces, foldl_addHost]
    rfl
  merge_cleared m := by simp [mergeFrom, merged_zero]
  size_eq m := by
    rw [internalSerialize, byteSizeLong, List.length_append, List.length_append,
      writeMessages_length _ (by decide), writeInt32_length (by decide),
      writeInt32_length (by decide)]
    omega

theorem byteSizeLong_le (m : GetRouteResponse) : byteSizeLong R m ≤ 24 * m.hosts.length + 22 := by
  have hmodid := sizeInt32_le (R := R) m.modid
  have hcmdid := sizeInt32_le (R := R) m.cmdid
  have hhosts := sizeMessages_le (R := R) (HostEntry.sub R) (HostEntry.byteSizeLong_le R) m.hosts
  unfold byteSizeLong
  omega

end GetRouteResponse

/-! ## `ReportStatusRequest` -/

namespace ReportStatusRequest

def setModid (m : ReportStatusRequest) (value : BitVec 32) : ReportStatusRequest :=
  { m with modid := value }
def setCmdid (m : ReportStatusRequest) (value : BitVec 32) : ReportStatusRequest :=
  { m with cmdid := value }
def setCaller (m : ReportStatusRequest) (value : BitVec 32) : ReportStatusRequest :=
  { m with caller := value }
def addResults (m : ReportStatusRequest) (result : HostCallResult) : ReportStatusRequest :=
  { m with results := m.results ++ [result] }
def setTs (m : ReportStatusRequest) (value : BitVec 32) : ReportStatusRequest :=
  { m with ts := value }

def cases : List (FieldCase ReportStatusRequest) :=
  [varint32Case R 1 8 setModid, varint32Case R 2 16 setCmdid, varint32Case R 3 24 setCaller,
    repeatedCase R (HostCallResult.sub R) 4 34 addResults, varint32Case R 5 40 setTs]

def pieces (m : ReportStatusRequest) : List (Piece ReportStatusRequest) :=
  [⟨writeInt32 R 1 m.modid, fun target => target.setModid (merged 0 target.modid m.modid)⟩,
    ⟨writeInt32 R 2 m.cmdid, fun target => target.setCmdid (merged 0 target.cmdid m.cmdid)⟩,
    ⟨writeInt32 R 3 m.caller,
      fun target => target.setCaller (merged 0 target.caller m.caller)⟩] ++
    elementPieces R (HostCallResult.sub R) 4 addResults m.results ++
    [⟨writeUInt32 R 5 m.ts, fun target => target.setTs (merged 0 target.ts m.ts)⟩]

def internalSerialize (m : ReportStatusRequest) : Bytes :=
  writeInt32 R 1 m.modid ++ writeInt32 R 2 m.cmdid ++ writeInt32 R 3 m.caller ++
    m.results.flatMap (writeMessage R (HostCallResult.sub R) 4) ++ writeUInt32 R 5 m.ts

def byteSizeLong (m : ReportStatusRequest) : Nat :=
  sizeMessages R (HostCallResult.sub R) m.results + sizeInt32 R m.modid + sizeInt32 R m.cmdid +
    sizeInt32 R m.caller + sizeUInt32 R m.ts

def mergeFrom (target source : ReportStatusRequest) : ReportStatusRequest :=
  { modid := merged 0 target.modid source.modid
    cmdid := merged 0 target.cmdid source.cmdid
    caller := merged 0 target.caller source.caller
    results := target.results ++ source.results
    ts := merged 0 target.ts source.ts }

theorem foldl_addResults (results : List HostCallResult) (m : ReportStatusRequest) :
    results.foldl addResults m = { m with results := m.results ++ results } := by
  induction results generalizing m with
  | nil => simp
  | cons result results ih => simp [ih, addResults]

def messageClass : MessageClass R ReportStatusRequest where
  cleared := ⟨0, 0, 0, [], 0⟩
  cases := cases R
  pieces := pieces R
  internalSerialize := internalSerialize R
  byteSizeLong := byteSizeLong R
  mergeFrom := mergeFrom
  absorbs m := by
    simp only [pieces, absorbsAll_append, absorbsAll_cons]
    exact ⟨⟨⟨absorbs_int32 modid setModid rfl (fun _ => rfl) _,
      absorbs_int32 cmdid setCmdid rfl (fun _ => rfl) _,
      absorbs_int32 caller setCaller rfl (fun _ => rfl) _, absorbsAll_nil⟩,
      absorbsAll_elements _ rfl (tagBytes_makeTag (by decide) (by decide)) _⟩,
      absorbs_uint32 ts setTs rfl (fun _ => rfl) _, absorbsAll_nil⟩
  serialize_eq m := by simp [pieces, internalSerialize]
  apply_eq m target := by
    simp only [pieces, Piece.applyAll_append, applyAll_elementPieces, foldl_addResults]
    rfl
  merge_cleared m := by simp [mergeFrom, merged_zero]
  size_eq m := by
    simp only [internalSerialize, byteSizeLong, List.length_append]
    rw [writeMessages_length _ (by decide), writeInt32_length (by decide),
      writeInt32_length (by decide), writeInt32_length (by decide),
      writeUInt32_length (by decide)]
    omega

theorem byteSizeLong_le (m : ReportStatusRequest) :
    byteSizeLong R m ≤ 38 * m.results.length + 39 := by
  have hmodid := sizeInt32_le (R := R) m.modid
  have hcmdid := sizeInt32_le (R := R) m.cmdid
  have hcaller := sizeInt32_le (R := R) m.caller
  have hts := sizeUInt32_le (R := R) m.ts
  have hresults :=
    sizeMessages_le (R := R) (HostCallResult.sub R) (HostCallResult.byteSizeLong_le R) m.results
  unfold byteSizeLong
  omega

end ReportStatusRequest

/-! ## `GetHostRequest` -/

namespace GetHostRequest

def setSeq (m : GetHostRequest) (value : BitVec 32) : GetHostRequest := { m with seq := value }
def setModid (m : GetHostRequest) (value : BitVec 32) : GetHostRequest := { m with modid := value }
def setCmdid (m : GetHostRequest) (value : BitVec 32) : GetHostRequest := { m with cmdid := value }

def cases : List (FieldCase GetHostRequest) :=
  [varint32Case R 1 8 setSeq, varint32Case R 2 16 setModid, varint32Case R 3 24 setCmdid]

def pieces (m : GetHostRequest) : List (Piece GetHostRequest) :=
  [⟨writeUInt32 R 1 m.seq, fun target => target.setSeq (merged 0 target.seq m.seq)⟩,
    ⟨writeInt32 R 2 m.modid, fun target => target.setModid (merged 0 target.modid m.modid)⟩,
    ⟨writeInt32 R 3 m.cmdid, fun target => target.setCmdid (merged 0 target.cmdid m.cmdid)⟩]

def internalSerialize (m : GetHostRequest) : Bytes :=
  writeUInt32 R 1 m.seq ++ writeInt32 R 2 m.modid ++ writeInt32 R 3 m.cmdid

def byteSizeLong (m : GetHostRequest) : Nat :=
  sizeUInt32 R m.seq + sizeInt32 R m.modid + sizeInt32 R m.cmdid

def mergeFrom (target source : GetHostRequest) : GetHostRequest :=
  { seq := merged 0 target.seq source.seq
    modid := merged 0 target.modid source.modid
    cmdid := merged 0 target.cmdid source.cmdid }

def messageClass : MessageClass R GetHostRequest where
  cleared := ⟨0, 0, 0⟩
  cases := cases R
  pieces := pieces R
  internalSerialize := internalSerialize R
  byteSizeLong := byteSizeLong R
  mergeFrom := mergeFrom
  absorbs m := by
    simp only [pieces, absorbsAll_cons]
    exact ⟨absorbs_uint32 seq setSeq rfl (fun _ => rfl) _,
      absorbs_int32 modid setModid rfl (fun _ => rfl) _,
      absorbs_int32 cmdid setCmdid rfl (fun _ => rfl) _, absorbsAll_nil⟩
  serialize_eq m := by simp [pieces, internalSerialize]
  apply_eq _ _ := rfl
  merge_cleared m := by simp [mergeFrom, merged_zero]
  size_eq m := by
    simp [internalSerialize, byteSizeLong, writeInt32_length, writeUInt32_length, Nat.add_assoc]

theorem byteSizeLong_le (m : GetHostRequest) : byteSizeLong R m ≤ 28 := by
  have hseq := sizeUInt32_le (R := R) m.seq
  have hmodid := sizeInt32_le (R := R) m.modid
  have hcmdid := sizeInt32_le (R := R) m.cmdid
  unfold byteSizeLong
  omega

end GetHostRequest

/-! ## `GetHostResponse` -/

namespace GetHostResponse

def setSeq (m : GetHostResponse) (value : BitVec 32) : GetHostResponse := { m with seq := value }
def setModid (m : GetHostResponse) (value : BitVec 32) : GetHostResponse :=
  { m with modid := value }
def setCmdid (m : GetHostResponse) (value : BitVec 32) : GetHostResponse :=
  { m with cmdid := value }
def setRetcode (m : GetHostResponse) (value : BitVec 32) : GetHostResponse :=
  { m with retcode := value }
def setHost (m : GetHostResponse) (value : HostEntry) : GetHostResponse :=
  { m with host := some value }

def cases : List (FieldCase GetHostResponse) :=
  [varint32Case R 1 8 setSeq, varint32Case R 2 16 setModid, varint32Case R 3 24 setCmdid,
    varint32Case R 4 32 setRetcode, messageCase R (HostEntry.sub R) 5 42 host setHost]

def pieces (m : GetHostResponse) : List (Piece GetHostResponse) :=
  [⟨writeUInt32 R 1 m.seq, fun target => target.setSeq (merged 0 target.seq m.seq)⟩,
    ⟨writeInt32 R 2 m.modid, fun target => target.setModid (merged 0 target.modid m.modid)⟩,
    ⟨writeInt32 R 3 m.cmdid, fun target => target.setCmdid (merged 0 target.cmdid m.cmdid)⟩,
    ⟨writeInt32 R 4 m.retcode,
      fun target => target.setRetcode (merged 0 target.retcode m.retcode)⟩] ++
    messagePieces R (HostEntry.sub R) 5 host setHost m.host

def internalSerialize (m : GetHostResponse) : Bytes :=
  writeUInt32 R 1 m.seq ++ writeInt32 R 2 m.modid ++ writeInt32 R 3 m.cmdid ++
    writeInt32 R 4 m.retcode ++
    match m.host with
    | some host => writeMessage R (HostEntry.sub R) 5 host
    | none => []

def byteSizeLong (m : GetHostResponse) : Nat :=
  (match m.host with
    | some host => sizeMessage R (HostEntry.sub R) host
    | none => 0) +
    sizeUInt32 R m.seq + sizeInt32 R m.modid + sizeInt32 R m.cmdid + sizeInt32 R m.retcode

def mergeFrom (target source : GetHostResponse) : GetHostResponse :=
  { seq := merged 0 target.seq source.seq
    modid := merged 0 target.modid source.modid
    cmdid := merged 0 target.cmdid source.cmdid
    retcode := merged 0 target.retcode source.retcode
    host :=
      match source.host with
      | some host => some ((target.host.getD ⟨0, 0⟩).mergeFrom host)
      | none => target.host }

def messageClass : MessageClass R GetHostResponse where
  cleared := ⟨0, 0, 0, 0, none⟩
  cases := cases R
  pieces := pieces R
  internalSerialize := internalSerialize R
  byteSizeLong := byteSizeLong R
  mergeFrom := mergeFrom
  absorbs m := by
    simp only [pieces, absorbsAll_append, absorbsAll_cons]
    exact ⟨⟨absorbs_uint32 seq setSeq rfl (fun _ => rfl) _,
      absorbs_int32 modid setModid rfl (fun _ => rfl) _,
      absorbs_int32 cmdid setCmdid rfl (fun _ => rfl) _,
      absorbs_int32 retcode setRetcode rfl (fun _ => rfl) _, absorbsAll_nil⟩,
      absorbsAll_message _ rfl _⟩
  serialize_eq m := by
    rcases m with ⟨seq, modid, cmdid, retcode, _ | host⟩ <;>
      simp [pieces, internalSerialize, messagePieces]
  apply_eq m target := by
    rcases m with ⟨seq, modid, cmdid, retcode, _ | host⟩ <;> rfl
  merge_cleared m := by
    rcases m with ⟨seq, modid, cmdid, retcode, _ | host⟩ <;>
      simp [mergeFrom, HostEntry.mergeFrom, merged_zero]
  size_eq m := by
    simp only [internalSerialize, byteSizeLong, List.length_append]
    rw [writeInt32_length (by decide), writeInt32_length (by decide),
      writeInt32_length (by decide), writeUInt32_length (by decide)]
    rcases m with ⟨seq, modid, cmdid, retcode, _ | host⟩
    · simp only [List.length_nil]
      omega
    · simp only [writeMessage_length _ (show 5 < 16 by decide)]
      omega

theorem byteSizeLong_le (m : GetHostResponse) : byteSizeLong R m ≤ 63 := by
  have hseq := sizeUInt32_le (R := R) m.seq
  have hmodid := sizeInt32_le (R := R) m.modid
  have hcmdid := sizeInt32_le (R := R) m.cmdid
  have hretcode := sizeInt32_le (R := R) m.retcode
  unfold byteSizeLong
  cases m.host with
  | none =>
    simp only
    omega
  | some host =>
    have hhost := HostEntry.byteSizeLong_le R host
    have hsize := sizeMessage_eq (R := R) (HostEntry.sub R) host
    simp only [hsize]
    change HostEntry.byteSizeLong R host + 2 + _ + _ + _ + _ ≤ 63
    omega

end GetHostResponse

end LarsSystem
