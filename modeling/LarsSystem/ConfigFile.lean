import LarsSystem.ObjectHeap
import LarsSystem.TextRuns

/-!
# `config_file`

A file of `key = value` lines under section headers. `Load` reads it line by line
and keeps a pointer `m` to the map of the section it is in; `_map` holds one such
map for each section name, made with `new` when the name is first met.

A `std::string` is the list of its characters. Positions passed to `substr` carry
the proof that they are in range, so that `std::out_of_range` is not thrown, and a
`ConfigFile` carries the proof that its pointers lead to maps, one map to each
section. What `Load` may do wrong is to follow `m` while it is NULL.
-/

namespace LarsSystem.Reactor

/-! ## Strings -/

abbrev Str := List Char

/-- `isspace` of the C locale: the space and `\t`, `\n`, `\v`, `\f`, `\r`. -/
def isspace (c : Char) : Bool := c = ' ' || (9 ≤ c.toNat && c.toNat ≤ 13)

def substr (s : Str) (pos n : Nat) (_ : pos ≤ s.length) : Str := (s.drop pos).take n

/-- `substr` without a length. -/
def substrToEnd (s : Str) (pos : Nat) (_ : pos ≤ s.length) : Str := s.drop pos

/-- `find` and its relatives: the first position from `pos` on whose character passes;
    `none` is `npos`. -/
def findFirst (p : Char → Bool) (s : Str) (pos : Nat) : Option Nat :=
  ((s.drop pos).findIdx? p).map (pos + ·)

section FindFirst

variable {p : Char → Bool} {s : Str} {pos i : Nat}

theorem findFirst_none (hnone : findFirst p s pos = none) {n : Nat} {c : Char} (hpos : pos ≤ n)
    (hget : s[n]? = some c) : p c = false := by
  rw [findFirst, Option.map_eq_none_iff, List.findIdx?_eq_none_iff] at hnone
  apply hnone c
  apply List.mem_of_getElem? (i := n - pos)
  rw [List.getElem?_drop, Nat.add_sub_cancel' hpos]
  exact hget

/-- What a search that ends has found, and what it has passed over. -/
theorem findFirst_some (hsome : findFirst p s pos = some i) :
    pos ≤ i ∧ (∃ c, s[i]? = some c ∧ p c = true) ∧
      ∀ n c, pos ≤ n → n < i → s[n]? = some c → p c = false := by
  obtain ⟨k, hk, rfl⟩ := Option.map_eq_some_iff.mp hsome
  obtain ⟨hlt, hfound, hpassed⟩ := List.findIdx?_eq_some_iff_getElem.mp hk
  have hget : (s.drop pos)[k]? = some (s.drop pos)[k] := List.getElem?_eq_getElem hlt
  rw [List.getElem?_drop] at hget
  refine ⟨Nat.le_add_right pos k, ⟨_, hget, hfound⟩, ?_⟩
  intro n c hpos hn hc
  have hj : n - pos < k := by omega
  have hcj : (s.drop pos)[n - pos]? = some c := by
    rw [List.getElem?_drop, Nat.add_sub_cancel' hpos]
    exact hc
  rw [List.getElem?_eq_getElem (hj.trans hlt)] at hcj
  rw [← Option.some.inj hcj]
  exact Bool.eq_false_iff.mpr (hpassed (n - pos) hj)

theorem findFirst_lt (hsome : findFirst p s pos = some i) : i < s.length := by
  obtain ⟨-, ⟨c, hget, -⟩, -⟩ := findFirst_some hsome
  exact (List.getElem?_eq_some_iff.mp hget).1

end FindFirst

/-- The loop of `trimLeft`, with the characters that the iterator has before it. -/
def firstNotEmpty : Str → Nat → Nat
  | [], first_not_empty => first_not_empty
  | c :: rest, first_not_empty =>
    if isspace c then firstNotEmpty rest (first_not_empty + 1) else first_not_empty

/-- The loop of `trimRight`, with the characters behind the iterator, last one first. -/
def lastNotEmpty : Str → Nat → Nat
  | [], last_not_empty => last_not_empty
  | c :: rest, last_not_empty =>
    if isspace c then lastNotEmpty rest (last_not_empty - 1) else last_not_empty

theorem firstNotEmpty_eq (s : Str) (n : Nat) :
    firstNotEmpty s n = n + (s.takeWhile isspace).length := by
  induction s generalizing n with
  | nil => rfl
  | cons c rest ih =>
    rw [firstNotEmpty, List.takeWhile_cons]
    by_cases hc : isspace c = true
    · rw [if_pos hc, if_pos hc, ih, List.length_cons]
      omega
    · rw [if_neg hc, if_neg hc]
      rfl

theorem lastNotEmpty_eq (s : Str) (n : Nat) :
    lastNotEmpty s n = n - (s.takeWhile isspace).length := by
  induction s generalizing n with
  | nil => rfl
  | cons c rest ih =>
    rw [lastNotEmpty, List.takeWhile_cons]
    by_cases hc : isspace c = true
    · rw [if_pos hc, if_pos hc, ih, List.length_cons]
      omega
    · rw [if_neg hc, if_neg hc]
      rfl

theorem firstNotEmpty_le (s : Str) : firstNotEmpty s 0 ≤ s.length := by
  rw [firstNotEmpty_eq, Nat.zero_add]
  exact (List.takeWhile_prefix isspace).length_le

def trimLeft (s : Str) : Str := substrToEnd s (firstNotEmpty s 0) (firstNotEmpty_le s)

def trimRight (s : Str) : Str := substr s 0 (lastNotEmpty s.reverse s.length) (Nat.zero_le _)

def trim (s : Str) : Str := trimLeft (trimRight s)

theorem trimLeft_eq (s : Str) : trimLeft s = s.dropWhile isspace := by
  rw [trimLeft, substrToEnd, firstNotEmpty_eq, Nat.zero_add]
  exact drop_length_takeWhile isspace s

theorem trimRight_eq (s : Str) : trimRight s = s.rdropWhile isspace := by
  rw [trimRight, substr, lastNotEmpty_eq, List.drop_zero]
  exact take_length_takeWhile_reverse isspace s

theorem trim_iff {s t : Str} : Trimmed isspace s t ↔ trim s = t := by
  rw [trim, trimLeft_eq, trimRight_eq]
  exact trimmed_iff

/-! ## The file -/

/-- The map of one section. -/
abbrev KeyMap := Str → Option Str

structure ConfigFile where
  maps : ObjectHeap KeyMap
  /-- `_map` -/
  map : Str → Option Ptr
  live : ∀ {s p}, map s = some p → (maps.cells p).isSome
  apart : ∀ {s s' p}, map s = some p → map s' = some p → s = s'

namespace ConfigFile

variable {file : ConfigFile} {s key value : Str} {p : Ptr}

/-- `config_file()` -/
def new : ConfigFile where
  maps := ObjectHeap.empty
  map := fun _ => none
  live := by
    intro s p hmap
    cases hmap
  apart := by
    intro s s' p hmap
    cases hmap

/-- The map behind a pointer of `_map`. -/
def deref (file : ConfigFile) (hmap : file.map s = some p) : KeyMap :=
  (file.maps.cells p).get (file.live hmap)

def getString (file : ConfigFile) (s key default_value : Str) : Str :=
  match hmap : file.map s with
  | some _ =>
    match file.deref hmap key with
    | some text => text
    | none => default_value
  | none => default_value

/-- `m = new std::map; _map.insert(section, m)`, for a section that is not in `_map`. -/
def insertSection (file : ConfigFile) (s : Str) : ConfigFile where
  maps := file.maps.alloc fun _ => none
  map := Function.update file.map s (some file.maps.next)
  live := by
    intro s' p hmap
    by_cases hs : s' = s
    · rw [hs, Function.update_self] at hmap
      rw [← Option.some.inj hmap, ObjectHeap.alloc_self]
      rfl
    · rw [Function.update_of_ne hs] at hmap
      obtain ⟨kv, hcell⟩ := Option.isSome_iff_exists.mp (file.live hmap)
      rw [ObjectHeap.alloc_live hcell]
      rfl
  apart := by
    have old : ∀ {s' p}, file.map s' = some p → p ≠ file.maps.next := by
      intro s' p hmap
      obtain ⟨kv, hcell⟩ := Option.isSome_iff_exists.mp (file.live hmap)
      exact Nat.ne_of_lt (ObjectHeap.lt_next hcell)
    intro s₁ s₂ p h₁ h₂
    by_cases hs₁ : s₁ = s
    · by_cases hs₂ : s₂ = s
      · rw [hs₁, hs₂]
      · rw [hs₁, Function.update_self] at h₁
        rw [Function.update_of_ne hs₂] at h₂
        exact absurd (Option.some.inj h₁).symm (old h₂)
    · rw [Function.update_of_ne hs₁] at h₁
      by_cases hs₂ : s₂ = s
      · rw [hs₂, Function.update_self] at h₂
        exact absurd (Option.some.inj h₂).symm (old h₁)
      · rw [Function.update_of_ne hs₂] at h₂
        exact file.apart h₁ h₂

/-- `insert` of a `std::map`: a key that is there keeps its value. -/
def insertKey (kv : KeyMap) (key value : Str) : KeyMap :=
  match kv key with
  | some _ => kv
  | none => Function.update kv key (some value)

def setKey (kv : KeyMap) (key value : Str) : KeyMap :=
  match kv key with
  | some _ => Function.update kv key (some value)
  | none => insertKey kv key value

/-- The end of a turn of `Load`, with `m` at the map `p`. -/
def setIn (file : ConfigFile) (p : Ptr) (key value : Str) : ConfigFile where
  maps := file.maps.modify p (setKey · key value)
  map := file.map
  live := by
    intro s q hmap
    by_cases hqp : q = p
    · rw [hqp, ObjectHeap.modify_self, Option.isSome_map, ← hqp]
      exact file.live hmap
    · rw [ObjectHeap.modify_other hqp]
      exact file.live hmap
  apart := file.apart

/-! ### What is stored -/

/-- The value that stands for a key in a section. -/
def lookup (file : ConfigFile) (s key : Str) : Option Str :=
  (file.map s).bind fun p => (file.maps.cells p).bind (· key)

theorem getString_eq (file : ConfigFile) (s key default_value : Str) :
    file.getString s key default_value = (file.lookup s key).getD default_value := by
  unfold getString lookup
  split
  · next p hmap =>
    obtain ⟨kv, hcell⟩ := Option.isSome_iff_exists.mp (file.live hmap)
    have hderef : file.deref hmap = kv := by
      simp only [deref, hcell, Option.get_some]
    rw [hderef, hmap, Option.bind_some, hcell, Option.bind_some]
    cases kv key with
    | none => rfl
    | some text => rfl
  · next hmap => rw [hmap, Option.bind_none, Option.getD_none]

@[simp] theorem insertSection_self (file : ConfigFile) (s : Str) :
    (file.insertSection s).map s = some file.maps.next :=
  Function.update_self _ _ _

@[simp] theorem insertSection_other {s' : Str} (hne : s' ≠ s) :
    (file.insertSection s).map s' = file.map s' :=
  Function.update_of_ne hne _ _

/-- A section that is met for the first time holds nothing. -/
theorem lookup_insertSection (habsent : file.map s = none) (s' key : Str) :
    (file.insertSection s).lookup s' key = file.lookup s' key := by
  by_cases hs : s' = s
  · have hcell : (file.insertSection s).maps.cells file.maps.next = some fun _ => none :=
      ObjectHeap.alloc_self _ _
    rw [lookup, lookup, hs, habsent, insertSection_self, Option.bind_some, hcell]
    rfl
  · rw [lookup, lookup, insertSection_other hs]
    cases hmap : file.map s' with
    | none => rfl
    | some p =>
      obtain ⟨kv, hcell⟩ := Option.isSome_iff_exists.mp (file.live hmap)
      have hcell' : (file.insertSection s).maps.cells p = some kv :=
        ObjectHeap.alloc_live hcell _
      rw [Option.bind_some, Option.bind_some, hcell, hcell']

theorem setKey_eq (kv : KeyMap) (key value : Str) :
    setKey kv key value = Function.update kv key (some value) := by
  unfold setKey insertKey
  cases kv key with
  | none => rfl
  | some old => rfl

theorem lookup_setIn (hmap : file.map s = some p) (key value s' key' : Str) :
    (file.setIn p key value).lookup s' key' =
      if s' = s ∧ key' = key then some value else file.lookup s' key' := by
  unfold lookup setIn
  by_cases hs : s' = s
  · obtain ⟨kv, hcell⟩ := Option.isSome_iff_exists.mp (file.live hmap)
    simp only [hs, hmap, Option.bind_some, ObjectHeap.modify_self, hcell, Option.map_some,
      setKey_eq, true_and, Function.update_apply]
  · rw [if_neg (by simp [hs])]
    cases hother : file.map s' with
    | none => rfl
    | some q =>
      have hqp : q ≠ p := by
        intro heq
        exact hs (file.apart hother (heq ▸ hmap))
      simp only [Option.bind_some, ObjectHeap.modify_other hqp]

end ConfigFile

/-! ## `Load` -/

/-- The name in a section header. -/
def isSection (line : Str) : Option Str :=
  let name := trim line
  if hlen : name.length ≤ 2 then
    none
  else if name[0] ≠ '[' ∨ name[name.length - 1] ≠ ']' then
    none
  else
    some (trim (substr name 1 (name.length - 2) (by omega)))

inductive LoadFault where
  /-- `m->find` while `m` is NULL. -/
  | nullSection
deriving DecidableEq, Repr

/-- The locals of `Load` between two lines. -/
structure Loading where
  file : ConfigFile
  m : Option Ptr
  known : ∀ p, m = some p → ∃ s, file.map s = some p

namespace Loading

/-- A section header is met. -/
def enter (st : Loading) (name : Str) : Loading :=
  match hfind : st.file.map name with
  | none =>
    { file := st.file.insertSection name
      m := some st.file.maps.next
      known := by
        intro p hp
        exact ⟨name, (Function.update_self _ _ _).trans hp⟩ }
  | some q =>
    { st with
      m := some q
      known := by
        intro p hp
        exact ⟨name, hfind.trans hp⟩ }

/-- A value is stored. -/
def store (st : Loading) (key value : Str) : Except LoadFault Loading :=
  match st.m with
  | none => .error .nullSection
  | some p => .ok { st with file := st.file.setIn p key value, known := st.known }

variable {st : Loading} {s : Str}

/-- `m` is at the map of `s`. -/
def In (st : Loading) (s : Str) : Prop := ∃ p, st.m = some p ∧ st.file.map s = some p

theorem in_enter (st : Loading) (name : Str) : (st.enter name).In name := by
  unfold enter
  split
  · exact ⟨_, rfl, ConfigFile.insertSection_self _ _⟩
  · next q hfind => exact ⟨q, rfl, hfind⟩

/-- A section named again is continued. -/
theorem lookup_enter (st : Loading) (name s key : Str) :
    (st.enter name).file.lookup s key = st.file.lookup s key := by
  unfold enter
  split
  · next habsent => exact ConfigFile.lookup_insertSection habsent s key
  · rfl

theorem store_in (hin : st.In s) (key value : Str) :
    ∃ st', st.store key value = .ok st' ∧ st'.In s ∧
      ∀ s' key', st'.file.lookup s' key' =
        if s' = s ∧ key' = key then some value else st.file.lookup s' key' := by
  obtain ⟨p, hm, hmap⟩ := hin
  unfold store
  split
  · next hnull =>
    rw [hnull] at hm
    cases hm
  · next q hq =>
    cases hq.symm.trans hm
    exact ⟨_, rfl, ⟨p, hm, hmap⟩, ConfigFile.lookup_setIn hmap key value⟩

theorem store_null (hm : st.m = none) (key value : Str) :
    st.store key value = .error .nullSection := by
  unfold store
  split
  · rfl
  · next p hp =>
    rw [hp] at hm
    cases hm

end Loading

def loadLine (st : Loading) (line : Str) : Except LoadFault Loading :=
  match isSection line with
  | some name => .ok (st.enter name)
  | none =>
    match hfind : findFirst (· = '=') line 0 with
    | none => .ok st
    | some equ_pos =>
      have hlt : equ_pos < line.length := findFirst_lt hfind
      let key := trim (substr line 0 equ_pos (Nat.zero_le _))
      let value := trim (substrToEnd line (equ_pos + 1) hlt)
      if hkey : key = [] then
        .ok st
      else if key.head hkey = '#' ∨ key.head hkey = ';' then
        .ok st
      else
        st.store key value

structure Ifstream where
  rest : Str
  eofbit : Bool
  failbit : Bool

namespace Ifstream

def opened (text : Str) : Ifstream := ⟨text, false, false⟩

def good (ifs : Ifstream) : Bool := !ifs.eofbit && !ifs.failbit

/-- `getline` on a good stream. -/
def getline (ifs : Ifstream) : Str × Ifstream :=
  match ifs.rest.dropWhile (· ≠ '\n') with
  | [] => (ifs.rest, ⟨[], true, ifs.rest.isEmpty⟩)
  | _ :: rest => (ifs.rest.takeWhile (· ≠ '\n'), ⟨rest, false, false⟩)

/-- What is left to be read; a stream at its end is not read again. -/
def left (ifs : Ifstream) : Nat := if ifs.eofbit then 0 else ifs.rest.length + 1

theorem getline_left (ifs : Ifstream) (heof : ifs.eofbit = false) :
    ifs.getline.2.left < ifs.left := by
  have hdrop : (ifs.rest.dropWhile (· ≠ '\n')).length ≤ ifs.rest.length :=
    (List.dropWhile_suffix _).length_le
  unfold getline left
  split
  · simp [heof]
  · next rest hrest =>
    rw [hrest, List.length_cons] at hdrop
    simp only [heof, Bool.false_eq_true, if_false]
    omega

end Ifstream

def loadLoop (ifs : Ifstream) (st : Loading) : Except LoadFault Loading :=
  if _hgoes : ifs.eofbit = false ∧ ifs.good = true then
    match loadLine st ifs.getline.1 with
    | .error fault => .error fault
    | .ok st => loadLoop ifs.getline.2 st
  else
    .ok st
termination_by ifs.left
decreasing_by exact ifs.getline_left _hgoes.1

theorem loadLoop_ended {ifs : Ifstream} (heof : ifs.eofbit = true) (st : Loading) :
    loadLoop ifs st = .ok st := by
  rw [loadLoop, dif_neg (by simp [heof])]

theorem loadLoop_next {ifs : Ifstream} (heof : ifs.eofbit = false) (hfail : ifs.failbit = false)
    (st : Loading) :
    loadLoop ifs st = (loadLine st ifs.getline.1).bind (loadLoop ifs.getline.2) := by
  rw [loadLoop, dif_pos ⟨heof, by simp [Ifstream.good, heof, hfail]⟩]
  cases loadLine st ifs.getline.1 with
  | error fault => rfl
  | ok st => rfl

/-- The lines that the loop gets to see; behind a final line end stands an empty one. -/
theorem loadLoop_opened (text : Str) (st : Loading) :
    loadLoop (Ifstream.opened text) st = (text.splitOn '\n').foldlM loadLine st := by
  induction hlen : text.length using Nat.strong_induction_on generalizing text st with
  | _ len ih =>
    have hcut : text.takeWhile (· ≠ '\n') ++ text.dropWhile (· ≠ '\n') = text :=
      List.takeWhile_append_dropWhile
    have hline : '\n' ∉ text.takeWhile (· ≠ '\n') := by
      intro hmem
      exact absurd (List.mem_takeWhile_imp hmem) (by decide)
    rw [loadLoop_next rfl rfl]
    cases hdrop : text.dropWhile (· ≠ '\n') with
    | nil =>
      have hget : (Ifstream.opened text).getline = (text, ⟨[], true, text.isEmpty⟩) := by
        simp only [Ifstream.getline, Ifstream.opened, hdrop]
      rw [hdrop, List.append_nil] at hcut
      rw [hcut] at hline
      rw [hget, List.splitOn_eq_singleton hline, List.foldlM_cons]
      refine congrArg ((loadLine st text).bind ·) (funext fun st' => ?_)
      exact loadLoop_ended rfl st'
    | cons c rest =>
      have hc : c = '\n' := by
        have hhead := List.head?_dropWhile_not (· ≠ '\n') text
        rw [hdrop] at hhead
        simpa using hhead
      have hget : (Ifstream.opened text).getline =
          (text.takeWhile (· ≠ '\n'), Ifstream.opened rest) := by
        simp only [Ifstream.getline, Ifstream.opened, hdrop]
      have hshort : rest.length < len := by
        rw [← hlen, ← hcut, hdrop, List.length_append, List.length_cons]
        omega
      have hsplit : text.splitOn '\n' = text.takeWhile (· ≠ '\n') :: rest.splitOn '\n' := by
        rw [hdrop, hc] at hcut
        rw [← List.splitOn_append_cons_self_of_not_mem hline, hcut]
      rw [hget, hsplit, List.foldlM_cons]
      refine congrArg ((loadLine st _).bind ·) (funext fun st' => ?_)
      exact ih rest.length hshort rest st' rfl

/-- `Load`; there is no text where the file does not open. -/
def ConfigFile.load (file : ConfigFile) (text : Option Str) :
    Except LoadFault (Bool × ConfigFile) :=
  match text with
  | none => .ok (false, file)
  | some text =>
    match loadLoop (Ifstream.opened text) ⟨file, none, by intro p hp; cases hp⟩ with
    | .error fault => .error fault
    | .ok st => .ok (true, st.file)

end LarsSystem.Reactor
