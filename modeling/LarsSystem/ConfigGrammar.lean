import LarsSystem.ConfigFile

/-!
# What a configuration file means

A text is read as its lines. A line is a section header, or an entry
`key = value`, or nothing; an entry belongs to the section of the last header
above it, and the last entry of a key in a section counts. `Load` computes this
with a pointer to the map of the section it is in. Before the first header the
pointer is NULL, and an entry there is not skipped.
-/

namespace LarsSystem.Reactor

/-! ## Lines -/

/-- The trimmed line stands in brackets, with something between them. -/
def IsHeader (line name : Str) : Prop :=
  ∃ inner, Trimmed isspace line ('[' :: inner ++ [']']) ∧ inner ≠ [] ∧ Trimmed isspace inner name

structure IsEntry (line key value : Str) : Prop where
  noHeader : ∀ name, ¬ IsHeader line name
  split : ∃ before after, line = before ++ '=' :: after ∧ '=' ∉ before ∧
    Trimmed isspace before key ∧ Trimmed isspace after value
  nonempty : key ≠ []
  noComment : key.head? ≠ some '#' ∧ key.head? ≠ some ';'

section Lines

variable {line name key value t inner : Str} {st : Loading}

theorem brackets_eq (hlen : 2 < t.length) (hopen : t[0] = '[') (hclose : t[t.length - 1] = ']') :
    t = '[' :: (t.drop 1).take (t.length - 2) ++ [']'] := by
  cases t with
  | nil => cases hlen
  | cons a t =>
    rcases List.eq_nil_or_concat t with rfl | ⟨inner, b, rfl⟩
    · exact absurd hlen (by simp)
    · have ha : a = '[' := hopen
      have hb : b = ']' := by
        simpa using hclose
      subst ha hb
      simp

theorem isSection_eq_some_iff : isSection line = some name ↔ IsHeader line name := by
  constructor
  · intro hsection
    simp only [isSection] at hsection
    split at hsection
    · cases hsection
    · next hlen =>
      split at hsection
      · cases hsection
      · next hends =>
        obtain ⟨hopen, hclose⟩ := not_or.mp hends
        have hbrackets := brackets_eq (Nat.lt_of_not_le hlen) (not_not.mp hopen)
          (not_not.mp hclose)
        refine ⟨_, trim_iff.mpr hbrackets, ?_, trim_iff.mpr (Option.some.inj hsection)⟩
        apply List.ne_nil_of_length_pos
        rw [List.length_take, List.length_drop]
        omega
  · rintro ⟨inner, hline, hne, hname⟩
    have hpos : 0 < inner.length := List.length_pos_iff.mpr hne
    have htrim : trim line = '[' :: inner ++ [']'] := trim_iff.mp hline
    have hinner : ∀ h, substr ('[' :: inner ++ [']']) 1 (('[' :: inner ++ [']']).length - 2) h =
        inner := by
      intro h
      simp [substr]
    unfold isSection
    simp only [htrim]
    rw [dif_neg (by simp; omega), if_neg (by simp), hinner, trim_iff.mp hname]

theorem findFirst_equals {before after : Str} (hbefore : '=' ∉ before) :
    findFirst (· = '=') (before ++ '=' :: after) 0 = some before.length := by
  have hnot : ∀ c ∈ before, ¬ (c = '=') := by
    rintro c hc rfl
    exact hbefore hc
  have hnone : before.findIdx? (· = '=') = none := by
    rw [List.findIdx?_eq_none_iff]
    intro c hc
    exact decide_eq_false (hnot c hc)
  rw [findFirst, List.drop_zero, List.findIdx?_append, hnone, List.findIdx?_cons]
  simp

theorem equals_cut {str : Str} {equ_pos : Nat} (hfind : findFirst (· = '=') str 0 = some equ_pos) :
    str = str.take equ_pos ++ '=' :: str.drop (equ_pos + 1) ∧ '=' ∉ str.take equ_pos := by
  have hlt : equ_pos < str.length := findFirst_lt hfind
  obtain ⟨-, ⟨c, hc, hequ⟩, hbefore⟩ := findFirst_some hfind
  have hget : str[equ_pos] = '=' := by
    rw [List.getElem?_eq_getElem hlt] at hc
    rw [Option.some.inj hc]
    exact of_decide_eq_true hequ
  constructor
  · rw [← hget, List.getElem_cons_drop, List.take_append_drop]
  · intro hmem
    obtain ⟨n, hn, hget⟩ := List.mem_take_iff_getElem.mp hmem
    have hpassed := hbefore n '=' (Nat.zero_le n) (by omega)
      (by rw [List.getElem?_eq_getElem (by omega), hget])
    simp at hpassed

theorem equals_unique {before before' after after' : Str}
    (heq : before ++ '=' :: after = before' ++ '=' :: after')
    (hbefore : '=' ∉ before) (hbefore' : '=' ∉ before') : before = before' ∧ after = after' := by
  have hlen : before.length = before'.length := by
    have hfind : findFirst (· = '=') (before ++ '=' :: after) 0 = some before.length :=
      findFirst_equals hbefore
    rw [heq, findFirst_equals hbefore'] at hfind
    exact (Option.some.inj hfind).symm
  obtain ⟨hsame, hafter⟩ := List.append_inj heq hlen
  cases hafter
  exact ⟨hsame, rfl⟩

theorem loadLine_header (hheader : IsHeader line name) (st : Loading) :
    loadLine st line = .ok (st.enter name) := by
  unfold loadLine
  rw [isSection_eq_some_iff.mpr hheader]

theorem isSection_eq_none (hnone : ∀ name, ¬ IsHeader line name) : isSection line = none := by
  cases hsection : isSection line with
  | none => rfl
  | some name => exact absurd (isSection_eq_some_iff.mp hsection) (hnone name)

theorem loadLine_entry (hentry : IsEntry line key value) (st : Loading) :
    loadLine st line = st.store key value := by
  obtain ⟨before, after, rfl, hbefore, hkey, hvalue⟩ := hentry.split
  have hcut : ∀ h, trim (substr (before ++ '=' :: after) 0 before.length h) = key := by
    intro h
    rw [substr, List.drop_zero, List.take_left]
    exact trim_iff.mp hkey
  have hrest : ∀ h, trim (substrToEnd (before ++ '=' :: after) (before.length + 1) h) = value := by
    intro h
    rw [substrToEnd, ← List.drop_drop, List.drop_left]
    exact trim_iff.mp hvalue
  have hhead : ∀ c, key.head hentry.nonempty = c → key.head? = some c := by
    rintro c rfl
    exact List.head?_eq_some_head _
  simp only [loadLine, isSection_eq_none hentry.noHeader]
  split
  · next hfind =>
    rw [findFirst_equals hbefore] at hfind
    cases hfind
  · next equ_pos hfind =>
    cases (findFirst_equals hbefore).symm.trans hfind
    simp only [hcut, hrest]
    rw [dif_neg hentry.nonempty, if_neg]
    rintro (hcomment | hcomment)
    · exact hentry.noComment.1 (hhead _ hcomment)
    · exact hentry.noComment.2 (hhead _ hcomment)

/-- Every other line is passed over. -/
theorem loadLine_other (hnone : ∀ name, ¬ IsHeader line name)
    (hother : ∀ key value, ¬ IsEntry line key value) (st : Loading) :
    loadLine st line = .ok st := by
  simp only [loadLine, isSection_eq_none hnone]
  split
  · rfl
  · next equ_pos hfind =>
    split
    · rfl
    · next hkey =>
      split
      · rfl
      · next hcomment =>
        -- the line would be an entry
        obtain ⟨hhash, hsemi⟩ := not_or.mp hcomment
        obtain ⟨hcut, hnotMem⟩ := equals_cut hfind
        refine absurd ⟨hnone, ⟨_, _, hcut, hnotMem, trim_iff.mpr rfl, trim_iff.mpr rfl⟩, hkey, ?_⟩
          (hother _ _)
        have hhead := List.head?_eq_some_head hkey
        constructor
        · intro heq
          exact hhash (Option.some.inj (hhead.symm.trans heq))
        · intro heq
          exact hsemi (Option.some.inj (hhead.symm.trans heq))

end Lines

/-! ## Sections -/

/-- The last header of `lines` names `s`. -/
def CurrentSection (lines : List Str) (s : Str) : Prop :=
  ∃ earlier header later, lines = earlier ++ header :: later ∧ IsHeader header s ∧
    ∀ line ∈ later, ∀ name, ¬ IsHeader line name

/-- Line `i` is an entry and stands under a header of `s`. -/
def EntryAt (lines : List Str) (i : Nat) (s key value : Str) : Prop :=
  CurrentSection (lines.take i) s ∧ ∃ line, lines[i]? = some line ∧ IsEntry line key value

/-- The value of the last entry of `key` in `s`, if there is one. -/
def LastEntry (lines : List Str) (s key : Str) : Option Str → Prop
  | some value => ∃ i, EntryAt lines i s key value ∧ ∀ n v, i < n → ¬ EntryAt lines n s key v
  | none => ∀ i v, ¬ EntryAt lines i s key v

/-- Every entry has a header above it. -/
def Covered (lines : List Str) : Prop :=
  ∀ i line key value, lines[i]? = some line → IsEntry line key value →
    ∃ s, CurrentSection (lines.take i) s

section Sections

variable {lines : List Str} {line s s' key value name : Str} {i : Nat}

theorem isHeader_unique (hname : IsHeader line s) (hname' : IsHeader line s') : s = s' := by
  rw [← isSection_eq_some_iff] at hname hname'
  exact Option.some.inj (hname.symm.trans hname')

theorem currentSection_header (hheader : IsHeader line name) :
    CurrentSection (lines ++ [line]) s ↔ s = name := by
  constructor
  · rintro ⟨earlier, header, later, heq, hs, hlater⟩
    rcases snoc_eq_append_cons.mp heq with ⟨-, -, rfl⟩ | ⟨later', rfl, -⟩
    · exact isHeader_unique hs hheader
    · have hmem : line ∈ later' ++ [line] := List.mem_append_right _ (List.mem_singleton.mpr rfl)
      exact absurd hheader (hlater line hmem name)
  · rintro rfl
    exact ⟨lines, line, [], rfl, hheader, fun _ hmem => absurd hmem List.not_mem_nil⟩

theorem currentSection_plain (hplain : ∀ name, ¬ IsHeader line name) :
    CurrentSection (lines ++ [line]) s ↔ CurrentSection lines s := by
  constructor
  · rintro ⟨earlier, header, later, heq, hs, hlater⟩
    rcases snoc_eq_append_cons.mp heq with ⟨-, -, rfl⟩ | ⟨later', rfl, hlines⟩
    · exact absurd hs (hplain s)
    · exact ⟨earlier, header, later', hlines, hs, fun l hl => hlater l (List.mem_append_left _ hl)⟩
  · rintro ⟨earlier, header, later, rfl, hs, hlater⟩
    refine ⟨earlier, header, later ++ [line], by rw [List.append_assoc, List.cons_append], hs, ?_⟩
    intro l hl
    rcases List.mem_append.mp hl with hl | hl
    · exact hlater l hl
    · cases List.mem_singleton.mp hl
      exact hplain

theorem entryAt_lt (hentry : EntryAt lines i s key value) : i < lines.length := by
  obtain ⟨-, line, hget, -⟩ := hentry
  exact (List.getElem?_eq_some_iff.mp hget).1

/-- One more line adds at most one entry. -/
theorem entryAt_snoc :
    EntryAt (lines ++ [line]) i s key value ↔ EntryAt lines i s key value ∨
      i = lines.length ∧ CurrentSection lines s ∧ IsEntry line key value := by
  rcases Nat.lt_trichotomy i lines.length with hlt | rfl | hgt
  · rw [EntryAt, List.take_append_of_le_length (Nat.le_of_lt hlt),
      List.getElem?_append_left hlt]
    simp [EntryAt, Nat.ne_of_lt hlt]
  · simp [EntryAt]
  · have hnone : (lines ++ [line])[i]? = none := by
      apply List.getElem?_eq_none
      rw [List.length_append, List.length_singleton]
      omega
    constructor
    · rintro ⟨-, line', hget, -⟩
      rw [hnone] at hget
      cases hget
    · rintro (hentry | ⟨heq, -⟩)
      · exact absurd (entryAt_lt hentry) (by omega)
      · exact absurd heq (by omega)

/-- A line that adds no entry of the key leaves the last one. -/
theorem LastEntry.snoc_other {found : Option Str} (hlast : LastEntry lines s key found)
    (hother : ∀ value, ¬ (CurrentSection lines s ∧ IsEntry line key value)) :
    LastEntry (lines ++ [line]) s key found := by
  have hsame : ∀ i value,
      EntryAt (lines ++ [line]) i s key value ↔ EntryAt lines i s key value := by
    intro i value
    rw [entryAt_snoc]
    constructor
    · rintro (hentry | ⟨-, hnew⟩)
      · exact hentry
      · exact absurd hnew (hother value)
    · exact Or.inl
  cases found with
  | none =>
    intro i v
    rw [hsame]
    exact hlast i v
  | some value =>
    obtain ⟨i, hentry, hlater⟩ := hlast
    refine ⟨i, (hsame i value).mpr hentry, ?_⟩
    intro n v hn
    rw [hsame]
    exact hlater n v hn

theorem lastEntry_snoc_entry (hsection : CurrentSection lines s)
    (hentry : IsEntry line key value) : LastEntry (lines ++ [line]) s key (some value) := by
  refine ⟨lines.length, entryAt_snoc.mpr (Or.inr ⟨rfl, hsection, hentry⟩), ?_⟩
  intro n v hn hlater
  have hlt := entryAt_lt hlater
  rw [List.length_append, List.length_singleton] at hlt
  omega

theorem Covered.snoc (hcovered : Covered lines)
    (hline : ∀ key value, IsEntry line key value → ∃ s, CurrentSection lines s) :
    Covered (lines ++ [line]) := by
  intro i line' key value hget hentry
  rcases Nat.lt_trichotomy i lines.length with hlt | rfl | hgt
  · rw [List.getElem?_append_left hlt] at hget
    rw [List.take_append_of_le_length (Nat.le_of_lt hlt)]
    exact hcovered i line' key value hget hentry
  · rw [List.getElem?_concat_length] at hget
    cases hget
    rw [List.take_left]
    exact hline key value hentry
  · rw [List.getElem?_eq_none (by rw [List.length_append, List.length_singleton]; omega)] at hget
    cases hget

theorem isEntry_unique {key' value' : Str} (hentry : IsEntry line key value)
    (hentry' : IsEntry line key' value') : key = key' ∧ value = value' := by
  obtain ⟨before, after, rfl, hbefore, hkey, hvalue⟩ := hentry.split
  obtain ⟨before', after', heq, hbefore', hkey', hvalue'⟩ := hentry'.split
  obtain ⟨rfl, rfl⟩ := equals_unique heq hbefore hbefore'
  exact ⟨trimmed_unique hkey hkey', trimmed_unique hvalue hvalue'⟩

end Sections

/-! ## The lines that have been read -/

/-- The pointer is at the section of the last header, and the maps hold the last entries. -/
structure Reads (lines : List Str) (st : Loading) : Prop where
  current : ∀ s, st.In s ↔ CurrentSection lines s
  last : ∀ s key, LastEntry lines s key (st.file.lookup s key)
  covered : Covered lines

section Reads

variable {lines : List Str} {line name key value s : Str} {st : Loading}

theorem Loading.in_unique {s' : Str} (hin : st.In s) (hin' : st.In s') : s = s' := by
  obtain ⟨p, hm, hmap⟩ := hin
  obtain ⟨q, hm', hmap'⟩ := hin'
  cases hm.symm.trans hm'
  exact st.file.apart hmap hmap'

theorem Reads.header (hreads : Reads lines st) (hname : IsHeader line name) :
    Reads (lines ++ [line]) (st.enter name) := by
  have hnone : ∀ key value, ¬ IsEntry line key value := by
    intro key value hentry
    exact hentry.noHeader name hname
  refine ⟨?_, ?_, ?_⟩
  · intro s
    rw [currentSection_header hname]
    constructor
    · intro hin
      exact Loading.in_unique hin (Loading.in_enter st name)
    · rintro rfl
      exact Loading.in_enter st s
  · intro s key
    rw [Loading.lookup_enter]
    exact (hreads.last s key).snoc_other fun value hnew => hnone key value hnew.2
  · exact hreads.covered.snoc fun key value hentry => absurd hentry (hnone key value)

/-- An entry under a header takes the place of an older one of its key. -/
theorem Reads.entry (hreads : Reads lines st) (hentry : IsEntry line key value)
    (hin : st.In s) :
    ∃ st', st.store key value = .ok st' ∧ Reads (lines ++ [line]) st' := by
  have hsection := (hreads.current s).mp hin
  obtain ⟨st', hstore, hin', hlookup⟩ := Loading.store_in hin key value
  refine ⟨st', hstore, ?_, ?_, ?_⟩
  · intro s'
    rw [currentSection_plain hentry.noHeader, ← hreads.current]
    constructor
    · intro hs'
      rwa [Loading.in_unique hs' hin']
    · intro hs'
      rwa [Loading.in_unique hs' hin]
  · intro s' key'
    rw [hlookup]
    by_cases hsame : s' = s ∧ key' = key
    · rw [if_pos hsame, hsame.1, hsame.2]
      exact lastEntry_snoc_entry hsection hentry
    · rw [if_neg hsame]
      refine (hreads.last s' key').snoc_other ?_
      rintro value' ⟨hsection', hentry'⟩
      have hs' := Loading.in_unique ((hreads.current s').mpr hsection') hin
      exact hsame ⟨hs', (isEntry_unique hentry' hentry).1⟩
  · exact hreads.covered.snoc fun _ _ _ => ⟨s, hsection⟩

theorem Reads.other (hreads : Reads lines st) (hplain : ∀ name, ¬ IsHeader line name)
    (hother : ∀ key value, ¬ IsEntry line key value) : Reads (lines ++ [line]) st := by
  refine ⟨?_, ?_, ?_⟩
  · intro s
    rw [currentSection_plain hplain]
    exact hreads.current s
  · intro s key
    exact (hreads.last s key).snoc_other fun value hnew => hother key value hnew.2
  · exact hreads.covered.snoc fun key value hnew => absurd hnew (hother key value)

/-- One line: it is read as the grammar has it, or it is an entry without a header. -/
theorem Reads.step (hreads : Reads lines st) (line : Str) :
    (∃ st', loadLine st line = .ok st' ∧ Reads (lines ++ [line]) st') ∨
      loadLine st line = .error .nullSection ∧
        (∃ key value, IsEntry line key value) ∧ ∀ s, ¬ CurrentSection lines s := by
  by_cases hheader : ∃ name, IsHeader line name
  · obtain ⟨name, hname⟩ := hheader
    exact Or.inl ⟨_, loadLine_header hname st, hreads.header hname⟩
  · have hplain := not_exists.mp hheader
    by_cases hentry : ∃ key value, IsEntry line key value
    · obtain ⟨key, value, hentry⟩ := hentry
      rw [loadLine_entry hentry]
      cases hm : st.m with
      | none =>
        refine Or.inr ⟨Loading.store_null hm key value, ⟨key, value, hentry⟩, ?_⟩
        intro s hsection
        obtain ⟨p, hp, -⟩ := (hreads.current s).mpr hsection
        rw [hm] at hp
        cases hp
      | some p =>
        obtain ⟨s, hmap⟩ := st.known p hm
        exact Or.inl (hreads.entry hentry ⟨p, hm, hmap⟩)
    · have hother : ∀ key value, ¬ IsEntry line key value := by
        intro key value hnew
        exact hentry ⟨key, value, hnew⟩
      exact Or.inl ⟨st, loadLine_other hplain hother st, hreads.other hplain hother⟩

theorem Reads.run (hreads : Reads lines st) (rest : List Str) :
    (∃ st', rest.foldlM loadLine st = .ok st' ∧ Reads (lines ++ rest) st') ∨
      rest.foldlM loadLine st = .error .nullSection ∧ ¬ Covered (lines ++ rest) := by
  induction rest generalizing lines st with
  | nil =>
    rw [List.append_nil]
    exact Or.inl ⟨st, rfl, hreads⟩
  | cons line rest ih =>
    rw [List.foldlM_cons]
    rcases hreads.step line with ⟨st', hline, hreads'⟩ | ⟨hline, ⟨key, value, hentry⟩, hnone⟩
    · rw [hline, List.append_cons]
      exact ih hreads'
    · rw [hline]
      refine Or.inr ⟨rfl, ?_⟩
      intro hcovered
      have hget : (lines ++ line :: rest)[lines.length]? = some line := by
        rw [List.getElem?_append_right (Nat.le_refl _), Nat.sub_self]
        rfl
      obtain ⟨s, hs⟩ := hcovered lines.length line key value hget hentry
      rw [List.take_left] at hs
      exact hnone s hs

theorem reads_new : Reads [] ⟨ConfigFile.new, none, by intro p hp; cases hp⟩ := by
  refine ⟨?_, ?_, ?_⟩
  · intro s
    constructor
    · rintro ⟨p, hm, -⟩
      cases hm
    · rintro ⟨earlier, header, later, heq, -⟩
      simp at heq
  · intro s key i v hentry
    exact absurd (entryAt_lt hentry) (Nat.not_lt_zero i)
  · intro i line key value hget
    cases hget

end Reads

/-! ## Whitespace -/

/-- Two lines that differ in whitespace: at their ends, around the name of a header, or around
    key and value. -/
inductive Respaced : Str → Str → Prop
  | ends {line line' t : Str} :
      Trimmed isspace line t → Trimmed isspace line' t → Respaced line line'
  | name {line line' inner inner' name : Str} :
      Trimmed isspace line ('[' :: inner ++ [']']) →
      Trimmed isspace line' ('[' :: inner' ++ [']']) → inner ≠ [] → inner' ≠ [] →
      Trimmed isspace inner name → Trimmed isspace inner' name → Respaced line line'
  | entry {before before' after after' key value : Str} :
      '=' ∉ before → '=' ∉ before' →
      Trimmed isspace before key → Trimmed isspace before' key →
      Trimmed isspace after value → Trimmed isspace after' value →
      (∀ name, ¬ IsHeader (before ++ '=' :: after) name) →
      Respaced (before ++ '=' :: after) (before' ++ '=' :: after')

section Whitespace

variable {line line' left right before before' after after' key value name : Str}

theorem equals_notMem {blanks : Str} (hblank : ∀ c ∈ blanks, isspace c = true) : '=' ∉ blanks := by
  intro hmem
  exact absurd (hblank _ hmem) (by decide)

theorem isHeader_surround (hleft : ∀ c ∈ left, isspace c = true)
    (hright : ∀ c ∈ right, isspace c = true) :
    IsHeader (left ++ line ++ right) name ↔ IsHeader line name := by
  simp only [IsHeader, trimmed_surround hleft hright]

theorem isEntry_surround (hleft : ∀ c ∈ left, isspace c = true)
    (hright : ∀ c ∈ right, isspace c = true) :
    IsEntry (left ++ line ++ right) key value ↔ IsEntry line key value := by
  constructor
  · rintro ⟨hnone, ⟨before, after, heq, hnotMem, hkey, hvalue⟩, hne, hcomment⟩
    have hmem : '=' ∈ line := by
      have hall : '=' ∈ left ++ line ++ right := by
        rw [heq]
        simp
      rcases List.mem_append.mp hall with hfront | hmem
      · rcases List.mem_append.mp hfront with hmem | hmem
        · exact absurd hmem (equals_notMem hleft)
        · exact hmem
      · exact absurd hmem (equals_notMem hright)
    obtain ⟨b, a, rfl, hb⟩ := List.eq_append_cons_of_mem hmem
    have hsplit : (left ++ b) ++ '=' :: (a ++ right) = before ++ '=' :: after := by
      rw [← heq]
      simp
    have hnotMem' : '=' ∉ left ++ b := by
      rw [List.mem_append]
      exact not_or.mpr ⟨equals_notMem hleft, hb⟩
    obtain ⟨rfl, rfl⟩ := equals_unique hsplit hnotMem' hnotMem
    refine ⟨?_, ⟨b, a, rfl, hb, (trimmed_append_left hleft).mp hkey,
      (trimmed_append_right hright).mp hvalue⟩, hne, hcomment⟩
    intro name hname
    exact hnone name ((isHeader_surround hleft hright).mpr hname)
  · rintro ⟨hnone, ⟨before, after, rfl, hnotMem, hkey, hvalue⟩, hne, hcomment⟩
    refine ⟨?_, ⟨left ++ before, after ++ right, by simp, ?_, (trimmed_append_left hleft).mpr hkey,
      (trimmed_append_right hright).mpr hvalue⟩, hne, hcomment⟩
    · intro name hname
      exact hnone name ((isHeader_surround hleft hright).mp hname)
    · rw [List.mem_append]
      exact not_or.mpr ⟨equals_notMem hleft, hnotMem⟩

theorem isEntry_parts {k v : Str} (hbefore : '=' ∉ before) (hkey : Trimmed isspace before key)
    (hvalue : Trimmed isspace after value)
    (hnone : ∀ name, ¬ IsHeader (before ++ '=' :: after) name) :
    IsEntry (before ++ '=' :: after) k v ↔
      (k = key ∧ v = value) ∧ k ≠ [] ∧ k.head? ≠ some '#' ∧ k.head? ≠ some ';' := by
  constructor
  · rintro ⟨-, ⟨b, a, heq, hb, hk, hv⟩, hne, hcomment⟩
    obtain ⟨rfl, rfl⟩ := equals_unique heq hbefore hb
    exact ⟨⟨trimmed_unique hk hkey, trimmed_unique hv hvalue⟩, hne, hcomment⟩
  · rintro ⟨⟨rfl, rfl⟩, hne, hcomment⟩
    exact ⟨hnone, ⟨before, after, rfl, hbefore, hkey, hvalue⟩, hne, hcomment⟩

/-- A line with `=` that is a header shows it in the ends of its two parts. -/
theorem ends_of_header (hkey : Trimmed isspace before key) (hvalue : Trimmed isspace after value)
    (hheader : IsHeader (before ++ '=' :: after) name) :
    key.head? = some '[' ∧ value.getLast? = some ']' := by
  obtain ⟨inner, hline, -⟩ := hheader
  have hopen : ∀ c, ('[' :: inner ++ [']']).head? = some c → c = '[' := by
    rintro c hc
    exact (Option.some.inj hc).symm
  have hclose : ∀ c, ('[' :: inner ++ [']']).getLast? = some c → c = ']' := by
    intro c hc
    rw [List.getLast?_concat] at hc
    exact (Option.some.inj hc).symm
  obtain ⟨l, r, rfl, hl, hr, hhead, -⟩ := hkey
  obtain ⟨l', r', rfl, hl', hr', -, hlast⟩ := hvalue
  constructor
  · cases key with
    | nil =>
      have hblank : ∀ c ∈ l ++ [] ++ r, isspace c = true := by
        rw [List.append_nil]
        exact List.forall_mem_append.mpr ⟨hl, hr⟩
      exact absurd (hopen _ (hline.head? hblank (by decide))) (by decide)
    | cons c key =>
      have hcut : l ++ c :: key ++ r ++ '=' :: (l' ++ value ++ r') =
          l ++ c :: (key ++ r ++ '=' :: (l' ++ value ++ r')) := by simp
      rw [hcut] at hline
      rw [hopen c (hline.head? hl (hhead c rfl))]
      rfl
  · rcases List.eq_nil_or_concat value with rfl | ⟨value, c, rfl⟩
    · have hblank : ∀ c ∈ l' ++ [] ++ r', isspace c = true := by
        rw [List.append_nil]
        exact List.forall_mem_append.mpr ⟨hl', hr'⟩
      exact absurd (hclose _ (hline.getLast? hblank (by decide))) (by decide)
    · rw [List.concat_eq_append] at hline hlast ⊢
      have hcut : l ++ key ++ r ++ '=' :: (l' ++ (value ++ [c]) ++ r') =
          (l ++ key ++ r ++ '=' :: (l' ++ value)) ++ c :: r' := by simp
      rw [hcut] at hline
      rw [List.getLast?_concat, hclose c (hline.getLast? hr' (hlast c (by simp)))]

theorem header_of_ends (hkey : Trimmed isspace before key) (hvalue : Trimmed isspace after value)
    (hopen : key.head? = some '[') (hclose : value.getLast? = some ']') :
    ∃ name, IsHeader (before ++ '=' :: after) name := by
  obtain ⟨l, r, rfl, hl, -⟩ := hkey
  obtain ⟨l', r', rfl, -, hr', -⟩ := hvalue
  obtain ⟨key, rfl⟩ := List.head?_eq_some_iff.mp hopen
  obtain ⟨value, rfl⟩ := List.getLast?_eq_some_iff.mp hclose
  obtain ⟨name, hname⟩ := exists_trimmed isspace (key ++ r ++ '=' :: (l' ++ value))
  refine ⟨name, key ++ r ++ '=' :: (l' ++ value), ⟨l, r', by simp, hl, hr', ?_, ?_⟩, ?_, hname⟩
  · rintro c hc
    cases Option.mem_def.mp hc
    decide
  · intro c hc
    rw [Option.mem_def, List.getLast?_concat] at hc
    cases hc
    decide
  · simp

theorem loadLine_congr (hheader : ∀ name, IsHeader line name ↔ IsHeader line' name)
    (hentry : ∀ key value, IsEntry line key value ↔ IsEntry line' key value) (st : Loading) :
    loadLine st line = loadLine st line' := by
  by_cases hname : ∃ name, IsHeader line name
  · obtain ⟨name, hname⟩ := hname
    rw [loadLine_header hname, loadLine_header ((hheader name).mp hname)]
  · have hnone := not_exists.mp hname
    by_cases hkey : ∃ key value, IsEntry line key value
    · obtain ⟨key, value, hkey⟩ := hkey
      rw [loadLine_entry hkey, loadLine_entry ((hentry key value).mp hkey)]
    · rw [loadLine_other hnone fun key value h => hkey ⟨key, value, h⟩,
        loadLine_other (fun name h => hnone name ((hheader name).mpr h))
          fun key value h => hkey ⟨key, value, (hentry key value).mpr h⟩]

theorem loadLine_respaced (hspace : Respaced line line') (st : Loading) :
    loadLine st line = loadLine st line' := by
  cases hspace with
  | ends hline hline' =>
    obtain ⟨l, r, rfl, hl, hr, -⟩ := hline
    obtain ⟨l', r', rfl, hl', hr', -⟩ := hline'
    refine loadLine_congr ?_ ?_ st
    · intro name
      rw [isHeader_surround hl hr, isHeader_surround hl' hr']
    · intro key value
      rw [isEntry_surround hl hr, isEntry_surround hl' hr']
  | name hline hline' hne hne' hname hname' =>
    rw [loadLine_header ⟨_, hline, hne, hname⟩, loadLine_header ⟨_, hline', hne', hname'⟩]
  | @entry before before' after after' key value hb hb' hkey hkey' hvalue hvalue' hnone =>
    have hnone' : ∀ name, ¬ IsHeader (before' ++ '=' :: after') name := by
      intro name hname
      obtain ⟨hopen, hclose⟩ := ends_of_header hkey' hvalue' hname
      obtain ⟨name', hname'⟩ := header_of_ends hkey hvalue hopen hclose
      exact hnone name' hname'
    refine loadLine_congr (fun name => iff_of_false (hnone name) (hnone' name)) ?_ st
    intro k v
    rw [isEntry_parts hb hkey hvalue hnone, isEntry_parts hb' hkey' hvalue' hnone']

theorem foldlM_respaced {lines lines' : List Str} (hspace : List.Forall₂ Respaced lines lines')
    (st : Loading) : lines.foldlM loadLine st = lines'.foldlM loadLine st := by
  induction hspace generalizing st with
  | nil => rfl
  | cons hline _ ih =>
    rw [List.foldlM_cons, List.foldlM_cons, loadLine_respaced hline]
    exact congrArg _ (funext ih)

end Whitespace

/-! ## The text -/

def lines (text : Str) : List Str := text.splitOn '\n'

/-- `result` is what `GetString(s, key, default_value)` is to return. -/
def Answers (text s key default_value result : Str) : Prop :=
  LastEntry (lines text) s key (some result) ∨
    LastEntry (lines text) s key none ∧ result = default_value

/-- `Load` reads the text as the grammar has it, and any respacing of it in the same way. -/
def ReadAsGrammar (text : Str) : Prop :=
  ∃ file, ConfigFile.new.load (some text) = .ok (true, file) ∧
    (∀ s key default_value, Answers text s key default_value
      (file.getString s key default_value)) ∧
    ∀ text', List.Forall₂ Respaced (lines text) (lines text') →
      ConfigFile.new.load (some text') = .ok (true, file)

theorem load_eq (file : ConfigFile) (text : Str) :
    file.load (some text) =
      ((lines text).foldlM loadLine ⟨file, none, by intro p hp; cases hp⟩).map
        fun st => (true, st.file) := by
  rw [ConfigFile.load, loadLoop_opened, lines]
  cases (text.splitOn '\n').foldlM loadLine ⟨file, none, by intro p hp; cases hp⟩ with
  | error fault => rfl
  | ok st => rfl

theorem load_respaced {text text' : Str}
    (hspace : List.Forall₂ Respaced (lines text) (lines text')) (file : ConfigFile) :
    file.load (some text') = file.load (some text) := by
  rw [load_eq, load_eq, foldlM_respaced hspace]

theorem load_means_grammar_iff (text : Str) : ReadAsGrammar text ↔ Covered (lines text) := by
  rcases reads_new.run (lines text) with ⟨st, hfold, hreads⟩ | ⟨hfold, hnot⟩
  · have hload : ConfigFile.new.load (some text) = .ok (true, st.file) := by
      rw [load_eq, hfold]
      rfl
    rw [List.nil_append] at hreads
    constructor
    · intro _
      exact hreads.covered
    · intro _
      refine ⟨st.file, hload, ?_, ?_⟩
      · intro s key default_value
        rw [ConfigFile.getString_eq]
        have hlast := hreads.last s key
        cases hlookup : st.file.lookup s key with
        | none =>
          rw [hlookup] at hlast
          exact Or.inr ⟨hlast, rfl⟩
        | some value =>
          rw [hlookup] at hlast
          exact Or.inl hlast
      · intro text' hspace
        rw [load_respaced hspace, hload]
  · rw [List.nil_append] at hnot
    have hload : ConfigFile.new.load (some text) = .error .nullSection := by
      rw [load_eq, hfold]
      rfl
    constructor
    · rintro ⟨file, hok, -⟩
      cases hload.symm.trans hok
    · intro hcovered
      exact absurd hcovered hnot

/-- `a=b` without a header follows the NULL pointer. -/
theorem load_entry_before_header :
    ConfigFile.new.load (some ['a', '=', 'b']) = .error .nullSection ∧
      ¬ ReadAsGrammar ['a', '=', 'b'] := by
  have hload : ConfigFile.new.load (some ['a', '=', 'b']) = .error .nullSection := by
    rw [load_eq]
    rfl
  refine ⟨hload, ?_⟩
  rintro ⟨file, hok, -⟩
  cases hload.symm.trans hok

end LarsSystem.Reactor
