import LarsSystem.ConfigGrammar
import LarsSystem.StringList

/-!
# Configurations that are written and read back

A program of this system reads texts, numbers, flags and lists from its file. The
settings below are written one a line, under headers of their sections, and come back
as they are from the getter of their kind (`load_render`); the last one of a key in a
section counts, in whatever section block it stands.

What can be stored at all is what can be written so (`stored_iff`): names, keys and
values have no blanks at their ends and are of one line, a key is not empty, has no
`=`, does not begin like a comment, and does not make its line a header.
-/

namespace LarsSystem.Reactor

/-! ## Numbers and flags -/

/-- The number that the text begins with. -/
def leadingNumber (t : Str) : Nat := Nat.ofDigitChars 10 (t.takeWhile Char.isDigit) 0

def LLONG_MAX : Int := 9223372036854775807

def LLONG_MIN : Int := -9223372036854775808

/-- A number that does not fit becomes the nearest that does. -/
def toLongLong (v : Int) : Int :=
  if v < LLONG_MIN then LLONG_MIN else if LLONG_MAX < v then LLONG_MAX else v

/-- `iss >> v` for a `long long`. -/
def readLongLong (s : Str) : Int :=
  match s.dropWhile isspace with
  | '-' :: rest => toLongLong (-(leadingNumber rest : Int))
  | '+' :: rest => toLongLong (leadingNumber rest)
  | rest => toLongLong (leadingNumber rest)

/-- `parseNumber`: the `long long` as an `unsigned`. -/
def parseNumber (s : Str) : BitVec 32 := BitVec.ofInt 32 (readLongLong s)

/-- `strcasecmp` gives 0. -/
def sameIgnoringCase (a b : Str) : Bool :=
  let c_str (s : Str) := s.takeWhile (·.toNat ≠ 0)
  (c_str a).map Char.toLower = (c_str b).map Char.toLower

namespace ConfigFile

/-- The value that is stored, as `read` makes it; the default where none is. -/
def getAs {α : Type} (file : ConfigFile) (s key : Str) (read : Str → α) (default_value : α) : α :=
  match hmap : file.map s with
  | some _ =>
    match file.deref hmap key with
    | some text => read text
    | none => default_value
  | none => default_value

def getNumber (file : ConfigFile) (s key : Str) (default_value : BitVec 32) : BitVec 32 :=
  file.getAs s key parseNumber default_value

/-- A value that is not `true` does not count. -/
def getBool (file : ConfigFile) (s key : Str) (default_value : Bool) : Bool :=
  file.getAs s key (fun text => if sameIgnoringCase text "true".toList then true else default_value)
    default_value

theorem getAs_eq {α : Type} (file : ConfigFile) (s key : Str) (read : Str → α)
    (default_value : α) :
    file.getAs s key read default_value = (file.lookup s key).elim default_value read := by
  unfold getAs lookup
  split
  · next p hmap =>
    obtain ⟨kv, hcell⟩ := Option.isSome_iff_exists.mp (file.live hmap)
    have hderef : file.deref hmap = kv := by
      simp only [deref, hcell, Option.get_some]
    rw [hderef, hmap, Option.bind_some, hcell, Option.bind_some]
    cases kv key with
    | none => rfl
    | some text => rfl
  · next hmap => rw [hmap, Option.bind_none, Option.elim_none]

end ConfigFile

theorem digit_ne {c d : Char} (hc : c.isDigit = true) (hd : d.isDigit = false) : c ≠ d := by
  rintro rfl
  rw [hc] at hd
  cases hd

theorem isspace_of_isDigit {c : Char} (hc : c.isDigit = true) : isspace c = false := by
  have hblank : c ≠ ' ' := digit_ne hc (by decide)
  obtain ⟨hlow, -⟩ := Char.isDigit_iff_toNat.mp hc
  have hcode : 48 ≤ c.toNat := hlow
  unfold isspace
  rw [decide_eq_false hblank, Bool.false_or, Bool.and_eq_false_iff]
  exact Or.inr (decide_eq_false (by omega))

theorem readLongLong_digits {c : Char} {rest : Str} (hdigits : ∀ d ∈ c :: rest, d.isDigit = true) :
    readLongLong (c :: rest) = toLongLong (Nat.ofDigitChars 10 (c :: rest) 0) := by
  have hc : c.isDigit = true := hdigits c List.mem_cons_self
  have hminus : c ≠ '-' := digit_ne hc (by decide)
  have hplus : c ≠ '+' := digit_ne hc (by decide)
  unfold readLongLong
  rw [List.dropWhile_cons_of_neg (by simp [isspace_of_isDigit hc])]
  split
  · next heq => exact absurd (List.cons.inj heq).1 hminus
  · next heq => exact absurd (List.cons.inj heq).1 hplus
  · rw [leadingNumber, List.takeWhile_eq_self_iff.mpr hdigits]

/-- The digits of a number are read as the number. -/
theorem parseNumber_toDigits (n : BitVec 32) : parseNumber (Nat.toDigits 10 n.toNat) = n := by
  have hdigits : ∀ c ∈ Nat.toDigits 10 n.toNat, c.isDigit = true :=
    fun c hc => Nat.isDigit_of_mem_toDigits (by decide) (Nat.le_refl 10) hc
  have hnumber : Nat.ofDigitChars 10 (Nat.toDigits 10 n.toNat) 0 = n.toNat :=
    Nat.ofDigitChars_ten_toDigits
  have hne : Nat.toDigits 10 n.toNat ≠ [] := Nat.toDigits_ne_nil
  obtain ⟨c, rest, hcons⟩ := List.exists_cons_of_ne_nil hne
  rw [hcons] at hdigits hnumber ⊢
  have hfits : toLongLong n.toNat = n.toNat := by
    have hlt := n.isLt
    unfold toLongLong LLONG_MIN LLONG_MAX
    rw [if_neg (by omega), if_neg (by omega)]
  rw [parseNumber, readLongLong_digits hdigits, hnumber, hfits, BitVec.ofInt_natCast,
    BitVec.ofNat_toNat, BitVec.setWidth_eq]

example : parseNumber " -1x".toList = 0xffffffff#32 := by decide

/-! ## What can be written -/

/-- One line without blanks at its ends. -/
structure Bare (t : Str) : Prop where
  oneLine : '\n' ∉ t
  ends : Trimmed isspace t t

/-- The value can be written as that of the key in the section `s`. -/
structure Writable (s key value : Str) : Prop where
  bareName : Bare s
  bareKey : Bare key
  bareValue : Bare value
  nonempty : key ≠ []
  noEquals : '=' ∉ key
  noComment : key.head? ≠ some '#' ∧ key.head? ≠ some ';'
  noHeader : ¬ (key.head? = some '[' ∧ value.getLast? = some ']')

def header (s : Str) : Str := '[' :: ' ' :: s ++ [' ', ']']

def entryLine (key value : Str) : Str := key ++ [' ', '=', ' '] ++ value

theorem blank_space : ∀ c ∈ [' '], isspace c = true := by simp [isspace]

theorem isHeader_header {s : Str} (hs : Bare s) : IsHeader (header s) s := by
  refine ⟨' ' :: s ++ [' '], ⟨[], [], ?_, ?_, ?_, ?_, ?_⟩, List.cons_ne_nil _ _, ?_⟩
  · simp [header]
  · exact fun c hc => absurd hc List.not_mem_nil
  · exact fun c hc => absurd hc List.not_mem_nil
  · rintro c ⟨rfl⟩
    decide
  · intro c hc
    rw [Option.mem_def, List.getLast?_concat] at hc
    cases hc
    decide
  · exact (trimmed_surround blank_space blank_space).mpr hs.ends

theorem isEntry_entryLine {s key value : Str} (hw : Writable s key value) :
    IsEntry (entryLine key value) key value := by
  have hsplit : entryLine key value = (key ++ [' ']) ++ '=' :: ([' '] ++ value) := by
    simp [entryLine]
  have hkey : Trimmed isspace (key ++ [' ']) key :=
    (trimmed_append_right blank_space).mpr hw.bareKey.ends
  have hvalue : Trimmed isspace ([' '] ++ value) value :=
    (trimmed_append_left blank_space).mpr hw.bareValue.ends
  have hnotMem : '=' ∉ key ++ [' '] := by
    rw [List.mem_append]
    exact not_or.mpr ⟨hw.noEquals, by decide⟩
  rw [hsplit]
  refine ⟨?_, ⟨_, _, rfl, hnotMem, hkey, hvalue⟩, hw.nonempty, hw.noComment⟩
  intro name hheader
  exact hw.noHeader (ends_of_header hkey hvalue hheader)

theorem oneLine_header {s : Str} (hs : Bare s) : '\n' ∉ header s := by
  simp [header, hs.oneLine]

theorem oneLine_entryLine {s key value : Str} (hw : Writable s key value) :
    '\n' ∉ entryLine key value := by
  simp [entryLine, hw.bareKey.oneLine, hw.bareValue.oneLine]

/-! ## Settings -/

/-- An element of a list. -/
structure Token where
  text : Str
  nonempty : text ≠ []
  clear : ∀ c ∈ text, isspace c = false ∧ c ≠ ','

/-- What a program of this system reads from its file. -/
inductive Setting where
  | text (value : Str) (bare : Bare value)
  | number (n : BitVec 32)
  | flag (b : Bool)
  | list (first : Token) (rest : List Token)

def commaLine (first : Token) (rest : List Token) : Str :=
  first.text ++ rest.flatMap fun token => ',' :: ' ' :: token.text

def Setting.render : Setting → Str
  | .text value _ => value
  | .number n => Nat.toDigits 10 n.toNat
  | .flag true => ['t', 'r', 'u', 'e']
  | .flag false => ['f', 'a', 'l', 's', 'e']
  | .list first rest => commaLine first rest

structure ConfigEntry where
  key : Str
  setting : Setting
  bareKey : Bare key
  nonempty : key ≠ []
  noEquals : '=' ∉ key
  noComment : key.head? ≠ some '#' ∧ key.head? ≠ some ';'
  noHeader : ¬ (key.head? = some '[' ∧ setting.render.getLast? = some ']')

structure ConfigSection where
  name : Str
  bareName : Bare name
  entries : List ConfigEntry

def ConfigSection.lines (sec : ConfigSection) : List Str :=
  header sec.name :: sec.entries.map fun entry => entryLine entry.key entry.setting.render

def renderLines (ls : List Str) : Str := ls.flatMap (· ++ ['\n'])

/-- The text of a configuration. -/
def render (conf : List ConfigSection) : Str := renderLines (conf.flatMap ConfigSection.lines)

/-- The settings by section and key. -/
abbrev Settings := Str → Str → Option Setting

/-- An entry takes the place of one of its key. -/
def ConfigEntry.put (s : Str) (found : Settings) (entry : ConfigEntry) : Settings := fun s' key' =>
  if s' = s ∧ key' = entry.key then some entry.setting else found s' key'

def ConfigSection.put (found : Settings) (sec : ConfigSection) : Settings :=
  sec.entries.foldl (ConfigEntry.put sec.name) found

def settings (conf : List ConfigSection) : Settings := conf.foldl ConfigSection.put fun _ _ => none

/-! ### Their texts are bare -/

/-- A text without blanks and line ends. -/
theorem bare_of_clear {t : Str} (hclear : ∀ c ∈ t, isspace c = false) : Bare t where
  oneLine := by
    intro hmem
    exact absurd (hclear _ hmem) (by decide)
  ends := by
    refine ⟨[], [], by simp, ?_, ?_, ?_, ?_⟩
    · exact fun c hc => absurd hc List.not_mem_nil
    · exact fun c hc => absurd hc List.not_mem_nil
    · exact fun c hc => hclear c (List.mem_of_head? hc)
    · exact fun c hc => hclear c (List.mem_of_getLast? hc)

theorem Bare.append {t u : Str} (ht : Bare t) (hu : Bare u) (htne : t ≠ []) (hune : u ≠ [])
    {middle : Str} (hmiddle : '\n' ∉ middle) : Bare (t ++ middle ++ u) where
  oneLine := by
    simp [ht.oneLine, hu.oneLine, hmiddle]
  ends := by
    obtain ⟨-, -, -, -, -, hhead, -⟩ := ht.ends
    obtain ⟨-, -, -, -, -, -, hlast⟩ := hu.ends
    refine ⟨[], [], by simp, ?_, ?_, ?_, ?_⟩
    · exact fun c hc => absurd hc List.not_mem_nil
    · exact fun c hc => absurd hc List.not_mem_nil
    · rw [List.append_assoc, List.head?_append_of_ne_nil _ htne]
      exact hhead
    · rw [List.getLast?_append_of_ne_nil _ hune]
      exact hlast

theorem commaLine_cons (first next : Token) (rest : List Token) :
    commaLine first (next :: rest) = first.text ++ [',', ' '] ++ commaLine next rest := by
  simp [commaLine]

theorem commaLine_ne_nil (first : Token) (rest : List Token) : commaLine first rest ≠ [] := by
  intro hnil
  exact first.nonempty (List.append_eq_nil_iff.mp hnil).1

theorem bare_token (token : Token) : Bare token.text :=
  bare_of_clear fun c hc => (token.clear c hc).1

theorem bare_commaLine (first : Token) (rest : List Token) : Bare (commaLine first rest) := by
  induction rest generalizing first with
  | nil =>
    rw [commaLine, List.flatMap_nil, List.append_nil]
    exact bare_token first
  | cons next rest ih =>
    rw [commaLine_cons]
    exact (bare_token first).append (ih next) first.nonempty (commaLine_ne_nil next rest)
      (by decide)

theorem Setting.bare_render (setting : Setting) : Bare setting.render := by
  cases setting with
  | text value bare => exact bare
  | number n =>
    apply bare_of_clear
    intro c hc
    exact isspace_of_isDigit (Nat.isDigit_of_mem_toDigits (by decide) (Nat.le_refl 10) hc)
  | flag b => cases b <;> exact bare_of_clear (by simp [Setting.render, isspace])
  | list first rest => exact bare_commaLine first rest

theorem ConfigEntry.writable (entry : ConfigEntry) {s : Str} (hs : Bare s) :
    Writable s entry.key entry.setting.render :=
  ⟨hs, entry.bareKey, entry.setting.bare_render, entry.nonempty, entry.noEquals, entry.noComment,
    entry.noHeader⟩

/-! ## Lists -/

section Lists

variable {str : Str} {start : Nat}

theorem Token.isSep_clear (token : Token) : ∀ c ∈ token.text, isSep c = false := by
  intro c hc
  obtain ⟨hspace, hcomma⟩ := token.clear c hc
  have hblank : c ≠ ' ' := by
    rintro rfl
    exact absurd hspace (by decide)
  have htab : c ≠ '\t' := by
    rintro rfl
    exact absurd hspace (by decide)
  simp [isSep, hcomma, hblank, htab]

/-- A search that passes over `before` and stops at the character behind it. -/
theorem findFirst_behind {p : Char → Bool} {before after : Str} {c : Char}
    (hdrop : str.drop start = before ++ c :: after) (hbefore : ∀ d ∈ before, p d = false)
    (hc : p c = true) : findFirst p str start = some (start + before.length) := by
  have hnone : before.findIdx? p = none := List.findIdx?_eq_none_iff.mpr hbefore
  rw [findFirst, hdrop, List.findIdx?_append, hnone, List.findIdx?_cons, if_pos hc]
  simp

theorem splitLoop_commaLine (first : Token) (rest : List Token) (hstart : start ≤ str.length)
    (hdrop : str.drop start = commaLine first rest) (v : List Str) :
    splitLoop str start hstart v = v ++ (first :: rest).map Token.text := by
  induction rest generalizing first start v with
  | nil =>
    rw [commaLine, List.flatMap_nil, List.append_nil] at hdrop
    have hnone : findFirst isSep str start = none := by
      rw [findFirst, hdrop, List.findIdx?_eq_none_iff.mpr first.isSep_clear]
      rfl
    unfold splitLoop
    split
    · rw [substrToEnd, hdrop]
      rfl
    · next index hindex =>
      rw [hnone] at hindex
      cases hindex
  | cons next rest ih =>
    rw [commaLine_cons, List.append_assoc] at hdrop
    have hcomma : findFirst isSep str start = some (start + first.text.length) :=
      findFirst_behind hdrop first.isSep_clear (by decide)
    obtain ⟨c, tail, hnext⟩ := List.exists_cons_of_ne_nil next.nonempty
    have hdrop' : str.drop (start + first.text.length) = [',', ' '] ++ commaLine next rest := by
      rw [← List.drop_drop, hdrop, List.drop_left]
    have hchar : isSep c = false := next.isSep_clear c (by rw [hnext]; exact List.mem_cons_self)
    have hcut : str.drop (start + first.text.length) =
        [',', ' '] ++ c :: (tail ++ rest.flatMap fun token => ',' :: ' ' :: token.text) := by
      rw [hdrop', commaLine, hnext]
      rfl
    have hfound : findFirst (!isSep ·) str (start + first.text.length) =
        some (start + first.text.length + 2) :=
      findFirst_behind hcut (by simp [isSep]) (by rw [hchar]; rfl)
    have hdrop'' : str.drop (start + first.text.length + 2) = commaLine next rest := by
      rw [← List.drop_drop, hdrop']
      rfl
    have htoken : ∀ n, n = start + first.text.length →
        substr str start (n - start) hstart = first.text := by
      rintro n rfl
      rw [substr, hdrop, Nat.add_sub_cancel_left, List.take_left]
    unfold splitLoop
    split
    · next hindex =>
      rw [hcomma] at hindex
      cases hindex
    · next index hindex =>
      have hi : index = start + first.text.length := Option.some.inj (hindex.symm.trans hcomma)
      subst hi
      split
      · next hnone =>
        rw [hfound] at hnone
        cases hnone
      · next n hn =>
        have hlast : n = start + first.text.length + 2 := Option.some.inj (hn.symm.trans hfound)
        subst hlast
        rw [ih next _ hdrop'', htoken _ rfl]
        simp

end Lists

/-! ## The lines -/

theorem lines_renderLines {ls : List Str} (hls : ∀ l ∈ ls, '\n' ∉ l) :
    lines (renderLines ls) = ls ++ [[]] := by
  induction ls with
  | nil => rfl
  | cons l ls ih =>
    have hl := hls l List.mem_cons_self
    have hrest := ih fun l' hl' => hls l' (List.mem_cons_of_mem l hl')
    unfold lines at hrest ⊢
    rw [renderLines, List.flatMap_cons, List.append_assoc, List.singleton_append,
      List.splitOn_append_cons_self_of_not_mem hl]
    exact congrArg (l :: ·) hrest

theorem oneLine_lines (conf : List ConfigSection) :
    ∀ l ∈ conf.flatMap ConfigSection.lines, '\n' ∉ l := by
  intro l hl
  obtain ⟨sec, -, hsec⟩ := List.mem_flatMap.mp hl
  rcases List.mem_cons.mp hsec with rfl | hentry
  · exact oneLine_header sec.bareName
  · obtain ⟨entry, -, rfl⟩ := List.mem_map.mp hentry
    exact oneLine_entryLine (entry.writable sec.bareName)

/-- The maps hold the settings as they are written. -/
def Holds (st : Loading) (found : Settings) : Prop :=
  ∀ s key, st.file.lookup s key = (found s key).map Setting.render

section Holds

variable {st : Loading} {found : Settings}

theorem Holds.entry (holds : Holds st found) {s : Str} (hs : Bare s) (hin : st.In s)
    (entry : ConfigEntry) :
    ∃ st', loadLine st (entryLine entry.key entry.setting.render) = .ok st' ∧ st'.In s ∧
      Holds st' (entry.put s found) := by
  have hentry := isEntry_entryLine (entry.writable hs)
  obtain ⟨st', hstore, hin', hlookup⟩ := Loading.store_in hin entry.key entry.setting.render
  refine ⟨st', (loadLine_entry hentry st).trans hstore, hin', ?_⟩
  intro s' key'
  rw [hlookup]
  unfold ConfigEntry.put
  split
  · rfl
  · exact holds s' key'

theorem Holds.entries (holds : Holds st found) {s : Str} (hs : Bare s) (hin : st.In s)
    (entries : List ConfigEntry) :
    ∃ st', (entries.map fun entry => entryLine entry.key entry.setting.render).foldlM loadLine st =
        .ok st' ∧ Holds st' (entries.foldl (ConfigEntry.put s) found) := by
  induction entries generalizing st found with
  | nil => exact ⟨st, rfl, holds⟩
  | cons entry entries ih =>
    obtain ⟨st', hline, hin', holds'⟩ := holds.entry hs hin entry
    rw [List.map_cons, List.foldlM_cons, hline]
    exact ih holds' hin'

theorem Holds.section (holds : Holds st found) (sec : ConfigSection) :
    ∃ st', sec.lines.foldlM loadLine st = .ok st' ∧ Holds st' (ConfigSection.put found sec) := by
  have holds' : Holds (st.enter sec.name) found := by
    intro s key
    rw [Loading.lookup_enter]
    exact holds s key
  obtain ⟨st', hlines, hend⟩ := holds'.entries sec.bareName (st.in_enter sec.name) sec.entries
  refine ⟨st', ?_, hend⟩
  rw [ConfigSection.lines, List.foldlM_cons, loadLine_header (isHeader_header sec.bareName)]
  exact hlines

theorem Holds.sections (holds : Holds st found) (conf : List ConfigSection) :
    ∃ st', (conf.flatMap ConfigSection.lines).foldlM loadLine st = .ok st' ∧
      Holds st' (conf.foldl ConfigSection.put found) := by
  induction conf generalizing st found with
  | nil => exact ⟨st, rfl, holds⟩
  | cons sec conf ih =>
    obtain ⟨st', hlines, holds'⟩ := holds.section sec
    rw [List.flatMap_cons, List.foldlM_append, hlines]
    exact ih holds'

end Holds

/-- What is written is what is stored. -/
theorem load_stores (conf : List ConfigSection) :
    ∃ file, ConfigFile.new.load (some (render conf)) = .ok (true, file) ∧
      ∀ s key, file.lookup s key = (settings conf s key).map Setting.render := by
  have hnew : Holds ⟨ConfigFile.new, none, by intro p hp; cases hp⟩ fun _ _ => none :=
    fun _ _ => rfl
  obtain ⟨st, hlines, holds⟩ := hnew.sections conf
  refine ⟨st.file, ?_, holds⟩
  -- the empty line at the end
  rw [load_eq, render, lines_renderLines (oneLine_lines conf), List.foldlM_append, hlines]
  rfl

/-! ## The getters -/

/-- What a program gets for a setting, or where there is none. -/
def Gets (file : ConfigFile) (s key : Str) : Option Setting → Prop
  | none => (∀ default_value, file.getString s key default_value = default_value) ∧
      (∀ default_value, file.getNumber s key default_value = default_value) ∧
      ∀ default_value, file.getBool s key default_value = default_value
  | some (.text value _) => ∀ default_value, file.getString s key default_value = value
  | some (.number n) => ∀ default_value, file.getNumber s key default_value = n
  | some (.flag b) => ∀ default_value, file.getBool s key default_value = (b || default_value)
  | some (.list first rest) => file.getStringList s key = (first :: rest).map Token.text

theorem gets_of_lookup {file : ConfigFile} {s key : Str} {found : Option Setting}
    (hlookup : file.lookup s key = found.map Setting.render) : Gets file s key found := by
  cases found with
  | none =>
    rw [Option.map_none] at hlookup
    refine ⟨?_, ?_, ?_⟩ <;> intro default_value
    · rw [ConfigFile.getString_eq, hlookup, Option.getD_none]
    · rw [ConfigFile.getNumber, ConfigFile.getAs_eq, hlookup, Option.elim_none]
    · rw [ConfigFile.getBool, ConfigFile.getAs_eq, hlookup, Option.elim_none]
  | some setting =>
    rw [Option.map_some] at hlookup
    cases setting with
    | text value bare =>
      intro default_value
      rw [ConfigFile.getString_eq, hlookup, Option.getD_some]
      rfl
    | number n =>
      intro default_value
      rw [ConfigFile.getNumber, ConfigFile.getAs_eq, hlookup, Option.elim_some]
      exact parseNumber_toDigits n
    | flag b =>
      intro default_value
      rw [ConfigFile.getBool, ConfigFile.getAs_eq, hlookup, Option.elim_some]
      cases b <;> rfl
    | list first rest =>
      have hstring : file.getString s key [] = commaLine first rest := by
        rw [ConfigFile.getString_eq, hlookup, Option.getD_some]
        rfl
      unfold Gets ConfigFile.getStringList
      simp only [hstring]
      exact splitLoop_commaLine first rest (Nat.zero_le _) rfl []

/-- **A configuration that is written is read back**: texts, numbers and lists as they are, a flag
    that is set, and the defaults where nothing is. -/
theorem load_render (conf : List ConfigSection) :
    ∃ file, ConfigFile.new.load (some (render conf)) = .ok (true, file) ∧
      ∀ s key, Gets file s key (settings conf s key) := by
  obtain ⟨file, hload, hstored⟩ := load_stores conf
  exact ⟨file, hload, fun s key => gets_of_lookup (hstored s key)⟩

/-! ## What can be stored -/

section Stored

variable {text line s t key value : Str}

theorem oneLine_of_mem_lines (hline : line ∈ lines text) : '\n' ∉ line := by
  induction hlen : text.length using Nat.strong_induction_on generalizing text with
  | _ len ih =>
    by_cases hmem : '\n' ∈ text
    · obtain ⟨before, after, rfl, hbefore⟩ := List.eq_append_cons_of_mem hmem
      rw [lines, List.splitOn_append_cons_self_of_not_mem hbefore] at hline
      rcases List.mem_cons.mp hline with rfl | hrest
      · exact hbefore
      · refine ih after.length ?_ hrest rfl
        rw [← hlen, List.length_append, List.length_cons]
        omega
    · rw [lines, List.splitOn_eq_singleton hmem] at hline
      rw [List.mem_singleton.mp hline]
      exact hmem

/-- What is trimmed from a part of a line is bare. -/
theorem bare_of_trimmed (htrimmed : Trimmed isspace s t) (hs : '\n' ∉ s) : Bare t := by
  obtain ⟨left, right, rfl, -, -, hhead, hlast⟩ := htrimmed
  refine ⟨?_, [], [], by simp, ?_, ?_, hhead, hlast⟩
  · intro hmem
    exact hs (List.mem_append_left _ (List.mem_append_right _ hmem))
  · exact fun c hc => absurd hc List.not_mem_nil
  · exact fun c hc => absurd hc List.not_mem_nil

theorem bare_of_isHeader (hheader : IsHeader line s) (hline : '\n' ∉ line) : Bare s := by
  obtain ⟨inner, ⟨left, right, rfl, -⟩, -, hname⟩ := hheader
  refine bare_of_trimmed hname ?_
  intro hmem
  exact hline (by simp [hmem])

theorem writable_of_isEntry (hs : Bare s) (hentry : IsEntry line key value)
    (hline : '\n' ∉ line) : Writable s key value := by
  obtain ⟨before, after, rfl, hbefore, hkey, hvalue⟩ := hentry.split
  have hparts : '\n' ∉ before ∧ '\n' ∉ after := by
    constructor
    · exact fun hmem => hline (List.mem_append_left _ hmem)
    · exact fun hmem => hline (List.mem_append_right _ (List.mem_cons_of_mem _ hmem))
  refine ⟨hs, bare_of_trimmed hkey hparts.1, bare_of_trimmed hvalue hparts.2, hentry.nonempty, ?_,
    hentry.noComment, ?_⟩
  · obtain ⟨left, right, rfl, -⟩ := hkey
    intro hmem
    exact hbefore (List.mem_append_left _ (List.mem_append_right _ hmem))
  · rintro ⟨hopen, hclose⟩
    obtain ⟨name, hname⟩ := header_of_ends hkey hvalue hopen hclose
    exact hentry.noHeader name hname

/-- Every stored entry stands in the file, under a header of its section. -/
theorem writable_of_load {file : ConfigFile}
    (hload : ConfigFile.new.load (some text) = .ok (true, file))
    (hlookup : file.lookup s key = some value) : Writable s key value := by
  rw [load_eq] at hload
  rcases reads_new.run (lines text) with ⟨st, hfold, hreads⟩ | ⟨hfold, -⟩
  · rw [hfold] at hload
    cases hload
    have hlast := hreads.last s key
    rw [hlookup, List.nil_append] at hlast
    obtain ⟨i, ⟨⟨earlier, heading, later, hcut, hheader, -⟩, line, hget, hentry⟩, -⟩ := hlast
    have hheading : heading ∈ lines text := by
      apply List.mem_of_mem_take (i := i)
      rw [hcut]
      exact List.mem_append_right _ List.mem_cons_self
    exact writable_of_isEntry (bare_of_isHeader hheader (oneLine_of_mem_lines hheading)) hentry
      (oneLine_of_mem_lines (List.mem_of_getElem? hget))
  · rw [hfold] at hload
    cases hload

/-- **What can be stored is what can be written**: some file has the value under the key in the
    section, if and only if the three can be written as a line under a header. -/
theorem stored_iff (s key value : Str) :
    (∃ text file, ConfigFile.new.load (some text) = .ok (true, file) ∧
      file.lookup s key = some value) ↔ Writable s key value := by
  constructor
  · rintro ⟨text, file, hload, hlookup⟩
    exact writable_of_load hload hlookup
  · intro hw
    let entry : ConfigEntry :=
      ⟨key, .text value hw.bareValue, hw.bareKey, hw.nonempty, hw.noEquals, hw.noComment,
        hw.noHeader⟩
    obtain ⟨file, hload, hstored⟩ := load_stores [⟨s, hw.bareName, [entry]⟩]
    refine ⟨_, file, hload, ?_⟩
    rw [hstored]
    have hput : settings [⟨s, hw.bareName, [entry]⟩] s key = some (.text value hw.bareValue) :=
      if_pos ⟨rfl, rfl⟩
    rw [hput]
    rfl

end Stored

end LarsSystem.Reactor
