import LarsSystem.ConfigFile

/-!
# `GetStringList`

The value is cut at commas, spaces and tabs by two searches in turn: for the next
separator, and from there for the next character that is none. The first search
starts where a token starts, except at the very beginning: nothing has passed over
a separator that the value starts with, and nothing has looked whether there is a
character at all.
-/

namespace LarsSystem.Reactor

/-- A character of `sep`. -/
def isSep (c : Char) : Bool := [',', ' ', '\t'].contains c

/-- `find_first_not_of`: separators up to a character that is none. -/
theorem findFirstNotOf_some {str : Str} {index next : Nat}
    (hnext : findFirst (!isSep ·) str index = some next) :
    index ≤ next ∧ (∃ c, str[next]? = some c ∧ isSep c = false) ∧
      ∀ n c, index ≤ n → n < next → str[n]? = some c → isSep c = true := by
  obtain ⟨hle, ⟨c, hc, hnot⟩, hpassed⟩ := findFirst_some hnext
  refine ⟨hle, ⟨c, hc, by simpa using hnot⟩, ?_⟩
  intro n c hn hn' hget
  simpa using hpassed n c hn hn' hget

theorem findFirstNotOf_gt {str : Str} {start index next : Nat}
    (hindex : findFirst isSep str start = some index)
    (hnext : findFirst (!isSep ·) str index = some next) : index < next ∧ start < next := by
  obtain ⟨hle, ⟨c, hc, hsep⟩, -⟩ := findFirst_some hindex
  obtain ⟨hle', ⟨d, hd, hnot⟩, -⟩ := findFirstNotOf_some hnext
  have hne : index ≠ next := by
    rintro rfl
    rw [Option.some.inj (hd.symm.trans hc), hsep] at hnot
    cases hnot
  have hlt : index < next := Nat.lt_of_le_of_ne hle' hne
  exact ⟨hlt, Nat.lt_of_le_of_lt hle hlt⟩

/-- The loop of `GetStringList`, with what stands behind it. -/
def splitLoop (str : Str) (start : Nat) (hstart : start ≤ str.length) (v : List Str) : List Str :=
  match _hindex : findFirst isSep str start with
  | none => v ++ [substrToEnd str start hstart]
  | some index =>
    let v := v ++ [substr str start (index - start) hstart]
    match hnext : findFirst (!isSep ·) str index with
    | none => v
    | some next => splitLoop str next (Nat.le_of_lt (findFirst_lt hnext)) v
termination_by str.length - start
decreasing_by
  have hgt := (findFirstNotOf_gt _hindex hnext).2
  have hlt := findFirst_lt hnext
  omega

def ConfigFile.getStringList (file : ConfigFile) (s key : Str) : List Str :=
  splitLoop (file.getString s key []) 0 (Nat.zero_le _) []

variable {str : Str} {start index : Nat}

/-! ## Where a search starts on a character -/

/-- No separator is found: the last token reaches to the end. -/
theorem isRun_end (hlt : start < str.length)
    (hleft : ∀ n c, start = n + 1 → str[n]? = some c → isSep c = true)
    (hindex : findFirst isSep str start = none) : IsRun isSep str start str.length := by
  refine ⟨hlt, Nat.le_refl _, fun n c hn _ hget => findFirst_none hindex hn hget, hleft, ?_⟩
  intro c hget
  rw [List.getElem?_eq_none (Nat.le_refl _)] at hget
  cases hget

theorem isRun_index (hchar : ∃ c, str[start]? = some c ∧ isSep c = false)
    (hleft : ∀ n c, start = n + 1 → str[n]? = some c → isSep c = true)
    (hindex : findFirst isSep str start = some index) : IsRun isSep str start index := by
  obtain ⟨c, hc, hnot⟩ := hchar
  obtain ⟨hle, ⟨d, hd, hsep⟩, hbefore⟩ := findFirst_some hindex
  have hne : start ≠ index := by
    rintro rfl
    rw [Option.some.inj (hd.symm.trans hc), hnot] at hsep
    cases hsep
  refine ⟨Nat.lt_of_le_of_ne hle hne, Nat.le_of_lt (findFirst_lt hindex), hbefore, hleft, ?_⟩
  intro a hget
  rw [Option.some.inj (hget.symm.trans hd)]
  exact hsep

/-- Only separators are left. -/
theorem runsFrom_separators (hlt : index < str.length)
    (hnext : findFirst (!isSep ·) str index = none) : RunsFrom isSep str index [] := by
  refine (runsFrom_end isSep str).skip (Nat.le_of_lt hlt) ?_
  intro n c hn _ hget
  simpa using findFirst_none hnext hn hget

/-- The loop adds the tokens from there on: a search from a character on finds where its
    token ends, and the other one where the next token begins. -/
theorem splitLoop_tokens (hstart : start ≤ str.length) (v : List Str)
    (hchar : ∃ c, str[start]? = some c ∧ isSep c = false)
    (hleft : ∀ n c, start = n + 1 → str[n]? = some c → isSep c = true) :
    ∃ spans, RunsFrom isSep str start spans ∧
      splitLoop str start hstart v = v ++ spans.map fun p => slice str p.1 p.2 := by
  induction hmeasure : str.length - start using Nat.strong_induction_on generalizing start v with
  | _ len ih =>
    unfold splitLoop
    split
    · next hindex =>
      obtain ⟨c, hc, -⟩ := hchar
      have hrun := isRun_end (List.getElem?_eq_some_iff.mp hc).1 hleft hindex
      refine ⟨[(start, str.length)], (runsFrom_end isSep str).cons hrun, ?_⟩
      rw [List.map_singleton, slice, ← List.length_drop, List.take_length]
      rfl
    · next index hindex =>
      have hrun := isRun_index hchar hleft hindex
      split
      · next hnext =>
        have hruns := runsFrom_separators (findFirst_lt hindex) hnext
        exact ⟨[(start, index)], hruns.cons hrun, rfl⟩
      · next next hnext =>
        obtain ⟨hle, hchar', hseps⟩ := findFirstNotOf_some hnext
        obtain ⟨hpast, hgt⟩ := findFirstNotOf_gt hindex hnext
        have hleft' : ∀ n c, next = n + 1 → str[n]? = some c → isSep c = true := by
          intro n c hn hget
          exact hseps n c (by omega) (by omega) hget
        have hlt := findFirst_lt hnext
        have hshort : str.length - next < len := by omega
        obtain ⟨spans, hruns, hloop⟩ :=
          ih _ hshort (Nat.le_of_lt hlt) (v ++ [substr str start (index - start) hstart])
            hchar' hleft' rfl
        refine ⟨(start, index) :: spans, (hruns.skip hle hseps).cons hrun, ?_⟩
        rw [hloop, List.append_assoc]
        rfl

/-! ## The first search -/

/-- A value without a character, and one that begins with a separator, is split into an
    empty text and its tokens. -/
theorem splitLoop_empty_text (hnot : ¬ ∃ c, str[0]? = some c ∧ isSep c = false) :
    ∃ tokens, IsTokenList isSep str tokens ∧
      splitLoop str 0 (Nat.zero_le _) [] = [] :: tokens := by
  unfold splitLoop
  split
  · next hindex =>
    cases str with
    | nil => exact ⟨[], ⟨[], runsFrom_end isSep [], rfl⟩, rfl⟩
    | cons c rest => exact absurd ⟨c, rfl, findFirst_none hindex (Nat.le_refl 0) rfl⟩ hnot
  · next index hindex =>
    have hzero : index = 0 := by
      obtain ⟨-, -, hbefore⟩ := findFirst_some hindex
      by_contra hne
      have hpos : 0 < index := Nat.pos_of_ne_zero hne
      have hget := List.getElem?_eq_getElem (hpos.trans (findFirst_lt hindex))
      exact hnot ⟨_, hget, hbefore 0 _ (Nat.le_refl 0) hpos hget⟩
    subst hzero
    split
    · next hnext =>
      have hruns := runsFrom_separators (findFirst_lt hindex) hnext
      exact ⟨[], ⟨[], hruns, rfl⟩, rfl⟩
    · next next hnext =>
      obtain ⟨hle, hchar, hseps⟩ := findFirstNotOf_some hnext
      obtain ⟨spans, hruns, hloop⟩ :=
        splitLoop_tokens (Nat.le_of_lt (findFirst_lt hnext)) [[]] hchar
          (fun n c hn hget => hseps n c (Nat.zero_le n) (by omega) hget)
      exact ⟨_, ⟨spans, hruns.skip hle hseps, rfl⟩, hloop⟩

/-- The value is split into its tokens when its first character belongs to one. -/
theorem getStringList_tokens_iff (file : ConfigFile) (s key : Str) :
    IsTokenList isSep (file.getString s key []) (file.getStringList s key) ↔
      ∃ c, (file.getString s key [])[0]? = some c ∧ isSep c = false := by
  constructor
  · intro htokens
    by_contra hnot
    obtain ⟨tokens, -, hloop⟩ := splitLoop_empty_text hnot
    rw [ConfigFile.getStringList, hloop] at htokens
    exact htokens.ne_nil List.mem_cons_self rfl
  · intro hchar
    obtain ⟨spans, hruns, hloop⟩ :=
      splitLoop_tokens (Nat.zero_le _) [] hchar (fun n c hn => absurd hn (Nat.succ_ne_zero n).symm)
    exact ⟨spans, hruns, by rw [ConfigFile.getStringList, hloop, List.nil_append]⟩

/-- `k=,a` under a header: the list begins with an empty text. -/
theorem getStringList_leading_separator :
    ∃ file, ConfigFile.new.load (some "[s]\nk=,a".toList) = .ok (true, file) ∧
      file.getString ['s'] ['k'] [] = [',', 'a'] ∧
      file.getStringList ['s'] ['k'] = [[], ['a']] ∧
      ¬ IsTokenList isSep (file.getString ['s'] ['k'] []) (file.getStringList ['s'] ['k']) := by
  have hload : ∃ file, ConfigFile.new.load (some "[s]\nk=,a".toList) = .ok (true, file) ∧
      file.getString ['s'] ['k'] [] = [',', 'a'] := by
    rw [ConfigFile.load, loadLoop_opened]
    exact ⟨_, rfl, rfl⟩
  obtain ⟨file, hload, hvalue⟩ := hload
  have hsplit : splitLoop [',', 'a'] 0 (Nat.zero_le _) [] = [[], ['a']] := by decide +kernel
  have hlist : file.getStringList ['s'] ['k'] = [[], ['a']] := by
    simp only [ConfigFile.getStringList, hvalue]
    exact hsplit
  refine ⟨file, hload, hvalue, hlist, ?_⟩
  intro htokens
  exact htokens.ne_nil (hlist ▸ List.mem_cons_self) rfl

end LarsSystem.Reactor
