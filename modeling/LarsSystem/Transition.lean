import Mathlib.Data.List.Basic

/-!
# Runs of labelled step relations and of fallible step functions

Two ways of speaking about "every run". A step relation `σ → α → σ → Prop`
carries systems whose labels may be disabled; a step function
`σ → α → Except ε σ` carries programs whose operations may abort. For both the
induction over a run is packaged once: a property preserved by one step is
preserved by a run, and a run may be restricted to steps that meet a condition
on the state before the step.
-/

namespace LarsSystem.Transition

universe u v w

variable {σ : Type u} {α : Type v} {ε : Type w}

/-! ## Step relations

`Run step s labels t` says that the labels lead from `s` to `t`, one step each;
`Guarded` keeps the steps whose label meets a condition on the state it is taken
in, and `ofOption` reads a function that returns `none` where a label is
disabled as a relation. -/

inductive Run (step : σ → α → σ → Prop) : σ → List α → σ → Prop
  | nil (s : σ) : Run step s [] s
  | cons {s t u : σ} {label : α} {labels : List α} :
      step s label t → Run step t labels u → Run step s (label :: labels) u

def Guarded (guard : σ → α → Prop) (step : σ → α → σ → Prop) : σ → α → σ → Prop :=
  fun s label t => guard s label ∧ step s label t

theorem Run.append {step : σ → α → σ → Prop} {s t u : σ} {labels more : List α}
    (first : Run step s labels t) (second : Run step t more u) :
    Run step s (labels ++ more) u := by
  induction first with
  | nil s => exact second
  | cons hstep _ ih => exact Run.cons hstep (ih second)

theorem Run.snoc {step : σ → α → σ → Prop} {s t u : σ} {labels : List α} {label : α}
    (run : Run step s labels t) (hstep : step t label u) :
    Run step s (labels ++ [label]) u :=
  run.append (Run.cons hstep (Run.nil u))

theorem Run.invariant {step : σ → α → σ → Prop} {inv : σ → Prop}
    (preserved : ∀ s label t, inv s → step s label t → inv t)
    {s t : σ} {labels : List α} (run : Run step s labels t) (start : inv s) : inv t := by
  induction run with
  | nil s => exact start
  | cons hstep _ ih => exact ih (preserved _ _ _ start hstep)

theorem Run.mono {step step' : σ → α → σ → Prop}
    (sub : ∀ s label t, step s label t → step' s label t)
    {s t : σ} {labels : List α} (run : Run step s labels t) : Run step' s labels t := by
  induction run with
  | nil s => exact Run.nil s
  | cons hstep _ ih => exact Run.cons (sub _ _ _ hstep) ih

/-- A guard that an invariant implies is no restriction. -/
theorem Run.strengthen {step : σ → α → σ → Prop} {inv : σ → Prop} {guard : σ → α → Prop}
    (preserved : ∀ s label t, inv s → step s label t → inv t)
    (meets : ∀ s label, inv s → guard s label)
    {s t : σ} {labels : List α} (run : Run step s labels t) (start : inv s) :
    Run (Guarded guard step) s labels t := by
  induction run with
  | nil s => exact Run.nil s
  | cons hstep _ ih =>
    exact Run.cons ⟨meets _ _ start, hstep⟩ (ih (preserved _ _ _ start hstep))

/-- The steps that end in a good state. -/
def Into (good : σ → Prop) (step : σ → α → σ → Prop) : σ → α → σ → Prop :=
  fun s label t => step s label t ∧ good t

/-- **A guard that is exact on steps is exact on runs**: where a step meets the guard exactly if
    it ends well, a run keeps to the guard exactly if it visits good states only. -/
theorem run_into_iff_guarded {step : σ → α → σ → Prop} {inv good : σ → Prop}
    {guard : σ → α → Prop}
    (preserved : ∀ s label t, inv s → guard s label → step s label t → inv t)
    (exact : ∀ s label t, inv s → step s label t → (good t ↔ guard s label))
    {s t : σ} {labels : List α} (start : inv s) :
    Run (Into good step) s labels t ↔ Run (Guarded guard step) s labels t := by
  constructor
  · intro run
    induction run with
    | nil s => exact Run.nil s
    | cons hstep _ ih =>
      have hguard := (exact _ _ _ start hstep.1).mp hstep.2
      exact Run.cons ⟨hguard, hstep.1⟩ (ih (preserved _ _ _ start hguard hstep.1))
  · intro run
    induction run with
    | nil s => exact Run.nil s
    | cons hstep _ ih =>
      have hgood := (exact _ _ _ start hstep.2).mpr hstep.1
      exact Run.cons ⟨hstep.2, hgood⟩ (ih (preserved _ _ _ start hstep.1 hstep.2))

def ofOption (next : σ → α → Option σ) : σ → α → σ → Prop :=
  fun s label t => next s label = some t

theorem run_of_foldlM {next : σ → α → Option σ} {s t : σ} {labels : List α}
    (computed : labels.foldlM next s = some t) : Run (ofOption next) s labels t := by
  induction labels generalizing s with
  | nil =>
    have hst : s = t := by simpa using computed
    exact hst ▸ Run.nil s
  | cons label labels ih =>
    simp only [List.foldlM_cons, Option.bind_eq_bind, Option.bind_eq_some_iff] at computed
    obtain ⟨u, hstep, hrest⟩ := computed
    exact Run.cons hstep (ih hrest)

/-! ## Fallible step functions

`Safe` is the conclusion of a statement about every run of a program: `good`
holds in every state on the way, the first included, and an operation that
aborts the run does so only with an error that is `fine`. `Meets` is its
hypothesis: every operation meets a condition on the state it starts in. -/

theorem map_eq_ok {β : Type v} {f : σ → β} {outcome : Except ε σ} {b : β} :
    outcome.map f = Except.ok b ↔ ∃ s, outcome = Except.ok s ∧ f s = b := by
  cases outcome with
  | error e => exact iff_of_false (fun heq => nomatch heq) fun ⟨_, heq, _⟩ => nomatch heq
  | ok s => simp [Except.map]

def Lands (good : σ → Prop) (fine : ε → Prop) : Except ε σ → Prop
  | Except.ok t => good t
  | Except.error e => fine e

theorem Lands.map {β : Type v} {good : σ → Prop} {good' : β → Prop} {fine fine' : ε → Prop}
    {f : σ → β} {outcome : Except ε σ} (lands : Lands good fine outcome)
    (hgood : ∀ s, good s → good' (f s)) (hfine : ∀ e, fine e → fine' e) :
    Lands good' fine' (outcome.map f) := by
  cases outcome with
  | error e => exact hfine e lands
  | ok s => exact hgood s lands

theorem Lands.mapError {ε' : Type w} {good : σ → Prop} {fine : ε → Prop} {fine' : ε' → Prop}
    {f : ε → ε'} {outcome : Except ε σ} (lands : Lands good fine outcome)
    (hfine : ∀ e, fine e → fine' (f e)) : Lands good fine' (outcome.mapError f) := by
  cases outcome with
  | error e => exact hfine e lands
  | ok s => exact lands

theorem Lands.imp {good good' : σ → Prop} {fine fine' : ε → Prop} {outcome : Except ε σ}
    (lands : Lands good fine outcome) (hgood : ∀ s, good s → good' s)
    (hfine : ∀ e, fine e → fine' e) : Lands good' fine' outcome := by
  cases outcome with
  | error e => exact hfine e lands
  | ok s => exact hgood s lands

def Safe (op : σ → α → Except ε σ) (good : σ → Prop) (fine : ε → Prop) : σ → List α → Prop
  | s, [] => good s
  | s, label :: labels =>
      good s ∧ Lands (fun t => Safe op good fine t labels) fine (op s label)

def Meets (op : σ → α → Except ε σ) (guard : σ → α → Prop) : σ → List α → Prop
  | _, [] => True
  | s, label :: labels =>
      guard s label ∧ ∀ t, op s label = Except.ok t → Meets op guard t labels

variable {op : σ → α → Except ε σ} {good : σ → Prop} {fine : ε → Prop}
  {guard : σ → α → Prop}

theorem Safe.start {s : σ} {labels : List α} (safe : Safe op good fine s labels) :
    good s := by
  cases labels with
  | nil => exact safe
  | cons label labels => exact safe.1

/-- What is said of a run is said of what is left of it. -/
theorem Safe.rest {s t : σ} {first rest : List α} (safe : Safe op good fine s (first ++ rest))
    (ends : first.foldlM op s = Except.ok t) : Safe op good fine t rest := by
  induction first generalizing s with
  | nil =>
    cases ends
    exact safe
  | cons label first ih =>
    rw [List.foldlM_cons] at ends
    obtain ⟨-, hlands⟩ := safe
    cases hop : op s label with
    | error e =>
      rw [hop] at ends
      cases ends
    | ok u =>
      rw [hop] at ends hlands
      exact ih hlands ends

/-- A run that admits no error ends, and ends well. -/
theorem Safe.ends {s : σ} {labels : List α} (safe : Safe op good (fun _ => False) s labels) :
    ∃ t, labels.foldlM op s = Except.ok t ∧ good t := by
  induction labels generalizing s with
  | nil => exact ⟨s, rfl, safe⟩
  | cons label labels ih =>
    obtain ⟨-, hlands⟩ := safe
    rw [List.foldlM_cons]
    cases hop : op s label with
    | error e =>
      rw [hop] at hlands
      exact hlands.elim
    | ok t =>
      rw [hop] at hlands
      exact ih hlands

/-- **Operations that keep an invariant make safe runs.** -/
theorem safe_of_meets (inv : σ → Prop) (inv_good : ∀ s, inv s → good s)
    (lands : ∀ s label, inv s → guard s label → Lands inv fine (op s label))
    {s : σ} {labels : List α} (start : inv s) (meets : Meets op guard s labels) :
    Safe op good fine s labels := by
  induction labels generalizing s with
  | nil => exact inv_good s start
  | cons label labels ih =>
    obtain ⟨hguard, hmeets⟩ := meets
    have hlands := lands s label start hguard
    refine ⟨inv_good s start, ?_⟩
    cases hop : op s label with
    | error e =>
      rw [hop] at hlands
      exact hlands
    | ok t =>
      rw [hop] at hlands
      exact ih hlands (hmeets t hop)

theorem meets_true (op : σ → α → Except ε σ) (s : σ) (labels : List α) :
    Meets op (fun _ _ => True) s labels := by
  induction labels generalizing s with
  | nil => trivial
  | cons label labels ih => exact ⟨trivial, fun t _ => ih t⟩

/-- A run that is continued. -/
theorem Meets.append {s t : σ} {first rest : List α} (meets : Meets op guard s first)
    (ends : first.foldlM op s = Except.ok t) (more : Meets op guard t rest) :
    Meets op guard s (first ++ rest) := by
  induction first generalizing s with
  | nil =>
    cases ends
    exact more
  | cons label first ih =>
    obtain ⟨hguard, hmeets⟩ := meets
    refine ⟨hguard, fun u hop => ?_⟩
    rw [List.foldlM_cons, hop] at ends
    exact ih (hmeets u hop) ends

/-- One operation again and again, with what is true after each time. -/
theorem meets_replicate {n : Nat} {label : α} (after : Nat → σ → Prop)
    (step : ∀ i s, i < n → after i s →
      guard s label ∧ ∃ t, op s label = Except.ok t ∧ after (i + 1) t)
    {s : σ} (start : after 0 s) :
    ∃ t, (List.replicate n label).foldlM op s = Except.ok t ∧ after n t ∧
      Meets op guard s (List.replicate n label) := by
  induction n generalizing after s with
  | zero => exact ⟨s, rfl, start, trivial⟩
  | succ n ih =>
    obtain ⟨hguard, t, hop, hafter⟩ := step 0 s (Nat.succ_pos n) start
    obtain ⟨u, hrun, hend, hmeets⟩ := ih (fun i => after (i + 1))
      (fun i s hi => step (i + 1) s (Nat.succ_lt_succ hi)) hafter
    refine ⟨u, ?_, hend, hguard, fun t' hop' => ?_⟩
    · rw [List.replicate_succ, List.foldlM_cons, hop]
      exact hrun
    · cases hop.symm.trans hop'
      exact hmeets

/-- What every operation that succeeds preserves, a run that ends preserves. -/
theorem foldlM_invariant (inv : σ → Prop)
    (preserved : ∀ s label t, op s label = Except.ok t → inv s → inv t) {s t : σ}
    {labels : List α} (ends : labels.foldlM op s = Except.ok t) (start : inv s) : inv t := by
  induction labels generalizing s with
  | nil =>
    cases ends
    exact start
  | cons label labels ih =>
    rw [List.foldlM_cons] at ends
    cases hop : op s label with
    | error e =>
      rw [hop] at ends
      cases ends
    | ok u =>
      rw [hop] at ends
      exact ih ends (preserved s label u hop start)

/-- **An exact condition on single operations is exact on runs.** If, under an
    invariant, an operation keeps the invariant where it meets the condition, and
    lands badly where it does not, a run is safe precisely when each of its
    operations meets the condition. -/
theorem safe_iff_meets (inv : σ → Prop) (inv_good : ∀ s, inv s → good s)
    (lands : ∀ s label, inv s → guard s label → Lands inv fine (op s label))
    (exact : ∀ s label, inv s → Lands good fine (op s label) → guard s label)
    {s : σ} {labels : List α} (start : inv s) :
    Safe op good fine s labels ↔ Meets op guard s labels := by
  refine ⟨fun safe => ?_, safe_of_meets inv inv_good lands start⟩
  induction labels generalizing s with
  | nil => trivial
  | cons label labels ih =>
    obtain ⟨-, hlands⟩ := safe
    cases hop : op s label with
    | error e =>
      rw [hop] at hlands
      refine ⟨exact s label start (by rw [hop]; exact hlands), ?_⟩
      intro t hok
      rw [hop] at hok
      cases hok
    | ok t =>
      rw [hop] at hlands
      have hsafe : Safe op good fine t labels := hlands
      have hguard : guard s label := exact s label start (by rw [hop]; exact hsafe.start)
      have hkept := lands s label start hguard
      rw [hop] at hkept
      refine ⟨hguard, ?_⟩
      intro u hok
      rw [hop] at hok
      cases hok
      exact ih hkept hsafe

/-- The same where every operation of the run also meets a condition that is not in question. -/
theorem safe_iff_meets_within (inv : σ → Prop) (inv_good : ∀ s, inv s → good s)
    {within : σ → α → Prop}
    (lands : ∀ s label, inv s → within s label → guard s label → Lands inv fine (op s label))
    (exact : ∀ s label, inv s → within s label → Lands good fine (op s label) → guard s label)
    {s : σ} {labels : List α} (start : inv s) (hwithin : Meets op within s labels) :
    Safe op good fine s labels ↔ Meets op guard s labels := by
  induction labels generalizing s with
  | nil => exact ⟨fun _ => trivial, fun _ => inv_good s start⟩
  | cons label labels ih =>
    obtain ⟨hhere, hrest⟩ := hwithin
    constructor
    · rintro ⟨-, hsafe⟩
      have hguard : guard s label :=
        exact s label start hhere (hsafe.imp (fun _ safe => safe.start) fun _ hfine => hfine)
      have hkept := lands s label start hhere hguard
      refine ⟨hguard, ?_⟩
      intro t hok
      rw [hok] at hsafe hkept
      exact (ih hkept (hrest t hok)).mp hsafe
    · rintro ⟨hguard, hmeets⟩
      have hkept := lands s label start hhere hguard
      refine ⟨inv_good s start, ?_⟩
      cases hop : op s label with
      | error e =>
        rw [hop] at hkept
        exact hkept
      | ok t =>
        rw [hop] at hkept
        exact (ih hkept (hrest t hop)).mpr (hmeets t hop)

/-! ## A run and its specification

An operation answers, and a specification says on what it sees of the state what the
answer is to be and what is to be seen after it. -/

section Follows

universe x y

variable {τ : Type x} {ω : Type y}

/-- Every operation of the run ends, and does and answers as specified. -/
def Follows (op : σ → α → Except ε (σ × ω)) (spec : τ → α → τ × ω) (view : σ → τ) :
    σ → List α → Prop
  | _, [] => True
  | s, label :: labels => ∃ t answer, op s label = Except.ok (t, answer) ∧
      spec (view s) label = (view t, answer) ∧ Follows op spec view t labels

/-- **A condition that is exact on operations is exact on runs**, for doing as specified. -/
theorem follows_iff_meets {op : σ → α → Except ε (σ × ω)} {spec : τ → α → τ × ω} {view : σ → τ}
    (inv : σ → Prop)
    (lands : ∀ s label, inv s → guard s label → ∃ t answer, op s label = Except.ok (t, answer) ∧
      spec (view s) label = (view t, answer) ∧ inv t)
    (exact : ∀ s label t answer, inv s → op s label = Except.ok (t, answer) →
      spec (view s) label = (view t, answer) → guard s label)
    {s : σ} {labels : List α} (start : inv s) :
    Follows op spec view s labels ↔
      Meets (fun s label => (op s label).map Prod.fst) guard s labels := by
  induction labels generalizing s with
  | nil => exact iff_of_true trivial trivial
  | cons label labels ih =>
    constructor
    · rintro ⟨t, answer, hop, hspec, hrest⟩
      have hguard := exact s label t answer start hop hspec
      obtain ⟨t', answer', hop', -, hinv⟩ := lands s label start hguard
      cases hop.symm.trans hop'
      have hmap : (op s label).map Prod.fst = Except.ok t := by rw [hop]; rfl
      refine ⟨hguard, fun u hu => ?_⟩
      cases hmap.symm.trans hu
      exact (ih hinv).mp hrest
    · rintro ⟨hguard, hmeets⟩
      obtain ⟨t, answer, hop, hspec, hinv⟩ := lands s label start hguard
      have hmap : (op s label).map Prod.fst = Except.ok t := by rw [hop]; rfl
      exact ⟨t, answer, hop, hspec, (ih hinv).mpr (hmeets t hmap)⟩

end Follows

/-! ## Two runs side by side -/

/-- Two outcomes agree: both fail alike, or both succeed with related values. -/
def Agree {β γ : Type*} (rel : β → γ → Prop) : Except ε β → Except ε γ → Prop
  | Except.ok b, Except.ok c => rel b c
  | Except.error e, Except.error f => e = f
  | _, _ => False

theorem Agree.cases {β γ : Type*} {rel : β → γ → Prop} {first : Except ε β}
    {second : Except ε γ} (agree : Agree rel first second) :
    (∃ e, first = Except.error e ∧ second = Except.error e) ∨
      ∃ b c, first = Except.ok b ∧ second = Except.ok c ∧ rel b c := by
  cases first with
  | error e =>
    cases second with
    | error f => exact Or.inl ⟨e, rfl, congrArg Except.error agree.symm⟩
    | ok c => exact agree.elim
  | ok b =>
    cases second with
    | error f => exact agree.elim
    | ok c => exact Or.inr ⟨b, c, rfl, rfl, agree⟩

theorem Agree.map {β γ β' γ' : Type*} {rel : β → γ → Prop} {rel' : β' → γ' → Prop}
    {f : β → β'} {g : γ → γ'} {first : Except ε β} {second : Except ε γ}
    (agree : Agree rel first second) (imp : ∀ b c, rel b c → rel' (f b) (g c)) :
    Agree rel' (first.map f) (second.map g) := by
  rcases agree.cases with ⟨e, rfl, rfl⟩ | ⟨b, c, rfl, rfl, hrel⟩
  · exact rfl
  · exact imp b c hrel

/-- What every operation of a run shows, until one aborts. -/
def outcomes {ω : Type*} (op : σ → α → Except ε σ) (view : σ → ω) :
    σ → List α → List (Except ε ω)
  | _, [] => []
  | s, label :: labels =>
    match op s label with
    | Except.error e => [Except.error e]
    | Except.ok t => Except.ok (view t) :: outcomes op view t labels

/-- Related states whose steps agree and look alike show the same in every run. -/
theorem outcomes_eq {ω : Type*} {rel : σ → σ → Prop} {view : σ → ω}
    (alike : ∀ s t, rel s t → view s = view t)
    (agree : ∀ s t label, rel s t → Agree rel (op s label) (op t label))
    {s t : σ} (start : rel s t) (labels : List α) :
    outcomes op view s labels = outcomes op view t labels := by
  induction labels generalizing s t with
  | nil => rfl
  | cons label labels ih =>
    simp only [outcomes]
    rcases (agree s t label start).cases with ⟨e, hs, ht⟩ | ⟨s', t', hs, ht, hrel⟩
    · simp only [hs, ht]
    · simp only [hs, ht, alike s' t' hrel, ih hrel]

end LarsSystem.Transition
