import LarsSystem.Transition
import Mathlib.Data.List.Basic

/-!
# Whether some operations can be told to have happened

Some operations of a run are shown and some are hidden. The hidden ones are
unseen if leaving them out changes neither the answers to the others nor what is
looked at in the last state. Where a hidden operation leaves alone what is
looked at, and a shown one depends on nothing else, only one thing can give them
away: a hidden operation that aborts the run.
-/

namespace LarsSystem.Transition

universe u v w

variable {σ : Type u} {α : Type v} {ε ω : Type w}

/-- The answers to the shown operations, and the last state. An operation that aborts ends the
    run; it is an answer where it is shown. -/
def trace (op : σ → α → Except ε (σ × ω)) (shown : α → Prop) [DecidablePred shown] :
    σ → List α → List (Except ε ω) × Option σ
  | s, [] => ([], some s)
  | s, label :: labels =>
    match op s label with
    | Except.error e => (if shown label then [Except.error e] else [], none)
    | Except.ok (t, answer) =>
      let (answers, last) := trace op shown t labels
      (if shown label then Except.ok answer :: answers else answers, last)

/-- Leaving out the hidden operations changes no answer, and the last states are related. -/
def Unseen (op : σ → α → Except ε (σ × ω)) (shown : α → Prop) [DecidablePred shown]
    (rel : σ → σ → Prop) (s t : σ) (labels : List α) : Prop :=
  (trace op shown s labels).1 = (trace op shown t (labels.filter shown)).1 ∧
    Option.Rel rel (trace op shown s labels).2 (trace op shown t (labels.filter shown)).2

def stepOf (op : σ → α → Except ε (σ × ω)) (s : σ) (label : α) : Except ε σ :=
  (op s label).map Prod.fst

section Trace

variable {op : σ → α → Except ε (σ × ω)} {shown : α → Prop} [DecidablePred shown] {s t : σ}
  {label : α} {labels : List α} {answer : ω} {e : ε}

theorem trace_ok_shown (hok : op s label = Except.ok (t, answer)) (hshown : shown label) :
    trace op shown s (label :: labels) =
      (Except.ok answer :: (trace op shown t labels).1, (trace op shown t labels).2) := by
  simp only [trace, hok, if_pos hshown]

theorem trace_ok_hidden (hok : op s label = Except.ok (t, answer)) (hhidden : ¬ shown label) :
    trace op shown s (label :: labels) = trace op shown t labels := by
  simp only [trace, hok, if_neg hhidden]

theorem trace_error_shown (herror : op s label = Except.error e) (hshown : shown label) :
    trace op shown s (label :: labels) = ([Except.error e], none) := by
  simp only [trace, herror, if_pos hshown]

theorem trace_error_hidden (herror : op s label = Except.error e) (hhidden : ¬ shown label) :
    trace op shown s (label :: labels) = ([], none) := by
  simp only [trace, herror, if_neg hhidden]

/-- A run of shown operations that ends early shows why. -/
theorem trace_aborted (hall : ∀ label ∈ labels, shown label)
    (hlast : (trace op shown s labels).2 = none) : (trace op shown s labels).1 ≠ [] := by
  cases labels with
  | nil => cases hlast
  | cons label labels =>
    have hshown := hall label List.mem_cons_self
    cases hop : op s label with
    | error e =>
      rw [trace_error_shown hop hshown]
      exact List.cons_ne_nil _ _
    | ok next =>
      rw [trace_ok_shown hop hshown]
      exact List.cons_ne_nil _ _

end Trace

/-- The conditions under which hidden operations show by aborting only. `guard` says of a hidden
    operation whether it does. -/
structure Unwinding (op : σ → α → Except ε (σ × ω)) (shown : α → Prop) (rel : σ → σ → Prop)
    (inv : σ → Prop) (guard : σ → α → Prop) : Prop where
  keeps : ∀ {s label t answer}, inv s → op s label = Except.ok (t, answer) → inv t
  hidden : ∀ {s t u label answer}, ¬ shown label → rel s t →
    op s label = Except.ok (u, answer) → rel u t
  alike : ∀ {s t label}, shown label → rel s t →
    Agree (fun r q => r.2 = q.2 ∧ rel r.1 q.1) (op s label) (op t label)
  exact : ∀ {s label}, inv s → ¬ shown label → ((∃ r, op s label = Except.ok r) ↔ guard s label)

/-- The first operation of a run that meets a condition. -/
theorem meets_stepOf {op : σ → α → Except ε (σ × ω)} {guard : σ → α → Prop} {s t : σ} {label : α}
    {answer : ω} (hok : op s label = Except.ok (t, answer)) (labels : List α) :
    Meets (stepOf op) guard s (label :: labels) ↔
      guard s label ∧ Meets (stepOf op) guard t labels := by
  have hstep : stepOf op s label = Except.ok t := by
    rw [stepOf, hok]
    rfl
  refine and_congr_right fun _ => ⟨fun hmeets => hmeets t hstep, ?_⟩
  intro hmeets u hu
  obtain rfl := Except.ok.inj (hstep.symm.trans hu)
  exact hmeets

theorem eq_none_of_rel {rel : σ → σ → Prop} {last : Option σ} (related : Option.Rel rel none last) :
    last = none := by
  cases related
  rfl

/-- **Hidden operations are unseen exactly if none of them aborts the run.** -/
theorem Unwinding.unseen_iff {op : σ → α → Except ε (σ × ω)} {shown : α → Prop}
    [DecidablePred shown] {rel : σ → σ → Prop} {inv : σ → Prop} {guard : σ → α → Prop}
    (unwinding : Unwinding op shown rel inv guard) {s t : σ} (start : inv s) (related : rel s t)
    (labels : List α) :
    Unseen op shown rel s t labels ↔
      Meets (stepOf op) (fun s label => ¬ shown label → guard s label) s labels := by
  induction labels generalizing s t with
  | nil => exact iff_of_true ⟨rfl, Option.Rel.some related⟩ trivial
  | cons label labels ih =>
    by_cases hshown : shown label
    · rw [Unseen, List.filter_cons_of_pos (by simpa using hshown)]
      rcases (unwinding.alike hshown related).cases with
        ⟨e, hs, ht⟩ | ⟨⟨s', answer⟩, ⟨t', answer'⟩, hs, ht, hanswer, hrel⟩
      · rw [trace_error_shown hs hshown, trace_error_shown ht hshown]
        refine iff_of_true ⟨rfl, Option.Rel.none⟩ ⟨fun hhidden => absurd hshown hhidden, ?_⟩
        intro u hu
        rw [stepOf, hs] at hu
        exact nomatch hu
      · simp only at hanswer hrel
        rw [trace_ok_shown hs hshown, trace_ok_shown ht hshown, hanswer, meets_stepOf hs,
          ← ih (unwinding.keeps start hs) hrel]
        simp only [List.cons.injEq, true_and]
        exact ⟨fun hunseen => ⟨fun hhidden => absurd hshown hhidden, hunseen⟩, And.right⟩
    · rw [Unseen, List.filter_cons_of_neg (by simpa using hshown)]
      have hexact := unwinding.exact start hshown
      rcases hs : op s label with e | ⟨s', answer⟩
      · rw [trace_error_hidden hs hshown]
        apply iff_of_false
        · -- the others go on, or say why they do not
          rintro ⟨hanswers, hlast⟩
          exact trace_aborted (fun _ hmem => of_decide_eq_true (List.mem_filter.mp hmem).2)
            (eq_none_of_rel hlast) hanswers.symm
        · rintro ⟨hguard, -⟩
          obtain ⟨r, hr⟩ := hexact.mpr (hguard hshown)
          exact nomatch hs.symm.trans hr
      · rw [trace_ok_hidden hs hshown, meets_stepOf hs,
          ← ih (unwinding.keeps start hs) (unwinding.hidden hshown related hs)]
        exact ⟨fun hunseen => ⟨fun _ => hexact.mp ⟨_, hs⟩, hunseen⟩, And.right⟩

/-! ## Stores

A store holds a value for each index, and an operation has to do with one index.
The operations on one are hidden from those who look at the others. -/

section Store

variable {ι β : Type*} {look : σ → ι → β} {op : σ → α → Except ε (σ × ω)} {index : α → ι}

/-- An operation changes what is at its index and depends on nothing else. -/
structure Indexed (look : σ → ι → β) (op : σ → α → Except ε (σ × ω)) (index : α → ι) : Prop where
  frame : ∀ {s label t answer}, op s label = Except.ok (t, answer) →
    ∀ i ≠ index label, look t i = look s i
  depends : ∀ {s t label}, look s (index label) = look t (index label) →
    Agree (fun r q => r.2 = q.2 ∧ look r.1 (index label) = look q.1 (index label))
      (op s label) (op t label)

def SameBut (look : σ → ι → β) (i : ι) (s t : σ) : Prop := ∀ j ≠ i, look s j = look t j

/-- The operations on other indices do the same to stores that differ at one. -/
theorem Indexed.alike (indexed : Indexed look op index) {i : ι} {s t : σ} {label : α}
    (hother : index label ≠ i) (same : SameBut look i s t) :
    Agree (fun r q => r.2 = q.2 ∧ SameBut look i r.1 q.1) (op s label) (op t label) := by
  rcases (indexed.depends (same _ hother)).cases with
    ⟨e, hs, ht⟩ | ⟨⟨s', answer⟩, ⟨t', answer'⟩, hs, ht, hanswer, hself⟩
  · rw [hs, ht]
    exact rfl
  · rw [hs, ht]
    refine ⟨hanswer, ?_⟩
    intro j hj
    by_cases hsame : j = index label
    · rw [hsame]
      exact hself
    · rw [indexed.frame hs j hsame, indexed.frame ht j hsame]
      exact same j hj

theorem Indexed.unwinding (indexed : Indexed look op index) (i : ι) {inv : σ → Prop}
    {guard : σ → α → Prop}
    (keeps : ∀ {s label t answer}, inv s → op s label = Except.ok (t, answer) → inv t)
    (exact : ∀ {s label}, inv s → ((∃ r, op s label = Except.ok r) ↔ guard s label)) :
    Unwinding op (fun label => index label ≠ i) (SameBut look i) inv guard where
  keeps := keeps
  hidden := by
    intro s t u label answer hhidden same hok j hj
    rw [indexed.frame hok j fun hindex => hhidden fun heq => hj (hindex.trans heq)]
    exact same j hj
  alike := indexed.alike
  exact := fun start _ => exact start

end Store

end LarsSystem.Transition
