import LarsSystem.LarsProto
import Mathlib.Data.Finset.Image
import Mathlib.Data.Finset.Prod

/-!
# `SubscribeList`: who asked for a module, and who is to hear of a change

`sub_list` has, for each module, the descriptors that subscribed to it; `publish`
copies the pairs of the changed modules into `pub_list`, from where the push
tasks of the event loops take them. `pub_list` is kept as the set of its pairs:
it never holds an empty set for a descriptor. A module is its packed
(modid, cmdid).
-/

namespace LarsSystem.Dns

abbrev Mod := BitVec 64
abbrev Fd := Int

structure SubscribeList where
  subList : Mod → Option (Finset Fd)
  pubList : Finset (Fd × Mod)

namespace SubscribeList

def empty : SubscribeList := ⟨fun _ => none, ∅⟩

/-- `subscribe`. -/
def subscribe (s : SubscribeList) (mod : Mod) (fd : Fd) : SubscribeList :=
  { s with subList := Function.update s.subList mod (some (insert fd ((s.subList mod).getD ∅))) }

/-- `unSubscribe`; a module without descriptors is taken out. -/
def unSubscribe (s : SubscribeList) (mod : Mod) (fd : Fd) : SubscribeList :=
  match s.subList mod with
  | none => s
  | some fds =>
    let rest := fds.erase fd
    { s with subList := Function.update s.subList mod (if rest = ∅ then none else some rest) }

/-- The pairs that one changed module contributes. -/
def subscribed (s : SubscribeList) (mod : Mod) : Finset (Fd × Mod) :=
  ((s.subList mod).getD ∅).image fun fd => (fd, mod)

/-- `publish` on the two lists. -/
def publish (s : SubscribeList) (changeMods : List Mod) : SubscribeList :=
  { s with pubList := changeMods.foldl (fun pub mod => pub ∪ s.subscribed mod) s.pubList }

/-- `make_publish_map`: what `pub_list` holds for the descriptors that are online. -/
def makePublishMap (s : SubscribeList) (onlineFds : Finset Fd) : Finset (Fd × Mod) :=
  s.pubList.filter fun pair => pair.1 ∈ onlineFds

/-- `pub_list.erase(fd)`. -/
def erase (s : SubscribeList) (fd : Fd) : SubscribeList :=
  { s with pubList := s.pubList.filter fun pair => pair.1 ≠ fd }

/-! ## What the pairs are -/

/-- `publish` of `changeMods` puts the pair into `pub_list`. -/
def Puts (s : SubscribeList) (changeMods : List Mod) (fd : Fd) (mod : Mod) : Prop :=
  mod ∈ changeMods ∧ ∃ fds, s.subList mod = some fds ∧ fd ∈ fds

theorem mem_subscribed {s : SubscribeList} {mod mod' : Mod} {fd : Fd} :
    (fd, mod') ∈ s.subscribed mod ↔ mod' = mod ∧ ∃ fds, s.subList mod = some fds ∧ fd ∈ fds := by
  unfold subscribed
  cases hsub : s.subList mod with
  | none => simp
  | some fds =>
    simp only [Option.getD_some, Finset.mem_image, Prod.mk.injEq, Option.some.injEq]
    constructor
    · rintro ⟨fd', hfd, rfl, rfl⟩
      exact ⟨rfl, fds, rfl, hfd⟩
    · rintro ⟨rfl, fds', rfl, hfd⟩
      exact ⟨fd, hfd, rfl, rfl⟩

theorem mem_publish {s : SubscribeList} {changeMods : List Mod} {fd : Fd} {mod : Mod} :
    (fd, mod) ∈ (s.publish changeMods).pubList ↔
      (fd, mod) ∈ s.pubList ∨ s.Puts changeMods fd mod := by
  have hfold : ∀ pub : Finset (Fd × Mod),
      (fd, mod) ∈ changeMods.foldl (fun pub mod => pub ∪ s.subscribed mod) pub ↔
        (fd, mod) ∈ pub ∨ s.Puts changeMods fd mod := by
    induction changeMods with
    | nil =>
      intro pub
      simp [Puts]
    | cons first rest ih =>
      intro pub
      rw [List.foldl_cons, ih, Finset.mem_union, mem_subscribed]
      unfold Puts
      rw [List.mem_cons, or_assoc]
      constructor
      · rintro (hpub | ⟨rfl, hfds⟩ | ⟨hmem, hfds⟩)
        · exact Or.inl hpub
        · exact Or.inr ⟨Or.inl rfl, hfds⟩
        · exact Or.inr ⟨Or.inr hmem, hfds⟩
      · rintro (hpub | ⟨rfl | hmem, hfds⟩)
        · exact Or.inl hpub
        · exact Or.inr (Or.inl ⟨rfl, hfds⟩)
        · exact Or.inr (Or.inr ⟨hmem, hfds⟩)
  exact hfold s.pubList

/-- The descriptor is filed under the module. -/
def Has (s : SubscribeList) (mod : Mod) (fd : Fd) : Prop :=
  ∃ fds, s.subList mod = some fds ∧ fd ∈ fds

theorem has_subscribe {s : SubscribeList} {mod mod' : Mod} {fd fd' : Fd} :
    (s.subscribe mod fd).Has mod' fd' ↔ mod' = mod ∧ fd' = fd ∨ s.Has mod' fd' := by
  unfold Has subscribe
  by_cases hmod : mod' = mod
  · subst hmod
    simp only [Function.update_self, Option.some.injEq, exists_eq_left', Finset.mem_insert,
      true_and]
    cases s.subList mod' with
    | none => simp
    | some fds => simp
  · simp only [Function.update_of_ne hmod, hmod, false_and, false_or]

theorem has_unSubscribe {s : SubscribeList} {mod mod' : Mod} {fd fd' : Fd} :
    (s.unSubscribe mod fd).Has mod' fd' ↔ s.Has mod' fd' ∧ ¬ (mod' = mod ∧ fd' = fd) := by
  unfold Has unSubscribe
  cases hsub : s.subList mod with
  | none =>
    constructor
    · rintro ⟨fds, hfds, hmem⟩
      refine ⟨⟨fds, hfds, hmem⟩, ?_⟩
      rintro ⟨rfl, -⟩
      exact absurd (hsub.symm.trans hfds) (by simp)
    · exact fun h => h.1
  | some fds =>
    by_cases hmod : mod' = mod
    · subst hmod
      simp only [Function.update_self, hsub, Option.some.injEq, exists_eq_left', true_and]
      split
      · rename_i hempty
        constructor
        · rintro ⟨rest, hrest, -⟩
          cases hrest
        · rintro ⟨hmem, hne⟩
          have hin : fd' ∈ fds.erase fd := Finset.mem_erase.mpr ⟨hne, hmem⟩
          rw [hempty] at hin
          exact absurd hin (Finset.notMem_empty _)
      · simp only [Option.some.injEq, exists_eq_left', Finset.mem_erase]
        exact and_comm
    · simp only [Function.update_of_ne hmod, hmod, false_and, not_false_eq_true, and_true]

/-- No module is kept without descriptors. -/
def NoEmpty (s : SubscribeList) : Prop := ∀ mod fds, s.subList mod = some fds → fds.Nonempty

theorem noEmpty_subscribe {s : SubscribeList} (hs : s.NoEmpty) (mod : Mod) (fd : Fd) :
    (s.subscribe mod fd).NoEmpty := by
  intro mod' fds hfds
  unfold subscribe at hfds
  by_cases hmod : mod' = mod
  · simp only [hmod, Function.update_self, Option.some.injEq] at hfds
    rw [← hfds]
    exact Finset.insert_nonempty _ _
  · simp only [Function.update_of_ne hmod] at hfds
    exact hs mod' fds hfds

theorem noEmpty_unSubscribe {s : SubscribeList} (hs : s.NoEmpty) (mod : Mod) (fd : Fd) :
    (s.unSubscribe mod fd).NoEmpty := by
  intro mod' fds hfds
  unfold unSubscribe at hfds
  cases hsub : s.subList mod with
  | none =>
    simp only [hsub] at hfds
    exact hs mod' fds hfds
  | some old =>
    simp only [hsub] at hfds
    by_cases hmod : mod' = mod
    · simp only [hmod, Function.update_self] at hfds
      split at hfds
      · cases hfds
      · rename_i hne
        cases hfds
        exact Finset.nonempty_iff_ne_empty.mpr hne
    · simp only [Function.update_of_ne hmod] at hfds
      exact hs mod' fds hfds

theorem unSubscribe_pubList (s : SubscribeList) (mod : Mod) (fd : Fd) :
    (s.unSubscribe mod fd).pubList = s.pubList := by
  unfold unSubscribe
  split <;> rfl

theorem mem_makePublishMap {s : SubscribeList} {onlineFds : Finset Fd} {fd : Fd} {mod : Mod} :
    (fd, mod) ∈ s.makePublishMap onlineFds ↔ (fd, mod) ∈ s.pubList ∧ fd ∈ onlineFds :=
  Finset.mem_filter

theorem mem_erase {s : SubscribeList} {fd fd' : Fd} {mod : Mod} :
    (fd, mod) ∈ (s.erase fd').pubList ↔ (fd, mod) ∈ s.pubList ∧ fd ≠ fd' :=
  Finset.mem_filter

end SubscribeList

end LarsSystem.Dns
