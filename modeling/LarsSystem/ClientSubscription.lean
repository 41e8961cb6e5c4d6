import LarsSystem.SubscribeList
import LarsSystem.Transition

/-!
# The hooks and the request of the DNS service

A connection keeps the set of the modules it asked for in its `param`, and the
service keeps the same relation from the other side in `sub_list`. The two are
updated in separate steps by the thread of the connection's loop: a request puts
the module into the set and then subscribes; the hook at the end unsubscribes
the modules one by one, deletes the set, and only then the descriptor is closed
and may be used again. The threads of different connections interleave freely.
-/

namespace LarsSystem.Dns

open LarsSystem.Transition

/-- What the thread of a connection is about to do for it. -/
inductive ClientPhase where
  | waiting
  | subscribing (mod : Mod)
  | closing (rest : List Mod)
  | cleared

/-- An open connection: its `param`, NULL after the hook at the end. -/
structure Client where
  param : Option (Finset Mod)
  phase : ClientPhase

structure DnsService where
  lists : SubscribeList
  clients : Fd → Option Client

inductive ServiceLabel where
  | createSubscribe (fd : Fd)
  | getRequest (fd : Fd) (mod : Mod)
  | subscribe (fd : Fd)
  | clearSubscribe (fd : Fd) (order : List Mod)
  | unSubscribe (fd : Fd)
  | deleteParam (fd : Fd)
  | closeFd (fd : Fd)

def ServiceLabel.fd : ServiceLabel → Fd
  | .createSubscribe fd => fd
  | .getRequest fd _ => fd
  | .subscribe fd => fd
  | .clearSubscribe fd _ => fd
  | .unSubscribe fd => fd
  | .deleteParam fd => fd
  | .closeFd fd => fd

namespace DnsService

def create : DnsService := ⟨SubscribeList.empty, fun _ => none⟩

def setClient (s : DnsService) (fd : Fd) (client : Client) : DnsService :=
  { s with clients := Function.update s.clients fd (some client) }

@[simp] theorem setClient_self (s : DnsService) (fd : Fd) (client : Client) :
    (s.setClient fd client).clients fd = some client :=
  Function.update_self ..

/-- One step; `none` where the connection's thread is elsewhere. The kernel gives a new
    connection a descriptor that is not open, and `order` is the order of the `hash_set`. -/
def next (s : DnsService) : ServiceLabel → Option DnsService
  | .createSubscribe fd =>
    match s.clients fd with
    | none => some (s.setClient fd ⟨some ∅, .waiting⟩)
    | some _ => none
  | .getRequest fd mod =>
    match s.clients fd with
    | some ⟨some mods, .waiting⟩ =>
      if mod ∈ mods then some s
      else some (s.setClient fd ⟨some (insert mod mods), .subscribing mod⟩)
    | some ⟨none, .waiting⟩ => some s
    | _ => none
  | .subscribe fd =>
    match s.clients fd with
    | some ⟨param, .subscribing mod⟩ =>
      some ({ s with lists := s.lists.subscribe mod fd }.setClient fd ⟨param, .waiting⟩)
    | _ => none
  | .clearSubscribe fd order =>
    match s.clients fd with
    | some ⟨some mods, .waiting⟩ =>
      if order.Nodup ∧ order.toFinset = mods then
        some (s.setClient fd ⟨some mods, .closing order⟩)
      else none
    | _ => none
  | .unSubscribe fd =>
    match s.clients fd with
    | some ⟨param, .closing (mod :: rest)⟩ =>
      some ({ s with lists := s.lists.unSubscribe mod fd }.setClient fd ⟨param, .closing rest⟩)
    | _ => none
  | .deleteParam fd =>
    match s.clients fd with
    | some ⟨_, .closing []⟩ => some (s.setClient fd ⟨none, .cleared⟩)
    | _ => none
  | .closeFd fd =>
    match s.clients fd with
    | some ⟨_, .cleared⟩ => some { s with clients := Function.update s.clients fd none }
    | _ => none

/-- The two steps of one request, taken together: a module that is in the connection's set
    already is not subscribed again. -/
def serve (s : DnsService) (fd : Fd) (mod : Mod) : Option DnsService :=
  match s.next (.getRequest fd mod) with
  | none => none
  | some asked =>
    match asked.next (.subscribe fd) with
    | none => some asked
    | some subscribed => some subscribed

/-! ## What is promised -/

/-- The open connection on the descriptor has the module in its own set. -/
def Owns (s : DnsService) (fd : Fd) (mod : Mod) : Prop :=
  ∃ client mods, s.clients fd = some client ∧ client.param = some mods ∧ mod ∈ mods

/-- No request and no close is half done. -/
def Settled (s : DnsService) : Prop :=
  ∀ fd client, s.clients fd = some client → client.phase = .waiting

/-- **What the bookkeeping promises**, in every state. -/
structure Bookkept (s : DnsService) : Prop where
  owned : ∀ mod fd, s.lists.Has mod fd → s.Owns fd mod
  settled : s.Settled → ∀ mod fd, s.lists.Has mod fd ↔ s.Owns fd mod
  closed : ∀ fd, s.clients fd = none → ∀ mod, ¬ s.lists.Has mod fd
  nonempty : s.lists.NoEmpty

/-! ## The invariant -/

/-- The modules that `sub_list` has for the connection, by what its thread is about to do. -/
def Listed (client : Client) (mod : Mod) : Prop :=
  match client with
  | ⟨some mods, .waiting⟩ => mod ∈ mods
  | ⟨some mods, .subscribing new⟩ => mod ∈ mods ∧ mod ≠ new
  | ⟨some _, .closing rest⟩ => mod ∈ rest
  | _ => False

/-- The set is there until the hook at the end deletes it, and a half done step is about
    modules of the set. -/
def WellFormed (client : Client) : Prop :=
  match client with
  | ⟨some _, .waiting⟩ => True
  | ⟨some mods, .subscribing new⟩ => new ∈ mods
  | ⟨some mods, .closing rest⟩ => rest.Nodup ∧ ∀ mod ∈ rest, mod ∈ mods
  | ⟨none, .cleared⟩ => True
  | _ => False

structure ServiceInv (s : DnsService) : Prop where
  listed : ∀ mod fd, s.lists.Has mod fd ↔ ∃ client, s.clients fd = some client ∧
    Listed client mod
  wellFormed : ∀ fd client, s.clients fd = some client → WellFormed client
  nonempty : s.lists.NoEmpty

theorem serviceInv_create : ServiceInv create := by
  constructor
  · intro mod fd
    constructor
    · rintro ⟨fds, hfds, -⟩
      cases hfds
    · rintro ⟨client, hclient, -⟩
      cases hclient
  · intro fd client hclient
    cases hclient
  · intro mod fds hfds
    cases hfds

/-- What is listed for a connection is in its own set. -/
theorem Listed.owned {client : Client} {mod : Mod} (hlisted : Listed client mod)
    (hwell : WellFormed client) : ∃ mods, client.param = some mods ∧ mod ∈ mods := by
  rcases client with ⟨_ | mods, phase⟩
  · cases phase <;> exact hlisted.elim
  · cases phase with
    | waiting => exact ⟨mods, rfl, hlisted⟩
    | subscribing new => exact ⟨mods, rfl, hlisted.1⟩
    | closing rest => exact ⟨mods, rfl, hwell.2 mod hlisted⟩
    | cleared => exact hlisted.elim

theorem ServiceInv.bookkept {s : DnsService} (hinv : ServiceInv s) : s.Bookkept := by
  have howned : ∀ mod fd, s.lists.Has mod fd → s.Owns fd mod := by
    intro mod fd hhas
    obtain ⟨client, hclient, hlisted⟩ := (hinv.listed mod fd).mp hhas
    obtain ⟨mods, hparam, hmem⟩ := hlisted.owned (hinv.wellFormed fd client hclient)
    exact ⟨client, mods, hclient, hparam, hmem⟩
  refine ⟨howned, ?_, ?_, hinv.nonempty⟩
  · intro hsettled mod fd
    refine ⟨howned mod fd, ?_⟩
    rintro ⟨⟨param, phase⟩, mods, hclient, hparam, hmem⟩
    obtain rfl : param = some mods := hparam
    obtain rfl : phase = .waiting := hsettled fd _ hclient
    exact (hinv.listed mod fd).mpr ⟨_, hclient, hmem⟩
  · intro fd hnone mod hhas
    obtain ⟨client, hclient, -⟩ := (hinv.listed mod fd).mp hhas
    exact absurd (hnone.symm.trans hclient) (by simp)

/-- A step of one connection: what `sub_list` has for it is what its new state lists, and for
    the others nothing changes. -/
theorem ServiceInv.setClient {s : DnsService} (hinv : ServiceInv s) {lists : SubscribeList}
    {fd : Fd} {client : Client} (hwell : WellFormed client)
    (hself : ∀ mod, lists.Has mod fd ↔ Listed client mod)
    (hothers : ∀ mod fd', fd' ≠ fd → (lists.Has mod fd' ↔ s.lists.Has mod fd'))
    (hnonempty : lists.NoEmpty) :
    ServiceInv ({ s with lists := lists }.setClient fd client) := by
  constructor
  · intro mod fd'
    by_cases hfd : fd' = fd
    · subst hfd
      simp only [DnsService.setClient, Function.update_self, Option.some.injEq, exists_eq_left']
      exact hself mod
    · simp only [DnsService.setClient, Function.update_of_ne hfd]
      exact (hothers mod fd' hfd).trans (hinv.listed mod fd')
  · intro fd' client' hclient'
    by_cases hfd : fd' = fd
    · simp only [DnsService.setClient, hfd, Function.update_self, Option.some.injEq] at hclient'
      rw [← hclient']
      exact hwell
    · simp only [DnsService.setClient, Function.update_of_ne hfd] at hclient'
      exact hinv.wellFormed fd' client' hclient'
  · exact hnonempty

/-- What `sub_list` has for an open connection. -/
theorem ServiceInv.has_iff {s : DnsService} (hinv : ServiceInv s) {fd : Fd} {client : Client}
    (hclient : s.clients fd = some client) (mod : Mod) :
    s.lists.Has mod fd ↔ Listed client mod := by
  rw [hinv.listed mod fd, hclient]
  simp only [Option.some.injEq, exists_eq_left']

theorem ServiceInv.has_none {s : DnsService} (hinv : ServiceInv s) {fd : Fd}
    (hnone : s.clients fd = none) (mod : Mod) : ¬ s.lists.Has mod fd :=
  hinv.bookkept.closed fd hnone mod

section Steps

variable {s : DnsService} {fd : Fd} {param : Option (Finset Mod)} {mods : Finset Mod}

theorem ServiceInv.createSubscribe (hinv : ServiceInv s) (hnone : s.clients fd = none) :
    ServiceInv (s.setClient fd ⟨some ∅, .waiting⟩) := by
  refine hinv.setClient trivial ?_ (fun _ _ _ => Iff.rfl) hinv.nonempty
  intro mod
  exact iff_of_false (hinv.has_none hnone mod) (Finset.notMem_empty mod)

theorem ServiceInv.getRequest (hinv : ServiceInv s) {mod : Mod}
    (hclient : s.clients fd = some ⟨some mods, .waiting⟩) (hnew : mod ∉ mods) :
    ServiceInv (s.setClient fd ⟨some (insert mod mods), .subscribing mod⟩) := by
  refine hinv.setClient (Finset.mem_insert_self mod mods) ?_ (fun _ _ _ => Iff.rfl)
    hinv.nonempty
  intro mod'
  rw [hinv.has_iff hclient mod']
  constructor
  · intro hmem
    refine ⟨Finset.mem_insert_of_mem hmem, ?_⟩
    rintro rfl
    exact hnew hmem
  · rintro ⟨hmem, hne⟩
    exact Finset.mem_of_mem_insert_of_ne hmem hne

theorem ServiceInv.subscribe (hinv : ServiceInv s) {mod : Mod}
    (hclient : s.clients fd = some ⟨param, .subscribing mod⟩) :
    ServiceInv ({ s with lists := s.lists.subscribe mod fd }.setClient fd
      ⟨param, .waiting⟩) := by
  have hwell := hinv.wellFormed fd _ hclient
  rcases param with _ | mods
  · exact hwell.elim
  · refine hinv.setClient trivial ?_ ?_ (SubscribeList.noEmpty_subscribe hinv.nonempty mod fd)
    · intro mod'
      rw [SubscribeList.has_subscribe, hinv.has_iff hclient mod']
      constructor
      · rintro (⟨rfl, -⟩ | ⟨hmem, -⟩)
        · exact hwell
        · exact hmem
      · intro hmem
        by_cases hmod : mod' = mod
        · exact Or.inl ⟨hmod, rfl⟩
        · exact Or.inr ⟨hmem, hmod⟩
    · intro mod' fd' hfd
      rw [SubscribeList.has_subscribe]
      exact or_iff_right fun h => hfd h.2

theorem ServiceInv.clearSubscribe (hinv : ServiceInv s) {order : List Mod}
    (hclient : s.clients fd = some ⟨some mods, .waiting⟩) (hnodup : order.Nodup)
    (horder : order.toFinset = mods) :
    ServiceInv (s.setClient fd ⟨some mods, .closing order⟩) := by
  have hmem : ∀ mod, mod ∈ order ↔ mod ∈ mods := by
    intro mod
    rw [← horder, List.mem_toFinset]
  refine hinv.setClient ⟨hnodup, fun mod => (hmem mod).mp⟩ ?_ (fun _ _ _ => Iff.rfl)
    hinv.nonempty
  intro mod
  rw [hinv.has_iff hclient mod]
  exact (hmem mod).symm

theorem ServiceInv.unSubscribe (hinv : ServiceInv s) {mod : Mod} {rest : List Mod}
    (hclient : s.clients fd = some ⟨param, .closing (mod :: rest)⟩) :
    ServiceInv ({ s with lists := s.lists.unSubscribe mod fd }.setClient fd
      ⟨param, .closing rest⟩) := by
  have hwell := hinv.wellFormed fd _ hclient
  rcases param with _ | mods
  · exact hwell.elim
  · obtain ⟨hnodup, hsub⟩ := hwell
    obtain ⟨hfirst, hrest⟩ := List.nodup_cons.mp hnodup
    refine hinv.setClient ⟨hrest, fun mod' hmod' => hsub mod' (List.mem_cons_of_mem _ hmod')⟩
      ?_ ?_ (SubscribeList.noEmpty_unSubscribe hinv.nonempty mod fd)
    · intro mod'
      rw [SubscribeList.has_unSubscribe, hinv.has_iff hclient mod']
      constructor
      · rintro ⟨hmem, hne⟩
        rcases List.mem_cons.mp hmem with rfl | hin
        · exact absurd ⟨rfl, rfl⟩ hne
        · exact hin
      · intro hin
        refine ⟨List.mem_cons_of_mem _ hin, ?_⟩
        rintro ⟨rfl, -⟩
        exact hfirst hin
    · intro mod' fd' hfd
      rw [SubscribeList.has_unSubscribe]
      exact and_iff_left fun h => hfd h.2

theorem ServiceInv.deleteParam (hinv : ServiceInv s)
    (hclient : s.clients fd = some ⟨param, .closing []⟩) :
    ServiceInv (s.setClient fd ⟨none, .cleared⟩) := by
  refine hinv.setClient trivial ?_ (fun _ _ _ => Iff.rfl) hinv.nonempty
  intro mod
  rw [hinv.has_iff hclient mod]
  rcases param with _ | mods
  · exact Iff.rfl
  · exact iff_of_false List.not_mem_nil id

/-- Only a connection without entries closes its descriptor. -/
theorem ServiceInv.closeFd (hinv : ServiceInv s)
    (hclient : s.clients fd = some ⟨param, .cleared⟩) :
    ServiceInv { s with clients := Function.update s.clients fd none } := by
  have hnone : ∀ mod, ¬ s.lists.Has mod fd := by
    intro mod hhas
    have hlisted := (hinv.has_iff hclient mod).mp hhas
    rcases param with _ | mods <;> exact hlisted
  constructor
  · intro mod fd'
    by_cases hfd : fd' = fd
    · subst hfd
      simp only [Function.update_self]
      exact iff_of_false (hnone mod) (by simp)
    · simp only [Function.update_of_ne hfd]
      exact hinv.listed mod fd'
  · intro fd' client' hclient'
    by_cases hfd : fd' = fd
    · simp only [hfd, Function.update_self] at hclient'
      cases hclient'
    · simp only [Function.update_of_ne hfd] at hclient'
      exact hinv.wellFormed fd' client' hclient'
  · exact hinv.nonempty

end Steps

/-! ## What a step can do -/

section Cases

variable {s s' : DnsService} {fd : Fd}

theorem createSubscribe_cases (hnext : s.next (.createSubscribe fd) = some s') :
    s.clients fd = none ∧ s' = s.setClient fd ⟨some ∅, .waiting⟩ := by
  simp only [DnsService.next] at hnext
  split at hnext
  · rename_i hnone
    cases hnext
    exact ⟨hnone, rfl⟩
  · cases hnext

/-- A request for a module that is new to the connection, for one that is not, and after the
    set was deleted. -/
theorem getRequest_cases {mod : Mod} (hnext : s.next (.getRequest fd mod) = some s') :
    (∃ mods, s.clients fd = some ⟨some mods, .waiting⟩ ∧
        (mod ∈ mods ∧ s' = s ∨
          mod ∉ mods ∧ s' = s.setClient fd ⟨some (insert mod mods), .subscribing mod⟩)) ∨
      s.clients fd = some ⟨none, .waiting⟩ ∧ s' = s := by
  simp only [DnsService.next] at hnext
  split at hnext
  · rename_i mods hclient
    refine Or.inl ⟨mods, hclient, ?_⟩
    split at hnext
    · rename_i hmem
      cases hnext
      exact Or.inl ⟨hmem, rfl⟩
    · rename_i hnew
      cases hnext
      exact Or.inr ⟨hnew, rfl⟩
  · rename_i hclient
    cases hnext
    exact Or.inr ⟨hclient, rfl⟩
  · cases hnext

theorem subscribe_cases (hnext : s.next (.subscribe fd) = some s') :
    ∃ param mod, s.clients fd = some ⟨param, .subscribing mod⟩ ∧
      s' = { s with lists := s.lists.subscribe mod fd }.setClient fd ⟨param, .waiting⟩ := by
  simp only [DnsService.next] at hnext
  split at hnext
  · rename_i param mod hclient
    cases hnext
    exact ⟨param, mod, hclient, rfl⟩
  · cases hnext

theorem clearSubscribe_cases {order : List Mod}
    (hnext : s.next (.clearSubscribe fd order) = some s') :
    ∃ mods, s.clients fd = some ⟨some mods, .waiting⟩ ∧ order.Nodup ∧ order.toFinset = mods ∧
      s' = s.setClient fd ⟨some mods, .closing order⟩ := by
  simp only [DnsService.next] at hnext
  split at hnext
  · rename_i mods hclient
    split at hnext
    · rename_i horder
      cases hnext
      exact ⟨mods, hclient, horder.1, horder.2, rfl⟩
    · cases hnext
  · cases hnext

theorem unSubscribe_cases (hnext : s.next (.unSubscribe fd) = some s') :
    ∃ param mod rest, s.clients fd = some ⟨param, .closing (mod :: rest)⟩ ∧
      s' = { s with lists := s.lists.unSubscribe mod fd }.setClient fd
        ⟨param, .closing rest⟩ := by
  simp only [DnsService.next] at hnext
  split at hnext
  · rename_i param mod rest hclient
    cases hnext
    exact ⟨param, mod, rest, hclient, rfl⟩
  · cases hnext

theorem deleteParam_cases (hnext : s.next (.deleteParam fd) = some s') :
    ∃ param, s.clients fd = some ⟨param, .closing []⟩ ∧
      s' = s.setClient fd ⟨none, .cleared⟩ := by
  simp only [DnsService.next] at hnext
  split at hnext
  · rename_i param hclient
    cases hnext
    exact ⟨param, hclient, rfl⟩
  · cases hnext

theorem closeFd_cases (hnext : s.next (.closeFd fd) = some s') :
    ∃ param, s.clients fd = some ⟨param, .cleared⟩ ∧
      s' = { s with clients := Function.update s.clients fd none } := by
  simp only [DnsService.next] at hnext
  split at hnext
  · rename_i param hclient
    cases hnext
    exact ⟨param, hclient, rfl⟩
  · cases hnext

end Cases

/-- One step keeps the invariant. -/
theorem ServiceInv.next {s s' : DnsService} (hinv : ServiceInv s) {label : ServiceLabel}
    (hnext : s.next label = some s') : ServiceInv s' := by
  cases label with
  | createSubscribe fd =>
    obtain ⟨hnone, rfl⟩ := createSubscribe_cases hnext
    exact hinv.createSubscribe hnone
  | getRequest fd mod =>
    rcases getRequest_cases hnext with ⟨mods, hclient, ⟨-, rfl⟩ | ⟨hnew, rfl⟩⟩ | ⟨-, rfl⟩
    · exact hinv
    · exact hinv.getRequest hclient hnew
    · exact hinv
  | subscribe fd =>
    obtain ⟨param, mod, hclient, rfl⟩ := subscribe_cases hnext
    exact hinv.subscribe hclient
  | clearSubscribe fd order =>
    obtain ⟨mods, hclient, hnodup, horder, rfl⟩ := clearSubscribe_cases hnext
    exact hinv.clearSubscribe hclient hnodup horder
  | unSubscribe fd =>
    obtain ⟨param, mod, rest, hclient, rfl⟩ := unSubscribe_cases hnext
    exact hinv.unSubscribe hclient
  | deleteParam fd =>
    obtain ⟨param, hclient, rfl⟩ := deleteParam_cases hnext
    exact hinv.deleteParam hclient
  | closeFd fd =>
    obtain ⟨param, hclient, rfl⟩ := closeFd_cases hnext
    exact hinv.closeFd hclient

/-- A step of one connection leaves the others alone. -/
theorem next_clients_of_ne {s s' : DnsService} {label : ServiceLabel}
    (hnext : s.next label = some s') {fd : Fd} (hfd : fd ≠ label.fd) :
    s'.clients fd = s.clients fd := by
  cases label <;> simp only [DnsService.next] at hnext <;> repeat' split at hnext
  all_goals cases hnext
  all_goals first
    | rfl
    | exact Function.update_of_ne hfd _ _

/-- A request that was served is subscribed. -/
theorem serve_spec {s s' : DnsService} (hinv : ServiceInv s) {fd : Fd} {mods : Finset Mod}
    (hclient : s.clients fd = some ⟨some mods, .waiting⟩) {mod : Mod}
    (hserve : s.serve fd mod = some s') :
    ServiceInv s' ∧ s'.clients fd = some ⟨some (insert mod mods), .waiting⟩ := by
  unfold serve at hserve
  simp only [DnsService.next, hclient] at hserve
  by_cases hmem : mod ∈ mods
  · simp only [if_pos hmem, hclient, Option.some.injEq] at hserve
    rw [← hserve, Finset.insert_eq_of_mem hmem]
    exact ⟨hinv, hclient⟩
  · have hasked := hinv.getRequest hclient hmem
    have hclient' : (s.setClient fd ⟨some (insert mod mods), .subscribing mod⟩).clients fd =
        some ⟨some (insert mod mods), .subscribing mod⟩ := Function.update_self ..
    simp only [if_neg hmem, hclient', Option.some.injEq] at hserve
    rw [← hserve]
    exact ⟨hasked.subscribe hclient', Function.update_self ..⟩

/-- **The two sides of the subscriptions agree**, in every state and whatever the order of the
    steps. -/
theorem run_bookkept {labels : List ServiceLabel} {s : DnsService}
    (hrun : Run (ofOption next) create labels s) : s.Bookkept := by
  have hinv : ServiceInv s := by
    apply Run.invariant _ hrun serviceInv_create
    intro t label t' ht hnext
    exact ht.next hnext
  exact hinv.bookkept

/-- Two connections one after the other on descriptor 9. -/
theorem run_bookkept_reused :
    ∃ s, Run (ofOption next) create
        [.createSubscribe 9, .getRequest 9 1, .subscribe 9, .clearSubscribe 9 [1],
          .unSubscribe 9, .deleteParam 9, .closeFd 9, .createSubscribe 9, .getRequest 9 2,
          .subscribe 9] s ∧ s.Bookkept := by
  have hrun : ∃ s, Run (ofOption next) create
      [.createSubscribe 9, .getRequest 9 1, .subscribe 9, .clearSubscribe 9 [1],
        .unSubscribe 9, .deleteParam 9, .closeFd 9, .createSubscribe 9, .getRequest 9 2,
        .subscribe 9] s := ⟨_, run_of_foldlM rfl⟩
  obtain ⟨s, hs⟩ := hrun
  exact ⟨s, hs, run_bookkept hs⟩

end DnsService

end LarsSystem.Dns
