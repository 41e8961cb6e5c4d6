import LarsSystem.PushTask

/-!
# Which changes a push task delivers

A task erases the whole entry of a descriptor after its first message. So a change
is lost if the entry held a second module when it was copied, or if a publish adds
to it before the erase; and the erase comes also where nothing was sent. In a run
where none of this happens, a pair leaves `pub_list` only after its change has
been sent.
-/

namespace LarsSystem.Dns

open LarsSystem.MachineWord
open LarsSystem.Transition

/-- A publish of the pair finds nothing of its descriptor in the task's copy, or only the
    same pair with its hosts not read yet. -/
def TaskState.WillRead (fd : Fd) (mod : Mod) : TaskState → Prop
  | .idle => True
  | .online _ => True
  | .sending queue => ∀ mod', (fd, mod') ∈ queue → mod' = mod
  | .hostsRead fd' _ _ _ queue => fd' ≠ fd ∧ ∀ mod', (fd, mod') ∈ queue → mod' = mod
  | .messageSent fd' _ _ queue => fd' ≠ fd ∧ ∀ mod', (fd, mod') ∈ queue → mod' = mod

/-- Where a task stands with a pair that is still to be served: it has not come to it, or
    it has read its hosts after the publish and not sent them. -/
def TaskState.Fits (p : Published) : TaskState → Prop
  | .idle => True
  | .online _ => True
  | .sending queue => ∀ mod, (p.fd, mod) ∈ queue → mod = p.mod
  | .hostsRead fd mod _ readAt queue =>
    (fd = p.fd → mod = p.mod ∧ p.time ≤ readAt) ∧ ∀ mod, (p.fd, mod) ∈ queue → mod = p.mod
  | .messageSent fd _ _ queue => fd ≠ p.fd ∧ ∀ mod, (p.fd, mod) ∈ queue → mod = p.mod

theorem TaskState.WillRead.fits {t : TaskState} {p : Published}
    (hread : t.WillRead p.fd p.mod) : t.Fits p := by
  cases t with
  | idle => trivial
  | online fds => trivial
  | sending queue => exact hread
  | hostsRead fd mod hosts readAt queue => exact ⟨fun hfd => absurd hfd hread.1, hread.2⟩
  | messageSent fd mod readAt queue => exact hread

namespace PushState

variable {L : Type} {s : PushState L}

/-! ## What is promised -/

/-- A response for the module, with hosts read after the publish, was sent to the
    connection. -/
def Served (s : PushState L) (p : Published) : Prop :=
  ∃ m ∈ s.sent, m.conn = p.conn ∧ pack m.rsp.modid m.rsp.cmdid = p.mod ∧ p.time ≤ m.readAt

/-- **What pushing promises**, in every state: as long as the connection is open, a pair
    that was published is in `pub_list` or has been served. -/
def Delivers (s : PushState L) : Prop :=
  ∀ p ∈ s.published, s.conns p.fd = some p.conn → (p.fd, p.mod) ∈ s.lists.pubList ∨ s.Served p

/-- A copy has one module for each open connection; a publish finds nothing of its open
    connections under way, but for the same module with its hosts not read; and a send
    succeeds, of a module whose lower half is not negative. -/
def LosesNothing (s : PushState L) : PushLabel L → Prop
  | .makePublishMap l _ =>
    ∀ fds, s.task l = .online fds → ∀ fd ∈ fds, s.conns fd ≠ none →
      ∀ mod mod', (fd, mod) ∈ s.lists.pubList → (fd, mod') ∈ s.lists.pubList → mod' = mod
  | .publish changeMods =>
    ∀ fd mod, s.lists.Puts changeMods fd mod → s.conns fd ≠ none →
      ∀ l, (s.task l).WillRead fd mod
  | .sendMessage l ret =>
    ∀ fd mod hosts readAt queue, s.task l = .hostsRead fd mod hosts readAt queue →
      s.conns fd ≠ none → ret = 0 ∧ (unpackLow mod).msb = false
  | _ => True

/-! ## The invariant -/

/-- A pair that is still to be served is in `pub_list`, and every task fits it. -/
structure Kept (s : PushState L) (p : Published) : Prop where
  listed : (p.fd, p.mod) ∈ s.lists.pubList
  fits : ∀ l, (s.task l).Fits p

structure PushInv (s : PushState L) : Prop where
  kept : ∀ p ∈ s.published, s.conns p.fd = some p.conn → ¬ s.Served p → s.Kept p
  earlier : ∀ p ∈ s.published, p.conn < s.nextConn ∧ p.time ≤ s.clock
  opened : ∀ fd conn, s.conns fd = some conn → conn < s.nextConn

theorem PushInv.delivers (hinv : PushInv s) : s.Delivers := by
  intro p hp hopen
  by_cases hserved : s.Served p
  · exact Or.inr hserved
  · exact Or.inl (hinv.kept p hp hopen hserved).listed

theorem pushInv_create (route : RouteMap) : PushInv (create route : PushState L) := by
  constructor
  · intro p hp
    exact hp.elim
  · intro p hp
    exact hp.elim
  · intro fd conn hconn
    cases hconn

/-- Subscriptions, routes and task counts are not part of it. -/
theorem PushInv.frame {s' : PushState L} (hinv : PushInv s)
    (hlists : s'.lists.pubList = s.lists.pubList) (hconns : s'.conns = s.conns)
    (htask : s'.task = s.task) (hpublished : s'.published = s.published)
    (hsent : s'.sent = s.sent) (hnext : s'.nextConn = s.nextConn) (hclock : s'.clock = s.clock) :
    PushInv s' := by
  refine ⟨?_, ?_, ?_⟩
  · intro p hp hopen hserved
    rw [hpublished] at hp
    rw [hconns] at hopen
    rw [Served, hsent] at hserved
    have hkept := hinv.kept p hp hopen hserved
    exact ⟨by rw [hlists]; exact hkept.listed, by rw [htask]; exact hkept.fits⟩
  · rw [hpublished, hnext, hclock]
    exact hinv.earlier
  · rw [hconns, hnext]
    exact hinv.opened

theorem PushInv.publish (hinv : PushInv s) {changeMods : List Mod}
    (hguard : s.LosesNothing (.publish changeMods)) :
    PushInv { s with
      lists := s.lists.publish changeMods
      unnotified := s.unnotified + 1
      clock := s.clock + 1
      published := s.published ∪ s.records changeMods } := by
  constructor
  · rintro p (hp | ⟨hputs, hconn, htime⟩) hopen hserved
    · have hkept := hinv.kept p hp hopen hserved
      exact ⟨SubscribeList.mem_publish.mpr (Or.inl hkept.listed), hkept.fits⟩
    · refine ⟨SubscribeList.mem_publish.mpr (Or.inr hputs), ?_⟩
      intro l
      exact (hguard p.fd p.mod hputs (by rw [hconn]; simp) l).fits
  · rintro p (hp | ⟨-, hconn, htime⟩)
    · obtain ⟨hconn, htime⟩ := hinv.earlier p hp
      exact ⟨hconn, Nat.le_succ_of_le htime⟩
    · exact ⟨hinv.opened _ _ hconn, Nat.le_of_eq htime⟩
  · exact hinv.opened

theorem PushInv.closeConn (hinv : PushInv s) (fd : Fd) :
    PushInv { s with
      conns := Function.update s.conns fd none
      listenFds := fun l => (s.listenFds l).erase fd } := by
  have hstill : ∀ fd' conn, Function.update s.conns fd none fd' = some conn →
      s.conns fd' = some conn := by
    intro fd' conn hconn
    by_cases hfd : fd' = fd
    · rw [hfd, Function.update_self] at hconn
      cases hconn
    · rwa [Function.update_of_ne hfd] at hconn
  constructor
  · intro p hp hopen hserved
    have hkept := hinv.kept p hp (hstill _ _ hopen) hserved
    exact ⟨hkept.listed, hkept.fits⟩
  · exact hinv.earlier
  · intro fd' conn hconn
    exact hinv.opened fd' conn (hstill _ _ hconn)

theorem mem_flatten {order : List (Fd × List Mod)} {onlineFds : Finset Fd} {fd : Fd} {mod : Mod}
    (horder : (flatten order).toFinset = s.lists.makePublishMap onlineFds)
    (hmem : (fd, mod) ∈ flatten order) : (fd, mod) ∈ s.lists.pubList ∧ fd ∈ onlineFds := by
  have hcopy : (fd, mod) ∈ s.lists.makePublishMap onlineFds := by
    rw [← horder]
    exact List.mem_toFinset.mpr hmem
  exact SubscribeList.mem_makePublishMap.mp hcopy

section Loops

variable [DecidableEq L]

theorem PushInv.openConn (hinv : PushInv s) (l : L) {fd : Fd} :
    PushInv { s with
      conns := Function.update s.conns fd (some s.nextConn)
      nextConn := s.nextConn + 1
      listenFds := Function.update s.listenFds l (insert fd (s.listenFds l)) } := by
  constructor
  · intro p hp hopen hserved
    by_cases hfd : p.fd = fd
    · -- the new connection has no pair yet
      simp only [hfd, Function.update_self, Option.some.injEq] at hopen
      exact absurd (hinv.earlier p hp).1 (by rw [hopen]; exact Nat.lt_irrefl _)
    · simp only [Function.update_of_ne hfd] at hopen
      have hkept := hinv.kept p hp hopen hserved
      exact ⟨hkept.listed, hkept.fits⟩
  · intro p hp
    obtain ⟨hconn, htime⟩ := hinv.earlier p hp
    exact ⟨Nat.lt_succ_of_lt hconn, htime⟩
  · intro fd' conn hconn
    by_cases hfd : fd' = fd
    · simp only [hfd, Function.update_self, Option.some.injEq] at hconn
      rw [← hconn]
      exact Nat.lt_succ_self _
    · simp only [Function.update_of_ne hfd] at hconn
      exact Nat.lt_succ_of_lt (hinv.opened fd' conn hconn)

/-- A loop goes on, to a place that fits. -/
theorem Kept.setTask {p : Published} (hkept : s.Kept p) (l : L)
    {t : TaskState} (hfits : t.Fits p) : (s.setTask l t).Kept p := by
  refine ⟨hkept.listed, ?_⟩
  intro l'
  by_cases hl : l' = l
  · simp only [PushState.setTask, hl, Function.update_self]
    exact hfits
  · simp only [PushState.setTask, Function.update_of_ne hl]
    exact hkept.fits l'

/-- A step of a task that touches nothing else. -/
theorem PushInv.setTask (hinv : PushInv s) (l : L) {t : TaskState}
    (hfits : ∀ p ∈ s.published, s.conns p.fd = some p.conn → s.Kept p → t.Fits p) :
    PushInv (s.setTask l t) := by
  refine ⟨?_, hinv.earlier, hinv.opened⟩
  intro p hp hopen hserved
  have hkept := hinv.kept p hp hopen hserved
  exact hkept.setTask l (hfits p hp hopen hkept)

/-! ## The steps of a task -/

theorem PushInv.makePublishMap (hinv : PushInv s) {l : L} {order : List (Fd × List Mod)}
    {fds : Finset Fd} (hguard : s.LosesNothing (.makePublishMap l order))
    (htask : s.task l = .online fds)
    (horder : (flatten order).toFinset = s.lists.makePublishMap fds) :
    PushInv (s.setTask l (.sending (flatten order))) := by
  apply hinv.setTask
  intro p hp hopen hkept mod hmod
  obtain ⟨hlisted, honline⟩ := mem_flatten horder hmod
  exact hguard fds htask p.fd honline (by rw [hopen]; simp) p.mod mod hkept.listed hlisted

theorem PushInv.getHosts (hinv : PushInv s) {l : L} {fd : Fd} {mod : Mod}
    {queue : List (Fd × Mod)} (hosts : HostSet)
    (htask : s.task l = .sending ((fd, mod) :: queue)) :
    PushInv (s.setTask l (.hostsRead fd mod hosts s.clock queue)) := by
  apply hinv.setTask
  intro p hp hopen hkept
  have hfits := hkept.fits l
  rw [htask] at hfits
  constructor
  · rintro rfl
    exact ⟨hfits mod List.mem_cons_self, (hinv.earlier p hp).2⟩
  · intro mod' hmod'
    exact hfits mod' (List.mem_cons_of_mem _ hmod')

theorem PushInv.sendMessage (hinv : PushInv s) {l : L} {ret : Int} {fd : Fd} {mod : Mod}
    {hosts : HostSet} {readAt : Nat} {queue : List (Fd × Mod)} {sent : List Sent}
    (hguard : s.LosesNothing (.sendMessage l ret))
    (htask : s.task l = .hostsRead fd mod hosts readAt queue)
    (hsent : ∀ conn, s.conns fd = some conn → ret = 0 →
      ⟨conn, response mod hosts, readAt⟩ ∈ sent) :
    PushInv ({ s with sent := s.sent ++ sent }.setTask l (.messageSent fd mod readAt queue)) := by
  refine ⟨?_, hinv.earlier, hinv.opened⟩
  intro p hp hopen hserved
  have hbefore : ¬ s.Served p := by
    rintro ⟨m, hm, hrest⟩
    exact hserved ⟨m, List.mem_append_left _ hm, hrest⟩
  have hkept := hinv.kept p hp hopen hbefore
  have hfits := hkept.fits l
  rw [htask] at hfits
  have hother : fd ≠ p.fd := by
    rintro rfl
    have hconn : s.conns p.fd = some p.conn := hopen
    obtain ⟨hmod, htime⟩ := hfits.1 rfl
    obtain ⟨hret, hsign⟩ := hguard _ mod hosts readAt queue htask (by rw [hconn]; simp)
    refine hserved ⟨_, List.mem_append_right _ (hsent p.conn hconn hret), rfl, ?_, htime⟩
    rw [← hmod]
    exact (pack_unpack_iff mod).mpr hsign
  have hkept' : Kept { s with sent := s.sent ++ sent } p := ⟨hkept.listed, hkept.fits⟩
  exact hkept'.setTask l ⟨hother, hfits.2⟩

theorem PushInv.erase (hinv : PushInv s) {l : L} {fd : Fd} {mod : Mod} {readAt : Nat}
    {queue : List (Fd × Mod)} (htask : s.task l = .messageSent fd mod readAt queue) :
    PushInv ({ s with lists := s.lists.erase fd }.setTask l (.sending queue)) := by
  refine ⟨?_, hinv.earlier, hinv.opened⟩
  intro p hp hopen hserved
  have hkept := hinv.kept p hp hopen hserved
  have hfits := hkept.fits l
  rw [htask] at hfits
  have hkept' : Kept { s with lists := s.lists.erase fd } p :=
    ⟨SubscribeList.mem_erase.mpr ⟨hkept.listed, fun hfd => hfits.1 hfd.symm⟩, hkept.fits⟩
  exact hkept'.setTask l hfits.2

/-- One step keeps the invariant. -/
theorem PushInv.next (hinv : PushInv s) {label : PushLabel L} {s' : PushState L}
    (hguard : s.LosesNothing label) (hnext : s.next label = some s') : PushInv s' := by
  cases label with
  | subscribe mod fd =>
    cases hnext
    exact hinv.frame rfl rfl rfl rfl rfl rfl rfl
  | unSubscribe mod fd =>
    cases hnext
    exact hinv.frame (s.lists.unSubscribe_pubList mod fd) rfl rfl rfl rfl rfl rfl
  | openConn l fd =>
    obtain ⟨-, rfl⟩ := openConn_cases hnext
    exact hinv.openConn l
  | closeConn fd =>
    cases hnext
    exact hinv.closeConn fd
  | newRoute route =>
    cases hnext
    exact hinv.frame rfl rfl rfl rfl rfl rfl rfl
  | publish changeMods =>
    cases hnext
    exact hinv.publish hguard
  | sendTask =>
    obtain ⟨-, rfl⟩ := sendTask_cases hnext
    exact hinv.frame rfl rfl rfl rfl rfl rfl rfl
  | getListenFds l =>
    obtain ⟨-, -, rfl⟩ := getListenFds_cases hnext
    have hcounted : PushInv { s with tasks := Function.update s.tasks l (s.tasks l - 1) } :=
      hinv.frame rfl rfl rfl rfl rfl rfl rfl
    exact hcounted.setTask l fun p _ _ _ => trivial
  | makePublishMap l order =>
    obtain ⟨fds, htask, -, -, horder, rfl⟩ := makePublishMap_cases hnext
    exact hinv.makePublishMap hguard htask horder
  | getHosts l =>
    obtain ⟨fd, mod, queue, htask, rfl⟩ := getHosts_cases hnext
    exact hinv.getHosts _ htask
  | sendMessage l ret =>
    obtain ⟨fd, mod, hosts, readAt, queue, sent, htask, hsent, rfl⟩ := sendMessage_cases hnext
    apply hinv.sendMessage hguard htask
    intro conn hconn hret
    exact (hsent _).mpr ⟨conn, hconn, hret, rfl⟩
  | erase l =>
    obtain ⟨fd, mod, readAt, queue, htask, rfl⟩ := erase_cases hnext
    exact hinv.erase htask
  | finish l =>
    obtain ⟨-, rfl⟩ := finish_cases hnext
    exact hinv.setTask l fun p _ _ _ => trivial

/-- **A pushed change is sent before it is forgotten**, for any number of loops and any
    order of steps that loses nothing. -/
theorem push_delivers {route : RouteMap} {labels : List (PushLabel L)} {s' : PushState L}
    (hrun : Run (Guarded LosesNothing (ofOption next)) (create route) labels s') :
    s'.Delivers := by
  have hinv : PushInv s' := by
    apply Run.invariant _ hrun (pushInv_create route)
    rintro t label t' ht ⟨hguard, hnext⟩
    exact ht.next hguard hnext
  exact hinv.delivers

end Loops

/-! ### One loop, and a connection on descriptor 9 -/

/-- One changed module is sent. -/
theorem push_delivers_one :
    ∃ s : PushState Unit,
      Run (Guarded LosesNothing (ofOption next)) (create Route.emptyMap)
        [.openConn () 9, .subscribe 0x100000001 9, .publish [0x100000001], .sendTask,
          .getListenFds (), .makePublishMap () [(9, [0x100000001])], .getHosts (),
          .sendMessage () 0, .erase (), .finish ()] s ∧ s.Delivers := by
  have hrun : ∃ s : PushState Unit,
      Run (Guarded LosesNothing (ofOption next)) (create Route.emptyMap)
        [.openConn () 9, .subscribe 0x100000001 9, .publish [0x100000001], .sendTask,
          .getListenFds (), .makePublishMap () [(9, [0x100000001])], .getHosts (),
          .sendMessage () 0, .erase (), .finish ()] s := by
    refine ⟨_, Run.cons ⟨trivial, rfl⟩ (Run.cons ⟨trivial, rfl⟩ (Run.cons ⟨?_, rfl⟩
      (Run.cons ⟨trivial, rfl⟩ (Run.cons ⟨trivial, rfl⟩ (Run.cons ⟨?_, rfl⟩
      (Run.cons ⟨trivial, rfl⟩ (Run.cons ⟨?_, rfl⟩ (Run.cons ⟨trivial, rfl⟩
      (Run.cons ⟨trivial, rfl⟩ (Run.nil _))))))))))⟩
    · exact fun _ _ _ _ _ => trivial
    · rintro fds - fd - - mod mod' hmod hmod'
      have hone : ∀ m, (fd, m) ∈ ((SubscribeList.empty.subscribe 0x100000001 9).publish
          [0x100000001]).pubList → m = 0x100000001 := by
        intro m hm
        rcases SubscribeList.mem_publish.mp hm with hnone | ⟨hm, -⟩
        · exact absurd hnone (Finset.notMem_empty _)
        · exact List.mem_singleton.mp hm
      exact (hone mod' hmod').trans (hone mod hmod).symm
    · rintro fd mod hosts readAt queue htask -
      change TaskState.hostsRead 9 0x100000001 [] 1 [] = _ at htask
      cases htask
      exact ⟨rfl, rfl⟩
  obtain ⟨s, hs⟩ := hrun
  exact ⟨s, hs, push_delivers hs⟩

/-- Two modules change at once: after the first message the second is forgotten. -/
theorem second_module_forgotten :
    ∃ s : PushState Unit,
      Run (ofOption next) (create Route.emptyMap)
        [.openConn () 9, .subscribe 0x100000001 9, .subscribe 0x100000002 9,
          .publish [0x100000001, 0x100000002], .sendTask, .getListenFds (),
          .makePublishMap () [(9, [0x100000001, 0x100000002])], .getHosts (),
          .sendMessage () 0, .erase ()] s ∧ ¬ s.Delivers := by
  refine ⟨_, run_of_foldlM rfl, ?_⟩
  intro hdelivers
  have hlost := hdelivers ⟨9, 0x100000002, 0, 1⟩
    (Or.inr ⟨⟨by decide, {9}, rfl, Finset.mem_singleton_self 9⟩, rfl, rfl⟩) rfl
  rcases hlost with hlisted | ⟨m, hm, -, hmod, -⟩
  · exact absurd hlisted (by decide)
  · -- the only message is for the first module
    change m ∈ [(⟨0, ⟨1, 1, []⟩, 1⟩ : Sent)] at hm
    rw [List.mem_singleton.mp hm] at hmod
    exact absurd hmod (by decide)

end PushState

end LarsSystem.Dns
