import LarsSystem.PushTarget

/-!
# The loops behind the push tasks

A connection belongs to one loop, which runs its callbacks and its push tasks one
after another. So a task has descriptors of its own loop in its copy, and while it
runs nothing else happens on their connections. As every publish is followed by a
`send_task`, a pair that is still to be served has a task to come, which takes the
pair along, or has it already.
-/

namespace LarsSystem.Dns

open LarsSystem.MachineWord
open LarsSystem.Transition

def TaskState.isIdle : TaskState → Bool
  | .idle => true
  | _ => false

theorem TaskState.isIdle_iff {t : TaskState} : t.isIdle ↔ t = .idle := by
  cases t <;> simp [TaskState.isIdle]

/-- The task is going to send something to the descriptor, or is at it. -/
def TaskState.About (fd : Fd) : TaskState → Prop
  | .idle => False
  | .online fds => fd ∈ fds
  | .sending queue => ∃ mod, (fd, mod) ∈ queue
  | .hostsRead fd' _ _ _ queue => fd' = fd ∨ ∃ mod, (fd, mod) ∈ queue
  | .messageSent fd' _ _ queue => fd' = fd ∨ ∃ mod, (fd, mod) ∈ queue

/-- The task has the pair to send, or will find it in `pub_list`. -/
def TaskState.Comes (fd : Fd) (mod : Mod) (t : TaskState) : Prop :=
  match t with
  | .online fds => fd ∈ fds
  | t => t.Holds fd mod

/-- The task has read no hosts after the publish with the number. -/
def TaskState.ReadBy (clock : Nat) : TaskState → Prop
  | .hostsRead _ _ _ readAt _ => readAt ≤ clock
  | _ => True

theorem TaskState.ReadBy.mono {t : TaskState} {clock clock' : Nat} (hread : t.ReadBy clock)
    (hle : clock ≤ clock') : t.ReadBy clock' := by
  cases t with
  | hostsRead fd mod hosts readAt queue => exact le_trans hread hle
  | _ => trivial

/-- `send_task` hands a task over, or a task goes on. -/
def PushLabel.Pushes {L : Type} : PushLabel L → Prop
  | .sendTask => True
  | .getListenFds _ => True
  | .makePublishMap _ _ => True
  | .getHosts _ => True
  | .sendMessage _ _ => True
  | .erase _ => True
  | .finish _ => True
  | _ => False

instance {L : Type} (label : PushLabel L) : Decidable label.Pushes := by
  cases label <;> unfold PushLabel.Pushes <;> infer_instance

namespace PushState

variable {L : Type} {s s' : PushState L}

/-- A task that takes the pair of the descriptor along is to be sent, waits on its loop, or
    runs there. -/
def Coming (s : PushState L) (fd : Fd) (mod : Mod) : Prop :=
  0 < s.unnotified ∨ ∃ l, fd ∈ s.listenFds l ∧ (0 < s.tasks l ∨ (s.task l).Comes fd mod)

/-- Connections come and go between the tasks of their loop. -/
def OnLoop (s : PushState L) : PushLabel L → Prop
  | .openConn l _ => s.task l = .idle
  | .closeConn fd => ∀ l, fd ∈ s.listenFds l → s.task l = .idle
  | _ => True

/-- What a step of a task that sends nothing leaves as it was, and what it reads. -/
structure TaskStep (s s' : PushState L) (label : PushLabel L) : Prop where
  route : s'.route = s.route
  clock : s'.clock = s.clock
  published : s'.published = s.published
  sent : s'.sent = s.sent
  conns : s'.conns = s.conns
  listenFds : s'.listenFds = s.listenFds
  subList : s'.lists.subList = s.lists.subList
  busy : ∀ l, s'.task l ≠ .idle → s.task l ≠ .idle ∨ label = .getListenFds l
  reads : ∀ l fd mod hosts readAt queue, s'.task l = .hostsRead fd mod hosts readAt queue →
    s.task l = .hostsRead fd mod hosts readAt queue ∨
      readAt = s.clock ∧ hosts = Route.getHosts s.route (unpackHigh mod) (unpackLow mod)

/-! ## The invariant -/

structure LoopInv (s : PushState L) : Prop where
  one : ∀ l l' fd, fd ∈ s.listenFds l → fd ∈ s.listenFds l' → l = l'
  listens : ∀ fd, s.conns fd ≠ none ↔ ∃ l, fd ∈ s.listenFds l
  distinct : ∀ fd fd' conn, s.conns fd = some conn → s.conns fd' = some conn → fd = fd'
  held : ∀ l fd, (s.task l).About fd → fd ∈ s.listenFds l
  sent : ∀ m ∈ s.sent, m.readAt ≤ s.clock
  read : ∀ l, (s.task l).ReadBy s.clock

/-- What the lists, the route and the tasks to come are is not part of it. -/
theorem LoopInv.frame (hinv : LoopInv s) (hlisten : s'.listenFds = s.listenFds)
    (hconns : s'.conns = s.conns) (htask : s'.task = s.task) (hsent : s'.sent = s.sent)
    (hclock : s.clock ≤ s'.clock) : LoopInv s' := by
  refine ⟨?_, ?_, ?_, ?_, ?_, ?_⟩
  · rw [hlisten]
    exact hinv.one
  · rw [hlisten, hconns]
    exact hinv.listens
  · rw [hconns]
    exact hinv.distinct
  · rw [hlisten, htask]
    exact hinv.held
  · intro m hm
    exact le_trans (hinv.sent m (hsent ▸ hm)) hclock
  · intro l
    rw [htask]
    exact (hinv.read l).mono hclock

theorem LoopInv.send (hinv : LoopInv s) {sent : List Sent}
    (hsent : ∀ m ∈ sent, m.readAt ≤ s.clock) : LoopInv { s with sent := s.sent ++ sent } := by
  refine ⟨hinv.one, hinv.listens, hinv.distinct, hinv.held, ?_, hinv.read⟩
  intro m hm
  rcases List.mem_append.mp hm with hold | hnew
  · exact hinv.sent m hold
  · exact hsent m hnew

theorem LoopInv.closeConn (hinv : LoopInv s) {fd : Fd}
    (hloop : ∀ l, fd ∈ s.listenFds l → s.task l = .idle) :
    LoopInv { s with
      conns := Function.update s.conns fd none
      listenFds := fun l => (s.listenFds l).erase fd } := by
  refine ⟨?_, ?_, ?_, ?_, hinv.sent, hinv.read⟩
  · intro l l' fd' hl hl'
    exact hinv.one l l' fd' (Finset.mem_of_mem_erase hl) (Finset.mem_of_mem_erase hl')
  · intro fd'
    by_cases hfd : fd' = fd
    · subst hfd
      simp
    · simp only [Function.update_of_ne hfd, hinv.listens fd', Finset.mem_erase, ne_eq, hfd,
        not_false_eq_true, true_and]
  · intro fd' fd'' conn hconn hconn'
    have hstill : ∀ x, Function.update s.conns fd none x = some conn → s.conns x = some conn := by
      intro x hx
      by_cases hxfd : x = fd
      · rw [hxfd, Function.update_self] at hx
        cases hx
      · rwa [Function.update_of_ne hxfd] at hx
    exact hinv.distinct fd' fd'' conn (hstill _ hconn) (hstill _ hconn')
  · intro l fd' habout
    have hmem := hinv.held l fd' habout
    refine Finset.mem_erase.mpr ⟨?_, hmem⟩
    rintro rfl
    -- the loop of a connection that closes runs no task
    simp only [hloop l hmem] at habout
    exact habout

/-! ## A task to come -/

/-- **A pair that is still to be served has a task to come.** -/
def Underway (s : PushState L) : Prop :=
  ∀ p ∈ s.published, s.conns p.fd = some p.conn → ¬ s.Served p → s.Coming p.fd p.mod

/-- A task comes for a connection while its loop has it. -/
theorem Coming.mono {fd : Fd} {mod : Mod} (hcoming : s.Coming fd mod)
    (hunnotified : s'.unnotified = s.unnotified) (htasks : s'.tasks = s.tasks)
    (htask : s'.task = s.task) (hlisten : ∀ l, fd ∈ s.listenFds l → fd ∈ s'.listenFds l) :
    s'.Coming fd mod := by
  unfold Coming
  rw [hunnotified, htasks, htask]
  rcases hcoming with hleft | ⟨l, hmem, hcomes⟩
  · exact Or.inl hleft
  · exact Or.inr ⟨l, hlisten l hmem, hcomes⟩

section Loops

variable [DecidableEq L]

theorem LoopInv.openConn (hinv : LoopInv s) (hopened : ∀ fd conn, s.conns fd = some conn →
    conn < s.nextConn) (l : L) {fd : Fd} (hnone : s.conns fd = none) :
    LoopInv { s with
      conns := Function.update s.conns fd (some s.nextConn)
      nextConn := s.nextConn + 1
      listenFds := Function.update s.listenFds l (insert fd (s.listenFds l)) } := by
  have hnowhere : ∀ l', fd ∉ s.listenFds l' := by
    intro l' hmem
    exact (hinv.listens fd).mpr ⟨l', hmem⟩ hnone
  have hmem_iff : ∀ l' fd', fd' ∈ Function.update s.listenFds l (insert fd (s.listenFds l)) l' ↔
      l' = l ∧ fd' = fd ∨ fd' ∈ s.listenFds l' := by
    intro l' fd'
    by_cases hl : l' = l
    · subst hl
      simp
    · simp [hl]
  refine ⟨?_, ?_, ?_, ?_, hinv.sent, hinv.read⟩
  · intro l' l'' fd' hl' hl''
    rcases (hmem_iff l' fd').mp hl' with ⟨rfl, rfl⟩ | hold
    · rcases (hmem_iff l'' _).mp hl'' with ⟨rfl, -⟩ | hold'
      · rfl
      · exact absurd hold' (hnowhere l'')
    · rcases (hmem_iff l'' fd').mp hl'' with ⟨rfl, rfl⟩ | hold'
      · exact absurd hold (hnowhere l')
      · exact hinv.one l' l'' fd' hold hold'
  · intro fd'
    by_cases hfd : fd' = fd
    · subst hfd
      simp only [Function.update_self]
      exact iff_of_true (by simp) ⟨l, (hmem_iff l fd').mpr (Or.inl ⟨rfl, rfl⟩)⟩
    · simp only [Function.update_of_ne hfd, hinv.listens fd', hmem_iff, hfd, and_false, false_or]
  · intro fd' fd'' conn hconn hconn'
    by_cases hfd : fd' = fd <;> by_cases hfd' : fd'' = fd
    · exact hfd.trans hfd'.symm
    · simp only [hfd, Function.update_self, Option.some.injEq] at hconn
      simp only [Function.update_of_ne hfd'] at hconn'
      exact absurd (hopened _ _ hconn') (by rw [hconn]; exact lt_irrefl _)
    · simp only [hfd', Function.update_self, Option.some.injEq] at hconn'
      simp only [Function.update_of_ne hfd] at hconn
      exact absurd (hopened _ _ hconn) (by rw [hconn']; exact lt_irrefl _)
    · simp only [Function.update_of_ne hfd] at hconn
      simp only [Function.update_of_ne hfd'] at hconn'
      exact hinv.distinct _ _ _ hconn hconn'
  · intro l' fd' habout
    exact (hmem_iff l' fd').mpr (Or.inr (hinv.held l' fd' habout))

/-- A loop goes on with its task. -/
theorem LoopInv.setTask (hinv : LoopInv s) (l : L) {t : TaskState}
    (habout : ∀ fd, t.About fd → fd ∈ s.listenFds l) (hread : t.ReadBy s.clock) :
    LoopInv (s.setTask l t) := by
  refine ⟨hinv.one, hinv.listens, hinv.distinct, ?_, hinv.sent, ?_⟩
  · apply (Function.forall_update_iff s.task fun l' t =>
      ∀ fd, t.About fd → fd ∈ s.listenFds l').mpr
    exact ⟨habout, fun l' _ => hinv.held l'⟩
  · apply (Function.forall_update_iff s.task fun _ t => t.ReadBy s.clock).mpr
    exact ⟨hread, fun l' _ => hinv.read l'⟩

/-- One step keeps the invariant. -/
theorem LoopInv.next (hinv : LoopInv s) (hpush : PushInv s) {label : PushLabel L}
    (hloop : s.OnLoop label) (hnext : s.next label = some s') : LoopInv s' := by
  cases label with
  | subscribe mod fd =>
    cases hnext
    exact hinv.frame rfl rfl rfl rfl le_rfl
  | unSubscribe mod fd =>
    cases hnext
    exact hinv.frame rfl rfl rfl rfl le_rfl
  | openConn l fd =>
    obtain ⟨hnone, rfl⟩ := openConn_cases hnext
    exact hinv.openConn hpush.opened l hnone
  | closeConn fd =>
    cases hnext
    exact hinv.closeConn hloop
  | newRoute route =>
    cases hnext
    exact hinv.frame rfl rfl rfl rfl le_rfl
  | publish changeMods =>
    cases hnext
    exact hinv.frame rfl rfl rfl rfl (Nat.le_succ _)
  | sendTask =>
    obtain ⟨-, rfl⟩ := sendTask_cases hnext
    exact hinv.frame rfl rfl rfl rfl le_rfl
  | getListenFds l =>
    obtain ⟨-, -, rfl⟩ := getListenFds_cases hnext
    have hcounted : LoopInv { s with tasks := Function.update s.tasks l (s.tasks l - 1) } :=
      hinv.frame rfl rfl rfl rfl le_rfl
    exact hcounted.setTask l (fun fd hmem => hmem) trivial
  | makePublishMap l order =>
    obtain ⟨fds, htask, -, -, horder, rfl⟩ := makePublishMap_cases hnext
    refine hinv.setTask l ?_ trivial
    rintro fd ⟨mod, hmod⟩
    have honline := (mem_flatten horder hmod).2
    exact hinv.held l fd (by simpa only [htask, TaskState.About] using honline)
  | getHosts l =>
    obtain ⟨fd, mod, queue, htask, rfl⟩ := getHosts_cases hnext
    refine hinv.setTask l ?_ le_rfl
    intro fd' habout
    apply hinv.held l fd'
    simp only [htask, TaskState.About]
    rcases habout with rfl | ⟨mod', hmod'⟩
    · exact ⟨mod, List.mem_cons_self⟩
    · exact ⟨mod', List.mem_cons_of_mem _ hmod'⟩
  | sendMessage l ret =>
    obtain ⟨fd, mod, hosts, readAt, queue, sent, htask, hsent, rfl⟩ := sendMessage_cases hnext
    have hreadAt : readAt ≤ s.clock := by
      simpa only [htask, TaskState.ReadBy] using hinv.read l
    refine LoopInv.setTask (hinv.send ?_) l ?_ trivial
    · intro m hm
      obtain ⟨conn, -, -, rfl⟩ := (hsent m).mp hm
      exact hreadAt
    · intro fd' habout
      apply hinv.held l fd'
      simpa only [htask, TaskState.About] using habout
  | erase l =>
    obtain ⟨fd, mod, readAt, queue, htask, rfl⟩ := erase_cases hnext
    have herased : LoopInv { s with lists := s.lists.erase fd } :=
      hinv.frame rfl rfl rfl rfl le_rfl
    refine herased.setTask l ?_ trivial
    intro fd' habout
    apply hinv.held l fd'
    simp only [htask, TaskState.About]
    exact Or.inr habout
  | finish l =>
    obtain ⟨-, rfl⟩ := finish_cases hnext
    exact hinv.setTask l (fun fd habout => habout.elim) trivial

/-- The tasks of the other loops go on as they were. -/
theorem Coming.setTask {fd : Fd} {mod : Mod} (hcoming : s.Coming fd mod) (l : L) {t : TaskState}
    (hcomes : fd ∈ s.listenFds l → (s.task l).Comes fd mod → t.Comes fd mod) :
    (s.setTask l t).Coming fd mod := by
  rcases hcoming with hunnotified | ⟨l', hlisten, hwaits | hcoming⟩
  · exact Or.inl hunnotified
  · exact Or.inr ⟨l', hlisten, Or.inl hwaits⟩
  · refine Or.inr ⟨l', hlisten, Or.inr ?_⟩
    by_cases hl : l' = l
    · subst hl
      simp only [PushState.setTask, Function.update_self]
      exact hcomes hlisten hcoming
    · simp only [PushState.setTask, Function.update_of_ne hl]
      exact hcoming

theorem taskStep_setTask {lists : SubscribeList} (hsub : lists.subList = s.lists.subList)
    {unnotified : Nat} {tasks : L → Nat} {label : PushLabel L} (l : L) {t : TaskState}
    (hbusy : t ≠ .idle → s.task l ≠ .idle ∨ label = .getListenFds l)
    (hreads : ∀ fd mod hosts readAt queue, t = .hostsRead fd mod hosts readAt queue →
      readAt = s.clock ∧ hosts = Route.getHosts s.route (unpackHigh mod) (unpackLow mod)) :
    TaskStep s ({ s with lists := lists, unnotified := unnotified, tasks := tasks }.setTask l t)
      label := by
  refine ⟨rfl, rfl, rfl, rfl, rfl, rfl, hsub, ?_, ?_⟩
  · apply (Function.forall_update_iff s.task fun l' t =>
      t ≠ .idle → s.task l' ≠ .idle ∨ label = .getListenFds l').mpr
    exact ⟨hbusy, fun _ _ => Or.inl⟩
  · apply (Function.forall_update_iff s.task fun l' t => ∀ fd mod hosts readAt queue,
      t = .hostsRead fd mod hosts readAt queue → s.task l' = .hostsRead fd mod hosts readAt queue ∨
        readAt = s.clock ∧ hosts = Route.getHosts s.route (unpackHigh mod) (unpackLow mod)).mpr
    exact ⟨fun fd mod hosts readAt queue h => Or.inr (hreads fd mod hosts readAt queue h),
      fun _ _ _ _ _ _ _ => Or.inl⟩

theorem taskStep_of_next {label : PushLabel L} (hpushes : label.Pushes)
    (hsends : ∀ l ret, label ≠ .sendMessage l ret) (hnext : s.next label = some s') :
    TaskStep s s' label := by
  cases label with
  | sendTask =>
    obtain ⟨-, rfl⟩ := sendTask_cases hnext
    exact ⟨rfl, rfl, rfl, rfl, rfl, rfl, rfl, fun _ => Or.inl, fun _ _ _ _ _ _ => Or.inl⟩
  | getListenFds l =>
    obtain ⟨-, -, rfl⟩ := getListenFds_cases hnext
    exact taskStep_setTask rfl l (fun _ => Or.inr rfl) (by simp)
  | makePublishMap l order =>
    obtain ⟨fds, htask, -, -, -, rfl⟩ := makePublishMap_cases hnext
    exact taskStep_setTask rfl l (fun _ => Or.inl (by simp [htask])) (by simp)
  | getHosts l =>
    obtain ⟨fd, mod, queue, htask, rfl⟩ := getHosts_cases hnext
    refine taskStep_setTask rfl l (fun _ => Or.inl (by simp [htask])) ?_
    intro fd' mod' hosts readAt queue' hread
    cases hread
    exact ⟨rfl, rfl⟩
  | sendMessage l ret => exact absurd rfl (hsends l ret)
  | erase l =>
    obtain ⟨fd, mod, readAt, queue, htask, rfl⟩ := erase_cases hnext
    have hsub : (s.lists.erase fd).subList = s.lists.subList := rfl
    exact taskStep_setTask hsub l (fun _ => Or.inl (by simp [htask])) (by simp)
  | finish l =>
    obtain ⟨-, rfl⟩ := finish_cases hnext
    exact taskStep_setTask rfl l (fun h => absurd rfl h) (by simp)
  | _ => exact hpushes.elim

/-! ### The labels one by one

`Underway` is kept by each step, where a task that goes on leaves nothing unserved
behind. What is published is for connections that were open before. -/

section Labels

variable (hunderway : s.Underway)
include hunderway

/-- A task that goes on has every pair that it had. -/
theorem Underway.setTask (l : L) {t : TaskState}
    (hcomes : ∀ p ∈ s.published, s.conns p.fd = some p.conn → ¬ s.Served p →
      (s.task l).Comes p.fd p.mod → t.Comes p.fd p.mod) : (s.setTask l t).Underway := by
  intro p hp hopen hserved
  exact (hunderway p hp hopen hserved).setTask l fun _ => hcomes p hp hopen hserved

theorem Underway.openConn (hpush : PushInv s) {l : L} {fd : Fd}
    (hnext : s.next (.openConn l fd) = some s') : s'.Underway := by
  obtain ⟨-, rfl⟩ := openConn_cases hnext
  intro p hp hopen hserved
  have hfd : p.fd ≠ fd := by
    rintro rfl
    simp only [Function.update_self, Option.some.injEq] at hopen
    exact absurd (hpush.earlier p hp).1 (by rw [hopen]; exact lt_irrefl _)
  simp only [Function.update_of_ne hfd] at hopen
  refine (hunderway p hp hopen hserved).mono rfl rfl rfl ?_
  intro l' hmem
  by_cases hl : l' = l
  · subst hl
    simp only [Function.update_self]
    exact Finset.mem_insert_of_mem hmem
  · simp only [Function.update_of_ne hl]
    exact hmem

theorem Underway.closeConn {fd : Fd} (hnext : s.next (.closeConn fd) = some s') :
    s'.Underway := by
  cases hnext
  intro p hp hopen hserved
  have hfd : p.fd ≠ fd := by
    rintro rfl
    simp only [Function.update_self] at hopen
    cases hopen
  simp only [Function.update_of_ne hfd] at hopen
  refine (hunderway p hp hopen hserved).mono rfl rfl rfl ?_
  exact fun l' hmem => Finset.mem_erase.mpr ⟨hfd, hmem⟩

omit hunderway in
/-- Every loop gets a task. -/
theorem underway_sendTask (hlisten : LoopInv s) (hnext : s.next .sendTask = some s') :
    s'.Underway := by
  obtain ⟨-, rfl⟩ := sendTask_cases hnext
  intro p hp hopen hserved
  have hopen' : s.conns p.fd = some p.conn := hopen
  obtain ⟨l, hmem⟩ := (hlisten.listens p.fd).mp (by simp [hopen'])
  exact Or.inr ⟨l, hmem, Or.inl (Nat.succ_pos _)⟩

/-- The task that a loop begins comes for all of its descriptors. -/
theorem Underway.getListenFds {l : L} (hnext : s.next (.getListenFds l) = some s') :
    s'.Underway := by
  obtain ⟨-, -, rfl⟩ := getListenFds_cases hnext
  intro p hp hopen hserved
  rcases hunderway p hp hopen hserved with hunnotified | ⟨l', hmem, hcoming⟩
  · exact Or.inl hunnotified
  · refine Or.inr ⟨l', hmem, ?_⟩
    by_cases hl : l' = l
    · subst hl
      simp only [PushState.setTask, Function.update_self]
      exact Or.inr hmem
    · simp only [PushState.setTask, Function.update_of_ne hl]
      exact hcoming

/-- A pair of an online descriptor is in `pub_list` until it is served, so that the copy has it. -/
theorem Underway.makePublishMap (hpush : PushInv s) {l : L} {order : List (Fd × List Mod)}
    (hnext : s.next (.makePublishMap l order) = some s') : s'.Underway := by
  obtain ⟨fds, htask, -, -, horder, rfl⟩ := makePublishMap_cases hnext
  apply hunderway.setTask l
  intro p hp hopen hserved hcomes
  simp only [htask, TaskState.Comes] at hcomes
  have hcopied : (p.fd, p.mod) ∈ (flatten order).toFinset := by
    rw [horder]
    exact SubscribeList.mem_makePublishMap.mpr ⟨(hpush.kept p hp hopen hserved).listed, hcomes⟩
  exact List.mem_toFinset.mp hcopied

theorem Underway.getHosts {l : L} (hnext : s.next (.getHosts l) = some s') : s'.Underway := by
  obtain ⟨fd, mod, queue, htask, rfl⟩ := getHosts_cases hnext
  apply hunderway.setTask l
  intro p hp hopen hserved hcomes
  simp only [htask, TaskState.Comes, TaskState.Holds, List.mem_cons] at hcomes
  exact hcomes.imp_left Eq.symm

/-- The pair that is sent is served. -/
theorem Underway.sendMessage (hpush : PushInv s) {l : L} {ret : Int}
    (hguard : s.LosesNothing (.sendMessage l ret))
    (hnext : s.next (.sendMessage l ret) = some s') : s'.Underway := by
  have hkept := hpush.next hguard hnext
  obtain ⟨fd, mod, hosts, readAt, queue, sent, htask, -, rfl⟩ := sendMessage_cases hnext
  intro p hp hopen hserved
  have hbefore : s.Coming p.fd p.mod := by
    apply hunderway p hp hopen
    rintro ⟨m, hm, hserves⟩
    exact hserved ⟨m, List.mem_append_left _ hm, hserves⟩
  apply Coming.setTask hbefore l
  intro _ hcomes
  simp only [htask, TaskState.Comes, TaskState.Holds] at hcomes
  rcases hcomes with hhere | hqueue
  · have hfits := (hkept.kept p hp hopen hserved).fits l
    simp only [PushState.setTask, Function.update_self, TaskState.Fits] at hfits
    exact absurd (Prod.mk.inj hhere).1 hfits.1
  · exact hqueue

theorem Underway.erase {l : L} (hnext : s.next (.erase l) = some s') : s'.Underway := by
  obtain ⟨fd, mod, readAt, queue, htask, rfl⟩ := erase_cases hnext
  have herased : Underway { s with lists := s.lists.erase fd } := hunderway
  apply herased.setTask l
  intro p hp hopen hserved hcomes
  simpa only [htask, TaskState.Comes, TaskState.Holds] using hcomes

theorem Underway.finish {l : L} (hnext : s.next (.finish l) = some s') : s'.Underway := by
  obtain ⟨htask, rfl⟩ := finish_cases hnext
  apply hunderway.setTask l
  intro p hp hopen hserved hcomes
  simp only [htask, TaskState.Comes, TaskState.Holds, List.not_mem_nil] at hcomes

/-- One step. -/
theorem Underway.next (hpush : PushInv s) (hlisten : LoopInv s) {label : PushLabel L}
    (hguard : s.LosesNothing label) (hnext : s.next label = some s') : s'.Underway := by
  cases label with
  | subscribe mod fd =>
    cases hnext
    exact hunderway
  | unSubscribe mod fd =>
    cases hnext
    exact hunderway
  | openConn l fd => exact hunderway.openConn hpush hnext
  | closeConn fd => exact hunderway.closeConn hnext
  | newRoute route =>
    cases hnext
    exact hunderway
  | publish changeMods =>
    cases hnext
    exact fun p hp hopen hserved => Or.inl (Nat.succ_pos _)
  | sendTask => exact underway_sendTask hlisten hnext
  | getListenFds l => exact hunderway.getListenFds hnext
  | makePublishMap l order => exact hunderway.makePublishMap hpush hnext
  | getHosts l => exact hunderway.getHosts hnext
  | sendMessage l ret => exact hunderway.sendMessage hpush hguard hnext
  | erase l => exact hunderway.erase hnext
  | finish l => exact hunderway.finish hnext

end Labels

end Loops

end PushState

end LarsSystem.Dns
