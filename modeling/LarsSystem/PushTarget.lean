import LarsSystem.ClientSubscription
import LarsSystem.PushDelivery

/-!
# Whom a push reaches

The connections with their own sets, and the push tasks of the loops, in one
state. `pub_list` is keyed by descriptor and outlives the connection it was
filled for, so that a connection which gets the descriptor afterwards can be
sent modules it never asked for. In a run in which no new connection finds its
descriptor in `pub_list` or in a task's copy, a push reaches only a connection
that has subscribed to what it is sent.
-/

namespace LarsSystem.Dns

open LarsSystem.MachineWord
open LarsSystem.Transition

/-- The service with its push tasks. `asked` has the modules that each connection has
    subscribed to by a request. -/
structure PushService (L : Type) where
  push : PushState L
  clients : Fd → Option Client
  asked : Set (ConnId × Mod)

inductive PushServiceLabel (L : Type) where
  | openConn (l : L) (fd : Fd)
  | getRequest (fd : Fd) (mod : Mod)
  | subscribe (fd : Fd)
  | clearSubscribe (fd : Fd) (order : List Mod)
  | unSubscribe (fd : Fd)
  | deleteParam (fd : Fd)
  | closeFd (fd : Fd)
  | newRoute (route : RouteMap)
  | publish (changeMods : List Mod)
  | sendTask
  | getListenFds (l : L)
  | makePublishMap (l : L) (order : List (Fd × List Mod))
  | getHosts (l : L)
  | sendMessage (l : L) (ret : Int)
  | erase (l : L)
  | finish (l : L)

namespace PushService

variable {L : Type}

/-- The connections' side of the state. -/
def service (s : PushService L) : DnsService := ⟨s.push.lists, s.clients⟩

def setService (s : PushService L) (service : DnsService) : PushService L :=
  { s with push := { s.push with lists := service.lists }, clients := service.clients }

/-- The modules that the connection on the descriptor subscribes to in this step. -/
def asks (s : PushService L) (fd : Fd) : Set (ConnId × Mod) :=
  { pair | ∃ param, s.clients fd = some ⟨param, .subscribing pair.2⟩ ∧
    s.push.conns fd = some pair.1 }

variable [DecidableEq L]

def create (route : RouteMap) : PushService L := ⟨PushState.create route, fun _ => none, ∅⟩

/-- One step of a connection's thread, of `publish`, or of a task. -/
def next (s : PushService L) : PushServiceLabel L → Option (PushService L)
  | .openConn l fd =>
    (s.service.next (.createSubscribe fd)).bind fun service =>
      (s.push.next (.openConn l fd)).map fun push =>
        { s with push := push, clients := service.clients }
  | .getRequest fd mod => (s.service.next (.getRequest fd mod)).map s.setService
  | .subscribe fd =>
    (s.service.next (.subscribe fd)).map fun service =>
      { s.setService service with asked := s.asked ∪ s.asks fd }
  | .clearSubscribe fd order => (s.service.next (.clearSubscribe fd order)).map s.setService
  | .unSubscribe fd => (s.service.next (.unSubscribe fd)).map s.setService
  | .deleteParam fd => (s.service.next (.deleteParam fd)).map s.setService
  | .closeFd fd =>
    (s.service.next (.closeFd fd)).bind fun service =>
      (s.push.next (.closeConn fd)).map fun push =>
        { s with push := push, clients := service.clients }
  | .newRoute route => (s.push.next (.newRoute route)).map fun push => { s with push := push }
  | .publish changeMods =>
    (s.push.next (.publish changeMods)).map fun push => { s with push := push }
  | .sendTask => (s.push.next .sendTask).map fun push => { s with push := push }
  | .getListenFds l => (s.push.next (.getListenFds l)).map fun push => { s with push := push }
  | .makePublishMap l order =>
    (s.push.next (.makePublishMap l order)).map fun push => { s with push := push }
  | .getHosts l => (s.push.next (.getHosts l)).map fun push => { s with push := push }
  | .sendMessage l ret =>
    (s.push.next (.sendMessage l ret)).map fun push => { s with push := push }
  | .erase l => (s.push.next (.erase l)).map fun push => { s with push := push }
  | .finish l => (s.push.next (.finish l)).map fun push => { s with push := push }

end PushService

/-! ## What is promised, and when it holds -/

/-- The pairs a task still has in its copy. -/
def TaskState.Holds (t : TaskState) (fd : Fd) (mod : Mod) : Prop :=
  match t with
  | .sending queue => (fd, mod) ∈ queue
  | .hostsRead fd' mod' _ _ queue => (fd', mod') = (fd, mod) ∨ (fd, mod) ∈ queue
  | .messageSent _ _ _ queue => (fd, mod) ∈ queue
  | _ => False

namespace PushService

variable {L : Type} {s : PushService L}

/-- **What pushing promises**, in every state: whatever was sent to a connection is of a module
    that the connection has subscribed to. -/
def ReachesSubscribers (s : PushService L) : Prop :=
  ∀ m ∈ s.push.sent, (m.conn, pack m.rsp.modid m.rsp.cmdid) ∈ s.asked

/-- A new connection finds nothing that was put in for an earlier one, and no module is sent
    whose lower half is negative. -/
def NothingLeft (s : PushService L) : PushServiceLabel L → Prop
  | .openConn _ fd => ∀ mod, (fd, mod) ∉ s.push.lists.pubList ∧
    ∀ l, ¬ (s.push.task l).Holds fd mod
  | .sendMessage l _ => ∀ fd mod hosts readAt queue,
    s.push.task l = .hostsRead fd mod hosts readAt queue → s.push.conns fd ≠ none →
    (unpackLow mod).msb = false
  | _ => True

/-! ## The invariant -/

/-- Whatever connection is on the descriptor has subscribed to the module. -/
def Asked (s : PushService L) (fd : Fd) (mod : Mod) : Prop :=
  ∀ conn, s.push.conns fd = some conn → (conn, mod) ∈ s.asked

structure TargetInv (s : PushService L) : Prop where
  service : s.service.ServiceInv
  together : ∀ fd, s.clients fd = none ↔ s.push.conns fd = none
  listed : ∀ mod fd, s.push.lists.Has mod fd → s.Asked fd mod
  published : ∀ fd mod, (fd, mod) ∈ s.push.lists.pubList → s.Asked fd mod
  copied : ∀ l fd mod, (s.push.task l).Holds fd mod → s.Asked fd mod
  reaches : s.ReachesSubscribers

/-- What only depends on some of the fields. -/
theorem TargetInv.frame {s' : PushService L} (hinv : TargetInv s)
    (hlists : s'.push.lists = s.push.lists) (hclients : s'.clients = s.clients)
    (hconns : s'.push.conns = s.push.conns) (hasked : s'.asked = s.asked)
    (hcopied : ∀ l fd mod, (s'.push.task l).Holds fd mod → s'.Asked fd mod)
    (hreaches : s'.ReachesSubscribers) : TargetInv s' := by
  have hsame : ∀ fd mod, s.Asked fd mod → s'.Asked fd mod := by
    intro fd mod h conn hconn
    rw [hconns] at hconn
    rw [hasked]
    exact h conn hconn
  refine ⟨?_, ?_, ?_, ?_, hcopied, hreaches⟩
  · unfold PushService.service
    rw [hlists, hclients]
    exact hinv.service
  · rw [hclients, hconns]
    exact hinv.together
  · rw [hlists]
    exact fun mod fd h => hsame fd mod (hinv.listed mod fd h)
  · rw [hlists]
    exact fun fd mod h => hsame fd mod (hinv.published fd mod h)

theorem targetInv_create (route : RouteMap) : TargetInv (create route : PushService L) := by
  refine ⟨DnsService.serviceInv_create, fun _ => iff_of_true rfl rfl, ?_, ?_, ?_, ?_⟩
  · rintro mod fd ⟨fds, hfds, -⟩
    cases hfds
  · intro fd mod hmem
    exact absurd hmem (Finset.notMem_empty _)
  · intro l fd mod hholds
    exact hholds.elim
  · intro m hm
    exact absurd hm List.not_mem_nil

/-! ## The steps of a connection's thread on its set -/

/-- A step on the connection's own set and `sub_list`. -/
theorem TargetInv.setService (hinv : TargetInv s) {service : DnsService}
    {asked : Set (ConnId × Mod)} (hinv' : service.ServiceInv)
    (hclients : ∀ fd, service.clients fd = none ↔ s.clients fd = none)
    (hpub : service.lists.pubList = s.push.lists.pubList) (hmore : s.asked ⊆ asked)
    (hlisted : ∀ mod fd, service.lists.Has mod fd → ∀ conn, s.push.conns fd = some conn →
      (conn, mod) ∈ asked) :
    TargetInv { s.setService service with asked := asked } := by
  refine ⟨hinv', fun fd => (hclients fd).trans (hinv.together fd), hlisted, ?_, ?_, ?_⟩
  · intro fd mod hmem conn hconn
    have hmem' : (fd, mod) ∈ s.push.lists.pubList := hpub ▸ hmem
    exact hmore (hinv.published fd mod hmem' conn hconn)
  · intro l fd mod hholds conn hconn
    exact hmore (hinv.copied l fd mod hholds conn hconn)
  · intro m hm
    exact hmore (hinv.reaches m hm)

/-- Which connections are open does not change with what their threads do. -/
theorem clients_setClient {service : DnsService} {fd : Fd} {client client' : Client}
    (hclient : service.clients fd = some client) (fd' : Fd) :
    (service.setClient fd client').clients fd' = none ↔ service.clients fd' = none := by
  by_cases hfd : fd' = fd
  · subst hfd
    simp only [DnsService.setClient, Function.update_self, hclient]
    exact iff_of_false (by simp) (by simp)
  · simp only [DnsService.setClient, Function.update_of_ne hfd]

/-- A step that subscribes to nothing. -/
theorem TargetInv.ownStep (hinv : TargetInv s) {service : DnsService} {label : ServiceLabel}
    (hservice : s.service.next label = some service)
    (hclients : ∀ fd, service.clients fd = none ↔ s.clients fd = none)
    (hpub : service.lists.pubList = s.push.lists.pubList)
    (hlists : ∀ mod fd, service.lists.Has mod fd → s.push.lists.Has mod fd) :
    TargetInv (s.setService service) :=
  hinv.setService (hinv.service.next hservice) hclients hpub (Set.Subset.refl _)
    fun mod fd hhas => hinv.listed mod fd (hlists mod fd hhas)

theorem TargetInv.getRequest (hinv : TargetInv s) {fd : Fd} {mod : Mod} {service : DnsService}
    (hservice : s.service.next (.getRequest fd mod) = some service) :
    TargetInv (s.setService service) := by
  rcases DnsService.getRequest_cases hservice with
    ⟨mods, hclient, ⟨-, rfl⟩ | ⟨-, rfl⟩⟩ | ⟨-, rfl⟩
  · exact hinv.ownStep hservice (fun _ => Iff.rfl) rfl fun _ _ h => h
  · exact hinv.ownStep hservice (clients_setClient hclient) rfl fun _ _ h => h
  · exact hinv.ownStep hservice (fun _ => Iff.rfl) rfl fun _ _ h => h

theorem TargetInv.subscribe (hinv : TargetInv s) {fd : Fd} {service : DnsService}
    (hservice : s.service.next (.subscribe fd) = some service) :
    TargetInv { s.setService service with asked := s.asked ∪ s.asks fd } := by
  obtain ⟨param, mod, hclient, rfl⟩ := DnsService.subscribe_cases hservice
  refine hinv.setService (hinv.service.next hservice) (clients_setClient hclient) rfl
    Set.subset_union_left ?_
  intro mod' fd' hhas conn hconn
  rcases SubscribeList.has_subscribe.mp hhas with ⟨rfl, rfl⟩ | hold
  · exact Or.inr ⟨param, hclient, hconn⟩
  · exact Or.inl (hinv.listed mod' fd' hold conn hconn)

theorem TargetInv.clearSubscribe (hinv : TargetInv s) {fd : Fd} {order : List Mod}
    {service : DnsService}
    (hservice : s.service.next (.clearSubscribe fd order) = some service) :
    TargetInv (s.setService service) := by
  obtain ⟨mods, hclient, -, -, rfl⟩ := DnsService.clearSubscribe_cases hservice
  exact hinv.ownStep hservice (clients_setClient hclient) rfl fun _ _ h => h

theorem TargetInv.unSubscribe (hinv : TargetInv s) {fd : Fd} {service : DnsService}
    (hservice : s.service.next (.unSubscribe fd) = some service) :
    TargetInv (s.setService service) := by
  obtain ⟨param, mod, rest, hclient, rfl⟩ := DnsService.unSubscribe_cases hservice
  refine hinv.ownStep hservice (clients_setClient hclient)
    (s.push.lists.unSubscribe_pubList mod fd) ?_
  intro mod' fd' hhas
  exact (SubscribeList.has_unSubscribe.mp hhas).1

theorem TargetInv.deleteParam (hinv : TargetInv s) {fd : Fd} {service : DnsService}
    (hservice : s.service.next (.deleteParam fd) = some service) :
    TargetInv (s.setService service) := by
  obtain ⟨param, hclient, rfl⟩ := DnsService.deleteParam_cases hservice
  exact hinv.ownStep hservice (clients_setClient hclient) rfl fun _ _ h => h

theorem TargetInv.publish (hinv : TargetInv s) (changeMods : List Mod) :
    TargetInv { s with push := { s.push with
      lists := s.push.lists.publish changeMods
      unnotified := s.push.unnotified + 1
      clock := s.push.clock + 1
      published := s.push.published ∪ s.push.records changeMods } } := by
  refine ⟨⟨hinv.service.listed, hinv.service.wellFormed, hinv.service.nonempty⟩,
    hinv.together, hinv.listed, ?_, hinv.copied, hinv.reaches⟩
  intro fd mod hmem
  rcases SubscribeList.mem_publish.mp hmem with hold | ⟨-, hhas⟩
  · exact hinv.published fd mod hold
  · exact hinv.listed mod fd hhas

section Loops

variable [DecidableEq L]

theorem TargetInv.openConn (hinv : TargetInv s) {l : L} {fd : Fd} {service : DnsService}
    {push : PushState L} (hguard : s.NothingLeft (.openConn l fd))
    (hservice : s.service.next (.createSubscribe fd) = some service)
    (hpush : s.push.next (.openConn l fd) = some push) :
    TargetInv { s with push := push, clients := service.clients } := by
  have hinv' := hinv.service.next hservice
  obtain ⟨hnone, rfl⟩ := DnsService.createSubscribe_cases hservice
  obtain ⟨-, rfl⟩ := PushState.openConn_cases hpush
  -- the descriptor has no entry anywhere
  have hasked : ∀ fd' mod, fd' ≠ fd → s.Asked fd' mod → ∀ conn,
      Function.update s.push.conns fd (some s.push.nextConn) fd' = some conn →
      (conn, mod) ∈ s.asked := by
    intro fd' mod hne h conn hconn
    rw [Function.update_of_ne hne] at hconn
    exact h conn hconn
  refine ⟨hinv', ?_, ?_, ?_, ?_, hinv.reaches⟩
  · intro fd'
    by_cases hfd : fd' = fd
    · subst hfd
      simp [DnsService.setClient]
    · simp only [DnsService.setClient, Function.update_of_ne hfd]
      exact hinv.together fd'
  · intro mod fd' hhas
    have hne : fd' ≠ fd := by
      rintro rfl
      exact hinv.service.has_none hnone mod hhas
    exact hasked fd' mod hne (hinv.listed mod fd' hhas)
  · intro fd' mod hmem
    have hne : fd' ≠ fd := by
      rintro rfl
      exact (hguard mod).1 hmem
    exact hasked fd' mod hne (hinv.published fd' mod hmem)
  · intro l' fd' mod hholds
    have hne : fd' ≠ fd := by
      rintro rfl
      exact (hguard mod).2 l' hholds
    exact hasked fd' mod hne (hinv.copied l' fd' mod hholds)

theorem TargetInv.closeFd (hinv : TargetInv s) {fd : Fd} {service : DnsService}
    {push : PushState L} (hservice : s.service.next (.closeFd fd) = some service)
    (hpush : s.push.next (.closeConn fd) = some push) :
    TargetInv { s with push := push, clients := service.clients } := by
  have hinv' := hinv.service.next hservice
  obtain ⟨param, -, rfl⟩ := DnsService.closeFd_cases hservice
  cases hpush
  -- a closed descriptor has no connection to speak of
  have hasked : ∀ fd' mod, s.Asked fd' mod → ∀ conn,
      Function.update s.push.conns fd none fd' = some conn → (conn, mod) ∈ s.asked := by
    intro fd' mod h conn hconn
    by_cases hfd : fd' = fd
    · rw [hfd, Function.update_self] at hconn
      cases hconn
    · rw [Function.update_of_ne hfd] at hconn
      exact h conn hconn
  refine ⟨hinv', ?_, ?_, ?_, ?_, hinv.reaches⟩
  · intro fd'
    by_cases hfd : fd' = fd
    · subst hfd
      simp only [Function.update_self]
    · simp only [Function.update_of_ne hfd]
      exact hinv.together fd'
  · exact fun mod fd' hhas => hasked fd' mod (hinv.listed mod fd' hhas)
  · exact fun fd' mod hmem => hasked fd' mod (hinv.published fd' mod hmem)
  · exact fun l fd' mod hholds => hasked fd' mod (hinv.copied l fd' mod hholds)

/-! ## The steps of a task -/

/-- A task goes on with pairs that it had before or finds in `pub_list`. -/
theorem TargetInv.setTask (hinv : TargetInv s) {l : L} {t : TaskState}
    (hholds : ∀ fd mod, t.Holds fd mod → s.Asked fd mod) :
    TargetInv { s with push := s.push.setTask l t } := by
  refine hinv.frame rfl rfl rfl rfl ?_ hinv.reaches
  intro l' fd mod hholds'
  by_cases hl : l' = l
  · simp only [PushState.setTask, hl, Function.update_self] at hholds'
    exact hholds fd mod hholds'
  · simp only [PushState.setTask, Function.update_of_ne hl] at hholds'
    exact hinv.copied l' fd mod hholds'

theorem TargetInv.getListenFds (hinv : TargetInv s) {l : L} {push : PushState L}
    (hpush : s.push.next (.getListenFds l) = some push) :
    TargetInv { s with push := push } := by
  obtain ⟨-, -, rfl⟩ := PushState.getListenFds_cases hpush
  have hcounted : TargetInv { s with push := { s.push with
      tasks := Function.update s.push.tasks l (s.push.tasks l - 1) } } :=
    hinv.frame rfl rfl rfl rfl hinv.copied hinv.reaches
  exact hcounted.setTask fun fd mod hholds => hholds.elim

theorem TargetInv.makePublishMap (hinv : TargetInv s) {l : L} {order : List (Fd × List Mod)}
    {push : PushState L} (hpush : s.push.next (.makePublishMap l order) = some push) :
    TargetInv { s with push := push } := by
  obtain ⟨fds, -, -, -, horder, rfl⟩ := PushState.makePublishMap_cases hpush
  apply hinv.setTask
  intro fd mod hholds
  exact hinv.published fd mod (PushState.mem_flatten horder hholds).1

theorem TargetInv.getHosts (hinv : TargetInv s) {l : L} {push : PushState L}
    (hpush : s.push.next (.getHosts l) = some push) : TargetInv { s with push := push } := by
  obtain ⟨fd, mod, queue, htask, rfl⟩ := PushState.getHosts_cases hpush
  apply hinv.setTask
  intro fd' mod' hholds
  apply hinv.copied l fd' mod'
  rw [htask]
  rcases hholds with heq | hrest
  · exact heq ▸ List.mem_cons_self
  · exact List.mem_cons_of_mem _ hrest

/-- What is sent goes to the connection that is on the descriptor now. -/
theorem TargetInv.sendMessage (hinv : TargetInv s) {l : L} {ret : Int} {push : PushState L}
    (hguard : s.NothingLeft (.sendMessage l ret))
    (hpush : s.push.next (.sendMessage l ret) = some push) :
    TargetInv { s with push := push } := by
  obtain ⟨fd, mod, hosts, readAt, queue, sent, htask, hsent, rfl⟩ :=
    PushState.sendMessage_cases hpush
  have hasked : s.Asked fd mod := by
    apply hinv.copied l fd mod
    rw [htask]
    exact Or.inl rfl
  have hqueue : ∀ fd' mod', (fd', mod') ∈ queue → s.Asked fd' mod' := by
    intro fd' mod' hmem
    apply hinv.copied l fd' mod'
    rw [htask]
    exact Or.inr hmem
  have hlogged : TargetInv { s with push := { s.push with sent := s.push.sent ++ sent } } := by
    refine hinv.frame rfl rfl rfl rfl hinv.copied ?_
    intro m hm
    rcases List.mem_append.mp hm with hold | hnew
    · exact hinv.reaches m hold
    · obtain ⟨conn, hconn, -, rfl⟩ := (hsent m).mp hnew
      have hsign := hguard fd mod hosts readAt queue htask (by rw [hconn]; simp)
      have hkey : pack (unpackHigh mod) (unpackLow mod) = mod := (pack_unpack_iff mod).mpr hsign
      change (conn, pack (unpackHigh mod) (unpackLow mod)) ∈ s.asked
      rw [hkey]
      exact hasked conn hconn
  exact hlogged.setTask hqueue

theorem TargetInv.erase (hinv : TargetInv s) {l : L} {push : PushState L}
    (hpush : s.push.next (.erase l) = some push) : TargetInv { s with push := push } := by
  obtain ⟨fd, mod, readAt, queue, htask, rfl⟩ := PushState.erase_cases hpush
  have herased : TargetInv { s with push := { s.push with
      lists := s.push.lists.erase fd } } := by
    refine ⟨⟨hinv.service.listed, hinv.service.wellFormed, hinv.service.nonempty⟩,
      hinv.together, hinv.listed, ?_, hinv.copied, hinv.reaches⟩
    intro fd' mod' hmem
    exact hinv.published fd' mod' (SubscribeList.mem_erase.mp hmem).1
  apply herased.setTask
  intro fd' mod' hholds
  apply hinv.copied l fd' mod'
  rw [htask]
  exact hholds

theorem TargetInv.finish (hinv : TargetInv s) {l : L} {push : PushState L}
    (hpush : s.push.next (.finish l) = some push) : TargetInv { s with push := push } := by
  obtain ⟨-, rfl⟩ := PushState.finish_cases hpush
  exact hinv.setTask fun fd mod hholds => hholds.elim

theorem TargetInv.sendTask (hinv : TargetInv s) {push : PushState L}
    (hpush : s.push.next .sendTask = some push) : TargetInv { s with push := push } := by
  obtain ⟨-, rfl⟩ := PushState.sendTask_cases hpush
  exact hinv.frame rfl rfl rfl rfl hinv.copied hinv.reaches

/-- One step keeps the invariant. -/
theorem TargetInv.next (hinv : TargetInv s) {label : PushServiceLabel L} {s' : PushService L}
    (hguard : s.NothingLeft label) (hnext : s.next label = some s') : TargetInv s' := by
  cases label with
  | openConn l fd =>
    obtain ⟨service, hservice, hmap⟩ := Option.bind_eq_some_iff.mp hnext
    obtain ⟨push, hpush, rfl⟩ := Option.map_eq_some_iff.mp hmap
    exact hinv.openConn hguard hservice hpush
  | getRequest fd mod =>
    obtain ⟨service, hservice, rfl⟩ := Option.map_eq_some_iff.mp hnext
    exact hinv.getRequest hservice
  | subscribe fd =>
    obtain ⟨service, hservice, rfl⟩ := Option.map_eq_some_iff.mp hnext
    exact hinv.subscribe hservice
  | clearSubscribe fd order =>
    obtain ⟨service, hservice, rfl⟩ := Option.map_eq_some_iff.mp hnext
    exact hinv.clearSubscribe hservice
  | unSubscribe fd =>
    obtain ⟨service, hservice, rfl⟩ := Option.map_eq_some_iff.mp hnext
    exact hinv.unSubscribe hservice
  | deleteParam fd =>
    obtain ⟨service, hservice, rfl⟩ := Option.map_eq_some_iff.mp hnext
    exact hinv.deleteParam hservice
  | closeFd fd =>
    obtain ⟨service, hservice, hmap⟩ := Option.bind_eq_some_iff.mp hnext
    obtain ⟨push, hpush, rfl⟩ := Option.map_eq_some_iff.mp hmap
    exact hinv.closeFd hservice hpush
  | newRoute route =>
    cases hnext
    exact hinv.frame rfl rfl rfl rfl hinv.copied hinv.reaches
  | publish changeMods =>
    cases hnext
    exact hinv.publish changeMods
  | sendTask =>
    obtain ⟨push, hpush, rfl⟩ := Option.map_eq_some_iff.mp hnext
    exact hinv.sendTask hpush
  | getListenFds l =>
    obtain ⟨push, hpush, rfl⟩ := Option.map_eq_some_iff.mp hnext
    exact hinv.getListenFds hpush
  | makePublishMap l order =>
    obtain ⟨push, hpush, rfl⟩ := Option.map_eq_some_iff.mp hnext
    exact hinv.makePublishMap hpush
  | getHosts l =>
    obtain ⟨push, hpush, rfl⟩ := Option.map_eq_some_iff.mp hnext
    exact hinv.getHosts hpush
  | sendMessage l ret =>
    obtain ⟨push, hpush, rfl⟩ := Option.map_eq_some_iff.mp hnext
    exact hinv.sendMessage hguard hpush
  | erase l =>
    obtain ⟨push, hpush, rfl⟩ := Option.map_eq_some_iff.mp hnext
    exact hinv.erase hpush
  | finish l =>
    obtain ⟨push, hpush, rfl⟩ := Option.map_eq_some_iff.mp hnext
    exact hinv.finish hpush

/-- **A push reaches only subscribers**, for any number of loops and any order of steps in
    which no connection finds something left for an earlier one. -/
theorem push_reaches_subscribers {route : RouteMap} {labels : List (PushServiceLabel L)}
    {s' : PushService L}
    (hrun : Run (Guarded NothingLeft (ofOption next)) (create route) labels s') :
    s'.ReachesSubscribers := by
  have hinv : TargetInv s' := by
    apply Run.invariant _ hrun (targetInv_create route)
    rintro t label t' ht ⟨hguard, hnext⟩
    exact ht.next hguard hnext
  exact hinv.reaches

end Loops

/-! ### One loop, and descriptor 9 -/

/-- A subscriber is sent its module. -/
theorem push_reaches_one :
    ∃ s : PushService Unit,
      Run (Guarded NothingLeft (ofOption next)) (create Route.emptyMap)
        [.openConn () 9, .getRequest 9 0x100000001, .subscribe 9, .publish [0x100000001],
          .sendTask, .getListenFds (), .makePublishMap () [(9, [0x100000001])], .getHosts (),
          .sendMessage () 0] s ∧ s.push.sent ≠ [] ∧ s.ReachesSubscribers := by
  have hrun : ∃ s : PushService Unit,
      Run (Guarded NothingLeft (ofOption next)) (create Route.emptyMap)
        [.openConn () 9, .getRequest 9 0x100000001, .subscribe 9, .publish [0x100000001],
          .sendTask, .getListenFds (), .makePublishMap () [(9, [0x100000001])], .getHosts (),
          .sendMessage () 0] s ∧ s.push.sent = [⟨0, ⟨1, 1, []⟩, 1⟩] := by
    refine ⟨_, Run.cons ⟨?_, rfl⟩ (Run.cons ⟨trivial, rfl⟩ (Run.cons ⟨trivial, rfl⟩
      (Run.cons ⟨trivial, rfl⟩ (Run.cons ⟨trivial, rfl⟩ (Run.cons ⟨trivial, rfl⟩
      (Run.cons ⟨trivial, rfl⟩ (Run.cons ⟨trivial, rfl⟩ (Run.cons ⟨?_, rfl⟩
      (Run.nil _))))))))), rfl⟩
    · exact fun mod => ⟨Finset.notMem_empty _, fun _ hholds => hholds⟩
    · rintro fd mod hosts readAt queue htask -
      change TaskState.hostsRead 9 0x100000001 [] 1 [] = _ at htask
      cases htask
      rfl
  obtain ⟨s, hs, hsent⟩ := hrun
  exact ⟨s, hs, by rw [hsent]; simp, push_reaches_subscribers hs⟩

/-- A subscriber goes after a publish, and the next connection on its descriptor, which has
    asked for nothing, is sent its module. -/
theorem stranger_is_pushed :
    ∃ s : PushService Unit,
      Run (ofOption next) (create Route.emptyMap)
        [.openConn () 9, .getRequest 9 0x100000001, .subscribe 9, .publish [0x100000001],
          .sendTask, .clearSubscribe 9 [0x100000001], .unSubscribe 9, .deleteParam 9, .closeFd 9,
          .openConn () 9, .getListenFds (), .makePublishMap () [(9, [0x100000001])],
          .getHosts (), .sendMessage () 0] s ∧ ¬ s.ReachesSubscribers := by
  refine ⟨_, run_of_foldlM rfl, ?_⟩
  intro hreaches
  have hasked := hreaches ⟨1, ⟨1, 1, []⟩, 1⟩ (List.mem_singleton.mpr rfl)
  rcases hasked with hnone | ⟨param, -, hconn⟩
  · exact hnone
  · -- the only connection that subscribed was the first
    change some 0 = some 1 at hconn
    cases hconn

end PushService

end LarsSystem.Dns
