import LarsSystem.RouteUpdates

/-!
# What the agents were told last

Where a response was read after the last change of its module, it is the table's.
Where it was read before, the swap that brought the change is followed by a publish,
which finds the connection subscribed; the push that follows has read the map after
the publish, and as a loop does one thing at a time, it is sent after the response
it replaces. So what a connection was told last is either the table's or will be
replaced.
-/

namespace LarsSystem.Dns

open LarsSystem.MachineWord
open LarsSystem.Transition

namespace RouteUpdates

variable {L : Type} {s s' : RouteUpdates L}

/-! ## What is promised -/

/-- No row comes late for the monitor or before it starts, and the pushes lose nothing. -/
def LosesNothing (s : RouteUpdates L) : UpdatesLabel L → Prop
  | .monitor label => s.monitor.NoLateChange label ∧ s.monitor.FindsNoChange label ∧
      s.push.LosesNothing (s.toPush label s.monitor)
  | .push label => s.push.LosesNothing label
  | _ => True

/-! ## The invariant -/

/-- The response was sent last for its module, or is about to be sent. -/
def Has (s : RouteUpdates L) (fd : Fd) (answer : Answer) : Prop :=
  s.order.Told fd answer ∨ s.latest fd answer.mod ≠ none ∧ ∃ l mod hosts queue,
    s.push.task l = .hostsRead fd mod hosts answer.readAt queue ∧
    answer.rsp = PushState.response mod hosts

/-- The response has what the map has, or a publish of its module is to come, or there was one
    after it was read. -/
def Current (s : RouteUpdates L) (fd : Fd) (answer : Answer) : Prop :=
  (∃ map : RouteMap, answer.rsp.hosts = (map answer.mod).map HostEntry.ofKey ∧
    (SameHosts map s.monitor.route.data answer.mod ∨
      s.monitor.Owes s.unannounced answer.mod)) ∨
  ∃ p ∈ s.push.published, p.fd = fd ∧ p.mod = answer.mod ∧ s.push.conns fd = some p.conn ∧
    answer.readAt < p.time

/-- A response of an open connection is current, and nothing that was read later has been pushed
    to the connection for its module. -/
structure Answered (s : RouteUpdates L) (fd : Fd) (answer : Answer) : Prop where
  current : s.order.Open fd → s.Current fd answer
  readAt : answer.readAt ≤ s.push.clock
  newest : ∀ m ∈ s.push.sent, s.push.conns fd = some m.conn →
    pack m.rsp.modid m.rsp.cmdid = answer.mod → m.readAt ≤ answer.readAt

structure UpdatesInv (s : RouteUpdates L) : Prop where
  notice : s.monitor.NoticeInv s.unannounced
  map : s.push.route = s.monitor.route.data
  push : s.push.PushInv
  loops : s.push.LoopInv
  underway : s.push.Underway
  order : s.order.OrderInv
  together : ∀ fd, s.clients fd = none ↔ s.push.conns fd = none
  resting : ∀ l, s.push.task l ≠ .idle → ∀ fd ∈ s.push.listenFds l, s.rests fd
  named : ∀ fd mod answer, s.latest fd mod = some answer → answer.mod = mod
  answers : ∀ fd answer, s.Has fd answer → s.Answered fd answer

/-- A connection that was told nothing and waits for nothing has no response. -/
theorem not_has {fd : Fd} {answer : Answer} (hasking : s.asking fd = .idle)
    (hlatest : ∀ mod, s.latest fd mod = none) : ¬ s.Has fd answer := by
  rintro ((htold | hanswering) | ⟨hsome, -⟩)
  · cases (hlatest _).symm.trans htold
  · cases hasking.symm.trans hanswering
  · exact hsome (hlatest _)

/-- A thread at rest is not answering, and its connection is open. -/
theorem rests_iff {fd : Fd} :
    s.rests fd ↔ s.asking fd = .idle ∧ ∃ param, s.clients fd = some ⟨param, .waiting⟩ := by
  unfold rests
  split
  · rename_i param hasking hclient
    exact iff_of_true rfl ⟨hasking, param, hclient⟩
  · rename_i hother
    refine iff_of_false (by simp) ?_
    rintro ⟨hasking, param, hclient⟩
    exact hother param hasking hclient

/-- Where the parts that it is about are the same, what is said of a response stays. -/
theorem Answered.keep {fd : Fd} {answer : Answer} (hanswered : s.Answered fd answer)
    (hmonitor : s'.monitor = s.monitor) (hunannounced : s'.unannounced = s.unannounced)
    (hpublished : s'.push.published = s.push.published) (hclock : s'.push.clock = s.push.clock)
    (hsent : s'.push.sent = s.push.sent) (hconns : s'.push.conns fd = s.push.conns fd)
    (hopen : s'.order.Open fd → s.order.Open fd) : s'.Answered fd answer := by
  refine ⟨?_, ?_, ?_⟩
  · intro hopen'
    have hcurrent := hanswered.current (hopen hopen')
    unfold Current at hcurrent ⊢
    rw [hmonitor, hunannounced, hpublished, hconns]
    exact hcurrent
  · rw [hclock]
    exact hanswered.readAt
  · rw [hsent, hconns]
    exact hanswered.newest

/-- What has just been read is the newest there is. -/
theorem UpdatesInv.fresh (hinv : UpdatesInv s) (fd : Fd) {answer : Answer}
    (hfresh : s.order.Fresh answer) : s.Answered fd answer := by
  obtain ⟨hreadAt, hhosts⟩ := hfresh
  change answer.readAt = s.push.clock at hreadAt
  change answer.rsp.hosts = (s.push.route answer.mod).map HostEntry.ofKey at hhosts
  refine ⟨fun _ => Or.inl ⟨s.push.route, hhosts, Or.inl ?_⟩, hreadAt.le, ?_⟩
  · rw [hinv.map]
    exact sameHosts_refl _ _
  · intro m hm _ _
    rw [hreadAt]
    exact hinv.loops.sent m hm

/-- The descriptor of a response that a task is about to send is on the task's loop. -/
theorem UpdatesInv.reading (hinv : UpdatesInv s) {l : L} {fd : Fd} {mod : Mod} {hosts : HostSet}
    {readAt : Nat} {queue : List (Fd × Mod)}
    (htask : s.push.task l = .hostsRead fd mod hosts readAt queue) : fd ∈ s.push.listenFds l := by
  apply hinv.loops.held l fd
  simp only [htask, TaskState.About, true_or]

/-! ## The steps of the connections -/

theorem setOrder_order {order : RequestOrder} (hroute : order.route = s.push.route)
    (hswaps : order.swaps = s.push.clock) : (s.setOrder order).order = order := by
  obtain ⟨service, route, swaps, asking, latest⟩ := order
  obtain rfl : route = s.push.route := hroute
  obtain rfl : swaps = s.push.clock := hswaps
  rfl

/-- The threads of the other connections are where they were. -/
theorem rests_of_same {fd : Fd} (hasking : s'.asking fd = s.asking fd)
    (hclients : s'.clients fd = s.clients fd) : s'.rests fd = s.rests fd := by
  unfold rests
  rw [hasking, hclients]

/-- A step within a request or a close, between the tasks of the loop. -/
theorem UpdatesInv.connection (hinv : UpdatesInv s) {l : L} {fd : Fd} {order : RequestOrder}
    (hthread : RequestOrder.ThreadStep s.order order fd) (horder : order.OrderInv)
    (hlisten : fd ∈ s.push.listenFds l) (hidle : s.push.task l = .idle) :
    UpdatesInv (s.setOrder order) := by
  have heq : (s.setOrder order).order = order := setOrder_order hthread.route hthread.swaps
  have hother : ∀ l' fd', s.push.task l' ≠ .idle → fd' ∈ s.push.listenFds l' → fd' ≠ fd := by
    rintro l' fd' hbusy hmem rfl
    cases hinv.loops.one l' l fd' hmem hlisten
    exact hbusy hidle
  refine ⟨hinv.notice, hinv.map, hinv.push.frame hthread.pubList rfl rfl rfl rfl rfl rfl,
    hinv.loops.frame rfl rfl rfl rfl le_rfl, hinv.underway, heq ▸ horder, ?_, ?_, ?_, ?_⟩
  · intro fd'
    refine Iff.trans ?_ (hinv.together fd')
    by_cases hfd : fd' = fd
    · subst hfd
      obtain ⟨client, client', hclient, hclient', -⟩ := hthread.opened
      exact iff_of_false (fun hnone => by cases hclient'.symm.trans hnone)
        (fun hnone => by cases hclient.symm.trans hnone)
    · exact iff_of_eq (congrArg (· = none) (hthread.clients fd' hfd))
  · intro l' hbusy fd' hmem
    have hfd := hother l' fd' hbusy hmem
    rw [rests_of_same (s := s) (hthread.asking fd' hfd) (hthread.clients fd' hfd)]
    exact hinv.resting l' hbusy fd' hmem
  · intro fd' mod answer hlatest
    by_cases hfd : fd' = fd
    · subst hfd
      rcases hthread.named mod answer hlatest with hold | hmod
      · exact hinv.named fd' mod answer hold
      · exact hmod
    · exact hinv.named fd' mod answer ((congrFun (hthread.latest fd' hfd) mod).symm.trans hlatest)
  · intro fd' answer hhas
    have hanswered : s.Answered fd' answer := by
      by_cases hfd : fd' = fd
      · subst hfd
        rcases hhas with htold | ⟨-, l', mod, hosts, queue, htask, -⟩
        · rcases hthread.answers answer (heq ▸ htold) with hold | hfresh
          · exact hinv.answers fd' answer (Or.inl hold)
          · exact hinv.fresh fd' hfresh
        · have hbusy : s.push.task l' ≠ .idle := by
            change s.push.task l' = _ at htask
            rw [htask]
            simp
          exact absurd rfl (hother l' fd' hbusy (hinv.reading htask))
      · apply hinv.answers fd' answer
        rw [Has, heq] at hhas
        unfold RequestOrder.Told at hhas
        rw [hthread.latest fd' hfd, hthread.asking fd' hfd] at hhas
        rcases hhas with htold | ⟨hlatest, hreading⟩
        · exact Or.inl htold
        · exact Or.inr ⟨(congrFun (hthread.latest fd' hfd) _).symm.trans_ne hlatest, hreading⟩
    refine hanswered.keep rfl rfl rfl rfl rfl rfl ?_
    rw [heq]
    rintro ⟨client, hclient, hphase⟩
    by_cases hfd : fd' = fd
    · subst hfd
      obtain ⟨before, after, hbefore, hafter, hopens⟩ := hthread.opened
      cases hafter.symm.trans hclient
      exact ⟨before, hbefore, hopens hphase⟩
    · exact ⟨client, (hthread.clients fd' hfd).symm.trans hclient, hphase⟩

/-! ## The steps of the monitor and of the writers -/

/-- Whoever has a response for a module is subscribed to it. -/
theorem UpdatesInv.subscribed (hinv : UpdatesInv s) {fd : Fd} {answer : Answer}
    (hopen : s.order.Open fd) (hhas : s.Has fd answer) : s.push.lists.Has answer.mod fd := by
  rcases hhas with (htold | hanswering) | ⟨hlatest, -⟩
  · exact hinv.order.has hopen (Or.inl htold)
  · exact hinv.order.has hopen (Or.inr ⟨hanswering, rfl⟩)
  · obtain ⟨earlier, hearlier⟩ := Option.ne_none_iff_exists'.mp hlatest
    exact hinv.order.has hopen (Or.inl hearlier)

/-- A swap makes no response old without a publish to come, and a publish comes after every
    response that it makes old. -/
theorem UpdatesInv.stays_answered (hinv : UpdatesInv s) {label : MonitorLabel} {monitor : Monitor}
    {push : PushState L} (hlate : s.monitor.NoLateChange label)
    (hfinds : s.monitor.FindsNoChange label) (hnext : s.monitor.next label = some monitor)
    (hold : ∀ p ∈ s.push.published, p ∈ push.published)
    (hnew : ∀ mod ∈ s.monitor.publishes label, ∀ fd conn, s.push.lists.Has mod fd →
      s.push.conns fd = some conn → ⟨fd, mod, conn, s.push.clock + 1⟩ ∈ push.published)
    (hconns : push.conns = s.push.conns) (hsent : push.sent = s.push.sent)
    (hclock : s.push.clock ≤ push.clock) {fd : Fd} {answer : Answer} (hhas : s.Has fd answer) :
    Answered { s with
      monitor := monitor
      push := push
      unannounced := s.monitor.announce s.unannounced label } fd answer := by
  obtain ⟨hcurrent, hreadAt, hnewest⟩ := hinv.answers fd answer hhas
  refine ⟨?_, le_trans hreadAt hclock, ?_⟩
  · intro hopen
    have hopen' : s.order.Open fd := hopen
    rcases hcurrent hopen' with ⟨map, hhosts, hmap⟩ | ⟨p, hp, hfd, hmod, hconn, htime⟩
    · rcases hinv.notice.current hlate hfinds hnext hmap with hsame | howes | hpublishes
      · exact Or.inl ⟨map, hhosts, Or.inl hsame⟩
      · exact Or.inl ⟨map, hhosts, Or.inr howes⟩
      · right
        obtain ⟨client, hclient, -⟩ := hopen'
        have hconn : s.push.conns fd ≠ none := by
          intro hnone
          cases ((hinv.together fd).mpr hnone).symm.trans hclient
        obtain ⟨conn, hconn⟩ := Option.ne_none_iff_exists'.mp hconn
        refine ⟨_, hnew answer.mod hpublishes fd conn (hinv.subscribed hopen hhas) hconn, rfl, rfl,
          ?_, Nat.lt_succ_of_le hreadAt⟩
        change push.conns fd = _
        rw [hconns]
        exact hconn
    · right
      refine ⟨p, hold p hp, hfd, hmod, ?_, htime⟩
      change push.conns fd = _
      rw [hconns]
      exact hconn
  · intro m hm hconn
    exact hnewest m (hsent ▸ hm) (hconns ▸ hconn)

/-- A step that leaves the loops the map of the monitor, and one that publishes. -/
theorem toPush_cases (s : RouteUpdates L) (label : MonitorLabel) :
    (∃ changes rows, label = .publish ∧ s.monitor.pc = .changesLoaded changes rows ∧
      ∀ monitor, s.toPush label monitor = .publish changes) ∨
    s.monitor.publishes label = [] ∧
      ∀ monitor, s.toPush label monitor = .newRoute monitor.route.data := by
  unfold toPush Monitor.publishes
  cases label with
  | publish =>
    cases hpc : s.monitor.pc with
    | changesLoaded changes rows => exact Or.inl ⟨changes, rows, rfl, rfl, fun _ => rfl⟩
    | _ => exact Or.inr ⟨rfl, fun _ => rfl⟩
  | _ => exact Or.inr ⟨rfl, fun _ => rfl⟩

/-- What the connections were told changes only where they were told something before. -/
theorem retell_order {order : RequestOrder} (hinv : order.OrderInv)
    {latest : Fd → Mod → Option Answer}
    (hold : ∀ fd mod answer, latest fd mod = some answer → order.latest fd mod ≠ none) :
    RequestOrder.OrderInv { order with latest := latest } := by
  refine ⟨hinv.service, ?_, ?_⟩
  · intro fd client hclient
    obtain ⟨hinStep, hanswered⟩ := hinv.threads fd client hclient
    refine ⟨hinStep, ?_⟩
    intro mod answer hanswer
    obtain ⟨earlier, hearlier⟩ := Option.ne_none_iff_exists'.mp (hold fd mod answer hanswer)
    exact hanswered mod earlier hearlier
  · intro fd hclient
    obtain ⟨hidle, hnone⟩ := hinv.closed fd hclient
    refine ⟨hidle, fun mod => ?_⟩
    rw [Option.eq_none_iff_forall_not_mem]
    intro answer hanswer
    exact hold fd mod answer hanswer (hnone mod)

/-- What is told by a push that is sent: the pushed response to its connection. -/
theorem told_cases {l : L} {ret : Int} {fd : Fd} {mod : Mod} {hosts : HostSet} {readAt : Nat}
    {queue : List (Fd × Mod)} (htask : s.push.task l = .hostsRead fd mod hosts readAt queue)
    {fd' : Fd} {mod' : Mod} {answer : Answer}
    (htold : s.told (.sendMessage l ret) fd' mod' = some answer) :
    (s.latest fd' mod' = some answer ∧ ¬ (ret = 0 ∧ (s.push.conns fd).isSome ∧ fd' = fd ∧
      mod' = Answer.mod ⟨PushState.response mod hosts, readAt⟩)) ∨
    answer = ⟨PushState.response mod hosts, readAt⟩ ∧ fd' = fd ∧ mod' = answer.mod ∧
      s.latest fd' mod' ≠ none := by
  simp only [told, htask] at htold
  split at htold
  · by_cases hfd : fd' = fd
    · subst hfd
      simp only [Function.update_self] at htold
      by_cases hmod : mod' = Answer.mod ⟨PushState.response mod hosts, readAt⟩
      · rw [hmod, Function.update_self, Option.map_eq_some_iff] at htold
        obtain ⟨earlier, hearlier, rfl⟩ := htold
        exact Or.inr ⟨rfl, rfl, hmod, by rw [hmod, hearlier]; simp⟩
      · rw [Function.update_of_ne hmod] at htold
        exact Or.inl ⟨htold, fun h => hmod h.2.2.2⟩
    · rw [Function.update_of_ne hfd] at htold
      exact Or.inl ⟨htold, fun h => hfd h.2.2.1⟩
  · rename_i hnot
    exact Or.inl ⟨htold, fun h => hnot ⟨h.1, h.2.1⟩⟩

section Loops

variable [DecidableEq L]

/-- What a step of the loops keeps of their own. -/
theorem UpdatesInv.loops_next (hinv : UpdatesInv s) {label : PushLabel L} {push : PushState L}
    (hnext : s.push.next label = some push) (hloses : s.push.LosesNothing label)
    (honloop : s.push.OnLoop label) : push.PushInv ∧ push.LoopInv ∧ push.Underway :=
  ⟨hinv.push.next hloses hnext, hinv.loops.next hinv.push honloop hnext,
    hinv.underway.next hinv.push hinv.loops hloses hnext⟩

theorem UpdatesInv.openConn (hinv : UpdatesInv s) {l : L} {fd : Fd} {order : RequestOrder}
    {push : PushState L} (hidle : s.push.task l = .idle)
    (hnext : s.order.next (.createSubscribe fd) = some order)
    (hpush : s.push.next (.openConn l fd) = some push) :
    UpdatesInv { s with push := push, clients := order.service.clients } := by
  have horder := hinv.order.next hnext
  obtain ⟨service, hservice, rfl⟩ := Option.map_eq_some_iff.mp hnext
  obtain ⟨hnone, rfl⟩ := DnsService.createSubscribe_cases hservice
  obtain ⟨hpushInv, hloopInv, hunderway⟩ := hinv.loops_next hpush trivial hidle
  obtain ⟨-, rfl⟩ := PushState.openConn_cases hpush
  obtain ⟨hasking, hlatest⟩ := hinv.order.closed fd hnone
  have hnowhere : ∀ l', fd ∉ s.push.listenFds l' := fun l' hmem =>
    (hinv.loops.listens fd).mpr ⟨l', hmem⟩ ((hinv.together fd).mp hnone)
  refine ⟨hinv.notice, hinv.map, hpushInv, hloopInv, hunderway, horder, ?_, ?_, hinv.named, ?_⟩
  · intro fd'
    by_cases hfd : fd' = fd
    · subst hfd
      simp [DnsService.setClient]
    · simp only [DnsService.setClient, Function.update_of_ne hfd]
      exact hinv.together fd'
  · intro l' hbusy fd' hmem
    have hl : l' ≠ l := by
      rintro rfl
      exact hbusy hidle
    simp only [Function.update_of_ne hl] at hmem
    have hfd : fd' ≠ fd := by
      rintro rfl
      exact hnowhere l' hmem
    exact Eq.trans (rests_of_same (s := s) rfl (Function.update_of_ne hfd _ _))
      (hinv.resting l' hbusy fd' hmem)
  · intro fd' answer hhas
    have hhas' : s.Has fd' answer := hhas
    have hfd : fd' ≠ fd := by
      rintro rfl
      exact absurd hhas' (not_has hasking hlatest)
    refine (hinv.answers fd' answer hhas').keep rfl rfl rfl rfl rfl
      (Function.update_of_ne hfd ..) ?_
    rintro ⟨client, hclient, hphase⟩
    exact ⟨client, (Function.update_of_ne hfd ..).symm.trans hclient, hphase⟩

theorem UpdatesInv.closeFd (hinv : UpdatesInv s) {l : L} {fd : Fd} {order : RequestOrder}
    {push : PushState L} (hlisten : fd ∈ s.push.listenFds l) (hidle : s.push.task l = .idle)
    (hnext : s.order.next (.closeFd fd) = some order)
    (hpush : s.push.next (.closeConn fd) = some push) :
    UpdatesInv { s.setOrder order with push := push } := by
  have horder := hinv.order.next hnext
  have honloop : s.push.OnLoop (.closeConn fd) := by
    intro l' hmem
    rw [hinv.loops.one l' l fd hmem hlisten]
    exact hidle
  obtain ⟨hpushInv, hloopInv, hunderway⟩ := hinv.loops_next hpush trivial honloop
  obtain ⟨service, hservice, rfl⟩ := Option.map_eq_some_iff.mp hnext
  obtain ⟨param, hclient, rfl⟩ := DnsService.closeFd_cases hservice
  cases hpush
  obtain ⟨hasking, hgone⟩ := horder.closed fd (Function.update_self ..)
  refine ⟨hinv.notice, hinv.map, hpushInv, hloopInv, hunderway, horder, ?_, ?_, ?_, ?_⟩
  · intro fd'
    by_cases hfd : fd' = fd
    · subst hfd
      exact iff_of_true (Function.update_self ..) (Function.update_self ..)
    · simp only [setOrder, Function.update_of_ne hfd]
      exact hinv.together fd'
  · intro l' hbusy fd' hmem
    obtain ⟨hfd, hmem'⟩ := Finset.mem_erase.mp hmem
    exact Eq.trans (rests_of_same (s := s) rfl (Function.update_of_ne hfd _ _))
      (hinv.resting l' hbusy fd' hmem')
  · intro fd' mod answer hlatest
    by_cases hfd : fd' = fd
    · subst hfd
      cases (hgone mod).symm.trans hlatest
    · exact hinv.named fd' mod answer
        ((congrFun (Function.update_of_ne hfd ..) mod).symm.trans hlatest)
  · intro fd' answer hhas
    have hfd : fd' ≠ fd := by
      rintro rfl
      exact absurd hhas (not_has hasking hgone)
    have hlatest : Function.update s.latest fd (fun _ => none) fd' = s.latest fd' :=
      Function.update_of_ne hfd ..
    have hhas' : s.Has fd' answer := by
      rcases hhas with (htold | hanswering) | ⟨hsome, hreading⟩
      · exact Or.inl (Or.inl ((congrFun hlatest _).symm.trans htold))
      · exact Or.inl (Or.inr hanswering)
      · exact Or.inr ⟨(congrFun hlatest _).symm.trans_ne hsome, hreading⟩
    refine (hinv.answers fd' answer hhas').keep rfl rfl rfl rfl rfl
      (Function.update_of_ne hfd ..) ?_
    rintro ⟨client, hclient, hphase⟩
    exact ⟨client, (Function.update_of_ne hfd ..).symm.trans hclient, hphase⟩

theorem UpdatesInv.monitor (hinv : UpdatesInv s) {label : MonitorLabel} {monitor : Monitor}
    {push : PushState L} (hguard : s.LosesNothing (.monitor label))
    (hnext : s.monitor.next label = some monitor)
    (hpush : s.push.next (s.toPush label monitor) = some push) :
    UpdatesInv { s with
      monitor := monitor
      push := push
      unannounced := s.monitor.announce s.unannounced label } := by
  obtain ⟨hlate, hfinds, hloses⟩ := hguard
  have hnotice := hinv.notice.next hlate hfinds hnext
  rcases s.toPush_cases label with ⟨changes, rows, rfl, hpc, hto⟩ | ⟨hnone, hto⟩
  · rw [hto] at hpush hloses
    obtain ⟨hpushInv, hloopInv, hunderway⟩ := hinv.loops_next hpush hloses trivial
    cases hpush
    have hpublishes : s.monitor.publishes .publish = changes := by
      simp only [Monitor.publishes, hpc]
    have hmap : monitor.route.data = s.monitor.route.data := by
      obtain ⟨-, -, -, rfl⟩ := Monitor.publish_cases hnext
      rfl
    refine ⟨hnotice, hinv.map.trans hmap.symm, hpushInv, hloopInv, hunderway,
      hinv.order.monitor s.push.route (s.push.clock + 1) (s.push.lists.publish changes).pubList,
      hinv.together, hinv.resting, hinv.named, ?_⟩
    intro fd answer hhas
    refine hinv.stays_answered hlate hfinds hnext ?_ ?_ ?_ ?_ ?_ hhas
    · exact fun p hp => Or.inl hp
    · intro mod hmod fd' conn hlisted hconn
      exact Or.inr ⟨⟨hpublishes ▸ hmod, hlisted⟩, hconn, rfl⟩
    · rfl
    · rfl
    · exact Nat.le_succ _
  · rw [hto] at hpush
    obtain ⟨hpushInv, hloopInv, hunderway⟩ := hinv.loops_next hpush trivial trivial
    cases hpush
    refine ⟨hnotice, rfl, hpushInv, hloopInv, hunderway,
      hinv.order.monitor monitor.route.data s.push.clock s.push.lists.pubList,
      hinv.together, hinv.resting, hinv.named, ?_⟩
    intro fd answer hhas
    refine hinv.stays_answered hlate hfinds hnext ?_ ?_ ?_ ?_ ?_ hhas
    · exact fun p hp => hp
    · intro mod hmod
      rw [hnone] at hmod
      cases hmod
    · rfl
    · rfl
    · exact le_rfl

/-- A step of a task that sends nothing. -/
theorem UpdatesInv.task (hinv : UpdatesInv s) {label : PushLabel L} {push : PushState L}
    (hpushes : label.Pushes) (hsends : ∀ l ret, label ≠ .sendMessage l ret)
    (hmay : s.MayRun label) (hloses : s.push.LosesNothing label)
    (hnext : s.push.next label = some push) : UpdatesInv { s with push := push } := by
  have honloop : s.push.OnLoop label := by
    cases label <;> first | exact hpushes.elim | trivial
  obtain ⟨hpushInv, hloopInv, hunderway⟩ := hinv.loops_next hnext hloses honloop
  have hstep := PushState.taskStep_of_next hpushes hsends hnext
  have hlists : push.lists = ⟨s.push.lists.subList, push.lists.pubList⟩ := by
    rw [← hstep.subList]
  refine ⟨hinv.notice, hstep.route.trans hinv.map, hpushInv, hloopInv, hunderway, ?_, ?_, ?_,
    hinv.named, ?_⟩
  · change RequestOrder.OrderInv
      ⟨⟨push.lists, s.clients⟩, push.route, push.clock, s.asking, s.latest⟩
    rw [hlists]
    exact hinv.order.monitor push.route push.clock push.lists.pubList
  · intro fd
    change s.clients fd = none ↔ push.conns fd = none
    rw [hstep.conns]
    exact hinv.together fd
  · intro l hbusy fd hmem
    have hmem' : fd ∈ s.push.listenFds l := hstep.listenFds ▸ hmem
    rcases hstep.busy l hbusy with hold | rfl
    · exact hinv.resting l hold fd hmem'
    · exact hmay fd hmem'
  · intro fd answer hhas
    have hanswered : s.Answered fd answer := by
      rcases hhas with htold | ⟨hlatest, l, mod, hosts, queue, htask, hrsp⟩
      · exact hinv.answers fd answer (Or.inl htold)
      · rcases hstep.reads l _ _ _ _ _ htask with hold | ⟨hreadAt, hread⟩
        · exact hinv.answers fd answer (Or.inr ⟨hlatest, l, mod, hosts, queue, hold, hrsp⟩)
        · apply hinv.fresh fd
          refine ⟨hreadAt, ?_⟩
          unfold Answer.mod
          rw [hrsp, hread]
          rfl
    exact hanswered.keep rfl rfl hstep.published hstep.clock hstep.sent
      (congrFun hstep.conns fd) id

/-- What a task has read after another one has sent, it had read before. -/
theorem task_before {l l' : L} {fd fd' : Fd} {mod mod' : Mod} {hosts : HostSet}
    {readAt readAt' : Nat} {queue queue' : List (Fd × Mod)}
    (hreading : Function.update s.push.task l (.messageSent fd mod readAt queue) l' =
      .hostsRead fd' mod' hosts readAt' queue') :
    l' ≠ l ∧ s.push.task l' = .hostsRead fd' mod' hosts readAt' queue' := by
  by_cases hl : l' = l
  · rw [hl, Function.update_self] at hreading
    cases hreading
  · rw [Function.update_of_ne hl] at hreading
    exact ⟨hl, hreading⟩

/-- What a connection has after a push was sent, it had before. -/
theorem Has.before {l : L} {ret : Int} {fd : Fd} {mod : Mod} {hosts : HostSet} {readAt : Nat}
    {queue : List (Fd × Mod)} (htask : s.push.task l = .hostsRead fd mod hosts readAt queue)
    {push : PushState L}
    (hpush : push.task = Function.update s.push.task l (.messageSent fd mod readAt queue))
    {fd' : Fd} {answer : Answer}
    (hhas : Has { s with push := push, latest := s.told (.sendMessage l ret) } fd' answer) :
    s.Has fd' answer := by
  rcases hhas with (htold | hanswering) | ⟨htold, l', mod', hosts', queue', hreading, hrsp⟩
  · rcases told_cases htask htold with ⟨hlatest, -⟩ | ⟨rfl, rfl, -, hsome⟩
    · exact Or.inl (Or.inl hlatest)
    · exact Or.inr ⟨hsome, l, mod, hosts, queue, htask, rfl⟩
  · exact Or.inl (Or.inr hanswering)
  · obtain ⟨-, hbefore⟩ := task_before ((congrFun hpush l').symm.trans hreading)
    refine Or.inr ⟨?_, l', mod', hosts', queue', hbefore, hrsp⟩
    obtain ⟨later, hlater⟩ := Option.ne_none_iff_exists'.mp htold
    rcases told_cases htask hlater with ⟨hlatest, -⟩ | ⟨-, -, -, hsome⟩
    · simp [hlatest]
    · exact hsome

/-- A push is sent: it has been read after everything that the connection was told before. -/
theorem UpdatesInv.sendMessage (hinv : UpdatesInv s) {l : L} {ret : Int} {push : PushState L}
    (hloses : s.push.LosesNothing (.sendMessage l ret))
    (hnext : s.push.next (.sendMessage l ret) = some push) :
    UpdatesInv { s with push := push, latest := s.told (.sendMessage l ret) } := by
  obtain ⟨hpushInv, hloopInv, hunderway⟩ := hinv.loops_next hnext hloses trivial
  obtain ⟨fd, mod, hosts, readAt, queue, sent, htask, hsent, rfl⟩ :=
    PushState.sendMessage_cases hnext
  have hbusy : s.push.task l ≠ .idle := by simp [htask]
  have hlisten := hinv.reading htask
  refine ⟨hinv.notice, hinv.map, hpushInv, hloopInv, hunderway, ?_, hinv.together, ?_, ?_, ?_⟩
  · apply retell_order hinv.order
    intro fd' mod' answer htold
    rcases told_cases htask htold with ⟨hlatest, -⟩ | ⟨-, -, -, hsome⟩
    · change s.latest fd' mod' ≠ none
      simp [hlatest]
    · exact hsome
  · intro l' hbusy' fd' hmem
    apply hinv.resting l' _ fd' hmem
    by_cases hl : l' = l
    · exact hl ▸ hbusy
    · simpa only [PushState.setTask, Function.update_of_ne hl] using hbusy'
  · intro fd' mod' answer htold
    rcases told_cases htask htold with ⟨hlatest, -⟩ | ⟨-, -, hmod, -⟩
    · exact hinv.named fd' mod' answer hlatest
    · exact hmod.symm
  · intro fd' answer hhas
    obtain ⟨hcurrent, hreadAt, hnewest⟩ := hinv.answers fd' answer (hhas.before htask rfl)
    refine ⟨hcurrent, hreadAt, ?_⟩
    intro m hm hconn hmod
    rcases List.mem_append.mp hm with hold | hnew
    · exact hnewest m hold hconn hmod
    · obtain ⟨conn, hopen, hret, rfl⟩ := (hsent m).mp hnew
      cases hinv.loops.distinct fd' fd conn hconn hopen
      rcases hhas with (htold | hanswering) | ⟨-, l', mod', hosts', queue', hreading, -⟩
      · rcases told_cases htask htold with ⟨-, hnot⟩ | ⟨rfl, -⟩
        · exact absurd ⟨hret, by simp [hopen], rfl, hmod.symm⟩ hnot
        · exact le_rfl
      · have hidle := (rests_iff.mp (hinv.resting l hbusy fd hlisten)).1
        cases hidle.symm.trans hanswering
      · obtain ⟨hl, hbefore⟩ := task_before hreading
        exact absurd (hinv.loops.one l' l fd (hinv.reading hbefore) hlisten) hl

/-! ## Every run -/

/-- One step keeps the invariant. -/
theorem UpdatesInv.next (hinv : UpdatesInv s) {label : UpdatesLabel L}
    (hguard : s.LosesNothing label) (hnext : s.next label = some s') : UpdatesInv s' := by
  cases label with
  | monitor label =>
    obtain ⟨monitor, hmonitor, hrest⟩ := Option.bind_eq_some_iff.mp hnext
    obtain ⟨push, hpush, rfl⟩ := Option.map_eq_some_iff.mp hrest
    exact hinv.monitor hguard hmonitor hpush
  | openConn l fd =>
    simp only [RouteUpdates.next] at hnext
    split at hnext
    · rename_i hidle
      obtain ⟨order, horder, hrest⟩ := Option.bind_eq_some_iff.mp hnext
      obtain ⟨push, hpush, rfl⟩ := Option.map_eq_some_iff.mp hrest
      exact hinv.openConn (TaskState.isIdle_iff.mp hidle) horder hpush
    · cases hnext
  | connection l label =>
    simp only [RouteUpdates.next] at hnext
    split at hnext
    · cases hnext
    · rename_i fd hfd
      split at hnext
      · rename_i hhere
        obtain ⟨order, horder, rfl⟩ := Option.map_eq_some_iff.mp hnext
        exact hinv.connection (RequestOrder.threadStep_of_next hfd hinv.order horder)
          (hinv.order.next horder) hhere.1 (TaskState.isIdle_iff.mp hhere.2)
      · cases hnext
  | closeFd l fd =>
    simp only [RouteUpdates.next] at hnext
    split at hnext
    · rename_i hhere
      obtain ⟨order, horder, hrest⟩ := Option.bind_eq_some_iff.mp hnext
      obtain ⟨push, hpush, rfl⟩ := Option.map_eq_some_iff.mp hrest
      exact hinv.closeFd hhere.1 (TaskState.isIdle_iff.mp hhere.2) horder hpush
    · cases hnext
  | push label =>
    simp only [RouteUpdates.next] at hnext
    split at hnext
    · rename_i hruns
      obtain ⟨push, hpush, rfl⟩ := Option.map_eq_some_iff.mp hnext
      cases label with
      | sendMessage l ret => exact hinv.sendMessage hguard hpush
      | subscribe mod fd => exact hruns.1.elim
      | unSubscribe mod fd => exact hruns.1.elim
      | openConn l fd => exact hruns.1.elim
      | closeConn fd => exact hruns.1.elim
      | newRoute route => exact hruns.1.elim
      | publish changeMods => exact hruns.1.elim
      | _ => exact hinv.task hruns.1 nofun hruns.2 hguard hpush
    · cases hnext

end Loops

/-! ### One loop, and a connection on descriptor 9 -/

end RouteUpdates

end LarsSystem.Dns
