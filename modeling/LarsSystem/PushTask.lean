import LarsSystem.DnsRoute
import LarsSystem.SubscribeList
import LarsSystem.Transition

/-!
# `push_change_task` on every event loop

The push tasks of any number of event loops, step by step, among publishes,
subscriptions, connections that open and close, and routes that change. A task
takes the descriptors of its loop, copies their entries out of `pub_list`, and for
each pair of the copy reads the hosts, sends them, and erases the descriptor's
entry. A loop runs one task at a time; `L` names the loops.

The state remembers what a statement about delivery is about: each connection has
an identity, as its descriptor may be reused; `clock` counts the publishes;
`published` has, for each publish, the pairs it put into `pub_list` and their open
connections; and a message in `sent` has the number of the last publish before
its hosts were read.
-/

namespace LarsSystem.Dns

open LarsSystem.MachineWord
open LarsSystem.Transition

abbrev ConnId := Nat

inductive TaskState where
  | idle
  | online (fds : Finset Fd)
  | sending (queue : List (Fd × Mod))
  | hostsRead (fd : Fd) (mod : Mod) (hosts : HostSet) (readAt : Nat) (queue : List (Fd × Mod))
  | messageSent (fd : Fd) (mod : Mod) (readAt : Nat) (queue : List (Fd × Mod))

structure Published where
  fd : Fd
  mod : Mod
  conn : ConnId
  time : Nat

structure Sent where
  conn : ConnId
  rsp : GetRouteResponse
  readAt : Nat

structure PushState (L : Type) where
  lists : SubscribeList
  route : RouteMap
  conns : Fd → Option ConnId
  listenFds : L → Finset Fd
  unnotified : Nat
  tasks : L → Nat
  task : L → TaskState
  nextConn : ConnId
  clock : Nat
  published : Set Published
  sent : List Sent

inductive PushLabel (L : Type) where
  | subscribe (mod : Mod) (fd : Fd)
  | unSubscribe (mod : Mod) (fd : Fd)
  | openConn (l : L) (fd : Fd)
  | closeConn (fd : Fd)
  | newRoute (route : RouteMap)
  | publish (changeMods : List Mod)
  | sendTask
  | getListenFds (l : L)
  | makePublishMap (l : L) (order : List (Fd × List Mod))
  | getHosts (l : L)
  | sendMessage (l : L) (ret : Int)
  | erase (l : L)
  | finish (l : L)

namespace PushState

variable {L : Type} [DecidableEq L]

def create (route : RouteMap) : PushState L :=
  { lists := SubscribeList.empty
    route := route
    conns := fun _ => none
    listenFds := fun _ => ∅
    unnotified := 0
    tasks := fun _ => 0
    task := fun _ => .idle
    nextConn := 0
    clock := 0
    published := ∅
    sent := [] }

/-- The order in which the two loops of the task meet the pairs of its copy: one set of
    modules after another, in the order of the hash tables. -/
def flatten (order : List (Fd × List Mod)) : List (Fd × Mod) :=
  order.flatMap fun (fd, mods) => mods.map fun mod => (fd, mod)

/-- The answer to (modid, cmdid) with these hosts. -/
def response (mod : Mod) (hosts : HostSet) : GetRouteResponse :=
  ⟨unpackHigh mod, unpackLow mod, hosts.map HostEntry.ofKey⟩

/-- The pairs that `publish` puts into `pub_list` for an open connection. -/
def records (s : PushState L) (changeMods : List Mod) : Set Published :=
  { p | s.lists.Puts changeMods p.fd p.mod ∧ s.conns p.fd = some p.conn ∧ p.time = s.clock + 1 }

def setTask (s : PushState L) (l : L) (task : TaskState) : PushState L :=
  { s with task := Function.update s.task l task }

/-- One step; `none` where the label is not possible. -/
def next (s : PushState L) : PushLabel L → Option (PushState L)
  | .subscribe mod fd => some { s with lists := s.lists.subscribe mod fd }
  | .unSubscribe mod fd => some { s with lists := s.lists.unSubscribe mod fd }
  | .openConn l fd =>
    if (s.conns fd).isSome then none
    else some { s with
      conns := Function.update s.conns fd (some s.nextConn)
      nextConn := s.nextConn + 1
      listenFds := Function.update s.listenFds l (insert fd (s.listenFds l)) }
  | .closeConn fd => some { s with
      conns := Function.update s.conns fd none
      listenFds := fun l => (s.listenFds l).erase fd }
  | .newRoute route => some { s with route := route }
  | .publish changeMods => some { s with
      lists := s.lists.publish changeMods
      unnotified := s.unnotified + 1
      clock := s.clock + 1
      published := s.published ∪ s.records changeMods }
  | .sendTask =>
    if s.unnotified = 0 then none
    else some { s with unnotified := s.unnotified - 1, tasks := fun l => s.tasks l + 1 }
  | .getListenFds l =>
    match s.task l with
    | .idle =>
      if s.tasks l = 0 then none
      else some ({ s with tasks := Function.update s.tasks l (s.tasks l - 1) }.setTask l
        (.online (s.listenFds l)))
    | _ => none
  | .makePublishMap l order =>
    match s.task l with
    | .online fds =>
      if (order.map Prod.fst).Nodup ∧ (flatten order).Nodup ∧
          (flatten order).toFinset = s.lists.makePublishMap fds then
        some (s.setTask l (.sending (flatten order)))
      else none
    | _ => none
  | .getHosts l =>
    match s.task l with
    | .sending ((fd, mod) :: queue) =>
      let hosts := Route.getHosts s.route (unpackHigh mod) (unpackLow mod)
      some (s.setTask l (.hostsRead fd mod hosts s.clock queue))
    | _ => none
  | .sendMessage l ret =>
    match s.task l with
    | .hostsRead fd mod hosts readAt queue =>
      -- `send_message` is called if `conns[fd]` is not NULL, its result ignored
      let sent := match s.conns fd with
        | none => []
        | some conn => if ret = 0 then [⟨conn, response mod hosts, readAt⟩] else []
      some ({ s with sent := s.sent ++ sent }.setTask l (.messageSent fd mod readAt queue))
    | _ => none
  | .erase l =>
    match s.task l with
    | .messageSent fd _ _ queue =>
      some ({ s with lists := s.lists.erase fd }.setTask l (.sending queue))
    | _ => none
  | .finish l =>
    match s.task l with
    | .sending [] => some (s.setTask l .idle)
    | _ => none

section Cases

/-! ## What the steps of the loops do -/

variable {s s' : PushState L} {l : L}

theorem openConn_cases {fd : Fd} (hnext : s.next (.openConn l fd) = some s') :
    s.conns fd = none ∧ s' = { s with
      conns := Function.update s.conns fd (some s.nextConn)
      nextConn := s.nextConn + 1
      listenFds := Function.update s.listenFds l (insert fd (s.listenFds l)) } := by
  simp only [next] at hnext
  split at hnext
  · cases hnext
  · rename_i hnone
    exact ⟨by simpa using hnone, (Option.some.inj hnext).symm⟩

theorem sendTask_cases (hnext : s.next .sendTask = some s') :
    s.unnotified ≠ 0 ∧
      s' = { s with unnotified := s.unnotified - 1, tasks := fun l => s.tasks l + 1 } := by
  simp only [next] at hnext
  split at hnext
  · cases hnext
  · rename_i hleft
    exact ⟨hleft, (Option.some.inj hnext).symm⟩

theorem getListenFds_cases (hnext : s.next (.getListenFds l) = some s') :
    s.task l = .idle ∧ s.tasks l ≠ 0 ∧
      s' = { s with tasks := Function.update s.tasks l (s.tasks l - 1) }.setTask l
        (.online (s.listenFds l)) := by
  simp only [next] at hnext
  split at hnext
  · rename_i htask
    split at hnext
    · cases hnext
    · rename_i hleft
      exact ⟨htask, hleft, (Option.some.inj hnext).symm⟩
  · cases hnext

theorem makePublishMap_cases {order : List (Fd × List Mod)}
    (hnext : s.next (.makePublishMap l order) = some s') :
    ∃ fds, s.task l = .online fds ∧ (order.map Prod.fst).Nodup ∧ (flatten order).Nodup ∧
      (flatten order).toFinset = s.lists.makePublishMap fds ∧
      s' = s.setTask l (.sending (flatten order)) := by
  simp only [next] at hnext
  split at hnext
  · rename_i fds htask
    split at hnext
    · rename_i horder
      exact ⟨fds, htask, horder.1, horder.2.1, horder.2.2, (Option.some.inj hnext).symm⟩
    · cases hnext
  · cases hnext

theorem getHosts_cases (hnext : s.next (.getHosts l) = some s') :
    ∃ fd mod queue, s.task l = .sending ((fd, mod) :: queue) ∧
      s' = s.setTask l (.hostsRead fd mod
        (Route.getHosts s.route (unpackHigh mod) (unpackLow mod)) s.clock queue) := by
  simp only [next] at hnext
  split at hnext
  · rename_i fd mod queue htask
    exact ⟨fd, mod, queue, htask, (Option.some.inj hnext).symm⟩
  · cases hnext

theorem sendMessage_cases {ret : Int} (hnext : s.next (.sendMessage l ret) = some s') :
    ∃ fd mod hosts readAt queue sent, s.task l = .hostsRead fd mod hosts readAt queue ∧
      (∀ m, m ∈ sent ↔ ∃ conn, s.conns fd = some conn ∧ ret = 0 ∧
        m = ⟨conn, response mod hosts, readAt⟩) ∧
      s' = { s with sent := s.sent ++ sent }.setTask l (.messageSent fd mod readAt queue) := by
  simp only [next] at hnext
  split at hnext
  · rename_i fd mod hosts readAt queue htask
    refine ⟨fd, mod, hosts, readAt, queue, _, htask, ?_, (Option.some.inj hnext).symm⟩
    intro m
    cases hconn : s.conns fd with
    | none => simp
    | some conn => by_cases hret : ret = 0 <;> simp [hret]
  · cases hnext

theorem erase_cases (hnext : s.next (.erase l) = some s') :
    ∃ fd mod readAt queue, s.task l = .messageSent fd mod readAt queue ∧
      s' = { s with lists := s.lists.erase fd }.setTask l (.sending queue) := by
  simp only [next] at hnext
  split at hnext
  · rename_i fd mod readAt queue htask
    exact ⟨fd, mod, readAt, queue, htask, (Option.some.inj hnext).symm⟩
  · cases hnext

theorem finish_cases (hnext : s.next (.finish l) = some s') :
    s.task l = .sending [] ∧ s' = s.setTask l .idle := by
  simp only [next] at hnext
  split at hnext
  · rename_i htask
    exact ⟨htask, (Option.some.inj hnext).symm⟩
  · cases hnext

end Cases

end PushState

end LarsSystem.Dns
