import Mathlib.Algebra.BigOperators.Group.Finset.Basic
import Mathlib.Algebra.Order.BigOperators.Group.Multiset
import Mathlib.Data.Fintype.EquivFin
import Mathlib.Data.Nat.Find
import LarsSystem.TcpConn
import LarsSystem.ThreadQueue

/-!
# The connection table of `tcp_server`

`conns` is indexed by descriptors. The main thread accepts a connection, compares
`_cur_conns` with `_max_conns`, and gives the descriptor as a task to a thread of
the pool; the thread makes the `tcp_conn` and counts it. Between the comparison
and the count lies a queue, and `clean_conn` takes a connection off the count
before it closes the descriptor. The descriptors of the process, each in one
place, are what all of this shares: the kernel gives the smallest one that is
not in use.

The limit is kept in a run in which the connections under way are counted as well.
Otherwise both the limit and the bounds of the table can be exceeded.
-/

namespace LarsSystem.Reactor

open LarsSystem.Transition

/-! ## `thread_pool` -/

/-- `task_msg`; what a `NEW_TASK` calls does not concern the table. -/
inductive TaskMsg where
  | newConn (connfd : Nat)
  | newTask
deriving DecidableEq

def TaskMsg.connfd? : TaskMsg → Option Nat
  | .newConn connfd => some connfd
  | .newTask => none

/-- The connections among some tasks. -/
def newConns (tasks : List TaskMsg) : Multiset Nat := tasks.filterMap TaskMsg.connfd?

@[simp] theorem newConns_nil : newConns [] = 0 := rfl

@[simp] theorem newConns_newConn (connfd : Nat) (tasks : List TaskMsg) :
    newConns (.newConn connfd :: tasks) = connfd ::ₘ newConns tasks := rfl

@[simp] theorem newConns_newTask (tasks : List TaskMsg) :
    newConns (.newTask :: tasks) = newConns tasks := rfl

@[simp] theorem newConns_append (tasks more : List TaskMsg) :
    newConns (tasks ++ more) = newConns tasks + newConns more := by
  rw [newConns, List.filterMap_append, ← Multiset.coe_add]
  rfl

/-- A pool with its threads: which have made their event loop, and the tasks that the
    `deal_task_message` of each has taken out of its queue and not come to. -/
structure ThreadPool where
  threadCnt : Nat
  index : Nat
  queues : Nat → ThreadQueue TaskMsg
  started : Nat → Bool
  tasks : Nat → List TaskMsg

namespace ThreadPool

def create (threadCnt : Nat) : ThreadPool :=
  { threadCnt := threadCnt
    index := 0
    queues := fun _ => ThreadQueue.create
    started := fun _ => false
    tasks := fun _ => [] }

/-- `get_thread`. -/
def getThread (p : ThreadPool) : Nat × ThreadPool :=
  let i := if p.index = p.threadCnt then 0 else p.index
  (i, { p with index := i + 1 })

/-- `queue->send(task)` for the queue of thread `i`. -/
def send (p : ThreadPool) (i : Nat) (task : TaskMsg) : ThreadPool :=
  { p with queues := Function.update p.queues i ((p.queues i).send task) }

/-- `send_task`. -/
def sendTask (p : ThreadPool) : ThreadPool :=
  { p with queues := fun i => if i < p.threadCnt then (p.queues i).send .newTask else p.queues i }

/-- `queue->recv(tasks)` of thread `i`, into a new queue. -/
def recv (p : ThreadPool) (i : Nat) : ThreadPool :=
  let (tasks, queue) := (p.queues i).recv []
  { p with
    queues := Function.update p.queues i queue
    tasks := Function.update p.tasks i tasks }

/-- The tasks of thread `i` after `tasks.pop()`. -/
def popTask (p : ThreadPool) (i : Nat) : ThreadPool :=
  { p with tasks := Function.update p.tasks i (p.tasks i).tail }

/-! ### The connections that wait for their thread -/

def pending (p : ThreadPool) (i : Nat) : Multiset Nat :=
  newConns (p.tasks i) + newConns (p.queues i).queue

def waiting (p : ThreadPool) : Multiset Nat := ∑ i ∈ Finset.range p.threadCnt, p.pending i

variable {p p' : ThreadPool} {i : Nat}

theorem waiting_congr (hthreads : p'.threadCnt = p.threadCnt)
    (hpending : ∀ j, p'.pending j = p.pending j) : p'.waiting = p.waiting := by
  rw [waiting, waiting, hthreads]
  exact Finset.sum_congr rfl fun j _ => hpending j

/-- One more connection waits for thread `i`. -/
theorem waiting_cons {connfd : Nat} (hthreads : p'.threadCnt = p.threadCnt) (hi : i < p.threadCnt)
    (hthread : p'.pending i = connfd ::ₘ p.pending i)
    (hothers : ∀ j, j ≠ i → p'.pending j = p.pending j) :
    p'.waiting = connfd ::ₘ p.waiting := by
  have hmem : i ∈ Finset.range p.threadCnt := Finset.mem_range.mpr hi
  have hrest : ∑ j ∈ (Finset.range p.threadCnt).erase i, p'.pending j =
      ∑ j ∈ (Finset.range p.threadCnt).erase i, p.pending j :=
    Finset.sum_congr rfl fun j hj => hothers j (Finset.ne_of_mem_erase hj)
  rw [waiting, waiting, hthreads, ← Finset.add_sum_erase _ _ hmem, hrest, hthread,
    Multiset.cons_add, Finset.add_sum_erase _ _ hmem]

theorem getThread_lt (hindex : p.index ≤ p.threadCnt) (hsome : p.threadCnt ≠ 0) :
    p.getThread.1 < p.threadCnt ∧ p.getThread.2.index ≤ p.threadCnt := by
  unfold getThread
  simp only
  split_ifs <;> omega

@[simp] theorem getThread_waiting (p : ThreadPool) : p.getThread.2.waiting = p.waiting := rfl

theorem send_newConn_waiting (hi : i < p.threadCnt) (connfd : Nat) :
    (p.send i (.newConn connfd)).waiting = connfd ::ₘ p.waiting := by
  refine waiting_cons (i := i) rfl hi ?_ ?_
  · simp only [pending, send, Function.update_self, ThreadQueue.queue_send, newConns_append,
      newConns_newConn, newConns_nil, Multiset.add_cons, add_zero]
  · intro j hj
    simp [pending, send, Function.update_of_ne hj]

theorem sendTask_waiting (p : ThreadPool) : p.sendTask.waiting = p.waiting := by
  refine waiting_congr rfl fun j => ?_
  simp only [pending, sendTask]
  split
  · simp
  · rfl

theorem recv_waiting (p : ThreadPool) (i : Nat) (hempty : p.tasks i = []) :
    (p.recv i).waiting = p.waiting := by
  refine waiting_congr rfl fun j => ?_
  by_cases hj : j = i
  · subst hj
    simp [pending, recv, ThreadQueue.recv, hempty]
  · simp [pending, recv, Function.update_of_ne hj]

theorem popTask_newConn (hi : i < p.threadCnt) {connfd : Nat} {rest : List TaskMsg}
    (htasks : p.tasks i = .newConn connfd :: rest) :
    p.waiting = connfd ::ₘ (p.popTask i).waiting := by
  refine waiting_cons (i := i) rfl hi ?_ ?_
  · simp [pending, popTask, htasks]
  · intro j hj
    simp [pending, popTask, Function.update_of_ne hj]

theorem popTask_newTask {rest : List TaskMsg} (htasks : p.tasks i = .newTask :: rest) :
    (p.popTask i).waiting = p.waiting := by
  refine waiting_congr rfl fun j => ?_
  by_cases hj : j = i
  · subst hj
    simp [pending, popTask, htasks]
  · simp [pending, popTask, Function.update_of_ne hj]

end ThreadPool

/-! ## `tcp_server` -/

/-- Where the main thread is in `do_accept`. -/
inductive AcceptState where
  | idle
  | accepted (connfd : Nat)
  | counted (connfd : Nat) (curConn : Int)

def AcceptState.connfds : AcceptState → Multiset Nat
  | .idle => 0
  | .accepted connfd => {connfd}
  | .counted connfd _ => {connfd}

/-- A server with its descriptors: those of connections, live or in a `clean_conn` that has not
    come to `close`, and `others`. The indices that `conns` was used with are history. -/
structure TcpServer where
  maxConns : Nat
  pool : ThreadPool
  table : ConnTable
  accepting : AcceptState
  others : List Nat
  live : List Nat
  closing : List Nat
  used : List Nat

inductive ServerStep where
  | startThread (i epfd : Nat)
  | accept (connfd : Nat)
  | getConnNum
  | finishAccept
  | sendTask
  | recv (i : Nat)
  | dealTask (i : Nat)
  | decreaseConn (connfd : Nat)
  | closeConn (connfd : Nat)

namespace TcpServer

/-- `conns = new tcp_conn*[_max_conns + 5 + 2 * thread_cnt]`. -/
def tableSize (s : TcpServer) : Nat := s.maxConns + 5 + 2 * s.pool.threadCnt

/-- The constructor: stdin, stdout, stderr, the loop's epoll and the listening socket are there,
    and the eventfds of the pool. Its threads have not run yet. -/
def create (maxConns threadCnt : Nat) : TcpServer :=
  { maxConns := maxConns
    pool := ThreadPool.create threadCnt
    table := ⟨fun _ => false, 0⟩
    accepting := .idle
    others := List.range (5 + threadCnt)
    live := []
    closing := []
    used := [] }

/-- The descriptors in use. -/
def held (s : TcpServer) : Multiset Nat :=
  s.others + s.live + s.closing + s.pool.waiting + s.accepting.connfds

/-- The descriptor that the kernel gives next. -/
def Smallest (s : TcpServer) (fd : Nat) : Prop := fd ∉ s.held ∧ ∀ n < fd, n ∈ s.held

instance (s : TcpServer) (fd : Nat) : Decidable (s.Smallest fd) :=
  inferInstanceAs (Decidable (_ ∧ _))

def next (s : TcpServer) : ServerStep → Option TcpServer
  | .startThread i epfd =>
    -- `new event_loop()` in `thread_main`
    if i < s.pool.threadCnt ∧ s.pool.started i = false ∧ s.Smallest epfd then
      some { s with
        pool := { s.pool with started := Function.update s.pool.started i true }
        others := epfd :: s.others }
    else none
  | .accept connfd =>
    match s.accepting with
    | .idle => if s.Smallest connfd then some { s with accepting := .accepted connfd } else none
    | _ => none
  | .getConnNum =>
    match s.accepting with
    | .accepted connfd => some { s with accepting := .counted connfd s.table.curConns }
    | _ => none
  | .finishAccept =>
    match s.accepting with
    | .counted connfd curConn =>
      -- a server without threads has no pool
      if s.pool.threadCnt = 0 then none
      else if s.maxConns ≤ curConn then some { s with accepting := .idle }
      else
        let (i, pool) := s.pool.getThread
        some { s with accepting := .idle, pool := pool.send i (.newConn connfd) }
    | _ => none
  | .sendTask => some { s with pool := s.pool.sendTask }
  | .recv i =>
    if i < s.pool.threadCnt ∧ s.pool.started i = true ∧ s.pool.tasks i = [] then
      some { s with pool := s.pool.recv i }
    else none
  | .dealTask i =>
    if i < s.pool.threadCnt then
      match s.pool.tasks i with
      | [] => none
      | .newTask :: _ => some { s with pool := s.pool.popTask i }
      | .newConn connfd :: _ =>
        -- the constructor of `tcp_conn`
        some { s with
          pool := s.pool.popTask i
          table := s.table.increaseConn connfd
          live := connfd :: s.live
          used := connfd :: s.used }
    else none
  | .decreaseConn connfd =>
    if connfd ∈ s.live then
      some { s with
        table := s.table.decreaseConn connfd
        live := s.live.erase connfd
        closing := connfd :: s.closing
        used := connfd :: s.used }
    else none
  | .closeConn connfd =>
    if connfd ∈ s.closing then some { s with closing := s.closing.erase connfd } else none

/-- Where `do_accept` hands a connection over, those that wait for their thread are within the
    limit too, and the descriptor is within the table. -/
def HasRoom (s : TcpServer) : ServerStep → Prop
  | .finishAccept => ∀ connfd curConn, s.accepting = .counted connfd curConn →
      curConn < s.maxConns →
        s.live.length + s.pool.waiting.card < s.maxConns ∧ connfd < s.tableSize
  | _ => True

/-- **The table is in bounds.** -/
structure InBounds (s : TcpServer) : Prop where
  counts : s.table.curConns = s.live.length
  slots : ∀ fd : Nat, s.table.conns fd = true ↔ fd ∈ s.live
  limit : s.table.curConns ≤ s.maxConns
  indices : ∀ i ∈ s.used, i < s.tableSize
  distinct : s.live.Nodup

/-! ## What every run keeps -/

/-- Each descriptor is in one place, and the table holds the live connections. -/
structure Inv (s : TcpServer) : Prop where
  nodup : s.held.Nodup
  counts : s.table.curConns = s.live.length
  slots : ∀ fd : Nat, s.table.conns fd = true ↔ fd ∈ s.live
  index : s.pool.index ≤ s.pool.threadCnt
  others : s.others.length =
    5 + s.pool.threadCnt + ((Finset.range s.pool.threadCnt).filter (s.pool.started ·)).card

/-- The connections that are live or wait for their thread fit. -/
structure Room (s : TcpServer) : Prop where
  limit : s.live.length + s.pool.waiting.card ≤ s.maxConns
  fits : ∀ fd, fd ∈ s.live ∨ fd ∈ s.pool.waiting → fd < s.tableSize
  indices : ∀ i ∈ s.used, i < s.tableSize

variable {s s' : TcpServer}

theorem Inv.live_nodup (hinv : s.Inv) : s.live.Nodup := by
  have hheld : s.held =
      s.live + (s.others + s.closing + s.pool.waiting + s.accepting.connfds) := by
    rw [held]
    ac_rfl
  have hnodup := hinv.nodup
  rw [hheld] at hnodup
  exact Multiset.coe_nodup.mp (Multiset.nodup_of_le (Multiset.le_add_right _ _) hnodup)

theorem waiting_create (threadCnt : Nat) : (ThreadPool.create threadCnt).waiting = 0 :=
  Finset.sum_eq_zero fun _ _ => rfl

theorem inv_create (maxConns threadCnt : Nat) : (create maxConns threadCnt).Inv where
  nodup := by
    have hheld : (create maxConns threadCnt).held = List.range (5 + threadCnt) := by
      simp [held, create, waiting_create, AcceptState.connfds]
    rw [hheld]
    exact Multiset.coe_nodup.mpr List.nodup_range
  counts := rfl
  slots := by simp [create]
  index := Nat.zero_le _
  others := by simp [create, ThreadPool.create]

theorem room_create (maxConns threadCnt : Nat) : (create maxConns threadCnt).Room where
  limit := by simp [create, waiting_create]
  fits := by simp [create, waiting_create]
  indices := by simp [create]

theorem InBounds.of_room (hinv : s.Inv) (hroom : s.Room) : s.InBounds where
  counts := hinv.counts
  slots := hinv.slots
  limit := by
    have hlimit := hroom.limit
    have hcounts := hinv.counts
    omega
  indices := hroom.indices
  distinct := hinv.live_nodup

/-! ### One step -/

theorem Inv.startThread (hinv : s.Inv) {i epfd : Nat} (hi : i < s.pool.threadCnt)
    (hstarted : s.pool.started i = false) (hfree : s.Smallest epfd) :
    Inv { s with
      pool := { s.pool with started := Function.update s.pool.started i true }
      others := epfd :: s.others } where
  nodup := by
    have hnodup := Multiset.nodup_cons.mpr ⟨hfree.1, hinv.nodup⟩
    rwa [held, ← Multiset.cons_add, ← Multiset.cons_add, ← Multiset.cons_add,
      ← Multiset.cons_add, Multiset.cons_coe] at hnodup
  counts := hinv.counts
  slots := hinv.slots
  index := hinv.index
  others := by
    have hothers := hinv.others
    have hmore : (Finset.range s.pool.threadCnt).filter (Function.update s.pool.started i true ·) =
        insert i ((Finset.range s.pool.threadCnt).filter (s.pool.started ·)) := by
      ext j
      by_cases hj : j = i
      · simp [hj, hi]
      · simp [hj]
    have hnew : i ∉ (Finset.range s.pool.threadCnt).filter (s.pool.started ·) := by
      simp [hstarted]
    rw [List.length_cons, hmore, Finset.card_insert_of_notMem hnew, hothers]
    rfl

/-- What moves descriptors between the main thread and the pool, or gives some back. -/
theorem Inv.accepting (hinv : s.Inv) {pool : ThreadPool} {accepting : AcceptState}
    (hpool : pool.threadCnt = s.pool.threadCnt) (hstarted : pool.started = s.pool.started)
    (hindex : pool.index ≤ s.pool.threadCnt)
    (hheld : pool.waiting + accepting.connfds ≤ s.pool.waiting + s.accepting.connfds) :
    Inv { s with pool := pool, accepting := accepting } where
  nodup := by
    refine Multiset.nodup_of_le ?_ hinv.nodup
    rw [held, held, add_assoc, add_assoc _ s.pool.waiting]
    gcongr
  counts := hinv.counts
  slots := hinv.slots
  index := by rw [hpool]; exact hindex
  others := by rw [hpool, hstarted]; exact hinv.others

theorem Inv.accept (hinv : s.Inv) {connfd : Nat} (hidle : s.accepting = .idle)
    (hfree : s.Smallest connfd) : Inv { s with accepting := .accepted connfd } where
  nodup := by
    have hnodup := Multiset.nodup_cons.mpr ⟨hfree.1, hinv.nodup⟩
    rw [held, hidle] at hnodup
    simpa [held, AcceptState.connfds, ← Multiset.singleton_add, add_comm, add_left_comm]
      using hnodup
  counts := hinv.counts
  slots := hinv.slots
  index := hinv.index
  others := hinv.others

/-- A thread makes the `tcp_conn` of its next task. -/
theorem Inv.construct (hinv : s.Inv) {i connfd : Nat}
    (hwaiting : s.pool.waiting = connfd ::ₘ (s.pool.popTask i).waiting) :
    Inv { s with
      pool := s.pool.popTask i
      table := s.table.increaseConn connfd
      live := connfd :: s.live
      used := connfd :: s.used } where
  nodup := by
    have hheld : s.held = s.others + ↑(connfd :: s.live) + s.closing +
        (s.pool.popTask i).waiting + s.accepting.connfds := by
      rw [held, hwaiting, ← Multiset.cons_coe]
      simp only [Multiset.add_cons, Multiset.cons_add]
    have hnodup := hinv.nodup
    rw [hheld] at hnodup
    exact hnodup
  counts := by
    have hcounts := hinv.counts
    simp only [ConnTable.increaseConn, List.length_cons]
    omega
  slots := by
    intro fd
    by_cases hfd : fd = connfd
    · simp [ConnTable.increaseConn, hfd]
    · have hslot : (fd : Int) ≠ connfd := Int.ofNat_inj.not.mpr hfd
      simp [ConnTable.increaseConn, hslot, hfd, hinv.slots]
  index := hinv.index
  others := hinv.others

theorem Inv.decreaseConn (hinv : s.Inv) {connfd : Nat} (hlive : connfd ∈ s.live) :
    Inv { s with
      table := s.table.decreaseConn connfd
      live := s.live.erase connfd
      closing := connfd :: s.closing
      used := connfd :: s.used } where
  nodup := by
    have hsplit : (s.live : Multiset Nat) = connfd ::ₘ ↑(s.live.erase connfd) := by
      rw [← Multiset.coe_erase, Multiset.cons_erase hlive]
    have hheld : s.held = s.others + ↑(s.live.erase connfd) + ↑(connfd :: s.closing) +
        s.pool.waiting + s.accepting.connfds := by
      rw [held, hsplit, ← Multiset.cons_coe]
      simp only [Multiset.add_cons, Multiset.cons_add]
    have hnodup := hinv.nodup
    rw [hheld] at hnodup
    exact hnodup
  counts := by
    have hlen := List.length_erase_add_one hlive
    have hcounts := hinv.counts
    simp only [ConnTable.decreaseConn]
    omega
  slots := by
    intro fd
    by_cases hfd : fd = connfd
    · simp [ConnTable.decreaseConn, hfd, hinv.live_nodup.mem_erase_iff]
    · have hslot : (fd : Int) ≠ connfd := Int.ofNat_inj.not.mpr hfd
      simp [ConnTable.decreaseConn, hslot, hfd, hinv.slots, hinv.live_nodup.mem_erase_iff]
  index := hinv.index
  others := hinv.others

theorem Inv.closeConn (hinv : s.Inv) (connfd : Nat) :
    Inv { s with closing := s.closing.erase connfd } where
  nodup := by
    refine Multiset.nodup_of_le ?_ hinv.nodup
    have herase : ((s.closing.erase connfd : List Nat) : Multiset Nat) ≤ s.closing :=
      Multiset.coe_le.mpr (List.erase_sublist ..).subperm
    rw [held, held]
    gcongr
  counts := hinv.counts
  slots := hinv.slots
  index := hinv.index
  others := hinv.others

/-- Room is about the connections that are live or wait, whoever has them. -/
theorem Room.of_le (hroom : s.Room) (hmax : s'.maxConns = s.maxConns)
    (hthreads : s'.pool.threadCnt = s.pool.threadCnt)
    (hle : (s'.live : Multiset Nat) + s'.pool.waiting ≤ s.live + s.pool.waiting)
    (hused : ∀ i ∈ s'.used, i ∈ s.used ∨ i ∈ s.live ∨ i ∈ s.pool.waiting) : s'.Room := by
  have hsize : s'.tableSize = s.tableSize := by rw [tableSize, tableSize, hmax, hthreads]
  refine ⟨?_, ?_, ?_⟩
  · have hcard := Multiset.card_le_card hle
    rw [Multiset.card_add, Multiset.card_add, Multiset.coe_card, Multiset.coe_card] at hcard
    have hlimit := hroom.limit
    omega
  · intro fd hfd
    have hmem : fd ∈ (s'.live : Multiset Nat) + s'.pool.waiting := Multiset.mem_add.mpr hfd
    rw [hsize]
    exact hroom.fits fd (Multiset.mem_add.mp (Multiset.mem_of_le hle hmem))
  · intro i hi
    rw [hsize]
    rcases hused i hi with hbefore | hnow
    · exact hroom.indices i hbefore
    · exact hroom.fits i hnow

/-- A step that moves no connection into or out of the threads leaves the room as it is. -/
theorem Room.of_waiting (hroom : s.Room) (hmax : s'.maxConns = s.maxConns)
    (hthreads : s'.pool.threadCnt = s.pool.threadCnt) (hlive : s'.live = s.live)
    (hused : s'.used = s.used) (hwaiting : s'.pool.waiting = s.pool.waiting) : s'.Room := by
  refine hroom.of_le hmax hthreads ?_ ?_
  · rw [hlive, hwaiting]
  · intro i hi
    rw [hused] at hi
    exact Or.inl hi

/-- The main thread hands over a connection for which there is room. -/
theorem Room.handOver (hroom : s.Room) {pool : ThreadPool} {connfd : Nat}
    (hthreads : pool.threadCnt = s.pool.threadCnt)
    (hwaiting : pool.waiting = connfd ::ₘ s.pool.waiting)
    (hlimit : s.live.length + s.pool.waiting.card < s.maxConns) (hfits : connfd < s.tableSize) :
    Room { s with accepting := .idle, pool := pool } where
  limit := by
    rw [hwaiting, Multiset.card_cons]
    exact hlimit
  fits := by
    intro fd hfd
    rw [hwaiting, Multiset.mem_cons] at hfd
    rw [tableSize, hthreads]
    rcases hfd with hlive | rfl | hwaits
    · exact hroom.fits fd (Or.inl hlive)
    · exact hfits
    · exact hroom.fits fd (Or.inr hwaits)
  indices := by
    rw [tableSize, hthreads]
    exact hroom.indices

/-! ### The labels one by one

Each step keeps the invariant. The room is left too, where `finishAccept` hands a
connection over only with room for it. -/

section Labels

variable (hinv : s.Inv)
include hinv

theorem Inv.next_startThread {i epfd : Nat} (hstep : s.next (.startThread i epfd) = some s') :
    s'.Inv ∧ (s.Room → s'.Room) := by
  simp only [next] at hstep
  split_ifs at hstep with hnew
  cases hstep
  refine ⟨hinv.startThread hnew.1 hnew.2.1 hnew.2.2, fun hroom => ?_⟩
  exact hroom.of_waiting rfl rfl rfl rfl rfl

theorem Inv.next_accept {connfd : Nat} (hstep : s.next (.accept connfd) = some s') :
    s'.Inv ∧ (s.Room → s'.Room) := by
  simp only [next] at hstep
  split at hstep
  · rename_i hidle
    split_ifs at hstep with hfree
    cases hstep
    exact ⟨hinv.accept hidle hfree, fun hroom => hroom.of_waiting rfl rfl rfl rfl rfl⟩
  · cases hstep

theorem Inv.next_getConnNum (hstep : s.next .getConnNum = some s') :
    s'.Inv ∧ (s.Room → s'.Room) := by
  simp only [next] at hstep
  split at hstep
  · rename_i connfd haccepted
    cases hstep
    refine ⟨hinv.accepting rfl rfl hinv.index ?_, fun hroom =>
      hroom.of_waiting rfl rfl rfl rfl rfl⟩
    rw [haccepted]
    exact le_refl _
  · cases hstep

/-- The descriptor goes back to the kernel, or to a thread. -/
theorem Inv.next_finishAccept (hstep : s.next .finishAccept = some s') :
    s'.Inv ∧ (s.HasRoom .finishAccept → s.Room → s'.Room) := by
  simp only [next] at hstep
  split at hstep
  · rename_i connfd curConn hcounted
    split_ifs at hstep with hpool hfull
    · cases hstep
      refine ⟨hinv.accepting rfl rfl hinv.index ?_, fun _ hroom =>
        hroom.of_waiting rfl rfl rfl rfl rfl⟩
      gcongr
      exact Multiset.zero_le _
    · cases hstep
      obtain ⟨hthread, hindex⟩ := ThreadPool.getThread_lt hinv.index hpool
      have hwaiting : (s.pool.getThread.2.send s.pool.getThread.1 (.newConn connfd)).waiting =
          connfd ::ₘ s.pool.waiting := ThreadPool.send_newConn_waiting hthread connfd
      refine ⟨hinv.accepting rfl rfl hindex ?_, fun hspace hroom => ?_⟩
      · rw [hwaiting, hcounted]
        simp [AcceptState.connfds, ← Multiset.singleton_add, add_comm]
      · obtain ⟨hlimit, hfits⟩ := hspace connfd curConn hcounted (not_le.mp hfull)
        exact hroom.handOver rfl hwaiting hlimit hfits
  · cases hstep

/-- What the pool does with its tasks, as long as the same connections wait. -/
theorem Inv.move (pool : ThreadPool) (hthreads : pool.threadCnt = s.pool.threadCnt)
    (hstarted : pool.started = s.pool.started) (hindex : pool.index = s.pool.index)
    (hwaiting : pool.waiting = s.pool.waiting) :
    Inv { s with pool := pool } ∧ (s.Room → Room { s with pool := pool }) := by
  refine ⟨hinv.accepting hthreads hstarted ?_ ?_, fun hroom => ?_⟩
  · rw [hindex]
    exact hinv.index
  · rw [hwaiting]
  · exact hroom.of_waiting rfl hthreads rfl rfl hwaiting

theorem Inv.next_recv {i : Nat} (hstep : s.next (.recv i) = some s') :
    s'.Inv ∧ (s.Room → s'.Room) := by
  simp only [next] at hstep
  split_ifs at hstep with hready
  cases hstep
  exact hinv.move _ rfl rfl rfl (s.pool.recv_waiting i hready.2.2)

/-- The connection of a task was waiting, and is live. -/
theorem Inv.next_dealTask {i : Nat} (hstep : s.next (.dealTask i) = some s') :
    s'.Inv ∧ (s.Room → s'.Room) := by
  simp only [next] at hstep
  split_ifs at hstep with hi
  split at hstep
  · cases hstep
  · rename_i rest htasks
    cases hstep
    exact hinv.move _ rfl rfl rfl (ThreadPool.popTask_newTask htasks)
  · rename_i connfd rest htasks
    cases hstep
    have hwaiting := ThreadPool.popTask_newConn hi htasks
    refine ⟨hinv.construct hwaiting, fun hroom => hroom.of_le rfl rfl ?_ ?_⟩
    · rw [hwaiting, ← Multiset.cons_coe, Multiset.cons_add, Multiset.add_cons]
    · intro j hj
      rcases List.mem_cons.mp hj with rfl | hused
      · exact Or.inr (Or.inr (by rw [hwaiting]; exact Multiset.mem_cons_self _ _))
      · exact Or.inl hused

theorem Inv.next_decreaseConn {connfd : Nat} (hstep : s.next (.decreaseConn connfd) = some s') :
    s'.Inv ∧ (s.Room → s'.Room) := by
  simp only [next] at hstep
  split_ifs at hstep with hlive
  cases hstep
  refine ⟨hinv.decreaseConn hlive, fun hroom => hroom.of_le rfl rfl ?_ ?_⟩
  · have herase : ((s.live.erase connfd : List Nat) : Multiset Nat) ≤ s.live :=
      Multiset.coe_le.mpr (List.erase_sublist ..).subperm
    gcongr
  · intro j hj
    rcases List.mem_cons.mp hj with rfl | hused
    · exact Or.inr (Or.inl hlive)
    · exact Or.inl hused

theorem Inv.next_closeConn {connfd : Nat} (hstep : s.next (.closeConn connfd) = some s') :
    s'.Inv ∧ (s.Room → s'.Room) := by
  simp only [next] at hstep
  split_ifs at hstep
  cases hstep
  exact ⟨hinv.closeConn connfd, fun hroom => hroom.of_waiting rfl rfl rfl rfl rfl⟩

/-- **One step keeps each descriptor in its place, and with room it leaves room.** -/
theorem Inv.step {step : ServerStep} (hstep : s.next step = some s') :
    s'.Inv ∧ (s.HasRoom step → s.Room → s'.Room) := by
  cases step with
  | startThread i epfd => exact (hinv.next_startThread hstep).imp_right fun hroom _ => hroom
  | accept connfd => exact (hinv.next_accept hstep).imp_right fun hroom _ => hroom
  | getConnNum => exact (hinv.next_getConnNum hstep).imp_right fun hroom _ => hroom
  | finishAccept => exact hinv.next_finishAccept hstep
  | sendTask =>
    cases hstep
    have hmoved := hinv.move s.pool.sendTask rfl rfl rfl s.pool.sendTask_waiting
    exact hmoved.imp_right fun hroom _ => hroom
  | recv i => exact (hinv.next_recv hstep).imp_right fun hroom _ => hroom
  | dealTask i => exact (hinv.next_dealTask hstep).imp_right fun hroom _ => hroom
  | decreaseConn connfd => exact (hinv.next_decreaseConn hstep).imp_right fun hroom _ => hroom
  | closeConn connfd => exact (hinv.next_closeConn hstep).imp_right fun hroom _ => hroom

end Labels

/-! ### The size of the table

The comment in the constructor is right: beside connections the process has at most `5 + 2 *
thread_cnt` descriptors, so as long as fewer than `_max_conns` connections have one, the next is
within the table. -/

theorem Smallest.le_card {fd : Nat} (hfree : s.Smallest fd) : fd ≤ s.held.card := by
  have hsub : Finset.range fd ⊆ s.held.toFinset := by
    intro n hn
    exact Multiset.mem_toFinset.mpr (hfree.2 n (Finset.mem_range.mp hn))
  calc fd = (Finset.range fd).card := (Finset.card_range fd).symm
    _ ≤ s.held.toFinset.card := Finset.card_le_card hsub
    _ ≤ s.held.card := Multiset.toFinset_card_le _

theorem Inv.others_le (hinv : s.Inv) : s.others.length ≤ 5 + 2 * s.pool.threadCnt := by
  have hothers := hinv.others
  have hstarted := Finset.card_filter_le (Finset.range s.pool.threadCnt) (s.pool.started · = true)
  rw [Finset.card_range] at hstarted
  omega

theorem Inv.smallest_lt (hinv : s.Inv) {connfd : Nat} (hidle : s.accepting = .idle)
    (hfree : s.Smallest connfd)
    (hcount : s.live.length + s.pool.waiting.card + s.closing.length < s.maxConns) :
    connfd < s.tableSize := by
  have hle := hfree.le_card
  have hothers := hinv.others_le
  have hcard : s.held.card =
      s.others.length + s.live.length + s.closing.length + s.pool.waiting.card := by
    simp [held, hidle, AcceptState.connfds, add_assoc]
  rw [tableSize]
  omega

/-! ## Every run -/

/-- **The connection table stays in bounds** in every run in which a connection is handed over
    only while there is room for it. -/
theorem run_inBounds {maxConns threadCnt : Nat} {steps : List ServerStep}
    (run : Run (Guarded HasRoom (ofOption next)) (create maxConns threadCnt) steps s) :
    s.InBounds := by
  have hkept : ∀ s step t, Inv s ∧ Room s → Guarded HasRoom (ofOption next) s step t →
      Inv t ∧ Room t := by
    intro s step t hinv hstep
    obtain ⟨hinv', hroom'⟩ := hinv.1.step hstep.2
    exact ⟨hinv', hroom' hstep.1 hinv.2⟩
  obtain ⟨hinv, hroom⟩ := run.invariant hkept
    ⟨inv_create maxConns threadCnt, room_create maxConns threadCnt⟩
  exact InBounds.of_room hinv hroom

/-- With a limit of two, a connection is handed over while another one is live. -/
theorem run_inBounds_two : ∃ s, Run (Guarded HasRoom (ofOption next)) (create 2 1)
    [.startThread 0 6, .accept 7, .getConnNum, .finishAccept, .recv 0, .dealTask 0, .accept 8,
      .getConnNum, .finishAccept, .recv 0, .dealTask 0] s ∧ s.live = [8, 7] ∧ s.InBounds := by
  have hrun : ∃ s, Run (Guarded HasRoom (ofOption next)) (create 2 1)
      [.startThread 0 6, .accept 7, .getConnNum, .finishAccept, .recv 0, .dealTask 0, .accept 8,
        .getConnNum, .finishAccept, .recv 0, .dealTask 0] s ∧ s.live = [8, 7] := by
    refine ⟨_, Run.cons ⟨trivial, rfl⟩ (Run.cons ⟨trivial, rfl⟩ (Run.cons ⟨trivial, rfl⟩
      (Run.cons ⟨?_, rfl⟩ (Run.cons ⟨trivial, rfl⟩ (Run.cons ⟨trivial, rfl⟩
      (Run.cons ⟨trivial, rfl⟩ (Run.cons ⟨trivial, rfl⟩ (Run.cons ⟨?_, rfl⟩
      (Run.cons ⟨trivial, rfl⟩ (Run.cons ⟨trivial, rfl⟩ (Run.nil _))))))))))), rfl⟩
    · intro connfd curConn hcounted _
      cases hcounted
      decide
    · intro connfd curConn hcounted _
      cases hcounted
      decide
  obtain ⟨s, run, hlive⟩ := hrun
  exact ⟨s, run, hlive, run_inBounds run⟩

/-- With a limit of one, two connections are accepted before the thread comes to the first. -/
theorem backlog_overruns : ∃ s, Run (ofOption next) (create 1 1)
    [.startThread 0 6, .accept 7, .getConnNum, .finishAccept, .accept 8, .getConnNum,
      .finishAccept, .recv 0, .dealTask 0, .dealTask 0] s ∧
    s.maxConns < s.table.curConns ∧ 8 ∈ s.used ∧ s.tableSize = 8 ∧ ¬ s.InBounds := by
  have hrun : ∃ s, [ServerStep.startThread 0 6, .accept 7, .getConnNum, .finishAccept, .accept 8,
      .getConnNum, .finishAccept, .recv 0, .dealTask 0, .dealTask 0].foldlM next (create 1 1) =
      some s ∧ s.maxConns < s.table.curConns ∧ 8 ∈ s.used ∧ s.tableSize = 8 :=
    ⟨_, rfl, by decide, by decide, rfl⟩
  obtain ⟨s, hcomputed, hlimit, hused, hsize⟩ := hrun
  refine ⟨s, run_of_foldlM hcomputed, hlimit, hused, hsize, fun hbounds => ?_⟩
  exact absurd hbounds.limit (not_le.mpr hlimit)

/-! ## Without room

What the main thread has handed over cannot be taken back: once the threads have made the
connections that wait for them, the table is out of bounds. -/

/-- `t` is `s` some work of the threads later. -/
structure CaughtUp (s t : TcpServer) : Prop where
  maxConns : t.maxConns = s.maxConns
  threadCnt : t.pool.threadCnt = s.pool.threadCnt
  total : (t.live : Multiset Nat) + t.pool.waiting = s.live + s.pool.waiting
  used : ∀ fd, fd ∈ s.used ∨ fd ∈ s.pool.waiting → fd ∈ t.used ∨ fd ∈ t.pool.waiting

theorem CaughtUp.refl (s : TcpServer) : CaughtUp s s := ⟨rfl, rfl, rfl, fun _ h => h⟩

theorem CaughtUp.trans {t u : TcpServer} (first : CaughtUp s t) (second : CaughtUp t u) :
    CaughtUp s u :=
  ⟨second.maxConns.trans first.maxConns, second.threadCnt.trans first.threadCnt,
    second.total.trans first.total, fun fd hfd => second.used fd (first.used fd hfd)⟩

/-- The threads can go from `s` to `t`. -/
def Works (s t : TcpServer) : Prop := ∃ steps, Run (ofOption next) s steps t ∧ CaughtUp s t

theorem Works.refl (s : TcpServer) : Works s s := ⟨[], Run.nil s, CaughtUp.refl s⟩

theorem Works.trans {t u : TcpServer} (first : Works s t) (second : Works t u) : Works s u := by
  obtain ⟨steps, run, hcaught⟩ := first
  obtain ⟨more, run', hcaught'⟩ := second
  exact ⟨steps ++ more, run.append run', hcaught.trans hcaught'⟩

theorem Works.one {t : TcpServer} {step : ServerStep} (hstep : s.next step = some t)
    (hcaught : CaughtUp s t) : Works s t :=
  ⟨[step], Run.cons hstep (Run.nil t), hcaught⟩

theorem Works.threadCnt {t : TcpServer} (works : Works s t) :
    t.pool.threadCnt = s.pool.threadCnt := by
  obtain ⟨-, -, hcaught⟩ := works
  exact hcaught.threadCnt

/-- A thread deals with what it has taken out of its queue. -/
theorem works_tasks {i : Nat} {tasks : List TaskMsg} (hi : i < s.pool.threadCnt)
    (htasks : s.pool.tasks i = tasks) :
    ∃ t, Works s t ∧ t.pool.tasks i = [] ∧ t.pool.queues = s.pool.queues ∧
      t.pool.started = s.pool.started ∧ ∀ j ≠ i, t.pool.tasks j = s.pool.tasks j := by
  induction tasks generalizing s with
  | nil => exact ⟨s, Works.refl s, htasks, rfl, rfl, fun _ _ => rfl⟩
  | cons task tasks ih =>
    have hrest : (s.pool.popTask i).tasks i = tasks := by simp [ThreadPool.popTask, htasks]
    have hothers : ∀ j ≠ i, (s.pool.popTask i).tasks j = s.pool.tasks j := fun j hj => by
      simp [ThreadPool.popTask, Function.update_of_ne hj]
    have hone : ∃ t, Works s t ∧ t.pool = s.pool.popTask i := by
      cases task with
      | newTask =>
        have hstep : s.next (.dealTask i) = some { s with pool := s.pool.popTask i } := by
          simp only [next, if_pos hi, htasks]
        have hwaiting := ThreadPool.popTask_newTask htasks
        exact ⟨_, Works.one hstep ⟨rfl, rfl, by rw [hwaiting], by rw [hwaiting]; simp⟩, rfl⟩
      | newConn connfd =>
        have hstep : s.next (.dealTask i) = some { s with
            pool := s.pool.popTask i
            table := s.table.increaseConn connfd
            live := connfd :: s.live
            used := connfd :: s.used } := by
          simp only [next, if_pos hi, htasks]
        have hwaiting := ThreadPool.popTask_newConn hi htasks
        refine ⟨_, Works.one hstep ⟨rfl, rfl, ?_, ?_⟩, rfl⟩
        · rw [hwaiting, ← Multiset.cons_coe, Multiset.cons_add, Multiset.add_cons]
        · intro fd hfd
          rw [hwaiting, Multiset.mem_cons] at hfd
          rw [List.mem_cons]
          tauto
    obtain ⟨t, hworks, hpool⟩ := hone
    obtain ⟨u, hworks', hdone, hqueues, hstarted, hkept⟩ :=
      ih (s := t) (by rw [hpool]; exact hi) (by rw [hpool]; exact hrest)
    refine ⟨u, hworks.trans hworks', hdone, by rw [hqueues, hpool]; rfl,
      by rw [hstarted, hpool]; rfl, fun j hj => ?_⟩
    rw [hkept j hj, hpool, hothers j hj]

theorem exists_smallest (s : TcpServer) : ∃ fd, s.Smallest fd := by
  have hfree : ∃ fd, fd ∉ s.held := by
    obtain ⟨fd, hfd⟩ := Infinite.exists_notMem_finset s.held.toFinset
    exact ⟨fd, fun hmem => hfd (Multiset.mem_toFinset.mpr hmem)⟩
  exact ⟨Nat.find hfree, Nat.find_spec hfree, fun n hn => not_not.mp (Nat.find_min hfree hn)⟩

theorem works_start {i : Nat} (hi : i < s.pool.threadCnt) :
    ∃ t, Works s t ∧ t.pool.started i = true ∧ t.pool.tasks = s.pool.tasks ∧
      t.pool.queues = s.pool.queues := by
  by_cases hstarted : s.pool.started i = true
  · exact ⟨s, Works.refl s, hstarted, rfl, rfl⟩
  · obtain ⟨epfd, hfree⟩ := s.exists_smallest
    have hstep : s.next (.startThread i epfd) = some { s with
        pool := { s.pool with started := Function.update s.pool.started i true }
        others := epfd :: s.others } :=
      if_pos ⟨hi, Bool.eq_false_iff.mpr hstarted, hfree⟩
    exact ⟨_, Works.one hstep ⟨rfl, rfl, rfl, fun _ h => h⟩, Function.update_self _ _ _, rfl, rfl⟩

/-- A thread makes the connections that wait for it. -/
theorem works_thread {i : Nat} (hi : i < s.pool.threadCnt) :
    ∃ t, Works s t ∧ t.pool.pending i = 0 ∧ ∀ j ≠ i, t.pool.pending j = s.pool.pending j := by
  obtain ⟨t, hstart, hstarted, htasks, hqueues⟩ := works_start hi
  have hi' : i < t.pool.threadCnt := by rw [hstart.threadCnt]; exact hi
  obtain ⟨u, hfirst, hempty, hqueues', hstarted', hkept⟩ := works_tasks hi' rfl
  have hi'' : i < u.pool.threadCnt := by rw [hfirst.threadCnt]; exact hi'
  -- the tasks from before are done: the thread takes the rest out of its queue
  have hstep : u.next (.recv i) = some { u with pool := u.pool.recv i } :=
    if_pos ⟨hi'', by rw [hstarted', hstarted], hempty⟩
  have hwaiting := u.pool.recv_waiting i hempty
  have hrecv : Works u { u with pool := u.pool.recv i } :=
    Works.one hstep ⟨rfl, rfl, by rw [hwaiting], by rw [hwaiting]; exact fun _ h => h⟩
  obtain ⟨v, hsecond, hempty', hqueues'', -, hkept'⟩ :=
    works_tasks (s := { u with pool := u.pool.recv i }) hi'' rfl
  refine ⟨v, ((hstart.trans hfirst).trans hrecv).trans hsecond, ?_, fun j hj => ?_⟩
  · rw [ThreadPool.pending, hempty', hqueues'']
    simp [ThreadPool.recv, ThreadQueue.recv]
  · rw [ThreadPool.pending, ThreadPool.pending, hkept' j hj, hqueues'']
    simp [ThreadPool.recv, Function.update_of_ne hj, hkept j hj, hqueues', htasks, hqueues]

theorem works_all (s : TcpServer) : ∃ t, Works s t ∧ t.pool.waiting = 0 := by
  have hfirst : ∀ n ≤ s.pool.threadCnt, ∃ t, Works s t ∧ ∀ j < n, t.pool.pending j = 0 := by
    intro n
    induction n with
    | zero => exact fun _ => ⟨s, Works.refl s, fun j hj => absurd hj (Nat.not_lt_zero j)⟩
    | succ n ih =>
      intro hn
      obtain ⟨t, hworks, hdone⟩ := ih (Nat.le_of_succ_le hn)
      obtain ⟨u, hworks', hthread, hothers⟩ :=
        works_thread (s := t) (i := n) (by rw [hworks.threadCnt]; exact hn)
      refine ⟨u, hworks.trans hworks', fun j hj => ?_⟩
      by_cases hlast : j = n
      · rw [hlast, hthread]
      · rw [hothers j hlast, hdone j (by omega)]
  obtain ⟨t, hworks, hdone⟩ := hfirst s.pool.threadCnt le_rfl
  refine ⟨t, hworks, Finset.sum_eq_zero fun j hj => hdone j ?_⟩
  rw [← hworks.threadCnt]
  exact Finset.mem_range.mp hj

/-- **The condition is needed**: a connection handed over without room leads to a table out of
    bounds, without any further connection. -/
theorem Inv.handOver_overruns {t : TcpServer} {connfd : Nat} {curConn : Int} (hinv : s.Inv)
    (hcounted : s.accepting = .counted connfd curConn) (hcur : curConn < s.maxConns)
    (hroom : ¬ (s.live.length + s.pool.waiting.card < s.maxConns ∧ connfd < s.tableSize))
    (hstep : s.next .finishAccept = some t) :
    ∃ u, Works t u ∧ ¬ u.InBounds := by
  have hhanded : t.maxConns = s.maxConns ∧ t.pool.threadCnt = s.pool.threadCnt ∧
      t.live = s.live ∧ t.pool.waiting = connfd ::ₘ s.pool.waiting := by
    simp only [next, hcounted] at hstep
    split_ifs at hstep with hpool hfull
    · exact absurd hcur (not_lt.mpr hfull)
    · cases hstep
      have hthread := (ThreadPool.getThread_lt hinv.index hpool).1
      exact ⟨rfl, rfl, rfl, ThreadPool.send_newConn_waiting hthread connfd⟩
  obtain ⟨hmax, hthreads, hlive, hwaiting⟩ := hhanded
  obtain ⟨u, hworks, hnone⟩ := works_all t
  refine ⟨u, hworks, fun hbounds => hroom ?_⟩
  obtain ⟨-, -, hcaught⟩ := hworks
  refine ⟨?_, ?_⟩
  · have htotal := congrArg Multiset.card hcaught.total
    rw [hnone, hwaiting, hlive, Multiset.card_add, Multiset.card_add, Multiset.card_cons,
      Multiset.card_zero, Multiset.coe_card, Multiset.coe_card] at htotal
    have hlimit := hbounds.limit
    rw [hbounds.counts, hcaught.maxConns, hmax] at hlimit
    omega
  · have hmem : connfd ∈ t.pool.waiting := by rw [hwaiting]; exact Multiset.mem_cons_self _ _
    rcases hcaught.used connfd (Or.inr hmem) with hused | hwaits
    · have hindex := hbounds.indices connfd hused
      rw [tableSize, hcaught.maxConns, hcaught.threadCnt, hmax, hthreads] at hindex
      exact hindex
    · rw [hnone] at hwaits
      exact absurd hwaits (Multiset.notMem_zero _)

end TcpServer

end LarsSystem.Reactor
