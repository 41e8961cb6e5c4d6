import LarsSystem.Noninterference
import LarsSystem.RouteLb
import LarsSystem.UpdateHosts

/-!
# The modules of a `route_lb` do not know of each other

Every operation of a `route_lb` has to do with the key of its (modid, cmdid), and
different pairs have different keys. So the operations on one pair are unseen by
the others, as long as they end. An operation that comes upon a deleted host, or
is to choose from empty lists, ends the process for all of them. What a new
`load_balance` finds in its `_access_cnt`, which the constructor leaves alone, is
an input of the `get_host` that creates it.
-/

namespace LarsSystem.Agent

open LarsSystem.MachineWord
open LarsSystem.Transition

inductive RouteOp where
  | getHost (modid cmdid : CInt) (rsp : GetHostResponse) (accessCnt : Int) (number : Nat)
  | updateHost (modid cmdid : CInt) (rsp : GetRouteResponse)
  | reportHost (modid cmdid : CInt) (ip port retcode ts : BitVec 32)

def RouteOp.module : RouteOp → CInt × CInt
  | .getHost modid cmdid _ _ _ => (modid, cmdid)
  | .updateHost modid cmdid _ => (modid, cmdid)
  | .reportHost modid cmdid _ _ _ _ => (modid, cmdid)

/-- What an operation gives back, and what it sends to the other threads. -/
inductive RouteAnswer where
  | host (ret : BitVec 32) (rsp : GetHostResponse) (sent : Option GetRouteRequest)
  | updated
  | reported (report : Option ReportStatusRequest)

namespace RouteMap

def step (cfg : LbConfig) (map : RouteMap) : RouteOp → Except RouteFault (RouteMap × RouteAnswer)
  | .getHost modid cmdid rsp accessCnt number =>
    (map.getHost cfg modid cmdid rsp accessCnt number).map fun result =>
      (result.map, .host result.ret result.rsp result.sent)
  | .updateHost modid cmdid rsp =>
    (map.updateHost cfg modid cmdid rsp).map fun map => (map, .updated)
  | .reportHost modid cmdid ip port retcode ts =>
    (map.reportHost cfg modid cmdid ip port retcode ts).map fun (map, report) =>
      (map, .reported report)

/-- The object of a module. -/
def look (map : RouteMap) (module : CInt × CInt) : Option RouteEntry := map (pack module.1 module.2)

/-- The maps that a `route_lb` can come to. -/
def Reachable (cfg : LbConfig) (map : RouteMap) : Prop :=
  ∃ past : List RouteOp, past.foldlM (stepOf (step cfg)) empty = Except.ok map

/-- **Isolation from one module**: leaving out its operations changes no answer to the others and
    nothing in their objects. -/
def Isolated (cfg : LbConfig) (module : CInt × CInt) (map : RouteMap) (ops : List RouteOp) :
    Prop :=
  Unseen (step cfg) (fun op => op.module ≠ module) (SameBut look module) map map ops

/-- The operation comes upon no deleted host, and has a host to choose or none to look for. -/
def Harmless (cfg : LbConfig) (map : RouteMap) : RouteOp → Prop
  | .getHost modid cmdid _ _ _ => ∀ entry, map (pack modid cmdid) = some entry →
      entry.lb.empty = false → entry.lb.CanChoose cfg
  | .updateHost modid cmdid rsp => ∀ entry, map (pack modid cmdid) = some entry →
      rsp.hosts ≠ [] → entry.lb.LeaversThere rsp.hosts
  | .reportHost modid cmdid ip port _ _ => ∀ entry, map (pack modid cmdid) = some entry →
      entry.lb.HostThere (pack ip port)

/-! ## One key -/

section Key

variable {cfg : LbConfig} {map map' : RouteMap} {modid cmdid : CInt}

theorem set_other {key key' : BitVec 64} (hne : key' ≠ key) (entry : RouteEntry) :
    map.set key entry key' = map key' :=
  Function.update_of_ne hne _ _

theorem erase_other {key key' : BitVec 64} (hne : key' ≠ key) : map.erase key key' = map key' :=
  Function.update_of_ne hne _ _

theorem pack_ne {module module' : CInt × CInt} (hne : module' ≠ module) :
    pack module'.1 module'.2 ≠ pack module.1 module.2 := by
  intro heq
  obtain ⟨hfst, hsnd⟩ := pack_inj.mp heq
  exact hne (Prod.ext hfst hsnd)

@[simp] theorem look_set (map : RouteMap) (modid cmdid : CInt) (entry : RouteEntry) :
    (map.set (pack modid cmdid) entry).look (modid, cmdid) = some entry :=
  Function.update_self _ _ _

@[simp] theorem look_erase (map : RouteMap) (modid cmdid : CInt) :
    (map.erase (pack modid cmdid)).look (modid, cmdid) = none :=
  Function.update_self _ _ _

/-- An operation leaves the objects of the other modules alone. -/
theorem step_frame {op : RouteOp} {answer : RouteAnswer}
    (hstep : map.step cfg op = Except.ok (map', answer)) {module : CInt × CInt}
    (hne : module ≠ op.module) : map'.look module = map.look module := by
  have hkey := pack_ne hne
  cases op with
  | getHost modid cmdid rsp accessCnt number =>
    obtain ⟨result, hget, heq⟩ := map_eq_ok.mp hstep
    obtain ⟨rfl, -⟩ := Prod.mk.inj heq
    rcases getHost_cases hget with ⟨entry, lb, -, -, -, hmap⟩ | ⟨-, -, hmap⟩
    · rw [hmap]
      exact set_other hkey _
    · rw [hmap]
      exact set_other hkey _
  | updateHost modid cmdid rsp =>
    obtain ⟨next, hupdate, heq⟩ := map_eq_ok.mp hstep
    obtain ⟨rfl, -⟩ := Prod.mk.inj heq
    rcases updateHost_cases hupdate with ⟨-, rfl⟩ | rfl | ⟨entry, lb, -, -, rfl⟩
    · rfl
    · exact erase_other hkey
    · exact set_other hkey _
  | reportHost modid cmdid ip port retcode ts =>
    obtain ⟨⟨next, report⟩, hreport, heq⟩ := map_eq_ok.mp hstep
    obtain ⟨rfl, -⟩ := Prod.mk.inj heq
    rcases reportHost_cases hreport with rfl | ⟨entry, lb, -, -, rfl⟩
    · rfl
    · exact set_other hkey _

/-- The object of its module decides what an operation does. -/
theorem step_depends {s t : RouteMap} {op : RouteOp} (hsame : s.look op.module = t.look op.module) :
    Agree (fun r q => r.2 = q.2 ∧ r.1.look op.module = q.1.look op.module)
      (s.step cfg op) (t.step cfg op) := by
  cases op with
  | getHost modid cmdid rsp accessCnt number =>
    have hentry : s (pack modid cmdid) = t (pack modid cmdid) := hsame
    simp only [step, getHost, hentry, RouteOp.module]
    split
    · split
      · split
        · exact ⟨rfl, hsame⟩
        · exact rfl
      · split
        · exact rfl
        · exact ⟨rfl, (look_set ..).trans (look_set ..).symm⟩
    · exact ⟨rfl, (look_set ..).trans (look_set ..).symm⟩
  | updateHost modid cmdid rsp =>
    have hentry : s (pack modid cmdid) = t (pack modid cmdid) := hsame
    simp only [step, updateHost, hentry, RouteOp.module]
    split
    · exact ⟨rfl, hsame⟩
    · split
      · exact ⟨rfl, (look_erase ..).trans (look_erase ..).symm⟩
      · split
        · exact rfl
        · exact ⟨rfl, (look_set ..).trans (look_set ..).symm⟩
  | reportHost modid cmdid ip port retcode ts =>
    have hentry : s (pack modid cmdid) = t (pack modid cmdid) := hsame
    simp only [step, reportHost, hentry, RouteOp.module]
    split
    · exact ⟨rfl, hsame⟩
    · split
      · exact rfl
      · split
        · exact rfl
        · exact ⟨rfl, (look_set ..).trans (look_set ..).symm⟩

theorem step_indexed (cfg : LbConfig) : Indexed look (step cfg) RouteOp.module where
  frame := fun hstep _ hne => step_frame hstep hne
  depends := step_depends

end Key

/-! ## Which operations end -/

/-- The objects of a reachable map: their hosts are as `Alive` says, and the assertion on the
    status holds. -/
def AllAlive (map : RouteMap) : Prop :=
  ∀ key entry, map key = some entry → entry.lb.Alive ∧ entry.status = .pulling

section AllAlive

variable {cfg : LbConfig} {map map' : RouteMap} {key : BitVec 64} {entry : RouteEntry}

theorem AllAlive.set (hall : AllAlive map) (halive : entry.lb.Alive)
    (hstatus : entry.status = .pulling) : AllAlive (map.set key entry) := by
  intro other held hheld
  by_cases hsame : other = key
  · rw [hsame, RouteMap.set, Function.update_self] at hheld
    obtain rfl := Option.some.inj hheld
    exact ⟨halive, hstatus⟩
  · rw [set_other hsame] at hheld
    exact hall other held hheld

theorem AllAlive.erase (hall : AllAlive map) : AllAlive (map.erase key) := by
  intro other held hheld
  by_cases hsame : other = key
  · rw [hsame, RouteMap.erase, Function.update_self] at hheld
    exact nomatch hheld
  · rw [erase_other hsame] at hheld
    exact hall other held hheld

/-- An operation that ends keeps what it found. -/
theorem AllAlive.step (hall : AllAlive map) {op : RouteOp} {answer : RouteAnswer}
    (hstep : map.step cfg op = Except.ok (map', answer)) : AllAlive map' := by
  cases op with
  | getHost modid cmdid rsp accessCnt number =>
    obtain ⟨result, hget, heq⟩ := map_eq_ok.mp hstep
    obtain ⟨rfl, -⟩ := Prod.mk.inj heq
    rcases getHost_cases hget with ⟨entry, lb, hentry, chosen, -, hmap⟩ | ⟨-, -, hmap⟩
    · obtain ⟨halive, hstatus⟩ := hall _ entry hentry
      rw [hmap]
      rcases chosen with rfl | ⟨ret, host, hchoice⟩
      · exact hall.set halive hstatus
      · exact hall.set (halive.choice hchoice) hstatus
    · rw [hmap]
      exact hall.set (LoadBalance.alive_create modid cmdid accessCnt) rfl
  | updateHost modid cmdid rsp =>
    obtain ⟨next, hupdate, heq⟩ := map_eq_ok.mp hstep
    obtain ⟨rfl, -⟩ := Prod.mk.inj heq
    rcases updateHost_cases hupdate with ⟨-, rfl⟩ | rfl | ⟨entry, lb, hentry, hlb, rfl⟩
    · exact hall
    · exact hall.erase
    · obtain ⟨halive, hstatus⟩ := hall _ entry hentry
      exact hall.set (halive.update hlb) hstatus
  | reportHost modid cmdid ip port retcode ts =>
    obtain ⟨⟨next, report⟩, hreport, heq⟩ := map_eq_ok.mp hstep
    obtain ⟨rfl, -⟩ := Prod.mk.inj heq
    rcases reportHost_cases hreport with rfl | ⟨entry, lb, hentry, hlb, rfl⟩
    · exact hall
    · obtain ⟨halive, hstatus⟩ := hall _ entry hentry
      obtain ⟨lb', hlb', halive'⟩ :=
        halive.report cfg (LoadBalance.hostThere_of_report hlb) retcode
      obtain rfl := Except.ok.inj (hlb.symm.trans hlb')
      exact hall.set halive' hstatus

/-- **An operation ends exactly if it is harmless.** -/
theorem AllAlive.step_ok_iff (hall : AllAlive map) (op : RouteOp) :
    (∃ r, map.step cfg op = Except.ok r) ↔ map.Harmless cfg op := by
  cases op with
  | getHost modid cmdid rsp accessCnt number =>
    simp only [RouteMap.step, getHost, Harmless]
    cases hentry : map (pack modid cmdid) with
    | none => exact iff_of_true ⟨_, rfl⟩ fun _ hnone => nomatch hnone
    | some entry =>
      obtain ⟨halive, hstatus⟩ := hall _ entry hentry
      simp only [Option.some.injEq, forall_eq', hstatus, if_true]
      cases hempty : entry.lb.empty with
      | true => exact iff_of_true ⟨_, rfl⟩ fun hnonempty => nomatch hnonempty
      | false =>
        rw [forall_prop_of_true rfl, ← LoadBalance.choiceOneHost_ok_iff fun _ hp => halive.live hp]
        cases entry.lb.choiceOneHost cfg with
        | error fault => exact iff_of_false (fun ⟨_, hr⟩ => nomatch hr) fun ⟨_, hr⟩ => nomatch hr
        | ok chosen => exact iff_of_true ⟨_, rfl⟩ ⟨_, rfl⟩
  | updateHost modid cmdid rsp =>
    simp only [RouteMap.step, updateHost, Harmless]
    cases hentry : map (pack modid cmdid) with
    | none => exact iff_of_true ⟨_, rfl⟩ fun _ hnone => nomatch hnone
    | some entry =>
      obtain ⟨halive, hstatus⟩ := hall _ entry hentry
      simp only [Option.some.injEq, forall_eq', List.length_eq_zero_iff]
      by_cases hnone : rsp.hosts = []
      · rw [if_pos hnone]
        exact iff_of_true ⟨_, rfl⟩ fun hsome => absurd hnone hsome
      · rw [if_neg hnone, forall_prop_of_true hnone, ← halive.update_ok_iff cfg hnone]
        cases entry.lb.update cfg rsp.hosts with
        | error fault => exact iff_of_false (fun ⟨_, hr⟩ => nomatch hr) fun ⟨_, hr⟩ => nomatch hr
        | ok lb => exact iff_of_true ⟨_, rfl⟩ ⟨_, rfl⟩
  | reportHost modid cmdid ip port retcode ts =>
    simp only [RouteMap.step, reportHost, Harmless]
    cases hentry : map (pack modid cmdid) with
    | none => exact iff_of_true ⟨_, rfl⟩ fun _ hnone => nomatch hnone
    | some entry =>
      obtain ⟨halive, hstatus⟩ := hall _ entry hentry
      simp only [Option.some.injEq, forall_eq']
      constructor
      · rintro ⟨r, hr⟩
        cases hreport : entry.lb.report cfg ip port retcode with
        | error fault =>
          rw [hreport] at hr
          exact nomatch hr
        | ok lb => exact LoadBalance.hostThere_of_report hreport
      · intro hthere
        obtain ⟨lb, hreport, halive'⟩ := halive.report cfg hthere retcode
        obtain ⟨req, hcommit⟩ := LoadBalance.commit_ok cfg (fun _ hp => halive'.live hp) ts
        simp only [hreport, hcommit]
        exact ⟨_, rfl⟩

theorem Reachable.allAlive (reachable : Reachable cfg map) : AllAlive map := by
  obtain ⟨past, hpast⟩ := reachable
  refine foldlM_invariant AllAlive ?_ hpast fun _ _ hnone => nomatch hnone
  intro s op t hstep hall
  obtain ⟨⟨next, answer⟩, hok, rfl⟩ := map_eq_ok.mp hstep
  exact hall.step hok

end AllAlive

/-! ## Isolation -/

/-- **The other modules are isolated exactly from the operations that are harmless**, in every
    reachable state and for every sequence of operations on all modules. -/
theorem isolated_iff {cfg : LbConfig} {map : RouteMap} (reachable : Reachable cfg map)
    (module : CInt × CInt) (ops : List RouteOp) :
    Isolated cfg module map ops ↔
      Meets (stepOf (step cfg)) (fun map op => op.module = module → map.Harmless cfg op)
        map ops := by
  have unwinding : Unwinding (step cfg) (fun op => op.module ≠ module) (SameBut look module)
      AllAlive (Harmless cfg) :=
    (step_indexed cfg).unwinding module (fun hall hstep => hall.step hstep)
      fun hall => hall.step_ok_iff _
  have hunseen := unwinding.unseen_iff reachable.allAlive (fun _ _ => rfl) ops
  simp only [ne_eq, not_not] at hunseen
  exact hunseen

/-- The `get_host` of a module, as the UDP server calls it. -/
def ask (modid cmdid : CInt) : RouteOp := .getHost modid cmdid ⟨0, modid, cmdid, 0, none⟩ 0 0

/-- An answer of the DNS service with one host. -/
def install (modid cmdid : CInt) (h : HostEntry) : RouteOp :=
  .updateHost modid cmdid ⟨modid, cmdid, [h]⟩

theorem isolated_from_first :
    Isolated Balancer.defaultConfig (1, 1) empty
      [ask 1 1, install 1 1 ⟨1, 80⟩, ask 2 2, ask 1 1] := by
  refine (isolated_iff ⟨[], rfl⟩ (1, 1) _).mpr ?_
  refine (meets_stepOf rfl _).mpr ⟨?_, (meets_stepOf rfl _).mpr ⟨?_, (meets_stepOf rfl _).mpr ⟨?_,
    (meets_stepOf rfl _).mpr ⟨?_, trivial⟩⟩⟩⟩
  · rintro - entry hentry
    exact nomatch hentry
  · rintro - entry hentry - key - p hlookup
    cases hentry
    exact nomatch hlookup
  · exact fun hmodule => absurd hmodule (by decide)
  · rintro - entry hentry -
    cases hentry
    exact Or.inl (List.cons_ne_nil _ _)

/-- A host is replaced by another, and the second answer with that other one deletes it again. -/
theorem second_answer_ends_all :
    Reachable Balancer.defaultConfig empty ∧
      ¬ Isolated Balancer.defaultConfig (1, 1) empty
        [ask 1 1, install 1 1 ⟨1, 80⟩, install 1 1 ⟨2, 80⟩, install 1 1 ⟨2, 80⟩, ask 2 2] := by
  refine ⟨⟨[], rfl⟩, ?_⟩
  rintro ⟨hanswers, -⟩
  have hmixed : (trace (step Balancer.defaultConfig) (fun op => op.module ≠ (1, 1)) empty
      [ask 1 1, install 1 1 ⟨1, 80⟩, install 1 1 ⟨2, 80⟩, install 1 1 ⟨2, 80⟩,
        ask 2 2]).1.length = 0 := rfl
  have halone : (trace (step Balancer.defaultConfig) (fun op => op.module ≠ (1, 1)) empty
      ([ask 1 1, install 1 1 ⟨1, 80⟩, install 1 1 ⟨2, 80⟩, install 1 1 ⟨2, 80⟩,
        ask 2 2].filter fun op => op.module ≠ (1, 1))).1.length = 1 := rfl
  exact absurd (hmixed.symm.trans ((congrArg List.length hanswers).trans halone)) (by decide)

end RouteMap

end LarsSystem.Agent
