import LarsSystem.LarsProto
import LarsSystem.Rounding

/-!
# `host_info`: one host and its call statistics

Counters are `uint32_t` and wrap. A rate is the quotient of counters, which
`report` computes in `double` and compares with a `float` of the configuration;
where the sum of the counters wraps to zero, the quotient is infinite, or a NaN.
-/

namespace LarsSystem.Agent

open LarsSystem.MachineWord
open LarsSystem.Rounding

/-- A finite `float`. -/
structure Single where
  value : ℚ
  bits : HasBits 24 value

/-- The fields of `load_balance_config` that the load balancer reads; `set_overload` also
    reads an `init_err_cnt`. -/
structure LbConfig where
  probeNum : Int
  initSuccCnt : BitVec 32
  initErrCnt : BitVec 32
  errRate : Single
  succRate : Single
  continErrLimit : BitVec 32
  continSuccLimit : BitVec 32
  localIp : BitVec 32

structure HostInfo where
  ip : BitVec 32
  port : BitVec 32
  vsucc : BitVec 32
  verr : BitVec 32
  rsucc : BitVec 32
  rerr : BitVec 32
  continSucc : BitVec 32
  continErr : BitVec 32
  overload : Bool
deriving DecidableEq, Repr

/-- `num * 1.0 / den > limit`, a division in `double`. -/
def rateExceeds (num den : BitVec 32) (limit : Single) : Bool :=
  if den = 0 then decide (num ≠ 0) else decide (limit.value < rounded 53 num.toNat den.toNat)

namespace HostInfo

def create (ip port initVsucc : BitVec 32) : HostInfo :=
  { ip := ip
    port := port
    vsucc := initVsucc
    verr := 0
    rsucc := 0
    rerr := 0
    continSucc := 0
    continErr := 0
    overload := false }

def setIdle (cfg : LbConfig) (hi : HostInfo) : HostInfo :=
  { hi with
    vsucc := cfg.initSuccCnt
    verr := 0
    rsucc := 0
    rerr := 0
    continSucc := 0
    continErr := 0
    overload := false }

def setOverload (cfg : LbConfig) (hi : HostInfo) : HostInfo :=
  { hi with
    vsucc := 0
    verr := cfg.initErrCnt
    rsucc := 0
    rerr := 0
    continErr := 0
    continSucc := 0
    overload := true }

/-- The counting of `report`. -/
def count (hi : HostInfo) (retcode : BitVec 32) : HostInfo :=
  if retcode = RET_SUCC then
    { hi with
      vsucc := hi.vsucc + 1
      rsucc := hi.rsucc + 1
      continSucc := hi.continSucc + 1
      continErr := 0 }
  else
    { hi with
      verr := hi.verr + 1
      rerr := hi.rerr + 1
      continErr := hi.continErr + 1
      continSucc := 0 }

/-- The overload condition of an idle host. -/
def failing (cfg : LbConfig) (hi : HostInfo) : Bool :=
  rateExceeds hi.verr (hi.vsucc + hi.verr) cfg.errRate ||
    decide (cfg.continErrLimit ≤ hi.continErr)

/-- The idle condition of an overload host. -/
def recovered (cfg : LbConfig) (hi : HostInfo) : Bool :=
  rateExceeds hi.vsucc (hi.vsucc + hi.verr) cfg.succRate ||
    decide (cfg.continSuccLimit ≤ hi.continSucc)

def key (hi : HostInfo) : BitVec 64 := pack hi.ip hi.port

/-! The address never changes, and the overload flag only where it is set. -/

@[simp] theorem key_count (hi : HostInfo) (retcode : BitVec 32) :
    (hi.count retcode).key = hi.key := by
  unfold count
  split <;> rfl

@[simp] theorem overload_count (hi : HostInfo) (retcode : BitVec 32) :
    (hi.count retcode).overload = hi.overload := by
  unfold count
  split <;> rfl

/-- What `report` makes of the host it is about. -/
def afterReport (cfg : LbConfig) (old : HostInfo) (retcode : BitVec 32) : HostInfo :=
  let hi := old.count retcode
  if hi.overload = false ∧ retcode ≠ RET_SUCC then
    if hi.failing cfg then hi.setOverload cfg else hi
  else if hi.overload = true ∧ retcode = RET_SUCC then
    if hi.recovered cfg then hi.setIdle cfg else hi
  else hi

@[simp] theorem key_afterReport (cfg : LbConfig) (hi : HostInfo) (retcode : BitVec 32) :
    (hi.afterReport cfg retcode).key = hi.key := by
  simp only [afterReport]
  split
  · split
    · exact key_count hi retcode
    · exact key_count hi retcode
  · split
    · split
      · exact key_count hi retcode
      · exact key_count hi retcode
    · exact key_count hi retcode

end HostInfo

end LarsSystem.Agent
