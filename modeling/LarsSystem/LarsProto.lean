import LarsSystem.MachineWord

/-!
# Messages between DNS service, agent and reporter

The messages of `lars.proto` that the modelled functions build and read, with
their `int32` and `uint32` fields as 32-bit words, and the keys under which
hosts and modules are filed.
-/

namespace LarsSystem

open LarsSystem.MachineWord

def RET_SUCC : BitVec 32 := 0
def RET_OVERLOAD : BitVec 32 := 1
def RET_SYSTEM_ERROR : BitVec 32 := 2
def RET_NOEXIST : BitVec 32 := 3

/-- Of `MessageId`, what the API waits for. -/
def ID_GetHostResponse : CInt := 5

/-- A `lars::HostInfo`. -/
structure HostEntry where
  ip : BitVec 32
  port : BitVec 32
deriving DecidableEq, Repr

def HostEntry.key (h : HostEntry) : BitVec 64 := pack h.ip h.port

/-- `set_ip((uint32_t)(ip_port >> 32))`, `set_port((int)ip_port)`. -/
def HostEntry.ofKey (ipPort : BitVec 64) : HostEntry := ⟨unpackHigh ipPort, unpackLow ipPort⟩

structure GetRouteRequest where
  modid : BitVec 32
  cmdid : BitVec 32
deriving DecidableEq, Repr

/-- The key under which a request is filed on both sides. -/
def GetRouteRequest.mod (req : GetRouteRequest) : BitVec 64 := pack req.modid req.cmdid

structure GetRouteResponse where
  modid : BitVec 32
  cmdid : BitVec 32
  hosts : List HostEntry
deriving DecidableEq, Repr

structure GetHostRequest where
  seq : BitVec 32
  modid : BitVec 32
  cmdid : BitVec 32
deriving DecidableEq, Repr

structure GetHostResponse where
  seq : BitVec 32
  modid : BitVec 32
  cmdid : BitVec 32
  retcode : BitVec 32
  host : Option HostEntry
deriving DecidableEq, Repr

structure ReportRequest where
  modid : BitVec 32
  cmdid : BitVec 32
  host : HostEntry
  retcode : BitVec 32
deriving DecidableEq, Repr

structure HostCallResult where
  ip : BitVec 32
  port : BitVec 32
  succ : BitVec 32
  err : BitVec 32
  overload : Bool
deriving DecidableEq, Repr

structure ReportStatusRequest where
  modid : BitVec 32
  cmdid : BitVec 32
  caller : BitVec 32
  results : List HostCallResult
  ts : BitVec 32
deriving DecidableEq, Repr

end LarsSystem
