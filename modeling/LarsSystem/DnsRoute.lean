import LarsSystem.LarsProto

/-!
# `Route`: the routes of the DNS service and their tables

`Route` answers `get_hosts` from one map and loads the database into another,
which `swap` puts in its place. The three tables are the database's; a query is
answered with rows, or fails and is answered with `none`. A `hash_set` is the
list of its elements without repetition, and a `hash_map` of sets, which never
holds an empty one, is a function with `[]` for an absent key.
-/

namespace LarsSystem.Dns

open LarsSystem.MachineWord

abbrev HostSet := List (BitVec 64)

abbrev RouteMap := BitVec 64 → HostSet

/-- A row of `RouteData`, its columns after `atoi`. -/
structure RouteRow where
  modid : BitVec 32
  cmdid : BitVec 32
  serverip : BitVec 32
  serverport : BitVec 32
deriving DecidableEq, Repr

/-- A row of `RouteChange`. -/
structure ChangeRow where
  id : Nat
  modid : BitVec 32
  cmdid : BitVec 32
  version : Nat
deriving DecidableEq, Repr

def ChangeRow.key (row : ChangeRow) : BitVec 64 := pack row.modid row.cmdid

/-- The database; `routeVersion` is the version in the row of `RouteVersion` with id 1. -/
structure Tables where
  routeData : List RouteRow
  routeVersion : Option Nat
  routeChange : List ChangeRow
deriving Repr

structure Route where
  data : RouteMap
  temp : RouteMap
  version : Nat

namespace Route

def emptyMap : RouteMap := fun _ => []

/-- `map[key].insert(value)`. -/
def insertRow (map : RouteMap) (row : RouteRow) : RouteMap :=
  let key := pack row.modid row.cmdid
  Function.update map key ((map key).insert (pack row.serverip row.serverport))

/-- The map of the rows of `RouteData`. -/
def mapOf (rows : List RouteRow) : RouteMap := rows.foldl insertRow emptyMap

/-- The constructor with `build_maps`. -/
def create (rows : List RouteRow) : Route := ⟨mapOf rows, emptyMap, 0⟩

/-- `get_hosts`. -/
def getHosts (map : RouteMap) (modid cmdid : BitVec 32) : HostSet := map (pack modid cmdid)

/-- `load_version`: -1 if there is no answer or no row, 0 if the version is the recorded
    one, and 1 after a new one has been recorded. -/
def loadVersion (r : Route) (answer : Option (Option Nat)) : Int × Route :=
  match answer with
  | none => (-1, r)
  | some none => (-1, r)
  | some (some newVersion) =>
    if newVersion = r.version then (0, r) else (1, { r with version := newVersion })

/-- `load_route_data`; the temporary map is cleared in any case. -/
def loadRouteData (r : Route) (answer : Option (List RouteRow)) : Int × Route :=
  match answer with
  | none => (-1, { r with temp := emptyMap })
  | some rows => (0, { r with temp := mapOf rows })

def swap (r : Route) : Route := { r with data := r.temp, temp := r.data }

/-- The rows that `SELECT .. WHERE version <= _version` returns. -/
def dueChanges (r : Route) (changes : List ChangeRow) : List ChangeRow :=
  changes.filter fun row => row.version ≤ r.version

/-- `load_changes`, on a vector that is empty; an answer that fails leaves it so. -/
def loadChanges (r : Route) (answer : Option (List ChangeRow)) : List (BitVec 64) :=
  match answer with
  | none => []
  | some changes => (r.dueChanges changes).map ChangeRow.key

/-- `remove_changes`; a query that fails deletes nothing. -/
def removeChanges (r : Route) (tables : Tables) (removeAll ok : Bool) : Tables :=
  if ok then
    { tables with
      routeChange :=
        if removeAll then []
        else tables.routeChange.filter fun row => ¬ row.version ≤ r.version }
  else tables

/-! With no row up to the recorded version there is nothing to load or to remove. -/

theorem loadChanges_of_none_due {r : Route} {changes : List ChangeRow} (ok : Bool)
    (hnone : ∀ row ∈ changes, r.version < row.version) :
    r.loadChanges (if ok then some changes else none) = [] := by
  cases ok with
  | false => rfl
  | true =>
    have hfilter : r.dueChanges changes = [] := by
      apply List.filter_eq_nil_iff.mpr
      intro row hrow
      simpa using hnone row hrow
    simp only [if_true, loadChanges, hfilter, List.map_nil]

theorem removeChanges_of_none_due {r : Route} {tables : Tables} (ok : Bool)
    (hnone : ∀ row ∈ tables.routeChange, r.version < row.version) :
    r.removeChanges tables false ok = tables := by
  cases ok with
  | false => rfl
  | true =>
    have hfilter : (tables.routeChange.filter fun row => ¬ row.version ≤ r.version) =
        tables.routeChange := by
      apply List.filter_eq_self.mpr
      intro row hrow
      simpa using hnone row hrow
    simp only [removeChanges, if_true, Bool.false_eq_true, if_false, hfilter]

end Route

end LarsSystem.Dns
