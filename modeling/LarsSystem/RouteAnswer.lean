import LarsSystem.PushTask
import Mathlib.Data.Finset.Card

/-!
# From the table of routes to the two answers

An agent hears of a route in two ways: `get_request` answers its request, and
`push_change_task` sends it a change. Both take the hosts from the map that was
filled from `RouteData`, whose columns go through `atoi`. The push has nothing but
the packed key, and both have nothing but the packed addresses. A pair whose low
half is negative does not come out of its key as it went in.
-/

namespace LarsSystem.Dns

open LarsSystem.MachineWord

/-- The `int(10) unsigned` columns of `RouteData`. -/
structure RouteColumns where
  modid : Nat
  cmdid : Nat
  serverip : Nat
  serverport : Nat
deriving DecidableEq, Repr

/-- `atoi` of a column, which is below 2^32: a `long` cut to an `int`. -/
def atoi (column : Nat) : CInt := BitVec.ofNat 32 column

def RouteColumns.row (columns : RouteColumns) : RouteRow :=
  ⟨atoi columns.modid, atoi columns.cmdid, atoi columns.serverip, atoi columns.serverport⟩

/-- The map that `load_route_data` fills from the table. -/
def loadTable (table : List RouteColumns) : RouteMap :=
  Route.mapOf (table.map RouteColumns.row)

/-- The answer that `get_request` builds. -/
def getRequest (route : RouteMap) (modid cmdid : CInt) : GetRouteResponse :=
  ⟨modid, cmdid, (Route.getHosts route modid cmdid).map HostEntry.ofKey⟩

/-- The answer that `push_change_task` builds for a key. -/
def pushAnswer (route : RouteMap) (mod : Mod) : GetRouteResponse :=
  PushState.response mod (Route.getHosts route (unpackHigh mod) (unpackLow mod))

/-! ## What the map holds -/

namespace Route

theorem mem_insertRow {map : RouteMap} {row : RouteRow} {key value : BitVec 64} :
    value ∈ insertRow map row key ↔
      pack row.modid row.cmdid = key ∧ value = pack row.serverip row.serverport ∨
        value ∈ map key := by
  unfold insertRow
  by_cases hkey : key = pack row.modid row.cmdid
  · rw [hkey, Function.update_self, List.mem_insert_iff]
    constructor
    · rintro (hvalue | hold)
      · exact Or.inl ⟨rfl, hvalue⟩
      · exact Or.inr hold
    · rintro (⟨-, hvalue⟩ | hold)
      · exact Or.inl hvalue
      · exact Or.inr hold
  · rw [Function.update_of_ne hkey]
    constructor
    · exact Or.inr
    · rintro (⟨hsame, -⟩ | hold)
      · exact absurd hsame.symm hkey
      · exact hold

theorem mem_foldl_insertRow {map : RouteMap} {rows : List RouteRow} {key value : BitVec 64} :
    value ∈ rows.foldl insertRow map key ↔
      (∃ row ∈ rows, pack row.modid row.cmdid = key ∧
        value = pack row.serverip row.serverport) ∨ value ∈ map key := by
  induction rows generalizing map with
  | nil => simp
  | cons first rows ih =>
    rw [List.foldl_cons, ih, mem_insertRow]
    constructor
    · rintro (⟨row, hrow, hvalue⟩ | hfirst | hold)
      · exact Or.inl ⟨row, List.mem_cons_of_mem _ hrow, hvalue⟩
      · exact Or.inl ⟨first, List.mem_cons_self, hfirst⟩
      · exact Or.inr hold
    · rintro (⟨row, hrow, hvalue⟩ | hold)
      · rcases List.mem_cons.mp hrow with rfl | hrest
        · exact Or.inr (Or.inl hvalue)
        · exact Or.inl ⟨row, hrest, hvalue⟩
      · exact Or.inr (Or.inr hold)

theorem mem_mapOf {rows : List RouteRow} {modid cmdid : CInt} {value : BitVec 64} :
    value ∈ mapOf rows (pack modid cmdid) ↔
      ∃ row ∈ rows, row.modid = modid ∧ row.cmdid = cmdid ∧
        value = pack row.serverip row.serverport := by
  unfold mapOf
  rw [mem_foldl_insertRow]
  constructor
  · rintro (⟨row, hrow, hkey, hvalue⟩ | hnone)
    · obtain ⟨hmod, hcmd⟩ := pack_inj.mp hkey
      exact ⟨row, hrow, hmod, hcmd, hvalue⟩
    · exact absurd hnone List.not_mem_nil
  · rintro ⟨row, hrow, rfl, rfl, hvalue⟩
    exact Or.inl ⟨row, hrow, rfl, hvalue⟩

/-- A `hash_set` holds each of its elements once. -/
theorem mapOf_nodup (rows : List RouteRow) (key : BitVec 64) : (mapOf rows key).Nodup := by
  have hfold : ∀ map : RouteMap, (map key).Nodup → (rows.foldl insertRow map key).Nodup := by
    induction rows with
    | nil => exact fun map hmap => hmap
    | cons first rows ih =>
      intro map hmap
      apply ih
      unfold insertRow
      by_cases hkey : key = pack first.modid first.cmdid
      · rw [hkey, Function.update_self]
        rw [hkey] at hmap
        exact hmap.insert
      · rw [Function.update_of_ne hkey]
        exact hmap
  exact hfold emptyMap List.nodup_nil

end Route

/-! ## What an address becomes on its way -/

/-- A negative port borrows from the address above it. -/
def borrowed (h : HostEntry) : HostEntry := ⟨if h.port.msb then h.ip - 1 else h.ip, h.port⟩

theorem ofKey_pack (ip port : CInt) : HostEntry.ofKey (pack ip port) = borrowed ⟨ip, port⟩ := by
  unfold HostEntry.ofKey borrowed
  rw [unpackHigh_pack, unpackLow_pack]

theorem borrowed_injective : Function.Injective borrowed := by
  rintro ⟨ip, port⟩ ⟨ip', port'⟩ heq
  obtain ⟨hip, hport⟩ := HostEntry.mk.injEq .. ▸ heq
  obtain rfl : port = port' := hport
  simp only at hip
  split at hip
  · obtain rfl : ip = ip' := by simpa using hip
    rfl
  · obtain rfl : ip = ip' := hip
    rfl

theorem ofKey_injective : Function.Injective HostEntry.ofKey := by
  intro key key' heq
  obtain ⟨hhigh, hlow⟩ := HostEntry.mk.injEq .. ▸ heq
  apply BitVec.eq_of_toNat_eq
  have hhigh' := congrArg BitVec.toNat hhigh
  have hlow' := congrArg BitVec.toNat hlow
  rw [unpackHigh_toNat, unpackHigh_toNat] at hhigh'
  rw [unpackLow_toNat, unpackLow_toNat] at hlow'
  omega

/-- A finite set of addresses survives the way exactly if it holds with each address the one
    it becomes. -/
theorem image_borrowed_eq_iff {hosts : Finset HostEntry} :
    hosts.image borrowed = hosts ↔ ∀ h ∈ hosts, borrowed h ∈ hosts := by
  constructor
  · intro heq h hh
    rw [← heq]
    exact Finset.mem_image_of_mem _ hh
  · intro hclosed
    apply Finset.eq_of_subset_of_card_le
    · intro h hh
      obtain ⟨h', hh', rfl⟩ := Finset.mem_image.mp hh
      exact hclosed h' hh'
    · exact (Finset.card_image_of_injective hosts borrowed_injective).ge

/-! ## Agreement -/

/-- The addresses of the pair in the table. -/
def tableHosts (table : List RouteColumns) (modid cmdid : CInt) : Finset HostEntry :=
  ((table.filter fun columns => columns.row.modid = modid ∧ columns.row.cmdid = cmdid).map
    fun columns => ⟨columns.row.serverip, columns.row.serverport⟩).toFinset

/-- **What an answer promises**: it is for the pair, and its hosts are those of the table,
    each once. -/
structure Faithful (table : List RouteColumns) (modid cmdid : CInt)
    (rsp : GetRouteResponse) : Prop where
  modid_eq : rsp.modid = modid
  cmdid_eq : rsp.cmdid = cmdid
  nodup : rsp.hosts.Nodup
  hosts_eq : rsp.hosts.toFinset = tableHosts table modid cmdid

theorem mem_tableHosts {table : List RouteColumns} {modid cmdid : CInt} {h : HostEntry} :
    h ∈ tableHosts table modid cmdid ↔ ∃ row ∈ table.map RouteColumns.row,
      row.modid = modid ∧ row.cmdid = cmdid ∧ h = ⟨row.serverip, row.serverport⟩ := by
  simp only [tableHosts, List.mem_toFinset, List.mem_map, List.mem_filter, decide_eq_true_eq]
  constructor
  · rintro ⟨columns, ⟨hmem, hmod, hcmd⟩, rfl⟩
    exact ⟨columns.row, ⟨columns, hmem, rfl⟩, hmod, hcmd, rfl⟩
  · rintro ⟨row, ⟨columns, hmem, rfl⟩, hmod, hcmd, rfl⟩
    exact ⟨columns, ⟨hmem, hmod, hcmd⟩, rfl⟩

theorem getRequest_nodup (table : List RouteColumns) (modid cmdid : CInt) :
    (getRequest (loadTable table) modid cmdid).hosts.Nodup :=
  (Route.mapOf_nodup _ _).map ofKey_injective

theorem getRequest_hosts (table : List RouteColumns) (modid cmdid : CInt) :
    (getRequest (loadTable table) modid cmdid).hosts.toFinset =
      (tableHosts table modid cmdid).image borrowed := by
  ext h
  simp only [getRequest, loadTable, Route.getHosts, List.mem_toFinset, List.mem_map,
    Route.mem_mapOf, Finset.mem_image, mem_tableHosts]
  constructor
  · rintro ⟨value, ⟨row, hrow, hmod, hcmd, rfl⟩, rfl⟩
    exact ⟨⟨row.serverip, row.serverport⟩, ⟨row, hrow, hmod, hcmd, rfl⟩,
      (ofKey_pack row.serverip row.serverport).symm⟩
  · rintro ⟨h', ⟨row, hrow, hmod, hcmd, rfl⟩, rfl⟩
    exact ⟨pack row.serverip row.serverport, ⟨row, hrow, hmod, hcmd, rfl⟩,
      ofKey_pack row.serverip row.serverport⟩

/-- The answer to a request is faithful exactly if the addresses survive the way. -/
theorem getRequest_faithful_iff (table : List RouteColumns) (modid cmdid : CInt) :
    Faithful table modid cmdid (getRequest (loadTable table) modid cmdid) ↔
      ∀ h ∈ tableHosts table modid cmdid, borrowed h ∈ tableHosts table modid cmdid := by
  rw [← image_borrowed_eq_iff, ← getRequest_hosts]
  constructor
  · exact fun hfaithful => hfaithful.hosts_eq
  · exact fun hhosts => ⟨rfl, rfl, getRequest_nodup table modid cmdid, hhosts⟩

/-- The push of a key answers for the pair that comes out of the key. -/
theorem pushAnswer_pack (route : RouteMap) (modid cmdid : CInt) :
    pushAnswer route (pack modid cmdid) =
      getRequest route (if cmdid.msb then modid - 1 else modid) cmdid := by
  unfold pushAnswer PushState.response getRequest
  rw [unpackHigh_pack, unpackLow_pack]

theorem borrowed_of_not_negative {h : HostEntry} (hport : h.port.msb = false) :
    borrowed h = h := by
  unfold borrowed
  rw [hport]
  rfl

/-- **Both answers are faithful exactly if neither the pair nor, on balance, its addresses
    borrow**: the cmdid is not negative, and where a matching row has a negative port, there is
    a matching row with the same port and the address one below. -/
theorem answers_faithful_iff (table : List RouteColumns) (modid cmdid : CInt) :
    (Faithful table modid cmdid (getRequest (loadTable table) modid cmdid) ∧
        Faithful table modid cmdid (pushAnswer (loadTable table) (pack modid cmdid))) ↔
      cmdid.msb = false ∧ ∀ h ∈ tableHosts table modid cmdid, h.port.msb = true →
        (⟨h.ip - 1, h.port⟩ : HostEntry) ∈ tableHosts table modid cmdid := by
  rw [pushAnswer_pack, getRequest_faithful_iff]
  constructor
  · rintro ⟨hclosed, hpush⟩
    refine ⟨?_, ?_⟩
    · cases hneg : cmdid.msb with
      | false => rfl
      | true =>
        have hmod := hpush.modid_eq
        rw [hneg] at hmod
        have hlost : modid - 1 = modid := hmod
        exact absurd hlost (sub_one_ne modid)
    · intro h hh hport
      have hborrowed := hclosed h hh
      unfold borrowed at hborrowed
      rwa [hport] at hborrowed
  · rintro ⟨hcmd, hports⟩
    have hclosed : ∀ h ∈ tableHosts table modid cmdid,
        borrowed h ∈ tableHosts table modid cmdid := by
      intro h hh
      cases hport : h.port.msb with
      | false => rwa [borrowed_of_not_negative hport]
      | true =>
        unfold borrowed
        rw [hport]
        exact hports h hh hport
    refine ⟨hclosed, ?_⟩
    rw [hcmd]
    exact (getRequest_faithful_iff table modid cmdid).mpr hclosed

/-- A row with cmdid 4294967295: a change of it is pushed as one of (0, -1). -/
theorem negative_cmdid_pushed_astray :
    ¬ (Faithful [⟨1, 4294967295, 167772161, 80⟩] 1 (-1)
        (getRequest (loadTable [⟨1, 4294967295, 167772161, 80⟩]) 1 (-1)) ∧
      Faithful [⟨1, 4294967295, 167772161, 80⟩] 1 (-1)
        (pushAnswer (loadTable [⟨1, 4294967295, 167772161, 80⟩]) (pack 1 (-1)))) := by
  rintro ⟨-, hpush⟩
  exact absurd hpush.modid_eq (by decide)

end LarsSystem.Dns
