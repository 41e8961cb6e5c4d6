import LarsSystem.LarsApi

/-!
# Which `route_lb` a module belongs to

The index is computed in `lars_client::get_host`, in `lars_client::report` and in
`deal_recv_route`. The three agree, and the index is one of 0, 1, 2 where the sum
of `modid` and `cmdid`, taken in 32 bits, is not negative or divisible by three.
For the other sums it is -1 or -2: the API sends through an integer beside its
sockets, and the thread of the DNS client calls a method of a pointer beside the
three `route_lb`.
-/

namespace LarsSystem.Agent

open LarsSystem.MachineWord

/-! ## The index as a number -/

theorem slot_eq_some_iff {index : Int} {i : Fin 3} : slot index = some i ↔ index = i.val := by
  have hlt := i.isLt
  unfold slot
  split_ifs with hin
  · rw [Option.some.injEq, Fin.ext_iff]
    change index.toNat = i.val ↔ index = i.val
    omega
  · exact iff_of_false (by simp) (by omega)

theorem slot_isSome_iff {index : Int} : (slot index).isSome ↔ 0 ≤ index ∧ index < 3 := by
  unfold slot
  split_ifs with hin
  · exact iff_of_true rfl hin
  · exact iff_of_false (by simp) hin

/-- The remainder has the sign of the sum. -/
theorem shardIndex_cases (modid cmdid : CInt) :
    -3 < shardIndex modid cmdid ∧ shardIndex modid cmdid < 3 ∧
      (0 ≤ shardIndex modid cmdid ↔
        0 ≤ (modid + cmdid).toInt ∨ 3 ∣ (modid + cmdid).toInt) := by
  unfold shardIndex
  rw [Int.tmod_eq_emod]
  generalize (modid + cmdid).toInt = sum
  split_ifs with hsign
  · refine ⟨?_, ?_, ?_⟩ <;> omega
  · refine ⟨?_, ?_, ?_⟩ <;> omega

theorem slot_shardIndex {modid cmdid : CInt} :
    (slot (shardIndex modid cmdid)).isSome ↔
      0 ≤ (modid + cmdid).toInt ∨ 3 ∣ (modid + cmdid).toInt := by
  obtain ⟨-, hlt, hsign⟩ := shardIndex_cases modid cmdid
  rw [slot_isSome_iff, ← hsign]
  exact and_iff_left hlt

/-- Where the sum does not wrap, it is the sum of the integers. -/
theorem routeIndex_eq_some {modid cmdid : CInt} {i : Fin 3}
    (hindex : routeIndex modid cmdid = some i) : slot (shardIndex modid cmdid) = some i := by
  unfold routeIndex at hindex
  simp only at hindex
  split_ifs at hindex with hwraps
  have hsum : (modid + cmdid).toInt = modid.toInt + cmdid.toInt := by
    rw [BitVec.toInt_add, Int.bmod_eq_of_le_mul_two] <;> omega
  rw [slot_eq_some_iff, shardIndex, hsum]
  split at hindex <;> cases hindex <;> assumption

/-! ## The way through the agent -/

theorem serverRoute_sockPort (i : Fin 3) :
    RouteLbs.serverRoute (LarsClient.sockPort i) = some i := by
  rw [RouteLbs.serverRoute, LarsClient.sockPort, slot_eq_some_iff]
  omega

section Path

variable {cfg : LbConfig} {rLb : RouteLbs} {modid cmdid : CInt}

/-- With an index, the request of `get_host` goes to its `route_lb`. -/
theorem requestHost_some {i : Fin 3} (hindex : slot (shardIndex modid cmdid) = some i)
    (c : LarsClient) (accessCnt : Int) (number : Nat) :
    requestHost cfg rLb c modid cmdid accessCnt number =
      rLb.getHostCb cfg i ⟨c.seqid, modid, cmdid⟩ accessCnt number := by
  simp only [requestHost, LarsClient.getHostRequest, LarsClient.getHostIndex, hindex,
    Option.map_some, serverRoute_sockPort]

theorem requestHost_none (hindex : slot (shardIndex modid cmdid) = none) (c : LarsClient)
    (accessCnt : Int) (number : Nat) :
    requestHost cfg rLb c modid cmdid accessCnt number = Except.error .outOfBounds := by
  simp only [requestHost, LarsClient.getHostRequest, LarsClient.getHostIndex, hindex,
    Option.map_none]

/-- So does a report. -/
theorem reportCall_some {inetAton : String → Option CInt} {inaddr : CInt} {i : Fin 3}
    (hindex : slot (shardIndex modid cmdid) = some i) (ip : String) (port retcode : CInt)
    (ts : BitVec 32) :
    reportCall inetAton inaddr cfg rLb modid cmdid ip port retcode ts =
      rLb.reportCb cfg i ⟨modid, cmdid, ⟨(inetAton ip).getD inaddr, port⟩, retcode⟩ ts := by
  simp only [reportCall, LarsClient.reportRequest, LarsClient.reportIndex, hindex,
    Option.map_some, serverRoute_sockPort]

/-- And the answers of the DNS service. -/
theorem dealRecvRoute_some {i : Fin 3} (hindex : slot (shardIndex modid cmdid) = some i)
    (hosts : List HostEntry) :
    rLb.dealRecvRoute cfg ⟨modid, cmdid, hosts⟩ =
      match (rLb i).updateHost cfg modid cmdid ⟨modid, cmdid, hosts⟩ with
      | Except.error fault => Except.error (.route fault)
      | Except.ok map => Except.ok (Function.update rLb i map) := by
  cases hupdate : (rLb i).updateHost cfg modid cmdid ⟨modid, cmdid, hosts⟩ <;>
    simp only [RouteLbs.dealRecvRoute, RouteLbs.recvRouteIndex, hindex, hupdate]

/-- No site leaves its array in what it does itself. -/
theorem getHostCb_inBounds {i : Fin 3} {req : GetHostRequest} {accessCnt : Int} {number : Nat} :
    rLb.getHostCb cfg i req accessCnt number ≠ Except.error .outOfBounds := by
  unfold RouteLbs.getHostCb
  split <;> simp

theorem reportCb_inBounds {i : Fin 3} {req : ReportRequest} {ts : BitVec 32} :
    rLb.reportCb cfg i req ts ≠ Except.error .outOfBounds := by
  unfold RouteLbs.reportCb
  split <;> simp

end Path

/-- **What sharding promises** for a module: an index that all sites share, no index beside the
    arrays, and an answer of the DNS service that gets to the `route_lb` which asked for it. -/
structure Sharded (cfg : LbConfig) (modid cmdid : CInt) : Prop where
  agree : ∃ i : Fin 3, LarsClient.getHostIndex modid cmdid = i.val ∧
    LarsClient.reportIndex modid cmdid = i.val ∧
    ∀ hosts, RouteLbs.recvRouteIndex ⟨modid, cmdid, hosts⟩ = i.val
  getHost : ∀ (rLb : RouteLbs) c accessCnt number,
    requestHost cfg rLb c modid cmdid accessCnt number ≠ Except.error .outOfBounds
  report : ∀ inetAton inaddr (rLb : RouteLbs) ip port retcode ts,
    reportCall inetAton inaddr cfg rLb modid cmdid ip port retcode ts ≠ Except.error .outOfBounds
  recv : ∀ (rLb : RouteLbs) hosts,
    rLb.dealRecvRoute cfg ⟨modid, cmdid, hosts⟩ ≠ Except.error .outOfBounds
  answered : ∀ (rLb : RouteLbs) c accessCnt number answer req,
    requestHost cfg rLb c modid cmdid accessCnt number = Except.ok answer →
    answer.sent = some req →
    ∃ i, rLb i (pack modid cmdid) = none ∧ (answer.routeLbs i (pack modid cmdid)).isSome ∧
      ∀ (later later' : RouteLbs) hosts,
        later.dealRecvRoute cfg ⟨req.modid, req.cmdid, hosts⟩ = Except.ok later' →
        ∃ map, (later i).updateHost cfg modid cmdid ⟨modid, cmdid, hosts⟩ = Except.ok map ∧
          later' = Function.update later i map

/-- The answer to a request that creates an object gets to it. -/
theorem answered_of_index {cfg : LbConfig} {modid cmdid : CInt} {i : Fin 3}
    (hindex : slot (shardIndex modid cmdid) = some i) {rLb : RouteLbs} {c : LarsClient}
    {accessCnt : Int} {number : Nat} {answer : HostAnswer} {req : GetRouteRequest}
    (hrequest : requestHost cfg rLb c modid cmdid accessCnt number = Except.ok answer)
    (hsent : answer.sent = some req) :
    rLb i (pack modid cmdid) = none ∧ (answer.routeLbs i (pack modid cmdid)).isSome ∧
      ∀ (later later' : RouteLbs) hosts,
        later.dealRecvRoute cfg ⟨req.modid, req.cmdid, hosts⟩ = Except.ok later' →
        ∃ map, (later i).updateHost cfg modid cmdid ⟨modid, cmdid, hosts⟩ = Except.ok map ∧
          later' = Function.update later i map := by
  rw [requestHost_some hindex, RouteLbs.getHostCb] at hrequest
  split at hrequest
  · cases hrequest
  · rename_i result hresult
    cases hrequest
    rcases RouteMap.getHost_cases hresult with ⟨-, -, -, -, hnone, -⟩ | ⟨hnew, hpull, hmap⟩
    · exact absurd (hsent.symm.trans hnone) (by simp)
    · cases hsent.symm.trans hpull
      refine ⟨hnew, ?_, ?_⟩
      · simp [hmap, RouteMap.set]
      · intro later later' hosts hrecv
        rw [dealRecvRoute_some hindex] at hrecv
        split at hrecv
        · cases hrecv
        · rename_i map hmap'
          cases hrecv
          exact ⟨map, hmap', rfl⟩

/-- **Sharding works exactly for the sums that are not negative or divisible by three.** -/
theorem sharded_iff (cfg : LbConfig) (modid cmdid : CInt) :
    Sharded cfg modid cmdid ↔ 0 ≤ (modid + cmdid).toInt ∨ 3 ∣ (modid + cmdid).toInt := by
  rw [← slot_shardIndex]
  constructor
  · rintro ⟨⟨i, hindex, -⟩, -⟩
    rw [Option.isSome_iff_exists]
    exact ⟨i, slot_eq_some_iff.mpr hindex⟩
  · intro hsome
    obtain ⟨i, hindex⟩ := Option.isSome_iff_exists.mp hsome
    have hnumber := slot_eq_some_iff.mp hindex
    refine ⟨⟨i, hnumber, hnumber, fun _ => hnumber⟩, ?_, ?_, ?_, ?_⟩
    · intro rLb c accessCnt number
      rw [requestHost_some hindex]
      exact getHostCb_inBounds
    · intro inetAton inaddr rLb ip port retcode ts
      rw [reportCall_some hindex]
      exact reportCb_inBounds
    · intro rLb hosts
      rw [dealRecvRoute_some hindex]
      split <;> simp
    · intro rLb c accessCnt number answer req hrequest hsent
      exact ⟨i, answered_of_index hindex hrequest hsent⟩

/-- The module (-1, 0): its index is -1. -/
theorem negative_sum_misses : shardIndex (-1) 0 = -1 ∧
    requestHost Balancer.defaultConfig (fun _ => RouteMap.empty) ⟨0⟩ (-1) 0 0 0 =
      Except.error .outOfBounds ∧
    RouteLbs.dealRecvRoute Balancer.defaultConfig (fun _ => RouteMap.empty) ⟨-1, 0, []⟩ =
      Except.error .outOfBounds ∧
    ¬ Sharded Balancer.defaultConfig (-1) 0 := by
  have hnone : slot (shardIndex (-1) 0) = none := by decide
  have hrequest : requestHost Balancer.defaultConfig (fun _ => RouteMap.empty) ⟨0⟩ (-1) 0 0 0 =
      Except.error .outOfBounds := requestHost_none hnone ⟨0⟩ 0 0
  refine ⟨by decide, hrequest, ?_, fun hsharded => hsharded.getHost _ _ _ _ hrequest⟩
  simp only [RouteLbs.dealRecvRoute, RouteLbs.recvRouteIndex, hnone]

end LarsSystem.Agent
