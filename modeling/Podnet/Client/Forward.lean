import Podnet.Client.Feed
import Podnet.Client.Read

namespace Podnet

open OrderStatistic

variable {verifyStrict : VerifyStrict} {replicas : HashMap ReplicaId Replica}
  {s s' : ClientState} {d d' : Option ReplicaId} {votes : List Vote} {r : ReplicaId}

/-- The append-only part of the client: stored votes are never replaced, and the
processed votes are a log. -/
structure Appended (s s' : ClientState) : Prop where
  calls : s.calls <+: s'.calls
  tsVoteMsg : ∀ ts v, s.tsVoteMsg.lookup ts = some v → s'.tsVoteMsg.lookup ts = some v

theorem ClientStep.appended (step : ClientStep verifyStrict replicas (s, d) (s', d')) :
    Appended s s' := by
  rcases step.view_cases with ⟨same, calls⟩ | ⟨r, tx, vote, mrtEntry, t, same, calls, _, _, rfl⟩
  · refine ⟨calls ▸ List.prefix_refl _, fun ts v atTs => ?_⟩
    rw [same.tsVoteMsg]
    exact atTs
  · refine ⟨?_, fun ts v atTs => ?_⟩
    · rw [← calls]
      exact List.prefix_append _ _
    · rw [← same.tsVoteMsg] at atTs
      rw [tsVoteMsg_afterVote]
      split
      · rename_i new
        rw [new.1] at atTs
        exact absurd (Finmap.mem_of_lookup_eq_some atTs) new.2
      · exact atTs

theorem ClientRun.appended {p q : ClientState × Option ReplicaId}
    (run : ClientRun verifyStrict replicas p q) : Appended p.1 q.1 := by
  induction run with
  | refl => exact ⟨List.prefix_refl _, fun _ _ atTs => atTs⟩
  | tail _ step ih =>
    refine ⟨ih.calls.trans step.appended.calls, fun ts v atTs => ?_⟩
    exact step.appended.tsVoteMsg ts v (ih.tsVoteMsg ts v atTs)

theorem length_callsOf_le (logged : s.calls <+: s'.calls) (r : ReplicaId) :
    (s.callsOf r).length ≤ (s'.callsOf r).length := by
  rw [ClientState.callsOf, ClientState.callsOf, List.length_map, List.length_map]
  exact (logged.sublist.filter _).length_le

/-- The counters count the processed votes, and these are only added to. -/
theorem FeedInv.nextsn_le {votes' : List Vote} (before : FeedInv verifyStrict replicas votes s d)
    (after : FeedInv verifyStrict replicas votes' s' d') (logged : s.calls <+: s'.calls)
    {nextsn : SequenceNumber} (known : s.nextsn.lookup r = some nextsn) :
    ∃ nextsn', s'.nextsn.lookup r = some nextsn' ∧ nextsn ≤ nextsn' := by
  have configured := (before.keyed.nextsn r).mp (Finmap.mem_of_lookup_eq_some known)
  obtain ⟨nextsn', known'⟩ := after.keyed.nextsnEntry configured
  refine ⟨nextsn', known', ?_⟩
  rw [UInt64.le_iff_toNat_le, before.nextsn_eq known, after.nextsn_eq known']
  exact length_callsOf_le logged r

/-- The middle of the first `alpha` values in order. -/
theorem middle_take_insertionSort {timestamps : List Timestamp} {alpha : Nat} :
    middle ((timestamps.insertionSort (· ≤ ·)).take alpha) =
      if min alpha timestamps.length = 0 then 0 else nth timestamps (min alpha timestamps.length / 2) 0 := by
  have length : ((timestamps.insertionSort (· ≤ ·)).take alpha).length = min alpha timestamps.length := by
    rw [List.length_take, List.length_insertionSort]
  rw [middle, length, nth, List.getD_eq_getElem?_getD, List.getD_eq_getElem?_getD]
  split
  · rename_i empty
    rw [List.getElem?_eq_none (by omega), Option.getD_none]
  · rw [List.getElem?_take_of_lt (by omega)]

/-- `rperf` follows the most recent timestamps: whatever the order of the walks,
larger timestamps of the same replicas give a larger value. -/
theorem minPossibleTsForNewTx_mono (orders orders' : HashOrders) (replicas : HashMap ReplicaId Replica)
    (alpha beta : Nat) (keys : ∀ r, r ∈ s.mrt ↔ r ∈ s'.mrt)
    (larger : ∀ r m, s.mrt.lookup r = some m → ∃ m', s'.mrt.lookup r = some m' ∧ m ≤ m') :
    minPossibleTsForNewTx orders ⟨replicas, s, alpha, beta⟩ ≤
      minPossibleTsForNewTx orders' ⟨replicas, s', alpha, beta⟩ := by
  have padded : (List.replicate beta 0 ++ orders.mrt.values s.mrt).length =
      (List.replicate beta 0 ++ orders'.mrt.values s'.mrt).length := by
    rw [List.length_append, List.length_append, length_values_eq orders.mrt orders'.mrt keys]
  simp only [minPossibleTsForNewTx, middle_take_insertionSort]
  rw [← padded]
  split
  · exact le_rfl
  · refine nth_mono padded fun x => ?_
    rw [List.countP_append, List.countP_append]
    exact Nat.add_le_add_left (countP_values_le orders.mrt orders'.mrt larger (fun r => (keys r).mpr) x) _

/-- The client's view only moves forward, from any state of a run to any later one. -/
theorem view_moves_forward (verifyStrict : VerifyStrict) (replicasList : List Replica)
    (earlier later : List Vote) (short : (earlier ++ later).length < 2 ^ 64)
    (s s' : ClientState) (d d' : Option ReplicaId)
    (before : ClientFeed verifyStrict (initPodNetworkClient replicasList).1
      ((initPodNetworkClient replicasList).2, none) earlier (s, d))
    (after : ClientFeed verifyStrict (initPodNetworkClient replicasList).1 (s, d) later (s', d')) :
    (∀ r n, s.nextsn.lookup r = some n → ∃ n', s'.nextsn.lookup r = some n' ∧ n ≤ n') ∧
    (∀ r m, s.mrt.lookup r = some m → ∃ m', s'.mrt.lookup r = some m' ∧ m ≤ m') ∧
    (∀ tx r ts, s.stamp tx r = some ts → s'.stamp tx r = some ts) ∧
    (∀ ts v, s.tsVoteMsg.lookup ts = some v → s'.tsVoteMsg.lookup ts = some v) ∧
    ∀ alpha beta orders orders', minPossibleTsForNewTx orders (serviceOf replicasList alpha beta s) ≤
      minPossibleTsForNewTx orders' (serviceOf replicasList alpha beta s') := by
  have fewer : earlier.length < 2 ^ 64 := by
    rw [List.length_append] at short
    omega
  have inv := before.feedInv fewer
  have inv' := (before.trans after).feedInv short
  have moved := after.run.later
  have appended := after.run.appended
  refine ⟨fun r n known => inv.nextsn_le inv' appended.calls known, moved.mrt, moved.kept,
    appended.tsVoteMsg, ?_⟩
  intro alpha beta orders orders'
  refine minPossibleTsForNewTx_mono orders orders' _ alpha beta (fun r => ?_) moved.mrt
  exact (inv.keyed.mrt r).trans (inv'.keyed.mrt r).symm

/-- Before and after a heartbeat that follows an early vote. -/
theorem view_moves_forward_heartbeat :
    let replicas := initPodNetworkClient (standInReplicas [7])
    let early := standInVote 7 [65] 9 1
    let heartbeat := standInVote 7 heartbeatData 5 0
    ∃ s s', startPodDataUpdater standInVerify replicas.1 [early] replicas.2 = .ok s ∧
      startPodDataUpdater standInVerify replicas.1 [heartbeat] s = .ok s' ∧
      s'.nextsn.lookup 7 = some 2 ∧
      (∀ r n, s.nextsn.lookup r = some n → ∃ n', s'.nextsn.lookup r = some n' ∧ n ≤ n') ∧
      (∀ r m, s.mrt.lookup r = some m → ∃ m', s'.mrt.lookup r = some m' ∧ m ≤ m') ∧
      (∀ tx r ts, s.stamp tx r = some ts → s'.stamp tx r = some ts) ∧
      (∀ ts v, s.tsVoteMsg.lookup ts = some v → s'.tsVoteMsg.lookup ts = some v) ∧
      ∀ alpha beta orders orders',
        minPossibleTsForNewTx orders (serviceOf (standInReplicas [7]) alpha beta s) ≤
          minPossibleTsForNewTx orders' (serviceOf (standInReplicas [7]) alpha beta s') := by
  intro replicas early heartbeat
  obtain ⟨s, run⟩ : ∃ s, startPodDataUpdater standInVerify replicas.1 [early] replicas.2 = .ok s :=
    startPodDataUpdater_total standInVerify (by decide)
  obtain ⟨s', run', counted⟩ := exists_ok_of_any (p := fun s => s.nextsn.lookup 7 == some 2) (show
    (startPodDataUpdater standInVerify replicas.1 [early, heartbeat] replicas.2).toOption.any _ = true by
      decide +kernel)
  have rest : startPodDataUpdater standInVerify replicas.1 [heartbeat] s = .ok s' := by
    have joined := run'
    unfold startPodDataUpdater at run joined
    cases step : updateWithVote standInVerify replicas.1 early replicas.2 with
    | error e => simp [step] at run
    | ok s₁ =>
      simp only [step] at run joined
      cases Except.ok.inj run
      exact joined
  exact ⟨s, s', run, rest, beq_iff_eq.mp counted, view_moves_forward standInVerify (standInReplicas [7]) _ _
    (by decide) s s' none none (startPodDataUpdater_feed run) (startPodDataUpdater_feed rest)⟩

end Podnet
