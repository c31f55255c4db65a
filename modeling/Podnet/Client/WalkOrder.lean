import Podnet.Client.ReadHistory
import Podnet.Client.Feed

namespace Podnet

open OrderStatistic

/-- The votes that the bounds of a transaction count: those of configured replicas. -/
def ClientApiService.votes (service : ClientApiService) (tx : Transaction) : Nat :=
  (service.replicas.keys.filter fun r => (service.view.stamp tx r).isSome).card

/-- Two replies that say the same, apart from the order of the transactions and the
votes they list as evidence. -/
structure SameReply (pod pod' : PodData) : Prop where
  rperf : pod.rperf = pod'.rperf
  record : ∀ record ∈ pod.t, ∀ record' ∈ pod'.t, record.transaction = record'.transaction →
    record.rmin = record'.rmin ∧ record.rmax = record'.rmax ∧ record.rconf = record'.rconf

variable {service : ClientApiService} {tx : Transaction} {s : ClientState}

section Bounds

variable (orders orders' : HashOrders)

theorem minPossibleTs_orders : minPossibleTs orders service tx = minPossibleTs orders' service tx := by
  have walks := orders.replicas.keys_perm service.replicas orders'.replicas
  rw [minPossibleTs, minPossibleTs, insertionSort_eq_of_perm (walks.filterMap _)]

theorem maxPossibleTs_orders : maxPossibleTs orders service tx = maxPossibleTs orders' service tx := by
  have walks := orders.replicas.keys_perm service.replicas orders'.replicas
  rw [maxPossibleTs, maxPossibleTs, insertionSort_eq_of_perm (walks.filterMap _)]

theorem minPossibleTsForNewTx_orders :
    minPossibleTsForNewTx orders service = minPossibleTsForNewTx orders' service := by
  have walks := orders.mrt.values_perm service.view.mrt orders'.mrt
  rw [minPossibleTsForNewTx, minPossibleTsForNewTx, insertionSort_eq_of_perm (walks.append_left _)]

end Bounds

/-- A read returns if every known transaction has votes enough for `split_off`. -/
theorem read_returns (orders : HashOrders)
    (quorum : ∀ tx ∈ service.view.tsps, service.alpha ≤ service.votes tx + service.beta) :
    ∃ pod, read orders service = some pod := by
  refine Option.isSome_iff_exists.mp (read_isSome_iff.mpr fun tx member => ?_)
  obtain ⟨tspstx, known⟩ := Finmap.mem_iff.mp member
  have counted : ((orders.replicas.keys service.replicas).filterMap tspstx.lookup).length =
      service.votes tx := by
    rw [← List.countP_true, countP_filterMap (orders.replicas.keys_nodup _), orders.replicas.keys_toFinset,
      ClientApiService.votes]
    congr 1
    ext r
    simp [ClientState.stamp, known]
  have enough := quorum tx member
  rw [txRecord_isSome]
  simp only [maxPossibleTs, known, List.length_append, List.length_insertionSort, counted,
    List.length_replicate]
  rw [if_neg (by omega), Option.isSome_some]

/-- Votes with one timestamp have this timestamp in the middle of every walk. -/
theorem middle_values_eq {tspstx : HashMap ReplicaId Timestamp} (walk walk' : IterOrder ReplicaId Timestamp)
    (same : ∀ r r' ts ts', tspstx.lookup r = some ts → tspstx.lookup r' = some ts' → ts = ts') :
    middle (walk.values tspstx) = middle (walk'.values tspstx) := by
  have perm := walk.values_perm tspstx walk'
  by_cases empty : walk.values tspstx = []
  · rw [empty] at perm
    rw [empty, perm.nil_eq]
  · have empty' : walk'.values tspstx ≠ [] := fun none => empty (none ▸ perm).eq_nil
    obtain ⟨⟨r, ts⟩, visited, atMiddle⟩ := List.mem_map.mp (middle_mem empty)
    obtain ⟨⟨r', ts'⟩, visited', atMiddle'⟩ := List.mem_map.mp (middle_mem empty')
    have equal : ts = ts' :=
      same r r' ts ts' ((walk.mem_visit _ _ _).mp visited) ((walk'.mem_visit _ _ _).mp visited')
    exact (atMiddle.symm.trans equal).trans atMiddle'

variable {orders orders' : HashOrders} {pod pod' : PodData}

/-- All but one value of the records of a transaction agree in two reads of one view; the
other is the vote in the middle of the walk. -/
theorem records_agree (run : read orders service = some pod) (run' : read orders' service = some pod')
    {record record' : TxRecord} (listed : record ∈ pod.t) (listed' : record' ∈ pod'.t)
    (named : record.transaction = record'.transaction) :
    record.rmin = record'.rmin ∧ record.rmax = record'.rmax ∧
      ∃ tx tspstx, service.view.tsps.lookup tx = some tspstx ∧
        record.rconf = some (middle ((orders.voters tx).values tspstx)) ∧
        record'.rconf = some (middle ((orders'.voters tx).values tspstx)) := by
  obtain ⟨tx, known, own⟩ := (read_mem_iff run).mp listed
  obtain ⟨tx', _, own'⟩ := (read_mem_iff run').mp listed'
  rw [txRecord_transaction own, txRecord_transaction own'] at named
  cases Option.some.inj named
  obtain ⟨tspstx, atTx⟩ := Finmap.mem_iff.mp known
  obtain ⟨rmin, rmax, rconf⟩ := txRecord_fields atTx own
  obtain ⟨rmin', rmax', rconf'⟩ := txRecord_fields atTx own'
  refine ⟨?_, ?_, tx, tspstx, atTx, rconf, rconf'⟩
  · rw [rmin, rmin', minPossibleTs_orders orders orders']
  · rw [maxPossibleTs_orders orders orders', rmax'] at rmax
    exact (Option.some.inj rmax).symm

theorem rperf_agree (run : read orders service = some pod) (run' : read orders' service = some pod') :
    pod.rperf = pod'.rperf := by
  rw [(read_fields run).1, (read_fields run').1, minPossibleTsForNewTx_orders orders orders']

/-- Votes of one transaction with two timestamps: two reads report either of them. -/
theorem exists_other_reply (service : ClientApiService)
    (quorum : ∀ tx ∈ service.view.tsps, service.alpha ≤ service.votes tx + service.beta)
    {r r' : ReplicaId} {ts ts' : Timestamp} (vote : service.view.stamp tx r = some ts)
    (vote' : service.view.stamp tx r' = some ts') :
    ∃ orders orders' pod pod', read orders service = some pod ∧ read orders' service = some pod' ∧
      ∃ record ∈ pod.t, ∃ record' ∈ pod'.t, record.transaction = record'.transaction ∧
        record.rconf = some ts ∧ record'.rconf = some ts' := by
  obtain ⟨tspstx, known, atR⟩ := Option.bind_eq_some_iff.mp vote
  obtain ⟨tspstx', known', atR'⟩ := Option.bind_eq_some_iff.mp vote'
  cases Option.some.inj (known.symm.trans known')
  have member : tx ∈ service.view.tsps := Finmap.mem_of_lookup_eq_some known
  obtain ⟨walk, value⟩ := exists_walk_middle atR
  obtain ⟨walk', value'⟩ := exists_walk_middle atR'
  let orders : HashOrders := ⟨.arbitrary _ _, .arbitrary _ _, fun _ => walk, .arbitrary _ _⟩
  let orders' : HashOrders := ⟨.arbitrary _ _, .arbitrary _ _, fun _ => walk', .arbitrary _ _⟩
  obtain ⟨pod, run⟩ := read_returns orders quorum
  obtain ⟨pod', run'⟩ := read_returns orders' quorum
  obtain ⟨record, listed, own⟩ := read_lists run member
  obtain ⟨record', listed', own'⟩ := read_lists run' member
  refine ⟨orders, orders', pod, pod', run, run', record, listed, record', listed', ?_, ?_, ?_⟩
  · rw [txRecord_transaction own, txRecord_transaction own']
  · rw [(txRecord_fields known own).2.2, ← value]
  · rw [(txRecord_fields known own').2.2, ← value']

/-- What a read reports does not depend on how it walks through the hash maps, except for
`rconf`: the bounds and `rperf` never do, and the whole reply exactly if the recorded
votes of each transaction have one timestamp. -/
theorem walk_order_irrelevant_iff (service : ClientApiService)
    (quorum : ∀ tx ∈ service.view.tsps, service.alpha ≤ service.votes tx + service.beta) :
    (∀ orders orders', ∃ pod pod', read orders service = some pod ∧ read orders' service = some pod' ∧
      pod.rperf = pod'.rperf ∧
      ∀ record ∈ pod.t, ∀ record' ∈ pod'.t, record.transaction = record'.transaction →
        record.rmin = record'.rmin ∧ record.rmax = record'.rmax) ∧
    ((∀ orders orders', ∃ pod pod', read orders service = some pod ∧
        read orders' service = some pod' ∧ SameReply pod pod') ↔
      ∀ tx r r' ts ts', service.view.stamp tx r = some ts → service.view.stamp tx r' = some ts' →
        ts = ts') := by
  constructor
  · intro orders orders'
    obtain ⟨pod, run⟩ := read_returns orders quorum
    obtain ⟨pod', run'⟩ := read_returns orders' quorum
    refine ⟨pod, pod', run, run', rperf_agree run run', fun record listed record' listed' named => ?_⟩
    obtain ⟨rmin, rmax, _⟩ := records_agree run run' listed listed' named
    exact ⟨rmin, rmax⟩
  constructor
  · intro agree tx r r' ts ts' vote vote'
    obtain ⟨orders, orders', pod, pod', run, run', record, listed, record', listed', named, rconf, rconf'⟩ :=
      exists_other_reply service quorum vote vote'
    obtain ⟨_, _, again, again', same⟩ := agree orders orders'
    cases Option.some.inj (run.symm.trans again)
    cases Option.some.inj (run'.symm.trans again')
    have equal := (same.record record listed record' listed' named).2.2
    rw [rconf, rconf'] at equal
    exact Option.some.inj equal
  · intro single orders orders'
    obtain ⟨pod, run⟩ := read_returns orders quorum
    obtain ⟨pod', run'⟩ := read_returns orders' quorum
    refine ⟨pod, pod', run, run', rperf_agree run run', fun record listed record' listed' named => ?_⟩
    obtain ⟨rmin, rmax, tx, tspstx, known, rconf, rconf'⟩ := records_agree run run' listed listed' named
    refine ⟨rmin, rmax, ?_⟩
    rw [rconf, rconf', middle_values_eq (orders.voters tx) (orders'.voters tx)]
    intro r r' ts ts' atR atR'
    exact single tx r r' ts ts' (by simp [ClientState.stamp, known, atR])
      (by simp [ClientState.stamp, known, atR'])

/-- Two votes of one round: every read says the same. -/
theorem walk_order_irrelevant_iff_one_round :
    ∃ s, ClientReach standInVerify (standInReplicas [7, 8]) (s, none) ∧
      s.stamp ⟨[65]⟩ 7 = some 5 ∧ s.stamp ⟨[65]⟩ 8 = some 5 ∧
      ∀ orders orders', ∃ pod pod', read orders (serviceOf (standInReplicas [7, 8]) 2 0 s) = some pod ∧
        read orders' (serviceOf (standInReplicas [7, 8]) 2 0 s) = some pod' ∧ SameReply pod pod' := by
  have ends : (startPodDataUpdater standInVerify (initPodNetworkClient (standInReplicas [7, 8])).1
      [standInVote 7 [65] 5 0, standInVote 8 [65] 5 0]
      (initPodNetworkClient (standInReplicas [7, 8])).2).toOption.any (fun s =>
        decide ((s.stamp ⟨[65]⟩ 7 = some 5 ∧ s.stamp ⟨[65]⟩ 8 = some 5) ∧
          (∀ tx ∈ s.tsps.keys, 2 ≤ (serviceOf (standInReplicas [7, 8]) 2 0 s).votes tx + 0) ∧
          ∀ call ∈ s.calls, call.2.timestamp = 5)) = true := by decide +kernel
  obtain ⟨s, run, after⟩ := exists_ok_of_any ends
  obtain ⟨⟨vote, vote'⟩, quorums, round⟩ := of_decide_eq_true after
  have applied : Applied s := ClientRun.applied (startPodDataUpdater_run run) (init_applied _)
  have stamps : ∀ tx r ts, s.stamp tx r = some ts → ts = 5 := by
    intro tx r ts atTx
    obtain ⟨_, v, member, _, rfl⟩ := applied.stamp tx r ts atTx
    exact round _ member
  refine ⟨s, startPodDataUpdater_run run, vote, vote',
    (walk_order_irrelevant_iff (serviceOf (standInReplicas [7, 8]) 2 0 s) ?_).2.mpr ?_⟩
  · exact fun tx member => quorums tx (Finmap.mem_keys.mpr member)
  · intro tx r r' ts ts' atR atR'
    rw [stamps tx r ts atR, stamps tx r' ts' atR']

/-- Two votes of different rounds: the view is the same, and one walk confirms the
transaction at 5, another one at 6. -/
theorem walk_order_changes_rconf :
    ∃ s orders orders' pod pod', ClientReach standInVerify (standInReplicas [7, 8]) (s, none) ∧
      (∀ tx ∈ s.tsps, 2 ≤ (serviceOf (standInReplicas [7, 8]) 2 0 s).votes tx + 0) ∧
      read orders (serviceOf (standInReplicas [7, 8]) 2 0 s) = some pod ∧
      read orders' (serviceOf (standInReplicas [7, 8]) 2 0 s) = some pod' ∧
      ∃ record ∈ pod.t, ∃ record' ∈ pod'.t, record.transaction = record'.transaction ∧
        record.rconf = some 5 ∧ record'.rconf = some 6 := by
  have ends : (startPodDataUpdater standInVerify (initPodNetworkClient (standInReplicas [7, 8])).1
      [standInVote 7 [65] 5 0, standInVote 8 [65] 6 0]
      (initPodNetworkClient (standInReplicas [7, 8])).2).toOption.any (fun s =>
        decide ((s.stamp ⟨[65]⟩ 7 = some 5 ∧ s.stamp ⟨[65]⟩ 8 = some 6) ∧
          ∀ tx ∈ s.tsps.keys, 2 ≤ (serviceOf (standInReplicas [7, 8]) 2 0 s).votes tx + 0)) = true := by
    decide +kernel
  obtain ⟨s, run, after⟩ := exists_ok_of_any ends
  obtain ⟨⟨vote, vote'⟩, quorums⟩ := of_decide_eq_true after
  have quorum : ∀ tx ∈ s.tsps, 2 ≤ (serviceOf (standInReplicas [7, 8]) 2 0 s).votes tx + 0 :=
    fun tx member => quorums tx (Finmap.mem_keys.mpr member)
  obtain ⟨orders, orders', pod, pod', read, read', differ⟩ :=
    exists_other_reply (serviceOf (standInReplicas [7, 8]) 2 0 s) quorum vote vote'
  exact ⟨s, orders, orders', pod, pod', startPodDataUpdater_run run, quorum, read, read', differ⟩

end Podnet
