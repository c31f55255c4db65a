import Podnet.Client.Read

namespace Podnet

open OrderStatistic

variable {verifyStrict : VerifyStrict} {replicas : HashMap ReplicaId Replica}
  {replicasList : List Replica} {alpha beta : Nat} {tx : Transaction} {s : ClientState}
  {d : Option ReplicaId}

/-- The recorded timestamps of a transaction in the order of the replica walk. -/
def votesOf (orders : HashOrders) (replicas : HashMap ReplicaId Replica) (s : ClientState)
    (tx : Transaction) : List Timestamp :=
  (orders.replicas.keys replicas).filterMap (s.stamp tx)

/-- The replicas whose recorded vote for a transaction has a timestamp with `p`. -/
def ClientState.voters (s : ClientState) (tx : Transaction) (p : Timestamp → Bool) :
    Finset ReplicaId :=
  ((s.tsps.lookup tx).getD ∅).keys.filter fun r => (s.stamp tx r).any p

theorem countP_votesOf (orders : HashOrders) (tx : Transaction) (inv : ViewInv replicas s)
    (p : Timestamp → Bool) : (votesOf orders replicas s tx).countP p = (s.voters tx p).card := by
  rw [votesOf, countP_filterMap (orders.replicas.keys_nodup replicas), orders.replicas.keys_toFinset]
  congr 1
  ext r
  rw [ClientState.voters, Finset.mem_filter, Finset.mem_filter, Finmap.mem_keys, Finmap.mem_keys]
  constructor
  · intro ⟨_, voted⟩
    refine ⟨?_, voted⟩
    obtain ⟨ts, atR, _⟩ := (Option.any_eq_true _ _).mp voted
    obtain ⟨tspstx, known, inside⟩ := Option.bind_eq_some_iff.mp atR
    rw [known, Option.getD_some]
    exact Finmap.mem_of_lookup_eq_some inside
  · intro ⟨_, voted⟩
    obtain ⟨ts, atR, _⟩ := (Option.any_eq_true _ _).mp voted
    exact ⟨inv.voters tx r ts atR, voted⟩

theorem length_votesOf (orders : HashOrders) (tx : Transaction) (inv : ViewInv replicas s) :
    (votesOf orders replicas s tx).length = s.voteCount tx := by
  rw [← List.countP_true, countP_votesOf orders tx inv, ClientState.voters, ClientState.voteCount]
  cases known : s.tsps.lookup tx with
  | none => simp
  | some tspstx =>
    rw [Option.getD_some, Finset.filter_true_of_mem]
    intro r member
    obtain ⟨ts, atR⟩ := Finmap.mem_iff.mp (Finmap.mem_keys.mp member)
    simp [ClientState.stamp, known, atR]

theorem votesOf_eq {tspstx : HashMap ReplicaId Timestamp} (orders : HashOrders)
    (known : s.tsps.lookup tx = some tspstx) :
    votesOf orders replicas s tx =
      (orders.replicas.keys replicas).filterMap fun r => tspstx.lookup r := by
  have stamp : s.stamp tx = fun r => tspstx.lookup r := by
    funext r
    simp [ClientState.stamp, known]
  rw [votesOf, stamp]

/-- With enough votes `rmin` is the vote at position `alpha / 2 - beta`. -/
theorem minPossibleTs_eq (orders : HashOrders) (inv : ViewInv replicas s) (member : tx ∈ s.tsps)
    (ratio : 4 * beta + 1 ≤ alpha) (quorum : alpha ≤ s.voteCount tx + beta) :
    minPossibleTs orders ⟨replicas, s, alpha, beta⟩ tx =
      nth (votesOf orders replicas s tx) (alpha / 2 - beta) 0 := by
  obtain ⟨tspstx, known⟩ := Finmap.mem_iff.mp member
  have length := length_votesOf orders tx inv
  simp only [minPossibleTs, known, ← votesOf_eq orders known, middle, nth]
  rw [List.length_take, List.length_append, List.length_replicate, List.length_insertionSort, length,
    Nat.min_eq_left (by omega), List.getD_eq_getElem?_getD, List.getElem?_take_of_lt (by omega),
    List.getElem?_append_right (by rw [List.length_replicate]; omega), List.length_replicate,
    List.getD_eq_getElem?_getD]

/-- With enough votes `rmax` is the vote at position `k + beta - alpha + alpha / 2`;
with fewer, the computation panics. -/
theorem maxPossibleTs_eq (orders : HashOrders) (inv : ViewInv replicas s) (member : tx ∈ s.tsps)
    (ratio : 4 * beta + 1 ≤ alpha) :
    maxPossibleTs orders ⟨replicas, s, alpha, beta⟩ tx =
      if alpha ≤ s.voteCount tx + beta then
        some (nth (votesOf orders replicas s tx) (s.voteCount tx + beta - alpha + alpha / 2) 0)
      else none := by
  obtain ⟨tspstx, known⟩ := Finmap.mem_iff.mp member
  have length := length_votesOf orders tx inv
  simp only [maxPossibleTs, known, ← votesOf_eq orders known, middle, nth, List.length_append,
    List.length_replicate, List.length_insertionSort, length]
  by_cases quorum : alpha ≤ s.voteCount tx + beta
  · have kept : s.voteCount tx + beta - (s.voteCount tx + beta - alpha) = alpha := by omega
    rw [if_neg (Nat.not_lt.mpr quorum), if_pos quorum, List.length_drop, List.length_append,
      List.length_replicate, List.length_insertionSort, length, kept, List.getD_eq_getElem?_getD,
      List.getElem?_drop, List.getElem?_append_left (by rw [List.length_insertionSort, length]; omega),
      List.getD_eq_getElem?_getD]
  · rw [if_pos (Nat.not_le.mp quorum), if_neg quorum]

/-- `rperf` is the most recent timestamp at position `alpha / 2 - beta`. -/
theorem minPossibleTsForNewTx_eq (orders : HashOrders) (replicas : HashMap ReplicaId Replica)
    (ratio : 4 * beta + 1 ≤ alpha) (enough : alpha ≤ s.mrt.keys.card + beta) :
    minPossibleTsForNewTx orders ⟨replicas, s, alpha, beta⟩ =
      nth (orders.mrt.values s.mrt) (alpha / 2 - beta) 0 := by
  have length : (orders.mrt.values s.mrt).length = s.mrt.keys.card := by
    rw [IterOrder.values, List.length_map, orders.mrt.length_visit]
  simp only [minPossibleTsForNewTx, middle, nth]
  rw [insertionSort_replicate_append Word.zero_le, List.length_take, List.length_append,
    List.length_replicate, List.length_insertionSort, length, Nat.min_eq_left (by omega),
    List.getD_eq_getElem?_getD, List.getElem?_take_of_lt (by omega),
    List.getElem?_append_right (by rw [List.length_replicate]; omega), List.length_replicate,
    List.getD_eq_getElem?_getD]

theorem card_initReplicas (distinct : (replicasList.map Replica.id).Nodup) :
    (initPodNetworkClient replicasList).1.keys.card = replicasList.length := by
  have keys : (initPodNetworkClient replicasList).1.keys = (replicasList.map Replica.id).toFinset := by
    ext r
    rw [Finmap.mem_keys, mem_initReplicas, List.mem_toFinset, List.mem_map]
  rw [keys, List.toFinset_card_of_nodup distinct, List.length_map]

theorem ViewInv.card_mrt (inv : ViewInv replicas s) :
    s.mrt.keys.card = replicas.keys.card := by
  congr 1
  ext r
  rw [Finmap.mem_keys, Finmap.mem_keys, inv.mrtKeys]

theorem mem_tsps_of_voteCount (voted : 0 < s.voteCount tx) : tx ∈ s.tsps := by
  unfold ClientState.voteCount at voted
  split at voted
  · simp at voted
  · rename_i tspstx known
    exact Finmap.mem_of_lookup_eq_some known

/-- Every reported bound lies between values of replicas outside any set of at
most `beta` replicas. -/
theorem bounds_tolerate_faulty_replicas (verifyStrict : VerifyStrict) (replicasList : List Replica)
    (alpha beta : Nat) (accepted : Accepted replicasList alpha beta) (s : ClientState)
    (d : Option ReplicaId) (reach : ClientReach verifyStrict replicasList (s, d))
    (orders : HashOrders) :
    (∀ tx, alpha ≤ s.voteCount tx + beta →
      ∃ rmin rmax, minPossibleTs orders (serviceOf replicasList alpha beta s) tx = rmin ∧
        maxPossibleTs orders (serviceOf replicasList alpha beta s) tx = some rmax ∧ rmin ≤ rmax ∧
        ∀ faulty : Finset ReplicaId, faulty.card ≤ beta →
          (∃ r ∉ faulty, ∃ ts, s.stamp tx r = some ts ∧ ts ≤ rmin) ∧
          (∃ r ∉ faulty, ∃ ts, s.stamp tx r = some ts ∧ rmin ≤ ts) ∧
          (∃ r ∉ faulty, ∃ ts, s.stamp tx r = some ts ∧ ts ≤ rmax) ∧
          (∃ r ∉ faulty, ∃ ts, s.stamp tx r = some ts ∧ rmax ≤ ts)) ∧
    ∃ rperf, minPossibleTsForNewTx orders (serviceOf replicasList alpha beta s) = rperf ∧
      ∀ faulty : Finset ReplicaId, faulty.card ≤ beta →
        (∃ r ∉ faulty, ∃ ts, s.mrt.lookup r = some ts ∧ ts ≤ rperf) ∧
        (∃ r ∉ faulty, ∃ ts, s.mrt.lookup r = some ts ∧ rperf ≤ ts) := by
  have inv := reach.viewInv
  have ratio := accepted.alpha_ge
  have enough := accepted.enough
  refine ⟨fun tx quorum => ?_, ?_⟩
  · have member : tx ∈ s.tsps := mem_tsps_of_voteCount (by omega)
    have length := length_votesOf orders tx inv
    have walk := orders.replicas.keys_nodup (initPodNetworkClient replicasList).1
    have rmaxEq := maxPossibleTs_eq orders inv member ratio
    rw [if_pos quorum] at rmaxEq
    refine ⟨_, _, minPossibleTs_eq orders inv member ratio quorum, rmaxEq,
      nth_le_nth (by omega) (by omega), fun faulty few => ?_⟩
    have atMin := nth_enclosed (f := s.stamp tx) (i := alpha / 2 - beta) (d := 0) faulty walk
      (by omega) (by rw [← votesOf]; omega)
    have atMax := nth_enclosed (f := s.stamp tx) (i := s.voteCount tx + beta - alpha + alpha / 2)
      (d := 0) faulty walk (by omega) (by rw [← votesOf]; omega)
    exact ⟨atMin.1, atMin.2, atMax.1, atMax.2⟩
  · have card : s.mrt.keys.card = replicasList.length := by
      rw [inv.card_mrt, card_initReplicas accepted.distinct]
    have values := orders.mrt.filterMap_keys_lookup s.mrt
    have length : ((orders.mrt.keys s.mrt).filterMap s.mrt.lookup).length = s.mrt.keys.card := by
      rw [values, IterOrder.values, List.length_map, orders.mrt.length_visit]
    refine ⟨_, minPossibleTsForNewTx_eq orders _ ratio (by omega), fun faulty few => ?_⟩
    rw [← values]
    exact nth_enclosed faulty (orders.mrt.keys_nodup s.mrt) (by omega) (by omega)

/-- Six replicas, one of which may be faulty, and the votes of five of them. -/
theorem bounds_tolerate_faulty_replicas_six :
    ∃ s, startPodDataUpdater standInVerify
        (initPodNetworkClient (standInReplicas [1, 2, 3, 4, 5, 6])).1
        [standInVote 1 [65] 10 0, standInVote 2 [65] 20 0, standInVote 3 [65] 30 0,
          standInVote 4 [65] 40 0, standInVote 5 [65] 900 0]
        (initPodNetworkClient (standInReplicas [1, 2, 3, 4, 5, 6])).2 = .ok s ∧
      ∀ orders, ∃ rmin rmax,
        minPossibleTs orders (serviceOf (standInReplicas [1, 2, 3, 4, 5, 6]) 5 1 s) ⟨[65]⟩ = rmin ∧
        maxPossibleTs orders (serviceOf (standInReplicas [1, 2, 3, 4, 5, 6]) 5 1 s) ⟨[65]⟩ = some rmax ∧
        (∃ r ∉ ({5} : Finset ReplicaId), ∃ ts, s.stamp ⟨[65]⟩ r = some ts ∧ ts ≤ rmin) ∧
        (∃ r ∉ ({5} : Finset ReplicaId), ∃ ts, s.stamp ⟨[65]⟩ r = some ts ∧ rmax ≤ ts) := by
  have ends : (startPodDataUpdater standInVerify
      (initPodNetworkClient (standInReplicas [1, 2, 3, 4, 5, 6])).1
      [standInVote 1 [65] 10 0, standInVote 2 [65] 20 0, standInVote 3 [65] 30 0,
        standInVote 4 [65] 40 0, standInVote 5 [65] 900 0]
      (initPodNetworkClient (standInReplicas [1, 2, 3, 4, 5, 6])).2).toOption.any
        (fun s => s.voteCount ⟨[65]⟩ = 5) = true := by decide +kernel
  obtain ⟨s, run, five⟩ := exists_ok_of_any ends
  have count : s.voteCount ⟨[65]⟩ = 5 := of_decide_eq_true five
  have accepted : Accepted (standInReplicas [1, 2, 3, 4, 5, 6]) 5 1 :=
    ⟨by decide, by decide, by decide⟩
  refine ⟨s, run, fun orders => ?_⟩
  obtain ⟨bounds, _⟩ := bounds_tolerate_faulty_replicas standInVerify _ 5 1 accepted s none
    (startPodDataUpdater_run run) orders
  obtain ⟨rmin, rmax, lower, upper, _, enclosed⟩ := bounds ⟨[65]⟩ (by omega)
  have around := enclosed {5} (by simp)
  exact ⟨rmin, rmax, lower, upper, around.1, around.2.2.2⟩

theorem txRecord_isSome (orders : HashOrders) (service : ClientApiService) (tx : Transaction) :
    (txRecord orders service tx).isSome ↔ (maxPossibleTs orders service tx).isSome := by
  unfold txRecord
  cases maxPossibleTs orders service tx with
  | none => simp
  | some rmax => cases service.view.tsps.lookup tx <;> simp

/-- With too few votes the position of `split_off` underflows. -/
theorem maxPossibleTs_isSome (orders : HashOrders) (inv : ViewInv replicas s) (member : tx ∈ s.tsps)
    (ratio : 4 * beta + 1 ≤ alpha) :
    (maxPossibleTs orders ⟨replicas, s, alpha, beta⟩ tx).isSome ↔
      alpha ≤ s.voteCount tx + beta := by
  rw [maxPossibleTs_eq orders inv member ratio]
  split
  · rename_i quorum
    simp [quorum]
  · rename_i few
    simp [few]

/-- A read returns exactly if no known transaction still lacks votes. -/
theorem ViewInv.read_isSome_iff (inv : ViewInv replicas s) (ratio : 4 * beta + 1 ≤ alpha)
    (orders : HashOrders) :
    (read orders ⟨replicas, s, alpha, beta⟩).isSome ↔
      ∀ tx ∈ s.tsps, alpha ≤ s.voteCount tx + beta := by
  rw [Podnet.read_isSome_iff]
  constructor
  · intro all tx member
    exact (maxPossibleTs_isSome orders inv member ratio).mp
      ((txRecord_isSome _ _ _).mp (all tx member))
  · intro quorums tx member
    exact (txRecord_isSome _ _ _).mpr
      ((maxPossibleTs_isSome orders inv member ratio).mpr (quorums tx member))

/-- In a reachable state a read returns exactly if every known transaction has
`alpha - beta` votes: the configuration bounds the replicas, not the votes. -/
theorem read_returns_iff (verifyStrict : VerifyStrict) (replicasList : List Replica)
    (alpha beta : Nat) (accepted : Accepted replicasList alpha beta) (s : ClientState)
    (d : Option ReplicaId) (reach : ClientReach verifyStrict replicasList (s, d))
    (orders : HashOrders) :
    (read orders (serviceOf replicasList alpha beta s)).isSome ↔
      ∀ tx ∈ s.tsps, alpha ≤ s.voteCount tx + beta :=
  reach.viewInv.read_isSome_iff accepted.alpha_ge orders

/-- Two votes of the two replicas that are needed. -/
theorem read_returns_iff_two_votes :
    ∃ s, startPodDataUpdater standInVerify (initPodNetworkClient (standInReplicas [7, 8])).1
        [standInVote 7 [65] 5 0, standInVote 8 [65] 6 0]
        (initPodNetworkClient (standInReplicas [7, 8])).2 = .ok s ∧
      ∀ orders, ((read orders (serviceOf (standInReplicas [7, 8]) 2 0 s)).isSome ↔
        ∀ tx ∈ s.tsps, 2 ≤ s.voteCount tx + 0) := by
  obtain ⟨s, run⟩ := startPodDataUpdater_total standInVerify
    (show ∀ vote ∈ [standInVote 7 [65] 5 0, standInVote 8 [65] 6 0],
      ∃ replica ∈ standInReplicas [7, 8], replica.id = vote.replicaId by decide)
  exact ⟨s, run, read_returns_iff standInVerify _ 2 0 ⟨by decide, by decide, by decide⟩ s none
    (startPodDataUpdater_run run)⟩

/-- The first vote for a transaction makes reads panic until enough replicas
have voted. -/
theorem read_panics_after_first_vote :
    Accepted (standInReplicas [7, 8]) 2 0 ∧
    ∃ s, startPodDataUpdater standInVerify (initPodNetworkClient (standInReplicas [7, 8])).1
        [standInVote 7 [65] 5 0] (initPodNetworkClient (standInReplicas [7, 8])).2 = .ok s ∧
      ClientReach standInVerify (standInReplicas [7, 8]) (s, none) ∧
      ∀ orders, read orders (serviceOf (standInReplicas [7, 8]) 2 0 s) = none := by
  have ends : (startPodDataUpdater standInVerify (initPodNetworkClient (standInReplicas [7, 8])).1
      [standInVote 7 [65] 5 0] (initPodNetworkClient (standInReplicas [7, 8])).2).toOption.any
        (fun s => s.voteCount ⟨[65]⟩ = 1) = true := by decide +kernel
  obtain ⟨s, run, one⟩ := exists_ok_of_any ends
  have count : s.voteCount ⟨[65]⟩ = 1 := of_decide_eq_true one
  have reach : ClientReach standInVerify (standInReplicas [7, 8]) (s, none) :=
    startPodDataUpdater_run run
  refine ⟨⟨by decide, by decide, by decide⟩, s, run, reach, fun orders => ?_⟩
  have member : (⟨[65]⟩ : Transaction) ∈ s.tsps := mem_tsps_of_voteCount (by omega)
  have few : ¬ (read orders (serviceOf (standInReplicas [7, 8]) 2 0 s)).isSome := by
    intro returned
    have votes := (reach.viewInv.read_isSome_iff (by decide) orders).mp returned _ member
    omega
  exact Option.not_isSome_iff_eq_none.mp few

end Podnet
