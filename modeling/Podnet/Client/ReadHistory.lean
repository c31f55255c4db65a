import Podnet.Client.ReadBounds

namespace Podnet

open OrderStatistic

/-- A read that returns lists `record` for `tx`. -/
def Reports (orders : HashOrders) (service : ClientApiService) (tx : Transaction)
    (record : TxRecord) : Prop :=
  ∃ pod, read orders service = some pod ∧ record ∈ pod.t ∧ record.transaction = some tx

section Records

variable {orders : HashOrders} {service : ClientApiService} {tx : Transaction} {record : TxRecord}

theorem reports_iff :
    Reports orders service tx record ↔
      (read orders service).isSome ∧ tx ∈ service.view.tsps ∧
        txRecord orders service tx = some record := by
  constructor
  · intro ⟨pod, run, listed, named⟩
    obtain ⟨tx', known, own⟩ := (read_mem_iff run).mp listed
    have same : tx' = tx := Option.some.inj ((txRecord_transaction own).symm.trans named)
    exact ⟨by rw [run]; rfl, same ▸ known, same ▸ own⟩
  · intro ⟨returned, known, own⟩
    obtain ⟨pod, run⟩ := Option.isSome_iff_exists.mp returned
    exact ⟨pod, run, (read_mem_iff run).mpr ⟨tx, known, own⟩, txRecord_transaction own⟩

/-- The bounds of a record, and its `rconf`: the middle one of the votes in the
order of the walk, which nothing has sorted. -/
theorem txRecord_fields {tspstx : HashMap ReplicaId Timestamp}
    (known : service.view.tsps.lookup tx = some tspstx)
    (run : txRecord orders service tx = some record) :
    record.rmin = minPossibleTs orders service tx ∧
      maxPossibleTs orders service tx = some record.rmax ∧
      record.rconf = some (middle ((orders.voters tx).values tspstx)) := by
  unfold txRecord at run
  split at run
  · simp at run
  · rename_i rmax upper
    rw [known] at run
    cases Option.some.inj run
    exact ⟨rfl, upper, by rw [(orders.voters tx).filterMap_keys_lookup]⟩

end Records

theorem middle_mem {timestamps : List Timestamp} (nonempty : timestamps ≠ []) :
    middle timestamps ∈ timestamps := by
  have length := List.length_pos_of_ne_nil nonempty
  rw [middle, List.getD_eq_getElem _ _ (by omega)]
  exact List.getElem_mem _

/-- A walk may have any vote in the middle. -/
theorem exists_walk_middle {tspstx : HashMap ReplicaId Timestamp} {r : ReplicaId} {ts : Timestamp}
    (atR : tspstx.lookup r = some ts) :
    ∃ walk : IterOrder ReplicaId Timestamp, middle (walk.values tspstx) = ts := by
  have inside : 0 < tspstx.keys.card :=
    Finset.card_pos.mpr ⟨r, Finmap.mem_keys.mpr (Finmap.mem_of_lookup_eq_some atR)⟩
  obtain ⟨walk, atMiddle⟩ := IterOrder.exists_visit_at (i := tspstx.keys.card / 2) tspstx atR (by omega)
  refine ⟨walk, ?_⟩
  rw [middle, IterOrder.values, List.length_map, walk.length_visit, List.getD_eq_getElem?_getD,
    List.getElem?_map, atMiddle]
  rfl

variable {verifyStrict : VerifyStrict} {replicas : HashMap ReplicaId Replica}
  {replicasList : List Replica} {alpha beta : Nat} {tx : Transaction} {s s' : ClientState}
  {d d' : Option ReplicaId}

/-- The replicas whose most recent timestamp is at most `ts`. -/
def ClientState.upTo (s : ClientState) (ts : Timestamp) : Finset ReplicaId :=
  s.mrt.keys.filter fun r => (s.mrt.lookup r).any (· ≤ ts)

theorem upTo_subset {m ts : Timestamp} (order : m ≤ ts) : s.upTo m ⊆ s.upTo ts := by
  intro r member
  simp only [ClientState.upTo, Finset.mem_filter, Option.any_eq_true, decide_eq_true_eq] at member ⊢
  obtain ⟨known, v, atR, below⟩ := member
  exact ⟨known, v, atR, below.trans order⟩

theorem minPossibleTsForNewTx_le_iff {ts : Timestamp} (orders : HashOrders)
    (replicas : HashMap ReplicaId Replica) (ratio : 4 * beta + 1 ≤ alpha)
    (enough : alpha ≤ s.mrt.keys.card + beta) :
    minPossibleTsForNewTx orders ⟨replicas, s, alpha, beta⟩ ≤ ts ↔
      alpha / 2 - beta < (s.upTo ts).card := by
  have length : (orders.mrt.values s.mrt).length = s.mrt.keys.card := by
    rw [IterOrder.values, List.length_map, orders.mrt.length_visit]
  rw [minPossibleTsForNewTx_eq orders replicas ratio enough, nth_le_iff (by omega),
    ← orders.mrt.filterMap_keys_lookup, countP_filterMap (orders.mrt.keys_nodup s.mrt),
    orders.mrt.keys_toFinset, ClientState.upTo]

/-- No read of `s'` reports `tx` with an `rconf` before the `rperf` of `s`. -/
def PastPerfect (replicas : HashMap ReplicaId Replica) (alpha beta : Nat) (s s' : ClientState)
    (tx : Transaction) : Prop :=
  ∀ orders orders' record c, Reports orders' ⟨replicas, s', alpha, beta⟩ tx record →
    record.rconf = some c → minPossibleTsForNewTx orders ⟨replicas, s, alpha, beta⟩ ≤ c

/-- Any recorded vote of a transaction can be the one that a read takes for
`rconf`. -/
theorem exists_reports_rconf (inv : ViewInv replicas s) (ratio : 4 * beta + 1 ≤ alpha)
    (quorums : ∀ tx ∈ s.tsps, alpha ≤ s.voteCount tx + beta) {r : ReplicaId} {ts : Timestamp}
    (vote : s.stamp tx r = some ts) :
    ∃ orders record, Reports orders ⟨replicas, s, alpha, beta⟩ tx record ∧
      record.rconf = some ts := by
  obtain ⟨tspstx, known, atR⟩ := Option.bind_eq_some_iff.mp vote
  have member : tx ∈ s.tsps := Finmap.mem_of_lookup_eq_some known
  obtain ⟨walk, value⟩ := exists_walk_middle atR
  let orders : HashOrders := ⟨.arbitrary _ _, .arbitrary _ _, fun _ => walk, .arbitrary _ _⟩
  have returned := (inv.read_isSome_iff ratio orders).mpr quorums
  obtain ⟨record, own⟩ := Option.isSome_iff_exists.mp (read_isSome_iff.mp returned tx member)
  refine ⟨orders, record, reports_iff.mpr ⟨returned, member, own⟩, ?_⟩
  rw [(txRecord_fields known own).2.2, ← value]

theorem ViewInv.pastPerfect_iff (inv : ViewInv replicas s) (inv' : ViewInv replicas s')
    (ratio : 4 * beta + 1 ≤ alpha) (enough : alpha ≤ replicas.keys.card + beta) :
    PastPerfect replicas alpha beta s s' tx ↔
      ((∀ tx' ∈ s'.tsps, alpha ≤ s'.voteCount tx' + beta) →
        ∀ r ts, s'.stamp tx r = some ts → alpha / 2 - beta < (s.upTo ts).card) := by
  have room : alpha ≤ s.mrt.keys.card + beta := by rwa [inv.card_mrt]
  constructor
  · intro perfect quorums r ts vote
    obtain ⟨orders, record, reports, rconf⟩ := exists_reports_rconf inv' ratio quorums vote
    exact (minPossibleTsForNewTx_le_iff orders replicas ratio room).mp
      (perfect orders orders record ts reports rconf)
  · intro votes orders orders' record c reports rconf
    obtain ⟨returned, member, own⟩ := reports_iff.mp reports
    have quorums := (inv'.read_isSome_iff ratio orders').mp returned
    obtain ⟨tspstx, known⟩ := Finmap.mem_iff.mp member
    obtain ⟨r₀, ts₀, first⟩ := inv'.inhabited tx member
    have value := (txRecord_fields known own).2.2
    have walked : c ∈ (orders'.voters tx).values tspstx := by
      cases Option.some.inj (rconf.symm.trans value)
      refine middle_mem fun empty => ?_
      have keys := (orders'.voters tx).length_visit tspstx
      have none : tspstx.keys.card = 0 := by
        rw [← keys, ← List.length_map Prod.snd]
        exact List.length_eq_zero_iff.mpr empty
      have voter : r₀ ∈ tspstx.keys := by
        simp only [ClientState.stamp, known, Option.bind_some] at first
        exact Finmap.mem_keys.mpr (Finmap.mem_of_lookup_eq_some first)
      rw [Finset.card_eq_zero.mp none] at voter
      exact absurd voter (Finset.notMem_empty _)
    obtain ⟨⟨r, ts⟩, visited, rfl⟩ := List.mem_map.mp walked
    have vote : s'.stamp tx r = some ts := by
      simp only [ClientState.stamp, known, Option.bind_some]
      exact ((orders'.voters tx).mem_visit _ _ _).mp visited
    exact (minPossibleTsForNewTx_le_iff orders replicas ratio room).mpr (votes quorums r ts vote)

/-- Past-perfection of `rperf`. It holds of two states exactly if every vote of the
transaction comes after the most recent timestamps of more than `alpha / 2 - beta`
replicas of the earlier state, since `rconf` may be any of the votes. It holds
from a state on whose replicas all have such timestamps. -/
theorem past_perfection_iff (verifyStrict : VerifyStrict) (replicasList : List Replica)
    (alpha beta : Nat) (accepted : Accepted replicasList alpha beta) (s : ClientState)
    (d : Option ReplicaId) (reach : ClientReach verifyStrict replicasList (s, d)) :
    (∀ s' d' tx, ClientRun verifyStrict (initPodNetworkClient replicasList).1 (s, d) (s', d') →
      tx ∉ s.tsps →
      (PastPerfect (initPodNetworkClient replicasList).1 alpha beta s s' tx ↔
        ((∀ tx' ∈ s'.tsps, alpha ≤ s'.voteCount tx' + beta) →
          ∀ r ts, s'.stamp tx r = some ts → alpha / 2 - beta < (s.upTo ts).card))) ∧
    ((∀ r m, s.mrt.lookup r = some m → alpha / 2 - beta < (s.upTo m).card) →
      ∀ s' d' tx, ClientRun verifyStrict (initPodNetworkClient replicasList).1 (s, d) (s', d') →
        tx ∉ s.tsps → PastPerfect (initPodNetworkClient replicasList).1 alpha beta s s' tx) := by
  have inv := reach.viewInv
  have enough : alpha ≤ (initPodNetworkClient replicasList).1.keys.card + beta := by
    have room := accepted.enough
    rw [card_initReplicas accepted.distinct]
    omega
  refine ⟨fun s' d' tx run _ => ?_, fun recent s' d' tx run unseen => ?_⟩
  · exact inv.pastPerfect_iff (ClientRun.viewInv run inv) accepted.alpha_ge enough
  · rw [inv.pastPerfect_iff (ClientRun.viewInv run inv) accepted.alpha_ge enough]
    intro _ r ts vote
    have configured := (ClientRun.viewInv run inv).voters tx r ts vote
    obtain ⟨m, known⟩ := Finmap.mem_iff.mp ((inv.mrtKeys r).mpr configured)
    rcases (ClientRun.later run).fresh tx r ts vote with old | above
    · obtain ⟨tspstx, atTx, _⟩ := Option.bind_eq_some_iff.mp old
      exact absurd (Finmap.mem_of_lookup_eq_some atTx) unseen
    · have grown := Finset.card_le_card (upTo_subset (s := s) (above m known))
      have many := recent r m known
      omega

/-- No replica is ahead of another in the initial state; then both vote for a new
transaction. -/
theorem past_perfection_iff_two_votes :
    ∃ s', startPodDataUpdater standInVerify (initPodNetworkClient (standInReplicas [7, 8])).1
        [standInVote 7 [65] 5 0, standInVote 8 [65] 6 0] (initPodNetworkClient (standInReplicas [7, 8])).2 =
          .ok s' ∧
      s'.stamp ⟨[65]⟩ 7 = some 5 ∧
      PastPerfect (initPodNetworkClient (standInReplicas [7, 8])).1 2 0
        (initPodNetworkClient (standInReplicas [7, 8])).2 s' ⟨[65]⟩ := by
  have ends : (startPodDataUpdater standInVerify (initPodNetworkClient (standInReplicas [7, 8])).1
      [standInVote 7 [65] 5 0, standInVote 8 [65] 6 0]
      (initPodNetworkClient (standInReplicas [7, 8])).2).toOption.any (fun s =>
        decide (s.stamp ⟨[65]⟩ 7 = some 5)) = true := by decide +kernel
  obtain ⟨s', run, stamp⟩ := exists_ok_of_any ends
  refine ⟨s', run, of_decide_eq_true stamp, ?_⟩
  refine (past_perfection_iff standInVerify (standInReplicas [7, 8]) 2 0
    ⟨by decide, by decide, by decide⟩ _ none .refl).2 ?_ s' none _ (startPodDataUpdater_run run)
    Finmap.notMem_empty
  intro r m known
  have zero := lookup_foldl_zero (standInReplicas [7, 8]) ∅ (fun r => by simp) r
  have atR : (initPodNetworkClient (standInReplicas [7, 8])).2.mrt.lookup r = some m := known
  simp only [initPodNetworkClient] at atR
  rw [atR, Option.getD_some] at zero
  rw [zero]
  decide +kernel

/-- Replica 8 is ahead of replica 7 when the first read promises `rperf = 1`; the
later votes of both for a new transaction may be reported with `rconf = 0`. -/
theorem past_perfection_broken_by_slow_replica :
    Accepted (standInReplicas [7, 8]) 2 0 ∧
    ∃ s s', startPodDataUpdater standInVerify (initPodNetworkClient (standInReplicas [7, 8])).1
        [standInVote 8 heartbeatData 1 0] (initPodNetworkClient (standInReplicas [7, 8])).2 = .ok s ∧
      startPodDataUpdater standInVerify (initPodNetworkClient (standInReplicas [7, 8])).1
        [standInVote 7 [65] 0 0, standInVote 8 [65] 1 1] s = .ok s' ∧
      ⟨[65]⟩ ∉ s.tsps ∧
      ¬ PastPerfect (initPodNetworkClient (standInReplicas [7, 8])).1 2 0 s s' ⟨[65]⟩ := by
  have ends : (startPodDataUpdater standInVerify (initPodNetworkClient (standInReplicas [7, 8])).1
      [standInVote 8 heartbeatData 1 0]
      (initPodNetworkClient (standInReplicas [7, 8])).2).toOption.any (fun s =>
        decide ((⟨[65]⟩ : Transaction) ∉ s.tsps ∧ (s.upTo 0).card = 1) &&
        (startPodDataUpdater standInVerify (initPodNetworkClient (standInReplicas [7, 8])).1
          [standInVote 7 [65] 0 0, standInVote 8 [65] 1 1] s).toOption.any (fun s' =>
            decide (s'.stamp ⟨[65]⟩ 7 = some 0 ∧
              ∀ tx ∈ s'.tsps.keys, 2 ≤ s'.voteCount tx + 0))) = true := by decide +kernel
  obtain ⟨s, run, first⟩ := exists_ok_of_any ends
  obtain ⟨before, second⟩ := (Bool.and_eq_true _ _).mp first
  obtain ⟨unseen, alone⟩ := of_decide_eq_true before
  obtain ⟨s', run', after⟩ := exists_ok_of_any second
  obtain ⟨vote, quorums⟩ := of_decide_eq_true after
  have inv : ViewInv (initPodNetworkClient (standInReplicas [7, 8])).1 s :=
    ClientRun.viewInv (startPodDataUpdater_run run) (init_viewInv _)
  have inv' : ViewInv (initPodNetworkClient (standInReplicas [7, 8])).1 s' :=
    ClientRun.viewInv (startPodDataUpdater_run run') inv
  refine ⟨⟨by decide, by decide, by decide⟩, s, s', run, run', unseen, fun perfect => ?_⟩
  have late := (inv.pastPerfect_iff inv' (by decide) (by decide +kernel)).mp perfect
    (fun tx member => quorums tx (Finmap.mem_keys.mpr member)) 7 0 vote
  omega

/-- The bounds of a reported transaction are order statistics of its votes. -/
theorem Reports.bounds {orders : HashOrders} {record : TxRecord} (inv : ViewInv replicas s)
    (ratio : 4 * beta + 1 ≤ alpha)
    (reports : Reports orders ⟨replicas, s, alpha, beta⟩ tx record) :
    alpha ≤ (votesOf orders replicas s tx).length + beta ∧
      record.rmin = nth (votesOf orders replicas s tx) (alpha / 2 - beta) 0 ∧
      record.rmax = nth (votesOf orders replicas s tx)
        ((votesOf orders replicas s tx).length - (alpha - alpha / 2 - beta)) 0 := by
  obtain ⟨returned, member, own⟩ := reports_iff.mp reports
  have quorum := (inv.read_isSome_iff ratio orders).mp returned tx member
  obtain ⟨tspstx, known⟩ := Finmap.mem_iff.mp member
  obtain ⟨lower, upper, _⟩ := txRecord_fields known own
  have length := length_votesOf orders tx inv
  rw [minPossibleTs_eq orders inv member ratio quorum] at lower
  rw [maxPossibleTs_eq orders inv member ratio, if_pos quorum] at upper
  have position : s.voteCount tx + beta - alpha + alpha / 2 =
      (votesOf orders replicas s tx).length - (alpha - alpha / 2 - beta) := by omega
  exact ⟨by omega, lower, by rw [← position]; exact (Option.some.inj upper).symm⟩

theorem ViewInv.interval_iff {orders orders' : HashOrders} {record record' : TxRecord}
    (inv : ViewInv replicas s) (inv' : ViewInv replicas s') (ratio : 4 * beta + 1 ≤ alpha)
    (reports : Reports orders ⟨replicas, s, alpha, beta⟩ tx record)
    (reports' : Reports orders' ⟨replicas, s', alpha, beta⟩ tx record') :
    (record.rmin ≤ record'.rmin ∧ record'.rmax ≤ record.rmax) ↔
      (∀ ts, (s.voters tx (· < ts)).card ≤ alpha / 2 - beta →
        (s'.voters tx (· < ts)).card ≤ alpha / 2 - beta) ∧
      ∀ ts, (s.voters tx (ts < ·)).card < alpha - alpha / 2 - beta →
        (s'.voters tx (ts < ·)).card < alpha - alpha / 2 - beta := by
  obtain ⟨quorum, lower, upper⟩ := reports.bounds inv ratio
  obtain ⟨quorum', lower', upper'⟩ := reports'.bounds inv' ratio
  rw [lower, lower', upper, upper', nth_le_nth_iff (by omega) (by omega),
    nth_top_le_nth_top_iff (by omega) (by omega) (by omega)]
  simp only [countP_votesOf orders tx inv, countP_votesOf orders' tx inv']

/-- The interval of a transaction shrinks between two reads exactly if the votes
in between leave the number of old ones and the number of recent ones as low as
they were: for each bound `ts`, at most `alpha / 2 - beta` votes before it and
fewer than `alpha - alpha / 2 - beta` after it. -/
theorem interval_shrinks_iff (verifyStrict : VerifyStrict) (replicasList : List Replica)
    (alpha beta : Nat) (accepted : Accepted replicasList alpha beta) (s s' : ClientState)
    (d d' : Option ReplicaId) (reach : ClientReach verifyStrict replicasList (s, d))
    (run : ClientRun verifyStrict (initPodNetworkClient replicasList).1 (s, d) (s', d'))
    (tx : Transaction) (orders orders' : HashOrders) (record record' : TxRecord)
    (reports : Reports orders (serviceOf replicasList alpha beta s) tx record)
    (reports' : Reports orders' (serviceOf replicasList alpha beta s') tx record') :
    (record.rmin ≤ record'.rmin ∧ record'.rmax ≤ record.rmax) ↔
      (∀ ts, (s.voters tx (· < ts)).card ≤ alpha / 2 - beta →
        (s'.voters tx (· < ts)).card ≤ alpha / 2 - beta) ∧
      ∀ ts, (s.voters tx (ts < ·)).card < alpha - alpha / 2 - beta →
        (s'.voters tx (ts < ·)).card < alpha - alpha / 2 - beta :=
  reach.viewInv.interval_iff (ClientRun.viewInv run reach.viewInv) accepted.alpha_ge reports reports'

/-- A read after one vote and a read after a second, older one. -/
theorem exists_reports_older_vote :
    ∃ s s' orders orders' record record',
      startPodDataUpdater standInVerify (initPodNetworkClient (standInReplicas [7, 8])).1
        [standInVote 7 [65] 10 0] (initPodNetworkClient (standInReplicas [7, 8])).2 = .ok s ∧
      startPodDataUpdater standInVerify (initPodNetworkClient (standInReplicas [7, 8])).1
        [standInVote 8 [65] 5 0] s = .ok s' ∧
      Reports orders (serviceOf (standInReplicas [7, 8]) 1 0 s) ⟨[65]⟩ record ∧
      Reports orders' (serviceOf (standInReplicas [7, 8]) 1 0 s') ⟨[65]⟩ record' ∧
      (s.voters ⟨[65]⟩ (· < 6)).card = 0 ∧ (s'.voters ⟨[65]⟩ (· < 6)).card = 1 := by
  have ends : (startPodDataUpdater standInVerify (initPodNetworkClient (standInReplicas [7, 8])).1
      [standInVote 7 [65] 10 0] (initPodNetworkClient (standInReplicas [7, 8])).2).toOption.any
        (fun s => decide ((s.stamp ⟨[65]⟩ 7 = some 10 ∧
            ∀ tx ∈ s.tsps.keys, 1 ≤ s.voteCount tx + 0) ∧ (s.voters ⟨[65]⟩ (· < 6)).card = 0) &&
          (startPodDataUpdater standInVerify (initPodNetworkClient (standInReplicas [7, 8])).1
            [standInVote 8 [65] 5 0] s).toOption.any (fun s' =>
              decide ((s'.stamp ⟨[65]⟩ 8 = some 5 ∧ ∀ tx ∈ s'.tsps.keys, 1 ≤ s'.voteCount tx + 0) ∧
                (s'.voters ⟨[65]⟩ (· < 6)).card = 1))) = true := by decide +kernel
  obtain ⟨s, run, first⟩ := exists_ok_of_any ends
  obtain ⟨before, second⟩ := (Bool.and_eq_true _ _).mp first
  obtain ⟨⟨vote, quorums⟩, none⟩ := of_decide_eq_true before
  obtain ⟨s', run', after⟩ := exists_ok_of_any second
  obtain ⟨⟨vote', quorums'⟩, one⟩ := of_decide_eq_true after
  have inv : ViewInv (initPodNetworkClient (standInReplicas [7, 8])).1 s :=
    ClientRun.viewInv (startPodDataUpdater_run run) (init_viewInv _)
  have inv' : ViewInv (initPodNetworkClient (standInReplicas [7, 8])).1 s' :=
    ClientRun.viewInv (startPodDataUpdater_run run') inv
  obtain ⟨orders, record, reports, _⟩ := exists_reports_rconf inv (by decide)
    (fun tx member => quorums tx (Finmap.mem_keys.mpr member)) vote
  obtain ⟨orders', record', reports', _⟩ := exists_reports_rconf inv' (by decide)
    (fun tx member => quorums' tx (Finmap.mem_keys.mpr member)) vote'
  exact ⟨s, s', orders, orders', record, record', run, run', reports, reports', none, one⟩

/-- The characterisation at the two reads around an older vote. -/
theorem interval_shrinks_iff_older_vote :
    ∃ s s' orders orders' record record',
      Reports orders (serviceOf (standInReplicas [7, 8]) 1 0 s) ⟨[65]⟩ record ∧
      Reports orders' (serviceOf (standInReplicas [7, 8]) 1 0 s') ⟨[65]⟩ record' ∧
      ((record.rmin ≤ record'.rmin ∧ record'.rmax ≤ record.rmax) ↔
        (∀ ts, (s.voters ⟨[65]⟩ (· < ts)).card ≤ 1 / 2 - 0 →
          (s'.voters ⟨[65]⟩ (· < ts)).card ≤ 1 / 2 - 0) ∧
        ∀ ts, (s.voters ⟨[65]⟩ (ts < ·)).card < 1 - 1 / 2 - 0 →
          (s'.voters ⟨[65]⟩ (ts < ·)).card < 1 - 1 / 2 - 0) := by
  obtain ⟨s, s', orders, orders', record, record', run, run', reports, reports', _⟩ :=
    exists_reports_older_vote
  exact ⟨s, s', orders, orders', record, record', reports, reports',
    interval_shrinks_iff standInVerify (standInReplicas [7, 8]) 1 0 ⟨by decide, by decide, by decide⟩
      s s' none none (startPodDataUpdater_run run) (startPodDataUpdater_run run') ⟨[65]⟩ orders orders'
      record record' reports reports'⟩

/-- The second vote is older than the first and moves `rmin` back. -/
theorem interval_widened_by_older_vote :
    Accepted (standInReplicas [7, 8]) 1 0 ∧
    ∃ s s' orders orders' record record',
      startPodDataUpdater standInVerify (initPodNetworkClient (standInReplicas [7, 8])).1
        [standInVote 7 [65] 10 0] (initPodNetworkClient (standInReplicas [7, 8])).2 = .ok s ∧
      startPodDataUpdater standInVerify (initPodNetworkClient (standInReplicas [7, 8])).1
        [standInVote 8 [65] 5 0] s = .ok s' ∧
      Reports orders (serviceOf (standInReplicas [7, 8]) 1 0 s) ⟨[65]⟩ record ∧
      Reports orders' (serviceOf (standInReplicas [7, 8]) 1 0 s') ⟨[65]⟩ record' ∧
      ¬ (record.rmin ≤ record'.rmin ∧ record'.rmax ≤ record.rmax) := by
  obtain ⟨s, s', orders, orders', record, record', run, run', reports, reports', none, one⟩ :=
    exists_reports_older_vote
  refine ⟨⟨by decide, by decide, by decide⟩, s, s', orders, orders', record, record', run, run',
    reports, reports', fun shrunk => ?_⟩
  have inv : ViewInv (initPodNetworkClient (standInReplicas [7, 8])).1 s :=
    ClientRun.viewInv (startPodDataUpdater_run run) (init_viewInv _)
  have inv' : ViewInv (initPodNetworkClient (standInReplicas [7, 8])).1 s' :=
    ClientRun.viewInv (startPodDataUpdater_run run') inv
  have few := ((inv.interval_iff inv' (by decide) reports reports').mp shrunk).1 6 (by omega)
  omega

end Podnet
