import Podnet.Client.ReadHistory
import Podnet.Client.Feed
import Podnet.Client.Vetted

namespace Podnet

variable {verifyStrict : VerifyStrict} {replicas : HashMap ReplicaId Replica}
  {s s' : ClientState} {d d' : Option ReplicaId} {vote : Vote} {r : ReplicaId} {tx : Transaction}
  {orders : HashOrders} {service : ClientApiService}

/-- The first processed vote with a timestamp, of whatever replica and for whatever
transaction. -/
def ClientState.firstVote (s : ClientState) (ts : Timestamp) : Option Vote :=
  (s.calls.map Prod.snd).find? fun vote => vote.timestamp = ts

/-- The evidence of a read supports what it stands for: each recorded vote is in the
`ctx` of its transaction, and the most recent vote of each replica in `cpp`. -/
structure Supported (verifyStrict : VerifyStrict) (replicas : HashMap ReplicaId Replica)
    (s : ClientState) (pod : PodData) : Prop where
  ctx : ∀ tx r ts, s.stamp tx r = some ts → ∃ record ∈ pod.t, record.transaction = some tx ∧
    ∃ v ∈ record.ctx, (v.replicaId = r ∧ v.transaction = some tx) ∧ v.timestamp = ts ∧
      Verified verifyStrict replicas v
  cpp : ∀ r m, s.callsOf r ≠ [] → s.mrt.lookup r = some m →
    ∃ v ∈ pod.cpp, v.replicaId = r ∧ v.timestamp = m ∧ Verified verifyStrict replicas v

section FirstVote

theorem firstVote_afterVote (r : ReplicaId) (tx : Transaction) (mrtEntry : Timestamp) (vote : Vote)
    (s : ClientState) (ts : Timestamp) :
    (afterVote r tx vote.timestamp mrtEntry vote s).firstVote ts =
      (s.firstVote ts).or (if vote.timestamp = ts then some vote else none) := by
  simp only [ClientState.firstVote, afterVote, List.map_append, List.find?_append, List.map_cons,
    List.map_nil, List.find?_singleton, decide_eq_true_eq]

/-- `ts_vote_msg` keeps the first vote of every timestamp and no other. -/
theorem ClientStep.firstVote (step : ClientStep verifyStrict replicas (s, d) (s', d'))
    (first : ∀ ts, s.tsVoteMsg.lookup ts = s.firstVote ts) (ts : Timestamp) :
    s'.tsVoteMsg.lookup ts = s'.firstVote ts := by
  rcases step.view_cases with ⟨same, calls⟩ | ⟨r, tx, vote, mrtEntry, t, same, calls, _, _, rfl⟩
  · rw [same.tsVoteMsg, first, ClientState.firstVote, ClientState.firstVote, calls]
  · have before : ∀ ts, t.tsVoteMsg.lookup ts = t.firstVote ts := by
      intro ts
      rw [same.tsVoteMsg, first, ClientState.firstVote, ClientState.firstVote, calls]
    rw [tsVoteMsg_afterVote, firstVote_afterVote, ← before]
    by_cases own : vote.timestamp = ts
    · subst own
      by_cases stored : vote.timestamp ∈ t.tsVoteMsg
      · obtain ⟨old, atTs⟩ := Finmap.mem_iff.mp stored
        rw [if_neg fun new => new.2 stored, atTs, Option.some_or]
      · rw [if_pos ⟨rfl, stored⟩, Finmap.lookup_eq_none.mpr stored, if_pos rfl, Option.none_or]
    · rw [if_neg own, if_neg fun new => own new.1.symm, Option.or_none]

theorem ClientReach.firstVote {replicasList : List Replica}
    (reach : ClientReach verifyStrict replicasList (s, d)) (ts : Timestamp) :
    s.tsVoteMsg.lookup ts = s.firstVote ts := by
  suffices run : ∀ q, ClientReach verifyStrict replicasList q →
      ∀ ts, q.1.tsVoteMsg.lookup ts = q.1.firstVote ts from run _ reach ts
  intro q reach
  induction reach with
  | refl => exact fun _ => rfl
  | tail _ step ih => exact step.firstVote ih

theorem firstVote_some {ts : Timestamp} (first : s.firstVote ts = some vote) :
    vote.timestamp = ts ∧ ∃ r, (r, vote) ∈ s.calls := by
  have own := List.find?_some first
  obtain ⟨⟨r, _⟩, member, rfl⟩ := List.mem_map.mp (List.mem_of_find?_eq_some first)
  exact ⟨of_decide_eq_true own, r, member⟩

end FirstVote

section Read

theorem txRecord_ctx {record : TxRecord} {tspstx : HashMap ReplicaId Timestamp}
    (known : service.view.tsps.lookup tx = some tspstx)
    (run : txRecord orders service tx = some record) :
    record.ctx = ((orders.voters tx).values tspstx).map fun ts =>
      (service.view.tsVoteMsg.lookup ts).getD Vote.default := by
  unfold txRecord at run
  split at run
  · simp at run
  · rw [known] at run
    cases Option.some.inj run
    simp only [(orders.voters tx).filterMap_keys_lookup]

/-- Among votes looked up by their timestamps there is one of timestamp `ts` with `p`
exactly if the first vote of that timestamp is one. -/
theorem exists_evidence_iff {replicasList : List Replica} {stamps : List Timestamp} {ts : Timestamp}
    (reach : ClientReach verifyStrict replicasList (s, d)) (member : ts ∈ stamps) (p : Vote → Prop) :
    (∃ v ∈ stamps.map fun ts => (s.tsVoteMsg.lookup ts).getD Vote.default,
        p v ∧ v.timestamp = ts ∧ Verified verifyStrict (initPodNetworkClient replicasList).1 v) ↔
      ∃ v, s.firstVote ts = some v ∧ p v := by
  constructor
  · rintro ⟨v, looked, holds, own, verified⟩
    obtain ⟨ts', _, found⟩ := List.mem_map.mp looked
    rw [reach.firstVote] at found
    cases first : s.firstVote ts' with
    | none =>
      rw [first, Option.getD_none] at found
      obtain ⟨_, _, carried, _⟩ := verified
      simp [← found, Vote.default] at carried
    | some w =>
      rw [first, Option.getD_some] at found
      subst found
      rw [← own, (firstVote_some first).1]
      exact ⟨w, first, holds⟩
  · rintro ⟨v, first, holds⟩
    obtain ⟨own, r, called⟩ := firstVote_some first
    refine ⟨v, List.mem_map.mpr ⟨ts, member, ?_⟩, holds, own, (reach.vetted.calls r v called).2⟩
    rw [reach.firstVote, first, Option.getD_some]

/-- The evidence of a read is right exactly if the first processed vote with the timestamp
of a recorded vote is a vote of the same replica for the same transaction, and the
first one with the most recent timestamp of a replica is a vote of this replica. -/
theorem evidence_supported_iff (verifyStrict : VerifyStrict) (replicasList : List Replica)
    (alpha beta : Nat) (s : ClientState) (d : Option ReplicaId) (orders : HashOrders) (pod : PodData)
    (reach : ClientReach verifyStrict replicasList (s, d))
    (run : read orders (serviceOf replicasList alpha beta s) = some pod) :
    Supported verifyStrict (initPodNetworkClient replicasList).1 s pod ↔
      (∀ tx r ts, s.stamp tx r = some ts →
        ∃ v, s.firstVote ts = some v ∧ v.replicaId = r ∧ v.transaction = some tx) ∧
      ∀ r m, s.callsOf r ≠ [] → s.mrt.lookup r = some m →
        ∃ v, s.firstVote m = some v ∧ v.replicaId = r := by
  have ctx : ∀ tx r ts, s.stamp tx r = some ts → ∀ record ∈ pod.t, record.transaction = some tx →
      ((∃ v ∈ record.ctx, (v.replicaId = r ∧ v.transaction = some tx) ∧ v.timestamp = ts ∧
          Verified verifyStrict (initPodNetworkClient replicasList).1 v) ↔
        ∃ v, s.firstVote ts = some v ∧ v.replicaId = r ∧ v.transaction = some tx) := by
    intro tx r ts atTx record listed named
    obtain ⟨tspstx, known, atR⟩ := Option.bind_eq_some_iff.mp atTx
    obtain ⟨tx', _, own⟩ := (read_mem_iff run).mp listed
    cases Option.some.inj ((txRecord_transaction own).symm.trans named)
    rw [txRecord_ctx known own]
    exact exists_evidence_iff reach ((orders.voters tx).mem_values tspstx atR) _
  have cpp : ∀ r m, s.mrt.lookup r = some m →
      ((∃ v ∈ pod.cpp, v.replicaId = r ∧ v.timestamp = m ∧
          Verified verifyStrict (initPodNetworkClient replicasList).1 v) ↔
        ∃ v, s.firstVote m = some v ∧ v.replicaId = r) := by
    intro r m known
    rw [(read_fields run).2]
    exact exists_evidence_iff reach (orders.mrt.mem_values s.mrt known) _
  constructor
  · intro supported
    refine ⟨fun tx r ts atTx => ?_, fun r m called known => (cpp r m known).mp (supported.cpp r m called known)⟩
    obtain ⟨record, listed, named, evidence⟩ := supported.ctx tx r ts atTx
    exact (ctx tx r ts atTx record listed named).mp evidence
  · rintro ⟨recorded, recent⟩
    refine ⟨fun tx r ts atTx => ?_, fun r m called known => (cpp r m known).mpr (recent r m called known)⟩
    obtain ⟨tspstx, known, _⟩ := Option.bind_eq_some_iff.mp atTx
    obtain ⟨record, listed, own⟩ := read_lists run (Finmap.mem_of_lookup_eq_some known)
    have named := txRecord_transaction own
    exact ⟨record, listed, named, (ctx tx r ts atTx record listed named).mpr (recorded tx r ts atTx)⟩

/-- Two replicas vote for a transaction in different rounds; the vote of each is the evidence
for its entries. -/
theorem evidence_supported_iff_two_rounds :
    ∃ s orders pod, ClientReach standInVerify (standInReplicas [7, 8]) (s, none) ∧
      read orders (serviceOf (standInReplicas [7, 8]) 1 0 s) = some pod ∧
      s.stamp ⟨[65]⟩ 7 = some 5 ∧ s.stamp ⟨[65]⟩ 8 = some 6 ∧
      Supported standInVerify (initPodNetworkClient (standInReplicas [7, 8])).1 s pod := by
  have ends : (startPodDataUpdater standInVerify (initPodNetworkClient (standInReplicas [7, 8])).1
      [standInVote 7 [65] 5 0, standInVote 8 [65] 6 0]
      (initPodNetworkClient (standInReplicas [7, 8])).2).toOption.any (fun s =>
        decide (((s.stamp ⟨[65]⟩ 7 = some 5 ∧ s.stamp ⟨[65]⟩ 8 = some 6) ∧
          ∀ tx ∈ s.tsps.keys, 1 ≤ s.voteCount tx + 0) ∧
          s.calls = [(7, standInVote 7 [65] 5 0), (8, standInVote 8 [65] 6 0)])) = true := by
    decide +kernel
  obtain ⟨s, run, after⟩ := exists_ok_of_any ends
  obtain ⟨⟨⟨seven, eight⟩, quorums⟩, calls⟩ := of_decide_eq_true after
  have reach : ClientReach standInVerify (standInReplicas [7, 8]) (s, none) := startPodDataUpdater_run run
  let orders : HashOrders := ⟨.arbitrary _ _, .arbitrary _ _, fun _ => .arbitrary _ _, .arbitrary _ _⟩
  have returned := (reach.viewInv.read_isSome_iff (by decide) orders).mpr fun tx member =>
    quorums tx (Finmap.mem_keys.mpr member)
  obtain ⟨pod, completed⟩ := Option.isSome_iff_exists.mp returned
  have applied : Applied s := ClientRun.applied (startPodDataUpdater_run run) (init_applied _)
  -- no two of the processed votes share a timestamp
  have first : ∀ r v, (r, v) ∈ s.calls → s.firstVote v.timestamp = some v ∧ v.replicaId = r := by
    intro r v member
    simp only [calls, List.mem_cons, List.not_mem_nil, or_false] at member
    rcases member with same | same
    · cases same
      exact ⟨by simp [ClientState.firstVote, calls], rfl⟩
    · cases same
      exact ⟨by simp [ClientState.firstVote, calls, standInVote, signedVote], rfl⟩
  refine ⟨s, orders, pod, reach, completed, seven, eight,
    (evidence_supported_iff standInVerify _ 1 0 s none orders pod reach completed).mpr ⟨?_, ?_⟩⟩
  · intro tx r ts atTx
    obtain ⟨_, v, member, carried, own⟩ := applied.stamp tx r ts atTx
    exact ⟨v, own ▸ (first r v member).1, (first r v member).2, carried⟩
  · intro r m called known
    obtain ⟨v, member, own⟩ := applied.greatest_call known called
    exact ⟨v, own ▸ (first r v member).1, (first r v member).2⟩

/-- Two replicas vote for a transaction in the same round: only the vote that came first
is kept, and the vote of the other replica is missing from both lists. -/
theorem evidence_missing_in_shared_round :
    ∃ s orders pod, ClientReach standInVerify (standInReplicas [7, 8]) (s, none) ∧
      read orders (serviceOf (standInReplicas [7, 8]) 1 0 s) = some pod ∧
      s.stamp ⟨[65]⟩ 8 = some 5 ∧ s.mrt.lookup 8 = some 5 ∧ s.callsOf 8 ≠ [] ∧
      (∀ record ∈ pod.t, ∀ v ∈ record.ctx, v.replicaId ≠ 8) ∧ (∀ v ∈ pod.cpp, v.replicaId ≠ 8) ∧
      ¬ Supported standInVerify (initPodNetworkClient (standInReplicas [7, 8])).1 s pod := by
  have ends : (startPodDataUpdater standInVerify (initPodNetworkClient (standInReplicas [7, 8])).1
      [standInVote 7 [65] 5 0, standInVote 8 [65] 5 0]
      (initPodNetworkClient (standInReplicas [7, 8])).2).toOption.any (fun s =>
        decide (((s.stamp ⟨[65]⟩ 8 = some 5 ∧ s.mrt.lookup 8 = some 5 ∧ s.callsOf 8 ≠ []) ∧
          ∀ tx ∈ s.tsps.keys, 1 ≤ s.voteCount tx + 0) ∧
          s.tsVoteMsg = Finmap.singleton 5 (standInVote 7 [65] 5 0))) = true := by decide +kernel
  obtain ⟨s, run, after⟩ := exists_ok_of_any ends
  obtain ⟨⟨⟨vote, recent, called⟩, quorums⟩, stored⟩ := of_decide_eq_true after
  have reach : ClientReach standInVerify (standInReplicas [7, 8]) (s, none) := startPodDataUpdater_run run
  let orders : HashOrders := ⟨.arbitrary _ _, .arbitrary _ _, fun _ => .arbitrary _ _, .arbitrary _ _⟩
  have returned := (reach.viewInv.read_isSome_iff (by decide) orders).mpr fun tx member =>
    quorums tx (Finmap.mem_keys.mpr member)
  obtain ⟨pod, completed⟩ := Option.isSome_iff_exists.mp returned
  have looked : ∀ stamps : List Timestamp, ∀ v ∈ stamps.map fun ts =>
      (s.tsVoteMsg.lookup ts).getD Vote.default, v.replicaId ≠ 8 := by
    intro stamps v member
    obtain ⟨ts, _, rfl⟩ := List.mem_map.mp member
    rw [stored]
    by_cases same : ts = 5
    · subst same
      simp [standInVote, signedVote]
    · rw [Finmap.lookup_eq_none.mpr (by simpa using same)]
      decide
  have ctx : ∀ record ∈ pod.t, ∀ v ∈ record.ctx, v.replicaId ≠ 8 := by
    intro record listed
    obtain ⟨tx, member, own⟩ := (read_mem_iff completed).mp listed
    obtain ⟨tspstx, known⟩ := Finmap.mem_iff.mp member
    rw [txRecord_ctx known own]
    exact looked _
  have cpp : ∀ v ∈ pod.cpp, v.replicaId ≠ 8 := by
    rw [(read_fields completed).2]
    exact looked _
  refine ⟨s, orders, pod, reach, completed, vote, recent, called, ctx, cpp, fun supported => ?_⟩
  obtain ⟨v, member, named, _⟩ := supported.cpp 8 5 called recent
  exact cpp v member named

end Read

end Podnet
