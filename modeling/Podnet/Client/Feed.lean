import Podnet.Client.Arrival

namespace Podnet

open Resequencer (Draining Settled Tracks)

variable {verifyStrict : VerifyStrict} {replicas : HashMap ReplicaId Replica}
  {s s' : ClientState} {d next : Option ReplicaId} {votes : List Vote} {vote : Vote} {r : ReplicaId}

/-- The votes of a replica that have reached its lane. -/
abbrev laneItems (verifyStrict : VerifyStrict) (replicas : HashMap ReplicaId Replica)
    (votes : List Vote) (r : ReplicaId) : Set Vote :=
  {vote | vote ∈ laneVotes verifyStrict replicas r votes}

/-- Every lane in the middle of an arrival sequence. Only the replica whose backlog
is being drained can have its awaited vote among the kept ones. -/
structure FeedInv (verifyStrict : VerifyStrict) (replicas : HashMap ReplicaId Replica)
    (votes : List Vote) (s : ClientState) (d : Option ReplicaId) : Prop where
  keyed : Keyed replicas s
  configured : ∀ r, d = some r → r ∈ replicas
  draining : ∀ r, Draining Vote.sequenceNumber consumeVote (laneItems verifyStrict replicas votes r)
    ⟨0, fun _ => none, []⟩ (s.lane r)
  settled : ∀ r, d ≠ some r → Settled Vote.sequenceNumber consumeVote
    (laneItems verifyStrict replicas votes r) ⟨0, fun _ => none, []⟩ (s.lane r)

theorem laneItems_refused (votes : List Vote) (r : ReplicaId)
    (refused : ¬ (vote.replicaId = r ∧ Verified verifyStrict replicas vote)) :
    laneItems verifyStrict replicas (votes ++ [vote]) r = laneItems verifyStrict replicas votes r := by
  ext v
  simp [laneVotes, refused]

theorem laneItems_accepted (votes : List Vote) (verified : Verified verifyStrict replicas vote) :
    laneItems verifyStrict replicas (votes ++ [vote]) vote.replicaId =
      insert vote (laneItems verifyStrict replicas votes vote.replicaId) := by
  ext v
  simp [laneVotes, verified, or_comm]

/-- Fewer votes than words leave a number free in every lane. -/
theorem exists_free_number (verifyStrict : VerifyStrict) (replicas : HashMap ReplicaId Replica)
    (short : votes.length < 2 ^ 64) :
    ∃ free, ∀ r, free ∉ Vote.sequenceNumber '' laneItems verifyStrict replicas votes r := by
  obtain ⟨free, absent⟩ := Word.exists_not_mem_of_length
    (show (votes.map Vote.sequenceNumber).length < 2 ^ 64 by rwa [List.length_map])
  refine ⟨free, fun r => ?_⟩
  rintro ⟨vote, member, same⟩
  exact absent (List.mem_map.mpr ⟨vote, (mem_laneVotes.mp member).1, same⟩)

theorem init_feedInv (replicasList : List Replica) :
    FeedInv verifyStrict (initPodNetworkClient replicasList).1 [] (initPodNetworkClient replicasList).2
      none := by
  have empty : ∀ r, Settled Vote.sequenceNumber consumeVote
      (laneItems verifyStrict (initPodNetworkClient replicasList).1 [] r) ⟨0, fun _ => none, []⟩
      ((initPodNetworkClient replicasList).2.lane r) := by
    intro r
    have base : Settled Vote.sequenceNumber consumeVote ∅ ⟨0, fun _ => none, []⟩
        (Resequencer.initial ⟨0, fun _ => none, []⟩) := Resequencer.initial_settled
    rw [init_lane]
    simpa [laneItems, laneVotes] using base
  exact ⟨init_keyed replicasList, by simp, fun r => (empty r).draining, fun r _ => empty r⟩

/-- A step that leaves the lanes of the other replicas alone keeps them settled. -/
theorem FeedInv.move {lane : Lane} (inv : FeedInv verifyStrict replicas votes s none)
    (moved : LaneStep replicas vote.replicaId lane s s')
    (own : Settled Vote.sequenceNumber consumeVote
      (laneItems verifyStrict replicas (votes ++ [vote]) vote.replicaId) ⟨0, fun _ => none, []⟩ lane) :
    FeedInv verifyStrict replicas (votes ++ [vote]) s' none := by
  have all : ∀ r, Settled Vote.sequenceNumber consumeVote
      (laneItems verifyStrict replicas (votes ++ [vote]) r) ⟨0, fun _ => none, []⟩ (s'.lane r) := by
    intro r
    by_cases same : r = vote.replicaId
    · rw [same, moved.own]
      exact own
    · rw [moved.other r same, laneItems_refused votes r fun accepted => same accepted.1.symm]
      exact inv.settled r (by simp)
  exact ⟨moved.keyed, by simp, fun r => (all r).draining, fun r _ => all r⟩

theorem FeedInv.receive (inv : FeedInv verifyStrict replicas votes s none)
    (short : (votes ++ [vote]).length < 2 ^ 64)
    (received : receiveVote verifyStrict replicas vote s = .ok (s', next)) :
    FeedInv verifyStrict replicas (votes ++ [vote]) s' next := by
  have settled := inv.settled vote.replicaId (by simp)
  rcases receiveVote_cases received with ⟨refused, rfl, rfl⟩ |
    ⟨verified, nextsn, expected, ⟨old, rfl, rfl⟩ | ⟨early, rfl, rfl⟩ | ⟨awaited, rfl, tx, carried, run⟩⟩
  · refine inv.move ⟨inv.keyed, rfl, fun _ _ => rfl⟩ ?_
    rw [laneItems_refused votes _ fun accepted => refused accepted.2]
    exact settled
  · have laneNext := lane_next expected
    refine inv.move ⟨inv.keyed, rfl, fun _ _ => rfl⟩ ?_
    rw [laneItems_accepted votes verified]
    exact settled.outdated (laneNext ▸ old)
  · have laneNext := lane_next expected
    refine inv.move (addToBacklog_lane inv.keyed) ?_
    rw [laneItems_accepted votes verified]
    exact settled.hold (laneNext ▸ early)
  · have laneNext := lane_next expected
    have configured : vote.replicaId ∈ replicas :=
      (inv.keyed.nextsn _).mp (Finmap.mem_of_lookup_eq_some expected)
    obtain ⟨s₂, run₂, processed⟩ :=
      processVote_lane (inv.keyed.countVote configured) configured carried
    cases Except.ok.inj (run.symm.trans run₂)
    have delivered : s'.lane vote.replicaId =
        Resequencer.deliver consumeVote vote (s.lane vote.replicaId) := by
      rw [processed.own, lane_countVote, if_pos rfl]
      simp [Resequencer.deliver, laneNext]
    have others : ∀ r, r ≠ vote.replicaId → Settled Vote.sequenceNumber consumeVote
        (laneItems verifyStrict replicas (votes ++ [vote]) r) ⟨0, fun _ => none, []⟩ (s'.lane r) := by
      intro r different
      rw [processed.other r different, lane_countVote, if_neg different,
        laneItems_refused votes r fun accepted => different accepted.1.symm]
      exact inv.settled r (by simp)
    obtain ⟨free, absent⟩ := exists_free_number verifyStrict replicas short
    refine ⟨processed.keyed, ?_, fun r => ?_, fun r different => ?_⟩
    · intro r same
      exact Option.some.inj same ▸ configured
    · by_cases same : r = vote.replicaId
      · subst same
        have free' := absent vote.replicaId
        rw [laneItems_accepted votes verified] at free' ⊢
        rw [delivered]
        exact settled.deliver (awaited.trans laneNext.symm) free'
      · exact (others r same).draining
    · exact others r fun same => different (congrArg some same.symm)

theorem FeedInv.drain (inv : FeedInv verifyStrict replicas votes s (some r))
    (short : votes.length < 2 ^ 64) (drained : drainBacklogStep r s = .ok (some s')) :
    FeedInv verifyStrict replicas votes s' (some r) := by
  have configured := inv.configured r rfl
  obtain ⟨free, absent⟩ := exists_free_number verifyStrict replicas short
  rcases drainBacklogStep_lane inv.keyed configured with ⟨stop, _⟩ | ⟨s₁, lane, step, laneStep, moved⟩
  · simp [stop] at drained
  · rw [step] at drained
    cases Option.some.inj (Except.ok.inj drained)
    have own := ((inv.draining r).step (absent r) laneStep).1
    refine ⟨moved.keyed, inv.configured, fun r' => ?_, fun r' different => ?_⟩
    · by_cases same : r' = r
      · rw [same, moved.own]
        exact own
      · rw [moved.other r' same]
        exact inv.draining r'
    · rw [moved.other r' fun same => different (congrArg some same.symm)]
      exact inv.settled r' different

theorem FeedInv.leave (inv : FeedInv verifyStrict replicas votes s (some r))
    (stop : drainBacklogStep r s = .ok none) : FeedInv verifyStrict replicas votes s none := by
  refine ⟨inv.keyed, by simp, inv.draining, fun r' _ => ?_⟩
  by_cases same : r' = r
  · rcases drainBacklogStep_lane inv.keyed (inv.configured r rfl) with ⟨_, laneStop⟩ | ⟨_, _, step, _⟩
    · rw [same]
      exact (inv.draining r).stop laneStop
    · simp [step] at stop
  · exact inv.settled r' fun draining => same (Option.some.inj draining).symm

/-- The lanes of a client fed with fewer votes than there are words. -/
theorem ClientFeed.feedInv {replicasList : List Replica} {q : ClientState × Option ReplicaId}
    (feed : ClientFeed verifyStrict (initPodNetworkClient replicasList).1
      ((initPodNetworkClient replicasList).2, none) votes q)
    (short : votes.length < 2 ^ 64) :
    FeedInv verifyStrict (initPodNetworkClient replicasList).1 votes q.1 q.2 := by
  induction feed with
  | start => exact init_feedInv replicasList
  | receive _ received ih =>
    have fewer := short
    rw [List.length_append, List.length_singleton] at fewer
    exact (ih (by omega)).receive short received
  | drain _ drained ih => exact (ih short).drain short drained
  | leave _ stop ih => exact (ih short).leave stop

/-- A replica's counter is the number of its processed votes. -/
theorem FeedInv.nextsn_eq (inv : FeedInv verifyStrict replicas votes s d) {nextsn : SequenceNumber}
    (known : s.nextsn.lookup r = some nextsn) : nextsn.toNat = (s.callsOf r).length := by
  have numbers := congrArg List.length (calls_of_tracks (inv.draining r).1).1
  rw [List.length_map, List.length_range] at numbers
  rw [numbers, lane_next known]

/-- The timestamps of the processed votes of a replica, and zero before the first. -/
def ClientState.timestampsOf (s : ClientState) (r : ReplicaId) : Set Timestamp :=
  insert 0 {ts | ∃ v, (r, v) ∈ s.calls ∧ v.timestamp = ts}

/-- What the shared maps are made of: the processed votes, each stored under its
own timestamp, and the greatest timestamp of every replica. -/
structure Applied (s : ClientState) : Prop where
  message : ∀ ts v, s.tsVoteMsg.lookup ts = some v → v.timestamp = ts ∧ ∃ r, (r, v) ∈ s.calls
  stored : ∀ call ∈ s.calls, call.2.timestamp ∈ s.tsVoteMsg
  stamp : ∀ tx r ts, s.stamp tx r = some ts → isHeartbeat tx = false ∧
    ∃ v, (r, v) ∈ s.calls ∧ v.transaction = some tx ∧ v.timestamp = ts
  mrt : ∀ r m, s.mrt.lookup r = some m → IsGreatest (s.timestampsOf r) m

theorem init_applied (replicasList : List Replica) : Applied (initPodNetworkClient replicasList).2 := by
  refine ⟨?_, ?_, ?_, ?_⟩
  · intro ts v atTs
    simp [initPodNetworkClient] at atTs
  · intro call member
    simp [initPodNetworkClient] at member
  · intro tx r ts atTx
    simp [initPodNetworkClient, ClientState.stamp] at atTx
  · intro r m known
    have zero := lookup_foldl_zero replicasList ∅ (fun r => by simp) r
    simp only [initPodNetworkClient, ClientState.timestampsOf] at known ⊢
    rw [known, Option.getD_some] at zero
    subst zero
    refine ⟨Set.mem_insert _ _, ?_⟩
    rintro ts (rfl | ⟨v, member, _⟩)
    · exact le_rfl
    · simp at member

theorem Applied.congr (applied : Applied s) (same : SameView s s') (calls : s'.calls = s.calls) :
    Applied s' := by
  obtain ⟨tsps, mrt, tsVoteMsg⟩ := same
  refine ⟨?_, ?_, ?_, ?_⟩
  · rw [tsVoteMsg, calls]
    exact applied.message
  · rw [tsVoteMsg, calls]
    exact applied.stored
  · rw [calls]
    simpa only [ClientState.stamp, tsps] using applied.stamp
  · simpa only [mrt, ClientState.timestampsOf, calls] using applied.mrt

/-- A new value in the set, or the old greatest element if it is larger. -/
theorem isGreatest_insert_value {old : Set Timestamp} {m ts : Timestamp} (greatest : IsGreatest old m) :
    IsGreatest (insert ts old) (if ts < m then m else ts) := by
  have upper := greatest.insert ts
  split
  · rename_i stale
    rwa [max_eq_right stale.le] at upper
  · rename_i recent
    rwa [max_eq_left (not_lt.mp recent)] at upper

theorem timestampsOf_afterVote (r : ReplicaId) (tx : Transaction) (ts mrtEntry : Timestamp) (vote : Vote)
    (s : ClientState) (r' : ReplicaId) :
    (afterVote r tx ts mrtEntry vote s).timestampsOf r' =
      if r' = r then insert vote.timestamp (s.timestampsOf r') else s.timestampsOf r' := by
  by_cases same : r' = r
  · subst same
    ext other
    simp only [ClientState.timestampsOf, Podnet.afterVote, List.mem_append, List.mem_singleton,
      Prod.mk.injEq, true_and, if_true, Set.mem_insert_iff, Set.mem_ofPred_eq, or_and_right, exists_or,
      exists_eq_left]
    rw [@eq_comm _ vote.timestamp, ← or_assoc, or_comm]
  · simp [ClientState.timestampsOf, Podnet.afterVote, same]

theorem Applied.afterVote {tx : Transaction} {mrtEntry : Timestamp} (applied : Applied s)
    (carried : vote.transaction = some tx) (known : s.mrt.lookup r = some mrtEntry) :
    Applied (afterVote r tx vote.timestamp mrtEntry vote s) := by
  have here : (r, vote) ∈ (Podnet.afterVote r tx vote.timestamp mrtEntry vote s).calls :=
    List.mem_append_right _ (List.mem_singleton_self _)
  have before : ∀ call ∈ s.calls, call ∈ (Podnet.afterVote r tx vote.timestamp mrtEntry vote s).calls :=
    fun call member => List.mem_append_left _ member
  refine ⟨?_, ?_, ?_, ?_⟩
  · intro ts v atTs
    rw [tsVoteMsg_afterVote] at atTs
    split at atTs
    · rename_i new
      cases Option.some.inj atTs
      exact ⟨new.1.symm, r, here⟩
    · obtain ⟨own, r', member⟩ := applied.message ts v atTs
      exact ⟨own, r', before _ member⟩
  · intro call member
    rw [← Finmap.lookup_isSome, tsVoteMsg_afterVote]
    split
    · rfl
    · rename_i kept
      rw [Finmap.lookup_isSome]
      rcases List.mem_append.mp member with old | new
      · exact applied.stored call old
      · cases List.mem_singleton.mp new
        by_contra absent
        exact kept ⟨rfl, absent⟩
  · intro tx' r' ts' atTx
    rw [stamp_afterVote] at atTx
    split at atTx
    · rename_i new
      obtain ⟨⟨rfl, rfl⟩, fresh⟩ := new
      push Not at fresh
      exact ⟨by simpa using fresh.2.1, vote, here, carried, Option.some.inj atTx⟩
    · obtain ⟨plain, v, member, holds⟩ := applied.stamp tx' r' ts' atTx
      exact ⟨plain, v, before _ member, holds⟩
  · intro r' m knownM
    rw [mrt_afterVote known] at knownM
    rw [timestampsOf_afterVote]
    split at knownM
    · rename_i same
      rw [if_pos same, ← Option.some.inj knownM]
      exact isGreatest_insert_value (same ▸ applied.mrt r mrtEntry known)
    · rename_i other
      rw [if_neg other]
      exact applied.mrt r' m knownM

theorem ClientStep.applied {d d' : Option ReplicaId}
    (step : ClientStep verifyStrict replicas (s, d) (s', d')) (applied : Applied s) : Applied s' := by
  rcases step.view_cases with ⟨same, calls⟩ | ⟨r, tx, vote, mrtEntry, t, same, calls, carried, known, rfl⟩
  · exact applied.congr same calls
  · exact (applied.congr same calls).afterVote carried known

theorem ClientRun.applied {p q : ClientState × Option ReplicaId}
    (run : ClientRun verifyStrict replicas p q) (applied : Applied p.1) : Applied q.1 := by
  induction run with
  | refl => exact applied
  | tail _ step ih => exact step.applied ih

theorem mem_callsOf : vote ∈ s.callsOf r ↔ (r, vote) ∈ s.calls := by
  simp [ClientState.callsOf]

/-- A processed vote names the replica it was processed for and is verified. -/
theorem FeedInv.call (inv : FeedInv verifyStrict replicas votes s d) (member : (r, vote) ∈ s.calls) :
    vote.replicaId = r ∧ Verified verifyStrict replicas vote := by
  have arrived := (calls_of_tracks (inv.draining r).1).2 vote (mem_callsOf.mpr member)
  exact (mem_laneVotes.mp arrived).2

/-- With a processed vote, the greatest timestamp is the timestamp of one of them. -/
theorem Applied.greatest_call {m : Timestamp} (applied : Applied s) (known : s.mrt.lookup r = some m)
    (called : s.callsOf r ≠ []) : ∃ v, (r, v) ∈ s.calls ∧ v.timestamp = m := by
  obtain ⟨attained, upper⟩ := applied.mrt r m known
  rcases attained with zero | attained
  · obtain ⟨v, member⟩ := List.exists_mem_of_ne_nil _ called
    have inCalls := mem_callsOf.mp member
    have below : v.timestamp ≤ m := upper (Or.inr ⟨v, inCalls, rfl⟩)
    have same : v.timestamp = m := le_antisymm below (zero ▸ Word.zero_le _)
    exact ⟨v, inCalls, same⟩
  · exact attained

end Podnet
