import Podnet.Conflicts
import Podnet.Client.Feed

namespace Podnet

open Resequencer (Closing ClosedBy Resolved firstNumbered lastNumbered)

variable {verifyStrict : VerifyStrict} {replicas : HashMap ReplicaId Replica} {s : ClientState}
  {r : ReplicaId}

/-- For every number that the client has passed, the processed votes of the replica with
this number are one vote, the first of the arrivals. -/
def FirstProcessed (arrivals : List Vote) (r : ReplicaId) (s : ClientState) : Prop :=
  ∀ nextsn sn, s.nextsn.lookup r = some nextsn → sn < nextsn →
    ∃ first, firstNumbered Vote.sequenceNumber arrivals sn = some first ∧
      ∀ vote, (r, vote) ∈ s.calls ∧ vote.sequenceNumber = sn ↔ vote = first

/-- The votes a lane delivers are the calls of `processVote`. -/
theorem callsOf_closedBy {arrivals : List Vote} (carried : ∀ vote ∈ arrivals, vote.transaction ≠ none)
    (resolved : Resolved Vote.sequenceNumber consumeVote arrivals ⟨0, fun _ => none, []⟩ (s.lane r)) :
    ∀ vote ∈ s.callsOf r, ClosedBy Vote.sequenceNumber arrivals vote := by
  obtain ⟨order, fed, closed⟩ := resolved.delivered
  have inArrivals : ∀ vote ∈ order, vote ∈ arrivals := by
    intro vote member
    obtain ⟨before, closing, last⟩ := closed vote member
    exact closing.part.subset (Resequencer.lastNumbered_some last).1
  have logged := congrArg LaneView.calls fed
  rw [calls_foldl order _ fun vote member => carried vote (inArrivals vote member)] at logged
  have calls : s.callsOf r = order := by simpa [ClientState.lane] using logged
  rw [calls]
  exact closed

theorem firstProcessed_iff {arrivals : List Vote} {nextsn : SequenceNumber}
    (expected : s.nextsn.lookup r = some nextsn)
    (numbers : (s.callsOf r).map (fun vote => vote.sequenceNumber.toNat) = List.range nextsn.toNat) :
    FirstProcessed arrivals r s ↔ ∀ vote ∈ s.callsOf r,
      firstNumbered Vote.sequenceNumber arrivals vote.sequenceNumber = some vote := by
  constructor
  · intro processed vote member
    have inRange := List.mem_map_of_mem (f := fun vote : Vote => vote.sequenceNumber.toNat) member
    rw [numbers, List.mem_range] at inRange
    obtain ⟨first, found, only⟩ :=
      processed nextsn vote.sequenceNumber expected (UInt64.lt_iff_toNat_lt.mpr inRange)
    rw [found, (only vote).mp ⟨mem_callsOf.mp member, rfl⟩]
  · intro all nextsn' sn expected' before
    cases Option.some.inj (expected.symm.trans expected')
    have inRange : sn.toNat ∈ (s.callsOf r).map fun vote => vote.sequenceNumber.toNat := by
      rw [numbers, List.mem_range]
      exact UInt64.lt_iff_toNat_lt.mp before
    obtain ⟨first, member, same⟩ := List.mem_map.mp inRange
    cases UInt64.toNat_inj.mp same
    refine ⟨first, all first member, fun vote => ⟨?_, ?_⟩⟩
    · rintro ⟨called, number⟩
      have found := all vote (mem_callsOf.mpr called)
      rw [number, all first member] at found
      exact (Option.some.inj found).symm
    · rintro rfl
      exact ⟨mem_callsOf.mp member, rfl⟩

/-- Conflicting votes are resolved in favour of the one that arrived first exactly if,
when the last number up to theirs arrives, the last vote with the number so far is also
the first one: a vote kept in the backlog is replaced by a later one. -/
theorem first_vote_wins_iff (verifyStrict : VerifyStrict) (replicasList : List Replica)
    (votes : List Vote)
    (named : ∀ vote ∈ votes, ∃ replica ∈ replicasList, replica.id = vote.replicaId) :
    ∃ s, startPodDataUpdater verifyStrict (initPodNetworkClient replicasList).1 votes
        (initPodNetworkClient replicasList).2 = .ok s ∧
      ∀ r free, (∃ replica ∈ replicasList, replica.id = r) →
        (∀ vote ∈ laneVotes verifyStrict (initPodNetworkClient replicasList).1 r votes,
          vote.sequenceNumber ≠ free) →
        (FirstProcessed (laneVotes verifyStrict (initPodNetworkClient replicasList).1 r votes) r s ↔
          ∀ sn closed, Closing Vote.sequenceNumber
              (laneVotes verifyStrict (initPodNetworkClient replicasList).1 r votes) sn closed →
            lastNumbered Vote.sequenceNumber closed sn =
              firstNumbered Vote.sequenceNumber
                (laneVotes verifyStrict (initPodNetworkClient replicasList).1 r votes) sn) := by
  obtain ⟨s, run, keyed, lanes⟩ := startPodDataUpdater_lane verifyStrict (init_keyed replicasList)
    fun vote member => mem_initReplicas.mpr (named vote member)
  refine ⟨s, run, fun r free configured absent => ?_⟩
  have settled := lane_settled absent (lanes r)
  have resolved : Resolved Vote.sequenceNumber consumeVote
      (laneVotes verifyStrict (initPodNetworkClient replicasList).1 r votes) ⟨0, fun _ => none, []⟩
      (s.lane r) := by
    rw [lanes r, init_lane]
    exact Resequencer.run_resolved absent
  have carried : ∀ vote ∈ laneVotes verifyStrict (initPodNetworkClient replicasList).1 r votes,
      vote.transaction ≠ none := by
    intro vote member
    obtain ⟨_, _, tx, _, atTx, _⟩ := mem_laneVotes.mp member
    simp [atTx]
  obtain ⟨nextsn, expected⟩ := keyed.nextsnEntry (mem_initReplicas.mpr configured)
  have numbers := (calls_of_tracks settled.1).1
  have next := lane_next expected
  rw [firstProcessed_iff expected (next ▸ numbers)]
  exact Resequencer.first_delivered_iff settled numbers (callsOf_closedBy carried resolved)

/-- Two votes that repeat each other: the second one replaces nothing else. -/
theorem first_vote_wins_iff_repeated :
    let replicas := initPodNetworkClient (standInReplicas [7])
    let votes := [standInVote 7 [65] 5 1, standInVote 7 [65] 5 1, standInVote 7 [66] 4 0]
    ∃ s, startPodDataUpdater standInVerify replicas.1 votes replicas.2 = .ok s ∧
      s.nextsn.lookup 7 = some 2 ∧ FirstProcessed (laneVotes standInVerify replicas.1 7 votes) 7 s := by
  intro replicas votes
  obtain ⟨s, run, resolved⟩ := first_vote_wins_iff standInVerify (standInReplicas [7]) votes (by decide)
  have ends : (startPodDataUpdater standInVerify replicas.1 votes replicas.2).toOption.any
      (fun s => decide (s.nextsn.lookup 7 = some 2)) = true := by decide +kernel
  obtain ⟨s', run', next⟩ := exists_ok_of_any ends
  cases Except.ok.inj (run.symm.trans run')
  have lane : laneVotes standInVerify replicas.1 7 votes = votes := by decide +kernel
  refine ⟨s, run, of_decide_eq_true next, (resolved 7 2 (by decide) ?_).mpr ?_⟩
  · rw [lane]
    decide
  · rw [lane]
    intro sn closed closing
    refine closing.of_distinct ?_
    intro v memberV w memberW same
    have distinct : ∀ v ∈ votes, ∀ w ∈ votes, v.sequenceNumber = w.sequenceNumber → v = w := by
      decide +kernel
    exact distinct v memberV w memberW same

/-- A replica signs two votes with the number 1, and both arrive before its vote 0: the
client processes the second one. -/
theorem second_vote_wins_in_backlog :
    let replicas := initPodNetworkClient (standInReplicas [7])
    let first := standInVote 7 [65] 5 1
    let second := standInVote 7 [66] 5 1
    let votes := [first, second, standInVote 7 [67] 4 0]
    ∃ s, startPodDataUpdater standInVerify replicas.1 votes replicas.2 = .ok s ∧
      s.nextsn.lookup 7 = some 2 ∧ (7, second) ∈ s.calls ∧
      firstNumbered Vote.sequenceNumber (laneVotes standInVerify replicas.1 7 votes) 1 = some first ∧
      ¬ FirstProcessed (laneVotes standInVerify replicas.1 7 votes) 7 s := by
  intro replicas first second votes
  have ends : (startPodDataUpdater standInVerify replicas.1 votes replicas.2).toOption.any
      (fun s => decide (s.nextsn.lookup 7 = some 2 ∧ (7, second) ∈ s.calls)) = true := by decide +kernel
  obtain ⟨s, run, after⟩ := exists_ok_of_any ends
  obtain ⟨next, called⟩ := of_decide_eq_true after
  have arrived : firstNumbered Vote.sequenceNumber (laneVotes standInVerify replicas.1 7 votes) 1 =
      some first := by decide +kernel
  refine ⟨s, run, next, called, arrived, fun processed => ?_⟩
  obtain ⟨vote, found, only⟩ := processed 2 1 next (by decide)
  rw [arrived] at found
  have same := (only second).mp ⟨called, rfl⟩
  rw [← Option.some.inj found] at same
  exact absurd same (by decide)

end Podnet
