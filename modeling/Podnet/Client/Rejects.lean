import Podnet.Client.Vetted

namespace Podnet

variable {verifyStrict : VerifyStrict} {replicas : HashMap ReplicaId Replica}
  {s s' : ClientState} {vote : Vote} {votes : List Vote} {r : ReplicaId}

section Exits

theorem updateWithVote_total (verifyStrict : VerifyStrict) (keyed : Keyed replicas s)
    (known : vote.transaction ≠ none → vote.replicaId ∈ replicas) :
    ∃ s', updateWithVote verifyStrict replicas vote s = .ok s' := by
  by_cases configured : vote.replicaId ∈ replicas
  · obtain ⟨s', run, _⟩ := updateWithVote_lane verifyStrict keyed configured
    exact ⟨s', run⟩
  · have missing : vote.transaction = none := by
      by_contra carries
      exact configured (known carries)
    exact ⟨s, by simp only [updateWithVote, receiveVote, missing]⟩

/-- The votes the updater can take: all of configured replicas, and those that carry
no transaction. -/
theorem startPodDataUpdater_ok_iff (verifyStrict : VerifyStrict) (keyed : Keyed replicas s) :
    (∃ s', startPodDataUpdater verifyStrict replicas votes s = .ok s') ↔
      ∀ vote ∈ votes, vote.transaction ≠ none → vote.replicaId ∈ replicas := by
  induction votes generalizing s with
  | nil => simp [startPodDataUpdater]
  | cons vote votes ih =>
    rw [List.forall_mem_cons]
    by_cases known : vote.transaction ≠ none → vote.replicaId ∈ replicas
    · obtain ⟨s₁, step⟩ := updateWithVote_total verifyStrict keyed known
      have keyed₁ := (updateWithVote_ok_lane keyed step).1
      simp only [startPodDataUpdater, step, ih keyed₁]
      exact (and_iff_right known).symm
    · push Not at known
      have stopped := updateWithVote_unknown verifyStrict s known.1 known.2
      simp [startPodDataUpdater, stopped, known]

/-- The updater takes every vote and ends with its channel, after a backlog loop that
ended by its own condition, exactly if each vote that carries a transaction names a
configured replica. -/
theorem updater_survives_iff (verifyStrict : VerifyStrict) (replicasList : List Replica)
    (votes : List Vote) :
    (∃ s, startPodDataUpdater verifyStrict (initPodNetworkClient replicasList).1 votes
        (initPodNetworkClient replicasList).2 = .ok s ∧
      ClientFeed verifyStrict (initPodNetworkClient replicasList).1
        ((initPodNetworkClient replicasList).2, none) votes (s, none)) ↔
    ∀ vote ∈ votes, vote.transaction ≠ none → ∃ replica ∈ replicasList, replica.id = vote.replicaId := by
  simp only [← mem_initReplicas, ← startPodDataUpdater_ok_iff verifyStrict (init_keyed replicasList)]
  constructor
  · rintro ⟨s, run, _⟩
    exact ⟨s, run⟩
  · rintro ⟨s, run⟩
    exact ⟨s, run, startPodDataUpdater_feed run⟩

/-- An unsigned vote of a replica that is not configured stops the client, and the
valid vote behind it is never processed. -/
theorem unknown_vote_stops_updater :
    let votes := [⟨9, 5, 0, [], some ⟨[65]⟩⟩, standInVote 7 [65] 5 0]
    votes.length < 2 ^ 64 ∧
      startPodDataUpdater standInVerify (initPodNetworkClient (standInReplicas [7])).1 votes
        (initPodNetworkClient (standInReplicas [7])).2 = .error (.publicKeyNotFound 9) := by
  intro votes
  have unknown : (9 : ReplicaId) ∉ (initPodNetworkClient (standInReplicas [7])).1 := by decide +kernel
  refine ⟨by decide, ?_⟩
  rw [startPodDataUpdater, updateWithVote_unknown _ _ (by simp) unknown]

end Exits

section Ignored

/-- The reports under which the updater says that it ignores a vote. -/
inductive IgnoreReport where
  | missingTransaction
  | invalidSignature
  | outdated
  | oldTimestamp
  deriving DecidableEq, Repr

/-- The steps of the updater in which it reports a vote as ignored, on arrival or when
it is taken from the backlog. -/
inductive Ignores (verifyStrict : VerifyStrict) (replicas : HashMap ReplicaId Replica)
    (s : ClientState) (vote : Vote) : IgnoreReport → ClientState → Prop
  | missing {s' next} : vote.transaction = none →
      receiveVote verifyStrict replicas vote s = .ok (s', next) →
      Ignores verifyStrict replicas s vote .missingTransaction s'
  | invalid {tx replica s' next} : vote.transaction = some tx →
      replicas.lookup vote.replicaId = some replica →
      verifyVoteSignature verifyStrict replica.pk tx.data vote.timestamp vote.sequenceNumber
        vote.signature = false →
      receiveVote verifyStrict replicas vote s = .ok (s', next) →
      Ignores verifyStrict replicas s vote .invalidSignature s'
  | outdated {nextsn s' next} : Verified verifyStrict replicas vote →
      s.nextsn.lookup vote.replicaId = some nextsn → vote.sequenceNumber < nextsn →
      receiveVote verifyStrict replicas vote s = .ok (s', next) →
      Ignores verifyStrict replicas s vote .outdated s'
  | oldDirect {mrtEntry s' next} : Verified verifyStrict replicas vote →
      s.nextsn.lookup vote.replicaId = some vote.sequenceNumber →
      s.mrt.lookup vote.replicaId = some mrtEntry → vote.timestamp < mrtEntry →
      receiveVote verifyStrict replicas vote s = .ok (s', next) →
      Ignores verifyStrict replicas s vote .oldTimestamp s'
  | oldBacklogged {r kept nextsn tx mrtEntry s'} : s.backlog.lookup r = some kept →
      BTreeMap.firstKeyValue kept = some (nextsn, vote) → vote.transaction = some tx →
      s.mrt.lookup r = some mrtEntry → vote.timestamp < mrtEntry →
      drainBacklogStep r s = .ok (some s') → Ignores verifyStrict replicas s vote .oldTimestamp s'

/-- A vote older than `mrt` still leaves itself behind in `ts_vote_msg`, unless there is
an entry for its timestamp. -/
theorem sameView_afterVote_old {tx : Transaction} {ts mrtEntry : Timestamp} {t : ClientState}
    (same : SameView s t) (old : ts < mrtEntry) :
    SameView s (afterVote r tx ts mrtEntry vote t) ↔ ts ∈ s.tsVoteMsg := by
  obtain ⟨tsps, mrt, tsVoteMsg⟩ := same
  constructor
  · intro untouched
    have stored := tsVoteMsg_afterVote r tx ts mrtEntry vote t ts
    rw [untouched.tsVoteMsg, tsVoteMsg] at stored
    by_contra absent
    rw [if_pos ⟨rfl, absent⟩, Finmap.lookup_eq_none.mpr absent] at stored
    cases stored
  · intro member
    refine ⟨?_, ?_, ?_⟩
    · simp only [afterVote, old, true_or, if_true, tsps]
    · simp only [afterVote, old, if_true, mrt]
    · simp only [afterVote, tsVoteMsg, member, if_true]

/-- All that an ignored vote can do: nothing, or the part of `process_vote` that precedes
its comparison with `mrt`. -/
theorem Ignores.cases {report : IgnoreReport} (ignores : Ignores verifyStrict replicas s vote report s') :
    (report ≠ .oldTimestamp ∧ s' = s) ∨
    (report = .oldTimestamp ∧ ∃ r tx mrtEntry t, SameView s t ∧ vote.timestamp < mrtEntry ∧
      s' = afterVote r tx vote.timestamp mrtEntry vote t) := by
  cases ignores with
  | missing carried received =>
    rcases receiveVote_cases received with ⟨_, same, _⟩ | ⟨⟨tx, _, carried', _⟩, _⟩
    · exact Or.inl ⟨by simp, same⟩
    · simp [carried] at carried'
  | invalid carried known refused received =>
    rcases receiveVote_cases received with ⟨_, same, _⟩ | ⟨⟨tx', replica', carried', known', valid⟩, _⟩
    · exact Or.inl ⟨by simp, same⟩
    · cases Option.some.inj (carried.symm.trans carried')
      cases Option.some.inj (known.symm.trans known')
      simp [refused] at valid
  | outdated verified expected before received =>
    rcases receiveVote_cases received with ⟨refused, _⟩ |
      ⟨_, nextsn, expected', ⟨_, same, _⟩ | ⟨early, _⟩ | ⟨awaited, _⟩⟩
    · exact absurd verified refused
    · exact Or.inl ⟨by simp, same⟩
    · cases Option.some.inj (expected.symm.trans expected')
      exact absurd early before.le.not_gt
    · cases Option.some.inj (expected.symm.trans expected')
      exact absurd awaited before.ne
  | oldDirect verified expected known old received =>
    rcases receiveVote_cases received with ⟨refused, _⟩ |
      ⟨_, nextsn, expected', ⟨before, _⟩ | ⟨early, _⟩ | ⟨_, _, tx, _, run⟩⟩
    · exact absurd verified refused
    · cases Option.some.inj (expected.symm.trans expected')
      exact absurd before (lt_irrefl _)
    · cases Option.some.inj (expected.symm.trans expected')
      exact absurd early (lt_irrefl _)
    · obtain ⟨mrtEntry, known', rfl⟩ := processVote_ok run
      cases Option.some.inj (known.symm.trans known')
      exact Or.inr ⟨rfl, _, tx, _, countVote _ nextsn s, ⟨rfl, rfl, rfl⟩, old, rfl⟩
  | @oldBacklogged r kept nextsn _ _ _ backlog first carried known old drained =>
    obtain ⟨kept', nextsn', vote', backlog', first', _, outcome⟩ := drainBacklogStep_cases drained
    cases Option.some.inj (backlog.symm.trans backlog')
    cases Option.some.inj (first.symm.trans first')
    rcases outcome with ⟨missing, _⟩ | ⟨tx', _, run⟩
    · simp [missing] at carried
    · obtain ⟨mrtEntry', known', rfl⟩ := processVote_ok run
      cases Option.some.inj (known.symm.trans known')
      exact Or.inr ⟨rfl, r, tx', _, takeFromBacklog r kept nextsn s, ⟨rfl, rfl, rfl⟩, old, rfl⟩

/-- An ignored vote leaves the view as it was exactly if it is not reported for its
timestamp, or `ts_vote_msg` has an entry for that timestamp already. -/
theorem ignored_vote_untouched_iff (verifyStrict : VerifyStrict)
    (replicas : HashMap ReplicaId Replica) (s s' : ClientState) (vote : Vote) (report : IgnoreReport)
    (ignores : Ignores verifyStrict replicas s vote report s') :
    SameView s s' ↔ (report = .oldTimestamp → vote.timestamp ∈ s.tsVoteMsg) := by
  rcases ignores.cases with ⟨arrival, rfl⟩ | ⟨rfl, r, tx, mrtEntry, t, same, old, rfl⟩
  · exact iff_of_true (.refl s') fun stale => absurd stale arrival
  · rw [sameView_afterVote_old same old]
    exact ⟨fun stored _ => stored, fun stored => stored rfl⟩

/-- A vote that is older than `mrt` and finds an entry for its timestamp. -/
theorem ignored_vote_untouched_iff_known_timestamp :
    let replicas := initPodNetworkClient (standInReplicas [7])
    let old := standInVote 7 [65] 4 2
    ∃ s s', ClientReach standInVerify (standInReplicas [7]) (s, none) ∧
      Ignores standInVerify replicas.1 s old .oldTimestamp s' ∧ SameView s s' := by
  intro replicas old
  have ends : (startPodDataUpdater standInVerify replicas.1
      [standInVote 7 heartbeatData 4 0, standInVote 7 heartbeatData 9 1] replicas.2).toOption.any
        (fun s => decide (s.nextsn.lookup 7 = some 2 ∧ s.mrt.lookup 7 = some 9 ∧
          Verified standInVerify replicas.1 old ∧ (4 : Timestamp) ∈ s.tsVoteMsg) &&
          (receiveVote standInVerify replicas.1 old s).toOption.any fun _ => true) = true := by
    decide +kernel
  obtain ⟨s, run, both⟩ := exists_ok_of_any ends
  obtain ⟨before, step⟩ := (Bool.and_eq_true _ _).mp both
  obtain ⟨expected, known, verified, stored⟩ := of_decide_eq_true before
  obtain ⟨⟨s', next⟩, received, _⟩ := exists_ok_of_any step
  have ignores : Ignores standInVerify replicas.1 s old .oldTimestamp s' :=
    .oldDirect verified expected known (by decide) received
  exact ⟨s, s', startPodDataUpdater_run run, ignores,
    (ignored_vote_untouched_iff standInVerify replicas.1 s s' old _ ignores).mpr fun _ => stored⟩

/-- After a heartbeat of timestamp 9 a vote of timestamp 4 is ignored and leaves a trace. -/
theorem old_vote_changes_evidence :
    let replicas := initPodNetworkClient (standInReplicas [7])
    let old := standInVote 7 [65] 4 1
    ∃ s s', ClientReach standInVerify (standInReplicas [7]) (s, none) ∧
      Ignores standInVerify replicas.1 s old .oldTimestamp s' ∧ ¬ SameView s s' ∧
      s'.tsVoteMsg.lookup 4 = some old := by
  intro replicas old
  have ends : (startPodDataUpdater standInVerify replicas.1 [standInVote 7 heartbeatData 9 0]
      replicas.2).toOption.any (fun s => decide (s.nextsn.lookup 7 = some 1 ∧ s.mrt.lookup 7 = some 9 ∧
        Verified standInVerify replicas.1 old ∧ s.tsVoteMsg.lookup 4 = none) &&
        (receiveVote standInVerify replicas.1 old s).toOption.any fun next =>
          decide (next.1.tsVoteMsg.lookup 4 = some old)) = true := by decide +kernel
  obtain ⟨s, run, both⟩ := exists_ok_of_any ends
  obtain ⟨before, step⟩ := (Bool.and_eq_true _ _).mp both
  obtain ⟨expected, known, verified, unused⟩ := of_decide_eq_true before
  obtain ⟨⟨s', next⟩, received, after⟩ := exists_ok_of_any step
  have trace := of_decide_eq_true after
  refine ⟨s, s', startPodDataUpdater_run run,
    .oldDirect verified expected known (by decide) received, fun untouched => ?_, trace⟩
  rw [untouched.tsVoteMsg, unused] at trace
  cases trace

end Ignored

end Podnet
