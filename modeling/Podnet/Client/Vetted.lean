import Podnet.Client.Runs

namespace Podnet

variable {verifyStrict : VerifyStrict} {replicas : HashMap ReplicaId Replica}
  {s s' : ClientState} {d d' : Option ReplicaId} {vote : Vote} {r : ReplicaId}

/-- Nothing unverified gets past the signature check: every processed vote and every
vote of the backlog names its replica and is verified. -/
structure Vetted (verifyStrict : VerifyStrict) (replicas : HashMap ReplicaId Replica)
    (s : ClientState) : Prop where
  calls : ∀ r vote, (r, vote) ∈ s.calls → vote.replicaId = r ∧ Verified verifyStrict replicas vote
  kept : ∀ r entry sn vote, s.backlog.lookup r = some entry → entry.lookup sn = some vote →
    vote.replicaId = r ∧ vote.sequenceNumber = sn ∧ Verified verifyStrict replicas vote

theorem Vetted.afterVote {tx : Transaction} {ts mrtEntry : Timestamp}
    (vetted : Vetted verifyStrict replicas s) (own : vote.replicaId = r)
    (verified : Verified verifyStrict replicas vote) :
    Vetted verifyStrict replicas (afterVote r tx ts mrtEntry vote s) := by
  refine ⟨fun r' v member => ?_, vetted.kept⟩
  rcases List.mem_append.mp member with old | new
  · exact vetted.calls r' v old
  · cases List.mem_singleton.mp new
    exact ⟨own, verified⟩

theorem Vetted.countVote {nextsn : SequenceNumber} (vetted : Vetted verifyStrict replicas s) :
    Vetted verifyStrict replicas (countVote r nextsn s) :=
  ⟨vetted.calls, vetted.kept⟩

theorem Vetted.addToBacklog (vetted : Vetted verifyStrict replicas s)
    (verified : Verified verifyStrict replicas vote) :
    Vetted verifyStrict replicas (addToBacklog vote s) := by
  rw [addToBacklog_eq]
  refine ⟨vetted.calls, fun r' entry sn v atReplica atSn => ?_⟩
  by_cases same : r' = vote.replicaId
  · subst same
    cases (Finmap.lookup_insert _).symm.trans atReplica
    by_cases own : sn = vote.sequenceNumber
    · subst own
      cases (Finmap.lookup_insert _).symm.trans atSn
      exact ⟨rfl, rfl, verified⟩
    · rw [Finmap.lookup_insert_of_ne _ own] at atSn
      cases old : s.backlog.lookup vote.replicaId with
      | none => simp [old] at atSn
      | some before => exact vetted.kept _ before sn v old (by simpa [old] using atSn)
  · rw [Finmap.lookup_insert_of_ne _ same] at atReplica
    exact vetted.kept r' entry sn v atReplica atSn

theorem Vetted.takeFromBacklog {kept : BTreeMap SequenceNumber Vote} {nextsn : SequenceNumber}
    (vetted : Vetted verifyStrict replicas s) (backlog : s.backlog.lookup r = some kept) :
    Vetted verifyStrict replicas (takeFromBacklog r kept nextsn s) := by
  refine ⟨vetted.calls, fun r' entry sn v atReplica atSn => ?_⟩
  by_cases same : r' = r
  · subst same
    cases (Finmap.lookup_insert _).symm.trans atReplica
    by_cases taken : sn = nextsn
    · subst taken
      simp at atSn
    · rw [Finmap.lookup_erase_ne taken] at atSn
      exact vetted.kept r' kept sn v backlog atSn
  · rw [Podnet.takeFromBacklog, Podnet.countVote, Finmap.lookup_insert_of_ne _ same] at atReplica
    exact vetted.kept r' entry sn v atReplica atSn

/-- Everything a step can do to the shared maps, the processed votes and the counters:
nothing, or one processed vote, which is the next one of the replica it names. -/
theorem ClientStep.call_cases (step : ClientStep verifyStrict replicas (s, d) (s', d'))
    (vetted : Vetted verifyStrict replicas s) :
    (SameView s s' ∧ s'.calls = s.calls ∧ s'.nextsn = s.nextsn) ∨
    ∃ vote tx mrtEntry t, Verified verifyStrict replicas vote ∧ vote.transaction = some tx ∧
      s.nextsn.lookup vote.replicaId = some vote.sequenceNumber ∧
      SameView s t ∧ t.calls = s.calls ∧
      t.nextsn = s.nextsn.insert vote.replicaId (vote.sequenceNumber + 1) ∧
      t.mrt.lookup vote.replicaId = some mrtEntry ∧ Vetted verifyStrict replicas t ∧
      s' = Podnet.afterVote vote.replicaId tx vote.timestamp mrtEntry vote t := by
  cases step with
  | @receive vote _ _ _ received =>
    rcases receiveVote_cases received with ⟨_, rfl, _⟩ |
      ⟨verified, nextsn, expected, ⟨_, rfl, _⟩ | ⟨_, rfl, _⟩ | ⟨awaited, _, tx, carried, run⟩⟩
    · exact Or.inl ⟨.refl s', rfl, rfl⟩
    · exact Or.inl ⟨.refl s', rfl, rfl⟩
    · rw [addToBacklog_eq]
      exact Or.inl ⟨⟨rfl, rfl, rfl⟩, rfl, rfl⟩
    · subst awaited
      obtain ⟨mrtEntry, known, rfl⟩ := processVote_ok run
      exact Or.inr ⟨vote, tx, mrtEntry, Podnet.countVote _ vote.sequenceNumber s, verified, carried, expected,
        ⟨rfl, rfl, rfl⟩, rfl, rfl, known, vetted.countVote, rfl⟩
  | @drain r _ _ drained =>
    obtain ⟨kept, nextsn, vote, backlog, first, expected, outcome⟩ := drainBacklogStep_cases drained
    obtain ⟨own, filed, verified⟩ :=
      vetted.kept r kept nextsn vote backlog (BTreeMap.firstKeyValue_some first).1
    subst own filed
    rcases outcome with ⟨missing, _⟩ | ⟨tx, carried, run⟩
    · obtain ⟨tx, _, carried, _⟩ := verified
      simp [missing] at carried
    · obtain ⟨mrtEntry, known, rfl⟩ := processVote_ok run
      exact Or.inr ⟨vote, tx, mrtEntry, takeFromBacklog _ kept vote.sequenceNumber s, verified, carried,
        expected, ⟨rfl, rfl, rfl⟩, rfl, rfl, known, vetted.takeFromBacklog backlog, rfl⟩
  | leave _ => exact Or.inl ⟨.refl s, rfl, rfl⟩

theorem ClientStep.vetted (step : ClientStep verifyStrict replicas (s, d) (s', d'))
    (vetted : Vetted verifyStrict replicas s) : Vetted verifyStrict replicas s' := by
  cases step with
  | receive received =>
    rcases receiveVote_cases received with ⟨_, rfl, _⟩ |
      ⟨verified, nextsn, _, ⟨_, rfl, _⟩ | ⟨_, rfl, _⟩ | ⟨_, _, tx, _, run⟩⟩
    · exact vetted
    · exact vetted
    · exact vetted.addToBacklog verified
    · obtain ⟨mrtEntry, _, rfl⟩ := processVote_ok run
      exact vetted.countVote.afterVote rfl verified
  | drain drained =>
    obtain ⟨kept, nextsn, vote, backlog, first, _, outcome⟩ := drainBacklogStep_cases drained
    obtain ⟨own, _, verified⟩ :=
      vetted.kept _ kept nextsn vote backlog (BTreeMap.firstKeyValue_some first).1
    rcases outcome with ⟨_, rfl⟩ | ⟨tx, _, run⟩
    · exact vetted.takeFromBacklog backlog
    · obtain ⟨mrtEntry, _, rfl⟩ := processVote_ok run
      exact (vetted.takeFromBacklog backlog).afterVote own verified
  | leave _ => exact vetted

theorem init_vetted (replicasList : List Replica) :
    Vetted verifyStrict (initPodNetworkClient replicasList).1 (initPodNetworkClient replicasList).2 := by
  refine ⟨?_, ?_⟩
  · intro r vote member
    simp [initPodNetworkClient] at member
  · intro r entry sn vote backlog
    simp [initPodNetworkClient] at backlog

theorem ClientReach.vetted {replicasList : List Replica}
    (reach : ClientReach verifyStrict replicasList (s, d)) :
    Vetted verifyStrict (initPodNetworkClient replicasList).1 s := by
  suffices run : ∀ q, ClientReach verifyStrict replicasList q →
      Vetted verifyStrict (initPodNetworkClient replicasList).1 q.1 from run _ reach
  intro q reach
  induction reach with
  | refl => exact init_vetted replicasList
  | tail _ step ih => exact step.vetted ih

end Podnet
