import Podnet.Client.Updater
import Podnet.Resequencer

namespace Podnet

/-- What the client keeps of one replica besides its position in the vote
stream: the most recent timestamp, the timestamp of every transaction, and the
processed votes in order. -/
structure LaneView where
  mrt : Timestamp
  stamps : Transaction → Option Timestamp
  calls : List Vote

/-- The effect of one processed vote on the lane of its replica. -/
def consumeVote (vote : Vote) (view : LaneView) : LaneView :=
  match vote.transaction with
  | none => view
  | some tx =>
    { calls := view.calls ++ [vote]
      mrt := if vote.timestamp < view.mrt then view.mrt else vote.timestamp
      stamps :=
        if vote.timestamp < view.mrt ∨ isHeartbeat tx = true ∨ (view.stamps tx).isSome then view.stamps
        else Function.update view.stamps tx (some vote.timestamp) }

/-- The abstract client keeps one lane for each replica: a buffer that puts the
replica's votes back into sequence and consumes them. -/
abbrev Lane := Resequencer Vote LaneView

abbrev Lane.accept (vote : Vote) (lane : Lane) : Lane :=
  Resequencer.accept Vote.sequenceNumber consumeVote vote lane

/-- The calls of `processVote` for one replica. -/
def ClientState.callsOf (s : ClientState) (r : ReplicaId) : List Vote :=
  (s.calls.filter fun call => call.1 == r).map Prod.snd

/-- The lane of a replica inside the shared maps. -/
def ClientState.lane (s : ClientState) (r : ReplicaId) : Lane where
  next := (s.nextsn.lookup r).getD 0
  waiting := s.backlog.lookup r
  out := ⟨(s.mrt.lookup r).getD 0, fun tx => s.stamp tx r, s.callsOf r⟩

/-- The counters exist for exactly the configured replicas. -/
structure Keyed (replicas : HashMap ReplicaId Replica) (s : ClientState) : Prop where
  nextsn : ∀ r, r ∈ s.nextsn ↔ r ∈ replicas
  mrt : ∀ r, r ∈ s.mrt ↔ r ∈ replicas

variable {verifyStrict : VerifyStrict} {replicas : HashMap ReplicaId Replica}
  {s s' : ClientState} {vote : Vote} {r : ReplicaId}

theorem stamp_insert (s : ClientState) (tx tx' : Transaction) (r r' : ReplicaId) (ts : Timestamp) :
    ({ s with tsps := s.tsps.insert tx (((s.tsps.lookup tx).getD ∅).insert r ts) } :
      ClientState).stamp tx' r' = if tx' = tx ∧ r' = r then some ts else s.stamp tx' r' := by
  unfold ClientState.stamp
  by_cases sameTx : tx' = tx
  · subst sameTx
    by_cases sameReplica : r' = r
    · subst sameReplica
      simp
    · simp only [Finmap.lookup_insert, Option.bind_some, Finmap.lookup_insert_of_ne _ sameReplica,
        sameReplica, and_false, if_false]
      cases s.tsps.lookup tx' with
      | none => simp
      | some entry => simp
  · simp [Finmap.lookup_insert_of_ne _ sameTx, sameTx]

theorem lane_next {nextsn : SequenceNumber} (expected : s.nextsn.lookup r = some nextsn) :
    (s.lane r).next = nextsn := by
  rw [ClientState.lane, expected, Option.getD_some]

theorem lane_afterVote_self {tx : Transaction} {mrtEntry : Timestamp}
    (known : s.mrt.lookup r = some mrtEntry) (carried : vote.transaction = some tx) :
    (afterVote r tx vote.timestamp mrtEntry vote s).lane r =
      { s.lane r with out := consumeVote vote (s.lane r).out } := by
  simp only [ClientState.lane, afterVote, consumeVote, carried, known, Option.getD_some]
  congr 2
  · split
    · rw [known, Option.getD_some]
    · rw [Finmap.lookup_insert, Option.getD_some]
  · split
    · rfl
    · funext tx'
      change ClientState.stamp { s with tsps := _ } tx' r = _
      rw [stamp_insert, Function.update_apply]
      simp
  · simp [ClientState.callsOf]

theorem lane_afterVote_other {tx : Transaction} {ts mrtEntry : Timestamp} {r' : ReplicaId}
    (other : r' ≠ r) : (afterVote r tx ts mrtEntry vote s).lane r' = s.lane r' := by
  simp only [ClientState.lane, afterVote]
  congr 2
  · split
    · rfl
    · rw [Finmap.lookup_insert_of_ne _ other]
  · split
    · rfl
    · funext tx'
      change ClientState.stamp { s with tsps := _ } tx' r' = _
      rw [stamp_insert]
      simp [other, ClientState.stamp]
  · simp [ClientState.callsOf, Ne.symm other]

theorem Keyed.afterVote {tx : Transaction} {ts mrtEntry : Timestamp} (keyed : Keyed replicas s)
    (configured : r ∈ replicas) : Keyed replicas (afterVote r tx ts mrtEntry vote s) := by
  refine ⟨keyed.nextsn, fun r' => ?_⟩
  simp only [Podnet.afterVote]
  split
  · exact keyed.mrt r'
  · rw [Finmap.mem_insert, keyed.mrt]
    constructor
    · rintro (rfl | known)
      · exact configured
      · exact known
    · exact Or.inr

theorem Keyed.countVote {nextsn : SequenceNumber} (keyed : Keyed replicas s)
    (configured : r ∈ replicas) : Keyed replicas (countVote r nextsn s) := by
  refine ⟨fun r' => ?_, keyed.mrt⟩
  simp only [Podnet.countVote]
  rw [Finmap.mem_insert, keyed.nextsn]
  constructor
  · rintro (rfl | known)
    · exact configured
    · exact known
  · exact Or.inr

theorem Keyed.takeFromBacklog {kept : BTreeMap SequenceNumber Vote} {nextsn : SequenceNumber}
    (keyed : Keyed replicas s) (configured : r ∈ replicas) :
    Keyed replicas (takeFromBacklog r kept nextsn s) :=
  Keyed.countVote ⟨keyed.nextsn, keyed.mrt⟩ configured

theorem Keyed.mrtEntry (keyed : Keyed replicas s) (configured : r ∈ replicas) :
    ∃ mrtEntry, s.mrt.lookup r = some mrtEntry :=
  Finmap.mem_iff.mp ((keyed.mrt r).mpr configured)

theorem Keyed.nextsnEntry (keyed : Keyed replicas s) (configured : r ∈ replicas) :
    ∃ nextsn, s.nextsn.lookup r = some nextsn :=
  Finmap.mem_iff.mp ((keyed.nextsn r).mpr configured)

/-- A step that touches the lane of `r` only, and turns it into `lane`. -/
structure LaneStep (replicas : HashMap ReplicaId Replica) (r : ReplicaId) (lane : Lane)
    (s s' : ClientState) : Prop where
  keyed : Keyed replicas s'
  own : s'.lane r = lane
  other : ∀ r', r' ≠ r → s'.lane r' = s.lane r'

theorem processVote_lane {tx : Transaction} (keyed : Keyed replicas s) (configured : r ∈ replicas)
    (carried : vote.transaction = some tx) :
    ∃ s', processVote r tx vote.timestamp vote s = .ok s' ∧
      LaneStep replicas r { s.lane r with out := consumeVote vote (s.lane r).out } s s' := by
  obtain ⟨mrtEntry, known⟩ := keyed.mrtEntry configured
  exact ⟨_, processVote_eq known, keyed.afterVote configured, lane_afterVote_self known carried,
    fun _ => lane_afterVote_other⟩

theorem lane_countVote (nextsn : SequenceNumber) (s : ClientState) (r r' : ReplicaId) :
    (countVote r nextsn s).lane r' =
      if r' = r then { s.lane r with next := nextsn + 1 } else s.lane r' := by
  split
  · rename_i same
    subst same
    simp [ClientState.lane, countVote, ClientState.stamp, ClientState.callsOf]
  · rename_i other
    simp [ClientState.lane, countVote, Finmap.lookup_insert_of_ne _ other, ClientState.stamp,
      ClientState.callsOf]

theorem lane_backlog (kept : BTreeMap SequenceNumber Vote) (s : ClientState) (r r' : ReplicaId) :
    ({ s with backlog := s.backlog.insert r kept } : ClientState).lane r' =
      if r' = r then { s.lane r with waiting := some kept } else s.lane r' := by
  split
  · rename_i same
    subst same
    simp [ClientState.lane, ClientState.stamp, ClientState.callsOf]
  · rename_i other
    simp [ClientState.lane, Finmap.lookup_insert_of_ne _ other, ClientState.stamp,
      ClientState.callsOf]

theorem takeFromBacklog_lane {kept : BTreeMap SequenceNumber Vote} {nextsn : SequenceNumber}
    (keyed : Keyed replicas s) (configured : r ∈ replicas) :
    LaneStep replicas r { s.lane r with next := nextsn + 1, waiting := some (kept.erase nextsn) } s
      (takeFromBacklog r kept nextsn s) where
  keyed := keyed.takeFromBacklog configured
  own := by
    rw [takeFromBacklog, lane_countVote, if_pos rfl, lane_backlog, if_pos rfl]
  other r' different := by
    rw [takeFromBacklog, lane_countVote, if_neg different, lane_backlog, if_neg different]

/-- One round of the backlog loop is one drain step of the replica's lane. -/
theorem drainBacklogStep_lane (keyed : Keyed replicas s) (configured : r ∈ replicas) :
    (drainBacklogStep r s = .ok none ∧ Resequencer.drainStep consumeVote (s.lane r) = none) ∨
    ∃ s' lane, drainBacklogStep r s = .ok (some s') ∧
      Resequencer.drainStep consumeVote (s.lane r) = some lane ∧ LaneStep replicas r lane s s' := by
  obtain ⟨nextsn, expected⟩ := keyed.nextsnEntry configured
  have next := lane_next expected
  have waiting : (s.lane r).waiting = s.backlog.lookup r := rfl
  unfold drainBacklogStep Resequencer.drainStep
  rw [waiting, next]
  cases backlog : s.backlog.lookup r with
  | none => exact Or.inl ⟨rfl, rfl⟩
  | some kept =>
    simp only []
    cases first : BTreeMap.firstKeyValue kept with
    | none => exact Or.inl ⟨rfl, rfl⟩
    | some entry =>
      obtain ⟨nextSeq, vote⟩ := entry
      simp only [expected]
      by_cases awaited : nextSeq = nextsn
      · subst awaited
        have taken : LaneStep replicas r _ s (takeFromBacklog r kept nextSeq s) :=
          takeFromBacklog_lane keyed configured
        simp only [if_true]
        right
        cases carried : vote.transaction with
        | none =>
          refine ⟨takeFromBacklog r kept nextSeq s, _, rfl, rfl, taken.keyed, ?_, taken.other⟩
          rw [taken.own]
          simp [Resequencer.deliver, consumeVote, carried]
        | some tx =>
          obtain ⟨s', run, processed⟩ := processVote_lane taken.keyed configured carried
          refine ⟨s', _, ?_, rfl, processed.keyed, ?_, ?_⟩
          · unfold takeFromBacklog countVote at run
            simp only [run]
          · rw [processed.own, taken.own]
            simp [Resequencer.deliver]
          · intro r' different
            rw [processed.other r' different, taken.other r' different]
      · simp [awaited]

theorem drainBacklog_lane (fuel : Nat) (keyed : Keyed replicas s) (configured : r ∈ replicas) :
    ∃ s', drainBacklog r fuel s = .ok s' ∧
      LaneStep replicas r (Resequencer.drain consumeVote fuel (s.lane r)) s s' := by
  induction fuel generalizing s with
  | zero => exact ⟨s, rfl, keyed, rfl, fun _ _ => rfl⟩
  | succ fuel ih =>
    unfold drainBacklog Resequencer.drain
    rcases drainBacklogStep_lane keyed configured with ⟨stop, laneStop⟩ | ⟨s₁, lane, step, laneStep, moved⟩
    · simp only [stop, laneStop]
      exact ⟨s, rfl, keyed, rfl, fun _ _ => rfl⟩
    · simp only [step, laneStep]
      obtain ⟨s', run, rest⟩ := ih moved.keyed
      refine ⟨s', run, rest.keyed, ?_, ?_⟩
      · rw [rest.own, moved.own]
      · intro r' different
        rw [rest.other r' different, moved.other r' different]

theorem addToBacklog_lane (keyed : Keyed replicas s) :
    LaneStep replicas vote.replicaId
      (Resequencer.hold Vote.sequenceNumber vote (s.lane vote.replicaId)) s (addToBacklog vote s) := by
  rw [addToBacklog_eq]
  refine ⟨⟨keyed.nextsn, keyed.mrt⟩, ?_, ?_⟩
  · rw [lane_backlog, if_pos rfl]
    rfl
  · intro r' different
    rw [lane_backlog, if_neg different]

theorem receiveVote_total (verifyStrict : VerifyStrict) (keyed : Keyed replicas s)
    (configured : vote.replicaId ∈ replicas) :
    ∃ s' next, receiveVote verifyStrict replicas vote s = .ok (s', next) := by
  obtain ⟨replica, key⟩ := Finmap.mem_iff.mp configured
  obtain ⟨nextsn, expected⟩ := keyed.nextsnEntry configured
  unfold receiveVote
  cases carried : vote.transaction with
  | none => exact ⟨s, none, rfl⟩
  | some tx =>
    simp only [key, expected]
    split
    · exact ⟨s, none, rfl⟩
    · split
      · exact ⟨s, none, rfl⟩
      · split
        · exact ⟨_, none, rfl⟩
        · have counted : Keyed replicas (countVote vote.replicaId nextsn s) :=
            keyed.countVote configured
          obtain ⟨s', run, _⟩ := processVote_lane counted configured carried
          unfold countVote at run
          simp only [run]
          exact ⟨s', _, rfl⟩

/-- The key of an unknown replica is asked for before anything is verified. -/
theorem updateWithVote_unknown (verifyStrict : VerifyStrict) (s : ClientState) (carries : vote.transaction ≠ none)
    (unknown : vote.replicaId ∉ replicas) :
    updateWithVote verifyStrict replicas vote s = .error (.publicKeyNotFound vote.replicaId) := by
  obtain ⟨tx, carried⟩ := Option.ne_none_iff_exists'.mp carries
  have absent := Finmap.lookup_eq_none.mpr unknown
  simp only [updateWithVote, receiveVote, carried, absent]

/-- One iteration of the updater moves the lane of the replica the vote names,
and only if the vote is verified; it never fails on a configured name. -/
theorem updateWithVote_lane (verifyStrict : VerifyStrict) (keyed : Keyed replicas s)
    (configured : vote.replicaId ∈ replicas) :
    ∃ s', updateWithVote verifyStrict replicas vote s = .ok s' ∧
      LaneStep replicas vote.replicaId
        (if Verified verifyStrict replicas vote then (s.lane vote.replicaId).accept vote
          else s.lane vote.replicaId) s s' := by
  obtain ⟨s₁, next, received⟩ := receiveVote_total verifyStrict keyed configured
  unfold updateWithVote
  simp only [received]
  rcases receiveVote_cases received with ⟨refused, rfl, rfl⟩ |
    ⟨verified, nextsn, expected, ⟨old, rfl, rfl⟩ | ⟨early, rfl, rfl⟩ | ⟨awaited, rfl, tx, carried, run⟩⟩
  · rw [if_neg refused]
    exact ⟨s₁, rfl, keyed, rfl, fun _ _ => rfl⟩
  · have laneNext := lane_next expected
    rw [if_pos verified, Lane.accept, Resequencer.accept, laneNext, if_pos old]
    exact ⟨s₁, rfl, keyed, rfl, fun _ _ => rfl⟩
  · have laneNext := lane_next expected
    rw [if_pos verified, Lane.accept, Resequencer.accept, laneNext, if_neg early.le.not_gt,
      if_pos early]
    exact ⟨_, rfl, addToBacklog_lane keyed⟩
  · have laneNext := lane_next expected
    have counted : Keyed replicas (countVote vote.replicaId nextsn s) := keyed.countVote configured
    obtain ⟨s₂, run₂, processed⟩ := processVote_lane counted configured carried
    cases Except.ok.inj (run.symm.trans run₂)
    have delivered : s₁.lane vote.replicaId =
        Resequencer.deliver consumeVote vote (s.lane vote.replicaId) := by
      rw [processed.own, lane_countVote, if_pos rfl]
      simp [Resequencer.deliver, laneNext]
    have size : backlogSize vote.replicaId s₁ = (s.lane vote.replicaId).held.card := by
      rw [← Resequencer.held_deliver consumeVote vote, ← delivered]
      simp only [backlogSize, Resequencer.held, ClientState.lane]
      cases s₁.backlog.lookup vote.replicaId <;> rfl
    rw [if_pos verified, Lane.accept, Resequencer.accept, laneNext, awaited,
      if_neg (lt_irrefl _), if_neg (lt_irrefl _)]
    obtain ⟨s', drained, rest⟩ :=
      drainBacklog_lane (backlogSize vote.replicaId s₁) processed.keyed configured
    refine ⟨s', drained, rest.keyed, ?_, ?_⟩
    · rw [rest.own, delivered, size]
    · intro r' different
      rw [rest.other r' different, processed.other r' different, lane_countVote, if_neg different]

/-- The votes that reach the lane of a replica. -/
def laneVotes (verifyStrict : VerifyStrict) (replicas : HashMap ReplicaId Replica) (r : ReplicaId)
    (votes : List Vote) : List Vote :=
  votes.filter fun vote => vote.replicaId = r ∧ Verified verifyStrict replicas vote

theorem run_laneVotes_cons (votes : List Vote) (lane : Lane) :
    Resequencer.run Vote.sequenceNumber consumeVote (laneVotes verifyStrict replicas r (vote :: votes)) lane =
      Resequencer.run Vote.sequenceNumber consumeVote (laneVotes verifyStrict replicas r votes)
        (Resequencer.run Vote.sequenceNumber consumeVote (laneVotes verifyStrict replicas r [vote]) lane) := by
  rw [Resequencer.run, Resequencer.run, Resequencer.run, ← List.foldl_append, laneVotes, laneVotes, laneVotes,
    ← List.filter_append, List.singleton_append]

/-- Whatever the vote names, an iteration of the updater that does not fail moves
at most the lane of its replica. -/
theorem updateWithVote_ok_lane (keyed : Keyed replicas s)
    (run : updateWithVote verifyStrict replicas vote s = .ok s') :
    Keyed replicas s' ∧ ∀ r, s'.lane r =
      Resequencer.run Vote.sequenceNumber consumeVote (laneVotes verifyStrict replicas r [vote])
        (s.lane r) := by
  by_cases configured : vote.replicaId ∈ replicas
  · obtain ⟨s₁, run₁, moved⟩ := updateWithVote_lane verifyStrict keyed configured
    cases Except.ok.inj (run.symm.trans run₁)
    refine ⟨moved.keyed, fun r => ?_⟩
    by_cases own : vote.replicaId = r
    · subst own
      rw [moved.own]
      by_cases verified : Verified verifyStrict replicas vote
      · simp [laneVotes, verified, Resequencer.run, Lane.accept]
      · simp [laneVotes, verified, Resequencer.run]
    · rw [moved.other r (Ne.symm own)]
      simp [laneVotes, own, Resequencer.run]
  · have refused : ¬ Verified verifyStrict replicas vote := by
      intro verified
      obtain ⟨_, _, _, known, _⟩ := verified
      exact configured (Finmap.mem_of_lookup_eq_some known)
    unfold updateWithVote at run
    split at run
    · simp at run
    · rename_i s₁ received
      cases Except.ok.inj run
      rcases receiveVote_cases received with ⟨_, rfl, _⟩ | ⟨verified, _⟩
      · exact ⟨keyed, fun r => by simp [laneVotes, refused, Resequencer.run]⟩
      · exact absurd verified refused
    · rename_i s₁ next received
      rcases receiveVote_cases received with ⟨_, _, none⟩ | ⟨verified, _⟩
      · simp at none
      · exact absurd verified refused

/-- The updater refines the abstract client: on votes that name configured
replicas it runs to the end, and every lane ends as if only the verified votes
of its own replica had been sent. -/
theorem startPodDataUpdater_lane (verifyStrict : VerifyStrict) {votes : List Vote}
    (keyed : Keyed replicas s) (configured : ∀ vote ∈ votes, vote.replicaId ∈ replicas) :
    ∃ s', startPodDataUpdater verifyStrict replicas votes s = .ok s' ∧ Keyed replicas s' ∧
      ∀ r, s'.lane r = Resequencer.run Vote.sequenceNumber consumeVote
        (laneVotes verifyStrict replicas r votes) (s.lane r) := by
  induction votes generalizing s with
  | nil => exact ⟨s, rfl, keyed, fun _ => rfl⟩
  | cons vote votes ih =>
    obtain ⟨s₁, step, _⟩ :=
      updateWithVote_lane verifyStrict keyed (configured vote (List.mem_cons_self ..))
    obtain ⟨keyed₁, moved⟩ := updateWithVote_ok_lane keyed step
    obtain ⟨s', run, keyed', lanes⟩ :=
      ih keyed₁ fun v member => configured v (List.mem_cons_of_mem _ member)
    refine ⟨s', by simp only [startPodDataUpdater, step, run], keyed', fun r => ?_⟩
    rw [lanes r, moved r, ← run_laneVotes_cons]

theorem mem_foldl_insert {V : Type} (value : Replica → V) (list : List Replica)
    (m : HashMap ReplicaId V) (r : ReplicaId) :
    r ∈ list.foldl (fun m replica => Finmap.insert replica.id (value replica) m) m ↔
      r ∈ m ∨ ∃ replica ∈ list, replica.id = r := by
  induction list generalizing m with
  | nil => simp
  | cons replica rest ih =>
    rw [List.foldl_cons, ih, Finmap.mem_insert, List.exists_mem_cons_iff, @eq_comm _ r]
    tauto

theorem mem_initReplicas {replicasList : List Replica} :
    r ∈ (initPodNetworkClient replicasList).1 ↔ ∃ replica ∈ replicasList, replica.id = r := by
  simp [initPodNetworkClient, mem_foldl_insert, Finmap.notMem_empty]

theorem init_keyed (replicasList : List Replica) :
    Keyed (initPodNetworkClient replicasList).1 (initPodNetworkClient replicasList).2 := by
  constructor <;> intro r <;>
    simp [initPodNetworkClient, mem_foldl_insert, Finmap.notMem_empty]

/-- Votes of configured replicas never stop the updater. -/
theorem startPodDataUpdater_total (verifyStrict : VerifyStrict) {replicasList : List Replica}
    {votes : List Vote}
    (configured : ∀ vote ∈ votes, ∃ replica ∈ replicasList, replica.id = vote.replicaId) :
    ∃ s, startPodDataUpdater verifyStrict (initPodNetworkClient replicasList).1 votes
      (initPodNetworkClient replicasList).2 = .ok s := by
  obtain ⟨s, run, _⟩ := startPodDataUpdater_lane verifyStrict (init_keyed replicasList)
    fun vote member => mem_initReplicas.mpr (configured vote member)
  exact ⟨s, run⟩

theorem lookup_foldl_zero (list : List Replica) (m : HashMap ReplicaId UInt64)
    (zero : ∀ r, (m.lookup r).getD 0 = 0) (r : ReplicaId) :
    ((list.foldl (fun m replica => Finmap.insert replica.id 0 m) m).lookup r).getD 0 = 0 := by
  induction list generalizing m with
  | nil => exact zero r
  | cons replica rest ih =>
    refine ih _ fun r' => ?_
    by_cases same : r' = replica.id
    · subst same
      simp
    · rw [Finmap.lookup_insert_of_ne _ same, zero]

/-- Every lane starts empty. -/
theorem init_lane (replicasList : List Replica) (r : ReplicaId) :
    (initPodNetworkClient replicasList).2.lane r =
      Resequencer.initial ⟨0, fun _ => none, []⟩ := by
  have zero := lookup_foldl_zero replicasList ∅ (fun r => by simp) r
  simp only [initPodNetworkClient, ClientState.lane, ClientState.stamp, ClientState.callsOf,
    Resequencer.initial]
  simp [zero]

end Podnet
