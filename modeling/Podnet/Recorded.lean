import Podnet.Signed
import Podnet.Client.Feed

namespace Podnet

section Client

variable {verifyStrict : VerifyStrict} {replicas : HashMap ReplicaId Replica}
  {replicasList : List Replica} {s s' : ClientState} {d d' : Option ReplicaId} {r : ReplicaId}

/-- The client has processed a vote of `r` with every number that its counter has passed,
and with no other number, unless the counter has been round once. -/
structure Sequenced (r : ReplicaId) (s : ClientState) : Prop where
  passed : ∀ nextsn m, s.nextsn.lookup r = some nextsn → m < nextsn →
    ∃ vote, (r, vote) ∈ s.calls ∧ vote.sequenceNumber = m
  reached : ∀ nextsn vote, s.nextsn.lookup r = some nextsn → (r, vote) ∈ s.calls →
    vote.sequenceNumber < nextsn ∨ ∀ m, ∃ other, (r, other) ∈ s.calls ∧ other.sequenceNumber = m

/-- Every processed vote for a transaction has left an entry, in whatever order the
timestamps came. -/
def RecordsAll (r : ReplicaId) (s : ClientState) : Prop :=
  ∀ vote tx, (r, vote) ∈ s.calls → vote.transaction = some tx → isHeartbeat tx = false →
    (s.stamp tx r).isSome

/-- The votes that can be verified under the name of a replica: one for each number, with
timestamps that do not decrease in sequence order. -/
structure KeepsOrder (verifyStrict : VerifyStrict) (replicas : HashMap ReplicaId Replica)
    (r : ReplicaId) : Prop where
  single : ∀ v w, Verified verifyStrict replicas v → Verified verifyStrict replicas w →
    v.replicaId = r → w.replicaId = r → v.sequenceNumber = w.sequenceNumber →
    v.transaction = w.transaction ∧ v.timestamp = w.timestamp
  ascending : ∀ v w, Verified verifyStrict replicas v → Verified verifyStrict replicas w →
    v.replicaId = r → w.replicaId = r → v.sequenceNumber < w.sequenceNumber → v.timestamp ≤ w.timestamp

/-- Counting the vote that is due moves the counter past its number. -/
theorem Sequenced.count {vote : Vote} (sequenced : Sequenced vote.replicaId s)
    (expected : s.nextsn.lookup vote.replicaId = some vote.sequenceNumber)
    (calls : s'.calls = s.calls ++ [(vote.replicaId, vote)])
    (counted : s'.nextsn = s.nextsn.insert vote.replicaId (vote.sequenceNumber + 1)) :
    Sequenced vote.replicaId s' := by
  have older : ∀ {call}, call ∈ s.calls → call ∈ s'.calls :=
    fun member => calls ▸ List.mem_append_left _ member
  have upTo : ∀ m ≤ vote.sequenceNumber, ∃ other, (vote.replicaId, other) ∈ s'.calls ∧
      other.sequenceNumber = m := by
    intro m le
    rcases lt_or_eq_of_le le with before | rfl
    · obtain ⟨other, member, number⟩ := sequenced.passed _ m expected before
      exact ⟨other, older member, number⟩
    · exact ⟨vote, calls ▸ List.mem_append_right _ (List.mem_singleton_self _), rfl⟩
  have next : s'.nextsn.lookup vote.replicaId = some (vote.sequenceNumber + 1) := by
    rw [counted, Finmap.lookup_insert]
  refine ⟨fun nextsn m known below => ?_, fun nextsn other known member => ?_⟩
  · cases Option.some.inj (next.symm.trans known)
    exact upTo m (Word.le_of_lt_succ below)
  · cases Option.some.inj (next.symm.trans known)
    rcases Word.lt_succ_or_last vote.sequenceNumber with room | last
    · rw [calls] at member
      rcases List.mem_append.mp member with old | new
      · rcases sequenced.reached _ other expected old with before | all
        · exact Or.inl (before.trans room)
        · right
          intro m
          obtain ⟨again, member', number⟩ := all m
          exact ⟨again, older member', number⟩
      · cases List.mem_singleton.mp new
        exact Or.inl room
    · exact Or.inr fun m => upTo m (last m)

/-- A vote of another replica changes nothing for this one. -/
theorem Sequenced.other {r' : ReplicaId} {vote : Vote} {sn : SequenceNumber} (sequenced : Sequenced r s)
    (other : r ≠ r') (calls : s'.calls = s.calls ++ [(r', vote)])
    (counted : s'.nextsn = s.nextsn.insert r' sn) : Sequenced r s' := by
  have same : ∀ w, (r, w) ∈ s'.calls ↔ (r, w) ∈ s.calls := by
    intro w
    simp [calls, other]
  have counter : s'.nextsn.lookup r = s.nextsn.lookup r := by
    rw [counted, Finmap.lookup_insert_of_ne _ other]
  refine ⟨?_, ?_⟩
  · simpa only [same, counter] using sequenced.passed
  · simpa only [same, counter] using sequenced.reached

theorem ClientStep.sequenced (step : ClientStep verifyStrict replicas (s, d) (s', d'))
    (vetted : Vetted verifyStrict replicas s) (sequenced : Sequenced r s) : Sequenced r s' := by
  rcases step.call_cases vetted with ⟨_, calls, nextsn⟩ |
    ⟨vote, tx, mrtEntry, t, _, _, expected, _, calls, counted, _, _, rfl⟩
  · refine ⟨?_, ?_⟩
    · rw [nextsn, calls]
      exact sequenced.passed
    · rw [nextsn, calls]
      exact sequenced.reached
  · have after : (afterVote vote.replicaId tx vote.timestamp mrtEntry vote t).calls =
        s.calls ++ [(vote.replicaId, vote)] := by rw [← calls]; rfl
    by_cases own : r = vote.replicaId
    · subst own
      exact sequenced.count expected after counted
    · exact sequenced.other own after counted

/-- A vote older than `mrt` comes after a later vote: then the counter has been round, and
the vote was processed before. -/
theorem ClientStep.recordsAll (step : ClientStep verifyStrict replicas (s, d) (s', d'))
    (order : KeepsOrder verifyStrict replicas r) (vetted : Vetted verifyStrict replicas s)
    (applied : Applied s) (sequenced : Sequenced r s) (records : RecordsAll r s) : RecordsAll r s' := by
  have kept : ∀ tx, (s.stamp tx r).isSome → (s'.stamp tx r).isSome := by
    intro tx known
    obtain ⟨ts, atTx⟩ := Option.isSome_iff_exists.mp known
    rw [step.later.kept tx r ts atTx]
    rfl
  rcases step.call_cases vetted with ⟨_, calls, _⟩ |
    ⟨vote, tx, mrtEntry, t, verified, carried, expected, same, calls, _, known, _, rfl⟩
  · intro vote tx member carried plain
    rw [calls] at member
    exact kept tx (records vote tx member carried plain)
  · intro other tx' member carried' plain
    rcases List.mem_append.mp member with old | new
    · exact kept tx' (records other tx' (calls ▸ old) carried' plain)
    · obtain ⟨rfl, rfl⟩ := Prod.mk.inj (List.mem_singleton.mp new)
      cases Option.some.inj (carried.symm.trans carried')
      by_cases voted : (s.stamp tx other.replicaId).isSome
      · exact kept tx voted
      · have fresh : ¬ (t.stamp tx other.replicaId).isSome := by
          simpa only [ClientState.stamp, same.tsps] using voted
        by_cases stale : other.timestamp < mrtEntry
        · have greatest := (applied.mrt _ mrtEntry (same.mrt ▸ known)).1
          rcases greatest with zero | ⟨later, called, latest⟩
          · rw [zero] at stale
            exact absurd stale (not_lt.mpr (Word.zero_le _))
          · obtain ⟨named, verified'⟩ := vetted.calls _ later called
            rcases lt_trichotomy later.sequenceNumber other.sequenceNumber with before | equal | after
            · have le := order.ascending later other verified' verified named rfl before
              exact absurd stale (latest ▸ le).not_gt
            · have ts := (order.single later other verified' verified named rfl equal).2
              exact absurd stale (latest ▸ ts.le).not_gt
            · rcases sequenced.reached _ later expected called with before | all
              · exact absurd after before.not_gt
              · obtain ⟨again, called', number⟩ := all other.sequenceNumber
                obtain ⟨named', verified''⟩ := vetted.calls _ again called'
                have twin := (order.single again other verified'' verified named' rfl number).1
                exact kept tx (records again tx called' (twin.trans carried) plain)
        · rw [stamp_afterVote, if_pos ⟨⟨rfl, rfl⟩, by simp [stale, plain, fresh]⟩]
          rfl

/-- A client has processed a vote with every number that its counter has passed. -/
theorem ClientReach.sequenced {q : ClientState × Option ReplicaId} (reach : ClientReach verifyStrict replicasList q)
    (r : ReplicaId) : Sequenced r q.1 := by
  induction reach with
  | refl =>
    refine ⟨fun nextsn m known below => ?_, fun _ _ _ member => ?_⟩
    · have zero := lookup_foldl_zero replicasList ∅ (fun r => by simp) r
      simp only [initPodNetworkClient] at known
      rw [known, Option.getD_some] at zero
      rw [zero] at below
      exact absurd below (not_lt.mpr (Word.zero_le m))
    · simp [initPodNetworkClient] at member
  | tail before step ih => exact step.sequenced (ClientReach.vetted before) ih

theorem ClientReach.recordsAll {q : ClientState × Option ReplicaId}
    (order : KeepsOrder verifyStrict (initPodNetworkClient replicasList).1 r)
    (reach : ClientReach verifyStrict replicasList q) : RecordsAll r q.1 := by
  induction reach with
  | refl =>
    intro _ _ member
    simp [initPodNetworkClient] at member
  | tail before step ih =>
    have applied := ClientRun.applied before (init_applied replicasList)
    exact step.recordsAll order (ClientReach.vetted before) applied (ClientReach.sequenced before r) ih

end Client

section EndToEnd

variable {recordCodec : Codec VoteRecord} {sign : List UInt8 → Signature} {replicaId : ReplicaId}
  {allowed : Node → NodeEvent → Prop} {st : Node} {verifyStrict : VerifyStrict}
  {replicasList : List Replica} {s : ClientState} {d : Option ReplicaId} {replica : Replica}

/-- An unforgeable key passes the order of the signed votes on to all votes that can be
verified with it. -/
theorem NodeReach.keepsOrder (reach : NodeReach recordCodec sign replicaId allowed st)
    (known : (initPodNetworkClient replicasList).1.lookup replicaId = some replica)
    (unforgeable : Unforgeable verifyStrict replica.pk st.signedMessages)
    (distinct : ∀ v ∈ st.signed, ∀ w ∈ st.signed, v.sequenceNumber = w.sequenceNumber →
      v.transaction = w.transaction ∧ v.timestamp = w.timestamp)
    (ascending : ∀ v ∈ st.signed, ∀ w ∈ st.signed, v.sequenceNumber < w.sequenceNumber →
      v.timestamp ≤ w.timestamp) :
    KeepsOrder verifyStrict (initPodNetworkClient replicasList).1 replicaId := by
  have origin : ∀ v, Verified verifyStrict (initPodNetworkClient replicasList).1 v →
      v.replicaId = replicaId → ∃ data, v.transaction = some ⟨data⟩ ∧
        signedVote sign replicaId data v.timestamp v.sequenceNumber ∈ st.signed := by
    intro v verified named
    obtain ⟨data, carried, message⟩ := verified.payload_signed (named ▸ known) unforgeable
    exact ⟨data, carried, reach.mem_signed_of_message message⟩
  refine ⟨fun v w verified verified' named named' same => ?_,
    fun v w verified verified' named named' before => ?_⟩
  · obtain ⟨data, carried, signed⟩ := origin v verified named
    obtain ⟨data', carried', signed'⟩ := origin w verified' named'
    obtain ⟨equal, ts⟩ := distinct _ signed _ signed' same
    exact ⟨carried.trans (equal.trans carried'.symm), ts⟩
  · obtain ⟨_, _, signed⟩ := origin v verified named
    obtain ⟨_, _, signed'⟩ := origin w verified' named'
    exact ascending _ signed (signedVote _ _ _ _ _) signed' before

/-- A replica has signed a vote for the bytes of a transaction, under a number that it
gave to nothing else, and its timestamps do not decrease in sequence order. Once the
counter of a client has passed the number, the client has an entry of the replica for the
transaction exactly if the bytes are not those of a heartbeat. -/
theorem voted_transaction_recorded_iff (reach : NodeReach recordCodec sign replicaId allowed st)
    (distinct : ∀ v ∈ st.signed, ∀ w ∈ st.signed, v.sequenceNumber = w.sequenceNumber →
      v.transaction = w.transaction ∧ v.timestamp = w.timestamp)
    (ascending : ∀ v ∈ st.signed, ∀ w ∈ st.signed, v.sequenceNumber < w.sequenceNumber →
      v.timestamp ≤ w.timestamp)
    (client : ClientReach verifyStrict replicasList (s, d))
    (known : (initPodNetworkClient replicasList).1.lookup replicaId = some replica)
    (unforgeable : Unforgeable verifyStrict replica.pk st.signedMessages) :
    ∀ data ts sn nextsn, signedVote sign replicaId data ts sn ∈ st.signed →
      s.nextsn.lookup replicaId = some nextsn → sn < nextsn →
        ((s.stamp ⟨data⟩ replicaId).isSome ↔ data ≠ heartbeatData) := by
  intro data ts sn nextsn voted counter passed
  have order := reach.keepsOrder known unforgeable distinct ascending
  have sequenced := client.sequenced replicaId
  have records := client.recordsAll order
  constructor
  · intro recorded
    obtain ⟨at_, entry⟩ := Option.isSome_iff_exists.mp recorded
    have plain := ((ClientRun.applied client (init_applied replicasList)).stamp _ _ _ entry).1
    simpa [isHeartbeat] using plain
  · intro plain
    obtain ⟨vote, called, number⟩ := sequenced.passed nextsn sn counter passed
    obtain ⟨named, verified⟩ := client.vetted.calls _ vote called
    obtain ⟨data', carried, message⟩ := verified.payload_signed (named ▸ known) unforgeable
    -- whatever the client processed under the number was signed, so it is the voted transaction
    have twin := (distinct _ (reach.mem_signed_of_message message) _ voted number).1
    exact records vote ⟨data⟩ called (carried.trans twin) (by simpa [isHeartbeat] using plain)

end EndToEnd

/-- A replica that has signed one vote, a key that accepts this payload only, and a
client that has processed the vote. -/
theorem voted_transaction_recorded_iff_one_vote :
    let key : VerifyingKey := Vector.replicate 32 3
    let verifyStrict : VerifyStrict := fun pk message signature =>
      standInVerify pk message signature && decide (message = votePayload [65] 5 0)
    ∃ st s d, NodeReach voteRecordCodec (standInSign key) 7 (fun _ _ => True) st ∧
      ClientReach verifyStrict (standInReplicas [7]) (s, d) ∧
      signedVote (standInSign key) 7 [65] 5 0 ∈ st.signed ∧ s.nextsn.lookup 7 = some 1 ∧
      ((s.stamp ⟨[65]⟩ 7).isSome ↔ [65] ≠ heartbeatData) := by
  intro key verifyStrict
  have numbered : NodeReach voteRecordCodec (standInSign key) 7 (fun _ _ => True) _ :=
    .next .start trivial (.receive ⟨[65]⟩ rfl (by simp [maxMessageSize]))
  have stamped := numbered.next trivial (.readClock 5 rfl)
  have signed := stamped.next trivial (.sign rfl rfl)
  have ends : (startPodDataUpdater verifyStrict (initPodNetworkClient (standInReplicas [7])).1
      [standInVote 7 [65] 5 0] (initPodNetworkClient (standInReplicas [7])).2).toOption.any
        (fun s => decide (s.nextsn.lookup 7 = some 1)) = true := by decide +kernel
  obtain ⟨s, run, counted⟩ := exists_ok_of_any ends
  have client : ClientReach verifyStrict (standInReplicas [7]) (s, none) := startPodDataUpdater_run run
  have counter := of_decide_eq_true counted
  have known : (initPodNetworkClient (standInReplicas [7])).1.lookup 7 = some (⟨7, key⟩ : Replica) := by
    decide +kernel
  have unforgeable : Unforgeable verifyStrict key [votePayload [65] 5 0] := by
    intro message signature valid
    obtain ⟨_, same⟩ := (Bool.and_eq_true _ _).mp valid
    exact of_decide_eq_true same ▸ .head _
  refine ⟨_, s, none, signed, client, .head _, counter,
    voted_transaction_recorded_iff signed ?_ ?_ client known unforgeable [65] 5 0 1 (.head _) counter
      (by decide)⟩
  · intro v memberV w memberW _
    rw [List.mem_singleton.mp memberV, List.mem_singleton.mp memberW]
    exact ⟨rfl, rfl⟩
  · intro v memberV w memberW _
    rw [List.mem_singleton.mp memberV, List.mem_singleton.mp memberW]

/-- A client submits the nine bytes of a heartbeat. The replica votes on them, logs and
broadcasts the vote, and whoever processes it takes it for a heartbeat. -/
theorem heartbeat_transaction_not_recorded :
    let key : VerifyingKey := Vector.replicate 32 3
    let vote := signedVote (standInSign key) 7 heartbeatData 5 0
    ∃ st s d, NodeReach voteRecordCodec (standInSign key) 7 (fun _ _ => True) st ∧
      st.sent = [(.logVote, vote)] ∧ st.signed = [vote] ∧
      ClientReach standInVerify (standInReplicas [7]) (s, d) ∧ s.calls = [(7, vote)] ∧
      s.nextsn.lookup 7 = some 1 ∧ s.tsps.lookup ⟨heartbeatData⟩ = none := by
  intro key vote
  have numbered : NodeReach voteRecordCodec (standInSign key) 7 (fun _ _ => True) _ :=
    .next .start trivial (.receive ⟨heartbeatData⟩ rfl (by simp [maxMessageSize, heartbeatData]))
  have stamped := numbered.next trivial (.readClock 5 rfl)
  have signed := stamped.next trivial (.sign rfl rfl)
  have written := signed.next trivial (.write (by rw [List.append_nil]))
  have sent := written.next trivial (.broadcast rfl)
  have ends : (startPodDataUpdater standInVerify (initPodNetworkClient (standInReplicas [7])).1 [vote]
      (initPodNetworkClient (standInReplicas [7])).2).toOption.any
        (fun s => decide (s.calls = [(7, vote)] ∧ s.nextsn.lookup 7 = some 1 ∧
          s.tsps.lookup ⟨heartbeatData⟩ = none)) = true := by decide +kernel
  obtain ⟨s, run, final⟩ := exists_ok_of_any ends
  have client : ClientReach standInVerify (standInReplicas [7]) (s, none) := startPodDataUpdater_run run
  obtain ⟨called, counter, missing⟩ := of_decide_eq_true final
  exact ⟨_, s, none, sent, rfl, rfl, client, called, counter, missing⟩

end Podnet
