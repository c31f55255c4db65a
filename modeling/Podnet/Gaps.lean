import Podnet.Client.Feed
import Podnet.Replica.Persistence

namespace Podnet

section Runs

variable (recordCodec : Codec VoteRecord) (sign : List UInt8 → Signature) (replicaId : ReplicaId)

/-- One life of a replica, with the votes whose append has failed. -/
inductive LossyReach : List Vote → Node → Prop
  | start : LossyReach [] .initial
  | step {failed st event st'} : LossyReach failed st → Steady st event →
      NodeStep recordCodec sign replicaId st event st' → LossyReach failed st'
  | fail {failed st vote left} : LossyReach failed st → st.log = .appending vote left →
      LossyReach (failed ++ [vote]) { st with log := .idle }

end Runs

section Counting

variable {recordCodec : Codec VoteRecord} {sign : List UInt8 → Signature} {replicaId : ReplicaId}
  {st : Node} {failed : List Vote}

/-- A failed append is a step like any other for the counter. -/
theorem LossyReach.counted (reach : LossyReach recordCodec sign replicaId failed st) : Counted st := by
  induction reach with
  | start => exact .initial
  | step _ _ step ih => exact ih.step step
  | fail _ phase ih =>
    have step : NodeStep recordCodec sign replicaId _ .appendError _ := .appendError phase
    exact ih.step step

/-- Every signed vote was broadcast, has failed, or is about to be broadcast. -/
theorem LossyReach.own (reach : LossyReach recordCodec sign replicaId failed st) :
    st.own.Perm (st.sent.map Prod.snd ++ (failed ++ (st.log.pending ++ st.beat.pending))) := by
  induction reach with
  | start => exact .refl _
  | step _ steady step ih => exact own_step ih steady step
  | fail _ phase ih => simpa [phase, LogPhase.pending] using ih

end Counting

section Segments

variable {l lost : List Nat} {n : Nat}

/-- Distinct numbers without a gap below any of them are the first ones. -/
theorem perm_range_of_downward (distinct : l.Nodup) (downward : ∀ x ∈ l, ∀ y < x, y ∈ l) :
    l.Perm (List.range l.length) := by
  have missing : ∃ m, m ∉ l := Infinite.exists_notMem_finset l.toFinset |>.imp fun m => by simp
  have first : l.Perm (List.range (Nat.find missing)) := by
    rw [List.perm_ext_iff_of_nodup distinct List.nodup_range]
    intro x
    rw [List.mem_range]
    constructor
    · intro member
      by_contra above
      rcases lt_or_eq_of_le (not_lt.mp above) with smaller | same
      · exact Nat.find_spec missing (downward x member _ smaller)
      · exact Nat.find_spec missing (same ▸ member)
    · intro below
      by_contra absent
      exact Nat.find_min missing below absent
  have length := first.length_eq
  rw [List.length_range] at length
  rwa [length]

/-- If the first `n` numbers are split in two, one part is an initial segment exactly
if it lies below the other. -/
theorem perm_range_iff_below (parts : (l ++ lost).Perm (List.range n)) :
    (∃ m, l.Perm (List.range m)) ↔ ∀ x ∈ lost, ∀ y ∈ l, y < x := by
  have distinct := parts.nodup_iff.mpr List.nodup_range
  obtain ⟨distinctL, _, apart⟩ := List.nodup_append.mp distinct
  constructor
  · rintro ⟨m, segment⟩ x inLost y inL
    have below := List.mem_range.mp (segment.mem_iff.mp inL)
    by_contra notBelow
    have inside : x ∈ l := segment.mem_iff.mpr (List.mem_range.mpr (by omega))
    exact apart x inside x inLost rfl
  · intro below
    refine ⟨l.length, perm_range_of_downward distinctL fun x inL y smaller => ?_⟩
    have drawn := List.mem_range.mp (parts.mem_iff.mp (List.mem_append_left _ inL))
    rcases List.mem_append.mp (parts.mem_iff.mpr (List.mem_range.mpr (smaller.trans drawn))) with found | failed
    · exact found
    · have above := below y failed x inL
      omega

end Segments

section Client

variable {verifyStrict : VerifyStrict} {replicas : HashMap ReplicaId Replica} {s : ClientState}
  {votes : List Vote} {r : ReplicaId} {m : Nat}

/-- A client that has got the first `m` votes of a replica waits for nothing. -/
theorem FeedInv.nothing_waits (inv : FeedInv verifyStrict replicas votes s none) (configured : r ∈ replicas)
    (numbers : ∀ n, (∃ vote ∈ laneVotes verifyStrict replicas r votes, vote.sequenceNumber.toNat = n) ↔
      n < m) :
    (s.nextsn.lookup r).map UInt64.toNat = some m ∧ s.backlogNumbers r = ∅ := by
  have settled := inv.settled r (by simp)
  obtain ⟨absent, least⟩ := settled.next_least
  have next : (s.lane r).next.toNat = m := by
    refine le_antisymm (least ?_) ?_
    · intro vote member same
      exact absurd ((numbers m).mp ⟨vote, member, same⟩) (lt_irrefl m)
    · by_contra below
      obtain ⟨vote, member, same⟩ := (numbers _).mpr (not_le.mp below)
      exact absent vote member same
  obtain ⟨nextsn, expected⟩ := inv.keyed.nextsnEntry configured
  constructor
  · rw [← next, lane_next expected, expected, Option.map_some]
  · ext n
    rw [mem_backlogNumbers]
    simp only [Set.mem_empty_iff_false, iff_false]
    rintro ⟨sn, waits, rfl⟩
    obtain ⟨⟨vote, member, same⟩, above⟩ := (settled.2.2 sn).mp waits
    have below := (numbers sn.toNat).mp ⟨vote, member, by rw [same]⟩
    rw [UInt64.lt_iff_toNat_lt, next] at above
    omega

end Client

section Gaps

variable (recordCodec : Codec VoteRecord) (sign : List UInt8 → Signature) (replicaId : ReplicaId)

/-- The broadcast numbers have no gap exactly if every failed append had a number above
all of them, and then a client that has got the broadcast votes waits for nothing. -/
theorem failed_append_leaves_gap_iff (failed : List Vote) (st : Node)
    (reach : LossyReach recordCodec sign replicaId failed st) (idle : st.Idle)
    (bound : st.drawn ≤ 2 ^ 64) :
    ((∃ m, (st.sent.map fun entry => entry.2.sequenceNumber.toNat).Perm (List.range m)) ↔
      ∀ vote ∈ failed, ∀ entry ∈ st.sent, entry.2.sequenceNumber < vote.sequenceNumber) ∧
    ((∀ vote ∈ failed, ∀ entry ∈ st.sent, entry.2.sequenceNumber < vote.sequenceNumber) →
      ∀ (verifyStrict : VerifyStrict) (replicasList : List Replica) (votes : List Vote) (s : ClientState),
        votes.length < 2 ^ 64 → (∃ replica ∈ replicasList, replica.id = replicaId) →
        (∀ vote, vote ∈ laneVotes verifyStrict (initPodNetworkClient replicasList).1 replicaId votes ↔
          ∃ entry ∈ st.sent, entry.2 = vote) →
        startPodDataUpdater verifyStrict (initPodNetworkClient replicasList).1 votes
          (initPodNetworkClient replicasList).2 = .ok s →
        (s.nextsn.lookup replicaId).map UInt64.toNat = some st.sent.length ∧
          s.backlogNumbers replicaId = ∅) := by
  have split := perm_range_iff_below (reach.counted.idle_values idle reach.own bound)
  have above : (∀ x ∈ failed.map fun vote => vote.sequenceNumber.toNat,
      ∀ y ∈ st.sent.map fun entry => entry.2.sequenceNumber.toNat, y < x) ↔
      ∀ vote ∈ failed, ∀ entry ∈ st.sent, entry.2.sequenceNumber < vote.sequenceNumber := by
    simp only [List.forall_mem_map, UInt64.lt_iff_toNat_lt]
  rw [above] at split
  refine ⟨split, ?_⟩
  intro condition verifyStrict replicasList votes s short configured received run
  obtain ⟨m, segment⟩ := split.mpr condition
  have length := segment.length_eq
  rw [List.length_map, List.length_range] at length
  rw [length]
  refine ((startPodDataUpdater_feed run).feedInv short).nothing_waits (mem_initReplicas.mpr configured) ?_
  intro n
  rw [← List.mem_range, ← segment.mem_iff, List.mem_map]
  constructor
  · rintro ⟨vote, member, same⟩
    obtain ⟨entry, inSent, rfl⟩ := (received vote).mp member
    exact ⟨entry, inSent, same⟩
  · rintro ⟨entry, inSent, same⟩
    exact ⟨entry.2, (received entry.2).mpr ⟨entry, inSent, rfl⟩, same⟩

variable {recordCodec sign replicaId} {failed : List Vote} {st : Node}

/-- A whole iteration of the heartbeat service. -/
theorem LossyReach.heartbeat (reach : LossyReach recordCodec sign replicaId failed st)
    (idle : st.beat = .idle) (ts : Timestamp) (vote : Vote)
    (signed : vote = signedVote sign replicaId heartbeatData ts st.nextsn) :
    LossyReach recordCodec sign replicaId failed
      { st.fetchAdd with
        beat := .idle
        sent := st.sent ++ [(.heartbeat, vote)]
        own := st.own ++ [vote] } := by
  have ticked := reach.step ⟨by simp, by simp⟩ (.tick idle)
  have read := ticked.step ⟨by simp, by simp⟩ (.beatClock ts rfl)
  have made := read.step ⟨by simp, by simp⟩ (.beatSign rfl signed)
  exact made.step ⟨by simp, by simp⟩ (.beatBroadcast rfl)

/-- An iteration of the log service whose append fails before its first byte. -/
theorem LossyReach.failedAppend (reach : LossyReach recordCodec sign replicaId failed st)
    (idle : st.log = .idle) (tx : Transaction) (small : tx.data.length ≤ maxMessageSize)
    (ts : Timestamp) (vote : Vote) (signed : vote = signedVote sign replicaId tx.data ts st.nextsn) :
    LossyReach recordCodec sign replicaId (failed ++ [vote])
      { st.fetchAdd with log := .idle, own := st.own ++ [vote] } := by
  have drawn := reach.step ⟨by simp, by simp⟩ (.receive tx idle small)
  have read := drawn.step ⟨by simp, by simp⟩ (.readClock ts rfl)
  have made := read.step ⟨by simp, by simp⟩ (.sign rfl signed)
  exact made.fail rfl

/-- A heartbeat with the number 0 and a failed append with the number 1. -/
theorem failure_last_reach (recordCodec : Codec VoteRecord) (sign : List UInt8 → Signature)
    (replicaId : ReplicaId) :
    ∃ st, LossyReach recordCodec sign replicaId [signedVote sign replicaId [65] 6 1] st ∧ st.Idle ∧
      st.drawn = 2 ∧ st.sent = [(.heartbeat, signedVote sign replicaId heartbeatData 5 0)] := by
  have base : LossyReach recordCodec sign replicaId [] .initial := .start
  have sent := base.heartbeat rfl 5 _ rfl
  have lost := sent.failedAppend rfl ⟨[65]⟩ (by decide) 6 _ rfl
  exact ⟨_, lost, ⟨rfl, rfl⟩, rfl, rfl⟩

/-- A failed append with the number 0 in front of a heartbeat. -/
theorem failure_first_reach (recordCodec : Codec VoteRecord) (sign : List UInt8 → Signature)
    (replicaId : ReplicaId) :
    ∃ st, LossyReach recordCodec sign replicaId [signedVote sign replicaId [65] 5 0] st ∧ st.Idle ∧
      st.sent = [(.heartbeat, signedVote sign replicaId heartbeatData 6 1)] := by
  have base : LossyReach recordCodec sign replicaId [] .initial := .start
  have lost := base.failedAppend rfl ⟨[65]⟩ (by decide) 5 _ rfl
  have sent := lost.heartbeat rfl 6 _ rfl
  exact ⟨_, sent, ⟨rfl, rfl⟩, rfl⟩

theorem failed_append_leaves_gap_iff_last :
    let key : VerifyingKey := Vector.replicate 32 3
    let beat := signedVote (standInSign key) 7 heartbeatData 5 0
    ∃ st, LossyReach voteRecordCodec (standInSign key) 7 [signedVote (standInSign key) 7 [65] 6 1] st ∧
      st.Idle ∧ st.drawn ≤ 2 ^ 64 ∧ st.sent = [(.heartbeat, beat)] ∧
      (∃ m, (st.sent.map fun entry => entry.2.sequenceNumber.toNat).Perm (List.range m)) ∧
      ∀ s, startPodDataUpdater standInVerify (initPodNetworkClient [⟨7, key⟩]).1 [beat]
          (initPodNetworkClient [⟨7, key⟩]).2 = .ok s →
        (s.nextsn.lookup 7).map UInt64.toNat = some st.sent.length ∧ s.backlogNumbers 7 = ∅ := by
  intro key beat
  obtain ⟨st, reach, idle, drawn, sent⟩ := failure_last_reach voteRecordCodec (standInSign key) 7
  have bound : st.drawn ≤ 2 ^ 64 := by
    rw [drawn]
    norm_num
  obtain ⟨gap, client⟩ := failed_append_leaves_gap_iff voteRecordCodec (standInSign key) 7 _ st reach idle bound
  have last : ∀ vote ∈ [signedVote (standInSign key) 7 [65] 6 1], ∀ entry ∈ st.sent,
      entry.2.sequenceNumber < vote.sequenceNumber := by
    rw [sent]
    simp [signedVote]
  have known : (initPodNetworkClient [⟨7, key⟩]).1.lookup 7 = some (⟨7, key⟩ : Replica) := by
    simp [initPodNetworkClient]
  have verified : Verified standInVerify (initPodNetworkClient [⟨7, key⟩]).1 beat :=
    verified_signedVote known (standInVerify_sign key _)
  refine ⟨st, reach, idle, bound, sent, gap.mpr last, fun s run => ?_⟩
  refine client last standInVerify [⟨7, key⟩] [beat] s (by simp) ⟨_, List.mem_singleton_self _, rfl⟩ ?_ run
  intro vote
  rw [mem_laneVotes, List.mem_singleton, sent]
  constructor
  · rintro ⟨rfl, _⟩
    exact ⟨(.heartbeat, beat), List.mem_singleton_self _, rfl⟩
  · rintro ⟨entry, inSent, rfl⟩
    cases List.mem_singleton.mp inSent
    exact ⟨rfl, rfl, verified⟩

/-- The client waits for the number of a failed append and never gets past it. -/
theorem failed_append_leaves_gap :
    let key : VerifyingKey := Vector.replicate 32 3
    let beat := signedVote (standInSign key) 7 heartbeatData 6 1
    ∃ st, LossyReach voteRecordCodec (standInSign key) 7 [signedVote (standInSign key) 7 [65] 5 0] st ∧
      st.Idle ∧ st.sent = [(.heartbeat, beat)] ∧
      (¬ ∃ m, (st.sent.map fun entry => entry.2.sequenceNumber.toNat).Perm (List.range m)) ∧
      ∃ s, startPodDataUpdater standInVerify (initPodNetworkClient [⟨7, key⟩]).1 [beat]
          (initPodNetworkClient [⟨7, key⟩]).2 = .ok s ∧ s.nextsn.lookup 7 = some 0 ∧
        ∃ kept, s.backlog.lookup 7 = some kept ∧ kept.lookup 1 = some beat := by
  intro key beat
  obtain ⟨st, reach, idle, sent⟩ := failure_first_reach voteRecordCodec (standInSign key) 7
  obtain ⟨s, run, outcome⟩ := exists_ok_of_any
    (p := fun s : ClientState => s.nextsn.lookup 7 == some 0 &&
      (s.backlog.lookup 7).any fun kept => kept.lookup 1 == some beat)
    (show (startPodDataUpdater standInVerify (initPodNetworkClient [⟨7, key⟩]).1 [beat]
      (initPodNetworkClient [⟨7, key⟩]).2).toOption.any _ = true by decide +kernel)
  rw [Bool.and_eq_true, beq_iff_eq, Option.any_eq_true] at outcome
  obtain ⟨expected, kept, backlog, waits⟩ := outcome
  refine ⟨st, reach, idle, sent, ?_, s, run, expected, kept, backlog, beq_iff_eq.mp waits⟩
  rw [sent]
  rintro ⟨m, segment⟩
  have length : 1 = m := by simpa using segment.length_eq
  subst length
  have first : 1 ∈ List.range 1 := segment.mem_iff.mp (List.mem_singleton_self _)
  simp at first

end Gaps

end Podnet
