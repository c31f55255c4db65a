import Podnet.Client.Runs

namespace Podnet

variable {verifyStrict : VerifyStrict} {replicas : HashMap ReplicaId Replica}
  {votes : List Vote} {r : ReplicaId}

theorem mem_laneVotes {vote : Vote} :
    vote ∈ laneVotes verifyStrict replicas r votes ↔
      vote ∈ votes ∧ vote.replicaId = r ∧ Verified verifyStrict replicas vote := by
  simp [laneVotes]

/-- Processed votes are logged one by one. -/
theorem calls_foldl (order : List Vote) (view : LaneView)
    (carried : ∀ vote ∈ order, vote.transaction ≠ none) :
    (order.foldl (fun view vote => consumeVote vote view) view).calls = view.calls ++ order := by
  induction order generalizing view with
  | nil => simp
  | cons vote rest ih =>
    obtain ⟨own, others⟩ := List.forall_mem_cons.mp carried
    obtain ⟨tx, atTx⟩ := Option.ne_none_iff_exists'.mp own
    rw [List.foldl_cons, ih _ others]
    simp [consumeVote, atTx]

/-- The sequence numbers of the votes of a replica that carry a transaction and
pass the signature check. -/
def verifiedNumbers (verifyStrict : VerifyStrict) (replicas : HashMap ReplicaId Replica)
    (votes : List Vote) (r : ReplicaId) : Set Nat :=
  {n | ∃ vote ∈ votes, vote.replicaId = r ∧ Verified verifyStrict replicas vote ∧
    vote.sequenceNumber.toNat = n}

/-- The sequence numbers kept in the backlog of a replica. -/
def ClientState.backlogNumbers (s : ClientState) (r : ReplicaId) : Set Nat :=
  {n | ∃ kept sn, s.backlog.lookup r = some kept ∧ sn ∈ kept ∧ sn.toNat = n}

theorem mem_backlogNumbers {s : ClientState} {n : Nat} :
    n ∈ s.backlogNumbers r ↔ ∃ sn ∈ (s.lane r).held, sn.toNat = n := by
  have waiting : (s.lane r).waiting = s.backlog.lookup r := rfl
  simp only [ClientState.backlogNumbers, Set.mem_ofPred_eq, Resequencer.held, waiting]
  cases s.backlog.lookup r with
  | none => simp
  | some kept => simp [Finmap.mem_keys]

/-- Two maps with a key in common agree on it as soon as their values do. -/
theorem lookup_eq_of_getD {m m' : HashMap ReplicaId UInt64} (keys : r ∈ m' ↔ r ∈ m)
    (values : (m'.lookup r).getD 0 = (m.lookup r).getD 0) : m'.lookup r = m.lookup r := by
  by_cases known : r ∈ m
  · obtain ⟨v, atKey⟩ := Finmap.mem_iff.mp known
    obtain ⟨v', atKey'⟩ := Finmap.mem_iff.mp (keys.mpr known)
    rw [atKey, atKey', Option.getD_some, Option.getD_some] at values
    rw [atKey, atKey', values]
  · rw [Finmap.lookup_eq_none.mpr known, Finmap.lookup_eq_none.mpr fun known' => known (keys.mp known')]

section Settled

variable {replicasList : List Replica} {s : ClientState}

/-- A run from the initial state that leaves some number of a replica out ends
with the replica's lane settled on its verified votes. -/
theorem lane_settled {free : SequenceNumber}
    (absent : ∀ vote ∈ laneVotes verifyStrict replicas r votes, vote.sequenceNumber ≠ free)
    (lane : s.lane r = Resequencer.run Vote.sequenceNumber consumeVote
      (laneVotes verifyStrict replicas r votes) ((initPodNetworkClient replicasList).2.lane r)) :
    Resequencer.Settled Vote.sequenceNumber consumeVote
      {vote | vote ∈ laneVotes verifyStrict replicas r votes} ⟨0, fun _ => none, []⟩ (s.lane r) := by
  rw [lane, init_lane]
  exact Resequencer.run_settled absent

/-- The calls of a lane are its delivered votes. -/
theorem calls_of_tracks
    (tracks : Resequencer.Tracks Vote.sequenceNumber consumeVote
      {vote | vote ∈ laneVotes verifyStrict replicas r votes} ⟨0, fun _ => none, []⟩ (s.lane r)) :
    (s.callsOf r).map (fun vote => vote.sequenceNumber.toNat) = List.range (s.lane r).next.toNat ∧
      ∀ vote ∈ s.callsOf r, vote ∈ laneVotes verifyStrict replicas r votes := by
  obtain ⟨order, fed, numbers, arrived⟩ := tracks.delivered
  have carried : ∀ vote ∈ order, vote.transaction ≠ none := by
    intro vote member
    obtain ⟨_, _, tx, _, atTx, _⟩ := mem_laneVotes.mp (arrived vote member)
    simp [atTx]
  have calls : s.callsOf r = order := by
    have logged := congrArg LaneView.calls fed
    rw [calls_foldl order _ carried] at logged
    simpa [ClientState.lane] using logged
  rw [calls]
  exact ⟨numbers, arrived⟩

end Settled

/-- Every vote sequence is applied exactly once and in order: `processVote` runs
for a replica on the verified votes numbered `0, ..., k - 1`, where `k` is the
first number that did not arrive verified, and everything above `k` waits. -/
theorem votes_applied_in_order (verifyStrict : VerifyStrict) (replicasList : List Replica)
    (votes : List Vote) (short : votes.length < 2 ^ 64)
    (named : ∀ vote ∈ votes, ∃ replica ∈ replicasList, replica.id = vote.replicaId) :
    ∃ s, startPodDataUpdater verifyStrict (initPodNetworkClient replicasList).1 votes
        (initPodNetworkClient replicasList).2 = .ok s ∧
      ∀ r, (∃ replica ∈ replicasList, replica.id = r) →
        ∃ k, IsLeast (verifiedNumbers verifyStrict (initPodNetworkClient replicasList).1 votes r)ᶜ k ∧
          (s.callsOf r).map (fun vote => vote.sequenceNumber.toNat) = List.range k ∧
          (∀ vote ∈ s.callsOf r, vote ∈ votes ∧ vote.replicaId = r ∧
            Verified verifyStrict (initPodNetworkClient replicasList).1 vote) ∧
          (s.nextsn.lookup r).map UInt64.toNat = some k ∧
          s.backlogNumbers r =
            {n ∈ verifiedNumbers verifyStrict (initPodNetworkClient replicasList).1 votes r | k < n} := by
  obtain ⟨s, run, keyed, lanes⟩ := startPodDataUpdater_lane verifyStrict (init_keyed replicasList)
    (fun vote member => mem_initReplicas.mpr (named vote member))
  refine ⟨s, run, fun r configured => ⟨(s.lane r).next.toNat, ?_⟩⟩
  have numbers : ∀ n, n ∈ verifiedNumbers verifyStrict (initPodNetworkClient replicasList).1 votes r ↔
      ∃ vote ∈ laneVotes verifyStrict (initPodNetworkClient replicasList).1 r votes,
        vote.sequenceNumber.toNat = n := by
    intro n
    simp only [verifiedNumbers, Set.mem_ofPred_eq, mem_laneVotes, and_assoc]
  obtain ⟨free, absent⟩ := Word.exists_not_mem_of_length
    (show (votes.map Vote.sequenceNumber).length < 2 ^ 64 by rwa [List.length_map])
  have settled := lane_settled (fun vote member same =>
    absent (List.mem_map.mpr ⟨vote, (mem_laneVotes.mp member).1, same⟩)) (lanes r)
  obtain ⟨inOrder, arrived⟩ := calls_of_tracks settled.1
  refine ⟨?_, inOrder, fun vote member => mem_laneVotes.mp (arrived vote member), ?_, ?_⟩
  · have least := settled.next_least
    refine ⟨fun arrivedNext => ?_, fun n missing => least.2 ?_⟩
    · obtain ⟨vote, member, same⟩ := (numbers _).mp arrivedNext
      exact least.1 vote member same
    · exact fun vote member same => missing ((numbers n).mpr ⟨vote, member, same⟩)
  · obtain ⟨nextsn, expected⟩ := keyed.nextsnEntry (mem_initReplicas.mpr configured)
    simp [ClientState.lane, expected]
  · ext n
    rw [mem_backlogNumbers, Set.mem_sep_iff, numbers]
    constructor
    · rintro ⟨sn, held, rfl⟩
      obtain ⟨⟨vote, member, same⟩, above⟩ := (settled.2.2 sn).mp held
      exact ⟨⟨vote, member, by rw [same]⟩, UInt64.lt_iff_toNat_lt.mp above⟩
    · rintro ⟨⟨vote, member, rfl⟩, above⟩
      exact ⟨vote.sequenceNumber, (settled.2.2 _).mpr ⟨⟨vote, member, rfl⟩,
        UInt64.lt_iff_toNat_lt.mpr above⟩, rfl⟩

/-- Vote 1 before vote 0, with a repetition in between. -/
theorem votes_applied_in_order_swapped :
    let key : VerifyingKey := Vector.replicate 32 3
    let vote := signedVote (standInSign key) 7 [1, 2]
    ∃ s, startPodDataUpdater standInVerify (initPodNetworkClient [⟨7, key⟩]).1
        [vote 9 1, vote 9 1, vote 8 0] (initPodNetworkClient [⟨7, key⟩]).2 = .ok s ∧
      ∀ r, (∃ replica ∈ [(⟨7, key⟩ : Replica)], replica.id = r) →
        ∃ k, IsLeast (verifiedNumbers standInVerify (initPodNetworkClient [⟨7, key⟩]).1
            [vote 9 1, vote 9 1, vote 8 0] r)ᶜ k ∧
          (s.callsOf r).map (fun vote => vote.sequenceNumber.toNat) = List.range k ∧
          (∀ v ∈ s.callsOf r, v ∈ [vote 9 1, vote 9 1, vote 8 0] ∧ v.replicaId = r ∧
            Verified standInVerify (initPodNetworkClient [⟨7, key⟩]).1 v) ∧
          (s.nextsn.lookup r).map UInt64.toNat = some k ∧
          s.backlogNumbers r = {n ∈ verifiedNumbers standInVerify
            (initPodNetworkClient [⟨7, key⟩]).1 [vote 9 1, vote 9 1, vote 8 0] r | k < n} :=
  votes_applied_in_order standInVerify [⟨7, Vector.replicate 32 3⟩] _ (by decide)
    (by simp [signedVote])

/-- Votes of other replicas do not reach the lane of a replica. -/
theorem laneVotes_filter {faulty : Finset ReplicaId} (outside : r ∉ faulty) :
    laneVotes verifyStrict replicas r (votes.filter fun vote => vote.replicaId ∉ faulty) =
      laneVotes verifyStrict replicas r votes := by
  rw [laneVotes, laneVotes, List.filter_filter]
  refine List.filter_congr fun vote _ => ?_
  by_cases own : vote.replicaId = r
  · simp [own, outside]
  · simp [own]

/-- Deleting every vote of the replicas in `faulty` leaves the other replicas'
part of the view as it was, whatever the deleted votes were. -/
theorem faulty_votes_do_not_interfere (verifyStrict : VerifyStrict) (replicasList : List Replica)
    (faulty : Finset ReplicaId) (votes : List Vote)
    (named : ∀ vote ∈ votes, ∃ replica ∈ replicasList, replica.id = vote.replicaId) :
    ∃ s s', startPodDataUpdater verifyStrict (initPodNetworkClient replicasList).1 votes
        (initPodNetworkClient replicasList).2 = .ok s ∧
      startPodDataUpdater verifyStrict (initPodNetworkClient replicasList).1
        (votes.filter fun vote => vote.replicaId ∉ faulty) (initPodNetworkClient replicasList).2 =
          .ok s' ∧
      ∀ r ∉ faulty, s'.nextsn.lookup r = s.nextsn.lookup r ∧ s'.mrt.lookup r = s.mrt.lookup r ∧
        s'.backlog.lookup r = s.backlog.lookup r ∧ ∀ tx, s'.stamp tx r = s.stamp tx r := by
  obtain ⟨s, run, keyed, lanes⟩ := startPodDataUpdater_lane verifyStrict (init_keyed replicasList)
    (fun vote member => mem_initReplicas.mpr (named vote member))
  obtain ⟨s', run', keyed', lanes'⟩ := startPodDataUpdater_lane verifyStrict (init_keyed replicasList)
    (fun vote member => mem_initReplicas.mpr (named vote (List.mem_of_mem_filter member)))
  refine ⟨s, s', run, run', fun r outside => ?_⟩
  have lane : s'.lane r = s.lane r := by
    rw [lanes' r, lanes r, laneVotes_filter outside]
  have counters := congrArg Resequencer.next lane
  have view := congrArg Resequencer.out lane
  refine ⟨?_, ?_, congrArg Resequencer.waiting lane, congrFun (congrArg LaneView.stamps view)⟩
  · exact lookup_eq_of_getD (by rw [keyed.nextsn, keyed'.nextsn]) counters
  · exact lookup_eq_of_getD (by rw [keyed.mrt, keyed'.mrt]) (congrArg LaneView.mrt view)

/-- A flood of replica 8 next to one vote of replica 7. -/
theorem faulty_votes_do_not_interfere_flood :
    let key : VerifyingKey := Vector.replicate 32 3
    let flood := signedVote (standInSign key) 8 [66] 9
    let votes := [flood 1, signedVote (standInSign key) 7 [65] 5 0, flood 0]
    ∃ s s', startPodDataUpdater standInVerify (initPodNetworkClient [⟨7, key⟩, ⟨8, key⟩]).1 votes
        (initPodNetworkClient [⟨7, key⟩, ⟨8, key⟩]).2 = .ok s ∧
      startPodDataUpdater standInVerify (initPodNetworkClient [⟨7, key⟩, ⟨8, key⟩]).1
        (votes.filter fun vote => vote.replicaId ∉ ({8} : Finset ReplicaId))
        (initPodNetworkClient [⟨7, key⟩, ⟨8, key⟩]).2 = .ok s' ∧
      ∀ r ∉ ({8} : Finset ReplicaId), s'.nextsn.lookup r = s.nextsn.lookup r ∧
        s'.mrt.lookup r = s.mrt.lookup r ∧ s'.backlog.lookup r = s.backlog.lookup r ∧
        ∀ tx, s'.stamp tx r = s.stamp tx r :=
  faulty_votes_do_not_interfere standInVerify
    [⟨7, Vector.replicate 32 3⟩, ⟨8, Vector.replicate 32 3⟩] {8} _ (by simp [signedVote])

/-- No transaction has an empty entry, so the recorded timestamps determine the
map of maps. -/
theorem tsps_eq_of_stamp {s₁ s₂ : ClientState} (inv₁ : ViewInv replicas s₁)
    (inv₂ : ViewInv replicas s₂) (stamps : ∀ tx r, s₁.stamp tx r = s₂.stamp tx r) :
    s₁.tsps = s₂.tsps := by
  have present : ∀ {s s' : ClientState} (tx : Transaction), ViewInv replicas s →
      (∀ r, s.stamp tx r = s'.stamp tx r) → tx ∈ s.tsps → tx ∈ s'.tsps := by
    intro s s' tx inv same member
    obtain ⟨r, ts, atTx⟩ := inv.inhabited tx member
    rw [same] at atTx
    obtain ⟨entry, known, _⟩ := Option.bind_eq_some_iff.mp atTx
    exact Finmap.mem_of_lookup_eq_some known
  refine Finmap.ext_lookup fun tx => ?_
  by_cases member : tx ∈ s₁.tsps
  · obtain ⟨entry₁, known₁⟩ := Finmap.mem_iff.mp member
    obtain ⟨entry₂, known₂⟩ := Finmap.mem_iff.mp (present tx inv₁ (stamps tx) member)
    rw [known₁, known₂]
    refine congrArg some (Finmap.ext_lookup fun r => ?_)
    simpa [ClientState.stamp, known₁, known₂] using stamps tx r
  · have absent : tx ∉ s₂.tsps :=
      fun member₂ => member (present tx inv₂ (fun r => (stamps tx r).symm) member₂)
    rw [Finmap.lookup_eq_none.mpr member, Finmap.lookup_eq_none.mpr absent]

/-- Two arrival sequences with the same verified votes, none of them in
conflict, end with the same counters and the same recorded timestamps, as long
as every replica has a number without a verified vote. -/
theorem arrival_order_irrelevant (verifyStrict : VerifyStrict) (replicasList : List Replica)
    (votes₁ votes₂ : List Vote)
    (named₁ : ∀ vote ∈ votes₁, ∃ replica ∈ replicasList, replica.id = vote.replicaId)
    (named₂ : ∀ vote ∈ votes₂, ∃ replica ∈ replicasList, replica.id = vote.replicaId)
    (same : ∀ vote, Verified verifyStrict (initPodNetworkClient replicasList).1 vote →
      (vote ∈ votes₁ ↔ vote ∈ votes₂))
    (honest : ∀ v ∈ votes₁, ∀ w ∈ votes₁,
      Verified verifyStrict (initPodNetworkClient replicasList).1 v →
      Verified verifyStrict (initPodNetworkClient replicasList).1 w →
      v.replicaId = w.replicaId → v.sequenceNumber = w.sequenceNumber → v = w)
    (gap : ∀ r, ∃ free : SequenceNumber, ∀ vote ∈ votes₁, vote.replicaId = r →
      Verified verifyStrict (initPodNetworkClient replicasList).1 vote → vote.sequenceNumber ≠ free) :
    ∃ s₁ s₂, startPodDataUpdater verifyStrict (initPodNetworkClient replicasList).1 votes₁
        (initPodNetworkClient replicasList).2 = .ok s₁ ∧
      startPodDataUpdater verifyStrict (initPodNetworkClient replicasList).1 votes₂
        (initPodNetworkClient replicasList).2 = .ok s₂ ∧
      s₁.nextsn = s₂.nextsn ∧ s₁.mrt = s₂.mrt ∧ s₁.tsps = s₂.tsps := by
  obtain ⟨s₁, run₁, keyed₁, lanes₁⟩ := startPodDataUpdater_lane verifyStrict (init_keyed replicasList)
    (fun vote member => mem_initReplicas.mpr (named₁ vote member))
  obtain ⟨s₂, run₂, keyed₂, lanes₂⟩ := startPodDataUpdater_lane verifyStrict (init_keyed replicasList)
    (fun vote member => mem_initReplicas.mpr (named₂ vote member))
  have inv₁ := (startPodDataUpdater_run run₁).viewInv (init_viewInv replicasList)
  have inv₂ := (startPodDataUpdater_run run₂).viewInv (init_viewInv replicasList)
  have agree : ∀ r, (s₁.lane r).next = (s₂.lane r).next ∧ (s₁.lane r).out = (s₂.lane r).out := by
    intro r
    obtain ⟨free, absent⟩ := gap r
    have members : ∀ vote,
        vote ∈ laneVotes verifyStrict (initPodNetworkClient replicasList).1 r votes₂ ↔
          vote ∈ laneVotes verifyStrict (initPodNetworkClient replicasList).1 r votes₁ := by
      intro vote
      rw [mem_laneVotes, mem_laneVotes]
      constructor
      · exact fun ⟨member, own, verified⟩ => ⟨(same vote verified).mpr member, own, verified⟩
      · exact fun ⟨member, own, verified⟩ => ⟨(same vote verified).mp member, own, verified⟩
    have missing : ∀ vote ∈ laneVotes verifyStrict (initPodNetworkClient replicasList).1 r votes₁,
        vote.sequenceNumber ≠ free := by
      intro vote member
      obtain ⟨arrived, own, verified⟩ := mem_laneVotes.mp member
      exact absent vote arrived own verified
    have settled₁ := lane_settled missing (lanes₁ r)
    have settled₂ := lane_settled (fun vote member => missing vote ((members vote).mp member)) (lanes₂ r)
    simp only [members] at settled₂
    refine settled₁.unique settled₂ ?_
    intro v memberV w memberW numbers
    obtain ⟨arrivedV, ownV, verifiedV⟩ := mem_laneVotes.mp memberV
    obtain ⟨arrivedW, ownW, verifiedW⟩ := mem_laneVotes.mp memberW
    exact honest v arrivedV w arrivedW verifiedV verifiedW (ownV.trans ownW.symm) numbers
  refine ⟨s₁, s₂, run₁, run₂, ?_, ?_, ?_⟩
  · exact Finmap.ext_lookup fun r =>
      lookup_eq_of_getD (by rw [keyed₁.nextsn, keyed₂.nextsn]) (agree r).1
  · exact Finmap.ext_lookup fun r =>
      lookup_eq_of_getD (by rw [keyed₁.mrt, keyed₂.mrt]) (congrArg LaneView.mrt (agree r).2)
  · exact tsps_eq_of_stamp inv₁ inv₂ fun tx r =>
      congrFun (congrArg LaneView.stamps (agree r).2) tx

/-- Two votes in either order, one of them repeated. -/
theorem arrival_order_irrelevant_swapped :
    let key : VerifyingKey := Vector.replicate 32 3
    let vote := signedVote (standInSign key) 7 [65] 5
    ∃ s₁ s₂, startPodDataUpdater standInVerify (initPodNetworkClient [⟨7, key⟩]).1 [vote 0, vote 1]
        (initPodNetworkClient [⟨7, key⟩]).2 = .ok s₁ ∧
      startPodDataUpdater standInVerify (initPodNetworkClient [⟨7, key⟩]).1 [vote 1, vote 0, vote 1]
        (initPodNetworkClient [⟨7, key⟩]).2 = .ok s₂ ∧
      s₁.nextsn = s₂.nextsn ∧ s₁.mrt = s₂.mrt ∧ s₁.tsps = s₂.tsps :=
  arrival_order_irrelevant standInVerify [⟨7, Vector.replicate 32 3⟩] _ _ (by simp [signedVote])
    (by simp [signedVote])
    (fun vote _ => by simp only [List.mem_cons, List.not_mem_nil, or_false]; tauto)
    (by simp [signedVote])
    (fun r => ⟨2, by simp [signedVote]⟩)

/-- The heartbeats a replica would send with the numbers `0, ..., m - 1`, taken
modulo the word size. -/
def numberedVotes (key : VerifyingKey) (m : Nat) : List Vote :=
  (List.range m).map fun n => signedVote (standInSign key) 7 heartbeatData 5 (UInt64.ofNat n)

theorem standInVerify_sign (pk : VerifyingKey) (message : List UInt8) :
    standInVerify pk message (standInSign pk message) = true := by
  simp [standInVerify]

/-- The updater follows the numbered votes through every wrap of the counter. -/
theorem numberedVotes_nextsn (key : VerifyingKey) (m : Nat) :
    ∃ s, startPodDataUpdater standInVerify (initPodNetworkClient [⟨7, key⟩]).1 (numberedVotes key m)
        (initPodNetworkClient [⟨7, key⟩]).2 = .ok s ∧ s.nextsn.lookup 7 = some (UInt64.ofNat m) := by
  have named : ∀ vote ∈ numberedVotes key m, vote.replicaId = 7 := by
    intro vote member
    obtain ⟨n, _, rfl⟩ := List.mem_map.mp member
    rfl
  have configured : (7 : ReplicaId) ∈ (initPodNetworkClient [⟨7, key⟩]).1 :=
    mem_initReplicas.mpr ⟨⟨7, key⟩, List.mem_singleton_self _, rfl⟩
  obtain ⟨s, run, keyed, lanes⟩ := startPodDataUpdater_lane standInVerify (init_keyed [⟨7, key⟩])
    (fun vote member => named vote member ▸ configured)
  have all : laneVotes standInVerify (initPodNetworkClient [⟨7, key⟩]).1 7 (numberedVotes key m) =
      numberedVotes key m := by
    refine List.filter_eq_self.mpr fun vote member => ?_
    obtain ⟨n, _, rfl⟩ := List.mem_map.mp member
    have known : (initPodNetworkClient [⟨7, key⟩]).1.lookup 7 = some (⟨7, key⟩ : Replica) := by
      simp [initPodNetworkClient]
    have verified := verified_signedVote known
      (standInVerify_sign key (votePayload heartbeatData 5 (UInt64.ofNat n)))
    simpa [signedVote] using verified
  obtain ⟨nextsn, expected⟩ := keyed.nextsnEntry configured
  have next : (s.lane 7).next = UInt64.ofNat m := by
    have numbered : ∀ n, (signedVote (standInSign key) 7 heartbeatData 5
        (UInt64.ofNat n)).sequenceNumber = UInt64.ofNat n := fun _ => rfl
    rw [lanes 7, all, init_lane]
    exact (Resequencer.run_in_order numbered m).1
  refine ⟨s, run, ?_⟩
  simp only [ClientState.lane, expected, Option.getD_some] at next
  rw [expected, next]

theorem mem_numberedVotes_wrap (key : VerifyingKey) (vote : Vote) :
    vote ∈ numberedVotes key (2 ^ 64 + 1) ↔ vote ∈ numberedVotes key (2 ^ 64) := by
  rw [numberedVotes, numberedVotes, List.range_succ, List.map_append, List.mem_append]
  constructor
  · rintro (member | last)
    · exact member
    · rw [List.map_cons, List.map_nil, List.mem_singleton] at last
      exact List.mem_map.mpr ⟨0, List.mem_range.mpr (by norm_num), last.symm⟩
  · exact Or.inl

/-- After `2 ^ 64` votes the counter is back at zero and takes the vote numbered
zero again: a repeated vote changes the outcome. -/
theorem arrival_order_matters_after_wrap :
    let key : VerifyingKey := Vector.replicate 32 3
    (∀ vote ∈ numberedVotes key (2 ^ 64), vote.replicaId = 7) ∧
    (∀ vote ∈ numberedVotes key (2 ^ 64 + 1), vote.replicaId = 7) ∧
    (∀ vote, vote ∈ numberedVotes key (2 ^ 64) ↔ vote ∈ numberedVotes key (2 ^ 64 + 1)) ∧
    (∀ v ∈ numberedVotes key (2 ^ 64), ∀ w ∈ numberedVotes key (2 ^ 64),
      v.sequenceNumber = w.sequenceNumber → v = w) ∧
    ∃ s₁ s₂, startPodDataUpdater standInVerify (initPodNetworkClient [⟨7, key⟩]).1
        (numberedVotes key (2 ^ 64)) (initPodNetworkClient [⟨7, key⟩]).2 = .ok s₁ ∧
      startPodDataUpdater standInVerify (initPodNetworkClient [⟨7, key⟩]).1
        (numberedVotes key (2 ^ 64 + 1)) (initPodNetworkClient [⟨7, key⟩]).2 = .ok s₂ ∧
      s₁.nextsn ≠ s₂.nextsn := by
  intro key
  have named : ∀ m, ∀ vote ∈ numberedVotes key m, vote.replicaId = 7 := by
    intro m vote member
    obtain ⟨n, _, rfl⟩ := List.mem_map.mp member
    rfl
  refine ⟨named _, named _, fun vote => (mem_numberedVotes_wrap key vote).symm, ?_, ?_⟩
  · intro v memberV w memberW same
    obtain ⟨n, _, rfl⟩ := List.mem_map.mp memberV
    obtain ⟨n', _, rfl⟩ := List.mem_map.mp memberW
    simp only [signedVote] at same ⊢
    rw [same]
  · obtain ⟨s₁, run₁, next₁⟩ := numberedVotes_nextsn key (2 ^ 64)
    obtain ⟨s₂, run₂, next₂⟩ := numberedVotes_nextsn key (2 ^ 64 + 1)
    refine ⟨s₁, s₂, run₁, run₂, fun same => ?_⟩
    rw [same, next₂] at next₁
    exact absurd (Option.some.inj next₁) (by decide)

end Podnet
