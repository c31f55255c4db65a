import Podnet.Client.Feed
import Podnet.Replica.Persistence

namespace Podnet

/-- A number with the round that was read for it. -/
abbrev Stamp := SequenceNumber × Timestamp

def LogPhase.stamp : LogPhase → List Stamp
  | stamped _ sn ts => [(sn, ts)]
  | _ => []

def BeatPhase.stamp : BeatPhase → List Stamp
  | stamped sn ts => [(sn, ts)]
  | _ => []

def Vote.stamp (vote : Vote) : Stamp := (vote.sequenceNumber, vote.timestamp)

/-- The stamps of this life, signed or still in hand. -/
def Node.stamps (st : Node) : List Stamp :=
  st.own.map Vote.stamp ++ (st.log.stamp ++ st.beat.stamp)

/-- The number for which a step reads the clock. -/
def Node.reading (st st' : Node) : Option SequenceNumber :=
  match st.log, st'.log with
  | .numbered _ sn, .stamped _ _ _ => some sn
  | _, _ =>
    match st.beat, st'.beat with
    | .numbered sn, .stamped _ _ => some sn
    | _, _ => none

/-- A step that reads the clock for a number after a larger one got an earlier round. -/
def Node.ReadsLate (st st' : Node) (now : Timestamp) : Prop :=
  ∃ sn, st.reading st' = some sn ∧ ∃ stamp ∈ st.stamps, sn < stamp.1 ∧ stamp.2 < now

section Runs

variable (recordCodec : Codec VoteRecord) (sign : List UInt8 → Signature) (replicaId : ReplicaId)

/-- One life of a replica under a clock that never goes backwards. The flag records
whether some step has read the clock late. -/
inductive TimedReach : Timestamp → Bool → Node → Prop
  | start : TimedReach 0 false .initial
  | next {now now' late late' st event st'} : TimedReach now late st →
      NodeStep recordCodec sign replicaId st event st' → event ≠ .restart → now ≤ now' →
      (∀ ts, event = .clock ts → ts = now') →
      (late' = true ↔ late = true ∨ st.ReadsLate st' now') → TimedReach now' late' st'

end Runs

section Stamps

variable {recordCodec : Codec VoteRecord} {sign : List UInt8 → Signature} {replicaId : ReplicaId}
  {st st' : Node} {event : NodeEvent} {now : Timestamp} {late : Bool}

/-- Everything a step of one life can do to the stamps: read the clock for one number,
or keep them while one of them may pass from hand to hand. -/
theorem NodeStep.stamps_cases (step : NodeStep recordCodec sign replicaId st event st')
    (living : event ≠ .restart) :
    (∃ sn ts, event = .clock ts ∧ st.reading st' = some sn ∧ st'.stamps.Perm ((sn, ts) :: st.stamps)) ∨
    (st.reading st' = none ∧ st'.stamps.Perm st.stamps) := by
  cases step with
  | @readClock tx sn ts phase =>
    refine Or.inl ⟨sn, ts, rfl, by simp [Node.reading, phase], ?_⟩
    simp only [Node.stamps, phase, LogPhase.stamp, List.nil_append, List.singleton_append]
    exact List.perm_middle
  | @beatClock sn ts phase =>
    refine Or.inl ⟨sn, ts, rfl, ?_, ?_⟩
    · cases other : st.log <;> simp [Node.reading, phase, other]
    · simp only [Node.stamps, phase, BeatPhase.stamp, List.append_nil, ← List.append_assoc]
      exact List.perm_append_comm
  | sign phase made =>
    subst made
    refine Or.inr ⟨?_, ?_⟩
    · cases other : st.beat <;> simp [Node.reading, phase, other]
    · simp [Node.stamps, phase, LogPhase.stamp, Vote.stamp, signedVote]
  | beatSign phase made =>
    subst made
    refine Or.inr ⟨?_, ?_⟩
    · cases other : st.log <;> simp [Node.reading, phase, other]
    · simp only [Node.stamps, phase, BeatPhase.stamp, List.map_append, List.map_cons, List.map_nil, Vote.stamp,
        signedVote, List.append_nil, List.append_assoc]
      exact List.perm_append_comm.append_left _
  | receive tx phase _ | write phase | appendError phase | broadcast phase =>
    refine Or.inr ⟨?_, ?_⟩
    · cases other : st.beat <;> simp [Node.reading, phase, other, Node.fetchAdd]
    · simp [Node.stamps, phase, LogPhase.stamp, Node.fetchAdd]
  | tick phase | beatBroadcast phase =>
    refine Or.inr ⟨?_, ?_⟩
    · cases other : st.log <;> simp [Node.reading, phase, other, Node.fetchAdd]
    · simp [Node.stamps, phase, BeatPhase.stamp, Node.fetchAdd]
  | restart => exact absurd rfl living

/-- Larger numbers have later rounds. -/
def InTimeOrder (stamps : List Stamp) : Prop :=
  ∀ a ∈ stamps, ∀ b ∈ stamps, a.1 < b.1 → a.2 ≤ b.2

theorem InTimeOrder.perm {first second : List Stamp} (ordered : InTimeOrder first)
    (perm : second.Perm first) : InTimeOrder second :=
  fun a inA b inB => ordered a (perm.mem_iff.mp inA) b (perm.mem_iff.mp inB)

/-- One more stamp, read at a time when no older stamp lies in the future. -/
theorem inTimeOrder_cons {stamps : List Stamp} {sn : SequenceNumber}
    (past : ∀ stamp ∈ stamps, stamp.2 ≤ now) :
    InTimeOrder ((sn, now) :: stamps) ↔
      InTimeOrder stamps ∧ ¬ ∃ stamp ∈ stamps, sn < stamp.1 ∧ stamp.2 < now := by
  constructor
  · intro ordered
    refine ⟨fun a inA b inB => ordered a (List.mem_cons_of_mem _ inA) b (List.mem_cons_of_mem _ inB), ?_⟩
    rintro ⟨stamp, member, larger, earlier⟩
    have order := ordered (sn, now) List.mem_cons_self stamp (List.mem_cons_of_mem _ member) larger
    exact absurd order (not_le.mpr earlier)
  · rintro ⟨ordered, noLate⟩ a inA b inB smaller
    rcases List.mem_cons.mp inA with rfl | oldA
    · rcases List.mem_cons.mp inB with rfl | oldB
      · exact le_rfl
      · by_contra earlier
        exact noLate ⟨b, oldB, smaller, not_le.mp earlier⟩
    · rcases List.mem_cons.mp inB with rfl | oldB
      · exact past a oldA
      · exact ordered a oldA b oldB smaller

/-- The stamps are in order exactly as long as no step has read the clock late. -/
theorem TimedReach.order_iff (reach : TimedReach recordCodec sign replicaId now late st) :
    (∀ stamp ∈ st.stamps, stamp.2 ≤ now) ∧ (InTimeOrder st.stamps ↔ late = false) := by
  induction reach with
  | start =>
    refine ⟨by simp [Node.stamps, Node.initial, LogPhase.stamp, BeatPhase.stamp], ?_⟩
    simp [InTimeOrder, Node.stamps, Node.initial, LogPhase.stamp, BeatPhase.stamp]
  | @next now now' late late' st event st' _ step living forward time flag ih =>
    obtain ⟨past, order⟩ := ih
    have pastNow : ∀ stamp ∈ st.stamps, stamp.2 ≤ now' := fun stamp member => (past stamp member).trans forward
    rcases step.stamps_cases living with ⟨sn, ts, clock, reads, stamps⟩ | ⟨reads, stamps⟩
    · obtain rfl := time ts clock
      have lateRead : st.ReadsLate st' ts ↔ ∃ stamp ∈ st.stamps, sn < stamp.1 ∧ stamp.2 < ts := by
        simp [Node.ReadsLate, reads]
      refine ⟨fun stamp member => ?_, ?_⟩
      · rcases List.mem_cons.mp (stamps.mem_iff.mp member) with rfl | old
        · exact le_rfl
        · exact pastNow stamp old
      · have extended : InTimeOrder st'.stamps ↔ InTimeOrder ((sn, ts) :: st.stamps) :=
          ⟨fun ordered => ordered.perm stamps.symm, fun ordered => ordered.perm stamps⟩
        rw [extended, inTimeOrder_cons pastNow, ← lateRead, order, ← Bool.not_eq_true, ← Bool.not_eq_true, flag,
          not_or]
    · have onTime : ¬ st.ReadsLate st' now' := by simp [Node.ReadsLate, reads]
      refine ⟨fun stamp member => pastNow stamp (stamps.mem_iff.mp member), ?_⟩
      have kept : InTimeOrder st'.stamps ↔ InTimeOrder st.stamps :=
        ⟨fun ordered => ordered.perm stamps.symm, fun ordered => ordered.perm stamps⟩
      rw [kept, order, ← Bool.not_eq_true, ← Bool.not_eq_true, flag]
      simp [onTime]

/-- A step that does not read the clock. -/
theorem TimedReach.work (reach : TimedReach recordCodec sign replicaId now late st)
    (step : NodeStep recordCodec sign replicaId st event st') (living : event ≠ .restart)
    (noClock : ∀ ts, event ≠ .clock ts) : TimedReach recordCodec sign replicaId now late st' := by
  rcases step.stamps_cases living with ⟨_, ts, clock, _⟩ | ⟨reads, _⟩
  · exact absurd clock (noClock ts)
  · exact reach.next step living le_rfl (fun ts clock => absurd clock (noClock ts))
      (by simp [Node.ReadsLate, reads])

/-- A step that reads the clock before any later number has been stamped. -/
theorem TimedReach.read {ts : Timestamp} (reach : TimedReach recordCodec sign replicaId now late st)
    (step : NodeStep recordCodec sign replicaId st (.clock ts) st') (forward : now ≤ ts)
    (inTime : ¬ st.ReadsLate st' ts) : TimedReach recordCodec sign replicaId ts late st' :=
  reach.next step (by simp) forward (fun _ clock => (NodeEvent.clock.inj clock).symm) (by simp [inTime])

end Stamps

section Client

variable {verifyStrict : VerifyStrict} {replicas : HashMap ReplicaId Replica} {s s' : ClientState}
  {d' : Option ReplicaId} {votes signed : List Vote} {vote : Vote} {r : ReplicaId}

theorem lt_of_map_eq_range {A : Type} {f : A → Nat} {l : List A} {a b : A} {k : Nat}
    (numbers : (l ++ [a]).map f = List.range k) (member : b ∈ l) : f b < f a := by
  have length := congrArg List.length numbers
  rw [List.length_map, List.length_append, List.length_singleton, List.length_range] at length
  rw [← length, List.range_succ, List.map_append, List.map_cons, List.map_nil] at numbers
  obtain ⟨earlier, last⟩ := List.append_inj' numbers rfl
  have below : f b ∈ List.range l.length := earlier ▸ List.mem_map_of_mem member
  rw [List.mem_range] at below
  rw [List.singleton_inj.mp last]
  exact below

/-- The client processes a replica's votes in the order of their numbers, so it drops
none of them as stale if this is the order of their timestamps. -/
theorem FeedInv.not_stale {m : Timestamp} (after : FeedInv verifyStrict replicas votes s' d')
    (applied : Applied s) (called : s'.calls = s.calls ++ [(r, vote)])
    (honest : ∀ v ∈ votes, v.replicaId = r → Verified verifyStrict replicas v → v ∈ signed)
    (ordered : ∀ v ∈ signed, ∀ w ∈ signed, v.sequenceNumber < w.sequenceNumber → v.timestamp ≤ w.timestamp)
    (known : s.mrt.lookup r = some m) : m ≤ vote.timestamp := by
  have calls : s'.callsOf r = s.callsOf r ++ [vote] := by
    simp [ClientState.callsOf, called]
  obtain ⟨numbers, arrived⟩ := calls_of_tracks (after.draining r).1
  rw [calls] at numbers arrived
  have produced : ∀ v ∈ s.callsOf r ++ [vote], v ∈ signed := by
    intro v member
    obtain ⟨inVotes, own, verified⟩ := mem_laneVotes.mp (arrived v member)
    exact honest v inVotes own verified
  rcases (applied.mrt r m known).1 with rfl | ⟨v, inCalls, rfl⟩
  · exact Word.zero_le _
  · have earlier := mem_callsOf.mpr inCalls
    have smaller := lt_of_map_eq_range numbers earlier
    exact ordered v (produced v (List.mem_append_left _ earlier)) vote
      (produced vote (List.mem_append_right _ (List.mem_singleton_self _)))
      (UInt64.lt_iff_toNat_lt.mpr smaller)

end Client

section Order

/-- The votes signed in one life are in time order exactly if no clock was read late,
and then no client drops one of them as stale. -/
theorem sequence_order_is_time_order (recordCodec : Codec VoteRecord) (sign : List UInt8 → Signature)
    (replicaId : ReplicaId) (now : Timestamp) (late : Bool) (st : Node)
    (reach : TimedReach recordCodec sign replicaId now late st) :
    (late = false → ∀ v ∈ st.own, ∀ w ∈ st.own, v.sequenceNumber < w.sequenceNumber →
      v.timestamp ≤ w.timestamp) ∧
    (st.Idle → (∀ v ∈ st.own, ∀ w ∈ st.own, v.sequenceNumber < w.sequenceNumber →
      v.timestamp ≤ w.timestamp) → late = false) ∧
    (late = false → ∀ (verifyStrict : VerifyStrict) (replicasList : List Replica) (earlier later : List Vote)
      (s s' : ClientState) (d d' : Option ReplicaId) (vote : Vote) (m : Timestamp),
      (earlier ++ later).length < 2 ^ 64 →
      (∀ v ∈ earlier ++ later, v.replicaId = replicaId →
        Verified verifyStrict (initPodNetworkClient replicasList).1 v → v ∈ st.own) →
      ClientFeed verifyStrict (initPodNetworkClient replicasList).1
        ((initPodNetworkClient replicasList).2, none) earlier (s, d) →
      ClientFeed verifyStrict (initPodNetworkClient replicasList).1 (s, d) later (s', d') →
      s'.calls = s.calls ++ [(replicaId, vote)] → s.mrt.lookup replicaId = some m →
      m ≤ vote.timestamp) := by
  obtain ⟨_, order⟩ := reach.order_iff
  have votes : late = false → ∀ v ∈ st.own, ∀ w ∈ st.own, v.sequenceNumber < w.sequenceNumber →
      v.timestamp ≤ w.timestamp := by
    intro onTime v inV w inW
    have ordered := order.mpr onTime
    exact ordered v.stamp (List.mem_append_left _ (List.mem_map_of_mem inV)) w.stamp
      (List.mem_append_left _ (List.mem_map_of_mem inW))
  refine ⟨votes, ?_, ?_⟩
  · intro idle ordered
    refine order.mp ?_
    have stamps : st.stamps = st.own.map Vote.stamp := by
      simp [Node.stamps, idle.1, idle.2, LogPhase.stamp, BeatPhase.stamp]
    rw [stamps]
    intro a inA b inB
    obtain ⟨v, inV, rfl⟩ := List.mem_map.mp inA
    obtain ⟨w, inW, rfl⟩ := List.mem_map.mp inB
    exact ordered v inV w inW
  · intro onTime verifyStrict replicasList earlier later s s' d d' vote m short honest before after called known
    have applied := before.run.applied (init_applied replicasList)
    exact ((before.trans after).feedInv short).not_stale applied called honest (votes onTime) known

/-- The log service stamps its number 0 before the heartbeat service stamps its
number 1. -/
theorem timely_reach (recordCodec : Codec VoteRecord) (sign : List UInt8 → Signature) (replicaId : ReplicaId) :
    ∃ st, TimedReach recordCodec sign replicaId 6 false st ∧
      st.own = [signedVote sign replicaId [65] 5 0, signedVote sign replicaId heartbeatData 6 1] := by
  have base : TimedReach recordCodec sign replicaId 0 false .initial := .start
  have drawn := base.work (.receive ⟨[65]⟩ rfl (by decide)) (by simp) (by simp)
  have read := drawn.read (.readClock 5 rfl) (by decide)
    (by simp [Node.ReadsLate, Node.stamps, Node.initial, Node.fetchAdd, LogPhase.stamp, BeatPhase.stamp])
  have signed := read.work (.sign rfl rfl) (by simp) (by simp)
  have ticked := signed.work (.tick rfl) (by simp) (by simp)
  have beat := ticked.read (.beatClock 6 rfl) (by decide)
    (by
      rintro ⟨sn, reads, stamp, member, larger, _⟩
      simp [Node.stamps, Node.fetchAdd, Node.initial, LogPhase.stamp, BeatPhase.stamp, Vote.stamp,
        signedVote] at member
      cases Option.some.inj (show some (0 + 1) = some sn from reads)
      subst member
      exact absurd larger (by decide))
  have both := beat.work (.beatSign rfl rfl) (by simp) (by simp)
  exact ⟨_, both, rfl⟩

theorem sequence_order_is_time_order_timely :
    let key : VerifyingKey := Vector.replicate 32 3
    ∃ st, TimedReach voteRecordCodec (standInSign key) 7 6 false st ∧
      st.own = [signedVote (standInSign key) 7 [65] 5 0, signedVote (standInSign key) 7 heartbeatData 6 1] ∧
      (∀ v ∈ st.own, ∀ w ∈ st.own, v.sequenceNumber < w.sequenceNumber → v.timestamp ≤ w.timestamp) ∧
      ∀ (s s' : ClientState) (d d' : Option ReplicaId) (vote : Vote) (m : Timestamp),
        ClientFeed standInVerify (initPodNetworkClient [⟨7, key⟩]).1
          ((initPodNetworkClient [⟨7, key⟩]).2, none) st.own (s, d) →
        ClientFeed standInVerify (initPodNetworkClient [⟨7, key⟩]).1 (s, d) [] (s', d') →
        s'.calls = s.calls ++ [(7, vote)] → s.mrt.lookup 7 = some m → m ≤ vote.timestamp := by
  intro key
  obtain ⟨st, reach, own⟩ := timely_reach voteRecordCodec (standInSign key) 7
  obtain ⟨votes, _, client⟩ := sequence_order_is_time_order voteRecordCodec (standInSign key) 7 6 false st reach
  refine ⟨st, reach, own, votes rfl, fun s s' d d' vote m before after => ?_⟩
  refine client rfl standInVerify [⟨7, key⟩] st.own [] s s' d d' vote m ?_ ?_ before after
  · rw [own, List.append_nil]
    decide
  · exact fun v member _ _ => by simpa using member

/-- The heartbeat service holds the number 0 while the log service draws the number 1
and reads round 5; then it reads round 6. -/
theorem overtaken_number_reach (recordCodec : Codec VoteRecord) (sign : List UInt8 → Signature)
    (replicaId : ReplicaId) :
    ∃ st, TimedReach recordCodec sign replicaId 6 true st ∧
      st.own = [signedVote sign replicaId [65] 5 1, signedVote sign replicaId heartbeatData 6 0] := by
  have base : TimedReach recordCodec sign replicaId 0 false .initial := .start
  have ticked := base.work (.tick rfl) (by simp) (by simp)
  have drawn := ticked.work (.receive ⟨[65]⟩ rfl (by decide)) (by simp) (by simp)
  have read := drawn.read (.readClock 5 rfl) (by decide)
    (by simp [Node.ReadsLate, Node.stamps, Node.initial, Node.fetchAdd, LogPhase.stamp, BeatPhase.stamp])
  have signed := read.work (.sign rfl rfl) (by simp) (by simp)
  have late := signed.next (.beatClock 6 rfl) (by simp) (by decide)
    (fun _ clock => (NodeEvent.clock.inj clock).symm)
    (show true = true ↔ false = true ∨ _ from ⟨fun _ => Or.inr ⟨0, rfl, (1, 5), List.mem_singleton_self _,
      by decide, by decide⟩, fun _ => rfl⟩)
  have both := late.work (.beatSign rfl rfl) (by simp) (by simp)
  exact ⟨_, both, rfl⟩

/-- An overtaken number gets the later round, and the client then drops the vote that
overtook it. -/
theorem overtaken_number_reverses_time :
    let key : VerifyingKey := Vector.replicate 32 3
    let vote := signedVote (standInSign key) 7 [65] 5 1
    let beat := signedVote (standInSign key) 7 heartbeatData 6 0
    ∃ st, TimedReach voteRecordCodec (standInSign key) 7 6 true st ∧ vote ∈ st.own ∧ beat ∈ st.own ∧
      beat.sequenceNumber < vote.sequenceNumber ∧ ¬ beat.timestamp ≤ vote.timestamp ∧
      ∃ s, startPodDataUpdater standInVerify (initPodNetworkClient [⟨7, key⟩]).1 [beat, vote]
          (initPodNetworkClient [⟨7, key⟩]).2 = .ok s ∧ s.nextsn.lookup 7 = some 2 ∧
        s.stamp ⟨[65]⟩ 7 = none := by
  intro key vote beat
  obtain ⟨st, reach, own⟩ := overtaken_number_reach voteRecordCodec (standInSign key) 7
  obtain ⟨s, run, outcome⟩ := exists_ok_of_any
    (p := fun s => s.nextsn.lookup 7 == some 2 && s.stamp ⟨[65]⟩ 7 == none) (show
      (startPodDataUpdater standInVerify (initPodNetworkClient [⟨7, key⟩]).1 [beat, vote]
        (initPodNetworkClient [⟨7, key⟩]).2).toOption.any _ = true by decide +kernel)
  rw [Bool.and_eq_true, beq_iff_eq, beq_iff_eq] at outcome
  exact ⟨st, reach, by simp [own, vote], by simp [own, beat], by decide, by decide, s, run, outcome⟩

end Order

end Podnet
