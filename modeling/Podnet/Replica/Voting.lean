import Podnet.Replica.Schema

namespace Podnet

/-- The longest message that the WebSocket library hands out. -/
def maxMessageSize : Nat := 64 * 2 ^ 20

/-- What `start_log_vote_service` writes to the log for a vote. -/
def Vote.record (vote : Vote) : VoteRecord :=
  ⟨vote.transaction, vote.timestamp, vote.sequenceNumber, vote.signature⟩

/-- The two tasks of a replica that sign votes. -/
inductive VotingService where
  | logVote
  | heartbeat
  deriving DecidableEq, Repr

/-- `start_log_vote_service` inside one iteration. While a record is appended,
`left` holds the bytes that have not reached the file. -/
inductive LogPhase where
  | idle
  | numbered (tx : Transaction) (sn : SequenceNumber)
  | stamped (tx : Transaction) (sn : SequenceNumber) (ts : Timestamp)
  | appending (vote : Vote) (left : List UInt8)
  deriving DecidableEq, Repr

/-- `start_heartbeat_service` inside one iteration. -/
inductive BeatPhase where
  | idle
  | numbered (sn : SequenceNumber)
  | stamped (sn : SequenceNumber) (ts : Timestamp)
  | signed (vote : Vote)
  deriving DecidableEq, Repr

/-- A replica with its log file. `sent` lists what the broadcast channel was
given since the process started. No step reads the last three fields: how many
numbers were drawn and which votes were signed in this life of the process, and
which votes were signed in earlier lives. -/
structure Node where
  nextsn : SequenceNumber
  log : LogPhase
  beat : BeatPhase
  file : List UInt8
  sent : List (VotingService × Vote)
  drawn : Nat
  own : List Vote
  earlier : List Vote

def Node.initial : Node := ⟨0, .idle, .idle, [], [], 0, [], []⟩

/-- `nextsn.fetch_add(1)`, which wraps. -/
def Node.fetchAdd (st : Node) : Node :=
  { st with nextsn := st.nextsn + 1, drawn := st.drawn + 1 }

/-- The process stops and `init_pod_network_node` runs again: the counter and
the channels are new, and the log is opened in append mode. -/
def Node.restart (st : Node) : Node :=
  { Node.initial with file := st.file, earlier := st.earlier ++ st.own }

def Node.signed (st : Node) : List Vote := st.earlier ++ st.own

inductive NodeEvent where
  | draw
  | clock (ts : Timestamp)
  | work
  | appendError
  | restart
  deriving DecidableEq, Repr

section Steps

variable (recordCodec : Codec VoteRecord) (sign : List UInt8 → Signature) (replicaId : ReplicaId)

/-- One atomic step of a replica. The services share the counter and the
broadcast channel and are otherwise independent. -/
inductive NodeStep : Node → NodeEvent → Node → Prop
  | receive {st} (tx : Transaction) : st.log = .idle → tx.data.length ≤ maxMessageSize →
      NodeStep st .draw { st.fetchAdd with log := .numbered tx st.nextsn }
  | readClock {st tx sn} (ts : Timestamp) : st.log = .numbered tx sn →
      NodeStep st (.clock ts) { st with log := .stamped tx sn ts }
  | sign {st tx sn ts vote} : st.log = .stamped tx sn ts →
      vote = signedVote sign replicaId tx.data ts sn →
      NodeStep st .work
        { st with log := .appending vote (logEntry recordCodec vote.record), own := st.own ++ [vote] }
  | write {st vote chunk left} : st.log = .appending vote (chunk ++ left) →
      NodeStep st .work { st with log := .appending vote left, file := st.file ++ chunk }
  | appendError {st vote left} : st.log = .appending vote left →
      NodeStep st .appendError { st with log := .idle }
  | broadcast {st vote} : st.log = .appending vote [] →
      NodeStep st .work { st with log := .idle, sent := st.sent ++ [(.logVote, vote)] }
  | tick {st} : st.beat = .idle →
      NodeStep st .draw { st.fetchAdd with beat := .numbered st.nextsn }
  | beatClock {st sn} (ts : Timestamp) : st.beat = .numbered sn →
      NodeStep st (.clock ts) { st with beat := .stamped sn ts }
  | beatSign {st sn ts vote} : st.beat = .stamped sn ts →
      vote = signedVote sign replicaId heartbeatData ts sn →
      NodeStep st .work { st with beat := .signed vote, own := st.own ++ [vote] }
  | beatBroadcast {st vote} : st.beat = .signed vote →
      NodeStep st .work { st with beat := .idle, sent := st.sent ++ [(.heartbeat, vote)] }
  | restart {st} : NodeStep st .restart st.restart

/-- The states of a replica after runs whose steps are all allowed. -/
inductive NodeReach (allowed : Node → NodeEvent → Prop) : Node → Prop
  | start : NodeReach allowed .initial
  | next {st event st'} : NodeReach allowed st → allowed st event →
      NodeStep recordCodec sign replicaId st event st' → NodeReach allowed st'

end Steps

/-- The number a service has drawn and not yet signed. -/
def LogPhase.number : LogPhase → List SequenceNumber
  | numbered _ sn | stamped _ sn _ => [sn]
  | _ => []

def BeatPhase.number : BeatPhase → List SequenceNumber
  | numbered sn | stamped sn _ => [sn]
  | _ => []

/-- The numbers of this life, signed or still in hand. -/
def Node.numbers (st : Node) : List SequenceNumber :=
  st.own.map Vote.sequenceNumber ++ (st.log.number ++ st.beat.number)

section Numbers

variable {recordCodec : Codec VoteRecord} {sign : List UInt8 → Signature} {replicaId : ReplicaId}
  {st st' : Node} {event : NodeEvent} {allowed : Node → NodeEvent → Prop}

/-- Everything a step can do to the numbers: draw the next one, begin a new
life, or keep them while one of them may pass from hand to hand. -/
theorem NodeStep.numbers_cases (step : NodeStep recordCodec sign replicaId st event st') :
    (event = .draw ∧ st'.numbers.Perm (st.numbers ++ [st.nextsn]) ∧ st'.nextsn = st.nextsn + 1 ∧
      st'.drawn = st.drawn + 1 ∧ st'.earlier = st.earlier) ∨
    (event = .restart ∧ st' = st.restart) ∨
    (st'.numbers.Perm st.numbers ∧ st'.nextsn = st.nextsn ∧ st'.drawn = st.drawn ∧
      st'.earlier = st.earlier) := by
  cases step with
  | receive tx idle _ =>
    refine Or.inl ⟨rfl, ?_, rfl, rfl, rfl⟩
    simp only [Node.numbers, idle, LogPhase.number, Node.fetchAdd, List.nil_append, List.append_assoc]
    exact List.perm_append_comm.append_left _
  | tick idle =>
    refine Or.inl ⟨rfl, ?_, rfl, rfl, rfl⟩
    simp only [Node.numbers, idle, BeatPhase.number, Node.fetchAdd, List.append_nil, List.append_assoc]
    exact .refl _
  | restart => exact Or.inr (Or.inl ⟨rfl, rfl⟩)
  | sign phase made =>
    subst made
    refine Or.inr (Or.inr ⟨?_, rfl, rfl, rfl⟩)
    simp [Node.numbers, phase, LogPhase.number, signedVote]
  | beatSign phase made =>
    subst made
    refine Or.inr (Or.inr ⟨?_, rfl, rfl, rfl⟩)
    simp only [Node.numbers, phase, BeatPhase.number, List.map_append, List.map_cons, List.map_nil, signedVote,
      List.append_nil, List.append_assoc]
    exact List.perm_append_comm.append_left _
  | readClock ts phase | write phase | appendError phase | broadcast phase | beatClock ts phase
  | beatBroadcast phase =>
    refine Or.inr (Or.inr ⟨?_, rfl, rfl, rfl⟩)
    simp [Node.numbers, phase, LogPhase.number, BeatPhase.number]

/-- Within a life every drawn number is in exactly one place, and the numbers
are those of the counter, taken modulo the word size. -/
structure Counted (st : Node) : Prop where
  counter : st.nextsn = UInt64.ofNat st.drawn
  numbers : st.numbers.Perm ((List.range st.drawn).map UInt64.ofNat)

theorem Counted.initial : Counted .initial := ⟨rfl, .refl _⟩

theorem Counted.step (counted : Counted st) (step : NodeStep recordCodec sign replicaId st event st') :
    Counted st' := by
  rcases step.numbers_cases with ⟨_, drawn, counter, count, _⟩ | ⟨_, rfl⟩ | ⟨kept, counter, count, _⟩
  · refine ⟨?_, ?_⟩
    · rw [counter, count, counted.counter]
      simp
    · rw [count, List.range_succ, List.map_append, List.map_cons, List.map_nil, ← counted.counter]
      exact drawn.trans (counted.numbers.append_right _)
  · exact ⟨rfl, .refl _⟩
  · exact ⟨by rw [counter, count, counted.counter], by rw [count]; exact kept.trans counted.numbers⟩

theorem NodeReach.counted (reach : NodeReach recordCodec sign replicaId allowed st) : Counted st := by
  induction reach with
  | start => exact .initial
  | next _ _ step ih => exact ih.step step

/-- The counter shows no number twice before it wraps. -/
theorem nodup_drawn {drawn : Nat} (bound : drawn ≤ 2 ^ 64) :
    ((List.range drawn).map UInt64.ofNat).Nodup := by
  refine List.Nodup.of_map UInt64.toNat ?_
  rw [Word.map_toNat_range bound]
  exact List.nodup_range

theorem Counted.nodup (counted : Counted st) (bound : st.drawn ≤ 2 ^ 64) : st.numbers.Nodup :=
  counted.numbers.nodup_iff.mpr (nodup_drawn bound)

end Numbers

section Equivocation

/-- The counter shows a number that no vote of an earlier life carries, and it
has not wrapped in this life. -/
def Node.Fresh (st : Node) : Prop :=
  st.drawn < 2 ^ 64 ∧ ∀ vote ∈ st.earlier, vote.sequenceNumber ≠ st.nextsn

/-- Runs in which every number is fresh when it is drawn. -/
def DrawsFresh (st : Node) (event : NodeEvent) : Prop := event = .draw → st.Fresh

variable {recordCodec : Codec VoteRecord} {sign : List UInt8 → Signature} {replicaId : ReplicaId}
  {st st' : Node} {event : NodeEvent}

/-- Lives do not share numbers. -/
structure Apart (st : Node) : Prop where
  bound : st.drawn ≤ 2 ^ 64
  past : (st.earlier.map Vote.sequenceNumber).Nodup
  present : ∀ vote ∈ st.earlier, vote.sequenceNumber ∉ st.numbers

theorem Apart.signed_nodup (apart : Apart st) (counted : Counted st) :
    (st.signed.map Vote.sequenceNumber).Nodup := by
  have own := (List.nodup_append.mp (counted.nodup apart.bound)).1
  rw [Node.signed, List.map_append]
  refine apart.past.append own ?_
  intro sn inPast inOwn
  obtain ⟨vote, member, rfl⟩ := List.mem_map.mp inPast
  exact apart.present vote member (List.mem_append_left _ inOwn)

theorem Apart.step (apart : Apart st) (counted : Counted st) (fresh : DrawsFresh st event)
    (step : NodeStep recordCodec sign replicaId st event st') : Apart st' := by
  rcases step.numbers_cases with ⟨draw, drawn, _, count, past⟩ | ⟨_, rfl⟩ | ⟨kept, _, count, past⟩
  · obtain ⟨room, unused⟩ := fresh draw
    refine ⟨by omega, by rw [past]; exact apart.past, ?_⟩
    intro vote member
    rw [past] at member
    rw [drawn.mem_iff, List.mem_append, List.mem_singleton]
    rintro (old | new)
    · exact apart.present vote member old
    · exact unused vote member new
  · exact ⟨Nat.zero_le _, apart.signed_nodup counted, fun _ _ => List.not_mem_nil⟩
  · refine ⟨by rw [count]; exact apart.bound, by rw [past]; exact apart.past, ?_⟩
    intro vote member
    rw [kept.mem_iff]
    exact apart.present vote (past ▸ member)

theorem NodeReach.apart (reach : NodeReach recordCodec sign replicaId DrawsFresh st) : Apart st := by
  induction reach with
  | start => exact ⟨Nat.zero_le _, List.nodup_nil, fun _ member => absurd member List.not_mem_nil⟩
  | next before fresh step ih => exact ih.step before.counted fresh step

/-- A replica that draws fresh numbers only never signs two votes with one
number, in whatever order its services run and however often it restarts. -/
theorem fresh_run_never_equivocates
    (reach : NodeReach recordCodec sign replicaId DrawsFresh st) :
    ∀ v ∈ st.signed, ∀ w ∈ st.signed, v.sequenceNumber = w.sequenceNumber →
      v.transaction = w.transaction ∧ v.timestamp = w.timestamp := by
  intro v memberV w memberW same
  have unique := reach.apart.signed_nodup reach.counted
  have equal : v = w := List.inj_on_of_nodup_map unique memberV memberW same
  exact ⟨by rw [equal], by rw [equal]⟩

/-- The first life draws the number 0 for a transaction and signs a heartbeat
with the number 1; the second life signs a heartbeat with the number 0. -/
theorem fresh_run_never_equivocates_two_lives :
    let key : VerifyingKey := Vector.replicate 32 3
    let beat := signedVote (standInSign key) 7 heartbeatData
    ∃ st, NodeReach voteRecordCodec (standInSign key) 7 DrawsFresh st ∧
      st.signed = [beat 5 1, beat 6 0] ∧
      ∀ v ∈ st.signed, ∀ w ∈ st.signed, v.sequenceNumber = w.sequenceNumber →
        v.transaction = w.transaction ∧ v.timestamp = w.timestamp := by
  intro key beat
  have numbered : NodeReach voteRecordCodec (standInSign key) 7 DrawsFresh _ :=
    .next .start (fun _ => ⟨by decide, by simp [Node.initial]⟩)
      (.receive ⟨[65]⟩ rfl (by simp [maxMessageSize]))
  have ticked := numbered.next (fun _ => ⟨by decide, by simp [Node.fetchAdd, Node.initial]⟩) (.tick rfl)
  have stamped := ticked.next (fun draw => by simp at draw) (.beatClock 5 rfl)
  have signed := stamped.next (fun draw => by simp at draw) (.beatSign rfl rfl)
  have restarted := signed.next (fun draw => by simp at draw) .restart
  have tickedAgain := restarted.next (fun _ => ⟨by decide, by decide⟩) (.tick rfl)
  have stampedAgain := tickedAgain.next (fun draw => by simp at draw) (.beatClock 6 rfl)
  have signedAgain := stampedAgain.next (fun draw => by simp at draw) (.beatSign rfl rfl)
  exact ⟨_, signedAgain, rfl, fresh_run_never_equivocates signedAgain⟩

/-- A vote with the number 0 is logged and broadcast. After a restart on the
same log the counter begins at 0 again and a heartbeat takes the same number. -/
theorem restarted_replica_equivocates :
    let key : VerifyingKey := Vector.replicate 32 3
    let vote := signedVote (standInSign key) 7 [65] 5 0
    let beat := signedVote (standInSign key) 7 heartbeatData 6 0
    ∃ st, NodeReach voteRecordCodec (standInSign key) 7 (fun _ _ => True) st ∧
      st.file = logEntry voteRecordCodec vote.record ∧ vote ∈ st.signed ∧ beat ∈ st.signed ∧
      vote.sequenceNumber = beat.sequenceNumber ∧
      ¬ (vote.transaction = beat.transaction ∧ vote.timestamp = beat.timestamp) := by
  intro key vote beat
  have numbered : NodeReach voteRecordCodec (standInSign key) 7 (fun _ _ => True) _ :=
    .next .start trivial (.receive ⟨[65]⟩ rfl (by simp [maxMessageSize]))
  have stamped := numbered.next trivial (.readClock 5 rfl)
  have signed := stamped.next trivial (.sign rfl rfl)
  have written := signed.next trivial (.write (by rw [List.append_nil]))
  have sent := written.next trivial (.broadcast rfl)
  have restarted := sent.next trivial .restart
  have ticked := restarted.next trivial (.tick rfl)
  have stampedAgain := ticked.next trivial (.beatClock 6 rfl)
  have signedAgain := stampedAgain.next trivial (.beatSign rfl rfl)
  exact ⟨_, signedAgain, rfl, .head _, .tail _ (.head _), rfl, fun same => absurd same.2 (by decide)⟩

end Equivocation

end Podnet
