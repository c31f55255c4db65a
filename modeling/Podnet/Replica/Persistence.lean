import Podnet.Replica.Voting

namespace Podnet

/-- The signed vote that a service has not broadcast yet. -/
def LogPhase.pending : LogPhase → List Vote
  | appending vote _ => [vote]
  | _ => []

def BeatPhase.pending : BeatPhase → List Vote
  | signed vote => [vote]
  | _ => []

/-- The votes of `start_log_vote_service` in a broadcast sequence. -/
def loggedVotes (sent : List (VotingService × Vote)) : List Vote :=
  (sent.filter fun entry => entry.1 = .logVote).map Prod.snd

/-- The bytes of a sequence of complete records. -/
def logBytes (recordCodec : Codec VoteRecord) (votes : List Vote) : List UInt8 :=
  (votes.map fun vote => logEntry recordCodec vote.record).flatten

/-- One life of a replica, without append errors. -/
def Steady (_ : Node) (event : NodeEvent) : Prop := event ≠ .restart ∧ event ≠ .appendError

/-- A vote on a transaction that some client sent. -/
def VotesOnMessage (sign : List UInt8 → Signature) (replicaId : ReplicaId) (vote : Vote) : Prop :=
  ∃ data ts sn, data.length ≤ maxMessageSize ∧ vote = signedVote sign replicaId data ts sn

/-- The transaction a log phase holds unsigned. -/
def LogPhase.unsigned : LogPhase → Option Transaction
  | numbered tx _ | stamped tx _ _ => some tx
  | _ => none

/-- The bytes of a record that have reached the file before its vote was
broadcast. -/
def LogPhase.Written (recordCodec : Codec VoteRecord) (written : List UInt8) : LogPhase → Prop
  | appending vote left => written ++ left = logEntry recordCodec vote.record
  | _ => written = []

/-- Where the signed votes and their records are during a steady run. -/
structure Persisted (recordCodec : Codec VoteRecord) (sign : List UInt8 → Signature)
    (replicaId : ReplicaId) (st : Node) : Prop where
  own : st.own.Perm (st.sent.map Prod.snd ++ (st.log.pending ++ st.beat.pending))
  signed : ∀ vote ∈ st.own, VotesOnMessage sign replicaId vote
  small : ∀ tx, st.log.unsigned = some tx → tx.data.length ≤ maxMessageSize
  file : ∃ written, st.file = logBytes recordCodec (loggedVotes st.sent) ++ written ∧
    st.log.Written recordCodec written

/-- The log file: the records of `past` and of everything broadcast in this life, and
the part of the next record that has been written. -/
def Node.Holds (recordCodec : Codec VoteRecord) (past : List Vote) (st : Node) : Prop :=
  ∃ written, st.file = logBytes recordCodec (past ++ loggedVotes st.sent) ++ written ∧
    st.log.Written recordCodec written

/-- Lives that end between two appends, without append errors. -/
def Orderly (st : Node) (event : NodeEvent) : Prop :=
  event ≠ .appendError ∧ (event = .restart → st.log.pending = [])

/-- Where the signed votes and their records are in a life that found the records of
`past` in its log. -/
structure PersistedAfter (recordCodec : Codec VoteRecord) (sign : List UInt8 → Signature)
    (replicaId : ReplicaId) (past : List Vote) (st : Node) : Prop where
  own : st.own.Perm (st.sent.map Prod.snd ++ (st.log.pending ++ st.beat.pending))
  signed : ∀ vote ∈ past ++ st.own, VotesOnMessage sign replicaId vote
  small : ∀ tx, st.log.unsigned = some tx → tx.data.length ≤ maxMessageSize
  file : st.Holds recordCodec past

section Runs

variable {recordCodec : Codec VoteRecord} {sign : List UInt8 → Signature} {replicaId : ReplicaId}
  {st st' : Node} {event : NodeEvent}

theorem loggedVotes_append (earlier later : List (VotingService × Vote)) :
    loggedVotes (earlier ++ later) = loggedVotes earlier ++ loggedVotes later := by
  simp [loggedVotes]

theorem mem_loggedVotes {sent : List (VotingService × Vote)} {vote : Vote} :
    vote ∈ loggedVotes sent ↔ (.logVote, vote) ∈ sent := by
  rw [loggedVotes, List.mem_map]
  constructor
  · rintro ⟨⟨service, _⟩, inSent, rfl⟩
    obtain ⟨member, own⟩ := List.mem_filter.mp inSent
    cases (show service = .logVote by simpa using own)
    exact member
  · intro member
    exact ⟨_, List.mem_filter.mpr ⟨member, by simp⟩, rfl⟩

/-- What has been broadcast stays broadcast. -/
theorem NodeStep.sent_prefix (step : NodeStep recordCodec sign replicaId st event st')
    (steady : Steady st event) : st.sent <+: st'.sent := by
  cases step with
  | broadcast | beatBroadcast => exact List.prefix_append ..
  | receive | readClock | sign | write | appendError | tick | beatClock | beatSign => exact List.prefix_rfl
  | restart => exact absurd rfl steady.1

/-- A vote moves from the hands of its service to the channel. Votes whose append has
failed stay where they are. -/
theorem own_step {failed : List Vote}
    (own : st.own.Perm (st.sent.map Prod.snd ++ (failed ++ (st.log.pending ++ st.beat.pending))))
    (steady : Steady st event) (step : NodeStep recordCodec sign replicaId st event st') :
    st'.own.Perm (st'.sent.map Prod.snd ++ (failed ++ (st'.log.pending ++ st'.beat.pending))) := by
  cases step with
  | receive tx phase _ | readClock ts phase | write phase | tick phase | beatClock ts phase =>
    simpa [phase, LogPhase.pending, BeatPhase.pending, Node.fetchAdd] using own
  | sign phase _ | broadcast phase | beatSign phase _ | beatBroadcast phase =>
    rw [List.perm_iff_count] at own ⊢
    intro vote
    have count := own vote
    simp only [phase, LogPhase.pending, BeatPhase.pending, List.count_append, List.map_append, List.map_cons,
      List.map_nil, List.count_nil] at count ⊢
    omega
  | appendError phase => exact absurd rfl steady.2
  | restart => exact absurd rfl steady.1

theorem signed_step (signed : ∀ vote ∈ st.own, VotesOnMessage sign replicaId vote)
    (small : ∀ tx, st.log.unsigned = some tx → tx.data.length ≤ maxMessageSize)
    (step : NodeStep recordCodec sign replicaId st event st') :
    ∀ vote ∈ st'.own, VotesOnMessage sign replicaId vote := by
  cases step with
  | sign phase made =>
    intro vote member
    rcases List.mem_append.mp member with old | new
    · exact signed vote old
    · rw [List.mem_singleton.mp new, made]
      exact ⟨_, _, _, small _ (by rw [phase]; rfl), rfl⟩
  | beatSign phase made =>
    intro vote member
    rcases List.mem_append.mp member with old | new
    · exact signed vote old
    · rw [List.mem_singleton.mp new, made]
      exact ⟨_, _, _, by decide, rfl⟩
  | restart => simp [Node.restart, Node.initial]
  | receive | readClock | write | appendError | broadcast | tick | beatClock | beatBroadcast =>
    exact signed

theorem small_step (small : ∀ tx, st.log.unsigned = some tx → tx.data.length ≤ maxMessageSize)
    (step : NodeStep recordCodec sign replicaId st event st') :
    ∀ tx, st'.log.unsigned = some tx → tx.data.length ≤ maxMessageSize := by
  cases step with
  | receive tx phase fits =>
    intro tx' same
    cases Option.some.inj same
    exact fits
  | readClock ts phase =>
    intro tx same
    exact small tx (by rw [phase]; exact same)
  | tick | beatClock | beatSign | beatBroadcast => exact small
  | sign | write | appendError | broadcast | restart => simp [LogPhase.unsigned, Node.restart, Node.initial]

theorem file_step {past : List Vote} (holds : st.Holds recordCodec past) (steady : Steady st event)
    (step : NodeStep recordCodec sign replicaId st event st') : st'.Holds recordCodec past := by
  obtain ⟨written, file, part⟩ := holds
  cases step with
  | receive tx phase _ | readClock ts phase =>
    rw [phase] at part
    exact ⟨written, file, part⟩
  | sign phase made =>
    rw [phase] at part
    cases (show written = [] from part)
    exact ⟨[], file, rfl⟩
  | @write vote chunk left phase =>
    rw [phase] at part
    have bytes : written ++ (chunk ++ left) = logEntry recordCodec vote.record := part
    refine ⟨written ++ chunk, ?_, ?_⟩
    · simp only [file, List.append_assoc]
    · exact (List.append_assoc ..).trans bytes
  | @broadcast vote phase =>
    rw [phase] at part
    have bytes : written ++ [] = logEntry recordCodec vote.record := part
    refine ⟨[], ?_, rfl⟩
    rw [List.append_nil] at bytes
    simp [file, bytes, loggedVotes, logBytes]
  | tick | beatClock | beatSign => exact ⟨written, file, part⟩
  | beatBroadcast phase =>
    refine ⟨written, ?_, part⟩
    simp [file, loggedVotes]
  | appendError phase => exact absurd rfl steady.2
  | restart => exact absurd rfl steady.1

theorem PersistedAfter.step {past : List Vote} (persisted : PersistedAfter recordCodec sign replicaId past st)
    (steady : Steady st event) (step : NodeStep recordCodec sign replicaId st event st') :
    PersistedAfter recordCodec sign replicaId past st' := by
  obtain ⟨signedPast, signed⟩ := List.forall_mem_append.mp persisted.signed
  have own := own_step (show st.own.Perm (_ ++ ([] ++ _)) from persisted.own) steady step
  exact ⟨own,
    List.forall_mem_append.mpr ⟨signedPast, signed_step signed persisted.small step⟩,
    small_step persisted.small step, file_step persisted.file steady step⟩

/-- A life that ends between two appends leaves the records of its broadcast votes
to the next one. -/
theorem PersistedAfter.restart {past : List Vote}
    (persisted : PersistedAfter recordCodec sign replicaId past st) (between : st.log.pending = []) :
    PersistedAfter recordCodec sign replicaId (past ++ loggedVotes st.sent) st.restart := by
  obtain ⟨signedPast, signed⟩ := List.forall_mem_append.mp persisted.signed
  obtain ⟨written, file, part⟩ := persisted.file
  have whole : written = [] := by
    cases phase : st.log with
    | idle | numbered | stamped =>
      rw [phase] at part
      exact part
    | appending vote left => simp [phase, LogPhase.pending] at between
  refine ⟨.refl _, ?_, by simp [Node.restart, Node.initial, LogPhase.unsigned], [], ?_, rfl⟩
  · intro vote member
    rcases List.mem_append.mp member with old | new
    · rcases List.mem_append.mp old with earlier | logged
      · exact signedPast vote earlier
      · refine signed _ (persisted.own.mem_iff.mpr (List.mem_append_left _ ?_))
        exact List.mem_map_of_mem (mem_loggedVotes.mp logged)
    · simp [Node.restart, Node.initial] at new
  · simpa [Node.restart, Node.initial, whole, loggedVotes] using file

theorem PersistedAfter.initial : PersistedAfter recordCodec sign replicaId [] .initial :=
  ⟨.refl _, by simp [Node.initial], by simp [Node.initial, LogPhase.unsigned], [], rfl, rfl⟩

/-- The first life finds an empty log. -/
theorem persistedAfter_nil :
    PersistedAfter recordCodec sign replicaId [] st ↔ Persisted recordCodec sign replicaId st :=
  ⟨fun ⟨own, signed, small, file⟩ => ⟨own, signed, small, file⟩,
    fun ⟨own, signed, small, file⟩ => ⟨own, signed, small, file⟩⟩

theorem NodeReach.persisted (reach : NodeReach recordCodec sign replicaId Steady st) :
    Persisted recordCodec sign replicaId st := by
  rw [← persistedAfter_nil]
  induction reach with
  | start => exact .initial
  | next _ steady step ih => exact ih.step steady step

theorem NodeReach.persistedAfter (reach : NodeReach recordCodec sign replicaId Orderly st) :
    ∃ past, PersistedAfter recordCodec sign replicaId past st := by
  induction reach with
  | start => exact ⟨[], .initial⟩
  | @next st event st' _ orderly step ih =>
    obtain ⟨past, persisted⟩ := ih
    by_cases ends : event = .restart
    · subst ends
      cases step with
      | restart => exact ⟨_, persisted.restart (orderly.2 rfl)⟩
    · exact ⟨past, persisted.step ⟨ends, orderly.1⟩ step⟩

end Runs

section History

variable {recordCodec : Codec VoteRecord} {sign : List UInt8 → Signature} {replicaId : ReplicaId} {st : Node}
  {past : List Vote}

/-- The record of a vote fits the length prefix of the log. -/
theorem VotesOnMessage.short {vote : Vote} (compact : recordCodec.Compact VoteRecord.size)
    (votes : VotesOnMessage sign replicaId vote) : (recordCodec.encode vote.record).length < 2 ^ 32 := by
  obtain ⟨data, ts, sn, small, rfl⟩ := votes
  have size := compact (signedVote sign replicaId data ts sn).record
  simp only [VoteRecord.size, Vote.record, signedVote, Option.elim_some, Vector.length_toList] at size
  simp only [maxMessageSize] at small
  simp only [Vote.record, signedVote]
  omega

/-- The votes whose records are in the log, or on their way there. -/
theorem PersistedAfter.votes_logged {last : List Vote}
    (persisted : PersistedAfter recordCodec sign replicaId past st)
    (pending : ∀ vote ∈ last, vote ∈ st.log.pending) :
    ∀ vote ∈ past ++ loggedVotes st.sent ++ last, VotesOnMessage sign replicaId vote := by
  intro vote member
  refine persisted.signed vote ?_
  rw [List.append_assoc, List.mem_append] at member
  rcases member with earlier | member
  · exact List.mem_append_left _ earlier
  · refine List.mem_append_right _ (persisted.own.mem_iff.mpr ?_)
    rcases List.mem_append.mp member with logged | inLast
    · exact List.mem_append_left _ (List.mem_map_of_mem (mem_loggedVotes.mp logged))
    · exact List.mem_append_right _ (List.mem_append_left _ (pending vote inLast))

theorem Persisted.votes_logged {last : List Vote} (persisted : Persisted recordCodec sign replicaId st)
    (pending : ∀ vote ∈ last, vote ∈ st.log.pending) :
    ∀ vote ∈ loggedVotes st.sent ++ last, VotesOnMessage sign replicaId vote :=
  (persistedAfter_nil.mpr persisted).votes_logged pending

theorem logBytes_eq (votes : List Vote) :
    logBytes recordCodec votes = ((votes.map Vote.record).map (logEntry recordCodec)).flatten := by
  simp [logBytes, Function.comp_def]

theorem historyRecords_logBytes {votes : List Vote} {torn payload : List UInt8}
    (compact : recordCodec.Compact VoteRecord.size)
    (signed : ∀ vote ∈ votes, VotesOnMessage sign replicaId vote) (short : payload.length < 2 ^ 32)
    (part : torn <+: Framing.frame payload) (proper : torn.length < (Framing.frame payload).length) :
    historyRecords recordCodec (logBytes recordCodec votes ++ torn) = votes.map Vote.record := by
  rw [logBytes_eq]
  refine historyRecords_entries ?_ short part proper
  intro record member
  obtain ⟨vote, inVotes, rfl⟩ := List.mem_map.mp member
  exact (signed vote inVotes).short compact

/-- At every moment the log holds the complete records of the votes that its service
has broadcast, possibly that of the vote it is about to broadcast, and possibly the
beginning of one more. -/
theorem PersistedAfter.layout (persisted : PersistedAfter recordCodec sign replicaId past st)
    (compact : recordCodec.Compact VoteRecord.size) :
    ∃ last torn payload, (∀ vote ∈ last, vote ∈ st.log.pending) ∧
      st.file = logBytes recordCodec (past ++ loggedVotes st.sent ++ last) ++ torn ∧
      payload.length < 2 ^ 32 ∧ torn <+: Framing.frame payload ∧
      torn.length < (Framing.frame payload).length := by
  obtain ⟨written, file, part⟩ := persisted.file
  have signed : ∀ vote ∈ past ++ loggedVotes st.sent ++ st.log.pending, VotesOnMessage sign replicaId vote :=
    persisted.votes_logged fun _ member => member
  cases phase : st.log with
  | idle | numbered | stamped =>
    rw [phase] at part
    cases (show written = [] from part)
    exact ⟨[], [], [], by simp, by simpa using file, by norm_num, List.nil_prefix,
      by simp [Framing.length_frame]⟩
  | appending vote left =>
    rw [phase] at part signed
    have bytes : written ++ left = logEntry recordCodec vote.record := part
    have short := (signed vote (by simp [LogPhase.pending])).short compact
    by_cases all : left = []
    · rw [all, List.append_nil] at bytes
      refine ⟨[vote], [], [], by simp [LogPhase.pending], ?_, by norm_num, List.nil_prefix,
        by simp [Framing.length_frame]⟩
      simp [file, bytes, logBytes]
    · have rest := List.length_pos_of_ne_nil all
      have size := congrArg List.length bytes
      rw [List.length_append] at size
      exact ⟨[], written, recordCodec.encode vote.record, by simp, by rw [file, List.append_nil], short,
        ⟨left, bytes⟩, by rw [← logEntry]; omega⟩

/-- Whenever the log is read, it yields the votes that its service has broadcast,
and possibly the one that the service is about to broadcast. -/
theorem PersistedAfter.history (persisted : PersistedAfter recordCodec sign replicaId past st)
    (compact : recordCodec.Compact VoteRecord.size) :
    ∃ last, (∀ vote ∈ last, vote ∈ st.log.pending) ∧
      historyRecords recordCodec st.file = (past ++ loggedVotes st.sent ++ last).map Vote.record := by
  obtain ⟨last, torn, payload, pending, file, short, part, proper⟩ := persisted.layout compact
  refine ⟨last, pending, ?_⟩
  rw [file]
  exact historyRecords_logBytes compact (persisted.votes_logged pending) short part proper

theorem Persisted.history (persisted : Persisted recordCodec sign replicaId st)
    (compact : recordCodec.Compact VoteRecord.size) :
    ∃ last, (∀ vote ∈ last, vote ∈ st.log.pending) ∧
      historyRecords recordCodec st.file = (loggedVotes st.sent ++ last).map Vote.record :=
  (persistedAfter_nil.mpr persisted).history compact

end History

section Idle

variable {recordCodec : Codec VoteRecord} {sign : List UInt8 → Signature} {replicaId : ReplicaId} {st : Node}

/-- Both services are between iterations. -/
def Node.Idle (st : Node) : Prop := st.log = .idle ∧ st.beat = .idle

/-- Between iterations every number drawn so far belongs to a vote that was broadcast
or whose append has failed. -/
theorem Counted.idle_numbers {failed : List Vote} (counted : Counted st) (idle : st.Idle)
    (own : st.own.Perm (st.sent.map Prod.snd ++ (failed ++ (st.log.pending ++ st.beat.pending)))) :
    ((st.sent.map fun entry => entry.2.sequenceNumber) ++ failed.map Vote.sequenceNumber).Perm
      ((List.range st.drawn).map UInt64.ofNat) := by
  obtain ⟨logIdle, beatIdle⟩ := idle
  have numbers := counted.numbers
  simp only [Node.numbers, logIdle, beatIdle, LogPhase.number, BeatPhase.number, List.append_nil] at numbers
  simp only [logIdle, beatIdle, LogPhase.pending, BeatPhase.pending, List.append_nil] at own
  have carried := own.symm.map Vote.sequenceNumber
  rw [List.map_append, List.map_map] at carried
  exact carried.trans numbers

/-- Before the first wrap these are the numbers below the counter. -/
theorem Counted.idle_values {failed : List Vote} (counted : Counted st) (idle : st.Idle)
    (own : st.own.Perm (st.sent.map Prod.snd ++ (failed ++ (st.log.pending ++ st.beat.pending))))
    (bound : st.drawn ≤ 2 ^ 64) :
    ((st.sent.map fun entry => entry.2.sequenceNumber.toNat) ++
      failed.map fun vote => vote.sequenceNumber.toNat).Perm (List.range st.drawn) := by
  have values := (counted.idle_numbers idle own).map UInt64.toNat
  rw [Word.map_toNat_range bound, List.map_append, List.map_map, List.map_map] at values
  exact values

/-- Between iterations every number drawn so far has been broadcast. -/
theorem NodeReach.sent_numbers (reach : NodeReach recordCodec sign replicaId Steady st) (idle : st.Idle) :
    (st.sent.map fun entry => entry.2.sequenceNumber).Perm
      ((List.range st.drawn).map UInt64.ofNat) := by
  have own : st.own.Perm (_ ++ ([] ++ _)) := reach.persisted.own
  simpa using reach.counted.idle_numbers idle own

theorem NodeReach.sent_distinct (reach : NodeReach recordCodec sign replicaId Steady st) (idle : st.Idle)
    (bound : st.drawn < 2 ^ 64) : (st.sent.map fun entry => entry.2.sequenceNumber).Nodup :=
  (reach.sent_numbers idle).nodup_iff.mpr (nodup_drawn bound.le)

theorem NodeReach.sent_below_iff (reach : NodeReach recordCodec sign replicaId Steady st) (idle : st.Idle)
    (bound : st.drawn < 2 ^ 64) (n : Nat) :
    (∃ entry ∈ st.sent, entry.2.sequenceNumber.toNat = n) ↔ n < st.drawn := by
  have own : st.own.Perm (_ ++ ([] ++ _)) := reach.persisted.own
  have values := reach.counted.idle_values idle own bound.le
  rw [List.map_nil, List.append_nil] at values
  rw [← List.mem_range, ← values.mem_iff, List.mem_map]

end Idle

end Podnet
