import Podnet.Replica.Persistence

namespace Podnet

/-- The capacity of the channels between the tasks. -/
def channelSize : Nat := 100

/-- The vote that the catch-up task makes of a record. -/
def VoteRecord.vote (replicaId : ReplicaId) (record : VoteRecord) : Vote :=
  ⟨replicaId, record.ts, record.sn, record.sig, record.tx⟩

/-- One call of `handle_client_connection`: how much had been broadcast when the
connection subscribed and how much of the broadcast its funnel has received, the
vote the funnel is passing on, the records the catch-up task still has to send
(`none` before it has mapped the log), the channel that merges both, and the
messages on their way to the client. -/
structure Connection where
  subscribed : Nat
  received : Nat
  funnel : Option Vote
  history : Option (List Vote)
  channel : List Vote
  wire : List (List UInt8)

/-- The connection at `vote_receiver.resubscribe()`. -/
def Connection.accepted (sent : List (VotingService × Vote)) : Connection :=
  ⟨sent.length, sent.length, none, none, [], []⟩

section Steps

variable (recordCodec : Codec VoteRecord) (wireCodec : Codec Vote) (replicaId : ReplicaId)

/-- One step of a task of the connection. The broadcast receiver does not lag.
The mapped bytes do not change any more, so the catch-up task reads them as they
were at the mapping. -/
inductive ConnectionStep (node : Node) : Connection → Connection → Prop
  | mapLog {c} : c.history = none →
      ConnectionStep node c { c with
        history := some ((historyRecords recordCodec node.file).map (VoteRecord.vote replicaId)) }
  | sendHistory {c vote rest} : c.history = some (vote :: rest) → c.channel.length < channelSize →
      ConnectionStep node c { c with history := some rest, channel := c.channel ++ [vote] }
  | receiveLive {c service vote} : c.funnel = none → node.sent[c.received]? = some (service, vote) →
      ConnectionStep node c { c with received := c.received + 1, funnel := some vote }
  | sendLive {c vote} : c.funnel = some vote → c.channel.length < channelSize →
      ConnectionStep node c { c with funnel := none, channel := c.channel ++ [vote] }
  | forward {c vote rest} : c.channel = vote :: rest →
      ConnectionStep node c { c with
        channel := rest, wire := c.wire ++ [wireCodec.encode { vote with replicaId := replicaId }] }

end Steps

/-- A vote inside the connection that the catch-up task has sent or the funnel
has received. -/
def Connection.Carries (wireCodec : Codec Vote) (c : Connection) (vote : Vote) : Prop :=
  c.funnel = some vote ∨ vote ∈ c.channel ∨ wireCodec.encode vote ∈ c.wire

/-- Every task of the connection has handed on all it had. -/
structure Connection.Drained (node : Node) (c : Connection) : Prop where
  received : c.received = node.sent.length
  funnel : c.funnel = none
  history : c.history = some []
  channel : c.channel = []
  wire : c.wire = []

/-- The votes that a connection which subscribed after `n` broadcasts can send:
those in the log, and the later ones. -/
def Node.sendable (node : Node) (n : Nat) : List Vote :=
  loggedVotes node.sent ++ node.log.pending ++ (node.sent.drop n).map Prod.snd

/-- Nothing is lost and nothing is invented between the replica and the client,
where `gone` are the votes that have reached the client. -/
structure Connection.Relays (wireCodec : Codec Vote) (node : Node) (gone : Vote → Prop)
    (c : Connection) : Prop where
  start : c.subscribed ≤ c.received
  tail : c.received ≤ node.sent.length
  sound : ∀ vote ∈ c.history.getD [] ++ (c.funnel.toList ++ c.channel), vote ∈ node.sendable c.subscribed
  wire : ∀ message ∈ c.wire, ∃ vote ∈ node.sendable c.subscribed, wireCodec.encode vote = message
  live : ∀ vote ∈ ((node.sent.take c.received).drop c.subscribed).map Prod.snd,
    c.Carries wireCodec vote ∨ gone vote
  logged : ∀ rest, c.history = some rest → ∀ vote ∈ loggedVotes (node.sent.take c.subscribed),
    vote ∈ rest ∨ c.Carries wireCodec vote ∨ gone vote

section Relays

variable {recordCodec : Codec VoteRecord} {wireCodec : Codec Vote} {sign : List UInt8 → Signature}
  {replicaId : ReplicaId} {node node' : Node} {event : NodeEvent} {gone : Vote → Prop} {c c' : Connection}

theorem Connection.Relays.accepted :
    (Connection.accepted node.sent).Relays wireCodec node gone := by
  refine ⟨le_rfl, le_rfl, ?_, ?_, ?_, ?_⟩
  · simp [Connection.accepted]
  · simp [Connection.accepted]
  · simp [Connection.accepted]
  · simp [Connection.accepted]

theorem mem_sendable {n : Nat} {vote : Vote} :
    vote ∈ node.sendable n ↔ vote ∈ loggedVotes node.sent ∨ vote ∈ node.log.pending ∨
      vote ∈ (node.sent.drop n).map Prod.snd := by
  rw [Node.sendable, List.mem_append, List.mem_append, or_assoc]

/-- A vote whose record is being appended is broadcast next. -/
theorem NodeStep.pending_step {vote : Vote}
    (step : NodeStep recordCodec sign replicaId node event node') (steady : Steady node event)
    (member : vote ∈ node.log.pending) : vote ∈ node'.log.pending ∨ vote ∈ loggedVotes node'.sent := by
  cases step with
  | receive tx phase _ | readClock ts phase | sign phase _ =>
    simp [phase, LogPhase.pending] at member
  | write phase =>
    rw [phase] at member
    exact Or.inl member
  | broadcast phase =>
    rw [phase] at member
    right
    rw [loggedVotes_append, List.mem_append]
    exact Or.inr (by simpa [loggedVotes, LogPhase.pending] using member)
  | tick | beatClock | beatSign | beatBroadcast => exact Or.inl member
  | appendError => exact absurd rfl steady.2
  | restart => exact absurd rfl steady.1

theorem NodeStep.sendable_mono {n : Nat} {vote : Vote}
    (step : NodeStep recordCodec sign replicaId node event node') (steady : Steady node event)
    (member : vote ∈ node.sendable n) : vote ∈ node'.sendable n := by
  obtain ⟨new, sent⟩ := step.sent_prefix steady
  rw [mem_sendable] at member ⊢
  rcases member with logged | pending | later
  · rw [← sent, loggedVotes_append, List.mem_append]
    exact Or.inl (Or.inl logged)
  · rcases step.pending_step steady pending with still | broadcast
    · exact Or.inr (Or.inl still)
    · exact Or.inl broadcast
  · rw [← sent, List.drop_append, List.map_append, List.mem_append]
    exact Or.inr (Or.inr (Or.inl later))

/-- A step of the replica does not disturb its connections. -/
theorem Connection.Relays.node_step (relays : c.Relays wireCodec node gone)
    (step : NodeStep recordCodec sign replicaId node event node') (steady : Steady node event) :
    c.Relays wireCodec node' gone := by
  obtain ⟨new, sent⟩ := step.sent_prefix steady
  have early := relays.start.trans relays.tail
  refine ⟨relays.start, ?_, ?_, ?_, ?_, ?_⟩
  · rw [← sent, List.length_append]
    exact relays.tail.trans (Nat.le_add_right ..)
  · exact fun vote member => step.sendable_mono steady (relays.sound vote member)
  · intro message member
    obtain ⟨vote, known, encoded⟩ := relays.wire message member
    exact ⟨vote, step.sendable_mono steady known, encoded⟩
  · rw [← sent, List.take_append_of_le_length relays.tail]
    exact relays.live
  · rw [← sent, List.take_append_of_le_length early]
    exact relays.logged

/-- The votes a connection can send are signed by its replica. -/
theorem Persisted.sendable_signed {n : Nat} (persisted : Persisted recordCodec sign replicaId node) :
    ∀ vote ∈ node.sendable n, vote ∈ node.own := by
  intro vote member
  refine persisted.own.mem_iff.mpr ?_
  rw [List.mem_append, List.mem_append]
  rcases mem_sendable.mp member with logged | pending | later
  · exact Or.inl (List.mem_map_of_mem (mem_loggedVotes.mp logged))
  · exact Or.inr (Or.inl pending)
  · obtain ⟨entry, inSent, rfl⟩ := List.mem_map.mp later
    exact Or.inl (List.mem_map_of_mem (List.mem_of_mem_drop inSent))

theorem VotesOnMessage.replicaId_eq {vote : Vote} (votes : VotesOnMessage sign replicaId vote) :
    vote.replicaId = replicaId := by
  obtain ⟨data, ts, sn, _, rfl⟩ := votes
  rfl

/-- The catch-up task restores the votes that were logged. -/
theorem Persisted.history_votes (persisted : Persisted recordCodec sign replicaId node)
    (compact : recordCodec.Compact VoteRecord.size) :
    ∃ last, (∀ vote ∈ last, vote ∈ node.log.pending) ∧
      (historyRecords recordCodec node.file).map (VoteRecord.vote replicaId) =
        loggedVotes node.sent ++ last := by
  obtain ⟨last, pending, records⟩ := persisted.history compact
  refine ⟨last, pending, ?_⟩
  rw [records, List.map_map]
  refine (List.map_congr_left fun vote member => ?_).trans (List.map_id _)
  have signed := persisted.votes_logged pending vote member
  rw [← signed.replicaId_eq]
  rfl

/-- A vote stays in the connection until the client takes it. -/
theorem ConnectionStep.carries {vote : Vote}
    (step : ConnectionStep recordCodec wireCodec replicaId node c c')
    (own : vote.replicaId = replicaId) (carried : c.Carries wireCodec vote) :
    c'.Carries wireCodec vote := by
  rcases carried with inFunnel | inChannel | onWire
  · cases step with
    | mapLog | sendHistory | forward => exact Or.inl inFunnel
    | receiveLive free _ => simp [free] at inFunnel
    | sendLive full _ =>
      cases Option.some.inj (full.symm.trans inFunnel)
      exact Or.inr (Or.inl (by simp))
  · cases step with
    | mapLog | receiveLive => exact Or.inr (Or.inl inChannel)
    | sendHistory | sendLive => exact Or.inr (Or.inl (List.mem_append_left _ inChannel))
    | forward queued =>
      rw [queued, List.mem_cons] at inChannel
      rcases inChannel with rfl | later
      · subst own
        exact Or.inr (Or.inr (by simp))
      · exact Or.inr (Or.inl later)
  · cases step with
    | mapLog | sendHistory | receiveLive | sendLive => exact Or.inr (Or.inr onWire)
    | forward => exact Or.inr (Or.inr (List.mem_append_left _ onWire))

theorem Persisted.sent_replicaId {entry : VotingService × Vote}
    (persisted : Persisted recordCodec sign replicaId node) (member : entry ∈ node.sent) :
    entry.2.replicaId = replicaId :=
  (persisted.signed _ (persisted.own.mem_iff.mpr
    (List.mem_append_left _ (List.mem_map_of_mem member)))).replicaId_eq

theorem sound_step (relays : c.Relays wireCodec node gone)
    (persisted : Persisted recordCodec sign replicaId node)
    (compact : recordCodec.Compact VoteRecord.size)
    (step : ConnectionStep recordCodec wireCodec replicaId node c c') :
    ∀ vote ∈ c'.history.getD [] ++ (c'.funnel.toList ++ c'.channel), vote ∈ node.sendable c.subscribed := by
  have sound := relays.sound
  cases step with
  | mapLog unmapped =>
    obtain ⟨last, pending, votes⟩ := persisted.history_votes compact
    intro vote member
    simp only [votes, Option.getD_some, List.mem_append] at member
    rcases member with (logged | inLast) | inside
    · exact mem_sendable.mpr (Or.inl logged)
    · exact mem_sendable.mpr (Or.inr (Or.inl (pending vote inLast)))
    · exact sound vote (by simpa using Or.inr inside)
  | sendHistory left room =>
    intro vote member
    refine sound vote ?_
    simp only [left, Option.getD_some, List.mem_append, List.mem_cons, List.not_mem_nil, or_false] at member ⊢
    tauto
  | @receiveLive service live free next =>
    intro vote member
    simp only [Option.toList_some, List.mem_append, List.mem_singleton] at member
    rcases member with inHistory | rfl | inChannel
    · exact sound vote (by simp [inHistory])
    · have later : (node.sent.drop c.subscribed)[c.received - c.subscribed]? = some (service, vote) := by
        rw [List.getElem?_drop, Nat.add_sub_cancel' relays.start]
        exact next
      exact mem_sendable.mpr (Or.inr (Or.inr (List.mem_map.mpr ⟨_, List.mem_of_getElem? later, rfl⟩)))
    · exact sound vote (by simp [inChannel])
  | sendLive full room =>
    intro vote member
    refine sound vote ?_
    simp only [full, Option.toList_some, Option.toList_none, List.mem_append, List.mem_cons, List.not_mem_nil,
      or_false, false_or] at member ⊢
    tauto
  | forward queued =>
    intro vote member
    refine sound vote ?_
    simp only [queued, List.mem_append, List.mem_cons] at member ⊢
    tauto

theorem wire_step (relays : c.Relays wireCodec node gone)
    (persisted : Persisted recordCodec sign replicaId node)
    (step : ConnectionStep recordCodec wireCodec replicaId node c c') :
    ∀ message ∈ c'.wire, ∃ vote ∈ node.sendable c.subscribed, wireCodec.encode vote = message := by
  cases step with
  | @forward vote rest queued =>
    intro message member
    rcases List.mem_append.mp member with old | new
    · exact relays.wire message old
    · have known : vote ∈ node.sendable c.subscribed := relays.sound vote (by simp [queued])
      have own := (persisted.signed vote (persisted.sendable_signed vote known)).replicaId_eq
      refine ⟨vote, known, ?_⟩
      rw [List.mem_singleton.mp new, ← own]
  | mapLog | sendHistory | receiveLive | sendLive => exact relays.wire

theorem live_step (relays : c.Relays wireCodec node gone)
    (persisted : Persisted recordCodec sign replicaId node)
    (step : ConnectionStep recordCodec wireCodec replicaId node c c') :
    ∀ vote ∈ ((node.sent.take c'.received).drop c.subscribed).map Prod.snd,
      c'.Carries wireCodec vote ∨ gone vote := by
  have kept : ∀ vote ∈ ((node.sent.take c.received).drop c.subscribed).map Prod.snd,
      c'.Carries wireCodec vote ∨ gone vote := by
    intro vote member
    obtain ⟨entry, inSent, rfl⟩ := List.mem_map.mp member
    have own := persisted.sent_replicaId (List.mem_of_mem_take (List.mem_of_mem_drop inSent))
    exact (relays.live _ member).imp_left (step.carries own)
  cases step with
  | receiveLive free next =>
    intro vote member
    have room : c.subscribed ≤ (node.sent.take c.received).length := by
      rw [List.length_take, Nat.min_eq_left relays.tail]
      exact relays.start
    rw [List.take_add_one, next, Option.toList_some, List.drop_append_of_le_length room, List.map_append,
      List.mem_append] at member
    rcases member with old | new
    · exact kept vote old
    · rw [List.map_singleton, List.mem_singleton] at new
      exact Or.inl (Or.inl (by rw [new]))
  | mapLog | sendHistory | sendLive | forward => exact kept

theorem logged_step (relays : c.Relays wireCodec node gone)
    (persisted : Persisted recordCodec sign replicaId node)
    (compact : recordCodec.Compact VoteRecord.size)
    (step : ConnectionStep recordCodec wireCodec replicaId node c c') :
    ∀ rest, c'.history = some rest → ∀ vote ∈ loggedVotes (node.sent.take c.subscribed),
      vote ∈ rest ∨ c'.Carries wireCodec vote ∨ gone vote := by
  have kept : ∀ rest, c.history = some rest → ∀ vote ∈ loggedVotes (node.sent.take c.subscribed),
      vote ∈ rest ∨ c'.Carries wireCodec vote ∨ gone vote := by
    intro rest mapped vote member
    have own := persisted.sent_replicaId (List.mem_of_mem_take (mem_loggedVotes.mp member))
    exact (relays.logged rest mapped _ member).imp_right (Or.imp_left (step.carries own))
  cases step with
  | mapLog unmapped =>
    intro rest mapped vote member
    obtain ⟨last, _, votes⟩ := persisted.history_votes compact
    cases Option.some.inj mapped
    left
    rw [votes, ← List.take_append_drop c.subscribed node.sent, loggedVotes_append]
    exact List.mem_append_left _ (List.mem_append_left _ member)
  | sendHistory left room =>
    intro rest mapped vote member
    cases Option.some.inj mapped
    rcases kept _ left vote member with inside | outside
    · rcases List.mem_cons.mp inside with rfl | later
      · exact Or.inr (Or.inl (Or.inr (Or.inl (by simp))))
      · exact Or.inl later
    · exact Or.inr outside
  | receiveLive | sendLive | forward => exact kept

/-- Every step of the connection keeps the votes together. -/
theorem Connection.Relays.step (relays : c.Relays wireCodec node gone)
    (persisted : Persisted recordCodec sign replicaId node)
    (compact : recordCodec.Compact VoteRecord.size)
    (step : ConnectionStep recordCodec wireCodec replicaId node c c') :
    c'.Relays wireCodec node gone := by
  have sound := sound_step relays persisted compact step
  have wire := wire_step relays persisted step
  have live := live_step relays persisted step
  have logged := logged_step relays persisted compact step
  cases step with
  | receiveLive free next =>
    have within := (List.getElem?_eq_some_iff.mp next).choose
    exact ⟨relays.start.trans (Nat.le_succ _), within, sound, wire, live, logged⟩
  | mapLog | sendHistory | sendLive | forward =>
    exact ⟨relays.start, relays.tail, sound, wire, live, logged⟩

/-- The client takes the first message and finds the vote that was sent. -/
theorem Connection.Relays.deliver {message : List UInt8} {rest : List (List UInt8)} {vote : Vote}
    (relays : c.Relays wireCodec node gone) (first : c.wire = message :: rest)
    (short : message.length ≤ maxMessageSize) (decoded : wireCodec.merge message = .ok vote) :
    vote ∈ node.sendable c.subscribed ∧
      ({ c with wire := rest } : Connection).Relays wireCodec node (fun v => gone v ∨ v = vote) := by
  have same : ∀ v, wireCodec.encode v = message → v = vote := by
    intro v encoded
    have size : (wireCodec.encode v).length < 2 ^ 32 := by
      rw [encoded]
      exact short.trans_lt (by norm_num [maxMessageSize])
    have merged := wireCodec.merge_encode v size
    rw [encoded, decoded] at merged
    exact (Except.ok.inj merged).symm
  have taken : ∀ v, c.Carries wireCodec v ∨ gone v →
      ({ c with wire := rest } : Connection).Carries wireCodec v ∨ gone v ∨ v = vote := by
    rintro v ((inFunnel | inChannel | onWire) | old)
    · exact Or.inl (Or.inl inFunnel)
    · exact Or.inl (Or.inr (Or.inl inChannel))
    · rw [first, List.mem_cons] at onWire
      rcases onWire with encoded | later
      · exact Or.inr (Or.inr (same v encoded))
      · exact Or.inl (Or.inr (Or.inr later))
    · exact Or.inr (Or.inl old)
  constructor
  · obtain ⟨v, known, encoded⟩ := relays.wire message (by rw [first]; exact List.mem_cons_self)
    rw [← same v encoded]
    exact known
  · refine ⟨relays.start, relays.tail, relays.sound, ?_, ?_, ?_⟩
    · intro other member
      exact relays.wire other (by rw [first]; exact List.mem_cons_of_mem _ member)
    · exact fun v member => taken v (relays.live v member)
    · exact fun left mapped v member => (relays.logged left mapped v member).imp_right (taken v)

theorem Connection.Relays.mono {more : Vote → Prop} (relays : c.Relays wireCodec node gone)
    (grow : ∀ vote, gone vote → more vote) : c.Relays wireCodec node more :=
  ⟨relays.start, relays.tail, relays.sound, relays.wire,
    fun vote member => (relays.live vote member).imp_right (grow vote),
    fun rest mapped vote member =>
      (relays.logged rest mapped vote member).imp_right (Or.imp_right (grow vote))⟩

/-- When the connection is drained, every vote broadcast since the subscription
and every logged vote has reached the client. -/
theorem Connection.Relays.all_gone (relays : c.Relays wireCodec node gone) (drained : c.Drained node)
    {entry : VotingService × Vote} (member : entry ∈ node.sent)
    (sendable : entry.1 = .logVote ∨ entry ∈ node.sent.drop c.subscribed) : gone entry.2 := by
  have empty : ∀ vote, ¬ c.Carries wireCodec vote := by
    rintro vote (inFunnel | inChannel | onWire)
    · simp [drained.funnel] at inFunnel
    · simp [drained.channel] at inChannel
    · simp [drained.wire] at onWire
  have live : entry ∈ node.sent.drop c.subscribed → gone entry.2 := by
    intro later
    have whole : entry ∈ (node.sent.take c.received).drop c.subscribed := by
      rwa [drained.received, List.take_length]
    exact (relays.live _ (List.mem_map_of_mem whole)).resolve_left (empty _)
  rw [← List.take_append_drop c.subscribed node.sent, List.mem_append] at member
  rcases member with before | after
  · rcases sendable with logged | later
    · have inLog : entry.2 ∈ loggedVotes (node.sent.take c.subscribed) :=
        mem_loggedVotes.mpr (logged ▸ before)
      rcases relays.logged [] drained.history _ inLog with none | carried | reached
      · exact absurd none List.not_mem_nil
      · exact absurd carried (empty _)
      · exact reached
    · exact live later
  · exact live after

end Relays

end Podnet
