import Podnet.Funnel
import Podnet.Replica.Connection
import Podnet.Signed

namespace Podnet

open Funnel

/-- What the stream of a client's WebSocket yields: a message, an error, or its end. -/
inductive WsItem where
  | binary (data : List UInt8)
  | close
  | other
  | error
  | ended
  deriving DecidableEq, Repr

/-- The write task of `handle_client_connection`. `items` lists what its stream has
yielded or will yield of what has come in; no step reads it. -/
structure WriteTask where
  unread : List WsItem
  sending : Option Transaction
  running : Bool
  items : List WsItem

def WriteTask.spawned : WriteTask := ⟨[], none, true, []⟩

/-- A replica process: the services, the write tasks of its connections, and the channel
from them to `start_log_vote_service`, whose entries are marked with their task. No step
reads the last three fields: what the service has received from the channel and the votes
that it has signed in this life, and the transactions that write tasks have read in all
lives. -/
structure PodNetworkNode where
  node : Node
  tasks : List WriteTask
  channel : List (Nat × Transaction)
  taken : List (Nat × Transaction)
  voted : List Vote
  heard : List Transaction

def PodNetworkNode.initial : PodNetworkNode := ⟨.initial, [], [], [], [], []⟩

/-- The vote that a step of the log service signs. -/
def Node.votes (st st' : Node) : List Vote :=
  match st.log, st'.log with
  | .stamped _ _ _, .appending vote _ => [vote]
  | _, _ => []

/-- The part of a write task's loop body before the `await` of `send`. -/
def WriteTask.handle (item : WsItem) (t : WriteTask) : WriteTask :=
  match item with
  | .binary data => { t with sending := some ⟨data⟩ }
  | .other => t
  | .close | .error | .ended => { t with running := false }

/-- The messages that the WebSocket library accepts. -/
def WsItem.Fits : WsItem → Prop
  | binary data => data.length ≤ maxMessageSize
  | _ => True

section Steps

variable (recordCodec : Codec VoteRecord) (sign : List UInt8 → Signature) (replicaId : ReplicaId)

/-- One step of the process. A task waits in `send` as long as the channel is full. -/
inductive IntakeStep : PodNetworkNode → NodeEvent → PodNetworkNode → Prop
  | accept {p} : IntakeStep p .work { p with tasks := p.tasks ++ [.spawned] }
  | arrive {p i t} (item : WsItem) : p.tasks[i]? = some t → item.Fits →
      IntakeStep p .work { p with
        tasks := p.tasks.set i { t with unread := t.unread ++ [item], items := t.items ++ [item] } }
  | read {p i t item rest} : p.tasks[i]? = some t → t.running = true → t.sending = none →
      t.unread = item :: rest →
      IntakeStep p .work { p with
        tasks := p.tasks.set i ({ t with unread := rest }.handle item)
        heard := p.heard ++ ({ t with unread := rest }.handle item).sending.toList }
  | send {p i t tx} : p.tasks[i]? = some t → t.sending = some tx → p.channel.length < channelSize →
      IntakeStep p .work { p with
        tasks := p.tasks.set i { t with sending := none }
        channel := p.channel ++ [(i, tx)] }
  | receive {p i tx rest} : p.channel = (i, tx) :: rest → p.node.log = .idle →
      IntakeStep p .draw { p with
        node := { p.node.fetchAdd with log := .numbered tx p.node.nextsn }
        channel := rest
        taken := p.taken ++ [(i, tx)] }
  | node {p event st} : NodeStep recordCodec sign replicaId p.node event st → event ≠ .restart →
      (p.node.log = .idle → st.log = .idle) →
      IntakeStep p event { p with node := st, voted := p.voted ++ p.node.votes st }
  | restart {p} : IntakeStep p .restart
      { PodNetworkNode.initial with node := p.node.restart, heard := p.heard }

/-- The states of a process after runs whose steps are all allowed. -/
inductive IntakeReach (allowed : Node → NodeEvent → Prop) : PodNetworkNode → Prop
  | start : IntakeReach allowed .initial
  | next {p event p'} : IntakeReach allowed p → allowed p.node event →
      IntakeStep recordCodec sign replicaId p event p' → IntakeReach allowed p'

end Steps

/-- The transactions in what a stream yields, up to its end, its first error or the first
close message. -/
def submitted : List WsItem → List Transaction
  | .binary data :: rest => ⟨data⟩ :: submitted rest
  | .other :: rest => submitted rest
  | _ => []

def WsItem.Stops (item : WsItem) : Prop := item = .close ∨ item = .error ∨ item = .ended

/-- What the loop body of a write task makes of an item. -/
def submission : WsItem → Verdict Transaction
  | .binary data => .emit ⟨data⟩
  | .other => .skip
  | _ => .stop

section Entries

variable {α : Type} {i j : Nat} {items rest : List WsItem} {item : WsItem}

/-- The votes for a sequence of transactions, marked like the transactions. -/
theorem entriesOf_zip {taken : List (Nat × Transaction)} {voted : List Vote} {unvoted : List (Option Transaction)}
    (same : voted.map Vote.transaction ++ unvoted = taken.map fun entry => some entry.2) :
    (entriesOf i ((taken.map Prod.fst).zip voted)).map Vote.transaction <+: (entriesOf i taken).map some ∧
      (unvoted = [] →
        (entriesOf i ((taken.map Prod.fst).zip voted)).map Vote.transaction = (entriesOf i taken).map some) := by
  induction taken generalizing voted with
  | nil =>
    obtain ⟨rfl, rfl⟩ : voted = [] ∧ unvoted = [] := by simpa using same
    exact ⟨List.prefix_rfl, fun _ => rfl⟩
  | cons entry taken ih =>
    obtain ⟨j, tx⟩ := entry
    cases voted with
    | nil =>
      refine ⟨by simp [entriesOf], fun none => ?_⟩
      simp [none] at same
    | cons vote voted =>
      simp only [List.map_cons, List.cons_append, List.cons.injEq] at same
      obtain ⟨shorter, all⟩ := ih same.2
      simp only [List.map_cons, List.zip_cons_cons, entriesOf_cons]
      split
      · simp only [List.map_cons, same.1]
        exact ⟨(List.prefix_cons_inj _).mpr shorter, fun none => by rw [all none]⟩
      · exact ⟨shorter, all⟩

theorem submitted_eq (items : List WsItem) : submitted items = emitted submission items := by
  induction items with
  | nil => rfl
  | cons item items ih =>
    cases item with
    | binary data => simp only [submitted, emitted, submission, ih]
    | other => simpa only [submitted, emitted, submission] using ih
    | close | error | ended => rfl

theorem stops_iff : submission item = .stop ↔ item.Stops := by
  cases item <;> simp [submission, WsItem.Stops]

theorem submitted_append (proper : ∀ item ∈ items, ¬ item.Stops) :
    submitted (items ++ rest) = submitted items ++ submitted rest := by
  rw [submitted_eq, submitted_eq, submitted_eq]
  exact emitted_append fun item member stops => proper item member (stops_iff.mp stops)

theorem submitted_stop (stops : item.Stops) : submitted (item :: rest) = [] := by
  rcases stops with rfl | rfl | rfl <;> rfl

end Entries

/-- A write task as the producer of its transactions. -/
def WriteTask.producer (t : WriteTask) : Producer WsItem Transaction :=
  ⟨t.unread, t.sending, if t.running then .reading else .finished, t.items⟩

/-- The write tasks, their channel and the log service. -/
def PodNetworkNode.funnel (p : PodNetworkNode) : State WsItem Transaction :=
  ⟨p.tasks.map WriteTask.producer, p.channel, p.taken⟩

/-- A write task holds messages that the WebSocket library has accepted. -/
structure WriteTask.Small (t : WriteTask) : Prop where
  sending : ∀ tx, t.sending = some tx → tx.data.length ≤ maxMessageSize
  unread : ∀ item ∈ t.unread, item.Fits

/-- Where the transactions of a life are: every task has handed on a prefix of what was
submitted to it, and the log service has signed a vote for everything it has received. -/
structure Intaken (p : PodNetworkNode) : Prop where
  funnel : Inv submission channelSize p.funnel
  tasks : ∀ (i : Nat) (t : WriteTask), p.tasks[i]? = some t → t.Small
  small : ∀ entry ∈ p.channel, entry.2.data.length ≤ maxMessageSize
  voted : p.voted.map Vote.transaction ++ (p.node.log.unsigned.map some).toList =
    p.taken.map fun entry => some entry.2

section Life

variable {recordCodec : Codec VoteRecord} {sign : List UInt8 → Signature} {replicaId : ReplicaId}
  {allowed : Node → NodeEvent → Prop} {p p' : PodNetworkNode} {event : NodeEvent} {st st' : Node}
  {passed : List Transaction} {t t' : WriteTask} {item : WsItem} {rest : List WsItem} {i : Nat}

theorem WriteTask.producer_handle (item : WsItem) (t : WriteTask) (running : t.running = true) :
    (t.handle item).producer = t.producer.handle submission item := by
  cases item <;> simp [WriteTask.handle, WriteTask.producer, Producer.handle, submission, running]

theorem producer_phase : t.producer.phase = .reading ↔ t.running = true := by
  cases running : t.running <;> simp [WriteTask.producer, running]

theorem producer_live : t.producer.phase.Live ↔ t.running = true := by
  cases running : t.running <;> simp [WriteTask.producer, Phase.Live, running]

theorem mem_tasks_set {tasks : List WriteTask} {j : Nat} {u : WriteTask}
    (found : (tasks.set i t')[j]? = some u) : u = t' ∨ tasks[j]? = some u := by
  by_cases same : i = j
  · subst same
    rw [List.getElem?_set] at found
    split at found
    · split at found
      · exact Or.inl (Option.some.inj found).symm
      · simp at found
    · exact Or.inr found
  · rw [List.getElem?_set_ne same] at found
    exact Or.inr found

theorem funnel_producer (known : p.tasks[i]? = some t) : p.funnel.producers[i]? = some t.producer := by
  simp only [PodNetworkNode.funnel, List.getElem?_map, known, Option.map_some]

/-- In one life the steps of the process are steps of its funnel. -/
theorem IntakeStep.funnel (step : IntakeStep recordCodec sign replicaId p event p') (living : event ≠ .restart) :
    p'.funnel = p.funnel ∨ Step submission channelSize p.funnel p'.funnel := by
  cases step with
  | accept =>
    right
    have spawned : Step submission channelSize p.funnel _ := .spawn .reading (Or.inl rfl)
    simp only [PodNetworkNode.funnel, List.map_append, List.map_singleton]
    exact spawned
  | arrive item found _ =>
    right
    have arrived : Step submission channelSize p.funnel _ := .arrive item (funnel_producer found)
    simp only [PodNetworkNode.funnel, List.map_set]
    exact arrived
  | @read i t item rest found running free next =>
    right
    have read : Step submission channelSize p.funnel _ :=
      .read (funnel_producer found) (producer_phase.mpr running) free next
    have same := WriteTask.producer_handle item { t with unread := rest } running
    simp only [PodNetworkNode.funnel, List.map_set, same]
    exact read
  | send found full free =>
    right
    have sent : Step submission channelSize p.funnel _ := .send (funnel_producer found) full free
    simp only [PodNetworkNode.funnel, List.map_set]
    exact sent
  | receive next _ => exact Or.inr (.take next)
  | node => exact Or.inl rfl
  | restart => exact absurd rfl living

/-- Signing is the only step that turns a transaction in hand into a vote. -/
theorem NodeStep.votes_cases (step : NodeStep recordCodec sign replicaId st event st')
    (living : event ≠ .restart) (idle : st.log = .idle → st'.log = .idle) :
    (st.votes st').map Vote.transaction ++ (st'.log.unsigned.map some).toList =
      (st.log.unsigned.map some).toList := by
  cases step with
  | receive tx phase _ => simp at idle; exact absurd phase idle
  | readClock ts phase => simp [Node.votes, phase, LogPhase.unsigned]
  | sign phase made => simp [Node.votes, phase, made, LogPhase.unsigned, signedVote]
  | write phase => simp [Node.votes, phase, LogPhase.unsigned]
  | appendError phase => simp [Node.votes, phase, LogPhase.unsigned]
  | broadcast phase => simp [Node.votes, phase, LogPhase.unsigned]
  | tick | beatClock | beatSign | beatBroadcast =>
    cases phase : st.log <;> simp [Node.votes, phase, LogPhase.unsigned, Node.fetchAdd]
  | restart => exact absurd rfl living

theorem Intaken.initial : Intaken .initial :=
  ⟨.initial, by simp [PodNetworkNode.initial], by simp [PodNetworkNode.initial], rfl⟩

/-- Everything a step of a living process does to the transactions on their way. -/
theorem IntakeStep.intaken (step : IntakeStep recordCodec sign replicaId p event p')
    (intaken : Intaken p) : Intaken p' := by
  by_cases living : event ≠ .restart
  · have funnel : Inv submission channelSize p'.funnel := by
      rcases step.funnel living with same | move
      · rw [same]
        exact intaken.funnel
      · exact intaken.funnel.step move
    obtain ⟨_, tasks, small, voted⟩ := intaken
    have set : ∀ {i : Nat} {t' : WriteTask}, t'.Small → ∀ (j : Nat) (u : WriteTask),
        (p.tasks.set i t')[j]? = some u → u.Small := by
      intro i t' own j u found
      rcases mem_tasks_set found with rfl | old
      · exact own
      · exact tasks j u old
    cases step with
    | accept =>
      refine ⟨funnel, fun i t found => ?_, small, voted⟩
      rw [List.getElem?_append] at found
      split at found
      · exact tasks i t found
      · rw [List.mem_singleton.mp (List.mem_of_getElem? found)]
        exact ⟨by simp [WriteTask.spawned], by simp [WriteTask.spawned]⟩
    | @arrive i t item known fits =>
      refine ⟨funnel, set ⟨(tasks i t known).sending, fun unread member => ?_⟩, small, voted⟩
      rcases List.mem_append.mp member with old | new
      · exact (tasks i t known).unread unread old
      · exact List.mem_singleton.mp new ▸ fits
    | @read i t item rest known running free next =>
      have before := tasks i t known
      have fits := before.unread item (next ▸ List.mem_cons_self)
      have fitsRest : ∀ later ∈ rest, later.Fits :=
        fun later member => before.unread later (next ▸ List.mem_cons_of_mem _ member)
      refine ⟨funnel, set ?_, small, voted⟩
      cases item with
      | binary data =>
        refine ⟨fun tx held => ?_, fitsRest⟩
        cases Option.some.inj held
        exact fits
      | other | close | error | ended => exact ⟨before.sending, fitsRest⟩
    | @send i t tx known full free =>
      refine ⟨funnel, set ⟨by simp, (tasks i t known).unread⟩, fun entry member => ?_, voted⟩
      rcases List.mem_append.mp member with old | new
      · exact small entry old
      · rw [List.mem_singleton.mp new]
        exact (tasks i t known).sending tx full
    | @receive i tx rest next idle =>
      refine ⟨funnel, tasks, fun entry member => small entry (next ▸ List.mem_cons_of_mem _ member), ?_⟩
      have none : p.node.log.unsigned = none := by rw [idle]; rfl
      rw [none] at voted
      simp only [Option.map_none, Option.toList_none, List.append_nil] at voted
      rw [voted, List.map_append]
      rfl
    | @node event st step living idle =>
      refine ⟨funnel, tasks, small, ?_⟩
      rw [List.map_append, List.append_assoc, step.votes_cases living idle]
      exact voted
    | restart => exact absurd rfl living
  · obtain rfl := not_not.mp living
    cases step with
    | node _ living _ => exact absurd rfl living
    | restart => exact ⟨.initial, by simp [PodNetworkNode.initial], by simp [PodNetworkNode.initial], rfl⟩

theorem IntakeReach.intaken (reach : IntakeReach recordCodec sign replicaId allowed p) : Intaken p := by
  induction reach with
  | start => exact .initial
  | next _ _ step ih => exact step.intaken ih

theorem IntakeReach.mono {more : Node → NodeEvent → Prop}
    (reach : IntakeReach recordCodec sign replicaId allowed p)
    (weaker : ∀ st event, allowed st event → more st event) :
    IntakeReach recordCodec sign replicaId more p := by
  induction reach with
  | start => exact .start
  | next _ fresh step ih => exact ih.next (weaker _ _ fresh) step

/-- The services of the process run as a replica does. -/
theorem IntakeStep.nodeStep (step : IntakeStep recordCodec sign replicaId p event p') (intaken : Intaken p) :
    p'.node = p.node ∨ NodeStep recordCodec sign replicaId p.node event p'.node := by
  cases step with
  | accept | arrive | read | send => exact Or.inl rfl
  | @receive i tx rest next idle =>
    have small := intaken.small (i, tx) (next ▸ List.mem_cons_self)
    exact Or.inr (.receive tx idle small)
  | node step _ _ => exact Or.inr step
  | restart => exact Or.inr .restart

theorem IntakeReach.nodeReach (reach : IntakeReach recordCodec sign replicaId allowed p) :
    NodeReach recordCodec sign replicaId allowed p.node := by
  induction reach with
  | start => exact .start
  | next before fresh step ih =>
    rcases step.nodeStep before.intaken with same | step
    · rw [same]
      exact ih
    · exact ih.next fresh step

/-- A vote that the log service has signed is broadcast next, unless its append fails. -/
theorem NodeStep.logged_cases (step : NodeStep recordCodec sign replicaId st event st')
    (living : event ≠ .restart) :
    loggedVotes st'.sent ++ st'.log.pending = loggedVotes st.sent ++ st.log.pending ++ st.votes st' ∨
      (event = .appendError ∧ st.votes st' = [] ∧
        loggedVotes st'.sent ++ st'.log.pending = loggedVotes st.sent) := by
  cases step with
  | receive tx phase _ | readClock ts phase | sign phase made | write phase =>
    exact Or.inl (by simp [Node.votes, phase, LogPhase.pending, Node.fetchAdd])
  | broadcast phase =>
    exact Or.inl (by simp [Node.votes, phase, LogPhase.pending, loggedVotes])
  | appendError phase =>
    exact Or.inr ⟨rfl, by simp [Node.votes, phase], by simp [LogPhase.pending]⟩
  | tick | beatClock | beatSign =>
    left
    cases phase : st.log <;> simp [Node.votes, phase, LogPhase.pending, Node.fetchAdd]
  | beatBroadcast =>
    left
    cases phase : st.log <;> simp [Node.votes, phase, LogPhase.pending, loggedVotes]
  | restart => exact absurd rfl living

/-- The votes that the log service has broadcast or is about to, among those it has signed. -/
theorem IntakeStep.logged (step : IntakeStep recordCodec sign replicaId p event p') :
    ((loggedVotes p.node.sent ++ p.node.log.pending).Sublist p.voted →
      (loggedVotes p'.node.sent ++ p'.node.log.pending).Sublist p'.voted) ∧
    (event ≠ .appendError → loggedVotes p.node.sent ++ p.node.log.pending = p.voted →
      loggedVotes p'.node.sent ++ p'.node.log.pending = p'.voted) := by
  cases step with
  | accept | arrive | read | send => exact ⟨id, fun _ => id⟩
  | receive next idle =>
    have same : ∀ votes : List Vote, votes ++ p.node.log.pending = votes := by
      intro votes
      rw [idle]
      exact List.append_nil votes
    rw [same]
    simp only [LogPhase.pending, List.append_nil]
    exact ⟨id, fun _ => id⟩
  | node step living _ =>
    rcases step.logged_cases living with more | ⟨failed, none, fewer⟩
    · rw [more]
      refine ⟨fun kept => kept.append_right _, fun _ same => ?_⟩
      rw [same]
    · rw [fewer, none, List.append_nil]
      exact ⟨fun kept => (List.sublist_append_left _ _).trans kept, fun succeeds => absurd failed succeeds⟩
  | restart => exact ⟨fun _ => List.Sublist.refl [], fun _ _ => rfl⟩

theorem IntakeReach.logged (reach : IntakeReach recordCodec sign replicaId allowed p) :
    (loggedVotes p.node.sent ++ p.node.log.pending).Sublist p.voted := by
  induction reach with
  | start => exact List.Sublist.refl []
  | next _ _ step ih => exact step.logged.1 ih

theorem IntakeReach.logged_steady (reach : IntakeReach recordCodec sign replicaId Steady p) :
    loggedVotes p.node.sent ++ p.node.log.pending = p.voted := by
  induction reach with
  | start => rfl
  | next _ steady step ih => exact step.logged.2 steady.2 ih

/-- Nothing that a replica signs comes from nowhere: a vote is a heartbeat, or some client
has sent its transaction. -/
structure Heard (p : PodNetworkNode) : Prop where
  sending : ∀ (i : Nat) (t : WriteTask) (tx : Transaction), p.tasks[i]? = some t → t.sending = some tx →
    tx ∈ p.heard
  channel : ∀ entry ∈ p.channel, entry.2 ∈ p.heard
  unsigned : ∀ tx, p.node.log.unsigned = some tx → tx ∈ p.heard
  signed : ∀ vote ∈ p.node.signed, ∀ tx, vote.transaction = some tx →
    tx ∈ p.heard ∨ tx.data = heartbeatData

theorem NodeStep.unsigned_cases (step : NodeStep recordCodec sign replicaId st event st')
    (idle : st.log = .idle → st'.log = .idle) :
    st'.log.unsigned = st.log.unsigned ∨ st'.log.unsigned = none := by
  cases step with
  | receive tx phase _ => simp at idle; exact absurd phase idle
  | readClock ts phase | write phase => exact Or.inl (by simp [phase, LogPhase.unsigned])
  | sign | appendError | broadcast | restart => exact Or.inr rfl
  | tick | beatClock | beatSign | beatBroadcast => exact Or.inl rfl

theorem IntakeStep.heard (step : IntakeStep recordCodec sign replicaId p event p') (heard : Heard p) :
    Heard p' := by
  obtain ⟨sending, channel, unsigned, signed⟩ := heard
  cases step with
  | accept =>
    refine ⟨fun i t tx found full => ?_, channel, unsigned, signed⟩
    rw [List.getElem?_append] at found
    split at found
    · exact sending i t tx found full
    · rw [List.mem_singleton.mp (List.mem_of_getElem? found)] at full
      simp [WriteTask.spawned] at full
  | @arrive i t item known _ =>
    refine ⟨fun j u tx found full => ?_, channel, unsigned, signed⟩
    rcases mem_tasks_set found with rfl | old
    · exact sending i t tx known full
    · exact sending j u tx old full
  | @read i t item rest known running free next =>
    have older : ∀ {tx}, tx ∈ p.heard → tx ∈ p.heard ++ ({ t with unread := rest }.handle item).sending.toList :=
      fun member => List.mem_append_left _ member
    refine ⟨fun j u tx found full => ?_, fun entry member => older (channel entry member),
      fun tx held => older (unsigned tx held), fun vote member tx carried => ?_⟩
    · rcases mem_tasks_set found with rfl | old
      · exact List.mem_append_right _ (by simp [full])
      · exact older (sending j u tx old full)
    · exact (signed vote member tx carried).imp_left older
  | @send i t tx known full _ =>
    refine ⟨fun j u tx' found held => ?_, fun entry member => ?_, unsigned, signed⟩
    · rcases mem_tasks_set found with rfl | old
      · simp at held
      · exact sending j u tx' old held
    · rcases List.mem_append.mp member with old | new
      · exact channel entry old
      · rw [List.mem_singleton.mp new]
        exact sending i t tx known full
  | @receive i tx rest next idle =>
    refine ⟨sending, fun entry member => channel entry (next ▸ List.mem_cons_of_mem _ member), ?_, signed⟩
    intro tx' held
    cases Option.some.inj held
    exact channel (i, tx) (next ▸ List.mem_cons_self)
  | @node event st step _ idle =>
    refine ⟨sending, channel, fun tx held => ?_, fun vote member tx carried => ?_⟩
    · rcases step.unsigned_cases idle with same | none
      · exact unsigned tx (same ▸ held)
      · simp [none] at held
    · rcases step.signed_cases with same | ⟨tx', ts, sn, more, phase⟩ | ⟨ts, sn, more, _⟩
      · exact signed vote (same ▸ member) tx carried
      · rw [more] at member
        rcases List.mem_append.mp member with old | new
        · exact signed vote old tx carried
        · rw [List.mem_singleton.mp new] at carried
          cases Option.some.inj carried
          exact Or.inl (unsigned _ (by rw [phase]; rfl))
      · rw [more] at member
        rcases List.mem_append.mp member with old | new
        · exact signed vote old tx carried
        · rw [List.mem_singleton.mp new] at carried
          cases Option.some.inj carried
          exact Or.inr rfl
  | restart =>
    refine ⟨by simp [PodNetworkNode.initial], by simp [PodNetworkNode.initial],
      by simp [Node.restart, Node.initial, LogPhase.unsigned], fun vote member tx carried => ?_⟩
    refine signed vote ?_ tx carried
    simpa [Node.signed, Node.restart, Node.initial] using member

theorem IntakeReach.heard (reach : IntakeReach recordCodec sign replicaId allowed p) : Heard p := by
  induction reach with
  | start => exact ⟨by simp [PodNetworkNode.initial], by simp [PodNetworkNode.initial],
      by simp [PodNetworkNode.initial, Node.initial, LogPhase.unsigned],
      by simp [PodNetworkNode.initial, Node.signed, Node.initial]⟩
  | next _ _ step ih => exact step.heard ih

/-- A connection has nothing left to do for its client's transactions. -/
structure PodNetworkNode.Drained (p : PodNetworkNode) (t : WriteTask) : Prop where
  channel : p.channel = []
  unsigned : p.node.log.unsigned = none
  sending : t.sending = none
  unread : t.running = true → t.unread = []

/-- The votes of a life, each marked with the connection that its message came from. -/
def PodNetworkNode.source (p : PodNetworkNode) : List (Nat × Vote) := (p.taken.map Prod.fst).zip p.voted

theorem Intaken.source_votes (intaken : Intaken p) : p.source.map Prod.snd = p.voted := by
  have count := congrArg List.length intaken.voted
  simp only [List.length_append, List.length_map] at count
  rw [PodNetworkNode.source, List.map_snd_zip]
  rw [List.length_map]
  omega

theorem Intaken.source_entries (intaken : Intaken p) (known : p.tasks[i]? = some t) :
    (entriesOf i p.source).map Vote.transaction <+: (submitted t.items).map some ∧
      (p.Drained t → (entriesOf i p.source).map Vote.transaction = (submitted t.items).map some) := by
  obtain ⟨votes, all⟩ := entriesOf_zip (i := i) intaken.voted
  obtain ⟨handed, whole⟩ := (intaken.funnel.producers i t.producer (funnel_producer known)).emitted
  have unbroken : t.producer.phase ≠ .broken := by
    cases running : t.running <;> simp [WriteTask.producer, running]
  rw [show emitted submission t.producer.items = submitted t.items from (submitted_eq _).symm] at handed whole
  simp only [PodNetworkNode.funnel, entriesOf_append] at handed whole
  constructor
  · refine votes.trans ((((List.prefix_append _ _).trans (List.prefix_append _ _)).trans handed).map _)
  · intro drained
    have same := whole unbroken fun live => drained.unread (producer_live.mp live)
    rw [drained.channel, show t.producer.holding = none from drained.sending] at same
    rw [PodNetworkNode.source, all (by rw [drained.unsigned]; rfl), ← same]
    simp [entriesOf]

/-- The marks are those of connections that have been accepted. -/
theorem Intaken.source_accepted (intaken : Intaken p) {entry : Nat × Vote} (member : entry ∈ p.source) :
    entry.1 < p.tasks.length := by
  obtain ⟨taken, inTaken, same⟩ := List.mem_map.mp (List.of_mem_zip member).1
  by_contra outside
  have none := intaken.funnel.unspawned entry.1 (by simpa [PodNetworkNode.funnel] using not_lt.mp outside)
  have some_ : taken.2 ∈ entriesOf entry.1 (p.funnel.taken ++ p.funnel.channel) := by
    rw [mem_entriesOf, ← same]
    exact List.mem_append_left _ inTaken
  rw [none] at some_
  exact absurd some_ List.not_mem_nil

/-- Votes that are an interleaving of votes for what the connections have submitted: every
vote belongs to one of the connections, and those of a connection are for its messages, in
their order and one for each. -/
structure Interleaves (p : PodNetworkNode) (votes : List Vote) (source : List (Nat × Vote)) : Prop where
  all : source.map Prod.snd = votes
  accepted : ∀ entry ∈ source, entry.1 < p.tasks.length
  inOrder : ∀ i t, p.tasks[i]? = some t →
    (entriesOf i source).map Vote.transaction <+: (submitted t.items).map some

theorem Intaken.interleaves (intaken : Intaken p) : Interleaves p p.voted p.source :=
  ⟨intaken.source_votes, fun _ member => intaken.source_accepted member,
    fun _ _ known => (intaken.source_entries known).1⟩

/-- Every vote of the log service belongs to one message of one connection, and the votes
of a connection are for its messages, in their order and one for each. An append error is
the only way for such a vote not to be broadcast. -/
theorem submissions_voted_in_order (recordCodec : Codec VoteRecord) (sign : List UInt8 → Signature)
    (replicaId : ReplicaId) (allowed : Node → NodeEvent → Prop) (p : PodNetworkNode)
    (reach : IntakeReach recordCodec sign replicaId allowed p) :
    (∃ source, Interleaves p p.voted source ∧ ∀ i t, p.tasks[i]? = some t → p.Drained t →
      (entriesOf i source).map Vote.transaction = (submitted t.items).map some) ∧
    (loggedVotes p.node.sent ++ p.node.log.pending).Sublist p.voted ∧
    ((∀ st event, allowed st event → Steady st event) →
      loggedVotes p.node.sent ++ p.node.log.pending = p.voted) := by
  have intaken := reach.intaken
  refine ⟨⟨p.source, intaken.interleaves, ?_⟩, reach.logged, fun steady => (reach.mono steady).logged_steady⟩
  exact fun i t known drained => (intaken.source_entries known).2 drained

/-- Two connections, of which the second has sent a message that has been voted on. -/
theorem submissions_voted_in_order_two_connections :
    let key : VerifyingKey := Vector.replicate 32 3
    let vote := signedVote (standInSign key) 7 [65] 5 0
    ∃ p, IntakeReach voteRecordCodec (standInSign key) 7 Steady p ∧ p.voted = [vote] ∧
      p.tasks.map WriteTask.items = [[], [.binary [65]]] ∧
      (∃ source, Interleaves p p.voted source ∧ ∀ i t, p.tasks[i]? = some t → p.Drained t →
        (entriesOf i source).map Vote.transaction = (submitted t.items).map some) ∧
      (loggedVotes p.node.sent ++ p.node.log.pending).Sublist p.voted ∧
      ((∀ st event, Steady st event → Steady st event) →
        loggedVotes p.node.sent ++ p.node.log.pending = p.voted) := by
  intro key vote
  have work : ∀ st, Steady st .work := fun st => ⟨by decide, by decide⟩
  have two : IntakeReach voteRecordCodec (standInSign key) 7 Steady _ :=
    (IntakeReach.start.next (work _) .accept).next (work _) .accept
  have arrived := two.next (work _) (.arrive (i := 1) (.binary [65]) rfl (by simp [WsItem.Fits, maxMessageSize]))
  have read := arrived.next (work _) (.read (i := 1) rfl rfl rfl rfl)
  have sent := read.next (work _) (.send (i := 1) rfl rfl (by decide))
  have received := sent.next ⟨by decide, by decide⟩ (.receive rfl rfl)
  have stamped := received.next ⟨by decide, by decide⟩ (.node (.readClock 5 rfl) (by decide) (by simp))
  have signed := stamped.next (work _) (.node (.sign rfl rfl) (by decide) (by simp))
  exact ⟨_, signed, rfl, rfl, submissions_voted_in_order _ _ _ _ _ signed⟩

end Life

end Podnet
