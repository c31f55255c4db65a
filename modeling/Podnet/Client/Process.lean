import Podnet.Client.Rejects
import Podnet.Client.Writes
import Podnet.EndToEnd
import Podnet.Replica.Intake

namespace Podnet

open Broadcast Funnel

/-- Why a task of `start_replica_comms_service` fails. -/
inductive CommsError where
  | gaveUp
  | connection (e : String)
  | send (e : String)
  | parse (e : String)
  deriving DecidableEq, Repr

/-- The error of a task with its contexts, outermost first. -/
def CommsError.chain (replicaId : ReplicaId) : CommsError → List String
  | gaveUp => ["Failed to connect to replica " ++ toString replicaId,
      "Could not connect to replica after 5 attempts, giving up"]
  | connection e => ["Failed to connect to replica " ++ toString replicaId,
      "Websocket connection error: " ++ e]
  | send e => ["Failed to handle replica connection " ++ toString replicaId,
      "Failed to send message to replica", e]
  | parse e => ["Failed to handle replica connection " ++ toString replicaId,
      "Failed to parse Vote message from replica", e]

/-- A task from `connect_to_replica` through the select loop of `handle_replica_connection`,
with the position of its receiver of write requests. In `forwarding` it waits for the
WebSocket, in `reporting` for the channel to the updater. -/
inductive CommsPhase where
  | connecting (attempts position : Nat)
  | connected (position : Nat)
  | selecting (position : Nat)
  | forwarding (position : Nat) (transaction : Transaction)
  | reporting (position : Nat) (vote : Vote)
  | ended (result : Except CommsError Unit)

/-- The receivers of write requests that a task holds: its argument, and the one that
`handle_replica_connection` makes of it. -/
def CommsPhase.receivers : CommsPhase → Nat
  | connecting _ _ | connected _ => 1
  | selecting _ | forwarding _ _ | reporting _ _ => 2
  | ended _ => 0

def CommsPhase.Open : CommsPhase → Prop
  | connected _ | selecting _ | forwarding _ _ | reporting _ _ => True
  | connecting _ _ | ended _ => False

/-- A task with what has come in on its WebSocket and the transactions it has sent. No step
reads `items`, all that its stream has yielded, and `sent`. -/
structure CommsTask where
  phase : CommsPhase
  unread : List WsItem
  items : List WsItem
  sent : List Transaction

/-- A new task, with a receiver that starts behind what was acknowledged. -/
def CommsTask.spawned (acked : List Transaction) : CommsTask :=
  ⟨.connecting 1 (subscribe acked), [], [], []⟩

/-- `Vote::decode`, which the message library provides, with the text of its error. -/
abbrev DecodeVote := List UInt8 → Except String Vote

/-- The branch of the select loop for an item of the stream. -/
def CommsTask.handle (decode : DecodeVote) (position : Nat) (item : WsItem) (t : CommsTask) : CommsTask :=
  match item with
  | .binary data =>
    match decode data with
    | .ok vote => { t with phase := .reporting position vote }
    | .error e => { t with phase := .ended (.error (.parse e)) }
  | .close | .other => t
  | .error | .ended => { t with phase := .ended (.ok ()) }

structure WriteReply where
  success : Bool
  deriving DecidableEq, Repr

/-- The `write` of the API: the reply or the text of the status, and the acknowledged
transactions after it. -/
def write (receivers : Nat) (acked : List Transaction) (request : Option Transaction) :
    Except String WriteReply × List Transaction :=
  match request with
  | none => (.error "No transaction data in request", acked)
  | some transaction =>
    if receivers = 0 then (.error "Failed to process write request: channel closed", acked)
    else (.ok ⟨true⟩, acked ++ [transaction])

/-- `process_connection_results` on what `join_all` yields. An outer error is that of a
task that panicked or was cancelled. -/
def processConnectionResults (results : List (Except String (Except (List String) Unit))) :
    Except (List String) Unit :=
  if results.all fun result => match result with
    | .ok (.ok _) => true
    | _ => false
  then .ok ()
  else .error ["Replica Communication Service closed with errors"]

/-- The process of a client under the select of `init_pod_network_client`: the acknowledged
transactions of the API server, the tasks of the communication service with their channel
to the updater, and what the updater keeps. No step reads `taken`, the votes that the
updater has taken in. -/
structure ClientProcess where
  acked : List Transaction
  tasks : List CommsTask
  channel : List (Nat × Vote)
  taken : List (Nat × Vote)
  client : ClientState
  exit : Option (Except (List String) Unit)

def ClientProcess.initial (replicasList : List Replica) : ClientProcess :=
  ⟨[], [], [], [], (initPodNetworkClient replicasList).2, none⟩

/-- The receivers of write requests. The communication service holds one until it returns. -/
def ClientProcess.receivers (p : ClientProcess) : Nat :=
  (if p.exit.isNone then 1 else 0) + (p.tasks.map fun t => t.phase.receivers).sum

section Steps

variable (decode : DecodeVote) (capacity : Nat)

/-- One step of a task on its own. In the select loop an error of `recv` disables its branch
for the round. -/
inductive CommsStep (acked : List Transaction) : CommsTask → CommsTask → Prop
  | timeout {t attempts position} : t.phase = .connecting attempts position → attempts < 5 →
      CommsStep acked t { t with phase := .connecting (attempts + 1) position }
  | giveUp {t attempts position} : t.phase = .connecting attempts position → 5 ≤ attempts →
      CommsStep acked t { t with phase := .ended (.error .gaveUp) }
  | refuse {t attempts position} (e : String) : t.phase = .connecting attempts position →
      CommsStep acked t { t with phase := .ended (.error (.connection e)) }
  | connect {t attempts position} : t.phase = .connecting attempts position →
      CommsStep acked t { t with phase := .connected position }
  | resubscribe {t position} : t.phase = .connected position →
      CommsStep acked t { t with phase := .selecting (subscribe acked) }
  | arrive {t} (item : WsItem) : t.phase.Open → item.Fits →
      CommsStep acked t { t with unread := t.unread ++ [item], items := t.items ++ [item] }
  | read {t position item rest} : t.phase = .selecting position → t.unread = item :: rest →
      CommsStep acked t ({ t with unread := rest }.handle decode position item)
  | receive {t position position' transaction} : t.phase = .selecting position →
      recv capacity acked position = (.value transaction, position') →
      CommsStep acked t { t with phase := .forwarding position' transaction }
  | lag {t position position' missed} : t.phase = .selecting position →
      recv capacity acked position = (.lagged missed, position') →
      CommsStep acked t { t with phase := .selecting position' }
  | forward {t position transaction} : t.phase = .forwarding position transaction →
      CommsStep acked t { t with phase := .selecting position, sent := t.sent ++ [transaction] }
  | forwardError {t position transaction} (e : String) : t.phase = .forwarding position transaction →
      CommsStep acked t { t with phase := .ended (.error (.send e)) }

variable (verifyStrict : VerifyStrict) (replicasList : List Replica)

/-- One step of the process. The select ends with the first of the three services. -/
inductive ProcessStep : ClientProcess → ClientProcess → Prop
  | write {p} (request : Option Transaction) : p.exit = none →
      ProcessStep p { p with acked := (write p.receivers p.acked request).2 }
  | spawn {p} : p.exit = none → p.tasks.length < replicasList.length →
      ProcessStep p { p with tasks := p.tasks ++ [.spawned p.acked] }
  | task {p i t t'} : p.exit = none → p.tasks[i]? = some t → CommsStep decode capacity p.acked t t' →
      ProcessStep p { p with tasks := p.tasks.set i t' }
  | report {p i t position vote} : p.exit = none → p.tasks[i]? = some t →
      t.phase = .reporting position vote → p.channel.length < channelSize →
      ProcessStep p { p with
        tasks := p.tasks.set i { t with phase := .selecting position }
        channel := p.channel ++ [(i, vote)] }
  | update {p i vote rest client'} : p.exit = none → p.channel = (i, vote) :: rest →
      updateWithVote verifyStrict (initPodNetworkClient replicasList).1 vote p.client = .ok client' →
      ProcessStep p { p with channel := rest, taken := p.taken ++ [(i, vote)], client := client' }
  | reject {p i vote rest e} : p.exit = none → p.channel = (i, vote) :: rest →
      updateWithVote verifyStrict (initPodNetworkClient replicasList).1 vote p.client = .error e →
      ProcessStep p { p with exit := some (.error [e.message]) }
  | serverError {p} (e : String) : p.exit = none →
      ProcessStep p { p with exit := some (.error ["Failed to start RPC server: " ++ e]) }
  | joined {p} (results : List (Except CommsError Unit)) : p.exit = none →
      p.tasks.length = replicasList.length → p.tasks.map CommsTask.phase = results.map .ended →
      ProcessStep p { p with exit := some (processConnectionResults
        ((replicasList.zip results).map fun entry => .ok (entry.2.mapError (CommsError.chain entry.1.id)))) }

abbrev ProcessReach : ClientProcess → Prop :=
  Relation.ReflTransGen (ProcessStep decode capacity verifyStrict replicasList) (.initial replicasList)

end Steps

section Votes

/-- What the select loop makes of an item of the stream. -/
def voteReport (decode : DecodeVote) : WsItem → Verdict Vote
  | .binary data =>
    match decode data with
    | .ok vote => .emit vote
    | .error _ => .stop
  | .close | .other => .skip
  | .error | .ended => .stop

/-- The votes that a stream makes its task report, up to its end, its first error or the
first message that is no vote. -/
def reported (decode : DecodeVote) (items : List WsItem) : List Vote := emitted (voteReport decode) items

def CommsPhase.holding : CommsPhase → Option Vote
  | reporting _ vote => some vote
  | _ => none

/-- A task as the producer of its votes. It does not read while it is being connected and
while it forwards a transaction. -/
def CommsPhase.producer : CommsPhase → Phase
  | selecting _ | reporting _ _ => .reading
  | connecting _ _ | connected _ | forwarding _ _ => .paused
  | ended (.ok _) | ended (.error (.parse _)) => .finished
  | ended (.error _) => .broken

def CommsTask.producer (t : CommsTask) : Producer WsItem Vote :=
  ⟨t.unread, t.phase.holding, t.phase.producer, t.items⟩

/-- The tasks, their channel and the updater. -/
def ClientProcess.funnel (p : ClientProcess) : State WsItem Vote :=
  ⟨p.tasks.map CommsTask.producer, p.channel, p.taken⟩

variable {decode : DecodeVote} {capacity : Nat} {verifyStrict : VerifyStrict} {replicasList : List Replica}
  {acked : List Transaction} {p p' : ClientProcess} {t t' : CommsTask} {i : Nat}

theorem comms_producer (known : p.tasks[i]? = some t) : p.funnel.producers[i]? = some t.producer := by
  simp only [ClientProcess.funnel, List.getElem?_map, known, Option.map_some]

theorem CommsTask.producer_handle {position : Nat} (item : WsItem) (selecting : t.phase = .selecting position) :
    (t.handle decode position item).producer = t.producer.handle (voteReport decode) item := by
  unfold CommsTask.handle Producer.handle voteReport
  cases item with
  | binary data =>
    cases decoded : decode data <;>
      simp [decoded, CommsTask.producer, CommsPhase.holding, CommsPhase.producer, selecting]
  | close | other => rfl
  | error | ended => simp [CommsTask.producer, CommsPhase.holding, CommsPhase.producer, selecting]

/-- A task that has no vote in hand turns to another phase. -/
theorem comms_turn {phase : CommsPhase} (sent : List Transaction) (known : p.tasks[i]? = some t)
    (live : t.phase.producer.Live) (free : t.phase.holding = none)
    (next : phase.producer.Live ∨ phase.producer = .broken) (idle : phase.holding = none) :
    Step (voteReport decode) channelSize p.funnel
      ({ p with tasks := p.tasks.set i { t with phase := phase, sent := sent } } : ClientProcess).funnel := by
  have moved : Step (voteReport decode) channelSize p.funnel _ :=
    .turn phase.producer (comms_producer known) live next
  have same : ({ t with phase := phase, sent := sent } : CommsTask).producer =
      { t.producer with phase := phase.producer } := by
    simp only [CommsTask.producer, free, idle]
  simp only [ClientProcess.funnel, List.map_set, same]
  exact moved

/-- Reading an item in the select loop. -/
theorem comms_read {position : Nat} {item : WsItem} {rest : List WsItem} (known : p.tasks[i]? = some t)
    (phase : t.phase = .selecting position) (next : t.unread = item :: rest) :
    Drain (voteReport decode) channelSize p.funnel ({ p with
      tasks := p.tasks.set i ({ t with unread := rest }.handle decode position item) } : ClientProcess).funnel := by
  have reading : t.producer.phase = .reading := by simp only [CommsTask.producer, phase, CommsPhase.producer]
  have free : t.producer.holding = none := by simp only [CommsTask.producer, CommsPhase.holding, phase]
  have read : Drain (voteReport decode) channelSize p.funnel _ := .read (comms_producer known) reading free next
  have same : ({ t with unread := rest }.handle decode position item).producer =
      { t.producer with unread := rest }.handle (voteReport decode) item := CommsTask.producer_handle item phase
  simp only [ClientProcess.funnel, List.map_set, same]
  exact read

/-- Handing a vote to the channel. -/
theorem comms_report {position : Nat} {vote : Vote} (known : p.tasks[i]? = some t)
    (phase : t.phase = .reporting position vote) (free : p.channel.length < channelSize) :
    Drain (voteReport decode) channelSize p.funnel ({ p with
      tasks := p.tasks.set i { t with phase := .selecting position }
      channel := p.channel ++ [(i, vote)] } : ClientProcess).funnel := by
  have held : t.producer.holding = some vote := by simp only [CommsTask.producer, CommsPhase.holding, phase]
  have sent : Drain (voteReport decode) channelSize p.funnel _ := .send (comms_producer known) held free
  have same : ({ t with phase := .selecting position } : CommsTask).producer =
      { t.producer with holding := none } := by
    simp only [CommsTask.producer, CommsPhase.holding, CommsPhase.producer, phase]
  simp only [ClientProcess.funnel, List.map_set, same]
  exact sent

/-- A step of a task is a step of the funnel. -/
theorem CommsStep.funnel (step : CommsStep decode capacity acked t t') (known : p.tasks[i]? = some t) :
    Step (voteReport decode) channelSize p.funnel ({ p with tasks := p.tasks.set i t' } : ClientProcess).funnel := by
  cases step with
  | timeout phase _ | connect phase | resubscribe phase | receive phase _ | lag phase _ | forward phase =>
    refine comms_turn _ known ?_ ?_ (Or.inl ?_) ?_ <;>
      simp [phase, CommsPhase.holding, CommsPhase.producer, Phase.Live]
  | giveUp phase _ | refuse _ phase | forwardError _ phase =>
    refine comms_turn _ known ?_ ?_ (Or.inr ?_) ?_ <;>
      simp [phase, CommsPhase.holding, CommsPhase.producer, Phase.Live]
  | arrive item _ _ =>
    have arrived : Step (voteReport decode) channelSize p.funnel _ := .arrive item (comms_producer known)
    simp only [ClientProcess.funnel, List.map_set]
    exact arrived
  | read phase next => exact (comms_read known phase next).step

/-- What the process does to the votes on their way, and to the updater with them. -/
theorem ProcessStep.funnel (step : ProcessStep decode capacity verifyStrict replicasList p p') :
    (p'.funnel = p.funnel ∧ p'.client = p.client) ∨
      (Step (voteReport decode) channelSize p.funnel p'.funnel ∧
        ((p'.taken = p.taken ∧ p'.client = p.client) ∨
          ∃ i vote, p'.taken = p.taken ++ [(i, vote)] ∧
            updateWithVote verifyStrict (initPodNetworkClient replicasList).1 vote p.client = .ok p'.client)) := by
  cases step with
  | write | reject | serverError | joined => exact Or.inl ⟨rfl, rfl⟩
  | spawn =>
    have spawned : Step (voteReport decode) channelSize p.funnel _ := .spawn .paused (Or.inr rfl)
    refine Or.inr ⟨?_, Or.inl ⟨rfl, rfl⟩⟩
    simp only [ClientProcess.funnel, List.map_append, List.map_singleton]
    exact spawned
  | task running known step => exact Or.inr ⟨step.funnel known, Or.inl ⟨rfl, rfl⟩⟩
  | report running known phase free => exact Or.inr ⟨(comms_report known phase free).step, Or.inl ⟨rfl, rfl⟩⟩
  | @update i vote rest client' running next updated =>
    exact Or.inr ⟨.take next, Or.inr ⟨i, vote, rfl, updated⟩⟩

theorem startPodDataUpdater_append {replicas : HashMap ReplicaId Replica} {votes : List Vote} {vote : Vote}
    {s s' s'' : ClientState} (run : startPodDataUpdater verifyStrict replicas votes s = .ok s')
    (last : updateWithVote verifyStrict replicas vote s' = .ok s'') :
    startPodDataUpdater verifyStrict replicas (votes ++ [vote]) s = .ok s'' := by
  induction votes generalizing s with
  | nil =>
    cases Except.ok.inj run
    simp only [List.nil_append, startPodDataUpdater, last]
  | cons first votes ih =>
    simp only [List.cons_append, startPodDataUpdater] at run ⊢
    cases step : updateWithVote verifyStrict replicas first s with
    | error e => simp [step] at run
    | ok s₁ =>
      simp only [step] at run
      exact ih run

/-- The votes are on their way from the streams to the updater, which has processed what it
has taken. -/
structure ProcessInv (decode : DecodeVote) (verifyStrict : VerifyStrict) (replicasList : List Replica)
    (p : ClientProcess) : Prop where
  funnel : Inv (voteReport decode) channelSize p.funnel
  updater : startPodDataUpdater verifyStrict (initPodNetworkClient replicasList).1 (p.taken.map Prod.snd)
    (initPodNetworkClient replicasList).2 = .ok p.client
  keyed : Keyed (initPodNetworkClient replicasList).1 p.client

theorem ProcessReach.inv (reach : ProcessReach decode capacity verifyStrict replicasList p) :
    ProcessInv decode verifyStrict replicasList p := by
  induction reach with
  | refl => exact ⟨.initial, rfl, init_keyed replicasList⟩
  | @tail p p' _ step ih =>
    obtain ⟨funnel, updater, keyed⟩ := ih
    rcases step.funnel with ⟨same, client⟩ | ⟨move, ⟨taken, client⟩ | ⟨i, vote, taken, updated⟩⟩
    · have taken : p'.taken = p.taken := congrArg State.taken same
      exact ⟨same ▸ funnel, by rw [taken, client]; exact updater, client ▸ keyed⟩
    · exact ⟨funnel.step move, by rw [taken, client]; exact updater, client ▸ keyed⟩
    · refine ⟨funnel.step move, ?_, (updateWithVote_ok_lane keyed updated).1⟩
      rw [taken, List.map_append]
      exact startPodDataUpdater_append updater updated

/-- One replica has sent a vote, and has been sent a transaction. -/
theorem standIn_process :
    let vote := standInVote 7 [65] 5 0
    ∃ s, s.stamp ⟨[65]⟩ 7 = some 5 ∧ ProcessReach (decodeVote clientapi) 128 standInVerify (standInReplicas [7])
      ⟨[⟨[66]⟩], [⟨.selecting 1, [], [.binary (voteCodec.encode vote)], [⟨[66]⟩]⟩], [], [(0, vote)], s, none⟩ := by
  intro vote
  have ends : (updateWithVote standInVerify (initPodNetworkClient (standInReplicas [7])).1 vote
      (initPodNetworkClient (standInReplicas [7])).2).toOption.any
        (fun s => decide (s.stamp ⟨[65]⟩ 7 = some 5)) = true := by decide +kernel
  obtain ⟨s, updated, final⟩ := exists_ok_of_any ends
  have short : (voteCodec.encode vote).length ≤ maxMessageSize := by decide +kernel
  have decoded : decodeVote clientapi (voteCodec.encode vote) = .ok vote := by
    rw [decodeVote_clientapi]
    exact voteCodec.merge_encode vote (by decide +kernel)
  generalize voteCodec.encode vote = wire at short decoded
  refine ⟨s, of_decide_eq_true final, ?_⟩
  have spawned : ProcessReach (decodeVote clientapi) 128 standInVerify (standInReplicas [7]) _ :=
    .single (.spawn rfl (by decide))
  have connected := spawned.tail (.task (i := 0) rfl rfl (.connect rfl))
  have listening := connected.tail (.task (i := 0) rfl rfl (.resubscribe rfl))
  have arrived := listening.tail (.task (i := 0) rfl rfl (.arrive (.binary wire) trivial short))
  have read := arrived.tail (.task (i := 0) rfl rfl (.read rfl rfl))
  simp only [CommsTask.handle, decoded] at read
  have sent := read.tail (.report (i := 0) rfl rfl rfl (show 0 < channelSize by decide))
  have processed := sent.tail (.update rfl rfl updated)
  have written := processed.tail (.write (some ⟨[66]⟩) rfl)
  have received := written.tail (.task (i := 0) rfl rfl (.receive rfl rfl))
  exact received.tail (.task (i := 0) rfl rfl (.forward rfl))

end Votes

end Podnet
