import Podnet.Broadcast
import Podnet.Client.Votes

namespace Podnet

open Broadcast

/-- A replica's task in `start_replica_comms_service`. The receiver of the service is
replaced by a new one when the connection is handled. -/
inductive ReplicaPhase where
  | connecting (position : Nat)
  | connected (position : Nat)
  | waiting (position : Nat)
  | sending (position : Nat) (transaction : Transaction)
  | stopped

/-- A task with the transactions that it has sent on its connection. -/
structure ReplicaTask where
  phase : ReplicaPhase
  sent : List Transaction

/-- The position of the receiver of the select loop. -/
def ReplicaPhase.receiver : ReplicaPhase → Option Nat
  | waiting position | sending position _ => some position
  | _ => none

/-- The acknowledged transactions, in the order in which `write` accepted them, and the
tasks spawned so far. -/
structure Writes where
  acked : List Transaction
  tasks : List ReplicaTask

inductive WriteEvent where
  | write (transaction : Transaction)
  | spawn
  | resubscribe (task : Nat)
  | work (task : Nat)
  deriving DecidableEq, Repr

section Steps

variable (capacity : Nat)

/-- One step of a task on the channel of acknowledged transactions, other than the
subscription. In the select loop an error of `recv` disables its branch for the round,
so a receiver that lags is only moved on. -/
inductive ReplicaTaskStep (acked : List Transaction) : ReplicaTask → ReplicaTask → Prop
  | connect {t position} : t.phase = .connecting position →
      ReplicaTaskStep acked t { t with phase := .connected position }
  | receive {t position position' transaction} : t.phase = .waiting position →
      recv capacity acked position = (.value transaction, position') →
      ReplicaTaskStep acked t { t with phase := .sending position' transaction }
  | send {t position transaction} : t.phase = .sending position transaction →
      ReplicaTaskStep acked t
        { phase := .waiting position, sent := t.sent ++ [transaction] }
  | lag {t position position' missed} : t.phase = .waiting position →
      recv capacity acked position = (.lagged missed, position') →
      ReplicaTaskStep acked t { t with phase := .waiting position' }
  | stop {t} : ReplicaTaskStep acked t { t with phase := .stopped }

inductive WriteStep : Writes → WriteEvent → Writes → Prop
  | write {s} (transaction : Transaction) :
      WriteStep s (.write transaction) { s with acked := s.acked ++ [transaction] }
  | spawn {s} : WriteStep s .spawn
      { s with tasks := s.tasks ++ [⟨.connecting (subscribe s.acked), []⟩] }
  | resubscribe {s i t position} : s.tasks[i]? = some t → t.phase = .connected position →
      WriteStep s (.resubscribe i)
        { s with tasks := s.tasks.set i { t with phase := .waiting (subscribe s.acked) } }
  | work {s i t t'} : s.tasks[i]? = some t → ReplicaTaskStep capacity s.acked t t' →
      WriteStep s (.work i) { s with tasks := s.tasks.set i t' }

inductive WriteReach (allowed : Writes → WriteEvent → Prop) : Writes → Prop
  | start : WriteReach allowed ⟨[], []⟩
  | next {s event s'} : WriteReach allowed s → allowed s event → WriteStep capacity s event s' →
      WriteReach allowed s'

/-- The connection of a task is handled before the first write is acknowledged, and no
write is accepted while the task's receiver is a full buffer behind. -/
def Prompt (i : Nat) (s : Writes) (event : WriteEvent) : Prop :=
  (event = .resubscribe i → s.acked = []) ∧
    ∀ transaction, event = .write transaction → ∀ t position, s.tasks[i]? = some t →
      t.phase.receiver = some position → s.acked.length - position < capacity

end Steps

section Order

variable {capacity i : Nat} {acked : List Transaction} {t t' : ReplicaTask} {s s' : Writes}
  {event : WriteEvent}

/-- What a prompt task has sent: everything up to where its receiver stands. -/
def InStep (capacity : Nat) (acked : List Transaction) (t : ReplicaTask) : Prop :=
  match t.phase with
  | .connecting _ | .connected _ => t.sent = []
  | .waiting position => Complete acked 0 position t.sent ∧ acked.length - position ≤ capacity
  | .sending position transaction =>
    Complete acked 0 position (t.sent ++ [transaction]) ∧ acked.length - position ≤ capacity
  | .stopped => t.sent <+: acked

theorem InStep.prefix_acked (inStep : InStep capacity acked t) : t.sent <+: acked := by
  unfold InStep at inStep
  split at inStep
  · rw [inStep]
    exact List.nil_prefix
  · rw [inStep]
    exact List.nil_prefix
  · simpa using inStep.1.prefix_drop
  · rename_i position transaction phase
    have longer : t.sent ++ [transaction] <+: acked := by simpa using inStep.1.prefix_drop
    exact (List.prefix_append _ _).trans longer
  · exact inStep

/-- One more acknowledged transaction, with room for it in the buffer. -/
theorem InStep.write (inStep : InStep capacity acked t) (transaction : Transaction)
    (room : ∀ position, t.phase.receiver = some position → acked.length - position < capacity) :
    InStep capacity (acked ++ [transaction]) t := by
  have grows : acked <+: acked ++ [transaction] := List.prefix_append _ _
  unfold InStep at inStep ⊢
  cases phase : t.phase with
  | connecting position => simpa only [phase] using inStep
  | connected position => simpa only [phase] using inStep
  | waiting position =>
    simp only [phase] at inStep ⊢
    have free := room position (by rw [phase]; rfl)
    refine ⟨inStep.1.send grows, ?_⟩
    rw [List.length_append, List.length_singleton]
    omega
  | sending position pending =>
    simp only [phase] at inStep ⊢
    have free := room position (by rw [phase]; rfl)
    refine ⟨inStep.1.send grows, ?_⟩
    rw [List.length_append, List.length_singleton]
    omega
  | stopped =>
    simp only [phase] at inStep ⊢
    exact inStep.trans grows

theorem ReplicaTaskStep.inStep (step : ReplicaTaskStep capacity acked t t')
    (inStep : InStep capacity acked t) : InStep capacity acked t' := by
  have sent := inStep.prefix_acked
  unfold InStep at inStep
  cases step with
  | connect phase =>
    simp only [phase] at inStep
    exact inStep
  | receive phase received =>
    simp only [phase] at inStep
    obtain ⟨found, next, _⟩ := recv_value received
    subst next
    exact ⟨inStep.1.receive found, by omega⟩
  | send phase =>
    simp only [phase] at inStep
    exact inStep
  | lag phase received =>
    -- the receiver is never behind the buffer
    simp only [phase] at inStep
    obtain ⟨behind, _⟩ := recv_lagged received
    omega
  | stop => exact sent

theorem tasks_set_cases {tasks : List ReplicaTask} {j : Nat}
    (found : (tasks.set j t')[i]? = some t) : (j = i ∧ t = t') ∨ tasks[i]? = some t := by
  by_cases same : j = i
  · rw [List.getElem?_set, if_pos same] at found
    split at found
    · exact .inl ⟨same, (Option.some.inj found).symm⟩
    · simp at found
  · rw [List.getElem?_set_ne same] at found
    exact .inr found

theorem WriteStep.inStep (step : WriteStep capacity s event s') (prompt : Prompt capacity i s event)
    (inStep : ∀ t, s.tasks[i]? = some t → InStep capacity s.acked t) :
    ∀ t, s'.tasks[i]? = some t → InStep capacity s'.acked t := by
  cases step with
  | write transaction =>
    intro t found
    exact (inStep t found).write transaction fun position => prompt.2 transaction rfl t position found
  | spawn =>
    intro t found
    rw [List.getElem?_append] at found
    split at found
    · exact inStep t found
    · have new := List.mem_singleton.mp (List.mem_of_getElem? found)
      rw [new]
      exact rfl
  | @resubscribe j t position known phase =>
    intro t' found
    obtain ⟨same, rfl⟩ | found := tasks_set_cases found
    · subst same
      have first := prompt.1 rfl
      have none : t.sent = [] := by
        have before := inStep t known
        simpa only [InStep, phase] using before
      rw [first]
      refine ⟨?_, Nat.zero_le _⟩
      simp only [none]
      exact .subscribe []
    · exact inStep t' found
  | @work j t t'' known step =>
    intro t' found
    obtain ⟨same, rfl⟩ | found := tasks_set_cases found
    · subst same
      exact step.inStep (inStep t known)
    · exact inStep t' found

/-- A replica whose connection is handled before the first write and whose receiver
keeps up gets a prefix of the acknowledged transactions. -/
theorem prompt_replica_gets_acked_prefix (capacity i : Nat) (s : Writes)
    (reach : WriteReach capacity (Prompt capacity i) s) (t : ReplicaTask) (task : s.tasks[i]? = some t) :
    t.sent <+: s.acked := by
  have inStep : ∀ t, s.tasks[i]? = some t → InStep capacity s.acked t := by
    clear task
    induction reach with
    | start =>
      intro t found
      simp at found
    | next _ prompt step ih => exact step.inStep prompt ih
  exact (inStep t task).prefix_acked

/-- One replica is connected before the only write, which it then gets. -/
theorem prompt_replica_gets_acked_prefix_connected :
    ∃ s t, WriteReach 128 (Prompt 128 0) s ∧ s.tasks[0]? = some t ∧ s.acked = [⟨[65]⟩] ∧
      t.sent = [⟨[65]⟩] ∧ t.sent <+: s.acked := by
  have quiet : ∀ {s : Writes}, Prompt 128 0 s (.work 0) := by
    intro s
    exact ⟨fun other => by simp at other, fun _ other => by simp at other⟩
  have spawned : WriteReach 128 (Prompt 128 0) _ :=
    WriteReach.start.next ⟨fun other => by simp at other, fun _ other => by simp at other⟩ .spawn
  have connected := spawned.next quiet (.work (i := 0) rfl (.connect rfl))
  have subscribed := connected.next
    (by exact ⟨fun _ => rfl, fun _ other => by simp at other⟩) (.resubscribe (i := 0) rfl rfl)
  have written := subscribed.next
    (by exact ⟨fun other => by simp at other, fun _ _ _ _ _ _ => by simp⟩) (.write ⟨[65]⟩)
  have received := written.next quiet (.work (i := 0) rfl (.receive rfl rfl))
  have sent := received.next quiet (.work (i := 0) rfl (.send rfl))
  exact ⟨_, _, sent, rfl, rfl, rfl, prompt_replica_gets_acked_prefix 128 0 _ sent _ rfl⟩

/-- The first write is acknowledged while the replica is being connected. The
subscription in `handle_replica_connection` is behind it, and the replica gets the
second write only. -/
theorem acked_write_lost_while_connecting :
    ∃ s t, WriteReach 128 (fun _ _ => True) s ∧ s.tasks[0]? = some t ∧
      s.acked = [⟨[65]⟩, ⟨[66]⟩] ∧ t.sent = [⟨[66]⟩] ∧ ¬ t.sent <+: s.acked := by
  have spawned : WriteReach 128 (fun _ _ => True) _ := WriteReach.start.next trivial .spawn
  have written := spawned.next trivial (.write ⟨[65]⟩)
  have connected := written.next trivial (.work (i := 0) rfl (.connect rfl))
  have subscribed := connected.next trivial (.resubscribe (i := 0) rfl rfl)
  have again := subscribed.next trivial (.write ⟨[66]⟩)
  have received := again.next trivial (.work (i := 0) rfl (.receive rfl rfl))
  have sent := received.next trivial (.work (i := 0) rfl (.send rfl))
  exact ⟨_, _, sent, rfl, rfl, rfl, by decide⟩

end Order

end Podnet
