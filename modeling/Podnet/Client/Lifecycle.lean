import Podnet.Client.Process

namespace Podnet

open Broadcast Funnel

section Forwarding

variable {decode : DecodeVote} {capacity : Nat} {verifyStrict : VerifyStrict} {replicasList : List Replica}
  {acked : List Transaction} {p p' : ClientProcess} {t t' : CommsTask} {i : Nat}

/-- A task as its users see it who only write. -/
def CommsPhase.replicaPhase : CommsPhase → ReplicaPhase
  | connecting _ position => .connecting position
  | connected position => .connected position
  | selecting position | reporting position _ => .waiting position
  | forwarding position transaction => .sending position transaction
  | ended _ => .stopped

def CommsTask.replicaTask (t : CommsTask) : ReplicaTask := ⟨t.phase.replicaPhase, t.sent⟩

/-- The acknowledged transactions and the tasks that forward them. -/
def ClientProcess.writes (p : ClientProcess) : Writes := ⟨p.acked, p.tasks.map CommsTask.replicaTask⟩

theorem writes_task (known : p.tasks[i]? = some t) : p.writes.tasks[i]? = some t.replicaTask := by
  simp only [ClientProcess.writes, List.getElem?_map, known, Option.map_some]

/-- A step of a task is one of its steps on the channel of acknowledged transactions, or
does not show there. -/
theorem CommsStep.writes (step : CommsStep decode capacity acked t t') :
    t'.replicaTask = t.replicaTask ∨ ReplicaTaskStep capacity acked t.replicaTask t'.replicaTask ∨
      ∃ position, t.replicaTask.phase = .connected position ∧
        t'.replicaTask = { t.replicaTask with phase := .waiting (subscribe acked) } := by
  cases step with
  | timeout phase _ => exact Or.inl (by simp [CommsTask.replicaTask, CommsPhase.replicaPhase, phase])
  | giveUp | refuse | forwardError => exact Or.inr (Or.inl .stop)
  | connect phase =>
    exact Or.inr (Or.inl (.connect (by simp only [CommsTask.replicaTask, phase, CommsPhase.replicaPhase])))
  | @resubscribe position phase =>
    exact Or.inr (Or.inr ⟨position, by simp only [CommsTask.replicaTask, phase, CommsPhase.replicaPhase], rfl⟩)
  | arrive => exact Or.inl rfl
  | @read position item rest phase next =>
    cases item with
    | binary data =>
      simp only [CommsTask.handle]
      split
      · exact Or.inl (by simp [CommsTask.replicaTask, CommsPhase.replicaPhase, phase])
      · exact Or.inr (Or.inl .stop)
    | close | other => exact Or.inl rfl
    | error | ended => exact Or.inr (Or.inl .stop)
  | receive phase received =>
    exact Or.inr (Or.inl (.receive (by simp only [CommsTask.replicaTask, phase, CommsPhase.replicaPhase]) received))
  | lag phase received =>
    exact Or.inr (Or.inl (.lag (by simp only [CommsTask.replicaTask, phase, CommsPhase.replicaPhase]) received))
  | forward phase =>
    exact Or.inr (Or.inl (.send (by simp only [CommsTask.replicaTask, phase, CommsPhase.replicaPhase])))

/-- As long as the process runs, the channel of acknowledged transactions has a receiver. -/
theorem receivers_pos (running : p.exit = none) : p.receivers ≠ 0 := by
  rw [ClientProcess.receivers, running]
  simp

theorem write_running (running : p.exit = none) (transaction : Transaction) :
    write p.receivers p.acked (some transaction) = (.ok ⟨true⟩, p.acked ++ [transaction]) := by
  simp only [write, if_neg (receivers_pos running)]

theorem writes_set (known : p.tasks[i]? = some t) (same : t'.replicaTask = t.replicaTask) :
    (p.tasks.set i t').map CommsTask.replicaTask = p.tasks.map CommsTask.replicaTask := by
  obtain ⟨inside, own⟩ := List.getElem?_eq_some_iff.mp known
  rw [List.map_set, same, ← own, ← List.getElem_map CommsTask.replicaTask, List.set_getElem_self]
  rwa [List.length_map]

/-- Towards the users who write, a step of the process is one of the model of writes, or does not
show. -/
theorem ProcessStep.writes (step : ProcessStep decode capacity verifyStrict replicasList p p') :
    p'.writes = p.writes ∨ ∃ event, WriteStep capacity p.writes event p'.writes := by
  cases step with
  | update | reject | serverError | joined => exact Or.inl rfl
  | write request running =>
    cases request with
    | none => exact Or.inl rfl
    | some transaction =>
      refine Or.inr ⟨.write transaction, ?_⟩
      simp only [ClientProcess.writes, write_running running]
      exact .write transaction
  | spawn =>
    refine Or.inr ⟨.spawn, ?_⟩
    simp only [ClientProcess.writes, List.map_append, List.map_singleton]
    exact .spawn
  | report running known phase _ =>
    refine Or.inl ?_
    simp only [ClientProcess.writes]
    rw [writes_set known (by simp only [CommsTask.replicaTask, phase, CommsPhase.replicaPhase])]
  | @task i t t' running known step =>
    rcases step.writes with same | move | ⟨position, phase, same⟩
    · exact Or.inl (by simp only [ClientProcess.writes, writes_set known same])
    · refine Or.inr ⟨.work i, ?_⟩
      simp only [ClientProcess.writes, List.map_set]
      exact .work (writes_task known) move
    · refine Or.inr ⟨.resubscribe i, ?_⟩
      simp only [ClientProcess.writes, List.map_set, same]
      exact .resubscribe (writes_task known) phase

theorem ProcessReach.writes (reach : ProcessReach decode capacity verifyStrict replicasList p) :
    WriteReach capacity (fun _ _ => True) p.writes := by
  induction reach with
  | refl => exact .start
  | tail _ step ih =>
    rcases step.writes with same | ⟨event, move⟩
    · rw [same]
      exact ih
    · exact ih.next trivial move

/-- What a task has sent or is about to send, among what was acknowledged up to its receiver. -/
def Forwarded (acked : List Transaction) (t : ReplicaTask) : Prop :=
  match t.phase with
  | .connecting _ | .connected _ => t.sent = []
  | .waiting position => t.sent.Sublist (acked.take position)
  | .sending position transaction => (t.sent ++ [transaction]).Sublist (acked.take position)
  | .stopped => t.sent.Sublist acked

variable {u u' : ReplicaTask} {s s' : Writes} {event : WriteEvent}

theorem Forwarded.sublist (forwarded : Forwarded acked u) : u.sent.Sublist acked := by
  unfold Forwarded at forwarded
  split at forwarded
  · rw [forwarded]
    exact List.nil_sublist _
  · rw [forwarded]
    exact List.nil_sublist _
  · exact forwarded.trans (List.take_sublist _ _)
  · exact ((List.sublist_append_left _ _).trans forwarded).trans (List.take_sublist _ _)
  · exact forwarded

theorem Forwarded.write (forwarded : Forwarded acked u) (transaction : Transaction) :
    Forwarded (acked ++ [transaction]) u := by
  have grows : ∀ position, (acked.take position).Sublist ((acked ++ [transaction]).take position) :=
    fun position => ((List.prefix_append _ _).take position).sublist
  unfold Forwarded at forwarded ⊢
  cases phase : u.phase with
  | connecting | connected => simpa only [phase] using forwarded
  | waiting position | sending position =>
    simp only [phase] at forwarded
    exact forwarded.trans (grows position)
  | stopped =>
    simp only [phase] at forwarded
    exact forwarded.trans (List.sublist_append_left _ _)

theorem ReplicaTaskStep.forwarded (step : ReplicaTaskStep capacity acked u u') (forwarded : Forwarded acked u) :
    Forwarded acked u' := by
  have sent := forwarded.sublist
  unfold Forwarded at forwarded
  cases step with
  | connect phase | send phase =>
    simp only [phase] at forwarded
    exact forwarded
  | receive phase received =>
    simp only [phase] at forwarded
    obtain ⟨found, next, _⟩ := recv_value received
    subst next
    simp only [Forwarded, List.take_add_one, found, Option.toList_some]
    exact forwarded.append_right _
  | lag phase received =>
    -- what the receiver misses is left out, and nothing is sent twice
    simp only [phase] at forwarded
    obtain ⟨_, next, _⟩ := recv_lagged received
    exact forwarded.trans (List.take_sublist_take_left (by omega))
  | stop => exact sent

theorem WriteStep.forwarded (step : WriteStep capacity s event s')
    (forwarded : ∀ u ∈ s.tasks, Forwarded s.acked u) : ∀ u ∈ s'.tasks, Forwarded s'.acked u := by
  cases step with
  | write transaction => exact fun u member => (forwarded u member).write transaction
  | spawn =>
    intro u member
    rcases List.mem_append.mp member with old | new
    · exact forwarded u old
    · rw [List.mem_singleton.mp new]
      exact rfl
  | @resubscribe i u position known phase =>
    intro u' member
    rcases List.mem_or_eq_of_mem_set member with old | rfl
    · exact forwarded u' old
    · have none := forwarded u (List.mem_of_getElem? known)
      simp only [Forwarded, phase] at none
      simp only [Forwarded, none]
      exact List.nil_sublist _
  | @work i u u'' known step =>
    intro u' member
    rcases List.mem_or_eq_of_mem_set member with old | rfl
    · exact forwarded u' old
    · exact step.forwarded (forwarded u (List.mem_of_getElem? known))

theorem WriteReach.forwarded {allowed : Writes → WriteEvent → Prop} (reach : WriteReach capacity allowed s) :
    ∀ u ∈ s.tasks, Forwarded s.acked u := by
  induction reach with
  | start => simp
  | next _ _ step ih => exact step.forwarded ih

/-- The whole process runs as the model of writes says, whatever comes in from the replicas,
and in every run each replica gets acknowledged transactions only, each at most once and in
the order in which they were acknowledged. -/
theorem process_forwards_in_order (decode : DecodeVote) (capacity : Nat) (verifyStrict : VerifyStrict)
    (replicasList : List Replica) (p : ClientProcess)
    (reach : ProcessReach decode capacity verifyStrict replicasList p) :
    WriteReach capacity (fun _ _ => True) p.writes ∧ ∀ t ∈ p.tasks, t.sent.Sublist p.acked := by
  refine ⟨reach.writes, fun t member => ?_⟩
  exact (reach.writes.forwarded t.replicaTask (List.mem_map_of_mem member)).sublist

theorem process_forwards_in_order_one_write :
    ∃ p, ProcessReach (decodeVote clientapi) 128 standInVerify (standInReplicas [7]) p ∧ p.acked = [⟨[66]⟩] ∧
      p.tasks.map CommsTask.sent = [[⟨[66]⟩]] ∧ WriteReach 128 (fun _ _ => True) p.writes ∧
      ∀ t ∈ p.tasks, t.sent.Sublist p.acked := by
  obtain ⟨s, _, reach⟩ := standIn_process
  exact ⟨_, reach, rfl, rfl,
    process_forwards_in_order (decodeVote clientapi) 128 standInVerify (standInReplicas [7]) _ reach⟩

end Forwarding

section Exit

variable {decode : DecodeVote} {capacity : Nat} {verifyStrict : VerifyStrict} {replicasList : List Replica}
  {acked : List Transaction} {p p' : ClientProcess} {t t' : CommsTask} {i : Nat}

/-- A task tries to connect at most five times, and ends without an error only when its
stream does or yields an error. -/
structure CommsTask.Sound (t : CommsTask) : Prop where
  unread : t.unread ⊆ t.items
  attempts : ∀ n position, t.phase = .connecting n position → 1 ≤ n ∧ n ≤ 5
  closed : t.phase = .ended (.ok ()) → .error ∈ t.items ∨ .ended ∈ t.items

theorem CommsStep.sound (step : CommsStep decode capacity acked t t') (sound : t.Sound) : t'.Sound := by
  obtain ⟨unread, attempts, closed⟩ := sound
  cases step with
  | @timeout n position phase few =>
    refine ⟨unread, fun m position' again => ?_, by simp⟩
    obtain ⟨positive, _⟩ := attempts n position phase
    simp only [CommsPhase.connecting.injEq] at again
    omega
  | giveUp | refuse | connect | resubscribe | receive | lag | forward | forwardError =>
    exact ⟨unread, by simp, by simp⟩
  | arrive item _ _ =>
    refine ⟨fun later member => ?_, attempts, fun done => ?_⟩
    · rcases List.mem_append.mp member with old | new
      · exact List.mem_append_left _ (unread old)
      · exact List.mem_append_right _ new
    · exact (closed done).imp (List.mem_append_left _) (List.mem_append_left _)
  | @read position item rest phase next =>
    have kept : rest ⊆ t.items := fun later member => unread (next ▸ List.mem_cons_of_mem _ member)
    have own : item ∈ t.items := unread (next ▸ List.mem_cons_self)
    cases item with
    | binary data =>
      simp only [CommsTask.handle]
      split
      · exact ⟨kept, by simp, by simp⟩
      · exact ⟨kept, by simp, by simp⟩
    | close | other => exact ⟨kept, attempts, closed⟩
    | error => exact ⟨kept, by simp [CommsTask.handle], fun _ => Or.inl own⟩
    | ended => exact ⟨kept, by simp [CommsTask.handle], fun _ => Or.inr own⟩

theorem ProcessReach.sound (reach : ProcessReach decode capacity verifyStrict replicasList p) :
    ∀ t ∈ p.tasks, t.Sound := by
  induction reach with
  | refl => simp [ClientProcess.initial]
  | tail _ step ih =>
    cases step with
    | write | update | reject | serverError | joined => exact ih
    | spawn =>
      intro t member
      rcases List.mem_append.mp member with old | new
      · exact ih t old
      · rw [List.mem_singleton.mp new]
        refine ⟨List.Subset.refl _, fun n position phase => ?_, by simp [CommsTask.spawned]⟩
        simp only [CommsTask.spawned, CommsPhase.connecting.injEq] at phase
        omega
    | task running known step =>
      intro u member
      rcases List.mem_or_eq_of_mem_set member with old | rfl
      · exact ih u old
      · exact step.sound (ih _ (List.mem_of_getElem? known))
    | report running known phase _ =>
      intro u member
      rcases List.mem_or_eq_of_mem_set member with old | rfl
      · exact ih u old
      · exact ⟨(ih _ (List.mem_of_getElem? known)).unread, by simp, by simp⟩

theorem processConnectionResults_ok_iff {results : List (Except String (Except (List String) Unit))} :
    processConnectionResults results = .ok () ↔ ∀ result ∈ results, result = .ok (.ok ()) := by
  unfold processConnectionResults
  split
  · rename_i all
    simp only [true_iff]
    intro result member
    have own := List.all_eq_true.mp all result member
    split at own
    · rfl
    · simp at own
  · rename_i some
    simp only [reduceCtorEq, false_iff]
    intro all
    exact some (List.all_eq_true.mpr fun result member => by rw [all result member])

theorem processConnectionResults_cases (results : List (Except String (Except (List String) Unit))) :
    processConnectionResults results = .ok () ∨
      processConnectionResults results = .error ["Replica Communication Service closed with errors"] := by
  unfold processConnectionResults
  split
  · exact Or.inl rfl
  · exact Or.inr rfl

/-- Why the select of the process ends. -/
inductive ExitCause (decode : DecodeVote) (replicasList : List Replica) (p : ClientProcess) :
    Except (List String) Unit → Prop
  | server (e : String) : ExitCause decode replicasList p (.error ["Failed to start RPC server: " ++ e])
  | unknownReplica {i : Nat} {t : CommsTask} {vote : Vote} : p.tasks[i]? = some t →
      vote ∈ reported decode t.items → vote.transaction ≠ none →
      (∀ replica ∈ replicasList, replica.id ≠ vote.replicaId) →
      ExitCause decode replicasList p (.error [(UpdaterError.publicKeyNotFound vote.replicaId).message])
  | closed : p.tasks.length = replicasList.length →
      (∀ t ∈ p.tasks, t.phase = .ended (.ok ()) ∧ (.error ∈ t.items ∨ .ended ∈ t.items)) →
      ExitCause decode replicasList p (.ok ())
  | failed {t : CommsTask} {e : CommsError} : p.tasks.length = replicasList.length →
      (∀ t ∈ p.tasks, ∃ result, t.phase = .ended result) →
      t ∈ p.tasks → t.phase = .ended (.error e) →
      ExitCause decode replicasList p (.error ["Replica Communication Service closed with errors"])

/-- A vote on its way to the updater comes from the stream of a task. -/
theorem ProcessInv.origin (inv : ProcessInv decode verifyStrict replicasList p) {vote : Vote}
    (sent : (i, vote) ∈ p.channel) : ∃ t, p.tasks[i]? = some t ∧ vote ∈ reported decode t.items := by
  have own : vote ∈ entriesOf i (p.taken ++ p.channel) := mem_entriesOf.mpr (List.mem_append_right _ sent)
  have inside : i < p.tasks.length := by
    by_contra outside
    have none := inv.funnel.unspawned i (by simpa [ClientProcess.funnel] using outside)
    have held : vote ∈ entriesOf i (p.funnel.taken ++ p.funnel.channel) := own
    rw [none] at held
    exact absurd held List.not_mem_nil
  have known : p.tasks[i]? = some p.tasks[i] := List.getElem?_eq_getElem inside
  refine ⟨_, known, ?_⟩
  have handed := (inv.funnel.producers i _ (comms_producer known)).emitted.1
  exact handed.subset (List.mem_append_left _ own)

/-- The results of the tasks, as the service joins them. -/
theorem joined_ok_iff {results : List (Except CommsError Unit)} (length : results.length = replicasList.length) :
    processConnectionResults ((replicasList.zip results).map fun entry =>
        .ok (entry.2.mapError (CommsError.chain entry.1.id))) = .ok () ↔
      ∀ result ∈ results, result = .ok () := by
  have second : (replicasList.zip results).map Prod.snd = results := List.map_snd_zip (by omega)
  rw [processConnectionResults_ok_iff]
  constructor
  · intro all result member
    rw [← second] at member
    obtain ⟨entry, inside, rfl⟩ := List.mem_map.mp member
    have own := all _ (List.mem_map_of_mem inside)
    cases outcome : entry.2 with
    | ok => rfl
    | error e => simp [outcome, Except.mapError] at own
  · intro all result member
    obtain ⟨entry, inside, rfl⟩ := List.mem_map.mp member
    rw [all entry.2 (second ▸ List.mem_map_of_mem inside)]
    rfl

theorem ProcessStep.exit (step : ProcessStep decode capacity verifyStrict replicasList p p')
    (inv : ProcessInv decode verifyStrict replicasList p) (sound : ∀ t ∈ p.tasks, t.Sound)
    {result : Except (List String) Unit} (exit : p'.exit = some result) :
    ExitCause decode replicasList p' result := by
  cases step with
  | write _ running | spawn running | task running | report running | update running =>
    simp [running] at exit
  | serverError e running =>
    cases Option.some.inj exit
    exact .server e
  | @reject i vote rest e running next refused =>
    cases Option.some.inj exit
    obtain ⟨t, known, member⟩ := inv.origin (next ▸ List.mem_cons_self)
    have unknown : ¬ (vote.transaction ≠ none → vote.replicaId ∈ (initPodNetworkClient replicasList).1) := by
      intro fine
      obtain ⟨s', taken⟩ := updateWithVote_total verifyStrict inv.keyed fine
      simp [refused] at taken
    push Not at unknown
    have same := updateWithVote_unknown verifyStrict p.client unknown.1 unknown.2
    cases Except.error.inj (refused.symm.trans same)
    exact .unknownReplica known member unknown.1 fun replica listed own =>
      unknown.2 (mem_initReplicas.mpr ⟨replica, listed, own⟩)
  | joined results running all ended =>
    cases Option.some.inj exit
    have length : results.length = replicasList.length := by
      rw [← all, ← List.length_map CommsTask.phase, ended, List.length_map]
    have phases : ∀ t ∈ p.tasks, ∃ result ∈ results, t.phase = .ended result := by
      intro t member
      have own := List.mem_map_of_mem (f := CommsTask.phase) member
      rw [ended] at own
      obtain ⟨result, inside, same⟩ := List.mem_map.mp own
      exact ⟨result, inside, same.symm⟩
    by_cases fine : ∀ result ∈ results, result = .ok ()
    · rw [(joined_ok_iff length).mpr fine]
      refine .closed all fun t member => ?_
      obtain ⟨result, inside, phase⟩ := phases t member
      rw [fine result inside] at phase
      exact ⟨phase, (sound t member).closed phase⟩
    · rw [(processConnectionResults_cases _).resolve_left fun ok => fine ((joined_ok_iff length).mp ok)]
      push Not at fine
      obtain ⟨result, inside, notOk⟩ := fine
      have own : CommsPhase.ended result ∈ p.tasks.map CommsTask.phase := ended ▸ List.mem_map_of_mem inside
      obtain ⟨t, member, phase⟩ := List.mem_map.mp own
      cases result with
      | ok => exact absurd rfl notOk
      | error e =>
        refine .failed all (fun u inTasks => ?_) member phase
        obtain ⟨result, _, ended⟩ := phases u inTasks
        exact ⟨result, ended⟩

theorem ProcessReach.exit (reach : ProcessReach decode capacity verifyStrict replicasList p)
    {result : Except (List String) Unit} (exit : p.exit = some result) : ExitCause decode replicasList p result := by
  cases reach with
  | refl => simp [ClientProcess.initial] at exit
  | tail before step => exact step.exit (ProcessReach.inv before) (ProcessReach.sound before) exit

/-- While the process runs, every write with a transaction is acknowledged, even when no
replica is connected any more, and no task tries to connect more than five times. The
process ends only with its API server, by a vote that names an unknown replica, or when all
replicas are lost, and without an error only when all their streams have come to an end. -/
theorem process_exits_only_with_cause (decode : DecodeVote) (capacity : Nat) (verifyStrict : VerifyStrict)
    (replicasList : List Replica) (p : ClientProcess)
    (reach : ProcessReach decode capacity verifyStrict replicasList p) :
    (p.exit = none → ∀ transaction,
      write p.receivers p.acked (some transaction) = (.ok ⟨true⟩, p.acked ++ [transaction])) ∧
    (∀ t ∈ p.tasks, ∀ n position, t.phase = .connecting n position → 1 ≤ n ∧ n ≤ 5) ∧
    ∀ result, p.exit = some result → ExitCause decode replicasList p result := by
  exact ⟨write_running, fun t member => (reach.sound t member).attempts, fun _ => reach.exit⟩

/-- The only replica closes its connection. -/
theorem process_exits_only_with_cause_closed :
    ∃ p, ProcessReach (decodeVote clientapi) 128 standInVerify (standInReplicas [7]) p ∧ p.exit = some (.ok ()) ∧
      (p.exit = none → ∀ transaction,
        write p.receivers p.acked (some transaction) = (.ok ⟨true⟩, p.acked ++ [transaction])) ∧
      (∀ t ∈ p.tasks, ∀ n position, t.phase = .connecting n position → 1 ≤ n ∧ n ≤ 5) ∧
      ∀ result, p.exit = some result → ExitCause (decodeVote clientapi) (standInReplicas [7]) p result := by
  obtain ⟨s, _, reach⟩ := standIn_process
  have arrived := reach.tail (.task (i := 0) rfl rfl (.arrive .ended trivial trivial))
  have read := arrived.tail (.task (i := 0) rfl rfl (.read rfl rfl))
  have joined := read.tail (.joined [.ok ()] rfl rfl rfl)
  exact ⟨_, joined, rfl,
    process_exits_only_with_cause (decodeVote clientapi) 128 standInVerify (standInReplicas [7]) _ joined⟩

end Exit

end Podnet
