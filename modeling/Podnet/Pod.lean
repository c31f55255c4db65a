import Podnet.Client.Accounts
import Podnet.Ledger
import Podnet.Recorded
import Podnet.Replica.Intake

namespace Podnet

/-- The parties of a pod: the correct replicas with their keys, and the configurations of
the clients, in each of which every correct replica has its own key. The other replicas
of a configuration do as they please. -/
structure PodSetup (C : Type) where
  recordCodec : Codec VoteRecord
  verifyStrict : VerifyStrict
  sign : ReplicaId → List UInt8 → Signature
  key : ReplicaId → VerifyingKey
  correct : Finset ReplicaId
  config : C → List Replica
  configured : ∀ c, ∀ r ∈ correct, (initPodNetworkClient (config c)).1.lookup r = some ⟨r, key r⟩

/-- The processes of the replicas, and the updaters of the clients. -/
structure Pod (C : Type) where
  replica : ReplicaId → PodNetworkNode
  client : C → ClientState × Option ReplicaId

def Pod.setReplica {C : Type} (r : ReplicaId) (p : PodNetworkNode) (pod : Pod C) : Pod C :=
  { pod with replica := fun r' => if r' = r then p else pod.replica r' }

def Pod.setClient {C : Type} [DecidableEq C] (c : C) (q : ClientState × Option ReplicaId) (pod : Pod C) : Pod C :=
  { pod with client := fun c' => if c' = c then q else pod.client c' }

section Pods

variable {C : Type} [DecidableEq C] (setup : PodSetup C)

namespace PodSetup

def initial : Pod C :=
  ⟨fun _ => .initial, fun c => ((initPodNetworkClient (setup.config c)).2, none)⟩

/-- Nobody else signs with the key of a correct replica: if a vote under its name verifies,
the replica has signed the message. -/
def Genuine (pod : Pod C) (vote : Vote) : Prop :=
  vote.replicaId ∈ setup.correct → ∀ tx, vote.transaction = some tx →
    verifyVoteSignature setup.verifyStrict (setup.key vote.replicaId) tx.data vote.timestamp
      vote.sequenceNumber vote.signature = true →
    votePayload tx.data vote.timestamp vote.sequenceNumber ∈
      (pod.replica vote.replicaId).node.signedMessages

/-- One step of one party. The network and the other replicas bring a client any vote at
any time, but none with a forged signature. A correct replica draws fresh numbers. -/
inductive Step : Pod C → Pod C → Prop
  | replica {pod r event p} : r ∈ setup.correct → DrawsFresh (pod.replica r).node event →
      IntakeStep setup.recordCodec (setup.sign r) r (pod.replica r) event p →
      Step pod (pod.setReplica r p)
  | receive {pod c s vote s' next} : pod.client c = (s, none) → setup.Genuine pod vote →
      receiveVote setup.verifyStrict (initPodNetworkClient (setup.config c)).1 vote s = .ok (s', next) →
      Step pod (pod.setClient c (s', next))
  | drain {pod c r s s'} : pod.client c = (s, some r) → drainBacklogStep r s = .ok (some s') →
      Step pod (pod.setClient c (s', some r))
  | leave {pod c r s} : pod.client c = (s, some r) → drainBacklogStep r s = .ok none →
      Step pod (pod.setClient c (s, none))

abbrev Run : Pod C → Pod C → Prop := Relation.ReflTransGen setup.Step

abbrev Reach : Pod C → Prop := setup.Run setup.initial

/-- Some number has not been signed by any correct replica: the counters have not been
round. -/
def Room (pod : Pod C) : Prop :=
  ∀ r ∈ setup.correct, ∃ free, ∀ vote ∈ (pod.replica r).node.signed, vote.sequenceNumber ≠ free

end PodSetup

end Pods

section Votes

variable {verifyStrict : VerifyStrict} {replicas : HashMap ReplicaId Replica} {s s' : ClientState}
  {vote v : Vote} {r : ReplicaId} {next : Option ReplicaId}

theorem accepts_afterVote {tx : Transaction} {ts mrtEntry : Timestamp}
    (accepts : (afterVote r tx ts mrtEntry vote s).Accepts v) : s.Accepts v ∨ v = vote := by
  rcases accepts with ⟨r', member⟩ | kept
  · rcases List.mem_append.mp member with old | new
    · exact Or.inl (Or.inl ⟨r', old⟩)
    · exact Or.inr (Prod.mk.inj (List.mem_singleton.mp new)).2
  · exact Or.inl (Or.inr kept)

theorem accepts_addToBacklog (accepts : (addToBacklog vote s).Accepts v) : s.Accepts v ∨ v = vote := by
  rw [addToBacklog_eq] at accepts
  rcases accepts with called | ⟨r', entry, sn, backlog, atSn⟩
  · exact Or.inl (Or.inl called)
  · by_cases same : r' = vote.replicaId
    · subst same
      cases (Finmap.lookup_insert _).symm.trans backlog
      by_cases own : sn = vote.sequenceNumber
      · subst own
        exact Or.inr (Option.some.inj ((Finmap.lookup_insert _).symm.trans atSn)).symm
      · rw [Finmap.lookup_insert_of_ne _ own] at atSn
        cases old : s.backlog.lookup vote.replicaId with
        | none => simp [old] at atSn
        | some before => exact Or.inl (Or.inr ⟨_, before, sn, old, by simpa [old] using atSn⟩)
    · rw [Finmap.lookup_insert_of_ne _ same] at backlog
      exact Or.inl (Or.inr ⟨r', entry, sn, backlog, atSn⟩)

theorem accepts_takeFromBacklog {kept : BTreeMap SequenceNumber Vote} {nextsn : SequenceNumber}
    (backlog : s.backlog.lookup r = some kept) (accepts : (takeFromBacklog r kept nextsn s).Accepts v) :
    s.Accepts v := by
  rcases accepts with called | ⟨r', entry, sn, atReplica, atSn⟩
  · exact Or.inl called
  · by_cases same : r' = r
    · subst same
      cases (Finmap.lookup_insert _).symm.trans atReplica
      by_cases taken : sn = nextsn
      · subst taken
        simp at atSn
      · rw [Finmap.lookup_erase_ne taken] at atSn
        exact Or.inr ⟨r', kept, sn, backlog, atSn⟩
    · rw [takeFromBacklog, countVote, Finmap.lookup_insert_of_ne _ same] at atReplica
      exact Or.inr ⟨r', entry, sn, atReplica, atSn⟩

/-- A received vote is accepted only if it is verified. -/
theorem receiveVote_accepts (received : receiveVote verifyStrict replicas vote s = .ok (s', next))
    (accepts : s'.Accepts v) : s.Accepts v ∨ (v = vote ∧ Verified verifyStrict replicas vote) := by
  rcases receiveVote_cases received with ⟨_, rfl, _⟩ |
    ⟨verified, nextsn, _, ⟨_, rfl, _⟩ | ⟨_, rfl, _⟩ | ⟨_, _, tx, _, run⟩⟩
  · exact Or.inl accepts
  · exact Or.inl accepts
  · exact (accepts_addToBacklog accepts).imp_right fun same => ⟨same, verified⟩
  · obtain ⟨mrtEntry, _, rfl⟩ := processVote_ok run
    exact (accepts_afterVote accepts).imp_right fun same => ⟨same, verified⟩

/-- Draining the backlog accepts nothing new. -/
theorem drainBacklogStep_accepts (drained : drainBacklogStep r s = .ok (some s')) (accepts : s'.Accepts v) :
    s.Accepts v := by
  obtain ⟨kept, nextsn, vote, backlog, first, _, outcome⟩ := drainBacklogStep_cases drained
  rcases outcome with ⟨_, rfl⟩ | ⟨tx, _, run⟩
  · exact accepts_takeFromBacklog backlog accepts
  · obtain ⟨mrtEntry, _, rfl⟩ := processVote_ok run
    rcases accepts_afterVote accepts with old | rfl
    · exact accepts_takeFromBacklog backlog old
    · exact Or.inr ⟨r, kept, nextsn, backlog, (BTreeMap.firstKeyValue_some first).1⟩

end Votes

section Invariant

variable {C : Type} [DecidableEq C] (setup : PodSetup C)

/-- Every party runs its program, and whatever a client accepts under the name of a correct
replica was signed by that replica. -/
structure PodInv (pod : Pod C) : Prop where
  replica : ∀ r ∈ setup.correct,
    IntakeReach setup.recordCodec (setup.sign r) r DrawsFresh (pod.replica r)
  client : ∀ c, ClientReach setup.verifyStrict (setup.config c) (pod.client c)
  signed : ∀ c vote, (pod.client c).1.Accepts vote → vote.replicaId ∈ setup.correct →
    ∃ data, vote.transaction = some ⟨data⟩ ∧
      signedVote (setup.sign vote.replicaId) vote.replicaId data vote.timestamp vote.sequenceNumber ∈
        (pod.replica vote.replicaId).node.signed

variable {setup} {pod pod' : Pod C} {c : C} {q : ClientState × Option ReplicaId}

omit [DecidableEq C] in
/-- A vote of a correct replica as the replica signed it. -/
theorem genuine_signed (inv : PodInv setup pod) {vote : Vote} (genuine : setup.Genuine pod vote)
    (verified : Verified setup.verifyStrict (initPodNetworkClient (setup.config c)).1 vote)
    (correct : vote.replicaId ∈ setup.correct) :
    ∃ data, vote.transaction = some ⟨data⟩ ∧
      signedVote (setup.sign vote.replicaId) vote.replicaId data vote.timestamp vote.sequenceNumber ∈
        (pod.replica vote.replicaId).node.signed := by
  obtain ⟨tx, replica, carried, known, valid⟩ := verified
  cases Option.some.inj ((setup.configured c _ correct).symm.trans known)
  have message := genuine correct tx carried valid
  exact ⟨tx.data, carried, (inv.replica _ correct).nodeReach.mem_signed_of_message message⟩

omit [DecidableEq C] in
theorem PodInv.initial : PodInv setup setup.initial := by
  refine ⟨fun r _ => .start, fun c => .refl, fun c vote accepts _ => ?_⟩
  rcases accepts with ⟨r, member⟩ | ⟨r, entry, sn, backlog, _⟩
  · simp [PodSetup.initial, initPodNetworkClient] at member
  · simp [PodSetup.initial, initPodNetworkClient] at backlog

/-- Everything a step does to what correct replicas have signed: nothing, or one more vote. -/
theorem IntakeStep.signed_cases {recordCodec : Codec VoteRecord} {sign : List UInt8 → Signature}
    {r : ReplicaId} {event : NodeEvent} {p p' : PodNetworkNode}
    (step : IntakeStep recordCodec sign r p event p') (intaken : Intaken p) :
    p'.node.signed = p.node.signed ∨
      ∃ data ts sn, p'.node.signed = p.node.signed ++ [signedVote sign r data ts sn] := by
  rcases step.nodeStep intaken with same | step
  · exact Or.inl (by rw [same])
  · rcases step.signed_cases with same | ⟨tx, ts, sn, more, _⟩ | ⟨ts, sn, more, _⟩
    · exact Or.inl same
    · exact Or.inr ⟨tx, ts, sn, more⟩
    · exact Or.inr ⟨heartbeatData, ts, sn, more⟩

theorem IntakeStep.signed_subset {recordCodec : Codec VoteRecord} {sign : List UInt8 → Signature}
    {r : ReplicaId} {event : NodeEvent} {p p' : PodNetworkNode}
    (step : IntakeStep recordCodec sign r p event p') (intaken : Intaken p) :
    p.node.signed ⊆ p'.node.signed := by
  rcases step.signed_cases intaken with same | ⟨data, ts, sn, more⟩
  · rw [same]
    exact List.Subset.refl _
  · rw [more]
    exact List.subset_append_left _ _

/-- Everything a step of the pod can do: a step of a correct replica, or a step of a client
that accepts no forged vote. -/
theorem PodSetup.Step.cases (step : setup.Step pod pod') :
    (∃ r event p, r ∈ setup.correct ∧ DrawsFresh (pod.replica r).node event ∧
      IntakeStep setup.recordCodec (setup.sign r) r (pod.replica r) event p ∧ pod' = pod.setReplica r p) ∨
    ∃ c q, ClientStep setup.verifyStrict (initPodNetworkClient (setup.config c)).1 (pod.client c) q ∧
      pod' = pod.setClient c q ∧ ∀ vote, q.1.Accepts vote → (pod.client c).1.Accepts vote ∨
        (setup.Genuine pod vote ∧
          Verified setup.verifyStrict (initPodNetworkClient (setup.config c)).1 vote) := by
  cases step with
  | @replica r event p correct fresh step => exact Or.inl ⟨r, event, p, correct, fresh, step, rfl⟩
  | @receive c s vote s' next at_ genuine received =>
    refine Or.inr ⟨c, _, at_ ▸ .receive received, rfl, fun v accepts => ?_⟩
    rw [at_]
    rcases receiveVote_accepts received accepts with old | ⟨rfl, verified⟩
    · exact Or.inl old
    · exact Or.inr ⟨genuine, verified⟩
  | @drain c r s s' at_ drained =>
    refine Or.inr ⟨c, _, at_ ▸ .drain drained, rfl, fun v accepts => ?_⟩
    rw [at_]
    exact Or.inl (drainBacklogStep_accepts drained accepts)
  | @leave c r s at_ stop =>
    refine Or.inr ⟨c, _, at_ ▸ .leave stop, rfl, fun v accepts => ?_⟩
    rw [at_]
    exact Or.inl accepts

/-- A correct replica never forgets what it has signed. -/
theorem PodInv.signed_step (inv : PodInv setup pod) (step : setup.Step pod pod') {r : ReplicaId}
    (correct : r ∈ setup.correct) :
    (pod.replica r).node.signed ⊆ (pod'.replica r).node.signed := by
  rcases step.cases with ⟨r', event, p, _, _, move, rfl⟩ | ⟨c, q, _, rfl, _⟩
  · simp only [Pod.setReplica]
    split
    · rename_i same
      subst same
      exact move.signed_subset (inv.replica r correct).intaken
    · exact List.Subset.refl _
  · exact List.Subset.refl _

theorem PodInv.step (inv : PodInv setup pod) (step : setup.Step pod pod') : PodInv setup pod' := by
  have kept := fun r => inv.signed_step step (r := r)
  rcases step.cases with ⟨r, event, p, correct, fresh, move, rfl⟩ | ⟨c, q, move, rfl, accepted⟩
  · refine ⟨fun r' correct' => ?_, inv.client, fun c vote accepts correct' => ?_⟩
    · simp only [Pod.setReplica]
      split
      · rename_i same
        subst same
        exact (inv.replica r' correct).next fresh move
      · exact inv.replica r' correct'
    · obtain ⟨data, carried, member⟩ := inv.signed c vote accepts correct'
      exact ⟨data, carried, kept _ correct' member⟩
  · refine ⟨inv.replica, fun c' => ?_, fun c' vote accepts correct => ?_⟩
    · simp only [Pod.setClient]
      split
      · rename_i same
        subst same
        exact (inv.client c').tail move
      · exact inv.client c'
    · simp only [Pod.setClient] at accepts
      split at accepts
      · rename_i same
        subst same
        rcases accepted vote accepts with old | ⟨genuine, verified⟩
        · exact inv.signed c' vote old correct
        · exact genuine_signed inv genuine verified correct
      · exact inv.signed c' vote accepts correct

theorem PodSetup.Reach.inv (reach : setup.Reach pod) : PodInv setup pod := by
  induction reach with
  | refl => exact .initial
  | tail _ step ih => exact ih.step step

theorem PodSetup.Run.signed (run : setup.Run pod pod') (inv : PodInv setup pod) :
    PodInv setup pod' ∧ ∀ r ∈ setup.correct, (pod.replica r).node.signed ⊆ (pod'.replica r).node.signed := by
  induction run with
  | refl => exact ⟨inv, fun _ _ => List.Subset.refl _⟩
  | tail _ step ih =>
    obtain ⟨middle, kept⟩ := ih
    exact ⟨middle.step step, fun r correct => List.Subset.trans (kept r correct) (middle.signed_step step correct)⟩

end Invariant

section Alone

namespace PodSetup

variable {C : Type} [DecidableEq C] {setup : PodSetup C} {pod : Pod C}

/-- A correct replica can run on its own. -/
theorem run_replica {r : ReplicaId} {p : PodNetworkNode} (correct : r ∈ setup.correct)
    (reach : IntakeReach setup.recordCodec (setup.sign r) r DrawsFresh p) (start : pod.replica r = .initial) :
    setup.Run pod (pod.setReplica r p) := by
  induction reach with
  | start =>
    have same : pod.setReplica r .initial = pod := by
      simp only [Pod.setReplica, ← start]
      congr 1
      funext r'
      split
      · rename_i own
        rw [own]
      · rfl
    rw [same]
  | @next p event p' _ fresh step ih =>
    have at_ : (pod.setReplica r p).replica r = p := by simp [Pod.setReplica]
    have moved := Relation.ReflTransGen.tail ih (.replica correct (at_.symm ▸ fresh) (at_.symm ▸ step))
    have same : (pod.setReplica r p).setReplica r p' = pod.setReplica r p' := by
      simp only [Pod.setReplica]
      congr 1
      funext r'
      split <;> rfl
    rwa [same] at moved

theorem setClient_setClient {c : C} {q q' : ClientState × Option ReplicaId} :
    (pod.setClient c q).setClient c q' = pod.setClient c q' := by
  simp only [Pod.setClient]
  congr 1
  funext c'
  split <;> rfl

/-- A client can run on its own, on votes that nobody has forged. -/
theorem run_client {c : C} {votes : List Vote} {q : ClientState × Option ReplicaId}
    (feed : ClientFeed setup.verifyStrict (initPodNetworkClient (setup.config c)).1 (pod.client c) votes q)
    (genuine : ∀ vote ∈ votes, setup.Genuine pod vote) : setup.Run pod (pod.setClient c q) := by
  have at_ : ∀ q, (pod.setClient c q).client c = q := fun q => by simp [Pod.setClient]
  induction feed with
  | start =>
    have same : pod.setClient c (pod.client c) = pod := by
      simp only [Pod.setClient]
      congr 1
      funext c'
      split
      · rename_i own
        rw [own]
      · rfl
    rw [same]
  | receive _ received ih =>
    have before := ih fun vote member => genuine vote (List.mem_append_left _ member)
    have last := genuine _ (List.mem_append_right _ (List.mem_singleton_self _))
    have moved := Relation.ReflTransGen.tail before (.receive (at_ _) last received)
    rwa [setClient_setClient] at moved
  | drain _ drained ih =>
    have moved := Relation.ReflTransGen.tail (ih genuine) (.drain (at_ _) drained)
    rwa [setClient_setClient] at moved
  | leave _ stop ih =>
    have moved := Relation.ReflTransGen.tail (ih genuine) (.leave (at_ _) stop)
    rwa [setClient_setClient] at moved

end PodSetup

/-- Replica 7 with two clients. -/
def standInPod : PodSetup Bool where
  recordCodec := voteRecordCodec
  verifyStrict := standInVerify
  sign _ := standInSign (Vector.replicate 32 3)
  key _ := Vector.replicate 32 3
  correct := {7}
  config _ := standInReplicas [7]
  configured c r member := by
    cases Finset.mem_singleton.mp member
    decide +kernel

/-- A replica has read one message and voted on it. -/
theorem standIn_voted :
    ∃ p, IntakeReach voteRecordCodec (standInSign (Vector.replicate 32 3)) 7 DrawsFresh p ∧
      p.node.signed = [standInVote 7 [65] 5 0] := by
  have work : ∀ st, DrawsFresh st .work := fun _ drawn => absurd drawn (by simp)
  have accepted : IntakeReach voteRecordCodec (standInSign (Vector.replicate 32 3)) 7 DrawsFresh _ :=
    IntakeReach.start.next (work _) .accept
  have arrived := accepted.next (work _) (.arrive (i := 0) (.binary [65]) rfl (by simp [WsItem.Fits, maxMessageSize]))
  have read := arrived.next (work _) (.read (i := 0) rfl rfl rfl rfl)
  have sent := read.next (work _) (.send (i := 0) rfl rfl (by decide))
  have received := sent.next (fun _ => ⟨by decide, fun _ past => absurd past List.not_mem_nil⟩) (.receive rfl rfl)
  have stamped := received.next (fun drawn => absurd drawn (by simp)) (.node (.readClock 5 rfl) (by decide) (by simp))
  have signed := stamped.next (work _) (.node (.sign rfl rfl) (by decide) (by simp))
  exact ⟨_, signed, rfl⟩

theorem standInPod_genuine {p : PodNetworkNode} (signed : p.node.signed = [standInVote 7 [65] 5 0])
    {pod : Pod Bool} (at_ : pod.replica 7 = p) :
    ∀ vote ∈ [standInVote 7 [65] 5 0], standInPod.Genuine pod vote := by
  intro vote member _ tx carried _
  cases List.mem_singleton.mp member
  cases Option.some.inj carried
  show votePayload [65] 5 0 ∈ (pod.replica 7).node.signedMessages
  rw [at_, Node.signedMessages, signed]
  exact List.mem_singleton_self _

/-- The replica has voted on one message. First one of the clients has the vote, then both. -/
theorem standInPod_run :
    ∃ pod pod' s, standInPod.Reach pod ∧ standInPod.Run pod pod' ∧ standInPod.Room pod' ∧
      s.nextsn.lookup 7 = some 1 ∧ s.stamp ⟨[65]⟩ 7 = some 5 ∧ pod.client true = (s, none) ∧
      pod.client false = ((initPodNetworkClient (standInReplicas [7])).2, none) ∧ pod'.client false = (s, none) := by
  obtain ⟨p, reach, signed⟩ := standIn_voted
  have voted : standInPod.Reach (standInPod.initial.setReplica 7 p) :=
    PodSetup.run_replica (Finset.mem_singleton_self _) reach rfl
  have ends : (startPodDataUpdater standInVerify (initPodNetworkClient (standInReplicas [7])).1
      [standInVote 7 [65] 5 0] (initPodNetworkClient (standInReplicas [7])).2).toOption.any
        (fun s => decide (s.nextsn.lookup 7 = some 1 ∧ s.stamp ⟨[65]⟩ 7 = some 5)) = true := by
    decide +kernel
  obtain ⟨s, run, final⟩ := exists_ok_of_any ends
  obtain ⟨counter, stamp⟩ := of_decide_eq_true final
  have first : standInPod.Run (standInPod.initial.setReplica 7 p)
      ((standInPod.initial.setReplica 7 p).setClient true (s, none)) :=
    PodSetup.run_client (startPodDataUpdater_feed run) (standInPod_genuine signed rfl)
  have second : standInPod.Run ((standInPod.initial.setReplica 7 p).setClient true (s, none))
      (((standInPod.initial.setReplica 7 p).setClient true (s, none)).setClient false (s, none)) :=
    PodSetup.run_client (startPodDataUpdater_feed run) (standInPod_genuine signed rfl)
  refine ⟨_, _, s, voted.trans first, second, ?_, counter, stamp, rfl, rfl, rfl⟩
  intro r correct
  cases Finset.mem_singleton.mp correct
  refine ⟨1, fun vote member => ?_⟩
  have same : vote ∈ p.node.signed := member
  rw [signed] at same
  cases List.mem_singleton.mp same
  decide

end Alone

section Abstraction

/-- What a replica has signed under a number. -/
def Node.slot (st : Node) (n : Nat) : Option Entry :=
  (st.signed.find? fun vote => vote.sequenceNumber.toNat = n).bind fun vote =>
    vote.transaction.map fun tx => (tx, vote.timestamp)

/-- The pod as its clients are meant to see it: every correct replica is a log of numbered
entries, and every client reads it from its beginning. -/
def PodSetup.ledger {C : Type} (setup : PodSetup C) (pod : Pod C) :
    Ledger {r // r ∈ setup.correct} C Entry where
  slot r n := (pod.replica r).node.slot n
  taken c r := (((pod.client c).1.nextsn.lookup r.1).getD 0).toNat

variable {recordCodec : Codec VoteRecord} {sign : List UInt8 → Signature} {r : ReplicaId} {st st' : Node}
  {n : Nat} {tx : Transaction} {ts : Timestamp}

/-- A slot holds what was signed under its number. -/
theorem NodeReach.slot_iff (reach : NodeReach recordCodec sign r DrawsFresh st) :
    st.slot n = some (tx, ts) ↔
      ∃ sn : SequenceNumber, sn.toNat = n ∧ signedVote sign r tx.data ts sn ∈ st.signed := by
  have distinct := reach.apart.signed_nodup reach.counted
  rw [Node.slot, Option.bind_eq_some_iff]
  constructor
  · rintro ⟨vote, found, entry⟩
    have number : vote.sequenceNumber.toNat = n := by simpa using List.find?_some found
    obtain ⟨data, ts', sn, rfl⟩ := reach.signed_form vote (List.mem_of_find?_eq_some found)
    simp only [signedVote, Option.map_some, Option.some.injEq, Prod.mk.injEq] at entry
    obtain ⟨rfl, rfl⟩ := entry
    exact ⟨sn, number, List.mem_of_find?_eq_some found⟩
  · rintro ⟨sn, rfl, member⟩
    have some : (st.signed.find? fun vote => vote.sequenceNumber.toNat = sn.toNat).isSome := by
      rw [List.find?_isSome]
      exact ⟨_, member, by simp [signedVote]⟩
    obtain ⟨vote, found⟩ := Option.isSome_iff_exists.mp some
    have number : vote.sequenceNumber.toNat = sn.toNat := by simpa using List.find?_some found
    have same : vote = signedVote sign r tx.data ts sn :=
      List.inj_on_of_nodup_map distinct (List.mem_of_find?_eq_some found) member (UInt64.toNat_inj.mp number)
    exact ⟨vote, found, by rw [same]; rfl⟩

/-- One more vote fills one more slot, which was empty. -/
theorem NodeReach.slot_append {data : List UInt8} {sn : SequenceNumber}
    (reach : NodeReach recordCodec sign r DrawsFresh st')
    (more : st'.signed = st.signed ++ [signedVote sign r data ts sn]) :
    st.slot sn.toNat = none ∧
      ∀ n, st'.slot n = if n = sn.toNat then some (⟨data⟩, ts) else st.slot n := by
  have distinct := reach.apart.signed_nodup reach.counted
  rw [more, List.map_append, List.map_singleton, List.nodup_append] at distinct
  have empty : (st.signed.find? fun vote => vote.sequenceNumber.toNat = sn.toNat) = none := by
    rw [List.find?_eq_none]
    intro vote member same
    have number : vote.sequenceNumber = sn := UInt64.toNat_inj.mp (by simpa using same)
    exact distinct.2.2 _ (List.mem_map_of_mem member) sn (List.mem_singleton_self _) number
  constructor
  · rw [Node.slot, empty]
    rfl
  · intro n
    rw [Node.slot, Node.slot, more, List.find?_append]
    by_cases same : n = sn.toNat
    · rw [if_pos same, same, empty]
      simp [signedVote]
    · have other : ¬ sn.toNat = n := fun equal => same equal.symm
      simp [signedVote, same, other]

end Abstraction

section Refinement

variable {C : Type} {setup : PodSetup C} {pod pod' : Pod C} {c : C} {r : ReplicaId}

/-- The counter of a client has not been round: some number was never signed. -/
theorem PodInv.counter_room (inv : PodInv setup pod) (room : setup.Room pod) {vote : Vote}
    (called : (r, vote) ∈ (pod.client c).1.calls) (correct : r ∈ setup.correct) {sn : SequenceNumber}
    (number : sn = vote.sequenceNumber)
    (below : ∀ m < sn, ∃ other, (r, other) ∈ (pod.client c).1.calls ∧ other.sequenceNumber = m) :
    (sn + 1).toNat = sn.toNat + 1 := by
  obtain ⟨free, unsigned⟩ := room r correct
  have vetted := ClientReach.vetted (s := (pod.client c).1) (d := (pod.client c).2) (inv.client c)
  have used : ∀ {w : Vote}, (r, w) ∈ (pod.client c).1.calls → w.sequenceNumber ≠ free := by
    intro w member
    obtain ⟨rfl, _⟩ := vetted.calls r w member
    obtain ⟨data, _, signed⟩ := inv.signed c w (Or.inl ⟨_, member⟩) correct
    exact unsigned (signedVote _ _ data w.timestamp w.sequenceNumber) signed
  have above : sn < free := by
    rcases lt_trichotomy sn free with less | same | greater
    · exact less
    · exact absurd (number ▸ same) (used called)
    · obtain ⟨other, member, same⟩ := below free greater
      exact absurd same (used member)
  exact Word.toNat_succ above

/-- A vote that a correct replica signs fills a slot of its log. -/
theorem ledger_setReplica {p : PodNetworkNode} {data : List UInt8} {ts : Timestamp} {sn : SequenceNumber}
    (correct : r ∈ setup.correct)
    (reach : IntakeReach setup.recordCodec (setup.sign r) r DrawsFresh p)
    (more : p.node.signed = (pod.replica r).node.signed ++ [signedVote (setup.sign r) r data ts sn]) :
    (setup.ledger pod).slot ⟨r, correct⟩ sn.toNat = none ∧
      setup.ledger (pod.setReplica r p) =
        (setup.ledger pod).write ⟨r, correct⟩ sn.toNat (⟨data⟩, ts) := by
  obtain ⟨empty, filled⟩ := reach.nodeReach.slot_append more
  refine ⟨empty, Ledger.ext (funext fun w => funext fun n => ?_) rfl⟩
  simp only [PodSetup.ledger, Pod.setReplica, Ledger.write, Subtype.ext_iff]
  by_cases same : w.1 = r
  · simp only [same, if_true, true_and, filled]
  · simp only [same, if_false, false_and]

/-- Signing nothing leaves the logs alone. -/
theorem ledger_setReplica_same {p : PodNetworkNode} (same : p.node.signed = (pod.replica r).node.signed) :
    setup.ledger (pod.setReplica r p) = setup.ledger pod := by
  refine Ledger.ext (funext fun w => funext fun n => ?_) rfl
  simp only [PodSetup.ledger, Pod.setReplica]
  split
  · rename_i own
    rw [Node.slot, Node.slot, same, own]
  · rfl

section Client

variable [DecidableEq C] {q : ClientState × Option ReplicaId}

theorem ledger_setClient_same (same : q.1.nextsn = (pod.client c).1.nextsn) :
    setup.ledger (pod.setClient c q) = setup.ledger pod := by
  refine Ledger.ext rfl (funext fun c' => funext fun w => ?_)
  simp only [PodSetup.ledger, Pod.setClient]
  split
  · rename_i own
    rw [same, own]
  · rfl

/-- Counting a vote of a correct replica takes its slot. -/
theorem ledger_setClient (correct : r ∈ setup.correct) {sn : SequenceNumber}
    (expected : (pod.client c).1.nextsn.lookup r = some sn)
    (counted : q.1.nextsn = (pod.client c).1.nextsn.insert r (sn + 1))
    (room : (sn + 1).toNat = sn.toNat + 1) :
    setup.ledger (pod.setClient c q) = (setup.ledger pod).take c ⟨r, correct⟩ := by
  refine Ledger.ext rfl (funext fun c' => funext fun w => ?_)
  obtain ⟨r', inside⟩ := w
  simp only [PodSetup.ledger, Pod.setClient, Ledger.take, Subtype.mk.injEq]
  by_cases own : c' = c
  · subst own
    by_cases same : r' = r
    · subst same
      simp [counted, expected, room]
    · simp [same, counted, Finmap.lookup_insert_of_ne _ same]
  · simp [own]

/-- Counting a vote of another replica takes no slot. -/
theorem ledger_setClient_other (faulty : r ∉ setup.correct) {sn : SequenceNumber}
    (counted : q.1.nextsn = (pod.client c).1.nextsn.insert r sn) :
    setup.ledger (pod.setClient c q) = setup.ledger pod := by
  refine Ledger.ext rfl (funext fun c' => funext fun w => ?_)
  simp only [PodSetup.ledger, Pod.setClient]
  split
  · rename_i own
    subst own
    have other : w.1 ≠ r := fun same => faulty (same ▸ w.2)
    rw [counted, Finmap.lookup_insert_of_ne _ other]
  · rfl

/-- The pod runs as the ledger does, and what a client keeps of a correct replica is its
account of what it has taken. -/
structure Mirrors (setup : PodSetup C) (pod : Pod C) : Prop where
  run : Ledger.Run .initial (setup.ledger pod)
  accounts : ∀ c r, (pod.client c).1.account r.1 = (setup.ledger pod).value Account.consume .empty c r

theorem Mirrors.write {p : PodNetworkNode} (mirrors : Mirrors setup pod) (correct : r ∈ setup.correct)
    (reach : IntakeReach setup.recordCodec (setup.sign r) r DrawsFresh p)
    (signed : p.node.signed = (pod.replica r).node.signed ∨ ∃ data ts sn,
      p.node.signed = (pod.replica r).node.signed ++ [signedVote (setup.sign r) r data ts sn]) :
    Mirrors setup (pod.setReplica r p) ∧ Ledger.Run (setup.ledger pod) (setup.ledger (pod.setReplica r p)) := by
  rcases signed with same | ⟨data, ts, sn, more⟩
  · obtain ⟨run, accounts⟩ := mirrors
    rw [← ledger_setReplica_same same] at run accounts
    exact ⟨⟨run, accounts⟩, ledger_setReplica_same same ▸ .refl⟩
  · obtain ⟨empty, written⟩ := ledger_setReplica correct reach more
    have moves : Ledger.Run (setup.ledger pod) (setup.ledger (pod.setReplica r p)) :=
      written ▸ .single (.write _ _ _ empty)
    refine ⟨⟨mirrors.run.trans moves, fun c r' => ?_⟩, moves⟩
    rw [written, mirrors.run.filled.value_write empty]
    exact mirrors.accounts c r'

/-- The views of a client change by one entry of one replica. -/
theorem Mirrors.take {s' : ClientState} {d' : Option ReplicaId} {vote : Vote} {tx : Transaction}
    (mirrors : Mirrors setup pod)
    (expected : (pod.client c).1.nextsn.lookup vote.replicaId = some vote.sequenceNumber)
    (counted : s'.nextsn = (pod.client c).1.nextsn.insert vote.replicaId (vote.sequenceNumber + 1))
    (account : ∀ r, s'.account r = if r = vote.replicaId then
      Account.consume (tx, vote.timestamp) ((pod.client c).1.account vote.replicaId)
      else (pod.client c).1.account r)
    (room : vote.replicaId ∈ setup.correct →
      (vote.sequenceNumber + 1).toNat = vote.sequenceNumber.toNat + 1 ∧
      (pod.replica vote.replicaId).node.slot vote.sequenceNumber.toNat = some (tx, vote.timestamp)) :
    Mirrors setup (pod.setClient c (s', d')) ∧
      Ledger.Run (setup.ledger pod) (setup.ledger (pod.setClient c (s', d'))) := by
  by_cases correct : vote.replicaId ∈ setup.correct
  · obtain ⟨goesOn, filled⟩ := room correct
    have taken : (setup.ledger pod).taken c ⟨vote.replicaId, correct⟩ = vote.sequenceNumber.toNat := by
      simp only [PodSetup.ledger, expected, Option.getD_some]
    have next : (setup.ledger pod).slot ⟨vote.replicaId, correct⟩
        ((setup.ledger pod).taken c ⟨vote.replicaId, correct⟩) = some (tx, vote.timestamp) := by
      rw [taken]
      exact filled
    have moved : setup.ledger (pod.setClient c (s', d')) =
        (setup.ledger pod).take c ⟨vote.replicaId, correct⟩ :=
      ledger_setClient correct expected counted goesOn
    have moves : Ledger.Run (setup.ledger pod) (setup.ledger (pod.setClient c (s', d'))) :=
      moved ▸ .single (.take _ _ (by rw [next]; rfl))
    refine ⟨⟨mirrors.run.trans moves, fun c' r => ?_⟩, moves⟩
    rw [moved]
    simp only [Pod.setClient]
    by_cases own : c' = c ∧ r = ⟨vote.replicaId, correct⟩
    · obtain ⟨rfl, rfl⟩ := own
      rw [if_pos rfl, account, if_pos rfl, Ledger.value_take next, ← mirrors.accounts]
    · rw [Ledger.value_take_other own, ← mirrors.accounts]
      split
      · rename_i same
        subst same
        rw [account, if_neg fun named => own ⟨rfl, Subtype.ext named⟩]
      · rfl
  · have same : setup.ledger (pod.setClient c (s', d')) = setup.ledger pod :=
      ledger_setClient_other correct counted
    refine ⟨⟨same ▸ mirrors.run, fun c' r => ?_⟩, same ▸ .refl⟩
    rw [same, ← mirrors.accounts]
    simp only [Pod.setClient]
    split
    · rename_i own
      subst own
      have other : r.1 ≠ vote.replicaId := fun named => correct (named ▸ r.2)
      rw [account, if_neg other]
    · rfl

theorem PodInv.mirrors_step (inv : PodInv setup pod) (step : setup.Step pod pod') (room : setup.Room pod')
    (mirrors : Mirrors setup pod) :
    Mirrors setup pod' ∧ Ledger.Run (setup.ledger pod) (setup.ledger pod') := by
  have inv' := inv.step step
  rcases step.cases with ⟨r, event, p, correct, fresh, move, rfl⟩ | ⟨c, ⟨s', d'⟩, move, rfl, _⟩
  · refine mirrors.write correct ((inv.replica r correct).next fresh move) ?_
    exact move.signed_cases (inv.replica r correct).intaken
  · have move' : ClientStep setup.verifyStrict (initPodNetworkClient (setup.config c)).1
        ((pod.client c).1, (pod.client c).2) (s', d') := move
    have vetted : Vetted setup.verifyStrict (initPodNetworkClient (setup.config c)).1 (pod.client c).1 :=
      ClientReach.vetted (inv.client c)
    rcases move'.call_cases vetted with ⟨same, _, counters⟩ |
      ⟨vote, tx, mrtEntry, t, _, carried, expected, same, calls, counted, known, _, rfl⟩
    · have unmoved : setup.ledger (pod.setClient c (s', d')) = setup.ledger pod :=
        ledger_setClient_same counters
      refine ⟨⟨unmoved ▸ mirrors.run, fun c' r => ?_⟩, unmoved ▸ .refl⟩
      rw [unmoved, ← mirrors.accounts]
      simp only [Pod.setClient]
      split
      · rename_i own
        subst own
        simp only [ClientState.account, ClientState.stamp, same.tsps, same.mrt]
      · rfl
    · have account : ∀ r, (afterVote vote.replicaId tx vote.timestamp mrtEntry vote t).account r =
          if r = vote.replicaId then
            Account.consume (tx, vote.timestamp) ((pod.client c).1.account vote.replicaId)
          else (pod.client c).1.account r := by
        intro r
        rw [account_afterVote known carried]
        simp only [ClientState.account, ClientState.stamp, same.tsps, same.mrt]
      refine mirrors.take expected counted account fun correct => ?_
      have after : ((pod.setClient c (afterVote vote.replicaId tx vote.timestamp mrtEntry vote t, d')).client
          c).1.calls = (pod.client c).1.calls ++ [(vote.replicaId, vote)] := by
        simp only [Pod.setClient, if_true, ← calls]
        rfl
      have called : (vote.replicaId, vote) ∈ ((pod.setClient c
          (afterVote vote.replicaId tx vote.timestamp mrtEntry vote t, d')).client c).1.calls := by
        rw [after]
        exact List.mem_append_right _ (List.mem_singleton_self _)
      obtain ⟨data, carries, signed⟩ := inv'.signed c vote (Or.inl ⟨_, called⟩) correct
      cases Option.some.inj (carried.symm.trans carries)
      constructor
      · refine inv'.counter_room room called correct rfl fun m before => ?_
        obtain ⟨other, member, number⟩ :=
          (ClientReach.sequenced (inv.client c) vote.replicaId).passed _ m expected before
        exact ⟨other, by rw [after]; exact List.mem_append_left _ member, number⟩
      · exact (inv.replica _ correct).nodeReach.slot_iff.mpr ⟨vote.sequenceNumber, rfl, signed⟩

/-- A free number at the end was free all along. -/
theorem PodSetup.Run.room (run : setup.Run pod pod') (inv : PodInv setup pod) (room : setup.Room pod') :
    setup.Room pod := by
  intro r correct
  obtain ⟨free, unsigned⟩ := room r correct
  exact ⟨free, fun vote member => unsigned vote ((run.signed inv).2 r correct member)⟩

theorem Mirrors.initial : Mirrors setup setup.initial := by
  have empty : setup.ledger setup.initial = .initial := by
    refine Ledger.ext (funext fun r => funext fun n => rfl) (funext fun c => funext fun r => ?_)
    have zero := lookup_foldl_zero (setup.config c) ∅ (fun r => by simp) r
    simp only [PodSetup.ledger, PodSetup.initial, initPodNetworkClient, Ledger.initial, zero]
    rfl
  refine ⟨empty ▸ .refl, fun c r => ?_⟩
  have lane := congrArg (fun lane => (⟨lane.out.mrt, lane.out.stamps⟩ : Account)) (init_lane (setup.config c) r)
  rw [empty]
  exact lane

/-- A run of the pod is a run of the ledger. -/
theorem PodSetup.Run.mirrors (run : setup.Run pod pod') (inv : PodInv setup pod) (room : setup.Room pod')
    (mirrors : Mirrors setup pod) :
    Mirrors setup pod' ∧ Ledger.Run (setup.ledger pod) (setup.ledger pod') := by
  induction run with
  | refl => exact ⟨mirrors, .refl⟩
  | tail before step ih =>
    obtain ⟨middle, _⟩ := PodSetup.Run.signed before inv
    obtain ⟨reached, moves⟩ := ih (PodSetup.Run.room (.single step) middle room)
    obtain ⟨after, move⟩ := middle.mirrors_step step room reached
    exact ⟨after, moves.trans move⟩

theorem PodSetup.Reach.mirrors (reach : setup.Reach pod) (room : setup.Room pod) : Mirrors setup pod :=
  (PodSetup.Run.mirrors reach .initial room .initial).1

theorem PodSetup.Run.histories (reach : setup.Reach pod) (later : setup.Run pod pod') (room : setup.Room pod')
    (r : {r // r ∈ setup.correct}) (a b : C) :
    (pod.client a).1.account r = .of ((setup.ledger pod).history a r) ∧
    (pod'.client b).1.account r = .of ((setup.ledger pod').history b r) ∧
    ((setup.ledger pod).taken a r ≤ (setup.ledger pod').taken b r →
      (setup.ledger pod).history a r <+: (setup.ledger pod').history b r) ∧
    ((setup.ledger pod').taken b r ≤ (setup.ledger pod).taken a r →
      (setup.ledger pod').history b r <+: (setup.ledger pod).history a r) := by
  have inv := reach.inv
  have before := reach.mirrors (PodSetup.Run.room later inv room)
  obtain ⟨after, moves⟩ := PodSetup.Run.mirrors later inv room before
  exact ⟨before.accounts a r, after.accounts b r, before.run.filled.history_prefix (Ledger.Run.extends moves)⟩

/-- Two clients at two moments of one run: whoever has counted fewer votes of a correct
replica knows nothing of it that the other does not know. -/
theorem clients_agree_on_correct_replica (setup : PodSetup C) (pod pod' : Pod C) (reach : setup.Reach pod)
    (later : setup.Run pod pod') (room : setup.Room pod') :
    ∀ r ∈ setup.correct, ∀ a b n m, (pod.client a).1.nextsn.lookup r = some n →
      (pod'.client b).1.nextsn.lookup r = some m →
      (n ≤ m → ((pod.client a).1.account r).Le ((pod'.client b).1.account r)) ∧
      (m ≤ n → ((pod'.client b).1.account r).Le ((pod.client a).1.account r)) ∧
      ∀ tx ts ts', (pod.client a).1.stamp tx r = some ts → (pod'.client b).1.stamp tx r = some ts' →
        ts = ts' := by
  intro r correct a b n m counterA counterB
  obtain ⟨accountA, accountB, prefixes⟩ := PodSetup.Run.histories reach later room ⟨r, correct⟩ a b
  have takenA : (setup.ledger pod).taken a ⟨r, correct⟩ = n.toNat := by
    simp only [PodSetup.ledger, counterA, Option.getD_some]
  have takenB : (setup.ledger pod').taken b ⟨r, correct⟩ = m.toNat := by
    simp only [PodSetup.ledger, counterB, Option.getD_some]
  rw [takenA, takenB] at prefixes
  have first : n ≤ m → ((pod.client a).1.account r).Le ((pod'.client b).1.account r) := by
    intro le
    rw [accountA, accountB]
    exact Account.of_mono (prefixes.1 (UInt64.le_iff_toNat_le.mp le))
  have second : m ≤ n → ((pod'.client b).1.account r).Le ((pod.client a).1.account r) := by
    intro le
    rw [accountA, accountB]
    exact Account.of_mono (prefixes.2 (UInt64.le_iff_toNat_le.mp le))
  refine ⟨first, second, fun tx ts ts' stampA stampB => ?_⟩
  rcases le_total n m with le | le
  · have same := (first le).2 tx ts stampA
    exact Option.some.inj (same.symm.trans stampB)
  · have same := (second le).2 tx ts' stampB
    exact Option.some.inj (stampA.symm.trans same)

/-- One client has the vote at the first moment, the other at the second. -/
theorem clients_agree_on_correct_replica_one_vote :
    ∃ pod pod', standInPod.Reach pod ∧ standInPod.Run pod pod' ∧ standInPod.Room pod' ∧
      (pod.client true).1.stamp ⟨[65]⟩ 7 = some 5 ∧ (pod'.client false).1.stamp ⟨[65]⟩ 7 = some 5 ∧
      ((1 : SequenceNumber) ≤ 1 → ((pod.client true).1.account 7).Le ((pod'.client false).1.account 7)) ∧
      ((1 : SequenceNumber) ≤ 1 → ((pod'.client false).1.account 7).Le ((pod.client true).1.account 7)) ∧
      ∀ tx ts ts', (pod.client true).1.stamp tx 7 = some ts → (pod'.client false).1.stamp tx 7 = some ts' →
        ts = ts' := by
  obtain ⟨pod, pod', s, reach, later, room, counter, stamp, first, _, second⟩ := standInPod_run
  exact ⟨pod, pod', reach, later, room, first ▸ stamp, second ▸ stamp,
    clients_agree_on_correct_replica standInPod pod pod' reach later room 7 (Finset.mem_singleton_self _)
      true false 1 1 (first ▸ counter) (second ▸ counter)⟩

/-- A replica has signed a timestamp for a transaction that some client had sent to it. -/
def PodSetup.Signed (setup : PodSetup C) (pod : Pod C) (r : ReplicaId) (tx : Transaction) (ts : Timestamp) : Prop :=
  tx ∈ (pod.replica r).heard ∧
    ∃ sn, signedVote (setup.sign r) r tx.data ts sn ∈ (pod.replica r).node.signed

omit [DecidableEq C] in
/-- What a client has processed under the name of a correct replica, the replica has signed. -/
theorem PodInv.called_signed (inv : PodInv setup pod) {c : C} {r : ReplicaId} {vote : Vote}
    (called : (r, vote) ∈ (pod.client c).1.calls) (correct : r ∈ setup.correct) :
    ∃ data, vote.transaction = some ⟨data⟩ ∧
      signedVote (setup.sign r) r data vote.timestamp vote.sequenceNumber ∈ (pod.replica r).node.signed := by
  have vetted : Vetted setup.verifyStrict (initPodNetworkClient (setup.config c)).1 (pod.client c).1 :=
    ClientReach.vetted (inv.client c)
  obtain ⟨rfl, _⟩ := vetted.calls r vote called
  exact inv.signed c vote (Or.inl ⟨_, called⟩) correct

omit [DecidableEq C] in
/-- Nothing comes from nowhere: a transaction for which a client has an entry of a correct
replica was sent to that replica by some client, and the replica has signed the entry. -/
theorem PodInv.stamp_signed (inv : PodInv setup pod) {c : C} {r : ReplicaId} {tx : Transaction} {ts : Timestamp}
    (correct : r ∈ setup.correct) (stamp : (pod.client c).1.stamp tx r = some ts) :
    setup.Signed pod r tx ts := by
  have applied := ClientRun.applied (inv.client c) (init_applied (setup.config c))
  obtain ⟨plain, vote, called, carried, same⟩ := applied.stamp tx r ts stamp
  obtain ⟨data, carries, signed⟩ := inv.called_signed called correct
  cases Option.some.inj (carried.symm.trans carries)
  rw [same] at signed
  refine ⟨?_, vote.sequenceNumber, signed⟩
  rcases (inv.replica _ correct).heard.signed _ signed ⟨data⟩ rfl with heard | heartbeat
  · exact heard
  · exact absurd heartbeat (by simpa [isHeartbeat] using plain)

end Client

end Refinement

end Podnet
