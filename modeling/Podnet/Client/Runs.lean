import Podnet.Client.Lanes

namespace Podnet

/-- The updater between two calls of `processVote`. A state is paired with the
replica whose backlog is being drained; a read can see every such state. -/
inductive ClientStep (verifyStrict : VerifyStrict) (replicas : HashMap ReplicaId Replica) :
    ClientState × Option ReplicaId → ClientState × Option ReplicaId → Prop
  | receive {vote s s' next} : receiveVote verifyStrict replicas vote s = .ok (s', next) →
      ClientStep verifyStrict replicas (s, none) (s', next)
  | drain {r s s'} : drainBacklogStep r s = .ok (some s') →
      ClientStep verifyStrict replicas (s, some r) (s', some r)
  | leave {r s} : drainBacklogStep r s = .ok none →
      ClientStep verifyStrict replicas (s, some r) (s, none)

/-- Any number of steps of the updater, on any arriving votes. -/
abbrev ClientRun (verifyStrict : VerifyStrict) (replicas : HashMap ReplicaId Replica) :=
  Relation.ReflTransGen (ClientStep verifyStrict replicas)

/-- A state the client can be in, from `initPodNetworkClient` on. -/
def ClientReach (verifyStrict : VerifyStrict) (replicasList : List Replica)
    (s : ClientState × Option ReplicaId) : Prop :=
  ClientRun verifyStrict (initPodNetworkClient replicasList).1
    ((initPodNetworkClient replicasList).2, none) s

/-- The updater on an arrival sequence. Besides the state it keeps the votes taken
from the channel so far. -/
inductive ClientFeed (verifyStrict : VerifyStrict) (replicas : HashMap ReplicaId Replica)
    (start : ClientState × Option ReplicaId) : List Vote → ClientState × Option ReplicaId → Prop
  | start : ClientFeed verifyStrict replicas start [] start
  | receive {votes vote s s' next} : ClientFeed verifyStrict replicas start votes (s, none) →
      receiveVote verifyStrict replicas vote s = .ok (s', next) →
      ClientFeed verifyStrict replicas start (votes ++ [vote]) (s', next)
  | drain {votes r s s'} : ClientFeed verifyStrict replicas start votes (s, some r) →
      drainBacklogStep r s = .ok (some s') → ClientFeed verifyStrict replicas start votes (s', some r)
  | leave {votes r s} : ClientFeed verifyStrict replicas start votes (s, some r) →
      drainBacklogStep r s = .ok none → ClientFeed verifyStrict replicas start votes (s, none)

variable {verifyStrict : VerifyStrict} {replicas : HashMap ReplicaId Replica}
  {s s' : ClientState} {d d' : Option ReplicaId}

theorem processVote_ok {r : ReplicaId} {tx : Transaction} {ts : Timestamp} {vote : Vote}
    (run : processVote r tx ts vote s = .ok s') :
    ∃ mrtEntry, s.mrt.lookup r = some mrtEntry ∧ s' = afterVote r tx ts mrtEntry vote s := by
  cases known : s.mrt.lookup r with
  | none => simp [processVote, known] at run
  | some mrtEntry =>
    rw [processVote_eq known] at run
    exact ⟨mrtEntry, rfl, (Except.ok.inj run).symm⟩

theorem drainBacklogStep_empty {r : ReplicaId} (empty : backlogSize r s = 0) :
    drainBacklogStep r s = .ok none := by
  refine drainBacklogStep_none ?_
  rw [Option.bind_eq_none_iff]
  intro kept backlog
  have none : kept.keys = ∅ := by simpa [backlogSize, backlog] using empty
  cases first : BTreeMap.firstKeyValue kept with
  | none => rfl
  | some entry =>
    have inside := Finmap.mem_of_lookup_eq_some (BTreeMap.firstKeyValue_some first).1
    rw [← Finmap.mem_keys, none] at inside
    exact absurd inside (Finset.notMem_empty _)

theorem drainBacklogStep_size {r : ReplicaId} (step : drainBacklogStep r s = .ok (some s')) :
    backlogSize r s' + 1 = backlogSize r s := by
  obtain ⟨kept, nextsn, vote, backlog, first, _, outcome⟩ := drainBacklogStep_cases step
  have inside : nextsn ∈ kept.keys :=
    Finmap.mem_keys.mpr (Finmap.mem_of_lookup_eq_some (BTreeMap.firstKeyValue_some first).1)
  have left : s'.backlog.lookup r = some (kept.erase nextsn) := by
    rcases outcome with ⟨_, rfl⟩ | ⟨tx, _, run⟩
    · simp [takeFromBacklog, countVote]
    · obtain ⟨mrtEntry, _, rfl⟩ := processVote_ok run
      simp [takeFromBacklog, countVote, afterVote]
  simp only [backlogSize, backlog, left, Finmap.keys_erase, Finset.card_erase_add_one inside]

theorem ClientFeed.trans {first second : List Vote} {p q e : ClientState × Option ReplicaId}
    (feed : ClientFeed verifyStrict replicas p first q)
    (rest : ClientFeed verifyStrict replicas q second e) :
    ClientFeed verifyStrict replicas p (first ++ second) e := by
  induction rest with
  | start => simpa only [List.append_nil] using feed
  | receive _ received ih =>
    rw [← List.append_assoc]
    exact ih.receive received
  | drain _ drained ih => exact ih.drain drained
  | leave _ stop ih => exact ih.leave stop

theorem ClientFeed.run {votes : List Vote} {p q : ClientState × Option ReplicaId}
    (feed : ClientFeed verifyStrict replicas p votes q) : ClientRun verifyStrict replicas p q := by
  induction feed with
  | start => exact .refl
  | receive _ received ih => exact ih.tail (.receive received)
  | drain _ drained ih => exact ih.tail (.drain drained)
  | leave _ stop ih => exact ih.tail (.leave stop)

/-- The fuel of the backlog loop never cuts it short: the loop ends because its
condition fails. -/
theorem drainBacklog_feed {r : ReplicaId} {fuel : Nat} (enough : backlogSize r s ≤ fuel)
    (run : drainBacklog r fuel s = .ok s') :
    ClientFeed verifyStrict replicas (s, some r) [] (s', none) := by
  induction fuel generalizing s with
  | zero =>
    cases Except.ok.inj run
    exact ClientFeed.start.leave (drainBacklogStep_empty (Nat.le_zero.mp enough))
  | succ fuel ih =>
    unfold drainBacklog at run
    split at run
    · simp at run
    · rename_i stop
      cases Except.ok.inj run
      exact ClientFeed.start.leave stop
    · rename_i s₁ step
      have size := drainBacklogStep_size step
      exact (ClientFeed.start.drain step).trans (ih (by omega) run)

theorem updateWithVote_feed {vote : Vote}
    (run : updateWithVote verifyStrict replicas vote s = .ok s') :
    ClientFeed verifyStrict replicas (s, none) [vote] (s', none) := by
  unfold updateWithVote at run
  split at run
  · simp at run
  · rename_i s₁ received
    cases Except.ok.inj run
    exact ClientFeed.start.receive received
  · rename_i s₁ r received
    exact (ClientFeed.start.receive received).trans (drainBacklog_feed le_rfl run)

/-- A whole run of the updater is a run of its small steps on the same votes. -/
theorem startPodDataUpdater_feed {votes : List Vote}
    (run : startPodDataUpdater verifyStrict replicas votes s = .ok s') :
    ClientFeed verifyStrict replicas (s, none) votes (s', none) := by
  induction votes generalizing s with
  | nil =>
    cases Except.ok.inj run
    exact .start
  | cons vote votes ih =>
    unfold startPodDataUpdater at run
    split at run
    · simp at run
    · rename_i s₁ step
      exact (updateWithVote_feed step).trans (ih run)

theorem startPodDataUpdater_run {votes : List Vote}
    (run : startPodDataUpdater verifyStrict replicas votes s = .ok s') :
    ClientRun verifyStrict replicas (s, none) (s', none) :=
  (startPodDataUpdater_feed run).run

/-- An evaluated run ends in a state with the evaluated property. -/
theorem exists_ok_of_any {E A : Type} {result : Except E A} {p : A → Bool}
    (ends : result.toOption.any p = true) : ∃ a, result = .ok a ∧ p a = true := by
  cases result with
  | error e => simp [Except.toOption] at ends
  | ok a => exact ⟨a, rfl, ends⟩

/-- Two states that a read cannot tell apart. -/
structure SameView (s t : ClientState) : Prop where
  tsps : t.tsps = s.tsps
  mrt : t.mrt = s.mrt
  tsVoteMsg : t.tsVoteMsg = s.tsVoteMsg

theorem SameView.refl (s : ClientState) : SameView s s := ⟨rfl, rfl, rfl⟩

/-- Everything a step can do to the shared maps and the processed votes: nothing,
or one processed vote of a replica that has a counter. -/
theorem ClientStep.view_cases (step : ClientStep verifyStrict replicas (s, d) (s', d')) :
    (SameView s s' ∧ s'.calls = s.calls) ∨ ∃ r tx vote mrtEntry t, SameView s t ∧ t.calls = s.calls ∧
      vote.transaction = some tx ∧ t.mrt.lookup r = some mrtEntry ∧
      s' = afterVote r tx vote.timestamp mrtEntry vote t := by
  cases step with
  | receive received =>
    rcases receiveVote_cases received with ⟨_, rfl, _⟩ |
      ⟨_, nextsn, _, ⟨_, rfl, _⟩ | ⟨_, rfl, _⟩ | ⟨_, _, tx, carried, run⟩⟩
    · exact Or.inl ⟨SameView.refl s', rfl⟩
    · exact Or.inl ⟨SameView.refl s', rfl⟩
    · rw [addToBacklog_eq]
      exact Or.inl ⟨⟨rfl, rfl, rfl⟩, rfl⟩
    · obtain ⟨mrtEntry, known, rfl⟩ := processVote_ok run
      exact Or.inr ⟨_, tx, _, mrtEntry, countVote _ nextsn s, ⟨rfl, rfl, rfl⟩, rfl, carried, known, rfl⟩
  | drain drained =>
    obtain ⟨kept, nextsn, vote, _, _, _, ⟨_, rfl⟩ | ⟨tx, carried, run⟩⟩ := drainBacklogStep_cases drained
    · exact Or.inl ⟨⟨rfl, rfl, rfl⟩, rfl⟩
    · obtain ⟨mrtEntry, known, rfl⟩ := processVote_ok run
      exact Or.inr ⟨_, tx, vote, mrtEntry, takeFromBacklog _ kept nextsn s, ⟨rfl, rfl, rfl⟩, rfl, carried,
        known, rfl⟩
  | leave _ => exact Or.inl ⟨SameView.refl s, rfl⟩

theorem stamp_afterVote (r : ReplicaId) (tx : Transaction) (ts mrtEntry : Timestamp) (vote : Vote)
    (s : ClientState) (tx' : Transaction) (r' : ReplicaId) :
    (afterVote r tx ts mrtEntry vote s).stamp tx' r' =
      if (tx' = tx ∧ r' = r) ∧ ¬ (ts < mrtEntry ∨ isHeartbeat tx = true ∨ (s.stamp tx r).isSome) then
        some ts
      else s.stamp tx' r' := by
  unfold afterVote
  by_cases skipped : ts < mrtEntry ∨ isHeartbeat tx = true ∨ (s.stamp tx r).isSome
  · simp only [skipped, if_true, not_true, and_false, if_false]
    rfl
  · simp only [skipped, if_false, not_false_iff, and_true]
    exact stamp_insert s tx tx' r r' ts

theorem mrt_afterVote {r : ReplicaId} {tx : Transaction} {ts mrtEntry : Timestamp} {vote : Vote}
    (known : s.mrt.lookup r = some mrtEntry) (r' : ReplicaId) :
    (afterVote r tx ts mrtEntry vote s).mrt.lookup r' =
      if r' = r then some (if ts < mrtEntry then mrtEntry else ts) else s.mrt.lookup r' := by
  unfold afterVote
  by_cases same : r' = r
  · subst same
    by_cases stale : ts < mrtEntry
    · simp only [stale, if_true, known]
    · simp only [stale, if_true, if_false, Finmap.lookup_insert]
  · by_cases stale : ts < mrtEntry
    · simp only [stale, if_true, same, if_false]
    · simp only [stale, if_false, same, Finmap.lookup_insert_of_ne _ same]

theorem tsVoteMsg_afterVote (r : ReplicaId) (tx : Transaction) (ts mrtEntry : Timestamp) (vote : Vote)
    (s : ClientState) (ts' : Timestamp) :
    (afterVote r tx ts mrtEntry vote s).tsVoteMsg.lookup ts' =
      if ts' = ts ∧ ts ∉ s.tsVoteMsg then some vote else s.tsVoteMsg.lookup ts' := by
  unfold afterVote
  by_cases member : ts ∈ s.tsVoteMsg
  · simp only [member, if_true, not_true, and_false, if_false]
  · by_cases same : ts' = ts
    · subst same
      simp only [member, if_false, not_false_iff, and_self, if_true, Finmap.lookup_insert]
    · simp only [member, if_false, same, false_and, Finmap.lookup_insert_of_ne _ same]

/-- The shared maps mention configured replicas only, and no transaction has an
empty entry. -/
structure ViewInv (replicas : HashMap ReplicaId Replica) (s : ClientState) : Prop where
  mrtKeys : ∀ r, r ∈ s.mrt ↔ r ∈ replicas
  voters : ∀ tx r ts, s.stamp tx r = some ts → r ∈ replicas
  inhabited : ∀ tx, tx ∈ s.tsps → ∃ r ts, s.stamp tx r = some ts

theorem ViewInv.congr (inv : ViewInv replicas s) (same : SameView s s') : ViewInv replicas s' := by
  obtain ⟨tsps, mrt, _⟩ := same
  refine ⟨by rw [mrt]; exact inv.mrtKeys, ?_, ?_⟩
  · simpa only [ClientState.stamp, tsps] using inv.voters
  · simpa only [ClientState.stamp, tsps] using inv.inhabited

theorem ViewInv.afterVote {r : ReplicaId} {tx : Transaction} {ts mrtEntry : Timestamp} {vote : Vote}
    (inv : ViewInv replicas s) (known : s.mrt.lookup r = some mrtEntry) :
    ViewInv replicas (afterVote r tx ts mrtEntry vote s) := by
  have configured : r ∈ replicas := (inv.mrtKeys r).mp (Finmap.mem_of_lookup_eq_some known)
  refine ⟨fun r' => ?_, fun tx' r' ts' => ?_, fun tx' member => ?_⟩
  · rw [← Finmap.lookup_isSome, mrt_afterVote known]
    split
    · rename_i same
      simpa only [Option.isSome_some, same, true_iff] using configured
    · rw [Finmap.lookup_isSome]
      exact inv.mrtKeys r'
  · rw [stamp_afterVote]
    split
    · rename_i new
      intro _
      rw [new.1.2]
      exact configured
    · exact inv.voters tx' r' ts'
  · by_cases old : tx' ∈ s.tsps
    · obtain ⟨r', ts', atOld⟩ := inv.inhabited tx' old
      refine ⟨r', ?_⟩
      rw [stamp_afterVote]
      split
      · exact ⟨ts, rfl⟩
      · exact ⟨ts', atOld⟩
    · by_cases skipped : ts < mrtEntry ∨ isHeartbeat tx = true ∨ (s.stamp tx r).isSome
      · simp only [Podnet.afterVote, skipped, if_true] at member
        exact absurd member old
      · simp only [Podnet.afterVote, skipped, if_false, Finmap.mem_insert] at member
        rcases member with rfl | member
        · exact ⟨r, ts, by rw [stamp_afterVote, if_pos ⟨⟨rfl, rfl⟩, skipped⟩]⟩
        · exact absurd member old

theorem ClientStep.viewInv (step : ClientStep verifyStrict replicas (s, d) (s', d'))
    (inv : ViewInv replicas s) : ViewInv replicas s' := by
  rcases step.view_cases with ⟨same, _⟩ | ⟨r, tx, vote, mrtEntry, t, same, _, _, known, rfl⟩
  · exact inv.congr same
  · exact (inv.congr same).afterVote known

theorem ClientRun.viewInv {p q : ClientState × Option ReplicaId}
    (run : ClientRun verifyStrict replicas p q) (inv : ViewInv replicas p.1) :
    ViewInv replicas q.1 := by
  induction run with
  | refl => exact inv
  | tail _ step ih => exact step.viewInv ih

theorem init_viewInv (replicasList : List Replica) :
    ViewInv (initPodNetworkClient replicasList).1 (initPodNetworkClient replicasList).2 := by
  refine ⟨(init_keyed replicasList).mrt, ?_, ?_⟩
  · intro tx r ts atTx
    simp [initPodNetworkClient, ClientState.stamp] at atTx
  · intro tx member
    exact absurd member Finmap.notMem_empty

theorem ClientReach.viewInv {replicasList : List Replica}
    (reach : ClientReach verifyStrict replicasList (s, d)) :
    ViewInv (initPodNetworkClient replicasList).1 s :=
  ClientRun.viewInv reach (init_viewInv replicasList)

/-- How a later state of one run relates to an earlier one: timestamps of
replicas only grow, recorded votes stay, and a vote recorded in between is not
older than what its replica had already sent. -/
structure Later (s s' : ClientState) : Prop where
  mrt : ∀ r m, s.mrt.lookup r = some m → ∃ m', s'.mrt.lookup r = some m' ∧ m ≤ m'
  kept : ∀ tx r ts, s.stamp tx r = some ts → s'.stamp tx r = some ts
  fresh : ∀ tx r ts, s'.stamp tx r = some ts →
    s.stamp tx r = some ts ∨ ∀ m, s.mrt.lookup r = some m → m ≤ ts

theorem Later.refl (s : ClientState) : Later s s :=
  ⟨fun _ m known => ⟨m, known, le_rfl⟩, fun _ _ _ => id, fun _ _ _ => Or.inl⟩

theorem Later.trans {s₁ s₂ s₃ : ClientState} (first : Later s₁ s₂) (second : Later s₂ s₃) :
    Later s₁ s₃ := by
  refine ⟨?_, fun tx r ts old => second.kept tx r ts (first.kept tx r ts old), ?_⟩
  · intro r m known
    obtain ⟨m₂, known₂, le₂⟩ := first.mrt r m known
    obtain ⟨m₃, known₃, le₃⟩ := second.mrt r m₂ known₂
    exact ⟨m₃, known₃, le₂.trans le₃⟩
  · intro tx r ts atEnd
    rcases second.fresh tx r ts atEnd with middle | above
    · exact first.fresh tx r ts middle
    · right
      intro m known
      obtain ⟨m₂, known₂, le₂⟩ := first.mrt r m known
      exact le₂.trans (above m₂ known₂)

theorem Later.of_sameView (same : SameView s s') : Later s s' := by
  obtain ⟨tsps, mrt, _⟩ := same
  refine ⟨fun r m known => ⟨m, by rw [mrt, known], le_rfl⟩, ?_, ?_⟩
  · intro tx r ts
    simp only [ClientState.stamp, tsps]
    exact id
  · intro tx r ts
    simp only [ClientState.stamp, tsps]
    exact Or.inl

theorem Later.afterVote {r : ReplicaId} {tx : Transaction} {ts mrtEntry : Timestamp} {vote : Vote}
    (known : s.mrt.lookup r = some mrtEntry) : Later s (afterVote r tx ts mrtEntry vote s) := by
  refine ⟨?_, ?_, ?_⟩
  · intro r' m knownM
    rw [mrt_afterVote known]
    split
    · rename_i same
      subst same
      cases Option.some.inj (known.symm.trans knownM)
      refine ⟨_, rfl, ?_⟩
      split
      · exact le_rfl
      · rename_i recent
        exact not_lt.mp recent
    · exact ⟨m, knownM, le_rfl⟩
  · intro tx' r' ts' old
    rw [stamp_afterVote]
    split
    · rename_i new
      rw [new.1.1, new.1.2] at old
      simp [old] at new
    · exact old
  · intro tx' r' ts' atEnd
    rw [stamp_afterVote] at atEnd
    split at atEnd
    · rename_i new
      cases Option.some.inj atEnd
      right
      intro m knownM
      rw [new.1.2, known] at knownM
      cases Option.some.inj knownM
      exact not_lt.mp fun stale => new.2 (Or.inl stale)
    · exact Or.inl atEnd

theorem ClientStep.later (step : ClientStep verifyStrict replicas (s, d) (s', d')) : Later s s' := by
  rcases step.view_cases with ⟨same, _⟩ | ⟨r, tx, vote, mrtEntry, t, same, _, _, known, rfl⟩
  · exact .of_sameView same
  · exact (Later.of_sameView same).trans (.afterVote known)

/-- The client's view only moves forward. -/
theorem ClientRun.later {p q : ClientState × Option ReplicaId}
    (run : ClientRun verifyStrict replicas p q) : Later p.1 q.1 := by
  induction run with
  | refl => exact .refl _
  | tail _ step ih => exact ih.trans step.later

end Podnet
