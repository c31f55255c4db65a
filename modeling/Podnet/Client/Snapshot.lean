import Podnet.Client.Deadlock
import Podnet.Client.ReadBounds
import Podnet.Snapshots

namespace Podnet

open FairLocks Board

/-- What a lock of the client protects, as far as others than the updater see it. The
map under `replicas` is never changed. -/
def SharedLock.Part : SharedLock → Type
  | .replicas => Unit
  | .tsps => HashMap Transaction (HashMap ReplicaId Timestamp)
  | .mrt => HashMap ReplicaId Timestamp
  | .nextsn => HashMap ReplicaId SequenceNumber
  | .tsVoteMsg => HashMap Timestamp Vote

def SharedLock.part : (l : SharedLock) → ClientState → l.Part
  | .replicas, _ => ()
  | .tsps, s => s.tsps
  | .mrt, s => s.mrt
  | .nextsn, s => s.nextsn
  | .tsVoteMsg, s => s.tsVoteMsg

/-- A read looks at everything but the counters. The updater changes it inside its guard
of `mrt`, beginning with `tsVoteMsg`. -/
def clientBoard : Board SharedLock ClientState where
  Part := SharedLock.Part
  part := SharedLock.part
  shown := {l | l ≠ .nextsn}
  outer := .mrt
  gate := .tsVoteMsg

section Views

variable {s t : ClientState}

theorem clientBoard_same : clientBoard.Same s t ↔ SameView s t := by
  constructor
  · intro same
    exact ⟨(same .tsps (by simp [clientBoard])).symm, (same .mrt (by simp [clientBoard])).symm,
      (same .tsVoteMsg (by simp [clientBoard])).symm⟩
  · intro same l looked
    cases l with
    | replicas => rfl
    | tsps => exact same.tsps.symm
    | mrt => exact same.mrt.symm
    | nextsn => exact absurd rfl looked
    | tsVoteMsg => exact same.tsVoteMsg.symm

/-- A change under one lock that the updater holds for writing. -/
theorem permits_one {stage : Stage} {held : SharedLock × Mode → Nat} (l : SharedLock)
    (kept : ∀ l' ≠ l, l'.part t = l'.part s) (writes : 0 < held (l, .write))
    (turn : l = .nextsn ∨ stage = .changing) : clientBoard.Permits stage held s t := by
  intro l' changed
  by_cases same : l' = l
  · subst same
    exact ⟨writes, fun looked => turn.resolve_left looked⟩
  · exact absurd (kept l' same) changed

end Views

section Updater

variable {held : SharedLock × Mode → Nat} {published : ClientState → Prop}
  {rests : Outcome → ClientState → Prop} {s s' : ClientState} {r : ReplicaId}

theorem permits_recordVote {ts : Timestamp} {vote : Vote} (writes : 0 < held (.tsVoteMsg, .write)) :
    clientBoard.Permits .changing held s (recordVote r ts vote s) := by
  refine permits_one .tsVoteMsg (fun l other => ?_) writes (Or.inr rfl)
  cases l with
  | tsVoteMsg => exact absurd rfl other
  | replicas | tsps | mrt | nextsn => rfl

theorem permits_mrt {mrt : HashMap ReplicaId Timestamp} (writes : 0 < held (.mrt, .write)) :
    clientBoard.Permits .changing held s { s with mrt := mrt } := by
  refine permits_one .mrt (fun l other => ?_) writes (Or.inr rfl)
  cases l with
  | mrt => exact absurd rfl other
  | replicas | tsps | nextsn | tsVoteMsg => rfl

theorem permits_recordTimestamp {tx : Transaction} {ts : Timestamp} (writes : 0 < held (.tsps, .write)) :
    clientBoard.Permits .changing held s (recordTimestamp r tx ts s) := by
  simp only [recordTimestamp, lookup_created]
  refine permits_one .tsps (fun l other => ?_) writes (Or.inr rfl)
  cases l with
  | tsps => exact absurd rfl other
  | replicas | mrt | nextsn | tsVoteMsg => split <;> rfl

/-- A change of the counters and the backlog is made under `nextsn` and shows nothing. -/
theorem permits_count {stage : Stage} (same : SameView s s') (writes : 0 < held (.nextsn, .write)) :
    clientBoard.Permits stage held s s' := by
  refine permits_one .nextsn (fun l other => ?_) writes (Or.inl rfl)
  cases l with
  | nextsn => exact absurd rfl other
  | replicas => rfl
  | tsps => exact same.tsps
  | mrt => exact same.mrt
  | tsVoteMsg => exact same.tsVoteMsg

theorem publishes_processVoteLocks {tx : Transaction} {ts : Timestamp} {vote : Vote}
    {stop : UpdaterError → LockProgram} {next : LockProgram} (inside : 0 < held (.mrt, .write))
    (run : processVote r tx ts vote s = .ok s')
    (goesOn : clientBoard.Publishes published rests next .changing held s') :
    clientBoard.Publishes published rests (processVoteLocks r tx ts vote stop next) .inside held s := by
  unfold processVote at run
  unfold processVoteLocks
  rw [publishes_acquire rfl, publishes_branch, publishes_release_taken rfl, publishes_branch]
  refine ⟨permits_recordVote (by simp), by simp [clientBoard], ?_⟩
  cases known : s.mrt.lookup r with
  | none => simp [known] at run
  | some mrtEntry =>
    simp only [recordVote, known]
    simp only [known] at run
    by_cases stale : ts < mrtEntry
    · rw [if_pos stale] at run ⊢
      rw [Except.ok.inj run]
      exact ⟨.refl _ _ _, goesOn⟩
    · rw [if_neg stale] at run ⊢
      refine ⟨permits_mrt inside, ?_⟩
      by_cases heartbeat : isHeartbeat tx = true
      · simp only [heartbeat, if_true] at run ⊢
        rw [Except.ok.inj run]
        exact goesOn
      · simp only [heartbeat, if_false, lookup_created, Bool.false_eq_true] at run ⊢
        rw [publishes_acquire rfl, publishes_branch, publishes_release_taken rfl]
        refine ⟨permits_recordTimestamp (by simp), by simp [clientBoard], ?_⟩
        rw [match_recordTimestamp]
        simp only [recordTimestamp, lookup_created]
        split at run
        · rename_i duplicate
          rw [if_pos duplicate, Except.ok.inj run]
          exact goesOn
        · rename_i fresh
          rw [if_neg fresh, Except.ok.inj run]
          exact goesOn

variable {verifyStrict : VerifyStrict} {replicasList : List Replica} {d : Option ReplicaId}

/-- The shared maps are as they are between two calls of `processVote`. -/
def Published (verifyStrict : VerifyStrict) (replicasList : List Replica) (t : ClientState) : Prop :=
  ∃ s d, ClientReach verifyStrict replicasList (s, d) ∧ SameView s t

/-- Unless it has stopped, the updater waits for the next vote between two iterations. -/
def Rests (verifyStrict : VerifyStrict) (replicasList : List Replica) : Outcome → ClientState → Prop
  | .stopped _, _ => True
  | _, s => ClientReach verifyStrict replicasList (s, none)

theorem publishes_replicasLast {outcome : Outcome} (rest : Rests verifyStrict replicasList outcome s) :
    clientBoard.Publishes (Published verifyStrict replicasList) (Rests verifyStrict replicasList)
      (.release .replicas .read (.finish outcome)) .outside (taken noGuards .replicas .read) s := by
  rw [publishes_release_taken rfl]
  exact ⟨by simp [clientBoard], rfl, fun _ => rfl, rest⟩

theorem publishes_nextsnLast {outcome : Outcome} (rest : Rests verifyStrict replicasList outcome s) :
    clientBoard.Publishes (Published verifyStrict replicasList) (Rests verifyStrict replicasList)
      (.release .nextsn .write (.release .replicas .read (.finish outcome))) .outside
      (taken (taken noGuards .replicas .read) .nextsn .write) s := by
  rw [publishes_release_taken rfl]
  exact ⟨by simp [clientBoard], publishes_replicasLast rest⟩

/-- Processing a vote under the guard of `mrt` leaves a state that may be shown. -/
theorem publishes_underMrt {tx : Transaction} {ts : Timestamp} {vote : Vote} {next : LockProgram}
    (run : processVote r tx ts vote s = .ok s') (reach : ClientReach verifyStrict replicasList (s', d))
    (goesOn : clientBoard.Publishes (Published verifyStrict replicasList) (Rests verifyStrict replicasList)
      next .outside (taken noGuards .replicas .read) s') :
    clientBoard.Publishes (Published verifyStrict replicasList) (Rests verifyStrict replicasList)
      (.acquire .mrt .write (processVoteLocks r tx ts vote stopLocks (.release .mrt .write next)))
      .outside (taken noGuards .replicas .read) s := by
  rw [publishes_acquire rfl]
  refine publishes_processVoteLocks (by simp) run ?_
  rw [publishes_release_taken rfl]
  exact ⟨fun _ => ⟨s', d, reach, .refl s'⟩, goesOn⟩

theorem publishes_drainBacklogLocks {fuel : Nat} (reach : ClientReach verifyStrict replicasList (s, some r))
    (configured : r ∈ (initPodNetworkClient replicasList).1) (enough : backlogSize r s ≤ fuel) :
    clientBoard.Publishes (Published verifyStrict replicasList) (Rests verifyStrict replicasList)
      (drainBacklogLocks r fuel) .outside (taken noGuards .replicas .read) s := by
  have leave : ∀ {s}, ClientReach verifyStrict replicasList (s, some r) →
      drainBacklogStep r s = .ok none → Rests verifyStrict replicasList .idle s :=
    fun reach stop => reach.tail (.leave stop)
  -- the fuel never runs out before the backlog does, so every exit is one of the loop
  induction fuel generalizing s with
  | zero => exact publishes_replicasLast (leave reach (drainBacklogStep_empty (Nat.le_zero.mp enough)))
  | succ fuel ih =>
    rw [drainBacklogLocks, publishes_branch]
    cases first : (s.backlog.lookup r).bind BTreeMap.firstKeyValue with
    | none => exact ⟨.refl _ _ _, publishes_replicasLast (leave reach (drainBacklogStep_none first))⟩
    | some entry =>
      obtain ⟨kept, backlog, atFirst⟩ := Option.bind_eq_some_iff.mp first
      obtain ⟨nextSeq, vote⟩ := entry
      refine ⟨.refl _ _ _, ?_⟩
      rw [publishes_acquire rfl, publishes_branch]
      cases expected : s.nextsn.lookup r with
      | none => exact ⟨.refl _ _ _, publishes_nextsnLast trivial⟩
      | some nextsn =>
        by_cases awaited : nextSeq = nextsn
        · subst awaited
          simp only [if_true, backlog, Option.getD_some]
          have counted : SameView s (takeFromBacklog r kept nextSeq s) := ⟨rfl, rfl, rfl⟩
          refine ⟨permits_count counted (by simp), ?_⟩
          rw [publishes_release_taken rfl]
          refine ⟨by simp [clientBoard], ?_⟩
          cases carried : vote.transaction with
          | none =>
            have step : drainBacklogStep r s = .ok (some (takeFromBacklog r kept nextSeq s)) := by
              simp [drainBacklogStep, backlog, atFirst, expected, carried, takeFromBacklog, countVote]
            have size := drainBacklogStep_size step
            exact ih (s := takeFromBacklog r kept nextSeq s) (reach.tail (.drain step)) (by omega)
          | some tx =>
            obtain ⟨mrtEntry, known⟩ := Finmap.mem_iff.mp ((reach.viewInv.mrtKeys r).mpr configured)
            have run : processVote r tx vote.timestamp vote (takeFromBacklog r kept nextSeq s) = .ok _ :=
              processVote_eq known
            have step := drainBacklogStep_due backlog atFirst expected carried run
            have size := drainBacklogStep_size step
            have reach' := reach.tail (.drain step)
            exact publishes_underMrt run reach' (ih reach' (by omega))
        · simp only [awaited, if_false]
          have stop : drainBacklogStep r s = .ok none := by
            simp [drainBacklogStep, backlog, atFirst, expected, awaited]
          exact ⟨.refl _ _ _, publishes_nextsnLast (leave reach stop)⟩

/-- One iteration of the updater keeps to the board. -/
theorem publishes_updateWithVoteLocks (vote : Vote)
    (reach : ClientReach verifyStrict replicasList (s, none)) :
    clientBoard.Publishes (Published verifyStrict replicasList) (Rests verifyStrict replicasList)
      (updateWithVoteLocks verifyStrict (initPodNetworkClient replicasList).1 vote) .outside noGuards s := by
  unfold updateWithVoteLocks
  cases carried : vote.transaction with
  | none => exact ⟨rfl, fun _ => rfl, reach⟩
  | some tx =>
    simp only
    rw [publishes_acquire rfl]
    cases known : (initPodNetworkClient replicasList).1.lookup vote.replicaId with
    | none => exact publishes_replicasLast trivial
    | some replica =>
      simp only
      cases valid : verifyVoteSignature verifyStrict replica.pk tx.data vote.timestamp
          vote.sequenceNumber vote.signature with
      | false => exact publishes_replicasLast reach
      | true =>
        simp only [Bool.true_eq_false, if_false]
        rw [publishes_acquire rfl, publishes_branch]
        cases expected : s.nextsn.lookup vote.replicaId with
        | none => exact ⟨.refl _ _ _, publishes_nextsnLast trivial⟩
        | some nextsn =>
          by_cases old : vote.sequenceNumber < nextsn
          · simp only [old, if_true]
            exact ⟨.refl _ _ _, publishes_nextsnLast reach⟩
          · by_cases future : nextsn < vote.sequenceNumber
            · simp only [old, future, if_true, if_false]
              have step : receiveVote verifyStrict (initPodNetworkClient replicasList).1 vote s =
                  .ok (addToBacklog vote s, none) := by
                simp [receiveVote, carried, known, valid, expected, old, future]
              have kept : SameView s (addToBacklog vote s) := by
                rw [addToBacklog_eq]
                exact ⟨rfl, rfl, rfl⟩
              exact ⟨permits_count kept (by simp), publishes_nextsnLast (reach.tail (.receive step))⟩
            · simp only [old, future, if_false]
              have due := le_antisymm (not_lt.mp old) (not_lt.mp future)
              subst due
              have configured := Finmap.mem_of_lookup_eq_some known
              obtain ⟨mrtEntry, atMrt⟩ := Finmap.mem_iff.mp ((reach.viewInv.mrtKeys _).mpr configured)
              have run : processVote vote.replicaId tx vote.timestamp vote
                  (countVote vote.replicaId vote.sequenceNumber s) = .ok _ := processVote_eq atMrt
              have reach' := reach.tail (.receive (receiveVote_due carried known valid expected run))
              have counted : SameView s (countVote vote.replicaId vote.sequenceNumber s) := ⟨rfl, rfl, rfl⟩
              refine ⟨permits_count counted (by simp), ?_⟩
              rw [publishes_release_taken rfl]
              refine ⟨by simp [clientBoard], publishes_underMrt run reach' ?_⟩
              rw [publishes_branch]
              exact ⟨.refl _ _ _, publishes_drainBacklogLocks reach' configured le_rfl⟩

end Updater

section Reader

variable {orders : HashOrders} {replicas : HashMap ReplicaId Replica} {alpha beta : Nat}
  {s t : ClientState} {tx : Transaction} {pinned : Set SharedLock}

theorem SameView.minPossibleTs (same : SameView s t) :
    minPossibleTs orders ⟨replicas, s, alpha, beta⟩ tx =
      Podnet.minPossibleTs orders ⟨replicas, t, alpha, beta⟩ tx := by
  simp only [Podnet.minPossibleTs, same.tsps, same.mrt]

theorem SameView.maxPossibleTs (same : SameView s t) :
    maxPossibleTs orders ⟨replicas, s, alpha, beta⟩ tx =
      Podnet.maxPossibleTs orders ⟨replicas, t, alpha, beta⟩ tx := by
  simp only [Podnet.maxPossibleTs, same.tsps]

theorem SameView.minPossibleTsForNewTx (same : SameView s t) :
    minPossibleTsForNewTx orders ⟨replicas, s, alpha, beta⟩ =
      Podnet.minPossibleTsForNewTx orders ⟨replicas, t, alpha, beta⟩ := by
  simp only [Podnet.minPossibleTsForNewTx, same.mrt]

theorem looks_minPossibleTs {next : Timestamp → LockProgram}
    (goesOn : ∀ rmin, clientBoard.Looks (next rmin)) :
    clientBoard.Looks (.branch fun s => (s, .release .mrt .read <| .release .tsps .read <|
      .release .replicas .read <| next (minPossibleTs orders ⟨replicas, s, alpha, beta⟩ tx))) := by
  refine looks_inspect (fun s t same => ?_) fun s => ?_
  · rw [(clientBoard_same.mp same).minPossibleTs]
  · exact looks_release (by simp [clientBoard]) <| looks_release (by simp [clientBoard]) <|
      looks_release (by simp [clientBoard]) (goesOn _)

theorem looks_maxPossibleTsLocks {panic : LockProgram} {next : Timestamp → LockProgram}
    (unwinds : clientBoard.Looks panic) (goesOn : ∀ rmax, clientBoard.Looks (next rmax)) :
    clientBoard.Looks (maxPossibleTsLocks orders replicas alpha beta tx panic next) := by
  refine looks_inspect (fun s t same => ?_) fun s => ?_
  · rw [(clientBoard_same.mp same).maxPossibleTs]
  · refine looks_release (by simp [clientBoard]) <| looks_release (by simp [clientBoard]) ?_
    split
    · exact unwinds
    · exact goesOn _

theorem looks_minPossibleTsForNewTx {next : Timestamp → LockProgram}
    (goesOn : ∀ rperf, clientBoard.Looks (next rperf)) :
    clientBoard.Looks (.branch fun s => (s, .release .mrt .read <|
      next (minPossibleTsForNewTx orders ⟨replicas, s, alpha, beta⟩))) := by
  refine looks_inspect (fun s t same => ?_) fun s => looks_release (by simp [clientBoard]) (goesOn _)
  rw [(clientBoard_same.mp same).minPossibleTsForNewTx]

/-- One round of the loop of `read`, from its first guard of `mrt` on. -/
theorem looks_round {next : List TxRecord → LockProgram} {txs : List Transaction} {records : List TxRecord}
    (goesOn : ∀ records, clientBoard.Looks (txRecordsLocks orders replicas alpha beta next txs records))
    (rmin : Timestamp) :
    clientBoard.Looks (maxPossibleTsLocks orders replicas alpha beta tx
      (.release .tsVoteMsg .read <| .release .tsps .read <| .finish .panicked) fun rmax =>
      .branch fun s => (s,
        match s.tsps.lookup tx with
        | none => txRecordsLocks orders replicas alpha beta next txs
            (records ++ [⟨some tx, rmin, rmax, none, []⟩])
        | some tspstx =>
          let timestamps := ((orders.voters tx).keys tspstx).filterMap tspstx.lookup
          txRecordsLocks orders replicas alpha beta next txs
            (records ++ [⟨some tx, rmin, rmax, some (middle timestamps),
              timestamps.map fun ts => (s.tsVoteMsg.lookup ts).getD Vote.default⟩]))) := by
  refine looks_maxPossibleTsLocks trivial fun rmax => looks_inspect (fun s t same => ?_) fun s => ?_
  · have view := clientBoard_same.mp same
    simp only [view.tsps, view.tsVoteMsg]
  · split
    · exact goesOn _
    · exact goesOn _

theorem looks_txRecordsLocks {next : List TxRecord → LockProgram} (goesOn : ∀ t, clientBoard.Looks (next t))
    (txs : List Transaction) (records : List TxRecord) :
    clientBoard.Looks (txRecordsLocks orders replicas alpha beta next txs records) := by
  induction txs generalizing records with
  | nil => exact goesOn records
  | cons tx txs ih => exact looks_minPossibleTs (looks_round ih)

/-- A read comes to its first guard of `mrt` in the first round of the loop, or after it. -/
theorem collects_txRecordsLocks {next : List TxRecord → LockProgram} (gate : .tsVoteMsg ∈ pinned)
    (looked : pinned ⊆ clientBoard.shown) (goesOn : ∀ t, clientBoard.Looks (next t))
    (ends : ∀ t, clientBoard.Collects (next t) pinned) (txs : List Transaction) (records : List TxRecord) :
    clientBoard.Collects (txRecordsLocks orders replicas alpha beta next txs records) pinned := by
  cases txs with
  | nil => exact ends records
  | cons tx txs =>
    refine collects_acquire (by simp [clientBoard]) <| collects_acquire (by simp [clientBoard]) <|
      collects_outer (by simp [clientBoard, gate]) ?_ (looks_minPossibleTs (looks_round ?_))
    · simp only [Set.insert_subset_iff]
      exact ⟨by simp [clientBoard], by simp [clientBoard], looked⟩
    · exact looks_txRecordsLocks goesOn txs

theorem collects_readLocks (orders : HashOrders) (replicas : HashMap ReplicaId Replica) (alpha beta : Nat) :
    clientBoard.Collects (readLocks orders replicas alpha beta) ∅ := by
  have looked : {.tsVoteMsg, .tsps} ⊆ clientBoard.shown := by
    simp [Set.insert_subset_iff, clientBoard]
  have replies : ∀ t rperf, clientBoard.Looks (.acquire .mrt .read <| .branch fun s => (s,
      .release .mrt .read <| .release .tsVoteMsg .read <| .release .tsps .read <|
      .finish (Outcome.replied ⟨t, rperf, (orders.mrt.values s.mrt).map fun ts =>
        (s.tsVoteMsg.lookup ts).getD Vote.default⟩))) := by
    intro t rperf
    refine looks_inspect (fun s t same => ?_) fun s => looks_release (by simp [clientBoard]) trivial
    have view := clientBoard_same.mp same
    simp only [view.mrt, view.tsVoteMsg]
  unfold readLocks
  refine collects_acquire (by simp [clientBoard]) <| collects_acquire (by simp [clientBoard]) ?_
  rw [insert_empty_eq]
  refine ⟨fun _ => rfl, fun s t same => ?_, fun s => ?_⟩
  · have tsps : s.tsps = t.tsps := same .tsps (by simp)
    simp only [tsps]
  · refine collects_txRecordsLocks (by simp) looked (fun t => ?_) (fun t => ?_) _ _
    · exact looks_minPossibleTsForNewTx (replies t)
    · exact collects_outer (by simp [clientBoard]) looked (looks_minPossibleTsForNewTx (replies t))

end Reader

/-- What a read ends with that finds the client in one state throughout. -/
def readOutcome (replicasList : List Replica) (alpha beta : Nat) (orders : HashOrders) (s : ClientState) :
    Outcome :=
  match read orders (serviceOf replicasList alpha beta s) with
  | none => .panicked
  | some pod => .replied pod

theorem read_of_readOutcome {replicasList : List Replica} {alpha beta : Nat} {orders : HashOrders}
    {s : ClientState} {pod : PodData}
    (replied : readOutcome replicasList alpha beta orders s = .replied pod) :
    read orders (serviceOf replicasList alpha beta s) = some pod := by
  unfold readOutcome at replied
  split at replied
  · cases replied
  · rename_i returned
    cases replied
    exact returned

section Runs

variable {verifyStrict : VerifyStrict} {replicasList : List Replica} {alpha beta : Nat}
  {st : ClientSystem}

theorem client_agreed (verifyStrict : VerifyStrict) (replicasList : List Replica) (alpha beta : Nat) :
    clientBoard.Agreed .updater (Published verifyStrict replicasList) (Rests verifyStrict replicasList)
      (Set.range (readOutcome replicasList alpha beta))
      (Starts verifyStrict (initPodNetworkClient replicasList).1 alpha beta) := by
  refine ⟨?_, ?_, ?_⟩
  · intro outcome program s starts rest
    cases starts with
    | receive vote running =>
      refine publishes_updateWithVoteLocks vote ?_
      cases outcome with
      | stopped e => exact absurd rfl (running e)
      | idle | replied | panicked => exact rest
  · intro t other outcome program starts
    cases starts with
    | receive => exact absurd rfl other
    | serve orders =>
      refine ⟨collects_readLocks .., _, ⟨orders, rfl⟩, fun s => ?_⟩
      simp only [alone_readLocks, readOutcome]
      cases read orders (serviceOf replicasList alpha beta s) <;> rfl
  · intro s t same shown
    obtain ⟨s₀, d, reach, view⟩ := shown
    exact ⟨s₀, d, reach, clientBoard_same.mp ((clientBoard_same.mpr view).trans same)⟩

theorem initial_atRest (replicasList : List Replica) : AtRest (initialSystem replicasList) :=
  ⟨fun _ => rfl, fun _ => ⟨_, rfl⟩⟩

theorem initial_orderly :
    clientBoard.Orderly .updater (Published verifyStrict replicasList) (Rests verifyStrict replicasList)
      (Set.range (readOutcome replicasList alpha beta))
      (Starts verifyStrict (initPodNetworkClient replicasList).1 alpha beta)
      (initialSystem replicasList) (initialSystem replicasList) .outside :=
  (initial_atRest replicasList).orderly rfl .refl ⟨_, _, .refl, .refl _⟩

/-- Whatever a completed read returned is the read of one moment of the run: there this
very read had its guards, the updater was outside `processVote`, and the three maps were
those of a client between two processed votes. -/
theorem completed_read_is_snapshot {i : Nat} {pod : PodData}
    (run : Reaches (Starts verifyStrict (initPodNetworkClient replicasList).1 alpha beta)
      (initialSystem replicasList) st)
    (completed : st.program (.reader i) = .finish (.replied pod)) :
    ∃ moment orders,
      Reaches (Starts verifyStrict (initPodNetworkClient replicasList).1 alpha beta)
        (initialSystem replicasList) moment ∧
      ReachesWithin (Starts verifyStrict (initPodNetworkClient replicasList).1 alpha beta) (.reader i)
        moment st ∧
      moment.guards .updater (.mrt, .write) = 0 ∧ 0 < moment.guards (.reader i) (.tsVoteMsg, .read) ∧
      (∃ s d, ClientReach verifyStrict replicasList (s, d) ∧ SameView s moment.data) ∧
      read orders (serviceOf replicasList alpha beta moment.data) = some pod := by
  obtain ⟨stage, orderly⟩ := Orderly.run (client_agreed verifyStrict replicasList alpha beta)
    initial_orderly run
  rcases orderly.answered (by simp) completed with unused | ⟨_, ⟨orders, rfl⟩, moment, snapshot, same⟩
  · cases unused
  · exact ⟨moment, orders, snapshot.reached, snapshot.later, snapshot.quiet, snapshot.reading,
      snapshot.published, read_of_readOutcome same.symm⟩

end Runs

section Alone

variable {verifyStrict : VerifyStrict} {replicas : HashMap ReplicaId Replica} {alpha beta : Nat}
  {program : ClientTask → LockProgram} {s s' : ClientState} {outcome : Outcome}

/-- The updater that nobody disturbs does what it does without locks. -/
theorem reaches_startPodDataUpdater {votes : List Vote} (idle : program .updater = .finish .idle)
    (run : startPodDataUpdater verifyStrict replicas votes s = .ok s') :
    Reaches (Starts verifyStrict replicas alpha beta) ⟨unlocked, program, s⟩ ⟨unlocked, program, s'⟩ := by
  induction votes generalizing s with
  | nil =>
    cases Except.ok.inj run
    exact .refl
  | cons vote votes ih =>
    unfold startPodDataUpdater at run
    split at run
    · cases run
    · rename_i step
      have processed : Reaches (Starts verifyStrict replicas alpha beta) ⟨unlocked, program, s⟩ _ :=
        .of_permitted (reachesBy_updateWithVote (fun _ _ _ => trivial) idle step)
      exact processed.trans (ih run)

/-- A read that nobody disturbs is the read without locks. -/
theorem reaches_read {orders : HashOrders} {i : Nat} {pod : PodData}
    (idle : program (.reader i) = .finish outcome)
    (returned : read orders ⟨replicas, s, alpha, beta⟩ = some pod) :
    Reaches (Starts verifyStrict replicas alpha beta) ⟨unlocked, program, s⟩
      ⟨unlocked, Function.update program (.reader i) (.finish (.replied pod)), s⟩ := by
  have fits : ∀ held l m m', readerRule.mayHold held → readerRule.mayAsk held l m →
      0 < held (l, m') → m.compatible m' = true := by
    intro held l m m' holds asks positive
    cases m' with
    | read => simp [asks.1, Mode.compatible]
    | write =>
      have none := holds.1 l
      omega
  have started : Reaches (Starts verifyStrict replicas alpha beta) ⟨unlocked, program, s⟩ _ :=
    .start idle (.serve orders)
  have ended := started.trans
    (Reaches.alone fits (follows_readLocks orders replicas alpha beta) (unlocked_undisturbed _))
  rw [alone_readLocks, returned] at ended
  exact ended

end Alone

/-- The votes of two replicas, and a read after them. -/
theorem completed_read_is_snapshot_two_votes :
    let starts := Starts standInVerify (initPodNetworkClient (standInReplicas [7, 8])).1 2 0
    let first := initialSystem (standInReplicas [7, 8])
    ∃ st pod, Reaches starts first st ∧ st.program (.reader 0) = .finish (.replied pod) ∧
      st.data.stamp ⟨[65]⟩ 7 = some 5 ∧ st.data.stamp ⟨[65]⟩ 8 = some 6 ∧
      ∃ moment orders, Reaches starts first moment ∧ ReachesWithin starts (.reader 0) moment st ∧
        moment.guards .updater (.mrt, .write) = 0 ∧ 0 < moment.guards (.reader 0) (.tsVoteMsg, .read) ∧
        (∃ s d, ClientReach standInVerify (standInReplicas [7, 8]) (s, d) ∧ SameView s moment.data) ∧
        read orders (serviceOf (standInReplicas [7, 8]) 2 0 moment.data) = some pod := by
  intro starts first
  let orders : HashOrders :=
    ⟨.arbitrary _ _, .arbitrary _ _, fun _ => .arbitrary _ _, .arbitrary _ _⟩
  have ends : (startPodDataUpdater standInVerify (initPodNetworkClient (standInReplicas [7, 8])).1
      [standInVote 7 [65] 5 0, standInVote 8 [65] 6 0]
      (initPodNetworkClient (standInReplicas [7, 8])).2).toOption.any (fun s =>
        decide ((s.stamp ⟨[65]⟩ 7 = some 5 ∧ s.stamp ⟨[65]⟩ 8 = some 6) ∧
          ∀ tx ∈ s.tsps.keys, 2 ≤ s.voteCount tx + 0)) = true := by decide +kernel
  obtain ⟨s, run, after⟩ := exists_ok_of_any ends
  obtain ⟨⟨atSeven, atEight⟩, quorums⟩ := of_decide_eq_true after
  have inv := ClientReach.viewInv (startPodDataUpdater_run run)
  have returns : (read orders (serviceOf (standInReplicas [7, 8]) 2 0 s)).isSome :=
    (inv.read_isSome_iff (by decide) orders).mpr fun tx member => quorums tx (Finmap.mem_keys.mpr member)
  obtain ⟨pod, returned⟩ := Option.isSome_iff_exists.mp returns
  have processed : Reaches starts first ⟨unlocked, fun _ => .finish .idle, s⟩ :=
    reaches_startPodDataUpdater rfl run
  have replied := processed.trans (reaches_read (i := 0) rfl returned)
  exact ⟨_, pod, replied, rfl, atSeven, atEight,
    completed_read_is_snapshot replied rfl⟩

end Podnet
