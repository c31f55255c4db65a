import Podnet.Client.Read
import Podnet.FairLocks

namespace Podnet

open FairLocks

/-- The five locks that the updater and the read API share. -/
inductive SharedLock where
  | replicas
  | tsps
  | mrt
  | nextsn
  | tsVoteMsg
  deriving DecidableEq, Repr

/-- The tasks of a client: one updater and any number of concurrent reads. -/
inductive ClientTask where
  | updater
  | reader (i : Nat)
  deriving DecidableEq, Repr

/-- How an iteration of the updater or a read ended. -/
inductive Outcome where
  | idle
  | stopped (e : UpdaterError)
  | replied (pod : PodData)
  | panicked

abbrev LockProgram := Program SharedLock ClientState Outcome

section Updater

/-- The part of `processVote` under the lock of `tsVoteMsg`. -/
def recordVote (replicaId : ReplicaId) (timestamp : Timestamp) (vote : Vote) (s : ClientState) :
    ClientState :=
  { s with
    calls := s.calls ++ [(replicaId, vote)]
    tsVoteMsg := if timestamp ∈ s.tsVoteMsg then s.tsVoteMsg
      else s.tsVoteMsg.insert timestamp vote }

/-- The part of `processVote` under the lock of `tsps`. -/
def recordTimestamp (replicaId : ReplicaId) (transaction : Transaction) (timestamp : Timestamp)
    (s : ClientState) : ClientState :=
  let s := { s with
    tsps := if transaction ∈ s.tsps then s.tsps else s.tsps.insert transaction ∅ }
  match s.tsps.lookup transaction with
  | none => s
  | some replicaTimestampMap =>
    if replicaTimestampMap.lookup replicaId ≠ none ∧
        replicaTimestampMap.lookup replicaId ≠ some timestamp then s
    else { s with
      tsps := s.tsps.insert transaction (replicaTimestampMap.insert replicaId timestamp) }

/-- `processVote` with its locks. The caller holds `mrt` for writing. -/
def processVoteLocks (replicaId : ReplicaId) (transaction : Transaction) (timestamp : Timestamp)
    (vote : Vote) (stop : UpdaterError → LockProgram) (next : LockProgram) : LockProgram :=
  .acquire .tsVoteMsg .write <|
  .branch fun s => (recordVote replicaId timestamp vote s,
  .release .tsVoteMsg .write <|
  .branch fun s =>
    match s.mrt.lookup replicaId with
    | none => (s, stop (.mrtNotFound replicaId))
    | some mrtEntry =>
      if timestamp < mrtEntry then (s, next)
      else
        ({ s with mrt := s.mrt.insert replicaId timestamp },
        if isHeartbeat transaction then next
        else
          .acquire .tsps .write <|
          .branch fun s => (recordTimestamp replicaId transaction timestamp s,
          .release .tsps .write <|
          match (recordTimestamp replicaId transaction timestamp s).tsps.lookup transaction with
          | none => stop (.timestampMapFailed transaction)
          | some _ => next)))

/-- The updater leaves its loop, and its task, on an error in `processVote`. -/
def stopLocks (e : UpdaterError) : LockProgram :=
  .release .mrt .write <| .release .replicas .read <| .finish (.stopped e)

/-- The backlog loop; the guard of `replicas` is dropped after it. -/
def drainBacklogLocks (replicaId : ReplicaId) : Nat → LockProgram
  | 0 => .release .replicas .read <| .finish .idle
  | fuel + 1 =>
    .branch fun s =>
      match (s.backlog.lookup replicaId).bind BTreeMap.firstKeyValue with
      | none => (s, .release .replicas .read <| .finish .idle)
      | some (nextSeq, backloggedVote) => (s,
        .acquire .nextsn .write <|
        .branch fun s =>
          match s.nextsn.lookup replicaId with
          | none => (s, .release .nextsn .write <| .release .replicas .read <|
              .finish (.stopped (.nextsnNotFound replicaId)))
          | some nextsn =>
            if nextSeq = nextsn then
              ({ s with
                backlog := s.backlog.insert replicaId
                  (((s.backlog.lookup replicaId).getD ∅).erase nextSeq)
                nextsn := s.nextsn.insert replicaId (nextsn + 1) },
              .release .nextsn .write <|
              match backloggedVote.transaction with
              | none => drainBacklogLocks replicaId fuel
              | some backloggedTransaction =>
                .acquire .mrt .write <|
                processVoteLocks replicaId backloggedTransaction backloggedVote.timestamp backloggedVote
                  stopLocks (.release .mrt .write <| drainBacklogLocks replicaId fuel))
            else (s, .release .nextsn .write <| .release .replicas .read <| .finish .idle))

/-- One iteration of the updater's loop with its locks. The guard of `replicas`
lives to the end of the iteration. -/
def updateWithVoteLocks (verifyStrict : VerifyStrict) (replicas : HashMap ReplicaId Replica)
    (vote : Vote) : LockProgram :=
  match vote.transaction with
  | none => .finish .idle
  | some transaction =>
    .acquire .replicas .read <|
    match replicas.lookup vote.replicaId with
    | none => .release .replicas .read <| .finish (.stopped (.publicKeyNotFound vote.replicaId))
    | some replica =>
      if verifyVoteSignature verifyStrict replica.pk transaction.data vote.timestamp
          vote.sequenceNumber vote.signature = false then
        .release .replicas .read <| .finish .idle
      else
        .acquire .nextsn .write <|
        .branch fun s =>
          match s.nextsn.lookup vote.replicaId with
          | none => (s, .release .nextsn .write <| .release .replicas .read <|
              .finish (.stopped (.nextsnNotFound vote.replicaId)))
          | some nextsn =>
            if vote.sequenceNumber < nextsn then
              (s, .release .nextsn .write <| .release .replicas .read <| .finish .idle)
            else if nextsn < vote.sequenceNumber then
              (addToBacklog vote s, .release .nextsn .write <| .release .replicas .read <|
                .finish .idle)
            else
              ({ s with nextsn := s.nextsn.insert vote.replicaId (nextsn + 1) },
              .release .nextsn .write <|
              .acquire .mrt .write <|
              processVoteLocks vote.replicaId transaction vote.timestamp vote stopLocks <|
              .release .mrt .write <|
              .branch fun s => (s, drainBacklogLocks vote.replicaId (backlogSize vote.replicaId s)))

end Updater

section Reader

variable (orders : HashOrders) (replicas : HashMap ReplicaId Replica) (alpha beta : Nat)

def minPossibleTsLocks (tx : Transaction) (next : Timestamp → LockProgram) : LockProgram :=
  .acquire .replicas .read <|
  .acquire .tsps .read <|
  .acquire .mrt .read <|
  .branch fun s => (s,
  .release .mrt .read <|
  .release .tsps .read <|
  .release .replicas .read <|
  next (minPossibleTs orders ⟨replicas, s, alpha, beta⟩ tx))

def maxPossibleTsLocks (tx : Transaction) (panic : LockProgram) (next : Timestamp → LockProgram) :
    LockProgram :=
  .acquire .replicas .read <|
  .acquire .tsps .read <|
  .branch fun s => (s,
  .release .tsps .read <|
  .release .replicas .read <|
  match maxPossibleTs orders ⟨replicas, s, alpha, beta⟩ tx with
  | none => panic
  | some rmax => next rmax)

def minPossibleTsForNewTxLocks (next : Timestamp → LockProgram) : LockProgram :=
  .acquire .mrt .read <|
  .branch fun s => (s,
  .release .mrt .read <|
  next (minPossibleTsForNewTx orders ⟨replicas, s, alpha, beta⟩))

/-- The loop of `read` over the transactions, with the guards of `tsps` and
`tsVoteMsg` held throughout; a panic drops them. -/
def txRecordsLocks (next : List TxRecord → LockProgram) :
    List Transaction → List TxRecord → LockProgram
  | [], t => next t
  | tx :: txs, t =>
    minPossibleTsLocks orders replicas alpha beta tx fun rmin =>
    maxPossibleTsLocks orders replicas alpha beta tx
      (.release .tsVoteMsg .read <| .release .tsps .read <| .finish .panicked) fun rmax =>
    .branch fun s => (s,
      match s.tsps.lookup tx with
      | none => txRecordsLocks next txs (t ++ [⟨some tx, rmin, rmax, none, []⟩])
      | some tspstx =>
        let timestamps := ((orders.voters tx).keys tspstx).filterMap tspstx.lookup
        txRecordsLocks next txs (t ++ [⟨some tx, rmin, rmax, some (middle timestamps),
          timestamps.map fun ts => (s.tsVoteMsg.lookup ts).getD Vote.default⟩]))

def readLocks : LockProgram :=
  .acquire .tsps .read <|
  .acquire .tsVoteMsg .read <|
  .branch fun s => (s,
  txRecordsLocks orders replicas alpha beta (fun t =>
    minPossibleTsForNewTxLocks orders replicas alpha beta fun rperf =>
    .acquire .mrt .read <|
    .branch fun s => (s,
    .release .mrt .read <|
    .release .tsVoteMsg .read <|
    .release .tsps .read <|
    .finish (.replied ⟨t, rperf, (orders.mrt.values s.mrt).map fun ts =>
      (s.tsVoteMsg.lookup ts).getD Vote.default⟩)))
    (orders.tsps.keys s.tsps) [])

end Reader

section Alone

variable {verifyStrict : VerifyStrict} {replicas : HashMap ReplicaId Replica} {s s' : ClientState}
  {r : ReplicaId}

/-- The entry of a transaction is there once a timestamp was recorded for it. -/
theorem match_recordTimestamp {A : Type} (r : ReplicaId) (tx : Transaction) (ts : Timestamp)
    (s : ClientState) (absent present : A) :
    (match (recordTimestamp r tx ts s).tsps.lookup tx with
      | none => absent
      | some _ => present) = present := by
  have entry : ∃ m, (recordTimestamp r tx ts s).tsps.lookup tx = some m := by
    simp only [recordTimestamp, lookup_created]
    split
    · exact ⟨_, lookup_created s.tsps tx⟩
    · exact ⟨_, Finmap.lookup_insert ..⟩
  obtain ⟨m, created⟩ := entry
  rw [created]

/-- Left alone, `processVote` with its locks does what it does without. -/
theorem alone_processVoteLocks {tx : Transaction} {ts : Timestamp} {vote : Vote}
    {stop : UpdaterError → LockProgram} {next : LockProgram}
    (run : processVote r tx ts vote s = .ok s') :
    (processVoteLocks r tx ts vote stop next).alone s = next.alone s' := by
  unfold processVote at run
  simp only [processVoteLocks, Program.alone, Program.alone_branch]
  cases known : s.mrt.lookup r with
  | none => simp [known] at run
  | some mrtEntry =>
    simp only [recordVote, known]
    simp only [known] at run
    by_cases stale : ts < mrtEntry
    · rw [if_pos stale] at run ⊢
      rw [Except.ok.inj run]
    · rw [if_neg stale] at run ⊢
      by_cases heartbeat : isHeartbeat tx = true
      · simp only [heartbeat, if_true] at run ⊢
        rw [Except.ok.inj run]
      · simp only [heartbeat, if_false, lookup_created, Bool.false_eq_true] at run ⊢
        simp only [Program.alone, Program.alone_branch, match_recordTimestamp]
        simp only [recordTimestamp, lookup_created]
        split at run
        · rename_i duplicate
          rw [if_pos duplicate, Except.ok.inj run]
        · rename_i fresh
          rw [if_neg fresh, Except.ok.inj run]

theorem alone_drainBacklogLocks {fuel : Nat} (run : drainBacklog r fuel s = .ok s') :
    (drainBacklogLocks r fuel).alone s = (s', .idle) := by
  induction fuel generalizing s with
  | zero =>
    cases Except.ok.inj run
    rfl
  | succ fuel ih =>
    unfold drainBacklog drainBacklogStep at run
    unfold drainBacklogLocks
    simp only [Program.alone_branch]
    cases backlog : s.backlog.lookup r with
    | none =>
      simp only [backlog, Except.ok.injEq] at run
      rw [run]
      rfl
    | some kept =>
      simp only [backlog] at run
      simp only [Option.bind_some]
      cases first : BTreeMap.firstKeyValue kept with
      | none =>
        simp only [first, Except.ok.injEq] at run
        rw [run]
        rfl
      | some entry =>
        obtain ⟨nextSeq, vote⟩ := entry
        simp only [first] at run
        simp only [Program.alone, Program.alone_branch]
        cases expected : s.nextsn.lookup r with
        | none => simp [expected] at run
        | some nextsn =>
          simp only [expected] at run
          by_cases awaited : nextSeq = nextsn
          · simp only [awaited, if_true] at run
            simp only [awaited, if_true, backlog, Option.getD_some, Program.alone]
            cases carried : vote.transaction with
            | none =>
              simp only [carried] at run
              exact ih run
            | some tx =>
              simp only [carried] at run
              simp only [Program.alone]
              cases processed : processVote r tx vote.timestamp vote { s with
                  backlog := s.backlog.insert r (kept.erase nextsn)
                  nextsn := s.nextsn.insert r (nextsn + 1) } with
              | error e => simp [processed] at run
              | ok s₁ =>
                simp only [processed] at run
                rw [alone_processVoteLocks processed]
                exact ih run
          · simp only [awaited, if_false, Except.ok.injEq] at run
            simp only [awaited, if_false, Program.alone, run]

/-- Left alone, an iteration with its locks is the iteration without. -/
theorem alone_updateWithVoteLocks {vote : Vote}
    (run : updateWithVote verifyStrict replicas vote s = .ok s') :
    (updateWithVoteLocks verifyStrict replicas vote).alone s = (s', .idle) := by
  unfold updateWithVote receiveVote at run
  unfold updateWithVoteLocks
  cases carried : vote.transaction with
  | none =>
    simp only [carried, Except.ok.injEq] at run
    rw [run]
    rfl
  | some tx =>
    simp only [carried] at run
    simp only [Program.alone]
    cases known : replicas.lookup vote.replicaId with
    | none => simp [known] at run
    | some replica =>
      simp only [known] at run
      cases valid : verifyVoteSignature verifyStrict replica.pk tx.data vote.timestamp
          vote.sequenceNumber vote.signature with
      | false =>
        simp only [valid, if_true, Except.ok.injEq] at run
        simp only [valid, if_true, Program.alone, run]
      | true =>
        simp only [valid, Bool.true_eq_false, if_false] at run
        simp only [valid, Bool.true_eq_false, if_false, Program.alone, Program.alone_branch]
        cases expected : s.nextsn.lookup vote.replicaId with
        | none => simp [expected] at run
        | some nextsn =>
          simp only [expected] at run
          by_cases old : vote.sequenceNumber < nextsn
          · simp only [old, if_true, Except.ok.injEq] at run
            simp only [old, if_true, Program.alone, run]
          · by_cases future : nextsn < vote.sequenceNumber
            · simp only [old, future, if_true, if_false, Except.ok.injEq] at run
              simp only [old, future, if_true, if_false, Program.alone, run]
            · simp only [old, future, if_false] at run
              simp only [old, future, if_false, Program.alone]
              cases processed : processVote vote.replicaId tx vote.timestamp vote { s with
                  nextsn := s.nextsn.insert vote.replicaId (nextsn + 1) } with
              | error e => simp [processed] at run
              | ok s₁ =>
                simp only [processed] at run
                rw [alone_processVoteLocks processed]
                exact alone_drainBacklogLocks run

theorem alone_txRecordsLocks {orders : HashOrders} {alpha beta : Nat}
    {next : List TxRecord → LockProgram} {txs : List Transaction} {t : List TxRecord} :
    (txRecordsLocks orders replicas alpha beta next txs t).alone s =
      match txRecords orders ⟨replicas, s, alpha, beta⟩ txs with
      | none => (s, .panicked)
      | some records => (next (t ++ records)).alone s := by
  induction txs generalizing t with
  | nil => simp [txRecordsLocks, txRecords]
  | cons tx txs ih =>
    simp only [txRecordsLocks, minPossibleTsLocks, maxPossibleTsLocks, Program.alone,
      Program.alone_branch, txRecords, txRecord]
    cases maxPossibleTs orders ⟨replicas, s, alpha, beta⟩ tx with
    | none => rfl
    | some rmax =>
      simp only [Program.alone_branch]
      cases s.tsps.lookup tx with
      | none =>
        simp only [ih]
        cases txRecords orders ⟨replicas, s, alpha, beta⟩ txs <;> simp
      | some tspstx =>
        simp only [ih]
        cases txRecords orders ⟨replicas, s, alpha, beta⟩ txs <;> simp

/-- Left alone, a read with its locks is the read of the state it finds. -/
theorem alone_readLocks {orders : HashOrders} {alpha beta : Nat} :
    (readLocks orders replicas alpha beta).alone s =
      match read orders ⟨replicas, s, alpha, beta⟩ with
      | none => (s, .panicked)
      | some pod => (s, .replied pod) := by
  simp only [readLocks, Program.alone, Program.alone_branch, alone_txRecordsLocks, read,
    minPossibleTsForNewTxLocks]
  cases txRecords orders ⟨replicas, s, alpha, beta⟩ (orders.tsps.keys s.tsps) <;> simp

end Alone

end Podnet
