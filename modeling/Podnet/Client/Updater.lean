import Podnet.Client.Votes

namespace Podnet

/-- The exits of the updater task, one for each `bail!` of its source. -/
inductive UpdaterError where
  | publicKeyNotFound (id : ReplicaId)
  | nextsnNotFound (id : ReplicaId)
  | mrtNotFound (id : ReplicaId)
  | timestampMapFailed (tx : Transaction)
  deriving DecidableEq, Repr

def UpdaterError.message : UpdaterError → String
  | publicKeyNotFound id =>
    "Bad initialization: Replica public key not found for replica id: " ++ toString id
  | nextsnNotFound id =>
    "Bad initialization: Next sequence number not found for replica id: " ++ toString id
  | mrtNotFound id => "Bad initialization: MRT not found for replica id: " ++ toString id
  | timestampMapFailed tx =>
    "Failed to get or create timestamp map for transaction: " ++ reprStr tx

/-- The client's view of the pod. The first four maps are shared with the read
API; `backlog` is local to the updater. `calls` is a ghost: the calls of
`processVote` so far, oldest first. -/
structure ClientState where
  tsps : HashMap Transaction (HashMap ReplicaId Timestamp)
  mrt : HashMap ReplicaId Timestamp
  nextsn : HashMap ReplicaId SequenceNumber
  tsVoteMsg : HashMap Timestamp Vote
  backlog : HashMap ReplicaId (BTreeMap SequenceNumber Vote)
  calls : List (ReplicaId × Vote)

/-- The maps before the first vote; a repeated id keeps its last entry. -/
def initPodNetworkClient (replicasList : List Replica) : HashMap ReplicaId Replica × ClientState :=
  (replicasList.foldl (fun m replica => Finmap.insert replica.id replica m) ∅,
    { tsps := ∅
      mrt := replicasList.foldl (fun m replica => Finmap.insert replica.id 0 m) ∅
      nextsn := replicasList.foldl (fun m replica => Finmap.insert replica.id 0 m) ∅
      tsVoteMsg := ∅
      backlog := ∅
      calls := [] })

def processVote (replicaId : ReplicaId) (transaction : Transaction) (timestamp : Timestamp)
    (vote : Vote) (s : ClientState) : Except UpdaterError ClientState :=
  let s := { s with
    calls := s.calls ++ [(replicaId, vote)]
    tsVoteMsg := if timestamp ∈ s.tsVoteMsg then s.tsVoteMsg
      else s.tsVoteMsg.insert timestamp vote }
  match s.mrt.lookup replicaId with
  | none => .error (.mrtNotFound replicaId)
  | some mrtEntry =>
    if timestamp < mrtEntry then .ok s
    else
      let s := { s with mrt := s.mrt.insert replicaId timestamp }
      if isHeartbeat transaction then .ok s
      else
        let s := { s with
          tsps := if transaction ∈ s.tsps then s.tsps else s.tsps.insert transaction ∅ }
        match s.tsps.lookup transaction with
        | none => .error (.timestampMapFailed transaction)
        | some replicaTimestampMap =>
          if replicaTimestampMap.lookup replicaId ≠ none ∧
              replicaTimestampMap.lookup replicaId ≠ some timestamp then .ok s
          else
            .ok { s with
              tsps := s.tsps.insert transaction (replicaTimestampMap.insert replicaId timestamp) }

/-- Store a vote that came too early. -/
def addToBacklog (vote : Vote) (s : ClientState) : ClientState :=
  let backlog := if vote.replicaId ∈ s.backlog then s.backlog
    else s.backlog.insert vote.replicaId ∅
  match backlog.lookup vote.replicaId with
  | none => { s with backlog := backlog }
  | some replicaBacklog =>
    { s with
      backlog := backlog.insert vote.replicaId (replicaBacklog.insert vote.sequenceNumber vote) }

section Loop

variable (verifyStrict : VerifyStrict) (replicas : HashMap ReplicaId Replica)

/-- One received vote up to the backlog loop. The second component names the
replica whose backlog is tried next, if the vote was processed. -/
def receiveVote (vote : Vote) (s : ClientState) :
    Except UpdaterError (ClientState × Option ReplicaId) :=
  match vote.transaction with
  | none => .ok (s, none)
  | some transaction =>
    match replicas.lookup vote.replicaId with
    | none => .error (.publicKeyNotFound vote.replicaId)
    | some replica =>
      if verifyVoteSignature verifyStrict replica.pk transaction.data vote.timestamp
          vote.sequenceNumber vote.signature = false then .ok (s, none)
      else
        match s.nextsn.lookup vote.replicaId with
        | none => .error (.nextsnNotFound vote.replicaId)
        | some nextsn =>
          if vote.sequenceNumber < nextsn then .ok (s, none)
          else if nextsn < vote.sequenceNumber then .ok (addToBacklog vote s, none)
          else
            -- the counter is a u64 and wraps as in a release build
            let s := { s with nextsn := s.nextsn.insert vote.replicaId (nextsn + 1) }
            match processVote vote.replicaId transaction vote.timestamp vote s with
            | .error e => .error e
            | .ok s => .ok (s, some vote.replicaId)

/-- One round of the backlog loop of a replica; `none` leaves the loop. -/
def drainBacklogStep (replicaId : ReplicaId) (s : ClientState) :
    Except UpdaterError (Option ClientState) :=
  match s.backlog.lookup replicaId with
  | none => .ok none
  | some replicaBacklog =>
    match BTreeMap.firstKeyValue replicaBacklog with
    | none => .ok none
    | some (nextSeq, backloggedVote) =>
      match s.nextsn.lookup replicaId with
      | none => .error (.nextsnNotFound replicaId)
      | some nextsn =>
        if nextSeq = nextsn then
          let s := { s with
            backlog := s.backlog.insert replicaId (replicaBacklog.erase nextSeq)
            nextsn := s.nextsn.insert replicaId (nextsn + 1) }
          match backloggedVote.transaction with
          | none => .ok (some s)
          | some backloggedTransaction =>
            match processVote replicaId backloggedTransaction backloggedVote.timestamp
                backloggedVote s with
            | .error e => .error e
            | .ok s => .ok (some s)
        else .ok none

/-- The number of votes kept for a replica bounds its backlog loop. -/
def backlogSize (replicaId : ReplicaId) (s : ClientState) : Nat :=
  match s.backlog.lookup replicaId with
  | none => 0
  | some replicaBacklog => replicaBacklog.keys.card

def drainBacklog (replicaId : ReplicaId) : Nat → ClientState → Except UpdaterError ClientState
  | 0, s => .ok s
  | fuel + 1, s =>
    match drainBacklogStep replicaId s with
    | .error e => .error e
    | .ok none => .ok s
    | .ok (some s') => drainBacklog replicaId fuel s'

/-- One whole iteration of the updater's outer loop. -/
def updateWithVote (vote : Vote) (s : ClientState) : Except UpdaterError ClientState :=
  match receiveVote verifyStrict replicas vote s with
  | .error e => .error e
  | .ok (s, none) => .ok s
  | .ok (s, some replicaId) => drainBacklog replicaId (backlogSize replicaId s) s

/-- The updater on the votes its channel yields before it closes. -/
def startPodDataUpdater : List Vote → ClientState → Except UpdaterError ClientState
  | [], s => .ok s
  | vote :: votes, s =>
    match updateWithVote verifyStrict replicas vote s with
    | .error e => .error e
    | .ok s => startPodDataUpdater votes s

end Loop

/-- The timestamp recorded for a transaction and a replica. -/
def ClientState.stamp (s : ClientState) (tx : Transaction) (r : ReplicaId) : Option Timestamp :=
  (s.tsps.lookup tx).bind fun m => m.lookup r

/-- The state after a call of `processVote` that finds `mrtEntry`, with the
early returns of the source folded into the map each of them leaves alone. -/
def afterVote (r : ReplicaId) (tx : Transaction) (ts mrtEntry : Timestamp) (vote : Vote)
    (s : ClientState) : ClientState :=
  { s with
    calls := s.calls ++ [(r, vote)]
    tsVoteMsg := if ts ∈ s.tsVoteMsg then s.tsVoteMsg else s.tsVoteMsg.insert ts vote
    mrt := if ts < mrtEntry then s.mrt else s.mrt.insert r ts
    tsps := if ts < mrtEntry ∨ isHeartbeat tx = true ∨ (s.stamp tx r).isSome then s.tsps
      else s.tsps.insert tx (((s.tsps.lookup tx).getD ∅).insert r ts) }

theorem insert_lookup_self {K V : Type} [DecidableEq K] {m : HashMap K V} {k : K} {v : V}
    (known : m.lookup k = some v) : Finmap.insert k v m = m := by
  refine Finmap.ext_lookup fun k' => ?_
  by_cases same : k' = k
  · subst same
    rw [Finmap.lookup_insert, known]
  · rw [Finmap.lookup_insert_of_ne _ same]

/-- The inner map of a key once its entry has been created if needed. -/
theorem lookup_created {K L V : Type} [DecidableEq K] (m : HashMap K (HashMap L V)) (k : K) :
    (if k ∈ m then m else m.insert k ∅).lookup k = some ((m.lookup k).getD ∅) := by
  split
  · rename_i member
    obtain ⟨entry, known⟩ := Finmap.mem_iff.mp member
    simp [known]
  · rename_i absent
    simp [Finmap.lookup_eq_none.mpr absent]

theorem processVote_eq {r : ReplicaId} {tx : Transaction} {ts mrtEntry : Timestamp} {vote : Vote}
    {s : ClientState} (known : s.mrt.lookup r = some mrtEntry) :
    processVote r tx ts vote s = .ok (afterVote r tx ts mrtEntry vote s) := by
  simp only [processVote, known, lookup_created]
  by_cases stale : ts < mrtEntry
  · simp only [stale, if_true, afterVote, true_or]
  · by_cases heartbeat : isHeartbeat tx = true
    · simp only [stale, heartbeat, if_true, if_false, afterVote, true_or, or_true]
    · simp only [stale, heartbeat, if_false, afterVote, false_or, ClientState.stamp]
      by_cases member : tx ∈ s.tsps
      · obtain ⟨entry, atTx⟩ := Finmap.mem_iff.mp member
        simp only [member, atTx, if_true, Option.getD_some, Option.bind_some]
        cases old : entry.lookup r with
        | none => simp
        | some t =>
          by_cases same : t = ts
          · subst same
            simp [insert_lookup_self old, insert_lookup_self atTx]
          · simp [same]
      · have absent := Finmap.lookup_eq_none.mpr member
        simp [member, absent, Finmap.insert_insert]

theorem addToBacklog_eq (vote : Vote) (s : ClientState) :
    addToBacklog vote s = { s with
      backlog := s.backlog.insert vote.replicaId
        (((s.backlog.lookup vote.replicaId).getD ∅).insert vote.sequenceNumber vote) } := by
  simp only [addToBacklog, lookup_created]
  split
  · rfl
  · rw [Finmap.insert_insert]

/-- The state the drain loop and the direct path hand to `processVote`. -/
def countVote (r : ReplicaId) (nextsn : SequenceNumber) (s : ClientState) : ClientState :=
  { s with nextsn := s.nextsn.insert r (nextsn + 1) }

/-- Taking the awaited vote out of the backlog and counting it. -/
def takeFromBacklog (r : ReplicaId) (kept : BTreeMap SequenceNumber Vote) (nextsn : SequenceNumber)
    (s : ClientState) : ClientState :=
  countVote r nextsn { s with backlog := s.backlog.insert r (kept.erase nextsn) }

section Cases

variable {verifyStrict : VerifyStrict} {replicas : HashMap ReplicaId Replica}
  {s s' : ClientState} {vote : Vote} {r : ReplicaId}

/-- Everything one received vote can do before the backlog loop. -/
theorem receiveVote_cases {next : Option ReplicaId}
    (step : receiveVote verifyStrict replicas vote s = .ok (s', next)) :
    (¬ Verified verifyStrict replicas vote ∧ s' = s ∧ next = none) ∨
    Verified verifyStrict replicas vote ∧ ∃ nextsn, s.nextsn.lookup vote.replicaId = some nextsn ∧
      ((vote.sequenceNumber < nextsn ∧ s' = s ∧ next = none) ∨
      (nextsn < vote.sequenceNumber ∧ s' = addToBacklog vote s ∧ next = none) ∨
      (vote.sequenceNumber = nextsn ∧ next = some vote.replicaId ∧
        ∃ tx, vote.transaction = some tx ∧
          processVote vote.replicaId tx vote.timestamp vote (countVote vote.replicaId nextsn s) =
            .ok s')) := by
  unfold receiveVote at step
  cases carried : vote.transaction with
  | none =>
    simp only [carried, Except.ok.injEq, Prod.mk.injEq] at step
    exact Or.inl ⟨by simp [Verified, carried], step.1.symm, step.2.symm⟩
  | some tx =>
    simp only [carried] at step
    cases key : replicas.lookup vote.replicaId with
    | none => simp [key] at step
    | some replica =>
      simp only [key] at step
      split at step
      · rename_i refused
        simp only [Except.ok.injEq, Prod.mk.injEq] at step
        exact Or.inl ⟨by simp [Verified, carried, key, refused], step.1.symm, step.2.symm⟩
      · rename_i accepted
        have verified : Verified verifyStrict replicas vote :=
          ⟨tx, replica, carried, key, by simpa using accepted⟩
        refine Or.inr ⟨verified, ?_⟩
        cases expected : s.nextsn.lookup vote.replicaId with
        | none => simp [expected] at step
        | some nextsn =>
          simp only [expected] at step
          refine ⟨nextsn, rfl, ?_⟩
          split at step
          · rename_i old
            simp only [Except.ok.injEq, Prod.mk.injEq] at step
            exact Or.inl ⟨old, step.1.symm, step.2.symm⟩
          · rename_i notOld
            split at step
            · rename_i early
              simp only [Except.ok.injEq, Prod.mk.injEq] at step
              exact Or.inr (Or.inl ⟨early, step.1.symm, step.2.symm⟩)
            · rename_i notEarly
              have awaited := le_antisymm (not_lt.mp notEarly) (not_lt.mp notOld)
              split at step
              · simp at step
              · rename_i processed run
                simp only [Except.ok.injEq, Prod.mk.injEq] at step
                exact Or.inr (Or.inr ⟨awaited, step.2.symm, tx, rfl, step.1 ▸ run⟩)

/-- Everything one round of the backlog loop can do. -/
theorem drainBacklogStep_cases (step : drainBacklogStep r s = .ok (some s')) :
    ∃ kept nextsn vote, s.backlog.lookup r = some kept ∧
      BTreeMap.firstKeyValue kept = some (nextsn, vote) ∧ s.nextsn.lookup r = some nextsn ∧
      ((vote.transaction = none ∧ s' = takeFromBacklog r kept nextsn s) ∨
      ∃ tx, vote.transaction = some tx ∧
        processVote r tx vote.timestamp vote (takeFromBacklog r kept nextsn s) = .ok s') := by
  unfold drainBacklogStep at step
  cases lane : s.backlog.lookup r with
  | none => simp [lane] at step
  | some kept =>
    simp only [lane] at step
    split at step
    · simp at step
    · rename_i nextSeq vote first
      cases expected : s.nextsn.lookup r with
      | none => simp [expected] at step
      | some nextsn =>
        simp only [expected] at step
        split at step
        · rename_i awaited
          subst awaited
          refine ⟨kept, nextSeq, vote, rfl, first, rfl, ?_⟩
          cases carried : vote.transaction with
          | none =>
            simp only [carried, Except.ok.injEq, Option.some.injEq] at step
            exact Or.inl ⟨rfl, step.symm⟩
          | some tx =>
            simp only [carried] at step
            split at step
            · simp at step
            · rename_i processed run
              simp only [Except.ok.injEq, Option.some.injEq] at step
              exact Or.inr ⟨tx, rfl, step ▸ run⟩
        · simp at step

/-- The verified vote that is due is processed. -/
theorem receiveVote_due {tx : Transaction} {replica : Replica} (carried : vote.transaction = some tx)
    (known : replicas.lookup vote.replicaId = some replica)
    (valid : verifyVoteSignature verifyStrict replica.pk tx.data vote.timestamp vote.sequenceNumber
      vote.signature = true)
    (due : s.nextsn.lookup vote.replicaId = some vote.sequenceNumber)
    (run : processVote vote.replicaId tx vote.timestamp vote
      (countVote vote.replicaId vote.sequenceNumber s) = .ok s') :
    receiveVote verifyStrict replicas vote s = .ok (s', some vote.replicaId) := by
  unfold countVote at run
  simp only [receiveVote, carried, known, valid, due, lt_irrefl, if_false, Bool.true_eq_false, run]

theorem drainBacklogStep_none (first : (s.backlog.lookup r).bind BTreeMap.firstKeyValue = none) :
    drainBacklogStep r s = .ok none := by
  unfold drainBacklogStep
  cases backlog : s.backlog.lookup r with
  | none => rfl
  | some kept =>
    rw [backlog, Option.bind_some] at first
    simp [first]

/-- The backlogged vote that is due is processed. -/
theorem drainBacklogStep_due {kept : BTreeMap SequenceNumber Vote} {nextsn : SequenceNumber}
    {tx : Transaction} (backlog : s.backlog.lookup r = some kept)
    (first : BTreeMap.firstKeyValue kept = some (nextsn, vote)) (due : s.nextsn.lookup r = some nextsn)
    (carried : vote.transaction = some tx)
    (run : processVote r tx vote.timestamp vote (takeFromBacklog r kept nextsn s) = .ok s') :
    drainBacklogStep r s = .ok (some s') := by
  unfold takeFromBacklog countVote at run
  simp only [drainBacklogStep, backlog, first, due, carried, if_true, run]

end Cases

end Podnet
