import Podnet.Client.ReadLocks

namespace Podnet

open FairLocks

abbrev ClientSystem := System ClientTask SharedLock ClientState Outcome

/-- The updater takes up the next vote unless it has stopped; a read may begin at
any time. -/
inductive Starts (verifyStrict : VerifyStrict) (replicas : HashMap ReplicaId Replica)
    (alpha beta : Nat) : ClientTask → Outcome → LockProgram → Prop
  | receive (vote : Vote) {outcome} : (∀ e, outcome ≠ .stopped e) →
      Starts verifyStrict replicas alpha beta .updater outcome
        (updateWithVoteLocks verifyStrict replicas vote)
  | serve (orders : HashOrders) {i outcome} :
      Starts verifyStrict replicas alpha beta (.reader i) outcome
      (readLocks orders replicas alpha beta)

/-- The client before the first vote and the first read. -/
def initialSystem (replicasList : List Replica) : ClientSystem :=
  ⟨fun _ => ⟨[], []⟩, fun _ => .finish .idle, (initPodNetworkClient replicasList).2⟩

/-- The updater asks for one lock at a time, and for `tsps` and `tsVoteMsg` inside
its guard of `mrt`. -/
def updaterRule : Discipline SharedLock ClientState where
  mayHold held := held (.mrt, .write) ≤ 1 ∧ held (.mrt, .read) = 0
  mayAsk held l m := (∀ m', held (l, m') = 0) ∧ (m = .write → l ≠ .replicas) ∧
    (l = .tsps ∨ l = .tsVoteMsg → 0 < held (.mrt, .write))
  mayAct _ := True

/-- A read takes read guards only, asks for nothing while it holds `mrt`, and
leaves the data alone. -/
def readerRule : Discipline SharedLock ClientState where
  mayHold held := (∀ l, held (l, .write) = 0) ∧ held (.nextsn, .read) = 0
  mayAsk held _ m := m = .read ∧ held (.mrt, .read) = 0
  mayAct effect := ∀ s, effect s = s

def clientRules : ClientTask → Discipline SharedLock ClientState
  | .updater => updaterRule
  | .reader _ => readerRule

/-- One more guard. -/
abbrev taken (held : SharedLock × Mode → Nat) (l : SharedLock) (m : Mode) : SharedLock × Mode → Nat :=
  Function.update held (l, m) (held (l, m) + 1)

def noGuards : SharedLock × Mode → Nat := fun _ => 0

section Programs

variable {held : SharedLock × Mode → Nat}

theorem follows_processVoteLocks {r : ReplicaId} {tx : Transaction} {ts : Timestamp} {vote : Vote}
    {stop : UpdaterError → LockProgram} {next : LockProgram} (inside : held (.mrt, .write) = 1)
    (noRead : held (.mrt, .read) = 0) (tsps : ∀ m, held (.tsps, m) = 0)
    (tsVoteMsg : ∀ m, held (.tsVoteMsg, m) = 0) (stops : ∀ e, updaterRule.Follows (stop e) held)
    (goesOn : updaterRule.Follows next held) :
    updaterRule.Follows (processVoteLocks r tx ts vote stop next) held := by
  have holds : updaterRule.mayHold held := ⟨by omega, noRead⟩
  unfold processVoteLocks
  rw [Discipline.follows_acquire, Discipline.follows_branch]
  refine ⟨holds, ⟨tsVoteMsg, by simp, by omega⟩, ⟨by simp [inside], by simp [noRead]⟩, trivial, ?_⟩
  intro s
  rw [Discipline.follows_release_taken, Discipline.follows_branch]
  refine ⟨⟨by simp [inside], by simp [noRead]⟩, holds, trivial, fun s => ?_⟩
  split
  · exact stops _
  · split
    · exact goesOn
    · split
      · exact goesOn
      · rw [Discipline.follows_acquire, Discipline.follows_branch]
        refine ⟨holds, ⟨tsps, by simp, by omega⟩, ⟨by simp [inside], by simp [noRead]⟩, trivial, ?_⟩
        intro s
        rw [Discipline.follows_release_taken]
        refine ⟨⟨by simp [inside], by simp [noRead]⟩, ?_⟩
        split
        · exact stops _
        · exact goesOn

theorem follows_replicasLast (outcome : Outcome) :
    updaterRule.Follows (.release .replicas .read (.finish outcome))
      (taken noGuards .replicas .read) := by
  rw [Discipline.follows_release_taken]
  simp [updaterRule, noGuards, Discipline.Follows]

theorem follows_nextsnLast (outcome : Outcome) :
    updaterRule.Follows (.release .nextsn .write (.release .replicas .read (.finish outcome)))
      (taken (taken noGuards .replicas .read) .nextsn .write) := by
  rw [Discipline.follows_release_taken]
  exact ⟨by simp [updaterRule, noGuards], follows_replicasLast outcome⟩

/-- Processing a vote under the guard of `mrt` that is taken and dropped around it. -/
theorem follows_underMrt {r : ReplicaId} {tx : Transaction} {ts : Timestamp} {vote : Vote}
    {next : LockProgram} (goesOn : updaterRule.Follows next (taken noGuards .replicas .read)) :
    updaterRule.Follows
      (.acquire .mrt .write (processVoteLocks r tx ts vote stopLocks (.release .mrt .write next)))
      (taken noGuards .replicas .read) := by
  have inside : updaterRule.mayHold (taken (taken noGuards .replicas .read) .mrt .write) := by
    simp [updaterRule, noGuards]
  rw [Discipline.follows_acquire]
  refine ⟨by simp [updaterRule, noGuards], by simp [updaterRule, noGuards], ?_⟩
  refine follows_processVoteLocks (by simp [noGuards]) (by simp [noGuards]) (by simp [noGuards])
    (by simp [noGuards]) (fun e => ?_) ?_
  · exact Discipline.follows_release_taken.mpr ⟨inside, follows_replicasLast _⟩
  · exact Discipline.follows_release_taken.mpr ⟨inside, goesOn⟩

theorem follows_drainBacklogLocks (r : ReplicaId) (fuel : Nat) :
    updaterRule.Follows (drainBacklogLocks r fuel) (taken noGuards .replicas .read) := by
  have outside : updaterRule.mayHold (taken noGuards .replicas .read) := by
    simp [updaterRule, noGuards]
  have counting : updaterRule.mayHold (taken (taken noGuards .replicas .read) .nextsn .write) := by
    simp [updaterRule, noGuards]
  induction fuel with
  | zero => exact follows_replicasLast _
  | succ fuel ih =>
    rw [drainBacklogLocks, Discipline.follows_branch]
    refine ⟨outside, trivial, fun s => ?_⟩
    split
    · exact follows_replicasLast _
    · rw [Discipline.follows_acquire, Discipline.follows_branch]
      refine ⟨outside, by simp [updaterRule, noGuards], counting, trivial, fun s => ?_⟩
      split
      · exact follows_nextsnLast _
      · split
        · rw [Discipline.follows_release_taken]
          refine ⟨counting, ?_⟩
          split
          · exact ih
          · exact follows_underMrt ih
        · exact follows_nextsnLast _

theorem follows_updateWithVoteLocks (verifyStrict : VerifyStrict)
    (replicas : HashMap ReplicaId Replica) (vote : Vote) :
    updaterRule.Follows (updateWithVoteLocks verifyStrict replicas vote) noGuards := by
  have outside : updaterRule.mayHold (taken noGuards .replicas .read) := by
    simp [updaterRule, noGuards]
  have counting : updaterRule.mayHold (taken (taken noGuards .replicas .read) .nextsn .write) := by
    simp [updaterRule, noGuards]
  unfold updateWithVoteLocks
  split
  · simp [updaterRule, noGuards, Discipline.Follows]
  · rw [Discipline.follows_acquire]
    refine ⟨by simp [updaterRule, noGuards], by simp [updaterRule, noGuards], ?_⟩
    split
    · exact follows_replicasLast _
    · split
      · exact follows_replicasLast _
      · rw [Discipline.follows_acquire, Discipline.follows_branch]
        refine ⟨outside, by simp [updaterRule, noGuards], counting, trivial, fun s => ?_⟩
        split
        · exact follows_nextsnLast _
        · split
          · exact follows_nextsnLast _
          · split
            · exact follows_nextsnLast _
            · rw [Discipline.follows_release_taken]
              refine ⟨counting, follows_underMrt ?_⟩
              rw [Discipline.follows_branch]
              exact ⟨outside, trivial, fun s => follows_drainBacklogLocks _ _⟩

theorem readerRule_taken {l : SharedLock} (other : l ≠ .nextsn) (holds : readerRule.mayHold held) :
    readerRule.mayHold (taken held l .read) := by
  refine ⟨fun l' => ?_, ?_⟩
  · rw [taken, Function.update_of_ne (by simp)]
    exact holds.1 l'
  · rw [taken, Function.update_of_ne (by simp [Ne.symm other])]
    exact holds.2

/-- A guard that is taken for reading and dropped again, outside every guard of
`mrt`. -/
theorem follows_guard {l : SharedLock} {next : LockProgram} (other : l ≠ .nextsn)
    (holds : readerRule.mayHold held) (noMrt : held (.mrt, .read) = 0)
    (goesOn : readerRule.mayHold (taken held l .read) →
      readerRule.Follows next (taken held l .read)) :
    readerRule.Follows (.acquire l .read next) held :=
  ⟨holds, ⟨rfl, noMrt⟩, goesOn (readerRule_taken other holds)⟩

theorem follows_minPossibleTsLocks {orders : HashOrders} {replicas : HashMap ReplicaId Replica}
    {alpha beta : Nat} {tx : Transaction} {next : Timestamp → LockProgram}
    (holds : readerRule.mayHold held) (noMrt : held (.mrt, .read) = 0)
    (goesOn : ∀ rmin, readerRule.Follows (next rmin) held) :
    readerRule.Follows (minPossibleTsLocks orders replicas alpha beta tx next) held := by
  refine follows_guard (by simp) holds noMrt fun holds₁ => ?_
  refine follows_guard (by simp) holds₁ (by simpa using noMrt) fun holds₂ => ?_
  refine follows_guard (by simp) holds₂ (by simpa using noMrt) fun holds₃ => ?_
  rw [Discipline.follows_branch]
  refine ⟨holds₃, fun _ => rfl, fun s => ?_⟩
  rw [Discipline.follows_release_taken, Discipline.follows_release_taken,
    Discipline.follows_release_taken]
  exact ⟨holds₃, holds₂, holds₁, goesOn _⟩

theorem follows_maxPossibleTsLocks {orders : HashOrders} {replicas : HashMap ReplicaId Replica}
    {alpha beta : Nat} {tx : Transaction} {panic : LockProgram} {next : Timestamp → LockProgram}
    (holds : readerRule.mayHold held) (noMrt : held (.mrt, .read) = 0)
    (unwinds : readerRule.Follows panic held) (goesOn : ∀ rmax, readerRule.Follows (next rmax) held) :
    readerRule.Follows (maxPossibleTsLocks orders replicas alpha beta tx panic next) held := by
  refine follows_guard (by simp) holds noMrt fun holds₁ => ?_
  refine follows_guard (by simp) holds₁ (by simpa using noMrt) fun holds₂ => ?_
  rw [Discipline.follows_branch]
  refine ⟨holds₂, fun _ => rfl, fun s => ?_⟩
  rw [Discipline.follows_release_taken, Discipline.follows_release_taken]
  refine ⟨holds₂, holds₁, ?_⟩
  split
  · exact unwinds
  · exact goesOn _

theorem follows_txRecordsLocks {orders : HashOrders} {replicas : HashMap ReplicaId Replica}
    {alpha beta : Nat} {next : List TxRecord → LockProgram} (txs : List Transaction)
    (t : List TxRecord)
    (goesOn : ∀ t, readerRule.Follows (next t) (taken (taken noGuards .tsps .read) .tsVoteMsg .read)) :
    readerRule.Follows (txRecordsLocks orders replicas alpha beta next txs t)
      (taken (taken noGuards .tsps .read) .tsVoteMsg .read) := by
  have holds : readerRule.mayHold (taken (taken noGuards .tsps .read) .tsVoteMsg .read) := by
    simp [readerRule, noGuards]
  have noMrt : taken (taken noGuards .tsps .read) .tsVoteMsg .read (.mrt, .read) = 0 := by
    simp [noGuards]
  induction txs generalizing t with
  | nil => exact goesOn t
  | cons tx txs ih =>
    rw [txRecordsLocks]
    refine follows_minPossibleTsLocks holds noMrt fun rmin => ?_
    refine follows_maxPossibleTsLocks holds noMrt ?_ fun rmax => ?_
    · rw [Discipline.follows_release_taken, Discipline.follows_release_taken]
      simp [readerRule, noGuards, Discipline.Follows]
    · rw [Discipline.follows_branch]
      refine ⟨holds, fun _ => rfl, fun s => ?_⟩
      split
      · exact ih _
      · exact ih _

theorem follows_readLocks (orders : HashOrders) (replicas : HashMap ReplicaId Replica)
    (alpha beta : Nat) : readerRule.Follows (readLocks orders replicas alpha beta) noGuards := by
  refine follows_guard (by simp) (by simp [readerRule, noGuards]) (by simp [noGuards]) fun holds₁ => ?_
  refine follows_guard (by simp) holds₁ (by simp [noGuards]) fun holds₂ => ?_
  rw [Discipline.follows_branch]
  refine ⟨holds₂, fun _ => rfl, fun s => follows_txRecordsLocks _ _ fun t => ?_⟩
  refine follows_guard (by simp) holds₂ (by simp [noGuards]) fun holds₃ => ?_
  rw [Discipline.follows_branch]
  refine ⟨holds₃, fun _ => rfl, fun s => ?_⟩
  rw [Discipline.follows_release_taken]
  refine ⟨holds₃, follows_guard (by simp) holds₂ (by simp [noGuards]) fun _ => ?_⟩
  rw [Discipline.follows_branch]
  refine ⟨holds₃, fun _ => rfl, fun s => ?_⟩
  rw [Discipline.follows_release_taken, Discipline.follows_release_taken,
    Discipline.follows_release_taken]
  exact ⟨holds₃, holds₂, holds₁, by simp [readerRule, noGuards], fun _ => rfl⟩

end Programs

/-- A read that holds `l` and has more locks to take. -/
def Exposed (st : ClientSystem) (i : Nat) (l : SharedLock) : Prop :=
  0 < st.guards (.reader i) (l, .read) ∧ (st.program (.reader i)).MayAsk

/-- The updater holds `mrt`, and the vote in hand makes it write `l` before it
lets go. -/
def Pending (st : ClientSystem) (l : SharedLock) : Prop :=
  0 < st.guards .updater (.mrt, .write) ∧ (st.program .updater).WritesInside .mrt l st.data

/-- When a lock may be handed to a task without a wait in circles ahead: `mrt` to
the updater while no read with more locks to take holds a lock that the vote in
hand will be written under, and a lock to a read while the updater is not about
to write it inside `mrt`. -/
def Careful (st : ClientSystem) : ClientTask → SharedLock → Prop
  | .updater, .mrt => ∀ i l, (st.program .updater).WritesInside .mrt l st.data → ¬ Exposed st i l
  | .updater, _ => True
  | .reader _, l => ¬ Pending st l

section Runs

variable (verifyStrict : VerifyStrict) (replicas : HashMap ReplicaId Replica) (alpha beta : Nat)

/-- Steps that hand out locks with care. -/
def CarefulStep (st st' : ClientSystem) : Prop :=
  ∃ granted, Step (Starts verifyStrict replicas alpha beta) st granted st' ∧
    ∀ t l, granted = some (t, l) → Careful st t l

end Runs

/-- The invariant of careful runs: nothing the updater is about to write inside
`mrt` is held by a read with more locks to take. -/
structure NoClash (st : ClientSystem) : Prop extends Disciplined clientRules st where
  apart : ∀ l i, Pending st l → ¬ Exposed st i l

section NoClash

variable {verifyStrict : VerifyStrict} {replicas : HashMap ReplicaId Replica} {alpha beta : Nat}
  {st st' : ClientSystem}

theorem starts_follow {t : ClientTask} {outcome : Outcome} {program : LockProgram}
    (starts : Starts verifyStrict replicas alpha beta t outcome program) :
    (clientRules t).Follows program fun _ => 0 := by
  cases starts with
  | receive vote _ => exact follows_updateWithVoteLocks verifyStrict replicas vote
  | serve orders => exact follows_readLocks orders replicas alpha beta

/-- A step of the updater makes nothing pending but what its new guard of `mrt`
encloses. -/
theorem pending_of_updater {granted : Option (ClientTask × SharedLock)} {l : SharedLock}
    (inv : Disciplined clientRules st)
    (moves : Moves (Starts verifyStrict replicas alpha beta) st st' granted .updater)
    (pending : Pending st' l) :
    Pending st l ∨ granted = some (.updater, .mrt) ∧
      (st.program .updater).WritesInside .mrt l st.data := by
  obtain ⟨inside, writes⟩ := pending
  have follows := inv.follows .updater
  cases moves with
  | request program guards data =>
    rw [guards] at inside
    rw [program, data] at writes
    exact Or.inl ⟨inside, writes⟩
  | start idle _ guards _ =>
    rw [idle] at follows
    rw [guards, follows.2] at inside
    exact absurd inside (lt_irrefl 0)
  | @grant l' m atAcquire label guards data =>
    rw [data] at writes
    have ahead : (st.program .updater).WritesInside .mrt l st.data := by
      rw [atAcquire]
      exact Or.inr writes
    by_cases outer : l' = .mrt
    · exact Or.inr ⟨outer ▸ label, ahead⟩
    · rw [guards, Function.update_of_ne (by simp [Ne.symm outer])] at inside
      exact Or.inl ⟨inside, ahead⟩
  | @release l' m atRelease guards data =>
    rw [atRelease] at follows
    obtain ⟨holds, positive, _⟩ := follows
    rw [data] at writes
    by_cases outer : l' = .mrt
    · subst outer
      cases m with
      | read =>
        rw [holds.2] at positive
        exact absurd positive (lt_irrefl 0)
      | write =>
        rw [guards, Function.update_self] at inside
        have single := holds.1
        omega
    · rw [guards, Function.update_of_ne (by simp [Ne.symm outer])] at inside
      refine Or.inl ⟨inside, ?_⟩
      rw [atRelease]
      exact ⟨outer, writes⟩
  | act atAct program guards data =>
    rw [guards] at inside
    rw [program, data] at writes
    refine Or.inl ⟨inside, ?_⟩
    rw [atAct]
    exact writes

/-- A step of a read exposes it only to the lock it is granted. -/
theorem exposed_of_reader {granted : Option (ClientTask × SharedLock)} {l : SharedLock} {i : Nat}
    (inv : Disciplined clientRules st)
    (moves : Moves (Starts verifyStrict replicas alpha beta) st st' granted (.reader i))
    (exposed : Exposed st' i l) : Exposed st i l ∨ granted = some (.reader i, l) := by
  obtain ⟨holds, asks⟩ := exposed
  have follows := inv.follows (.reader i)
  cases moves with
  | request program guards _ =>
    rw [guards] at holds
    rw [program] at asks
    exact Or.inl ⟨holds, asks⟩
  | start idle _ guards _ =>
    rw [idle] at follows
    rw [guards, follows.2] at holds
    exact absurd holds (lt_irrefl 0)
  | @grant l' m atAcquire label guards _ =>
    by_cases same : l' = l
    · exact Or.inr (same ▸ label)
    · rw [guards, Function.update_of_ne (by simp [Ne.symm same])] at holds
      exact Or.inl ⟨holds, by rw [atAcquire]; trivial⟩
  | @release l' m atRelease guards _ =>
    have before : 0 < st.guards (.reader i) (l, .read) := by
      rw [guards] at holds
      by_cases same : ((l, Mode.read) : SharedLock × Mode) = (l', m)
      · rw [← same, Function.update_self] at holds
        omega
      · rwa [Function.update_of_ne same] at holds
    exact Or.inl ⟨before, by rw [atRelease]; exact asks⟩
  | act atAct program guards _ =>
    rw [guards] at holds
    rw [program] at asks
    exact Or.inl ⟨holds, by rw [atAct]; exact ⟨st.data, asks⟩⟩

theorem data_of_reader {granted : Option (ClientTask × SharedLock)} {i : Nat}
    (inv : Disciplined clientRules st)
    (moves : Moves (Starts verifyStrict replicas alpha beta) st st' granted (.reader i)) :
    st'.data = st.data := by
  cases moves with
  | request _ _ data => exact data
  | start _ _ _ data => exact data
  | grant _ _ _ data => exact data
  | release _ _ data => exact data
  | act atAct _ _ data =>
    have follows := inv.follows (.reader i)
    rw [atAct] at follows
    rw [data]
    exact follows.2.1 st.data

theorem NoClash.step (inv : NoClash st) (step : CarefulStep verifyStrict replicas alpha beta st st') :
    NoClash st' := by
  obtain ⟨granted, step, careful⟩ := step
  have disciplined := inv.toDisciplined
  refine ⟨step.disciplined disciplined fun _ _ _ => starts_follow, fun l i pending exposed => ?_⟩
  obtain ⟨t, moves, others⟩ := step.mover
  cases t with
  | updater =>
    have reader := others (.reader i) (by simp)
    have before : Exposed st i l := by
      rw [Exposed, reader.1, reader.2] at exposed
      exact exposed
    rcases pending_of_updater disciplined moves pending with old | ⟨label, writes⟩
    · exact inv.apart l i old before
    · exact careful _ _ label i l writes before
  | reader j =>
    have updater := others .updater (by simp)
    have before : Pending st l := by
      rw [Pending, updater.1, updater.2, data_of_reader disciplined moves] at pending
      exact pending
    by_cases own : i = j
    · subst own
      rcases exposed_of_reader disciplined moves exposed with old | label
      · exact inv.apart l i before old
      · exact careful _ _ label before
    · have reader := others (.reader i) (by simp [own])
      rw [Exposed, reader.1, reader.2] at exposed
      exact inv.apart l i before exposed

theorem initial_noClash (replicasList : List Replica) : NoClash (initialSystem replicasList) := by
  refine ⟨⟨⟨?_, ?_⟩, ?_⟩, ?_⟩
  · intro l t m asks
    simp [initialSystem] at asks
  · intro l
    simp [initialSystem]
  · intro t
    have none : (initialSystem replicasList).guards t = noGuards := rfl
    rw [none]
    cases t <;> simp [clientRules, updaterRule, readerRule, noGuards, initialSystem, Discipline.Follows]
  · intro l i pending
    simp [Pending, initialSystem, System.guards] at pending

/-- Without a clash nobody waits in circles. -/
theorem NoClash.not_deadlocked (inv : NoClash st) : ¬ Deadlocked st := by
  have asks : ∀ t l m, (t, m) ∈ (st.locks l).queue → (clientRules t).mayAsk (st.guards t) l m := by
    intro t l m request
    obtain ⟨next, atAcquire⟩ := inv.program l t m request
    have follows := inv.follows t
    rw [atAcquire] at follows
    exact follows.2.1
  have reads : ∀ i l m, (ClientTask.reader i, m) ∈ (st.locks l).holders → m = .read := by
    intro i l m out
    cases m with
    | read => rfl
    | write =>
      have positive := guards_pos.mpr out
      have none := (Discipline.Follows.mayHold (inv.follows (.reader i))).1 l
      omega
  refine inv.toQueued.not_deadlocked .updater ?_ ?_ ?_
  · intro t other l m known
    cases t with
    | updater => exact absurd rfl other
    | reader i =>
      rcases known with request | out
      · exact (asks _ l m request).1
      · exact reads i l m out
  · intro l m m' request out
    have positive := guards_pos.mpr out
    have none := (asks _ l m request).1 m'
    omega
  · intro l request t other m out l' m' waits
    cases t with
    | updater => exact absurd rfl other
    | reader i =>
      have mode := reads i l m out
      subst mode
      have positive := guards_pos.mpr out
      obtain ⟨_, notReplicas, insideMrt⟩ := asks _ l .write request
      obtain ⟨next, atAcquire⟩ := inv.program l .updater .write request
      obtain ⟨next', atAcquire'⟩ := inv.program l' (.reader i) m' waits
      -- the vote in hand is about to be written under `l`
      have clash : l = .tsps ∨ l = .tsVoteMsg → False := by
        intro written
        refine inv.apart l i ⟨insideMrt written, ?_⟩ ⟨positive, ?_⟩
        · rw [atAcquire]
          exact Or.inl ⟨rfl, rfl⟩
        · rw [atAcquire']
          trivial
      cases l with
      | replicas => exact notReplicas rfl rfl
      | tsps => exact clash (Or.inl rfl)
      | tsVoteMsg => exact clash (Or.inr rfl)
      | mrt =>
        have none := (asks _ l' m' waits).2
        omega
      | nextsn =>
        have none := (Discipline.Follows.mayHold (inv.follows (.reader i))).2
        omega

end NoClash

/-- Reads and the updater never deadlock in a run that hands out every lock with
care. -/
theorem careful_run_not_deadlocked (verifyStrict : VerifyStrict) (replicasList : List Replica)
    (alpha beta : Nat) (st : ClientSystem)
    (run : Relation.ReflTransGen
      (CarefulStep verifyStrict (initPodNetworkClient replicasList).1 alpha beta)
      (initialSystem replicasList) st) : ¬ Deadlocked st := by
  have inv : NoClash st := by
    induction run with
    | refl => exact initial_noClash replicasList
    | tail _ step ih => exact ih.step step
  exact inv.not_deadlocked

section Undisturbed

variable {verifyStrict : VerifyStrict} {replicas : HashMap ReplicaId Replica} {alpha beta : Nat}
  {program : ClientTask → LockProgram} {s s' : ClientState}

/-- No lock is taken. -/
abbrev unlocked : SharedLock → RwLock ClientTask := fun _ => ⟨[], []⟩

theorem unlocked_undisturbed (t : ClientTask) : Undisturbed t unlocked :=
  ⟨fun _ => rfl, fun _ _ member => absurd member List.not_mem_nil⟩

/-- Where the updater may take what it asks for while nobody else holds a guard, its
undisturbed iteration is the one without locks. -/
theorem reachesBy_updateWithVote {permits : ClientSystem → ClientTask → SharedLock → Prop} {vote : Vote}
    (permit : ∀ st l, (∀ l, ∀ guard ∈ (System.locks st l).holders, guard.1 = .updater) →
      permits st .updater l)
    (idle : program .updater = .finish .idle)
    (run : updateWithVote verifyStrict replicas vote s = .ok s') :
    ReachesBy (Starts verifyStrict replicas alpha beta) permits ⟨unlocked, program, s⟩
      ⟨unlocked, program, s'⟩ := by
  have fits : ∀ held l m m', updaterRule.mayHold held → updaterRule.mayAsk held l m →
      0 < held (l, m') → m.compatible m' = true := by
    intro held l m m' _ asks positive
    have none := asks.1 m'
    omega
  have started : ReachesBy (Starts verifyStrict replicas alpha beta) permits ⟨unlocked, program, s⟩ _ :=
    .start idle (.receive vote (by simp))
  have ended := started.trans (ReachesBy.alone fits permit
    (follows_updateWithVoteLocks verifyStrict replicas vote) (unlocked_undisturbed _))
  rw [alone_updateWithVoteLocks run, ← idle, Function.update_eq_self] at ended
  exact ended

/-- Handing a lock to the only task that holds any is careful. -/
theorem careful_of_own {st : ClientSystem} {t : ClientTask} {l : SharedLock}
    (own : ∀ l, ∀ guard ∈ (st.locks l).holders, guard.1 = t) : Careful st t l := by
  cases t with
  | updater =>
    cases l with
    | mrt =>
      intro i l' _ exposed
      cases own l' _ (guards_pos.mp exposed.1)
    | replicas | nextsn | tsps | tsVoteMsg => trivial
  | reader i =>
    intro pending
    cases own .mrt _ (guards_pos.mp pending.1)

end Undisturbed

/-- The updater processes a vote; a read takes two locks, and the updater takes up the
next vote behind it. -/
theorem careful_run_not_deadlocked_next_vote :
    ∃ st, Relation.ReflTransGen
        (CarefulStep standInVerify (initPodNetworkClient (standInReplicas [7])).1 1 0)
        (initialSystem (standInReplicas [7])) st ∧
      st.data.stamp ⟨[65]⟩ 7 = some 5 ∧ (.reader 0, .read) ∈ (st.locks .tsps).holders ∧
      (.reader 0, .read) ∈ (st.locks .tsVoteMsg).holders ∧
      (.updater, .read) ∈ (st.locks .replicas).holders ∧ ¬ Deadlocked st := by
  let orders : HashOrders :=
    ⟨.arbitrary _ _, .arbitrary _ _, fun _ => .arbitrary _ _, .arbitrary _ _⟩
  have ends : (updateWithVote standInVerify (initPodNetworkClient (standInReplicas [7])).1
      (standInVote 7 [65] 5 0) (initPodNetworkClient (standInReplicas [7])).2).toOption.any (fun s =>
        decide (s.stamp ⟨[65]⟩ 7 = some 5)) = true := by decide +kernel
  obtain ⟨s, run, after⟩ := exists_ok_of_any ends
  have processed : ReachesBy (Starts standInVerify (initPodNetworkClient (standInReplicas [7])).1 1 0)
      Careful (initialSystem (standInReplicas [7])) ⟨unlocked, fun _ => .finish .idle, s⟩ :=
    reachesBy_updateWithVote (fun _ _ => careful_of_own) rfl run
  have reading := processed.trans (ReachesBy.start (t := .reader 0) rfl (.serve orders))
  have first := reading.trans (ReachesBy.take rfl (by simp) (by simp [Careful, Pending, System.guards]))
  have second := first.trans (ReachesBy.take rfl (by simp) (by simp [Careful, Pending, System.guards]))
  have receiving := second.trans
    (ReachesBy.start (t := .updater) rfl (.receive (standInVote 7 [66] 6 1) (by simp)))
  have third := receiving.trans (ReachesBy.take rfl (by simp) trivial)
  exact ⟨_, third, of_decide_eq_true after, by simp, by simp, by simp,
    careful_run_not_deadlocked standInVerify _ 1 0 _ third⟩

section Circle

variable (verifyStrict : VerifyStrict) (replicas : HashMap ReplicaId Replica) (alpha beta : Nat)
  {locks : SharedLock → RwLock ClientTask} {program : ClientTask → LockProgram} {s : ClientState}

/-- A read of an empty view comes to its first lock of `mrt` with `tsps` and
`tsVoteMsg` in hand. -/
theorem reaches_read_at_mrt (orders : HashOrders) {i : Nat} {outcome : Outcome}
    (idle : program (.reader i) = .finish outcome) (tsps : locks .tsps = ⟨[], []⟩)
    (tsVoteMsg : locks .tsVoteMsg = ⟨[], []⟩) (empty : s.tsps = ∅) :
    ∃ next, Reaches (Starts verifyStrict replicas alpha beta) ⟨locks, program, s⟩
      ⟨Function.update (Function.update locks .tsps ⟨[(.reader i, .read)], []⟩) .tsVoteMsg
        ⟨[(.reader i, .read)], []⟩,
        Function.update program (.reader i) (.acquire .mrt .read next), s⟩ := by
  have walked : orders.tsps.keys s.tsps = [] := by
    rw [← List.length_eq_zero_iff, orders.tsps.length_keys, empty]
    rfl
  have second : Function.update locks .tsps ⟨[(.reader i, .read)], []⟩ .tsVoteMsg = ⟨[], []⟩ := by
    rw [Function.update_of_ne (by simp), tsVoteMsg]
  have started : Reaches (Starts verifyStrict replicas alpha beta) ⟨locks, program, s⟩ _ :=
    .start idle (.serve orders)
  have opened := ((started.trans (Reaches.take tsps (by simp))).trans
    (Reaches.take second (by simp))).trans Reaches.branch
  simp only [walked, txRecordsLocks, minPossibleTsForNewTxLocks] at opened
  exact ⟨_, opened⟩

/-- A verified vote that is due takes the updater to its lock of `tsVoteMsg` with
`replicas` and `mrt` in hand. -/
theorem reaches_update_at_tsVoteMsg {vote : Vote} {outcome : Outcome} {nextsn : SequenceNumber}
    (idle : program .updater = .finish outcome) (running : ∀ e, outcome ≠ .stopped e)
    (verified : Verified verifyStrict replicas vote)
    (expected : s.nextsn.lookup vote.replicaId = some nextsn) (due : vote.sequenceNumber = nextsn)
    (free : ∀ l, l = .replicas ∨ l = .nextsn ∨ l = .mrt → locks l = ⟨[], []⟩) :
    ∃ next s', Reaches (Starts verifyStrict replicas alpha beta) ⟨locks, program, s⟩
      ⟨Function.update (Function.update locks .replicas ⟨[(.updater, .read)], []⟩) .mrt
        ⟨[(.updater, .write)], []⟩,
        Function.update program .updater (.acquire .tsVoteMsg .write next), s'⟩ := by
  obtain ⟨tx, replica, carried, known, valid⟩ := verified
  have second : Function.update locks .replicas ⟨[(.updater, .read)], []⟩ .nextsn = ⟨[], []⟩ := by
    rw [Function.update_of_ne (by simp), free .nextsn (by simp)]
  have third : Function.update locks .replicas ⟨[(.updater, .read)], []⟩ .mrt = ⟨[], []⟩ := by
    rw [Function.update_of_ne (by simp), free .mrt (by simp)]
  have started : Reaches (Starts verifyStrict replicas alpha beta) ⟨locks, program, s⟩ _ :=
    .start idle (.receive vote running)
  simp only [updateWithVoteLocks, carried, known, valid, Bool.true_eq_false, if_false] at started
  have counted := ((started.trans (Reaches.take (free .replicas (by simp)) (by simp))).trans
    (Reaches.take second (by simp))).trans Reaches.branch
  simp only [expected, due, lt_irrefl, if_false] at counted
  have dropped := counted.trans (Reaches.drop (Function.update_self ..))
  rw [Function.update_idem, List.erase_cons_head, ← second, Function.update_eq_self] at dropped
  exact ⟨_, _, dropped.trans (Reaches.take third (by simp))⟩

/-- A read that holds `tsVoteMsg` and the updater that holds `mrt` wait for each
other. -/
theorem reads_deadlock_with_updater :
    ∃ st, Reaches (Starts standInVerify (initPodNetworkClient (standInReplicas [7])).1 1 0)
      (initialSystem (standInReplicas [7])) st ∧ Deadlocked st := by
  let orders : HashOrders :=
    ⟨.arbitrary _ _, .arbitrary _ _, fun _ => .arbitrary _ _, .arbitrary _ _⟩
  have verified : Verified standInVerify (initPodNetworkClient (standInReplicas [7])).1
      (standInVote 7 [65] 5 0) := by decide +kernel
  have expected : (initPodNetworkClient (standInReplicas [7])).2.nextsn.lookup 7 = some 0 := by
    decide +kernel
  let opened : SharedLock → RwLock ClientTask := Function.update
    (Function.update (fun _ => ⟨[], []⟩) .tsps ⟨[(.reader 0, .read)], []⟩) .tsVoteMsg
    ⟨[(.reader 0, .read)], []⟩
  have reading : ∃ next, Reaches
      (Starts standInVerify (initPodNetworkClient (standInReplicas [7])).1 1 0)
      (initialSystem (standInReplicas [7])) ⟨opened, Function.update (fun _ => .finish .idle)
        (.reader 0) (.acquire .mrt .read next), (initPodNetworkClient (standInReplicas [7])).2⟩ :=
    reaches_read_at_mrt _ _ 1 0 orders rfl rfl rfl rfl
  obtain ⟨next, read⟩ := reading
  let reader : ClientTask → LockProgram :=
    Function.update (fun _ => .finish .idle) (.reader 0) (.acquire .mrt .read next)
  have idle : reader .updater = .finish .idle := rfl
  have free : ∀ l, l = .replicas ∨ l = .nextsn ∨ l = .mrt → opened l = ⟨[], []⟩ := by
    intro l other
    rcases other with rfl | rfl | rfl <;> rfl
  obtain ⟨next', s', update⟩ := reaches_update_at_tsVoteMsg standInVerify _ 1 0 idle (by simp) verified
    expected rfl free
  have asked := (read.trans update).trans
    (Reaches.ask (t := .updater) (l := .tsVoteMsg) (by simp [opened]) (Function.update_self ..))
  have stuck := asked.trans (Reaches.ask (t := .reader 0) (l := .mrt) (by simp) rfl)
  refine ⟨_, stuck, {.updater, .reader 0}, ⟨.updater, by simp⟩, ?_⟩
  intro t member
  rcases member with rfl | rfl
  · exact ⟨.reader 0, by simp, .tsVoteMsg, 0, .write, rfl, Or.inr ⟨.read, by simp [opened], rfl⟩⟩
  · exact ⟨.updater, by simp, .mrt, 0, .read, rfl, Or.inr ⟨.write, by simp, rfl⟩⟩

end Circle

end Podnet
