import Mathlib

namespace FairLocks

inductive Mode where
  | read
  | write
  deriving DecidableEq, Repr

/-- Whether two guards of one lock can be out together. -/
def Mode.compatible : Mode → Mode → Bool
  | read, read => true
  | _, _ => false

/-- What a task still has to do: take guards, drop them, and read or change the
data in between. `next` of an action sees the data before its effect. -/
inductive Program (Lock Data Outcome : Type) where
  | finish (outcome : Outcome)
  | acquire (l : Lock) (m : Mode) (next : Program Lock Data Outcome)
  | release (l : Lock) (m : Mode) (next : Program Lock Data Outcome)
  | act (effect : Data → Data) (next : Data → Program Lock Data Outcome)

namespace Program

variable {Lock Data Outcome : Type}

/-- An action that decides at once on its effect and on what follows. -/
def branch (choice : Data → Data × Program Lock Data Outcome) : Program Lock Data Outcome :=
  .act (fun data => (choice data).1) (fun data => (choice data).2)

/-- What a program does when nobody interferes. -/
def alone : Program Lock Data Outcome → Data → Data × Outcome
  | .finish outcome, data => (data, outcome)
  | .acquire _ _ next, data => next.alone data
  | .release _ _ next, data => next.alone data
  | .act effect next, data => (next data).alone (effect data)

@[simp] theorem alone_branch (choice : Data → Data × Program Lock Data Outcome) (data : Data) :
    (branch choice).alone data = (choice data).2.alone (choice data).1 := rfl

/-- Some continuation of the program takes another guard. -/
def MayAsk : Program Lock Data Outcome → Prop
  | .finish _ => False
  | .acquire _ _ _ => True
  | .release _ _ next => next.MayAsk
  | .act _ next => ∃ data, (next data).MayAsk

/-- Left alone, the program asks for a write guard of `l` before it drops a guard
of `outer`. -/
def WritesInside (outer l : Lock) : Program Lock Data Outcome → Data → Prop
  | .finish _, _ => False
  | .acquire l' m next, data => (l' = l ∧ m = .write) ∨ next.WritesInside outer l data
  | .release l' _ next, data => l' ≠ outer ∧ next.WritesInside outer l data
  | .act effect next, data => (next data).WritesInside outer l (effect data)

end Program

/-- A lock with the guards that are out and the requests in order of arrival. -/
structure RwLock (Task : Type) where
  holders : List (Task × Mode)
  queue : List (Task × Mode)

/-- Tasks that run their programs on common data under common locks. -/
structure System (Task Lock Data Outcome : Type) where
  locks : Lock → RwLock Task
  program : Task → Program Lock Data Outcome
  data : Data

variable {Task Lock Data Outcome : Type}

section Deadlock

variable (st : System Task Lock Data Outcome)

/-- `t` has a request that cannot be granted before `u` moves: `u` asked for the
same lock earlier, or holds a guard of it that excludes the request. -/
def WaitsFor (t u : Task) : Prop :=
  ∃ (l : Lock) (i : Nat) (m : Mode), (st.locks l).queue[i]? = some (t, m) ∧
    ((∃ j < i, ∃ m', (st.locks l).queue[j]? = some (u, m')) ∨
      ∃ m', (u, m') ∈ (st.locks l).holders ∧ m.compatible m' = false)

/-- A set of tasks that all wait for each other. -/
def Deadlocked : Prop :=
  ∃ stuck : Set Task, stuck.Nonempty ∧ ∀ t ∈ stuck, ∃ u ∈ stuck, WaitsFor st t u

/-- A task has at most one request, the one its program is at. -/
structure Queued : Prop where
  program : ∀ l t m, (t, m) ∈ (st.locks l).queue → ∃ next, st.program t = .acquire l m next
  distinct : ∀ l, ((st.locks l).queue.map Prod.fst).Nodup

end Deadlock

section OneWriter

variable {st : System Task Lock Data Outcome} {stuck : Set Task}

theorem Queued.same_lock (queued : Queued st) {t : Task} {l l' : Lock} {m m' : Mode}
    (asks : (t, m) ∈ (st.locks l).queue) (asks' : (t, m') ∈ (st.locks l').queue) : l' = l := by
  obtain ⟨next, atL⟩ := queued.program l t m asks
  obtain ⟨next', atL'⟩ := queued.program l' t m' asks'
  rw [atL] at atL'
  injection atL' with same
  exact same.symm

theorem Queued.same_index (queued : Queued st) {t : Task} {l : Lock} {i j : Nat} {m m' : Mode}
    (atI : (st.locks l).queue[i]? = some (t, m)) (atJ : (st.locks l).queue[j]? = some (t, m')) :
    i = j := by
  have first : ((st.locks l).queue.map Prod.fst)[i]? = some t := by simp [atI]
  have second : ((st.locks l).queue.map Prod.fst)[j]? = some t := by simp [atJ]
  obtain ⟨inside, _⟩ := List.getElem?_eq_some_iff.mp first
  exact (List.getElem?_inj inside (queued.distinct l)).mp (first.trans second.symm)

/-- In front of a queue nobody is stuck, as long as no guard of a stuck task
excludes a stuck request there. -/
theorem Queued.front_not_stuck (queued : Queued st)
    (closed : ∀ t ∈ stuck, ∃ u ∈ stuck, WaitsFor st t u) {l : Lock} {n : Nat}
    (unblocked : ∀ i < n, ∀ t ∈ stuck, ∀ m, (st.locks l).queue[i]? = some (t, m) →
      ∀ u ∈ stuck, ∀ m', (u, m') ∈ (st.locks l).holders → m.compatible m' = true)
    {i : Nat} (front : i < n) {t : Task} {m : Mode}
    (asks : (st.locks l).queue[i]? = some (t, m)) : t ∉ stuck := by
  induction i using Nat.strong_induction_on generalizing t m with
  | h i ih =>
    intro member
    obtain ⟨u, stuckU, l', j, m', asks', blocked⟩ := closed t member
    have same := queued.same_lock (List.mem_of_getElem? asks) (List.mem_of_getElem? asks')
    subst same
    have index := queued.same_index asks asks'
    subst index
    rcases blocked with ⟨j, earlier, mode, ahead⟩ | ⟨mode, out, excluded⟩
    · exact ih j earlier (earlier.trans front) ahead stuckU
    · have fits := unblocked i front t member m' asks' u stuckU mode out
      rw [fits] at excluded
      simp at excluded

/-- Tasks of which only `w` asks for write guards do not deadlock while `w` asks
for no lock it holds and every task it waits for runs. -/
theorem Queued.not_deadlocked (queued : Queued st) (w : Task)
    (reads : ∀ t ≠ w, ∀ l m, (t, m) ∈ (st.locks l).queue ∨ (t, m) ∈ (st.locks l).holders → m = .read)
    (apart : ∀ l m m', (w, m) ∈ (st.locks l).queue → (w, m') ∉ (st.locks l).holders)
    (clear : ∀ l, (w, .write) ∈ (st.locks l).queue → ∀ t ≠ w, ∀ m, (t, m) ∈ (st.locks l).holders →
      ∀ l' m', (t, m') ∉ (st.locks l').queue) : ¬ Deadlocked st := by
  intro ⟨stuck, ⟨t₀, member₀⟩, closed⟩
  -- a guard that excludes a read guard is a write guard, so it is one of `w`
  have writer : ∀ l u m', (u, m') ∈ (st.locks l).holders → Mode.read.compatible m' = false → u = w := by
    intro l u m' out excluded
    by_contra other
    rw [reads u other l m' (Or.inr out)] at excluded
    simp [Mode.compatible] at excluded
  by_cases central : w ∈ stuck
  · obtain ⟨u, stuckU, l, i, m, asks, blocked⟩ := closed w central
    have request := List.mem_of_getElem? asks
    rcases blocked with ⟨j, earlier, mode, ahead⟩ | ⟨mode, out, excluded⟩
    · refine queued.front_not_stuck closed (n := i) ?_ earlier ahead stuckU
      intro k front t member m' asksT v stuckV mode' outV
      have other : t ≠ w := by
        intro same
        subst same
        have index := queued.same_index asks asksT
        omega
      rw [reads t other l m' (Or.inl (List.mem_of_getElem? asksT))]
      by_contra excluded
      have holder := writer l v mode' outV (by simpa using excluded)
      exact apart l m mode' request (holder ▸ outV)
    · by_cases own : u = w
      · exact apart l m mode request (own ▸ out)
      · cases m with
        | read => exact own (writer l u mode out excluded)
        | write =>
          obtain ⟨v, _, l', k, m', asksU, _⟩ := closed u stuckU
          exact clear l request u own mode out l' m' (List.mem_of_getElem? asksU)
  · obtain ⟨u, stuckU, l, i, m, asks, _⟩ := closed t₀ member₀
    refine queued.front_not_stuck closed (n := i + 1) ?_ (Nat.lt_succ_self i) asks member₀
    intro k _ t member m' asksT v stuckV mode outV
    have other : t ≠ w := fun same => central (same ▸ member)
    rw [reads t other l m' (Or.inl (List.mem_of_getElem? asksT))]
    by_contra excluded
    have holder := writer l v mode outV (by simpa using excluded)
    exact central (holder ▸ stuckV)

end OneWriter

variable [DecidableEq Task] [DecidableEq Lock]

/-- One step of one task, labelled with the guard it hands out, if any. A request
joins the queue of its lock; only the request in front is granted, and only if it
is compatible with every guard that is out. An idle task starts again with any
program that `starts` allows after its last outcome. -/
inductive Step (starts : Task → Outcome → Program Lock Data Outcome → Prop) :
    System Task Lock Data Outcome → Option (Task × Lock) → System Task Lock Data Outcome → Prop
  | start {st t outcome program} : st.program t = .finish outcome → starts t outcome program →
      Step starts st none { st with program := Function.update st.program t program }
  | request {st t l m next} : st.program t = .acquire l m next →
      (∀ m', (t, m') ∉ (st.locks l).queue) →
      Step starts st none { st with
        locks := Function.update st.locks l
          ⟨(st.locks l).holders, (st.locks l).queue ++ [(t, m)]⟩ }
  | grant {st t l m next rest} : st.program t = .acquire l m next →
      (st.locks l).queue = (t, m) :: rest →
      (∀ guard ∈ (st.locks l).holders, m.compatible guard.2 = true) →
      Step starts st (some (t, l)) { st with
        locks := Function.update st.locks l ⟨(t, m) :: (st.locks l).holders, rest⟩
        program := Function.update st.program t next }
  | release {st t l m next} : st.program t = .release l m next →
      Step starts st none { st with
        locks := Function.update st.locks l
          ⟨(st.locks l).holders.erase (t, m), (st.locks l).queue⟩
        program := Function.update st.program t next }
  | act {st t effect next} : st.program t = .act effect next →
      Step starts st none { st with
        data := effect st.data
        program := Function.update st.program t (next st.data) }

/-- The number of guards of each lock that a task holds. -/
def System.guards (st : System Task Lock Data Outcome) (t : Task) (x : Lock × Mode) : Nat :=
  (st.locks x.1).holders.count (t, x.2)

/-- What a task may hold at any time, when it may ask for which guard, and what
it may do to the data. -/
structure Discipline (Lock Data : Type) where
  mayHold : (Lock × Mode → Nat) → Prop
  mayAsk : (Lock × Mode → Nat) → Lock → Mode → Prop
  mayAct : (Data → Data) → Prop

/-- A program that keeps to the discipline, drops only what it holds and holds
nothing in the end, on any data. -/
def Discipline.Follows (rule : Discipline Lock Data) :
    Program Lock Data Outcome → (Lock × Mode → Nat) → Prop
  | .finish _, held => rule.mayHold held ∧ ∀ x, held x = 0
  | .acquire l m next, held => rule.mayHold held ∧ rule.mayAsk held l m ∧
      rule.Follows next (Function.update held (l, m) (held (l, m) + 1))
  | .release l m next, held => rule.mayHold held ∧ 0 < held (l, m) ∧
      rule.Follows next (Function.update held (l, m) (held (l, m) - 1))
  | .act effect next, held => rule.mayHold held ∧ rule.mayAct effect ∧
      ∀ data, rule.Follows (next data) held

omit [DecidableEq Task] in
theorem Discipline.Follows.mayHold {rule : Discipline Lock Data} {program : Program Lock Data Outcome}
    {held : Lock × Mode → Nat} (follows : rule.Follows program held) : rule.mayHold held := by
  cases program <;> exact follows.1

omit [DecidableEq Task] in
/-- Dropping the guard taken last. -/
theorem Discipline.follows_release_taken {rule : Discipline Lock Data} {l : Lock} {m : Mode}
    {next : Program Lock Data Outcome} {held : Lock × Mode → Nat} :
    rule.Follows (.release l m next) (Function.update held (l, m) (held (l, m) + 1)) ↔
      rule.mayHold (Function.update held (l, m) (held (l, m) + 1)) ∧ rule.Follows next held := by
  simp [Discipline.Follows]

omit [DecidableEq Task] in
theorem Discipline.follows_branch {rule : Discipline Lock Data}
    {choice : Data → Data × Program Lock Data Outcome} {held : Lock × Mode → Nat} :
    rule.Follows (.branch choice) held ↔
      rule.mayHold held ∧ rule.mayAct (fun data => (choice data).1) ∧
        ∀ data, rule.Follows (choice data).2 held := Iff.rfl

omit [DecidableEq Task] in
theorem Discipline.follows_acquire {rule : Discipline Lock Data} {l : Lock} {m : Mode}
    {next : Program Lock Data Outcome} {held : Lock × Mode → Nat} :
    rule.Follows (.acquire l m next) held ↔
      rule.mayHold held ∧ rule.mayAsk held l m ∧
        rule.Follows next (Function.update held (l, m) (held (l, m) + 1)) := Iff.rfl

/-- The invariant of a system whose tasks keep to their disciplines. -/
structure Disciplined (rules : Task → Discipline Lock Data)
    (st : System Task Lock Data Outcome) : Prop extends Queued st where
  follows : ∀ t, (rules t).Follows (st.program t) (st.guards t)

section Guards

variable (st : System Task Lock Data Outcome) (t t' : Task) (l : Lock) (m : Mode)
  (queue : List (Task × Mode)) (program : Task → Program Lock Data Outcome) (data : Data)

omit [DecidableEq Lock] in
theorem guards_pos {st : System Task Lock Data Outcome} {t : Task} {l : Lock} {m : Mode} :
    0 < st.guards t (l, m) ↔ (t, m) ∈ (st.locks l).holders :=
  List.count_pos_iff

theorem guards_queue :
    System.guards ⟨Function.update st.locks l ⟨(st.locks l).holders, queue⟩, program, data⟩ t =
      st.guards t := by
  funext x
  by_cases same : x.1 = l
  · simp [System.guards, same]
  · simp [System.guards, Function.update_of_ne same]

theorem guards_grant_self :
    System.guards ⟨Function.update st.locks l ⟨(t, m) :: (st.locks l).holders, queue⟩, program, data⟩ t =
      Function.update (st.guards t) (l, m) (st.guards t (l, m) + 1) := by
  funext ⟨l', m'⟩
  by_cases same : l' = l
  · subst same
    by_cases mode : m' = m
    · subst mode
      simp [System.guards]
    · have other : ((l', m') : Lock × Mode) ≠ (l', m) := by simp [mode]
      have apart : ((t, m) : Task × Mode) ≠ (t, m') := by simp [Ne.symm mode]
      simp [System.guards, Function.update_of_ne other, List.count_cons_of_ne apart]
  · have other : ((l', m') : Lock × Mode) ≠ (l, m) := by simp [same]
    simp [System.guards, Function.update_of_ne other, Function.update_of_ne same]

theorem guards_release_self :
    System.guards ⟨Function.update st.locks l ⟨(st.locks l).holders.erase (t, m), queue⟩, program, data⟩
        t = Function.update (st.guards t) (l, m) (st.guards t (l, m) - 1) := by
  funext ⟨l', m'⟩
  by_cases same : l' = l
  · subst same
    by_cases mode : m' = m
    · subst mode
      simp [System.guards]
    · have other : ((l', m') : Lock × Mode) ≠ (l', m) := by simp [mode]
      have apart : ((t, m') : Task × Mode) ≠ (t, m) := by simp [mode]
      simp [System.guards, Function.update_of_ne other, List.count_erase_of_ne apart]
  · have other : ((l', m') : Lock × Mode) ≠ (l, m) := by simp [same]
    simp [System.guards, Function.update_of_ne other, Function.update_of_ne same]

theorem guards_grant_other {t t' : Task} (other : t' ≠ t) :
    System.guards ⟨Function.update st.locks l ⟨(t, m) :: (st.locks l).holders, queue⟩, program, data⟩
        t' = st.guards t' := by
  funext x
  by_cases same : x.1 = l
  · have apart : ((t, m) : Task × Mode) ≠ (t', x.2) := by simp [Ne.symm other]
    simp [System.guards, same, List.count_cons_of_ne apart]
  · simp [System.guards, Function.update_of_ne same]

theorem guards_release_other {t t' : Task} (other : t' ≠ t) :
    System.guards ⟨Function.update st.locks l ⟨(st.locks l).holders.erase (t, m), queue⟩, program, data⟩
        t' = st.guards t' := by
  funext x
  by_cases same : x.1 = l
  · have apart : ((t', x.2) : Task × Mode) ≠ (t, m) := by simp [other]
    simp [System.guards, same, List.count_erase_of_ne apart]
  · simp [System.guards, Function.update_of_ne same]

end Guards

section Discipline

variable {starts : Task → Outcome → Program Lock Data Outcome → Prop}
  {rules : Task → Discipline Lock Data} {st st' : System Task Lock Data Outcome}
  {granted : Option (Task × Lock)}

omit [DecidableEq Lock] in
/-- A task without a request may move on. -/
theorem Queued.move (queued : Queued st) {t : Task} (free : ∀ l m, (t, m) ∉ (st.locks l).queue)
    (program : Program Lock Data Outcome) {l : Lock} {t' : Task} {m : Mode}
    (asks : (t', m) ∈ (st.locks l).queue) :
    ∃ next, Function.update st.program t program t' = .acquire l m next := by
  have other : t' ≠ t := fun same => free l m (same ▸ asks)
  rw [Function.update_of_ne other]
  exact queued.program l t' m asks

omit [DecidableEq Task] [DecidableEq Lock] in
theorem Queued.free (queued : Queued st) {t : Task}
    (moves : ∀ l m next, st.program t ≠ .acquire l m next) (l : Lock) (m : Mode) :
    (t, m) ∉ (st.locks l).queue := by
  intro asks
  obtain ⟨next, atAcquire⟩ := queued.program l t m asks
  exact moves l m next atAcquire

omit [DecidableEq Task] in
/-- A task that asks stands at its request, behind the others. -/
theorem Queued.request (queued : Queued st) {t : Task} {l : Lock} {m : Mode}
    {next : Program Lock Data Outcome} (atAcquire : st.program t = .acquire l m next)
    (fresh : ∀ m', (t, m') ∉ (st.locks l).queue) :
    Queued ({ st with
      locks := Function.update st.locks l ⟨(st.locks l).holders, (st.locks l).queue ++ [(t, m)]⟩ } :
        System Task Lock Data Outcome) := by
  refine ⟨fun l' t' m' => ?_, fun l' => ?_⟩
  · by_cases same : l' = l
    · subst same
      simp only [Function.update_self, List.mem_append, List.mem_singleton, Prod.mk.injEq]
      rintro (asks | ⟨rfl, rfl⟩)
      · exact queued.program l' t' m' asks
      · exact ⟨next, atAcquire⟩
    · simp only [Function.update_of_ne same]
      exact queued.program l' t' m'
  · by_cases same : l' = l
    · subst same
      simp only [Function.update_self, List.map_append, List.map_cons, List.map_nil]
      refine List.Nodup.append (queued.distinct l') (by simp) ?_
      simp only [List.disjoint_singleton]
      intro member
      obtain ⟨⟨t', m'⟩, asks, rfl⟩ := List.mem_map.mp member
      exact fresh m' asks
    · simp only [Function.update_of_ne same]
      exact queued.distinct l'

/-- The task at the front leaves the queue and moves on. -/
theorem Queued.grant (queued : Queued st) {t : Task} {l : Lock} {m : Mode}
    {holders rest : List (Task × Mode)} (front : (st.locks l).queue = (t, m) :: rest)
    (program : Program Lock Data Outcome) :
    Queued ({ st with
      locks := Function.update st.locks l ⟨holders, rest⟩
      program := Function.update st.program t program } : System Task Lock Data Outcome) := by
  have distinct := queued.distinct l
  rw [front, List.map_cons, List.nodup_cons] at distinct
  refine ⟨fun l' t' m' asks => ?_, fun l' => ?_⟩
  · by_cases same : l' = l
    · subst same
      simp only [Function.update_self] at asks
      have other : t' ≠ t := by
        intro same
        subst same
        exact distinct.1 (List.mem_map.mpr ⟨_, asks, rfl⟩)
      simp only [Function.update_of_ne other]
      exact queued.program l' t' m' (front ▸ List.mem_cons_of_mem _ asks)
    · simp only [Function.update_of_ne same] at asks
      have other : t' ≠ t := by
        intro own
        subst own
        exact same (queued.same_lock (front ▸ List.mem_cons_self) asks)
      simp only [Function.update_of_ne other]
      exact queued.program l' t' m' asks
  · by_cases same : l' = l
    · subst same
      simpa only [Function.update_self] using distinct.2
    · simp only [Function.update_of_ne same]
      exact queued.distinct l'

theorem Step.queued (step : Step starts st granted st') (queued : Queued st) : Queued st' := by
  cases step with
  | @start t _ _ idle _ =>
    have free := queued.free (t := t) (by simp [idle])
    exact ⟨fun _ _ _ => queued.move free _, queued.distinct⟩
  | request atAcquire fresh => exact queued.request atAcquire fresh
  | grant atAcquire front fits => exact queued.grant front _
  | @release t l m next atRelease =>
    have free := queued.free (t := t) (by simp [atRelease])
    have queues : ∀ l', (Function.update st.locks l
        ⟨(st.locks l).holders.erase (t, m), (st.locks l).queue⟩ l').queue = (st.locks l').queue := by
      intro l'
      by_cases same : l' = l
      · subst same
        simp
      · rw [Function.update_of_ne same]
    refine ⟨fun l' t' m' asks => ?_, fun l' => ?_⟩
    · rw [queues] at asks
      exact queued.move free _ asks
    · rw [queues]
      exact queued.distinct l'
  | @act t _ _ atAct =>
    have free := queued.free (t := t) (by simp [atAct])
    exact ⟨fun _ _ _ => queued.move free _, queued.distinct⟩

/-- What one step does to the program and the guards of the task that moves, and
to the data. -/
inductive Moves (starts : Task → Outcome → Program Lock Data Outcome → Prop)
    (st st' : System Task Lock Data Outcome) (granted : Option (Task × Lock)) (t : Task) : Prop
  | request : st'.program t = st.program t → st'.guards t = st.guards t → st'.data = st.data →
      Moves starts st st' granted t
  | start {outcome} : st.program t = .finish outcome → starts t outcome (st'.program t) →
      st'.guards t = st.guards t → st'.data = st.data → Moves starts st st' granted t
  | grant {l m} : st.program t = .acquire l m (st'.program t) → granted = some (t, l) →
      st'.guards t = Function.update (st.guards t) (l, m) (st.guards t (l, m) + 1) →
      st'.data = st.data → Moves starts st st' granted t
  | release {l m} : st.program t = .release l m (st'.program t) →
      st'.guards t = Function.update (st.guards t) (l, m) (st.guards t (l, m) - 1) →
      st'.data = st.data → Moves starts st st' granted t
  | act {effect next} : st.program t = .act effect next → st'.program t = next st.data →
      st'.guards t = st.guards t → st'.data = effect st.data → Moves starts st st' granted t

/-- In one step one task moves, and every other one stays as it is. -/
theorem Step.mover (step : Step starts st granted st') :
    ∃ t, Moves starts st st' granted t ∧
      ∀ t' ≠ t, st'.program t' = st.program t' ∧ st'.guards t' = st.guards t' := by
  cases step with
  | @start t outcome program idle ready =>
    exact ⟨t, .start idle (by simpa using ready) rfl rfl,
      fun t' other => ⟨Function.update_of_ne other _ _, rfl⟩⟩
  | @request t l m next atAcquire fresh =>
    exact ⟨t, .request rfl (guards_queue ..) rfl, fun t' _ => ⟨rfl, guards_queue ..⟩⟩
  | @grant t l m next rest atAcquire front fits =>
    exact ⟨t, .grant (by simpa using atAcquire) rfl (guards_grant_self ..) rfl,
      fun t' other => ⟨Function.update_of_ne other _ _, guards_grant_other _ _ _ _ _ _ other⟩⟩
  | @release t l m next atRelease =>
    exact ⟨t, .release (by simpa using atRelease) (guards_release_self ..) rfl,
      fun t' other => ⟨Function.update_of_ne other _ _, guards_release_other _ _ _ _ _ _ other⟩⟩
  | @act t effect next atAct =>
    exact ⟨t, .act atAct (by simp) rfl rfl,
      fun t' other => ⟨Function.update_of_ne other _ _, rfl⟩⟩

theorem Moves.follows {t : Task} {rule : Discipline Lock Data} (moves : Moves starts st st' granted t)
    (follows : rule.Follows (st.program t) (st.guards t))
    (allowed : ∀ outcome program, starts t outcome program → rule.Follows program fun _ => 0) :
    rule.Follows (st'.program t) (st'.guards t) := by
  cases moves with
  | request program guards _ =>
    rw [program, guards]
    exact follows
  | start idle ready guards _ =>
    rw [idle] at follows
    have none : st.guards t = fun _ => 0 := funext follows.2
    rw [guards, none]
    exact allowed _ _ ready
  | grant atAcquire _ guards _ =>
    rw [atAcquire] at follows
    rw [guards]
    exact follows.2.2
  | release atRelease guards _ =>
    rw [atRelease] at follows
    rw [guards]
    exact follows.2.2
  | act atAct program guards _ =>
    rw [atAct] at follows
    rw [guards, program]
    exact follows.2.2 st.data

/-- Tasks that start with disciplined programs stay disciplined. -/
theorem Step.disciplined (step : Step starts st granted st') (inv : Disciplined rules st)
    (allowed : ∀ t outcome program, starts t outcome program →
      (rules t).Follows program fun _ => 0) : Disciplined rules st' := by
  refine ⟨step.queued inv.toQueued, fun t' => ?_⟩
  obtain ⟨t, moves, others⟩ := step.mover
  by_cases own : t' = t
  · subst own
    exact moves.follows (inv.follows t') (allowed t')
  · rw [(others t' own).1, (others t' own).2]
    exact inv.follows t'

end Discipline

section Schedules

variable (starts : Task → Outcome → Program Lock Data Outcome → Prop)

/-- A state that some schedule leads to. -/
abbrev Reaches : System Task Lock Data Outcome → System Task Lock Data Outcome → Prop :=
  Relation.ReflTransGen fun st st' => ∃ granted, Step starts st granted st'

/-- A state that a schedule leads to that hands out a guard only where it is
permitted. -/
abbrev ReachesBy (permits : System Task Lock Data Outcome → Task → Lock → Prop) :
    System Task Lock Data Outcome → System Task Lock Data Outcome → Prop :=
  Relation.ReflTransGen fun st st' => ∃ granted, Step starts st granted st' ∧
    ∀ t l, granted = some (t, l) → permits st t l

variable {starts} {permits : System Task Lock Data Outcome → Task → Lock → Prop}
  {locks : Lock → RwLock Task} {program : Task → Program Lock Data Outcome}
  {data : Data} {t : Task} {l : Lock} {m : Mode} {next : Program Lock Data Outcome}

theorem ReachesBy.start {outcome : Outcome} (idle : program t = .finish outcome)
    (ready : starts t outcome next) :
    ReachesBy starts permits ⟨locks, program, data⟩ ⟨locks, Function.update program t next, data⟩ :=
  .single ⟨none, .start idle ready, by simp⟩

theorem ReachesBy.ask (fresh : ∀ m', (t, m') ∉ (locks l).queue)
    (atAcquire : program t = .acquire l m next) :
    ReachesBy starts permits ⟨locks, program, data⟩
      ⟨Function.update locks l ⟨(locks l).holders, (locks l).queue ++ [(t, m)]⟩, program, data⟩ :=
  .single ⟨none, .request atAcquire fresh, by simp⟩

/-- A guard of a lock that nobody waits for is handed out at once. -/
theorem ReachesBy.take {holders : List (Task × Mode)} (free : locks l = ⟨holders, []⟩)
    (fits : ∀ guard ∈ holders, m.compatible guard.2 = true)
    (permit : permits ⟨Function.update locks l ⟨holders, [(t, m)]⟩,
      Function.update program t (.acquire l m next), data⟩ t l) :
    ReachesBy starts permits ⟨locks, Function.update program t (.acquire l m next), data⟩
      ⟨Function.update locks l ⟨(t, m) :: holders, []⟩, Function.update program t next, data⟩ := by
  have atAcquire : Function.update program t (.acquire l m next) t = .acquire l m next := by
    rw [Function.update_self]
  have asked : ReachesBy starts permits ⟨locks, Function.update program t (.acquire l m next), data⟩ _ :=
    .ask (l := l) (by simp [free]) atAcquire
  rw [free] at asked
  have front : (Function.update locks l ⟨holders, [(t, m)]⟩ l).queue = [(t, m)] := by
    rw [Function.update_self]
  have granted : Step starts ⟨Function.update locks l ⟨holders, [(t, m)]⟩,
      Function.update program t (.acquire l m next), data⟩ (some (t, l)) _ :=
    .grant atAcquire front (by simpa using fits)
  simp only [Function.update_self, Function.update_idem] at granted
  refine asked.tail ⟨_, granted, fun _ _ label => ?_⟩
  cases label
  exact permit

theorem ReachesBy.drop {holders queue : List (Task × Mode)} (out : locks l = ⟨holders, queue⟩) :
    ReachesBy starts permits ⟨locks, Function.update program t (.release l m next), data⟩
      ⟨Function.update locks l ⟨holders.erase (t, m), queue⟩, Function.update program t next, data⟩ := by
  have dropped : Step starts ⟨locks, Function.update program t (.release l m next), data⟩ none _ :=
    .release (Function.update_self ..)
  simp only [Function.update_idem, out] at dropped
  exact .single ⟨_, dropped, by simp⟩

theorem ReachesBy.branch {choice : Data → Data × Program Lock Data Outcome} :
    ReachesBy starts permits ⟨locks, Function.update program t (.branch choice), data⟩
      ⟨locks, Function.update program t (choice data).2, (choice data).1⟩ := by
  have acted : Step starts ⟨locks, Function.update program t (.branch choice), data⟩ none _ :=
    .act (Function.update_self ..)
  simp only [Function.update_idem] at acted
  exact .single ⟨_, acted, by simp⟩

/-- Nobody waits, and only one task holds guards. -/
structure Undisturbed (t : Task) (locks : Lock → RwLock Task) : Prop where
  free : ∀ l, (locks l).queue = []
  own : ∀ l, ∀ guard ∈ (locks l).holders, guard.1 = t

omit [DecidableEq Task] in
theorem Undisturbed.update {holders : List (Task × Mode)} (undisturbed : Undisturbed t locks) (l : Lock)
    (own : ∀ guard ∈ holders, guard.1 = t) : Undisturbed t (Function.update locks l ⟨holders, []⟩) := by
  refine ⟨fun l' => ?_, fun l' => ?_⟩
  · by_cases same : l' = l
    · subst same
      simp
    · rw [Function.update_of_ne same, undisturbed.free]
  · by_cases same : l' = l
    · subst same
      simpa using own
    · rw [Function.update_of_ne same]
      exact undisturbed.own l'

omit [DecidableEq Lock] in
theorem Undisturbed.unlocked (undisturbed : Undisturbed t locks)
    (none : ∀ x, System.guards ⟨locks, program, data⟩ t x = 0) : locks = fun _ => ⟨[], []⟩ := by
  funext l
  have empty : (locks l).holders = [] := by
    refine List.eq_nil_iff_forall_not_mem.mpr fun guard member => ?_
    obtain ⟨t', m⟩ := guard
    cases undisturbed.own l _ member
    have positive : 0 < System.guards ⟨locks, program, data⟩ t' (l, m) := guards_pos.mpr member
    rw [none] at positive
    exact lt_irrefl 0 positive
  show RwLock.mk (locks l).holders (locks l).queue = _
  rw [empty, undisturbed.free]

/-- With no other task about, a disciplined program that asks for no lock it excludes
itself from comes to its end, and does what it does alone. -/
theorem ReachesBy.alone {rule : Discipline Lock Data} {work : Program Lock Data Outcome}
    (fits : ∀ held l m m', rule.mayHold held → rule.mayAsk held l m → 0 < held (l, m') →
      m.compatible m' = true)
    (permit : ∀ st l, (∀ l, ∀ guard ∈ (System.locks st l).holders, guard.1 = t) → permits st t l)
    (follows : rule.Follows work (System.guards ⟨locks, program, data⟩ t))
    (undisturbed : Undisturbed t locks) :
    ReachesBy starts permits ⟨locks, Function.update program t work, data⟩
      ⟨fun _ => ⟨[], []⟩, Function.update program t (.finish (work.alone data).2), (work.alone data).1⟩ := by
  induction work generalizing locks data with
  | finish outcome =>
    rw [undisturbed.unlocked follows.2]
    exact .refl
  | acquire l m next ih =>
    obtain ⟨holds, asks, goesOn⟩ := follows
    have atLock : locks l = ⟨(locks l).holders, []⟩ := by rw [← undisturbed.free l]
    have agrees : ∀ guard ∈ (locks l).holders, m.compatible guard.2 = true := by
      intro guard member
      obtain ⟨t', m'⟩ := guard
      cases undisturbed.own l _ member
      exact fits _ l m m' holds asks (guards_pos.mpr member)
    have taken := guards_grant_self ⟨locks, program, data⟩ t l m [] program data
    have handed : ReachesBy starts permits
        ⟨locks, Function.update program t (.acquire l m next), data⟩
        ⟨Function.update locks l ⟨(t, m) :: (locks l).holders, []⟩,
          Function.update program t next, data⟩ := by
      refine .take atLock agrees (permit _ l fun l' guard member => ?_)
      by_cases same : l' = l
      · subst same
        simp only [Function.update_self] at member
        exact undisturbed.own l' guard member
      · simp only [Function.update_of_ne same] at member
        exact undisturbed.own l' guard member
    refine handed.trans (ih (taken ▸ goesOn) (undisturbed.update l ?_))
    intro guard member
    rcases List.mem_cons.mp member with rfl | before
    · rfl
    · exact undisturbed.own l guard before
  | release l m next ih =>
    obtain ⟨_, _, goesOn⟩ := follows
    have atLock : locks l = ⟨(locks l).holders, []⟩ := by rw [← undisturbed.free l]
    have dropped := guards_release_self ⟨locks, program, data⟩ t l m [] program data
    refine (ReachesBy.drop atLock).trans (ih (dropped ▸ goesOn) (undisturbed.update l ?_))
    exact fun guard member => undisturbed.own l guard (List.mem_of_mem_erase member)
  | act effect next ih =>
    obtain ⟨_, _, goesOn⟩ := follows
    have acted : ReachesBy starts permits ⟨locks, Function.update program t (.act effect next), data⟩
        ⟨locks, Function.update program t (next data), effect data⟩ :=
      @ReachesBy.branch _ _ _ _ _ _ starts permits locks program data t
        fun data => (effect data, next data)
    exact acted.trans (ih data (goesOn data) undisturbed)

section Free

/-- Where everything is permitted the schedule is free. -/
theorem Reaches.of_permitted {st st' : System Task Lock Data Outcome}
    (run : ReachesBy starts (fun _ _ _ => True) st st') : Reaches starts st st' :=
  Relation.ReflTransGen.mono (fun _ _ ⟨granted, step, _⟩ => ⟨granted, step⟩) _ _ run

theorem Reaches.start {outcome : Outcome} (idle : program t = .finish outcome)
    (ready : starts t outcome next) :
    Reaches starts ⟨locks, program, data⟩ ⟨locks, Function.update program t next, data⟩ :=
  .of_permitted (.start idle ready)

theorem Reaches.ask (fresh : ∀ m', (t, m') ∉ (locks l).queue)
    (atAcquire : program t = .acquire l m next) :
    Reaches starts ⟨locks, program, data⟩
      ⟨Function.update locks l ⟨(locks l).holders, (locks l).queue ++ [(t, m)]⟩, program, data⟩ :=
  .of_permitted (.ask fresh atAcquire)

theorem Reaches.take {holders : List (Task × Mode)} (free : locks l = ⟨holders, []⟩)
    (fits : ∀ guard ∈ holders, m.compatible guard.2 = true) :
    Reaches starts ⟨locks, Function.update program t (.acquire l m next), data⟩
      ⟨Function.update locks l ⟨(t, m) :: holders, []⟩, Function.update program t next, data⟩ :=
  .of_permitted (.take free fits trivial)

theorem Reaches.drop {holders queue : List (Task × Mode)} (out : locks l = ⟨holders, queue⟩) :
    Reaches starts ⟨locks, Function.update program t (.release l m next), data⟩
      ⟨Function.update locks l ⟨holders.erase (t, m), queue⟩, Function.update program t next, data⟩ :=
  .of_permitted (.drop out)

theorem Reaches.branch {choice : Data → Data × Program Lock Data Outcome} :
    Reaches starts ⟨locks, Function.update program t (.branch choice), data⟩
      ⟨locks, Function.update program t (choice data).2, (choice data).1⟩ :=
  .of_permitted .branch

theorem Reaches.alone {rule : Discipline Lock Data} {work : Program Lock Data Outcome}
    (fits : ∀ held l m m', rule.mayHold held → rule.mayAsk held l m → 0 < held (l, m') →
      m.compatible m' = true)
    (follows : rule.Follows work (System.guards ⟨locks, program, data⟩ t))
    (undisturbed : Undisturbed t locks) :
    Reaches starts ⟨locks, Function.update program t work, data⟩
      ⟨fun _ => ⟨[], []⟩, Function.update program t (.finish (work.alone data).2), (work.alone data).1⟩ :=
  .of_permitted (.alone fits (fun _ _ _ => trivial) follows undisturbed)

end Free

end Schedules

end FairLocks
