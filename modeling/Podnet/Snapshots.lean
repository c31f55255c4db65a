import Podnet.FairLocks

namespace FairLocks

variable {Task Lock Data Outcome : Type}

section Exclusion

/-- Nobody shares a lock with the holder of a write guard. -/
def Exclusive (st : System Task Lock Data Outcome) : Prop :=
  ∀ l t t' m, t ≠ t' → (t, .write) ∈ (st.locks l).holders → (t', m) ∉ (st.locks l).holders

variable {starts : Task → Outcome → Program Lock Data Outcome → Prop}
  {st st' : System Task Lock Data Outcome} {granted : Option (Task × Lock)}

theorem Exclusive.guards [DecidableEq Task] (exclusive : Exclusive st) {t t' : Task} (other : t ≠ t')
    {l : Lock} (writes : 0 < st.guards t (l, .write)) (m : Mode) : st.guards t' (l, m) = 0 := by
  have absent := exclusive l t t' m other (guards_pos.mp writes)
  rw [← guards_pos] at absent
  omega

/-- A lock keeps its guards, loses some, or takes in one that agrees with the others. -/
theorem Step.holders_cases [DecidableEq Task] [DecidableEq Lock] (step : Step starts st granted st')
    (l : Lock) :
    (st'.locks l).holders ⊆ (st.locks l).holders ∨
      ∃ t m, (st'.locks l).holders = (t, m) :: (st.locks l).holders ∧
        ∀ guard ∈ (st.locks l).holders, m.compatible guard.2 = true := by
  cases step with
  | start | act => exact Or.inl (List.Subset.refl _)
  | @request t l' m =>
    by_cases same : l = l'
    · subst same
      exact Or.inl (by simp)
    · exact Or.inl (by simp [Function.update_of_ne same])
  | @grant t l' m next rest _ _ fits =>
    by_cases same : l = l'
    · subst same
      exact Or.inr ⟨t, m, by simp, fits⟩
    · exact Or.inl (by simp [Function.update_of_ne same])
  | @release t l' m =>
    by_cases same : l = l'
    · subst same
      exact Or.inl (by simpa using List.erase_subset)
    · exact Or.inl (by simp [Function.update_of_ne same])

theorem Step.exclusive [DecidableEq Task] [DecidableEq Lock] (step : Step starts st granted st')
    (exclusive : Exclusive st) : Exclusive st' := by
  intro l t t' m other writes holds
  rcases step.holders_cases l with fewer | ⟨u, mode, more, fits⟩
  · exact exclusive l t t' m other (fewer writes) (fewer holds)
  · rw [more] at writes holds
    rcases List.mem_cons.mp writes with new | old
    · rcases List.mem_cons.mp holds with new' | old'
      · exact other ((congrArg Prod.fst new).trans (congrArg Prod.fst new').symm)
      · have compatible := fits _ old'
        rw [← (Prod.mk.inj new).2] at compatible
        simp [Mode.compatible] at compatible
    · rcases List.mem_cons.mp holds with new' | old'
      · have compatible := fits _ old
        cases mode <;> simp [Mode.compatible] at compatible
      · exact exclusive l t t' m other old old'

end Exclusion

/-- Data that one task changes and others look at: the part of it that each lock
protects, and the locks whose parts are looked at. The writer changes such a part only
inside its guard of `outer`, once it has had `gate`. -/
structure Board (Lock Data : Type) where
  Part : Lock → Type
  part : ∀ l, Data → Part l
  shown : Set Lock
  outer : Lock
  gate : Lock

/-- Where the writer is: outside its guard of `outer`, inside it and not yet past
`gate`, or free to change what is shown. -/
inductive Stage where
  | outside
  | inside
  | changing
  deriving DecidableEq, Repr

namespace Board

section Views

variable (board : Board Lock Data)

/-- Nobody who looks at the data can tell the two apart. -/
def Same (data data' : Data) : Prop := ∀ l ∈ board.shown, board.part l data = board.part l data'

/-- A change of the writer: only of parts it has locked for writing, and of nothing
that is shown before it may. -/
def Permits (stage : Stage) (held : Lock × Mode → Nat) (data data' : Data) : Prop :=
  ∀ l, board.part l data' ≠ board.part l data →
    0 < held (l, .write) ∧ (l ∈ board.shown → stage = .changing)

/-- A read that is done with the data: it drops its guards and ends. -/
def Closing : Program Lock Data Outcome → Prop
  | .finish _ => True
  | .acquire _ _ _ => False
  | .release _ _ next => Closing next
  | .act _ _ => False

variable {board} {a b c : Data} {stage : Stage} {held : Lock × Mode → Nat}

theorem Same.refl (a : Data) : board.Same a a := fun _ _ => rfl

theorem Same.symm (same : board.Same a b) : board.Same b a := fun l looked => (same l looked).symm

theorem Same.trans (first : board.Same a b) (second : board.Same b c) : board.Same a c :=
  fun l looked => (first l looked).trans (second l looked)

theorem Permits.refl (stage : Stage) (held : Lock × Mode → Nat) (a : Data) :
    board.Permits stage held a a := fun _ changed => absurd rfl changed

/-- What is shown stays the same outside the changes. -/
theorem Permits.same (permits : board.Permits stage held a b) (still : stage ≠ .changing) :
    board.Same a b := by
  intro l looked
  by_contra changed
  exact still ((permits l (Ne.symm changed)).2 looked)

/-- A read that is closing ends in the same way on any data. -/
theorem Closing.alone_snd {program : Program Lock Data Outcome} (closing : Closing program) (a b : Data) :
    (program.alone a).2 = (program.alone b).2 := by
  induction program with
  | finish outcome => rfl
  | acquire l m next ih => exact closing.elim
  | release l m next ih => exact ih closing
  | act effect next ih => exact closing.elim

end Views

section Programs

variable [DecidableEq Lock] (board : Board Lock Data)

def take (stage : Stage) (l : Lock) (m : Mode) : Stage :=
  match stage with
  | .outside => if l = board.outer ∧ m = .write then .inside else .outside
  | .inside => if l = board.gate ∧ m = .write then .changing else .inside
  | .changing => .changing

def drop (stage : Stage) (l : Lock) : Stage := if l = board.outer then .outside else stage

/-- A writer that, left alone, makes permitted changes only, shows published data
whenever it drops `outer`, and comes to rest as agreed. -/
def Publishes (published : Data → Prop) (rests : Outcome → Data → Prop) :
    Program Lock Data Outcome → Stage → (Lock × Mode → Nat) → Data → Prop
  | .finish outcome, stage, held, data => stage = .outside ∧ (∀ x, held x = 0) ∧ rests outcome data
  | .acquire l m next, stage, held, data =>
      Publishes published rests next (board.take stage l m)
        (Function.update held (l, m) (held (l, m) + 1)) data
  | .release l m next, stage, held, data =>
      (l = board.outer → published data) ∧
        Publishes published rests next (board.drop stage l)
          (Function.update held (l, m) (held (l, m) - 1)) data
  | .act effect next, stage, held, data =>
      board.Permits stage held data (effect data) ∧
        Publishes published rests (next data) stage held (effect data)

/-- A read that has come through `outer` with `gate` in hand: until it drops `gate`
it looks at the shown parts and changes nothing. -/
def Looks : Program Lock Data Outcome → Prop
  | .finish _ => False
  | .acquire _ _ next => Looks next
  | .release l _ next => if l = board.gate then Closing next else Looks next
  | .act effect next =>
      (∀ data, effect data = data) ∧ (∀ data data', board.Same data data' → next data = next data') ∧
        ∀ data, Looks (next data)

/-- A read on its way to its first guard of `outer`. It holds the locks in `pinned` and
looks at their parts only. -/
def Collects : Program Lock Data Outcome → Set Lock → Prop
  | .finish _, _ => False
  | .acquire l m next, pinned =>
      m = .read ∧ if l = board.outer then board.gate ∈ pinned ∧ pinned ⊆ board.shown ∧ board.Looks next
        else Collects next (insert l pinned)
  | .release _ _ _, _ => False
  | .act effect next, pinned =>
      (∀ data, effect data = data) ∧
        (∀ data data', (∀ l ∈ pinned, board.part l data = board.part l data') → next data = next data') ∧
          ∀ data, Collects (next data) pinned

variable {board} {published : Data → Prop} {rests : Outcome → Data → Prop}
  {data : Data}

theorem take_ne_outside {stage : Stage} {l : Lock} {m : Mode} (away : board.take stage l m ≠ .outside) :
    stage ≠ .outside ∨ (l = board.outer ∧ m = .write) := by
  cases stage with
  | outside => exact Or.inr (by simpa [take] using away)
  | inside | changing => exact Or.inl (by simp)

theorem take_eq_changing {stage : Stage} {l : Lock} {m : Mode} (turned : board.take stage l m = .changing) :
    stage = .changing ∨ (l = board.gate ∧ m = .write) := by
  cases stage with
  | outside =>
    simp only [take] at turned
    split at turned <;> cases turned
  | inside => exact Or.inr (by simpa [take] using turned)
  | changing => exact Or.inl rfl

theorem drop_outer {stage : Stage} {l : Lock} (outer : l = board.outer) : board.drop stage l = .outside :=
  if_pos outer

theorem drop_other {stage : Stage} {l : Lock} (other : l ≠ board.outer) : board.drop stage l = stage :=
  if_neg other

theorem publishes_acquire {l : Lock} {m : Mode} {next : Program Lock Data Outcome} {stage stage' : Stage}
    {held : Lock × Mode → Nat} (turned : board.take stage l m = stage') :
    board.Publishes published rests (.acquire l m next) stage held data ↔
      board.Publishes published rests next stage' (Function.update held (l, m) (held (l, m) + 1)) data := by
  rw [Publishes, turned]

theorem publishes_release_taken {l : Lock} {m : Mode} {next : Program Lock Data Outcome}
    {stage stage' : Stage} {held : Lock × Mode → Nat} (turned : board.drop stage l = stage') :
    board.Publishes published rests (.release l m next) stage
        (Function.update held (l, m) (held (l, m) + 1)) data ↔
      (l = board.outer → published data) ∧ board.Publishes published rests next stage' held data := by
  simp [Publishes, turned]

theorem publishes_branch {choice : Data → Data × Program Lock Data Outcome} {stage : Stage}
    {held : Lock × Mode → Nat} :
    board.Publishes published rests (.branch choice) stage held data ↔
      board.Permits stage held data (choice data).1 ∧
        board.Publishes published rests (choice data).2 stage held (choice data).1 := Iff.rfl

theorem looks_inspect {next : Data → Program Lock Data Outcome}
    (alike : ∀ data data', board.Same data data' → next data = next data')
    (goesOn : ∀ data, board.Looks (next data)) : board.Looks (.branch fun data => (data, next data)) :=
  ⟨fun _ => rfl, alike, goesOn⟩

theorem looks_release {l : Lock} {m : Mode} {next : Program Lock Data Outcome} (other : l ≠ board.gate)
    (goesOn : board.Looks next) : board.Looks (.release l m next) := by
  rw [Looks, if_neg other]
  exact goesOn

theorem collects_acquire {l : Lock} {next : Program Lock Data Outcome} {pinned : Set Lock}
    (other : l ≠ board.outer) (goesOn : board.Collects next (insert l pinned)) :
    board.Collects (.acquire l .read next) pinned := by
  rw [Collects, if_neg other]
  exact ⟨rfl, goesOn⟩

theorem collects_outer {next : Program Lock Data Outcome} {pinned : Set Lock}
    (gate : board.gate ∈ pinned) (looked : pinned ⊆ board.shown) (goesOn : board.Looks next) :
    board.Collects (.acquire board.outer .read next) pinned := by
  rw [Collects, if_pos rfl]
  exact ⟨rfl, gate, looked, goesOn⟩

end Programs

section Runs

variable [DecidableEq Task] [DecidableEq Lock] (board : Board Lock Data) (writer : Task)
  (published : Data → Prop) (rests : Outcome → Data → Prop) (answers : Set (Data → Outcome))
  (starts : Task → Outcome → Program Lock Data Outcome → Prop)

/-- Every task begins with a program that keeps the agreement, as the writer or as a read
that gives one of the known answers. -/
structure Agreed : Prop where
  writes : ∀ outcome program data, starts writer outcome program → rests outcome data →
    board.Publishes published rests program .outside (fun _ => 0) data
  reads : ∀ t ≠ writer, ∀ outcome program, starts t outcome program →
    board.Collects program ∅ ∧ ∃ answer ∈ answers, ∀ data, (program.alone data).2 = answer data
  respects : ∀ data data', board.Same data data' → published data → published data'

/-- A schedule in which `t`, once it has ended, does not begin again. -/
abbrev ReachesWithin (t : Task) :
    System Task Lock Data Outcome → System Task Lock Data Outcome → Prop :=
  Relation.ReflTransGen fun st st' => (∃ granted, Step starts st granted st') ∧
    ∀ outcome, st.program t = .finish outcome → st'.program t = .finish outcome

/-- A moment of a run at which the writer was outside its guard of `outer` and the read
that `t` is at, or has just ended, had `gate`. -/
structure Snapshot (first st : System Task Lock Data Outcome) (t : Task)
    (moment : System Task Lock Data Outcome) : Prop where
  reached : Reaches starts first moment
  later : ReachesWithin starts t moment st
  quiet : moment.guards writer (board.outer, .write) = 0
  reading : 0 < moment.guards t (board.gate, .read)
  published : published moment.data

/-- How far a read has come. -/
inductive Reading (first st : System Task Lock Data Outcome) (stage : Stage) (t : Task) : Prop
  | unused {outcome} : st.program t = .finish outcome → first.program t = .finish outcome →
      Reading first st stage t
  | collecting {answer pinned} : answer ∈ answers → board.Collects (st.program t) pinned →
      (∀ l ∈ pinned, 0 < st.guards t (l, .read)) →
      (∀ data, (∀ l ∈ pinned, board.part l st.data = board.part l data) →
        ((st.program t).alone data).2 = answer data) → Reading first st stage t
  | looking {answer moment} : answer ∈ answers → board.Looks (st.program t) →
      0 < st.guards t (board.gate, .read) → stage ≠ .changing →
      board.Snapshot writer published starts first st t moment → board.Same moment.data st.data →
      (∀ data, board.Same st.data data → ((st.program t).alone data).2 = answer data) →
      Reading first st stage t
  | closing {answer moment} : answer ∈ answers → Closing (st.program t) →
      board.Snapshot writer published starts first st t moment →
      ((st.program t).alone st.data).2 = answer moment.data → Reading first st stage t

/-- The invariant of a run from `first`. -/
structure Orderly (first st : System Task Lock Data Outcome) (stage : Stage) : Prop where
  exclusive : Exclusive st
  publishes : board.Publishes published rests (st.program writer) stage (st.guards writer) st.data
  inside : stage ≠ .outside → 0 < st.guards writer (board.outer, .write)
  shown : stage ≠ .changing → published st.data
  reading : ∀ t ≠ writer, board.Reading writer published answers starts first st stage t

variable {board} {writer} {published} {rests} {answers} {starts}
  {first st st' moment : System Task Lock Data Outcome} {granted : Option (Task × Lock)} {t : Task}
  {stage stage' : Stage}

theorem Snapshot.step (snapshot : board.Snapshot writer published starts first st t moment)
    (step : Step starts st granted st')
    (stays : ∀ outcome, st.program t = .finish outcome → st'.program t = .finish outcome) :
    board.Snapshot writer published starts first st' t moment :=
  { snapshot with later := snapshot.later.tail ⟨⟨granted, step⟩, stays⟩ }

omit [DecidableEq Task] in
theorem held_take {held : Lock × Mode → Nat} {x : Lock × Mode} (y : Lock × Mode) (positive : 0 < held x) :
    0 < Function.update held y (held y + 1) x := by
  by_cases same : x = y
  · subst same
    simp
  · rwa [Function.update_of_ne same]

/-- A step of the writer: what it may change, and when it comes to change what is shown. -/
theorem Orderly.writer_moves
    (orderly : board.Orderly writer published rests answers starts first st stage)
    (agreed : board.Agreed writer published rests answers starts)
    (moves : Moves starts st st' granted writer) :
    ∃ stage', board.Publishes published rests (st'.program writer) stage' (st'.guards writer) st'.data ∧
      (stage' ≠ .outside → 0 < st'.guards writer (board.outer, .write)) ∧
      (stage' ≠ .changing → published st'.data) ∧
      (stage' = .changing → stage = .changing ∨ 0 < st'.guards writer (board.gate, .write)) ∧
      board.Permits stage (st.guards writer) st.data st'.data := by
  obtain ⟨_, publishes, inside, shown, _⟩ := orderly
  cases moves with
  | request program guards data =>
    rw [program, guards, data]
    exact ⟨stage, publishes, inside, shown, Or.inl, .refl _ _ _⟩
  | start idle ready guards data =>
    rw [idle] at publishes
    obtain ⟨rfl, none, rest⟩ := publishes
    rw [guards, data, funext none]
    exact ⟨.outside, agreed.writes _ _ _ ready rest, fun away => absurd rfl away, shown, by simp,
      .refl _ _ _⟩
  | @grant l m atAcquire _ guards data =>
    rw [atAcquire] at publishes
    rw [guards, data]
    refine ⟨board.take stage l m, publishes, fun away => ?_, fun still => ?_, fun turned => ?_,
      .refl _ _ _⟩
    · rcases take_ne_outside away with before | ⟨rfl, rfl⟩
      · exact held_take _ (inside before)
      · simp
    · refine shown fun changing => still ?_
      rw [changing, take]
    · rcases take_eq_changing turned with before | ⟨rfl, rfl⟩
      · exact Or.inl before
      · exact Or.inr (by simp)
  | @release l m atRelease guards data =>
    rw [atRelease] at publishes
    rw [guards, data]
    refine ⟨board.drop stage l, publishes.2, ?_⟩
    by_cases outer : l = board.outer
    · rw [drop_outer outer]
      exact ⟨fun away => absurd rfl away, fun _ => publishes.1 outer, by simp, .refl _ _ _⟩
    · rw [drop_other outer]
      refine ⟨fun away => ?_, shown, Or.inl, .refl _ _ _⟩
      rw [Function.update_of_ne (by simp [Ne.symm outer])]
      exact inside away
  | act atAct program guards data =>
    rw [atAct] at publishes
    rw [program, guards, data]
    refine ⟨stage, publishes.2, inside, fun still => ?_, Or.inl, publishes.1⟩
    exact agreed.respects _ _ (publishes.1.same still) (shown still)

/-- A read keeps its footing while another task moves. -/
theorem Reading.others_move (reading : board.Reading writer published answers starts first st stage t)
    (other : t ≠ writer) (step : Step starts st granted st') (exclusive : Exclusive st)
    (program : st'.program t = st.program t) (guards : st'.guards t = st.guards t)
    (turns : stage' = .changing → stage = .changing ∨ 0 < st'.guards writer (board.gate, .write))
    (permits : board.Permits stage (st.guards writer) st.data st'.data) :
    board.Reading writer published answers starts first st' stage' t := by
  have stays : ∀ outcome, st.program t = .finish outcome → st'.program t = .finish outcome :=
    fun outcome ended => program.trans ended
  cases reading with
  | unused idle atFirst => exact .unused (program.trans idle) atFirst
  | collecting known collects pinned gives =>
    rw [← program] at collects gives
    rw [← guards] at pinned
    refine .collecting known collects pinned fun data same => gives data fun l member => ?_
    rw [← same l member]
    by_contra changed
    have none := exclusive.guards (Ne.symm other) (permits l (Ne.symm changed)).1 .read
    have held := pinned l member
    rw [guards] at held
    omega
  | looking known looks gate still snapshot same gives =>
    rw [← program] at looks gives
    have kept := permits.same still
    refine .looking known looks (guards ▸ gate) (fun changing => ?_) (snapshot.step step stays)
      (same.trans kept) fun data looked => gives data (kept.trans looked)
    -- the writer begins to change with a guard of `gate`, and this read holds one
    rcases turns changing with before | writes
    · exact still before
    · have none := (step.exclusive exclusive).guards (Ne.symm other) writes .read
      rw [guards] at none
      omega
  | closing known closing snapshot gives =>
    rw [← program] at closing gives
    exact .closing known closing (snapshot.step step stays) ((closing.alone_snd _ _).trans gives)

/-- A new read has looked at nothing. -/
theorem Agreed.begins (agreed : board.Agreed writer published rests answers starts) (other : t ≠ writer)
    {outcome : Outcome} (ready : starts t outcome (st'.program t)) :
    board.Reading writer published answers starts first st' stage t := by
  obtain ⟨collects, answer, known, gives⟩ := agreed.reads t other _ _ ready
  exact .collecting known collects (by simp) fun data _ => gives data

/-- A read that gets to `outer` finds the writer outside: this is the moment that it
reports. -/
theorem Orderly.comes_through
    (orderly : board.Orderly writer published rests answers starts first st stage)
    (reached : Reaches starts first st) (step : Step starts st granted st') (other : t ≠ writer)
    (still : st'.guards writer = st.guards writer) (data : st'.data = st.data)
    (outer : 0 < st'.guards t (board.outer, .read)) (gate : 0 < st'.guards t (board.gate, .read)) :
    stage ≠ .changing ∧ board.Snapshot writer published starts first st' t st' := by
  have quiet : st'.guards writer (board.outer, .write) = 0 := by
    by_contra writes
    have none := (step.exclusive orderly.exclusive).guards (Ne.symm other)
      (Nat.pos_of_ne_zero writes) .read
    omega
  have settled : stage ≠ .changing := by
    intro changing
    have positive := orderly.inside (by simp [changing])
    rw [← still, quiet] at positive
    exact lt_irrefl 0 positive
  exact ⟨settled, reached.tail ⟨_, step⟩, .refl, quiet, gate, data ▸ orderly.shown settled⟩

theorem Orderly.collecting_moves {answer : Data → Outcome} {pinned : Set Lock}
    (orderly : board.Orderly writer published rests answers starts first st stage)
    (reached : Reaches starts first st) (step : Step starts st granted st') (other : t ≠ writer)
    (moves : Moves starts st st' granted t) (still : st'.guards writer = st.guards writer)
    (known : answer ∈ answers) (collects : board.Collects (st.program t) pinned)
    (held : ∀ l ∈ pinned, 0 < st.guards t (l, .read))
    (gives : ∀ data, (∀ l ∈ pinned, board.part l st.data = board.part l data) →
      ((st.program t).alone data).2 = answer data) :
    st'.data = st.data ∧ board.Reading writer published answers starts first st' stage t := by
  cases moves with
  | request program guards data =>
    rw [← program] at collects gives
    rw [← data] at gives
    exact ⟨data, .collecting known collects (guards ▸ held) gives⟩
  | start idle =>
    rw [idle] at collects
    exact collects.elim
  | @grant l m atAcquire label guards data =>
    rw [atAcquire] at collects gives
    rw [← data] at gives
    obtain ⟨rfl, collects⟩ := collects
    have kept : ∀ l' ∈ pinned, 0 < st'.guards t (l', .read) := by
      intro l' member
      rw [guards]
      exact held_take _ (held l' member)
    have taken : 0 < st'.guards t (l, .read) := by
      rw [guards]
      simp
    refine ⟨data, ?_⟩
    split at collects
    · rename_i outer
      subst outer
      obtain ⟨gate, looked, looks⟩ := collects
      obtain ⟨settled, snapshot⟩ :=
        orderly.comes_through reached step other still data taken (kept _ gate)
      exact .looking known looks (kept _ gate) settled snapshot (.refl _) fun data same =>
        gives data fun l member => same l (looked member)
    · refine .collecting known collects (fun l' member => ?_) fun data same =>
        gives data fun l' member => same l' (Set.mem_insert_of_mem _ member)
      rcases member with rfl | before
      · exact taken
      · exact kept l' before
  | release atRelease =>
    rw [atRelease] at collects
    exact collects.elim
  | act atAct program guards data =>
    rw [atAct] at collects gives
    obtain ⟨keeps, alike, collects⟩ := collects
    rw [keeps] at data
    refine ⟨data, .collecting known (program ▸ collects st.data) (guards ▸ held) fun data' same => ?_⟩
    -- data that agrees on the pinned parts would have led to the same continuation
    rw [data] at same
    have run := gives data' same
    rwa [Program.alone, keeps, ← alike _ _ same, ← program] at run

theorem Snapshot.looking_moves {answer : Data → Outcome}
    (snapshot : board.Snapshot writer published starts first st t moment)
    (step : Step starts st granted st') (moves : Moves starts st st' granted t)
    (known : answer ∈ answers) (looks : board.Looks (st.program t))
    (gate : 0 < st.guards t (board.gate, .read)) (settled : stage ≠ .changing)
    (same : board.Same moment.data st.data)
    (gives : ∀ data, board.Same st.data data → ((st.program t).alone data).2 = answer data) :
    st'.data = st.data ∧ board.Reading writer published answers starts first st' stage t := by
  have onward := snapshot.step step fun outcome ended => by
    rw [ended] at looks
    exact looks.elim
  cases moves with
  | request program guards data =>
    rw [← program] at looks gives
    rw [← data] at same gives
    exact ⟨data, .looking known looks (guards ▸ gate) settled onward same gives⟩
  | start idle =>
    rw [idle] at looks
    exact looks.elim
  | grant atAcquire _ guards data =>
    rw [atAcquire] at looks gives
    rw [← data] at same gives
    refine ⟨data, .looking known looks ?_ settled onward same gives⟩
    rw [guards]
    exact held_take _ gate
  | @release l m atRelease guards data =>
    rw [atRelease] at looks gives
    rw [← data] at same gives
    refine ⟨data, ?_⟩
    rw [Looks] at looks
    split at looks
    · have ends := gives _ same.symm
      exact .closing known looks onward ((looks.alone_snd _ moment.data).trans ends)
    · rename_i apart
      refine .looking known looks ?_ settled onward same gives
      rw [guards, Function.update_of_ne (by simp [Ne.symm apart])]
      exact gate
  | act atAct program guards data =>
    rw [atAct] at looks gives
    obtain ⟨keeps, alike, looks⟩ := looks
    rw [keeps] at data
    rw [← data] at same
    refine ⟨data, .looking known (program ▸ looks st.data) (guards ▸ gate) settled onward same
      fun data' looked => ?_⟩
    rw [data] at looked
    have run := gives data' looked
    rwa [Program.alone, keeps, ← alike _ _ looked, ← program] at run

/-- A read that moves changes no data, and gets to `outer` only while the writer is
outside it. -/
theorem Reading.moves (reading : board.Reading writer published answers starts first st stage t)
    (orderly : board.Orderly writer published rests answers starts first st stage)
    (agreed : board.Agreed writer published rests answers starts) (other : t ≠ writer)
    (step : Step starts st granted st') (reached : Reaches starts first st)
    (moves : Moves starts st st' granted t) (still : st'.guards writer = st.guards writer) :
    st'.data = st.data ∧ board.Reading writer published answers starts first st' stage t := by
  cases reading with
  | unused idle atFirst =>
    cases moves with
    | request program _ data => exact ⟨data, .unused (program.trans idle) atFirst⟩
    | start _ ready _ data => exact ⟨data, agreed.begins other ready⟩
    | grant at' | release at' | act at' => simp [idle] at at'
  | collecting known collects held gives =>
    exact orderly.collecting_moves reached step other moves still known collects held gives
  | looking known looks gate settled snapshot same gives =>
    exact snapshot.looking_moves step moves known looks gate settled same gives
  | closing known closing snapshot gives =>
    cases moves with
    | request program _ data =>
      have onward := snapshot.step step fun outcome ended => program.trans ended
      rw [← program, ← data] at gives
      exact ⟨data, .closing known (program ▸ closing) onward gives⟩
    | start _ ready _ data => exact ⟨data, agreed.begins other ready⟩
    | grant atAcquire =>
      rw [atAcquire] at closing
      exact closing.elim
    | release atRelease _ data =>
      have onward := snapshot.step step fun outcome ended => by simp [atRelease] at ended
      rw [atRelease] at closing gives
      rw [← data] at gives
      exact ⟨data, .closing known closing onward gives⟩
    | act atAct =>
      rw [atAct] at closing
      exact closing.elim

theorem Orderly.step (orderly : board.Orderly writer published rests answers starts first st stage)
    (agreed : board.Agreed writer published rests answers starts) (reached : Reaches starts first st)
    (step : Step starts st granted st') :
    ∃ stage', board.Orderly writer published rests answers starts first st' stage' := by
  have exclusive := step.exclusive orderly.exclusive
  obtain ⟨t, moves, others⟩ := step.mover
  by_cases own : t = writer
  · subst own
    obtain ⟨stage', publishes, inside, shown, turns, permits⟩ := orderly.writer_moves agreed moves
    refine ⟨stage', exclusive, publishes, inside, shown, fun t' other => ?_⟩
    exact (orderly.reading t' other).others_move other step orderly.exclusive (others t' other).1
      (others t' other).2 turns permits
  · have still := others writer (Ne.symm own)
    obtain ⟨data, reading⟩ := (orderly.reading t own).moves orderly agreed own step reached moves still.2
    refine ⟨stage, exclusive, ?_, ?_, ?_, fun t' other => ?_⟩
    · rw [still.1, still.2, data]
      exact orderly.publishes
    · rw [still.2]
      exact orderly.inside
    · rw [data]
      exact orderly.shown
    · by_cases mover : t' = t
      · exact mover ▸ reading
      · have aside := others t' mover
        exact (orderly.reading t' other).others_move other step orderly.exclusive aside.1 aside.2
          Or.inl (data ▸ .refl _ _ _)

theorem Orderly.run (agreed : board.Agreed writer published rests answers starts)
    (orderly : board.Orderly writer published rests answers starts first first stage)
    (reached : Reaches starts first st) :
    ∃ stage, board.Orderly writer published rests answers starts first st stage := by
  induction reached with
  | refl => exact ⟨stage, orderly⟩
  | tail before step ih =>
    obtain ⟨_, orderly⟩ := ih
    obtain ⟨_, step⟩ := step
    exact orderly.step agreed before step

/-- Tasks at rest with no guards out, before a run. -/
structure AtRest (first : System Task Lock Data Outcome) : Prop where
  free : ∀ l, (first.locks l).holders = []
  idle : ∀ t, ∃ outcome, first.program t = .finish outcome

theorem AtRest.orderly {outcome : Outcome} (atRest : AtRest first)
    (ends : first.program writer = .finish outcome) (rest : rests outcome first.data)
    (shown : published first.data) :
    board.Orderly writer published rests answers starts first first .outside := by
  have none : ∀ t x, first.guards t x = 0 := by
    intro t x
    simp [System.guards, atRest.free]
  refine ⟨fun l t t' m _ writes => ?_, ?_, fun away => absurd rfl away, fun _ => shown, fun t _ => ?_⟩
  · simp [atRest.free] at writes
  · rw [ends]
    exact ⟨rfl, none writer, rest⟩
  · obtain ⟨outcome, idle⟩ := atRest.idle t
    exact .unused idle idle

/-- Whatever a read ends with, it is its answer on the data of one moment of the run at
which the writer was outside its guard. -/
theorem Orderly.answered (orderly : board.Orderly writer published rests answers starts first st stage)
    {outcome : Outcome} (other : t ≠ writer) (ended : st.program t = .finish outcome) :
    first.program t = .finish outcome ∨ ∃ answer ∈ answers, ∃ moment,
      board.Snapshot writer published starts first st t moment ∧ outcome = answer moment.data := by
  cases orderly.reading t other with
  | unused idle atFirst =>
    rw [ended] at idle
    exact Or.inl (idle ▸ atFirst)
  | collecting _ collects =>
    rw [ended] at collects
    exact collects.elim
  | looking _ looks =>
    rw [ended] at looks
    exact looks.elim
  | closing known _ snapshot gives =>
    rw [ended] at gives
    exact Or.inr ⟨_, known, _, snapshot, gives⟩

end Runs

end Board

end FairLocks
