import Mathlib

namespace Funnel

/-- What a producer makes of an item of its stream. -/
inductive Verdict (α : Type) where
  | emit (a : α)
  | skip
  | stop

/-- A producer reads its stream up to an item that stops it, or breaks off. It reads nothing
while it is paused. -/
inductive Phase where
  | reading
  | paused
  | finished
  | broken
  deriving DecidableEq, Repr

def Phase.Live (phase : Phase) : Prop := phase = .reading ∨ phase = .paused

/-- A producer with what it has not read of its stream and the value it waits to hand on.
`items` lists all that the stream has yielded; no step reads it. -/
structure Producer (Item α : Type) where
  unread : List Item
  holding : Option α
  phase : Phase
  items : List Item

/-- Producers with one bounded channel, whose entries are marked with their producer, and
what the consumer has taken from it. -/
structure State (Item α : Type) where
  producers : List (Producer Item α)
  channel : List (Nat × α)
  taken : List (Nat × α)

variable {Item α : Type} (judge : Item → Verdict α) (capacity : Nat)

def Producer.spawned (phase : Phase) : Producer Item α := ⟨[], none, phase, []⟩

def Producer.arrive (item : Item) (t : Producer Item α) : Producer Item α :=
  { t with unread := t.unread ++ [item], items := t.items ++ [item] }

def Producer.handle (item : Item) (t : Producer Item α) : Producer Item α :=
  match judge item with
  | .emit a => { t with holding := some a }
  | .skip => t
  | .stop => { t with phase := .finished }

inductive Step : State Item α → State Item α → Prop
  | spawn {f} (phase : Phase) : phase.Live → Step f { f with producers := f.producers ++ [.spawned phase] }
  | arrive {f i t} (item : Item) : f.producers[i]? = some t →
      Step f { f with producers := f.producers.set i (t.arrive item) }
  | read {f i t item rest} : f.producers[i]? = some t → t.phase = .reading → t.holding = none →
      t.unread = item :: rest →
      Step f { f with producers := f.producers.set i ({ t with unread := rest }.handle judge item) }
  | send {f i t a} : f.producers[i]? = some t → t.holding = some a → f.channel.length < capacity →
      Step f { f with
        producers := f.producers.set i { t with holding := none }
        channel := f.channel ++ [(i, a)] }
  | turn {f i t} (phase : Phase) : f.producers[i]? = some t → t.phase.Live → phase.Live ∨ phase = .broken →
      Step f { f with producers := f.producers.set i { t with phase := phase } }
  | take {f i a rest} : f.channel = (i, a) :: rest →
      Step f { f with channel := rest, taken := f.taken ++ [(i, a)] }

/-- What a stream makes its producer emit. -/
def emitted : List Item → List α
  | [] => []
  | item :: rest =>
    match judge item with
    | .emit a => a :: emitted rest
    | .skip => emitted rest
    | .stop => []

/-- The entries of one producer, in order. -/
def entriesOf (i : Nat) (entries : List (Nat × α)) : List α :=
  (entries.filter fun entry => entry.1 = i).map Prod.snd

section Streams

variable {judge} {items rest : List Item} {item : Item} {i j : Nat}

theorem entriesOf_append (first second : List (Nat × α)) :
    entriesOf i (first ++ second) = entriesOf i first ++ entriesOf i second := by
  simp [entriesOf]

theorem entriesOf_cons (a : α) (entries : List (Nat × α)) :
    entriesOf i ((j, a) :: entries) = if j = i then a :: entriesOf i entries else entriesOf i entries := by
  by_cases same : j = i <;> simp [entriesOf, same]

theorem mem_entriesOf {a : α} {entries : List (Nat × α)} : a ∈ entriesOf i entries ↔ (i, a) ∈ entries := by
  simp [entriesOf]

theorem emitted_append (goes : ∀ item ∈ items, judge item ≠ .stop) :
    emitted judge (items ++ rest) = emitted judge items ++ emitted judge rest := by
  induction items with
  | nil => rfl
  | cons item items ih =>
    have tail := ih fun later member => goes later (List.mem_cons_of_mem _ member)
    have own := goes item List.mem_cons_self
    cases verdict : judge item with
    | emit a => simp only [List.cons_append, emitted, verdict, tail]
    | skip => simp only [List.cons_append, emitted, verdict, tail]
    | stop => exact absurd verdict own

/-- Nothing behind an item that stops the producer counts. -/
theorem emitted_append_stopped (stopped : ∃ item ∈ items, judge item = .stop) :
    emitted judge (items ++ rest) = emitted judge items := by
  induction items with
  | nil => simp at stopped
  | cons item items ih =>
    cases verdict : judge item with
    | stop => simp only [List.cons_append, emitted, verdict]
    | emit a =>
      obtain ⟨last, member, stops⟩ := stopped
      rcases List.mem_cons.mp member with rfl | later
      · simp [verdict] at stops
      · simp only [List.cons_append, emitted, verdict, ih ⟨last, later, stops⟩]
    | skip =>
      obtain ⟨last, member, stops⟩ := stopped
      rcases List.mem_cons.mp member with rfl | later
      · simp [verdict] at stops
      · simp only [List.cons_append, emitted, verdict, ih ⟨last, later, stops⟩]

/-- What a stream yields later only adds to what it has made its producer emit. -/
theorem emitted_mono (items rest : List Item) : emitted judge items <+: emitted judge (items ++ rest) := by
  by_cases stopped : ∃ item ∈ items, judge item = .stop
  · rw [emitted_append_stopped stopped]
  · rw [emitted_append fun item member stops => stopped ⟨item, member, stops⟩]
    exact List.prefix_append _ _

end Streams

section Handing

/-- A producer has emitted what the part of its stream that it has read makes it emit. The
channel and the consumer have `passed` of it. -/
def Producer.Handed (passed : List α) (t : Producer Item α) : Prop :=
  ∃ before after, t.items = before ++ after ∧ passed ++ t.holding.toList = emitted judge before ∧
    (t.phase.Live → after = t.unread ∧ ∀ item ∈ before, judge item ≠ .stop) ∧
    (t.phase = .finished → ∃ item ∈ before, judge item = .stop)

variable {judge} {passed : List α} {t : Producer Item α} {item : Item} {rest : List Item}

theorem Producer.Handed.spawned {phase : Phase} (live : phase.Live) :
    (Producer.spawned phase : Producer Item α).Handed judge [] := by
  refine ⟨[], [], rfl, rfl, fun _ => ⟨rfl, by simp⟩, fun finished => ?_⟩
  have finished : phase = .finished := finished
  simp [finished, Phase.Live] at live

theorem Producer.Handed.arrive (handed : t.Handed judge passed) (item : Item) :
    (t.arrive item).Handed judge passed := by
  obtain ⟨before, after, items, same, reading, finished⟩ := handed
  refine ⟨before, after ++ [item], ?_, same, fun phase => ?_, finished⟩
  · simp only [Producer.arrive, items, List.append_assoc]
  · obtain ⟨unread, goes⟩ := reading phase
    exact ⟨by simp only [Producer.arrive, unread], goes⟩

theorem Producer.Handed.read (handed : t.Handed judge passed) (phase : t.phase = .reading)
    (free : t.holding = none) (next : t.unread = item :: rest) :
    ({ t with unread := rest : Producer Item α }.handle judge item).Handed judge passed := by
  obtain ⟨before, after, items, same, live, _⟩ := handed
  obtain ⟨rfl, goes⟩ := live (Or.inl phase)
  have whole : t.items = (before ++ [item]) ++ rest := by
    rw [items, next, List.append_assoc, List.singleton_append]
  have more : Funnel.emitted judge (before ++ [item]) = _ := emitted_append goes
  rw [free, Option.toList_none, List.append_nil] at same
  have goOn : judge item ≠ .stop → ∀ seen ∈ before ++ [item], judge seen ≠ .stop := by
    intro own seen member
    rcases List.mem_append.mp member with old | new
    · exact goes seen old
    · exact List.mem_singleton.mp new ▸ own
  unfold Producer.handle
  cases verdict : judge item with
  | emit a =>
    refine ⟨before ++ [item], rest, whole, ?_, fun _ => ⟨rfl, goOn (by simp [verdict])⟩, fun done => ?_⟩
    · rw [more, same]
      simp [emitted, verdict]
    · simp [phase] at done
  | skip =>
    refine ⟨before ++ [item], rest, whole, ?_, fun _ => ⟨rfl, goOn (by simp [verdict])⟩, fun done => ?_⟩
    · rw [more, same]
      simp [emitted, verdict, free]
    · simp [phase] at done
  | stop =>
    refine ⟨before ++ [item], rest, whole, ?_, fun again => by simp [Phase.Live] at again, fun _ => ?_⟩
    · rw [more, same]
      simp [emitted, verdict, free]
    · exact ⟨item, List.mem_append_right _ (List.mem_singleton_self _), verdict⟩

theorem Producer.Handed.send {a : α} (handed : t.Handed judge passed) (full : t.holding = some a) :
    { t with holding := none : Producer Item α }.Handed judge (passed ++ [a]) := by
  obtain ⟨before, after, items, same, reading, finished⟩ := handed
  refine ⟨before, after, items, ?_, reading, finished⟩
  rw [← same, full]
  simp

theorem Producer.Handed.turn {phase : Phase} (handed : t.Handed judge passed) (live : t.phase.Live)
    (next : phase.Live ∨ phase = .broken) : { t with phase := phase : Producer Item α }.Handed judge passed := by
  obtain ⟨before, after, items, same, reading, _⟩ := handed
  refine ⟨before, after, items, same, fun _ => reading live, fun finished => ?_⟩
  have finished : phase = .finished := finished
  simp [finished, Phase.Live] at next

/-- What a producer has handed on is a beginning of what its stream makes it emit, and all
of it when the producer has not broken off and has nothing left to read. -/
theorem Producer.Handed.emitted (handed : t.Handed judge passed) :
    passed ++ t.holding.toList <+: emitted judge t.items ∧
      (t.phase ≠ .broken → (t.phase.Live → t.unread = []) →
        passed ++ t.holding.toList = Funnel.emitted judge t.items) := by
  obtain ⟨before, after, items, same, reading, finished⟩ := handed
  rw [same, items]
  refine ⟨emitted_mono _ _, fun whole done => ?_⟩
  cases phase : t.phase with
  | reading | paused =>
    have live : t.phase.Live := by simp [Phase.Live, phase]
    rw [(reading live).1, done live, List.append_nil]
  | finished => exact (emitted_append_stopped (finished phase)).symm
  | broken => exact absurd phase whole

end Handing

section Invariant

/-- The channel keeps its bound, and every producer has handed on what it has read. -/
structure Inv (f : State Item α) : Prop where
  room : f.channel.length ≤ capacity
  producers : ∀ (i : Nat) (t : Producer Item α), f.producers[i]? = some t →
    t.Handed judge (entriesOf i (f.taken ++ f.channel))
  unspawned : ∀ i, f.producers.length ≤ i → entriesOf i (f.taken ++ f.channel) = []

variable {judge capacity} {f f' : State Item α} {i : Nat} {t t' : Producer Item α}

theorem Inv.initial : Inv judge capacity (⟨[], [], []⟩ : State Item α) :=
  ⟨Nat.zero_le _, by simp, by simp [entriesOf]⟩

/-- Replacing one producer leaves the others alone. -/
theorem Inv.set (inv : Inv judge capacity f) (known : f.producers[i]? = some t)
    (own : t.Handed judge (entriesOf i (f.taken ++ f.channel)) →
      t'.Handed judge (entriesOf i (f.taken ++ f.channel))) :
    Inv judge capacity { f with producers := f.producers.set i t' } := by
  refine ⟨inv.room, fun j u found => ?_, fun j outside => ?_⟩
  · by_cases same : i = j
    · subst same
      rw [List.getElem?_set_self (List.getElem?_eq_some_iff.mp known).1] at found
      exact Option.some.inj found ▸ own (inv.producers i t known)
    · rw [List.getElem?_set_ne same] at found
      exact inv.producers j u found
  · rw [List.length_set] at outside
    exact inv.unspawned j outside

theorem Inv.step (inv : Inv judge capacity f) (step : Step judge capacity f f') :
    Inv judge capacity f' := by
  cases step with
  | spawn phase live =>
    refine ⟨inv.room, fun i t found => ?_, fun i outside => inv.unspawned i ?_⟩
    · rw [List.getElem?_append] at found
      split at found
      · exact inv.producers i t found
      · rename_i new
        rw [List.mem_singleton.mp (List.mem_of_getElem? found), inv.unspawned i (not_lt.mp new)]
        exact .spawned live
    · rw [List.length_append] at outside
      omega
  | arrive item known => exact inv.set known fun handed => handed.arrive item
  | read known phase free next => exact inv.set known fun handed => handed.read phase free next
  | turn phase known live next => exact inv.set known fun handed => handed.turn live next
  | @send i t a known full free =>
    have inside := (List.getElem?_eq_some_iff.mp known).1
    have passed : ∀ j, entriesOf j (f.taken ++ (f.channel ++ [(i, a)])) =
        entriesOf j (f.taken ++ f.channel) ++ if i = j then [a] else [] := by
      intro j
      rw [← List.append_assoc, entriesOf_append, entriesOf_cons]
      rfl
    refine ⟨by simpa using free, fun j u found => ?_, fun j outside => ?_⟩
    · rw [passed]
      by_cases same : i = j
      · subst same
        rw [List.getElem?_set_self inside] at found
        rw [if_pos rfl, ← Option.some.inj found]
        exact (inv.producers i t known).send full
      · rw [List.getElem?_set_ne same] at found
        rw [if_neg same, List.append_nil]
        exact inv.producers j u found
    · rw [List.length_set] at outside
      rw [passed, inv.unspawned j outside, if_neg (by omega)]
      rfl
  | @take i a rest next =>
    have room := inv.room
    have passed : f.taken ++ [(i, a)] ++ rest = f.taken ++ f.channel := by
      rw [next, List.append_assoc, List.singleton_append]
    refine ⟨?_, ?_, ?_⟩
    · rw [next, List.length_cons] at room
      exact (Nat.le_succ _).trans room
    · simpa only [passed] using inv.producers
    · simpa only [passed] using inv.unspawned

end Invariant

section Progress

/-- The steps that need nothing from outside. -/
inductive Drain : State Item α → State Item α → Prop
  | read {f i t item rest} : f.producers[i]? = some t → t.phase = .reading → t.holding = none →
      t.unread = item :: rest →
      Drain f { f with producers := f.producers.set i ({ t with unread := rest }.handle judge item) }
  | send {f i t a} : f.producers[i]? = some t → t.holding = some a → f.channel.length < capacity →
      Drain f { f with
        producers := f.producers.set i { t with holding := none }
        channel := f.channel ++ [(i, a)] }
  | take {f i a rest} : f.channel = (i, a) :: rest →
      Drain f { f with channel := rest, taken := f.taken ++ [(i, a)] }

/-- An unread item may still be read, handed on and taken. -/
def Producer.work (t : Producer Item α) : Nat := 3 * t.unread.length + 2 * t.holding.toList.length

def State.work (f : State Item α) : Nat := (f.producers.map Producer.work).sum + f.channel.length

variable {judge capacity} {f f' : State Item α} {i : Nat} {t t' : Producer Item α}

theorem Drain.step (drain : Drain judge capacity f f') : Step judge capacity f f' := by
  cases drain with
  | read known phase free next => exact .read known phase free next
  | send known full free => exact .send known full free
  | take next => exact .take next

end Progress

end Funnel
