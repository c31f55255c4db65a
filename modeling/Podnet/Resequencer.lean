import Podnet.Maps

/-- A buffer that puts numbered items back into order. `next` is the number it
waits for, `waiting` keeps the later items and is allocated on first use, and
`out` is what the consumer has made of the items delivered so far. -/
structure Resequencer (α β : Type) where
  next : UInt64
  waiting : Option (BTreeMap UInt64 α)
  out : β

namespace Resequencer

variable {α β : Type} (number : α → UInt64) (consume : α → β → β)

/-- The numbers kept for later. -/
def held (q : Resequencer α β) : Finset UInt64 :=
  match q.waiting with
  | none => ∅
  | some m => m.keys

/-- Keep an item for later; a second item with its number replaces it. -/
def hold (a : α) (q : Resequencer α β) : Resequencer α β :=
  { q with waiting := some (Finmap.insert (number a) a (q.waiting.getD ∅)) }

def deliver (a : α) (q : Resequencer α β) : Resequencer α β :=
  { q with next := q.next + 1, out := consume a q.out }

/-- Deliver the least kept item if it is the one waited for. -/
def drainStep (q : Resequencer α β) : Option (Resequencer α β) :=
  match q.waiting with
  | none => none
  | some m =>
    match BTreeMap.firstKeyValue m with
    | none => none
    | some (k, a) =>
      if k = q.next then some (deliver consume a { q with waiting := some (m.erase k) }) else none

def drain : Nat → Resequencer α β → Resequencer α β
  | 0, q => q
  | fuel + 1, q =>
    match drainStep consume q with
    | none => q
    | some q' => drain fuel q'

/-- Drop an old item, keep a later one, deliver the awaited one and then
everything that has become deliverable. -/
def accept (a : α) (q : Resequencer α β) : Resequencer α β :=
  if number a < q.next then q
  else if q.next < number a then hold number a q
  else drain consume q.held.card (deliver consume a q)

/-- The buffer after a whole arrival sequence. -/
def run (arrivals : List α) (q : Resequencer α β) : Resequencer α β :=
  arrivals.foldl (fun q a => accept number consume a q) q

theorem run_concat (arrivals : List α) (a : α) (q : Resequencer α β) :
    run number consume (arrivals ++ [a]) q = accept number consume a (run number consume arrivals q) := by
  simp [run]

theorem held_hold (a : α) (q : Resequencer α β) :
    (hold number a q).held = insert (number a) q.held := by
  cases waiting : q.waiting with
  | none => simp [held, hold, waiting, BTreeMap.keys_insert]
  | some m => simp [held, hold, waiting, BTreeMap.keys_insert]

theorem held_deliver (a : α) (q : Resequencer α β) : (deliver consume a q).held = q.held := rfl

theorem drainStep_none {q : Resequencer α β} (stop : drainStep consume q = none)
    (least : ∀ m ∈ q.held, q.next ≤ m) : q.next ∉ q.held := by
  unfold drainStep at stop
  intro member
  unfold held at member least
  split at stop
  · rename_i empty
    simp [empty] at member
  · rename_i m waiting
    simp only [waiting] at member least
    split at stop
    · rename_i first
      simp [BTreeMap.firstKeyValue_none first] at member
    · rename_i k a first
      obtain ⟨atKey, below⟩ := BTreeMap.firstKeyValue_some first
      have inside : k ∈ m.keys := Finmap.mem_keys.mpr (Finmap.mem_of_lookup_eq_some atKey)
      split at stop
      · simp at stop
      · rename_i different
        exact different (le_antisymm (below _ member) (least k inside))

/-- Everything a successful drain step does: the awaited number was kept, its
item is delivered and the number is no longer kept. -/
theorem drainStep_some {q q' : Resequencer α β} (step : drainStep consume q = some q') :
    ∃ m a, q.waiting = some m ∧ m.lookup q.next = some a ∧
      q' = deliver consume a { q with waiting := some (m.erase q.next) } := by
  unfold drainStep at step
  split at step
  · simp at step
  · rename_i m waiting
    split at step
    · simp at step
    · rename_i k a first
      split at step
      · rename_i awaited
        subst awaited
        exact ⟨m, a, waiting, (BTreeMap.firstKeyValue_some first).1, (Option.some.inj step).symm⟩
      · simp at step

section Order

variable {number consume}

theorem accept_awaited {a : α} {q : Resequencer α β} (awaited : number a = q.next)
    (empty : q.waiting = none) : accept number consume a q = deliver consume a q := by
  have none : q.held.card = 0 := by simp [held, empty]
  rw [accept, awaited, if_neg (lt_irrefl _), if_neg (lt_irrefl _), none]
  rfl

/-- What holds of the buffer at every moment after the items `items` arrived:
everything below `next` arrived, kept items are filed under their own numbers,
and the consumer was fed one arrived item for each number below `next`, in
order. -/
structure Tracks (number : α → UInt64) (consume : α → β → β) (items : Set α) (start : β)
    (q : Resequencer α β) : Prop where
  below : ∀ m < q.next, m ∈ number '' items
  filed : ∀ m k a, q.waiting = some m → m.lookup k = some a → number a = k ∧ a ∈ items
  delivered : ∃ order : List α, q.out = order.foldl (fun out a => consume a out) start ∧
    order.map (fun a => (number a).toNat) = List.range q.next.toNat ∧ ∀ a ∈ order, a ∈ items

/-- Inside the drain loop the awaited item may still be among the kept ones. -/
def Draining (number : α → UInt64) (consume : α → β → β) (items : Set α) (start : β)
    (q : Resequencer α β) : Prop :=
  Tracks number consume items start q ∧
    ∀ m, m ∈ q.held ↔ m ∈ number '' items ∧ q.next ≤ m

/-- Between two arrivals the awaited number has not arrived. -/
def Settled (number : α → UInt64) (consume : α → β → β) (items : Set α) (start : β)
    (q : Resequencer α β) : Prop :=
  Tracks number consume items start q ∧ q.next ∉ number '' items ∧
    ∀ m, m ∈ q.held ↔ m ∈ number '' items ∧ q.next < m

variable {items : Set α} {start : β} {q : Resequencer α β}

theorem Tracks.mono {more : Set α} (tracks : Tracks number consume items start q)
    (grow : items ⊆ more) : Tracks number consume more start q := by
  obtain ⟨order, fed, numbers, arrived⟩ := tracks.delivered
  refine ⟨fun m before => Set.image_mono grow (tracks.below m before), ?_, ?_⟩
  · intro m k a waiting atKey
    obtain ⟨same, member⟩ := tracks.filed m k a waiting atKey
    exact ⟨same, grow member⟩
  · exact ⟨order, fed, numbers, fun a member => grow (arrived a member)⟩

theorem Tracks.next_le {free : UInt64} (tracks : Tracks number consume items start q)
    (absent : free ∉ number '' items) : q.next ≤ free :=
  le_of_not_gt fun before => absent (tracks.below free before)

/-- Delivering the awaited item keeps the invariant. A number that never
arrives lies above `next`, so the counter cannot wrap. -/
theorem Tracks.deliver {a : α} {free : UInt64} (tracks : Tracks number consume items start q)
    (member : a ∈ items) (awaited : number a = q.next) (absent : free ∉ number '' items) :
    Tracks number consume items start (deliver consume a q) := by
  have arrived : q.next ∈ number '' items := ⟨a, member, awaited⟩
  have room : q.next < free := by
    refine lt_of_le_of_ne (tracks.next_le absent) ?_
    intro same
    exact absent (same ▸ arrived)
  obtain ⟨order, fed, numbers, all⟩ := tracks.delivered
  refine ⟨?_, tracks.filed, order ++ [a], ?_, ?_, ?_⟩
  · intro m before
    rcases lt_or_eq_of_le ((Word.lt_succ_iff room).mp before) with earlier | same
    · exact tracks.below m earlier
    · exact same ▸ arrived
  · simp only [Resequencer.deliver, fed, List.foldl_append, List.foldl_cons, List.foldl_nil]
  · simp only [Resequencer.deliver, List.map_append, numbers, List.map_cons, List.map_nil, awaited,
      Word.toNat_succ room, List.range_succ]
  · intro b inside
    rcases List.mem_append.mp inside with old | new
    · exact all b old
    · exact List.mem_singleton.mp new ▸ member

theorem Draining.room {free m : UInt64} (draining : Draining number consume items start q)
    (absent : free ∉ number '' items) (member : m ∈ q.held) (same : m = q.next) :
    q.next < free := by
  refine lt_of_le_of_ne (draining.1.next_le absent) ?_
  intro equal
  exact absent (equal ▸ same ▸ ((draining.2 m).mp member).1)

theorem Draining.step {q' : Resequencer α β} {free : UInt64}
    (draining : Draining number consume items start q) (absent : free ∉ number '' items)
    (step : drainStep consume q = some q') :
    Draining number consume items start q' ∧ q'.held.card + 1 = q.held.card := by
  obtain ⟨m, a, waiting, atNext, rfl⟩ := drainStep_some consume step
  have kept : q.next ∈ m.keys := Finmap.mem_keys.mpr (Finmap.mem_of_lookup_eq_some atNext)
  have heldEq : q.held = m.keys := by simp only [held, waiting]
  obtain ⟨awaited, member⟩ := draining.1.filed m _ a waiting atNext
  have room := draining.room absent (heldEq ▸ kept) rfl
  have rest : Tracks number consume items start { q with waiting := some (m.erase q.next) } := by
    refine ⟨draining.1.below, ?_, draining.1.delivered⟩
    intro m' k b erased atKey
    cases Option.some.inj erased
    by_cases same : k = q.next
    · subst same
      simp at atKey
    · rw [Finmap.lookup_erase_ne same] at atKey
      exact draining.1.filed m k b waiting atKey
  refine ⟨⟨rest.deliver member awaited absent, ?_⟩, ?_⟩
  · intro k
    have before := draining.2 k
    rw [heldEq] at before
    simp only [held, Finmap.keys_erase, Finset.mem_erase, before, Resequencer.deliver,
      Word.succ_le_iff room, lt_iff_le_and_ne, ne_comm]
    tauto
  · simp only [held_deliver, heldEq]
    change (m.erase q.next).keys.card + 1 = m.keys.card
    rw [Finmap.keys_erase, Finset.card_erase_add_one kept]

theorem Draining.settled (draining : Draining number consume items start q)
    (stop : q.next ∉ q.held) : Settled number consume items start q := by
  have absent : q.next ∉ number '' items :=
    fun arrived => stop ((draining.2 _).mpr ⟨arrived, le_rfl⟩)
  refine ⟨draining.1, absent, fun m => ?_⟩
  rw [draining.2 m]
  constructor
  · rintro ⟨arrived, above⟩
    refine ⟨arrived, lt_of_le_of_ne above ?_⟩
    intro same
    exact absent (same ▸ arrived)
  · rintro ⟨arrived, above⟩
    exact ⟨arrived, above.le⟩

theorem Settled.draining (settled : Settled number consume items start q) :
    Draining number consume items start q := by
  obtain ⟨tracks, fresh, kept⟩ := settled
  refine ⟨tracks, fun m => ?_⟩
  rw [kept m]
  constructor
  · exact fun ⟨arrived, above⟩ => ⟨arrived, above.le⟩
  · rintro ⟨arrived, above⟩
    refine ⟨arrived, lt_of_le_of_ne above ?_⟩
    intro same
    exact fresh (same ▸ arrived)

theorem Draining.stop (draining : Draining number consume items start q)
    (stop : drainStep consume q = none) : Settled number consume items start q :=
  draining.settled (drainStep_none consume stop fun m member => ((draining.2 m).mp member).2)

/-- The loop ends settled: its fuel is the number of kept items, and every
round delivers one. -/
theorem Draining.drain {free : UInt64} (absent : free ∉ number '' items) {fuel : Nat}
    (draining : Draining number consume items start q) (enough : q.held.card ≤ fuel) :
    Settled number consume items start (drain consume fuel q) := by
  induction fuel generalizing q with
  | zero =>
    refine draining.settled ?_
    rw [Finset.card_eq_zero.mp (Nat.le_zero.mp enough)]
    exact Finset.notMem_empty _
  | succ fuel ih =>
    unfold Resequencer.drain
    split
    · rename_i stop
      exact draining.stop stop
    · rename_i q' step
      obtain ⟨next, count⟩ := draining.step absent step
      exact ih next (by omega)

theorem mem_image_insert (a : α) (m : UInt64) :
    m ∈ number '' insert a items ↔ m = number a ∨ m ∈ number '' items := by
  rw [Set.image_insert_eq, Set.mem_insert_iff]

/-- An outdated item changes nothing: its number has already arrived. -/
theorem Settled.outdated {a : α} (settled : Settled number consume items start q)
    (old : number a < q.next) : Settled number consume (insert a items) start q := by
  obtain ⟨tracks, fresh, kept⟩ := settled
  have known := tracks.below _ old
  refine ⟨tracks.mono (Set.subset_insert a items), ?_, fun m => ?_⟩
  · rw [mem_image_insert]
    rintro (same | arrived)
    · exact old.ne' same
    · exact fresh arrived
  · rw [kept m, mem_image_insert]
    constructor
    · exact fun ⟨arrived, above⟩ => ⟨Or.inr arrived, above⟩
    · rintro ⟨rfl | arrived, above⟩
      · exact ⟨known, above⟩
      · exact ⟨arrived, above⟩

/-- An early item is filed under its own number. -/
theorem Settled.hold {a : α} (settled : Settled number consume items start q)
    (later : q.next < number a) :
    Settled number consume (insert a items) start (hold number a q) := by
  obtain ⟨tracks, fresh, kept⟩ := settled
  have grown := tracks.mono (Set.subset_insert a items)
  refine ⟨⟨grown.below, ?_, grown.delivered⟩, ?_, fun m => ?_⟩
  · intro m k b waiting atKey
    cases Option.some.inj waiting
    by_cases same : k = number a
    · subst same
      rw [Finmap.lookup_insert] at atKey
      cases Option.some.inj atKey
      exact ⟨rfl, Set.mem_insert _ _⟩
    · rw [Finmap.lookup_insert_of_ne _ same] at atKey
      cases old : q.waiting with
      | none => simp [old] at atKey
      | some m => exact grown.filed m k b old (by simpa [old] using atKey)
  · rw [mem_image_insert]
    rintro (same | arrived)
    · exact later.ne same
    · exact fresh arrived
  · rw [held_hold, Finset.mem_insert, kept m, mem_image_insert]
    constructor
    · rintro (rfl | ⟨arrived, above⟩)
      · exact ⟨Or.inl rfl, later⟩
      · exact ⟨Or.inr arrived, above⟩
    · rintro ⟨rfl | arrived, above⟩
      · exact Or.inl rfl
      · exact Or.inr ⟨arrived, above⟩

/-- The awaited item is delivered, and what waited behind it may follow. -/
theorem Settled.deliver {a : α} (settled : Settled number consume items start q)
    (awaited : number a = q.next) {free : UInt64} (absent : free ∉ number '' insert a items) :
    Draining number consume (insert a items) start (deliver consume a q) := by
  obtain ⟨tracks, fresh, kept⟩ := settled
  have grown := tracks.mono (Set.subset_insert a items)
  have room : q.next < free := by
    refine lt_of_le_of_ne (grown.next_le absent) ?_
    intro same
    exact absent (same ▸ awaited ▸ Set.mem_image_of_mem number (Set.mem_insert a items))
  refine ⟨grown.deliver (Set.mem_insert a items) awaited absent, fun m => ?_⟩
  rw [held_deliver, kept m, mem_image_insert]
  simp only [Resequencer.deliver, Word.succ_le_iff room, awaited]
  constructor
  · exact fun ⟨arrived, above⟩ => ⟨Or.inr arrived, above⟩
  · rintro ⟨rfl | arrived, above⟩
    · exact absurd above (lt_irrefl _)
    · exact ⟨arrived, above⟩

theorem Settled.accept {a : α} (settled : Settled number consume items start q) (free : UInt64)
    (absent : free ∉ number '' insert a items) :
    Settled number consume (insert a items) start (accept number consume a q) := by
  unfold Resequencer.accept
  split
  · rename_i old
    exact settled.outdated old
  · rename_i notOld
    split
    · rename_i later
      exact settled.hold later
    · rename_i notLater
      have awaited : number a = q.next := le_antisymm (not_lt.mp notLater) (not_lt.mp notOld)
      exact Draining.drain absent (settled.deliver awaited absent) le_rfl

/-- The buffer before anything arrived. -/
def initial (start : β) : Resequencer α β := ⟨0, none, start⟩

theorem initial_settled : Settled number consume ∅ start (initial start) := by
  refine ⟨⟨?_, ?_, [], rfl, rfl, by simp⟩, by simp, by simp [held, initial]⟩
  · intro m before
    exact absurd before (not_lt.mpr (Word.zero_le m))
  · intro m k a waiting
    simp [initial] at waiting

/-- Items that arrive in order are delivered at once, also past the last word,
where the counter starts again at zero. -/
theorem run_in_order {item : Nat → α} (numbered : ∀ n, number (item n) = UInt64.ofNat n) (m : Nat) :
    (run number consume ((List.range m).map item) (initial start)).next = UInt64.ofNat m ∧
      (run number consume ((List.range m).map item) (initial start)).waiting = none := by
  induction m with
  | zero => exact ⟨rfl, rfl⟩
  | succ m ih =>
    obtain ⟨next, waiting⟩ := ih
    rw [List.range_succ, List.map_append, List.map_cons, List.map_nil, run_concat,
      accept_awaited (by rw [numbered, next]) waiting]
    exact ⟨by simp [deliver, next], waiting⟩

/-- The invariant at the end of a whole arrival sequence that leaves some
number out. -/
theorem run_settled {arrivals : List α} {free : UInt64}
    (absent : ∀ a ∈ arrivals, number a ≠ free) :
    Settled number consume {a | a ∈ arrivals} start (run number consume arrivals (initial start)) := by
  induction arrivals using List.reverseRecOn with
  | nil =>
    have base : Settled number consume ∅ start (initial start) := initial_settled
    simpa only [List.not_mem_nil, Set.ofPred_false, run, List.foldl_nil] using base
  | append_singleton earlier a ih =>
    have before := ih fun b member => absent b (List.mem_append_left _ member)
    have items : {b | b ∈ earlier ++ [a]} = insert a {b | b ∈ earlier} := by
      ext b
      simp [or_comm]
    rw [items, run_concat]
    refine before.accept free ?_
    rw [← items]
    rintro ⟨b, member, same⟩
    exact absent b member same

/-- `next` ends as the least natural number that did not arrive. -/
theorem Settled.next_least (settled : Settled number consume items start q) :
    IsLeast {n : Nat | ∀ a ∈ items, (number a).toNat ≠ n} q.next.toNat := by
  obtain ⟨tracks, fresh, _⟩ := settled
  constructor
  · intro a member same
    exact fresh ⟨a, member, UInt64.toNat_inj.mp same⟩
  · intro n absent
    by_contra small
    push Not at small
    have bound := q.next.toNat_lt
    have value : (UInt64.ofNat n).toNat = n := UInt64.toNat_ofNat_of_lt' (small.trans bound)
    have before : UInt64.ofNat n < q.next := by
      rw [UInt64.lt_iff_toNat_lt, value]
      exact small
    obtain ⟨a, member, same⟩ := tracks.below _ before
    exact absent a member (by rw [same, value])

theorem eq_of_map_eq (distinct : Set.InjOn number items) {first second : List α}
    (inFirst : ∀ a ∈ first, a ∈ items) (inSecond : ∀ a ∈ second, a ∈ items)
    (same : first.map number = second.map number) : first = second := by
  induction first generalizing second with
  | nil => exact (List.map_eq_nil_iff.mp same.symm).symm
  | cons a rest ih =>
    cases second with
    | nil => simp at same
    | cons b rest' =>
      simp only [List.map_cons, List.cons.injEq] at same
      obtain ⟨memberA, inRest⟩ := List.forall_mem_cons.mp inFirst
      obtain ⟨memberB, inRest'⟩ := List.forall_mem_cons.mp inSecond
      rw [distinct memberA memberB same.1, ih inRest inRest' same.2]

/-- Two settled buffers fed from one set of items with distinct numbers agree:
arrival order, repetitions and interleavings leave no trace. -/
theorem Settled.unique {q₁ q₂ : Resequencer α β}
    (first : Settled number consume items start q₁) (second : Settled number consume items start q₂)
    (distinct : Set.InjOn number items) : q₁.next = q₂.next ∧ q₁.out = q₂.out := by
  have next : q₁.next = q₂.next :=
    UInt64.toNat_inj.mp (first.next_least.unique second.next_least)
  obtain ⟨order₁, fed₁, numbers₁, arrived₁⟩ := first.1.delivered
  obtain ⟨order₂, fed₂, numbers₂, arrived₂⟩ := second.1.delivered
  have same : order₁.map number = order₂.map number := by
    apply List.map_injective_iff.mpr (fun _ _ => UInt64.toNat_inj.mp)
    rw [List.map_map, List.map_map]
    exact numbers₁.trans (next ▸ numbers₂.symm)
  have equal := eq_of_map_eq distinct arrived₁ arrived₂ same
  exact ⟨next, by rw [fed₁, fed₂, equal]⟩

end Order

end Resequencer
