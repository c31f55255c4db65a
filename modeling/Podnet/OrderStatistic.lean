import Podnet.Maps

namespace OrderStatistic

variable {α : Type} [LinearOrder α]

/-- The value at position `i` of the sorted list, counted from zero. -/
def nth (l : List α) (i : Nat) (d : α) : α :=
  (l.insertionSort (· ≤ ·)).getD i d

/-- In a sorted list the elements of a downward closed property come first, so
their number tells at which positions the property holds. -/
theorem getD_iff_countP {p : α → Bool} (down : ∀ a b, a ≤ b → p b = true → p a = true) {l : List α}
    {i : Nat} {d : α} (sorted : l.Pairwise (· ≤ ·)) (inside : i < l.length) :
    p (l.getD i d) = true ↔ i < l.countP p := by
  induction l generalizing i with
  | nil => simp at inside
  | cons a rest ih =>
    obtain ⟨least, sortedRest⟩ := List.pairwise_cons.mp sorted
    by_cases holds : p a = true
    · rw [List.countP_cons_of_pos holds]
      cases i with
      | zero => simp [holds]
      | succ i =>
        have tail := ih sortedRest (by simpa using inside)
        rw [List.getD_cons_succ, tail]
        omega
    · have fails : ∀ b ∈ rest, p b = false := by
        intro b member
        have smaller := down a b (least b member)
        simpa using fun holdsB => holds (smaller holdsB)
      have none : rest.countP p = 0 := List.countP_eq_zero.mpr (by simpa using fails)
      rw [List.countP_cons_of_neg holds, none]
      cases i with
      | zero => simpa using holds
      | succ i =>
        have atI : i < rest.length := by simpa using inside
        rw [List.getD_cons_succ, List.getD_eq_getElem _ _ atI]
        simpa using fails _ (List.getElem_mem atI)

variable {l m : List α} {i j : Nat} {x d : α}

theorem nth_iff_countP {p : α → Bool} (down : ∀ a b, a ≤ b → p b = true → p a = true)
    (inside : i < l.length) : p (nth l i d) = true ↔ i < l.countP p := by
  have sorted := List.pairwise_insertionSort (α := α) (· ≤ ·) l
  have perm := List.perm_insertionSort (α := α) (· ≤ ·) l
  rw [nth, getD_iff_countP down sorted (perm.length_eq ▸ inside), perm.countP_eq]

theorem nth_lt_iff (inside : i < l.length) :
    nth l i d < x ↔ i < l.countP (fun y => y < x) := by
  have counted := nth_iff_countP (p := fun y => decide (y < x)) (d := d)
    (fun a b below => by simpa using fun above => below.trans_lt above) inside
  simpa using counted

theorem nth_le_iff (inside : i < l.length) :
    nth l i d ≤ x ↔ i < l.countP (fun y => y ≤ x) := by
  have counted := nth_iff_countP (p := fun y => decide (y ≤ x)) (d := d)
    (fun a b below => by simpa using fun above => below.trans above) inside
  simpa using counted

theorem le_nth_iff (inside : i < l.length) :
    x ≤ nth l i d ↔ l.countP (fun y => y < x) ≤ i := by
  rw [← not_lt, nth_lt_iff inside, not_lt]

theorem countP_le_add (l : List α) (x : α) :
    l.countP (fun y => y ≤ x) + l.countP (fun y => x < y) = l.length := by
  have split := List.length_eq_countP_add_countP (l := l) (fun y => decide (y ≤ x))
  simpa using split.symm

theorem countP_lt_add (l : List α) (x : α) :
    l.countP (fun y => y < x) + l.countP (fun y => x ≤ y) = l.length := by
  have split := List.length_eq_countP_add_countP (l := l) (fun y => decide (y < x))
  simpa using split.symm

/-- At least `i + 1` values are at most the value at position `i`. -/
theorem lt_countP_le_nth (inside : i < l.length) :
    i < l.countP (fun y => y ≤ nth l i d) :=
  (nth_le_iff inside).mp le_rfl

/-- At least `length - i` values are at least the value at position `i`. -/
theorem length_le_countP_nth_le (inside : i < l.length) :
    l.length ≤ l.countP (fun y => nth l i d ≤ y) + i := by
  have below := (le_nth_iff (d := d) inside).mp le_rfl
  have split := countP_lt_add l (nth l i d)
  omega

theorem nth_le_nth (order : i ≤ j) (inside : j < l.length) :
    nth l i d ≤ nth l j d := by
  rw [nth_le_iff (order.trans_lt inside)]
  exact order.trans_lt (lt_countP_le_nth inside)

/-- Sorting forgets the order. -/
theorem insertionSort_eq_of_perm (perm : l.Perm m) :
    l.insertionSort (· ≤ ·) = m.insertionSort (· ≤ ·) := by
  have sorted := ((List.perm_insertionSort (α := α) (· ≤ ·) l).trans perm).trans
    (List.perm_insertionSort (α := α) (· ≤ ·) m).symm
  exact sorted.eq_of_pairwise' (List.pairwise_insertionSort (α := α) (· ≤ ·) l)
    (List.pairwise_insertionSort (α := α) (· ≤ ·) m)

/-- Padding with least values shifts the positions. -/
theorem insertionSort_replicate_append {least : α} (bottom : ∀ y, least ≤ y) (b : Nat) :
    (List.replicate b least ++ l).insertionSort (· ≤ ·) =
      List.replicate b least ++ l.insertionSort (· ≤ ·) := by
  induction b with
  | zero => rfl
  | succ b ih =>
    rw [List.replicate_succ, List.cons_append, List.insertionSort_cons, ih, List.cons_append]
    cases List.replicate b least ++ l.insertionSort (· ≤ ·) with
    | nil => rfl
    | cons a rest => exact if_pos (bottom a)

/-- Positions counted from below compare as the numbers of smaller values do. -/
theorem nth_le_nth_iff (insideL : i < l.length) (insideM : j < m.length) :
    nth l i d ≤ nth m j d ↔
      ∀ x, l.countP (fun y => y < x) ≤ i → m.countP (fun y => y < x) ≤ j := by
  constructor
  · intro order x few
    exact (le_nth_iff insideM).mp (((le_nth_iff insideL).mpr few).trans order)
  · intro fewer
    exact (le_nth_iff insideM).mpr (fewer _ ((le_nth_iff insideL).mp le_rfl))

/-- A list with fewer values below every bound has larger order statistics. -/
theorem nth_mono (length : l.length = m.length)
    (fewer : ∀ x, m.countP (fun y => y < x) ≤ l.countP (fun y => y < x)) : nth l i d ≤ nth m i d := by
  by_cases inside : i < l.length
  · refine (nth_le_nth_iff inside (length ▸ inside)).mpr ?_
    intro x few
    exact (fewer x).trans few
  · have outsideL : (l.insertionSort (· ≤ ·)).length ≤ i := by
      rw [List.length_insertionSort]
      omega
    have outsideM : (m.insertionSort (· ≤ ·)).length ≤ i := by
      rw [List.length_insertionSort]
      omega
    rw [nth, nth, List.getD_eq_default _ _ outsideL, List.getD_eq_default _ _ outsideM]

/-- Positions counted from above compare as the numbers of larger values do. -/
theorem nth_top_le_nth_top_iff {t : Nat} (positive : 0 < t) (insideL : t ≤ l.length)
    (insideM : t ≤ m.length) :
    nth m (m.length - t) d ≤ nth l (l.length - t) d ↔
      ∀ x, l.countP (fun y => x < y) < t → m.countP (fun y => x < y) < t := by
  have topL : ∀ x, nth l (l.length - t) d ≤ x ↔ l.countP (fun y => x < y) < t := by
    intro x
    have split := countP_le_add l x
    rw [nth_le_iff (by omega)]
    omega
  have topM : ∀ x, nth m (m.length - t) d ≤ x ↔ m.countP (fun y => x < y) < t := by
    intro x
    have split := countP_le_add m x
    rw [nth_le_iff (by omega)]
    omega
  constructor
  · intro order x few
    exact (topM x).mp (order.trans ((topL x).mpr few))
  · intro fewer
    exact (topM _).mpr (fewer _ ((topL _).mp le_rfl))

end OrderStatistic

namespace OrderStatistic

variable {ι α : Type} [DecidableEq ι] {ids : List ι} {f : ι → Option α}

/-- Counting the values of a family counts its members. -/
theorem countP_filterMap (distinct : ids.Nodup) (p : α → Bool) :
    (ids.filterMap f).countP p = (ids.toFinset.filter fun id => (f id).any p).card := by
  rw [List.countP_filterMap, List.countP_eq_length_filter, ← List.toFinset_filter,
    List.toFinset_card_of_nodup (distinct.filter _)]
  congr 2
  funext id
  cases f id <;> simp

/-- The number of values with a property does not depend on the order of a walk,
and larger values under the same keys are less often below a bound. -/
theorem countP_values_le [LinearOrder α] {m m' : HashMap ι α} (order order' : IterOrder ι α)
    (larger : ∀ k v, m.lookup k = some v → ∃ v', m'.lookup k = some v' ∧ v ≤ v')
    (keys : ∀ k, k ∈ m' → k ∈ m) (x : α) :
    (order'.values m').countP (fun y => y < x) ≤ (order.values m).countP (fun y => y < x) := by
  rw [← order.filterMap_keys_lookup, ← order'.filterMap_keys_lookup,
    countP_filterMap (order.keys_nodup m), countP_filterMap (order'.keys_nodup m'), order.keys_toFinset,
    order'.keys_toFinset]
  refine Finset.card_le_card fun k member => ?_
  rw [Finset.mem_filter, Finmap.mem_keys] at member ⊢
  obtain ⟨known', below⟩ := member
  obtain ⟨v, atKey⟩ := Finmap.mem_iff.mp (keys k known')
  obtain ⟨v', atKey', le⟩ := larger k v atKey
  refine ⟨keys k known', ?_⟩
  rw [atKey', Option.any_some, decide_eq_true_eq] at below
  rw [atKey, Option.any_some, decide_eq_true_eq]
  exact le.trans_lt below

theorem length_values_eq {m m' : HashMap ι α} (order order' : IterOrder ι α)
    (keys : ∀ k, k ∈ m ↔ k ∈ m') : (order.values m).length = (order'.values m').length := by
  have same : m.keys = m'.keys := by
    ext k
    rw [Finmap.mem_keys, Finmap.mem_keys, keys]
  rw [IterOrder.values, IterOrder.values, List.length_map, List.length_map, order.length_visit,
    order'.length_visit, same]

/-- A property of more than `faulty.card` members holds outside `faulty`. -/
theorem exists_outside (p : α → Bool) (faulty : Finset ι) (distinct : ids.Nodup)
    (many : faulty.card < (ids.filterMap f).countP p) :
    ∃ id ∉ faulty, ∃ v, f id = some v ∧ p v = true := by
  rw [countP_filterMap distinct] at many
  obtain ⟨id, member, outside⟩ := Finset.exists_mem_notMem_of_card_lt_card many
  have holds := (Finset.mem_filter.mp member).2
  obtain ⟨v, value, property⟩ := (Option.any_eq_true _ _).mp holds
  exact ⟨id, outside, v, value, property⟩

/-- A position with more than `faulty.card` members on either side, itself
included, is enclosed by members outside `faulty`. -/
theorem nth_enclosed [LinearOrder α] (faulty : Finset ι) {i : Nat} {d : α} (distinct : ids.Nodup)
    (below : faulty.card ≤ i) (above : faulty.card + i < (ids.filterMap f).length) :
    (∃ id ∉ faulty, ∃ v, f id = some v ∧ v ≤ nth (ids.filterMap f) i d) ∧
      ∃ id ∉ faulty, ∃ v, f id = some v ∧ nth (ids.filterMap f) i d ≤ v := by
  have inside : i < (ids.filterMap f).length := by omega
  have lower := lt_countP_le_nth (d := d) inside
  have upper := length_le_countP_nth_le (d := d) inside
  have someBelow := exists_outside _ faulty distinct (below.trans_lt lower)
  have someAbove := exists_outside (f := f) (fun v => nth (ids.filterMap f) i d ≤ v) faulty distinct
    (by omega)
  exact ⟨by simpa using someBelow, by simpa using someAbove⟩

theorem length_filterMap_add_missing (distinct : ids.Nodup) :
    (ids.filterMap f).length + (ids.toFinset.filter fun id => f id = none).card = ids.length := by
  have missing : (ids.toFinset.filter fun id => f id = none).card = ids.countP fun id => f id = none := by
    rw [List.countP_eq_length_filter, ← List.toFinset_card_of_nodup (distinct.filter _), List.toFinset_filter]
    simp only [decide_eq_true_eq]
  have split := List.length_eq_countP_add_countP (l := ids) (fun id => (f id).isSome)
  have none : (fun id => decide ¬ (f id).isSome = true) = fun id => decide (f id = Option.none) := by
    funext id
    simp
  rw [missing, List.length_filterMap_eq_countP, split, none]

/-- A family that is at least as large as another outside `lost` has larger order statistics,
if its position is further up by the number of members in `lost`. -/
theorem nth_le_nth_outside [LinearOrder α] {g : ι → Option α} {walk walk' : List ι} {i j : Nat} {d : α}
    (lost : Finset ι) (distinct : walk.Nodup) (distinct' : walk'.Nodup) (ids : ∀ id ∈ walk', id ∈ walk)
    (larger : ∀ id ∈ walk', id ∉ lost → ∀ y, g id = some y → ∃ x, f id = some x ∧ x ≤ y)
    (further : i + lost.card ≤ j) (insideF : i < (walk.filterMap f).length)
    (insideG : j < (walk'.filterMap g).length) :
    nth (walk.filterMap f) i d ≤ nth (walk'.filterMap g) j d := by
  have few : (walk.filterMap f).countP (fun x => x < nth (walk.filterMap f) i d) ≤ i :=
    (le_nth_iff insideF).mp le_rfl
  rw [le_nth_iff insideG]
  rw [countP_filterMap distinct] at few
  rw [countP_filterMap distinct']
  have covered : (walk'.toFinset.filter fun id => (g id).any (· < nth (walk.filterMap f) i d)) ⊆
      (walk.toFinset.filter fun id => (f id).any (· < nth (walk.filterMap f) i d)) ∪ lost := by
    intro id member
    simp only [Finset.mem_filter, List.mem_toFinset, Option.any_eq_true, decide_eq_true_eq] at member
    obtain ⟨inWalk, y, value, below⟩ := member
    by_cases missing : id ∈ lost
    · exact Finset.mem_union_right _ missing
    · obtain ⟨x, own, le⟩ := larger id inWalk missing y value
      refine Finset.mem_union_left _ (Finset.mem_filter.mpr ⟨List.mem_toFinset.mpr (ids id inWalk), ?_⟩)
      simpa [own] using le.trans_lt below
  have union := (Finset.card_le_card covered).trans (Finset.card_union_le _ _)
  omega

end OrderStatistic
