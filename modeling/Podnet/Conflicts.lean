import Podnet.Resequencer

namespace Resequencer

variable {α β : Type} (number : α → UInt64) (consume : α → β → β)

/-- All numbers up to `k` have arrived. -/
def Covers (arrivals : List α) (k : UInt64) : Prop := ∀ m ≤ k, ∃ a ∈ arrivals, number a = m

/-- The arrivals up to the moment at which the last number up to `k` came. -/
structure Closing (arrivals : List α) (k : UInt64) (closed : List α) : Prop where
  part : closed <+: arrivals
  covers : Covers number closed k
  least : ∀ earlier, earlier <+: closed → Covers number earlier k → earlier = closed

def firstNumbered (arrivals : List α) (k : UInt64) : Option α :=
  arrivals.find? fun a => number a = k

def lastNumbered (arrivals : List α) (k : UInt64) : Option α :=
  arrivals.reverse.find? fun a => number a = k

/-- An item was delivered as the last one with its number that had come when all numbers
up to its own were there. -/
def ClosedBy (arrivals : List α) (a : α) : Prop :=
  ∃ closed, Closing number arrivals (number a) closed ∧ lastNumbered number closed (number a) = some a

/-- Which of the items that share a number are kept and delivered. -/
structure Resolved (arrivals : List α) (start : β) (q : Resequencer α β) : Prop where
  kept : ∀ m k a, q.waiting = some m → m.lookup k = some a → lastNumbered number arrivals k = some a
  delivered : ∃ order : List α, q.out = order.foldl (fun out a => consume a out) start ∧
    ∀ a ∈ order, ClosedBy number arrivals a

variable {number consume} {arrivals : List α} {start : β} {q : Resequencer α β} {k : UInt64}

theorem lastNumbered_concat (a : α) : lastNumbered number (arrivals ++ [a]) k =
    if number a = k then some a else lastNumbered number arrivals k := by
  rw [lastNumbered, List.reverse_append, List.reverse_singleton, List.singleton_append, List.find?_cons]
  by_cases own : number a = k
  · simp [own]
  · simp [own, lastNumbered]

theorem lastNumbered_some {a : α} (last : lastNumbered number arrivals k = some a) :
    a ∈ arrivals ∧ number a = k := by
  have own := List.find?_some last
  exact ⟨List.mem_reverse.mp (List.mem_of_find?_eq_some last), of_decide_eq_true own⟩

theorem firstNumbered_some {a : α} (first : firstNumbered number arrivals k = some a) :
    a ∈ arrivals ∧ number a = k := by
  have own := List.find?_some first
  exact ⟨List.mem_of_find?_eq_some first, of_decide_eq_true own⟩

theorem Closing.unique {closed closed' : List α} (closing : Closing number arrivals k closed)
    (other : Closing number arrivals k closed') : closed = closed' := by
  rcases List.prefix_or_prefix_of_prefix closing.part other.part with before | after
  · exact other.least closed before closing.covers
  · exact (closing.least closed' after other.covers).symm

/-- An arrival that brings a missing number closes every number it makes complete. -/
theorem closing_concat {a : α} {gap : UInt64} (missing : ∀ b ∈ arrivals, number b ≠ gap) (above : gap ≤ k)
    (covers : Covers number (arrivals ++ [a]) k) :
    Closing number (arrivals ++ [a]) k (arrivals ++ [a]) := by
  refine ⟨List.prefix_rfl, covers, fun earlier part all => ?_⟩
  rcases List.prefix_concat_iff.mp part with whole | shorter
  · exact whole
  · obtain ⟨b, member, same⟩ := all gap above
    exact absurd same (missing b (shorter.subset member))

/-- Without conflicts the last item with a number is the first one. -/
theorem Closing.of_distinct {closed : List α} (closing : Closing number arrivals k closed)
    (distinct : Set.InjOn number {a | a ∈ arrivals}) :
    lastNumbered number closed k = firstNumbered number arrivals k := by
  obtain ⟨a, member, own⟩ := closing.covers k le_rfl
  have here : a ∈ arrivals := closing.part.subset member
  have last : (lastNumbered number closed k).isSome := by
    rw [lastNumbered, List.find?_isSome]
    exact ⟨a, List.mem_reverse.mpr member, decide_eq_true own⟩
  have first : (firstNumbered number arrivals k).isSome := by
    rw [firstNumbered, List.find?_isSome]
    exact ⟨a, here, decide_eq_true own⟩
  obtain ⟨b, found⟩ := Option.isSome_iff_exists.mp last
  obtain ⟨c, found'⟩ := Option.isSome_iff_exists.mp first
  obtain ⟨inClosed, numberB⟩ := lastNumbered_some found
  obtain ⟨inArrivals, numberC⟩ := firstNumbered_some found'
  rw [found, found', distinct (closing.part.subset inClosed) inArrivals (numberB.trans numberC.symm)]

theorem ClosedBy.concat {b : α} (closed : ClosedBy number arrivals b) (a : α) :
    ClosedBy number (arrivals ++ [a]) b := by
  obtain ⟨before, closing, last⟩ := closed
  exact ⟨before, ⟨closing.part.trans (List.prefix_append ..), closing.covers, closing.least⟩, last⟩

/-- An arrival whose number is not among the kept ones. -/
theorem Resolved.concat {a : α} (resolved : Resolved number consume arrivals start q)
    (other : number a ∉ q.held) : Resolved number consume (arrivals ++ [a]) start q := by
  obtain ⟨order, fed, closed⟩ := resolved.delivered
  refine ⟨fun m k b waiting atKey => ?_, order, fed, fun b member => (closed b member).concat a⟩
  have different : number a ≠ k := by
    rintro rfl
    simp only [held, waiting] at other
    exact other (Finmap.mem_keys.mpr (Finmap.mem_of_lookup_eq_some atKey))
  rw [lastNumbered_concat, if_neg different]
  exact resolved.kept m k b waiting atKey

theorem Resolved.hold {a : α} (resolved : Resolved number consume arrivals start q) :
    Resolved number consume (arrivals ++ [a]) start (hold number a q) := by
  obtain ⟨order, fed, closed⟩ := resolved.delivered
  refine ⟨fun m k b waiting atKey => ?_, order, fed, fun b member => (closed b member).concat a⟩
  cases Option.some.inj waiting
  rw [lastNumbered_concat]
  by_cases own : k = number a
  · subst own
    rw [Finmap.lookup_insert] at atKey
    rw [if_pos rfl, atKey]
  · rw [Finmap.lookup_insert_of_ne _ own] at atKey
    rw [if_neg (Ne.symm own)]
    cases old : q.waiting with
    | none => simp [old] at atKey
    | some m => exact resolved.kept m k b old (by simpa [old] using atKey)

theorem Resolved.deliver {a : α} (resolved : Resolved number consume arrivals start q)
    (closed : ClosedBy number arrivals a) :
    Resolved number consume arrivals start (deliver consume a q) := by
  obtain ⟨order, fed, all⟩ := resolved.delivered
  refine ⟨resolved.kept, order ++ [a], ?_, ?_⟩
  · simp only [Resequencer.deliver, fed, List.foldl_append, List.foldl_cons, List.foldl_nil]
  · intro b member
    rcases List.mem_append.mp member with old | new
    · exact all b old
    · exact List.mem_singleton.mp new ▸ closed

/-- What the drain loop delivers after the gap was filled, it delivers as the last kept. -/
theorem Resolved.drain {gap free : UInt64} (fuel : Nat)
    (closes : ∀ k, gap ≤ k → Covers number arrivals k → Closing number arrivals k arrivals)
    (absent : free ∉ number '' {a | a ∈ arrivals})
    (draining : Draining number consume {a | a ∈ arrivals} start q)
    (resolved : Resolved number consume arrivals start q) (above : gap ≤ q.next) :
    Resolved number consume arrivals start (drain consume fuel q) := by
  induction fuel generalizing q with
  | zero => exact resolved
  | succ fuel ih =>
    unfold Resequencer.drain
    split
    · exact resolved
    · rename_i q' step
      have after := (draining.step absent step).1
      obtain ⟨m, a, waiting, atNext, rfl⟩ := drainStep_some consume step
      obtain ⟨awaited, _⟩ := draining.1.filed m _ a waiting atNext
      have inHeld : q.next ∈ q.held := by
        simp only [held, waiting]
        exact Finmap.mem_keys.mpr (Finmap.mem_of_lookup_eq_some atNext)
      have room := draining.room absent inHeld rfl
      have covers : Covers number arrivals q.next := by
        intro m le
        rcases lt_or_eq_of_le le with before | same
        · exact draining.1.below m before
        · exact same ▸ ((draining.2 q.next).mp inHeld).1
      have closed : ClosedBy number arrivals a := by
        refine ⟨arrivals, ?_, ?_⟩
        · rw [awaited]
          exact closes q.next above covers
        · rw [awaited]
          exact resolved.kept m q.next a waiting atNext
      have erased : Resolved number consume arrivals start { q with waiting := some (m.erase q.next) } := by
        refine ⟨fun m' k b left atKey => ?_, resolved.delivered⟩
        cases Option.some.inj left
        by_cases same : k = q.next
        · subst same
          simp at atKey
        · rw [Finmap.lookup_erase_ne same] at atKey
          exact resolved.kept m k b waiting atKey
      refine ih after (erased.deliver closed) ?_
      have further : gap < q.next + 1 := (Word.lt_succ_iff room).mpr above
      exact further.le

theorem Resolved.accept {a : α} {free : UInt64} (resolved : Resolved number consume arrivals start q)
    (settled : Settled number consume {b | b ∈ arrivals} start q)
    (absent : free ∉ number '' {b | b ∈ arrivals ++ [a]}) :
    Resolved number consume (arrivals ++ [a]) start (accept number consume a q) := by
  have items : {b | b ∈ arrivals ++ [a]} = insert a {b | b ∈ arrivals} := by
    ext b
    simp [or_comm]
  unfold Resequencer.accept
  split
  · rename_i old
    refine resolved.concat fun kept => ?_
    exact absurd ((settled.2.2 _).mp kept).2 old.le.not_gt
  · rename_i notOld
    split
    · exact resolved.hold
    · rename_i notLater
      have awaited : number a = q.next := le_antisymm (not_lt.mp notLater) (not_lt.mp notOld)
      have missing : ∀ b ∈ arrivals, number b ≠ q.next := fun b member same => settled.2.1 ⟨b, member, same⟩
      have more := resolved.concat (a := a) fun kept =>
        absurd ((settled.2.2 _).mp kept).2 awaited.le.not_gt
      have covers : Covers number (arrivals ++ [a]) q.next := by
        intro m le
        rcases lt_or_eq_of_le le with before | rfl
        · obtain ⟨b, member, same⟩ := settled.1.below m before
          exact ⟨b, List.mem_append_left _ member, same⟩
        · exact ⟨a, List.mem_append_right _ (List.mem_singleton_self a), awaited⟩
      have closed : ClosedBy number (arrivals ++ [a]) a := by
        refine ⟨arrivals ++ [a], ?_, by rw [lastNumbered_concat, if_pos rfl]⟩
        exact closing_concat missing awaited.ge (awaited ▸ covers)
      have draining := settled.deliver awaited (items ▸ absent)
      rw [← items] at draining
      have room : q.next < free := by
        refine lt_of_le_of_ne (Tracks.next_le settled.1 fun ⟨b, member, same⟩ =>
          absent ⟨b, List.mem_append_left _ member, same⟩) ?_
        rintro rfl
        exact absent ⟨a, List.mem_append_right _ (List.mem_singleton_self a), awaited⟩
      refine Resolved.drain _ (fun k above all => closing_concat missing above all) absent draining
        (more.deliver closed) ?_
      exact ((Word.lt_succ_iff room).mpr le_rfl).le

theorem run_resolved {free : UInt64} (absent : ∀ a ∈ arrivals, number a ≠ free) :
    Resolved number consume arrivals start (run number consume arrivals (initial start)) := by
  induction arrivals using List.reverseRecOn with
  | nil => exact ⟨fun m k a waiting => by simp [run, initial] at waiting, [], rfl, by simp⟩
  | append_singleton earlier a ih =>
    have before : ∀ b ∈ earlier, number b ≠ free := fun b member => absent b (List.mem_append_left _ member)
    have left : free ∉ number '' {b | b ∈ earlier ++ [a]} := by
      rintro ⟨b, member, same⟩
      exact absent b member same
    rw [run_concat]
    exact (ih before).accept (run_settled before) left

/-- Items that share a number are resolved in favour of the first one exactly if, whenever
a number is closed, the last item with it was also the first. -/
theorem first_delivered_iff {order : List α} (settled : Settled number consume {a | a ∈ arrivals} start q)
    (numbers : order.map (fun a => (number a).toNat) = List.range q.next.toNat)
    (closedBy : ∀ a ∈ order, ClosedBy number arrivals a) :
    (∀ a ∈ order, firstNumbered number arrivals (number a) = some a) ↔
      ∀ k closed, Closing number arrivals k closed →
        lastNumbered number closed k = firstNumbered number arrivals k := by
  constructor
  · intro first k before closing
    have reached : k < q.next := by
      by_contra beyond
      obtain ⟨a, member, same⟩ := closing.covers q.next (not_lt.mp beyond)
      exact settled.2.1 ⟨a, closing.part.subset member, same⟩
    have inRange : k.toNat ∈ order.map fun a => (number a).toNat := by
      rw [numbers, List.mem_range]
      exact UInt64.lt_iff_toNat_lt.mp reached
    obtain ⟨a, member, same⟩ := List.mem_map.mp inRange
    cases UInt64.toNat_inj.mp same
    obtain ⟨before', closing', last⟩ := closedBy a member
    rw [closing.unique closing', last, first a member]
  · intro resolved a member
    obtain ⟨before, closing, last⟩ := closedBy a member
    rw [← resolved _ before closing, last]

end Resequencer
