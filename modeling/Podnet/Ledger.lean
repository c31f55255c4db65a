import Mathlib

/-- Writers fill numbered slots, each at most once. Readers take the slots of every
writer in order. -/
@[ext]
structure Ledger (W R A : Type) where
  slot : W → Nat → Option A
  taken : R → W → Nat

namespace Ledger

section History

variable {W R A V : Type}

def initial : Ledger W R A := ⟨fun _ _ => none, fun _ _ => 0⟩

/-- What a reader has taken from a writer. -/
def history (l : Ledger W R A) (r : R) (w : W) : List A := (List.range (l.taken r w)).filterMap (l.slot w)

/-- What a reader makes of it. -/
def value (consume : A → V → V) (start : V) (l : Ledger W R A) (r : R) (w : W) : V :=
  (l.history r w).foldl (fun v a => consume a v) start

/-- What a run keeps: filled slots, and what was taken. -/
structure Extends (l l' : Ledger W R A) : Prop where
  slot : ∀ w n a, l.slot w n = some a → l'.slot w n = some a
  taken : ∀ r w, l.taken r w ≤ l'.taken r w

/-- Whatever was taken was there to be taken. -/
def Filled (l : Ledger W R A) : Prop := ∀ r w n, n < l.taken r w → (l.slot w n).isSome

variable {l l' : Ledger W R A} {r r' : R} {w : W}

theorem Extends.refl (l : Ledger W R A) : Extends l l := ⟨fun _ _ _ => id, fun _ _ => le_rfl⟩

theorem Extends.trans {l₁ l₂ l₃ : Ledger W R A} (first : Extends l₁ l₂) (second : Extends l₂ l₃) :
    Extends l₁ l₃ :=
  ⟨fun w n a filled => second.slot w n a (first.slot w n a filled),
    fun r w => (first.taken r w).trans (second.taken r w)⟩

theorem Filled.initial : Filled (initial : Ledger W R A) := fun _ _ n before => absurd before (Nat.not_lt_zero n)

/-- Slots that are filled later do not change what was taken. -/
theorem Filled.history_eq (filled : Filled l) (later : Extends l l') :
    (List.range (l.taken r w)).filterMap (l'.slot w) = l.history r w := by
  refine List.filterMap_congr fun n inside => ?_
  obtain ⟨a, atN⟩ := Option.isSome_iff_exists.mp (filled r w n (List.mem_range.mp inside))
  rw [atN, later.slot w n a atN]

theorem filterMap_range_mono (f : Nat → Option A) {n m : Nat} (shorter : n ≤ m) :
    (List.range n).filterMap f <+: (List.range m).filterMap f := by
  obtain ⟨more, rfl⟩ := Nat.exists_eq_add_of_le shorter
  rw [List.range_add, List.filterMap_append]
  exact List.prefix_append _ _

/-- Two readers of one writer at two times of a run: whoever has taken less has taken a
prefix of what the other has. -/
theorem Filled.history_prefix (filled : Filled l) (later : Extends l l') :
    (l.taken r w ≤ l'.taken r' w → l.history r w <+: l'.history r' w) ∧
      (l'.taken r' w ≤ l.taken r w → l'.history r' w <+: l.history r w) := by
  rw [← filled.history_eq later, history]
  exact ⟨filterMap_range_mono _, filterMap_range_mono _⟩

end History

section Steps

variable {W R A V : Type} [DecidableEq W] [DecidableEq R]

def write (w : W) (n : Nat) (a : A) (l : Ledger W R A) : Ledger W R A :=
  { l with slot := fun w' n' => if w' = w ∧ n' = n then some a else l.slot w' n' }

def take (r : R) (w : W) (l : Ledger W R A) : Ledger W R A :=
  { l with taken := fun r' w' => if r' = r ∧ w' = w then l.taken r w + 1 else l.taken r' w' }

/-- A writer fills an empty slot, or a reader takes the next one, which is filled. -/
inductive Step : Ledger W R A → Ledger W R A → Prop
  | write {l} (w : W) (n : Nat) (a : A) : l.slot w n = none → Step l (l.write w n a)
  | take {l} (r : R) (w : W) : (l.slot w (l.taken r w)).isSome → Step l (l.take r w)

abbrev Run : Ledger W R A → Ledger W R A → Prop := Relation.ReflTransGen Step

variable {l l' : Ledger W R A} {r r' : R} {w w' : W} {n : Nat} {a : A}

theorem Step.extends (step : Step l l') : Extends l l' := by
  cases step with
  | write w n a empty =>
    refine ⟨fun w' n' a' filled => ?_, fun _ _ => le_rfl⟩
    have other : ¬ (w' = w ∧ n' = n) := by
      rintro ⟨rfl, rfl⟩
      simp [empty] at filled
    simpa [Ledger.write, other] using filled
  | take r w filled =>
    refine ⟨fun _ _ _ => id, fun r' w' => ?_⟩
    simp only [Ledger.take]
    split
    · rename_i same
      rw [same.1, same.2]
      exact Nat.le_succ _
    · exact le_rfl

theorem Run.extends (run : Run l l') : Extends l l' := by
  induction run with
  | refl => exact .refl l
  | tail _ step ih => exact ih.trans step.extends

theorem Filled.step (filled : Filled l) (step : Step l l') : Filled l' := by
  have kept : ∀ w n, (l.slot w n).isSome → (l'.slot w n).isSome := by
    intro w n known
    obtain ⟨a, atN⟩ := Option.isSome_iff_exists.mp known
    rw [step.extends.slot w n a atN]
    rfl
  intro r w n before
  cases step with
  | write => exact kept w n (filled r w n before)
  | take r' w' next =>
    simp only [Ledger.take] at before
    split at before
    · rename_i same
      obtain ⟨rfl, rfl⟩ := same
      rcases Nat.lt_succ_iff_lt_or_eq.mp before with earlier | last
      · exact filled r w n earlier
      · exact last ▸ next
    · exact filled r w n before

theorem Run.filled (run : Run .initial l) : Filled l := by
  induction run with
  | refl => exact .initial
  | tail _ step ih => exact ih.step step

variable {consume : A → V → V} {start : V}

/-- A reader that takes one more slot consumes one more entry. -/
theorem value_take (next : l.slot w (l.taken r w) = some a) :
    (l.take r w).value consume start r w = consume a (l.value consume start r w) := by
  simp only [value, history, take, and_self, if_true]
  rw [List.range_succ, List.filterMap_append, List.filterMap_cons_some next, List.filterMap_nil,
    List.foldl_append]
  rfl

theorem value_take_other (other : ¬ (r' = r ∧ w' = w)) :
    (l.take r w).value consume start r' w' = l.value consume start r' w' := by
  simp only [value, history, take, other, if_false]

theorem Filled.value_write (filled : Filled l) (empty : l.slot w n = none) :
    (l.write w n a).value consume start r' w' = l.value consume start r' w' := by
  have later : Extends l (l.write w n a) := (Step.write w n a empty).extends
  rw [value, value, ← filled.history_eq later]
  rfl

end Steps

end Ledger
