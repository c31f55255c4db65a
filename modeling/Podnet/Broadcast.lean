import Mathlib

namespace Broadcast

variable {α : Type}

/-- What a receiver finds when it asks for the next value. -/
inductive Received (α : Type) where
  | empty
  | lagged (missed : Nat)
  | value (a : α)
  deriving DecidableEq, Repr

/-- A new receiver starts behind everything that was sent. -/
def subscribe (sent : List α) : Nat := sent.length

/-- The next value of a receiver that has come to `position`. The channel keeps the
last `capacity` values. A receiver that has fallen behind them is told how many it
has missed and goes on at the oldest one that is kept. -/
def recv (capacity : Nat) (sent : List α) (position : Nat) : Received α × Nat :=
  match sent[position]? with
  | none => (.empty, position)
  | some a =>
    if capacity < sent.length - position then
      (.lagged (sent.length - position - capacity), sent.length - capacity)
    else (.value a, position + 1)

/-- The values that the channel still holds for a receiver that has come to `position`. -/
def kept (capacity : Nat) (sent : List α) (position : Nat) : List α :=
  sent.drop (max position (sent.length - capacity))

variable {capacity position position' start missed : Nat} {sent : List α} {a : α}

theorem recv_value (received : recv capacity sent position = (.value a, position')) :
    sent[position]? = some a ∧ position' = position + 1 ∧ sent.length - position ≤ capacity := by
  unfold recv at received
  split at received
  · simp at received
  · rename_i b found
    split at received
    · simp at received
    · rename_i room
      simp only [Prod.mk.injEq, Received.value.injEq] at received
      exact ⟨received.1 ▸ found, received.2.symm, by omega⟩

theorem recv_lagged (received : recv capacity sent position = (.lagged missed, position')) :
    capacity < sent.length - position ∧ position' = position + missed ∧ 0 < missed := by
  unfold recv at received
  split at received
  · simp at received
  · split at received
    · rename_i behind
      simp only [Prod.mk.injEq, Received.lagged.injEq] at received
      omega
    · simp at received

theorem recv_behind (behind : capacity < sent.length - position) :
    recv capacity sent position =
      (.lagged (sent.length - position - capacity), sent.length - capacity) := by
  have inside : position < sent.length := by omega
  rw [recv, List.getElem?_eq_getElem inside]
  exact if_pos behind

/-- A receiver that subscribed at `start`, stands at `position` and has missed
nothing in between. -/
structure Complete (sent : List α) (start position : Nat) (got : List α) : Prop where
  start_le : start ≤ position
  le_length : position ≤ sent.length
  got : got = (sent.take position).drop start

variable {got : List α}

theorem Complete.subscribe (sent : List α) : Complete sent (subscribe sent) (subscribe sent) [] :=
  ⟨le_rfl, le_rfl, by simp [Broadcast.subscribe]⟩

/-- What is sent later does not change what was received. -/
theorem Complete.send {sent' : List α} (complete : Complete sent start position got)
    (grows : sent <+: sent') : Complete sent' start position got := by
  obtain ⟨more, rfl⟩ := grows
  refine ⟨complete.start_le, ?_, ?_⟩
  · rw [List.length_append]
    exact complete.le_length.trans (Nat.le_add_right _ _)
  · rw [List.take_append_of_le_length complete.le_length, complete.got]

theorem Complete.receive (complete : Complete sent start position got)
    (found : sent[position]? = some a) : Complete sent start (position + 1) (got ++ [a]) := by
  obtain ⟨inside, _⟩ := List.getElem?_eq_some_iff.mp found
  have start_le := complete.start_le
  refine ⟨by omega, inside, ?_⟩
  rw [List.take_add_one, found, Option.toList_some, List.drop_append_of_le_length, complete.got]
  rw [List.length_take]
  omega

/-- What was received is a contiguous segment that begins at the subscription. -/
theorem Complete.prefix_drop (complete : Complete sent start position got) :
    got <+: sent.drop start := by
  rw [complete.got]
  exact (List.take_prefix _ _).drop _

/-- Every value since the subscription was received or is still to be received. -/
theorem Complete.mem (complete : Complete sent start position got) (later : a ∈ sent.drop start) :
    a ∈ got ∨ a ∈ sent.drop position := by
  have parts : sent.drop start = got ++ sent.drop position := by
    have cut := List.take_append_drop position sent
    have room : start ≤ (sent.take position).length := by
      rw [List.length_take, Nat.min_eq_left complete.le_length]
      exact complete.start_le
    rw [complete.got, ← List.drop_append_of_le_length room, cut]
  rwa [parts, List.mem_append] at later

/-- A receiver that has not fallen behind finds all that it has not received. -/
theorem kept_current (current : sent.length - position ≤ capacity) :
    kept capacity sent position = sent.drop position := by
  rw [kept, Nat.max_eq_left (by omega)]

/-- A receiver that has not received anything finds the last values sent. -/
theorem kept_behind (behind : capacity < sent.length - position) :
    kept capacity sent position = sent.drop (sent.length - capacity) := by
  rw [kept, Nat.max_eq_right (by omega)]

end Broadcast
