import Mathlib

/-- Core decides `≤` on 64-bit words but leaves the Mathlib hierarchy out. -/
instance uint64LinearOrder : LinearOrder UInt64 where
  le_refl := UInt64.le_refl
  le_trans _ _ _ := UInt64.le_trans
  lt_iff_le_not_ge a b := by
    rw [UInt64.lt_iff_toNat_lt, UInt64.le_iff_toNat_le, UInt64.le_iff_toNat_le]
    omega
  le_antisymm _ _ := UInt64.le_antisymm
  le_total := UInt64.le_total
  toDecidableLE := inferInstance
  toDecidableLT := inferInstance
  toDecidableEq := inferInstance
  min_def _ _ := rfl
  max_def _ _ := rfl
  compare_eq_compareOfLessAndEq _ _ := rfl

namespace Word

theorem zero_le (a : UInt64) : 0 ≤ a :=
  UInt64.le_iff_toNat_le.mpr (Nat.zero_le _)

/-- The largest word, the source's `u64::MAX`. -/
def max : UInt64 := 18446744073709551615

/-- A word that some word exceeds does not wrap on its successor. -/
theorem toNat_succ {a b : UInt64} (below : a < b) : (a + 1).toNat = a.toNat + 1 := by
  have room := UInt64.lt_iff_toNat_lt.mp below
  have bound := b.toNat_lt
  rw [UInt64.toNat_add, UInt64.toNat_one]
  omega

theorem lt_succ_iff {a b m : UInt64} (below : a < b) : m < a + 1 ↔ m ≤ a := by
  rw [UInt64.lt_iff_toNat_lt, UInt64.le_iff_toNat_le, toNat_succ below]
  omega

theorem succ_le_iff {a b m : UInt64} (below : a < b) : a + 1 ≤ m ↔ a < m := by
  rw [UInt64.lt_iff_toNat_lt, UInt64.le_iff_toNat_le, toNat_succ below]
  omega

/-- Also past the last word, where the successor is zero. -/
theorem le_of_lt_succ {a m : UInt64} (below : m < a + 1) : m ≤ a := by
  rw [UInt64.lt_iff_toNat_lt, UInt64.toNat_add, UInt64.toNat_one] at below
  rw [UInt64.le_iff_toNat_le]
  omega

theorem lt_succ_or_last (a : UInt64) : a < a + 1 ∨ ∀ m, m ≤ a := by
  by_cases room : a.toNat + 1 < 2 ^ 64
  · left
    rw [UInt64.lt_iff_toNat_lt, UInt64.toNat_add, UInt64.toNat_one]
    omega
  · right
    intro m
    have bound := m.toNat_lt
    rw [UInt64.le_iff_toNat_le]
    omega

/-- Fewer than `2 ^ 64` words leave one out. -/
theorem exists_not_mem_of_length {words : List UInt64} (short : words.length < 2 ^ 64) :
    ∃ m, m ∉ words := by
  by_contra full
  push Not at full
  have all : (Finset.univ : Finset UInt64) ⊆ words.toFinset :=
    fun m _ => List.mem_toFinset.mpr (full m)
  have count := (Finset.card_le_card all).trans (List.toFinset_card_le words)
  have card : (Finset.univ : Finset UInt64).card = 2 ^ 64 := by
    rw [Finset.card_univ, ← FinEnum.card_eq_fintypeCard, FinEnum.card_UInt64]
  omega

/-- Counting to at most `2 ^ 64` does not wrap. -/
theorem map_toNat_range {n : Nat} (bound : n ≤ 2 ^ 64) :
    ((List.range n).map UInt64.ofNat).map UInt64.toNat = List.range n := by
  rw [List.map_map]
  refine (List.map_congr_left fun m below => ?_).trans (List.map_id _)
  rw [List.mem_range] at below
  exact UInt64.toNat_ofNat_of_lt' (below.trans_le bound)

/-- The little-endian bytes of a word, as `to_le_bytes` lays them out. -/
def toLeBytes (a : UInt64) : List UInt8 :=
  (List.range 8).map fun i => (a >>> (8 * i).toUInt64).toUInt8

theorem length_toLeBytes (a : UInt64) : (toLeBytes a).length = 8 := by
  rw [toLeBytes, List.length_map, List.length_range]

/-- The byte of a word at one position. -/
theorem toNat_byte (a : UInt64) {i : Nat} (inside : i < 8) :
    (a >>> (8 * i).toUInt64).toUInt8.toNat = a.toNat / 2 ^ (8 * i) % 256 := by
  have shift : ((8 * i).toUInt64).toNat % 64 = 8 * i := by
    rw [Nat.toUInt64, UInt64.toNat_ofNat']
    omega
  rw [UInt64.toNat_toUInt8, UInt64.toNat_shiftRight, shift, Nat.shiftRight_eq_div_pow]

/-- The eight bytes determine the word. -/
theorem toLeBytes_injective : Function.Injective toLeBytes := by
  intro a b same
  have bytes : ∀ i < 8, a.toNat / 2 ^ (8 * i) % 256 = b.toNat / 2 ^ (8 * i) % 256 := by
    intro i inside
    have byte := List.map_inj_left.mp same i (List.mem_range.mpr inside)
    rw [← toNat_byte a inside, ← toNat_byte b inside, byte]
  have boundA := a.toNat_lt
  have boundB := b.toNat_lt
  have b0 := bytes 0 (by omega)
  have b1 := bytes 1 (by omega)
  have b2 := bytes 2 (by omega)
  have b3 := bytes 3 (by omega)
  have b4 := bytes 4 (by omega)
  have b5 := bytes 5 (by omega)
  have b6 := bytes 6 (by omega)
  have b7 := bytes 7 (by omega)
  refine UInt64.toNat_inj.mp ?_
  norm_num at b0 b1 b2 b3 b4 b5 b6 b7
  omega

end Word
