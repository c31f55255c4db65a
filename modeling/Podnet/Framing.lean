import Mathlib

namespace Framing

/-- The four little-endian bytes of a length, as the cast to 32 bits leaves it. -/
def lengthBytes (n : Nat) : List UInt8 :=
  [UInt8.ofNat n, UInt8.ofNat (n / 256), UInt8.ofNat (n / 65536), UInt8.ofNat (n / 16777216)]

/-- The length that four bytes spell in place. -/
def lengthAt (bytes : List UInt8) (i : Nat) : Nat :=
  (bytes.getD i 0).toNat + 256 * (bytes.getD (i + 1) 0).toNat +
    65536 * (bytes.getD (i + 2) 0).toNat + 16777216 * (bytes.getD (i + 3) 0).toNat

/-- A payload behind its length. -/
def frame (payload : List UInt8) : List UInt8 :=
  lengthBytes payload.length ++ payload

theorem length_lengthBytes (n : Nat) : (lengthBytes n).length = 4 := rfl

theorem length_frame (payload : List UInt8) : (frame payload).length = payload.length + 4 := by
  rw [frame, List.length_append, length_lengthBytes]
  omega

theorem lengthAt_lengthBytes {n : Nat} (short : n < 2 ^ 32) (rest : List UInt8) :
    lengthAt (lengthBytes n ++ rest) 0 = n := by
  simp only [lengthAt, lengthBytes, List.cons_append, List.getD_cons_zero, List.getD_cons_succ,
    UInt8.toNat_ofNat']
  omega

theorem lengthAt_frame {payload : List UInt8} (short : payload.length < 2 ^ 32)
    (rest : List UInt8) : lengthAt (frame payload ++ rest) 0 = payload.length := by
  rw [frame, List.append_assoc, lengthAt_lengthBytes short]

/-- Reading in place is reading at the start of what is left. -/
theorem lengthAt_drop (bytes : List UInt8) (i : Nat) : lengthAt bytes i = lengthAt (bytes.drop i) 0 := by
  simp only [lengthAt, List.getD_eq_getElem?_getD, List.getElem?_drop, Nat.add_zero, Nat.zero_add]

/-- The length is readable as soon as its four bytes are there. -/
theorem lengthAt_torn {torn payload : List UInt8} (short : payload.length < 2 ^ 32)
    (part : torn <+: frame payload) (enough : 4 ≤ torn.length) :
    lengthAt torn 0 = payload.length := by
  obtain ⟨rest, whole⟩ := part
  have same : lengthAt (torn ++ rest) 0 = lengthAt torn 0 := by
    simp only [lengthAt, List.getD_eq_getElem?_getD]
    rw [List.getElem?_append_left (by omega), List.getElem?_append_left (by omega),
      List.getElem?_append_left (by omega), List.getElem?_append_left (by omega)]
  rw [← same, whole, ← List.append_nil (frame payload), lengthAt_frame short]

theorem lengthAt_lt (bytes : List UInt8) (i : Nat) : lengthAt bytes i < 2 ^ 32 := by
  have b0 := (bytes.getD i 0).toNat_lt
  have b1 := (bytes.getD (i + 1) 0).toNat_lt
  have b2 := (bytes.getD (i + 2) 0).toNat_lt
  have b3 := (bytes.getD (i + 3) 0).toNat_lt
  unfold lengthAt
  omega

/-- Any four bytes are the bytes of the length they spell. -/
theorem lengthBytes_lengthAt {bytes : List UInt8} (enough : 4 ≤ bytes.length) :
    lengthBytes (lengthAt bytes 0) = bytes.take 4 := by
  obtain ⟨a, b, c, d, rest, rfl⟩ : ∃ a b c d rest, bytes = a :: b :: c :: d :: rest := by
    match bytes, enough with
    | a :: b :: c :: d :: rest, _ => exact ⟨a, b, c, d, rest, rfl⟩
  have boundA := a.toNat_lt
  have boundB := b.toNat_lt
  have boundC := c.toNat_lt
  have boundD := d.toNat_lt
  simp only [lengthAt, lengthBytes, List.getD_cons_zero, List.getD_cons_succ, Nat.zero_add,
    List.take_succ_cons, List.take_zero, List.cons.injEq, ← UInt8.toNat_inj, UInt8.toNat_ofNat', and_true]
  omega

/-- The bytes begin with a whole frame. -/
def StartsWhole (bytes : List UInt8) : Prop := 4 ≤ bytes.length ∧ lengthAt bytes 0 + 4 ≤ bytes.length

instance (bytes : List UInt8) : Decidable (StartsWhole bytes) :=
  inferInstanceAs (Decidable (_ ∧ _))

theorem startsWhole_iff {bytes : List UInt8} : StartsWhole bytes ↔
    ∃ payload rest, payload.length < 2 ^ 32 ∧ bytes = frame payload ++ rest := by
  constructor
  · rintro ⟨prefixed, whole⟩
    have size : ((bytes.drop 4).take (lengthAt bytes 0)).length = lengthAt bytes 0 := by
      rw [List.length_take, List.length_drop]
      omega
    refine ⟨(bytes.drop 4).take (lengthAt bytes 0), (bytes.drop 4).drop (lengthAt bytes 0), ?_, ?_⟩
    · rw [size]
      exact lengthAt_lt bytes 0
    · rw [frame, size, lengthBytes_lengthAt prefixed, List.append_assoc, List.take_append_drop,
        List.take_append_drop]
  · rintro ⟨payload, rest, short, rfl⟩
    have length := length_frame payload
    rw [StartsWhole, lengthAt_frame short, List.length_append]
    omega

/-- A proper beginning of a frame is not a whole one. -/
theorem not_startsWhole_torn {torn payload : List UInt8} (short : payload.length < 2 ^ 32)
    (part : torn <+: frame payload) (proper : torn.length < (frame payload).length) :
    ¬ StartsWhole torn := by
  rintro ⟨enough, whole⟩
  rw [lengthAt_torn short part enough] at whole
  rw [length_frame] at proper
  omega

/-- Every byte string is a sequence of frames and a rest that does not begin with one. -/
theorem exists_frames (bytes : List UInt8) : ∃ (payloads : List (List UInt8)) (torn : List UInt8),
    (∀ payload ∈ payloads, payload.length < 2 ^ 32) ∧ bytes = (payloads.map frame).flatten ++ torn ∧
      ¬ StartsWhole torn := by
  induction size : bytes.length using Nat.strong_induction_on generalizing bytes with
  | _ n ih =>
    by_cases whole : StartsWhole bytes
    · obtain ⟨payload, rest, short, rfl⟩ := startsWhole_iff.mp whole
      have shorter : rest.length < n := by
        rw [← size, List.length_append, length_frame]
        omega
      obtain ⟨payloads, torn, shorts, split, stop⟩ := ih rest.length shorter rest rfl
      refine ⟨payload :: payloads, torn, List.forall_mem_cons.mpr ⟨short, shorts⟩, ?_, stop⟩
      rw [split, List.map_cons, List.flatten_cons, List.append_assoc]
    · exact ⟨[], bytes, by simp, rfl, whole⟩

/-- Each frame takes at least the bytes of its length. -/
theorem length_le_flatten (payloads : List (List UInt8)) :
    4 * payloads.length ≤ (payloads.map frame).flatten.length := by
  induction payloads with
  | nil => rfl
  | cons payload payloads ih =>
    rw [List.map_cons, List.flatten_cons, List.length_append, List.length_cons, length_frame]
    omega

end Framing
