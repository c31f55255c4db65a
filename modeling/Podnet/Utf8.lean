import Mathlib

namespace Utf8

/-- The bytes of a text. -/
def encode (text : String) : List UInt8 := text.toList.flatMap String.utf8EncodeChar

/-- The character at the beginning of bytes. -/
def char? (bytes : List UInt8) : Option Char := bytes.toByteArray.utf8DecodeChar? 0

/-- Whether a byte lies in a range. -/
def between (low high : Nat) (b : UInt8) : Bool := low ≤ b.toNat && b.toNat ≤ high

/-- How many bytes are replaced together where no character begins: the longest beginning of
a character, or one byte. -/
def broken : List UInt8 → Nat
  | first :: second :: rest =>
    if first = 0xE0 && between 0xA0 0xBF second || between 0xE1 0xEC first && between 0x80 0xBF second ||
        first = 0xED && between 0x80 0x9F second || between 0xEE 0xEF first && between 0x80 0xBF second then 2
    else if first = 0xF0 && between 0x90 0xBF second || between 0xF1 0xF3 first && between 0x80 0xBF second ||
        first = 0xF4 && between 0x80 0x8F second then
      match rest with
      | third :: _ => if between 0x80 0xBF third then 3 else 2
      | [] => 2
    else 1
  | _ => 1

def lossyChars : Nat → List UInt8 → List Char
  | _, [] | 0, _ :: _ => []
  | fuel + 1, b :: bs =>
    match char? (b :: bs) with
    | some c => c :: lossyChars fuel ((b :: bs).drop c.utf8Size)
    | none => Char.ofNat 0xFFFD :: lossyChars fuel ((b :: bs).drop (broken (b :: bs)))

/-- The text of bytes, with a replacement character for what is no character. -/
def lossy (bytes : List UInt8) : String := String.ofList (lossyChars bytes.length bytes)

variable {c : Char} {rest : List UInt8} {chars : List Char} {fuel : Nat}

theorem char?_encodeChar : char? (String.utf8EncodeChar c ++ rest) = some c := by
  rw [char?, List.toByteArray_append]
  exact ByteArray.utf8DecodeChar?_utf8EncodeChar_append

theorem lossyChars_encode (enough : (chars.flatMap String.utf8EncodeChar).length ≤ fuel) :
    lossyChars fuel (chars.flatMap String.utf8EncodeChar) = chars := by
  induction chars generalizing fuel with
  | nil => cases fuel <;> rfl
  | cons c chars ih =>
    have size : (String.utf8EncodeChar c).length = c.utf8Size := String.length_utf8EncodeChar c
    have positive : 0 < c.utf8Size := c.utf8Size_pos
    rw [List.flatMap_cons, List.length_append, size] at enough
    cases fuel with
    | zero => omega
    | succ fuel =>
      obtain ⟨b, bs, cons⟩ := List.exists_cons_of_ne_nil
        (show (c :: chars).flatMap String.utf8EncodeChar ≠ [] by simp [String.utf8EncodeChar_ne_nil])
      have first : char? (b :: bs) = some c := by
        rw [← cons, List.flatMap_cons]
        exact char?_encodeChar
      have others : (b :: bs).drop c.utf8Size = chars.flatMap String.utf8EncodeChar := by
        rw [← cons, List.flatMap_cons, ← size, List.drop_left]
      simp only [cons, lossyChars, first, others]
      rw [ih (by omega)]

/-- A text is read back from its bytes. -/
theorem lossy_encode (text : String) : lossy (encode text) = text := by
  rw [lossy, encode, lossyChars_encode le_rfl, String.ofList_toList]

/-- A character that breaks off, a letter, a surrogate. -/
example : lossy [0xF0, 0x9F, 0x98, 65, 0xED, 0xA0, 0x80] = "\uFFFDA\uFFFD\uFFFD\uFFFD" := by decide

end Utf8
