import Mathlib

namespace Proto3

/-- At most `fuel` groups of seven bits, lowest first; every byte but the last
has its high bit set. -/
def encodeVarint : Nat → Nat → List UInt8
  | 0, _ => []
  | fuel + 1, v =>
    if v < 128 then [UInt8.ofNat v]
    else UInt8.ofNat (v % 128 + 128) :: encodeVarint fuel (v / 128)

/-- Ten bytes carry a 64-bit value, the last of them one bit. -/
def decodeVarint : Nat → List UInt8 → Option (Nat × List UInt8)
  | 0, _ => none
  | _ + 1, [] => none
  | fuel + 1, b :: rest =>
    if b.toNat < 128 then
      if fuel = 0 ∧ 2 ≤ b.toNat then none else some (b.toNat, rest)
    else
      match decodeVarint fuel rest with
      | none => none
      | some (v, rest) => some (b.toNat - 128 + 128 * v, rest)

def varint (v : Nat) : List UInt8 := encodeVarint 10 v

theorem decodeVarint_encodeVarint {fuel v : Nat} (bound : v < 2 * 128 ^ fuel) (rest : List UInt8) :
    decodeVarint (fuel + 1) (encodeVarint (fuel + 1) v ++ rest) = some (v, rest) := by
  induction fuel generalizing v with
  | zero =>
    have small : v < 2 := by simpa using bound
    have byte : (UInt8.ofNat v).toNat = v := by
      rw [UInt8.toNat_ofNat']
      omega
    simp only [encodeVarint, if_pos (show v < 128 by omega), List.cons_append, List.nil_append,
      decodeVarint, byte]
    simp [small]
  | succ fuel ih =>
    rw [encodeVarint]
    split
    · rename_i small
      have byte : (UInt8.ofNat v).toNat = v := by
        rw [UInt8.toNat_ofNat']
        omega
      simp only [List.cons_append, List.nil_append, decodeVarint, byte, small, if_true]
      simp
    · rename_i large
      have byte : (UInt8.ofNat (v % 128 + 128)).toNat = v % 128 + 128 := by
        rw [UInt8.toNat_ofNat']
        omega
      have lower : v / 128 < 2 * 128 ^ fuel := by
        rw [Nat.div_lt_iff_lt_mul (by norm_num)]
        calc v < 2 * 128 ^ (fuel + 1) := bound
          _ = 2 * 128 ^ fuel * 128 := by ring
      simp only [List.cons_append, decodeVarint, byte, ih lower]
      rw [if_neg (by omega)]
      simp only [Option.some.injEq, Prod.mk.injEq, and_true]
      omega

theorem decodeVarint_varint {v : Nat} (bound : v < 2 ^ 64) (rest : List UInt8) :
    decodeVarint 10 (varint v ++ rest) = some (v, rest) :=
  decodeVarint_encodeVarint (by norm_num; omega) rest

theorem length_encodeVarint (fuel v : Nat) : (encodeVarint fuel v).length ≤ fuel := by
  induction fuel generalizing v with
  | zero => rfl
  | succ fuel ih =>
    rw [encodeVarint]
    split
    · simp
    · have shorter := ih (v / 128)
      rw [List.length_cons]
      omega

theorem encodeVarint_ne_nil (fuel v : Nat) : encodeVarint (fuel + 1) v ≠ [] := by
  rw [encodeVarint]
  split <;> simp

/-- A field on the wire. A group is never written and is skipped as a whole. -/
inductive Value where
  | varint (v : Nat)
  | fixed64 (bytes : List UInt8)
  | bytes (payload : List UInt8)
  | group
  | fixed32 (bytes : List UInt8)
  deriving DecidableEq, Repr

abbrev Field := Nat × Value

def Value.wireType : Value → Nat
  | varint _ => 0
  | fixed64 _ => 1
  | bytes _ => 2
  | group => 3
  | fixed32 _ => 5

def Value.encode : Value → List UInt8
  | varint v => Proto3.varint v
  | fixed64 data => data
  | bytes payload => Proto3.varint payload.length ++ payload
  | group => []
  | fixed32 data => data

def encodeField (field : Field) : List UInt8 :=
  varint (field.1 * 8 + field.2.wireType) ++ field.2.encode

def takeBytes (n : Nat) (input : List UInt8) : Option (List UInt8 × List UInt8) :=
  if n ≤ input.length then some (input.take n, input.drop n) else none

/-- A key is a 32-bit number, and no field has the number zero. -/
def decodeKey (input : List UInt8) : Option ((Nat × Nat) × List UInt8) :=
  (decodeVarint 10 input).bind fun (key, rest) =>
    if key < 2 ^ 32 ∧ key / 8 ≠ 0 then some ((key / 8, key % 8), rest) else none

/-- The value of a field that is no group. -/
def decodeScalar (wireType : Nat) (input : List UInt8) : Option (Value × List UInt8) :=
  match wireType with
  | 0 => (decodeVarint 10 input).map fun (v, rest) => (.varint v, rest)
  | 1 => (takeBytes 8 input).map fun (data, rest) => (.fixed64 data, rest)
  | 2 => (decodeVarint 10 input).bind fun (len, rest) =>
      (takeBytes len rest).map fun (payload, rest) => (.bytes payload, rest)
  | 5 => (takeBytes 4 input).map fun (data, rest) => (.fixed32 data, rest)
  | _ => none

/-- What follows the group of a number, up to its end key. Fields inside it may be groups
again as long as the recursion limit allows. Every field takes a byte, which bounds the
loop. -/
def skipGroup : Nat → Nat → Nat → List UInt8 → Option (List UInt8)
  | 0, _, _, _ => none
  | fuel + 1, depth, number, input =>
    (decodeKey input).bind fun ((inner, wireType), rest) =>
      if wireType = 4 then if inner = number then some rest else none
      else if depth ≤ 1 then none
      else if wireType = 3 then
        (skipGroup fuel (depth - 1) inner rest).bind (skipGroup fuel depth number)
      else (decodeScalar wireType rest).bind fun (_, rest) => skipGroup fuel depth number rest

section Depth

variable (depth : Nat)

def decodeValue (number wireType : Nat) (input : List UInt8) : Option (Value × List UInt8) :=
  if wireType = 3 then (skipGroup input.length depth number input).map fun rest => (.group, rest)
  else decodeScalar wireType input

def decodeField (input : List UInt8) : Option (Field × List UInt8) :=
  (decodeKey input).bind fun ((number, wireType), rest) =>
    (decodeValue depth number wireType rest).map fun (value, rest) => ((number, value), rest)

def decodeFields : Nat → List UInt8 → Option (List Field)
  | _, [] => some []
  | 0, _ :: _ => none
  | fuel + 1, b :: bs =>
    (decodeField depth (b :: bs)).bind fun (field, rest) =>
      (decodeFields fuel rest).map (field :: ·)

/-- What the wire can carry. -/
def Value.Fits : Value → Prop
  | varint v => v < 2 ^ 64
  | fixed64 data => data.length = 8
  | bytes payload => payload.length < 2 ^ 64
  | group => False
  | fixed32 data => data.length = 4

def FieldFits (field : Field) : Prop :=
  0 < field.1 ∧ field.1 < 2 ^ 29 ∧ field.2.Fits

theorem takeBytes_append (data rest : List UInt8) :
    takeBytes data.length (data ++ rest) = some (data, rest) := by
  rw [takeBytes, if_pos (by simp), List.take_left, List.drop_left]

theorem decodeValue_encode {value : Value} (number : Nat) (fits : value.Fits) (rest : List UInt8) :
    decodeValue depth number value.wireType (value.encode ++ rest) = some (value, rest) := by
  cases value with
  | varint v => simp [Value.wireType, Value.encode, decodeValue, decodeScalar, decodeVarint_varint fits]
  | fixed64 data =>
    have size : data.length = 8 := fits
    simp [Value.wireType, Value.encode, decodeValue, decodeScalar, ← size, takeBytes_append]
  | bytes payload =>
    simp [Value.wireType, Value.encode, decodeValue, decodeScalar, List.append_assoc,
      decodeVarint_varint (show payload.length < 2 ^ 64 from fits), takeBytes_append]
  | group => exact fits.elim
  | fixed32 data =>
    have size : data.length = 4 := fits
    simp [Value.wireType, Value.encode, decodeValue, decodeScalar, ← size, takeBytes_append]

theorem decodeField_encodeField {field : Field} (fits : FieldFits field) (rest : List UInt8) :
    decodeField depth (encodeField field ++ rest) = some (field, rest) := by
  obtain ⟨positive, small, valid⟩ := fits
  have wire : field.2.wireType < 8 := by
    cases field.2 <;> simp [Value.wireType]
  have number : (field.1 * 8 + field.2.wireType) / 8 = field.1 := by omega
  have kind : (field.1 * 8 + field.2.wireType) % 8 = field.2.wireType := by omega
  have key : decodeKey (varint (field.1 * 8 + field.2.wireType) ++ (field.2.encode ++ rest)) =
      some ((field.1, field.2.wireType), field.2.encode ++ rest) := by
    rw [decodeKey, decodeVarint_varint (by omega), Option.bind_some]
    dsimp only
    rw [if_pos ⟨by omega, by omega⟩, kind, number]
  rw [decodeField, encodeField, List.append_assoc, key, Option.bind_some]
  dsimp only
  rw [decodeValue_encode depth field.1 valid, Option.map_some]

theorem decodeFields_encode {fields : List Field} (fits : ∀ field ∈ fields, FieldFits field)
    {fuel : Nat} (enough : fields.length ≤ fuel) :
    decodeFields depth fuel (fields.flatMap encodeField) = some fields := by
  induction fields generalizing fuel with
  | nil =>
    cases fuel <;> rfl
  | cons field fields ih =>
    obtain ⟨own, others⟩ := List.forall_mem_cons.mp fits
    cases fuel with
    | zero => simp at enough
    | succ fuel =>
      have nonempty : ∃ b bs, (field :: fields).flatMap encodeField = b :: bs := by
        rw [← List.ne_nil_iff_exists_cons, List.flatMap_cons, encodeField]
        simp [varint, encodeVarint_ne_nil]
      obtain ⟨b, bs, cons⟩ := nonempty
      have first := decodeField_encodeField depth own (fields.flatMap encodeField)
      rw [← List.flatMap_cons, cons] at first
      rw [cons, decodeFields, first, Option.bind_some]
      dsimp only
      rw [ih others (by simpa using enough), Option.map_some]

end Depth

/-- Every field takes a byte, so the input bounds the number of fields. -/
theorem length_le_encode (fields : List Field) : fields.length ≤ (fields.flatMap encodeField).length := by
  induction fields with
  | nil => simp
  | cons field fields ih =>
    have key : 0 < (varint (field.1 * 8 + field.2.wireType)).length :=
      List.length_pos_of_ne_nil (encodeVarint_ne_nil _ _)
    rw [List.flatMap_cons, List.length_append, encodeField, List.length_append, List.length_cons]
    omega

theorem length_encodeField_le (field : Field) :
    (encodeField field).length ≤ 10 + field.2.encode.length := by
  have key := length_encodeVarint 10 (field.1 * 8 + field.2.wireType)
  rw [encodeField, List.length_append, varint]
  omega

theorem length_payload_le {fields : List Field} {tag : Nat} {payload : List UInt8}
    (member : (tag, .bytes payload) ∈ fields) :
    payload.length ≤ (fields.flatMap encodeField).length := by
  obtain ⟨before, after, split⟩ := List.append_of_mem member
  rw [split, List.flatMap_append, List.flatMap_cons, encodeField, Value.encode]
  simp only [List.length_append]
  omega

/-- A field that fits as soon as its payload is not too long. -/
def Shaped (field : Field) : Prop :=
  0 < field.1 ∧ field.1 < 2 ^ 29 ∧
    match field.2 with
    | .bytes _ => True
    | value => value.Fits

/-- The fields of a whole message, in which groups may be nested up to a depth. -/
def parse (depth : Nat) (input : List UInt8) : Option (List Field) := decodeFields depth input.length input

example : parse 100 [51, 52, 8, 9] = some [(6, .group), (1, .varint 9)] := by decide

/-- What was encoded is read back. -/
theorem parse_encode (depth : Nat) {fields : List Field} (fits : ∀ field ∈ fields, FieldFits field) :
    parse depth (fields.flatMap encodeField) = some fields :=
  decodeFields_encode depth fits (length_le_encode fields)

/-- A message of an ordinary size is read back. -/
theorem parse_encode_short (depth : Nat) {fields : List Field} (shaped : ∀ field ∈ fields, Shaped field)
    (short : (fields.flatMap encodeField).length < 2 ^ 64) :
    parse depth (fields.flatMap encodeField) = some fields := by
  refine parse_encode depth fun field member => ?_
  obtain ⟨positive, small, valid⟩ := shaped field member
  refine ⟨positive, small, ?_⟩
  obtain ⟨tag, value⟩ := field
  cases value with
  | varint v => exact valid
  | fixed64 data => exact valid
  | group => exact valid
  | fixed32 data => exact valid
  | bytes payload => exact (length_payload_le member).trans_lt short

/-- The default value of a number is left out. -/
def uint64Field (tag : Nat) (v : UInt64) : List Field :=
  if v = 0 then [] else [(tag, .varint v.toNat)]

/-- Empty bytes are left out. -/
def bytesField (tag : Nat) (payload : List UInt8) : List Field :=
  if payload = [] then [] else [(tag, .bytes payload)]

/-- An absent message is left out. -/
def messageField (tag : Nat) : Option (List UInt8) → List Field
  | none => []
  | some payload => [(tag, .bytes payload)]

section Fields

variable {tag : Nat} {v : UInt64} {payload : List UInt8} {message : Option (List UInt8)} {field : Field}

theorem shaped_uint64Field (positive : 0 < tag) (small : tag < 2 ^ 29)
    (member : field ∈ uint64Field tag v) : Shaped field := by
  rw [uint64Field] at member
  split at member
  · simp at member
  · rw [List.mem_singleton] at member
    subst member
    exact ⟨positive, small, v.toNat_lt⟩

theorem shaped_bytesField (positive : 0 < tag) (small : tag < 2 ^ 29)
    (member : field ∈ bytesField tag payload) : Shaped field := by
  rw [bytesField] at member
  split at member
  · simp at member
  · rw [List.mem_singleton] at member
    subst member
    exact ⟨positive, small, trivial⟩

theorem shaped_messageField (positive : 0 < tag) (small : tag < 2 ^ 29)
    (member : field ∈ messageField tag message) : Shaped field := by
  cases message with
  | none => simp [messageField] at member
  | some payload =>
    rw [messageField, List.mem_singleton] at member
    subst member
    exact ⟨positive, small, trivial⟩

variable {M : Type} {merge : M → Field → Option M} {m m' : M}

/-- Merging a field that may have been left out. -/
theorem foldlM_uint64Field (left : v = 0 → m' = m)
    (set : merge m (tag, .varint v.toNat) = some m') :
    (uint64Field tag v).foldlM merge m = some m' := by
  rw [uint64Field]
  split
  · rename_i zero
    rw [left zero]
    rfl
  · simp [set]

theorem foldlM_bytesField (left : payload = [] → m' = m)
    (set : merge m (tag, .bytes payload) = some m') :
    (bytesField tag payload).foldlM merge m = some m' := by
  rw [bytesField]
  split
  · rename_i empty
    rw [left empty]
    rfl
  · simp [set]

theorem foldlM_messageField (left : message = none → m' = m)
    (set : ∀ payload, message = some payload → merge m (tag, .bytes payload) = some m') :
    (messageField tag message).foldlM merge m = some m' := by
  cases message with
  | none =>
    rw [left rfl]
    rfl
  | some payload => simp [messageField, set payload rfl]

end Fields

section Sizes

variable (tag : Nat) (v : UInt64) (payload : List UInt8)

theorem length_uint64Field : ((uint64Field tag v).flatMap encodeField).length ≤ 20 := by
  rw [uint64Field]
  split
  · simp
  · have field := length_encodeField_le (tag, .varint v.toNat)
    have value := length_encodeVarint 10 v.toNat
    simp only [Value.encode, varint] at field
    rw [List.flatMap_cons, List.flatMap_nil, List.append_nil]
    omega

theorem length_bytesValue :
    (encodeField (tag, .bytes payload)).length ≤ payload.length + 20 := by
  have field := length_encodeField_le (tag, .bytes payload)
  have value := length_encodeVarint 10 payload.length
  simp only [Value.encode, varint, List.length_append] at field
  omega

theorem length_bytesField : ((bytesField tag payload).flatMap encodeField).length ≤ payload.length + 20 := by
  rw [bytesField]
  split
  · simp
  · rw [List.flatMap_cons, List.flatMap_nil, List.append_nil]
    exact length_bytesValue tag payload

theorem length_messageField (message : Option (List UInt8)) :
    ((messageField tag message).flatMap encodeField).length ≤ (message.getD []).length + 20 := by
  cases message with
  | none => simp [messageField]
  | some payload =>
    rw [messageField, List.flatMap_cons, List.flatMap_nil, List.append_nil]
    exact length_bytesValue tag payload

end Sizes

end Proto3
