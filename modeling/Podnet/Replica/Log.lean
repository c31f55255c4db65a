import Podnet.Framing

namespace Podnet

open Framing

/-- What the log relies on of the message library: `encode`, and `merge` into a
default value, which undoes it for messages of a size the log can frame. -/
structure Codec (T : Type) where
  encode : T → List UInt8
  merge : List UInt8 → Except String T
  merge_encode : ∀ entry, (encode entry).length < 2 ^ 32 → merge (encode entry) = .ok entry

/-- Encoding adds little to the bytes a message carries. -/
def Codec.Compact {T : Type} (codec : Codec T) (size : T → Nat) : Prop :=
  ∀ entry, (codec.encode entry).length ≤ size entry + 128

/-- The errors of `MmapLogIterator::next`. -/
inductive LogError where
  | lengthPrefix
  | entry
  | decode (e : String)
  deriving DecidableEq, Repr

def LogError.message : LogError → String
  | lengthPrefix => "not enough bytes for length prefix"
  | entry => "not enough bytes for entry"
  | decode e => "Failed to decode message: " ++ e

section Iterator

variable {T : Type} (codec : Codec T)

/-- The bytes `append` writes for an entry. -/
def logEntry (entry : T) : List UInt8 := frame (codec.encode entry)

/-- The bytes of complete records. -/
abbrev records (entries : List T) : List UInt8 := (entries.map (logEntry codec)).flatten

/-- A reader with the bytes it has mapped. The file size is the one that was
looked up before the mapping. -/
structure MmapLogIterator where
  mmap : List UInt8
  position : Nat
  fileSize : Nat

def getReplicaLogIterator (fileSize : Nat) (file : List UInt8) : MmapLogIterator :=
  ⟨file, 0, fileSize⟩

def MmapLogIterator.next (it : MmapLogIterator) : Option (Except LogError T) × MmapLogIterator :=
  if it.mmap.length ≤ it.position then (none, it)
  else if it.mmap.length < it.position + 4 then (some (.error .lengthPrefix), it)
  else
    let len := lengthAt it.mmap it.position
    if it.mmap.length < it.position + 4 + len then (some (.error .entry), it)
    else
      match codec.merge ((it.mmap.drop (it.position + 4)).take len) with
      | .ok entry => (some (.ok entry), { it with position := it.position + 4 + len })
      | .error e => (some (.error (.decode e)), { it with position := it.position + 4 + len })

/-- What `next` makes of the payload of a whole record. -/
def mergedRecord (payload : List UInt8) : Except LogError T :=
  match codec.merge payload with
  | .ok entry => .ok entry
  | .error e => .error (.decode e)

/-- What `next` returns in front of bytes that begin with no whole record. -/
def stopped (torn : List UInt8) : Option (Except LogError T) :=
  if torn = [] then none
  else if torn.length < 4 then some (.error .lengthPrefix)
  else some (.error .entry)

/-- The records of the catch-up loop, which stops at the end of the map or at the
first error. -/
def catchUpRecords : Nat → MmapLogIterator → List T
  | 0, _ => []
  | fuel + 1, it =>
    match it.next codec with
    | (some (.ok entry), it') => entry :: catchUpRecords fuel it'
    | _ => []

/-- Each record takes at least four bytes, so the length of the map bounds the
loop. -/
def historyRecords (file : List UInt8) : List T :=
  catchUpRecords codec (file.length + 1) (getReplicaLogIterator file.length file)

/-- What the first calls of `next` return. -/
def nextItems : Nat → MmapLogIterator → List (Option (Except LogError T))
  | 0, _ => []
  | n + 1, it => (it.next codec).1 :: nextItems n (it.next codec).2

/-- The records among the returned items. -/
def okItems (items : List (Option (Except LogError T))) : List T :=
  items.filterMap fun item =>
    match item with
    | some (.ok entry) => some entry
    | _ => none

/-- Look the size up again, and map the file anew if it has grown; by then it may
be larger still. -/
def MmapLogIterator.refresh (fileSize : Nat) (file : List UInt8) (it : MmapLogIterator) :
    MmapLogIterator :=
  let it' := if it.fileSize < fileSize then { it with mmap := file, fileSize := fileSize } else it
  { it' with position := min it.position it'.mmap.length }

end Iterator

section Reading

variable {T : Type} {codec : Codec T} {it : MmapLogIterator}

/-- In front of a whole record the iterator reads it, whether or not it decodes, and
moves behind it. -/
theorem next_frame {payload rest : List UInt8} (short : payload.length < 2 ^ 32)
    (left : it.mmap.drop it.position = frame payload ++ rest) :
    it.next codec =
      (some (mergedRecord codec payload), { it with position := it.position + (frame payload).length }) := by
  have size := congrArg List.length left
  rw [List.length_drop, List.length_append, length_frame] at size
  have len : lengthAt it.mmap it.position = payload.length := by
    rw [lengthAt_drop, left, lengthAt_frame short]
  have data : (it.mmap.drop (it.position + 4)).take payload.length = payload := by
    rw [← List.drop_drop, left, frame, List.append_assoc, List.drop_left' (length_lengthBytes _),
      List.take_left]
  have moved : it.position + 4 + payload.length = it.position + (frame payload).length := by
    rw [length_frame]
    omega
  unfold MmapLogIterator.next mergedRecord
  rw [if_neg (by omega), if_neg (by omega), len, if_neg (by omega), data, moved]
  cases codec.merge payload with
  | ok entry => rfl
  | error e => rfl

/-- In front of anything else it stays where it is and returns no record. -/
theorem next_stopped (codec : Codec T) (part : ¬ StartsWhole (it.mmap.drop it.position)) :
    it.next codec = (stopped (it.mmap.drop it.position), it) := by
  rw [StartsWhole, ← lengthAt_drop, List.length_drop] at part
  unfold MmapLogIterator.next stopped
  simp only [List.drop_eq_nil_iff, List.length_drop]
  split
  · rfl
  · rename_i inside
    by_cases short : it.mmap.length < it.position + 4
    · rw [if_pos short, if_pos (by omega)]
    · rw [if_neg short, if_pos (by omega), if_neg (by omega)]

theorem next_logEntry {entry : T} {rest : List UInt8} (short : (codec.encode entry).length < 2 ^ 32)
    (left : it.mmap.drop it.position = logEntry codec entry ++ rest) :
    it.next codec =
      (some (.ok entry), { it with position := it.position + (logEntry codec entry).length }) := by
  rw [next_frame short left, mergedRecord, codec.merge_encode entry short, logEntry]

/-- In front of a record whose bytes are not all there the iterator stays where it
is and returns no record. -/
theorem next_torn (codec : Codec T) {payload : List UInt8} (short : payload.length < 2 ^ 32)
    (part : it.mmap.drop it.position <+: frame payload)
    (proper : (it.mmap.drop it.position).length < (frame payload).length) :
    it.next codec = (none, it) ∨ it.next codec = (some (.error .lengthPrefix), it) ∨
      it.next codec = (some (.error .entry), it) := by
  rw [next_stopped codec (not_startsWhole_torn short part proper), stopped]
  split
  · exact Or.inl rfl
  · split
    · exact Or.inr (Or.inl rfl)
    · exact Or.inr (Or.inr rfl)

theorem next_end (left : it.mmap.drop it.position = []) : it.next codec = (none, it) := by
  rw [MmapLogIterator.next, if_pos (List.drop_eq_nil_iff.mp left)]

theorem catchUpRecords_torn {fuel : Nat} {payload : List UInt8} (short : payload.length < 2 ^ 32)
    (part : it.mmap.drop it.position <+: frame payload)
    (proper : (it.mmap.drop it.position).length < (frame payload).length) :
    catchUpRecords codec fuel it = [] := by
  cases fuel with
  | zero => rfl
  | succ fuel =>
    unfold catchUpRecords
    rcases next_torn codec short part proper with stop | stop | stop
    · rw [stop]
    · rw [stop]
    · rw [stop]

/-- What is left behind a record. -/
theorem drop_logEntry {entry : T} {rest : List UInt8}
    (left : it.mmap.drop it.position = logEntry codec entry ++ rest) :
    it.mmap.drop (it.position + (logEntry codec entry).length) = rest := by
  rw [← List.drop_drop, left, List.drop_left]

theorem catchUpRecords_entries {entries : List T} {torn payload : List UInt8} {fuel : Nat}
    (shortEntries : ∀ entry ∈ entries, (codec.encode entry).length < 2 ^ 32)
    (short : payload.length < 2 ^ 32) (part : torn <+: frame payload)
    (proper : torn.length < (frame payload).length)
    (left : it.mmap.drop it.position = (entries.map (logEntry codec)).flatten ++ torn)
    (enough : entries.length ≤ fuel) : catchUpRecords codec fuel it = entries := by
  induction entries generalizing it fuel with
  | nil =>
    rw [List.map_nil, List.flatten_nil, List.nil_append] at left
    exact catchUpRecords_torn short (left ▸ part) (left ▸ proper)
  | cons entry entries ih =>
    obtain ⟨own, others⟩ := List.forall_mem_cons.mp shortEntries
    rw [List.map_cons, List.flatten_cons, List.append_assoc] at left
    cases fuel with
    | zero => simp at enough
    | succ fuel =>
      unfold catchUpRecords
      rw [next_logEntry own left]
      exact congrArg (entry :: ·) (ih others (drop_logEntry left) (by simpa using enough))

/-- A file of complete records with the beginning of another one at its end
yields exactly the complete records. -/
theorem historyRecords_entries {entries : List T} {torn payload : List UInt8}
    (shortEntries : ∀ entry ∈ entries, (codec.encode entry).length < 2 ^ 32)
    (short : payload.length < 2 ^ 32) (part : torn <+: frame payload)
    (proper : torn.length < (frame payload).length) :
    historyRecords codec ((entries.map (logEntry codec)).flatten ++ torn) = entries := by
  have count : entries.length ≤ ((entries.map (logEntry codec)).flatten ++ torn).length + 1 := by
    have each : ∀ entries : List T, entries.length ≤ (entries.map (logEntry codec)).flatten.length := by
      intro entries
      induction entries with
      | nil => simp
      | cons entry entries ih =>
        rw [List.map_cons, List.flatten_cons, List.length_append, List.length_cons, logEntry,
          length_frame]
        omega
    have all := each entries
    rw [List.length_append]
    omega
  exact catchUpRecords_entries shortEntries short part proper rfl count

/-- Reading complete records to the end of the map and beyond. -/
theorem nextItems_entries {entries : List T} (k : Nat)
    (short : ∀ entry ∈ entries, (codec.encode entry).length < 2 ^ 32)
    (left : it.mmap.drop it.position = (entries.map (logEntry codec)).flatten) :
    nextItems codec (entries.length + k) it =
      entries.map (fun entry => some (.ok entry)) ++ List.replicate k none := by
  induction entries generalizing it with
  | nil =>
    rw [List.length_nil, Nat.zero_add, List.map_nil, List.nil_append]
    induction k with
    | zero => rfl
    | succ k ih => rw [nextItems, next_end left, ih, List.replicate_succ]
  | cons entry entries ih =>
    obtain ⟨own, others⟩ := List.forall_mem_cons.mp short
    rw [List.map_cons, List.flatten_cons] at left
    rw [List.length_cons, Nat.add_right_comm, nextItems, next_logEntry own left,
      ih others (drop_logEntry left), List.map_cons, List.cons_append]

/-- An iterator that neither moves nor returns a record never returns one. -/
theorem okItems_stuck (n : Nat) (stays : (it.next codec).2 = it)
    (nothing : ∀ entry, (it.next codec).1 ≠ some (.ok entry)) : okItems (nextItems codec n it) = [] := by
  induction n with
  | zero => rfl
  | succ n ih =>
    rw [nextItems, stays]
    cases item : (it.next codec).1 with
    | none => exact ih
    | some result =>
      cases result with
      | error e => exact ih
      | ok entry => exact absurd item (nothing entry)

theorem okItems_torn {payload : List UInt8} (n : Nat) (short : payload.length < 2 ^ 32)
    (part : it.mmap.drop it.position <+: frame payload)
    (proper : (it.mmap.drop it.position).length < (frame payload).length) :
    okItems (nextItems codec n it) = [] := by
  rcases next_torn codec short part proper with stop | stop | stop
  · exact okItems_stuck n (by rw [stop]) (by simp [stop])
  · exact okItems_stuck n (by rw [stop]) (by simp [stop])
  · exact okItems_stuck n (by rw [stop]) (by simp [stop])

/-- Complete records in front of the beginning of another one are read one by one,
and nothing else is. -/
theorem okItems_entries {entries : List T} {torn payload : List UInt8} (n : Nat)
    (shortEntries : ∀ entry ∈ entries, (codec.encode entry).length < 2 ^ 32)
    (short : payload.length < 2 ^ 32) (part : torn <+: frame payload)
    (proper : torn.length < (frame payload).length)
    (left : it.mmap.drop it.position = (entries.map (logEntry codec)).flatten ++ torn) :
    okItems (nextItems codec n it) = entries.take n := by
  induction entries generalizing it n with
  | nil =>
    rw [List.map_nil, List.flatten_nil, List.nil_append] at left
    rw [List.take_nil]
    exact okItems_torn n short (left ▸ part) (left ▸ proper)
  | cons entry entries ih =>
    obtain ⟨own, others⟩ := List.forall_mem_cons.mp shortEntries
    rw [List.map_cons, List.flatten_cons, List.append_assoc] at left
    cases n with
    | zero => rfl
    | succ n =>
      rw [nextItems, next_logEntry own left, List.take_succ_cons]
      exact congrArg (entry :: ·) (ih n others (drop_logEntry left))

end Reading

end Podnet
