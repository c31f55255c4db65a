import Podnet.Replica.Log

namespace Podnet

open Framing

/-- A byte slice of the source: at most `isize::MAX` bytes. -/
abbrev Slice := {bytes : List UInt8 // bytes.length < 2 ^ 63}

section Calls

variable {T : Type} (codec : Codec T)

/-- A sum of the source's `usize`, if it fits. -/
def usizeAdd (a b : Nat) : Option Nat := if a + b < 2 ^ 64 then some (a + b) else none

/-- `&bytes[start..stop]`, if the range lies inside. -/
def slice (bytes : List UInt8) (start stop : Nat) : Option (List UInt8) :=
  if start ≤ stop ∧ stop ≤ bytes.length then some ((bytes.drop start).take (stop - start)) else none

/-- `next` with every sum, index and range checked: `none` is an overflow or an access
outside the map. -/
def MmapLogIterator.nextChecked (it : MmapLogIterator) :
    Option (Option (Except LogError T) × MmapLogIterator) :=
  if it.mmap.length ≤ it.position then some (none, it)
  else do
    let data ← usizeAdd it.position 4
    if it.mmap.length < data then some (some (.error .lengthPrefix), it)
    else do
      let b0 ← it.mmap[it.position]?
      let b1 ← it.mmap[it.position + 1]?
      let b2 ← it.mmap[it.position + 2]?
      let b3 ← it.mmap[it.position + 3]?
      let len := b0.toNat + 256 * b1.toNat + 65536 * b2.toNat + 16777216 * b3.toNat
      let stop ← usizeAdd data len
      if it.mmap.length < stop then some (some (.error .entry), it)
      else do
        let entryData ← slice it.mmap data stop
        match codec.merge entryData with
        | .ok entry => some (some (.ok entry), { it with position := stop })
        | .error e => some (some (.error (.decode e)), { it with position := stop })

/-- The iterator after some calls of `next`. -/
def MmapLogIterator.after : Nat → MmapLogIterator → MmapLogIterator
  | 0, it => it
  | n + 1, it => MmapLogIterator.after n (it.next codec).2

/-- The catch-up loop without a bound: what it has sent when it ends by itself. -/
inductive CatchUp : MmapLogIterator → List T → Prop
  | done {it} : (∀ entry, (it.next codec).1 ≠ some (.ok entry)) → CatchUp it []
  | send {it it' entry sent} : it.next codec = (some (.ok entry), it') → CatchUp it' sent →
      CatchUp it (entry :: sent)

/-- The records in front of the first payload that does not decode. -/
def decodedPrefix : List (List UInt8) → List T
  | [] => []
  | payload :: payloads =>
    match codec.merge payload with
    | .ok entry => entry :: decodedPrefix payloads
    | .error _ => []

end Calls

variable {T : Type} {codec : Codec T} {it : MmapLogIterator} {payloads : List (List UInt8)}
  {torn : List UInt8}

theorem usizeAdd_eq {a b : Nat} (fits : a + b < 2 ^ 64) : usizeAdd a b = some (a + b) := if_pos fits

/-- No access fails and no sum overflows. -/
theorem nextChecked_eq (codec : Codec T) (small : it.mmap.length < 2 ^ 63) :
    it.nextChecked codec = some (it.next codec) := by
  unfold MmapLogIterator.nextChecked MmapLogIterator.next
  by_cases atEnd : it.mmap.length ≤ it.position
  · rw [if_pos atEnd, if_pos atEnd]
  · rw [if_neg atEnd, if_neg atEnd, usizeAdd_eq (by omega), Option.bind_eq_bind, Option.bind_some]
    by_cases short : it.mmap.length < it.position + 4
    · rw [if_pos short, if_pos short]
    · have bytes : ∀ i < 4, it.mmap[it.position + i]? = some (it.mmap.getD (it.position + i) 0) := by
        intro i four
        have room : it.position + i < it.mmap.length := by omega
        rw [List.getD_eq_getElem _ _ room, List.getElem?_eq_getElem room]
      have b0 := bytes 0 (by omega)
      have b1 := bytes 1 (by omega)
      have b2 := bytes 2 (by omega)
      have b3 := bytes 3 (by omega)
      have bound := lengthAt_lt it.mmap it.position
      have length : lengthAt it.mmap it.position = (it.mmap.getD (it.position + 0) 0).toNat +
        256 * (it.mmap.getD (it.position + 1) 0).toNat + 65536 * (it.mmap.getD (it.position + 2) 0).toNat +
          16777216 * (it.mmap.getD (it.position + 3) 0).toNat := rfl
      rw [Nat.add_zero] at b0
      rw [if_neg short, if_neg short]
      simp only [b0, b1, b2, b3, Option.bind_eq_bind, Option.bind_some]
      rw [Nat.add_zero] at length
      rw [← length, usizeAdd_eq (by omega), Option.bind_some]
      by_cases long : it.mmap.length < it.position + 4 + lengthAt it.mmap it.position
      · rw [if_pos long, if_pos long]
      · have range : slice it.mmap (it.position + 4) (it.position + 4 + lengthAt it.mmap it.position) =
            some ((it.mmap.drop (it.position + 4)).take (lengthAt it.mmap it.position)) := by
          rw [slice, if_pos (by omega), Nat.add_sub_cancel_left]
        rw [if_neg long, if_neg long, range, Option.bind_some]
        cases codec.merge ((it.mmap.drop (it.position + 4)).take (lengthAt it.mmap it.position)) with
        | ok entry => rfl
        | error e => rfl

/-- The map from the position on, as records and a rest that begins with none. -/
structure Ahead (it : MmapLogIterator) (payloads : List (List UInt8)) (torn : List UInt8) : Prop where
  short : ∀ payload ∈ payloads, payload.length < 2 ^ 32
  left : it.mmap.drop it.position = (payloads.map frame).flatten ++ torn
  stop : ¬ StartsWhole torn

theorem Ahead.next_nil (codec : Codec T) (ahead : Ahead it [] torn) : it.next codec = (stopped torn, it) := by
  have left : it.mmap.drop it.position = torn := ahead.left
  rw [next_stopped codec (left ▸ ahead.stop), left]

theorem Ahead.next_cons (codec : Codec T) {payload : List UInt8}
    (ahead : Ahead it (payload :: payloads) torn) :
    it.next codec =
        (some (mergedRecord codec payload), { it with position := it.position + (frame payload).length }) ∧
      Ahead { it with position := it.position + (frame payload).length } payloads torn := by
  obtain ⟨own, others⟩ := List.forall_mem_cons.mp ahead.short
  have left := ahead.left
  rw [List.map_cons, List.flatten_cons, List.append_assoc] at left
  refine ⟨next_frame own left, others, ?_, ahead.stop⟩
  rw [← List.drop_drop, left, List.drop_left]

/-- After any number of calls: as many records are behind, and the others are ahead. -/
theorem Ahead.after (codec : Codec T) (ahead : Ahead it payloads torn) (n : Nat) :
    Ahead (it.after codec n) (payloads.drop n) torn ∧
      it.after codec n =
        { it with position := it.position + ((payloads.take n).map frame).flatten.length } := by
  induction n generalizing it payloads with
  | zero => exact ⟨ahead, by simp [MmapLogIterator.after]⟩
  | succ n ih =>
    unfold MmapLogIterator.after
    cases payloads with
    | nil =>
      rw [ahead.next_nil]
      simpa using ih ahead
    | cons payload payloads =>
      obtain ⟨step, rest⟩ := ahead.next_cons codec
      obtain ⟨later, place⟩ := ih rest
      rw [step]
      refine ⟨later, ?_⟩
      rw [place, List.take_succ_cons, List.map_cons, List.flatten_cons, List.length_append, Nat.add_assoc]

theorem Ahead.catchUp (ahead : Ahead it payloads torn) :
    CatchUp codec it (decodedPrefix codec payloads) := by
  induction payloads generalizing it with
  | nil =>
    refine .done fun entry => ?_
    rw [ahead.next_nil, stopped]
    split
    · simp
    · split <;> simp
  | cons payload payloads ih =>
    obtain ⟨step, rest⟩ := ahead.next_cons codec
    unfold decodedPrefix
    cases merged : codec.merge payload with
    | ok entry =>
      rw [mergedRecord, merged] at step
      exact .send step (ih rest)
    | error e =>
      refine .done fun entry => ?_
      simp [step, mergedRecord, merged]

/-- The bounded loop of the model is the loop, as soon as the bound is large enough. -/
theorem CatchUp.eq {sent : List T} (loop : CatchUp codec it sent) {fuel : Nat}
    (enough : sent.length < fuel) : catchUpRecords codec fuel it = sent := by
  induction loop generalizing fuel with
  | done stop =>
    cases fuel with
    | zero => rfl
    | succ fuel =>
      unfold catchUpRecords
      split
      · rename_i entry it' step
        exact absurd (by rw [step]) (stop entry)
      · rfl
  | send step _ ih =>
    cases fuel with
    | zero => simp at enough
    | succ fuel =>
      unfold catchUpRecords
      rw [step]
      exact congrArg _ (ih (by simpa using enough))

theorem decodedPrefix_cases (codec : Codec T) (payloads : List (List UInt8)) :
    ∃ good rest, payloads = good ++ rest ∧ good.map codec.merge = (decodedPrefix codec payloads).map .ok ∧
      ∀ payload ∈ rest.head?, ∃ e, codec.merge payload = .error e := by
  induction payloads with
  | nil => exact ⟨[], [], rfl, rfl, by simp⟩
  | cons payload payloads ih =>
    unfold decodedPrefix
    cases merged : codec.merge payload with
    | ok entry =>
      obtain ⟨good, rest, split, all, first⟩ := ih
      exact ⟨payload :: good, rest, by rw [split, List.cons_append], by simp [merged, all], first⟩
    | error e => exact ⟨[], payload :: payloads, rfl, rfl, by simp [merged]⟩

/-- Reading a file from its beginning, where `payloads` are those of the whole records at
its beginning and `torn` is what is left behind them. -/
structure ReadsExactly (codec : Codec T) (file : List UInt8) (it : MmapLogIterator)
    (payloads : List (List UInt8)) (torn : List UInt8) : Prop where
  short : ∀ payload ∈ payloads, payload.length < 2 ^ 32
  split : file = (payloads.map frame).flatten ++ torn
  stop : ¬ StartsWhole torn
  few : payloads.length ≤ file.length / 4
  /-- No call accesses a byte outside the map. -/
  safe : ∀ n, (it.after codec n).nextChecked codec = some ((it.after codec n).next codec)
  bound : ∀ n, (it.after codec n).position ≤ file.length
  consumed : ∀ n, ((payloads.take n).map frame).flatten = file.take (it.after codec n).position
  /-- The first calls return one record each and advance, whether or not it decodes. -/
  advances : ∀ n payload, payloads[n]? = some payload →
    ((it.after codec n).next codec).1 = some (mergedRecord codec payload) ∧
      (it.after codec n).position < (it.after codec (n + 1)).position
  /-- From then on every call leaves the iterator where it is and returns the same. -/
  stays : ∀ n, payloads.length ≤ n → it.after codec (n + 1) = it.after codec n ∧
    file.drop (it.after codec n).position = torn ∧ ((it.after codec n).next codec).1 = stopped torn

theorem readsExactly (codec : Codec T) (file : Slice) (fileSize : Nat) : ∃ payloads torn,
    ReadsExactly codec file.val (getReplicaLogIterator fileSize file.val) payloads torn := by
  obtain ⟨payloads, torn, short, split, stop⟩ := exists_frames file.val
  refine ⟨payloads, torn, ?_⟩
  have start : Ahead (getReplicaLogIterator fileSize file.val) payloads torn := ⟨short, split, stop⟩
  have mmap : ∀ n, ((getReplicaLogIterator fileSize file.val).after codec n).mmap = file.val := by
    intro n
    rw [(start.after codec n).2]
    rfl
  have position : ∀ n, ((getReplicaLogIterator fileSize file.val).after codec n).position =
      ((payloads.take n).map frame).flatten.length := by
    intro n
    rw [(start.after codec n).2]
    exact Nat.zero_add _
  have parts : ∀ n, file.val =
      ((payloads.take n).map frame).flatten ++ (((payloads.drop n).map frame).flatten ++ torn) := by
    intro n
    rw [← List.append_assoc, ← List.flatten_append, ← List.map_append, List.take_append_drop, split]
  have consumed : ∀ n, ((payloads.take n).map frame).flatten =
      file.val.take ((getReplicaLogIterator fileSize file.val).after codec n).position := by
    intro n
    rw [position, parts n, List.take_left]
  refine ⟨short, split, stop, ?_, ?_, ?_, consumed, ?_, ?_⟩
  · have frames := length_le_flatten payloads
    have size := congrArg List.length split
    rw [List.length_append] at size
    omega
  · intro n
    exact nextChecked_eq codec (by rw [mmap]; exact file.property)
  · intro n
    have size := congrArg List.length (parts n)
    rw [List.length_append] at size
    rw [position]
    omega
  · intro n payload atN
    obtain ⟨inside, rfl⟩ := List.getElem?_eq_some_iff.mp atN
    have ahead := (start.after codec n).1
    rw [List.drop_eq_getElem_cons inside] at ahead
    refine ⟨by rw [(ahead.next_cons codec).1], ?_⟩
    rw [position, position, List.take_succ_eq_append_getElem inside, List.map_append, List.flatten_append,
      List.length_append, List.map_singleton, List.flatten_singleton, length_frame]
    omega
  · intro n behind
    have ahead := (start.after codec n).1
    rw [List.drop_eq_nil_of_le behind] at ahead
    refine ⟨?_, ?_, by rw [ahead.next_nil]⟩
    · rw [(start.after codec (n + 1)).2, (start.after codec n).2, List.take_of_length_le behind,
        List.take_of_length_le (Nat.le_succ_of_le behind)]
    · have left := ahead.left
      rw [mmap n] at left
      exact left

/-- The parser is safe and exact on every file, and the catch-up loop ends on every file
after sending the records in front of the first one that does not decode. -/
theorem log_parser_safe_and_exact (codec : Codec T) (file : Slice) (fileSize : Nat) :
    ∃ payloads torn sent good rest,
      ReadsExactly codec file.val (getReplicaLogIterator fileSize file.val) payloads torn ∧
      CatchUp codec (getReplicaLogIterator file.val.length file.val) sent ∧
      historyRecords codec file.val = sent ∧ payloads = good ++ rest ∧
      good.map codec.merge = sent.map .ok ∧
      ∀ payload ∈ rest.head?, ∃ e, codec.merge payload = .error e := by
  obtain ⟨payloads, torn, exact⟩ := readsExactly codec file fileSize
  obtain ⟨good, rest, split, all, first⟩ := decodedPrefix_cases codec payloads
  have start : Ahead (getReplicaLogIterator file.val.length file.val) payloads torn :=
    ⟨exact.short, exact.split, exact.stop⟩
  have loop : CatchUp codec _ (decodedPrefix codec payloads) := start.catchUp
  refine ⟨payloads, torn, _, good, rest, exact, loop, loop.eq ?_, split, all, first⟩
  have count := congrArg List.length all
  rw [List.length_map, List.length_map] at count
  have total := congrArg List.length split
  rw [List.length_append] at total
  have few := exact.few
  omega

end Podnet
