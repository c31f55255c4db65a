import Podnet.Replica.Schema

namespace Podnet

open Framing

/-- An `append` that holds the write lock, with what its two `write_all` calls have
not written yet. -/
structure Writer (T : Type) where
  entry : T
  lenBytes : List UInt8
  serialized : List UInt8

/-- The file at one path and the appender opened on it. Clones of the appender share
all of it, so an `append` that waits for the lock is just an entry in `waiting`. The
last three fields are ghosts: the entries in the order in which their appends took
the lock, those whose append has returned successfully, and what an interrupted
append has left at the end of the file. -/
structure ReplicaLog (T : Type) where
  file : List UInt8
  fileSize : Option Nat
  waiting : List T
  writer : Option (Writer T)
  locked : List T
  completed : List T
  fragment : List UInt8

/-- A path where nothing has been written. -/
def ReplicaLog.initial (T : Type) : ReplicaLog T := ⟨[], none, [], none, [], [], []⟩

inductive AppendEvent (T : Type) where
  | opened
  | append (entry : T)
  | lock (entry : T)
  | write (chunk : List UInt8)
  | finish
  | interrupt
  | syncError
  | close

section Appender

variable {T : Type} (codec : Codec T)

/-- The bytes an append has still to write. -/
def Writer.left (w : Writer T) : List UInt8 := w.lenBytes ++ w.serialized

/-- The bytes an append has written. -/
def Writer.written (w : Writer T) : List UInt8 :=
  (logEntry codec w.entry).take ((logEntry codec w.entry).length - w.left.length)

/-- The steps of the appenders on one path. A process that dies interrupts the append
that holds the lock and closes the log. -/
inductive AppendStep : AppendEvent T → ReplicaLog T → ReplicaLog T → Prop
  | opened {s} : s.fileSize = none →
      AppendStep .opened s { s with fileSize := some s.file.length }
  | append {s entry} : s.fileSize ≠ none →
      AppendStep (.append entry) s { s with waiting := s.waiting ++ [entry] }
  | lock {s entry before after} : s.writer = none → s.waiting = before ++ entry :: after →
      AppendStep (.lock entry) s
        { s with
          waiting := before ++ after
          writer := some ⟨entry, lengthBytes (codec.encode entry).length, codec.encode entry⟩
          locked := s.locked ++ [entry] }
  | writeLength {s entry lenBytes chunk rest serialized} :
      s.writer = some ⟨entry, lenBytes, serialized⟩ → lenBytes = chunk ++ rest →
      AppendStep (.write chunk) s
        { s with file := s.file ++ chunk, writer := some ⟨entry, rest, serialized⟩ }
  | writeSerialized {s entry serialized chunk rest} :
      s.writer = some ⟨entry, [], serialized⟩ → serialized = chunk ++ rest →
      AppendStep (.write chunk) s
        { s with file := s.file ++ chunk, writer := some ⟨entry, [], rest⟩ }
  | finish {s entry} : s.writer = some ⟨entry, [], []⟩ →
      AppendStep .finish s
        { s with
          fileSize := s.fileSize.map (· + (logEntry codec entry).length)
          writer := none
          completed := s.completed ++ [entry] }
  | interrupt {s w} : s.writer = some w → w.left ≠ [] →
      AppendStep .interrupt s
        { s with
          writer := none
          fragment := if w.written codec = [] then s.fragment else w.written codec }
  | syncError {s entry} : s.writer = some ⟨entry, [], []⟩ →
      AppendStep .syncError s { s with writer := none }
  | close {s} : s.writer = none → AppendStep .close s { s with fileSize := none, waiting := [] }

/-- The states of a path that allowed events lead to. -/
inductive AppendReach (allowed : ReplicaLog T → AppendEvent T → Prop) : ReplicaLog T → Prop
  | start : AppendReach allowed (.initial T)
  | step {event s s'} : AppendReach allowed s → allowed s event → AppendStep codec event s s' →
      AppendReach allowed s'

/-- Every append succeeds. -/
def Succeeds (_ : ReplicaLog T) (event : AppendEvent T) : Prop :=
  event ≠ .interrupt ∧ event ≠ .syncError

/-- An append succeeds or is interrupted before its last byte. -/
def Interruptible (_ : ReplicaLog T) (event : AppendEvent T) : Prop := event ≠ .syncError

/-- No append writes a byte once an interrupted one has left bytes behind. -/
def Undamaged (s : ReplicaLog T) (event : AppendEvent T) : Prop :=
  event ≠ .syncError ∧ ∀ chunk, event = .write chunk → s.fragment ≠ [] → chunk = []

end Appender

section Framed

variable {T : Type} {codec : Codec T} {s s' : ReplicaLog T} {event : AppendEvent T}

/-- What follows the complete records in the file. -/
def ReplicaLog.tail (codec : Codec T) (s : ReplicaLog T) : List UInt8 :=
  match s.writer with
  | none => s.fragment
  | some w => s.fragment ++ w.written codec

/-- The file as long as no append writes behind a fragment: one that holds the lock
there has written nothing. -/
structure Framed (codec : Codec T) (s : ReplicaLog T) : Prop where
  file : s.file = (s.completed.map (logEntry codec)).flatten ++ s.tail codec
  completed : ∀ entry ∈ s.completed, entry ∈ s.locked
  writer : ∀ w, s.writer = some w → w.left <:+ logEntry codec w.entry ∧ w.entry ∈ s.locked
  clean : ∀ w, s.writer = some w → s.fragment ≠ [] → w.written codec = []
  fragment : s.fragment = [] ∨ ∃ entry ∈ s.locked, s.fragment <+: logEntry codec entry ∧
    s.fragment.length < (logEntry codec entry).length

theorem Writer.written_append {w : Writer T} (part : w.left <:+ logEntry codec w.entry) :
    w.written codec ++ w.left = logEntry codec w.entry := by
  obtain ⟨before, whole⟩ := part
  have size := congrArg List.length whole
  rw [List.length_append] at size
  rw [Writer.written, ← whole, List.take_left' (by rw [whole]; omega)]

/-- Writing a chunk moves it from what is left to what is written. -/
theorem Writer.written_chunk {w w' : Writer T} {chunk : List UInt8}
    (part : w.left <:+ logEntry codec w.entry) (same : w'.entry = w.entry)
    (left : w.left = chunk ++ w'.left) :
    w'.left <:+ logEntry codec w'.entry ∧ w'.written codec = w.written codec ++ chunk := by
  have whole := Writer.written_append part
  rw [left, ← List.append_assoc] at whole
  have part' : w'.left <:+ logEntry codec w'.entry := by
    rw [same]
    exact ⟨_, whole⟩
  refine ⟨part', List.append_cancel_right ((Writer.written_append part').trans ?_)⟩
  rw [same, whole]

theorem Framed.write {w w' : Writer T} {chunk : List UInt8} (framed : Framed codec s)
    (held : s.writer = some w) (same : w'.entry = w.entry) (left : w.left = chunk ++ w'.left)
    (nowhere : s.fragment ≠ [] → chunk = []) :
    Framed codec { s with file := s.file ++ chunk, writer := some w' } := by
  obtain ⟨part, member⟩ := framed.writer w held
  obtain ⟨part', moved⟩ := Writer.written_chunk part same left
  have file := framed.file
  simp only [ReplicaLog.tail, held] at file
  refine ⟨?_, framed.completed, ?_, ?_, framed.fragment⟩
  · simp only [ReplicaLog.tail, moved, file, List.append_assoc]
  · intro other found
    cases Option.some.inj found
    exact ⟨part', same ▸ member⟩
  · intro other found behind
    cases Option.some.inj found
    rw [moved, framed.clean w held behind, nowhere behind, List.append_nil]

/-- A writer that has just taken the lock has written nothing. -/
theorem Framed.lock {entry : T} {waiting : List T} (framed : Framed codec s) (free : s.writer = none) :
    Framed codec { s with
      waiting := waiting
      writer := some ⟨entry, lengthBytes (codec.encode entry).length, codec.encode entry⟩
      locked := s.locked ++ [entry] } := by
  have nothing : Writer.written codec
      ⟨entry, lengthBytes (codec.encode entry).length, codec.encode entry⟩ = [] := by
    simp [Writer.written, Writer.left, logEntry, frame]
  have file := framed.file
  simp only [ReplicaLog.tail, free] at file
  refine ⟨?_, ?_, ?_, ?_, ?_⟩
  · simp only [ReplicaLog.tail, nothing, List.append_nil, file]
  · exact fun other member => List.mem_append_left _ (framed.completed other member)
  · intro w found
    cases Option.some.inj found
    exact ⟨List.suffix_refl _, List.mem_append_right _ (List.mem_singleton_self _)⟩
  · intro w found _
    cases Option.some.inj found
    exact nothing
  · rcases framed.fragment with none | ⟨other, member, part, proper⟩
    · exact Or.inl none
    · exact Or.inr ⟨other, List.mem_append_left _ member, part, proper⟩

/-- A writer that has nothing left has written its whole record, which no fragment
precedes. -/
theorem Framed.finish {entry : T} {fileSize : Option Nat} (framed : Framed codec s)
    (held : s.writer = some ⟨entry, [], []⟩) :
    Framed codec { s with
      fileSize := fileSize, writer := none, completed := s.completed ++ [entry] } := by
  obtain ⟨part, member⟩ := framed.writer _ held
  have whole := Writer.written_append part
  simp only [Writer.left, List.append_nil] at whole
  have none : s.fragment = [] := by
    by_contra behind
    have size := congrArg List.length (whole.symm.trans (framed.clean _ held behind))
    rw [logEntry, length_frame, List.length_nil] at size
    omega
  have file := framed.file
  simp only [ReplicaLog.tail, held, whole, none, List.nil_append] at file
  refine ⟨?_, ?_, ?_, ?_, Or.inl none⟩
  · simp [ReplicaLog.tail, none, file]
  · intro other inside
    rcases List.mem_append.mp inside with old | new
    · exact framed.completed other old
    · exact List.mem_singleton.mp new ▸ member
  · intro w found
    simp at found
  · intro w found
    simp at found

/-- What an interrupted writer leaves behind is a proper prefix of its record, and
nothing if there is a fragment already. -/
theorem Framed.interrupt {w : Writer T} (framed : Framed codec s) (held : s.writer = some w)
    (unfinished : w.left ≠ []) :
    Framed codec { s with
      writer := none
      fragment := if w.written codec = [] then s.fragment else w.written codec } := by
  obtain ⟨part, member⟩ := framed.writer w held
  have whole := Writer.written_append part
  have file := framed.file
  simp only [ReplicaLog.tail, held] at file
  have free : ∀ fragment : List UInt8, s.fragment ++ w.written codec = fragment →
      (fragment = [] ∨ ∃ entry ∈ s.locked, fragment <+: logEntry codec entry ∧
        fragment.length < (logEntry codec entry).length) →
      Framed codec { s with writer := none, fragment := fragment } := by
    intro fragment left torn
    refine ⟨?_, framed.completed, ?_, ?_, torn⟩
    · simp only [ReplicaLog.tail, file, left]
    · intro other found
      simp at found
    · intro other found
      simp at found
  by_cases nothing : w.written codec = []
  · rw [if_pos nothing]
    exact free s.fragment (by rw [nothing, List.append_nil]) framed.fragment
  · have none : s.fragment = [] := by
      by_contra behind
      exact nothing (framed.clean w held behind)
    have size := congrArg List.length whole
    have some := List.length_pos_iff.mpr unfinished
    rw [List.length_append] at size
    rw [if_neg nothing]
    exact free (w.written codec) (by rw [none, List.nil_append])
      (Or.inr ⟨w.entry, member, ⟨_, whole⟩, by omega⟩)

theorem AppendStep.framed (step : AppendStep codec event s s') (allowed : Undamaged s event)
    (framed : Framed codec s) : Framed codec s' := by
  cases step with
  | opened _ | append _ | close _ =>
    exact ⟨framed.file, framed.completed, framed.writer, framed.clean, framed.fragment⟩
  | lock free _ => exact framed.lock free
  | writeLength held parts =>
    exact framed.write held rfl (by simp [Writer.left, parts]) (allowed.2 _ rfl)
  | writeSerialized held parts =>
    exact framed.write held rfl (by simp [Writer.left, parts]) (allowed.2 _ rfl)
  | finish held => exact framed.finish held
  | interrupt held unfinished => exact framed.interrupt held unfinished
  | syncError _ => exact absurd rfl allowed.1

theorem AppendReach.framed (reach : AppendReach codec Undamaged s) : Framed codec s := by
  induction reach with
  | start =>
    refine ⟨rfl, ?_, ?_, fun _ _ behind => absurd rfl behind, Or.inl rfl⟩
    · intro entry member
      simp [ReplicaLog.initial] at member
    · intro w found
      simp [ReplicaLog.initial] at found
  | step _ allowed step ih => exact step.framed allowed ih

theorem AppendReach.mono {allowed allowed' : ReplicaLog T → AppendEvent T → Prop}
    (reach : AppendReach codec allowed s)
    (weaker : ∀ s event, AppendReach codec allowed s → allowed s event → allowed' s event) :
    AppendReach codec allowed' s := by
  induction reach with
  | start => exact .start
  | step earlier permitted step ih => exact ih.step (weaker _ _ earlier permitted) step

/-- Without interruptions nothing is left behind, and every append but the one that
holds the lock has completed. -/
theorem AppendReach.succeeds (reach : AppendReach codec Succeeds s) :
    s.fragment = [] ∧ s.locked = s.completed ++ (s.writer.map Writer.entry).toList := by
  induction reach with
  | start => exact ⟨rfl, rfl⟩
  | step _ allowed step ih =>
    obtain ⟨none, order⟩ := ih
    cases step with
    | opened _ => exact ⟨none, order⟩
    | append _ => exact ⟨none, order⟩
    | lock free _ => exact ⟨none, by simpa [free] using order⟩
    | writeLength held _ => exact ⟨none, by simpa [held] using order⟩
    | writeSerialized held _ => exact ⟨none, by simpa [held] using order⟩
    | finish held => exact ⟨none, by simpa [held] using order⟩
    | interrupt _ _ => exact absurd rfl allowed.1
    | syncError _ => exact absurd rfl allowed.2
    | close _ => exact ⟨none, order⟩

theorem AppendReach.undamaged (reach : AppendReach codec Succeeds s) :
    AppendReach codec Undamaged s := by
  refine reach.mono fun s event earlier allowed => ⟨allowed.2, fun chunk _ behind => ?_⟩
  exact absurd earlier.succeeds.1 behind

/-- One append from its lock to its return, in two writes. -/
theorem AppendReach.whole {allowed : ReplicaLog T → AppendEvent T → Prop} {entry : T}
    {before after : List T} (reach : AppendReach codec allowed s) (free : s.writer = none)
    (waits : s.waiting = before ++ entry :: after)
    (works : ∀ s' event, s'.fragment = s.fragment → event ≠ .interrupt → event ≠ .syncError →
      allowed s' event) :
    AppendReach codec allowed
      { s with
        file := s.file ++ logEntry codec entry
        fileSize := s.fileSize.map (· + (logEntry codec entry).length)
        waiting := before ++ after
        locked := s.locked ++ [entry]
        completed := s.completed ++ [entry] } := by
  have locked := reach.step (works s (.lock entry) rfl (by simp) (by simp)) (.lock free waits)
  have lengthWritten := locked.step (works _ (.write (lengthBytes (codec.encode entry).length))
    rfl (by simp) (by simp)) (.writeLength rfl (List.append_nil _).symm)
  have allWritten := lengthWritten.step (works _ (.write (codec.encode entry)) rfl (by simp) (by simp))
    (.writeSerialized rfl (List.append_nil _).symm)
  have finished := allWritten.step (works _ .finish rfl (by simp) (by simp)) (.finish rfl)
  simpa only [List.append_assoc, logEntry, frame, free] using finished

/-- Appends through any clones of the appenders of any sessions, all successful, are
read back in the order in which they took the lock. -/
theorem log_round_trip (codec : Codec T) (s : ReplicaLog T) (reach : AppendReach codec Succeeds s)
    (idle : s.writer = none) (short : ∀ entry ∈ s.locked, (codec.encode entry).length < 2 ^ 32) :
    s.completed = s.locked ∧
    ∀ k, nextItems codec (s.locked.length + k) (getReplicaLogIterator s.file.length s.file) =
      s.locked.map (fun entry => some (.ok entry)) ++ List.replicate k none := by
  obtain ⟨none, order⟩ := reach.succeeds
  have file := reach.undamaged.framed.file
  simp only [idle, Option.map_none, Option.toList_none, List.append_nil] at order
  simp only [ReplicaLog.tail, idle, none, List.append_nil, ← order] at file
  refine ⟨order.symm, fun k => nextItems_entries k short ?_⟩
  rw [getReplicaLogIterator, List.drop_zero, file]

/-- Two clones whose appends overtake each other, and a third append in the next
session. -/
theorem overtaken_reach (codec : Codec T) (first second third : T) :
    ∃ s, AppendReach codec Succeeds s ∧ s.writer = none ∧ s.locked = [second, first, third] := by
  have works : ∀ (s' : ReplicaLog T) event, s'.fragment = [] → event ≠ .interrupt →
      event ≠ .syncError → Succeeds s' event := fun _ _ _ whole synced => ⟨whole, synced⟩
  have opened : AppendReach codec Succeeds ⟨[], some 0, [], none, [], [], []⟩ :=
    AppendReach.start.step ⟨by simp, by simp⟩ (.opened rfl)
  have called : AppendReach codec Succeeds ⟨[], some 0, [first], none, [], [], []⟩ :=
    opened.step ⟨by simp, by simp⟩ (.append (by simp))
  have both : AppendReach codec Succeeds ⟨[], some 0, [first] ++ second :: [], none, [], [], []⟩ :=
    called.step ⟨by simp, by simp⟩ (.append (by simp))
  have overtaken := both.whole rfl rfl works
  have done := overtaken.whole rfl (List.nil_append [first]).symm works
  have closed := done.step ⟨by simp, by simp⟩ (.close rfl)
  have again := closed.step ⟨by simp, by simp⟩ (.opened rfl)
  have waits := again.step ⟨by simp, by simp⟩
    (show AppendStep codec (.append third) _ _ from .append (by simp))
  have whole := waits.whole rfl (List.nil_append [third]).symm works
  exact ⟨_, whole, rfl, rfl⟩

theorem log_round_trip_overtaken :
    ∃ s, AppendReach voteRecordCodec Succeeds s ∧ s.writer = none ∧
      (∀ entry ∈ s.locked, (voteRecordCodec.encode entry).length < 2 ^ 32) ∧
      s.locked = [⟨some ⟨[66]⟩, 5, 1, [1, 2]⟩, VoteRecord.default, ⟨some ⟨[]⟩, 0, 2, []⟩] ∧
      s.completed = s.locked ∧
      ∀ k, nextItems voteRecordCodec (s.locked.length + k) (getReplicaLogIterator s.file.length s.file) =
        s.locked.map (fun entry => some (.ok entry)) ++ List.replicate k none := by
  obtain ⟨s, reach, idle, order⟩ := overtaken_reach voteRecordCodec VoteRecord.default
    ⟨some ⟨[66]⟩, 5, 1, [1, 2]⟩ ⟨some ⟨[]⟩, 0, 2, []⟩
  have short : ∀ entry ∈ s.locked, (voteRecordCodec.encode entry).length < 2 ^ 32 := by
    rw [order]
    decide
  exact ⟨s, reach, idle, short, order, log_round_trip voteRecordCodec s reach idle short⟩

/-- Calling `next` often enough returns exactly these records, in order. -/
def Yields (codec : Codec T) (file : List UInt8) (entries : List T) : Prop :=
  ∃ calls, ∀ n, calls ≤ n →
    okItems (nextItems codec n (getReplicaLogIterator file.length file)) = entries

/-- As long as no append writes a byte behind the bytes of an interrupted one, the file
holds exactly the completed records for its readers. Records of 4 GiB and more, whose
length the prefix cannot hold, are left out. -/
theorem interrupted_append_harmless (codec : Codec T) (s : ReplicaLog T)
    (reach : AppendReach codec Undamaged s) (idle : s.writer = none)
    (short : ∀ entry ∈ s.locked, (codec.encode entry).length < 2 ^ 32) :
    Yields codec s.file s.completed := by
  have framed := reach.framed
  have file := framed.file
  have shortCompleted : ∀ entry ∈ s.completed, (codec.encode entry).length < 2 ^ 32 :=
    fun entry member => short entry (framed.completed entry member)
  simp only [ReplicaLog.tail, idle] at file
  have torn : ∃ payload : List UInt8, payload.length < 2 ^ 32 ∧ s.fragment <+: frame payload ∧
      s.fragment.length < (frame payload).length := by
    rcases framed.fragment with none | ⟨entry, member, part, proper⟩
    · exact ⟨[], by norm_num, none ▸ List.nil_prefix, by rw [none, length_frame]; simp⟩
    · exact ⟨codec.encode entry, short entry member, part, proper⟩
  obtain ⟨payload, shortPayload, part, proper⟩ := torn
  refine ⟨s.completed.length, fun n enough => ?_⟩
  rw [okItems_entries n shortCompleted shortPayload part proper
    (by rw [getReplicaLogIterator, List.drop_zero, file]), List.take_of_length_le enough]

/-- One append that stops after two bytes. -/
theorem AppendReach.cut {allowed : ReplicaLog T → AppendEvent T → Prop} {entry : T}
    {before after : List T} (reach : AppendReach codec allowed s) (free : s.writer = none)
    (waits : s.waiting = before ++ entry :: after)
    (works : ∀ s' event, s'.fragment = s.fragment → event ≠ .syncError → allowed s' event) :
    ∃ s', AppendReach codec allowed s' ∧ s'.file = s.file ++ (logEntry codec entry).take 2 ∧
      s'.fileSize = s.fileSize ∧ s'.waiting = before ++ after ∧ s'.writer = none ∧
      s'.locked = s.locked ++ [entry] ∧ s'.completed = s.completed := by
  have locked := reach.step (works s (.lock entry) rfl (by simp)) (.lock free waits)
  have begun := locked.step (works _ (.write ((lengthBytes (codec.encode entry).length).take 2))
    rfl (by simp)) (.writeLength rfl (List.take_append_drop 2 _).symm)
  have stopped := begun.step (works _ .interrupt rfl (by simp)) (.interrupt rfl (by simp [Writer.left,
    lengthBytes]))
  exact ⟨_, stopped, rfl, rfl, rfl, rfl, rfl, rfl⟩

/-- A completed record, the first bytes of another one, and an append that fails behind
them before its first byte. -/
theorem interrupted_append_harmless_at_end :
    ∃ s, AppendReach voteRecordCodec Undamaged s ∧ s.writer = none ∧
      (∀ entry ∈ s.locked, (voteRecordCodec.encode entry).length < 2 ^ 32) ∧
      s.completed = [⟨some ⟨[65]⟩, 5, 0, []⟩] ∧
      s.locked = [⟨some ⟨[65]⟩, 5, 0, []⟩, ⟨some ⟨[66]⟩, 5, 1, []⟩, ⟨some ⟨[67]⟩, 5, 2, []⟩] ∧
      Yields voteRecordCodec s.file s.completed := by
  have works : ∀ (s' : ReplicaLog VoteRecord) event, s'.fragment = [] → event ≠ .syncError →
      Undamaged s' event := fun _ _ none synced => ⟨synced, fun _ _ behind => absurd none behind⟩
  have opened : AppendReach voteRecordCodec Undamaged ⟨[], some 0, [], none, [], [], []⟩ :=
    AppendReach.start.step ⟨by simp, by simp⟩ (.opened rfl)
  have first : AppendReach voteRecordCodec Undamaged
      ⟨[], some 0, [] ++ ⟨some ⟨[65]⟩, 5, 0, []⟩ :: [], none, [], [], []⟩ :=
    opened.step ⟨by simp, by simp⟩ (.append (by simp))
  have written := first.whole rfl rfl fun s' event none _ synced => works s' event none synced
  have second := written.step ⟨by simp, by simp⟩
    (show AppendStep voteRecordCodec (.append ⟨some ⟨[66]⟩, 5, 1, []⟩) _ _ from .append (by simp))
  obtain ⟨s₁, reach₁, _, size, waiting, idle, order, completed⟩ := second.cut rfl rfl works
  have third := reach₁.step ⟨by simp, by simp⟩
    (show AppendStep voteRecordCodec (.append ⟨some ⟨[67]⟩, 5, 2, []⟩) _ _ from .append (by simp [size]))
  have waits : s₁.waiting ++ [⟨some ⟨[67]⟩, 5, 2, []⟩] = [] ++ ⟨some ⟨[67]⟩, 5, 2, []⟩ :: [] := by
    rw [waiting]
    rfl
  have locked := third.step ⟨by simp, by simp⟩ (.lock idle waits)
  have failed := locked.step ⟨by simp, by simp⟩ (.interrupt rfl (by simp [Writer.left, lengthBytes]))
  have all : s₁.locked ++ [⟨some ⟨[67]⟩, 5, 2, []⟩] =
      [⟨some ⟨[65]⟩, 5, 0, []⟩, ⟨some ⟨[66]⟩, 5, 1, []⟩, ⟨some ⟨[67]⟩, 5, 2, []⟩] := by
    rw [order]
    rfl
  have short : ∀ entry ∈ s₁.locked ++ [⟨some ⟨[67]⟩, 5, 2, []⟩],
      (voteRecordCodec.encode entry).length < 2 ^ 32 := by
    rw [all]
    decide
  exact ⟨_, failed, rfl, short, completed, all,
    interrupted_append_harmless voteRecordCodec _ failed rfl short⟩

theorem fragment_reach (codec : Codec T) (entry : T) :
    ∃ s, AppendReach codec Interruptible s ∧ s.writer = none ∧
      s.file = (logEntry codec entry).take 2 ++ logEntry codec entry ∧ s.locked = [entry, entry] ∧
      s.completed = [entry] := by
  have opened : AppendReach codec Interruptible ⟨[], some 0, [], none, [], [], []⟩ :=
    AppendReach.start.step (by simp [Interruptible]) (.opened rfl)
  have first : AppendReach codec Interruptible ⟨[], some 0, [] ++ entry :: [], none, [], [], []⟩ :=
    opened.step (by simp [Interruptible]) (.append (by simp))
  obtain ⟨s₁, reach₁, file₁, size₁, waiting₁, idle₁, order₁, completed₁⟩ :=
    first.cut rfl rfl fun _ _ _ synced => synced
  have second := reach₁.step (by simp [Interruptible])
    (show AppendStep codec (.append entry) _ _ from .append (by simp [size₁]))
  have waits : s₁.waiting ++ [entry] = [] ++ entry :: [] := by rw [waiting₁]; rfl
  have whole := second.whole idle₁ waits fun _ _ _ _ synced => synced
  exact ⟨_, whole, idle₁, by simp [file₁], by simp [order₁], by simp [completed₁]⟩

/-- Two bytes of an interrupted append in front of a complete record: the reader takes
them for the low half of a length and never gets past them. -/
theorem append_after_fragment_lost :
    ∃ s, AppendReach voteRecordCodec Interruptible s ∧ s.writer = none ∧
      (∀ entry ∈ s.locked, (voteRecordCodec.encode entry).length < 2 ^ 32) ∧
      s.completed = [⟨some ⟨[65]⟩, 5, 0, []⟩] ∧ ¬ Yields voteRecordCodec s.file s.completed := by
  obtain ⟨s, reach, idle, file, order, completed⟩ :=
    fragment_reach voteRecordCodec ⟨some ⟨[65]⟩, 5, 0, []⟩
  have short : ∀ entry ∈ s.locked, (voteRecordCodec.encode entry).length < 2 ^ 32 := by
    rw [order]
    decide
  refine ⟨s, reach, idle, short, completed, ?_⟩
  have bytes : s.file = [7, 0, 7, 0, 0, 0, 10, 3, 10, 1, 65, 16, 5] := by
    rw [file]
    decide
  have stuck : MmapLogIterator.next voteRecordCodec (getReplicaLogIterator s.file.length s.file) =
      (some (.error .entry), getReplicaLogIterator s.file.length s.file) := by
    rw [bytes, MmapLogIterator.next, if_neg (by decide), if_neg (by decide)]
    exact if_pos (by decide)
  rintro ⟨calls, all⟩
  have read := all calls le_rfl
  rw [okItems_stuck calls (by rw [stuck]) (by simp [stuck]), completed] at read
  simp at read

end Framed

end Podnet
