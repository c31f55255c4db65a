import Podnet.Replica.Appender

namespace Podnet

open Framing

/-- A reader of a log that is being written. Opening and refreshing look the size of
the file up first and map the file afterwards. -/
inductive LogReader where
  | absent
  | opening (fileSize : Nat)
  | ready (it : MmapLogIterator)
  | refreshing (it : MmapLogIterator) (fileSize : Nat)

/-- A log with one reader and everything that the reader's calls of `next` returned. -/
structure Follow (T : Type) where
  log : ReplicaLog T
  reader : LogReader
  returned : List (Option (Except LogError T))

section Steps

variable {T : Type} (codec : Codec T)

inductive FollowStep : Follow T → Follow T → Prop
  | append {s event log} : Succeeds s.log event → AppendStep codec event s.log log →
      FollowStep s { s with log := log }
  | lookUp {s} : s.reader = .absent →
      FollowStep s { s with reader := .opening s.log.file.length }
  | map {s fileSize} : s.reader = .opening fileSize →
      FollowStep s { s with reader := .ready (getReplicaLogIterator fileSize s.log.file) }
  | next {s it} : s.reader = .ready it →
      FollowStep s
        { s with reader := .ready (it.next codec).2, returned := s.returned ++ [(it.next codec).1] }
  | refreshLookUp {s it} : s.reader = .ready it →
      FollowStep s { s with reader := .refreshing it s.log.file.length }
  | refreshMap {s it fileSize} : s.reader = .refreshing it fileSize →
      FollowStep s { s with reader := .ready (it.refresh fileSize s.log.file) }

inductive FollowReach : Follow T → Prop
  | start : FollowReach ⟨.initial T, .absent, []⟩
  | step {s s'} : FollowReach s → FollowStep codec s s' → FollowReach s'

end Steps

section Growth

variable {T : Type} {codec : Codec T} {log log' : ReplicaLog T} {event : AppendEvent T}

/-- An append never touches what is already there. -/
theorem AppendStep.grows (step : AppendStep codec event log log') :
    log.file <+: log'.file ∧ log.locked <+: log'.locked := by
  cases step with
  | opened _ => exact ⟨List.prefix_refl _, List.prefix_refl _⟩
  | append _ => exact ⟨List.prefix_refl _, List.prefix_refl _⟩
  | lock _ _ => exact ⟨List.prefix_refl _, List.prefix_append _ _⟩
  | writeLength _ _ => exact ⟨List.prefix_append _ _, List.prefix_refl _⟩
  | writeSerialized _ _ => exact ⟨List.prefix_append _ _, List.prefix_refl _⟩
  | finish _ => exact ⟨List.prefix_refl _, List.prefix_refl _⟩
  | interrupt _ _ => exact ⟨List.prefix_refl _, List.prefix_refl _⟩
  | syncError _ => exact ⟨List.prefix_refl _, List.prefix_refl _⟩
  | close _ => exact ⟨List.prefix_refl _, List.prefix_refl _⟩

/-- Without interruptions the file is a byte prefix of the records in lock order. -/
theorem AppendReach.file_prefix (reach : AppendReach codec Succeeds log) :
    log.file <+: records codec log.locked := by
  obtain ⟨none, order⟩ := reach.succeeds
  have framed := reach.undamaged.framed
  rw [framed.file, order]
  cases held : log.writer with
  | none => simp [ReplicaLog.tail, held, none, records]
  | some w =>
    have whole := Writer.written_append (framed.writer w held).1
    simp only [ReplicaLog.tail, held, none, records, Option.map_some, Option.toList_some, List.map_append,
      List.flatten_append, List.map_cons, List.map_nil, List.flatten_cons, List.flatten_nil, List.append_nil,
      List.nil_append, ← whole]
    exact (List.prefix_append_right_inj _).mpr (List.prefix_append _ _)

theorem FollowReach.appended {s : Follow T} (reach : FollowReach codec s) :
    AppendReach codec Succeeds s.log := by
  induction reach with
  | start => exact .start
  | step _ step ih =>
    cases step with
    | append allowed step => exact ih.step allowed step
    | lookUp _ => exact ih
    | map _ => exact ih
    | next _ => exact ih
    | refreshLookUp _ => exact ih
    | refreshMap _ => exact ih

end Growth

section Reader

variable {T : Type} {codec : Codec T} {it : MmapLogIterator} {entries : List T} {j : Nat}

theorem records_take_succ (codec : Codec T) {entry : T} {rest : List T} (behind : entries.drop j = entry :: rest) :
    records codec (entries.take (j + 1)) = records codec (entries.take j) ++ logEntry codec entry := by
  have found : entries[j]? = some entry := by
    rw [← List.head?_drop, behind, List.head?_cons]
  rw [List.take_add_one, found]
  simp [records]

theorem length_records_take_le (codec : Codec T) (entries : List T) {i : Nat} (order : j ≤ i) :
    (records codec (entries.take j)).length ≤ (records codec (entries.take i)).length := by
  have part : (entries.take j).map (logEntry codec) <+: (entries.take i).map (logEntry codec) :=
    (List.take_prefix_take_left order).map _
  obtain ⟨rest, whole⟩ := part
  rw [records, records, ← whole, List.flatten_append, List.length_append]
  exact Nat.le_add_right _ _

/-- An iterator in front of record `j` of a log of which any byte prefix is mapped
returns that record if it is complete, and otherwise stays where it is. -/
theorem next_following (short : ∀ entry ∈ entries, (codec.encode entry).length < 2 ^ 32)
    (mapped : it.mmap <+: records codec entries)
    (here : it.position = (records codec (entries.take j)).length) :
    (∃ entry, entries[j]? = some entry ∧
      (records codec (entries.take (j + 1))).length ≤ it.mmap.length ∧
      it.next codec =
        (some (.ok entry), { it with position := (records codec (entries.take (j + 1))).length })) ∨
    (∀ i, j < i → i ≤ entries.length → it.mmap.length < (records codec (entries.take i)).length) ∧
      (it.next codec = (none, it) ∨ it.next codec = (some (.error .lengthPrefix), it) ∨
        it.next codec = (some (.error .entry), it)) := by
  have parts : records codec entries = records codec (entries.take j) ++ records codec (entries.drop j) := by
    simp only [records]
    rw [← List.flatten_append, ← List.map_append, List.take_append_drop]
  have behind : it.mmap.drop it.position <+: records codec (entries.drop j) := by
    have dropped := mapped.drop it.position
    rwa [parts, here, List.drop_left, ← here] at dropped
  cases ahead : entries.drop j with
  | nil =>
    rw [ahead] at behind
    have beyond := List.drop_eq_nil_iff.mp ahead
    refine Or.inr ⟨fun i above below => by omega, Or.inl (next_end (List.prefix_nil.mp behind))⟩
  | cons entry rest =>
    have found : entries[j]? = some entry := by
      rw [← List.head?_drop, ahead, List.head?_cons]
    have own := short entry (List.mem_of_getElem? found)
    have upTo := records_take_succ codec ahead
    have size := congrArg List.length upTo
    rw [List.length_append, ← here] at size
    rw [ahead, records, List.map_cons, List.flatten_cons] at behind
    by_cases complete : (logEntry codec entry).length ≤ (it.mmap.drop it.position).length
    · left
      obtain ⟨after, left⟩ :=
        List.prefix_of_prefix_length_le (List.prefix_append _ _) behind complete
      have inside := complete
      rw [List.length_drop, logEntry, length_frame] at inside
      refine ⟨entry, found, ?_, ?_⟩
      · rw [size, logEntry, length_frame]
        omega
      · rw [next_logEntry own left.symm, size]
    · right
      have torn : it.mmap.drop it.position <+: logEntry codec entry :=
        List.prefix_of_prefix_length_le behind (List.prefix_append _ _) (by omega)
      refine ⟨fun i above _ => ?_, next_torn codec own torn (by simpa [logEntry] using complete)⟩
      have later := length_records_take_le codec entries (show j + 1 ≤ i from above)
      rw [List.length_drop] at complete
      omega

/-- How far a reader has come: the records it has returned, and where its iterator
stands in the part of the file that it has mapped. -/
structure ReaderAt (codec : Codec T) (log : ReplicaLog T) (returned : List (Option (Except LogError T)))
    (it : MmapLogIterator) (j : Nat) : Prop where
  count : j ≤ log.locked.length
  items : okItems returned = log.locked.take j
  mapped : it.mmap <+: log.file
  seen : it.fileSize ≤ it.mmap.length
  position : it.position = (records codec (log.locked.take j)).length
  inside : it.position ≤ it.mmap.length

/-- The reader in every phase. -/
def Following (codec : Codec T) (s : Follow T) : Prop :=
  match s.reader with
  | .absent => s.returned = []
  | .opening fileSize => s.returned = [] ∧ fileSize ≤ s.log.file.length
  | .ready it => ∃ j, ReaderAt codec s.log s.returned it j
  | .refreshing it fileSize =>
    (∃ j, ReaderAt codec s.log s.returned it j) ∧ fileSize ≤ s.log.file.length

variable {log log' : ReplicaLog T} {returned : List (Option (Except LogError T))}

theorem ReaderAt.grow (reader : ReaderAt codec log returned it j)
    (grows : log.file <+: log'.file ∧ log.locked <+: log'.locked) :
    ReaderAt codec log' returned it j := by
  obtain ⟨more, whole⟩ := grows.2
  have same : log'.locked.take j = log.locked.take j := by
    rw [← whole, List.take_append_of_le_length reader.count]
  refine ⟨reader.count.trans grows.2.length_le, ?_, reader.mapped.trans grows.1, reader.seen, ?_,
    reader.inside⟩
  · rw [same, reader.items]
  · rw [same, reader.position]

theorem ReaderAt.start (codec : Codec T) (log : ReplicaLog T) {fileSize : Nat}
    (known : fileSize ≤ log.file.length) :
    ReaderAt codec log [] (getReplicaLogIterator fileSize log.file) 0 :=
  ⟨Nat.zero_le _, rfl, List.prefix_refl _, known, rfl, Nat.zero_le _⟩

theorem okItems_append (first second : List (Option (Except LogError T))) :
    okItems (first ++ second) = okItems first ++ okItems second :=
  List.filterMap_append

/-- A call that returns no record and leaves the iterator where it was. -/
theorem ReaderAt.stay (reader : ReaderAt codec log returned it j) {item : Option (Except LogError T)}
    (nothing : okItems [item] = []) : ReaderAt codec log (returned ++ [item]) it j := by
  refine ⟨reader.count, ?_, reader.mapped, reader.seen, reader.position, reader.inside⟩
  rw [okItems_append, nothing, List.append_nil, reader.items]

/-- One call of `next`: the next record, or nothing and no move. -/
theorem ReaderAt.next (reader : ReaderAt codec log returned it j)
    (short : ∀ entry ∈ log.locked, (codec.encode entry).length < 2 ^ 32)
    (file : log.file <+: records codec log.locked) :
    (∃ i, ReaderAt codec log (returned ++ [(it.next codec).1]) (it.next codec).2 i) ∧
      ∀ e, (it.next codec).1 ≠ some (.error (.decode e)) := by
  rcases next_following short (reader.mapped.trans file) reader.position with
    ⟨entry, found, complete, step⟩ | ⟨_, step | step | step⟩
  · rw [step]
    obtain ⟨inside, atJ⟩ := List.getElem?_eq_some_iff.mp found
    refine ⟨⟨j + 1, inside, ?_, reader.mapped, reader.seen, rfl, complete⟩, by simp⟩
    rw [okItems_append, reader.items, List.take_add_one, found]
    rfl
  · rw [step]
    exact ⟨⟨j, reader.stay rfl⟩, by simp⟩
  · rw [step]
    exact ⟨⟨j, reader.stay rfl⟩, by simp⟩
  · rw [step]
    exact ⟨⟨j, reader.stay rfl⟩, by simp⟩

/-- A refresh never moves the iterator: the map only grows. -/
theorem ReaderAt.refresh (reader : ReaderAt codec log returned it j) {fileSize : Nat}
    (known : fileSize ≤ log.file.length) :
    ReaderAt codec log returned (it.refresh fileSize log.file) j := by
  have size := reader.mapped.length_le
  have inside := reader.inside
  unfold MmapLogIterator.refresh
  split
  · have stays : min it.position log.file.length = it.position := Nat.min_eq_left (by omega)
    simp only [stays]
    exact ⟨reader.count, reader.items, List.prefix_refl _, known, reader.position, inside.trans size⟩
  · have stays : min it.position it.mmap.length = it.position := Nat.min_eq_left inside
    simp only [stays]
    exact reader

theorem FollowStep.following {s s' : Follow T} (step : FollowStep codec s s')
    (short : ∀ entry ∈ s.log.locked, (codec.encode entry).length < 2 ^ 32)
    (file : s.log.file <+: records codec s.log.locked) (following : Following codec s) :
    Following codec s' := by
  unfold Following at following
  cases step with
  | append _ step =>
    have grows := step.grows
    have longer := grows.1.length_le
    cases phase : s.reader with
    | absent =>
      simp only [phase] at following
      simpa only [Following, phase] using following
    | opening fileSize =>
      simp only [phase] at following
      simpa only [Following, phase] using ⟨following.1, following.2.trans longer⟩
    | ready it =>
      simp only [phase] at following
      obtain ⟨j, reader⟩ := following
      simpa only [Following, phase] using ⟨j, reader.grow grows⟩
    | refreshing it fileSize =>
      simp only [phase] at following
      obtain ⟨⟨j, reader⟩, known⟩ := following
      simpa only [Following, phase] using
        And.intro (Exists.intro j (reader.grow grows)) (known.trans longer)
  | lookUp phase =>
    rw [phase] at following
    exact ⟨following, le_rfl⟩
  | map phase =>
    rw [phase] at following
    obtain ⟨none, known⟩ := following
    exact ⟨0, none ▸ ReaderAt.start codec s.log known⟩
  | next phase =>
    rw [phase] at following
    obtain ⟨j, reader⟩ := following
    exact (reader.next short file).1
  | refreshLookUp phase =>
    rw [phase] at following
    exact ⟨following, le_rfl⟩
  | refreshMap phase =>
    rw [phase] at following
    obtain ⟨⟨j, reader⟩, known⟩ := following
    exact ⟨j, reader.refresh known⟩

theorem FollowStep.locked_prefix {s s' : Follow T} (step : FollowStep codec s s') :
    s.log.locked <+: s'.log.locked := by
  cases step with
  | append _ step => exact step.grows.2
  | lookUp _ => exact List.prefix_refl _
  | map _ => exact List.prefix_refl _
  | next _ => exact List.prefix_refl _
  | refreshLookUp _ => exact List.prefix_refl _
  | refreshMap _ => exact List.prefix_refl _

theorem FollowReach.following {s : Follow T} (reach : FollowReach codec s)
    (short : ∀ entry ∈ s.log.locked, (codec.encode entry).length < 2 ^ 32) :
    Following codec s ∧ ∀ e, some (.error (.decode e)) ∉ s.returned := by
  induction reach with
  | start => exact ⟨rfl, fun e => List.not_mem_nil⟩
  | @step s s' earlier step ih =>
    have shortBefore : ∀ entry ∈ s.log.locked, (codec.encode entry).length < 2 ^ 32 :=
      fun entry member => short entry (step.locked_prefix.subset member)
    have file := earlier.appended.file_prefix
    obtain ⟨following, clean⟩ := ih shortBefore
    refine ⟨step.following shortBefore file following, ?_⟩
    cases step with
    | append _ _ => exact clean
    | lookUp _ => exact clean
    | map _ => exact clean
    | next phase =>
      rw [Following, phase] at following
      obtain ⟨j, reader⟩ := following
      intro e member
      rcases List.mem_append.mp member with old | new
      · exact clean e old
      · exact (reader.next shortBefore file).2 e (List.mem_singleton.mp new).symm
    | refreshLookUp _ => exact clean
    | refreshMap _ => exact clean

/-- A reader that is about to call `next` after `j` records. -/
structure ReaderView (codec : Codec T) (log : ReplicaLog T) (it : MmapLogIterator) (j : Nat) : Prop where
  mapped : it.mmap <+: log.file
  seen : it.fileSize ≤ it.mmap.length
  resumes : ∀ entry, log.locked[j]? = some entry →
    (records codec (log.locked.take (j + 1))).length ≤ it.mmap.length →
    (it.next codec).1 = some (.ok entry)
  exhausted : (∀ entry, (it.next codec).1 ≠ some (.ok entry)) → ∀ i, j < i → i ≤ log.locked.length →
    it.mmap.length < (records codec (log.locked.take i)).length

theorem ReaderAt.view (reader : ReaderAt codec log returned it j)
    (short : ∀ entry ∈ log.locked, (codec.encode entry).length < 2 ^ 32)
    (file : log.file <+: records codec log.locked) : ReaderView codec log it j := by
  rcases next_following short (reader.mapped.trans file) reader.position with
    ⟨entry, found, complete, step⟩ | ⟨torn, step⟩
  · refine ⟨reader.mapped, reader.seen, ?_, fun nothing => ?_⟩
    · intro other foundOther _
      rw [step, Option.some.inj (found.symm.trans foundOther)]
    · exact absurd (congrArg Prod.fst step) (nothing entry)
  · refine ⟨reader.mapped, reader.seen, ?_, fun _ => torn⟩
    intro entry found complete
    obtain ⟨inside, _⟩ := List.getElem?_eq_some_iff.mp found
    have missing := torn (j + 1) (by omega) inside
    omega

/-- What a refresh makes of a reader that has returned `j` records. If it looked up
more bytes than the iterator knew of, the map is the whole file as it is by then, and
reading resumes at the next record; otherwise nothing changes. -/
structure RefreshView (codec : Codec T) (log : ReplicaLog T) (it : MmapLogIterator) (fileSize j : Nat) :
    Prop where
  view : ReaderView codec log (it.refresh fileSize log.file) j
  stays : (it.refresh fileSize log.file).position = it.position
  grown : it.fileSize < fileSize →
    (it.refresh fileSize log.file).mmap = log.file ∧ (it.refresh fileSize log.file).fileSize = fileSize
  resumes : it.fileSize < fileSize → ∀ entry, log.locked[j]? = some entry →
    (records codec (log.locked.take (j + 1))).length ≤ log.file.length →
    ((it.refresh fileSize log.file).next codec).1 = some (.ok entry)
  kept : fileSize ≤ it.fileSize → it.refresh fileSize log.file = it

theorem ReaderAt.refreshView (reader : ReaderAt codec log returned it j) {fileSize : Nat}
    (known : fileSize ≤ log.file.length)
    (short : ∀ entry ∈ log.locked, (codec.encode entry).length < 2 ^ 32)
    (file : log.file <+: records codec log.locked) : RefreshView codec log it fileSize j := by
  have after := reader.refresh known
  have view := after.view short file
  have grown : it.fileSize < fileSize → (it.refresh fileSize log.file).mmap = log.file ∧
      (it.refresh fileSize log.file).fileSize = fileSize := by
    intro more
    simp only [MmapLogIterator.refresh, if_pos more, and_self]
  refine ⟨view, after.position.trans reader.position.symm, grown, ?_, ?_⟩
  · intro more entry found complete
    refine view.resumes entry found ?_
    rw [(grown more).1]
    exact complete
  · intro same
    have stays : min it.position it.mmap.length = it.position := Nat.min_eq_left reader.inside
    simp only [MmapLogIterator.refresh, if_neg (Nat.not_lt.mpr same), stays]

/-- Reading a log that is being written loses and invents nothing, in every order of
the writes, the calls of `next` and the refreshes. -/
theorem follower_loses_nothing (codec : Codec T) (s : Follow T) (reach : FollowReach codec s)
    (short : ∀ entry ∈ s.log.locked, (codec.encode entry).length < 2 ^ 32) :
    ∃ j, j ≤ s.log.locked.length ∧ okItems s.returned = s.log.locked.take j ∧
      (∀ e, some (.error (.decode e)) ∉ s.returned) ∧
      (∀ fileSize, s.reader = .opening fileSize →
        (getReplicaLogIterator fileSize s.log.file).mmap = s.log.file ∧
          ReaderView codec s.log (getReplicaLogIterator fileSize s.log.file) j) ∧
      (∀ it, s.reader = .ready it → ReaderView codec s.log it j) ∧
      ∀ it fileSize, s.reader = .refreshing it fileSize → RefreshView codec s.log it fileSize j := by
  obtain ⟨following, clean⟩ := reach.following short
  have file := reach.appended.file_prefix
  cases phase : s.reader with
  | absent =>
    simp only [Following, phase] at following
    exact ⟨0, Nat.zero_le _, by rw [following]; rfl, clean, by simp, by simp, by simp⟩
  | opening fileSize =>
    simp only [Following, phase] at following
    refine ⟨0, Nat.zero_le _, by rw [following.1]; rfl, clean, fun size opening => ⟨rfl, ?_⟩, by simp, by simp⟩
    cases LogReader.opening.inj opening
    exact (ReaderAt.start codec s.log following.2).view short file
  | ready it =>
    simp only [Following, phase] at following
    obtain ⟨j, reader⟩ := following
    refine ⟨j, reader.count, reader.items, clean, by simp, fun other ready => ?_, by simp⟩
    cases LogReader.ready.inj ready
    exact reader.view short file
  | refreshing it fileSize =>
    simp only [Following, phase] at following
    obtain ⟨⟨j, reader⟩, known⟩ := following
    refine ⟨j, reader.count, reader.items, clean, by simp, by simp, fun other size refreshing => ?_⟩
    obtain ⟨rfl, rfl⟩ := LogReader.refreshing.inj refreshing
    exact reader.refreshView known short file

/-- A reader that maps the log when two bytes of a record are there, asks for a record
in vain, and looks the size up again when the whole record has been written. -/
theorem early_reader_reach (codec : Codec T) (entry : T) :
    ∃ s it, FollowReach codec s ∧ s.log.locked = [entry] ∧ s.log.file = logEntry codec entry ∧
      s.returned = [some (.error .lengthPrefix)] ∧ it.fileSize = 2 ∧
      s.reader = .refreshing it s.log.file.length := by
  have base : FollowReach codec ⟨.initial T, .absent, []⟩ := .start
  have opened := base.step (.append ⟨by simp, by simp⟩ (.opened rfl))
  have called := opened.step (.append ⟨by simp, by simp⟩
    (show AppendStep codec (.append entry) _ _ from .append (by simp)))
  have locked := called.step (.append ⟨by simp, by simp⟩ (.lock rfl (List.nil_append [entry]).symm))
  have begun := locked.step (.append ⟨by simp, by simp⟩
    (.writeLength rfl (List.take_append_drop 2 _).symm))
  have sized := begun.step (.lookUp rfl)
  have mapped := sized.step (.map rfl)
  have asked := mapped.step (.next rfl)
  have lengthWritten := asked.step (.append ⟨by simp, by simp⟩ (.writeLength rfl (List.append_nil _).symm))
  have allWritten := lengthWritten.step (.append ⟨by simp, by simp⟩
    (.writeSerialized rfl (List.append_nil _).symm))
  have finished := allWritten.step (.append ⟨by simp, by simp⟩ (.finish rfl))
  have again := finished.step (.refreshLookUp rfl)
  exact ⟨_, _, again, rfl, rfl, rfl, rfl, rfl⟩

/-- The file grows under the reader, the refresh sees the new bytes, and the next call
returns the record that the call before it could not. -/
theorem follower_loses_nothing_early :
    ∃ s it s', FollowReach voteRecordCodec s ∧ s.log.locked = [⟨some ⟨[65]⟩, 5, 0, []⟩] ∧
      (∀ entry ∈ s.log.locked, (voteRecordCodec.encode entry).length < 2 ^ 32) ∧
      s.reader = .refreshing it s.log.file.length ∧ it.fileSize < s.log.file.length ∧
      (∃ j, j ≤ s.log.locked.length ∧ okItems s.returned = s.log.locked.take j ∧
        (∀ e, some (.error (.decode e)) ∉ s.returned) ∧
        (∀ fileSize, s.reader = .opening fileSize →
          (getReplicaLogIterator fileSize s.log.file).mmap = s.log.file ∧
            ReaderView voteRecordCodec s.log (getReplicaLogIterator fileSize s.log.file) j) ∧
        (∀ it, s.reader = .ready it → ReaderView voteRecordCodec s.log it j) ∧
        ∀ it fileSize, s.reader = .refreshing it fileSize → RefreshView voteRecordCodec s.log it fileSize j) ∧
      FollowReach voteRecordCodec s' ∧ s'.log = s.log ∧
      s'.returned = [some (.error .lengthPrefix), some (.ok ⟨some ⟨[65]⟩, 5, 0, []⟩)] := by
  obtain ⟨s, it, reach, order, file, returned, seen, phase⟩ :=
    early_reader_reach voteRecordCodec ⟨some ⟨[65]⟩, 5, 0, []⟩
  have short : ∀ entry ∈ s.log.locked, (voteRecordCodec.encode entry).length < 2 ^ 32 := by
    rw [order]
    decide
  have size : s.log.file.length = 11 := by
    rw [file]
    decide
  have more : it.fileSize < s.log.file.length := by omega
  obtain ⟨j, bound, items, clean, opening, ready, refreshing⟩ :=
    follower_loses_nothing voteRecordCodec s reach short
  have first : j = 0 := by
    rw [returned, order] at items
    cases j with
    | zero => rfl
    | succ j => simp [okItems] at items
  have view := refreshing it _ phase
  have found : ((it.refresh s.log.file.length s.log.file).next voteRecordCodec).1 =
      some (.ok ⟨some ⟨[65]⟩, 5, 0, []⟩) := by
    refine view.resumes more _ ?_ ?_
    · rw [first, order]
      rfl
    · rw [first, order, size]
      decide
  have read := (reach.step (.refreshMap phase)).step (.next rfl)
  refine ⟨s, it, _, reach, order, short, phase, more, ⟨j, bound, items, clean, opening, ready, refreshing⟩,
    read, rfl, ?_⟩
  rw [returned, found, List.singleton_append]

end Reader

end Podnet
