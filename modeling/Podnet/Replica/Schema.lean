import Podnet.Client.Votes
import Podnet.Proto3
import Podnet.Replica.Log

namespace Podnet

open Proto3

/-- What the replica writes to its log for a vote. -/
structure VoteRecord where
  tx : Option Transaction
  ts : Timestamp
  sn : SequenceNumber
  sig : List UInt8
  deriving DecidableEq, Repr

def VoteRecord.default : VoteRecord := ⟨none, 0, 0, []⟩

/-- The bytes of variable length in a record. -/
def VoteRecord.size (record : VoteRecord) : Nat :=
  (record.tx.elim 0 fun tx => tx.data.length) + record.sig.length

def Transaction.fields (tx : Transaction) : List Field := bytesField 1 tx.data

def Transaction.encode (tx : Transaction) : List UInt8 := tx.fields.flatMap encodeField

def VoteRecord.fields (record : VoteRecord) : List Field :=
  messageField 1 (record.tx.map Transaction.encode) ++ uint64Field 2 record.ts ++
    uint64Field 3 record.sn ++ bytesField 4 record.sig

def Vote.fields (vote : Vote) : List Field :=
  uint64Field 1 vote.replicaId ++ uint64Field 2 vote.timestamp ++ uint64Field 3 vote.sequenceNumber ++
    bytesField 4 vote.signature ++ messageField 5 (vote.transaction.map Transaction.encode)

/-- How deep a message may be nested that the message library reads. -/
def recursionLimit : Nat := 100

/-- One field merged into a transaction; a known number with another wire type is
an error, an unknown number is skipped. -/
def Transaction.mergeField (tx : Transaction) : Field → Option Transaction
  | (1, .bytes data) => some { tx with data := data }
  | (1, _) => none
  | _ => some tx

/-- A transaction inside another message. -/
def Transaction.merge (tx : Transaction) (input : List UInt8) : Option Transaction :=
  (parse (recursionLimit - 1) input).bind fun fields => fields.foldlM mergeField tx

def VoteRecord.mergeField (record : VoteRecord) : Field → Option VoteRecord
  | (1, .bytes payload) =>
    ((record.tx.getD ⟨[]⟩).merge payload).map fun tx => { record with tx := some tx }
  | (2, .varint v) => some { record with ts := UInt64.ofNat v }
  | (3, .varint v) => some { record with sn := UInt64.ofNat v }
  | (4, .bytes payload) => some { record with sig := payload }
  | (1, _) | (2, _) | (3, _) | (4, _) => none
  | _ => some record

def Vote.mergeField (vote : Vote) : Field → Option Vote
  | (1, .varint v) => some { vote with replicaId := UInt64.ofNat v }
  | (2, .varint v) => some { vote with timestamp := UInt64.ofNat v }
  | (3, .varint v) => some { vote with sequenceNumber := UInt64.ofNat v }
  | (4, .bytes payload) => some { vote with signature := payload }
  | (5, .bytes payload) =>
    ((vote.transaction.getD ⟨[]⟩).merge payload).map fun tx => { vote with transaction := some tx }
  | (1, _) | (2, _) | (3, _) | (4, _) | (5, _) => none
  | _ => some vote

/-- The result of a decoder with the text of its error. -/
def decoded {T : Type} : Option T → Except String T
  | some message => .ok message
  | none => .error "failed to decode Protobuf message"

theorem Transaction.length_encode_le (tx : Transaction) : tx.encode.length ≤ tx.data.length + 20 :=
  length_bytesField 1 tx.data

theorem Transaction.merge_encode {tx : Transaction} (short : tx.encode.length < 2 ^ 64) :
    Transaction.merge ⟨[]⟩ tx.encode = some tx := by
  have shaped : ∀ field ∈ tx.fields, Shaped field :=
    fun _ member => shaped_bytesField (by norm_num) (by norm_num) member
  rw [Transaction.merge, Transaction.encode, parse_encode_short _ shaped short, Option.bind_some]
  refine foldlM_bytesField ?_ rfl
  intro empty
  cases tx
  exact congrArg Transaction.mk empty

/-- A transaction inside a message is read back. -/
theorem Transaction.merge_payload {tx : Option Transaction} {payload : List UInt8} {tag : Nat}
    {fields : List Field} (short : (fields.flatMap encodeField).length < 2 ^ 64)
    (present : tx.map Transaction.encode = some payload)
    (inside : (tag, .bytes payload) ∈ fields) : Transaction.merge ⟨[]⟩ payload = tx := by
  obtain ⟨tx, rfl, rfl⟩ := Option.map_eq_some_iff.mp present
  have size : tx.encode.length ≤ (fields.flatMap encodeField).length := length_payload_le inside
  exact Transaction.merge_encode (size.trans_lt short)

theorem VoteRecord.foldlM_fields {record : VoteRecord}
    (short : (record.fields.flatMap encodeField).length < 2 ^ 64) :
    record.fields.foldlM VoteRecord.mergeField VoteRecord.default = some record := by
  have first : (messageField 1 (record.tx.map Transaction.encode)).foldlM VoteRecord.mergeField
      VoteRecord.default = some ⟨record.tx, 0, 0, []⟩ := by
    refine foldlM_messageField ?_ fun payload present => ?_
    · intro absent
      rw [Option.map_eq_none_iff.mp absent]
      rfl
    · have inside : (1, .bytes payload) ∈ record.fields := by
        simp [VoteRecord.fields, present, messageField]
      have merged := Transaction.merge_payload short present inside
      obtain ⟨tx, known, _⟩ := Option.map_eq_some_iff.mp present
      rw [known] at merged ⊢
      simp [VoteRecord.mergeField, VoteRecord.default, merged]
  have second : (uint64Field 2 record.ts).foldlM VoteRecord.mergeField ⟨record.tx, 0, 0, []⟩ =
      some ⟨record.tx, record.ts, 0, []⟩ :=
    foldlM_uint64Field (fun zero => by rw [zero]) (by simp [VoteRecord.mergeField])
  have third : (uint64Field 3 record.sn).foldlM VoteRecord.mergeField ⟨record.tx, record.ts, 0, []⟩ =
      some ⟨record.tx, record.ts, record.sn, []⟩ :=
    foldlM_uint64Field (fun zero => by rw [zero]) (by simp [VoteRecord.mergeField])
  have fourth : (bytesField 4 record.sig).foldlM VoteRecord.mergeField
      ⟨record.tx, record.ts, record.sn, []⟩ = some record :=
    foldlM_bytesField (fun empty => by cases record; simp_all) rfl
  simp only [VoteRecord.fields, List.foldlM_append, first, second, third, fourth, Option.bind_eq_bind,
    Option.bind_some]

theorem Vote.foldlM_fields {vote : Vote}
    (short : (vote.fields.flatMap encodeField).length < 2 ^ 64) :
    vote.fields.foldlM Vote.mergeField Vote.default = some vote := by
  have first : (uint64Field 1 vote.replicaId).foldlM Vote.mergeField Vote.default =
      some ⟨vote.replicaId, 0, 0, [], none⟩ :=
    foldlM_uint64Field (fun zero => by rw [zero]; rfl) (by simp [Vote.mergeField, Vote.default])
  have second : (uint64Field 2 vote.timestamp).foldlM Vote.mergeField
      ⟨vote.replicaId, 0, 0, [], none⟩ = some ⟨vote.replicaId, vote.timestamp, 0, [], none⟩ :=
    foldlM_uint64Field (fun zero => by rw [zero]) (by simp [Vote.mergeField])
  have third : (uint64Field 3 vote.sequenceNumber).foldlM Vote.mergeField
      ⟨vote.replicaId, vote.timestamp, 0, [], none⟩ =
        some ⟨vote.replicaId, vote.timestamp, vote.sequenceNumber, [], none⟩ :=
    foldlM_uint64Field (fun zero => by rw [zero]) (by simp [Vote.mergeField])
  have fourth : (bytesField 4 vote.signature).foldlM Vote.mergeField
      ⟨vote.replicaId, vote.timestamp, vote.sequenceNumber, [], none⟩ =
        some ⟨vote.replicaId, vote.timestamp, vote.sequenceNumber, vote.signature, none⟩ :=
    foldlM_bytesField (fun empty => by rw [empty]) rfl
  have fifth : (messageField 5 (vote.transaction.map Transaction.encode)).foldlM Vote.mergeField
      ⟨vote.replicaId, vote.timestamp, vote.sequenceNumber, vote.signature, none⟩ = some vote := by
    refine foldlM_messageField ?_ fun payload present => ?_
    · intro absent
      have none := Option.map_eq_none_iff.mp absent
      cases vote
      simp_all
    · have inside : (5, .bytes payload) ∈ vote.fields := by
        simp [Vote.fields, present, messageField]
      have merged := Transaction.merge_payload short present inside
      obtain ⟨tx, known, _⟩ := Option.map_eq_some_iff.mp present
      rw [known] at merged
      cases vote
      simp_all [Vote.mergeField]
  simp only [Vote.fields, List.foldlM_append, first, second, third, fourth, fifth, Option.bind_eq_bind,
    Option.bind_some]

theorem VoteRecord.shaped_fields (record : VoteRecord) : ∀ field ∈ record.fields, Shaped field := by
  intro field member
  simp only [VoteRecord.fields, List.mem_append] at member
  rcases member with ((inTx | inTs) | inSn) | inSig
  · exact shaped_messageField (by norm_num) (by norm_num) inTx
  · exact shaped_uint64Field (by norm_num) (by norm_num) inTs
  · exact shaped_uint64Field (by norm_num) (by norm_num) inSn
  · exact shaped_bytesField (by norm_num) (by norm_num) inSig

theorem Vote.shaped_fields (vote : Vote) : ∀ field ∈ vote.fields, Shaped field := by
  intro field member
  simp only [Vote.fields, List.mem_append] at member
  rcases member with (((inId | inTs) | inSn) | inSig) | inTx
  · exact shaped_uint64Field (by norm_num) (by norm_num) inId
  · exact shaped_uint64Field (by norm_num) (by norm_num) inTs
  · exact shaped_uint64Field (by norm_num) (by norm_num) inSn
  · exact shaped_bytesField (by norm_num) (by norm_num) inSig
  · exact shaped_messageField (by norm_num) (by norm_num) inTx

/-- The messages of the log. -/
def voteRecordCodec : Codec VoteRecord where
  encode record := record.fields.flatMap encodeField
  merge input := decoded ((parse recursionLimit input).bind fun fields =>
    fields.foldlM VoteRecord.mergeField VoteRecord.default)
  merge_encode record short := by
    have small : (record.fields.flatMap encodeField).length < 2 ^ 64 := short.trans (by norm_num)
    rw [parse_encode_short _ record.shaped_fields small, Option.bind_some,
      VoteRecord.foldlM_fields small, decoded]

/-- The messages of the wire. -/
def voteCodec : Codec Vote where
  encode vote := vote.fields.flatMap encodeField
  merge input := decoded ((parse recursionLimit input).bind fun fields =>
    fields.foldlM Vote.mergeField Vote.default)
  merge_encode vote short := by
    have small : (vote.fields.flatMap encodeField).length < 2 ^ 64 := short.trans (by norm_num)
    rw [parse_encode_short _ vote.shaped_fields small, Option.bind_some, Vote.foldlM_fields small, decoded]

theorem length_transactionField (tag : Nat) (tx : Option Transaction) :
    ((messageField tag (tx.map Transaction.encode)).flatMap encodeField).length ≤
      (tx.elim 0 fun tx => tx.data.length) + 40 := by
  have outer := length_messageField tag (tx.map Transaction.encode)
  cases tx with
  | none => simpa using outer.trans (by simp)
  | some tx =>
    have inner := tx.length_encode_le
    simp only [Option.map_some, Option.getD_some, Option.elim_some] at outer ⊢
    omega

theorem compact_voteRecordCodec : voteRecordCodec.Compact VoteRecord.size := by
  intro record
  have tx := length_transactionField 1 record.tx
  have ts := length_uint64Field 2 record.ts
  have sn := length_uint64Field 3 record.sn
  have sig := length_bytesField 4 record.sig
  simp only [voteRecordCodec, VoteRecord.fields, VoteRecord.size, List.flatMap_append, List.length_append]
  omega

end Podnet
