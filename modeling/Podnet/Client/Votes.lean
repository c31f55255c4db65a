import Podnet.Maps

namespace Podnet

abbrev ReplicaId := UInt64
abbrev Timestamp := UInt64
abbrev SequenceNumber := UInt64

structure Transaction where
  data : List UInt8
  deriving DecidableEq, Repr

/-- A vote as it leaves the protobuf decoder: proto3 leaves the embedded
transaction optional, and nothing has been checked yet. -/
structure Vote where
  replicaId : ReplicaId
  timestamp : Timestamp
  sequenceNumber : SequenceNumber
  signature : List UInt8
  transaction : Option Transaction
  deriving DecidableEq, Repr

/-- prost's `Vote::default()`. -/
def Vote.default : Vote := ⟨0, 0, 0, [], none⟩

abbrev VerifyingKey := Vector UInt8 32
abbrev Signature := Vector UInt8 64

/-- One entry of the client's replica configuration. -/
structure Replica where
  id : ReplicaId
  pk : VerifyingKey
  deriving DecidableEq, Repr

/-- The signature check of the ed25519 library. -/
abbrev VerifyStrict := VerifyingKey → List UInt8 → Signature → Bool

/-- The bytes a replica signs for a vote. -/
def votePayload (transaction : List UInt8) (timestamp sequenceNumber : UInt64) : List UInt8 :=
  transaction ++ Word.toLeBytes timestamp ++ Word.toLeBytes sequenceNumber

/-- The payload can be taken apart from its end: both numbers have a fixed width. -/
theorem votePayload_injective {tx tx' : List UInt8} {ts ts' : Timestamp} {sn sn' : SequenceNumber}
    (same : votePayload tx ts sn = votePayload tx' ts' sn') : tx = tx' ∧ ts = ts' ∧ sn = sn' := by
  obtain ⟨front, numbers⟩ := List.append_inj' same
    (by rw [Word.length_toLeBytes, Word.length_toLeBytes])
  obtain ⟨data, stamps⟩ := List.append_inj' front
    (by rw [Word.length_toLeBytes, Word.length_toLeBytes])
  exact ⟨data, Word.toLeBytes_injective stamps, Word.toLeBytes_injective numbers⟩

def verifyVoteSignature (verifyStrict : VerifyStrict) (pk : VerifyingKey) (transaction : List UInt8)
    (timestamp sequenceNumber : UInt64) (signature : List UInt8) : Bool :=
  if size : signature.length = 64 then
    verifyStrict pk (votePayload transaction timestamp sequenceNumber)
      ⟨signature.toArray, by simpa using size⟩
  else false

/-- The ASCII bytes of `HEARTBEAT`. -/
def heartbeatData : List UInt8 := [72, 69, 65, 82, 84, 66, 69, 65, 84]

def isHeartbeat (tx : Transaction) : Bool := tx.data == heartbeatData

section Verified

variable (verifyStrict : VerifyStrict) (replicas : HashMap ReplicaId Replica)

/-- A vote the updater acts on: it carries a transaction and its signature
checks under the key configured for the replica it names. -/
def Verified (vote : Vote) : Prop :=
  ∃ tx replica, vote.transaction = some tx ∧ replicas.lookup vote.replicaId = some replica ∧
    verifyVoteSignature verifyStrict replica.pk tx.data vote.timestamp vote.sequenceNumber
      vote.signature = true

instance (vote : Vote) : Decidable (Verified verifyStrict replicas vote) :=
  match htx : vote.transaction, hr : replicas.lookup vote.replicaId with
  | some tx, some replica =>
    decidable_of_iff (verifyVoteSignature verifyStrict replica.pk tx.data vote.timestamp
      vote.sequenceNumber vote.signature = true) (by simp [Verified, htx, hr])
  | none, _ => isFalse (by simp [Verified, htx])
  | some _, none => isFalse (by simp [Verified, hr])

end Verified

/-- A stand-in for ed25519 that evaluates: the signature is the padded payload
shifted by the key, so a key accepts what it signed. -/
def standInSign (pk : VerifyingKey) (message : List UInt8) : Signature :=
  Vector.ofFn fun i => message.getD i 0 + pk.get ⟨i % 32, Nat.mod_lt _ (by decide)⟩

def standInVerify : VerifyStrict := fun pk message signature => signature == standInSign pk message

/-- The vote a replica signs, as both of its voting services assemble it. -/
def signedVote (sign : List UInt8 → Signature) (replicaId : ReplicaId) (data : List UInt8)
    (timestamp : Timestamp) (sequenceNumber : SequenceNumber) : Vote :=
  ⟨replicaId, timestamp, sequenceNumber,
    (sign (votePayload data timestamp sequenceNumber)).toList, some ⟨data⟩⟩

theorem verified_signedVote {verifyStrict : VerifyStrict} {replicas : HashMap ReplicaId Replica}
    {sign : List UInt8 → Signature} {replica : Replica} {data : List UInt8} {timestamp : Timestamp}
    {sequenceNumber : SequenceNumber} {replicaId : ReplicaId}
    (known : replicas.lookup replicaId = some replica)
    (valid : verifyStrict replica.pk (votePayload data timestamp sequenceNumber)
      (sign (votePayload data timestamp sequenceNumber)) = true) :
    Verified verifyStrict replicas (signedVote sign replicaId data timestamp sequenceNumber) := by
  refine ⟨⟨data⟩, replica, rfl, known, ?_⟩
  have size : (signedVote sign replicaId data timestamp sequenceNumber).signature.length = 64 := by
    simp [signedVote]
  rw [verifyVoteSignature, dif_pos size]
  exact valid

/-- Replicas that share one stand-in key, and what they sign with it. -/
def standInReplicas (ids : List ReplicaId) : List Replica :=
  ids.map fun id => ⟨id, Vector.replicate 32 3⟩

def standInVote : ReplicaId → List UInt8 → Timestamp → SequenceNumber → Vote :=
  signedVote (standInSign (Vector.replicate 32 3))

end Podnet
