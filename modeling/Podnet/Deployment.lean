import Podnet.Client.Config
import Podnet.Client.Votes

namespace Podnet

abbrev SigningKey := Vector UInt8 32

/-- What the programs use of libraries that are not part of the repository: the signature
scheme, whose `fromBytes` fails on bytes that are no point of the curve, the hexadecimal
texts and the URLs. -/
structure Libraries (Url : Type) where
  verifyingKey : SigningKey → VerifyingKey
  sign : SigningKey → List UInt8 → Signature
  verifyStrict : VerifyStrict
  fromBytes : Vector UInt8 32 → Except String VerifyingKey
  hexEncode : List UInt8 → String
  hexDecode : String → Except String (List UInt8)
  parseUrl : String → Except String Url

/-- The keys of the scheme go through their bytes, its signatures verify, and what was
encoded is decoded. -/
structure Libraries.Lawful {Url : Type} (libs : Libraries Url) : Prop where
  fromBytes : ∀ sk, libs.fromBytes (libs.verifyingKey sk) = .ok (libs.verifyingKey sk)
  verifies : ∀ sk message, libs.verifyStrict (libs.verifyingKey sk) message (libs.sign sk message) = true
  hexDecode : ∀ bytes, libs.hexDecode (libs.hexEncode bytes) = .ok bytes

/-- An entry of the replica configuration file. -/
structure ReplicaConfig where
  id : UInt64
  url : String
  pk : String
  deriving DecidableEq, Repr

/-- An entry of the file with the private keys. -/
structure PrivateKeyConfig where
  id : UInt64
  port : UInt16
  privk : String
  deriving DecidableEq, Repr

/-- A replica as the client reads it, with the URL that the connection is made to. -/
structure ConfiguredReplica (Url : Type) extends Replica where
  url : Url

/-- Why an entry of a configuration is refused: by its URL, or by its public key with
`Invalid hex string`, `Invalid key length, must be 32 bytes` and `Invalid ed25519 public
key`. -/
inductive ConfigError where
  | invalidUrl (e : String)
  | invalidHex (e : String)
  | invalidLength
  | invalidKey (e : String)
  deriving DecidableEq, Repr

/-- Why the replica refuses its private key: `Failed to decode private key hex` and `Private
key must be exactly 32 bytes`. -/
inductive PrivateKeyError where
  | invalidHex (e : String)
  | invalidLength
  deriving DecidableEq, Repr

section Files

variable {Url : Type} (libs : Libraries Url)

/-- The entries for one pair of keys, in the arithmetic of a release build. -/
def generateEntry (scheme host : String) (basePort : UInt16) (i : Nat) (signingKey : SigningKey) :
    ReplicaConfig × PrivateKeyConfig :=
  let port := basePort + UInt16.ofNat i
  (⟨UInt64.ofNat i, scheme ++ "://" ++ host ++ ":" ++ toString port,
      libs.hexEncode (libs.verifyingKey signingKey).toList⟩,
    ⟨UInt64.ofNat i, port, libs.hexEncode signingKey.toList⟩)

/-- What the URL library finds in the base URL. It leaves out the default port of a scheme. -/
structure BaseUrl where
  scheme : String
  host : Option String
  port : Option UInt16

/-- The two files of `generate_replica_config`, for the signing keys in the order of their
generation. -/
def generateReplicaConfig (baseUrl : BaseUrl) (signingKeys : List SigningKey) :
    List ReplicaConfig × List PrivateKeyConfig :=
  let host := baseUrl.host.getD "localhost"
  let basePort := baseUrl.port.getD 80
  (signingKeys.zipIdx.map fun entry =>
    generateEntry libs baseUrl.scheme host basePort entry.2 entry.1).unzip

/-- The `serialize` of `hex_serde`. -/
def serializeKey (key : VerifyingKey) : String := libs.hexEncode key.toList

/-- The `deserialize` of `hex_serde`. -/
def deserializeKey (hexString : String) : Except ConfigError VerifyingKey :=
  match libs.hexDecode hexString with
  | .error e => .error (.invalidHex e)
  | .ok bytes =>
    if length : bytes.length = 32 then
      match libs.fromBytes ⟨bytes.toArray, length⟩ with
      | .error e => .error (.invalidKey e)
      | .ok key => .ok key
    else .error .invalidLength

/-- One entry, its fields in the order in which `generate_replica_config` writes them. -/
def deserializeReplica (config : ReplicaConfig) : Except ConfigError (ConfiguredReplica Url) :=
  match libs.parseUrl config.url with
  | .error e => .error (.invalidUrl e)
  | .ok url =>
    match deserializeKey libs config.pk with
    | .error e => .error e
    | .ok pk => .ok ⟨⟨config.id, pk⟩, url⟩

/-- The replicas of a configuration file. One bad entry fails the whole file. -/
def processReplicaConfigFile : List ReplicaConfig → Except ConfigError (List (ConfiguredReplica Url))
  | [] => .ok []
  | config :: rest =>
    match deserializeReplica libs config with
    | .error e => .error e
    | .ok replica =>
      match processReplicaConfigFile rest with
      | .error e => .error e
      | .ok replicas => .ok (replica :: replicas)

/-- The private key on the command line of a replica. -/
def parsePrivateKey (privateKey : String) : Except PrivateKeyError SigningKey :=
  match libs.hexDecode privateKey with
  | .error e => .error (.invalidHex e)
  | .ok bytes => if length : bytes.length = 32 then .ok ⟨bytes.toArray, length⟩ else .error .invalidLength

end Files

section Keys

variable {Url : Type} {libs : Libraries Url} {text : String} {key : VerifyingKey} {signingKey : SigningKey}
  {config : ReplicaConfig} {configs : List ReplicaConfig} {replica : ConfiguredReplica Url}
  {replicas : List (ConfiguredReplica Url)}

theorem toList_mk {bytes : List UInt8} (length : bytes.length = 32) :
    (⟨bytes.toArray, length⟩ : Vector UInt8 32).toList = bytes := by
  simp [Vector.toList]

theorem mk_toList (bytes : Vector UInt8 32) (length : bytes.toList.length = 32) :
    (⟨bytes.toList.toArray, length⟩ : Vector UInt8 32) = bytes := by
  apply Vector.toArray_inj.mp
  simp [Vector.toList]

/-- The keys that are accepted: the encodings of points. -/
theorem deserializeKey_ok_iff : deserializeKey libs text = .ok key ↔
    ∃ bytes : Vector UInt8 32, libs.hexDecode text = .ok bytes.toList ∧ libs.fromBytes bytes = .ok key := by
  unfold deserializeKey
  constructor
  · intro accepted
    split at accepted
    · simp at accepted
    · rename_i bytes decoded
      split at accepted
      · rename_i length
        split at accepted
        · simp at accepted
        · rename_i key' point
          cases Except.ok.inj accepted
          exact ⟨⟨bytes.toArray, length⟩, by rw [toList_mk]; exact decoded, point⟩
      · simp at accepted
  · rintro ⟨bytes, decoded, point⟩
    have length : bytes.toList.length = 32 := by simp
    simp only [decoded, dif_pos length, mk_toList, point]

theorem deserializeKey_serializeKey (lawful : libs.Lawful) (point : libs.fromBytes key = .ok key) :
    deserializeKey libs (serializeKey libs key) = .ok key :=
  deserializeKey_ok_iff.mpr ⟨key, lawful.hexDecode _, point⟩

theorem parsePrivateKey_ok_iff : parsePrivateKey libs text = .ok signingKey ↔
    libs.hexDecode text = .ok signingKey.toList := by
  unfold parsePrivateKey
  constructor
  · intro accepted
    split at accepted
    · simp at accepted
    · rename_i bytes decoded
      split at accepted
      · rename_i length
        cases Except.ok.inj accepted
        rw [toList_mk, decoded]
      · simp at accepted
  · intro decoded
    have length : signingKey.toList.length = 32 := by simp
    simp only [decoded, dif_pos length, mk_toList]

theorem deserializeReplica_ok_iff : deserializeReplica libs config = .ok replica ↔
    replica.id = config.id ∧ libs.parseUrl config.url = .ok replica.url ∧
      deserializeKey libs config.pk = .ok replica.pk := by
  obtain ⟨⟨id, pk⟩, url⟩ := replica
  unfold deserializeReplica
  constructor
  · intro read
    split at read
    · simp at read
    · rename_i parsed
      split at read
      · simp at read
      · rename_i accepted
        cases Except.ok.inj read
        exact ⟨rfl, parsed, accepted⟩
  · rintro ⟨rfl, parsed, accepted⟩
    simp only [parsed, accepted]

/-- A configuration file is read exactly if each of its entries is, and then into the
replicas that it lists, in their order. -/
theorem processReplicaConfigFile_ok_iff : processReplicaConfigFile libs configs = .ok replicas ↔
    List.Forall₂ (fun config replica => deserializeReplica libs config = .ok replica) configs replicas := by
  induction configs generalizing replicas with
  | nil =>
    rw [List.forall₂_nil_left_iff, processReplicaConfigFile, Except.ok.injEq]
    exact eq_comm
  | cons config rest ih =>
    constructor
    · intro read
      unfold processReplicaConfigFile at read
      split at read
      · simp at read
      · rename_i replica accepted
        split at read
        · simp at read
        · rename_i replicas' others
          cases Except.ok.inj read
          exact .cons accepted (ih.mp others)
    · intro listed
      cases listed with
      | cons own others => simp only [processReplicaConfigFile, own, ih.mpr others]

theorem exists_processReplicaConfigFile_iff : (∃ replicas, processReplicaConfigFile libs configs = .ok replicas) ↔
    ∀ config ∈ configs, ∃ replica, deserializeReplica libs config = .ok replica := by
  simp only [processReplicaConfigFile_ok_iff]
  induction configs with
  | nil => exact ⟨fun _ _ member => absurd member List.not_mem_nil, fun _ => ⟨[], .nil⟩⟩
  | cons config rest ih =>
    rw [List.forall_mem_cons, ← ih]
    constructor
    · rintro ⟨_, listed⟩
      cases listed with
      | cons own others => exact ⟨⟨_, own⟩, ⟨_, others⟩⟩
    · rintro ⟨⟨replica, own⟩, ⟨replicas, others⟩⟩
      exact ⟨replica :: replicas, .cons own others⟩

end Keys

section Generated

variable {Url : Type} {libs : Libraries Url} {baseUrl : BaseUrl} {signingKeys : List SigningKey}
  {signingKey : SigningKey} {i : Nat}

/-- The replicas that a generated configuration stands for. -/
def generatedReplicas (libs : Libraries Url) (signingKeys : List SigningKey) : List Replica :=
  signingKeys.zipIdx.map fun entry => ⟨UInt64.ofNat entry.2, libs.verifyingKey entry.1⟩

theorem length_generatedReplicas : (generatedReplicas libs signingKeys).length = signingKeys.length := by
  rw [generatedReplicas, List.length_map, List.length_zipIdx]

theorem zipIdx_snd : signingKeys.zipIdx.map Prod.snd = List.range signingKeys.length := by
  rw [List.zipIdx_map_snd, List.range_eq_range']

theorem ids_generatedReplicas :
    (generatedReplicas libs signingKeys).map Replica.id = (List.range signingKeys.length).map UInt64.ofNat := by
  rw [generatedReplicas, List.map_map, ← zipIdx_snd, List.map_map]
  rfl

theorem distinct_generatedReplicas (short : signingKeys.length < 2 ^ 64) :
    ((generatedReplicas libs signingKeys).map Replica.id).Nodup := by
  rw [ids_generatedReplicas]
  refine List.Nodup.of_map UInt64.toNat ?_
  rw [Word.map_toNat_range short.le]
  exact List.nodup_range

/-- The key of a generated entry is read back, so that only its URL can be refused. -/
theorem deserialize_generated (lawful : libs.Lawful) {scheme host : String} {basePort : UInt16}
    {replica : ConfiguredReplica Url} :
    deserializeReplica libs (generateEntry libs scheme host basePort i signingKey).1 = .ok replica ↔
      replica.toReplica = ⟨UInt64.ofNat i, libs.verifyingKey signingKey⟩ ∧
        libs.parseUrl (generateEntry libs scheme host basePort i signingKey).1.url = .ok replica.url := by
  have key : deserializeKey libs (libs.hexEncode (libs.verifyingKey signingKey).toList) =
      .ok (libs.verifyingKey signingKey) := deserializeKey_serializeKey lawful (lawful.fromBytes signingKey)
  obtain ⟨⟨id, pk⟩, url⟩ := replica
  rw [deserializeReplica_ok_iff]
  simp only [generateEntry, key, Except.ok.injEq, Replica.mk.injEq]
  constructor
  · rintro ⟨own, parsed, same⟩
    exact ⟨⟨own, same.symm⟩, parsed⟩
  · rintro ⟨⟨own, same⟩, parsed⟩
    exact ⟨own, parsed, same.symm⟩

/-- A generated file is read exactly if its URLs parse. -/
theorem exists_process_generated_iff (lawful : libs.Lawful) :
    (∃ replicas, processReplicaConfigFile libs (generateReplicaConfig libs baseUrl signingKeys).1 = .ok replicas) ↔
      ∀ config ∈ (generateReplicaConfig libs baseUrl signingKeys).1, ∃ url, libs.parseUrl config.url = .ok url := by
  rw [exists_processReplicaConfigFile_iff, generateReplicaConfig, List.unzip_fst, List.map_map]
  simp only [List.forall_mem_map, Function.comp_apply, deserialize_generated lawful]
  constructor
  · intro read entry member
    obtain ⟨replica, _, parsed⟩ := read entry member
    exact ⟨replica.url, parsed⟩
  · intro parses entry member
    obtain ⟨url, parsed⟩ := parses entry member
    exact ⟨⟨⟨UInt64.ofNat entry.2, libs.verifyingKey entry.1⟩, url⟩, rfl, parsed⟩

/-- It is read into the replicas whose keys were generated. -/
theorem process_generated (lawful : libs.Lawful) {replicas : List (ConfiguredReplica Url)}
    (read : processReplicaConfigFile libs (generateReplicaConfig libs baseUrl signingKeys).1 = .ok replicas) :
    replicas.map ConfiguredReplica.toReplica = generatedReplicas libs signingKeys := by
  rw [processReplicaConfigFile_ok_iff, generateReplicaConfig, List.unzip_fst, List.map_map,
    List.forall₂_map_left_iff] at read
  have same : List.Forall₂ (fun entry replica => replica = entry)
      (generatedReplicas libs signingKeys) (replicas.map ConfiguredReplica.toReplica) := by
    rw [generatedReplicas, List.forall₂_map_left_iff, List.forall₂_map_right_iff]
    exact read.imp fun entry replica own => ((deserialize_generated lawful).mp own).1
  exact (List.forall₂_eq_eq_eq ▸ same.flip)

theorem private_generated (known : signingKeys[i]? = some signingKey) :
    (generateReplicaConfig libs baseUrl signingKeys).2[i]? =
      some ⟨UInt64.ofNat i, baseUrl.port.getD 80 + UInt16.ofNat i, libs.hexEncode signingKey.toList⟩ := by
  rw [generateReplicaConfig, List.unzip_snd, List.map_map, List.getElem?_map, List.getElem?_zipIdx, known]
  simp [generateEntry]

/-- With distinct ids the replicas are found under them. -/
theorem lookup_initReplicas {replicasList : List Replica} {replica : Replica}
    (distinct : (replicasList.map Replica.id).Nodup) (listed : replica ∈ replicasList) :
    (initPodNetworkClient replicasList).1.lookup replica.id = some replica := by
  suffices fold : ∀ m : HashMap ReplicaId Replica,
      (replicasList.foldl (fun m replica => Finmap.insert replica.id replica m) m).lookup replica.id =
        some replica from fold ∅
  have untouched : ∀ (list : List Replica) (m : HashMap ReplicaId Replica), replica.id ∉ list.map Replica.id →
      (list.foldl (fun m replica => Finmap.insert replica.id replica m) m).lookup replica.id =
        m.lookup replica.id := by
    intro list
    induction list with
    | nil => intro m _; rfl
    | cons first list ih =>
      intro m absent
      rw [List.map_cons, List.mem_cons, not_or] at absent
      rw [List.foldl_cons, ih _ absent.2, Finmap.lookup_insert_of_ne _ absent.1]
  induction replicasList with
  | nil => simp at listed
  | cons first rest ih =>
    intro m
    rw [List.map_cons, List.nodup_cons] at distinct
    rcases List.mem_cons.mp listed with rfl | later
    · rw [List.foldl_cons, untouched rest _ distinct.1, Finmap.lookup_insert]
    · exact ih distinct.2 later _

/-- The ports are distinct as long as they do not wrap around. -/
theorem ports_generated : ((generateReplicaConfig libs baseUrl signingKeys).2.map
    PrivateKeyConfig.port).Nodup ↔ signingKeys.length ≤ 2 ^ 16 := by
  have ports : (generateReplicaConfig libs baseUrl signingKeys).2.map PrivateKeyConfig.port =
      (List.range signingKeys.length).map fun i => baseUrl.port.getD 80 + UInt16.ofNat i := by
    rw [generateReplicaConfig, List.unzip_snd, List.map_map, List.map_map, ← zipIdx_snd, List.map_map]
    rfl
  generalize baseUrl.port.getD 80 = basePort at ports
  have same : ∀ i j, basePort + UInt16.ofNat i = basePort + UInt16.ofNat j ↔ i % 2 ^ 16 = j % 2 ^ 16 := by
    intro i j
    rw [← UInt16.toNat_inj, UInt16.toNat_add, UInt16.toNat_add, UInt16.toNat_ofNat', UInt16.toNat_ofNat']
    omega
  rw [ports]
  constructor
  · intro distinct
    by_contra many
    have first : 0 ∈ List.range signingKeys.length := List.mem_range.mpr (by omega)
    have again : 2 ^ 16 ∈ List.range signingKeys.length := List.mem_range.mpr (by omega)
    have equal := List.inj_on_of_nodup_map distinct first again ((same 0 (2 ^ 16)).mpr (by norm_num))
    norm_num at equal
  · intro few
    refine List.Nodup.map_on (fun i inside j inside' equal => ?_) List.nodup_range
    have remainders := (same i j).mp equal
    rw [List.mem_range] at inside inside'
    omega

/-- What `generate_replica_config` writes works together, if the libraries do: the client
reads its file exactly if the URLs in it parse, and then has a quorum for all parameters
that the number of replicas allows; every replica reads its own private key, and whatever it
signs with it is verified by the client. Only the ports clash, when there are more than
`2 ^ 16` replicas. -/
theorem generated_deployment_works {Url : Type} (libs : Libraries Url) (lawful : libs.Lawful) (baseUrl : BaseUrl)
    (signingKeys : Vec SigningKey) :
    let files := generateReplicaConfig libs baseUrl signingKeys.val
    ((∃ replicas, processReplicaConfigFile libs files.1 = .ok replicas) ↔
      ∀ config ∈ files.1, ∃ url, libs.parseUrl config.url = .ok url) ∧
    (∀ replicas, processReplicaConfigFile libs files.1 = .ok replicas →
      ∀ alpha beta, 4 * beta + 1 ≤ alpha → alpha + beta ≤ signingKeys.val.length →
        Accepted (replicas.map ConfiguredReplica.toReplica) alpha beta) ∧
    (∀ (i : Nat) (signingKey : SigningKey), signingKeys.val[i]? = some signingKey →
      ∃ config : PrivateKeyConfig, files.2[i]? = some config ∧
        parsePrivateKey libs config.privk = .ok signingKey ∧
        ∀ replicas, processReplicaConfigFile libs files.1 = .ok replicas → ∀ data ts sn,
          Verified libs.verifyStrict (initPodNetworkClient (replicas.map ConfiguredReplica.toReplica)).1
            (signedVote (libs.sign signingKey) config.id data ts sn)) ∧
    ((files.2.map PrivateKeyConfig.port).Nodup ↔ signingKeys.val.length ≤ 2 ^ 16) := by
  intro files
  have distinct : ((generatedReplicas libs signingKeys.val).map Replica.id).Nodup :=
    distinct_generatedReplicas signingKeys.property
  refine ⟨exists_process_generated_iff lawful, fun replicas read alpha beta ratio enough => ?_,
    fun i signingKey known => ?_, ports_generated⟩
  · rw [process_generated lawful read]
    exact ⟨distinct, ratio, by rw [length_generatedReplicas]; exact enough⟩
  · refine ⟨_, private_generated known, parsePrivateKey_ok_iff.mpr (lawful.hexDecode _),
      fun replicas read data ts sn => ?_⟩
    have listed : (⟨UInt64.ofNat i, libs.verifyingKey signingKey⟩ : Replica) ∈
        generatedReplicas libs signingKeys.val := by
      have entry : signingKeys.val.zipIdx[i]? = some (signingKey, i) := by
        rw [List.getElem?_zipIdx, known]
        simp
      exact List.mem_map.mpr ⟨(signingKey, i), List.mem_of_getElem? entry, rfl⟩
    rw [process_generated lawful read]
    exact verified_signedVote (lookup_initReplicas distinct listed) (lawful.verifies signingKey _)

end Generated

section StandIn

/-- The digit of a character, in either case. -/
def standInDigit (c : Char) : Option Nat :=
  if '0' ≤ c ∧ c ≤ '9' then some (c.toNat - 48)
  else if 'a' ≤ c ∧ c ≤ 'f' then some (c.toNat - 87)
  else if 'A' ≤ c ∧ c ≤ 'F' then some (c.toNat - 55)
  else none

def standInHexDecode : List Char → Except String (List UInt8)
  | [] => .ok []
  | [_] => .error "Odd number of digits"
  | high :: low :: rest =>
    match standInDigit high, standInDigit low, standInHexDecode rest with
    | some h, some l, .ok bytes => .ok (UInt8.ofNat (16 * h + l) :: bytes)
    | _, _, .error e => .error e
    | _, _, .ok _ => .error "Invalid character"

def standInHexEncode (bytes : List UInt8) : List Char :=
  bytes.flatMap fun b => [Nat.digitChar (b.toNat / 16), Nat.digitChar (b.toNat % 16)]

theorem standInHexDecode_encode (bytes : List UInt8) :
    standInHexDecode (standInHexEncode bytes) = .ok bytes := by
  have digit : ∀ n < 16, standInDigit (Nat.digitChar n) = some n := by decide
  induction bytes with
  | nil => rfl
  | cons b bytes ih =>
    have small := b.toNat_lt
    have whole : UInt8.ofNat (16 * (b.toNat / 16) + b.toNat % 16) = b := by
      rw [Nat.div_add_mod, UInt8.ofNat_toNat]
    rw [standInHexEncode] at ih
    simp only [standInHexEncode, List.flatMap_cons, List.cons_append, List.nil_append, standInHexDecode,
      digit (b.toNat / 16) (by omega), digit (b.toNat % 16) (by omega), ih, whole]

/-- A scheme whose public keys are its private keys, and URLs that are texts. -/
def standInLibraries : Libraries String where
  verifyingKey := id
  sign := standInSign
  verifyStrict := standInVerify
  fromBytes := .ok
  hexEncode bytes := String.ofList (standInHexEncode bytes)
  hexDecode text := standInHexDecode text.toList
  parseUrl text :=
    if text.toList.take 5 = ['w', 's', ':', '/', '/'] then .ok text else .error "relative URL without a base"

theorem standInLibraries_lawful : standInLibraries.Lawful where
  fromBytes _ := rfl
  verifies sk message := by simp [standInLibraries, standInVerify]
  hexDecode bytes := by
    simp only [standInLibraries, String.toList_ofList]
    exact standInHexDecode_encode bytes

/-- Two replicas on the ports 65535 and 0. -/
theorem generated_deployment_works_two_replicas :
    let signingKeys : Vec SigningKey := ⟨[Vector.replicate 32 1, Vector.replicate 32 2], by decide⟩
    let files := generateReplicaConfig standInLibraries ⟨"ws", none, some 65535⟩ signingKeys.val
    files.2.map PrivateKeyConfig.port = [65535, 0] ∧
    files.1.map ReplicaConfig.url = ["ws://localhost:65535", "ws://localhost:0"] ∧
    (∃ replicas, processReplicaConfigFile standInLibraries files.1 = .ok replicas) ∧
    ((∃ replicas, processReplicaConfigFile standInLibraries files.1 = .ok replicas) ↔
      ∀ config ∈ files.1, ∃ url, standInLibraries.parseUrl config.url = .ok url) ∧
    (∀ replicas, processReplicaConfigFile standInLibraries files.1 = .ok replicas →
      ∀ alpha beta, 4 * beta + 1 ≤ alpha → alpha + beta ≤ signingKeys.val.length →
        Accepted (replicas.map ConfiguredReplica.toReplica) alpha beta) ∧
    (∀ (i : Nat) (signingKey : SigningKey), signingKeys.val[i]? = some signingKey →
      ∃ config : PrivateKeyConfig, files.2[i]? = some config ∧
        parsePrivateKey standInLibraries config.privk = .ok signingKey ∧
        ∀ replicas, processReplicaConfigFile standInLibraries files.1 = .ok replicas → ∀ data ts sn,
          Verified standInLibraries.verifyStrict (initPodNetworkClient (replicas.map ConfiguredReplica.toReplica)).1
            (signedVote (standInLibraries.sign signingKey) config.id data ts sn)) ∧
    ((files.2.map PrivateKeyConfig.port).Nodup ↔ signingKeys.val.length ≤ 2 ^ 16) := by
  intro signingKeys files
  have urls : files.1.map ReplicaConfig.url = ["ws://localhost:65535", "ws://localhost:0"] := by decide +kernel
  have works := generated_deployment_works standInLibraries standInLibraries_lawful ⟨"ws", none, some 65535⟩
    signingKeys
  refine ⟨by decide +kernel, urls, works.1.mpr fun config member => ?_, works⟩
  have url := List.mem_map_of_mem (f := ReplicaConfig.url) member
  rw [urls] at url
  refine ⟨config.url, if_pos ?_⟩
  rcases List.mem_cons.mp url with same | other
  · rw [same]
    decide
  · rw [List.mem_singleton.mp other]
    decide

end StandIn

end Podnet
