import Podnet.Client.Runs
import Podnet.OrderStatistic

namespace Podnet

open OrderStatistic

structure TxRecord where
  transaction : Option Transaction
  rmin : Timestamp
  rmax : Timestamp
  rconf : Option Timestamp
  ctx : List Vote

structure PodData where
  t : List TxRecord
  rperf : Timestamp
  cpp : List Vote

/-- The orders in which one read walks through the hash maps. -/
structure HashOrders where
  replicas : IterOrder ReplicaId Replica
  tsps : IterOrder Transaction (HashMap ReplicaId Timestamp)
  voters : Transaction → IterOrder ReplicaId Timestamp
  mrt : IterOrder ReplicaId Timestamp

/-- The read side of the client on one state of the shared maps. -/
structure ClientApiService where
  replicas : HashMap ReplicaId Replica
  view : ClientState
  alpha : Nat
  beta : Nat

/-- `timestamps.get(timestamps.len() / 2)`, zero if there is none. -/
def middle (timestamps : List Timestamp) : Timestamp :=
  timestamps.getD (timestamps.length / 2) 0

section Api

variable (orders : HashOrders) (service : ClientApiService)

def minPossibleTs (tx : Transaction) : Timestamp :=
  let timestamps := (orders.replicas.keys service.replicas).filterMap fun replicaId =>
    match service.view.tsps.lookup tx with
    | some txTimestamps => txTimestamps.lookup replicaId
    | none => service.view.mrt.lookup replicaId
  let firstPart := List.replicate service.beta 0 ++ timestamps.insertionSort (· ≤ ·)
  middle (firstPart.take service.alpha)

def minPossibleTsForNewTx : Timestamp :=
  let timestamps := List.replicate service.beta 0 ++ orders.mrt.values service.view.mrt
  middle ((timestamps.insertionSort (· ≤ ·)).take service.alpha)

/-- `none` is the panic of `split_off` on an underflowing position. -/
def maxPossibleTs (tx : Transaction) : Option Timestamp :=
  let timestamps := (orders.replicas.keys service.replicas).filterMap fun replicaId =>
    match service.view.tsps.lookup tx with
    | some txTimestamps => txTimestamps.lookup replicaId
    | none => some Word.max
  let timestamps := timestamps.insertionSort (· ≤ ·) ++ List.replicate service.beta Word.max
  if timestamps.length < service.alpha then none
  else some (middle (timestamps.drop (timestamps.length - service.alpha)))

/-- One round of the loop of `read`. -/
def txRecord (tx : Transaction) : Option TxRecord :=
  let rmin := minPossibleTs orders service tx
  match maxPossibleTs orders service tx with
  | none => none
  | some rmax =>
    match service.view.tsps.lookup tx with
    | none => some ⟨some tx, rmin, rmax, none, []⟩
    | some tspstx =>
      let timestamps := ((orders.voters tx).keys tspstx).filterMap tspstx.lookup
      some ⟨some tx, rmin, rmax, some (middle timestamps),
        timestamps.map fun ts => (service.view.tsVoteMsg.lookup ts).getD Vote.default⟩

def txRecords : List Transaction → Option (List TxRecord)
  | [] => some []
  | tx :: txs =>
    match txRecord orders service tx with
    | none => none
    | some record =>
      match txRecords txs with
      | none => none
      | some records => some (record :: records)

/-- `none` is a panic. -/
def read : Option PodData :=
  match txRecords orders service (orders.tsps.keys service.view.tsps) with
  | none => none
  | some t =>
    some ⟨t, minPossibleTsForNewTx orders service,
      (orders.mrt.values service.view.mrt).map fun ts =>
        (service.view.tsVoteMsg.lookup ts).getD Vote.default⟩

end Api

/-- The checks of the client's `main`, over the natural numbers, and distinct
replica ids. -/
structure Accepted (replicasList : List Replica) (alpha beta : Nat) : Prop where
  distinct : (replicasList.map Replica.id).Nodup
  alpha_ge : 4 * beta + 1 ≤ alpha
  enough : alpha + beta ≤ replicasList.length

/-- The service on a state of a configured client. -/
abbrev serviceOf (replicasList : List Replica) (alpha beta : Nat) (s : ClientState) :
    ClientApiService :=
  ⟨(initPodNetworkClient replicasList).1, s, alpha, beta⟩

/-- The number of votes recorded for a transaction. -/
def ClientState.voteCount (s : ClientState) (tx : Transaction) : Nat :=
  match s.tsps.lookup tx with
  | none => 0
  | some tspstx => tspstx.keys.card

variable {orders : HashOrders} {service : ClientApiService} {tx : Transaction}

theorem txRecords_some_iff {txs : List Transaction} {records : List TxRecord} :
    txRecords orders service txs = some records ↔
      List.Forall₂ (fun tx record => txRecord orders service tx = some record) txs records := by
  induction txs generalizing records with
  | nil => simp [txRecords, eq_comm]
  | cons tx txs ih =>
    rw [List.forall₂_cons_left_iff, txRecords]
    constructor
    · intro run
      split at run
      · simp at run
      · rename_i record first
        split at run
        · simp at run
        · rename_i rest others
          exact ⟨record, rest, first, ih.mp others, (Option.some.inj run).symm⟩
    · intro ⟨record, rest, first, others, same⟩
      rw [first, ih.mpr others, same]

/-- A read panics exactly if one of its transactions does. -/
theorem read_isSome_iff :
    (read orders service).isSome ↔
      ∀ tx ∈ service.view.tsps, (txRecord orders service tx).isSome := by
  have records : ∀ txs, (txRecords orders service txs).isSome ↔
      ∀ tx ∈ txs, (txRecord orders service tx).isSome := by
    intro txs
    induction txs with
    | nil => simp [txRecords]
    | cons tx txs ih =>
      rw [List.forall_mem_cons, ← ih, txRecords]
      cases txRecord orders service tx <;> cases txRecords orders service txs <;> simp
  have all := records (orders.tsps.keys service.view.tsps)
  simp only [orders.tsps.mem_keys] at all
  rw [← all, read]
  cases txRecords orders service (orders.tsps.keys service.view.tsps) <;> simp

theorem txRecord_transaction {record : TxRecord} (run : txRecord orders service tx = some record) :
    record.transaction = some tx := by
  unfold txRecord at run
  split at run
  · simp at run
  · split at run
    · cases Option.some.inj run
      rfl
    · cases Option.some.inj run
      rfl

/-- A read reports exactly the known transactions, each with its own record. -/
theorem read_mem_iff {pod : PodData} (run : read orders service = some pod) {record : TxRecord} :
    record ∈ pod.t ↔ ∃ tx ∈ service.view.tsps, txRecord orders service tx = some record := by
  unfold read at run
  split at run
  · simp at run
  · rename_i t records
    cases Option.some.inj run
    have pairs := txRecords_some_iff.mp records
    simp only [← orders.tsps.mem_keys]
    constructor
    · intro member
      obtain ⟨i, inside, rfl⟩ := List.mem_iff_getElem.mp member
      have insideTxs : i < (orders.tsps.keys service.view.tsps).length := pairs.length_eq ▸ inside
      exact ⟨_, List.getElem_mem insideTxs, pairs.get insideTxs inside⟩
    · intro ⟨tx, known, own⟩
      obtain ⟨i, inside, rfl⟩ := List.mem_iff_getElem.mp known
      have insideT : i < t.length := pairs.length_eq ▸ inside
      have same := Option.some.inj (own.symm.trans (pairs.get inside insideT))
      exact same ▸ List.getElem_mem insideT

/-- A read that returns has a record of every known transaction. -/
theorem read_lists {pod : PodData} (run : read orders service = some pod)
    (member : tx ∈ service.view.tsps) : ∃ record ∈ pod.t, txRecord orders service tx = some record := by
  have returned : (read orders service).isSome := by
    rw [run]
    rfl
  obtain ⟨record, own⟩ := Option.isSome_iff_exists.mp (read_isSome_iff.mp returned tx member)
  exact ⟨record, (read_mem_iff run).mpr ⟨tx, member, own⟩, own⟩

theorem read_fields {pod : PodData} (run : read orders service = some pod) :
    pod.rperf = minPossibleTsForNewTx orders service ∧
      pod.cpp = (orders.mrt.values service.view.mrt).map fun ts =>
        (service.view.tsVoteMsg.lookup ts).getD Vote.default := by
  unfold read at run
  split at run
  · simp at run
  · cases Option.some.inj run
    exact ⟨rfl, rfl⟩

end Podnet
