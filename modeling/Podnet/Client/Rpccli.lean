import Podnet.Client.Accounts
import Podnet.Client.ReadBounds
import Podnet.Utf8

namespace Podnet

structure ReadMessage where
  deriving DecidableEq, Repr

structure ReadReply where
  podData : Option PodData

/-- The codes of a failed call that `rpccli` tells apart. -/
inductive Code where
  | cancelled
  | internal
  | other (code : Nat)
  deriving DecidableEq, Repr

structure Status where
  code : Code
  message : String
  deriving DecidableEq, Repr

/-- Why `rpccli read` fails: `Failed to connect to client API server at port` and `Failed to
execute read RPC:`. -/
inductive RpccliError where
  | connect (port : UInt16)
  | read (status : Status)
  deriving DecidableEq, Repr

/-- What a command prints, and its result. -/
structure Printout where
  printed : List String
  result : Except RpccliError Unit
  deriving DecidableEq, Repr

/-- The function that a connected client offers. -/
def createClient {Stub : Type} (port : UInt16) (connected : Option Stub) : Except RpccliError Stub :=
  match connected with
  | some stub => .ok stub
  | none => .error (.connect port)

def recordLines (i : Nat) (record : TxRecord) : List String :=
  let txData := match record.transaction with
    | some tx => Utf8.lossy tx.data
    | none => "[No data]"
  ["Transaction #" ++ toString (i + 1),
    "  Data: " ++ txData,
    "  Min timestamp: " ++ toString record.rmin,
    "  Max timestamp: " ++ toString record.rmax,
    "  Confirmed timestamp: " ++ (match record.rconf with
      | none => "Not confirmed"
      | some ts => toString ts),
    ""]

def podLines (podData : PodData) : List String :=
  ["\n=== Pod Network State ===", "Past Perfect timestamp: " ++ toString podData.rperf, "\nTransactions:"] ++
    if podData.t.isEmpty then ["  No transactions found"]
    else podData.t.zipIdx.flatMap fun entry => recordLines entry.2 entry.1

/-- The command `read`, with what its call comes to. -/
def readCommand (port : UInt16) (connected : Option (ReadMessage → Except Status ReadReply)) : Printout :=
  match createClient port connected with
  | .error e => ⟨[], .error e⟩
  | .ok stub =>
    match stub ⟨⟩ with
    | .error status =>
      if status.code = .cancelled ∨ status.code = .internal then
        ⟨["The client is in an initialization state or recovering from errors.",
          "Hint: The client node is likely still starting up or is missing data.",
          "Wait a moment and try again, or check the client logs for errors."], .ok ()⟩
      else ⟨[], .error (.read status)⟩
    | .ok response =>
      match response.podData with
      | none =>
        ⟨["Successfully connected, but no pod data is available yet.",
          "Try sending some data with: just rpccli-send \"Your transaction data\""], .ok ()⟩
      | some podData => ⟨podLines podData, .ok ()⟩

variable {orders : HashOrders} {service : ClientApiService} {podData : PodData} {record : TxRecord}
  {text : String} {stub : ReadMessage → Except Status ReadReply}

/-- A reply with a state is printed. -/
theorem readCommand_replied (port : UInt16) (replied : stub ⟨⟩ = .ok ⟨some podData⟩) :
    readCommand port (some stub) = ⟨podLines podData, .ok ()⟩ := by
  simp only [readCommand, createClient, replied]

theorem recordLines_infix (member : record ∈ podData.t) : ∃ i, recordLines i record <:+: podLines podData := by
  obtain ⟨i, atIndex⟩ := List.mem_iff_getElem?.mp member
  have entry : (record, i) ∈ podData.t.zipIdx :=
    List.mem_iff_getElem?.mpr ⟨i, by rw [List.getElem?_zipIdx, atIndex]; simp⟩
  have nonempty : podData.t.isEmpty = false := by
    rw [List.isEmpty_eq_false_iff]
    exact List.ne_nil_of_mem member
  refine ⟨i, ?_⟩
  rw [podLines, nonempty, if_neg Bool.false_ne_true]
  obtain ⟨before, after, split⟩ := List.append_of_mem entry
  rw [split, List.flatMap_append, List.flatMap_cons, ← List.append_assoc]
  exact List.infix_append' _ _ _

theorem mem_tsps_of_stamp {s : ClientState} {tx : Transaction} {r : ReplicaId} (known : (s.stamp tx r).isSome) :
    tx ∈ s.tsps := by
  rw [← Finmap.lookup_isSome]
  unfold ClientState.stamp at known
  cases atTx : s.tsps.lookup tx with
  | none => simp [atTx] at known
  | some m => rfl

/-- A text that the client knows is shown as it was sent, with the bounds that the client
computes. -/
theorem text_shown (run : read orders service = some podData)
    (known : ⟨Utf8.encode text⟩ ∈ service.view.tsps) :
    ∃ i record, txRecord orders service ⟨Utf8.encode text⟩ = some record ∧
      recordLines i record <:+: podLines podData ∧ "  Data: " ++ text ∈ recordLines i record := by
  obtain ⟨record, member, own⟩ := read_lists run known
  obtain ⟨i, lines⟩ := recordLines_infix member
  refine ⟨i, record, own, lines, ?_⟩
  simp [recordLines, txRecord_transaction own, Utf8.lossy_encode]

end Podnet
