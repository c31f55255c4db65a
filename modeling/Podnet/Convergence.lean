import Podnet.Agreement
import Podnet.Client.WalkOrder

namespace Podnet

section Views

variable {replicas : HashMap ReplicaId Replica} {s s' : ClientState} {orders : HashOrders} {alpha beta : Nat}
  {tx : Transaction}

/-- The timestamps that a client keeps are those of its accounts. -/
theorem ViewInv.tsps_eq (inv : ViewInv replicas s) (inv' : ViewInv replicas s')
    (agree : ∀ r ∈ replicas, s.account r = s'.account r) : s.tsps = s'.tsps := by
  have stamps : ∀ tx r, s.stamp tx r = s'.stamp tx r := by
    intro tx r
    by_cases configured : r ∈ replicas
    · exact congrFun (congrArg Account.stamps (agree r configured)) tx
    · have none : ∀ {state : ClientState}, ViewInv replicas state → state.stamp tx r = none := by
        intro state inv
        cases stamp : state.stamp tx r with
        | none => rfl
        | some ts => exact absurd (inv.voters tx r ts stamp) configured
      rw [none inv, none inv']
  refine Finmap.ext_lookup fun tx => ?_
  -- a client keeps no empty map of votes
  have some_of : ∀ {state state' : ClientState}, ViewInv replicas state →
      (∀ r, state.stamp tx r = state'.stamp tx r) → ∀ m, state.tsps.lookup tx = some m →
        ∃ m', state'.tsps.lookup tx = some m' := by
    intro state state' inv same m known
    obtain ⟨r, ts, stamp⟩ := inv.inhabited tx (Finmap.mem_of_lookup_eq_some known)
    obtain ⟨m', known', _⟩ := Option.bind_eq_some_iff.mp ((same r).symm.trans stamp)
    exact ⟨m', known'⟩
  cases own : s.tsps.lookup tx with
  | none =>
    cases other : s'.tsps.lookup tx with
    | none => rfl
    | some m' =>
      obtain ⟨m, known⟩ := some_of inv' (fun r => (stamps tx r).symm) m' other
      rw [own] at known
      simp at known
  | some m =>
    obtain ⟨m', other⟩ := some_of inv (stamps tx) m own
    have equal : m = m' := by
      refine Finmap.ext_lookup fun r => ?_
      have same := stamps tx r
      simpa only [ClientState.stamp, own, other, Option.bind_some] using same
    rw [other, equal]

theorem ViewInv.mrt_eq (inv : ViewInv replicas s) (inv' : ViewInv replicas s')
    (agree : ∀ r ∈ replicas, s.account r = s'.account r) : s.mrt = s'.mrt := by
  refine Finmap.ext_lookup fun r => ?_
  by_cases configured : r ∈ replicas
  · obtain ⟨m, known⟩ := Finmap.mem_iff.mp ((inv.mrtKeys r).mpr configured)
    obtain ⟨m', known'⟩ := Finmap.mem_iff.mp ((inv'.mrtKeys r).mpr configured)
    have same := congrArg Account.mrt (agree r configured)
    simp only [ClientState.account, known, known', Option.getD_some] at same
    rw [known, known', same]
  · rw [Finmap.lookup_eq_none.mpr fun member => configured ((inv.mrtKeys r).mp member),
      Finmap.lookup_eq_none.mpr fun member => configured ((inv'.mrtKeys r).mp member)]

/-- Two clients with the same accounts report the same, up to the order in which they walk
through their maps and up to `rconf` and the evidence. -/
theorem same_bounds {orders' : HashOrders} {reply reply' : PodData} (inv : ViewInv replicas s)
    (inv' : ViewInv replicas s') (agree : ∀ r ∈ replicas, s.account r = s'.account r)
    (run : read orders ⟨replicas, s, alpha, beta⟩ = some reply)
    (run' : read orders' ⟨replicas, s', alpha, beta⟩ = some reply') :
    reply.rperf = reply'.rperf ∧
    (∀ tx, (∃ record ∈ reply.t, record.transaction = some tx) ↔
      ∃ record ∈ reply'.t, record.transaction = some tx) ∧
    ∀ record ∈ reply.t, ∀ record' ∈ reply'.t, record.transaction = record'.transaction →
      record.rmin = record'.rmin ∧ record.rmax = record'.rmax := by
  have tsps := inv.tsps_eq inv' agree
  have mrt := inv.mrt_eq inv' agree
  refine ⟨?_, fun tx => by rw [read_lists_iff run, read_lists_iff run', tsps], ?_⟩
  · rw [(read_fields run).1, (read_fields run').1, minPossibleTsForNewTx_orders orders orders',
      minPossibleTsForNewTx, minPossibleTsForNewTx, mrt]
  · intro record member record' member' named
    obtain ⟨tx, known, own⟩ := (read_mem_iff run).mp member
    obtain ⟨tx', known', own'⟩ := (read_mem_iff run').mp member'
    rw [txRecord_transaction own, txRecord_transaction own'] at named
    cases Option.some.inj named
    obtain ⟨m, atTx⟩ := Finmap.mem_iff.mp known
    obtain ⟨m', atTx'⟩ := Finmap.mem_iff.mp known'
    obtain ⟨rmin, rmax, _⟩ := txRecord_fields atTx own
    obtain ⟨rmin', rmax', _⟩ := txRecord_fields atTx' own'
    constructor
    · rw [rmin, rmin', minPossibleTs_orders orders orders', minPossibleTs, minPossibleTs, tsps, mrt]
    · have upper : maxPossibleTs orders ⟨replicas, s, alpha, beta⟩ tx =
          maxPossibleTs orders' ⟨replicas, s', alpha, beta⟩ tx := by
        rw [maxPossibleTs_orders orders orders', maxPossibleTs, maxPossibleTs, tsps]
      exact Option.some.inj (rmax.symm.trans (upper.trans rmax'))

end Views

section Pods

variable {C : Type} [DecidableEq C] {setup : PodSetup C} {pod pod' : Pod C} {a b : C}

/-- As many votes of a correct replica make the same account. -/
theorem PodSetup.Run.account_eq (reach : setup.Reach pod) (later : setup.Run pod pod') (room : setup.Room pod')
    {r : ReplicaId} (correct : r ∈ setup.correct)
    (counted : (pod.client a).1.nextsn.lookup r = (pod'.client b).1.nextsn.lookup r) :
    (pod.client a).1.account r = (pod'.client b).1.account r := by
  obtain ⟨accountA, accountB, shorter, longer⟩ := PodSetup.Run.histories reach later room ⟨r, correct⟩ a b
  have taken : (setup.ledger pod).taken a ⟨r, correct⟩ = (setup.ledger pod').taken b ⟨r, correct⟩ := by
    simp only [PodSetup.ledger, counted]
  have first := shorter taken.le
  have same := first.eq_of_length (le_antisymm first.length_le (longer taken.ge).length_le)
  rw [accountA, accountB, same]

/-- Clients converge: two clients with one configuration that have processed equally many votes
of every correct replica, and have the same account of every other one, report the same
transactions in the same bounds, at whatever moments of a run and in whatever orders the
votes have come in. -/
theorem clients_converge (setup : PodSetup C) (replicasList : List Replica) (alpha beta : Nat)
    (pod pod' : Pod C) (later : setup.Run pod pod') (room : setup.Room pod') (a b : C) (reply reply' : PodData)
    (reads : setup.Reads replicasList alpha beta pod a reply)
    (reads' : setup.Reads replicasList alpha beta pod' b reply')
    (counted : ∀ r ∈ setup.correct, (pod.client a).1.nextsn.lookup r = (pod'.client b).1.nextsn.lookup r)
    (others : ∀ r ∈ setup.faulty replicasList, (pod.client a).1.account r = (pod'.client b).1.account r) :
    reply.rperf = reply'.rperf ∧
    (∀ tx, (∃ record ∈ reply.t, record.transaction = some tx) ↔
      ∃ record ∈ reply'.t, record.transaction = some tx) ∧
    ∀ record ∈ reply.t, ∀ record' ∈ reply'.t, record.transaction = record'.transaction →
      record.rmin = record'.rmin ∧ record.rmax = record'.rmax := by
  have agree : ∀ r ∈ (initPodNetworkClient replicasList).1,
      (pod.client a).1.account r = (pod'.client b).1.account r := by
    intro r configured
    by_cases honest : r ∈ setup.faulty replicasList
    · exact others r honest
    · have correct := correct_of_notMem_faulty configured honest
      exact PodSetup.Run.account_eq reads.reach later room correct (counted r correct)
  obtain ⟨orders, run⟩ := reads.run
  obtain ⟨orders', run'⟩ := reads'.run
  exact same_bounds reads.viewInv reads'.viewInv agree run run'

/-- Each of two clients has the vote at its own moment. -/
theorem clients_converge_one_vote :
    ∃ pod pod' reply reply', standInPod.Reads (standInReplicas [7]) 1 0 pod true reply ∧
      standInPod.Reads (standInReplicas [7]) 1 0 pod' false reply' ∧
      (∃ record ∈ reply.t, record.transaction = some ⟨[65]⟩) ∧
      reply.rperf = reply'.rperf ∧
      (∀ tx, (∃ record ∈ reply.t, record.transaction = some tx) ↔
        ∃ record ∈ reply'.t, record.transaction = some tx) ∧
      ∀ record ∈ reply.t, ∀ record' ∈ reply'.t, record.transaction = record'.transaction →
        record.rmin = record'.rmin ∧ record.rmax = record'.rmax := by
  obtain ⟨pod, pod', s, reach, later, room, counter, stamp, first, _, second⟩ := standInPod_run
  obtain ⟨reply, reads⟩ := standIn_reads (c := true) reach
  obtain ⟨reply', reads'⟩ := standIn_reads (c := false) (reach.trans later)
  have recorded : (pod.client true).1.stamp ⟨[65]⟩ 7 = some 5 := by rw [first]; exact stamp
  have counted : ∀ r ∈ standInPod.correct,
      (pod.client true).1.nextsn.lookup r = (pod'.client false).1.nextsn.lookup r := by
    intro r _
    rw [first, second]
  have others : ∀ r ∈ standInPod.faulty (standInReplicas [7]),
      (pod.client true).1.account r = (pod'.client false).1.account r := by
    intro r _
    rw [first, second]
  exact ⟨pod, pod', reply, reply', reads, reads', reads.listed recorded,
    clients_converge standInPod (standInReplicas [7]) 1 0 pod pod' later room true false reply reply' reads reads'
      counted others⟩

end Pods

end Podnet
