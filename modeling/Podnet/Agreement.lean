import Podnet.Client.Accountability
import Podnet.Pod

namespace Podnet

open OrderStatistic

section Views

variable {C : Type} [DecidableEq C] {setup : PodSetup C} {pod pod' : Pod C}

/-- One of two moments of a run comes first. -/
def PodSetup.Comparable (setup : PodSetup C) (pod pod' : Pod C) : Prop :=
  setup.Run pod pod' ∨ setup.Run pod' pod

/-- A correct replica signs one vote with a number, so it never contradicts itself. -/
theorem PodSetup.Comparable.not_convicted (order : setup.Comparable pod pod') (reach : setup.Reach pod)
    (reach' : setup.Reach pod') {replicas : HashMap ReplicaId Replica} {r : ReplicaId}
    (correct : r ∈ setup.correct) (a b : C) :
    ¬ Convicted setup.verifyStrict replicas (pod.client a).1 (pod'.client b).1 r := by
  rintro ⟨v, w, called, called', _, _, _, _, number, different⟩
  obtain ⟨data, carries, signed⟩ := reach.inv.called_signed called correct
  obtain ⟨data', carries', signed'⟩ := reach'.inv.called_signed called' correct
  -- both votes are signed at the later of the two moments
  have together : ∃ p : Pod C, setup.Reach p ∧
      signedVote (setup.sign r) r data v.timestamp v.sequenceNumber ∈ (p.replica r).node.signed ∧
      signedVote (setup.sign r) r data' w.timestamp w.sequenceNumber ∈ (p.replica r).node.signed := by
    rcases order with later | earlier
    · exact ⟨pod', reach', (PodSetup.Run.signed later reach.inv).2 r correct signed, signed'⟩
    · exact ⟨pod, reach, signed, (PodSetup.Run.signed earlier reach'.inv).2 r correct signed'⟩
  obtain ⟨p, at_, first, second⟩ := together
  have node := (at_.inv.replica r correct).nodeReach
  have distinct := node.apart.signed_nodup node.counted
  have same := List.inj_on_of_nodup_map distinct first second number
  have sameTx := congrArg Vote.transaction same
  have sameTs := congrArg Vote.timestamp same
  exact different ⟨carries.trans (sameTx.trans carries'.symm), sameTs⟩

end Views

section Quorums

variable {C : Type} [DecidableEq C]

/-- The configured replicas that need not be correct. -/
def PodSetup.faulty (setup : PodSetup C) (replicasList : List Replica) : Finset ReplicaId :=
  (replicasList.map Replica.id).toFinset \ setup.correct

/-- A client with a configuration reads a reply at a moment of a run. -/
structure PodSetup.Reads (setup : PodSetup C) (replicasList : List Replica) (alpha beta : Nat) (pod : Pod C)
    (c : C) (reply : PodData) : Prop where
  reach : setup.Reach pod
  config : setup.config c = replicasList
  run : ∃ orders, read orders (serviceOf replicasList alpha beta (pod.client c).1) = some reply

variable {setup : PodSetup C} {replicasList : List Replica} {alpha beta : Nat} {pod pod' : Pod C} {a b : C}
  {reply reply' : PodData}

theorem PodSetup.Reads.clientReach (reads : setup.Reads replicasList alpha beta pod a reply) :
    ClientReach setup.verifyStrict replicasList ((pod.client a).1, (pod.client a).2) := by
  have client := reads.reach.inv.client a
  rw [reads.config] at client
  exact client

theorem PodSetup.Reads.viewInv (reads : setup.Reads replicasList alpha beta pod a reply) :
    ViewInv (initPodNetworkClient replicasList).1 (pod.client a).1 :=
  reads.clientReach.viewInv

omit [DecidableEq C] in
theorem correct_of_notMem_faulty {r : ReplicaId} (configured : r ∈ (initPodNetworkClient replicasList).1)
    (honest : r ∉ setup.faulty replicasList) : r ∈ setup.correct := by
  rw [PodSetup.faulty, Finset.mem_sdiff, not_and_not_right] at honest
  exact honest (List.mem_toFinset.mpr (List.mem_map.mpr (mem_initReplicas.mp configured)))

/-- Past-perfection between clients: a transaction that is missing in the reply of one
client has, in the reply of any other client at any time, a maximal timestamp that is
not before the `rperf` of the first. -/
theorem past_perfection_across_clients (setup : PodSetup C) (replicasList : List Replica) (alpha beta : Nat)
    (accepted : Accepted replicasList alpha beta) (few : (setup.faulty replicasList).card ≤ beta)
    (pod pod' : Pod C) (order : setup.Comparable pod pod') (a b : C) (reply reply' : PodData)
    (reads : setup.Reads replicasList alpha beta pod a reply)
    (reads' : setup.Reads replicasList alpha beta pod' b reply') :
    ∀ record ∈ reply'.t, (∀ other ∈ reply.t, other.transaction ≠ record.transaction) →
      reply.rperf ≤ record.rmax := by
  intro record listed missing
  obtain ⟨orders, run⟩ := reads.run
  obtain ⟨orders', run'⟩ := reads'.run
  refine rperf_le_rmax reads.viewInv reads'.viewInv accepted run run' listed missing
    (setup.faulty replicasList) few fun r configured honest tx ts m => ?_
  exact unseen_after_mrt reads.clientReach reads'.clientReach
    (order.not_convicted reads.reach reads'.reach (correct_of_notMem_faulty configured honest) a b)

theorem standIn_reads {pod : Pod Bool} {c : Bool} (reach : standInPod.Reach pod) :
    ∃ reply, standInPod.Reads (standInReplicas [7]) 1 0 pod c reply := by
  have inv : ViewInv (initPodNetworkClient (standInReplicas [7])).1 (pod.client c).1 :=
    ClientReach.viewInv (reach.inv.client c)
  let orders : HashOrders := ⟨.arbitrary _ _, .arbitrary _ _, fun _ => .arbitrary _ _, .arbitrary _ _⟩
  obtain ⟨reply, run⟩ := inv.read_returns orders
  exact ⟨reply, reach, rfl, orders, run⟩

/-- A reply lists what has a vote. -/
theorem PodSetup.Reads.listed (reads : setup.Reads replicasList alpha beta pod a reply) {tx : Transaction}
    {r : ReplicaId} {ts : Timestamp} (stamp : (pod.client a).1.stamp tx r = some ts) :
    ∃ record ∈ reply.t, record.transaction = some tx := by
  obtain ⟨orders, run⟩ := reads.run
  obtain ⟨tspstx, known, _⟩ := Option.bind_eq_some_iff.mp stamp
  obtain ⟨record, listed, own⟩ := read_lists run (Finmap.mem_of_lookup_eq_some known)
  exact ⟨record, listed, txRecord_transaction own⟩

/-- The first client has the vote, and the second has not got it yet. -/
theorem past_perfection_across_clients_one_vote :
    ∃ pod reply reply', standInPod.Reads (standInReplicas [7]) 1 0 pod false reply ∧
      standInPod.Reads (standInReplicas [7]) 1 0 pod true reply' ∧
      (∃ record ∈ reply'.t, record.transaction = some ⟨[65]⟩) ∧
      ∀ record ∈ reply'.t, (∀ other ∈ reply.t, other.transaction ≠ record.transaction) →
        reply.rperf ≤ record.rmax := by
  obtain ⟨pod, pod', s, reach, _, _, _, stamp, first, _, _⟩ := standInPod_run
  obtain ⟨reply, reads⟩ := standIn_reads (c := false) reach
  obtain ⟨reply', reads'⟩ := standIn_reads (c := true) reach
  have recorded : (pod.client true).1.stamp ⟨[65]⟩ 7 = some 5 := by rw [first]; exact stamp
  refine ⟨pod, reply, reply', reads, reads', reads'.listed recorded, ?_⟩
  exact past_perfection_across_clients standInPod (standInReplicas [7]) 1 0 ⟨by decide, by decide, by decide⟩
    (by decide) pod pod (Or.inl .refl) false true reply reply' reads reads'

/-- The lower bound of one client against the upper bound of another. -/
theorem PodSetup.Comparable.rmin_le_rmax (order : setup.Comparable pod pod')
    (accepted : Accepted replicasList alpha beta) (few : (setup.faulty replicasList).card ≤ beta)
    (reads : setup.Reads replicasList alpha beta pod a reply)
    (reads' : setup.Reads replicasList alpha beta pod' b reply') {record record' : TxRecord}
    (listed : record ∈ reply.t) (listed' : record' ∈ reply'.t) (same : record.transaction = record'.transaction)
    (many : replicasList.length + alpha ≤ record.ctx.length + record'.ctx.length + beta) :
    record.rmin ≤ record'.rmax := by
  obtain ⟨orders, run⟩ := reads.run
  obtain ⟨orders', run'⟩ := reads'.run
  refine Podnet.rmin_le_rmax reads.viewInv reads'.viewInv accepted run run' listed listed' same many
    (setup.faulty replicasList) few fun r configured honest tx ts ts' => ?_
  exact stamps_agree reads.clientReach reads'.clientReach
    (order.not_convicted reads.reach reads'.reach (correct_of_notMem_faulty configured honest) a b)

/-- The intervals that two clients report for one transaction meet as soon as the two
replies have enough votes for it, such as the votes of all but `beta` replicas each. -/
theorem intervals_meet_across_clients (setup : PodSetup C) (replicasList : List Replica) (alpha beta : Nat)
    (accepted : Accepted replicasList alpha beta) (few : (setup.faulty replicasList).card ≤ beta)
    (pod pod' : Pod C) (order : setup.Comparable pod pod') (a b : C) (reply reply' : PodData)
    (reads : setup.Reads replicasList alpha beta pod a reply)
    (reads' : setup.Reads replicasList alpha beta pod' b reply') :
    ∀ record ∈ reply.t, ∀ record' ∈ reply'.t, record.transaction = record'.transaction →
      (replicasList.length + alpha ≤ record.ctx.length + record'.ctx.length + beta ∨
        (replicasList.length ≤ record.ctx.length + beta ∧ replicasList.length ≤ record'.ctx.length + beta)) →
      max record.rmin record'.rmin ≤ min record.rmax record'.rmax := by
  intro record listed record' listed' same many
  have ratio := accepted.enough
  have votes : replicasList.length + alpha ≤ record.ctx.length + record'.ctx.length + beta := by
    rcases many with many | ⟨most, most'⟩ <;> omega
  have own : ∀ {pod c reply} (reads : setup.Reads replicasList alpha beta pod c reply), ∀ record ∈ reply.t,
      record.rmin ≤ record.rmax := by
    intro pod c reply reads record listed
    obtain ⟨orders, run⟩ := reads.run
    obtain ⟨tx, _, _, quorum, lower, upper⟩ := reply_record reads.viewInv accepted run listed
    have length := length_votesOf orders tx reads.viewInv
    have ratio := accepted.alpha_ge
    rw [lower, upper]
    exact nth_le_nth (by omega) (by omega)
  have first := order.rmin_le_rmax accepted few reads reads' listed listed' same votes
  have second := PodSetup.Comparable.rmin_le_rmax order.symm accepted few reads' reads listed' listed same.symm
    (by omega)
  exact max_le (le_min (own reads record listed) first) (le_min second (own reads' record' listed'))

/-- Each of two clients has the vote at its own moment. -/
theorem intervals_meet_across_clients_one_vote :
    ∃ pod pod' reply reply', standInPod.Reads (standInReplicas [7]) 1 0 pod true reply ∧
      standInPod.Reads (standInReplicas [7]) 1 0 pod' false reply' ∧
      (∃ record ∈ reply.t, record.transaction = some ⟨[65]⟩) ∧
      (∃ record ∈ reply'.t, record.transaction = some ⟨[65]⟩) ∧
      ∀ record ∈ reply.t, ∀ record' ∈ reply'.t, record.transaction = record'.transaction →
        (1 + 1 ≤ record.ctx.length + record'.ctx.length + 0 ∨
          (1 ≤ record.ctx.length + 0 ∧ 1 ≤ record'.ctx.length + 0)) →
        max record.rmin record'.rmin ≤ min record.rmax record'.rmax := by
  obtain ⟨pod, pod', s, reach, later, _, _, stamp, first, _, second⟩ := standInPod_run
  obtain ⟨reply, reads⟩ := standIn_reads (c := true) reach
  obtain ⟨reply', reads'⟩ := standIn_reads (c := false) (reach.trans later)
  have recorded : (pod.client true).1.stamp ⟨[65]⟩ 7 = some 5 := by rw [first]; exact stamp
  have recorded' : (pod'.client false).1.stamp ⟨[65]⟩ 7 = some 5 := by rw [second]; exact stamp
  refine ⟨pod, pod', reply, reply', reads, reads', reads.listed recorded, reads'.listed recorded', ?_⟩
  exact intervals_meet_across_clients standInPod (standInReplicas [7]) 1 0
    ⟨by decide, by decide, by decide⟩ (by decide) pod pod' (Or.inl later) true false reply reply' reads reads'

/-- A recent timestamp that is not zero was signed by its replica. -/
theorem mrt_signed (reach : setup.Reach pod) {r : ReplicaId} {m : Timestamp} (correct : r ∈ setup.correct)
    (mrt : (pod.client a).1.mrt.lookup r = some m) :
    m = 0 ∨ ∃ vote ∈ (pod.replica r).node.signed, vote.timestamp = m := by
  have applied := ClientRun.applied (reach.inv.client a) (init_applied (setup.config a))
  rcases (applied.mrt r m mrt).1 with zero | ⟨vote, called, same⟩
  · exact Or.inl zero
  · obtain ⟨data, _, signed⟩ := reach.inv.called_signed called correct
    exact Or.inr ⟨_, signed, same⟩

/-- Replies rest on correct replicas: every transaction in a reply was sent to
`alpha - 2 * beta` of them, its interval lies between timestamps that two of them have
signed for it, and `rperf` is not ahead of all of them. -/
theorem replies_rest_on_correct_replicas (setup : PodSetup C) (replicasList : List Replica) (alpha beta : Nat)
    (accepted : Accepted replicasList alpha beta) (few : (setup.faulty replicasList).card ≤ beta)
    (pod : Pod C) (c : C) (reply : PodData) (reads : setup.Reads replicasList alpha beta pod c reply) :
    (∀ record ∈ reply.t, ∃ tx, record.transaction = some tx ∧
      (∃ voters ⊆ setup.correct, alpha ≤ voters.card + 2 * beta ∧
        ∀ r ∈ voters, ∃ ts, setup.Signed pod r tx ts) ∧
      (∃ r ∈ setup.correct, ∃ ts, setup.Signed pod r tx ts ∧ ts ≤ record.rmin) ∧
      ∃ r ∈ setup.correct, ∃ ts, setup.Signed pod r tx ts ∧ record.rmax ≤ ts) ∧
    (reply.rperf = 0 ∨
      ∃ r ∈ setup.correct, ∃ vote ∈ (pod.replica r).node.signed, reply.rperf ≤ vote.timestamp) := by
  have ratio := accepted.alpha_ge
  have enough := accepted.enough
  have inv := reads.viewInv
  obtain ⟨orders, run⟩ := reads.run
  have voter : ∀ tx r ts, r ∉ setup.faulty replicasList → (pod.client c).1.stamp tx r = some ts →
      r ∈ setup.correct ∧ setup.Signed pod r tx ts := by
    intro tx r ts honest stamp
    have correct := correct_of_notMem_faulty (inv.voters tx r ts stamp) honest
    exact ⟨correct, reads.reach.inv.stamp_signed correct stamp⟩
  have voted : ∀ tx r, r ∈ (pod.client c).1.voters tx (fun _ => true) →
      ∃ ts, (pod.client c).1.stamp tx r = some ts := by
    intro tx r member
    obtain ⟨ts, stamp, _⟩ := (Option.any_eq_true _ _).mp (Finset.mem_filter.mp member).2
    exact ⟨ts, stamp⟩
  constructor
  · intro record listed
    obtain ⟨tx, named, _, quorum, lower, upper⟩ := reply_record inv accepted run listed
    have length := length_votesOf orders tx inv
    have walk := orders.replicas.keys_nodup (initPodNetworkClient replicasList).1
    have atMin := (nth_enclosed (f := (pod.client c).1.stamp tx) (i := alpha / 2 - beta) (d := 0)
      (setup.faulty replicasList) walk (by omega) (by rw [← votesOf]; omega)).1
    have atMax := (nth_enclosed (f := (pod.client c).1.stamp tx)
      (i := (pod.client c).1.voteCount tx + beta - alpha + alpha / 2) (d := 0)
      (setup.faulty replicasList) walk (by omega) (by rw [← votesOf]; omega)).2
    refine ⟨tx, named, ⟨(pod.client c).1.voters tx (fun _ => true) \ setup.faulty replicasList, ?_, ?_, ?_⟩,
      ?_, ?_⟩
    · intro r member
      obtain ⟨ts, stamp⟩ := voted tx r (Finset.mem_sdiff.mp member).1
      exact (voter tx r ts (Finset.mem_sdiff.mp member).2 stamp).1
    · have count := countP_votesOf orders tx inv (fun _ => true)
      rw [List.countP_true, length] at count
      have left := Finset.le_card_sdiff (setup.faulty replicasList) ((pod.client c).1.voters tx fun _ => true)
      omega
    · intro r member
      obtain ⟨ts, stamp⟩ := voted tx r (Finset.mem_sdiff.mp member).1
      exact ⟨ts, (voter tx r ts (Finset.mem_sdiff.mp member).2 stamp).2⟩
    · obtain ⟨r, honest, ts, stamp, below⟩ := atMin
      obtain ⟨correct, signed⟩ := voter tx r ts honest stamp
      exact ⟨r, correct, ts, signed, lower ▸ below⟩
    · obtain ⟨r, honest, ts, stamp, above⟩ := atMax
      obtain ⟨correct, signed⟩ := voter tx r ts honest stamp
      exact ⟨r, correct, ts, signed, upper ▸ above⟩
  · obtain ⟨value, length⟩ := reply_rperf inv accepted run
    obtain ⟨r, honest, m, mrt, above⟩ := (nth_enclosed (f := (pod.client c).1.mrt.lookup)
      (i := alpha / 2 - beta) (d := 0) (setup.faulty replicasList)
      (orders.mrt.keys_nodup (pod.client c).1.mrt) (by omega) (by omega)).2
    rw [← value] at above
    have correct := correct_of_notMem_faulty ((inv.mrtKeys r).mp (Finmap.mem_of_lookup_eq_some mrt)) honest
    rcases mrt_signed reads.reach correct mrt with rfl | ⟨vote, signed, rfl⟩
    · exact Or.inl (UInt64.le_antisymm above (Word.zero_le _))
    · exact Or.inr ⟨r, correct, vote, signed, above⟩

theorem replies_rest_on_correct_replicas_one_vote :
    ∃ pod reply, standInPod.Reads (standInReplicas [7]) 1 0 pod true reply ∧
      (∃ record ∈ reply.t, record.transaction = some ⟨[65]⟩) ∧
      (∀ record ∈ reply.t, ∃ tx, record.transaction = some tx ∧
        (∃ voters ⊆ standInPod.correct, 1 ≤ voters.card + 2 * 0 ∧
          ∀ r ∈ voters, ∃ ts, standInPod.Signed pod r tx ts) ∧
        (∃ r ∈ standInPod.correct, ∃ ts, standInPod.Signed pod r tx ts ∧ ts ≤ record.rmin) ∧
        ∃ r ∈ standInPod.correct, ∃ ts, standInPod.Signed pod r tx ts ∧ record.rmax ≤ ts) ∧
      (reply.rperf = 0 ∨
        ∃ r ∈ standInPod.correct, ∃ vote ∈ (pod.replica r).node.signed, reply.rperf ≤ vote.timestamp) := by
  obtain ⟨pod, pod', s, reach, _, _, _, stamp, first, _, _⟩ := standInPod_run
  obtain ⟨reply, reads⟩ := standIn_reads (c := true) reach
  have recorded : (pod.client true).1.stamp ⟨[65]⟩ 7 = some 5 := by rw [first]; exact stamp
  refine ⟨pod, reply, reads, reads.listed recorded, ?_⟩
  exact replies_rest_on_correct_replicas standInPod (standInReplicas [7]) 1 0 ⟨by decide, by decide, by decide⟩
    (by decide) pod true reply reads

end Quorums

end Podnet
