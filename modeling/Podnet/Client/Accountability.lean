import Podnet.Client.Accounts
import Podnet.Client.Feed
import Podnet.Client.ReadHistory
import Podnet.Client.Vetted

namespace Podnet

open OrderStatistic

/-- Two sequences are beginnings of one, or they differ at some place. -/
theorem prefix_or_conflict {α β : Type} (f : α → β) (l l' : List α) :
    l.map f <+: l'.map f ∨ l'.map f <+: l.map f ∨
      ∃ (k : Nat) (a a' : α), l[k]? = some a ∧ l'[k]? = some a' ∧ f a ≠ f a' := by
  induction l generalizing l' with
  | nil => exact Or.inl List.nil_prefix
  | cons a l ih =>
    cases l' with
    | nil => exact Or.inr (Or.inl List.nil_prefix)
    | cons a' l' =>
      by_cases same : f a = f a'
      · simp only [List.map_cons, same, List.prefix_cons_inj]
        rcases ih l' with shorter | longer | ⟨k, b, b', atK, atK', different⟩
        · exact Or.inl shorter
        · exact Or.inr (Or.inl longer)
        · exact Or.inr (Or.inr ⟨k + 1, b, b', atK, atK', different⟩)
      · exact Or.inr (Or.inr ⟨0, a, a', rfl, rfl, same⟩)

variable {verifyStrict : VerifyStrict} {replicas : HashMap ReplicaId Replica} {replicasList : List Replica}
  {s s' : ClientState} {d d' : Option ReplicaId} {r : ReplicaId} {tx : Transaction} {ts ts' m : Timestamp}

/-- The processed votes of a replica have the numbers from zero on, and the client keeps
their account. -/
structure Numbered (s : ClientState) (r : ReplicaId) : Prop where
  counter : ∀ nextsn, s.nextsn.lookup r = some nextsn → nextsn = UInt64.ofNat (s.callsOf r).length
  numbers : ∀ (k : Nat) (vote : Vote), (s.callsOf r)[k]? = some vote → vote.sequenceNumber = UInt64.ofNat k
  account : s.account r = .of ((s.callsOf r).filterMap Vote.entry)

theorem Numbered.initial (replicasList : List Replica) (r : ReplicaId) :
    Numbered (initPodNetworkClient replicasList).2 r := by
  have zero := lookup_foldl_zero replicasList ∅ (fun r => by simp) r
  have none : (initPodNetworkClient replicasList).2.callsOf r = [] := rfl
  refine ⟨fun nextsn known => ?_, fun k vote found => ?_, ?_⟩
  · simp only [initPodNetworkClient] at known
    rw [known, Option.getD_some] at zero
    rw [zero, none]
    rfl
  · rw [none] at found
    simp at found
  · have lane := congrArg (fun lane => lane.out.account) (init_lane replicasList r)
    rw [none]
    exact lane

theorem callsOf_afterVote {t : ClientState} {vote : Vote} {mrtEntry : Timestamp} {r' : ReplicaId} :
    (afterVote r' tx ts mrtEntry vote t).callsOf r = if r = r' then t.callsOf r ++ [vote] else t.callsOf r := by
  simp only [ClientState.callsOf, afterVote, List.filter_append, List.map_append]
  split
  · rename_i own
    simp [own]
  · rename_i foreign
    simp [show r' ≠ r from fun same => foreign same.symm]

theorem ClientStep.numbered (step : ClientStep verifyStrict replicas (s, d) (s', d'))
    (vetted : Vetted verifyStrict replicas s) (numbered : Numbered s r) : Numbered s' r := by
  obtain ⟨counter, numbers, account⟩ := numbered
  rcases step.call_cases vetted with ⟨same, calls, nextsn⟩ |
    ⟨vote, tx, mrtEntry, t, _, carried, expected, same, calls, moved, known, _, rfl⟩
  · have callsOf : s'.callsOf r = s.callsOf r := by rw [ClientState.callsOf, calls, ClientState.callsOf]
    have kept : s'.account r = s.account r := by
      simp only [ClientState.account, ClientState.stamp, same.tsps, same.mrt]
    refine ⟨?_, ?_, ?_⟩
    · rw [nextsn, callsOf]
      exact counter
    · rw [callsOf]
      exact numbers
    · rw [kept, callsOf]
      exact account
  · have before : t.callsOf r = s.callsOf r := by rw [ClientState.callsOf, calls, ClientState.callsOf]
    have kept : t.account r = s.account r := by
      simp only [ClientState.account, ClientState.stamp, same.tsps, same.mrt]
    by_cases own : r = vote.replicaId
    · subst own
      have after : (afterVote vote.replicaId tx vote.timestamp mrtEntry vote t).callsOf vote.replicaId =
          s.callsOf vote.replicaId ++ [vote] := by
        rw [callsOf_afterVote, if_pos rfl, before]
      have number := counter _ expected
      refine ⟨fun nextsn known' => ?_, fun k v found => ?_, ?_⟩
      · have next : (s.nextsn.insert vote.replicaId (vote.sequenceNumber + 1)).lookup vote.replicaId =
            some nextsn := by
          rw [← moved]
          exact known'
        rw [Finmap.lookup_insert] at next
        rw [after, List.length_append, List.length_singleton, ← Option.some.inj next, number]
        simp
      · rw [after, List.getElem?_append] at found
        split at found
        · exact numbers k v found
        · rename_i beyond
          have inside := (List.getElem?_eq_some_iff.mp found).1
          rw [List.length_singleton] at inside
          have last : k = (s.callsOf vote.replicaId).length := by omega
          rw [last, Nat.sub_self] at found
          cases Option.some.inj found
          rw [number, last]
      · rw [account_afterVote known carried, if_pos rfl, kept, account, after, List.filterMap_append]
        have entry : [vote].filterMap Vote.entry = [(tx, vote.timestamp)] := by
          simp [Vote.entry, carried]
        rw [entry, Account.of_concat]
    · have after : (afterVote vote.replicaId tx vote.timestamp mrtEntry vote t).callsOf r = s.callsOf r := by
        rw [callsOf_afterVote, if_neg own, before]
      refine ⟨fun nextsn known' => ?_, ?_, ?_⟩
      · have next : (s.nextsn.insert vote.replicaId (vote.sequenceNumber + 1)).lookup r = some nextsn := by
          rw [← moved]
          exact known'
        rw [Finmap.lookup_insert_of_ne _ own] at next
        rw [after]
        exact counter nextsn next
      · rw [after]
        exact numbers
      · rw [account_afterVote known carried, if_neg own, kept, account, after]

theorem ClientReach.numbered (reach : ClientReach verifyStrict replicasList (s, d)) (r : ReplicaId) :
    Numbered s r := by
  suffices run : ∀ q, ClientReach verifyStrict replicasList q → Numbered q.1 r from run _ reach
  intro q reach
  induction reach with
  | refl => exact .initial replicasList r
  | tail before step ih => exact step.numbered (ClientReach.vetted before) ih

/-- Two processed votes of a replica contradict each other: both are signed with its key,
under one number, but they do not say the same. -/
def Convicted (verifyStrict : VerifyStrict) (replicas : HashMap ReplicaId Replica) (s s' : ClientState)
    (r : ReplicaId) : Prop :=
  ∃ v w, (r, v) ∈ s.calls ∧ (r, w) ∈ s'.calls ∧ v.replicaId = r ∧ w.replicaId = r ∧
    Verified verifyStrict replicas v ∧ Verified verifyStrict replicas w ∧
    v.sequenceNumber = w.sequenceNumber ∧ ¬ (v.transaction = w.transaction ∧ v.timestamp = w.timestamp)

/-- A replica that has not contradicted itself has told both clients the same. -/
theorem comparable_of_not_convicted (reach : ClientReach verifyStrict replicasList (s, d))
    (reach' : ClientReach verifyStrict replicasList (s', d'))
    (consistent : ¬ Convicted verifyStrict (initPodNetworkClient replicasList).1 s s' r) :
    ∃ entries entries', s.account r = .of entries ∧ s'.account r = .of entries' ∧
      (entries <+: entries' ∨ entries' <+: entries) := by
  have numbered := reach.numbered r
  have numbered' := reach'.numbered r
  refine ⟨_, _, numbered.account, numbered'.account, ?_⟩
  have shorter : ∀ l l' : List Vote,
      l.map (fun vote => (vote.transaction, vote.timestamp)) <+:
        l'.map (fun vote => (vote.transaction, vote.timestamp)) →
      l.filterMap Vote.entry <+: l'.filterMap Vote.entry := by
    intro l l' part
    have entries := part.filterMap fun said => said.1.map fun tx => ((tx, said.2) : Entry)
    rw [List.filterMap_map, List.filterMap_map] at entries
    exact entries
  rcases prefix_or_conflict (fun vote : Vote => (vote.transaction, vote.timestamp)) (s.callsOf r)
    (s'.callsOf r) with part | part | ⟨k, v, w, atV, atW, different⟩
  · exact Or.inl (shorter _ _ part)
  · exact Or.inr (shorter _ _ part)
  · have called := mem_callsOf.mp (List.mem_of_getElem? atV)
    have called' := mem_callsOf.mp (List.mem_of_getElem? atW)
    obtain ⟨named, verified⟩ := (ClientReach.vetted reach).calls r v called
    obtain ⟨named', verified'⟩ := (ClientReach.vetted reach').calls r w called'
    have number := (numbered.numbers k v atV).trans (numbered'.numbers k w atW).symm
    refine absurd ⟨v, w, called, called', named, named', verified, verified', number, ?_⟩ consistent
    rintro ⟨sameTx, sameTs⟩
    exact different (Prod.ext sameTx sameTs)

/-- A transaction that one client has no vote of a consistent replica for, and another one
has, is at least as recent as all the first one has of this replica. -/
theorem unseen_after_mrt (reach : ClientReach verifyStrict replicasList (s, d))
    (reach' : ClientReach verifyStrict replicasList (s', d'))
    (consistent : ¬ Convicted verifyStrict (initPodNetworkClient replicasList).1 s s' r)
    (unseen : s.stamp tx r = none) (known : s'.stamp tx r = some ts) (mrt : s.mrt.lookup r = some m) :
    m ≤ ts := by
  obtain ⟨entries, entries', own, own', comparable⟩ := comparable_of_not_convicted reach reach' consistent
  have none : (Account.of entries).stamps tx = none := by rw [← own]; exact unseen
  have some : (Account.of entries').stamps tx = some ts := by rw [← own']; exact known
  have recent : (Account.of entries).mrt = m := by
    rw [← own]
    simp only [ClientState.account, mrt, Option.getD_some]
  rcases comparable with shorter | longer
  · exact recent ▸ Account.of_fresh shorter none some
  · have kept := (Account.of_mono longer).2 tx ts some
    rw [none] at kept
    simp at kept

theorem stamps_agree (reach : ClientReach verifyStrict replicasList (s, d))
    (reach' : ClientReach verifyStrict replicasList (s', d'))
    (consistent : ¬ Convicted verifyStrict (initPodNetworkClient replicasList).1 s s' r)
    (known : s.stamp tx r = some ts) (known' : s'.stamp tx r = some ts') : ts = ts' := by
  obtain ⟨entries, entries', own, own', comparable⟩ := comparable_of_not_convicted reach reach' consistent
  have first : (Account.of entries).stamps tx = some ts := by rw [← own]; exact known
  have second : (Account.of entries').stamps tx = some ts' := by rw [← own']; exact known'
  exact Account.of_agree comparable first second

section Replies

variable {replicasList : List Replica} {alpha beta : Nat} {orders : HashOrders} {s : ClientState}
  {reply : PodData} {record : TxRecord} {tx : Transaction}

/-- A reply lists exactly the known transactions. -/
theorem read_lists_iff {service : ClientApiService} {orders : HashOrders} {reply : PodData} {tx : Transaction}
    (run : read orders service = some reply) :
    (∃ record ∈ reply.t, record.transaction = some tx) ↔ tx ∈ service.view.tsps := by
  constructor
  · rintro ⟨record, listed, named⟩
    obtain ⟨tx', known, own⟩ := (read_mem_iff run).mp listed
    cases Option.some.inj (named.symm.trans (txRecord_transaction own))
    exact known
  · intro known
    obtain ⟨record, listed, own⟩ := read_lists run known
    exact ⟨record, listed, txRecord_transaction own⟩

/-- What a reply says about a transaction it lists. -/
theorem reply_record (inv : ViewInv (initPodNetworkClient replicasList).1 s)
    (accepted : Accepted replicasList alpha beta)
    (run : read orders (serviceOf replicasList alpha beta s) = some reply) (listed : record ∈ reply.t) :
    ∃ tx, record.transaction = some tx ∧ record.ctx.length = s.voteCount tx ∧
      alpha ≤ s.voteCount tx + beta ∧
      record.rmin = nth (votesOf orders (initPodNetworkClient replicasList).1 s tx) (alpha / 2 - beta) 0 ∧
      record.rmax = nth (votesOf orders (initPodNetworkClient replicasList).1 s tx)
        (s.voteCount tx + beta - alpha + alpha / 2) 0 := by
  have ratio := accepted.alpha_ge
  obtain ⟨tx, member, own⟩ := (read_mem_iff run).mp listed
  have named := txRecord_transaction own
  have reports : Reports orders (serviceOf replicasList alpha beta s) tx record := ⟨reply, run, listed, named⟩
  obtain ⟨quorum, lower, upper⟩ := reports.bounds inv ratio
  have length := length_votesOf orders tx inv
  rw [length] at quorum upper
  have position : s.voteCount tx - (alpha - alpha / 2 - beta) = s.voteCount tx + beta - alpha + alpha / 2 := by
    omega
  refine ⟨tx, named, ?_, quorum, lower, position ▸ upper⟩
  obtain ⟨tspstx, known⟩ := Finmap.mem_iff.mp member
  unfold txRecord at own
  split at own
  · simp at own
  · rw [known] at own
    cases Option.some.inj own
    rw [List.length_map, (orders.voters tx).filterMap_keys_lookup, IterOrder.values, List.length_map,
      (orders.voters tx).length_visit, ClientState.voteCount, known]

theorem reply_rperf (inv : ViewInv (initPodNetworkClient replicasList).1 s)
    (accepted : Accepted replicasList alpha beta)
    (run : read orders (serviceOf replicasList alpha beta s) = some reply) :
    reply.rperf = nth ((orders.mrt.keys s.mrt).filterMap s.mrt.lookup) (alpha / 2 - beta) 0 ∧
      ((orders.mrt.keys s.mrt).filterMap s.mrt.lookup).length = replicasList.length := by
  have enough := accepted.enough
  have card : s.mrt.keys.card = replicasList.length := by
    rw [inv.card_mrt, card_initReplicas accepted.distinct]
  rw [orders.mrt.filterMap_keys_lookup]
  constructor
  · rw [(read_fields run).1, minPossibleTsForNewTx_eq orders _ accepted.alpha_ge (by omega)]
  · rw [IterOrder.values, List.length_map, orders.mrt.length_visit, card]

/-- A transaction that a reply does not list has no votes. -/
theorem unlisted (run : read orders (serviceOf replicasList alpha beta s) = some reply)
    (missing : ∀ record ∈ reply.t, record.transaction ≠ some tx) (r : ReplicaId) : s.stamp tx r = none := by
  by_cases member : tx ∈ s.tsps
  · obtain ⟨record, listed, own⟩ := read_lists run member
    exact absurd (txRecord_transaction own) (missing record listed)
  · simp only [ClientState.stamp, Finmap.lookup_eq_none.mpr member, Option.bind_none]

end Replies

section Accountability

variable {alpha beta : Nat} {orders orders' : HashOrders} {reply reply' : PodData} {record record' : TxRecord}

/-- `rperf` of one reply against `rmax` in another, where the replicas outside `lost` have
sent nothing to the second client that they could have kept from the first. -/
theorem rperf_le_rmax (inv : ViewInv (initPodNetworkClient replicasList).1 s)
    (inv' : ViewInv (initPodNetworkClient replicasList).1 s') (accepted : Accepted replicasList alpha beta)
    (run : read orders (serviceOf replicasList alpha beta s) = some reply)
    (run' : read orders' (serviceOf replicasList alpha beta s') = some reply') (listed : record ∈ reply'.t)
    (missing : ∀ other ∈ reply.t, other.transaction ≠ record.transaction) (lost : Finset ReplicaId)
    (few : lost.card ≤ beta)
    (later : ∀ r ∈ (initPodNetworkClient replicasList).1, r ∉ lost → ∀ tx ts m, s.stamp tx r = none →
      s'.stamp tx r = some ts → s.mrt.lookup r = some m → m ≤ ts) :
    reply.rperf ≤ record.rmax := by
  have ratio := accepted.alpha_ge
  have enough := accepted.enough
  obtain ⟨tx, named, _, quorum, _, upper⟩ := reply_record inv' accepted run' listed
  rw [named] at missing
  have unseen := unlisted run missing
  obtain ⟨lower, length⟩ := reply_rperf inv accepted run
  have length' := length_votesOf orders' tx inv'
  rw [lower, upper]
  refine nth_le_nth_outside lost (orders.mrt.keys_nodup _) (orders'.replicas.keys_nodup _) ?_ ?_ (by omega)
    (by omega) (by rw [← votesOf, length']; omega)
  · intro r configured
    rw [IterOrder.mem_keys] at configured ⊢
    exact (inv.mrtKeys r).mpr configured
  · intro r configured outside ts known
    rw [IterOrder.mem_keys] at configured
    obtain ⟨m, mrt⟩ := Finmap.mem_iff.mp ((inv.mrtKeys r).mpr configured)
    exact ⟨m, mrt, later r configured outside tx ts m (unseen r) known mrt⟩

/-- `rmin` in one reply against `rmax` in another, where the replicas outside `lost` have
told both clients the same. -/
theorem rmin_le_rmax (inv : ViewInv (initPodNetworkClient replicasList).1 s)
    (inv' : ViewInv (initPodNetworkClient replicasList).1 s') (accepted : Accepted replicasList alpha beta)
    (run : read orders (serviceOf replicasList alpha beta s) = some reply)
    (run' : read orders' (serviceOf replicasList alpha beta s') = some reply') (listed : record ∈ reply.t)
    (listed' : record' ∈ reply'.t) (same : record.transaction = record'.transaction)
    (many : replicasList.length + alpha ≤ record.ctx.length + record'.ctx.length + beta)
    (lost : Finset ReplicaId) (few : lost.card ≤ beta)
    (agree : ∀ r ∈ (initPodNetworkClient replicasList).1, r ∉ lost → ∀ tx ts ts', s.stamp tx r = some ts →
      s'.stamp tx r = some ts' → ts = ts') :
    record.rmin ≤ record'.rmax := by
  have ratio := accepted.alpha_ge
  obtain ⟨tx, named, count, quorum, lower, _⟩ := reply_record inv accepted run listed
  obtain ⟨tx', named', count', quorum', _, upper⟩ := reply_record inv' accepted run' listed'
  cases Option.some.inj (named.symm.trans (same.trans named'))
  have length := length_votesOf orders tx inv
  have length' := length_votesOf orders' tx inv'
  have walk := orders.replicas.keys_nodup (initPodNetworkClient replicasList).1
  have all : (orders.replicas.keys (initPodNetworkClient replicasList).1).length = replicasList.length := by
    rw [IterOrder.keys, List.length_map, orders.replicas.length_visit, card_initReplicas accepted.distinct]
  -- the replicas that may disagree: those in `lost`, and those the first client has no vote of
  have missing := length_filterMap_add_missing (f := s.stamp tx) walk
  rw [← votesOf, length, all] at missing
  have union := Finset.card_union_le lost
    ((orders.replicas.keys (initPodNetworkClient replicasList).1).toFinset.filter fun r => s.stamp tx r = none)
  rw [lower, upper, votesOf, votesOf]
  refine nth_le_nth_outside _ walk (orders'.replicas.keys_nodup _) ?_ ?_
    (le_trans (Nat.add_le_add_left union _) (by omega)) (by rw [← votesOf, length]; omega)
    (by rw [← votesOf, length']; omega)
  · intro r configured
    rw [IterOrder.mem_keys] at configured ⊢
    exact configured
  · intro r configured agreeing ts' known'
    rw [Finset.notMem_union, Finset.mem_filter, List.mem_toFinset, IterOrder.mem_keys] at agreeing
    rw [IterOrder.mem_keys] at configured
    cases known : s.stamp tx r with
    | none => exact absurd ⟨configured, known⟩ agreeing.2
    | some ts => exact ⟨ts, rfl, (agree r configured agreeing.1 tx ts ts' known known').le⟩

/-- Accountability: when the replies of two clients with one configuration contradict each
other, by a transaction before the `rperf` of a client that does not have it or by two
intervals for one transaction without a common point, then the votes that the two have
processed convict more than `beta` replicas. Nothing is assumed about the replicas. -/
theorem contradiction_convicts_replicas (verifyStrict : VerifyStrict) (replicasList : List Replica)
    (alpha beta : Nat) (accepted : Accepted replicasList alpha beta) (s s' : ClientState)
    (d d' : Option ReplicaId) (reach : ClientReach verifyStrict replicasList (s, d))
    (reach' : ClientReach verifyStrict replicasList (s', d')) (orders orders' : HashOrders)
    (reply reply' : PodData) (run : read orders (serviceOf replicasList alpha beta s) = some reply)
    (run' : read orders' (serviceOf replicasList alpha beta s') = some reply') :
    (∀ record ∈ reply'.t, (∀ other ∈ reply.t, other.transaction ≠ record.transaction) →
      record.rmax < reply.rperf → ∃ culprits : Finset ReplicaId, beta < culprits.card ∧
        ∀ r ∈ culprits, Convicted verifyStrict (initPodNetworkClient replicasList).1 s s' r) ∧
    ∀ record ∈ reply.t, ∀ record' ∈ reply'.t, record.transaction = record'.transaction →
      replicasList.length + alpha ≤ record.ctx.length + record'.ctx.length + beta →
      record'.rmax < record.rmin → ∃ culprits : Finset ReplicaId, beta < culprits.card ∧
        ∀ r ∈ culprits, Convicted verifyStrict (initPodNetworkClient replicasList).1 s s' r := by
  classical
  have inv := reach.viewInv
  have inv' := reach'.viewInv
  let culprits := (initPodNetworkClient replicasList).1.keys.filter
    (Convicted verifyStrict (initPodNetworkClient replicasList).1 s s')
  have guilty : ∀ r ∈ culprits, Convicted verifyStrict (initPodNetworkClient replicasList).1 s s' r :=
    fun r member => (Finset.mem_filter.mp member).2
  have consistent : ∀ r ∈ (initPodNetworkClient replicasList).1, r ∉ culprits →
      ¬ Convicted verifyStrict (initPodNetworkClient replicasList).1 s s' r :=
    fun r configured outside conflict =>
      outside (Finset.mem_filter.mpr ⟨Finmap.mem_keys.mpr configured, conflict⟩)
  constructor
  · intro record listed missing before
    refine ⟨culprits, not_le.mp fun few => absurd before (not_lt.mpr ?_), guilty⟩
    exact rperf_le_rmax inv inv' accepted run run' listed missing culprits few
      fun r configured outside tx ts m => unseen_after_mrt reach reach' (consistent r configured outside)
  · intro record listed record' listed' same many apart
    refine ⟨culprits, not_le.mp fun few => absurd apart (not_lt.mpr ?_), guilty⟩
    exact rmin_le_rmax inv inv' accepted run run' listed listed' same many culprits few
      fun r configured outside tx ts ts' => stamps_agree reach reach' (consistent r configured outside)

/-- With `alpha = 1` and no faulty replica every read returns. -/
theorem ViewInv.read_returns (inv : ViewInv (initPodNetworkClient replicasList).1 s) (orders : HashOrders) :
    ∃ reply, read orders (serviceOf replicasList 1 0 s) = some reply := by
  refine Option.isSome_iff_exists.mp ((inv.read_isSome_iff (by omega) orders).mpr fun tx member => ?_)
  obtain ⟨r, ts, stamp⟩ := inv.inhabited tx member
  obtain ⟨tspstx, known, inside⟩ := Option.bind_eq_some_iff.mp stamp
  have voter : 0 < tspstx.keys.card :=
    Finset.card_pos.mpr ⟨r, Finmap.mem_keys.mpr (Finmap.mem_of_lookup_eq_some inside)⟩
  rw [ClientState.voteCount, known]
  exact voter

/-- Replica 7 has told one client of a heartbeat at 9, and the other one of a vote at 5. -/
theorem contradiction_convicts_replicas_two_tongues :
    ∃ s s' reply reply', ClientReach standInVerify (standInReplicas [7]) (s, none) ∧
      ClientReach standInVerify (standInReplicas [7]) (s', none) ∧
      (∃ orders, read orders (serviceOf (standInReplicas [7]) 1 0 s) = some reply) ∧
      (∃ orders, read orders (serviceOf (standInReplicas [7]) 1 0 s') = some reply') ∧
      (∃ record ∈ reply'.t, (∀ other ∈ reply.t, other.transaction ≠ record.transaction) ∧
        record.rmax < reply.rperf) ∧
      ∃ culprits : Finset ReplicaId, 0 < culprits.card ∧
        ∀ r ∈ culprits, Convicted standInVerify (initPodNetworkClient (standInReplicas [7])).1 s s' r := by
  have ends : (startPodDataUpdater standInVerify (initPodNetworkClient (standInReplicas [7])).1
      [standInVote 7 heartbeatData 9 0] (initPodNetworkClient (standInReplicas [7])).2).toOption.any
        (fun s => decide (s.tsps = ∅ ∧ (s.upTo 5).card = 0)) = true := by decide +kernel
  have ends' : (startPodDataUpdater standInVerify (initPodNetworkClient (standInReplicas [7])).1
      [standInVote 7 [65] 5 0] (initPodNetworkClient (standInReplicas [7])).2).toOption.any
        (fun s => decide (s.stamp ⟨[65]⟩ 7 = some 5 ∧ s.voteCount ⟨[65]⟩ = 1 ∧
          (s.voters ⟨[65]⟩ fun ts => decide (ts ≤ 5)).card = 1)) = true := by decide +kernel
  obtain ⟨s, updated, final⟩ := exists_ok_of_any ends
  obtain ⟨s', updated', final'⟩ := exists_ok_of_any ends'
  obtain ⟨nothing, nobody⟩ := of_decide_eq_true final
  obtain ⟨stamp, one, early⟩ := of_decide_eq_true final'
  have reach : ClientReach standInVerify (standInReplicas [7]) (s, none) := startPodDataUpdater_run updated
  have reach' : ClientReach standInVerify (standInReplicas [7]) (s', none) := startPodDataUpdater_run updated'
  let orders : HashOrders := ⟨.arbitrary _ _, .arbitrary _ _, fun _ => .arbitrary _ _, .arbitrary _ _⟩
  obtain ⟨reply, run⟩ := reach.viewInv.read_returns orders
  obtain ⟨reply', run'⟩ := reach'.viewInv.read_returns orders
  have accepted : Accepted (standInReplicas [7]) 1 0 := ⟨by decide, by decide, by decide⟩
  -- the second reply lists the transaction, which the first client does not know
  obtain ⟨tspstx, known, _⟩ := Option.bind_eq_some_iff.mp stamp
  obtain ⟨record, listed, own⟩ := read_lists run' (Finmap.mem_of_lookup_eq_some known)
  have named := txRecord_transaction own
  have missing : ∀ other ∈ reply.t, other.transaction ≠ record.transaction := by
    intro other member _
    obtain ⟨tx, inside, _⟩ := (read_mem_iff run).mp member
    have inside : tx ∈ s.tsps := inside
    rw [nothing] at inside
    exact Finmap.notMem_empty inside
  have late : ¬ reply.rperf ≤ 5 := by
    have card : s.mrt.keys.card = 1 := by
      rw [reach.viewInv.card_mrt, card_initReplicas (by decide)]
      rfl
    rw [(read_fields run).1, serviceOf, minPossibleTsForNewTx_le_iff orders _ (by decide) (by omega), nobody]
    exact lt_irrefl 0
  have before : record.rmax ≤ 5 := by
    obtain ⟨tx, named', _, _, _, upper⟩ := reply_record reach'.viewInv accepted run' listed
    cases Option.some.inj (named.symm.trans named')
    have inside := length_votesOf orders ⟨[65]⟩ reach'.viewInv
    rw [upper, nth_le_iff (by omega), countP_votesOf orders _ reach'.viewInv, one, early]
    exact Nat.one_pos
  have contradiction : record.rmax < reply.rperf := lt_of_le_of_lt before (not_le.mp late)
  refine ⟨s, s', reply, reply', reach, reach', ⟨orders, run⟩, ⟨orders, run'⟩,
    ⟨record, listed, missing, contradiction⟩, ?_⟩
  exact (contradiction_convicts_replicas standInVerify (standInReplicas [7]) 1 0 accepted s s' none none reach
    reach' orders orders reply reply' run run').1 record listed missing contradiction

end Accountability

end Podnet
