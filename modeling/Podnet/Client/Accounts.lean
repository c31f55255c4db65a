import Podnet.Client.Lanes

namespace Podnet

/-- What a vote says, without its number and its signature. -/
abbrev Entry := Transaction × Timestamp

/-- What a client keeps of one replica: the most recent timestamp, and the timestamp of
every transaction. -/
structure Account where
  mrt : Timestamp
  stamps : Transaction → Option Timestamp

namespace Account

def empty : Account := ⟨0, fun _ => none⟩

/-- The entry of a vote enters an account. -/
def consume (entry : Entry) (account : Account) : Account :=
  { mrt := if entry.2 < account.mrt then account.mrt else entry.2
    stamps :=
      if entry.2 < account.mrt ∨ isHeartbeat entry.1 = true ∨ (account.stamps entry.1).isSome then
        account.stamps
      else Function.update account.stamps entry.1 (some entry.2) }

/-- The account of a sequence of entries. -/
def of (entries : List Entry) : Account := entries.foldl (fun account entry => consume entry account) empty

/-- An account that has everything another one has. -/
def Le (account account' : Account) : Prop :=
  account.mrt ≤ account'.mrt ∧ ∀ tx ts, account.stamps tx = some ts → account'.stamps tx = some ts

variable {entries more : List Entry} {entry : Entry} {account : Account} {tx : Transaction} {ts : Timestamp}

theorem of_concat : of (entries ++ [entry]) = consume entry (of entries) := by
  simp only [of, List.foldl_append, List.foldl_cons, List.foldl_nil]

theorem stamps_consume : (consume entry account).stamps tx =
    if tx = entry.1 ∧ ¬ (entry.2 < account.mrt ∨ isHeartbeat entry.1 = true ∨ (account.stamps entry.1).isSome) then
      some entry.2
    else account.stamps tx := by
  unfold consume
  by_cases skipped : entry.2 < account.mrt ∨ isHeartbeat entry.1 = true ∨ (account.stamps entry.1).isSome
  · simp only [skipped, if_true, not_true, and_false, if_false]
  · simp only [skipped, if_false, not_false_iff, and_true, Function.update_apply]

theorem Le.refl (account : Account) : account.Le account := ⟨le_rfl, fun _ _ => id⟩

theorem Le.trans {a b c : Account} (first : a.Le b) (second : b.Le c) : a.Le c :=
  ⟨first.1.trans second.1, fun tx ts known => second.2 tx ts (first.2 tx ts known)⟩

theorem le_consume (entry : Entry) (account : Account) : account.Le (consume entry account) := by
  refine ⟨?_, fun tx ts known => ?_⟩
  · unfold consume
    split
    · exact le_rfl
    · rename_i recent
      exact not_lt.mp recent
  · rw [stamps_consume]
    split
    · rename_i new
      rw [new.1] at known
      simp [known] at new
    · exact known

/-- The most recent timestamp is the greatest of all. -/
theorem of_mrt (entries : List Entry) :
    (∀ entry ∈ entries, entry.2 ≤ (of entries).mrt) ∧
      ((of entries).mrt = 0 ∨ ∃ entry ∈ entries, entry.2 = (of entries).mrt) := by
  induction entries using List.reverseRecOn with
  | nil => exact ⟨by simp, Or.inl rfl⟩
  | append_singleton earlier last ih =>
    obtain ⟨greatest, attained⟩ := ih
    have grows := (le_consume last (of earlier)).1
    rw [of_concat]
    constructor
    · intro entry member
      rcases List.mem_append.mp member with old | new
      · exact (greatest entry old).trans grows
      · rw [List.mem_singleton.mp new, consume]
        show last.2 ≤ if last.2 < (of earlier).mrt then (of earlier).mrt else last.2
        split
        · rename_i stale
          exact stale.le
        · exact le_rfl
    · show (if last.2 < (of earlier).mrt then (of earlier).mrt else last.2) = 0 ∨ _
      split
      · rename_i stale
        rcases attained with zero | ⟨entry, member, same⟩
        · exact Or.inl zero
        · right
          refine ⟨entry, List.mem_append_left _ member, ?_⟩
          rw [same, consume]
          exact (if_pos stale).symm
      · rename_i recent
        right
        refine ⟨last, List.mem_append_right _ (List.mem_singleton_self _), ?_⟩
        rw [consume]
        exact (if_neg recent).symm

/-- A recorded timestamp comes from an entry, which is no heartbeat. -/
theorem of_stamps (known : (of entries).stamps tx = some ts) :
    (tx, ts) ∈ entries ∧ isHeartbeat tx = false := by
  induction entries using List.reverseRecOn with
  | nil => simp [of, empty] at known
  | append_singleton earlier last ih =>
    rw [of_concat, stamps_consume] at known
    split at known
    · rename_i new
      obtain ⟨rfl, fresh⟩ := new
      cases Option.some.inj known
      refine ⟨List.mem_append_right _ (List.mem_singleton_self _), ?_⟩
      simp only [not_or, Bool.not_eq_true] at fresh
      exact fresh.2.1
    · obtain ⟨member, plain⟩ := ih known
      exact ⟨List.mem_append_left _ member, plain⟩

/-- When the timestamps ascend, no transaction is left out. -/
theorem of_records (ascending : entries.Pairwise fun a b => a.2 ≤ b.2) :
    ∀ entry ∈ entries, isHeartbeat entry.1 = false → ((of entries).stamps entry.1).isSome := by
  induction entries using List.reverseRecOn with
  | nil => simp
  | append_singleton earlier last ih =>
    obtain ⟨sorted, _, before⟩ := List.pairwise_append.mp ascending
    intro entry member plain
    rw [of_concat]
    have kept : ((of earlier).stamps entry.1).isSome → ((consume last (of earlier)).stamps entry.1).isSome := by
      intro known
      obtain ⟨ts, atTx⟩ := Option.isSome_iff_exists.mp known
      rw [(le_consume last (of earlier)).2 entry.1 ts atTx]
      rfl
    rcases List.mem_append.mp member with old | new
    · exact kept (ih sorted entry old plain)
    · rw [List.mem_singleton.mp new] at plain kept ⊢
      by_cases known : ((of earlier).stamps last.1).isSome
      · exact kept known
      · have timely : ¬ last.2 < (of earlier).mrt := by
          rcases (of_mrt earlier).2 with zero | ⟨latest, inside, same⟩
          · rw [zero]
            exact not_lt.mpr (Word.zero_le _)
          · rw [← same]
            exact not_lt.mpr (before latest inside last (List.mem_singleton_self _))
        rw [stamps_consume, if_pos ⟨rfl, by simp [timely, plain, known]⟩]
        rfl

/-- The account of a longer sequence has everything the account of its beginning has. -/
theorem of_mono (shorter : entries <+: more) : (of entries).Le (of more) := by
  obtain ⟨rest, rfl⟩ := shorter
  induction rest using List.reverseRecOn with
  | nil =>
    rw [List.append_nil]
    exact .refl _
  | append_singleton rest last ih =>
    rw [← List.append_assoc, of_concat]
    exact ih.trans (le_consume last _)

/-- What a longer sequence adds is at least as recent as the most recent timestamp of its
beginning: older entries are dropped. -/
theorem of_fresh (shorter : entries <+: more) (unseen : (of entries).stamps tx = none)
    (known : (of more).stamps tx = some ts) : (of entries).mrt ≤ ts := by
  obtain ⟨rest, rfl⟩ := shorter
  induction rest using List.reverseRecOn with
  | nil =>
    rw [List.append_nil, unseen] at known
    simp at known
  | append_singleton rest last ih =>
    rw [← List.append_assoc, of_concat, stamps_consume] at known
    split at known
    · rename_i new
      cases Option.some.inj known
      simp only [not_or, not_lt] at new
      exact (of_mono (List.prefix_append entries rest)).1.trans new.2.1
    · exact ih known

/-- Two accounts of one sequence agree on every transaction that both have. -/
theorem of_agree {ts' : Timestamp} (comparable : entries <+: more ∨ more <+: entries)
    (known : (of entries).stamps tx = some ts) (known' : (of more).stamps tx = some ts') : ts = ts' := by
  rcases comparable with shorter | shorter
  · exact Option.some.inj (((of_mono shorter).2 tx ts known).symm.trans known')
  · exact Option.some.inj (known.symm.trans ((of_mono shorter).2 tx ts' known'))

end Account

/-- The account of a replica inside the shared maps. -/
def ClientState.account (s : ClientState) (r : ReplicaId) : Account :=
  ⟨(s.mrt.lookup r).getD 0, fun tx => s.stamp tx r⟩

theorem account_afterVote {s : ClientState} {vote : Vote} {tx : Transaction} {mrtEntry : Timestamp}
    {r r' : ReplicaId} (known : s.mrt.lookup r = some mrtEntry) (carried : vote.transaction = some tx) :
    (afterVote r tx vote.timestamp mrtEntry vote s).account r' =
      if r' = r then Account.consume (tx, vote.timestamp) (s.account r) else s.account r' := by
  split
  · rename_i same
    subst same
    have lane := congrArg (fun lane => (⟨lane.out.mrt, lane.out.stamps⟩ : Account))
      (lane_afterVote_self known carried)
    simp only [ClientState.lane, consumeVote, carried] at lane
    exact lane
  · rename_i other
    exact congrArg (fun lane => (⟨lane.out.mrt, lane.out.stamps⟩ : Account)) (lane_afterVote_other other)

/-- What a vote says, if it carries a transaction. -/
def Vote.entry (vote : Vote) : Option Entry := vote.transaction.map fun tx => (tx, vote.timestamp)

def LaneView.account (view : LaneView) : Account := ⟨view.mrt, view.stamps⟩

/-- Processing votes one by one is keeping their account. -/
theorem account_foldl (order : List Vote) (view : LaneView) :
    (order.foldl (fun view vote => consumeVote vote view) view).account =
      (order.filterMap Vote.entry).foldl (fun account entry => Account.consume entry account) view.account := by
  induction order generalizing view with
  | nil => rfl
  | cons vote rest ih =>
    rw [List.foldl_cons, ih, List.filterMap_cons]
    cases carried : vote.transaction with
    | none => simp only [Vote.entry, consumeVote, carried, Option.map_none]
    | some tx => simp only [Vote.entry, consumeVote, carried, Option.map_some, List.foldl_cons]; rfl

end Podnet
