import Podnet.Client.Read

namespace Podnet

/-- The parameters among the command line arguments of the client, 64-bit words. -/
structure Args where
  alpha : UInt64 := 1
  beta : UInt64 := 0
  deriving DecidableEq, Repr

/-- A vector of the source: its length is a word. -/
abbrev Vec (A : Type) := {entries : List A // entries.length < 2 ^ 64}

/-- The two checks of `main`, in the arithmetic of a release build. The configuration
file is read between them. -/
def mainChecks (args : Args) (replicas : Vec Replica) : Except String Unit :=
  if args.alpha < 4 * args.beta + 1 then
    .error "Alpha value is too low. Please choose a value greater than or equal to 4 * beta + 1."
  else if replicas.val.length < (args.alpha + args.beta).toNat then
    .error ("Insufficient replicas " ++ toString replicas.val.length ++ " for given alpha " ++
      toString args.alpha ++ ", beta " ++ toString args.beta ++ " params")
  else .ok ()

/-- The entries whose id occurs again further down the list. -/
def repeatedEntries : List Replica → Nat
  | [] => 0
  | replica :: rest => repeatedEntries rest + if replica.id ∈ rest.map Replica.id then 1 else 0

/-- The quorum the protocol needs, in natural numbers: the three maps of the client share
their keys, and there are enough of them. -/
structure Quorum (args : Args) (replicas : HashMap ReplicaId Replica) (s : ClientState) : Prop where
  mrtKeys : s.mrt.keys = replicas.keys
  nextsnKeys : s.nextsn.keys = replicas.keys
  alpha_ge : 4 * args.beta.toNat + 1 ≤ args.alpha.toNat
  enough : args.alpha.toNat + args.beta.toNat ≤ replicas.keys.card

variable {args : Args} {replicas : Vec Replica}

theorem mainChecks_ok_iff : mainChecks args replicas = .ok () ↔
    (4 * args.beta.toNat + 1) % 2 ^ 64 ≤ args.alpha.toNat ∧
      (args.alpha.toNat + args.beta.toNat) % 2 ^ 64 ≤ replicas.val.length := by
  have bound : (4 * args.beta + 1).toNat = (4 * args.beta.toNat + 1) % 2 ^ 64 := by
    rw [UInt64.toNat_add, UInt64.toNat_mul, UInt64.toNat_one, show (4 : UInt64).toNat = 4 from rfl]
    omega
  simp only [mainChecks, UInt64.lt_iff_toNat_lt, bound, UInt64.toNat_add]
  constructor
  · intro passed
    split at passed
    · simp at passed
    · split at passed
      · simp at passed
      · omega
  · rintro ⟨high, many⟩
    rw [if_neg (by omega), if_neg (by omega)]

/-- The defaults pass as soon as one replica is configured. -/
theorem mainChecks_default : mainChecks {} replicas = .ok () ↔ replicas.val ≠ [] := by
  rw [mainChecks_ok_iff, ← List.length_pos_iff]
  norm_num [show (1 : UInt64).toNat = 1 from rfl]
  omega

theorem keys_initReplicas (replicasList : List Replica) :
    (initPodNetworkClient replicasList).1.keys = (replicasList.map Replica.id).toFinset := by
  ext r
  simp [Finmap.mem_keys, mem_initReplicas]

/-- Every entry is the last one of its id or is repeated. -/
theorem card_add_repeatedEntries (replicasList : List Replica) :
    (replicasList.map Replica.id).toFinset.card + repeatedEntries replicasList =
      replicasList.length := by
  induction replicasList with
  | nil => rfl
  | cons replica rest ih =>
    rw [List.map_cons, List.toFinset_cons, List.length_cons, repeatedEntries]
    by_cases again : replica.id ∈ rest.map Replica.id
    · rw [Finset.insert_eq_of_mem (List.mem_toFinset.mpr again), if_pos again]
      omega
    · rw [Finset.card_insert_of_notMem (fun member => again (List.mem_toFinset.mp member)), if_neg again]
      omega

theorem repeatedEntries_eq_zero {replicasList : List Replica}
    (distinct : (replicasList.map Replica.id).Nodup) : repeatedEntries replicasList = 0 := by
  have total := card_add_repeatedEntries replicasList
  rw [List.toFinset_card_of_nodup distinct, List.length_map] at total
  omega

/-- A configuration that passes the checks has the quorum exactly if neither sum wraps
and no more entries repeat an id than the list has to spare. -/
theorem accepted_configuration_quorum_iff (args : Args) (replicas : Vec Replica)
    (passed : mainChecks args replicas = .ok ()) :
    Quorum args (initPodNetworkClient replicas.val).1 (initPodNetworkClient replicas.val).2 ↔
      4 * args.beta.toNat + 1 < 2 ^ 64 ∧ args.alpha.toNat + args.beta.toNat < 2 ^ 64 ∧
        repeatedEntries replicas.val ≤ replicas.val.length - (args.alpha.toNat + args.beta.toNat) := by
  obtain ⟨high, many⟩ := mainChecks_ok_iff.mp passed
  have total := card_add_repeatedEntries replicas.val
  have short := replicas.property
  have word := args.alpha.toNat_lt
  have keyed := init_keyed replicas.val
  rw [← keys_initReplicas] at total
  constructor
  · intro quorum
    have high := quorum.alpha_ge
    have enough := quorum.enough
    omega
  · rintro ⟨noWrap, noWrapSum, spare⟩
    refine ⟨?_, ?_, by omega, by omega⟩
    · ext r
      rw [Finmap.mem_keys, Finmap.mem_keys, keyed.mrt]
    · ext r
      rw [Finmap.mem_keys, Finmap.mem_keys, keyed.nextsn]

/-- Six replicas, one of them listed twice, for `alpha = 5` and `beta = 1`. -/
theorem accepted_configuration_quorum_iff_spare :
    let replicas : Vec Replica := ⟨standInReplicas [1, 2, 3, 3, 4, 5, 6], by decide⟩
    mainChecks ⟨5, 1⟩ replicas = .ok () ∧
      (Quorum ⟨5, 1⟩ (initPodNetworkClient replicas.val).1 (initPodNetworkClient replicas.val).2 ↔
        4 * 1 + 1 < 2 ^ 64 ∧ 5 + 1 < 2 ^ 64 ∧ repeatedEntries replicas.val ≤ 7 - (5 + 1)) ∧
      repeatedEntries replicas.val = 1 := by
  intro replicas
  have passed : mainChecks ⟨5, 1⟩ replicas = .ok () := mainChecks_ok_iff.mpr (by decide)
  exact ⟨passed, accepted_configuration_quorum_iff ⟨5, 1⟩ replicas passed, by decide⟩

/-- Two entries with one id pass for `alpha = 2`, and for large parameters both sums
wrap, so that the checks pass without any replica. -/
theorem accepted_configuration_without_quorum :
    let twice : Vec Replica := ⟨standInReplicas [7, 7], by decide⟩
    let none : Vec Replica := ⟨[], by decide⟩
    let large : Args := ⟨9223372036854775808, 9223372036854775808⟩
    (mainChecks ⟨2, 0⟩ twice = .ok () ∧
      ¬ Quorum ⟨2, 0⟩ (initPodNetworkClient twice.val).1 (initPodNetworkClient twice.val).2) ∧
    mainChecks large none = .ok () ∧
      ¬ Quorum large (initPodNetworkClient none.val).1 (initPodNetworkClient none.val).2 := by
  intro twice none large
  refine ⟨⟨mainChecks_ok_iff.mpr (by decide), fun quorum => ?_⟩, mainChecks_ok_iff.mpr (by decide),
    fun quorum => absurd quorum.alpha_ge (by decide)⟩
  have enough := quorum.enough
  rw [keys_initReplicas] at enough
  exact absurd enough (by decide)

/-- Distinct ids and parameters that do not wrap: then the checks of `main` give what the
read API is used under. -/
theorem accepted_of_mainChecks (passed : mainChecks args replicas = .ok ())
    (distinct : (replicas.val.map Replica.id).Nodup) (small : 4 * args.beta.toNat + 1 < 2 ^ 64)
    (fits : args.alpha.toNat + args.beta.toNat < 2 ^ 64) :
    Accepted replicas.val args.alpha.toNat args.beta.toNat := by
  obtain ⟨high, many⟩ := mainChecks_ok_iff.mp passed
  exact ⟨distinct, by omega, by omega⟩

end Podnet
