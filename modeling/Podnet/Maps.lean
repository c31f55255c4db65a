import Podnet.Word

/-- A hash map is a finite map: equal contents are equal maps, and no order of
its entries can be read off it. -/
abbrev HashMap (K V : Type) := Finmap fun _ : K => V

/-- An ordered map has the same contents; only `firstKeyValue` sees the order. -/
abbrev BTreeMap (K V : Type) := Finmap fun _ : K => V

/-- One way of walking through hash maps: every entry is visited exactly once,
in an order the map does not promise. -/
structure IterOrder (K V : Type) [DecidableEq K] where
  visit : HashMap K V → List (K × V)
  nodup_keys : ∀ m, ((visit m).map Prod.fst).Nodup
  mem_visit : ∀ m k v, (k, v) ∈ visit m ↔ m.lookup k = some v

namespace IterOrder

variable {K V : Type} [DecidableEq K] (order : IterOrder K V) (m : HashMap K V)

/-- The keys in the order of the walk. -/
def keys : List K := (order.visit m).map Prod.fst

/-- The values in the order of the walk. -/
def values : List V := (order.visit m).map Prod.snd

theorem keys_nodup : (order.keys m).Nodup := order.nodup_keys m

theorem mem_keys {k : K} : k ∈ order.keys m ↔ k ∈ m := by
  simp only [keys, List.mem_map, Prod.exists, exists_and_right, exists_eq_right, order.mem_visit,
    Finmap.mem_iff]

theorem mem_values {k : K} {v : V} (atKey : m.lookup k = some v) : v ∈ order.values m :=
  List.mem_map.mpr ⟨(k, v), (order.mem_visit m k v).mpr atKey, rfl⟩

theorem keys_toFinset : (order.keys m).toFinset = m.keys := by
  ext k
  rw [List.mem_toFinset, order.mem_keys, Finmap.mem_keys]

/-- Two walks through one map visit the same entries. -/
theorem visit_perm (order' : IterOrder K V) : (order.visit m).Perm (order'.visit m) := by
  have nodup : ∀ walk : IterOrder K V, (walk.visit m).Nodup := fun walk => (walk.nodup_keys m).of_map
  refine (List.perm_ext_iff_of_nodup (nodup order) (nodup order')).mpr ?_
  rintro ⟨k, v⟩
  rw [order.mem_visit, order'.mem_visit]

theorem keys_perm (order' : IterOrder K V) : (order.keys m).Perm (order'.keys m) :=
  (order.visit_perm m order').map Prod.fst

theorem values_perm (order' : IterOrder K V) : (order.values m).Perm (order'.values m) :=
  (order.visit_perm m order').map Prod.snd

theorem length_keys : (order.keys m).length = m.keys.card := by
  rw [← order.keys_toFinset, List.toFinset_card_of_nodup (order.keys_nodup m)]

theorem length_visit : (order.visit m).length = m.keys.card := by
  rw [← order.length_keys, keys, List.length_map]

/-- Looking every visited key up again finds the visited values. -/
theorem filterMap_keys_lookup : (order.keys m).filterMap m.lookup = order.values m := by
  rw [keys, values, List.filterMap_map, ← List.filterMap_eq_map]
  refine List.filterMap_congr ?_
  rintro ⟨k, v⟩ visited
  exact (order.mem_visit m k v).mp visited

end IterOrder

/-- Some walk exists for every type of keys and values. -/
noncomputable def IterOrder.arbitrary (K V : Type) [DecidableEq K] : IterOrder K V where
  visit m := m.entries.toList.map fun entry => (entry.1, entry.2)
  nodup_keys m := by
    rw [List.map_map]
    have keys := m.nodupKeys
    rw [← Multiset.coe_toList m.entries] at keys
    exact keys
  mem_visit m k v := by
    rw [Finmap.lookup_eq_some_iff]
    simp only [List.mem_map, Multiset.mem_toList, Prod.mk.injEq]
    constructor
    · rintro ⟨⟨k', v'⟩, member, rfl, rfl⟩
      exact member
    · intro member
      exact ⟨⟨k, v⟩, member, rfl, rfl⟩

namespace IterOrder

variable {K V : Type} [DecidableEq K]

open Classical in
/-- The walk that goes through one map in another order. -/
noncomputable def rewalk (order : IterOrder K V) (m : HashMap K V) (entries : List (K × V))
    (perm : entries.Perm (order.visit m)) : IterOrder K V where
  visit m' := if m' = m then entries else order.visit m'
  nodup_keys m' := by
    split
    · exact (perm.map Prod.fst).nodup_iff.mpr (order.nodup_keys m)
    · exact order.nodup_keys m'
  mem_visit m' k v := by
    split
    · rename_i same
      rw [perm.mem_iff, order.mem_visit, same]
    · exact order.mem_visit m' k v

theorem visit_rewalk (order : IterOrder K V) (m : HashMap K V) {entries : List (K × V)}
    (perm : entries.Perm (order.visit m)) : (order.rewalk m entries perm).visit m = entries :=
  if_pos rfl

/-- No promise about the order: any entry can come at any position. -/
theorem exists_visit_at (m : HashMap K V) {k : K} {v : V} (atKey : m.lookup k = some v) {i : Nat}
    (inside : i < m.keys.card) : ∃ order : IterOrder K V, (order.visit m)[i]? = some (k, v) := by
  have base := IterOrder.arbitrary K V
  obtain ⟨before, after, split⟩ := List.append_of_mem ((base.mem_visit m k v).mpr atKey)
  have length := base.length_visit m
  rw [split, List.length_append, List.length_cons] at length
  have room : i ≤ (before ++ after).length := by
    rw [List.length_append]
    omega
  have perm : ((before ++ after).insertIdx i (k, v)).Perm (base.visit m) := by
    rw [split]
    exact (List.perm_insertIdx _ _ room).trans List.perm_middle.symm
  refine ⟨base.rewalk m _ perm, ?_⟩
  rw [visit_rewalk, List.getElem?_insertIdx_self, if_pos room]

end IterOrder

namespace BTreeMap

variable {K V : Type} [LinearOrder K]

/-- The entry of the least key. -/
def firstKeyValue (m : BTreeMap K V) : Option (K × V) :=
  match m.keys.min with
  | none => none
  | some k => (m.lookup k).map fun v => (k, v)

theorem firstKeyValue_none {m : BTreeMap K V} (first : firstKeyValue m = none) : m.keys = ∅ := by
  unfold firstKeyValue at first
  split at first
  · rename_i top
    exact Finset.min_eq_top.mp top
  · rename_i k least
    have member : k ∈ m := Finmap.mem_keys.mp (Finset.mem_of_min least)
    rw [Option.map_eq_none_iff, Finmap.lookup_eq_none] at first
    exact absurd member first

theorem firstKeyValue_some {m : BTreeMap K V} {k : K} {v : V}
    (first : firstKeyValue m = some (k, v)) :
    m.lookup k = some v ∧ ∀ k' ∈ m.keys, k ≤ k' := by
  unfold firstKeyValue at first
  split at first
  · simp at first
  · rename_i k₀ least
    obtain ⟨v₀, atKey, same⟩ := Option.map_eq_some_iff.mp first
    cases same
    exact ⟨atKey, fun k' member => Finset.min_le_of_eq member least⟩

theorem keys_insert (m : BTreeMap K V) (k : K) (v : V) :
    (Finmap.insert k v m).keys = insert k m.keys := by
  ext k'
  rw [Finmap.mem_keys, Finmap.mem_insert, Finset.mem_insert, Finmap.mem_keys]

end BTreeMap
