import Mathlib.Algebra.Order.Ring.Int
import Mathlib.Data.List.AList
import Mathlib.Data.List.Dedup
import Mathlib.Algebra.BigOperators.Group.List.Basic

/-! # Totals over association lists

A hash map with a running total is modelled by `AList`. The lemmas here say how
a sum over all values, the number of values, and a property of every binding
move when one binding is erased or inserted.
-/

namespace AList

variable {κ ν : Type*} [DecidableEq κ]

/-- The sum of `weight` over the values of the map. -/
def sumBy (weight : ν → ℕ) (map : AList fun _ : κ => ν) : ℕ :=
  (map.entries.map fun entry => weight entry.2).sum

/-- Erasing and re-reading: the entries are those of the erased map plus the one removed. -/
theorem entries_perm_erase {map : AList fun _ : κ => ν} {key : κ} {value : ν}
    (hlookup : map.lookup key = some value) :
    map.entries.Perm (⟨key, value⟩ :: (map.erase key).entries) := by
  have hmem : key ∈ map := AList.lookup_isSome.mp (by rw [hlookup]; rfl)
  obtain ⟨found, front, back, _, hentries, herased⟩ := List.exists_of_kerase hmem
  -- The value that `kerase` drops is the one that the lookup finds.
  have hvalue : found = value := by
    have hin : (⟨key, found⟩ : Sigma fun _ : κ => ν) ∈ map.entries := by
      rw [hentries]
      simp
    have heq := (AList.mem_lookup_iff (s := map)).mpr hin
    rw [hlookup] at heq
    exact (Option.some.inj heq).symm
  subst hvalue
  change map.entries.Perm (⟨key, found⟩ :: List.kerase key map.entries)
  rw [herased, hentries]
  exact List.perm_middle

theorem sumBy_erase (weight : ν → ℕ) {map : AList fun _ : κ => ν} {key : κ} {value : ν}
    (hlookup : map.lookup key = some value) :
    map.sumBy weight = weight value + (map.erase key).sumBy weight := by
  unfold sumBy
  rw [((entries_perm_erase hlookup).map _).sum_eq]
  rfl

@[simp] theorem sumBy_insert (weight : ν → ℕ) (map : AList fun _ : κ => ν) (key : κ)
    (value : ν) :
    (map.insert key value).sumBy weight = weight value + (map.erase key).sumBy weight := rfl

theorem length_erase {map : AList fun _ : κ => ν} {key : κ} {value : ν}
    (hlookup : map.lookup key = some value) :
    map.entries.length = (map.erase key).entries.length + 1 := by
  simpa using (entries_perm_erase hlookup).length_eq

@[simp] theorem length_insert (map : AList fun _ : κ => ν) (key : κ) (value : ν) :
    (map.insert key value).entries.length = (map.erase key).entries.length + 1 := rfl

theorem erase_of_lookup_none {map : AList fun _ : κ => ν} {key : κ}
    (hlookup : map.lookup key = none) : map.erase key = map := by
  apply AList.ext
  exact List.kerase_of_notMem_keys (AList.lookup_eq_none.mp hlookup)

/-- A binding after an insertion is the new one or an old one. -/
theorem lookup_insert_cases {map : AList fun _ : κ => ν} {key other : κ} {value found : ν}
    (hlookup : (map.insert key value).lookup other = some found) :
    (other = key ∧ found = value) ∨ map.lookup other = some found := by
  by_cases heq : other = key
  · subst heq
    rw [AList.lookup_insert] at hlookup
    exact Or.inl ⟨rfl, (Option.some.inj hlookup).symm⟩
  · rw [AList.lookup_insert_ne heq] at hlookup
    exact Or.inr hlookup

/-- A binding after an erasure is an old one. -/
theorem lookup_of_lookup_erase {map : AList fun _ : κ => ν} {key other : κ} {found : ν}
    (hlookup : (map.erase key).lookup other = some found) : map.lookup other = some found := by
  by_cases heq : other = key
  · subst heq
    rw [AList.lookup_erase] at hlookup
    cases hlookup
  · rwa [AList.lookup_erase_ne heq] at hlookup

/-- The keys of a hash map in the order `order` asks for, then the remaining
ones. Every iteration order of the map is some choice of `order`. -/
def iterKeys (order : List κ) (map : AList fun _ : κ => ν) : List κ :=
  (order.filter (· ∈ map.keys)).dedup ++ map.keys.filter (· ∉ order)

/-- No order leaves a key out. -/
theorem mem_iterKeys (order : List κ) (map : AList fun _ : κ => ν) (key : κ) :
    key ∈ map.iterKeys order ↔ key ∈ map.keys := by
  by_cases hlisted : key ∈ order
  · simp [iterKeys, hlisted, List.mem_dedup]
  · simp [iterKeys, hlisted, List.mem_dedup]

/-- A key that is not bound adds its value to the total. -/
theorem sumBy_insert_of_lookup_none (weight : ν → ℕ) {map : AList fun _ : κ => ν} {key : κ}
    (hlookup : map.lookup key = none) (value : ν) :
    (map.insert key value).sumBy weight = weight value + map.sumBy weight := by
  rw [sumBy_insert, erase_of_lookup_none hlookup]

theorem sumBy_insert_le (weight : ν → ℕ) (map : AList fun _ : κ => ν) (key : κ) (value : ν) :
    (map.insert key value).sumBy weight ≤ weight value + map.sumBy weight := by
  cases hlookup : map.lookup key with
  | none => exact (sumBy_insert_of_lookup_none weight hlookup value).le
  | some old =>
      rw [sumBy_insert, sumBy_erase weight hlookup]
      omega

/-- A value that is overwritten is missing from the total. -/
theorem sumBy_insert_lt (weight : ν → ℕ) {map : AList fun _ : κ => ν} {key : κ} {old : ν}
    (hlookup : map.lookup key = some old) (hold : 0 < weight old) (value : ν) :
    (map.insert key value).sumBy weight < weight value + map.sumBy weight := by
  rw [sumBy_insert, sumBy_erase weight hlookup]
  omega

/-- The map after its bindings are inserted one after another. -/
def insertAll (map : AList fun _ : κ => ν) (bindings : List (κ × ν)) : AList fun _ : κ => ν :=
  bindings.foldl (fun map binding => map.insert binding.1 binding.2) map

theorem sumBy_insertAll_le (weight : ν → ℕ) (bindings : List (κ × ν))
    (map : AList fun _ : κ => ν) :
    (map.insertAll bindings).sumBy weight
      ≤ map.sumBy weight + (bindings.map fun binding => weight binding.2).sum := by
  induction bindings generalizing map with
  | nil => exact le_rfl
  | cons binding bindings ih =>
      have hrest := ih (map.insert binding.1 binding.2)
      have hfirst := sumBy_insert_le weight map binding.1 binding.2
      simp only [insertAll, List.foldl_cons, List.map_cons, List.sum_cons] at hrest ⊢
      omega

/-- A key that no later insertion binds keeps its value. -/
theorem lookup_insertAll_of_notMem {bindings : List (κ × ν)} {key : κ}
    (hkey : key ∉ bindings.map Prod.fst) (map : AList fun _ : κ => ν) :
    (map.insertAll bindings).lookup key = map.lookup key := by
  induction bindings generalizing map with
  | nil => rfl
  | cons binding bindings ih =>
      rw [List.map_cons, List.mem_cons, not_or] at hkey
      calc (map.insertAll (binding :: bindings)).lookup key
          = (map.insert binding.1 binding.2).lookup key := ih hkey.2 _
        _ = map.lookup key := AList.lookup_insert_ne hkey.1

/-- With distinct keys every binding survives. -/
theorem lookup_insertAll_of_nodup {bindings : List (κ × ν)}
    (hnodup : (bindings.map Prod.fst).Nodup) {key : κ} {value : ν}
    (hmem : (key, value) ∈ bindings) (map : AList fun _ : κ => ν) :
    (map.insertAll bindings).lookup key = some value := by
  induction bindings generalizing map with
  | nil => cases hmem
  | cons binding bindings ih =>
      rw [List.map_cons, List.nodup_cons] at hnodup
      rcases List.mem_cons.mp hmem with rfl | hmem
      · calc (map.insertAll ((key, value) :: bindings)).lookup key
            = (map.insert key value).lookup key := lookup_insertAll_of_notMem hnodup.1 _
          _ = some value := AList.lookup_insert map
      · exact ih hnodup.2 hmem _

/-- The total of the inserted values is reached exactly when no insertion overwrites. -/
theorem sumBy_insertAll_eq_iff (weight : ν → ℕ) {bindings : List (κ × ν)}
    (hbindings : ∀ binding ∈ bindings, 0 < weight binding.2) {map : AList fun _ : κ => ν}
    (hmap : ∀ key value, map.lookup key = some value → 0 < weight value) :
    (map.insertAll bindings).sumBy weight
        = map.sumBy weight + (bindings.map fun binding => weight binding.2).sum
      ↔ (bindings.map Prod.fst).Nodup ∧ ∀ binding ∈ bindings, map.lookup binding.1 = none := by
  induction bindings generalizing map with
  | nil => simp [insertAll]
  | cons binding bindings ih =>
      have hrest := sumBy_insertAll_le weight bindings (map.insert binding.1 binding.2)
      have hsum : map.insertAll (binding :: bindings)
          = (map.insert binding.1 binding.2).insertAll bindings := rfl
      rw [hsum, List.map_cons, List.map_cons, List.sum_cons, List.nodup_cons,
        List.forall_mem_cons]
      cases hlookup : map.lookup binding.1 with
      | some old =>
          -- The first insertion overwrites, and no later one makes up for it.
          have hlost := sumBy_insert_lt weight hlookup (hmap _ _ hlookup) binding.2
          constructor
          · intro htotal
            omega
          · rintro ⟨-, hnone, -⟩
            cases hnone
      | none =>
          have hkept := sumBy_insert_of_lookup_none weight hlookup binding.2
          have hpositive : ∀ key value,
              (map.insert binding.1 binding.2).lookup key = some value → 0 < weight value := by
            intro key value hfound
            rcases lookup_insert_cases hfound with ⟨-, rfl⟩ | hfound
            · exact hbindings binding List.mem_cons_self
            · exact hmap key value hfound
          have hstep := ih (fun other hother => hbindings other (List.mem_cons_of_mem _ hother))
            hpositive
          have hfree : (∀ other ∈ bindings,
                (map.insert binding.1 binding.2).lookup other.1 = none)
              ↔ binding.1 ∉ bindings.map Prod.fst
                ∧ ∀ other ∈ bindings, map.lookup other.1 = none := by
            constructor
            · intro hnone
              refine ⟨?_, fun other hother => ?_⟩
              · intro hmem
                obtain ⟨other, hother, hkey⟩ := List.mem_map.mp hmem
                have hbound := hnone other hother
                rw [hkey, AList.lookup_insert] at hbound
                cases hbound
              · have hbound := hnone other hother
                by_cases hkey : other.1 = binding.1
                · rw [hkey]
                  exact hlookup
                · rwa [AList.lookup_insert_ne hkey] at hbound
            · rintro ⟨hnew, hnone⟩ other hother
              have hkey : other.1 ≠ binding.1 := by
                intro hkey
                exact hnew (hkey ▸ List.mem_map_of_mem hother)
              rw [AList.lookup_insert_ne hkey]
              exact hnone other hother
          constructor
          · intro htotal
            obtain ⟨hnodup, hnone⟩ := hstep.mp (by omega)
            obtain ⟨hnew, hnone⟩ := hfree.mp hnone
            exact ⟨⟨hnew, hnodup⟩, rfl, hnone⟩
          · rintro ⟨⟨hnew, hnodup⟩, -, hnone⟩
            have htotal := hstep.mpr ⟨hnodup, hfree.mpr ⟨hnew, hnone⟩⟩
            omega

end AList
