import Mathlib.Data.List.Nodup

/-! # Tables with a primary key

The rows of a table are kept under unique keys. An `UPDATE` changes the rows that
meet its condition and leaves their keys alone; an `INSERT` needs a new key. What
a statement selects by key is at most one row.
-/

variable {Row Key : Type*}

/-- Rows with unique keys. -/
structure Table (Row : Type*) {Key : Type*} (key : Row → Key) where
  rows : List Row
  nodup : (rows.map key).Nodup

namespace Table

variable {key : Row → Key}

instance : EmptyCollection (Table Row key) := ⟨⟨[], List.nodup_nil⟩⟩

@[simp]
theorem rows_empty : (∅ : Table Row key).rows = [] := rfl

/-- What an `UPDATE` does to each row. -/
def changed (selected : Row → Bool) (change : Row → Row) (row : Row) : Row :=
  if selected row then change row else row

theorem key_changed {selected : Row → Bool} {change : Row → Row}
    (hkey : ∀ row, key (change row) = key row) (row : Row) :
    key (changed selected change row) = key row := by
  unfold changed
  split
  · exact hkey row
  · rfl

/-- `UPDATE .. SET .. WHERE ..`. -/
def update (table : Table Row key) (selected : Row → Bool) (change : Row → Row)
    (hkey : ∀ row, key (change row) = key row) : Table Row key where
  rows := table.rows.map (changed selected change)
  nodup := by
    have hkeys : (table.rows.map (changed selected change)).map key = table.rows.map key := by
      rw [List.map_map]
      exact List.map_congr_left fun row _ => key_changed hkey row
    rw [hkeys]
    exact table.nodup

/-- `INSERT` of a row with a new key. -/
def insert (table : Table Row key) (row : Row) (hfresh : key row ∉ table.rows.map key) :
    Table Row key where
  rows := table.rows ++ [row]
  nodup := by
    rw [List.map_append, List.map_singleton]
    refine List.nodup_append.mpr ⟨table.nodup, List.nodup_singleton _, ?_⟩
    rintro k hk other hother rfl
    obtain rfl := List.mem_singleton.mp hother
    exact hfresh hk

/-- `DELETE FROM .. WHERE ..`. -/
def delete (table : Table Row key) (selected : Row → Bool) : Table Row key where
  rows := table.rows.filter (!selected ·)
  nodup := table.nodup.sublist (List.filter_sublist.map key)

@[simp]
theorem rows_update (table : Table Row key) (selected : Row → Bool) (change : Row → Row)
    (hkey : ∀ row, key (change row) = key row) :
    (table.update selected change hkey).rows = table.rows.map (changed selected change) := rfl

@[simp]
theorem rows_insert (table : Table Row key) (row : Row)
    (hfresh : key row ∉ table.rows.map key) :
    (table.insert row hfresh).rows = table.rows ++ [row] := rfl

theorem mem_update {table : Table Row key} {selected : Row → Bool} {change : Row → Row}
    {hkey : ∀ row, key (change row) = key row} {row : Row} :
    row ∈ (table.update selected change hkey).rows ↔
      ∃ before ∈ table.rows, changed selected change before = row :=
  List.mem_map

theorem eq_of_key_eq (table : Table Row key) {left right : Row} (hleft : left ∈ table.rows)
    (hright : right ∈ table.rows) (heq : key left = key right) : left = right :=
  List.inj_on_of_nodup_map table.nodup hleft hright heq

section

variable [DecidableEq Key]

def get (table : Table Row key) (k : Key) : Option Row := table.rows.find? (key · = k)

theorem get_eq_some {table : Table Row key} {k : Key} {row : Row} :
    table.get k = some row ↔ row ∈ table.rows ∧ key row = k := by
  constructor
  · intro hget
    exact ⟨List.mem_of_find?_eq_some hget, by simpa using List.find?_some hget⟩
  · rintro ⟨hrow, rfl⟩
    unfold get
    cases hfind : table.rows.find? (key · = key row) with
    | none => simpa using List.find?_eq_none.mp hfind row hrow
    | some found =>
        have hkey : key found = key row := by simpa using List.find?_some hfind
        rw [table.eq_of_key_eq (List.mem_of_find?_eq_some hfind) hrow hkey]

theorem get_eq_none {table : Table Row key} {k : Key} :
    table.get k = none ↔ ∀ row ∈ table.rows, key row ≠ k := by
  simp [get, List.find?_eq_none]

/-- Looking a row up after an update is updating the row that was found. -/
theorem get_update (table : Table Row key) (selected : Row → Bool) (change : Row → Row)
    (hkey : ∀ row, key (change row) = key row) (k : Key) :
    (table.update selected change hkey).get k = (table.get k).map (changed selected change) := by
  cases hget : table.get k with
  | none =>
      refine get_eq_none.mpr fun row hrow => ?_
      obtain ⟨before, hbefore, rfl⟩ := mem_update.mp hrow
      rw [key_changed hkey]
      exact get_eq_none.mp hget before hbefore
  | some row =>
      obtain ⟨hrow, hk⟩ := get_eq_some.mp hget
      exact get_eq_some.mpr ⟨mem_update.mpr ⟨row, hrow, rfl⟩, (key_changed hkey row).trans hk⟩

/-- An `UPDATE` of the row with the key, if it meets the condition too, and the row
as it is returned. -/
def updateKey (table : Table Row key) (k : Key) (also : Row → Bool) (change : Row → Row)
    (hkey : ∀ row, key (change row) = key row) : Option Row × Table Row key :=
  (((table.get k).filter also).map change,
    table.update (fun row => key row = k && also row) change hkey)

section

variable {table : Table Row key} {k : Key} {also : Row → Bool} {change : Row → Row}

/-- Nothing happens to a row that is not there or does not meet the condition. -/
theorem updateKey_none (hnone : ∀ row, table.get k = some row → also row = false)
    (hkey : ∀ row, key (change row) = key row) :
    table.updateKey k also change hkey = (none, table) := by
  unfold updateKey
  have hfilter : (table.get k).filter also = none := by
    cases hget : table.get k with
    | none => rfl
    | some row => simp [Option.filter, hnone row hget]
  have hsame : table.update (fun row => key row = k && also row) change hkey = table := by
    obtain ⟨rows, hnodup⟩ := table
    simp only [update, mk.injEq]
    refine (List.map_congr_left (g := id) fun row hrow => ?_).trans (List.map_id rows)
    unfold changed
    by_cases hk : key row = k
    · simp [hnone row (get_eq_some.mpr ⟨hrow, hk⟩)]
    · simp [hk]
  rw [hfilter, hsame]
  rfl

/-- The row is found, meets the condition and alone is changed, or nothing happens. -/
theorem updateKey_cases (table : Table Row key) (k : Key) (also : Row → Bool)
    (change : Row → Row) (hkey : ∀ row, key (change row) = key row) :
    (∃ row, table.get k = some row ∧ also row = true ∧
        table.updateKey k also change hkey =
          (some (change row), table.update (fun row => key row = k) change hkey)) ∨
      (∀ row, table.get k = some row → also row = false) ∧
        table.updateKey k also change hkey = (none, table) := by
  by_cases hfound : ∃ row, table.get k = some row ∧ also row = true
  · obtain ⟨row, hget, halso⟩ := hfound
    refine .inl ⟨row, hget, halso, ?_⟩
    obtain ⟨hrow, hk⟩ := get_eq_some.mp hget
    have hupdate : table.update (fun row => key row = k && also row) change hkey =
        table.update (fun row => key row = k) change hkey := by
      simp only [update, mk.injEq]
      refine List.map_congr_left fun other hother => ?_
      unfold changed
      by_cases hsame : key other = k
      · obtain rfl := table.eq_of_key_eq hother hrow (hsame.trans hk.symm)
        simp [hsame, halso]
      · simp [hsame]
    rw [updateKey, hget, hupdate]
    simp [Option.filter, halso]
  · have hnone : ∀ row, table.get k = some row → also row = false := by
      intro row hget
      by_contra halso
      exact hfound ⟨row, hget, by simpa using halso⟩
    exact .inr ⟨hnone, updateKey_none hnone hkey⟩

/-- The row under the key after the update. -/
theorem get_updateKey (table : Table Row key) (k : Key) (also : Row → Bool)
    (change : Row → Row) (hkey : ∀ row, key (change row) = key row) :
    (table.updateKey k also change hkey).2.get k =
      (table.get k).map fun row => if also row then change row else row := by
  rw [updateKey, get_update]
  cases hget : table.get k with
  | none => rfl
  | some row => simp [changed, (get_eq_some.mp hget).2]

/-- The other rows stay as they are. -/
theorem get_updateKey_of_ne (table : Table Row key) {k other : Key} (hother : other ≠ k)
    (also : Row → Bool) (change : Row → Row) (hkey : ∀ row, key (change row) = key row) :
    (table.updateKey k also change hkey).2.get other = table.get other := by
  rw [updateKey, get_update]
  cases hget : table.get other with
  | none => rfl
  | some row =>
      have hdiffers : key row ≠ k := (get_eq_some.mp hget).2.trans_ne hother
      simp [changed, hdiffers]

end

theorem get_insert (table : Table Row key) (row : Row) (hfresh : key row ∉ table.rows.map key)
    (k : Key) : (table.insert row hfresh).get k = if key row = k then some row else table.get k := by
  split
  next hk => exact get_eq_some.mpr ⟨by simp, hk⟩
  next hk => simp [get, List.find?_append, hk]

end

end Table
