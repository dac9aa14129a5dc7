import Mathlib.Data.List.Nodup
import Mathlib.Data.List.Perm.Basic
import Mathlib.Tactic.Common

/-! # Maps in insertion order

The `Map` of ECMAScript: its bindings stand in the order in which their keys were first set, and
setting a key that is bound changes the binding where it stands.
-/

structure InsertionMap (κ ν : Type*) where
  entries : List (κ × ν)
  nodup : (entries.map Prod.fst).Nodup

namespace InsertionMap

variable {κ ν : Type*}

@[ext] theorem ext {left right : InsertionMap κ ν} (hentries : left.entries = right.entries) :
    left = right := by
  cases left
  cases right
  subst hentries
  rfl

def empty : InsertionMap κ ν := ⟨[], List.nodup_nil⟩

def values (map : InsertionMap κ ν) : List ν := map.entries.map Prod.snd

variable [DecidableEq κ]

def get (map : InsertionMap κ ν) (key : κ) : Option ν :=
  (map.entries.find? (·.1 = key)).map Prod.snd

/-- The bindings after a key is set. -/
def assign (key : κ) (value : ν) : List (κ × ν) → List (κ × ν)
  | [] => [(key, value)]
  | entry :: rest =>
      if entry.1 = key then (key, value) :: rest else entry :: assign key value rest

theorem mem_keys_assign {key other : κ} {value : ν} {entries : List (κ × ν)} :
    other ∈ (assign key value entries).map Prod.fst ↔
      other = key ∨ other ∈ entries.map Prod.fst := by
  induction entries with
  | nil => simp [assign]
  | cons entry rest ih =>
      unfold assign
      split
      next hkey => simp [hkey]
      next => simp only [List.map_cons, List.mem_cons, ih, or_left_comm]

theorem nodup_assign {key : κ} {value : ν} {entries : List (κ × ν)}
    (hnodup : (entries.map Prod.fst).Nodup) :
    ((assign key value entries).map Prod.fst).Nodup := by
  induction entries with
  | nil => simp [assign]
  | cons entry rest ih =>
      rw [List.map_cons, List.nodup_cons] at hnodup
      unfold assign
      split
      next hkey =>
        rw [List.map_cons, List.nodup_cons, ← hkey]
        exact hnodup
      next hne =>
        rw [List.map_cons, List.nodup_cons, mem_keys_assign, not_or]
        exact ⟨⟨hne, hnodup.1⟩, ih hnodup.2⟩

def set (map : InsertionMap κ ν) (key : κ) (value : ν) : InsertionMap κ ν :=
  ⟨assign key value map.entries, nodup_assign map.nodup⟩

variable {map : InsertionMap κ ν} {key other : κ} {value found : ν}

theorem find?_assign (key other : κ) (value : ν) (entries : List (κ × ν)) :
    ((assign key value entries).find? (·.1 = other)).map Prod.snd =
      if key = other then some value
      else (entries.find? (·.1 = other)).map Prod.snd := by
  induction entries with
  | nil =>
      by_cases hkey : key = other
      · simp [assign, hkey]
      · simp [assign, hkey]
  | cons entry rest ih =>
      unfold assign
      split
      next hentry =>
        by_cases hkey : key = other
        · simp [hkey]
        · simp [hentry, hkey]
      next hentry =>
        rw [List.find?_cons, List.find?_cons]
        by_cases hother : entry.1 = other
        · have hkey : key ≠ other := by
            rintro rfl
            exact hentry hother
          simp [hother, hkey]
        · simpa [hother] using ih

theorem get_set (map : InsertionMap κ ν) (key other : κ) (value : ν) :
    (map.set key value).get other = if key = other then some value else map.get other :=
  find?_assign key other value map.entries

theorem mem_assign {entries : List (κ × ν)} (hmem : (other, found) ∈ assign key value entries) :
    (other = key ∧ found = value) ∨ (other, found) ∈ entries := by
  induction entries with
  | nil =>
      left
      simpa [assign] using hmem
  | cons entry rest ih =>
      unfold assign at hmem
      split at hmem
      next =>
        rcases List.mem_cons.mp hmem with heq | hmem
        · cases heq
          exact .inl ⟨rfl, rfl⟩
        · exact .inr (List.mem_cons_of_mem _ hmem)
      next =>
        rcases List.mem_cons.mp hmem with rfl | hmem
        · exact .inr List.mem_cons_self
        · exact (ih hmem).imp_right (List.mem_cons_of_mem _)

theorem mem_entries_set (hmem : (other, found) ∈ (map.set key value).entries) :
    (other = key ∧ found = value) ∨ (other, found) ∈ map.entries :=
  mem_assign hmem

theorem mem_entries_of_get (hget : map.get key = some value) : (key, value) ∈ map.entries := by
  obtain ⟨entry, hfind, rfl⟩ := Option.map_eq_some_iff.mp hget
  have hkey : entry.1 = key := by simpa using List.find?_some hfind
  rw [← hkey]
  exact List.mem_of_find?_eq_some hfind

theorem get_of_mem_entries (hmem : (key, value) ∈ map.entries) : map.get key = some value := by
  obtain ⟨front, back, hsplit⟩ := List.append_of_mem hmem
  have hnodup := map.nodup
  rw [hsplit, List.map_append, List.map_cons, List.nodup_append] at hnodup
  have hfront : front.find? (·.1 = key) = none := by
    rw [List.find?_eq_none]
    intro entry hentry hkey
    exact hnodup.2.2 entry.1 (List.mem_map_of_mem hentry) key (by simp) (by simpa using hkey)
  rw [get, hsplit, List.find?_append, hfront]
  simp

/-- The keys that are bound stay where they are. -/
theorem assign_of_find?_none {entries : List (κ × ν)}
    (hfind : entries.find? (·.1 = key) = none) :
    assign key value entries = entries ++ [(key, value)] := by
  induction entries with
  | nil => rfl
  | cons entry rest ih =>
      rw [List.find?_cons] at hfind
      by_cases hentry : entry.1 = key
      · simp [hentry] at hfind
      · simp only [hentry, decide_false] at hfind
        rw [assign, if_neg hentry, ih hfind]
        rfl

theorem values_set_of_get_none (hget : map.get key = none) :
    (map.set key value).values = map.values ++ [value] := by
  unfold get at hget
  rw [Option.map_eq_none_iff] at hget
  have hentries : (map.set key value).entries = map.entries ++ [(key, value)] :=
    assign_of_find?_none hget
  simp [values, hentries]

theorem values_set_of_get (hget : map.get key = some found) :
    ∃ front back, map.values = front ++ found :: back ∧
      (map.set key value).values = front ++ value :: back := by
  have hassign : ∀ entries : List (κ × ν),
      (entries.find? (·.1 = key)).map Prod.snd = some found →
      ∃ front back, entries.map Prod.snd = front ++ found :: back ∧
        (assign key value entries).map Prod.snd = front ++ value :: back := by
    intro entries hfind
    induction entries with
    | nil => cases hfind
    | cons entry rest ih =>
        rw [List.find?_cons] at hfind
        by_cases hentry : entry.1 = key
        · simp only [hentry, decide_true, Option.map_some, Option.some.injEq] at hfind
          exact ⟨[], rest.map Prod.snd, by simp [hfind], by simp [assign, hentry]⟩
        · simp only [hentry, decide_false] at hfind
          obtain ⟨front, back, hold, hnew⟩ := ih hfind
          exact ⟨entry.2 :: front, back, by simp [hold], by simp [assign, hentry, hnew]⟩
  exact hassign map.entries hget

end InsertionMap
