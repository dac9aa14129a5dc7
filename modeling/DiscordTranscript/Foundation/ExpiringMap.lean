import Mathlib.Data.List.Basic

/-! # Maps whose values expire

A finite map from keys to values with a time until which each may be read. What
every value under its key satisfies is kept by removals and evictions, and by an
insertion of a value that satisfies it.
-/

/-- The values under their keys, each with the time at which it expires. -/
abbrev ExpiringMap (κ ν : Type*) := List (κ × ν × ℕ)

namespace ExpiringMap

variable {κ ν : Type*} [DecidableEq κ] (entries : ExpiringMap κ ν)

/-- The value under a key, if it has not expired. -/
def get (key : κ) (now : ℕ) : Option ν :=
  ((List.find? (fun entry => entry.1 = key) entries).filter fun entry => now < entry.2.2).map
    (·.2.1)

def remove (key : κ) : ExpiringMap κ ν := List.filter (fun entry => entry.1 ≠ key) entries

/-- Keeps the entries whose key is kept. -/
def retainKeys (kept : κ → Bool) : ExpiringMap κ ν := List.filter (fun entry => kept entry.1) entries

def insert (key : κ) (value : ν) (expiresAt : ℕ) : ExpiringMap κ ν :=
  (key, value, expiresAt) :: remove entries key

/-- Above the limit, what has expired goes. -/
def evict (limit now : ℕ) : ExpiringMap κ ν :=
  if limit < entries.length then List.filter (fun entry => now < entry.2.2) entries else entries

variable {entries}

theorem mem_of_get {key : κ} {now : ℕ} {value : ν} (hget : get entries key now = some value) :
    ∃ expiresAt, (key, value, expiresAt) ∈ entries := by
  obtain ⟨⟨found, stored, expiresAt⟩, hfilter, rfl⟩ := Option.map_eq_some_iff.mp hget
  have hfind := (Option.filter_eq_some_iff.mp hfilter).1
  have hkey := List.find?_some hfind
  simp only [decide_eq_true_eq] at hkey
  subst hkey
  exact ⟨expiresAt, List.mem_of_find?_eq_some hfind⟩

omit [DecidableEq κ] in
theorem mem_of_mem_evict {limit now : ℕ} {entry : κ × ν × ℕ}
    (hentry : entry ∈ evict entries limit now) : entry ∈ entries := by
  unfold evict at hentry
  split at hentry
  next => exact List.mem_of_mem_filter hentry
  next => exact hentry

theorem mem_insert {key : κ} {value : ν} {expiresAt : ℕ} {entry : κ × ν × ℕ}
    (hentry : entry ∈ insert entries key value expiresAt) :
    entry = (key, value, expiresAt) ∨ entry ∈ entries := by
  rcases List.mem_cons.mp hentry with hnew | hold
  · exact .inl hnew
  · exact .inr (List.mem_of_mem_filter hold)

/-- What is there after an insertion and an eviction is new or was there before. -/
theorem forall_evict_insert {P : κ → ν → Prop} {key : κ} {value : ν} {expiresAt limit now : ℕ}
    (hentries : ∀ entry ∈ entries, P entry.1 entry.2.1) (hnew : P key value) :
    ∀ entry ∈ evict (insert entries key value expiresAt) limit now, P entry.1 entry.2.1 := by
  intro entry hentry
  rcases mem_insert (mem_of_mem_evict hentry) with rfl | hold
  · exact hnew
  · exact hentries entry hold

end ExpiringMap
