import Mathlib.Data.List.AList
import Mathlib.Data.List.Infix

/-! # The object store

The model of the part of `infrastructure/s3.rs` that the recording uploads rest
on: the errors of a request and which of them are worth a retry, and a bucket of
objects with the four requests made of it. What a request meets on its way (it
is lost, it takes effect but its answer is an error) is an input of the caller's
step; the functions here are the effects.
-/

namespace DiscordTranscript.Infrastructure

/-! ## Errors -/

inductive S3Error where
  | config (message : String)
  | http (message : String)
  | status (code : ℕ) (detail : String)
  deriving DecidableEq, Repr

def S3Error.text : S3Error → String
  | .config err => s!"s3 config error: {err}"
  | .http err => s!"s3 request error: {err}"
  | .status code detail => s!"s3 request failed with status {code}: {detail}"

def retryableCodes : List String :=
  ["requesttimeout", "requesttimeoutexception", "slowdown", "operationaborted", "throttling",
    "temporarilyunavailable", "serviceunavailable"]

def isRetryableUploadError : S3Error → Bool
  | .config _ => false
  | .http _ => true
  | .status code detail =>
      code = 408 || code = 429 || 500 ≤ code ||
        retryableCodes.any fun name => name.toList <:+: detail.toList.map Char.toLower

/-- A PUT takes effect or is lost with an error; once it has taken effect the
answer may still be an error. -/
inductive PutEffect where
  | stored
  | lost (error : S3Error)
  deriving DecidableEq

abbrev PutAnswer := Except S3Error Unit

/-! ## Keys -/

def startsWith (key start : String) : Bool := start.toList.isPrefixOf key.toList

def stripStart (key start : String) : Option String :=
  if startsWith key start then some (String.ofList (key.toList.drop start.toList.length)) else none

theorem startsWith_iff {key start : String} :
    startsWith key start = true ↔ start.toList <+: key.toList :=
  List.isPrefixOf_iff_prefix

theorem startsWith_append (start rest : String) : startsWith (start ++ rest) start = true := by
  rw [startsWith_iff, String.toList_append]
  exact List.prefix_append _ _

theorem stripStart_eq_some {key start rest : String} :
    stripStart key start = some rest ↔ key = start ++ rest := by
  unfold stripStart
  constructor
  · intro hstrip
    split at hstrip
    next hstart =>
      obtain ⟨tail, htail⟩ := startsWith_iff.mp hstart
      have hrest : rest = String.ofList tail := by
        rw [← htail, List.drop_left, Option.some.injEq] at hstrip
        exact hstrip.symm
      apply String.toList_injective
      rw [← htail, hrest, String.toList_append, String.toList_ofList]
    next => cases hstrip
  · rintro rfl
    rw [if_pos (startsWith_append start rest), String.toList_append, List.drop_left,
      String.ofList_toList]

/-! ## The bucket -/

/-- The objects by key, and the files of the staging tree. `storedBy` and
`removed` are history: which upload put the present object there, and the keys
of which a deletion took effect. -/
structure World where
  objects : AList (fun _ : String => List UInt8)
  files : List String → Option (List UInt8)
  storedBy : String → Option ℕ := fun _ => none
  removed : List String := []

namespace World

def object (world : World) (key : String) : Option (List UInt8) := world.objects.lookup key

def put (world : World) (key : String) (body : List UInt8) (generation : Option ℕ) : World :=
  { world with
    objects := world.objects.insert key body
    storedBy := Function.update world.storedBy key generation }

/-- Deletes the keys; unknown ones are ignored. -/
def delete (world : World) (keys : List String) : World :=
  { world with
    objects := keys.foldl (fun objects key => objects.erase key) world.objects
    storedBy := fun key => if key ∈ keys then none else world.storedBy key
    removed := world.removed ++ keys }

/-- A complete listing. -/
def listKeys (world : World) (start : String) : List String :=
  world.objects.keys.filter (startsWith · start)

def edit (world : World) (path : List String) (content : Option (List UInt8)) : World :=
  { world with files := Function.update world.files path content }

theorem object_put (world : World) (key other : String) (body : List UInt8)
    (generation : Option ℕ) :
    (world.put key body generation).object other = if other = key then some body
      else world.object other := by
  unfold object put
  split
  next hkey =>
    subst hkey
    exact AList.lookup_insert world.objects
  next hkey => exact AList.lookup_insert_ne hkey

theorem object_delete (world : World) (keys : List String) (key : String) :
    (world.delete keys).object key = if key ∈ keys then none else world.object key := by
  have hfold : ∀ objects : AList (fun _ : String => List UInt8),
      (keys.foldl (fun objects key => objects.erase key) objects).lookup key =
        if key ∈ keys then none else objects.lookup key := by
    induction keys with
    | nil => simp
    | cons first rest ih =>
        intro objects
        rw [List.foldl_cons, ih]
        by_cases hfirst : key = first
        · subst hfirst
          simp
        · simp [hfirst, AList.lookup_erase_ne hfirst]
  exact hfold world.objects

theorem mem_listKeys {world : World} {start key : String} :
    key ∈ world.listKeys start ↔ startsWith key start = true ∧ (world.object key).isSome := by
  unfold listKeys object
  rw [List.mem_filter, AList.lookup_isSome, AList.mem_keys, and_comm]

@[simp] theorem object_edit (world : World) (path : List String) (content : Option (List UInt8))
    (key : String) : (world.edit path content).object key = world.object key := rfl

end World

end DiscordTranscript.Infrastructure
