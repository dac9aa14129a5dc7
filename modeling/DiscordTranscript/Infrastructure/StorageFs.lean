import DiscordTranscript.Foundation.MachineInt

/-! # Chunk file names

The model of the naming half of `infrastructure/storage_fs.rs`: a user id is
percent-encoded byte by byte into one path component, decoded back only from
its canonical encoding, and joined with the sequence number and start time. The
older, lossy encoding is kept for files staged by earlier versions.
-/

namespace DiscordTranscript.Infrastructure

open MachineInt

structure SavedChunk where
  path : String
  sizeBytes : ℕ
  deriving DecidableEq, Repr

inductive ChunkStorageError where
  | io (message : String)
  | remote (message : String)
  deriving DecidableEq, Repr

/-! ## The current encoding -/

def isPlainPathComponentByte (byte : UInt8) : Bool :=
  let c := Char.ofNat byte.toNat
  c.isAlphanum || c = '-' || c = '_' || c = '.'

def upperHexDigit (n : ℕ) : Char :=
  if n < 10 then Char.ofNat ('0'.toNat + n) else Char.ofNat ('A'.toNat + (n - 10))

/-- One byte of a component: itself, or `%XX` in upper-case hexadecimal. -/
def encodePathComponentByte (byte : UInt8) : List Char :=
  if isPlainPathComponentByte byte then [Char.ofNat byte.toNat]
  else ['%', upperHexDigit (byte.toNat / 16), upperHexDigit (byte.toNat % 16)]

def sanitizePathComponent (input : String) : String :=
  let encoded := String.ofList ((utf8Bytes input).flatMap encodePathComponentByte)
  if encoded = "" then "%EMPTY"
  else if encoded = "." then "%2E"
  else if encoded = ".." then "%2E%2E"
  else encoded

/-- Only upper-case digits, so that decoding accepts the canonical form alone. -/
def hexValue (byte : UInt8) : Option ℕ :=
  if '0'.toNat ≤ byte.toNat ∧ byte.toNat ≤ '9'.toNat then some (byte.toNat - '0'.toNat)
  else if 'A'.toNat ≤ byte.toNat ∧ byte.toNat ≤ 'F'.toNat then
    some (byte.toNat - 'A'.toNat + 10)
  else none

def percentDecodeBytes : List UInt8 → Option (List UInt8)
  | [] => some []
  | byte :: rest =>
      if byte.toNat ≠ '%'.toNat then (percentDecodeBytes rest).map (byte :: ·)
      else match rest with
      | high :: low :: tail => do
          let highValue ← hexValue high
          let lowValue ← hexValue low
          let decoded ← percentDecodeBytes tail
          return UInt8.ofNat (highValue * 16 + lowValue) :: decoded
      | _ => none

def percentDecodeComponent (component : String) : Option (List UInt8) :=
  percentDecodeBytes (utf8Bytes component)

def decodeSanitizedPathComponent (component : String) : Option String :=
  if component = "%EMPTY" then some ""
  else do
    let bytes ← percentDecodeComponent component
    let decoded ← String.fromUTF8? (ByteArray.mk bytes.toArray)
    if sanitizePathComponent decoded = component then some decoded else none

/-! ## The legacy encoding -/

/-- FNV-1a over the UTF-8 bytes. -/
def simpleHash (input : String) : UInt64 :=
  (utf8Bytes input).foldl (fun hash byte => (hash ^^^ byte.toUInt64) * 0x100000001b3)
    0xcbf29ce484222325

/-- `format!("{:016x}")`. -/
def lowerHex16 (value : UInt64) : String :=
  let digits := Nat.toDigits 16 value.toNat
  String.ofList (List.replicate (16 - digits.length) '0' ++ digits)

/-- `str::replace("..", "_")`: leftmost matches, without overlap. -/
def replaceDotDot : List Char → List Char
  | '.' :: '.' :: rest => '_' :: replaceDotDot rest
  | c :: rest => c :: replaceDotDot rest
  | [] => []

/-- `unicodeAlphanumeric` is `char::is_alphanumeric` outside ASCII. -/
def isLegacyPlainChar (unicodeAlphanumeric : Char → Bool) (c : Char) : Bool :=
  c.isAlphanum || (c.toNat ≥ 128 && unicodeAlphanumeric c) || c = '-' || c = '_' || c = '.'

def legacySanitizePathComponent (unicodeAlphanumeric : Char → Bool) (input : String) : String :=
  let replaced := input.toList.map fun c => if c = '/' ∨ c = '\\' then '_' else c
  let sanitized := String.ofList
    ((replaceDotDot replaced).filter (isLegacyPlainChar unicodeAlphanumeric))
  if sanitized = "" ∨ sanitized = "." ∨ sanitized = ".." then
    "unknown_" ++ lowerHex16 (simpleHash input)
  else sanitized

def sanitizePathComponentCandidates (unicodeAlphanumeric : Char → Bool) (input : String) :
    List String :=
  let primary := sanitizePathComponent input
  let legacy := legacySanitizePathComponent unicodeAlphanumeric input
  if legacy = primary then [primary] else [primary, legacy]

/-! ## Chunk files -/

/-- The file name that `chunk_file_path` joins to the audio directory. -/
def chunkFileName (userId : String) (sequence startMs : ℕ) : String :=
  sanitizePathComponent userId ++ "_" ++ toString sequence ++ "_" ++ toString startMs ++ ".wav"

end DiscordTranscript.Infrastructure
