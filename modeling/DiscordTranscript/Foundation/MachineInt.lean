import Mathlib.Algebra.Order.Ring.Int
import Mathlib.Data.List.Basic

/-! # Fixed-width arithmetic and byte codecs

Unsigned machine integers are naturals; where an operation can overflow, the
checked, saturating and wrapping forms take the largest representable value. Byte
strings are lists, and fixed-width fields are little-endian.
-/

namespace MachineInt

def u16Max : ℕ := 2 ^ 16 - 1
def u32Max : ℕ := 2 ^ 32 - 1
def u64Max : ℕ := 2 ^ 64 - 1

/-- `usize` on the 64-bit targets the service is built for. -/
def usizeMax : ℕ := u64Max

def checkedAdd (top a b : ℕ) : Option ℕ := if a + b ≤ top then some (a + b) else none

def checkedMul (top a b : ℕ) : Option ℕ := if a * b ≤ top then some (a * b) else none

def saturatingAdd (top a b : ℕ) : ℕ := min (a + b) top

def saturatingMul (top a b : ℕ) : ℕ := min (a * b) top

/-- A plain `+`, which wraps in a release build. -/
def wrappingAdd (top a b : ℕ) : ℕ := (a + b) % (top + 1)

def divCeil (a b : ℕ) : ℕ := (a + b - 1) / b

theorem checkedAdd_eq_some {top a b c : ℕ} :
    checkedAdd top a b = some c ↔ a + b ≤ top ∧ c = a + b := by
  unfold checkedAdd
  split
  next h => simp [h, eq_comm]
  next h => simp [h]

theorem saturatingAdd_of_le {top a b : ℕ} (h : a + b ≤ top) : saturatingAdd top a b = a + b :=
  min_eq_left h

theorem wrappingAdd_of_le {top a b : ℕ} (h : a + b ≤ top) : wrappingAdd top a b = a + b :=
  Nat.mod_eq_of_lt (Nat.lt_succ_of_le h)

theorem wrappingAdd_le (top a b : ℕ) : wrappingAdd top a b ≤ a + b := Nat.mod_le _ _

/-- A sum that saturates above a limit is cut at the limit as the sum is. -/
theorem min_saturatingAdd {top limit : ℕ} (htop : limit ≤ top) (a b : ℕ) :
    min (saturatingAdd top a b) limit = min (a + b) limit := by
  unfold saturatingAdd
  omega

theorem saturatingMul_of_le {top a b : ℕ} (h : a * b ≤ top) : saturatingMul top a b = a * b :=
  min_eq_left h

def dropPlusSign : List Char → List Char
  | '+' :: rest => rest
  | text => text

/-- `str::parse` of an unsigned integer: an optional plus sign, then digits only. -/
def parseUnsigned (top : ℕ) (text : String) : Option ℕ :=
  let digits := dropPlusSign text.toList
  if digits.isEmpty || !digits.all Char.isDigit then none
  else
    let value := Nat.ofDigitChars 10 digits 0
    if value ≤ top then some value else none

theorem parseUnsigned_le {top n : ℕ} {text : String} (hparse : parseUnsigned top text = some n) :
    n ≤ top := by
  simp only [parseUnsigned] at hparse
  split at hparse
  next => cases hparse
  next =>
    split at hparse
    next hle =>
      cases hparse
      exact hle
    next => cases hparse

theorem parseUnsigned_toString {top n : ℕ} (hn : n ≤ top) :
    parseUnsigned top (toString n) = some n := by
  have hdigits : ∀ digit ∈ Nat.toDigits 10 n, digit.isDigit = true := fun digit hdigit =>
    Nat.isDigit_of_mem_toDigits (by decide) (by decide) hdigit
  have hsign : dropPlusSign (Nat.toDigits 10 n) = Nat.toDigits 10 n := by
    unfold dropPlusSign
    split
    next rest heq =>
      -- A decimal numeral has no plus sign.
      have hplus := hdigits '+' (by rw [heq]; exact List.mem_cons_self)
      exact absurd hplus (by decide)
    next => rfl
  have hall : (Nat.toDigits 10 n).all Char.isDigit = true := List.all_eq_true.mpr hdigits
  simp [parseUnsigned, hsign, Nat.toDigits_ne_nil, hall, hn]

/-! ## Byte codecs -/

/-- The bytes of a text as the wire carries them. -/
def utf8Bytes (text : String) : List UInt8 := text.toUTF8.data.toList

theorem utf8EncodeChar_ascii {c : Char} (hascii : c.toNat < 128) :
    String.utf8EncodeChar c = [UInt8.ofNat c.toNat] := by
  have hval : c.toNat ≤ 127 := by omega
  simp [String.utf8EncodeChar, hval]

theorem utf8Bytes_append (left right : String) :
    utf8Bytes (left ++ right) = utf8Bytes left ++ utf8Bytes right := by
  simp [utf8Bytes]

theorem utf8Bytes_ofList_ascii {text : List Char} (hascii : ∀ c ∈ text, c.toNat < 128) :
    utf8Bytes (String.ofList text) = text.map fun c => UInt8.ofNat c.toNat := by
  have hflat : utf8Bytes (String.ofList text) = text.flatMap String.utf8EncodeChar := by
    simp [utf8Bytes, List.utf8Encode]
  rw [hflat]
  clear hflat
  induction text with
  | nil => rfl
  | cons c rest ih =>
      have hrest := ih fun other hother => hascii other (List.mem_cons_of_mem _ hother)
      rw [List.flatMap_cons, utf8EncodeChar_ascii (hascii c List.mem_cons_self), hrest]
      rfl

theorem fromUTF8?_utf8Bytes (text : String) :
    String.fromUTF8? (ByteArray.mk (utf8Bytes text).toArray) = some text := by
  have hbytes : ByteArray.mk (utf8Bytes text).toArray = text.toByteArray := by
    simp [utf8Bytes]
  rw [hbytes, String.fromUTF8?, dif_pos text.isValidUTF8]
  rfl

theorem utf8Bytes_injective : Function.Injective utf8Bytes := by
  intro left right heq
  have hread := fromUTF8?_utf8Bytes left
  rw [heq, fromUTF8?_utf8Bytes right] at hread
  exact (Option.some.inj hread).symm

/-- The number whose base-256 digits, least significant first, are the bytes. -/
def ofLeBytes : List UInt8 → ℕ
  | [] => 0
  | byte :: rest => byte.toNat + 256 * ofLeBytes rest

/-- The `width` low bytes of a number, least significant first. -/
def toLeBytes : ℕ → ℕ → List UInt8
  | 0, _ => []
  | width + 1, n => UInt8.ofNat n :: toLeBytes width (n / 256)

@[simp] theorem length_toLeBytes (width n : ℕ) : (toLeBytes width n).length = width := by
  induction width generalizing n with
  | zero => rfl
  | succ width ih => simp [toLeBytes, ih]

theorem ofLeBytes_lt (bytes : List UInt8) : ofLeBytes bytes < 256 ^ bytes.length := by
  induction bytes with
  | nil => simp [ofLeBytes]
  | cons byte rest ih =>
      have hbyte := byte.toNat_lt
      rw [ofLeBytes, List.length_cons, Nat.pow_succ]
      omega

theorem ofLeBytes_toLeBytes {width n : ℕ} (hn : n < 256 ^ width) :
    ofLeBytes (toLeBytes width n) = n := by
  induction width generalizing n with
  | zero =>
      simp only [Nat.pow_zero] at hn
      simp only [toLeBytes, ofLeBytes]
      omega
  | succ width ih =>
      have hrest : n / 256 < 256 ^ width := by
        rw [Nat.pow_succ] at hn
        omega
      rw [toLeBytes, ofLeBytes, ih hrest, UInt8.toNat_ofNat']
      omega

/-- A 16-bit two's complement sample read from its two bytes. -/
def i16OfLeBytes (low high : UInt8) : ℤ :=
  let unsigned := ofLeBytes [low, high]
  if unsigned < 2 ^ 15 then unsigned else (unsigned : ℤ) - 2 ^ 16

/-- The two bytes of a 16-bit two's complement sample. -/
def i16ToLeBytes (sample : ℤ) : List UInt8 := toLeBytes 2 (sample % 2 ^ 16).toNat

@[simp] theorem length_i16ToLeBytes (sample : ℤ) : (i16ToLeBytes sample).length = 2 :=
  length_toLeBytes _ _

theorem i16OfLeBytes_bounds (low high : UInt8) :
    -(2 ^ 15) ≤ i16OfLeBytes low high ∧ i16OfLeBytes low high < 2 ^ 15 := by
  have hbound := ofLeBytes_lt [low, high]
  simp only [List.length_cons, List.length_nil] at hbound
  unfold i16OfLeBytes
  dsimp only
  split <;> omega

theorem i16OfLeBytes_i16ToLeBytes {sample : ℤ} (hlow : -(2 ^ 15) ≤ sample)
    (hhigh : sample < 2 ^ 15) :
    i16OfLeBytes ((i16ToLeBytes sample).getD 0 0) ((i16ToLeBytes sample).getD 1 0) = sample := by
  have hbytes : [(i16ToLeBytes sample).getD 0 0, (i16ToLeBytes sample).getD 1 0] =
      i16ToLeBytes sample := rfl
  have hunsigned : ofLeBytes (i16ToLeBytes sample) = (sample % 2 ^ 16).toNat :=
    ofLeBytes_toLeBytes (by omega)
  unfold i16OfLeBytes
  dsimp only
  rw [hbytes, hunsigned]
  split <;> omega

/-- `i32::saturating_add`. -/
def i32SaturatingAdd (a b : ℤ) : ℤ := max (-(2 ^ 31)) (min (2 ^ 31 - 1) (a + b))

theorem i32SaturatingAdd_of_bounds {a b : ℤ} (hlow : -(2 ^ 31) ≤ a + b)
    (hhigh : a + b ≤ 2 ^ 31 - 1) : i32SaturatingAdd a b = a + b := by
  rw [i32SaturatingAdd, min_eq_right hhigh, max_eq_right hlow]

/-- Clamping an accumulator to the range of `i16`. -/
def clampI16 (value : ℤ) : ℤ := max (-(2 ^ 15)) (min (2 ^ 15 - 1) value)

theorem clampI16_bounds (value : ℤ) : -(2 ^ 15) ≤ clampI16 value ∧ clampI16 value < 2 ^ 15 := by
  unfold clampI16
  omega

end MachineInt
