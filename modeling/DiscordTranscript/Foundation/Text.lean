import Mathlib.Algebra.Order.Ring.Nat
import Mathlib.Data.List.DropRight
import Mathlib.Data.List.Infix
import Mathlib.Tactic.Common

/-! # Text as characters

The string functions of the Rust standard library that a transcript goes through,
over lists of characters. Byte positions appear only as sizes: `utf8Len` is the
length of a text in UTF-8.
-/

namespace Text

/-- The characters of `char::is_whitespace`, Unicode's `White_Space`. -/
def isWhitespace (c : Char) : Bool :=
  let n := c.toNat
  (9 ≤ n && n ≤ 13) || n == 0x20 || n == 0x85 || n == 0xA0 || n == 0x1680 ||
    (0x2000 ≤ n && n ≤ 0x200A) || n == 0x2028 || n == 0x2029 || n == 0x202F || n == 0x205F ||
    n == 0x3000

theorem isWhitespace_of_visible {c : Char} (hleast : 33 ≤ c.toNat) (hmost : c.toNat < 128) :
    isWhitespace c = false := by
  simp only [isWhitespace, Bool.or_eq_false_iff, Bool.and_eq_false_iff, decide_eq_false_iff_not,
    beq_eq_false_iff_ne]
  omega

theorem isAlphanum_iff_toNat (c : Char) : c.isAlphanum = true ↔
    ((65 ≤ c.toNat ∧ c.toNat ≤ 90) ∨ (97 ≤ c.toNat ∧ c.toNat ≤ 122)) ∨
      (48 ≤ c.toNat ∧ c.toNat ≤ 57) := by
  change (decide (c.val ≥ 65 ∧ c.val ≤ 90) ||
    (decide (c.val ≥ 97) && decide (c.val ≤ 122)) ||
      (decide (c.val ≥ 48) && decide (c.val ≤ 57))) = true ↔ _
  simp only [Bool.or_eq_true, Bool.and_eq_true, decide_eq_true_eq, ge_iff_le,
    UInt32.le_iff_toNat_le, Char.toNat_val]
  rfl

def utf8Len (text : List Char) : ℕ := (text.map Char.utf8Size).sum

/-- `str::trim`. -/
def trim (text : List Char) : List Char :=
  (text.dropWhile isWhitespace).rdropWhile isWhitespace

/-- `str::split_whitespace`. -/
def splitWhitespace (text : List Char) : List (List Char) :=
  (text.splitOnP isWhitespace).filter (!·.isEmpty)

/-- `[_]::join` with a separator. -/
def join (separator : List Char) (words : List (List Char)) : List Char :=
  separator.intercalate words

/-- `str::split_inclusive` at a character: every line with its end. -/
def splitInclusive (separator : Char) : List Char → List (List Char)
  | [] => []
  | c :: rest =>
      if c = separator then [c] :: splitInclusive separator rest
      else match splitInclusive separator rest with
        | [] => [[c]]
        | line :: lines => (c :: line) :: lines

/-- `char::len_utf16`. -/
def charLenUtf16 (c : Char) : ℕ := if c.toNat < 0x10000 then 1 else 2

def utf16Len (text : List Char) : ℕ := (text.map charLenUtf16).sum

@[simp] theorem utf16Len_nil : utf16Len [] = 0 := rfl

@[simp] theorem utf16Len_append (front back : List Char) :
    utf16Len (front ++ back) = utf16Len front + utf16Len back := by
  simp [utf16Len]

theorem splitInclusive_flatten (separator : Char) (text : List Char) :
    (splitInclusive separator text).flatten = text := by
  induction text with
  | nil => rfl
  | cons c rest ih =>
      unfold splitInclusive
      split
      next => simp [ih]
      next =>
        split
        next hlines =>
          rw [hlines] at ih
          simp [← ih]
        next line lines hlines =>
          rw [hlines] at ih
          simp [← ih]

end Text
