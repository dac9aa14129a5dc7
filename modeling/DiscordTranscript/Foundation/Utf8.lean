import Mathlib.Order.Bounds.Basic
import DiscordTranscript.Foundation.MachineInt
import DiscordTranscript.Foundation.TextSearch

/-! # Characters in bytes

The bytes of a text in UTF-8, and the positions at which a character of it begins. A byte
inside the text begins a character exactly when it is not a continuation byte.
-/

namespace Text

/-- The bytes of a text. -/
def encode (text : List Char) : List UInt8 := text.flatMap String.utf8EncodeChar

/-- The top bits are `10xxxxxx`. -/
def isContinuation (byte : UInt8) : Bool := byte &&& 0xC0 == 0x80

theorem isContinuation_iff (byte : UInt8) :
    isContinuation byte = true ↔ 128 ≤ byte.toNat ∧ byte.toNat < 192 := by
  have hbytes : ∀ n < 256, isContinuation (UInt8.ofNat n) = true ↔ 128 ≤ n ∧ n < 192 := by
    decide +kernel
  have hbyte := hbytes byte.toNat byte.toNat_lt
  rwa [UInt8.ofNat_toNat] at hbyte

theorem isContinuation_ofNat (n : ℕ) :
    isContinuation (UInt8.ofNat n) = true ↔ 128 ≤ n % 256 ∧ n % 256 < 192 := by
  rw [isContinuation_iff, UInt8.toNat_ofNat']

/-- A character is a byte that is no continuation, and up to three that are. -/
theorem utf8EncodeChar_shape (c : Char) :
    ∃ lead rest, String.utf8EncodeChar c = lead :: rest ∧ isContinuation lead = false ∧
      (∀ byte ∈ rest, isContinuation byte = true) ∧ rest.length ≤ 3 := by
  have hvalid := c.valid
  simp only [UInt32.isValidChar, Nat.isValidChar] at hvalid
  simp only [← Bool.not_eq_true]
  simp only [String.utf8EncodeChar]
  split
  next hascii =>
    refine ⟨_, [], rfl, ?_, by simp, by simp⟩
    rw [isContinuation_ofNat]
    omega
  next =>
    split
    next htwo =>
      refine ⟨_, _, rfl, ?_, ?_, by simp⟩
      · rw [isContinuation_ofNat]
        omega
      · simp only [List.forall_mem_singleton, isContinuation_ofNat]
        omega
    next =>
      split
      next hthree =>
        refine ⟨_, _, rfl, ?_, ?_, by simp⟩
        · rw [isContinuation_ofNat]
          omega
        · simp only [List.forall_mem_cons, List.not_mem_nil, false_implies, implies_true, and_true,
            isContinuation_ofNat]
          omega
      next hfour =>
        refine ⟨_, _, rfl, ?_, ?_, by simp⟩
        · rw [isContinuation_ofNat]
          omega
        · simp only [List.forall_mem_cons, List.not_mem_nil, false_implies, implies_true, and_true,
            isContinuation_ofNat]
          omega

@[simp] theorem encode_nil : encode [] = [] := rfl

@[simp] theorem encode_cons (c : Char) (text : List Char) :
    encode (c :: text) = String.utf8EncodeChar c ++ encode text := rfl

@[simp] theorem encode_append (front back : List Char) :
    encode (front ++ back) = encode front ++ encode back :=
  List.flatMap_append

@[simp] theorem length_encode (text : List Char) : (encode text).length = utf8Len text := by
  induction text with
  | nil => rfl
  | cons c text ih => rw [encode_cons, List.length_append, ih, String.length_utf8EncodeChar,
      utf8Len_cons]

theorem utf8Bytes_ofList (text : List Char) :
    MachineInt.utf8Bytes (String.ofList text) = encode text := by
  simp [MachineInt.utf8Bytes, List.utf8Encode, encode]

/-! ## Where characters begin -/

/-- A position at which a character begins or the text ends. -/
def Boundary (text : List Char) (position : ℕ) : Prop :=
  ∃ front back, text = front ++ back ∧ utf8Len front = position

theorem boundary_zero (text : List Char) : Boundary text 0 := ⟨[], text, rfl, rfl⟩

theorem boundary_utf8Len (text : List Char) : Boundary text (utf8Len text) :=
  ⟨text, [], by simp, rfl⟩

theorem Boundary.le {text : List Char} {position : ℕ} (hposition : Boundary text position) :
    position ≤ utf8Len text := by
  obtain ⟨front, back, rfl, rfl⟩ := hposition
  rw [utf8Len_append]
  omega

/-- Of two beginnings the one with fewer bytes is a beginning of the other. -/
theorem exists_between {front back front' back' : List Char}
    (heq : front ++ back = front' ++ back') (hle : utf8Len front ≤ utf8Len front') :
    ∃ middle, front' = front ++ middle ∧ back = middle ++ back' := by
  rcases List.append_eq_append_iff.mp heq with ⟨middle, rfl, rfl⟩ | ⟨middle, rfl, rfl⟩
  · exact ⟨middle, rfl, rfl⟩
  · cases middle with
    | nil => exact ⟨[], by simp, by simp⟩
    | cons c middle =>
        have hpos := c.utf8Size_pos
        rw [utf8Len_append, utf8Len_cons] at hle
        omega

/-- The character that a byte of the text belongs to. -/
theorem exists_char_at {text : List Char} {position : ℕ} (hposition : position < utf8Len text) :
    ∃ front c back, text = front ++ c :: back ∧ utf8Len front ≤ position ∧
      position < utf8Len front + c.utf8Size := by
  induction text generalizing position with
  | nil => exact absurd hposition (Nat.not_lt_zero _)
  | cons c text ih =>
      by_cases hfirst : position < c.utf8Size
      · exact ⟨[], c, text, rfl, Nat.zero_le _, by simpa using hfirst⟩
      · rw [utf8Len_cons] at hposition
        have hrest : position - c.utf8Size < utf8Len text := by omega
        obtain ⟨front, d, back, rfl, hlow, hhigh⟩ := ih hrest
        exact ⟨c :: front, d, back, rfl, by rw [utf8Len_cons]; omega,
          by rw [utf8Len_cons]; omega⟩

/-- Inside a character there is no boundary. -/
theorem not_boundary_inside {front back : List Char} {c : Char} {position : ℕ}
    (hlow : utf8Len front < position) (hhigh : position < utf8Len front + c.utf8Size) :
    ¬ Boundary (front ++ c :: back) position := by
  rintro ⟨front', back', heq, rfl⟩
  obtain ⟨middle, rfl, hback⟩ := exists_between heq hlow.le
  cases middle with
  | nil => simp at hlow
  | cons d middle =>
      obtain ⟨rfl, -⟩ := List.cons.inj hback
      rw [utf8Len_append, utf8Len_cons] at hhigh
      omega

/-- The bytes tell where characters begin. -/
theorem isContinuation_encode {text : List Char} {position : ℕ} {byte : UInt8}
    (hbyte : (encode text)[position]? = some byte) :
    isContinuation byte = false ↔ Boundary text position := by
  have hposition : position < utf8Len text := by
    rw [← length_encode]
    exact (List.getElem?_eq_some_iff.mp hbyte).1
  obtain ⟨front, c, back, rfl, hlow, hhigh⟩ := exists_char_at hposition
  obtain ⟨lead, rest, hshape, hlead, hrest, -⟩ := utf8EncodeChar_shape c
  obtain ⟨inside, rfl⟩ := Nat.exists_eq_add_of_le hlow
  have hsize : c.utf8Size = rest.length + 1 := by
    rw [← String.length_utf8EncodeChar, hshape, List.length_cons]
  rw [encode_append, encode_cons, List.getElem?_append_right (by simp), length_encode,
    Nat.add_sub_cancel_left, List.getElem?_append_left (by rw [hshape, List.length_cons]; omega),
    hshape] at hbyte
  cases inside with
  | zero =>
      obtain rfl : lead = byte := by simpa using hbyte
      exact ⟨fun _ => ⟨front, c :: back, rfl, rfl⟩, fun _ => hlead⟩
  | succ inside =>
      have hmem : byte ∈ rest := List.mem_of_getElem? (by simpa using hbyte)
      constructor
      · intro hnot
        rw [hrest byte hmem] at hnot
        cases hnot
      · intro hboundary
        exact absurd hboundary (not_boundary_inside (by omega) hhigh)

/-- A boundary is at most three bytes before any position of the text. -/
theorem exists_boundary_before {text : List Char} {position : ℕ}
    (hposition : position ≤ utf8Len text) :
    ∃ start, Boundary text start ∧ start ≤ position ∧ position ≤ start + 3 := by
  rcases Nat.lt_or_eq_of_le hposition with hlt | rfl
  · obtain ⟨front, c, back, rfl, hlow, hhigh⟩ := exists_char_at hlt
    have hsize := c.utf8Size_le_four
    exact ⟨utf8Len front, ⟨front, c :: back, rfl, rfl⟩, hlow, by omega⟩
  · exact ⟨_, boundary_utf8Len text, le_rfl, by omega⟩

/-- A boundary is at most three bytes behind any position of the text. -/
theorem exists_boundary_after {text : List Char} {position : ℕ}
    (hposition : position ≤ utf8Len text) :
    ∃ stop, Boundary text stop ∧ position ≤ stop ∧ stop ≤ position + 3 := by
  rcases Nat.lt_or_eq_of_le hposition with hlt | rfl
  · obtain ⟨front, c, back, rfl, hlow, hhigh⟩ := exists_char_at hlt
    have hsize := c.utf8Size_le_four
    rcases Nat.eq_or_lt_of_le hlow with rfl | hinside
    · exact ⟨_, ⟨front, c :: back, rfl, rfl⟩, le_rfl, by omega⟩
    · exact ⟨utf8Len front + c.utf8Size, ⟨front ++ [c], back, by simp, by simp [utf8Len_append]⟩,
        hhigh.le, by omega⟩
  · exact ⟨_, boundary_utf8Len text, le_rfl, by omega⟩

/-! ## Bytes that may be no text -/

/-- The byte can follow the first byte of a character of three or four bytes. -/
def isSecondByte (lead second : UInt8) : Bool :=
  if lead = 0xE0 then 0xA0 ≤ second && second ≤ 0xBF
  else if lead = 0xED then 0x80 ≤ second && second ≤ 0x9F
  else if 0xE1 ≤ lead && lead ≤ 0xEF then 0x80 ≤ second && second ≤ 0xBF
  else if lead = 0xF0 then 0x90 ≤ second && second ≤ 0xBF
  else if 0xF1 ≤ lead && lead ≤ 0xF3 then 0x80 ≤ second && second ≤ 0xBF
  else if lead = 0xF4 then 0x80 ≤ second && second ≤ 0x8F
  else false

/-- How many of the bytes that begin no character are replaced as one: as many as begin some
character, but at least one. -/
def brokenLen : List UInt8 → ℕ
  | lead :: second :: third :: _ =>
      if !isSecondByte lead second then 1
      else if 0xF0 ≤ lead && isContinuation third then 3
      else 2
  | [lead, second] => if isSecondByte lead second then 2 else 1
  | _ => 1

/-- `String::from_utf8_lossy`; the first bytes may belong to what has been read already. -/
def lossyFrom : ℕ → List UInt8 → List Char
  | _, [] => []
  | skip + 1, _ :: rest => lossyFrom skip rest
  | 0, byte :: rest =>
      match (byte :: rest).toByteArray.utf8DecodeChar? 0 with
      | some c => c :: lossyFrom (c.utf8Size - 1) rest
      | none => '\uFFFD' :: lossyFrom (brokenLen (byte :: rest) - 1) rest

def fromUtf8Lossy (bytes : List UInt8) : List Char := lossyFrom 0 bytes

theorem lossyFrom_skip (skipped rest : List UInt8) :
    lossyFrom skipped.length (skipped ++ rest) = lossyFrom 0 rest := by
  induction skipped with
  | nil => rfl
  | cons byte skipped ih => exact ih

/-- The bytes of a text are read as the text. -/
theorem fromUtf8Lossy_encode (text : List Char) : fromUtf8Lossy (encode text) = text := by
  unfold fromUtf8Lossy
  induction text with
  | nil => rfl
  | cons c text ih =>
      obtain ⟨lead, rest, hshape, -⟩ := utf8EncodeChar_shape c
      have hdecode : (lead :: (rest ++ encode text)).toByteArray.utf8DecodeChar? 0 = some c := by
        have hwhole := List.utf8DecodeChar?_utf8Encode_cons (l := text) (c := c)
        rwa [List.utf8Encode, List.flatMap_cons, hshape] at hwhole
      have hsize : c.utf8Size - 1 = rest.length := by
        rw [← String.length_utf8EncodeChar, hshape, List.length_cons, Nat.add_sub_cancel]
      rw [encode_cons, hshape, List.cons_append, lossyFrom, hdecode]
      dsimp only
      rw [hsize, lossyFrom_skip, ih]

end Text
