import DiscordTranscript.Foundation.Separated
import DiscordTranscript.Foundation.TextReplace
import DiscordTranscript.Foundation.Utf8
import DiscordTranscript.Infrastructure.ObjectStore

/-! # Keys in listings, deletions and paths

The model of the XML scanner and of the encoders of `infrastructure/s3.rs`. Keys stand escaped in
the documents of the store and are found there by plain text search; in paths they stand
percent-encoded.
-/

namespace DiscordTranscript.Infrastructure.S3

open MachineInt Text

/-! ## Escapes -/

def xmlEscape (value : List Char) : List Char :=
  replaceChar '\'' "&apos;".toList (replaceChar '"' "&quot;".toList
    (replaceChar '>' "&gt;".toList (replaceChar '<' "&lt;".toList
      (replaceChar '&' "&amp;".toList value))))

/-- `&amp;` comes last, so that a literal `&lt;` stays text. -/
def xmlUnescape (value : List Char) : List Char :=
  replace "&amp;".toList ['&'] (replace "&apos;".toList ['\''] (replace "&quot;".toList ['"']
    (replace "&gt;".toList ['>'] (replace "&lt;".toList ['<'] value))))

/-! ## The scanner -/

def openTag (name : List Char) : List Char := '<' :: name ++ ['>']
def closeTag (name : List Char) : List Char := '<' :: '/' :: name ++ ['>']

/-- The text of the first element of the name. -/
def xmlElement (body name : List Char) : Option (List Char) := do
  let (_, inside) ← splitOnce (openTag name) body
  let (value, _) ← splitOnce (closeTag name) inside
  return xmlUnescape value

theorem length_of_splitOnce {needle text before after : List Char}
    (hsplit : splitOnce needle text = some (before, after)) :
    text.length = before.length + needle.length + after.length := by
  rw [eq_append_of_splitOnce hsplit]
  simp
  omega

def xmlElements (body name : List Char) : List (List Char) :=
  match _hopen : splitOnce (openTag name) body with
  | none => []
  | some (_, inside) =>
      match _hclose : splitOnce (closeTag name) inside with
      | none => []
      | some (value, after) =>
          xmlUnescape value :: xmlElements (closeTag name ++ after) name
termination_by body.length
decreasing_by
  have hbody := length_of_splitOnce _hopen
  have hinside := length_of_splitOnce _hclose
  simp only [openTag, closeTag, List.length_append, List.length_cons, List.length_nil] at *
  omega

structure ListPage where
  keys : List (List Char)
  isTruncated : Bool
  nextContinuation : Option (List Char)

def parseListObjectsV2 (body : List Char) : ListPage where
  keys := xmlElements body "Key".toList
  isTruncated := (xmlElement body "IsTruncated".toList).any fun value =>
    value.map Char.toLower = "true".toList
  nextContinuation := (xmlElement body "NextContinuationToken".toList).or
    (xmlElement body "NextKeyToken".toList)

def parseDeleteErrors (body : List Char) : List (List Char) :=
  match _hopen : splitOnce "<Error>".toList body with
  | none => []
  | some (_, inside) =>
      let block := ((splitOnce "</Error>".toList inside).map (·.1)).getD inside
      let key := (xmlElement block "Key".toList).getD []
      let message := (xmlElement block "Message".toList).getD []
      (key ++ ": ".toList ++ message) :: parseDeleteErrors (inside.drop block.length)
termination_by body.length
decreasing_by
  have hbody := length_of_splitOnce _hopen
  have hneedle : "<Error>".toList.length = 7 := rfl
  rw [List.length_drop]
  omega

/-! ## Deleting -/

def maxDeleteKeysPerRequest : ℕ := 1000

/-- `slice::chunks`. -/
def chunks {α : Type} (size : ℕ) (items : List α) : List (List α) :=
  (List.range (divCeil items.length size)).map fun index => (items.drop (index * size)).take size

def deleteBody (chunk : List (List Char)) : List Char :=
  "<Delete><Quiet>true</Quiet>".toList ++
    (chunk.flatMap fun key => "<Object><Key>".toList ++ xmlEscape key ++ "</Key></Object>".toList) ++
    "</Delete>".toList

/-- One request after the other; the answers are numbered. -/
def deleteChunks (respond : ℕ → List Char → Except S3Error (List Char)) :
    ℕ → List (List (List Char)) → List (List Char) × Except S3Error Unit
  | _, [] => ([], .ok ())
  | count, chunk :: rest =>
      let body := deleteBody chunk
      match respond count body with
      | .error err => ([body], .error err)
      | .ok answer =>
          let errors := parseDeleteErrors answer
          if errors.isEmpty then
            let (bodies, result) := deleteChunks respond (count + 1) rest
            (body :: bodies, result)
          else ([body], .error (.status 200 (s!"DeleteObjects reported {errors.length} error(s): " ++
            String.ofList (join "; ".toList errors))))

/-- The bodies that are sent, and what comes of them. -/
def deleteKeys (respond : ℕ → List Char → Except S3Error (List Char))
    (keys : List (List Char)) : List (List Char) × Except S3Error Unit :=
  if keys.isEmpty then ([], .ok ())
  else deleteChunks respond 0 (chunks maxDeleteKeysPerRequest keys)

/-! ## Paths -/

def isUnreserved (byte : UInt8) : Bool :=
  let c := Char.ofNat byte.toNat
  c.isAlphanum || c = '-' || c = '_' || c = '.' || c = '~'

def upperHexDigit (n : ℕ) : Char :=
  if n < 10 then Char.ofNat ('0'.toNat + n) else Char.ofNat ('A'.toNat + (n - 10))

def uriEncodeByte (byte : UInt8) : List Char :=
  if isUnreserved byte then [Char.ofNat byte.toNat]
  else ['%', upperHexDigit (byte.toNat / 16), upperHexDigit (byte.toNat % 16)]

def uriEncodeSegment (segment : List Char) : List Char := (encode segment).flatMap uriEncodeByte

def hexValue (byte : UInt8) : Option UInt8 :=
  if 0x30 ≤ byte && byte ≤ 0x39 then some (byte - 0x30)
  else if 0x61 ≤ byte && byte ≤ 0x66 then some (byte - 0x61 + 10)
  else if 0x41 ≤ byte && byte ≤ 0x46 then some (byte - 0x41 + 10)
  else none

def percentDecodeBytes : List UInt8 → List UInt8
  | byte :: high :: low :: rest =>
      if byte = 0x25 then
        match hexValue high, hexValue low with
        | some hi, some lo => (hi <<< 4 ||| lo) :: percentDecodeBytes rest
        | _, _ => byte :: percentDecodeBytes (high :: low :: rest)
      else byte :: percentDecodeBytes (high :: low :: rest)
  | bytes => bytes

/-- A plus sign is left alone; it is a literal in paths. -/
def percentDecode (segment : List Char) : List Char :=
  fromUtf8Lossy (percentDecodeBytes (encode segment))

/-! ## What is escaped can be read back -/

def specialChars : List Char := ['&', '<', '>', '"', '\'']

/-- A character as it stands in an escaped text. -/
def xmlEntity (c : Char) : List Char :=
  if c = '&' then "&amp;".toList
  else if c = '<' then "&lt;".toList
  else if c = '>' then "&gt;".toList
  else if c = '"' then "&quot;".toList
  else if c = '\'' then "&apos;".toList
  else [c]

theorem xmlEntity_plain {c : Char} (hc : c ∉ specialChars) : xmlEntity c = [c] := by
  simp only [specialChars, List.mem_cons, List.not_mem_nil, or_false, not_or] at hc
  simp [xmlEntity, hc]

theorem xmlEscape_eq (value : List Char) : xmlEscape value = value.flatMap xmlEntity := by
  unfold xmlEscape replaceChar
  simp only [List.flatMap_assoc]
  apply List.flatMap_congr
  intro c _
  by_cases hc : c ∈ specialChars
  · simp only [specialChars, List.mem_cons, List.not_mem_nil, or_false] at hc
    rcases hc with rfl | rfl | rfl | rfl | rfl <;> rfl
  · rw [xmlEntity_plain hc]
    simp only [specialChars, List.mem_cons, List.not_mem_nil, or_false, not_or] at hc
    obtain ⟨hamp, hlt, hgt, hquot, hapos⟩ := hc
    simp only [hamp, hlt, hgt, hquot, hapos, if_false, List.flatMap_singleton]

/-- No special character but the ampersand of an entity stands in an escaped text. -/
structure Escaped (text : List Char) : Prop where
  special : ∀ c ∈ text, c ∈ specialChars → c = '&'
  entity : ∀ front back, text = front ++ '&' :: back → ∃ c ∈ specialChars, xmlEntity c <+: '&' :: back

theorem xmlEntity_cases (c : Char) :
    (c ∈ specialChars ∧ ∃ name, xmlEntity c = '&' :: name ∧ ∀ d ∈ name, d ∉ specialChars) ∨
      (c ∉ specialChars ∧ xmlEntity c = [c]) := by
  by_cases hc : c ∈ specialChars
  · refine .inl ⟨hc, ?_⟩
    simp only [specialChars, List.mem_cons, List.not_mem_nil, or_false] at hc
    rcases hc with rfl | rfl | rfl | rfl | rfl
    · exact ⟨['a', 'm', 'p', ';'], rfl, by simp [specialChars]⟩
    · exact ⟨['l', 't', ';'], rfl, by simp [specialChars]⟩
    · exact ⟨['g', 't', ';'], rfl, by simp [specialChars]⟩
    · exact ⟨['q', 'u', 'o', 't', ';'], rfl, by simp [specialChars]⟩
    · exact ⟨['a', 'p', 'o', 's', ';'], rfl, by simp [specialChars]⟩
  · exact .inr ⟨hc, xmlEntity_plain hc⟩

theorem escaped_xmlEscape (value : List Char) : Escaped (xmlEscape value) := by
  rw [xmlEscape_eq]
  constructor
  · intro d hd hspecial
    obtain ⟨c, -, hmem⟩ := List.mem_flatMap.mp hd
    rcases xmlEntity_cases c with ⟨-, name, hentity, hname⟩ | ⟨hc, hplain⟩
    · rw [hentity] at hmem
      rcases List.mem_cons.mp hmem with rfl | hmem
      · rfl
      · exact absurd hspecial (hname d hmem)
    · rw [hplain, List.mem_singleton] at hmem
      exact absurd (hmem ▸ hspecial) hc
  · induction value with
    | nil =>
        intro front back hsplit
        simp at hsplit
    | cons c value ih =>
        intro front back hsplit
        rw [List.flatMap_cons] at hsplit
        rcases xmlEntity_cases c with ⟨hc, name, hentity, hname⟩ | ⟨hc, hplain⟩
        · cases front with
          | nil =>
              rw [List.nil_append] at hsplit
              exact ⟨c, hc, hsplit ▸ List.prefix_append _ _⟩
          | cons d front =>
              rw [hentity] at hsplit
              obtain ⟨rfl, hrest⟩ := List.cons.inj hsplit
              have hamp : '&' ∉ name := fun hmem => hname '&' hmem (by decide)
              obtain ⟨later, -, hlater⟩ := Separated.append_cons_eq_append_of_notMem hrest.symm hamp
              exact ih later back hlater
        · rw [hplain] at hsplit
          cases front with
          | nil =>
              obtain ⟨rfl, -⟩ := List.cons.inj hsplit
              exact absurd (by decide) hc
          | cons d front => exact ih front back (List.cons.inj hsplit).2

/-- A character when the entities of some characters have been replaced already. -/
def partlyUnescaped (decoded : List Char) (c : Char) : List Char :=
  if c ∈ decoded then [c] else xmlEntity c

theorem not_prefix_of_take {needle front : List Char} {n : ℕ} (hneedle : n ≤ needle.length)
    (hfront : n ≤ front.length) (hdiffer : needle.take n ≠ front.take n) (rest : List Char) :
    ¬needle <+: front ++ rest := by
  rintro ⟨tail, htail⟩
  apply hdiffer
  have htake := congrArg (List.take n) htail
  rwa [List.take_append_of_le_length hneedle, List.take_append_of_le_length hfront] at htake

/-- Two entities differ in their first three characters. -/
theorem xmlEntity_take {c d : Char} (hc : c ∈ specialChars) (hd : d ∈ specialChars)
    (hne : c ≠ d) : 3 ≤ (xmlEntity c).length ∧
      (xmlEntity c).take 3 ≠ (xmlEntity d).take 3 := by
  simp only [specialChars, List.mem_cons, List.not_mem_nil, or_false] at hc hd
  rcases hc with rfl | rfl | rfl | rfl | rfl <;> rcases hd with rfl | rfl | rfl | rfl | rfl
  all_goals first | exact absurd rfl hne | decide

/-- One replacement puts one character for its entity and leaves the others. -/
theorem replace_entity {decoded : List Char} {d : Char} (hd : d ∈ specialChars)
    (hnew : d ∉ decoded) (hamp : '&' ∉ decoded) (value : List Char) :
    replace (xmlEntity d) [d] (value.flatMap (partlyUnescaped decoded)) =
      value.flatMap (partlyUnescaped (d :: decoded)) := by
  rcases xmlEntity_cases d with ⟨-, name, hentity, hname⟩ | ⟨hplain, -⟩
  · rw [hentity]
    apply replace_flatMap
    intro c _
    by_cases hsame : c = d
    · subst hsame
      exact .inl ⟨by rw [partlyUnescaped, if_neg hnew, hentity], by simp [partlyUnescaped]⟩
    · refine .inr ⟨by simp [partlyUnescaped, hsame], ?_⟩
      intro rest
      by_cases hdecoded : c ∈ decoded
      · rw [partlyUnescaped, if_pos hdecoded]
        apply NoStart.of_notMem
        rw [List.mem_singleton]
        rintro rfl
        exact hamp hdecoded
      · rw [partlyUnescaped, if_neg hdecoded]
        rcases xmlEntity_cases c with ⟨hc, other, hother, hplain⟩ | ⟨hc, hplain⟩
        · obtain ⟨hlength, hdiffer⟩ := xmlEntity_take hd hc (Ne.symm hsame)
          obtain ⟨hlength', -⟩ := xmlEntity_take hc hd hsame
          have hnone := not_prefix_of_take hlength hlength' hdiffer rest
          rw [hentity, hother] at hnone
          rw [hother]
          exact NoStart.of_head hnone fun hmem => hplain '&' hmem (by decide)
        · rw [hplain]
          apply NoStart.of_notMem
          rw [List.mem_singleton]
          rintro rfl
          exact hc (by decide)
  · exact absurd hd hplain

theorem xmlUnescape_xmlEscape (value : List Char) : xmlUnescape (xmlEscape value) = value := by
  have hnone : value.flatMap (partlyUnescaped []) = xmlEscape value := by
    rw [xmlEscape_eq]
    rfl
  have hall : value.flatMap (partlyUnescaped ['&', '\'', '"', '>', '<']) = value := by
    have hsingle : ∀ c ∈ value, partlyUnescaped ['&', '\'', '"', '>', '<'] c = [c] := by
      intro c _
      by_cases hc : c ∈ specialChars
      · simp only [specialChars, List.mem_cons, List.not_mem_nil, or_false] at hc
        rcases hc with rfl | rfl | rfl | rfl | rfl <;> rfl
      · unfold partlyUnescaped
        split
        next => rfl
        next => exact xmlEntity_plain hc
    rw [List.flatMap_congr hsingle, List.flatMap_singleton']
  have hlt := @replace_entity [] '<' (by decide) (by decide) (by decide) value
  have hgt := @replace_entity ['<'] '>' (by decide) (by decide) (by decide) value
  have hquot := @replace_entity ['>', '<'] '"' (by decide) (by decide) (by decide) value
  have hapos := @replace_entity ['"', '>', '<'] '\'' (by decide) (by decide) (by decide) value
  have hamp := @replace_entity ['\'', '"', '>', '<'] '&' (by decide) (by decide) (by decide) value
  rw [hnone] at hlt
  calc xmlUnescape (xmlEscape value)
      = replace (xmlEntity '&') ['&'] (replace (xmlEntity '\'') ['\'']
          (replace (xmlEntity '"') ['"'] (replace (xmlEntity '>') ['>']
            (replace (xmlEntity '<') ['<'] (xmlEscape value))))) := rfl
    _ = value := by rw [hlt, hgt, hquot, hapos, hamp, hall]

/-! ## Listings -/

/-- A part of a listing: a tag that is none of a key, a text, or a key. -/
inductive ListingPart where
  | tag (content : List Char) (plain : '<' ∉ content)
      (other : ¬"Key>".toList <+: content ++ ['>'])
  | text (value : List Char)
  | key (value : List Char)

def ListingPart.render : ListingPart → List Char
  | .tag content _ _ => '<' :: content ++ ['>']
  | .text value => xmlEscape value
  | .key value => openTag "Key".toList ++ (xmlEscape value ++ closeTag "Key".toList)

def renderListing (parts : List ListingPart) : List Char := parts.flatMap (·.render)

def listedKeys (parts : List ListingPart) : List (List Char) :=
  parts.filterMap fun
    | .key value => some value
    | _ => none

theorem lt_notMem_xmlEscape (value : List Char) : '<' ∉ xmlEscape value := by
  intro hmem
  exact absurd ((escaped_xmlEscape value).special '<' hmem (by decide)) (by decide)

theorem xmlElements_eq (body name : List Char) :
    xmlElements body name =
      ((splitOnce (openTag name) body).map fun halves =>
        ((splitOnce (closeTag name) halves.2).map fun inner =>
          xmlUnescape inner.1 :: xmlElements (closeTag name ++ inner.2) name).getD []).getD [] := by
  rw [xmlElements]
  split
  next hopen => simp [hopen]
  next before inside hopen =>
    split
    next hclose => simp [hopen, hclose]
    next value after hclose => simp [hopen, hclose]

theorem xmlElements_skip {name front rest : List Char}
    (hnone : NoStart (openTag name) front rest) :
    xmlElements (front ++ rest) name = xmlElements rest name := by
  rw [xmlElements_eq (front ++ rest), xmlElements_eq rest, splitOnce_append_of_noStart hnone,
    Option.map_map]
  rfl

theorem xmlElements_element {name value rest : List Char} (hvalue : '<' ∉ value) :
    xmlElements (openTag name ++ (value ++ (closeTag name ++ rest))) name =
      xmlUnescape value :: xmlElements (closeTag name ++ rest) name := by
  have hopen : splitOnce (openTag name) (openTag name ++ (value ++ (closeTag name ++ rest))) =
      some ([], value ++ (closeTag name ++ rest)) := splitOnce_self '<' (name ++ ['>']) _
  have hclose : splitOnce (closeTag name) (value ++ (closeTag name ++ rest)) = some (value, rest) :=
    splitOnce_of_notMem hvalue rest
  rw [xmlElements_eq, hopen, Option.map_some, Option.getD_some, hclose, Option.map_some,
    Option.getD_some]

theorem noStart_tag {content rest : List Char} (hplain : '<' ∉ content)
    (hother : ¬"Key>".toList <+: content ++ ['>']) :
    NoStart (openTag "Key".toList) ('<' :: content ++ ['>']) rest := by
  apply NoStart.of_head
  · rintro ⟨tail, htail⟩
    have hstart : "Key>".toList <+: (content ++ ['>']) ++ rest := ⟨tail, (List.cons.inj htail).2⟩
    rcases Nat.le_total "Key>".toList.length (content ++ ['>']).length with hle | hle
    · exact hother (List.prefix_of_prefix_length_le hstart (List.prefix_append _ _) hle)
    · -- The tag is shorter than `Key>`, which has its only `>` at its end.
      obtain ⟨later, hlater⟩ := List.prefix_of_prefix_length_le (List.prefix_append _ rest) hstart hle
      rcases List.eq_nil_or_concat later with rfl | ⟨inner, last, rfl⟩
      · rw [List.append_nil] at hlater
        exact hother (hlater ▸ List.prefix_rfl)
      · have hinner : content ++ ['>'] ++ inner = "Key".toList := by
          have hsplit : (content ++ ['>'] ++ inner) ++ [last] = "Key".toList ++ ['>'] := by
            have hkey : "Key".toList ++ ['>'] = "Key>".toList := rfl
            rw [hkey, ← hlater]
            simp
          exact (List.append_inj' hsplit rfl).1
        have hmem : '>' ∈ "Key".toList := by
          rw [← hinner]
          simp
        exact absurd hmem (by decide)
  · simp [hplain]

/-- The scanner finds the keys of a listing. -/
theorem xmlElements_renderListing (parts : List ListingPart) :
    xmlElements (renderListing parts) "Key".toList = listedKeys parts := by
  induction parts with
  | nil =>
      rw [xmlElements_eq]
      rfl
  | cons part parts ih =>
      unfold renderListing at ih ⊢
      rw [List.flatMap_cons]
      cases part with
      | tag content hplain hother => exact (xmlElements_skip (noStart_tag hplain hother)).trans ih
      | text value =>
          exact (xmlElements_skip (NoStart.of_notMem (lt_notMem_xmlEscape value))).trans ih
      | key value =>
          have hclose : NoStart (openTag "Key".toList) (closeTag "Key".toList)
              (parts.flatMap (·.render)) :=
            @noStart_tag "/Key".toList _ (by decide) (by decide)
          rw [ListingPart.render, List.append_assoc, List.append_assoc,
            xmlElements_element (lt_notMem_xmlEscape value), xmlElements_skip hclose, ih,
            xmlUnescape_xmlEscape]
          rfl

/-! ## Deletions -/

def deletionParts (chunk : List (List Char)) : List ListingPart :=
  [.tag "Delete".toList (by decide) (by decide), .tag "Quiet".toList (by decide) (by decide),
    .text "true".toList, .tag "/Quiet".toList (by decide) (by decide)] ++
  chunk.flatMap (fun key => [.tag "Object".toList (by decide) (by decide), .key key,
    .tag "/Object".toList (by decide) (by decide)]) ++
  [.tag "/Delete".toList (by decide) (by decide)]

theorem renderListing_append (front back : List ListingPart) :
    renderListing (front ++ back) = renderListing front ++ renderListing back :=
  List.flatMap_append

theorem renderListing_deletionParts (chunk : List (List Char)) :
    renderListing (deletionParts chunk) = deleteBody chunk := by
  have hobjects : renderListing (chunk.flatMap fun key =>
      [.tag "Object".toList (by decide) (by decide), .key key,
        .tag "/Object".toList (by decide) (by decide)]) =
      chunk.flatMap fun key =>
        "<Object><Key>".toList ++ xmlEscape key ++ "</Key></Object>".toList := by
    rw [renderListing, List.flatMap_assoc]
    apply List.flatMap_congr
    intro key _
    simp [ListingPart.render, openTag, closeTag]
  rw [deletionParts, renderListing_append, renderListing_append, hobjects]
  rfl

theorem listedKeys_append (front back : List ListingPart) :
    listedKeys (front ++ back) = listedKeys front ++ listedKeys back :=
  List.filterMap_append

theorem listedKeys_deletionParts (chunk : List (List Char)) :
    listedKeys (deletionParts chunk) = chunk := by
  have hobjects : listedKeys (chunk.flatMap fun key =>
      [.tag "Object".toList (by decide) (by decide), .key key,
        .tag "/Object".toList (by decide) (by decide)]) = chunk := by
    induction chunk with
    | nil => rfl
    | cons key chunk ih =>
        rw [List.flatMap_cons, listedKeys_append, ih]
        rfl
  rw [deletionParts, listedKeys_append, listedKeys_append, hobjects]
  exact List.append_nil chunk

theorem xmlElements_deleteBody (chunk : List (List Char)) :
    xmlElements (deleteBody chunk) "Key".toList = chunk := by
  rw [← renderListing_deletionParts, xmlElements_renderListing, listedKeys_deletionParts]

theorem flatten_chunks {α : Type} {size : ℕ} (hsize : 0 < size) (items : List α) :
    (chunks size items).flatten = items := by
  have hfront : ∀ count, ((List.range count).map fun index =>
      (items.drop (index * size)).take size).flatten = items.take (count * size) := by
    intro count
    induction count with
    | zero => simp
    | succ count ih =>
        rw [List.range_succ, List.map_append, List.flatten_append, ih, Nat.succ_mul,
          List.take_add]
        simp
  have hcovered : items.length ≤ divCeil items.length size * size := by
    have hdiv := Nat.lt_div_mul_add hsize (a := items.length + size - 1)
    unfold divCeil
    omega
  rw [chunks, hfront, List.take_of_length_le hcovered]

/-- The requests follow the chunks, and all of them are sent unless one fails. -/
theorem deleteChunks_bodies (respond : ℕ → List Char → Except S3Error (List Char)) (count : ℕ)
    (chunks : List (List (List Char))) :
    (deleteChunks respond count chunks).1 <+: chunks.map deleteBody ∧
      ((deleteChunks respond count chunks).2 = .ok () →
        (deleteChunks respond count chunks).1 = chunks.map deleteBody) := by
  induction chunks generalizing count with
  | nil => exact ⟨List.prefix_rfl, fun _ => rfl⟩
  | cons chunk chunks ih =>
      obtain ⟨hfront, hall⟩ := ih (count + 1)
      have hfirst : [deleteBody chunk] <+: (chunk :: chunks).map deleteBody :=
        ⟨chunks.map deleteBody, rfl⟩
      unfold deleteChunks
      dsimp only
      split
      next => exact ⟨hfirst, fun hok => by cases hok⟩
      next =>
        split
        next =>
          refine ⟨(List.prefix_cons_inj _).mpr hfront, ?_⟩
          intro hok
          exact congrArg (deleteBody chunk :: ·) (hall hok)
        next => exact ⟨hfirst, fun hok => by cases hok⟩

/-! ## Paths -/

theorem percentDecodeBytes_cons {byte : UInt8} (hbyte : byte ≠ 0x25) (rest : List UInt8) :
    percentDecodeBytes (byte :: rest) = byte :: percentDecodeBytes rest := by
  cases rest with
  | nil => rfl
  | cons high rest =>
      cases rest with
      | nil => rfl
      | cons low rest => rw [percentDecodeBytes, if_neg hbyte]

def upperHexByte (n : ℕ) : UInt8 := UInt8.ofNat (upperHexDigit n).toNat

/-- One encoded byte is read back. -/
theorem percentDecodeBytes_uriEncodeByte (byte : UInt8) (rest : List UInt8) :
    percentDecodeBytes (encode (uriEncodeByte byte) ++ rest) = byte :: percentDecodeBytes rest := by
  have hbytes : ∀ n < 256,
      (encode (uriEncodeByte (UInt8.ofNat n)) = [UInt8.ofNat n] ∧ UInt8.ofNat n ≠ 0x25) ∨
        (encode (uriEncodeByte (UInt8.ofNat n)) =
            [0x25, upperHexByte (n / 16), upperHexByte (n % 16)] ∧
          ((hexValue (upperHexByte (n / 16))).bind fun hi =>
            (hexValue (upperHexByte (n % 16))).map fun lo => hi <<< 4 ||| lo) =
              some (UInt8.ofNat n)) := by
    decide +kernel
  have hbyte := hbytes byte.toNat byte.toNat_lt
  rw [UInt8.ofNat_toNat] at hbyte
  rcases hbyte with ⟨hplain, hne⟩ | ⟨hencoded, hvalue⟩
  · rw [hplain]
    exact percentDecodeBytes_cons hne rest
  · obtain ⟨hi, hhigh, hvalue⟩ := Option.bind_eq_some_iff.mp hvalue
    obtain ⟨lo, hlow, hvalue⟩ := Option.map_eq_some_iff.mp hvalue
    rw [hencoded, List.cons_append, List.cons_append, List.cons_append, List.nil_append,
      percentDecodeBytes, if_pos rfl, hhigh, hlow]
    dsimp only
    rw [hvalue]

theorem percentDecode_uriEncodeSegment (segment : List Char) :
    percentDecode (uriEncodeSegment segment) = segment := by
  have hbytes : ∀ bytes : List UInt8,
      percentDecodeBytes (encode (bytes.flatMap uriEncodeByte)) = bytes := by
    intro bytes
    induction bytes with
    | nil => rfl
    | cons byte bytes ih =>
        rw [List.flatMap_cons, encode_append, percentDecodeBytes_uriEncodeByte, ih]
  rw [percentDecode, uriEncodeSegment, hbytes, fromUtf8Lossy_encode]

/-! ## Keys survive the documents and paths they are written into -/

/-- What is escaped reads back and has no markup in it. The keys of a listing are found as they
are, every deletion names the keys of its chunk, the chunks together name every key once, and an
encoded segment is decoded to itself. -/
theorem keys_survive_encoding :
    (∀ value, xmlUnescape (xmlEscape value) = value ∧ Escaped (xmlEscape value)) ∧
    (∀ parts, (parseListObjectsV2 (renderListing parts)).keys = listedKeys parts) ∧
    (∀ respond keys,
      ((deleteKeys respond keys).1.map fun body => xmlElements body "Key".toList) <+:
          chunks maxDeleteKeysPerRequest keys ∧
        ((deleteKeys respond keys).2 = .ok () →
          ((deleteKeys respond keys).1.map fun body => xmlElements body "Key".toList) =
            chunks maxDeleteKeysPerRequest keys) ∧
        (chunks maxDeleteKeysPerRequest keys).flatten = keys) ∧
    ∀ segment, percentDecode (uriEncodeSegment segment) = segment := by
  refine ⟨fun value => ⟨xmlUnescape_xmlEscape value, escaped_xmlEscape value⟩,
    xmlElements_renderListing, ?_, percentDecode_uriEncodeSegment⟩
  intro respond keys
  have hdecoded : ∀ chunks : List (List (List Char)),
      ((chunks.map deleteBody).map fun body => xmlElements body "Key".toList) = chunks := by
    intro chunks
    rw [List.map_map]
    exact List.map_id'' xmlElements_deleteBody chunks
  have hflatten := flatten_chunks (show 0 < maxDeleteKeysPerRequest by decide) keys
  unfold deleteKeys
  split
  next hempty =>
    obtain rfl := List.isEmpty_iff.mp hempty
    exact ⟨List.nil_prefix, fun _ => rfl, hflatten⟩
  next =>
    obtain ⟨hsent, hall⟩ := deleteChunks_bodies respond 0 (chunks maxDeleteKeysPerRequest keys)
    refine ⟨?_, ?_, hflatten⟩
    · have hmapped := hsent.map fun body => xmlElements body "Key".toList
      rwa [hdecoded] at hmapped
    · intro hok
      rw [hall hok, hdecoded]

end DiscordTranscript.Infrastructure.S3
