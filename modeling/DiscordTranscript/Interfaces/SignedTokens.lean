import Mathlib.Data.List.Forall2
import DiscordTranscript.Audio.ChunkNames

/-! # Signed tokens

The model of the session cookies and OAuth states of `interfaces/web.rs`. Both are
a hexadecimal JSON payload and its HMAC tag joined by a dot, under one secret that
also tags nonce digests and the system administrator's token. HMAC-SHA256 and the
JSON library are parameters. Times are seconds since the epoch.
-/

namespace DiscordTranscript.Interfaces

open MachineInt Audio

def sessionTtlSecs : ℕ := 7 * 24 * 3600
def oauthStateTtlSecs : ℕ := 600

/-! ## Hexadecimal texts -/

def lowerHexDigit (n : ℕ) : Char :=
  if n < 10 then Char.ofNat ('0'.toNat + n) else Char.ofNat ('a'.toNat + (n - 10))

def hexOfByte (byte : UInt8) : List Char :=
  [lowerHexDigit (byte.toNat / 16), lowerHexDigit (byte.toNat % 16)]

def toHex (bytes : List UInt8) : String := String.ofList (bytes.flatMap hexOfByte)

def hexDigitValue (byte : UInt8) : Option ℕ :=
  if '0'.toNat ≤ byte.toNat ∧ byte.toNat ≤ '9'.toNat then some (byte.toNat - '0'.toNat)
  else if 'a'.toNat ≤ byte.toNat ∧ byte.toNat ≤ 'f'.toNat then
    some (byte.toNat - 'a'.toNat + 10)
  else if 'A'.toNat ≤ byte.toNat ∧ byte.toNat ≤ 'F'.toNat then
    some (byte.toNat - 'A'.toNat + 10)
  else none

/-- `u8::from_str_radix(_, 16)` of two bytes; it accepts a plus sign. -/
def hexPairValue (high low : UInt8) : Option UInt8 :=
  if high.toNat = '+'.toNat then (hexDigitValue low).map UInt8.ofNat
  else do
    let highValue ← hexDigitValue high
    let lowValue ← hexDigitValue low
    return UInt8.ofNat (highValue * 16 + lowValue)

/-- A pair that is cut out of a wider character has no value either. -/
def fromHexBytes : List UInt8 → Option (List UInt8)
  | [] => some []
  | [_] => none
  | high :: low :: rest => do
      let byte ← hexPairValue high low
      let bytes ← fromHexBytes rest
      return byte :: bytes

def fromHex (text : String) : Option (List UInt8) := fromHexBytes (utf8Bytes text)

def constantTimeEq (left right : List UInt8) : Bool :=
  if left.length ≠ right.length then false
  else (left.zip right).foldl (fun diff pair => diff ||| (pair.1 ^^^ pair.2)) 0 = 0

/-! ## JSON -/

/-- A document, its fields as they stand in it. `number` is any number that is no `u64`. -/
inductive Json where
  | null
  | bool (value : Bool)
  | uint (value : ℕ)
  | number (text : String)
  | str (text : String)
  | array (items : List Json)
  | object (fields : List (String × Json))

/-- What is used of `serde_json`: a document as text, and back. -/
structure JsonCodec where
  toBytes : Json → List UInt8
  fromBytes : List UInt8 → Option Json

namespace Json

def asU64 : Json → Option ℕ
  | .uint value => some value
  | _ => none

def asStr : Json → Option String
  | .str text => some text
  | _ => none

/-- `Value::get`: of equal keys a map keeps the last. -/
def get : Json → String → Option Json
  | .object fields, key => (fields.reverse.find? fun field => field.1 = key).map (·.2)
  | _, _ => none

/-- A field of a structure; to name it twice is an error. -/
def structField (fields : List (String × Json)) (name : String) : Option (Option Json) :=
  match fields.filter fun field => field.1 = name with
  | [] => some none
  | [field] => some (some field.2)
  | _ :: _ :: _ => none

/-- A field that may be missing. -/
def defaultU64 : Option Json → Option ℕ
  | some value => value.asU64
  | none => some 0

end Json

/-! ## Sessions -/

structure SessionPayload where
  uid : String
  gid : String
  exp : ℕ
  verifiedAt : ℕ
  reverifyAttemptAt : ℕ
  issuedAt : ℕ
  deriving DecidableEq

def SessionPayload.toJson (payload : SessionPayload) : Json :=
  .object [("uid", .str payload.uid), ("gid", .str payload.gid), ("exp", .uint payload.exp),
    ("verified_at", .uint payload.verifiedAt),
    ("reverify_attempt_at", .uint payload.reverifyAttemptAt), ("issued_at", .uint payload.issuedAt)]

/-- A derived deserializer takes an object, or an array of the fields in their order. -/
def SessionPayload.ofJson : Json → Option SessionPayload
  | .object fields => do
      let uid ← (← (← Json.structField fields "uid")).asStr
      let gid ← (← (← Json.structField fields "gid")).asStr
      let exp ← (← (← Json.structField fields "exp")).asU64
      let verifiedAt ← Json.defaultU64 (← Json.structField fields "verified_at")
      let reverifyAttemptAt ← Json.defaultU64 (← Json.structField fields "reverify_attempt_at")
      let issuedAt ← Json.defaultU64 (← Json.structField fields "issued_at")
      return ⟨uid, gid, exp, verifiedAt, reverifyAttemptAt, issuedAt⟩
  | .array (uid :: gid :: exp :: rest) => do
      if 3 < rest.length then none
      return ⟨← uid.asStr, ← gid.asStr, ← exp.asU64, ← Json.defaultU64 rest[0]?,
        ← Json.defaultU64 rest[1]?, ← Json.defaultU64 rest[2]?⟩
  | _ => none

section

variable (hmac : List UInt8 → List UInt8 → List UInt8) (codec : JsonCodec)

def hmacHex (secret data : String) : String := toHex (hmac (utf8Bytes secret) (utf8Bytes data))

/-- A payload and its tag. -/
def signPayload (secret : String) (payload : Json) : String :=
  let payloadHex := toHex (codec.toBytes payload)
  payloadHex ++ "." ++ hmacHex hmac secret payloadHex

/-- The document of a token whose tag is right. -/
def openPayload (secret token : String) : Option Json := do
  let (payloadHex, sigHex) ← rsplitOnce '.' token.toList
  let expected := hmacHex hmac secret (String.ofList payloadHex)
  if !constantTimeEq (utf8Bytes (String.ofList sigHex)) (utf8Bytes expected) then none
  let bytes ← fromHex (String.ofList payloadHex)
  codec.fromBytes bytes

def signSessionWithExp (userId guildId secret : String)
    (exp issuedAt verifiedAt reverifyAttemptAt : ℕ) : String :=
  signPayload hmac codec secret
    (SessionPayload.toJson ⟨userId, guildId, exp, verifiedAt, reverifyAttemptAt, issuedAt⟩)

def verifySession (cookie secret : String) (now : ℕ) : Option SessionPayload := do
  let payload ← SessionPayload.ofJson (← openPayload hmac codec secret cookie)
  if payload.exp ≤ now then none
  let payload := if payload.issuedAt = 0 then
    { payload with issuedAt := payload.exp - sessionTtlSecs } else payload
  let payload := if payload.verifiedAt = 0 then
    { payload with verifiedAt := payload.issuedAt } else payload
  return payload

/-! ## OAuth states -/

def oauthNonceText (nonce : String) : String := "oauth-nonce:" ++ nonce

def oauthNonceDigest (secret nonce : String) : String := hmacHex hmac secret (oauthNonceText nonce)

def oauthStateJson (redirect nonce secret : String) (now : ℕ) : Json :=
  .object [("n", .str (oauthNonceDigest hmac secret nonce)), ("r", .str redirect), ("t", .uint now)]

def signOauthState (redirect nonce secret : String) (now : ℕ) : String :=
  signPayload hmac codec secret (oauthStateJson hmac redirect nonce secret now)

def verifyOauthState (state cookieNonce secret : String) (now : ℕ) : Option String := do
  let value ← openPayload hmac codec secret state
  let created ← (← value.get "t").asU64
  if now < created ∨ oauthStateTtlSecs < now - created then none
  let stateDigest ← (← value.get "n").asStr
  let expectedDigest := oauthNonceDigest hmac secret cookieNonce
  if !constantTimeEq (utf8Bytes stateDigest) (utf8Bytes expectedDigest) then none
  (← value.get "r").asStr

/-- The text that `system_admin_bearer_token` tags. -/
def systemAdminText : String := "system-admin:v1"

end

/-! ## What the helpers decide -/

theorem foldl_xor_eq_zero (pairs : List (UInt8 × UInt8)) (diff : UInt8) :
    pairs.foldl (fun diff pair => diff ||| (pair.1 ^^^ pair.2)) diff = 0 ↔
      diff = 0 ∧ ∀ pair ∈ pairs, pair.1 = pair.2 := by
  induction pairs generalizing diff with
  | nil => simp
  | cons pair rest ih =>
      rw [List.foldl_cons, ih, UInt8.or_eq_zero_iff, UInt8.xor_eq_zero_iff, List.forall_mem_cons,
        and_assoc]

theorem constantTimeEq_iff {left right : List UInt8} :
    constantTimeEq left right = true ↔ left = right := by
  unfold constantTimeEq
  split
  next hlength => simpa using fun heq => hlength (congrArg List.length heq)
  next hlength =>
    have hforall : List.Forall₂ Eq left right ↔ left = right := by
      rw [List.forall₂_eq_eq_eq]
    rw [decide_eq_true_iff, foldl_xor_eq_zero, and_iff_right rfl, ← hforall,
      List.forall₂_iff_zip, and_iff_right (not_not.mp hlength)]
    exact ⟨fun hpairs {first second} hpair => hpairs (first, second) hpair,
      fun hpairs pair hpair => hpairs hpair⟩

theorem hexPairValue_hexOfByte (byte : UInt8) :
    (hexOfByte byte).all (fun c => decide (c.toNat < 128)) = true ∧
      hexPairValue (UInt8.ofNat (lowerHexDigit (byte.toNat / 16)).toNat)
        (UInt8.ofNat (lowerHexDigit (byte.toNat % 16)).toNat) = some byte :=
  forall_byte
    (fun byte => (hexOfByte byte).all (fun c => decide (c.toNat < 128)) = true ∧
      hexPairValue (UInt8.ofNat (lowerHexDigit (byte.toNat / 16)).toNat)
        (UInt8.ofNat (lowerHexDigit (byte.toNat % 16)).toNat) = some byte) (by decide +kernel) byte

theorem fromHex_toHex (bytes : List UInt8) : fromHex (toHex bytes) = some bytes := by
  have hascii : ∀ c ∈ bytes.flatMap hexOfByte, c.toNat < 128 := by
    intro c hc
    obtain ⟨byte, -, hbyte⟩ := List.mem_flatMap.mp hc
    exact of_decide_eq_true (List.all_eq_true.mp (hexPairValue_hexOfByte byte).1 c hbyte)
  rw [fromHex, toHex, utf8Bytes_ofList_ascii hascii]
  induction bytes with
  | nil => rfl
  | cons byte rest ih =>
      have hrest := ih fun c hc => hascii c (List.mem_append_right _ hc)
      rw [List.flatMap_cons, List.map_append]
      simp only [hexOfByte, List.map_cons, List.map_nil, List.cons_append, List.nil_append,
        fromHexBytes]
      rw [(hexPairValue_hexOfByte byte).2]
      rw [hrest]
      rfl

theorem toHex_injective : Function.Injective toHex := by
  intro left right heq
  have hread := fromHex_toHex left
  rw [heq, fromHex_toHex] at hread
  exact (Option.some.inj hread).symm

theorem dot_notMem_toHex (bytes : List UInt8) : '.' ∉ (toHex bytes).toList := by
  intro hmem
  rw [toHex, String.toList_ofList] at hmem
  obtain ⟨byte, -, hbyte⟩ := List.mem_flatMap.mp hmem
  exact forall_byte (fun byte => '.' ∉ hexOfByte byte) (by decide +kernel) byte hbyte

/-- The last dot of a token stands before its tag. -/
theorem rsplitOnce_token (message : String) (tag : List UInt8) :
    rsplitOnce '.' (message ++ "." ++ toHex tag).toList =
      some (message.toList, (toHex tag).toList) := by
  have hlist : (message ++ "." ++ toHex tag).toList =
      message.toList ++ '.' :: (toHex tag).toList := by
    simp
  rw [hlist, rsplitOnce_append (dot_notMem_toHex tag)]

theorem message_eq_of_token {message other : String} {tag otherTag : List UInt8}
    (heq : message ++ "." ++ toHex tag = other ++ "." ++ toHex otherTag) : message = other := by
  have hsplit := rsplitOnce_token message tag
  rw [heq, rsplitOnce_token] at hsplit
  exact String.toList_injective (Prod.mk.inj (Option.some.inj hsplit)).1.symm

/-- A text that begins with a letter beyond `f` is no hexadecimal text. -/
theorem fromHex_eq_none {text : String} {start : UInt8}
    (hstart : (utf8Bytes text).head? = some start) (hplus : start.toNat ≠ '+'.toNat) (hdigit : hexDigitValue start = none) :
    fromHex text = none := by
  rw [fromHex]
  cases hbytes : utf8Bytes text with
  | nil =>
      rw [hbytes] at hstart
      cases hstart
  | cons first rest =>
      rw [hbytes] at hstart
      cases hstart
      cases rest with
      | nil => rfl
      | cons low rest =>
          rw [fromHexBytes, hexPairValue, if_neg hplus, hdigit]
          rfl

theorem fromHex_oauthNonceText (nonce : String) : fromHex (oauthNonceText nonce) = none := by
  have hstart : (utf8Bytes (oauthNonceText nonce)).head? = some 111 := by
    rw [oauthNonceText, utf8Bytes_append]
    rfl
  exact fromHex_eq_none hstart (by decide) (by decide)

theorem fromHex_systemAdminText : fromHex systemAdminText = none := by decide +kernel

/-! ## Documents -/

theorem SessionPayload.ofJson_toJson (payload : SessionPayload) :
    SessionPayload.ofJson payload.toJson = some payload := rfl

section

variable {hmac : List UInt8 → List UInt8 → List UInt8} {codec : JsonCodec}
  {secret redirect nonce : String} {now : ℕ}

theorem SessionPayload.ofJson_oauthStateJson :
    SessionPayload.ofJson (oauthStateJson hmac redirect nonce secret now) = none := rfl

theorem SessionPayload.get_created (payload : SessionPayload) : payload.toJson.get "t" = none := rfl

/-- A token is opened only with the tag of its payload. -/
theorem openPayload_eq_some {token : String} {document : Json}
    (hopen : openPayload hmac codec secret token = some document) :
    ∃ payloadHex bytes, token = payloadHex ++ "." ++ hmacHex hmac secret payloadHex ∧
      fromHex payloadHex = some bytes ∧ codec.fromBytes bytes = some document := by
  obtain ⟨⟨front, back⟩, hsplit, hopen⟩ := Option.bind_eq_some_iff.mp hopen
  cases htag : constantTimeEq (utf8Bytes (String.ofList back))
      (utf8Bytes (hmacHex hmac secret (String.ofList front))) with
  | false => simp [htag] at hopen
  | true =>
      simp only [htag, Bool.not_true, Bool.false_eq_true, if_false] at hopen
      obtain ⟨bytes, hbytes, hdocument⟩ := Option.bind_eq_some_iff.mp hopen
      refine ⟨String.ofList front, bytes, ?_, hbytes, hdocument⟩
      rw [← utf8Bytes_injective (constantTimeEq_iff.mp htag)]
      apply String.toList_injective
      rw [eq_of_rsplitOnce hsplit]
      simp

/-- What is signed opens, where its document is read as it was written. -/
theorem openPayload_signPayload {document : Json}
    (hread : codec.fromBytes (codec.toBytes document) = some document) :
    openPayload hmac codec secret (signPayload hmac codec secret document) = some document := by
  unfold openPayload signPayload hmacHex
  rw [rsplitOnce_token]
  simp only [Option.bind_eq_bind, Option.bind_some, String.ofList_toList,
    constantTimeEq_iff.mpr, Bool.not_true, Bool.false_eq_true, if_false, fromHex_toHex, hread]

theorem verifyOauthState_signOauthState {created : ℕ} (hread : codec.fromBytes
      (codec.toBytes (oauthStateJson hmac redirect nonce secret created)) =
        some (oauthStateJson hmac redirect nonce secret created))
    (hpast : created ≤ now) (hrecent : now - created ≤ oauthStateTtlSecs) :
    verifyOauthState hmac codec (signOauthState hmac codec redirect nonce secret created) nonce
      secret now = some redirect := by
  have hlate : ¬(now < created ∨ oauthStateTtlSecs < now - created) := by omega
  unfold verifyOauthState signOauthState
  rw [openPayload_signPayload hread]
  simp [oauthStateJson, Json.get, Json.asU64, Json.asStr, constantTimeEq_iff.mpr, hlate]

end

/-! ## Issued tokens -/

/-- Everything that the server tags with the secret. -/
inductive IssuedToken where
  | session (payload : SessionPayload)
  | oauthState (redirect nonce : String) (created : ℕ)
  | nonceDigest (nonce : String)
  | systemAdmin

section

variable (hmac : List UInt8 → List UInt8 → List UInt8) (codec : JsonCodec) (secret : String)

/-- The document that a token carries. -/
def IssuedToken.document : IssuedToken → Option Json
  | .session payload => some payload.toJson
  | .oauthState redirect nonce created => some (oauthStateJson hmac redirect nonce secret created)
  | .nonceDigest _ | .systemAdmin => none

/-- The messages that are tagged to issue a token. -/
def IssuedToken.tagged : IssuedToken → List String
  | .session payload => [toHex (codec.toBytes payload.toJson)]
  | .oauthState redirect nonce created =>
      [oauthNonceText nonce,
        toHex (codec.toBytes (oauthStateJson hmac redirect nonce secret created))]
  | .nonceDigest nonce => [oauthNonceText nonce]
  | .systemAdmin => [systemAdminText]

/-- An ideal HMAC: what is presented with its right tag was tagged, and a tag stands for one
message. -/
structure IdealHmac (tagged : List String) (presented : Set String) : Prop where
  unforgeable : ∀ message, message ++ "." ++ hmacHex hmac secret message ∈ presented →
    message ∈ tagged
  oneMessage : ∀ message ∈ tagged, ∀ other,
    hmacHex hmac secret other = hmacHex hmac secret message → other = message

/-- The documents of the tokens are read as they were written. -/
def JsonLossless (issued : List IssuedToken) : Prop :=
  ∀ token ∈ issued, ∀ document ∈ token.document hmac secret,
    codec.fromBytes (codec.toBytes document) = some document

end

section

variable {hmac : List UInt8 → List UInt8 → List UInt8} {codec : JsonCodec} {secret : String}
  {issued : List IssuedToken} {presented : Set String}

/-- What opens is a session or a state that was issued, as it was issued. -/
theorem openPayload_issued
    (hideal : IdealHmac hmac secret (issued.flatMap (·.tagged hmac codec secret)) presented)
    (hlossless : JsonLossless hmac codec secret issued) {token : String}
    (htoken : token ∈ presented) {document : Json}
    (hopen : openPayload hmac codec secret token = some document) :
    token = signPayload hmac codec secret document ∧
      ((∃ payload, .session payload ∈ issued ∧ document = payload.toJson) ∨
        ∃ redirect nonce created, .oauthState redirect nonce created ∈ issued ∧
          document = oauthStateJson hmac redirect nonce secret created) := by
  obtain ⟨payloadHex, bytes, rfl, hbytes, hdocument⟩ := openPayload_eq_some hopen
  obtain ⟨source, hsource, htagged⟩ := List.mem_flatMap.mp
    (hideal.unforgeable payloadHex htoken)
  -- A tagged document is the one that was read.
  have hread : ∀ written, written ∈ source.document hmac secret →
      payloadHex = toHex (codec.toBytes written) → document = written := by
    intro written hwritten hpayload
    rw [hpayload, fromHex_toHex] at hbytes
    rw [← Option.some.inj hbytes, hlossless source hsource written hwritten] at hdocument
    exact (Option.some.inj hdocument).symm
  have hunread : fromHex payloadHex ≠ none := by
    rw [hbytes]
    nofun
  cases source with
  | session payload =>
      have hpayload := List.mem_singleton.mp htagged
      have hsame := hread payload.toJson rfl hpayload
      exact ⟨by rw [hsame, signPayload, ← hpayload], .inl ⟨payload, hsource, hsame⟩⟩
  | oauthState redirect nonce created =>
      rcases List.mem_cons.mp htagged with hnonce | hpayload
      · exact absurd (hnonce ▸ fromHex_oauthNonceText nonce) hunread
      · have hpayload := List.mem_singleton.mp hpayload
        have hsame := hread _ rfl hpayload
        exact ⟨by rw [hsame, signPayload, ← hpayload],
          .inr ⟨redirect, nonce, created, hsource, hsame⟩⟩
  | nonceDigest nonce =>
      have hnonce := List.mem_singleton.mp htagged
      exact absurd (hnonce ▸ fromHex_oauthNonceText nonce) hunread
  | systemAdmin =>
      have hadmin := List.mem_singleton.mp htagged
      exact absurd (hadmin ▸ fromHex_systemAdminText) hunread

/-- A verified session is the payload that was read, unexpired, with its defaults filled. -/
theorem verifySession_eq_some {cookie : String} {now : ℕ} {session : SessionPayload}
    (hverify : verifySession hmac codec cookie secret now = some session) :
    ∃ document payload, openPayload hmac codec secret cookie = some document ∧
      SessionPayload.ofJson document = some payload ∧ now < payload.exp ∧
      session.uid = payload.uid ∧ session.gid = payload.gid ∧ session.exp = payload.exp := by
  obtain ⟨document, hdocument, hverify⟩ := Option.bind_eq_some_iff.mp hverify
  obtain ⟨payload, hpayload, hverify⟩ := Option.bind_eq_some_iff.mp hverify
  refine ⟨document, payload, hdocument, hpayload, ?_⟩
  by_cases hexpired : payload.exp ≤ now
  · simp [hexpired] at hverify
  · simp only [hexpired, if_false] at hverify
    refine ⟨Nat.lt_of_not_le hexpired, ?_⟩
    rw [← Option.some.inj hverify]
    split <;> split <;> exact ⟨rfl, rfl, rfl⟩

/-- A verified state names a time within the limit, the digest of the nonce and the redirect. -/
theorem verifyOauthState_eq_some {state nonce redirect : String} {now : ℕ}
    (hverify : verifyOauthState hmac codec state nonce secret now = some redirect) :
    ∃ document created, openPayload hmac codec secret state = some document ∧
      document.get "t" = some (.uint created) ∧ created ≤ now ∧
      now - created ≤ oauthStateTtlSecs ∧
      document.get "n" = some (.str (oauthNonceDigest hmac secret nonce)) ∧
      document.get "r" = some (.str redirect) := by
  have hstr : ∀ {value : Json} {text : String}, value.asStr = some text → value = .str text := by
    intro value text hvalue
    cases value with
    | str other => exact congrArg Json.str (Option.some.inj hvalue)
    | null | bool _ | uint _ | number _ | array _ | object _ => cases hvalue
  have huint : ∀ {value : Json} {number : ℕ}, value.asU64 = some number →
      value = .uint number := by
    intro value number hvalue
    cases value with
    | uint other => exact congrArg Json.uint (Option.some.inj hvalue)
    | null | bool _ | str _ | number _ | array _ | object _ => cases hvalue
  obtain ⟨document, hdocument, hverify⟩ := Option.bind_eq_some_iff.mp hverify
  obtain ⟨time, htime, hverify⟩ := Option.bind_eq_some_iff.mp hverify
  obtain ⟨created, hcreated, hverify⟩ := Option.bind_eq_some_iff.mp hverify
  by_cases hlate : now < created ∨ oauthStateTtlSecs < now - created
  · simp [hlate] at hverify
  · simp only [hlate, if_false] at hverify
    obtain ⟨digest, hdigest, hverify⟩ := Option.bind_eq_some_iff.mp hverify
    obtain ⟨stateDigest, hstateDigest, hverify⟩ := Option.bind_eq_some_iff.mp hverify
    cases hequal : constantTimeEq (utf8Bytes stateDigest)
        (utf8Bytes (oauthNonceDigest hmac secret nonce)) with
    | false => simp [hequal] at hverify
    | true =>
        simp only [hequal, Bool.not_true, Bool.false_eq_true, if_false] at hverify
        obtain ⟨target, htarget, hverify⟩ := Option.bind_eq_some_iff.mp hverify
        obtain ⟨hpast, hrecent⟩ := not_or.mp hlate
        have hsame := utf8Bytes_injective (constantTimeEq_iff.mp hequal)
        refine ⟨document, created, hdocument, ?_, Nat.le_of_not_lt hpast, Nat.le_of_not_lt hrecent,
          ?_, ?_⟩
        · rw [htime, huint hcreated]
        · rw [hdigest, hstr hstateDigest, hsame]
        · rw [htarget, hstr hverify]

/-- With an ideal HMAC and lossless JSON, whatever was issued and whatever is presented: a
cookie verifies as a session only if it is a session cookie that was issued, with the same
user, guild and expiry, and has not expired; a state verifies with a nonce only if it is a
state that was issued for its redirect with that nonce, no longer ago than the limit. -/
theorem signed_tokens_as_issued
    (hideal : IdealHmac hmac secret (issued.flatMap (·.tagged hmac codec secret)) presented)
    (hlossless : JsonLossless hmac codec secret issued) :
    (∀ cookie ∈ presented, ∀ now session,
      verifySession hmac codec cookie secret now = some session →
      ∃ payload, .session payload ∈ issued ∧
        cookie = signSessionWithExp hmac codec payload.uid payload.gid secret payload.exp
          payload.issuedAt payload.verifiedAt payload.reverifyAttemptAt ∧
        session.uid = payload.uid ∧ session.gid = payload.gid ∧ session.exp = payload.exp ∧
        now < payload.exp) ∧
      ∀ state ∈ presented, ∀ nonce now redirect,
        verifyOauthState hmac codec state nonce secret now = some redirect →
        ∃ created, .oauthState redirect nonce created ∈ issued ∧
          state = signOauthState hmac codec redirect nonce secret created ∧
          created ≤ now ∧ now - created ≤ oauthStateTtlSecs := by
  constructor
  · intro cookie hcookie now session hverify
    obtain ⟨document, payload, hopen, hpayload, hunexpired, huid, hgid, hexp⟩ :=
      verifySession_eq_some hverify
    obtain ⟨hcookie, hdocument⟩ := openPayload_issued hideal hlossless hcookie hopen
    rcases hdocument with ⟨written, hissued, rfl⟩ | ⟨redirect, nonce, created, -, rfl⟩
    · rw [SessionPayload.ofJson_toJson] at hpayload
      cases hpayload
      exact ⟨payload, hissued, hcookie, huid, hgid, hexp, hunexpired⟩
    · rw [SessionPayload.ofJson_oauthStateJson] at hpayload
      cases hpayload
  · intro state hstate nonce now redirect hverify
    obtain ⟨document, created, hopen, htime, hpast, hrecent, hdigest, htarget⟩ :=
      verifyOauthState_eq_some hverify
    obtain ⟨hstate, hdocument⟩ := openPayload_issued hideal hlossless hstate hopen
    rcases hdocument with ⟨payload, -, rfl⟩ | ⟨written, bound, issuedAt, hissued, rfl⟩
    · rw [SessionPayload.get_created] at htime
      cases htime
    · cases htime
      cases htarget
      have hnonce : oauthNonceText nonce = oauthNonceText bound := by
        refine hideal.oneMessage _ ?_ _ ?_
        · exact List.mem_flatMap.mpr ⟨_, hissued, List.mem_cons_self⟩
        · exact (Json.str.inj (Option.some.inj hdigest)).symm
      have hsame : nonce = bound := by
        have hlists := congrArg String.toList hnonce
        rw [oauthNonceText, oauthNonceText, String.toList_append, String.toList_append] at hlists
        exact String.toList_injective (List.append_cancel_left hlists)
      subst hsame
      exact ⟨created, hissued, hstate, hpast, hrecent⟩

end

/-- One session and one state, with the tags that HMAC-SHA256 gives them under the secret
`secret`. -/
def sampleTags : List (String × String) :=
  [("oauth-nonce:n1", "d11d8e479f97e078b2ecb7987fd454426dd294eab4c4e477d95825dae0f3a0f1"),
  ("7b22756964223a223432222c22676964223a2237222c22657870223a323030302c227665726966696564" ++
      "5f6174223a3930302c2272657665726966795f617474656d70745f6174223a302c226973737565645f61" ++
      "74223a3930307d",
    "afde4d2e4d92033e838a8221ae1e464bcf2135eda6b26f4f81076cb72cb9d610"),
  ("7b226e223a226431316438653437396639376530373862326563623739383766643435343432366464323934" ++
      "6561623463346534373764393538323564616530663361306631222c2272223a222f6d2f31222c227422" ++
      "3a313030307d",
    "52da7a9f1c93e06a84a7103fd1c2459be31e8af6bb2351b0463261fc216541a2")]

def sampleHmac (_ message : List UInt8) : List UInt8 :=
  ((sampleTags.find? fun entry => utf8Bytes entry.1 = message).bind fun entry =>
    fromHex entry.2).getD []

def sampleIssued : List IssuedToken :=
  [.session ⟨"42", "7", 2000, 900, 0, 900⟩, .oauthState "/m/1" "n1" 1000]

/-- Compact text, for documents whose strings need no escapes. -/
def compactScalar : Json → String
  | .str text => "\"" ++ text ++ "\""
  | .uint value => toString value
  | _ => ""

def compactJson : Json → String
  | .object fields => "\x7b" ++ String.intercalate "," (fields.map fun field =>
      "\"" ++ field.1 ++ "\":" ++ compactScalar field.2) ++ "\x7d"
  | value => compactScalar value

def sampleCodec : JsonCodec where
  toBytes document := utf8Bytes (compactJson document)
  fromBytes bytes :=
    let session := SessionPayload.toJson ⟨"42", "7", 2000, 900, 0, 900⟩
    let state := oauthStateJson sampleHmac "/m/1" "n1" "secret" 1000
    if utf8Bytes (compactJson session) = bytes then some session
    else if utf8Bytes (compactJson state) = bytes then some state
    else none

def sampleCookie : String := signSessionWithExp sampleHmac sampleCodec "42" "7" "secret" 2000 900 900 0

def sampleState : String := signOauthState sampleHmac sampleCodec "/m/1" "n1" "secret" 1000

theorem sampleHmac_oneMessage : ∀ message ∈ sampleTags.map (·.1), ∀ other,
    hmacHex sampleHmac "secret" other = hmacHex sampleHmac "secret" message →
    other = message := by
  have htags : ∀ entry ∈ sampleTags,
      sampleHmac [] (utf8Bytes entry.1) = (fromHex entry.2).getD [] ∧
        (fromHex entry.2).getD [] ≠ [] ∧
        ∀ found ∈ sampleTags, (fromHex found.2).getD [] = (fromHex entry.2).getD [] →
          found.1 = entry.1 := by
    decide +kernel
  intro message hmessage other hequal
  obtain ⟨entry, hentry, rfl⟩ := List.mem_map.mp hmessage
  obtain ⟨htag, hnonempty, hunique⟩ := htags entry hentry
  have hsame : sampleHmac [] (utf8Bytes other) = (fromHex entry.2).getD [] :=
    (toHex_injective hequal).trans htag
  unfold sampleHmac at hsame
  cases hfind : sampleTags.find? fun entry => utf8Bytes entry.1 = utf8Bytes other with
  | none =>
      rw [hfind] at hsame
      exact absurd hsame.symm hnonempty
  | some found =>
      rw [hfind] at hsame
      have hbytes := List.find?_some hfind
      rw [← utf8Bytes_injective (of_decide_eq_true hbytes)]
      exact hunique found (List.mem_of_find?_eq_some hfind) hsame

theorem sample_ideal : IdealHmac sampleHmac "secret"
    (sampleIssued.flatMap (·.tagged sampleHmac sampleCodec "secret"))
    {sampleCookie, sampleState} := by
  constructor
  · intro message hpresented
    rcases hpresented with hcookie | hstate
    · rw [message_eq_of_token hcookie]
      exact List.mem_flatMap.mpr ⟨_, List.mem_cons_self, List.mem_cons_self⟩
    · rw [message_eq_of_token hstate]
      exact List.mem_flatMap.mpr ⟨_, List.mem_cons_of_mem _ List.mem_cons_self,
        List.mem_cons_of_mem _ List.mem_cons_self⟩
  · have htagged : ∀ message ∈ sampleIssued.flatMap (·.tagged sampleHmac sampleCodec "secret"),
        message ∈ sampleTags.map (·.1) := by decide +kernel
    exact fun message hmessage => sampleHmac_oneMessage message (htagged message hmessage)

theorem sample_tokens_verify :
    ∃ session, verifySession sampleHmac sampleCodec sampleCookie "secret" 1500 = some session ∧
      (∃ payload, .session payload ∈ sampleIssued ∧ session.uid = payload.uid ∧
        1500 < payload.exp) ∧
      verifyOauthState sampleHmac sampleCodec sampleState "n1" "secret" 1500 = some "/m/1" ∧
      ∃ created, .oauthState "/m/1" "n1" created ∈ sampleIssued ∧
        1500 - created ≤ oauthStateTtlSecs := by
  have hreadSession : sampleCodec.fromBytes (sampleCodec.toBytes
      (SessionPayload.toJson ⟨"42", "7", 2000, 900, 0, 900⟩)) =
        some (SessionPayload.toJson ⟨"42", "7", 2000, 900, 0, 900⟩) := by
    simp only [sampleCodec, if_true]
  have hreadState : sampleCodec.fromBytes (sampleCodec.toBytes
      (oauthStateJson sampleHmac "/m/1" "n1" "secret" 1000)) =
        some (oauthStateJson sampleHmac "/m/1" "n1" "secret" 1000) := by
    have hdistinct : utf8Bytes (compactJson (SessionPayload.toJson ⟨"42", "7", 2000, 900, 0, 900⟩)) ≠
        utf8Bytes (compactJson (oauthStateJson sampleHmac "/m/1" "n1" "secret" 1000)) := by
      decide +kernel
    simp only [sampleCodec, hdistinct, if_false, if_true]
  have hlossless : JsonLossless sampleHmac sampleCodec "secret" sampleIssued := by
    intro token htoken document hdocument
    rcases List.mem_cons.mp htoken with rfl | htoken
    · cases hdocument
      exact hreadSession
    · cases List.mem_singleton.mp htoken
      cases hdocument
      exact hreadState
  have hverified := signed_tokens_as_issued sample_ideal hlossless
  have hsession : (verifySession sampleHmac sampleCodec sampleCookie "secret" 1500).isSome := by
    rw [sampleCookie, signSessionWithExp, verifySession, openPayload_signPayload hreadSession]
    rfl
  have hstate : verifyOauthState sampleHmac sampleCodec sampleState "n1" "secret" 1500 =
      some "/m/1" :=
    verifyOauthState_signOauthState hreadState (by decide) (by decide)
  obtain ⟨session, hsession⟩ := Option.isSome_iff_exists.mp hsession
  obtain ⟨payload, hissued, -, huid, -, -, hunexpired⟩ :=
    hverified.1 sampleCookie (.inl rfl) 1500 session hsession
  obtain ⟨created, hcreated, -, -, hrecent⟩ :=
    hverified.2 sampleState (.inr rfl) "n1" 1500 "/m/1" hstate
  exact ⟨session, hsession, ⟨payload, hissued, huid, hunexpired⟩, hstate, created, hcreated,
    hrecent⟩

end DiscordTranscript.Interfaces
