import DiscordTranscript.Foundation.Text
import DiscordTranscript.Interfaces.SignedTokens

/-! # The redirect behind a login

The model of `auth_login` and `auth_callback` in `interfaces/web.rs` as far as the redirect goes:
it is checked, signed into the state of the login, read from the state again and checked again
before it becomes a `Location`. The exchange with Discord, the cookies' other fields and the
header type of the `http` crate are outside.
-/

namespace DiscordTranscript.Interfaces

open MachineInt Text

/-! ## The check -/

/-- What `sanitize_redirect` takes for a relative path. -/
def acceptsRedirect (input : String) : Bool :=
  ['/'].isPrefixOf input.toList && !(['/', '/'].isPrefixOf input.toList) &&
    utf8Len input.toList ≤ 2048

def sanitizeRedirect (input : String) : String := if acceptsRedirect input then input else "/"

theorem acceptsRedirect_sanitizeRedirect (input : String) :
    acceptsRedirect (sanitizeRedirect input) = true := by
  unfold sanitizeRedirect
  split
  next haccepts => exact haccepts
  next => decide

theorem sanitizeRedirect_idem (input : String) :
    sanitizeRedirect (sanitizeRedirect input) = sanitizeRedirect input := by
  have haccepts := acceptsRedirect_sanitizeRedirect input
  generalize sanitizeRedirect input = checked at *
  rw [sanitizeRedirect, if_pos haccepts]

/-! ## The login -/

structure OAuthCallbackFailure where
  status : ℕ
  message : String
  clearNonce : Bool

def OAuthCallbackFailure.unverified (status : ℕ) (message : String) : OAuthCallbackFailure :=
  { status, message, clearNonce := false }

def OAuthCallbackFailure.verified (status : ℕ) (message : String) : OAuthCallbackFailure :=
  { status, message, clearNonce := true }

structure CallbackParams where
  code : Option String
  state : Option String

inductive CallbackResponse where
  | failure (failure : OAuthCallbackFailure)
  | redirect (location : String)
  | internalError

section

variable (hmac : List UInt8 → List UInt8 → List UInt8) (codec : JsonCodec)

/-- The state that `auth_login` sends along. -/
def loginState (redirect : Option String) (nonce secret : String) (now : ℕ) : String :=
  signOauthState hmac codec (sanitizeRedirect (redirect.getD "/")) nonce secret now

def verifyOauthCallbackPreexchange (params : CallbackParams) (cookieNonce : Option String)
    (secret : String) (now : ℕ) : Except OAuthCallbackFailure String :=
  match params.state with
  | none => .error (.unverified 400 "missing state")
  | some stateParam =>
      match cookieNonce with
      | none => .error (.unverified 400 "missing oauth nonce")
      | some nonce =>
          if nonce.isEmpty then .error (.unverified 400 "missing oauth nonce")
          else match verifyOauthState hmac codec stateParam nonce secret now with
            | none => .error (.unverified 400 "invalid state")
            | some redirect =>
                if params.code.isNone then .error (.verified 400 "missing code")
                else .ok redirect

/-- `auth_callback`, given what comes of the exchange and which texts are header values. -/
def authCallback (isHeaderValue : String → Bool) (exchange : Except OAuthCallbackFailure Unit)
    (params : CallbackParams) (cookieNonce : Option String) (secret : String) (now : ℕ) :
    CallbackResponse :=
  match verifyOauthCallbackPreexchange hmac codec params cookieNonce secret now with
  | .error failure => .failure failure
  | .ok redirect =>
      match exchange with
      | .error failure => .failure failure
      | .ok () =>
          let redirect := sanitizeRedirect redirect
          if isHeaderValue redirect then .redirect redirect else .internalError

end

/-! ## What a browser makes of it -/

/-- The characters that browsers drop from a URL. -/
def isDropped (c : Char) : Bool := c = '\t' || c = '\n' || c = '\r'

/-- A location as browsers read it: a backslash is as good as a slash. -/
def browserForm (location : List Char) : List Char :=
  (location.filter (!isDropped ·)).map fun c => if c = '\\' then '/' else c

/-- The location is a path on the same origin: it starts with exactly one slash. -/
def SameOrigin (location : String) : Prop :=
  ∃ rest, browserForm location.toList = '/' :: rest ∧ rest.head? ≠ some '/'

/-- Behind the first slash, and behind dropped characters, stands another one. -/
def hidesSlash (redirect : String) : Bool :=
  ((redirect.toList.drop 1).dropWhile isDropped).head?.any fun c => c = '/' || c = '\\'

theorem head?_browserForm (text : List Char) :
    (browserForm text).head? =
      (text.dropWhile isDropped).head?.map fun c => if c = '\\' then '/' else c := by
  unfold browserForm
  rw [List.head?_map]
  congr 1
  induction text with
  | nil => rfl
  | cons c rest ih =>
      cases hc : isDropped c with
      | true => simp [hc, ih]
      | false => simp [hc]

/-- An accepted redirect stays on the site unless a slash is hidden behind its first one. -/
theorem sameOrigin_iff_of_accepts {redirect : String} (haccepts : acceptsRedirect redirect = true) :
    SameOrigin redirect ↔ hidesSlash redirect = false := by
  obtain ⟨tail, htail⟩ : ∃ tail, redirect.toList = '/' :: tail := by
    simp only [acceptsRedirect, Bool.and_eq_true] at haccepts
    obtain ⟨tail, htail⟩ := List.isPrefixOf_iff_prefix.mp haccepts.1.1
    exact ⟨tail, htail.symm⟩
  have hform : browserForm redirect.toList = '/' :: browserForm tail := by
    rw [htail]
    rfl
  have hhides : hidesSlash redirect = ((browserForm tail).head? == some '/') := by
    rw [hidesSlash, htail, List.drop_succ_cons, List.drop_zero, head?_browserForm]
    cases (tail.dropWhile isDropped).head? with
    | none => rfl
    | some c =>
        by_cases hbackslash : c = '\\'
        · simp [hbackslash]
        · simp [hbackslash, beq_eq_decide]
  unfold SameOrigin
  rw [hform, hhides, beq_eq_false_iff_ne]
  constructor
  · rintro ⟨rest, hrest, hhead⟩
    rwa [(List.cons.inj hrest).2]
  · intro hhead
    exact ⟨_, rfl, hhead⟩

/-! ## The redirect of a login -/

section

variable {hmac : List UInt8 → List UInt8 → List UInt8} {codec : JsonCodec} {nonce secret : String}
  {created now : ℕ}

/-- A login that succeeds redirects to what the check made of its parameter. -/
theorem authCallback_loginState (isHeaderValue : String → Bool) (redirect : Option String)
    (code : String) (hnonce : nonce ≠ "")
    (hread : codec.fromBytes (codec.toBytes
        (oauthStateJson hmac (sanitizeRedirect (redirect.getD "/")) nonce secret created)) =
      some (oauthStateJson hmac (sanitizeRedirect (redirect.getD "/")) nonce secret created))
    (hpast : created ≤ now) (hrecent : now - created ≤ oauthStateTtlSecs) :
    authCallback hmac codec isHeaderValue (.ok ())
        ⟨some code, some (loginState hmac codec redirect nonce secret created)⟩ (some nonce) secret
        now =
      if isHeaderValue (sanitizeRedirect (redirect.getD "/")) then
        .redirect (sanitizeRedirect (redirect.getD "/"))
      else .internalError := by
  have hverified := verifyOauthState_signOauthState hread hpast hrecent
  simp [authCallback, verifyOauthCallbackPreexchange, loginState, hnonce, hverified,
    sanitizeRedirect_idem]

/-- A login redirects to its own site exactly where its parameter is refused, cannot be sent, or
hides no slash behind the first one. -/
theorem login_redirect_same_origin_iff (isHeaderValue : String → Bool) (redirect : Option String)
    (code : String) (hnonce : nonce ≠ "")
    (hread : codec.fromBytes (codec.toBytes
        (oauthStateJson hmac (sanitizeRedirect (redirect.getD "/")) nonce secret created)) =
      some (oauthStateJson hmac (sanitizeRedirect (redirect.getD "/")) nonce secret created))
    (hpast : created ≤ now) (hrecent : now - created ≤ oauthStateTtlSecs) :
    (∀ location, authCallback hmac codec isHeaderValue (.ok ())
        ⟨some code, some (loginState hmac codec redirect nonce secret created)⟩ (some nonce) secret
        now = .redirect location → SameOrigin location) ↔
      (acceptsRedirect (redirect.getD "/") = true → isHeaderValue (redirect.getD "/") = true →
        hidesSlash (redirect.getD "/") = false) := by
  rw [authCallback_loginState isHeaderValue redirect code hnonce hread hpast hrecent]
  have hroot : SameOrigin "/" := (sameOrigin_iff_of_accepts (by decide)).mpr (by decide)
  by_cases haccepts : acceptsRedirect (redirect.getD "/") = true
  · rw [sanitizeRedirect, if_pos haccepts, ← sameOrigin_iff_of_accepts haccepts]
    cases hvalue : isHeaderValue (redirect.getD "/") with
    | true => simp [haccepts]
    | false => simp
  · rw [sanitizeRedirect, if_neg haccepts]
    constructor
    · intro _ haccepted
      exact absurd haccepted haccepts
    · intro _ location hlocation
      split at hlocation
      next =>
        cases hlocation
        exact hroot
      next => cases hlocation

end

/-! ## A login that leaves the site -/

def visibleHeaderValue (text : String) : Bool :=
  text.toList.all fun c => (32 ≤ c.toNat && c.toNat < 127) || c = '\t'

def strayTags : List (String × String) :=
  [("oauth-nonce:n1", "d11d8e479f97e078b2ecb7987fd454426dd294eab4c4e477d95825dae0f3a0f1"),
  ("7b226e223a226431316438653437396639376530373862326563623739383766643435343432366464323934" ++
      "6561623463346534373764393538323564616530663361306631222c2272223a222f5c5c6576696c2e65" ++
      "78616d706c65222c2274223a313030307d",
    "cd950eb82cfd7aa60416c209e46b9f2812274b1ede05befa0a52faaef3792227")]

/-- The tags that HMAC-SHA256 gives to one state under the secret `secret`. -/
def strayHmac (_ message : List UInt8) : List UInt8 :=
  ((strayTags.find? fun entry => utf8Bytes entry.1 = message).bind fun entry =>
    fromHex entry.2).getD []

/-- Compact text of a state, with the backslashes of its redirect escaped. -/
def stateBytes : Json → List UInt8
  | .object [digest, (key, .str redirect), created] =>
      let escaped := redirect.toList.flatMap fun c => if c = '\\' then ['\\', '\\'] else [c]
      utf8Bytes (compactJson (.object [digest, (key, .str (String.ofList escaped)), created]))
  | document => utf8Bytes (compactJson document)

def strayCodec : JsonCodec where
  toBytes := stateBytes
  fromBytes bytes :=
    let state := oauthStateJson strayHmac "/\\evil.example" "n1" "secret" 1000
    if stateBytes state = bytes then some state else none

/-- The accepted parameter is sent as it is, and a browser reads another host from it. -/
theorem stray_redirect_leaves_site :
    authCallback strayHmac strayCodec visibleHeaderValue (.ok ())
        ⟨some "code", some (loginState strayHmac strayCodec (some "/\\evil.example") "n1" "secret"
          1000)⟩ (some "n1") "secret" 1500 = .redirect "/\\evil.example" ∧
      ¬SameOrigin "/\\evil.example" := by
  have haccepts : acceptsRedirect "/\\evil.example" = true := by decide
  have hsame : sanitizeRedirect "/\\evil.example" = "/\\evil.example" := if_pos haccepts
  have hread : strayCodec.fromBytes (strayCodec.toBytes (oauthStateJson strayHmac
      (sanitizeRedirect ((some "/\\evil.example").getD "/")) "n1" "secret" 1000)) =
        some (oauthStateJson strayHmac
          (sanitizeRedirect ((some "/\\evil.example").getD "/")) "n1" "secret" 1000) := by
    rw [Option.getD_some, hsame]
    simp only [strayCodec, if_true]
  constructor
  · rw [authCallback_loginState visibleHeaderValue _ "code" (by decide) hread (by decide)
      (by decide), Option.getD_some, hsame, if_pos (by decide)]
  · rw [sameOrigin_iff_of_accepts haccepts]
    decide

theorem plain_redirect_stays_on_site :
    ¬∃ location, authCallback sampleHmac sampleCodec visibleHeaderValue (.ok ())
        ⟨some "code", some (loginState sampleHmac sampleCodec (some "/m/1") "n1" "secret" 1000)⟩
        (some "n1") "secret" 1500 = .redirect location ∧ ¬SameOrigin location := by
  have hsame : sanitizeRedirect "/m/1" = "/m/1" := if_pos (by decide)
  have hdistinct : utf8Bytes (compactJson (SessionPayload.toJson ⟨"42", "7", 2000, 900, 0, 900⟩)) ≠
      utf8Bytes (compactJson (oauthStateJson sampleHmac "/m/1" "n1" "secret" 1000)) := by
    decide +kernel
  have hread : sampleCodec.fromBytes (sampleCodec.toBytes
      (oauthStateJson sampleHmac (sanitizeRedirect ((some "/m/1").getD "/")) "n1" "secret" 1000)) =
        some (oauthStateJson sampleHmac (sanitizeRedirect ((some "/m/1").getD "/")) "n1" "secret"
          1000) := by
    rw [Option.getD_some, hsame]
    simp only [sampleCodec, hdistinct, if_false, if_true]
  rintro ⟨location, hredirect, hleaves⟩
  apply hleaves
  exact (login_redirect_same_origin_iff visibleHeaderValue (some "/m/1") "code" (by decide) hread
    (by decide) (by decide)).mpr (by decide) location hredirect

end DiscordTranscript.Interfaces
