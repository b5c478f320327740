/-
  Whether the credential-management enumerations stay authorised over whole sessions.
  A Begin command is authorised by the active token; the Next commands are not checked, and nothing
  but a Begin resets the cursor. So a cursor that is open when the token ends (a reset, a changed
  PIN, a wrong PIN in a change, a new token) goes on serving what the old token was allowed to see:
  `reset_discloses_relying_party`. Where no enumeration is open whenever the token ends, every Next
  that answers continues a Begin of the token that is still active: `enumeration_authorised`.
  All other requests keep the token: `token_kept_of_run`.
-/
import AegisToken.Firmware.Ctap2

namespace AegisToken.Ctap2
open ByteCodec History ClientPin

variable {σ φ : Type} {D : Device σ φ} {s after : Session σ}

/-! ## What ends a token and what opens a cursor -/

/-- The request ends the active token, or erases what it was issued for: a reset that user presence
  confirms, a changed PIN, a change with a wrong PIN, and a new token. -/
def EndsToken (D : Device σ φ) (s : Session σ) : Request φ → Prop
  | .reset up => up = true
  | .clientPin request _ token =>
    (request.subCommand = subChangePin ∧
      ((s.clientPin.changePin D.crypto D.store.pin s.store request).1 = .ok () ∨
        WrongPin D.crypto D.store.pin s.clientPin s.store request)) ∨
    ((request.subCommand = subGetPinToken ∨
        request.subCommand = subGetPinUvAuthTokenWithPermissions) ∧
      ∃ response,
        (s.clientPin.getPinToken D.crypto D.store.pin s.store request token).1 = .ok response)
  | _ => False

/-- The request is a Begin of these relying parties that the active token authorises. -/
def OpensRps (D : Device σ φ) (rps : List RpEntry) (s : Session σ) (request : Request φ) : Prop :=
  ∃ r param, request = .credentialManagement r ∧ r.subCommand = credMgmtEnumerateRps ∧
    r.pinUvAuthParam = some param ∧
    (authorizeManagement D s param [credMgmtEnumerateRps] .device).1 = .ok true ∧
    listRps D s.store = rps

/-- The request is a Begin of these credentials that the active token authorises. -/
def OpensCredentials (D : Device σ φ) (ids : List (BoundedBytes 32)) (s : Session σ)
    (request : Request φ) : Prop :=
  ∃ r param hash, request = .credentialManagement r ∧ r.subCommand = credMgmtEnumerateCredentials ∧
    r.pinUvAuthParam = some param ∧ r.rpIdHash = some hash ∧
    (authorizeManagement D s param (credMgmtEnumerateCredentials :: r.subCommandParams.val)
      (.relyingPartyHash hash)).1 = .ok true ∧ listCredentials D s.store hash = ids

def RpsOpen (s : Session σ) : Prop := s.enumeration.rpIndex < s.enumeration.rps.length

def CredentialsOpen (s : Session σ) : Prop :=
  s.enumeration.credentialIndex < s.enumeration.credentials.length

def IsSubCommand (subCommand : UInt8) (request : Request φ) : Prop :=
  ∃ r, request = .credentialManagement r ∧ r.subCommand = subCommand

/-- What a request does to the token and the cursor. -/
inductive Effect (D : Device σ φ) (s : Session σ) (request : Request φ) :
    Answer × Session σ → Prop
  | kept {answer after} (hends : ¬EndsToken D s request)
      (htoken : after.clientPin.pinUvAuthToken = s.clientPin.pinUvAuthToken)
      (hcursor : after.enumeration = s.enumeration)
      (hrp : ∀ entry total, answer ≠ .rp entry total)
      (hcredential : ∀ user id key total, answer ≠ .credential user id key total) :
      Effect D s request (answer, after)
  | ended {answer after} (hends : EndsToken D s request) (hcursor : after.enumeration = s.enumeration)
      (hrp : ∀ entry total, answer ≠ .rp entry total)
      (hcredential : ∀ user id key total, answer ≠ .credential user id key total) :
      Effect D s request (answer, after)
  | rpsOpened {answer after} (rps : List RpEntry) (hopens : OpensRps D rps s request)
      (hends : ¬EndsToken D s request)
      (htoken : after.clientPin.pinUvAuthToken = s.clientPin.pinUvAuthToken)
      (hcursor : after.enumeration = { s.enumeration with rps, rpIndex := 1 }) :
      Effect D s request (answer, after)
  | credentialsOpened {answer after} (credentials : List (BoundedBytes 32))
      (hopens : OpensCredentials D credentials s request) (hends : ¬EndsToken D s request)
      (htoken : after.clientPin.pinUvAuthToken = s.clientPin.pinUvAuthToken)
      (hcursor : after.enumeration = { s.enumeration with credentials, credentialIndex := 1 }) :
      Effect D s request (answer, after)
  | rpServed {answer after} (hopen : RpsOpen s)
      (hsub : IsSubCommand credMgmtEnumerateRpsNext request) (hends : ¬EndsToken D s request)
      (htoken : after.clientPin.pinUvAuthToken = s.clientPin.pinUvAuthToken)
      (hcursor : after.enumeration =
        { s.enumeration with rpIndex := s.enumeration.rpIndex + 1 }) :
      Effect D s request (answer, after)
  | credentialServed {answer after} (hopen : CredentialsOpen s)
      (hsub : IsSubCommand credMgmtEnumerateCredentialsNext request) (hends : ¬EndsToken D s request)
      (htoken : after.clientPin.pinUvAuthToken = s.clientPin.pinUvAuthToken)
      (hcursor : after.enumeration =
        { s.enumeration with credentialIndex := s.enumeration.credentialIndex + 1 }) :
      Effect D s request (answer, after)

theorem authorizeManagement_token {param : BoundedBytes 64} {message : List UInt8}
    {scope : ManagementScope} {result : Except Ctap2Status Bool} {c : ClientPin}
    (h : authorizeManagement D s param message scope = (result, c)) :
    c.pinUvAuthToken = s.clientPin.pinUvAuthToken := by
  have hkp := (keeps_authorize (K := D.crypto) (P := D.store.pin) ⟨s.clientPin, s.store⟩
    ⟨some param.val, message, false, .credentialManagement scope⟩).token
  rw [← show (authorizeManagement D s param message scope).2 = c by rw [h]]
  exact hkp

/-- With a parameter, an operation is authorised by the token or not at all. -/
theorem authorizeManagement_ok {param : BoundedBytes 64} {message : List UInt8}
    {scope : ManagementScope} {uv : Bool}
    (h : (authorizeManagement D s param message scope).1 = .ok uv) : uv = true := by
  unfold authorizeManagement authorize at h
  dsimp only at h
  iterate 4
    split at h
    · cases h
  · cases h
    rfl

/-- `change_pin` keeps the token unless it succeeds or finds a wrong PIN. -/
theorem changePin_token {c : ClientPin} {K : PinCrypto} {P : PinState σ} {s : σ}
    {request : ClientPinRequest} (hok : (c.changePin K P s request).1 ≠ .ok ())
    (hwr : ¬WrongPin K P c s request) : (c.changePin K P s request).2.1 = c := by
  rcases changePin_outcome K P c s request with h | ⟨secret, newPinEnc, hrg⟩ | ⟨e, hr⟩
  · exact absurd h hwr
  · rw [changePin_right hrg] at hok ⊢
    revert hok
    rcases newPin K secret newPinEnc.val with e | pin
    · exact fun _ => rfl
    dsimp only [rotatePin]
    rcases P.setPinHash s (AegisToken.pinHash K pin) with ⟨_ | _, s'⟩
    · exact fun _ => rfl
    dsimp only
    rcases P.setPinRetries s' defaultRetries with ⟨_ | _, s''⟩
    · exact fun _ => rfl
    · exact fun hok => absurd rfl hok
  · rw [hr]

/-! ## One request -/

theorem ofResult_ne_rp {α : Type} {response : α → Answer}
    (h : ∀ a entry total, response a ≠ .rp entry total) (result : Except Ctap2Status α)
    (entry : RpEntry) (total : Nat) : Answer.ofResult response result ≠ .rp entry total := by
  cases result with
  | error e => nofun
  | ok a => exact h a entry total

theorem ofResult_ne_credential {α : Type} {response : α → Answer}
    (h : ∀ a user id key total, response a ≠ .credential user id key total)
    (result : Except Ctap2Status α) (user : BoundedBytes 64) (id : BoundedBytes 32)
    (key : BoundedBytes 128) (total : Nat) :
    Answer.ofResult response result ≠ .credential user id key total := by
  cases result with
  | error e => nofun
  | ok a => exact h a user id key total

/-- A request that answers a status and leaves the token and the cursor. -/
theorem Effect.refused {request : Request φ} {e : Ctap2Status} (hen : ¬EndsToken D s request)
    (htk : after.clientPin.pinUvAuthToken = s.clientPin.pinUvAuthToken)
    (hc : after.enumeration = s.enumeration) : Effect D s request (.status e, after) :=
  .kept hen htk hc nofun nofun

theorem handleClientPin_effect (request : ClientPinRequest) (rng : Nat → FixedBytes 32)
    (token : FixedBytes 32) :
    Effect D s (.clientPin request rng token) (handleClientPin D request rng token s) := by
  have hoh : ∀ {sub}, request.subCommand = sub →
      sub ∉ [subChangePin, subGetPinToken, subGetPinUvAuthTokenWithPermissions] →
      ¬EndsToken D s (.clientPin request rng token) := by
    rintro _ rfl hn (⟨h, -⟩ | ⟨h | h, -⟩) <;> exact hn (by simp [h])
  unfold handleClientPin
  split
  · rename_i hs
    exact .kept (hoh hs (by decide)) rfl rfl nofun nofun
  split
  · rename_i _ hs
    exact .kept (hoh hs (by decide))
      (keyAgreement_same D.crypto s.clientPin rng).1 rfl (ofResult_ne_rp nofun _)
      (ofResult_ne_credential nofun _)
  split
  · rename_i _ _ hs
    exact .kept (hoh hs (by decide)) rfl rfl (ofResult_ne_rp nofun _)
      (ofResult_ne_credential nofun _)
  split
  · rename_i _ _ _ hs
    by_cases hen : EndsToken D s (.clientPin request rng token)
    · exact .ended hen rfl (ofResult_ne_rp nofun _) (ofResult_ne_credential nofun _)
    refine .kept hen ?_ rfl (ofResult_ne_rp nofun _) (ofResult_ne_credential nofun _)
    have hkp := changePin_token (fun h => hen (.inl ⟨hs, .inl h⟩))
      (fun h => hen (.inl ⟨hs, .inr h⟩))
    exact congrArg ClientPin.pinUvAuthToken hkp
  split
  · rename_i _ _ _ _ hs
    rcases getPinToken_cases request token with ⟨response, -, -, -, -, hok, -⟩ | ⟨e, heo, hkp⟩
    · exact .ended (.inr ⟨hs, response, hok⟩) rfl (ofResult_ne_rp nofun _)
        (ofResult_ne_credential nofun _)
    refine .kept ?_ (congrArg ClientPin.pinUvAuthToken hkp) rfl (ofResult_ne_rp nofun _)
      (ofResult_ne_credential nofun _)
    rintro (⟨hc, -⟩ | ⟨-, response, hok⟩)
    · exact absurd hc ‹_›
    · rw [heo] at hok
      cases hok
  · rename_i _ _ _ hc htk
    exact .refused (hoh rfl (by simpa [hc] using htk)) rfl rfl

theorem close_token (c : ClientPin) (tokenUsed succeeded : Bool) :
    (c.closeUserPresenceOperation tokenUsed succeeded).pinUvAuthToken = c.pinUvAuthToken := by
  unfold closeUserPresenceOperation
  split <;> rfl

theorem handleMakeCredential_effect (request : MakeCredentialRequest) (up : Bool)
    (rng : Nat → UInt8) :
    Effect D s (.makeCredential request up rng) (handleMakeCredential D request up rng s) := by
  have htk := (keeps_authorize (K := D.crypto) (P := D.store.pin) ⟨s.clientPin, s.store⟩
    ⟨request.pinUvAuthParam.map (·.val), request.clientDataHash.val, request.uv,
      .makeCredential ⟨request.rpId.val, request.rpId.property.2⟩⟩).token
  simp only [ClientPin.step] at htk
  unfold handleMakeCredential
  split
  · rename_i e clientPin ha
    rw [ha] at htk
    exact .refused id htk rfl
  rename_i uv clientPin ha
  rw [ha] at htk
  exact .kept id ((close_token _ _ _).trans htk) rfl
    (ofResult_ne_rp (by rintro _ _ _ ⟨⟩) _) (ofResult_ne_credential (by rintro _ _ _ _ _ ⟨⟩) _)

theorem handleGetAssertion_effect (channel : UInt32) (request : GetAssertionRequest)
    (param : Option (BoundedBytes 64)) (up : Bool) (fault : φ) :
    Effect D s (.getAssertion channel request param up fault)
      (handleGetAssertion D channel request param up fault s) := by
  have htk := (keeps_authorize (K := D.crypto) (P := D.store.pin) ⟨s.clientPin, s.store⟩
    ⟨param.map (·.val), request.clientDataHash.val, request.uv,
      .getAssertion ⟨request.rpId.val, request.rpId.property.2⟩⟩).token
  exact .kept nofun ((close_token _ _ _).trans htk) rfl (ofResult_ne_rp nofun _)
    (ofResult_ne_credential nofun _)

theorem handleReset_effect (up : Bool) : Effect D s (.reset up) (handleReset D up s) := by
  unfold handleReset
  split
  · rename_i hup
    exact .refused (fun h => absurd (hup.symm.trans h) nofun) rfl rfl
  rename_i hup
  have hen : EndsToken D s (.reset up : Request φ) := Bool.of_not_eq_false hup
  split <;> exact .ended hen rfl nofun nofun

theorem enumerateRps_effect {request : CredentialManagementRequest}
    (hs : request.subCommand = credMgmtEnumerateRps) :
    Effect D s (.credentialManagement request) (enumerateRps D request s) := by
  unfold enumerateRps
  rcases hpr : request.pinUvAuthParam with _ | param
  · exact .refused nofun rfl rfl
  dsimp only
  rcases hah : authorizeManagement D s param [credMgmtEnumerateRps] .device with ⟨_ | uv, c⟩
  · exact .refused nofun (authorizeManagement_token hah) rfl
  have htk := authorizeManagement_token hah
  dsimp only
  split
  · exact .refused nofun htk rfl
  · rename_i hls
    obtain rfl := authorizeManagement_ok (congrArg Prod.fst hah)
    exact .rpsOpened _ ⟨request, param, rfl, hs, hpr, congrArg Prod.fst hah, hls⟩ nofun htk rfl

theorem enumerateCredentials_effect {request : CredentialManagementRequest}
    (hs : request.subCommand = credMgmtEnumerateCredentials) :
    Effect D s (.credentialManagement request) (enumerateCredentials D request s) := by
  unfold enumerateCredentials
  rcases hpr : request.pinUvAuthParam with _ | param
  · exact .refused nofun rfl rfl
  rcases hhs : request.rpIdHash with _ | hash
  · exact .refused nofun rfl rfl
  dsimp only
  rcases hah : authorizeManagement D s param
    (credMgmtEnumerateCredentials :: request.subCommandParams.val) (.relyingPartyHash hash) with
    ⟨_ | uv, c⟩
  · exact .refused nofun (authorizeManagement_token hah) rfl
  have htk := authorizeManagement_token hah
  dsimp only
  split
  · exact .refused nofun htk rfl
  · rename_i hls
    obtain rfl := authorizeManagement_ok (congrArg Prod.fst hah)
    exact .credentialsOpened _
      ⟨request, param, hash, rfl, hs, hpr, hhs, congrArg Prod.fst hah, hls⟩ nofun htk rfl

theorem handleCredentialManagement_effect (request : CredentialManagementRequest) :
    Effect D s (.credentialManagement request) (handleCredentialManagement D request s) := by
  unfold handleCredentialManagement
  split
  · unfold getMetadata
    split
    · exact .refused nofun rfl rfl
    rename_i param _
    rcases hah : authorizeManagement D s param [credMgmtGetMetadata] .device with ⟨_ | uv, c⟩
    · exact .refused nofun (authorizeManagement_token hah) rfl
    · exact .kept nofun (authorizeManagement_token hah) rfl nofun nofun
  split
  · exact enumerateRps_effect ‹_›
  split
  · rename_i hs
    unfold enumerateRpsNext
    split
    · exact .refused nofun rfl rfl
    · rename_i rp hrp
      exact .rpServed (List.getElem?_eq_some_iff.mp hrp).1 ⟨request, rfl, hs⟩ nofun rfl rfl
  split
  · exact enumerateCredentials_effect ‹_›
  split
  · rename_i hs
    unfold enumerateCredentialsNext
    split
    · exact .refused nofun rfl rfl
    · rename_i id hid
      exact .credentialServed (List.getElem?_eq_some_iff.mp hid).1 ⟨request, rfl, hs⟩ nofun rfl rfl
  split
  · unfold deleteCredential
    split
    · exact .refused nofun rfl rfl
    split
    · exact .refused nofun rfl rfl
    dsimp only
    split
    · rename_i e c hah
      exact .refused nofun (authorizeManagement_token hah) rfl
    rename_i uv c hah
    have htk := authorizeManagement_token hah
    split
    · exact .refused nofun htk rfl
    · split <;> exact .refused nofun htk rfl
  · exact .refused nofun rfl rfl

theorem handle_effect (request : Request φ) : Effect D s request (handleCtap2 D s request) := by
  cases request with
  | refused e => exact .refused nofun rfl rfl
  | getInfo => exact .kept nofun rfl rfl nofun nofun
  | makeCredential request up rng => exact handleMakeCredential_effect request up rng
  | getAssertion channel request param up fault =>
    exact handleGetAssertion_effect channel request param up fault
  | getNextAssertion channel fault =>
    exact .kept nofun rfl rfl (ofResult_ne_rp nofun _) (ofResult_ne_credential nofun _)
  | clientPin request rng token => exact handleClientPin_effect request rng token
  | reset up => exact handleReset_effect up
  | credentialManagement request => exact handleCredentialManagement_effect request

/-! ## Runs -/

/-- A history of requests, the latest first. -/
abbrev Log (σ φ : Type) := Entry (Session σ) (Request φ) Answer

/-- A Begin that `opens` describes was authorised by the token, and the token has not ended
  since. -/
def Authorised (D : Device σ φ) (opens : Session σ → Request φ → Prop)
    (token : Option (FixedBytes 32)) (past : List (Log σ φ)) : Prop :=
  Since (fun x _ => opens x.before x.event ∧ x.before.clientPin.pinUvAuthToken = token)
    (fun x => EndsToken D x.before x.event) past

/-- A Next command that answers an entry continues a Begin of the token that is still active, and
  the cursor is on what that Begin listed. -/
structure EnumerationAuthorised (D : Device σ φ) (e : Log σ φ) (past : List (Log σ φ)) : Prop where
  rps : ∀ entry total, IsSubCommand credMgmtEnumerateRpsNext e.event → e.answer = .rp entry total →
    Authorised D (OpensRps D e.before.enumeration.rps) e.before.clientPin.pinUvAuthToken past
  credentials : ∀ user id key total, IsSubCommand credMgmtEnumerateCredentialsNext e.event →
    e.answer = .credential user id key total →
    Authorised D (OpensCredentials D e.before.enumeration.credentials)
      e.before.clientPin.pinUvAuthToken past

/-- No enumeration is open when the token ends. -/
def EndsClosed (D : Device σ φ) (e : Log σ φ) : Prop :=
  EndsToken D e.before e.event → ¬RpsOpen e.before ∧ ¬CredentialsOpen e.before

/-- An open cursor was opened by the token that is active. -/
structure CursorSound (D : Device σ φ) (s : Session σ) (past : List (Log σ φ)) : Prop where
  rps : RpsOpen s →
    Authorised D (OpensRps D s.enumeration.rps) s.clientPin.pinUvAuthToken past
  credentials : CredentialsOpen s →
    Authorised D (OpensCredentials D s.enumeration.credentials) s.clientPin.pinUvAuthToken past

variable {past : List (Log σ φ)}

theorem Authorised.later {opens : Session σ → Request φ → Prop} {token : Option (FixedBytes 32)}
    {e : Log σ φ} (h : Authorised D opens token past)
    (hen : ¬EndsToken D e.before e.event) : Authorised D opens token (e :: past) :=
  .inr ⟨hen, h⟩

variable {request : Request φ}

theorem IsSubCommand.unique {a b : UInt8} (ha : IsSubCommand a request)
    (hb : IsSubCommand b request) : a = b := by
  obtain ⟨r, rfl, rfl⟩ := ha
  obtain ⟨r', heq, rfl⟩ := hb
  cases heq
  rfl

theorem OpensRps.isSubCommand {rps : List RpEntry} (h : OpensRps D rps s request) :
    IsSubCommand credMgmtEnumerateRps request := by
  obtain ⟨r, param, heq, hs, -⟩ := h
  exact ⟨r, heq, hs⟩

theorem OpensCredentials.isSubCommand {ids : List (BoundedBytes 32)}
    (h : OpensCredentials D ids s request) :
    IsSubCommand credMgmtEnumerateCredentials request := by
  obtain ⟨r, param, hash, heq, hs, -⟩ := h
  exact ⟨r, heq, hs⟩

/-- A step that keeps the token keeps what its Begin listed. -/
theorem CursorSound.later_rps {e : Log σ φ} (h : CursorSound D s past)
    (hen : ¬EndsToken D e.before e.event)
    (htk : after.clientPin.pinUvAuthToken = s.clientPin.pinUvAuthToken)
    (hrp : after.enumeration.rps = s.enumeration.rps) (hon : RpsOpen s) :
    Authorised D (OpensRps D after.enumeration.rps) after.clientPin.pinUvAuthToken (e :: past) := by
  rw [htk, hrp]
  exact (h.rps hon).later hen

theorem CursorSound.later_credentials {e : Log σ φ} (h : CursorSound D s past)
    (hen : ¬EndsToken D e.before e.event)
    (htk : after.clientPin.pinUvAuthToken = s.clientPin.pinUvAuthToken)
    (hcr : after.enumeration.credentials = s.enumeration.credentials) (hon : CredentialsOpen s) :
    Authorised D (OpensCredentials D after.enumeration.credentials)
      after.clientPin.pinUvAuthToken (e :: past) := by
  rw [htk, hcr]
  exact (h.credentials hon).later hen

/-- The cursor after a step: where it is open, it was open before or the step opened it. -/
theorem cursor_step (hsn : CursorSound D s past) {answer : Answer}
    (he : Effect D s request (answer, after)) (hcl : EndsClosed D ⟨s, request, answer⟩) :
    CursorSound D after (⟨s, request, answer⟩ :: past) := by
  have hrp : after.enumeration.rps = s.enumeration.rps →
      after.enumeration.rpIndex = s.enumeration.rpIndex → RpsOpen after → RpsOpen s := by
    intro hl hin h
    rwa [RpsOpen, hl, hin] at h
  have hcr : after.enumeration.credentials = s.enumeration.credentials →
      after.enumeration.credentialIndex = s.enumeration.credentialIndex →
      CredentialsOpen after → CredentialsOpen s := by
    intro hl hin h
    rwa [CredentialsOpen, hl, hin] at h
  cases he with
  | kept hen htk hc =>
    exact ⟨fun h => hsn.later_rps hen htk (by rw [hc]) (hrp (by rw [hc]) (by rw [hc]) h),
      fun h => hsn.later_credentials hen htk (by rw [hc]) (hcr (by rw [hc]) (by rw [hc]) h)⟩
  | ended hen hc =>
    exact ⟨fun h => absurd (hrp (by rw [hc]) (by rw [hc]) h) (hcl hen).1,
      fun h => absurd (hcr (by rw [hc]) (by rw [hc]) h) (hcl hen).2⟩
  | rpsOpened rps hos hen htk hc =>
    refine ⟨fun _ => ?_, fun h =>
      hsn.later_credentials hen htk (by rw [hc]) (hcr (by rw [hc]) (by rw [hc]) h)⟩
    rw [htk, hc]
    exact .inl ⟨hos, rfl⟩
  | credentialsOpened credentials hos hen htk hc =>
    refine ⟨fun h => hsn.later_rps hen htk (by rw [hc]) (hrp (by rw [hc]) (by rw [hc]) h),
      fun _ => ?_⟩
    rw [htk, hc]
    exact .inl ⟨hos, rfl⟩
  | rpServed hon hs hen htk hc =>
    exact ⟨fun _ => hsn.later_rps hen htk (by rw [hc]) hon, fun h =>
      hsn.later_credentials hen htk (by rw [hc]) (hcr (by rw [hc]) (by rw [hc]) h)⟩
  | credentialServed hon hs hen htk hc =>
    exact ⟨fun h => hsn.later_rps hen htk (by rw [hc]) (hrp (by rw [hc]) (by rw [hc]) h),
      fun _ => hsn.later_credentials hen htk (by rw [hc]) hon⟩

/-- A Next command that answers found the cursor open. -/
theorem served_open {answer : Answer} (he : Effect D s request (answer, after)) :
    (∀ entry total, IsSubCommand credMgmtEnumerateRpsNext request → answer = .rp entry total →
      RpsOpen s) ∧
    (∀ user id key total, IsSubCommand credMgmtEnumerateCredentialsNext request →
      answer = .credential user id key total → CredentialsOpen s) := by
  cases he with
  | kept _ _ _ hrp hcr | ended _ _ hrp hcr =>
    exact ⟨fun entry total _ h => absurd h (hrp entry total),
      fun user id key total _ h => absurd h (hcr user id key total)⟩
  | rpsOpened rps hon | credentialsOpened credentials hon =>
    exact ⟨fun _ _ hs => absurd (hs.unique hon.isSubCommand) nofun,
      fun _ _ _ _ hs => absurd (hs.unique hon.isSubCommand) nofun⟩
  | rpServed hoe hs' =>
    exact ⟨fun _ _ _ _ => hoe, fun _ _ _ _ hs => absurd (hs.unique hs') nofun⟩
  | credentialServed hoe hs' =>
    exact ⟨fun _ _ hs => absurd (hs.unique hs') nofun, fun _ _ _ _ _ _ => hoe⟩

/-- In every session in which no enumeration is open whenever the token ends, a Next command that
  answers an entry continues a Begin of the token that is still active. -/
theorem enumeration_authorised (D : Device σ φ) (store : σ) (requests : List (Request φ))
    (hclosed : Along (fun e _ => EndsClosed D e)
      (history (handleCtap2 D) (Session.new store) requests)) :
    Along (EnumerationAuthorised D) (history (handleCtap2 D) (Session.new store) requests) := by
  refine along_history (I := CursorSound D) ?_ ?_ requests hclosed
  · exact ⟨fun h => absurd h (Nat.lt_irrefl 0), fun h => absurd h (Nat.lt_irrefl 0)⟩
  intro s past request hsound hclosed
  have heffect := handle_effect (D := D) (s := s) request
  obtain ⟨hrps, hcredentials⟩ := served_open heffect
  refine ⟨⟨?_, ?_⟩, cursor_step hsound heffect hclosed⟩
  · exact fun entry total hsub hanswer => hsound.rps (hrps entry total hsub hanswer)
  · exact fun user id key total hsub hanswer =>
      hsound.credentials (hcredentials user id key total hsub hanswer)

/-- The token is the same after a run of requests none of which ends it. -/
theorem token_kept_of_run (D : Device σ φ) (s : Session σ) (requests : List (Request φ))
    (hkept : Runs.Every (fun x r => (handleCtap2 D x r).2) (fun x r => ¬EndsToken D x r) s
      requests) :
    (Runs.run (fun x r => (handleCtap2 D x r).2) s requests).clientPin.pinUvAuthToken =
      s.clientPin.pinUvAuthToken := by
  refine Runs.Every.keep
    (I := fun x => x.clientPin.pinUvAuthToken = s.clientPin.pinUvAuthToken) ?_ rfl hkept
  intro x request hx hen
  have heffect := handle_effect (D := D) (s := x) request
  generalize handleCtap2 D x request = after at heffect
  cases heffect with
  | ended hends => exact absurd hends hen
  | kept _ ht | rpsOpened _ _ _ ht | credentialsOpened _ _ _ ht | rpServed _ _ _ ht
  | credentialServed _ _ _ ht => exact ht.trans hx

/-! ### Two relying parties

  A device with the PIN `1234` and credentials of `example.com` and `example.org`; the keys and the
  token are those of the token for `example.com` above. -/

def exampleOrgHash : FixedBytes 32 :=
  ⟨toBE 32 0xbfabc37432958b063360d3ad6461c9c4735ae7f8edd46592a5e0f01452b2e4b5, by decide⟩

def exampleOrg : FixedString 64 :=
  ⟨[0x65, 0x78, 0x61, 0x6D, 0x70, 0x6C, 0x65, 0x2E, 0x6F, 0x72, 0x67], by decide⟩

/-- The primitives on the inputs of the runs: the hashes of both relying parties, and what the token
  makes of `enumerateRPsBegin`. -/
def enumerationCrypto : PinCrypto :=
  { examplePinCrypto with
    sha256 := fun data =>
      if data = exampleCredential.rpId.val then exampleRpHash
      else if data = exampleOrg.val then exampleOrgHash
      else FixedBytes.zero 32
    hmacSha256 := fun key message =>
      if key = exampleToken ∧ message = [credMgmtEnumerateRps] then
        ⟨toBE 32 0xe66a4bfa6a49b2045fe9a7ca29edf7991fc43ce97b9bbfcd467723a8a90f623c, length_toBE ..⟩
      else examplePinCrypto.hmacSha256 key message }

/-- The device. Its runs create no credential and encode no key. -/
def enumerationDevice : Device MemoryState Unit where
  crypto := enumerationCrypto
  store := memoryFido
  cosePublicKey _ := none
  makeCredential _ _ _ _ s := (.error .other, s)

def enumerationStore : MemoryState where
  credentials := ⟨[exampleCredential, { exampleCredential with
    id := ⟨List.replicate 32 0xBB, by decide⟩, rpId := exampleOrg }], by decide⟩
  pinHash := some examplePinHash
  pinRetries := 8

/-- A credential-management request without parameters. -/
def managementRequest (subCommand : UInt8) (param : Option (BoundedBytes 64)) : Request Unit :=
  .credentialManagement ⟨subCommand, none, none, some 1, param, BoundedBytes.empty 96⟩

/-- Key agreement, a token for credential management, and `enumerateRPsBegin`. -/
def beginRequests : List (Request Unit) :=
  [.clientPin { exampleTokenRequest with subCommand := subGetKeyAgreement }
      (fun _ => examplePrivateKey) exampleToken,
    .clientPin { exampleTokenRequest with permissions := some permissionCm }
      (fun _ => examplePrivateKey) exampleToken,
    managementRequest credMgmtEnumerateRps
      (some ⟨toBE 16 0xe66a4bfa6a49b2045fe9a7ca29edf799, by decide⟩)]

def nextRp : Request Unit := managementRequest credMgmtEnumerateRpsNext none

theorem enumeration_authorised_next :
    Along (EnumerationAuthorised enumerationDevice) (history (handleCtap2 enumerationDevice)
      (Session.new enumerationStore) (beginRequests ++ [nextRp])) := by
  refine enumeration_authorised enumerationDevice enumerationStore _ ⟨?_, ?_, ?_, ?_, trivial⟩
  · exact fun h => absurd h nofun
  · exact fun h => absurd h nofun
  · exact fun _ => ⟨Nat.lt_irrefl 0, Nat.lt_irrefl 0⟩
  · exact fun _ => ⟨Nat.lt_irrefl 0, Nat.lt_irrefl 0⟩

/-- The session that was given the token. -/
def tokenSession : Session MemoryState :=
  Runs.run (fun x r => (handleCtap2 enumerationDevice x r).2) (Session.new enumerationStore)
    (beginRequests.take 2)

theorem token_kept_unconfirmed_reset :
    (Runs.run (fun x r => (handleCtap2 enumerationDevice x r).2) tokenSession
      (beginRequests.drop 2 ++ [nextRp, .reset false])).clientPin.pinUvAuthToken =
        some exampleToken :=
  (token_kept_of_run enumerationDevice tokenSession (beginRequests.drop 2 ++ [nextRp, .reset false])
    ⟨id, id, Bool.false_ne_true, trivial⟩).trans (by decide +kernel)

/-- After a reset, `enumerateRPsGetNextRP` without any token answers `example.org`. -/
theorem reset_discloses_relying_party :
    (history (handleCtap2 enumerationDevice) (Session.new enumerationStore)
      (beginRequests ++ [.reset true, nextRp])).head?.map (·.answer) =
        some (.rp ⟨exampleOrg, exampleOrgHash⟩ 2) ∧
    ¬Along (EnumerationAuthorised enumerationDevice) (history (handleCtap2 enumerationDevice)
      (Session.new enumerationStore) (beginRequests ++ [.reset true, nextRp])) := by
  have hanswer : (history (handleCtap2 enumerationDevice) (Session.new enumerationStore)
      (beginRequests ++ [.reset true, nextRp])).head?.map (·.answer) =
        some (.rp ⟨exampleOrg, exampleOrgHash⟩ 2) := by
    decide +kernel
  refine ⟨hanswer, fun h => ?_⟩
  have hrp := h.1.rps ⟨exampleOrg, exampleOrgHash⟩ 2 ⟨_, rfl, rfl⟩ (Option.some.inj hanswer)
  rcases hrp with ⟨hopens, -⟩ | ⟨hends, -⟩
  · obtain ⟨r, _, heq, _⟩ := hopens
    cases heq
  · exact hends rfl

end AegisToken.Ctap2
