/-
  The `clientPIN` protocol (aegis-core pin.rs).
  ECDH on P-256, AES-256-CBC, HMAC and SHA-256 are parameters (`PinCrypto`): of the cipher only
  that it keeps lengths, of the rest nothing is assumed. Randomness is an argument.
  PIN state is reached through the trait `PinState`, a record of functions on a state; a write
  returns an error or not, and leaves a state in either case.
  A method returns its result and what it leaves of the handler and of the PIN state.
-/
import AegisToken.Core.Authenticator

namespace AegisToken
open ByteCodec Wire

/-! ## Cryptography -/

/-- A COSE EC2 key used for ECDH key agreement. -/
structure Ec2KeyAgreement where
  x : FixedBytes 32
  y : FixedBytes 32
deriving DecidableEq

/-- The primitives of the protocol. `publicKey` gives the affine coordinates, which a secret key's
  point has; `diffieHellman` the raw shared secret. The CBC functions work on whole blocks under
  the initialisation vector the source passes, the first half of the key. -/
structure PinCrypto extends Crypto where
  hmacSha256 : FixedBytes 32 → List UInt8 → FixedBytes 32
  encryptCbc : FixedBytes 32 → List UInt8 → List UInt8
  decryptCbc : FixedBytes 32 → List UInt8 → List UInt8
  isSecretKey : FixedBytes 32 → Bool
  publicKey : FixedBytes 32 → Option Ec2KeyAgreement
  isPublicKey : Ec2KeyAgreement → Bool
  diffieHellman : FixedBytes 32 → Ec2KeyAgreement → FixedBytes 32
  length_encryptCbc : ∀ key data, (encryptCbc key data).length = data.length
  length_decryptCbc : ∀ key data, (decryptCbc key data).length = data.length

/-- Compare the prefix of `expected` with `param`, which has 16 or 32 bytes. -/
def ctEqPrefix (expected : FixedBytes 32) (param : List UInt8) : Bool :=
  if param.length ≠ 16 ∧ param.length ≠ 32 then false
  else ctEq (expected.val.take param.length) param

/-- The PIN hash: SHA-256 of the PIN zero-padded to 64 bytes. -/
def pinHash (K : PinCrypto) (pin : List UInt8) : FixedBytes 32 :=
  K.sha256 (pin.take 64 ++ List.replicate (64 - pin.length) 0)

/-- `aes_cbc_encrypt` into a buffer of `cap` bytes. -/
def aesCbcEncrypt (K : PinCrypto) (shared : FixedBytes 32) (plaintext : List UInt8) (cap : Nat) :
    Except Ctap2Status (List UInt8) :=
  if plaintext = [] ∨ plaintext.length % 16 ≠ 0 ∨ cap < plaintext.length then
    .error .invalidLength
  else .ok (K.encryptCbc shared plaintext)

/-- `aes_cbc_decrypt` into a buffer of `cap` bytes. -/
def aesCbcDecrypt (K : PinCrypto) (shared : FixedBytes 32) (ciphertext : List UInt8) (cap : Nat) :
    Except Ctap2Status (List UInt8) :=
  if ciphertext = [] ∨ ciphertext.length % 16 ≠ 0 ∨ cap < ciphertext.length then
    .error .invalidLength
  else .ok (K.decryptCbc shared ciphertext)

/-- The first of sixteen random values that is a secret key. -/
def generateSecretKey (K : PinCrypto) (rng : Nat → FixedBytes 32) :
    Except Ctap2Status (FixedBytes 32) :=
  match ((List.range 16).map rng).find? K.isSecretKey with
  | some key => .ok key
  | none => .error .other

def sharedSecret (K : PinCrypto) (secret : FixedBytes 32) (platform : Ec2KeyAgreement) :
    Except Ctap2Status (FixedBytes 32) :=
  if K.isSecretKey secret = false then .error .other
  else if K.isPublicKey platform = false then .error .invalidParameter
  else .ok (K.diffieHellman secret platform)

/-- A text slice (`&str`). -/
abbrev Str := { bs : List UInt8 // isUtf8 bs = true }

def rpIdHash (K : PinCrypto) (rpId : List UInt8) : FixedBytes 32 := K.sha256 rpId

/-! ## Requests -/

def subGetPinToken : UInt8 := 0x05
def subGetPinUvAuthTokenWithPermissions : UInt8 := 0x09

def permissionMc : UInt8 := 0x01
def permissionGa : UInt8 := 0x02
def permissionCm : UInt8 := 0x04

def supportedPermissions : UInt8 := permissionMc ||| permissionGa ||| permissionCm

/-- Permissions granted by the superseded `getPinToken` subcommand. -/
def defaultPermissions : UInt8 := permissionMc ||| permissionGa

def defaultRetries : UInt8 := 8

/-- The trait `PinState`. -/
structure PinState (σ : Type) where
  pinHash : σ → Option (FixedBytes 32)
  pinRetries : σ → UInt8
  setPinHash : σ → FixedBytes 32 → Except CoreError Unit × σ
  setPinRetries : σ → UInt8 → Except CoreError Unit × σ

/-- Writes of the PIN state succeed. -/
structure PinState.WritesSucceed {σ : Type} (P : PinState σ) : Prop where
  hash : ∀ s h, ∃ s', P.setPinHash s h = (.ok (), s')
  retries : ∀ s n, ∃ s', P.setPinRetries s n = (.ok (), s')

/-- A parsed `authenticatorClientPIN` request. -/
structure ClientPinRequest where
  subCommand : UInt8
  keyAgreement : Option Ec2KeyAgreement
  pinUvAuthParam : Option (BoundedBytes 64)
  newPinEnc : Option (BoundedBytes 96)
  pinHashEnc : Option (BoundedBytes 32)
  permissions : Option UInt8
  rpId : Option (FixedString 253)
deriving DecidableEq

/-- The relying-party scope of a credential-management subcommand. -/
inductive ManagementScope where
  | device
  | relyingPartyHash (hash : FixedBytes 32)
  | credentialRelyingParty (rpId : Option Str)
deriving DecidableEq

/-- The operation a PIN/UV auth token must authorise. -/
inductive TokenOperation where
  | makeCredential (rpId : Str)
  | getAssertion (rpId : Str)
  | credentialManagement (scope : ManagementScope)
deriving DecidableEq

def TokenOperation.permission : TokenOperation → UInt8
  | .makeCredential _ => permissionMc
  | .getAssertion _ => permissionGa
  | .credentialManagement _ => permissionCm

/-- A request to authorise an operation with the active PIN/UV auth token. -/
structure TokenRequest where
  param : Option (List UInt8)
  message : List UInt8
  uvRequested : Bool
  operation : TokenOperation
deriving DecidableEq

/-! ## The handler -/

/-- Stateful `clientPIN` handler. -/
structure ClientPin where
  agreementPrivate : Option (FixedBytes 32)
  pinUvAuthToken : Option (FixedBytes 32)
  pinUvAuthPermissions : UInt8
  pinUvAuthRpId : Option (FixedString 253)
deriving DecidableEq

namespace ClientPin

/-- A handler with no key agreement established. -/
def new : ClientPin := ⟨none, none, 0, none⟩

section Methods
variable {σ : Type} (K : PinCrypto) (P : PinState σ) (c : ClientPin)

def verifyPinUvAuthParam (param message : List UInt8) : Bool :=
  match c.pinUvAuthToken with
  | none => false
  | some token =>
    if param.length ≠ 16 ∧ param.length ≠ 32 then false
    else ctEq ((K.hmacSha256 token message).val.take param.length) param

/-- Bind the token to a relying party, or check the existing binding. -/
def bindRpId (rpId : Str) : Except Ctap2Status ClientPin :=
  match c.pinUvAuthRpId with
  | some bound => if bound.val ≠ rpId.val then .error .pinAuthInvalid else .ok c
  | none =>
    if h : rpId.val.length ≤ 253 then
      .ok { c with pinUvAuthRpId := some ⟨rpId.val, h, rpId.property⟩ }
    else .error .invalidParameter

def rpInScope (rpId : List UInt8) : Option (List UInt8) → Bool
  | none => true
  | some bound => bound = rpId

def checkManagementScope : ManagementScope → Except Ctap2Status Unit
  | .device => if c.pinUvAuthRpId.isSome then .error .pinAuthInvalid else .ok ()
  | .relyingPartyHash hash =>
    match c.pinUvAuthRpId with
    | some bound => if rpIdHash K bound.val ≠ hash then .error .pinAuthInvalid else .ok ()
    | none => .ok ()
  | .credentialRelyingParty none =>
    if c.pinUvAuthRpId.isSome then .error .pinAuthInvalid else .ok ()
  | .credentialRelyingParty (some rpId) =>
    if rpInScope rpId.val (c.pinUvAuthRpId.map Subtype.val) then .ok ()
    else .error .pinAuthInvalid

/-- The handler an authorised operation leaves: only the binding can change. -/
def checkOperation : TokenOperation → Except Ctap2Status ClientPin
  | .makeCredential rpId => c.bindRpId rpId
  | .getAssertion rpId => c.bindRpId rpId
  | .credentialManagement scope => (checkManagementScope K c scope).map fun _ => c

def authorize (s : σ) (request : TokenRequest) : Except Ctap2Status Bool × ClientPin :=
  match request.param with
  | none =>
    -- credential management always needs a token
    if request.operation.permission = permissionCm then (.error .pinRequired, c)
    else if request.uvRequested ∨ (P.pinHash s).isSome then (.error .pinRequired, c)
    else (.ok false, c)
  | some param =>
    if c.pinUvAuthToken = none then (.error .pinAuthInvalid, c)
    else if c.pinUvAuthPermissions &&& request.operation.permission = 0 then
      (.error .pinAuthInvalid, c)
    else if verifyPinUvAuthParam K c param request.message = false then (.error .pinAuthInvalid, c)
    else
      match checkOperation K c request.operation with
      | .error e => (.error e, c)
      | .ok c => (.ok true, c)

def closeUserPresenceOperation (tokenUsed succeeded : Bool) : ClientPin :=
  if tokenUsed && succeeded then { c with pinUvAuthPermissions := 0, pinUvAuthRpId := none } else c

def invalidateToken : ClientPin :=
  { c with pinUvAuthToken := none, pinUvAuthPermissions := 0, pinUvAuthRpId := none }

/-- `getKeyAgreement`: generate and retain an ephemeral key pair. -/
def keyAgreement (rng : Nat → FixedBytes 32) : Except Ctap2Status Ec2KeyAgreement × ClientPin :=
  match generateSecretKey K rng with
  | .error e => (.error e, c)
  | .ok secret =>
    match K.publicKey secret with
    | none => (.error .other, c)
    | some key => (.ok key, { c with agreementPrivate := some secret })

/-- A parameter that must be there. -/
def required {α : Type} (o : Option α) (e : Ctap2Status) : Except Ctap2Status α :=
  match o with
  | some a => .ok a
  | none => .error e

theorem required_eq_ok {α : Type} {o : Option α} {e : Ctap2Status} {a : α} :
    required o e = .ok a ↔ o = some a := by
  cases o <;> simp [required]

def shared (request : ClientPinRequest) : Except Ctap2Status (FixedBytes 32) := do
  let platform ← required request.keyAgreement .missingParameter
  let secret ← required c.agreementPrivate .invalidParameter
  sharedSecret K secret platform

def charCount (text : List UInt8) : Nat := text.countP fun b => b &&& 0xC0 ≠ 0x80

/-- The new PIN in an encrypted block: UTF-8 of at least four code points, terminated and
  zero-padded to 64 bytes. `set_pin` and `change_pin` have the same code for it. -/
def newPin (secret : FixedBytes 32) (newPinEnc : List UInt8) : Except Ctap2Status (List UInt8) := do
  let plain ← aesCbcDecrypt K secret newPinEnc 96
  if plain.length ≠ 64 then .error .invalidParameter
  else
    let pinLen ← required (plain.findIdx? (· = 0)) .pinPolicyViolation
    if (plain.drop pinLen).any (· ≠ 0) then .error .pinPolicyViolation
    else if isUtf8 (plain.take pinLen) = false then .error .pinPolicyViolation
    else if charCount (plain.take pinLen) < 4 then .error .pinPolicyViolation
    else .ok (plain.take pinLen)

/-- Whether an encrypted PIN hash is the one of the stored PIN. -/
def provesPin (secret : FixedBytes 32) (pinHashEnc : List UInt8) (storedHash : FixedBytes 32) :
    Except Ctap2Status Bool := do
  let plain ← aesCbcDecrypt K secret pinHashEnc 32
  .ok (decide (16 ≤ plain.length) && ctEq (plain.take 16) (storedHash.val.take 16))

/-- A wrong PIN spends one retry; the status to answer says whether one is left. An error means
  that the retry could not be written. -/
def spendRetry (s : σ) : Except Ctap2Status Ctap2Status × σ :=
  let retries := if P.pinRetries s = 0 then 0 else P.pinRetries s - 1
  match P.setPinRetries s retries with
  | (.error _, s) => (.error .other, s)
  | (.ok _, s) => (.ok (if retries = 0 then .pinBlocked else .pinInvalid), s)

/-- The checks of `set_pin` that read nothing but the request and the handler. -/
def setPinRequest (request : ClientPinRequest) : Except Ctap2Status (List UInt8) := do
  let secret ← shared K c request
  let newPinEnc ← required request.newPinEnc .missingParameter
  let auth ← required request.pinUvAuthParam .missingParameter
  if ctEqPrefix (K.hmacSha256 secret newPinEnc.val) auth.val = false then .error .pinAuthInvalid
  else newPin K secret newPinEnc.val

def setPin (s : σ) (request : ClientPinRequest) : Except Ctap2Status Unit × σ :=
  if (P.pinHash s).isSome then (.error .pinAuthInvalid, s)
  else
    match setPinRequest K c request with
    | .error e => (.error e, s)
    | .ok pin =>
      match P.setPinHash s (AegisToken.pinHash K pin) with
      | (.error _, s) => (.error .other, s)
      | (.ok _, s) => (.ok (), s)

def requestedPermissions (request : ClientPinRequest) : Except Ctap2Status UInt8 :=
  if request.subCommand = subGetPinToken then
    if request.permissions.isSome ∨ request.rpId.isSome then .error .invalidParameter
    else .ok defaultPermissions
  else if request.subCommand = subGetPinUvAuthTokenWithPermissions then
    match request.permissions with
    | none => .error .missingParameter
    | some permissions =>
      if permissions = 0 then .error .invalidParameter
      else if permissions &&& ~~~supportedPermissions ≠ 0 then .error .unauthorizedPermission
      else .ok permissions
  else .error .invalidCommand

/-- The checks of `get_pin_token` before the PIN is looked at: the permissions, the shared secret
  and the encrypted PIN hash. -/
def tokenRequest (request : ClientPinRequest) :
    Except Ctap2Status (UInt8 × FixedBytes 32 × BoundedBytes 32) := do
  let permissions ← requestedPermissions request
  let secret ← shared K c request
  let pinHashEnc ← required request.pinHashEnc .missingParameter
  let auth ← required request.pinUvAuthParam .missingParameter
  if ctEqPrefix (K.hmacSha256 secret pinHashEnc.val) auth.val = false then .error .pinAuthInvalid
  else .ok (permissions, secret, pinHashEnc)

/-- The response of `get_pin_token`: the token, encrypted. -/
def tokenResponse (secret token : FixedBytes 32) : Except Ctap2Status (BoundedBytes 48) := do
  let encrypted ← aesCbcEncrypt K secret token.val 48
  required (BoundedBytes.ofSlice 48 encrypted) .limitExceeded

/-- `getPINToken` and `getPinUvAuthTokenUsingPinWithPermissions`; `token` is the random token. -/
def getPinToken (s : σ) (request : ClientPinRequest) (token : FixedBytes 32) :
    Except Ctap2Status (BoundedBytes 48) × ClientPin × σ :=
  match P.pinHash s with
  | none => (.error .pinNotSet, c, s)
  | some storedHash =>
    if P.pinRetries s = 0 then (.error .pinBlocked, c, s)
    else
      match tokenRequest K c request with
      | .error e => (.error e, c, s)
      | .ok (permissions, secret, pinHashEnc) =>
        match provesPin K secret pinHashEnc.val storedHash with
        | .error e => (.error e, c, s)
        | .ok false =>
          match spendRetry P s with
          | (.error e, s) => (.error e, c, s)
          | (.ok e, s) => (.error e, c, s)
        | .ok true =>
          match P.setPinRetries s defaultRetries with
          | (.error _, s) => (.error .other, c, s)
          | (.ok _, s) =>
            (tokenResponse K secret token,
              { c with pinUvAuthToken := some token, pinUvAuthPermissions := permissions,
                       pinUvAuthRpId := request.rpId }, s)

/-- The checks of `change_pin` before the PIN is looked at: the shared secret, the encrypted new
  PIN and the encrypted PIN hash. -/
def changeRequest (request : ClientPinRequest) :
    Except Ctap2Status (FixedBytes 32 × BoundedBytes 96 × BoundedBytes 32) := do
  let secret ← shared K c request
  let newPinEnc ← required request.newPinEnc .missingParameter
  let pinHashEnc ← required request.pinHashEnc .missingParameter
  let auth ← required request.pinUvAuthParam .missingParameter
  if newPinEnc.val.length + pinHashEnc.val.length > 128 then .error .invalidParameter
  else if ctEqPrefix (K.hmacSha256 secret (newPinEnc.val ++ pinHashEnc.val)) auth.val = false then
    .error .pinAuthInvalid
  else .ok (secret, newPinEnc, pinHashEnc)

/-- Store a rotated PIN, restore the budget and invalidate the token. -/
def rotatePin (s : σ) (pin : List UInt8) : Except Ctap2Status Unit × ClientPin × σ :=
  match P.setPinHash s (AegisToken.pinHash K pin) with
  | (.error _, s) => (.error .other, c, s)
  | (.ok _, s) =>
    match P.setPinRetries s defaultRetries with
    | (.error _, s) => (.error .other, c, s)
    | (.ok _, s) => (.ok (), c.invalidateToken, s)

/-- A wrong current PIN of `change_pin`: a retry is spent, the key agreement and the token are
  dropped, unless the retry could not be written. -/
def wrongCurrentPin (s : σ) : Except Ctap2Status Unit × ClientPin × σ :=
  match spendRetry P s with
  | (.error e, s) => (.error e, c, s)
  | (.ok e, s) => (.error e, { c.invalidateToken with agreementPrivate := none }, s)

def changePin (s : σ) (request : ClientPinRequest) : Except Ctap2Status Unit × ClientPin × σ :=
  match P.pinHash s with
  | none => (.error .pinNotSet, c, s)
  | some storedHash =>
    if P.pinRetries s = 0 then (.error .pinBlocked, c, s)
    else
      match changeRequest K c request with
      | .error e => (.error e, c, s)
      | .ok (secret, newPinEnc, pinHashEnc) =>
        match provesPin K secret pinHashEnc.val storedHash with
        | .error e => (.error e, c, s)
        | .ok false => wrongCurrentPin P c s
        | .ok true =>
          match newPin K secret newPinEnc.val with
          | .error e => (.error e, c, s)
          | .ok pin => rotatePin K P c s pin

end Methods

/-! ## What the methods do to the token -/

section Effects
variable {σ : Type} {K : PinCrypto} {P : PinState σ} {c : ClientPin} {s : σ}

/-- Two handlers with the same token, permissions and binding. -/
def SameToken (c c' : ClientPin) : Prop :=
  c'.pinUvAuthToken = c.pinUvAuthToken ∧ c'.pinUvAuthPermissions = c.pinUvAuthPermissions ∧
    c'.pinUvAuthRpId = c.pinUvAuthRpId

theorem SameToken.rfl (c : ClientPin) : c.SameToken c := ⟨Eq.refl _, Eq.refl _, Eq.refl _⟩

theorem keyAgreement_same (K : PinCrypto) (c : ClientPin) (rng : Nat → FixedBytes 32) :
    c.SameToken (keyAgreement K c rng).2 := by
  unfold keyAgreement
  rcases generateSecretKey K rng with e | secret
  · exact .rfl c
  simp only
  rcases K.publicKey secret with _ | key
  · exact .rfl c
  · exact ⟨rfl, rfl, rfl⟩

theorem tokenResponse_ok (K : PinCrypto) (secret token : FixedBytes 32) :
    ∃ response, tokenResponse K secret token = .ok response := by
  have hl : (K.encryptCbc secret token.val).length ≤ 48 := by
    rw [K.length_encryptCbc, token.property]
    decide
  have he : aesCbcEncrypt K secret token.val 48 = .ok (K.encryptCbc secret token.val) := by
    have hne : token.val ≠ [] := by
      intro h
      have := token.property
      rw [h] at this
      cases this
    unfold aesCbcEncrypt
    rw [if_neg (by simp [hne, token.property])]
  refine ⟨⟨_, hl⟩, ?_⟩
  unfold tokenResponse BoundedBytes.ofSlice
  simp only [he, bind, Except.bind, dif_pos hl]
  rfl

/-- A token is issued for a proven PIN, with the permissions and the relying party asked for;
  otherwise nothing changes. -/
theorem getPinToken_cases (request : ClientPinRequest) (token : FixedBytes 32) :
    (∃ response storedHash permissions secret pinHashEnc,
      (getPinToken K P c s request token).1 = .ok response ∧
      P.pinHash s = some storedHash ∧
      tokenRequest K c request = .ok (permissions, secret, pinHashEnc) ∧
      provesPin K secret pinHashEnc.val storedHash = .ok true ∧
      (getPinToken K P c s request token).2.1 =
        { c with pinUvAuthToken := some token, pinUvAuthPermissions := permissions,
                 pinUvAuthRpId := request.rpId }) ∨
    ∃ e, (getPinToken K P c s request token).1 = .error e ∧
      (getPinToken K P c s request token).2.1 = c := by
  unfold getPinToken
  rcases hhs : P.pinHash s with _ | storedHash
  · exact .inr ⟨_, rfl, rfl⟩
  simp only
  split
  · exact .inr ⟨_, rfl, rfl⟩
  rcases hr : tokenRequest K c request with e | ⟨permissions, secret, pinHashEnc⟩
  · exact .inr ⟨_, rfl, rfl⟩
  simp only
  rcases hpr : provesPin K secret pinHashEnc.val storedHash with e | _ | _
  · exact .inr ⟨_, rfl, rfl⟩
  · rcases spendRetry P s with ⟨_ | _, s'⟩ <;> exact .inr ⟨_, rfl, rfl⟩
  rcases P.setPinRetries s defaultRetries with ⟨_ | _, s'⟩
  · exact .inr ⟨_, rfl, rfl⟩
  · obtain ⟨response, hrs⟩ := tokenResponse_ok K secret token
    exact .inl ⟨response, storedHash, permissions, secret, pinHashEnc, hrs, rfl, rfl, hpr, rfl⟩

/-- A `change_pin` that reaches the comparison with the stored PIN, and fails it. -/
def WrongPin (K : PinCrypto) (P : PinState σ) (c : ClientPin) (s : σ)
    (request : ClientPinRequest) : Prop :=
  ∃ storedHash secret newPinEnc pinHashEnc, P.pinHash s = some storedHash ∧ P.pinRetries s ≠ 0 ∧
    changeRequest K c request = .ok (secret, newPinEnc, pinHashEnc) ∧
    provesPin K secret pinHashEnc.val storedHash = .ok false

/-- A `change_pin` that reaches the comparison with the stored PIN, and passes it. -/
def RightPin (K : PinCrypto) (P : PinState σ) (c : ClientPin) (s : σ) (request : ClientPinRequest)
    (secret : FixedBytes 32) (newPinEnc : BoundedBytes 96) : Prop :=
  ∃ storedHash pinHashEnc, P.pinHash s = some storedHash ∧ P.pinRetries s ≠ 0 ∧
    changeRequest K c request = .ok (secret, newPinEnc, pinHashEnc) ∧
    provesPin K secret pinHashEnc.val storedHash = .ok true

variable {request : ClientPinRequest}

theorem changePin_wrong (h : WrongPin K P c s request) :
    changePin K P c s request = wrongCurrentPin P c s := by
  obtain ⟨storedHash, secret, newPinEnc, pinHashEnc, hhs, hlf, hr, hpr⟩ := h
  simp only [changePin, hhs, if_neg hlf, hr, hpr]

theorem changePin_right {secret : FixedBytes 32} {newPinEnc : BoundedBytes 96}
    (h : RightPin K P c s request secret newPinEnc) :
    changePin K P c s request = match newPin K secret newPinEnc.val with
      | .error e => (.error e, c, s)
      | .ok pin => rotatePin K P c s pin := by
  obtain ⟨storedHash, pinHashEnc, hhs, hlf, hr, hpr⟩ := h
  simp only [changePin, hhs, if_neg hlf, hr, hpr]

/-- Without a comparison with the stored PIN, `change_pin` is refused and leaves everything. -/
theorem changePin_outcome (K : PinCrypto) (P : PinState σ) (c : ClientPin) (s : σ)
    (request : ClientPinRequest) :
    WrongPin K P c s request ∨ (∃ secret newPinEnc, RightPin K P c s request secret newPinEnc) ∨
      ∃ e, changePin K P c s request = (.error e, c, s) := by
  rcases hhs : P.pinHash s with _ | storedHash
  · exact .inr (.inr ⟨.pinNotSet, by simp only [changePin, hhs]⟩)
  by_cases hlf : P.pinRetries s = 0
  · exact .inr (.inr ⟨.pinBlocked, by simp only [changePin, hhs, if_pos hlf]⟩)
  rcases hr : changeRequest K c request with e | ⟨secret, newPinEnc, pinHashEnc⟩
  · exact .inr (.inr ⟨e, by simp only [changePin, hhs, if_neg hlf, hr]⟩)
  rcases hpr : provesPin K secret pinHashEnc.val storedHash with e | _ | _
  · exact .inr (.inr ⟨e, by simp only [changePin, hhs, if_neg hlf, hr, hpr]⟩)
  · exact .inl ⟨storedHash, secret, newPinEnc, pinHashEnc, hhs, hlf, hr, hpr⟩
  · exact .inr (.inl ⟨secret, newPinEnc, storedHash, pinHashEnc, hhs, hlf, hr, hpr⟩)

theorem changePin_ok (h : (changePin K P c s request).1 = .ok ()) :
    ∃ secret newPinEnc pin, RightPin K P c s request secret newPinEnc ∧
      newPin K secret newPinEnc.val = .ok pin ∧
      changePin K P c s request = rotatePin K P c s pin := by
  rcases changePin_outcome K P c s request with hwr | ⟨secret, newPinEnc, hrg⟩ | ⟨e, hr⟩
  · rw [changePin_wrong hwr, wrongCurrentPin] at h
    split at h <;> cases h
  · have heq := changePin_right hrg
    rcases hn : newPin K secret newPinEnc.val with e | pin
    · rw [heq, hn] at h
      cases h
    · rw [hn] at heq
      exact ⟨secret, newPinEnc, pin, hrg, hn, heq⟩
  · rw [hr] at h
    cases h

theorem setPin_ok (h : (setPin K P c s request).1 = .ok ()) :
    ∃ pin, setPinRequest K c request = .ok pin ∧
      (setPin K P c s request).2 = (P.setPinHash s (AegisToken.pinHash K pin)).2 := by
  by_cases hs : (P.pinHash s).isSome
  · rw [setPin, if_pos hs] at h
    cases h
  rcases hr : setPinRequest K c request with e | pin
  · simp only [setPin, if_neg hs, hr] at h
    cases h
  refine ⟨pin, rfl, ?_⟩
  simp only [setPin, if_neg hs, hr]
  split
  · next hwr => rw [hwr]
  · next hwr => rw [hwr]

theorem spendRetry_ok (hP : P.WritesSucceed) (s : σ) : ∃ e s', spendRetry P s = (.ok e, s') := by
  unfold spendRetry
  simp only
  obtain ⟨s', hs'⟩ := hP.retries s (if P.pinRetries s = 0 then 0 else P.pinRetries s - 1)
  rw [hs']
  exact ⟨_, _, rfl⟩

theorem rotatePin_ok (hP : P.WritesSucceed) (pin : List UInt8) :
    (rotatePin K P c s pin).2.1 = c.invalidateToken := by
  unfold rotatePin
  obtain ⟨s', hs'⟩ := hP.hash s (AegisToken.pinHash K pin)
  obtain ⟨s'', hs''⟩ := hP.retries s' defaultRetries
  simp only [hs', hs'']

/-- `change_pin` drops the token, or it fails without a wrong PIN and leaves the handler. -/
theorem changePin_cases (hP : P.WritesSucceed) (request : ClientPinRequest) :
    (changePin K P c s request).2.1.pinUvAuthToken = none ∨
      (changePin K P c s request).2.1 = c ∧ (changePin K P c s request).1 ≠ .ok () ∧
        ¬ WrongPin K P c s request := by
  by_cases hwr : WrongPin K P c s request
  · obtain ⟨e, s', hsp⟩ := spendRetry_ok hP s
    rw [changePin_wrong hwr]
    refine .inl ?_
    simp only [wrongCurrentPin, hsp]
    rfl
  rcases changePin_outcome K P c s request with h | ⟨secret, newPinEnc, h⟩ | ⟨e, h⟩
  · exact absurd h hwr
  · rw [changePin_right h]
    rcases newPin K secret newPinEnc.val with e | pin
    · exact .inr ⟨rfl, nofun, hwr⟩
    · refine .inl ?_
      simp only [rotatePin_ok hP]
      rfl
  · rw [h]
    exact .inr ⟨rfl, nofun, hwr⟩

end Effects

end ClientPin

end AegisToken
