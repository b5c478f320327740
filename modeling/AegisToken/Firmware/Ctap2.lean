/-
  The CTAP2 commands of a FIDO session (firmware main.rs `handle_ctap2`).
  A session is the store, the `clientPIN` handler, the cursor of the credential-management
  enumerations, and the pending assertion. What a command makes of the store outside this file
  (`make_credential`, the COSE encoding of a key) is a parameter.
  A Begin command checks the token and keeps the list it found; the Next commands serve from that
  list and check nothing. `handle_effect` lists what a command does to the token and the cursor.
-/
import AegisToken.Lib.History
import AegisToken.Core.U2f
import AegisToken.Core.TokenAuthority
import AegisToken.Core.CredentialManagement

namespace AegisToken.Ctap2
open ByteCodec History

/-! ## Stores and parameters -/

/-- The traits `CredentialStore` and `PinState`, as far as a session uses them. -/
structure FidoStore (σ φ : Type) where
  credentials : CredentialStore σ φ
  pin : PinState σ
  remove : σ → List UInt8 → Except CoreError Unit × σ
  clear : σ → σ
  clearPinState : σ → Except CoreError Unit × σ

/-- `authenticatorMakeCredential`: what the session reads of it, and the parameters it was parsed
  from. -/
structure MakeCredentialRequest where
  rpId : FixedString 64
  clientDataHash : FixedBytes 32
  uv : Bool
  pinUvAuthParam : Option (BoundedBytes 64)
  params : List UInt8

/-- A device: its primitives, its store and what they make of keys. -/
structure Device (σ φ : Type) where
  crypto : PinCrypto
  store : FidoStore σ φ
  cosePublicKey : Credential → Option (BoundedBytes 128)
  makeCredential : MakeCredentialRequest → Bool → Bool → (Nat → UInt8) → σ →
    Except Ctap2Status (List UInt8) × σ

/-- The state of `MemoryCredentialStore`: the credentials, the PIN hash and the retries. -/
structure MemoryState where
  credentials : Cache
  pinHash : Option (FixedBytes 32)
  pinRetries : UInt8

/-- `MemoryCredentialStore`, whose operations do not fail. -/
def memoryFido : FidoStore MemoryState Unit where
  credentials :=
    { get := fun s id => s.credentials.get id
      list := fun s => s.credentials.val
      nextSignCount := fun fault s id =>
        let (count, credentials) := memoryStore.nextSignCount fault s.credentials id
        (count, { s with credentials }) }
  pin :=
    { pinHash := fun s => s.pinHash
      pinRetries := fun s => s.pinRetries
      setPinHash := fun s hash => (.ok (), { s with pinHash := some hash, pinRetries := defaultRetries })
      setPinRetries := fun s pinRetries => (.ok (), { s with pinRetries }) }
  remove s id :=
    match s.credentials.position id with
    | some index => (.ok (), { s with credentials := s.credentials.swapRemove index })
    | none => (.ok (), s)
  clear s := { s with credentials := ⟨[], Nat.zero_le _⟩ }
  clearPinState s := (.ok (), { s with pinHash := none, pinRetries := defaultRetries })

/-! ## State -/

/-- Relying party entry of the enumeration. -/
structure RpEntry where
  rpId : FixedString 64
  rpIdHash : FixedBytes 32
deriving DecidableEq

/-- Credential-management enumeration cursor. -/
structure EnumerationState where
  rps : List RpEntry
  rpIndex : Nat
  credentials : List (BoundedBytes 32)
  credentialIndex : Nat

/-- State shared by the CTAP2 commands of one FIDO session. -/
structure Session (σ : Type) where
  store : σ
  clientPin : ClientPin
  enumeration : EnumerationState
  assertion : Option PendingAssertion

def Session.new {σ : Type} (store : σ) : Session σ := ⟨store, .new, ⟨[], 0, [], 0⟩, none⟩

/-- A request, with what the environment adds while it is served: the channel, whether presence was
  confirmed, randomness, and what goes wrong in the store. -/
inductive Request (φ : Type) where
  /-- An empty payload, a command that is not served, or parameters that do not parse. -/
  | refused (status : Ctap2Status)
  | getInfo
  | makeCredential (request : MakeCredentialRequest) (up : Bool) (rng : Nat → UInt8)
  | getAssertion (channel : UInt32) (request : GetAssertionRequest)
      (param : Option (BoundedBytes 64)) (up : Bool) (fault : φ)
  | getNextAssertion (channel : UInt32) (fault : φ)
  | clientPin (request : ClientPinRequest) (rng : Nat → FixedBytes 32) (token : FixedBytes 32)
  | reset (up : Bool)
  | credentialManagement (request : CredentialManagementRequest)

/-- The answer: a status, or the response that is encoded. -/
inductive Answer where
  | status (status : Ctap2Status)
  | info (credMgmt : Bool)
  | attestation (response : List UInt8)
  | assertion (response : GetAssertionResponse)
  | retries (retries : UInt8)
  | agreementKey (key : Ec2KeyAgreement)
  | pinToken (encrypted : BoundedBytes 48)
  | metadata (existing remaining : Nat)
  | rp (entry : RpEntry) (totalRps : Nat)
  | credential (userId : BoundedBytes 64) (id : BoundedBytes 32) (publicKey : BoundedBytes 128)
      (totalCredentials : Nat)
deriving DecidableEq

def Answer.ofResult {α : Type} (response : α → Answer) : Except Ctap2Status α → Answer
  | .ok a => response a
  | .error e => .status e

def subGetRetries : UInt8 := 0x01
def subGetKeyAgreement : UInt8 := 0x02
def subSetPin : UInt8 := 0x03
def subChangePin : UInt8 := 0x04

def credMgmtGetMetadata : UInt8 := 0x01
def credMgmtEnumerateRps : UInt8 := 0x02
def credMgmtEnumerateRpsNext : UInt8 := 0x03
def credMgmtEnumerateCredentials : UInt8 := 0x04
def credMgmtEnumerateCredentialsNext : UInt8 := 0x05
def credMgmtDelete : UInt8 := 0x06

/-! ## Commands -/

section
variable {σ φ : Type} (D : Device σ φ)

/-- List the relying parties that own discoverable credentials, in the order they were first
  seen. -/
def listRps (store : σ) : List RpEntry :=
  (D.store.credentials.list store).foldl (fun rps credential =>
    if credential.discoverable = false then rps
    else if rps.any (·.rpId = credential.rpId) then rps
    else if rps.length < maxCredentials then
      rps ++ [⟨credential.rpId, rpIdHash D.crypto credential.rpId.val⟩]
    else rps) []

/-- List the discoverable credentials of a relying party. -/
def listCredentials (store : σ) (hash : FixedBytes 32) : List (BoundedBytes 32) :=
  (D.store.credentials.list store).foldl (fun ids credential =>
    if credential.discoverable = false then ids
    else if rpIdHash D.crypto credential.rpId.val ≠ hash then ids
    else if ids.length < maxCredentials then ids ++ [credential.id]
    else ids) []

def credentialResponse (store : σ) (id : BoundedBytes 32) (total : Nat) : Answer :=
  match D.store.credentials.get store id.val with
  | none => .status .noCredentials
  | some credential =>
    match D.cosePublicKey credential with
    | none => .status .noCredentials
    | some publicKey => .credential credential.userId credential.id publicKey total

/-- Authorise a credential-management subcommand with the active token. -/
def authorizeManagement (s : Session σ) (param : BoundedBytes 64) (message : List UInt8)
    (scope : ManagementScope) : Except Ctap2Status Bool × ClientPin :=
  s.clientPin.authorize D.crypto D.store.pin s.store
    ⟨some param.val, message, false, .credentialManagement scope⟩

/-- `getCredsMetadata`. -/
def getMetadata (request : CredentialManagementRequest) (s : Session σ) : Answer × Session σ :=
  match request.pinUvAuthParam with
  | none => (.status .pinRequired, s)
  | some param =>
    match authorizeManagement D s param [credMgmtGetMetadata] .device with
    | (.error e, clientPin) => (.status e, { s with clientPin })
    | (.ok _, clientPin) =>
      let existing := (D.store.credentials.list s.store).length
      (.metadata existing (maxCredentials - existing), { s with clientPin })

/-- `enumerateRPsBegin`. -/
def enumerateRps (request : CredentialManagementRequest) (s : Session σ) : Answer × Session σ :=
  match request.pinUvAuthParam with
  | none => (.status .pinRequired, s)
  | some param =>
    match authorizeManagement D s param [credMgmtEnumerateRps] .device with
    | (.error e, clientPin) => (.status e, { s with clientPin })
    | (.ok _, clientPin) =>
      match listRps D s.store with
      | [] => (.status .noCredentials, { s with clientPin })
      | first :: rest =>
        (.rp first (first :: rest).length,
          { s with clientPin, enumeration := { s.enumeration with
              rps := first :: rest, rpIndex := 1 } })

/-- `enumerateRPsGetNextRP`. -/
def enumerateRpsNext (s : Session σ) : Answer × Session σ :=
  match s.enumeration.rps[s.enumeration.rpIndex]? with
  | none => (.status .noCredentials, s)
  | some rp =>
    (.rp rp s.enumeration.rps.length,
      { s with enumeration := { s.enumeration with rpIndex := s.enumeration.rpIndex + 1 } })

/-- `enumerateCredentialsBegin`. The cursor is set before the first response is built, which may
  fail. -/
def enumerateCredentials (request : CredentialManagementRequest) (s : Session σ) :
    Answer × Session σ :=
  match request.pinUvAuthParam with
  | none => (.status .pinRequired, s)
  | some param =>
    match request.rpIdHash with
    | none => (.status .missingParameter, s)
    | some hash =>
      match authorizeManagement D s param
          (credMgmtEnumerateCredentials :: request.subCommandParams.val)
          (.relyingPartyHash hash) with
      | (.error e, clientPin) => (.status e, { s with clientPin })
      | (.ok _, clientPin) =>
        match listCredentials D s.store hash with
        | [] => (.status .noCredentials, { s with clientPin })
        | first :: rest =>
          (credentialResponse D s.store first (first :: rest).length,
            { s with clientPin, enumeration := { s.enumeration with
                credentials := first :: rest, credentialIndex := 1 } })

/-- `enumerateCredentialsGetNextCredential`. -/
def enumerateCredentialsNext (s : Session σ) : Answer × Session σ :=
  match s.enumeration.credentials[s.enumeration.credentialIndex]? with
  | none => (.status .noCredentials, s)
  | some id =>
    (credentialResponse D s.store id s.enumeration.credentials.length,
      { s with enumeration := { s.enumeration with
          credentialIndex := s.enumeration.credentialIndex + 1 } })

/-- `deleteCredential`, inside the scope of the token (`delete_credential_scoped`). -/
def deleteCredential (request : CredentialManagementRequest) (s : Session σ) :
    Answer × Session σ :=
  match request.pinUvAuthParam with
  | none => (.status .pinRequired, s)
  | some param =>
    match request.credentialId with
    | none => (.status .missingParameter, s)
    | some id =>
      let credential := D.store.credentials.get s.store id.val
      let owner : Option Str := credential.map fun c => ⟨c.rpId.val, c.rpId.property.2⟩
      match authorizeManagement D s param (credMgmtDelete :: request.subCommandParams.val)
          (.credentialRelyingParty owner) with
      | (.error e, clientPin) => (.status e, { s with clientPin })
      | (.ok _, clientPin) =>
        match credential with
        | none => (.status .noCredentials, { s with clientPin })
        | some credential =>
          match D.store.remove s.store credential.id.val with
          | (.error _, store) => (.status .other, { s with clientPin, store })
          | (.ok _, store) => (.status .ok, { s with clientPin, store })

/-- `authenticatorCredentialManagement`. -/
def handleCredentialManagement (request : CredentialManagementRequest) (s : Session σ) :
    Answer × Session σ :=
  if request.subCommand = credMgmtGetMetadata then getMetadata D request s
  else if request.subCommand = credMgmtEnumerateRps then enumerateRps D request s
  else if request.subCommand = credMgmtEnumerateRpsNext then enumerateRpsNext s
  else if request.subCommand = credMgmtEnumerateCredentials then enumerateCredentials D request s
  else if request.subCommand = credMgmtEnumerateCredentialsNext then enumerateCredentialsNext D s
  else if request.subCommand = credMgmtDelete then deleteCredential D request s
  else (.status .invalidSubcommand, s)

/-- `authenticatorClientPIN`. -/
def handleClientPin (request : ClientPinRequest) (rng : Nat → FixedBytes 32)
    (token : FixedBytes 32) (s : Session σ) : Answer × Session σ :=
  if request.subCommand = subGetRetries then (.retries (D.store.pin.pinRetries s.store), s)
  else if request.subCommand = subGetKeyAgreement then
    let (result, clientPin) := s.clientPin.keyAgreement D.crypto rng
    (.ofResult .agreementKey result, { s with clientPin })
  else if request.subCommand = subSetPin then
    let (result, store) := s.clientPin.setPin D.crypto D.store.pin s.store request
    (.ofResult (fun _ => .status .ok) result, { s with store })
  else if request.subCommand = subChangePin then
    let (result, clientPin, store) := s.clientPin.changePin D.crypto D.store.pin s.store request
    (.ofResult (fun _ => .status .ok) result, { s with clientPin, store })
  else if request.subCommand = subGetPinToken ∨
      request.subCommand = subGetPinUvAuthTokenWithPermissions then
    let (result, clientPin, store) :=
      s.clientPin.getPinToken D.crypto D.store.pin s.store request token
    (.ofResult .pinToken result, { s with clientPin, store })
  else (.status .invalidSubcommand, s)

/-- `authenticatorMakeCredential`. -/
def handleMakeCredential (request : MakeCredentialRequest) (up : Bool) (rng : Nat → UInt8)
    (s : Session σ) : Answer × Session σ :=
  match s.clientPin.authorize D.crypto D.store.pin s.store
      ⟨request.pinUvAuthParam.map (·.val), request.clientDataHash.val, request.uv,
        .makeCredential ⟨request.rpId.val, request.rpId.property.2⟩⟩ with
  | (.error e, clientPin) => (.status e, { s with clientPin })
  | (.ok uv, clientPin) =>
    let (result, store) := D.makeCredential request up uv rng s.store
    (.ofResult .attestation result,
      { s with clientPin := clientPin.closeUserPresenceOperation uv result.isOk, store })

/-- `authenticatorGetAssertion`. -/
def handleGetAssertion (channel : UInt32) (request : GetAssertionRequest)
    (param : Option (BoundedBytes 64)) (up : Bool) (fault : φ) (s : Session σ) :
    Answer × Session σ :=
  let (authorized, clientPin) := s.clientPin.authorize D.crypto D.store.pin s.store
    ⟨param.map (·.val), request.clientDataHash.val, request.uv,
      .getAssertion ⟨request.rpId.val, request.rpId.property.2⟩⟩
  let (result, signing) := FidoSession.getAssertion D.crypto.toCrypto D.store.credentials fault
    ⟨s.store, s.assertion, []⟩ channel request authorized up
  (.ofResult .assertion result,
    { s with
      clientPin := clientPin.closeUserPresenceOperation (authorized.toOption.getD false) result.isOk
      store := signing.store
      assertion := signing.assertion })

/-- `authenticatorGetNextAssertion`. -/
def handleGetNextAssertion (channel : UInt32) (fault : φ) (s : Session σ) : Answer × Session σ :=
  let (result, signing) := FidoSession.getNextAssertion D.crypto.toCrypto D.store.credentials fault
    ⟨s.store, s.assertion, []⟩ channel
  (.ofResult .assertion result, { s with store := signing.store, assertion := signing.assertion })

/-- `authenticatorReset` (`authenticator::reset`). A PIN state that cannot be cleared leaves the
  token. -/
def handleReset (up : Bool) (s : Session σ) : Answer × Session σ :=
  if up = false then (.status .upRequired, s)
  else
    match D.store.clearPinState (D.store.clear s.store) with
    | (.error _, store) => (.status .other, { s with store })
    | (.ok _, store) => (.status .ok, { s with store, clientPin := s.clientPin.invalidateToken })

def handleCtap2 (s : Session σ) : Request φ → Answer × Session σ
  | .refused e => (.status e, s)
  | .getInfo => (.info (D.store.pin.pinHash s.store).isSome, s)
  | .makeCredential request up rng => handleMakeCredential D request up rng s
  | .getAssertion channel request param up fault =>
    handleGetAssertion D channel request param up fault s
  | .getNextAssertion channel fault => handleGetNextAssertion D channel fault s
  | .clientPin request rng token => handleClientPin D request rng token s
  | .reset up => handleReset D up s
  | .credentialManagement request => handleCredentialManagement D request s

end

end AegisToken.Ctap2
