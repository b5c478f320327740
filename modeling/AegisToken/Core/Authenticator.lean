/-
  CTAP2 assertions (aegis-core authenticator.rs, assertion.rs).
  The hash and the signature schemes of the `sha2`, `p256` and `ed25519_dalek` crates are the
  parameter `Crypto`; nothing is assumed of them. A function that signs returns, besides the
  response, what it signed with which credential (`Signed`).
  Credentials are reached through the trait `CredentialStore`, a record of functions on a state.
-/
import AegisToken.Core.CredentialStore

namespace AegisToken
open ByteCodec

/-- CTAP2 status codes used by the modelled commands (ctap2.rs). -/
inductive Ctap2Status where
  | ok
  | invalidCommand
  | invalidParameter
  | invalidLength
  | invalidCbor
  | missingParameter
  | limitExceeded
  | credentialExcluded
  | invalidCredential
  | unsupportedAlgorithm
  | noCredentials
  | notAllowed
  | pinInvalid
  | pinBlocked
  | pinAuthInvalid
  | pinAuthBlocked
  | pinNotSet
  | pinRequired
  | pinPolicyViolation
  | upRequired
  | invalidSubcommand
  | unauthorizedPermission
  | other
deriving DecidableEq, Repr

/-- SHA-256, ES256 with a DER signature (none for a key that is no scalar), and EdDSA. -/
structure Crypto where
  sha256 : List UInt8 → FixedBytes 32
  es256 : FixedBytes 32 → List UInt8 → Option (List UInt8)
  eddsa : FixedBytes 32 → List UInt8 → List UInt8

/-- A signature that was made: which credential's key signed which message, and whether it was for
  an assertion or for U2F. -/
structure Signed where
  credential : Credential
  message : List UInt8
  u2f : Bool
deriving DecidableEq

/-- The 32-byte relying-party field of a signed message: the start of the authenticator data, or
  the application parameter after the reserved byte. -/
def Signed.rpField (s : Signed) : List UInt8 :=
  if s.u2f then (s.message.drop 1).take 32 else s.message.take 32

/-! ## Credential stores -/

/-- The trait `CredentialStore`, as far as assertions use it, on states `σ`. `φ` is what can go
  wrong in the medium while a counter is stored. -/
structure CredentialStore (σ φ : Type) where
  get : σ → List UInt8 → Option Credential
  list : σ → List Credential
  nextSignCount : φ → σ → List UInt8 → Option UInt32 × σ

/-- `MemoryCredentialStore`: nothing can go wrong. -/
def memoryStore : CredentialStore Cache Unit where
  get := Cache.get
  list cache := cache.val
  nextSignCount _ cache id :=
    match cache.raise id with
    | some (count, cache) => (some count, cache)
    | none => (none, cache)

/-- `SealedCredentialStore` on a flash, with its database in memory. A fault is a byte the flash
  fails at: the flush returns an error and the change in memory stays. -/
def sealedStore (s : SealedCredentialStore) :
    CredentialStore (FlashProg.Flash × Database) (Option Nat) where
  get x id := x.2.cache.get id
  list x := x.2.cache.val
  nextSignCount fault x id :=
    let (db, program) := s.nextSignCount x.2 id
    match fault with
    | none => ((program.result x.1).toOption, (program.after x.1, db))
    | some n => (none, (program.crash n x.1, db))

/-! ## Signing -/

def flagUp : UInt8 := 0x01
def flagUv : UInt8 := 0x04

def maxAuthData : Nat := 256

def maxSignature : Nat := 80

/-- `heapless::Vec::from_slice` with a limit. -/
def limited (n : Nat) (bs : List UInt8) : Except Ctap2Status (List UInt8) :=
  if bs.length ≤ n then .ok bs else .error .limitExceeded

/-- `rpIdHash || flags || signCount || attested`. -/
def buildAuthData (K : Crypto) (rpId : List UInt8) (flags : UInt8) (signCount : UInt32)
    (attested : Option (List UInt8)) : Except Ctap2Status (List UInt8) :=
  limited maxAuthData ((K.sha256 rpId).val ++ [flags] ++ toBE 4 signCount.toNat ++
    attested.getD [])

def signMessage (K : Crypto) (privateKey : FixedBytes 32) (message : List UInt8) :
    Except Ctap2Status (List UInt8) :=
  match K.es256 privateKey message with
  | some signature => limited maxSignature signature
  | none => .error .other

/-- Sign authenticator data and client data hash with the credential's algorithm. -/
def sign (K : Crypto) (privateKey : FixedBytes 32) (alg : CoseAlg) (authData : List UInt8)
    (clientDataHash : FixedBytes 32) : Except Ctap2Status (List UInt8) :=
  match alg with
  | .eddsa => limited maxSignature (K.eddsa privateKey (authData ++ clientDataHash.val))
  | .es256 => signMessage K privateKey (authData ++ clientDataHash.val)

/-! ## getAssertion -/

/-- `authenticatorGetAssertion` request, as far as it is used after authorization. -/
structure GetAssertionRequest where
  rpId : FixedString 64
  clientDataHash : FixedBytes 32
  allowList : List (List UInt8)
  uv : Bool

/-- `authenticatorGetAssertion` response. -/
structure GetAssertionResponse where
  credentialId : List UInt8
  authData : List UInt8
  signature : List UInt8
  userId : List UInt8
  numberOfCredentials : Option Nat
deriving DecidableEq

def numberOfCredentials (count : Nat) (hasAllowList : Bool) : Option Nat :=
  if hasAllowList || count ≤ 1 then none else some count

section Assertion
variable {σ φ : Type} (K : Crypto) (S : CredentialStore σ φ)

def pushCandidate (candidates : List (List UInt8)) (id : List UInt8) :
    Except Ctap2Status (List (List UInt8)) :=
  if candidates.length < maxCredentials then .ok (candidates ++ [id]) else .error .limitExceeded

/-- The credentials matching an assertion request, in the order they are returned. -/
def assertionCandidates (s : σ) (request : GetAssertionRequest) :
    Except Ctap2Status (List (List UInt8)) :=
  if request.allowList = [] then
    (S.list s).foldlM
      (fun candidates credential =>
        if credential.discoverable = false then .ok candidates
        else if credential.rpId ≠ request.rpId then .ok candidates
        else pushCandidate candidates credential.id.val)
      []
  else
    request.allowList.foldlM
      (fun candidates descriptor =>
        match S.get s descriptor with
        | none => .ok candidates
        | some credential =>
          if credential.rpId ≠ request.rpId then .ok candidates
          else if descriptor ∈ candidates then .ok candidates
          else pushCandidate candidates credential.id.val)
      []

/-- What a request that may sign leaves: its response, the store, and the signature it made. -/
structure Outcome (σ α : Type) where
  response : α
  store : σ
  signed : Option Signed

def signAssertion (fault : φ) (s : σ) (credentialId rpId : List UInt8)
    (clientDataHash : FixedBytes 32) (uvConfirmed : Bool) :
    Outcome σ (Except Ctap2Status GetAssertionResponse) :=
  match S.get s credentialId with
  | none => ⟨.error .invalidCredential, s, none⟩
  | some credential =>
    match S.nextSignCount fault s credential.id.val with
    | (none, s) => ⟨.error .invalidCredential, s, none⟩
    | (some signCount, s) =>
      let flags := flagUp ||| if uvConfirmed then flagUv else 0
      match buildAuthData K rpId flags signCount none with
      | .error e => ⟨.error e, s, none⟩
      | .ok authData =>
        match sign K credential.privateKey credential.algorithm authData clientDataHash with
        | .error e => ⟨.error e, s, none⟩
        | .ok signature =>
          ⟨.ok { credentialId := credential.id.val, authData, signature,
                 userId := credential.userId.val, numberOfCredentials := none }, s,
            some ⟨credential, authData ++ clientDataHash.val, false⟩⟩

variable {K S} {fault : φ} {s : σ} {id rpId : List UInt8} {hash : FixedBytes 32} {uv : Bool}

theorem buildAuthData_ok {flags : UInt8} {count : UInt32} {authData : List UInt8}
    (h : buildAuthData K rpId flags count none = .ok authData) :
    authData = (K.sha256 rpId).val ++ [flags] ++ toBE 4 count.toNat := by
  unfold buildAuthData limited at h
  rw [Option.getD_none, List.append_nil] at h
  split at h
  · exact (Except.ok.inj h).symm
  · cases h

/-- Only the counter of the credential that was found moves. -/
theorem signAssertion_store : (signAssertion K S fault s id rpId hash uv).store =
    (S.get s id).elim s fun c => (S.nextSignCount fault s c.id.val).2 := by
  unfold signAssertion
  cases S.get s id with
  | none => rfl
  | some c =>
    simp only [Option.elim_some]
    rcases S.nextSignCount fault s c.id.val with ⟨_ | count, s'⟩
    · rfl
    simp only
    split
    · rfl
    · split <;> rfl

variable (K S fault s id rpId hash uv) in
/-- Either nothing is signed, or the signature is made with the credential that was found and
  covers the hash of the relying party and the counter that was stored; the response carries
  both. -/
theorem signAssertion_cases :
    (∃ e, (signAssertion K S fault s id rpId hash uv).response = .error e ∧
      (signAssertion K S fault s id rpId hash uv).signed = none) ∨
    ∃ c count response, S.get s id = some c ∧ (S.nextSignCount fault s c.id.val).1 = some count ∧
      (signAssertion K S fault s id rpId hash uv).response = .ok response ∧
      response.credentialId = c.id.val ∧
      response.authData = (K.sha256 rpId).val ++
        [flagUp ||| if uv then flagUv else 0] ++ toBE 4 count.toNat ∧
      (signAssertion K S fault s id rpId hash uv).signed =
        some ⟨c, response.authData ++ hash.val, false⟩ := by
  unfold signAssertion
  rcases hg : S.get s id with _ | c
  · exact .inl ⟨_, rfl, rfl⟩
  rcases hnx : S.nextSignCount fault s c.id.val with ⟨_ | count, s'⟩
  · exact .inl ⟨.invalidCredential, by simp [hnx]⟩
  rcases hah : buildAuthData K rpId (flagUp ||| if uv then flagUv else 0) count none
    with e | authData
  · exact .inl ⟨e, by simp [hnx, hah]⟩
  rcases hsg : sign K c.privateKey c.algorithm authData hash with e | signature
  · exact .inl ⟨e, by simp [hnx, hah, hsg]⟩
  refine .inr ⟨c, count, ⟨c.id.val, authData, signature, c.userId.val, none⟩, rfl, ?_⟩
  simp only [hnx, hah, hsg, true_and, and_true]
  exact buildAuthData_ok hah

end Assertion

/-! ## Pending assertions -/

/-- A pending assertion, ready to be continued. -/
structure PendingAssertion where
  channel : UInt32
  credentials : List (List UInt8)
  index : Nat
  rpId : FixedString 64
  clientDataHash : FixedBytes 32
  uv : Bool

/-- Start a pending assertion; its first credential has been returned. -/
def PendingAssertion.begin (channel : UInt32) (credentials : List (List UInt8))
    (rpId : FixedString 64) (clientDataHash : FixedBytes 32) (uv : Bool) : PendingAssertion :=
  { channel, credentials, index := 1, rpId, clientDataHash, uv }

/-- The next credential for `channel`, and the pending assertion after it. -/
def PendingAssertion.next (p : PendingAssertion) (channel : UInt32) :
    Option (List UInt8 × PendingAssertion) :=
  if channel ≠ p.channel then none
  else (p.credentials[p.index]?).map fun id => (id, { p with index := p.index + 1 })

end AegisToken
