/-
  CTAP1 / U2F (aegis-core u2f.rs) and the FIDO session (firmware main.rs `handle_ctap2`,
  `handle_ctaphid`), as far as requests sign.
  A session has the credential store, the pending assertion and, for the record, every signature
  made. A request says on which channel it came, whether presence was confirmed, what the PIN
  authorization returned, and which fault the store's medium has while it is served.
-/
import AegisToken.Core.Authenticator

namespace AegisToken
open ByteCodec

/-! ## APDUs -/

def insAuthenticate : UInt8 := 0x02
def insVersion : UInt8 := 0x03

def swNoError : UInt16 := 0x9000
def swWrongLength : UInt16 := 0x6700
def swConditionsNotSatisfied : UInt16 := 0x6985
def swWrongData : UInt16 := 0x6A80
def swInsNotSupported : UInt16 := 0x6D00
def swClaNotSupported : UInt16 := 0x6E00

def maxApduData : Nat := 256

/-- `AUTHENTICATE` P1: check-only. -/
def authCheckOnly : UInt8 := 0x07

/-- `AUTHENTICATE` P1: enforce user presence and sign. -/
def authEnforce : UInt8 := 0x03

/-- A parsed U2F APDU. -/
structure Apdu where
  cla : UInt8
  ins : UInt8
  p1 : UInt8
  p2 : UInt8
  data : List UInt8

def parseApdu : List UInt8 → Except UInt16 Apdu
  | cla :: ins :: p1 :: p2 :: l2 :: l1 :: l0 :: rest =>
    let length := ofBE [l2, l1, l0]
    if length > maxApduData ∨ rest.length < length then .error swWrongLength
    else .ok { cla, ins, p1, p2, data := rest.take length }
  | _ => .error swWrongLength

/-- A U2F response: payload and status word. -/
structure U2fResponse where
  data : List UInt8
  status : UInt16
deriving DecidableEq

def U2fResponse.error (status : UInt16) : U2fResponse := ⟨[], status⟩

/-! ## AUTHENTICATE -/

/-- The parts of an `AUTHENTICATE` payload. -/
structure AuthenticateData where
  challenge : List UInt8
  application : List UInt8
  keyHandle : List UInt8

/-- challenge (32) || application (32) || key handle length (1) || key handle. -/
def AuthenticateData.parse (data : List UInt8) : Option AuthenticateData :=
  if data.length < 65 then none
  else
    let keyHandleLength := (data.getD 64 0).toNat
    if keyHandleLength = 0 ∨ data.length < 65 + keyHandleLength then none
    else some
      { challenge := data.take 32
        application := (data.drop 32).take 32
        keyHandle := (data.drop 65).take keyHandleLength }

def u2fMessage (application : List UInt8) (counter : UInt32) (challenge : List UInt8) :
    List UInt8 :=
  [0x00] ++ application ++ [0x01] ++ toBE 4 counter.toNat ++ challenge

section Requests
variable {σ φ : Type} (K : Crypto) (S : CredentialStore σ φ)

/-- Sign an `AUTHENTICATE` request. A counter that was not stored is signed as zero. -/
def u2fSign (fault : φ) (s : σ) (credential : Credential) (request : AuthenticateData) :
    Outcome σ U2fResponse :=
  let (count, s) := S.nextSignCount fault s request.keyHandle
  let counter := count.getD 0
  let message := u2fMessage request.application counter request.challenge
  match signMessage K credential.privateKey message with
  | .ok signature =>
    ⟨⟨[0x01] ++ toBE 4 counter.toNat ++ signature, swNoError⟩, s, some ⟨credential, message, true⟩⟩
  | .error _ => ⟨.error swConditionsNotSatisfied, s, none⟩

/-- `authenticate`. EdDSA credentials are invisible on this interface. -/
def authenticate (fault : φ) (apdu : Apdu) (s : σ) (upConfirmed : Bool) :
    Outcome σ U2fResponse :=
  match AuthenticateData.parse apdu.data with
  | none => ⟨.error swWrongData, s, none⟩
  | some request =>
    match S.get s request.keyHandle with
    | none => ⟨.error swWrongData, s, none⟩
    | some credential =>
      if credential.algorithm ≠ .es256 then ⟨.error swWrongData, s, none⟩
      else if apdu.p1 = authCheckOnly then ⟨⟨[], swNoError⟩, s, none⟩
      else if apdu.p1 = authEnforce then
        if upConfirmed = false then ⟨.error swConditionsNotSatisfied, s, none⟩
        else u2fSign K S fault s credential request
      else ⟨.error swWrongData, s, none⟩

def u2fHandle (fault : φ) (request : List UInt8) (s : σ) (upConfirmed : Bool) :
    Outcome σ U2fResponse :=
  match parseApdu request with
  | .error status => ⟨.error status, s, none⟩
  | .ok apdu =>
    if apdu.cla ≠ 0 then ⟨.error swClaNotSupported, s, none⟩
    else if apdu.ins = insVersion then
      ⟨⟨[0x55, 0x32, 0x46, 0x5F, 0x56, 0x32], swNoError⟩, s, none⟩
    else if apdu.ins = insAuthenticate then authenticate K S fault apdu s upConfirmed
    else ⟨.error swInsNotSupported, s, none⟩

/-- The sign request in a message and the credential it names, if it names an ES256 one. -/
def u2fTarget (message : List UInt8) (s : σ) : Option (AuthenticateData × Credential) :=
  match parseApdu message with
  | .error _ => none
  | .ok apdu =>
    if apdu.cla = 0 ∧ apdu.ins = insAuthenticate ∧ apdu.p1 = authEnforce then
      (AuthenticateData.parse apdu.data).bind fun request =>
        (S.get s request.keyHandle).bind fun credential =>
          if credential.algorithm = .es256 then some (request, credential) else none
    else none

variable {K S} {request : AuthenticateData}

theorem AuthenticateData.length_application {data : List UInt8}
    (h : AuthenticateData.parse data = some request) : request.application.length = 32 := by
  simp only [AuthenticateData.parse] at h
  split at h
  · cases h
  split at h
  · cases h
  · cases h
    simp
    omega

/-- A message that does not sign for its target changes nothing. -/
theorem u2fHandle_cases (fault : φ) (message : List UInt8) (s : σ) (up : Bool) :
    (up = true ∧ ∃ request credential, u2fTarget S message s = some (request, credential) ∧
      S.get s request.keyHandle = some credential ∧ request.application.length = 32 ∧
      u2fHandle K S fault message s up = u2fSign K S fault s credential request) ∨
    ((u2fHandle K S fault message s up).store = s ∧
      (u2fHandle K S fault message s up).signed = none) := by
  unfold u2fHandle u2fTarget
  rcases parseApdu message with e | apdu
  · exact .inr ⟨rfl, rfl⟩
  simp only
  by_cases hc : apdu.cla = 0
  swap
  · exact .inr (by simp [hc])
  by_cases hv : apdu.ins = insVersion
  · exact .inr (by simp [hc, hv])
  by_cases hi : apdu.ins = insAuthenticate
  swap
  · exact .inr (by simp [hc, hv, hi])
  rw [if_neg (not_not.mpr hc), if_neg hv, if_pos hi]
  unfold authenticate
  rcases hpr : AuthenticateData.parse apdu.data with _ | request
  · exact .inr ⟨rfl, rfl⟩
  rcases hg : S.get s request.keyHandle with _ | credential
  · exact .inr (by simp [hg])
  simp only [hg]
  by_cases ha : credential.algorithm = .es256
  swap
  · exact .inr (by simp [ha])
  by_cases hch : apdu.p1 = authCheckOnly
  · exact .inr (by simp [ha, hch])
  by_cases hsg : apdu.p1 = authEnforce
  swap
  · exact .inr (by simp [ha, hch, hsg])
  by_cases hup : up = false
  · exact .inr (by rw [if_neg (not_not.mpr ha), if_neg hch, if_pos hsg, if_pos hup]; simp)
  refine .inl ⟨by simpa using hup, request, credential, ?_, hg, request.length_application hpr, ?_⟩
  · simp [hc, hi, hsg, hg, ha]
  · rw [if_neg (not_not.mpr ha), if_neg hch, if_pos hsg, if_neg hup]

theorem u2fSign_store (fault : φ) (s : σ) (credential : Credential) (request : AuthenticateData) :
    (u2fSign K S fault s credential request).store =
      (S.nextSignCount fault s request.keyHandle).2 := by
  simp only [u2fSign]
  split <;> rfl

/-- A U2F signature covers the application parameter of the request and the counter, or zero for
  one that was not stored; the response carries the counter. -/
theorem u2fSign_signed {fault : φ} {s : σ} {credential : Credential}
    {x : Signed} (hx : (u2fSign K S fault s credential request).signed = some x) :
    ∃ counter signature, counter = (S.nextSignCount fault s request.keyHandle).1.getD 0 ∧
      x = ⟨credential, u2fMessage request.application counter request.challenge, true⟩ ∧
      (u2fSign K S fault s credential request).response.data =
        [0x01] ++ toBE 4 counter.toNat ++ signature := by
  simp only [u2fSign] at hx ⊢
  split at hx
  · next signature _ =>
    exact ⟨_, signature, rfl, (Option.some.inj hx).symm, rfl⟩
  · cases hx

/-- A signature of `authenticate` is one of `u2fSign` for the request in the data. -/
theorem authenticate_signed {fault : φ} {apdu : Apdu} {s : σ} {up : Bool}
    {x : Signed}
    (hpr : AuthenticateData.parse apdu.data = some request)
    (hx : (authenticate K S fault apdu s up).signed = some x) :
    ∃ credential, S.get s request.keyHandle = some credential ∧ credential.algorithm = .es256 ∧
      (u2fSign K S fault s credential request).signed = some x := by
  simp only [authenticate, hpr] at hx
  rcases hg : S.get s request.keyHandle with _ | credential
  · simp [hg] at hx
  simp only [hg] at hx
  refine ⟨credential, rfl, ?_⟩
  split at hx
  · cases hx
  next ha =>
  split at hx
  · cases hx
  split at hx
  · split at hx
    · cases hx
    · exact ⟨not_not.mp ha, hx⟩
  · cases hx

/-! ## Against CTAP2

  The two interfaces sign almost the same bytes: a U2F signature covers one more zero byte in
  front. -/

/-- For one relying party, challenge and counter, the message of `authenticate` is that of
  `signAssertion` behind a zero byte, so the two are never equal. -/
theorem u2f_message_ne_assertion_message (K : Crypto) (S : CredentialStore σ φ)
    (fault fault' : φ) (s t : σ) (apdu : Apdu) (request : AuthenticateData)
    (credentialId rpId : List UInt8) (challenge : FixedBytes 32) (counter : UInt32) (x y : Signed)
    (hparse : AuthenticateData.parse apdu.data = some request)
    (happ : request.application = (K.sha256 rpId).val)
    (hchallenge : request.challenge = challenge.val)
    (hcounter : (S.nextSignCount fault s request.keyHandle).1.getD 0 = counter)
    (hx : (authenticate K S fault apdu s true).signed = some x)
    (hy : (signAssertion K S fault' t credentialId rpId challenge false).signed = some y)
    (hcounter' : (S.nextSignCount fault' t y.credential.id.val).1 = some counter) :
    y.message = (K.sha256 rpId).val ++ [0x01] ++ toBE 4 counter.toNat ++ challenge.val ∧
      x.message = 0x00 :: y.message ∧ x.message ≠ y.message := by
  have hassertion : y.message =
      (K.sha256 rpId).val ++ [0x01] ++ toBE 4 counter.toNat ++ challenge.val := by
    rcases signAssertion_cases K S fault' t credentialId rpId challenge false with
      ⟨_, -, hnone⟩ | ⟨c, count, response, -, hcount, -, -, hauth, hsigned⟩
    · rw [hnone] at hy
      cases hy
    rw [hsigned] at hy
    cases hy
    rw [hcount] at hcounter'
    cases hcounter'
    simp only [hauth]
    rfl
  have hu2f : x.message = 0x00 :: y.message := by
    obtain ⟨credential, -, -, hsigned⟩ := authenticate_signed hparse hx
    obtain ⟨_, _, rfl, rfl, -⟩ := u2fSign_signed hsigned
    rw [hassertion, hcounter, happ, hchallenge]
    rfl
  refine ⟨hassertion, hu2f, ?_⟩
  intro heq
  have hlen := congrArg List.length (heq.symm.trans hu2f)
  simp at hlen

end Requests

/-! ## The session -/

/-- A FIDO session: the store, the pending assertion, and every signature made. -/
structure FidoSession (σ : Type) where
  store : σ
  assertion : Option PendingAssertion
  signed : List Signed

/-- A request that may sign. `fault` is what goes wrong in the store while it is served. -/
inductive SignRequest (φ : Type) where
  | getAssertion (channel : UInt32) (request : GetAssertionRequest)
      (authorized : Except Ctap2Status Bool) (up : Bool) (fault : φ)
  | getNextAssertion (channel : UInt32) (fault : φ)
  | u2f (request : List UInt8) (up : Bool) (fault : φ)

namespace FidoSession

variable {σ φ : Type} (K : Crypto) (S : CredentialStore σ φ)

/-- `GetAssertion`: authorization, presence, candidates, then sign for the first one. -/
def getAssertion (fault : φ) (s : FidoSession σ) (channel : UInt32)
    (request : GetAssertionRequest) (authorized : Except Ctap2Status Bool) (up : Bool) :
    Except Ctap2Status GetAssertionResponse × FidoSession σ :=
  match authorized with
  | .error e => (.error e, s)
  | .ok uv =>
    if up = false then (.error .upRequired, s)
    else
      match assertionCandidates S s.store request with
      | .error e => (.error e, s)
      | .ok [] => (.error .noCredentials, s)
      | .ok (first :: rest) =>
        let out := signAssertion K S fault s.store first request.rpId.val request.clientDataHash uv
        let s := { s with store := out.store, signed := s.signed ++ out.signed.toList }
        match out.response with
        | .error e => (.error e, s)
        | .ok response =>
          let count := numberOfCredentials (first :: rest).length (request.allowList ≠ [])
          let pending := PendingAssertion.begin channel (first :: rest) request.rpId
            request.clientDataHash uv
          (.ok { response with numberOfCredentials := count },
            { s with assertion := some pending })

/-- `GetNextAssertion`: sign for the next credential of the pending assertion. -/
def getNextAssertion (fault : φ) (s : FidoSession σ) (channel : UInt32) :
    Except Ctap2Status GetAssertionResponse × FidoSession σ :=
  match s.assertion with
  | none => (.error .noCredentials, s)
  | some pending =>
    match pending.next channel with
    | none => (.error .noCredentials, s)
    | some (credentialId, pending) =>
      let out := signAssertion K S fault s.store credentialId pending.rpId.val
        pending.clientDataHash pending.uv
      (out.response,
        { store := out.store, assertion := some pending, signed := s.signed ++ out.signed.toList })

def u2f (fault : φ) (s : FidoSession σ) (request : List UInt8) (up : Bool) :
    U2fResponse × FidoSession σ :=
  let out := u2fHandle K S fault request s.store up
  (out.response, { s with store := out.store, signed := s.signed ++ out.signed.toList })

def step (s : FidoSession σ) : SignRequest φ → FidoSession σ
  | .getAssertion channel request authorized up fault =>
    (getAssertion K S fault s channel request authorized up).2
  | .getNextAssertion channel fault => (getNextAssertion K S fault s channel).2
  | .u2f request up fault => (u2f K S fault s request up).2

def start (store : σ) : FidoSession σ := ⟨store, none, []⟩

end FidoSession

/-! ## A credential of `example.com`

  For runs on concrete inputs: the private key is `11…11`, the client data hash `22…22`, the
  challenge `33…33`. -/

def exampleCredential : Credential where
  id := ⟨List.replicate 32 0xAA, by decide⟩
  rpId := ⟨[0x65, 0x78, 0x61, 0x6D, 0x70, 0x6C, 0x65, 0x2E, 0x63, 0x6F, 0x6D], by decide⟩
  userId := ⟨[0x01], by decide⟩
  privateKey := FixedBytes.fill 32 0x11
  algorithm := .es256
  signCount := 0
  discoverable := true

def exampleRpHash : FixedBytes 32 :=
  ⟨toBE 32 0xa379a6f6eeafb9a55e378c118034e2751e682fab9f2d30ab13d2125586ce1947, by decide⟩

def exampleClientDataHash : FixedBytes 32 := FixedBytes.fill 32 0x22

/-- A U2F sign request for the credential with an application parameter. -/
def exampleMessage (application : List UInt8) : List UInt8 :=
  [0x00, 0x02, 0x03, 0x00, 0x00, 0x00, 0x61] ++ List.replicate 32 0x33 ++ application ++
    [0x20] ++ exampleCredential.id.val

/-- The messages of the runs below and their deterministic ECDSA signatures over P-256. -/
def exampleSignatures : List (List UInt8 × List UInt8) :=
  [(exampleRpHash.val ++ [0x01] ++ toBE 4 1 ++ exampleClientDataHash.val,
    toBE 70 0x304402206a874653f3a5842c0ac17bcd33511dada71c0f2d867edd5f44573991f9bd47440220673f4a2670ffc9846a638d9cec6cab72366d166a7e5d23920bafea0c5e6a8a90),
   (exampleRpHash.val ++ [0x01] ++ toBE 4 2 ++ exampleClientDataHash.val,
    toBE 71 0x30450220435d96540661389cebdf6d36d52a22b31ae1a4acda6145a1ae77128b4fdb1ea1022100a620435dee8e637fb2f98dc81e7f276dd29ed5b5e344e9e82afc01f78ca1350b),
   (exampleRpHash.val ++ [0x01] ++ toBE 4 3 ++ exampleClientDataHash.val,
    toBE 72 0x3046022100fb85170048d793a1e35e41b2e5434556046f1fafe56d16d6f04da2f62ab42049022100ddca0e3135df0b07b40b8fa968143df1f19356651159361be083dfaaa5836581),
   (u2fMessage exampleRpHash.val 0 (List.replicate 32 0x33),
    toBE 70 0x304402206fe1bdd24ea31d4ada41f8ba2f69d08ea6238b79b99fe07abb953ae4fd4b0d7d022063ecdf7fb5e3f4631fa2bf2b9c0178ca36cc1c73a65dfac45cdc5dd3b0744a7e),
   (u2fMessage exampleRpHash.val 2 (List.replicate 32 0x33),
    toBE 72 0x3046022100cdda80b284ac86f11eabc9872100bb1999d6422cb5ce55a59d2aceb63917089a02210093214ef7b2997dec9d48eaf212a8c598e08998e3f8cec907c3d921976a7602b4),
   (u2fMessage (List.replicate 32 0) 1 (List.replicate 32 0x33),
    toBE 70 0x3044022072c39035f777848ecfb0cff4fbf62c6131329be4f3e944c3990ae238d9ea568502200ce7e6f0fe077222d76518b7b9c7fe9eddf8987bb43a247ea73dfbd8debac7fd)]

/-- The hash and the signatures of these inputs. -/
def exampleCrypto : Crypto where
  sha256 data := if data = exampleCredential.rpId.val then exampleRpHash else FixedBytes.zero 32
  es256 key message :=
    if key = exampleCredential.privateKey then exampleSignatures.lookup message else none
  eddsa _ _ := []

/-! ### One challenge on both interfaces -/

def oneCredential : Cache := ⟨[exampleCredential], by decide⟩

def exampleChallenge : FixedBytes 32 := FixedBytes.fill 32 0x33

/-- A sign request for the challenge with the application of `example.com`. -/
def exampleApdu : Apdu where
  cla := 0x00
  ins := insAuthenticate
  p1 := authEnforce
  p2 := 0x00
  data := exampleChallenge.val ++ exampleRpHash.val ++ [0x20] ++ exampleCredential.id.val

/-- The hash of `example.com` and the signatures of both messages for the counter 1. -/
def bothCrypto : Crypto where
  sha256 data := if data = exampleCredential.rpId.val then exampleRpHash else FixedBytes.zero 32
  es256 key message :=
    if key = exampleCredential.privateKey then
      [(exampleRpHash.val ++ [0x01] ++ toBE 4 1 ++ exampleChallenge.val,
        toBE 70 0x3044022079766371093f65826fe9c57d2c6ccfc68b8fdc66fc13bd77dda11e1ef5f79f8f022071d78d17069c1e0ce4497d7e4efae7c932059d52102793aa2c8ff619bacb5d90),
       (u2fMessage exampleRpHash.val 1 exampleChallenge.val,
        toBE 70 0x304402206c15884391452527515273c357738d0c38c979ccec8f49912897eadcb0bd117a02204cf7281dbc2e96d26fb745c29bcf3942b36ad0ed06d9ff4fee788b29cc930bc3)].lookup message
    else none
  eddsa _ _ := []

/-- The signature made by the U2F request, and the one by the assertion. -/
def u2fSigned : Signed :=
  ⟨exampleCredential, u2fMessage exampleRpHash.val 1 exampleChallenge.val, true⟩

def assertionSigned : Signed :=
  ⟨exampleCredential, exampleRpHash.val ++ [0x01] ++ toBE 4 1 ++ exampleChallenge.val, false⟩

theorem u2f_message_ne_assertion_message_example :
    (authenticate bothCrypto memoryStore () exampleApdu oneCredential true).signed =
      some u2fSigned ∧
    u2fSigned.message = 0x00 :: assertionSigned.message := by
  have hu2f : (authenticate bothCrypto memoryStore () exampleApdu oneCredential true).signed =
      some u2fSigned := by
    decide +kernel
  exact ⟨hu2f, (u2f_message_ne_assertion_message bothCrypto memoryStore () () oneCredential
    oneCredential exampleApdu
    ⟨exampleChallenge.val, exampleRpHash.val, exampleCredential.id.val⟩ exampleCredential.id.val
    exampleCredential.rpId.val exampleChallenge 1 u2fSigned assertionSigned (by rfl)
    (by decide +kernel) rfl (by decide +kernel) hu2f (by decide +kernel)
    (by decide +kernel)).2.1⟩

/-- The same credential, application, challenge and counter, and two messages. -/
theorem u2f_and_assertion_messages_differ :
    (authenticate bothCrypto memoryStore () exampleApdu oneCredential true).signed.map
      Signed.message ≠
    (signAssertion bothCrypto memoryStore () oneCredential exampleCredential.id.val
      exampleCredential.rpId.val exampleChallenge false).signed.map Signed.message ∧
    ((authenticate bothCrypto memoryStore () exampleApdu oneCredential true).response.data.drop
      1).take 4 = toBE 4 1 ∧
    (memoryStore.nextSignCount () oneCredential exampleCredential.id.val).1 = some 1 := by
  decide +kernel

end AegisToken
