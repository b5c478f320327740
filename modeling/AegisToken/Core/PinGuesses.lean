import AegisToken.Core.TokenAuthority

/-
  What `clientPIN` calls do to the PIN state.
  A call is a guess when it reaches the comparison of the decrypted PIN hash with the stored one
  (`guess`). `PinEffect` lists what a call can leave, by the kind of guess it is, and `step_effect`
  says that there is nothing else; every property of the PIN state over runs comes from that.
  The first one is about enrolment: the hash stored for a PIN is that of the PIN padded to 64
  bytes, so the proof a platform makes from the PIN itself is compared with another hash
  (`token_after_enrolment`).
-/

namespace AegisToken
open ByteCodec Wire

/-- A PIN state gives back the hash that was written, and writing retries leaves the hash. -/
structure PinState.ReadsBack {σ : Type} (P : PinState σ) : Prop where
  hash : ∀ s h, P.pinHash (P.setPinHash s h).2 = some h
  retries : ∀ s n, P.pinHash (P.setPinRetries s n).2 = P.pinHash s

namespace ClientPin

/-! ## Guesses -/

section Guesses
variable {σ : Type} (K : PinCrypto) (P : PinState σ)

/-- What the comparison says, if the checks before it are passed. -/
def compared (s : PinSession σ)
    (checks : Except Ctap2Status (FixedBytes 32 × BoundedBytes 32)) : Option Bool :=
  match P.pinHash s.state with
  | none => none
  | some storedHash =>
    if P.pinRetries s.state = 0 then none
    else
      match checks with
      | .error _ => none
      | .ok (secret, pinHashEnc) => (provesPin K secret pinHashEnc.val storedHash).toOption

/-- Whether a call is a guess, and a right one. -/
def guess (s : PinSession σ) : PinCall → Option Bool
  | .getPinToken request _ =>
    compared K P s ((tokenRequest K s.client request).map fun x => (x.2.1, x.2.2))
  | .changePin request =>
    compared K P s ((changeRequest K s.client request).map fun x => (x.1, x.2.2))
  | _ => none

/-- What a call can leave of a PIN state, by the guess it is. -/
inductive PinEffect (s : σ) : Option Bool → σ → Prop
  | same (g : Option Bool) (hg : g ≠ some false) : PinEffect s g s
  | enrolled (pin : List UInt8) (hnone : P.pinHash s = none) :
      PinEffect s none (P.setPinHash s (AegisToken.pinHash K pin)).2
  | wrong (hsome : (P.pinHash s).isSome = true) (hleft : P.pinRetries s ≠ 0) :
      PinEffect s (some false) (P.setPinRetries s (P.pinRetries s - 1)).2
  | right (hsome : (P.pinHash s).isSome = true) :
      PinEffect s (some true) (P.setPinRetries s defaultRetries).2
  | rotated (pin : List UInt8) :
      PinEffect s (some true)
        (P.setPinRetries (P.setPinHash s (AegisToken.pinHash K pin)).2 defaultRetries).2
  | rotationCut (pin : List UInt8) :
      PinEffect s (some true) (P.setPinHash s (AegisToken.pinHash K pin)).2

end Guesses

section Effects
variable {σ : Type} {K : PinCrypto} {P : PinState σ}

theorem spendRetry_state {s : σ} (h : P.pinRetries s ≠ 0) :
    (spendRetry P s).2 = (P.setPinRetries s (P.pinRetries s - 1)).2 := by
  simp only [spendRetry, if_neg h]
  rcases P.setPinRetries s (P.pinRetries s - 1) with ⟨e | u, s'⟩ <;> rfl

theorem setPin_effect (c : ClientPin) (s : σ) (request : ClientPinRequest) :
    PinEffect K P s none (setPin K P c s request).2 := by
  unfold setPin
  rcases hhs : P.pinHash s with _ | stored
  · rcases setPinRequest K c request with e | pin
    · exact .same none (by simp)
    have he : PinEffect K P s none (P.setPinHash s (AegisToken.pinHash K pin)).2 :=
      .enrolled pin hhs
    revert he
    rw [if_neg nofun]
    dsimp only
    rcases P.setPinHash s (AegisToken.pinHash K pin) with ⟨e | u, s'⟩ <;> exact id
  · exact .same none (by simp)

theorem getPinToken_effect (s : PinSession σ) (request : ClientPinRequest)
    (token : FixedBytes 32) :
    PinEffect K P s.state (guess K P s (.getPinToken request token))
      (getPinToken K P s.client s.state request token).2.2 := by
  unfold getPinToken guess compared
  rcases hhs : P.pinHash s.state with _ | stored
  · exact .same none (by simp)
  simp only
  by_cases hlf : P.pinRetries s.state = 0
  · rw [if_pos hlf, if_pos hlf]
    exact .same none (by simp)
  rw [if_neg hlf, if_neg hlf]
  have hsm : (P.pinHash s.state).isSome = true := by simp [hhs]
  rcases tokenRequest K s.client request with e | ⟨permissions, secret, pinHashEnc⟩
  · exact .same none (by simp)
  simp only [Except.map]
  rcases provesPin K secret pinHashEnc.val stored with e | _ | _
  · exact .same none (by simp)
  · have he := PinEffect.wrong (K := K) hsm hlf
    rw [← spendRetry_state hlf] at he
    revert he
    rcases spendRetry P s.state with ⟨e | e, s'⟩ <;> exact id
  · have he := PinEffect.right (K := K) hsm
    revert he
    rcases P.setPinRetries s.state defaultRetries with ⟨e | u, s'⟩ <;> exact id

theorem rotatePin_effect (c : ClientPin) (s : σ) (pin : List UInt8) :
    PinEffect K P s (some true) (rotatePin K P c s pin).2.2 := by
  have hc := PinEffect.rotationCut (K := K) (P := P) (s := s) pin
  have hfl := PinEffect.rotated (K := K) (P := P) (s := s) pin
  unfold rotatePin
  revert hc hfl
  rcases P.setPinHash s (AegisToken.pinHash K pin) with ⟨e | u, s'⟩
  · exact fun hc _ => hc
  · dsimp only
    rcases P.setPinRetries s' defaultRetries with ⟨e | u, s''⟩ <;> exact fun _ hfl => hfl

theorem changePin_effect (s : PinSession σ) (request : ClientPinRequest) :
    PinEffect K P s.state (guess K P s (.changePin request))
      (changePin K P s.client s.state request).2.2 := by
  unfold changePin guess compared
  rcases hhs : P.pinHash s.state with _ | stored
  · exact .same none (by simp)
  simp only
  by_cases hlf : P.pinRetries s.state = 0
  · rw [if_pos hlf, if_pos hlf]
    exact .same none (by simp)
  rw [if_neg hlf, if_neg hlf]
  have hsm : (P.pinHash s.state).isSome = true := by simp [hhs]
  rcases changeRequest K s.client request with e | ⟨secret, newPinEnc, pinHashEnc⟩
  · exact .same none (by simp)
  simp only [Except.map]
  rcases provesPin K secret pinHashEnc.val stored with e | _ | _
  · exact .same none (by simp)
  · have he := PinEffect.wrong (K := K) hsm hlf
    rw [← spendRetry_state hlf] at he
    simp only [wrongCurrentPin]
    revert he
    rcases spendRetry P s.state with ⟨e | e, s'⟩ <;> exact id
  · rcases newPin K secret newPinEnc.val with e | pin
    · exact .same _ (by simp [Except.toOption])
    · exact rotatePin_effect s.client s.state pin

/-- A call leaves the PIN state as it was, or changes it as the guess it is allows. -/
theorem step_effect (s : PinSession σ) (call : PinCall) :
    PinEffect K P s.state (guess K P s call) (step K P s call).state := by
  cases call with
  | setPin request => exact setPin_effect s.client s.state request
  | getPinToken request token => exact getPinToken_effect s request token
  | changePin request => exact changePin_effect s request
  | keyAgreement rng | authorize request | closeUserPresenceOperation tokenUsed succeeded =>
    exact .same none (by simp)
  | invalidateToken => exact .same none (by simp)

theorem guess_of_blocked {s : PinSession σ} (h : P.pinRetries s.state = 0) (call : PinCall) :
    guess K P s call = none := by
  have hc : ∀ checks, compared K P s checks = none := by
    intro checks
    unfold compared
    rcases P.pinHash s.state with _ | stored
    · rfl
    · exact if_pos h
  cases call with
  | getPinToken request token | changePin request => exact hc _
  | setPin request => rfl
  | keyAgreement rng => rfl
  | authorize request => rfl
  | closeUserPresenceOperation tokenUsed succeeded => rfl
  | invalidateToken => rfl

/-- Without retries left both requests that could be a guess are answered with `PinBlocked`. -/
theorem pinBlocked_of_blocked {c : ClientPin} {s : σ} (hs : (P.pinHash s).isSome = true)
    (h : P.pinRetries s = 0) (request : ClientPinRequest) (token : FixedBytes 32) :
    getPinToken K P c s request token = (.error .pinBlocked, c, s) ∧
      changePin K P c s request = (.error .pinBlocked, c, s) := by
  obtain ⟨stored, ht⟩ := Option.isSome_iff_exists.mp hs
  simp [getPinToken, changePin, ht, h]

/-- What both writes keep, every effect keeps. -/
theorem PinEffect.keep {I : σ → Prop} (hhs : ∀ s h, I s → I (P.setPinHash s h).2)
    (hr : ∀ s n, I s → I (P.setPinRetries s n).2) {s s' : σ} {g : Option Bool}
    (h : PinEffect K P s g s') (hs : I s) : I s' := by
  cases h with
  | same g hg => exact hs
  | enrolled pin hno | rotationCut pin => exact hhs s _ hs
  | wrong hsm hlf | right hsm => exact hr s _ hs
  | rotated pin => exact hr _ _ (hhs s _ hs)

end Effects

/-! ## Enrolment -/

/-- A PIN: text of at least four code points and at most 63 bytes, without a zero byte. -/
abbrev PinText :=
  { pin : List UInt8 // isUtf8 pin = true ∧ 4 ≤ charCount pin ∧ pin.length ≤ 63 ∧ 0 ∉ pin }

/-- A PIN as it is sent: zero-padded to 64 bytes. -/
def padded (pin : List UInt8) : List UInt8 := pin ++ List.replicate (64 - pin.length) 0

/-- `LEFT(SHA-256(data), 16)`. -/
def leftHash (K : PinCrypto) (data : List UInt8) : List UInt8 := (K.sha256 data).val.take 16

section Enrolment
variable {σ : Type} (K : PinCrypto) (P : PinState σ)

/-- The encrypted new PIN of a request decrypts to a padded PIN. -/
def CarriesPin (c : ClientPin) (request : ClientPinRequest) (pin : List UInt8) : Prop :=
  ∃ secret newPinEnc, shared K c request = .ok secret ∧ request.newPinEnc = some newPinEnc ∧
    K.decryptCbc secret newPinEnc.val = padded pin

/-- A successful `setPIN` or `changePIN` for a PIN. -/
def Enrols (s : PinSession σ) (pin : List UInt8) : PinCall → Prop
  | .setPin request =>
    (setPin K P s.client s.state request).1 = .ok () ∧ CarriesPin K s.client request pin
  | .changePin request =>
    (changePin K P s.client s.state request).1 = .ok () ∧ CarriesPin K s.client request pin
  | _ => False

def KeepsPin (s : PinSession σ) (call : PinCall) : Prop :=
  P.pinHash (step K P s call).state = P.pinHash s.state

/-- A token request with retries left, a valid key agreement and a valid HMAC, whose PIN hash
  decrypts to `proof`, while the retries can be written. -/
def Presents (s : PinSession σ) (request : ClientPinRequest) (proof : List UInt8) : Prop :=
  P.pinRetries s.state ≠ 0 ∧ (P.setPinRetries s.state defaultRetries).1 = .ok () ∧
    ∃ permissions secret pinHashEnc,
      tokenRequest K s.client request = .ok (permissions, secret, pinHashEnc) ∧
      K.decryptCbc secret pinHashEnc.val = proof

def TokenIssued (s : PinSession σ) (request : ClientPinRequest) (token : FixedBytes 32) : Prop :=
  (∃ response, (getPinToken K P s.client s.state request token).1 = .ok response) ∧
    (getPinToken K P s.client s.state request token).2.1.pinUvAuthToken = some token

end Enrolment

section EnrolmentFacts
variable {σ : Type} {K : PinCrypto} {P : PinState σ} {pin q : List UInt8}

theorem length_padded (h : pin.length ≤ 63) : (padded pin).length = 64 := by
  simp only [padded, List.length_append, List.length_replicate]
  omega

theorem padded_ne {pin pin' : List UInt8} (h : pin.length ≤ 63) (h' : pin'.length ≤ 63) :
    pin' ≠ padded pin := by
  intro heq
  have hl := congrArg List.length heq
  rw [length_padded h] at hl
  omega

theorem pinHash_eq (h : pin.length ≤ 63) :
    AegisToken.pinHash K pin = K.sha256 (padded pin) := by
  rw [AegisToken.pinHash, padded, List.take_of_length_le (by omega)]

/-- The terminator of a padded PIN is found where the PIN ends. -/
theorem findIdx_padded (h : pin.length ≤ 63) (hzr : 0 ∉ pin) :
    (padded pin).findIdx? (· = 0) = some pin.length := by
  have hp : pin.findIdx? (· = 0) = none := by
    rw [List.findIdx?_eq_none_iff]
    intro b hb
    simp only [decide_eq_false_iff_not]
    rintro rfl
    exact hzr hb
  obtain ⟨n, hn⟩ : ∃ n, 64 - pin.length = n + 1 := ⟨63 - pin.length, by omega⟩
  rw [padded, hn, List.findIdx?_append, hp, List.replicate_succ, List.findIdx?_cons]
  simp

variable {request : ClientPinRequest} {secret : FixedBytes 32}

theorem newPin_padded {newPinEnc pin q : List UInt8}
    (hd : K.decryptCbc secret newPinEnc = padded pin) (h : pin.length ≤ 63) (hzr : 0 ∉ pin)
    (hq : newPin K secret newPinEnc = .ok q) : q = pin := by
  have htk : (padded pin).take pin.length = pin := List.take_left' rfl
  simp only [newPin, aesCbcDecrypt] at hq
  split at hq
  · cases hq
  simp only [bind, Except.bind, hd, length_padded h, findIdx_padded h hzr, required, htk] at hq
  rw [if_neg (by simp)] at hq
  iterate 3
    split at hq
    · cases hq
  · exact (Except.ok.inj hq).symm

variable {c : ClientPin}

theorem setPinRequest_ok (h : setPinRequest K c request = .ok q) :
    ∃ secret newPinEnc, shared K c request = .ok secret ∧ request.newPinEnc = some newPinEnc ∧
      newPin K secret newPinEnc.val = .ok q := by
  obtain ⟨secret, hsh, h⟩ := ok_of_bind h
  obtain ⟨newPinEnc, he, h⟩ := ok_of_bind h
  obtain ⟨auth, -, h⟩ := ok_of_bind h
  split at h
  · cases h
  · exact ⟨secret, newPinEnc, hsh, required_eq_ok.mp he, h⟩

theorem changeRequest_ok {newPinEnc : BoundedBytes 96}
    {pinHashEnc : BoundedBytes 32}
    (h : changeRequest K c request = .ok (secret, newPinEnc, pinHashEnc)) :
    shared K c request = .ok secret ∧ request.newPinEnc = some newPinEnc := by
  obtain ⟨secret, hsh, h⟩ := ok_of_bind h
  obtain ⟨newPinEnc, he, h⟩ := ok_of_bind h
  obtain ⟨pinHashEnc, -, h⟩ := ok_of_bind h
  obtain ⟨auth, -, h⟩ := ok_of_bind h
  split at h
  · cases h
  split at h
  · cases h
  · cases h
    exact ⟨hsh, required_eq_ok.mp he⟩

/-- What carries a padded PIN carries it under its own shared secret. -/
theorem CarriesPin.newPin (h : CarriesPin K c request pin) (hl : pin.length ≤ 63) (hzr : 0 ∉ pin)
    {newPinEnc : BoundedBytes 96} (hsh : shared K c request = .ok secret)
    (he : request.newPinEnc = some newPinEnc) (hq : newPin K secret newPinEnc.val = .ok q) :
    q = pin := by
  obtain ⟨secret', newPinEnc', hsh', he', hd⟩ := h
  rw [hsh] at hsh'
  cases hsh'
  rw [he] at he'
  cases he'
  exact newPin_padded hd hl hzr hq

/-- A rotation stores the hash of the new PIN also when the retries cannot be written. -/
theorem rotatePin_hash (hP : P.ReadsBack) (c : ClientPin) (s : σ) (pin : List UInt8) :
    P.pinHash (rotatePin K P c s pin).2.2 = some (AegisToken.pinHash K pin) := by
  have hrd := hP.hash s (AegisToken.pinHash K pin)
  unfold rotatePin
  rcases hs : P.setPinHash s (AegisToken.pinHash K pin) with ⟨e | u, s'⟩
  · rw [hs] at hrd
    exact hrd
  rw [hs] at hrd
  have hkp := hP.retries s' defaultRetries
  simp only
  rcases hr : P.setPinRetries s' defaultRetries with ⟨e | u, s''⟩
  · rw [hr] at hkp
    exact hkp.trans hrd
  · rw [hr] at hkp
    exact hkp.trans hrd

/-- After an enrolment the stored hash is that of the padded PIN. -/
theorem Enrols.pinHash (hP : P.ReadsBack) {s : PinSession σ} {pin : PinText} {call : PinCall}
    (h : Enrols K P s pin.val call) :
    P.pinHash (step K P s call).state = some (K.sha256 (padded pin.val)) := by
  obtain ⟨-, -, hl, hzr⟩ := pin.property
  rw [← pinHash_eq hl]
  cases call with
  | setPin request =>
    obtain ⟨hok, hc⟩ := h
    obtain ⟨q, hr, hst⟩ := setPin_ok hok
    obtain ⟨secret, newPinEnc, hsh, he, hq⟩ := setPinRequest_ok hr
    obtain rfl := hc.newPin hl hzr hsh he hq
    show P.pinHash (setPin K P s.client s.state request).2 = _
    rw [hst]
    exact hP.hash _ _
  | changePin request =>
    obtain ⟨hok, hc⟩ := h
    obtain ⟨secret, newPinEnc, q, ⟨_, _, _, _, hr, _⟩, hq, ht⟩ := changePin_ok hok
    obtain ⟨hsh, he⟩ := changeRequest_ok hr
    obtain rfl := hc.newPin hl hzr hsh he hq
    show P.pinHash (changePin K P s.client s.state request).2.2 = _
    rw [ht]
    exact rotatePin_hash hP ..
  | keyAgreement rng | getPinToken request token | authorize request | invalidateToken =>
    exact absurd h id
  | closeUserPresenceOperation tokenUsed succeeded => exact absurd h id

/-- A presented proof is accepted when it is the first half of the stored hash. -/
theorem tokenIssued_iff (token : FixedBytes 32) {s : PinSession σ} {proof : List UInt8}
    {stored : FixedBytes 32} (h : Presents K P s request proof) (hl : proof.length = 16)
    (hhs : P.pinHash s.state = some stored) :
    TokenIssued K P s request token ↔ proof = stored.val.take 16 := by
  obtain ⟨hlf, hwr, permissions, secret, pinHashEnc, hr, hd⟩ := h
  have he : pinHashEnc.val.length = 16 := by
    rw [← K.length_decryptCbc secret, hd, hl]
  have hp : provesPin K secret pinHashEnc.val stored = .ok (ctEq proof (stored.val.take 16)) := by
    have hne : pinHashEnc.val ≠ [] := by
      intro hn
      rw [hn] at he
      cases he
    simp only [provesPin, aesCbcDecrypt]
    rw [if_neg (by simp [hne, he])]
    simp only [bind, Except.bind, hd, hl, List.take_of_length_le (Nat.le_of_eq hl)]
    simp
  unfold TokenIssued getPinToken
  simp only [hhs, if_neg hlf, hr, hp]
  by_cases heq : proof = stored.val.take 16
  · obtain ⟨response, hrs⟩ := tokenResponse_ok K secret token
    rw [ctEq_iff.mpr heq]
    rcases hs : P.setPinRetries s.state defaultRetries with ⟨e | u, s'⟩
    · rw [hs] at hwr
      cases hwr
    · simp [hrs, heq]
  · have hfl : ctEq proof (stored.val.take 16) = false := by
      rw [← Bool.not_eq_true, ctEq_iff]
      exact heq
    rw [hfl]
    simp only [iff_false_right heq, not_and_or]
    refine .inl ?_
    rintro ⟨response, hrs⟩
    split at hrs <;> cases hrs

/-- After the enrolment of a PIN, while no other PIN is stored, a token request with the proof
  `LEFT(SHA-256(pin'), 16)` is accepted if and only if this is the start of the hash of the
  padded PIN. Unless the two hashes collide it is refused, for the enrolled PIN too. -/
theorem token_after_enrolment (K : PinCrypto) (P : PinState σ) (hP : P.ReadsBack)
    (s₀ : PinSession σ) (pin pin' : PinText) (enrol : PinCall)
    (henrol : Enrols K P s₀ pin.val enrol) (calls : List PinCall)
    (hcalls : Runs.Every (step K P) (KeepsPin K P) (step K P s₀ enrol) calls)
    (request : ClientPinRequest) (token : FixedBytes 32)
    (hrequest : Presents K P (Runs.run (step K P) (step K P s₀ enrol) calls) request
      (leftHash K pin'.val)) :
    (TokenIssued K P (Runs.run (step K P) (step K P s₀ enrol) calls) request token ↔
      leftHash K pin'.val = leftHash K (padded pin.val)) ∧
    ((leftHash K pin'.val = leftHash K (padded pin.val) → pin'.val = padded pin.val) →
      ¬ TokenIssued K P (Runs.run (step K P) (step K P s₀ enrol) calls) request token) := by
  have hhash : P.pinHash (Runs.run (step K P) (step K P s₀ enrol) calls).state =
      some (K.sha256 (padded pin.val)) := by
    refine Runs.Every.keep (I := fun s => P.pinHash s.state = some (K.sha256 (padded pin.val)))
      ?_ (henrol.pinHash hP) hcalls
    intro s call hs hkeep
    exact hkeep.trans hs
  have hlen : (leftHash K pin'.val).length = 16 := by
    simp [leftHash, (K.sha256 pin'.val).property]
  have hiff := tokenIssued_iff token hrequest hlen hhash
  refine ⟨hiff, fun hfree hissued => ?_⟩
  exact padded_ne pin.property.2.2.1 pin'.property.2.2.1 (hfree (hiff.mp hissued))

/-! ### The PIN `1234`

  The keys are those of the token for `example.com`. -/

theorem memoryPin_readsBack : memoryPin.ReadsBack := ⟨fun _ _ => rfl, fun _ _ => rfl⟩

def examplePin : PinText := ⟨[0x31, 0x32, 0x33, 0x34], by decide⟩

/-- The padded PIN, encrypted under the shared secret. -/
def exampleNewPinEnc : BoundedBytes 96 :=
  ⟨toBE 64 0x140a6719bd0986c9bc4fbe8c7b00d707dc57811b28385dbc22337886a0077f97f03fe32fc48d4addcec3371f3f71e4c8194366b81390ca86f7aecd4da94d22c7, by decide⟩

/-- The SHA-256 of `1234`. -/
def exampleBareHash : FixedBytes 32 :=
  ⟨toBE 32 0x03ac674216f3e15c761ee1a5e255f067953623c8b388b4459e13f978d7c846f4, by decide⟩

/-- Its first half, encrypted under the shared secret. -/
def exampleBareHashEnc : BoundedBytes 32 :=
  ⟨toBE 16 0xb2756936b90d1fb590bd6ae537c13f97, by decide⟩

/-- The values of the primitives on the inputs of this run. -/
def enrolCrypto : PinCrypto where
  sha256 data :=
    if data = examplePin.val then exampleBareHash
    else if data = padded examplePin.val then examplePinHash
    else FixedBytes.zero 32
  es256 _ _ := none
  eddsa _ _ := []
  hmacSha256 key message :=
    if key = exampleShared ∧ message = exampleNewPinEnc.val then
      ⟨toBE 32 0xc66c4e3ba7c113710ec1a0fb7675f5f3359caad805b100b2f41db29e433291c7, length_toBE ..⟩
    else if key = exampleShared ∧ message = exampleBareHashEnc.val then
      ⟨toBE 32 0xd2a68300204de2060d47393f5b9abf32bd3a5b182ed9a405b5f5a3c9575f1a42, length_toBE ..⟩
    else FixedBytes.zero 32
  encryptCbc _ data := data
  decryptCbc key data :=
    if key = exampleShared ∧ data = exampleNewPinEnc.val then padded examplePin.val
    else if key = exampleShared ∧ data = exampleBareHashEnc.val then exampleBareHash.val.take 16
    else data
  isSecretKey _ := true
  publicKey secret := if secret = examplePrivateKey then some examplePublicKey else none
  isPublicKey _ := true
  diffieHellman _ _ := exampleShared
  length_encryptCbc _ _ := rfl
  length_decryptCbc key data := by
    iterate 2
      split
      · next h =>
        rw [h.2]
        decide
    · rfl

def exampleSetPin : ClientPinRequest where
  subCommand := 0x03
  keyAgreement := some examplePlatformKey
  pinUvAuthParam := some ⟨toBE 16 0xc66c4e3ba7c113710ec1a0fb7675f5f3, by decide⟩
  newPinEnc := some exampleNewPinEnc
  pinHashEnc := none
  permissions := none
  rpId := none

/-- The token request of a platform that knows the PIN. -/
def exampleProof : ClientPinRequest where
  subCommand := subGetPinToken
  keyAgreement := some examplePlatformKey
  pinUvAuthParam := some ⟨toBE 16 0xd2a68300204de2060d47393f5b9abf32, by decide⟩
  newPinEnc := none
  pinHashEnc := some exampleBareHashEnc
  permissions := none
  rpId := none

/-- A handler with a key agreement, on a device without a PIN. -/
def beforeEnrolment : PinSession (Option (FixedBytes 32) × UInt8) :=
  step enrolCrypto memoryPin (start (none, 8)) (.keyAgreement fun _ => examplePrivateKey)

theorem token_after_enrolment_1234 :
    Presents enrolCrypto memoryPin
      (step enrolCrypto memoryPin beforeEnrolment (.setPin exampleSetPin)) exampleProof
      (leftHash enrolCrypto examplePin.val) ∧
    ¬ TokenIssued enrolCrypto memoryPin
      (step enrolCrypto memoryPin beforeEnrolment (.setPin exampleSetPin)) exampleProof
      exampleToken := by
  have henrol : Enrols enrolCrypto memoryPin beforeEnrolment examplePin.val
      (.setPin exampleSetPin) :=
    ⟨by decide +kernel, exampleShared, exampleNewPinEnc, by decide +kernel, rfl,
      by decide +kernel⟩
  have hpresents : Presents enrolCrypto memoryPin
      (step enrolCrypto memoryPin beforeEnrolment (.setPin exampleSetPin)) exampleProof
      (leftHash enrolCrypto examplePin.val) :=
    ⟨by decide +kernel, rfl, defaultPermissions, exampleShared, exampleBareHashEnc,
      by decide +kernel, by decide +kernel⟩
  exact ⟨hpresents, (token_after_enrolment enrolCrypto memoryPin memoryPin_readsBack
    beforeEnrolment examplePin examplePin (.setPin exampleSetPin) henrol [] trivial exampleProof
    exampleToken hpresents).2 (by decide +kernel)⟩

/-- The PIN `1234` is set, and the proof of a platform that knows it is answered with
  `PinInvalid`. -/
theorem right_pin_refused_after_setPin :
    (setPin enrolCrypto memoryPin beforeEnrolment.client beforeEnrolment.state exampleSetPin).1 =
      .ok () ∧
    enrolCrypto.decryptCbc exampleShared exampleBareHashEnc.val =
      leftHash enrolCrypto examplePin.val ∧
    (getPinToken enrolCrypto memoryPin
      (step enrolCrypto memoryPin beforeEnrolment (.setPin exampleSetPin)).client
      (step enrolCrypto memoryPin beforeEnrolment (.setPin exampleSetPin)).state exampleProof
      exampleToken).1 = .error .pinInvalid := by
  decide +kernel

end EnrolmentFacts

end ClientPin

end AegisToken
