/-
  What a wrong PIN and a rotated PIN leave (aegis-core pin.rs).
  `get_pin_token` and `change_pin` answer a wrong PIN with the same status and the same retries
  left, but only `change_pin` drops the key agreement and the token (`wrong_pin_paths`).
  `change_pin` writes the hash and then the retries. If the second write fails, the new PIN is
  stored, an error is returned and the token lives on; otherwise a new PIN leaves no older token
  alive, in any later run (`rotation_safe_iff`).
-/
import AegisToken.Core.PinGuesses

namespace AegisToken
open ByteCodec

/-- A PIN state that a failing write leaves as it is, and that gives back what was written. -/
structure PinState.Atomic {σ : Type} (P : PinState σ) : Prop where
  hash_error : ∀ {s h e s'}, P.setPinHash s h = (.error e, s') → s' = s
  hash_ok : ∀ {s h s'}, P.setPinHash s h = (.ok (), s') → P.pinHash s' = some h
  retries_error : ∀ {s n e s'}, P.setPinRetries s n = (.error e, s') → s' = s
  retries_ok : ∀ {s n s'}, P.setPinRetries s n = (.ok (), s') →
    P.pinRetries s' = n ∧ P.pinHash s' = P.pinHash s

namespace ClientPin

section Facts
variable {σ : Type} {K : PinCrypto} {P : PinState σ} {c : ClientPin} {s : σ}

/-! ## A wrong PIN -/

/-- A `get_pin_token` that reaches the comparison with the stored PIN, and fails it. -/
def WrongTokenPin (K : PinCrypto) (P : PinState σ) (c : ClientPin) (s : σ)
    (request : ClientPinRequest) : Prop :=
  ∃ storedHash permissions secret pinHashEnc, P.pinHash s = some storedHash ∧
    P.pinRetries s ≠ 0 ∧ tokenRequest K c request = .ok (permissions, secret, pinHashEnc) ∧
    provesPin K secret pinHashEnc.val storedHash = .ok false

theorem spendRetry_spent (hwr : P.WritesSucceed) (hP : P.Atomic) (hlf : P.pinRetries s ≠ 0) :
    ∃ e s', spendRetry P s = (.ok e, s') ∧ P.pinRetries s' = P.pinRetries s - 1 ∧
      P.pinHash s' = P.pinHash s := by
  obtain ⟨s', hwt⟩ := hwr.retries s (P.pinRetries s - 1)
  refine ⟨if P.pinRetries s - 1 = 0 then .pinBlocked else .pinInvalid, s', ?_, hP.retries_ok hwt⟩
  simp only [spendRetry, if_neg hlf, hwt]

variable {request : ClientPinRequest} {token : FixedBytes 32}

theorem getPinToken_wrong {e : Ctap2Status} {s' : σ} (h : WrongTokenPin K P c s request)
    (hsp : spendRetry P s = (.ok e, s')) :
    getPinToken K P c s request token = (.error e, c, s') := by
  obtain ⟨storedHash, permissions, secret, pinHashEnc, hhs, hlf, hr, hpr⟩ := h
  simp only [getPinToken, hhs, if_neg hlf, hr, hpr, hsp]

/-- A key agreement was established, or the request would not have been compared. -/
theorem WrongPin.agreement (h : WrongPin K P c s request) :
    c.agreementPrivate ≠ none := by
  obtain ⟨storedHash, secret, newPinEnc, pinHashEnc, -, -, hr, -⟩ := h
  have hsh := (changeRequest_ok hr).1
  intro hno
  rcases hk : request.keyAgreement with _ | key
  · rw [shared, hk] at hsh
    cases hsh
  · rw [shared, hk, hno] at hsh
    cases hsh

/-- A wrong PIN costs one retry and gets the same answer in both calls. `change_pin` leaves a new
  handler, so that no request finds a key agreement; `get_pin_token` leaves the handler as it was,
  which never agrees on the key agreement, and on the token only if none was active. -/
theorem wrong_pin_paths (K : PinCrypto) (P : PinState σ) (hwrites : P.WritesSucceed)
    (hP : P.Atomic) (c : ClientPin) (s : σ) (tokenRequest changeRequest : ClientPinRequest)
    (token : FixedBytes 32) (htoken : WrongTokenPin K P c s tokenRequest)
    (hchange : WrongPin K P c s changeRequest) :
    (∃ e, (getPinToken K P c s tokenRequest token).1 = .error e ∧
      (changePin K P c s changeRequest).1 = .error e) ∧
    (getPinToken K P c s tokenRequest token).2.2 = (changePin K P c s changeRequest).2.2 ∧
    P.pinRetries (changePin K P c s changeRequest).2.2 = P.pinRetries s - 1 ∧
    P.pinHash (changePin K P c s changeRequest).2.2 = P.pinHash s ∧
    (changePin K P c s changeRequest).2.1 = ClientPin.new ∧
    (∀ request, ∃ e, shared K (changePin K P c s changeRequest).2.1 request = .error e) ∧
    (getPinToken K P c s tokenRequest token).2.1 = c ∧
    (getPinToken K P c s tokenRequest token).2.1 ≠ (changePin K P c s changeRequest).2.1 ∧
    ((changePin K P c s changeRequest).2.1 =
        { (getPinToken K P c s tokenRequest token).2.1 with agreementPrivate := none } ↔
      c.invalidateToken = c) := by
  have hleft : P.pinRetries s ≠ 0 := by
    obtain ⟨_, _, _, _, -, hleft, -⟩ := hchange
    exact hleft
  obtain ⟨e, s', hspend, hretries, hhash⟩ := spendRetry_spent hwrites hP hleft
  have hfirst : getPinToken K P c s tokenRequest token = (.error e, c, s') :=
    getPinToken_wrong htoken hspend
  have hsecond : changePin K P c s changeRequest = (.error e, ClientPin.new, s') := by
    rw [changePin_wrong hchange]
    simp only [wrongCurrentPin, hspend]
    rfl
  rw [hfirst, hsecond]
  refine ⟨⟨e, rfl, rfl⟩, rfl, hretries, hhash, rfl, ?_, rfl, ?_, ?_⟩
  · intro request
    rcases hkey : request.keyAgreement with _ | key
    · exact ⟨.missingParameter, by rw [shared, hkey]; rfl⟩
    · exact ⟨.invalidParameter, by rw [shared, hkey]; rfl⟩
  · intro heq
    have hnone : c.agreementPrivate = none := congrArg ClientPin.agreementPrivate heq
    exact hchange.agreement hnone
  · obtain ⟨agreement, active, permissions, rpId⟩ := c
    simp [ClientPin.new, invalidateToken, eq_comm]

/-! ## A rotated PIN -/

/-- `change_pin` stops between its writes: the hash of another PIN is stored, and then the retries
  cannot be written. -/
def HalfRotated (K : PinCrypto) (P : PinState σ) (c : ClientPin) (s : σ)
    (request : ClientPinRequest) : Prop :=
  ∃ secret newPinEnc pin s', RightPin K P c s request secret newPinEnc ∧
    newPin K secret newPinEnc.val = .ok pin ∧
    P.setPinHash s (AegisToken.pinHash K pin) = (.ok (), s') ∧
    (P.setPinRetries s' defaultRetries).1 ≠ .ok () ∧
    P.pinHash s ≠ some (AegisToken.pinHash K pin)

/-- The three ends of a rotation: nothing is written, only the hash is, or both are. -/
theorem rotatePin_cases (hP : P.Atomic) (c : ClientPin) (s : σ) (pin : List UInt8) :
    (∃ e, rotatePin K P c s pin = (.error e, c, s)) ∨
    (∃ s' e, P.setPinHash s (AegisToken.pinHash K pin) = (.ok (), s') ∧
      (P.setPinRetries s' defaultRetries).1 ≠ .ok () ∧
      rotatePin K P c s pin = (.error e, c, s')) ∨
    ∃ s', rotatePin K P c s pin = (.ok (), c.invalidateToken, s') := by
  unfold rotatePin
  rcases hhs : P.setPinHash s (AegisToken.pinHash K pin) with ⟨e | ⟨⟩, s'⟩
  · rw [hP.hash_error hhs]
    exact .inl ⟨.other, rfl⟩
  simp only
  rcases hr : P.setPinRetries s' defaultRetries with ⟨e | ⟨⟩, s''⟩
  · refine .inr (.inl ⟨s', .other, rfl, ?_, ?_⟩)
    · rw [hr]
      nofun
    · rw [hP.retries_error hr]
  · exact .inr (.inr ⟨s'', rfl⟩)

/-- Half a rotation returns an error, under another hash and with the handler as it was. -/
theorem HalfRotated.changePin (hP : P.Atomic) (h : HalfRotated K P c s request) :
    ∃ e s', changePin K P c s request = (.error e, c, s') ∧ P.pinHash s' ≠ P.pinHash s := by
  obtain ⟨secret, newPinEnc, pin, s', hrg, hn, hhs, hr, hoh⟩ := h
  have hs := hP.hash_ok hhs
  refine ⟨.other, s', ?_, fun heq => hoh (heq.symm.trans hs)⟩
  rw [changePin_right hrg, hn]
  simp only [rotatePin, hhs]
  rcases hwr : P.setPinRetries s' defaultRetries with ⟨e | ⟨⟩, s''⟩
  · rw [hP.retries_error hwr]
  · rw [hwr] at hr
    exact absurd rfl hr

/-- Spending a retry leaves the hash, also when it cannot be written. -/
theorem spendRetry_hash (hP : P.Atomic) (s : σ) : P.pinHash (spendRetry P s).2 = P.pinHash s := by
  have hwr : ∀ n, P.pinHash (P.setPinRetries s n).2 = P.pinHash s := by
    intro n
    rcases hs : P.setPinRetries s n with ⟨e | ⟨⟩, s'⟩
    · exact congrArg P.pinHash (hP.retries_error hs)
    · exact (hP.retries_ok hs).2
  unfold spendRetry
  simp only
  split
  · next hs => exact (congrArg (fun x => P.pinHash x.2) hs).symm.trans (hwr _)
  · next hs => exact (congrArg (fun x => P.pinHash x.2) hs).symm.trans (hwr _)

/-- Otherwise an error leaves the hash, and a success drops the token. -/
theorem changePin_whole (hP : P.Atomic) (h : ¬ HalfRotated K P c s request) :
    (∃ e, (changePin K P c s request).1 = .error e ∧
      P.pinHash (changePin K P c s request).2.2 = P.pinHash s) ∨
    (changePin K P c s request).1 = .ok () ∧
      (changePin K P c s request).2.1 = c.invalidateToken := by
  rcases changePin_outcome K P c s request with hwr | ⟨secret, newPinEnc, hrg⟩ | ⟨e, hr⟩
  · rw [changePin_wrong hwr]
    have hsm := spendRetry_hash hP s
    unfold wrongCurrentPin
    revert hsm
    rcases spendRetry P s with ⟨e | e, s'⟩ <;> exact fun hsm => .inl ⟨e, rfl, hsm⟩
  · rw [changePin_right hrg]
    rcases hn : newPin K secret newPinEnc.val with e | pin
    · exact .inl ⟨e, rfl, rfl⟩
    simp only
    rcases rotatePin_cases hP c s pin with ⟨e, heq⟩ | ⟨s', e, hhs, ht, heq⟩ | ⟨s', heq⟩
    · rw [heq]
      exact .inl ⟨e, rfl, rfl⟩
    · rw [heq]
      refine .inl ⟨e, rfl, ?_⟩
      -- the two writes came apart, so the new PIN is the old one
      by_contra hne
      have hoh : P.pinHash s ≠ some (AegisToken.pinHash K pin) := by
        intro hsm
        exact hne ((hP.hash_ok hhs).trans hsm.symm)
      exact h ⟨secret, newPinEnc, pin, s', hrg, hn, hhs, ht, hoh⟩
    · rw [heq]
      exact .inr ⟨rfl, rfl⟩
  · rw [hr]
    exact .inl ⟨e, rfl, rfl⟩

/-! ## Tokens in later runs -/

theorem changePin_token (request : ClientPinRequest)
    (h : (changePin K P c s request).2.1.pinUvAuthToken = some token) :
    c.pinUvAuthToken = some token := by
  rcases changePin_outcome K P c s request with hwr | ⟨secret, newPinEnc, hrg⟩ | ⟨e, hr⟩
  · rw [changePin_wrong hwr, wrongCurrentPin] at h
    split at h
    · exact h
    · cases h
  · rw [changePin_right hrg] at h
    split at h
    · exact h
    unfold rotatePin at h
    split at h
    · exact h
    · split at h
      · exact h
      · cases h
  · rw [hr] at h
    exact h

variable {x : PinSession σ}

/-- After a call the active token is the one before it, or the one the call issues. -/
theorem step_token {call : PinCall}
    (h : (step K P x call).client.pinUvAuthToken = some token) :
    x.client.pinUvAuthToken = some token ∨ ∃ request, call = .getPinToken request token := by
  cases call with
  | keyAgreement rng => exact .inl ((keyAgreement_same K x.client rng).1.symm.trans h)
  | setPin request => exact .inl h
  | changePin request => exact .inl (changePin_token request h)
  | getPinToken request fresh =>
    have hca : (getPinToken K P x.client x.state request fresh).2.1.pinUvAuthToken = some token :=
      h
    rcases getPinToken_cases request fresh with
      ⟨_, _, _, _, _, -, -, -, -, hcl⟩ | ⟨_, -, hcl⟩
    · rw [hcl] at hca
      exact .inr ⟨request, by rw [Option.some.inj hca]⟩
    · rw [hcl] at hca
      exact .inl hca
  | authorize request =>
    have hca : (authorize K P x.client x.state request).2.pinUvAuthToken = some token := h
    rcases authorize_cases x.client x.state request with
      ⟨param, c', -, -, -, hop, hah⟩ | ⟨-, hsm⟩
    · rw [hah] at hca
      rcases checkOperation_client hop with ⟨rfl, -⟩ | ⟨rpId, bound, -, rfl, -⟩ <;> exact .inl hca
    · rw [hsm] at hca
      exact .inl hca
  | closeUserPresenceOperation tokenUsed succeeded =>
    have hca : (x.client.closeUserPresenceOperation tokenUsed succeeded).pinUvAuthToken =
        some token := h
    unfold closeUserPresenceOperation at hca
    split at hca <;> exact .inl hca
  | invalidateToken => cases h

/-- After a run the active token is the one before it, or one issued in the run. -/
theorem run_token {calls : List PinCall}
    (h : (Runs.run (step K P) x calls).client.pinUvAuthToken = some token) :
    x.client.pinUvAuthToken = some token ∨ ∃ request, .getPinToken request token ∈ calls := by
  induction calls generalizing x with
  | nil => exact .inl h
  | cons call calls ih =>
    rcases ih h with ha | ⟨request, hm⟩
    · rcases step_token ha with hb | ⟨request, rfl⟩
      · exact .inl hb
      · exact .inr ⟨request, List.mem_cons_self⟩
    · exact .inr ⟨request, List.mem_cons_of_mem call hm⟩

/-- Once no token is active, what a later run accepts was made with a token issued in it. -/
theorem granted_issued (hno : x.client.pinUvAuthToken = none)
    {calls : List PinCall} {auth : TokenRequest} {param : List UInt8}
    (hpr : auth.param = some param)
    (hgr : (authorize K P (Runs.run (step K P) x calls).client
      (Runs.run (step K P) x calls).state auth).1 = .ok true) :
    ∃ grant token, .getPinToken grant token ∈ calls ∧ IsMacPrefix K token auth.message param := by
  rcases authorize_cases (Runs.run (step K P) x calls).client
      (Runs.run (step K P) x calls).state auth with
    ⟨param', c', hpr', -, hv, -, -⟩ | ⟨hr, -⟩
  · obtain rfl : param = param' := Option.some.inj (hpr.symm.trans hpr')
    obtain ⟨token, ha, hmac⟩ := verifyPinUvAuthParam_iff.mp hv
    rcases run_token ha with hb | ⟨grant, hm⟩
    · rw [hno] at hb
      cases hb
    · exact ⟨grant, token, hm, hmac⟩
  · exact absurd hgr hr

/-- An error of `change_pin` leaves the stored hash exactly if the rotation was not cut in half.
  Then a changed hash ends every older token: what any later run accepts was made with a token
  issued in that run. In half a rotation the hash is another and the handler is as before. -/
theorem rotation_safe_iff (K : PinCrypto) (P : PinState σ) (hP : P.Atomic) (c : ClientPin) (s : σ)
    (request : ClientPinRequest) :
    (((changePin K P c s request).1 ≠ .ok () →
        P.pinHash (changePin K P c s request).2.2 = P.pinHash s) ↔
      ¬ HalfRotated K P c s request) ∧
    (¬ HalfRotated K P c s request →
      P.pinHash (changePin K P c s request).2.2 ≠ P.pinHash s →
      ∀ (calls : List PinCall) (auth : TokenRequest) (param : List UInt8),
        auth.param = some param →
        (authorize K P (Runs.run (step K P) (step K P ⟨c, s⟩ (.changePin request)) calls).client
          (Runs.run (step K P) (step K P ⟨c, s⟩ (.changePin request)) calls).state auth).1 =
            .ok true →
        ∃ grant token, .getPinToken grant token ∈ calls ∧
          IsMacPrefix K token auth.message param) ∧
    (HalfRotated K P c s request →
      P.pinHash (changePin K P c s request).2.2 ≠ P.pinHash s ∧
        (changePin K P c s request).2.1 = c) := by
  refine ⟨⟨fun hkeeps hhalf => ?_, fun hwhole herror => ?_⟩, ?_, fun hhalf => ?_⟩
  · obtain ⟨e, s', heq, hother⟩ := hhalf.changePin hP
    rw [heq] at hkeeps
    exact hother (hkeeps nofun)
  · rcases changePin_whole hP hwhole with ⟨e, -, hsame⟩ | ⟨hok, -⟩
    · exact hsame
    · exact absurd hok herror
  · intro hwhole hother calls auth param hparam hgranted
    have hdropped : (step K P ⟨c, s⟩ (.changePin request)).client.pinUvAuthToken = none := by
      show (changePin K P c s request).2.1.pinUvAuthToken = none
      rcases changePin_whole hP hwhole with ⟨e, -, hsame⟩ | ⟨-, hclient⟩
      · exact absurd hsame hother
      · rw [hclient]
        rfl
    exact granted_issued hdropped hparam hgranted
  · obtain ⟨e, s', heq, hother⟩ := hhalf.changePin hP
    rw [heq]
    exact ⟨hother, rfl⟩

end Facts

/-! ### The PIN `1234`, a guess `0000` and a new PIN `5678`

  The keys and the token are those of the token for `example.com`. -/

/-- The SHA-256 of `5678` zero-padded to 64 bytes. -/
def changedPinHash : FixedBytes 32 :=
  ⟨toBE 32 0xc2952a3a9c2b377d71b5f63a4e20abf351beca7c51b4158bf92f4d8f2836a45b, by decide⟩

/-- The padded new PIN, encrypted under the shared secret. -/
def changedPinEnc : BoundedBytes 96 :=
  ⟨toBE 32 0x0d592b9388c46fa8f18e47320f86ab3c9d08308d1f59c72e75c8273146394868 ++
    toBE 32 0x95166966f1a974cc5a50fa3463d4090a499f1d0d77269a9b8233286226b0f989, by decide⟩

def changedPin : List UInt8 := [0x35, 0x36, 0x37, 0x38]

/-- The first half of the hash of `0000`, encrypted under the shared secret. -/
def guessedHashEnc : BoundedBytes 32 := ⟨toBE 16 0x99267b5f6021b97b230a6245cf75a5cb, by decide⟩

/-- The values of the primitives on the inputs of these calls. -/
def changeCrypto : PinCrypto where
  sha256 data := if data = padded changedPin then changedPinHash else FixedBytes.zero 32
  es256 _ _ := none
  eddsa _ _ := []
  hmacSha256 key message :=
    if key = exampleShared ∧ message = guessedHashEnc.val then
      ⟨toBE 32 0x0fa0f4cadf91d653ee1210cd53b98f3c8fb6bb87f64fc6e6a41c1a9f2ecbbd14, length_toBE ..⟩
    else if key = exampleShared ∧ message = changedPinEnc.val ++ guessedHashEnc.val then
      ⟨toBE 32 0xbd3d36e0568b5e8e298f47e6399f69a07953ea3dbffb39ed8c3634a9418079f5, length_toBE ..⟩
    else if key = exampleShared ∧ message = changedPinEnc.val ++ examplePinHashEnc.val then
      ⟨toBE 32 0xc8aa73f7b88c8302d6970cfc1ecf7528cb28cfe52bcdc37c9195208e82667cd7, length_toBE ..⟩
    else examplePinCrypto.hmacSha256 key message
  encryptCbc := examplePinCrypto.encryptCbc
  decryptCbc key data :=
    if key = exampleShared ∧ data = changedPinEnc.val then padded changedPin
    else if key = exampleShared ∧ data = guessedHashEnc.val then
      toBE 16 0x095d416b93fbf8e5cc3da16ed99a231a
    else examplePinCrypto.decryptCbc key data
  isSecretKey _ := true
  publicKey := examplePinCrypto.publicKey
  isPublicKey _ := true
  diffieHellman _ _ := exampleShared
  length_encryptCbc := examplePinCrypto.length_encryptCbc
  length_decryptCbc key data := by
    iterate 2
      split
      · next h =>
        rw [h.2]
        decide
    · exact examplePinCrypto.length_decryptCbc key data

def tokenHolder : ClientPin := ⟨some examplePrivateKey, some exampleToken, permissionGa, none⟩

def guessToken : ClientPinRequest where
  subCommand := subGetPinToken
  keyAgreement := some examplePlatformKey
  pinUvAuthParam := some ⟨toBE 16 0x0fa0f4cadf91d653ee1210cd53b98f3c, by decide⟩
  newPinEnc := none
  pinHashEnc := some guessedHashEnc
  permissions := none
  rpId := none

/-- A request for the new PIN, with the guess as the current one. -/
def guessChange : ClientPinRequest where
  subCommand := 0x04
  keyAgreement := some examplePlatformKey
  pinUvAuthParam := some ⟨toBE 16 0xbd3d36e0568b5e8e298f47e6399f69a0, by decide⟩
  newPinEnc := some changedPinEnc
  pinHashEnc := some guessedHashEnc
  permissions := none
  rpId := none

/-- A request for the new PIN, with the right current one. -/
def exampleChange : ClientPinRequest where
  subCommand := 0x04
  keyAgreement := some examplePlatformKey
  pinUvAuthParam := some ⟨toBE 16 0xc8aa73f7b88c8302d6970cfc1ecf7528, by decide⟩
  newPinEnc := some changedPinEnc
  pinHashEnc := some examplePinHashEnc
  permissions := none
  rpId := none

theorem memoryPin_atomic : memoryPin.Atomic where
  hash_error := nofun
  hash_ok := by
    rintro s h s' ⟨⟩
    rfl
  retries_error := nofun
  retries_ok := by
    rintro s n s' ⟨⟩
    exact ⟨rfl, rfl⟩

theorem wrong_pin_paths_0000 :
    (getPinToken changeCrypto memoryPin tokenHolder (some examplePinHash, 8) guessToken
        exampleToken).2.1 = tokenHolder ∧
      (changePin changeCrypto memoryPin tokenHolder (some examplePinHash, 8) guessChange).2.1 =
        ClientPin.new := by
  have hpaths := wrong_pin_paths changeCrypto memoryPin
    ⟨fun _ _ => ⟨_, rfl⟩, fun _ _ => ⟨_, rfl⟩⟩ memoryPin_atomic tokenHolder
    (some examplePinHash, 8) guessToken guessChange exampleToken
    ⟨examplePinHash, defaultPermissions, exampleShared, guessedHashEnc, rfl, nofun,
      by decide +kernel, by decide +kernel⟩
    ⟨examplePinHash, exampleShared, changedPinEnc, guessedHashEnc, rfl, nofun,
      by decide +kernel, by decide +kernel⟩
  exact ⟨hpaths.2.2.2.2.2.2.1, hpaths.2.2.2.2.1⟩

/-- After the guess in `get_pin_token` the key agreement is still there and the token is accepted;
  after the one in `change_pin` neither. -/
theorem token_survives_guess :
    (getPinToken changeCrypto memoryPin tokenHolder (some examplePinHash, 8) guessToken
        exampleToken).1 = .error .pinInvalid ∧
      (changePin changeCrypto memoryPin tokenHolder (some examplePinHash, 8) guessChange).1 =
        .error .pinInvalid ∧
      (getPinToken changeCrypto memoryPin tokenHolder (some examplePinHash, 8) guessToken
        exampleToken).2 = (tokenHolder, some examplePinHash, 7) ∧
      (changePin changeCrypto memoryPin tokenHolder (some examplePinHash, 8) guessChange).2 =
        (ClientPin.new, some examplePinHash, 7) ∧
      (authorize changeCrypto memoryPin tokenHolder (some examplePinHash, 7)
        exampleAuthorization).1 = .ok true ∧
      (authorize changeCrypto memoryPin ClientPin.new (some examplePinHash, 7)
        exampleAuthorization).1 = .error .pinAuthInvalid := by
  decide +kernel

/-- A PIN state in memory whose retries cannot be written. -/
def stuckPin : PinState (Option (FixedBytes 32) × UInt8) :=
  { memoryPin with setPinRetries := fun s _ => (.error .storageError, s) }

theorem stuckPin_atomic : stuckPin.Atomic where
  hash_error := nofun
  hash_ok := by
    rintro s h s' ⟨⟩
    rfl
  retries_error := by
    rintro s n e s' ⟨⟩
    rfl
  retries_ok := nofun

theorem rotation_safe_iff_5678 :
    stuckPin.pinHash (changePin changeCrypto stuckPin tokenHolder (some examplePinHash, 8)
        exampleChange).2.2 ≠ some examplePinHash ∧
      (changePin changeCrypto stuckPin tokenHolder (some examplePinHash, 8) exampleChange).2.1 =
        tokenHolder :=
  (rotation_safe_iff changeCrypto stuckPin stuckPin_atomic tokenHolder (some examplePinHash, 8)
    exampleChange).2.2
    ⟨exampleShared, changedPinEnc, changedPin, (some changedPinHash, 8),
      ⟨examplePinHash, examplePinHashEnc, rfl, nofun, by decide +kernel, by decide +kernel⟩,
      by decide +kernel, by decide +kernel, nofun, by decide +kernel⟩

/-- The call returns an error, the stored hash is that of `5678`, and the token from before is
  accepted. -/
theorem token_outlives_half_rotation :
    changePin changeCrypto stuckPin tokenHolder (some examplePinHash, 8) exampleChange =
        (.error .other, tokenHolder, some changedPinHash, 8) ∧
      (authorize changeCrypto stuckPin tokenHolder (some changedPinHash, 8)
        exampleAuthorization).1 = .ok true := by
  decide +kernel

end ClientPin

end AegisToken
