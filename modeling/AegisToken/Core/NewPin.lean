/-
  Which new PINs are accepted (aegis-core pin.rs `set_pin`, `change_pin`).
  The plaintext of `newPinEnc` is accepted if and only if it carries a PIN (`Carries`): at least
  four characters, none of them zero, and zeros up to 64 bytes, at least one. Both calls accept the
  same plaintexts, store the hash of the PIN with all retries, and leave everything as it was
  otherwise (`new_pin_accepted_iff`).
-/
import AegisToken.Lib.Utf8
import AegisToken.Core.CredentialCodec
import AegisToken.Core.PinBudget
import AegisToken.Core.PinChange

namespace AegisToken
open ByteCodec Wire

namespace ClientPin

/-! ## The plaintext -/

/-- A plaintext carries a PIN: its characters, at least four and none of them zero, and then zeros
  up to 64 bytes, at least one. -/
def Carries (plain pin : List UInt8) : Prop :=
  plain.length = 64 ∧ 0 ∉ pin ∧ (∃ chars : List Char, 4 ≤ chars.length ∧ pin = utf8Bytes chars) ∧
    ∃ zeros, 0 < zeros ∧ plain = pin ++ List.replicate zeros 0

/-- A text of at least four code points, by its bytes and by its characters. -/
theorem four_chars_iff {pin : List UInt8} :
    (isUtf8 pin = true ∧ 4 ≤ charCount pin) ↔
      ∃ chars : List Char, 4 ≤ chars.length ∧ pin = utf8Bytes chars := by
  rw [isUtf8_iff]
  constructor
  · rintro ⟨⟨chars, rfl⟩, hfr⟩
    rw [charCount, count_starts] at hfr
    exact ⟨chars, hfr, rfl⟩
  rintro ⟨chars, hfr, rfl⟩
  refine ⟨⟨chars, rfl⟩, ?_⟩
  rw [charCount, count_starts]
  exact hfr

theorem carries_iff {plain pin : List UInt8} :
    Carries plain pin ↔ plain = padded pin ∧ pin.length ≤ 63 ∧ 0 ∉ pin ∧ isUtf8 pin = true ∧
      4 ≤ charCount pin := by
  rw [Carries, ← four_chars_iff]
  constructor
  · rintro ⟨hl, hzr, hfr, zeros, hp, rfl⟩
    rw [List.length_append, List.length_replicate] at hl
    have hzs : zeros = 64 - pin.length := by omega
    exact ⟨by rw [padded, hzs], by omega, hzr, hfr⟩
  · rintro ⟨rfl, hl, hzr, hfr⟩
    exact ⟨length_padded hl, hzr, hfr, 64 - pin.length, by omega, rfl⟩

/-- A plaintext whose zeros go on to the end, from the first one. -/
theorem padded_of_terminated {plain : List UInt8} (hl : plain.length = 64) {n : Nat}
    (hfr : plain.findIdx? (· = 0) = some n) (hrs : (plain.drop n).any (· ≠ 0) = false) :
    plain = padded (plain.take n) ∧ (plain.take n).length ≤ 63 ∧ 0 ∉ plain.take n := by
  obtain ⟨hlt, -, hf⟩ := List.findIdx?_eq_some_iff_getElem.mp hfr
  have htk : (plain.take n).length = n := List.length_take_of_le (by omega)
  refine ⟨?_, by omega, ?_⟩
  · have hzs : plain.drop n = List.replicate (64 - n) 0 := by
      refine List.eq_replicate_iff.mpr ⟨by rw [List.length_drop, hl], fun b hb => ?_⟩
      have hb' := List.any_eq_false.mp hrs b hb
      simpa using hb'
    rw [padded, htk, ← hzs, List.take_append_drop]
  · intro hm
    obtain ⟨i, hi, hzr⟩ := List.getElem_of_mem hm
    rw [List.getElem_take] at hzr
    have hne := hf i (by omega)
    simp [hzr] at hne

/-- `set_pin` and `change_pin` read a PIN if and only if the plaintext carries it. -/
theorem newPin_iff {K : PinCrypto} {secret : FixedBytes 32} {newPinEnc pin : List UInt8} :
    newPin K secret newPinEnc = .ok pin ↔ Carries (K.decryptCbc secret newPinEnc) pin := by
  rw [carries_iff]
  have hkp := K.length_decryptCbc secret newPinEnc
  generalize hpl : K.decryptCbc secret newPinEnc = plain at hkp ⊢
  constructor
  · intro h
    simp only [newPin, aesCbcDecrypt] at h
    split at h
    · cases h
    simp only [bind, Except.bind, hpl] at h
    split at h
    · cases h
    next hl =>
    rcases hfr : plain.findIdx? (· = 0) with _ | n
    · simp [hfr, required] at h
    simp only [hfr, required] at h
    split at h
    · cases h
    next hrs =>
    split at h
    · cases h
    next hu8 =>
    split at h
    · cases h
    next hfo =>
    obtain rfl := Except.ok.inj h
    obtain ⟨hp, hsh, hzr⟩ := padded_of_terminated (not_not.mp hl) hfr (Bool.eq_false_iff.mpr hrs)
    exact ⟨hp, hsh, hzr, Bool.of_not_eq_false hu8, Nat.le_of_not_lt hfo⟩
  · rintro ⟨rfl, hsh, hzr, hu8, hfo⟩
    have hl := length_padded hsh
    have hne : newPinEnc ≠ [] := by
      rintro rfl
      rw [hl] at hkp
      cases hkp
    have hd : aesCbcDecrypt K secret newPinEnc 96 = .ok (padded pin) := by
      rw [aesCbcDecrypt, if_neg (by simp [hne]; omega), hpl]
    have hrs : ¬ ((padded pin).drop pin.length).any (· ≠ 0) = true := by
      rw [padded]
      simp
    have htk : (padded pin).take pin.length = pin := List.take_left' rfl
    simp only [newPin, hd, bind, Except.bind, findIdx_padded hsh hzr, required, htk]
    rw [if_neg (not_not.mpr hl), if_neg hrs, if_neg (by simp [hu8]), if_neg (by omega)]

/-! ## The two calls -/

/-- The checks of `set_pin` before the new PIN is decrypted are passed: a key agreement, and the
  parameter is the HMAC of the encrypted PIN. -/
structure SetReady (K : PinCrypto) (c : ClientPin) (request : ClientPinRequest)
    (secret : FixedBytes 32) (newPinEnc : BoundedBytes 96) : Prop where
  agreed : shared K c request = .ok secret
  carried : request.newPinEnc = some newPinEnc
  auth : ∃ param, request.pinUvAuthParam = some param ∧
    ctEqPrefix (K.hmacSha256 secret newPinEnc.val) param.val = true

/-- A call decides by the plaintext: it returns `Ok` exactly if that carries a PIN, and then the
  hash of the PIN and all retries are stored; otherwise nothing changes. -/
structure DecidesBy {σ : Type} (K : PinCrypto) (P : PinState σ) (x : PinSession σ) (call : PinCall)
    (result : Except Ctap2Status Unit) (plain : List UInt8) : Prop where
  accepted : result = .ok () ↔ ∃ pin, Carries plain pin
  stored : ∀ pin, Carries plain pin →
    P.pinHash (step K P x call).state = some (AegisToken.pinHash K pin) ∧
      P.pinRetries (step K P x call).state = 8
  rejected : result ≠ .ok () → step K P x call = x

end ClientPin

namespace SealedCredentialStore

def FlushesSucceed (s : SealedCredentialStore) : Prop :=
  ∀ db f, (s.flush db).2.result f = .ok ()

variable {s : SealedCredentialStore}

/-- Under shortest forms every database fits, so every flush succeeds. -/
theorem flushesSucceed_of_minimal (h : s.cbor.Minimal) :
    s.FlushesSucceed := by
  intro db f
  rw [s.flush_result, if_pos (Database.fits_of_minimal h _)]

theorem FlushesSucceed.setPinHash (h : s.FlushesSucceed) (x : PinFlash) (hash : FixedBytes 32) :
    ∃ y, s.sealedPin.setPinHash x hash = (.ok (), y) ∧ y.db.pinHash = some hash ∧
      y.db.pinRetries = 8 :=
  ⟨_, Prod.ext (h _ _) rfl, rfl, rfl⟩

theorem FlushesSucceed.setPinRetries (h : s.FlushesSucceed) (x : PinFlash) (retries : UInt8) :
    ∃ y, s.sealedPin.setPinRetries x retries = (.ok (), y) ∧ y.db.pinHash = x.db.pinHash ∧
      y.db.pinRetries = retries :=
  ⟨_, Prod.ext (h _ _) rfl, rfl, rfl⟩

end SealedCredentialStore

namespace ClientPin
open SealedCredentialStore

section Calls
variable {K : PinCrypto} {c : ClientPin} {request : ClientPinRequest} {secret : FixedBytes 32}
  {newPinEnc : BoundedBytes 96}

theorem SetReady.setPinRequest (h : SetReady K c request secret newPinEnc) :
    setPinRequest K c request = newPin K secret newPinEnc.val := by
  obtain ⟨param, hpr, hmac⟩ := h.auth
  simp only [ClientPin.setPinRequest, h.agreed, h.carried, hpr, required, bind, Except.bind]
  rw [if_neg (by simp [hmac])]

/-- A call that does what the PIN read from the plaintext says. -/
theorem decidesBy_of_newPin {σ : Type} {P : PinState σ} {x : PinSession σ} {call : PinCall}
    {result : Except Ctap2Status Unit}
    (heo : ∀ e, newPin K secret newPinEnc.val = .error e → result = .error e ∧ step K P x call = x)
    (hok : ∀ pin, newPin K secret newPinEnc.val = .ok pin → result = .ok () ∧
      P.pinHash (step K P x call).state = some (AegisToken.pinHash K pin) ∧
      P.pinRetries (step K P x call).state = 8) :
    DecidesBy K P x call result (K.decryptCbc secret newPinEnc.val) where
  accepted := by
    constructor
    · rintro rfl
      rcases hn : newPin K secret newPinEnc.val with e | pin
      · cases (heo e hn).1
      · exact ⟨pin, newPin_iff.mp hn⟩
    · rintro ⟨pin, hp⟩
      exact (hok pin (newPin_iff.mpr hp)).1
  stored pin hp := (hok pin (newPin_iff.mpr hp)).2
  rejected := by
    intro hr
    rcases hn : newPin K secret newPinEnc.val with e | pin
    · exact (heo e hn).2
    · exact absurd (hok pin hn).1 hr

theorem setPin_decides {s : SealedCredentialStore} (h : s.FlushesSucceed)
    {x : PinSession PinFlash} (hun : x.state.db.pinHash = none)
    (hrd : SetReady K x.client request secret newPinEnc) :
    DecidesBy K s.sealedPin x (.setPin request)
      (setPin K s.sealedPin x.client x.state request).1 (K.decryptCbc secret newPinEnc.val) := by
  have hs : ¬ (s.sealedPin.pinHash x.state).isSome := by
    rw [show s.sealedPin.pinHash x.state = none from hun]
    decide
  apply decidesBy_of_newPin
  · intro e hn
    have hcl : setPin K s.sealedPin x.client x.state request = (.error e, x.state) := by
      simp only [setPin, if_neg hs, hrd.setPinRequest, hn]
    simp only [step, hcl]
    exact ⟨trivial, trivial⟩
  · intro pin hn
    obtain ⟨y, hwr, hhs, hr⟩ := h.setPinHash x.state (AegisToken.pinHash K pin)
    have hcl : setPin K s.sealedPin x.client x.state request = (.ok (), y) := by
      simp only [setPin, if_neg hs, hrd.setPinRequest, hn, hwr]
    simp only [step, hcl]
    exact ⟨trivial, hhs, hr⟩

theorem changePin_decides {s : SealedCredentialStore} (h : s.FlushesSucceed)
    {x : PinSession PinFlash}
    (hrg : RightPin K s.sealedPin x.client x.state request secret newPinEnc) :
    DecidesBy K s.sealedPin x (.changePin request)
      (changePin K s.sealedPin x.client x.state request).1 (K.decryptCbc secret newPinEnc.val) := by
  have hcl := changePin_right hrg
  apply decidesBy_of_newPin
  · intro e hn
    rw [hn] at hcl
    simp only [step, hcl]
    exact ⟨trivial, trivial⟩
  intro pin hn
  obtain ⟨y, hwr, hhs, -⟩ := h.setPinHash x.state (AegisToken.pinHash K pin)
  obtain ⟨z, hr, hkp, ht⟩ := h.setPinRetries y defaultRetries
  rw [hn] at hcl
  simp only [rotatePin, hwr, hr] at hcl
  simp only [step, hcl]
  exact ⟨trivial, hkp.trans hhs, ht⟩

end Calls

/-- `set_pin` on a store without a PIN and `change_pin` with the right current PIN decide by the
  plaintext of the new PIN, in the same way. -/
theorem new_pin_accepted_iff (K : PinCrypto) (s : SealedCredentialStore) (h : s.FlushesSucceed)
    (x : PinSession PinFlash) (request : ClientPinRequest) (secret : FixedBytes 32)
    (newPinEnc : BoundedBytes 96) :
    (x.state.db.pinHash = none → SetReady K x.client request secret newPinEnc →
      DecidesBy K s.sealedPin x (.setPin request)
        (setPin K s.sealedPin x.client x.state request).1 (K.decryptCbc secret newPinEnc.val)) ∧
    (RightPin K s.sealedPin x.client x.state request secret newPinEnc →
      DecidesBy K s.sealedPin x (.changePin request)
        (changePin K s.sealedPin x.client x.state request).1
        (K.decryptCbc secret newPinEnc.val)) :=
  ⟨fun hunset hready => setPin_decides h hunset hready, fun hright => changePin_decides h hright⟩

def withoutPin : PinFlash := ⟨FlashProg.blank, Database.initial, true, 0⟩

def withPin : PinFlash :=
  { withoutPin with db := { Database.initial with pinHash := some examplePinHash } }

/-- The PIN `1234` is set, and changed to `5678`. -/
theorem new_pin_accepted_iff_1234 :
    (setPin enrolCrypto sectorStore.sealedPin beforeEnrolment.client withoutPin
        exampleSetPin).1 = .ok () ∧
      (changePin changeCrypto sectorStore.sealedPin tokenHolder withPin exampleChange).1 =
        .ok () := by
  have hflush : sectorStore.FlushesSucceed := flushesSucceed_of_minimal Cbor.heads_minimal
  have hset := (new_pin_accepted_iff enrolCrypto sectorStore hflush
    ⟨beforeEnrolment.client, withoutPin⟩ exampleSetPin exampleShared exampleNewPinEnc).1 rfl
    ⟨by decide +kernel, rfl, _, rfl, by decide +kernel⟩
  have hchange := (new_pin_accepted_iff changeCrypto sectorStore hflush ⟨tokenHolder, withPin⟩
    exampleChange exampleShared changedPinEnc).2
    ⟨examplePinHash, examplePinHashEnc, rfl, nofun, by decide +kernel, by decide +kernel⟩
  exact ⟨hset.accepted.mpr ⟨examplePin.val, newPin_iff.mp (by decide +kernel)⟩,
    hchange.accepted.mpr ⟨changedPin, newPin_iff.mp (by decide +kernel)⟩⟩

end ClientPin

end AegisToken
