/-
  A SELECT of the OpenPGP card applet that cannot load the state.
  When the store gives nothing, or bytes that are rejected, the applet installs the factory PINs,
  keeps the keys that are in its memory, and answers `9000`. The factory PINs get the session
  floors as their counters, so they are refused exactly when both floors are zero; then nothing
  verifies and no key is used or replaced before the next SELECT.
-/
import AegisToken.Applets.OpenPgpImage

namespace AegisToken.Applets.OpenPgp
open ByteCodec History

variable {σ : Type} {K : PgpCrypto} {S : OpenPgpStore σ} {c : OpenPgp σ}

/-! ## The statement -/

/-- The store gives nothing, or bytes that are rejected. -/
def LoadFails (S : OpenPgpStore σ) (c : OpenPgp σ) : Prop :=
  ∀ bytes, (S.load c.store).1 = some bytes → c.decodeState bytes.val = none

def factoryPin : Pw → List UInt8
  | .pw1 => factoryPw1
  | .pw3 => factoryPw3

theorem factoryPin_ne (pw : Pw) : factoryPin pw ≠ [] := by
  cases pw <;> exact List.cons_ne_nil _ _

def IsFactoryVerify (pw : Pw) (apdu : Apdu) : Prop :=
  apdu.ins = insVerify ∧ Pw.fromReference apdu.p2 = some pw ∧ apdu.data = factoryPin pw

/-- The command uses a private key, or replaces one: a signature, a decryption, an authentication,
  a new key, new algorithm attributes or new decryption material. -/
def TouchesKey (apdu : Apdu) : Prop :=
  isSign apdu ∨ usesOther apdu ∨ isGenerate apdu ∨
    (apdu.ins = insPutData ∧ apdu.tag ∈ [0xC1, 0xC2, 0xC3, 0xD2])

/-- The machine between two SELECTs. -/
def command (K : PgpCrypto) (S : OpenPgpStore σ) (c : OpenPgp σ) (x : Apdu × Rng) :
    Response × OpenPgp σ := c.process K S x.1 x.2

/-- A command that touches a key does not succeed. -/
def KeyKept (e : Entry (OpenPgp σ) (Apdu × Rng) Response)
    (_ : List (Entry (OpenPgp σ) (Apdu × Rng) Response)) : Prop :=
  TouchesKey e.event.1 → e.answer.sw ≠ .ok

/-- The factory PINs are refused, and the commands up to the next SELECT do not get at a key. -/
structure FailClosed (K : PgpCrypto) (S : OpenPgpStore σ) (c : OpenPgp σ) : Prop where
  pins : ∀ pw apdu rng, IsFactoryVerify pw apdu → (c.process K S apdu rng).1.sw ≠ .ok
  keys : ∀ commands, Along KeyKept (history (command K S) c commands)

/-! ## Blocked applets -/

/-- Both PINs are blocked and none is verified. -/
structure Blocked (c : OpenPgp σ) : Prop where
  retries : ∀ pw, (c.slot pw).retriesRemaining = 0
  signature : c.pw1SignatureVerified = false
  other : c.pw1OtherVerified = false
  admin : c.pw3Verified = false

theorem Blocked.not_compares (h : Blocked c) (pw : Pw) : ¬(c.slot pw).Compares :=
  fun hc => hc.2 (h.retries pw)

theorem Blocked.not_accepts (h : Blocked c) (pw : Pw) (pin : List UInt8) :
    ¬(c.slot pw).Accepts K.sha256 pin :=
  fun ha => ha.2 (h.retries pw)

theorem Blocked.persisted (h : Blocked c) : Blocked (c.persistState S).2 := by
  have hfl : (c.persistState S).2.pw1SignatureVerified = c.pw1SignatureVerified ∧
      (c.persistState S).2.pw1OtherVerified = c.pw1OtherVerified ∧
      (c.persistState S).2.pw3Verified = c.pw3Verified := by
    rw [persistState_eq]
    exact ⟨rfl, rfl, rfl⟩
  exact ⟨fun pw => persistState_slot c pw ▸ h.retries pw, hfl.1.trans h.signature,
    hfl.2.1.trans h.other, hfl.2.2.trans h.admin⟩

/-- A blocked applet stays blocked, verifies nothing and touches no key. -/
theorem Blocked.process {c' : OpenPgp σ} {apdu : Apdu} {rng : Rng} {answer : Response}
    (h : Blocked c) (he : Effect K S c apdu rng answer c') :
    (answer.sw = .ok → apdu.ins ≠ insVerify ∧ ¬TouchesKey apdu) ∧ Blocked c' := by
  cases he with
  | idle _ hil =>
    refine ⟨fun hok => ?_, h⟩
    obtain ⟨hvf, -, -, ht, hsg, hgn, hoh⟩ := hil hok
    refine ⟨hvf, ?_⟩
    rintro (hs | hu | hg | ⟨hp, -⟩)
    · exact hsg hs
    · exact Bool.false_ne_true (h.other.symm.trans (hoh hu))
    · exact hgn hg
    · exact ht hp
  | pinAccepted _ _ hac => exact (h.not_accepts _ _ hac).elim
  | pinWrong pw _ hcm => exact (h.not_compares pw hcm).elim
  | pinChanged pw _ _ _ hac =>
    obtain ⟨pin, -, ha⟩ := hac
    exact (h.not_accepts pw pin ha).elim
  | pinUnblocked _ _ _ had | objectPut _ had =>
    exact (Bool.false_ne_true (h.admin.symm.trans had)).elim
  | pinKept _ _ hsw => exact ⟨fun hok => (written_sw_ne hsw hok).elim, h.persisted⟩
  | keyGenerated _ _ _ had => exact (Bool.false_ne_true (h.admin.symm.trans had)).elim
  | signed _ hvr => exact (Bool.false_ne_true (h.signature.symm.trans hvr)).elim

theorem Blocked.failClosed (h : Blocked c) : FailClosed K S c where
  pins _ apdu rng hvr hok := ((h.process (process_effect _ apdu rng)).1 hok).1 hvr.1
  keys := by
    refine along_history_of_all (I := fun c _ => Blocked c) h fun c past x hc => ?_
    obtain ⟨han, hc'⟩ := hc.process (process_effect (K := K) (S := S) _ x.1 x.2)
    exact ⟨fun htc hok => (han hok).2 htc, hc'⟩

/-! ## After a failed load -/

theorem LoadFails.found (h : LoadFails S c) : c.found S = none := by
  unfold OpenPgp.found
  rcases hld : (S.load c.store).1 with _ | bytes
  · rfl
  · have hdc := h bytes hld
    rw [decodeState_eq, Option.map_eq_none_iff] at hdc
    exact hdc

/-- The slots hold the factory PINs, with the floors as their counters. -/
theorem select_failed_slot (hc : WellFormed c) (h : LoadFails S c) (pw : Pw) :
    ((c.select K S).2.slot pw).hash =
        some (PinHash.of K.sha256 (factoryPin pw) ((c.select K S).2.slot pw).policy.format) ∧
      ((c.select K S).2.slot pw).retriesRemaining = min pwPolicy.maxAttempts (c.floor pw) := by
  have hon : WellFormed (c.opened S) := hc.congr (forall_pw rfl rfl) (forall_pw rfl rfl) rfl
  have hsl : (c.select K S).2.slot pw =
      clampToFloor ((c.slot pw).installed K.sha256 (factoryPin pw)) (c.floor pw) := by
    rw [select_missed h.found, provision_eq hon]
    cases pw <;> rfl
  have hpl : (c.slot pw).policy = pwPolicy := (hc.pins pw).1
  have hm : ((c.slot pw).installed K.sha256 (factoryPin pw)).policy.maxAttempts =
      pwPolicy.maxAttempts := congrArg PinPolicy.maxAttempts hpl
  rw [hsl, clampToFloor_eq (hm ▸ hc.floors pw)]
  exact ⟨rfl, congrArg (min · (c.floor pw)) hm⟩

/-- After every run over every store, a SELECT that cannot load the state leaves the factory PINs
  refused and the keys out of reach exactly when both session floors are zero before it. -/
theorem failed_load_closed_iff (K : PgpCrypto) (S : OpenPgpStore σ) (store : σ) (es : List Event)
    (h : LoadFails S (run K S (new store) es)) :
    FailClosed K S ((run K S (new store) es).select K S).2 ↔
      (run K S (new store) es).pw1Floor = 0 ∧ (run K S (new store) es).pw3Floor = 0 := by
  have hc := run_wellFormed (K := K) (S := S) store es
  generalize run K S (new store) es = c at h hc
  constructor
  · intro hclosed
    have hfloor : ∀ pw p2, Pw.fromReference p2 = some pw → c.floor pw = 0 := by
      intro pw p2 href
      by_contra hne
      obtain ⟨hhash, hretries⟩ := select_failed_slot hc h pw
      refine hclosed.pins pw ⟨insVerify, 0, p2, factoryPin pw, none⟩ (fun _ => 0)
        ⟨rfl, href, rfl⟩ ((verify_ok_iff rfl href).mpr ⟨factoryPin_ne pw, hhash, ?_⟩)
      rw [hretries]
      change (if pwPolicy.maxAttempts ≤ c.floor pw then pwPolicy.maxAttempts else c.floor pw) ≠ 0
      split
      · decide
      · exact hne
    exact ⟨hfloor .pw1 0x81 rfl, hfloor .pw3 0x83 rfl⟩
  · rintro ⟨h1, h3⟩
    have hfloor : ∀ pw, c.floor pw = 0 := forall_pw h1 h3
    refine Blocked.failClosed ⟨fun pw => ?_, rfl, rfl, rfl⟩
    rw [(select_failed_slot hc h pw).2, hfloor pw]
    decide

/-! ## Runs on a store that is never read back -/

def unreadable : OpenPgpStore Unit where
  load _ := (none, ())
  save _ _ := (true, ())

theorem loadFails_unreadable (c : OpenPgp Unit) : LoadFails unreadable c := nofun

/-- Change PW1 and PW3 and generate a signature key. -/
def personalise : List Event :=
  [.select, verifyPw 0x83 factoryPw3,
    .process ⟨insChangeReferenceData, 0, 0x83, factoryPw3 ++ otherPw3, none⟩ rngOne,
    .process ⟨insChangeReferenceData, 0, 0x81, factoryPw1 ++ otherPw1, none⟩ rngOne,
    .process ⟨insGenerate, 0x80, 0, [0xB6, 0x00], none⟩ rngOne]

def signOne : Event := .process ⟨insPso, 0x9E, 0x9A, scalarOne.val, none⟩ rngOne

/-- Both PINs are blocked after they were changed, so a failed load leaves them blocked. -/
theorem failed_load_closed_blocked :
    FailClosed exampleCrypto unreadable ((run exampleCrypto unreadable (new ())
      (personalise ++ List.replicate 3 (verifyPw 0x81 wrongPin) ++
        List.replicate 3 (verifyPw 0x83 wrongPin))).select exampleCrypto unreadable).2 :=
  (failed_load_closed_iff exampleCrypto unreadable () _ (loadFails_unreadable _)).mpr
    (by decide +kernel)

/-- After a SELECT that cannot load the state, the factory PW1 verifies and the key that was
  generated before it signs. -/
theorem failed_load_signs :
    (answers (step exampleCrypto unreadable) (new ())
      (personalise ++ [.select, verifyPw 0x81 factoryPw1, signOne])).map (·.sw) =
        [.ok, .ok, .ok, .ok, .ok, .ok, .ok, .ok] ∧
    ¬FailClosed exampleCrypto unreadable
      ((run exampleCrypto unreadable (new ()) personalise).select exampleCrypto unreadable).2 := by
  refine ⟨by decide +kernel, fun h => ?_⟩
  refine h.pins .pw1 ⟨insVerify, 0, 0x81, factoryPw1, none⟩ rngOne ⟨rfl, rfl, rfl⟩ ?_
  decide +kernel

end AegisToken.Applets.OpenPgp
