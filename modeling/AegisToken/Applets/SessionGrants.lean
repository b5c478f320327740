/-
  The session grants of the three applets, one call at a time.
  A grant is what a privileged command asks for: the verified PIN and the authenticated management
  key of PIV, the three references of OpenPGP, the proved access code of OATH. For each of them:
  SELECT takes it away, a privileged command that succeeds found it, and a call that gives it is
  a verification that succeeded.
  The last one has exceptions, in which the grant is given and the command fails: a CHANGE of the
  PIV PIN that is not stored (`ChangeUnsaved`), a mutual authentication whose host challenge is
  refused (`ChallengeRefused`), and a SET CODE or VALIDATE whose state is not saved (`CodeUnsaved`).
-/
import AegisToken.Applets.PivFailClosed
import AegisToken.Applets.OpenPgpImage
import AegisToken.Applets.OathAccessCode

namespace AegisToken.Applets
open ByteCodec

/-! ## PIV -/

namespace Piv
variable {σ : Type} {K : PivCrypto} {S : PivStore σ} {content : σ → Nat → Option (List UInt8)}
  {c c' : Piv σ} {apdu : Apdu} {rng : Rng} {answer : Response}

/-- The request returns the nonce of a mutual authentication, and its own challenge is missing or
  refused. -/
def ChallengeRefused (K : PivCrypto) (c : Piv σ) (apdu : Apdu) : Prop :=
  ∃ template pending, managementTemplate c apdu = some template ∧ c.witness = some pending ∧
    submitted template pending = some pending.nonce.val ∧ pending.isMutual = true ∧
    ∀ challenge, Tlv.find template 0x81 = some challenge →
      (c.encryptedChallengeResponse K challenge).sw ≠ .ok

/-- A pending signature for a key with a PIN policy was asked for with the PIN verified. -/
def PendingVerified (content : σ → Nat → Option (List UInt8)) (c : Piv σ) : Prop :=
  ∀ pending pinPolicy touchPolicy, c.pendingSign = some pending →
    keyPolicies content c pending.slot = some (pinPolicy, touchPolicy) → pinPolicy ≠ .never →
    c.pinVerified = true

theorem pendingVerified_of_none (h : c.pendingSign = none) :
    PendingVerified content c :=
  fun _ _ _ hpn => absurd (h.symm.trans hpn) nofun

/-- A signature request leaves a pending signature only with the wait for presence. -/
theorem Effect.waiting (he : Effect K S c apdu rng answer c') (hS : Holds S content)
    (hno : c.pendingSign = none) :
    c'.pendingSign = none ∨ (answer.sw = .presenceRequired ∧ PendingVerified content c') := by
  cases he with
  | idle | objectWritten | keyWritten | mgmtKeySet | mgmtKeyKept | nonceDrawn | nonceRefused
  | nonceProved | pinRefused | pinAccepted | signed => exact .inl hno
  | pinWrong record _ _ _ _ _ hc₁ | pinChanged record _ _ _ hc₁ =>
    exact .inl ((persisted_session record _ hc₁).pendingSign.trans hno)
  | pinUnblocked _ _ _ hc₁ =>
    have h := persisted_session (S := S) .pin (c.pin.installed _ _) hc₁
    exact .inl (h.pendingSign.trans hno)
  | @touchAsked slot record pinPolicy touchPolicy digest st _ hrd hst hpl hv =>
    refine .inr ⟨rfl, ?_⟩
    rintro pending pinPolicy' touchPolicy' ⟨⟩ hk hne
    have hsm : keyPolicies content c slot = some (pinPolicy, touchPolicy) := by
      rw [keyPolicies, hS.read_value hrd]
      exact hpl
    change (content st slot.record).bind recordPolicies = _ at hk
    rw [hst.content hS] at hk
    cases hsm.symm.trans hk
    exact hv hne

/-- A command verifies the PIN, or leaves a PIN verified that was not stored. -/
theorem process_pinVerified (hS : Holds S content)
    (h : (c.process K S apdu rng).2.pinVerified = true) :
    c.pinVerified = true ∨ ChangeUnsaved K S c apdu ∨
      ((c.process K S apdu rng).1.sw = .ok ∧ apdu.p2 = refPin ∧
        (apdu.ins = insVerify ∨ apdu.ins = insChangeReferenceData)) := by
  cases (process_effect c apdu rng).policy hS with
  | other _ hv => exact hv h
  | asked _ _ _ _ _ _ _ hkp => exact .inl (hkp ▸ h)
  | signed _ _ _ _ _ hkp =>
    rw [hkp] at h
    split at h
    · cases h
    · exact .inl h

/-- A command authenticates the management key, or leaves it authenticated without an answer. -/
theorem Effect.mgmtAuthenticated (he : Effect K S c apdu rng answer c')
    (h : c'.mgmtAuthenticated = true) :
    c.mgmtAuthenticated = true ∨ ChallengeRefused K c apdu ∨
      (ReturnsNonce c apdu ∧ answer.sw = .ok) := by
  cases he with
  | idle | objectWritten | keyWritten | mgmtKeySet | mgmtKeyKept | nonceDrawn | nonceRefused
  | pinRefused | pinAccepted | touchAsked | signed => exact .inl h
  | pinWrong record _ _ _ _ _ hc₁ | pinChanged record _ _ _ hc₁ =>
    exact .inl ((persisted_session record _ hc₁).mgmtAuthenticated ▸ h)
  | pinUnblocked _ _ _ hc₁ =>
    have hsm := persisted_session (S := S) .pin (c.pin.installed _ _) hc₁
    exact .inl (hsm.mgmtAuthenticated ▸ h)
  | @nonceProved template pending ht hpn hs =>
    by_cases hok : (provedAnswer K c template pending).sw = .ok
    · exact .inr (.inr ⟨⟨template, pending, ht, hpn, hs⟩, hok⟩)
    refine .inr (.inl ⟨template, pending, ht, hpn, hs, ?_, fun challenge hfn => ?_⟩)
    · by_contra hn
      rw [provedAnswer, if_neg hn] at hok
      exact hok rfl
    unfold provedAnswer at hok
    split at hok
    · rw [hfn] at hok
      exact hok
    · exact absurd rfl hok

end Piv

/-! ## OpenPGP -/

namespace OpenPgp
variable {σ : Type} {K : PgpCrypto} {S : OpenPgpStore σ} {c c' : OpenPgp σ} {apdu : Apdu}
  {rng : Rng} {answer : Response} {reference : UInt8}

/-- Whether a reference was verified: `81` for signatures, `82` for the other keys, `83` for the
  administrator. -/
def verified (c : OpenPgp σ) (reference : UInt8) : Bool :=
  match reference with
  | 0x81 => c.pw1SignatureVerified
  | 0x82 => c.pw1OtherVerified
  | 0x83 => c.pw3Verified
  | _ => false

/-- The reference that a command needs. -/
def Needs (apdu : Apdu) (reference : UInt8) : Prop :=
  (isSign apdu ∧ reference = 0x81) ∨ (usesOther apdu ∧ reference = 0x82) ∨
    ((apdu.ins = insPutData ∨ isGenerate apdu) ∧ reference = 0x83)

theorem select_verified (c : OpenPgp σ) (reference : UInt8) :
    (c.select K S).2.verified reference = false := by
  unfold verified
  split <;> rfl

theorem verified_congr (hs : c'.pw1SignatureVerified = c.pw1SignatureVerified)
    (hoh : c'.pw1OtherVerified = c.pw1OtherVerified) (had : c'.pw3Verified = c.pw3Verified)
    (reference : UInt8) : c'.verified reference = c.verified reference := by
  unfold verified
  rw [hs, hoh, had]

theorem persistState_verified (c : OpenPgp σ) (reference : UInt8) :
    (c.persistState S).2.verified reference = c.verified reference := by
  rw [persistState_eq]
  rfl

theorem setSlot_verified (c : OpenPgp σ) (pw : Pw) (slot : PinSlot) (reference : UInt8) :
    (c.setSlot pw slot).verified reference = c.verified reference := by
  cases pw <;> rfl

theorem markVerified_verified {p2 reference : UInt8}
    (h : (c.markVerified p2).verified reference = true) :
    c.verified reference = true ∨ p2 = reference := by
  by_cases heq : p2 = reference
  · exact .inr heq
  refine .inl ?_
  unfold markVerified at h
  unfold verified at h ⊢
  split at h
  · split at h
    · exact absurd rfl heq
    · exact h
    · exact h
    · exact h
  · split at h
    · exact h
    · exact absurd rfl heq
    · exact h
    · exact h
  · split at h
    · exact h
    · exact h
    · exact absurd rfl heq
    · exact h
  · exact h

theorem Effect.verified (he : Effect K S c apdu rng answer c')
    (h : c'.verified reference = true) :
    c.verified reference = true ∨ (answer.sw = .ok ∧ apdu.ins = insVerify ∧
      apdu.p2 = reference) := by
  cases he with
  | idle => exact .inl h
  | pinAccepted hi =>
    exact (markVerified_verified h).imp_right fun hp2 => ⟨rfl, hi, hp2⟩
  | pinWrong pw _ _ _ hc₁ | pinChanged pw new _ _ _ hc₁ =>
    rw [persistState_verified, hc₁, setSlot_verified] at h
    exact .inl h
  | pinUnblocked _ _ _ _ _ hc₁ =>
    rw [persistState_verified, hc₁] at h
    exact .inl h
  | pinKept =>
    rw [persistState_verified] at h
    exact .inl h
  | objectPut _ _ ht =>
    have hsm := (putObject_cases ht).1
    rw [persistState_verified, verified_congr hsm.signature hsm.other hsm.admin] at h
    exact .inl h
  | keyGenerated index key _ _ _ hc₁ =>
    subst hc₁
    exact .inl h
  | signed _ hv _ _ hc₁ =>
    subst hc₁
    -- The signature used up its own verification and left the others.
    refine .inl ?_
    unfold verified at h ⊢
    split at h
    · exact hv
    · exact h
    · exact h
    · exact h

theorem Effect.needs (he : Effect K S c apdu rng answer c') (hsw : answer.sw = .ok)
    (hnd : Needs apdu reference) : c.verified reference = true := by
  have hn : apdu.ins ≠ insVerify ∧ apdu.ins ≠ insChangeReferenceData ∧
      apdu.ins ≠ insResetRetryCounter := by
    rcases hnd with ⟨⟨h, -⟩, -⟩ | ⟨⟨h, -⟩ | h, -⟩ | ⟨h | ⟨h, -⟩, -⟩ <;> rw [h] <;> decide
  have had : apdu.ins = insPutData ∨ apdu.ins = insGenerate → reference = 0x83 := by
    intro h
    rcases hnd with ⟨⟨hi, -⟩, -⟩ | ⟨⟨hi, -⟩ | hi, -⟩ | ⟨-, rfl⟩
    · exact absurd (hi ▸ h) nofun
    · exact absurd (hi ▸ h) nofun
    · exact absurd (hi ▸ h) nofun
    · rfl
  cases he with
  | idle _ hok =>
    obtain ⟨-, -, -, ht, hsg, hg, hoh⟩ := hok hsw
    rcases hnd with ⟨h, -⟩ | ⟨h, rfl⟩ | ⟨h | h, -⟩
    · exact absurd h hsg
    · exact hoh h
    · exact absurd h ht
    · exact absurd h hg
  | pinAccepted h => exact absurd h hn.1
  | pinWrong pw hpr =>
    unfold presented at hpr
    rw [if_neg hn.1, if_neg hn.2.1] at hpr
    cases hpr
  | pinChanged _ _ h => exact absurd h hn.2.1
  | pinUnblocked h => exact absurd h hn.2.2
  | pinKept h => exact (h.elim hn.2.1 hn.2.2).elim
  | objectPut h hv _ =>
    rw [had (.inl h)]
    exact hv
  | keyGenerated _ _ h hv =>
    rw [had (.inr h.1)]
    exact hv
  | signed h hv =>
    rcases hnd with ⟨-, rfl⟩ | ⟨⟨-, hp1, -⟩ | hi, -⟩ | ⟨hi | ⟨hi, -⟩, -⟩
    · exact hv
    · exact absurd (h.2.1.symm.trans hp1) nofun
    · exact absurd (h.1.symm.trans hi) nofun
    · exact absurd (h.1.symm.trans hi) nofun
    · exact absurd (h.1.symm.trans hi) nofun

end OpenPgp

/-! ## OATH -/

namespace Oath
variable {σ : Type} {K : OathCrypto} {S : OathStore σ} {apdu : Apdu} {c : Oath σ}

/-- There is an access code, and the session has proved it. -/
def Proven (c : Oath σ) : Prop := c.authKey.val ≠ [] ∧ c.authenticated = true

/-- A SET CODE or a VALIDATE that passes its checks, and the state it leaves is not saved. -/
def CodeUnsaved (K : OathCrypto) (S : OathStore σ) (c : Oath σ) (apdu : Apdu) : Prop :=
  (apdu.ins = insSetCode ∧ Authorised c ∧ ∃ code key, parseCode K apdu.data = .ok code ∧
    BoundedBytes.ofSlice maxSecret code.key = some key ∧
    ((c.withCode K code key).saveState S).1 = false) ∨
  (ProvesCode K c.authAlgorithm c.authKey.val c.authChallenge.val apdu ∧
    ∃ challenge, Tlv.find apdu.data tagChallenge = some challenge ∧
      ((c.validated K challenge).saveState S).1 = false)

/-- A command proves the code or sets it, or leaves it proved without an answer. -/
theorem process_proven (hlo : c.loaded = true) (h : Proven (c.process K S apdu).2) :
    Proven c ∨ CodeUnsaved K S c apdu ∨ ((c.process K S apdu).1.sw = .ok ∧
      (apdu.ins = insSetCode ∨ apdu.ins = insValidate)) := by
  have hld : c.loadState S = c := if_pos hlo
  rcases process_cases c apdu with ⟨-, -, heq⟩ | ⟨-, -, he⟩
  · rw [heq, hld] at h
    exact .inl h
  rw [hld] at he
  generalize (c.process K S apdu).1 = answer at he ⊢
  generalize (c.process K S apdu).2 = c' at he h
  cases he with
  | kept hsm => exact .inl (by rcases hsm with rfl | rfl <;> exact h)
  | put | deleted | armed | eraseFailed => exact .inl h
  | calculated k =>
    rcases calculateIndex_cases c k.index k.challenge k.truncated with hsm | ⟨c₁, _, hsm, -, heq⟩
    · exact .inl (hsm ▸ h)
    · rw [heq] at h
      exact .inl ⟨hsm.authKey ▸ h.1, hsm.authenticated ▸ h.2⟩
  | codeRemoved | codeDropped | erased => exact absurd rfl h.1
  | codeSet code key hs hah _ hpr hk =>
    rcases hsv : ((c.withCode K code key).saveState S).1 with _ | _
    · exact .inr (.inl (.inl ⟨hs, hah, code, key, hpr, hk, hsv⟩))
    · exact .inr (.inr ⟨rfl, .inl hs⟩)
  | validated challenge hp _ hch hok =>
    rcases hsv : ((c.validated K challenge).saveState S).1 with _ | _
    · exact .inr (.inl (.inr ⟨hp, challenge, hch, hsv⟩))
    · exact .inr (.inr ⟨hok, .inr hp.1⟩)

/-- A protected command that succeeds while there is a code found it proved. -/
theorem process_gated (hlo : c.loaded = true) (hsw : (c.process K S apdu).1.sw = .ok)
    (hgt : Gated apdu) (hk : c.authKey.val ≠ []) :
    Proven c := by
  have hld : c.loadState S = c := if_pos hlo
  rcases process_cases c apdu with ⟨-, -, heq⟩ | ⟨-, -, he⟩
  · rw [heq] at hsw
    cases hsw
  rw [hld] at he
  by_cases hah : Authorised c
  · exact ⟨hk, hah.resolve_left hk⟩
  · rw [he.refuses hah hgt] at hsw
    exact absurd hsw nofun

/-- A loaded applet, in which only an authorised session has a request that waits. -/
def Armed (c : Oath σ) : Prop := c.loaded = true ∧ (c.pending ≠ none → Authorised c)

theorem Authorised.congr {c c' : Oath σ} (hsm : SameCode c c') (h : Authorised c) :
    Authorised c' := by
  unfold Authorised
  rw [hsm.authKey, hsm.authenticated]
  exact h

theorem select_armed (c : Oath σ) (rng : Rng) :
    Armed (c.selectWithRng S rng).2 ∧ ¬Proven (c.selectWithRng S rng).2 := by
  have hld := loadState_loaded (S := S) { c with loaded := false }
  unfold selectWithRng selectResponse
  dsimp only
  refine ⟨⟨?_, fun h => absurd rfl h⟩, ?_⟩
  · split <;> exact hld
  · rintro ⟨hk, hah⟩
    obtain ⟨-, hem⟩ := (Bool.and_eq_true_iff).mp hah
    exact hk (of_decide_eq_true hem)

theorem process_armed (h : Armed c) (apdu : Apdu) : Armed (c.process K S apdu).2 := by
  have hld : c.loadState S = c := if_pos h.1
  rcases process_cases c apdu with ⟨-, -, heq⟩ | ⟨-, -, he⟩
  · rw [heq, hld]
    exact h
  rw [hld] at he
  generalize (c.process K S apdu).1 = answer at he
  generalize (c.process K S apdu).2 = c' at he ⊢
  cases he with
  | kept hsm =>
    rcases hsm with rfl | rfl
    · exact h
    · exact ⟨h.1, fun hp => absurd rfl hp⟩
  | put | deleted | eraseFailed => exact ⟨h.1, fun hp => absurd rfl hp⟩
  | calculated k _ hah =>
    rcases calculateIndex_cases c k.index k.challenge k.truncated with hsm | ⟨c₁, _, hsm, -, heq⟩
    · rw [hsm]
      exact h
    · rw [heq]
      exact ⟨hsm.loaded.trans h.1, fun _ => show Authorised c₁ from hah.congr hsm⟩
  | armed _ _ hah => exact ⟨h.1, fun _ => hah⟩
  | codeRemoved | codeDropped => exact ⟨h.1, fun _ => .inl rfl⟩
  | codeSet | validated => exact ⟨h.1, fun _ => .inr rfl⟩
  | erased => exact ⟨rfl, fun hp => absurd rfl hp⟩

theorem confirm_armed (h : Armed c) :
    Armed (c.confirmPresence K S).2 ∧ (Proven (c.confirmPresence K S).2 → Proven c) := by
  have hld : c.loadState S = c := if_pos h.1
  have hpn : (c.confirmPresence K S).2.pending ≠ none → c.pending ≠ none := by
    unfold confirmPresence stateAvailable
    dsimp only
    rw [hld]
    split
    · exact id
    split
    · exact id
    · rename_i pending hso
      exact fun _ => by rw [hso]; exact nofun
  have hkp : (c.confirmPresence K S).2.authKey = c.authKey ∧
      (c.confirmPresence K S).2.authenticated = c.authenticated ∧
      (c.confirmPresence K S).2.loaded = c.loaded := by
    have hcs := (confirm_cases (K := K) (S := S) c).2
    rw [hld] at hcs
    rcases hcs with hsm | ⟨-, c₁, answer, hsm, heq⟩
    · exact ⟨hsm.authKey, hsm.authenticated, hsm.loaded⟩
    · rw [heq]
      exact ⟨hsm.authKey, hsm.authenticated, hsm.loaded⟩
  obtain ⟨hk, hah, hlo⟩ := hkp
  refine ⟨⟨hlo.trans h.1, fun hp => ?_⟩, fun hp => ⟨hk ▸ hp.1, hah ▸ hp.2⟩⟩
  unfold Authorised
  rw [hk, hah]
  exact h.2 (hpn hp)

/-- A confirmation that succeeds while there is a code found it proved. -/
theorem confirm_gated (h : Armed c) (hsw : (c.confirmPresence K S).1.sw = .ok)
    (hk : c.authKey.val ≠ []) : Proven c := by
  have hld : c.loadState S = c := if_pos h.1
  have hpn := (confirm_cases c).1 hsw
  rw [hld] at hpn
  exact ⟨hk, (h.2 hpn).resolve_left hk⟩

end Oath

end AegisToken.Applets
