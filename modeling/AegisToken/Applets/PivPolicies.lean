/-
  The PIN and touch policies of PIV keys over whole histories.
  A key record carries its policies, and the store holds `content`: a read gives what is there or
  nothing. `Effect.policy` and `Confirmed.policy` say what one step does to the verification of the
  PIN, the pending signature and the cached presence, in terms of the stored policies. The
  histories follow from them: which verification a signature rests on, which request a
  confirmation completes, and which confirmation a cached presence rests on.
  A confirmation does not look at the verification again. So a key with a PIN policy can sign
  without one when the verification was used up, or the key replaced, while the request waited.
-/
import AegisToken.Applets.PivManagement

namespace AegisToken.Applets.Piv
open ByteCodec History

variable {σ : Type} {K : PivCrypto} {S : PivStore σ} {content : σ → Nat → Option (List UInt8)}
  {c : Piv σ} {apdu : Apdu} {slot : KeySlot} {rng : Rng} {pinPolicy : PinPolicyCode} {e : Log σ}
  {past : List (Log σ)}

/-! ## Entries -/

def keyPolicies (content : σ → Nat → Option (List UInt8)) (c : Piv σ) (slot : KeySlot) :
    Option (PinPolicyCode × TouchPolicy) :=
  (content c.store slot.record).bind recordPolicies

/-- The slot an entry signed with: a signature request answered `9000`, or a confirmation of a
  pending signature answered `9000`. -/
def signedSlot (e : Log σ) : Option KeySlot :=
  if e.answer.sw = .ok then
    match e.event with
    | .process apdu _ => signSlot apdu
    | .confirm _ => e.before.pendingSign.map PendingSign.slot
    | _ => none
  else none

theorem signedSlot_process :
    signedSlot (entry (step K S) c (.process apdu rng)) = some slot ↔
      (c.process K S apdu rng).1.sw = .ok ∧ signSlot apdu = some slot :=
  Option.ite_none_right_eq_some

theorem signedSlot_confirm :
    signedSlot (entry (step K S) c (.confirm rng)) = some slot ↔
      (c.confirmPresence K S rng).1.sw = .ok ∧ c.pendingSign.map PendingSign.slot = some slot :=
  Option.ite_none_right_eq_some

/-- The entry signed with a key of these policies. -/
def SignedWith (content : σ → Nat → Option (List UInt8)) (pinPolicy : PinPolicyCode)
    (touchPolicy : TouchPolicy) (e : Log σ) : Prop :=
  ∃ slot, signedSlot e = some slot ∧ keyPolicies content e.before slot = some (pinPolicy, touchPolicy)

/-- A VERIFY or CHANGE REFERENCE DATA of the PIN, answered `9000`. -/
def VerifiesPin (e : Log σ) : Prop :=
  ∃ apdu rng, e.event = .process apdu rng ∧ e.answer.sw = .ok ∧ apdu.p2 = refPin ∧
    (apdu.ins = insVerify ∨ apdu.ins = insChangeReferenceData)

/-- What ends a verification: a SELECT, or a signature with a key that wants one each time. -/
def EndsVerification (content : σ → Nat → Option (List UInt8)) (e : Log σ) : Prop :=
  IsSelect e ∨ ∃ touchPolicy, SignedWith content .always touchPolicy e

/-- A signature request that was answered with the wait for user presence. -/
def AsksPresence (e : Log σ) : Prop :=
  ∃ apdu rng, e.event = .process apdu rng ∧ (signSlot apdu).isSome ∧ e.answer.sw = .presenceRequired

/-- Such a request for a slot and a padded digest. -/
def AsksFor (content : σ → Nat → Option (List UInt8)) (pending : PendingSign) (e : Log σ) : Prop :=
  ∃ apdu rng record, e.event = .process apdu rng ∧ e.answer.sw = .presenceRequired ∧
    signSlot apdu = some pending.slot ∧ content e.before.store pending.slot.record = some record ∧
    signDigest apdu (record.getD 0 0) = some pending.digest.val

/-- What ends a pending signature: the next such request, its confirmation or denial, a SELECT. -/
def EndsPending (e : Log σ) : Prop :=
  AsksPresence e ∨ IsSelect e ∨ e.event = .deny ∨ ∃ rng, e.event = .confirm rng

/-- A confirmation that completed a signature with a key whose presence is cached. -/
def CachesPresence (content : σ → Nat → Option (List UInt8)) (e : Log σ) : Prop :=
  (∃ rng, e.event = .confirm rng) ∧ ∃ pinPolicy, SignedWith content pinPolicy .cached e

/-! ## One step -/

/-- The command is a CHANGE of the PIN with the right PIN, and the new one cannot be stored. -/
def ChangeUnsaved (K : PivCrypto) (S : PivStore σ) (c : Piv σ) (apdu : Apdu) : Prop :=
  apdu.ins = insChangeReferenceData ∧
    (∃ old, presented apdu = some (.pin, old) ∧ c.pin.Accepts K.sha256 old) ∧
    (S.write recordPin (c.pin.installed K.sha256 (apdu.data.drop 8)).encode.val c.store).1 = false

/-- What a command does to the verification, the pending signature and the cached presence. -/
inductive PolicyEffect (K : PivCrypto) (S : PivStore σ) (content : σ → Nat → Option (List UInt8))
    (c : Piv σ) (apdu : Apdu) (rng : Rng) (answer : Response) (c' : Piv σ) : Prop
  /-- No signature and no request for one. -/
  | other : (∀ slot, signSlot apdu = some slot → answer.sw ≠ .ok ∧ answer.sw ≠ .presenceRequired) →
      (c'.pinVerified = true → c.pinVerified = true ∨ ChangeUnsaved K S c apdu ∨
        (answer.sw = .ok ∧ apdu.p2 = refPin ∧
          (apdu.ins = insVerify ∨ apdu.ins = insChangeReferenceData))) →
      c'.pendingSign = c.pendingSign → c'.presenceCached = c.presenceCached →
      PolicyEffect K S content c apdu rng answer c'
  | asked {record : List UInt8} {pinPolicy : PinPolicyCode} {touchPolicy : TouchPolicy}
      (pending : PendingSign) : signSlot apdu = some pending.slot →
      content c.store pending.slot.record = some record →
      recordPolicies record = some (pinPolicy, touchPolicy) →
      (pinPolicy ≠ .never → c.pinVerified = true) →
      signDigest apdu (record.getD 0 0) = some pending.digest.val →
      answer = .presenceRequired → c'.pinVerified = c.pinVerified →
      c'.pendingSign = some pending → c'.presenceCached = c.presenceCached →
      PolicyEffect K S content c apdu rng answer c'
  | signed {slot : KeySlot} {pinPolicy : PinPolicyCode} {touchPolicy : TouchPolicy} :
      signSlot apdu = some slot → keyPolicies content c slot = some (pinPolicy, touchPolicy) →
      (pinPolicy ≠ .never → c.pinVerified = true) → touchRequired touchPolicy c = false →
      answer.sw ≠ .presenceRequired →
      c'.pinVerified = (if pinPolicy = .always then false else c.pinVerified) →
      c'.pendingSign = c.pendingSign → c'.presenceCached = c.presenceCached →
      PolicyEffect K S content c apdu rng answer c'

theorem presented_pin {pin : List UInt8} (h : presented apdu = some (.pin, pin)) :
    apdu.p2 = refPin := by
  have hf : ∀ {value : List UInt8},
      (PinRecord.fromReference apdu.p2).map (·, value) = some (.pin, pin) → apdu.p2 = refPin := by
    intro value h
    obtain ⟨record, hr, heq⟩ := Option.map_eq_some_iff.mp h
    cases heq
    unfold PinRecord.fromReference at hr
    split at hr
    · assumption
    · split at hr <;> cases hr
  unfold presented at h
  iterate 2
    split at h
    · split at h
      · exact hf h
      · cases h
  split at h
  · split at h <;> cases h
  · cases h

theorem signSlot_of_pinCommand (h : isPinCommand apdu.ins) : signSlot apdu = none := by
  refine if_neg fun hi => ?_
  rw [hi] at h
  revert h
  decide

/-- A signature that is made without a touch leaves the cached presence as it is. -/
theorem finishSign_presence {touchPolicy : TouchPolicy}
    (h : touchRequired touchPolicy c = false) :
    (c.finishSign pinPolicy touchPolicy).presenceCached = c.presenceCached := by
  cases touchPolicy with
  | never => rfl
  | always => cases h
  | cached => simpa [touchRequired, finishSign] using h.symm

theorem Effect.policy {c' : Piv σ} {answer : Response} (he : Effect K S c apdu rng answer c')
    (hS : Holds S content) : PolicyEffect K S content c apdu rng answer c' := by
  have hno : signSlot apdu = none →
      ∀ slot, signSlot apdu = some slot → answer.sw ≠ .ok ∧ answer.sw ≠ .presenceRequired :=
    fun h _ hsl => by cases h.symm.trans hsl
  have hi : ∀ {ins : UInt8}, apdu.ins = ins → ins ≠ insGeneralAuthenticate →
      ∀ slot, signSlot apdu = some slot → answer.sw ≠ .ok ∧ answer.sw ≠ .presenceRequired :=
    fun h hne => hno (if_neg fun hc => hne (h.symm.trans hc))
  have hp : ∀ {verified : Bool}, isPinCommand apdu.ins →
      SameSession { c with pinVerified := verified } c' →
      (verified = true → c.pinVerified = true ∨ ChangeUnsaved K S c apdu ∨
        (answer.sw = .ok ∧ apdu.p2 = refPin ∧
          (apdu.ins = insVerify ∨ apdu.ins = insChangeReferenceData))) →
      PolicyEffect K S content c apdu rng answer c' := by
    intro verified hn h hr
    exact .other (hno (signSlot_of_pinCommand hn)) (fun hv => hr
      (h.pinVerified.symm.trans hv)) h.pendingSign h.presenceCached
  cases he with
  | idle _ hok hup hqt =>
    refine .other (fun slot hsl => ⟨fun hsw => ?_, hup⟩) .inl rfl rfl
    rw [signSlot, if_neg (by rw [hok hsw]; decide)] at hsl
    cases hsl
  | objectWritten _ _ h | keyWritten _ _ _ h | mgmtKeySet _ h | mgmtKeyKept _ h =>
    exact .other (hi h (by decide)) .inl rfl rfl
  | nonceDrawn _ _ h | nonceRefused h | nonceProved h =>
    exact .other (hno (signSlot_of_template h)) .inl rfl rfl
  | pinRefused verified hn hv =>
    exact .other (hno (signSlot_of_pinCommand hn)) (fun h => .inl (hv h)) rfl rfl
  | pinAccepted record h hpr =>
    refine .other (hi h (by decide)) (fun hv => ?_) rfl rfl
    cases record with
    | pin => exact .inr (.inr ⟨rfl, presented_pin hpr, .inl h⟩)
    | puk => exact .inl hv
  | pinWrong record _ hpr _ _ hv hc₁ =>
    exact hp (presented_ins hpr) (persisted_session record _ hc₁) fun h => .inl (hv h)
  | @pinChanged old c₁ record h hpr ha hc₁ =>
    refine hp (.inr (.inl h)) (persisted_session record _ hc₁) fun hv => ?_
    cases record with
    | puk => exact .inl hv
    | pin =>
      subst hc₁
      -- The PIN was right, so what remains is whether the new one was stored.
      rcases hw : (S.write recordPin (c.pin.installed K.sha256 (apdu.data.drop 8)).encode.val
        c.store).1 with _ | _
      · exact .inr (.inl ⟨h, ⟨old, hpr, ha⟩, hw⟩)
      refine .inr (.inr ⟨?_, presented_pin hpr, .inr h⟩)
      rw [persistPin_fst]
      change (written (S.write recordPin
        (c.pin.installed K.sha256 (apdu.data.drop 8)).encode.val c.store).1 _).sw = .ok
      rw [hw]
      rfl
  | pinUnblocked h _ _ hc₁ =>
    exact hp (.inr (.inr h)) (persisted_session .pin (c.pin.installed _ _) hc₁) (by rintro ⟨⟩)
  | @touchAsked slot record pinPolicy touchPolicy digest st hsl hrd _ hpl hv _ hd =>
    exact .asked ⟨slot, digest⟩ hsl (hS.read_value hrd) hpl hv hd rfl rfl rfl rfl
  | @signed slot record pinPolicy touchPolicy st cap key digest signature hsl hrd hpl hv
      htc =>
    refine .signed hsl ?_ hv htc ?_ rfl rfl (finishSign_presence htc)
    · rw [keyPolicies, hS.read_value hrd]
      exact hpl
    · rcases wrapChallenge_sw 0x82 signature with h | h <;> rw [h] <;> decide

/-- A signature with a key that has a PIN policy needs the PIN verified. -/
theorem process_signed (hS : Holds S content)
    {touchPolicy : TouchPolicy}
    (hsw : (c.process K S apdu rng).1.sw = .ok) (hsl : signSlot apdu = some slot)
    (hk : keyPolicies content c slot = some (pinPolicy, touchPolicy))
    (hne : pinPolicy ≠ .never) : c.pinVerified = true := by
  cases (process_effect c apdu rng).policy hS with
  | other hoh => exact absurd hsw (hoh slot hsl).1
  | asked _ _ _ _ _ _ ha =>
    rw [ha] at hsw
    exact absurd hsw nofun
  | signed hsl' hk' hv =>
    cases hsl.symm.trans hsl'
    cases hk.symm.trans hk'
    exact hv hne

/-- A signature is at most as long as the modulus, so it always fits its template. -/
theorem signWith_length {algorithm : UInt8} {record digest signature : List UInt8}
    (h : signWith K algorithm record digest rng = some signature) : signature.length ≤ 256 := by
  unfold signWith at h
  split at h
  · split at h
    · simp only [Option.bind_eq_bind, Option.bind_eq_some_iff, Option.some.injEq] at h
      obtain ⟨key, -, value, -, rfl⟩ := h
      exact value.property.le
    · cases h
  · simp only [Option.bind_eq_bind, Option.bind_eq_some_iff] at h
    obtain ⟨keyLen, -, h⟩ := h
    split at h
    · cases h
    · have hft := (Option.filter_eq_some_iff.mp h).2
      have : signature.length ≤ 104 := by simpa using hft
      omega

theorem wrapChallenge_ok {value : List UInt8} (h : value.length ≤ 256) :
    (wrapChallenge 0x82 value).sw = .ok := by
  have hl : ∀ len, Tlv.lengthEncodedLen len ≤ 4 := by
    intro len
    unfold Tlv.lengthEncodedLen
    split_ifs <;> decide
  unfold wrapChallenge
  rw [if_neg ?_]
  · rfl
  have h₁ := hl value.length
  have h₂ := hl (Tlv.encodedLen 0x82 value.length)
  have ht : Tlv.tagEncodedLen 0x82 = 1 := by decide
  have ht' : Tlv.tagEncodedLen 0x7C = 1 := by decide
  have hs : scratchBytes = 1552 := rfl
  unfold Tlv.encodedLen at h₂ ⊢
  omega

/-- What a confirmation does: without a signature it drops what was pending; with one, the
  signature is over the pending digest with the key of its slot, and the stored policies decide
  the flags. -/
theorem Confirmed.policy {c' : Piv σ} {answer : Response} (he : Confirmed K S c rng answer c')
    (hS : Holds S content) :
    (answer.sw ≠ .ok ∧ c'.pinVerified = c.pinVerified ∧ c'.pendingSign = none ∧
      c'.presenceCached = c.presenceCached) ∨
    ∃ pending record pinPolicy touchPolicy signature, c.pendingSign = some pending ∧
      content c.store pending.slot.record = some record ∧
      recordPolicies record = some (pinPolicy, touchPolicy) ∧
      signWith K (record.getD 0 0) record pending.digest.val rng = some signature ∧
      answer = wrapChallenge 0x82 signature ∧
      c'.pinVerified = (if pinPolicy = .always then false else c.pinVerified) ∧
      c'.pendingSign = none ∧
      (c'.presenceCached = true → c.presenceCached = true ∨ touchPolicy = .cached) := by
  cases he with
  | nothing hno => exact .inl ⟨nofun, rfl, hno, rfl⟩
  | failed _ _ hok => exact .inl ⟨hok, rfl, rfl, rfl⟩
  | @signed pending record pinPolicy touchPolicy st cap key signature hpn hr hpl hst
      hk hsg =>
    have hkq : key.val = record.val := by
      have h := hS.read_value hk
      rw [hst.content hS, hS.read_value hr] at h
      exact (Option.some_inj.mp h).symm
    rw [hkq] at hsg
    refine .inr ⟨pending, record.val, pinPolicy, touchPolicy, signature, hpn,
      hS.read_value hr, hpl, hsg, rfl, rfl, rfl, fun hc => ?_⟩
    cases touchPolicy with
    | never => exact .inl hc
    | always => cases hc
    | cached => exact .inr rfl

/-! ## Every history -/

/-- What the flags of a state say about its past. -/
structure PolicyInv (content : σ → Nat → Option (List UInt8)) (c : Piv σ) (past : List (Log σ)) :
    Prop where
  verified : c.pinVerified = true →
    Since (fun e _ => VerifiesPin e) (EndsVerification content) past
  pending : ∀ p, c.pendingSign = some p →
    Since (fun e _ => AsksFor content p e) EndsPending past
  cached : c.presenceCached = true → Since (fun e _ => CachesPresence content e) IsSelect past

/-- The condition on a step: a confirmation for a key with a PIN policy finds the PIN verified, and
  so does a CHANGE of the PIN with the right PIN that is not stored. -/
def KeepsVerification (K : PivCrypto) (S : PivStore σ) (content : σ → Nat → Option (List UInt8))
    (e : Log σ) : Prop :=
  (∀ rng pending pinPolicy touchPolicy, e.event = .confirm rng →
    e.before.pendingSign = some pending →
    keyPolicies content e.before pending.slot = some (pinPolicy, touchPolicy) →
    pinPolicy ≠ .never → e.before.pinVerified = true) ∧
  ∀ apdu rng, e.event = .process apdu rng → ChangeUnsaved K S e.before apdu →
    e.before.pinVerified = true

/-- The key policies were enforced at an entry: the PIN policies, that a key which wants a touch
  each time signs in a confirmation, that a confirmation makes one signature, for the latest
  request, and that a cached presence comes from a confirmation. -/
structure PoliciesEnforced (K : PivCrypto) (content : σ → Nat → Option (List UInt8)) (e : Log σ)
    (past : List (Log σ)) : Prop where
  pin : ∀ pinPolicy touchPolicy, SignedWith content pinPolicy touchPolicy e → pinPolicy ≠ .never →
    Since (fun v _ => VerifiesPin v) IsSelect past
  pinAlways : ∀ touchPolicy, SignedWith content .always touchPolicy e →
    Since (fun v _ => VerifiesPin v) (EndsVerification content) past
  touchAlways : ∀ pinPolicy, SignedWith content pinPolicy .always e → ∃ rng, e.event = .confirm rng
  confirmed : ∀ rng, e.event = .confirm rng → e.answer.sw = .ok →
    ∃ pending record signature, Since (fun a _ => AsksFor content pending a) EndsPending past ∧
      content e.before.store pending.slot.record = some record ∧
      signWith K (record.getD 0 0) record pending.digest.val rng = some signature ∧
      e.answer = wrapChallenge 0x82 signature
  touchCached : ∀ pinPolicy, SignedWith content pinPolicy .cached e →
    (∀ rng, e.event ≠ .confirm rng) → Since (fun a _ => CachesPresence content a) IsSelect past

theorem not_signedWith (h : ∀ slot, signedSlot e ≠ some slot)
    (pinPolicy : PinPolicyCode) (touchPolicy : TouchPolicy) :
    ¬SignedWith content pinPolicy touchPolicy e :=
  fun ⟨slot, hsl, _⟩ => h slot hsl

theorem PoliciesEnforced.of_unsigned
    (h : ∀ slot, signedSlot e ≠ some slot)
    (hcn : ∀ rng, e.event = .confirm rng → e.answer.sw ≠ .ok) :
    PoliciesEnforced K content e past where
  pin _ _ hs := absurd hs (not_signedWith h _ _)
  pinAlways _ hs := absurd hs (not_signedWith h _ _)
  touchAlways _ hs := absurd hs (not_signedWith h _ _)
  confirmed _ hev hsw := absurd hsw (hcn _ hev)
  touchCached _ hs := absurd hs (not_signedWith h _ _)

/-- A verification outlives an entry that neither selects nor signs with a key that wants one each
  time. -/
theorem PolicyInv.verified_later (hi : PolicyInv content c past)
    (hs : ¬IsSelect e)
    (hg : ∀ touchPolicy, ¬SignedWith content .always touchPolicy e) (hv : c.pinVerified = true) :
    Since (fun v _ => VerifiesPin v) (EndsVerification content) (e :: past) := by
  refine .inr ⟨?_, hi.verified hv⟩
  rintro (h | ⟨touchPolicy, h⟩)
  · exact hs h
  · exact hg touchPolicy h

/-- The PIN policies of a signature whose key had a verification, if it wants one. -/
theorem signed_pin
    (hp : ∀ p t, SignedWith content p t e → p = pinPolicy)
    (hsn : pinPolicy ≠ .never → Since (fun v _ => VerifiesPin v) (EndsVerification content) past) :
    (∀ p t, SignedWith content p t e → p ≠ .never →
      Since (fun v _ => VerifiesPin v) IsSelect past) ∧
    ∀ t, SignedWith content .always t e →
      Since (fun v _ => VerifiesPin v) (EndsVerification content) past := by
  constructor
  · intro p t h hne
    rw [hp p t h] at hne
    exact (hsn hne).mono (fun _ _ h => h) fun _ h => .inl h
  intro t h
  refine hsn ?_
  rw [← hp _ t h]
  decide

/-- A verification that is left after a signature is one that its key did not use up. -/
theorem PolicyInv.verified_signed {c c' : Piv σ}
    (hi : PolicyInv content c past) (hs : ¬IsSelect e)
    (hp : ∀ p t, SignedWith content p t e → p = pinPolicy)
    (hkp : c'.pinVerified = if pinPolicy = .always then false else c.pinVerified)
    (hv : c'.pinVerified = true) :
    Since (fun v _ => VerifiesPin v) (EndsVerification content) (e :: past) := by
  rw [hkp] at hv
  split at hv
  · cases hv
  rename_i hne
  exact hi.verified_later hs (fun t h => hne (hp _ t h).symm) hv

theorem process_kept (hS : Holds S content)
    (hi : PolicyInv content c past) (apdu : Apdu) (rng : Rng)
    (hcd : ChangeUnsaved K S c apdu → c.pinVerified = true) :
    PoliciesEnforced K content (entry (step K S) c (.process apdu rng)) past ∧
      PolicyInv content (c.process K S apdu rng).2
        (entry (step K S) c (.process apdu rng) :: past) := by
  set e := entry (step K S) c (.process apdu rng)
  have hs : ¬IsSelect e := nofun
  have hcn : ∀ rng', e.event ≠ .confirm rng' := nofun
  -- Only a request answered with the wait for presence ends what is pending.
  have hen : ¬AsksPresence e → ¬EndsPending e := by
    rintro hak (h | h | h | ⟨rng', h⟩)
    · exact hak h
    · exact hs h
    · cases h
    · cases h
  have hca : (c.process K S apdu rng).2.presenceCached = c.presenceCached →
      (c.process K S apdu rng).2.presenceCached = true →
      Since (fun a _ => CachesPresence content a) IsSelect (e :: past) :=
    fun h hc => .inr ⟨hs, hi.cached (h ▸ hc)⟩
  cases (process_effect c apdu rng).policy hS with
  | other hoh hr hpn hup =>
    have hno : ∀ slot, signedSlot e ≠ some slot := by
      intro slot hg
      obtain ⟨hsw, hsl⟩ := signedSlot_process.mp hg
      exact (hoh slot hsl).1 hsw
    refine ⟨.of_unsigned hno fun _ h => absurd h (hcn _), ⟨fun hv => ?_, fun p hp => ?_, hca hup⟩⟩
    · have hold := hi.verified_later hs fun _ => not_signedWith hno _ _
      rcases hr hv with h | h | ⟨hsw, hp2, hin⟩
      · exact hold h
      · exact hold (hcd h)
      · exact .inl ⟨apdu, rng, rfl, hsw, hp2, hin⟩
    · refine .inr ⟨hen ?_, hi.pending p (hpn ▸ hp)⟩
      rintro ⟨apdu', rng', hev, hso, hsw⟩
      cases hev
      obtain ⟨slot, hsl⟩ := Option.isSome_iff_exists.mp hso
      exact (hoh slot hsl).2 hsw
  | @asked record pinPolicy touchPolicy pending hsl hrc hpl hr hd hn
      hkp hpn hup =>
    have hsw : (c.process K S apdu rng).1.sw = .presenceRequired := by rw [hn]; rfl
    have hno : ∀ slot, signedSlot e ≠ some slot :=
      fun slot hg =>
        absurd (hsw.symm.trans (signedSlot_process.mp hg).1) nofun
    refine ⟨.of_unsigned hno fun _ h => absurd h (hcn _), ⟨fun hv => ?_, fun p hp => ?_, hca hup⟩⟩
    · exact hi.verified_later hs (fun _ => not_signedWith hno _ _) (hkp ▸ hv)
    · rw [hpn] at hp
      cases hp
      exact .inl ⟨apdu, rng, record, rfl, hsw, hsl, hrc, hd⟩
  | @signed slot pinPolicy touchPolicy hsl hpl hr htc hpr hkp hpn
      hup =>
    -- The policies of the entry are those that were read.
    have hsm : ∀ p t, SignedWith content p t e → p = pinPolicy ∧ t = touchPolicy := by
      rintro p t ⟨slot', hg, hp⟩
      cases hsl.symm.trans (signedSlot_process.mp hg).2
      cases hpl.symm.trans hp
      exact ⟨rfl, rfl⟩
    have hl : ∀ p t, SignedWith content p t e → p = pinPolicy := fun p t h => (hsm p t h).1
    obtain ⟨hpi, ha⟩ := signed_pin hl fun h => hi.verified (hr h)
    refine ⟨⟨hpi, ha, fun p h => ?_, fun _ h => absurd h (hcn _), fun p h _ => ?_⟩,
      ⟨hi.verified_signed hs hl hkp, fun p hp => ?_, hca hup⟩⟩
    · obtain ⟨-, rfl⟩ := hsm p _ h
      cases htc
    · obtain ⟨-, rfl⟩ := hsm p _ h
      exact hi.cached (by simpa [touchRequired] using htc)
    · refine .inr ⟨hen ?_, hi.pending p (hpn ▸ hp)⟩
      rintro ⟨_, _, _, -, hsw⟩
      exact hpr hsw

theorem confirm_kept (hS : Holds S content)
    (hi : PolicyInv content c past) (rng : Rng)
    (hcn : ∀ pending pinPolicy touchPolicy, c.pendingSign = some pending →
      keyPolicies content c pending.slot = some (pinPolicy, touchPolicy) →
      pinPolicy ≠ .never → c.pinVerified = true) :
    PoliciesEnforced K content (entry (step K S) c (.confirm rng)) past ∧
      PolicyInv content (c.confirmPresence K S rng).2
        (entry (step K S) c (.confirm rng) :: past) := by
  set e := entry (step K S) c (.confirm rng)
  have hs : ¬IsSelect e := nofun
  obtain ⟨hsw, hkp, hpd, hup⟩ | ⟨pending, record, pinPolicy, touchPolicy, signature,
    hpn, hr, hpl, hsg, ha, hkp, hpd, hup⟩ :=
    (confirm_effect c rng).policy hS
  · have hno : ∀ slot, signedSlot e ≠ some slot :=
      fun slot hg => hsw (signedSlot_confirm.mp hg).1
    refine ⟨.of_unsigned hno fun _ _ => hsw, ⟨fun hv => ?_, fun p hp => ?_, fun hc => ?_⟩⟩
    · exact hi.verified_later hs (fun _ => not_signedWith hno _ _) (hkp ▸ hv)
    · cases hpd.symm.trans hp
    · exact .inr ⟨hs, hi.cached (hup ▸ hc)⟩
  · have hk : keyPolicies content c pending.slot = some (pinPolicy, touchPolicy) := by
      rw [keyPolicies, hr]
      exact hpl
    have hl : ∀ p t, SignedWith content p t e → p = pinPolicy := by
      rintro p t ⟨slot, hg, hp⟩
      have hsl := (signedSlot_confirm.mp hg).2
      rw [hpn] at hsl
      cases hsl
      cases hk.symm.trans hp
      rfl
    obtain ⟨hn, hw⟩ := signed_pin hl fun h =>
      hi.verified (hcn _ _ _ hpn hk h)
    refine ⟨⟨hn, hw, fun _ _ => ⟨rng, rfl⟩, fun rng' hev _ => ?_,
      fun _ _ h => absurd rfl (h rng)⟩, ⟨hi.verified_signed hs hl hkp,
      fun p hp => ?_, fun hc => ?_⟩⟩
    · cases hev
      exact ⟨pending, record, signature, hi.pending pending hpn, hr, hsg, ha⟩
    · cases hpd.symm.trans hp
    rcases hup hc with h | rfl
    · exact .inr ⟨hs, hi.cached h⟩
    refine .inl ⟨⟨rng, rfl⟩, pinPolicy, pending.slot, signedSlot_confirm.mpr ⟨?_, ?_⟩, hk⟩
    · rw [ha]
      exact wrapChallenge_ok (signWith_length hsg)
    · rw [hpn]
      rfl

theorem select_kept (c : Piv σ) (past : List (Log σ)) :
    PoliciesEnforced K content (entry (step K S) c .select) past ∧
      PolicyInv content (c.select K S).2 (entry (step K S) c .select :: past) := by
  have h := select_session (K := K) (S := S) c
  have hno : ∀ slot, signedSlot (entry (step K S) c .select) ≠ some slot := by
    intro slot hsl
    unfold signedSlot at hsl
    split at hsl <;> cases hsl
  refine ⟨.of_unsigned hno nofun, ⟨fun hv => ?_, fun p hp => ?_, fun hc => ?_⟩⟩
  · cases h.pinVerified.symm.trans hv
  · cases h.pendingSign.symm.trans hp
  · cases h.presenceCached.symm.trans hc

theorem deny_kept (hi : PolicyInv content c past) :
    PoliciesEnforced K content (entry (step K S) c .deny) past ∧
      PolicyInv content c.denyPresence.2 (entry (step K S) c .deny :: past) := by
  have hs : ¬IsSelect (entry (step K S) c .deny) := nofun
  have hno : ∀ slot, signedSlot (entry (step K S) c .deny) ≠ some slot := by
    intro slot hsl
    unfold signedSlot at hsl
    split at hsl <;> cases hsl
  exact ⟨.of_unsigned hno nofun, ⟨hi.verified_later hs fun _ => not_signedWith hno _ _, nofun,
      fun hc => .inr ⟨hs, hi.cached hc⟩⟩⟩

/-- Key-policy enforcement: in every history whose confirmations for a key with a PIN policy find
  the PIN verified, and whose changes of the PIN are stored, every entry enforces the policies. -/
theorem key_policies_enforced (hS : Holds S content) (store : σ) (es : List Event)
    (hkeeps : Along (fun e _ => KeepsVerification K S content e)
      (history (step K S) (new store) es)) :
    Along (PoliciesEnforced K content) (history (step K S) (new store) es) := by
  have hinit : PolicyInv content (new store) [] :=
    ⟨(nomatch ·), fun _ => (nomatch ·), (nomatch ·)⟩
  refine along_history hinit ?_ es hkeeps
  intro c past e hinv hcond
  cases e with
  | select => exact select_kept c past
  | process apdu rng => exact process_kept hS hinv apdu rng (hcond.2 apdu rng rfl)
  | confirm rng =>
    exact confirm_kept hS hinv rng fun pending _ _ => hcond.1 rng pending _ _ rfl
  | deny => exact deny_kept hinv

/-! ## Two runs

  The keys `1` of PIV authentication and of digital signature: both want the PIN for every
  signature, and the first also a touch. -/

def exampleKeys : List (Nat × List UInt8) :=
  [(KeySlot.pivAuth.record, [algEccP256, 0x03, 0x02, 0x20] ++ scalarOne),
    (KeySlot.signature.record, [algEccP256, 0x03, 0x01, 0x20] ++ scalarOne)]

def verifyPin : Apdu := ⟨insVerify, 0x00, refPin, paddedPin defaultPin, none⟩

/-- GENERAL AUTHENTICATE with a key slot over the digest `1`. -/
def signOne (reference : UInt8) : Apdu :=
  ⟨insGeneralAuthenticate, algEccP256, reference, [0x7C, 0x03, 0x81, 0x01, 0x01], none⟩

def confirmedRun : List Event :=
  [.select, .process verifyPin zeros, .process (signOne refPivAuth) zeros, .confirm zeros]

/-- While the request of one key waits for the touch, the other key uses up the verification. -/
def overtakenRun : List Event :=
  [.select, .process verifyPin zeros, .process (signOne refPivAuth) zeros,
    .process (signOne refSignature) zeros, .confirm zeros]

theorem keepsVerification_process
    (h : apdu.ins ≠ insChangeReferenceData) :
    KeepsVerification K S content (entry (step K S) c (.process apdu rng)) := by
  refine ⟨nofun, ?_⟩
  rintro _ _ ⟨⟩ ⟨hi, -⟩
  exact absurd hi h

theorem key_policies_enforced_confirmed :
    (answers (step exampleCrypto memoryStore) (new exampleKeys) confirmedRun).map Response.sw =
      [.ok, .ok, .presenceRequired, .ok] ∧
    Along (PoliciesEnforced exampleCrypto memoryContent)
      (history (step exampleCrypto memoryStore) (new exampleKeys) confirmedRun) := by
  refine ⟨by decide +kernel, key_policies_enforced memoryStore_holds exampleKeys confirmedRun
    ⟨⟨?_, nofun⟩, keepsVerification_process nofun, keepsVerification_process nofun,
      ⟨nofun, nofun⟩, trivial⟩⟩
  intro _ _ _ _ _ _ _ _
  decide +kernel

theorem always_key_signs_twice :
    ¬Along (PoliciesEnforced exampleCrypto memoryContent)
      (history (step exampleCrypto memoryStore) (new exampleKeys) overtakenRun) := by
  rintro ⟨hconfirm, -⟩
  have hsince := hconfirm.pinAlways .always ⟨.pivAuth, by decide +kernel, by decide +kernel⟩
  obtain ⟨apdu, rng, hevent, -, -, hins⟩ | ⟨hends, -⟩ := hsince
  · cases hevent
    exact absurd hins nofun
  · exact hends (.inr ⟨.never, .signature, by decide +kernel, by decide +kernel⟩)

end AegisToken.Applets.Piv
