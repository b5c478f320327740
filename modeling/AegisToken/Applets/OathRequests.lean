/-
  What OATH requests get for an answer (aegis-applets oath.rs).
  A touch is asked for before a code is calculated, and the challenge waits in a buffer of 8 bytes:
  a shorter one comes back with zeros in front. So the touch changes the answer for every challenge
  that is longer, and for a TOTP challenge that is shorter (`touched_eq_iff`). CALCULATE ALL answers
  for every set of stored credentials whose names and codes fit the buffer (`calculateAll_answer`).
-/
import AegisToken.Applets.OathIncreasing
import AegisToken.Applets.OathTouch
import AegisToken.Applets.Router

namespace AegisToken.Applets.Oath
open ByteCodec History

variable {σ : Type} {K : OathCrypto} {S : OathStore σ} {c : Oath σ} {apdu : Apdu} {k : Calculation}

/-! ## Touch -/

/-- CALCULATE, and the touch when it asks for one. -/
def calculateTouched (K : OathCrypto) (S : OathStore σ) (apdu : Apdu) (c : Oath σ) :
    Response × Oath σ :=
  if (c.calculate K S apdu).1 = .presenceRequired then (c.calculate K S apdu).2.confirmPresence K S
  else c.calculate K S apdu

def Credential.withoutTouch (credential : Credential) : Credential :=
  { credential with property := credential.property &&& ~~~propertyTouch }

/-- The answer of a run, and the counter at an index after it. -/
def observed (index : Nat) (x : Response × Oath σ) : Response × Option UInt32 :=
  (x.1, x.2.credentials.val[index]?.map (·.counter))

/-- What a calculation ends with, when it can be saved. -/
def outcome (K : OathCrypto) (k : Calculation) : Response × Option UInt32 :=
  match computeCredential K k.credential k.challenge k.truncated with
  | none => (.status .noPreciseDiagnosis, some k.credential.counter)
  | some code => (codeAnswer k.truncated code,
      some (if k.credential.kind = typeHotp then k.credential.counter + 1 else k.credential.counter))

theorem calculateIndex_observed (hs : ∀ data store, (S.save data store).1 = true)
    (hk : c.credentials.val[k.index]? = some k.credential) :
    observed k.index (c.calculateIndex K S k.index k.challenge k.truncated) = outcome K k := by
  rw [calculateIndex_eq hk]
  unfold outcome
  rcases computeCredential K k.credential k.challenge k.truncated with _ | code
  · simp [observed, hk]
  dsimp only
  split_ifs
  · obtain ⟨hlt, -⟩ := List.getElem?_eq_some_iff.mp hk
    rw [saveAnswer_eq]
    simp [observed, saveState, hs, written, counted, Credentials.set, Credential.next, hlt]
  · simp [observed, hk]

theorem not_needsTouch (credential : Credential) : ¬credential.withoutTouch.NeedsTouch := by
  refine not_not.mpr ?_
  change credential.property &&& ~~~propertyTouch &&& propertyTouch = 0
  rw [UInt8.and_assoc]
  exact UInt8.and_zero

/-- The calculation that waits for a touch. -/
def Calculation.armed (k : Calculation) : Calculation :=
  { k with challenge := (padded k.challenge).val }

theorem confirm_observed (hl : c.loaded = true) (hcl : c.closed = false)
    (hs : ∀ data store, (S.save data store).1 = true)
    (hk : c.credentials.val[k.index]? = some k.credential) :
    observed k.index (confirmPresence K S
      { c with pending := some ⟨k.index, padded k.challenge, k.truncated⟩ }) = outcome K k.armed := by
  obtain ⟨hlt, -⟩ := List.getElem?_eq_some_iff.mp hk
  unfold confirmPresence stateAvailable loadState
  rw [if_pos hl]
  dsimp only
  rw [if_neg (by rw [hcl]; decide), if_neg (Nat.not_le.mpr hlt)]
  exact calculateIndex_observed (c := { c with pending := none }) (k := k.armed) hs hk

theorem outcome_armed_iff : outcome K k.armed = outcome K k ↔
    k.challenge.length = 8 ∨ k.credential.kind = typeHotp ∨ ¬KnownAlgorithm k.credential := by
  by_cases hl : k.challenge.length = 8
  · simp [Calculation.armed, padded_of_length hl, hl]
  by_cases hkn : k.credential.kind = typeHotp
  · simp [outcome, Calculation.armed, computeCredential_eq, movingFactor, hkn]
  -- A TOTP code is not computed for the short challenge, and it is for the one with zeros.
  have hno : computeCredential K k.credential k.challenge k.truncated = none :=
    Option.not_isSome_iff_eq_none.mp fun hc => hl ((compute_isSome_iff hkn _ _).mp hc).1
  have hiff := compute_isSome_iff (K := K) hkn (padded k.challenge).val k.truncated
  rw [and_iff_right (padded k.challenge).property] at hiff
  rw [← hiff]
  unfold outcome Calculation.armed
  rw [hno]
  rcases computeCredential K k.credential (padded k.challenge).val k.truncated with _ | code
  · simp
  · refine iff_of_false (fun h => ?_) (by simp [hl, hkn])
    cases congrArg (·.1.sw) h

/-- A touch leaves the answer and the counter as they are exactly for a challenge of 8 bytes, or a
  shorter one that is not read or does not lead to a code. -/
theorem touched_eq_iff {c' : Oath σ} (hl : c.loaded = true) (hcl : c.closed = false)
    (hs : ∀ data store, (S.save data store).1 = true) (hah : Authorised c ↔ Authorised c')
    (hr : c.requested apdu = some k) (htc : k.credential.NeedsTouch)
    (hr' : c'.requested apdu = some { k with credential := k.credential.withoutTouch }) :
    observed k.index (c.calculateTouched K S apdu) =
        observed k.index (c'.calculateTouched K S apdu) ↔
      (Authorised c → k.challenge.length ≤ 8 ∧
        (k.challenge.length = 8 ∨ k.credential.kind = typeHotp ∨
          ¬KnownAlgorithm k.credential)) := by
  have hk := requested_index hr
  have hk' := requested_index hr'
  unfold calculateTouched
  by_cases hc : Authorised c
  · rw [calculate_requested (hah.mp hc) hr', if_neg (not_needsTouch _),
      if_neg (calculateIndex_keeps hk').2.2.2.1, calculateIndex_observed hs hk',
      calculate_requested hc hr, if_pos htc, forall_prop_of_true hc]
    by_cases h8 : k.challenge.length ≤ 8
    · rw [if_neg (Nat.not_lt.mpr h8), if_pos rfl, confirm_observed hl hcl hs hk,
        and_iff_right h8, ← outcome_armed_iff (K := K)]
      rfl
    · rw [if_pos (Nat.not_le.mp h8),
        if_neg (show Response.status .wrongData ≠ .presenceRequired by decide)]
      refine iff_of_false (fun h => ?_) fun h => h8 h.1
      unfold outcome at h
      split at h <;> cases congrArg (·.1.sw) h
  · have hrf : ∀ {c : Oath σ}, ¬Authorised c →
        c.calculate K S apdu = (.status .securityStatusNotSatisfied, c) := fun h => by
      rw [calculate, requireAuth_error h]
    have hsw : Response.status .securityStatusNotSatisfied ≠ .presenceRequired := by decide
    rw [hrf hc, hrf fun h => hc (hah.mpr h), if_neg hsw, if_neg hsw]
    refine iff_of_true (Prod.ext rfl ?_) fun h => absurd h hc
    change c.credentials.val[k.index]?.map _ = c'.credentials.val[k.index]?.map _
    rw [hk, hk']
    rfl

/-- An open applet with this credential. -/
def appletOf (credential : Credential) : Oath (List UInt8) :=
  { new [] with credentials := ⟨[credential], Nat.le_add_left 1 15⟩, loaded := true }

def observedOf (credential : Credential) (challenge : List UInt8) : Response × Option UInt32 :=
  observed 0 ((appletOf credential).calculateTouched exampleCrypto memory (calculateFor challenge))

theorem touched_eq_iff_full :
    observedOf touchCredential (toBE 8 5) =
      observedOf touchCredential.withoutTouch (toBE 8 5) :=
  (touched_eq_iff (k := ⟨0, touchCredential, toBE 8 5, true⟩) rfl rfl
    (fun _ _ => rfl) (show Authorised (appletOf touchCredential) ↔
      Authorised (appletOf touchCredential.withoutTouch) from Iff.rfl) (by decide +kernel)
    (by decide) (by decide +kernel)).mpr fun _ => ⟨by decide, .inl rfl⟩

/-- For a challenge of one byte there is no code, and a touch releases one. -/
theorem touch_changes_the_answer :
    (observedOf touchCredential [5]).1.sw = .ok ∧
      (observedOf touchCredential.withoutTouch [5]).1.sw = .noPreciseDiagnosis := by
  decide +kernel

/-! ## CALCULATE ALL -/

theorem putCredential_known {data : List UInt8} {credential : Credential}
    (h : putCredential data = some credential) : KnownAlgorithm credential := by
  unfold putCredential at h
  split at h
  · cases h
  rename_i name key property counter hp
  split at h
  · cases h
  obtain ⟨bytes, -, rfl⟩ := Option.map_eq_some_iff.mp h
  obtain ⟨name, -, hp⟩ := Option.bind_eq_some_iff.mp hp
  obtain ⟨value, -, hp⟩ := Option.bind_eq_some_iff.mp hp
  split at hp
  · dsimp only at hp
    iterate 4
      split at hp
      · cases hp
    rename_i ha _
    obtain ⟨secret, -, hp⟩ := Option.bind_eq_some_iff.mp hp
    revert hp
    rcases Tlv.find data tagProperty with _ | _ <;> rcases Tlv.find data tagImf with _ | _ <;>
      intro hp <;> dsimp only [Option.bind_eq_bind, Option.bind_some, Option.bind_none] at hp <;>
      split_ifs at hp <;> cases hp <;> unfold KnownAlgorithm <;> tauto
  · cases hp

/-- Over credentials that PUT accepted, CALCULATE ALL names each one with one element for its code,
  when all of that fits the buffer of the answer, and the answer fits that of the router. -/
theorem calculateAll_answer (hno : c.authKey.val = [])
    (hput : ∀ credential ∈ c.credentials.val, ∃ data, putCredential data = some credential)
    {challenge : List UInt8} (hch : Tlv.find apdu.data tagChallenge = some challenge)
    (h8 : challenge.length = 8) :
    (c.calculateAll K apdu = .ok (codeBytes K challenge (apdu.p2 = 0x01) c.credentials.val) ↔
      (c.credentials.val.map (entryLength (apdu.p2 = 0x01))).sum ≤ outBytes) ∧
    (c.calculateAll K apdu).data.length ≤ defaultResponseBytes ∧
    ∀ credential ∈ c.credentials.val, ∃ tag value,
      codeElements K challenge (apdu.p2 = 0x01) credential =
        [(tagName, credential.name.val), (tag, value)] ∧
      tag ∈ [tagHotp, tagTouch, tagTruncated, tagResponse] := by
  have hkn : ∀ credential ∈ c.credentials.val, Answerable credential := fun credential hm =>
    .inr (.inr (putCredential_known (hput credential hm).choose_spec))
  have hans : c.calculateAll K apdu =
      if (codeBytes K challenge (apdu.p2 = 0x01) c.credentials.val).length ≤ outBytes then
        .ok (codeBytes K challenge (apdu.p2 = 0x01) c.credentials.val)
      else .status .notEnoughMemory := by
    unfold calculateAll
    rw [requireAuth_ok (.inl hno), hch]
    dsimp only
    rw [if_neg (not_not.mpr h8), appendCodes_eq h8 hkn, appendElements_eq (Nat.zero_le _),
      List.nil_append]
    unfold codeBytes
    split_ifs <;> rfl
  rw [hans, ← length_codeBytes (K := K) h8 hkn]
  refine ⟨?_, ?_, fun credential hm => ?_⟩
  · split_ifs with h
    · exact iff_of_true rfl h
    · exact iff_of_false (fun h => by cases congrArg Response.sw h) h
  · split_ifs with h
    · exact h
    · exact Nat.zero_le _
  · obtain ⟨tag, value, he, ht, -⟩ :=
      codeElement_answerable (K := K) h8 (hkn _ hm) (apdu.p2 = 0x01)
    refine ⟨tag, value, ?_, ht⟩
    rw [codeElements, he]
    rfl

/-- A credential without the touch property gets its code. -/
theorem calculateAll_answer_totp :
    let k := { touchCredential with property := 0 }
    (appletOf k).calculateAll codeCrypto (calculateAllTotp 1) =
        .ok (codeBytes codeCrypto (toBE 8 1) false [k]) ∧
      codeElements codeCrypto (toBE 8 1) false k =
        [(tagName, [0x61]), (tagResponse, 6 :: (codeDigest 1).val)] :=
  ⟨(calculateAll_answer rfl
    (fun _ h => ⟨putOne.data, by rw [List.mem_singleton.mp h]; decide +kernel⟩)
    (by decide +kernel) rfl).1.mpr (by decide +kernel), by decide +kernel⟩

/-- PUT of a SHA-512 TOTP credential with a name of 64 bytes. -/
def putLong (first : Nat) : Apdu :=
  ⟨insPut, 0, 0, [0x71, 64, UInt8.ofNat first] ++ List.replicate 63 0x61 ++
    [0x73, 3, 0x23, 6, 0x01], none⟩

/-- Sixteen of them are accepted, and their codes do not fit. -/
theorem calculateAll_overflows :
    (answers (step codeCrypto memory) (new [])
      ((List.range 16).map (.process ∘ putLong) ++ [.process (calculateAllTotp 1)])).map (·.sw) =
      List.replicate 16 .ok ++ [.notEnoughMemory] := by
  decide +kernel

end AegisToken.Applets.Oath
