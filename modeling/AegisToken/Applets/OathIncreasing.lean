/-
  The only-increasing property of OATH credentials (aegis-applets oath.rs).
  PUT accepts and stores the property bit, and no calculation looks at it: whether a TOTP code is
  released depends on the request and on the state, not on the challenges that were answered before
  (`released_iff_served`). So the released challenges go up exactly where the requests do.
-/
import AegisToken.Applets.OathHotp

namespace AegisToken.Applets.Oath
open ByteCodec History

variable {σ : Type} {K : OathCrypto} {S : OathStore σ}

/-! ## The statement -/

/-- A TOTP credential of the name with the only-increasing property. -/
def Increasing (name : List UInt8) (credential : Credential) : Prop :=
  credential.name.val = name ∧ credential.kind = typeTotp ∧
    credential.property &&& propertyOnlyIncreasing ≠ 0

/-- The request of an event: a calculation with the credential and the challenge, or a CALCULATE ALL
  with the challenge over credentials with this one, which needs no touch. -/
def Requests (S : OathStore σ) (name challenge : List UInt8) (credential : Credential)
    (e : Log σ) : Prop :=
  Increasing name credential ∧
    ((∃ k, calculation S e.before e.event = some k ∧ k.credential = credential ∧
        k.challenge = challenge) ∨
      ∃ apdu, e.event = .process apdu ∧ apdu.ins = insCalculateAll ∧
        Tlv.find apdu.data tagChallenge = some challenge ∧
        credential ∈ (e.before.loadState S).credentials.val ∧ ¬credential.NeedsTouch)

/-- The entry releases a code of the credential, for the challenge. -/
def ReleasesFor (S : OathStore σ) (name challenge : List UInt8) (e : Log σ) : Prop :=
  (∃ credential, Requests S name challenge credential e) ∧ e.answer.sw = .ok

/-- A CALCULATE ALL finds the applet open, is authorised, and there is an answer that fits. -/
def ServesAll (S : OathStore σ) (e : Log σ) : Prop :=
  ∀ apdu, e.event = .process apdu → apdu.ins = insCalculateAll →
    (e.before.loadState S).closed = false ∧ Authorised (e.before.loadState S) ∧
    (∀ credential ∈ (e.before.loadState S).credentials.val, Answerable credential) ∧
    ((e.before.loadState S).credentials.val.map (entryLength (apdu.p2 = 0x01))).sum ≤ outBytes

/-- A request that can be served as it stands: the challenge has 8 bytes, the algorithm is known,
  and a CALCULATE ALL can be answered. Nothing is asked about the value of the challenge. -/
def Servable (S : OathStore σ) (name challenge : List UInt8) (e : Log σ) : Prop :=
  ∃ credential, Requests S name challenge credential e ∧ challenge.length = 8 ∧
    KnownAlgorithm credential ∧ ServesAll S e

/-- The challenge of the entry is above those of the earlier ones since the last PUT of the name. -/
def Rises (P : List UInt8 → Log σ → Prop) (name : List UInt8) (e : Log σ)
    (past : List (Log σ)) : Prop :=
  ∀ challenge, P challenge e → ∀ earlier, Since (fun x _ => P earlier x) (IsPut name) past →
    ofBE earlier < ofBE challenge

/-! ## One request -/

section
variable {c : Oath σ} {e : Event} {apdu : Apdu} {name challenge : List UInt8}

theorem Increasing.kind_ne {credential : Credential} (h : Increasing name credential) :
    credential.kind ≠ typeHotp := by
  rw [h.2.1]
  decide

/-- A calculation with a TOTP credential succeeds exactly where the code is computed. -/
theorem calculation_ok_iff {k : Calculation} (hk : calculation S c e = some k)
    (h : Increasing name k.credential) :
    (step K S c e).1.sw = .ok ↔ k.challenge.length = 8 ∧ KnownAlgorithm k.credential := by
  have hkn := h.kind_ne
  obtain ⟨hin, pending, hst⟩ := step_calculation hk
  rw [hst, calculateIndex_eq (show ({ c.loadState S with pending } : Oath
    σ).credentials.val[k.index]? = _ from hin), ← compute_isSome_iff hkn _ k.truncated]
  rcases computeCredential K k.credential k.challenge k.truncated with _ | code
  · exact iff_of_false nofun nofun
  · dsimp only
    rw [if_neg hkn]
    exact iff_of_true rfl rfl

theorem appendCodes_error_ne {truncated : Bool} {out : List UInt8} {l : List Credential} {sw : Sw}
    (h : appendCodes K challenge truncated out l = .error sw) : sw ≠ .ok := by
  induction l generalizing out with
  | nil => cases h
  | cons credential l ih =>
    unfold appendCodes at h
    iterate 3
      split at h
      · cases h
        decide
    · exact ih h

/-- CALCULATE ALL succeeds exactly where it can be served, for a challenge of 8 bytes. -/
theorem calculateAll_ok_iff (hi : apdu.ins = insCalculateAll)
    (hch : Tlv.find apdu.data tagChallenge = some challenge) :
    (c.process K S apdu).1.sw = .ok ↔
      challenge.length = 8 ∧ ServesAll S (entry (step K S) c (.process apdu)) := by
  have hs : ServesAll S (entry (step K S) c (.process apdu)) ↔
      (c.loadState S).closed = false ∧ Authorised (c.loadState S) ∧
        (∀ credential ∈ (c.loadState S).credentials.val, Answerable credential) ∧
        ((c.loadState S).credentials.val.map (entryLength (apdu.p2 = 0x01))).sum ≤ outBytes :=
    ⟨fun h => h apdu rfl hi, fun h apdu' hev _ => by cases hev; exact h⟩
  rw [hs]
  rcases process_cases c apdu with ⟨hcl, -, heq⟩ | ⟨hon, heq, -⟩
  · rw [heq, hcl]
    exact iff_of_false nofun (by simp)
  have hcl := hon.resolve_right (by rw [hi]; decide)
  have hds : (c.loadState S).dispatch K S apdu =
      ((c.loadState S).calculateAll K apdu, c.loadState S) := by
    unfold dispatch
    rw [hi, if_neg nofun, if_neg nofun, if_neg nofun,
      if_neg (fun hp => absurd hp.1 nofun), if_neg (fun hp => absurd hp.1 nofun),
      if_neg nofun, if_neg nofun, if_pos rfl]
  rw [heq, hds, hcl]
  unfold calculateAll
  by_cases hah : Authorised (c.loadState S)
  · rw [requireAuth_ok hah, hch]
    dsimp only
    by_cases hl : challenge.length = 8
    · rw [if_neg (not_not.mpr hl), ← appendCodes_ok_iff (K := K) hl]
      rcases ha : appendCodes K challenge (apdu.p2 = 0x01) []
          (c.loadState S).credentials.val with sw | out
      · exact iff_of_false (appendCodes_error_ne ha) (by simp)
      · exact iff_of_true rfl ⟨hl, rfl, hah, out, rfl⟩
    · rw [if_pos hl]
      exact iff_of_false nofun (fun h => hl h.1)
  · rw [requireAuth_error hah]
    exact iff_of_false nofun (fun h => hah h.2.2.1)

theorem calculation_calculateAll (hi : apdu.ins = insCalculateAll) :
    calculation S c (.process apdu) = none := by
  exact if_neg fun h => absurd (hi.symm.trans h.1) (by decide)

/-- Every request that can be served is, whatever was released before. -/
theorem released_iff_served (name challenge : List UInt8) :
    ReleasesFor S name challenge (entry (step K S) c e) ↔
      Servable S name challenge (entry (step K S) c e) := by
  constructor
  · rintro ⟨⟨credential, hi, hr⟩, hok⟩
    refine ⟨credential, ⟨hi, hr⟩, ?_⟩
    rcases hr with ⟨k, hk, rfl, rfl⟩ | ⟨apdu, hev, hn, hch, hm, htc⟩
    · obtain ⟨hl, hkn⟩ := (calculation_ok_iff hk hi).mp hok
      refine ⟨hl, hkn, fun apdu hev hn => ?_⟩
      subst hev
      cases (calculation_calculateAll hn).symm.trans hk
    subst hev
    obtain ⟨hl, hs⟩ := (calculateAll_ok_iff hn hch).mp hok
    have ha := (hs apdu rfl hn).2.2.1 credential hm
    exact ⟨hl, (ha.resolve_left hi.kind_ne).resolve_left htc, hs⟩
  · rintro ⟨credential, ⟨hi, hr⟩, hl, hkn, hs⟩
    refine ⟨⟨credential, hi, hr⟩, ?_⟩
    rcases hr with ⟨k, hk, rfl, rfl⟩ | ⟨apdu, hev, hn, hch, -⟩
    · exact (calculation_ok_iff hk hi).mpr ⟨hl, hkn⟩
    · subst hev
      exact (calculateAll_ok_iff hn hch).mpr ⟨hl, hs⟩

end

/-! ## Whole histories -/

theorem rises_congr {P Q : List UInt8 → Log σ → Prop} {h : List (Log σ)} (name : List UInt8)
    (hPQ : ∀ e ∈ h, ∀ challenge, P challenge e ↔ Q challenge e) :
    Along (Rises P name) h ↔ Along (Rises Q name) h := by
  induction h with
  | nil => exact Iff.rfl
  | cons e h ih =>
    have hps : ∀ x ∈ h, ∀ challenge, P challenge x ↔ Q challenge x :=
      fun x hx => hPQ x (List.mem_cons_of_mem e hx)
    refine and_congr ?_ (ih hps)
    refine forall_congr' fun challenge => imp_congr (hPQ e List.mem_cons_self challenge) ?_
    exact forall_congr' fun earlier => imp_congr_left (since_congr fun x hx _ => hps x hx earlier)

/-- The challenges of the released codes rise exactly where those of the servable requests do. -/
theorem only_increasing_iff (K : OathCrypto) (S : OathStore σ) (store : σ) (name : List UInt8)
    (es : List Event) :
    Along (Rises (ReleasesFor S name) name) (history (step K S) (new store) es) ↔
      Along (Rises (Servable S name) name) (history (step K S) (new store) es) := by
  refine rises_congr name fun e he challenge => ?_
  obtain ⟨c, event, rfl⟩ := mem_history he
  exact released_iff_served name challenge

/-- PUT of a TOTP credential `"a"` with the only-increasing property. -/
def putIncreasing : Apdu :=
  ⟨insPut, 0, 0, [0x71, 1, 0x61, 0x73, 3, 0x21, 6, 0x01, 0x78, 1, 0x01], none⟩

/-- CALCULATE of it with a challenge. -/
def calculateTotp (challenge : Nat) : Apdu :=
  ⟨insCalculate, 0, 0, [0x71, 1, 0x61, 0x74, 8] ++ toBE 8 challenge, none⟩

def calculateAllTotp (challenge : Nat) : Apdu :=
  ⟨insCalculateAll, 0, 0, [0x74, 8] ++ toBE 8 challenge, none⟩

/-- The challenge 2, then 1, then 1 again, then 0: every one gets its code. -/
theorem only_increasing_not_enforced :
    answers (step codeCrypto memory) (new [])
      [.process putIncreasing, .process (calculateTotp 2), .process (calculateTotp 1),
        .process (calculateTotp 1), .process (calculateAllTotp 0)] =
      [.status .ok, hotpAnswer 2, hotpAnswer 1, hotpAnswer 1,
        elementsAnswer [(tagName, [0x61]), (tagResponse, 6 :: (codeDigest 0).val)]] := by
  decide +kernel

end AegisToken.Applets.Oath
