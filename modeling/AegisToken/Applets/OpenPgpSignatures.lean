/-
  The signatures of the OpenPGP card applet, over whole runs with saves that may fail.
  A VERIFY of reference `81` allows one signature: the signature takes the permission away, and so
  does a SELECT. So each signature that is released has a VERIFY of its own before it.
  The signature counter counts with the key: it restarts when GENERATE puts a key into the slot,
  and moves with every signature, which is released once the state with the new counter is saved.
  So the saved counter is at or above the number of signatures released with the key since it was
  put in place, until the counter wraps.
  A GENERATE whose save fails has put its key in place all the same, with the counter at zero. From
  the last GENERATE that succeeded, more signatures can be released than the counter says.
-/
import AegisToken.Applets.OpenPgpRetries

namespace AegisToken.Applets.OpenPgp
open ByteCodec History

variable {σ : Type} {K : PgpCrypto} {S : OpenPgpStore σ} {content : σ → Option (List UInt8)}

/-! ## Signatures and keys in a history -/

def Event.Sends (p : Apdu → Prop) : Event → Prop
  | .select => False
  | .process apdu _ => p apdu

instance (p : Apdu → Prop) [DecidablePred p] : DecidablePred (Event.Sends p)
  | .select => inferInstanceAs (Decidable False)
  | .process apdu _ => inferInstanceAs (Decidable (p apdu))

/-- VERIFY of PW1 for a signature. -/
def isVerifySign (apdu : Apdu) : Prop := apdu.ins = insVerify ∧ apdu.p2 = 0x81

def isGenerateSign (apdu : Apdu) : Prop := isGenerate apdu ∧ templateSlot apdu.data = some 0

def Releases (x : Log σ) : Prop := x.event.Sends isSign ∧ x.answer.sw = .ok

def Verifies (x : Log σ) : Prop := x.event.Sends isVerifySign ∧ x.answer.sw = .ok

/-- A signature with this key is released. -/
def ReleasesWith (key : KeySlot) (x : Log σ) : Prop := Releases x ∧ x.before.keys 0 = key

/-- GENERATE puts this key into the signature slot. It answers `6A84` when the state with the key
  could not be saved. -/
def Installs (K : PgpCrypto) (S : OpenPgpStore σ) (key : KeySlot) (x : Log σ) : Prop :=
  x.event.Sends isGenerateSign ∧ (x.answer.sw = .ok ∨ x.answer.sw = .notEnoughMemory) ∧
    (step K S x.before x.event).2.keys 0 = key

/-- A signature with this key takes the counter from its last value to zero. -/
def Wraps (K : PgpCrypto) (S : OpenPgpStore σ) (key : KeySlot) (x : Log σ) : Prop :=
  x.event.Sends isSign ∧ x.before.keys 0 = key ∧ x.before.signatureCounter = 2 ^ 32 - 1 ∧
    (step K S x.before x.event).2.signatureCounter = 0

instance : DecidablePred isSign := fun _ => inferInstanceAs (Decidable (_ ∧ _))
instance : DecidablePred isGenerate := fun _ => inferInstanceAs (Decidable (_ ∧ _))
instance : DecidablePred isVerifySign := fun _ => inferInstanceAs (Decidable (_ ∧ _))
instance : DecidablePred isGenerateSign := fun _ => inferInstanceAs (Decidable (_ ∧ _))
instance : DecidablePred (Releases (σ := σ)) := fun _ => inferInstanceAs (Decidable (_ ∧ _))
instance : DecidablePred (Verifies (σ := σ)) := fun _ => inferInstanceAs (Decidable (_ ∧ _))
instance (key : KeySlot) : DecidablePred (ReleasesWith (σ := σ) key) :=
  fun _ => inferInstanceAs (Decidable (_ ∧ _))
instance (key : KeySlot) : DecidablePred (Installs K S key) :=
  fun _ => inferInstanceAs (Decidable (_ ∧ _ ∧ _))
instance : DecidablePred (IsSelect (σ := σ)) := fun x =>
  match hx : x.event with
  | .select => .isTrue hx
  | .process _ _ => .isFalse fun h => Event.noConfusion (hx.symm.trans h)

/-- The number of signatures released with a key since it was put in place. -/
def released (K : PgpCrypto) (S : OpenPgpStore σ) (key : KeySlot) (h : List (Log σ)) : Nat :=
  countSince (ReleasesWith key) (Installs K S key) h

/-- The counter has wrapped since the key was put in place. -/
def Wrapped (K : PgpCrypto) (S : OpenPgpStore σ) (key : KeySlot) (h : List (Log σ)) : Prop :=
  Since (fun x _ => Wraps K S key x) (Installs K S key) h

/-- What holds of an event and its past: a signature was verified for, after the SELECT and after
  the signature before it, and is released with its counter in the store. -/
structure SignatureCounted (K : PgpCrypto) (S : OpenPgpStore σ)
    (content : σ → Option (List UInt8)) (x : Log σ) (past : List (Log σ)) : Prop where
  verified : Releases x →
    Since (fun y _ => Verifies y) (fun y => IsSelect y ∨ Releases y) past
  counted : countSince Releases IsSelect (x :: past) ≤ countSince Verifies IsSelect (x :: past)
  saved : Releases x → content (step K S x.before x.event).2.store =
    some (step K S x.before x.event).2.encodeState
  stored : Releases x → ¬Wrapped K S (x.before.keys 0) (x :: past) →
    released K S (x.before.keys 0) (x :: past) ≤
      (step K S x.before x.event).2.signatureCounter.toNat

/-! ## What a command does to the signature key -/

section
variable {c : OpenPgp σ} {apdu : Apdu} {rng : Rng} {c₁ : OpenPgp σ} {answer : Response}
  {c' : OpenPgp σ}

theorem process_generate (h : isGenerate apdu) :
    c.process K S apdu rng = c.generate K S apdu rng := by
  have hne : ∀ ins, ins ≠ insGenerate → apdu.ins ≠ ins := by
    intro ins hi heq
    exact hi (heq.symm.trans h.1)
  have hs : ∀ p : Prop, ¬(apdu.ins = insPso ∧ p) := fun p hp => hne _ (by decide) hp.1
  unfold process
  rw [if_neg (hne _ (by decide)), if_neg (hne _ (by decide)), if_neg (hne _ (by decide)),
    if_neg (hne _ (by decide)), if_neg (hne _ (by decide)), if_neg (hs _), if_neg (hs _),
    if_neg (hne _ (by decide))]
  exact if_pos h

theorem constructedOutput_sw (tag : Nat) (value : List UInt8) :
    (constructedOutput tag value).sw = .ok ∨
      (constructedOutput tag value).sw = .notEnoughMemory := by
  unfold constructedOutput
  split
  · exact .inl rfl
  · exact .inr rfl

theorem rsaPublicKeyResponse_sw (key : Rsa2048PublicKey) :
    (rsaPublicKeyResponse key).sw = .ok ∨ (rsaPublicKeyResponse key).sw = .notEnoughMemory := by
  unfold rsaPublicKeyResponse
  split
  · exact .inr rfl
  · split
    · exact .inr rfl
    · exact constructedOutput_sw _ _

/-- GENERATE changes nothing, or puts a key into the slot that its template names. -/
theorem generate_cases (c : OpenPgp σ) (apdu : Apdu) (rng : Rng) :
    (c.generate K S apdu rng).2 = c ∨
    ∃ index key answer, templateSlot apdu.data = some index ∧
      (answer.sw = .ok ∨ answer.sw = .notEnoughMemory) ∧
      c.generate K S apdu rng = (c.installKey index key).saveAnswer S answer := by
  unfold generate
  split
  · exact .inl rfl
  split
  · exact .inl rfl
  rename_i index ht
  dsimp only
  split
  · unfold generateRsa
    split
    · exact .inl rfl
    · exact .inr ⟨index, _, _, ht, rsaPublicKeyResponse_sw _, rfl⟩
  · split
    · exact .inl rfl
    · exact .inr ⟨index, _, _, ht, constructedOutput_sw _ _, rfl⟩

/-- The signature key and its counter are those of another state, or there is no key. -/
def SameSignatureKey (c c' : OpenPgp σ) : Prop :=
  (c'.keys 0).present = true → c'.keys 0 = c.keys 0 ∧ c'.signatureCounter = c.signatureCounter

/-- What a command, as the entry `x`, can do to the permission to sign, the signature key and the
  counter. -/
inductive SignatureEffect (K : PgpCrypto) (S : OpenPgpStore σ) (c : OpenPgp σ) (x : Log σ)
    (c' : OpenPgp σ) : Prop
  | kept : ¬Releases x → ¬Verifies x → c'.pw1SignatureVerified = c.pw1SignatureVerified →
      SameSignatureKey c c' → SignatureEffect K S c x c'
  | verified : ¬Releases x → Verifies x → SameSignatureKey c c' → SignatureEffect K S c x c'
  | installed : ¬Releases x → ¬Verifies x → c'.pw1SignatureVerified = c.pw1SignatureVerified →
      Installs K S (c'.keys 0) x → SignatureEffect K S c x c'
  | signed : x.event.Sends isSign → ¬Verifies x → c.pw1SignatureVerified = true →
      c'.pw1SignatureVerified = false → (c.keys 0).present = true → c'.keys 0 = c.keys 0 →
      c'.signatureCounter = c.signatureCounter + 1 → SignatureEffect K S c x c'

theorem persistState_signature (c : OpenPgp σ) :
    (c.persistState S).2.pw1SignatureVerified = c.pw1SignatureVerified ∧
      (c.persistState S).2.signatureCounter = c.signatureCounter := by
  rw [persistState_eq]
  exact ⟨rfl, rfl⟩

theorem putAlgo_counter {index : Fin 3} {value : List UInt8} (h : c.putAlgo index value = some c₁) :
    c₁.signatureCounter = c.signatureCounter := by
  unfold putAlgo at h
  simp only [Option.bind_eq_bind, Option.bind_eq_some_iff] at h
  obtain ⟨algo, -, h⟩ := h
  split at h
  · cases h
  · cases h
    rfl

theorem putObject_counter (h : c.putObject apdu = some c₁) :
    c₁.signatureCounter = c.signatureCounter := by
  have hfl : ∀ {n : Nat} {f : BoundedBytes n → OpenPgp σ} {value : Option (BoundedBytes n)},
      value.map f = some c₁ → (∀ v, (f v).signatureCounter = c.signatureCounter) →
      c₁.signatureCounter = c.signatureCounter := by
    intro n f value hm hf
    obtain ⟨v, -, rfl⟩ := Option.map_eq_some_iff.mp hm
    exact hf v
  unfold putObject at h
  split at h
  · exact hfl h fun _ => rfl
  · exact hfl h fun _ => rfl
  · split at h
    · cases h
      rfl
    · cases h
  · exact hfl h fun _ => rfl
  · exact hfl h fun _ => rfl
  · exact putAlgo_counter h
  · exact putAlgo_counter h
  · exact putAlgo_counter h
  · unfold putEcdhMaterial at h
    split at h
    · cases h
    simp only [Option.bind_eq_bind, Option.bind_eq_some_iff] at h
    obtain ⟨material, -, h⟩ := h
    cases h
    rfl
  · cases h

/-- PUT DATA leaves the signature key or empties its slot. -/
theorem putObject_sameSignatureKey (h : c.putObject apdu = some c₁) :
    SameSignatureKey c c₁ := by
  have hc : c₁.signatureCounter = c.signatureCounter := putObject_counter h
  intro hpr
  refine ⟨?_, hc⟩
  obtain ⟨-, hks | ⟨index, algo, hks⟩ | ⟨material, -, hks⟩⟩ := putObject_cases h
  · rw [hks]
  · by_cases hin : index = 0
    · rw [hks, hin] at hpr
      cases hpr
    · rw [hks, Function.update_of_ne (Ne.symm hin)]
  · rw [hks, Function.update_of_ne (by decide)]

/-- A save and a persist keep the store or put the state into it. -/
theorem saveState_content (hS : Keeps S content) (c : OpenPgp σ) :
    content (c.saveState S).2.store = content c.store ∨
      content (c.saveState S).2.store = some (c.saveState S).2.encodeState :=
  hS.unsaved c.encodeState c.store

theorem encodeState_persistState (c : OpenPgp σ) :
    (c.persistState S).2.encodeState = c.encodeState := by
  rw [persistState_eq]
  rfl

theorem persistState_content (hS : Keeps S content) (c : OpenPgp σ) :
    content (c.persistState S).2.store = content c.store ∨
      content (c.persistState S).2.store = some (c.persistState S).2.encodeState := by
  rw [encodeState_persistState, (persistState_store c).1]
  exact hS.unsaved c.encodeState c.store

/-- A signature is refused and nothing changes, or it is counted and the state is saved. -/
theorem Effect.of_sign (h : Effect K S c apdu rng answer c') (hsg : isSign apdu) :
    (answer.sw ≠ .ok ∧ c' = c) ∨
    (c.pw1SignatureVerified = true ∧ (c.keys 0).present = true ∧ ∃ signature c₁,
      c₁ = { c with signatureCounter := c.signatureCounter + 1, pw1SignatureVerified := false } ∧
      answer = written (c₁.saveState S).1 (simpleOutput signature) ∧ c' = (c₁.saveState S).2) := by
  have hi : ∀ {ins}, apdu.ins = ins → ins = insPso := fun h => h.symm.trans hsg.1
  cases h with
  | idle _ hok => exact .inl ⟨fun hsw => (hok hsw).2.2.2.2.1 hsg, rfl⟩
  | pinAccepted h | pinChanged _ _ h | pinUnblocked h | objectPut h =>
    exact absurd (hi h) nofun
  | pinWrong pw h =>
    unfold presented at h
    rw [if_neg (by rw [hsg.1]; decide), if_neg (by rw [hsg.1]; decide)] at h
    cases h
  | pinKept h => exact absurd (h.imp hi hi) nofun
  | keyGenerated _ _ h => exact absurd (hi h.1) nofun
  | signed _ hv hpr _ hc₁ =>
    exact .inr ⟨hv, hpr, _, _, hc₁, rfl, rfl⟩

/-- A signature that is released was counted in the state that is saved. -/
theorem Effect.saved_of_sign (hS : Keeps S content) (h : Effect K S c apdu rng answer c')
    (hsg : isSign apdu) (hok : answer.sw = .ok) : content c'.store = some c'.encodeState := by
  obtain ⟨hne, -⟩ | ⟨-, -, signature, c₁, -, rfl, rfl⟩ := h.of_sign hsg
  · exact absurd hok hne
  have hsv : (c₁.saveState S).1 = true := by
    by_contra hsv
    rw [written, if_neg hsv] at hok
    cases hok
  exact hS.saved c₁.encodeState c₁.store hsv

theorem Effect.content_store (hS : Keeps S content) (h : Effect K S c apdu rng answer c') :
    content c'.store = content c.store ∨ content c'.store = some c'.encodeState := by
  have hp : ∀ c₁ : OpenPgp σ, c₁.store = c.store →
      content (c₁.persistState S).2.store = content c.store ∨
        content (c₁.persistState S).2.store = some (c₁.persistState S).2.encodeState := by
    intro c₁ hst
    rw [← hst]
    exact persistState_content hS c₁
  cases h with
  | idle => exact .inl rfl
  | pinAccepted =>
    refine .inl ?_
    unfold markVerified
    split <;> rfl
  | pinWrong pw _ _ _ hc₁ | pinChanged pw _ _ _ _ hc₁ => exact hp _ (by subst hc₁; cases pw <;> rfl)
  | pinUnblocked _ _ _ _ _ hc₁ => exact hp _ (by subst hc₁; rfl)
  | pinKept => exact hp c rfl
  | objectPut _ _ ht => exact hp _ (putObject_cases ht).1.store
  | keyGenerated index key _ _ _ hc₁ | signed _ _ _ _ hc₁ =>
    subst hc₁
    exact saveState_content hS _

theorem sameSignatureKey_persist (h : SameSignatureKey c c₁) :
    SameSignatureKey c (c₁.persistState S).2 := by
  unfold SameSignatureKey
  rw [persistState_keys, (persistState_signature c₁).2]
  exact h

theorem sameSignatureKey_setSlot (c : OpenPgp σ) (pw : Pw) (slot : PinSlot) :
    SameSignatureKey c (c.setSlot pw slot) := by
  cases pw <;> exact fun _ => ⟨rfl, rfl⟩

/-- A command that is no GENERATE. -/
theorem Effect.signature (h : Effect K S c apdu rng answer c') (hn : ¬isGenerate apdu) :
    SignatureEffect K S c ⟨c, .process apdu rng, answer⟩ c' := by
  by_cases hsg : isSign apdu
  · have hvr : ¬isVerifySign apdu := fun hv => absurd (hv.1.symm.trans hsg.1) nofun
    obtain ⟨hne, rfl⟩ | ⟨hfl, hpr, signature, c₁, rfl, -, rfl⟩ := h.of_sign hsg
    · exact .kept (fun hr => hne hr.2) (fun hv => hvr hv.1) rfl fun _ => ⟨rfl, rfl⟩
    · exact .signed hsg (fun hv => hvr hv.1) hfl rfl hpr rfl rfl
  -- A persisted state in which nothing but PINs and data objects is new.
  have hpe : ∀ (answer : Response) (c₁ : OpenPgp σ), (apdu.ins = insVerify → answer.sw ≠ .ok) →
      c₁.pw1SignatureVerified = c.pw1SignatureVerified → SameSignatureKey c c₁ →
      SignatureEffect K S c ⟨c, .process apdu rng, answer⟩ (c₁.persistState S).2 := by
    intro answer c₁ ha hfl hk
    exact .kept (fun hr => hsg hr.1) (fun hv => ha hv.1.1 hv.2)
      ((persistState_signature c₁).1.trans hfl) (sameSignatureKey_persist hk)
  have hoh : ∀ {ins}, apdu.ins = ins → ins ≠ insVerify → ∀ {answer : Response},
      apdu.ins = insVerify → answer.sw ≠ .ok :=
    fun hi hne _ hv => absurd (hi.symm.trans hv) hne
  cases h with
  | idle _ hok =>
    exact .kept (fun hr => hsg hr.1) (fun hv => (hok hv.2).1 hv.1.1) rfl fun _ => ⟨rfl, rfl⟩
  | pinAccepted hi =>
    have hk : SameSignatureKey c (c.markVerified apdu.p2) := by
      unfold markVerified
      split <;> exact fun _ => ⟨rfl, rfl⟩
    by_cases hp2 : apdu.p2 = 0x81
    · exact .verified (fun hr => hsg hr.1) ⟨⟨hi, hp2⟩, rfl⟩ hk
    refine .kept (fun hr => hsg hr.1) (fun hv => hp2 hv.1.2) ?_ hk
    unfold markVerified
    split
    · rename_i heq
      exact absurd heq hp2
    · rfl
    · rfl
    · rfl
  | pinWrong pw _ _ _ hc₁ =>
    subst hc₁
    refine hpe _ _ (fun _ => written_sw_ne (Sw.retriesLeft_ne_ok _)) ?_
      (sameSignatureKey_setSlot c pw _)
    cases pw <;> rfl
  | pinChanged pw _ hi _ _ hc₁ =>
    subst hc₁
    refine hpe _ _ (hoh hi nofun) ?_ (sameSignatureKey_setSlot c pw _)
    cases pw <;> rfl
  | pinUnblocked hi _ _ _ _ hc₁ =>
    subst hc₁
    exact hpe _ _ (hoh hi nofun) rfl fun _ => ⟨rfl, rfl⟩
  | pinKept hi =>
    refine hpe _ c ?_ rfl fun _ => ⟨rfl, rfl⟩
    rcases hi with hi | hi <;> exact hoh hi nofun
  | objectPut hi _ ht =>
    exact hpe _ _ (hoh hi nofun) (putObject_cases ht).1.signature
      (putObject_sameSignatureKey ht)
  | keyGenerated _ _ hg => exact absurd hg hn
  | signed hs => exact absurd hs hsg

/-- A key in the signature slot comes with the counter at zero; one in another slot changes
  nothing here. -/
theorem generate_signature (hgn : isGenerate apdu) :
    SignatureEffect K S c (entry (step K S) c (.process apdu rng)) (c.process K S apdu rng).2 := by
  have hsg : ¬isSign apdu := fun hs => absurd (hs.1.symm.trans hgn.1) nofun
  have hvr : ¬isVerifySign apdu := fun hv => absurd (hv.1.symm.trans hgn.1) nofun
  have hpr : c.process K S apdu rng = c.generate K S apdu rng := process_generate hgn
  obtain hsm | ⟨index, key, answer, ht, ha, hg⟩ :=
    generate_cases c apdu rng
  · rw [hpr, hsm]
    exact .kept (fun hr => hsg hr.1) (fun hv => hvr hv.1) rfl fun _ => ⟨rfl, rfl⟩
  have hrs : c.process K S apdu rng = (written ((c.installKey index key).saveState S).1 answer,
      ((c.installKey index key).saveState S).2) := by rw [hpr, hg, saveAnswer_eq]
  by_cases hin : index = 0
  · have hsw : (c.process K S apdu rng).1.sw = .ok ∨
        (c.process K S apdu rng).1.sw = .notEnoughMemory := by
      rw [hrs]
      unfold written
      split
      · exact ha
      · exact .inr rfl
    refine .installed (fun hr => hsg hr.1) (fun hv => hvr hv.1) ?_ ⟨⟨hgn, hin ▸ ht⟩, hsw, rfl⟩
    rw [hrs]
    rfl
  · refine .kept (fun hr => hsg hr.1) (fun hv => hvr hv.1) ?_ fun _ => ?_
    · rw [hrs]
      rfl
    · rw [hrs]
      exact ⟨Function.update_of_ne (Ne.symm hin) _ _, if_neg hin⟩

theorem process_signature (c : OpenPgp σ) (apdu : Apdu) (rng : Rng) :
    SignatureEffect K S c (entry (step K S) c (.process apdu rng)) (c.process K S apdu rng).2 := by
  by_cases hg : isGenerate apdu
  · exact generate_signature hg
  · exact (process_effect c apdu rng).signature hg

end

/-! ## The counter and the history -/

section
variable {key : KeySlot} {counter : UInt32} {x : Log σ} {past : List (Log σ)}

/-- The counter is at or above the number of signatures released with the key. -/
def Covers (K : PgpCrypto) (S : OpenPgpStore σ) (past : List (Log σ)) (key : KeySlot)
    (counter : UInt32) : Prop :=
  ¬Wrapped K S key past → released K S key past ≤ counter.toNat

/-- Whatever comes next, as long as no signature with the key is released. -/
theorem Covers.later (h : Covers K S past key counter) (hx : ¬ReleasesWith key x) :
    Covers K S (x :: past) key counter := by
  intro hr
  unfold released
  by_cases hi : Installs K S key x
  · rw [countSince_stop hi]
    exact Nat.zero_le _
  · rw [countSince_other hi hx]
    exact h fun hw => hr (.inr ⟨hi, hw⟩)

theorem covers_installed (hx : Installs K S key x) : Covers K S (x :: past) key counter := by
  intro _
  unfold released
  rw [countSince_stop hx]
  exact Nat.zero_le _

/-- A signature moves the counter by one. -/
theorem Covers.signed (h : Covers K S past (x.before.keys 0) x.before.signatureCounter)
    (hsg : x.event.Sends isSign) (haf : (step K S x.before x.event).2.signatureCounter =
      x.before.signatureCounter + 1) :
    Covers K S (x :: past) (x.before.keys 0) (x.before.signatureCounter + 1) := by
  intro hp
  have hi : ¬Installs K S (x.before.keys 0) x := by
    rintro ⟨hg, -⟩
    cases hev : x.event with
    | select =>
      rw [hev] at hsg
      exact hsg
    | process apdu rng =>
      rw [hev] at hsg hg
      exact absurd (hsg.1.symm.trans hg.1.1) nofun
  have hps := h fun hw => hp (.inr ⟨hi, hw⟩)
  have hle : released K S (x.before.keys 0) (x :: past) ≤
      released K S (x.before.keys 0) past + 1 := by
    unfold released
    by_cases hr : ReleasesWith (x.before.keys 0) x
    · rw [countSince_more hi hr]
    · rw [countSince_other hi hr]
      exact Nat.le_succ _
  have hls : x.before.signatureCounter ≠ 2 ^ 32 - 1 := by
    intro hls
    refine hp (.inl ⟨hsg, rfl, hls, ?_⟩)
    rw [haf, hls]
    rfl
  have hnx := toNat_add_one hls
  omega

end

/-! ## Whole runs -/

/-- The counter of the state that a load would give. -/
def CoversStored (K : PgpCrypto) (S : OpenPgpStore σ) (content : σ → Option (List UInt8))
    (past : List (Log σ)) (st : σ) : Prop :=
  ∀ image, (content st).bind decodeImage = some image → (image.keys 0).present = true →
    Covers K S past (image.keys 0) image.signatureCounter

/-- The permission to sign goes back to a VERIFY that no signature has used, and both counters
  cover the signatures released. -/
structure SignatureInv (K : PgpCrypto) (S : OpenPgpStore σ) (content : σ → Option (List UInt8))
    (c : OpenPgp σ) (past : List (Log σ)) : Prop where
  wellFormed : WellFormed c
  granted : c.pw1SignatureVerified = true →
    Since (fun y _ => Verifies y) (fun y => IsSelect y ∨ Releases y) past
  budget : countSince Releases IsSelect past + c.pw1SignatureVerified.toNat ≤
    countSince Verifies IsSelect past
  live : (c.keys 0).present = true → Covers K S past (c.keys 0) c.signatureCounter
  stored : CoversStored K S content past c.store

section
variable {c c' : OpenPgp σ} {x : Log σ} {past : List (Log σ)}

theorem CoversStored.later {st st' : σ} (h : CoversStored K S content past st)
    (hst : content st' = content st) (hx : ¬Releases x) :
    CoversStored K S content (x :: past) st' := by
  intro image hig hpr
  rw [hst] at hig
  exact (h image hig hpr).later fun hr => hx hr.1

theorem coversStored_saved {st : σ} (hwf : WellFormed c) (hst : content st = some c.encodeState)
    (hlv : (c.keys 0).present = true → Covers K S past (c.keys 0) c.signatureCounter) :
    CoversStored K S content past st := by
  intro image hig hpr
  rw [hst, Option.bind_some, decodeImage_encodeState hwf] at hig
  split at hig
  · cases hig
    exact hlv hpr
  · cases hig

/-- A command keeps the permission within the verifications, and what is released under it. -/
theorem SignatureInv.authority (h : SignatureInv K S content c past) (hs : ¬IsSelect x)
    (he : SignatureEffect K S c x c') :
    (Releases x → c.pw1SignatureVerified = true) ∧
    (c'.pw1SignatureVerified = true →
      Since (fun y _ => Verifies y) (fun y => IsSelect y ∨ Releases y) (x :: past)) ∧
    countSince Releases IsSelect (x :: past) + c'.pw1SignatureVerified.toNat ≤
      countSince Verifies IsSelect (x :: past) := by
  have hb := h.budget
  cases he with
  | kept hr hv hfl _ | installed hr hv hfl _ =>
    -- A command that neither verifies nor signs.
    refine ⟨fun hl => absurd hl hr, fun ht => ?_, ?_⟩
    · exact .inr ⟨fun hst => hst.elim hs hr, h.granted (hfl ▸ ht)⟩
    · rw [countSince_other hs hr, countSince_other hs hv, hfl]
      exact hb
  | verified hr hv _ =>
    refine ⟨fun hl => absurd hl hr, fun _ => .inl hv, ?_⟩
    rw [countSince_other hs hr, countSince_more hs hv]
    have ho := Bool.toNat_le c'.pw1SignatureVerified
    omega
  | signed _ hv hfl hfl' =>
    refine ⟨fun _ => hfl, fun ht => absurd (hfl'.symm.trans ht) Bool.false_ne_true, ?_⟩
    rw [countSince_other hs hv, hfl']
    rw [hfl] at hb
    by_cases hr : Releases x
    · rw [countSince_more hs hr]
      exact hb
    · rw [countSince_other hs hr]
      exact Nat.le_of_succ_le hb

theorem SignatureInv.covers (h : SignatureInv K S content c past) (hb : x.before = c)
    (haf : (step K S x.before x.event).2 = c') (he : SignatureEffect K S c x c') :
    (c'.keys 0).present = true → Covers K S (x :: past) (c'.keys 0) c'.signatureCounter := by
  cases he with
  | kept hr _ _ hsm | verified hr _ hsm =>
    intro hpr
    obtain ⟨hk, hc⟩ := hsm hpr
    rw [hk] at hpr ⊢
    rw [hc]
    exact (h.live hpr).later fun hl => hr hl.1
  | installed _ _ _ hi => exact fun _ => covers_installed hi
  | signed hsg _ _ _ hpr hk hc =>
    intro _
    subst hb
    rw [hk, hc]
    exact (h.live hpr).signed hsg (haf ▸ hc)

theorem SignatureInv.process (hS : Keeps S content) (h : SignatureInv K S content c past)
    (apdu : Apdu) (rng : Rng) :
    SignatureCounted K S content (entry (step K S) c (.process apdu rng)) past ∧
      SignatureInv K S content (c.process K S apdu rng).2
        (entry (step K S) c (.process apdu rng) :: past) := by
  have he := process_effect (K := K) (S := S) c apdu rng
  have hs := process_signature (K := K) (S := S) c apdu rng
  have hwf := he.wellFormed h.wellFormed
  have hl : ¬IsSelect (entry (step K S) c (.process apdu rng)) := Event.noConfusion
  obtain ⟨hnd, hgr, hb⟩ := h.authority hl hs
  have hlv : ((c.process K S apdu rng).2.keys 0).present = true →
      Covers K S (entry (step K S) c (.process apdu rng) :: past)
        ((c.process K S apdu rng).2.keys 0) (c.process K S apdu rng).2.signatureCounter :=
    h.covers rfl rfl hs
  refine ⟨⟨fun hr => h.granted (hnd hr), Nat.le_of_add_right_le hb,
    fun hr => he.saved_of_sign hS hr.1 hr.2, fun hr => ?_⟩, hwf, hgr, hb, hlv, ?_⟩
  · -- The key that signed is the key that is left.
    cases hs with
    | kept hne | verified hne | installed hne => exact absurd hr hne
    | signed _ _ _ _ hpr hk =>
      have hc := hlv (hk ▸ hpr)
      rw [hk] at hc
      exact hc
  · by_cases hr : Releases (entry (step K S) c (.process apdu rng))
    · exact coversStored_saved hwf (he.saved_of_sign hS hr.1 hr.2) hlv
    · rcases he.content_store hS with hsm | hn
      · exact h.stored.later hsm hr
      · exact coversStored_saved hwf hn hlv

/-- The counter that SELECT finds, or leaves, covers the signatures. -/
theorem SignatureInv.select_covers (hS : Keeps S content) (h : SignatureInv K S content c past)
    (hx : ¬Releases x) :
    (((c.select K S).2.keys 0).present = true →
      Covers K S (x :: past) ((c.select K S).2.keys 0) (c.select K S).2.signatureCounter) ∧
    CoversStored K S content (x :: past) (c.select K S).2.store := by
  have hld : content (S.load c.store).2 = content c.store := hS.load_content c.store
  have hwf : WellFormed (c.select K S).2 := select_wellFormed h.wellFormed
  rcases hfn : c.found S with _ | image
  · -- Nothing was read: the key and its counter stay, and the state is saved.
    rw [select_missed hfn] at hwf ⊢
    have hlv : (c.keys 0).present = true → Covers K S (x :: past) (c.keys 0) c.signatureCounter :=
      fun hpr => (h.live hpr).later fun hr => hx hr.1
    refine ⟨hlv, ?_⟩
    rcases saveState_content hS _ with hsm | hn
    · exact h.stored.later (hsm.trans hld) hx
    · exact coversStored_saved hwf hn hlv
  · obtain ⟨bytes, hbt, hd⟩ := Option.bind_eq_some_iff.mp hfn
    have hig : (content c.store).bind decodeImage = some image := by
      rw [hS.load_value hbt]
      exact hd
    rw [select_found hfn]
    exact ⟨fun hpr => (h.stored image hig hpr).later fun hr => hx hr.1, h.stored.later hld hx⟩

theorem SignatureInv.select (hS : Keeps S content) (h : SignatureInv K S content c past) :
    SignatureCounted K S content (entry (step K S) c .select) past ∧
      SignatureInv K S content (c.select K S).2 (entry (step K S) c .select :: past) := by
  have hr : ¬Releases (entry (step K S) c .select) := fun hr => hr.1
  have hfl : (c.select K S).2.pw1SignatureVerified = false := rfl
  obtain ⟨hlv, ht⟩ := h.select_covers hS hr
  refine ⟨⟨fun hl => absurd hl hr, ?_, fun hl => absurd hl hr, fun hl => absurd hl hr⟩,
    select_wellFormed h.wellFormed, fun hs => absurd (hfl.symm.trans hs) Bool.false_ne_true,
    ?_, hlv, ht⟩
  · exact Nat.zero_le _
  · exact Nat.zero_le _

end

/-- Over every run of SELECTs and commands, with saves and loads that may fail: each signature that
  is released had its own VERIFY since the SELECT, and is released with the state in the store,
  whose counter is at or above the number of signatures released with the key since GENERATE put it
  in place, as long as the counter has not wrapped. -/
theorem signatures_counted (hS : Keeps S content) (store : σ) (es : List Event) :
    Along (SignatureCounted K S content) (history (step K S) (new store) es) := by
  refine along_history_of_all (I := SignatureInv K S content) ?_ ?_ es
  · -- A new applet has no key, and nothing was released.
    refine ⟨wellFormed_new store, nofun, Nat.le_refl _, nofun, ?_⟩
    exact fun _ _ _ _ => Nat.zero_le _
  intro c past e hinv
  cases e with
  | select => exact hinv.select hS
  | process apdu rng => exact hinv.process hS apdu rng

/-! ## An example run -/

/-- A store in memory whose saves fail as a list says, and work after it. -/
def flaky : OpenPgpStore (Option (List UInt8) × List Bool) where
  load st := (st.1.bind (BoundedBytes.ofSlice stateBytes), st)
  save data
    | (stored, false :: saves) => (false, stored, saves)
    | (_, saves) => (true, some data, saves.tail)

theorem flaky_keeps : Keeps flaky Prod.fst where
  load_content _ := rfl
  load_value := by
    intro st bytes hld
    obtain ⟨stored, hs, hsl⟩ := Option.bind_eq_some_iff.mp hld
    rw [hs, BoundedBytes.ofSlice_eq_some.mp hsl]
  saved := by
    intro data st hsv
    obtain ⟨stored, _ | ⟨_ | _, saves⟩⟩ := st
    · rfl
    · cases hsv
    · rfl
  unsaved := by
    intro data st
    obtain ⟨stored, _ | ⟨_ | _, saves⟩⟩ := st
    · exact .inr rfl
    · exact .inl rfl
    · exact .inr rfl

def scalarTwo : FixedBytes 32 := ⟨List.replicate 31 0 ++ [2], rfl⟩

/-- The primitives for the scalar `2`, too. -/
def twoScalars : PgpCrypto :=
  { exampleCrypto with
    p256Public := fun scalar => if scalar ≠ scalarTwo then exampleCrypto.p256Public scalar else
      some ⟨0x04 :: (toBE 32 0x7cf27b188d034f7e8a52380304b51ac3c08969e277f21b35a60b48fc47669978 ++
        toBE 32 0x07775510db8ed040293d9ac69f7430dbba7dade63ce982299e04b79d227873d1), rfl⟩
    p256Sign := fun scalar digest =>
      if scalar ≠ scalarTwo ∨ digest ≠ scalarOne then exampleCrypto.p256Sign scalar digest else
      some ⟨toBE 32 0xaef877537d271b04dffc82619212eb577c25ed4f4b9b19a6c6c8e8b9b947bd6e ++
        toBE 32 0xcff48297806df13ca96acd93631e594dd8ccd91ebc77b11c3657a3eb278fd1d3, rfl⟩ }

def rngTwo : Rng := fun i => if i = 31 then 2 else 0

def generateSign (rng : Rng) : Event := .process ⟨insGenerate, 0x80, 0x00, [0xB6, 0x00], none⟩ rng

def signDigest : Event := .process ⟨insPso, 0x9E, 0x9A, scalarOne.val, none⟩ rngOne

def verifyAndSign : List Event := [verifyPw 0x81 factoryPw1, signDigest]

/-- A key is made and signs twice; another is made, and PW1 is verified. -/
def useTwoKeys (rng : Rng) : List Event :=
  [.select, verifyPw 0x83 factoryPw3, generateSign rngOne] ++ verifyAndSign ++ verifyAndSign ++
    [generateSign rng, verifyPw 0x81 factoryPw1]

/-- The store refuses the save of the second key. -/
def refusesSecondKey : Option (List UInt8) × List Bool :=
  (none, [true, true, true, true, false, true])

/-- The history when the second key signs too, and the state that is left. -/
def twoKeysLog (rng : Rng) : List (Log (Option (List UInt8) × List Bool)) :=
  history (step twoScalars flaky) (new refusesSecondKey) (useTwoKeys rng ++ [signDigest])

def twoKeysCard (rng : Rng) : OpenPgp (Option (List UInt8) × List Bool) :=
  (step twoScalars flaky (run twoScalars flaky (new refusesSecondKey) (useTwoKeys rng)) signDigest).2

theorem signatures_counted_two_keys :
    ((twoKeysLog rngTwo).map (·.answer.sw)).reverse =
      [.ok, .ok, .ok, .ok, .ok, .ok, .ok, .notEnoughMemory, .ok, .ok] ∧
    Along (SignatureCounted twoScalars flaky Prod.fst) (twoKeysLog rngTwo) :=
  ⟨by decide +kernel, signatures_counted flaky_keeps _ _⟩

def Generates (x : Log σ) : Prop := x.event.Sends isGenerateSign ∧ x.answer.sw = .ok

instance : DecidablePred (Generates (σ := σ)) := fun _ => inferInstanceAs (Decidable (_ ∧ _))

/-- Three signatures are released after the one GENERATE that succeeds, two of them with its key,
  and the state in the store has the counter at one. The same with one key for all three, when the
  GENERATE that is not saved draws the key again. -/
theorem unsaved_generate_restarts_counter :
    (countSince Releases Generates (twoKeysLog rngTwo) = 3 ∧
      countSince (ReleasesWith (curveKey keyAlgoEcdsaP256 scalarOne)) Generates
        (twoKeysLog rngTwo) = 2 ∧
      (twoKeysCard rngTwo).store.1 = some (twoKeysCard rngTwo).encodeState ∧
      (twoKeysCard rngTwo).signatureCounter = 1) ∧
    (countSince (ReleasesWith (curveKey keyAlgoEcdsaP256 scalarOne)) Generates
        (twoKeysLog rngOne) = 3 ∧
      (twoKeysCard rngOne).store.1 = some (twoKeysCard rngOne).encodeState ∧
      (twoKeysCard rngOne).signatureCounter = 1) := by
  have hsaved : ∀ c : OpenPgp (Option (List UInt8) × List Bool),
      (step twoScalars flaky c signDigest).1.sw = .ok →
      (step twoScalars flaky c signDigest).2.store.1 =
        some (step twoScalars flaky c signDigest).2.encodeState :=
    fun c hok => (process_effect c _ _).saved_of_sign flaky_keeps ⟨rfl, rfl, rfl⟩ hok
  refine ⟨⟨by decide +kernel, by decide +kernel, ?_, by decide +kernel⟩, by decide +kernel, ?_,
    by decide +kernel⟩ <;>
  · rw [twoKeysCard]
    exact hsaved _ (by decide +kernel)

end AegisToken.Applets.OpenPgp
