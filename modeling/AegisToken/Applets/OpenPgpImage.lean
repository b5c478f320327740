/-
  The state of the OpenPGP card applet as bytes.
  `encodeState` writes the state and `stateParser` reads it. A well-formed state is read back
  field by field, with one exception: a slot with the RSA algorithm and no key is written, and the
  parser rejects it. PUT DATA of algorithm attributes leaves a slot in that condition.
  Every command and every load keeps the state well formed, whatever the store does.
-/
import AegisToken.Applets.RsaCrt
import AegisToken.Applets.OpenPgpSteps

namespace AegisToken.Applets
open ByteCodec Wire

/-! ## Well-formed slots -/

variable {key : KeySlot} {index : Fin 3}

/-- Bytes in a wider field, cut at their length, give the same field. -/
theorem ofList_take_ofList {n : Nat} {b : List UInt8} (h : b.length ≤ n) :
    FixedBytes.ofList n ((FixedBytes.ofList n b).val.take b.length) = FixedBytes.ofList n b := by
  have hv : (FixedBytes.ofList n b).val = b ++ List.replicate (n - b.length) 0 := by
    change b.take n ++ _ = _
    rw [List.take_of_length_le h]
  rw [hv, List.take_left' rfl]

/-- What every key slot keeps: the material is zero past its length, the length is one that the
  algorithm allows, and an RSA slot is empty or holds a whole key. -/
structure KeyOk (index : Fin 3) (key : KeySlot) : Prop where
  len_le : key.len ≤ slotMaterialBytes
  rest : FixedBytes.ofList _ (key.material.val.take key.len) = key.material
  curve : key.algo ≠ keyAlgoRsa2048 → key.len ≤ 48 ∨
    key.len = ecdhKeyBytes + ecdhMaterialBytes ∧ index = 1 ∧
      (key.algo = keyAlgoUnset ∨ key.algo = keyAlgoEcdhP256)
  rsa : key.algo = keyAlgoRsa2048 → key.len = 0 ∨
    key.len = rsaBlobBytes ∧ (Rsa2048PrivateKey.fromBlob (key.material.val.take key.len)).isSome

/-- The slot does not have the RSA algorithm without a key. -/
def Keyed (key : KeySlot) : Prop := key.algo = keyAlgoRsa2048 → key.len ≠ 0

instance (key : KeySlot) : Decidable (Keyed key) := inferInstanceAs (Decidable (_ → _))

/-- The parser accepts the length of a slot exactly when it is keyed. -/
theorem KeyOk.geometry (h : KeyOk index key) :
    geometryOk index key.algo key.len key.material.val = true ↔ Keyed key := by
  unfold geometryOk Keyed
  by_cases hal : key.algo = keyAlgoRsa2048
  · rw [if_pos hal, decide_eq_true_iff]
    rcases h.rsa hal with hl | ⟨hl, hbl⟩
    · rw [hl]
      exact iff_of_false (fun hc => absurd hc.1 nofun) fun hc => hc hal rfl
    · rw [hl] at hbl ⊢
      exact iff_of_true ⟨rfl, hbl⟩ fun _ => by decide
  · rw [if_neg hal]
    refine iff_of_true ?_ fun hc => absurd hc hal
    split
    · rcases h.curve hal with hsh | hd2
      · omega
      · exact decide_eq_true hd2
    · rfl

theorem keyOk_empty (index : Fin 3) (algo : UInt8) :
    KeyOk index ⟨false, 0, algo, FixedBytes.zero _⟩ where
  len_le := Nat.zero_le _
  rest := rfl
  curve _ := .inl (Nat.zero_le _)
  rsa _ := .inl rfl

theorem keyOk_curveKey (index : Fin 3) {algo : UInt8} (hal : algo ≠ keyAlgoRsa2048)
    (scalar : FixedBytes 32) : KeyOk index (OpenPgp.curveKey algo scalar) where
  len_le := show 32 ≤ slotMaterialBytes by decide
  rest := by
    have h := ofList_take_ofList (n := slotMaterialBytes) (b := scalar.val)
      (by rw [scalar.property]; decide)
    rw [scalar.property] at h
    exact h
  curve _ := .inl (show 32 ≤ 48 by decide)
  rsa h := absurd h hal

theorem keyOk_rsaSlot (index : Fin 3) {key : Rsa2048PrivateKey}
    (h : Rsa2048PrivateKey.fromBlob key.toBlob = some key) :
    KeyOk index (OpenPgp.rsaSlot key) := by
  have hl := (Rsa2048PrivateKey.fields_toBlob key).1
  have hv : (FixedBytes.ofList slotMaterialBytes key.toBlob).val = key.toBlob :=
    FixedBytes.val_ofList hl
  have htk : (OpenPgp.rsaSlot key).material.val.take (OpenPgp.rsaSlot key).len = key.toBlob := by
    change (FixedBytes.ofList slotMaterialBytes key.toBlob).val.take rsaBlobBytes = _
    rw [hv, List.take_of_length_le hl.le]
  refine ⟨Nat.le_refl _, ?_, fun h => absurd rfl h, fun _ => .inr ⟨rfl, ?_⟩⟩
  · rw [htk]
    rfl
  · rw [htk, h]
    rfl

/-- The material is zero past its length. -/
theorem KeyOk.drop_eq (h : KeyOk index key) {k : Nat} (hk : key.len ≤ k) :
    key.material.val.drop k = List.replicate (slotMaterialBytes - k) 0 := by
  have hl : (key.material.val.take key.len).length = key.len := by
    rw [List.length_take, key.material.property]
    exact Nat.min_eq_left h.len_le
  have hv : key.material.val =
      key.material.val.take key.len ++ List.replicate (slotMaterialBytes - key.len) 0 := by
    have hrs := congrArg Subtype.val h.rest
    change (key.material.val.take key.len).take slotMaterialBytes ++
      List.replicate (slotMaterialBytes - (key.material.val.take key.len).length) 0 = _ at hrs
    rw [hl, List.take_of_length_le (hl.le.trans h.len_le)] at hrs
    exact hrs.symm
  rw [hv, List.drop_append, List.drop_of_length_le (by rw [hl]; exact hk),
    List.drop_replicate, List.nil_append]
  congr 1
  omega

theorem keyOk_store (material : EcdhMaterial) (h : KeyOk 1 key)
    (hal : key.algo = keyAlgoUnset ∨ key.algo = keyAlgoEcdhP256) :
    KeyOk 1 (material.store key) := by
  have hne : key.algo ≠ keyAlgoRsa2048 := by
    rcases hal with hal | hal <;> rw [hal] <;> decide
  have hl : key.len ≤ ecdhKeyBytes + ecdhMaterialBytes := by
    rcases h.curve hne with hsh | ⟨hd2, -⟩
    · exact hsh.trans (by decide)
    · exact hd2.le
  have hhd : (key.material.val.take ecdhKeyBytes ++ material.encoded).length =
      ecdhKeyBytes + ecdhMaterialBytes := by
    rw [List.length_append, List.length_take, key.material.property, material.length_encoded]
    rfl
  have hv : (material.store key).material.val =
      key.material.val.take ecdhKeyBytes ++ material.encoded ++
        List.replicate (slotMaterialBytes - (ecdhKeyBytes + ecdhMaterialBytes)) 0 := by
    rw [← h.drop_eq hl]
    rfl
  refine ⟨show ecdhKeyBytes + ecdhMaterialBytes ≤ slotMaterialBytes by decide, ?_,
    fun _ => .inr ⟨rfl, rfl, hal⟩, fun hr => absurd hr hne⟩
  refine Subtype.ext ?_
  change ((material.store key).material.val.take (ecdhKeyBytes + ecdhMaterialBytes)).take
      slotMaterialBytes ++ List.replicate (slotMaterialBytes -
        ((material.store key).material.val.take (ecdhKeyBytes + ecdhMaterialBytes)).length) 0 = _
  rw [hv, List.take_left' hhd, hhd, List.take_of_length_le (hhd.le.trans (by decide))]

/-! ## Well-formed states -/

namespace OpenPgp

variable {σ : Type} {K : PgpCrypto} {S : OpenPgpStore σ} {slot : PinSlot} {c : OpenPgp σ}

/-- A slot of the policy, with a counter within it. -/
def PwOk (slot : PinSlot) : Prop :=
  slot.policy = pwPolicy ∧ slot.retriesRemaining ≤ pwPolicy.maxAttempts

structure WellFormed (c : OpenPgp σ) : Prop where
  pins : ∀ pw, PwOk (c.slot pw)
  floors : ∀ pw, c.floor pw ≤ pwPolicy.maxAttempts
  keys : ∀ i, KeyOk i (c.keys i)

theorem wellFormed_new (store : σ) : WellFormed (new store) where
  pins pw := by cases pw <;> exact ⟨rfl, UInt8.le_refl _⟩
  floors pw := by cases pw <;> exact UInt8.le_refl _
  keys i := keyOk_empty i keyAlgoUnset

theorem PwOk.installed (h : PwOk slot) (pin : List UInt8) :
    PwOk (slot.installed K.sha256 pin) := by
  refine ⟨h.1, ?_⟩
  change slot.policy.maxAttempts ≤ _
  rw [h.1]
  exact UInt8.le_refl _

theorem PwOk.attempted (h : PwOk slot) (hc : slot.Compares) :
    PwOk slot.attempted :=
  ⟨h.1, UInt8.le_trans (UInt8.le_of_lt (PinSlot.attempted_lt hc.2)) h.2⟩

/-- The two counters and the two floors of a state. -/
theorem forall_pw {P : Pw → Prop} (h1 : P .pw1) (h3 : P .pw3) (pw : Pw) : P pw := by
  cases pw
  · exact h1
  · exact h3

/-- A state with the same PIN slots, floors and keys is as well formed. -/
theorem WellFormed.congr {τ : Type} {c' : OpenPgp τ} (h : WellFormed c)
    (hpn : ∀ pw, c'.slot pw = c.slot pw) (hf : ∀ pw, c'.floor pw = c.floor pw)
    (hks : c'.keys = c.keys) : WellFormed c' where
  pins pw := hpn pw ▸ h.pins pw
  floors pw := hf pw ▸ h.floors pw
  keys i := hks ▸ h.keys i

theorem WellFormed.setSlot (h : WellFormed c) (pw : Pw) (hsl : PwOk slot) :
    WellFormed (c.setSlot pw slot) where
  pins other := by
    cases pw <;> cases other
    · exact hsl
    · exact h.pins .pw3
    · exact h.pins .pw1
    · exact hsl
  floors := by cases pw <;> exact forall_pw (h.floors .pw1) (h.floors .pw3)
  keys i := by cases pw <;> exact h.keys i

theorem WellFormed.setKey (h : WellFormed c) (index : Fin 3) (hk : KeyOk index key) {c' : OpenPgp σ}
    (hpn : ∀ pw, c'.slot pw = c.slot pw)
    (hf : ∀ pw, c'.floor pw = c.floor pw) (hks : c'.keys = Function.update c.keys index key) :
    WellFormed c' where
  pins pw := hpn pw ▸ h.pins pw
  floors pw := hf pw ▸ h.floors pw
  keys i := by
    rw [hks]
    by_cases hi : i = index
    · subst hi
      rw [Function.update_self]
      exact hk
    · rw [Function.update_of_ne hi]
      exact h.keys i

theorem persistState_eq (c : OpenPgp σ) :
    c.persistState S = ((c.saveState S).1, { (c.saveState S).2 with
      pw1Floor := if (c.saveState S).1 then c.pw1.retriesRemaining
        else min c.pw1Floor c.pw1.retriesRemaining
      pw3Floor := if (c.saveState S).1 then c.pw3.retriesRemaining
        else min c.pw3Floor c.pw3.retriesRemaining }) := by
  unfold persistState
  dsimp only
  by_cases hsv : (c.saveState S).1 = true
  · rw [if_pos hsv, if_pos hsv, if_pos hsv]
    rfl
  · rw [if_neg hsv, if_neg hsv, if_neg hsv]
    rfl

theorem persistState_slot (c : OpenPgp σ) (pw : Pw) :
    (c.persistState S).2.slot pw = c.slot pw := by
  rw [persistState_eq]
  cases pw <;> rfl

theorem persistState_keys (c : OpenPgp σ) : (c.persistState S).2.keys = c.keys := by
  rw [persistState_eq]
  rfl

/-- A save moves each floor to the counter, and a failed one never above where it was. -/
theorem persistState_floor (c : OpenPgp σ) (pw : Pw) :
    (c.persistState S).2.floor pw = if (c.persistState S).1 then (c.slot pw).retriesRemaining
      else min (c.floor pw) (c.slot pw).retriesRemaining := by
  rw [persistState_eq]
  cases pw <;> rfl

theorem WellFormed.persisted (h : WellFormed c) :
    WellFormed (c.persistState S).2 where
  pins pw := persistState_slot (S := S) c pw ▸ h.pins pw
  floors pw := by
    rw [persistState_floor]
    split
    · exact (h.pins pw).2
    change (if c.floor pw ≤ _ then c.floor pw else _) ≤ _
    split
    · exact h.floors pw
    · exact (h.pins pw).2
  keys i := persistState_keys (S := S) c ▸ h.keys i

theorem WellFormed.saved (h : WellFormed c) : WellFormed (c.saveState S).2 :=
  h.congr (forall_pw rfl rfl) (forall_pw rfl rfl) rfl

/-- The PIN slots, the session and the store of one applet are those of another. -/
structure SameCard (c c' : OpenPgp σ) : Prop where
  slot : ∀ pw, c'.slot pw = c.slot pw
  floor : ∀ pw, c'.floor pw = c.floor pw
  store : c'.store = c.store
  signature : c'.pw1SignatureVerified = c.pw1SignatureVerified
  other : c'.pw1OtherVerified = c.pw1OtherVerified
  admin : c'.pw3Verified = c.pw3Verified

/-- What a data object does to the keys: nothing, or new attributes empty a slot, or decryption
  material goes into the slot of a P-256 key. -/
theorem putObject_cases {c c₁ : OpenPgp σ} {apdu : Apdu} (h : c.putObject apdu = some c₁) :
    SameCard c c₁ ∧ (c₁.keys = c.keys ∨ (∃ index algo, c₁.keys =
        Function.update c.keys index ⟨false, 0, algo, FixedBytes.zero _⟩) ∨
      (∃ material : EcdhMaterial, (c.keys 1).effectiveAlgo 1 = keyAlgoEcdhP256 ∧
        c₁.keys = Function.update c.keys 1 (material.store (c.keys 1)))) := by
  have hfl : ∀ {n : Nat} {f : BoundedBytes n → OpenPgp σ} {value : Option (BoundedBytes n)},
      value.map f = some c₁ → (∀ v, SameCard c (f v) ∧ (f v).keys = c.keys) →
      SameCard c c₁ ∧ c₁.keys = c.keys := by
    intro n f value hm hf
    obtain ⟨v, -, rfl⟩ := Option.map_eq_some_iff.mp hm
    exact hf v
  have hal : ∀ {index : Fin 3}, c.putAlgo index apdu.data = some c₁ → SameCard c c₁ ∧
      ∃ index algo, c₁.keys = Function.update c.keys index ⟨false, 0, algo, FixedBytes.zero _⟩ := by
    intro index hp
    unfold putAlgo at hp
    simp only [Option.bind_eq_bind, Option.bind_eq_some_iff] at hp
    obtain ⟨algo, -, hp⟩ := hp
    split at hp
    · cases hp
    · cases hp
      exact ⟨⟨forall_pw rfl rfl, forall_pw rfl rfl, rfl, rfl, rfl, rfl⟩, index, algo, rfl⟩
  have hcr : ∀ c₁ : OpenPgp σ, c₁ = { c with
      name := c₁.name, language := c₁.language, sex := c₁.sex, url := c₁.url
      certificates := c₁.certificates } → SameCard c c₁ ∧ c₁.keys = c.keys := by
    intro c₁ heq
    rw [heq]
    exact ⟨⟨forall_pw rfl rfl, forall_pw rfl rfl, rfl, rfl, rfl, rfl⟩, rfl⟩
  unfold putObject at h
  split at h
  · exact (hfl h fun v => hcr _ rfl).imp_right .inl
  · exact (hfl h fun v => hcr _ rfl).imp_right .inl
  · split at h
    · cases h
      exact (hcr _ rfl).imp_right .inl
    · cases h
  · exact (hfl h fun v => hcr _ rfl).imp_right .inl
  · exact (hfl h fun v => hcr _ rfl).imp_right .inl
  · exact (hal h).imp_right fun h => .inr (.inl h)
  · exact (hal h).imp_right fun h => .inr (.inl h)
  · exact (hal h).imp_right fun h => .inr (.inl h)
  · unfold putEcdhMaterial at h
    split at h
    · cases h
    rename_i hsl
    push Not at hsl
    simp only [Option.bind_eq_bind, Option.bind_eq_some_iff] at h
    obtain ⟨material, -, h⟩ := h
    cases h
    exact ⟨⟨forall_pw rfl rfl, forall_pw rfl rfl, rfl, rfl, rfl, rfl⟩,
      .inr (.inr ⟨material, hsl.1, rfl⟩)⟩
  · cases h

/-- Attributes, data objects and imported material keep the state well formed. -/
theorem putObject_wellFormed {c c₁ : OpenPgp σ} (h : WellFormed c) {apdu : Apdu}
    (hp : c.putObject apdu = some c₁) : WellFormed c₁ := by
  obtain ⟨hcr, hks | ⟨index, algo, hks⟩ | ⟨material, hal, hks⟩⟩ := putObject_cases hp
  · exact h.congr hcr.slot hcr.floor hks
  · exact h.setKey index (keyOk_empty index algo) hcr.slot hcr.floor hks
  refine h.setKey 1 (keyOk_store material (h.keys 1) ?_) hcr.slot hcr.floor hks
  by_cases hun : (c.keys 1).algo = keyAlgoUnset
  · exact .inl hun
  · rw [KeySlot.effectiveAlgo, if_pos hun] at hal
    exact .inr hal

theorem generated_keyOk {algo : UInt8} (h : Generated K algo key) :
    KeyOk index key := by
  cases h with
  | curve scalar hal => exact keyOk_curveKey index hal scalar
  | rsa rng key hk =>
    exact keyOk_rsaSlot index (Rsa2048PrivateKey.fromBlob_toBlob (generateKey_equations hk))

theorem Effect.wellFormed {c' : OpenPgp σ} {apdu : Apdu} {rng : Rng} {answer : Response}
    (he : Effect K S c apdu rng answer c') (h : WellFormed c) : WellFormed c' := by
  cases he with
  | idle => exact h
  | pinAccepted =>
    unfold markVerified
    split <;> exact h.congr (forall_pw rfl rfl) (forall_pw rfl rfl) rfl
  | @pinWrong _ c₁ pw _ hm _ hc₁ =>
    subst hc₁
    exact (h.setSlot pw ((h.pins pw).attempted hm)).persisted
  | @pinChanged _ c₁ pw new _ _ _ hc₁ =>
    subst hc₁
    exact (h.setSlot pw ((h.pins pw).installed new)).persisted
  | @pinUnblocked c₁ _ _ _ _ _ hc₁ =>
    subst hc₁
    exact (h.setSlot .pw1 ((h.pins .pw1).installed apdu.data)).persisted
  | pinKept => exact h.persisted
  | objectPut _ _ hp => exact (putObject_wellFormed h hp).persisted
  | @keyGenerated _ c₁ index key _ _ hk hc₁ =>
    subst hc₁
    have hs : WellFormed (c.installKey index key) :=
      h.setKey index (generated_keyOk hk) (forall_pw rfl rfl) (forall_pw rfl rfl) rfl
    exact hs.saved
  | @signed _ c₁ _ _ _ _ hc₁ =>
    subst hc₁
    have hs : WellFormed { c with
        signatureCounter := c.signatureCounter + 1, pw1SignatureVerified := false } :=
      h.congr (forall_pw rfl rfl) (forall_pw rfl rfl) rfl
    exact hs.saved

end OpenPgp

/-! ## What the parser accepts -/

variable {inp rest : List UInt8} {slot : PinSlot}

theorem decodePin_ok (h : decodePin pwPolicy inp = .ok (slot, rest)) :
    OpenPgp.PwOk slot := by
  obtain ⟨raw, mid, -, h⟩ := bind_eq_ok h
  rcases hd : PinSlot.decode pwPolicy raw with _ | decoded
  · rw [hd] at h
    cases h
  · rw [hd] at h
    cases h
    exact PinSlot.decode_bounds hd

theorem keyOk_of_geometry {present : Bool} {algo : UInt8} {len : Nat} {raw : List UInt8}
    (hl : len ≤ raw.length) (hwd : raw.length ≤ slotMaterialBytes)
    (h : geometryOk index algo len raw = true) :
    KeyOk index ⟨present, len, algo, FixedBytes.ofList _ (raw.take len)⟩ := by
  have htk : (raw.take len).length = len := by
    rw [List.length_take]
    exact Nat.min_eq_left hl
  have hrs := ofList_take_ofList (n := slotMaterialBytes) (by rw [htk]; exact hl.trans hwd)
  have hm : (FixedBytes.ofList slotMaterialBytes (raw.take len)).val.take len = raw.take len := by
    have hwh : (raw.take len).take slotMaterialBytes = raw.take len :=
      List.take_of_length_le (by rw [htk]; exact hl.trans hwd)
    change ((raw.take len).take slotMaterialBytes ++ _).take len = _
    rw [hwh, List.take_left' htk]
  rw [htk] at hrs
  unfold geometryOk at h
  refine ⟨hl.trans hwd, hrs, fun hne => ?_, fun hr => ?_⟩
  · rw [if_neg hne] at h
    split at h
    · exact .inr (of_decide_eq_true h)
    · rename_i hsh
      exact .inl (Nat.le_of_not_lt hsh)
  · rw [if_pos hr] at h
    obtain ⟨hbl, hk⟩ := of_decide_eq_true h
    refine .inr ⟨hbl, ?_⟩
    rw [hm]
    exact hk

/-- The last part of a key slot: the material and the checks on its length. -/
def decodeMaterial (width : Nat) (index : Fin 3) (present : UInt8) (len : Nat) (algo : UInt8) :
    Parser Unit KeySlot := do
  let raw ← takeN width
  if width < len then reject ()
  else if !geometryOk index algo len raw then reject ()
  else return ⟨present ≠ 0, len, algo, FixedBytes.ofList _ (raw.take len)⟩

theorem decodeKey_eq (version : UInt8) (index : Fin 3) :
    decodeKey version index = (takeByte >>= fun present =>
      (if version = stateVersionV1 ∨ version = stateVersionV2 then takeBE 1 else takeBE 2) >>=
      fun len =>
      (if version = stateVersionV1 then
        pure (if index = 1 then keyAlgoEcdhP256 else keyAlgoEcdsaP256) else takeByte) >>=
      fun algo =>
      decodeMaterial (if version = stateVersionV1 ∨ version = stateVersionV2 then 48
        else slotMaterialBytes) index present len algo) := by
  unfold decodeKey
  dsimp only
  by_cases hv1 : version = stateVersionV1
  · have hold : version = stateVersionV1 ∨ version = stateVersionV2 := .inl hv1
    simp only [if_pos hv1, if_pos hold]
    rfl
  · split <;> rfl

theorem decodeMaterial_ok {width : Nat} (hwd : width ≤ slotMaterialBytes) {present algo : UInt8}
    {len : Nat}
    (h : decodeMaterial width index present len algo inp = .ok (key, rest)) : KeyOk index key := by
  obtain ⟨raw, mid, hr, h⟩ := bind_eq_ok h
  have hln := takeN_length hr
  split at h
  · cases h
  rename_i hl
  split at h
  · cases h
  rename_i hg
  cases h
  exact keyOk_of_geometry (by rw [hln]; exact Nat.le_of_not_lt hl) (by rw [hln]; exact hwd)
    (by simpa using hg)

theorem decodeKey_ok {version : UInt8} (h : decodeKey version index inp = .ok (key, rest))
    : KeyOk index key := by
  rw [decodeKey_eq] at h
  obtain ⟨present, inp₁, -, h⟩ := bind_eq_ok h
  obtain ⟨len, inp₂, -, h⟩ := bind_eq_ok h
  obtain ⟨algo, inp₃, -, h⟩ := bind_eq_ok h
  refine decodeMaterial_ok ?_ h
  split <;> decide

theorem decodeThree_ok {α : Type} {decode : Fin 3 → Parser Unit α} {P : Fin 3 → α → Prop}
    (hP : ∀ i inp v rest, decode i inp = .ok (v, rest) → P i v) {values : Fin 3 → α}
    (h : decodeThree decode inp = .ok (values, rest)) (i : Fin 3) :
    P i (values i) := by
  obtain ⟨x, inp₁, hx, h⟩ := bind_eq_ok h
  obtain ⟨y, inp₂, hy, h⟩ := bind_eq_ok h
  obtain ⟨z, inp₃, hz, h⟩ := bind_eq_ok h
  cases h
  match i with
  | 0 => exact hP 0 _ _ _ hx
  | 1 => exact hP 1 _ _ _ hy
  | 2 => exact hP 2 _ _ _ hz

namespace OpenPgp

variable {σ τ : Type} {K : PgpCrypto} {S : OpenPgpStore σ}

/-- The applet with the state of another one, its counters lowered to its own session floors. -/
def restore (d : OpenPgp τ) (c : OpenPgp σ) : OpenPgp τ :=
  { d with
    pw1 := clampToFloor c.pw1 d.pw1Floor, pw3 := clampToFloor c.pw3 d.pw3Floor, keys := c.keys
    name := c.name, language := c.language, sex := c.sex, url := c.url
    certificates := c.certificates, signatureCounter := c.signatureCounter }

/-- The parser of a state, before it goes into an applet. -/
def imageParser : Parser Unit (OpenPgp Unit) := do
  let version ← takeByte
  if version ≠ stateVersion ∧ version ≠ stateVersionV2 ∧ version ≠ stateVersionV1 then reject ()
  else
    let pw1 ← decodePin pwPolicy
    let pw3 ← decodePin pwPolicy
    let keys ← decodeThree (decodeKey version)
    let name ← decodeLenBytes maxName
    let language ← decodeLenBytes maxLanguage
    let sex ← takeByte
    let url ← decodeLenBytes maxUrl
    let certificates ← decodeThree fun _ => decodeCertificate
    let counter ← takeBE 4
    return { new () with
      pw1, pw3, keys, name, language, sex, url, certificates
      signatureCounter := UInt32.ofNat counter }

theorem stateParser_eq (d : OpenPgp τ) :
    d.stateParser = imageParser >>= fun image => pure (d.restore image) := by
  unfold stateParser imageParser
  rw [bind_assoc]
  congr 1
  funext version
  split
  · rfl
  · simp only [bind_assoc, pure_bind]
    rfl

theorem imageParser_wellFormed {image : OpenPgp Unit} (h : imageParser inp = .ok (image, rest))
    : WellFormed image := by
  obtain ⟨version, inp₁, -, h⟩ := bind_eq_ok h
  split at h
  · cases h
  obtain ⟨pw1, inp₂, hpw1, h⟩ := bind_eq_ok h
  obtain ⟨pw3, inp₃, hpw3, h⟩ := bind_eq_ok h
  obtain ⟨keys, inp₄, hks, h⟩ := bind_eq_ok h
  obtain ⟨name, inp₅, -, h⟩ := bind_eq_ok h
  obtain ⟨language, inp₆, -, h⟩ := bind_eq_ok h
  obtain ⟨sex, inp₇, -, h⟩ := bind_eq_ok h
  obtain ⟨url, inp₈, -, h⟩ := bind_eq_ok h
  obtain ⟨certificates, inp₉, -, h⟩ := bind_eq_ok h
  obtain ⟨counter, inp₁₀, -, h⟩ := bind_eq_ok h
  cases h
  exact ⟨forall_pw (decodePin_ok hpw1) (decodePin_ok hpw3), (wellFormed_new ()).floors,
    decodeThree_ok (P := KeyOk) (fun _ _ _ _ => decodeKey_ok) hks⟩

def decodeImage (bytes : List UInt8) : Option (OpenPgp Unit) :=
  match imageParser bytes with
  | .ok (image, _) => some image
  | .error _ => none

theorem decodeState_eq (d : OpenPgp τ) (bytes : List UInt8) :
    d.decodeState bytes = (decodeImage bytes).map d.restore := by
  unfold decodeState decodeImage
  rw [stateParser_eq]
  rcases hig : imageParser bytes with e | ⟨image, rest⟩
  · rw [bind_error hig]
    rfl
  · rw [bind_ok hig]
    rfl

theorem decodeImage_wellFormed {bytes : List UInt8} {image : OpenPgp Unit}
    (h : decodeImage bytes = some image) : WellFormed image := by
  unfold decodeImage at h
  split at h
  · rename_i parsed rest hp
    cases h
    exact imageParser_wellFormed hp
  · cases h

end OpenPgp

/-! ## Reading back what was written -/

theorem decodePin_encode (h : OpenPgp.PwOk slot) (r : List UInt8) :
    decodePin pwPolicy (slot.encode.val ++ r) = .ok (slot, r) := by
  have hd : PinSlot.decode pwPolicy slot.encode.val = .ok slot := by
    rw [← h.1]
    exact PinSlot.decode_encode (h.1 ▸ h.2)
  unfold decodePin
  rw [bind_ok (takeN_append r slot.encode.property)]
  simp only [hd]
  rfl

theorem ofSlice_val {n : Nat} (value : BoundedBytes n) :
    BoundedBytes.ofSlice n value.val = some value := BoundedBytes.ofSlice_eq_some.mpr rfl

theorem decodeLenBytes_pieces {n : Nat} (hn : n < 256) (value : BoundedBytes n) (r : List UInt8) :
    decodeLenBytes n ((lenBytesPieces value.val n).flatten ++ r) = .ok (value, r) := by
  have hl : (UInt8.ofNat value.val.length).toNat = value.val.length := by
    exact Nat.mod_eq_of_lt (Nat.lt_of_le_of_lt value.property hn)
  obtain ⟨hwd, htk⟩ := field_bytes value
  have hbt : (lenBytesPieces value.val n).flatten ++ r = [UInt8.ofNat value.val.length] ++
        ((value.val ++ List.replicate (n - value.val.length) 0) ++ r) := by
    unfold lenBytesPieces
    rw [List.flatten_cons, List.flatten_cons, flatten_zeroPieces, List.append_assoc]
  rw [hbt]
  unfold decodeLenBytes
  rw [bind_ok (takeByte_cons _ _), hl, if_neg (Nat.not_lt.mpr value.property),
    bind_ok (takeN_append r hwd), htk, ofSlice_val]
  rfl

theorem decodeCertificate_pieces (cert : BoundedBytes maxCertificate) (r : List UInt8) :
    decodeCertificate ((certificatePieces cert).flatten ++ r) = .ok (cert, r) := by
  obtain ⟨hwd, htk⟩ := field_bytes cert
  have hlt : cert.val.length < 256 ^ 2 := Nat.lt_of_le_of_lt cert.property (by decide)
  have hbt : (certificatePieces cert).flatten ++ r = toBE 2 cert.val.length ++
      ((cert.val ++ List.replicate (maxCertificate - cert.val.length) 0) ++ r) := by
    unfold certificatePieces
    rw [List.flatten_cons, List.flatten_cons, flatten_zeroPieces, List.append_assoc]
  rw [hbt]
  unfold decodeCertificate
  rw [bind_ok (takeBE_toBE hlt _), bind_ok (takeN_append r hwd),
    if_neg (Nat.not_lt.mpr cert.property), htk, ofSlice_val]
  rfl

/-- A key slot is read back when it is keyed, and rejected when it is not. -/
theorem decodeKey_pieces (h : KeyOk index key) (r : List UInt8) :
    decodeKey stateVersion index (key.pieces.flatten ++ r) =
      if Keyed key then .ok (key, r) else .error () := by
  have hbt : key.pieces.flatten ++ r =
      [if key.present then 1 else 0] ++ (toBE 2 key.len ++ ([key.algo] ++ (key.material.val ++ r))) := by
    unfold KeySlot.pieces
    simp only [List.flatten_cons, List.flatten_nil, List.append_nil, List.append_assoc]
  have hlt : key.len < 256 ^ 2 := Nat.lt_of_le_of_lt h.len_le (by decide)
  have hpr : decide ((if key.present then (1 : UInt8) else 0) ≠ 0) = key.present := by
    cases key.present <;> rfl
  rw [hbt, decodeKey_eq, bind_ok (takeByte_cons _ _), if_neg nofun,
    bind_ok (takeBE_toBE hlt _), if_neg nofun, bind_ok (takeByte_cons _ _), if_neg nofun]
  unfold decodeMaterial
  rw [bind_ok (takeN_append r key.material.property), if_neg (Nat.not_lt.mpr h.len_le), h.rest, hpr]
  by_cases hkd : Keyed key
  · rw [if_pos hkd, h.geometry.mpr hkd]
    rfl
  · rw [if_neg hkd, Bool.not_eq_true _ |>.mp fun hg => hkd (h.geometry.mp hg)]
    rfl

/-- Three values in a row are read back, unless one of them is rejected. -/
theorem decodeThree_flatMap {α : Type} {decode : Fin 3 → Parser Unit α}
    {enc : Fin 3 → List (List UInt8)} {v : Fin 3 → α} {P : Fin 3 → Prop} [DecidablePred P]
    (h : ∀ i r, decode i ((enc i).flatten ++ r) = if P i then .ok (v i, r) else .error ())
    (r : List UInt8) :
    decodeThree decode (((List.finRange 3).flatMap enc).flatten ++ r) =
      if ∀ i, P i then .ok (v, r) else .error () := by
  have hbt : ((List.finRange 3).flatMap enc).flatten ++ r =
      (enc 0).flatten ++ ((enc 1).flatten ++ ((enc 2).flatten ++ r)) := by
    have hrn : List.finRange 3 = [0, 1, 2] := rfl
    rw [hrn]
    simp only [List.flatMap_cons, List.flatMap_nil, List.append_nil, List.flatten_append,
      List.append_assoc]
  have hb : ∀ i, ¬P i → ¬∀ i, P i := fun i hi ha => hi (ha i)
  rw [hbt]
  unfold decodeThree
  by_cases h0 : P 0
  · rw [bind_ok ((h 0 _).trans (if_pos h0))]
    by_cases h1 : P 1
    · rw [bind_ok ((h 1 _).trans (if_pos h1))]
      by_cases h2 : P 2
      · rw [bind_ok ((h 2 _).trans (if_pos h2)), if_pos]
        · refine congrArg (fun f => Except.ok (f, r)) (funext fun i => ?_)
          match i with
          | 0 => rfl
          | 1 => rfl
          | 2 => rfl
        · intro i
          match i with
          | 0 => exact h0
          | 1 => exact h1
          | 2 => exact h2
      · rw [bind_error ((h 2 _).trans (if_neg h2)), if_neg (hb 2 h2)]
    · rw [bind_error ((h 1 _).trans (if_neg h1)), if_neg (hb 1 h1)]
  · rw [bind_error ((h 0 _).trans (if_neg h0)), if_neg (hb 0 h0)]

namespace OpenPgp

variable {σ τ : Type} {K : PgpCrypto} {S : OpenPgpStore σ} {c : OpenPgp σ}

theorem length_statePieces (c : OpenPgp σ) : c.statePieces.flatten.length ≤ stateBytes := by
  have hk : ∀ i, (c.keys i).pieces.flatten.length = 4 + slotMaterialBytes := by
    intro i
    unfold KeySlot.pieces
    simp only [List.flatten_cons, List.flatten_nil, List.append_nil, List.length_append,
      List.length_cons, List.length_nil, length_toBE, (c.keys i).material.property]
    omega
  have hvl : ∀ {n : Nat} (value : BoundedBytes n),
      (lenBytesPieces value.val n).flatten.length = 1 + n := by
    intro n value
    unfold lenBytesPieces
    rw [List.flatten_cons, List.flatten_cons, flatten_zeroPieces]
    simp only [List.length_append, List.length_cons, List.length_nil, List.length_replicate]
    omega
  have hcr : ∀ i, (certificatePieces (c.certificates i)).flatten.length = 2 + maxCertificate := by
    intro i
    have := (c.certificates i).property
    unfold certificatePieces
    rw [List.flatten_cons, List.flatten_cons, flatten_zeroPieces]
    simp only [List.length_append, length_toBE, List.length_replicate]
    omega
  have hrn : List.finRange 3 = [0, 1, 2] := rfl
  unfold statePieces
  rw [hrn]
  simp only [List.flatten_append, List.length_append, List.flatMap_cons, List.flatMap_nil,
    List.append_nil, List.flatten_cons, List.flatten_nil, List.length_cons, List.length_nil,
    length_toBE, hk, hvl, hcr, c.pw1.encode.property, c.pw3.encode.property]
  decide

theorem encodeState_eq (c : OpenPgp σ) : c.encodeState = c.statePieces.flatten := by
  exact foldl_extendTo (by rw [List.length_nil, Nat.zero_add]; exact length_statePieces c)

/-- The state of an applet, without its session. -/
def image (c : OpenPgp σ) : OpenPgp Unit :=
  { new () with
    pw1 := c.pw1, pw3 := c.pw3, keys := c.keys, name := c.name, language := c.language
    sex := c.sex, url := c.url, certificates := c.certificates
    signatureCounter := c.signatureCounter }

/-- A well-formed state is read back exactly when no slot has the RSA algorithm without a key. -/
theorem decodeImage_encodeState (h : WellFormed c) :
    decodeImage c.encodeState = if ∀ i, Keyed (c.keys i) then some c.image else none := by
  have hbt : c.encodeState = [stateVersion] ++ (c.pw1.encode.val ++ (c.pw3.encode.val ++
      (((List.finRange 3).flatMap fun i => (c.keys i).pieces).flatten ++
      ((lenBytesPieces c.name.val maxName).flatten ++
      ((lenBytesPieces c.language.val maxLanguage).flatten ++ ([c.sex] ++
      ((lenBytesPieces c.url.val maxUrl).flatten ++
      (((List.finRange 3).flatMap fun i => certificatePieces (c.certificates i)).flatten ++
      (toBE 4 c.signatureCounter.toNat ++ []))))))))) := by
    rw [encodeState_eq]
    unfold statePieces
    simp only [List.flatten_append, List.flatten_cons, List.flatten_nil, List.append_nil,
      List.append_assoc]
  have hks := decodeThree_flatMap fun i r => decodeKey_pieces (h.keys i) r
  have hcr := fun r => decodeThree_flatMap
    (fun i r => (decodeCertificate_pieces (c.certificates i) r).trans (if_pos trivial).symm) r
  have hc : c.signatureCounter.toNat < 256 ^ 4 := c.signatureCounter.toNat_lt
  have hpw1 : PwOk c.pw1 := h.pins .pw1
  have hpw3 : PwOk c.pw3 := h.pins .pw3
  unfold decodeImage
  rw [hbt]
  unfold imageParser
  rw [bind_ok (takeByte_cons _ _), if_neg nofun, bind_ok (decodePin_encode hpw1 _),
    bind_ok (decodePin_encode hpw3 _)]
  by_cases hkd : ∀ i, Keyed (c.keys i)
  · rw [bind_ok ((hks _).trans (if_pos hkd)), bind_ok (decodeLenBytes_pieces (by decide) _ _),
      bind_ok (decodeLenBytes_pieces (by decide) _ _), bind_ok (takeByte_cons _ _),
      bind_ok (decodeLenBytes_pieces (by decide) _ _),
      bind_ok ((hcr _).trans (if_pos fun _ => trivial)), bind_ok (takeBE_toBE hc _),
      UInt32.ofNat_toNat, if_pos hkd]
    rfl
  · rw [bind_error ((hks _).trans (if_neg hkd)), if_neg hkd]

/-! ## Loading -/

/-- The applet after SELECT read the store: no PIN is verified. -/
def opened (S : OpenPgpStore σ) (c : OpenPgp σ) : OpenPgp σ :=
  { c with
    store := (S.load c.store).2, loaded := true
    pw1SignatureVerified := false, pw1OtherVerified := false, pw3Verified := false }

/-- The state that SELECT finds in the store. -/
def found (S : OpenPgpStore σ) (c : OpenPgp σ) : Option (OpenPgp Unit) :=
  (S.load c.store).1.bind fun bytes => decodeImage bytes.val

theorem select_eq (c : OpenPgp σ) :
    (c.select K S).2 = match c.found S with
      | some image => (c.opened S).restore image
      | none => (((c.opened S).provision K).saveState S).2 := by
  unfold select ensureLoaded found opened
  dsimp only
  rcases (S.load c.store).1 with _ | bytes
  · rfl
  · simp only [Option.bind_some, decodeState_eq]
    rcases decodeImage bytes.val with _ | image <;> rfl

theorem select_found {image : OpenPgp Unit} (h : c.found S = some image) :
    (c.select K S).2 = (c.opened S).restore image := by rw [select_eq, h]

theorem select_missed (h : c.found S = none) :
    (c.select K S).2 = (((c.opened S).provision K).saveState S).2 := by rw [select_eq, h]

theorem PwOk.clamped (h : PwOk slot) {floor : UInt8} (hfl : floor ≤ pwPolicy.maxAttempts)
    : PwOk (clampToFloor slot floor) := by
  rw [clampToFloor_eq (h.1 ▸ hfl)]
  refine ⟨h.1, ?_⟩
  change (if slot.retriesRemaining ≤ floor then slot.retriesRemaining else floor) ≤ _
  split
  · exact h.2
  · exact hfl

/-- The factory PINs have a length the policy allows. -/
theorem provision_eq (h : WellFormed c) :
    c.provision K = { c with
      pw1 := clampToFloor (c.pw1.installed K.sha256 factoryPw1) c.pw1Floor
      pw3 := clampToFloor (c.pw3.installed K.sha256 factoryPw3) c.pw3Floor } := by
  have h1 : c.pw1.policy = pwPolicy := (h.pins .pw1).1
  have h3 : c.pw3.policy = pwPolicy := (h.pins .pw3).1
  unfold provision
  rw [PinSlot.set_of_length (by rw [h1]; decide) (by rw [h1]; decide),
    PinSlot.set_of_length (by rw [h3]; decide) (by rw [h3]; decide)]

theorem select_wellFormed (h : WellFormed c) : WellFormed (c.select K S).2 := by
  have hop : WellFormed (c.opened S) :=
    h.congr (forall_pw rfl rfl) (forall_pw rfl rfl) rfl
  have hfl1 : (c.opened S).pw1Floor ≤ pwPolicy.maxAttempts := h.floors .pw1
  have hfl3 : (c.opened S).pw3Floor ≤ pwPolicy.maxAttempts := h.floors .pw3
  rw [select_eq]
  rcases hfn : c.found S with _ | image
  · have hpr : WellFormed ((c.opened S).provision K) := by
      rw [provision_eq hop]
      exact ⟨forall_pw (((hop.pins .pw1).installed _).clamped hfl1)
        (((hop.pins .pw3).installed _).clamped hfl3),
        forall_pw hfl1 hfl3, h.keys⟩
    exact hpr.saved
  · obtain ⟨bytes, -, hd⟩ := Option.bind_eq_some_iff.mp hfn
    have hig := decodeImage_wellFormed hd
    exact ⟨forall_pw ((hig.pins .pw1).clamped hfl1) ((hig.pins .pw3).clamped hfl3),
      forall_pw hfl1 hfl3, hig.keys⟩

theorem step_wellFormed (h : WellFormed c) (e : Event) :
    WellFormed (step K S c e).2 := by
  cases e with
  | select => exact select_wellFormed h
  | process apdu rng => exact (process_effect c apdu rng).wellFormed h

theorem run_wellFormed (store : σ) (es : List Event) : WellFormed (run K S (new store) es) :=
  Runs.keep (I := WellFormed) (fun _ e h => step_wellFormed h e) (wellFormed_new store) es

/-! ## An example card

  The primitives with their values on the inputs of the example runs: SHA-256 of a few PINs, and
  the P-256 key `1` with its signature over the digest `1`. -/

def otherPw1 : List UInt8 := [0x36, 0x35, 0x34, 0x33, 0x32, 0x31]

def otherPw3 : List UInt8 := [0x38, 0x37, 0x36, 0x35, 0x34, 0x33, 0x32, 0x31]

/-- `"000000"`, the PIN of no slot. -/
def wrongPin : List UInt8 := [0x30, 0x30, 0x30, 0x30, 0x30, 0x30]

def factoryPw1Hash : FixedBytes 32 :=
  ⟨toBE 32 0x8d969eef6ecad3c29a3a629280e686cf0c3f5d5a86aff3ca12020c923adc6c92, rfl⟩

def otherPw1Hash : FixedBytes 32 :=
  ⟨toBE 32 0x481f6cc0511143ccdd7e2d1b1b94faf0a700a8b49cd13922a70b5ae28acaa8c5, rfl⟩

def otherPw3Hash : FixedBytes 32 :=
  ⟨toBE 32 0xe24df920078c3dd4e7e8d2442f00e5c9ab2a231bb3918d65cc50906e49ecaef4, rfl⟩

def wrongPinHash : FixedBytes 32 :=
  ⟨toBE 32 0x91b4d142823f7d20c5f08df69122de43f35f057a988d9619f6d3138485c9a203, rfl⟩

def scalarOne : FixedBytes 32 := ⟨List.replicate 31 0 ++ [1], rfl⟩

/-- The Ed25519 key of the seed `1`. -/
def edPointOne : FixedBytes 32 :=
  ⟨toBE 32 0x4cb5abf6ad79fbf5abbccafcc269d85cd2651ed4b885b5869f241aedf0a5ba29, rfl⟩

def signatureOne : FixedBytes 64 := ⟨signatureR ++ signatureS, rfl⟩

def exampleCrypto : PgpCrypto where
  sha1 _ := FixedBytes.zero _
  sha256 bytes :=
    if bytes = factoryPw1 then factoryPw1Hash
    else if bytes = factoryPw3 then eightDigitsHash
    else if bytes = otherPw1 then otherPw1Hash
    else if bytes = otherPw3 then otherPw3Hash
    else if bytes = wrongPin then wrongPinHash
    else FixedBytes.zero _
  bigUint := Rsa2048PrivateKey.computedBigUint
  p256Public scalar := if scalar = scalarOne then some pointOne else none
  p256Sign scalar digest :=
    if scalar = scalarOne ∧ digest = scalarOne then some signatureOne else none
  p256IsPoint _ := false
  p256IsSecretKey scalar := scalar = scalarOne
  p256SharedSecret _ _ := FixedBytes.zero _
  ed25519Public seed := if seed = scalarOne then edPointOne else FixedBytes.zero _
  ed25519Sign _ _ := FixedBytes.zero _
  x25519Public _ := FixedBytes.zero _
  x25519SharedSecret _ _ := FixedBytes.zero _
  aesEncrypt _ _ := FixedBytes.zero _
  aesDecrypt _ _ := FixedBytes.zero _

/-- A generator that draws the scalar `1`. -/
def rngOne : Rng := fun i => if i = 31 then 1 else 0

def verifyPw (p2 : UInt8) (pin : List UInt8) : Event := .process ⟨insVerify, 0, p2, pin, none⟩ rngOne

/-- PUT DATA of the RSA attributes of the signature key. -/
def putRsaAttrs : Event := .process ⟨insPutData, 0x00, 0xC1, rsaAttrs, none⟩ rngOne

/-- A store in memory whose reads and writes all work. -/
def memory : OpenPgpStore (Option (List UInt8)) where
  load stored := (stored.bind (BoundedBytes.ofSlice stateBytes), stored)
  save data _ := (true, some data)

/-! ## The round trip -/

/-- The persistent state of one applet is that of another. -/
structure SameState (c c' : OpenPgp σ) : Prop where
  pw1 : c'.pw1 = c.pw1
  pw3 : c'.pw3 = c.pw3
  keys : c'.keys = c.keys
  name : c'.name = c.name
  language : c'.language = c.language
  sex : c'.sex = c.sex
  url : c'.url = c.url
  certificates : c'.certificates = c.certificates
  signatureCounter : c'.signatureCounter = c.signatureCounter

/-- A fresh applet accepts the bytes of the state and gets the same state from them. -/
def RoundTrips (c : OpenPgp σ) : Prop :=
  ∀ store : σ, ∃ c', (new store).decodeState c.encodeState = some c' ∧ SameState c c'

/-- The counters of a well-formed state are within the floors of a fresh applet. -/
theorem clampToFloor_new (h : PwOk slot) :
    clampToFloor slot pwPolicy.maxAttempts = slot := if_pos h.2

theorem WellFormed.roundTrips_iff (h : WellFormed c) :
    RoundTrips c ↔ ∀ i, Keyed (c.keys i) := by
  have hd : ∀ store : σ, (new store).decodeState c.encodeState =
      if ∀ i, Keyed (c.keys i) then some ((new store).restore c.image) else none := by
    intro store
    rw [decodeState_eq, decodeImage_encodeState h]
    split <;> rfl
  constructor
  · intro htr
    obtain ⟨c', hc', -⟩ := htr c.store
    rw [hd] at hc'
    split at hc'
    · assumption
    · cases hc'
  · intro hkd store
    refine ⟨(new store).restore c.image, (hd store).trans (if_pos hkd), ?_⟩
    exact ⟨clampToFloor_new (h.pins .pw1), clampToFloor_new (h.pins .pw3), rfl, rfl, rfl, rfl, rfl,
      rfl, rfl⟩

/-- In every state that any run reaches over any store, the bytes that a save writes bring the
  state back exactly when no slot has the RSA algorithm without a key. -/
theorem saved_state_round_trips (K : PgpCrypto) (S : OpenPgpStore σ) (store : σ)
    (es : List Event) :
    RoundTrips (run K S (new store) es) ↔ ∀ i, Keyed ((run K S (new store) es).keys i) :=
  (run_wellFormed store es).roundTrips_iff

/-- On a blank card the administrator chooses RSA for the signature key. -/
def chooseRsa : List Event := [.select, verifyPw 0x83 factoryPw3, putRsaAttrs]

/-- Every command is answered `9000`, and the state it leaves is not read back. -/
theorem rsa_attributes_lost :
    (History.answers (step exampleCrypto memory) (new none) chooseRsa).map (·.sw) =
      [.ok, .ok, .ok] ∧
    ¬RoundTrips (run exampleCrypto memory (new none) chooseRsa) := by
  refine ⟨by decide +kernel, fun h => ?_⟩
  have hkeyed := (run_wellFormed none chooseRsa).roundTrips_iff.mp h 0
  exact hkeyed (by decide +kernel) (by decide +kernel)

end OpenPgp

end AegisToken.Applets
