/-
  What one command of the OATH applet can do.
  A saved state is read back as it was. `Effect K S c apdu answer c'` lists every outcome of a
  command on a loaded applet: PUT installs the credential it carries, CALCULATE makes the
  calculation it asks for or arms a request for it, DELETE and RESET remove credentials, SET CODE
  and VALIDATE change the access code and the session. What holds over whole runs is derived from
  it.
-/
import AegisToken.Lib.History
import AegisToken.Applets.OathCalculations

namespace AegisToken.Applets.Oath
open ByteCodec Wire History

variable {σ τ : Type} {K : OathCrypto} {S : OathStore σ}

/-! ## Saved states -/

theorem flatten_fixedPieces (value : List UInt8) (width : Nat) :
    (fixedPieces value width).flatten = value ++ List.replicate (width - value.length) 0 := by
  rw [fixedPieces, List.flatten_cons, flatten_zeroPieces]

/-- The bytes of a field with its value, as the pieces write them. -/
theorem length_fixedPieces {n : Nat} (value : BoundedBytes n) :
    (fixedPieces value.val n).flatten.length = n := by
  rw [flatten_fixedPieces]
  exact (field_bytes value).1

theorem length_credentialPieces (credential : Credential) :
    credential.pieces.flatten.length = 142 := by
  unfold Credential.pieces
  simp only [List.flatten_append, List.length_append, length_fixedPieces, List.flatten_cons,
    List.flatten_nil, List.length_cons, List.length_nil, length_toBE]
  decide

theorem length_statePieces (c : Oath σ) : c.statePieces.flatten.length ≤ stateBytes := by
  have hcn := c.credentials.property
  have hcr : (c.credentials.val.flatMap Credential.pieces).flatten.length =
      142 * c.credentials.val.length := by
    induction c.credentials.val with
    | nil => rfl
    | cons credential rest ih =>
      rw [List.flatMap_cons, List.flatten_append, List.length_append, length_credentialPieces,
        List.length_cons]
      omega
  have hch : (fixedPieces c.authChallenge.val 8).flatten.length = 8 := by
    rw [flatten_fixedPieces, List.length_append, List.length_replicate, c.authChallenge.property]
  unfold statePieces
  simp only [List.flatten_append, List.length_append, length_fixedPieces, hch, hcr,
    List.flatten_cons, List.flatten_nil, List.length_cons, List.length_nil]
  simp only [maxCredentials] at hcn
  simp only [maxSecret, stateBytes]
  omega

theorem encodeState_eq (c : Oath σ) : c.encodeState = c.statePieces.flatten :=
  foldl_extendTo (by rw [List.length_nil, Nat.zero_add]; exact length_statePieces c)

theorem toNat_ofNat_length {n : Nat} (hn : n < 256) (value : BoundedBytes n) :
    (UInt8.ofNat value.val.length).toNat = value.val.length := by
  exact Nat.mod_eq_of_lt (by omega)

theorem decodeField_fixed {n : Nat} (hn : n < 256) (value : BoundedBytes n) (r : List UInt8) :
    decodeField n (UInt8.ofNat value.val.length) ((fixedPieces value.val n).flatten) r =
      .ok (value, r) := by
  unfold decodeField
  rw [toNat_ofNat_length hn, flatten_fixedPieces, (field_bytes value).2,
    BoundedBytes.ofSlice_eq_some.mpr rfl]
  rfl

theorem decodeCredential_pieces (credential : Credential) (r : List UInt8) :
    decodeCredential (credential.pieces.flatten ++ r) = .ok (credential, r) := by
  have hnm := toNat_ofNat_length (by decide) credential.name
  have hs := toNat_ofNat_length (by decide) credential.secret
  have hbt : credential.pieces.flatten ++ r =
      [credential.kind] ++ ([credential.algorithm] ++ ([credential.digits] ++
      ([credential.property] ++ (toBE 4 credential.counter.toNat ++
      (toBE 4 credential.period.toNat ++ ([UInt8.ofNat credential.name.val.length] ++
      ((fixedPieces credential.name.val maxName).flatten ++
      ([UInt8.ofNat credential.secret.val.length] ++
      ((fixedPieces credential.secret.val maxSecret).flatten ++ r))))))))) := by
    unfold Credential.pieces
    simp only [List.flatten_append, List.flatten_cons, List.flatten_nil, List.append_nil,
      List.append_assoc]
  rw [hbt]
  unfold decodeCredential
  rw [bind_ok (takeByte_cons _ _), bind_ok (takeByte_cons _ _), bind_ok (takeByte_cons _ _),
    bind_ok (takeByte_cons _ _), bind_ok (takeBE_toBE credential.counter.toNat_lt _),
    bind_ok (takeBE_toBE credential.period.toNat_lt _), bind_ok (takeByte_cons _ _),
    bind_ok (takeN_append _ (length_fixedPieces _)), bind_ok (takeByte_cons _ _),
    bind_ok (takeN_append _ (length_fixedPieces _)), if_neg]
  · rw [bind_ok (decodeField_fixed (by decide) credential.name _),
      bind_ok (decodeField_fixed (by decide) credential.secret _), UInt32.ofNat_toNat,
      UInt32.ofNat_toNat]
    rfl
  · have := credential.name.property
    have := credential.secret.property
    omega

/-- The loop reads the credentials that were written, behind those it has. -/
theorem turns_credentials (xs : List Credential) (cs : Credentials)
    (h : (cs.val ++ xs).length ≤ maxCredentials) (r : List UInt8) :
    turns decodeTurn xs.length cs ((xs.flatMap Credential.pieces).flatten ++ r) =
      .ok (⟨cs.val ++ xs, h⟩, r) := by
  induction xs generalizing cs with
  | nil =>
    refine congrArg (fun cs => Except.ok (cs, r)) (Subtype.ext ?_)
    exact (List.append_nil _).symm
  | cons x xs ih =>
    have hrm : (cs.val ++ [x]).length ≤ maxCredentials := by
      simp only [List.length_append, List.length_cons, List.length_nil] at h ⊢
      omega
    have hps : cs.push x = some ⟨cs.val ++ [x], hrm⟩ := dif_pos hrm
    have htr : decodeTurn cs (x.pieces.flatten ++ ((xs.flatMap Credential.pieces).flatten ++ r)) =
        .ok (⟨cs.val ++ [x], hrm⟩, (xs.flatMap Credential.pieces).flatten ++ r) := by
      unfold decodeTurn
      rw [bind_ok (decodeCredential_pieces x _), hps]
      rfl
    rw [List.flatMap_cons, List.flatten_append, List.append_assoc, List.length_cons,
      turns_succ htr, ih ⟨cs.val ++ [x], hrm⟩ (by
        rw [List.append_assoc]
        exact h)]
    refine congrArg (fun cs => Except.ok (cs, r)) (Subtype.ext ?_)
    exact List.append_assoc _ _ _

/-- The applet with the state of another one. -/
def restore (d : Oath τ) (c : Oath σ) : Oath τ :=
  { d with
    credentials := c.credentials, authKey := c.authKey, authAlgorithm := c.authAlgorithm
    authChallenge := c.authChallenge }

theorem decodeState_encodeState (d : Oath τ) (c : Oath σ) :
    d.decodeState c.encodeState = some (d.restore c) := by
  have hcn := c.credentials.property
  have hcn' : (UInt8.ofNat c.credentials.val.length).toNat = c.credentials.val.length := by
    exact Nat.mod_eq_of_lt (by simp only [maxCredentials] at hcn; omega)
  have hl := toNat_ofNat_length (by decide) c.authKey
  have hch : (fixedPieces c.authChallenge.val 8).flatten = c.authChallenge.val := by
    rw [flatten_fixedPieces, c.authChallenge.property, List.replicate_zero, List.append_nil]
  have hbt : c.encodeState = [stateVersion] ++ ([UInt8.ofNat c.credentials.val.length] ++
      ([if c.authKey.val = [] then 0 else 1] ++ ([c.authAlgorithm] ++
      ([UInt8.ofNat c.authKey.val.length] ++ ((fixedPieces c.authKey.val maxSecret).flatten ++
      (c.authChallenge.val ++ ((c.credentials.val.flatMap Credential.pieces).flatten ++ []))))))) := by
    rw [encodeState_eq]
    unfold statePieces
    simp only [List.flatten_append, List.flatten_cons, List.flatten_nil, List.append_nil,
      List.append_assoc, hch]
  have hk : ∀ r, decodeAuthKey (if c.authKey.val = [] then 0 else 1)
      (UInt8.ofNat c.authKey.val.length) (fixedPieces c.authKey.val maxSecret).flatten r =
      .ok (c.authKey, r) := by
    intro r
    by_cases hn : c.authKey.val = []
    · rw [if_pos hn]
      exact congrArg (fun key => Except.ok (key, r)) (Subtype.ext hn.symm)
    · rw [if_neg hn]
      exact decodeField_fixed (by decide) c.authKey r
  have htr := turns_credentials c.credentials.val Credentials.empty hcn []
  have hpr : d.stateParser c.encodeState = .ok (d.restore c, []) := by
    rw [hbt]
    unfold stateParser
    rw [bind_ok (takeByte_cons _ _), if_neg nofun, bind_ok (takeByte_cons _ _), hcn',
      if_neg (Nat.not_lt.mpr hcn), bind_ok (takeByte_cons _ _), bind_ok (takeByte_cons _ _),
      bind_ok (takeByte_cons _ _), bind_ok (takeN_append _ (length_fixedPieces _)),
      bind_ok (takeN_append _ c.authChallenge.property), hl,
      if_neg (Nat.not_lt.mpr c.authKey.property), bind_ok (hk _), bind_ok htr,
      FixedBytes.ofList_val]
    rfl
  unfold decodeState
  rw [hpr]

/-- What a state is decoded to does not depend on the applet that decodes it. -/
theorem decodeState_restore {c r : Oath σ} {bytes : List UInt8} (h : c.decodeState bytes = some r)
    (d : Oath τ) : d.decodeState bytes = some (d.restore r) := by
  unfold decodeState at h ⊢
  split at h
  · rename_i hpr
    cases h
    unfold stateParser at hpr ⊢
    obtain ⟨version, inp₁, h₁, hpr⟩ := bind_eq_ok hpr
    split at hpr
    · cases hpr
    rename_i hvr
    obtain ⟨count, inp₂, h₂, hpr⟩ := bind_eq_ok hpr
    split at hpr
    · cases hpr
    rename_i hcn
    obtain ⟨present, inp₃, h₃, hpr⟩ := bind_eq_ok hpr
    obtain ⟨algorithm, inp₄, h₄, hpr⟩ := bind_eq_ok hpr
    obtain ⟨len, inp₅, h₅, hpr⟩ := bind_eq_ok hpr
    obtain ⟨raw, inp₆, h₆, hpr⟩ := bind_eq_ok hpr
    obtain ⟨challenge, inp₇, h₇, hpr⟩ := bind_eq_ok hpr
    split at hpr
    · cases hpr
    rename_i hl
    obtain ⟨key, inp₈, h₈, hpr⟩ := bind_eq_ok hpr
    obtain ⟨credentials, inp₉, h₉, hpr⟩ := bind_eq_ok hpr
    cases hpr
    rw [bind_ok h₁, if_neg hvr, bind_ok h₂, if_neg hcn, bind_ok h₃, bind_ok h₄, bind_ok h₅,
      bind_ok h₆, bind_ok h₇, if_neg hl, bind_ok h₈, bind_ok h₉]
    rfl
  · cases h

theorem decodeState_loaded {c d : Oath σ} {bytes : List UInt8} (h : c.decodeState bytes = some d) :
    d.loaded = c.loaded := by
  have hsl := decodeState_restore h c
  rw [h, Option.some.injEq] at hsl
  rw [hsl]
  rfl

/-! ## Outcomes -/

def Authorised (c : Oath σ) : Prop := c.authKey.val = [] ∨ c.authenticated = true

instance (c : Oath σ) : Decidable (Authorised c) := inferInstanceAs (Decidable (_ ∨ _))

/-- The commands that the access code protects. -/
def Gated (apdu : Apdu) : Prop :=
  apdu.ins = insPut ∨ apdu.ins = insDelete ∨ apdu.ins = insSetCode ∨ apdu.ins = insCalculate ∨
    apdu.ins = insCalculateAll ∨ (apdu.ins = insList ∧ apdu.p1 = 0 ∧ apdu.p2 = 0)

instance (apdu : Apdu) : Decidable (Gated apdu) := inferInstanceAs (Decidable (_ ∨ _))

def isReset (apdu : Apdu) : Prop := apdu.ins = insReset ∧ apdu.p1 = 0xDE ∧ apdu.p2 = 0xAD

instance (apdu : Apdu) : Decidable (isReset apdu) := inferInstanceAs (Decidable (_ ∧ _))

/-- The commands that answer with data and change nothing. -/
def Reads (apdu : Apdu) : Prop := apdu.ins = insList ∨ apdu.ins = insCalculateAll

/-- The access code, the session and the store of one applet are those of another. -/
structure SameCode (c c' : Oath σ) : Prop where
  authKey : c'.authKey = c.authKey
  authAlgorithm : c'.authAlgorithm = c.authAlgorithm
  authenticated : c'.authenticated = c.authenticated
  loaded : c'.loaded = c.loaded
  closed : c'.closed = c.closed
  store : c'.store = c.store

theorem SameCode.refl (c : Oath σ) : SameCode c c := ⟨rfl, rfl, rfl, rfl, rfl, rfl⟩

/-- The host proved the access code on the challenge of the card. -/
def ProvesCode (K : OathCrypto) (algorithm : UInt8) (key challenge : List UInt8) (apdu : Apdu) :
    Prop :=
  apdu.ins = insValidate ∧ ∃ response, Tlv.find apdu.data tagResponse = some response ∧
    hmacDigest K algorithm key challenge = some response

/-- The applet after the proof of the code, with the next challenge. -/
def validated (K : OathCrypto) (challenge : List UInt8) (c : Oath σ) : Oath σ :=
  { c with
    authChallenge := deriveChallenge K c.authChallenge.val challenge, authenticated := true }

/-- Every outcome of a command on a loaded applet. -/
inductive Effect (K : OathCrypto) (S : OathStore σ) (c : Oath σ) (apdu : Apdu) :
    Response → Oath σ → Prop
  /-- A refusal or a read: at most an armed request is dropped. -/
  | kept {answer : Response} {c' : Oath σ} : c' = c ∨ c' = { c with pending := none } →
      (Gated apdu → ¬Authorised c → answer.sw = .securityStatusNotSatisfied) →
      (answer.sw = .ok → Reads apdu ∧ Authorised c) →
      (apdu.ins = insCalculate → answer ≠ .presenceRequired) → Effect K S c apdu answer c'
  | put (credential : Credential) (credentials : Credentials) : apdu.ins = insPut →
      Authorised c → putCredential apdu.data = some credential →
      c.install credential = some credentials →
      Effect K S c apdu
        (written ({ c with pending := none, credentials }.saveState S).1 (.status .ok))
        ({ c with pending := none, credentials }.saveState S).2
  | deleted (name : List UInt8) (index : Nat) : apdu.ins = insDelete → Authorised c →
      c.find name = some index →
      Effect K S c apdu
        (written ({ c with
          pending := none, credentials := c.credentials.swapRemove index }.saveState S).1
          (.status .ok))
        ({ c with
          pending := none, credentials := c.credentials.swapRemove index }.saveState S).2
  | calculated (k : Calculation) : apdu.ins = insCalculate → Authorised c →
      c.requested apdu = some k → ¬k.credential.NeedsTouch →
      Effect K S c apdu (c.calculateIndex K S k.index k.challenge k.truncated).1
        (c.calculateIndex K S k.index k.challenge k.truncated).2
  | armed (k : Calculation) : apdu.ins = insCalculate → Authorised c →
      c.requested apdu = some k → k.credential.NeedsTouch → k.challenge.length ≤ 8 →
      Effect K S c apdu .presenceRequired
        { c with pending := some ⟨k.index, padded k.challenge, k.truncated⟩ }
  | codeRemoved : apdu.ins = insSetCode → Authorised c → apdu.data = [] →
      Effect K S c apdu (written (c.withoutCode.saveState S).1 (.status .ok))
        (c.withoutCode.saveState S).2
  | codeSet (code : NewCode) (key : BoundedBytes maxSecret) : apdu.ins = insSetCode →
      Authorised c → apdu.data ≠ [] → parseCode K apdu.data = .ok code →
      BoundedBytes.ofSlice maxSecret code.key = some key →
      Effect K S c apdu (written ((c.withCode K code key).saveState S).1 (.status .ok))
        ((c.withCode K code key).saveState S).2
  /-- A key that does not fit is refused after the old one is cleared. -/
  | codeDropped (code : NewCode) : apdu.ins = insSetCode → Authorised c → apdu.data ≠ [] →
      parseCode K apdu.data = .ok code → BoundedBytes.ofSlice maxSecret code.key = none →
      Effect K S c apdu (.status .notEnoughMemory) { c with authKey := BoundedBytes.empty _ }
  | validated (challenge : List UInt8) {answer : Response} :
      ProvesCode K c.authAlgorithm c.authKey.val c.authChallenge.val apdu → c.authKey.val ≠ [] →
      Tlv.find apdu.data tagChallenge = some challenge → answer.sw = .ok →
      Effect K S c apdu (written ((c.validated K challenge).saveState S).1 answer)
        ((c.validated K challenge).saveState S).2
  | erased : isReset apdu → (S.clear c.store).1 = true →
      Effect K S c apdu (.status .ok) { c with
        store := (S.clear c.store).2, pending := none, credentials := Credentials.empty
        authKey := BoundedBytes.empty _, authenticated := false
        authChallenge := defaultChallenge, loaded := true, closed := false }
  | eraseFailed : isReset apdu → (S.clear c.store).1 = false →
      Effect K S c apdu (.status .notEnoughMemory)
        { c with store := (S.clear c.store).2, pending := none }

section
variable {c c₀ : Oath σ} {apdu : Apdu}

theorem requireAuth_ok (h : Authorised c) : c.requireAuth = .ok () := if_pos h

theorem requireAuth_error (h : ¬Authorised c) :
    c.requireAuth = .error .securityStatusNotSatisfied := if_neg h

theorem Reads.ne {ins : UInt8} (h : Reads apdu) (hls : insList ≠ ins)
    (hca : insCalculateAll ≠ ins) : apdu.ins ≠ ins := by
  rcases h with h | h <;> rw [h] <;> assumption

theorem Effect.refused {sw : Sw} (hsm : c₀ = c ∨ c₀ = { c with pending := none })
    (hg : Gated apdu → ¬Authorised c → sw = .securityStatusNotSatisfied)
    (hsw : sw ≠ .ok ∧ sw ≠ .presenceRequired) : Effect K S c apdu (.status sw) c₀ :=
  .kept hsm hg (fun hok => absurd hok hsw.1) fun _ h => hsw.2 (congrArg Response.sw h)

theorem Effect.gate {x : Response × Oath σ} (hsm : c₀ = c ∨ c₀ = { c with pending := none })
    (h : Authorised c → Effect K S c apdu x.1 x.2) :
    Effect K S c apdu
      (match c₀.requireAuth with | .error sw => (Response.status sw, c₀) | .ok () => x).1
      (match c₀.requireAuth with | .error sw => (Response.status sw, c₀) | .ok () => x).2 := by
  have hah : Authorised c₀ ↔ Authorised c := by
    rcases hsm with rfl | rfl <;> exact Iff.rfl
  by_cases hc : Authorised c
  · rw [requireAuth_ok (hah.mpr hc)]
    exact h hc
  · rw [requireAuth_error fun hn => hc (hah.mp hn)]
    exact .refused hsm (fun _ _ => rfl) (by decide)

theorem parseCode_error_ne {data : List UInt8} {sw : Sw} (h : parseCode K data = .error sw) :
    sw ≠ .ok ∧ sw ≠ .presenceRequired := by
  unfold parseCode at h
  split at h
  · cases h
    decide
  · cases h
    decide
  iterate 4
    split at h
    · cases h
      decide
  · cases h

theorem put_effect (hi : apdu.ins = insPut) :
    Effect K S c apdu (c.put S apdu).1 (c.put S apdu).2 := by
  refine .gate (.inr rfl) fun hah => ?_
  have hr : ∀ sw, sw ≠ Sw.ok ∧ sw ≠ Sw.presenceRequired →
      Effect K S c apdu (.status sw) { c with pending := none } := fun _ hsw =>
    .refused (.inr rfl) (fun _ hn => absurd hah hn) hsw
  rcases hpr : parsePut apdu.data with _ | ⟨name, key, property, counter⟩
  · exact hr _ (by decide)
  dsimp only
  split
  · exact hr _ (by decide)
  rename_i hvl
  rcases hnm : BoundedBytes.ofSlice maxName name with _ | credentialName
  · exact hr _ (by decide)
  dsimp only
  split
  · exact hr _ (by decide)
  rename_i credentials hin
  rw [saveAnswer_eq]
  refine .put _ credentials hi hah ?_ hin
  unfold putCredential
  rw [hpr]
  dsimp only
  rw [if_neg hvl, hnm]
  rfl

theorem delete_effect (hi : apdu.ins = insDelete) :
    Effect K S c apdu (c.delete S apdu).1 (c.delete S apdu).2 := by
  refine .gate (.inr rfl) fun hah => ?_
  split
  · exact .refused (.inr rfl) (fun _ hn => absurd hah hn) (by decide)
  split
  · exact .refused (.inr rfl) (fun _ hn => absurd hah hn) (by decide)
  · rename_i name _ _ index hfn
    rw [saveAnswer_eq]
    exact .deleted name index hi hah hfn

theorem calculate_effect (hi : apdu.ins = insCalculate) :
    Effect K S c apdu (c.calculate K S apdu).1 (c.calculate K S apdu).2 := by
  refine .gate (.inl rfl) fun hah => ?_
  have hr : ∀ sw, sw ≠ Sw.ok ∧ sw ≠ Sw.presenceRequired → Effect K S c apdu (.status sw) c :=
    fun _ hsw => .refused (.inl rfl) (fun _ hn => absurd hah hn) hsw
  rcases hnm : Tlv.find apdu.data tagName with _ | name
  · exact hr _ (by decide)
  dsimp only
  rcases hfn : c.find name with _ | index
  · exact hr _ (by decide)
  dsimp only
  rcases hcr : c.credentials.val[index]? with _ | credential
  · exact hr _ (by decide)
  have hrq : c.requested apdu = some ⟨index, credential,
      (Tlv.find apdu.data tagChallenge).getD [], decide (apdu.p2 = 0x01)⟩ := by
    unfold requested
    rw [hnm, Option.bind_some, hfn, Option.bind_some, hcr]
    rfl
  dsimp only
  split
  · rename_i htc
    split
    · exact hr _ (by decide)
    · rename_i hsh
      exact .armed _ hi hah hrq htc (Nat.le_of_not_lt hsh)
  · rename_i htc
    exact .calculated _ hi hah hrq htc

theorem Effect.read {answer : Response} (hrd : Reads apdu)
    (h : ¬Authorised c → answer = .status .securityStatusNotSatisfied) :
    Effect K S c apdu answer c := by
  by_cases hah : Authorised c
  · exact .kept (.inl rfl) (fun _ hn => absurd hah hn) (fun _ => ⟨hrd, hah⟩)
      fun hi => absurd hi (hrd.ne (by decide) (by decide))
  · rw [h hah]
    exact .refused (.inl rfl) (fun _ _ => rfl) (by decide)

theorem list_denied (h : ¬Authorised c) : c.list = .status .securityStatusNotSatisfied := by
  unfold list
  rw [requireAuth_error h]

theorem calculateAll_denied (h : ¬Authorised c) :
    c.calculateAll K apdu = .status .securityStatusNotSatisfied := by
  unfold calculateAll
  rw [requireAuth_error h]

theorem setCode_effect (hi : apdu.ins = insSetCode) :
    Effect K S c apdu (c.setCode K S apdu).1 (c.setCode K S apdu).2 := by
  refine .gate (.inl rfl) fun hah => ?_
  split
  · rename_i hdt
    rw [saveAnswer_eq]
    exact .codeRemoved hi hah hdt
  rename_i hdt
  split
  · rename_i sw hpr
    exact .refused (.inl rfl) (fun _ hn => absurd hah hn) (parseCode_error_ne hpr)
  rename_i code hpr
  split
  · rename_i hk
    exact .codeDropped code hi hah hdt hpr hk
  · rename_i key hk
    rw [saveAnswer_eq]
    exact .codeSet code key hi hah hdt hpr hk

/-- The commands that the access code protects are neither VALIDATE nor RESET. -/
theorem Gated.not_open (h : Gated apdu) : apdu.ins ≠ insValidate ∧ apdu.ins ≠ insReset := by
  rcases h with h | h | h | h | h | ⟨h, -⟩ <;> rw [h] <;> decide

theorem validate_effect (hi : apdu.ins = insValidate) :
    Effect K S c apdu (c.validate K S apdu).1 (c.validate K S apdu).2 := by
  have hr : ∀ sw, sw ≠ Sw.ok ∧ sw ≠ Sw.presenceRequired → Effect K S c apdu (.status sw) c :=
    fun _ hsw => .refused (.inl rfl) (fun hg => absurd hi hg.not_open.1) hsw
  unfold validate
  split
  · exact hr _ (by decide)
  rename_i hk
  split
  · exact hr _ (by decide)
  rename_i response hrs
  split
  · exact hr _ (by decide)
  rename_i challenge hch
  split
  · exact hr _ (by decide)
  rename_i expected he
  split
  · exact hr _ (by decide)
  rename_i heq
  split
  · exact hr _ (by decide)
  rename_i verification hv
  have hmt : expected = response := by
    have : constantTimeEq expected response = true := by simpa using heq
    exact ctEq_iff.mp this
  subst hmt
  have ha : (elementsAnswer [(tagResponse, verification)]).sw = .ok := by
    rw [elementsAnswer_single (by decide) (by
      rw [length_hmacDigest hv]
      exact Nat.le_succ_of_le (digestLength_bounds _).2)]
    rfl
  rw [saveAnswer_eq]
  exact .validated challenge ⟨hi, expected, hrs, he⟩ hk hch ha

theorem reset_effect (hrs : isReset apdu) :
    Effect K S c apdu (c.reset S).1 (c.reset S).2 := by
  unfold reset
  dsimp only
  rcases hcl : (S.clear c.store).1 with _ | _
  · exact .eraseFailed hrs hcl
  · exact .erased hrs hcl

theorem Effect.ite {p : Prop} [Decidable p] {x y : Response × Oath σ}
    (hx : p → Effect K S c apdu x.1 x.2) (hy : ¬p → Effect K S c apdu y.1 y.2) :
    Effect K S c apdu (if p then x else y).1 (if p then x else y).2 :=
  iteInduction (motive := fun x : Response × Oath σ => Effect K S c apdu x.1 x.2) hx hy

theorem dispatch_effect (c : Oath σ) (apdu : Apdu) :
    Effect K S c apdu (c.dispatch K S apdu).1 (c.dispatch K S apdu).2 := by
  refine .ite put_effect fun hp => .ite delete_effect fun hd =>
    .ite setCode_effect fun hs => .ite reset_effect fun _ =>
    .ite (fun hls => .read (.inl hls.1) list_denied) fun hls => .ite calculate_effect fun hc =>
    .ite validate_effect fun _ => .ite (fun ha => .read (.inr ha) calculateAll_denied) fun ha => ?_
  refine .refused (.inl rfl) (fun hg => ?_) (by decide)
  rcases hg with h | h | h | h | h | h
  exacts [absurd h hp, absurd h hd, absurd h hs, absurd h hc, absurd h ha, absurd h hls]

/-- A calculation keeps the code; a counter that moves is saved. -/
theorem calculateIndex_cases (c : Oath σ) (index : Nat) (challenge : List UInt8)
    (truncated : Bool) :
    (c.calculateIndex K S index challenge truncated).2 = c ∨
      ∃ c₁ answer, SameCode c c₁ ∧ c₁.pending = c.pending ∧
        c.calculateIndex K S index challenge truncated =
          (written (c₁.saveState S).1 answer, (c₁.saveState S).2) := by
  unfold calculateIndex
  split
  · exact .inl rfl
  rename_i credential _
  split
  · exact .inl rfl
  by_cases hkn : credential.kind = typeHotp
  · rw [if_pos hkn, saveAnswer_eq]
    refine .inr ⟨_, _, ?_, ?_, rfl⟩
    · exact ⟨rfl, rfl, rfl, rfl, rfl, rfl⟩
    · rfl
  · rw [if_neg hkn]
    exact .inl rfl

end

/-! ## The machine -/

/-- What happens to the applet. -/
inductive Event where
  | select
  | selectWithRng (rng : Rng)
  | process (apdu : Apdu)
  | confirm
  | deny

def step (K : OathCrypto) (S : OathStore σ) (c : Oath σ) : Event → Response × Oath σ
  | .select => c.select S
  | .selectWithRng rng => c.selectWithRng S rng
  | .process apdu => c.process K S apdu
  | .confirm => c.confirmPresence K S
  | .deny => c.denyPresence

/-- An entry of the history of an applet. -/
abbrev Log (σ : Type) := Entry (Oath σ) Event Response

def Event.isSelect : Event → Prop
  | .select => True
  | .selectWithRng _ => True
  | _ => False

def IsSelect (e : Log σ) : Prop := e.event.isSelect

/-- What SELECT finds in the store. -/
def reload (S : OathStore σ) (c : Oath σ) : Oath σ := { c with loaded := false }.loadState S

/-- SELECT starts a session on the loaded state, with some challenge. -/
theorem step_select {c : Oath σ} {e : Event} (h : e.isSelect) :
    ∃ challenge, (step K S c e).2 = { c.reload S with
        authChallenge := challenge, pending := none
        authenticated := !(c.reload S).closed && ((c.reload S).authKey.val = []) } := by
  cases e with
  | select => exact ⟨_, rfl⟩
  | selectWithRng rng =>
    change ∃ challenge, ((if (c.reload S).authKey.val ≠ [] then
      { c.reload S with authChallenge := (fillBytes 8 rng).1 } else c.reload S).selectResponse).2 = _
    split <;> exact ⟨_, rfl⟩
  | process | confirm | deny => cases h

theorem loadState_loaded (c : Oath σ) : (c.loadState S).loaded = true := by
  unfold loadState
  split
  · assumption
  dsimp only
  split
  · rfl
  split
  · rfl
  split
  · rename_i hd
    exact decodeState_loaded hd
  · rfl

/-- A command on a closed applet is refused, unless it is RESET; any other is dispatched. -/
theorem process_cases (c : Oath σ) (apdu : Apdu) :
    ((c.loadState S).closed = true ∧ apdu.ins ≠ insReset ∧
      c.process K S apdu = (.status .noPreciseDiagnosis, c.loadState S)) ∨
    (((c.loadState S).closed = false ∨ apdu.ins = insReset) ∧
      c.process K S apdu = (c.loadState S).dispatch K S apdu ∧
      Effect K S (c.loadState S) apdu (c.process K S apdu).1 (c.process K S apdu).2) := by
  unfold process stateAvailable
  dsimp only
  split
  · rename_i h
    exact .inl ⟨by simpa using h.1, h.2, rfl⟩
  rename_i h
  refine .inr ⟨?_, rfl, dispatch_effect _ _⟩
  by_cases hcl : (c.loadState S).closed = true
  · exact .inr (not_not.mp fun hne => h ⟨by rw [hcl]; rfl, hne⟩)
  · exact .inl (Bool.not_eq_true _ ▸ hcl)

/-- A confirmation keeps the code; a counter that moves is saved. A success needs a request. -/
theorem confirm_cases (c : Oath σ) :
    ((c.confirmPresence K S).1.sw = .ok → (c.loadState S).pending ≠ none) ∧
    (SameCode (c.loadState S) (c.confirmPresence K S).2 ∨
      (c.loadState S).closed = false ∧ ∃ c₁ answer, SameCode (c.loadState S) c₁ ∧
        c.confirmPresence K S = (written (c₁.saveState S).1 answer, (c₁.saveState S).2)) := by
  unfold confirmPresence stateAvailable
  dsimp only
  split
  · exact ⟨nofun, .inl (.refl _)⟩
  rename_i hcl
  split
  · exact ⟨nofun, .inl (.refl _)⟩
  rename_i pending hpn
  refine ⟨fun _ => by rw [hpn]; exact nofun, ?_⟩
  split
  · exact .inl ⟨rfl, rfl, rfl, rfl, rfl, rfl⟩
  rcases calculateIndex_cases { c.loadState S with pending := none } pending.index
    pending.challenge.val pending.truncated with h | ⟨c₁, answer, hc₁, -, h⟩
  · rw [h]
    exact .inl ⟨rfl, rfl, rfl, rfl, rfl, rfl⟩
  · rw [h]
    exact .inr ⟨by simpa using hcl, c₁, answer, ⟨hc₁.1, hc₁.2, hc₁.3, hc₁.4, hc₁.5, hc₁.6⟩, rfl⟩

/-! ## The calculations of the events -/

section
variable {c : Oath σ} {apdu : Apdu} {k : Calculation}

/-- The calculation that an event makes: that of a CALCULATE which needs no touch, or that of the
  armed request. -/
def calculation (S : OathStore σ) (c : Oath σ) : Event → Option Calculation
  | .process apdu =>
    if apdu.ins = insCalculate ∧ (c.loadState S).closed = false ∧ Authorised (c.loadState S) then
      ((c.loadState S).requested apdu).filter fun k => ¬k.credential.NeedsTouch
    else none
  | .confirm =>
    if (c.loadState S).closed = false then
      (c.loadState S).pending.bind fun pending =>
        (c.loadState S).credentials.val[pending.index]?.map fun credential =>
          ⟨pending.index, credential, pending.challenge.val, pending.truncated⟩
    else none
  | _ => none

theorem calculate_requested (hah : Authorised c) (hr : c.requested apdu = some k) :
    c.calculate K S apdu =
      if k.credential.NeedsTouch then
        if 8 < k.challenge.length then (.status .wrongData, c)
        else (.presenceRequired,
          { c with pending := some ⟨k.index, padded k.challenge, k.truncated⟩ })
      else c.calculateIndex K S k.index k.challenge k.truncated := by
  obtain ⟨name, hnm, hr⟩ := Option.bind_eq_some_iff.mp hr
  obtain ⟨index, hin, hr⟩ := Option.bind_eq_some_iff.mp hr
  obtain ⟨credential, hcr, hk⟩ := Option.map_eq_some_iff.mp hr
  subst hk
  unfold calculate
  rw [requireAuth_ok hah, hnm]
  dsimp only
  rw [hin]
  dsimp only
  rw [hcr]
  rfl

theorem step_calculation {e : Event} (h : calculation S c e = some k) :
    (c.loadState S).credentials.val[k.index]? = some k.credential ∧
    ∃ pending, step K S c e =
      { c.loadState S with pending }.calculateIndex K S k.index k.challenge k.truncated := by
  cases e with
  | process apdu =>
    unfold calculation at h
    dsimp only at h
    split at h
    · rename_i hon
      obtain ⟨hr, htc⟩ := Option.filter_eq_some_iff.mp h
      have hne : ¬k.credential.NeedsTouch := of_decide_eq_true htc
      refine ⟨requested_index hr, (c.loadState S).pending, ?_⟩
      change c.process K S apdu = _
      rcases process_cases c apdu with ⟨hcl, -⟩ | ⟨-, heq, -⟩
      · exact absurd (hon.2.1.symm.trans hcl) nofun
      rw [heq]
      unfold dispatch
      rw [hon.1]
      exact (calculate_requested hon.2.2 hr).trans (if_neg hne)
    · cases h
  | confirm =>
    unfold calculation at h
    dsimp only at h
    split at h
    · rename_i hcl
      obtain ⟨pending, hpn, h⟩ := Option.bind_eq_some_iff.mp h
      obtain ⟨credential, hcr, hk⟩ := Option.map_eq_some_iff.mp h
      subst hk
      refine ⟨hcr, none, ?_⟩
      change c.confirmPresence K S = _
      obtain ⟨hlt, -⟩ := List.getElem?_eq_some_iff.mp hcr
      unfold confirmPresence stateAvailable
      dsimp only
      rw [hcl, hpn]
      exact if_neg (Nat.not_le.mpr hlt)
    · cases h
  | select | selectWithRng | deny => cases h

/-- A CALCULATE that finds a credential without the touch property makes a calculation. -/
theorem calculation_of_requested (hi : apdu.ins = insCalculate)
    (hcl : (c.loadState S).closed = false) (hah : Authorised (c.loadState S))
    (hr : (c.loadState S).requested apdu = some k) (htc : ¬k.credential.NeedsTouch) :
    calculation S c (.process apdu) = some k := by
  unfold calculation
  dsimp only
  rw [if_pos ⟨hi, hcl, hah⟩, hr]
  exact Option.filter_eq_some_iff.mpr ⟨rfl, decide_eq_true htc⟩

/-- A CALCULATE that makes no calculation does not succeed. -/
theorem calculate_of_no_calculation (hn : apdu.ins = insCalculate)
    (h : calculation S c (.process apdu) = none) : (c.process K S apdu).1.sw ≠ .ok := by
  rcases process_cases c apdu with ⟨-, -, heq⟩ | ⟨hon, heq, -⟩
  · rw [heq]
    exact nofun
  have hcl := hon.resolve_right (by rw [hn]; decide)
  have hoh : ∀ ins, ins ≠ insCalculate → apdu.ins ≠ ins := fun ins hne hi =>
    hne (hi.symm.trans hn)
  have he := dispatch_effect (K := K) (S := S) (c.loadState S) apdu
  rw [← heq] at he
  generalize (c.process K S apdu).1 = answer at he ⊢
  generalize (c.process K S apdu).2 = c' at he
  cases he with
  | kept _ _ hok _ => exact fun h => (hok h).1.ne (by decide) (by decide) hn
  | put _ _ hi | deleted _ _ hi | codeRemoved hi | codeSet _ _ hi | codeDropped _ hi =>
    exact absurd hi (hoh _ nofun)
  | validated _ hp => exact absurd hp.1 (hoh _ nofun)
  | calculated k _ hah hr htc =>
    cases h.symm.trans (calculation_of_requested hn hcl hah hr htc)
  | armed => exact nofun
  | erased hrs | eraseFailed hrs => exact absurd hrs.1 (hoh _ nofun)

/-- A confirmation that makes no calculation is refused. -/
theorem confirm_of_no_calculation (h : calculation S c .confirm = none) :
    (c.confirmPresence K S).1.sw ≠ .ok ∧
      (c.confirmPresence K S).2.credentials = (c.loadState S).credentials ∧
      (c.confirmPresence K S).2.store = (c.loadState S).store := by
  unfold confirmPresence stateAvailable
  dsimp only
  rcases hcl : (c.loadState S).closed with _ | _
  · rcases hpn : (c.loadState S).pending with _ | pending
    · exact ⟨nofun, rfl, rfl⟩
    have hno : (c.loadState S).credentials.val[pending.index]? = none := by
      unfold calculation at h
      rw [if_pos hcl, hpn, Option.bind_some, Option.map_eq_none_iff] at h
      exact h
    dsimp only
    rw [if_pos (List.getElem?_eq_none_iff.mp hno)]
    exact ⟨nofun, rfl, rfl⟩
  · exact ⟨nofun, rfl, rfl⟩

end

end AegisToken.Applets.Oath
