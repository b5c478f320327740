/-
  What the requests of the OATH applet ask for, and what a calculation releases.
  A PUT carries a credential (`putCredential`) and a CALCULATE asks for a calculation
  (`requested`); `calculateIndex_eq` says what a calculation releases and when it moves a counter.
-/
import AegisToken.Applets.OathCommands

namespace AegisToken.Applets.Oath
open ByteCodec

variable {σ : Type} {K : OathCrypto} {S : OathStore σ} {c : Oath σ} {apdu : Apdu} {truncated : Bool}
  {credential : Credential} {challenge code : List UInt8}

/-! ## Answers -/

/-- The number of bytes of a digest. -/
def digestLength (algorithm : UInt8) : Nat :=
  if algorithm = algorithmSha1 then 20 else if algorithm = algorithmSha256 then 32 else 64

theorem length_hmacDigest {algorithm : UInt8} {key data digest : List UInt8}
    (h : hmacDigest K algorithm key data = some digest) :
    digest.length = digestLength algorithm := by
  unfold hmacDigest at h
  unfold digestLength
  split_ifs at h ⊢
  · cases h
    exact (K.hmacSha1 key data).property
  · cases h
    exact (K.hmacSha256 key data).property
  · cases h
    exact (K.hmacSha512 key data).property

theorem digestLength_bounds (algorithm : UInt8) :
    20 ≤ digestLength algorithm ∧ digestLength algorithm ≤ 64 := by
  unfold digestLength
  split_ifs <;> decide

/-- The elements are appended when all of them fit. -/
theorem appendElements_eq {out : List UInt8} (h : out.length ≤ outBytes)
    (elements : List (Nat × List UInt8)) :
    appendElements out elements =
      if (out ++ elements.flatMap fun x => Tlv.element x.1 x.2).length ≤ outBytes then
        some (out ++ elements.flatMap fun x => Tlv.element x.1 x.2)
      else none := by
  induction elements generalizing out with
  | nil => simp [appendElements, h]
  | cons x rest ih =>
    unfold appendElements appendTlv
    rw [← Tlv.length_element, ← List.length_append, List.flatMap_cons, ← List.append_assoc]
    split_ifs with hx hf hf
    · rw [List.length_append] at hf
      omega
    · rfl
    · exact (ih (Nat.le_of_not_lt hx)).trans (if_pos hf)
    · exact (ih (Nat.le_of_not_lt hx)).trans (if_neg hf)

/-- A digest and a code always fit the answer. -/
theorem elementsAnswer_single {tag : Nat} {value : List UInt8} (ht : Tlv.tagEncodedLen tag = 1)
    (h : value.length ≤ 65) : elementsAnswer [(tag, value)] = .ok (Tlv.element tag value) := by
  have hft : (Tlv.element tag value).length ≤ outBytes := by
    have hl := Tlv.lengthEncodedLen_le (show value.length ≤ 0xFFFF by omega)
    rw [Tlv.length_element, Tlv.encodedLen, show outBytes = 2048 from rfl]
    omega
  unfold elementsAnswer
  rw [appendElements_eq (Nat.zero_le _), List.nil_append, List.flatMap_singleton, if_pos hft]

/-! ## Credentials -/

/-- The credential that the body of a PUT carries. -/
def putCredential (data : List UInt8) : Option Credential :=
  match parsePut data with
  | none => none
  | some (name, key, property, counter) =>
    if name = [] ∨ maxName < name.length ∨ key.secret.val = [] then none
    else (BoundedBytes.ofSlice maxName name).map fun credentialName => {
      name := credentialName, kind := key.kind, algorithm := key.algorithm, digits := key.digits
      property, counter, period := credentialPeriod name, secret := key.secret }

/-- The challenge of an armed request: shorter ones get zeros in front. -/
def padded (challenge : List UInt8) : FixedBytes 8 :=
  FixedBytes.ofList 8 (List.replicate (8 - challenge.length) 0 ++ challenge)

theorem padded_of_length (h : challenge.length = 8) :
    (padded challenge).val = challenge := by
  unfold padded
  rw [h, Nat.sub_self, List.replicate_zero, List.nil_append, FixedBytes.val_ofList h]

def Credential.NeedsTouch (credential : Credential) : Prop :=
  credential.property &&& propertyTouch ≠ 0

instance (credential : Credential) : Decidable credential.NeedsTouch :=
  inferInstanceAs (Decidable (_ ≠ _))

/-! ## Codes -/

/-- The moving factor of a calculation: the counter, or the challenge if it has 8 bytes. -/
def movingFactor (credential : Credential) (challenge : List UInt8) : Option (List UInt8) :=
  if credential.kind = typeHotp then some (toBE 8 credential.counter.toNat)
  else if challenge.length ≠ 8 then none
  else some challenge

def codeOf (digits : UInt8) (truncated : Bool) (digest : List UInt8) : Option (List UInt8) :=
  if !truncated then some (digits :: digest)
  else
    digest.getLast?.bind fun last =>
      let offset := (last &&& 0x0F).toNat
      if digest.length < offset + 4 then none
      else
        some [digits, digest.getD offset 0 &&& 0x7F, digest.getD (offset + 1) 0,
          digest.getD (offset + 2) 0, digest.getD (offset + 3) 0]

theorem computeCredential_eq (credential : Credential) (challenge : List UInt8)
    (truncated : Bool) :
    computeCredential K credential challenge truncated =
      (movingFactor credential challenge).bind fun factor =>
        (hmacDigest K credential.algorithm credential.secret.val factor).bind
          (codeOf credential.digits truncated) := by
  unfold computeCredential movingFactor codeOf
  split_ifs <;> rfl

/-- The truncation never reads past a digest. -/
theorem codeOf_isSome (digits : UInt8) (truncated : Bool) {digest : List UInt8}
    (h : 20 ≤ digest.length) : (codeOf digits truncated digest).isSome := by
  unfold codeOf
  cases truncated with
  | false => rfl
  | true =>
    have hne : digest ≠ [] := fun hn => by
      rw [hn] at h
      exact absurd h nofun
    have ho : (digest.getLast hne &&& 0x0F).toNat ≤ 15 := by
      exact Nat.and_le_right
    rw [if_neg nofun, List.getLast?_eq_some_getLast hne, Option.bind_some]
    rw [if_neg (by omega)]
    rfl

def KnownAlgorithm (credential : Credential) : Prop :=
  credential.algorithm = algorithmSha1 ∨ credential.algorithm = algorithmSha256 ∨
    credential.algorithm = algorithmSha512

theorem hmacDigest_isSome_iff (credential : Credential) (key data : List UInt8) :
    (hmacDigest K credential.algorithm key data).isSome ↔ KnownAlgorithm credential := by
  unfold hmacDigest KnownAlgorithm
  split_ifs with h₁ h₂ h₃ <;> simp [*]

/-- A TOTP code is computed exactly for a challenge of 8 bytes and a known algorithm. -/
theorem compute_isSome_iff (hkn : credential.kind ≠ typeHotp) (challenge : List UInt8)
    (truncated : Bool) :
    (computeCredential K credential challenge truncated).isSome ↔
      challenge.length = 8 ∧ KnownAlgorithm credential := by
  rw [computeCredential_eq]
  unfold movingFactor
  rw [if_neg hkn]
  by_cases hl : challenge.length = 8
  · rw [if_neg (not_not.mpr hl), Option.bind_some,
      ← hmacDigest_isSome_iff credential credential.secret.val challenge]
    rcases hd : hmacDigest K credential.algorithm credential.secret.val challenge with _ | digest
    · simp
    · have hcd := codeOf_isSome credential.digits truncated
        (length_hmacDigest hd ▸ (digestLength_bounds _).1)
      simp [hl, hcd]
  · simp [hl]

/-- The number of bytes of a code. -/
def codeLength (truncated : Bool) (credential : Credential) : Nat :=
  if truncated then 5 else digestLength credential.algorithm + 1

theorem length_code (h : computeCredential K credential challenge truncated = some code) :
    code.length = codeLength truncated credential := by
  rw [computeCredential_eq] at h
  obtain ⟨factor, -, h⟩ := Option.bind_eq_some_iff.mp h
  obtain ⟨digest, hd, h⟩ := Option.bind_eq_some_iff.mp h
  unfold codeOf at h
  cases truncated with
  | false =>
    cases h
    exact congrArg (· + 1) (length_hmacDigest hd)
  | true =>
    rw [if_neg nofun] at h
    obtain ⟨last, -, h⟩ := Option.bind_eq_some_iff.mp h
    dsimp only at h
    split_ifs at h
    cases h
    rfl

theorem codeLength_le (truncated : Bool) (credential : Credential) :
    codeLength truncated credential ≤ 65 := by
  have := (digestLength_bounds credential.algorithm).2
  unfold codeLength
  split_ifs <;> omega

/-- A code over the challenge with zeros in front is one over the challenge itself exactly for a
  challenge of 8 bytes, or a counter. -/
theorem compute_padded_iff
    (h : computeCredential K credential (padded challenge).val truncated = some code) :
    computeCredential K credential challenge truncated = some code ↔
      challenge.length = 8 ∨ credential.kind = typeHotp := by
  by_cases hl : challenge.length = 8
  · rw [padded_of_length hl] at h
    exact iff_of_true h (.inl hl)
  by_cases hkn : credential.kind = typeHotp
  · refine iff_of_true ?_ (.inr hkn)
    rw [computeCredential_eq, movingFactor, if_pos hkn] at h ⊢
    exact h
  · refine iff_of_false (fun hc => hl ?_) (not_or.mpr ⟨hl, hkn⟩)
    exact ((compute_isSome_iff hkn challenge truncated).mp (Option.isSome_of_eq_some hc)).1

def codeAnswer (truncated : Bool) (code : List UInt8) : Response :=
  .ok (Tlv.element (if truncated then tagTruncated else tagResponse) code)

theorem elementsAnswer_code (h : computeCredential K credential challenge truncated = some code) :
    elementsAnswer [(if truncated then tagTruncated else tagResponse, code)] =
      codeAnswer truncated code :=
  elementsAnswer_single (by cases truncated <;> decide)
    (length_code h ▸ codeLength_le truncated credential)

/-! ## Calculations -/

/-- A calculation with a credential that was found. -/
structure Calculation where
  index : Nat
  credential : Credential
  challenge : List UInt8
  truncated : Bool
deriving DecidableEq

/-- The calculation that a CALCULATE asks for. -/
def requested (c : Oath σ) (apdu : Apdu) : Option Calculation :=
  (Tlv.find apdu.data tagName).bind fun name => (c.find name).bind fun index =>
    c.credentials.val[index]?.map fun credential =>
      { index, credential
        challenge := (Tlv.find apdu.data tagChallenge).getD [], truncated := apdu.p2 = 0x01 }

/-- The credential with its counter moved. -/
def Credential.next (credential : Credential) : Credential :=
  { credential with counter := credential.counter + 1 }

/-- The applet with the counter of the calculation moved. -/
def counted (c : Oath σ) (k : Calculation) : Oath σ :=
  { c with credentials := c.credentials.set k.index k.credential.next }

variable {k : Calculation} {l : List Credential}

theorem requested_index (h : c.requested apdu = some k) :
    c.credentials.val[k.index]? = some k.credential := by
  obtain ⟨name, -, h⟩ := Option.bind_eq_some_iff.mp h
  obtain ⟨index, -, h⟩ := Option.bind_eq_some_iff.mp h
  obtain ⟨credential, hcr, h⟩ := Option.map_eq_some_iff.mp h
  rw [← h]
  exact hcr

theorem saveAnswer_eq (answer : Response) (c : Oath σ) :
    c.saveAnswer S answer = (written (c.saveState S).1 answer, (c.saveState S).2) := by
  unfold saveAnswer
  rcases c.saveState S with ⟨_ | _, c'⟩ <;> rfl

/-- A calculation releases the code; for a counter, once the next one is saved. -/
theorem calculateIndex_eq (hk : c.credentials.val[k.index]? = some k.credential) :
    c.calculateIndex K S k.index k.challenge k.truncated =
      match computeCredential K k.credential k.challenge k.truncated with
      | none => (.status .noPreciseDiagnosis, c)
      | some code =>
        if k.credential.kind = typeHotp then
          (c.counted k).saveAnswer S (codeAnswer k.truncated code)
        else (codeAnswer k.truncated code, c) := by
  unfold calculateIndex
  rw [hk]
  dsimp only
  rcases hcd : computeCredential K k.credential k.challenge k.truncated with _ | code
  · rfl
  · dsimp only
    rw [elementsAnswer_code hcd]
    rfl

/-- A calculation releases a code, keeps the armed request, and touches its own credential only. -/
theorem calculateIndex_keeps (hk : c.credentials.val[k.index]? = some k.credential) :
    let x := c.calculateIndex K S k.index k.challenge k.truncated
    x.2.loaded = c.loaded ∧ x.2.pending = c.pending ∧
    (∀ index, index ≠ k.index → x.2.credentials.val[index]? = c.credentials.val[index]?) ∧
    x.1 ≠ .presenceRequired ∧
    (x.1.sw = .ok → ∃ code, computeCredential K k.credential k.challenge k.truncated = some code ∧
      x.1 = codeAnswer k.truncated code) := by
  dsimp only
  rw [calculateIndex_eq hk]
  rcases hcd : computeCredential K k.credential k.challenge k.truncated with _ | code
  · exact ⟨rfl, rfl, fun _ _ => rfl,
      show Response.status .noPreciseDiagnosis ≠ .presenceRequired by decide,
      nofun⟩
  have ha : codeAnswer k.truncated code ≠ .presenceRequired :=
    fun h => absurd (congrArg Response.sw h) nofun
  dsimp only
  by_cases hkn : k.credential.kind = typeHotp
  · rw [if_pos hkn, saveAnswer_eq]
    refine ⟨rfl, rfl, fun index hne => List.getElem?_set_ne (Ne.symm hne), ?_, ?_⟩
    · cases (saveState S _).1 with
      | false => exact show Response.status .notEnoughMemory ≠ .presenceRequired by decide
      | true => exact ha
    intro hok
    refine ⟨code, rfl, ?_⟩
    cases hsv : ((c.counted k).saveState S).1 with
    | false =>
      rw [hsv] at hok
      cases hok
    | true => rfl
  · rw [if_neg hkn]
    exact ⟨rfl, rfl, fun _ _ => rfl, ha, fun _ => ⟨code, rfl, rfl⟩⟩

/-! ## CALCULATE ALL -/

/-- The elements of one credential in the answer. -/
def codeElements (K : OathCrypto) (challenge : List UInt8) (truncated : Bool)
    (credential : Credential) : List (Nat × List UInt8) :=
  (tagName, credential.name.val) :: (codeElement K challenge truncated credential).toList

/-- What CALCULATE ALL writes for the credentials. -/
def codeBytes (K : OathCrypto) (challenge : List UInt8) (truncated : Bool)
    (credentials : List Credential) : List UInt8 :=
  (credentials.flatMap (codeElements K challenge truncated)).flatMap fun x => Tlv.element x.1 x.2

/-- CALCULATE ALL has an element for the credential, for every challenge of 8 bytes. -/
def Answerable (credential : Credential) : Prop :=
  credential.kind = typeHotp ∨ credential.NeedsTouch ∨ KnownAlgorithm credential

/-- The number of bytes that CALCULATE ALL writes for a credential: a name and a code. -/
def entryLength (truncated : Bool) (credential : Credential) : Nat :=
  2 + credential.name.val.length +
    (2 + if credential.kind = typeHotp ∨ credential.NeedsTouch then 0
      else codeLength truncated credential)

theorem codeElement_totp (hkn : credential.kind ≠ typeHotp) (htc : ¬credential.NeedsTouch) :
    codeElement K challenge truncated credential =
      (computeCredential K credential challenge truncated).map
        (if truncated then tagTruncated else tagResponse, ·) :=
  (if_neg hkn).trans (if_neg htc)

theorem codeElement_answerable (hl : challenge.length = 8) (h : Answerable credential)
    (truncated : Bool) :
    ∃ tag value, codeElement K challenge truncated credential = some (tag, value) ∧
      tag ∈ [tagHotp, tagTouch, tagTruncated, tagResponse] ∧
      2 + credential.name.val.length + (2 + value.length) = entryLength truncated credential := by
  unfold entryLength
  by_cases hkn : credential.kind = typeHotp
  · exact ⟨_, _, if_pos hkn, by decide, by rw [if_pos (.inl hkn)]; rfl⟩
  by_cases htc : credential.NeedsTouch
  · exact ⟨_, _, (if_neg hkn).trans (if_pos htc), by decide, by rw [if_pos (.inr htc)]; rfl⟩
  · obtain ⟨code, hcd⟩ := Option.isSome_iff_exists.mp ((compute_isSome_iff (K := K) hkn challenge
      truncated).mpr ⟨hl, (h.resolve_left hkn).resolve_left htc⟩)
    rw [codeElement_totp hkn htc, hcd, if_neg (not_or.mpr ⟨hkn, htc⟩), ← length_code hcd]
    exact ⟨_, code, rfl, by cases truncated <;> decide, rfl⟩

theorem answerable_of_codeElement {x : Nat × List UInt8}
    (h : codeElement K challenge truncated credential = some x) : Answerable credential := by
  by_cases hkn : credential.kind = typeHotp
  · exact .inl hkn
  by_cases htc : credential.NeedsTouch
  · exact .inr (.inl htc)
  rw [codeElement_totp hkn htc] at h
  obtain ⟨code, hcd, -⟩ := Option.map_eq_some_iff.mp h
  have hs := (compute_isSome_iff hkn challenge truncated).mp (Option.isSome_of_eq_some hcd)
  exact .inr (.inr hs.2)

theorem appendCodes_eq (hl : challenge.length = 8) (h : ∀ credential ∈ l, Answerable credential)
    (out : List UInt8) :
    appendCodes K challenge truncated out l =
      (appendElements out (l.flatMap (codeElements K challenge truncated))).elim
        (.error .notEnoughMemory) .ok := by
  induction l generalizing out with
  | nil => rfl
  | cons credential l ih =>
    obtain ⟨tag, value, he, -⟩ :=
      codeElement_answerable (K := K) hl (h _ List.mem_cons_self) truncated
    rw [List.flatMap_cons, codeElements, he]
    unfold appendCodes
    rw [Option.toList_some, List.cons_append, List.cons_append, List.nil_append, appendElements]
    rcases appendTlv outBytes out tagName credential.name.val with ⟨_ | _, out⟩
    · rfl
    dsimp only
    rw [he, appendElements]
    dsimp only
    rcases appendTlv outBytes out tag value with ⟨_ | _, out⟩
    · rfl
    exact ih (fun x hx => h x (List.mem_cons_of_mem _ hx)) out

theorem length_codeBytes (hl : challenge.length = 8)
    (h : ∀ credential ∈ l, Answerable credential) :
    (codeBytes K challenge truncated l).length = (l.map (entryLength truncated)).sum := by
  induction l with
  | nil => rfl
  | cons credential l ih =>
    obtain ⟨tag, value, he, ht, hn⟩ :=
      codeElement_answerable (K := K) hl (h _ List.mem_cons_self) truncated
    have hname : credential.name.val.length < 128 := credential.name.property.trans_lt (by decide)
    have hvalue : value.length < 128 := by
      have := codeLength_le truncated credential
      unfold entryLength at hn
      split_ifs at hn <;> omega
    have htag : ∀ tag ∈ [tagHotp, tagTouch, tagTruncated, tagResponse],
        Tlv.tagEncodedLen tag = 1 := by decide
    rw [List.map_cons, List.sum_cons, ← ih fun x hx => h x (List.mem_cons_of_mem _ hx), ← hn,
      codeBytes, List.flatMap_cons, List.flatMap_append, List.length_append, codeElements, he,
      Option.toList_some, List.flatMap_cons, List.flatMap_cons, List.flatMap_nil, List.append_nil,
      List.length_append, Tlv.length_element_short rfl hname,
      Tlv.length_element_short (htag tag ht) hvalue]
    rfl

theorem answerable_of_appendCodes {out out' : List UInt8}
    (h : appendCodes K challenge truncated out l = .ok out') :
    ∀ credential ∈ l, Answerable credential := by
  induction l generalizing out with
  | nil => exact nofun
  | cons first l ih =>
    unfold appendCodes at h
    split at h
    · cases h
    split at h
    · cases h
    rename_i he
    split at h
    · cases h
    exact List.forall_mem_cons.mpr ⟨answerable_of_codeElement he, ih h⟩

/-- CALCULATE ALL writes its answer exactly if it has an element for each credential, and the names
  and codes fit together. -/
theorem appendCodes_ok_iff (hl : challenge.length = 8) :
    (∃ out, appendCodes K challenge truncated [] l = .ok out) ↔
      (∀ credential ∈ l, Answerable credential) ∧
        (l.map (entryLength truncated)).sum ≤ outBytes := by
  by_cases h : ∀ credential ∈ l, Answerable credential
  · rw [and_iff_right h, appendCodes_eq hl h, appendElements_eq (Nat.zero_le _), List.nil_append,
      ← length_codeBytes (K := K) hl h]
    unfold codeBytes
    split_ifs with hfit
    · exact iff_of_true ⟨_, rfl⟩ hfit
    · exact iff_of_false nofun hfit
  · exact iff_of_false (fun ⟨out, ho⟩ => h (answerable_of_appendCodes ho)) fun hs => h hs.1

end AegisToken.Applets.Oath
