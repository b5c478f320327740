/-
  What one command of the PIV applet can do.
  `Effect K S c apdu rng answer c'` lists every outcome of a command: a refusal that only reads the
  store, a write under management authentication, the two steps of that authentication, what a
  PIN command does to its slot, and a signature or the wait for user presence. `process_effect`
  says that a command has one of them; `confirm_effect` is the same for a confirmation of
  presence. What holds over whole runs is derived from these two lemmas.
-/
import AegisToken.Applets.PivCommands

namespace AegisToken.Applets.Piv
open ByteCodec

variable {σ : Type} {K : PivCrypto} {S : PivStore σ}

/-! ## Stores -/

/-- The second state is reached from the first by reads only. -/
inductive Reads (S : PivStore σ) (store : σ) : σ → Prop
  | none : Reads S store store
  | read {st : σ} (record cap : Nat) : Reads S store st → Reads S store (S.read record cap st).2

/-- A store that holds `content`: a read gives what is there or nothing and changes nothing; a
  write that works replaces the record, and one that fails may leave anything in it, but touches
  no other record. -/
structure Holds (S : PivStore σ) (content : σ → Nat → Option (List UInt8)) : Prop where
  read_content : ∀ record cap st, content (S.read record cap st).2 = content st
  read_value : ∀ {record cap st} {bytes : BoundedBytes cap},
    (S.read record cap st).1 = some bytes → content st record = some bytes.val
  written : ∀ record data st, (S.write record data st).1 = true →
    content (S.write record data st).2 record = some data
  others : ∀ record data st other, other ≠ record →
    content (S.write record data st).2 other = content st other

theorem Reads.trans {st st' st'' : σ} (h' : Reads S st' st'') (h : Reads S st st') :
    Reads S st st'' := by
  induction h' with
  | none => exact h
  | read record cap _ ih => exact .read record cap ih

theorem Reads.content {content : σ → Nat → Option (List UInt8)} (hS : Holds S content)
    {st st' : σ} (h : Reads S st st') : content st' = content st := by
  induction h with
  | none => rfl
  | read record cap _ ih => rw [hS.read_content, ih]

def memoryContent (st : List (Nat × List UInt8)) (record : Nat) : Option (List UInt8) :=
  st.lookup record

theorem lookup_cons_eq (key other : Nat) (value : List UInt8) (st : List (Nat × List UInt8)) :
    ((key, value) :: st).lookup other = if other = key then some value else st.lookup other := by
  rw [List.lookup_cons]
  by_cases h : other = key
  · rw [if_pos h, beq_iff_eq.mpr h]
  · rw [if_neg h, beq_false_of_ne h]

theorem lookup_replace (st : List (Nat × List UInt8)) (record other : Nat) (data : List UInt8) :
    (st.map fun entry => if entry.1 = record then (record, data) else entry).lookup other =
      if other = record then (st.lookup record).map fun _ => data else st.lookup other := by
  induction st with
  | nil => simp
  | cons entry st ih =>
    obtain ⟨key, value⟩ := entry
    rw [List.map_cons]
    by_cases hk : key = record
    · subst hk
      rw [if_pos rfl, lookup_cons_eq, lookup_cons_eq, lookup_cons_eq, if_pos rfl, ih]
      split <;> rfl
    rw [if_neg hk, lookup_cons_eq, lookup_cons_eq, lookup_cons_eq, if_neg (Ne.symm hk), ih]
    by_cases ho : other = record
    · rw [if_pos ho, if_pos ho, if_neg fun h => hk (h.symm.trans ho)]
    · rw [if_neg ho, if_neg ho]

theorem lookup_append_new {st : List (Nat × List UInt8)} {record : Nat}
    (h : st.lookup record = none) (other : Nat) (data : List UInt8) :
    (st ++ [(record, data)]).lookup other =
      if other = record then some data else st.lookup other := by
  induction st with
  | nil => exact lookup_cons_eq record other data []
  | cons entry st ih =>
    rw [lookup_cons_eq] at h
    split at h
    · cases h
    rename_i hk
    rw [List.cons_append, lookup_cons_eq, lookup_cons_eq, ih h]
    by_cases ho : other = record
    · rw [if_pos ho, if_pos ho, if_neg fun hok => hk (ho.symm.trans hok)]
    · rw [if_neg ho, if_neg ho]

theorem memoryStore_holds : Holds memoryStore memoryContent where
  read_content _ _ _ := rfl
  read_value {record cap st bytes} h := by
    obtain ⟨value, hvl, hsl⟩ := Option.bind_eq_some_iff.mp h
    rw [memoryContent, hvl, BoundedBytes.ofSlice_eq_some.mp hsl]
  written record data st h := by
    simp only [memoryStore] at h ⊢
    split at h
    · cases h
    rename_i hl
    rw [if_neg hl]
    split at h
    · rename_i hsm
      obtain ⟨value, hvl⟩ := Option.isSome_iff_exists.mp hsm
      rw [if_pos hsm, memoryContent, lookup_replace, if_pos rfl, hvl]
      rfl
    rename_i hsm
    split at h
    · cases h
    rename_i hfl
    rw [if_neg hsm, if_neg hfl, memoryContent,
      lookup_append_new (Option.not_isSome_iff_eq_none.mp hsm), if_pos rfl]
  others record data st other hne := by
    simp only [memoryStore]
    split
    · rfl
    split
    · rw [memoryContent, lookup_replace, if_neg hne]
      rfl
    rename_i hsm
    split
    · rfl
    · rw [memoryContent, lookup_append_new (Option.not_isSome_iff_eq_none.mp hsm), if_neg hne]
      rfl

/-! ## Inputs -/

/-- The slot a PIN command presents a candidate to, and the candidate. -/
def presented (apdu : Apdu) : Option (PinRecord × List UInt8) :=
  if apdu.ins = insVerify then
    if apdu.p1 = 0x00 ∧ apdu.data.length = 8 then
      (PinRecord.fromReference apdu.p2).map (·, apdu.data)
    else none
  else if apdu.ins = insChangeReferenceData then
    if apdu.p1 = 0x00 ∧ apdu.data.length = 16 ∧
        pivPinPolicy.minLen ≤ effectivePinLen (apdu.data.drop 8) then
      (PinRecord.fromReference apdu.p2).map (·, apdu.data.take 8)
    else none
  else if apdu.ins = insResetRetryCounter then
    if apdu.p1 = 0x00 ∧ apdu.p2 = refPin ∧ apdu.data.length = 16 then
      some (.puk, apdu.data.take 8)
    else none
  else none

/-- VERIFY, CHANGE REFERENCE DATA or RESET RETRY COUNTER. -/
def isPinCommand (ins : UInt8) : Prop :=
  ins = insVerify ∨ ins = insChangeReferenceData ∨ ins = insResetRetryCounter

instance (ins : UInt8) : Decidable (isPinCommand ins) := inferInstanceAs (Decidable (_ ∨ _))

/-- The template of a GENERAL AUTHENTICATE with the management key that passes the checks on the
  algorithm and on the outer tag. -/
def managementTemplate (c : Piv σ) (apdu : Apdu) : Option (List UInt8) :=
  if apdu.ins = insGeneralAuthenticate ∧ apdu.p2 = refManagement ∧ c.acceptsAlgorithm apdu.p1 then
    Tlv.find apdu.data 0x7C
  else none

def signSlot (apdu : Apdu) : Option KeySlot :=
  if apdu.ins = insGeneralAuthenticate then KeySlot.fromCode apdu.p2 else none

/-- The padded digest of a signature request for a key of an algorithm. -/
def signDigest (apdu : Apdu) (algorithm : UInt8) : Option (List UInt8) := do
  let digest ← (Tlv.find apdu.data 0x7C).bind (Tlv.find · 0x81)
  let width ← signBytes algorithm
  leftPad width digest

/-- The signature over a padded digest with the key in a record. -/
def signWith (K : PivCrypto) (algorithm : UInt8) (record digest : List UInt8) (rng : Rng) :
    Option (List UInt8) :=
  if algorithm = algRsa2048 then
    if h : digest.length = rsa2048Bytes then do
      let key ← rsaRecordKey record
      let signature ← applyPrivate K.bigUint key ⟨digest, h⟩ rng
      some signature.val
    else none
  else do
    let keyLen ← curveBytes algorithm
    if record.length < 4 + keyLen ∨ digest.length ≠ keyLen then none
    else signPrehash K algorithm ((record.drop 4).take keyLen) digest

/-! ## Outcomes -/

/-- No PIN command, and no management authentication while a nonce is pending. -/
def Quiet (c : Piv σ) (apdu : Apdu) : Prop :=
  ¬isPinCommand apdu.ins ∧ ((managementTemplate c apdu).isSome → c.witness = none)

/-- The answer to a nonce that was returned: with a mutual authentication, the challenge of the
  host encrypted. -/
def provedAnswer (K : PivCrypto) (c : Piv σ) (template : List UInt8) (pending : Witness) :
    Response :=
  if pending.isMutual then
    match Tlv.find template 0x81 with
    | none => .status .wrongData
    | some challenge => c.encryptedChallengeResponse K challenge
  else .status .ok

/-- Every outcome of a command. -/
inductive Effect (K : PivCrypto) (S : PivStore σ) (c : Piv σ) (apdu : Apdu) (rng : Rng) :
    Response → Piv σ → Prop
  /-- Nothing but reads; only GET DATA answers `9000`. -/
  | idle {answer : Response} {st : σ} : Reads S c.store st →
      (answer.sw = .ok → apdu.ins = insGetData) → answer.sw ≠ .presenceRequired →
      Quiet c apdu → Effect K S c apdu rng answer { c with store := st }
  | objectWritten (record : Nat) (data : List UInt8) : apdu.ins = insPutData →
      c.mgmtAuthenticated = true → recordObjectBase ≤ record →
      Effect K S c apdu rng (written (S.write record data c.store).1 (.status .ok))
        { c with store := (S.write record data c.store).2 }
  | keyWritten (slot : KeySlot) (data : List UInt8) (answer : Response) :
      apdu.ins = insGenerateAsymmetricKeyPair → c.mgmtAuthenticated = true →
      Effect K S c apdu rng (written (S.write slot.record data c.store).1 answer)
        { c with store := (S.write slot.record data c.store).2 }
  | mgmtKeySet (mgmt : MgmtKey) : apdu.ins = insSetMgmKey → c.mgmtAuthenticated = true →
      (S.write recordMgmtKey mgmt.record c.store).1 = true →
      Effect K S c apdu rng (.status .ok)
        { c with store := (S.write recordMgmtKey mgmt.record c.store).2, mgmt, witness := none }
  | mgmtKeyKept (mgmt : MgmtKey) : apdu.ins = insSetMgmKey → c.mgmtAuthenticated = true →
      (S.write recordMgmtKey mgmt.record c.store).1 = false →
      Effect K S c apdu rng (.status .notEnoughMemory)
        { c with store := (S.write recordMgmtKey mgmt.record c.store).2 }
  | nonceDrawn {template encrypted : List UInt8} (isMutual : Bool) (nonce : BoundedBytes 16) :
      managementTemplate c apdu = some template → c.witness = none →
      c.mgmt.blockLen ≠ 0 → nonce.val = (fillBytes c.mgmt.blockLen rng).1.val →
      c.mgmt.encrypt K nonce.val = some encrypted →
      Effect K S c apdu rng (wrapChallenge (if isMutual then 0x80 else 0x81) encrypted)
        { c with witness := some ⟨isMutual, nonce⟩ }
  | nonceRefused {template : List UInt8} {pending : Witness} {sw : Sw} :
      managementTemplate c apdu = some template → c.witness = some pending →
      submitted template pending ≠ some pending.nonce.val → sw ≠ .ok →
      Effect K S c apdu rng (.status sw) { c with witness := none }
  | nonceProved {template : List UInt8} {pending : Witness} :
      managementTemplate c apdu = some template → c.witness = some pending →
      submitted template pending = some pending.nonce.val →
      Effect K S c apdu rng (provedAnswer K c template pending)
        { c with witness := none, mgmtAuthenticated := true }
  /-- No candidate, or none that was compared and found wrong. -/
  | pinRefused {sw : Sw} (verified : Bool) : isPinCommand apdu.ins →
      (verified = true → c.pinVerified = true) →
      (∀ record pin, presented apdu = some (record, pin) → (c.slot record).Compares →
        (c.slot record).Accepts K.sha256 pin) →
      Effect K S c apdu rng (.status sw) { c with pinVerified := verified }
  | pinAccepted {pin : List UInt8} (record : PinRecord) : apdu.ins = insVerify →
      presented apdu = some (record, pin) → (c.slot record).Accepts K.sha256 pin →
      Effect K S c apdu rng (.status .ok)
        { c with pinVerified := if record = .pin then true else c.pinVerified }
  | pinWrong {pin : List UInt8} {c₁ : Piv σ} (record : PinRecord) (verified : Bool) :
      presented apdu = some (record, pin) → (c.slot record).Compares →
      ¬(c.slot record).Accepts K.sha256 pin → (verified = true → c.pinVerified = true) →
      c₁ = { c.setSlot record (c.slot record).attempted with pinVerified := verified } →
      Effect K S c apdu rng
        (written (c₁.persistPin S record).1
          (.status (.retriesLeft ((c.slot record).retriesRemaining - 1))))
        (c₁.persistPin S record).2
  | pinChanged {old : List UInt8} {c₁ : Piv σ} (record : PinRecord) :
      apdu.ins = insChangeReferenceData → presented apdu = some (record, old) →
      (c.slot record).Accepts K.sha256 old →
      c₁ = { c.setSlot record ((c.slot record).installed K.sha256 (apdu.data.drop 8)) with
        pinVerified := if record = .pin then true else c.pinVerified } →
      Effect K S c apdu rng (written (c₁.persistPin S record).1 (.status .ok))
        (c₁.persistPin S record).2
  | pinUnblocked {puk : List UInt8} {c₁ : Piv σ} : apdu.ins = insResetRetryCounter →
      presented apdu = some (.puk, puk) → c.puk.Accepts K.sha256 puk →
      c₁ = { c with pin := c.pin.installed K.sha256 (apdu.data.drop 8), pinVerified := false } →
      pivPinPolicy.minLen ≤ effectivePinLen (apdu.data.drop 8) →
      Effect K S c apdu rng (written (c₁.persistPin S .pin).1 (.status .ok))
        (c₁.persistPin S .pin).2
  | touchAsked {slot : KeySlot} {record : BoundedBytes keyRecordBytes} {pinPolicy : PinPolicyCode}
      {touchPolicy : TouchPolicy} {digest : BoundedBytes 256} {st : σ} :
      signSlot apdu = some slot → (S.read slot.record keyRecordBytes c.store).1 = some record →
      Reads S c.store st → recordPolicies record.val = some (pinPolicy, touchPolicy) →
      (pinPolicy ≠ .never → c.pinVerified = true) → touchRequired touchPolicy c = true →
      signDigest apdu (record.val.getD 0 0) = some digest.val →
      Effect K S c apdu rng .presenceRequired
        { c with store := st, pendingSign := some ⟨slot, digest⟩ }
  | signed {slot : KeySlot} {record : BoundedBytes keyRecordBytes} {pinPolicy : PinPolicyCode}
      {touchPolicy : TouchPolicy} {st : σ} {cap : Nat} {key : BoundedBytes cap}
      {digest signature : List UInt8} :
      signSlot apdu = some slot → (S.read slot.record keyRecordBytes c.store).1 = some record →
      recordPolicies record.val = some (pinPolicy, touchPolicy) →
      (pinPolicy ≠ .never → c.pinVerified = true) → touchRequired touchPolicy c = false →
      signDigest apdu (record.val.getD 0 0) = some digest →
      Reads S c.store st → (S.read slot.record cap st).1 = some key →
      signWith K (record.val.getD 0 0) key.val digest rng = some signature →
      Effect K S c apdu rng (wrapChallenge 0x82 signature)
        ({ c with store := (S.read slot.record cap st).2 }.finishSign pinPolicy touchPolicy)

/-- Every outcome of a confirmation of user presence. -/
inductive Confirmed (K : PivCrypto) (S : PivStore σ) (c : Piv σ) (rng : Rng) :
    Response → Piv σ → Prop
  | nothing : c.pendingSign = none →
      Confirmed K S c rng (.status .conditionsNotSatisfied) c
  | failed {pending : PendingSign} {sw : Sw} {st : σ} : c.pendingSign = some pending →
      Reads S c.store st → sw ≠ .ok →
      Confirmed K S c rng (.status sw) { c with pendingSign := none, store := st }
  | signed {pending : PendingSign} {record : BoundedBytes keyRecordBytes}
      {pinPolicy : PinPolicyCode} {touchPolicy : TouchPolicy} {st : σ} {cap : Nat}
      {key : BoundedBytes cap} {signature : List UInt8} : c.pendingSign = some pending →
      (S.read pending.slot.record keyRecordBytes c.store).1 = some record →
      recordPolicies record.val = some (pinPolicy, touchPolicy) →
      Reads S c.store st → (S.read pending.slot.record cap st).1 = some key →
      signWith K (record.val.getD 0 0) key.val pending.digest.val rng = some signature →
      Confirmed K S c rng (wrapChallenge 0x82 signature)
        ({ c with pendingSign := none, store := (S.read pending.slot.record cap st).2 }.finishSign
          pinPolicy touchPolicy)

/-! ## Each command -/

section
variable {c : Piv σ} {apdu : Apdu} {rng : Rng}

theorem read_eq (record cap : Nat) (c : Piv σ) :
    c.read S record cap = ((S.read record cap c.store).1,
      { c with store := (S.read record cap c.store).2 }) := rfl

theorem write_eq (record : Nat) (data : List UInt8) (c : Piv σ) :
    c.write S record data = ((S.write record data c.store).1,
      { c with store := (S.write record data c.store).2 }) := rfl

theorem managementTemplate_eq_none
    (h : ¬(apdu.ins = insGeneralAuthenticate ∧ apdu.p2 = refManagement)) :
    managementTemplate c apdu = none := if_neg fun hc => h ⟨hc.1, hc.2.1⟩

theorem quiet_of_ins {ins : UInt8} (hi : apdu.ins = ins) (hp : ¬isPinCommand ins)
    (hah : ins ≠ insGeneralAuthenticate) : Quiet c apdu := by
  subst hi
  refine ⟨hp, fun h => ?_⟩
  rw [managementTemplate_eq_none fun hc => hah hc.1] at h
  cases h

theorem Effect.refused {sw : Sw} {st : σ} (hqt : Quiet c apdu) (hst : Reads S c.store st)
    (hsw : sw ≠ .ok ∧ sw ≠ .presenceRequired) :
    Effect K S c apdu rng (.status sw) { c with store := st } :=
  .idle hst (fun h => absurd h hsw.1) hsw.2 hqt

theorem writeAnswer_eq (record : Nat) (data : List UInt8) (answer : Response) (c : Piv σ) :
    c.writeAnswer S record data answer = (written (S.write record data c.store).1 answer,
      { c with store := (S.write record data c.store).2 }) := by
  unfold writeAnswer
  rw [write_eq]
  rcases (S.write record data c.store).1 with _ | _ <;> rfl

/-- A response that is built when it fits is a success, or the status of one that does not. -/
theorem ite_sw (p : Prop) [Decidable p] (data : List UInt8) :
    (if p then Response.status .functionNotSupported else .ok data).sw = .ok ∨
      (if p then Response.status .functionNotSupported else .ok data).sw = .functionNotSupported := by
  split
  · exact .inr rfl
  · exact .inl rfl

theorem wrapChallenge_sw (tag : Nat) (value : List UInt8) :
    (wrapChallenge tag value).sw = .ok ∨ (wrapChallenge tag value).sw = .functionNotSupported :=
  ite_sw _ _

theorem wrapObject_sw (tag : Option Nat) (value : List UInt8) :
    (wrapObject tag value).sw ≠ .presenceRequired := by
  have h : (wrapObject tag value).sw = .ok ∨ (wrapObject tag value).sw = .functionNotSupported :=
    ite_sw _ _
  rcases h with h | h <;> rw [h] <;> decide

theorem getData_effect (hi : apdu.ins = insGetData) :
    Effect K S c apdu rng (c.getData S apdu).1 (c.getData S apdu).2 := by
  have hqt : Quiet c apdu := quiet_of_ins hi nofun nofun
  have hrd : ∀ {answer : Response} (record cap : Nat), answer.sw ≠ .presenceRequired →
      Effect K S c apdu rng answer { c with store := (S.read record cap c.store).2 } :=
    fun record cap hp => .idle (.read record cap .none) (fun _ => hi) hp hqt
  have hd : ∀ (oid : Nat) (value : List UInt8),
      Effect K S c apdu rng (c.storedOrDefault S oid value).1 (c.storedOrDefault S oid value).2 := by
    intro oid value
    unfold storedOrDefault
    split
    · exact .refused hqt .none (by decide)
    rw [read_eq]
    rcases (S.read _ 0 c.store).1 with _ | bytes <;> exact hrd _ _ (wrapObject_sw _ _)
  unfold getData
  iterate 2
    split
    · exact .refused hqt .none (by decide)
  split
  · exact hd _ _
  split
  · exact hd _ _
  split
  · exact .idle .none (fun _ => hi) (wrapObject_sw _ _) hqt
  split
  · exact .refused hqt .none (by decide)
  rw [read_eq]
  rcases (S.read _ maxRecordBytes c.store).1 with _ | bytes
  · exact hrd _ _ nofun
  · exact hrd _ _ (wrapObject_sw _ _)

theorem putData_effect (hi : apdu.ins = insPutData) :
    Effect K S c apdu rng (c.putData S apdu).1 (c.putData S apdu).2 := by
  have hqt : Quiet c apdu := quiet_of_ins hi nofun nofun
  unfold putData
  iterate 2
    split
    · exact .refused hqt .none (by decide)
  rename_i hah
  have hah : c.mgmtAuthenticated = true := by simpa using hah
  iterate 4
    split
    · exact .refused hqt .none (by decide)
  · rw [writeAnswer_eq]
    exact .objectWritten _ _ hi hah (Nat.le_add_right _ _)

theorem generateKeyPair_effect (hi : apdu.ins = insGenerateAsymmetricKeyPair) :
    Effect K S c apdu rng (c.generateKeyPair K S apdu rng).1 (c.generateKeyPair K S apdu rng).2 := by
  have hqt : Quiet c apdu := quiet_of_ins hi nofun nofun
  unfold generateKeyPair
  iterate 2
    split
    · exact .refused hqt .none (by decide)
  rename_i hah
  have hah : c.mgmtAuthenticated = true := by simpa using hah
  iterate 2
    split
    · exact .refused hqt .none (by decide)
  split
  · unfold generateRsaKeyPair
    split
    · exact .refused hqt .none (by decide)
    · rw [writeAnswer_eq]
      exact .keyWritten _ _ _ hi hah
  iterate 3
    split
    · exact .refused hqt .none (by decide)
  · rw [writeAnswer_eq]
    exact .keyWritten _ _ _ hi hah

theorem setMgmtKey_effect (hi : apdu.ins = insSetMgmKey) :
    Effect K S c apdu rng (c.setMgmtKey S apdu).1 (c.setMgmtKey S apdu).2 := by
  have hqt : Quiet c apdu := quiet_of_ins hi nofun nofun
  unfold setMgmtKey
  iterate 2
    split
    · exact .refused hqt .none (by decide)
  rename_i hah
  have hah : c.mgmtAuthenticated = true := by simpa using hah
  split
  · exact .refused hqt .none (by decide)
  rename_i mgmt _
  rw [write_eq]
  rcases hw : (S.write recordMgmtKey mgmt.record c.store).1 with _ | _
  · exact .mgmtKeyKept mgmt hi hah hw
  · exact .mgmtKeySet mgmt hi hah hw

/-- The second step of a management authentication: the pending nonce is taken, and the flag is
  set exactly when the nonce was returned. -/
theorem answerWitness_effect {template : List UInt8} {pending : Witness}
    (ht : managementTemplate c apdu = some template) (hpn : c.witness = some pending) :
    Effect K S c apdu rng ({ c with witness := none }.answerWitness K template pending).1
      ({ c with witness := none }.answerWitness K template pending).2 := by
  unfold answerWitness
  rcases hs : submitted template pending with _ | value
  · exact .nonceRefused ht hpn (by rw [hs]; rintro ⟨⟩) (by rintro ⟨⟩)
  simp only
  by_cases heq : value = pending.nonce.val
  · have hct : constantTimeEq value pending.nonce.val = true := ctEq_iff.mpr heq
    have he : Effect K S c apdu rng _ _ :=
      .nonceProved ht hpn (by rw [hs, heq])
    rw [hct]
    unfold provedAnswer at he
    by_cases hm : pending.isMutual = true
    · simp only [hm, if_true, Bool.not_true, Bool.false_eq_true, if_false] at he ⊢
      rcases hch : Tlv.find template 0x81 with _ | challenge
      · rw [hch] at he
        exact he
      · rw [hch] at he
        exact he
    · simp only [hm, Bool.not_true, Bool.false_eq_true, if_false] at he ⊢
      exact he
  · have hct : constantTimeEq value pending.nonce.val = false := by
      rw [Bool.eq_false_iff]
      exact fun h => heq (ctEq_iff.mp h)
    rw [hct]
    refine .nonceRefused ht hpn ?_ (by rintro ⟨⟩)
    rw [hs]
    exact fun h => heq (Option.some_inj.mp h)

theorem drawWitness_effect {template : List UInt8} (hi : apdu.ins = insGeneralAuthenticate)
    (ht : managementTemplate c apdu = some template) (hno : c.witness = none) :
    Effect K S c apdu rng (c.drawWitness K template rng).1 (c.drawWitness K template rng).2 := by
  have hqt : Quiet c apdu := ⟨by rw [hi]; decide, fun _ => hno⟩
  unfold drawWitness
  generalize decide (Tlv.find template 0x80 = some []) = isMutual
  dsimp only
  iterate 2
    split
    · exact .refused hqt .none (by decide)
  rename_i hbl
  split
  · exact .refused hqt .none (by decide)
  rename_i nonce hnc
  split
  · exact .refused hqt .none (by decide)
  rename_i encrypted he
  have hv := BoundedBytes.ofSlice_eq_some.mp hnc
  by_cases hsw : (wrapChallenge (if isMutual then 0x80 else 0x81) encrypted).sw = .ok
  · rw [if_pos hsw]
    exact .nonceDrawn isMutual nonce ht hno hbl hv he
  · rw [if_neg hsw]
    exact .refused hqt .none (by decide)

theorem authenticateManagement_effect (hi : apdu.ins = insGeneralAuthenticate)
    (hp2 : apdu.p2 = refManagement) :
    Effect K S c apdu rng (c.authenticateManagement K apdu rng).1
      (c.authenticateManagement K apdu rng).2 := by
  have hn : ¬isPinCommand apdu.ins := by rw [hi]; decide
  have hqt : managementTemplate c apdu = none → Quiet c apdu := by
    intro hno
    rw [Quiet, hno]
    exact ⟨hn, nofun⟩
  unfold authenticateManagement
  split
  · rename_i ha
    refine .refused (hqt (if_neg fun hc => ?_)) .none (by decide)
    rw [hc.2.2] at ha
    cases ha
  rename_i ha
  have ht : managementTemplate c apdu = Tlv.find apdu.data 0x7C :=
    if_pos ⟨hi, hp2, by simpa using ha⟩
  split
  · rename_i hfn
    exact .refused (hqt (ht.trans hfn)) .none (by decide)
  rename_i template hfn
  split
  · rename_i pending hpn
    exact answerWitness_effect (ht.trans hfn) hpn
  · rename_i hno
    exact drawWitness_effect hi (ht.trans hfn) hno

theorem finishMutation_true (record : PinRecord) (result : Except Sw Unit) (c : Piv σ) :
    c.finishMutation S record true result =
      (written (c.persistPin S record).1 (.ofResult result), (c.persistPin S record).2) := by
  unfold finishMutation
  rcases c.persistPin S record with ⟨_ | _, c'⟩ <;> rfl

theorem persistPin_content {content : σ → Nat → Option (List UInt8)} (hS : Holds S content)
    (record : PinRecord) (c : Piv σ) {other : Nat} (hne : other ≠ record.record) :
    content (c.persistPin S record).2.store other = content c.store other := by
  have hoh := hS.others record.record (c.slot record).encode.val c.store other hne
  unfold persistPin writePinSlot
  rw [write_eq]
  rcases (S.write record.record (c.slot record).encode.val c.store).1 with _ | _ <;>
    cases record <;> exact hoh

/-- A PIN command without a candidate leaves everything alone. -/
theorem Effect.pinMissing {sw : Sw} (hn : isPinCommand apdu.ins) (h : presented apdu = none) :
    Effect K S c apdu rng (.status sw) c :=
  .pinRefused c.pinVerified hn id fun _ _ hp => absurd (h.symm.trans hp) nofun

/-- A candidate that was not compared, or was right, says no more of the slot than that. -/
theorem accepts_of_presented {record : PinRecord} {pin : List UInt8}
    (hpr : presented apdu = some (record, pin))
    (h : (c.slot record).Compares → (c.slot record).Accepts K.sha256 pin) :
    ∀ record pin, presented apdu = some (record, pin) → (c.slot record).Compares →
      (c.slot record).Accepts K.sha256 pin := by
  intro record' pin' hp
  cases hpr.symm.trans hp
  exact h

theorem presented_verify (hi : apdu.ins = insVerify) :
    presented apdu = if apdu.p1 = 0x00 ∧ apdu.data.length = 8 then
      (PinRecord.fromReference apdu.p2).map (·, apdu.data) else none := if_pos hi

theorem presented_change (hi : apdu.ins = insChangeReferenceData) :
    presented apdu = if apdu.p1 = 0x00 ∧ apdu.data.length = 16 ∧
        pivPinPolicy.minLen ≤ effectivePinLen (apdu.data.drop 8) then
      (PinRecord.fromReference apdu.p2).map (·, apdu.data.take 8) else none := by
  rw [presented, if_neg (by rw [hi]; decide), if_pos hi]

theorem presented_reset (hi : apdu.ins = insResetRetryCounter) :
    presented apdu = if apdu.p1 = 0x00 ∧ apdu.p2 = refPin ∧ apdu.data.length = 16 then
      some (.puk, apdu.data.take 8) else none := by
  rw [presented, if_neg (by rw [hi]; decide), if_neg (by rw [hi]; decide), if_pos hi]

theorem verify_effect (hi : apdu.ins = insVerify) :
    Effect K S c apdu rng (c.verify K S apdu).1 (c.verify K S apdu).2 := by
  have hn : isPinCommand apdu.ins := .inl hi
  have hpr := presented_verify hi
  unfold verify
  split
  · rename_i hp1
    exact .pinMissing hn (hpr.trans (if_neg fun h => hp1 h.1))
  rename_i hp1
  split
  · rename_i hno
    exact .pinMissing hn (by rw [hpr, hno, Option.map_none, ite_self])
  rename_i record hr
  split
  · rename_i hem
    refine .pinMissing hn (hpr.trans (if_neg fun h => ?_))
    rw [hem] at h
    cases h.2
  split
  · rename_i hl
    exact .pinMissing hn (hpr.trans (if_neg fun h => hl h.2))
  rename_i hl
  have hps : presented apdu = some (record, apdu.data) := by
    rw [hpr, if_pos ⟨not_not.mp hp1, not_not.mp hl⟩, hr]
    rfl
  rcases hv : (c.slot record).verify K.sha256 apdu.data with ⟨result, slot⟩
  dsimp only
  obtain ⟨ha, rfl, rfl⟩ | ⟨hc, ha, rfl, rfl⟩ | ⟨hc, sw, rfl, -, rfl⟩ := PinSlot.verify_cases hv
  · rw [decide_eq_false (UInt8.lt_irrefl _)]
    cases record
    · exact .pinAccepted .pin hi hps ha
    · exact .pinAccepted .puk hi hps ha
  · rw [decide_eq_true (PinSlot.attempted_lt hc.2), finishMutation_true]
    cases record
    · exact .pinWrong .pin false hps hc ha nofun rfl
    · exact .pinWrong .puk c.pinVerified hps hc ha id rfl
  · have hac := accepts_of_presented (K := K) hps fun h => absurd h hc
    rw [decide_eq_false (UInt8.lt_irrefl _)]
    cases record
    · exact .pinRefused false hn nofun hac
    · exact .pinRefused c.pinVerified hn id hac

theorem changeReferenceData_effect (hi : apdu.ins = insChangeReferenceData) :
    Effect K S c apdu rng (c.changeReferenceData K S apdu).1
      (c.changeReferenceData K S apdu).2 := by
  have hn : isPinCommand apdu.ins := .inr (.inl hi)
  have hpr := presented_change hi
  unfold changeReferenceData
  split
  · rename_i hp1
    exact .pinMissing hn (hpr.trans (if_neg fun h => hp1 h.1))
  rename_i hp1
  split
  · rename_i hno
    exact .pinMissing hn (by rw [hpr, hno, Option.map_none, ite_self])
  rename_i record hr
  split
  · rename_i hl
    exact .pinMissing hn (hpr.trans (if_neg fun h => hl h.2.1))
  rename_i hl
  split
  · rename_i hm
    exact .pinMissing hn (hpr.trans (if_neg fun h => absurd hm (Nat.not_lt.mpr h.2.2)))
  rename_i hm
  have hps : presented apdu = some (record, apdu.data.take 8) := by
    rw [hpr, if_pos ⟨not_not.mp hp1, not_not.mp hl, Nat.le_of_not_lt hm⟩, hr]
    rfl
  rcases hv : (c.slot record).change K.sha256 (apdu.data.take 8) (apdu.data.drop 8)
    with ⟨result, slot⟩
  dsimp only
  obtain ⟨ha, rfl, rfl⟩ | ⟨hc, ha, rfl, rfl⟩ | ⟨hrg, sw, rfl, rfl⟩ := PinSlot.change_cases hv
  · rw [show (Except.ok () : Except Sw Unit).isOk = true from rfl, Bool.true_or,
      finishMutation_true]
    cases record
    · exact .pinChanged .pin hi hps ha rfl
    · exact .pinChanged .puk hi hps ha rfl
  · rw [decide_eq_true (PinSlot.attempted_lt hc.2), Bool.or_true, finishMutation_true]
    cases record
    · exact .pinWrong .pin c.pinVerified hps hc ha id rfl
    · exact .pinWrong .puk c.pinVerified hps hc ha id rfl
  · have hac := accepts_of_presented hps hrg
    rw [decide_eq_false (UInt8.lt_irrefl _)]
    cases record <;> exact .pinRefused c.pinVerified hn id hac

theorem resetRetryCounter_effect (hi : apdu.ins = insResetRetryCounter) :
    Effect K S c apdu rng (c.resetRetryCounter K S apdu).1 (c.resetRetryCounter K S apdu).2 := by
  have hp : isPinCommand apdu.ins := .inr (.inr hi)
  have hps := presented_reset hi
  unfold resetRetryCounter
  split
  · rename_i hr
    refine .pinMissing hp (hps.trans (if_neg fun h => ?_))
    exact hr.elim (· h.1) (· h.2.1)
  rename_i hr
  split
  · rename_i hl
    exact .pinMissing hp (hps.trans (if_neg fun h => hl h.2.2))
  rename_i hl
  have hpr : presented apdu = some (.puk, apdu.data.take 8) := by
    rw [hps, if_pos ⟨not_not.mp (not_or.mp hr).1, not_not.mp (not_or.mp hr).2, not_not.mp hl⟩]
  rcases hv : c.puk.verify K.sha256 (apdu.data.take 8) with ⟨result, puk⟩
  obtain ⟨ha, rfl, rfl⟩ | ⟨hc, ha, rfl, rfl⟩ | ⟨hc, sw, rfl, -, rfl⟩ := PinSlot.verify_cases hv
  · have hac := accepts_of_presented hpr fun _ => ha
    dsimp only
    split
    · exact .pinRefused c.pinVerified hp id hac
    rename_i hm
    rcases hu : c.pin.unblock K.sha256 (apdu.data.drop 8) with ⟨result, pin⟩
    simp only [PinSlot.unblock, PinSlot.set] at hu
    split at hu
    · cases hu
      exact .pinRefused false hp (by rintro ⟨⟩) hac
    · cases hu
      rw [show (Except.ok () : Except Sw Unit).isOk = true from rfl, finishMutation_true]
      exact .pinUnblocked hi hpr ha rfl (Nat.le_of_not_lt hm)
  · dsimp only
    rw [decide_eq_true (PinSlot.attempted_lt hc.2), finishMutation_true]
    exact .pinWrong .puk c.pinVerified hpr hc ha id rfl
  · dsimp only
    rw [decide_eq_false (UInt8.lt_irrefl _)]
    exact .pinRefused c.pinVerified hp id (accepts_of_presented hpr fun h => absurd h hc)

/-- A signature that is completed reads the key again; it is refused with the flags as they were,
  or made and followed by the transitions of the policies. -/
theorem completeSign_cases (slot : KeySlot) (algorithm : UInt8) (pinPolicy : PinPolicyCode)
    (touchPolicy : TouchPolicy) (digest : List UInt8) (rng : Rng) (c : Piv σ) :
    (∃ sw st, sw ≠ .ok ∧ sw ≠ .presenceRequired ∧ Reads S c.store st ∧
      c.completeSign K S slot algorithm pinPolicy touchPolicy digest rng =
        (.status sw, { c with store := st })) ∨
    ∃ (cap : Nat) (key : BoundedBytes cap) (signature : List UInt8),
      (S.read slot.record cap c.store).1 = some key ∧
      signWith K algorithm key.val digest rng = some signature ∧
      c.completeSign K S slot algorithm pinPolicy touchPolicy digest rng =
        (wrapChallenge 0x82 signature,
          { c with store := (S.read slot.record cap c.store).2 }.finishSign pinPolicy touchPolicy) := by
  by_cases hr : algorithm = algRsa2048
  · by_cases hl : digest.length = rsa2048Bytes
    · have hrd := Reads.read slot.record keyRecordBytes (.none : Reads S c.store c.store)
      simp only [completeSign, completeRsaSign, if_pos hr, dif_pos hl, read_eq]
      rcases hk : (S.read slot.record keyRecordBytes c.store).1 with _ | key
      · exact .inl ⟨_, _, by decide, by decide, hrd, rfl⟩
      rcases hc : rsaRecordKey key.val with _ | secret
      · simp only [hc]
        exact .inl ⟨_, _, by decide, by decide, hrd, rfl⟩
      rcases ha : applyPrivate K.bigUint secret ⟨digest, hl⟩ rng with _ | signature
      · simp only [hc, ha]
        exact .inl ⟨_, _, by decide, by decide, hrd, rfl⟩
      simp only [hc, ha]
      refine .inr ⟨keyRecordBytes, key, signature.val, hk, ?_, rfl⟩
      simp only [signWith, if_pos hr, dif_pos hl, hc, ha, Option.bind_eq_bind, Option.bind_some]
    · simp only [completeSign, if_pos hr, dif_neg hl]
      exact .inl ⟨_, c.store, by decide, by decide, .none, rfl⟩
  · have hrd := Reads.read slot.record (4 + 48) (.none : Reads S c.store c.store)
    simp only [completeSign, if_neg hr, read_eq]
    rcases hk : (S.read slot.record (4 + 48) c.store).1 with _ | key
    · exact .inl ⟨_, _, by decide, by decide, hrd, rfl⟩
    rcases hcr : curveBytes algorithm with _ | keyLen
    · exact .inl ⟨_, _, by decide, by decide, hrd, rfl⟩
    by_cases hl : key.val.length < 4 + keyLen ∨ digest.length ≠ keyLen
    · simp only [if_pos hl]
      exact .inl ⟨_, _, by decide, by decide, hrd, rfl⟩
    rcases hsg : signPrehash K algorithm ((key.val.drop 4).take keyLen) digest with _ | signature
    · simp only [if_neg hl, hsg]
      exact .inl ⟨_, _, by decide, by decide, hrd, rfl⟩
    simp only [if_neg hl, hsg]
    refine .inr ⟨4 + 48, key, signature, hk, ?_, rfl⟩
    simp only [signWith, if_neg hr, hcr, Option.bind_eq_bind, Option.bind_some, if_neg hl, hsg]

theorem sign_effect (hi : apdu.ins = insGeneralAuthenticate) (hp2 : apdu.p2 ≠ refManagement) :
    Effect K S c apdu rng (c.sign K S apdu rng).1 (c.sign K S apdu rng).2 := by
  have hqt : Quiet c apdu := by
    refine ⟨by rw [hi]; decide, fun h => ?_⟩
    rw [managementTemplate_eq_none fun hc => hp2 hc.2] at h
    cases h
  unfold sign
  split
  · exact .refused hqt .none (by decide)
  rename_i slot hsl
  have hs : signSlot apdu = some slot := by rw [signSlot, if_pos hi, hsl]
  have hrd := Reads.read slot.record keyRecordBytes (.none : Reads S c.store c.store)
  rw [read_eq]
  rcases hr : (S.read slot.record keyRecordBytes c.store).1 with _ | record
  · exact .refused hqt hrd (by decide)
  dsimp only
  iterate 3
    split
    · exact .refused hqt hrd (by decide)
  rename_i pinPolicy touchPolicy hpl
  split
  · exact .refused hqt hrd (by decide)
  rename_i hv
  have hv : pinPolicy ≠ .never → c.pinVerified = true := by simpa using hv
  split
  · exact .refused hqt hrd (by decide)
  rename_i digest hd
  split
  · exact .refused hqt hrd (by decide)
  rename_i width hwd
  split
  · exact .refused hqt hrd (by decide)
  rename_i padded hpd
  have hsg : signDigest apdu (record.val.getD 0 0) = some padded := by
    simp only [signDigest, hd, hwd, hpd, Option.bind_eq_bind, Option.bind_some]
  split
  · rename_i htc
    split
    · exact .refused hqt hrd (by decide)
    · rename_i stashed ht
      exact .touchAsked hs hr hrd hpl hv htc (by rw [hsg, BoundedBytes.ofSlice_eq_some.mp ht])
  · rename_i htc
    have htc : touchRequired touchPolicy c = false := Bool.eq_false_iff.mpr htc
    obtain ⟨sw, st, hok, hp, hst, heq⟩ | ⟨cap, key, signature, hk, hsn, heq⟩ :=
      completeSign_cases slot (record.val.getD 0 0) pinPolicy touchPolicy padded
        rng { c with store := (S.read slot.record keyRecordBytes c.store).2 }
    · rw [heq]
      refine .idle ?_ (fun h => absurd h hok) hp hqt
      exact hst.trans hrd
    · rw [heq]
      exact .signed hs hr hpl hv htc hsg hrd hk hsn

theorem process_effect (c : Piv σ) (apdu : Apdu) (rng : Rng) :
    Effect K S c apdu rng (c.process K S apdu rng).1 (c.process K S apdu rng).2 := by
  unfold process
  split
  · exact getData_effect ‹_›
  split
  · exact putData_effect ‹_›
  split
  · exact verify_effect ‹_›
  split
  · exact changeReferenceData_effect ‹_›
  split
  · exact resetRetryCounter_effect ‹_›
  split
  · exact generateKeyPair_effect ‹_›
  split
  · rename_i ht hpt hv hh hrs hg hi
    unfold generalAuthenticate
    split
    · exact authenticateManagement_effect hi ‹_›
    rename_i hp2
    split
    · exact sign_effect hi hp2
    · refine .refused ⟨by rw [hi]; decide, fun h => ?_⟩ .none (by decide)
      rw [managementTemplate_eq_none fun hc => hp2 hc.2] at h
      cases h
  split
  · exact setMgmtKey_effect ‹_›
  rename_i ht hpt hv hh hrs hg hah hs
  refine .refused (quiet_of_ins rfl ?_ hah) .none (by decide)
  rintro (h | h | h)
  · exact hv h
  · exact hh h
  · exact hrs h

theorem confirm_effect (c : Piv σ) (rng : Rng) :
    Confirmed K S c rng (c.confirmPresence K S rng).1 (c.confirmPresence K S rng).2 := by
  unfold confirmPresence
  rcases hpn : c.pendingSign with _ | pending
  · exact .nothing hpn
  have hrd := Reads.read pending.slot.record keyRecordBytes (.none : Reads S c.store c.store)
  simp only [read_eq]
  rcases hr : (S.read pending.slot.record keyRecordBytes c.store).1 with _ | record
  · exact .failed hpn hrd nofun
  dsimp only
  split
  · exact .failed hpn hrd nofun
  split
  · exact .failed hpn hrd nofun
  rename_i pinPolicy touchPolicy hpl
  obtain ⟨sw, st, hok, hp, hst, heq⟩ | ⟨cap, key, signature, hk, hsg, heq⟩ :=
    completeSign_cases pending.slot (record.val.getD 0 0) pinPolicy touchPolicy
      pending.digest.val rng { c with
        pendingSign := none, store := (S.read pending.slot.record keyRecordBytes c.store).2 }
  · rw [heq]
    exact .failed hpn (hst.trans hrd) hok
  · rw [heq]
    exact .signed hpn hr hpl hrd hk hsg

end

end AegisToken.Applets.Piv
