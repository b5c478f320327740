/-
  Management authentication of the PIV applet over whole histories.
  The card draws a nonce, sends it encrypted, and sets its flag when the host returns it. The
  pending nonce is taken out by the next request that passes the checks on the algorithm and the
  outer tag, whatever that request submits; requests that fail these checks leave it.
  `Submits` is what a request returns, `Draws` is an exchange that drew a nonce, and `Proves` an
  exchange that returned the nonce of the latest one. Two more results say what the responses
  depend on: `answers_of_witness` that they carry nothing of a pending nonce, and
  `answers_of_cipher` that before a proof the cipher is applied to drawn nonces only.
-/
import AegisToken.Applets.PivSession

namespace AegisToken.Applets.Piv
open ByteCodec History

variable {σ : Type} {K : PivCrypto} {S : PivStore σ} {past : List (Log σ)} {c c' : Piv σ}
  {apdu : Apdu} {rng : Rng} {e : Event} {template : List UInt8}

/-! ## Exchanges -/

/-- PUT DATA, SET MANAGEMENT KEY or GENERATE ASYMMETRIC KEY PAIR, answered `9000`. -/
def Administers (e : Log σ) : Prop :=
  ∃ apdu rng, e.event = .process apdu rng ∧ e.answer.sw = .ok ∧
    (apdu.ins = insPutData ∨ apdu.ins = insSetMgmKey ∨ apdu.ins = insGenerateAsymmetricKeyPair)

/-- A GENERAL AUTHENTICATE with the management key. -/
def ManagementRequest (e : Log σ) : Prop :=
  ∃ apdu rng, e.event = .process apdu rng ∧ apdu.ins = insGeneralAuthenticate ∧
    apdu.p2 = refManagement

/-- One that passes the checks on the algorithm and on the outer tag. -/
def Exchange (e : Log σ) : Prop :=
  ∃ apdu rng, e.event = .process apdu rng ∧ (managementTemplate e.before apdu).isSome

/-- The request returns `value` as a witness or as a response. -/
def Submits (apdu : Apdu) (value : List UInt8) : Prop :=
  ∃ template, Tlv.find apdu.data 0x7C = some template ∧
    (Tlv.find template 0x80 = some value ∨ Tlv.find template 0x82 = some value)

/-- An exchange that drew a nonce of one block from the random numbers and answered with its
  encryption under the management key in force. -/
def Draws (K : PivCrypto) (nonce : List UInt8) (e : Log σ) : Prop :=
  ∃ apdu rng tag encrypted, e.event = .process apdu rng ∧
    (managementTemplate e.before apdu).isSome ∧ e.before.mgmt.blockLen ≠ 0 ∧
    nonce = (fillBytes e.before.mgmt.blockLen rng).1.val ∧
    e.before.mgmt.encrypt K nonce = some encrypted ∧ e.answer = wrapChallenge tag encrypted

/-- What ends a pending nonce: the next exchange, a SELECT, or a new management key. -/
def EndsNonce (e : Log σ) : Prop :=
  Exchange e ∨ IsSelect e ∨
    ∃ apdu rng, e.event = .process apdu rng ∧ apdu.ins = insSetMgmKey ∧ e.answer.sw = .ok

/-- An exchange that returns the nonce of the latest exchange. -/
def Proves (K : PivCrypto) (e : Log σ) (past : List (Log σ)) : Prop :=
  ∃ apdu rng nonce, e.event = .process apdu rng ∧ (managementTemplate e.before apdu).isSome ∧
    Submits apdu nonce ∧ Since (fun d _ => Draws K nonce d) EndsNonce past

/-- An exchange in which a submitted value is compared with a pending nonce. -/
def ComparesNonce (e : Log σ) : Prop :=
  ∃ apdu rng template pending, e.event = .process apdu rng ∧
    managementTemplate e.before apdu = some template ∧ e.before.witness = some pending ∧
    (submitted template pending).isSome

theorem ComparesNonce.exchange {e : Log σ} (h : ComparesNonce e) : Exchange e := by
  obtain ⟨apdu, rng, template, pending, hev, ht, -⟩ := h
  exact ⟨apdu, rng, hev, by rw [ht]; rfl⟩

theorem managementTemplate_find (h : managementTemplate c apdu = some template) :
    Tlv.find apdu.data 0x7C = some template := by
  unfold managementTemplate at h
  split at h
  · exact h
  · cases h

theorem submits_of_submitted {template value : List UInt8} {pending : Witness}
    (ht : managementTemplate c apdu = some template) (h : submitted template pending = some value) :
    Submits apdu value := by
  refine ⟨template, managementTemplate_find ht, ?_⟩
  unfold submitted at h
  by_cases hm : pending.isMutual = true
  · rw [if_pos hm] at h
    exact .inl h
  · rw [if_neg hm] at h
    exact .inr h

/-! ## One step -/

theorem persistPin_session (record : PinRecord) (c : Piv σ) :
    SameSession c (c.persistPin S record).2 := by
  unfold persistPin writePinSlot
  rw [write_eq]
  rcases (S.write record.record _ c.store).1 with _ | _ <;> cases record <;>
    exact ⟨rfl, rfl, rfl, rfl, rfl⟩

/-- Of the session, a PIN command sets the verification at most. -/
theorem persisted_session {c c₁ : Piv σ} {verified : Bool} (record : PinRecord) (slot : PinSlot)
    (hc₁ : c₁ = { c.setSlot record slot with pinVerified := verified }) :
    SameSession { c with pinVerified := verified } (c₁.persistPin S record).2 := by
  subst hc₁
  have h := persistPin_session (S := S) record { c.setSlot record slot with pinVerified := verified }
  cases record <;> exact ⟨h.1, h.2, h.3, h.4, h.5⟩

/-- Whether a slot is persisted is up to the store. -/
theorem persistPin_fst (record : PinRecord) (c : Piv σ) :
    (c.persistPin S record).1 = (S.write record.record (c.slot record).encode.val c.store).1 := by
  unfold persistPin writePinSlot
  rw [write_eq]
  rcases (S.write record.record (c.slot record).encode.val c.store).1 with _ | _ <;> rfl

theorem presented_ins {record : PinRecord} {pin : List UInt8}
    (h : presented apdu = some (record, pin)) : isPinCommand apdu.ins := by
  by_contra hne
  unfold isPinCommand at hne
  push Not at hne
  rw [presented, if_neg hne.1, if_neg hne.2.1, if_neg hne.2.2] at h
  cases h

theorem template_ins (h : managementTemplate c apdu = some template) :
    apdu.ins = insGeneralAuthenticate := by
  by_contra hne
  rw [managementTemplate_eq_none fun hc => hne hc.1] at h
  cases h

theorem signSlot_ins {slot : KeySlot} (h : signSlot apdu = some slot) :
    apdu.ins = insGeneralAuthenticate := by
  by_contra hne
  cases (if_neg hne).symm.trans h

theorem signSlot_of_template (h : managementTemplate c apdu = some template) :
    signSlot apdu = none := by
  unfold managementTemplate at h
  split at h
  · rename_i hc
    rw [signSlot, if_pos hc.1, hc.2.1]
    rfl
  · cases h

/-- The command ends no pending nonce: it is no exchange, and it sets no management key. -/
def LeavesNonce (c : Piv σ) (apdu : Apdu) (answer : Response) : Prop :=
  ((managementTemplate c apdu).isSome → c.witness = none) ∧
    (apdu.ins = insSetMgmKey → answer.sw ≠ .ok)

/-- What a command does to the state of the management authentication. -/
inductive ManagementEffect (K : PivCrypto) (c : Piv σ) (apdu : Apdu) (rng : Rng)
    (answer : Response) (c' : Piv σ) : Prop
  | same : LeavesNonce c apdu answer → c'.mgmtAuthenticated = c.mgmtAuthenticated →
      c'.witness = c.witness → ManagementEffect K c apdu rng answer c'
  | keySet : apdu.ins = insSetMgmKey → answer.sw = .ok →
      c'.mgmtAuthenticated = c.mgmtAuthenticated → c'.witness = none →
      ManagementEffect K c apdu rng answer c'
  | drawn {encrypted : List UInt8} (tag : Nat) (w : Witness) :
      (managementTemplate c apdu).isSome → c.witness = none → c.mgmt.blockLen ≠ 0 →
      w.nonce.val = (fillBytes c.mgmt.blockLen rng).1.val →
      c.mgmt.encrypt K w.nonce.val = some encrypted → answer = wrapChallenge tag encrypted →
      c'.mgmtAuthenticated = c.mgmtAuthenticated → c'.witness = some w →
      ManagementEffect K c apdu rng answer c'
  | taken : c'.mgmtAuthenticated = c.mgmtAuthenticated → c'.witness = none →
      ManagementEffect K c apdu rng answer c'
  | proved {w : Witness} : (managementTemplate c apdu).isSome → c.witness = some w →
      Submits apdu w.nonce.val → c'.witness = none → ManagementEffect K c apdu rng answer c'

theorem Effect.management {answer : Response} (he : Effect K S c apdu rng answer c') :
    ManagementEffect K c apdu rng answer c' := by
  have hl : managementTemplate c apdu = none → apdu.ins ≠ insSetMgmKey →
      LeavesNonce c apdu answer :=
    fun hno hs => ⟨fun h => absurd (hno ▸ h) nofun, fun h => absurd h hs⟩
  have hoh : ∀ {ins : UInt8}, apdu.ins = ins → ins ≠ insGeneralAuthenticate →
      ins ≠ insSetMgmKey → LeavesNonce c apdu answer := by
    intro ins hi hah hs
    subst hi
    exact hl (managementTemplate_eq_none fun hc => hah hc.1) hs
  have hpn : isPinCommand apdu.ins → LeavesNonce c apdu answer := by
    rintro (h | h | h) <;> exact hoh h nofun nofun
  have hg : ∀ {slot : KeySlot}, signSlot apdu = some slot → LeavesNonce c apdu answer := by
    intro slot hsl
    refine hl (Option.eq_none_iff_forall_ne_some.mpr fun template h => ?_) ?_
    · cases (signSlot_of_template h).symm.trans hsl
    · rw [signSlot_ins hsl]
      decide
  cases he with
  | idle _ hok _ hqt =>
    exact .same ⟨hqt.2, fun hi hsw => absurd (hi.symm.trans (hok hsw)) nofun⟩ rfl rfl
  | objectWritten _ _ hi | keyWritten _ _ _ hi =>
    exact .same (hoh hi nofun nofun) rfl rfl
  | mgmtKeySet _ hi => exact .keySet hi rfl rfl rfl
  | mgmtKeyKept _ hi =>
    refine .same ⟨fun h => ?_, fun _ => nofun⟩ rfl rfl
    rw [managementTemplate_eq_none fun hc => absurd (hi.symm.trans hc.1) nofun] at h
    cases h
  | nonceDrawn isMutual nonce ht hno hbl hv hn =>
    exact .drawn _ _ (by rw [ht]; rfl) hno hbl hv hn rfl rfl rfl
  | nonceRefused => exact .taken rfl rfl
  | nonceProved ht hpd hb =>
    exact .proved (by rw [ht]; rfl) hpd (submits_of_submitted ht hb) rfl
  | pinRefused _ hp => exact .same (hpn hp) rfl rfl
  | pinAccepted _ hi => exact .same (hoh hi nofun nofun) rfl rfl
  | pinWrong record _ hpr _ _ _ hc₁ | pinChanged record _ hpr _ hc₁ =>
    have h := persisted_session (S := S) record _ hc₁
    exact .same (hpn (presented_ins hpr)) h.mgmtAuthenticated h.witness
  | pinUnblocked _ hpr _ hc₁ =>
    have h := persisted_session (S := S) .pin (c.pin.installed _ _) hc₁
    exact .same (hpn (presented_ins hpr)) h.mgmtAuthenticated h.witness
  | touchAsked hsl | signed hsl => exact .same (hg hsl) rfl rfl

/-- The three commands need the flag. -/
theorem administers_flag (h : Administers (entry (step K S) c e)) : c.mgmtAuthenticated = true := by
  obtain ⟨apdu, rng, hev, hsw, hi⟩ := h
  obtain rfl : e = .process apdu rng := hev
  change (c.process K S apdu rng).1.sw = .ok at hsw
  have he := process_effect (K := K) (S := S) c apdu rng
  generalize (c.process K S apdu rng).1 = answer at he hsw
  generalize (c.process K S apdu rng).2 = c' at he
  have hne : apdu.ins ≠ insGetData ∧ ¬isPinCommand apdu.ins ∧
      apdu.ins ≠ insGeneralAuthenticate := by
    rcases hi with h | h | h <;> rw [h] <;> decide
  cases he with
  | idle _ hok => exact absurd (hok hsw) hne.1
  | objectWritten _ _ _ hah | keyWritten _ _ _ _ hah | mgmtKeySet _ _ hah | mgmtKeyKept _ _ hah =>
    exact hah
  | nonceDrawn _ _ h | nonceRefused h | nonceProved h => exact absurd (template_ins h) hne.2.2
  | pinRefused _ h => exact absurd h hne.2.1
  | pinAccepted _ _ h | pinWrong _ _ h | pinChanged _ _ h | pinUnblocked _ h =>
    exact absurd (presented_ins h) hne.2.1
  | touchAsked h | signed h => exact absurd (signSlot_ins h) hne.2.2

theorem Confirmed.management {answer : Response} (he : Confirmed K S c rng answer c') :
    c'.mgmtAuthenticated = c.mgmtAuthenticated ∧ c'.witness = c.witness := by
  cases he <;> exact ⟨rfl, rfl⟩

/-! ## Every history -/

/-- What the flag and the pending nonce of a state say about its past. -/
structure ManagementInv (K : PivCrypto) (c : Piv σ) (past : List (Log σ)) : Prop where
  authenticated : c.mgmtAuthenticated = true → Since (Proves K) IsSelect past
  pending : ∀ w, c.witness = some w → Since (fun d _ => Draws K w.nonce.val d) EndsNonce past
  fresh : c.witness ≠ none → Since (fun d _ => ∃ nonce, Draws K nonce d) ComparesNonce past

/-- An entry after which flag and nonce are as they were, and that neither compared the nonce nor
  ended it, keeps what is known of them. -/
theorem ManagementInv.later {e : Log σ} (hi : ManagementInv K c past)
    (hah : c'.mgmtAuthenticated = c.mgmtAuthenticated) (ht : c'.witness = c.witness)
    (hs : ¬IsSelect e) (hen : c.witness ≠ none → ¬EndsNonce e) :
    ManagementInv K c' (e :: past) where
  authenticated h := .inr ⟨hs, hi.authenticated (hah ▸ h)⟩
  pending w hw := by
    rw [ht] at hw
    exact .inr ⟨hen (by rw [hw]; exact nofun), hi.pending w hw⟩
  fresh hne := by
    rw [ht] at hne
    exact .inr ⟨fun hc => hen hne (.inl hc.exchange), hi.fresh hne⟩

/-- With no nonce pending, only the flag matters. -/
theorem ManagementInv.of_none (hno : c'.witness = none)
    (hah : c'.mgmtAuthenticated = true → Since (Proves K) IsSelect past) :
    ManagementInv K c' past where
  authenticated := hah
  pending w hw := by rw [hno] at hw; cases hw
  fresh hne := absurd hno hne

theorem managementInv_process (hi : ManagementInv K c past) (apdu : Apdu) (rng : Rng) :
    ManagementInv K (c.process K S apdu rng).2
      (entry (step K S) c (.process apdu rng) :: past) := by
  have hsl : ¬IsSelect (entry (step K S) c (.process apdu rng)) := nofun
  have hlt : ∀ {c' : Piv σ}, c'.mgmtAuthenticated = c.mgmtAuthenticated →
      c'.mgmtAuthenticated = true →
      Since (Proves K) IsSelect (entry (step K S) c (.process apdu rng) :: past) :=
    fun hah h => .inr ⟨hsl, hi.authenticated (hah ▸ h)⟩
  cases (process_effect (K := K) (S := S) c apdu rng).management with
  | same hl hah ht =>
    by_cases hw : c.witness = none
    · exact .of_none (ht.trans hw) (hlt hah)
    refine hi.later hah ht hsl fun _ => ?_
    rintro (⟨apdu', rng', hev, hsm⟩ | hse | ⟨apdu', rng', hev, hs, hsw⟩)
    · cases hev
      exact hw (hl.1 hsm)
    · exact hsl hse
    · cases hev
      exact hl.2 hs hsw
  | keySet _ _ hah ht | taken hah ht => exact .of_none ht (hlt hah)
  | drawn tag w hsm _ hbl hv hn ha hah ht =>
    have hdr : Draws K w.nonce.val (entry (step K S) c (.process apdu rng)) :=
      ⟨apdu, rng, tag, _, rfl, hsm, hbl, hv, hn, ha⟩
    refine ⟨hlt hah, fun w' hw' => ?_, fun _ => .inl ⟨_, hdr⟩⟩
    rw [ht] at hw'
    cases hw'
    exact .inl hdr
  | proved hsm hw hb ht =>
    exact .of_none ht fun _ =>
      .inl ⟨apdu, rng, _, rfl, hsm, hb, hi.pending _ hw⟩

theorem managementInv_step (hi : ManagementInv K c past) (e : Event) :
    ManagementInv K (step K S c e).2 (entry (step K S) c e :: past) := by
  have hen : ¬IsSelect (entry (step K S) c e) → (∀ apdu rng, e ≠ .process apdu rng) →
      ¬EndsNonce (entry (step K S) c e) := by
    rintro hsl hne (⟨apdu, rng, hev, -⟩ | hs | ⟨apdu, rng, hev, -⟩)
    · exact hne apdu rng hev
    · exact hsl hs
    · exact hne apdu rng hev
  cases e with
  | select =>
    have h := select_session (K := K) (S := S) c
    refine .of_none h.witness fun hah => ?_
    rw [show (step K S c .select).2.mgmtAuthenticated = false from h.mgmtAuthenticated] at hah
    cases hah
  | process apdu rng => exact managementInv_process hi apdu rng
  | confirm rng =>
    obtain ⟨hah, hw⟩ := (confirm_effect c rng).management
    exact hi.later hah hw nofun fun _ => hen nofun nofun
  | deny => exact hi.later rfl rfl nofun fun _ => hen nofun nofun

/-! ## What responses depend on -/

def withWitness (w : Option Witness) (c : Piv σ) : Piv σ := { c with witness := w }

/-- The same for the result of a command. -/
def carry (w : Option Witness) (x : Response × Piv σ) : Response × Piv σ :=
  (x.1, x.2.withWitness w)

section
variable (w : Option Witness) (c : Piv σ) (apdu : Apdu)

theorem storedOrDefault_carry (oid : Nat) (default : List UInt8) :
    (c.withWitness w).storedOrDefault S oid default =
      carry w (c.storedOrDefault S oid default) := by
  unfold storedOrDefault carry
  rcases objectIndex oid with _ | index
  · rfl
  · simp only [read_eq, show (c.withWitness w).store = c.store from rfl]
    rcases (S.read (recordObjectBase + index) 0 c.store).1 with _ | value <;> rfl

theorem getData_carry :
    (c.withWitness w).getData S apdu = carry w (c.getData S apdu) := by
  unfold getData
  split
  · rfl
  rcases requestObjectId apdu.data with _ | oid
  · rfl
  dsimp only
  iterate 2
    split
    · exact storedOrDefault_carry w c _ _
  split
  · rfl
  rcases objectIndex oid with _ | index
  · rfl
  simp only [read_eq, show (c.withWitness w).store = c.store from rfl]
  rcases (S.read (recordObjectBase + index) maxRecordBytes c.store).1 with _ | value <;> rfl

theorem writeAnswer_carry (record : Nat) (data : List UInt8) (answer : Response) :
    (c.withWitness w).writeAnswer S record data answer =
      carry w (c.writeAnswer S record data answer) := by
  simp only [writeAnswer_eq]
  rfl

theorem putData_carry :
    (c.withWitness w).putData S apdu = carry w (c.putData S apdu) := by
  unfold putData
  rw [show (c.withWitness w).mgmtAuthenticated = c.mgmtAuthenticated from rfl]
  split
  · rfl
  split
  · rfl
  rcases putRequest apdu.data with _ | ⟨oid, content⟩
  · rfl
  dsimp only
  split
  · rfl
  rcases objectIndex oid with _ | index
  · rfl
  dsimp only
  split
  · rfl
  · exact writeAnswer_carry w c _ _ _

theorem generateKeyPair_carry (rng : Rng) :
    (c.withWitness w).generateKeyPair K S apdu rng = carry w (c.generateKeyPair K S apdu rng) := by
  unfold generateKeyPair generateRsaKeyPair
  rw [show (c.withWitness w).mgmtAuthenticated = c.mgmtAuthenticated from rfl]
  split
  · rfl
  split
  · rfl
  rcases KeySlot.fromCode apdu.p2 with _ | slot
  · rfl
  rcases generateRequest apdu.data with _ | ⟨algorithm, pinPolicy, touchPolicy⟩
  · rfl
  dsimp only
  split
  · rcases generateKey K.bigUint rng with _ | key
    · rfl
    · exact writeAnswer_carry w c _ _ _
  rcases curveBytes algorithm with _ | keyLen
  · rfl
  dsimp only
  rcases generateScalar K algorithm keyLen 64 rng with _ | scalar
  · rfl
  dsimp only
  rcases publicPoint K algorithm scalar with _ | point
  · rfl
  · exact writeAnswer_carry w c _ _ _

theorem setSlot_withWitness (record : PinRecord) (slot : PinSlot) :
    (c.withWitness w).setSlot record slot = (c.setSlot record slot).withWitness w := by
  cases record <;> rfl

theorem slot_withWitness (record : PinRecord) : (c.withWitness w).slot record = c.slot record := by
  cases record <;> rfl

theorem finishMutation_carry (record : PinRecord) (mutated : Bool) (result : Except Sw Unit) :
    (c.withWitness w).finishMutation S record mutated result =
      carry w (c.finishMutation S record mutated result) := by
  cases mutated with
  | false => rfl
  | true =>
    have hp : (c.withWitness w).persistPin S record =
        ((c.persistPin S record).1, (c.persistPin S record).2.withWitness w) := by
      unfold persistPin writePinSlot
      simp only [write_eq, show (c.withWitness w).store = c.store from rfl, slot_withWitness]
      rcases (S.write record.record (c.slot record).encode.val c.store).1 with _ | _ <;>
        cases record <;> rfl
    simp only [finishMutation_true, hp]
    rfl

theorem verify_carry :
    (c.withWitness w).verify K S apdu = carry w (c.verify K S apdu) := by
  unfold verify
  split
  · rfl
  rcases PinRecord.fromReference apdu.p2 with _ | record
  · rfl
  simp only [slot_withWitness]
  split
  · rfl
  split
  · rfl
  rcases (c.slot record).verify K.sha256 apdu.data with ⟨result, slot⟩
  cases record with
  | pin => exact finishMutation_carry w { c.setSlot .pin slot with pinVerified := result.isOk } _ _ _
  | puk => exact finishMutation_carry w (c.setSlot .puk slot) _ _ _

theorem changeReferenceData_carry :
    (c.withWitness w).changeReferenceData K S apdu = carry w (c.changeReferenceData K S apdu) := by
  unfold changeReferenceData
  split
  · rfl
  rcases PinRecord.fromReference apdu.p2 with _ | record
  · rfl
  simp only [slot_withWitness]
  split
  · rfl
  split
  · rfl
  rcases (c.slot record).change K.sha256 (apdu.data.take 8) (apdu.data.drop 8) with ⟨result, slot⟩
  rw [setSlot_withWitness]
  split
  · exact finishMutation_carry w { c.setSlot record slot with pinVerified := true } _ _ _
  · exact finishMutation_carry w (c.setSlot record slot) _ _ _

theorem resetRetryCounter_carry :
    (c.withWitness w).resetRetryCounter K S apdu = carry w (c.resetRetryCounter K S apdu) := by
  unfold resetRetryCounter
  split
  · rfl
  split
  · rfl
  simp only [show (c.withWitness w).puk = c.puk from rfl,
    show (c.withWitness w).pin = c.pin from rfl]
  rcases c.puk.verify K.sha256 (apdu.data.take 8) with ⟨sw | ok, puk⟩
  · exact finishMutation_carry w { c with puk } _ _ _
  dsimp only
  split
  · rfl
  · exact finishMutation_carry w { c with
      puk, pin := (c.pin.unblock K.sha256 (apdu.data.drop 8)).2, pinVerified := false } _ _ _

theorem completeSign_carry (slot : KeySlot) (algorithm : UInt8) (pinPolicy : PinPolicyCode)
    (touchPolicy : TouchPolicy) (digest : List UInt8) (rng : Rng) :
    (c.withWitness w).completeSign K S slot algorithm pinPolicy touchPolicy digest rng =
      carry w (c.completeSign K S slot algorithm pinPolicy touchPolicy digest rng) := by
  unfold completeSign completeRsaSign
  simp only [read_eq, show (c.withWitness w).store = c.store from rfl]
  split
  · split
    · rcases (S.read slot.record keyRecordBytes c.store).1 with _ | record
      · rfl
      dsimp only
      rcases rsaRecordKey record.val with _ | key
      · rfl
      dsimp only
      rcases applyPrivate K.bigUint key _ rng with _ | signature <;> rfl
    · rfl
  · rcases (S.read slot.record (4 + 48) c.store).1 with _ | record
    · rfl
    rcases curveBytes algorithm with _ | keyLen
    · rfl
    dsimp only
    split
    · rfl
    rcases signPrehash K algorithm _ digest with _ | signature <;> rfl

theorem sign_carry (rng : Rng) :
    (c.withWitness w).sign K S apdu rng = carry w (c.sign K S apdu rng) := by
  unfold sign
  rcases KeySlot.fromCode apdu.p2 with _ | slot
  · rfl
  simp only [read_eq, show (c.withWitness w).store = c.store from rfl,
    show (c.withWitness w).pinVerified = c.pinVerified from rfl]
  rcases (S.read slot.record keyRecordBytes c.store).1 with _ | record
  · rfl
  dsimp only
  split
  · rfl
  split
  · rfl
  rcases recordPolicies record.val with _ | ⟨pinPolicy, touchPolicy⟩
  · rfl
  dsimp only
  split
  · rfl
  rcases (Tlv.find apdu.data 0x7C).bind (Tlv.find · 0x81) with _ | digest
  · rfl
  rcases signBytes (record.val.getD 0 0) with _ | width
  · rfl
  dsimp only
  rcases leftPad width digest with _ | padded
  · rfl
  -- Whether a touch is needed does not depend on the nonce.
  have htc : ∀ store : σ,
      touchRequired touchPolicy { c.withWitness w with store, pinVerified := c.pinVerified } =
        touchRequired touchPolicy { c with store } := fun _ => by cases touchPolicy <;> rfl
  simp only [htc]
  split
  · rcases BoundedBytes.ofSlice 256 padded with _ | stashed <;> rfl
  · exact completeSign_carry w { c with store := _ } _ _ _ _ _ _

theorem confirmPresence_carry (rng : Rng) :
    (c.withWitness w).confirmPresence K S rng = carry w (c.confirmPresence K S rng) := by
  unfold confirmPresence
  rw [show (c.withWitness w).pendingSign = c.pendingSign from rfl]
  rcases c.pendingSign with _ | pending
  · rfl
  simp only [read_eq, show (c.withWitness w).store = c.store from rfl]
  rcases (S.read pending.slot.record keyRecordBytes c.store).1 with _ | record
  · rfl
  dsimp only
  split
  · rfl
  rcases recordPolicies record.val with _ | ⟨pinPolicy, touchPolicy⟩
  · rfl
  · exact completeSign_carry w { c with pendingSign := none, store := _ } _ _ _ _ _ _

end

section
variable {isMutual : Bool} {n n' : BoundedBytes 16}

/-- The states are the same, or the same but for the nonce that is pending in them. -/
def SameButNonce (isMutual : Bool) (n n' : BoundedBytes 16) (c c' : Piv σ) : Prop :=
  c = c' ∨ ∃ d : Piv σ, c = d.withWitness (some ⟨isMutual, n⟩) ∧
    c' = d.withWitness (some ⟨isMutual, n'⟩)

/-- A request that does not return the nonce takes it out and is refused. -/
theorem answerWitness_refused {pending : Witness}
    (h : submitted template pending ≠ some pending.nonce.val) :
    c.answerWitness K template pending =
      (.status (if (submitted template pending).isSome then .securityStatusNotSatisfied
        else .wrongData), c) := by
  unfold answerWitness
  rcases hs : submitted template pending with _ | value
  · rfl
  have hct : constantTimeEq value pending.nonce.val = false := by
    rw [Bool.eq_false_iff]
    intro hct
    rw [hs, ctEq_iff.mp hct] at h
    exact h rfl
  simp only [hct]
  rfl

theorem authenticateManagement_sameButNonce (d : Piv σ) (rng : Rng) (hn : ¬Submits apdu n.val)
    (hn' : ¬Submits apdu n'.val) :
    let x := (d.withWitness (some ⟨isMutual, n⟩)).authenticateManagement K apdu rng
    let y := (d.withWitness (some ⟨isMutual, n'⟩)).authenticateManagement K apdu rng
    x.1 = y.1 ∧ SameButNonce isMutual n n' x.2 y.2 := by
  have hkp : SameButNonce isMutual n n' (d.withWitness (some ⟨isMutual, n⟩))
      (d.withWitness (some ⟨isMutual, n'⟩)) := .inr ⟨d, rfl, rfl⟩
  unfold authenticateManagement
  simp only [show ∀ w p1, (d.withWitness w).acceptsAlgorithm p1 = d.acceptsAlgorithm p1 from
    fun _ _ => rfl]
  split
  · exact ⟨rfl, hkp⟩
  rcases hfn : Tlv.find apdu.data 0x7C with _ | template
  · exact ⟨rfl, hkp⟩
  have hne : ∀ m : BoundedBytes 16, ¬Submits apdu m.val →
      submitted template ⟨isMutual, m⟩ ≠ some m.val := by
    intro m hm hs
    refine hm ⟨template, hfn, ?_⟩
    cases isMutual with
    | true => exact .inl hs
    | false => exact .inr hs
  dsimp only [withWitness]
  rw [answerWitness_refused (hne n hn), answerWitness_refused (hne n' hn')]
  exact ⟨rfl, .inl rfl⟩

theorem setMgmtKey_sameButNonce (d : Piv σ) (apdu : Apdu) :
    let x := (d.withWitness (some ⟨isMutual, n⟩)).setMgmtKey S apdu
    let y := (d.withWitness (some ⟨isMutual, n'⟩)).setMgmtKey S apdu
    x.1 = y.1 ∧ SameButNonce isMutual n n' x.2 y.2 := by
  have hkp : ∀ c : Piv σ, SameButNonce isMutual n n' (c.withWitness (some ⟨isMutual, n⟩))
      (c.withWitness (some ⟨isMutual, n'⟩)) := fun c => .inr ⟨c, rfl, rfl⟩
  unfold setMgmtKey
  simp only [write_eq, show ∀ w, (d.withWitness w).mgmtAuthenticated = d.mgmtAuthenticated from
    fun _ => rfl, show ∀ w, (d.withWitness w).store = d.store from fun _ => rfl]
  split
  · exact ⟨rfl, hkp d⟩
  split
  · exact ⟨rfl, hkp d⟩
  rcases parseMgmtKey apdu.data with _ | mgmt
  · exact ⟨rfl, hkp d⟩
  dsimp only
  rcases (S.write recordMgmtKey mgmt.record d.store).1 with _ | _
  · exact ⟨rfl, hkp { d with store := (S.write recordMgmtKey mgmt.record d.store).2 }⟩
  · exact ⟨rfl, .inl rfl⟩

/-- Two runs through the same test are related when both branches are. -/
theorem ite_related {α : Type} {R : α → α → Prop} {p : Prop} [Decidable p] {a b a' b' : α}
    (hth : R a a') (hel : R b b') : R (if p then a else b) (if p then a' else b') := by
  by_cases hp : p
  · rw [if_pos hp, if_pos hp]
    exact hth
  · rw [if_neg hp, if_neg hp]
    exact hel

/-- What a command answers depends on a pending nonce only when the command returns it. -/
theorem process_sameButNonce (d : Piv σ) (rng : Rng) (hn : ¬Submits apdu n.val)
    (hn' : ¬Submits apdu n'.val) :
    let x := (d.withWitness (some ⟨isMutual, n⟩)).process K S apdu rng
    let y := (d.withWitness (some ⟨isMutual, n'⟩)).process K S apdu rng
    x.1 = y.1 ∧ SameButNonce isMutual n n' x.2 y.2 := by
  let R : Response × Piv σ → Response × Piv σ → Prop :=
    fun x y => x.1 = y.1 ∧ SameButNonce isMutual n n' x.2 y.2
  have hcr : ∀ x : Response × Piv σ,
      R (carry (some ⟨isMutual, n⟩) x) (carry (some ⟨isMutual, n'⟩) x) :=
    fun x => ⟨rfl, .inr ⟨x.2, rfl, rfl⟩⟩
  change R _ _
  -- One case for each instruction of the dispatch, in its order.
  refine ite_related ?_ (ite_related ?_ (ite_related ?_ (ite_related ?_ (ite_related ?_
    (ite_related ?_ (ite_related ?_ (ite_related ?_ ?_)))))))
  · rw [getData_carry, getData_carry]
    exact hcr _
  · rw [putData_carry, putData_carry]
    exact hcr _
  · rw [verify_carry, verify_carry]
    exact hcr _
  · rw [changeReferenceData_carry, changeReferenceData_carry]
    exact hcr _
  · rw [resetRetryCounter_carry, resetRetryCounter_carry]
    exact hcr _
  · rw [generateKeyPair_carry, generateKeyPair_carry]
    exact hcr _
  · refine ite_related ?_ ?_
    · exact authenticateManagement_sameButNonce d rng hn hn'
    split
    · rw [sign_carry, sign_carry]
      exact hcr _
    · exact hcr (_, d)
  · exact setMgmtKey_sameButNonce d apdu
  · exact hcr (_, d)

def Returns (value : List UInt8) (e : Event) : Prop :=
  ∃ apdu rng, e = .process apdu rng ∧ Submits apdu value

theorem step_sameButNonce (h : SameButNonce isMutual n n' c c')
    (he : ¬Returns n.val e ∧ ¬Returns n'.val e) :
    (step K S c e).1 = (step K S c' e).1 ∧
      SameButNonce isMutual n n' (step K S c e).2 (step K S c' e).2 := by
  obtain rfl | ⟨d, rfl, rfl⟩ := h
  · exact ⟨rfl, .inl rfl⟩
  cases e with
  | select => exact ⟨rfl, .inl rfl⟩
  | process apdu rng =>
    exact process_sameButNonce d rng (fun h => he.1 ⟨apdu, rng, rfl, h⟩)
      (fun h => he.2 ⟨apdu, rng, rfl, h⟩)
  | confirm rng =>
    simp only [step, confirmPresence_carry]
    exact ⟨rfl, .inr ⟨_, rfl, rfl⟩⟩
  | deny => exact ⟨rfl, .inr ⟨{ d with pendingSign := none }, rfl, rfl⟩⟩

/-- Over a run in which neither of two nonces is returned, the answers are those for either of
  them: they carry nothing of the nonce that is pending. -/
theorem answers_of_witness (c : Piv σ) {es : List Event}
    (hes : ∀ e ∈ es, ¬Returns n.val e ∧ ¬Returns n'.val e) :
    answers (step K S) (c.withWitness (some ⟨isMutual, n⟩)) es =
      answers (step K S) (c.withWitness (some ⟨isMutual, n'⟩)) es :=
  answers_eq_of_related
    (fun _ _ _ => step_sameButNonce) (.inr ⟨c, rfl, rfl⟩) (Runs.every_of_mem hes)

end

def withCipher (K : PivCrypto) (tdes : FixedBytes 24 → FixedBytes 8 → FixedBytes 8)
    (aes : List UInt8 → FixedBytes 16 → FixedBytes 16) : PivCrypto :=
  { K with tdesEncrypt := tdes, aesEncrypt := aes }

/-- The command returns the nonce that is pending. -/
def ReturnsNonce (c : Piv σ) (apdu : Apdu) : Prop :=
  ∃ template w, managementTemplate c apdu = some template ∧ c.witness = some w ∧
    submitted template w = some w.nonce.val

/-- The event returns no pending nonce, and the two ciphers agree on the block a nonce would be
  drawn from. -/
def AgreesOnNonce (K K' : PivCrypto) (c : Piv σ) (e : Event) : Prop :=
  ∀ apdu rng, e = .process apdu rng → ¬ReturnsNonce c apdu ∧
    c.mgmt.encrypt K (fillBytes c.mgmt.blockLen rng).1.val =
      c.mgmt.encrypt K' (fillBytes c.mgmt.blockLen rng).1.val

section
variable {tdes : FixedBytes 24 → FixedBytes 8 → FixedBytes 8}
  {aes : List UInt8 → FixedBytes 16 → FixedBytes 16}

theorem authenticateManagement_of_cipher (hi : apdu.ins = insGeneralAuthenticate)
    (hp2 : apdu.p2 = refManagement)
    (h : AgreesOnNonce K (withCipher K tdes aes) c (.process apdu rng)) :
    c.authenticateManagement K apdu rng =
      c.authenticateManagement (withCipher K tdes aes) apdu rng := by
  obtain ⟨hr, hag⟩ := h apdu rng rfl
  unfold authenticateManagement
  split
  · rfl
  rename_i ha
  have ht : managementTemplate c apdu = Tlv.find apdu.data 0x7C :=
    if_pos ⟨hi, hp2, by simpa using ha⟩
  rcases hfn : Tlv.find apdu.data 0x7C with _ | template
  · rfl
  rcases hw : c.witness with _ | w
  · -- The only block that is encrypted is the drawn one.
    simp only [drawWitness]
    split
    · rfl
    split
    · rfl
    rcases hnc : BoundedBytes.ofSlice 16 (fillBytes c.mgmt.blockLen rng).1.val with _ | nonce
    · rfl
    dsimp only
    rw [BoundedBytes.ofSlice_eq_some.mp hnc, hag]
  · have hne : submitted template w ≠ some w.nonce.val := fun hs =>
      hr ⟨template, w, ht.trans hfn, hw, hs⟩
    dsimp only
    rw [answerWitness_refused hne, answerWitness_refused hne]

theorem generateScalar_of_cipher (algorithm : UInt8) (keyLen tries : Nat) (rng : Rng) :
    generateScalar (withCipher K tdes aes) algorithm keyLen tries rng =
      generateScalar K algorithm keyLen tries rng := by
  induction tries generalizing rng with
  | zero => rfl
  | succ tries ih =>
    simp only [generateScalar, ih]
    rfl

theorem generateKeyPair_of_cipher (c : Piv σ) (apdu : Apdu) (rng : Rng) :
    c.generateKeyPair K S apdu rng = c.generateKeyPair (withCipher K tdes aes) S apdu rng := by
  unfold generateKeyPair
  split
  · rfl
  split
  · rfl
  rcases KeySlot.fromCode apdu.p2 with _ | slot
  · rfl
  rcases generateRequest apdu.data with _ | ⟨algorithm, pinPolicy, touchPolicy⟩
  · rfl
  dsimp only
  split
  · have hb : (withCipher K tdes aes).bigUint = K.bigUint := rfl
    unfold generateRsaKeyPair
    rw [hb]
  rcases curveBytes algorithm with _ | keyLen
  · rfl
  dsimp only
  rw [generateScalar_of_cipher]
  rcases generateScalar K algorithm keyLen 64 rng with _ | scalar <;> rfl

theorem step_of_cipher (h : AgreesOnNonce K (withCipher K tdes aes) c e) :
    step K S c e = step (withCipher K tdes aes) S c e := by
  cases e with
  | process apdu rng =>
    -- Only key generation and management authentication take the primitives apart.
    refine ite_congr rfl (fun _ => rfl) fun _ => ite_congr rfl (fun _ => rfl) fun _ =>
      ite_congr rfl (fun _ => rfl) fun _ => ite_congr rfl (fun _ => rfl) fun _ =>
      ite_congr rfl (fun _ => rfl) fun _ =>
      ite_congr rfl (fun _ => generateKeyPair_of_cipher c apdu rng) fun _ =>
      ite_congr rfl (fun hi => ?_) fun _ => ite_congr rfl (fun _ => rfl) fun _ => rfl
    unfold generalAuthenticate
    split
    · exact authenticateManagement_of_cipher hi ‹_› h
    · rfl
  | select => rfl
  | confirm rng => rfl
  | deny => rfl

/-- Over a run in which no pending nonce is returned, the answers depend on the cipher only
  through its values on drawn nonces. -/
theorem answers_of_cipher {es : List Event}
    (hes : Runs.Every (fun c e => (step K S c e).2) (AgreesOnNonce K (withCipher K tdes aes)) c es) :
    answers (step K S) c es = answers (step (withCipher K tdes aes) S) c es := by
  refine answers_eq_of_related ?_ rfl hes
  rintro c _ e rfl h
  rw [step_of_cipher h]
  exact ⟨rfl, rfl⟩

end

/-! ## The protocol -/

/-- PUT DATA, SET MANAGEMENT KEY and GENERATE succeed only after an exchange of the session
  returned the nonce of the latest exchange before it, and a nonce is compared once. The answers
  carry nothing of a pending nonce, and the cipher is applied to drawn nonces only until one is
  returned. -/
theorem management_authentication (K : PivCrypto) (S : PivStore σ) (store : σ) :
    (∀ es, Along (fun e past => (Administers e → Since (Proves K) IsSelect past) ∧
        (ComparesNonce e → Since (fun d _ => ∃ nonce, Draws K nonce d) ComparesNonce past))
      (history (step K S) (new store) es)) ∧
    (∀ (c : Piv σ) isMutual (n n' : BoundedBytes 16) es,
      (∀ e ∈ es, ¬Returns n.val e ∧ ¬Returns n'.val e) →
      answers (step K S) (c.withWitness (some ⟨isMutual, n⟩)) es =
        answers (step K S) (c.withWitness (some ⟨isMutual, n'⟩)) es) ∧
    ∀ (c : Piv σ) tdes aes es,
      Runs.Every (fun c e => (step K S c e).2) (AgreesOnNonce K (withCipher K tdes aes)) c es →
      answers (step K S) c es = answers (step (withCipher K tdes aes) S) c es := by
  refine ⟨fun es => ?_, fun c _ _ _ _ h => answers_of_witness c h,
    fun _ _ _ _ h => answers_of_cipher h⟩
  have hinit : ManagementInv K (new store) [] := .of_none rfl nofun
  refine along_history_of_all hinit (fun c past e hinv => ⟨⟨?_, ?_⟩, managementInv_step hinv e⟩) es
  · exact fun h => hinv.authenticated (administers_flag h)
  · rintro ⟨_, _, _, w, -, -, hw, -⟩
    change c.witness = some w at hw
    exact hinv.fresh (by rw [hw]; exact nofun)

/-- A card on which a nonce of this byte is pending. -/
def pendingNonce (byte : UInt8) : Piv (List (Nat × List UInt8)) :=
  (new []).withWitness (some ⟨false, List.replicate 8 byte, by simp⟩)

/-- A wrong nonce is refused alike whichever is pending, and a nonce is drawn alike with any cipher
  that has the same encryption of it. -/
theorem management_authentication_unreturned :
    answers (step exampleCrypto memoryStore) (pendingNonce 1) [.process returnNonce zeros] =
      answers (step exampleCrypto memoryStore) (pendingNonce 2) [.process returnNonce zeros] ∧
    answers (step exampleCrypto memoryStore) (new []) [.process askNonce zeros] =
      answers (step (withCipher exampleCrypto (fun key block => if block = FixedBytes.zero 8 then
        exampleCrypto.tdesEncrypt key block else block) fun _ block => block) memoryStore) (new [])
        [.process askNonce zeros] := by
  obtain ⟨-, hnonce, hcipher⟩ := management_authentication exampleCrypto memoryStore []
  refine ⟨hnonce (new []) false _ _ _ (List.forall_mem_singleton.mpr ?_),
    hcipher (new []) _ _ [_] ⟨?_, trivial⟩⟩
  · constructor <;>
    · rintro ⟨_, _, ⟨⟩, template, ht, h⟩
      cases ht
      rcases h with h | h <;> cases h
  · rintro _ _ ⟨⟩
    refine ⟨?_, rfl⟩
    rintro ⟨_, _, _, ⟨⟩, _⟩

/-- An exchange that returns the nonce which the request right before it drew. -/
def ProvesImmediately (K : PivCrypto) (e : Log σ) (past : List (Log σ)) : Prop :=
  ∃ apdu rng nonce, e.event = .process apdu rng ∧ (managementTemplate e.before apdu).isSome ∧
    Submits apdu nonce ∧ Since (fun d _ => Draws K nonce d) ManagementRequest past

/-- A nonce is drawn, a request with another algorithm is refused, and the nonce is returned. -/
def skippedRequest : List Event :=
  [.select, .process askNonce zeros, .process { askNonce with p1 := algAes128 } zeros,
    .process returnNonce zeros, .process putPrinted zeros]

theorem nonce_survives_refused_request :
    ¬Along (fun e past => Administers e → Since (ProvesImmediately exampleCrypto) IsSelect past)
      (history (step exampleCrypto memoryStore) (new []) skippedRequest) := by
  rintro ⟨hput, -⟩
  have hsince := hput ⟨putPrinted, zeros, rfl, by decide +kernel, .inl rfl⟩
  -- The request that returns the nonce comes right after the refused one, which drew none.
  obtain h | ⟨-, h | ⟨-, h | ⟨-, h | ⟨hselect, -⟩⟩⟩⟩ := hsince
  · obtain ⟨apdu, rng, nonce, -, -, -, hdraw | ⟨hrequest, -⟩⟩ := h
    · obtain ⟨apdu, rng, tag, encrypted, hevent, hsome, -⟩ := hdraw
      cases hevent
      exact absurd hsome (by decide +kernel)
    · exact hrequest ⟨_, _, rfl, rfl, rfl⟩
  · obtain ⟨apdu, rng, nonce, hevent, hsome, -⟩ := h
    cases hevent
    exact absurd hsome (by decide +kernel)
  · obtain ⟨apdu, rng, nonce, -, -, -, hdraw | ⟨-, hnone⟩⟩ := h
    · obtain ⟨apdu, rng, tag, encrypted, hevent, -⟩ := hdraw
      cases hevent
    · exact hnone
  · obtain ⟨apdu, rng, nonce, hevent, -⟩ := h
    cases hevent
  · exact hselect rfl

end AegisToken.Applets.Piv
