/-
  The retry counters of the PIV applet on a store whose writes may fail.
  Each PIN slot keeps the three counters of a retry budget: the one in RAM, the one that its record
  would load, and the session floor. A wrong presentation and a renewal move the RAM counter and
  persist the slot; `persistPin` leaves the record at the RAM counter, or the floor under it. So a
  SELECT never gives an attempt back.
-/
import AegisToken.Lib.RetryBudget
import AegisToken.Applets.PivFailClosed

namespace AegisToken.Applets
open ByteCodec History RetryBudget

theorem PinSlot.attempted_lowers {slot : PinSlot} {full : Nat} (hc : slot.Compares) :
    Lowers full slot.retriesRemaining.toNat slot.attempted.retriesRemaining.toNat
      (some .wrong) := by
  have := PinSlot.attempted_toNat hc.2
  change slot.attempted.retriesRemaining.toNat < slot.retriesRemaining.toNat
  omega

namespace Piv

variable {σ : Type} {K : PivCrypto} {S : PivStore σ} {content : σ → Nat → Option (List UInt8)}
  {apdu : Apdu} {target : PinRecord}

/-! ## Counters and marks -/

def fullAttempts : Nat := pivPinPolicy.maxAttempts.toNat

/-- The attempts a record holds; a blank or unreadable record gives a fresh slot. -/
def storedAttempts (content : σ → Nat → Option (List UInt8)) (store : σ) (record : PinRecord) : Nat :=
  match (content store record.record).map (PinSlot.decode pivPinPolicy) with
  | some (.ok slot) => slot.retriesRemaining.toNat
  | _ => fullAttempts

def counters (content : σ → Nat → Option (List UInt8)) (record : PinRecord) (c : Piv σ) : Counters :=
  ⟨(c.slot record).retriesRemaining.toNat, storedAttempts content c.store record,
    (c.floor record).toNat⟩

/-- The slot that a command sets when its candidate is right: CHANGE the slot it names, RESET
  RETRY COUNTER the PIN, if the new one is long enough. -/
def renewedSlot (apdu : Apdu) : Option PinRecord :=
  if apdu.ins = insChangeReferenceData then PinRecord.fromReference apdu.p2
  else if apdu.ins = insResetRetryCounter ∧
      pivPinPolicy.minLen ≤ effectivePinLen (apdu.data.drop 8) then some .pin
  else none

def commandMark (K : PivCrypto) (record : PinRecord) (c : Piv σ) (apdu : Apdu) : Option Mark :=
  match presented apdu with
  | none => none
  | some (target, pin) =>
    if (c.slot target).Accepts K.sha256 pin then
      if renewedSlot apdu = some record then some .renewed else none
    else if (c.slot target).Compares ∧ target = record then some .wrong
    else none

/-- What an entry is to a slot. -/
def pinMark (K : PivCrypto) (record : PinRecord) (e : Log σ) : Option Mark :=
  match e.event with
  | .process apdu _ => commandMark K record e.before apdu
  | _ => none

theorem commandMark_ne_wrong {record : PinRecord} {c : Piv σ}
    (h : ∀ pin, presented apdu = some (record, pin) → (c.slot record).Compares →
      (c.slot record).Accepts K.sha256 pin) :
    commandMark K record c apdu ≠ some .wrong := by
  unfold commandMark
  split
  · exact nofun
  rename_i target pin hpr
  split
  · split <;> exact nofun
  rename_i hrg
  rw [if_neg]
  · exact nofun
  · rintro ⟨hc, rfl⟩
    exact hrg (h pin hpr hc)

/-- A PIN that is accepted renews the slot that its command names. -/
theorem commandMark_renews (record : PinRecord) {target slot : PinRecord} {c : Piv σ}
    {pin : List UInt8} (hpr : presented apdu = some (target, pin))
    (ha : (c.slot target).Accepts K.sha256 pin) (hr : renewedSlot apdu = some slot) :
    commandMark K record c apdu = if slot = record then some .renewed else none := by
  unfold commandMark
  rw [hpr]
  dsimp only
  rw [if_pos ha, hr]
  simp only [Option.some.injEq]

theorem commandMark_wrong (record : PinRecord) {c : Piv σ} {pin : List UInt8}
    (hpr : presented apdu = some (target, pin)) (hc : (c.slot target).Compares)
    (hwr : ¬(c.slot target).Accepts K.sha256 pin) :
    commandMark K record c apdu = if target = record then some .wrong else none := by
  unfold commandMark
  rw [hpr]
  simp only [if_neg hwr, hc, true_and]

theorem renewedSlot_change {old : List UInt8} (hi : apdu.ins = insChangeReferenceData)
    (hpr : presented apdu = some (target, old)) :
    renewedSlot apdu = some target := by
  rw [presented_change hi] at hpr
  split at hpr
  · obtain ⟨named, hnm, heq⟩ := Option.map_eq_some_iff.mp hpr
    cases heq
    rw [renewedSlot, if_pos hi, hnm]
  · cases hpr

/-! ## One step -/

structure RetryInv (content : σ → Nat → Option (List UInt8)) (record : PinRecord) (initial : Nat)
    (marks : List (Option Mark)) (c : Piv σ) : Prop where
  policy : (c.slot record).policy = pivPinPolicy
  within : Within fullAttempts initial marks (counters content record c)
  provisioned : c.provisioned = true

section
variable {record : PinRecord} {initial : Nat} {marks : List (Option Mark)} {mark : Option Mark}
  {c c' c₁ : Piv σ} (hS : Holds S content) (h : RetryInv content record initial marks c)

include h in
theorem RetryInv.keep
    (hsl : c'.slot record = c.slot record) (hfl : c'.floor record = c.floor record)
    (hcn : content c'.store record.record = content c.store record.record)
    (hpr : c'.provisioned = c.provisioned) (hmr : mark ≠ some .wrong) :
    RetryInv content record initial (mark :: marks) c' := by
  have hsm : counters content record c' = counters content record c := by
    unfold counters storedAttempts
    rw [hsl, hfl, hcn]
  refine ⟨hsl ▸ h.policy, ?_, hpr.trans h.provisioned⟩
  rw [hsm]
  exact h.within.step (lowers_self hmr h.within.live_le) h.within.reload_le h.within.floor_le

/-- The PIN slots and their floors are the same. -/
structure SameSlots (c c' : Piv σ) : Prop where
  pin : c'.pin = c.pin
  puk : c'.puk = c.puk
  pinFloor : c'.pinFloor = c.pinFloor
  pukFloor : c'.pukFloor = c.pukFloor
  provisioned : c'.provisioned = c.provisioned

include h in
/-- A step that keeps both slots and the record of this one, and is no wrong presentation. -/
theorem RetryInv.keepSlots
    (hcn : content c'.store record.record = content c.store record.record)
    (hmr : mark ≠ some .wrong) (hsm : SameSlots c c' := by exact ⟨rfl, rfl, rfl, rfl, rfl⟩) :
    RetryInv content record initial (mark :: marks) c' := by
  refine h.keep ?_ ?_ hcn hsm.provisioned hmr
  · cases record with
    | pin => exact hsm.pin
    | puk => exact hsm.puk
  · cases record with
    | pin => exact hsm.pinFloor
    | puk => exact hsm.pukFloor

theorem storedAttempts_of_written (hp : (c.slot record).policy = pivPinPolicy)
    (hr : (c.slot record).retriesRemaining.toNat ≤ fullAttempts) {st : σ}
    (h : content st record.record = some (c.slot record).encode.val) :
    storedAttempts content st record = (c.slot record).retriesRemaining.toNat := by
  have hd : PinSlot.decode pivPinPolicy (c.slot record).encode.val = .ok (c.slot record) := by
    rw [← hp]
    refine PinSlot.decode_encode (UInt8.le_iff_toNat_le.mpr ?_)
    rw [hp]
    exact hr
  unfold storedAttempts
  rw [h, Option.map_some, hd]

/-- The slots stay, the record is written, and the floor moves to the counter or down to it. -/
theorem persistPin_spec (record : PinRecord) (c : Piv σ) :
    (∀ other, (c.persistPin S record).2.slot other = c.slot other) ∧
    (c.persistPin S record).2.store =
      (S.write record.record (c.slot record).encode.val c.store).2 ∧
    (c.persistPin S record).2.provisioned = c.provisioned ∧
    ((c.persistPin S record).2.floor record =
      if (S.write record.record (c.slot record).encode.val c.store).1 then
        (c.slot record).retriesRemaining
      else min (c.floor record) (c.slot record).retriesRemaining) ∧
    ∀ other, other ≠ record → (c.persistPin S record).2.floor other = c.floor other := by
  unfold persistPin writePinSlot
  rw [write_eq]
  rcases (S.write record.record (c.slot record).encode.val c.store).1 with _ | _ <;> cases record <;>
    refine ⟨fun other => ?_, rfl, rfl, rfl, fun other hne => ?_⟩ <;>
    cases other <;> first | rfl | exact absurd rfl hne

include hS h in
/-- A slot that moved as its mark says, and is persisted. -/
theorem RetryInv.persist (hp : (c₁.slot record).policy = pivPinPolicy)
    (hlw : Lowers fullAttempts (c.slot record).retriesRemaining.toNat
      (c₁.slot record).retriesRemaining.toNat mark) (hfl : c₁.floor record = c.floor record)
    (hpr : c₁.provisioned = c.provisioned) :
    RetryInv content record initial (mark :: marks) (c₁.persistPin S record).2 := by
  have hr := hlw.le_full h.within.live_le
  have hfl' : (c₁.floor record).toNat ≤ fullAttempts := hfl ▸ h.within.floor_le
  obtain ⟨hsl, hst, hpv, hfr, -⟩ := persistPin_spec (S := S) record c₁
  have hk : counters content record (c₁.persistPin S record).2 = ⟨_, _, _⟩ := rfl
  rw [hsl, hst, hfr] at hk
  refine ⟨hsl record ▸ hp, ?_, hpv.trans (hpr.trans h.provisioned)⟩
  rw [hk]
  -- The write worked and the record holds the counter, or the floor comes down to it.
  rcases hw : (S.write record.record (c₁.slot record).encode.val c₁.store).1 with _ | _
  · rw [if_neg Bool.false_ne_true, toNat_min]
    exact h.within.step hlw (reload_le_of_floor (Nat.min_le_right _ _))
      (Nat.le_trans (Nat.min_le_left _ _) hfl')
  · exact h.within.step hlw
      (reload_le_of_saved (storedAttempts_of_written hp hr (hS.written _ _ _ hw))) hr

include hS h in
theorem RetryInv.persist_other {other : PinRecord} (hne : record ≠ other)
    (hsl : c₁.slot record = c.slot record)
    (hfl : c₁.floor record = c.floor record) (hst : c₁.store = c.store)
    (hpr : c₁.provisioned = c.provisioned) (hmr : mark ≠ some .wrong) :
    RetryInv content record initial (mark :: marks) (c₁.persistPin S other).2 := by
  have hr : record.record ≠ other.record := by
    cases record <;> cases other <;> first | exact absurd rfl hne | decide
  obtain ⟨hsl', hst', hpv, -, hfl'⟩ := persistPin_spec (S := S) other c₁
  refine h.keep ((hsl' _).trans hsl) ((hfl' _ hne).trans hfl) ?_ (hpv.trans hpr) hmr
  rw [hst', hS.others _ _ _ _ hr, hst]

include hS h in
/-- One slot moves as its mark says and is persisted; the other one stays. -/
theorem RetryInv.moved (target : PinRecord) (verified : Bool) {slot : PinSlot} {m : Mark}
    (hsl : target = record → slot.policy = pivPinPolicy ∧
      Lowers fullAttempts (c.slot record).retriesRemaining.toNat slot.retriesRemaining.toNat
        (some m)) :
    RetryInv content record initial ((if target = record then some m else none) :: marks)
      (({ c.setSlot target slot with pinVerified := verified } : Piv σ).persistPin S target).2 := by
  by_cases heq : target = record
  · subst heq
    obtain ⟨hp, hlw⟩ := hsl rfl
    cases target with
    | pin | puk => exact h.persist hS hp hlw rfl rfl
  · rw [if_neg heq]
    refine h.persist_other hS (Ne.symm heq) ?_ ?_ ?_ ?_ nofun
    · cases record <;> cases target <;> first | exact absurd rfl heq | rfl
    · cases record <;> cases target <;> rfl
    · cases target <;> rfl
    · cases target <;> rfl

theorem installed_lowers {slot : PinSlot} (hp : slot.policy = pivPinPolicy)
    (pin : List UInt8) (live : Nat) :
    Lowers fullAttempts live (slot.installed K.sha256 pin).retriesRemaining.toNat
      (some .renewed) := by
  change slot.policy.maxAttempts.toNat ≤ fullAttempts
  rw [hp]
  exact Nat.le_refl _

include hS h

theorem Effect.retries {rng : Rng} {answer : Response} (he : Effect K S c apdu rng answer c') :
    RetryInv content record initial (commandMark K record c apdu :: marks) c' := by
  -- Other commands present nothing, and write other records.
  have hn : ∀ {ins : UInt8}, apdu.ins = ins → ¬isPinCommand ins →
      commandMark K record c apdu ≠ some .wrong :=
    fun h hne => commandMark_ne_wrong fun pin hp => absurd (presented_ins hp) (h ▸ hne)
  have hwr : ∀ {number : Nat} {data : List UInt8}, record.record ≠ number →
      content (S.write number data c.store).2 record.record = content c.store record.record :=
    fun hne => hS.others _ _ _ _ hne
  have hr : record.record ≤ 2 := by cases record <;> decide
  have hmg : record.record ≠ recordMgmtKey := Nat.ne_of_lt (Nat.lt_succ_of_le hr)
  cases he with
  | idle hrd _ _ hqt =>
    exact h.keepSlots (by rw [hrd.content hS]) (hn rfl hqt.1)
  | objectWritten number data hi _ hbs =>
    refine h.keepSlots (hwr ?_) (hn hi nofun)
    exact Nat.ne_of_lt (Nat.lt_of_le_of_lt hr (Nat.lt_of_lt_of_le (by decide) hbs))
  | keyWritten slot data _ hi =>
    exact h.keepSlots (hwr (record.record_ne_key slot).symm) (hn hi nofun)
  | mgmtKeySet _ hi | mgmtKeyKept _ hi =>
    exact h.keepSlots (hwr hmg) (hn hi nofun)
  | nonceDrawn _ _ ht | nonceRefused ht | nonceProved ht =>
    exact h.keepSlots rfl (hn (template_ins ht) nofun)
  | pinRefused verified _ _ hrg =>
    exact h.keepSlots rfl (commandMark_ne_wrong fun pin => hrg record pin)
  | pinAccepted target _ hpr ha =>
    refine h.keepSlots rfl (commandMark_ne_wrong fun pin hp _ => ?_)
    cases hpr.symm.trans hp
    exact ha
  | @pinWrong pin c₁ target verified hpr hm hwn _ hc₁ =>
    subst hc₁
    rw [commandMark_wrong record hpr hm hwn]
    refine h.moved hS target verified fun heq => ?_
    subst heq
    exact ⟨h.policy, PinSlot.attempted_lowers hm⟩
  | @pinChanged old c₁ target hi hpr ha hc₁ =>
    subst hc₁
    rw [commandMark_renews record hpr ha (renewedSlot_change hi hpr)]
    refine h.moved hS target _ fun heq => ?_
    subst heq
    exact ⟨h.policy, installed_lowers h.policy _ _⟩
  | @pinUnblocked puk c₁ hi hpr ha hc₁ hmn =>
    subst hc₁
    have hrn : renewedSlot apdu = some .pin := by
      rw [renewedSlot, if_neg (by rw [hi]; decide), if_pos ⟨hi, hmn⟩]
    rw [commandMark_renews record hpr ha hrn]
    refine h.moved hS .pin false fun heq => ?_
    subst heq
    exact ⟨h.policy, installed_lowers h.policy _ _⟩
  | touchAsked hs _ hrd =>
    exact h.keepSlots (by rw [hrd.content hS]) (hn (signSlot_ins hs) nofun)
  | signed hs _ _ _ _ _ hrd =>
    refine h.keepSlots ?_ (hn (signSlot_ins hs) nofun)
    change content (S.read _ _ _).2 _ = _
    rw [hS.read_content, hrd.content hS]

theorem Confirmed.retries {rng : Rng} {answer : Response}
    (he : Confirmed K S c rng answer c') :
    RetryInv content record initial (none :: marks) c' := by
  cases he with
  | nothing => exact h.keep rfl rfl rfl rfl nofun
  | failed _ hrd =>
    exact h.keepSlots (by rw [hrd.content hS]) nofun
  | signed _ _ _ hrd =>
    refine h.keepSlots ?_ nofun
    change content (S.read _ _ _).2 _ = _
    rw [hS.read_content, hrd.content hS]

end

/-! ## SELECT -/

section
variable {c c₀ c' : Piv σ} {answer : Response} (hS : Holds S content)

include hS in
theorem loadPin_true {record : PinRecord} (h : c.loadPin S record = (true, c')) :
    ∃ slot st, (content c.store record.record).map (PinSlot.decode pivPinPolicy) =
        some (.ok slot) ∧ Reads S c.store st ∧
      c' = { c.setSlot record (clampToFloor slot (c.floor record)) with store := st } := by
  unfold loadPin at h
  rw [read_eq] at h
  rcases hrd : (S.read record.record pinStateLen c.store).1 with _ | bytes
  · rw [hrd] at h
    cases h
  rw [hrd] at h
  dsimp only at h
  rcases hd : PinSlot.decode pivPinPolicy bytes.val with _ | slot
  · rw [hd] at h
    cases h
  rw [hd] at h
  cases h
  refine ⟨slot, _, ?_, .read record.record pinStateLen .none, ?_⟩
  · rw [hS.read_value hrd, Option.map_some, hd]
  · cases record <;> rfl

theorem loadMgmt_true (h : c.loadMgmt S = (true, c')) :
    ∃ st mgmt, Reads S c.store st ∧ c' = { c with store := st, mgmt } := by
  unfold loadMgmt at h
  rw [read_eq] at h
  rcases hrd : (S.read recordMgmtKey 34 c.store).1 with _ | bytes
  · rw [hrd] at h
    cases h
  rw [hrd] at h
  dsimp only at h
  rcases hd : MgmtKey.decode bytes.val with _ | mgmt
  · rw [hd] at h
    cases h
  rw [hd] at h
  cases h
  exact ⟨_, mgmt, .read recordMgmtKey 34 .none, rfl⟩

include hS in
/-- A SELECT that loads takes both slots from their records, under their floors. -/
theorem select_true (hc₀ : c.endSession.provision K S = c₀) (h : c.select K S = (answer, c'))
    (hok : answer.sw = .ok) :
    ∃ slots : PinRecord → PinSlot, (∀ record : PinRecord,
        (content c₀.store record.record).map (PinSlot.decode pivPinPolicy) =
          some (.ok (slots record)) ∧
        c'.slot record = clampToFloor (slots record) (c₀.floor record) ∧
        c'.floor record = c₀.floor record) ∧
      content c'.store = content c₀.store ∧ c'.provisioned = c₀.provisioned := by
  unfold select at h
  rcases hld : c.endSession.loadState K S with ⟨_ | _, c₃⟩
  · rw [hld] at h
    cases h
    cases hok
  rw [hld] at h
  cases h
  unfold loadState at hld
  rw [hc₀] at hld
  rcases hp : c₀.loadPin S .pin with ⟨_ | _, c₁⟩
  · rw [hp] at hld
    cases hld
  rw [hp] at hld
  rcases hk : c₁.loadPin S .puk with ⟨_ | _, c₂⟩
  · simp only [hk] at hld
    cases hld
  simp only [hk] at hld
  obtain ⟨pin, st₁, hpn, hrd₁, rfl⟩ := loadPin_true hS hp
  obtain ⟨puk, st₂, hpk, hrd₂, rfl⟩ := loadPin_true hS hk
  obtain ⟨st₃, mgmt, hrd₃, rfl⟩ := loadMgmt_true hld
  have hcn₁ := hrd₁.content hS
  refine ⟨fun record => record.casesOn pin puk, fun record => ?_,
    ((hrd₃.trans (hrd₂.trans hrd₁)).content hS), rfl⟩
  cases record with
  | pin => exact ⟨hpn, rfl, rfl⟩
  | puk =>
    refine ⟨?_, rfl, rfl⟩
    rw [← hpk]
    exact congrArg (fun content => Option.map _ (content PinRecord.puk.record)) hcn₁.symm

theorem storedAttempts_le (store : σ) (record : PinRecord) :
    storedAttempts content store record ≤ fullAttempts := by
  unfold storedAttempts
  split
  · rename_i slot hsl
    obtain ⟨bytes, -, hd⟩ := Option.map_eq_some_iff.mp hsl
    exact UInt8.le_iff_toNat_le.mp (PinSlot.decode_bounds hd).2
  · exact Nat.le_refl _

include hS in
/-- The counters after a SELECT that loads: the live one is what a load brings back. -/
theorem select_counters (record : PinRecord) (hc₀ : c.endSession.provision K S = c₀)
    (h : c.select K S = (answer, c')) (hok : answer.sw = .ok)
    (hfl : (c₀.floor record).toNat ≤ fullAttempts) :
    (c'.slot record).policy = pivPinPolicy ∧ counters content record c' =
      { counters content record c₀ with live := (counters content record c₀).reload } := by
  obtain ⟨slots, hst, hcn, -⟩ := select_true hS hc₀ h hok
  obtain ⟨hd, hsl, hsm⟩ := hst record
  obtain ⟨bytes, -, hdc⟩ := Option.map_eq_some_iff.mp hd
  have hp := (PinSlot.decode_bounds hdc).1
  rw [clampToFloor_eq (by rw [hp]; exact UInt8.le_iff_toNat_le.mpr hfl)] at hsl
  refine ⟨by rw [hsl]; exact hp, ?_⟩
  have hs : storedAttempts content c₀.store record = (slots record).retriesRemaining.toNat := by
    unfold storedAttempts
    rw [hd]
  have hkp : storedAttempts content c'.store record = (slots record).retriesRemaining.toNat := by
    unfold storedAttempts
    rw [hcn, hd]
  unfold counters Counters.reload
  rw [hsl, hsm, toNat_min, hs, hkp]

include hS in
/-- A SELECT after the first never gives an attempt back. -/
theorem select_retries {record : PinRecord} {initial : Nat} {marks : List (Option Mark)}
    (h : RetryInv content record initial marks c) (hok : (c.select K S).1.sw = .ok) :
    RetryInv content record initial (none :: marks) (c.select K S).2 ∧
      ((c.select K S).2.slot record).retriesRemaining.toNat ≤
        (c.slot record).retriesRemaining.toNat := by
  have hpr : c.endSession.provision K S = c.endSession := if_pos h.provisioned
  have hfl : (c.endSession.floor record).toNat ≤ fullAttempts := by
    have := h.within.floor_le
    cases record <;> exact this
  obtain ⟨hp, hcn⟩ := select_counters hS record hpr Prod.mk.eta.symm hok hfl
  obtain ⟨-, -, -, hpv⟩ := select_true hS hpr Prod.mk.eta.symm hok
  refine ⟨⟨hp, hcn ▸ h.within.load, hpv.trans h.provisioned⟩, ?_⟩
  have hlv : (counters content record (c.select K S).2).live ≤
      (counters content record c).live := by
    rw [hcn]
    exact h.within.reload_le
  exact hlv

/-! ## Power-up -/

/-- Loads succeed: a record that is there, and fits, is read. -/
def ReadsAll (S : PivStore σ) (content : σ → Nat → Option (List UInt8)) : Prop :=
  ∀ record cap st bytes, content st record = some bytes → bytes.length ≤ cap →
    (S.read record cap st).1 ≠ none

include hS in
theorem provisionPin_store (record : PinRecord) (pin : List UInt8)
    {number : Nat} (h : number ≠ record.record ∨ (S.read record.record pinStateLen c.store).1 ≠ none) :
    content (c.provisionPin K S record pin).store number = content c.store number := by
  unfold provisionPin
  rw [read_eq]
  rcases hrd : (S.read record.record pinStateLen c.store).1 with _ | bytes
  · have hne : number ≠ record.record := h.resolve_right fun hr => hr hrd
    exact (hS.others _ _ _ _ hne).trans (congrFun (hS.read_content _ _ _) _)
  · exact congrFun (hS.read_content _ _ _) _

include hS in
theorem provisionMgmt_store {number : Nat} (h : number ≠ recordMgmtKey) :
    content (c.provisionMgmt S).store number = content c.store number := by
  unfold provisionMgmt
  rw [read_eq]
  rcases (S.read recordMgmtKey 34 c.store).1 with _ | bytes
  · dsimp only
    split
    · exact (hS.others _ _ _ _ h).trans (congrFun (hS.read_content _ _ _) _)
    · exact congrFun (hS.read_content _ _ _) _
  · exact congrFun (hS.read_content _ _ _) _

include hS in
/-- Provisioning touches the record of a slot only when it cannot be read. -/
theorem provision_stored (hrs : ReadsAll S content) (store : σ) (record : PinRecord) :
    min (storedAttempts content ((new store).endSession.provision K S).store record) fullAttempts ≤
      storedAttempts content store record := by
  rcases hd : (content store record.record).map (PinSlot.decode pivPinPolicy) with
    _ | _ | slot
  · unfold storedAttempts
    rw [hd]
    exact Nat.min_le_right _ _
  · unfold storedAttempts
    rw [hd]
    exact Nat.min_le_right _ _
  · -- The record holds a slot, so it is read and nothing is written to it.
    obtain ⟨bytes, hbt, hdc⟩ := Option.map_eq_some_iff.mp hd
    have hl : bytes.length ≤ pinStateLen := by
      by_contra hln
      unfold PinSlot.decode at hdc
      rw [if_pos fun h => hln h.le] at hdc
      cases hdc
    have hrd : ∀ st, content st record.record = some bytes →
        (S.read record.record pinStateLen st).1 ≠ none :=
      fun st h => hrs _ _ _ _ h hl
    have hp : ∀ (c : Piv σ) (other : PinRecord) pin, content c.store record.record = some bytes →
        content (c.provisionPin K S other pin).store record.record = some bytes := by
      intro c other pin hc
      rw [provisionPin_store hS, hc]
      by_cases heq : record = other
      · exact .inr (heq ▸ hrd c.store hc)
      · refine .inl ?_
        cases record <;> cases other <;> first | exact absurd rfl heq | decide
    have hmg : record.record ≠ recordMgmtKey := by cases record <;> decide
    have hkp : content ((new store).endSession.provision K S).store record.record = some bytes := by
      change content (provisionMgmt S (provisionPin K S .puk defaultPuk
        (provisionPin K S .pin defaultPin _))).store _ = _
      rw [provisionMgmt_store hS hmg]
      exact hp _ _ _ (hp _ _ _ hbt)
    have hsm : storedAttempts content ((new store).endSession.provision K S).store record =
        storedAttempts content store record := by
      unfold storedAttempts
      rw [hkp, hbt]
    rw [hsm]
    exact Nat.min_le_left _ _

theorem provision_floor (store : σ) (record : PinRecord) :
    (((new store).endSession.provision K S).floor record).toNat = fullAttempts ∧
      ((new store).endSession.provision K S).provisioned = true := by
  refine provision_keep (P := fun c => (c.floor record).toNat = _ ∧ c.provisioned = true) ?_ ?_ ?_
  · exact fun _ _ _ h => by cases record <;> exact h
  · exact fun _ _ _ _ h => by cases record <;> exact h
  · cases record <;> exact ⟨rfl, rfl⟩

include hS in
/-- The first SELECT starts the budget with what the record holds. -/
theorem first_select_retries (hrd : ReadsAll S content) (store : σ)
    (record : PinRecord) (hok : ((new store).select K S).1.sw = .ok) :
    RetryInv content record (storedAttempts content store record) [none]
      ((new store).select K S).2 := by
  obtain ⟨hfl, hpr⟩ := provision_floor store record
  obtain ⟨hp, hcn⟩ := select_counters hS record rfl Prod.mk.eta.symm hok hfl.le
  obtain ⟨-, -, -, hpv⟩ := select_true hS rfl Prod.mk.eta.symm hok
  refine ⟨hp, ?_, hpv.trans hpr⟩
  rw [hcn]
  refine .start ?_ (storedAttempts_le _ _) (Nat.le_refl _) hfl.le
  have := provision_stored (K := K) hS hrd store record
  rwa [← hfl] at this

end

/-! ## Every history -/

/-- Loads succeed: the session starts with a SELECT, and each SELECT answers `9000`. -/
def LoadsSucceed (e : Log σ) (past : List (Log σ)) : Prop :=
  (past = [] → IsSelect e) ∧ (IsSelect e → e.answer.sw = .ok)

/-- The wrong presentations that were compared stay within the budget, and a SELECT gives no
  attempt back. -/
def RetriesKept (K : PivCrypto) (S : PivStore σ) (record : PinRecord) (initial : Nat) (e : Log σ)
    (past : List (Log σ)) : Prop :=
  spent ((e :: past).map (pinMark K record)) ≤
      budget fullAttempts initial ((e :: past).map (pinMark K record)) ∧
    (IsSelect e → ((e.before.select K S).2.slot record).retriesRemaining.toNat ≤
      (e.before.slot record).retriesRemaining.toNat)

theorem retries_kept (hS : Holds S content) (hrd : ReadsAll S content) (store : σ)
    (es : List Event) (hld : Along LoadsSucceed (history (step K S) (new store) es))
    (record : PinRecord) :
    Along (RetriesKept K S record (storedAttempts content store record))
      (history (step K S) (new store) es) := by
  refine along_history (I := fun c past => (past = [] ∧ c = new store) ∨
    RetryInv content record (storedAttempts content store record) (past.map (pinMark K record)) c)
    (.inl ⟨rfl, rfl⟩) ?_ es hld
  intro c past e hi hcn
  rcases hi with ⟨rfl, rfl⟩ | hi
  · cases e with
    | select =>
      have hfr := first_select_retries hS hrd store record (hcn.2 rfl)
      exact ⟨⟨hfr.within.spent_le, fun _ => by
        cases record <;> exact hfr.within.live_le⟩, .inr hfr⟩
    | process | confirm | deny => exact absurd (hcn.1 rfl) nofun
  · cases e with
    | select =>
      obtain ⟨hnx, hle⟩ := select_retries hS hi (hcn.2 rfl)
      exact ⟨⟨hnx.within.spent_le, fun _ => hle⟩, .inr hnx⟩
    | process apdu rng =>
      have hnx := Effect.retries hS hi (process_effect (K := K) c apdu rng)
      exact ⟨⟨hnx.within.spent_le, nofun⟩, .inr hnx⟩
    | confirm rng =>
      have hnx := Confirmed.retries hS hi (confirm_effect (K := K) c rng)
      exact ⟨⟨hnx.within.spent_le, nofun⟩, .inr hnx⟩
    | deny =>
      have hnx : RetryInv content record _ (none :: past.map (pinMark K record)) c.denyPresence.2 :=
        hi.keepSlots rfl nofun
      exact ⟨⟨hnx.within.spent_le, nofun⟩, .inr hnx⟩

end Piv

end AegisToken.Applets
