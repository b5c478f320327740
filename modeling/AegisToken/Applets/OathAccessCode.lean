/-
  The access code of the OATH applet over whole histories.
  A SET CODE that succeeds puts the code into the store and into RAM. From then on, until a SET
  CODE or a RESET succeeds, every state that is saved carries it, so every SELECT that loads
  starts a session that asks for it.
  This needs that a SET CODE leaves RAM and store together. It does not when its save fails, or
  when its key does not fit: RAM has the new code, or none, and the next save makes it last. And a
  SET CODE with an empty key is no code at all.
-/
import AegisToken.Applets.OathSteps

namespace AegisToken.Applets.Oath
open ByteCodec History

variable {σ : Type} {K : OathCrypto} {S : OathStore σ} {content : σ → List UInt8}

/-! ## Stores -/

/-- A store that holds `content`: a load gives it or nothing and changes nothing; a save that
  works replaces it and one that fails leaves the old content or the new one; an erase tells
  exactly whether it happened. -/
structure Keeps (S : OathStore σ) (content : σ → List UInt8) : Prop where
  load_content : ∀ st, content (S.load st).2 = content st
  load_value : ∀ {st bytes}, (S.load st).1 = some bytes → content st = bytes.val
  saved : ∀ data st, (S.save data st).1 = true → content (S.save data st).2 = data
  unsaved : ∀ data st, content (S.save data st).2 = content st ∨ content (S.save data st).2 = data
  cleared : ∀ st, (S.clear st).1 = true → content (S.clear st).2 = []
  uncleared : ∀ st, (S.clear st).1 = false → content (S.clear st).2 = content st

/-- The load of a SELECT works: the store is blank, or its state is accepted. -/
def LoadWorks (S : OathStore σ) (c : Oath σ) : Prop :=
  ∃ bytes, (S.load c.store).1 = some bytes ∧
    (bytes.val = [] ∨ (c.decodeState bytes.val).isSome)

instance (S : OathStore σ) (c : Oath σ) : Decidable (LoadWorks S c) :=
  match h : (S.load c.store).1 with
  | none => isFalse fun ⟨_, hload, _⟩ => nomatch h.symm.trans hload
  | some bytes =>
    decidable_of_iff (bytes.val = [] ∨ (c.decodeState bytes.val).isSome)
      ⟨fun hb => ⟨bytes, h, hb⟩, fun ⟨_, hload, hb⟩ =>
        Option.some.inj (h.symm.trans hload) ▸ hb⟩

/-! ## The statement -/

/-- The entry is a command that succeeded. -/
def Succeeds (p : Apdu → Prop) (e : Log σ) : Prop :=
  ∃ apdu, e.event = .process apdu ∧ p apdu ∧ e.answer.sw = .ok

/-- A SET CODE with this key. -/
def carriesKey (algorithm : UInt8) (key : List UInt8) (apdu : Apdu) : Prop :=
  apdu.ins = insSetCode ∧ Tlv.find apdu.data tagKey = some (algorithm :: key)

/-- A SET CODE or a RESET. -/
def changesCode (apdu : Apdu) : Prop := apdu.ins = insSetCode ∨ isReset apdu

/-- A SET CODE with this key succeeded, and no SET CODE or RESET since. -/
def CodeIsSet (algorithm : UInt8) (key : List UInt8) : List (Log σ) → Prop :=
  Since (fun e _ => Succeeds (carriesKey algorithm key) e) (Succeeds changesCode)

/-- The entry is a VALIDATE with the HMAC of the challenge under the key. -/
def Proves (K : OathCrypto) (algorithm : UInt8) (key : List UInt8) (e : Log σ) : Prop :=
  ∃ apdu, e.event = .process apdu ∧ ProvesCode K algorithm key e.before.authChallenge.val apdu

/-- A SELECT that loads started a session while the code was set, and in this session nobody has
  proved the code. -/
def CodeIsOwed (K : OathCrypto) (S : OathStore σ) (algorithm : UInt8) (key : List UInt8) :
    List (Log σ) → Prop :=
  Since (fun e past => IsSelect e ∧ LoadWorks S e.before ∧ CodeIsSet algorithm key past)
    fun e => IsSelect e ∨ Proves K algorithm key e ∨ Succeeds changesCode e

/-- A protected command is refused while the code is owed. -/
def CodeEnforced (K : OathCrypto) (S : OathStore σ) (e : Log σ) (past : List (Log σ)) : Prop :=
  ∀ algorithm key, CodeIsOwed K S algorithm key past → ∀ apdu, e.event = .process apdu →
    Gated apdu → e.answer.sw = .securityStatusNotSatisfied

/-- A SET CODE that passes the checks has a key that is not empty and fits, and its state is
  stored. -/
def CodeStored (K : OathCrypto) (S : OathStore σ) (c : Oath σ) (apdu : Apdu) : Prop :=
  (apdu.data = [] → (c.withoutCode.saveState S).1 = true) ∧
    ∀ code, parseCode K apdu.data = .ok code → code.key ≠ [] ∧
      ∃ key, BoundedBytes.ofSlice maxSecret code.key = some key ∧
        ((c.withCode K code key).saveState S).1 = true

/-- Every authorised SET CODE stores what it sets. -/
def StoresCodes (K : OathCrypto) (S : OathStore σ) (e : Log σ) (_ : List (Log σ)) : Prop :=
  ∀ apdu, e.event = .process apdu → apdu.ins = insSetCode → Authorised (e.before.loadState S) →
    CodeStored K S (e.before.loadState S) apdu

/-! ## Loads -/

/-- The store holds a state with the code. -/
def Holds (content : σ → List UInt8) (st : σ) (algorithm : UInt8) (key : List UInt8) : Prop :=
  ∃ d : Oath σ, content st = d.encodeState ∧ d.authKey.val = key ∧ d.authAlgorithm = algorithm

theorem encodeState_ne_nil (c : Oath σ) : c.encodeState ≠ [] := by
  rw [encodeState_eq]
  exact List.cons_ne_nil _ _

theorem reload_eq (c : Oath σ) :
    c.reload S = match (S.load c.store).1 with
      | none => { c with loaded := true, store := (S.load c.store).2 }.close
      | some bytes =>
        if bytes.val = [] then
          { c with loaded := true, store := (S.load c.store).2 }.resetVolatileState
        else
          match ({ c with loaded := true, store := (S.load c.store).2 } : Oath σ).decodeState
              bytes.val with
          | some c => { c with closed := false }
          | none => { c with loaded := true, store := (S.load c.store).2 }.close := by
  unfold reload loadState
  exact if_neg Bool.false_ne_true

/-- A store with the code loads it, or closes the applet. -/
theorem reload_holds (hS : Keeps S content) {c : Oath σ} {algorithm : UInt8} {key : List UInt8}
    (h : Holds content c.store algorithm key) :
    (c.reload S).store = (S.load c.store).2 ∧
      (((S.load c.store).1 = none ∧ (c.reload S).closed = true) ∨
        ((c.reload S).closed = false ∧ (c.reload S).authKey.val = key ∧
          (c.reload S).authAlgorithm = algorithm)) := by
  obtain ⟨d, hcn, hk, ha⟩ := h
  rw [reload_eq]
  rcases hld : (S.load c.store).1 with _ | bytes
  · exact ⟨rfl, .inl ⟨rfl, rfl⟩⟩
  have hbt : bytes.val = d.encodeState := (hS.load_value hld).symm.trans hcn
  dsimp only
  rw [if_neg (hbt ▸ encodeState_ne_nil d), hbt, decodeState_encodeState]
  exact ⟨rfl, .inr ⟨rfl, hk, ha⟩⟩

/-! ## One step -/

/-- While the code is set, it is in the store, and in RAM unless the applet is closed. While it is
  owed, the applet is open and the session is not authenticated. -/
structure CodeInv (K : OathCrypto) (S : OathStore σ) (content : σ → List UInt8) (c : Oath σ)
    (past : List (Log σ)) : Prop where
  held : ∀ algorithm key, CodeIsSet algorithm key past → key ≠ [] ∧ c.loaded = true ∧
    Holds content c.store algorithm key ∧
    (c.closed = false → c.authKey.val = key ∧ c.authAlgorithm = algorithm)
  owed : ∀ algorithm key, CodeIsOwed K S algorithm key past →
    c.closed = false ∧ c.authenticated = false

theorem CodeIsOwed.isSet {algorithm : UInt8} {key : List UInt8} {past : List (Log σ)}
    (h : CodeIsOwed K S algorithm key past) : CodeIsSet algorithm key past := by
  induction past with
  | nil => exact h
  | cons e past ih =>
    rcases h with ⟨hs, -, ht⟩ | ⟨hst, hps⟩
    · refine .inr ⟨?_, ht⟩
      rintro ⟨apdu, hev, -⟩
      unfold IsSelect at hs
      rw [hev] at hs
      exact hs
    · exact .inr ⟨fun hc => hst (.inr (.inr hc)), ih hps⟩

section
variable {c c' : Oath σ} {past : List (Log σ)} {x : Log σ} {algorithm : UInt8} {key : List UInt8}

/-- The code is owed, so a protected command is not authorised. -/
theorem CodeInv.not_authorised (h : CodeInv K S content c past)
    (hod : CodeIsOwed K S algorithm key past) : ¬Authorised c := by
  obtain ⟨hne, -, -, hr⟩ := h.held algorithm key hod.isSet
  obtain ⟨hcl, hah⟩ := h.owed algorithm key hod
  rintro (hem | hv)
  · exact hne ((hr hcl).1.symm.trans hem)
  · exact Bool.false_ne_true (hah.symm.trans hv)

theorem codeIsSet_later (hqt : ¬Succeeds changesCode x)
    (h : CodeIsSet algorithm key (x :: past)) : CodeIsSet algorithm key past := by
  rcases h with ⟨apdu, hev, hk, hok⟩ | ⟨-, hps⟩
  · exact absurd ⟨apdu, hev, .inl hk.1, hok⟩ hqt
  · exact hps

theorem codeIsOwed_later (hl : ¬IsSelect x) (h : CodeIsOwed K S algorithm key (x :: past)) :
    CodeIsOwed K S algorithm key past ∧ ¬Proves K algorithm key x ∧ ¬Succeeds changesCode x := by
  rcases h with ⟨hs, -⟩ | ⟨hst, hps⟩
  · exact absurd hs hl
  · exact ⟨hps, fun hp => hst (.inr (.inl hp)), fun hc => hst (.inr (.inr hc))⟩

theorem CodeInv.keep (h : CodeInv K S content c past) (hsm : SameCode c c')
    (hs : ¬IsSelect x) (hqt : ¬Succeeds changesCode x) :
    CodeInv K S content c' (x :: past) := by
  refine ⟨fun algorithm key ht => ?_, fun algorithm key hod => ?_⟩
  · obtain ⟨hne, hld, hd, hr⟩ := h.held _ _ (codeIsSet_later hqt ht)
    rw [hsm.loaded, hsm.store, hsm.closed, hsm.authKey, hsm.authAlgorithm]
    exact ⟨hne, hld, hd, hr⟩
  · obtain ⟨hcl, hah⟩ := h.owed _ _ (codeIsOwed_later hs hod).1
    rw [hsm.closed, hsm.authenticated]
    exact ⟨hcl, hah⟩

theorem CodeInv.save (hS : Keeps S content) (h : CodeInv K S content c past)
    (hcl : c.closed = false) {c₁ : Oath σ} (hke : c₁.authKey = c.authKey)
    (hg : c₁.authAlgorithm = c.authAlgorithm) (hld : c₁.loaded = c.loaded)
    (hon : c₁.closed = c.closed) (hst : c₁.store = c.store)
    (hod : ∀ algorithm key, CodeIsOwed K S algorithm key (x :: past) →
      c₁.authenticated = false) (hqt : ¬Succeeds changesCode x) :
    CodeInv K S content (c₁.saveState S).2 (x :: past) := by
  refine ⟨fun algorithm key hs => ?_, fun algorithm key ho => ?_⟩
  · obtain ⟨hne, hl, ht, hr⟩ := h.held _ _ (codeIsSet_later hqt hs)
    obtain ⟨hk, ha⟩ := hr hcl
    refine ⟨hne, hld.trans hl, ?_, fun _ => ?_⟩
    · rcases hS.unsaved c₁.encodeState c₁.store with hold | hn
      · obtain ⟨d, hcn, hd⟩ := ht
        exact ⟨d, hold.trans (hst ▸ hcn), hd⟩
      · exact ⟨c₁, hn, by rw [hke]; exact hk, by rw [hg]; exact ha⟩
    · exact ⟨by change c₁.authKey.val = key; rw [hke]; exact hk,
        by change c₁.authAlgorithm = algorithm; rw [hg]; exact ha⟩
  · exact ⟨hon.trans hcl, hod algorithm key ho⟩

/-- A success of SET CODE or RESET ends what was set and owed. -/
theorem CodeInv.changed (hl : ¬IsSelect x) (hc : Succeeds changesCode x)
    (ht : ∀ algorithm key, Succeeds (carriesKey algorithm key) x → key ≠ [] ∧ c'.loaded = true ∧
      Holds content c'.store algorithm key ∧
      (c'.closed = false → c'.authKey.val = key ∧ c'.authAlgorithm = algorithm)) :
    CodeInv K S content c' (x :: past) := by
  refine ⟨fun algorithm key h => ?_, fun algorithm key h => ?_⟩
  · rcases h with hs | ⟨hn, -⟩
    · exact ht algorithm key hs
    · exact absurd hc hn
  · exact absurd hc (codeIsOwed_later hl h).2.2

/-- A code that is set was set on a loaded applet. -/
theorem CodeInv.loadState (h : CodeInv K S content c past) :
    CodeInv K S content (c.loadState S) past := by
  by_cases hld : c.loaded = true
  · have hsm : c.loadState S = c := if_pos hld
    rw [hsm]
    exact h
  · exact ⟨fun _ _ hs => absurd (h.held _ _ hs).2.1 hld,
      fun _ _ hod => absurd (h.held _ _ hod.isSet).2.1 hld⟩

end

/-- SELECT loads the code that is set, or closes the applet. -/
theorem select_code (hS : Keeps S content) {c : Oath σ} {past : List (Log σ)} {e : Event}
    (h : CodeInv K S content c past) (he : e.isSelect) :
    CodeInv K S content (step K S c e).2 (entry (step K S) c e :: past) := by
  have hqt : ¬Succeeds changesCode (entry (step K S) c e) := by
    rintro ⟨apdu, hev, -⟩
    change e = _ at hev
    rw [hev] at he
    exact he
  obtain ⟨challenge, hst⟩ := step_select he
  rw [hst]
  refine ⟨fun algorithm key ht => ?_, fun algorithm key hod => ?_⟩
  · obtain ⟨hne, -, hs, -⟩ := h.held _ _ (codeIsSet_later hqt ht)
    obtain ⟨hsr, hr⟩ := reload_holds hS hs
    refine ⟨hne, loadState_loaded _, ?_, fun hon => ?_⟩
    · obtain ⟨d, hcn, hd⟩ := hs
      refine ⟨d, ?_, hd⟩
      rw [hsr, hS.load_content, hcn]
    · rcases hr with ⟨-, hcl⟩ | ⟨-, hcd⟩
      · exact absurd (hcl.symm.trans hon) nofun
      · exact hcd
  · rcases hod with ⟨-, ⟨bytes, hld, -⟩, ht⟩ | ⟨hsp, -⟩
    · obtain ⟨hne, -, hs, -⟩ := h.held _ _ ht
      obtain ⟨-, ⟨hno, -⟩ | ⟨hon, hk, -⟩⟩ := reload_holds hS hs
      · cases hno.symm.trans hld
      · refine ⟨hon, ?_⟩
        rw [decide_eq_false (fun hn => hne (hk.symm.trans hn)), Bool.and_false]
    · exact absurd (.inl he) hsp

/-- Without the access code every outcome of a protected command is a refusal. -/
theorem Effect.refuses {c c' : Oath σ} {apdu : Apdu} {answer : Response}
    (h : Effect K S c apdu answer c') (hah : ¬Authorised c) (hgt : Gated apdu) :
    answer.sw = .securityStatusNotSatisfied := by
  cases h with
  | kept _ hd _ _ => exact hd hgt hah
  | put _ _ _ ha | deleted _ _ _ ha | calculated _ _ ha | armed _ _ ha | codeRemoved _ ha
  | codeSet _ _ _ ha | codeDropped _ _ ha => exact absurd ha hah
  | validated _ hp => exact absurd hp.1 hgt.not_open.1
  | erased hrs | eraseFailed hrs => exact absurd hrs.1 hgt.not_open.2

/-- An accepted SET CODE takes the key from the data. -/
theorem parseCode_key {data : List UInt8} {code : NewCode} (h : parseCode K data = .ok code) :
    Tlv.find data tagKey = some (code.algorithm :: code.key) := by
  unfold parseCode at h
  split at h
  · cases h
  · cases h
  rename_i algorithm key hk
  iterate 4
    split at h
    · cases h
  · cases h
    exact hk

section
variable {c c' : Oath σ} {past : List (Log σ)} {x : Log σ} {apdu : Apdu} {answer : Response}

/-- The entry of a command succeeds only where its answer does. -/
theorem succeeds_iff {p : Apdu → Prop} (hev : x.event = .process apdu) :
    Succeeds p x ↔ p apdu ∧ x.answer.sw = .ok := by
  constructor
  · rintro ⟨apdu', hev', hp, hok⟩
    cases hev.symm.trans hev'
    exact ⟨hp, hok⟩
  · rintro ⟨hp, hok⟩
    exact ⟨apdu, hev, hp, hok⟩

theorem not_isSelect (hev : x.event = .process apdu) : ¬IsSelect x := by
  unfold IsSelect
  rw [hev]
  exact id

/-- A command that answers with an error changes no code. -/
theorem not_changes (hev : x.event = .process apdu) (hch : changesCode apdu → x.answer.sw ≠ .ok) :
    ¬Succeeds changesCode x := fun hc =>
  have hs := (succeeds_iff hev).mp hc
  hch hs.1 hs.2

/-- A protected command other than SET CODE saves the code as it is. -/
theorem CodeInv.saved (hS : Keeps S content) (h : CodeInv K S content c past)
    (hev : x.event = .process apdu) (hon : c.closed = false ∨ apdu.ins = insReset)
    {c₁ : Oath σ} (hsm : SameCode c c₁) (hgt : Gated apdu) (hah : Authorised c)
    (hi : apdu.ins ≠ insSetCode) : CodeInv K S content (c₁.saveState S).2 (x :: past) := by
  have hcl := hon.resolve_right hgt.not_open.2
  refine h.save hS hcl hsm.authKey hsm.authAlgorithm hsm.loaded hsm.closed
    hsm.store (fun algorithm key hod => ?_) (not_changes hev ?_)
  · exact absurd hah (h.not_authorised (codeIsOwed_later (not_isSelect hev) hod).1)
  · rintro (ht | hrs)
    · exact absurd ht hi
    · exact absurd hrs.1 hgt.not_open.2

/-- A SET CODE that is stored holds the key it carries. -/
theorem CodeInv.codeSet (hS : Keeps S content) (hev : x.event = .process apdu)
    (hi : apdu.ins = insSetCode) (hld : c.loaded = true) {code : NewCode}
    {key : BoundedBytes maxSecret} (hpr : parseCode K apdu.data = .ok code)
    (hk : BoundedBytes.ofSlice maxSecret code.key = some key) (hne : code.key ≠ [])
    (hsv : ((c.withCode K code key).saveState S).1 = true) (hok : x.answer.sw = .ok) :
    CodeInv K S content ((c.withCode K code key).saveState S).2 (x :: past) := by
  refine .changed (not_isSelect hev) ((succeeds_iff hev).mpr ⟨.inl hi, hok⟩)
    fun algorithm key' hs => ?_
  have hfn := ((succeeds_iff hev).mp hs).1.2
  cases (parseCode_key hpr).symm.trans hfn
  have hv : key.val = code.key := BoundedBytes.ofSlice_eq_some.mp hk
  exact ⟨hne, hld, ⟨_, hS.saved _ _ hsv, hv, rfl⟩, fun _ => ⟨hv, rfl⟩⟩

/-- A VALIDATE that is accepted proves the code that is owed. -/
theorem CodeInv.validated (hS : Keeps S content) (h : CodeInv K S content c past)
    (hev : x.event = .process apdu) (hon : c.closed = false ∨ apdu.ins = insReset)
    (hch : ∀ algorithm key, CodeIsOwed K S algorithm key past →
      x.before.authChallenge = c.authChallenge)
    (hp : ProvesCode K c.authAlgorithm c.authKey.val c.authChallenge.val apdu)
    (challenge : List UInt8) :
    CodeInv K S content ((c.validated K challenge).saveState S).2 (x :: past) := by
  have hn : apdu.ins ≠ insSetCode ∧ apdu.ins ≠ insReset := by rw [hp.1]; decide
  have hcl := hon.resolve_right hn.2
  refine h.save hS hcl rfl rfl rfl rfl rfl (fun algorithm key hod => ?_) (not_changes hev ?_)
  · -- The proof is one under the code in RAM, which is the code that is owed.
    obtain ⟨hps, hpf, -⟩ := codeIsOwed_later (not_isSelect hev) hod
    obtain ⟨-, -, -, hr⟩ := h.held _ _ hps.isSet
    obtain ⟨hk, hg⟩ := hr hcl
    refine absurd ⟨apdu, hev, ?_⟩ hpf
    rw [hch _ _ hps, ← hk, ← hg]
    exact hp
  · rintro (ht | hrs)
    · exact absurd ht hn.1
    · exact absurd hrs.1 hn.2

theorem CodeInv.eraseFailed (hS : Keeps S content) (h : CodeInv K S content c past)
    (hev : x.event = .process apdu) (hcr : (S.clear c.store).1 = false)
    (hno : x.answer.sw ≠ .ok) :
    CodeInv K S content { c with store := (S.clear c.store).2, pending := none } (x :: past) := by
  refine ⟨fun algorithm key ht => ?_, fun algorithm key hod => ?_⟩
  · have hps := codeIsSet_later (not_changes hev fun _ => hno) ht
    obtain ⟨hne, hl, ⟨d, hcn, hd⟩, hr⟩ := h.held _ _ hps
    exact ⟨hne, hl, ⟨d, (hS.uncleared _ hcr).trans hcn, hd⟩, hr⟩
  · exact h.owed _ _ (codeIsOwed_later (not_isSelect hev) hod).1

/-- Every outcome of a command keeps the invariant, if a SET CODE stores what it sets. -/
theorem CodeInv.effect (hS : Keeps S content) (h : CodeInv K S content c past)
    (hev : x.event = .process apdu) (ha : x.answer = answer) (hld : c.loaded = true)
    (hon : c.closed = false ∨ apdu.ins = insReset)
    (hch : ∀ algorithm key, CodeIsOwed K S algorithm key past →
      x.before.authChallenge = c.authChallenge)
    (hst : apdu.ins = insSetCode → Authorised c → CodeStored K S c apdu)
    (he : Effect K S c apdu answer c') : CodeInv K S content c' (x :: past) := by
  have hsl := not_isSelect hev
  have hsw : ∀ ins, apdu.ins = ins → ins ≠ insSetCode → ins ≠ insReset →
      ¬Succeeds changesCode x := by
    rintro _ rfl hs hr
    exact not_changes hev fun hc => hc.elim (fun hi => absurd hi hs) fun hrs => absurd hrs.1 hr
  cases he with
  | kept hsm _ hok _ =>
    refine h.keep (by rcases hsm with rfl | rfl <;> exact ⟨rfl, rfl, rfl, rfl, rfl, rfl⟩) hsl
      (not_changes hev fun hc hsw => ?_)
    have hrd := (hok (ha ▸ hsw)).1
    exact hc.elim (hrd.ne (by decide) (by decide)) fun hrs => hrd.ne (by decide) (by decide) hrs.1
  | put _ _ hi hah =>
    exact h.saved hS hev hon ⟨rfl, rfl, rfl, rfl, rfl, rfl⟩ (.inl hi) hah (by rw [hi]; decide)
  | deleted _ _ hi hah =>
    exact h.saved hS hev hon ⟨rfl, rfl, rfl, rfl, rfl, rfl⟩ (.inr (.inl hi)) hah
      (by rw [hi]; decide)
  | calculated k hi hah =>
    rcases calculateIndex_cases c k.index k.challenge k.truncated with hsm | ⟨c₁, _, hsm, -, heq⟩
    · rw [hsm]
      exact h.keep (.refl c) hsl (hsw _ hi nofun nofun)
    · rw [heq]
      exact h.saved hS hev hon hsm (.inr (.inr (.inr (.inl hi)))) hah (by rw [hi]; decide)
  | armed k hi =>
    exact h.keep ⟨rfl, rfl, rfl, rfl, rfl, rfl⟩ hsl (hsw _ hi nofun nofun)
  | codeRemoved hi hah hdt =>
    have hsv := (hst hi hah).1 hdt
    refine .changed hsl ((succeeds_iff hev).mpr ⟨.inl hi, ?_⟩) fun algorithm key hs => ?_
    · rw [ha, hsv]
      rfl
    · have hfn := ((succeeds_iff hev).mp hs).1.2
      rw [hdt] at hfn
      cases hfn
  | codeSet code key hi hah _ hpr hk =>
    obtain ⟨hne, key', hft, hsv⟩ := (hst hi hah).2 code hpr
    cases hk.symm.trans hft
    exact .codeSet hS hev hi hld hpr hk hne hsv (by rw [ha, hsv]; rfl)
  | codeDropped code hi hah _ hpr hk =>
    obtain ⟨-, key, hft, -⟩ := (hst hi hah).2 code hpr
    cases hk.symm.trans hft
  | validated challenge hp => exact h.validated hS hev hon hch hp challenge
  | erased hrs _ =>
    refine .changed hsl ((succeeds_iff hev).mpr ⟨.inr hrs, by rw [ha]; rfl⟩)
      fun algorithm key hs => ?_
    have ht := ((succeeds_iff hev).mp hs).1.1
    exact absurd (hrs.1.symm.trans ht) nofun
  | eraseFailed hrs hcr => exact h.eraseFailed hS hev hcr (by rw [ha]; exact nofun)

theorem process_code (hS : Keeps S content) (h : CodeInv K S content c past)
    (hs : StoresCodes K S (entry (step K S) c (.process apdu)) past) :
    CodeEnforced K S (entry (step K S) c (.process apdu)) past ∧
      CodeInv K S content (step K S c (.process apdu)).2
        (entry (step K S) c (.process apdu) :: past) := by
  have h₀ := h.loadState
  rcases process_cases c apdu with ⟨hcl, -, heq⟩ | ⟨hon, -, he⟩
  · have hpr : step K S c (.process apdu) = _ := heq
    refine ⟨fun algorithm key hod => ?_, ?_⟩
    · exact absurd (hcl.symm.trans (h₀.owed _ _ hod).1) nofun
    rw [hpr]
    refine h₀.keep (.refl _) (not_isSelect rfl) fun hc => ?_
    have hsw : (step K S c (.process apdu)).1.sw = .ok := ((succeeds_iff rfl).mp hc).2
    rw [hpr] at hsw
    cases hsw
  · refine ⟨fun algorithm key hod apdu' hev hgt => ?_, ?_⟩
    · cases hev
      exact he.refuses (h₀.not_authorised hod) hgt
    refine h₀.effect hS rfl rfl (loadState_loaded c) hon (fun algorithm key hod => ?_)
      (hs apdu rfl) he
    -- A code is owed on a loaded applet only, which the load leaves as it is.
    have hld := (h.held _ _ hod.isSet).2.1
    have hsm : c.loadState S = c := if_pos hld
    rw [hsm]
    rfl

/-- The touch of the user sets no code and proves none. -/
theorem presence_code (hS : Keeps S content) (h : CodeInv K S content c past) {e : Event}
    (he : e = .confirm ∨ e = .deny) :
    CodeInv K S content (step K S c e).2 (entry (step K S) c e :: past) := by
  have hs : ¬IsSelect (entry (step K S) c e) := by
    rcases he with rfl | rfl <;> exact id
  have hqt : ¬Succeeds changesCode (entry (step K S) c e) := by
    rcases he with rfl | rfl <;> exact nofun
  rcases he with rfl | rfl
  · have h₀ := h.loadState
    rcases (confirm_cases c).2 with hsm | ⟨hcl, c₁, answer, hsm, heq⟩
    · exact h₀.keep hsm hs hqt
    have hcn : step K S c .confirm = _ := heq
    rw [hcn]
    refine h₀.save hS hcl hsm.authKey hsm.authAlgorithm hsm.loaded hsm.closed
      hsm.store (fun algorithm key hod => ?_) ?_
    · rw [hsm.authenticated]
      exact (h₀.owed _ _ (codeIsOwed_later hs hod).1).2
    · exact hqt
  · exact h.keep ⟨rfl, rfl, rfl, rfl, rfl, rfl⟩ hs hqt

end

/-! ## Whole histories -/

/-- In every history whose authorised SET CODEs store what they set, the access code that was set
  is asked for in every later session until it is proved. -/
theorem access_code_kept (hS : Keeps S content) (store : σ) (es : List Event)
    (h : Along (StoresCodes K S) (history (step K S) (new store) es)) :
    Along (CodeEnforced K S) (history (step K S) (new store) es) := by
  refine along_history (I := CodeInv K S content) ⟨nofun, nofun⟩ (fun c past e hI hstored => ?_)
    es h
  have hother : (∀ apdu, e ≠ .process apdu) → CodeEnforced K S (entry (step K S) c e) past :=
    fun hne _ _ _ apdu hevent => absurd hevent (hne apdu)
  cases e with
  | select | selectWithRng rng => exact ⟨hother nofun, select_code hS hI trivial⟩
  | process apdu => exact process_code hS hI hstored
  | confirm => exact ⟨hother nofun, presence_code hS hI (.inl rfl)⟩
  | deny => exact ⟨hother nofun, presence_code hS hI (.inr rfl)⟩

/-! ## Runs on a store that never fails -/

/-- A store whose every access works. -/
def memory : OathStore (List UInt8) where
  load st := (BoundedBytes.ofSlice stateBytes st, st)
  save data _ := (true, data)
  clear _ := (true, [])

theorem memory_keeps : Keeps memory id where
  load_content _ := rfl
  load_value h := (BoundedBytes.ofSlice_eq_some.mp h).symm
  saved _ _ _ := rfl
  unsaved _ _ := .inr rfl
  cleared _ _ := rfl
  uncleared _ h := nomatch h

def accessKey : List UInt8 := [1, 2, 3, 4, 5, 6, 7, 8, 9, 10, 11, 12, 13, 14, 15, 16]

def longKey : List UInt8 := List.replicate 65 0x0B

def hostChallenge : List UInt8 := [0x11, 0x12, 0x13, 0x14, 0x15, 0x16, 0x17, 0x18]

/-- HMAC-SHA1 of the challenge under `accessKey`. -/
def accessProof : FixedBytes 20 := ⟨toBE 20 0x94a7e4767dfd6e5b3928b78885343b4ec1784e2d, rfl⟩

/-- HMAC-SHA1 of the challenge under `longKey`. -/
def longProof : FixedBytes 20 := ⟨toBE 20 0x0b859e3e76aa582e7ef0b6b939c79fabc8eee4fe, rfl⟩

/-- SHA-256 of the challenge and `accessKey`. -/
def challengeHash : FixedBytes 32 :=
  ⟨toBE 32 0x253c484824ce2d522f43afc3eed69a3c90a9d0f06d32adfe5ea016c0e114d5d1, rfl⟩

def exampleCrypto : OathCrypto where
  hmacSha1 key _ := if key = accessKey then accessProof else longProof
  hmacSha256 _ _ := ⟨List.replicate 32 0, rfl⟩
  hmacSha512 _ _ := ⟨List.replicate 64 0, rfl⟩
  sha256 _ := challengeHash

/-- SET CODE with a key for HMAC-SHA1 and the proof of the host. -/
def setCodeTo (key : List UInt8) (proof : FixedBytes 20) : Apdu :=
  ⟨insSetCode, 0, 0, [0x73, UInt8.ofNat (key.length + 1), algorithmSha1] ++ key ++ [0x74, 8] ++
    hostChallenge ++ [0x75, 20] ++ proof.val, none⟩

/-- PUT of a TOTP credential `"a"`. -/
def putOne : Apdu := ⟨insPut, 0, 0, [0x71, 1, 0x61, 0x73, 3, 0x21, 6, 0x01], none⟩

def listAll : Apdu := ⟨insList, 0, 0, [], none⟩

/-- A code that was set is asked for after the next SELECT. -/
theorem access_code_kept_memory :
    Along (CodeEnforced exampleCrypto memory)
      (history (step exampleCrypto memory) (new [])
        [.select, .process (setCodeTo accessKey accessProof), .select, .process listAll]) := by
  refine access_code_kept memory_keeps [] _ ⟨?_, ?_, ?_, ?_, trivial⟩
  · rintro _ ⟨⟩ hins
    cases hins
  · exact nofun
  · rintro _ ⟨⟩ - -
    refine ⟨nofun, fun code hcode => ?_⟩
    cases hcode
    exact ⟨nofun, ⟨accessKey, by decide⟩, rfl, rfl⟩
  · exact nofun

/-- A SET CODE that is refused because its key does not fit has cleared the code. The next PUT
  stores that, and after a SELECT the credentials are listed without a proof. -/
theorem access_code_lost :
    (answers (step exampleCrypto memory) (new [])
      [.select, .process (setCodeTo accessKey accessProof), .process (setCodeTo longKey longProof),
        .process putOne, .select, .process listAll]).map (·.sw) =
          [.ok, .ok, .notEnoughMemory, .ok, .ok, .ok] ∧
    ¬Along (CodeEnforced exampleCrypto memory)
      (history (step exampleCrypto memory) (new [])
        [.select, .process (setCodeTo accessKey accessProof),
          .process (setCodeTo longKey longProof), .process putOne, .select, .process listAll]) := by
  refine ⟨by decide +kernel, fun h => ?_⟩
  refine absurd (h.1 algorithmSha1 accessKey ?_ listAll rfl (by decide)) (by decide +kernel)
  refine .inl ⟨trivial, by decide +kernel, .inr ⟨?_, .inr ⟨?_, .inl ?_⟩⟩⟩
  · rintro ⟨_, ⟨⟩, hchanges, -⟩
    exact absurd hchanges nofun
  · rintro ⟨_, ⟨⟩, -, hok⟩
    exact absurd hok (by decide +kernel)
  · exact ⟨_, rfl, ⟨rfl, rfl⟩, by decide +kernel⟩

end AegisToken.Applets.Oath
