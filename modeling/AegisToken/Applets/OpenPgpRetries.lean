/-
  The retry counters of the OpenPGP card applet on a store whose saves may fail, and of both card
  applets together.
  The two PIN slots are saved together. A PIN command persists the state: it leaves the stored
  counters at the ones in RAM, or both floors under them. GENERATE and a signature save the state
  too and leave the floors alone, but do not move a counter. A SELECT takes the stored counter
  under the floor, so it never gives an attempt back.
-/
import AegisToken.Applets.OpenPgpImage
import AegisToken.Applets.PivRetries

namespace AegisToken.Applets.OpenPgp
open ByteCodec History RetryBudget

variable {σ : Type} {K : PgpCrypto} {S : OpenPgpStore σ} {content : σ → Option (List UInt8)}

/-! ## Counters and marks -/

/-- A store that holds `content`, or nothing while it is blank: a load gives what is there or
  nothing and changes nothing; a save that works replaces it, and one that fails leaves the old
  content or the new one. -/
structure Keeps (S : OpenPgpStore σ) (content : σ → Option (List UInt8)) : Prop where
  load_content : ∀ st, content (S.load st).2 = content st
  load_value : ∀ {st bytes}, (S.load st).1 = some bytes → content st = some bytes.val
  saved : ∀ data st, (S.save data st).1 = true → content (S.save data st).2 = some data
  unsaved : ∀ data st, content (S.save data st).2 = content st ∨
    content (S.save data st).2 = some data

def fullAttempts : Nat := pwPolicy.maxAttempts.toNat

/-- The attempts that a load of the store gives to a slot. -/
def storedAttempts (content : σ → Option (List UInt8)) (store : σ) (pw : Pw) : Nat :=
  match content store with
  | none => fullAttempts
  | some bytes =>
    match decodeImage bytes with
    | some image => (image.slot pw).retriesRemaining.toNat
    | none => 0

def counters (content : σ → Option (List UInt8)) (pw : Pw) (c : OpenPgp σ) : Counters :=
  ⟨(c.slot pw).retriesRemaining.toNat, storedAttempts content c.store pw, (c.floor pw).toNat⟩

/-- The administrator unblocks PW1 with a new PIN. -/
def Unblocks (c : OpenPgp σ) (apdu : Apdu) : Prop :=
  apdu.ins = insResetRetryCounter ∧ apdu.p1 = 0x02 ∧ apdu.p2 = 0x81 ∧ c.pw3Verified = true ∧
    apdu.data.length = 8

instance (c : OpenPgp σ) (apdu : Apdu) : Decidable (Unblocks c apdu) :=
  inferInstanceAs (Decidable (_ ∧ _))

def commandMark (K : PgpCrypto) (pw : Pw) (c : OpenPgp σ) (apdu : Apdu) : Option Mark :=
  match presented apdu c with
  | none => if Unblocks c apdu ∧ pw = .pw1 then some .renewed else none
  | some (target, candidates) =>
    if target ≠ pw then none
    else if AcceptsAny K (c.slot pw) candidates then
      if apdu.ins = insChangeReferenceData then some .renewed else none
    else if (c.slot pw).Compares then some .wrong
    else none

/-- What an entry is to a slot. -/
def pinMark (K : PgpCrypto) (pw : Pw) (e : Log σ) : Option Mark :=
  match e.event with
  | .process apdu _ => commandMark K pw e.before apdu
  | .select => none

theorem NotWrong.commandMark_ne {c : OpenPgp σ} {apdu : Apdu} (h : NotWrong K c apdu) (pw : Pw) :
    commandMark K pw c apdu ≠ some .wrong := by
  unfold commandMark
  split
  · split <;> exact nofun
  rename_i target candidates hpr
  split
  · exact nofun
  rename_i ht
  split
  · split <;> exact nofun
  rename_i hwr
  rw [if_neg]
  · exact nofun
  intro hc
  have heq : target = pw := not_not.mp ht
  subst heq
  exact hwr (h target candidates hpr hc)

theorem commandMark_target {c : OpenPgp σ} {apdu : Apdu} {target : Pw}
    {candidates : List (List UInt8)} (h : presented apdu c = some (target, candidates)) (pw : Pw) :
    commandMark K pw c apdu = if target ≠ pw then none
      else if AcceptsAny K (c.slot pw) candidates then
        if apdu.ins = insChangeReferenceData then some .renewed else none
      else if (c.slot pw).Compares then some .wrong
      else none := by
  unfold commandMark
  rw [h]

/-! ## One step -/

structure RetryInv (content : σ → Option (List UInt8)) (pw : Pw) (initial : Nat)
    (marks : List (Option Mark)) (c : OpenPgp σ) : Prop where
  wellFormed : WellFormed c
  within : Within fullAttempts initial marks (counters content pw c)

section
variable {pw : Pw} {initial : Nat} {marks : List (Option Mark)} {mark : Option Mark}
  {c c₁ : OpenPgp σ}

/-- The saved state loads the counters it was saved with, or not at all. -/
theorem storedAttempts_saved (h : WellFormed c) {st : σ} (hst : content st = some c.encodeState)
    (pw : Pw) : storedAttempts content st pw ≤ (c.slot pw).retriesRemaining.toNat := by
  unfold storedAttempts
  rw [hst]
  dsimp only
  rw [decodeImage_encodeState h]
  split
  · rename_i image hig
    split at hig
    · cases hig
      cases pw <;> exact Nat.le_refl _
    · cases hig
  · exact Nat.zero_le _

theorem RetryInv.keep (h : RetryInv content pw initial marks c) (hwf : WellFormed c₁)
    (hsl : c₁.slot pw = c.slot pw) (hfl : c₁.floor pw = c.floor pw)
    (hst : c₁.store = c.store) (hmr : mark ≠ some .wrong) :
    RetryInv content pw initial (mark :: marks) c₁ := by
  have hsm : counters content pw c₁ = counters content pw c := by
    unfold counters
    rw [hsl, hfl, hst]
  refine ⟨hwf, ?_⟩
  rw [hsm]
  exact h.within.step (lowers_self hmr h.within.live_le) h.within.reload_le h.within.floor_le

theorem persistState_store (c : OpenPgp σ) :
    (c.persistState S).2.store = (S.save c.encodeState c.store).2 ∧
      (c.persistState S).1 = (S.save c.encodeState c.store).1 := by
  rw [persistState_eq]
  exact ⟨rfl, rfl⟩

/-- A slot that moved as its mark says, in a state that is persisted. -/
theorem RetryInv.persist (hS : Keeps S content) (h : RetryInv content pw initial marks c)
    (hwf : WellFormed c₁) (hlw : Lowers fullAttempts (c.slot pw).retriesRemaining.toNat
      (c₁.slot pw).retriesRemaining.toNat mark) :
    RetryInv content pw initial (mark :: marks) (c₁.persistState S).2 := by
  obtain ⟨hst, hsd⟩ := persistState_store (S := S) c₁
  have hk : counters content pw (c₁.persistState S).2 = ⟨_, _, _⟩ := rfl
  rw [persistState_slot, persistState_floor, hst, hsd] at hk
  refine ⟨hwf.persisted, ?_⟩
  rw [hk]
  rcases hsv : (S.save c₁.encodeState c₁.store).1 with _ | _
  · -- The save failed, so the floor is under the counter.
    rw [if_neg Bool.false_ne_true, toNat_min]
    exact h.within.step hlw (reload_le_of_floor (Nat.min_le_right _ _))
      (Nat.le_trans (Nat.min_le_left _ _) (UInt8.le_iff_toNat_le.mp (hwf.floors pw)))
  · have hle := storedAttempts_saved hwf (hS.saved _ _ hsv) pw
    exact h.within.step hlw (Nat.le_trans (Nat.min_le_left _ _) hle)
      (UInt8.le_iff_toNat_le.mp (hwf.pins pw).2)

theorem RetryInv.save (hS : Keeps S content) (h : RetryInv content pw initial marks c)
    (hwf : WellFormed c₁) (hsl : c₁.slot pw = c.slot pw) (hfl : c₁.floor pw = c.floor pw)
    (hst : c₁.store = c.store) (hmr : mark ≠ some .wrong) :
    RetryInv content pw initial (mark :: marks) (c₁.saveState S).2 := by
  have hk : counters content pw (c₁.saveState S).2 = ⟨(c.slot pw).retriesRemaining.toNat,
      storedAttempts content (S.save c₁.encodeState c₁.store).2 pw, (c.floor pw).toNat⟩ := by
    rw [← hsl, ← hfl]
    cases pw <;> rfl
  refine ⟨hwf.saved, ?_⟩
  rw [hk]
  refine h.within.step (lowers_self hmr h.within.live_le) ?_ h.within.floor_le
  rcases hS.unsaved c₁.encodeState c₁.store with hkp | hn
  · have hs : storedAttempts content (S.save c₁.encodeState c₁.store).2 pw =
        storedAttempts content c.store pw := by
      unfold storedAttempts
      rw [hkp, hst]
    rw [hs]
    exact h.within.reload_le
  · refine Nat.le_trans (Nat.min_le_left _ _) ?_
    rw [← hsl]
    exact storedAttempts_saved hwf hn pw

theorem setSlot_self (c : OpenPgp σ) (pw : Pw) (slot : PinSlot) :
    (c.setSlot pw slot).slot pw = slot := by cases pw <;> rfl

theorem setSlot_other (c : OpenPgp σ) {pw target : Pw} (h : target ≠ pw) (slot : PinSlot) :
    (c.setSlot target slot).slot pw = c.slot pw := by
  cases pw <;> cases target <;> first | exact absurd rfl h | rfl

/-- A new slot for one PIN: the other one keeps its counter. -/
theorem setSlot_lowers (h : RetryInv content pw initial marks c) (target : Pw) {slot : PinSlot}
    (hsl : target = pw → Lowers fullAttempts (c.slot pw).retriesRemaining.toNat
      slot.retriesRemaining.toNat mark)
    (hoh : target ≠ pw → mark ≠ some .wrong) :
    Lowers fullAttempts (c.slot pw).retriesRemaining.toNat
      ((c.setSlot target slot).slot pw).retriesRemaining.toNat mark := by
  by_cases heq : target = pw
  · subst heq
    rw [setSlot_self]
    exact hsl rfl
  · rw [setSlot_other c heq]
    exact lowers_self (hoh heq) h.within.live_le

theorem Effect.retries {c' : OpenPgp σ} {apdu : Apdu} {rng : Rng} {answer : Response}
    (he : Effect K S c apdu rng answer c') (hS : Keeps S content)
    (h : RetryInv content pw initial marks c) :
    RetryInv content pw initial (commandMark K pw c apdu :: marks) c' := by
  have hwf := h.wellFormed
  have hlv := h.within.live_le
  -- The other commands present nothing.
  have hqt : ∀ {ins : UInt8}, apdu.ins = ins → ins ≠ insVerify ∧ ins ≠ insChangeReferenceData →
      commandMark K pw c apdu ≠ some .wrong :=
    fun hi hn => (notWrong_of_ins (hi ▸ hn.1) (hi ▸ hn.2)).commandMark_ne pw
  cases he with
  | idle hrg => exact h.keep hwf rfl rfl rfl (hrg.commandMark_ne pw)
  | pinAccepted _ _ _ hrg =>
    unfold markVerified
    split <;>
      exact h.keep (hwf.congr (forall_pw rfl rfl) (forall_pw rfl rfl) rfl) (by cases pw <;> rfl)
        (by cases pw <;> rfl) rfl (hrg.commandMark_ne pw)
  | @pinWrong candidates c₁ target hpr hm hwr hc₁ =>
    subst hc₁
    rw [commandMark_target hpr]
    refine h.persist hS (hwf.setSlot target ((hwf.pins target).attempted hm))
      (setSlot_lowers h target (fun heq => ?_) fun hne => ?_)
    · subst heq
      rw [if_neg (not_not.mpr rfl), if_neg hwr, if_pos hm]
      exact PinSlot.attempted_lowers hm
    · rw [if_pos hne]
      rintro ⟨⟩
  | @pinChanged candidates c₁ target new hi hpr ha hc₁ =>
    subst hc₁
    have hn : PwOk ((c.slot target).installed K.sha256 new) := (hwf.pins target).installed new
    rw [commandMark_target hpr]
    refine h.persist hS (hwf.setSlot target hn)
      (setSlot_lowers h target (fun heq => ?_) fun hne => ?_)
    · subst heq
      rw [if_neg (not_not.mpr rfl), if_pos ha, if_pos hi]
      exact UInt8.le_iff_toNat_le.mp hn.2
    · rw [if_pos hne]
      rintro ⟨⟩
  | @pinUnblocked c₁ hi hp1 hp2 had hl hc₁ =>
    subst hc₁
    have hn : PwOk (c.pw1.installed K.sha256 apdu.data) := (hwf.pins .pw1).installed apdu.data
    have hno : presented apdu c = none := by
      rw [presented, if_neg (by rw [hi]; decide), if_neg (by rw [hi]; decide)]
    have hmr : commandMark K pw c apdu = if pw = .pw1 then some .renewed else none := by
      have hu : Unblocks c apdu := ⟨hi, hp1, hp2, had, hl⟩
      unfold commandMark
      rw [hno]
      simp only [hu, true_and]
    rw [hmr]
    refine h.persist hS (hwf.setSlot .pw1 hn) (setSlot_lowers h .pw1 (fun heq => ?_) fun hne => ?_)
    · rw [if_pos heq.symm]
      exact UInt8.le_iff_toNat_le.mp hn.2
    · rw [if_neg (Ne.symm hne)]
      rintro ⟨⟩
  | pinKept _ hrg =>
    exact h.persist hS hwf (lowers_self (hrg.commandMark_ne pw) hlv)
  | @objectPut c₁ hi _ hpt =>
    refine h.persist hS (putObject_wellFormed hwf hpt) ?_
    rw [(putObject_cases hpt).1.slot]
    exact lowers_self (hqt hi (by decide)) hlv
  | @keyGenerated _ c₁ index key hg _ hk hc₁ =>
    subst hc₁
    have ht : WellFormed (c.installKey index key) :=
      hwf.setKey index (generated_keyOk hk) (forall_pw rfl rfl) (forall_pw rfl rfl) rfl
    exact h.save hS ht (by cases pw <;> rfl) (by cases pw <;> rfl) rfl
      (hqt hg.1 (by decide))
  | @signed _ c₁ hs _ _ _ hc₁ =>
    subst hc₁
    have ht : WellFormed { c with
        signatureCounter := c.signatureCounter + 1, pw1SignatureVerified := false } :=
      hwf.congr (forall_pw rfl rfl) (forall_pw rfl rfl) rfl
    exact h.save hS ht (by cases pw <;> rfl) (by cases pw <;> rfl) rfl
      (hqt hs.1 (by decide))

end

/-! ## SELECT -/

section
variable {c : OpenPgp σ}

theorem storedAttempts_le (store : σ) (pw : Pw) :
    storedAttempts content store pw ≤ fullAttempts := by
  unfold storedAttempts
  split
  · exact Nat.le_refl _
  split
  · rename_i image hig
    exact UInt8.le_iff_toNat_le.mp ((decodeImage_wellFormed hig).pins pw).2
  · exact Nat.zero_le _

/-- The loads that succeed: the store is blank, or what it gives is accepted. -/
def Loads (S : OpenPgpStore σ) (content : σ → Option (List UInt8)) (c : OpenPgp σ) : Prop :=
  content c.store = none ∨ (c.found S).isSome

theorem clampToFloor_toNat {slot : PinSlot} {floor : UInt8} (hsl : slot.policy = pwPolicy)
    (hfl : floor ≤ pwPolicy.maxAttempts) :
    (clampToFloor slot floor).retriesRemaining.toNat =
      min slot.retriesRemaining.toNat floor.toNat := by
  rw [clampToFloor_eq (hsl ▸ hfl)]
  exact toNat_min _ _

/-- After a SELECT that loads, the live counter is what a load brings back, and the next load
  brings back no more. -/
theorem select_counters (hS : Keeps S content) (hc : WellFormed c) (hls : Loads S content c)
    (pw : Pw) :
    (counters content pw (c.select K S).2).live = (counters content pw c).reload ∧
      (counters content pw (c.select K S).2).reload ≤ (counters content pw (c.select K S).2).live ∧
      (counters content pw (c.select K S).2).floor = (counters content pw c).floor := by
  obtain ⟨slot, hp, hr, hsl, hfl, hst⟩ : ∃ slot : PinSlot, slot.policy = pwPolicy ∧
      slot.retriesRemaining.toNat = storedAttempts content c.store pw ∧
      (c.select K S).2.slot pw = clampToFloor slot (c.floor pw) ∧
      (c.select K S).2.floor pw = c.floor pw ∧
      storedAttempts content (c.select K S).2.store pw ≤ storedAttempts content c.store pw := by
    have hpw := (hc.pins pw).1
    rcases hfn : c.found S with _ | image
    · -- The store is blank: the factory PINs are installed under the floors, and saved.
      have hbl : content c.store = none := hls.resolve_right (by rw [hfn]; exact nofun)
      have hs : storedAttempts content c.store pw = fullAttempts := by rw [storedAttempts, hbl]
      have hop : WellFormed (c.opened S) := hc.congr (forall_pw rfl rfl) (forall_pw rfl rfl) rfl
      refine ⟨(c.slot pw).installed K.sha256 (pw.casesOn factoryPw1 factoryPw3), hpw, ?_, ?_, ?_,
        hs ▸ storedAttempts_le _ _⟩
      · rw [hs, fullAttempts, ← hpw]
        rfl
      · rw [select_missed hfn, provision_eq hop]
        cases pw <;> rfl
      · rw [select_missed hfn]
        cases pw <;> rfl
    · obtain ⟨bytes, hld, hd⟩ := Option.bind_eq_some_iff.mp hfn
      have hs : storedAttempts content c.store pw = (image.slot pw).retriesRemaining.toNat := by
        rw [storedAttempts, hS.load_value hld]
        dsimp only
        rw [hd]
      have hsr : content (c.select K S).2.store = content c.store := by
        rw [select_found hfn]
        exact hS.load_content c.store
      refine ⟨image.slot pw, ((decodeImage_wellFormed hd).pins pw).1, hs.symm, ?_, ?_, ?_⟩
      · rw [select_found hfn]
        cases pw <;> rfl
      · rw [select_found hfn]
        cases pw <;> rfl
      · rw [storedAttempts, hsr, ← storedAttempts]
  have hlv : (counters content pw (c.select K S).2).live = (counters content pw c).reload := by
    rw [counters, hsl, clampToFloor_toNat hp (hc.floors pw), hr]
    rfl
  refine ⟨hlv, ?_, congrArg UInt8.toNat hfl⟩
  rw [hlv, Counters.reload, counters, hfl]
  exact Nat.le_min.mpr ⟨Nat.le_trans (Nat.min_le_left _ _) hst, Nat.min_le_right _ _⟩

/-- A SELECT after the first never gives an attempt back. -/
theorem select_retries (hS : Keeps S content) {pw : Pw} {initial : Nat}
    {marks : List (Option Mark)} (h : RetryInv content pw initial marks c)
    (hld : Loads S content c) :
    RetryInv content pw initial (none :: marks) (c.select K S).2 ∧
      ((c.select K S).2.slot pw).retriesRemaining.toNat ≤ (c.slot pw).retriesRemaining.toNat := by
  obtain ⟨hlv, hr, hfl⟩ := select_counters hS h.wellFormed hld pw
  have hle : (counters content pw (c.select K S).2).live ≤ (counters content pw c).live :=
    hlv ▸ h.within.reload_le
  exact ⟨⟨select_wellFormed h.wellFormed,
    h.within.step (show Lowers _ _ _ none from hle) hr (hfl ▸ h.within.floor_le)⟩, hle⟩

/-- The first SELECT starts the budget with what the store holds. -/
theorem first_select_retries (hS : Keeps S content) (store : σ) (pw : Pw)
    (hld : Loads S content (new store)) :
    RetryInv content pw (storedAttempts content store pw) [none] ((new store).select K S).2 := by
  obtain ⟨hlv, hr, hfl⟩ :=
    select_counters hS (wellFormed_new store) hld pw
  have hfu : (counters content pw (new store)).floor = fullAttempts := by cases pw <;> rfl
  refine ⟨select_wellFormed (wellFormed_new store), .start ?_ (storedAttempts_le _ _) hr ?_⟩
  · rw [hlv]
    exact Nat.min_le_left _ _
  · rw [hfl, hfu]

end

/-! ## Every history -/

/-- The session starts with a SELECT, and each SELECT loads the state: a run in which the bytes
  that the card itself saved are rejected is left out, too. -/
def LoadsSucceed (S : OpenPgpStore σ) (content : σ → Option (List UInt8)) (e : Log σ)
    (past : List (Log σ)) : Prop :=
  (past = [] → IsSelect e) ∧ (IsSelect e → Loads S content e.before)

/-- The wrong presentations that were compared stay within the budget, and a SELECT gives no
  attempt back. -/
def RetriesKept (K : PgpCrypto) (S : OpenPgpStore σ) (pw : Pw) (initial : Nat) (e : Log σ)
    (past : List (Log σ)) : Prop :=
  spent ((e :: past).map (pinMark K pw)) ≤
      budget fullAttempts initial ((e :: past).map (pinMark K pw)) ∧
    (IsSelect e → ((e.before.select K S).2.slot pw).retriesRemaining.toNat ≤
      (e.before.slot pw).retriesRemaining.toNat)

theorem retries_kept (hS : Keeps S content) (store : σ) (es : List Event)
    (hld : Along (LoadsSucceed S content) (history (step K S) (new store) es)) (pw : Pw) :
    Along (RetriesKept K S pw (storedAttempts content store pw))
      (history (step K S) (new store) es) := by
  refine along_history (I := fun c past => (past = [] ∧ c = new store) ∨
    RetryInv content pw (storedAttempts content store pw) (past.map (pinMark K pw)) c)
    (.inl ⟨rfl, rfl⟩) ?_ es hld
  intro c past e hi hcn
  rcases hi with ⟨rfl, rfl⟩ | hi
  · cases e with
    | select =>
      have hfr := first_select_retries (K := K) hS store pw (hcn.2 rfl)
      exact ⟨⟨hfr.within.spent_le, fun _ => by
        cases pw <;> exact hfr.within.live_le⟩, .inr hfr⟩
    | process => exact absurd (hcn.1 rfl) nofun
  · cases e with
    | select =>
      obtain ⟨hnx, hle⟩ := select_retries hS hi (hcn.2 rfl)
      exact ⟨⟨hnx.within.spent_le, fun _ => hle⟩, .inr hnx⟩
    | process apdu rng =>
      have hnx := (process_effect (K := K) c apdu rng).retries hS hi
      exact ⟨⟨hnx.within.spent_le, nofun⟩, .inr hnx⟩

end AegisToken.Applets.OpenPgp

namespace AegisToken.Applets
open History

/-! ## Both applets -/

/-- Over one power session of the PIV applet and of the OpenPGP applet, with saves that may fail
  and loads that succeed, every slot keeps within its budget of wrong presentations: what the
  store held at power-up, or all attempts since the slot was last set. -/
theorem retry_counters_survive_failing_saves :
    (∀ {σ : Type} (K : PivCrypto) (S : PivStore σ) (content : σ → Nat → Option (List UInt8)),
      Piv.Holds S content → Piv.ReadsAll S content → ∀ (store : σ) (es : List Piv.Event),
      Along Piv.LoadsSucceed (history (Piv.step K S) (Piv.new store) es) → ∀ record,
      Along (Piv.RetriesKept K S record (Piv.storedAttempts content store record))
        (history (Piv.step K S) (Piv.new store) es)) ∧
    (∀ {σ : Type} (K : PgpCrypto) (S : OpenPgpStore σ) (content : σ → Option (List UInt8)),
      OpenPgp.Keeps S content → ∀ (store : σ) (es : List OpenPgp.Event),
      Along (OpenPgp.LoadsSucceed S content) (history (OpenPgp.step K S) (OpenPgp.new store) es) →
      ∀ pw, Along (OpenPgp.RetriesKept K S pw (OpenPgp.storedAttempts content store pw))
        (history (OpenPgp.step K S) (OpenPgp.new store) es)) :=
  ⟨fun _ _ _ hS hreads store es hloads record => Piv.retries_kept hS hreads store es hloads record,
    fun _ _ _ hS store es hloads pw => OpenPgp.retries_kept hS store es hloads pw⟩

/-- The memory store, with every write refused. -/
def Piv.refusing : PivStore (List (Nat × List UInt8)) :=
  { Piv.memoryStore with write := fun _ _ st => (false, st) }

theorem Piv.refusing_holds : Piv.Holds Piv.refusing Piv.memoryContent where
  read_content := Piv.memoryStore_holds.read_content
  read_value := Piv.memoryStore_holds.read_value
  written _ _ _ h := nomatch h
  others _ _ _ _ _ := rfl

theorem Piv.refusing_readsAll : Piv.ReadsAll Piv.refusing Piv.memoryContent := by
  intro record cap st bytes hcn hl hrd
  change (st.lookup record).bind (ByteCodec.BoundedBytes.ofSlice cap) = none at hrd
  rw [show st.lookup record = some bytes from hcn, Option.bind_some,
    ByteCodec.BoundedBytes.ofSlice, dif_pos hl] at hrd
  cases hrd

/-- A card with the factory PIN, two attempts left, and PUK. -/
def Piv.usedCard : List (Nat × List UInt8) :=
  [(Piv.recordPin, (⟨Piv.pivPinPolicy, some Piv.defaultPinHash, 2⟩ : PinSlot).encode.val),
    (Piv.recordPuk, (⟨Piv.pivPinPolicy, some eightDigitsHash, 3⟩ : PinSlot).encode.val),
    (Piv.recordMgmtKey, [Piv.algTdes, 24] ++ Piv.defaultMgmtKey)]

/-- Present a wrong PIN between two SELECTs. -/
def Piv.wrongOnce : List Piv.Event :=
  [.select, .process ⟨Piv.insVerify, 0x00, Piv.refPin, Piv.paddedPin Piv.defaultPuk, none⟩ Piv.zeros,
    .select]

/-- A blank store that refuses every save. -/
def OpenPgp.refusing : OpenPgpStore Unit where
  load _ := (none, ())
  save _ _ := (false, ())

theorem OpenPgp.refusing_keeps : OpenPgp.Keeps OpenPgp.refusing fun _ => none where
  load_content _ := rfl
  load_value h := nomatch h
  saved _ _ h := nomatch h
  unsaved _ _ := .inl rfl

def OpenPgp.wrongOnce : List OpenPgp.Event :=
  [.select, OpenPgp.verifyPw 0x81 OpenPgp.wrongPin, .select]

theorem retry_counters_survive_refused_saves :
    (Along (Piv.RetriesKept Piv.exampleCrypto Piv.refusing .pin 2)
        (history (Piv.step Piv.exampleCrypto Piv.refusing) (Piv.new Piv.usedCard) Piv.wrongOnce) ∧
      (Runs.run (fun c e => (Piv.step Piv.exampleCrypto Piv.refusing c e).2) (Piv.new Piv.usedCard)
        Piv.wrongOnce).pin.retriesRemaining = 1) ∧
    Along (OpenPgp.RetriesKept OpenPgp.exampleCrypto OpenPgp.refusing .pw1 3)
        (history (OpenPgp.step OpenPgp.exampleCrypto OpenPgp.refusing) (OpenPgp.new ())
          OpenPgp.wrongOnce) ∧
      (OpenPgp.run OpenPgp.exampleCrypto OpenPgp.refusing (OpenPgp.new ())
        OpenPgp.wrongOnce).pw1.retriesRemaining = 2 := by
  refine ⟨⟨?_, by decide +kernel⟩, ?_, by decide +kernel⟩
  · exact retry_counters_survive_failing_saves.1 Piv.exampleCrypto Piv.refusing Piv.memoryContent
      Piv.refusing_holds Piv.refusing_readsAll Piv.usedCard Piv.wrongOnce
      ⟨⟨nofun, fun _ => by decide +kernel⟩, ⟨nofun, nofun⟩,
        ⟨fun _ => rfl, fun _ => by decide +kernel⟩, trivial⟩ .pin
  · exact retry_counters_survive_failing_saves.2 OpenPgp.exampleCrypto OpenPgp.refusing _
      OpenPgp.refusing_keeps () OpenPgp.wrongOnce
      ⟨⟨nofun, fun _ => .inl rfl⟩, ⟨nofun, nofun⟩, ⟨fun _ => rfl, fun _ => .inl rfl⟩, trivial⟩ .pw1

end AegisToken.Applets
