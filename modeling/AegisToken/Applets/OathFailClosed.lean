/-
  A SELECT of the OATH applet that cannot load the state.
  The applet is closed then, and stays so until a SELECT loads or a RESET succeeds. A closed applet
  leaves its state and its store alone and answers `6F00`, except to a RESET with other parameters
  than the right ones, which gets `6D00`. What it says at SELECT is always the same.
-/
import AegisToken.Applets.OathAccessCode

namespace AegisToken.Applets.Oath
open History

variable {σ : Type} {K : OathCrypto} {S : OathStore σ}

/-! ## The statement -/

/-- The last SELECT could not load the state, and no RESET succeeded since. -/
def FailedLoad (S : OathStore σ) : List (Log σ) → Prop :=
  Since (fun e _ => IsSelect e ∧ ¬LoadWorks S e.before)
    fun e => (IsSelect e ∧ LoadWorks S e.before) ∨ Succeeds isReset e

/-- The answer of SELECT without anything of the state. -/
def closedAnswer : Response := elementsAnswer [(tagVersion, [5, 0, 0]), (tagName, deviceId)]

def closedStatus (apdu : Apdu) : Sw :=
  if apdu.ins = insReset then .insNotSupported else .noPreciseDiagnosis

structure FailsClosed (K : OathCrypto) (S : OathStore σ) (e : Log σ) (past : List (Log σ)) :
    Prop where
  command : FailedLoad S past → ∀ apdu, e.event = .process apdu → ¬isReset apdu →
    e.answer = .status (closedStatus apdu) ∧ (step K S e.before e.event).2 = e.before
  confirm : FailedLoad S past → e.event = .confirm →
    e.answer = .status .noPreciseDiagnosis ∧ (step K S e.before e.event).2 = e.before
  select : IsSelect e → ¬LoadWorks S e.before → e.answer = closedAnswer
  reset : ∀ apdu, e.event = .process apdu → isReset apdu →
    (S.clear (e.before.loadState S).store).1 = false →
    e.answer = .status .notEnoughMemory ∧ (step K S e.before e.event).2 =
      { e.before.loadState S with
        store := (S.clear (e.before.loadState S).store).2, pending := none }

/-! ## A failed load -/

/-- A load that fails closes the applet, whatever was decoded by then. -/
theorem reload_of_fails {c : Oath σ} (h : ¬LoadWorks S c) :
    c.reload S = { c with loaded := true, store := (S.load c.store).2 }.close := by
  rw [reload_eq]
  rcases hld : (S.load c.store).1 with _ | bytes
  · rfl
  have hbt : ¬(bytes.val = [] ∨ (c.decodeState bytes.val).isSome) :=
    fun hb => h ⟨bytes, hld, hb⟩
  dsimp only
  rw [if_neg fun hn => hbt (.inl hn)]
  rcases hd : ({ c with loaded := true, store := (S.load c.store).2 } : Oath σ).decodeState
      bytes.val with _ | d
  · rfl
  · refine absurd (.inr ?_) hbt
    rw [decodeState_restore hd c]
    rfl

theorem select_of_fails {c : Oath σ} {e : Event} (he : e.isSelect) (h : ¬LoadWorks S c) :
    (step K S c e).1 = closedAnswer ∧ (step K S c e).2.loaded = true ∧
      (step K S c e).2.closed = true := by
  have hr := reload_of_fails h
  cases e with
  | select =>
    change (c.reload S).selectResponse.1 = _ ∧ (c.reload S).selectResponse.2.loaded = _ ∧
      (c.reload S).selectResponse.2.closed = _
    rw [hr]
    exact ⟨rfl, rfl, rfl⟩
  | selectWithRng rng =>
    -- No access key is left, so the challenge is not drawn.
    have hk : (c.reload S).authKey.val = [] := by
      rw [hr]
      rfl
    have hst : step K S c (.selectWithRng rng) = (c.reload S).selectResponse := by
      change Oath.selectResponse (if (c.reload S).authKey.val ≠ [] then _ else c.reload S) = _
      rw [if_neg (not_not.mpr hk)]
    rw [hst, hr]
    exact ⟨rfl, rfl, rfl⟩
  | process | confirm | deny => cases he

/-! ## Closed applets -/

section
variable {c : Oath σ} {apdu : Apdu} {past : List (Log σ)}

theorem loadState_of_loaded (h : c.loaded = true) : c.loadState S = c := if_pos h

/-- A command that is not a RESET with the right parameters. -/
theorem process_of_closed (hld : c.loaded = true) (hcl : c.closed = true)
    (hrs : ¬isReset apdu) : c.process K S apdu = (.status (closedStatus apdu), c) := by
  unfold closedStatus
  rcases process_cases c apdu with ⟨-, hne, heq⟩ | ⟨hon, heq, -⟩
  · rw [heq, if_neg hne, loadState_of_loaded hld]
  rw [loadState_of_loaded hld] at hon heq
  have hi : apdu.ins = insReset :=
    hon.resolve_left fun hc => Bool.false_ne_true (hc.symm.trans hcl)
  have hr : ¬(insReset = insReset ∧ apdu.p1 = 0xDE ∧ apdu.p2 = 0xAD) :=
    fun hp => hrs ⟨hi, hp.2⟩
  rw [heq, if_pos hi]
  unfold dispatch
  rw [hi, if_neg nofun, if_neg nofun, if_neg nofun, if_neg hr,
    if_neg (fun hp => absurd hp.1 nofun), if_neg nofun, if_neg nofun,
    if_neg nofun]

theorem confirm_of_closed (hld : c.loaded = true) (hcl : c.closed = true) :
    c.confirmPresence K S = (.status .noPreciseDiagnosis, c) := by
  unfold confirmPresence stateAvailable
  rw [loadState_of_loaded hld]
  dsimp only
  rw [hcl]
  exact if_pos rfl

theorem process_reset (hrs : isReset apdu) :
    c.process K S apdu = (c.loadState S).reset S := by
  rcases process_cases c apdu with ⟨-, hne, -⟩ | ⟨-, heq, -⟩
  · exact absurd hrs.1 hne
  rw [heq]
  unfold dispatch
  rw [if_neg (by rw [hrs.1]; decide), if_neg (by rw [hrs.1]; decide),
    if_neg (by rw [hrs.1]; decide)]
  exact if_pos hrs

theorem reset_of_uncleared (hcl : (S.clear c.store).1 = false) :
    c.reset S = (.status .notEnoughMemory,
      { c with store := (S.clear c.store).2, pending := none }) := by
  unfold reset
  dsimp only
  rw [hcl]
  exact if_pos rfl

theorem reset_of_cleared (hcl : (S.clear c.store).1 = true) :
    (c.reset S).1 = .status .ok := by
  unfold reset
  dsimp only
  rw [hcl]
  rfl

/-! ## Whole histories -/

/-- After a failed load the applet is closed. -/
def ClosedInv (S : OathStore σ) (c : Oath σ) (past : List (Log σ)) : Prop :=
  FailedLoad S past → c.loaded = true ∧ c.closed = true

theorem failedLoad_later {x : Log σ} (hx : ¬IsSelect x) (h : FailedLoad S (x :: past)) :
    FailedLoad S past ∧ ¬Succeeds isReset x := by
  rcases h with ⟨hs, -⟩ | ⟨hst, hps⟩
  · exact absurd hs hx
  · exact ⟨hps, fun hrs => hst (.inr hrs)⟩

theorem select_closed {e : Event} (he : e.isSelect) :
    ClosedInv S (step K S c e).2 (entry (step K S) c e :: past) := by
  intro hfl
  rcases hfl with ⟨-, hfs⟩ | ⟨hst, -⟩
  · exact (select_of_fails he hfs).2
  · by_cases hwr : LoadWorks S c
    · exact absurd (.inl ⟨he, hwr⟩) hst
    · exact (select_of_fails he hwr).2

theorem process_closed (h : ClosedInv S c past) :
    ClosedInv S (step K S c (.process apdu)).2 (entry (step K S) c (.process apdu) :: past) := by
  intro hfl
  obtain ⟨hps, hfs⟩ := failedLoad_later (not_isSelect rfl) hfl
  obtain ⟨hld, hcl⟩ := h hps
  change (c.process K S apdu).2.loaded = true ∧ (c.process K S apdu).2.closed = true
  by_cases hrs : isReset apdu
  · have ha : (c.process K S apdu).1.sw ≠ .ok := fun hok => hfs ⟨apdu, rfl, hrs, hok⟩
    rw [process_reset hrs, loadState_of_loaded hld] at ha ⊢
    rcases hcr : (S.clear c.store).1 with _ | _
    · rw [reset_of_uncleared hcr]
      exact ⟨hld, hcl⟩
    · rw [reset_of_cleared hcr] at ha
      exact absurd rfl ha
  · rw [process_of_closed hld hcl hrs]
    exact ⟨hld, hcl⟩

theorem presence_closed {e : Event} (he : e = .confirm ∨ e = .deny) (h : ClosedInv S c past) :
    ClosedInv S (step K S c e).2 (entry (step K S) c e :: past) := by
  intro hfl
  have hs : ¬IsSelect (entry (step K S) c e) := by
    rcases he with rfl | rfl <;> exact id
  obtain ⟨hld, hcl⟩ := h (failedLoad_later hs hfl).1
  rcases he with rfl | rfl
  · change (c.confirmPresence K S).2.loaded = true ∧ (c.confirmPresence K S).2.closed = true
    rw [confirm_of_closed hld hcl]
    exact ⟨hld, hcl⟩
  · exact ⟨hld, hcl⟩

/-- What every entry says, if the applet is closed after a failed load. -/
theorem ClosedInv.failsClosed (h : ClosedInv S c past) (e : Event) :
    FailsClosed K S (entry (step K S) c e) past where
  command hfl apdu hev hrs := by
    change e = .process apdu at hev
    subst hev
    obtain ⟨hld, hcl⟩ := h hfl
    change (c.process K S apdu).1 = _ ∧ (c.process K S apdu).2 = c
    rw [process_of_closed hld hcl hrs]
    exact ⟨rfl, rfl⟩
  confirm hfl hev := by
    change e = .confirm at hev
    subst hev
    obtain ⟨hld, hcl⟩ := h hfl
    change (c.confirmPresence K S).1 = _ ∧ (c.confirmPresence K S).2 = c
    rw [confirm_of_closed hld hcl]
    exact ⟨rfl, rfl⟩
  select hs hfs := (select_of_fails hs hfs).1
  reset apdu hev hrs hcr := by
    change e = .process apdu at hev
    subst hev
    change (c.process K S apdu).1 = _ ∧ (c.process K S apdu).2 = _
    rw [process_reset hrs]
    exact Prod.ext_iff.mp (reset_of_uncleared hcr)

end

theorem oath_fails_closed (c : Oath σ) (es : List Event) :
    Along (FailsClosed K S) (history (step K S) c es) := by
  refine along_history_of_all (I := ClosedInv S) (fun h => h.elim) (fun c past e hI => ?_) es
  refine ⟨hI.failsClosed e, ?_⟩
  cases e with
  | select | selectWithRng rng => exact select_closed trivial
  | process apdu => exact process_closed hI
  | confirm => exact presence_closed (.inl rfl) hI
  | deny => exact presence_closed (.inr rfl) hI

def unreadable : OathStore Unit where
  load st := (none, st)
  save _ st := (false, st)
  clear st := (false, st)

/-- A RESET without its parameters is not refused as the other commands are. -/
theorem closed_answers_malformed_reset :
    ¬isReset ⟨insReset, 0, 0, [], none⟩ ∧
    answers (step exampleCrypto unreadable) (new ())
      [.select, .process ⟨insReset, 0, 0, [], none⟩, .process listAll] =
        [closedAnswer, .status .insNotSupported, .status .noPreciseDiagnosis] := by
  decide

end AegisToken.Applets.Oath
