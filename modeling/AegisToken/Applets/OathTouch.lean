/-
  What the touch of the user releases in the OATH applet.
  A CALCULATE of a credential with the touch property arms a request, which holds the index of the
  credential. Every command that can move the credentials or replace one drops the request, and the
  calculations in between are of credentials without the touch property; so a request that is still
  armed points at the credential as CALCULATE found it.
-/
import AegisToken.Applets.OathAccessCode

namespace AegisToken.Applets.Oath
open ByteCodec History

variable {σ : Type} {K : OathCrypto} {S : OathStore σ}

/-! ## The statement -/

/-- The entry is a CALCULATE that asks for a touch. -/
def Asks (e : Log σ) : Prop :=
  ∃ apdu, e.event = .process apdu ∧ apdu.ins = insCalculate ∧ e.answer = .presenceRequired

/-- It asks for one with the calculation `k`. -/
def AsksFor (S : OathStore σ) (k : Calculation) (e : Log σ) : Prop :=
  ∃ apdu, e.event = .process apdu ∧ apdu.ins = insCalculate ∧ e.answer = .presenceRequired ∧
    (e.before.loadState S).requested apdu = some k

/-- The entry is a confirmation that released a code. -/
def Confirmed (e : Log σ) : Prop := e.event = .confirm ∧ e.answer.sw = .ok

/-- The last CALCULATE that asked for a touch asked for it with `k`, and no code was released by a
  confirmation since. -/
def LastAsked (S : OathStore σ) (k : Calculation) : List (Log σ) → Prop :=
  Since (fun e _ => AsksFor S k e) fun e => Asks e ∨ Confirmed e

/-- A confirmation looks at no credential that is not there. What it releases is the code of the
  last request, over its challenge with zeros in front, for the credential that the request named,
  which is as it was then. That is the code over the challenge itself exactly for a challenge of 8
  bytes, or a counter. -/
def TouchExact (K : OathCrypto) (S : OathStore σ) (e : Log σ) (past : List (Log σ)) : Prop :=
  e.event = .confirm →
    (∀ pending, (e.before.loadState S).pending = some pending →
      pending.index < (e.before.loadState S).credentials.val.length) ∧
    (e.answer.sw = .ok → ∃ k code, LastAsked S k past ∧
      (e.before.loadState S).credentials.val[k.index]? = some k.credential ∧
      computeCredential K k.credential (padded k.challenge).val k.truncated = some code ∧
      (computeCredential K k.credential k.challenge k.truncated = some code ↔
        k.challenge.length = 8 ∨ k.credential.kind = typeHotp) ∧
      e.answer = codeAnswer k.truncated code)

/-! ## One step -/

/-- An armed request is the last one that was asked for, and its credential is there. -/
def TouchInv (S : OathStore σ) (c : Oath σ) (past : List (Log σ)) : Prop :=
  ∀ pending, c.pending = some pending → c.loaded = true ∧ ∃ k, LastAsked S k past ∧
    pending = ⟨k.index, padded k.challenge, k.truncated⟩ ∧
    c.credentials.val[k.index]? = some k.credential ∧ k.credential.NeedsTouch

section
variable {c c' : Oath σ} {past : List (Log σ)} {x : Log σ} {apdu : Apdu}

theorem touchInv_of_none (h : c.pending = none) : TouchInv S c past :=
  fun _ hpn => nomatch h.symm.trans hpn

theorem loadState_pending (h : c.pending = none) : (c.loadState S).pending = none := by
  by_cases hld : c.loaded = true
  · rw [show c.loadState S = c from if_pos hld]
    exact h
  unfold loadState
  rw [if_neg hld]
  dsimp only
  split
  · rfl
  split
  · rfl
  split
  · rename_i hd
    have hsl := decodeState_restore hd
      ({ c with loaded := true, store := (S.load c.store).2 } : Oath σ)
    rw [hd, Option.some.injEq] at hsl
    rw [hsl]
    exact h
  · rfl

/-- A request is armed on a loaded applet only, which the load leaves as it is. -/
theorem TouchInv.loadState (h : TouchInv S c past) : TouchInv S (c.loadState S) past := by
  by_cases hld : c.loaded = true
  · rw [show c.loadState S = c from if_pos hld]
    exact h
  refine touchInv_of_none (loadState_pending ?_)
  rcases hpn : c.pending with _ | pending
  · rfl
  · exact absurd (h pending hpn).1 hld

theorem TouchInv.keep (h : TouchInv S c past) (hld : c'.loaded = c.loaded)
    (hpn : c'.pending = c.pending ∨ c'.pending = none)
    (hcd : ∀ (index : Nat) (credential : Credential), credential.NeedsTouch →
      c.credentials.val[index]? = some credential → c'.credentials.val[index]? = some credential)
    (hak : ¬Asks x) (hcn : ¬Confirmed x) : TouchInv S c' (x :: past) := by
  intro pending hp
  rcases hpn with hsm | hno
  · obtain ⟨hl, k, hls, hk, hcr, htc⟩ := h pending (hsm ▸ hp)
    have hst : ¬(Asks x ∨ Confirmed x) := fun hs => hs.elim hak hcn
    exact ⟨hld.trans hl, k, .inr ⟨hst, hls⟩, hk, hcd _ _ htc hcr, htc⟩
  · cases hno.symm.trans hp

theorem TouchInv.process (h : TouchInv S c past) :
    TouchInv S (c.process K S apdu).2 (entry (step K S) c (.process apdu) :: past) := by
  have h₀ := h.loadState
  have hcn : ¬Confirmed (entry (step K S) c (.process apdu)) := fun hc => nomatch hc.1
  have hak : ((c.process K S apdu).1 = .presenceRequired → apdu.ins ≠ insCalculate) →
      ¬Asks (entry (step K S) c (.process apdu)) := by
    rintro hne ⟨apdu', hev, hi, ha⟩
    cases hev
    exact hne ha hi
  rcases process_cases c apdu with ⟨-, -, heq⟩ | ⟨-, -, he⟩
  · rw [heq] at hak ⊢
    exact h₀.keep rfl (.inl rfl) (fun _ _ _ h => h)
      (hak fun hn => absurd (show Response.status _ = _ from hn) nofun) hcn
  generalize ha : (c.process K S apdu).1 = answer at he hak
  generalize (c.process K S apdu).2 = c' at he ⊢
  -- The access code commands leave the credentials and the request as they are.
  have hcode : apdu.ins = insSetCode ∨ apdu.ins = insValidate →
      ¬Asks (entry (step K S) c (.process apdu)) := fun hi =>
    hak fun _ => by rcases hi with hi | hi <;> rw [hi] <;> decide
  cases he with
  | kept hsm _ _ ht =>
    rcases hsm with rfl | rfl
    · exact h₀.keep rfl (.inl rfl) (fun _ _ _ hg => hg) (hak fun hn hi => ht hi hn) hcn
    · exact touchInv_of_none rfl
  | put | deleted | erased | eraseFailed => exact touchInv_of_none rfl
  | calculated k _ _ hr htc =>
    have hk := requested_index hr
    obtain ⟨hld, hpn, ho, ht, -⟩ := calculateIndex_keeps hk
    refine h₀.keep hld (.inl hpn) (fun index credential hnd hg => ?_)
      (hak fun hn => absurd hn ht) hcn
    -- The credential of the armed request needs a touch, this one does not.
    have hne : index ≠ k.index := by
      rintro rfl
      cases hg.symm.trans hk
      exact htc hnd
    rw [ho index hne]
    exact hg
  | armed k hi _ hr htc _ =>
    intro pending hpn
    cases hpn
    exact ⟨loadState_loaded c, k, .inl ⟨apdu, rfl, hi, ha, hr⟩, rfl, requested_index hr, htc⟩
  | codeRemoved hi | codeSet _ _ hi | codeDropped _ hi =>
    exact h₀.keep rfl (.inl rfl) (fun _ _ _ hg => hg) (hcode (.inl hi)) hcn
  | validated _ hp =>
    exact h₀.keep rfl (.inl rfl) (fun _ _ _ hg => hg) (hcode (.inr hp.1)) hcn

/-- A confirmation with a request whose credential is there makes its calculation. -/
theorem confirm_eq {k : Calculation} (hcl : (c.loadState S).closed = false)
    (hpn : (c.loadState S).pending = some ⟨k.index, padded k.challenge, k.truncated⟩)
    (hk : (c.loadState S).credentials.val[k.index]? = some k.credential) :
    c.confirmPresence K S =
      { c.loadState S with pending := none }.calculateIndex K S k.index (padded k.challenge).val
        k.truncated := by
  obtain ⟨hlt, -⟩ := List.getElem?_eq_some_iff.mp hk
  unfold confirmPresence stateAvailable
  dsimp only
  rw [hcl, if_neg nofun, hpn]
  dsimp only
  rw [if_neg (Nat.not_le.mpr hlt)]

theorem TouchInv.confirm (h : TouchInv S c past) :
    TouchExact K S (entry (step K S) c .confirm) past ∧
      TouchInv S (c.confirmPresence K S).2 (entry (step K S) c .confirm :: past) := by
  have h₀ := h.loadState
  have hak : ¬Asks (entry (step K S) c .confirm) := fun ⟨_, hev, _⟩ => nomatch hev
  have hin : ∀ pending, (c.loadState S).pending = some pending →
      pending.index < (c.loadState S).credentials.val.length := by
    intro pending hpn
    obtain ⟨-, k, -, hp, hk, -⟩ := h₀ pending hpn
    rw [hp]
    exact (List.getElem?_eq_some_iff.mp hk).1
  -- A refusal leaves everything as it is.
  have hr : ∀ sw, sw ≠ Sw.ok → c.confirmPresence K S = (.status sw, c.loadState S) →
      TouchExact K S (entry (step K S) c .confirm) past ∧
        TouchInv S (c.confirmPresence K S).2 (entry (step K S) c .confirm :: past) := by
    intro sw hsw heq
    have ha : ¬(entry (step K S) c .confirm).answer.sw = .ok := by
      change ¬(c.confirmPresence K S).1.sw = .ok
      rw [heq]
      exact hsw
    refine ⟨fun _ => ⟨hin, fun hok => absurd hok ha⟩, ?_⟩
    rw [heq]
    exact h₀.keep rfl (.inl rfl) (fun _ _ _ hg => hg) hak fun hc => ha hc.2
  rcases hcl : (c.loadState S).closed with _ | _
  · rcases hpn : (c.loadState S).pending with _ | pending
    · refine hr .conditionsNotSatisfied nofun ?_
      unfold confirmPresence stateAvailable
      dsimp only
      rw [hcl, if_neg nofun, hpn]
    obtain ⟨-, k, hls, rfl, hk, htc⟩ := h₀ pending hpn
    have heq := confirm_eq (K := K) hcl hpn hk
    have hk' : ({ c.loadState S with pending := none } : Oath σ).credentials.val[k.index]? =
        some k.credential := hk
    obtain ⟨-, hno, -, -, hcd⟩ := calculateIndex_keeps
      (k := { k with challenge := (padded k.challenge).val }) hk'
    refine ⟨fun _ => ⟨hin, fun hok => ?_⟩, ?_⟩
    · change (c.confirmPresence K S).1.sw = .ok at hok
      rw [heq] at hok
      obtain ⟨code, hcm, ha⟩ := hcd hok
      refine ⟨k, code, hls, hk, hcm, compute_padded_iff hcm, ?_⟩
      change (c.confirmPresence K S).1 = _
      rw [heq]
      exact ha
    · rw [heq]
      exact touchInv_of_none hno
  · refine hr .noPreciseDiagnosis nofun ?_
    unfold confirmPresence stateAvailable
    dsimp only
    rw [hcl]
    exact if_pos rfl

theorem TouchInv.select {e : Event} (he : e.isSelect) : TouchInv S (step K S c e).2 past := by
  obtain ⟨challenge, hst⟩ := step_select he
  rw [hst]
  exact touchInv_of_none rfl

end

/-! ## Whole histories -/

theorem touch_releases_its_request (store : σ) (es : List Event) :
    Along (TouchExact K S) (history (step K S) (new store) es) := by
  refine along_history_of_all (I := TouchInv S) (touchInv_of_none rfl) (fun c past e hI => ?_) es
  have hother : e ≠ .confirm → TouchExact K S (entry (step K S) c e) past :=
    fun hne hevent => absurd hevent hne
  cases e with
  | select | selectWithRng rng => exact ⟨hother nofun, TouchInv.select trivial⟩
  | process apdu => exact ⟨hother nofun, hI.process⟩
  | confirm => exact hI.confirm
  | deny => exact ⟨hother nofun, touchInv_of_none rfl⟩

/-- A TOTP credential `"a"` with the touch property. -/
def touchCredential : Credential where
  name := ⟨[0x61], by decide⟩
  kind := typeTotp
  algorithm := algorithmSha1
  digits := 6
  property := propertyTouch
  counter := 0
  period := 30
  secret := ⟨[0x01], by decide⟩

/-- PUT of it. -/
def putTouch : Apdu :=
  ⟨insPut, 0, 0, [0x71, 1, 0x61, 0x73, 3, 0x21, 6, 0x01, 0x78, 1, 0x02], none⟩

/-- CALCULATE for `"a"` with a challenge. -/
def calculateFor (challenge : List UInt8) : Apdu :=
  ⟨insCalculate, 0, 1, [0x71, 1, 0x61, 0x74, UInt8.ofNat challenge.length] ++ challenge, none⟩

/-- For a challenge of one byte there is no code, and a touch releases one. -/
theorem touch_pads_the_challenge :
    (answers (step exampleCrypto memory) (new [])
      [.select, .process putTouch, .process (calculateFor [0x05]), .confirm]).map (·.sw) =
        [.ok, .ok, .presenceRequired, .ok] ∧
    putCredential putTouch.data = some touchCredential ∧
    computeCredential exampleCrypto touchCredential [0x05] true = none := by
  decide +kernel

end AegisToken.Applets.Oath
