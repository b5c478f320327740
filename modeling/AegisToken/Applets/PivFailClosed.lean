/-
  The PIV applet after a SELECT that could not load the state.
  The SELECT answers an error, but the applet stays selected with what RAM holds: the management
  key and the PINs of the factory, or those of the last load. The session flags are down, so
  nothing privileged works at first (`Locked`). A host that returns a nonce under the management
  key in RAM, or presents the PIN in RAM, gets through all the same; as long as no step of the
  session does either, the applet stays locked.
-/
import AegisToken.Applets.PivPolicies

namespace AegisToken.Applets.Piv
open ByteCodec History

variable {σ : Type} {K : PivCrypto} {S : PivStore σ} {content : σ → Nat → Option (List UInt8)}
  {c : Piv σ}

/-! ## Entries -/

def FailedSelect (e : Log σ) : Prop := IsSelect e ∧ e.answer.sw ≠ .ok

def LoadedSelect (e : Log σ) : Prop := IsSelect e ∧ e.answer.sw = .ok

/-- A SELECT failed, and none has succeeded since. -/
def Unloaded (past : List (Log σ)) : Prop := Since (fun e _ => FailedSelect e) LoadedSelect past

/-- What needs an authentication: PUT DATA, SET MANAGEMENT KEY, GENERATE, or a signature with a
  key that has a PIN policy, answered `9000`. -/
def Privileged (content : σ → Nat → Option (List UInt8)) (e : Log σ) : Prop :=
  Administers e ∨ ∃ pinPolicy touchPolicy, SignedWith content pinPolicy touchPolicy e ∧
    pinPolicy ≠ .never

/-- The command presents the PIN in RAM. -/
def PresentsPin (K : PivCrypto) (c : Piv σ) (apdu : Apdu) : Prop :=
  ∃ pin, presented apdu = some (.pin, pin) ∧ c.pin.Accepts K.sha256 pin

/-- The event authenticates the host against what RAM holds. -/
def Authenticates (K : PivCrypto) (e : Log σ) : Prop :=
  ∃ apdu rng, e.event = .process apdu rng ∧ (ReturnsNonce e.before apdu ∨ PresentsPin K e.before apdu)

/-! ## The locked applet -/

/-- No authentication is in force, and what waits for a touch needs none. -/
structure Locked (content : σ → Nat → Option (List UInt8)) (c : Piv σ) : Prop where
  mgmt : c.mgmtAuthenticated = false
  pin : c.pinVerified = false
  pending : ∀ p pinPolicy touchPolicy, c.pendingSign = some p →
    keyPolicies content c p.slot = some (pinPolicy, touchPolicy) → pinPolicy = .never

theorem PinRecord.record_ne_key (record : PinRecord) (slot : KeySlot) :
    slot.record ≠ record.record := by
  cases record <;> cases slot <;> decide

theorem Locked.keep {c c' : Piv σ} (h : Locked content c)
    (hmg : c'.mgmtAuthenticated = c.mgmtAuthenticated)
    (hn : c'.pinVerified = true → c.pinVerified = true) (hpn : c'.pendingSign = c.pendingSign)
    (hks : ∀ slot : KeySlot, content c'.store slot.record = content c.store slot.record) :
    Locked content c' where
  mgmt := hmg.trans h.mgmt
  pin := by
    rcases hv : c'.pinVerified with _ | _
    · rfl
    · exact absurd ((hn hv).symm.trans h.pin) nofun
  pending p pinPolicy touchPolicy hp hk := by
    rw [keyPolicies, hks] at hk
    exact h.pending p pinPolicy touchPolicy (hpn ▸ hp) hk

theorem Locked.persistPin (hS : Holds S content) {c c₁ : Piv σ} (h : Locked content c)
    (record : PinRecord) (hst : c₁.store = c.store)
    (hmg : c₁.mgmtAuthenticated = c.mgmtAuthenticated)
    (hp : c₁.pinVerified = true → c.pinVerified = true)
    (hpn : c₁.pendingSign = c.pendingSign) :
    Locked content (c₁.persistPin S record).2 := by
  have hse := persistPin_session (S := S) record c₁
  refine h.keep (hse.mgmtAuthenticated.trans hmg) (fun hv => hp (hse.pinVerified ▸ hv))
    (hse.pendingSign.trans hpn) fun slot => ?_
  rw [persistPin_content hS record c₁ (record.record_ne_key slot), hst]

theorem Effect.locked {c' : Piv σ} {apdu : Apdu} {rng : Rng} {answer : Response}
    (he : Effect K S c apdu rng answer c') (hS : Holds S content) (h : Locked content c)
    (hnc : ¬ReturnsNonce c apdu) (hps : ¬PresentsPin K c apdu) : Locked content c' := by
  have had : c.mgmtAuthenticated ≠ true := fun hc => absurd (hc.symm.trans h.mgmt) nofun
  have hnv : ∀ {pinPolicy : PinPolicyCode}, (pinPolicy ≠ .never → c.pinVerified = true) →
      pinPolicy = .never := by
    intro pinPolicy hv
    by_contra hne
    exact absurd ((hv hne).symm.trans h.pin) nofun
  cases he with
  | idle hrd => exact h.keep rfl id rfl fun _ => by rw [hrd.content hS]
  | objectWritten _ _ _ hm | keyWritten _ _ _ _ hm | mgmtKeySet _ _ hm | mgmtKeyKept _ _ hm =>
    exact absurd hm had
  | nonceDrawn | nonceRefused => exact h.keep rfl id rfl fun _ => rfl
  | nonceProved ht hw hs => exact absurd ⟨_, _, ht, hw, hs⟩ hnc
  | pinRefused verified _ hv => exact h.keep rfl hv rfl fun _ => rfl
  | pinAccepted record _ hpr ha =>
    cases record with
    | pin => exact absurd ⟨_, hpr, ha⟩ hps
    | puk => exact h.keep rfl id rfl fun _ => rfl
  | @pinWrong _ c₁ record verified _ _ _ hv hc₁ =>
    subst hc₁
    cases record <;> exact h.persistPin hS _ rfl rfl hv rfl
  | @pinChanged _ c₁ record _ hpr ha hc₁ =>
    subst hc₁
    cases record with
    | pin => exact absurd ⟨_, hpr, ha⟩ hps
    | puk => exact h.persistPin hS _ rfl rfl id rfl
  | @pinUnblocked _ c₁ _ _ _ hc₁ =>
    subst hc₁
    exact h.persistPin hS _ rfl rfl nofun rfl
  | @touchAsked slot record pinPolicy touchPolicy digest st _ hre hrd hpl hv =>
    refine ⟨h.mgmt, h.pin, ?_⟩
    rintro _ p t ⟨⟩ hk
    change (content st slot.record).bind recordPolicies = some (p, t) at hk
    rw [hrd.content hS, hS.read_value hre] at hk
    cases hpl.symm.trans hk
    exact hnv hv
  | @signed slot record pinPolicy touchPolicy st cap key digest signature _ _ _ hv _ _ hrd =>
    refine h.keep rfl (fun hv' => ?_) rfl fun _ => ?_
    · rw [hnv hv] at hv'
      exact hv'
    · change content (S.read slot.record cap st).2 _ = _
      rw [hS.read_content, hrd.content hS]

theorem confirm_locked (hS : Holds S content) (h : Locked content c) (rng : Rng) :
    Locked content (c.confirmPresence K S rng).2 := by
  have hmg := (confirm_effect (K := K) (S := S) c rng).management.1.trans h.mgmt
  obtain ⟨-, hn, hpn, -⟩ | ⟨pending, record, pinPolicy, touchPolicy, signature, -, -, -, -, -,
    hn, hpn, -⟩ := (confirm_effect c rng).policy hS
  · exact ⟨hmg, hn.trans h.pin, fun p _ _ hp => absurd (hpn.symm.trans hp) nofun⟩
  · refine ⟨hmg, ?_, fun p _ _ hp => absurd (hpn.symm.trans hp) nofun⟩
    rw [hn, h.pin]
    exact ite_self false

theorem select_locked (c : Piv σ) : Locked content (c.select K S).2 := by
  have h := select_session (K := K) (S := S) c
  exact ⟨h.mgmtAuthenticated, h.pinVerified, fun p _ _ hp => absurd (h.pendingSign.symm.trans hp) nofun⟩

/-- A locked applet does nothing privileged. -/
theorem Locked.not_privileged (hS : Holds S content) (h : Locked content c) (e : Event) :
    ¬Privileged content (entry (step K S) c e) := by
  rintro (had | ⟨pinPolicy, touchPolicy, ⟨slot, hs, hk⟩, hne⟩)
  · exact absurd ((administers_flag had).symm.trans h.mgmt) nofun
  have hn : c.pinVerified ≠ true := fun hv => absurd (hv.symm.trans h.pin) nofun
  cases e with
  | process apdu rng =>
    obtain ⟨hsw, hsl⟩ := signedSlot_process.mp hs
    exact hn (process_signed hS hsw hsl hk hne)
  | confirm rng =>
    obtain ⟨p, hp, rfl⟩ := Option.map_eq_some_iff.mp (signedSlot_confirm.mp hs).2
    exact hne (h.pending p pinPolicy touchPolicy hp hk)
  | select | deny =>
    unfold signedSlot at hs
    split at hs <;> cases hs

/-! ## Every history -/

/-- From a failed SELECT to the next that succeeds, nothing privileged works, in every history in
  which no step in between authenticates against what RAM holds. -/
theorem failed_select_closes (hS : Holds S content) (store : σ) (es : List Event)
    (hquiet : Along (fun e past => Unloaded past → ¬Authenticates K e)
      (history (step K S) (new store) es)) :
    Along (fun e past => Unloaded past → ¬Privileged content e)
      (history (step K S) (new store) es) := by
  refine along_history (I := fun c past => Unloaded past → Locked content c) nofun ?_ es hquiet
  intro c past e hlocked hcond
  refine ⟨fun h => (hlocked h).not_privileged hS e, fun h => ?_⟩
  -- A SELECT locks the applet; any other event is in the session of the last one.
  by_cases hselect : IsSelect (entry (step K S) c e)
  · cases e with
    | select => exact select_locked c
    | process | confirm | deny => cases hselect
  obtain hfailed | ⟨-, hpast⟩ := h
  · exact absurd hfailed.1 hselect
  have hc := hlocked hpast
  cases e with
  | select => exact absurd rfl hselect
  | process apdu rng =>
    exact (process_effect c apdu rng).locked hS hc
      (fun h => hcond hpast ⟨apdu, rng, rfl, .inl h⟩)
      fun h => hcond hpast ⟨apdu, rng, rfl, .inr h⟩
  | confirm rng => exact confirm_locked hS hc rng
  | deny => exact ⟨hc.mgmt, hc.pin, nofun⟩

/-! ## Two sessions on a store that cannot read the PIN

  The management key in the store is not the one of the factory. -/

/-- A store that does not read one of its records. -/
def unreadable (record : Nat) (S : PivStore σ) : PivStore σ where
  read other cap st := if other = record then (none, st) else S.read other cap st
  write := S.write

theorem unreadable_holds (record : Nat) (hS : Holds S content) :
    Holds (unreadable record S) content where
  read_content other cap st := by
    unfold unreadable
    dsimp only
    split
    · rfl
    · exact hS.read_content other cap st
  read_value {other cap st bytes} h := by
    unfold unreadable at h
    dsimp only at h
    split at h
    · cases h
    · exact hS.read_value h
  written := hS.written
  others := hS.others

def exampleRecords : List (Nat × List UInt8) := [(recordMgmtKey, [algAes128, 0x10] ++ List.replicate 16 7)]

def refusedRun : List Event :=
  [.select, .process askNonce zeros, .process putPrinted zeros]

def factoryKeyRun : List Event :=
  [.select, .process askNonce zeros, .process returnNonce zeros, .process putPrinted zeros]

theorem not_authenticates {apdu : Apdu} {rng : Rng}
    (hnc : managementTemplate c apdu = none ∨ c.witness = none) (hp : presented apdu = none) :
    ¬Authenticates K (entry (step K S) c (.process apdu rng)) := by
  rintro ⟨_, _, ⟨⟩, ⟨template, pending, ht, hw, -⟩ | ⟨pin, hpr, -⟩⟩
  · rcases hnc with h | h
    · cases h.symm.trans ht
    · cases h.symm.trans hw
  · cases hp.symm.trans hpr

theorem failed_select_closes_refused :
    (answers (step exampleCrypto (unreadable recordPin memoryStore)) (new exampleRecords)
      refusedRun).map Response.sw = [.noPreciseDiagnosis, .ok, .securityStatusNotSatisfied] ∧
    Along (fun e past => Unloaded past → ¬Privileged memoryContent e)
      (history (step exampleCrypto (unreadable recordPin memoryStore)) (new exampleRecords)
        refusedRun) := by
  refine ⟨by decide +kernel, failed_select_closes (unreadable_holds recordPin memoryStore_holds)
    exampleRecords refusedRun ⟨?_, ?_, nofun, trivial⟩⟩
  · exact fun _ => not_authenticates (.inl (by decide +kernel)) (by decide)
  · exact fun _ => not_authenticates (.inr (by decide +kernel)) (by decide)

theorem failed_select_accepts_factory_key :
    ¬Along (fun e past => Unloaded past → ¬Privileged memoryContent e)
      (history (step exampleCrypto (unreadable recordPin memoryStore)) (new exampleRecords)
        factoryKeyRun) := by
  rintro ⟨hput, -⟩
  refine hput (.inr ⟨nofun, .inr ⟨nofun, .inl ⟨rfl, by decide +kernel⟩⟩⟩) (.inl ?_)
  exact ⟨putPrinted, zeros, rfl, by decide +kernel, .inl rfl⟩

end AegisToken.Applets.Piv
