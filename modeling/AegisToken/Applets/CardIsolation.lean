/-
  Session isolation at the card.
  The card of the firmware runs PIV, OpenPGP and OATH behind one router. A `Guard` is one of the
  grants a privileged command asks for. In every history of the card, a privileged command that
  succeeds rests on the matching verification, with no power event, abort or SELECT by name in
  between: `sessions_isolated`.
  It needs that no command gives a grant and fails. `unanswered_authentication` is a run in which
  one does: the host returns the nonce of a mutual authentication without a challenge of its own,
  is answered `6A80`, and may then write objects.
-/
import AegisToken.Applets.Card
import AegisToken.Applets.SessionGrants

namespace AegisToken.Applets
open ByteCodec History

/-! ## The applets of the card -/

def aidPiv : List UInt8 := [0xA0, 0x00, 0x00, 0x03, 0x08, 0x00, 0x00, 0x10, 0x00, 0x01, 0x00]
def aidOpenPgp : List UInt8 := [0xD2, 0x76, 0x00, 0x01, 0x24, 0x01]
def aidOath : List UInt8 := [0xA0, 0x00, 0x00, 0x05, 0x27, 0x21, 0x01]

/-- An applet over its own part of a larger state. -/
def Applet.lift {α β : Type} (get : α → β) (set : β → α → α) (applet : Applet β) : Applet α where
  aid := applet.aid
  selectWithRng rng s :=
    let (answer, x) := applet.selectWithRng rng (get s)
    (answer, set x s)
  process apdu rng s :=
    let (answer, x) := applet.process apdu rng (get s)
    (answer, set x s)
  confirmPresence rng s :=
    let (answer, x) := applet.confirmPresence rng (get s)
    (answer, set x s)
  denyPresence s :=
    let (answer, x) := applet.denyPresence (get s)
    (answer, set x s)

variable {σ τ υ : Type}

def Piv.applet (K : PivCrypto) (S : PivStore σ) : Applet (Piv σ) where
  aid := aidPiv
  selectWithRng _ c := c.select K S
  process apdu rng c := c.process K S apdu rng
  confirmPresence rng c := c.confirmPresence K S rng
  denyPresence c := c.denyPresence

/-- OpenPGP never asks for user presence; the rest is as the trait has it. -/
def OpenPgp.applet (K : PgpCrypto) (S : OpenPgpStore σ) : Applet (OpenPgp σ) where
  aid := aidOpenPgp
  selectWithRng _ c := c.select K S
  process apdu rng c := c.process K S apdu rng
  confirmPresence _ c := (.status .conditionsNotSatisfied, c)
  denyPresence c := (.status .securityStatusNotSatisfied, c)

def Oath.applet (K : OathCrypto) (S : OathStore σ) : Applet (Oath σ) where
  aid := aidOath
  selectWithRng rng c := c.selectWithRng S rng
  process apdu _ c := c.process K S apdu
  confirmPresence _ c := c.confirmPresence K S
  denyPresence c := c.denyPresence

/-- The primitives and the stores of the three applets. -/
structure Backends (σ τ υ : Type) where
  pivCrypto : PivCrypto
  pivStore : PivStore σ
  pgpCrypto : PgpCrypto
  pgpStore : OpenPgpStore τ
  oathCrypto : OathCrypto
  oathStore : OathStore υ

/-- The state of the three applets. -/
structure AppletState (σ τ υ : Type) where
  piv : Piv σ
  openPgp : OpenPgp τ
  oath : Oath υ

def cardApplets (B : Backends σ τ υ) : List (Applet (AppletState σ τ υ)) :=
  [(Piv.applet B.pivCrypto B.pivStore).lift AppletState.piv fun piv s => { s with piv },
    (OpenPgp.applet B.pgpCrypto B.pgpStore).lift AppletState.openPgp fun openPgp s =>
      { s with openPgp },
    (Oath.applet B.oathCrypto B.oathStore).lift AppletState.oath fun oath s => { s with oath }]

variable (B : Backends σ τ υ)

def pivIndex : Fin (cardApplets B).length := ⟨0, Nat.succ_pos _⟩
def openPgpIndex : Fin (cardApplets B).length := ⟨1, Nat.succ_lt_succ (Nat.succ_pos _)⟩
def oathIndex : Fin (cardApplets B).length :=
  ⟨2, Nat.succ_lt_succ (Nat.succ_lt_succ (Nat.succ_pos _))⟩

/-! ## Guards -/

/-- What a privileged command asks for. -/
inductive Guard where
  /-- The PIV PIN, for a signature with a key that has a PIN policy. -/
  | pivPin
  /-- The PIV management key, for PUT DATA, GENERATE and SET MANAGEMENT KEY. -/
  | pivManagement
  /-- A reference of OpenPGP: `81` for signatures, `82` for the other keys, `83` for PUT DATA and
    key generation. -/
  | openPgp (reference : UInt8)
  /-- The OATH access code, for the credential commands while there is one. -/
  | oathCode

namespace Guard

def index : Guard → Fin (cardApplets B).length
  | pivPin => pivIndex B
  | pivManagement => pivIndex B
  | openPgp _ => openPgpIndex B
  | oathCode => oathIndex B

def Granted (s : AppletState σ τ υ) : Guard → Prop
  | pivPin => s.piv.pinVerified = true
  | pivManagement => s.piv.mgmtAuthenticated = true
  | openPgp reference => s.openPgp.verified reference = true
  | oathCode => s.oath.Proven

/-- A call that is the matching verification, answered `9000`. -/
def Verifies (guard : Guard) (s : AppletState σ τ υ) (call : Call) (answer : Response) : Prop :=
  answer.sw = .ok ∧ ∃ apdu rng, call = .process apdu rng ∧
    match guard with
    | pivPin => apdu.p2 = Piv.refPin ∧
        (apdu.ins = Piv.insVerify ∨ apdu.ins = Piv.insChangeReferenceData)
    | pivManagement => Piv.ReturnsNonce s.piv apdu
    | openPgp reference => apdu.ins = insVerify ∧ apdu.p2 = reference
    | oathCode => apdu.ins = Oath.insSetCode ∨ apdu.ins = Oath.insValidate

/-- A call that is a privileged command, or the touch that completes one, answered `9000`. -/
def Privileged (content : σ → Nat → Option (List UInt8)) (guard : Guard) (s : AppletState σ τ υ)
    (call : Call) (answer : Response) : Prop :=
  answer.sw = .ok ∧
    match guard, call with
    | pivPin, .process apdu _ => ∃ slot pinPolicy touchPolicy, Piv.signSlot apdu = some slot ∧
        Piv.keyPolicies content s.piv slot = some (pinPolicy, touchPolicy) ∧ pinPolicy ≠ .never
    | pivPin, .confirm _ => ∃ pending pinPolicy touchPolicy, s.piv.pendingSign = some pending ∧
        Piv.keyPolicies content s.piv pending.slot = some (pinPolicy, touchPolicy) ∧
        pinPolicy ≠ .never
    | pivManagement, .process apdu _ => apdu.ins = Piv.insPutData ∨ apdu.ins = Piv.insSetMgmKey ∨
        apdu.ins = Piv.insGenerateAsymmetricKeyPair
    | openPgp reference, .process apdu _ => OpenPgp.Needs apdu reference
    | oathCode, .process apdu _ => Oath.Gated apdu ∧ s.oath.authKey.val ≠ []
    | oathCode, .confirm _ => s.oath.authKey.val ≠ []
    | _, _ => False

/-- A command that gives the grant and fails: the PIN is changed but not stored, the nonce of a
  mutual authentication comes without a challenge the card accepts, the access code is set or
  proved but not saved. -/
def Unanswered (s : AppletState σ τ υ) (apdu : Apdu) : Guard → Prop
  | pivPin => Piv.ChangeUnsaved B.pivCrypto B.pivStore s.piv apdu
  | pivManagement => Piv.ChallengeRefused B.pivCrypto s.piv apdu
  | openPgp _ => False
  | oathCode => Oath.CodeUnsaved B.oathCrypto B.oathStore s.oath apdu

end Guard

/-! ## One call -/

section
variable {B : Backends σ τ υ} {content : σ → Nat → Option (List UInt8)} {s : AppletState σ τ υ}

/-- SELECT takes the grants of its applet away. -/
theorem select_revokes (guard : Guard) (rng : Rng) :
    ¬guard.Granted (((cardApplets B).get (guard.index B)).call s (.select rng)).2 := by
  cases guard with
  | pivPin =>
    have h := Piv.select_session (K := B.pivCrypto) (S := B.pivStore) s.piv
    exact fun hgr => Bool.false_ne_true (h.pinVerified.symm.trans hgr)
  | pivManagement =>
    have h := Piv.select_session (K := B.pivCrypto) (S := B.pivStore) s.piv
    exact fun hgr => Bool.false_ne_true (h.mgmtAuthenticated.symm.trans hgr)
  | openPgp reference =>
    have h := OpenPgp.select_verified (K := B.pgpCrypto) (S := B.pgpStore) s.openPgp reference
    exact fun hgr => Bool.false_ne_true (h.symm.trans hgr)
  | oathCode => exact (Oath.select_armed s.oath rng).2

/-- A confirmation gives no verification of the PIN. -/
theorem confirm_pinVerified (hS : Piv.Holds B.pivStore content) {rng : Rng}
    (h : (s.piv.confirmPresence B.pivCrypto B.pivStore rng).2.pinVerified = true) :
    s.piv.pinVerified = true := by
  rcases (Piv.confirm_effect s.piv rng).policy hS with
    ⟨-, hkp, -⟩ | ⟨_, _, _, _, _, -, -, -, -, -, hkp, -⟩
  · exact hkp ▸ h
  rw [hkp] at h
  split at h
  · cases h
  · exact h

/-- A call other than SELECT that leaves a grant found it, or is a verification that succeeds, or a
  command that gives the grant and fails. -/
theorem call_grants (hS : Piv.Holds B.pivStore content) {guard : Guard} {call : Call}
    (hne : ∀ rng, call ≠ .select rng) (har : guard = .oathCode → s.oath.Armed)
    (h : guard.Granted (((cardApplets B).get (guard.index B)).call s call).2) :
    guard.Granted s ∨ guard.Verifies s call (((cardApplets B).get (guard.index B)).call s call).1 ∨
      ∃ apdu rng, call = .process apdu rng ∧ guard.Unanswered B s apdu := by
  cases call with
  | select rng => exact absurd rfl (hne rng)
  | process apdu rng =>
    cases guard with
    | pivPin =>
      rcases Piv.process_pinVerified hS h with hb | hu | ⟨hsw, hv⟩
      · exact .inl hb
      · exact .inr (.inr ⟨apdu, rng, rfl, hu⟩)
      · exact .inr (.inl ⟨hsw, apdu, rng, rfl, hv⟩)
    | pivManagement =>
      rcases (Piv.process_effect _ apdu rng).mgmtAuthenticated h with hb | hr | ⟨ht, hsw⟩
      · exact .inl hb
      · exact .inr (.inr ⟨apdu, rng, rfl, hr⟩)
      · exact .inr (.inl ⟨hsw, apdu, rng, rfl, ht⟩)
    | openPgp reference =>
      rcases (OpenPgp.process_effect _ apdu rng).verified h with hb | ⟨hsw, hv⟩
      · exact .inl hb
      · exact .inr (.inl ⟨hsw, apdu, rng, rfl, hv⟩)
    | oathCode =>
      rcases Oath.process_proven (har rfl).1 h with hb | hu | ⟨hsw, hv⟩
      · exact .inl hb
      · exact .inr (.inr ⟨apdu, rng, rfl, hu⟩)
      · exact .inr (.inl ⟨hsw, apdu, rng, rfl, hv⟩)
  | confirm rng =>
    refine .inl ?_
    cases guard with
    | pivPin => exact confirm_pinVerified hS h
    | pivManagement =>
      have hkp := (Piv.confirm_effect (K := B.pivCrypto) (S := B.pivStore) s.piv rng).management
      exact hkp.1.symm.trans h
    | openPgp reference => exact h
    | oathCode => exact (Oath.confirm_armed (har rfl)).2 h
  | deny =>
    refine .inl ?_
    cases guard with
    | pivPin | pivManagement | openPgp reference | oathCode => exact h

/-- A privileged command that succeeds finds its grant. -/
theorem privileged_granted (hS : Piv.Holds B.pivStore content) {guard : Guard} {call : Call}
    (hpn : guard = .pivPin → Piv.PendingVerified content s.piv)
    (har : guard = .oathCode → s.oath.Armed)
    (h : guard.Privileged content s call (((cardApplets B).get (guard.index B)).call s call).1) :
    guard.Granted s := by
  obtain ⟨hsw, h⟩ := h
  cases call with
  | select rng | deny => cases guard <;> exact h.elim
  | process apdu rng =>
    cases guard with
    | pivPin =>
      obtain ⟨slot, pinPolicy, touchPolicy, hsl, hk, hne⟩ := h
      exact Piv.process_signed hS hsw hsl hk hne
    | pivManagement => exact Piv.administers_flag ⟨apdu, rng, rfl, hsw, h⟩
    | openPgp reference => exact (OpenPgp.process_effect _ apdu rng).needs hsw h
    | oathCode => exact Oath.process_gated (har rfl).1 hsw h.1 h.2
  | confirm rng =>
    cases guard with
    | pivPin =>
      obtain ⟨pending, pinPolicy, touchPolicy, hsm, hk, hne⟩ := h
      exact hpn rfl pending pinPolicy touchPolicy hsm hk hne
    | pivManagement | openPgp reference => exact h.elim
    | oathCode => exact Oath.confirm_gated (har rfl) hsw h

end

/-! ## Every history -/

section
variable {B : Backends σ τ υ} {content : σ → Nat → Option (List UInt8)} {cap message : Nat}
  {card after : Card (cardApplets B) cap message} {e : Card.Event}
  {past : List (Card.Log (cardApplets B) cap message)}

/-- The condition on a step: a command that gives a grant and fails finds it. -/
def Settled (e : Card.Log (cardApplets B) cap message) : Prop :=
  ∀ (guard : Guard) (apdu : Apdu) (rng : Rng),
    e.before.called e.event = some (guard.index B, .process apdu rng) →
    guard.Unanswered B e.before.router.state apdu → guard.Granted e.before.router.state

/-- The matching verification succeeded, and no session ended since. -/
def VerifiedSince (guard : Guard) (past : List (Card.Log (cardApplets B) cap message)) : Prop :=
  Since (fun v _ => Card.Calls (guard.index B) guard.Verifies v) Card.EndsSession past

/-- A privileged command that succeeds rests on a verification in the same session. -/
def Isolated (content : σ → Nat → Option (List UInt8))
    (e : Card.Log (cardApplets B) cap message)
    (past : List (Card.Log (cardApplets B) cap message)) : Prop :=
  ∀ guard : Guard, Card.Calls (guard.index B) (guard.Privileged content) e →
    VerifiedSince guard past

/-- What the state of the selected applet says about the past. Nothing is known of the others:
  their SELECT starts afresh. -/
structure SessionInv (content : σ → Nat → Option (List UInt8))
    (card : Card (cardApplets B) cap message)
    (past : List (Card.Log (cardApplets B) cap message)) : Prop where
  granted : ∀ guard : Guard, card.router.selected = some (guard.index B) →
    guard.Granted card.router.state → VerifiedSince guard past
  /-- A signature waits only while the card waits, and then for a verified PIN. -/
  waiting : card.router.selected = some (pivIndex B) →
    Piv.PendingVerified content card.router.state.piv ∧
      (card.pendingSequence = none → card.router.state.piv.pendingSign = none)
  armed : card.router.selected = some (oathIndex B) → card.router.state.oath.Armed
theorem waiting_step (hS : Piv.Holds B.pivStore content) (hi : SessionInv content card past)
    (he : Card.StepEffect card e after) (hl : after.router.selected = some (pivIndex B)) :
    Piv.PendingVerified content after.router.state.piv ∧
      (after.pendingSequence = none → after.router.state.piv.pendingSign = none) := by
  have hno : after.router.state.piv.pendingSign = none →
      Piv.PendingVerified content after.router.state.piv ∧
        (after.pendingSequence = none → after.router.state.piv.pendingSign = none) :=
    fun h => ⟨Piv.pendingVerified_of_none h, fun _ => h⟩
  cases he with
  | kept _ _ hst hsl hq =>
    rw [hst, hq]
    exact hi.waiting (hsl.symm.trans hl)
  | deselected _ hd => cases hd.symm.trans hl
  | selected index rng _ hst hsl _ =>
    cases hsl.symm.trans hl
    refine hno ?_
    rw [hst]
    exact (Piv.select_session _).pendingSign
  | processed index apdu rng _ _ hsl hq hup hst haf =>
    cases haf.symm.trans hl
    rcases (Piv.process_effect _ apdu rng).waiting hS ((hi.waiting hsl).2 hq) with hil | ⟨hsw, hv⟩
    · refine hno ?_
      rw [hst]
      exact hil
    refine ⟨?_, fun hs => ?_⟩
    · rw [hst]
      exact hv
    · have hsm := hup.mpr hsw
      rw [hs] at hsm
      cases hsm
  | resolved index call _ hkn _ hsl _ _ hst haf =>
    cases haf.symm.trans hl
    refine hno ?_
    rw [hst]
    rcases hkn with rfl | ⟨rng, rfl⟩
    · rfl
    rcases (Piv.confirm_effect card.router.state.piv rng).policy hS with
      ⟨-, -, hdn, -⟩ | ⟨_, _, _, _, _, -, -, -, -, -, -, hdn, -⟩
    · exact hdn
    · exact hdn

theorem armed_step (hi : SessionInv content card past) (he : Card.StepEffect card e after)
    (hs : after.router.selected = some (oathIndex B)) : after.router.state.oath.Armed := by
  cases he with
  | kept _ _ hst hsl _ =>
    rw [hst]
    exact hi.armed (hsl.symm.trans hs)
  | deselected _ hd => cases hd.symm.trans hs
  | selected index rng _ hst hsl _ =>
    cases hsl.symm.trans hs
    rw [hst]
    exact (Oath.select_armed _ rng).1
  | processed index apdu rng _ _ hsl _ _ hst haf =>
    cases haf.symm.trans hs
    rw [hst]
    exact Oath.process_armed (hi.armed hsl) apdu
  | resolved index call _ hkn _ hsl _ _ hst haf =>
    cases haf.symm.trans hs
    have har := hi.armed hsl
    rw [hst]
    rcases hkn with rfl | ⟨rng, rfl⟩
    · exact ⟨har.1, fun hp => absurd rfl hp⟩
    · exact (Oath.confirm_armed har).1

theorem granted_step (hS : Piv.Holds B.pivStore content) (hi : SessionInv content card past)
    (ht : Settled (entry Card.step card e)) (he : Card.StepEffect card e after)
    (guard : Guard) (hs : after.router.selected = some (guard.index B))
    (hgr : guard.Granted after.router.state) :
    VerifiedSince guard (entry Card.step card e :: past) := by
  refine he.since (fun s => guard.Granted s) (hi.granted guard)
    (fun rng => select_revokes guard rng) ?_ hs hgr
  intro call hcl hne hsl hg
  have har : guard = .oathCode → card.router.state.oath.Armed := by
    rintro rfl
    exact hi.armed hsl
  rcases call_grants hS hne har hg with hb | hv | ⟨apdu, rng, rfl, hun⟩
  · exact .inl hb
  · exact .inr hv
  · exact .inl (ht guard apdu rng hcl hun)

theorem isolated_entry (hS : Piv.Holds B.pivStore content) (hi : SessionInv content card past) :
    Isolated content (entry Card.step card e) past := by
  rintro guard ⟨call, hcl, hp⟩
  rcases (Card.step_effect card e).selected_of_called hcl with ⟨rng, rfl⟩ | hs
  · have hnv := hp.2
    cases guard <;> exact hnv.elim
  have hpn : guard = .pivPin → Piv.PendingVerified content card.router.state.piv := by
    rintro rfl
    exact (hi.waiting hs).1
  have har : guard = .oathCode → card.router.state.oath.Armed := by
    rintro rfl
    exact hi.armed hs
  exact hi.granted guard hs (privileged_granted hS hpn har hp)

/-- Session isolation: in every history of the card, from any state of its applets, whose commands
  give a grant only with a success, every privileged command that succeeds rests on the matching
  verification, with no power event, abort or SELECT by name in between. -/
theorem sessions_isolated (hS : Piv.Holds B.pivStore content) (state : AppletState σ τ υ)
    (es : List Card.Event)
    (h : Along (fun e _ => Settled e)
      (history Card.step (Card.new (cardApplets B) cap message state) es)) :
    Along (Isolated content)
      (history Card.step (Card.new (cardApplets B) cap message state) es) := by
  have hinit : SessionInv content (Card.new (cardApplets B) cap message state) [] :=
    ⟨fun _ => nofun, nofun, nofun⟩
  refine along_history hinit ?_ es h
  intro card past e hinv hsettled
  have heff := Card.step_effect card e
  exact ⟨isolated_entry hS hinv, fun guard => granted_step hS hinv hsettled heff guard,
    waiting_step hS hinv heff, armed_step hinv heff⟩

end

/-! ## Two runs -/

/-- The command of a call. -/
def Call.command : Call → Option Apdu
  | .process apdu _ => some apdu
  | _ => none

section
variable {α : Type} {applets : List (Applet α)} {cap message : Nat}
  {card : Card applets cap message} {e : Card.Event}

/-- What an event calls: the applet, the command if it is one, and the status word. -/
def Card.served (card : Card applets cap message) (e : Card.Event) :
    Option (Nat × Option Apdu × Sw) :=
  (card.called e).map fun x =>
    (x.1.val, x.2.command, ((applets.get x.1).call card.router.state x.2).1.sw)

theorem Card.served_of_called {index : Fin applets.length} {call : Call}
    (h : card.called e = some (index, call)) :
    card.served e =
      some (index.val, call.command, ((applets.get index).call card.router.state call).1.sw) := by
  rw [served, h]
  rfl

theorem Card.called_of_served {n : Nat} {apdu : Apdu} {sw : Sw}
    (h : card.served e = some (n, some apdu, sw)) :
    ∃ index rng, index.val = n ∧ card.called e = some (index, .process apdu rng) ∧
      ((applets.get index).call card.router.state (.process apdu rng)).1.sw = sw := by
  obtain ⟨⟨index, call⟩, hcl, heq⟩ := Option.map_eq_some_iff.mp h
  cases call with
  | process apdu' rng =>
    cases heq
    exact ⟨index, rng, rfl, hcl, rfl⟩
  | select | confirm | deny => cases heq

/-- The command that an event passes on. -/
def Card.passedFrame (card : Card applets cap message) (e : Card.Event) : Option (List UInt8) :=
  match card.passes e with
  | some (.command frame _) => some frame
  | _ => none

theorem Card.endsSession_of_passedFrame (frame : List UInt8) (h : card.passedFrame e = some frame)
    (hnm : Router.SelectsByName frame) : Card.EndsSession (entry Card.step card e) := by
  unfold passedFrame at h
  split at h
  · rename_i frame' rng hps
    cases h
    exact .inr ⟨frame, rng, hps, hnm⟩
  · cases h

end

def ccidFrame (messageType : UInt8) (payload : List UInt8) : List UInt8 :=
  messageType :: (toLE 4 payload.length ++ [0, 1, 0, 0, 0] ++ payload)

/-- Send a message and handle it. -/
def exchange (messageType : UInt8) (payload : List UInt8) : List Card.Event :=
  [.feed (ccidFrame messageType payload), .poll Piv.zeros Ccid.maxMessageBytes]

def powerOn : List Card.Event := exchange Ccid.pcToRdrIccPowerOn []

/-- The bytes of a command with data. -/
def commandBytes (apdu : Apdu) : List UInt8 :=
  [claInterindustry, apdu.ins, apdu.p1, apdu.p2, UInt8.ofNat apdu.data.length] ++ apdu.data

def transmit (apdu : Apdu) : List Card.Event :=
  exchange Ccid.pcToRdrXfrBlock (commandBytes apdu)

def selectPiv : Apdu := ⟨insSelect, selectByDfName, 0, aidPiv, none⟩

/-- Ask for the encrypted nonce of a mutual authentication. -/
def askWitness : Apdu :=
  ⟨Piv.insGeneralAuthenticate, Piv.algTdes, Piv.refManagement, [0x7C, 0x02, 0x80, 0x00], none⟩

/-- Return the nonce of zero bytes, without a challenge for the card. -/
def returnWitness : Apdu :=
  ⟨Piv.insGeneralAuthenticate, Piv.algTdes, Piv.refManagement,
    [0x7C, 0x0A, 0x80, 0x08, 0, 0, 0, 0, 0, 0, 0, 0], none⟩

def exampleBackends :
    Backends (List (Nat × List UInt8)) (Option (List UInt8)) (List UInt8) where
  pivCrypto := Piv.exampleCrypto
  pivStore := Piv.memoryStore
  pgpCrypto := OpenPgp.exampleCrypto
  pgpStore := OpenPgp.memory
  oathCrypto := Oath.exampleCrypto
  oathStore := Oath.memory

/-- A card with the two PIV keys of the example runs. -/
def exampleCard : Card (cardApplets exampleBackends) 2048 Ccid.maxMessageBytes :=
  .new _ _ _ ⟨.new Piv.exampleKeys, .new none, .new []⟩

/-- Power on, select PIV, verify the PIN and sign with a key that wants it. -/
def signingRun : List Card.Event :=
  powerOn ++ transmit selectPiv ++ transmit Piv.verifyPin ++ transmit (Piv.signOne Piv.refSignature)

/-- Power on, select PIV, return the nonce of a mutual authentication without a challenge, and
  write an object. -/
def unansweredRun : List Card.Event :=
  powerOn ++ transmit selectPiv ++ transmit askWitness ++ transmit returnWitness ++
    transmit Piv.putPrinted

/-- The payload that an event sent to the host. -/
def sent : Except Ccid.CcidError (Option Outcome) → Option (List UInt8)
  | .ok (some (.response bytes)) => some (bytes.drop Ccid.headerLen)
  | _ => none

section
variable {card : Card (cardApplets exampleBackends) 2048 Ccid.maxMessageBytes} {e : Card.Event}

theorem settled_of_none (h : (card.served e).bind (fun x => x.2.1) = none) :
    Settled (entry Card.step card e) := by
  intro guard apdu rng hcl
  change card.called e = _ at hcl
  rw [Card.served_of_called hcl] at h
  cases h

/-- A PIV command that is neither a CHANGE nor a management authentication. -/
theorem settled_of_piv (apdu : Apdu) (sw : Sw) (h : card.served e = some (0, some apdu, sw))
    (hi : apdu.ins ≠ Piv.insChangeReferenceData) (hp2 : apdu.p2 ≠ Piv.refManagement) :
    Settled (entry Card.step card e) := by
  intro guard apdu' rng hcl hun
  obtain ⟨hin, hap⟩ := Prod.mk.inj (Option.some.inj (h.symm.trans (Card.served_of_called hcl)))
  obtain rfl : apdu = apdu' := Option.some.inj (Prod.mk.inj hap).1
  cases guard with
  | pivPin => exact absurd hun.1 hi
  | pivManagement =>
    obtain ⟨template, pending, ht, -⟩ := hun
    rw [Piv.managementTemplate_eq_none fun hc => hp2 hc.2] at ht
    cases ht
  | openPgp reference => exact hun.elim
  | oathCode => cases hin

theorem served_of_verifies {guard : Guard}
    (h : Card.Calls (guard.index exampleBackends) guard.Verifies (entry Card.step card e)) :
    ∃ n apdu, card.served e = some (n, some apdu, .ok) := by
  obtain ⟨call, hcl, hsw, apdu, rng, rfl, -⟩ := h
  exact ⟨_, apdu, (Card.served_of_called hcl).trans (congrArg (fun sw => some (_, _, sw)) hsw)⟩

theorem privileged_of_served (apdu : Apdu) (h : card.served e = some (0, some apdu, .ok))
    (hi : apdu.ins = Piv.insPutData) :
    Card.Calls (pivIndex exampleBackends) (Guard.pivManagement.Privileged Piv.memoryContent)
      (entry Card.step card e) := by
  obtain ⟨index, rng, hin, hcl, hsw⟩ := Card.called_of_served h
  obtain rfl : index = pivIndex exampleBackends := Fin.ext hin
  exact ⟨_, hcl, hsw, .inl hi⟩

end

theorem sessions_isolated_signing :
    ((answers Card.step exampleCard signingRun).filterMap sent).map (fun bytes =>
      bytes.drop (bytes.length - 2)) = [atr, Sw.ok.bytes, Sw.ok.bytes, Sw.ok.bytes] ∧
    Along (Isolated Piv.memoryContent) (history Card.step exampleCard signingRun) := by
  refine ⟨by decide +kernel, sessions_isolated Piv.memoryStore_holds
    ⟨.new Piv.exampleKeys, .new none, .new []⟩ signingRun ⟨?_, settled_of_none rfl, ?_,
      settled_of_none rfl, settled_of_none ?_, settled_of_none rfl, settled_of_none ?_,
      settled_of_none rfl, trivial⟩⟩
  · exact settled_of_piv (Piv.signOne Piv.refSignature) .ok (by decide +kernel) nofun
      nofun
  · exact settled_of_piv Piv.verifyPin .ok (by decide +kernel) nofun nofun
  · decide +kernel
  · decide +kernel

/-- The mutual authentication is answered `6A80`, and the object is written. -/
theorem unanswered_authentication :
    ((answers Card.step exampleCard unansweredRun).filterMap sent).map (fun bytes =>
      bytes.drop (bytes.length - 2)) =
        [atr, Sw.ok.bytes, Sw.ok.bytes, Sw.wrongData.bytes, Sw.ok.bytes] ∧
    ¬Along (Isolated Piv.memoryContent) (history Card.step exampleCard unansweredRun) := by
  refine ⟨by decide +kernel, fun h => ?_⟩
  have hsince := h.1 .pivManagement
    (privileged_of_served Piv.putPrinted (by decide +kernel) rfl)
  -- Back to the SELECT: no entry is an authentication that succeeds.
  rcases hsince with hput | ⟨-, hreturn | ⟨-, hsend | ⟨-, hask | ⟨-, hsend | ⟨-, hselect |
    ⟨hends, -⟩⟩⟩⟩⟩⟩
  · obtain ⟨n, apdu, hserved⟩ := served_of_verifies hput
    cases hserved
  · obtain ⟨n, apdu, hserved⟩ := served_of_verifies hreturn
    have hrefused : some (0, some returnWitness, Sw.wrongData) = some (n, some apdu, Sw.ok) :=
      Eq.trans (by decide +kernel) hserved
    cases hrefused
  · obtain ⟨n, apdu, hserved⟩ := served_of_verifies hsend
    cases hserved
  · -- The first request is answered `9000`, but no nonce is pending that it could return.
    obtain ⟨call, -, -, apdu, rng, -, template, pending, -, hwitness, -⟩ := hask
    exact absurd (Option.isSome_iff_exists.mpr ⟨pending, hwitness⟩) (by decide +kernel)
  · obtain ⟨n, apdu, hserved⟩ := served_of_verifies hsend
    cases hserved
  · obtain ⟨n, apdu, hserved⟩ := served_of_verifies hselect
    have hcommand : some (0, none, Sw.ok) = some (n, some apdu, Sw.ok) :=
      Eq.trans (by decide +kernel) hserved
    cases hcommand
  · exact hends (Card.endsSession_of_passedFrame (commandBytes selectPiv) (by decide +kernel)
      ⟨selectPiv, rfl, rfl, rfl⟩)

end AegisToken.Applets
