/-
  What one command of the OpenPGP card applet can do.
  `Effect K S c apdu rng answer c'` lists every outcome of a command: an answer that changes
  nothing, what a PIN command does to its slot, a data object, a new key, a signature. A command
  that changes the persistent state saves it. `process_effect` says that a command has one of the
  outcomes; what holds over whole runs is derived from it.
-/
import AegisToken.Lib.History
import AegisToken.Applets.OpenPgpCommands

namespace AegisToken.Applets.OpenPgp
open ByteCodec History

variable {σ : Type} {K : PgpCrypto} {S : OpenPgpStore σ}

/-! ## PIN slots -/

inductive Pw where
  | pw1
  | pw3
deriving DecidableEq, Repr

def Pw.fromReference (p2 : UInt8) : Option Pw :=
  if p2 = 0x81 ∨ p2 = 0x82 then some .pw1 else if p2 = 0x83 then some .pw3 else none

def slot (c : OpenPgp σ) : Pw → PinSlot
  | .pw1 => c.pw1
  | .pw3 => c.pw3

def setSlot (c : OpenPgp σ) (pw : Pw) (slot : PinSlot) : OpenPgp σ :=
  match pw with
  | .pw1 => { c with pw1 := slot }
  | .pw3 => { c with pw3 := slot }

def floor (c : OpenPgp σ) : Pw → UInt8
  | .pw1 => c.pw1Floor
  | .pw3 => c.pw3Floor

theorem setSlot_slot (c : OpenPgp σ) (pw : Pw) : c.setSlot pw (c.slot pw) = c := by
  cases pw <;> rfl

/-- The slot a command presents candidates to, and the candidates. A CHANGE of PW1 presents every
  first half that can be the current PIN. -/
def presented (apdu : Apdu) (c : OpenPgp σ) : Option (Pw × List (List UInt8)) :=
  if apdu.ins = insVerify then
    if apdu.data = [] then none else (Pw.fromReference apdu.p2).map (·, [apdu.data])
  else if apdu.ins = insChangeReferenceData then
    if apdu.p2 = 0x83 then
      if c.pw3Verified ∧ apdu.data.length = 16 then some (.pw3, [apdu.data.take 8]) else none
    else if (apdu.p2 = 0x81 ∨ apdu.p2 = 0x82) ∧ 2 * pwPolicy.minLen ≤ apdu.data.length ∧
        apdu.data.length ≤ 2 * pwPolicy.maxLen then
      some (.pw1, c.pw1.currentHalves apdu.data)
    else none
  else none

/-- Some candidate is the PIN of the slot. -/
def AcceptsAny (K : PgpCrypto) (slot : PinSlot) (candidates : List (List UInt8)) : Prop :=
  ∃ pin ∈ candidates, slot.Accepts K.sha256 pin

instance (slot : PinSlot) (candidates : List (List UInt8)) :
    Decidable (AcceptsAny K slot candidates) :=
  inferInstanceAs (Decidable (∃ pin ∈ candidates, _))

/-- A command compared no candidate and found it wrong. -/
def NotWrong (K : PgpCrypto) (c : OpenPgp σ) (apdu : Apdu) : Prop :=
  ∀ pw candidates, presented apdu c = some (pw, candidates) → (c.slot pw).Compares →
    AcceptsAny K (c.slot pw) candidates

/-! ## Outcomes -/

/-- A key that GENERATE makes for a slot: of the algorithm of the slot, on a curve or RSA. -/
inductive Generated (K : PgpCrypto) (algo : UInt8) : KeySlot → Prop
  | curve (scalar : FixedBytes 32) : algo ≠ keyAlgoRsa2048 → Generated K algo (curveKey algo scalar)
  | rsa (rng : Rng) (key : Rsa2048PrivateKey) : generateKey K.bigUint rng = some key →
      Generated K algo (rsaSlot key)

/-- The command asks for a use of a private key under PW1. -/
def usesOther (apdu : Apdu) : Prop :=
  (apdu.ins = insPso ∧ apdu.p1 = 0x80 ∧ apdu.p2 = 0x86) ∨ apdu.ins = insInternalAuthenticate

def isSign (apdu : Apdu) : Prop := apdu.ins = insPso ∧ apdu.p1 = 0x9E ∧ apdu.p2 = 0x9A

def isGenerate (apdu : Apdu) : Prop := apdu.ins = insGenerate ∧ apdu.p1 = 0x80

/-- Every outcome of a command. -/
inductive Effect (K : PgpCrypto) (S : OpenPgpStore σ) (c : OpenPgp σ) (apdu : Apdu) (rng : Rng) :
    Response → OpenPgp σ → Prop
  /-- Nothing changes. A success is no VERIFY, and the commands that need a PIN had it. -/
  | idle {answer : Response} : NotWrong K c apdu →
      (answer.sw = .ok → apdu.ins ≠ insVerify ∧ apdu.ins ≠ insChangeReferenceData ∧
        apdu.ins ≠ insResetRetryCounter ∧ apdu.ins ≠ insPutData ∧ ¬isSign apdu ∧ ¬isGenerate apdu ∧
        (usesOther apdu → c.pw1OtherVerified = true)) →
      Effect K S c apdu rng answer c
  | pinAccepted {pw : Pw} : apdu.ins = insVerify → Pw.fromReference apdu.p2 = some pw →
      (c.slot pw).Accepts K.sha256 apdu.data → NotWrong K c apdu →
      Effect K S c apdu rng (.status .ok) (c.markVerified apdu.p2)
  | pinWrong {candidates : List (List UInt8)} {c₁ : OpenPgp σ} (pw : Pw) :
      presented apdu c = some (pw, candidates) → (c.slot pw).Compares →
      ¬AcceptsAny K (c.slot pw) candidates → c₁ = c.setSlot pw (c.slot pw).attempted →
      Effect K S c apdu rng
        (written (c₁.persistState S).1 (.status (.retriesLeft ((c.slot pw).retriesRemaining - 1))))
        (c₁.persistState S).2
  | pinChanged {candidates : List (List UInt8)} {c₁ : OpenPgp σ} (pw : Pw) (new : List UInt8) :
      apdu.ins = insChangeReferenceData → presented apdu c = some (pw, candidates) →
      AcceptsAny K (c.slot pw) candidates →
      c₁ = c.setSlot pw ((c.slot pw).installed K.sha256 new) →
      Effect K S c apdu rng (written (c₁.persistState S).1 (.status .ok)) (c₁.persistState S).2
  | pinUnblocked {c₁ : OpenPgp σ} : apdu.ins = insResetRetryCounter → apdu.p1 = 0x02 →
      apdu.p2 = 0x81 → c.pw3Verified = true → apdu.data.length = 8 →
      c₁ = { c with pw1 := c.pw1.installed K.sha256 apdu.data } →
      Effect K S c apdu rng (written (c₁.persistState S).1 (.status .ok)) (c₁.persistState S).2
  /-- A change that is refused writes the state all the same. -/
  | pinKept {sw : Sw} : apdu.ins = insChangeReferenceData ∨ apdu.ins = insResetRetryCounter →
      NotWrong K c apdu → sw ≠ .ok →
      Effect K S c apdu rng (written (c.persistState S).1 (.status sw)) (c.persistState S).2
  | objectPut {c₁ : OpenPgp σ} : apdu.ins = insPutData → c.pw3Verified = true →
      c.putObject apdu = some c₁ →
      Effect K S c apdu rng (written (c₁.persistState S).1 (.status .ok)) (c₁.persistState S).2
  | keyGenerated {answer : Response} {c₁ : OpenPgp σ} (index : Fin 3) (key : KeySlot) :
      isGenerate apdu → c.pw3Verified = true →
      Generated K ((c.keys index).effectiveAlgo index) key → c₁ = c.installKey index key →
      Effect K S c apdu rng (written (c₁.saveState S).1 answer) (c₁.saveState S).2
  | signed {signature : List UInt8} {c₁ : OpenPgp σ} : isSign apdu →
      c.pw1SignatureVerified = true → (c.keys 0).present = true →
      c.computeSignature K apdu.data rng = .ok signature →
      c₁ = { c with signatureCounter := c.signatureCounter + 1, pw1SignatureVerified := false } →
      Effect K S c apdu rng (written (c₁.saveState S).1 (simpleOutput signature)) (c₁.saveState S).2

/-! ## Each command -/

theorem persistAnswer_eq (sw : Sw) (c : OpenPgp σ) :
    c.persistAnswer S sw = (written (c.persistState S).1 (.status sw), (c.persistState S).2) := by
  unfold persistAnswer
  rcases c.persistState S with ⟨_ | _, c'⟩ <;> rfl

theorem saveAnswer_eq (answer : Response) (c : OpenPgp σ) :
    c.saveAnswer S answer = (written (c.saveState S).1 answer, (c.saveState S).2) := by
  unfold saveAnswer
  rcases c.saveState S with ⟨_ | _, c'⟩ <;> rfl

theorem written_sw_ne {saved : Bool} {answer : Response} (h : answer.sw ≠ .ok) :
    (written saved answer).sw ≠ .ok := by
  cases saved
  · exact nofun
  · exact h

section
variable {c : OpenPgp σ} {apdu : Apdu} {rng : Rng}

theorem notWrong_of_none (h : presented apdu c = none) : NotWrong K c apdu :=
  fun _ _ hp => absurd (h.symm.trans hp) nofun

theorem notWrong_of_presented {pw : Pw} {candidates : List (List UInt8)}
    (hpr : presented apdu c = some (pw, candidates))
    (h : (c.slot pw).Compares → AcceptsAny K (c.slot pw) candidates) : NotWrong K c apdu := by
  intro pw' candidates' hp
  cases hpr.symm.trans hp
  exact h

theorem notWrong_of_ins (hv : apdu.ins ≠ insVerify)
    (hc : apdu.ins ≠ insChangeReferenceData) : NotWrong K c apdu :=
  notWrong_of_none (by rw [presented, if_neg hv, if_neg hc])

theorem Effect.refused {sw : Sw} (hwr : NotWrong K c apdu) (hsw : sw ≠ .ok) :
    Effect K S c apdu rng (.status sw) c :=
  .idle hwr fun h => absurd h hsw

theorem presented_verify (hins : apdu.ins = insVerify) :
    presented apdu c = if apdu.data = [] then none else
      (Pw.fromReference apdu.p2).map (·, [apdu.data]) := if_pos hins

theorem isBlocked_sw_ne (slot : PinSlot) :
    (if slot.isBlocked then Sw.authenticationBlocked
      else Sw.retriesLeft slot.retriesRemaining) ≠ .ok := by
  split
  · decide
  · exact Sw.retriesLeft_ne_ok _

theorem verifySlot_effect (hins : apdu.ins = insVerify) {pw : Pw}
    (hr : Pw.fromReference apdu.p2 = some pw) :
    Effect K S c apdu rng (verifySlot K S apdu (c.slot pw) (c.setSlot pw)).1
      (verifySlot K S apdu (c.slot pw) (c.setSlot pw)).2 := by
  have hps := presented_verify (c := c) hins
  unfold verifySlot
  split
  · rename_i hem
    rw [setSlot_slot]
    exact .refused (notWrong_of_none (hps.trans (if_pos hem))) (isBlocked_sw_ne _)
  rename_i hdt
  have hpr : presented apdu c = some (pw, [apdu.data]) := by
    rw [hps, if_neg hdt, hr]
    rfl
  rcases hv : (c.slot pw).verify K.sha256 apdu.data with ⟨result, slot⟩
  obtain ⟨ha, rfl, rfl⟩ | ⟨hc, ha, rfl, rfl⟩ | ⟨hc, sw, rfl, hrt, rfl⟩ :=
    PinSlot.verify_cases hv
  · dsimp only
    rw [setSlot_slot]
    exact .pinAccepted hins hr ha
      (notWrong_of_presented hpr fun _ => ⟨_, List.mem_singleton_self _, ha⟩)
  · have hi := Sw.isRetryIndicator_retriesLeft ((c.slot pw).retriesRemaining - 1)
    dsimp only
    rw [hi, persistAnswer_eq]
    refine .pinWrong pw hpr hc ?_ rfl
    rintro ⟨pin, hp, hac⟩
    cases List.mem_singleton.mp hp
    exact ha hac
  · dsimp only
    rw [hrt, setSlot_slot]
    exact .refused (notWrong_of_presented hpr fun h => absurd h hc) (PinSlot.verify_error_ne hv)

theorem verify_effect (hins : apdu.ins = insVerify) :
    Effect K S c apdu rng (c.verify K S apdu).1 (c.verify K S apdu).2 := by
  have hsl : ∀ pw, Pw.fromReference apdu.p2 = some pw →
      Effect K S c apdu rng (verifySlot K S apdu (c.slot pw) (c.setSlot pw)).1
        (verifySlot K S apdu (c.slot pw) (c.setSlot pw)).2 :=
    fun _ hr => verifySlot_effect hins hr
  unfold verify
  split
  · rename_i hp2
    exact hsl .pw1 (by rw [hp2]; rfl)
  · rename_i hp2
    exact hsl .pw1 (by rw [hp2]; rfl)
  · rename_i hp2
    exact hsl .pw3 (by rw [hp2]; rfl)
  · rename_i h81 h82 h83
    refine .refused (notWrong_of_none ?_) nofun
    have hno : Pw.fromReference apdu.p2 = none := by
      unfold Pw.fromReference
      rw [if_neg (by rintro (h | h); exacts [h81 h, h82 h]), if_neg h83]
    rw [presented_verify hins, hno, Option.map_none, ite_self]

variable (hins : apdu.ins = insChangeReferenceData) {input : List UInt8}

include hins in
theorem presented_change :
    presented apdu c = if apdu.p2 = 0x83 then
        if c.pw3Verified ∧ apdu.data.length = 16 then some (.pw3, [apdu.data.take 8]) else none
      else if (apdu.p2 = 0x81 ∨ apdu.p2 = 0x82) ∧ 2 * pwPolicy.minLen ≤ apdu.data.length ∧
          apdu.data.length ≤ 2 * pwPolicy.maxLen then
        some (.pw1, c.pw1.currentHalves apdu.data)
      else none := by
  rw [presented, if_neg (by rw [hins]; decide), if_pos hins]

include hins in
theorem changePw3_effect (hp2 : apdu.p2 = 0x83)
    (hr : c.pw3Verified = true) (hl : apdu.data.length = 16) {result : Except Sw Unit}
    {slot : PinSlot}
    (hv : c.pw3.change K.sha256 (apdu.data.take 8) (apdu.data.drop 8) = (result, slot)) :
    Effect K S c apdu rng
      (({ c with pw3 := slot } : OpenPgp σ).persistAnswer S (resultSw result)).1
      (({ c with pw3 := slot } : OpenPgp σ).persistAnswer S (resultSw result)).2 := by
  have hpr : presented apdu c = some (.pw3, [apdu.data.take 8]) := by
    rw [presented_change hins, if_pos hp2, if_pos ⟨hr, hl⟩]
  rw [persistAnswer_eq]
  obtain ⟨ha, rfl, rfl⟩ | ⟨hc, ha, rfl, rfl⟩ | ⟨hrg, sw, rfl, rfl⟩ := PinSlot.change_cases hv
  · exact .pinChanged .pw3 _ hins hpr ⟨_, List.mem_singleton_self _, ha⟩ rfl
  · refine .pinWrong .pw3 hpr hc ?_ rfl
    rintro ⟨pin, hn, hac⟩
    cases List.mem_singleton.mp hn
    exact ha hac
  · exact .pinKept (.inl hins)
      (notWrong_of_presented hpr fun h => ⟨_, List.mem_singleton_self _, hrg h⟩)
      (PinSlot.change_error_ne hv)

include hins in
theorem changePw1_effect
    (hpr : presented apdu c = some (.pw1, c.pw1.currentHalves apdu.data)) :
    Effect K S c apdu rng
      ((c.changePw1 K apdu.data).2.persistAnswer S (resultSw (c.changePw1 K apdu.data).1)).1
      ((c.changePw1 K apdu.data).2.persistAnswer S (resultSw (c.changePw1 K apdu.data).1)).2 := by
  rw [persistAnswer_eq]
  unfold changePw1
  rcases hr : c.pw1.resolveChange K.sha256 apdu.data with ⟨found, slot⟩
  obtain ⟨split, rfl, rfl, ha, hhl, hn, hm⟩ | ⟨hc, hwr, rfl, rfl⟩ | ⟨hc, sw, rfl, hsw, rfl⟩ :=
    PinSlot.resolveChange_cases hr
  · -- The half that was found is the PIN, and the rest is a PIN of an allowed length.
    have hh : c.pw1.change K.sha256 (apdu.data.take split) (apdu.data.drop split) =
        (.ok (), c.pw1.installed K.sha256 (apdu.data.drop split)) :=
      PinSlot.change_of_accepts ha hn hm
    dsimp only
    rw [hh]
    exact .pinChanged .pw1 _ hins hpr ⟨_, hhl, ha⟩ rfl
  · refine .pinWrong .pw1 hpr hc ?_ rfl
    rintro ⟨pin, hp, hac⟩
    exact hwr pin hp hac
  · exact .pinKept (.inl hins) (notWrong_of_presented hpr fun h => absurd h hc) hsw

include hins in
theorem verifyChange_effect :
    Effect K S c apdu rng (c.verifyChange K S apdu).1 (c.verifyChange K S apdu).2 := by
  have hpr := presented_change (c := c) hins
  unfold verifyChange
  split
  · -- A reference outside `81` to `83` presents nothing.
    rename_i hrn
    refine .refused (notWrong_of_none ?_) nofun
    rw [hpr, if_neg, if_neg]
    · rintro ⟨h | h, -⟩ <;> rw [h] at hrn <;> revert hrn <;> decide
    intro h
    rw [h] at hrn
    revert hrn
    decide
  rename_i hrn
  split
  · rename_i hp2
    split
    · rename_i hv
      refine .refused (notWrong_of_none ?_) nofun
      rw [hpr, if_pos hp2, if_neg]
      rintro ⟨h, -⟩
      rw [h] at hv
      cases hv
    rename_i hv
    split
    · rename_i hl
      refine .refused (notWrong_of_none ?_) nofun
      rw [hpr, if_pos hp2, if_neg fun h => hl h.2]
    rename_i hl
    exact changePw3_effect hins hp2 (by simpa using hv) (not_not.mp hl) rfl
  rename_i hp2
  split
  · refine .refused (notWrong_of_none ?_) nofun
    rw [hpr, if_neg hp2, if_neg]
    rintro ⟨-, hn, hm⟩
    omega
  refine changePw1_effect hins ?_
  rw [hpr, if_neg hp2, if_pos]
  refine ⟨?_, by omega, by omega⟩
  have hle : 0x81 ≤ apdu.p2.toNat ∧ apdu.p2.toNat ≤ 0x83 := by
    simpa [UInt8.lt_iff_toNat_lt] using hrn
  have hne : apdu.p2.toNat ≠ 0x83 := fun h => hp2 (UInt8.toNat_inj.mp h)
  have : apdu.p2.toNat = 0x81 ∨ apdu.p2.toNat = 0x82 := by omega
  exact this.imp (fun h => UInt8.toNat_inj.mp h) fun h => UInt8.toNat_inj.mp h

theorem resetRetry_effect (hins : apdu.ins = insResetRetryCounter) :
    Effect K S c apdu rng (c.resetRetry K S apdu).1 (c.resetRetry K S apdu).2 := by
  have hwr : NotWrong K c apdu :=
    notWrong_of_ins (by rw [hins]; decide) (by rw [hins]; decide)
  unfold resetRetry
  split
  · refine .refused hwr ?_
    split <;> decide
  rename_i hp
  split
  · exact .refused hwr nofun
  rename_i hv
  split
  · exact .refused hwr nofun
  rename_i hl
  dsimp only
  rw [persistAnswer_eq]
  unfold PinSlot.unblock PinSlot.set PinSlot.checkLength
  split
  · rename_i sw hsw
    split at hsw
    · cases hsw
      exact .pinKept (.inr hins) hwr nofun
    · cases hsw
  · push Not at hp
    exact .pinUnblocked hins hp.1 hp.2 (by simpa using hv) (not_not.mp hl) rfl

theorem putData_effect (hins : apdu.ins = insPutData) :
    Effect K S c apdu rng (c.putData S apdu).1 (c.putData S apdu).2 := by
  have hwr : NotWrong K c apdu :=
    notWrong_of_ins (by rw [hins]; decide) (by rw [hins]; decide)
  unfold putData
  split
  · exact .refused hwr nofun
  rename_i hv
  split
  · rename_i c₁ hp
    rw [persistAnswer_eq]
    exact .objectPut hins (by simpa using hv) hp
  · exact .refused hwr nofun

theorem generate_effect (hins : apdu.ins = insGenerate) (hp1 : apdu.p1 = 0x80) :
    Effect K S c apdu rng (c.generate K S apdu rng).1 (c.generate K S apdu rng).2 := by
  have hwr : NotWrong K c apdu :=
    notWrong_of_ins (by rw [hins]; decide) (by rw [hins]; decide)
  unfold generate
  split
  · exact .refused hwr nofun
  rename_i hv
  have hpw3 : c.pw3Verified = true := by simpa using hv
  split
  · exact .refused hwr nofun
  rename_i index ht
  dsimp only
  split
  · unfold generateRsa
    split
    · exact .refused hwr nofun
    · rename_i key hk
      rw [saveAnswer_eq]
      exact .keyGenerated index _ ⟨hins, hp1⟩ hpw3 (.rsa rng key hk) rfl
  · rename_i hal
    split
    · exact .refused hwr nofun
    · rename_i scalar point hdr
      rw [saveAnswer_eq]
      exact .keyGenerated index _ ⟨hins, hp1⟩ hpw3 (.curve scalar hal) rfl

theorem computeSignature_error_ne {sw : Sw}
    (h : c.computeSignature K input rng = .error sw) : sw ≠ .ok := by
  unfold computeSignature at h
  dsimp only at h
  split at h
  · split at h
    · cases h
      decide
    split at h
    · cases h
      decide
    split at h
    · cases h
      decide
    · cases h
  · split at h
    · split at h
      · cases h
        decide
      · cases h
    iterate 3
      split at h
      · cases h
        decide
    · cases h

theorem sign_effect (h : isSign apdu) :
    Effect K S c apdu rng (c.sign K S apdu.data rng).1 (c.sign K S apdu.data rng).2 := by
  have hwr : NotWrong K c apdu :=
    notWrong_of_ins (by rw [h.1]; decide) (by rw [h.1]; decide)
  unfold sign
  split
  · exact .refused hwr nofun
  rename_i hv
  split
  · exact .refused hwr nofun
  rename_i hpr
  split
  · rename_i sw hsw
    exact .refused hwr (computeSignature_error_ne hsw)
  · rename_i signature hs
    rw [saveAnswer_eq]
    exact .signed h (by simpa using hv) (by simpa using hpr) hs rfl

theorem decipher_verified (h : (c.decipher K input rng).sw = .ok) :
    c.pw1OtherVerified = true := by
  by_contra hne
  rw [decipher, if_pos (.inl (by simpa using hne))] at h
  cases h

theorem internalAuthenticate_verified
    (h : (c.internalAuthenticate K input rng).sw = .ok) : c.pw1OtherVerified = true := by
  by_contra hne
  rw [internalAuthenticate, if_pos (.inl (by simpa using hne))] at h
  cases h

theorem Effect.free {answer : Response} {ins : UInt8} (hins : apdu.ins = ins)
    (h : ins ∉ [insVerify, insChangeReferenceData, insResetRetryCounter, insPutData, insPso,
      insInternalAuthenticate]) (hg : ¬isGenerate apdu) :
    Effect K S c apdu rng answer c := by
  simp only [List.mem_cons, List.not_mem_nil, or_false, not_or] at h
  obtain ⟨hv, hc, hrs, ht, hp, hah⟩ := h
  subst hins
  refine .idle (notWrong_of_ins hv hc) fun _ =>
    ⟨hv, hc, hrs, ht, fun hs => hp hs.1, hg, ?_⟩
  rintro (hd | ha)
  · exact absurd hd.1 hp
  · exact absurd ha hah

/-- A use of a key under PW1, answered as the flag says. -/
theorem Effect.used {answer : Response} (hus : usesOther apdu)
    (h : answer.sw = .ok → c.pw1OtherVerified = true) : Effect K S c apdu rng answer c := by
  have hins : apdu.ins = insPso ∧ apdu.p1 = 0x80 ∨ apdu.ins = insInternalAuthenticate :=
    hus.imp (fun h => ⟨h.1, h.2.1⟩) id
  have hne : ∀ ins, ins ≠ insPso → ins ≠ insInternalAuthenticate → apdu.ins ≠ ins := by
    rintro _ hps hah rfl
    exact hins.elim (fun h => hps h.1) hah
  refine .idle (notWrong_of_ins (hne _ nofun nofun) (hne _ nofun nofun))
    fun hok => ⟨hne _ nofun nofun, hne _ nofun nofun,
      hne _ nofun nofun, hne _ nofun nofun, fun hs => ?_,
      fun hg => hne _ (by decide) (by decide) hg.1, fun _ => h hok⟩
  rcases hins with ⟨-, hp1⟩ | hah
  · exact absurd (hp1.symm.trans hs.2.1) nofun
  · exact absurd (hah.symm.trans hs.1) nofun

theorem Effect.ite {p : Prop} [Decidable p] {x y : Response × OpenPgp σ}
    (hx : p → Effect K S c apdu rng x.1 x.2) (hy : ¬p → Effect K S c apdu rng y.1 y.2) :
    Effect K S c apdu rng (if p then x else y).1 (if p then x else y).2 :=
  iteInduction (motive := fun x : Response × OpenPgp σ => Effect K S c apdu rng x.1 x.2) hx hy

theorem process_effect (c : OpenPgp σ) (apdu : Apdu) (rng : Rng) :
    Effect K S c apdu rng (c.process K S apdu rng).1 (c.process K S apdu rng).2 := by
  refine .ite verify_effect fun hv => .ite verifyChange_effect fun hc =>
    .ite resetRetry_effect fun hrs => .ite (fun hg => ?_) fun _ =>
    .ite putData_effect fun hp => .ite sign_effect fun hsg =>
    .ite (fun h => .used (.inl h) decipher_verified) fun hd =>
    .ite (fun h => .used (.inr h) internalAuthenticate_verified) fun hah =>
    .ite (fun h => generate_effect h.1 h.2) fun hn => ?_
  · exact .free hg nofun fun h => absurd (hg.symm.trans h.1) nofun
  -- What is left needs no PIN and changes nothing.
  have hil : ∀ answer, Effect K S c apdu rng answer c := fun answer =>
    .idle (notWrong_of_ins hv hc) fun _ =>
      ⟨hv, hc, hrs, hp, hsg, hn, fun h => (h.elim hd hah).elim⟩
  exact .ite (fun _ => hil _) fun _ => .ite (fun _ => hil _) fun _ =>
    .ite (fun _ => hil _) fun _ => hil _

/-- VERIFY answers `9000` exactly to the PIN that the slot accepts. -/
theorem verify_ok_iff (hins : apdu.ins = insVerify) {pw : Pw}
    (hr : Pw.fromReference apdu.p2 = some pw) :
    (c.process K S apdu rng).1.sw = .ok ↔
      apdu.data ≠ [] ∧ (c.slot pw).Accepts K.sha256 apdu.data := by
  have hv : c.verify K S apdu = verifySlot K S apdu (c.slot pw) (c.setSlot pw) := by
    unfold Pw.fromReference at hr
    split_ifs at hr with h h
    · cases hr
      rcases h with h | h <;> rw [verify, h] <;> rfl
    · cases hr
      rw [verify, h]
      rfl
  rw [process, if_pos hins, hv]
  unfold verifySlot
  by_cases hem : apdu.data = []
  · rw [if_pos hem]
    exact iff_of_false (isBlocked_sw_ne _) fun h => h.1 hem
  rw [if_neg hem]
  rcases hv : (c.slot pw).verify K.sha256 apdu.data with ⟨result, slot⟩
  obtain ⟨ha, rfl, -⟩ | ⟨-, ha, rfl, -⟩ | ⟨hc, sw, rfl, hrt, -⟩ := PinSlot.verify_cases hv
  · exact iff_of_true rfl ⟨hem, ha⟩
  · simp only [Sw.isRetryIndicator_retriesLeft, persistAnswer_eq]
    exact iff_of_false (written_sw_ne (Sw.retriesLeft_ne_ok _)) fun h => ha h.2
  · simp only [hrt]
    exact iff_of_false (PinSlot.verify_error_ne hv) fun h => hc h.2.compares

/-- A candidate that is compared and found wrong costs an attempt, and nothing else changes. -/
theorem process_wrong {pw : Pw} {candidates : List (List UInt8)}
    (hp : presented apdu c = some (pw, candidates)) (hc : (c.slot pw).Compares)
    (hw : ¬AcceptsAny K (c.slot pw) candidates) :
    c.process K S apdu rng = (c.setSlot pw (c.slot pw).attempted).persistAnswer S
        (.retriesLeft ((c.slot pw).retriesRemaining - 1)) := by
  have hins : apdu.ins = insVerify ∨ apdu.ins = insChangeReferenceData := by
    by_contra h
    rw [not_or] at h
    exact hw (notWrong_of_ins h.1 h.2 _ _ hp hc)
  have he := process_effect (K := K) (S := S) c apdu rng
  generalize hr : c.process K S apdu rng = r at he
  obtain ⟨answer, c'⟩ := r
  rw [persistAnswer_eq]
  cases he with
  | idle hn | pinAccepted _ _ _ hn | pinKept _ hn => exact absurd (hn _ _ hp hc) hw
  | pinWrong _ hp' _ _ hc₁ =>
    cases hp.symm.trans hp'
    rw [← hc₁]
    rfl
  | pinChanged _ _ _ hp' ha =>
    cases hp.symm.trans hp'
    exact absurd ha hw
  | pinUnblocked h | objectPut h => rcases hins with h' | h' <;> cases h.symm.trans h'
  | keyGenerated _ _ h | signed h => rcases hins with h' | h' <;> cases h.1.symm.trans h'

end

/-! ## The machine -/

/-- What happens to the applet. -/
inductive Event where
  | select
  | process (apdu : Apdu) (rng : Rng)

def step (K : PgpCrypto) (S : OpenPgpStore σ) (c : OpenPgp σ) : Event → Response × OpenPgp σ
  | .select => c.select K S
  | .process apdu rng => c.process K S apdu rng

/-- An entry of the history of an applet. -/
abbrev Log (σ : Type) := Entry (OpenPgp σ) Event Response

def IsSelect (e : Log σ) : Prop := e.event = .select

def run (K : PgpCrypto) (S : OpenPgpStore σ) (c : OpenPgp σ) (es : List Event) : OpenPgp σ :=
  Runs.run (fun c e => (step K S c e).2) c es

end AegisToken.Applets.OpenPgp
