/-
  CHANGE REFERENCE DATA of PW1, whose body is the current PIN and the new one with no mark between
  them (pin.rs `resolve_change`).
  The slot hashes every first half that the policy admits. When none is the PIN one attempt is
  lost, but as many candidates are ruled out as there are halves: one exactly if the body has twice
  the least or twice the greatest length (`one_attempt_one_candidate`). With the PIN in front the
  change is made, whatever the two lengths are (`pw1_change_splits`).
-/
import AegisToken.Applets.OpenPgpRetries

namespace AegisToken.Applets
open ByteCodec History RetryBudget

namespace PinSlot
variable {slot : PinSlot} {body : List UInt8}

theorem nodup_currentHalves : (slot.currentHalves body).Nodup := by
  refine List.Nodup.map_on (fun j hj k hk heq => ?_) List.nodup_range'
  have hl := congrArg List.length heq
  rw [List.mem_range'_1] at hj hk
  rw [List.length_take, List.length_take] at hl
  omega

/-- In the window a body has one half exactly if it has twice the least or the greatest length. -/
theorem length_currentHalves_le_one (hn : 2 * slot.policy.minLen ≤ body.length)
    (hm : body.length ≤ 2 * slot.policy.maxLen) :
    (slot.currentHalves body).length ≤ 1 ↔
      body.length = 2 * slot.policy.minLen ∨ body.length = 2 * slot.policy.maxLen := by
  simp only [currentHalves, List.length_map, List.length_range']
  omega

/-- The halves leave two PINs of lengths that the policy admits. -/
theorem mem_currentHalves {ha : List UInt8} :
    ha ∈ slot.currentHalves body ↔ ∃ rest, body = ha ++ rest ∧
      (slot.policy.minLen ≤ ha.length ∧ ha.length ≤ slot.policy.maxLen) ∧
      slot.policy.minLen ≤ rest.length ∧ rest.length ≤ slot.policy.maxLen := by
  simp only [currentHalves, List.mem_map, List.mem_range'_1]
  constructor
  · rintro ⟨k, hk, rfl⟩
    refine ⟨body.drop k, (List.take_append_drop k body).symm, ?_⟩
    rw [List.length_take, List.length_drop]
    omega
  · rintro ⟨rest, rfl, hh, hr⟩
    refine ⟨ha.length, ?_, List.take_left⟩
    rw [List.length_append]
    omega

end PinSlot

namespace OpenPgp
variable {σ : Type} {K : PgpCrypto} {S : OpenPgpStore σ}

def candidates (x : Log σ) : List (List UInt8) :=
  match x.event with
  | .process apdu _ => ((presented apdu x.before).map (·.2)).getD []
  | .select => []

/-- The candidates for PW1 that were compared without success since its counter was refilled. -/
def ruledOut (K : PgpCrypto) : List (Log σ) → List (List UInt8)
  | [] => []
  | x :: past =>
    match pinMark K .pw1 x with
    | some .renewed => []
    | some .wrong => candidates x ++ ruledOut K past
    | none => ruledOut K past

/-- A CHANGE of PW1 has a body with one half. -/
def OneHalf (x : Log σ) : Prop :=
  ∀ apdu rng, x.event = .process apdu rng → apdu.ins = insChangeReferenceData → apdu.p2 ≠ 0x83 →
    apdu.data.length = 2 * pwPolicy.minLen ∨ apdu.data.length = 2 * pwPolicy.maxLen

theorem OneHalf.candidates_le {x : Log σ} (h : OneHalf x) (hwf : WellFormed x.before) :
    (candidates x).length ≤ 1 := by
  have hl : x.before.pw1.policy = pwPolicy := (hwf.pins .pw1).1
  unfold candidates
  split
  · rename_i apdu rng hev
    unfold presented
    split_ifs with hv hem hc hp2 hrg hw
    · exact Nat.zero_le _
    · cases Pw.fromReference apdu.p2 with
      | none => exact Nat.zero_le _
      | some pw => exact Nat.le_refl _
    · exact Nat.le_refl _
    · exact Nat.zero_le _
    · refine (PinSlot.length_currentHalves_le_one ?_ ?_).mpr ?_ <;> rw [hl]
      · exact hw.2.1
      · exact hw.2.2
      · exact h apdu rng hev hc hp2
    · exact Nat.zero_le _
    · exact Nat.zero_le _
  · exact Nat.zero_le _

/-- A `resolve_change` in the window that costs an attempt rules out all the halves of its body,
  and they are one exactly if the body has twice the least or twice the greatest length. Over every
  run with such bodies only, the candidates for PW1 that were ruled out since its counter was
  refilled are no more than the attempts that were lost. -/
theorem one_attempt_one_candidate (sha256 : List UInt8 → FixedBytes 32) {σ : Type} (K : PgpCrypto)
    (S : OpenPgpStore σ) :
    (∀ (slot : PinSlot) (body : List UInt8),
      2 * slot.policy.minLen ≤ body.length → body.length ≤ 2 * slot.policy.maxLen →
      (slot.resolveChange sha256 body).1 = .ok none →
      (slot.resolveChange sha256 body).2 = slot.attempted ∧
      (∀ half ∈ slot.currentHalves body, ¬slot.Accepts sha256 half) ∧
      (slot.currentHalves body).Nodup ∧ ((slot.currentHalves body).length ≤ 1 ↔
        body.length = 2 * slot.policy.minLen ∨ body.length = 2 * slot.policy.maxLen)) ∧
    ∀ (c : OpenPgp σ) (es : List Event),
      WellFormed c → Along (fun x _ => OneHalf x) (history (step K S) c es) →
      Along (fun x past => (ruledOut K (x :: past)).dedup.length ≤
        spent ((x :: past).map (pinMark K .pw1))) (history (step K S) c es) := by
  constructor
  · intro slot body hmin hmax hnone
    rcases hr : slot.resolveChange sha256 body with ⟨found, slot'⟩
    rw [hr] at hnone
    obtain rfl : found = .ok none := hnone
    obtain ⟨split, h, -⟩ | ⟨-, hwrong, -, rfl⟩ | ⟨-, sw, h, -⟩ := PinSlot.resolveChange_cases hr
    · cases h
    · exact ⟨rfl, hwrong, PinSlot.nodup_currentHalves,
        PinSlot.length_currentHalves_le_one hmin hmax⟩
    · cases h
  · intro c es hwf hone
    refine along_history (I := fun c past => WellFormed c ∧
      (ruledOut K past).length ≤ spent (past.map (pinMark K .pw1))) ⟨hwf, Nat.le_refl _⟩ ?_ es hone
    intro c past e ⟨hc, hle⟩ hx
    have hlen : (ruledOut K (entry (step K S) c e :: past)).length ≤
        spent ((entry (step K S) c e :: past).map (pinMark K .pw1)) := by
      have hcand := hx.candidates_le hc
      rw [ruledOut, List.map_cons]
      rcases pinMark K .pw1 (entry (step K S) c e) with _ | _ | _
      · exact hle
      · rw [List.length_append, spent]
        omega
      · exact Nat.zero_le _
    exact ⟨(List.dedup_sublist _).length_le.trans hlen, step_wellFormed hc e, hlen⟩

/-- A blank card after SELECT. -/
def selected : OpenPgp (Option (List UInt8)) := ((new none).select exampleCrypto memory).2

/-- On a blank card, a CHANGE of PW1. -/
def changeOnce (body : List UInt8) : List Event :=
  [.select, .process ⟨insChangeReferenceData, 0, 0x81, body, none⟩ rngOne]

/-- A body of twelve digits, at the slot and on the card. -/
theorem one_attempt_one_candidate_twelve :
    (∀ half ∈ selected.pw1.currentHalves (wrongPin ++ otherPw1),
      ¬selected.pw1.Accepts exampleCrypto.sha256 half) ∧
    Along (fun x past => (ruledOut exampleCrypto (x :: past)).dedup.length ≤
        spent ((x :: past).map (pinMark exampleCrypto .pw1)))
      (history (step exampleCrypto memory) (new none) (changeOnce (wrongPin ++ otherPw1))) := by
  obtain ⟨hslot, hcard⟩ := one_attempt_one_candidate exampleCrypto.sha256 exampleCrypto memory
  refine ⟨(hslot selected.pw1 (wrongPin ++ otherPw1) (by decide) (by decide)
    (by decide +kernel)).2.1, hcard (new none) _ (wellFormed_new _) ⟨?_, nofun, trivial⟩⟩
  rintro apdu rng ⟨⟩ - -
  exact .inl rfl

/-- A body of thirteen digits rules out two candidates for one attempt. -/
theorem two_candidates_one_attempt :
    let h := history (step exampleCrypto memory) (new none)
      (changeOnce (0x30 :: (wrongPin ++ otherPw1)))
    (ruledOut exampleCrypto h).dedup.length = 2 ∧
      spent (h.map (pinMark exampleCrypto .pw1)) = 1 := by
  decide +kernel

/-! ## Every split -/

/-- A length that the policy of PW1 admits. -/
def PwLen (pin : List UInt8) : Prop := pwPolicy.minLen ≤ pin.length ∧ pin.length ≤ pwPolicy.maxLen

/-- No other text has the hash of this one. -/
def NoCollision (K : PgpCrypto) (pin : List UInt8) : Prop :=
  ∀ other, K.sha256 other = K.sha256 pin → other = pin

theorem NoCollision.eq {slot : PinSlot} {pin other : List UInt8} (h : NoCollision K pin)
    (hp : slot.Accepts K.sha256 pin) (ho : slot.Accepts K.sha256 other) : other = pin :=
  h other (Option.some_inj.mp (ho.1.symm.trans hp.1))

section
variable {c : OpenPgp σ} {cur new : List UInt8}

theorem changePw1_split (hp : c.pw1.policy = pwPolicy) (hcr : c.pw1.Accepts K.sha256 cur)
    (hl : PwLen cur) (hn : NoCollision K cur) (hnw : PwLen new) :
    c.changePw1 K (cur ++ new) = (.ok (), c.setSlot .pw1 (c.pw1.installed K.sha256 new)) := by
  rw [PwLen, ← hp] at hl hnw
  unfold changePw1
  rcases hr : c.pw1.resolveChange K.sha256 (cur ++ new) with ⟨found, slot⟩
  obtain ⟨split, rfl, rfl, ha, -⟩ | ⟨-, hw, -⟩ | ⟨hc, -⟩ := PinSlot.resolveChange_cases hr
  · have ht : (cur ++ new).take split = cur := hn.eq hcr ha
    have hd := List.take_append_drop split (cur ++ new)
    rw [ht, List.append_cancel_left_eq] at hd
    dsimp only
    rw [ht, hd, PinSlot.change_of_accepts hcr hnw.1 hnw.2]
    rfl
  · exact absurd hcr (hw cur (PinSlot.mem_currentHalves.mpr ⟨new, rfl, hl, hnw⟩))
  · exact absurd hcr.compares hc

/-- With saves that succeed and no collisions, a CHANGE of PW1 with the current PIN in front and a
  new one behind is answered `9000`; afterwards the new PIN is verified and nothing else, and all
  attempts are there. A body without the current PIN in front costs one attempt and leaves the
  PIN. -/
theorem pw1_change_splits (hsv : ∀ data st, (S.save data st).1 = true)
    (hpol : c.pw1.policy = pwPolicy) (hcur : c.pw1.Accepts K.sha256 cur) (hlen : PwLen cur)
    (hn : NoCollision K cur) (p1 : UInt8) (body : List UInt8) (le : Option Nat) (rng : Rng) :
    let r := c.process K S ⟨insChangeReferenceData, p1, 0x81, body, le⟩ rng
    (∀ new, PwLen new → NoCollision K new → body = cur ++ new →
      r.1 = .status .ok ∧ r.2.pw1.retriesRemaining = 3 ∧
      ∀ apdu rng, apdu.ins = insVerify → apdu.p2 = 0x81 →
        ((r.2.process K S apdu rng).1.sw = .ok ↔ apdu.data = new)) ∧
    (2 * pwPolicy.minLen ≤ body.length → body.length ≤ 2 * pwPolicy.maxLen →
      (∀ new, PwLen new → body ≠ cur ++ new) →
      r.1 = .status (.retriesLeft (c.pw1.retriesRemaining - 1)) ∧ r.2.pw1 = c.pw1.attempted) := by
  intro r
  have hsaved : ∀ (c₁ : OpenPgp σ) sw, c₁.persistAnswer S sw =
      (.status sw, (c₁.persistState S).2) := by
    intro c₁ sw
    rw [persistAnswer_eq, persistState_eq, saveState, hsv]
    rfl
  have hslot : ∀ c₁ : OpenPgp σ, (c₁.persistState S).2.pw1 = c₁.pw1 :=
    fun c₁ => persistState_slot c₁ .pw1
  constructor
  · rintro new hnew hnc rfl
    have hr : r = (.status .ok,
        ((c.setSlot .pw1 (c.pw1.installed K.sha256 new)).persistState S).2) := by
      have hmin := Nat.add_le_add hlen.1 hnew.1
      have hmax := Nat.add_le_add hlen.2 hnew.2
      rw [← hsaved]
      change verifyChange K S ⟨insChangeReferenceData, p1, 0x81, cur ++ new, le⟩ c = _
      unfold verifyChange
      dsimp only
      rw [if_neg nofun, if_neg nofun, if_neg (by rw [List.length_append]; omega),
        changePw1_split hpol hcur hlen hn hnew]
      rfl
    rw [hr]
    have hacc : (c.pw1.installed K.sha256 new).Accepts K.sha256 new :=
      ⟨rfl, (congrArg PinPolicy.maxAttempts hpol).trans_ne nofun⟩
    refine ⟨rfl, ?_, fun apdu rng hins hp2 => ?_⟩
    · rw [hslot]
      exact congrArg PinPolicy.maxAttempts hpol
    have href : Pw.fromReference apdu.p2 = some .pw1 := by rw [hp2]; rfl
    rw [verify_ok_iff hins href, persistState_slot]
    refine ⟨fun h => hnc.eq hacc h.2, fun h => ?_⟩
    rw [h]
    exact ⟨List.ne_nil_of_length_pos (Nat.lt_of_lt_of_le (by decide) hnew.1), hacc⟩
  · intro hmin hmax hnone
    have hp : presented ⟨insChangeReferenceData, p1, 0x81, body, le⟩ c =
        some (.pw1, c.pw1.currentHalves body) := by
      rw [presented_change rfl]
      exact (if_neg (by decide : (0x81 : UInt8) ≠ 0x83)).trans (if_pos ⟨.inl rfl, hmin, hmax⟩)
    have hr : r = _ := process_wrong hp (show c.pw1.Compares from hcur.compares) ?_
    · rw [hr, hsaved]
      exact ⟨rfl, hslot _⟩
    · rintro ⟨half, hh, ha⟩
      obtain ⟨new, hb, -, hnew⟩ := PinSlot.mem_currentHalves.mp hh
      rw [hpol] at hnew
      rw [hn.eq hcur ha] at hb
      exact hnone new hnew hb

end

/-- The factory PIN is changed, and a body with another PIN in front costs an attempt. -/
theorem pw1_change_splits_factory :
    (selected.process exampleCrypto memory
      ⟨insChangeReferenceData, 0, 0x81, factoryPw1 ++ otherPw1, none⟩ rngOne).1 = .status .ok ∧
    (selected.process exampleCrypto memory
      ⟨insChangeReferenceData, 0, 0x81, otherPw1 ++ factoryPw1, none⟩ rngOne).1 =
        .status (.retriesLeft 2) := by
  have hf : exampleCrypto.sha256 factoryPw1 = factoryPw1Hash ∧
      exampleCrypto.sha256 otherPw1 = otherPw1Hash := by decide +kernel
  have hn : ∀ pin ∈ [factoryPw1, otherPw1], NoCollision exampleCrypto pin := by
    intro pin hp other h
    rcases List.mem_pair.mp hp with rfl | rfl <;>
    · simp only [hf] at h
      simp only [exampleCrypto] at h
      split_ifs at h <;> first | assumption | exact absurd h nofun
  have h := pw1_change_splits (c := selected) (S := memory) (fun _ _ => rfl) rfl
    ⟨by decide +kernel, by decide +kernel⟩ ⟨by decide, by decide⟩ (hn factoryPw1 (by decide)) 0
  refine ⟨((h _ none rngOne).1 otherPw1 ⟨by decide, by decide⟩ (hn _ (by decide)) rfl).1,
    ((h _ none rngOne).2 (by decide) (by decide) fun new _ hb => ?_).1⟩
  exact absurd (List.cons.inj hb).1 (by decide)

end OpenPgp

end AegisToken.Applets
