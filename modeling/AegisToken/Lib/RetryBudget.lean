/-
  Retry counters that outlive failing saves.
  A slot has a live counter, the counter that its store would load, and a floor that caps what a
  load may bring back. A wrong guess costs an attempt, and a renewal gives all of them. The budget
  of a history is what was there at its start or at the last renewal, and what was spent is the
  number of wrong guesses since.
  `Within` relates the three counters to the history. One rule keeps it: a step lowers the live
  counter as its mark says, and leaves the smaller of stored counter and floor under it.
-/
import Mathlib.Data.List.Basic

namespace RetryBudget

/-- What an event is to a slot: a wrong guess that was compared, or a renewal. -/
inductive Mark where
  | wrong
  | renewed
deriving DecidableEq, Repr

/-- Wrong guesses since the last renewal; the newest mark comes first. -/
def spent : List (Option Mark) → Nat
  | [] => 0
  | some .renewed :: _ => 0
  | some .wrong :: marks => spent marks + 1
  | none :: marks => spent marks

/-- Attempts at the last renewal, or at the start. -/
def budget (full initial : Nat) : List (Option Mark) → Nat
  | [] => initial
  | some .renewed :: _ => full
  | some .wrong :: marks => budget full initial marks
  | none :: marks => budget full initial marks

structure Counters where
  live : Nat
  stored : Nat
  floor : Nat

/-- What a load brings back. -/
def Counters.reload (k : Counters) : Nat := min k.stored k.floor

/-- The live counter stays within what is left of the budget, and a load within the live counter. -/
structure Within (full initial : Nat) (marks : List (Option Mark)) (k : Counters) : Prop where
  spent_add_live : spent marks + k.live ≤ budget full initial marks
  reload_le : k.reload ≤ k.live
  live_le : k.live ≤ full
  floor_le : k.floor ≤ full

/-- What a step with a mark may do to the live counter. -/
def Lowers (full live live' : Nat) : Option Mark → Prop
  | none => live' ≤ live
  | some .wrong => live' < live
  | some .renewed => live' ≤ full

variable {full initial : Nat} {marks : List (Option Mark)} {k k' : Counters}

theorem Within.spent_le (h : Within full initial marks k) :
    spent marks ≤ budget full initial marks :=
  Nat.le_trans (Nat.le_add_right _ _) h.spent_add_live

variable {mark : Option Mark}

theorem Lowers.le_full {live live' : Nat} (h : Lowers full live live' mark)
    (hlv : live ≤ full) : live' ≤ full := by
  match mark with
  | none => exact Nat.le_trans h hlv
  | some .wrong => exact Nat.le_trans (Nat.le_of_lt h) hlv
  | some .renewed => exact h

theorem lowers_self {live : Nat} (h : mark ≠ some .wrong)
    (hlv : live ≤ full) : Lowers full live live mark := by
  match mark with
  | none => exact Nat.le_refl _
  | some .wrong => exact absurd rfl h
  | some .renewed => exact hlv

theorem Within.step (h : Within full initial marks k)
    (hlv : Lowers full k.live k'.live mark) (hr : k'.reload ≤ k'.live)
    (hfr : k'.floor ≤ full) : Within full initial (mark :: marks) k' := by
  have hsp := h.spent_add_live
  have hfl : k'.live ≤ full := hlv.le_full h.live_le
  refine ⟨?_, hr, hfl, hfr⟩
  match mark with
  | none =>
    have hle : k'.live ≤ k.live := hlv
    rw [spent, budget]
    omega
  | some .wrong =>
    have hlt : k'.live < k.live := hlv
    rw [spent, budget]
    omega
  | some .renewed =>
    rw [spent, Nat.zero_add]
    exact hfl

theorem Within.start (hlv : k.live ≤ initial) (hi : initial ≤ full)
    (hr : k.reload ≤ k.live) (hfl : k.floor ≤ full) : Within full initial [none] k :=
  ⟨by rw [spent, budget, spent, budget]; omega, hr, Nat.le_trans hlv hi, hfl⟩

/-- A load takes the stored counter under the floor. -/
theorem Within.load (h : Within full initial marks k) :
    Within full initial (none :: marks) { k with live := k.reload } :=
  h.step h.reload_le (Nat.le_refl _) h.floor_le

/-- A save that works makes the stored counter the live one, whatever the floor becomes. -/
theorem reload_le_of_saved (h : k.stored = k.live) : k.reload ≤ k.live :=
  h ▸ Nat.min_le_left _ _

/-- A floor under the live counter covers whatever a failed save left behind. -/
theorem reload_le_of_floor (h : k.floor ≤ k.live) : k.reload ≤ k.live :=
  Nat.le_trans (Nat.min_le_right _ _) h

end RetryBudget
