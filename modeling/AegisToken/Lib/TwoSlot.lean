/-
  The two-slot register: what a store that alternates between two numbered records is for.
  A write goes to the slot that does not hold the newest record, under the next number; numbers
  count modulo `w`. A write that is cut leaves its slot as it was, empty, or with the whole new
  record. The newest record is in the other slot and survives in all three cases.
  `Run.admissible`: over any sequence of whole and cut writes the register holds the value of the
  last whole write or of a later cut one, and nothing only while no write was whole.
  Values are of any type; `map` carries a register to the encoded form of its values.
-/
import Mathlib.Data.Fintype.Basic
import Mathlib.Tactic.FinCases

namespace TwoSlot

variable {α β : Type}

/-- Two slots, each empty or holding a value with its number. -/
abbrev Reg (α : Type) := Fin 2 → Option (Nat × α)

def Reg.empty : Reg α := fun _ => none

/-- The slot of the record with the greatest number; slot 0 on a tie. -/
def newest (r : Reg α) : Option (Fin 2) :=
  match r 0, r 1 with
  | none, none => none
  | some _, none => some 0
  | none, some _ => some 1
  | some a, some b => if a.1 < b.1 then some 1 else some 0

def load (r : Reg α) : Option (Nat × α) := (newest r).bind r

def target (r : Reg α) : Fin 2 :=
  match newest r with
  | some i => 1 - i
  | none => 0

def nextSeq (w : Nat) (r : Reg α) : Nat :=
  match load r with
  | some (s, _) => (s + 1) % w
  | none => 1

/-- The register once the target slot is erased. -/
def wipe (r : Reg α) : Reg α := Function.update r (target r) none

/-- The register after a whole write of `v`. -/
def put (w : Nat) (r : Reg α) (v : α) : Reg α :=
  Function.update r (target r) (some (nextSeq w r, v))

/-- What a cut write of `v` can leave. -/
inductive Torn (w : Nat) (r : Reg α) (v : α) : Reg α → Prop where
  | kept : Torn w r v r
  | wiped : Torn w r v (wipe r)
  | landed : Torn w r v (put w r v)

/-- `x` stands in one of the slots. -/
def Mem (r : Reg α) (x : α) : Prop := ∃ i s, r i = some (s, x)

/-- No number exceeds `n`. -/
def SeqLe (n : Nat) (r : Reg α) : Prop := ∀ i s x, r i = some (s, x) → s ≤ n

/-! ## The newest record -/

variable {r r' : Reg α} {x : α}

theorem newest_eq_none : newest r = none ↔ r 0 = none ∧ r 1 = none := by
  unfold newest
  cases h0 : r 0 <;> cases h1 : r 1 <;> simp
  split <;> simp

variable {i : Fin 2}

theorem load_of_newest (h : newest r = some i) :
    ∃ x, r i = some x ∧ load r = some x := by
  have hx : ∃ x, r i = some x := by
    unfold newest at h
    cases h0 : r 0 <;> cases h1 : r 1 <;> simp only [h0, h1] at h
    · cases h
    · cases h; exact ⟨_, h1⟩
    · cases h; exact ⟨_, h0⟩
    · split at h
      · cases h; exact ⟨_, h1⟩
      · cases h; exact ⟨_, h0⟩
  obtain ⟨x, hx⟩ := hx
  exact ⟨x, hx, by rw [load, h]; exact hx⟩

theorem newest_of_load {x : Nat × α} (h : load r = some x) :
    ∃ i, newest r = some i ∧ r i = some x := by
  unfold load at h
  cases hn : newest r with
  | none => rw [hn] at h; cases h
  | some i => rw [hn] at h; exact ⟨i, rfl, h⟩

theorem load_eq_none : load r = none ↔ ∀ i, r i = none := by
  constructor
  · intro h i
    cases hn : newest r with
    | none =>
      obtain ⟨h0, h1⟩ := newest_eq_none.mp hn
      fin_cases i
      · exact h0
      · exact h1
    | some j =>
      obtain ⟨x, _, hl⟩ := load_of_newest hn
      rw [h] at hl
      cases hl
  · intro h
    rw [load, newest_eq_none.mpr ⟨h 0, h 1⟩]
    rfl

@[simp] theorem load_empty : load (Reg.empty : Reg α) = none := load_eq_none.mpr fun _ => rfl

/-- A record is loaded unless the other one has a greater number, or the same in slot 0. -/
theorem load_eq_iff {i j : Fin 2} (hij : i ≠ j) {b : Nat} (hj : r j = some (b, x)) :
    load r = some (b, x) ↔ ∀ a y, r i = some (a, y) → a < b ∨ (a = b ∧ (i = 1 ∨ y = x)) := by
  rcases hi : r i with _ | ⟨a, y⟩
  · have hn : newest r = some j := by
      unfold newest
      fin_cases i <;> fin_cases j
      · exact absurd rfl hij
      · rw [show r 0 = none from hi, show r 1 = _ from hj]
        rfl
      · rw [show r 1 = none from hi, show r 0 = _ from hj]
        rfl
      · exact absurd rfl hij
    rw [load, hn]
    exact ⟨fun _ a y h => (by cases h), fun _ => hj⟩
  · have hld : load r = if a < b ∨ (a = b ∧ i = 1) then some (b, x) else some (a, y) := by
      unfold load newest
      fin_cases i <;> fin_cases j
      · exact absurd rfl hij
      · rw [show r 0 = _ from hi, show r 1 = _ from hj]
        by_cases hlt : a < b
        · simp [hlt, show r 1 = _ from hj]
        · simp [hlt, show r 0 = _ from hi]
      · rw [show r 1 = _ from hi, show r 0 = _ from hj]
        by_cases hlt : b < a
        · simp [hlt, show r 1 = _ from hi, show ¬(a < b ∨ a = b) by omega]
        · simp [hlt, show r 0 = _ from hj, show a < b ∨ a = b by omega]
      · exact absurd rfl hij
    rw [hld]
    constructor
    · intro h a' y' hsm
      cases hsm
      split at h
      · rename_i hwn
        exact hwn.imp_right fun ⟨heq, hi⟩ => ⟨heq, .inl hi⟩
      · cases h
        exact .inr ⟨rfl, .inr rfl⟩
    · intro h
      split
      · rfl
      rename_i hls
      rcases h a y rfl with hlt | ⟨rfl, hi | rfl⟩
      · exact absurd (.inl hlt) hls
      · exact absurd (.inr ⟨rfl, hi⟩) hls
      · rfl

theorem target_of_newest (h : newest r = some i) : target r = 1 - i := by
  rw [target, h]

theorem target_ne_newest (h : newest r = some i) : i ≠ target r := by
  rw [target_of_newest h]
  fin_cases i <;> decide

variable {s : Nat}

theorem mem_of_load (h : load r = some (s, x)) : Mem r x := by
  obtain ⟨i, _, hi⟩ := newest_of_load h
  exact ⟨i, s, hi⟩

/-- The newest record has the greatest number. -/
theorem seq_le_of_load (h : load r = some (s, x)) : SeqLe s r := by
  intro i t y hi
  unfold load newest at h
  cases h0 : r 0 <;> cases h1 : r 1 <;> simp only [h0, h1] at h <;> fin_cases i <;> simp_all
  all_goals first
    | omega
    | (split at h <;> simp_all <;> omega)

/-! ## Writing -/

@[simp] theorem wipe_target (r : Reg α) : wipe r (target r) = none := by
  simp [wipe]

@[simp] theorem put_target (w : Nat) (r : Reg α) (v : α) :
    put w r v (target r) = some (nextSeq w r, v) := by
  simp [put]

theorem wipe_of_ne (h : i ≠ target r) : wipe r i = r i := by
  simp [wipe, h]

variable {v : α}

theorem put_of_ne {w : Nat} (h : i ≠ target r) :
    put w r v i = r i := by
  simp [put, h]

private theorem newest_of_single {x : Nat × α} (hi : r i = some x) (ho : r (1 - i) = none) :
    newest r = some i := by
  unfold newest
  fin_cases i
  · have ho' : r 1 = none := ho
    have hi' : r 0 = some x := hi
    rw [hi', ho']
    rfl
  have ho' : r 0 = none := ho
  have hi' : r 1 = some x := hi
  rw [hi', ho']
  rfl

theorem load_wipe (r : Reg α) : load (wipe r) = load r := by
  cases hn : newest r with
  | none =>
    obtain ⟨h0, h1⟩ := newest_eq_none.mp hn
    have hw : wipe r = r := by
      rw [wipe, target, hn]
      funext i
      fin_cases i <;> simp [h0, h1]
    rw [hw]
  | some i =>
    obtain ⟨x, hi, hl⟩ := load_of_newest hn
    have hwi : wipe r i = some x := by rw [wipe_of_ne (target_ne_newest hn), hi]
    have hwo : wipe r (1 - i) = none := by rw [← target_of_newest hn, wipe_target]
    rw [hl, load, newest_of_single hwi hwo]
    exact hwi

variable {w n : Nat}

/-- The number of the next write exceeds every number in the register, short of wrapping. -/
theorem seq_lt_nextSeq (hr : SeqLe n r) (hn : n + 1 < w) :
    ∀ i s x, r i = some (s, x) → s < nextSeq w r := by
  intro i s x hi
  cases hl : load r with
  | none => rw [load_eq_none.mp hl i] at hi; cases hi
  | some y =>
    obtain ⟨t, y⟩ := y
    obtain ⟨j, _, hj⟩ := newest_of_load hl
    have h1 : s ≤ t := seq_le_of_load hl i s x hi
    have h2 : t ≤ n := hr j t y hj
    simp only [nextSeq, hl]
    rw [Nat.mod_eq_of_lt (by omega)]
    omega

theorem nextSeq_le (hr : SeqLe n r) (hn : n + 1 < w) :
    nextSeq w r ≤ n + 1 := by
  unfold nextSeq
  cases hl : load r with
  | none => simp
  | some y =>
    obtain ⟨t, y⟩ := y
    obtain ⟨j, _, hj⟩ := newest_of_load hl
    have h2 : t ≤ n := hr j t y hj
    simp only
    rw [Nat.mod_eq_of_lt (by omega)]
    omega

theorem load_put (v : α) (hr : SeqLe n r) (hn : n + 1 < w) :
    load (put w r v) = some (nextSeq w r, v) := by
  have hlt := seq_lt_nextSeq hr hn
  have ht : put w r v (target r) = some (nextSeq w r, v) := put_target w r v
  have ho : put w r v (1 - target r) = r (1 - target r) :=
    put_of_ne (by generalize target r = t; fin_cases t <;> decide)
  have hw : newest (put w r v) = some (target r) := by
    cases hx : r (1 - target r) with
    | none => exact newest_of_single ht (by rw [ho, hx])
    | some x =>
      have hs := hlt _ x.1 x.2 hx
      rw [hx] at ho
      generalize target r = t at ht ho
      unfold newest
      fin_cases t
      · have h0 : put w r v 0 = some (nextSeq w r, v) := ht
        have h1 : put w r v 1 = some x := ho
        rw [h0, h1]
        exact if_neg (by omega)
      have h1 : put w r v 1 = some (nextSeq w r, v) := ht
      have h0 : put w r v 0 = some x := ho
      rw [h0, h1]
      exact if_pos (by simpa using hs)
  rw [load, hw]
  exact ht

/-- A write under a number below the newest one does not become the newest. -/
theorem load_put_of_lt (v : α) (h : load r = some (s, x)) (hlt : nextSeq w r < s) :
    load (put w r v) = some (s, x) := by
  obtain ⟨i, hi, hx⟩ := newest_of_load h
  have hoh : put w r v i = some (s, x) := by rw [put_of_ne (target_ne_newest hi), hx]
  have ht : put w r v (1 - i) = some (nextSeq w r, v) := by
    rw [← target_of_newest hi, put_target]
  have hn : newest (put w r v) = some i := by
    unfold newest
    fin_cases i
    · rw [show put w r v 0 = _ from hoh, show put w r v 1 = _ from ht]
      exact if_neg (by omega)
    · rw [show put w r v 1 = _ from hoh, show put w r v 0 = _ from ht]
      exact if_pos hlt
  rw [load, hn]
  exact hoh

theorem SeqLe.mono {m n : Nat} (h : SeqLe m r) (hmn : m ≤ n) : SeqLe n r :=
  fun i s x hi => Nat.le_trans (h i s x hi) hmn

theorem SeqLe.wipe (h : SeqLe n r) : SeqLe n (wipe r) := by
  intro i s x hi
  by_cases hit : i = target r
  · subst hit; rw [wipe_target] at hi; cases hi
  · rw [wipe_of_ne hit] at hi; exact h i s x hi

theorem SeqLe.put (v : α) (h : SeqLe n r) (hn : n + 1 < w) :
    SeqLe (n + 1) (put w r v) := by
  intro i s x hi
  by_cases hit : i = target r
  · subst hit
    rw [put_target] at hi
    cases hi
    exact nextSeq_le h hn
  · rw [put_of_ne hit] at hi
    exact Nat.le_succ_of_le (h i s x hi)

theorem Torn.seqLe (t : Torn w r v r') (h : SeqLe n r) (hn : n + 1 < w) :
    SeqLe (n + 1) r' := by
  cases t with
  | kept => exact h.mono (Nat.le_succ n)
  | wiped => exact h.wipe.mono (Nat.le_succ n)
  | landed => exact h.put v hn

/-- A cut write leaves the newest record or lands the new one. -/
theorem Torn.load (t : Torn w r v r') (h : SeqLe n r) (hn : n + 1 < w) :
    load r' = load r ∨ load r' = some (nextSeq w r, v) := by
  cases t with
  | kept => exact .inl rfl
  | wiped => exact .inl (load_wipe r)
  | landed => exact .inr (load_put v h hn)

/-! ## What the slots hold -/

theorem not_mem_empty (x : α) : ¬ Mem (Reg.empty : Reg α) x := by
  rintro ⟨i, s, hi⟩
  cases hi

theorem mem_put_self (w : Nat) (r : Reg α) (v : α) : Mem (put w r v) v :=
  ⟨target r, nextSeq w r, put_target w r v⟩

theorem Torn.mem (t : Torn w r v r') (h : Mem r' x) :
    x = v ∨ Mem r x := by
  obtain ⟨i, s, hi⟩ := h
  cases t with
  | kept => exact .inr ⟨i, s, hi⟩
  | wiped =>
    by_cases hit : i = target r
    · subst hit; rw [wipe_target] at hi; cases hi
    · rw [wipe_of_ne hit] at hi; exact .inr ⟨i, s, hi⟩
  | landed =>
    by_cases hit : i = target r
    · subst hit; rw [put_target] at hi; cases hi; exact .inl rfl
    · rw [put_of_ne hit] at hi; exact .inr ⟨i, s, hi⟩

/-- A cut write adds nothing and keeps the newest record, or it is a whole one. -/
theorem Torn.kept_or_landed (t : Torn w r v r') :
    (TwoSlot.load r' = TwoSlot.load r ∧ ∀ x, Mem r' x → Mem r x) ∨ r' = put w r v := by
  cases t with
  | kept => exact .inl ⟨rfl, fun _ h => h⟩
  | wiped =>
    refine .inl ⟨load_wipe r, ?_⟩
    rintro x ⟨i, s, hi⟩
    by_cases hit : i = target r
    · subst hit; rw [wipe_target] at hi; cases hi
    · rw [wipe_of_ne hit] at hi; exact ⟨i, s, hi⟩
  | landed => exact .inr rfl

/-- The newest record survives a cut write. -/
theorem Torn.mem_of_load (t : Torn w r v r') (h : TwoSlot.load r = some (s, x)) : Mem r' x := by
  obtain ⟨i, hn, hi⟩ := newest_of_load h
  have hne := target_ne_newest hn
  cases t with
  | kept => exact ⟨i, s, hi⟩
  | wiped => exact ⟨i, s, by rw [wipe_of_ne hne, hi]⟩
  | landed => exact ⟨i, s, by rw [put_of_ne hne, hi]⟩

/-- The highest level in the register is `m`; an empty register has level 0. -/
structure Top (level : α → Nat) (r : Reg α) (m : Nat) : Prop where
  le : ∀ x, Mem r x → level x ≤ m
  mem : m = 0 ∨ ∃ x, Mem r x ∧ level x = m

theorem Top.empty (level : α → Nat) : Top level (Reg.empty : Reg α) 0 where
  le x hx := absurd hx (not_mem_empty x)
  mem := .inl rfl

variable {level : α → Nat}

/-- A whole write at a higher level raises the highest level to it. -/
theorem Top.put {m : Nat} (h : Top level r m) (w : Nat) (hv : m ≤ level v) :
    Top level (TwoSlot.put w r v) (level v) where
  le := by
    intro x hx
    rcases (Torn.landed : Torn w r v (TwoSlot.put w r v)).mem hx with rfl | hx
    · exact Nat.le_refl _
    · exact Nat.le_trans (h.le x hx) hv
  mem := .inr ⟨v, mem_put_self w r v, rfl⟩

/-- The newest record has a level above every other record's, at least its own number and at most
  `bound`: picking the highest level picks the newest record. -/
def Leads (level : α → Nat) (r : Reg α) (bound : Nat) : Prop :=
  ∀ s x, load r = some (s, x) →
    s ≤ level x ∧ level x ≤ bound ∧ ∀ y, Mem r y → y = x ∨ level y < level x

theorem Leads.empty (level : α → Nat) (bound : Nat) : Leads level (Reg.empty : Reg α) bound := by
  intro s x h
  cases h

theorem Leads.mono {m n : Nat} (h : Leads level r m) (hmn : m ≤ n) :
    Leads level r n := by
  intro s x hl
  obtain ⟨hs, hm, hy⟩ := h s x hl
  exact ⟨hs, Nat.le_trans hm hmn, hy⟩

theorem Leads.seqLe (h : Leads level r n) :
    SeqLe n r := by
  cases hl : TwoSlot.load r with
  | none =>
    intro i s x hi
    rw [load_eq_none.mp hl i] at hi
    cases hi
  | some y =>
    obtain ⟨hs, hn, -⟩ := h y.1 y.2 hl
    exact (seq_le_of_load hl).mono (Nat.le_trans hs hn)

theorem Leads.level_le (h : Leads level r n) {y : α} (hy : Mem r y) :
    level y ≤ n := by
  cases hl : TwoSlot.load r with
  | none =>
    obtain ⟨i, s, hi⟩ := hy
    rw [load_eq_none.mp hl i] at hi
    cases hi
  | some x =>
    obtain ⟨-, hn, hlt⟩ := h x.1 x.2 hl
    rcases hlt y hy with rfl | hlt
    · exact hn
    · omega

theorem Leads.put (h : Leads level r n) (hv : n < level v) (hw : n + 1 < w) :
    Leads level (TwoSlot.put w r v) (level v) := by
  intro s x hl
  rw [load_put v h.seqLe hw] at hl
  obtain ⟨rfl, rfl⟩ := Prod.mk.inj (Option.some.inj hl)
  refine ⟨Nat.le_trans (nextSeq_le h.seqLe hw) hv, Nat.le_refl _, ?_⟩
  intro y hy
  rcases (Torn.landed : Torn w r v (TwoSlot.put w r v)).mem hy with rfl | hy
  · exact .inl rfl
  · exact .inr (Nat.lt_of_le_of_lt (h.level_le hy) hv)

theorem Leads.torn (h : Leads level r n) (hv : n < level v) (hw : n + 1 < w) (t : Torn w r v r') :
    Leads level r' (level v) := by
  rcases t.kept_or_landed with ⟨hld, hm⟩ | rfl
  · intro s x hl
    obtain ⟨hs, hn, hlt⟩ := h s x (hld ▸ hl)
    exact ⟨hs, by omega, fun y hy => hlt y (hm y hy)⟩
  · exact h.put hv hw

/-! ## Counted writes -/

/-- The newest number after `n` whole writes: they are numbered from 1 on, and the last number
  below `w` stays the newest for good. -/
def Counted (w n : Nat) (r : Reg α) : Prop :=
  (load r).map Prod.fst = if n = 0 then none else some (min n (w - 1))

theorem Counted.empty (w : Nat) : Counted w 0 (Reg.empty : Reg α) := by
  rfl

theorem Counted.seqLe (h : Counted w n r) : SeqLe n r := by
  unfold Counted at h
  rcases hl : TwoSlot.load r with _ | ⟨s, x⟩
  · intro i t y hi
    rw [load_eq_none.mp hl i] at hi
    cases hi
  rw [hl] at h
  split at h
  · cases h
  · have hs : s = min n (w - 1) := Option.some.inj h
    exact (seq_le_of_load hl).mono (by omega)

/-- As long as numbers last, what was written is read. -/
theorem Counted.load_put (h : Counted w n r) (v : α) (hn : n + 1 < w) :
    (TwoSlot.load (TwoSlot.put w r v)).map Prod.snd = some v := by
  rw [TwoSlot.load_put v h.seqLe hn]
  rfl

/-- After the last number nothing new is read. -/
theorem Counted.load_put_stuck (h : Counted w n r) (v : α) (hw : 2 ≤ w) (hn : w ≤ n + 1) :
    TwoSlot.load (TwoSlot.put w r v) = TwoSlot.load r := by
  unfold Counted at h
  rw [if_neg (by omega)] at h
  rcases hl : TwoSlot.load r with _ | ⟨s, x⟩
  · rw [hl] at h
    cases h
  rw [hl] at h
  have hs : s = w - 1 := by
    have := Option.some.inj h
    omega
  have hnx : nextSeq w r < s := by
    rw [nextSeq, hl]
    show (s + 1) % w < s
    rw [hs, Nat.sub_add_cancel (by omega), Nat.mod_self]
    omega
  exact load_put_of_lt v hl hnx

theorem Counted.put (h : Counted w n r) (v : α) (hw : 2 ≤ w) :
    Counted w (n + 1) (TwoSlot.put w r v) := by
  by_cases hn : n + 1 < w
  · rw [Counted, TwoSlot.load_put v h.seqLe hn, if_neg (Nat.succ_ne_zero n), Option.map_some,
      Nat.min_eq_left (by omega)]
    unfold Counted at h
    rw [nextSeq]
    rcases hl : TwoSlot.load r with _ | ⟨s, x⟩
    · rw [hl] at h
      split at h
      · next hzr => rw [hzr]
      · cases h
    rw [hl] at h
    split at h
    · cases h
    · have hs : s = min n (w - 1) := Option.some.inj h
      show some ((s + 1) % w) = some (n + 1)
      rw [hs, Nat.min_eq_left (by omega), Nat.mod_eq_of_lt hn]
  · rw [Counted, h.load_put_stuck v hw (by omega), if_neg (Nat.succ_ne_zero n)]
    rw [h, if_neg (by omega), Nat.min_eq_right (by omega), Nat.min_eq_right (by omega)]

/-! ## Encoded values -/

/-- The register with every value encoded. -/
def map (g : α → β) (r : Reg α) : Reg β := fun i => (r i).map (Prod.map id g)

theorem newest_map (g : α → β) (r : Reg α) : newest (map g r) = newest r := by
  unfold newest map
  cases r 0 <;> cases r 1 <;> rfl

theorem load_map (g : α → β) (r : Reg α) : load (map g r) = (load r).map (Prod.map id g) := by
  unfold load
  rw [newest_map]
  cases newest r with
  | none => rfl
  | some i => rfl

theorem target_map (g : α → β) (r : Reg α) : target (map g r) = target r := by
  rw [target, newest_map, target]

theorem nextSeq_map (w : Nat) (g : α → β) (r : Reg α) : nextSeq w (map g r) = nextSeq w r := by
  rw [nextSeq, load_map, nextSeq]
  cases load r with
  | none => rfl
  | some x => rfl

theorem put_map (w : Nat) (g : α → β) (r : Reg α) (v : α) :
    put w (map g r) (g v) = map g (put w r v) := by
  funext i
  by_cases hi : i = target r
  · subst hi
    simp [put, map, target_map, nextSeq_map]
  · simp [put, map, target_map, hi]

theorem wipe_map (g : α → β) (r : Reg α) : wipe (map g r) = map g (wipe r) := by
  funext i
  by_cases hi : i = target r
  · subst hi
    simp [wipe, map, target_map]
  · simp [wipe, map, target_map, hi]

/-- A cut write of an encoded value is one of the value. -/
theorem Torn.of_map {g : α → β} {r' : Reg β} (t : Torn w (map g r) (g v) r') :
    ∃ q, r' = map g q ∧ Torn w r v q := by
  cases t with
  | kept => exact ⟨r, rfl, .kept⟩
  | wiped => exact ⟨wipe r, wipe_map g r, .wiped⟩
  | landed => exact ⟨put w r v, put_map w g r v, .landed⟩

/-! ## Runs -/

/-- One write of a history. -/
inductive Write (α : Type) where
  | done (v : α)
  | torn (v : α)

def Write.value : Write α → α
  | .done v => v
  | .torn v => v

def Write.isDone : Write α → Bool
  | .done _ => true
  | .torn _ => false

/-- The registers a history of writes can lead to from the empty one. -/
inductive Run (w : Nat) : List (Write α) → Reg α → Prop where
  | nil : Run w [] Reg.empty
  | done {es : List (Write α)} {r : Reg α} (v : α) : Run w es r → Run w (es ++ [.done v]) (put w r v)
  | torn {es : List (Write α)} {r r' : Reg α} (v : α) :
      Run w es r → Torn w r v r' → Run w (es ++ [.torn v]) r'

/-- What may be read after a history: the value of the last whole write or of a cut write after
  it, and nothing only when no write was whole. -/
def Admissible (es : List (Write α)) : Option α → Prop
  | none => ∀ e ∈ es, e.isDone = false
  | some v => ∃ pre e post, es = pre ++ e :: post ∧ e.value = v ∧ ∀ x ∈ post, x.isDone = false

theorem admissible_last (es : List (Write α)) (e : Write α) :
    Admissible (es ++ [e]) (some e.value) :=
  ⟨es, e, [], rfl, rfl, by simp⟩

variable {es : List (Write α)}

/-- What may be read before a cut write may be read after it. -/
theorem Admissible.append_torn {o : Option α} (h : Admissible es o) {e : Write α}
    (he : e.isDone = false) : Admissible (es ++ [e]) o := by
  have htl : ∀ {xs : List (Write α)}, (∀ x ∈ xs, x.isDone = false) →
      ∀ x ∈ xs ++ [e], x.isDone = false := by
    intro xs hxs x hx
    rcases List.mem_append.mp hx with hx | hx
    · exact hxs x hx
    · rw [List.mem_singleton.mp hx, he]
  rcases o with _ | u
  · exact htl h
  · obtain ⟨pre, d, post, rfl, hv, hps⟩ := h
    exact ⟨pre, d, post ++ [e], by simp, hv, htl hps⟩

theorem Run.seqLe (h : Run w es r) (hl : es.length < w) :
    SeqLe es.length r := by
  induction h with
  | nil => intro i s x hi; cases hi
  | done v _ ih =>
    simp only [List.length_append, List.length_singleton] at hl ⊢
    exact (ih (by omega)).put v (by omega)
  | torn v _ t ih =>
    simp only [List.length_append, List.length_singleton] at hl ⊢
    exact t.seqLe (ih (by omega)) (by omega)

/-- Whatever writes were cut, the register holds an admissible value. -/
theorem Run.admissible (h : Run w es r) (hn : es.length < w) :
    Admissible es ((load r).map Prod.snd) := by
  induction h with
  | nil =>
    intro e he
    cases he
  | @done es r v hr ih =>
    rw [List.length_append] at hn
    rw [load_put v (hr.seqLe (by omega)) (by omega)]
    exact admissible_last es (.done v)
  | @torn es r r' v hr t ih =>
    rw [List.length_append] at hn
    rcases t.load (hr.seqLe (by omega)) (by omega) with hl | hl
    · rw [hl]
      exact (ih (by omega)).append_torn rfl
    · rw [hl]
      exact admissible_last es (.torn v)

end TwoSlot
