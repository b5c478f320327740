import AegisToken.Lib.TwoSlot

/-
  A value kept in parts over several two-slot registers, with a commit record written last.
  Register `j < S` holds part `j` and register `S` the commit record; every record carries the
  generation of the save it belongs to. A save writes the registers in order under a generation
  above all others, and can be cut within any of them (`SavedTo`).
  `Inv` is what the registers satisfy along a run. Its `complete` field is the point: every part
  of the newest committed generation is still there. It survives a cut save that starts settled,
  that is, with the newest part 0 belonging to the newest commit record (`Inv.save`). From another
  state a cut save overwrites part 0 of the committed generation.
-/

namespace Sharded
open TwoSlot

variable {β σ : Type}

/-- The registers of a value in parts: part `j` for `j < S`, the commit record for `S`. -/
abbrev Bank (β : Type) := Nat → Reg (Nat × β)

/-- The generation of a register's newest record; 0 when it is empty. -/
def topGen (r : Reg (Nat × β)) : Nat :=
  match load r with
  | some (_, g, _) => g
  | none => 0

/-- A save of `part` under generation `g` that got as far as register `k`: earlier registers are
  written, this one is cut, later ones are as they were. A whole save has `k = S + 1`. -/
structure SavedTo (w S g : Nat) (part : Nat → β) (k : Nat) (R R' : Bank β) : Prop where
  before : ∀ j, j < k → R' j = put w (R j) (g, part j)
  within : k ≤ S → Torn w (R k) (g, part k) (R' k)
  beyond : ∀ j, k < j → j ≤ S → R' j = R j

/-- No commit record, or the newest part 0 belongs to the newest commit record. -/
def Settled (S : Nat) (R : Bank β) : Prop := load (R S) = none ∨ topGen (R 0) = topGen (R S)

/-- What a run of saves keeps: `n` bounds numbers and generations, `valueOf` is the value saved
  under each generation, `hist` the saves so far. -/
structure Inv (S n : Nat) (part : σ → Nat → β) (valueOf : Nat → σ) (hist : List (Write σ))
    (R : Bank β) : Prop where
  seqLe : ∀ j ≤ S, SeqLe n (R j)
  genRange : ∀ j ≤ S, ∀ g x, Mem (R j) (g, x) → 1 ≤ g ∧ g ≤ n
  parts : ∀ j ≤ S, ∀ g x, Mem (R j) (g, x) → x = part (valueOf g) j
  sorted : ∀ j ≤ S, ∀ g x, Mem (R j) (g, x) → g ≤ topGen (R j)
  falling : ∀ j < S, topGen (R (j + 1)) ≤ topGen (R j)
  complete : ∀ j < S, ∀ s c x, load (R S) = some (s, c, x) → ∃ y, Mem (R j) (c, y)
  admissible : Admissible hist ((load (R S)).map fun x => valueOf x.2.1)

theorem topGen_of_load {r : Reg (Nat × β)} {s g : Nat} {x : β} (h : load r = some (s, g, x)) :
    topGen r = g := by
  simp only [topGen, h]

theorem topGen_congr {r r' : Reg (Nat × β)} (h : load r' = load r) : topGen r' = topGen r := by
  simp only [topGen, h]

theorem topGen_put {w n g : Nat} {r : Reg (Nat × β)} {x : β} (hr : SeqLe n r) (hn : n + 1 < w) :
    topGen (put w r (g, x)) = g :=
  topGen_of_load (load_put (g, x) hr hn)

/-! ## One save -/

section Save
variable {w S n g k : Nat} {part : σ → Nat → β} {valueOf : Nat → σ} {hist : List (Write σ)}
  {R R' : Bank β} {v : σ}

/-- Whatever the save got to, each register went through a cut write. -/
theorem SavedTo.torn {part : Nat → β} (h : SavedTo w S g part k R R') {j : Nat} (hj : j ≤ S) :
    Torn w (R j) (g, part j) (R' j) := by
  rcases Nat.lt_trichotomy j k with hlt | rfl | hgt
  · rw [h.before j hlt]
    exact .landed
  · exact h.within hj
  · rw [h.beyond j hgt hj]
    exact .kept

/-- A register's newest generation after a save: as it was, or the save's own. -/
theorem SavedTo.topGen_cases {part : Nat → β} (h : SavedTo w S g part k R R') {j : Nat}
    (hj : j ≤ S) (hr : SeqLe n (R j)) (hn : n + 1 < w) :
    topGen (R' j) = topGen (R j) ∨ topGen (R' j) = g := by
  rcases (h.torn hj).kept_or_landed with ⟨hl, _⟩ | hl
  · exact .inl (topGen_congr hl)
  · rw [hl]
    exact .inr (topGen_put hr hn)

/-- The commit record after a save: the old one if the save did not get past it, or the save's. -/
theorem SavedTo.commit_cases {part : Nat → β} (h : SavedTo w S g part k R R')
    (hr : SeqLe n (R S)) (hn : n + 1 < w) :
    (k ≤ S ∧ load (R' S) = load (R S)) ∨
      (S ≤ k ∧ load (R' S) = some (nextSeq w (R S), g, part S)) := by
  rcases Nat.lt_trichotomy S k with hlt | rfl | hgt
  · rw [h.before S hlt]
    exact .inr ⟨Nat.le_of_lt hlt, load_put _ hr hn⟩
  · rcases (h.within (Nat.le_refl S)).load hr hn with hl | hl
    · exact .inl ⟨Nat.le_refl S, hl⟩
    · exact .inr ⟨Nat.le_refl S, hl⟩
  · rw [h.beyond S hgt (Nat.le_refl S)]
    exact .inl ⟨Nat.le_of_lt hgt, rfl⟩

/-- In a settled bank every register's newest record belongs to the newest commit record. -/
theorem Inv.load_of_settled (hi : Inv S n part valueOf hist R)
    (hs : Settled S R) {s c : Nat} {x : β} (hc : load (R S) = some (s, c, x)) {j : Nat}
    (hj : j ≤ S) : ∃ t y, load (R j) = some (t, c, y) := by
  have hS : topGen (R S) = c := topGen_of_load hc
  have h0 : topGen (R 0) = c := by
    rcases hs with hno | heq
    · rw [hc] at hno
      cases hno
    · rw [heq, hS]
  have hp : 1 ≤ c := (hi.genRange S (Nat.le_refl S) c x (mem_of_load hc)).1
  -- the newest generations fall from part 0 to the commit record, and both ends are `c`
  have hle : ∀ m, m ≤ S → topGen (R m) ≤ c := by
    intro m
    induction m with
    | zero => intro _; omega
    | succ m ih => intro hm; exact Nat.le_trans (hi.falling m (by omega)) (ih (by omega))
  have hge : ∀ d, d ≤ S → c ≤ topGen (R (S - d)) := by
    intro d
    induction d with
    | zero => intro _; rw [Nat.sub_zero, hS]
    | succ d ih =>
      intro hd
      have hf := hi.falling (S - (d + 1)) (by omega)
      rw [show S - (d + 1) + 1 = S - d by omega] at hf
      exact Nat.le_trans (ih (by omega)) hf
  have hj' : topGen (R j) = c := by
    have h1 := hle j hj
    have h2 := hge (S - j) (by omega)
    rw [show S - (S - j) = j by omega] at h2
    omega
  rcases hl : load (R j) with _ | ⟨t, g', y⟩
  · rw [topGen, hl] at hj'
    dsimp only at hj'
    omega
  · rw [topGen_of_load hl] at hj'
    exact ⟨t, y, by rw [hj']⟩

/-- The step: a save under a new generation keeps the invariant, if it is whole or starts
  settled. -/
theorem Inv.save (hi : Inv S n part valueOf hist R) (hn : n + 1 < w)
    (hfr : ∀ j ≤ S, topGen (R j) < g) (hg : g ≤ n + 1) (hs : SavedTo w S g (part v) k R R')
    (ht : k ≤ S → Settled S R) {e : Write σ} (hv : e.value = v)
    (he : k ≤ S → e.isDone = false) :
    Inv S (n + 1) part (Function.update valueOf g v) (hist ++ [e]) R' := by
  have hold : ∀ j ≤ S, ∀ g' x, Mem (R j) (g', x) → g' < g := fun j hj g' x hm =>
    Nat.lt_of_le_of_lt (hi.sorted j hj g' x hm) (hfr j hj)
  have hp : ∀ j ≤ S, topGen (R' j) ≤ g := by
    intro j hj
    rcases hs.topGen_cases hj (hi.seqLe j hj) hn with h | h
    · have := hfr j hj
      omega
    · omega
  refine ⟨fun j hj => (hs.torn hj).seqLe (hi.seqLe j hj) hn, ?_, ?_, ?_, ?_, ?_, ?_⟩
  · intro j hj g' x hm
    rcases (hs.torn hj).mem hm with heq | hm
    · cases heq
      have := hfr j hj
      omega
    · have := hi.genRange j hj g' x hm
      omega
  · intro j hj g' x hm
    rcases (hs.torn hj).mem hm with heq | hm
    · cases heq
      rw [Function.update_self]
    · rw [Function.update_of_ne (Nat.ne_of_lt (hold j hj g' x hm))]
      exact hi.parts j hj g' x hm
  · intro j hj g' x hm
    rcases (hs.torn hj).kept_or_landed with ⟨hl, hb⟩ | hl
    · rw [topGen_congr hl]
      exact hi.sorted j hj g' x (hb _ hm)
    rcases (hs.torn hj).mem hm with heq | hm
    · cases heq
      rw [hl, topGen_put (hi.seqLe j hj) hn]
    · rw [hl, topGen_put (hi.seqLe j hj) hn]
      exact Nat.le_of_lt (hold j hj g' x hm)
  · intro j hj
    by_cases hjk : j < k
    · rw [hs.before j hjk, topGen_put (hi.seqLe j (by omega)) hn]
      exact hp (j + 1) (by omega)
    rw [hs.beyond (j + 1) (by omega) (by omega)]
    have hf := hi.falling j hj
    have hlt := hfr j (by omega)
    rcases hs.topGen_cases (Nat.le_of_lt hj) (hi.seqLe j (by omega)) hn with h | h <;> omega
  · intro j hj s c x hc
    rcases hs.commit_cases (hi.seqLe S (Nat.le_refl S)) hn with ⟨hk, hl⟩ | ⟨hk, hl⟩
    · rw [hl] at hc
      obtain ⟨t, y, hld⟩ := hi.load_of_settled (ht hk) hc (Nat.le_of_lt hj)
      exact ⟨y, (hs.torn (Nat.le_of_lt hj)).mem_of_load hld⟩
    · rw [hl] at hc
      cases hc
      exact ⟨part v j, by rw [hs.before j (by omega)]; exact mem_put_self w (R j) _⟩
  · rcases hs.commit_cases (hi.seqLe S (Nat.le_refl S)) hn with ⟨hk, hl⟩ | ⟨hk, hl⟩
    · have hsm : ((load (R' S)).map fun x => Function.update valueOf g v x.2.1) =
          (load (R S)).map fun x => valueOf x.2.1 := by
        rw [hl]
        rcases hc : load (R S) with _ | ⟨s, c, x⟩
        · rfl
        · have hlt := hold S (Nat.le_refl S) c x (mem_of_load hc)
          simp only [Option.map_some, Function.update_of_ne (Nat.ne_of_lt hlt)]
      rw [hsm]
      exact hi.admissible.append_torn (he hk)
    · rw [hl, ← hv]
      simp only [Option.map_some, Function.update_self]
      exact admissible_last hist e

theorem Inv.skip (hi : Inv S n part valueOf hist R) {e : Write σ} (he : e.isDone = false) :
    Inv S (n + 1) part valueOf (hist ++ [e]) R where
  seqLe j hj := (hi.seqLe j hj).mono (Nat.le_succ n)
  genRange j hj g x hm := by have := hi.genRange j hj g x hm; omega
  parts := hi.parts
  sorted := hi.sorted
  falling := hi.falling
  complete := hi.complete
  admissible := hi.admissible.append_torn he

theorem Inv.empty : Inv S 0 part valueOf [] (fun _ => Reg.empty : Bank β) where
  seqLe j _ i s x h := by cases h
  genRange j _ g x h := by obtain ⟨i, s, h⟩ := h; cases h
  parts j _ g x h := by obtain ⟨i, s, h⟩ := h; cases h
  sorted j _ g x h := by obtain ⟨i, s, h⟩ := h; cases h
  falling j _ := Nat.le_refl _
  complete j _ s c x h := by cases h
  admissible := by intro e he; cases he

end Save

end Sharded
