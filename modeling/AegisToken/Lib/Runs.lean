/-
  Runs of a state machine with a step function.
  `Every step P s es` says that each event of the run `es` from `s` meets the condition `P` in the
  state it starts in. `Every.keep` is the induction rule: what a step keeps under the condition, a
  run whose events all meet it keeps, and `every_iff` compares two conditions along a run.
  `foldlM_keep` is the same rule for a fold that can fail.
-/
import Mathlib.Data.List.Basic

namespace Runs

variable {σ ε : Type} {step : σ → ε → σ}

def run (step : σ → ε → σ) (s : σ) (es : List ε) : σ := es.foldl step s

/-- `P` holds of every event of a run, in the state it starts in. -/
def Every (step : σ → ε → σ) (P : σ → ε → Prop) : σ → List ε → Prop
  | _, [] => True
  | s, e :: es => P s e ∧ Every step P (step s e) es

instance decidableEvery (step : σ → ε → σ) (P : σ → ε → Prop) [∀ s e, Decidable (P s e)] :
    (s : σ) → (es : List ε) → Decidable (Every step P s es)
  | _, [] => inferInstanceAs (Decidable True)
  | s, e :: es =>
    have := decidableEvery step P (step s e) es
    inferInstanceAs (Decidable (_ ∧ _))

@[simp] theorem run_nil (s : σ) : run step s [] = s := rfl

@[simp] theorem run_cons (s : σ) (e : ε) (es : List ε) :
    run step s (e :: es) = run step (step s e) es := rfl

theorem run_append (s : σ) (es fs : List ε) :
    run step s (es ++ fs) = run step (run step s es) fs := List.foldl_append

variable {es : List ε} {P Q : σ → ε → Prop} {s : σ}

theorem every_concat {e : ε} :
    Every step P s (es ++ [e]) ↔ Every step P s es ∧ P (run step s es) e := by
  induction es generalizing s with
  | nil => simp [Every]
  | cons x es ih =>
    simp only [List.cons_append, Every, ih, run_cons]
    exact and_assoc.symm

/-- A condition that does not depend on the state. -/
theorem every_of_mem {P : ε → Prop} (h : ∀ e ∈ es, P e) :
    Every step (fun _ e => P e) s es := by
  induction es generalizing s with
  | nil => trivial
  | cons e es ih =>
    exact ⟨h e List.mem_cons_self, ih fun x hx => h x (List.mem_cons_of_mem e hx)⟩

theorem Every.imp (h : ∀ s e, P s e → Q s e) (hes : Every step P s es) :
    Every step Q s es := by
  induction es generalizing s with
  | nil => trivial
  | cons e es ih => exact ⟨h s e hes.1, ih hes.2⟩

theorem Every.and (hp : Every step P s es) (hq : Every step Q s es) :
    Every step (fun s e => P s e ∧ Q s e) s es := by
  induction es generalizing s with
  | nil => trivial
  | cons e es ih => exact ⟨⟨hp.1, hq.1⟩, ih hp.2 hq.2⟩

variable {I : σ → Prop}

/-- What each step keeps under a condition, a run under it keeps. -/
theorem Every.keep (hst : ∀ s e, I s → P s e → I (step s e)) (hs : I s)
    (hes : Every step P s es) : I (run step s es) := by
  induction es generalizing s with
  | nil => exact hs
  | cons e es ih => exact ih (hst s e hs hes.1) hes.2

/-- What every step keeps, every run keeps. -/
theorem keep (hst : ∀ s e, I s → I (step s e)) (hs : I s) (es : List ε) :
    I (run step s es) := by
  induction es generalizing s with
  | nil => exact hs
  | cons e es ih => exact ih (hst s e hs)

/-- What holds of every event in the states of an invariant holds all along a run. -/
theorem every_of_keep (hP : ∀ s e, I s → P s e) (hst : ∀ s e, I s → I (step s e))
    (hs : I s) (es : List ε) : Every step P s es := by
  induction es generalizing s with
  | nil => trivial
  | cons e es ih => exact ⟨hP s e hs, ih (hst s e hs)⟩

/-- A condition on one part of the state is a condition on the run of that part. -/
theorem every_image {τ : Type} (part : σ → τ) {step' : τ → ε → τ}
    (hpr : ∀ s e, part (step s e) = step' (part s) e) (P : τ → ε → Prop) :
    Every step (fun s e => P (part s) e) s es ↔ Every step' P (part s) es := by
  induction es generalizing s with
  | nil => exact Iff.rfl
  | cons e es ih =>
    show _ ∧ _ ↔ _ ∧ _
    rw [ih, hpr]

/-- Two conditions that agree in the states a run goes through hold of the same runs: a step under
  the second one keeps the invariant `I n`, where `n` counts the steps up to `N`. -/
theorem every_iff {I : Nat → σ → Prop} {N : Nat} (hi : ∀ n s e, n < N → I n s → (P s e ↔ Q s e))
    (hst : ∀ n s e, n < N → I n s → Q s e → I (n + 1) (step s e)) {n : Nat} (hs : I n s)
    (hes : n + es.length ≤ N) :
    Every step P s es ↔ Every step Q s es := by
  induction es generalizing n s with
  | nil => exact Iff.rfl
  | cons e es ih =>
    rw [List.length_cons] at hes
    have hn : n < N := by omega
    constructor
    · intro h
      have hq : Q s e := (hi n s e hn hs).mp h.1
      exact ⟨hq, (ih (hst n s e hn hs hq) (by omega)).mp h.2⟩
    · intro h
      exact ⟨(hi n s e hn hs).mpr h.1, (ih (hst n s e hn hs h.1) (by omega)).mpr h.2⟩

/-- What a fold of fallible steps keeps. -/
theorem foldlM_keep {α β ε : Type} {f : β → α → Except ε β} {P : β → Prop} {l : List α}
    (hf : ∀ a ∈ l, ∀ b b', P b → f b a = .ok b' → P b') {b b' : β} (hb : P b)
    (h : l.foldlM f b = .ok b') : P b' := by
  induction l generalizing b with
  | nil =>
    cases h
    exact hb
  | cons a l ih =>
    rw [List.foldlM_cons] at h
    rcases hfa : f b a with e | b₁
    · rw [hfa] at h
      cases h
    · rw [hfa] at h
      exact ih (fun a ha => hf a (List.mem_cons_of_mem _ ha))
        (hf a List.mem_cons_self b b₁ hb hfa) h

/-- What a fold of fallible steps says about the part of the list it has seen. -/
theorem foldlM_seen {α β ε : Type} {f : β → α → Except ε β} {I : List α → β → Prop}
    (hf : ∀ seen a b b', I seen b → f b a = .ok b' → I (seen ++ [a]) b') {l : List α} {b b' : β}
    (hb : I [] b) (h : l.foldlM f b = .ok b') : I l b' := by
  have main : ∀ (l seen : List α) (b : β), I seen b → l.foldlM f b = .ok b' → I (seen ++ l) b' := by
    intro l
    induction l with
    | nil =>
      intro seen b hb h
      cases h
      rw [List.append_nil]
      exact hb
    | cons a l ih =>
      intro seen b hb h
      rw [List.foldlM_cons] at h
      rcases hfa : f b a with e | b₁
      · rw [hfa] at h
        cases h
      · rw [hfa] at h
        rw [List.append_cons]
        exact ih (seen ++ [a]) b₁ (hf seen a b b₁ hb hfa) h
  exact main l [] b hb h

end Runs
