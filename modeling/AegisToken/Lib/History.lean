/-
  Histories of a machine that answers each event.
  A history lists what happened, the latest entry first: the state an event was handled in, the
  event and the answer. `Along Q h` says that every entry of `h` meets `Q` in the light of what
  came before it. `Since p stop h` says that an entry with `p` happened and that no later entry
  was a `stop`: what an authorisation that ends with a session leaves behind. `countSince` counts
  the entries since the last `stop`.
  `along_history` is the induction rule: an invariant of state and history that each step keeps,
  and that gives `Q` of the step, gives `Q` along every history.
-/
import AegisToken.Lib.Runs

namespace History

/-! ## Statements about the past -/

section
variable {α : Type}

/-- Every entry meets `Q` with its past. -/
def Along (Q : α → List α → Prop) : List α → Prop
  | [] => True
  | e :: h => Q e h ∧ Along Q h

/-- An entry with `p` happened, and nothing later was a `stop`. -/
def Since (p : α → List α → Prop) (stop : α → Prop) : List α → Prop
  | [] => False
  | e :: h => p e h ∨ (¬stop e ∧ Since p stop h)

/-- How many entries with `p` happened since the last `stop`. -/
def countSince (p stop : α → Prop) [DecidablePred p] [DecidablePred stop] : List α → Nat
  | [] => 0
  | e :: h => if stop e then 0 else countSince p stop h + if p e then 1 else 0

variable {P Q p q : α → List α → Prop} {stop : α → Prop} {e : α} {h : List α}

theorem Along.and (hP : Along P h) (hQ : Along Q h) :
    Along (fun e h => P e h ∧ Q e h) h := by
  induction h with
  | nil => trivial
  | cons e h ih => exact ⟨⟨hP.1, hQ.1⟩, ih hP.2 hQ.2⟩

theorem along_append {h₁ h₂ : List α} (hP : Along P (h₁ ++ h₂)) : Along P h₂ := by
  induction h₁ with
  | nil => exact hP
  | cons e h₁ ih => exact ih hP.2

theorem Since.mono {stop' : α → Prop} (hpq : ∀ e h, p e h → q e h) (hst : ∀ e, stop' e → stop e)
    (hp : Since p stop h) : Since q stop' h := by
  induction h with
  | nil => exact hp
  | cons e h ih =>
    rcases hp with he | ⟨hne, hh⟩
    · exact .inl (hpq e h he)
    · exact .inr ⟨fun he => hne (hst e he), ih hh⟩

/-- What is said about an entry may be said in other words. -/
theorem since_congr (hpq : ∀ e ∈ h, ∀ past, p e past ↔ q e past) :
    Since p stop h ↔ Since q stop h := by
  induction h with
  | nil => exact Iff.rfl
  | cons e h ih =>
    exact or_congr (hpq e List.mem_cons_self h)
      (and_congr_right' (ih fun x hx => hpq x (List.mem_cons_of_mem e hx)))

section
variable {p stop : α → Prop} [DecidablePred p] [DecidablePred stop]

theorem countSince_stop (he : stop e) : countSince p stop (e :: h) = 0 := if_pos he

theorem countSince_other (hst : ¬stop e) (hp : ¬p e) :
    countSince p stop (e :: h) = countSince p stop h := by
  rw [countSince, if_neg hst, if_neg hp, Nat.add_zero]

theorem countSince_more (hst : ¬stop e) (hp : p e) :
    countSince p stop (e :: h) = countSince p stop h + 1 := by
  rw [countSince, if_neg hst, if_pos hp]

end

end

/-! ## Histories of a machine -/

section
variable {σ ε ρ : Type}

/-- One entry: the state an event was handled in, the event, and the answer. -/
structure Entry (σ ε ρ : Type) where
  before : σ
  event : ε
  answer : ρ

/-- The entry of an event in a state. -/
def entry (step : σ → ε → ρ × σ) (s : σ) (e : ε) : Entry σ ε ρ := ⟨s, e, (step s e).1⟩

/-- A step that also writes the history. -/
def logged (step : σ → ε → ρ × σ) (x : σ × List (Entry σ ε ρ)) (e : ε) :
    σ × List (Entry σ ε ρ) :=
  ((step x.1 e).2, entry step x.1 e :: x.2)

/-- The history of a run. -/
def history (step : σ → ε → ρ × σ) (s : σ) (es : List ε) : List (Entry σ ε ρ) :=
  (Runs.run (logged step) (s, []) es).2

variable {step : σ → ε → ρ × σ}

theorem run_logged_append (x : σ × List (Entry σ ε ρ)) (es : List ε) :
    ∃ new, (Runs.run (logged step) x es).2 = new ++ x.2 := by
  induction es generalizing x with
  | nil => exact ⟨[], rfl⟩
  | cons e es ih =>
    obtain ⟨new, hn⟩ := ih (logged step x e)
    refine ⟨new ++ [entry step x.1 e], ?_⟩
    rw [Runs.run_cons, hn, List.append_assoc]
    rfl

theorem mem_history {s : σ} {es : List ε} {x : Entry σ ε ρ} (h : x ∈ history step s es) :
    ∃ s e, x = entry step s e := by
  have hin : ∀ y ∈ ([] : List (Entry σ ε ρ)), ∃ s e, y = entry step s e :=
    fun y hy => absurd hy List.not_mem_nil
  refine Runs.keep (I := fun x : σ × List (Entry σ ε ρ) => ∀ y ∈ x.2, ∃ s e, y = entry step s e)
    (fun x e hx y hy => ?_) hin es x h
  rcases List.mem_cons.mp hy with rfl | hy
  · exact ⟨x.1, e, rfl⟩
  · exact hx y hy

/-- An invariant of state and history that every step under `P` keeps, and that gives `Q` of the
  step, gives `Q` along every history under `P`. -/
theorem along_history {I : σ → List (Entry σ ε ρ) → Prop}
    {P Q : Entry σ ε ρ → List (Entry σ ε ρ) → Prop} {s : σ} (hin : I s [])
    (hst : ∀ s h e, I s h → P (entry step s e) h →
      Q (entry step s e) h ∧ I (step s e).2 (entry step s e :: h))
    (es : List ε) (hP : Along P (history step s es)) : Along Q (history step s es) := by
  have main : ∀ (es : List ε) (x : σ × List (Entry σ ε ρ)), I x.1 x.2 → Along Q x.2 →
      Along P (Runs.run (logged step) x es).2 → Along Q (Runs.run (logged step) x es).2 := by
    intro es
    induction es with
    | nil => exact fun x _ hQ _ => hQ
    | cons e es ih =>
      intro x hI hQ hP
      -- The condition at this step is part of the condition on the whole run.
      obtain ⟨new, hn⟩ := run_logged_append (logged step x e) es
      have hPe : Along P (entry step x.1 e :: x.2) :=
        along_append (show Along P (new ++ (logged step x e).2) from hn ▸ hP)
      obtain ⟨hQe, hI'⟩ := hst x.1 x.2 e hI hPe.1
      exact ih (logged step x e) hI' ⟨hQe, hQ⟩ hP
  exact main es (s, []) hin trivial hP

/-- The rule for machines without a condition on the run. -/
theorem along_history_of_all {I : σ → List (Entry σ ε ρ) → Prop}
    {Q : Entry σ ε ρ → List (Entry σ ε ρ) → Prop} {s : σ} (hin : I s [])
    (hst : ∀ s h e, I s h → Q (entry step s e) h ∧ I (step s e).2 (entry step s e :: h))
    (es : List ε) : Along Q (history step s es) := by
  have htr : ∀ h : List (Entry σ ε ρ), Along (fun _ _ => True) h := by
    intro h
    induction h with
    | nil => trivial
    | cons e h ih => exact ⟨trivial, ih⟩
  exact along_history hin (fun s h e hI _ => hst s h e hI) es (htr _)

/-- The answers of a run, in order. -/
def answers (step : σ → ε → ρ × σ) : σ → List ε → List ρ
  | _, [] => []
  | s, e :: es => (step s e).1 :: answers step (step s e).2 es

/-- Two machines that answer alike from related states, as long as the events meet `P`, and stay
  related, answer alike over every run of such events. -/
theorem answers_eq_of_related {τ : Type} {step' : τ → ε → ρ × τ} {R : σ → τ → Prop}
    {P : σ → ε → Prop} (hst : ∀ s t e, R s t → P s e →
      (step s e).1 = (step' t e).1 ∧ R (step s e).2 (step' t e).2)
    {s : σ} {t : τ} (hR : R s t) {es : List ε}
    (hes : Runs.Every (fun s e => (step s e).2) P s es) :
    answers step s es = answers step' t es := by
  induction es generalizing s t with
  | nil => rfl
  | cons e es ih =>
    obtain ⟨ha, hR'⟩ := hst s t e hR hes.1
    simp only [answers]
    rw [ha, ih hR' hes.2]

end

end History
