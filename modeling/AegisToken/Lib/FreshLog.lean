/-
  Logs without repetition.
  Keys belong to a domain and a level in it. A log is fresh below `marks` when no key stands in it
  twice and every key's level is at most its domain's mark. Keys of one domain above its mark keep
  a log fresh: `Fresh.append`.
-/
import Mathlib.Data.List.Nodup
import Mathlib.Logic.Function.Basic

namespace FreshLog

variable {ι κ : Type}

/-- Keys by domain and level; a key has one domain and one level. -/
structure Keys (ι κ : Type) where
  atLevel : ι → Nat → κ → Prop
  unique : ∀ {i i' g g' k}, atLevel i g k → atLevel i' g' k → i = i' ∧ g = g'

/-- No key is logged twice, and none above its domain's mark. -/
structure Fresh (K : Keys ι κ) (log : List κ) (marks : ι → Nat) : Prop where
  nodup : log.Nodup
  below : ∀ k ∈ log, ∃ i g, K.atLevel i g k ∧ g ≤ marks i

variable {K : Keys ι κ} {log : List κ} {marks : ι → Nat}

theorem Fresh.nil : Fresh K [] marks := ⟨List.nodup_nil, by simp⟩

/-- Different keys of one domain above its mark. -/
theorem Fresh.append [DecidableEq ι] (h : Fresh K log marks) {new : List κ} {i : ι} {g : Nat}
    (hn : new.Nodup) (hks : ∀ k ∈ new, K.atLevel i g k) (hg : marks i < g) :
    Fresh K (log ++ new) (Function.update marks i g) where
  nodup := by
    refine List.nodup_append.mpr ⟨h.nodup, hn, ?_⟩
    rintro k hk k' hk' rfl
    obtain ⟨i', g', hlv, hle⟩ := h.below k hk
    obtain ⟨rfl, rfl⟩ := K.unique hlv (hks k hk')
    omega
  below := by
    intro k hk
    rcases List.mem_append.mp hk with hk | hk
    · obtain ⟨i', g', hlv, hle⟩ := h.below k hk
      refine ⟨i', g', hlv, ?_⟩
      by_cases hi : i' = i
      · subst hi
        rw [Function.update_self]
        omega
      · rwa [Function.update_of_ne hi]
    · exact ⟨i, g, hks k hk, Nat.le_of_eq (Function.update_self i g marks).symm⟩

end FreshLog
