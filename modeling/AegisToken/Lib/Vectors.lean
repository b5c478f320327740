/-
  Vectors that fill a gap with their last element.
  `swapRemove l i` takes the element at `i` out and puts the last one in its place. It keeps the
  other elements (`mem_swapRemove`), and it keeps their order exactly if at most one element came
  after the gap (`pairwise_swapRemove_iff`).
-/
import Mathlib.Data.List.Nodup

namespace Vectors

variable {α β : Type}

/-- Remove the element at a position; the last one takes its place. -/
def swapRemove (l : List α) (i : Nat) : List α :=
  match l.getLast? with
  | none => l
  | some last => (l.set i last).dropLast

/-- The last element leaves no gap. -/
theorem swapRemove_last (front : List α) (a : α) :
    swapRemove (front ++ [a]) front.length = front := by
  rw [swapRemove]
  simp

/-- The last element moves to the gap. -/
theorem swapRemove_gap (front : List α) (a : α) (mid : List α) (z : α) :
    swapRemove (front ++ a :: (mid ++ [z])) front.length = front ++ z :: mid := by
  have hsn : front ++ a :: (mid ++ [z]) = front ++ a :: mid ++ [z] := by simp
  have hs : (front ++ a :: mid ++ [z]).set front.length z = front ++ z :: mid ++ [z] := by simp
  rw [swapRemove, hsn, List.getLast?_concat]
  show ((front ++ a :: mid ++ [z]).set front.length z).dropLast = _
  rw [hs, List.dropLast_concat]

variable {l : List α}

/-- A position is the last one, or there is a last element after it. -/
theorem split_at {i : Nat} (hi : i < l.length) :
    ∃ front a rest, l = front ++ a :: rest ∧ front.length = i ∧
      (rest = [] ∨ ∃ mid z, rest = mid ++ [z]) := by
  refine ⟨l.take i, l[i], l.drop (i + 1), ?_, ?_, List.eq_nil_or_concat' _⟩
  · rw [← List.drop_eq_getElem_cons hi, List.take_append_drop]
  · exact List.length_take_of_le (Nat.le_of_lt hi)

theorem map_swapRemove (g : α → β) (l : List α) (i : Nat) :
    (swapRemove l i).map g = swapRemove (l.map g) i := by
  unfold swapRemove
  rw [List.getLast?_map]
  cases l.getLast? with
  | none => rfl
  | some last =>
    show ((l.set i last).dropLast).map g = ((l.map g).set i (g last)).dropLast
    rw [List.map_dropLast, List.map_set]

theorem perm_gap (front : List α) (a : α) (mid : List α) (z : α) :
    (front ++ a :: (mid ++ [z])).Perm (a :: (front ++ z :: mid)) := by
  refine List.perm_middle.trans (List.Perm.cons a (List.Perm.append_left front ?_))
  exact List.perm_append_comm

theorem nodup_swapRemove (h : l.Nodup) (i : Nat) : (swapRemove l i).Nodup := by
  by_cases hi : i < l.length
  · obtain ⟨front, a, rest, rfl, rfl, hrs⟩ := split_at hi
    rcases hrs with rfl | ⟨mid, z, rfl⟩
    · rw [swapRemove_last]
      exact (List.nodup_append.mp h).1
    · rw [swapRemove_gap]
      exact (List.nodup_cons.mp ((perm_gap front a mid z).nodup h)).2
  · unfold swapRemove
    cases l.getLast? with
    | none => exact h
    | some last =>
      show ((l.set i last).dropLast).Nodup
      rw [List.set_eq_of_length_le (Nat.le_of_not_lt hi)]
      exact h.sublist (List.dropLast_sublist l)

theorem mem_swapRemove (hnd : l.Nodup) {i : Nat} {a : α} (ha : l[i]? = some a)
    (x : α) : x ∈ swapRemove l i ↔ x ∈ l ∧ x ≠ a := by
  obtain ⟨hi, hg⟩ := List.getElem?_eq_some_iff.mp ha
  obtain ⟨front, b, rest, rfl, rfl, hrs⟩ := split_at hi
  have hb : b = a := by simpa using hg
  subst hb
  rcases hrs with rfl | ⟨mid, z, rfl⟩
  · rw [swapRemove_last]
    have hn : b ∉ front := by
      intro hm
      exact (List.nodup_append.mp hnd).2.2 b hm b (List.mem_singleton_self b) rfl
    constructor
    · intro hx
      exact ⟨List.mem_append_left _ hx, fun heq => hn (heq ▸ hx)⟩
    rintro ⟨hx, hne⟩
    rcases List.mem_append.mp hx with hx | hx
    · exact hx
    · exact absurd (List.mem_singleton.mp hx) hne
  · rw [swapRemove_gap]
    have hn : b ∉ front ++ z :: mid :=
      (List.nodup_cons.mp ((perm_gap front b mid z).nodup hnd)).1
    constructor
    · intro hx
      refine ⟨?_, fun heq => hn (heq ▸ hx)⟩
      simp only [List.mem_append, List.mem_cons] at hx ⊢
      tauto
    · rintro ⟨hx, hne⟩
      simp only [List.mem_append, List.mem_cons] at hx ⊢
      tauto

/-- The order is kept exactly if at most one element came after the gap. -/
theorem pairwise_swapRemove_iff {R : α → α → Prop} (ham : ∀ a b, R a b → ¬ R b a)
    (hl : l.Pairwise R) {i : Nat} (hi : i < l.length) :
    (swapRemove l i).Pairwise R ↔ l.length ≤ i + 2 := by
  obtain ⟨front, a, rest, rfl, rfl, hrs⟩ := split_at hi
  rcases hrs with rfl | ⟨mid, z, rfl⟩
  · rw [swapRemove_last]
    have hn : (front ++ [a]).length ≤ front.length + 2 := by simp
    exact ⟨fun _ => hn, fun _ => (List.pairwise_append.mp hl).1⟩
  rw [swapRemove_gap]
  cases mid with
  | nil =>
    have hn : (front ++ a :: ([] ++ [z])).length ≤ front.length + 2 := by simp
    have hs : (front ++ [z]).Sublist (front ++ a :: ([] ++ [z])) :=
      List.Sublist.append_left (List.sublist_cons_self a [z]) front
    exact ⟨fun _ => hn, fun _ => hl.sublist hs⟩
  | cons b mid =>
    -- the last element now stands before one that stood before it
    have hbz : R b z := by
      have htl := (List.pairwise_cons.mp (List.pairwise_append.mp hl).2.1).2
      exact (List.pairwise_append.mp htl).2.2 b List.mem_cons_self z (List.mem_singleton_self z)
    constructor
    · intro hpr
      have hzb := (List.pairwise_cons.mp (List.pairwise_append.mp hpr).2.1).1
      exact absurd hbz (ham _ _ (hzb b List.mem_cons_self))
    · intro hn
      simp only [List.length_append, List.length_cons, List.length_nil] at hn
      omega

end Vectors
