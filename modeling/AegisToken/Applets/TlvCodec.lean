/-
  The BER-TLV reader and writer as one codec (aegis-applets tlv.rs).
  A tag of at most three bytes is written back as the bytes it was read from, so a list of
  elements survives writing and reading. `read_tag` also takes a tag of four bytes, which the
  writer cuts to its last three: another tag is then read back.
-/
import AegisToken.Applets.Apdu
import Mathlib.Tactic.IntervalCases

namespace AegisToken.Applets.Tlv
open ByteCodec

/-- Copy `bytes` into a buffer, given as what is written and what is left of it. -/
def fill (bytes : List UInt8) (out : List UInt8 × List UInt8) :
    Option (List UInt8 × List UInt8) :=
  if out.2.length < bytes.length then none
  else some (out.1 ++ bytes, out.2.drop bytes.length)

/-- Write `tag || length || value`: what was written, and what is left of the buffer. -/
def write (tag : Nat) (value out : List UInt8) : Option (List UInt8 × List UInt8) := do
  let out ← fill (toBE (tagEncodedLen tag) tag) ([], out)
  let out ← fill (lengthBytes value.length) out
  fill value out

/-- At most `count` elements of a `Reader`, until one is malformed. -/
def elementsIn : Nat → List UInt8 → List (Nat × List UInt8)
  | 0, _ => []
  | count + 1, bytes =>
    match next bytes with
    | none => []
    | some (tag, value, rest) => (tag, value) :: elementsIn count rest

/-- The elements a `Reader` yields. -/
def elements (bytes : List UInt8) : List (Nat × List UInt8) := elementsIn bytes.length bytes

/-- An element whose tag `read_tag` can return and whose length fits three bytes. -/
def Writable (x : Nat × List UInt8) : Prop :=
  (∃ bytes len, readTag bytes = some (x.1, len)) ∧ x.2.length ≤ 0xFFFFFF

/-- The encodings of the elements, one after the other. -/
def encode (xs : List (Nat × List UInt8)) : List UInt8 := xs.flatMap fun x => element x.1 x.2

variable {tag len : Nat} {bytes value rest : List UInt8} {xs : List (Nat × List UInt8)}

theorem fill_eq {out : List UInt8 × List UInt8} (h : bytes.length ≤ out.2.length) :
    fill bytes out = some (out.1 ++ bytes, out.2.drop bytes.length) :=
  if_neg (by omega)

/-- A buffer of the encoded length is filled exactly. -/
theorem write_eq {out : List UInt8} (h : out.length = encodedLen tag value.length) :
    write tag value out = some (element tag value, []) := by
  have hl := length_lengthBytes value.length
  unfold encodedLen at h
  unfold write
  rw [fill_eq (by simp; omega), Option.bind_eq_bind, Option.bind_some, fill_eq (by simp; omega),
    Option.bind_some, fill_eq (by simp; omega)]
  exact congrArg (fun r => some (element tag value, r)) (List.drop_eq_nil_of_le (by simp; omega))

/-- The rest of a tag that starts with the bytes `pre`. -/
theorem readTagRest_some (pre : List UInt8)
    (h : readTagRest (ofBE pre) pre.length bytes = some (tag, len)) :
    ∃ mid rest, bytes = mid ++ rest ∧ mid ≠ [] ∧ len = pre.length + mid.length ∧ len ≤ 4 ∧
      tag = ofBE (pre ++ mid) ∧
      ∀ r, readTagRest (ofBE pre) pre.length (mid ++ r) = some (tag, len) := by
  induction bytes generalizing pre with
  | nil => cases h
  | cons b bytes ih =>
    have hp : ofBE pre * 256 + b.toNat = ofBE (pre ++ [b]) := by
      rw [ofBE_concat]
      omega
    have hn : pre.length + 1 = (pre ++ [b]).length := by simp
    rw [readTagRest, hp, hn] at h
    split_ifs at h with h3 hb
    · cases h
      refine ⟨[b], bytes, rfl, nofun, by simp, by simp; omega, rfl, fun r => ?_⟩
      rw [List.cons_append, readTagRest, if_neg h3, if_pos hb, hp, hn]
    · obtain ⟨mid, rest, rfl, -, hl, h4, ht, hr⟩ := ih _ h
      refine ⟨b :: mid, rest, rfl, nofun, by simp at hl ⊢; omega, h4, by simpa using ht,
        fun r => ?_⟩
      rw [List.cons_append, readTagRest, if_neg h3, if_neg hb, hp, hn]
      exact hr r

/-- What `read_tag` accepts: the bytes of a tag, and what the writer makes of their number. -/
theorem readTag_some (h : readTag bytes = some (tag, len)) :
    len ≤ 4 ∧ ((len ≤ 3 ↔ tag ≤ 0xFFFFFF) ∧ (len ≤ 3 → tagEncodedLen tag = len)) ∧
      ∃ head rest, bytes = head ++ rest ∧ ofBE head = tag ∧ head.length = len ∧
        ∀ r, readTag (head ++ r) = some (tag, len) := by
  cases bytes with
  | nil => cases h
  | cons first bytes =>
    have ho : ofBE [first] = first.toNat := by simp [ofBE, ofLE]
    have hlt := first.toNat_lt
    rw [readTag] at h
    split_ifs at h with hf
    · cases h
      refine ⟨by omega, ⟨by omega, fun _ => if_pos (by omega)⟩, [first], bytes, rfl, ho, rfl,
        fun r => ?_⟩
      rw [List.cons_append, readTag, if_pos hf]
    rw [← ho] at h
    obtain ⟨mid, rest, rfl, hne, rfl, h4, rfl, hr⟩ := readTagRest_some [first] h
    refine ⟨h4, ?_, first :: mid, rest, rfl, rfl, Nat.add_comm _ _, fun r => ?_⟩
    · have ha := congrArg UInt8.toNat (not_not.mp hf)
      rw [UInt8.toNat_and] at ha
      have hge : 0x1F ≤ first.toNat := ha.ge.trans Nat.and_le_left
      have hm := ofBE_lt mid
      have hp := List.length_pos_iff.mpr hne
      rw [List.singleton_append, ofBE_cons, List.length_singleton, tagEncodedLen] at *
      generalize mid.length = k at *
      have hk : k ≤ 3 := by omega
      interval_cases k <;> split_ifs <;> omega
    · rw [List.cons_append, readTag, if_neg hf, ← ho]
      exact hr r

/-- A tag of at most three bytes is written as the bytes it was read from. -/
theorem readTag_toBE (h : readTag bytes = some (tag, len)) (h3 : tag ≤ 0xFFFFFF) :
    readTag (toBE (tagEncodedLen tag) tag ++ rest) = some (tag, tagEncodedLen tag) := by
  obtain ⟨-, ⟨hi, he⟩, head, _, -, ht, hl, hr⟩ := readTag_some h
  rw [he (hi.mpr h3), ← hl, ← ht, toBE_ofBE, ht, hl]
  exact hr rest

/-- A tag of four bytes is not read back: all its bytes would be alike, and no tag's last byte
  is like the one before it. -/
theorem readTag_truncated (h : ¬tag ≤ 0xFFFFFF) :
    readTag (toBE (tagEncodedLen tag) tag ++ rest) ≠ some (tag, len) := by
  intro hrd
  obtain ⟨h4, ⟨hi, -⟩, head, more, hhd, ht, rfl, hr⟩ := readTag_some hrd
  have h3 := mt hi.mp h
  have hl : head.length = 4 := by omega
  have hbc := toBE_ofBE head
  rw [ht, hl] at hbc
  rw [← hbc, tagEncodedLen, if_neg (by omega), if_neg (by omega)] at hhd
  simp only [toBE, toLE, List.reverse_cons, List.reverse_nil, List.nil_append, List.cons_append,
    List.cons.injEq] at hhd hbc
  obtain ⟨h0, h1, h2, -⟩ := hhd
  rw [← h0, ← h1, ← h2] at hbc
  have hfr := hr []
  rw [hl, ← hbc, List.append_nil] at hfr
  simp only [readTag, readTagRest] at hfr
  split_ifs at hfr <;> simp at hfr

theorem readLength_lengthBytes (h : len ≤ 0xFFFFFF) :
    readLength (lengthBytes len ++ rest) = some (len, lengthEncodedLen len) := by
  unfold lengthBytes lengthEncodedLen
  split_ifs with h1 h2 h3
  · have hb : (UInt8.ofNat len).toNat = len := UInt8.toNat_ofNat_of_lt (show len < 256 by omega)
    have hlt : UInt8.ofNat len < 0x80 := UInt8.lt_iff_toNat_lt.mpr (hb.trans_lt h1)
    exact (if_pos hlt).trans (by rw [hb])
  all_goals
    simp [toBE, toLE, readLength, ofBE, ofLE]
    omega

/-- An element is read back if its tag is. -/
theorem next_element (h : value.length ≤ 0xFFFFFF)
    (ht : ∀ r, readTag (toBE (tagEncodedLen tag) tag ++ r) = some (tag, tagEncodedLen tag)) :
    next (element tag value ++ rest) = some (tag, value, rest) := by
  unfold next element
  simp only [List.append_assoc, ht, Option.bind_eq_bind, Option.bind_some, ← List.drop_drop,
    List.drop_left' (length_toBE _ _), readLength_lengthBytes h,
    List.drop_left' (length_lengthBytes _), List.take_left, List.drop_left]
  exact if_neg (by simp)

theorem readTag_of_next (h : next bytes = some (tag, value, rest)) :
    ∃ len, readTag bytes = some (tag, len) := by
  obtain ⟨⟨_, len⟩, ht, h⟩ := Option.bind_eq_some_iff.mp h
  obtain ⟨_, -, h⟩ := Option.bind_eq_some_iff.mp h
  dsimp only at h
  split_ifs at h
  cases h
  exact ⟨len, ht⟩

theorem elementsIn_encode (hxs : ∀ x ∈ xs, Writable x) {count : Nat}
    (h : (encode xs).length ≤ count) :
    elementsIn count (encode xs) = xs ↔ ∀ x ∈ xs, x.1 ≤ 0xFFFFFF := by
  induction xs generalizing count with
  | nil => cases count <;> simp [elementsIn, encode, next, readTag]
  | cons x xs ih =>
    obtain ⟨⟨⟨bytes, len, hrd⟩, hl⟩, hxs⟩ := List.forall_mem_cons.mp hxs
    have hp : 0 < tagEncodedLen x.1 := by
      unfold tagEncodedLen
      split_ifs <;> omega
    have hx : encode (x :: xs) = element x.1 x.2 ++ encode xs := rfl
    rw [hx, List.length_append, length_element, encodedLen] at h
    obtain ⟨count, rfl⟩ : ∃ n, count = n + 1 := ⟨count - 1, by omega⟩
    have ih := ih hxs (show _ ≤ count by omega)
    rw [List.forall_mem_cons, ← ih, hx, elementsIn]
    by_cases h3 : x.1 ≤ 0xFFFFFF
    · simp [next_element hl fun _ => readTag_toBE hrd h3, h3]
    · refine iff_of_false ?_ (fun h => h3 h.1)
      split
      · simp
      · rename_i hnx
        intro heq
        cases heq
        obtain ⟨_, hn⟩ := readTag_of_next hnx
        rw [element, List.append_assoc, List.append_assoc] at hn
        exact readTag_truncated h3 hn

/-- Every element that can be written fills its buffer exactly. A list of elements is read back
  exactly if no tag has more than 24 bits, which are the tags of at most three bytes. -/
theorem tlv_round_trip (hxs : ∀ x ∈ xs, Writable x) :
    (∀ x ∈ xs, ∀ out : List UInt8, out.length = encodedLen x.1 x.2.length →
      write x.1 x.2 out = some (element x.1 x.2, [])) ∧
    (elements (encode xs) = xs ↔ ∀ x ∈ xs, x.1 ≤ 0xFFFFFF) ∧
    ∀ bytes tag len, readTag bytes = some (tag, len) → (len ≤ 3 ↔ tag ≤ 0xFFFFFF) :=
  ⟨fun _ _ _ h => write_eq h, elementsIn_encode hxs le_rfl,
    fun _ _ _ h => (readTag_some h).2.1.1⟩

/-- An object of PIV. -/
theorem tlv_round_trip_object : elements (encode [(0x5FC105, [1, 2])]) = [(0x5FC105, [1, 2])] := by
  refine (tlv_round_trip ?_).2.1.mpr (by decide)
  rintro _ (_ | ⟨_, ⟨⟩⟩)
  exact ⟨⟨[0x5F, 0xC1, 0x05], 3, by decide⟩, by decide⟩

/-- A tag of four bytes is accepted, and comes back as its last three. -/
theorem tag_of_four_bytes :
    readTag [0x5F, 0x9F, 0x81, 0x01] = some (0x5F9F8101, 4) ∧
      elements (encode [(0x5F9F8101, [7])]) = [(0x9F8101, [7])] := by
  decide

end AegisToken.Applets.Tlv
