/-
  UTF-8 by its characters.
  `isUtf8` follows the bytes; here they are the bytes of characters. `CharBytes` is the table of
  the well-formed sequences of one character. The scanner goes over exactly those
  (`utf8From_char`, `utf8From_split`), and they are what characters are encoded to
  (`charBytes_iff`), so a text is well formed if and only if it is the encoding of characters
  (`isUtf8_iff`), and the bytes that continue no character count them (`count_starts`).
-/
import AegisToken.Lib.Cbor

namespace Wire

/-- A byte inside a character. -/
def Continues (b : UInt8) : Prop := 0x80 ≤ b.toNat ∧ b.toNat ≤ 0xBF

/-- The well-formed sequences of one character: no overlong forms, no surrogates, and nothing
  above the last code point. -/
inductive CharBytes : List UInt8 → Prop
  | one {a : UInt8} (ha : a.toNat ≤ 0x7F) : CharBytes [a]
  | two {a b : UInt8} (ha : 0xC2 ≤ a.toNat ∧ a.toNat ≤ 0xDF) (hb : Continues b) : CharBytes [a, b]
  | three {a b c : UInt8} (ha : 0xE0 ≤ a.toNat ∧ a.toNat ≤ 0xEF) (hb : Continues b)
      (hc : Continues c) (hlow : a.toNat = 0xE0 → 0xA0 ≤ b.toNat)
      (hhigh : a.toNat = 0xED → b.toNat ≤ 0x9F) : CharBytes [a, b, c]
  | four {a b c d : UInt8} (ha : 0xF0 ≤ a.toNat ∧ a.toNat ≤ 0xF4) (hb : Continues b)
      (hc : Continues c) (hd : Continues d) (hlow : a.toNat = 0xF0 → 0x90 ≤ b.toNat)
      (hhigh : a.toNat = 0xF4 → b.toNat ≤ 0x8F) : CharBytes [a, b, c, d]

/-! ## The scanner -/

/-- The table of the first bytes in numbers. -/
theorem utf8Tail_eq (b : UInt8) :
    utf8Tail b = if b.toNat ≤ 0x7F then some []
      else if 0xC2 ≤ b.toNat ∧ b.toNat ≤ 0xDF then some [(0x80, 0xBF)]
      else if b.toNat = 0xE0 then some [(0xA0, 0xBF), (0x80, 0xBF)]
      else if b.toNat = 0xED then some [(0x80, 0x9F), (0x80, 0xBF)]
      else if 0xE1 ≤ b.toNat ∧ b.toNat ≤ 0xEF then some [(0x80, 0xBF), (0x80, 0xBF)]
      else if b.toNat = 0xF0 then some [(0x90, 0xBF), (0x80, 0xBF), (0x80, 0xBF)]
      else if 0xF1 ≤ b.toNat ∧ b.toNat ≤ 0xF3 then some [(0x80, 0xBF), (0x80, 0xBF), (0x80, 0xBF)]
      else if b.toNat = 0xF4 then some [(0x80, 0x8F), (0x80, 0xBF), (0x80, 0xBF)]
      else none := by
  simp only [utf8Tail, UInt8.le_iff_toNat_le, ← UInt8.toNat_inj, UInt8.reduceToNat]

variable {tail : List (UInt8 × UInt8)} {w : List UInt8} {a : UInt8}
  {bs : List UInt8}

theorem utf8From_cons {lo hi : UInt8} :
    utf8From ((lo, hi) :: tail) bs = true ↔
      ∃ b rest, bs = b :: rest ∧ (lo.toNat ≤ b.toNat ∧ b.toNat ≤ hi.toNat) ∧
        utf8From tail rest = true := by
  cases bs with
  | nil => simp [utf8From]
  | cons b rest =>
    simp [utf8From, UInt8.le_iff_toNat_le]

theorem utf8From_first (h : utf8Tail a = some tail) (rest : List UInt8) :
    utf8From [] (a :: rest) = utf8From tail rest := by
  rw [utf8From, h]

theorem utf8From_within {lo hi b : UInt8} (h : lo.toNat ≤ b.toNat ∧ b.toNat ≤ hi.toNat)
    (tail : List (UInt8 × UInt8)) (rest : List UInt8) :
    utf8From ((lo, hi) :: tail) (b :: rest) = utf8From tail rest := by
  simp [utf8From, UInt8.le_iff_toNat_le, h.1, h.2]

theorem utf8From_continues {b : UInt8} (h : Continues b) (tail : List (UInt8 × UInt8))
    (rest : List UInt8) : utf8From ((0x80, 0xBF) :: tail) (b :: rest) = utf8From tail rest := by
  have hrn : (0x80 : UInt8).toNat ≤ b.toNat ∧ b.toNat ≤ (0xBF : UInt8).toNat := h
  exact utf8From_within hrn tail rest

theorem utf8Tail_two (ha : 0xC2 ≤ a.toNat ∧ a.toNat ≤ 0xDF) :
    utf8Tail a = some [(0x80, 0xBF)] := by
  rw [utf8Tail_eq, if_neg (by omega), if_pos ha]

/-- The first bytes of three: the range of the second byte has no overlong forms and no
  surrogates. -/
theorem utf8Tail_three (ha : 0xE0 ≤ a.toNat ∧ a.toNat ≤ 0xEF) :
    ∃ lo hi : UInt8, utf8Tail a = some [(lo, hi), (0x80, 0xBF)] ∧
      ∀ b : UInt8, (lo.toNat ≤ b.toNat ∧ b.toNat ≤ hi.toNat) ↔
        Continues b ∧ (a.toNat = 0xE0 → 0xA0 ≤ b.toNat) ∧ (a.toNat = 0xED → b.toNat ≤ 0x9F) := by
  rw [utf8Tail_eq, if_neg (by omega), if_neg (by omega)]
  simp only [Continues]
  split
  · exact ⟨0xA0, 0xBF, rfl, fun b => by simp only [UInt8.reduceToNat]; omega⟩
  split
  · exact ⟨0x80, 0x9F, rfl, fun b => by simp only [UInt8.reduceToNat]; omega⟩
  · rw [if_pos (by omega)]
    exact ⟨0x80, 0xBF, rfl, fun b => by simp only [UInt8.reduceToNat]; omega⟩

/-- The first bytes of four: the range of the second byte has no overlong forms and nothing above
  the last code point. -/
theorem utf8Tail_four (ha : 0xF0 ≤ a.toNat ∧ a.toNat ≤ 0xF4) :
    ∃ lo hi : UInt8, utf8Tail a = some [(lo, hi), (0x80, 0xBF), (0x80, 0xBF)] ∧
      ∀ b : UInt8, (lo.toNat ≤ b.toNat ∧ b.toNat ≤ hi.toNat) ↔
        Continues b ∧ (a.toNat = 0xF0 → 0x90 ≤ b.toNat) ∧ (a.toNat = 0xF4 → b.toNat ≤ 0x8F) := by
  rw [utf8Tail_eq, if_neg (by omega), if_neg (by omega), if_neg (by omega), if_neg (by omega),
    if_neg (by omega)]
  simp only [Continues]
  split
  · exact ⟨0x90, 0xBF, rfl, fun b => by simp only [UInt8.reduceToNat]; omega⟩
  split
  · exact ⟨0x80, 0xBF, rfl, fun b => by simp only [UInt8.reduceToNat]; omega⟩
  · rw [if_pos (by omega)]
    exact ⟨0x80, 0x8F, rfl, fun b => by simp only [UInt8.reduceToNat]; omega⟩

/-- A byte of the table is the first of one, two, three or four. -/
theorem utf8Tail_some (h : utf8Tail a = some tail) :
    a.toNat ≤ 0x7F ∧ tail = [] ∨ (0xC2 ≤ a.toNat ∧ a.toNat ≤ 0xDF) ∨
      (0xE0 ≤ a.toNat ∧ a.toNat ≤ 0xEF) ∨ (0xF0 ≤ a.toNat ∧ a.toNat ≤ 0xF4) := by
  by_cases ho : a.toNat ≤ 0x7F
  · rw [utf8Tail_eq, if_pos ho] at h
    exact .inl ⟨ho, (Option.some.inj h).symm⟩
  by_contra hrn
  rw [utf8Tail_eq, if_neg (by omega), if_neg (by omega), if_neg (by omega), if_neg (by omega),
    if_neg (by omega), if_neg (by omega), if_neg (by omega), if_neg (by omega)] at h
  cases h

/-- The scanner goes over one character. -/
theorem utf8From_char (h : CharBytes w) (rest : List UInt8) :
    utf8From [] (w ++ rest) = utf8From [] rest := by
  cases h with
  | one ha =>
    refine utf8From_first ?_ rest
    rw [utf8Tail_eq, if_pos ha]
  | @two a b ha hb =>
    show utf8From [] (a :: b :: rest) = _
    rw [utf8From_first (utf8Tail_two ha), utf8From_continues hb]
  | @three a b c ha hb hc hl hhg =>
    obtain ⟨lo, hi, htl, hrn⟩ := utf8Tail_three ha
    show utf8From [] (a :: b :: c :: rest) = _
    rw [utf8From_first htl, utf8From_within ((hrn b).mpr ⟨hb, hl, hhg⟩), utf8From_continues hc]
  | @four a b c d ha hb hc hd hl hhg =>
    obtain ⟨lo, hi, htl, hrn⟩ := utf8Tail_four ha
    show utf8From [] (a :: b :: c :: d :: rest) = _
    rw [utf8From_first htl, utf8From_within ((hrn b).mpr ⟨hb, hl, hhg⟩),
      utf8From_continues hc, utf8From_continues hd]

/-- Where the scanner accepts, it starts with a character and accepts the rest. -/
theorem utf8From_split (h : utf8From [] (a :: bs) = true) :
    ∃ w rest, a :: bs = w ++ rest ∧ CharBytes w ∧ utf8From [] rest = true := by
  rcases htl : utf8Tail a with _ | tail
  · rw [utf8From, htl] at h
    cases h
  rw [utf8From_first htl] at h
  rcases utf8Tail_some htl with ⟨ha, rfl⟩ | ha | ha | ha
  · exact ⟨[a], bs, rfl, .one ha, h⟩
  · cases (utf8Tail_two ha).symm.trans htl
    obtain ⟨b, rest, rfl, hb, hrs⟩ := utf8From_cons.mp h
    exact ⟨[a, b], rest, rfl, .two ha hb, hrs⟩
  · obtain ⟨lo, hi, htl', hrn⟩ := utf8Tail_three ha
    cases htl'.symm.trans htl
    obtain ⟨b, bs, rfl, hb, h⟩ := utf8From_cons.mp h
    obtain ⟨c, rest, rfl, hc, hrs⟩ := utf8From_cons.mp h
    obtain ⟨hb, hl, hhg⟩ := (hrn b).mp hb
    exact ⟨[a, b, c], rest, rfl, .three ha hb hc hl hhg, hrs⟩
  · obtain ⟨lo, hi, htl', hrn⟩ := utf8Tail_four ha
    cases htl'.symm.trans htl
    obtain ⟨b, bs, rfl, hb, h⟩ := utf8From_cons.mp h
    obtain ⟨c, bs, rfl, hc, h⟩ := utf8From_cons.mp h
    obtain ⟨d, rest, rfl, hd, hrs⟩ := utf8From_cons.mp h
    obtain ⟨hb, hl, hhg⟩ := (hrn b).mp hb
    exact ⟨[a, b, c, d], rest, rfl, .four ha hb hc hd hl hhg, hrs⟩

/-! ## Characters -/

def pointBytes (v : Nat) : List UInt8 :=
  if v ≤ 0x7F then [.ofNat v]
  else if v ≤ 0x7FF then [.ofNat (v / 64 % 0x20 + 0xC0), .ofNat (v % 64 + 0x80)]
  else if v ≤ 0xFFFF then
    [.ofNat (v / 4096 % 0x10 + 0xE0), .ofNat (v / 64 % 64 + 0x80), .ofNat (v % 64 + 0x80)]
  else
    [.ofNat (v / 262144 % 8 + 0xF0), .ofNat (v / 4096 % 64 + 0x80), .ofNat (v / 64 % 64 + 0x80),
      .ofNat (v % 64 + 0x80)]

theorem utf8EncodeChar_eq (c : Char) : String.utf8EncodeChar c = pointBytes c.val.toNat := rfl

theorem exists_char {v : Nat} (h : v < 0xD800 ∨ 0xDFFF < v ∧ v < 0x110000) :
    ∃ c : Char, pointBytes v = String.utf8EncodeChar c := by
  have hlt : v < UInt32.size := Nat.lt_trans (by omega : v < 0x110000) (by decide)
  refine ⟨⟨UInt32.ofNatLT v hlt, ?_⟩, ?_⟩
  · exact h
  · rw [utf8EncodeChar_eq, UInt32.toNat_ofNatLT]

theorem eq_ofNat {b : UInt8} {n : Nat} (h : n = b.toNat) : UInt8.ofNat n = b := by
  rw [h, UInt8.ofNat_toNat]

/-- A well-formed sequence is the encoding of the character whose bits it has. -/
theorem CharBytes.exists_char (h : CharBytes w) :
    ∃ c : Char, w = String.utf8EncodeChar c := by
  cases h with
  | @one a ha =>
    obtain ⟨c, hc⟩ := Wire.exists_char (v := a.toNat) (by omega)
    refine ⟨c, ?_⟩
    rw [← hc, pointBytes, if_pos ha, UInt8.ofNat_toNat]
  | @two a b ha hb =>
    obtain ⟨hb, hb'⟩ := hb
    obtain ⟨c, hc⟩ := Wire.exists_char (v := (a.toNat - 0xC0) * 64 + (b.toNat - 0x80)) (by omega)
    refine ⟨c, ?_⟩
    rw [← hc, pointBytes, if_neg (by omega), if_pos (by omega), eq_ofNat (b := a) (by omega),
      eq_ofNat (b := b) (by omega)]
  | @three a b c ha hb hc hl hhg =>
    obtain ⟨hb, hb'⟩ := hb
    obtain ⟨hc, hc'⟩ := hc
    obtain ⟨char, hch⟩ := Wire.exists_char
      (v := (a.toNat - 0xE0) * 4096 + (b.toNat - 0x80) * 64 + (c.toNat - 0x80)) (by omega)
    refine ⟨char, ?_⟩
    rw [← hch, pointBytes, if_neg (by omega), if_neg (by omega), if_pos (by omega),
      eq_ofNat (b := a) (by omega), eq_ofNat (b := b) (by omega), eq_ofNat (b := c) (by omega)]
  | @four a b c d ha hb hc hd hl hhg =>
    obtain ⟨hb, hb'⟩ := hb
    obtain ⟨hc, hc'⟩ := hc
    obtain ⟨hd, hd'⟩ := hd
    obtain ⟨char, hch⟩ := Wire.exists_char (v := (a.toNat - 0xF0) * 262144 +
      (b.toNat - 0x80) * 4096 + (c.toNat - 0x80) * 64 + (d.toNat - 0x80)) (by omega)
    refine ⟨char, ?_⟩
    rw [← hch, pointBytes, if_neg (by omega), if_neg (by omega), if_neg (by omega),
      eq_ofNat (b := a) (by omega), eq_ofNat (b := b) (by omega), eq_ofNat (b := c) (by omega),
      eq_ofNat (b := d) (by omega)]

/-- Six bits in a byte inside a character. -/
theorem continues_ofNat (v : Nat) : Continues (.ofNat (v % 64 + 0x80)) := by
  have hlt : v % 64 + 0x80 < 256 := by omega
  rw [Continues, UInt8.toNat_ofNat_of_lt' hlt]
  omega

theorem charBytes_pointBytes {v : Nat} (h : v < 0xD800 ∨ 0xDFFF < v ∧ v < 0x110000) :
    CharBytes (pointBytes v) := by
  have hbt : ∀ n, n < 256 → (UInt8.ofNat n).toNat = n := fun n hn => UInt8.toNat_ofNat_of_lt' hn
  unfold pointBytes
  split
  · exact .one (by rw [hbt _ (by omega)]; omega)
  split
  · refine .two ?_ (continues_ofNat _)
    rw [hbt _ (by omega)]
    omega
  -- The second byte is bounded where the first one has the least or the greatest bits.
  split
  · refine .three ?_ (continues_ofNat _) (continues_ofNat _) ?_ ?_
    all_goals
      repeat rw [hbt _ (by omega)]
      omega
  refine .four ?_ (continues_ofNat _) (continues_ofNat _) (continues_ofNat _) ?_ ?_
  all_goals
    repeat rw [hbt _ (by omega)]
    omega

/-- The well-formed sequences of one character are the encodings of characters. -/
theorem charBytes_iff :
    CharBytes w ↔ ∃ c : Char, w = String.utf8EncodeChar c := by
  refine ⟨CharBytes.exists_char, ?_⟩
  rintro ⟨c, rfl⟩
  exact charBytes_pointBytes c.valid

/-! ## Texts -/

def utf8Bytes (chars : List Char) : List UInt8 := chars.flatMap String.utf8EncodeChar

/-- A text is well formed if and only if it is the encoding of characters. -/
theorem isUtf8_iff : isUtf8 bs = true ↔ ∃ chars, bs = utf8Bytes chars := by
  constructor
  · -- by the length: a character is at least one byte
    induction hn : bs.length using Nat.strong_induction_on generalizing bs with
    | _ n ih =>
      intro h
      cases bs with
      | nil => exact ⟨[], rfl⟩
      | cons a bs =>
        obtain ⟨w, rest, heq, hw, hrs⟩ := utf8From_split h
        have hlt : rest.length < n := by
          have hp : w ≠ [] := by
            rintro rfl
            cases hw
          have hl := congrArg List.length heq
          have := List.length_pos_iff.mpr hp
          rw [List.length_append] at hl
          omega
        obtain ⟨chars, hcr⟩ := ih rest.length hlt rfl hrs
        obtain ⟨c, hc⟩ := charBytes_iff.mp hw
        refine ⟨c :: chars, ?_⟩
        rw [heq, hc, hcr]
        rfl
  · rintro ⟨chars, rfl⟩
    induction chars with
    | nil => rfl
    | cons c chars ih =>
      have hch : CharBytes (String.utf8EncodeChar c) := charBytes_iff.mpr ⟨c, rfl⟩
      exact (utf8From_char hch _).trans ih

/-- The two high bits mark the bytes inside a character. -/
theorem continues_iff (b : UInt8) : b &&& 0xC0 = 0x80 ↔ Continues b := by
  have ha : ∀ n : Fin 256, UInt8.ofNat n.val &&& 0xC0 = 0x80 ↔ 0x80 ≤ n.val ∧ n.val ≤ 0xBF := by
    decide +kernel
  have hb := ha ⟨b.toNat, b.toNat_lt⟩
  rw [UInt8.ofNat_toNat] at hb
  exact hb

/-- One byte of a character starts it. -/
theorem count_starts_char (h : CharBytes w) :
    w.countP (fun b => b &&& 0xC0 ≠ 0x80) = 1 := by
  have hst : ∀ {b : UInt8}, b.toNat ≤ 0x7F ∨ 0xC2 ≤ b.toNat → b &&& 0xC0 ≠ 0x80 := by
    intro b hb hcn
    obtain ⟨hl, hhg⟩ := (continues_iff b).mp hcn
    omega
  have hin : ∀ {b : UInt8}, Continues b → ¬ b &&& 0xC0 ≠ 0x80 :=
    fun hb => not_not.mpr ((continues_iff _).mpr hb)
  cases h with
  | one ha => simp [hst (.inl ha)]
  | two ha hb => simp [hst (.inr ha.1), hin hb]
  | three ha hb hc hl hhg =>
    simp [hst (.inr (Nat.le_trans (by decide) ha.1)), hin hb, hin hc]
  | four ha hb hc hd hl hhg =>
    simp [hst (.inr (Nat.le_trans (by decide) ha.1)), hin hb, hin hc, hin hd]

/-- The bytes that are not inside a character count the characters. -/
theorem count_starts (chars : List Char) :
    (utf8Bytes chars).countP (fun b => b &&& 0xC0 ≠ 0x80) = chars.length := by
  induction chars with
  | nil => rfl
  | cons c chars ih =>
    have hch : CharBytes (String.utf8EncodeChar c) := charBytes_iff.mpr ⟨c, rfl⟩
    rw [utf8Bytes, List.flatMap_cons, List.countP_append, count_starts_char hch, Nat.add_comm]
    exact congrArg (· + 1) ih

end Wire
