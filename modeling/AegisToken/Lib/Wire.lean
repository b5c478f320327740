/-
  Parsers that read from the front of a byte string, and codecs.
  A parser is delimited when what it accepts depends only on the bytes it consumes: the same bytes
  in front of any other rest give the same value. `Delimited` is closed under the ways parsers are
  put together here: return, sequence, a conditional, and a loop of a given number of turns.
  A `Codec` is an encoder with a delimited parser that reads back what was encoded.
-/
import Mathlib.Data.List.Basic

namespace Wire

variable {ε α β σ : Type}

/-- A parser with an error: a value and the bytes left over. -/
abbrev Parser (ε α : Type) := StateT (List UInt8) (Except ε) α

/-- What the parser accepts depends only on the bytes it consumes. -/
def Delimited (p : Parser ε α) : Prop :=
  ∀ inp v rest, p inp = .ok (v, rest) →
    ∃ used, inp = used ++ rest ∧ ∀ r, p (used ++ r) = .ok (v, r)

/-- A reader of a third party, failing with the error `e`. -/
def orErr (p : List UInt8 → Option (α × List UInt8)) (e : ε) : Parser ε α := fun inp =>
  match p inp with
  | some x => .ok x
  | none => .error e

/-- Look at the input without consuming it. -/
def peek (f : List UInt8 → Option α) (e : ε) : Parser ε α := fun inp =>
  match f inp with
  | some v => .ok (v, inp)
  | none => .error e

/-- The value and the bytes consumed for it. -/
def consumed (p : Parser ε α) : Parser ε (α × List UInt8) := fun inp =>
  match p inp with
  | .ok (v, rest) => .ok ((v, inp.take (inp.length - rest.length)), rest)
  | .error e => .error e

def reject (e : ε) : Parser ε α := fun _ => .error e

/-- `n` turns of a loop that carries a value. -/
def turns (step : σ → Parser ε σ) : Nat → σ → Parser ε σ
  | 0, s => pure s
  | n + 1, s => step s >>= turns step n

variable {p : List UInt8 → Option (α × List UInt8)} {step : σ → Parser ε σ} {inp rest : List UInt8}
  {k : α → Parser ε β} {v : α} {e : ε}

theorem orErr_some {x : α × List UInt8} (h : p inp = some x) : orErr p e inp = .ok x := by
  simp only [orErr, h]

theorem orErr_eq_ok {x : α × List UInt8} : orErr p e inp = .ok x ↔ p inp = some x := by
  unfold orErr
  rcases p inp with _ | y <;> simp

theorem bind_ok {p : Parser ε α} (h : p inp = .ok (v, rest)) : (p >>= k) inp = k v rest := by
  show (p inp >>= fun x => k x.1 x.2) = _
  rw [h]
  rfl

theorem bind_error {p : Parser ε α} (h : p inp = .error e) :
    (p >>= k) inp = .error e := by
  show (p inp >>= fun x => k x.1 x.2) = _
  rw [h]
  rfl

theorem bind_eq_ok {p : Parser ε α} {y : β × List UInt8} (h : (p >>= k) inp = .ok y) :
    ∃ v rest, p inp = .ok (v, rest) ∧ k v rest = .ok y := by
  rcases hp : p inp with e | ⟨v, rest⟩
  · rw [bind_error hp] at h
    cases h
  · exact ⟨v, rest, rfl, (bind_ok hp).symm.trans h⟩

/-- One turn after another, on an input that is laid out turn by turn. -/
theorem turns_succ {n : Nat} {s s' : σ} (h : step s inp = .ok (s', rest)) :
    turns step (n + 1) s inp = turns step n s' rest :=
  bind_ok h

theorem peek_bind {f : List UInt8 → Option α} (h : f inp = some v) (k : α → Parser ε β) :
    (peek f e >>= k) inp = k v inp :=
  bind_ok (by rw [peek, h])

/-! ## Delimited parsers -/

theorem delimited_pure (v : α) : Delimited (pure v : Parser ε α) := by
  intro inp v' rest h
  cases h
  exact ⟨[], rfl, fun _ => rfl⟩

theorem delimited_reject (e : ε) : Delimited (reject e : Parser ε α) := by
  intro inp v rest h
  cases h

theorem Delimited.bind {p : Parser ε α} (hp : Delimited p) (hk : ∀ v, Delimited (k v)) :
    Delimited (p >>= k) := by
  intro inp w rest h
  obtain ⟨v, mid, h1, h2⟩ := bind_eq_ok h
  obtain ⟨used1, rfl, hu1⟩ := hp inp v mid h1
  obtain ⟨used2, rfl, hu2⟩ := hk v mid w rest h2
  refine ⟨used1 ++ used2, (List.append_assoc _ _ _).symm, fun r => ?_⟩
  rw [List.append_assoc, bind_ok (hu1 _)]
  exact hu2 r

theorem Delimited.ite {c : Prop} [Decidable c] {p q : Parser ε α} (hp : Delimited p)
    (hq : Delimited q) : Delimited (if c then p else q) := by
  split
  · exact hp
  · exact hq

theorem Delimited.turns (h : ∀ s, Delimited (step s)) (n : Nat) (s : σ) :
    Delimited (Wire.turns step n s) := by
  induction n generalizing s with
  | zero => exact delimited_pure s
  | succ n ih => exact (h s).bind ih

/-- Looking ahead is harmless when what is seen stays the same behind any rest. -/
theorem Delimited.peek {f : List UInt8 → Option α} (hk : ∀ v, Delimited (k v))
    (hf : ∀ v used w, (∀ r, k v (used ++ r) = .ok (w, r)) → ∀ r r', f (used ++ r) = f (used ++ r')) :
    Delimited (Wire.peek f e >>= k) := by
  intro inp w rest h
  obtain ⟨v, mid, h1, h2⟩ := bind_eq_ok h
  unfold Wire.peek at h1
  rcases hv : f inp with _ | v'
  · rw [hv] at h1
    cases h1
  rw [hv] at h1
  cases h1
  obtain ⟨used, rfl, hu⟩ := hk _ _ w rest h2
  refine ⟨used, rfl, fun r => ?_⟩
  rw [peek_bind ((hf _ used w hu r rest).trans hv)]
  exact hu r

/-- The consumed bytes give the same value in front of any rest. -/
theorem consumed_ok {p : Parser ε α} (hp : Delimited p) {inp raw rest : List UInt8}
    (h : consumed p inp = .ok ((v, raw), rest)) :
    inp = raw ++ rest ∧ ∀ r, p (raw ++ r) = .ok (v, r) := by
  unfold consumed at h
  rcases hpi : p inp with e | ⟨v', rest'⟩
  · rw [hpi] at h
    cases h
  rw [hpi] at h
  cases h
  obtain ⟨used, rfl, hu⟩ := hp inp _ _ hpi
  have htk : (used ++ rest).take ((used ++ rest).length - rest.length) = used := by simp
  rw [htk]
  exact ⟨rfl, hu⟩

theorem consumed_eq {p : Parser ε α} {raw : List UInt8} (h : ∀ r, p (raw ++ r) = .ok (v, r))
    (r : List UInt8) :
    consumed p (raw ++ r) = .ok ((v, raw), r) := by
  simp [consumed, h r]

theorem turns_keep {I : σ → Prop} (hst : ∀ s inp s' rest, I s → step s inp = .ok (s', rest) → I s')
    {n : Nat} {s s' : σ} (hs : I s) (h : turns step n s inp = .ok (s', rest)) : I s' := by
  induction n generalizing s inp with
  | zero =>
    cases h
    exact hs
  | succ n ih =>
    obtain ⟨s₁, mid, h1, h2⟩ := bind_eq_ok h
    exact ih (hst s inp s₁ mid hs h1) h2

/-- A loop that carries more, seen without it. -/
theorem turns_map {σ' : Type} {f : σ' → σ} {step' : σ' → Parser ε σ'}
    (h : ∀ s inp, (step' s inp).map (Prod.map f id) = step (f s) inp) (n : Nat) (s : σ')
    (inp : List UInt8) :
    (turns step' n s inp).map (Prod.map f id) = turns step n (f s) inp := by
  induction n generalizing s inp with
  | zero => rfl
  | succ n ih =>
    have hs := h s inp
    rcases hst : step' s inp with e | ⟨s₁, rest⟩
    · rw [hst] at hs
      unfold turns
      rw [bind_error hst, bind_error hs.symm]
      rfl
    · rw [hst] at hs
      rw [turns_succ hst, turns_succ hs.symm]
      exact ih s₁ rest

/-! ## Fixed-width pieces -/

def takeN (n : Nat) : Parser Unit (List UInt8) := fun inp =>
  if inp.length < n then .error () else .ok (inp.take n, inp.drop n)

def takeByte : Parser Unit UInt8 := fun inp =>
  match inp with
  | [] => .error ()
  | b :: r => .ok (b, r)

theorem delimited_takeN (n : Nat) : Delimited (takeN n) := by
  intro inp v rest h
  unfold takeN at h
  split at h
  · cases h
  cases h
  refine ⟨inp.take n, (List.take_append_drop n inp).symm, fun r => ?_⟩
  have hl : (inp.take n).length = n := by rw [List.length_take]; omega
  rw [takeN, if_neg (by rw [List.length_append]; omega), List.take_left' hl, List.drop_left' hl]

theorem delimited_takeByte : Delimited takeByte := by
  intro inp v rest h
  rcases inp with _ | ⟨b, r⟩
  · cases h
  · cases h
    exact ⟨[v], rfl, fun _ => rfl⟩

theorem takeN_append {n : Nat} {bs : List UInt8} (r : List UInt8) (h : bs.length = n) :
    takeN n (bs ++ r) = .ok (bs, r) := by
  rw [takeN, if_neg (by rw [List.length_append]; omega), List.take_left' h, List.drop_left' h]

/-! ## Codecs -/

/-- An encoder and a delimited parser that reads back what was encoded. -/
structure Codec (α : Type) where
  encode : α → List UInt8
  decode : List UInt8 → Option (α × List UInt8)
  decode_encode : ∀ v r, decode (encode v ++ r) = some (v, r)
  delimited : ∀ inp v rest, decode inp = some (v, rest) →
    ∃ used, inp = used ++ rest ∧ ∀ r, decode (used ++ r) = some (v, r)

/-- The codec's parser, failing with `e`. -/
def Codec.parse (c : Codec α) (e : ε) : Parser ε α := orErr c.decode e

theorem Codec.parse_encode (c : Codec α) (e : ε) (v : α) (r : List UInt8) :
    c.parse e (c.encode v ++ r) = .ok (v, r) := orErr_some (c.decode_encode v r)

@[simp] theorem Codec.parse_bind_encode (c : Codec α) (e : ε) (k : α → Parser ε β) (v : α)
    (r : List UInt8) : (c.parse e >>= k) (c.encode v ++ r) = k v r :=
  bind_ok (c.parse_encode e v r)

theorem delimited_orErr
    (h : ∀ inp v rest, p inp = some (v, rest) →
      ∃ used, inp = used ++ rest ∧ ∀ r, p (used ++ r) = some (v, r))
    (e : ε) :
    Delimited (orErr p e) := by
  intro inp v rest hp
  obtain ⟨used, rfl, hu⟩ := h inp v rest (orErr_eq_ok.mp hp)
  exact ⟨used, rfl, fun r => orErr_some (hu r)⟩

theorem Codec.delimited_parse (c : Codec α) (e : ε) : Delimited (c.parse e) :=
  delimited_orErr c.delimited e

/-- An item takes at least one byte, unless there is only one value. -/
theorem Codec.used_ne_nil (c : Codec α) {v w : α} (hvw : v ≠ w) {used : List UInt8} {u : α}
    (h : ∀ r, c.decode (used ++ r) = some (u, r)) : used ≠ [] := by
  rintro rfl
  have value : ∀ x, x = u := by
    intro x
    have hx := c.decode_encode x []
    rw [List.append_nil] at hx
    have hu := (h (c.encode x)).symm.trans hx
    exact (congrArg Prod.fst (Option.some.inj hu)).symm
  exact hvw ((value v).trans (value w).symm)

/-- What a look ahead sees in an item does not depend on what follows it. -/
theorem Codec.peek_stable {c : Codec α} {f : List UInt8 → Option β} {γ : Type} {k : α → Parser ε γ}
    (hf : ∀ used v r, c.decode used = some (v, []) → f (used ++ r) = f used) {used : List UInt8}
    {w : γ} (h : ∀ r, (c.parse e >>= k) (used ++ r) = .ok (w, r)) (r r' : List UInt8) :
    f (used ++ r) = f (used ++ r') := by
  obtain ⟨v, mid, h1, h2⟩ := bind_eq_ok (h [])
  obtain ⟨first, hfr, hd⟩ := c.delimited _ v mid (orErr_eq_ok.mp h1)
  rw [List.append_nil] at hfr
  have hie : c.decode first = some (v, []) := by
    have := hd []
    rwa [List.append_nil] at this
  rw [hfr, List.append_assoc, List.append_assoc, hf first v _ hie, hf first v _ hie]

/-! ## Keyed entries -/

/-- One entry of a map: a key, and a value that is read as the key says. -/
def keyed {κ : Type} (key : Codec κ) (e : ε) (field : σ → κ → Parser ε σ) (s : σ) : Parser ε σ :=
  key.parse e >>= field s

theorem Delimited.keyed {κ : Type} (key : Codec κ) (e : ε) {field : σ → κ → Parser ε σ} {s : σ}
    (h : ∀ k, Delimited (field s k)) : Delimited (keyed key e field s) :=
  (key.delimited_parse e).bind h

section Keyed
variable {κ : Type} {key : Codec κ} {e : ε} {field : σ → κ → Parser ε σ} {s s' : σ} {k : κ} {n : Nat}

theorem turns_keyed {value : List UInt8} (h : ∀ r, field s k (value ++ r) = .ok (s', r))
    (r : List UInt8) :
    turns (keyed key e field) (n + 1) s (key.encode k ++ (value ++ r)) =
      turns (keyed key e field) n s' r := by
  refine turns_succ ?_
  rw [keyed, Codec.parse_bind_encode]
  exact h r

/-- One turn over an entry whose value is a single item. -/
theorem turns_keyed_codec (c : Codec α) {f : α → Parser ε σ} (hf : field s k = c.parse e >>= f)
    (hv : f v = pure s') (r : List UInt8) :
    turns (keyed key e field) (n + 1) s (key.encode k ++ (c.encode v ++ r)) =
      turns (keyed key e field) n s' r := by
  refine turns_keyed (fun r => ?_) r
  rw [hf, Codec.parse_bind_encode, hv]
  rfl

end Keyed

end Wire
