/-
  CBOR as a library offers it: one codec for each kind of item, a way to skip an item and a look
  at the kind of the next one. `Cbor` is the interface, with what its documentation promises as
  fields: an encoded item decodes to its value, a decoder reads no further than its item, and the
  kind of the next item does not depend on what follows it.
  `Cbor.heads` is an implementation of the items with a definite length, for concrete runs. Its
  `skip` covers integers, simple values and strings.
-/
import AegisToken.Lib.Bytes
import AegisToken.Lib.Wire

namespace Wire
open ByteCodec

/-- A byte slice; its length is a machine word. -/
abbrev Slice := { bs : List UInt8 // bs.length < 2 ^ 64 }

/-- The ranges of the continuation bytes after a first byte of a UTF-8 character. -/
def utf8Tail (b : UInt8) : Option (List (UInt8 × UInt8)) :=
  if b ≤ 0x7F then some []
  else if 0xC2 ≤ b ∧ b ≤ 0xDF then some [(0x80, 0xBF)]
  else if b = 0xE0 then some [(0xA0, 0xBF), (0x80, 0xBF)]
  else if b = 0xED then some [(0x80, 0x9F), (0x80, 0xBF)]
  else if 0xE1 ≤ b ∧ b ≤ 0xEF then some [(0x80, 0xBF), (0x80, 0xBF)]
  else if b = 0xF0 then some [(0x90, 0xBF), (0x80, 0xBF), (0x80, 0xBF)]
  else if 0xF1 ≤ b ∧ b ≤ 0xF3 then some [(0x80, 0xBF), (0x80, 0xBF), (0x80, 0xBF)]
  else if b = 0xF4 then some [(0x80, 0x8F), (0x80, 0xBF), (0x80, 0xBF)]
  else none

/-- Well-formed UTF-8, with the ranges of the continuation bytes still to come. -/
def utf8From : List (UInt8 × UInt8) → List UInt8 → Bool
  | [], [] => true
  | _ :: _, [] => false
  | [], b :: bs =>
    match utf8Tail b with
    | some tail => utf8From tail bs
    | none => false
  | (lo, hi) :: tail, b :: bs => lo ≤ b && b ≤ hi && utf8From tail bs

def isUtf8 (bs : List UInt8) : Bool := utf8From [] bs

/-- A text by its UTF-8 bytes. -/
abbrev Text := { bs : Slice // isUtf8 bs.val = true }

/-- A signed 64-bit integer. -/
abbrev I64 := { z : Int // -2 ^ 63 ≤ z ∧ z < 2 ^ 63 }

/-- The kinds of items a caller tells apart. -/
inductive DataType where
  | bytes
  | string
  | null
  | other
deriving DecidableEq, Repr

/-- A CBOR encoder and decoder. A map or array header without a length starts one of indefinite
  length. -/
structure Cbor where
  u8 : Codec UInt8
  u32 : Codec UInt32
  u64 : Codec UInt64
  i64 : Codec I64
  bool : Codec Bool
  null : Codec Unit
  bytes : Codec Slice
  str : Codec Text
  map : Codec (Option UInt64)
  array : Codec (Option UInt64)
  skip : List UInt8 → Option (Unit × List UInt8)
  datatype : List UInt8 → Option DataType
  skip_delimited : ∀ inp v rest, skip inp = some (v, rest) →
    ∃ used, inp = used ++ rest ∧ ∀ r, skip (used ++ r) = some (v, r)
  datatype_null : ∀ r, datatype (null.encode () ++ r) = some .null
  datatype_bytes : ∀ b r, datatype (bytes.encode b ++ r) = some .bytes
  datatype_u8 : ∀ used v r, u8.decode used = some (v, []) → datatype (used ++ r) = datatype used
  datatype_str : ∀ used v r, str.decode used = some (v, []) → datatype (used ++ r) = datatype used
  datatype_map : ∀ used v r, map.decode used = some (v, []) → datatype (used ++ r) = datatype used

/-! ## Heads -/

/-- An item's head: major type and argument, in the shortest form. -/
def encHead (m n : Nat) : List UInt8 :=
  if n < 24 then [UInt8.ofNat (m * 32 + n)]
  else if n < 2 ^ 8 then UInt8.ofNat (m * 32 + 24) :: toBE 1 n
  else if n < 2 ^ 16 then UInt8.ofNat (m * 32 + 25) :: toBE 2 n
  else if n < 2 ^ 32 then UInt8.ofNat (m * 32 + 26) :: toBE 4 n
  else UInt8.ofNat (m * 32 + 27) :: toBE 8 n

/-- The number of argument bytes after a first byte with this additional information. -/
def argWidth : Nat → Option Nat
  | 24 => some 1
  | 25 => some 2
  | 26 => some 4
  | 27 => some 8
  | _ => none

def head : Parser Unit (Nat × Nat) :=
  takeByte >>= fun b =>
    if b.toNat % 32 < 24 then pure (b.toNat / 32, b.toNat % 32)
    else
      match argWidth (b.toNat % 32) with
      | none => reject ()
      | some k => takeN k >>= fun bs => pure (b.toNat / 32, ofBE bs)

theorem delimited_head : Delimited head := by
  refine delimited_takeByte.bind fun b => ?_
  refine (delimited_pure _).ite ?_
  split
  · exact delimited_reject ()
  · exact (delimited_takeN _).bind fun _ => delimited_pure _

private theorem head_wide {m n a k : Nat} (hm : m < 8) (ha : a < 32) (h24 : ¬ a < 24)
    (hk : argWidth a = some k) (hn : n < 256 ^ k) (r : List UInt8) :
    head (UInt8.ofNat (m * 32 + a) :: toBE k n ++ r) = .ok ((m, n), r) := by
  have hb : (UInt8.ofNat (m * 32 + a)).toNat = m * 32 + a := by
    rw [UInt8.toNat_ofNat']
    omega
  have hmd : (m * 32 + a) % 32 = a := by omega
  have hd : (m * 32 + a) / 32 = m := by omega
  have htk : takeByte (UInt8.ofNat (m * 32 + a) :: (toBE k n ++ r)) =
      .ok (UInt8.ofNat (m * 32 + a), toBE k n ++ r) := rfl
  rw [List.cons_append, head, bind_ok htk, hb, hmd, hd, if_neg h24, hk]
  show (takeN k >>= fun bs => pure (m, ofBE bs)) (toBE k n ++ r) = _
  rw [bind_ok (takeN_append r (length_toBE k n)), ofBE_toBE hn]
  rfl

variable {m n : Nat}

theorem head_encHead (hm : m < 8) (hn : n < 2 ^ 64) (r : List UInt8) :
    head (encHead m n ++ r) = .ok ((m, n), r) := by
  unfold encHead
  by_cases h24 : n < 24
  · have hb : (UInt8.ofNat (m * 32 + n)).toNat = m * 32 + n := by
      rw [UInt8.toNat_ofNat']
      omega
    have htk : takeByte (UInt8.ofNat (m * 32 + n) :: r) = .ok (UInt8.ofNat (m * 32 + n), r) := rfl
    rw [if_pos h24, List.singleton_append, head, bind_ok htk, hb,
      show (m * 32 + n) % 32 = n by omega, show (m * 32 + n) / 32 = m by omega, if_pos h24]
    rfl
  rw [if_neg h24]
  by_cases h8 : n < 2 ^ 8
  · rw [if_pos h8]
    exact head_wide hm (by decide) (by decide) rfl (by omega) r
  rw [if_neg h8]
  by_cases h16 : n < 2 ^ 16
  · rw [if_pos h16]
    exact head_wide hm (by decide) (by decide) rfl (by omega) r
  rw [if_neg h16]
  by_cases h32 : n < 2 ^ 32
  · rw [if_pos h32]
    exact head_wide hm (by decide) (by decide) rfl (by omega) r
  · rw [if_neg h32]
    exact head_wide hm (by decide) (by decide) rfl (by omega) r

/-! ## Items -/

variable {α : Type}

theorem Delimited.toOption {p : Parser Unit α} (hd : Delimited p) :
    ∀ inp v rest, (p inp).toOption = some (v, rest) →
      ∃ used, inp = used ++ rest ∧ ∀ r, (p (used ++ r)).toOption = some (v, r) := by
  intro inp v rest h
  rcases hp : p inp with e | x
  · rw [hp] at h
    cases h
  rw [hp] at h
  obtain rfl : x = (v, rest) := Option.some.inj h
  obtain ⟨used, hin, hu⟩ := hd inp v rest hp
  exact ⟨used, hin, fun r => by rw [hu r]; rfl⟩

/-- A codec from a delimited parser that reads back the encoder's output. -/
def Codec.ofParser {α : Type} (enc : α → List UInt8) (p : Parser Unit α) (hd : Delimited p)
    (hr : ∀ v r, p (enc v ++ r) = .ok (v, r)) : Codec α where
  encode := enc
  decode := fun inp => (p inp).toOption
  decode_encode := fun v r => by rw [hr v r]; rfl
  delimited := hd.toOption

/-- An item that is all head. -/
def scalar {α : Type} (f : Nat × Nat → Option α) : Parser Unit α :=
  head >>= fun h =>
    match f h with
    | some a => pure a
    | none => reject ()

theorem delimited_scalar (f : Nat × Nat → Option α) : Delimited (scalar f) := by
  refine delimited_head.bind fun h => ?_
  split
  · exact delimited_pure _
  · exact delimited_reject ()

theorem scalar_encHead {f : Nat × Nat → Option α} {a : α} (hm : m < 8)
    (hn : n < 2 ^ 64) (hf : f (m, n) = some a) (r : List UInt8) :
    scalar f (encHead m n ++ r) = .ok (a, r) := by
  rw [scalar, bind_ok (head_encHead hm hn r), hf]
  rfl

/-- A string item of major type `m`. -/
def strBody (m : Nat) : Parser Unit Slice :=
  head >>= fun h =>
    if h.1 = m then
      takeN h.2 >>= fun bs => if hlen : bs.length < 2 ^ 64 then pure ⟨bs, hlen⟩ else reject ()
    else reject ()

theorem delimited_strBody (m : Nat) : Delimited (strBody m) := by
  refine delimited_head.bind fun h => ?_
  refine Delimited.ite ((delimited_takeN _).bind fun bs => ?_) (delimited_reject ())
  split
  · exact delimited_pure _
  · exact delimited_reject ()

theorem strBody_encode (hm : m < 8) (v : Slice) (r : List UInt8) :
    strBody m (encHead m v.val.length ++ v.val ++ r) = .ok (v, r) := by
  rw [List.append_assoc, strBody, bind_ok (head_encHead hm v.property _), if_pos rfl,
    bind_ok (takeN_append r rfl), dif_pos v.property]
  rfl

/-- A text item: a string of major type 3 whose bytes are UTF-8. -/
def textBody : Parser Unit Text :=
  strBody 3 >>= fun bs => if h : isUtf8 bs.val = true then pure ⟨bs, h⟩ else reject ()

theorem delimited_textBody : Delimited textBody := by
  refine (delimited_strBody 3).bind fun bs => ?_
  split
  · exact delimited_pure _
  · exact delimited_reject ()

theorem textBody_encode (v : Text) (r : List UInt8) :
    textBody (encHead 3 v.val.val.length ++ v.val.val ++ r) = .ok (v, r) := by
  rw [textBody, bind_ok (strBody_encode (by decide) v.val r), dif_pos v.property]
  rfl

/-- A map or array header: the byte `start` for indefinite length, or a head with the length. -/
def header (m : Nat) (start : UInt8) : Parser Unit (Option UInt64) := fun inp =>
  match inp with
  | [] => .error ()
  | b :: r =>
    if b = start then .ok (none, r)
    else scalar (fun h => if h.1 = m then some (some (UInt64.ofNat h.2)) else none) (b :: r)

theorem delimited_header (m : Nat) (start : UInt8) : Delimited (header m start) := by
  intro inp v rest h
  rcases inp with _ | ⟨b, r⟩
  · cases h
  unfold header at h
  by_cases hb : b = start
  · simp only [if_pos hb] at h
    cases h
    exact ⟨[b], rfl, fun r => by simp only [header, List.singleton_append, if_pos hb]⟩
  simp only [if_neg hb] at h
  obtain ⟨used, hin, hu⟩ := delimited_scalar _ _ _ _ h
  rcases used with _ | ⟨c, used⟩
  · have h0 := hu []
    cases h0
  obtain rfl : b = c := by simpa using (List.cons.inj hin).1
  exact ⟨b :: used, hin, fun r => by
    simp only [header, List.cons_append, if_neg hb]
    exact hu r⟩

theorem encHead_ne_nil (m n : Nat) : encHead m n ≠ [] := by
  unfold encHead
  intro h
  split at h
  · cases h
  split at h
  · cases h
  · split at h
    · cases h
    · split at h <;> cases h

/-- The first byte of a head shows its major type and is never that of an indefinite item. -/
theorem encHead_first (hm : m < 8) {b : UInt8} {bs : List UInt8}
    (h : encHead m n = b :: bs) : b.toNat / 32 = m ∧ b.toNat % 32 < 28 := by
  have first : ∀ a, a < 28 → (UInt8.ofNat (m * 32 + a)).toNat / 32 = m ∧
      (UInt8.ofNat (m * 32 + a)).toNat % 32 < 28 := by
    intro a ha
    rw [UInt8.toNat_ofNat']
    omega
  unfold encHead at h
  split at h
  · obtain ⟨rfl, -⟩ := List.cons.inj h
    exact first n (by omega)
  split at h
  · obtain ⟨rfl, -⟩ := List.cons.inj h
    exact first 24 (by decide)
  split at h
  · obtain ⟨rfl, -⟩ := List.cons.inj h
    exact first 25 (by decide)
  split at h
  · obtain ⟨rfl, -⟩ := List.cons.inj h
    exact first 26 (by decide)
  · obtain ⟨rfl, -⟩ := List.cons.inj h
    exact first 27 (by decide)

theorem header_encode {start : UInt8} (hm : m < 8) (hs : 28 ≤ start.toNat % 32) (n : UInt64)
    (r : List UInt8) : header m start (encHead m n.toNat ++ r) = .ok (some n, r) := by
  rcases hh : encHead m n.toNat with _ | ⟨b, bs⟩
  · exact absurd hh (encHead_ne_nil m _)
  have hne : b ≠ start := by
    rintro rfl
    exact Nat.not_lt.mpr hs (encHead_first hm hh).2
  rw [List.cons_append, header, if_neg hne, ← List.cons_append, ← hh]
  refine scalar_encHead hm n.toNat_lt ?_ r
  rw [if_pos rfl, UInt64.ofNat_toNat]

/-! ## The implementation -/

/-- Unsigned integers below `bound`. -/
def uintOf {α : Type} (bound : Nat) (ofNat : Nat → α) (h : Nat × Nat) : Option α :=
  if h.1 = 0 ∧ h.2 < bound then some (ofNat h.2) else none

/-- Signed integers: major type 0, or 1 for `-1 - n`. -/
def i64Of (h : Nat × Nat) : Option I64 :=
  if hn : h.2 < 2 ^ 63 then
    if h.1 = 0 then some ⟨h.2, by omega⟩
    else if h.1 = 1 then some ⟨-1 - h.2, by omega⟩
    else none
  else none

/-- Truth values: simple values 20 and 21. -/
def boolOf (h : Nat × Nat) : Option Bool :=
  if h = (7, 20) then some false else if h = (7, 21) then some true else none

/-- The null value: simple value 22. -/
def nullOf (h : Nat × Nat) : Option Unit := if h = (7, 22) then some () else none

/-- Skip an integer, a simple value or a string. -/
def skipItem : Parser Unit Unit :=
  head >>= fun h =>
    if h.1 = 2 ∨ h.1 = 3 then takeN h.2 >>= fun _ => pure ()
    else if h.1 = 0 ∨ h.1 = 1 ∨ h.1 = 7 then pure ()
    else reject ()

theorem delimited_skipItem : Delimited skipItem := by
  refine delimited_head.bind fun h => ?_
  exact Delimited.ite ((delimited_takeN _).bind fun _ => delimited_pure ())
    (Delimited.ite (delimited_pure ()) (delimited_reject ()))

/-- The kind an item's first byte shows. -/
def kindOf (b : UInt8) : DataType :=
  if b.toNat / 32 = 2 ∧ b ≠ 0x5F then .bytes
  else if b.toNat / 32 = 3 ∧ b ≠ 0x7F then .string
  else if b = 0xF6 then .null
  else .other

def peekKind : List UInt8 → Option DataType
  | [] => none
  | b :: _ => some (kindOf b)

theorem peekKind_append {used : List UInt8} (h : used ≠ []) (r : List UInt8) :
    peekKind (used ++ r) = peekKind used := by
  rcases used with _ | ⟨b, used⟩
  · exact absurd rfl h
  · rfl

private theorem used_ne_nil {p : Parser Unit α} (hp : p [] = .error ())
    {used : List UInt8} {v : α} (h : (p used).toOption = some (v, [])) : used ≠ [] := by
  rintro rfl
  rw [hp] at h
  cases h

/-- Items with a definite length, by their heads. -/
def Cbor.heads : Cbor where
  u8 := .ofParser (fun v => encHead 0 v.toNat) (scalar (uintOf (2 ^ 8) UInt8.ofNat))
    (delimited_scalar _) fun v r => scalar_encHead (by decide)
      (by have := v.toNat_lt; omega) (by simp [uintOf, v.toNat_lt]) r
  u32 := .ofParser (fun v => encHead 0 v.toNat) (scalar (uintOf (2 ^ 32) UInt32.ofNat))
    (delimited_scalar _) fun v r => scalar_encHead (by decide)
      (by have := v.toNat_lt; omega) (by simp [uintOf, v.toNat_lt]) r
  u64 := .ofParser (fun v => encHead 0 v.toNat) (scalar (uintOf (2 ^ 64) UInt64.ofNat))
    (delimited_scalar _) fun v r => scalar_encHead (by decide) v.toNat_lt
      (by simp [uintOf, v.toNat_lt]) r
  i64 := .ofParser
    (fun z => if 0 ≤ z.val then encHead 0 z.val.toNat else encHead 1 (-1 - z.val).toNat)
    (scalar i64Of) (delimited_scalar _) fun z r => by
      obtain ⟨z, hlo, hhi⟩ := z
      dsimp only
      split
      · refine scalar_encHead (by decide) (by omega) ?_ r
        simp only [i64Of]
        rw [dif_pos (by omega), if_pos trivial]
        exact congrArg some (Subtype.ext (by simp only; omega))
      refine scalar_encHead (by decide) (by omega) ?_ r
      simp only [i64Of]
      rw [dif_pos (by omega), if_neg nofun, if_pos trivial]
      exact congrArg some (Subtype.ext (by simp only; omega))
  bool := .ofParser (fun v => encHead 7 (if v then 21 else 20)) (scalar boolOf)
    (delimited_scalar _) fun v r => by
      cases v <;> exact scalar_encHead (by decide) (by decide) (by decide) r
  null := .ofParser (fun _ => encHead 7 22) (scalar nullOf) (delimited_scalar _) fun _ r =>
    scalar_encHead (by decide) (by decide) (show nullOf (7, 22) = some () from rfl) r
  bytes := .ofParser (fun v => encHead 2 v.val.length ++ v.val) (strBody 2) (delimited_strBody 2)
    (strBody_encode (by decide))
  str := .ofParser (fun v => encHead 3 v.val.val.length ++ v.val.val) textBody delimited_textBody
    textBody_encode
  map := .ofParser (fun o => match o with
      | some n => encHead 5 n.toNat
      | none => [0xBF]) (header 5 0xBF) (delimited_header 5 0xBF) fun o r => by
    rcases o with _ | n
    · rfl
    exact header_encode (by decide) (by decide) n r
  array := .ofParser (fun o => match o with
      | some n => encHead 4 n.toNat
      | none => [0x9F]) (header 4 0x9F) (delimited_header 4 0x9F) fun o r => by
    rcases o with _ | n
    · rfl
    exact header_encode (by decide) (by decide) n r
  skip := fun inp => (skipItem inp).toOption
  datatype := peekKind
  skip_delimited := delimited_skipItem.toOption
  datatype_null := fun r => rfl
  datatype_bytes := fun v r => by
    show peekKind (encHead 2 v.val.length ++ v.val ++ r) = some .bytes
    rcases hh : encHead 2 v.val.length with _ | ⟨b, bs⟩
    · exact absurd hh (encHead_ne_nil 2 _)
    obtain ⟨hmajor, harg⟩ := encHead_first (by decide) hh
    have hne : b ≠ 0x5F := by
      rintro rfl
      exact absurd harg nofun
    simp only [List.cons_append, peekKind, kindOf]
    rw [if_pos ⟨hmajor, hne⟩]
  datatype_u8 := fun used v r h => peekKind_append (used_ne_nil rfl h) r
  datatype_str := fun used v r h => peekKind_append (used_ne_nil rfl h) r
  datatype_map := fun used v r h => peekKind_append (used_ne_nil rfl h) r

/-! ## Shortest forms -/

/-- The number of bytes of the shortest head with this argument. -/
def headLen (n : Nat) : Nat :=
  if n < 24 then 1
  else if n < 2 ^ 8 then 2
  else if n < 2 ^ 16 then 3
  else if n < 2 ^ 32 then 5
  else 9

theorem headLen_mono (h : m ≤ n) : headLen m ≤ headLen n := by
  unfold headLen
  split_ifs <;> omega

theorem length_encHead (m n : Nat) : (encHead m n).length = headLen n := by
  unfold encHead headLen
  split_ifs <;> simp [length_toBE]

/-- The encoder writes every item with the shortest head. -/
structure Cbor.Minimal (C : Cbor) : Prop where
  u8 : ∀ v, (C.u8.encode v).length = headLen v.toNat
  u32 : ∀ v, (C.u32.encode v).length = headLen v.toNat
  u64 : ∀ v, (C.u64.encode v).length = headLen v.toNat
  i64 : ∀ z, (C.i64.encode z).length =
    headLen (if 0 ≤ z.val then z.val.toNat else (-1 - z.val).toNat)
  bool : ∀ v, (C.bool.encode v).length = 1
  null : (C.null.encode ()).length = 1
  bytes : ∀ v, (C.bytes.encode v).length = headLen v.val.length + v.val.length
  str : ∀ v, (C.str.encode v).length = headLen v.val.val.length + v.val.val.length
  map : ∀ n, (C.map.encode (some n)).length = headLen n.toNat
  array : ∀ n, (C.array.encode (some n)).length = headLen n.toNat

theorem Cbor.heads_minimal : Cbor.heads.Minimal where
  u8 v := length_encHead 0 v.toNat
  u32 v := length_encHead 0 v.toNat
  u64 v := length_encHead 0 v.toNat
  i64 z := by
    change (if 0 ≤ z.val then encHead 0 z.val.toNat else encHead 1 (-1 - z.val).toNat).length = _
    split
    · exact length_encHead 0 _
    · exact length_encHead 1 _
  bool v := by
    cases v
    · exact length_encHead 7 20
    · exact length_encHead 7 21
  null := length_encHead 7 22
  bytes v := by
    change (encHead 2 v.val.length ++ v.val).length = _
    rw [List.length_append, length_encHead]
  str v := by
    change (encHead 3 v.val.val.length ++ v.val.val).length = _
    rw [List.length_append, length_encHead]
  map n := length_encHead 5 n.toNat
  array n := length_encHead 4 n.toNat

end Wire
