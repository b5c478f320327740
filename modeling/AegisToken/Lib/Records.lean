/-
  Records of fields in fixed widths.
  A record is written as a sequence of pieces into a buffer of a given capacity, and a piece that
  does not fit is dropped; pieces that fit together are all written. A value that is shorter than
  its field is followed by zero bytes. The lemmas read such fields back.
-/
import AegisToken.Lib.Bytes
import AegisToken.Lib.Wire

namespace Wire
open ByteCodec

/-! ## Writing -/

/-- `extend_from_slice` into a buffer of `cap` bytes, its error ignored. -/
def extendTo (cap : Nat) (out bytes : List UInt8) : List UInt8 :=
  if out.length + bytes.length ≤ cap then out ++ bytes else out

/-- The zero bytes that fill a value up to its width, pushed one by one. -/
def zeroPieces (len width : Nat) : List (List UInt8) := List.replicate (width - len) [0]

theorem foldl_extendTo {cap : Nat} {pieces : List (List UInt8)} {out : List UInt8}
    (h : out.length + pieces.flatten.length ≤ cap) :
    pieces.foldl (extendTo cap) out = out ++ pieces.flatten := by
  induction pieces generalizing out with
  | nil => rw [List.foldl_nil, List.flatten_nil, List.append_nil]
  | cons piece pieces ih =>
    rw [List.flatten_cons, List.length_append] at h
    have hft : out.length + piece.length ≤ cap := by omega
    rw [List.foldl_cons, extendTo, if_pos hft, ih (by rw [List.length_append]; omega),
      List.flatten_cons, List.append_assoc]

theorem flatten_zeroPieces (len width : Nat) :
    (zeroPieces len width).flatten = List.replicate (width - len) 0 := by
  unfold zeroPieces
  induction width - len with
  | zero => rfl
  | succ n ih => rw [List.replicate_succ, List.flatten_cons, ih]; rfl

/-- The bytes of a value in a field of its width. -/
theorem field_bytes {n : Nat} (value : BoundedBytes n) :
    (value.val ++ List.replicate (n - value.val.length) 0).length = n ∧
      (value.val ++ List.replicate (n - value.val.length) 0).take value.val.length = value.val := by
  refine ⟨?_, List.take_left' rfl⟩
  rw [List.length_append, List.length_replicate]
  omega

/-! ## Reading -/

def takeBE (w : Nat) : Parser Unit Nat := do
  let raw ← takeN w
  return ofBE raw

theorem takeN_length {n : Nat} {inp raw rest : List UInt8} (h : takeN n inp = .ok (raw, rest)) :
    raw.length = n := by
  unfold takeN at h
  split at h
  · cases h
  · cases h
    rw [List.length_take]
    omega

theorem takeBE_toBE {w n : Nat} (h : n < 256 ^ w) (r : List UInt8) :
    takeBE w (toBE w n ++ r) = .ok (n, r) := by
  unfold takeBE
  rw [bind_ok (takeN_append r (length_toBE w n)), ofBE_toBE h]
  rfl

theorem takeByte_cons (b : UInt8) (r : List UInt8) : takeByte ([b] ++ r) = .ok (b, r) := rfl

end Wire
