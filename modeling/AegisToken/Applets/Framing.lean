/-
  Command APDUs on the wire and response chaining (aegis-applets apdu.rs).
  `Apdu.parse` reads the four cases of a command in the short and in the extended encoding, and
  gives the class byte beside the command; whether the encoding was extended is not kept, since
  nothing reads it. What it accepts is the encoding of what it gives, but for one form:
  `parse_ok_iff`. A `Chainer` holds a response of which a part is delivered; it carries the
  proof that no more is delivered than there is. Whatever lengths the host asks for, the parts make
  up the response: `chaining_exact`.
-/
import AegisToken.Applets.Apdu
import AegisToken.Lib.History

namespace AegisToken.Applets
open ByteCodec History

/-- `61xx`: `xx` response bytes are available. -/
def Sw.bytesRemaining (remaining : UInt8) : Sw := ⟨0x6100 ||| remaining.toUInt16⟩

def Sw.isBytesRemaining (sw : Sw) : Bool := sw.code &&& 0xFF00 == 0x6100

theorem Sw.isBytesRemaining_bytesRemaining (remaining : UInt8) :
    (bytesRemaining remaining).isBytesRemaining = true := by
  have h : ∀ i : Fin 256, (bytesRemaining (UInt8.ofFin i)).isBytesRemaining = true := by
    decide +kernel
  exact h remaining.toFin

/-! ## Commands -/

namespace Apdu

/-- Map a zero length field to its maximum. -/
def normalise (value zeroMeans : Nat) : Nat := if value = 0 then zeroMeans else value

/-- The body in the extended encoding, after the leading zero: data and `Le`. -/
def parseExtended : List UInt8 → Except Sw (List UInt8 × Option Nat)
  | hi :: lo :: rest =>
    let first := ofBE [hi, lo]
    if rest = [] then .ok ([], some (normalise first 65536))
    else if rest.length = first then .ok (rest, none)
    else if rest.length = first + 2 then
      .ok (rest.take first, some (normalise (ofBE (rest.drop first)) 65536))
    else .error .wrongLength
  | _ => .error .wrongLength

/-- The body of a command: data and `Le`. A leading zero selects the extended encoding when more
  bytes follow. -/
def parseBody : List UInt8 → Except Sw (List UInt8 × Option Nat)
  | [] => .ok ([], none)
  | lc :: rest =>
    if lc = 0 ∧ rest ≠ [] then parseExtended rest
    else if rest = [] then .ok ([], some (normalise lc.toNat 256))
    else if rest.length = lc.toNat then .ok (rest, none)
    else if rest.length = lc.toNat + 1 then
      .ok (rest.take lc.toNat, some (normalise (rest.getD lc.toNat 0).toNat 256))
    else .error .wrongLength

def parse : List UInt8 → Except Sw (UInt8 × Apdu)
  | cla :: ins :: p1 :: p2 :: body =>
    match parseBody body with
    | .error sw => .error sw
    | .ok (data, le) => .ok (cla, ⟨ins, p1, p2, data, le⟩)
  | _ => .error .wrongLength

/-! ## Encodings -/

/-- The length fields of `w` bytes in front of the data and behind it. The greatest `Le` is written
  as zero. -/
def encodeBody (w : Nat) (data : List UInt8) (le : Option Nat) : List UInt8 :=
  (if data = [] then [] else toBE w data.length) ++ data ++ le.elim [] (toBE w)

/-- The data and `Le` fit into fields of `w` bytes. -/
def InRange (w : Nat) (data : List UInt8) (le : Option Nat) : Prop :=
  data.length < 256 ^ w ∧ ∀ n ∈ le, 0 < n ∧ n ≤ 256 ^ w

/-- What both encodings do after their first length field. -/
def parseFields (w : Nat) (field rest : List UInt8) : Except Sw (List UInt8 × Option Nat) :=
  if rest = [] then .ok ([], some (normalise (ofBE field) (256 ^ w)))
  else if rest.length = ofBE field then .ok (rest, none)
  else if rest.length = ofBE field + w then
    .ok (rest.take (ofBE field), some (normalise (ofBE (rest.drop (ofBE field))) (256 ^ w)))
  else .error .wrongLength

theorem normalise_toBE {w n : Nat} (h : 0 < n ∧ n ≤ 256 ^ w) :
    normalise (ofBE (toBE w n)) (256 ^ w) = n := by
  rw [ofBE_toBE_mod, normalise]
  rcases Nat.lt_or_eq_of_le h.2 with hlt | rfl
  · rw [Nat.mod_eq_of_lt hlt, if_neg h.1.ne']
  · rw [Nat.mod_self, if_pos rfl]

/-- A field is the encoding of the length it says. -/
theorem toBE_normalise {w : Nat} {field : List UInt8} (h : field.length = w) :
    (0 < normalise (ofBE field) (256 ^ w) ∧ normalise (ofBE field) (256 ^ w) ≤ 256 ^ w) ∧
      toBE w (normalise (ofBE field) (256 ^ w)) = field := by
  subst h
  have hb := toBE_ofBE field
  unfold normalise
  split
  · rename_i h0
    have ht := toBE_ofBE (toBE field.length (256 ^ field.length))
    rw [length_toBE, ofBE_toBE_mod, Nat.mod_self, ← h0, hb] at ht
    exact ⟨⟨Nat.pow_pos (by decide), le_rfl⟩, ht.symm⟩
  · exact ⟨⟨by omega, (ofBE_lt field).le⟩, hb⟩

variable {w : Nat} {field rest data : List UInt8} {le : Option Nat}

theorem parseFields_eq (hw : 0 < w) (h : InRange w data le)
    (hne : data ++ le.elim [] (toBE w) ≠ []) :
    parseFields w (toBE w data.length) (data ++ le.elim [] (toBE w)) = .ok (data, le) := by
  rw [parseFields, if_neg hne, ofBE_toBE h.1]
  cases le with
  | none => simp
  | some n =>
    have hl : (data ++ toBE w n).length = data.length + w := by simp
    change ite ((data ++ toBE w n).length = _) _ (ite ((data ++ toBE w n).length = _) _ _) = _
    rw [if_neg (by omega), if_pos hl, Option.elim, List.take_left, List.drop_left,
      normalise_toBE (h.2 n rfl)]

theorem parseFields_ok_iff (hw : 0 < w) (hf : field.length = w) :
    parseFields w field rest = .ok (data, le) ↔ InRange w data le ∧
      (field ++ rest = encodeBody w data le ∨
        data = [] ∧ ∃ n, le = some n ∧ field = toBE w 0 ∧ rest = toBE w n) := by
  have hback := toBE_ofBE field
  rw [hf] at hback
  have hlt := ofBE_lt field
  rw [hf] at hlt
  unfold parseFields
  constructor
  · intro h
    split_ifs at h with h1 h2 h3
    · cases h
      obtain ⟨hn, ht⟩ := toBE_normalise hf
      refine ⟨⟨Nat.pow_pos (by decide), by rintro _ ⟨⟩; exact hn⟩, .inl ?_⟩
      simp [encodeBody, h1, ht]
    · cases h
      refine ⟨⟨h2 ▸ hlt, nofun⟩, .inl ?_⟩
      simp [encodeBody, h1, h2, hback]
    · cases h
      have hd : (rest.drop (ofBE field)).length = w := by rw [List.length_drop]; omega
      obtain ⟨hn, ht⟩ := toBE_normalise hd
      have hl : (rest.take (ofBE field)).length = ofBE field := by rw [List.length_take]; omega
      refine ⟨⟨hl.trans_lt hlt, by rintro _ ⟨⟩; exact hn⟩, ?_⟩
      by_cases h0 : ofBE field = 0
      · rw [h0] at ht ⊢
        exact .inr ⟨rfl, _, rfl, h0 ▸ hback.symm, ht.symm⟩
      · left
        have hne : rest.take (ofBE field) ≠ [] := fun h => h0 (by rw [← hl, h]; rfl)
        rw [encodeBody, if_neg hne, hl, hback]
        simp only [Option.elim, ht]
        rw [List.append_assoc, List.take_append_drop]
  · rintro ⟨hin, h | ⟨rfl, n, rfl, rfl, rfl⟩⟩
    · unfold encodeBody at h
      by_cases hd : data = []
      · subst hd
        have hlen := congrArg List.length h
        cases le with
        | none =>
          rw [List.length_append, hf] at hlen
          simp at hlen
          omega
        | some n =>
          obtain rfl : rest = [] := List.eq_nil_of_length_eq_zero (by simp at hlen; omega)
          obtain rfl : field = toBE w n := by simpa using h
          rw [if_pos rfl, normalise_toBE (hin.2 n rfl)]
      · rw [if_neg hd, List.append_assoc] at h
        obtain ⟨rfl, rfl⟩ := List.append_inj h (by rw [hf, length_toBE])
        exact parseFields_eq hw hin (by simp [hd])
    · exact parseFields_eq hw hin (List.ne_nil_of_length_pos (by simpa using hw))

theorem le_length_encodeBody (h : data ≠ [] ∨ le ≠ none) : w ≤ (encodeBody w data le).length := by
  unfold encodeBody
  by_cases hd : data = []
  · obtain ⟨n, rfl⟩ := Option.ne_none_iff_exists'.mp (h.resolve_left (not_not.mpr hd))
    simp [hd]
  · rw [if_neg hd, List.append_assoc, List.length_append, length_toBE]
    exact Nat.le_add_right _ _

/-- With fields of one byte, only an `Le` starts with a zero. -/
theorem encodeBody_one_zero (h : InRange 1 data le) (he : 0 :: rest = encodeBody 1 data le) :
    rest = [] := by
  by_cases hd : data = []
  · subst hd
    cases le with
    | none => cases he
    | some n => exact (List.cons.inj he).2
  · have hl := h.1
    rw [encodeBody, if_neg hd] at he
    have h0 := congrArg UInt8.toNat (List.cons.inj he).1
    rw [UInt8.toNat_ofNat'] at h0
    have := List.length_pos_iff.mpr hd
    simp at h0
    omega

/-- The body of a command, with fields of one byte, or with fields of two behind a zero. -/
def Encodes (body data : List UInt8) (le : Option Nat) : Prop :=
  InRange 1 data le ∧ body = encodeBody 1 data le ∨
    InRange 2 data le ∧ (data ≠ [] ∨ le ≠ none) ∧ body = 0 :: encodeBody 2 data le

theorem parseBody_ok_iff {body : List UInt8} :
    parseBody body = .ok (data, le) ↔ Encodes body data le ∨
      InRange 2 data le ∧ data = [] ∧ ∃ n, le = some n ∧ body = [0, 0, 0] ++ toBE 2 n := by
  cases body with
  | nil =>
    constructor
    · rintro ⟨⟩
      exact .inl (.inl ⟨⟨by decide, nofun⟩, rfl⟩)
    · rintro ((⟨-, h⟩ | ⟨-, -, h⟩) | ⟨-, -, n, -, h⟩)
      · obtain ⟨rfl, rfl⟩ : data = [] ∧ le = none := by
          by_contra hc
          have hl := le_length_encodeBody (w := 1) (not_and_or.mp hc)
          rw [← h] at hl
          cases hl
        rfl
      · cases h
      · cases h
  | cons lc rest =>
    by_cases h : lc = 0 ∧ rest ≠ []
    · obtain ⟨rfl, hne⟩ := h
      rw [parseBody, if_pos ⟨rfl, hne⟩]
      match rest with
      | [x] =>
        refine iff_of_false nofun ?_
        rintro ((⟨hin, h⟩ | ⟨-, hf, h⟩) | ⟨-, -, n, -, h⟩)
        · cases encodeBody_one_zero hin h
        · have hl := le_length_encodeBody (w := 2) hf
          rw [← (List.cons.inj h).2] at hl
          cases hl with | step h => cases h
        · cases h
      | hi :: lo :: rest =>
        have hw : [hi, lo].length = 2 := rfl
        refine (parseFields_ok_iff (by decide) hw).trans ⟨?_, ?_⟩
        · rintro ⟨hin, h | ⟨hd, n, hle, hf, rfl⟩⟩
          · refine .inl (.inr ⟨hin, ?_, congrArg _ h⟩)
            by_contra hc
            rw [not_or, not_not, not_not] at hc
            rw [hc.1, hc.2] at h
            cases h
          · cases hf
            exact .inr ⟨hin, hd, n, hle, rfl⟩
        · rintro ((⟨hin, h⟩ | ⟨hin, -, h⟩) | ⟨hin, hd, n, hle, h⟩)
          · cases encodeBody_one_zero hin h
          · exact ⟨hin, .inl (List.cons.inj h).2⟩
          · cases h
            exact ⟨hin, .inr ⟨hd, n, hle, rfl, rfl⟩⟩
    · have hfs : parseBody (lc :: rest) = parseFields 1 [lc] rest := by
        have hone : ofBE [lc] = lc.toNat := by simp [ofBE, ofLE]
        rw [parseBody, if_neg h, parseFields, hone]
        split_ifs with h1 h2 h3
        · rfl
        · rfl
        · have hd : rest.drop lc.toNat = [rest.getD lc.toNat 0] := by
            rw [List.drop_eq_getElem_cons (by omega), List.drop_of_length_le (by omega)]
            simp [h3]
          rw [hd]
          simp [ofBE, ofLE]
        · rfl
      rw [hfs]
      refine (parseFields_ok_iff (w := 1) Nat.one_pos rfl).trans ⟨?_, ?_⟩
      · rintro ⟨hin, he | ⟨-, n, -, hf, rfl⟩⟩
        · exact .inl (.inl ⟨hin, he⟩)
        · cases hf
          exact absurd ⟨rfl, List.cons_ne_nil _ _⟩ h
      · rintro ((⟨hin, he⟩ | ⟨-, hf, he⟩) | ⟨-, -, n, -, he⟩)
        · exact ⟨hin, .inl he⟩
        · cases he
          have hl := le_length_encodeBody (w := 2) hf
          rw [not_and, not_not] at h
          rw [h rfl] at hl
          cases hl
        · cases he
          exact absurd ⟨rfl, List.cons_ne_nil _ _⟩ h

theorem parse_error {frame : List UInt8} {sw : Sw} (h : parse frame = .error sw) :
    sw = .wrongLength := by
  have hbd : ∀ {body : List UInt8}, parseBody body = .error sw → sw = .wrongLength := by
    intro body hbd
    unfold parseBody at hbd
    split at hbd
    · cases hbd
    split at hbd
    · unfold parseExtended at hbd
      split at hbd
      · dsimp only at hbd
        split_ifs at hbd
        exact (Except.error.inj hbd).symm
      · exact (Except.error.inj hbd).symm
    · split_ifs at hbd
      exact (Except.error.inj hbd).symm
  unfold parse at h
  split at h
  · split at h
    · rename_i sw' hsw
      cases h
      exact hbd hsw
    · cases h
  · exact (Except.error.inj h).symm

/-- Parsing is exact: what is accepted is the encoding of the command that comes out, or it has an
  extended `Lc` of zero in front of an `Le`. -/
theorem parse_ok_iff {frame : List UInt8} {cla : UInt8} {apdu : Apdu} :
    parse frame = .ok (cla, apdu) ↔
      ∃ body, frame = cla :: apdu.ins :: apdu.p1 :: apdu.p2 :: body ∧
        (Encodes body apdu.data apdu.le ∨ InRange 2 apdu.data apdu.le ∧ apdu.data = [] ∧
          ∃ n, apdu.le = some n ∧ body = [0, 0, 0] ++ toBE 2 n) := by
  simp only [← parseBody_ok_iff]
  constructor
  · intro h
    unfold parse at h
    split at h
    · rename_i cla' ins p1 p2 body
      split at h
      · cases h
      · rename_i hb
        cases h
        exact ⟨body, rfl, hb⟩
    · cases h
  · rintro ⟨body, rfl, h⟩
    rw [parse, h]

end Apdu

/-! ## Chaining -/

/-- Largest response a short APDU can carry. -/
def shortResponseLimit : Nat := 256

/-- A response of at most `cap` bytes of which `delivered` are gone. -/
structure Chainer (cap : Nat) where
  pending : BoundedBytes cap
  delivered : Nat
  delivered_le : delivered ≤ pending.val.length

namespace Chainer
variable {cap : Nat}

def new : Chainer cap := ⟨BoundedBytes.empty _, 0, Nat.zero_le _⟩

def clear (_ : Chainer cap) : Chainer cap := new

def isPending (c : Chainer cap) : Bool := c.delivered < c.pending.val.length

def remaining (c : Chainer cap) : Nat := c.pending.val.length - c.delivered

def deliver (c : Chainer cap) (le : Nat) : Response × Chainer cap :=
  if c.remaining = 0 then (.ok [], c)
  else
    let le := if le = 0 then shortResponseLimit else le
    if h : c.remaining ≤ le then
      (.ok (c.pending.val.drop c.delivered), ⟨c.pending, c.pending.val.length, Nat.le_refl _⟩)
    else
      let after : Chainer cap := ⟨c.pending, c.delivered + le, by unfold remaining at h; omega⟩
      (⟨(c.pending.val.drop c.delivered).take le,
        .bytesRemaining (UInt8.ofNat (min after.remaining 255))⟩, after)

def begin (data : List UInt8) (le : Nat) (_ : Chainer cap) : Response × Chainer cap :=
  match BoundedBytes.ofSlice cap data with
  | none => (.status .noPreciseDiagnosis, new)
  | some pending => (⟨pending, 0, Nat.zero_le _⟩ : Chainer cap).deliver le

/-- Serve the pending bytes of the last response. -/
def getResponse (le : Nat) (c : Chainer cap) : Response × Chainer cap :=
  if !c.isPending then (.status .conditionsNotSatisfied, c) else c.deliver le

def rest (c : Chainer cap) : List UInt8 := c.pending.val.drop c.delivered

theorem isPending_iff {c : Chainer cap} : c.isPending = true ↔ c.rest ≠ [] := by
  unfold isPending rest
  rw [decide_eq_true_iff, Ne, List.drop_eq_nil_iff]
  exact Nat.not_le.symm

/-- The bytes that a request for `le` of them gets at most. -/
def limit (le : Nat) : Nat := if le = 0 then shortResponseLimit else le

theorem limit_pos (le : Nat) : 0 < limit le := by
  unfold limit
  split
  · decide
  · omega

/-- The response to a request for `le` bytes while `rest` is left. -/
def chunk (rest : List UInt8) (le : Nat) : Response :=
  ⟨rest.take (limit le), if rest.length ≤ limit le then .ok
    else .bytesRemaining (UInt8.ofNat (min (rest.length - limit le) 255))⟩

theorem chunk_of_le {rest : List UInt8} {le : Nat} (h : rest.length ≤ limit le) :
    chunk rest le = .ok rest := by
  rw [chunk, List.take_of_length_le h, if_pos h]
  rfl

theorem deliver_eq (c : Chainer cap) (le : Nat) :
    (c.deliver le).1 = chunk c.rest le ∧ (c.deliver le).2.rest = c.rest.drop (limit le) := by
  have hl : c.rest.length = c.remaining := List.length_drop
  unfold deliver
  split
  · rename_i hzr
    have hrs : c.rest = [] := List.length_eq_zero_iff.mp (hl.trans hzr)
    rw [hrs, List.drop_nil]
    exact ⟨(chunk_of_le (Nat.zero_le _)).symm, rfl⟩
  by_cases hls : c.remaining ≤ if le = 0 then shortResponseLimit else le
  · have hle : c.rest.length ≤ limit le := hl.trans_le hls
    rw [dif_pos hls, chunk_of_le hle, List.drop_of_length_le hle]
    exact ⟨rfl, List.drop_length⟩
  have haf : c.pending.val.length - (c.delivered + limit le) = c.rest.length - limit le := by
    rw [hl, remaining, Nat.sub_sub]
  rw [dif_neg hls, chunk, if_neg (show ¬c.rest.length ≤ limit le from hl ▸ hls), ← haf]
  exact ⟨rfl, List.drop_drop.symm⟩

/-- A delivery gives the first bytes of the rest. When something is left after it, it says so. -/
theorem deliver_spec (c : Chainer cap) (le : Nat) :
    (c.deliver le).1.data ++ (c.deliver le).2.rest = c.rest ∧
      ((c.deliver le).2.isPending = true → (c.deliver le).1.sw.isBytesRemaining = true) := by
  rw [isPending_iff, (c.deliver_eq le).1, (c.deliver_eq le).2]
  refine ⟨List.take_append_drop _ _, fun h => ?_⟩
  rw [Ne, List.drop_eq_nil_iff] at h
  rw [chunk, if_neg h]
  exact Sw.isBytesRemaining_bytesRemaining _

/-! ### Whole responses -/

/-- The answers to requests for these lengths: chunks while something is left, then refusals. -/
def conversation : List UInt8 → List Nat → List Response
  | _, [] => []
  | rest, le :: les =>
    (if rest = [] then .status .conditionsNotSatisfied else chunk rest le) ::
      conversation (rest.drop (limit le)) les

theorem conversation_cons (rest : List UInt8) (le : Nat) (les : List Nat) :
    (conversation rest (le :: les)).flatMap Response.data =
      rest.take (limit le) ++ (conversation (rest.drop (limit le)) les).flatMap Response.data := by
  rw [conversation, List.flatMap_cons]
  split
  · subst rest
    rw [List.take_nil]
    rfl
  · rfl

/-- The chunks make up a first part of the rest, and `n` of them all of `n` bytes. -/
theorem conversation_data (les : List Nat) (rest : List UInt8) :
    (conversation rest les).flatMap Response.data <+: rest ∧
      (rest.length ≤ les.length → (conversation rest les).flatMap Response.data = rest) := by
  induction les generalizing rest with
  | nil => exact ⟨List.nil_prefix, fun h => (List.length_eq_zero_iff.mp (Nat.le_zero.mp h)).symm⟩
  | cons le les ih =>
    obtain ⟨hfr, ha⟩ := ih (rest.drop (limit le))
    rw [conversation_cons]
    refine ⟨?_, fun h => ?_⟩
    · have h := (List.prefix_append_right_inj (rest.take (limit le))).mpr hfr
      rwa [List.take_append_drop] at h
    · have hp := limit_pos le
      rw [List.length_cons] at h
      rw [ha (by rw [List.length_drop]; omega), List.take_append_drop]

theorem answers_getResponse (les : List Nat) (c : Chainer cap) :
    answers (fun c le => c.getResponse le) c les = conversation c.rest les := by
  induction les generalizing c with
  | nil => rfl
  | cons le les ih =>
    rw [answers, conversation, ih]
    by_cases hrs : c.rest = []
    · have hpn : c.isPending = false := Bool.eq_false_iff.mpr fun h => isPending_iff.mp h hrs
      rw [getResponse, hpn, if_pos hrs, hrs, List.drop_nil]
      exact congrArg (_ :: conversation · les) hrs
    · rw [getResponse, isPending_iff.mpr hrs, if_neg hrs, ← (c.deliver_eq le).1,
        ← (c.deliver_eq le).2]
      rfl

theorem chaining_exact (c : Chainer cap) (data : BoundedBytes cap) (le : Nat) (les : List Nat) :
    let first := c.begin data.val le
    let later := answers (fun c le => c.getResponse le) first.2 les
    first.1 = chunk data.val le ∧ later = conversation (data.val.drop (limit le)) les ∧
      (first.1 :: later).flatMap Response.data <+: data.val ∧
      (data.val.length ≤ (le :: les).length →
        (first.1 :: later).flatMap Response.data = data.val) := by
  have hbegin : c.begin data.val le = (⟨data, 0, Nat.zero_le _⟩ : Chainer cap).deliver le := by
    unfold begin
    rw [BoundedBytes.ofSlice_eq_some.mpr rfl]
  obtain ⟨hchunk, hafter⟩ := (⟨data, 0, Nat.zero_le _⟩ : Chainer cap).deliver_eq le
  have hdata := conversation_data (le :: les) data.val
  rw [conversation_cons] at hdata
  dsimp only
  rw [hbegin, answers_getResponse, hchunk, hafter]
  exact ⟨rfl, rfl, hdata⟩

end Chainer

end AegisToken.Applets
