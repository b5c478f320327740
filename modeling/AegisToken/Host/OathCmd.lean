/-
  The OATH commands of the host tool (aegistoken-host oath_cmd.rs): the `otpauth://` parser and the
  bodies that `oath_add`, `oath_code` and `oath_delete` send.
  Text is a list of characters; `utf8` gives its bytes. A percent escape gives one character below
  256, so a decoded label is read as Latin-1 and sent as UTF-8.
-/
import AegisToken.Host.PivCmd

namespace AegisToken.Host
open ByteCodec

abbrev Text := List Char

def utf8 (text : Text) : List UInt8 := text.flatMap String.utf8EncodeChar

/-! ## Text -/

def stripPrefix (head text : Text) : Option Text :=
  if head.isPrefixOf text then some (text.drop head.length) else none

def splitOnce (separator : Char) : Text → Option (Text × Text)
  | [] => none
  | c :: text =>
    if c = separator then some ([], text)
    else (splitOnce separator text).map fun parts => (c :: parts.1, parts.2)

def splitAll (separator : Char) : Text → List Text
  | [] => [[]]
  | c :: text =>
    if c = separator then [] :: splitAll separator text
    else
      match splitAll separator text with
      | [] => [[c]]
      | part :: parts => (c :: part) :: parts

/-- Parse an unsigned decimal number of at most `max`. -/
def parseUnsigned (max : Nat) (text : Text) : Option Nat :=
  let digits := match text with
    | '+' :: digits => digits
    | _ => text
  if digits = [] then none
  else digits.foldlM (fun n c =>
    if c.isDigit ∧ n * 10 + (c.toNat - '0'.toNat) ≤ max then some (n * 10 + (c.toNat - '0'.toNat))
    else none) 0

def u8Max : Nat := 255
def u32Max : Nat := 4294967295

def toAsciiLowercase (text : Text) : Text := text.map Char.toLower
def toAsciiUppercase (text : Text) : Text := text.map Char.toUpper

def hexDigit (byte : UInt8) : Option UInt8 :=
  if 0x30 ≤ byte ∧ byte ≤ 0x39 then some (byte - 0x30)
  else if 0x61 ≤ byte ∧ byte ≤ 0x66 then some (byte - 0x61 + 10)
  else if 0x41 ≤ byte ∧ byte ≤ 0x46 then some (byte - 0x41 + 10)
  else none

/-- The character of a percent escape. One that is not hexadecimal gives `%`, and its two bytes are
  lost. -/
def escapedChar (hi lo : UInt8) : Char :=
  match hexDigit hi, hexDigit lo with
  | some hi, some lo => Char.ofUInt8 (hi <<< 4 ||| lo)
  | _, _ => '%'

/-- Percent-decode the bytes of a string, each byte to one character. -/
def percentDecodeBytes : List UInt8 → Text
  | [] => []
  | byte :: rest =>
    if byte = 0x25 then
      match rest with
      | hi :: lo :: rest => escapedChar hi lo :: percentDecodeBytes rest
      | _ => ['%']
    else if byte = 0x2B then ' ' :: percentDecodeBytes rest
    else Char.ofUInt8 byte :: percentDecodeBytes rest

def percentDecode (text : Text) : Text := percentDecodeBytes (utf8 text)

def parseQuery (query : Text) : List (Text × Text) :=
  if query = [] then []
  else (splitAll '&' query).filterMap fun pair =>
    (splitOnce '=' pair).map fun (key, value) => (percentDecode key, percentDecode value)

/-! ## Base32 -/

def isWhitespace (c : Char) : Bool :=
  (0x09 ≤ c.toNat ∧ c.toNat ≤ 0x0D) ∨ c.toNat ∈ [0x20, 0x85, 0xA0, 0x1680, 0x2028, 0x2029, 0x202F,
    0x205F, 0x3000] ∨ (0x2000 ≤ c.toNat ∧ c.toNat ≤ 0x200A)

def base32Value (c : Char) : Except String Nat :=
  if 'A' ≤ c ∧ c ≤ 'Z' then .ok (c.toNat - 'A'.toNat)
  else if 'a' ≤ c ∧ c ≤ 'z' then .ok (c.toNat - 'a'.toNat)
  else if '2' ≤ c ∧ c ≤ '7' then .ok (c.toNat - '2'.toNat + 26)
  else .error "invalid Base32 character"

/-- The loop: pending bits, their number, and the bytes so far. -/
def base32Loop (bits bitCount : Nat) (output : List UInt8) : Text → Except String (List UInt8)
  | [] => .ok output
  | c :: text =>
    match base32Value c with
    | .error e => .error e
    | .ok value =>
      let bits := (bits <<< 5) ||| value
      let bitCount := bitCount + 5
      if 8 ≤ bitCount then
        base32Loop (bits &&& ((1 <<< (bitCount - 8)) - 1)) (bitCount - 8)
          (output ++ [UInt8.ofNat (bits >>> (bitCount - 8))]) text
      else base32Loop bits bitCount output text

def base32Decode (input : Text) : Except String (List UInt8) :=
  let clean := input.filter fun c => !isWhitespace c && c ≠ '='
  if clean = [] then .error "empty Base32 input" else base32Loop 0 0 [] clean

/-! ## The `otpauth://` parser -/

def tagName : UInt8 := 0x71
def tagKey : UInt8 := 0x73
def tagChallenge : UInt8 := 0x74
def tagImf : UInt8 := 0x7A

def typeHotp : UInt8 := 0x10
def typeTotp : UInt8 := 0x20
def algorithmSha1 : UInt8 := 0x01
def algorithmSha256 : UInt8 := 0x02
def algorithmSha512 : UInt8 := 0x03

/-- A credential from an `otpauth://` URI. -/
structure OtpAuthCredential where
  label : Text
  kind : UInt8
  algorithm : UInt8
  digits : Nat
  secret : List UInt8
  counter : Nat

/-- The first value with the key, in any case of letters. -/
def parameter (params : List (Text × Text)) (key : Text) : Option Text :=
  (params.find? fun pair => toAsciiLowercase pair.1 = key).map (·.2)

/-- A numeric parameter, or its default when it is missing. -/
def numberParameter (params : List (Text × Text)) (key : Text) (max default : Nat)
    (message : String) : Except String Nat :=
  match parameter params key with
  | none => .ok default
  | some value =>
    match parseUnsigned max value with
    | some n => .ok n
    | none => .error (message ++ String.ofList value)

def parseKind (kind : Text) : Except String UInt8 :=
  let lower := toAsciiLowercase kind
  if lower = ['t', 'o', 't', 'p'] then .ok typeTotp
  else if lower = ['h', 'o', 't', 'p'] then .ok typeHotp
  else .error ("unsupported OTP type: " ++ String.ofList lower)

def parseAlgorithm (params : List (Text × Text)) : Except String UInt8 :=
  match parameter params ['a', 'l', 'g', 'o', 'r', 'i', 't', 'h', 'm'] with
  | none => .ok algorithmSha1
  | some value =>
    let upper := toAsciiUppercase value
    if upper = ['S', 'H', 'A', '1'] then .ok algorithmSha1
    else if upper = ['S', 'H', 'A', '2', '5', '6'] then .ok algorithmSha256
    else if upper = ['S', 'H', 'A', '5', '1', '2'] then .ok algorithmSha512
    else .error ("unsupported algorithm: " ++ String.ofList upper)

def parseSecret (params : List (Text × Text)) : Except String (List UInt8) :=
  match parameter params ['s', 'e', 'c', 'r', 'e', 't'] with
  | none => .error "missing 'secret' parameter in otpauth URI"
  | some value => do
    let secret ← base32Decode value
    if secret = [] then .error "decoded secret is empty" else .ok secret

/-- The label with its issuer, which is not repeated when the label starts with it. -/
def displayLabel (label : Text) : Option Text → Text
  | none => label
  | some issuer =>
    if (toAsciiLowercase issuer ++ [':']).isPrefixOf (toAsciiLowercase label) then label
    else issuer ++ ':' :: label

def parseOtpauthUri (uri : Text) : Except String OtpAuthCredential := do
  let some rest := stripPrefix ['o', 't', 'p', 'a', 'u', 't', 'h', ':', '/', '/'] uri
    | .error "URI must start with 'otpauth://'"
  let some (kindText, rest) := splitOnce '/' rest | .error "missing type in otpauth URI"
  let kind ← parseKind kindText
  let (labelRaw, query) := (splitOnce '?' rest).getD (rest, [])
  let params := parseQuery query
  let secret ← parseSecret params
  let algorithm ← parseAlgorithm params
  let digits ← numberParameter params ['d', 'i', 'g', 'i', 't', 's'] u8Max 6
    "invalid digits value: "
  if digits < 6 ∨ 8 < digits then
    .error ("digits must be 6, 7 or 8, got " ++ String.ofList (Nat.toDigits 10 digits))
  else
    let period ← numberParameter params ['p', 'e', 'r', 'i', 'o', 'd'] u32Max 30
      "invalid period value: "
    if period = 0 then .error "period must be > 0"
    else
      let counter ← numberParameter params ['c', 'o', 'u', 'n', 't', 'e', 'r'] u32Max 0
        "invalid counter value: "
      let display := displayLabel (percentDecode labelRaw)
        (parameter params ['i', 's', 's', 'u', 'e', 'r'])
      -- The period is part of the name of a TOTP credential.
      let label := if kind = typeTotp then Nat.toDigits 10 period ++ '/' :: display else display
      .ok ⟨label, kind, algorithm, digits, secret, counter⟩

/-- The period in a name such as `30/issuer:user`. -/
def credentialPeriod (name : Text) : Nat :=
  match splitOnce '/' name with
  | none => 30
  | some (head, _) => ((parseUnsigned u32Max head).filter (0 < ·)).getD 30

/-! ## Command bodies -/

/-- `tag || length || value`. -/
def hostTlv (tag : UInt8) (value : List UInt8) : List UInt8 :=
  tag :: encodeTlvLength value.length ++ value

def oathAddBody (cred : OtpAuthCredential) : List UInt8 :=
  hostTlv tagName (utf8 cred.label) ++
    hostTlv tagKey ((cred.kind ||| cred.algorithm) :: UInt8.ofNat cred.digits :: cred.secret) ++
    if cred.kind = typeHotp then hostTlv tagImf (toBE 4 cred.counter) else []

/-- The body that `oath_code` sends at a time in seconds. -/
def oathCodeBody (name : Text) (now : Nat) : List UInt8 :=
  hostTlv tagName (utf8 name) ++ hostTlv tagChallenge (toBE 8 (now / credentialPeriod name))

def oathDeleteBody (name : Text) : List UInt8 := hostTlv tagName (utf8 name)

theorem length_hostTlv (tag : UInt8) (value : List UInt8) :
    (hostTlv tag value).length = 1 + (encodeTlvLength value.length).length + value.length := by
  unfold hostTlv
  simp only [List.length_append, List.length_cons]
  omega

/-! ## Labels -/

def uriParts (uri : Text) : Option (Text × Text) := do
  let rest ← stripPrefix ['o', 't', 'p', 'a', 'u', 't', 'h', ':', '/', '/'] uri
  let (_, rest) ← splitOnce '/' rest
  return (splitOnce '?' rest).getD (rest, [])

theorem parseOtpauthUri_label {uri : Text} {cred : OtpAuthCredential}
    (h : parseOtpauthUri uri = .ok cred) : ∃ label query period,
      uriParts uri = some (label, query) ∧
      numberParameter (parseQuery query) ['p', 'e', 'r', 'i', 'o', 'd'] u32Max 30
        "invalid period value: " = .ok period ∧ period ≠ 0 ∧
      cred.label = (if cred.kind = typeTotp then Nat.toDigits 10 period ++ ['/'] else []) ++
        displayLabel (percentDecode label)
          (parameter (parseQuery query) ['i', 's', 's', 'u', 'e', 'r']) := by
  unfold parseOtpauthUri at h
  split at h
  next rest hrest =>
    split at h
    next kindText rest' hsplit =>
      obtain ⟨kind, -, h⟩ := ok_of_bind h
      obtain ⟨secret, -, h⟩ := ok_of_bind h
      obtain ⟨algorithm, -, h⟩ := ok_of_bind h
      obtain ⟨digits, -, h⟩ := ok_of_bind h
      split at h
      · cases h
      obtain ⟨period, hp, h⟩ := ok_of_bind h
      split at h
      · cases h
      next hz =>
        obtain ⟨counter, -, h⟩ := ok_of_bind h
        cases h
        have hparts : uriParts uri = some ((splitOnce '?' rest').getD (rest', [])) := by
          simp [uriParts, hrest, hsplit]
        refine ⟨_, _, period, hparts, hp, hz, ?_⟩
        dsimp only
        split
        · rw [List.append_assoc]
          rfl
        · rfl
    next => cases h
  next => cases h

/-- A byte in a percent-encoded string (RFC 3986): unreserved characters are kept. -/
def encodeByte (byte : UInt8) : Text :=
  let c := Char.ofUInt8 byte
  if c.isAlphanum ∨ c ∈ ['-', '.', '_', '~'] then [c]
  else ['%', (Nat.digitChar (byte.toNat / 16)).toUpper, (Nat.digitChar (byte.toNat % 16)).toUpper]

def percentEncode (text : Text) : Text := (utf8 text).flatMap encodeByte

/-- The characters whose code points are the bytes of a string. -/
def bytewise (text : Text) : Text := (utf8 text).map Char.ofUInt8

theorem encodeByte_cases (b : UInt8) :
    let bytes := utf8 (encodeByte b)
    (bytes = [b] ∧ b ≠ 0x25 ∧ b ≠ 0x2B) ∨
      bytes = [0x25, bytes.getD 1 0, bytes.getD 2 0] ∧
        escapedChar (bytes.getD 1 0) (bytes.getD 2 0) = Char.ofUInt8 b := by
  have h : ∀ n : Fin 256, let bytes := utf8 (encodeByte (.ofNat n))
    (bytes = [.ofNat n] ∧ .ofNat n ≠ (0x25 : UInt8) ∧ .ofNat n ≠ (0x2B : UInt8)) ∨
      bytes = [0x25, bytes.getD 1 0, bytes.getD 2 0] ∧
        escapedChar (bytes.getD 1 0) (bytes.getD 2 0) = Char.ofUInt8 (.ofNat n) := by decide +kernel
  have hb := h ⟨b.toNat, b.toNat_lt⟩
  rwa [UInt8.ofNat_toNat] at hb

theorem percentDecode_encode (text : Text) :
    percentDecode (percentEncode text) = bytewise text := by
  rw [percentDecode, percentEncode, bytewise]
  induction utf8 text with
  | nil => rfl
  | cons b bytes ih =>
    rw [List.flatMap_cons, utf8, List.flatMap_append, ← utf8, ← utf8, List.map_cons, ← ih]
    rcases encodeByte_cases b with ⟨he, h1, h2⟩ | ⟨he, hb⟩
    · rw [he, List.singleton_append, percentDecodeBytes.eq_def]
      simp only [if_neg h1, if_neg h2]
    · rw [he, ← hb]
      rfl

theorem length_le_utf8 (text : Text) : text.length ≤ (utf8 text).length := by
  induction text with
  | nil => exact Nat.le_refl _
  | cons c text ih =>
    have hp := c.utf8Size_pos
    rw [utf8, List.flatMap_cons, List.length_append, String.length_utf8EncodeChar, ← utf8,
      List.length_cons]
    omega

theorem ofUInt8_toUInt8 {c : Char} (h : c.val ≤ 127) : Char.ofUInt8 c.val.toUInt8 = c := by
  have h' : c.val.toNat ≤ 127 := h
  refine Char.ext (UInt32.toNat_inj.mp ?_)
  change c.val.toUInt8.toUInt32.toNat = _
  rw [UInt8.toNat_toUInt32, UInt32.toNat_toUInt8]
  exact Nat.mod_eq_of_lt (by omega)

theorem bytewise_eq_iff (text : Text) : bytewise text = text ↔ ∀ c ∈ text, c.val ≤ 127 := by
  induction text with
  | nil => simp [bytewise, utf8]
  | cons c text ih =>
    rw [List.forall_mem_cons, ← ih, bytewise, utf8, List.flatMap_cons, List.map_append, ← utf8,
      ← bytewise]
    constructor
    · intro h
      have hl := congrArg List.length h
      have hle := length_le_utf8 text
      have hp := c.utf8Size_pos
      simp only [bytewise, List.length_append, List.length_map, String.length_utf8EncodeChar,
        List.length_cons] at hl
      have h1 : c.utf8Size = 1 := by omega
      rw [String.utf8EncodeChar_eq_singleton h1] at h
      exact ⟨Char.utf8Size_eq_one_iff.mp h1, (List.cons.inj h).2⟩
    · rintro ⟨hc, ht⟩
      rw [String.utf8EncodeChar_eq_singleton (Char.utf8Size_eq_one_iff.mpr hc), ht,
        List.map_singleton, ofUInt8_toUInt8 hc]
      rfl

/-- A percent-encoded string is decoded byte by byte, as Latin-1: it comes back when all of it is
  ASCII, and only then. So does the label of a URI. -/
theorem percentDecode_percentEncode (text : Text) :
    percentDecode (percentEncode text) = bytewise text ∧
      (percentDecode (percentEncode text) = text ↔ ∀ c ∈ text, c.val ≤ 127) ∧
      ∀ uri query cred, uriParts uri = some (percentEncode text, query) →
        parseOtpauthUri uri = .ok cred → ∃ period,
          cred.label = (if cred.kind = typeTotp then Nat.toDigits 10 period ++ ['/'] else []) ++
            displayLabel (bytewise text)
              (parameter (parseQuery query) ['i', 's', 's', 'u', 'e', 'r']) := by
  refine ⟨percentDecode_encode text, percentDecode_encode text ▸ bytewise_eq_iff text, ?_⟩
  intro uri query cred hu h
  obtain ⟨label, query', period, hu', -, -, hl⟩ := parseOtpauthUri_label h
  cases hu.symm.trans hu'
  exact ⟨period, percentDecode_encode text ▸ hl⟩

/-- `é` becomes `Ã©`. -/
theorem parseOtpauthUri_accented :
    (parseOtpauthUri (['o', 't', 'p', 'a', 'u', 't', 'h', ':', '/', '/', 't', 'o', 't', 'p', '/'] ++
      percentEncode ['é'] ++ ['?', 's', 'e', 'c', 'r', 'e', 't', '=', 'G', 'E'])).toOption.map
        (·.label) = some ['3', '0', '/', 'Ã', '©'] := by
  rfl

/-! ## Base32 secrets -/

/-- A character of the Base32 alphabet (RFC 4648). -/
def base32Char (value : Nat) : Char := Char.ofNat (if value < 26 then 65 + value else 24 + value)

/-- The characters of the whole groups of five bits. -/
def base32Groups : List Bool → Text
  | a :: b :: c :: d :: e :: bits => base32Char (ofBits [e, d, c, b, a]) :: base32Groups bits
  | _ => []

/-- The bits of a byte, the most significant first. -/
def byteBits (byte : UInt8) : List Bool := (lowBits 8 byte.toNat).reverse

/-- The RFC 4648 encoding without padding: the last group is filled with zero bits. -/
def base32Encode (data : List UInt8) : Text :=
  base32Groups (data.flatMap byteBits ++ List.replicate 4 false)

theorem base32Value_base32Char : ∀ value < 32, base32Value (base32Char value) = .ok value := by
  decide

theorem base32Value_toUpper (c : Char) : base32Value c.toUpper = base32Value c := by
  by_cases h : c.val ≥ 'a'.val ∧ c.val ≤ 'z'.val
  · have hall : ∀ n < 26, base32Value (Char.ofNat (97 + n)).toUpper =
        base32Value (Char.ofNat (97 + n)) := by decide
    have h1 : 97 ≤ c.toNat := h.1
    have h2 : c.toNat ≤ 122 := h.2
    have hc := hall (c.toNat - 97) (by omega)
    rw [Nat.add_sub_cancel' h1, Char.ofNat_toNat] at hc
    exact hc
  · rw [show c.toUpper = c from dif_neg h]

/-- The first eight bits leave as a byte. -/
theorem ofBits_byte (byte : UInt8) (rest : List Bool) :
    ofBits (byteBits byte ++ rest).reverse >>> rest.length = byte.toNat ∧
      ofBits (byteBits byte ++ rest).reverse &&& ((1 <<< rest.length) - 1) =
        ofBits rest.reverse := by
  have hlt := ofBits_lt rest.reverse
  rw [List.length_reverse] at hlt
  rw [List.reverse_append, ofBits_append, byteBits, List.reverse_reverse, ofBits_lowBits,
    Nat.mod_eq_of_lt byte.toNat_lt, List.length_reverse, Nat.shiftRight_eq_div_pow,
    Nat.one_shiftLeft, Nat.and_two_pow_sub_one_eq_mod, Nat.mul_add_mod_self_right,
    Nat.mod_eq_of_lt hlt, Nat.mul_comm, Nat.mul_add_div (Nat.two_pow_pos _), Nat.div_eq_of_lt hlt]
  exact ⟨rfl, rfl⟩

theorem base32Loop_toUpper (bits bitCount : Nat) (output : List UInt8) (text : Text) :
    base32Loop bits bitCount output (toAsciiUppercase text) =
      base32Loop bits bitCount output text := by
  induction text generalizing bits bitCount output with
  | nil => rfl
  | cons c text ih =>
    simp only [toAsciiUppercase, List.map_cons, base32Loop, base32Value_toUpper] at ih ⊢
    simp only [ih]

/-- The loop keeps the bits that are not output yet. -/
theorem base32Loop_groups {p bits : List Bool} {output data : List UInt8} (hp : p.length < 8)
    (h : p ++ bits = data.flatMap byteBits ++ List.replicate 4 false) :
    base32Loop (ofBits p.reverse) p.length output (base32Groups bits) = .ok (output ++ data) := by
  have hl := congrArg List.length h
  simp [byteBits, length_lowBits] at hl
  fun_induction base32Groups bits generalizing p output data with
  | case1 a b c d e bits ih =>
    have hq : ofBits p.reverse <<< 5 ||| ofBits [e, d, c, b, a] =
        ofBits (p ++ [a, b, c, d, e]).reverse := by
      have hlt : ofBits [e, d, c, b, a] < 2 ^ 5 := ofBits_lt _
      rw [List.reverse_append, ofBits_append, ← Nat.shiftLeft_add_eq_or_of_lt hlt,
        Nat.shiftLeft_eq]
      rfl
    rw [base32Loop, base32Value_base32Char _ (ofBits_lt _)]
    simp only [hq]
    simp only [List.length_cons] at hl
    by_cases hk : 8 ≤ p.length + 5
    · cases data with
      | nil =>
        simp only [List.length_nil] at hl
        omega
      | cons byte data =>
        set q := p ++ [a, b, c, d, e] with hqdef
        have happ : q.take 8 ++ (q.drop 8 ++ bits) =
            byteBits byte ++ (data.flatMap byteBits ++ List.replicate 4 false) := by
          rw [← List.append_assoc, List.take_append_drop]
          simpa [hqdef] using h
        have h8 : (q.take 8).length = (byteBits byte).length := by
          simp [hqdef, byteBits, length_lowBits]
          omega
        obtain ⟨hbyte, hrest⟩ := List.append_inj happ h8
        have hr : (q.drop 8).length = p.length + 5 - 8 := by simp [hqdef]
        obtain ⟨hhigh, hlow⟩ := ofBits_byte byte (q.drop 8)
        rw [← hbyte, List.take_append_drop] at hhigh hlow
        rw [List.length_cons] at hl
        rw [if_pos hk, ← hr, hhigh, hlow, ih (by omega) hrest (by omega)]
        simp
    · have hq5 : (p ++ [a, b, c, d, e]).length = p.length + 5 := by simp
      rw [if_neg hk, ← hq5]
      exact ih (by omega) (by simpa using h) (by omega)
  | case2 bits hne =>
    have hlt : bits.length < 5 := by
      match bits with
      | [] | [_] | [_, _] | [_, _, _] | [_, _, _, _] => simp
      | a :: b :: c :: d :: e :: bits => exact (hne a b c d e bits rfl).elim
    cases data with
    | nil => simp [base32Loop]
    | cons byte data =>
      rw [List.length_cons] at hl
      omega

theorem base32Loop_error {text : Text} (h : ∃ c ∈ text, ∃ e, base32Value c = .error e)
    (bits bitCount : Nat) (output : List UInt8) :
    ∃ e, base32Loop bits bitCount output text = .error e := by
  induction text generalizing bits bitCount output with
  | nil => simp at h
  | cons c text ih =>
    rw [base32Loop]
    rcases hc : base32Value c with e | value
    · exact ⟨e, rfl⟩
    · rw [List.exists_mem_cons_iff, hc] at h
      have ht := ih (h.resolve_left nofun)
      dsimp only
      split <;> exact ht _ _ _

/-- The encoding of some bytes, in any case of letters and with any whitespace and `=` in it, is
  decoded to the bytes. Other characters are refused, and so is an empty text. -/
theorem base32Decode_exact (input : Text) :
    let clean := input.filter fun c => !isWhitespace c && c ≠ '='
    (∀ data ≠ [], toAsciiUppercase clean = base32Encode data → base32Decode input = .ok data) ∧
    ((clean = [] ∨ ∃ c ∈ clean, ¬ (('A' ≤ c ∧ c ≤ 'Z') ∨ ('a' ≤ c ∧ c ≤ 'z') ∨
        ('2' ≤ c ∧ c ≤ '7'))) → ∃ e, base32Decode input = .error e) := by
  intro clean
  constructor
  · intro data hd h
    have hloop : base32Loop 0 0 [] (toAsciiUppercase clean) = .ok data :=
      h ▸ base32Loop_groups (p := []) (by decide) rfl
    have hne : clean ≠ [] := by
      intro hc
      rw [hc] at hloop
      exact hd (Except.ok.inj hloop).symm
    rw [base32Decode, if_neg hne, ← base32Loop_toUpper, hloop]
  · rintro (h | ⟨c, hc, h⟩)
    · exact ⟨_, if_pos h⟩
    · rw [base32Decode, if_neg (List.ne_nil_of_mem hc)]
      rw [not_or, not_or] at h
      have he : base32Value c = .error "invalid Base32 character" := by
        rw [base32Value, if_neg h.1, if_neg h.2.1, if_neg h.2.2]
      exact base32Loop_error ⟨c, hc, _, he⟩ _ _ _

/-- A secret in lower case, with a space and its padding. -/
theorem base32Decode_exact_padded :
    base32Decode ['m', 'z', ' ', 'X', 'q', '=', '='] = .ok [0x66, 0x6F] :=
  (base32Decode_exact _).1 [0x66, 0x6F] (by decide) (by decide)

end AegisToken.Host
