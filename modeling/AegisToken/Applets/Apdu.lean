/-
  Command and response APDUs and status words (aegis-applets apdu.rs), and the BER-TLV reader and
  writer (tlv.rs). A reader stops at the first malformed element, as the iterator of the source
  does. An output buffer is the list of the bytes written so far, with its capacity as a
  parameter.
-/
import AegisToken.Lib.Bytes

namespace AegisToken.Applets
open ByteCodec

/-! ## Status words -/

/-- ISO 7816-4 status word. -/
structure Sw where
  code : UInt16
deriving DecidableEq, Repr

namespace Sw

def ok : Sw := ⟨0x9000⟩
def wrongLength : Sw := ⟨0x6700⟩
def wrongData : Sw := ⟨0x6A80⟩
def functionNotSupported : Sw := ⟨0x6A81⟩
def fileNotFound : Sw := ⟨0x6A82⟩
def notEnoughMemory : Sw := ⟨0x6A84⟩
def incorrectParameters : Sw := ⟨0x6A86⟩
def referencedDataNotFound : Sw := ⟨0x6A88⟩
def securityStatusNotSatisfied : Sw := ⟨0x6982⟩
def authenticationBlocked : Sw := ⟨0x6983⟩
def oathObjectNotFound : Sw := ⟨0x6984⟩
def authNotEnabled : Sw := ⟨0x6984⟩
def authenticationFailed : Sw := ⟨0x6984⟩
def conditionsNotSatisfied : Sw := ⟨0x6985⟩
def insNotSupported : Sw := ⟨0x6D00⟩
def claNotSupported : Sw := ⟨0x6E00⟩
def noPreciseDiagnosis : Sw := ⟨0x6F00⟩

/-- The internal marker of a command that waits for user presence. -/
def presenceRequired : Sw := ⟨0x6FF0⟩

/-- `63Cx`: verification failed, `x` attempts remain. -/
def retriesLeft (remaining : UInt8) : Sw := ⟨0x63C0 ||| (remaining.toUInt16 &&& 0x0F)⟩

def isRetryIndicator (sw : Sw) : Bool := sw.code &&& 0xFFF0 == 0x63C0

theorem isRetryIndicator_retriesLeft (remaining : UInt8) :
    (retriesLeft remaining).isRetryIndicator = true := by
  have h : ∀ i : Fin 256, (retriesLeft (UInt8.ofFin i)).isRetryIndicator = true := by
    decide +kernel
  exact h remaining.toFin

theorem retriesLeft_ne_ok (remaining : UInt8) : retriesLeft remaining ≠ ok := by
  intro h
  have := isRetryIndicator_retriesLeft remaining
  rw [h] at this
  cases this

end Sw

/-! ## Commands and responses -/

/-- A parsed command APDU, as far as the applets read it. -/
structure Apdu where
  ins : UInt8
  p1 : UInt8
  p2 : UInt8
  data : List UInt8
  le : Option Nat
deriving DecidableEq

/-- Number of response bytes the host is willing to accept. -/
def Apdu.expectedLen (apdu : Apdu) : Nat := apdu.le.getD 0

/-- An APDU response: data and a status word. -/
structure Response where
  data : List UInt8
  sw : Sw
deriving DecidableEq

def Response.ok (data : List UInt8) : Response := ⟨data, .ok⟩

def Response.status (sw : Sw) : Response := ⟨[], sw⟩

/-- The command waits for user presence. -/
def Response.presenceRequired : Response := .status .presenceRequired

def Response.ofResult : Except Sw Unit → Response
  | .ok () => .status .ok
  | .error sw => .status sw

/-- The answer of a write. -/
def written (ok : Bool) (answer : Response) : Response :=
  if ok then answer else .status .notEnoughMemory

/-! ## BER-TLV -/

namespace Tlv

/-- The bytes of a tag after the first one, up to one without the high bit. -/
def readTagRest (tag index : Nat) : List UInt8 → Option (Nat × Nat)
  | [] => none
  | byte :: rest =>
    if 3 < index then none
    else if byte &&& 0x80 = 0 then some (tag * 256 + byte.toNat, index + 1)
    else readTagRest (tag * 256 + byte.toNat) (index + 1) rest

/-- Parse a tag: its value and its encoded length. -/
def readTag : List UInt8 → Option (Nat × Nat)
  | [] => none
  | first :: rest =>
    if first &&& 0x1F ≠ 0x1F then some (first.toNat, 1) else readTagRest first.toNat 1 rest

/-- Parse a definite length: its value and its encoded length. -/
def readLength : List UInt8 → Option (Nat × Nat)
  | [] => none
  | first :: rest =>
    if first < 0x80 then some (first.toNat, 1)
    else
      let count := (first &&& 0x7F).toNat
      if count = 0 ∨ 3 < count ∨ rest.length < count then none
      else some (ofBE (rest.take count), 1 + count)

/-- The next element: its tag, its value and what follows it. -/
def next (bytes : List UInt8) : Option (Nat × List UInt8 × List UInt8) := do
  let (tag, tagLen) ← readTag bytes
  let (length, lengthLen) ← readLength (bytes.drop tagLen)
  let body := bytes.drop (tagLen + lengthLen)
  if body.length < length then none else some (tag, body.take length, body.drop length)

def findIn (tag : Nat) : Nat → List UInt8 → Option (List UInt8)
  | 0, _ => none
  | elements + 1, bytes => do
    let (t, value, rest) ← next bytes
    if t = tag then some value else findIn tag elements rest

/-- The first element with the tag. An element has at least two bytes, so there are no more
  elements than bytes. -/
def find (bytes : List UInt8) (tag : Nat) : Option (List UInt8) := findIn tag bytes.length bytes

def tagEncodedLen (tag : Nat) : Nat := if tag ≤ 0xFF then 1 else if tag ≤ 0xFFFF then 2 else 3

def lengthEncodedLen (len : Nat) : Nat :=
  if len < 0x80 then 1 else if len ≤ 0xFF then 2 else if len ≤ 0xFFFF then 3 else 4

def lengthBytes (len : Nat) : List UInt8 :=
  match lengthEncodedLen len with
  | 1 => toBE 1 len
  | 2 => 0x81 :: toBE 1 len
  | 3 => 0x82 :: toBE 2 len
  | _ => 0x83 :: toBE 3 len

/-- Number of bytes of an element with a value of `len` bytes. -/
def encodedLen (tag len : Nat) : Nat := tagEncodedLen tag + lengthEncodedLen len + len

/-- `tag || length || value`. -/
def element (tag : Nat) (value : List UInt8) : List UInt8 :=
  toBE (tagEncodedLen tag) tag ++ lengthBytes value.length ++ value

theorem lengthEncodedLen_le {len : Nat} (h : len ≤ 0xFFFF) : lengthEncodedLen len ≤ 3 := by
  unfold lengthEncodedLen
  split_ifs <;> omega

theorem length_lengthBytes (len : Nat) : (lengthBytes len).length = lengthEncodedLen len := by
  unfold lengthBytes lengthEncodedLen
  split_ifs <;> simp [length_toBE]

theorem length_element (tag : Nat) (value : List UInt8) :
    (element tag value).length = encodedLen tag value.length := by
  unfold element encodedLen
  rw [List.length_append, List.length_append, length_toBE, length_lengthBytes]

theorem length_element_short {tag : Nat} {value : List UInt8} (ht : tagEncodedLen tag = 1)
    (h : value.length < 128) : (element tag value).length = 2 + value.length := by
  rw [length_element, encodedLen, ht, lengthEncodedLen, if_pos h]

/-- The length of an element determines the length of its value, so the element the value. -/
theorem element_inj {tag : Nat} {value value' : List UInt8}
    (h : element tag value = element tag value') : value = value' := by
  have hl : encodedLen tag value.length = encodedLen tag value'.length := by
    rw [← length_element, ← length_element, h]
  have hvl : value.length = value'.length := by
    unfold encodedLen lengthEncodedLen at hl
    split_ifs at hl <;> omega
  exact (List.append_inj' h hvl).2

end Tlv

/-- Append an element to a buffer of capacity `cap`: whether it fitted, and the buffer, which is
  left as it was when it did not. -/
def appendTlv (cap : Nat) (out : List UInt8) (tag : Nat) (value : List UInt8) :
    Bool × List UInt8 :=
  if cap < out.length + Tlv.encodedLen tag value.length then (false, out)
  else (true, out ++ Tlv.element tag value)

end AegisToken.Applets
