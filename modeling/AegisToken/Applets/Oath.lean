/-
  The OATH applet (aegis-applets oath.rs): one-time passwords behind an access code.
  `Oath σ` is the state of the applet over a store with states `σ`. The store is the trait
  `OathStore`: a load gives the stored bytes, none of them when the store is blank, or nothing
  when the read failed; a save and an erase may fail. A command returns its response and the
  applet it leaves; the output buffer and the state buffer are not part of the state. HMAC and
  SHA-256 are the parameter `OathCrypto`, of which nothing is assumed; HMAC takes a key of any
  length.
-/
import AegisToken.Lib.Records
import AegisToken.Applets.PinSlot
import AegisToken.Applets.Rsa

namespace AegisToken.Applets
open ByteCodec Wire

/-- The primitives of the OATH applet. -/
structure OathCrypto where
  hmacSha1 : List UInt8 → List UInt8 → FixedBytes 20
  hmacSha256 : List UInt8 → List UInt8 → FixedBytes 32
  hmacSha512 : List UInt8 → List UInt8 → FixedBytes 64
  sha256 : List UInt8 → FixedBytes 32

namespace Oath

/-! ## Constants -/

def maxCredentials : Nat := 16
def maxName : Nat := 64
def maxSecret : Nat := 64
def stateBytes : Nat := 4096
def outBytes : Nat := 2048

def insPut : UInt8 := 0x01
def insDelete : UInt8 := 0x02
def insSetCode : UInt8 := 0x03
def insReset : UInt8 := 0x04
def insList : UInt8 := 0xA1
def insCalculate : UInt8 := 0xA2
def insValidate : UInt8 := 0xA3
def insCalculateAll : UInt8 := 0xA4

def tagName : Nat := 0x71
def tagNameList : Nat := 0x72
def tagKey : Nat := 0x73
def tagChallenge : Nat := 0x74
def tagResponse : Nat := 0x75
def tagTruncated : Nat := 0x76
def tagHotp : Nat := 0x77
def tagProperty : Nat := 0x78
def tagVersion : Nat := 0x79
def tagImf : Nat := 0x7A
def tagTouch : Nat := 0x7C

def typeHotp : UInt8 := 0x10
def typeTotp : UInt8 := 0x20
def algorithmSha1 : UInt8 := 0x01
def algorithmSha256 : UInt8 := 0x02
def algorithmSha512 : UInt8 := 0x03
def propertyOnlyIncreasing : UInt8 := 0x01
def propertyTouch : UInt8 := 0x02

def stateVersion : UInt8 := 1

/-- `"AegisOAT"`. -/
def deviceId : List UInt8 := [0x41, 0x65, 0x67, 0x69, 0x73, 0x4F, 0x41, 0x54]

def defaultChallenge : FixedBytes 8 := ⟨List.replicate 8 0xA5, rfl⟩

end Oath

/-- The trait `OathStore`. -/
structure OathStore (σ : Type) where
  load : σ → Option (BoundedBytes Oath.stateBytes) × σ
  save : List UInt8 → σ → Bool × σ
  clear : σ → Bool × σ

namespace Oath

/-! ## State -/

structure Credential where
  name : BoundedBytes maxName
  kind : UInt8
  algorithm : UInt8
  digits : UInt8
  property : UInt8
  counter : UInt32
  period : UInt32
  secret : BoundedBytes maxSecret
deriving DecidableEq

/-- The stored credentials. -/
abbrev Credentials := { l : List Credential // l.length ≤ maxCredentials }

def Credentials.empty : Credentials := ⟨[], Nat.zero_le _⟩

def Credentials.push (cs : Credentials) (credential : Credential) : Option Credentials :=
  if h : (cs.val ++ [credential]).length ≤ maxCredentials then some ⟨cs.val ++ [credential], h⟩
  else none

def Credentials.set (cs : Credentials) (index : Nat) (credential : Credential) : Credentials :=
  ⟨cs.val.set index credential, by rw [List.length_set]; exact cs.property⟩

/-- Remove a credential; the last one takes its place. -/
def Credentials.swapRemove (cs : Credentials) (index : Nat) : Credentials :=
  match cs.val.getLast? with
  | none => cs
  | some last => ⟨(cs.val.set index last).dropLast, by
      have := cs.property
      rw [List.length_dropLast, List.length_set]
      omega⟩

/-- A calculation that waits for a touch. -/
structure PendingCalculation where
  index : Nat
  challenge : FixedBytes 8
  truncated : Bool
deriving DecidableEq

end Oath

/-- The applet. -/
structure Oath (σ : Type) where
  store : σ
  credentials : Oath.Credentials
  authKey : BoundedBytes Oath.maxSecret
  authAlgorithm : UInt8
  authChallenge : FixedBytes 8
  authenticated : Bool
  pending : Option Oath.PendingCalculation
  loaded : Bool
  closed : Bool

namespace Oath

variable {σ : Type}

def new (store : σ) : Oath σ where
  store
  credentials := Credentials.empty
  authKey := BoundedBytes.empty _
  authAlgorithm := algorithmSha1
  authChallenge := defaultChallenge
  authenticated := false
  pending := none
  loaded := false
  closed := false

/-! ## Encoding -/

/-- The pieces of a value in a field of a fixed width. -/
def fixedPieces (value : List UInt8) (width : Nat) : List (List UInt8) :=
  value :: zeroPieces value.length width

def Credential.pieces (credential : Credential) : List (List UInt8) :=
  [[credential.kind], [credential.algorithm], [credential.digits], [credential.property],
    toBE 4 credential.counter.toNat, toBE 4 credential.period.toNat,
    [UInt8.ofNat credential.name.val.length]] ++ fixedPieces credential.name.val maxName ++
    [[UInt8.ofNat credential.secret.val.length]] ++ fixedPieces credential.secret.val maxSecret

/-- What `save_state` pushes, in order. -/
def statePieces (c : Oath σ) : List (List UInt8) :=
  [[stateVersion], [UInt8.ofNat c.credentials.val.length], [if c.authKey.val = [] then 0 else 1],
    [c.authAlgorithm], [UInt8.ofNat c.authKey.val.length]] ++
    fixedPieces c.authKey.val maxSecret ++ fixedPieces c.authChallenge.val 8 ++
    c.credentials.val.flatMap Credential.pieces

def encodeState (c : Oath σ) : List UInt8 := c.statePieces.foldl (extendTo stateBytes) []

/-! ## Decoding -/

/-- A value of at most `n` bytes behind a length byte, in a field of `n` bytes. -/
def decodeField (n : Nat) (len : UInt8) (raw : List UInt8) : Parser Unit (BoundedBytes n) :=
  match BoundedBytes.ofSlice n (raw.take len.toNat) with
  | some value => pure value
  | none => reject ()

def decodeCredential : Parser Unit Credential := do
  let kind ← takeByte
  let algorithm ← takeByte
  let digits ← takeByte
  let property ← takeByte
  let counter ← takeBE 4
  let period ← takeBE 4
  let nameLen ← takeByte
  let nameBytes ← takeN maxName
  let secretLen ← takeByte
  let secretBytes ← takeN maxSecret
  if maxName < nameLen.toNat ∨ maxSecret < secretLen.toNat then reject ()
  else
    let name ← decodeField maxName nameLen nameBytes
    let secret ← decodeField maxSecret secretLen secretBytes
    return {
      name, kind, algorithm, digits, property, counter := UInt32.ofNat counter
      period := UInt32.ofNat period, secret }

/-- One turn of the loop over the credentials. -/
def decodeTurn (cs : Credentials) : Parser Unit Credentials := do
  let credential ← decodeCredential
  match cs.push credential with
  | some cs => return cs
  | none => reject ()

/-- The access key, if the state has one. -/
def decodeAuthKey (present len : UInt8) (raw : List UInt8) : Parser Unit (BoundedBytes maxSecret) :=
  if present ≠ 0 then decodeField maxSecret len raw else pure (BoundedBytes.empty _)

/-- Parse the state into the applet. -/
def stateParser (c : Oath σ) : Parser Unit (Oath σ) := do
  let version ← takeByte
  if version ≠ stateVersion then reject ()
  else
    let count ← takeByte
    if maxCredentials < count.toNat then reject ()
    else
      let authPresent ← takeByte
      let authAlgorithm ← takeByte
      let authLen ← takeByte
      let authBytes ← takeN maxSecret
      let challenge ← takeN 8
      if maxSecret < authLen.toNat then reject ()
      else
        let authKey ← decodeAuthKey authPresent authLen authBytes
        let credentials ← turns decodeTurn count.toNat Credentials.empty
        return { c with
          credentials, authKey, authAlgorithm, authChallenge := FixedBytes.ofList 8 challenge }

def decodeState (c : Oath σ) (bytes : List UInt8) : Option (Oath σ) :=
  match c.stateParser bytes with
  | .ok (c, _) => some c
  | .error _ => none

/-! ## Loading and saving -/

/-- The state of a boot. -/
def resetVolatileState (c : Oath σ) : Oath σ :=
  { c with
    credentials := Credentials.empty, authKey := BoundedBytes.empty _
    authAlgorithm := algorithmSha1, authChallenge := defaultChallenge, authenticated := false
    pending := none, closed := false }

def close (c : Oath σ) : Oath σ := { c.resetVolatileState with closed := true }

section
variable (S : OathStore σ)

/-- Load the state once. A failed read and a rejected state close the applet; what a rejected
  state has written by then is reset. -/
def loadState (c : Oath σ) : Oath σ :=
  if c.loaded then c
  else
    let (read, store) := S.load c.store
    let c := { c with loaded := true, store }
    match read with
    | none => c.close
    | some bytes =>
      if bytes.val = [] then c.resetVolatileState
      else
        match c.decodeState bytes.val with
        | some c => { c with closed := false }
        | none => c.close

def stateAvailable (c : Oath σ) : Bool × Oath σ :=
  let c := c.loadState S
  (!c.closed, c)

def saveState (c : Oath σ) : Bool × Oath σ :=
  let (saved, store) := S.save c.encodeState c.store
  (saved, { c with store })

/-- Save the state and answer with `answer`, or say that it could not be stored. -/
def saveAnswer (answer : Response) (c : Oath σ) : Response × Oath σ :=
  match c.saveState S with
  | (true, c) => (answer, c)
  | (false, c) => (.status .notEnoughMemory, c)

end

end Oath

end AegisToken.Applets
