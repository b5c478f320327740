/-
  The commands of the OATH applet (aegis-applets oath.rs): credentials, calculations, the access
  code, SELECT and user presence.
-/
import AegisToken.Applets.Oath

namespace AegisToken.Applets.Oath
open ByteCodec

variable {σ : Type} (K : OathCrypto) (S : OathStore σ)

/-! ## Primitives -/

def hmacDigest (algorithm : UInt8) (key data : List UInt8) : Option (List UInt8) :=
  if algorithm = algorithmSha1 then some (K.hmacSha1 key data).val
  else if algorithm = algorithmSha256 then some (K.hmacSha256 key data).val
  else if algorithm = algorithmSha512 then some (K.hmacSha512 key data).val
  else none

def deriveChallenge (previous input : List UInt8) : FixedBytes 8 :=
  FixedBytes.ofList 8 ((K.sha256 (previous ++ input)).val.take 8)

/-- The period in front of the first `/` of a name, 30 if there is none. The sums saturate. -/
def credentialPeriod (name : List UInt8) : UInt32 :=
  match name.findIdx? (· = 0x2F) with
  | none => 30
  | some 0 => 30
  | some separator =>
    let digits := name.take separator
    if digits.any fun byte => byte < 0x30 ∨ 0x39 < byte then 30
    else
      let period := digits.foldl
        (fun period byte => min (2 ^ 32 - 1) (min (2 ^ 32 - 1) (period * 10) + (byte - 0x30).toNat)) 0
      if period = 0 then 30 else UInt32.ofNat period

/-- The code of a credential: the digits and the digest, or its dynamic truncation. -/
def computeCredential (credential : Credential) (challenge : List UInt8) (truncated : Bool) :
    Option (List UInt8) := do
  let movingFactor ←
    if credential.kind = typeHotp then some (toBE 8 credential.counter.toNat)
    else if challenge.length ≠ 8 then none
    else some challenge
  let digest ← hmacDigest K credential.algorithm credential.secret.val movingFactor
  if !truncated then some (credential.digits :: digest)
  else
    let last ← digest.getLast?
    let offset := (last &&& 0x0F).toNat
    if digest.length < offset + 4 then none
    else
      some [credential.digits, digest.getD offset 0 &&& 0x7F, digest.getD (offset + 1) 0,
        digest.getD (offset + 2) 0, digest.getD (offset + 3) 0]

/-! ## Credentials -/

structure ParsedKey where
  kind : UInt8
  algorithm : UInt8
  digits : UInt8
  secret : BoundedBytes maxSecret

/-- Parse the body of a PUT: the name, the key, the properties and the counter. -/
def parsePut (data : List UInt8) : Option (List UInt8 × ParsedKey × UInt8 × UInt32) := do
  let name ← Tlv.find data tagName
  let keyValue ← Tlv.find data tagKey
  match keyValue with
  | first :: digits :: secret =>
    let kind := first &&& 0xF0
    let algorithm := first &&& 0x0F
    if secret = [] then none
    else if kind ≠ typeHotp ∧ kind ≠ typeTotp then none
    else if algorithm ≠ algorithmSha1 ∧ algorithm ≠ algorithmSha256 ∧
        algorithm ≠ algorithmSha512 then none
    else if digits ≠ 6 ∧ digits ≠ 7 ∧ digits ≠ 8 then none
    else
      let secret ← BoundedBytes.ofSlice maxSecret secret
      let property := match Tlv.find data tagProperty with
        | some value => value.headD 0
        | none => 0
      if property &&& ~~~(propertyOnlyIncreasing ||| propertyTouch) ≠ 0 then none
      else
        let counter ← match Tlv.find data tagImf with
          | some value => if value.length = 4 then some (UInt32.ofNat (ofBE value)) else none
          | none => some 0
        if kind = typeTotp ∧ (Tlv.find data tagImf).isSome then none
        else some (name, ⟨kind, algorithm, digits, secret⟩, property, counter)
  | _ => none

/-- A credential command needs no access code, or an authenticated session. -/
def requireAuth (c : Oath σ) : Except Sw Unit :=
  if c.authKey.val = [] ∨ c.authenticated then .ok () else .error .securityStatusNotSatisfied

def find (c : Oath σ) (name : List UInt8) : Option Nat :=
  c.credentials.val.findIdx? fun credential => credential.name.val = name

/-- The credentials with a new one, or in the place of the one with its name. -/
def install (c : Oath σ) (credential : Credential) : Option Credentials :=
  match c.find credential.name.val with
  | some index => some (c.credentials.set index credential)
  | none => c.credentials.push credential

/-- PUT. An armed touch does not survive it, even when it is refused. -/
def put (apdu : Apdu) (c : Oath σ) : Response × Oath σ :=
  let c := { c with pending := none }
  match c.requireAuth with
  | .error sw => (.status sw, c)
  | .ok () =>
    match parsePut apdu.data with
    | none => (.status .wrongData, c)
    | some (name, key, property, counter) =>
      if name = [] ∨ maxName < name.length ∨ key.secret.val = [] then (.status .wrongData, c)
      else
        match BoundedBytes.ofSlice maxName name with
        | none => (.status .wrongData, c)
        | some credentialName =>
          let credential : Credential := {
            name := credentialName, kind := key.kind, algorithm := key.algorithm
            digits := key.digits, property, counter, period := credentialPeriod name
            secret := key.secret }
          match c.install credential with
          | none => (.status .notEnoughMemory, c)
          | some credentials => { c with credentials }.saveAnswer S (.status .ok)

def delete (apdu : Apdu) (c : Oath σ) : Response × Oath σ :=
  let c := { c with pending := none }
  match c.requireAuth with
  | .error sw => (.status sw, c)
  | .ok () =>
    match Tlv.find apdu.data tagName with
    | none => (.status .wrongData, c)
    | some name =>
      match c.find name with
      | none => (.status .oathObjectNotFound, c)
      | some index =>
        { c with credentials := c.credentials.swapRemove index }.saveAnswer S (.status .ok)

/-- Append elements one after another; nothing when one does not fit. -/
def appendElements (out : List UInt8) : List (Nat × List UInt8) → Option (List UInt8)
  | [] => some out
  | (tag, value) :: rest =>
    match appendTlv outBytes out tag value with
    | (true, out) => appendElements out rest
    | (false, _) => none

def elementsAnswer (elements : List (Nat × List UInt8)) : Response :=
  match appendElements [] elements with
  | some out => .ok out
  | none => .status .notEnoughMemory

def list (c : Oath σ) : Response :=
  match c.requireAuth with
  | .error sw => .status sw
  | .ok () => elementsAnswer (c.credentials.val.map fun credential =>
      (tagNameList, (credential.kind ||| credential.algorithm) :: credential.name.val))

/-! ## Calculations -/

/-- Calculate with a credential that is there. A counter moves, and is stored, before its code is
  released. -/
def calculateIndex (index : Nat) (challenge : List UInt8) (truncated : Bool) (c : Oath σ) :
    Response × Oath σ :=
  match c.credentials.val[index]? with
  | none => (.status .noPreciseDiagnosis, c)
  | some credential =>
    match computeCredential K credential challenge truncated with
    | none => (.status .noPreciseDiagnosis, c)
    | some code =>
      let answer := elementsAnswer [(if truncated then tagTruncated else tagResponse, code)]
      if credential.kind = typeHotp then
        { c with
          credentials := c.credentials.set index
            { credential with counter := credential.counter + 1 } }.saveAnswer S answer
      else (answer, c)

/-- CALCULATE. A credential with the touch property arms a request. -/
def calculate (apdu : Apdu) (c : Oath σ) : Response × Oath σ :=
  match c.requireAuth with
  | .error sw => (.status sw, c)
  | .ok () =>
    match Tlv.find apdu.data tagName with
    | none => (.status .wrongData, c)
    | some name =>
      let challenge := (Tlv.find apdu.data tagChallenge).getD []
      let truncated : Bool := apdu.p2 = 0x01
      match c.find name with
      | none => (.status .oathObjectNotFound, c)
      | some index =>
        match c.credentials.val[index]? with
        | none => (.status .noPreciseDiagnosis, c)
        | some credential =>
          if credential.property &&& propertyTouch ≠ 0 then
            if 8 < challenge.length then (.status .wrongData, c)
            else
              let padded := FixedBytes.ofList 8 (List.replicate (8 - challenge.length) 0 ++ challenge)
              (.presenceRequired, { c with pending := some ⟨index, padded, truncated⟩ })
          else c.calculateIndex K S index challenge truncated

/-- The elements CALCULATE ALL appends, with nothing where a code cannot be computed. A counter
  is not moved and a touch is not asked for: such a credential is only named. -/
def codeElement (challenge : List UInt8) (truncated : Bool) (credential : Credential) :
    Option (Nat × List UInt8) :=
  if credential.kind = typeHotp then some (tagHotp, [])
  else if credential.property &&& propertyTouch ≠ 0 then some (tagTouch, [])
  else (computeCredential K credential challenge truncated).map
    ((if truncated then tagTruncated else tagResponse), ·)

/-- The loop of CALCULATE ALL over the credentials. -/
def appendCodes (challenge : List UInt8) (truncated : Bool) :
    List UInt8 → List Credential → Except Sw (List UInt8)
  | out, [] => .ok out
  | out, credential :: rest =>
    match appendTlv outBytes out tagName credential.name.val with
    | (false, _) => .error .notEnoughMemory
    | (true, out) =>
      match codeElement K challenge truncated credential with
      | none => .error .noPreciseDiagnosis
      | some (tag, value) =>
        match appendTlv outBytes out tag value with
        | (false, _) => .error .notEnoughMemory
        | (true, out) => appendCodes challenge truncated out rest

def calculateAll (apdu : Apdu) (c : Oath σ) : Response :=
  match c.requireAuth with
  | .error sw => .status sw
  | .ok () =>
    match Tlv.find apdu.data tagChallenge with
    | none => .status .wrongData
    | some challenge =>
      if challenge.length ≠ 8 then .status .wrongData
      else
        match appendCodes K challenge (apdu.p2 = 0x01) [] c.credentials.val with
        | .ok out => .ok out
        | .error sw => .status sw

/-! ## The access code -/

/-- A new access code. -/
structure NewCode where
  algorithm : UInt8
  key : List UInt8
  challenge : List UInt8
deriving DecidableEq

/-- The code that the body of a SET CODE proves, or the status word of its refusal. -/
def parseCode (data : List UInt8) : Except Sw NewCode :=
  match Tlv.find data tagKey with
  | none => .error .wrongData
  | some [] => .error .wrongData
  | some (algorithm :: key) =>
    match Tlv.find data tagChallenge with
    | none => .error .wrongData
    | some challenge =>
      match Tlv.find data tagResponse with
      | none => .error .wrongData
      | some response =>
        match hmacDigest K algorithm key challenge with
        | none => .error .wrongData
        | some expected =>
          if !constantTimeEq expected response then .error .authenticationFailed
          else .ok ⟨algorithm, key, challenge⟩

def withoutCode (c : Oath σ) : Oath σ :=
  { c with authKey := BoundedBytes.empty _, authenticated := false }

def withCode (code : NewCode) (key : BoundedBytes maxSecret) (c : Oath σ) : Oath σ :=
  { c with
    authKey := key, authAlgorithm := code.algorithm
    authChallenge := deriveChallenge K code.challenge code.key, authenticated := true }

/-- SET CODE. Without data it removes the code. The key in RAM is replaced before the state is
  saved, and it is cleared before a key that does not fit is refused. -/
def setCode (apdu : Apdu) (c : Oath σ) : Response × Oath σ :=
  match c.requireAuth with
  | .error sw => (.status sw, c)
  | .ok () =>
    if apdu.data = [] then c.withoutCode.saveAnswer S (.status .ok)
    else
      match parseCode K apdu.data with
      | .error sw => (.status sw, c)
      | .ok code =>
        match BoundedBytes.ofSlice maxSecret code.key with
        | none => (.status .notEnoughMemory, { c with authKey := BoundedBytes.empty _ })
        | some key => (c.withCode K code key).saveAnswer S (.status .ok)

/-- VALIDATE: the host proves the code on the challenge of the card, and gets the proof of the
  card on its own challenge. -/
def validate (apdu : Apdu) (c : Oath σ) : Response × Oath σ :=
  if c.authKey.val = [] then (.status .authNotEnabled, c)
  else
    match Tlv.find apdu.data tagResponse with
    | none => (.status .wrongData, c)
    | some response =>
      match Tlv.find apdu.data tagChallenge with
      | none => (.status .wrongData, c)
      | some challenge =>
        match hmacDigest K c.authAlgorithm c.authKey.val c.authChallenge.val with
        | none => (.status .noPreciseDiagnosis, c)
        | some expected =>
          if !constantTimeEq expected response then (.status .authenticationFailed, c)
          else
            match hmacDigest K c.authAlgorithm c.authKey.val challenge with
            | none => (.status .noPreciseDiagnosis, c)
            | some verification =>
              { c with
                authChallenge := deriveChallenge K c.authChallenge.val challenge
                authenticated := true }.saveAnswer S (elementsAnswer [(tagResponse, verification)])

/-- RESET: the erase has to persist before the empty state is applied. -/
def reset (c : Oath σ) : Response × Oath σ :=
  let c := { c with pending := none }
  let (cleared, store) := S.clear c.store
  let c := { c with store }
  if !cleared then (.status .notEnoughMemory, c)
  else
    (.status .ok, { c with
      credentials := Credentials.empty, authKey := BoundedBytes.empty _, authenticated := false
      authChallenge := defaultChallenge, loaded := true, closed := false })

/-! ## SELECT and dispatch -/

/-- The answer of SELECT, and the session it starts. -/
def selectResponse (c : Oath σ) : Response × Oath σ :=
  let c := { c with authenticated := !c.closed && c.authKey.val = [], pending := none }
  let code : List (Nat × List UInt8) :=
    if !c.closed ∧ c.authKey.val ≠ [] then
      [(tagChallenge, c.authChallenge.val), (0x7B, [c.authAlgorithm])]
    else []
  (elementsAnswer ([(tagVersion, [5, 0, 0]), (tagName, deviceId)] ++ code), c)

def select (c : Oath σ) : Response × Oath σ :=
  ({ c with loaded := false }.loadState S).selectResponse

/-- SELECT with a fresh challenge. -/
def selectWithRng (rng : Rng) (c : Oath σ) : Response × Oath σ :=
  let c := { c with loaded := false }.loadState S
  let c := if c.authKey.val ≠ [] then { c with authChallenge := (fillBytes 8 rng).1 } else c
  c.selectResponse

def dispatch (apdu : Apdu) (c : Oath σ) : Response × Oath σ :=
  if apdu.ins = insPut then c.put S apdu
  else if apdu.ins = insDelete then c.delete S apdu
  else if apdu.ins = insSetCode then c.setCode K S apdu
  else if apdu.ins = insReset ∧ apdu.p1 = 0xDE ∧ apdu.p2 = 0xAD then c.reset S
  else if apdu.ins = insList ∧ apdu.p1 = 0 ∧ apdu.p2 = 0 then (c.list, c)
  else if apdu.ins = insCalculate then c.calculate K S apdu
  else if apdu.ins = insValidate then c.validate K S apdu
  else if apdu.ins = insCalculateAll then (c.calculateAll K apdu, c)
  else (.status .insNotSupported, c)

/-- Process one command. A closed applet serves RESET only. -/
def process (apdu : Apdu) (c : Oath σ) : Response × Oath σ :=
  let (available, c) := c.stateAvailable S
  if !available ∧ apdu.ins ≠ insReset then (.status .noPreciseDiagnosis, c)
  else c.dispatch K S apdu

/-- The user touched the card: the armed calculation, if the credential is still there. -/
def confirmPresence (c : Oath σ) : Response × Oath σ :=
  let (available, c) := c.stateAvailable S
  if !available then (.status .noPreciseDiagnosis, c)
  else
    match c.pending with
    | none => (.status .conditionsNotSatisfied, c)
    | some pending =>
      let c := { c with pending := none }
      if c.credentials.val.length ≤ pending.index then (.status .conditionsNotSatisfied, c)
      else c.calculateIndex K S pending.index pending.challenge.val pending.truncated

def denyPresence (c : Oath σ) : Response × Oath σ :=
  (.status .securityStatusNotSatisfied, { c with pending := none })

end AegisToken.Applets.Oath
