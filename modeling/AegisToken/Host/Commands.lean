/-
  The command APDUs of the host tool against the parser of the device (aegistoken-host oath_cmd.rs
  and piv_cmd.rs, aegis-applets apdu.rs).
  The OATH commands write the length of the body in one byte; `piv_import_cert` writes it as a BER
  length, which is an Lc only below 128; `piv_set_mgmt_key` writes none, so the device takes the
  algorithm for the length. `framing_exact` says for which inputs the device sees the command that
  the host meant.
-/
import AegisToken.Applets.Framing
import AegisToken.Host.OathCmd

namespace AegisToken.Host
open Applets ByteCodec

/-! ## Commands -/

def algTdes : UInt8 := 0x03
def algAes128 : UInt8 := 0x08
def algAes192 : UInt8 := 0x0A
def algAes256 : UInt8 := 0x0C

/-- The algorithm that `piv_set_mgmt_key` is told to use, or infers from the key. -/
def mgmtAlgorithm (argument : Option Text) (key : List UInt8) : Except String UInt8 :=
  match argument with
  | some a =>
    let lower := toAsciiLowercase a
    if lower = ['t', 'd', 'e', 's'] ∨ lower = ['3', 'd', 'e', 's'] then .ok algTdes
    else if lower = ['a', 'e', 's', '1', '2', '8'] ∨ lower = ['a', 'e', 's', '-', '1', '2', '8'] then
      .ok algAes128
    else if lower = ['a', 'e', 's', '1', '9', '2'] ∨ lower = ['a', 'e', 's', '-', '1', '9', '2'] then
      .ok algAes192
    else if lower = ['a', 'e', 's', '2', '5', '6'] ∨ lower = ['a', 'e', 's', '-', '2', '5', '6'] then
      .ok algAes256
    else .error ("unknown algorithm '" ++ String.ofList a ++
      "', expected tdes, aes128, aes192, or aes256")
  | none =>
    if key.length = 16 then .ok algAes128
    else if key.length = 24 then .ok algTdes
    else if key.length = 32 then .ok algAes256
    else .error ("could not infer algorithm from key length " ++
      String.ofList (Nat.toDigits 10 key.length) ++ " bytes; specify --alg")

def mgmtKeyLen (algorithm : UInt8) : Option Nat :=
  if algorithm = algTdes then some 24
  else if algorithm = algAes128 then some 16
  else if algorithm = algAes192 then some 24
  else if algorithm = algAes256 then some 32
  else none

/-- The algorithm under which `piv_set_mgmt_key` accepts a key. -/
def acceptMgmtKey (argument : Option Text) (key : List UInt8) : Except String UInt8 := do
  let algorithm ← mgmtAlgorithm argument key
  match mgmtKeyLen algorithm with
  | none => .error "invalid algorithm"
  | some expected =>
    if key.length ≠ expected then
      .error ("key length " ++ String.ofList (Nat.toDigits 10 key.length) ++
        " does not match algorithm expected " ++ String.ofList (Nat.toDigits 10 expected))
    else .ok algorithm

/-- A command of the host tool with its input. -/
inductive Command where
  | oathAdd (uri : Text)
  | oathCode (name : Text) (now : Nat)
  | oathDelete (name : Text)
  | pivImportCert (slot : PivSlot) (der : List UInt8)
  | pivSetMgmtKey (argument : Option Text) (key : List UInt8)

/-- What the host means to send: the instruction, its parameters and the data field. -/
structure Request where
  ins : UInt8
  p1 : UInt8
  p2 : UInt8
  body : List UInt8

def Command.request : Command → Except String Request
  | .oathAdd uri => (parseOtpauthUri uri).map fun cred => ⟨0x01, 0x00, 0x00, oathAddBody cred⟩
  | .oathCode name now => .ok ⟨0xA2, 0x00, 0x01, oathCodeBody name now⟩
  | .oathDelete name => .ok ⟨0x02, 0x00, 0x00, oathDeleteBody name⟩
  | .pivImportCert slot der => .ok ⟨0xDB, 0x3F, 0xFF, importCertBody slot der⟩
  | .pivSetMgmtKey argument key => (acceptMgmtKey argument key).map fun algorithm =>
    ⟨0xFF, 0xFF, 0xFF, algorithm :: 0x9B :: UInt8.ofNat key.length :: key⟩

/-- The length field of the command: one byte, a BER length, or none at all. -/
def Command.lengthField (command : Command) (body : List UInt8) : List UInt8 :=
  match command with
  | .oathAdd _ | .oathCode _ _ | .oathDelete _ => [UInt8.ofNat body.length]
  | .pivImportCert _ _ => encodeTlvLength body.length
  | .pivSetMgmtKey _ _ => []

def Command.frame (command : Command) : Except String (List UInt8) :=
  command.request.map fun request =>
    [0x00, request.ins, request.p1, request.p2] ++ command.lengthField request.body ++ request.body

/-! ## What the device makes of them -/

/-- The device accepts the frame as the request. -/
def Exact (frame : List UInt8) (request : Request) : Prop :=
  ∃ le, Apdu.parse frame = .ok (0x00, ⟨request.ins, request.p1, request.p2, request.body, le⟩)

def tlvLen (n : Nat) : Nat := 1 + (encodeTlvLength n).length + n

/-- The inputs of which the device sees what the host meant. -/
def Command.Fits : Command → Prop
  | .oathAdd uri => ∀ cred, parseOtpauthUri uri = .ok cred →
    tlvLen (utf8 cred.label).length + tlvLen (cred.secret.length + 2) +
      (if cred.kind = typeHotp then 6 else 0) ≤ 255
  | .oathCode name _ => (utf8 name).length ≤ 242
  | .oathDelete name => (utf8 name).length ≤ 252
  | .pivImportCert _ der => der.length ≤ 113
  | .pivSetMgmtKey _ _ => False

theorem parse_header (cla ins p1 p2 : UInt8) (body : List UInt8) :
    Apdu.parse ([cla, ins, p1, p2] ++ body) =
      (Apdu.parseBody body).map fun x => (cla, ⟨ins, p1, p2, x.1, x.2⟩) := by
  simp only [Apdu.parse, List.cons_append, List.nil_append]
  rcases Apdu.parseBody body with sw | ⟨data, le⟩ <;> rfl

variable {body : List UInt8}

theorem exact_iff {request : Request} :
    Exact ([0x00, request.ins, request.p1, request.p2] ++ body) request ↔
      ∃ le, Apdu.parseBody body = .ok (request.body, le) := by
  unfold Exact
  rw [parse_header]
  rcases Apdu.parseBody body with sw | ⟨data, le⟩
  · exact ⟨nofun, nofun⟩
  constructor
  · rintro ⟨le', h⟩
    injection h with h
    injection h with _ h
    injection h with _ _ _ hdt hle
    exact ⟨le, congrArg (fun data => Except.ok (data, le)) hdt⟩
  · rintro ⟨le', h⟩
    injection h with h
    obtain ⟨rfl, -⟩ := Prod.mk.inj h
    exact ⟨le, rfl⟩

variable {le : Option Nat}

/-- In the short encoding the data is what the length byte covers. -/
theorem parseBody_short {lc : UInt8} {rest data : List UInt8} (hlc : lc ≠ 0)
    (hrs : rest ≠ []) (h : Apdu.parseBody (lc :: rest) = .ok (data, le)) :
    data = rest.take lc.toNat ∧ lc.toNat ≤ rest.length := by
  simp only [Apdu.parseBody] at h
  rw [if_neg fun hc => hlc hc.1, if_neg hrs] at h
  split at h
  · rename_i hl
    cases h
    exact ⟨(List.take_of_length_le (Nat.le_of_eq hl)).symm, Nat.le_of_eq hl.symm⟩
  split at h
  · cases h
    exact ⟨rfl, by omega⟩
  · cases h

/-- In the extended encoding the data is shorter than what follows the zero. -/
theorem parseExtended_length {rest data : List UInt8}
    (h : Apdu.parseExtended rest = .ok (data, le)) : data.length < rest.length := by
  unfold Apdu.parseExtended at h
  split at h
  swap
  · cases h
  dsimp only at h
  split at h
  · cases h
    exact Nat.succ_pos _
  split at h
  · cases h
    simp only [List.length_cons]
    omega
  split at h
  · cases h
    simp only [List.length_take, List.length_cons]
    omega
  · cases h

/-- A body after one length byte is taken as it is exactly when the byte holds its length. -/
theorem parseBody_byte_iff (hbd : body ≠ []) :
    (∃ le, Apdu.parseBody (UInt8.ofNat body.length :: body) = .ok (body, le)) ↔
      body.length ≤ 255 := by
  have hp := List.length_pos_iff.mpr hbd
  constructor
  · rintro ⟨le, h⟩
    by_cases hzr : UInt8.ofNat body.length = 0
    · simp only [Apdu.parseBody] at h
      rw [if_pos ⟨hzr, hbd⟩] at h
      exact absurd (parseExtended_length h) (Nat.lt_irrefl _)
    obtain ⟨hdt, hle⟩ := parseBody_short hzr hbd h
    have hl := congrArg List.length hdt
    have hlt := (UInt8.ofNat body.length).toNat_lt
    rw [List.length_take] at hl
    omega
  · intro hl
    have hbt : (UInt8.ofNat body.length).toNat = body.length :=
      UInt8.toNat_ofNat_of_lt' (show body.length < 256 by omega)
    have hn : UInt8.ofNat body.length ≠ 0 := by
      intro h
      rw [h] at hbt
      exact absurd hbt (Nat.ne_of_lt hp)
    refine ⟨none, ?_⟩
    simp only [Apdu.parseBody]
    rw [if_neg fun h => hn h.1, if_neg hbd, if_pos hbt.symm]

/-- The device takes a BER length for the body length only where it is one byte. -/
theorem parseBody_ber_iff (hhd : body.head? = some 0x5C) :
    (∃ le, Apdu.parseBody (encodeTlvLength body.length ++ body) = .ok (body, le)) ↔
      body.length < 0x80 := by
  have hbd : body ≠ [] := by
    rintro rfl
    cases hhd
  constructor
  · rintro ⟨le, h⟩
    by_contra hln
    unfold encodeTlvLength at h
    rw [if_neg hln] at h
    split at h
    · -- The byte `81` is taken for the length, and the length for the first byte of the data.
      obtain ⟨hdt, -⟩ := parseBody_short (by decide) (by nofun) h
      have hbt : UInt8.ofNat body.length = 0x5C := by
        have hfr := congrArg List.head? hdt
        rw [hhd] at hfr
        exact (Option.some.inj hfr).symm
      have hn := congrArg UInt8.toNat hbt
      rw [UInt8.toNat_ofNat_of_lt' (by omega : body.length < 256)] at hn
      change body.length = 92 at hn
      omega
    · obtain ⟨hdt, -⟩ := parseBody_short (by decide) (by nofun) h
      have hl := congrArg List.length hdt
      rw [List.length_take] at hl
      change body.length = min 130 _ at hl
      omega
  · intro hsh
    have hfl : encodeTlvLength body.length = [UInt8.ofNat body.length] := if_pos hsh
    rw [hfl]
    exact (parseBody_byte_iff hbd).mpr (by omega)

/-- Without a length field the first byte of the body is taken for it. -/
theorem not_parseBody_self {first second : UInt8} {rest : List UInt8}
    (hfr : first ≠ 0) :
    Apdu.parseBody (first :: second :: rest) ≠ .ok (first :: second :: rest, le) := by
  intro h
  obtain ⟨hdt, -⟩ := parseBody_short hfr (List.cons_ne_nil second rest) h
  have hl := congrArg List.length hdt
  rw [List.length_take] at hl
  simp only [List.length_cons] at hl
  omega

/-! ## The result -/

theorem length_encodeTlvLength (n : Nat) :
    (encodeTlvLength n).length = if n < 0x80 then 1 else if n ≤ 0xFF then 2 else 3 := by
  unfold encodeTlvLength
  split_ifs <;> rfl

theorem length_oathAddBody (cred : OtpAuthCredential) :
    (oathAddBody cred).length = tlvLen (utf8 cred.label).length + tlvLen (cred.secret.length + 2) +
      (if cred.kind = typeHotp then 6 else 0) := by
  unfold oathAddBody tlvLen
  rw [List.length_append, List.length_append, length_hostTlv, length_hostTlv]
  split_ifs
  · rfl
  · rfl

theorem length_importCertBody (slot : PivSlot) (der : List UInt8) :
    (importCertBody slot der).length = 5 + tlvLen (tlvLen der.length + 5) := by
  have hin : (certificateObject der).length = tlvLen der.length + 5 := by
    unfold certificateObject tlvLen
    simp only [List.length_append, List.length_cons, List.length_nil]
    omega
  unfold importCertBody
  simp only [List.length_append, List.length_cons, hin, tlvLen, PivSlot.identifier, List.length_nil]
  omega

theorem acceptMgmtKey_ne_zero {argument : Option Text} {key : List UInt8} {algorithm : UInt8}
    (h : acceptMgmtKey argument key = .ok algorithm) : algorithm ≠ 0 := by
  rintro rfl
  unfold acceptMgmtKey at h
  rcases ha : mgmtAlgorithm argument key with e | a
  · rw [ha] at h
    cases h
  rw [ha] at h
  change (match mgmtKeyLen a with
    | none => _
    | some expected => _) = _ at h
  split at h
  · cases h
  rename_i expected he
  split at h
  · cases h
  · cases h
    cases he

/-- The device sees the command that the host meant exactly where the input fits. -/
theorem framing_exact (command : Command) {request : Request} {frame : List UInt8}
    (hrequest : command.request = .ok request) (hframe : command.frame = .ok frame) :
    Exact frame request ↔ command.Fits := by
  have hbytes : frame = [0x00, request.ins, request.p1, request.p2] ++
      (command.lengthField request.body ++ request.body) := by
    unfold Command.frame at hframe
    rw [hrequest] at hframe
    exact (Except.ok.inj hframe).symm
  rw [hbytes, exact_iff]
  cases command with
  | oathAdd uri =>
    rcases hparse : parseOtpauthUri uri with e | cred
    · simp only [Command.request] at hrequest
      rw [hparse] at hrequest
      cases hrequest
    have hbody : request.body = oathAddBody cred := by
      simp only [Command.request] at hrequest
      rw [hparse] at hrequest
      cases hrequest
      rfl
    change (∃ le, Apdu.parseBody (UInt8.ofNat request.body.length :: request.body) = _) ↔ _
    rw [hbody, parseBody_byte_iff (by unfold oathAddBody hostTlv; simp), length_oathAddBody]
    constructor
    · intro h cred' hcred'
      rw [hparse] at hcred'
      cases hcred'
      exact h
    · exact fun h => h cred hparse
  | oathCode name now =>
    cases hrequest
    change (∃ le, Apdu.parseBody (UInt8.ofNat (oathCodeBody name now).length ::
      oathCodeBody name now) = _) ↔ (utf8 name).length ≤ 242
    rw [parseBody_byte_iff (by unfold oathCodeBody hostTlv; simp)]
    unfold oathCodeBody
    rw [List.length_append, length_hostTlv, length_hostTlv, length_toBE, length_encodeTlvLength,
      length_encodeTlvLength]
    split_ifs <;> omega
  | oathDelete name =>
    cases hrequest
    change (∃ le, Apdu.parseBody (UInt8.ofNat (oathDeleteBody name).length ::
      oathDeleteBody name) = _) ↔ (utf8 name).length ≤ 252
    rw [parseBody_byte_iff (by unfold oathDeleteBody hostTlv; simp)]
    unfold oathDeleteBody
    rw [length_hostTlv, length_encodeTlvLength]
    split_ifs <;> omega
  | pivImportCert slot der =>
    cases hrequest
    change (∃ le, Apdu.parseBody (encodeTlvLength (importCertBody slot der).length ++
      importCertBody slot der) = _) ↔ der.length ≤ 113
    rw [parseBody_ber_iff rfl, length_importCertBody]
    unfold tlvLen
    rw [length_encodeTlvLength, length_encodeTlvLength]
    split_ifs <;> omega
  | pivSetMgmtKey argument key =>
    rcases halg : acceptMgmtKey argument key with e | algorithm
    · simp only [Command.request] at hrequest
      rw [halg] at hrequest
      cases hrequest
    simp only [Command.request] at hrequest
    rw [halg] at hrequest
    cases hrequest
    refine iff_of_false ?_ id
    rintro ⟨le, h⟩
    exact not_parseBody_self (acceptMgmtKey_ne_zero halg) h

theorem framing_exact_delete : Exact [0x00, 0x02, 0x00, 0x00, 0x03, 0x71, 0x01, 0x61]
    ⟨0x02, 0x00, 0x00, [0x71, 0x01, 0x61]⟩ :=
  (framing_exact (.oathDelete ['a']) (by rfl) (by rfl)).mpr (by decide : (utf8 ['a']).length ≤ 252)

/-- The frame that replaces the management key by 24 zero bytes is refused for its length. -/
theorem set_mgmt_key_refused :
    (Command.pivSetMgmtKey none (List.replicate 24 0)).frame =
      .ok ([0x00, 0xFF, 0xFF, 0xFF, 0x03, 0x9B, 0x18] ++ List.replicate 24 0) ∧
    (Command.pivSetMgmtKey none (List.replicate 24 0)).request.toOption.map (·.body) =
      some ([0x03, 0x9B, 0x18] ++ List.replicate 24 0) ∧
    Apdu.parse ([0x00, 0xFF, 0xFF, 0xFF, 0x03, 0x9B, 0x18] ++ List.replicate 24 0) =
      .error .wrongLength :=
  ⟨rfl, rfl, rfl⟩

end AegisToken.Host
