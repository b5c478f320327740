/-
  Credential-management requests (aegis-core authenticator.rs `CredentialManagementRequest`).
  The calls of the `minicbor` decoder are the parameter `C`.
  The platform authenticates the subcommand and the raw bytes of its parameters. These bytes fix
  the relying party hash and the credential id, because the parser of the parameters is delimited.
  The legacy layout, a byte string in the place of the parameters, sets the credential id without
  changing the bytes that are authenticated: `target_fixed_iff`.
-/
import AegisToken.Core.Authenticator

namespace AegisToken
open ByteCodec Wire

/-- A parsed `authenticatorCredentialManagement` request. -/
structure CredentialManagementRequest where
  subCommand : UInt8
  credentialId : Option (BoundedBytes 32)
  rpIdHash : Option (FixedBytes 32)
  pinUvAuthProtocol : Option UInt8
  pinUvAuthParam : Option (BoundedBytes 64)
  subCommandParams : BoundedBytes 96
deriving DecidableEq

namespace CredentialManagementRequest

/-- What parsing starts from. -/
def initial : CredentialManagementRequest :=
  ⟨0, none, none, none, none, BoundedBytes.empty 96⟩

/-- The message the platform authenticates (`handle_credential_management`, for the subcommands
  that name a target). -/
def message (r : CredentialManagementRequest) : List UInt8 :=
  r.subCommand :: r.subCommandParams.val

/-! ## Parsing -/

section Parse
variable (C : Cbor)

def skipItem : Parser Ctap2Status Unit := orErr C.skip .invalidCbor

/-- A map's number of entries; its length must be given. -/
def mapLength : Parser Ctap2Status Nat :=
  C.map.parse .invalidCbor >>= fun entries =>
    match entries with
    | none => reject .invalidCbor
    | some n => pure n.toNat

/-- The value of a descriptor's entry: the id, or something else. -/
def descriptorValue (id : Option (BoundedBytes 32)) (isId : Bool) :
    Parser Ctap2Status (Option (BoundedBytes 32)) :=
  if isId then
    C.bytes.parse .invalidCbor >>= fun bs => bounded .limitExceeded 32 bs.val >>= fun id => pure (some id)
  else skipItem C >>= fun _ => pure id

/-- An entry of a descriptor: a text key or a numeric one. -/
def descriptorEntry (id : Option (BoundedBytes 32)) :
    Parser Ctap2Status (Option (BoundedBytes 32)) :=
  peek C.datatype .invalidCbor >>= fun type =>
    if type = .string then
      C.str.parse .invalidCbor >>= fun key =>
        -- the key `id`
        descriptorValue C id (key.val.val = [0x69, 0x64])
    else C.u8.parse .invalidCbor >>= fun key => descriptorValue C id (key = 0x02)

/-- `decode_credential_descriptor`: the credential id of a descriptor. -/
def decodeCredentialDescriptor : Parser Ctap2Status (BoundedBytes 32) :=
  mapLength C >>= fun entries =>
    turns (descriptorEntry C) entries none >>= fun id =>
      match id with
      | some id => pure id
      | none => reject .missingParameter

/-- The relying party hash and the credential id that subcommand parameters name. -/
abbrev Target := Option (FixedBytes 32) × Option (BoundedBytes 32)

/-- An entry of the subcommand parameters. -/
def paramsField (target : Target) (key : UInt8) : Parser Ctap2Status Target :=
  if key = 0x01 then
    C.bytes.parse .invalidCbor >>= fun bs =>
      if h : bs.val.length = 32 then pure (some ⟨bs.val, h⟩, target.2)
      else reject .invalidParameter
  else if key = 0x02 then
    decodeCredentialDescriptor C >>= fun id => pure (target.1, some id)
  else skipItem C >>= fun _ => pure target

def parseTarget : Parser Ctap2Status Target :=
  mapLength C >>= fun entries =>
    turns (keyed C.u8 .invalidCbor (paramsField C)) entries (none, none)

/-- `parse_sub_command_params`: the parameters and their raw bytes. -/
def parseSubCommandParams (r : CredentialManagementRequest) :
    Parser Ctap2Status CredentialManagementRequest :=
  consumed (parseTarget C) >>= fun x =>
    bounded .limitExceeded 96 x.2 >>= fun subCommandParams =>
      pure { r with rpIdHash := x.1.1, credentialId := x.1.2, subCommandParams }

def field (r : CredentialManagementRequest) (key : UInt8) :
    Parser Ctap2Status CredentialManagementRequest :=
  if key = 0x01 then C.u8.parse .invalidCbor >>= fun subCommand => pure { r with subCommand }
  else if key = 0x02 then
    peek C.datatype .invalidCbor >>= fun type =>
      if type = .bytes then
        -- the legacy layout carried the credential id as a byte string
        C.bytes.parse .invalidCbor >>= fun bs =>
          bounded .limitExceeded 32 bs.val >>= fun id => pure { r with credentialId := some id }
      else parseSubCommandParams C r
  else if key = 0x03 then
    C.u8.parse .invalidCbor >>= fun p => pure { r with pinUvAuthProtocol := some p }
  else if key = 0x04 then
    C.bytes.parse .invalidCbor >>= fun bs =>
      bounded .limitExceeded 64 bs.val >>= fun param => pure { r with pinUvAuthParam := some param }
  else skipItem C >>= fun _ => pure r

/-- The request, and what stands behind it. -/
def parseRequest : Parser Ctap2Status CredentialManagementRequest :=
  mapLength C >>= fun entries => turns (keyed C.u8 .invalidCbor (field C)) entries initial

/-- `parse`. Bytes behind the map are not looked at. -/
def parse (params : List UInt8) : Except Ctap2Status CredentialManagementRequest :=
  (parseRequest C params).map Prod.fst

end Parse

/-! ## Parameters are delimited -/

section Delimited
variable (C : Cbor)

theorem delimited_bounded (n : Nat) (bs : List UInt8) :
    Delimited (bounded Ctap2Status.limitExceeded n bs) := by
  unfold bounded
  split
  · exact delimited_pure _
  · exact delimited_reject _

theorem delimited_skipItem : Delimited (skipItem C) := delimited_orErr C.skip_delimited _

theorem delimited_mapLength : Delimited (mapLength C) := by
  refine (C.map.delimited_parse _).bind fun entries => ?_
  split
  · exact delimited_reject _
  · exact delimited_pure _

theorem delimited_descriptorValue (id : Option (BoundedBytes 32)) (isId : Bool) :
    Delimited (descriptorValue C id isId) := by
  refine Delimited.ite ?_ ((delimited_skipItem C).bind fun _ => delimited_pure _)
  exact (C.bytes.delimited_parse _).bind fun bs =>
    (delimited_bounded 32 bs.val).bind fun _ => delimited_pure _

theorem delimited_descriptorEntry (id : Option (BoundedBytes 32)) :
    Delimited (descriptorEntry C id) := by
  refine Delimited.peek (fun type => Delimited.ite ?_ ?_) ?_
  · exact (C.str.delimited_parse _).bind fun _ => delimited_descriptorValue C id _
  · exact (C.u8.delimited_parse _).bind fun _ => delimited_descriptorValue C id _
  -- the kind that was seen is the kind of the key
  intro type used w h
  split at h
  · exact Codec.peek_stable C.datatype_str h
  · exact Codec.peek_stable C.datatype_u8 h

theorem delimited_decodeCredentialDescriptor : Delimited (decodeCredentialDescriptor C) := by
  refine (delimited_mapLength C).bind fun entries => ?_
  refine (Delimited.turns (delimited_descriptorEntry C) _ _).bind fun id => ?_
  split
  · exact delimited_pure _
  · exact delimited_reject _

theorem delimited_paramsField (target : Target) (key : UInt8) :
    Delimited (paramsField C target key) := by
  refine Delimited.ite ((C.bytes.delimited_parse _).bind fun bs => ?_) (Delimited.ite ?_ ?_)
  · split
    · exact delimited_pure _
    · exact delimited_reject _
  · exact (delimited_decodeCredentialDescriptor C).bind fun _ => delimited_pure _
  · exact (delimited_skipItem C).bind fun _ => delimited_pure _

theorem delimited_parseTarget : Delimited (parseTarget C) := by
  refine (delimited_mapLength C).bind fun entries => ?_
  exact Delimited.turns (fun target => Delimited.keyed _ _ (delimited_paramsField C target)) _ _

end Delimited

/-! ## The layout of a request -/

section Layout
variable (C : Cbor)

/-- An entry of the request, with whether the last entry 0x02 was a byte string. -/
def layoutField (s : CredentialManagementRequest × Bool) (key : UInt8) :
    Parser Ctap2Status (CredentialManagementRequest × Bool) :=
  if key = 0x02 then
    peek C.datatype .invalidCbor >>= fun type =>
      field C s.1 key >>= fun r => pure (r, decide (type = .bytes))
  else field C s.1 key >>= fun r => pure (r, s.2)

def parseLayout : Parser Ctap2Status (CredentialManagementRequest × Bool) :=
  mapLength C >>= fun entries =>
    turns (keyed C.u8 .invalidCbor (layoutField C)) entries (initial, false)

/-- The last entry 0x02 of the parameters of a request is a byte string. -/
def endsLegacy (params : List UInt8) : Bool :=
  match parseLayout C params with
  | .ok ((_, legacy), _) => legacy
  | .error _ => false

theorem layoutField_map (s : CredentialManagementRequest × Bool) (key : UInt8) (inp : List UInt8) :
    (layoutField C s key inp).map (Prod.map Prod.fst id) = field C s.1 key inp := by
  have drop : ∀ (b : Bool),
      ((field C s.1 key >>= fun r => pure (r, b) : Parser _ _) inp).map (Prod.map Prod.fst id) =
        field C s.1 key inp := by
    intro b
    rcases h : field C s.1 key inp with e | ⟨r, rest⟩
    · rw [bind_error h]
      rfl
    · rw [bind_ok h]
      rfl
  unfold layoutField
  split
  · next hk =>
    rcases hd : C.datatype inp with _ | type
    · subst hk
      have hpk : peek C.datatype Ctap2Status.invalidCbor inp = .error .invalidCbor := by
        rw [peek, hd]
      rw [bind_error hpk]
      exact (bind_error hpk).symm
    · rw [peek_bind hd]
      exact drop _
  · exact drop _

theorem parseLayout_map (inp : List UInt8) :
    (parseLayout C inp).map (Prod.map Prod.fst id) = parseRequest C inp := by
  have hst : ∀ (s : CredentialManagementRequest × Bool) (inp : List UInt8),
      (keyed C.u8 Ctap2Status.invalidCbor (layoutField C) s inp).map (Prod.map Prod.fst id) =
        keyed C.u8 Ctap2Status.invalidCbor (field C) s.1 inp := by
    intro s inp
    rcases hk : C.u8.parse Ctap2Status.invalidCbor inp with e | ⟨key, rest⟩
    · unfold keyed
      rw [bind_error hk, bind_error hk]
      rfl
    · unfold keyed
      rw [bind_ok hk, bind_ok hk]
      exact layoutField_map C s key rest
  unfold parseLayout parseRequest
  rcases hm : mapLength C inp with e | ⟨n, rest⟩
  · rw [bind_error hm, bind_error hm]
    rfl
  · rw [bind_ok hm, bind_ok hm]
    exact turns_map hst n (initial, false) rest

theorem parse_ok {params : List UInt8} {r : CredentialManagementRequest}
    (h : parse C params = .ok r) :
    ∃ rest, parseLayout C params = .ok ((r, endsLegacy C params), rest) := by
  unfold parse at h
  rw [← parseLayout_map] at h
  unfold endsLegacy
  rcases hl : parseLayout C params with e | ⟨⟨r', legacy⟩, rest⟩
  · rw [hl] at h
    cases h
  · rw [hl] at h
    cases h
    exact ⟨rest, rfl⟩

theorem parse_of_layout {params rest : List UInt8} {r : CredentialManagementRequest}
    {legacy : Bool} (h : parseLayout C params = .ok ((r, legacy), rest)) :
    parse C params = .ok r ∧ endsLegacy C params = legacy := by
  unfold parse endsLegacy
  rw [← parseLayout_map, h]
  exact ⟨rfl, rfl⟩

end Layout

/-! ## What the authenticated bytes fix -/

section Target
variable {C : Cbor}

/-- Raw parameters that name a target, in front of any rest. -/
structure Names (C : Cbor) (raw : List UInt8) (target : Target) : Prop where
  ne_nil : raw ≠ []
  parse : ∀ r, parseTarget C (raw ++ r) = .ok (target, r)
  datatype : ∀ r, ∃ type, C.datatype (raw ++ r) = some type ∧ type ≠ .bytes

/-- Parameters that were accepted behind a look ahead that saw no byte string. -/
theorem Names.of_consumed {inp raw rest : List UInt8} {target : Target} {type : DataType}
    (htp : C.datatype inp = some type) (hne : type ≠ .bytes)
    (h : consumed (parseTarget C) inp = .ok ((target, raw), rest)) : Names C raw target := by
  obtain ⟨rfl, hpr⟩ := consumed_ok (delimited_parseTarget C) h
  -- the parameters start with the head of a map
  have hm : ∀ r, (C.map.parse Ctap2Status.invalidCbor >>= fun entries =>
      (match entries with
        | none => reject .invalidCbor
        | some n => pure n.toNat) >>= fun n =>
          turns (keyed C.u8 .invalidCbor (paramsField C)) n (none, none)) (raw ++ r) =
      .ok (target, r) := by
    intro r
    have := hpr r
    unfold parseTarget mapLength at this
    rwa [bind_assoc] at this
  refine ⟨?_, hpr, fun r => ⟨type, ?_, hne⟩⟩
  · obtain ⟨v, mid, h1, -⟩ := bind_eq_ok (hm [])
    obtain ⟨used, hus, hd⟩ := C.map.delimited _ v mid (orErr_eq_ok.mp h1)
    have hne := C.map.used_ne_nil (v := none) (w := some 0) nofun hd
    rw [List.append_nil] at hus
    rw [hus]
    exact List.append_ne_nil_of_left_ne_nil hne mid
  · rw [← htp]
    exact Codec.peek_stable C.datatype_map hm r rest

/-- The parts of a request that its parameters and their layout decide. -/
structure Settled (C : Cbor) (s : CredentialManagementRequest × Bool) : Prop where
  target : s.1.subCommandParams.val = [] ∧ s.1.rpIdHash = none ∧
      (s.2 = false → s.1.credentialId = none) ∨
    ∃ id, Names C s.1.subCommandParams.val (s.1.rpIdHash, id) ∧
      (s.2 = false → s.1.credentialId = id)
  legacy : s.2 = true → ∃ id, s.1.credentialId = some id

theorem Settled.initial : Settled C (initial, false) := ⟨.inl ⟨rfl, rfl, fun _ => rfl⟩, nofun⟩

variable {r r' : CredentialManagementRequest} {inp rest : List UInt8}

/-- Entries other than 0x02 leave the target. -/
theorem field_of_ne {key : UInt8} (hk : key ≠ 0x02) (h : field C r key inp = .ok (r', rest)) :
    r'.subCommandParams = r.subCommandParams ∧ r'.rpIdHash = r.rpIdHash ∧
      r'.credentialId = r.credentialId := by
  unfold field at h
  iterate 2
    split at h
    · obtain ⟨v, mid, -, h2⟩ := bind_eq_ok h
      cases h2
      exact ⟨rfl, rfl, rfl⟩
  split at h
  · obtain ⟨bs, mid, -, h2⟩ := bind_eq_ok h
    obtain ⟨v, mid', -, h3⟩ := bind_eq_ok h2
    cases h3
    exact ⟨rfl, rfl, rfl⟩
  · obtain ⟨v, mid, -, h2⟩ := bind_eq_ok h
    cases h2
    exact ⟨rfl, rfl, rfl⟩

theorem bounded_ok {n : Nat} {bs inp rest : List UInt8} {b : BoundedBytes n}
    (h : bounded Ctap2Status.limitExceeded n bs inp = .ok (b, rest)) : b.val = bs ∧ rest = inp := by
  unfold bounded at h
  split at h
  · cases h
    exact ⟨rfl, rfl⟩
  · cases h

/-- An entry 0x02 that is a byte string sets the credential id only; any other one sets target and
  parameters together. -/
theorem field_target {type : DataType} (htp : C.datatype inp = some type)
    (h : field C r 0x02 inp = .ok (r', rest)) :
    (type = .bytes ∧ ∃ id, r' = { r with credentialId := some id }) ∨
      (type ≠ .bytes ∧ Names C r'.subCommandParams.val (r'.rpIdHash, r'.credentialId)) := by
  have hfl : field C r 0x02 = (peek C.datatype .invalidCbor >>= fun type =>
      if type = .bytes then
        C.bytes.parse .invalidCbor >>= fun bs =>
          bounded .limitExceeded 32 bs.val >>= fun id => pure { r with credentialId := some id }
      else parseSubCommandParams C r) := rfl
  rw [hfl, peek_bind htp] at h
  split at h
  · next hb =>
    obtain ⟨bs, mid, -, h2⟩ := bind_eq_ok h
    obtain ⟨id, mid', -, h3⟩ := bind_eq_ok h2
    cases h3
    exact .inl ⟨hb, id, rfl⟩
  · next hb =>
    obtain ⟨⟨target, raw⟩, mid, h1, h2⟩ := bind_eq_ok h
    obtain ⟨params, mid', h3, h4⟩ := bind_eq_ok h2
    cases h4
    refine .inr ⟨hb, ?_⟩
    have hr := (bounded_ok h3).1
    rw [hr]
    exact Names.of_consumed htp hb h1

theorem Settled.field {s s' : CredentialManagementRequest × Bool} (hs : Settled C s) {key : UInt8}
    (h : layoutField C s key inp = .ok (s', rest)) : Settled C s' := by
  unfold layoutField at h
  split at h
  · next hk =>
    subst hk
    obtain ⟨type, mid, h1, h2⟩ := bind_eq_ok h
    obtain ⟨r', mid', h3, h4⟩ := bind_eq_ok h2
    cases h4
    unfold peek at h1
    rcases htp : C.datatype inp with _ | t
    · rw [htp] at h1
      cases h1
    rw [htp] at h1
    cases h1
    rcases field_target htp h3 with ⟨hb, id, rfl⟩ | ⟨hb, hnm⟩
    · refine ⟨?_, fun _ => ⟨id, rfl⟩⟩
      rcases hs.target with ⟨hn, hrp, -⟩ | ⟨id₀, hnm, -⟩
      · exact .inl ⟨hn, hrp, by simp [hb]⟩
      · exact .inr ⟨id₀, hnm, by simp [hb]⟩
    · exact ⟨.inr ⟨_, hnm, fun _ => rfl⟩, by simp [hb]⟩
  · next hk =>
    obtain ⟨r', mid, h1, h2⟩ := bind_eq_ok h
    cases h2
    obtain ⟨hp, hrp, hid⟩ := field_of_ne hk h1
    refine ⟨?_, ?_⟩
    · rw [hp, hrp, hid]
      exact hs.target
    · rw [hid]
      exact hs.legacy

theorem settled_of_parse {params : List UInt8} (h : parse C params = .ok r) :
    Settled C (r, endsLegacy C params) := by
  obtain ⟨rest, hl⟩ := parse_ok C h
  obtain ⟨n, mid, -, htr⟩ := bind_eq_ok hl
  refine turns_keep ?_ Settled.initial htr
  intro s inp s' rest' hs hst
  obtain ⟨key, mid', -, hfl⟩ := bind_eq_ok hst
  exact hs.field hfl

/-- Without a byte string at the end, equal parameters name the same target. -/
theorem Settled.target_eq (hr : Settled C (r, false)) (hr' : Settled C (r', false))
    (h : r'.subCommandParams = r.subCommandParams) :
    r'.rpIdHash = r.rpIdHash ∧ r'.credentialId = r.credentialId := by
  rcases hr.target with ⟨hn, hrp, hid⟩ | ⟨id, hnm, hid⟩
  · rcases hr'.target with ⟨-, hrp', hid'⟩ | ⟨id', hnm', -⟩
    · exact ⟨hrp'.trans hrp.symm, (hid' rfl).trans (hid rfl).symm⟩
    · rw [h] at hnm'
      exact absurd hn hnm'.ne_nil
  rcases hr'.target with ⟨hn, -, -⟩ | ⟨id', hnm', hid'⟩
  · rw [h] at hn
    exact absurd hn hnm.ne_nil
  have hnm₁ := hnm.parse []
  have hnm₂ := hnm'.parse []
  simp only [h] at hnm₁ hnm₂
  have heq := hnm₁.symm.trans hnm₂
  simp only [Except.ok.injEq, Prod.mk.injEq, and_true] at heq
  exact ⟨heq.1.symm, ((hid' rfl).trans heq.2.symm).trans (hid rfl).symm⟩

end Target

/-! ## Another request with the same message -/

section Legacy
variable (C : Cbor)

def oneByte (b : UInt8) : Slice := ⟨[b], by simp⟩

/-- Entries that set the subcommand and, behind raw parameters if there are any, a credential id of
  one byte as a byte string. -/
def legacyRequest (subCommand : UInt8) (raw : List UInt8) (b : UInt8) : List UInt8 :=
  if raw = [] then
    C.map.encode (some 2) ++ (C.u8.encode 0x01 ++ (C.u8.encode subCommand ++
      (C.u8.encode 0x02 ++ C.bytes.encode (oneByte b))))
  else
    C.map.encode (some 3) ++ (C.u8.encode 0x01 ++ (C.u8.encode subCommand ++
      (C.u8.encode 0x02 ++ (raw ++ (C.u8.encode 0x02 ++ C.bytes.encode (oneByte b))))))

theorem mapLength_encode (n : UInt64) (r : List UInt8) :
    mapLength C (C.map.encode (some n) ++ r) = .ok (n.toNat, r) := by
  unfold mapLength
  rw [Codec.parse_bind_encode]
  rfl

variable (s : CredentialManagementRequest × Bool)

theorem layoutField_subCommand (subCommand : UInt8)
    (r : List UInt8) : layoutField C s 0x01 (C.u8.encode subCommand ++ r) =
      .ok (({ s.1 with subCommand }, s.2), r) := by
  have hfl : field C s.1 0x01 (C.u8.encode subCommand ++ r) = .ok ({ s.1 with subCommand }, r) :=
    Codec.parse_bind_encode ..
  unfold layoutField
  rw [if_neg nofun, bind_ok hfl]
  rfl

theorem layoutField_oneByte (b : UInt8)
    (r : List UInt8) : layoutField C s 0x02 (C.bytes.encode (oneByte b) ++ r) =
      .ok (({ s.1 with credentialId := some ⟨[b], by simp⟩ }, true), r) := by
  have htp := C.datatype_bytes (oneByte b) r
  have hfl : field C s.1 0x02 (C.bytes.encode (oneByte b) ++ r) =
      .ok ({ s.1 with credentialId := some ⟨[b], by simp⟩ }, r) := by
    refine (peek_bind htp _).trans ?_
    rw [if_pos rfl, Codec.parse_bind_encode]
    rfl
  unfold layoutField
  rw [if_pos rfl, peek_bind htp, bind_ok hfl]
  rfl

theorem layoutField_params {C : Cbor}
    {raw : BoundedBytes 96} {target : Target} (h : Names C raw.val target) (r : List UInt8) :
    layoutField C s 0x02 (raw.val ++ r) =
      .ok (({ s.1 with rpIdHash := target.1, credentialId := target.2, subCommandParams := raw },
        false), r) := by
  obtain ⟨type, htp, hne⟩ := h.datatype r
  have hfl : field C s.1 0x02 (raw.val ++ r) =
      .ok ({ s.1 with rpIdHash := target.1, credentialId := target.2, subCommandParams := raw },
        r) := by
    refine (peek_bind htp _).trans ?_
    rw [if_neg hne]
    unfold parseSubCommandParams
    rw [bind_ok (consumed_eq h.parse r)]
    have hbd : bounded Ctap2Status.limitExceeded 96 raw.val r = .ok (raw, r) := by
      rw [bounded, dif_pos raw.property]
      rfl
    rw [bind_ok hbd]
    rfl
  unfold layoutField
  rw [if_pos rfl, peek_bind htp, bind_ok hfl]
  simp only [hne, decide_false]
  rfl

/-- The request is accepted, with a byte string at its end, and has the message it was made
  for. -/
theorem parse_legacyRequest {C : Cbor} {r : CredentialManagementRequest} {legacy : Bool}
    (hr : Settled C (r, legacy)) (b : UInt8) :
    ∃ r', parse C (legacyRequest C r.subCommand r.subCommandParams.val b) = .ok r' ∧
      endsLegacy C (legacyRequest C r.subCommand r.subCommandParams.val b) = true ∧
      r'.message = r.message ∧ r'.credentialId = some ⟨[b], by simp⟩ := by
  have hn : ∀ bs : List UInt8, bs = bs ++ [] := fun bs => (List.append_nil bs).symm
  rcases hr.target with ⟨hw, -, -⟩ | ⟨id, hnm, -⟩
  · have hl : parseLayout C (legacyRequest C r.subCommand r.subCommandParams.val b) =
        .ok (({ initial with subCommand := r.subCommand, credentialId := some ⟨[b], by simp⟩ },
          true), []) := by
      unfold legacyRequest parseLayout
      rw [if_pos hw, bind_ok (mapLength_encode C 2 _)]
      refine (turns_keyed (layoutField_subCommand C _ _) _).trans ?_
      rw [hn (C.bytes.encode (oneByte b))]
      exact turns_keyed (layoutField_oneByte C _ b) []
    obtain ⟨hpr, hg⟩ := parse_of_layout C hl
    refine ⟨_, hpr, hg, ?_, rfl⟩
    simp only at hw
    simp [message, initial, BoundedBytes.empty, hw]
  · have hl : parseLayout C (legacyRequest C r.subCommand r.subCommandParams.val b) =
        .ok (({ initial with
          subCommand := r.subCommand, rpIdHash := r.rpIdHash,
          credentialId := some ⟨[b], by simp⟩, subCommandParams := r.subCommandParams },
          true), []) := by
      unfold legacyRequest parseLayout
      rw [if_neg hnm.ne_nil, bind_ok (mapLength_encode C 3 _)]
      refine (turns_keyed (layoutField_subCommand C _ _) _).trans ?_
      refine (turns_keyed (layoutField_params _ hnm) _).trans ?_
      rw [hn (C.bytes.encode (oneByte b))]
      exact turns_keyed (layoutField_oneByte C _ b) []
    obtain ⟨hpr, hg⟩ := parse_of_layout C hl
    exact ⟨_, hpr, hg, rfl, rfl⟩

end Legacy

/-- The authenticated message of an accepted request fixes its target, among the requests of the
  same layout, exactly when its last entry 0x02 is not a byte string. -/
theorem target_fixed_iff (C : Cbor) (a : List UInt8) (ra : CredentialManagementRequest)
    (ha : parse C a = .ok ra) :
    endsLegacy C a = false ↔
      ∀ b rb, parse C b = .ok rb → endsLegacy C b = endsLegacy C a →
        rb.subCommand = ra.subCommand → rb.message = ra.message →
        rb.rpIdHash = ra.rpIdHash ∧ rb.credentialId = ra.credentialId := by
  have hra := settled_of_parse ha
  constructor
  · intro hlegacy b rb hb hsame _ hmessage
    have hrb := settled_of_parse hb
    rw [hsame, hlegacy] at hrb
    rw [hlegacy] at hra
    exact hra.target_eq hrb (Subtype.ext (List.cons.inj hmessage).2)
  · intro hall
    by_contra hlegacy
    have htrue : endsLegacy C a = true := Bool.of_not_eq_false hlegacy
    -- two one-byte ids under the same message: the request names at most one of them
    have hid : ∀ x, ra.credentialId = some ⟨[x], by simp⟩ := by
      intro x
      obtain ⟨rb, hb, hends, hmessage, hcred⟩ := parse_legacyRequest hra x
      have hsub : rb.subCommand = ra.subCommand := (List.cons.inj hmessage).1
      rw [← (hall _ rb hb (hends.trans htrue.symm) hsub hmessage).2, hcred]
    have habs := (hid 0xAA).symm.trans (hid 0xBB)
    simp at habs

/-- Delete a credential named in a descriptor: `A2 01 06 02 A1 02 A1 02 41 AA`. -/
def deleteByDescriptor : List UInt8 := [0xA2, 0x01, 0x06, 0x02, 0xA1, 0x02, 0xA1, 0x02, 0x41, 0xAA]

/-- What the request with the descriptor parses to. -/
def deleteRequest : CredentialManagementRequest where
  subCommand := 0x06
  credentialId := some ⟨[0xAA], by decide⟩
  rpIdHash := none
  pinUvAuthProtocol := none
  pinUvAuthParam := none
  subCommandParams := ⟨[0xA1, 0x02, 0xA1, 0x02, 0x41, 0xAA], by decide⟩

theorem target_fixed_iff_deleteByDescriptor :
    parse Cbor.heads deleteByDescriptor = .ok deleteRequest ∧
      ∀ b rb, parse Cbor.heads b = .ok rb →
        endsLegacy Cbor.heads b = endsLegacy Cbor.heads deleteByDescriptor →
        rb.subCommand = deleteRequest.subCommand → rb.message = deleteRequest.message →
        rb.rpIdHash = deleteRequest.rpIdHash ∧ rb.credentialId = deleteRequest.credentialId := by
  have hparse : parse Cbor.heads deleteByDescriptor = .ok deleteRequest := by decide +kernel
  exact ⟨hparse, (target_fixed_iff Cbor.heads deleteByDescriptor deleteRequest hparse).mp
    (by decide +kernel)⟩

/-- Two requests to delete different credentials, `A2 01 06 02 41 AA` and `A2 01 06 02 41 BB`, have
  the same message. -/
theorem same_message_two_targets :
    ∃ ra rb, parse Cbor.heads [0xA2, 0x01, 0x06, 0x02, 0x41, 0xAA] = .ok ra ∧
      parse Cbor.heads [0xA2, 0x01, 0x06, 0x02, 0x41, 0xBB] = .ok rb ∧
      ra.subCommand = rb.subCommand ∧ ra.message = rb.message ∧
      ra.credentialId = some ⟨[0xAA], by decide⟩ ∧ rb.credentialId = some ⟨[0xBB], by decide⟩ :=
  ⟨⟨0x06, some ⟨[0xAA], by decide⟩, none, none, none, BoundedBytes.empty 96⟩,
    ⟨0x06, some ⟨[0xBB], by decide⟩, none, none, none, BoundedBytes.empty 96⟩,
    by decide +kernel, by decide +kernel, rfl, rfl, rfl, rfl⟩

end CredentialManagementRequest

end AegisToken
