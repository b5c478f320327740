import AegisToken.Core.ClientPin

/-
  Where the authority of a pinUvAuthToken comes from, over whole runs of the `clientPIN` handler.
  `Live`: the active token was issued by one `get_pin_token` of the run that proved the PIN, and
  nothing revoked it since; while it has permissions they are the ones issued, no operation was
  closed since, and its binding is the one issued or that of every operation authorised since.
  A call drops the token, issues one, or keeps that (`step_cases`), so every run keeps it, and
  `authorize_granted` reads it off where an operation is authorised.
-/

namespace AegisToken
open ByteCodec

namespace ClientPin

/-! ## Runs -/

/-- The handler and the PIN state. -/
structure PinSession (σ : Type) where
  client : ClientPin
  state : σ

/-- A call of the handler, with the randomness it draws. -/
inductive PinCall where
  | keyAgreement (rng : Nat → FixedBytes 32)
  | setPin (request : ClientPinRequest)
  | getPinToken (request : ClientPinRequest) (token : FixedBytes 32)
  | changePin (request : ClientPinRequest)
  | authorize (request : TokenRequest)
  | closeUserPresenceOperation (tokenUsed succeeded : Bool)
  | invalidateToken

section Runs
variable {σ : Type} (K : PinCrypto) (P : PinState σ)

def step (s : PinSession σ) : PinCall → PinSession σ
  | .keyAgreement rng => { s with client := (keyAgreement K s.client rng).2 }
  | .setPin request => { s with state := (setPin K P s.client s.state request).2 }
  | .getPinToken request token =>
    let out := getPinToken K P s.client s.state request token
    ⟨out.2.1, out.2.2⟩
  | .changePin request =>
    let out := changePin K P s.client s.state request
    ⟨out.2.1, out.2.2⟩
  | .authorize request => { s with client := (authorize K P s.client s.state request).2 }
  | .closeUserPresenceOperation tokenUsed succeeded =>
    { s with client := s.client.closeUserPresenceOperation tokenUsed succeeded }
  | .invalidateToken => { s with client := s.client.invalidateToken }

def start (state : σ) : PinSession σ := ⟨new, state⟩

/-- `get_pin_token` succeeds, and its encrypted PIN hash is the one of the stored PIN. -/
def Issues (s : PinSession σ) (request : ClientPinRequest) (token : FixedBytes 32) : Prop :=
  ∃ response storedHash secret pinHashEnc,
    (getPinToken K P s.client s.state request token).1 = .ok response ∧
    P.pinHash s.state = some storedHash ∧ shared K s.client request = .ok secret ∧
    request.pinHashEnc = some pinHashEnc ∧
    provesPin K secret pinHashEnc.val storedHash = .ok true

/-- The calls after which an earlier token is no longer good: a successful `get_pin_token`, a
  `change_pin` that succeeds or fails for a wrong PIN, and `invalidate_token`. -/
def Revokes (s : PinSession σ) : PinCall → Prop
  | .getPinToken request token =>
    ∃ response, (getPinToken K P s.client s.state request token).1 = .ok response
  | .changePin request =>
    (changePin K P s.client s.state request).1 = .ok () ∨ WrongPin K P s.client s.state request
  | .invalidateToken => True
  | _ => False

/-- The call that closes a successful operation with a token. -/
def Closes : PinCall → Prop
  | .closeUserPresenceOperation tokenUsed succeeded => tokenUsed = true ∧ succeeded = true
  | _ => False

/-- The relying party of a `makeCredential` or `getAssertion` that a call authorises with a
  token. -/
def authorizedRp (s : PinSession σ) : PinCall → Option (List UInt8)
  | .authorize request =>
    match (authorize K P s.client s.state request).1, request.operation with
    | .ok true, .makeCredential rpId => some rpId.val
    | .ok true, .getAssertion rpId => some rpId.val
    | _, _ => none
  | _ => none

/-- The operation stays inside one relying party. -/
def InScope (rpId : List UInt8) : TokenOperation → Prop
  | .makeCredential rp => rp.val = rpId
  | .getAssertion rp => rp.val = rpId
  | .credentialManagement .device => False
  | .credentialManagement (.relyingPartyHash hash) => hash = rpIdHash K rpId
  | .credentialManagement (.credentialRelyingParty none) => False
  | .credentialManagement (.credentialRelyingParty (some rp)) => rp.val = rpId

end Runs

/-! ## One call -/

section Steps
variable {σ : Type} {K : PinCrypto} {P : PinState σ}

theorem tokenRequest_ok {c : ClientPin} {request : ClientPinRequest} {permissions : UInt8}
    {secret : FixedBytes 32} {pinHashEnc : BoundedBytes 32}
    (h : tokenRequest K c request = .ok (permissions, secret, pinHashEnc)) :
    requestedPermissions request = .ok permissions ∧ shared K c request = .ok secret ∧
      request.pinHashEnc = some pinHashEnc := by
  obtain ⟨permissions, hpr, h⟩ := ok_of_bind h
  obtain ⟨secret, hsh, h⟩ := ok_of_bind h
  obtain ⟨enc, he, h⟩ := ok_of_bind h
  obtain ⟨auth, -, h⟩ := ok_of_bind h
  split at h
  · cases h
  · cases h
    exact ⟨hpr, hsh, required_eq_ok.mp he⟩

/-- The parameter is the prefix of 16 or 32 bytes of a message's HMAC under a token. -/
def IsMacPrefix (K : PinCrypto) (token : FixedBytes 32) (message param : List UInt8) : Prop :=
  (param.length = 16 ∨ param.length = 32) ∧
    param = (K.hmacSha256 token message).val.take param.length

theorem verifyPinUvAuthParam_iff {c : ClientPin} {param message : List UInt8} :
    verifyPinUvAuthParam K c param message = true ↔
      ∃ token, c.pinUvAuthToken = some token ∧ IsMacPrefix K token message param := by
  unfold verifyPinUvAuthParam IsMacPrefix
  rcases c.pinUvAuthToken with _ | token
  · simp
  simp only [Option.some.injEq, exists_eq_left']
  by_cases hl : param.length = 16 ∨ param.length = 32
  · rw [if_neg (by omega), ctEq_iff]
    exact ⟨fun h => ⟨hl, h.symm⟩, fun h => h.2.symm⟩
  · rw [if_pos (by omega)]
    exact ⟨nofun, fun h => absurd h.1 hl⟩

variable {c c' : ClientPin}

/-- Binding keeps the token and an existing binding, and leaves the relying party bound. -/
theorem bindRpId_ok {rpId : Str} (h : c.bindRpId rpId = .ok c') :
    (∀ bound, c.pinUvAuthRpId = some bound → bound.val = rpId.val) ∧
      ∃ bound, c' = { c with pinUvAuthRpId := some bound } ∧ bound.val = rpId.val ∧
        (∀ b, c.pinUvAuthRpId = some b → b = bound) := by
  unfold bindRpId at h
  rcases hb : c.pinUvAuthRpId with _ | bound
  · simp only [hb] at h
    split at h
    · cases h
      exact ⟨nofun, _, rfl, rfl, nofun⟩
    · cases h
  · simp only [hb] at h
    split at h
    · cases h
    next heq =>
    obtain rfl := Except.ok.inj h
    have heq' : bound.val = rpId.val := not_ne_iff.mp heq
    refine ⟨?_, bound, ?_, heq', ?_⟩
    · rintro _ ⟨⟩
      exact heq'
    · rw [← hb]
    · rintro _ ⟨⟩
      rfl

/-- An operation passes only inside the bound relying party. -/
theorem checkOperation_inScope {op : TokenOperation}
    (h : checkOperation K c op = .ok c') :
    ∀ bound, c.pinUvAuthRpId = some bound → InScope K bound.val op := by
  intro bound hb
  rcases op with rp | rp | scope
  · exact ((bindRpId_ok h).1 bound hb).symm
  · exact ((bindRpId_ok h).1 bound hb).symm
  rcases scope with _ | hash | _ | rp
  · simp [checkOperation, checkManagementScope, hb, Except.map] at h
  · simp only [checkOperation, checkManagementScope, hb] at h
    split at h
    · cases h
    · next heq => exact (not_ne_iff.mp heq).symm
  · simp [checkOperation, checkManagementScope, hb, Except.map] at h
  · simp only [checkOperation, checkManagementScope, hb, Option.map_some, rpInScope] at h
    split at h
    · next heq => exact (of_decide_eq_true heq).symm
    · cases h

/-- What an operation leaves of the handler: at most a new binding, to its own relying party. -/
theorem checkOperation_client {op : TokenOperation}
    (h : checkOperation K c op = .ok c') :
    c' = c ∧ (∃ scope, op = .credentialManagement scope) ∨
      ∃ rpId bound, (op = .makeCredential rpId ∨ op = .getAssertion rpId) ∧
        c' = { c with pinUvAuthRpId := some bound } ∧ bound.val = rpId.val ∧
        ∀ b, c.pinUvAuthRpId = some b → b = bound := by
  rcases op with rp | rp | scope
  · obtain ⟨-, bound, hc, hv, hsm⟩ := bindRpId_ok h
    exact .inr ⟨rp, bound, .inl rfl, hc, hv, hsm⟩
  · obtain ⟨-, bound, hc, hv, hsm⟩ := bindRpId_ok h
    exact .inr ⟨rp, bound, .inr rfl, hc, hv, hsm⟩
  simp only [checkOperation] at h
  rcases hs : checkManagementScope K c scope with e | u
  · rw [hs] at h
    cases h
  · rw [hs] at h
    cases h
    exact .inl ⟨rfl, scope, rfl⟩

/-- An operation is authorised by the token, its permission and its scope; anything else leaves
  the handler as it is. -/
theorem authorize_cases (c : ClientPin) (s : σ) (request : TokenRequest) :
    (∃ param c', request.param = some param ∧
      c.pinUvAuthPermissions &&& request.operation.permission ≠ 0 ∧
      verifyPinUvAuthParam K c param request.message = true ∧
      checkOperation K c request.operation = .ok c' ∧
      authorize K P c s request = (.ok true, c')) ∨
    (authorize K P c s request).1 ≠ .ok true ∧ (authorize K P c s request).2 = c := by
  unfold authorize
  rcases request.param with _ | param
  · refine .inr ?_
    simp only
    split
    · exact ⟨nofun, rfl⟩
    · split <;> exact ⟨nofun, rfl⟩
  simp only
  split
  · exact .inr ⟨nofun, rfl⟩
  split
  · exact .inr ⟨nofun, rfl⟩
  next hpr =>
  split
  · exact .inr ⟨nofun, rfl⟩
  next hmac =>
  rcases hop : checkOperation K c request.operation with e | c'
  · exact .inr ⟨nofun, rfl⟩
  · exact .inl ⟨param, c', rfl, hpr, Bool.of_not_eq_false hmac, rfl, rfl⟩

/-- A call that keeps the token. While permissions are left they are the same, the call closed
  nothing, an existing binding stays, and an authorised operation's relying party is bound. -/
structure Keeps (K : PinCrypto) (P : PinState σ) (s : PinSession σ) (call : PinCall) : Prop where
  revokes : ¬ Revokes K P s call
  token : (step K P s call).client.pinUvAuthToken = s.client.pinUvAuthToken
  live : (step K P s call).client.pinUvAuthPermissions ≠ 0 →
    (step K P s call).client.pinUvAuthPermissions = s.client.pinUvAuthPermissions ∧
    ¬ Closes call ∧
    (∀ bound, s.client.pinUvAuthRpId = some bound →
      (step K P s call).client.pinUvAuthRpId = some bound) ∧
    ∀ rp ∈ authorizedRp K P s call,
      (step K P s call).client.pinUvAuthRpId.map Subtype.val = some rp

theorem Keeps.of_same {s : PinSession σ} {call : PinCall} (hr : ¬ Revokes K P s call)
    (hcl : ¬ Closes call) (hah : authorizedRp K P s call = none)
    (h : s.client.SameToken (step K P s call).client) : Keeps K P s call where
  revokes := hr
  token := h.1
  live _ := by
    refine ⟨h.2.1, hcl, ?_, ?_⟩
    · intro bound hb
      rw [h.2.2, hb]
    · intro rp hrp
      rw [hah] at hrp
      cases hrp

theorem keeps_authorize (s : PinSession σ) (request : TokenRequest) :
    Keeps K P s (.authorize request) := by
  obtain ⟨param, c', -, -, -, hop, heq⟩ | ⟨hne, hsm⟩ :=
    authorize_cases (K := K) (P := P) s.client s.state request
  · have hcl : (step K P s (.authorize request)).client = c' := by simp only [step, heq]
    obtain ⟨rfl, scope, hcm⟩ | ⟨rpId, bound, hrp, rfl, hv, hbn⟩ := checkOperation_client hop
    · refine Keeps.of_same nofun nofun ?_ ?_
      · simp only [authorizedRp, heq, hcm]
      · rw [hcl]
        exact .rfl _
    refine ⟨nofun, by rw [hcl], fun _ => ⟨by rw [hcl], nofun, ?_, ?_⟩⟩
    · intro b hb
      rw [hcl, hbn b hb]
    intro rp hm
    have hrd : rp = rpId.val := by
      rcases hrp with hrp | hrp <;> simpa [authorizedRp, heq, hrp, eq_comm] using hm
    rw [hcl, hrd, ← hv]
    rfl
  · refine Keeps.of_same nofun nofun ?_ ?_
    · simp only [authorizedRp]
      split
      · next h _ => exact absurd h hne
      · next h _ => exact absurd h hne
      · rfl
    · simp only [step, hsm]
      exact .rfl _

theorem keeps_close (s : PinSession σ) (tokenUsed succeeded : Bool) :
    Keeps K P s (.closeUserPresenceOperation tokenUsed succeeded) := by
  by_cases h : tokenUsed = true ∧ succeeded = true
  · obtain ⟨rfl, rfl⟩ := h
    exact ⟨nofun, rfl, fun hne => absurd rfl hne⟩
  have hsm : s.client.closeUserPresenceOperation tokenUsed succeeded = s.client := by
    unfold closeUserPresenceOperation
    rw [if_neg (by simpa using h)]
  refine Keeps.of_same nofun h rfl ?_
  simp only [step, hsm]
  exact .rfl _

/-- A call drops the token, issues one with the permissions and the relying party asked for, or
  keeps it. -/
theorem step_cases (hP : P.WritesSucceed) (s : PinSession σ) (call : PinCall) :
    (step K P s call).client.pinUvAuthToken = none ∨
    (∃ request token permissions, call = .getPinToken request token ∧ Issues K P s request token ∧
      requestedPermissions request = .ok permissions ∧
      (step K P s call).client.pinUvAuthToken = some token ∧
      (step K P s call).client.pinUvAuthPermissions = permissions ∧
      (step K P s call).client.pinUvAuthRpId = request.rpId) ∨
    Keeps K P s call := by
  cases call with
  | keyAgreement rng =>
    exact .inr (.inr (.of_same nofun nofun rfl (keyAgreement_same K s.client rng)))
  | setPin request => exact .inr (.inr (.of_same nofun nofun rfl (.rfl _)))
  | getPinToken request token =>
    obtain ⟨response, storedHash, permissions, secret, pinHashEnc, hok, hhs, hq, hpf, hc⟩ |
      ⟨e, hr, hc⟩ := getPinToken_cases request token
    · obtain ⟨hpr, hsh, he⟩ := tokenRequest_ok hq
      refine .inr (.inl ⟨request, token, permissions, rfl, ?_, hpr, ?_⟩)
      · exact ⟨response, storedHash, secret, pinHashEnc, hok, hhs, hsh, he, hpf⟩
      · simp only [step, hc, and_self]
    refine .inr (.inr (.of_same ?_ nofun rfl ?_))
    · rintro ⟨response, hok⟩
      rw [hr] at hok
      cases hok
    · simp only [step, hc]
      exact .rfl _
  | changePin request =>
    obtain hno | ⟨hc, hne, hwr⟩ :=
      changePin_cases hP request
    · exact .inl hno
    refine .inr (.inr (.of_same ?_ nofun rfl ?_))
    · rintro (hok | hw)
      · exact hne hok
      · exact hwr hw
    · simp only [step, hc]
      exact .rfl _
  | authorize request => exact .inr (.inr (keeps_authorize s request))
  | closeUserPresenceOperation tokenUsed succeeded => exact .inr (.inr (keeps_close s _ _))
  | invalidateToken => exact .inl rfl

end Steps

/-! ## Every run -/

section Authority
variable {σ : Type} {K : PinCrypto} {P : PinState σ}

/-- Where the active token of a session comes from, after the calls `calls` from `s₀` on. -/
def Live (K : PinCrypto) (P : PinState σ) (s₀ : PinSession σ) (calls : List PinCall) : Prop :=
  ∀ token, (Runs.run (step K P) s₀ calls).client.pinUvAuthToken = some token →
    ∃ before request after, calls = before ++ .getPinToken request token :: after ∧
      Issues K P (Runs.run (step K P) s₀ before) request token ∧
      Runs.Every (step K P) (fun s call => ¬ Revokes K P s call)
        (Runs.run (step K P) s₀ (before ++ [.getPinToken request token])) after ∧
      ((Runs.run (step K P) s₀ calls).client.pinUvAuthPermissions ≠ 0 →
        requestedPermissions request =
          .ok (Runs.run (step K P) s₀ calls).client.pinUvAuthPermissions ∧
        Runs.Every (step K P) (fun _ call => ¬ Closes call)
          (Runs.run (step K P) s₀ (before ++ [.getPinToken request token])) after ∧
        (∀ rp, request.rpId = some rp →
          (Runs.run (step K P) s₀ calls).client.pinUvAuthRpId = some rp) ∧
        Runs.Every (step K P) (fun s call => ∀ rp ∈ authorizedRp K P s call,
            (Runs.run (step K P) s₀ calls).client.pinUvAuthRpId.map Subtype.val = some rp)
          (Runs.run (step K P) s₀ (before ++ [.getPinToken request token])) after)

theorem Live.start (state : σ) : Live K P (start state) [] := nofun

theorem Live.step (hP : P.WritesSucceed) {s₀ : PinSession σ} {calls : List PinCall}
    (h : Live K P s₀ calls) (call : PinCall) : Live K P s₀ (calls ++ [call]) := by
  intro token htk
  have hr : Runs.run (ClientPin.step K P) s₀ (calls ++ [call]) =
      ClientPin.step K P (Runs.run (ClientPin.step K P) s₀ calls) call := Runs.run_append ..
  rw [hr] at htk ⊢
  obtain hno | ⟨request, issued, permissions, rfl, hi, hpr, ht, hpm, hrp⟩ |
    hkp := step_cases hP (Runs.run (ClientPin.step K P) s₀ calls) call
  · rw [hno] at htk
    cases htk
  · obtain rfl := Option.some.inj (ht.symm.trans htk)
    refine ⟨calls, request, [], rfl, hi, trivial, fun _ => ⟨?_, trivial, ?_, trivial⟩⟩
    · rw [hpm, hpr]
    · intro rp hrd
      rw [hrp, hrd]
  · rw [hkp.token] at htk
    obtain ⟨before, request, after, hcl, hi, hev, hlv⟩ := h token htk
    have haf : Runs.run (ClientPin.step K P)
        (Runs.run (ClientPin.step K P) s₀ (before ++ [.getPinToken request token])) after =
        Runs.run (ClientPin.step K P) s₀ calls := by
      rw [← Runs.run_append, hcl]
      simp
    refine ⟨before, request, after ++ [call], by simp [hcl], hi, ?_, ?_⟩
    · rw [Runs.every_concat, haf]
      exact ⟨hev, hkp.revokes⟩
    intro hne
    obtain ⟨hsm, hc, hn, hah⟩ := hkp.live hne
    rw [hsm] at hne ⊢
    obtain ⟨hpr, hon, hbn, ho⟩ := hlv hne
    refine ⟨hpr, ?_, fun rp hrp => hn rp (hbn rp hrp), ?_⟩
    · rw [Runs.every_concat]
      exact ⟨hon, hc⟩
    rw [Runs.every_concat, haf]
    refine ⟨ho.imp ?_, hah⟩
    -- an operation authorised before found its relying party bound, and the binding stays
    intro s e hold rp hm
    obtain ⟨bound, hb, hv⟩ := Option.map_eq_some_iff.mp (hold rp hm)
    rw [hn bound hb, Option.map_some, hv]

theorem Live.run (hP : P.WritesSucceed) (state : σ) (calls : List PinCall) :
    Live K P (ClientPin.start state) calls := by
  induction calls using List.reverseRecOn with
  | nil => exact .start state
  | append_singleton calls call ih => exact ih.step hP call

/-- Whenever an operation is authorised with a parameter, one earlier `get_pin_token` of the run
  proved the PIN and issued the token that made the parameter, with the operation's permission;
  no call since then revoked it or closed an operation; and the operation stays inside the relying
  party the token was issued for, or, without one, inside that of every `makeCredential` and
  `getAssertion` authorised since. -/
theorem authorize_granted (K : PinCrypto) (P : PinState σ) (hP : P.WritesSucceed) (state : σ)
    (calls : List PinCall) (request : TokenRequest) (param : List UInt8)
    (hparam : request.param = some param)
    (h : (authorize K P (Runs.run (step K P) (start state) calls).client
      (Runs.run (step K P) (start state) calls).state request).1 = .ok true) :
    ∃ before grant token after permissions,
      calls = before ++ .getPinToken grant token :: after ∧
      Issues K P (Runs.run (step K P) (start state) before) grant token ∧
      Runs.Every (step K P) (fun s call => ¬ Revokes K P s call ∧ ¬ Closes call)
        (Runs.run (step K P) (start state) (before ++ [.getPinToken grant token])) after ∧
      requestedPermissions grant = .ok permissions ∧
      permissions &&& request.operation.permission ≠ 0 ∧
      (param.length = 16 ∨ param.length = 32) ∧
      param = (K.hmacSha256 token request.message).val.take param.length ∧
      (∀ rp, grant.rpId = some rp → InScope K rp.val request.operation) ∧
      (grant.rpId = none →
        Runs.Every (step K P)
          (fun s call => ∀ rp ∈ authorizedRp K P s call, InScope K rp request.operation)
          (Runs.run (step K P) (start state) (before ++ [.getPinToken grant token])) after) := by
  obtain ⟨param', c', hparam', hpermission, hmac, hop, -⟩ | ⟨hne, -⟩ := authorize_cases
    (Runs.run (step K P) (start state) calls).client
    (Runs.run (step K P) (start state) calls).state request
  swap
  · exact absurd h hne
  obtain rfl := Option.some.inj (hparam.symm.trans hparam')
  obtain ⟨token, htoken, hlen, htag⟩ := verifyPinUvAuthParam_iff.mp hmac
  obtain ⟨before, grant, after, hcalls, hissues, hevery, hlive⟩ :=
    Live.run hP state calls token htoken
  have hne : (Runs.run (step K P) (start state) calls).client.pinUvAuthPermissions ≠ 0 := by
    intro hzero
    rw [hzero] at hpermission
    exact hpermission (by simp)
  obtain ⟨hperm, hopen, hbound, hothers⟩ := hlive hne
  refine ⟨before, grant, token, after, _, hcalls, hissues, ?_, hperm, hpermission, hlen, htag,
    ?_, ?_⟩
  · exact hevery.and hopen
  · exact fun rp hrp => checkOperation_inScope hop rp (hbound rp hrp)
  intro _
  refine hothers.imp fun s call hold rp hmem => ?_
  obtain ⟨bound, hb, hval⟩ := Option.map_eq_some_iff.mp (hold rp hmem)
  rw [← hval]
  exact checkOperation_inScope hop bound hb

/-! ### A token for `example.com`

  The authenticator's private key is `11…11`, the platform's `22…22`, the PIN `1234`. -/

def memoryPin : PinState (Option (FixedBytes 32) × UInt8) where
  pinHash s := s.1
  pinRetries s := s.2
  setPinHash _ hash := (.ok (), some hash, defaultRetries)
  setPinRetries s retries := (.ok (), s.1, retries)

/-- The SHA-256 of `1234` zero-padded to 64 bytes. -/
def examplePinHash : FixedBytes 32 :=
  ⟨toBE 32 0x8e79172d3742842169cd9ea9638e5ca6eb958f10a780fa95268ad7a863819215, by decide⟩

def examplePlatformKey : Ec2KeyAgreement where
  x := ⟨toBE 32 0xd65a93977caa3d1b081852ff57a79e465f1660577304baead505dd3a48589cf3, by decide⟩
  y := ⟨toBE 32 0x50185e895372df6221ea3a137557e473fddb6755f05bd507c3c533fce9c91285, by decide⟩

def examplePublicKey : Ec2KeyAgreement where
  x := ⟨toBE 32 0x0217e617f0b6443928278f96999e69a23a4f2c152bdf6d6cdf66e5b80282d4ed, by decide⟩
  y := ⟨toBE 32 0x194a7debcb97712d2dda3ca85aa8765a56f45fc758599652f2897c65306e5794, by decide⟩

def examplePrivateKey : FixedBytes 32 := FixedBytes.fill 32 0x11

/-- The ECDH secret of the two key pairs. -/
def exampleShared : FixedBytes 32 :=
  ⟨toBE 32 0xccfc261f58193c98ca4ad4a53bbac6f0ee29bc4d48438090446908622ca79af6, by decide⟩

/-- The first half of the PIN hash, encrypted under the shared secret. -/
def examplePinHashEnc : BoundedBytes 32 :=
  ⟨toBE 16 0xf9423917a882eaffb2cc01e964930765, by decide⟩

def exampleToken : FixedBytes 32 := FixedBytes.fill 32 0x33

def exampleHash : List UInt8 := List.replicate 32 0x22

/-- The values of the primitives on the inputs of this run. -/
def examplePinCrypto : PinCrypto where
  sha256 _ := FixedBytes.zero 32
  es256 _ _ := none
  eddsa _ _ := []
  hmacSha256 key message :=
    if key = exampleShared ∧ message = examplePinHashEnc.val then
      ⟨toBE 32 0x293eb1517edcc0077eab32eeacabbfa4d59b571a44a30204c92b28faeb5cd17d, length_toBE ..⟩
    else if key = exampleToken ∧ message = exampleHash then
      ⟨toBE 32 0x00f42cb2d056471ae1192c3814e02d797ec90ede64518aedf0be131c0963ef86, length_toBE ..⟩
    else FixedBytes.zero 32
  encryptCbc key data :=
    if key = exampleShared ∧ data = exampleToken.val then
      toBE 32 0x8501ef854a7e7fc9325b6b3a1918f5d4ae3d49341ee3c09d7523a71ec33bf9e3
    else data
  decryptCbc key data :=
    if key = exampleShared ∧ data = examplePinHashEnc.val then examplePinHash.val.take 16 else data
  isSecretKey _ := true
  publicKey secret := if secret = examplePrivateKey then some examplePublicKey else none
  isPublicKey _ := true
  diffieHellman _ _ := exampleShared
  length_encryptCbc key data := by
    split
    · next h =>
      rw [h.2]
      decide
    · rfl
  length_decryptCbc key data := by
    split
    · next h =>
      rw [h.2]
      decide
    · rfl

/-- A request for a token for assertions, not bound to a relying party. -/
def exampleTokenRequest : ClientPinRequest where
  subCommand := subGetPinUvAuthTokenWithPermissions
  keyAgreement := some examplePlatformKey
  pinUvAuthParam := some ⟨toBE 16 0x293eb1517edcc0077eab32eeacabbfa4, by decide⟩
  newPinEnc := none
  pinHashEnc := some examplePinHashEnc
  permissions := some permissionGa
  rpId := none

/-- An assertion for `example.com`, with the parameter the token makes. -/
def exampleAuthorization : TokenRequest where
  param := some (toBE 16 0x00f42cb2d056471ae1192c3814e02d79)
  message := exampleHash
  uvRequested := true
  operation := .getAssertion
    ⟨[0x65, 0x78, 0x61, 0x6D, 0x70, 0x6C, 0x65, 0x2E, 0x63, 0x6F, 0x6D], by decide⟩

/-- Key agreement, a token, and a first authorised assertion. -/
def exampleCalls : List PinCall :=
  [.keyAgreement fun _ => examplePrivateKey, .getPinToken exampleTokenRequest exampleToken,
    .authorize exampleAuthorization]

/-- The session after them. -/
def exampleSession : PinSession (Option (FixedBytes 32) × UInt8) :=
  Runs.run (step examplePinCrypto memoryPin) (start (some examplePinHash, 8)) exampleCalls

/-- A second assertion is authorised, and its token was issued in the run. -/
theorem authorize_granted_exampleCalls :
    (authorize examplePinCrypto memoryPin exampleSession.client exampleSession.state
      exampleAuthorization).1 = .ok true ∧
    ∃ before grant token after, exampleCalls = before ++ .getPinToken grant token :: after ∧
      toBE 16 0x00f42cb2d056471ae1192c3814e02d79 =
        (examplePinCrypto.hmacSha256 token exampleHash).val.take 16 := by
  have hok : (authorize examplePinCrypto memoryPin exampleSession.client exampleSession.state
      exampleAuthorization).1 = .ok true := by
    decide +kernel
  obtain ⟨before, grant, token, after, _, hcalls, -, -, -, -, -, hmac, -⟩ :=
    authorize_granted examplePinCrypto memoryPin
      ⟨fun _ _ => ⟨_, rfl⟩, fun _ _ => ⟨_, rfl⟩⟩ (some examplePinHash, 8) exampleCalls
      exampleAuthorization (toBE 16 0x00f42cb2d056471ae1192c3814e02d79) rfl hok
  exact ⟨hok, before, grant, token, after, hcalls, hmac⟩

end Authority

end ClientPin

end AegisToken
