/-
  Assertions over several credentials, over whole sessions.
  `assertion_candidates` collects the stored credentials that a request asks for, each once: in the
  order of the store, or in the order in which the allow list first names them. A getAssertion that
  succeeds signs for the first of them and keeps the list for its channel. Each getNextAssertion of
  that channel takes the next one; what other channels ask, and every other request, leaves the
  list where it is. So the `k`-th call names candidate `k`, until the list is used up.
-/
import AegisToken.Core.RpIsolation
import AegisToken.Firmware.Enumeration

namespace AegisToken.Ctap2
open ByteCodec History

variable {σ φ : Type}

/-! ## The candidates of a request -/

/-- The request asks for the credential: it belongs to the relying party, and the allow list names
  it, or there is no list and it is discoverable. -/
def Asks (request : GetAssertionRequest) (c : Credential) : Prop :=
  c.rpId = request.rpId ∧
    if request.allowList = [] then c.discoverable = true else c.id.val ∈ request.allowList

instance (request : GetAssertionRequest) : DecidablePred (Asks request) :=
  fun _ => inferInstanceAs (Decidable (_ ∧ _))

def StoredFor (S : CredentialStore σ φ) (s : σ) (rpId : FixedString 64) (id : List UInt8) : Prop :=
  ∃ c ∈ S.list s, c.id.val = id ∧ c.rpId = rpId

instance (S : CredentialStore σ φ) (s : σ) (rpId : FixedString 64) :
    DecidablePred (StoredFor S s rpId) := fun _ => inferInstanceAs (Decidable (∃ c ∈ S.list s, _))

/-- The list holds the stored credentials that the request asks for, each once and in order. -/
structure Candidates (S : CredentialStore σ φ) (s : σ) (request : GetAssertionRequest)
    (ids : List (List UInt8)) : Prop where
  nodup : ids.Nodup
  mem_iff : ∀ id, id ∈ ids ↔ ∃ c ∈ S.list s, c.id.val = id ∧ Asks request c
  storeOrder : request.allowList = [] → ids = ((S.list s).filter (Asks request)).map (·.id.val)
  allowOrder : request.allowList ≠ [] →
    ids = (request.allowList.filter (StoredFor S s request.rpId)).eraseDups

section
variable {S : CredentialStore σ φ} {s : σ} {request : GetAssertionRequest} {ids : List (List UInt8)}

theorem eraseDups_concat {α : Type} [BEq α] [LawfulBEq α] {l : List α} {x : α} :
    (x ∈ l → (l ++ [x]).eraseDups = l.eraseDups) ∧
      (x ∉ l → (l ++ [x]).eraseDups = l.eraseDups ++ [x]) := by
  constructor
  · intro hx
    simp [List.eraseDups_append, List.removeAll, hx]
  · intro hx
    simp [List.eraseDups_append, List.removeAll, hx, List.eraseDups_cons]

theorem pushCandidate_ok {id : List UInt8} {ids' : List (List UInt8)}
    (h : pushCandidate ids id = .ok ids') : ids' = ids ++ [id] := by
  unfold pushCandidate at h
  split at h
  · exact (Except.ok.inj h).symm
  · cases h

theorem candidates_of_nil (hu : S.IdsUnique s) (hal : request.allowList = [])
    (h : assertionCandidates S s request = .ok ids) : Candidates S s request ids := by
  have hor : ids = ((S.list s).filter (Asks request)).map (·.id.val) := by
    unfold assertionCandidates at h
    rw [if_pos hal] at h
    refine Runs.foldlM_seen
      (I := fun seen ids => ids = (seen.filter (Asks request)).map (·.id.val)) ?_ rfl h
    intro seen c ids ids' hi hst
    rw [List.filter_append, List.map_append, ← hi]
    split at hst
    · rename_i hn
      cases hst
      have hak : ¬Asks request c := by simp [Asks, hal, hn]
      simp [hak]
    rename_i hds
    split at hst
    · rename_i hrp
      cases hst
      have hak : ¬Asks request c := fun ha => hrp ha.1
      simp [hak]
    rename_i hrp
    have hak : Asks request c := by
      refine ⟨not_ne_iff.mp hrp, ?_⟩
      rw [if_pos hal]
      exact Bool.eq_true_of_not_eq_false hds
    rw [pushCandidate_ok hst]
    simp [hak]
  refine ⟨?_, ?_, fun _ => hor, fun hne => absurd hal hne⟩
  · rw [hor]
    exact (List.filter_sublist.map _).nodup hu
  intro id
  rw [hor]
  simp only [List.mem_map, List.mem_filter, decide_eq_true_eq]
  constructor
  · rintro ⟨c, ⟨hm, hak⟩, hid⟩
    exact ⟨c, hm, hid, hak⟩
  · rintro ⟨c, hm, hid, hak⟩
    exact ⟨c, ⟨hm, hak⟩, hid⟩

theorem storedFor_iff_get (hS : S.Lawful) (hu : S.IdsUnique s) {rpId : FixedString 64}
    {id : List UInt8} : StoredFor S s rpId id ↔ ∃ c, S.get s id = some c ∧ c.rpId = rpId := by
  constructor
  · rintro ⟨c, hm, rfl, hrp⟩
    exact ⟨c, hS.get_of_mem hu hm, hrp⟩
  rintro ⟨c, hg, hrp⟩
  refine ⟨c, ?_, hS.id_of_get hg, hrp⟩
  rw [hS.get_eq] at hg
  exact List.mem_of_find?_eq_some hg

/-- With an allow list the candidates are what it names and the store has for the relying party,
  each once. -/
theorem candidates_seen (hS : S.Lawful) (hu : S.IdsUnique s) (hal : request.allowList ≠ [])
    (h : assertionCandidates S s request = .ok ids) :
    ids = (request.allowList.filter (StoredFor S s request.rpId)).eraseDups ∧ ids.Nodup := by
  unfold assertionCandidates at h
  rw [if_neg hal] at h
  refine Runs.foldlM_seen (I := fun seen ids =>
    ids = (seen.filter (StoredFor S s request.rpId)).eraseDups ∧ ids.Nodup) ?_
    ⟨rfl, List.nodup_nil⟩ h
  rintro seen descriptor ids ids' ⟨hi, hnd⟩ hst
  rw [List.filter_append]
  -- A descriptor that does not count.
  have hsk : ¬StoredFor S s request.rpId descriptor → ids' = ids →
      ids' = (seen.filter (StoredFor S s request.rpId) ++
        [descriptor].filter (StoredFor S s request.rpId)).eraseDups ∧ ids'.Nodup := by
    rintro ht rfl
    rw [List.filter_singleton, decide_eq_false ht, Bool.cond_false, List.append_nil]
    exact ⟨hi, hnd⟩
  rcases hg : S.get s descriptor with _ | c
  · rw [hg] at hst
    refine hsk (fun hs => ?_) (Except.ok.inj hst).symm
    obtain ⟨c, hc, -⟩ := (storedFor_iff_get hS hu).mp hs
    exact absurd (hg.symm.trans hc) nofun
  rw [hg] at hst
  dsimp only at hst
  split at hst
  · rename_i hrp
    refine hsk (fun hs => ?_) (Except.ok.inj hst).symm
    obtain ⟨x, hx, hr⟩ := (storedFor_iff_get hS hu).mp hs
    cases hg.symm.trans hx
    exact hrp hr
  rename_i hrp
  have hs : StoredFor S s request.rpId descriptor :=
    (storedFor_iff_get hS hu).mpr ⟨c, hg, not_ne_iff.mp hrp⟩
  have hm : descriptor ∈ ids ↔ descriptor ∈ seen.filter (StoredFor S s request.rpId) := by
    rw [hi, List.mem_eraseDups]
  rw [List.filter_singleton, decide_eq_true hs, Bool.cond_true]
  split at hst
  · rename_i hd
    cases hst
    rw [eraseDups_concat.1 (hm.mp hd)]
    exact ⟨hi, hnd⟩
  rename_i hn
  rw [eraseDups_concat.2 fun hin => hn (hm.mpr hin), ← hi, pushCandidate_ok hst, hS.id_of_get hg]
  refine ⟨rfl, List.Nodup.append hnd (List.nodup_singleton _) ?_⟩
  exact List.disjoint_singleton.mpr hn

/-- With an allow list: what it names and the store has for the relying party, when it is first
  named. -/
theorem candidates_of_ne_nil (hS : S.Lawful) (hu : S.IdsUnique s) (hal : request.allowList ≠ [])
    (h : assertionCandidates S s request = .ok ids) : Candidates S s request ids := by
  obtain ⟨hor, hnd⟩ := candidates_seen hS hu hal h
  refine ⟨hnd, fun id => ?_, fun hn => absurd hn hal, fun _ => hor⟩
  rw [hor, List.mem_eraseDups, List.mem_filter, decide_eq_true_eq]
  have hak : ∀ c, Asks request c ↔ c.rpId = request.rpId ∧ c.id.val ∈ request.allowList :=
    fun c => by rw [Asks, if_neg hal]
  constructor
  · rintro ⟨hls, c, hm, rfl, hrp⟩
    exact ⟨c, hm, rfl, (hak c).mpr ⟨hrp, hls⟩⟩
  · rintro ⟨c, hm, rfl, hc⟩
    obtain ⟨hrp, hls⟩ := (hak c).mp hc
    exact ⟨hls, c, hm, rfl, hrp⟩

theorem candidates_exact (hS : S.Lawful) (hu : S.IdsUnique s)
    (h : assertionCandidates S s request = .ok ids) : Candidates S s request ids := by
  by_cases hal : request.allowList = []
  · exact candidates_of_nil hu hal h
  · exact candidates_of_ne_nil hS hu hal h

end

/-! ## What a session names -/

/-- The next credential of a pending assertion, with the context of the request. -/
structure NextAssertion where
  credentialId : List UInt8
  rpId : FixedString 64
  clientDataHash : FixedBytes 32
  uv : Bool
deriving DecidableEq

def nextAssertion (p : PendingAssertion) (channel : UInt32) : Option NextAssertion :=
  (p.next channel).map fun (credentialId, p) => ⟨credentialId, p.rpId, p.clientDataHash, p.uv⟩

def named (s : Session σ) : Request φ → Option NextAssertion
  | .getNextAssertion channel _ => s.assertion.bind fun p => nextAssertion p channel
  | _ => none

theorem rpId_utf8 (request : GetAssertionRequest) : Wire.isUtf8 request.rpId.val = true :=
  request.rpId.property.2

/-- Whether user verification counts for a getAssertion, or why it is refused. -/
def assertionUv (D : Device σ φ) (s : Session σ) (request : GetAssertionRequest)
    (param : Option (BoundedBytes 64)) : Except Ctap2Status Bool :=
  (s.clientPin.authorize D.crypto D.store.pin s.store
    ⟨param.map (·.val), request.clientDataHash.val, request.uv,
      .getAssertion ⟨request.rpId.val, rpId_utf8 request⟩⟩).1

def Request.isGetAssertion : Request φ → Bool
  | .getAssertion .. => true
  | _ => false

/-- The channel that asks for a next assertion. -/
def Request.nextCaller : Request φ → Option UInt32
  | .getNextAssertion caller _ => some caller
  | _ => none

def Answer.isAssertion : Answer → Bool
  | .assertion _ => true
  | _ => false

def Begins (x : Log σ φ) : Prop := x.event.isGetAssertion = true ∧ x.answer.isAssertion = true

def CallsNext (channel : UInt32) (x : Log σ φ) : Prop := x.event.nextCaller = some channel

instance : DecidablePred (Begins (σ := σ) (φ := φ)) :=
  fun _ => inferInstanceAs (Decidable (_ ∧ _))

instance (channel : UInt32) : DecidablePred (CallsNext (σ := σ) (φ := φ) channel) :=
  fun _ => inferInstanceAs (Decidable (_ = _))

/-- The entry is a getAssertion of the channel that succeeds, with its request, the uv flag and the
  candidates it finds. -/
structure Begun (D : Device σ φ) (channel : UInt32) (request : GetAssertionRequest) (uv : Bool)
    (ids : List (List UInt8)) (x : Log σ φ) : Prop where
  begins : Begins x
  asked : ∃ param up fault, x.event = .getAssertion channel request param up fault ∧
    assertionUv D x.before request param = .ok uv
  candidates : assertionCandidates D.store.credentials x.before.store request = .ok ids

/-- The session continues this assertion: it is the last that began. -/
def Continuing (D : Device σ φ) (channel : UInt32) (request : GetAssertionRequest) (uv : Bool)
    (ids : List (List UInt8)) (past : List (Log σ φ)) : Prop :=
  Since (fun y _ => Begun D channel request uv ids y) Begins past

/-- The calls of getNextAssertion by a channel since the assertion began. -/
def calls (channel : UInt32) (past : List (Log σ φ)) : Nat :=
  countSince (CallsNext channel) Begins past

/-- What holds of a request and its past: an assertion begins with the exact candidates and signs
  for the first; a continuation names the next one for its channel and nothing for another, and
  signs for what it names. -/
structure Continues (D : Device σ φ) (x : Log σ φ) (past : List (Log σ φ)) : Prop where
  candidates : ∀ {channel request uv ids}, Begun D channel request uv ids x →
    D.store.credentials.IdsUnique x.before.store →
    Candidates D.store.credentials x.before.store request ids
  first : ∀ {channel request uv ids}, Begun D channel request uv ids x →
    ∃ response, x.answer = .assertion response ∧ ids.head? = some response.credentialId
  next : ∀ {channel request uv ids}, Continuing D channel request uv ids past →
    ∀ caller fault, x.event = .getNextAssertion caller fault →
    named x.before x.event =
      if caller = channel then
        (ids[calls channel past + 1]?).map fun id =>
          ⟨id, request.rpId, request.clientDataHash, uv⟩
      else none
  signs : ∀ caller fault, x.event = .getNextAssertion caller fault →
    x.answer = match named x.before x.event with
      | none => .status .noCredentials
      | some n => .ofResult .assertion (signAssertion D.crypto.toCrypto D.store.credentials fault
          x.before.store n.credentialId n.rpId.val n.clientDataHash n.uv).response

/-! ## What a request does to the pending assertion -/

section
variable {D : Device σ φ} {s : Session σ}

theorem nextAssertion_eq (p : PendingAssertion) (channel : UInt32) :
    nextAssertion p channel = if channel = p.channel then
      (p.credentials[p.index]?).map fun id => ⟨id, p.rpId, p.clientDataHash, p.uv⟩ else none := by
  unfold nextAssertion PendingAssertion.next
  by_cases hch : channel = p.channel
  · rw [if_neg (not_not.mpr hch), if_pos hch, Option.map_map]
    rfl
  · rw [if_pos hch, if_neg hch]
    rfl

/-- A continuation signs for what it names, and moves the list of its own channel only. -/
theorem handleGetNextAssertion_eq (channel : UInt32) (fault : φ) :
    (handleGetNextAssertion D channel fault s).1 =
      (match named s (.getNextAssertion channel fault) with
      | none => .status .noCredentials
      | some n => .ofResult .assertion (signAssertion D.crypto.toCrypto D.store.credentials fault
          s.store n.credentialId n.rpId.val n.clientDataHash n.uv).response) ∧
    (handleGetNextAssertion D channel fault s).2.assertion =
      s.assertion.map fun p => ((p.next channel).map Prod.snd).getD p := by
  unfold handleGetNextAssertion FidoSession.getNextAssertion named nextAssertion
  rcases s.assertion with _ | p
  · exact ⟨rfl, rfl⟩
  · rcases hnx : p.next channel with _ | ⟨id, p'⟩
    · simp [hnx, Answer.ofResult]
    · simp [hnx]

/-- A getAssertion begins an assertion, or fails and leaves the one that is pending. -/
theorem handleGetAssertion_cases (channel : UInt32) (request : GetAssertionRequest)
    (param : Option (BoundedBytes 64)) (up : Bool) (fault : φ) :
    (∃ uv first rest response, assertionUv D s request param = .ok uv ∧
      assertionCandidates D.store.credentials s.store request = .ok (first :: rest) ∧
      (handleGetAssertion D channel request param up fault s).1 = .assertion response ∧
      (∃ c, D.store.credentials.get s.store first = some c ∧ response.credentialId = c.id.val) ∧
      (handleGetAssertion D channel request param up fault s).2.assertion =
        some (.begin channel (first :: rest) request.rpId request.clientDataHash uv)) ∨
    (∃ e, (handleGetAssertion D channel request param up fault s).1 = .status e ∧
      (handleGetAssertion D channel request param up fault s).2.assertion = s.assertion) := by
  unfold handleGetAssertion assertionUv FidoSession.getAssertion
  dsimp only
  rcases (s.clientPin.authorize D.crypto D.store.pin s.store _).1 with e | uv
  · exact .inr ⟨e, rfl, rfl⟩
  dsimp only
  by_cases hup : up = false
  · rw [if_pos hup]
    exact .inr ⟨_, rfl, rfl⟩
  rw [if_neg hup]
  rcases assertionCandidates D.store.credentials s.store request with e | _ | ⟨first, rest⟩
  · exact .inr ⟨e, rfl, rfl⟩
  · exact .inr ⟨_, rfl, rfl⟩
  dsimp only
  obtain ⟨e, hrs, -⟩ | ⟨c, count, response, hg, -, hrs, hid, -⟩ :=
    signAssertion_cases D.crypto.toCrypto D.store.credentials fault s.store first request.rpId.val
      request.clientDataHash uv
  · rw [hrs]
    exact .inr ⟨e, rfl, rfl⟩
  · rw [hrs]
    exact .inl ⟨uv, first, rest, _, rfl, rfl, rfl, ⟨c, hg, hid⟩, rfl⟩

/-! ### The pending assertion in other requests -/

variable (request : CredentialManagementRequest)

theorem getMetadata_assertion :
    (getMetadata D request s).2.assertion = s.assertion := by
  unfold getMetadata
  split
  · rfl
  · split <;> rfl

theorem enumerateRps_assertion :
    (enumerateRps D request s).2.assertion = s.assertion := by
  unfold enumerateRps
  split
  · rfl
  split
  · rfl
  · split <;> rfl

theorem enumerateRpsNext_assertion :
    (enumerateRpsNext s).2.assertion = s.assertion := by
  unfold enumerateRpsNext
  split <;> rfl

theorem enumerateCredentials_assertion :
    (enumerateCredentials D request s).2.assertion = s.assertion := by
  unfold enumerateCredentials
  split
  · rfl
  split
  · rfl
  split
  · rfl
  · split <;> rfl

theorem enumerateCredentialsNext_assertion :
    (enumerateCredentialsNext D s).2.assertion = s.assertion := by
  unfold enumerateCredentialsNext
  split <;> rfl

theorem deleteCredential_assertion :
    (deleteCredential D request s).2.assertion = s.assertion := by
  unfold deleteCredential
  split
  · rfl
  split
  · rfl
  dsimp only
  split
  · rfl
  split
  · rfl
  · split <;> rfl

theorem handleCredentialManagement_assertion :
    (handleCredentialManagement D request s).2.assertion = s.assertion := by
  unfold handleCredentialManagement
  split_ifs
  · exact getMetadata_assertion request
  · exact enumerateRps_assertion request
  · exact enumerateRpsNext_assertion
  · exact enumerateCredentials_assertion request
  · exact enumerateCredentialsNext_assertion
  · exact deleteCredential_assertion request
  · rfl

/-- Every other request leaves the pending assertion. -/
theorem handleCtap2_assertion {request : Request φ} (hg : request.isGetAssertion = false)
    (hnx : request.nextCaller = none) : (handleCtap2 D s request).2.assertion = s.assertion := by
  cases request with
  | refused e => rfl
  | getInfo => rfl
  | makeCredential request up rng =>
    change (handleMakeCredential D request up rng s).2.assertion = s.assertion
    unfold handleMakeCredential
    split <;> rfl
  | getAssertion channel request param up fault => cases hg
  | getNextAssertion channel fault => cases hnx
  | clientPin request rng token =>
    change (handleClientPin D request rng token s).2.assertion = s.assertion
    unfold handleClientPin
    split_ifs
    · rfl
    · rfl
    · rfl
    · rfl
    · rfl
    · rfl
  | reset up =>
    change (handleReset D up s).2.assertion = s.assertion
    unfold handleReset
    split
    · rfl
    · split <;> rfl
  | credentialManagement request => exact handleCredentialManagement_assertion request

end

/-! ## Whole sessions -/

section
variable {D : Device σ φ} {s : Session σ} {past : List (Log σ φ)}

/-- The pending assertion is the last that began, as far as its channel has called. -/
def Follows (D : Device σ φ) (s : Session σ) (past : List (Log σ φ)) : Prop :=
  ∀ {channel request uv ids}, Continuing D channel request uv ids past →
    s.assertion = some ⟨channel, ids, min (calls channel past + 1) ids.length, request.rpId,
      request.clientDataHash, uv⟩

/-- The list stands at the candidate of the call. -/
theorem getElem?_min {α : Type} (l : List α) (n : Nat) : l[min n l.length]? = l[n]? := by
  by_cases hn : n < l.length
  · rw [Nat.min_eq_left (Nat.le_of_lt hn)]
  · rw [Nat.min_eq_right (Nat.le_of_not_lt hn), List.getElem?_eq_none (Nat.le_refl _),
      List.getElem?_eq_none (Nat.le_of_not_lt hn)]

theorem Follows.named (h : Follows D s past) {channel : UInt32} {request : GetAssertionRequest}
    {uv : Bool} {ids : List (List UInt8)} (hcn : Continuing D channel request uv ids past)
    (caller : UInt32) (fault : φ) :
    named s (.getNextAssertion caller fault) = if caller = channel then
        (ids[calls channel past + 1]?).map fun id =>
          ⟨id, request.rpId, request.clientDataHash, uv⟩
      else none := by
  change s.assertion.bind (fun p => nextAssertion p caller) = _
  rw [h hcn, Option.bind_some, nextAssertion_eq, getElem?_min]

/-- A next assertion of the channel moves the index, unless the list is used up. -/
theorem next_index {p : PendingAssertion} {n : Nat}
    (hin : p.index = min (n + 1) p.credentials.length) :
    ((p.next p.channel).map Prod.snd).getD p =
      { p with index := min (n + 1 + 1) p.credentials.length } := by
  unfold PendingAssertion.next
  rw [if_neg (not_not.mpr rfl)]
  by_cases hlt : n + 1 < p.credentials.length
  · have hat : p.index < p.credentials.length := by omega
    rw [List.getElem?_eq_getElem hat]
    change { p with index := p.index + 1 } = _
    congr 1
    omega
  · rw [hin, getElem?_min, List.getElem?_eq_none (Nat.le_of_not_lt hlt)]
    change p = _
    have hsm : min (n + 1 + 1) p.credentials.length = p.index := by omega
    rw [hsm]

theorem Begun.pending {request : Request φ} {channel : UInt32} {r : GetAssertionRequest} {uv : Bool}
    {ids : List (List UInt8)} (h : Begun D channel r uv ids (entry (handleCtap2 D) s request)) :
    (handleCtap2 D s request).2.assertion =
      some ⟨channel, ids, min 1 ids.length, r.rpId, r.clientDataHash, uv⟩ := by
  obtain ⟨param, up, fault, hev, huv⟩ := h.asked
  have hi := h.candidates
  cases hev
  obtain ⟨uv', first, rest, response, huv', hi', -, -, haf⟩ | ⟨e, hn, -⟩ :=
    handleGetAssertion_cases (s := s) channel r param up fault
  · cases huv.symm.trans huv'
    cases hi.symm.trans hi'
    refine haf.trans ?_
    unfold PendingAssertion.begin
    rw [List.length_cons, Nat.min_eq_left (by omega)]
  · have ha := h.begins.2
    change (handleGetAssertion D channel r param up fault s).1.isAssertion = true at ha
    rw [hn] at ha
    cases ha

theorem Follows.step (h : Follows D s past) (request : Request φ) :
    Follows D (handleCtap2 D s request).2 (entry (handleCtap2 D) s request :: past) := by
  intro channel r uv ids hcn
  rcases hcn with hbg | ⟨hn, hps⟩
  · have hcl : calls channel (entry (handleCtap2 D) s request :: past) = 0 :=
      countSince_stop hbg.begins
    rw [hcl]
    exact hbg.pending
  have hp := h hps
  have hoh : (entry (handleCtap2 D) s request).event.nextCaller ≠ some channel →
      (handleCtap2 D s request).2.assertion = s.assertion →
      (handleCtap2 D s request).2.assertion = some ⟨channel, ids,
        min (calls channel (entry (handleCtap2 D) s request :: past) + 1) ids.length, r.rpId,
        r.clientDataHash, uv⟩ := by
    intro hc hsm
    have hcl : calls channel (entry (handleCtap2 D) s request :: past) = calls channel past :=
      countSince_other hn hc
    rw [hsm, hp, hcl]
  cases request with
  | getAssertion caller r' param up fault =>
    refine hoh nofun ?_
    obtain ⟨_, _, _, response, -, -, ha, -, -⟩ | ⟨-, -, hsm⟩ :=
      handleGetAssertion_cases caller r' param up fault
    · refine absurd ⟨rfl, ?_⟩ hn
      change (handleGetAssertion D caller r' param up fault s).1.isAssertion = true
      rw [ha]
      rfl
    · exact hsm
  | getNextAssertion caller fault =>
    have haf := (handleGetNextAssertion_eq (D := D) (s := s) caller fault).2
    by_cases hc : caller = channel
    · subst hc
      have hcl : calls caller (entry (handleCtap2 D) s (.getNextAssertion caller fault) ::
          past) = calls caller past + 1 := countSince_more hn rfl
      rw [hcl]
      refine haf.trans ?_
      rw [hp]
      exact congrArg some (next_index rfl)
    · refine hoh (fun heq => hc (Option.some.inj heq)) (haf.trans ?_)
      rw [hp, Option.map_some]
      unfold PendingAssertion.next
      rw [if_pos hc]
      rfl
  | refused e | getInfo | makeCredential | clientPin =>
    exact hoh nofun (handleCtap2_assertion rfl rfl)
  | reset | credentialManagement => exact hoh nofun (handleCtap2_assertion rfl rfl)

theorem Follows.continues (hS : D.store.credentials.Lawful) (h : Follows D s past)
    (request : Request φ) : Continues D (entry (handleCtap2 D) s request) past where
  candidates hbg hu := candidates_exact hS hu hbg.candidates
  first := by
    intro channel r uv ids hbg
    obtain ⟨param, up, fault, hev, -⟩ := hbg.asked
    have hi := hbg.candidates
    have hs := hbg.begins.2
    cases hev
    obtain ⟨uv', first, rest, response, -, hi', ha, ⟨c, hg, hid⟩, -⟩ | ⟨e, ha, -⟩ :=
      handleGetAssertion_cases (D := D) (s := s) channel r param up fault
    · cases hi.symm.trans hi'
      refine ⟨response, ha, ?_⟩
      rw [hid, hS.id_of_get hg]
      rfl
    · change (handleGetAssertion D channel r param up fault s).1.isAssertion = true at hs
      rw [ha] at hs
      cases hs
  next := by
    intro channel r uv ids hcn caller fault hev
    cases hev
    exact h.named hcn caller fault
  signs := by
    intro caller fault hev
    cases hev
    exact (handleGetNextAssertion_eq caller fault).1

end

/-- Over every session, from any state and with every interleaving of requests and channels: a
  getAssertion that succeeds finds exactly the stored credentials that it asks for, each once and
  in order, and signs for the first; after it, the `k`-th getNextAssertion of its channel names
  candidate `k` with the context of the request, and nothing once the list is used up, and those of
  other channels name nothing. The credentials have different ids, as in every database that the
  operations of the sealed store lead to. -/
theorem continuation_serves_each_match :
    (∀ {σ φ : Type} (D : Device σ φ), D.store.credentials.Lawful → ∀ (s : Session σ)
      (requests : List (Request φ)),
      Along (Continues D) (history (handleCtap2 D) s requests)) ∧
    (∀ (store : SealedCredentialStore) (f : FlashProg.Flash)
      (ops : List SealedCredentialStore.CredentialOp) (request : GetAssertionRequest)
      (ids : List (List UInt8)),
      let db := Runs.run (fun db op => (store.run db op).1) Database.initial ops
      assertionCandidates (sealedStore store) (f, db) request = .ok ids →
      Candidates (sealedStore store) (f, db) request ids) := by
  constructor
  · intro σ φ D hS s requests
    exact along_history_of_all (I := Follows D) (fun hcont => absurd hcont id)
      (fun _ _ request h => ⟨h.continues hS request, h.step request⟩) requests
  · intro store f ops request ids db hids
    exact candidates_exact (sealedStore_lawful store) (store.idsUnique_of_ops f ops) hids

/-! ### Three credentials -/

theorem memoryFido_lawful : memoryFido.credentials.Lawful where
  get_eq _ _ := rfl
  next_list fault s id := memoryStore_lawful.next_list fault s.credentials id

/-- A device that signs with an empty signature. -/
def continuationDevice : Device MemoryState Unit :=
  { enumerationDevice with
    crypto := { enumerationCrypto with es256 := fun _ _ => some [] } }

def numberedCredential (n : UInt8) : Credential :=
  { exampleCredential with id := ⟨List.replicate 32 n, by simp⟩, discoverable := true }

def continuationStore : MemoryState where
  credentials := ⟨[numberedCredential 1, numberedCredential 2, numberedCredential 3], by decide⟩
  pinHash := none
  pinRetries := 8

/-- An assertion on channel 1, and continuations on two channels. -/
def continuationRequests : List (Request Unit) :=
  [.getAssertion 1 ⟨exampleCredential.rpId, exampleClientDataHash, [], false⟩ none true (),
    .getNextAssertion 2 (), .getNextAssertion 1 (), .getNextAssertion 2 (), .getNextAssertion 1 (),
    .getNextAssertion 1 ()]

theorem continuation_serves_each_match_three :
    (history (handleCtap2 continuationDevice) (Session.new continuationStore)
      continuationRequests).reverse.map (fun x => named x.before x.event) =
      [none, none,
        some ⟨List.replicate 32 2, exampleCredential.rpId, exampleClientDataHash, false⟩, none,
        some ⟨List.replicate 32 3, exampleCredential.rpId, exampleClientDataHash, false⟩, none] ∧
    Along (Continues continuationDevice) (history (handleCtap2 continuationDevice)
      (Session.new continuationStore) continuationRequests) :=
  ⟨by decide +kernel, continuation_serves_each_match.1 continuationDevice memoryFido_lawful _ _⟩

end AegisToken.Ctap2
