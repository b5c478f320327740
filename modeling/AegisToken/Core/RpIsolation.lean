import AegisToken.Lib.Vectors
import AegisToken.Core.U2f

/-
  Which relying party a signature is for, over whole sessions.
  The CTAP2 requests keep the binding on their own: a candidate is a credential of the request's
  relying party, and neither signing nor waiting changes which relying party a stored credential
  belongs to. `authenticate` of U2F does not compare the application parameter with the
  credential, so it signs for any application: `u2f_signs_for_other_application`.
  `signed_rpField`: in a session whose U2F sign requests name the application their credential
  belongs to, every signature covers the hash of its credential's relying party.
-/

namespace AegisToken
open ByteCodec

/-! ## Stores -/

/-- A credential without its counter. -/
def Credential.identity (c : Credential) : Credential := { c with signCount := 0 }

namespace CredentialStore

variable {σ φ : Type} {S : CredentialStore σ φ} {s : σ}

/-- What the trait's documentation says: a credential is fetched by its id, and counting changes
  counters only. -/
structure Lawful (S : CredentialStore σ φ) : Prop where
  get_eq : ∀ s id, S.get s id = (S.list s).find? fun c => c.id.val = id
  next_list : ∀ fault s id, (S.list (S.nextSignCount fault s id).2).map Credential.identity =
    (S.list s).map Credential.identity

def IdsUnique (S : CredentialStore σ φ) (s : σ) : Prop :=
  ((S.list s).map fun c => c.id.val).Nodup

/-- Two states with the same credentials up to their counters. -/
def SameCredentials (S : CredentialStore σ φ) (s s' : σ) : Prop :=
  (S.list s').map Credential.identity = (S.list s).map Credential.identity

theorem Lawful.get_identity (hS : S.Lawful) {s s' : σ} (h : S.SameCredentials s s')
    (id : List UInt8) :
    (S.get s' id).map Credential.identity = (S.get s id).map Credential.identity := by
  have hfn : ∀ l : List Credential, (l.find? fun c => c.id.val = id).map Credential.identity =
      (l.map Credential.identity).find? fun c => c.id.val = id := by
    intro l
    rw [List.find?_map]
    rfl
  rw [hS.get_eq, hS.get_eq, hfn, hfn, h]

theorem IdsUnique.of_same {s s' : σ} (hu : S.IdsUnique s) (h : S.SameCredentials s s') :
    S.IdsUnique s' := by
  have hi : ∀ l : List Credential, l.map (fun c => c.id.val) =
      (l.map Credential.identity).map fun c => c.id.val := by
    intro l
    rw [List.map_map]
    rfl
  unfold IdsUnique at hu ⊢
  rw [hi] at hu ⊢
  rwa [h]

theorem Lawful.id_of_get (hS : S.Lawful) {id : List UInt8} {c : Credential}
    (h : S.get s id = some c) : c.id.val = id := by
  rw [hS.get_eq] at h
  simpa using List.find?_some h

theorem Lawful.get_of_mem (hS : S.Lawful) (hu : S.IdsUnique s) {c : Credential}
    (hc : c ∈ S.list s) : S.get s c.id.val = some c := by
  rw [hS.get_eq]
  rcases hf : (S.list s).find? (fun x => x.id.val = c.id.val) with _ | x
  · have := List.find?_eq_none.mp hf c hc
    simp at this
  · have hid : x.id.val = c.id.val := by simpa using List.find?_some hf
    rw [hf, List.inj_on_of_nodup_map hu (List.mem_of_find?_eq_some hf) hc hid]

end CredentialStore

theorem Cache.map_identity_modify (cache : Cache) (index : Nat) (count : UInt32) :
    (cache.modify index fun c => { c with signCount := count }).val.map Credential.identity =
      cache.val.map Credential.identity := by
  refine List.ext_getElem (by simp [Cache.modify]) fun i h1 h2 => ?_
  simp only [Cache.modify, List.getElem_map, List.getElem_modify]
  split <;> rfl

theorem Cache.map_identity_raise {cache cache' : Cache} {id : List UInt8} {count : UInt32}
    (h : cache.raise id = some (count, cache')) :
    cache'.val.map Credential.identity = cache.val.map Credential.identity := by
  unfold Cache.raise at h
  split at h
  · obtain ⟨-, rfl⟩ := Prod.mk.inj (Option.some.inj h)
    exact cache.map_identity_modify _ _
  · cases h

theorem memoryStore_lawful : memoryStore.Lawful where
  get_eq _ _ := rfl
  next_list _ cache id := by
    rcases h : cache.raise id with _ | ⟨count, cache'⟩
    · simp only [memoryStore, h]
    · simp only [memoryStore, h]
      exact Cache.map_identity_raise h

theorem sealedStore_lawful (s : SealedCredentialStore) : (sealedStore s).Lawful where
  get_eq _ _ := rfl
  next_list fault x id := by
    have hch : ((s.nextSignCount x.2 id).1.cache.val).map Credential.identity =
        x.2.cache.val.map Credential.identity := by
      rcases h : x.2.cache.raise id with _ | ⟨count, cache'⟩
      · simp only [SealedCredentialStore.nextSignCount, h]
      · simp only [SealedCredentialStore.nextSignCount, h, SealedCredentialStore.flush]
        exact Cache.map_identity_raise h
    rcases fault with _ | n <;> exact hch

/-! ## Unique ids -/

namespace Cache

def ids (cache : Cache) : List (List UInt8) := cache.val.map fun c => c.id.val

theorem ids_modify (cache : Cache) (index : Nat) {change : Credential → Credential}
    (h : ∀ c, cache.val[index]? = some c → (change c).id.val = c.id.val) :
    (cache.modify index change).ids = cache.ids := by
  unfold ids modify
  refine List.ext_getElem (by simp) fun i h1 h2 => ?_
  simp only [List.getElem_map, List.getElem_modify]
  split
  · next heq =>
    subst heq
    exact h _ (List.getElem?_eq_getElem _)
  · rfl

theorem ids_swapRemove (cache : Cache) (index : Nat) :
    (cache.swapRemove index).ids = Vectors.swapRemove cache.ids index := by
  have hv : (cache.swapRemove index).val = Vectors.swapRemove cache.val index := by
    unfold swapRemove Vectors.swapRemove
    cases cache.val.getLast? with
    | none => rfl
    | some last => rfl
  rw [ids, hv, Vectors.map_swapRemove]
  rfl

variable {cache : Cache}

theorem position_eq_none {id : List UInt8} :
    cache.position id = none ↔ id ∉ cache.ids := by
  unfold position ids
  simp

theorem ids_of_position {id : List UInt8} {index : Nat} (h : cache.position id = some index) :
    cache.ids[index]? = some id := by
  obtain ⟨hlt, hat, -⟩ := List.findIdx?_eq_some_iff_getElem.mp h
  rw [ids, List.getElem?_map, List.getElem?_eq_getElem hlt, Option.map_some, of_decide_eq_true hat]

theorem nodup_ids_push {cache cache' : Cache} (h : cache.ids.Nodup) {c : Credential}
    (hn : cache.position c.id.val = none) (hps : cache.push c = some cache') :
    cache'.ids.Nodup := by
  unfold Cache.push at hps
  split at hps
  · obtain rfl := Option.some.inj hps
    have hfr : c.id.val ∉ cache.ids := position_eq_none.mp hn
    show (List.map _ (cache.val ++ [c])).Nodup
    rw [List.map_append]
    exact List.Nodup.append h (List.nodup_singleton _) (by simpa [ids] using hfr)
  · cases hps

theorem nodup_ids_swapRemove (h : cache.ids.Nodup) (index : Nat) :
    (cache.swapRemove index).ids.Nodup := by
  rw [ids_swapRemove]
  exact Vectors.nodup_swapRemove h index

end Cache

namespace SealedCredentialStore

/-- No operation makes two credentials with one id. -/
theorem nodup_ids_run (s : SealedCredentialStore) {db : Database} (h : db.cache.ids.Nodup)
    (op : CredentialOp) : (s.run db op).1.cache.ids.Nodup := by
  cases op with
  | setPin hash | clearPin | setPinRetries retries => exact h
  | reset | clear => exact List.nodup_nil
  | insert c =>
    simp only [run, insert]
    rcases hp : db.cache.position c.id.val with _ | index
    · rcases hps : db.cache.push c with _ | cache
      · exact h
      · exact Cache.nodup_ids_push h hp hps
    have hid : ∀ x, db.cache.val[index]? = some x → c.id.val = x.id.val := by
      intro x hx
      have hg := Cache.ids_of_position hp
      rw [Cache.ids, List.getElem?_map, hx] at hg
      exact (Option.some.inj hg).symm
    show (db.cache.modify index _).ids.Nodup
    rw [Cache.ids_modify _ _ hid]
    exact h
  | nextSignCount id =>
    have hu : (sealedStore s).IdsUnique (FlashProg.blank, db) := h
    have hsm : (sealedStore s).SameCredentials (FlashProg.blank, db)
        ((sealedStore s).nextSignCount none (FlashProg.blank, db) id).2 :=
      (sealedStore_lawful s).next_list none (FlashProg.blank, db) id
    exact hu.of_same hsm
  | remove id =>
    simp only [run, remove]
    rcases db.cache.position id with _ | index
    · exact h
    · exact Cache.nodup_ids_swapRemove h index

/-- Every database the operations lead to gives its credentials different ids. -/
theorem idsUnique_of_ops (s : SealedCredentialStore) (f : FlashProg.Flash)
    (ops : List CredentialOp) :
    (sealedStore s).IdsUnique (f, Runs.run (fun db op => (s.run db op).1) Database.initial ops) := by
  have ho := Runs.keep (I := fun db : Database => db.cache.ids.Nodup)
    (fun db op h => s.nodup_ids_run h op) (s := Database.initial) List.nodup_nil ops
  exact ho

end SealedCredentialStore

/-! ## Candidates -/

section Requests
variable {σ φ : Type} {K : Crypto} {S : CredentialStore σ φ} {s : σ} {ids : List (List UInt8)}

/-- The ids of a list fetch credentials of one relying party only. -/
def Belong (S : CredentialStore σ φ) (s : σ) (rpId : FixedString 64) (ids : List (List UInt8)) :
    Prop :=
  ∀ id ∈ ids, ∀ c, S.get s id = some c → c.rpId = rpId

theorem Belong.nil (s : σ) (rpId : FixedString 64) : Belong S s rpId [] := by
  intro id hid
  cases hid

theorem Belong.push {rpId : FixedString 64} {ids ids' : List (List UInt8)} {c : Credential}
    (h : Belong S s rpId ids) (hg : S.get s c.id.val = some c) (hrp : c.rpId = rpId)
    (hps : pushCandidate ids c.id.val = .ok ids') :
    Belong S s rpId ids' := by
  unfold pushCandidate at hps
  split at hps
  · cases hps
    intro id hid x hx
    rcases List.mem_append.mp hid with hid | hid
    · exact h id hid x hx
    · obtain rfl := List.mem_singleton.mp hid
      obtain rfl := Option.some.inj (hg.symm.trans hx)
      exact hrp
  · cases hps

/-- Signing does not move a credential to another relying party. -/
theorem Belong.of_same (hS : S.Lawful) {s s' : σ} {rpId : FixedString 64} (h : Belong S s rpId ids)
    (hsm : S.SameCredentials s s') :
    Belong S s' rpId ids := by
  intro id hid c hc
  have hm := hS.get_identity hsm id
  rw [hc] at hm
  rcases hg : S.get s id with _ | c₀
  · simp [hg] at hm
  · rw [hg] at hm
    have hid₀ : c.identity = c₀.identity := Option.some.inj hm
    exact (congrArg Credential.rpId hid₀).trans (h id hid c₀ hg)

/-- The candidates of a request are credentials of its relying party. -/
theorem assertionCandidates_belong (hS : S.Lawful) (hu : S.IdsUnique s)
    {request : GetAssertionRequest} (h : assertionCandidates S s request = .ok ids) :
    Belong S s request.rpId ids := by
  unfold assertionCandidates at h
  split at h
  · refine Runs.foldlM_keep ?_ (Belong.nil s request.rpId) h
    intro c hc ids ids' hi hst
    split at hst
    · cases hst
      exact hi
    split at hst
    · cases hst
      exact hi
    · next hrp => exact hi.push (hS.get_of_mem hu hc) (not_ne_iff.mp hrp) hst
  · refine Runs.foldlM_keep ?_ (Belong.nil s request.rpId) h
    intro descriptor _ ids ids' hi hst
    rcases hg : S.get s descriptor with _ | c
    · rw [hg] at hst
      cases hst
      exact hi
    simp only [hg] at hst
    split at hst
    · cases hst
      exact hi
    next hrp =>
    split at hst
    · cases hst
      exact hi
    · have hid := hS.id_of_get hg
      rw [← hid] at hg
      exact hi.push hg (not_ne_iff.mp hrp) hst

/-! ## One signature -/

theorem signAssertion_same (hS : S.Lawful) (fault : φ) (s : σ) (id rpId : List UInt8)
    (hash : FixedBytes 32) (uv : Bool) :
    S.SameCredentials s (signAssertion K S fault s id rpId hash uv).store := by
  rw [signAssertion_store]
  cases S.get s id with
  | none => rfl
  | some c => exact hS.next_list fault s c.id.val

/-- An assertion is made with the credential that was found, and covers the hash of the relying
  party it is made for. -/
theorem signAssertion_rpField {fault : φ} {id rpId : List UInt8} {hash : FixedBytes 32} {uv : Bool}
    {x : Signed} (hx : (signAssertion K S fault s id rpId hash uv).signed = some x) :
    S.get s id = some x.credential ∧ x.rpField = (K.sha256 rpId).val := by
  obtain ⟨e, -, hno⟩ | ⟨c, count, response, hg, -, -, -, hah, hs⟩ :=
    signAssertion_cases K S fault s id rpId hash uv
  · rw [hno] at hx
    cases hx
  obtain rfl := Option.some.inj (hs.symm.trans hx)
  refine ⟨hg, ?_⟩
  unfold Signed.rpField
  rw [hah]
  simp [(K.sha256 rpId).property]

/-- A U2F signature covers the application parameter it was asked for. -/
theorem u2fSign_rpField {fault : φ} {c : Credential} {request : AuthenticateData} {x : Signed}
    (hx : (u2fSign K S fault s c request).signed = some x) (hl : request.application.length = 32) :
    x.credential = c ∧ x.rpField = request.application := by
  obtain ⟨counter, signature, -, rfl, -⟩ := u2fSign_signed hx
  refine ⟨rfl, ?_⟩
  simp [Signed.rpField, u2fMessage, ← hl]

end Requests

/-! ## Sessions -/

namespace FidoSession

variable {σ φ : Type} {K : Crypto} {S : CredentialStore σ φ}

/-- A U2F sign request that the user confirms carries the application its credential belongs to. -/
def ApplicationMatches (K : Crypto) (S : CredentialStore σ φ) (s : FidoSession σ) :
    SignRequest φ → Prop
  | .u2f message up _ => up = true → ∀ target ∈ u2fTarget S message s.store,
      target.1.application = (K.sha256 target.2.rpId.val).val
  | _ => True

instance (K : Crypto) (S : CredentialStore σ φ) (s : FidoSession σ) :
    (r : SignRequest φ) → Decidable (ApplicationMatches K S s r)
  | .u2f message up _ =>
    inferInstanceAs (Decidable (up = true → ∀ target ∈ u2fTarget S message s.store, _))
  | .getAssertion .. => inferInstanceAs (Decidable True)
  | .getNextAssertion .. => inferInstanceAs (Decidable True)

/-- The credential's relying party is the one the signature is for. -/
def ForOwnRp (K : Crypto) (x : Signed) : Prop :=
  x.rpField = (K.sha256 x.credential.rpId.val).val

/-- What every request keeps. -/
structure Isolated (K : Crypto) (S : CredentialStore σ φ) (s : FidoSession σ) : Prop where
  unique : S.IdsUnique s.store
  pending : ∀ p ∈ s.assertion, Belong S s.store p.rpId p.credentials
  signed : ∀ x ∈ s.signed, ForOwnRp K x

variable {s : FidoSession σ}

/-- A store that only counted keeps the invariant, if the signature made is for its own relying
  party. -/
theorem Isolated.signing (hS : S.Lawful) (h : Isolated K S s) {store : σ}
    (hsm : S.SameCredentials s.store store) {made : Option Signed}
    (hmd : ∀ x ∈ made, ForOwnRp K x) :
    Isolated K S ⟨store, s.assertion, s.signed ++ made.toList⟩ where
  unique := h.unique.of_same hsm
  pending p hp := (h.pending p hp).of_same hS hsm
  signed x hx := by
    rcases List.mem_append.mp hx with hx | hx
    · exact h.signed x hx
    · exact hmd x (Option.mem_toList.mp hx)

theorem Isolated.pend (h : Isolated K S s) {p : PendingAssertion}
    (hp : Belong S s.store p.rpId p.credentials) :
    Isolated K S { s with assertion := some p } where
  unique := h.unique
  pending := by
    intro q hq
    obtain rfl := Option.mem_some_iff.mp hq
    exact hp
  signed := h.signed

theorem Isolated.signAssertion (hS : S.Lawful) (h : Isolated K S s) {rpId : FixedString 64}
    {ids : List (List UInt8)} (hi : Belong S s.store rpId ids) {id : List UInt8} (hid : id ∈ ids)
    (fault : φ) (hash : FixedBytes 32) (uv : Bool) :
    Isolated K S ⟨(signAssertion K S fault s.store id rpId.val hash uv).store, s.assertion,
        s.signed ++ (signAssertion K S fault s.store id rpId.val hash uv).signed.toList⟩ := by
  refine h.signing hS (signAssertion_same hS ..) ?_
  intro x hx
  obtain ⟨hg, hrp⟩ := signAssertion_rpField hx
  unfold ForOwnRp
  rw [hrp, hi id hid x.credential hg]

theorem Isolated.getAssertion (hS : S.Lawful) (h : Isolated K S s) (fault : φ) (channel : UInt32)
    (request : GetAssertionRequest) (authorized : Except Ctap2Status Bool) (up : Bool) :
    Isolated K S (getAssertion K S fault s channel request authorized up).2 := by
  unfold FidoSession.getAssertion
  rcases authorized with e | uv
  · exact h
  simp only
  by_cases hup : up = false
  · rw [if_pos hup]
    exact h
  rw [if_neg hup]
  rcases hc : assertionCandidates S s.store request with e | _ | ⟨first, rest⟩
  · exact h
  · exact h
  have hi := assertionCandidates_belong hS h.unique hc
  have hs := h.signAssertion hS hi List.mem_cons_self fault request.clientDataHash uv
  simp only
  split
  · exact hs
  · exact hs.pend (hi.of_same hS (signAssertion_same hS ..))

theorem Isolated.getNextAssertion (hS : S.Lawful) (h : Isolated K S s) (fault : φ)
    (channel : UInt32) : Isolated K S (getNextAssertion K S fault s channel).2 := by
  unfold FidoSession.getNextAssertion
  rcases ha : s.assertion with _ | pending
  · exact h
  have hi := h.pending pending ha
  rcases hnx : pending.next channel with _ | ⟨id, pending'⟩
  · simpa [hnx] using h
  -- the pending assertion keeps its relying party and its list
  have hp : pending'.rpId = pending.rpId ∧ pending'.credentials = pending.credentials ∧
      id ∈ pending.credentials := by
    unfold PendingAssertion.next at hnx
    split at hnx
    · cases hnx
    · obtain ⟨x, hx, hxe⟩ := Option.map_eq_some_iff.mp hnx
      cases hxe
      exact ⟨rfl, rfl, List.mem_of_getElem? hx⟩
  obtain ⟨hrp, hcr, hid⟩ := hp
  rw [← hrp, ← hcr] at hi
  rw [← hcr] at hid
  simp only [hnx]
  exact (h.signAssertion hS hi hid fault _ _).pend (hi.of_same hS (signAssertion_same hS ..))

theorem Isolated.u2f (hS : S.Lawful) (h : Isolated K S s) (fault : φ) (message : List UInt8)
    (up : Bool) (hm : ApplicationMatches K S s (.u2f message up fault)) :
    Isolated K S (u2f K S fault s message up).2 := by
  unfold FidoSession.u2f
  simp only
  obtain ⟨rfl, request, c, ht, hg, hl, heq⟩ | ⟨hst, hno⟩ :=
    u2fHandle_cases fault message s.store up
  · rw [heq]
    refine h.signing hS ?_ ?_
    · rw [u2fSign_store]
      exact hS.next_list ..
    intro x hx
    obtain ⟨hxc, hrp⟩ := u2fSign_rpField hx hl
    unfold ForOwnRp
    rw [hrp, hxc, hm rfl _ ht]
  · rw [hst, hno]
    exact h.signing hS rfl (by simp)

theorem Isolated.step (hS : S.Lawful) (h : Isolated K S s) (r : SignRequest φ)
    (hr : ApplicationMatches K S s r) :
    Isolated K S (step K S s r) := by
  cases r with
  | getAssertion channel request authorized up fault => exact h.getAssertion hS ..
  | getNextAssertion channel fault => exact h.getNextAssertion hS ..
  | u2f message up fault => exact h.u2f hS fault message up hr

/-- In every session whose U2F sign requests carry the application their credential belongs to,
  each signature covers the hash of its credential's relying party. -/
theorem signed_rpField (K : Crypto) (S : CredentialStore σ φ) (hS : S.Lawful) (store : σ)
    (hu : S.IdsUnique store) (rs : List (SignRequest φ))
    (hrs : Runs.Every (FidoSession.step K S) (ApplicationMatches K S) (start store) rs) :
    ∀ x ∈ (Runs.run (FidoSession.step K S) (start store) rs).signed,
      x.rpField = (K.sha256 x.credential.rpId.val).val := by
  have hstart : Isolated K S (start store) := by
    refine ⟨hu, ?_, ?_⟩
    · intro p hp
      cases hp
    · intro x hx
      cases hx
  exact (Runs.Every.keep (fun s r h hr => h.step hS r hr) hstart hrs).signed

def exampleAssertion : SignRequest Unit :=
  .getAssertion 1 ⟨exampleCredential.rpId, exampleClientDataHash, [exampleCredential.id.val], false⟩
    (.ok false) true ()

/-- A U2F sign request for the credential with an application parameter. -/
def exampleU2f (application : List UInt8) : SignRequest Unit :=
  .u2f (exampleMessage application) true ()

theorem signed_rpField_exampleRequests :
    (Runs.run (FidoSession.step exampleCrypto memoryStore) (start oneCredential)
      [exampleAssertion, exampleU2f exampleRpHash.val]).signed.length = 2 ∧
    ∀ x ∈ (Runs.run (FidoSession.step exampleCrypto memoryStore) (start oneCredential)
      [exampleAssertion, exampleU2f exampleRpHash.val]).signed,
      x.rpField = (exampleCrypto.sha256 x.credential.rpId.val).val :=
  ⟨by decide +kernel, signed_rpField exampleCrypto memoryStore memoryStore_lawful oneCredential
    (List.nodup_singleton _) _ (by decide +kernel)⟩

/-- A U2F sign request whose application is not the credential's relying party is signed. -/
theorem u2f_signs_for_other_application :
    ∃ x ∈ (Runs.run (FidoSession.step exampleCrypto memoryStore) (start oneCredential)
      [exampleU2f (List.replicate 32 0)]).signed,
      x.credential = exampleCredential ∧ x.rpField = List.replicate 32 0 ∧
      x.rpField ≠ (exampleCrypto.sha256 x.credential.rpId.val).val := by
  decide +kernel

end FidoSession

end AegisToken
