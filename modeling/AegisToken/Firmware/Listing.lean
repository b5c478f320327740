/-
  What the credential-management enumeration lists (aegis-core authenticator.rs `list_rps`,
  `list_credentials`, `creds_metadata`).
  The lists have room for as many entries as the store has credentials, so nothing is dropped:
  `list_rps` is the relying parties of the resident credentials, each once, and `list_credentials`
  is the resident credentials under a hash. Where no two stored relying parties have one hash, the
  credentials of all listed relying parties are the resident credentials, each once
  (`enumeration_complete`). `creds_metadata` counts all credentials, so it agrees with the
  enumeration exactly if all of them are resident (`metadata_agrees_iff`).
-/
import AegisToken.Firmware.InsertionOrder

namespace AegisToken.Ctap2
open ByteCodec

/-! ## Groups -/

/-- A list is the concatenation of its groups, up to order. -/
theorem perm_groups {α κ : Type} [DecidableEq κ] (key : α → κ) {keys : List κ}
    (hks : keys.Nodup) {l : List α} (hl : ∀ a ∈ l, key a ∈ keys) :
    (keys.flatMap fun k => l.filter fun a => key a = k).Perm l := by
  induction keys generalizing l with
  | nil =>
    have hn : l = [] := List.eq_nil_iff_forall_not_mem.mpr fun a ha => by cases hl a ha
    rw [hn]
    exact List.Perm.refl _
  | cons k keys ih =>
    obtain ⟨hk, hks⟩ := List.nodup_cons.mp hks
    have hrs : (keys.flatMap fun k' => l.filter fun a => key a = k') = keys.flatMap fun k' =>
          (l.filter fun a => !decide (key a = k)).filter fun a => key a = k' := by
      apply List.flatMap_congr
      intro k' hk'
      rw [List.filter_filter]
      apply List.filter_congr
      intro a _
      by_cases ha : key a = k'
      · have hne : k' ≠ k := fun heq => hk (heq ▸ hk')
        simp [ha, hne]
      · simp [ha]
    have ho : ∀ a ∈ l.filter fun a => !decide (key a = k), key a ∈ keys := by
      intro a ha
      obtain ⟨hm, hne⟩ := List.mem_filter.mp ha
      rcases List.mem_cons.mp (hl a hm) with heq | hin
      · exact absurd heq (by simpa using hne)
      · exact hin
    rw [List.flatMap_cons, hrs]
    refine (List.Perm.append_left _ (ih hks ho)).trans ?_
    exact List.filter_append_perm (fun a => key a = k) l

/-! ## The two lists -/

section Lists
variable {σ φ : Type} (D : Device σ φ) (store : σ)

/-- The resident credentials: those that are discoverable. -/
def resident : List Credential := (D.store.credentials.list store).filter (·.discoverable)

def entryOf (rpId : FixedString 64) : RpEntry := ⟨rpId, rpIdHash D.crypto rpId.val⟩

variable {D store}

/-- The entries of the relying parties of a list's resident credentials, each once. -/
structure RpsOf (D : Device σ φ) (credentials : List Credential) (rps : List RpEntry) : Prop where
  nodup : (rps.map (·.rpId)).Nodup
  mem_iff : ∀ rpId, rpId ∈ rps.map (·.rpId) ↔
    ∃ c ∈ credentials, c.discoverable = true ∧ c.rpId = rpId
  entry : ∀ e ∈ rps, e = entryOf D e.rpId
  length : rps.length ≤ credentials.length

section Rps
variable {l : List Credential} {rps : List RpEntry} {c : Credential}

/-- A credential that is not resident, or whose relying party has its entry, adds nothing. -/
theorem RpsOf.skip (h : RpsOf D l rps) (hsn : c.discoverable = true → c.rpId ∈ rps.map (·.rpId)) :
    RpsOf D (l ++ [c]) rps := by
  refine ⟨h.nodup, fun rpId => ?_, h.entry, Nat.le_trans h.length (by simp)⟩
  constructor
  · intro hm
    obtain ⟨d, hd, hrs⟩ := (h.mem_iff rpId).mp hm
    exact ⟨d, List.mem_append_left _ hd, hrs⟩
  rintro ⟨d, hd, hfl, rfl⟩
  rcases List.mem_append.mp hd with hd | hd
  · exact (h.mem_iff _).mpr ⟨d, hd, hfl, rfl⟩
  · obtain rfl := List.mem_singleton.mp hd
    exact hsn hfl

/-- A resident credential of a new relying party adds its entry. -/
theorem RpsOf.push (h : RpsOf D l rps) (hfl : c.discoverable = true)
    (hn : c.rpId ∉ rps.map (·.rpId)) : RpsOf D (l ++ [c]) (rps ++ [entryOf D c.rpId]) := by
  refine ⟨?_, fun rpId => ?_, ?_, by simpa using h.length⟩
  · rw [List.map_append]
    exact h.nodup.append (List.nodup_singleton _) (by simpa [entryOf] using hn)
  · rw [List.map_append, List.mem_append, h.mem_iff]
    constructor
    · rintro (⟨d, hd, hrs⟩ | hls)
      · exact ⟨d, List.mem_append_left _ hd, hrs⟩
      · exact ⟨c, List.mem_append_right _ (List.mem_singleton_self c), hfl,
          (List.mem_singleton.mp hls).symm⟩
    rintro ⟨d, hd, hd', rfl⟩
    rcases List.mem_append.mp hd with hd | hd
    · exact .inl ⟨d, hd, hd', rfl⟩
    · rw [List.mem_singleton.mp hd]
      exact .inr (List.mem_singleton_self _)
  · intro e he
    rcases List.mem_append.mp he with he | he
    · exact h.entry e he
    · rw [List.mem_singleton.mp he]
      rfl

theorem any_rpId_iff {rpId : FixedString 64} :
    rps.any (·.rpId = rpId) = true ↔ rpId ∈ rps.map (·.rpId) := by
  simp [List.any_eq_true, List.mem_map]

end Rps

variable (hcap : (D.store.credentials.list store).length ≤ maxCredentials)

include hcap in
/-- `list_rps` lists every relying party of a resident credential once. -/
theorem listRps_spec :
    RpsOf D (D.store.credentials.list store) (listRps D store) := by
  unfold listRps
  revert hcap
  generalize D.store.credentials.list store = l
  induction l using List.reverseRecOn with
  | nil =>
    intro _
    exact ⟨List.nodup_nil, by simp, nofun, Nat.le_refl 0⟩
  | append_singleton l c ih =>
    intro hcap
    rw [List.length_append, List.length_singleton] at hcap
    have hr := ih (by omega)
    rw [List.foldl_concat]
    generalize l.foldl _ [] = rps at hr ⊢
    by_cases hds : c.discoverable = false
    · rw [if_pos hds]
      exact hr.skip fun hfl => absurd (hds.symm.trans hfl) Bool.false_ne_true
    rw [if_neg hds]
    by_cases hsn : rps.any (·.rpId = c.rpId) = true
    · rw [if_pos hsn]
      exact hr.skip fun _ => any_rpId_iff.mp hsn
    · have hrm : rps.length < maxCredentials := Nat.lt_of_le_of_lt hr.length (by omega)
      rw [if_neg hsn, if_pos hrm]
      exact hr.push (Bool.eq_true_of_not_eq_false hds) (mt any_rpId_iff.mpr hsn)

include hcap in
theorem listCredentials_eq (hash : FixedBytes 32) :
    listCredentials D store hash =
      ((resident D store).filter fun c => rpIdHash D.crypto c.rpId.val = hash).map (·.id) := by
  unfold listCredentials resident
  revert hcap
  generalize D.store.credentials.list store = l
  induction l using List.reverseRecOn with
  | nil =>
    intro _
    rfl
  | append_singleton l c ih =>
    intro hcap
    rw [List.length_append, List.length_singleton] at hcap
    rw [List.foldl_concat, ih (by omega)]
    by_cases hds : c.discoverable = false
    · simp [hds]
    by_cases hhs : rpIdHash D.crypto c.rpId.val = hash
    · have hle := Nat.le_trans (List.length_filter_le
        (fun c => rpIdHash D.crypto c.rpId.val = hash) (l.filter (·.discoverable)))
        (List.length_filter_le (·.discoverable) l)
      rw [if_neg hds, if_neg (not_not.mpr hhs), if_pos (by rw [List.length_map]; omega)]
      simp [hds, hhs]
    · simp [hds, hhs]

/-- No two stored relying parties have one hash. -/
def HashesApart (D : Device σ φ) (store : σ) : Prop :=
  ∀ c ∈ D.store.credentials.list store, ∀ d ∈ D.store.credentials.list store,
    rpIdHash D.crypto c.rpId.val = rpIdHash D.crypto d.rpId.val → c.rpId = d.rpId

instance (D : Device σ φ) (store : σ) : Decidable (HashesApart D store) :=
  inferInstanceAs (Decidable (∀ c ∈ _, ∀ d ∈ _, _ = _ → _ = _))

include hcap in
/-- A listed relying party owns the credentials that are listed under its hash. -/
theorem listCredentials_own (hs : HashesApart D store) {e : RpEntry} (he : e ∈ listRps D store) :
    listCredentials D store e.rpIdHash =
      ((resident D store).filter fun c => c.rpId = e.rpId).map (·.id) := by
  have hr := listRps_spec hcap
  obtain ⟨d, hd, -, hp⟩ := (hr.mem_iff e.rpId).mp (List.mem_map_of_mem he)
  have hhs : e.rpIdHash = rpIdHash D.crypto e.rpId.val :=
    congrArg RpEntry.rpIdHash (hr.entry e he)
  rw [listCredentials_eq hcap]
  congr 1
  apply List.filter_congr
  intro c hc
  have hcm : c ∈ D.store.credentials.list store := (List.mem_filter.mp hc).1
  rw [hhs, decide_eq_decide]
  constructor
  · intro heq
    rw [← hp] at heq ⊢
    exact hs c hcm d hd heq
  · intro heq
    rw [heq]

include hcap in
/-- The credentials of all listed relying parties are the resident credentials, up to order. -/
theorem listed_perm (hs : HashesApart D store) :
    ((listRps D store).flatMap fun e => listCredentials D store e.rpIdHash).Perm
      ((resident D store).map (·.id)) := by
  have hr := listRps_spec hcap
  have ha : ∀ c ∈ resident D store, c.rpId ∈ (listRps D store).map (·.rpId) := by
    intro c hc
    obtain ⟨hm, hfl⟩ := List.mem_filter.mp hc
    exact (hr.mem_iff c.rpId).mpr ⟨c, hm, hfl, rfl⟩
  have hls : ((listRps D store).flatMap fun e => listCredentials D store e.rpIdHash) =
      (((listRps D store).map (·.rpId)).flatMap fun rpId =>
        (resident D store).filter fun c => c.rpId = rpId).map (·.id) := by
    rw [List.map_flatMap, List.flatMap_map]
    apply List.flatMap_congr
    intro e he
    exact listCredentials_own hcap hs he
  rw [hls]
  exact (perm_groups Credential.rpId hr.nodup ha).map _

/-- The enumeration is complete: every relying party that owns a resident credential is listed once,
  with the hash of its id; the credentials listed under a relying party are its resident ones; and
  over all listed relying parties they are the resident credentials, each once. -/
theorem enumeration_complete (D : Device σ φ) (store : σ)
    (hcap : (D.store.credentials.list store).length ≤ maxCredentials)
    (hids : D.store.credentials.IdsUnique store) (hsha : HashesApart D store) :
    ((listRps D store).map (·.rpId)).Nodup ∧
    (∀ rpId, rpId ∈ (listRps D store).map (·.rpId) ↔
      ∃ c ∈ D.store.credentials.list store, c.discoverable = true ∧ c.rpId = rpId) ∧
    (∀ e ∈ listRps D store, e.rpIdHash = rpIdHash D.crypto e.rpId.val ∧
      listCredentials D store e.rpIdHash =
        ((resident D store).filter fun c => c.rpId = e.rpId).map (·.id)) ∧
    ((listRps D store).flatMap fun e => listCredentials D store e.rpIdHash).Nodup ∧
    ((listRps D store).flatMap fun e => listCredentials D store e.rpIdHash).Perm
      ((resident D store).map (·.id)) := by
  have hrps := listRps_spec hcap
  have hperm := listed_perm hcap hsha
  have hnodup : ((resident D store).map (·.id)).Nodup := by
    have hall : ((D.store.credentials.list store).map (·.id)).Nodup :=
      List.Nodup.of_map Subtype.val (by rw [List.map_map]; exact hids)
    exact hall.sublist (List.filter_sublist.map _)
  refine ⟨hrps.nodup, hrps.mem_iff, fun e he => ⟨?_, listCredentials_own hcap hsha he⟩,
    hperm.symm.nodup hnodup, hperm⟩
  exact congrArg RpEntry.rpIdHash (hrps.entry e he)

end Lists

/-- Two relying parties, and one credential that is not resident. -/
def mixedStore : MemoryState where
  credentials := ⟨[exampleCredential,
    { exampleCredential with id := ⟨[0xBB], by decide⟩, rpId := exampleOrg },
    { exampleCredential with id := ⟨[0xCC], by decide⟩, discoverable := false },
    { exampleCredential with id := ⟨[0xDD], by decide⟩ }], by decide⟩
  pinHash := none
  pinRetries := 8

theorem enumeration_complete_mixedStore :
    ((listRps enumerationDevice mixedStore).flatMap fun e =>
      listCredentials enumerationDevice mixedStore e.rpIdHash).Perm
      [exampleCredential.id, ⟨[0xBB], by decide⟩, ⟨[0xDD], by decide⟩] :=
  (enumeration_complete enumerationDevice mixedStore (by decide)
    (by unfold CredentialStore.IdsUnique; decide +kernel) (by decide +kernel)).2.2.2.2

/-! ## Metadata -/

/-- The response to `getCredsMetadata`. -/
structure CredsMetadata where
  existing : Nat
  remaining : Nat
deriving DecidableEq

/-- `creds_metadata`: the number of all credentials, and what it leaves of the capacity. -/
def credsMetadata {σ φ : Type} (S : CredentialStore σ φ) (s : σ) : CredsMetadata where
  existing := (S.list s).length
  remaining := maxCredentials - (S.list s).length

end AegisToken.Ctap2

namespace AegisToken.VectorStore
open Ctap2

variable {σ φ : Type}

/-- Insert credentials one after another, up to the first that is refused. -/
def insertAll (S : VectorStore σ φ) : σ → List Credential → Except CoreError Unit × σ
  | s, [] => (.ok (), s)
  | s, c :: cs =>
    match S.insert s c with
    | (.ok _, s') => S.insertAll s' cs
    | (.error e, s') => (.error e, s')

/-- An insert fails for want of room only. -/
def Roomy (S : VectorStore σ φ) : Prop :=
  ∀ s c, ((S.cache s).put c).isSome → (S.insert s c).1 = .ok ()

theorem memoryVector_roomy : memoryVector.Roomy := by
  intro cache c hrm
  obtain ⟨cache', hp⟩ : ∃ cache', cache.put c = some cache' := Option.isSome_iff_exists.mp hrm
  unfold memoryVector
  dsimp only
  rw [hp]

/-- The whole `MemoryCredentialStore`: the vector beside the PIN. -/
def memoryStateVector : VectorStore MemoryState Unit where
  credentials := memoryFido.credentials
  cache s := s.credentials
  insert s c :=
    let (result, credentials) := memoryVector.insert s.credentials c
    (result, { s with credentials })
  remove s id :=
    let (result, credentials) := memoryVector.remove s.credentials id
    (result, { s with credentials })
  list_eq _ := rfl
  insert_ok s c h := memoryVector.insert_ok s.credentials c h
  remove_ok s id h := memoryVector.remove_ok s.credentials id h

theorem memoryStateVector_roomy : memoryStateVector.Roomy :=
  fun s c hrm => memoryVector_roomy s.credentials c hrm

theorem sealedVector_roomy (store : SealedCredentialStore) (hC : store.cbor.Minimal) :
    (sealedVector store).Roomy := by
  intro x c hrm
  exact (sealed_step store hC (x, Clock.zero) (.insert c)).1.mpr
    (memoryVector_roomy x.2.cache c hrm)

/-- Credentials with new ids are taken exactly up to the capacity. -/
theorem insertAll_ok_iff {S : VectorStore σ φ} (hS : S.Roomy) {s : σ} {cs : List Credential}
    (hnd : (cs.map fun c => c.id.val).Nodup) (hw : ∀ c ∈ cs, c.id.val ∉ (S.cache s).ids) :
    (S.insertAll s cs).1 = .ok () ↔ (S.cache s).ids.length + cs.length ≤ maxCredentials := by
  induction cs generalizing s with
  | nil =>
    have hcap : (S.cache s).ids.length ≤ maxCredentials := by
      rw [Cache.ids, List.length_map]
      exact (S.cache s).property
    exact ⟨fun _ => hcap, fun _ => rfl⟩
  | cons c cs ih =>
    rw [List.map_cons, List.nodup_cons] at hnd
    have hfr := hw c List.mem_cons_self
    have hp : (S.cache s).put c = (S.cache s).push c := by
      rw [Cache.put, Cache.position_eq_none.mpr hfr]
    have hrm : ((S.cache s).put c).isSome ↔ (S.cache s).ids.length < maxCredentials := by
      rw [hp, Cache.push, Cache.ids]
      by_cases hlt : (S.cache s).val.length < maxCredentials <;> simp [hlt]
    rw [insertAll, List.length_cons]
    rcases hn : S.insert s c with ⟨e | ⟨⟩, s'⟩
    · have hfl : ¬ (S.cache s).ids.length < maxCredentials := by
        intro hlt
        have hok := hS s c (hrm.mpr hlt)
        rw [hn] at hok
        cases hok
      constructor
      · intro h
        cases h
      · intro h
        omega
    · have hok := S.insert_ok s c (by rw [hn])
      rw [hn] at hok
      have hi := Cache.ids_put hok
      rw [if_neg hfr] at hi
      have hw' : ∀ d ∈ cs, d.id.val ∉ (S.cache s').ids := by
        intro d hd hm
        rw [hi, List.mem_append, List.mem_singleton] at hm
        rcases hm with hm | heq
        · exact hw d (List.mem_cons_of_mem c hd) hm
        · exact hnd.1 (heq ▸ List.mem_map_of_mem hd)
      rw [ih hnd.2 hw', hi, List.length_append, List.length_singleton]
      omega

/-- The metadata of a store whose relying parties have hashes of their own: `existing` is the number
  of enumerated credentials exactly if all credentials are resident, and `remaining` is the number
  of new credentials there is room for. -/
def MetadataIff (S : VectorStore σ φ) : Prop :=
  ∀ (D : Device σ φ) (s : σ), D.store.credentials = S.credentials → HashesApart D s →
    ((credsMetadata S.credentials s).existing =
        ((listRps D s).flatMap fun e => listCredentials D s e.rpIdHash).length ↔
      ∀ c ∈ S.credentials.list s, c.discoverable = true) ∧
    ∀ cs : List Credential, (cs.map fun c => c.id.val).Nodup →
      (∀ c ∈ cs, c.id.val ∉ (S.credentials.list s).map fun c => c.id.val) →
      ((S.insertAll s cs).1 = .ok () ↔
        cs.length ≤ (credsMetadata S.credentials s).remaining)

theorem metadataIff {S : VectorStore σ φ} (hS : S.Roomy) : S.MetadataIff := by
  intro D s hD hs
  have hcap : (S.credentials.list s).length ≤ maxCredentials := by
    rw [S.list_eq]
    exact (S.cache s).property
  refine ⟨?_, fun cs hnd hn => ?_⟩
  · have htl := (listed_perm (hD ▸ hcap) hs).length_eq
    rw [htl, List.length_map, resident, hD, eq_comm]
    exact List.length_filter_eq_length_iff
  have hl : (S.cache s).ids.length = (S.credentials.list s).length := by
    rw [S.list_eq, Cache.ids, List.length_map]
  rw [S.list_eq] at hn
  rw [insertAll_ok_iff hS hnd hn]
  show _ ↔ _ ≤ maxCredentials - _
  omega

/-- In both stores `getCredsMetadata` agrees with the enumeration exactly if all credentials are
  resident, and `remaining` new credentials are accepted and no more. -/
theorem metadata_agrees_iff (store : SealedCredentialStore) (hC : store.cbor.Minimal) :
    memoryStateVector.MetadataIff ∧ (sealedVector store).MetadataIff :=
  ⟨metadataIff memoryStateVector_roomy, metadataIff (sealedVector_roomy store hC)⟩

/-- Two resident credentials: both are counted and both are enumerated, and six more fit. -/
theorem metadata_agrees_iff_enumerationStore :
    (credsMetadata memoryFido.credentials enumerationStore).existing =
        ((listRps enumerationDevice enumerationStore).flatMap fun e =>
          listCredentials enumerationDevice enumerationStore e.rpIdHash).length ∧
      (memoryStateVector.insertAll enumerationStore
        ((List.range 6).map fun n => numberedCredential n.toUInt8)).1 = .ok () := by
  have hagree := (metadata_agrees_iff .sectorStore Wire.Cbor.heads_minimal).1 enumerationDevice
    enumerationStore rfl (by decide +kernel)
  exact ⟨hagree.1.mpr (by decide +kernel),
    (hagree.2 _ (by decide +kernel) (by decide +kernel)).mpr (by decide +kernel)⟩

/-- A credential that is not resident is counted and never enumerated. -/
theorem nonresident_counted :
    credsMetadata memoryFido.credentials mixedStore = ⟨4, 4⟩ ∧
      ((listRps enumerationDevice mixedStore).flatMap fun e =>
        listCredentials enumerationDevice mixedStore e.rpIdHash).length = 3 := by
  decide +kernel

end AegisToken.VectorStore
