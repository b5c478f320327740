/-
  The order in which the credential stores list.
  Both stores keep their credentials in one vector (`VectorStore`): an insert replaces in place or
  appends, and a removal puts the last credential in the gap. A clock says when each stored id came
  in, counted since it was last removed. The list holds the ids that are in, each once, and it is
  in the order of the clock after every call exactly if every removal hits one of the last two
  places (`list_in_order_iff`).
-/
import AegisToken.Core.CredentialCodec
import AegisToken.Core.SignCount
import AegisToken.Firmware.Continuation

namespace AegisToken
open ByteCodec FlashProg

/-! ## The vector -/

namespace Cache

/-- Insert or replace a credential: the vector after it, if there is room. -/
def put (cache : Cache) (credential : Credential) : Option Cache :=
  match cache.position credential.id.val with
  | some index => some (cache.modify index fun _ => credential)
  | none => cache.push credential

def removeId (cache : Cache) (credentialId : List UInt8) : Cache :=
  match cache.position credentialId with
  | some index => cache.swapRemove index
  | none => cache

/-- The ids after an insert: the same, or the new one at the end. -/
theorem ids_put {cache cache' : Cache} {c : Credential} (h : cache.put c = some cache') :
    if c.id.val ∈ cache.ids then cache'.ids = cache.ids
    else cache'.ids = cache.ids ++ [c.id.val] := by
  unfold put at h
  cases hp : cache.position c.id.val with
  | none =>
    rw [if_neg (position_eq_none.mp hp)]
    simp only [hp, push] at h
    split at h
    · obtain rfl := Option.some.inj h
      exact List.map_append
    · cases h
  | some index =>
    have hg := ids_of_position hp
    rw [if_pos (List.mem_of_getElem? hg)]
    simp only [hp] at h
    obtain rfl := Option.some.inj h
    apply ids_modify
    intro x hx
    rw [ids, List.getElem?_map, hx] at hg
    exact (Option.some.inj hg).symm

end Cache

/-! ## The two stores -/

/-- A credential store over a vector: what `list` returns, and what a call that returns `Ok` makes
  of the vector. -/
structure VectorStore (σ φ : Type) where
  credentials : CredentialStore σ φ
  cache : σ → Cache
  insert : σ → Credential → Except CoreError Unit × σ
  remove : σ → List UInt8 → Except CoreError Unit × σ
  list_eq : ∀ s, credentials.list s = (cache s).val
  insert_ok : ∀ s c, (insert s c).1 = .ok () → (cache s).put c = some (cache (insert s c).2)
  remove_ok : ∀ s id, (remove s id).1 = .ok () → cache (remove s id).2 = (cache s).removeId id

/-- `MemoryCredentialStore`. -/
def memoryVector : VectorStore Cache Unit where
  credentials := memoryStore
  cache := id
  insert cache c :=
    match cache.put c with
    | some cache => (.ok (), cache)
    | none => (.error .storageError, cache)
  remove cache id := (.ok (), cache.removeId id)
  list_eq _ := rfl
  insert_ok cache c h := by
    cases hput : cache.put c with
    | none =>
      rw [hput] at h
      cases h
    | some cache' => exact hput
  remove_ok _ _ _ := rfl

/-- `SealedCredentialStore` on a flash. -/
def sealedVector (store : SealedCredentialStore) : VectorStore (Flash × Database) (Option Nat) where
  credentials := sealedStore store
  cache x := x.2.cache
  insert x c :=
    let (db, program) := store.insert x.2 c
    (program.result x.1, (program.after x.1, db))
  remove x id :=
    let (db, program) := store.remove x.2 id
    (program.result x.1, (program.after x.1, db))
  list_eq _ := rfl
  insert_ok x c h := by
    unfold SealedCredentialStore.insert at h ⊢
    unfold Cache.put
    cases hpos : x.2.cache.position c.id.val with
    | some index => rfl
    | none =>
      rw [hpos] at h
      cases hpush : x.2.cache.push c with
      | some cache => rfl
      | none =>
        rw [hpush] at h
        cases h
  remove_ok x id _ := by
    unfold SealedCredentialStore.remove Cache.removeId
    cases x.2.cache.position id with
    | some index => rfl
    | none => rfl

/-! ## The clock -/

/-- A call that changes the list. -/
inductive VectorCall where
  | insert (credential : Credential)
  | remove (credentialId : List UInt8)

/-- The number of calls so far, and for each stored id the call that inserted it: the first insert
  since the id was last removed. -/
structure Clock where
  now : Nat
  births : List UInt8 → Option Nat

def Clock.zero : Clock := ⟨0, fun _ => none⟩

def Clock.tick (k : Clock) : VectorCall → Clock
  | .insert c =>
    if (k.births c.id.val).isSome then ⟨k.now + 1, k.births⟩
    else ⟨k.now + 1, Function.update k.births c.id.val (some k.now)⟩
  | .remove id => ⟨k.now + 1, Function.update k.births id none⟩

theorem Clock.now_tick (k : Clock) (call : VectorCall) : (k.tick call).now = k.now + 1 := by
  cases call with
  | remove id => rfl
  | insert c =>
    rw [Clock.tick]
    split <;> rfl

variable {c : Credential}

theorem Clock.births_insert_old {k : Clock} (h : (k.births c.id.val).isSome) :
    (k.tick (.insert c)).births = k.births := by
  rw [Clock.tick, if_pos h]

theorem Clock.births_insert_new {k : Clock} (h : ¬ (k.births c.id.val).isSome) :
    (k.tick (.insert c)).births = Function.update k.births c.id.val (some k.now) := by
  rw [Clock.tick, if_neg h]

theorem Clock.births_remove (k : Clock) (id : List UInt8) :
    (k.tick (.remove id)).births = Function.update k.births id none := rfl

def Clock.Before (k : Clock) (a b : List UInt8) : Prop :=
  ∃ m n, k.births a = some m ∧ k.births b = some n ∧ m < n

/-- Ids in the order they came in. -/
def Clock.InOrder (k : Clock) (ids : List (List UInt8)) : Prop := ids.Pairwise k.Before

/-- The vector holds the ids that are in, each once. -/
structure Timed (cache : Cache) (k : Clock) : Prop where
  nodup : cache.ids.Nodup
  mem_iff : ∀ id, id ∈ cache.ids ↔ (k.births id).isSome
  past : ∀ id m, k.births id = some m → m < k.now

/-- A removal that leaves the order alone: at most one credential comes after the gap. -/
def Harmless (cache : Cache) : VectorCall → Prop
  | .insert _ => True
  | .remove id => ∀ index, cache.position id = some index → cache.val.length ≤ index + 2

theorem Clock.before_asymm (k : Clock) (a b : List UInt8) (hab : k.Before a b) :
    ¬ k.Before b a := by
  rintro ⟨m, n, hm, hn, hlt⟩
  obtain ⟨m', n', hm', hn', hlt'⟩ := hab
  have hmn : m = n' := Option.some.inj (hm.symm.trans hn')
  have hnm : n = m' := Option.some.inj (hn.symm.trans hm')
  omega

/-- The order depends on the births of the listed ids only. -/
theorem Clock.inOrder_congr {k k' : Clock} {ids : List (List UInt8)}
    (h : ∀ id ∈ ids, k'.births id = k.births id) : k'.InOrder ids ↔ k.InOrder ids := by
  apply List.Pairwise.iff_of_mem
  intro a b ha hb
  unfold Clock.Before
  rw [h a ha, h b hb]

theorem timed_zero : Timed Cache.empty Clock.zero where
  nodup := List.nodup_nil
  mem_iff id := by simp [Cache.ids, Cache.empty, Clock.zero]
  past := nofun

theorem Timed.insert {cache cache' : Cache} {k : Clock} (h : Timed cache k)
    (hp : cache.put c = some cache') :
    Timed cache' (k.tick (.insert c)) ∧
      (k.InOrder cache.ids → (k.tick (.insert c)).InOrder cache'.ids) := by
  have hi := Cache.ids_put hp
  by_cases hme : c.id.val ∈ cache.ids
  · have hr := Clock.births_insert_old ((h.mem_iff _).mp hme)
    rw [if_pos hme] at hi
    refine ⟨⟨hi ▸ h.nodup, ?_, ?_⟩, ?_⟩
    · intro id
      rw [hi, hr, h.mem_iff]
    · intro id m hm
      rw [hr] at hm
      rw [Clock.now_tick]
      exact Nat.lt_succ_of_lt (h.past id m hm)
    · intro hor
      rw [hi]
      exact (Clock.inOrder_congr fun id _ => congrFun hr id).mpr hor
  · have hno : ¬ (k.births c.id.val).isSome := fun hsm => hme ((h.mem_iff _).mpr hsm)
    have hr := Clock.births_insert_new hno
    have hold : ∀ id, id ≠ c.id.val → (k.tick (.insert c)).births id = k.births id := by
      intro id hid
      rw [hr, Function.update_of_ne hid]
    have hn : (k.tick (.insert c)).births c.id.val = some k.now := by
      rw [hr, Function.update_self]
    rw [if_neg hme] at hi
    refine ⟨⟨?_, ?_, ?_⟩, ?_⟩
    · rw [hi]
      exact h.nodup.append (List.nodup_singleton _) (by simpa using hme)
    · intro id
      rw [hi]
      by_cases hid : id = c.id.val
      · simp [hid, hn]
      · simp [hid, hold id hid, h.mem_iff]
    · intro id m hm
      rw [Clock.now_tick]
      by_cases hid : id = c.id.val
      · rw [hid, hn] at hm
        exact Option.some.inj hm ▸ Nat.lt_succ_self k.now
      · rw [hold id hid] at hm
        exact Nat.lt_succ_of_lt (h.past id m hm)
    · -- the new id comes in after all others
      intro hor
      have hkp : ∀ id ∈ cache.ids, (k.tick (.insert c)).births id = k.births id :=
        fun id hid => hold id fun heq => hme (heq ▸ hid)
      rw [hi]
      refine List.pairwise_append.mpr
        ⟨(Clock.inOrder_congr hkp).mpr hor, List.pairwise_singleton _ _, ?_⟩
      intro a ha b hb
      obtain ⟨m, hm⟩ := Option.isSome_iff_exists.mp ((h.mem_iff a).mp ha)
      rw [List.mem_singleton.mp hb]
      exact ⟨m, k.now, (hkp a ha).trans hm, hn, h.past a m hm⟩

section Removal
variable {cache : Cache} {k : Clock} {id : List UInt8}

/-- What is held after a removal was born before it. -/
theorem Timed.past_remove (h : Timed cache k) {other : List UInt8} {m : Nat}
    (hm : (k.tick (.remove id)).births other = some m) : m < (k.tick (.remove id)).now := by
  have hne : other ≠ id := by
    rintro rfl
    rw [Clock.births_remove, Function.update_self] at hm
    cases hm
  rw [Clock.births_remove, Function.update_of_ne hne] at hm
  exact Nat.lt_succ_of_lt (h.past other m hm)

/-- The removal of an id that is not held changes nothing. -/
theorem Timed.births_absent (h : Timed cache k) (hp : cache.position id = none) :
    (k.tick (.remove id)).births = k.births := by
  have hno : k.births id = none := by
    have hn := Cache.position_eq_none.mp hp
    rw [h.mem_iff] at hn
    exact Option.not_isSome_iff_eq_none.mp hn
  rw [Clock.births_remove, ← hno, Function.update_eq_self]

theorem Cache.ids_removeId {index : Nat} (hp : cache.position id = some index) :
    (cache.removeId id).ids = Vectors.swapRemove cache.ids index := by
  rw [Cache.removeId, hp]
  exact cache.ids_swapRemove index

/-- The removal at a position keeps the order exactly if at most one credential comes after. -/
theorem Timed.inOrder_swap (h : Timed cache k) {index : Nat} (hp : cache.position id = some index)
    (hor : k.InOrder cache.ids) :
    (k.tick (.remove id)).InOrder (Vectors.swapRemove cache.ids index) ↔
      cache.val.length ≤ index + 2 := by
  have hg := Cache.ids_of_position hp
  have hlt : index < cache.ids.length := (List.getElem?_eq_some_iff.mp hg).1
  have hold : ∀ other ∈ Vectors.swapRemove cache.ids index,
      (k.tick (.remove id)).births other = k.births other := by
    intro other hoh
    exact Function.update_of_ne ((Vectors.mem_swapRemove h.nodup hg other).mp hoh).2 _ _
  rw [Clock.inOrder_congr hold, Clock.InOrder,
    Vectors.pairwise_swapRemove_iff k.before_asymm hor hlt, Cache.ids, List.length_map]

/-- A removal keeps the order exactly if it is harmless. -/
theorem Timed.remove (h : Timed cache k) (id : List UInt8) :
    Timed (cache.removeId id) (k.tick (.remove id)) ∧ (k.InOrder cache.ids →
        ((k.tick (.remove id)).InOrder (cache.removeId id).ids ↔ Harmless cache (.remove id))) := by
  cases hp : cache.position id with
  | none =>
    have hb := h.births_absent hp
    have hrm : cache.removeId id = cache := by
      rw [Cache.removeId, hp]
    rw [hrm]
    refine ⟨⟨h.nodup, fun other => by rw [hb, h.mem_iff], fun _ _ => h.past_remove⟩, fun hor => ?_⟩
    refine ⟨fun _ index hin => ?_, fun _ => ?_⟩
    · rw [hp] at hin
      cases hin
    · exact (Clock.inOrder_congr fun other _ => congrFun hb other).mpr hor
  | some index =>
    rw [Cache.ids_removeId hp]
    refine ⟨⟨?_, ?_, fun _ _ => h.past_remove⟩, fun hor => ?_⟩
    · rw [Cache.removeId, hp]
      exact Cache.nodup_ids_swapRemove h.nodup index
    · intro other
      rw [Cache.ids_removeId hp, Vectors.mem_swapRemove h.nodup (Cache.ids_of_position hp),
        h.mem_iff, Clock.births_remove]
      by_cases hne : other = id <;> simp [hne]
    · rw [h.inOrder_swap hp hor]
      constructor
      · intro hl index' hin'
        rw [hp] at hin'
        cases hin'
        exact hl
      · intro hh
        exact hh index hp

end Removal

/-! ## Assertions without an allow list -/

/-- A list within the capacity is offered whole: the matches in the order of the list. -/
theorem Ctap2.assertionCandidates_nil {σ φ : Type} (S : CredentialStore σ φ) (s : σ)
    {request : GetAssertionRequest} (hal : request.allowList = [])
    (hl : (S.list s).length ≤ maxCredentials) :
    assertionCandidates S s request =
      .ok (((S.list s).filter (Ctap2.Asks request)).map fun c => c.id.val) := by
  have hfd : ∀ (l : List Credential) (ids : List (List UInt8)),
      ids.length + l.length ≤ maxCredentials →
      l.foldlM (fun candidates credential =>
        if credential.discoverable = false then .ok candidates
        else if credential.rpId ≠ request.rpId then .ok candidates
        else pushCandidate candidates credential.id.val) ids =
        (.ok (ids ++ (l.filter (Ctap2.Asks request)).map fun c => c.id.val) :
          Except Ctap2Status (List (List UInt8))) := by
    intro l
    induction l with
    | nil =>
      intro ids _
      rw [List.filter_nil, List.map_nil, List.append_nil]
      rfl
    | cons c l ih =>
      intro ids hrm
      rw [List.length_cons] at hrm
      rw [List.foldlM_cons]
      by_cases hak : Ctap2.Asks request c
      · have hds : ¬ c.discoverable = false := by
          have hfl := hak.2
          rw [if_pos hal] at hfl
          rw [hfl]
          decide
        have hps : pushCandidate ids c.id.val = .ok (ids ++ [c.id.val]) := if_pos (by omega)
        rw [List.filter_cons_of_pos (by simpa using hak), List.map_cons, List.append_cons,
          if_neg hds, if_neg (not_not.mpr hak.1), hps]
        exact ih (ids ++ [c.id.val]) (by rw [List.length_append, List.length_singleton]; omega)
      · have hsk : (if c.discoverable = false then .ok ids
            else if c.rpId ≠ request.rpId then .ok ids
            else pushCandidate ids c.id.val) =
            (.ok ids : Except Ctap2Status (List (List UInt8))) := by
          split
          · rfl
          rename_i hds
          refine if_pos fun hrp => hak ⟨hrp, ?_⟩
          rw [if_pos hal]
          exact Bool.eq_true_of_not_eq_false hds
        rw [hsk, List.filter_cons_of_neg (by simpa using hak)]
        exact ih ids (by omega)
  rw [assertionCandidates, if_pos hal, hfd _ [] (by simpa using hl), List.nil_append]

/-! ## Runs -/

namespace VectorStore

section Calls
variable {σ φ : Type} (S : VectorStore σ φ)

/-- A call: what it returns and the store after it. -/
def call (s : σ) : VectorCall → Except CoreError Unit × σ
  | .insert c => S.insert s c
  | .remove id => S.remove s id

/-- A call on the store, with the clock beside it. -/
def step (x : σ × Clock) (call : VectorCall) : σ × Clock := ((S.call x.1 call).2, x.2.tick call)

def Succeeds (x : σ × Clock) (call : VectorCall) : Prop := (S.call x.1 call).1 = .ok ()

instance (x : σ × Clock) (call : VectorCall) : Decidable (S.Succeeds x call) :=
  inferInstanceAs (Decidable (_ = _))

/-- The store lists its credentials in the order they came in. -/
def ListsInOrder (x : σ × Clock) : Prop :=
  x.2.InOrder ((S.credentials.list x.1).map fun c => c.id.val)

/-- The list holds the ids that are in, each once. -/
def ListsAll (x : σ × Clock) : Prop :=
  ((S.credentials.list x.1).map fun c => c.id.val).Nodup ∧
    ∀ id, id ∈ (S.credentials.list x.1).map (fun c => c.id.val) ↔ (x.2.births id).isSome

variable {S}

theorem listsInOrder_iff {x : σ × Clock} :
    S.ListsInOrder x ↔ x.2.InOrder (S.cache x.1).ids := by
  rw [ListsInOrder, S.list_eq]
  rfl

theorem timed_step {x : σ × Clock} (h : Timed (S.cache x.1) x.2) {call : VectorCall}
    (hok : S.Succeeds x call) :
    Timed (S.cache (S.step x call).1) (S.step x call).2 ∧
      (S.ListsInOrder x → (S.ListsInOrder (S.step x call) ↔ Harmless (S.cache x.1) call)) := by
  rw [listsInOrder_iff, listsInOrder_iff]
  cases call with
  | insert c =>
    obtain ⟨htm, hor⟩ := h.insert (S.insert_ok x.1 c hok)
    exact ⟨htm, fun hb => ⟨fun _ => trivial, fun _ => hor hb⟩⟩
  | remove id =>
    have hrm : S.cache (S.step x (.remove id)).1 = (S.cache x.1).removeId id :=
      S.remove_ok x.1 id hok
    rw [hrm]
    exact h.remove id

/-- The order of the list over runs of successful calls from an empty store. -/
def OrderIff (S : VectorStore σ φ) (start : σ) : Prop :=
  ∀ calls, Runs.Every S.step S.Succeeds (start, Clock.zero) calls →
    S.ListsAll (Runs.run S.step (start, Clock.zero) calls) ∧
    (Runs.Every S.step (fun x call => S.ListsInOrder (S.step x call)) (start, Clock.zero) calls ↔
      Runs.Every S.step (fun x call => Harmless (S.cache x.1) call) (start, Clock.zero) calls) ∧
    (S.ListsInOrder (Runs.run S.step (start, Clock.zero) calls) →
      ∀ request : GetAssertionRequest, request.allowList = [] → ∃ ids,
        assertionCandidates S.credentials (Runs.run S.step (start, Clock.zero) calls).1 request =
          .ok ids ∧
        (Runs.run S.step (start, Clock.zero) calls).2.InOrder ids)

theorem orderIff (S : VectorStore σ φ) (start : σ) (hst : S.cache start = Cache.empty) :
    S.OrderIff start := by
  intro calls hok
  have hzr : Timed (S.cache start) Clock.zero := hst ▸ timed_zero
  have hfr : S.ListsInOrder (start, Clock.zero) := by
    rw [listsInOrder_iff, hst]
    exact List.Pairwise.nil
  refine ⟨?_, ?_, ?_⟩
  · have htm := Runs.Every.keep (fun x call hx hcl => (timed_step hx hcl).1) hzr hok
    rw [ListsAll, S.list_eq]
    exact ⟨htm.nodup, htm.mem_iff⟩
  · have hi := Runs.every_iff (N := calls.length)
      (I := fun _ x => Timed (S.cache x.1) x.2 ∧ S.ListsInOrder x)
      (P := fun x call => S.Succeeds x call ∧ S.ListsInOrder (S.step x call))
      (fun _ x call _ hx => and_congr_right fun hcl => (timed_step hx.1 hcl).2 hx.2)
      (fun _ x call _ hx hcl => ⟨(timed_step hx.1 hcl.1).1,
        ((timed_step hx.1 hcl.1).2 hx.2).mpr hcl.2⟩)
      ⟨hzr, hfr⟩ (Nat.le_of_eq (Nat.zero_add _))
    constructor
    · intro hor
      exact (hi.mp (hok.and hor)).imp fun _ _ h => h.2
    · intro hh
      exact (hi.mpr (hok.and hh)).imp fun _ _ h => h.2
  · intro hor request hal
    have hl := (S.cache (Runs.run S.step (start, Clock.zero) calls).1).property
    rw [← S.list_eq] at hl
    refine ⟨_, Ctap2.assertionCandidates_nil S.credentials _ hal hl, ?_⟩
    exact List.Pairwise.sublist (List.filter_sublist.map _) hor

end Calls

/-- Both stores list every id that is in once. They list in the order the ids came in after every
  call exactly if every removal hits one of the last two places, and then a getAssertion without an
  allow list offers its matches in that order. -/
theorem list_in_order_iff (store : SealedCredentialStore) (f : Flash) :
    memoryVector.OrderIff Cache.empty ∧ (sealedVector store).OrderIff (f, Database.initial) :=
  ⟨orderIff memoryVector Cache.empty rfl, orderIff (sealedVector store) (f, Database.initial) rfl⟩

/-- Under shortest forms every database fits, and the sealed store runs beside the one in memory. -/
theorem sealed_step (store : SealedCredentialStore) (hC : store.cbor.Minimal)
    (x : (Flash × Database) × Clock) (call : VectorCall) :
    ((sealedVector store).Succeeds x call ↔ memoryVector.Succeeds (x.1.2.cache, x.2) call) ∧
      ((((sealedVector store).step x call).1.2.cache, ((sealedVector store).step x call).2) =
        memoryVector.step (x.1.2.cache, x.2) call) := by
  have hfl : ∀ db : Database, (store.flush db).2.result x.1.1 = .ok () := by
    intro db
    rw [store.flush_result, if_pos (Database.fits_of_minimal hC _)]
  cases call with
  | insert c =>
    simp only [Succeeds, call, step, sealedVector, memoryVector, SealedCredentialStore.insert,
      Cache.put]
    cases hp : x.1.2.cache.position c.id.val with
    | some index => exact ⟨⟨fun _ => rfl, fun _ => hfl _⟩, rfl⟩
    | none =>
      cases hps : x.1.2.cache.push c with
      | some cache => exact ⟨⟨fun _ => rfl, fun _ => hfl _⟩, rfl⟩
      | none => exact ⟨⟨by rintro ⟨⟩, by rintro ⟨⟩⟩, rfl⟩
  | remove id =>
    simp only [Succeeds, call, step, sealedVector, memoryVector, SealedCredentialStore.remove,
      Cache.removeId]
    cases hp : x.1.2.cache.position id with
    | some index | none => exact ⟨⟨fun _ => trivial, fun _ => hfl _⟩, rfl⟩

/-- Three credentials come in and the first one is removed. -/
def firstRemoved : List VectorCall :=
  [.insert (Ctap2.numberedCredential 1), .insert (Ctap2.numberedCredential 2),
    .insert (Ctap2.numberedCredential 3), .remove (List.replicate 32 1)]

/-- An assertion for the relying party of the credentials. -/
def firstRemovedRequest : GetAssertionRequest where
  rpId := (Ctap2.numberedCredential 1).rpId
  clientDataHash := exampleClientDataHash
  allowList := []
  uv := false

def firstRemovedMemory : Cache × Clock :=
  Runs.run memoryVector.step (Cache.empty, Clock.zero) firstRemoved

def firstRemovedSealed : (Flash × Database) × Clock :=
  Runs.run (sealedVector .sectorStore).step ((blank, Database.initial), Clock.zero) firstRemoved

/-- All calls succeed, and the third credential is listed and offered before the second. -/
theorem removal_breaks_order :
    Runs.Every memoryVector.step memoryVector.Succeeds (Cache.empty, Clock.zero) firstRemoved ∧
      Runs.Every (sealedVector .sectorStore).step (sealedVector .sectorStore).Succeeds
        ((blank, Database.initial), Clock.zero) firstRemoved ∧
      (memoryStore.list firstRemovedMemory.1).map
          (fun c => firstRemovedMemory.2.births c.id.val) = [some 2, some 1] ∧
      ((sealedStore .sectorStore).list firstRemovedSealed.1).map
          (fun c => firstRemovedSealed.2.births c.id.val) = [some 2, some 1] ∧
      assertionCandidates memoryStore firstRemovedMemory.1 firstRemovedRequest =
        .ok [List.replicate 32 3, List.replicate 32 2] := by
  have hmemory : Runs.Every memoryVector.step memoryVector.Succeeds (Cache.empty, Clock.zero)
      firstRemoved := by
    decide +kernel
  have hstep := sealed_step .sectorStore Wire.Cbor.heads_minimal
  refine ⟨hmemory, ?_, by decide +kernel⟩
  have himage := (Runs.every_image (fun x : (Flash × Database) × Clock => (x.1.2.cache, x.2))
    (fun x call => (hstep x call).2) memoryVector.Succeeds
    (s := ((blank, Database.initial), Clock.zero))).mpr hmemory
  exact himage.imp fun x call hcall => (hstep x call).1.mpr hcall

end VectorStore

end AegisToken
