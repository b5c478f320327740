import AegisToken.Core.RpIsolation

/-
  Signature counters over whole runs of a sealed credential store.
  A run starts on blank flash. Its events are the operations that write the store, assertions, U2F
  messages and reopening the store from the flash; each write may fail at any byte. `carried` is
  the history of the counters in the responses that contain a signature.
  A counter only leaves the device once the database that has it is the newest record on the
  flash, and opening picks that record, so the next counter of the credential is higher:
  `carried_increasing`. Two things break this. A U2F request signs the counter zero when the flush
  fails (`u2f_counter_falls`), and the counter stays at its upper bound (`raise_at_max`).
-/

namespace AegisToken
open ByteCodec FlashProg

namespace SealedCredentialStore

/-! ## Runs -/

/-- The store on its flash, the database in memory unless it did not open, and the credential and
  the counter of each response that contained a signature, in order. -/
structure CountState where
  flash : Flash
  memory : Option Database
  carried : List (List UInt8 × Nat)

/-- The events of a run. A fault is the byte at which the flash fails during the event's write. -/
inductive CountEvent where
  | write (op : CredentialOp) (fault : Option Nat)
  | assertion (credentialId rpId : List UInt8) (clientDataHash : FixedBytes 32) (uv : Bool)
      (fault : Option Nat)
  | u2f (message : List UInt8) (up : Bool) (fault : Option Nat)
  | reopen

def flashAfter {α : Type} (program : Prog SealCall CoreError α) (fault : Option Nat) (f : Flash) :
    Flash :=
  match fault with
  | none => program.after f
  | some n => program.crash n f

def authDataCounter (authData : List UInt8) : Nat := ofBE ((authData.drop 33).take 4)

/-- The counter in the response of a U2F sign request. -/
def u2fCounter (data : List UInt8) : Nat := ofBE ((data.drop 1).take 4)

def assertionCarries : Except Ctap2Status GetAssertionResponse → List (List UInt8 × Nat)
  | .ok response => [(response.credentialId, authDataCounter response.authData)]
  | .error _ => []

/-- What a U2F response carries, if it contains a signature. -/
def u2fCarries (out : Outcome (Flash × Database) U2fResponse) : List (List UInt8 × Nat) :=
  match out.signed with
  | some x => [(x.credential.id.val, u2fCounter out.response.data)]
  | none => []

section Runs
variable (K : Crypto) (s : SealedCredentialStore)

/-- One event. A store that did not open serves nothing. -/
def countStep (x : CountState) : CountEvent → CountState
  | .reopen => { x with memory := (s.openDb x.flash).toOption }
  | .write op fault =>
    match x.memory with
    | none => x
    | some db =>
      { x with flash := flashAfter (s.run db op).2 fault x.flash, memory := some (s.run db op).1 }
  | .assertion credentialId rpId clientDataHash uv fault =>
    match x.memory with
    | none => x
    | some db =>
      let out := signAssertion K (sealedStore s) fault (x.flash, db) credentialId rpId
        clientDataHash uv
      ⟨out.store.1, some out.store.2, x.carried ++ assertionCarries out.response⟩
  | .u2f message up fault =>
    match x.memory with
    | none => x
    | some db =>
      let out := u2fHandle K (sealedStore s) fault message (x.flash, db) up
      ⟨out.store.1, some out.store.2, x.carried ++ u2fCarries out⟩

def countStart : CountState := ⟨blank, some Database.initial, []⟩

end Runs

/-! ## Conditions -/

/-- CRC-32 rejects what a failing write of a database leaves behind. -/
def FaultRejected (s : SealedCredentialStore) (f : Flash) (db : Database) (fault : Option Nat) :
    Prop :=
  match fault with
  | none => True
  | some n => s.storage.TornRejected ((s.writeDb db).crash n f) (s.storage.next f).2
      (s.storage.next f).1 (s.record db)

instance (s : SealedCredentialStore) (f : Flash) (db : Database) :
    (fault : Option Nat) → Decidable (s.FaultRejected f db fault)
  | none => inferInstanceAs (Decidable True)
  | some _ => inferInstanceAs (Decidable (s.storage.TornRejected ..))

/-- The write of an operation: there is room for its number, and what a fault leaves of it is
  rejected. -/
def WriteSound (s : SealedCredentialStore) (f : Flash) (db : Database) (op : CredentialOp)
    (fault : Option Nat) : Prop :=
  db.counter.toNat + 1 < seqModulus ∧ s.FaultRejected f (s.run db op).1 fault

instance (s : SealedCredentialStore) (f : Flash) (db : Database) (op : CredentialOp)
    (fault : Option Nat) : Decidable (s.WriteSound f db op fault) :=
  inferInstanceAs (Decidable (_ ∧ _))

/-- The operation inserts no credential under an id whose counters have been carried. -/
def InsertsFresh (carried : List (List UInt8 × Nat)) : CredentialOp → Prop
  | .insert c => ∀ x ∈ carried, x.1 ≠ c.id.val
  | _ => True

instance (carried : List (List UInt8 × Nat)) : (op : CredentialOp) → Decidable (InsertsFresh carried op)
  | .insert c => inferInstanceAs (Decidable (∀ x ∈ carried, x.1 ≠ c.id.val))
  | .setPin _ | .clearPin | .setPinRetries _ | .reset | .nextSignCount _ | .remove _ | .clear =>
    inferInstanceAs (Decidable True)

/-- The credential with this id, if there is one, has a counter below the upper bound. -/
def BelowMax (db : Database) (credentialId : List UInt8) : Prop :=
  ∀ c ∈ db.cache.get credentialId, c.signCount ≠ 0xFFFFFFFF

instance (db : Database) (credentialId : List UInt8) : Decidable (BelowMax db credentialId) :=
  inferInstanceAs (Decidable (∀ c ∈ db.cache.get credentialId, _))

/-- What an event has to meet when the store is open: writes are sound, signing credentials are
  below the upper bound, and for a U2F signature the flash does not fail and the database with its
  counter fits. -/
def OpenSound (s : SealedCredentialStore) (f : Flash) (db : Database)
    (carried : List (List UInt8 × Nat)) : CountEvent → Prop
  | .write op fault => s.WriteSound f db op fault ∧ InsertsFresh carried op
  | .assertion credentialId _ _ _ fault =>
    s.WriteSound f db (.nextSignCount credentialId) fault ∧ BelowMax db credentialId
  | .u2f message up fault => up = true → ∀ target ∈ u2fTarget (sealedStore s) message (f, db),
      s.WriteSound f db (.nextSignCount target.1.keyHandle) fault ∧
      BelowMax db target.1.keyHandle ∧ fault = none ∧
      (s.run db (.nextSignCount target.1.keyHandle)).1.Fits s.cbor
  | .reopen => True

instance (s : SealedCredentialStore) (f : Flash) (db : Database)
    (carried : List (List UInt8 × Nat)) : (e : CountEvent) → Decidable (s.OpenSound f db carried e)
  | .write .. => inferInstanceAs (Decidable (_ ∧ _))
  | .assertion .. => inferInstanceAs (Decidable (_ ∧ _))
  | .u2f message up _ => inferInstanceAs (Decidable (up = true →
      ∀ target ∈ u2fTarget (sealedStore s) message (f, db), _ ∧ _ ∧ _ ∧ _))
  | .reopen => inferInstanceAs (Decidable True)

def EventSound (s : SealedCredentialStore) (x : CountState) (e : CountEvent) : Prop :=
  ∀ db ∈ x.memory, s.OpenSound x.flash db x.carried e

instance (s : SealedCredentialStore) (x : CountState) (e : CountEvent) :
    Decidable (s.EventSound x e) :=
  inferInstanceAs (Decidable (∀ db ∈ x.memory, _))

/-! ## Counters in a database -/

/-- A database whose ids are unique and that has every carried counter behind it. -/
structure Covers (carried : List (List UInt8 × Nat)) (db : Database) : Prop where
  unique : db.cache.ids.Nodup
  le : ∀ x ∈ carried, ∀ c ∈ db.cache.val, c.id.val = x.1 → x.2 ≤ c.signCount.toNat

theorem toNat_saturatingSucc (count : UInt32) :
    (Cache.saturatingSucc count).toNat = min (count.toNat + 1) 4294967295 := by
  unfold Cache.saturatingSucc
  split
  · next h =>
    rw [h]
    rfl
  next h =>
  have hlt := (count + 1).toNat_lt
  rw [toNat_add_one h] at hlt ⊢
  omega

theorem le_saturatingSucc (count : UInt32) :
    count.toNat ≤ (Cache.saturatingSucc count).toNat := by
  have hlt := count.toNat_lt
  rw [toNat_saturatingSucc]
  omega

variable {count : UInt32}

theorem lt_saturatingSucc (h : count ≠ 0xFFFFFFFF) :
    count.toNat < (Cache.saturatingSucc count).toNat := by
  have hlt := count.toNat_lt
  have hne : count.toNat ≠ 4294967295 := fun heq => h (UInt32.toNat_inj.mp heq)
  rw [toNat_saturatingSucc]
  omega

variable {id : List UInt8}

/-- Raising a counter: the credential found by the id, with the next counter in its place. -/
theorem raise_eq {cache cache' : Cache} (h : cache.raise id = some (count, cache')) :
    ∃ index c, cache.get id = some c ∧ cache.val[index]? = some c ∧
      count = Cache.saturatingSucc c.signCount ∧
      cache' = cache.modify index fun c => { c with signCount := count } := by
  unfold Cache.raise at h
  rcases hp : cache.position id with _ | index
  · simp [hp] at h
  rcases hg : cache.get id with _ | c
  · simp [hp, hg] at h
  simp only [hp, hg, Option.some.injEq, Prod.mk.injEq] at h
  obtain ⟨rfl, rfl⟩ := h
  refine ⟨index, c, rfl, ?_, rfl, rfl⟩
  rw [← List.findIdx?_eq_some_iff_findIdx_eq.mp hp |>.2, ← List.find?_eq_getElem?_findIdx]
  exact hg

variable {c : Credential} {cache : Cache}

theorem raise_of_get (hg : cache.get id = some c) :
    ∃ cache', cache.raise id = some (Cache.saturatingSucc c.signCount, cache') := by
  rcases hp : cache.position id with _ | index
  · have hid := List.find?_some hg
    have hno := List.findIdx?_eq_none_iff.mp hp c (List.mem_of_find?_eq_some hg)
    rw [hno] at hid
    cases hid
  · unfold Cache.raise
    simp only [hp, hg]
    exact ⟨_, rfl⟩

theorem mem_modify {index : Nat} {change : Credential → Credential}
    (hc : c ∈ (cache.modify index change).val) :
    c ∈ cache.val ∨ ∃ c₀, cache.val[index]? = some c₀ ∧ c = change c₀ := by
  obtain ⟨i, hi, hg⟩ := List.getElem_of_mem hc
  simp only [Cache.modify, List.getElem_modify] at hg
  split at hg
  · next heq =>
    subst heq
    exact .inr ⟨_, List.getElem?_eq_getElem _, hg.symm⟩
  · exact .inl (hg ▸ List.getElem_mem _)

theorem mem_push {cache cache' : Cache} {new c : Credential} (hps : cache.push new = some cache')
    (hc : c ∈ cache'.val) : c ∈ cache.val ∨ c = new := by
  unfold Cache.push at hps
  split at hps
  · obtain rfl := Option.some.inj hps
    rcases List.mem_append.mp hc with hc | hc
    · exact .inl hc
    · exact .inr (List.mem_singleton.mp hc)
  · cases hps

theorem mem_swapRemove {index : Nat} (hc : c ∈ (cache.swapRemove index).val) :
    c ∈ cache.val := by
  unfold Cache.swapRemove at hc
  rcases hls : cache.val.getLast? with _ | last
  · simpa [hls] using hc
  simp only [hls] at hc
  rcases List.mem_or_eq_of_mem_set (List.mem_of_mem_dropLast hc) with hc | rfl
  · exact hc
  · exact List.mem_of_getLast? hls

/-- A credential after an operation was inserted by it, or was there with no higher counter. -/
theorem mem_run (s : SealedCredentialStore) (db : Database) (op : CredentialOp)
    (hc : c ∈ (s.run db op).1.cache.val) :
    op = .insert c ∨ ∃ c₀ ∈ db.cache.val, c.id.val = c₀.id.val ∧
      c₀.signCount.toNat ≤ c.signCount.toNat := by
  have hsl : ∀ c₀ ∈ db.cache.val, ∃ c₁ ∈ db.cache.val, c₀.id.val = c₁.id.val ∧
      c₁.signCount.toNat ≤ c₀.signCount.toNat := fun c₀ h => ⟨c₀, h, rfl, Nat.le_refl _⟩
  cases op with
  | setPin hash | clearPin | setPinRetries retries => exact .inr (hsl c hc)
  | reset | clear => cases hc
  | insert new =>
    simp only [run, insert] at hc
    rcases hp : db.cache.position new.id.val with _ | index
    · rcases hps : db.cache.push new with _ | cache
      · simp only [hp, hps] at hc
        exact .inr (hsl c hc)
      simp only [hp, hps] at hc
      rcases mem_push hps hc with hc | rfl
      · exact .inr (hsl c hc)
      · exact .inl rfl
    · simp only [hp] at hc
      rcases mem_modify hc with hc | ⟨_, -, rfl⟩
      · exact .inr (hsl c hc)
      · exact .inl rfl
  | nextSignCount id =>
    simp only [run, nextSignCount] at hc
    rcases hrs : db.cache.raise id with _ | ⟨count, cache⟩
    · simp only [hrs] at hc
      exact .inr (hsl c hc)
    obtain ⟨index, c₀, -, hat, rfl, rfl⟩ := raise_eq hrs
    simp only [hrs] at hc
    rcases mem_modify hc with hc | ⟨c₁, hc₁, rfl⟩
    · exact .inr (hsl c hc)
    · obtain rfl := Option.some.inj (hat.symm.trans hc₁)
      exact .inr ⟨c₀, List.mem_of_getElem? hat, rfl, le_saturatingSucc _⟩
  | remove id =>
    simp only [run, remove] at hc
    rcases hp : db.cache.position id with _ | index
    · simp only [hp] at hc
      exact .inr (hsl c hc)
    · simp only [hp] at hc
      exact .inr (hsl c (mem_swapRemove hc))

variable {op : CredentialOp}

theorem Covers.run {carried : List (List UInt8 × Nat)} {db : Database} (h : Covers carried db)
    (s : SealedCredentialStore) (hop : InsertsFresh carried op) :
    Covers carried (s.run db op).1 where
  unique := s.nodup_ids_run h.unique op
  le := by
    intro x hx c hc hid
    rcases s.mem_run db op hc with rfl | ⟨c₀, hc₀, hid₀, hle⟩
    · exact absurd hid.symm (hop x hx)
    · exact Nat.le_trans (h.le x hx c₀ hc₀ (hid₀.symm.trans hid)) hle

/-- A counter that was raised is above every carried one, and the database covers it. -/
theorem Covers.sign {carried : List (List UInt8 × Nat)} {db : Database} (h : Covers carried db)
    (s : SealedCredentialStore) (hrs : db.cache.raise id = some (count, cache))
    (hm : BelowMax db id) :
    Covers (carried ++ [(id, count.toNat)]) (s.run db (.nextSignCount id)).1 ∧
      ∀ x ∈ carried, x.1 = id → x.2 < count.toNat := by
  obtain ⟨index, c, hg, hat, rfl, rfl⟩ := raise_eq hrs
  have hid : c.id.val = id := by simpa [Cache.get] using List.find?_some hg
  have hc : c ∈ db.cache.val := List.mem_of_getElem? hat
  have hlt := lt_saturatingSucc (hm c hg)
  have hr := h.run s (show InsertsFresh carried (.nextSignCount id) from trivial)
  refine ⟨⟨hr.unique, ?_⟩, ?_⟩
  · intro x hx c' hc' hid'
    rcases List.mem_append.mp hx with hx | hx
    · exact hr.le x hx c' hc' hid'
    obtain rfl := List.mem_singleton.mp hx
    -- the raised credential is the only one with this id
    have hra : { c with signCount := Cache.saturatingSucc c.signCount } ∈
        (s.run db (.nextSignCount id)).1.cache.val := by
      simp only [SealedCredentialStore.run, nextSignCount, hrs, flush, Cache.modify]
      refine List.mem_of_getElem? (i := index) ?_
      rw [List.getElem?_modify, hat]
      simp
    rw [List.inj_on_of_nodup_map hr.unique hc' hra (hid'.trans hid.symm)]
  · intro x hx hd
    exact Nat.lt_of_le_of_lt (h.le x hx c hc (hid.trans hd.symm)) hlt

/-! ## Memory and flash -/

def level (db : Database) : Nat := db.counter.toNat

/-- The database in memory covers the carried counters, and so does the newest record, which is
  the one that opening picks. -/
structure Kept (s : SealedCredentialStore) (f : Flash) (db : Database)
    (carried : List (List UInt8 × Nat)) : Prop where
  memory : Covers carried db
  flash : ∃ r, s.Holds f r ∧ TwoSlot.Leads level r (level db) ∧
    ∀ sequence newest, TwoSlot.load r = some (sequence, newest) → Covers carried newest

variable {s : SealedCredentialStore} {f : Flash} {db : Database}
  {carried : List (List UInt8 × Nat)}

theorem Kept.start (s : SealedCredentialStore) : s.Kept blank Database.initial [] where
  memory := ⟨List.nodup_nil, by intro x hx; cases hx⟩
  flash := by
    refine ⟨_, Holds.blank s, TwoSlot.Leads.empty _ _, ?_⟩
    intro sequence newest h
    rw [TwoSlot.load_empty] at h
    cases h

variable {r : TwoSlot.Reg Database}

/-- Opening gives the newest record, which leads the other one. -/
theorem Holds.openDb_newest {n : Nat} (h : s.Holds f r) (hld : TwoSlot.Leads level r n) :
    s.openDb f = .ok (((TwoSlot.load r).map Prod.snd).getD Database.initial) := by
  rcases h.openDb with ⟨hon, hno⟩ | ⟨db', hon, hm, hx⟩
  · rcases hl : TwoSlot.load r with _ | ⟨sequence, newest⟩
    · exact hon
    · exact absurd (TwoSlot.mem_of_load hl) (hno newest)
  rcases hl : TwoSlot.load r with _ | ⟨sequence, newest⟩
  · obtain ⟨i, t, hi⟩ := hm
    rw [TwoSlot.load_eq_none.mp hl i] at hi
    cases hi
  obtain ⟨-, -, hlt⟩ := hld sequence newest hl
  have hle : level newest ≤ level db' := hx newest (TwoSlot.mem_of_load hl)
  obtain rfl : db' = newest := (hlt db' hm).resolve_right (Nat.not_lt.mpr hle)
  exact hon

theorem leads_opened {n : Nat} (hld : TwoSlot.Leads level r n) :
    TwoSlot.Leads level r (level (((TwoSlot.load r).map Prod.snd).getD Database.initial)) := by
  intro sequence newest hl
  obtain ⟨hs, -, hlt⟩ := hld sequence newest hl
  rw [hl]
  exact ⟨hs, Nat.le_refl _, hlt⟩

/-- Opening keeps what the records cover. -/
theorem Kept.reopen (h : s.Kept f db carried) :
    ∃ db', s.openDb f = .ok db' ∧ s.Kept f db' carried := by
  obtain ⟨r, hr, hld, hv⟩ := h.flash
  refine ⟨_, hr.openDb_newest hld, ?_, r, hr, leads_opened hld, hv⟩
  rcases hl : TwoSlot.load r with _ | ⟨sequence, newest⟩
  · exact ⟨List.nodup_nil, by intro x _ c hc; cases hc⟩
  · exact hv sequence newest hl

theorem flashAfter_of_ops {α β : Type} {x : Prog SealCall CoreError α}
    {y : Prog SealCall CoreError β} (h : x.ops f = y.ops f) (fault : Option Nat) :
    flashAfter x fault f = flashAfter y fault f := by
  cases fault with
  | none => simp only [flashAfter, Prog.after, h]
  | some n => simp only [flashAfter, Prog.crash, h]

theorem flashAfter_fail {α : Type} (e : CoreError) (fault : Option Nat) (f : Flash) :
    flashAfter (Prog.fail e : Prog SealCall CoreError α) fault f = f := by
  cases fault with
  | none => rfl
  | some n => simp [flashAfter, Prog.crash]

theorem level_next (h : level db + 1 < 2 ^ 64) {db' : Database}
    (hc : db'.counter = db.counter + 1) : level db' = level db + 1 := by
  unfold level at *
  rw [hc, UInt64.toNat_add]
  simp only [UInt64.reduceToNat]
  omega

theorem level_succ (h : level db + 1 < seqModulus) {db' : Database}
    (hc : db'.counter = db.counter + 1) : level db' = level db + 1 :=
  level_next (Nat.lt_trans h (by decide)) hc

/-- What an operation makes of the register: it is refused, its database does not fit, or that
  database is written, whole if there is no fault. -/
inductive RegEffect (s : SealedCredentialStore) (db : Database) (op : CredentialOp)
    (fault : Option Nat) (r : TwoSlot.Reg Database) : TwoSlot.Reg Database → Prop
  | refused (hdb : (s.run db op).1 = db) : RegEffect s db op fault r r
  | inMemory (hcounter : (s.run db op).1.counter = db.counter + 1)
      (hfit : ¬ (s.run db op).1.Fits s.cbor) : RegEffect s db op fault r r
  | wrote {r' : TwoSlot.Reg Database} (hcounter : (s.run db op).1.counter = db.counter + 1)
      (htorn : TwoSlot.Torn seqModulus r (s.run db op).1 r')
      (hwhole : fault = none → r' = TwoSlot.put seqModulus r (s.run db op).1) :
      RegEffect s db op fault r r'

theorem Holds.run (h : s.Holds f r) (op : CredentialOp) (fault : Option Nat)
    (hcr : s.FaultRejected f (s.run db op).1 fault) :
    ∃ r', s.Holds (flashAfter (s.run db op).2 fault f) r' ∧ RegEffect s db op fault r r' := by
  rcases s.run_cases db op with ⟨hdb, ho⟩ | ⟨hc, ho⟩
  · rw [flashAfter_of_ops (y := (Prog.fail .storageError : Prog SealCall CoreError Unit))
      (ho f), flashAfter_fail]
    exact ⟨r, h, .refused hdb⟩
  rw [flashAfter_of_ops (ho f)]
  by_cases hf : (s.run db op).1.Fits s.cbor
  · cases fault with
    | none => exact ⟨_, h.writeDb hf, .wrote hc .landed fun _ => rfl⟩
    | some n =>
      obtain ⟨r', htr, hr'⟩ := h.writeDb_crash hf hcr
      exact ⟨r', hr', .wrote hc htr nofun⟩
  · rw [writeDb_of_not_fits hf, flashAfter_fail]
    exact ⟨r, h, .inMemory hc hf⟩

variable {fault : Option Nat}

theorem RegEffect.leads {r r' : TwoSlot.Reg Database} (h : RegEffect s db op fault r r')
    (hld : TwoSlot.Leads level r (level db)) (hs : level db + 1 < seqModulus) :
    TwoSlot.Leads level r' (level (s.run db op).1) := by
  cases h with
  | refused hdb =>
    rw [hdb]
    exact hld
  | inMemory hc hf =>
    have hlv := level_succ hs hc
    exact hld.mono (by omega)
  | wrote hc htr hwh =>
    have hlv := level_succ hs hc
    exact hld.torn (by omega) hs htr

/-- The newest record is the one from before or the database that was written. -/
theorem RegEffect.load {r r' : TwoSlot.Reg Database} (h : RegEffect s db op fault r r')
    (hld : TwoSlot.Leads level r (level db)) (hs : level db + 1 < seqModulus) :
    TwoSlot.load r' = TwoSlot.load r ∨ (TwoSlot.load r').map Prod.snd = some (s.run db op).1 := by
  cases h with
  | refused hdb | inMemory hc hf => exact .inl rfl
  | wrote hc htr hwh =>
    rcases htr.load hld.seqLe hs with hold | hn
    · exact .inl hold
    · exact .inr (by rw [hn]; rfl)

/-- An operation that returns `Ok` wrote its database whole. -/
theorem Holds.run_ok (h : s.Holds f r) (hok : (s.run db op).2.result f = .ok ()) :
    s.Holds ((s.run db op).2.after f) (TwoSlot.put seqModulus r (s.run db op).1) := by
  obtain ⟨hc, hf⟩ := run_result hok
  obtain ⟨r', hr', he⟩ := h.run op none (trivial : s.FaultRejected f (s.run db op).1 none)
  cases he with
  | refused hdb =>
    rw [hdb] at hc
    exact absurd hc.symm (counter_succ_ne db.counter)
  | inMemory _ hn => exact absurd hf hn
  | wrote _ _ hwh =>
    rw [← hwh rfl]
    exact hr'

theorem Kept.run (h : s.Kept f db carried) (hw : s.WriteSound f db op fault)
    (hop : InsertsFresh carried op) :
    s.Kept (flashAfter (s.run db op).2 fault f) (s.run db op).1 carried := by
  obtain ⟨hs, hcr⟩ := hw
  obtain ⟨r, hr, hld, hold⟩ := h.flash
  obtain ⟨r', hr', he⟩ := hr.run op fault hcr
  have hc := h.memory.run s hop
  refine ⟨hc, r', hr', he.leads hld hs, ?_⟩
  intro sequence newest hlo
  rcases he.load hld hs with hsm | hn
  · exact hold sequence newest (hsm ▸ hlo)
  · rw [hlo] at hn
    obtain rfl := Option.some.inj hn
    exact hc

/-- A whole write covers what is carried from now on. -/
theorem Kept.run_ok (h : s.Kept f db carried) {carried' : List (List UInt8 × Nat)}
    (hs : level db + 1 < seqModulus) (hok : (s.run db op).2.result f = .ok ())
    (hc : Covers carried' (s.run db op).1) :
    s.Kept ((s.run db op).2.after f) (s.run db op).1 carried' := by
  have hlv := level_succ hs (run_result hok).1
  obtain ⟨r, hr, hld, -⟩ := h.flash
  refine ⟨hc, _, hr.run_ok hok, hld.put (by omega) hs, ?_⟩
  intro sequence newest hl
  rw [TwoSlot.load_put _ hld.seqLe hs] at hl
  obtain ⟨-, rfl⟩ := Prod.mk.inj (Option.some.inj hl)
  exact hc

/-! ## Signing -/

theorem sealedStore_next_store (s : SealedCredentialStore) (f : Flash) (db : Database)
    (id : List UInt8) (fault : Option Nat) :
    ((sealedStore s).nextSignCount fault (f, db) id).2 =
      (flashAfter (s.run db (.nextSignCount id)).2 fault f, (s.run db (.nextSignCount id)).1) := by
  have ho : (s.run db (.nextSignCount id)).2.ops f = (s.nextSignCount db id).2.ops f :=
    Prog.ops_forget _ f
  rw [flashAfter_of_ops ho]
  cases fault with
  | none => rfl
  | some n => rfl

/-- A counter is returned exactly when the whole database was written. -/
theorem sealedStore_next_some :
    ((sealedStore s).nextSignCount fault (f, db) id).1 = some count ↔
      fault = none ∧ (∃ cache, db.cache.raise id = some (count, cache)) ∧
        (s.run db (.nextSignCount id)).1.Fits s.cbor := by
  rcases fault with _ | n
  swap
  · exact iff_of_false nofun nofun
  rw [and_iff_right rfl]
  change ((s.nextSignCount db id).2.result f).toOption = some count ↔ _
  unfold SealedCredentialStore.run nextSignCount
  rcases hrs : db.cache.raise id with _ | ⟨count', cache⟩
  · exact iff_of_false nofun nofun
  simp only [hrs]
  have hfl := s.flush_result { db with cache } f
  split at hfl
  · next hf =>
    rw [Prog.result_bind_ok hfl, and_iff_left hf]
    simp [Except.toOption]
  · next hf =>
    rw [Prog.result_bind_error hfl]
    exact iff_of_false nofun fun h => hf h.2

/-- A counter that is returned is above every carried one and may be carried. -/
theorem Kept.sign (h : s.Kept f db carried) (hw : s.WriteSound f db (.nextSignCount id) fault)
    (hm : BelowMax db id)
    (hcn : ((sealedStore s).nextSignCount fault (f, db) id).1 = some count) :
    s.Kept ((sealedStore s).nextSignCount fault (f, db) id).2.1
        ((sealedStore s).nextSignCount fault (f, db) id).2.2 (carried ++ [(id, count.toNat)]) ∧
      ∀ x ∈ carried, x.1 = id → x.2 < count.toNat := by
  obtain ⟨rfl, ⟨cache, hrs⟩, hf⟩ := sealedStore_next_some.mp hcn
  obtain ⟨hv, hlt⟩ := h.memory.sign s hrs hm
  refine ⟨?_, hlt⟩
  rw [sealedStore_next_store]
  -- a credential that was found is written
  have hc : (s.run db (.nextSignCount id)).1.counter = db.counter + 1 := by
    simp only [SealedCredentialStore.run, nextSignCount, hrs, flush]
  exact h.run_ok hw.1 (run_result_iff.mpr ⟨hc, hf⟩) hv

/-! ## Every run -/

def Increasing (carried : List (List UInt8 × Nat)) : Prop :=
  carried.Pairwise fun a b => a.1 = b.1 → a.2 < b.2

theorem Increasing.append (h : Increasing carried) {count : Nat}
    (hlt : ∀ x ∈ carried, x.1 = id → x.2 < count) :
    Increasing (carried ++ [(id, count)]) := by
  refine List.pairwise_append.mpr ⟨h, List.pairwise_singleton _ _, ?_⟩
  intro a ha b hb
  obtain rfl := List.mem_singleton.mp hb
  exact hlt a ha

/-- What every event keeps: the store is open, and memory and flash cover what was carried. -/
structure Counted (s : SealedCredentialStore) (x : CountState) : Prop where
  kept : ∃ db, x.memory = some db ∧ s.Kept x.flash db x.carried
  increasing : Increasing x.carried

theorem authDataCounter_eq (hash : FixedBytes 32) (flags : UInt8) (count : UInt32) :
    authDataCounter (hash.val ++ [flags] ++ toBE 4 count.toNat) = count.toNat := by
  have hdr : (hash.val ++ [flags] ++ toBE 4 count.toNat).drop 33 = toBE 4 count.toNat :=
    List.drop_left' (by simp [hash.property])
  rw [authDataCounter, hdr, List.take_of_length_le (by simp)]
  exact ofBE_toBE count.toNat_lt

theorem u2fCounter_eq (count : UInt32) (signature : List UInt8) :
    u2fCounter ([0x01] ++ toBE 4 count.toNat ++ signature) = count.toNat := by
  have htk : ((toBE 4 count.toNat) ++ signature).take 4 = toBE 4 count.toNat :=
    List.take_left' (by simp)
  show ofBE (((toBE 4 count.toNat) ++ signature).take 4) = _
  rw [htk]
  exact ofBE_toBE count.toNat_lt

variable {K : Crypto} {x : CountState}

/-- Counting for a credential, whether its counter is carried or not. -/
theorem Kept.next (h : s.Kept f db carried) (hw : s.WriteSound f db (.nextSignCount id) fault) :
    s.Kept ((sealedStore s).nextSignCount fault (f, db) id).2.1
      ((sealedStore s).nextSignCount fault (f, db) id).2.2 carried := by
  rw [sealedStore_next_store]
  exact h.run hw trivial

theorem Counted.assertion (h : s.Counted x) {id rpId : List UInt8} {hash : FixedBytes 32}
    {uv : Bool} (hx : s.EventSound x (.assertion id rpId hash uv fault)) :
    s.Counted (countStep K s x (.assertion id rpId hash uv fault)) := by
  obtain ⟨db, hdb, hkp⟩ := h.kept
  obtain ⟨hw, hm⟩ := hx db hdb
  simp only [countStep, hdb, signAssertion_store]
  obtain ⟨e, he, -⟩ | ⟨c, count, response, hg, hcn, hok, hid, hah, -⟩ :=
    signAssertion_cases K (sealedStore s) fault (x.flash, db) id rpId hash uv
  · rw [he]
    refine ⟨⟨_, rfl, ?_⟩, by simpa [assertionCarries] using h.increasing⟩
    simp only [assertionCarries, List.append_nil]
    rcases hg : (sealedStore s).get (x.flash, db) id with _ | c
    · exact hkp
    · rw [← (sealedStore_lawful s).id_of_get hg] at hw
      exact hkp.next hw
  · obtain rfl := (sealedStore_lawful s).id_of_get hg
    obtain ⟨hkp', hlt⟩ := hkp.sign hw hm hcn
    rw [hok, hg]
    simp only [assertionCarries, hid, hah, authDataCounter_eq]
    exact ⟨⟨_, rfl, hkp'⟩, h.increasing.append hlt⟩

theorem Counted.u2f (h : s.Counted x) {message : List UInt8} {up : Bool}
    (hx : s.EventSound x (.u2f message up fault)) :
    s.Counted (countStep K s x (.u2f message up fault)) := by
  obtain ⟨db, hdb, hkp⟩ := h.kept
  simp only [countStep, hdb]
  obtain ⟨hup, request, c, htg, hg, -, heq⟩ | ⟨hst, hno⟩ :=
    u2fHandle_cases (K := K) fault message (x.flash, db) up
  · obtain ⟨hw, hm, hft⟩ := hx db hdb hup _ htg
    simp only [heq, u2fSign_store]
    rcases hs : (u2fSign K (sealedStore s) fault (x.flash, db) c request).signed with _ | y
    · simp only [u2fCarries, hs, List.append_nil]
      exact ⟨⟨_, rfl, hkp.next hw⟩, h.increasing⟩
    obtain ⟨cache, hrs⟩ := raise_of_get hg
    have hcn := (sealedStore_next_some (f := x.flash)).mpr ⟨hft.1, ⟨cache, hrs⟩, hft.2⟩
    obtain ⟨counter, signature, rfl, rfl, hdt⟩ := u2fSign_signed hs
    obtain ⟨hkp', hlt⟩ := hkp.sign hw hm hcn
    rw [hcn] at hdt
    simp only [u2fCarries, hs, hdt, u2fCounter_eq, (sealedStore_lawful s).id_of_get hg]
    exact ⟨⟨_, rfl, hkp'⟩, h.increasing.append hlt⟩
  · simp only [hst, u2fCarries, hno, List.append_nil]
    exact ⟨⟨db, rfl, hkp⟩, h.increasing⟩

theorem Counted.step (h : s.Counted x) {e : CountEvent} (hx : s.EventSound x e) :
    s.Counted (countStep K s x e) := by
  cases e with
  | write op fault =>
    obtain ⟨db, hdb, hkp⟩ := h.kept
    obtain ⟨hw, hop⟩ := hx db hdb
    simp only [countStep, hdb]
    exact ⟨⟨_, rfl, hkp.run hw hop⟩, h.increasing⟩
  | assertion id rpId hash uv fault => exact h.assertion hx
  | u2f message up fault => exact h.u2f hx
  | reopen =>
    obtain ⟨db, -, hkp⟩ := h.kept
    obtain ⟨db', hon, hkp'⟩ := hkp.reopen
    exact ⟨⟨db', by simp only [countStep, hon, Except.toOption], hkp'⟩, h.increasing⟩

/-- In every run whose events are sound, the counters carried by the responses that contain a
  signature of one credential increase strictly. -/
theorem carried_increasing (K : Crypto) (s : SealedCredentialStore) (es : List CountEvent)
    (hes : Runs.Every (countStep K s) s.EventSound countStart es) :
    (Runs.run (countStep K s) countStart es).carried.Pairwise
      fun a b => a.1 = b.1 → a.2 < b.2 := by
  have hstart : s.Counted countStart := ⟨⟨_, rfl, Kept.start s⟩, List.Pairwise.nil⟩
  exact (Runs.Every.keep (fun _ _ h hx => h.step hx) hstart hes).increasing

/-- The store on the first two erase sectors. -/
def sectorStore : SealedCredentialStore := ⟨sectorPair 0, Aead.plain, Wire.Cbor.heads⟩

/-- An assertion with the credential of `example.com`. -/
def exampleSign (fault : Option Nat) : CountEvent :=
  .assertion exampleCredential.id.val exampleCredential.rpId.val exampleClientDataHash false fault

/-- An assertion, one whose flush fails after three payload bytes, a restart, and a U2F
  signature. -/
def failedFlushRun : List CountEvent :=
  [.write (.insert exampleCredential) none, exampleSign none, exampleSign (some 4115), .reopen,
    .u2f (exampleMessage exampleRpHash.val) true none]

theorem carried_increasing_failedFlushRun :
    (Runs.run (countStep exampleCrypto sectorStore) countStart failedFlushRun).carried =
        [(exampleCredential.id.val, 1), (exampleCredential.id.val, 2)] ∧
      (Runs.run (countStep exampleCrypto sectorStore) countStart failedFlushRun).carried.Pairwise
        fun a b => a.1 = b.1 → a.2 < b.2 := by
  -- One evaluation of the run gives both facts.
  have hrun : Runs.Every (countStep exampleCrypto sectorStore) sectorStore.EventSound countStart
        failedFlushRun ∧
      (Runs.run (countStep exampleCrypto sectorStore) countStart failedFlushRun).carried =
        [(exampleCredential.id.val, 1), (exampleCredential.id.val, 2)] := by decide +kernel
  exact ⟨hrun.2, carried_increasing exampleCrypto sectorStore failedFlushRun hrun.1⟩

/-- A U2F signature whose flush fails carries the counter zero, after an assertion that carried
  one. -/
theorem u2f_counter_falls :
    (Runs.run (countStep exampleCrypto sectorStore) countStart
      [.write (.insert exampleCredential) none, exampleSign none,
        .u2f (exampleMessage exampleRpHash.val) true (some 0)]).carried =
      [(exampleCredential.id.val, 1), (exampleCredential.id.val, 0)] := by
  decide +kernel

/-- At the upper bound the same counter is returned again. -/
theorem raise_at_max (hg : cache.get id = some c) (hm : c.signCount = 0xFFFFFFFF) :
    ∃ cache', cache.raise id = some (0xFFFFFFFF, cache') := by
  have hrs := raise_of_get hg
  rwa [hm] at hrs

end SealedCredentialStore

end AegisToken
