/-
  What `authenticatorReset` leaves (aegis-core authenticator.rs `reset`, credential_store.rs).
  A reset is two writes of the sealed store: one without the credentials, whose error is dropped,
  and one without the PIN; then the token is dropped. A run is any sequence of operations, each
  whole or failing at some byte, and of restarts. While the database number has not wrapped,
  no record has a higher number than the database in memory (`Covered`), so what a reset that
  returns `Ok` has written is what is opened. While the slot number has not wrapped either, a
  failing write leaves what could be opened before or the database it writes (`Led`), so a reset
  that is cut leaves one of three states: `reset_final`.
-/
import AegisToken.Core.CredentialPersistence
import AegisToken.Core.NewPin
import AegisToken.Firmware.Enumeration

namespace AegisToken.SealedCredentialStore
open FlashProg TwoSlot

/-! ## Memory and flash -/

section Writes
variable {s : SealedCredentialStore} {f : Flash} {db : Database} {op : CredentialOp}
  {fault : Option Nat}

/-- No record on the flash has a higher number than the database in memory. -/
def Covered (s : SealedCredentialStore) (f : Flash) (db : Database) : Prop :=
  ∃ r, s.Holds f r ∧ ∀ db', Mem r db' → level db' ≤ level db

/-- The newest record has the highest number, which is at most that of the database in memory. -/
def Led (s : SealedCredentialStore) (f : Flash) (db : Database) : Prop :=
  ∃ r, s.Holds f r ∧ Leads level r (level db)

theorem Covered.start (s : SealedCredentialStore) : s.Covered blank Database.initial :=
  ⟨_, Holds.blank s, fun db hdb => absurd hdb (not_mem_empty db)⟩

theorem Led.start (s : SealedCredentialStore) : s.Led blank Database.initial :=
  ⟨_, Holds.blank s, Leads.empty _ _⟩

theorem Covered.run (h : s.Covered f db) (hlv : level db + 1 < 2 ^ 64)
    (hcr : s.FaultRejected f (s.run db op).1 fault) :
    s.Covered (flashAfter (s.run db op).2 fault f) (s.run db op).1 := by
  obtain ⟨r, hr, hle⟩ := h
  obtain ⟨r', hr', he⟩ := hr.run op fault hcr
  refine ⟨r', hr', fun db' hdb' => ?_⟩
  cases he with
  | refused hdb =>
    rw [hdb]
    exact hle db' hdb'
  | inMemory hc hf =>
    have hnx := level_next hlv hc
    have := hle db' hdb'
    omega
  | wrote hc htr hwh =>
    have hnx := level_next hlv hc
    rcases htr.mem hdb' with rfl | hold
    · exact Nat.le_refl _
    · have := hle db' hold
      omega

theorem Led.run (h : s.Led f db) (hlv : level db + 1 < seqModulus)
    (hc : s.FaultRejected f (s.run db op).1 fault) :
    s.Led (flashAfter (s.run db op).2 fault f) (s.run db op).1 := by
  obtain ⟨r, hr, hld⟩ := h
  obtain ⟨r', hr', he⟩ := hr.run op fault hc
  exact ⟨r', hr', he.leads hld hlv⟩

/-- A store that opens has the highest number. -/
theorem Covered.openDb (h : s.Covered f db) : ∃ db', s.openDb f = .ok db' ∧ s.Covered f db' := by
  obtain ⟨r, hr, -⟩ := h
  rcases hr.openDb with ⟨hon, hno⟩ | ⟨db', hon, -, hm⟩
  · exact ⟨_, hon, r, hr, fun db' hdb' => absurd hdb' (hno db')⟩
  · exact ⟨db', hon, r, hr, fun x hx => hm x hx⟩

theorem Led.openDb (h : s.Led f db) : ∃ db', s.openDb f = .ok db' ∧ s.Led f db' := by
  obtain ⟨r, hr, hld⟩ := h
  exact ⟨_, hr.openDb_newest hld, r, hr, leads_opened hld⟩

/-- A whole write is what is opened. -/
theorem Covered.openDb_whole (h : s.Covered f db) (hlv : level db + 1 < 2 ^ 64)
    (hok : (s.run db op).2.result f = .ok ()) :
    s.openDb ((s.run db op).2.after f) = .ok (s.run db op).1 := by
  have hnx := level_next hlv (run_result hok).1
  obtain ⟨r, hr, hle⟩ := h
  have hwr := mem_put_self seqModulus r (s.run db op).1
  rcases (hr.run_ok hok).openDb with ⟨-, hno⟩ | ⟨db', hon, hme, hm⟩
  · exact absurd hwr (hno _)
  have hge : level (s.run db op).1 ≤ level db' := hm _ hwr
  rcases (Torn.landed : Torn seqModulus r _ _).mem hme with rfl | hold
  · exact hon
  · have := hle db' hold
    omega

/-- A write leaves what could be opened before, or the database it writes. -/
theorem Led.openDb_run (h : s.Led f db) (hlv : level db + 1 < seqModulus)
    (hc : s.FaultRejected f (s.run db op).1 fault) :
    s.openDb (flashAfter (s.run db op).2 fault f) = s.openDb f ∨
      s.openDb (flashAfter (s.run db op).2 fault f) = .ok (s.run db op).1 := by
  obtain ⟨r, hr, hld⟩ := h
  obtain ⟨r', hr', he⟩ := hr.run op fault hc
  rw [hr.openDb_newest hld, hr'.openDb_newest (he.leads hld hlv)]
  rcases he.load hld hlv with hlo | hlo
  · rw [hlo]
    exact .inl rfl
  · rw [hlo]
    exact .inr rfl

end Writes

/-! ## Runs -/

/-- An operation that is whole or fails at some byte, and a restart. -/
inductive StoreEvent where
  | write (op : CredentialOp) (fault : Option Nat)
  | restart

/-- One event. A store that did not open serves nothing. -/
def storeStep (s : SealedCredentialStore) (x : PersistState) : StoreEvent → PersistState
  | .write op fault =>
    match x.memory with
    | some db => s.perform x db op fault
    | none => x
  | .restart => s.restart x

/-- The number of a write stays below the limit, and the CRC-32 rejects what a fault leaves. -/
def StoreSound (s : SealedCredentialStore) (limit : Nat) (x : PersistState) : StoreEvent → Prop
  | .write op fault => ∀ db ∈ x.memory,
    level db + 1 < limit ∧ s.FaultRejected x.flash (s.run db op).1 fault
  | .restart => True

instance (s : SealedCredentialStore) (limit : Nat) (x : PersistState) :
    (e : StoreEvent) → Decidable (s.StoreSound limit x e)
  | .write .. => inferInstanceAs (Decidable (∀ db ∈ x.memory, _))
  | .restart => inferInstanceAs (Decidable True)

/-- What writes and openings keep of memory and flash, a run keeps. -/
theorem storeRun_keep {s : SealedCredentialStore} {limit : Nat} {I : Flash → Database → Prop}
    (hst : I blank Database.initial)
    (hr : ∀ {f db op fault}, I f db → level db + 1 < limit →
      s.FaultRejected f (s.run db op).1 fault →
      I (flashAfter (s.run db op).2 fault f) (s.run db op).1)
    (hon : ∀ {f db}, I f db → ∃ db', s.openDb f = .ok db' ∧ I f db') {es : List StoreEvent}
    (hes : Runs.Every s.storeStep (s.StoreSound limit) persistStart es) :
    ∃ db, (Runs.run s.storeStep persistStart es).memory = some db ∧
      I (Runs.run s.storeStep persistStart es).flash db := by
  refine Runs.Every.keep (I := fun x : PersistState => ∃ db, x.memory = some db ∧ I x.flash db)
    ?_ ⟨_, rfl, hst⟩ hes
  rintro x e ⟨db, hm, hi⟩ hsn
  cases e with
  | write op fault =>
    obtain ⟨hlv, hc⟩ := hsn db hm
    simp only [storeStep, hm]
    exact ⟨_, rfl, hr hi hlv hc⟩
  | restart =>
    obtain ⟨db', hdb', hi'⟩ := hon hi
    refine ⟨db', ?_, hi'⟩
    simp only [storeStep, SealedCredentialStore.restart, hdb']
    rfl

theorem covered_of_run {s : SealedCredentialStore} {es : List StoreEvent}
    (hes : Runs.Every s.storeStep (s.StoreSound (2 ^ 64)) persistStart es) :
    ∃ db, (Runs.run s.storeStep persistStart es).memory = some db ∧
      s.Covered (Runs.run s.storeStep persistStart es).flash db :=
  storeRun_keep (Covered.start s) Covered.run Covered.openDb hes

theorem led_of_run {s : SealedCredentialStore} {es : List StoreEvent}
    (hes : Runs.Every s.storeStep (s.StoreSound seqModulus) persistStart es) :
    ∃ db, (Runs.run s.storeStep persistStart es).memory = some db ∧
      s.Led (Runs.run s.storeStep persistStart es).flash db :=
  storeRun_keep (Led.start s) Led.run Led.openDb hes

end AegisToken.SealedCredentialStore

namespace AegisToken.Ctap2
open FlashProg SealedCredentialStore ClientPin

/-! ## The store of the session -/

/-- The sealed store on its flash, and what goes wrong in its next writes. -/
structure FaultyStore where
  flash : Flash
  db : Database
  faults : List (Option Nat)

/-- A write takes the next fault; one that fails at some byte returns an error. -/
def FaultyStore.write (s : SealedCredentialStore) (x : FaultyStore) (op : CredentialOp) :
    Except CoreError Unit × FaultyStore :=
  let fault := x.faults.headD none
  (if fault = none then (s.run x.db op).2.result x.flash else .error .storageError,
    ⟨flashAfter (s.run x.db op).2 fault x.flash, (s.run x.db op).1, x.faults.tail⟩)

/-- `SealedCredentialStore` as the store of a session. `clear` drops an error. -/
def sealedFido (s : SealedCredentialStore) : FidoStore FaultyStore (Option Nat) where
  credentials :=
    { get := fun x id => x.db.cache.get id
      list := fun x => x.db.cache.val
      nextSignCount := fun fault x id =>
        let (count, flash, db) := (sealedStore s).nextSignCount fault (x.flash, x.db) id
        (count, { x with flash, db }) }
  pin :=
    { pinHash := fun x => x.db.pinHash
      pinRetries := fun x => x.db.pinRetries
      setPinHash := fun x hash => x.write s (.setPin hash)
      setPinRetries := fun x retries => x.write s (.setPinRetries retries) }
  remove x id := x.write s (.remove id)
  clear x := (x.write s .clear).2
  clearPinState x := x.write s .clearPin

/-- The two writes of a reset, with their faults. -/
def resetEvents (faults : List (Option Nat)) : List StoreEvent :=
  [.write .clear (faults.headD none), .write .clearPin (faults.tail.headD none)]

/-- The store of the session is the one after a run. -/
structure Reached (s : SealedCredentialStore) (es : List StoreEvent) (x : FaultyStore) : Prop where
  flash : (Runs.run s.storeStep persistStart es).flash = x.flash
  memory : (Runs.run s.storeStep persistStart es).memory = some x.db

theorem Reached.faults {s : SealedCredentialStore} {es : List StoreEvent} {x : FaultyStore}
    (h : Reached s es x) (faults : List (Option Nat)) : Reached s es { x with faults } :=
  ⟨h.flash, h.memory⟩

/-! ## The reset -/

/-- What a reset leaves for good: no credential and no PIN, in memory and on the flash; a token from
  before it is never accepted again, and a pending assertion is not signed. -/
structure Final (s : SealedCredentialStore) (D : Device FaultyStore (Option Nat))
    (y : Session FaultyStore) : Prop where
  credentials : y.store.db.cache = Cache.empty
  pinHash : y.store.db.pinHash = none
  pinRetries : y.store.db.pinRetries = 8
  reopened : s.openDb y.store.flash = .ok y.store.db
  tokens : ∀ (calls : List PinCall) (auth : TokenRequest) (param : List UInt8),
    auth.param = some param →
    (authorize D.crypto D.store.pin
      (Runs.run (step D.crypto D.store.pin) ⟨y.clientPin, y.store⟩ calls).client
      (Runs.run (step D.crypto D.store.pin) ⟨y.clientPin, y.store⟩ calls).state auth).1 =
        .ok true →
    ∃ grant token, .getPinToken grant token ∈ calls ∧ IsMacPrefix D.crypto token auth.message param
  assertions : ∀ channel fault, ∃ e, (handleGetNextAssertion D channel fault y).1 = .status e

/-- What a reset that is cut may leave on the flash: what was there, no credentials under the PIN
  in memory, or nothing. -/
def CutTo (s : SealedCredentialStore) (x : FaultyStore) (f : Flash) : Prop :=
  s.openDb f = s.openDb x.flash ∨ ∃ db, s.openDb f = .ok db ∧ db.cache = Cache.empty ∧
    (db.pinHash = x.db.pinHash ∧ db.pinRetries = x.db.pinRetries ∨
      db.pinHash = none ∧ db.pinRetries = 8)

section Reset
variable {s : SealedCredentialStore} {D : Device FaultyStore (Option Nat)}
  {x : Session FaultyStore}

/-- A reset with user presence is the two writes; it returns `Ok` if the second one does, and drops
  the token then. -/
theorem handleReset_writes (hD : D.store = sealedFido s) :
    (handleReset D true x).2.store = ((x.store.write s .clear).2.write s .clearPin).2 ∧
    ((handleReset D true x).1 = .status .ok ↔
      ((x.store.write s .clear).2.write s .clearPin).1 = .ok ()) ∧
    ((handleReset D true x).1 = .status .ok →
      (handleReset D true x).2.clientPin = x.clientPin.invalidateToken) := by
  have hwr : D.store.clearPinState (D.store.clear x.store) =
      (x.store.write s .clear).2.write s .clearPin := by
    rw [hD]
    rfl
  rw [handleReset, hwr]
  rcases (x.store.write s .clear).2.write s .clearPin with ⟨e | ⟨⟩, store⟩
  · exact ⟨rfl, ⟨nofun, nofun⟩, nofun⟩
  · exact ⟨rfl, ⟨fun _ => rfl, fun _ => rfl⟩, fun _ => rfl⟩

theorem handleReset_ok (hD : D.store = sealedFido s) (h : s.FlushesSucceed)
    (hf : x.store.faults = []) : (handleReset D true x).1 = .status .ok := by
  have hno : (x.store.write s .clear).2.faults.headD none = none := by
    show x.store.faults.tail.headD none = none
    rw [hf]
    rfl
  refine (handleReset_writes hD).2.1.mpr ?_
  rw [FaultyStore.write, if_pos hno]
  exact h _ _

theorem getNextAssertion_empty (hD : D.store = sealedFido s) {y : Session FaultyStore}
    (hem : y.store.db.cache = Cache.empty) (channel : UInt32) (fault : Option Nat) :
    ∃ e, (handleGetNextAssertion D channel fault y).1 = .status e := by
  have hg : ∀ id, D.store.credentials.get y.store id = none := by
    intro id
    rw [hD]
    show y.store.db.cache.get id = none
    rw [hem]
    rfl
  unfold handleGetNextAssertion FidoSession.getNextAssertion
  rcases y.assertion with _ | pending
  · exact ⟨.noCredentials, rfl⟩
  rcases hnx : pending.next channel with _ | ⟨id, pending'⟩
  · simp only [hnx]
    exact ⟨.noCredentials, rfl⟩
  · simp only [hnx, signAssertion, hg]
    exact ⟨.invalidCredential, rfl⟩

section Run
variable {es : List StoreEvent} {y : FaultyStore}

/-- A write of the session is the same event of a run. -/
theorem Reached.write (hy : Reached s es y) (op : CredentialOp) :
    Reached s (es ++ [.write op (y.faults.headD none)]) (y.write s op).2 := by
  have hr : Runs.run s.storeStep persistStart (es ++ [.write op (y.faults.headD none)]) =
      s.perform (Runs.run s.storeStep persistStart es) y.db op (y.faults.headD none) := by
    rw [Runs.run_append, Runs.run_cons, Runs.run_nil, storeStep, hy.memory]
  constructor
  · rw [hr]
    exact congrArg (flashAfter (s.run y.db op).2 (y.faults.headD none)) hy.flash
  · rw [hr]
    rfl

theorem Reached.sound (hy : Reached s es y) {limit : Nat} {op : CredentialOp} {fault : Option Nat}
    (h : s.StoreSound limit (Runs.run s.storeStep persistStart es) (.write op fault)) :
    level y.db + 1 < limit ∧ s.FaultRejected y.flash (s.run y.db op).1 fault := by
  have hsn := h y.db hy.memory
  rw [hy.flash] at hsn
  exact hsn

theorem Reached.covered (hy : Reached s es y)
    (hes : Runs.Every s.storeStep (s.StoreSound (2 ^ 64)) persistStart es) :
    s.Covered y.flash y.db := by
  obtain ⟨db, hm, hc⟩ := covered_of_run hes
  rw [hy.memory] at hm
  rw [hy.flash] at hc
  exact Option.some.inj hm ▸ hc

theorem Reached.led (hy : Reached s es y)
    (hes : Runs.Every s.storeStep (s.StoreSound seqModulus) persistStart es) :
    s.Led y.flash y.db := by
  obtain ⟨db, hm, hl⟩ := led_of_run hes
  rw [hy.memory] at hm
  rw [hy.flash] at hl
  exact Option.some.inj hm ▸ hl

/-- The events of a reset after a run, one by one. -/
theorem every_resetEvents {limit : Nat}
    (h : Runs.Every s.storeStep (s.StoreSound limit) persistStart (es ++ resetEvents y.faults)) :
    Runs.Every s.storeStep (s.StoreSound limit) persistStart es ∧
    s.StoreSound limit (Runs.run s.storeStep persistStart es)
      (.write .clear (y.faults.headD none)) ∧
    Runs.Every s.storeStep (s.StoreSound limit) persistStart
      (es ++ [.write .clear (y.faults.headD none)]) ∧
    s.StoreSound limit
      (Runs.run s.storeStep persistStart (es ++ [.write .clear (y.faults.headD none)]))
      (.write .clearPin (y.faults.tail.headD none)) := by
  have hsp : es ++ resetEvents y.faults = (es ++ [.write .clear (y.faults.headD none)]) ++
        [.write .clearPin (y.faults.tail.headD none)] := by
    rw [List.append_assoc]
    rfl
  rw [hsp] at h
  obtain ⟨hfr, hs⟩ := Runs.every_concat.mp h
  exact ⟨(Runs.every_concat.mp hfr).1, (Runs.every_concat.mp hfr).2, hfr, hs⟩

end Run

theorem reset_ok (hD : D.store = sealedFido s) {es : List StoreEvent} (hx : Reached s es x.store)
    (hes : Runs.Every s.storeStep (s.StoreSound (2 ^ 64)) persistStart
      (es ++ resetEvents x.store.faults))
    (hok : (handleReset D true x).1 = .status .ok) : Final s D (handleReset D true x).2 := by
  obtain ⟨-, -, hfr, hs⟩ := every_resetEvents hes
  have hc := hx.write .clear
  obtain ⟨hst, hr, hcl⟩ := handleReset_writes hD
  have hwr := hr.mp hok
  have hch : (handleReset D true x).2.store.db.cache = Cache.empty := by
    rw [hst]
    rfl
  have hno : (x.store.write s .clear).2.faults.headD none = none := by
    by_contra hfl
    rw [FaultyStore.write, if_neg hfl] at hwr
    cases hwr
  have hwh : (s.run (x.store.write s .clear).2.db .clearPin).2.result
      (x.store.write s .clear).2.flash = .ok () := by
    rw [FaultyStore.write, if_pos hno] at hwr
    exact hwr
  refine ⟨hch, ?_, ?_, ?_, ?_, getNextAssertion_empty hD hch⟩
  · rw [hst]
    rfl
  · rw [hst]
    rfl
  · have hon := (hc.covered hfr).openDb_whole (hc.sound hs).1 hwh
    rw [hst]
    show s.openDb (flashAfter _ _ _) = _
    rw [hno]
    exact hon
  · intro calls auth param hpr hgr
    refine granted_issued ?_ hpr hgr
    rw [hcl hok]
    rfl

/-- What a reset with any faults leaves on the flash, after its first and after its second write. -/
theorem reset_cut (hD : D.store = sealedFido s) {es : List StoreEvent}
    (hx : Reached s es x.store)
    (hes : Runs.Every s.storeStep (s.StoreSound seqModulus) persistStart
      (es ++ resetEvents x.store.faults)) :
    CutTo s x.store (D.store.clear x.store).flash ∧
      CutTo s x.store (handleReset D true x).2.store.flash := by
  obtain ⟨hr, hcl, hfr, hs⟩ := every_resetEvents hes
  have hc := hx.write .clear
  have hp := (hx.led hr).openDb_run (hx.sound hcl).1 (hx.sound hcl).2
  have hon := (hc.led hfr).openDb_run (hc.sound hs).1 (hc.sound hs).2
  have ho : CutTo s x.store (x.store.write s .clear).2.flash := by
    rcases hp with hold | hn
    · exact .inl hold
    · exact .inr ⟨_, hn, rfl, .inl ⟨rfl, rfl⟩⟩
  have ht : CutTo s x.store ((x.store.write s .clear).2.write s .clearPin).2.flash := by
    rcases hon with hkp | hn
    · unfold CutTo
      rw [show s.openDb ((x.store.write s .clear).2.write s .clearPin).2.flash = _ from hkp]
      exact ho
    · exact .inr ⟨_, hn, rfl, .inr ⟨rfl, rfl⟩⟩
  rw [(handleReset_writes hD).1, hD]
  exact ⟨ho, ht⟩

end Reset

/-- A reset without user presence changes nothing. One that returns `Ok` is final, and one that is
  cut in its first or second write, or whose writes fail, leaves one of three states on the flash:
  the one before, no credentials under the old PIN, or the empty one. -/
theorem reset_final (s : SealedCredentialStore) (D : Device FaultyStore (Option Nat))
    (hD : D.store = sealedFido s) (es : List StoreEvent) (x : Session FaultyStore)
    (hx : Reached s es x.store) :
    handleReset D false x = (.status .upRequired, x) ∧
    (Runs.Every s.storeStep (s.StoreSound (2 ^ 64)) persistStart
        (es ++ resetEvents x.store.faults) →
      (handleReset D true x).1 = .status .ok → Final s D (handleReset D true x).2) ∧
    (Runs.Every s.storeStep (s.StoreSound seqModulus) persistStart
        (es ++ resetEvents x.store.faults) →
      CutTo s x.store (D.store.clear x.store).flash ∧
        CutTo s x.store (handleReset D true x).2.store.flash) :=
  ⟨rfl, fun hes hok => reset_ok hD hx hes hok, fun hes => reset_cut hD hx hes⟩

def resetDevice : Device FaultyStore (Option Nat) where
  crypto := enumerationCrypto
  store := sealedFido sectorStore
  cosePublicKey _ := none
  makeCredential _ _ _ _ s := (.error .other, s)

def blankStore : FaultyStore := ⟨blank, Database.initial, []⟩

/-- A session on a store with a credential and a PIN, and with a token. -/
def enrolledSession : Session FaultyStore :=
  { Session.new ((blankStore.write sectorStore (.insert exampleCredential)).2.write sectorStore
      (.setPin examplePinHash)).2 with clientPin := tokenHolder }

def enrolledRun : List StoreEvent :=
  [.write (.insert exampleCredential) none, .write (.setPin examplePinHash) none]

theorem enrolledSession_reached : Reached sectorStore enrolledRun enrolledSession.store := by
  have hst : Reached sectorStore [] blankStore := ⟨rfl, rfl⟩
  exact (hst.write (.insert exampleCredential)).write (.setPin examplePinHash)

/-- The same session, with a failure of the power in the second write that follows. -/
def cutSession : Session FaultyStore :=
  { enrolledSession with store.faults := [none, some 4100] }

theorem reset_final_enrolledSession :
    enrolledSession.store.db.pinHash = some examplePinHash ∧
      Final sectorStore resetDevice (handleReset resetDevice true enrolledSession).2 ∧
      CutTo sectorStore cutSession.store (handleReset resetDevice true cutSession).2.store.flash := by
  have hsound : Runs.Every sectorStore.storeStep (sectorStore.StoreSound (2 ^ 64)) persistStart
      (enrolledRun ++ resetEvents enrolledSession.store.faults) := by
    decide +kernel
  have hcut : Runs.Every sectorStore.storeStep (sectorStore.StoreSound seqModulus) persistStart
      (enrolledRun ++ resetEvents cutSession.store.faults) := by
    decide +kernel
  have hflush : sectorStore.FlushesSucceed := flushesSucceed_of_minimal Wire.Cbor.heads_minimal
  have hok : (handleReset resetDevice true enrolledSession).1 = .status .ok :=
    handleReset_ok rfl hflush rfl
  have hreached := enrolledSession_reached
  exact ⟨rfl, (reset_final _ resetDevice rfl enrolledRun _ hreached).2.1 hsound hok,
    ((reset_final _ resetDevice rfl enrolledRun cutSession (hreached.faults _)).2.2 hcut).2⟩

/-- A database with a PIN, the last but one before the number wraps. -/
def lateDatabase : Database := { lastDatabase with counter := 0xFFFFFFFFFFFFFFFE }

/-- A session on the store that was opened on the flash with it. -/
def lateSession : Session FaultyStore :=
  Session.new ⟨(sectorStore.writeDb lateDatabase).after blank, lateDatabase, []⟩

/-- The reset returns `Ok` and no PIN is left in memory, but the number of its last database has
  wrapped, and reopening gives the PIN. -/
theorem pin_survives_reset :
    (sectorStore.openDb lateSession.store.flash).toOption = some lateDatabase ∧
      (handleReset resetDevice true lateSession).1 = .status .ok ∧
      (handleReset resetDevice true lateSession).2.store.db.pinHash = none ∧
      (sectorStore.openDb (handleReset resetDevice true lateSession).2.store.flash).toOption.map
        Database.pinHash = some (some examplePinHash) := by
  decide +kernel

end AegisToken.Ctap2
