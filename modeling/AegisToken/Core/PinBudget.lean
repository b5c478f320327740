import AegisToken.Core.PinGuesses
import AegisToken.Core.SignCount

/-
  The PIN guess budget over whole runs of `clientPIN` requests on a sealed credential store.
  Between any two requests the store may be reopened from the flash, other requests may change
  credentials, and a reset may clear the PIN. `wrong` counts the wrong guesses since the last right
  one, `flushes` the databases written.
  While every flush succeeds the database in memory is the newest one on the flash (`Stored`), and
  the retries left and the wrong guesses add up to at most eight (`InBudget`); both come from what
  one call can do (`ClientPin.step_effect`).
  The store numbers its databases with 64 bits. The number wraps, and the database written then
  is not the one that is opened (`retry_regained_after_wrap`).
-/

namespace AegisToken
open ByteCodec FlashProg

namespace SealedCredentialStore

/-! ## The store as a PIN state -/

/-- The store on its flash. `flushed` says that every flush so far has succeeded. -/
structure PinFlash where
  flash : Flash
  db : Database
  flushed : Bool
  flushes : Nat

/-- Run an operation. One that is refused before the flush leaves the database as it is. -/
def commit (s : SealedCredentialStore) (x : PinFlash) (op : CredentialOp) :
    Except CoreError Unit × PinFlash :=
  let result := (s.run x.db op).2.result x.flash
  (result,
    { flash := (s.run x.db op).2.after x.flash
      db := (s.run x.db op).1
      flushed := x.flushed && (result.isOk || decide ((s.run x.db op).1 = x.db))
      flushes := if (s.run x.db op).1 = x.db then x.flushes else x.flushes + 1 })

/-- The implementation of `PinState`. -/
def sealedPin (s : SealedCredentialStore) : PinState PinFlash where
  pinHash x := x.db.pinHash
  pinRetries x := x.db.pinRetries
  setPinHash x hash := s.commit x (.setPin hash)
  setPinRetries x retries := s.commit x (.setPinRetries retries)

/-! ## Runs -/

/-- The operations that requests other than `clientPIN` use: all but those of `PinState`. -/
def CredentialOp.other : CredentialOp → Bool
  | .setPin _ => false
  | .setPinRetries _ => false
  | _ => true

def CredentialOp.clearsPin : CredentialOp → Bool
  | .clearPin => true
  | .reset => true
  | _ => false

/-- The handler, the store, and the wrong guesses since the last right one. There is no database
  in memory when the store did not open. -/
structure BudgetState where
  client : ClientPin
  flash : Flash
  memory : Option Database
  flushed : Bool
  flushes : Nat
  wrong : Nat

/-- The events of a run. Reopening comes with a new handler or without. -/
inductive BudgetEvent where
  | request (call : ClientPin.PinCall)
  | write (op : { op : CredentialOp // op.other = true })
  | reopen (restart : Bool)

def BudgetEvent.clears : BudgetEvent → Bool
  | .write op => op.val.clearsPin
  | _ => false

/-- The handler on the store with a database. -/
def BudgetState.session (x : BudgetState) (db : Database) : ClientPin.PinSession PinFlash :=
  ⟨x.client, x.flash, db, x.flushed, x.flushes⟩

section Runs
variable (K : PinCrypto) (s : SealedCredentialStore)

def budgetGuess (x : BudgetState) : BudgetEvent → Option Bool
  | .request call =>
    x.memory.bind fun db => ClientPin.guess K s.sealedPin (x.session db) call
  | _ => none

/-- The wrong guesses since the last right one, or since the PIN was removed. -/
def tally (x : BudgetState) (e : BudgetEvent) : Nat :=
  match s.budgetGuess K x e with
  | some true => 0
  | some false => x.wrong + 1
  | none => if e.clears then 0 else x.wrong

def budgetMove (x : BudgetState) : BudgetEvent → BudgetState
  | .request call =>
    match x.memory with
    | none => x
    | some db =>
      let y := ClientPin.step K s.sealedPin (x.session db) call
      { x with client := y.client, flash := y.state.flash, memory := some y.state.db,
               flushed := y.state.flushed, flushes := y.state.flushes }
  | .write op =>
    match x.memory with
    | none => x
    | some db =>
      let y := (s.commit (x.session db).state op.val).2
      { x with flash := y.flash, memory := some y.db, flushed := y.flushed, flushes := y.flushes }
  | .reopen restart =>
    { x with client := if restart then ClientPin.new else x.client,
             memory := (s.openDb x.flash).toOption }

def budgetStep (x : BudgetState) (e : BudgetEvent) : BudgetState :=
  { s.budgetMove K x e with wrong := s.tally K x e }

def budgetStart : BudgetState := ⟨ClientPin.new, blank, some Database.initial, true, 0, 0⟩

/-- The retries in the database that opening the store gives. -/
def persistedRetries (x : BudgetState) : Option UInt8 :=
  (s.openDb x.flash).toOption.map Database.pinRetries

end Runs

/-! ## Memory and flash -/

/-- The database in memory is the newest on the flash, or nothing was written yet. -/
structure Stored (s : SealedCredentialStore) (x : PinFlash) : Prop where
  held : ∃ r, s.Holds x.flash r ∧
    (TwoSlot.Mem r x.db ∨ x.db = Database.initial ∧ ∀ db, ¬ TwoSlot.Mem r db) ∧
    ∀ db, TwoSlot.Mem r db → db = x.db ∨ db.counter < x.db.counter
  count : x.db.counter.toNat = x.flushes

section Stored
variable {s : SealedCredentialStore} {x : PinFlash}

theorem Stored.start (s : SealedCredentialStore) :
    s.Stored ⟨blank, Database.initial, true, 0⟩ where
  held := ⟨TwoSlot.Reg.empty, Holds.blank s, .inr ⟨rfl, TwoSlot.not_mem_empty⟩,
    fun db hdb => absurd hdb (TwoSlot.not_mem_empty db)⟩
  count := rfl

theorem Stored.openDb (h : s.Stored x) : s.openDb x.flash = .ok x.db := by
  obtain ⟨r, hhl, hm, hx⟩ := h.held
  rcases hhl.openDb with ⟨hon, hno⟩ | ⟨db, hon, hdb, hn⟩
  · rcases hm with hm | ⟨hin, -⟩
    · exact absurd hm (hno _)
    · rw [hon, hin]
  rw [hon]
  rcases hm with hm | ⟨-, hem⟩
  swap
  · exact absurd hdb (hem db)
  rcases hx db hdb with rfl | hlt
  · rfl
  · exact absurd (hn _ hm) (UInt64.not_le.mpr hlt)

theorem run_after_of_same {db : Database} {op : CredentialOp} (h : (s.run db op).1 = db)
    (f : Flash) : (s.run db op).2.after f = f := by
  rcases s.run_cases db op with ⟨-, ho⟩ | ⟨hc, -⟩
  · rw [Prog.after, ho f]
    rfl
  · rw [h] at hc
    exact absurd hc.symm (counter_succ_ne db.counter)

theorem Stored.commit (h : s.Stored x) (op : CredentialOp)
    (hfl : (s.commit x op).2.flushed = true) (hw : (s.commit x op).2.flushes < 2 ^ 64) :
    s.Stored (s.commit x op).2 := by
  by_cases hsm : (s.run x.db op).1 = x.db
  · have hfs : (s.commit x op).2.flash = x.flash := run_after_of_same hsm x.flash
    have hdb : (s.commit x op).2.db = x.db := hsm
    have hf : (s.commit x op).2.flushes = x.flushes := if_pos hsm
    exact ⟨by rw [hfs, hdb]; exact h.held, by rw [hdb, hf]; exact h.count⟩
  have hf : (s.commit x op).2.flushes = x.flushes + 1 := if_neg hsm
  have hok : (s.run x.db op).2.result x.flash = .ok () := by
    simp only [SealedCredentialStore.commit, Bool.and_eq_true, Bool.or_eq_true, decide_eq_true_eq,
      hsm, or_false] at hfl
    rcases hr : (s.run x.db op).2.result x.flash with e | u
    · rw [hr] at hfl
      exact absurd hfl.2 (by simp [Except.isOk, Except.toBool])
    · rfl
  have hcn : (s.run x.db op).1.counter.toNat = x.db.counter.toNat + 1 := by
    rw [hf, ← h.count] at hw
    exact level_next hw (run_result hok).1
  obtain ⟨r, hhl, -, hm⟩ := h.held
  refine ⟨⟨TwoSlot.put seqModulus r (s.run x.db op).1, ?_, ?_, ?_⟩, ?_⟩
  · exact hhl.run_ok hok
  · exact .inl ⟨_, _, TwoSlot.put_target ..⟩
  · intro db hdb
    rcases (TwoSlot.Torn.landed : TwoSlot.Torn seqModulus r _ _).mem hdb with rfl | hold
    · exact .inl rfl
    refine .inr ?_
    show db.counter < (s.run x.db op).1.counter
    rw [UInt64.lt_iff_toNat_lt]
    rcases hm db hold with rfl | hlt
    · omega
    · rw [UInt64.lt_iff_toNat_lt] at hlt
      omega
  · show (s.run x.db op).1.counter.toNat = _
    rw [hcn, hf, h.count]

/-- A flush that fails, and one that was made, are not undone. -/
theorem commit_mono (s : SealedCredentialStore) (x : PinFlash) (op : CredentialOp) :
    ((s.commit x op).2.flushed = true → x.flushed = true) ∧
      x.flushes ≤ (s.commit x op).2.flushes := by
  constructor
  · intro h
    simp only [commit, Bool.and_eq_true] at h
    exact h.1
  · simp only [commit]
    split <;> omega

/-- What is stored while flushes succeed and the number has not wrapped. -/
def StoredSoFar (s : SealedCredentialStore) (x : PinFlash) : Prop :=
  x.flushed = true → x.flushes < 2 ^ 64 → s.Stored x

theorem StoredSoFar.commit (h : s.StoredSoFar x) (op : CredentialOp) :
    s.StoredSoFar (s.commit x op).2 := by
  intro hfl hf
  obtain ⟨hmn, hle⟩ := s.commit_mono x op
  exact (h (hmn hfl) (by omega)).commit op hfl hf

theorem effect_mono {K : PinCrypto} {g : Option Bool} {y : PinFlash}
    (h : ClientPin.PinEffect K s.sealedPin x g y) :
    (y.flushed = true → x.flushed = true) ∧ x.flushes ≤ y.flushes := by
  refine h.keep (I := fun y => (y.flushed = true → x.flushed = true) ∧ x.flushes ≤ y.flushes)
    ?_ ?_ ⟨id, Nat.le_refl _⟩
  · intro z hash hz
    obtain ⟨hmn, hle⟩ := s.commit_mono z (.setPin hash)
    exact ⟨fun hy => hz.1 (hmn hy), Nat.le_trans hz.2 hle⟩
  · intro z retries hz
    obtain ⟨hmn, hle⟩ := s.commit_mono z (.setPinRetries retries)
    exact ⟨fun hy => hz.1 (hmn hy), Nat.le_trans hz.2 hle⟩

end Stored

/-! ## The budget -/

/-- The wrong guesses and the retries left are eight together; without a PIN none is spent. -/
structure InBudget (db : Database) (wrong : Nat) : Prop where
  sum : wrong + db.pinRetries.toNat ≤ 8
  unset : db.pinHash = none → db.pinRetries = 8

section Budget
variable {K : PinCrypto} {s : SealedCredentialStore} {x : BudgetState}

def afterGuess (wrong : Nat) : Option Bool → Nat
  | some true => 0
  | some false => wrong + 1
  | none => wrong

variable {db : Database}

theorem InBudget.full (h : db.pinRetries = 8) : InBudget db 0 :=
  ⟨by rw [h]; decide, fun _ => h⟩

theorem InBudget.effect {x y : PinFlash} {g : Option Bool} {wrong : Nat}
    (h : InBudget x.db wrong) (he : ClientPin.PinEffect K s.sealedPin x g y) :
    InBudget y.db (afterGuess wrong g) := by
  cases he with
  | same g hg =>
    rcases g with _ | _ | _
    · exact h
    · exact absurd rfl hg
    · exact ⟨by have := h.sum; simp only [afterGuess]; omega, h.unset⟩
  | enrolled pin hno =>
    have hfl := h.unset hno
    have hs := h.sum
    rw [hfl] at hs
    have hzr : wrong = 0 := by
      simp only [UInt8.reduceToNat] at hs
      omega
    rw [hzr]
    exact .full rfl
  | wrong hsm hlf =>
    have hs := h.sum
    have hsp : (x.db.pinRetries - 1).toNat + 1 = x.db.pinRetries.toNat := toNat_sub_one hlf
    refine ⟨?_, fun hno => ?_⟩
    · show wrong + 1 + (x.db.pinRetries - 1).toNat ≤ 8
      omega
    have ht : x.db.pinHash.isSome = true := hsm
    rw [show x.db.pinHash = none from hno] at ht
    cases ht
  | right hsm | rotated pin | rotationCut pin => exact .full rfl

/-- Operations of other requests leave the PIN, or remove it and restore the retries. -/
theorem run_other_pin (s : SealedCredentialStore) (db : Database) {op : CredentialOp}
    (hop : op.other = true) :
    op.clearsPin = true ∧ (s.run db op).1.pinHash = none ∧ (s.run db op).1.pinRetries = 8 ∨
      op.clearsPin = false ∧ (s.run db op).1.pinHash = db.pinHash ∧
        (s.run db op).1.pinRetries = db.pinRetries := by
  rcases op with hash | _ | retries | _ | credential | credentialId | credentialId | _
  · cases hop
  · exact .inl ⟨rfl, rfl, rfl⟩
  · cases hop
  · exact .inl ⟨rfl, rfl, rfl⟩
  · refine .inr ⟨rfl, ?_⟩
    simp only [run, insert]
    rcases db.cache.position credential.id.val with _ | index
    · rcases db.cache.push credential with _ | cache <;> exact ⟨rfl, rfl⟩
    · exact ⟨rfl, rfl⟩
  · refine .inr ⟨rfl, ?_⟩
    simp only [run, nextSignCount]
    rcases db.cache.raise credentialId with _ | ⟨count, cache⟩ <;> exact ⟨rfl, rfl⟩
  · refine .inr ⟨rfl, ?_⟩
    simp only [run, remove]
    rcases db.cache.position credentialId with _ | index <;> exact ⟨rfl, rfl⟩
  · exact .inr ⟨rfl, rfl, rfl⟩

/-- What an event may do to the retries left, by the guess it is and whether it removes the
  PIN. -/
structure Spends (g : Option Bool) (clears : Bool) (r r' : UInt8) : Prop where
  wrong : g = some false → r'.toNat + 1 = r.toNat
  raised : r < r' → g = some true ∨ clears = true
  blocked : r = 0 → clears = false → r' = 0

theorem Spends.same {clears : Bool} (r : UInt8) : Spends none clears r r :=
  ⟨nofun, fun h => absurd h (UInt8.lt_irrefl r), fun h _ => h⟩

/-- A call spends a retry for a wrong guess, and restores them for a right one only. -/
theorem spends_of_call {x : ClientPin.PinSession PinFlash} {wrong : Nat}
    (h : InBudget x.state.db wrong) (call : ClientPin.PinCall) :
    Spends (ClientPin.guess K s.sealedPin x call) false x.state.db.pinRetries
      (ClientPin.step K s.sealedPin x call).state.db.pinRetries := by
  have he := ClientPin.step_effect (K := K) (P := s.sealedPin) x call
  have hb : x.state.db.pinRetries = 0 → ClientPin.guess K s.sealedPin x call = none :=
    fun hzr => ClientPin.guess_of_blocked hzr call
  generalize ClientPin.guess K s.sealedPin x call = g at he hb ⊢
  generalize (ClientPin.step K s.sealedPin x call).state = y at he ⊢
  -- a right guess is none while blocked, so every case that restores the retries has some left
  have hrg : g = some true → Spends g false x.state.db.pinRetries y.db.pinRetries := by
    intro hg
    refine ⟨fun hfl => absurd (hg.symm.trans hfl) (by simp), fun _ => .inl hg, ?_⟩
    intro hzr
    rw [hb hzr] at hg
    cases hg
  cases he with
  | same g hg =>
    rcases g with _ | _ | _
    · exact .same _
    · exact absurd rfl hg
    · exact hrg rfl
  | enrolled pin hno =>
    have hfu : x.state.db.pinRetries = 8 := h.unset hno
    rw [hfu]
    exact .same 8
  | wrong hsm hlf =>
    have hsp : (x.state.db.pinRetries - 1).toNat + 1 = x.state.db.pinRetries.toNat :=
      toNat_sub_one hlf
    refine ⟨fun _ => hsp, fun hlt => ?_, fun hzr => absurd hzr hlf⟩
    have hlt' : x.state.db.pinRetries < x.state.db.pinRetries - 1 := hlt
    rw [UInt8.lt_iff_toNat_lt] at hlt'
    omega
  | right hsm | rotated pin | rotationCut pin => exact hrg rfl

/-! ## One event -/

/-- While flushes succeed and the number has not wrapped, the store is open, its database is the
  stored one, and the guesses are in the budget. -/
def SoundSoFar (s : SealedCredentialStore) (x : BudgetState) : Prop :=
  x.flushed = true → x.flushes < 2 ^ 64 →
    ∃ db, x.memory = some db ∧ s.Stored (x.session db).state ∧ InBudget db x.wrong

theorem SoundSoFar.start (s : SealedCredentialStore) : s.SoundSoFar budgetStart :=
  fun _ _ => ⟨Database.initial, rfl, Stored.start s, .full rfl⟩

theorem budgetStep_mono (x : BudgetState) (e : BudgetEvent) :
    ((s.budgetStep K x e).flushed = true → x.flushed = true) ∧
      x.flushes ≤ (s.budgetStep K x e).flushes := by
  unfold budgetStep budgetMove
  cases e with
  | request call =>
    rcases x.memory with _ | db
    · exact ⟨id, Nat.le_refl _⟩
    · exact effect_mono (ClientPin.step_effect (x.session db) call)
  | write op =>
    rcases x.memory with _ | db
    · exact ⟨id, Nat.le_refl _⟩
    · exact s.commit_mono (x.session db).state op.val
  | reopen restart => exact ⟨id, Nat.le_refl _⟩

/-- One event: the stored database before and after it, and what became of the retries. -/
theorem SoundSoFar.step (h : s.SoundSoFar x) (e : BudgetEvent)
    (hfl : (s.budgetStep K x e).flushed = true) (hf : (s.budgetStep K x e).flushes < 2 ^ 64) :
    ∃ db db', x.memory = some db ∧ s.Stored (x.session db).state ∧ InBudget db x.wrong ∧
      (s.budgetStep K x e).memory = some db' ∧
      s.Stored ((s.budgetStep K x e).session db').state ∧
      InBudget db' (s.budgetStep K x e).wrong ∧
      Spends (s.budgetGuess K x e) e.clears db.pinRetries db'.pinRetries := by
  obtain ⟨hmn, hle⟩ := budgetStep_mono x e
  have hs := h (hmn hfl) (by omega)
  obtain ⟨db, hm, hs, hb⟩ := hs
  cases e with
  | request call =>
    have he := ClientPin.step_effect (K := K) (P := s.sealedPin) (x.session db) call
    have hs' := he.keep (I := s.StoredSoFar) (fun z _ hz => hz.commit _)
      (fun z _ hz => hz.commit _) (fun _ _ => hs)
    have hb' := InBudget.effect hb he
    have hsp := spends_of_call (K := K) (s := s) (x := x.session db) hb call
    simp only [budgetStep, budgetMove, tally, budgetGuess, hm, Option.bind_some,
      BudgetEvent.clears, Bool.false_eq_true, if_false] at hfl hf ⊢
    refine ⟨db, _, rfl, hs, hb, rfl, hs' hfl hf, ?_, hsp⟩
    generalize ClientPin.guess K s.sealedPin (x.session db) call = g at hb'
    rcases g with _ | _ | _ <;> exact hb'
  | write op =>
    have hs' := hs.commit op.val
    have hc : (BudgetEvent.write op).clears = op.val.clearsPin := rfl
    simp only [budgetStep, budgetMove, tally, budgetGuess, hm] at hfl hf ⊢
    refine ⟨db, _, rfl, hs, hb, rfl, hs' hfl hf, ?_, ?_⟩
    · rcases s.run_other_pin db op.property with ⟨hop, -, hr⟩ | ⟨hop, hhs, hr⟩
      · rw [if_pos (hc.trans hop)]
        exact .full hr
      · rw [if_neg (by rw [hc, hop]; decide)]
        exact ⟨by have := hb.sum; rw [← hr] at this; exact this,
          fun hno => hr.trans (hb.unset (hhs.symm.trans hno))⟩
    · rcases s.run_other_pin db op.property with ⟨hop, -, hr⟩ | ⟨hop, -, hr⟩
      · refine ⟨nofun, fun _ => .inr (hc.trans hop), fun _ hfs => ?_⟩
        rw [hc, hop] at hfs
        cases hfs
      · have hsm : (s.commit (x.session db).state op.val).2.db.pinRetries = db.pinRetries := hr
        rw [hsm]
        exact .same _
  | reopen restart =>
    have hon : s.openDb x.flash = .ok db := hs.openDb
    simp only [budgetStep, budgetMove, tally, budgetGuess, hon, BudgetEvent.clears,
      Bool.false_eq_true, if_false]
    exact ⟨db, db, hm, hs, hb, rfl, ⟨hs.held, hs.count⟩, hb, .same _⟩

theorem SoundSoFar.keep (h : s.SoundSoFar x) (e : BudgetEvent) :
    s.SoundSoFar (s.budgetStep K x e) := by
  intro hfl hf
  obtain ⟨-, db', -, -, -, hm, hs, hb, -⟩ := h.step e hfl hf
  exact ⟨db', hm, hs, hb⟩

/-! ## Runs of requests -/

theorem SoundSoFar.run (K : PinCrypto) (s : SealedCredentialStore) (es : List BudgetEvent) :
    s.SoundSoFar (Runs.run (s.budgetStep K) budgetStart es) :=
  Runs.keep (fun _ e h => h.keep e) (.start s) es

theorem run_mono (K : PinCrypto) (s : SealedCredentialStore) (x : BudgetState)
    (es : List BudgetEvent) :
    ((Runs.run (s.budgetStep K) x es).flushed = true → x.flushed = true) ∧
      x.flushes ≤ (Runs.run (s.budgetStep K) x es).flushes := by
  refine Runs.keep (I := fun y : BudgetState => (y.flushed = true → x.flushed = true) ∧
      x.flushes ≤ y.flushes)
    ?_ ⟨id, Nat.le_refl _⟩ es
  intro y e hy
  obtain ⟨hmn, hle⟩ := budgetStep_mono y e
  exact ⟨fun h => hy.1 (hmn h), Nat.le_trans hy.2 hle⟩

/-- Requests that could be a guess are refused without being one. -/
def Blocked (K : PinCrypto) (s : SealedCredentialStore) (x : BudgetState) : Prop :=
  ∀ db ∈ x.memory, ∀ request token,
    (ClientPin.getPinToken K s.sealedPin x.client (x.session db).state request token).1 =
      .error .pinBlocked ∧
    (ClientPin.changePin K s.sealedPin x.client (x.session db).state request).1 =
      .error .pinBlocked ∧
    s.budgetGuess K x (.request (.getPinToken request token)) = none ∧
    s.budgetGuess K x (.request (.changePin request)) = none

theorem persistedRetries_eq (h : s.Stored (x.session db).state) :
    s.persistedRetries x = some db.pinRetries := by
  have hon : s.openDb x.flash = .ok db := h.openDb
  rw [persistedRetries, hon]
  rfl

theorem blocked_of_zero (hm : x.memory = some db) (hb : InBudget db x.wrong)
    (hzr : db.pinRetries = 0) : Blocked K s x := by
  intro db' hdb' request token
  rw [hm] at hdb'
  cases hdb'
  have hs : db.pinHash.isSome = true := by
    rcases hhs : db.pinHash with _ | stored
    · rw [hb.unset hhs] at hzr
      cases hzr
    · rfl
  have ha := ClientPin.pinBlocked_of_blocked (K := K) (P := s.sealedPin) (c := x.client)
    (s := (x.session db).state) hs hzr request token
  have hgs := fun call => ClientPin.guess_of_blocked (K := K) (P := s.sealedPin)
    (s := x.session db) hzr call
  refine ⟨by rw [ha.1], by rw [ha.2], ?_, ?_⟩
  · simp only [budgetGuess, hm, Option.bind_some]
    exact hgs _
  · simp only [budgetGuess, hm, Option.bind_some]
    exact hgs _

/-- Zero retries stay zero until the PIN is removed. -/
theorem zero_stays (h : s.SoundSoFar x) (es : List BudgetEvent)
    (hfl : (Runs.run (s.budgetStep K) x es).flushed = true)
    (hf : (Runs.run (s.budgetStep K) x es).flushes < 2 ^ 64) (hes : ∀ e ∈ es, e.clears = false)
    (hzr : s.persistedRetries x = some 0) :
    s.persistedRetries (Runs.run (s.budgetStep K) x es) = some 0 := by
  induction es generalizing x with
  | nil => exact hzr
  | cons e es ih =>
    obtain ⟨hmn, hle⟩ := run_mono K s (s.budgetStep K x e) es
    obtain ⟨db, db', -, hs, -, -, hs', -, hsp⟩ :=
      h.step e (hmn hfl) (Nat.lt_of_le_of_lt hle hf)
    refine ih (h.keep e) hfl hf (fun e he => hes e (List.mem_cons_of_mem _ he)) ?_
    rw [persistedRetries_eq hs] at hzr
    rw [persistedRetries_eq hs', hsp.blocked (Option.some.inj hzr) (hes e List.mem_cons_self)]

/-- The guess budget, in every run whose flushes succeed and that makes fewer than 2^64 of them.
  In every state reached at most eight wrong guesses were made since the last right one. The next
  event lowers the persisted retries by one if it is a wrong guess, and raises them only if it is a
  right one or removes the PIN. Once they are zero they stay zero until the PIN is removed, and
  every request that could be a guess is answered with `PinBlocked`. -/
theorem pin_budget (K : PinCrypto) (s : SealedCredentialStore) (before later : List BudgetEvent)
    (hflushed : (Runs.run (s.budgetStep K) budgetStart (before ++ later)).flushed = true)
    (hfew : (Runs.run (s.budgetStep K) budgetStart (before ++ later)).flushes < 2 ^ 64) :
    (Runs.run (s.budgetStep K) budgetStart before).wrong ≤ 8 ∧
    ∃ r, s.persistedRetries (Runs.run (s.budgetStep K) budgetStart before) = some r ∧
      (∀ e ∈ later.head?, ∃ r',
        s.persistedRetries (s.budgetStep K (Runs.run (s.budgetStep K) budgetStart before) e) =
          some r' ∧
        Spends (s.budgetGuess K (Runs.run (s.budgetStep K) budgetStart before) e) e.clears r r') ∧
      (r = 0 → (∀ e ∈ later, e.clears = false) →
        s.persistedRetries (Runs.run (s.budgetStep K) budgetStart (before ++ later)) = some 0 ∧
        Blocked K s (Runs.run (s.budgetStep K) budgetStart (before ++ later))) := by
  have hsound := SoundSoFar.run K s before
  have hsound' := SoundSoFar.run K s (before ++ later)
  obtain ⟨db', hmem', hstored', hbudget'⟩ := hsound' hflushed hfew
  rw [Runs.run_append] at hflushed hfew hmem' hstored' hbudget' ⊢
  generalize Runs.run (s.budgetStep K) budgetStart before = x at *
  obtain ⟨hmono, hle⟩ := run_mono K s x later
  obtain ⟨db, hmem, hstored, hbudget⟩ := hsound (hmono hflushed) (by omega)
  have hpersisted := persistedRetries_eq hstored
  refine ⟨by have := hbudget.sum; omega, db.pinRetries, hpersisted, ?_, ?_⟩
  · intro e he
    rcases later with _ | ⟨e', later⟩
    · cases he
    cases he
    obtain ⟨hmono, hle⟩ := run_mono K s (s.budgetStep K x e) later
    obtain ⟨db₁, db₂, hmem₁, -, -, -, hstored₂, -, hspends⟩ :=
      hsound.step e (hmono hflushed) (Nat.lt_of_le_of_lt hle hfew)
    rw [hmem] at hmem₁
    cases hmem₁
    exact ⟨db₂.pinRetries, persistedRetries_eq hstored₂, hspends⟩
  · intro hzero hlater
    rw [hzero] at hpersisted
    have hstays := zero_stays hsound later hflushed hfew hlater hpersisted
    refine ⟨hstays, blocked_of_zero hmem' hbudget' ?_⟩
    rw [persistedRetries_eq hstored'] at hstays
    exact Option.some.inj hstays

/-- The PIN `1234` is set, and a token is asked for with another hash. -/
def enrolmentRun : List BudgetEvent :=
  [.request (.keyAgreement fun _ => ClientPin.examplePrivateKey),
    .request (.setPin ClientPin.exampleSetPin)]

def wrongGuess : BudgetEvent :=
  .request (.getPinToken ClientPin.exampleProof ClientPin.exampleToken)

def enrolledState : BudgetState :=
  Runs.run (sectorStore.budgetStep ClientPin.enrolCrypto) budgetStart enrolmentRun

theorem pin_budget_wrongGuess :
    sectorStore.budgetGuess ClientPin.enrolCrypto enrolledState wrongGuess = some false ∧
    ∃ r r', sectorStore.persistedRetries enrolledState = some r ∧
      sectorStore.persistedRetries (sectorStore.budgetStep ClientPin.enrolCrypto enrolledState
        wrongGuess) = some r' ∧ r'.toNat + 1 = r.toNat := by
  have hwrong : sectorStore.budgetGuess ClientPin.enrolCrypto enrolledState wrongGuess =
      some false := by
    decide +kernel
  obtain ⟨-, r, hr, hnext, -⟩ := pin_budget ClientPin.enrolCrypto sectorStore enrolmentRun
    [wrongGuess] (by decide +kernel) (by decide +kernel)
  obtain ⟨r', hr', hspends⟩ := hnext wrongGuess rfl
  exact ⟨hwrong, r, r', hr, hr', hspends.wrong hwrong⟩

/-- A database with the PIN `1234`, the last one before the number wraps. -/
def lastDatabase : Database where
  cache := Cache.empty
  counter := 0xFFFFFFFFFFFFFFFF
  pinHash := some ClientPin.examplePinHash
  pinRetries := 8

/-- The store opened on the flash that holds it, with a key agreement. -/
def beforeWrap : BudgetState :=
  Runs.run (sectorStore.budgetStep ClientPin.enrolCrypto)
    { budgetStart with flash := (sectorStore.writeDb lastDatabase).after blank }
    [.reopen true, .request (.keyAgreement fun _ => ClientPin.examplePrivateKey)]

/-- A wrong guess whose flush succeeds, and the store still opens with eight retries: the number
  of the database has wrapped. -/
theorem retry_regained_after_wrap :
    beforeWrap.memory = some lastDatabase ∧
    sectorStore.budgetGuess ClientPin.enrolCrypto beforeWrap wrongGuess = some false ∧
    (sectorStore.budgetStep ClientPin.enrolCrypto beforeWrap wrongGuess).flushed = true ∧
    sectorStore.persistedRetries beforeWrap = some 8 ∧
    sectorStore.persistedRetries
      (sectorStore.budgetStep ClientPin.enrolCrypto beforeWrap wrongGuess) = some 8 := by
  decide +kernel

end Budget

end SealedCredentialStore

end AegisToken
