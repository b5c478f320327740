/-
  What the sealed credential store keeps across power cuts.
  A run starts on blank flash. Its events are operations that finish, operations whose write is cut
  at some byte and that are followed by a restart, and restarts. `flushes` is the history of the
  databases that were in memory when they were written. The region refines the two-slot register of
  these databases, and opening picks the newest of them: `open_admissible`.
-/
import AegisToken.Core.SignCount

namespace AegisToken.SealedCredentialStore
open FlashProg TwoSlot

/-! ## Runs -/

/-- The flash, the database in memory unless the store did not open, the number of calls of `flush`,
  and the databases that were written, whole or cut. -/
structure PersistState where
  flash : Flash
  memory : Option Database
  flushCalls : Nat
  flushes : List (Write Database)

/-- The events: an operation, an operation whose write is cut after `n` bytes and the restart after
  it, and a restart. -/
inductive PersistEvent where
  | finished (op : CredentialOp)
  | cut (op : CredentialOp) (n : Nat)
  | restart

variable (s : SealedCredentialStore)

/-- The calls of `flush` by an operation; each one raises the counter. -/
def flushCalls (db : Database) (op : CredentialOp) : Nat :=
  if (s.run db op).1.counter = db.counter then 0 else 1

/-- The write of an operation in the history: one that stops before the slot is written is not in
  it. -/
def logged (f : Flash) (db : Database) (op : CredentialOp) (write : Database → Write Database) :
    List (Write Database) :=
  match (s.run db op).2.result f with
  | .ok () => [write (s.run db op).1]
  | .error _ => []

/-- A write is whole, or cut by a fault. -/
def outcome : Option Nat → Database → Write Database
  | none => .done
  | some _ => .torn

/-- An operation, with or without a fault. -/
def perform (x : PersistState) (db : Database) (op : CredentialOp) (fault : Option Nat) :
    PersistState where
  flash := flashAfter (s.run db op).2 fault x.flash
  memory := some (s.run db op).1
  flushCalls := x.flushCalls + s.flushCalls db op
  flushes := x.flushes ++ s.logged x.flash db op (outcome fault)

def restart (x : PersistState) : PersistState :=
  { x with memory := (s.openDb x.flash).toOption }

/-- One event. A store that did not open serves nothing. -/
def persistStep (x : PersistState) (e : PersistEvent) : PersistState :=
  match e, x.memory with
  | .finished op, some db => s.perform x db op none
  | .finished _, none => x
  | .cut op n, some db => s.restart (s.perform x db op (some n))
  | .cut .., none | .restart, _ => s.restart x

def persistStart : PersistState := ⟨blank, some Database.initial, 0, []⟩

/-- CRC-32 rejects what a cut write leaves behind. -/
def CutRejected (x : PersistState) : PersistEvent → Prop
  | .cut op n => ∀ db ∈ x.memory, s.FaultRejected x.flash (s.run db op).1 (some n)
  | _ => True

instance (x : PersistState) : (e : PersistEvent) → Decidable (s.CutRejected x e)
  | .cut .. => inferInstanceAs (Decidable (∀ db ∈ x.memory, _))
  | .finished _ | .restart => inferInstanceAs (Decidable True)

/-! ## Memory and flash -/

/-- The region holds a register that the history of writes leads to. Its newest database is the one
  with the highest counter, which is at most `n`. -/
structure Recorded (flash : Flash) (flushes : List (Write Database)) (r : Reg Database)
    (n : Nat) : Prop where
  holds : s.Holds flash r
  run : Run seqModulus flushes r
  leads : Leads level r n

/-- The counter in memory and the number of writes are bounded by the calls of `flush`. -/
structure Persisted (x : PersistState) (db : Database) (r : Reg Database) : Prop where
  memory : x.memory = some db
  recorded : s.Recorded x.flash x.flushes r (level db)
  level_le : level db ≤ x.flushCalls
  length_le : x.flushes.length ≤ x.flushCalls

variable {s} {f : Flash} {flushes : List (Write Database)} {r : Reg Database} {db db' : Database}

theorem Recorded.start : s.Recorded blank [] Reg.empty (level Database.initial) :=
  ⟨Holds.blank s, .nil, Leads.empty _ _⟩

theorem Recorded.writeDb (h : s.Recorded f flushes r (level db))
    (hlv : level db' = level db + 1) (hs : level db + 1 < seqModulus)
    (hf : db'.Fits s.cbor) :
    s.Recorded ((s.writeDb db').after f) (flushes ++ [.done db']) (put seqModulus r db')
      (level db') :=
  ⟨h.holds.writeDb hf, h.run.done db', h.leads.put (by omega) hs⟩

variable {n : Nat}

theorem Recorded.writeDb_crash (h : s.Recorded f flushes r (level db))
    (hlv : level db' = level db + 1) (hs : level db + 1 < seqModulus)
    (hf : db'.Fits s.cbor) (hc : s.FaultRejected f db' (some n)) :
    ∃ r', s.Recorded ((s.writeDb db').crash n f) (flushes ++ [.torn db']) r' (level db') := by
  obtain ⟨r', htr, hr'⟩ := h.holds.writeDb_crash hf hc
  exact ⟨r', hr', h.run.torn db' htr, h.leads.torn (by omega) hs htr⟩

/-- Opening gives what the register has: an admissible database, and the empty one only while no
  write was whole. -/
theorem Recorded.openDb (h : s.Recorded f flushes r n)
    (hl : flushes.length < seqModulus) :
    ∃ o, Admissible flushes o ∧ s.openDb f = .ok (o.getD Database.initial) :=
  ⟨(load r).map Prod.snd, h.run.admissible hl, h.holds.openDb_newest h.leads⟩

theorem level_opened_le (hld : Leads level r n) :
    level (((load r).map Prod.snd).getD Database.initial) ≤ n := by
  rcases hl : load r with _ | ⟨sequence, newest⟩
  · exact Nat.zero_le n
  · exact (hld sequence newest hl).2.1

theorem Recorded.restart {x : PersistState} (h : s.Recorded x.flash x.flushes r n)
    (hn : n ≤ x.flushCalls) (hl : x.flushes.length ≤ x.flushCalls) :
    ∃ db, s.Persisted (s.restart x) db r := by
  refine ⟨_, ?_, ⟨h.holds, h.run, leads_opened h.leads⟩, ?_, hl⟩
  · unfold SealedCredentialStore.restart
    rw [h.holds.openDb_newest h.leads]
    rfl
  · exact Nat.le_trans (level_opened_le h.leads) hn

/-! ## Operations -/

/-- An operation writes nothing, or it writes the database in memory. -/
inductive OpEffect (s : SealedCredentialStore) (f : Flash) (db : Database) (op : CredentialOp) :
    Prop
  | quiet (hops : (s.run db op).2.ops f = []) (hlogged : ∀ w, s.logged f db op w = [])
  | wrote (hops : (s.run db op).2.ops f = (s.writeDb (s.run db op).1).ops f)
      (hlogged : ∀ w, s.logged f db op w = [w (s.run db op).1])
      (hcalls : s.flushCalls db op = 1) (hfit : (s.run db op).1.Fits s.cbor)

theorem opEffect (s : SealedCredentialStore) (f : Flash) (db : Database) (op : CredentialOp) :
    s.OpEffect f db op := by
  rcases hr : (s.run db op).2.result f with e | ⟨⟩
  · refine .quiet ?_ fun w => by rw [logged, hr]
    rcases s.run_flushes db op with ⟨-, hrf⟩ | ⟨db', -, -, hpr⟩
    · exact (hrf f).1
    -- The encoder refused the database, so nothing was written.
    rw [(hpr f).2, flush_result] at hr
    rw [(hpr f).1]
    split at hr
    · cases hr
    next hf =>
    show (s.writeDb (s.flush db').1).ops f = []
    rw [writeDb_of_not_fits hf]
    rfl
  · obtain ⟨hc, hf⟩ := run_result hr
    rcases s.run_cases db op with ⟨hdb, -⟩ | ⟨-, ho⟩
    · rw [hdb] at hc
      exact absurd hc.symm (counter_succ_ne db.counter)
    · refine .wrote (ho f) (fun w => by rw [logged, hr]) ?_ hf
      unfold flushCalls
      rw [hc, if_neg (counter_succ_ne db.counter)]

/-- The counter counts the calls of `flush`. -/
theorem level_run {op : CredentialOp} (hs : level db + s.flushCalls db op < seqModulus) :
    level (s.run db op).1 = level db + s.flushCalls db op := by
  rcases s.run_cases db op with ⟨hdb, -⟩ | ⟨hc, -⟩
  · unfold flushCalls
    rw [hdb, if_pos rfl]
    rfl
  have hcl : s.flushCalls db op = 1 := by
    unfold flushCalls
    rw [hc, if_neg (counter_succ_ne db.counter)]
  rw [hcl] at hs ⊢
  exact level_succ hs hc

variable {x : PersistState}

theorem length_logged_le (s : SealedCredentialStore) (f : Flash) (db : Database) (op : CredentialOp)
    (w : Database → Write Database) : (s.logged f db op w).length ≤ s.flushCalls db op := by
  cases s.opEffect f db op with
  | quiet _ hl => rw [hl]; exact Nat.zero_le _
  | wrote _ hl hcl => rw [hl, hcl]; exact Nat.le_refl 1

theorem Persisted.perform (h : s.Persisted x db r) {op : CredentialOp} (fault : Option Nat)
    (hs : x.flushCalls + s.flushCalls db op < seqModulus)
    (hc : s.FaultRejected x.flash (s.run db op).1 fault) :
    ∃ r', s.Persisted (s.perform x db op fault) (s.run db op).1 r' := by
  have hle := h.level_le
  have hlv : level (s.run db op).1 = level db + s.flushCalls db op := level_run (by omega)
  have hrc : ∃ r', s.Recorded (s.perform x db op fault).flash
      (s.perform x db op fault).flushes r' (level (s.run db op).1) := by
    unfold SealedCredentialStore.perform
    cases s.opEffect x.flash db op with
    | quiet ho hl =>
      rw [hl, List.append_nil,
        flashAfter_of_ops (y := (Prog.fail .storageError : Prog SealCall CoreError Unit)) ho,
        flashAfter_fail]
      exact ⟨r, h.recorded.holds, h.recorded.run, h.recorded.leads.mono (by omega)⟩
    | wrote ho hl hcl hf =>
      rw [hl, flashAfter_of_ops ho]
      rw [hcl] at hlv hs
      cases fault with
      | none => exact ⟨_, h.recorded.writeDb hlv (by omega) hf⟩
      | some n => exact h.recorded.writeDb_crash hlv (by omega) hf hc
  obtain ⟨r', hr'⟩ := hrc
  have hl := s.length_logged_le x.flash db op (outcome fault)
  have hn := h.length_le
  refine ⟨r', rfl, hr', ?_, ?_⟩
  · show level (s.run db op).1 ≤ x.flushCalls + s.flushCalls db op
    omega
  show (x.flushes ++ s.logged x.flash db op (outcome fault)).length ≤
    x.flushCalls + s.flushCalls db op
  rw [List.length_append]
  omega

theorem Persisted.restart (h : s.Persisted x db r) : ∃ db', s.Persisted (s.restart x) db' r :=
  h.recorded.restart h.level_le h.length_le

/-- What every event keeps, while there are fewer than `2 ^ 32` calls of `flush`. -/
theorem Persisted.step (h : s.Persisted x db r) {e : PersistEvent}
    (hcl : (s.persistStep x e).flushCalls < seqModulus) (hc : s.CutRejected x e) :
    ∃ db' r', s.Persisted (s.persistStep x e) db' r' := by
  have hm := h.memory
  cases e with
  | finished op =>
    simp only [persistStep, hm] at hcl ⊢
    obtain ⟨r', h'⟩ := h.perform none hcl trivial
    exact ⟨_, r', h'⟩
  | cut op n =>
    simp only [persistStep, hm] at hcl ⊢
    obtain ⟨r', h'⟩ := h.perform (some n) hcl (hc db hm)
    obtain ⟨db', h''⟩ := h'.restart
    exact ⟨db', r', h''⟩
  | restart =>
    obtain ⟨db', h'⟩ := h.restart
    exact ⟨db', r, h'⟩

/-! ## Every run -/

/-- Fewer than `2 ^ 32` flushes so far, and cut writes are rejected. -/
def PersistSound (s : SealedCredentialStore) (x : PersistState) (e : PersistEvent) : Prop :=
  (s.persistStep x e).flushCalls < seqModulus ∧ s.CutRejected x e

instance (s : SealedCredentialStore) (x : PersistState) (e : PersistEvent) :
    Decidable (s.PersistSound x e) :=
  inferInstanceAs (Decidable (_ ∧ _))

theorem open_admissible (s : SealedCredentialStore) (es : List PersistEvent)
    (hes : Runs.Every s.persistStep s.PersistSound persistStart es) :
    ∃ o, Admissible (Runs.run s.persistStep persistStart es).flushes o ∧
      s.openDb (Runs.run s.persistStep persistStart es).flash = .ok (o.getD Database.initial) := by
  have hkeep : ∃ db r, s.Persisted (Runs.run s.persistStep persistStart es) db r ∧
      (Runs.run s.persistStep persistStart es).flushCalls < seqModulus := by
    refine Runs.Every.keep (I := fun x => ∃ db r, s.Persisted x db r ∧ x.flushCalls < seqModulus)
      ?_ ⟨_, _, ⟨rfl, Recorded.start, Nat.le_refl _, Nat.le_refl _⟩, by decide⟩ hes
    rintro x e ⟨db, r, h, -⟩ ⟨hcalls, hcrc⟩
    obtain ⟨db', r', h'⟩ := h.step hcalls hcrc
    exact ⟨db', r', h', hcalls⟩
  obtain ⟨db, r, h, hcalls⟩ := hkeep
  exact h.recorded.openDb (Nat.lt_of_le_of_lt h.length_le hcalls)

/-- A credential is stored; the write that sets a PIN is cut after three bytes of the payload. -/
def cutPinRun : List PersistEvent :=
  [.finished (.insert exampleCredential), .cut (.setPin ⟨List.replicate 32 0x55, by decide⟩) 4115,
    .finished (.setPinRetries 7)]

theorem open_admissible_cutPinRun :
    (sectorStore.openDb (Runs.run sectorStore.persistStep persistStart cutPinRun).flash).toOption.map
        (fun db => (db.cache.val, db.pinHash, db.pinRetries)) =
      some ([exampleCredential], none, 7) ∧
    ∃ o, Admissible (Runs.run sectorStore.persistStep persistStart cutPinRun).flushes o ∧
      sectorStore.openDb (Runs.run sectorStore.persistStep persistStart cutPinRun).flash =
        .ok (o.getD Database.initial) := by
  -- One evaluation of the run gives both facts.
  have hrun : Runs.Every sectorStore.persistStep sectorStore.PersistSound persistStart cutPinRun ∧
      (sectorStore.openDb
          (Runs.run sectorStore.persistStep persistStart cutPinRun).flash).toOption.map
        (fun db => (db.cache.val, db.pinHash, db.pinRetries)) =
      some ([exampleCredential], none, 7) := by decide +kernel
  exact ⟨hrun.2, open_admissible sectorStore cutPinRun hrun.1⟩

end AegisToken.SealedCredentialStore
