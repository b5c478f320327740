import AegisToken.Lib.FreshLog
import AegisToken.Applets.Generations

/-
  Nonces over whole runs of a device.
  A device runs the write operations of the credential store and of the PIV, OATH and OpenPGP
  stores, all under one root key. A write can be cut at any byte, and then every store is reopened
  from flash. The log has every call of `AesGcmSealer::seal` in the run.
  `nonces_unique`: when each cut write got its first record down whole, no nonce is used for two
  plaintexts. Without that it can be, `nonce_reused_after_cut`: the generation of a record that
  was torn cannot be seen on reopening, so the next write is sealed under it again.
-/

namespace AegisToken
open ByteCodec FlashProg TwoSlot

namespace SealedStores

/-! ## Domains -/

/-- Where a nonce comes from: a store, or a cell of the PIV store. -/
inductive Domain where
  | fido
  | piv (j : Fin (1 + pivObjectStores))
  | oath
  | openPgp
deriving DecidableEq

/-- The applet tag in a domain's nonces; the credential store's have none. -/
def Domain.applet : Domain → Nat
  | .fido => 0
  | .piv _ => pivAppletTag
  | .oath => oathAppletTag
  | .openPgp => openPgpAppletTag

def Domain.shards : Domain → List Nat
  | .fido => [0]
  | .piv j => [j.val]
  | .oath => List.range (oathShards + 1)
  | .openPgp => List.range (openPgpShards + 1)

/-- The nonces of a domain under one generation. -/
def Domain.nonces (i : Domain) (g : Nat) : List (List UInt8) :=
  i.shards.map (nonce g i.applet)

theorem nonce_inj {g g' a a' j j' : Nat} (h : nonce g a j = nonce g' a' j') (hg : g < genModulus)
    (hg' : g' < genModulus) (ha : a < 2 ^ 16) (ha' : a' < 2 ^ 16) (hj : j < 2 ^ 16)
    (hj' : j' < 2 ^ 16) : g = g' ∧ a = a' ∧ j = j' := by
  simp only [genModulus] at hg hg'
  obtain ⟨h1, h2⟩ := List.append_inj' h (by rw [length_toLE, length_toLE])
  obtain ⟨h3, h4⟩ := List.append_inj' h1 (by rw [length_toLE, length_toLE])
  exact ⟨toLE_inj (by omega) (by omega) h3, toLE_inj (by omega) (by omega) h4,
    toLE_inj (by omega) (by omega) h2⟩

theorem Domain.applet_lt (i : Domain) : i.applet < 2 ^ 16 := by
  rcases i with _ | k | _ | _ <;>
    simp [Domain.applet, pivAppletTag, oathAppletTag, openPgpAppletTag]

variable {i : Domain} {j : Nat}

theorem Domain.shards_lt (h : j ∈ i.shards) : j < 2 ^ 16 := by
  rcases i with _ | k | _ | _
  · rw [List.mem_singleton.mp h]
    decide
  · rw [List.mem_singleton.mp h]
    exact Nat.lt_trans k.isLt (by decide)
  · exact Nat.lt_trans (List.mem_range.mp h) (by decide)
  · exact Nat.lt_trans (List.mem_range.mp h) (by decide)

/-- Applet tag and shard id tell the domain. -/
theorem Domain.eq_of_applet_shard {i i' : Domain} (ha : i.applet = i'.applet) (hj : j ∈ i.shards)
    (hj' : j ∈ i'.shards) : i = i' := by
  rcases i with _ | k | _ | _ <;> rcases i' with _ | k' | _ | _ <;>
    simp only [Domain.applet, pivAppletTag, oathAppletTag, openPgpAppletTag] at ha <;>
    first
    | rfl
    | omega
    | exact congrArg Domain.piv
        (Fin.ext ((List.mem_singleton.mp hj).symm.trans (List.mem_singleton.mp hj')))

/-- Nonces by domain and generation. -/
def keys : FreshLog.Keys Domain (List UInt8) where
  atLevel i g n := g < genModulus ∧ ∃ j ∈ i.shards, n = nonce g i.applet j
  unique := by
    rintro i i' g g' n ⟨hg, j, hj, rfl⟩ ⟨hg', j', hj', h⟩
    obtain ⟨rfl, ha, rfl⟩ := nonce_inj h hg hg' i.applet_lt i'.applet_lt (Domain.shards_lt hj)
      (Domain.shards_lt hj')
    exact ⟨Domain.eq_of_applet_shard ha hj hj', rfl⟩

theorem nodup_nonces (i : Domain) {g : Nat} (hg : g < genModulus) : (i.nonces g).Nodup := by
  refine List.Nodup.map_on ?_ ?_
  · intro j hj j' hj' h
    exact (nonce_inj h hg hg i.applet_lt i.applet_lt (Domain.shards_lt hj)
      (Domain.shards_lt hj')).2.2
  rcases i with _ | k | _ | _
  · exact List.nodup_singleton _
  · exact List.nodup_singleton _
  · exact List.nodup_range
  · exact List.nodup_range

theorem mem_nonces {g : Nat} (hg : g < genModulus) {n : List UInt8} (h : n ∈ i.nonces g) :
    keys.atLevel i g n := by
  obtain ⟨j, hj, rfl⟩ := List.mem_map.mp h
  exact ⟨hg, j, hj, rfl⟩

/-! ## Regions -/

/-- The domain that writes to a region. -/
def owner (k : Fin (appletStoreCount + 1)) : Domain :=
  if h : k.val < 1 + pivObjectStores then .piv ⟨k.val, h⟩
  else if k.val ≤ oathCommitStore then .oath
  else if k.val ≤ openPgpCommitStore then .openPgp
  else .fido

/-- The store of a domain is marked `m`. -/
def Marked (d : SealedStores) : Domain → Flash → Nat → Prop
  | .fido => d.fido.Marked
  | .piv j => (d.piv.cell j).Marked
  | .oath => d.oath.Marked
  | .openPgp => d.openPgp.Marked

variable (d : SealedStores)

theorem piv_storage (j : Fin (1 + pivObjectStores)) :
    ∃ k, (d.piv.cell j).storage = d.region k ∧ owner k = .piv j := by
  have hj : j.val < 11 := j.isLt
  refine ⟨⟨j.val, by simp only [appletStoreCount]; omega⟩, ?_, by simp only [owner, dif_pos j.isLt]⟩
  simp only [SealedPivStore.cell, piv]
  split
  next h => simp only [h, pivMetaStore]
  next h => congr 2; simp only [pivObjectStoreBase]; omega

theorem blob_cell {applet S base commit : Nat} (hbs : base + S ≤ commit)
    (hc : commit < appletStoreCount) (h : base + S = commit) (hj : j ≤ S)
    {k : Fin (appletStoreCount + 1)} (hk : k.val = base + j) :
    (d.blob applet S base commit hbs hc).cell j = d.region k := by
  unfold SealedBlob.cell blob
  split
  · exact congrArg d.region (Fin.ext hk.symm)
  · exact congrArg d.region (Fin.ext (show commit = k.val by omega))

theorem owner_oath : ∀ k : Fin (appletStoreCount + 1), oathDataStoreBase ≤ k.val →
    k.val ≤ oathCommitStore → owner k = .oath := by
  decide

theorem owner_openPgp : ∀ k : Fin (appletStoreCount + 1), openPgpDataStoreBase ≤ k.val →
    k.val ≤ openPgpCommitStore → owner k = .openPgp := by
  decide

theorem oath_cell (hj : j ≤ oathShards) :
    ∃ k, d.oath.cell j = d.region k ∧ owner k = .oath := by
  have hls : oathDataStoreBase + oathShards = oathCommitStore := rfl
  have hlt : oathCommitStore < appletStoreCount := by decide
  exact ⟨⟨oathDataStoreBase + j, by omega⟩, d.blob_cell _ _ hls hj rfl,
    owner_oath _ (Nat.le_add_right _ _) (show oathDataStoreBase + j ≤ oathCommitStore by omega)⟩

theorem openPgp_cell (hj : j ≤ openPgpShards) :
    ∃ k, d.openPgp.cell j = d.region k ∧ owner k = .openPgp := by
  have hls : openPgpDataStoreBase + openPgpShards = openPgpCommitStore := rfl
  have hlt : openPgpCommitStore < appletStoreCount := by decide
  exact ⟨⟨openPgpDataStoreBase + j, by omega⟩, d.blob_cell _ _ hls hj rfl,
    owner_openPgp _ (Nat.le_add_right _ _)
      (show openPgpDataStoreBase + j ≤ openPgpCommitStore by omega)⟩

theorem fido_storage :
    ∃ k, d.fido.storage = d.region k ∧ owner k = .fido :=
  ⟨_, rfl, by decide⟩

theorem Marked.congr {d : SealedStores} {f f' : Flash} {m : Nat} (h : d.Marked i f m)
    (hvw : ∀ k, owner k = i → (d.region k).view f' = (d.region k).view f) : d.Marked i f' m := by
  rcases i with _ | j | _ | _
  · obtain ⟨k, hk, ho⟩ := d.fido_storage
    exact SealedCredentialStore.Marked.congr h (by rw [hk]; exact hvw k ho)
  · obtain ⟨k, hk, ho⟩ := d.piv_storage j
    exact SealedCell.Marked.congr h (by rw [hk]; exact hvw k ho)
  · refine SealedBlob.Marked.congr h fun j hj => ?_
    obtain ⟨k, hk, ho⟩ := d.oath_cell hj
    rw [hk]
    exact hvw k ho
  · refine SealedBlob.Marked.congr h fun j hj => ?_
    obtain ⟨k, hk, ho⟩ := d.openPgp_cell hj
    rw [hk]
    exact hvw k ho

theorem Marked.blank (i : Domain) : d.Marked i FlashProg.blank 0 := by
  rcases i with _ | j | _ | _
  · exact SealedCredentialStore.Marked.blank _
  · exact SealedCell.Marked.blank _
  · exact SealedBlob.Marked.blank _
  · exact SealedBlob.Marked.blank _

/-! ## Runs -/

/-- A write operation of one of the stores. -/
inductive WriteOp where
  | fido (op : SealedCredentialStore.CredentialOp)
  | pivWrite (record : UInt16) (data : List UInt8)
  | pivErase (record : UInt16)
  | oathSave (data : List UInt8)
  | oathClear
  | openPgpSave (data : List UInt8)
  | openPgpClear

def WriteOp.domain : WriteOp → Option Domain
  | .fido _ => some .fido
  | .pivWrite record _ => (SealedPivStore.cellOf record).map .piv
  | .pivErase record => (SealedPivStore.cellOf record).map .piv
  | .oathSave _ => some .oath
  | .oathClear => some .oath
  | .openPgpSave _ => some .openPgp
  | .openPgpClear => some .openPgp

/-- The flash, the database in memory, which applet stores are open, and every call of `seal` so
  far. A store that did not open takes no writes. -/
structure State where
  flash : Flash
  fido : Option Database
  pivOpen : Bool
  oathOpen : Bool
  openPgpOpen : Bool
  log : List SealCall

def reopen (d : SealedStores) (flash : Flash) (log : List SealCall) : State where
  flash := flash
  fido := (d.fido.openDb flash).toOption
  pivOpen := (d.piv.checkOpen flash).isOk
  oathOpen := (d.oath.checkOpen flash).isOk
  openPgpOpen := (d.openPgp.checkOpen flash).isOk
  log := log

/-- The first start, on blank flash. -/
def initial (d : SealedStores) : State := d.reopen blank []

/-- A program of a store that must be open. -/
def whenOpen (isOpen : Bool) (x : Prog SealCall CoreError Unit) : Prog SealCall CoreError Unit :=
  if isOpen then x else Prog.fail .storageError

/-- The database in memory after an operation, and the operation's program. -/
def run (d : SealedStores) (s : State) :
    WriteOp → Option Database × Prog SealCall CoreError Unit
  | .fido op =>
    match s.fido with
    | some db => (some (d.fido.run db op).1, (d.fido.run db op).2)
    | none => (none, Prog.fail .storageError)
  | .pivWrite record data => (s.fido, whenOpen s.pivOpen (d.piv.write record data))
  | .pivErase record => (s.fido, whenOpen s.pivOpen (d.piv.erase record))
  | .oathSave data => (s.fido, whenOpen s.oathOpen (saveState d.oath data))
  | .oathClear => (s.fido, whenOpen s.oathOpen (clearState d.oath))
  | .openPgpSave data => (s.fido, whenOpen s.openPgpOpen (saveState d.openPgp data))
  | .openPgpClear => (s.fido, whenOpen s.openPgpOpen (clearState d.openPgp))

/-- A write that returns, a write whose power fails after `n` bytes, or a restart. -/
inductive Event where
  | write (op : WriteOp)
  | cut (op : WriteOp) (n : Nat)
  | restart

def Event.domain : Event → Option Domain
  | .write op => op.domain
  | .cut op _ => op.domain
  | .restart => none

/-- One event. The power failing and a restart both reopen every store from flash. -/
def step (d : SealedStores) (s : State) : Event → State
  | .write op =>
    { s with
      flash := (d.run s op).2.after s.flash
      fido := (d.run s op).1
      log := s.log ++ notes ((d.run s op).2.ops s.flash) }
  | .cut op n =>
    d.reopen ((d.run s op).2.crash n s.flash)
      (s.log ++ notes (cut n ((d.run s op).2.ops s.flash)))
  | .restart => d.reopen s.flash s.log

/-- CRC-32 rejects what a save that is cut after `n` bytes leaves torn. -/
def Rejects (d : SealedStores) (s : State) : WriteOp → Nat → Prop
  | .oathSave data => d.oath.CutRejected s.flash data
  | .oathClear => d.oath.CutRejected s.flash []
  | .openPgpSave data => d.openPgp.CutRejected s.flash data
  | .openPgpClear => d.openPgp.CutRejected s.flash []
  | _ => fun _ => True

/-- The condition on an event: a cut write has its first record down whole, which is its seal and
  then an erase and two writes, and CRC-32 rejects the record it is torn in. -/
def FirstRecordWhole (d : SealedStores) (s : State) : Event → Prop
  | .write _ => True
  | .cut op n =>
    size (((d.run s op).2.ops s.flash).take 4) ≤ n ∧ d.Rejects s op n
  | .restart => True

/-! ## One operation -/

theorem whenOpen_ops (isOpen : Bool) (x : Prog SealCall CoreError Unit) (f : Flash) :
    (whenOpen isOpen x).ops f = [] ∨ (whenOpen isOpen x).ops f = x.ops f := by
  cases isOpen
  · exact .inl rfl
  · exact .inr rfl

/-- An operation stays clear of the regions of other domains. -/
theorem run_avoids (s : State) (op : WriteOp) (f : Flash)
    {k : Fin (appletStoreCount + 1)} (hk : op.domain ≠ some (owner k)) {a : Nat}
    (ha : (d.region k).base ≤ a) (ha' : a < (d.region k).base + slotCount * (d.region k).slotSize) :
    ∀ o ∈ (d.run s op).2.ops f, o.Avoids a := by
  have hn : ∀ o ∈ ([] : List (Op SealCall)), o.Avoids a := by
    intro o ho
    cases ho
  have hr : ∀ {k' : Fin (appletStoreCount + 1)}, owner k' ≠ owner k →
      SlotStore.Apart (d.region k') (d.region k) :=
    fun hne => d.apart _ _ fun h => hne (by rw [h])
  have hv : ∀ {j x}, d.piv.WritesCell j x → j.map Domain.piv ≠ some (owner k) →
      ∀ o ∈ (whenOpen s.pivOpen x).ops f, o.Avoids a := by
    intro j x hx hj
    rcases whenOpen_ops s.pivOpen x f with h | h
    · rw [h]
      exact hn
    rw [h]
    rcases hx f with hp | ⟨i, present, body, rfl, hp⟩
    · rw [hp]
      exact hn
    obtain ⟨k', hk', hw⟩ := d.piv_storage i
    rw [hp]
    refine SealedCell.put_avoids _ ?_ present body f ha ha'
    rw [hk']
    exact hr fun h => hj (by rw [← h, hw]; rfl)
  have hbl : ∀ {S : Nat} (b : SealedBlob S) (isOpen : Bool) (data : List UInt8) {i : Domain},
      (∀ j ≤ S, ∃ k', b.cell j = d.region k' ∧ owner k' = i) → some i ≠ some (owner k) →
      ∀ o ∈ (whenOpen isOpen (b.save data)).ops f, o.Avoids a := by
    intro S b isOpen data i hcl hne
    rcases whenOpen_ops isOpen (b.save data) f with h | h
    · rw [h]
      exact hn
    rw [h]
    refine SealedBlob.save_avoids _ data (fun j hj => ?_) f ha ha'
    obtain ⟨k', hk', hw⟩ := hcl j hj
    rw [hk']
    exact hr fun h => hne (by rw [← hw, h])
  rcases op with op | ⟨record, data⟩ | record | data | _ | data | _
  · rcases hs : s.fido with _ | db
    · simp only [run, hs]
      exact hn
    simp only [run, hs]
    rcases d.fido.run_cases db op with ⟨-, h⟩ | ⟨-, h⟩
    · rw [h]
      exact hn
    rw [h]
    obtain ⟨k', hk', hw⟩ := d.fido_storage
    refine SealedCredentialStore.writeDb_avoids _ ?_ _ f ha ha'
    rw [hk']
    exact hr fun h => hk (by rw [← h, hw]; rfl)
  · exact hv (d.piv.writesCell_write record data) hk
  · exact hv (d.piv.writesCell_erase record) hk
  · exact hbl d.oath s.oathOpen data (fun _ => d.oath_cell) hk
  · exact hbl d.oath s.oathOpen [] (fun _ => d.oath_cell) hk
  · exact hbl d.openPgp s.openPgpOpen data (fun _ => d.openPgp_cell) hk
  · exact hbl d.openPgp s.openPgpOpen [] (fun _ => d.openPgp_cell) hk

variable {d : SealedStores} {s : State} {marks count : Domain → Nat} {op : WriteOp} {g : Nat}

/-- An operation leaves the marks of other domains, wherever it is cut. -/
theorem Marked.frame {m : Nat} (h : d.Marked i s.flash m) (hi : op.domain ≠ some i) (n : Nat) :
    d.Marked i ((d.run s op).2.crash n s.flash) m := by
  refine h.congr fun k hk => (d.region k).view_congr fun a ha ha' => ?_
  exact apply_cut_avoids n (d.run_avoids s op s.flash (by rwa [hk]) ha ha')

/-- The invariant of a run: every store is marked, no nonce in the log was used twice or is above
  its domain's mark, and the counter in memory is not below the credential store's mark. `count`
  bounds marks and counter. -/
structure Inv (d : SealedStores) (s : State) (marks count : Domain → Nat) : Prop where
  marked : ∀ i, d.Marked i s.flash (marks i)
  le : ∀ i, marks i ≤ count i
  fresh : FreshLog.Fresh keys (s.log.map SealCall.nonce) marks
  ram : ∀ db, s.fido = some db →
    marks .fido ≤ db.counter.toNat ∧ db.counter.toNat ≤ count .fido

/-- Counting one more write in a domain. -/
def bump (count : Domain → Nat) (o : Option Domain) (i : Domain) : Nat :=
  if o = some i then count i + 1 else count i

theorem le_bump (count : Domain → Nat) (o : Option Domain) (i : Domain) :
    count i ≤ bump count o i := by
  unfold bump
  split
  · exact Nat.le_succ _
  · exact Nat.le_refl _

theorem Inv.reopen {flash : Flash} {log : List SealCall} (hm : ∀ i, d.Marked i flash (marks i))
    (hle : ∀ i, marks i ≤ count i) (hfr : FreshLog.Fresh keys (log.map SealCall.nonce) marks) :
    d.Inv (d.reopen flash log) marks count where
  marked := hm
  le := hle
  fresh := hfr
  ram := by
    intro db hdb
    obtain ⟨db', hon, hcn⟩ := SealedCredentialStore.Marked.openDb (hm .fido)
    have hsm : (d.fido.openDb flash).toOption = some db := hdb
    rw [hon] at hsm
    obtain rfl : db' = db := Option.some.inj hsm
    rw [hcn]
    exact ⟨Nat.le_refl _, hle .fido⟩

theorem counter_succ {c : UInt64} (h : c.toNat + 1 < genModulus) :
    (c + 1).toNat = c.toNat + 1 := by
  exact Nat.mod_eq_of_lt h

theorem Inv.run_ram (h : d.Inv s marks count) (hcn : ∀ i, bump count op.domain i < genModulus)
    (db : Database) (hdb : (d.run s op).1 = some db) :
    marks .fido ≤ db.counter.toNat ∧ db.counter.toNat ≤ bump count op.domain .fido := by
  have hsm : s.fido = some db →
      marks .fido ≤ db.counter.toNat ∧ db.counter.toNat ≤ bump count op.domain .fido := by
    intro hs
    have := h.ram db hs
    have := le_bump count op.domain .fido
    omega
  rcases op with op | ⟨record, data⟩ | record | data | _ | data | _
  · rcases hs : s.fido with _ | old
    · simp only [run, hs] at hdb
      cases hdb
    simp only [run, hs] at hdb
    obtain rfl := Option.some.inj hdb
    have hold := h.ram old hs
    have hbm : bump count (WriteOp.domain (.fido op)) .fido = count .fido + 1 := if_pos rfl
    have hlt := hcn .fido
    rcases d.fido.run_cases old op with ⟨hr, -⟩ | ⟨hr, -⟩
    · rw [hr]
      omega
    · rw [hr, counter_succ (by omega)]
      omega
  all_goals exact hsm hdb

/-- What an operation with the trace `ops` does: it seals nothing, or it is a fresh write of its
  domain. -/
def Outcome (d : SealedStores) (s : State) (marks count : Domain → Nat) (op : WriteOp)
    (ops : List (Op SealCall)) : Prop :=
  ops = [] ∨
    ∃ i g, op.domain = some i ∧ marks i < g ∧ g ≤ bump count op.domain i ∧
      FreshWrite (d.Marked i) (d.Rejects s op) ops s.flash g (i.nonces g) ∧
      ∀ db, i = .fido → (d.run s op).1 = some db → g = db.counter.toNat

/-- The next generation of the domain an operation writes in. -/
theorem Inv.room (h : d.Inv s marks count) (hcn : ∀ i, bump count op.domain i < genModulus)
    (hi : op.domain = some i) :
    marks i + 1 ≤ bump count op.domain i ∧ marks i + 1 < genModulus := by
  have hb : bump count op.domain i = count i + 1 := if_pos hi
  have := h.le i
  have := hcn i
  omega

theorem Outcome.whenOpen {isOpen : Bool} {x : Prog SealCall CoreError Unit}
    (h : d.Outcome s marks count op (x.ops s.flash)) :
    d.Outcome s marks count op ((whenOpen isOpen x).ops s.flash) := by
  rcases whenOpen_ops isOpen x s.flash with hw | hw
  · exact .inl hw
  · rwa [hw]

theorem Inv.outcome_piv (h : d.Inv s marks count)
    (hcn : ∀ i, bump count op.domain i < genModulus) {j : Option (Fin (1 + pivObjectStores))}
    {x : Prog SealCall CoreError Unit} (hx : d.piv.WritesCell j x)
    (hj : op.domain = j.map Domain.piv) : d.Outcome s marks count op (x.ops s.flash) := by
  rcases hx s.flash with ho | ⟨i, present, body, rfl, ho⟩
  · exact .inl ho
  obtain ⟨hle, hlt⟩ := h.room hcn hj
  rw [ho]
  rcases SealedCell.Marked.put (h.marked (.piv i)) hlt (d.Rejects s op) present body with
    hn | hfr
  · exact .inl hn
  · exact .inr ⟨.piv i, _, hj, Nat.lt_succ_self _, hle, hfr, by simp⟩

theorem Inv.outcome_blob (h : d.Inv s marks count) (hcn : ∀ i, bump count op.domain i < genModulus)
    {S : Nat} (b : SealedBlob S) (data : List UInt8) (hi : op.domain = some i)
    (hM : d.Marked i = b.Marked) (hR : d.Rejects s op = b.CutRejected s.flash data)
    (hN : i.nonces = fun g => (List.range (S + 1)).map (nonce g b.applet)) (hne : i ≠ .fido) :
    d.Outcome s marks count op ((b.save data).ops s.flash) := by
  obtain ⟨hle, hlt⟩ := h.room hcn hi
  have hmr := h.marked i
  rw [hM] at hmr
  rcases hmr.save hlt data with hn | hfr
  · exact .inl hn
  · refine .inr ⟨i, _, hi, Nat.lt_succ_self _, hle, ?_, fun _ h => absurd h hne⟩
    rw [hM, hR, hN]
    exact hfr

theorem Inv.outcome_fido (h : d.Inv s marks count) {cop : SealedCredentialStore.CredentialOp}
    (hcn : ∀ i, bump count (WriteOp.fido cop).domain i < genModulus) :
    d.Outcome s marks count (.fido cop) ((d.run s (.fido cop)).2.ops s.flash) := by
  rcases hs : s.fido with _ | old
  · refine .inl ?_
    simp only [run, hs]
    rfl
  have hn : (d.run s (.fido cop)).1 = some (d.fido.run old cop).1 := by simp only [run, hs]
  have hpr : (d.run s (.fido cop)).2 = (d.fido.run old cop).2 := by simp only [run, hs]
  have hold := h.ram old hs
  have hbn := h.run_ram hcn _ hn
  rw [hpr]
  rcases d.fido.run_cases old cop with ⟨-, ho⟩ | ⟨hr, ho⟩
  · exact .inl (ho s.flash)
  have hlt : marks .fido < (d.fido.run old cop).1.counter.toNat := by
    have hc := hcn .fido
    have hb : bump count (WriteOp.fido cop).domain .fido = count .fido + 1 := if_pos rfl
    rw [hr, counter_succ (by omega)]
    omega
  rw [ho]
  rcases SealedCredentialStore.Marked.writeDb (h.marked .fido) (d.Rejects s (.fido cop))
    hbn.1 with hl | hfr
  · exact .inl hl
  · refine .inr ⟨.fido, _, rfl, hlt, hbn.2, hfr, fun db _ hdb => ?_⟩
    rw [Option.some.inj (hn.symm.trans hdb)]

/-- Every operation seals nothing or is a fresh write of its domain. -/
theorem Inv.outcome (h : d.Inv s marks count) (op : WriteOp)
    (hcn : ∀ i, bump count op.domain i < genModulus) :
    d.Outcome s marks count op ((d.run s op).2.ops s.flash) := by
  rcases op with cop | ⟨record, data⟩ | record | data | _ | data | _
  · exact h.outcome_fido hcn
  · exact (h.outcome_piv hcn (d.piv.writesCell_write record data) rfl).whenOpen
  · exact (h.outcome_piv hcn (d.piv.writesCell_erase record) rfl).whenOpen
  · exact (h.outcome_blob hcn d.oath data rfl rfl rfl rfl (by simp)).whenOpen
  · exact (h.outcome_blob hcn d.oath [] rfl rfl rfl rfl (by simp)).whenOpen
  · exact (h.outcome_blob hcn d.openPgp data rfl rfl rfl rfl (by simp)).whenOpen
  · exact (h.outcome_blob hcn d.openPgp [] rfl rfl rfl rfl (by simp)).whenOpen

/-! ## One event -/

/-- Marks after a fresh write of domain `i` that left the flash `f'`. -/
theorem Inv.marked_update (h : d.Inv s marks count) (hi : op.domain = some i) {g n : Nat}
    (hmr : d.Marked i ((d.run s op).2.crash n s.flash) g) (k : Domain) :
    d.Marked k ((d.run s op).2.crash n s.flash) (Function.update marks i g k) := by
  by_cases hk : k = i
  · subst hk
    rwa [Function.update_self]
  · rw [Function.update_of_ne hk]
    exact (h.marked k).frame (by rw [hi]; exact fun he => hk (Option.some.inj he).symm) n

theorem update_le_bump (hle : ∀ i, marks i ≤ count i) {o : Option Domain} (hg : g ≤ bump count o i)
    (k : Domain) :
    Function.update marks i g k ≤ bump count o k := by
  by_cases hk : k = i
  · subst hk
    rwa [Function.update_self]
  · rw [Function.update_of_ne hk]
    exact Nat.le_trans (hle k) (le_bump count o k)

/-- The log after a fresh write whose calls of `seal` are `calls`, or the first of them. -/
theorem Inv.fresh_append (h : d.Inv s marks count) (hlt : marks i < g) (hg : g < genModulus)
    {calls : List SealCall} (hcl : List.Sublist (calls.map SealCall.nonce) (i.nonces g)) :
    FreshLog.Fresh keys ((s.log ++ calls).map SealCall.nonce) (Function.update marks i g) := by
  rw [List.map_append]
  exact h.fresh.append ((nodup_nonces i hg).sublist hcl)
    (fun k hk => mem_nonces hg (hcl.subset hk)) hlt

theorem Inv.step (h : d.Inv s marks count) {e : Event}
    (hcn : ∀ i, bump count e.domain i < genModulus) (he : d.FirstRecordWhole s e) :
    ∃ marks', d.Inv (d.step s e) marks' (bump count e.domain) := by
  have hle : ∀ i, marks i ≤ bump count e.domain i := fun i =>
    Nat.le_trans (h.le i) (le_bump count _ i)
  rcases e with op | ⟨op, n⟩ | _
  · rcases h.outcome op hcn with hn | ⟨i, g, hi, hlt, hg, hw, hr⟩
    · have hfl : (d.run s op).2.after s.flash = s.flash := by rw [Prog.after, hn]; rfl
      refine ⟨marks, fun i => ?_, hle, ?_, h.run_ram hcn⟩
      · simp only [SealedStores.step, hfl]
        exact h.marked i
      · simp only [SealedStores.step, hn, notes_nil, List.append_nil]
        exact h.fresh
    · have haf := Prog.crash_of_size_le (Nat.le_refl (size ((d.run s op).2.ops s.flash)))
      have hmr : d.Marked i
          ((d.run s op).2.crash (size ((d.run s op).2.ops s.flash)) s.flash) g := by
        rw [haf]
        exact hw.after
      refine ⟨Function.update marks i g, fun k => ?_, update_le_bump h.le hg, ?_, ?_⟩
      · simp only [SealedStores.step, ← haf]
        exact h.marked_update hi hmr k
      · refine h.fresh_append hlt (Nat.lt_of_le_of_lt hg (hcn i)) ?_
        rw [hw.notes]
      intro db hdb
      refine ⟨?_, (h.run_ram hcn db hdb).2⟩
      by_cases hf : i = .fido
      · rw [hf]
        exact Nat.le_of_eq (hr db hf hdb)
      · rw [Function.update_of_ne (Ne.symm hf)]
        exact (h.run_ram hcn db hdb).1
  · obtain ⟨hwh, hc⟩ := he
    rcases h.outcome op hcn with hn | ⟨i, g, hi, hlt, hg, hw, -⟩
    · have hfl : (d.run s op).2.crash n s.flash = s.flash := by rw [Prog.crash, hn]; rfl
      refine ⟨marks, Inv.reopen (fun i => ?_) hle ?_⟩
      · rw [hfl]
        exact h.marked i
      · rw [hn, cut_nil, notes_nil, List.append_nil]
        exact h.fresh
    · refine ⟨Function.update marks i g, Inv.reopen (h.marked_update hi (hw.crash n hwh hc))
        (update_le_bump h.le hg) ?_⟩
      refine h.fresh_append hlt (Nat.lt_of_le_of_lt hg (hcn i)) ?_
      rw [← hw.notes]
      exact (notes_cut_sublist n _).map _
  · exact ⟨marks, Inv.reopen h.marked hle h.fresh⟩

/-! ## Whole runs -/

def writesIn (i : Domain) (es : List Event) : Nat := es.countP fun e => e.domain = some i

theorem writesIn_cons (count : Domain → Nat) (i : Domain) (e : Event) (es : List Event) :
    count i + writesIn i (e :: es) = bump count e.domain i + writesIn i es := by
  unfold writesIn bump
  rw [List.countP_cons]
  by_cases he : e.domain = some i
  · simp only [he, decide_true, if_true]
    omega
  · simp [he]

/-- A run whose cut writes have their first record down keeps the invariant. -/
theorem Inv.run (h : d.Inv s marks count) {es : List Event}
    (hcn : ∀ i, count i + writesIn i es < genModulus)
    (hes : Runs.Every d.step d.FirstRecordWhole s es) :
    ∃ marks' count', d.Inv (Runs.run d.step s es) marks' count' := by
  induction es generalizing s marks count with
  | nil => exact ⟨marks, count, h⟩
  | cons e es ih =>
    have hst : ∀ i, bump count e.domain i < genModulus := by
      intro i
      have hi := hcn i
      rw [writesIn_cons] at hi
      omega
    obtain ⟨marks', h'⟩ := h.step hst hes.1
    exact ih h' (fun i => by rw [← writesIn_cons]; exact hcn i) hes.2

theorem Inv.initial (d : SealedStores) : d.Inv d.initial (fun _ => 0) (fun _ => 0) :=
  Inv.reopen (Marked.blank d) (fun _ => Nat.le_refl 0) FreshLog.Fresh.nil

/-- Nonce uniqueness. In a run from blank flash with fewer than 2^64 writes in each domain, whose
  cut writes all have their first record down whole, calls of `seal` with the same nonce have the
  same plaintext. -/
theorem nonces_unique (d : SealedStores) (es : List Event) (hcount : ∀ i, writesIn i es < 2 ^ 64)
    (hes : Runs.Every d.step d.FirstRecordWhole d.initial es) :
    ∀ a ∈ (Runs.run d.step d.initial es).log, ∀ b ∈ (Runs.run d.step d.initial es).log,
      a.nonce = b.nonce → a.plaintext = b.plaintext := by
  obtain ⟨marks, count, h⟩ := (Inv.initial d).run
    (fun i => by simpa [genModulus] using hcount i) hes
  intro a ha b hb hab
  rw [List.inj_on_of_nodup_map h.fresh.nodup ha hb hab]

/-! ## Concrete runs -/

instance (d : SealedStores) (s : State) : (op : WriteOp) → (n : Nat) → Decidable (d.Rejects s op n)
  | .fido _, _ => inferInstanceAs (Decidable True)
  | .pivWrite _ _, _ => inferInstanceAs (Decidable True)
  | .pivErase _, _ => inferInstanceAs (Decidable True)
  | .oathSave data, n => inferInstanceAs (Decidable (d.oath.CutRejected s.flash data n))
  | .oathClear, n => inferInstanceAs (Decidable (d.oath.CutRejected s.flash [] n))
  | .openPgpSave data, n => inferInstanceAs (Decidable (d.openPgp.CutRejected s.flash data n))
  | .openPgpClear, n => inferInstanceAs (Decidable (d.openPgp.CutRejected s.flash [] n))

instance (d : SealedStores) (s : State) : (e : Event) → Decidable (d.FirstRecordWhole s e)
  | .write _ => inferInstanceAs (Decidable True)
  | .cut _ _ => inferInstanceAs (Decidable (_ ∧ _))
  | .restart => inferInstanceAs (Decidable True)

/-- The stores on the first twenty sector pairs. -/
def sectorStores : SealedStores where
  aead := Aead.plain
  cbor := Wire.Cbor.heads
  region k := sectorPair ⟨k.val, Nat.lt_trans k.isLt (by decide)⟩
  apart := by decide +kernel

/-- A PIV object write that is cut once its record is down, one that returns, an OATH save that is
  cut in its second shard, and a PIN that is set. -/
def cutAfterFirstRecord : List Event :=
  [.cut (.pivWrite 30 [1]) 4150, .write (.pivWrite 30 [2]), .cut (.oathSave [3]) 4200,
    .write (.fido .clearPin)]

/-- Five calls with five nonces: the second PIV write has the generation after the first one's. -/
theorem nonces_unique_cutAfterFirstRecord :
    (∀ a ∈ (Runs.run sectorStores.step sectorStores.initial cutAfterFirstRecord).log,
      ∀ b ∈ (Runs.run sectorStores.step sectorStores.initial cutAfterFirstRecord).log,
        a.nonce = b.nonce → a.plaintext = b.plaintext) ∧
      (Runs.run sectorStores.step sectorStores.initial cutAfterFirstRecord).log.map SealCall.nonce =
        [nonce 1 1 1, nonce 2 1 1, nonce 1 2 0, nonce 1 2 1, nonce 1 0 0] :=
  ⟨nonces_unique sectorStores cutAfterFirstRecord
      (fun _ => Nat.lt_of_le_of_lt List.countP_le_length (by decide)) (by decide +kernel),
    by decide +kernel⟩

/-- A PIV object write that is cut with half of its ciphertext down, and another one. -/
def cutInFirstRecord : List Event := [.cut (.pivWrite 30 [1]) 4140, .write (.pivWrite 30 [2])]

/-- The generation of a torn record is used again: two plaintexts are sealed with one nonce. -/
theorem nonce_reused_after_cut :
    let log := (Runs.run sectorStores.step sectorStores.initial cutInFirstRecord).log
    log = [⟨nonce 1 1 1, toLE 8 1 ++ [1, 1]⟩, ⟨nonce 1 1 1, toLE 8 1 ++ [1, 2]⟩] ∧
      ¬ ∀ a ∈ log, ∀ b ∈ log, a.nonce = b.nonce → a.plaintext = b.plaintext := by
  have hlog : (Runs.run sectorStores.step sectorStores.initial cutInFirstRecord).log =
      [⟨nonce 1 1 1, toLE 8 1 ++ [1, 1]⟩, ⟨nonce 1 1 1, toLE 8 1 ++ [1, 2]⟩] := by
    decide +kernel
  refine ⟨hlog, ?_⟩
  rw [hlog]
  decide

end SealedStores

end AegisToken
