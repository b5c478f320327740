/-
  What an operation of the sealed credential store leaves behind when it fails.
  Every operation changes the database in memory and then flushes it, and an error of the flush is
  only reported. So the change stays: the getters show it, and the next flush that goes through
  stores it (`failed_insert_is_stored`). `failure_unchanged_iff` says for which calls that does no
  harm: the change is none, or it only raises a signature counter or consumes retries.
-/
import AegisToken.Core.SignCount
import Mathlib.Data.List.Forall2

namespace AegisToken
open ByteCodec FlashProg

/-! ## What the getters return -/

/-- The credential of a relying party: the last discoverable one, or the last one
  (`max_by_key` returns the last maximum). -/
def Cache.findByRp (cache : Cache) (rpId : List UInt8) : Option Credential :=
  (cache.val.filter fun c => c.rpId.val = rpId).foldl
    (fun best c =>
      match best with
      | none => some c
      | some b => if b.discoverable && !c.discoverable then some b else some c) none

/-- The same credential, with a counter that is not lower. -/
structure Raised (c c' : Credential) : Prop where
  same : { c with signCount := c'.signCount } = c'
  le : c.signCount ≤ c'.signCount

namespace Raised

variable {c c' : Credential}

theorem refl (c : Credential) : Raised c c := ⟨rfl, UInt32.le_refl _⟩

theorem id (h : Raised c c') : c'.id = c.id := by
  rw [← h.same]

theorem rpId (h : Raised c c') : c'.rpId = c.rpId := by
  rw [← h.same]

theorem discoverable (h : Raised c c') : c'.discoverable = c.discoverable := by
  rw [← h.same]

theorem succ (h : Raised c c') :
    Raised { c with signCount := Cache.saturatingSucc c.signCount }
      { c' with signCount := Cache.saturatingSucc c'.signCount } where
  same := by
    rw [← h.same]
  le := by
    have hle := UInt32.le_iff_toNat_le.mp h.le
    rw [UInt32.le_iff_toNat_le]
    dsimp only
    rw [SealedCredentialStore.toNat_saturatingSucc, SealedCredentialStore.toNat_saturatingSucc]
    omega

end Raised

/-- The getters of two databases return the same, but for counters and retries that moved in the
  restrictive direction. -/
structure SameAnswers (db db' : Database) : Prop where
  list : List.Forall₂ Raised db.cache.val db'.cache.val
  count : db'.cache.val.length = db.cache.val.length
  get : ∀ id, Option.Rel Raised (db.cache.get id) (db'.cache.get id)
  findByRp : ∀ rpId, Option.Rel Raised (db.cache.findByRp rpId) (db'.cache.findByRp rpId)
  pinHash : db'.pinHash = db.pinHash
  pinRetries : db'.pinRetries ≤ db.pinRetries

theorem find?_raised {l l' : List Credential} (h : List.Forall₂ Raised l l') (id : List UInt8) :
    Option.Rel Raised (l.find? fun c => c.id.val = id) (l'.find? fun c => c.id.val = id) := by
  induction h with
  | nil => exact .none
  | @cons c c' l l' hc _ ih =>
    rw [List.find?_cons, List.find?_cons, hc.id]
    split
    · exact .some hc
    · exact ih

theorem findIdx?_raised {l l' : List Credential} (h : List.Forall₂ Raised l l') (id : List UInt8) :
    (l'.findIdx? fun c => c.id.val = id) = l.findIdx? fun c => c.id.val = id := by
  induction h with
  | nil => rfl
  | @cons c c' l l' hc _ ih => rw [List.findIdx?_cons, List.findIdx?_cons, hc.id, ih]

theorem findByRp_raised {cache cache' : Cache} (h : List.Forall₂ Raised cache.val cache'.val)
    (rpId : List UInt8) : Option.Rel Raised (cache.findByRp rpId) (cache'.findByRp rpId) := by
  have hf : List.Forall₂ Raised (cache.val.filter fun c => c.rpId.val = rpId)
      (cache'.val.filter fun c => c.rpId.val = rpId) :=
    List.rel_filter (fun c c' hc => by dsimp only; rw [hc.rpId]) h
  refine List.rel_foldl ?_ Option.Rel.none hf
  intro best best' hbs c c' hc
  cases hbs with
  | none => exact .some hc
  | @some b b' hb =>
    dsimp only
    rw [hb.discoverable, hc.discoverable]
    split
    · exact .some hb
    · exact .some hc

/-- The list determines what the getters return. -/
theorem SameAnswers.of_list {db db' : Database}
    (hls : List.Forall₂ Raised db.cache.val db'.cache.val) (hp : db'.pinHash = db.pinHash)
    (hr : db'.pinRetries ≤ db.pinRetries) : SameAnswers db db' where
  list := hls
  count := hls.length_eq.symm
  get id := find?_raised hls id
  findByRp rpId := findByRp_raised hls rpId
  pinHash := hp
  pinRetries := hr

theorem SameAnswers.refl (db : Database) : SameAnswers db db :=
  .of_list (List.forall₂_same.mpr fun c _ => Raised.refl c) rfl (UInt8.le_refl _)

/-! ## Operations on two such databases -/

section Lists

variable {l l' : List Credential}

theorem modify_raised (h : List.Forall₂ Raised l l') {g g' : Credential → Credential} (i : Nat)
    (hg : ∀ c c', l[i]? = some c → l'[i]? = some c' → Raised c c' → Raised (g c) (g' c')) :
    List.Forall₂ Raised (l.modify i g) (l'.modify i g') := by
  induction h generalizing i with
  | nil =>
    rw [List.modify_nil, List.modify_nil]
    exact .nil
  | @cons c c' l l' hc hl ih =>
    cases i with
    | zero => exact .cons (hg c c' rfl rfl hc) hl
    | succ i => exact .cons hc (ih i hg)

theorem set_raised (h : List.Forall₂ Raised l l') (i : Nat) {c c' : Credential}
    (hc : Raised c c') : List.Forall₂ Raised (l.set i c) (l'.set i c') := by
  induction h generalizing i with
  | nil => exact .nil
  | cons ha hl ih =>
    cases i with
    | zero => exact .cons hc hl
    | succ i => exact .cons ha (ih i)

theorem getLast?_raised (h : List.Forall₂ Raised l l') :
    Option.Rel Raised l.getLast? l'.getLast? := by
  have hr := List.rel_reverse h
  rw [← List.head?_reverse, ← List.head?_reverse]
  generalize l.reverse = r, l'.reverse = r' at hr
  cases hr with
  | nil => exact .none
  | cons hc _ => exact .some hc

end Lists

section Caches

variable {cache cache' : Cache} (h : List.Forall₂ Raised cache.val cache'.val)

include h in
theorem swapRemove_raised (i : Nat) :
    List.Forall₂ Raised (cache.swapRemove i).val (cache'.swapRemove i).val := by
  unfold Cache.swapRemove
  have hls := getLast?_raised h
  generalize cache.val.getLast? = last, cache'.val.getLast? = last' at hls
  cases hls with
  | none => exact h
  | some hc =>
    dsimp only
    rw [List.dropLast_eq_take, List.dropLast_eq_take, List.length_set, List.length_set, h.length_eq]
    exact List.forall₂_take _ (set_raised h i hc)

include h in
/-- Both caches have room, or neither has. -/
theorem push_raised (c : Credential) :
    Option.Rel (fun x y : Cache => List.Forall₂ Raised x.val y.val) (cache.push c)
      (cache'.push c) := by
  unfold Cache.push
  have hl := h.length_eq
  by_cases hrm : cache.val.length < maxCredentials
  · rw [dif_pos hrm, dif_pos (hl ▸ hrm)]
    exact .some (List.rel_append h (.cons (Raised.refl c) .nil))
  · rw [dif_neg hrm, dif_neg (hl ▸ hrm)]
    exact .none

theorem get_of_position {id : List UInt8} {i : Nat} (h : cache.position id = some i) :
    cache.get id = cache.val[i]? := by
  unfold Cache.get
  rw [← (List.findIdx?_eq_some_iff_findIdx_eq.mp h).2, List.find?_eq_getElem?_findIdx]

include h in
/-- Both caches have the credential, or neither has. -/
theorem raise_raised (id : List UInt8) :
    Option.Rel (fun x y : UInt32 × Cache => List.Forall₂ Raised x.2.val y.2.val)
      (cache.raise id) (cache'.raise id) := by
  have hs : cache'.position id = cache.position id := findIdx?_raised h id
  have hg : Option.Rel Raised (cache.get id) (cache'.get id) := find?_raised h id
  unfold Cache.raise
  rcases hp : cache.position id with _ | i
  · rw [hs, hp]
    exact .none
  have hfn := get_of_position hp
  have hfn' := get_of_position (hs.trans hp)
  rw [hs, hp]
  generalize cache.get id = found, cache'.get id = found' at hg hfn hfn'
  cases hg with
  | none => exact .none
  | @some c c' hc =>
    refine .some (modify_raised h i fun a a' ha ha' _ => ?_)
    obtain rfl : c = a := Option.some.inj (hfn.trans ha)
    obtain rfl : c' = a' := Option.some.inj (hfn'.trans ha')
    exact hc.succ

end Caches

namespace SealedCredentialStore

variable {s : SealedCredentialStore} {db db' : Database}

/-- An operation does the same to both databases. -/
theorem sameAnswers_run (h : SameAnswers db db') (op : CredentialOp) :
    SameAnswers (s.run db op).1 (s.run db' op).1 := by
  cases op with
  | setPin hash | clearPin => exact .of_list h.list rfl (UInt8.le_refl _)
  | setPinRetries retries => exact .of_list h.list h.pinHash (UInt8.le_refl _)
  | reset => exact .of_list .nil rfl (UInt8.le_refl _)
  | clear => exact .of_list .nil h.pinHash h.pinRetries
  | insert c =>
    have hp : db'.cache.position c.id.val = db.cache.position c.id.val :=
      findIdx?_raised h.list c.id.val
    simp only [run, insert, hp]
    split
    · exact .of_list (modify_raised h.list _ fun _ _ _ _ _ => Raised.refl c) h.pinHash h.pinRetries
    have hps := push_raised h.list c
    generalize db.cache.push c = pushed, db'.cache.push c = pushed' at hps
    cases hps with
    | none => exact h
    | some hch => exact .of_list hch h.pinHash h.pinRetries
  | nextSignCount id =>
    have hrs := raise_raised h.list id
    simp only [run, nextSignCount]
    generalize db.cache.raise id = raised, db'.cache.raise id = raised' at hrs
    cases hrs with
    | none => exact h
    | some hch => exact .of_list hch h.pinHash h.pinRetries
  | remove id =>
    have hp : db'.cache.position id = db.cache.position id := findIdx?_raised h.list id
    simp only [run, remove, hp]
    split
    · exact .of_list (swapRemove_raised h.list _) h.pinHash h.pinRetries
    · exact .of_list h.list h.pinHash h.pinRetries

/-! ## Operations that fail -/

/-- The operation reports an error: the flash fails during its write, or it stops before it. -/
def Fails (s : SealedCredentialStore) (f : Flash) (db : Database) (op : CredentialOp)
    (fault : Option Nat) : Prop :=
  fault.isSome = true ∨ ∃ e, (s.run db op).2.result f = .error e

/-- Where the operation fails, the getters return the same as before, and what the next operation
  that goes through stores is as if there had been no failed one. -/
def FailureUnchanged (s : SealedCredentialStore) (f : Flash) (db : Database) (op : CredentialOp) :
    Prop :=
  ∀ fault, s.Fails f db op fault → SameAnswers db (s.run db op).1 ∧
    ∀ next, (s.run (s.run db op).1 next).2.result (flashAfter (s.run db op).2 fault f) = .ok () →
      SameAnswers (s.run db next).1 (s.run (s.run db op).1 next).1

/-- The credential is new and there is no room, or it is the stored one up to a higher counter. -/
def InsertHarmless (db : Database) (c : Credential) : Prop :=
  match db.cache.get c.id.val with
  | some old => Raised old c
  | none => maxCredentials ≤ db.cache.val.length

/-- The change that the operation makes in memory is none, or only restrictive. -/
def Harmless (db : Database) : CredentialOp → Prop
  | .insert c => InsertHarmless db c
  | .remove id => db.cache.get id = none
  | .nextSignCount _ => True
  | .setPin hash => db.pinHash = some hash ∧ defaultPinRetries ≤ db.pinRetries
  | .clearPin => db.pinHash = none ∧ defaultPinRetries ≤ db.pinRetries
  | .setPinRetries retries => retries ≤ db.pinRetries
  | .reset => db.cache.val = [] ∧ db.pinHash = none ∧ defaultPinRetries ≤ db.pinRetries
  | .clear => db.cache.val = []

theorem get_eq_none_of_position {cache : Cache} {id : List UInt8}
    (h : cache.position id = none) : cache.get id = none := by
  rw [Cache.position, List.findIdx?_eq_none_iff] at h
  rw [Cache.get, List.find?_eq_none]
  intro c hc
  rw [h c hc]
  exact Bool.false_ne_true

theorem get_of_position_some {cache : Cache} {id : List UInt8} {i : Nat}
    (h : cache.position id = some i) : ∃ c, cache.get id = some c ∧ cache.val[i]? = some c := by
  have hg := get_of_position h
  rw [Cache.position, List.findIdx?_eq_some_iff_findIdx_eq] at h
  exact ⟨cache.val[i], hg.trans (List.getElem?_eq_getElem h.1), List.getElem?_eq_getElem h.1⟩

theorem sameAnswers_insert (c : Credential) :
    SameAnswers db (s.insert db c).1 ↔ InsertHarmless db c := by
  unfold SealedCredentialStore.insert InsertHarmless
  rcases hp : db.cache.position c.id.val with _ | i
  · rw [get_eq_none_of_position hp]
    unfold Cache.push
    by_cases hrm : db.cache.val.length < maxCredentials
    · rw [dif_pos hrm]
      refine ⟨fun h => ?_, fun h => absurd hrm h.not_gt⟩
      have hcn : (db.cache.val ++ [c]).length = db.cache.val.length := h.count
      simp at hcn
    · rw [dif_neg hrm]
      exact ⟨fun _ => Nat.le_of_not_lt hrm, fun _ => SameAnswers.refl db⟩
  · obtain ⟨old, hg, hold⟩ := get_of_position_some hp
    rw [hg]
    constructor
    · intro h
      have hls : List.Forall₂ Raised db.cache.val (db.cache.val.modify i fun _ => c) := h.list
      obtain ⟨hi, hold⟩ := List.getElem?_eq_some_iff.mp hold
      have hi' : i < (db.cache.val.modify i fun _ => c).length := by rwa [List.length_modify]
      have hat := hls.get hi hi'
      simp only [List.get_eq_getElem, List.getElem_modify, if_pos] at hat
      rwa [hold] at hat
    · intro h
      refine .of_list ?_ rfl (UInt8.le_refl _)
      have hsm := List.forall₂_same.mpr fun c (_ : c ∈ db.cache.val) => Raised.refl c
      have hm : List.Forall₂ Raised (db.cache.val.modify i fun c => c)
          (db.cache.val.modify i fun _ => c) := by
        refine modify_raised hsm i fun a a' ha _ _ => ?_
        obtain rfl : old = a := Option.some.inj (hold.symm.trans ha)
        exact h
      rwa [show db.cache.val.modify i (fun c => c) = db.cache.val from List.modify_id ..] at hm

theorem sameAnswers_remove (id : List UInt8) :
    SameAnswers db (s.remove db id).1 ↔ db.cache.get id = none := by
  unfold SealedCredentialStore.remove
  rcases hps : db.cache.position id with _ | i
  · rw [get_eq_none_of_position hps]
    refine ⟨fun _ => rfl, fun _ => ?_⟩
    exact .of_list (SameAnswers.refl db).list rfl (UInt8.le_refl _)
  obtain ⟨c, hg, hc⟩ := get_of_position_some hps
  rw [hg]
  refine ⟨fun h => ?_, nofun⟩
  -- The cache is not empty, so it gets shorter.
  have hcn : (db.cache.swapRemove i).val.length = db.cache.val.length := h.count
  have hp : 0 < db.cache.val.length :=
    Nat.lt_of_le_of_lt (Nat.zero_le i) (List.getElem?_eq_some_iff.mp hc).1
  unfold Cache.swapRemove at hcn
  rcases hls : db.cache.val.getLast? with _ | last
  · rw [List.getLast?_eq_none_iff] at hls
    rw [hls] at hp
    cases hp
  · rw [hls] at hcn
    simp only [List.length_dropLast, List.length_set] at hcn
    omega

theorem sameAnswers_nextSignCount (id : List UInt8) :
    SameAnswers db (s.nextSignCount db id).1 := by
  unfold SealedCredentialStore.nextSignCount
  rcases hrs : db.cache.raise id with _ | ⟨count, cache⟩
  · exact SameAnswers.refl db
  obtain ⟨i, c, -, hat, rfl, rfl⟩ := raise_eq hrs
  refine .of_list (List.forall₂_iff_get.mpr ⟨(List.length_modify ..).symm, ?_⟩) rfl
    (UInt8.le_refl _)
  intro j hj hj'
  simp only [flush, Cache.modify, List.get_eq_getElem, List.getElem_modify]
  split
  · next heq =>
    subst heq
    obtain rfl : db.cache.val[i] = c := Option.some.inj ((List.getElem?_eq_getElem hj).symm.trans hat)
    exact ⟨rfl, UInt32.le_iff_toNat_le.mpr (le_saturatingSucc _)⟩
  · exact Raised.refl _

theorem sameAnswers_run_iff (op : CredentialOp) :
    SameAnswers db (s.run db op).1 ↔ Harmless db op := by
  have hls := (SameAnswers.refl db).list
  have hem : List.Forall₂ Raised db.cache.val [] ↔ db.cache.val = [] :=
    ⟨fun h => List.forall₂_nil_right_iff.mp h, fun h => by rw [h]; exact .nil⟩
  cases op with
  | insert c => exact sameAnswers_insert c
  | remove id => exact sameAnswers_remove id
  | nextSignCount id => exact ⟨fun _ => trivial, fun _ => sameAnswers_nextSignCount id⟩
  | setPin hash | clearPin =>
    exact ⟨fun h => ⟨h.pinHash.symm, h.pinRetries⟩, fun h => .of_list hls h.1.symm h.2⟩
  | setPinRetries retries => exact ⟨fun h => h.pinRetries, fun h => .of_list hls rfl h⟩
  | reset =>
    exact ⟨fun h => ⟨hem.mp h.list, h.pinHash.symm, h.pinRetries⟩,
      fun h => .of_list (hem.mpr h.1) h.2.1.symm h.2.2⟩
  | clear =>
    exact ⟨fun h => hem.mp h.list, fun h => .of_list (hem.mpr h) rfl (UInt8.le_refl _)⟩

theorem failure_unchanged_iff (s : SealedCredentialStore) (f : Flash) (db : Database)
    (op : CredentialOp) : s.FailureUnchanged f db op ↔ Harmless db op := by
  constructor
  · intro h
    exact (sameAnswers_run_iff op).mp (h (some 0) (.inl rfl)).1
  · intro h fault _
    have hsame := (sameAnswers_run_iff (s := s) op).mpr h
    exact ⟨hsame, fun next _ => sameAnswers_run hsame next⟩

/-- The credential of an insert whose flush fails is listed, and the next change of the retry count
  stores it. -/
theorem failed_insert_is_stored :
    ¬sectorStore.FailureUnchanged blank Database.initial (.insert exampleCredential) ∧
    (sectorStore.openDb (flashAfter
      (sectorStore.run (sectorStore.run Database.initial (.insert exampleCredential)).1
        (.setPinRetries 7)).2 none
      (flashAfter (sectorStore.run Database.initial (.insert exampleCredential)).2 (some 0)
        blank))).toOption.map (·.cache.val) = some [exampleCredential] := by
  refine ⟨fun h => ?_, by decide +kernel⟩
  have hcount := (h (some 0) (.inl rfl)).1.count
  exact absurd hcount nofun

end SealedCredentialStore

end AegisToken
