/-
  The counters of HOTP credentials over whole histories of the OATH applet.
  A code is released only after the next counter is saved, so what the store holds is never behind
  what was released, and a SELECT brings no counter back. `Floors` says this of a list of
  credentials: each counter is at least the one its PUT gave, and above every counter released
  since. It holds of the credentials in RAM and of those in the store.
  Two things end it, until the next PUT of the name: a PUT that is not saved leaves RAM and store
  with different credentials, and a calculation with the last counter starts again at zero.
-/
import AegisToken.Applets.OathAccessCode

namespace AegisToken.Applets.Oath
open ByteCodec History

variable {σ : Type} {K : OathCrypto} {S : OathStore σ} {content : σ → List UInt8}
  {l : List Credential}

/-! ## The statement -/

/-- A PUT of the name succeeded, with this counter. -/
def PutWith (name : List UInt8) (counter : Nat) (e : Log σ) : Prop :=
  ∃ apdu credential, e.event = .process apdu ∧ apdu.ins = insPut ∧
    putCredential apdu.data = some credential ∧ credential.name.val = name ∧
    credential.counter.toNat = counter ∧ e.answer.sw = .ok

def IsPut (name : List UInt8) (e : Log σ) : Prop := ∃ counter, PutWith name counter e

/-- The entry calculates an HOTP code for the name, with this counter. -/
def Counts (S : OathStore σ) (name : List UInt8) (counter : UInt32) (e : Log σ) : Prop :=
  ∃ k, calculation S e.before e.event = some k ∧ k.credential.name.val = name ∧
    k.credential.kind = typeHotp ∧ k.credential.counter = counter

/-- It releases the code. -/
def Releases (S : OathStore σ) (name : List UInt8) (counter : UInt32) (e : Log σ) : Prop :=
  Counts S name counter e ∧ e.answer.sw = .ok

/-- Since the last PUT of the name: its counter, or one more than a counter that was released. -/
def Floor (S : OathStore σ) (name : List UInt8) (floor : Nat) : List (Log σ) → Prop :=
  Since (fun e _ => PutWith name floor e ∨
    ∃ counter, Releases S name counter e ∧ floor = counter.toNat + 1) (IsPut name)

/-- A PUT of the name replaced the credential, and was not saved. -/
def PutUnsaved (S : OathStore σ) (name : List UInt8) (e : Log σ) : Prop :=
  ∃ apdu credential, e.event = .process apdu ∧ apdu.ins = insPut ∧
    putCredential apdu.data = some credential ∧ credential.name.val = name ∧
    (e.before.loadState S).closed = false ∧ Authorised (e.before.loadState S) ∧
    ((e.before.loadState S).install credential).isSome ∧ e.answer.sw ≠ .ok

/-- Since the last PUT of the name, one was not saved, or the last counter was used. -/
def Disturbed (S : OathStore σ) (name : List UInt8) : List (Log σ) → Prop :=
  Since (fun e _ => PutUnsaved S name e ∨ Counts S name (2 ^ 32 - 1) e) (IsPut name)

def counterOf (credentials : List Credential) (name : List UInt8) : Option UInt32 :=
  (credentials.find? fun credential => credential.name.val = name).map (·.counter)

/-- A code answers a calculation; where it is an HOTP code, the next counter is in the store, and
  the counter is not below a floor. -/
structure HotpFresh (K : OathCrypto) (S : OathStore σ) (content : σ → List UInt8) (e : Log σ)
    (past : List (Log σ)) : Prop where
  code : (∃ apdu, e.event = .process apdu ∧ apdu.ins = insCalculate) ∨ e.event = .confirm →
    e.answer.sw = .ok → ∃ k code, calculation S e.before e.event = some k ∧
      computeCredential K k.credential k.challenge k.truncated = some code ∧
      e.answer = codeAnswer k.truncated code
  saved : ∀ name counter, Releases S name counter e → ∃ d : Oath σ,
    content (step K S e.before e.event).2.store = d.encodeState ∧
    counterOf d.credentials.val name = some (counter + 1)
  fresh : ∀ name counter, Releases S name counter e → ¬Disturbed S name past →
    ∀ floor, Floor S name floor past → floor ≤ counter.toNat

/-! ## Credentials with different names -/

def Distinct (credentials : List Credential) : Prop :=
  (credentials.map fun credential => credential.name.val).Nodup

theorem Distinct.eq_of_name (h : Distinct l) {a b : Credential} (ha : a ∈ l) (hb : b ∈ l)
    (hnm : a.name.val = b.name.val) : a = b :=
  List.inj_on_of_nodup_map h ha hb hnm

theorem counterOf_eq (h : Distinct l) {credential : Credential} (hm : credential ∈ l) :
    counterOf l credential.name.val = some credential.counter := by
  unfold counterOf
  rcases hfn : l.find? fun x => x.name.val = credential.name.val with _ | found
  · exact absurd (List.find?_eq_none.mp hfn credential hm) (by simp)
  have hnm : found.name.val = credential.name.val := by
    simpa using List.find?_some hfn
  rw [hfn, h.eq_of_name (List.mem_of_find?_eq_some hfn) hm hnm]
  rfl

theorem Distinct.set (h : Distinct l) {index : Nat} {old new : Credential}
    (hold : l[index]? = some old) (hnm : new.name.val = old.name.val) :
    Distinct (l.set index new) := by
  obtain ⟨hlt, hg⟩ := List.getElem?_eq_some_iff.mp hold
  have hlt' : index < (l.map fun credential => credential.name.val).length := by
    rw [List.length_map]
    exact hlt
  have hsm : (l.map fun credential => credential.name.val)[index] = new.name.val := by
    rw [List.getElem_map, hg, hnm]
  unfold Distinct
  rw [List.map_set, ← hsm, List.set_getElem_self]
  exact h

theorem Distinct.append (h : Distinct l) {new : Credential}
    (hn : ∀ credential ∈ l, credential.name.val ≠ new.name.val) : Distinct (l ++ [new]) := by
  unfold Distinct
  rw [List.map_append]
  refine List.nodup_append.mpr ⟨h, List.nodup_singleton _, ?_⟩
  intro name hnm name' hnm' heq
  obtain ⟨credential, hm, rfl⟩ := List.mem_map.mp hnm
  exact hn credential hm (heq.trans (List.mem_singleton.mp hnm'))

/-- The last entry in the place of another one, and the list without its end. -/
theorem perm_set_dropLast {α : Type} {l : List α} (hne : l ≠ []) {i : Nat} (hi : i < l.length) :
    (l[i] :: (l.set i (l.getLast hne)).dropLast).Perm l := by
  obtain ⟨init, last, rfl⟩ : ∃ init last, l = init ++ [last] :=
    ⟨_, _, (List.dropLast_append_getLast hne).symm⟩
  rw [List.getLast_append_singleton]
  have he : (last :: init).Perm (init ++ [last]) := (List.perm_append_singleton last init).symm
  by_cases hlt : i < init.length
  · rw [List.set_append_left _ _ hlt, List.dropLast_concat, List.getElem_append_left hlt]
    calc (init[i] :: init.set i last).Perm (init[i] :: last :: init.eraseIdx i) :=
          (List.set_perm_cons_eraseIdx hlt last).cons _
      List.Perm _ (last :: init[i] :: init.eraseIdx i) := List.Perm.swap _ _ _
      List.Perm _ (last :: init) := (List.getElem_cons_eraseIdx_perm hlt).cons _
      List.Perm _ (init ++ [last]) := he
  · have hl : i = init.length := by
      rw [List.length_append, List.length_singleton] at hi
      omega
    subst hl
    rw [List.set_append_right _ _ (Nat.le_refl _), Nat.sub_self, List.set_cons_zero,
      List.dropLast_concat, List.getElem_concat_length rfl]
    exact he

theorem swapRemove_perm (cs : Credentials) {index : Nat} (hlt : index < cs.val.length) :
    (cs.val[index] :: (cs.swapRemove index).val).Perm cs.val := by
  have hne : cs.val ≠ [] := List.ne_nil_of_length_pos (Nat.zero_lt_of_lt hlt)
  have hv : (cs.swapRemove index).val = (cs.val.set index (cs.val.getLast hne)).dropLast := by
    unfold Credentials.swapRemove
    rw [List.getLast?_eq_some_getLast hne]
  rw [hv]
  exact perm_set_dropLast hne hlt

/-- PUT changes the credential with its name only. -/
theorem install_mem {c : Oath σ} {credential : Credential} {credentials : Credentials}
    (hd : Distinct c.credentials.val) (h : c.install credential = some credentials) :
    Distinct credentials.val ∧ ∀ x ∈ credentials.val,
      x = credential ∨ (x ∈ c.credentials.val ∧ x.name.val ≠ credential.name.val) := by
  unfold install at h
  rcases hfn : c.find credential.name.val with _ | index
  · rw [hfn] at h
    unfold Credentials.push at h
    dsimp only at h
    split at h
    · cases h
      have hn : ∀ x ∈ c.credentials.val, x.name.val ≠ credential.name.val := by
        intro x hx
        have := List.findIdx?_eq_none_iff.mp hfn x hx
        simpa using this
      refine ⟨hd.append hn, fun x hx => ?_⟩
      rcases List.mem_append.mp hx with hx | hx
      · exact .inr ⟨hx, hn x hx⟩
      · exact .inl (List.mem_singleton.mp hx)
    · cases h
  · rw [hfn] at h
    cases h
    obtain ⟨hlt, hnm, -⟩ := List.findIdx?_eq_some_iff_getElem.mp hfn
    have hold : c.credentials.val[index]? = some c.credentials.val[index] :=
      List.getElem?_eq_getElem hlt
    have hs : Distinct (c.credentials.val.set index credential) :=
      hd.set hold (by simpa using Eq.symm (of_decide_eq_true hnm))
    refine ⟨hs, fun x hx => ?_⟩
    by_cases hx' : x.name.val = credential.name.val
    · exact .inl (hs.eq_of_name hx (List.mem_set hlt _) hx')
    · rcases List.mem_or_eq_of_mem_set hx with hm | heq
      · exact .inr ⟨hm, hx'⟩
      · exact absurd (congrArg (fun y : Credential => y.name.val) heq) hx'

/-! ## Floors -/

/-- Every counter is at least the floors of its name. -/
structure Floors (S : OathStore σ) (past : List (Log σ)) (l : List Credential) : Prop where
  distinct : Distinct l
  floors : ∀ credential ∈ l, ¬Disturbed S credential.name.val past →
    ∀ floor, Floor S credential.name.val floor past → floor ≤ credential.counter.toNat

/-- The store is blank or holds such credentials. -/
def Stored (S : OathStore σ) (content : σ → List UInt8) (past : List (Log σ)) (st : σ) : Prop :=
  content st = [] ∨ ∃ d : Oath σ, content st = d.encodeState ∧ Floors S past d.credentials.val

section
variable {c : Oath σ} {past : List (Log σ)} {x : Log σ} {name : List UInt8}
  {credential : Credential} {k : Calculation}

theorem floors_nil : Floors S past [] := ⟨List.nodup_nil, nofun⟩

theorem floor_later {floor : Nat} (ht : ¬IsPut name x)
    (hl : ∀ counter, ¬Releases S name counter x) (h : Floor S name floor (x :: past)) :
    Floor S name floor past := by
  rcases h with (hp | ⟨counter, hr, -⟩) | ⟨-, hps⟩
  · exact absurd ⟨floor, hp⟩ ht
  · exact absurd hr (hl counter)
  · exact hps

theorem disturbed_later (hp : ¬IsPut name x) (h : Disturbed S name past) :
    Disturbed S name (x :: past) := .inr ⟨hp, h⟩

/-- An entry that says nothing about the name of a credential. -/
theorem Floors.later (h : Floors S past l) (hm : credential ∈ l)
    (hp : ¬IsPut credential.name.val x)
    (hr : ∀ counter, ¬Releases S credential.name.val counter x)
    (hds : ¬Disturbed S credential.name.val (x :: past)) {floor : Nat}
    (hfl : Floor S credential.name.val floor (x :: past)) :
    floor ≤ credential.counter.toNat :=
  h.floors credential hm (fun hd => hds (disturbed_later hp hd)) floor (floor_later hp hr hfl)

theorem Floors.quiet (h : Floors S past l) (hp : ∀ name, ¬IsPut name x)
    (hr : ∀ name counter, ¬Releases S name counter x) : Floors S (x :: past) l :=
  ⟨h.distinct, fun _ hm hds _ hfl =>
    h.later hm (hp _) (hr _) hds hfl⟩

theorem Stored.quiet {st : σ} (h : Stored S content past st) (hp : ∀ name, ¬IsPut name x)
    (hr : ∀ name counter, ¬Releases S name counter x) : Stored S content (x :: past) st :=
  h.imp id fun ⟨d, hd, hf⟩ => ⟨d, hd, hf.quiet hp hr⟩

theorem stored_save (hS : Keeps S content) (hn : Floors S past c.credentials.val)
    (hold : (c.saveState S).1 = false → Stored S content past c.store) :
    Stored S content past (c.saveState S).2.store := by
  rcases hsv : (c.saveState S).1 with _ | _
  · rcases hS.unsaved c.encodeState c.store with hkp | hwr
    · exact (hold hsv).imp hkp.trans fun ⟨d, hd, hf⟩ => ⟨d, hkp.trans hd, hf⟩
    · exact .inr ⟨c, hwr, hn⟩
  · exact .inr ⟨c, hS.saved _ _ hsv, hn⟩

/-! ## A counter that moves -/

theorem calculation_put {apdu : Apdu} (hi : apdu.ins = insPut) :
    calculation S c (.process apdu) = none :=
  if_neg fun hc => absurd (hi.symm.trans hc.1) (by decide)

theorem not_isPut_of_calculation {e : Event} (h : calculation S c e = some k) :
    ¬IsPut name (entry (step K S) c e) := by
  rintro ⟨_, apdu, credential, hev, hi, -⟩
  subst hev
  cases (calculation_put hi).symm.trans h

theorem counts_of_calculation {e : Event} {counter : UInt32} (h : calculation S c e = some k)
    (hc : Counts S name counter (entry (step K S) c e)) :
    k.credential.name.val = name ∧ k.credential.kind = typeHotp ∧
      k.credential.counter = counter := by
  obtain ⟨k', hk', hrs⟩ := hc
  cases h.symm.trans hk'
  exact hrs

theorem next_counter (h : credential.counter ≠ 2 ^ 32 - 1) :
    credential.next.counter.toNat = credential.counter.toNat + 1 :=
  toNat_add_one h

/-- The credentials with a counter moved, after the entry that moves it. -/
theorem Floors.count (h : Floors S past l) {e : Event} (hk : calculation S c e = some k)
    (hkn : k.credential.kind = typeHotp) (hin : l[k.index]? = some k.credential) :
    Floors S (entry (step K S) c e :: past) (l.set k.index k.credential.next) := by
  obtain ⟨hlt, hg⟩ := List.getElem?_eq_some_iff.mp hin
  have hs : Distinct (l.set k.index k.credential.next) := h.distinct.set hin rfl
  refine ⟨hs, fun credential hm hds floor hfl => ?_⟩
  have ht : ¬IsPut credential.name.val (entry (step K S) c e) := not_isPut_of_calculation hk
  by_cases hnm : credential.name.val = k.credential.name.val
  · have hnx : credential = k.credential.next :=
      hs.eq_of_name hm (List.mem_set hlt _) hnm
    subst hnx
    have hwr : k.credential.counter ≠ 2 ^ 32 - 1 := fun heq =>
      hds (.inl (.inr ⟨k, hk, rfl, hkn, heq⟩))
    rw [next_counter hwr]
    rcases hfl with (hp | ⟨counter, hr, rfl⟩) | ⟨-, hps⟩
    · exact absurd ⟨floor, hp⟩ ht
    · rw [(counts_of_calculation hk hr.1).2.2]
    · have hle := h.floors k.credential (hg ▸ List.getElem_mem hlt)
        (fun hd => hds (disturbed_later ht hd)) floor hps
      omega
  · rcases List.mem_or_eq_of_mem_set hm with hold | heq
    · exact h.later hold ht (fun counter hr => hnm (counts_of_calculation hk hr.1).1.symm) hds hfl
    · exact absurd (congrArg (fun y : Credential => y.name.val) heq) hnm

/-! ## A new credential -/

/-- The entry is a PUT that got as far as the installation. -/
structure Installs (S : OathStore σ) (x : Log σ) (credential : Credential) : Prop where
  event : ∃ apdu, x.event = .process apdu ∧ apdu.ins = insPut ∧
    putCredential apdu.data = some credential
  opened : (x.before.loadState S).closed = false
  authorised : Authorised (x.before.loadState S)
  room : ((x.before.loadState S).install credential).isSome

theorem Installs.putWith (h : Installs S x credential) {counter : Nat}
    (hp : PutWith name counter x) :
    credential.name.val = name ∧ credential.counter.toNat = counter := by
  obtain ⟨apdu, hev, -, hcr⟩ := h.event
  obtain ⟨apdu', credential', hev', -, hcr', hnm, hc, -⟩ := hp
  cases hev.symm.trans hev'
  cases hcr.symm.trans hcr'
  exact ⟨hnm, hc⟩

theorem Installs.not_releases (h : Installs S x credential) (counter : UInt32) :
    ¬Releases S name counter x := by
  rintro ⟨⟨k, hk, -⟩, -⟩
  obtain ⟨apdu, hev, hi, -⟩ := h.event
  rw [hev] at hk
  cases (calculation_put hi).symm.trans hk

/-- The credentials with the new one, after its PUT: the floor of its name is its counter, if it was
  saved. -/
theorem Floors.install (h : Floors S past l) (hx : Installs S x credential) {l' : List Credential}
    (hd : Distinct l')
    (hm' : ∀ y ∈ l', y = credential ∨ (y ∈ l ∧ y.name.val ≠ credential.name.val)) :
    Floors S (x :: past) l' := by
  refine ⟨hd, fun y hy hds floor hfl => ?_⟩
  rcases hm' y hy with rfl | ⟨hold, hnm⟩
  · by_cases hok : x.answer.sw = .ok
    · obtain ⟨apdu, hev, hi, hcr⟩ := hx.event
      rcases hfl with (hp | ⟨counter, hr, -⟩) | ⟨hst, -⟩
      · exact (hx.putWith hp).2.ge
      · exact absurd hr (hx.not_releases counter)
      · exact absurd ⟨_, apdu, y, hev, hi, hcr, rfl, rfl, hok⟩ hst
    · obtain ⟨apdu, hev, hi, hcr⟩ := hx.event
      exact absurd (.inl (.inl ⟨apdu, y, hev, hi, hcr, rfl, hx.opened, hx.authorised,
        hx.room, hok⟩)) hds
  · refine h.later hold (fun hp => ?_) hx.not_releases hds hfl
    obtain ⟨counter, hp⟩ := hp
    exact hnm (hx.putWith hp).1.symm

/-- What the store held, after a PUT that was not saved. -/
theorem Floors.unsaved (h : Floors S past l) (hx : Installs S x credential)
    (hok : x.answer.sw ≠ .ok) : Floors S (x :: past) l := by
  refine ⟨h.distinct, fun y hy hds floor hfl => ?_⟩
  have hp : ¬IsPut y.name.val x := by
    rintro ⟨_, _, _, -, -, -, -, -, hsw⟩
    exact hok hsw
  exact h.later hy hp hx.not_releases hds hfl

end

/-! ## One step -/

/-- The counters in RAM and in the store are not below their floors. -/
structure HotpInv (S : OathStore σ) (content : σ → List UInt8) (c : Oath σ)
    (past : List (Log σ)) : Prop where
  ram : Floors S past c.credentials.val
  stored : Stored S content past c.store

section
variable {c c' : Oath σ} {past : List (Log σ)} {x : Log σ} {e : Event} {apdu : Apdu}

theorem Stored.load (hS : Keeps S content) {st : σ} (h : Stored S content past st) :
    Stored S content past (S.load st).2 := by
  unfold Stored
  rw [hS.load_content]
  exact h

theorem HotpInv.reload (hS : Keeps S content) (h : HotpInv S content c past) :
    HotpInv S content (c.reload S) past := by
  have hs := h.stored.load hS
  rw [reload_eq]
  rcases hld : (S.load c.store).1 with _ | bytes
  · exact ⟨floors_nil, hs⟩
  dsimp only
  split
  · exact ⟨floors_nil, hs⟩
  rename_i hne
  rcases h.stored with hbl | ⟨d, hd, hf⟩
  · exact absurd ((hS.load_value hld).symm.trans hbl) hne
  · rw [(hS.load_value hld).symm.trans hd, decodeState_encodeState]
    exact ⟨hf, hs⟩

theorem HotpInv.loadState (hS : Keeps S content) (h : HotpInv S content c past) :
    HotpInv S content (c.loadState S) past := by
  rcases hld : c.loaded with _ | _
  · have hr : c.loadState S = c.reload S := by
      unfold Oath.reload
      rw [← hld]
    rw [hr]
    exact h.reload hS
  · rw [show c.loadState S = c from if_pos hld]
    exact h

theorem HotpInv.quiet (h : HotpInv S content c past)
    (hcr : c'.credentials = c.credentials) (hst : c'.store = c.store)
    (hp : ∀ name, ¬IsPut name x) (hr : ∀ name counter, ¬Releases S name counter x) :
    HotpInv S content c' (x :: past) := by
  refine ⟨?_, ?_⟩
  · rw [hcr]
    exact h.ram.quiet hp hr
  · rw [hst]
    exact h.stored.quiet hp hr

/-- A calculation that succeeds answers with the code. -/
theorem calculation_answer {k : Calculation} (hk : calculation S c e = some k)
    (hok : (step K S c e).1.sw = .ok) :
    ∃ code, computeCredential K k.credential k.challenge k.truncated = some code ∧
      (step K S c e).1 = codeAnswer k.truncated code := by
  obtain ⟨hin, pending, hst⟩ := step_calculation hk
  have hcd := (calculateIndex_keeps (K := K) (S := S)
    (show ({ c.loadState S with pending } : Oath σ).credentials.val[k.index]? = _ from hin)).2.2.2.2
  rw [hst] at hok ⊢
  exact hcd hok

/-- The counter that a calculation takes is not below the floors. -/
theorem Floors.le_counter (h : Floors S past (c.loadState S).credentials.val) {k : Calculation}
    (hk : calculation S c e = some k) {name : List UInt8} {counter : UInt32}
    (hc : Counts S name counter (entry (step K S) c e)) (hds : ¬Disturbed S name past)
    {floor : Nat} (hfl : Floor S name floor past) : floor ≤ counter.toNat := by
  obtain ⟨rfl, -, rfl⟩ := counts_of_calculation hk hc
  obtain ⟨hlt, hg⟩ := List.getElem?_eq_some_iff.mp (step_calculation (K := K) hk).1
  exact h.floors k.credential (hg ▸ List.getElem_mem hlt) hds floor hfl

/-- A calculation releases a code with a counter that is not below the floors. -/
theorem HotpInv.calculate (hS : Keeps S content) (h : HotpInv S content c past)
    {k : Calculation} (hk : calculation S c e = some k) :
    HotpFresh K S content (entry (step K S) c e) past ∧
      HotpInv S content (step K S c e).2 (entry (step K S) c e :: past) := by
  set x := entry (step K S) c e
  have h₀ := h.loadState hS
  obtain ⟨hin, pending, hst⟩ := step_calculation hk
  have hp : ∀ name, ¬IsPut name x := fun name => not_isPut_of_calculation hk
  have ha : x.answer.sw = .ok → ∃ k code, calculation S c e = some k ∧
      computeCredential K k.credential k.challenge k.truncated = some code ∧
      x.answer = codeAnswer k.truncated code := by
    intro hok
    obtain ⟨code, hcm, heq⟩ := calculation_answer hk hok
    exact ⟨k, code, hk, hcm, heq⟩
  rw [calculateIndex_eq (show ({ c.loadState S with pending } : Oath σ).credentials.val[k.index]? =
    _ from hin)] at hst
  have hfr : ∀ name counter, Releases S name counter x → ¬Disturbed S name past →
      ∀ floor, Floor S name floor past → floor ≤ counter.toNat :=
    fun _ _ hr hds _ hfl => h₀.ram.le_counter hk hr.1 hds hfl
  -- Without a counter, or without a code, nothing changes.
  have hqt : (∀ name counter, ¬Releases S name counter x) →
      (step K S c e).2 = { c.loadState S with pending } →
      HotpFresh K S content x past ∧ HotpInv S content (step K S c e).2 (x :: past) := by
    intro hl heq
    refine ⟨⟨fun _ => ha, fun name counter hr => absurd hr (hl _ _), hfr⟩, ?_⟩
    rw [heq]
    exact h₀.quiet rfl rfl hp hl
  rcases hcm : computeCredential K k.credential k.challenge k.truncated with _ | code
  · rw [hcm] at hst
    refine hqt (fun name counter hr => ?_) (congrArg Prod.snd hst)
    have hok : (step K S c e).1.sw = .ok := hr.2
    rw [hst] at hok
    cases hok
  rw [hcm] at hst
  dsimp only at hst
  by_cases hkn : k.credential.kind = typeHotp
  · rw [if_pos hkn, saveAnswer_eq] at hst
    have hcn := h₀.ram.count (K := K) hk hkn hin
    have hsv : x.answer.sw = .ok →
        ((({ c.loadState S with pending } : Oath σ).counted k).saveState S).1 = true := by
      intro hok
      change (step K S c e).1.sw = .ok at hok
      rw [hst] at hok
      rcases hs : ((({ c.loadState S with pending } : Oath σ).counted k).saveState S).1 with _ | _
      · rw [hs] at hok
        cases hok
      · rfl
    refine ⟨⟨fun _ => ha, fun name counter hr => ?_, hfr⟩, ?_⟩
    · obtain ⟨rfl, -, rfl⟩ := counts_of_calculation hk hr.1
      obtain ⟨hlt, -⟩ := List.getElem?_eq_some_iff.mp hin
      refine ⟨({ c.loadState S with pending } : Oath σ).counted k, ?_,
        counterOf_eq hcn.distinct (List.mem_set hlt _)⟩
      change content (step K S c e).2.store = _
      rw [hst]
      exact hS.saved _ _ (hsv hr.2)
    · rw [hst]
      refine ⟨hcn, stored_save hS hcn fun hu => h₀.stored.quiet hp ?_⟩
      intro name counter hr
      exact Bool.false_ne_true (hu.symm.trans (hsv hr.2))
  · rw [if_neg hkn] at hst
    exact hqt (fun name counter hr => hkn (counts_of_calculation hk hr.1).2.1)
      (congrArg Prod.snd hst)

theorem not_releases_of_no_calculation (h : calculation S c e = none) (name : List UInt8)
    (counter : UInt32) : ¬Releases S name counter (entry (step K S) c e) := by
  rintro ⟨⟨k, hk, -⟩, -⟩
  cases h.symm.trans hk

/-- An event without a calculation releases no code. -/
theorem hotpFresh_of_no_calculation (h : calculation S c e = none)
    (hcd : (∃ apdu, e = .process apdu ∧ apdu.ins = insCalculate) ∨ e = .confirm →
      (step K S c e).1.sw ≠ .ok) : HotpFresh K S content (entry (step K S) c e) past where
  code hev hok := absurd hok (hcd hev)
  saved _ _ hr := absurd hr (not_releases_of_no_calculation h _ _)
  fresh _ _ hr := absurd hr (not_releases_of_no_calculation h _ _)

theorem Floors.remove {l l' : List Credential} {credential : Credential} (h : Floors S past l)
    (hpr : (credential :: l').Perm l) : Floors S past l' := by
  refine ⟨?_, fun y hy => h.floors y (hpr.subset (List.mem_cons_of_mem _ hy))⟩
  have hnd := (hpr.map fun y : Credential => y.name.val).nodup_iff.mpr h.distinct
  exact hnd.of_cons

/-- The credentials are saved as they are. -/
theorem HotpInv.save (hS : Keeps S content) (h : HotpInv S content c past)
    (hcr : c'.credentials = c.credentials) (hst : c'.store = c.store)
    (hp : ∀ name, ¬IsPut name x) (hl : ∀ name counter, ¬Releases S name counter x) :
    HotpInv S content (c'.saveState S).2 (x :: past) := by
  have hr := h.ram.quiet hp hl
  rw [← hcr] at hr
  refine ⟨hr, stored_save hS hr fun _ => ?_⟩
  rw [hst]
  exact h.stored.quiet hp hl

theorem HotpInv.effect (hS : Keeps S content) (h : HotpInv S content c past) {answer : Response}
    (hb : x.before.loadState S = c) (hev : x.event = .process apdu)
    (ha : x.answer = answer) (hon : c.closed = false ∨ apdu.ins = insReset)
    (hl : ∀ name counter, ¬Releases S name counter x)
    (hc : ∀ k, apdu.ins = insCalculate → Authorised c → c.requested apdu = some k →
      k.credential.NeedsTouch)
    (he : Effect K S c apdu answer c') : HotpInv S content c' (x :: past) := by
  have hn : ∀ ins, apdu.ins = ins → ins ≠ insPut → ∀ name, ¬IsPut name x := by
    rintro ins hi hne name ⟨_, apdu', _, hev', hi', -⟩
    cases hev.symm.trans hev'
    exact hne (hi.symm.trans hi')
  cases he with
  | kept hsm _ hok _ =>
    have hp : ∀ name, ¬IsPut name x := by
      rintro name ⟨_, apdu', _, hev', hi, -, -, -, hsw⟩
      cases hev.symm.trans hev'
      exact (hok (ha ▸ hsw)).1.ne (by decide) (by decide) hi
    rcases hsm with rfl | rfl <;> exact h.quiet rfl rfl hp hl
  | put credential credentials hi hah hcr hin =>
    have hcs := hon.resolve_right (by rw [hi]; decide)
    have hx : Installs S x credential := by
      subst hb
      exact ⟨⟨apdu, hev, hi, hcr⟩, hcs, hah, hin ▸ rfl⟩
    obtain ⟨hs, hm⟩ := install_mem h.ram.distinct hin
    have hr := h.ram.install hx hs hm
    refine ⟨hr, stored_save hS hr fun hu => ?_⟩
    have hok : x.answer.sw ≠ .ok := by
      rw [ha, hu]
      exact nofun
    exact h.stored.imp id fun ⟨d, hd, hf⟩ => ⟨d, hd, hf.unsaved hx hok⟩
  | deleted name index hi _ hfn =>
    have hp := hn _ hi nofun
    obtain ⟨hlt, -⟩ := List.findIdx?_eq_some_iff_getElem.mp hfn
    have hr := (h.ram.remove (swapRemove_perm c.credentials hlt)).quiet hp hl
    exact ⟨hr, stored_save hS hr fun _ => h.stored.quiet hp hl⟩
  | calculated k hi hah hq htc => exact absurd (hc k hi hah hq) htc
  | armed k hi => exact h.quiet rfl rfl (hn _ hi nofun) hl
  | codeRemoved hi | codeSet _ _ hi => exact h.save hS rfl rfl (hn _ hi nofun) hl
  | codeDropped _ hi => exact h.quiet rfl rfl (hn _ hi nofun) hl
  | validated _ hp => exact h.save hS rfl rfl (hn _ hp.1 nofun) hl
  | erased _ hcl => exact ⟨floors_nil, .inl (hS.cleared _ hcl)⟩
  | eraseFailed hrs hcl =>
    have hp := hn _ hrs.1 nofun
    refine ⟨h.ram.quiet hp hl, ?_⟩
    unfold Stored
    rw [hS.uncleared _ hcl]
    exact h.stored.quiet hp hl

theorem HotpInv.process (hS : Keeps S content) (h : HotpInv S content c past)
    (hno : calculation S c (.process apdu) = none) :
    HotpInv S content (c.process K S apdu).2 (entry (step K S) c (.process apdu) :: past) := by
  have h₀ := h.loadState hS
  have hr := not_releases_of_no_calculation (K := K) hno
  rcases process_cases c apdu with ⟨-, -, heq⟩ | ⟨hon, -, he⟩
  · rw [heq]
    refine h₀.quiet rfl rfl ?_ hr
    rintro name ⟨_, _, _, -, -, -, -, -, hok⟩
    change (c.process K S apdu).1.sw = .ok at hok
    rw [heq] at hok
    cases hok
  · refine h₀.effect hS rfl rfl rfl hon hr (fun k hi hah hq => ?_) he
    by_contra htc
    have hcl := hon.resolve_right (by rw [hi]; decide)
    cases hno.symm.trans (calculation_of_requested hi hcl hah hq htc)

/-- Every event keeps the counters above their floors and releases fresh codes. -/
theorem HotpInv.step (hS : Keeps S content) (h : HotpInv S content c past) (e : Event) :
    HotpFresh K S content (entry (Oath.step K S) c e) past ∧
      HotpInv S content (Oath.step K S c e).2 (entry (Oath.step K S) c e :: past) := by
  rcases hno : calculation S c e with _ | k
  · have hr := not_releases_of_no_calculation (K := K) hno
    have hs : e.isSelect → HotpInv S content (Oath.step K S c e).2
        (entry (Oath.step K S) c e :: past) := by
      intro he
      obtain ⟨challenge, hst⟩ := step_select he
      rw [hst]
      refine (h.reload hS).quiet rfl rfl ?_ hr
      rintro name ⟨_, apdu, _, hev, -⟩
      change e = .process apdu at hev
      rw [hev] at he
      exact he
    cases e with
    | select | selectWithRng rng =>
      exact ⟨hotpFresh_of_no_calculation hno (by simp), hs trivial⟩
    | process apdu =>
      refine ⟨hotpFresh_of_no_calculation hno ?_, h.process hS hno⟩
      rintro (⟨apdu', hev, hi⟩ | hev)
      · cases hev
        exact calculate_of_no_calculation hi hno
      · cases hev
    | confirm =>
      obtain ⟨hne, hcr, hst⟩ := confirm_of_no_calculation hno
      refine ⟨hotpFresh_of_no_calculation hno fun _ => hne, ?_⟩
      exact (h.loadState hS).quiet hcr hst (fun name ⟨_, _, _, hev, _⟩ => nomatch hev) hr
    | deny =>
      exact ⟨hotpFresh_of_no_calculation hno (by simp),
        h.quiet rfl rfl (fun name ⟨_, _, _, hev, _⟩ => nomatch hev) hr⟩
  · exact h.calculate hS hno

end

/-! ## Whole histories -/

/-- In every history on a store that is blank or holds a saved state, codes are released with
  counters that go up from PUT to PUT, after the next counter was saved. -/
theorem hotp_counters_rise (hS : Keeps S content) {store : σ}
    (hstore : content store = [] ∨
      ∃ d : Oath σ, content store = d.encodeState ∧ Distinct d.credentials.val)
    (es : List Event) :
    Along (HotpFresh K S content) (history (step K S) (new store) es) := by
  refine along_history_of_all (I := HotpInv S content) ⟨floors_nil, ?_⟩
    (fun c past e hI => hI.step hS e) es
  exact hstore.imp id fun ⟨d, hd, hdistinct⟩ =>
    ⟨d, hd, hdistinct, fun _ _ _ _ hfloor => hfloor.elim⟩

/-- HMAC-SHA1 of the moving factors of the runs, under the secret `01` of their credentials. -/
def codeDigest (factor : Nat) : FixedBytes 20 :=
  ⟨toBE 20 (([(0, 0x935c42df0b3451b82da8c2374f1cf96b77315b93),
    (1, 0x22709e5e22c80008eb0b23b7ee9150b61f77f5de),
    (2, 0x013f02345e10489571536b7d5e4157993bb67e19),
    (5, 0x13454d6e21ebba47c50709291c22bfd53ba54a95),
    (6, 0x91033a1e358a24b8bf2df25a3f4e916145c666cc),
    (2 ^ 32 - 1, 0x9411f76e47c3c47ebcaa5232ee0b4f7a276b3532)].lookup factor).getD 0), length_toBE ..⟩

def codeCrypto : OathCrypto :=
  { exampleCrypto with
    hmacSha1 := fun _ data => codeDigest (ofBE data)
    hmacSha512 := fun _ _ => ⟨toBE 64 0xa55c98a2af4c534c7bc6add41740bb34b8c9fab78e7ee2f940baf3d466335090bbcc6f593352513ccdf24c9cb810733ff5a93d363ca0a16ba173b5aa39bc8a3f, length_toBE ..⟩ }

/-- PUT of an HOTP credential `"a"`. -/
def putHotp (counter : Nat) : Apdu :=
  ⟨insPut, 0, 0, [0x71, 1, 0x61, 0x73, 3, 0x11, 6, 0x01, 0x7A, 4] ++ toBE 4 counter, none⟩

def calculateHotp : Apdu := ⟨insCalculate, 0, 0, [0x71, 1, 0x61], none⟩

def hotpAnswer (counter : Nat) : Response :=
  codeAnswer false (6 :: (codeDigest counter).val)

/-- Two codes, with a SELECT between them. -/
theorem hotp_counters_rise_memory :
    Along (HotpFresh codeCrypto memory id)
      (history (step codeCrypto memory) (new [])
        [.process (putHotp 5), .process calculateHotp, .select, .process calculateHotp]) ∧
    answers (step codeCrypto memory) (new [])
      [.process (putHotp 5), .process calculateHotp, .select, .process calculateHotp] =
        [.status .ok, hotpAnswer 5, elementsAnswer [(tagVersion, [5, 0, 0]), (tagName, deviceId)],
          hotpAnswer 6] :=
  ⟨hotp_counters_rise memory_keeps (.inl rfl) _, by decide +kernel⟩

/-- A store whose saves work as a list says. -/
def flaky : OathStore (List UInt8 × List Bool) where
  load st := (BoundedBytes.ofSlice stateBytes st.1, st)
  save data st := if st.2.headD true then (true, (data, st.2.tail)) else (false, (st.1, st.2.tail))
  clear st := (true, ([], st.2))

/-- After the last counter comes zero. And a PUT that is not saved puts its counter into RAM, so
  that a counter is used again. -/
theorem hotp_counter_repeats :
    answers (step codeCrypto memory) (new [])
      [.process (putHotp (2 ^ 32 - 1)), .process calculateHotp, .process calculateHotp] =
        [.status .ok, hotpAnswer (2 ^ 32 - 1), hotpAnswer 0] ∧
    answers (step codeCrypto flaky) (new ([], [true, true, false, true]))
      [.process (putHotp 5), .process calculateHotp, .process (putHotp 5),
        .process calculateHotp] =
        [.status .ok, hotpAnswer 5, .status .notEnoughMemory, hotpAnswer 5] := by
  decide +kernel

end AegisToken.Applets.Oath
