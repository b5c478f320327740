import AegisToken.Applets.BlobWrites

/-
  Crash consistency of `SealedBlob`.
  On a bank that keeps `Sharded.Inv`, `load` returns the blob of the newest commit record
  (`Consistent.load`), and every save keeps the invariant, whole or cut, when it starts settled
  (`Consistent.step`).
  A save that is cut after another cut save has landed its first shard overwrites the committed
  generation's first shard, and `load` fails: `load_fails_after_two_cuts`. The condition under
  which every run is consistent is that each cut save starts settled (`Settled`): the newest
  first shard belongs to the newest commit record.
-/

namespace AegisToken
open ByteCodec FlashProg TwoSlot

namespace SealedBlob

variable {S : Nat}

/-! ## Opening what was saved -/

section Open
variable {b : SealedBlob S} {f : Flash} {R : Sharded.Bank (List UInt8)} {n : Nat}
  {valueOf : Nat → List UInt8} {hist : List (Write (List UInt8))}

/-- The invariant of a run of saves on the flash. -/
structure Consistent (b : SealedBlob S) (f : Flash) (n : Nat) (valueOf : Nat → List UInt8)
    (hist : List (Write (List UInt8))) (R : Sharded.Bank (List UInt8)) : Prop where
  refines : b.Refines f R
  inv : Sharded.Inv S n (part (S := S)) valueOf hist R
  lt : n < genModulus
  fits : ∀ g, (valueOf g).length ≤ S * shardBodyMax

variable (h : b.Consistent f n valueOf hist R)

include h in
theorem Consistent.readable : b.Readable f n R where
  refines := h.refines
  le j hj x hx := (h.inv.genRange j hj x.1 x.2 hx).2
  fits j hj x hx := by
    rw [h.inv.parts j hj x.1 x.2 hx]
    exact length_part _ _
  length_commit x hx := by
    rw [h.inv.parts S (Nat.le_refl S) x.1 x.2 hx, part, if_neg (Nat.lt_irrefl S), length_toLE,
      commitLen]
  lt := h.lt

local instance neZero_pair : NeZero 2 := ⟨by decide⟩

/-- The commit records of the two slots, in slot order. -/
def commits (r : Reg (Nat × List UInt8)) : List Nat :=
  ((r 0).map fun x => x.2.1).toList ++ ((r 1).map fun x => x.2.1).toList

include h in
theorem Consistent.found :
    foldSlots b.commit f (fun found blob => do
        let (generation, body) ← openShard b.aead b.applet S blob maxPayloadBytes
        if body.length = commitLen then return found ++ [generation] else return found)
      [] = .ok (commits (R S)) := by
  have visit : ∀ (found : List Nat) (x : Nat × List UInt8), Mem (R S) x → (do
        let (generation, body) ← openShard b.aead b.applet S (b.record S x) maxPayloadBytes
        if body.length = commitLen then return found ++ [generation] else return found) =
        (.ok (found ++ [x.1]) : Except CoreError (List Nat)) := by
    intro found x hx
    rw [h.readable.openShard_mem (Nat.le_refl S) hx]
    show (if x.2.length = commitLen then _ else _) = _
    rw [if_pos (h.readable.length_commit x hx)]
    rfl
  rw [foldSlots_eq, h.readable.commit_view]
  rcases h0 : R S 0 with _ | ⟨s, x⟩
  · rcases h1 : R S 1 with _ | ⟨t, y⟩
    · simp only [map, commits, h0, h1]
      rfl
    · simp only [map, commits, h0, h1, Option.map_some, Prod.map_snd]
      exact visit [] y ⟨1, t, h1⟩
  · rcases h1 : R S 1 with _ | ⟨t, y⟩
    · simp only [map, commits, h0, h1, Option.map_some, Prod.map_snd, visit [] x ⟨0, s, h0⟩]
      rfl
    · simp only [map, commits, h0, h1, Option.map_some, Prod.map_snd, visit [] x ⟨0, s, h0⟩]
      exact visit [x.1] y ⟨1, t, h1⟩

include h in
theorem Consistent.candidates :
    (TwoSlot.load (R S) = none ∧ b.candidates f = .ok []) ∨
      ∃ s c x rest, TwoSlot.load (R S) = some (s, c, x) ∧ b.candidates f = .ok (c :: rest) := by
  rw [SealedBlob.candidates, h.found]
  rcases hl : TwoSlot.load (R S) with _ | ⟨s, c, x⟩
  · left
    have hno := load_eq_none.mp hl
    simp only [commits, hno 0, hno 1]
    exact ⟨trivial, rfl⟩
  right
  have ht : ∀ y, Mem (R S) y → y.1 ≤ c := by
    intro y hy
    have := h.inv.sorted S (Nat.le_refl S) y.1 y.2 hy
    rwa [Sharded.topGen_of_load hl] at this
  obtain ⟨i, -, hi⟩ := newest_of_load hl
  rcases h0 : R S 0 with _ | ⟨s0, x0⟩
  · rcases h1 : R S 1 with _ | ⟨s1, x1⟩
    · fin_cases i
      · simp [h0] at hi
      · simp [h1] at hi
    have hc : x1.1 = c := by
      fin_cases i
      · simp [h0] at hi
      · simp [h1] at hi
        rw [hi.2]
    refine ⟨s, c, x, [], rfl, ?_⟩
    simp only [commits, h0, h1, ← hc]
    rfl
  · rcases h1 : R S 1 with _ | ⟨s1, x1⟩
    · have hc : x0.1 = c := by
        fin_cases i
        · simp [h0] at hi
          rw [hi.2]
        · simp [h1] at hi
      refine ⟨s, c, x, [], rfl, ?_⟩
      simp only [commits, h0, h1, ← hc]
      rfl
    · have hle0 := ht x0 ⟨0, s0, h0⟩
      have hle1 := ht x1 ⟨1, s1, h1⟩
      have hc : x0.1 = c ∨ x1.1 = c := by
        fin_cases i
        · simp [h0] at hi
          exact .inl (by rw [hi.2])
        · simp [h1] at hi
          exact .inr (by rw [hi.2])
      by_cases hlt : x1.1 > x0.1
      · refine ⟨s, c, x, [x0.1], rfl, ?_⟩
        have hq : x1.1 = c := by omega
        simp only [commits, h0, h1]
        show (if x1.1 > x0.1 then _ else _) = _
        rw [if_pos hlt, ← hq]
        rfl
      · refine ⟨s, c, x, [x1.1], rfl, ?_⟩
        have hq : x0.1 = c := by omega
        simp only [commits, h0, h1]
        show (if x1.1 > x0.1 then _ else _) = _
        rw [if_neg hlt, ← hq]
        rfl

include h in
theorem Consistent.commitTotal {c : Nat} {x : List UInt8}
    (hc : Mem (R S) (c, x)) : b.commitTotal f c = .ok (some (valueOf c).length) := by
  have hp := b.capacity_lt
  have hf := h.fits c
  refine findSlot_of_mem (fun y => y.1 = c) h.readable.commit_view (fun y hy hw => ?_)
    (fun y hy hw => ?_) hc rfl
  · have hbd : y.2 = toLE 4 (valueOf c).length := by
      have hpr := h.inv.parts S (Nat.le_refl S) y.1 y.2 hy
      rwa [part, if_neg (Nat.lt_irrefl S), show y.1 = c from hw] at hpr
    rw [h.readable.openShard_mem (Nat.le_refl S) hy]
    show (if y.1 = c ∧ y.2.length = commitLen then _ else _) = _
    rw [if_pos ⟨hw, h.readable.length_commit y hy⟩, hbd, ofLE_toLE (by omega)]
    rfl
  · rw [h.readable.openShard_mem (Nat.le_refl S) hy]
    show (if y.1 = c ∧ y.2.length = commitLen then _ else _) = _
    rw [if_neg (fun ha => hw ha.1)]
    rfl

include h in
/-- Every data shard holds its chunk of a generation it has. -/
theorem Consistent.shardBody {j c : Nat} (hj : j < S) {x : List UInt8} (hc : Mem (R j) (c, x)) :
    b.shardBody f c j = .ok (some (chunk (valueOf c) j)) := by
  have hjS := Nat.le_of_lt hj
  refine findSlot_of_mem (fun y => y.1 = c) (h.refines j hjS) (fun y hy hw => ?_)
    (fun y hy hw => ?_) hc rfl
  · have hbd : y.2 = chunk (valueOf c) j := by
      have hpr := h.inv.parts j hjS y.1 y.2 hy
      rwa [part, if_pos hj, show y.1 = c from hw] at hpr
    rw [h.readable.openShard_mem hjS hy]
    show (if y.1 = c then _ else _) = _
    rw [if_pos hw, hbd]
    rfl
  · rw [h.readable.openShard_mem hjS hy]
    show (if y.1 = c then _ else _) = _
    rw [if_neg hw]
    rfl

/-- Gathering the chunks of `v` from shard `k` on completes what was gathered before. -/
theorem gather_chunks (b : SealedBlob S) (f : Flash) (c : Nat) (v : List UInt8)
    (hbd : ∀ j < S, b.shardBody f c j = .ok (some (chunk v j)))
    (hv : v.length ≤ S * shardBodyMax) (m k : Nat) (hkm : k + m = S) :
    b.gather f c v.length (List.range' k m) (v.take (k * shardBodyMax)) = .ok (some v) := by
  induction m generalizing k with
  | zero =>
    rw [show k = S by omega, List.take_of_length_le hv]
    rfl
  | succ m ih =>
    have hl : (chunk v k).length ≤ v.length - (v.take (k * shardBodyMax)).length := by
      rw [chunk_eq]
      simp only [List.length_take, List.length_drop]
      omega
    have ho : v.take (k * shardBodyMax) ++ (chunk v k).take (min (chunk v k).length
        (v.length - (v.take (k * shardBodyMax)).length)) = v.take ((k + 1) * shardBodyMax) := by
      rw [Nat.min_eq_left hl, List.take_length, chunk_eq, Nat.succ_mul, List.take_add]
    rw [List.range'_succ, gather, hbd k (by omega)]
    show b.gather f c v.length (List.range' (k + 1) m) _ = _
    rw [ho]
    exact ih (k + 1) (by omega)

include h in
theorem Consistent.load {outLen : Nat} (ho : S * shardBodyMax ≤ outLen) :
    b.load f outLen = .ok ((TwoSlot.load (R S)).map fun x => valueOf x.2.1) := by
  rcases h.candidates with ⟨hl, hcn⟩ | ⟨s, c, x, rest, hl, hcn⟩
  · rw [SealedBlob.load, hcn, hl]
    rfl
  have hc := h.fits c
  have ha : b.assemble f c outLen = .ok (some (valueOf c)) := by
    have hg := gather_chunks b f c (valueOf c) (fun j hj => by
        obtain ⟨y, hy⟩ := h.inv.complete j hj s c x hl
        exact h.shardBody hj hy)
      hc S 0 (Nat.zero_add S)
    rw [Nat.zero_mul, List.take_zero, ← List.range_eq_range'] at hg
    rw [assemble, h.commitTotal (mem_of_load hl)]
    show (if (valueOf c).length > S * shardBodyMax ∨ outLen < (valueOf c).length then _ else _) = _
    rw [if_neg (by omega), hg]
    show (if (valueOf c).length < (valueOf c).length then _ else _) = _
    rw [if_neg (Nat.lt_irrefl _)]
    rfl
  rw [SealedBlob.load, hcn, hl]
  show (if c :: rest = [] then .ok none
    else b.firstComplete f outLen (c :: rest) >>= fun out => .ok (some out)) = _
  rw [firstComplete, ha]
  rfl

/-! ## Settled states -/

/-- The generation of a cell's newest record. -/
def newestGen (b : SealedBlob S) (f : Flash) (j : Nat) : Option Nat :=
  match (b.cell j).load f with
  | some (_, blob) => (openShard b.aead b.applet j blob maxPayloadBytes).toOption.map Prod.fst
  | none => none

/-- There is no commit record, or the first shard's newest record has its generation: no save was
  cut after its first shard landed, since the last one that committed. -/
def Settled (b : SealedBlob S) (f : Flash) : Prop :=
  b.newestGen f S = none ∨ b.newestGen f 0 = b.newestGen f S

instance (b : SealedBlob S) (f : Flash) : Decidable (b.Settled f) :=
  inferInstanceAs (Decidable (_ ∨ _))

include h in
theorem Consistent.newestGen {j : Nat} (hj : j ≤ S) :
    b.newestGen f j = (TwoSlot.load (R j)).map fun x => x.2.1 := by
  rw [SealedBlob.newestGen, SlotStore.load_eq, h.refines j hj, load_map]
  rcases hl : TwoSlot.load (R j) with _ | ⟨s, x⟩
  · rfl
  · simp only [Option.map_some, Prod.map_apply, id_eq]
    rw [h.readable.openShard_mem hj (mem_of_load hl)]
    rfl

include h in
theorem Consistent.settled (hs : b.Settled f) :
    Sharded.Settled S R := by
  rw [Settled, h.newestGen (Nat.le_refl S), h.newestGen (Nat.zero_le S)] at hs
  rcases hl : TwoSlot.load (R S) with _ | ⟨s, c, x⟩
  · exact .inl hl
  right
  rw [hl] at hs
  rcases hs with hs | hs
  · cases hs
  rcases h0 : TwoSlot.load (R 0) with _ | ⟨t, d, y⟩
  · rw [h0] at hs
    cases hs
  · rw [h0] at hs
    rw [Sharded.topGen_of_load h0, Sharded.topGen_of_load hl]
    exact Option.some.inj hs

end Open

/-! ## Runs of saves -/

/-- A save call of a run, for blobs of at most `cap` bytes: it returned, or the power failed after
  `n` bytes. -/
inductive SaveEvent (cap : Nat) where
  | saved (data : BoundedBytes cap)
  | cut (data : BoundedBytes cap) (n : Nat)

def SaveEvent.write {cap : Nat} : SaveEvent cap → Write (List UInt8)
  | .saved data => .done data.val
  | .cut data _ => .torn data.val

def eventFlash (b : SealedBlob S) (f : Flash) : SaveEvent (S * shardBodyMax) → Flash
  | .saved data => (b.save data.val).after f
  | .cut data n => (b.save data.val).crash n f

/-- One save call, which can fail. A cut one is followed by a reopen, which can fail, too. -/
def runEvent (b : SealedBlob S) (f : Flash) (e : SaveEvent (S * shardBodyMax)) :
    Except CoreError Flash :=
  (match e with
    | .saved data => (b.save data.val).result f
    | .cut _ _ => b.checkOpen (b.eventFlash f e)) >>= fun _ => .ok (b.eventFlash f e)

def runEvents (b : SealedBlob S) (f : Flash) (es : List (SaveEvent (S * shardBodyMax))) :
    Except CoreError Flash :=
  es.foldlM b.runEvent f

/-- The condition on a save call: a cut save starts settled, or changes no byte, or all bytes. -/
def CutSettled (b : SealedBlob S) (f : Flash) : SaveEvent (S * shardBodyMax) → Prop
  | .saved _ => True
  | .cut data n => b.Settled f ∨ n = 0 ∨ size ((b.save data.val).ops f) ≤ n

/-- CRC-32 rejects what a cut save leaves torn. -/
def EventRejected (b : SealedBlob S) (f : Flash) : SaveEvent (S * shardBodyMax) → Prop
  | .saved _ => True
  | .cut data n => b.CutRejected f data.val n

instance (b : SealedBlob S) (f : Flash) : (e : SaveEvent (S * shardBodyMax)) →
    Decidable (b.CutSettled f e)
  | .saved _ => inferInstanceAs (Decidable True)
  | .cut _ _ => inferInstanceAs (Decidable (_ ∨ _ ∨ _))

instance (b : SealedBlob S) (f : Flash) : (e : SaveEvent (S * shardBodyMax)) →
    Decidable (b.EventRejected f e)
  | .saved _ => inferInstanceAs (Decidable True)
  | .cut data n => inferInstanceAs (Decidable (b.CutRejected f data.val n))

theorem Consistent.step {b : SealedBlob S} {f : Flash} {n : Nat} {valueOf : Nat → List UInt8}
    {hist : List (Write (List UInt8))} {R : Sharded.Bank (List UInt8)}
    (h : b.Consistent f n valueOf hist R) (hn : n + 1 < seqModulus) {e : SaveEvent (S * shardBodyMax)}
    (ht : b.CutSettled f e) (hcr : b.EventRejected f e) :
    ∃ valueOf' R', b.runEvent f e = .ok (b.eventFlash f e) ∧
      b.Consistent (b.eventFlash f e) (n + 1) valueOf' (hist ++ [e.write]) R' := by
  have hm : seqModulus < genModulus := by decide
  obtain ⟨g, hg, hp, hab, hgn⟩ := h.readable.freshGen (by omega)
  have hfr : ∀ j ≤ S, Sharded.topGen (R j) < g := by
    intro j hj
    rw [Sharded.topGen]
    rcases hl : TwoSlot.load (R j) with _ | ⟨s, x⟩
    · exact hp
    · exact hab j hj x (mem_of_load hl)
  have hft : ∀ data : BoundedBytes (S * shardBodyMax), ∀ g',
      (Function.update valueOf g data.val g').length ≤ S * shardBodyMax := by
    intro data g'
    by_cases hgg : g' = g
    · rw [hgg, Function.update_self]
      exact data.property
    · rw [Function.update_of_ne hgg]
      exact h.fits g'
  rcases e with data | ⟨data, k⟩
  · obtain ⟨hrs, R', hr, hsv⟩ := b.save_after h.refines data.property hg
    refine ⟨Function.update valueOf g data.val, R', ?_, hr,
      h.inv.save hn hfr hgn hsv (fun hS => by omega) rfl (fun hS => by omega),
      by omega, hft data⟩
    simp only [runEvent, hrs]
    rfl
  · simp only [EventRejected, CutRejected, hg] at hcr
    obtain ⟨j, R', hr, hsv, ha, -⟩ := b.save_crash h.refines data.property hg hcr
    have hre : ∀ {valueOf' R''}, b.Consistent (b.eventFlash f (.cut data k)) (n + 1) valueOf'
        (hist ++ [.torn data.val]) R'' →
        b.runEvent f (.cut data k) = .ok (b.eventFlash f (.cut data k)) := by
      intro valueOf' R'' hc
      simp only [runEvent, hc.readable.checkOpen]
      rfl
    by_cases hk0 : k = 0
    · have hc : b.Consistent (b.eventFlash f (.cut data k)) (n + 1) valueOf
          (hist ++ [.torn data.val]) R := by
        rw [eventFlash, hk0, Prog.crash_zero]
        exact ⟨h.refines, h.inv.skip rfl, by omega, h.fits⟩
      exact ⟨_, _, hre hc, hc⟩
    · have hst : j ≤ S → Sharded.Settled S R := by
        intro hj
        rcases ht with hs | hz | hfl
        · exact h.settled hs
        · exact absurd hz hk0
        · omega
      have hc : b.Consistent (b.eventFlash f (.cut data k)) (n + 1)
          (Function.update valueOf g data.val) (hist ++ [.torn data.val]) R' :=
        ⟨hr, h.inv.save hn hfr hgn hsv hst rfl (fun _ => rfl), by omega, hft data⟩
      exact ⟨_, _, hre hc, hc⟩

/-- A run whose cut saves start settled keeps the invariant. -/
theorem Consistent.run {b : SealedBlob S} {f : Flash} {n : Nat} {valueOf : Nat → List UInt8}
    {hist : List (Write (List UInt8))} {R : Sharded.Bank (List UInt8)}
    (h : b.Consistent f n valueOf hist R) {es : List (SaveEvent (S * shardBodyMax))}
    (hn : n + es.length < seqModulus - 1) (ht : Runs.Every b.eventFlash b.CutSettled f es)
    (hc : Runs.Every b.eventFlash b.EventRejected f es) :
    ∃ f' valueOf' R', b.runEvents f es = .ok f' ∧
      b.Consistent f' (n + es.length) valueOf' (hist ++ es.map SaveEvent.write) R' := by
  induction es generalizing f n valueOf hist R with
  | nil => exact ⟨f, valueOf, R, rfl, by simpa using h⟩
  | cons e es ih =>
    rw [List.length_cons] at hn
    obtain ⟨valueOf1, R1, hr, h1⟩ := h.step (by omega) ht.1 hc.1
    obtain ⟨f2, valueOf2, R2, hr2, h2⟩ := ih h1 (by omega) ht.2 hc.2
    refine ⟨f2, valueOf2, R2, ?_, ?_⟩
    · rw [runEvents, List.foldlM_cons, hr]
      exact hr2
    rw [List.map_cons, List.length_cons, show n + (es.length + 1) = n + 1 + es.length by omega,
      show hist ++ e.write :: es.map SaveEvent.write =
        hist ++ [e.write] ++ es.map SaveEvent.write by simp]
    exact h2

theorem Consistent.blank (b : SealedBlob S) :
    b.Consistent FlashProg.blank 0 (fun _ => []) [] (fun _ => Reg.empty) where
  refines j _ := by
    rw [SlotStore.view_blank]
    rfl
  inv := Sharded.Inv.empty
  lt := by decide
  fits _ := Nat.zero_le _

/-- Crash consistency. In a run from blank flash whose cut saves all start settled, every save and
  every reopen succeeds and `load` returns the blob of the last save that returned or of a later
  cut one as a whole, and nothing only while no save has returned. -/
theorem load_runEvents_admissible (b : SealedBlob S) (es : List (SaveEvent (S * shardBodyMax)))
    (hlen : es.length < 2 ^ 32 - 1) (hcut : Runs.Every b.eventFlash b.CutSettled blank es)
    (hcrc : Runs.Every b.eventFlash b.EventRejected blank es) (outLen : Nat)
    (hout : S * shardBodyMax ≤ outLen) :
    ∃ f o, b.runEvents blank es = .ok f ∧ b.load f outLen = .ok o ∧
      Admissible (es.map SaveEvent.write) o := by
  obtain ⟨f, valueOf, R, hrun, hc⟩ := (Consistent.blank b).run
    (by simpa [seqModulus] using hlen) hcut hcrc
  exact ⟨f, _, hrun, hc.load hout, hc.inv.admissible⟩

/-! ## Concrete runs -/

def oneShard : SealedBlob 1 where
  aead := Aead.plain
  applet := oathAppletTag
  data := fun _ => sectorPair 0
  commit := sectorPair 1
  data_apart := by decide
  commit_apart := by decide

/-- A save that returns, one that is cut once its data shard is written, and one that returns. -/
def onceCut : List (SaveEvent (1 * shardBodyMax)) :=
  [.saved ⟨[1], by decide⟩, .cut ⟨[2], by decide⟩ 4149, .saved ⟨[3], by decide⟩]

/-- The run meets the condition and ends with the last blob. -/
theorem load_runEvents_admissible_onceCut :
    (∃ f o, oneShard.runEvents blank onceCut = .ok f ∧
      oneShard.load f (1 * shardBodyMax) = .ok o ∧ Admissible (onceCut.map SaveEvent.write) o) ∧
    oneShard.runEvents blank onceCut >>= (fun f => oneShard.load f (1 * shardBodyMax)) =
      .ok (some [3]) := by
  -- One evaluation of the run gives all three facts.
  have hrun : Runs.Every oneShard.eventFlash oneShard.CutSettled blank onceCut ∧
      Runs.Every oneShard.eventFlash oneShard.EventRejected blank onceCut ∧
      oneShard.runEvents blank onceCut >>= (fun f => oneShard.load f (1 * shardBodyMax)) =
        .ok (some [3]) := by decide +kernel
  obtain ⟨hcut, hrejected, hload⟩ := hrun
  exact ⟨load_runEvents_admissible oneShard onceCut (by decide) hcut hrejected (1 * shardBodyMax)
    (Nat.le_refl _), hload⟩

/-- A save that returns, one that is cut once its data shard is written, and one that is cut after
  the first byte of its first erase. -/
def twiceCut : List (SaveEvent (1 * shardBodyMax)) :=
  [.saved ⟨[1], by decide⟩, .cut ⟨[2], by decide⟩ 4149, .cut ⟨[3], by decide⟩ 1]

/-- Two cut saves in a row lose the committed blob: the second one erases the only record of the
  committed generation's data shard, and `load` fails. -/
theorem load_fails_after_two_cuts :
    twiceCut.length < 2 ^ 32 - 1 ∧ Runs.Every oneShard.eventFlash oneShard.EventRejected blank twiceCut ∧
      oneShard.runEvents blank twiceCut >>= (fun f => oneShard.load f (1 * shardBodyMax)) =
        .error .storageError ∧
      ¬ ∃ f o, oneShard.runEvents blank twiceCut = .ok f ∧
        oneShard.load f (1 * shardBodyMax) = .ok o ∧
        Admissible (twiceCut.map SaveEvent.write) o := by
  have hruns : Runs.Every oneShard.eventFlash oneShard.EventRejected blank twiceCut ∧
      oneShard.runEvents blank twiceCut >>= (fun f => oneShard.load f (1 * shardBodyMax)) =
        .error .storageError := by decide +kernel
  obtain ⟨hrejected, hfail⟩ := hruns
  refine ⟨by decide, hrejected, hfail, ?_⟩
  rintro ⟨f, o, hrun, hload, -⟩
  rw [hrun] at hfail
  have hbind : oneShard.load f (1 * shardBodyMax) = .error .storageError := hfail
  rw [hload] at hbind
  cases hbind

end SealedBlob

end AegisToken
