/-
  What an update session asks of the storage (aegis-core update.rs).
  `recording S` behaves as the storage `S` and keeps the calls made to it. `begin` erases once, with
  a length rounded up to `eraseSize` and multiplied in 32 bits: `covers_eraseLen_iff` says that the
  erased range contains the image exactly where the rounded length is below `2 ^ 32`. The calls of
  `write` are followed through any run of `attempt`s.
-/
import AegisToken.Core.Update

namespace AegisToken.Update
open ByteCodec

/-! ## Calls -/

/-- A call of a `Storage` method. -/
inductive Call where
  | read (offset : UInt32) (length : Nat)
  | write (offset : UInt32) (data : List UInt8)
  | erase (offset len : UInt32)
deriving DecidableEq

namespace Call

def start : Call → Nat
  | read offset _ | write offset _ | erase offset _ => offset.toNat

def size : Call → Nat
  | read _ length => length
  | write _ data => data.length
  | erase _ len => len.toNat

/-- The call touches every offset in `[base, base + n)`. -/
def Covers (call : Call) (base n : Nat) : Prop :=
  ∀ a, base ≤ a → a < base + n → call.start ≤ a ∧ a < call.start + call.size

/-- The call touches only offsets in `[base, base + n)`. -/
def Within (call : Call) (base n : Nat) : Prop :=
  ∀ a, call.start ≤ a → a < call.start + call.size → base ≤ a ∧ a < base + n

end Call

/-- A storage that also keeps the calls made to it. -/
def recording {σ : Type} (S : Storage σ) : Storage (σ × List Call) where
  read x offset n :=
    ((S.read x.1 offset n).1, (S.read x.1 offset n).2, x.2 ++ [.read offset n])
  write x offset data :=
    ((S.write x.1 offset data).1, (S.write x.1 offset data).2, x.2 ++ [.write offset data])
  erase x offset len :=
    ((S.erase x.1 offset len).1, (S.erase x.1 offset len).2, x.2 ++ [.erase offset len])

namespace UpdateSession

/-! ## The erased range -/

theorem roundedLen_lt (imageLen : UInt32) {eraseSize : UInt32} (hsz : eraseSize ≠ 0) :
    roundedLen imageLen eraseSize < imageLen.toNat + eraseSize.toNat := by
  have hp : 0 < eraseSize.toNat := Nat.pos_of_ne_zero fun h => hsz (UInt32.toNat_inj.mp h)
  have hle := Nat.div_mul_le_self (imageLen.toNat + eraseSize.toNat - 1) eraseSize.toNat
  unfold roundedLen
  omega

theorem eraseLen_toNat_mod (imageLen eraseSize : UInt32) :
    (eraseLen imageLen eraseSize).toNat = roundedLen imageLen eraseSize % 2 ^ 32 := by
  unfold eraseLen roundedLen
  rw [UInt32.toNat_mul, UInt32.toNat_ofNat', Nat.mod_mul_mod]

/-- A product that leaves the 32 bits is shorter than the image. -/
theorem eraseLen_lt_of_wrap {imageLen eraseSize : UInt32} (hsz : eraseSize ≠ 0)
    (hwr : 2 ^ 32 ≤ roundedLen imageLen eraseSize) :
    (eraseLen imageLen eraseSize).toNat < imageLen.toNat := by
  have hlt := roundedLen_lt imageLen hsz
  have hes := eraseSize.toNat_lt
  rw [eraseLen_toNat_mod]
  omega

theorem covers_eraseLen_iff (base imageLen : UInt32) {eraseSize : UInt32} (hsz : eraseSize ≠ 0) :
    (Call.erase base (eraseLen imageLen eraseSize)).Covers base.toNat imageLen.toNat ↔
      roundedLen imageLen eraseSize < 2 ^ 32 := by
  constructor
  · intro hc
    by_contra hwr
    have hsh := eraseLen_lt_of_wrap hsz (Nat.le_of_not_lt hwr)
    -- The first offset behind the erased range belongs to the image.
    have hls := (hc (base.toNat + (eraseLen imageLen eraseSize).toNat) (by omega) (by omega)).2
    exact Nat.lt_irrefl _ hls
  · intro hft a hge hlt
    have hl : (Call.erase base (eraseLen imageLen eraseSize)).size =
        roundedLen imageLen eraseSize := eraseLen_toNat hft hsz
    have hle := le_roundedLen imageLen hsz
    exact ⟨hge, show a < base.toNat + _ by omega⟩

/-! ## The calls of a session -/

section
variable {σ : Type} {C : UpdateCrypto} {S : Storage σ} {h key : List UInt8}
  {minRollback base eraseSize : UInt32} {session : UpdateSession} {x : σ × List Call}

theorem begin_calls {s : σ}
    (hbg : begin C (recording S) (s, []) h key minRollback base eraseSize = (.ok session, x)) :
    eraseSize ≠ 0 ∧ session.base = base ∧ session.received = 0 ∧
      x.2 = [.erase base (eraseLen session.header.imageLen eraseSize)] := by
  unfold begin at hbg
  split at hbg
  · cases hbg
  rename_i hvl
  repeat' split at hbg
  all_goals cases hbg
  rename_i hes
  have hx : x = _ := (congrArg Prod.snd hes).symm
  rw [hx]
  exact ⟨fun hzr => hvl (.inr hzr), rfl, rfl, rfl⟩

/-- A chunk is refused without a call, or it fits the image and there is one call. -/
theorem write_calls (session : UpdateSession) (x : σ × List Call) {chunk : List UInt8}
    (hch : chunk.length < 2 ^ 32) :
    (∃ error, session.write (recording S) x chunk = (.error error, x)) ∨
      (session.received + UInt32.ofNat chunk.length).toNat = session.received.toNat + chunk.length ∧
        session.received.toNat + chunk.length ≤ session.header.imageLen.toNat ∧
        ∃ s, (∃ error, session.write (recording S) x chunk =
            (.error error, s, x.2 ++ [.write (session.base + session.received) chunk])) ∨
          session.write (recording S) x chunk =
            (.ok { session with received := session.received + UInt32.ofNat chunk.length }, s,
              x.2 ++ [.write (session.base + session.received) chunk]) := by
  have hl : (UInt32.ofNat chunk.length).toNat = chunk.length :=
    UInt32.toNat_ofNat_of_lt' hch
  unfold write
  dsimp only
  rw [hl]
  by_cases hs : session.received.toNat + chunk.length ≥ 2 ^ 32
  · rw [if_pos hs]
    exact .inl ⟨_, rfl⟩
  have hn : (session.received + UInt32.ofNat chunk.length).toNat =
      session.received.toNat + chunk.length := by
    rw [UInt32.toNat_add, hl, Nat.mod_eq_of_lt (Nat.lt_of_not_le hs)]
  rw [if_neg hs]
  by_cases hln : session.received + UInt32.ofNat chunk.length > session.header.imageLen
  · rw [if_pos hln]
    exact .inl ⟨_, rfl⟩
  rw [if_neg hln]
  rw [gt_iff_lt, UInt32.lt_iff_toNat_lt, hn] at hln
  refine .inr ⟨hn, Nat.le_of_not_lt hln,
    (S.write x.1 (session.base + session.received) chunk).2, ?_⟩
  unfold recording
  dsimp only
  rcases (S.write x.1 (session.base + session.received) chunk).1 with error | _
  · exact .inl ⟨error, rfl⟩
  · exact .inr rfl

/-- What was received lies in the image, and the calls since `calls` lie in the region. -/
structure Writing (base : UInt32) (header : PackageHeader) (calls : List Call)
    (session : UpdateSession) (log : List Call) : Prop where
  base_eq : session.base = base
  header_eq : session.header = header
  received : session.received.toNat ≤ header.imageLen.toNat
  within : ∃ writes, log = calls ++ writes ∧
    ∀ call ∈ writes, call.Within base.toNat header.imageLen.toNat

theorem Writing.call {header : PackageHeader} {calls log : List Call} {chunk : List UInt8}
    (hw : Writing base header calls session log)
    (he : base.toNat + header.imageLen.toNat ≤ 2 ^ 32)
    (hft : session.received.toNat + chunk.length ≤ session.header.imageLen.toNat) :
    ∃ writes, log ++ [.write (session.base + session.received) chunk] = calls ++ writes ∧
      ∀ call ∈ writes, call.Within base.toNat header.imageLen.toNat := by
  obtain ⟨writes, hl, hn⟩ := hw.within
  refine ⟨writes ++ [.write (session.base + session.received) chunk], ?_, ?_⟩
  · rw [hl, List.append_assoc]
  intro call hm
  rcases List.mem_append.mp hm with hold | hls
  · exact hn call hold
  rw [List.mem_singleton.mp hls]
  intro a hge hlt
  rw [hw.header_eq] at hft
  simp only [Call.start, Call.size, UInt32.toNat_add, hw.base_eq] at hge hlt
  omega

theorem attempt_writing {header : PackageHeader} {calls : List Call} {bytes chunk : List UInt8}
    (he : base.toNat + header.imageLen.toNat ≤ 2 ^ 32) (hch : chunk.length < 2 ^ 32)
    (hw : Writing base header calls session x.2) :
    Writing base header calls (attempt (recording S) (session, x, bytes) chunk).1
      (attempt (recording S) (session, x, bytes) chunk).2.1.2 := by
  unfold attempt
  rcases write_calls session x hch with
    ⟨error, hr⟩ | ⟨hn, hft, s, ⟨error, hfl⟩ | hdn⟩
  · rw [hr]
    exact hw
  · rw [hfl]
    exact { hw with within := hw.call he hft }
  rw [hdn]
  refine ⟨hw.base_eq, hw.header_eq, ?_, hw.call he hft⟩
  rw [← hw.header_eq]
  exact hn.trans_le hft

end

/-- The erased range starts at `base`; it contains the image where the rounded length is below
  `2 ^ 32`, and only there. In a region that ends within the 32 bits every write stays in it. -/
theorem staging_erased_and_written {σ : Type} (C : UpdateCrypto) (S : Storage σ) {s : σ}
    {h key : List UInt8} {minRollback base eraseSize : UInt32} {session : UpdateSession}
    {x : σ × List Call}
    (hbegin : begin C (recording S) (s, []) h key minRollback base eraseSize = (.ok session, x)) :
    ∃ erase, x.2 = [erase] ∧ erase.start = base.toNat ∧
      (erase.Covers base.toNat session.header.imageLen.toNat ↔
        roundedLen session.header.imageLen eraseSize < 2 ^ 32) ∧
      (base.toNat + session.header.imageLen.toNat ≤ 2 ^ 32 → ∀ chunks : List (List UInt8),
        (∀ chunk ∈ chunks, chunk.length < 2 ^ 32) →
        ∃ writes, (Runs.run (attempt (recording S)) (session, x, []) chunks).2.1.2 =
            erase :: writes ∧
          ∀ call ∈ writes, call.Within base.toNat session.header.imageLen.toNat) := by
  obtain ⟨hsize, hbase, hzero, hcalls⟩ := begin_calls hbegin
  refine ⟨_, hcalls, rfl, covers_eraseLen_iff base _ hsize, ?_⟩
  intro hend chunks hchunks
  have hstart : Writing base session.header x.2 session x.2 :=
    ⟨hbase, rfl, by rw [hzero]; exact Nat.zero_le _, [], (List.append_nil _).symm,
      fun call hmem => absurd hmem List.not_mem_nil⟩
  have hshort : Runs.Every (attempt (recording S)) (fun _ chunk => chunk.length < 2 ^ 32)
      (session, x, []) chunks := Runs.every_of_mem hchunks
  have hrun := hshort.keep (I := fun y => Writing base session.header x.2 y.1 y.2.1.2)
    (fun _ _ hw hchunk => attempt_writing hend hchunk hw) hstart
  obtain ⟨writes, hlog, hwithin⟩ := hrun.within
  rw [hcalls] at hlog
  exact ⟨writes, hlog, hwithin⟩

/-- A storage on which every call succeeds. -/
def accepting : Storage Unit where
  read s _ n := (.ok (FixedBytes.zero n), s)
  write s _ _ := (.ok (), s)
  erase s _ _ := (.ok (), s)

/-- A header for an image of a given length; `begin` does not look at digest and signature. -/
def stagingHeader (imageLen : UInt32) : List UInt8 :=
  magic ++ [0x01, 0x00, 0x73, 0x00, 0x00, 0x00, 0x00, 0x00, 0x01, 0x02, 0x03] ++
    toLE 4 imageLen.toNat ++ List.replicate 96 0

/-- The image length and the calls of a session that writes `chunks`. -/
def stagingCalls (header : List UInt8) (base eraseSize : UInt32) (chunks : List (List UInt8)) :
    Option (UInt32 × List Call) :=
  match begin exampleCrypto (recording accepting) ((), []) header exampleKey 0 base eraseSize with
  | (.error _, _) => none
  | (.ok session, x) => some (session.header.imageLen,
      (Runs.run (attempt (recording accepting)) (session, x, []) chunks).2.1.2)

/-- An image of 14 bytes in two chunks. -/
theorem staging_erased_and_written_two_chunks :
    ∃ session x, begin exampleCrypto (recording accepting) ((), []) (stagingHeader 14) exampleKey 0
        4096 4096 = (.ok session, x) ∧ session.header.imageLen = 14 ∧
      ∃ erase writes, (Runs.run (attempt (recording accepting)) (session, x, [])
          [exampleImage.take 8, exampleImage.drop 8]).2.1.2 = erase :: writes ∧
        erase.Covers 4096 14 ∧ ∀ call ∈ writes, call.Within 4096 14 := by
  have hopen : ∃ session x, begin exampleCrypto (recording accepting) ((), []) (stagingHeader 14)
      exampleKey 0 4096 4096 = (.ok session, x) ∧ session.header.imageLen = 14 := by
    refine ⟨_, _, rfl, ?_⟩
    decide
  obtain ⟨session, x, hbegin, hlen⟩ := hopen
  obtain ⟨erase, _, _, hcovers, hwrites⟩ :=
    staging_erased_and_written exampleCrypto accepting hbegin
  rw [hlen] at hcovers hwrites
  obtain ⟨writes, hlog, hwithin⟩ := hwrites (by decide)
    [exampleImage.take 8, exampleImage.drop 8] (by decide)
  exact ⟨session, x, hbegin, hlen, erase, writes, hlog, hcovers.mpr (by decide), hwithin⟩

/-- The longest image: nothing is erased, and a byte of it is written. An image that runs past the
  last offset: its second chunk is written at offset 0. -/
theorem staging_wraps :
    stagingCalls (stagingHeader 0xFFFFFFFF) 0 4096 [[0xAB]] =
        some (0xFFFFFFFF, [.erase 0 0, .write 0 [0xAB]]) ∧
      ¬(Call.erase 0 0).Covers 0 0xFFFFFFFF ∧
    stagingCalls (stagingHeader 4) 0xFFFFFFFE 4096 [[0x01, 0x02], [0x03, 0x04]] =
        some (4, [.erase 0xFFFFFFFE 4096, .write 0xFFFFFFFE [0x01, 0x02],
          .write 0 [0x03, 0x04]]) ∧
      ¬(Call.write 0 [0x03, 0x04]).Within 0xFFFFFFFE 4 := by
  refine ⟨by decide +kernel, fun hcovers => ?_, by decide +kernel, fun hwithin => ?_⟩
  · exact absurd (hcovers 0 (by decide) (by decide)).2 (by decide)
  · exact absurd (hwithin 0 (by decide) (by decide)).1 (by decide)

end UpdateSession

end AegisToken.Update
