/-
  Sessions of the PIV applet: SELECT, commands and the resolution of user presence as the events of
  one machine, and what its histories say about the session flags.
  A flag is set in a state only because of an earlier entry of the history: `pinVerified` because
  of a VERIFY or CHANGE of the PIN, `mgmtAuthenticated` because of a returned nonce, and
  `presenceCached` because of a confirmed signature. SELECT clears them all.
-/
import AegisToken.Lib.History
import AegisToken.Applets.PivSteps
import AegisToken.Applets.RsaCrt

namespace AegisToken.Applets.Piv
open ByteCodec History

variable {σ : Type} {K : PivCrypto} {S : PivStore σ}

/-! ## The machine -/

/-- What happens to the applet. -/
inductive Event where
  | select
  | process (apdu : Apdu) (rng : Rng)
  | confirm (rng : Rng)
  | deny

def step (K : PivCrypto) (S : PivStore σ) (c : Piv σ) : Event → Response × Piv σ
  | .select => c.select K S
  | .process apdu rng => c.process K S apdu rng
  | .confirm rng => c.confirmPresence K S rng
  | .deny => c.denyPresence

/-- An entry of the history of an applet. -/
abbrev Log (σ : Type) := Entry (Piv σ) Event Response

def IsSelect (e : Log σ) : Prop := e.event = .select

/-! ## SELECT -/

/-- The flags that live as long as a session. -/
structure SameSession (c c' : Piv σ) : Prop where
  pinVerified : c'.pinVerified = c.pinVerified
  mgmtAuthenticated : c'.mgmtAuthenticated = c.mgmtAuthenticated
  witness : c'.witness = c.witness
  pendingSign : c'.pendingSign = c.pendingSign
  presenceCached : c'.presenceCached = c.presenceCached

section
variable {P : Piv σ → Prop}
  (hread : ∀ c record cap, P c → P { c with store := (S.read record cap c.store).2 })
  (hwrite : ∀ c record data, record < recordKeyBase → P c →
    P { c with store := (S.write record data c.store).2 })
  (hslot : ∀ c record slot, P c → P (c.setSlot record slot))
  (hmgmt : ∀ c mgmt, P c → P { c with mgmt })
  {c : Piv σ}
include hread

include hwrite in
theorem provisionPin_keep (h : P c) (record : PinRecord) (pin : List UInt8) :
    P (c.provisionPin K S record pin) := by
  have hst := hread c record.record pinStateLen h
  unfold provisionPin
  rw [read_eq]
  rcases (S.read record.record pinStateLen c.store).1 with _ | bytes
  · exact hwrite _ _ _ (by cases record <;> decide) hst
  · exact hst

include hwrite in
theorem provisionMgmt_keep (h : P c) : P (c.provisionMgmt S) := by
  have hst := hread c recordMgmtKey 34 h
  unfold provisionMgmt
  rw [read_eq]
  rcases (S.read recordMgmtKey 34 c.store).1 with _ | bytes
  · dsimp only
    split
    · exact hwrite _ _ _ (by decide) hst
    · exact hst
  · exact hst

include hwrite in
theorem provision_keep (h : P { c with provisioned := true }) : P (c.provision K S) := by
  unfold provision
  split
  · rename_i hp
    rwa [← hp] at h
  · have hp := provisionPin_keep (K := K) hread hwrite h .pin defaultPin
    exact provisionMgmt_keep hread hwrite (provisionPin_keep hread hwrite hp .puk defaultPuk)

include hslot in
theorem loadPin_keep (h : P c) (record : PinRecord) : P (c.loadPin S record).2 := by
  have hst := hread c record.record pinStateLen h
  unfold loadPin
  rw [read_eq]
  rcases (S.read record.record pinStateLen c.store).1 with _ | bytes
  · exact hst
  dsimp only
  split
  · exact hst
  · exact hslot _ _ _ hst

include hmgmt in
theorem loadMgmt_keep (h : P c) : P (c.loadMgmt S).2 := by
  have hst := hread c recordMgmtKey 34 h
  unfold loadMgmt
  rw [read_eq]
  rcases (S.read recordMgmtKey 34 c.store).1 with _ | bytes
  · exact hst
  dsimp only
  split
  · exact hst
  · exact hmgmt _ _ hst

include hwrite hslot hmgmt

theorem loadState_keep (h : P { c with provisioned := true }) : P (c.loadState K S).2 := by
  have hp := loadPin_keep hread hslot (provision_keep (K := K) hread hwrite h) .pin
  unfold loadState
  split
  · rename_i c₁ h₁
    rw [h₁] at hp
    exact hp
  rename_i c₁ h₁
  rw [h₁] at hp
  have hk := loadPin_keep hread hslot hp .puk
  split
  · rename_i c₂ h₂
    rw [h₂] at hk
    exact hk
  · rename_i c₂ h₂
    rw [h₂] at hk
    exact loadMgmt_keep hread hmgmt hk

/-- What ending the session establishes, and what reads, the writes of the PINs and the management
  key, and loading them keep, holds after a SELECT, whatever it answers. -/
theorem select_keep (h : P { c.endSession with provisioned := true }) : P (c.select K S).2 := by
  have hl := loadState_keep (K := K) hread hwrite hslot hmgmt h
  unfold select
  split <;> rename_i c₁ h₁ <;> rw [h₁] at hl <;> exact hl

end

theorem select_session (c : Piv σ) : SameSession c.endSession (c.select K S).2 := by
  refine select_keep ?_ ?_ ?_ ?_ ⟨rfl, rfl, rfl, rfl, rfl⟩
  · exact fun c' _ _ h => ⟨h.1, h.2, h.3, h.4, h.5⟩
  · exact fun c' _ _ _ h => ⟨h.1, h.2, h.3, h.4, h.5⟩
  · exact fun c' record _ h => by cases record <;> exact ⟨h.1, h.2, h.3, h.4, h.5⟩
  · exact fun c' _ h => ⟨h.1, h.2, h.3, h.4, h.5⟩

/-! ## An example card

  The primitives with their values on the inputs of the example runs: SHA-256 of the factory PIN
  and PUK, 3DES of a zero block under the factory management key, and the P-256 key `1` with its
  signature over the digest `1`. -/

def scalarOne : List UInt8 := List.replicate 31 0 ++ [1]

def signatureOne : List UInt8 :=
  [0x30, 0x45, 0x02, 0x20] ++ signatureR ++ [0x02, 0x21, 0x00] ++ signatureS

def defaultPinHash : FixedBytes 32 :=
  ⟨toBE 32 0xc596719d1a96ed1ab65761a3a7487d94e54529b7f44f4f8772c7f5dc0364ce1f, rfl⟩

def exampleCrypto : PivCrypto where
  sha256 bytes :=
    if bytes = paddedPin defaultPin then defaultPinHash
    else if bytes = paddedPin defaultPuk then eightDigitsHash
    else FixedBytes.zero _
  bigUint := Rsa2048PrivateKey.computedBigUint
  p256Public scalar := if scalar = scalarOne then some pointOne else none
  p384Public _ := none
  p256Sign scalar digest :=
    if scalar = scalarOne ∧ digest = scalarOne then some signatureOne else none
  p384Sign _ _ := none
  tdesEncrypt key block :=
    if key.val = defaultMgmtKey ∧ block = FixedBytes.zero 8 then
      ⟨[0xB0, 0x73, 0xDC, 0x3F, 0xB2, 0x09, 0x53, 0x6D], rfl⟩
    else FixedBytes.zero _
  aesEncrypt _ _ := FixedBytes.zero _

def zeros : Rng := fun _ => 0

/-- GENERAL AUTHENTICATE `9B`: ask for the encrypted nonce of a single authentication. -/
def askNonce : Apdu := ⟨insGeneralAuthenticate, algTdes, refManagement, [0x7C, 0x02, 0x81, 0x00], none⟩

/-- Return the nonce of zero bytes. -/
def returnNonce : Apdu :=
  ⟨insGeneralAuthenticate, algTdes, refManagement, [0x7C, 0x0A, 0x82, 0x08, 0, 0, 0, 0, 0, 0, 0, 0],
    none⟩

/-- PUT DATA of an empty printed information object. -/
def putPrinted : Apdu := ⟨insPutData, 0x3F, 0xFF, [0x5C, 0x03, 0x5F, 0xC1, 0x09, 0x53, 0x00], none⟩

end AegisToken.Applets.Piv
