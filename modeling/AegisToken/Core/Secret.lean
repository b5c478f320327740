/-
  Sealed secrets (aegis-core secret.rs).
  The AES-256-GCM of the `aes_gcm` crate under one root key is a parameter, `Aead`. Its fields
  state what the crate documents and the sealed stores rely on: the ciphertext is as long as the
  plaintext plus the tag, and what was encrypted decrypts under the same nonce. The additional
  data is the same constant in every call and is part of the parameter.
  `sealInto` and `openSealed` are the length checks of `AesGcmSealer` around it. `sealing` is a
  call of `AesGcmSealer::seal` inside a program on the flash: it records nonce and plaintext.
  `storeSealed` is the shape every sealed store's write comes down to.
-/
import AegisToken.Core.PowerFail

namespace AegisToken
open ByteCodec FlashProg

def nonceLen : Nat := 12

def tagLen : Nat := 16

/-- AES-256-GCM under one root key; `encrypt nonce plaintext` is the ciphertext and the tag. -/
structure Aead where
  encrypt : List UInt8 → List UInt8 → List UInt8
  decrypt : List UInt8 → List UInt8 → Option (List UInt8)
  length_encrypt : ∀ nonce plaintext, (encrypt nonce plaintext).length = plaintext.length + tagLen
  decrypt_encrypt : ∀ nonce plaintext, decrypt nonce (encrypt nonce plaintext) = some plaintext

namespace Aead

/-- Seal `plaintext` into a buffer of `cap` bytes (`AesGcmSealer::seal`). -/
def sealInto (A : Aead) (nonce plaintext : List UInt8) (cap : Nat) : Except CoreError (List UInt8) :=
  if cap < plaintext.length + tagLen then .error .cryptoError
  else .ok (A.encrypt nonce plaintext)

/-- Open a sealed blob into a buffer of `cap` bytes (`AesGcmSealer::open`). -/
def openSealed (A : Aead) (nonce blob : List UInt8) (cap : Nat) : Except CoreError (List UInt8) :=
  if blob.length < tagLen then .error .cryptoError
  else if cap < blob.length - tagLen then .error .cryptoError
  else
    match A.decrypt nonce blob with
    | some plaintext => .ok plaintext
    | none => .error .cryptoError

theorem sealInto_eq {A : Aead} {nonce plaintext : List UInt8} {cap : Nat}
    (h : plaintext.length + tagLen ≤ cap) :
    A.sealInto nonce plaintext cap = .ok (A.encrypt nonce plaintext) := by
  rw [sealInto, if_neg (by omega)]

theorem openSealed_encrypt {A : Aead} {nonce plaintext : List UInt8} {cap : Nat}
    (h : plaintext.length ≤ cap) :
    A.openSealed nonce (A.encrypt nonce plaintext) cap = .ok plaintext := by
  have hl := A.length_encrypt nonce plaintext
  rw [openSealed, if_neg (by omega), if_neg (by omega), A.decrypt_encrypt]

/-- A stand-in cipher for runs on concrete inputs, with the lengths but not the bytes of the real
  one: the plaintext in clear, and the nonce padded to a tag that must match on opening. -/
def plain : Aead where
  encrypt := fun nonce p => p ++ (FixedBytes.ofList tagLen nonce).val
  decrypt := fun nonce c =>
    if c.drop (c.length - tagLen) = (FixedBytes.ofList tagLen nonce).val then
      some (c.take (c.length - tagLen))
    else none
  length_encrypt := by
    intro nonce p
    rw [List.length_append, (FixedBytes.ofList tagLen nonce).property]
  decrypt_encrypt := by
    intro nonce p
    have hlen : (p ++ (FixedBytes.ofList tagLen nonce).val).length - tagLen = p.length := by
      rw [List.length_append, (FixedBytes.ofList tagLen nonce).property, Nat.add_sub_cancel]
    rw [hlen, List.drop_left, List.take_left, if_pos rfl]

end Aead

/-- A call of `AesGcmSealer::seal`. -/
structure SealCall where
  nonce : List UInt8
  plaintext : List UInt8
deriving DecidableEq

/-- Seal inside a program; the call is recorded. -/
def sealing (A : Aead) (nonce plaintext : List UInt8) (cap : Nat) :
    Prog SealCall CoreError (List UInt8) := do
  Prog.issue (.note ⟨nonce, plaintext⟩)
  Prog.look fun _ => A.sealInto nonce plaintext cap

/-- A sealed record on its way to a region: the call is recorded, then `[nonce][ciphertext][tag]` is
  stored. -/
def storeSealed (A : Aead) (storage : SecretStorage) (nonce plaintext : List UInt8) :
    Prog SealCall CoreError Unit :=
  Prog.noting ⟨nonce, plaintext⟩ (storage.store (nonce ++ A.encrypt nonce plaintext) >>= fun _ =>
    pure ())

/-- What the sealed stores do with a plaintext that fits. -/
theorem sealing_store_eq (A : Aead) (storage : SecretStorage) {nonce plaintext : List UInt8}
    {cap : Nat} (h : plaintext.length + tagLen ≤ cap) :
    (sealing A nonce plaintext cap >>= fun blob =>
      storage.store (nonce ++ blob) >>= fun _ => pure ()) =
      storeSealed A storage nonce plaintext := by
  unfold sealing storeSealed
  simp only [Aead.sealInto_eq h]
  rfl

section StoreSealed
variable (A : Aead) (storage : SecretStorage) (nonce plaintext : List UInt8) (f : Flash)

theorem storeSealed_ops :
    (storeSealed A storage nonce plaintext).ops f = .note ⟨nonce, plaintext⟩ ::
      (storage.store (nonce ++ A.encrypt nonce plaintext) : Prog SealCall CoreError Nat).ops f := by
  rw [storeSealed, Prog.noting_ops, Prog.ops_forget]

theorem storeSealed_crash (n : Nat) :
    (storeSealed A storage nonce plaintext).crash n f =
      (storage.store (nonce ++ A.encrypt nonce plaintext) : Prog SealCall CoreError Nat).crash n f := by
  rw [storeSealed, Prog.noting_crash, Prog.crash, Prog.ops_forget, Prog.crash]

theorem storeSealed_after :
    (storeSealed A storage nonce plaintext).after f =
      (storage.store (nonce ++ A.encrypt nonce plaintext) : Prog SealCall CoreError Nat).after f := by
  rw [storeSealed, Prog.noting_after, Prog.after, Prog.ops_forget, Prog.after]

theorem storeSealed_result {A : Aead} {storage : SecretStorage} {nonce plaintext : List UInt8}
    (h : (nonce ++ A.encrypt nonce plaintext).length ≤ maxPayloadBytes) (f : Flash) :
    (storeSealed A storage nonce plaintext).result f = .ok () := by
  have hr := storage.store_result (ν := SealCall) f h
  exact (Prog.result_bind_ok hr).trans rfl

theorem storeSealed_length_ops {A : Aead} {storage : SecretStorage} {nonce plaintext : List UInt8}
    (h : (nonce ++ A.encrypt nonce plaintext).length ≤ maxPayloadBytes) (f : Flash) :
    ((storeSealed A storage nonce plaintext).ops f).length = 4 := by
  rw [storeSealed_ops, storage.store_ops f h]
  rfl

theorem storeSealed_notes {A : Aead} {storage : SecretStorage} {nonce plaintext : List UInt8}
    (h : (nonce ++ A.encrypt nonce plaintext).length ≤ maxPayloadBytes) (f : Flash) :
    notes ((storeSealed A storage nonce plaintext).ops f) = [⟨nonce, plaintext⟩] := by
  rw [storeSealed_ops, storage.store_ops f h]
  simp

theorem storeSealed_avoids (A : Aead) {storage t : SecretStorage} (h : SlotStore.Apart storage t)
    (nonce plaintext : List UInt8) (f : Flash) {a : Nat} (ha : t.base ≤ a)
    (ha' : a < t.base + slotCount * t.slotSize) :
    ∀ op ∈ (storeSealed A storage nonce plaintext).ops f, op.Avoids a := by
  intro op hop
  rw [storeSealed_ops] at hop
  rcases List.mem_cons.mp hop with rfl | hop
  · exact ⟨0, 0, trivial, .inr (Nat.zero_le a)⟩
  have hsl := storage.slot_within (TwoSlot.target (storage.view f))
  have ht : (storage.next f).2 = (TwoSlot.target (storage.view f)).val := by rw [SlotStore.next_eq]
  rw [← ht] at hsl
  refine ⟨_, _, storage.store_within f _ op hop, ?_⟩
  unfold SlotStore.Apart at h
  omega

end StoreSealed

end AegisToken
