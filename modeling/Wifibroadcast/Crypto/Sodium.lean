import Mathlib.Data.List.Basic
import Mathlib.Algebra.Group.Nat.Basic

/-! # The libsodium primitives of the encryption layer

`Encryptor` and `Decryptor` call a seeded key pair, the public-key box and its opening, and the
ChaCha20-Poly1305 AEAD and its opening. They stay abstract here, over a type `α` of byte strings,
so that the same code runs on byte lists and on the symbolic terms of the link model.
`crypto_box_easy` is split as libsodium implements it, into `crypto_box_beforenm` and the
`_afternm` call: a box can then fail only on its key pair. The laws are the correctness of each
primitive and the symmetry of the X25519 shared key; nothing here assumes secrecy.
-/

namespace Wifibroadcast

/-- The byte strings of the model: `std::vector<uint8_t>` and `std::array<uint8_t, n>`. -/
abbrev Bytes := List UInt8

/-- `crypto_box_SEEDBYTES` -/
def seedbytes : Nat := 32
/-- `crypto_box_SECRETKEYBYTES` and `crypto_box_PUBLICKEYBYTES` -/
def keypairbytes : Nat := 32
/-- `crypto_box_NONCEBYTES` -/
def noncebytes : Nat := 24
/-- `crypto_box_MACBYTES` -/
def macbytes : Nat := 16
/-- `crypto_aead_chacha20poly1305_KEYBYTES` -/
def keybytes : Nat := 32
/-- `crypto_aead_chacha20poly1305_ABYTES`, the length of the Poly1305 tag. -/
def abytes : Nat := 16

/-- The libsodium calls of `Encryption.hpp`, over byte strings `α`. -/
structure Sodium (α : Type) where
  /-- `n` zero bytes: a value-initialised `std::array`. -/
  zeros : Nat → α
  /-- `crypto_scalarmult_base`: the public key of a secret key. -/
  scalarmultBase : α → α
  /-- `crypto_box_seed_keypair`: the public and the secret key made from a seed. -/
  seedKeypair : α → α × α
  /-- `crypto_box_beforenm pk sk`: the shared key, or a failure on a low-order public key. -/
  beforenm : α → α → Option α
  /-- `crypto_box_easy_afternm m n k` -/
  easyAfternm : α → α → α → α
  /-- `crypto_box_open_easy_afternm c n k` -/
  openEasyAfternm : α → α → α → Option α
  /-- `crypto_aead_chacha20poly1305_encrypt m ad npub k` -/
  aeadEncrypt : α → α → α → α → α
  /-- `crypto_aead_chacha20poly1305_decrypt c ad npub k` -/
  aeadDecrypt : α → α → α → α → Option α

namespace Sodium

variable {α : Type} (S : Sodium α)

/-- `crypto_box_easy(c, m, mlen, n, pk, sk)`. -/
def boxEasy (m n pk sk : α) : Option α :=
  (S.beforenm pk sk).map (S.easyAfternm m n)

/-- `crypto_box_open_easy(m, c, clen, n, pk, sk)`. -/
def boxOpenEasy (c n pk sk : α) : Option α :=
  (S.beforenm pk sk).bind (S.openEasyAfternm c n)

/-- The correctness laws of the primitives, with the symmetry of X25519 for genuine key pairs. -/
structure Lawful : Prop where
  seedKeypair_genuine : ∀ seed, (S.seedKeypair seed).1 = S.scalarmultBase (S.seedKeypair seed).2
  beforenm_comm : ∀ a b, S.beforenm (S.scalarmultBase a) b = S.beforenm (S.scalarmultBase b) a
  openEasyAfternm_easyAfternm : ∀ m n k, S.openEasyAfternm (S.easyAfternm m n k) n k = some m
  aeadDecrypt_aeadEncrypt :
    ∀ m ad npub k, S.aeadDecrypt (S.aeadEncrypt m ad npub k) ad npub k = some m

/-- A box opens, under any key pair with the same shared key, to what it sealed. -/
theorem boxOpenEasy_of_boxEasy (hS : S.Lawful) {m n pk sk c pk' sk' : α}
    (hbox : S.boxEasy m n pk sk = some c) (hkeys : S.beforenm pk' sk' = S.beforenm pk sk) :
    S.boxOpenEasy c n pk' sk' = some m := by
  unfold boxEasy at hbox
  unfold boxOpenEasy
  cases hk : S.beforenm pk sk with
  | none => simp [hk] at hbox
  | some k =>
      simp only [hk, Option.map_some', Option.some.injEq] at hbox
      simp [hkeys, hk, ← hbox, hS.openEasyAfternm_easyAfternm]

/-- Whether a box can be made depends on the key pair alone. -/
theorem boxEasy_isSome {m n m' n' pk sk : α} (h : (S.boxEasy m n pk sk).isSome) :
    (S.boxEasy m' n' pk sk).isSome := by
  simpa [boxEasy] using h

end Sodium

/-- The AEAD on byte lists appends a tag of `crypto_aead_chacha20poly1305_ABYTES` bytes. -/
structure Sodium.AeadLength (S : Sodium Bytes) : Prop where
  length_aeadEncrypt : ∀ m ad npub k, (S.aeadEncrypt m ad npub k).length = m.length + abytes

/-- A lawful instance over byte lists that hides nothing: the box is the identity and the AEAD
appends a zero tag. It shows the laws are consistent and evaluates the concrete runs below. -/
def Sodium.plain : Sodium Bytes where
  zeros n := List.replicate n 0
  scalarmultBase sk := sk
  seedKeypair seed := (seed, seed)
  beforenm _ _ := some []
  easyAfternm m _ _ := m
  openEasyAfternm c _ _ := some c
  aeadEncrypt m _ _ _ := m ++ List.replicate abytes 0
  aeadDecrypt c _ _ _ := some (c.take (c.length - abytes))

theorem Sodium.plain_lawful : Sodium.plain.Lawful where
  seedKeypair_genuine _ := rfl
  beforenm_comm _ _ := rfl
  openEasyAfternm_easyAfternm _ _ _ := rfl
  aeadDecrypt_aeadEncrypt m _ _ _ := by simp [Sodium.plain, abytes]

theorem Sodium.plain_aeadLength : Sodium.plain.AeadLength where
  length_aeadEncrypt _ _ _ _ := by simp [Sodium.plain]

end Wifibroadcast
