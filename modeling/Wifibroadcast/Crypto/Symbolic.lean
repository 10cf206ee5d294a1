import Wifibroadcast.Crypto.Encryption

/-! # Symbolic byte strings

For reasoning about an adversary the byte strings become terms: names that record who made them,
and one constructor per primitive, which nobody can take apart without the key. The primitives
of `Sodium` are then these constructors, so `Encryptor` and `Decryptor` run unchanged on terms.
The X25519 key of two parties is one term whichever of them computes it. `Derivable` is what an
adversary can compute from the frames it has seen: it may replay, reflect, take apart what it has
the key for, and build anything from public data and keys it knows. A term is `harmless` when no
secret lies open in it; everything derivable from harmless terms is harmless, and a sealed term
the adversary has no key for can only come from what it saw.
-/

namespace Wifibroadcast

/-- The two endpoints of the link, the adversary, and the key pair of the public zero seed. -/
inductive Party
  | a
  | b
  | eve
  | seed
  deriving DecidableEq, Repr

/-- The endpoints, whose secret keys the adversary does not have. -/
def Party.honest : Party → Bool
  | .a | .b => true
  | .eve | .seed => false

def Party.rank : Party → Nat
  | .a => 0
  | .b => 1
  | .eve => 2
  | .seed => 3

inductive Term
  | zeros (n : Nat)
  /-- Public data: payloads, headers, nonces. -/
  | atom (n : Nat)
  | secretKey (p : Party)
  | publicKey (p : Party)
  /-- The X25519 key of two parties, the lower-ranked first. -/
  | shared (p q : Party)
  /-- The `i`-th key `p`'s Encryptor drew from `randombytes_buf`. -/
  | sessionKey (p : Party) (i : Nat)
  | box (k n m : Term)
  | aead (k ad npub m : Term)
  deriving DecidableEq, Repr

/-- The shared key `p` computes from its secret key and `q`'s public key. -/
def sharedKey (p q : Party) : Term := if p.rank ≤ q.rank then .shared p q else .shared q p

theorem sharedKey_comm (p q : Party) : sharedKey p q = sharedKey q p := by
  cases p <;> cases q <;> rfl

/-- The primitives on terms. -/
def Term.sodium : Sodium Term where
  zeros := .zeros
  scalarmultBase
    | .secretKey p => .publicKey p
    | _ => .zeros 0
  seedKeypair _ := (.publicKey .seed, .secretKey .seed)
  beforenm
    | .publicKey q, .secretKey p => some (sharedKey p q)
    | _, _ => none
  easyAfternm m n k := .box k n m
  openEasyAfternm
    | .box k' n' m, n, k => if k' = k ∧ n' = n then some m else none
    | _, _, _ => none
  aeadEncrypt m ad npub k := .aead k ad npub m
  aeadDecrypt
    | .aead k' ad' npub' m, ad, npub, k => if k' = k ∧ ad' = ad ∧ npub' = npub then some m else none
    | _, _, _, _ => none

@[simp] theorem Term.sodium_zeros (n : Nat) : Term.sodium.zeros n = .zeros n := rfl

@[simp] theorem Term.sodium_aeadEncrypt (m ad npub k : Term) :
    Term.sodium.aeadEncrypt m ad npub k = .aead k ad npub m := rfl

theorem Term.sodium_lawful : Term.sodium.Lawful where
  seedKeypair_genuine _ := rfl
  beforenm_comm a b := by
    cases a <;> cases b <;> first | rfl | simp [Term.sodium, sharedKey_comm]
  openEasyAfternm_easyAfternm _ _ _ := by simp [Term.sodium]
  aeadDecrypt_aeadEncrypt _ _ _ _ := by simp [Term.sodium]

theorem Term.boxOpenEasy_eq_some {c n : Term} {p q : Party} {m : Term} :
    Term.sodium.boxOpenEasy c n (.publicKey q) (.secretKey p) = some m ↔
      c = .box (sharedKey p q) n m := by
  simp only [Sodium.boxOpenEasy, Term.sodium, Option.some_bind]
  split <;> simp_all [and_assoc]

theorem Term.aeadDecrypt_eq_some {c ad npub k m : Term} :
    Term.sodium.aeadDecrypt c ad npub k = some m ↔ c = .aead k ad npub m := by
  simp only [Term.sodium]
  split <;> simp_all [eq_comm, and_assoc]

/-! ## What the adversary learns -/

/-- No secret lies open in the term: secret keys of the endpoints, their shared key and the
session keys appear only under a key that is itself secret. -/
def Term.harmless : Term → Bool
  | .zeros _ | .atom _ | .publicKey _ => true
  | .secretKey p => !p.honest
  | .shared p q => !p.honest || !q.honest
  | .sessionKey _ _ => false
  | .box k _ m => !k.harmless || m.harmless
  | .aead k _ _ m => !k.harmless || m.harmless

theorem harmless_sharedKey (p q : Party) :
    (sharedKey p q).harmless = (!p.honest || !q.honest) := by
  cases p <;> cases q <;> rfl

/-- What the adversary can compute from the terms in `known`. -/
inductive Derivable (known : List Term) : Term → Prop
  | known {t} : t ∈ known → Derivable known t
  | zeros (n : Nat) : Derivable known (.zeros n)
  | atom (n : Nat) : Derivable known (.atom n)
  | publicKey (p : Party) : Derivable known (.publicKey p)
  | secretKey {p : Party} : p.honest = false → Derivable known (.secretKey p)
  | beforenm {p : Party} (q : Party) : Derivable known (.secretKey p) →
      Derivable known (sharedKey p q)
  | box {k n m} : Derivable known k → Derivable known n → Derivable known m →
      Derivable known (.box k n m)
  | unbox {k n m} : Derivable known (.box k n m) → Derivable known k → Derivable known m
  | aead {k ad npub m} : Derivable known k → Derivable known ad → Derivable known npub →
      Derivable known m → Derivable known (.aead k ad npub m)
  | unaead {k ad npub m} : Derivable known (.aead k ad npub m) → Derivable known k →
      Derivable known m

/-- Only harmless terms can be derived from harmless ones. -/
theorem Derivable.harmless {known : List Term} (hknown : ∀ u ∈ known, u.harmless)
    {t : Term} (h : Derivable known t) : t.harmless := by
  induction h with
  | known hu => exact hknown _ hu
  | zeros | atom | publicKey => rfl
  | secretKey hp => simp [Term.harmless, hp]
  | beforenm q _ ih =>
      simp only [Term.harmless] at ih
      simp [harmless_sharedKey, ih]
  | box hk _ _ _ _ ihm | aead hk _ _ _ _ _ _ ihm => simp [Term.harmless, ihm]
  | unbox _ _ ihb ihk | unaead _ _ ihb ihk =>
      simp only [Term.harmless, ihk, Bool.not_true, Bool.false_or] at ihb
      exact ihb

/-- The parts of a term that are terms. -/
def Term.children : Term → List Term
  | .box k n m => [k, n, m]
  | .aead k ad npub m => [k, ad, npub, m]
  | _ => []

/-- `s` occurs in `t`. -/
inductive Term.Occurs (s : Term) : Term → Prop
  | refl : Term.Occurs s s
  | child {t u : Term} : u ∈ t.children → Term.Occurs s u → Term.Occurs s t

theorem Term.Occurs.trans {s u t : Term} (hsu : s.Occurs u) (hut : u.Occurs t) : s.Occurs t := by
  induction hut with
  | refl => exact hsu
  | child hmem _ ih => exact .child hmem ih

theorem Term.Occurs.eq_of_children_nil {s t : Term} (h : s.Occurs t) (ht : t.children = []) :
    s = t := by
  cases h with
  | refl => rfl
  | child hmem _ => simp [ht] at hmem

/-- A box or an AEAD ciphertext under a key the adversary cannot have. -/
def Term.locked : Term → Bool
  | .box k _ _ => !k.harmless
  | .aead k _ _ _ => !k.harmless
  | _ => false

/-- In a term whose parts are atomic and not locked, a locked term occurs only as the whole. -/
theorem Term.Occurs.eq_of_locked {s t : Term} (h : s.Occurs t) (hs : s.locked)
    (ht : ∀ u ∈ t.children, u.children = [] ∧ u.locked = false) : s = t := by
  cases h with
  | refl => rfl
  | child hmem hsu =>
      obtain ⟨hnil, hu⟩ := ht _ hmem
      rw [hsu.eq_of_children_nil hnil, hu] at hs
      exact absurd hs Bool.false_ne_true

/-- A locked term in anything the adversary derives occurs in what it saw. -/
theorem Derivable.locked_occurs {known : List Term} (hknown : ∀ u ∈ known, u.harmless)
    {t : Term} (h : Derivable known t) :
    ∀ {s : Term}, s.Occurs t → s.locked → ∃ u ∈ known, s.Occurs u := by
  induction h with
  | known hu => exact fun hs _ => ⟨_, hu, hs⟩
  | zeros | atom | publicKey | secretKey =>
      intro s hs hlocked
      rw [hs.eq_of_children_nil rfl] at hlocked
      simp [Term.locked] at hlocked
  | beforenm p q _ =>
      intro s hs hlocked
      rw [hs.eq_of_children_nil (by unfold sharedKey; split <;> rfl)] at hlocked
      revert hlocked
      unfold sharedKey; split <;> simp [Term.locked]
  | box hk _ _ ihk ihn ihm | aead hk _ _ _ ihk ihn ihm =>
      intro s hs hlocked
      cases hs with
      | refl => simp [Term.locked, hk.harmless hknown] at hlocked
      | child hmem hs =>
          simp only [Term.children, List.mem_cons, List.mem_singleton, List.not_mem_nil,
            or_false] at hmem
          rcases hmem with rfl | rfl | rfl | rfl <;> simp_all
  | unbox _ _ ihb _ | unaead _ _ ihb _ =>
      exact fun hs hlocked => ihb (.child (by simp [Term.children]) hs) hlocked

end Wifibroadcast
