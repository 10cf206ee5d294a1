import Wifibroadcast.Crypto.Sodium

/-! # Encryptor and Decryptor

`Encryption.hpp`. The transmitter's `Encryptor` draws session keys, seals each one in a
`WBSessionKeyPacket` for the peer, and seals data packets under the current one; the receiver's
`Decryptor` opens the announcements, keeps the last key it saw, and opens data packets with it.
The key handling is generic in the byte strings `α`, so that the symbolic link model runs this
very code; what counts bytes (the key file, `makeEncryptedPacketIncludingHeader`,
`decryptPacket`) is over byte lists. The `#ifdef DO_NOT_ENCRYPT_DATA_BUT_PROVIDE_BACKWARDS_COMPABILITY`
build is the argument `doNotEncrypt`.
-/

namespace Wifibroadcast

/-- How a call ends when it does not return: a C++ exception, a failed `assert`, or undefined
behaviour. -/
inductive Abort
  /-- `throw std::runtime_error(what)`; `strerror(errno)` suffixes are left out. -/
  | runtimeError (what : String)
  /-- A failed `assert`. -/
  | assertFailed
  /-- `std::length_error` from a `std::vector` longer than `max_size()`. -/
  | lengthError
  /-- A read or write past the end of a buffer (undefined behaviour). -/
  | outOfRange
  /-- `std::list::erase` at `end()` (undefined behaviour). -/
  | eraseEnd
  /-- An aligned SSE load or store (`_mm_load_si128`, `_mm_store_si128`) at an address that is not
  a multiple of 16: a general-protection fault. -/
  | misaligned
  deriving DecidableEq, Repr

/-- `std::vector<uint8_t>::max_size()` of libstdc++ on a 64-bit target, `PTRDIFF_MAX`. -/
def vectorMaxSize : Nat := 2 ^ 63 - 1

/-- A sequence of fallible calls returns exactly when its first call does and the rest returns. -/
theorem Except.bind_eq_ok {ε β γ : Type} {x : Except ε β} {f : β → Except ε γ} {b : γ} :
    (x >>= f) = .ok b ↔ ∃ a, x = .ok a ∧ f a = .ok b := by
  cases x <;> simp [bind, Except.bind]

/-- `WBSessionKeyPacket`: a box nonce and the session key sealed under it. -/
structure WBSessionKeyPacket (α : Type) where
  sessionKeyNonce : α
  sessionKeyData : α
  deriving DecidableEq, Repr

/-- `WBDataHeader`, as `WBTransmitter` builds it from a nonce and a sequence number. -/
structure WBDataHeader where
  nonce : UInt64
  sequenceNumber : UInt16
  deriving DecidableEq, Repr

/-- The bytes of a `WBDataHeader`, which `wifibroadcast.hpp` declares and which is not part of
the sources: `(uint8_t*)&wblockHdr`, `sizeof(WBDataHeader)` of them, and the 8 bytes of its
`nonce` field. -/
structure HeaderLayout where
  size : Nat
  bytes : WBDataHeader → Bytes
  length_bytes : ∀ h, (bytes h).length = size
  nonceBytes : WBDataHeader → Bytes

structure Encryptor (α : Type) where
  txSecretkey : α
  rxPublickey : α
  sessionKey : α
  sessionKeyPacket : WBSessionKeyPacket α

structure Decryptor (α : Type) where
  rxSecretkey : α
  txPublickey : α
  sessionKey : α

variable {α : Type} (S : Sodium α)

/-! ## Construction -/

/-- `DEFAULT_ENCRYPTION_SEED`: `crypto_box_SEEDBYTES` zero bytes. -/
def defaultEncryptionSeed : α := S.zeros seedbytes

/-- The fields an `Encryptor` starts with, given its own secret key and the receiver's public
key; the session key and its packet keep their value-initialised zeros. -/
def Encryptor.ofKeys (txSecretkey rxPublickey : α) : Encryptor α :=
  { txSecretkey, rxPublickey, sessionKey := S.zeros keybytes,
    sessionKeyPacket := ⟨S.zeros noncebytes, S.zeros (keybytes + macbytes)⟩ }

/-- The fields a `Decryptor` starts with: `memset(session_key, 0)`. -/
def Decryptor.ofKeys (rxSecretkey txPublickey : α) : Decryptor α :=
  { rxSecretkey, txPublickey, sessionKey := S.zeros keybytes }

/-- The key file both constructors read: `fopen`, then one `fread` of the own secret key and
one of the peer's public key. The two constructors differ only in the names in the messages. -/
def readKeyfile (fs : String → Option Bytes) (path secretName publicName : String) :
    Except Abort (Bytes × Bytes) :=
  match fs path with
  | none => .error (.runtimeError s!"Unable to open {path}")
  | some file =>
      if file.length < keypairbytes then .error (.runtimeError s!"Unable to read {secretName}")
      else if file.length < 2 * keypairbytes then
        .error (.runtimeError s!"Unable to read {publicName}")
      else .ok (file.take keypairbytes, (file.drop keypairbytes).take keypairbytes)

/-- `Encryptor(std::optional<std::string> keypair)`. -/
def Encryptor.create (S : Sodium Bytes) (fs : String → Option Bytes) :
    Option String → Except Abort (Encryptor Bytes)
  | none =>
      let (pk, sk) := S.seedKeypair (defaultEncryptionSeed S)
      .ok (Encryptor.ofKeys S sk pk)
  | some path => do
      let (sk, pk) ← readKeyfile fs path "tx secret key" "rx public key"
      pure (Encryptor.ofKeys S sk pk)

/-- `Decryptor(std::optional<std::string> keypair)`. -/
def Decryptor.create (S : Sodium Bytes) (fs : String → Option Bytes) :
    Option String → Except Abort (Decryptor Bytes)
  | none =>
      let (pk, sk) := S.seedKeypair (defaultEncryptionSeed S)
      .ok (Decryptor.ofKeys S sk pk)
  | some path => do
      let (sk, pk) ← readKeyfile fs path "rx secret key" "tx public key"
      pure (Decryptor.ofKeys S sk pk)

/-! ## Session keys -/

/-- `makeSessionKey()`, with the two `randombytes_buf` draws as arguments. -/
def Encryptor.makeSessionKey (e : Encryptor α) (key nonce : α) : Except Abort (Encryptor α) :=
  match S.boxEasy key nonce e.rxPublickey e.txSecretkey with
  | some data => .ok { e with sessionKey := key, sessionKeyPacket := ⟨nonce, data⟩ }
  | none => .error (.runtimeError "Unable to make session key!")

/-- `onNewPacketWfbKey(buf)`, with `buf` read as a `WBSessionKeyPacket`; the result says whether a
new session was detected. -/
def Decryptor.onNewPacketWfbKey [DecidableEq α] (d : Decryptor α) (pkt : WBSessionKeyPacket α) :
    Decryptor α × Bool :=
  match S.boxOpenEasy pkt.sessionKeyData pkt.sessionKeyNonce d.txPublickey d.rxSecretkey with
  | none => (d, false)
  | some newSessionKey =>
      if d.sessionKey ≠ newSessionKey then ({ d with sessionKey := newSessionKey }, true)
      else (d, false)

/-! ## Data packets -/

/-- The AEAD call of `makeEncryptedPacketIncludingHeader`: the payload under the session key,
with the header as associated data and its nonce field as public nonce. -/
def Encryptor.aeadSeal (e : Encryptor α) (ad npub payload : α) : α :=
  S.aeadEncrypt payload ad npub e.sessionKey

/-- The AEAD call of `decryptPacket`. -/
def Decryptor.aeadOpen (d : Decryptor α) (ad npub c : α) : Option α :=
  S.aeadDecrypt c ad npub d.sessionKey

/-- `makeEncryptedPacketIncludingHeader(wblockHdr, payload, payloadSize)`: the header bytes
followed by the payload sealed behind them, in a vector of `sizeof(WBDataHeader) + payloadSize +
ABYTES` bytes, that sum taken in `size_t`. -/
def Encryptor.makeEncryptedPacketIncludingHeader (S : Sodium Bytes) (L : HeaderLayout)
    (doNotEncrypt : Bool) (e : Encryptor Bytes) (wblockHdr : WBDataHeader) (payload : Bytes) :
    Except Abort Bytes :=
  let size := (L.size + payload.length + abytes) % 2 ^ 64
  if vectorMaxSize < size then .error .lengthError
  else if size < L.size + payload.length then .error .outOfRange
  else if doNotEncrypt then .ok (L.bytes wblockHdr ++ payload ++ List.replicate abytes 0)
  else
    let c := e.aeadSeal S (L.bytes wblockHdr) (L.nonceBytes wblockHdr) payload
    if L.size + payload.length + abytes = L.size + c.length then .ok (L.bytes wblockHdr ++ c)
    else .error .assertFailed

/-- The length `decryptPacket` resizes its result to: `encryptedPayloadSize - ABYTES` in
`size_t`. -/
def decryptedLength (encryptedPayloadSize : UInt64) : Nat :=
  (encryptedPayloadSize - abytes.toUInt64).toNat

/-- `decryptPacket(wblockHdr, encryptedPayload, encryptedPayloadSize)`, with `encryptedPayload`
the bytes readable at the pointer. Both builds make a vector of `n` bytes first: the range
constructor `std::vector(first, first + n)` of the `DO_NOT_ENCRYPT` build checks `n` against
`max_size()` as `resize(n)` does. -/
def Decryptor.decryptPacket (S : Sodium Bytes) (L : HeaderLayout) (doNotEncrypt : Bool)
    (d : Decryptor Bytes) (wblockHdr : WBDataHeader) (encryptedPayload : Bytes)
    (encryptedPayloadSize : UInt64) : Except Abort (Option Bytes) :=
  let n := decryptedLength encryptedPayloadSize
  if vectorMaxSize < n then .error .lengthError
  else if doNotEncrypt then
    if encryptedPayload.length < n then .error .outOfRange
    else .ok (some (encryptedPayload.take n))
  else if encryptedPayload.length < encryptedPayloadSize.toNat then .error .outOfRange
  else
    match d.aeadOpen S (L.bytes wblockHdr) (L.nonceBytes wblockHdr)
        (encryptedPayload.take encryptedPayloadSize.toNat) with
    | none => .ok none
    | some decrypted => if decrypted.length = n then .ok (some decrypted) else .error .assertFailed

/-! ## What each call does -/

section Lemmas

variable {S}

theorem Encryptor.makeSessionKey_eq_ok {e e' : Encryptor α} {key nonce : α} :
    e.makeSessionKey S key nonce = .ok e' ↔
      ∃ data, S.boxEasy key nonce e.rxPublickey e.txSecretkey = some data ∧
        e' = { e with sessionKey := key, sessionKeyPacket := ⟨nonce, data⟩ } := by
  unfold Encryptor.makeSessionKey
  cases S.boxEasy key nonce e.rxPublickey e.txSecretkey <;> simp [eq_comm]

/-- A new session key changes neither key of the pair. -/
theorem Encryptor.makeSessionKey_keys {e e' : Encryptor α} {key nonce : α}
    (h : e.makeSessionKey S key nonce = .ok e') :
    e'.txSecretkey = e.txSecretkey ∧ e'.rxPublickey = e.rxPublickey := by
  obtain ⟨_, _, rfl⟩ := Encryptor.makeSessionKey_eq_ok.mp h
  exact ⟨rfl, rfl⟩

variable [DecidableEq α]

/-- An announcement that opens to `k` installs `k`, and reports a new session exactly when `k`
differs from the installed key. -/
theorem Decryptor.onNewPacketWfbKey_of_open {d : Decryptor α} {pkt : WBSessionKeyPacket α} {k : α}
    (h : S.boxOpenEasy pkt.sessionKeyData pkt.sessionKeyNonce d.txPublickey d.rxSecretkey = some k) :
    d.onNewPacketWfbKey S pkt = ({ d with sessionKey := k }, decide (d.sessionKey ≠ k)) := by
  unfold Decryptor.onNewPacketWfbKey
  rw [h]
  by_cases hk : d.sessionKey = k
  · subst hk; simp
  · simp [hk]

/-- An announcement that does not open changes nothing. -/
theorem Decryptor.onNewPacketWfbKey_of_open_none {d : Decryptor α} {pkt : WBSessionKeyPacket α}
    (h : S.boxOpenEasy pkt.sessionKeyData pkt.sessionKeyNonce d.txPublickey d.rxSecretkey = none) :
    d.onNewPacketWfbKey S pkt = (d, false) := by
  simp [Decryptor.onNewPacketWfbKey, h]

@[simp] theorem Decryptor.onNewPacketWfbKey_rxSecretkey (d : Decryptor α) (pkt) :
    (d.onNewPacketWfbKey S pkt).1.rxSecretkey = d.rxSecretkey := by
  unfold Decryptor.onNewPacketWfbKey; split <;> (try split) <;> rfl

@[simp] theorem Decryptor.onNewPacketWfbKey_txPublickey (d : Decryptor α) (pkt) :
    (d.onNewPacketWfbKey S pkt).1.txPublickey = d.txPublickey := by
  unfold Decryptor.onNewPacketWfbKey; split <;> (try split) <;> rfl

/-- The key after the call is the one before it or one the announcement opens to. -/
theorem Decryptor.onNewPacketWfbKey_sessionKey (d : Decryptor α) (pkt : WBSessionKeyPacket α) :
    (d.onNewPacketWfbKey S pkt).1.sessionKey = d.sessionKey ∨
      S.boxOpenEasy pkt.sessionKeyData pkt.sessionKeyNonce d.txPublickey d.rxSecretkey =
        some (d.onNewPacketWfbKey S pkt).1.sessionKey := by
  unfold Decryptor.onNewPacketWfbKey
  split
  · exact .inl rfl
  · split
    · exact .inr ‹_›
    · exact .inl rfl

/-- Each call that reports a new session installs the key it opened. -/
theorem Decryptor.onNewPacketWfbKey_snd {d : Decryptor α} {pkt : WBSessionKeyPacket α}
    (h : (d.onNewPacketWfbKey S pkt).2 = true) :
    S.boxOpenEasy pkt.sessionKeyData pkt.sessionKeyNonce d.txPublickey d.rxSecretkey =
        some (d.onNewPacketWfbKey S pkt).1.sessionKey ∧
      (d.onNewPacketWfbKey S pkt).1.sessionKey ≠ d.sessionKey := by
  cases hopen : S.boxOpenEasy pkt.sessionKeyData pkt.sessionKeyNonce d.txPublickey d.rxSecretkey with
  | none => simp [Decryptor.onNewPacketWfbKey_of_open_none hopen] at h
  | some k =>
      rw [Decryptor.onNewPacketWfbKey_of_open hopen] at h ⊢
      simp only [decide_eq_true_eq] at h
      exact ⟨rfl, Ne.symm h⟩

end Lemmas

/-! ## The key file -/

section Keyfile

variable {fs : String → Option Bytes} {path secretName publicName : String}

theorem readKeyfile_eq_ok {secret public : Bytes} :
    readKeyfile fs path secretName publicName = .ok (secret, public) ↔
      ∃ rest, fs path = some (secret ++ public ++ rest) ∧ secret.length = keypairbytes ∧
        public.length = keypairbytes := by
  unfold readKeyfile
  split
  · next h => simp [h]
  · next file h =>
    simp only [h, Option.some.injEq]
    split_ifs with h1 h2
    · simp only [reduceCtorEq, false_iff, not_exists, not_and]
      rintro rest rfl hs -
      simp only [List.length_append] at h1; omega
    · simp only [reduceCtorEq, false_iff, not_exists, not_and]
      rintro rest rfl hs hp
      simp only [List.length_append] at h2; omega
    · simp only [Except.ok.injEq, Prod.mk.injEq]
      constructor
      · rintro ⟨rfl, rfl⟩
        refine ⟨file.drop (2 * keypairbytes), ?_, ?_, ?_⟩
        · rw [List.append_assoc, Nat.two_mul, ← List.drop_drop, List.take_append_drop,
            List.take_append_drop]
        · rw [List.length_take]; omega
        · rw [List.length_take, List.length_drop]; omega
      · rintro ⟨rest, rfl, hs, hp⟩
        simp [List.take_left' hs, List.drop_left' hs, List.append_assoc, List.take_left' hp]

theorem readKeyfile_of_eq {secret public : Bytes} (hfile : fs path = some (secret ++ public))
    (hsecret : secret.length = keypairbytes) (hpublic : public.length = keypairbytes) :
    readKeyfile fs path secretName publicName = .ok (secret, public) :=
  readKeyfile_eq_ok.mpr ⟨[], by simpa using hfile, hsecret, hpublic⟩

end Keyfile

end Wifibroadcast
