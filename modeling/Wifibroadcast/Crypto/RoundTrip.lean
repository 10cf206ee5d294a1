import Wifibroadcast.Crypto.Encryption

/-! # The data-packet round trip

A transmitter and a receiver whose key material corresponds agree on the shared key of the box.
So once the receiver has processed the transmitter's latest announcement, every packet
`makeEncryptedPacketIncludingHeader` builds comes back, through `decryptPacket`, as the payload
it carried, in both builds. The vector the packet is built in holds up to `2^63 - 1` bytes, more
than the address space leaves for any payload. A frame shorter than the tag makes `decryptPacket`
wrap its length around and throw, in both builds.
-/

namespace Wifibroadcast

/-- The states of an `Encryptor` from its constructor on: any number of `makeSessionKey` calls. -/
inductive Encryptor.Reachable (S : Sodium Bytes) (fs : String → Option Bytes)
    (keypair : Option String) : Encryptor Bytes → Prop
  | create {e} : Encryptor.create S fs keypair = .ok e → Reachable S fs keypair e
  | makeSessionKey {e e' key nonce} : Reachable S fs keypair e →
      e.makeSessionKey S key nonce = .ok e' → Reachable S fs keypair e'

/-- The states of a `Decryptor` from its constructor on: any number of announcements, genuine or
not. `decryptPacket` changes no state. -/
inductive Decryptor.Reachable (S : Sodium Bytes) (fs : String → Option Bytes)
    (keypair : Option String) : Decryptor Bytes → Prop
  | create {d} : Decryptor.create S fs keypair = .ok d → Reachable S fs keypair d
  | onNewPacketWfbKey {d} (pkt) : Reachable S fs keypair d →
      Reachable S fs keypair (d.onNewPacketWfbKey S pkt).1

/-- The two ways to provision a link: both ends from the default seed, or the transmitter's key
file `secret_T || public_R` and the receiver's `secret_R || public_T` of two genuine key pairs. -/
def KeyfilesCorrespond (S : Sodium Bytes) (fs : String → Option Bytes)
    (transmitter receiver : Option String) : Prop :=
  (transmitter = none ∧ receiver = none) ∨
    ∃ pathT pathR secretT secretR, transmitter = some pathT ∧ receiver = some pathR ∧
      secretT.length = keypairbytes ∧ secretR.length = keypairbytes ∧
      (S.scalarmultBase secretT).length = keypairbytes ∧
      (S.scalarmultBase secretR).length = keypairbytes ∧
      fs pathT = some (secretT ++ S.scalarmultBase secretR) ∧
      fs pathR = some (secretR ++ S.scalarmultBase secretT)

section Keys

variable {S : Sodium Bytes} {fs : String → Option Bytes} {keypair : Option String}

theorem Encryptor.Reachable.keys {e : Encryptor Bytes} (he : e.Reachable S fs keypair) :
    ∃ e₀, Encryptor.create S fs keypair = .ok e₀ ∧
      e.txSecretkey = e₀.txSecretkey ∧ e.rxPublickey = e₀.rxPublickey := by
  induction he with
  | create h => exact ⟨_, h, rfl, rfl⟩
  | makeSessionKey _ hmake ih =>
      obtain ⟨e₀, h₀, hsk, hpk⟩ := ih
      obtain ⟨hsk', hpk'⟩ := Encryptor.makeSessionKey_keys hmake
      exact ⟨e₀, h₀, hsk'.trans hsk, hpk'.trans hpk⟩

theorem Decryptor.Reachable.keys {d : Decryptor Bytes} (hd : d.Reachable S fs keypair) :
    ∃ d₀, Decryptor.create S fs keypair = .ok d₀ ∧
      d.rxSecretkey = d₀.rxSecretkey ∧ d.txPublickey = d₀.txPublickey := by
  induction hd with
  | create h => exact ⟨_, h, rfl, rfl⟩
  | onNewPacketWfbKey pkt _ ih =>
      obtain ⟨d₀, h₀, hsk, hpk⟩ := ih
      exact ⟨d₀, h₀, by simpa using hsk, by simpa using hpk⟩

/-- Corresponding key material gives both ends the same box key: trivially for the seed, by the
symmetry of X25519 for the key files. -/
theorem beforenm_eq_of_correspond (hS : S.Lawful) {transmitter receiver : Option String}
    (hcorr : KeyfilesCorrespond S fs transmitter receiver) {e₀ : Encryptor Bytes}
    {d₀ : Decryptor Bytes} (he₀ : Encryptor.create S fs transmitter = .ok e₀)
    (hd₀ : Decryptor.create S fs receiver = .ok d₀) :
    S.beforenm d₀.txPublickey d₀.rxSecretkey = S.beforenm e₀.rxPublickey e₀.txSecretkey := by
  rcases hcorr with ⟨rfl, rfl⟩ | ⟨pathT, pathR, secretT, secretR, rfl, rfl, hT, hR, hpT, hpR, hfT, hfR⟩
  · simp only [Encryptor.create, Decryptor.create, Except.ok.injEq] at he₀ hd₀
    subst he₀ hd₀
    rfl
  · simp only [Encryptor.create, readKeyfile_of_eq hfT hT hpR, Decryptor.create,
      readKeyfile_of_eq hfR hR hpT] at he₀ hd₀
    cases he₀; cases hd₀
    exact hS.beforenm_comm secretT secretR

end Keys

/-- The 8 bytes of a `uint64_t`, least significant first. -/
def le64 (n : UInt64) : Bytes := (List.range 8).map fun i => (n >>> (8 * i).toUInt64).toUInt8

/-- Modelled from the spec: the 11-byte cleartext header of §3, a type byte, the 8-byte nonce
and a 2-byte sequence number, little-endian. Only the concrete runs below use it. -/
def HeaderLayout.spec : HeaderLayout where
  size := 11
  bytes h := (1 : UInt8) :: le64 h.nonce ++ [h.sequenceNumber.toUInt8, (h.sequenceNumber >>> 8).toUInt8]
  length_bytes _ := by simp [le64]
  nonceBytes h := le64 h.nonce

/-! ## Building and opening one packet -/

section Packet

variable {S : Sodium Bytes} {L : HeaderLayout}

theorem decryptedLength_of_le {size : UInt64} (h : abytes ≤ size.toNat) :
    decryptedLength size = size.toNat - abytes := by
  have h16 : (UInt64.toBitVec (abytes.toUInt64)).toNat = abytes := rfl
  simp only [decryptedLength, UInt64.toNat, UInt64.sub_def, BitVec.toNat_sub, h16] at h ⊢
  have := size.toBitVec.isLt
  omega

/-- A payload whose packet fits in a vector gives the header followed by the sealed payload, or,
in the `DO_NOT_ENCRYPT` build, by the payload and a zero tag. -/
theorem Encryptor.makeEncryptedPacketIncludingHeader_of_le (hlen : S.AeadLength)
    (doNotEncrypt : Bool) (e : Encryptor Bytes) (hdr : WBDataHeader) {payload : Bytes}
    (hsize : L.size + payload.length + abytes ≤ vectorMaxSize) :
    e.makeEncryptedPacketIncludingHeader S L doNotEncrypt hdr payload =
      .ok (L.bytes hdr ++ if doNotEncrypt then payload ++ List.replicate abytes 0
        else e.aeadSeal S (L.bytes hdr) (L.nonceBytes hdr) payload) := by
  have hmod : (L.size + payload.length + abytes) % 2 ^ 64 = L.size + payload.length + abytes :=
    Nat.mod_eq_of_lt (by simp only [vectorMaxSize] at hsize; omega)
  have hseal := hlen.length_aeadEncrypt payload (L.bytes hdr) (L.nonceBytes hdr) e.sessionKey
  have hfit : ¬ L.size + payload.length + abytes < L.size + payload.length := by omega
  simp only [Encryptor.makeEncryptedPacketIncludingHeader, hmod, Encryptor.aeadSeal, hseal,
    if_neg (Nat.not_lt.mpr hsize), if_neg hfit]
  cases doNotEncrypt <;> simp [Nat.add_assoc]

/-- The payload a packet carries, behind its header, comes back from `decryptPacket` when the
receiver holds the key it was sealed under. -/
theorem Decryptor.decryptPacket_of_sealed (hS : S.Lawful) (hlen : S.AeadLength)
    (doNotEncrypt : Bool) {d : Decryptor Bytes} {e : Encryptor Bytes}
    (hkey : d.sessionKey = e.sessionKey) (hdr : WBDataHeader) {payload : Bytes}
    (hsize : L.size + payload.length + abytes ≤ vectorMaxSize) :
    let c := if doNotEncrypt then payload ++ List.replicate abytes 0
      else e.aeadSeal S (L.bytes hdr) (L.nonceBytes hdr) payload
    d.decryptPacket S L doNotEncrypt hdr c c.length.toUInt64 = .ok (some payload) := by
  intro c
  have hc : c.length = payload.length + abytes := by
    cases doNotEncrypt
    · exact hlen.length_aeadEncrypt ..
    · simp [c]
  have hlt : payload.length + abytes < UInt64.size := by
    simp only [UInt64.size, vectorMaxSize] at hsize ⊢; omega
  have hsizeNat : (payload.length + abytes).toUInt64.toNat = payload.length + abytes :=
    UInt64.toNat_ofNat_of_lt hlt
  have hn : decryptedLength (payload.length + abytes).toUInt64 = payload.length := by
    rw [decryptedLength_of_le (by omega), hsizeNat]; omega
  have hmax : ¬ vectorMaxSize < payload.length := by omega
  rw [hc]
  cases doNotEncrypt
  · have hopen : d.aeadOpen S (L.bytes hdr) (L.nonceBytes hdr) c = some payload := by
      simp only [Decryptor.aeadOpen, hkey, c]
      exact hS.aeadDecrypt_aeadEncrypt ..
    simp only [Decryptor.decryptPacket, hn, hsizeNat, if_neg hmax, lt_irrefl, if_false,
      Bool.false_eq_true]
    simp only [← hc, List.take_length, hopen, if_true, lt_irrefl, if_false]
  · simp [Decryptor.decryptPacket, hn, hmax, c]

end Packet

/-! ## The round trip -/

section RoundTrip

variable {S : Sodium Bytes} {fs : String → Option Bytes} {L : HeaderLayout}

/-- After the transmitter's latest `makeSessionKey` and the receiver's `onNewPacketWfbKey` on its
announcement, every packet whose vector fits is the header followed by `|P| + 16` bytes, and
`decryptPacket` on what follows the header gives the payload back, in both builds. -/
theorem packet_roundTrip (hS : S.Lawful) (hlen : S.AeadLength) (doNotEncrypt : Bool)
    {transmitter receiver : Option String} (hcorr : KeyfilesCorrespond S fs transmitter receiver)
    {e e₁ : Encryptor Bytes} (he : e.Reachable S fs transmitter) {key nonce : Bytes}
    (hmake : e.makeSessionKey S key nonce = .ok e₁) {d : Decryptor Bytes}
    (hd : d.Reachable S fs receiver) (hdr : WBDataHeader) (payload : Bytes)
    (hsize : L.size + payload.length + abytes ≤ vectorMaxSize) :
    ∃ out, e₁.makeEncryptedPacketIncludingHeader S L doNotEncrypt hdr payload = .ok out ∧
      out.length = L.size + payload.length + abytes ∧ L.bytes hdr <+: out ∧
      (d.onNewPacketWfbKey S e₁.sessionKeyPacket).1.decryptPacket S L doNotEncrypt hdr
        (out.drop L.size) (out.length - L.size).toUInt64 = .ok (some payload) := by
  obtain ⟨e₀, he₀, hsk, hpk⟩ := he.keys
  obtain ⟨d₀, hd₀, hrx, htx⟩ := hd.keys
  have hkeys : S.beforenm d.txPublickey d.rxSecretkey = S.beforenm e.rxPublickey e.txSecretkey := by
    rw [htx, hrx, hsk, hpk]
    exact beforenm_eq_of_correspond hS hcorr he₀ hd₀
  obtain ⟨data, hbox, rfl⟩ := Encryptor.makeSessionKey_eq_ok.mp hmake
  rw [Decryptor.onNewPacketWfbKey_of_open (S.boxOpenEasy_of_boxEasy hS hbox hkeys)]
  refine ⟨_, Encryptor.makeEncryptedPacketIncludingHeader_of_le hlen doNotEncrypt _ hdr hsize,
    ?_, List.prefix_append _ _, ?_⟩
  · cases doNotEncrypt <;>
      simp [L.length_bytes, Encryptor.aeadSeal, hlen.length_aeadEncrypt, Nat.add_assoc]
  · simp only [List.drop_left' (L.length_bytes hdr), List.length_append, L.length_bytes,
      Nat.add_sub_cancel_left]
    exact Decryptor.decryptPacket_of_sealed hS hlen doNotEncrypt rfl hdr hsize

end RoundTrip

/-- A default-key loopback: the key pair of the zero seed at both ends, a 3-byte payload. -/
theorem packet_roundTrip_loopback :
    ∃ e₁, (Encryptor.ofKeys Sodium.plain (List.replicate 32 0) (List.replicate 32 0)).makeSessionKey
        Sodium.plain (List.replicate 32 7) (List.replicate 24 0) = .ok e₁ ∧
      ∃ out, e₁.makeEncryptedPacketIncludingHeader Sodium.plain HeaderLayout.spec false ⟨5, 9⟩
          [1, 2, 3] = .ok out ∧ out.length = 11 + 3 + abytes ∧ HeaderLayout.spec.bytes ⟨5, 9⟩ <+: out ∧
        ((Decryptor.ofKeys Sodium.plain (List.replicate 32 0) (List.replicate 32 0)).onNewPacketWfbKey
          Sodium.plain e₁.sessionKeyPacket).1.decryptPacket Sodium.plain HeaderLayout.spec false
          ⟨5, 9⟩ (out.drop 11) (out.length - 11).toUInt64 = .ok (some [1, 2, 3]) :=
  ⟨_, rfl, packet_roundTrip Sodium.plain_lawful Sodium.plain_aeadLength false
    (Or.inl ⟨rfl, rfl⟩ : KeyfilesCorrespond Sodium.plain (fun _ => none) none none) (.create rfl) rfl
    (.create rfl) ⟨5, 9⟩ [1, 2, 3] (by decide)⟩

/-- The resize behind `makeEncryptedPacketIncludingHeader` throws on a payload whose packet would
not fit in a `std::vector`, in both builds. -/
theorem makeEncryptedPacketIncludingHeader_lengthError_of_lt (S : Sodium Bytes) (L : HeaderLayout)
    (doNotEncrypt : Bool) (e : Encryptor Bytes) (hdr : WBDataHeader) {payload : Bytes}
    (hsize : vectorMaxSize < (L.size + payload.length + abytes) % 2 ^ 64) :
    e.makeEncryptedPacketIncludingHeader S L doNotEncrypt hdr payload = .error .lengthError := by
  simp only [Encryptor.makeEncryptedPacketIncludingHeader, if_pos hsize]

/-! ## Frames shorter than the tag -/

/-- A frame shorter than the tag makes `decryptPacket` ask for a vector of
`encryptedPayloadSize - 16` bytes wrapped around `2^64`: a `std::length_error` in both builds,
from `resize` in the encrypting one and from the range constructor in the other. -/
theorem Decryptor.decryptPacket_of_lt_abytes (S : Sodium Bytes) (L : HeaderLayout)
    (d : Decryptor Bytes) (hdr : WBDataHeader) (buf : Bytes) {size : UInt64}
    (hsize : size.toNat < abytes) :
    decryptedLength size = 2 ^ 64 - abytes + size.toNat ∧
      ∀ doNotEncrypt, d.decryptPacket S L doNotEncrypt hdr buf size = .error .lengthError := by
  have hn : decryptedLength size = 2 ^ 64 - abytes + size.toNat := by
    have h16 : (UInt64.toBitVec (abytes.toUInt64)).toNat = abytes := rfl
    simp only [decryptedLength, UInt64.toNat, UInt64.sub_def, BitVec.toNat_sub, h16] at hsize ⊢
    simp only [abytes] at hsize ⊢
    omega
  have hmax : vectorMaxSize < decryptedLength size := by
    rw [hn]; simp only [vectorMaxSize, abytes]; omega
  exact ⟨hn, fun _ => by simp only [Decryptor.decryptPacket, if_pos hmax]⟩

/-- The empty frame: the length wraps to `2^64 - 16`. -/
theorem decryptPacket_empty_frame :
    decryptedLength 0 = 2 ^ 64 - 16 ∧
      ∀ doNotEncrypt, (Decryptor.ofKeys Sodium.plain [] []).decryptPacket Sodium.plain
        HeaderLayout.spec doNotEncrypt ⟨0, 0⟩ [] 0 = .error .lengthError :=
  Decryptor.decryptPacket_of_lt_abytes Sodium.plain HeaderLayout.spec
    (Decryptor.ofKeys Sodium.plain [] []) ⟨0, 0⟩ [] (by decide : (0 : UInt64).toNat < abytes)

end Wifibroadcast
