import Wifibroadcast.Transmitter.Model
import Wifibroadcast.Crypto.RoundTrip

/-! # Every data frame is under the key announced last

The transmitter changes its session key only in `makeNewSessionKey`, which rewrites
`sessionKeyPacket` with it, and `feedPacket` sends the new packet right after; the constructor
announces the first key before any data. So between calls the packet injected last seals the
current key, and every data frame is sealed under the key of the session-key packet injected last
before it, whatever the encoder emits and whenever it overflows. The rekey cannot fail either:
whether a box can be made depends on the key pair only, and the constructor made one.
-/

namespace Wifibroadcast

/-- The session-key packet a frame announces. -/
def Injection.announces (i : Injection) : Option (WBSessionKeyPacket Bytes) :=
  match i.frame with
  | .sessionKey pkt _ => some pkt
  | .data .. => none

/-- The session-key packet injected last in `log`. -/
def lastSessionKey (log : List Injection) : Option (WBSessionKeyPacket Bytes) :=
  (log.filterMap Injection.announces).getLast?

@[simp] theorem lastSessionKey_append (log : List Injection) (i : Injection) :
    lastSessionKey (log ++ [i]) = i.announces.or (lastSessionKey log) := by
  cases h : i.announces <;> simp [lastSessionKey, h]

variable (S : Sodium Bytes) (L : HeaderLayout) (K : TxConstants)

/-- A data frame injected after `pre` is sealed under a key that the session-key packet injected
last in `pre` boxes from `sk` to `pk`. -/
def SealedAfter (pk sk : Bytes) (pre : List Injection) (i : Injection) : Prop :=
  ∀ wbDataHeader c, i.frame = .data wbDataHeader c →
    ∃ pkt, lastSessionKey pre = some pkt ∧ ∃ k payload,
      S.boxEasy k pkt.sessionKeyNonce pk sk = some pkt.sessionKeyData ∧
      c = S.aeadEncrypt payload (L.bytes wbDataHeader) (L.nonceBytes wbDataHeader) k

/-- Every data frame of `log` is sealed under the key of the session-key packet injected last
before it; in particular a session-key packet precedes the first data frame. -/
def KeyedLog (pk sk : Bytes) (log : List Injection) : Prop :=
  ∀ pre i post, log = pre ++ i :: post → SealedAfter S L pk sk pre i

theorem keyedLog_append {pk sk : Bytes} {log : List Injection} {i : Injection} :
    KeyedLog S L pk sk (log ++ [i]) ↔ KeyedLog S L pk sk log ∧ SealedAfter S L pk sk log i :=
  forall_split_append_singleton

/-- What holds between calls: the key pair is `pk`, `sk`; the packet seals the current session key
and is the one injected last; and the record is keyed. -/
structure KeyInv (pk sk : Bytes) (tx : WBTransmitter) : Prop where
  rxPublickey : tx.encryptor.rxPublickey = pk
  txSecretkey : tx.encryptor.txSecretkey = sk
  sealed : S.boxEasy tx.encryptor.sessionKey tx.sessionKeyPacket.sessionKeyNonce pk sk =
    some tx.sessionKeyPacket.sessionKeyData
  announced : lastSessionKey tx.injected = some tx.sessionKeyPacket
  keyed : KeyedLog S L pk sk tx.injected

namespace KeyInv

open WBTransmitter

variable {S L K} {pk sk : Bytes}

/-- The invariant reads the encryptor, the packet and the record only. -/
theorem congr {tx tx' : WBTransmitter} (h : KeyInv S L pk sk tx)
    (he : tx'.encryptor = tx.encryptor) (hp : tx'.sessionKeyPacket = tx.sessionKeyPacket)
    (hi : tx'.injected = tx.injected) : KeyInv S L pk sk tx' := by
  obtain ⟨h1, h2, h3, h4, h5⟩ := h
  exact ⟨he ▸ h1, he ▸ h2, he ▸ hp ▸ h3, hi ▸ hp ▸ h4, hi ▸ h5⟩

/-- `sendSessionKey` establishes the invariant from everything but `announced`. -/
theorem keyInv_sendSessionKey {tx : WBTransmitter} (origin : Origin)
    (hpk : tx.encryptor.rxPublickey = pk) (hsk : tx.encryptor.txSecretkey = sk)
    (hsealed : S.boxEasy tx.encryptor.sessionKey tx.sessionKeyPacket.sessionKeyNonce pk sk =
      some tx.sessionKeyPacket.sessionKeyData)
    (hkeyed : KeyedLog S L pk sk tx.injected) : KeyInv S L pk sk (tx.sendSessionKey origin) where
  rxPublickey := hpk
  txSecretkey := hsk
  sealed := hsealed
  announced := by simp [Injection.announces]
  keyed := (keyedLog_append S L).mpr ⟨hkeyed, fun _ _ h => nomatch h⟩

theorem sendSessionKey {tx : WBTransmitter} (h : KeyInv S L pk sk tx) (origin : Origin) :
    KeyInv S L pk sk (tx.sendSessionKey origin) :=
  keyInv_sendSessionKey origin h.rxPublickey h.txSecretkey h.sealed h.keyed

theorem sendFecPrimaryOrSecondaryFragment {tx : WBTransmitter} (h : KeyInv S L pk sk tx)
    (t : Nat) (nonce : UInt64) (payload : Bytes) :
    KeyInv S L pk sk (sendFecPrimaryOrSecondaryFragment S L t tx nonce payload) where
  rxPublickey := h.rxPublickey
  txSecretkey := h.txSecretkey
  sealed := h.sealed
  announced := by simpa [sendFecPrimaryOrSecondaryFragment, Injection.announces] using h.announced
  keyed := by
    refine (keyedLog_append S L).mpr ⟨h.keyed, ?_⟩
    rintro _ _ ⟨⟩
    exact ⟨_, h.announced, _, payload, h.sealed, rfl⟩

theorem sendFragments {t : Nat} :
    ∀ {tx : WBTransmitter} (fragments : List (UInt64 × Bytes)), KeyInv S L pk sk tx →
      KeyInv S L pk sk (sendFragments S L t tx fragments)
  | _, [], h => h
  | _, f :: fragments, h =>
      sendFragments fragments (h.sendFecPrimaryOrSecondaryFragment t f.1 f.2)

theorem announceIfDue {tx : WBTransmitter} (h : KeyInv S L pk sk tx) (t : Nat) :
    KeyInv S L pk sk (announceIfDue K t tx) := by
  unfold WBTransmitter.announceIfDue
  split
  · exact (h.sendSessionKey _).congr rfl rfl rfl
  · exact h

/-- The rekey succeeds, and the invariant holds once the new packet is sent. -/
theorem makeNewSessionKey {tx : WBTransmitter} (h : KeyInv S L pk sk tx)
    (key nonce : Bytes) (origin : Origin) :
    ∃ tx', makeNewSessionKey S tx key nonce = .ok tx' ∧
      KeyInv S L pk sk (tx'.sendSessionKey origin) := by
  have hsome : (S.boxEasy key nonce pk sk).isSome :=
    S.boxEasy_isSome (by rw [h.sealed]; rfl)
  obtain ⟨data, hdata⟩ := Option.isSome_iff_exists.mp hsome
  rw [← h.rxPublickey, ← h.txSecretkey] at hdata
  refine ⟨_, (makeNewSessionKey_eq_ok S).mpr
    ⟨_, Encryptor.makeSessionKey_eq_ok.mpr ⟨data, hdata, rfl⟩, rfl⟩, ?_⟩
  rw [h.rxPublickey, h.txSecretkey] at hdata
  exact keyInv_sendSessionKey origin h.rxPublickey h.txSecretkey hdata h.keyed

theorem rekeyOnOverflow {tx : WBTransmitter} (h : KeyInv S L pk sk tx) (t : Nat)
    (encoder : EncoderRun) (draw : Bytes × Bytes) :
    ∃ tx', rekeyOnOverflow S t encoder draw tx = .ok tx' ∧ KeyInv S L pk sk tx' := by
  unfold WBTransmitter.rekeyOnOverflow
  split
  · obtain ⟨tx', htx', h'⟩ := h.makeNewSessionKey draw.1 draw.2 (.rekey t)
    rw [htx']
    exact ⟨_, rfl, h'⟩
  · exact ⟨tx, rfl, h⟩

/-- Every call returns, and keeps the invariant. -/
theorem feedPacket {tx : WBTransmitter} (h : KeyInv S L pk sk tx) (c : FeedCall) :
    ∃ tx', feedPacket S L K tx c = .ok tx' ∧ KeyInv S L pk sk tx' := by
  unfold WBTransmitter.feedPacket
  split
  · exact ⟨tx, rfl, h⟩
  · have hmid : KeyInv S L pk sk (WBTransmitter.sendFragments S L c.time
        (WBTransmitter.announceIfDue K c.time
          { tx with countBytesDataProvided := tx.countBytesDataProvided + c.buf.length })
        c.encoder.fragments) := by
      have h₀ : KeyInv S L pk sk
          { tx with countBytesDataProvided := tx.countBytesDataProvided + c.buf.length } :=
        h.congr rfl rfl rfl
      exact (h₀.announceIfDue c.time).sendFragments _
    obtain ⟨tx', htx', h'⟩ := hmid.rekeyOnOverflow c.time c.encoder c.draw
    exact ⟨{ tx' with nInputPackets := tx'.nInputPackets + 1 }, by dsimp only; rw [htx']; rfl,
      h'.congr rfl rfl rfl⟩

theorem run {tx : WBTransmitter} (h : KeyInv S L pk sk tx) :
    ∀ calls : List FeedCall, ∃ tx', run S L K tx calls = .ok tx' ∧ KeyInv S L pk sk tx'
  | [] => ⟨tx, rfl, h⟩
  | c :: calls => by
      obtain ⟨tx₁, h₁, hinv⟩ := h.feedPacket (K := K) c
      rw [run_cons, h₁]
      exact run hinv calls

theorem iterate_sendSessionKey {tx : WBTransmitter} (h : KeyInv S L pk sk tx) :
    ∀ n, KeyInv S L pk sk ((fun tx => tx.sendSessionKey .startup)^[n] tx)
  | 0 => h
  | n + 1 => by
      rw [Function.iterate_succ_apply']
      exact (iterate_sendSessionKey h n).sendSessionKey _

/-- The constructor announces the key it draws before anything else. -/
theorem create {fs : String → Option Bytes} {options : TOptions} {draw : Bytes × Bytes}
    {tEnd : Nat} {tx₀ : WBTransmitter} (h : create S K fs options draw tEnd = .ok tx₀) :
    KeyInv S L tx₀.encryptor.rxPublickey tx₀.encryptor.txSecretkey tx₀ := by
  obtain ⟨e₀, e, -, hkey, rfl⟩ := create_eq_ok S K h
  obtain ⟨data, hdata, rfl⟩ := Encryptor.makeSessionKey_eq_ok.mp hkey
  have h₁ : KeyInv S L e₀.rxPublickey e₀.txSecretkey
      ((init K options (decide (options.fecK = .int 0))
        { e₀ with sessionKey := draw.1, sessionKeyPacket := ⟨draw.2, data⟩ }
        ⟨draw.2, data⟩).sendSessionKey .startup) :=
    keyInv_sendSessionKey .startup rfl rfl hdata (fun _ _ _ h => by simp [init] at h)
  exact (iterate_sendSessionKey h₁ 4).congr rfl rfl rfl

end KeyInv

/-- Every run of the transmitter returns, and in it every data frame is sealed under the key of
the session-key packet injected last before it, whatever the encoder emits and whenever its nonces
overflow. -/
theorem data_sealed_under_announced_key {fs : String → Option Bytes} {options : TOptions}
    {draw : Bytes × Bytes} {tEnd : Nat} {tx₀ : WBTransmitter}
    (hcreate : WBTransmitter.create S K fs options draw tEnd = .ok tx₀) (calls : List FeedCall) :
    ∃ tx, tx₀.run S L K calls = .ok tx ∧
      KeyedLog S L tx₀.encryptor.rxPublickey tx₀.encryptor.txSecretkey tx.injected := by
  obtain ⟨tx, hrun, h⟩ := (KeyInv.create hcreate : KeyInv S L _ _ tx₀).run calls
  exact ⟨tx, hrun, h.keyed⟩

/-- A transmitter with FEC on fed two packets; the encoder overflows after the first. -/
theorem data_sealed_under_announced_key_rekey :
    ∃ tx₀, WBTransmitter.create Sodium.plain ⟨1000, 1446, 0, 0⟩ (fun _ => none)
        ⟨0, none, .int 8⟩ ([1], [2]) 0 = .ok tx₀ ∧
      ∃ tx, tx₀.run Sodium.plain HeaderLayout.spec ⟨1000, 1446, 0, 0⟩
          [⟨0, [5], ⟨[(0, [5]), (1, [6])], true⟩, ([3], [4])⟩,
            ⟨2000, [7], ⟨[(2, [7])], false⟩, ([], [])⟩] = .ok tx ∧
        KeyedLog Sodium.plain HeaderLayout.spec tx₀.encryptor.rxPublickey
          tx₀.encryptor.txSecretkey tx.injected :=
  ⟨_, rfl, data_sealed_under_announced_key Sodium.plain HeaderLayout.spec ⟨1000, 1446, 0, 0⟩
    (rfl : WBTransmitter.create Sodium.plain ⟨1000, 1446, 0, 0⟩ (fun _ => none) ⟨0, none, .int 8⟩
      ([1], [2]) 0 = _) _⟩

end Wifibroadcast
