import Wifibroadcast.Crypto.Encryption
import Mathlib.Logic.Function.Iterate

/-! # WBTransmitter

`WBTransmitter.cpp`. The constructor draws the first session key and announces it five times;
each accepted `feedPacket` announces the key again when `session_key_announce_ts` has passed,
hands the packet to the FEC encoder, whose output callback seals and injects each fragment, and
rekeys when the encoder's nonces overflow. `WBTransmitter.h`, which declares the options, the
constants and the in-class initialisers, is not part of the sources: those values are parameters
(`TOptions`, `TxConstants`). The FEC encoders are not part of the sources either: what one
`encodePacket` call does is an argument of `feedPacket` (`EncoderRun`), so that every theorem
holds for every behaviour of the encoder. The `steady_clock` reading of a call is an argument as
well. `injected` records what `sendPacket` handed to the radio, and why.
-/

namespace Wifibroadcast

/-! ## Options and constants -/

/-- `TOptions::fec_k`, a `std::variant<int, std::string>`: a fixed `k` (`0` turns FEC off) or
the video codec whose frame ends close a block. -/
inductive FecK
  | int (k : Int)
  | string (s : String)
  deriving DecidableEq, Repr

/-- The fields of `TOptions` the modelled code reads. -/
structure TOptions where
  radioPort : UInt8
  keypair : Option String
  fecK : FecK

inductive FecVariableInputType
  | none
  | h264
  | h265
  deriving DecidableEq, Repr

/-- `convert(options)`: the codec of a variable `fec_k`; any other string fails its
`assert(false)`. -/
def convert (options : TOptions) : Except Abort FecVariableInputType :=
  match options.fecK with
  | .int _ => .ok .none
  | .string tmp =>
      if tmp = "h264" then .ok .h264 else if tmp = "h265" then .ok .h265 else .error .assertFailed

/-- The values `WBTransmitter.h` defines: the announcement period and the payload bound (in the
units the clock readings use), and the in-class initialisers of the two sequence counters. -/
structure TxConstants where
  sessionKeyAnnounceDelta : Nat
  fecMaxPayloadSize : Nat
  currSeqNrInit : UInt16
  ieee80211SeqInit : UInt16

/-! ## The calls `WBTransmitter` makes on its `Encryptor`

`WBTransmitter` calls `makeNewSessionKey` and `encryptPacket`, which the `Encryption.hpp` of the
sources does not define. -/

variable {α : Type} (S : Sodium α)

/-- Modelled from the spec: "generate a fresh 32-byte `session_key`; seal it with an
authenticated public-key box under the peer's public key and TX's secret key, with a fresh
24-byte nonce". `makeNewSessionKey(nonce, data)` draws as `makeSessionKey` does and writes the
nonce and the sealed key to its two arguments. -/
def Encryptor.makeNewSessionKey (e : Encryptor α) (key nonce : α) :
    Except Abort (Encryptor α × WBSessionKeyPacket α) :=
  (e.makeSessionKey S key nonce).map fun e' => (e', e'.sessionKeyPacket)

/-- Modelled from the spec: "attempt AEAD-open using current session key with the header as
AAD" is the receiving side. `encryptPacket(nonce, payload, payloadSize, wbDataHeader)` seals the
payload under the session key with the header as associated data and its nonce as public nonce,
as `makeEncryptedPacketIncludingHeader` does behind the header. -/
def Encryptor.encryptPacket (S : Sodium Bytes) (L : HeaderLayout) (e : Encryptor Bytes)
    (payload : Bytes) (wbDataHeader : WBDataHeader) : Bytes :=
  e.aeadSeal S (L.bytes wbDataHeader) (L.nonceBytes wbDataHeader) payload

theorem Encryptor.makeNewSessionKey_eq_ok {e e' : Encryptor α} {key nonce : α}
    {pkt : WBSessionKeyPacket α} :
    e.makeNewSessionKey S key nonce = .ok (e', pkt) ↔
      e.makeSessionKey S key nonce = .ok e' ∧ pkt = e'.sessionKeyPacket := by
  unfold Encryptor.makeNewSessionKey
  cases e.makeSessionKey S key nonce <;> simp [Except.map]
  rintro rfl
  exact eq_comm

/-! ## Frames and state -/

/-- A frame `sendPacket` hands to the radio: the session-key packet with its `IS_FEC_ENABLED`
flag, or a data header followed by the sealed fragment. -/
inductive TxFrame
  | sessionKey (pkt : WBSessionKeyPacket Bytes) (isFecEnabled : Bool)
  | data (wbDataHeader : WBDataHeader) (encryptedData : Bytes)

/-- Which code injected a frame: the constructor, the announcement timer, the rekey after an
overflow, or the FEC output callback, with the clock reading of the `feedPacket` call. -/
inductive Origin
  | startup
  | timer (t : Nat)
  | rekey (t : Nat)
  | fragment (t : Nat)
  deriving DecidableEq, Repr

/-- One injection: the 802.11 header's radio port and sequence number, the origin and the frame. -/
structure Injection where
  radioPort : UInt8
  ieee80211Seq : UInt16
  origin : Origin
  frame : TxFrame

structure WBTransmitter where
  radioPort : UInt8
  encryptor : Encryptor Bytes
  /-- The nonce and sealed key of `sessionKeyPacket`. -/
  sessionKeyPacket : WBSessionKeyPacket Bytes
  /-- `sessionKeyPacket.IS_FEC_ENABLED`. -/
  isFecEnabled : Bool
  /-- `IS_FEC_DISABLED`. -/
  isFecDisabled : Bool
  sessionKeyAnnounceTs : Nat
  currSeqNr : UInt16
  ieee80211Seq : UInt16
  nInjectedPackets : Nat
  nInjectedSessionKeypackets : Nat
  nInputPackets : Nat
  countBytesDataProvided : Nat
  /-- Every frame handed to the radio, oldest first. -/
  injected : List Injection

/-- What one `encodePacket` call of the FEC encoder does: the fragments it hands to
`outputDataCallback`, each a nonce and a payload, and what `resetOnOverflow()` then returns. -/
structure EncoderRun where
  fragments : List (UInt64 × Bytes)
  resetOnOverflow : Bool

/-- One `feedPacket(buf, size)` call: its `steady_clock` reading, the packet, what the encoder
does with it, and the two `randombytes_buf` draws a rekey would make. -/
structure FeedCall where
  time : Nat
  buf : Bytes
  encoder : EncoderRun
  draw : Bytes × Bytes

namespace WBTransmitter

variable (S : Sodium Bytes) (L : HeaderLayout) (K : TxConstants)

/-- `sendPacket`: the 802.11 header gets the radio port and the next sequence number. -/
def sendPacket (tx : WBTransmitter) (origin : Origin) (frame : TxFrame) : WBTransmitter :=
  { tx with
    ieee80211Seq := tx.ieee80211Seq + 16
    nInjectedPackets := tx.nInjectedPackets + 1
    injected := tx.injected ++ [⟨tx.radioPort, tx.ieee80211Seq, origin, frame⟩] }

/-- `sendFecPrimaryOrSecondaryFragment(nonce, payload, payloadSize)`, called back by the encoder
during the `feedPacket` call at time `t`. -/
def sendFecPrimaryOrSecondaryFragment (t : Nat) (tx : WBTransmitter) (nonce : UInt64)
    (payload : Bytes) : WBTransmitter :=
  let wbDataHeader : WBDataHeader := ⟨nonce, tx.currSeqNr⟩
  let tx := { tx with currSeqNr := tx.currSeqNr + 1 }
  tx.sendPacket (.fragment t) (.data wbDataHeader (tx.encryptor.encryptPacket S L payload wbDataHeader))

/-- `sendSessionKey()`. -/
def sendSessionKey (tx : WBTransmitter) (origin : Origin) : WBTransmitter :=
  { tx.sendPacket origin (.sessionKey tx.sessionKeyPacket tx.isFecEnabled) with
    nInjectedSessionKeypackets := tx.nInjectedSessionKeypackets + 1 }

/-- `mEncryptor.makeNewSessionKey(sessionKeyPacket.sessionKeyNonce, sessionKeyPacket.sessionKeyData)`. -/
def makeNewSessionKey (tx : WBTransmitter) (key nonce : Bytes) : Except Abort WBTransmitter :=
  match tx.encryptor.makeNewSessionKey S key nonce with
  | .ok (encryptor, sessionKeyPacket) => .ok { tx with encryptor, sessionKeyPacket }
  | .error e => .error e

/-- The timer branch of `feedPacket`: announce and move the deadline once it has passed. -/
def announceIfDue (t : Nat) (tx : WBTransmitter) : WBTransmitter :=
  if tx.sessionKeyAnnounceTs ≤ t then
    { tx.sendSessionKey (.timer t) with sessionKeyAnnounceTs := t + K.sessionKeyAnnounceDelta }
  else tx

/-- The fragments the encoder emits during the call at time `t`, each through the callback. -/
def sendFragments (t : Nat) (tx : WBTransmitter) (fragments : List (UInt64 × Bytes)) :
    WBTransmitter :=
  fragments.foldl (fun tx f => sendFecPrimaryOrSecondaryFragment S L t tx f.1 f.2) tx

/-- The overflow branch of `feedPacket`: with FEC on and the encoder's nonces exhausted, draw a new
session key and announce it. -/
def rekeyOnOverflow (t : Nat) (encoder : EncoderRun) (draw : Bytes × Bytes) (tx : WBTransmitter) :
    Except Abort WBTransmitter :=
  if !tx.isFecDisabled && encoder.resetOnOverflow then
    match makeNewSessionKey S tx draw.1 draw.2 with
    | .ok tx => .ok (tx.sendSessionKey (.rekey t))
    | .error e => .error e
  else .ok tx

/-- `feedPacket(buf, size)`. -/
def feedPacket (tx : WBTransmitter) (c : FeedCall) : Except Abort WBTransmitter :=
  if c.buf.length = 0 ∨ K.fecMaxPayloadSize < c.buf.length then .ok tx
  else
    let tx := { tx with countBytesDataProvided := tx.countBytesDataProvided + c.buf.length }
    let tx := sendFragments S L c.time (announceIfDue K c.time tx) c.encoder.fragments
    (rekeyOnOverflow S c.time c.encoder c.draw tx).map fun tx =>
      { tx with nInputPackets := tx.nInputPackets + 1 }

/-- The state after the constructor's `makeNewSessionKey`: nothing injected yet. -/
def init (options : TOptions) (isFecDisabled : Bool) (encryptor : Encryptor Bytes)
    (sessionKeyPacket : WBSessionKeyPacket Bytes) : WBTransmitter where
  radioPort := options.radioPort
  encryptor := encryptor
  sessionKeyPacket := sessionKeyPacket
  isFecEnabled := !isFecDisabled
  isFecDisabled := isFecDisabled
  sessionKeyAnnounceTs := 0
  currSeqNr := K.currSeqNrInit
  ieee80211Seq := K.ieee80211SeqInit
  nInjectedPackets := 0
  nInjectedSessionKeypackets := 0
  nInputPackets := 0
  countBytesDataProvided := 0
  injected := []

/-- The constructor, with `fs` the key files, `draw` the first key's `randombytes_buf` draws and
`tEnd` the clock reading that sets the first deadline. -/
def create (fs : String → Option Bytes) (options : TOptions) (draw : Bytes × Bytes) (tEnd : Nat) :
    Except Abort WBTransmitter := do
  let encryptor ← Encryptor.create S fs options.keypair
  let isFecDisabled := decide (options.fecK = .int 0)
  let _ ← convert options
  let (encryptor, sessionKeyPacket) ← encryptor.makeNewSessionKey S draw.1 draw.2
  let tx := init K options isFecDisabled encryptor sessionKeyPacket
  let tx := (fun tx => sendSessionKey tx .startup)^[5] tx
  pure { tx with sessionKeyAnnounceTs := tEnd + K.sessionKeyAnnounceDelta }

/-- A sequence of `feedPacket` calls; the first exception ends the run. -/
def run (tx : WBTransmitter) : List FeedCall → Except Abort WBTransmitter
  | [] => .ok tx
  | c :: calls =>
      match feedPacket S L K tx c with
      | .ok tx => run tx calls
      | .error e => .error e

/-! ## What each call does to the record -/

@[simp] theorem sendPacket_injected (tx : WBTransmitter) (origin : Origin) (frame : TxFrame) :
    (tx.sendPacket origin frame).injected =
      tx.injected ++ [⟨tx.radioPort, tx.ieee80211Seq, origin, frame⟩] := rfl

@[simp] theorem sendSessionKey_injected (tx : WBTransmitter) (origin : Origin) :
    (tx.sendSessionKey origin).injected = tx.injected ++
      [⟨tx.radioPort, tx.ieee80211Seq, origin, .sessionKey tx.sessionKeyPacket tx.isFecEnabled⟩] :=
  rfl

@[simp] theorem sendSessionKey_encryptor (tx : WBTransmitter) (origin : Origin) :
    (tx.sendSessionKey origin).encryptor = tx.encryptor := rfl

@[simp] theorem sendSessionKey_sessionKeyPacket (tx : WBTransmitter) (origin : Origin) :
    (tx.sendSessionKey origin).sessionKeyPacket = tx.sessionKeyPacket := rfl

@[simp] theorem sendSessionKey_sessionKeyAnnounceTs (tx : WBTransmitter) (origin : Origin) :
    (tx.sendSessionKey origin).sessionKeyAnnounceTs = tx.sessionKeyAnnounceTs := rfl

@[simp] theorem sendFecPrimaryOrSecondaryFragment_encryptor (t : Nat) (tx : WBTransmitter)
    (nonce : UInt64) (payload : Bytes) :
    (sendFecPrimaryOrSecondaryFragment S L t tx nonce payload).encryptor = tx.encryptor := rfl

@[simp] theorem sendFecPrimaryOrSecondaryFragment_sessionKeyPacket (t : Nat) (tx : WBTransmitter)
    (nonce : UInt64) (payload : Bytes) :
    (sendFecPrimaryOrSecondaryFragment S L t tx nonce payload).sessionKeyPacket =
      tx.sessionKeyPacket := rfl

@[simp] theorem sendFecPrimaryOrSecondaryFragment_sessionKeyAnnounceTs (t : Nat)
    (tx : WBTransmitter) (nonce : UInt64) (payload : Bytes) :
    (sendFecPrimaryOrSecondaryFragment S L t tx nonce payload).sessionKeyAnnounceTs =
      tx.sessionKeyAnnounceTs := rfl

@[simp] theorem sendFecPrimaryOrSecondaryFragment_injected (t : Nat) (tx : WBTransmitter)
    (nonce : UInt64) (payload : Bytes) :
    (sendFecPrimaryOrSecondaryFragment S L t tx nonce payload).injected = tx.injected ++
      [⟨tx.radioPort, tx.ieee80211Seq, .fragment t, .data ⟨nonce, tx.currSeqNr⟩
        (tx.encryptor.encryptPacket S L payload ⟨nonce, tx.currSeqNr⟩)⟩] := rfl

theorem rekeyOnOverflow_of_not {t : Nat} {encoder : EncoderRun} {draw : Bytes × Bytes}
    {tx : WBTransmitter} (h : (!tx.isFecDisabled && encoder.resetOnOverflow) = false) :
    rekeyOnOverflow S t encoder draw tx = .ok tx := by
  simp [rekeyOnOverflow, h]

theorem makeNewSessionKey_eq_ok {tx tx' : WBTransmitter} {key nonce : Bytes} :
    tx.makeNewSessionKey S key nonce = .ok tx' ↔
      ∃ e, tx.encryptor.makeSessionKey S key nonce = .ok e ∧
        tx' = { tx with encryptor := e, sessionKeyPacket := e.sessionKeyPacket } := by
  unfold makeNewSessionKey Encryptor.makeNewSessionKey
  cases tx.encryptor.makeSessionKey S key nonce <;> simp [Except.map, eq_comm]

/-- The overflow branch either leaves the state alone or draws a key and announces it. -/
theorem rekeyOnOverflow_cases {t : Nat} {encoder : EncoderRun} {draw : Bytes × Bytes}
    {tx tx' : WBTransmitter} (h : rekeyOnOverflow S t encoder draw tx = .ok tx') :
    tx' = tx ∨ ∃ e, tx.encryptor.makeSessionKey S draw.1 draw.2 = .ok e ∧
      tx' = ({ tx with encryptor := e, sessionKeyPacket := e.sessionKeyPacket } : WBTransmitter).sendSessionKey
        (.rekey t) := by
  unfold rekeyOnOverflow at h
  split at h
  · split at h
    · next tx₁ hkey =>
        cases h
        obtain ⟨e, he, rfl⟩ := (makeNewSessionKey_eq_ok S).mp hkey
        exact .inr ⟨e, he, rfl⟩
    · cases h
  · exact .inl (Except.ok.inj h).symm

/-- An accepted call: the byte count, the timer, the fragments, the overflow branch and the input
count, in this order. -/
theorem feedPacket_accepted {tx tx' : WBTransmitter} {c : FeedCall}
    (hc : ¬ (c.buf.length = 0 ∨ K.fecMaxPayloadSize < c.buf.length))
    (h : feedPacket S L K tx c = .ok tx') :
    ∃ tx₁, rekeyOnOverflow S c.time c.encoder c.draw (sendFragments S L c.time
        (announceIfDue K c.time
          { tx with countBytesDataProvided := tx.countBytesDataProvided + c.buf.length })
        c.encoder.fragments) = .ok tx₁ ∧ tx' = { tx₁ with nInputPackets := tx₁.nInputPackets + 1 } := by
  rw [feedPacket, if_neg hc] at h
  dsimp only at h
  cases hr : rekeyOnOverflow S c.time c.encoder c.draw _ with
  | error => rw [hr] at h; cases h
  | ok tx₁ => rw [hr] at h; exact ⟨tx₁, rfl, (Except.ok.inj h).symm⟩

/-- A rejected call changes nothing. -/
theorem feedPacket_rejected (tx : WBTransmitter) {c : FeedCall}
    (h : c.buf.length = 0 ∨ K.fecMaxPayloadSize < c.buf.length) : feedPacket S L K tx c = .ok tx :=
  if_pos h

/-- What the constructor does when it returns. -/
theorem create_eq_ok {fs : String → Option Bytes} {options : TOptions} {draw : Bytes × Bytes}
    {tEnd : Nat} {tx₀ : WBTransmitter} (h : create S K fs options draw tEnd = .ok tx₀) :
    ∃ e₀ e, Encryptor.create S fs options.keypair = .ok e₀ ∧
      e₀.makeSessionKey S draw.1 draw.2 = .ok e ∧
      tx₀ = { (fun tx => sendSessionKey tx .startup)^[5]
          (init K options (decide (options.fecK = .int 0)) e e.sessionKeyPacket) with
        sessionKeyAnnounceTs := tEnd + K.sessionKeyAnnounceDelta } := by
  simp only [create, Except.bind_eq_ok] at h
  obtain ⟨e₀, he₀, _, -, ⟨e, pkt⟩, hmake, h⟩ := h
  obtain ⟨hkey, rfl⟩ := (Encryptor.makeNewSessionKey_eq_ok S).mp hmake
  exact ⟨e₀, e, he₀, hkey, (Except.ok.inj h).symm⟩

theorem run_cons (tx : WBTransmitter) (c : FeedCall) (calls : List FeedCall) :
    run S L K tx (c :: calls) = (feedPacket S L K tx c).bind fun tx => run S L K tx calls := by
  simp only [run]
  split <;> simp_all [Except.bind]

/-! ## What each call adds to the record -/

/-- `tx'` is `tx` with entries satisfying `P` added to the record, and the deadline unchanged. -/
def Appends (P : Injection → Prop) (tx tx' : WBTransmitter) : Prop :=
  tx'.sessionKeyAnnounceTs = tx.sessionKeyAnnounceTs ∧
    ∃ new, tx'.injected = tx.injected ++ new ∧ ∀ i ∈ new, P i

theorem Appends.refl (P : Injection → Prop) (tx : WBTransmitter) : Appends P tx tx :=
  ⟨rfl, [], by simp, by simp⟩

theorem Appends.trans {P : Injection → Prop} {tx₁ tx₂ tx₃ : WBTransmitter}
    (h₁ : Appends P tx₁ tx₂) (h₂ : Appends P tx₂ tx₃) : Appends P tx₁ tx₃ := by
  obtain ⟨hts₁, new₁, hi₁, hP₁⟩ := h₁
  obtain ⟨hts₂, new₂, hi₂, hP₂⟩ := h₂
  refine ⟨hts₂.trans hts₁, new₁ ++ new₂, by simp [hi₁, hi₂], fun i hi => ?_⟩
  rcases List.mem_append.mp hi with hi | hi
  · exact hP₁ i hi
  · exact hP₂ i hi

theorem Appends.mono {P Q : Injection → Prop} {tx tx' : WBTransmitter} (h : Appends P tx tx')
    (hPQ : ∀ i, P i → Q i) : Appends Q tx tx' :=
  let ⟨hts, new, hi, hP⟩ := h
  ⟨hts, new, hi, fun i hin => hPQ i (hP i hin)⟩

theorem appends_sendSessionKey (tx : WBTransmitter) (origin : Origin) :
    Appends (·.origin = origin) tx (tx.sendSessionKey origin) :=
  ⟨rfl, _, rfl, by simp⟩

theorem appends_sendFragments (t : Nat) :
    ∀ (tx : WBTransmitter) (fragments : List (UInt64 × Bytes)),
      Appends (·.origin = .fragment t) tx (sendFragments S L t tx fragments)
  | tx, [] => Appends.refl _ tx
  | tx, f :: fragments =>
      (show Appends _ tx (sendFecPrimaryOrSecondaryFragment S L t tx f.1 f.2) from
        ⟨rfl, _, rfl, by simp⟩).trans (appends_sendFragments t _ fragments)

theorem appends_rekeyOnOverflow {t : Nat} {encoder : EncoderRun} {draw : Bytes × Bytes}
    {tx tx' : WBTransmitter} (h : rekeyOnOverflow S t encoder draw tx = .ok tx') :
    Appends (·.origin = .rekey t) tx tx' := by
  rcases rekeyOnOverflow_cases S h with rfl | ⟨e, -, rfl⟩
  · exact Appends.refl _ _
  · exact appends_sendSessionKey _ _

/-- The timer branch does not read the byte counter. -/
theorem announceIfDue_countBytesDataProvided (t n : Nat) (tx : WBTransmitter) :
    Appends (fun _ => False) (announceIfDue K t tx)
      (announceIfDue K t { tx with countBytesDataProvided := n }) := by
  unfold announceIfDue
  by_cases h : tx.sessionKeyAnnounceTs ≤ t <;> simp only [h, if_true, if_false] <;>
    exact ⟨rfl, [], by simp, by simp⟩

/-- An accepted call adds the timer's announcement, if due, then the fragments and the rekey's
announcement, and moves the deadline only in the timer branch. -/
theorem appends_feedPacket {tx tx' : WBTransmitter} {c : FeedCall}
    (h : feedPacket S L K tx c = .ok tx')
    (hc : ¬ (c.buf.length = 0 ∨ K.fecMaxPayloadSize < c.buf.length)) :
    Appends (fun i => i.origin = .fragment c.time ∨ i.origin = .rekey c.time)
      (announceIfDue K c.time tx) tx' := by
  obtain ⟨tx₁, hr, rfl⟩ := feedPacket_accepted S L K hc h
  exact ((announceIfDue_countBytesDataProvided K c.time _ tx).mono fun _ h => h.elim).trans
    (((appends_sendFragments S L c.time _ _).mono fun _ => .inl).trans
      (((appends_rekeyOnOverflow S hr).mono fun _ => .inr).trans ⟨rfl, [], by simp, by simp⟩))

end WBTransmitter

/-- A property of each entry of a record, given what came before it, holds of the record with
one more entry when it holds of the record and of the new entry. -/
theorem forall_split_append_singleton {β : Type} {P : List β → β → Prop} {l : List β} {y : β} :
    (∀ pre x post, l ++ [y] = pre ++ x :: post → P pre x) ↔
      (∀ pre x post, l = pre ++ x :: post → P pre x) ∧ P l y := by
  refine ⟨fun h => ⟨fun pre x post e => h pre x (post ++ [y]) (by simp [e]), h l y [] rfl⟩, ?_⟩
  rintro ⟨h, hy⟩ pre x post e
  rcases List.eq_nil_or_concat post with rfl | ⟨post, z, rfl⟩
  · obtain ⟨rfl, hxy⟩ := List.append_inj' e rfl
    cases hxy
    exact hy
  · rw [List.concat_eq_append, ← List.cons_append, ← List.append_assoc] at e
    exact h pre x post (List.append_inj' e rfl).1

end Wifibroadcast
