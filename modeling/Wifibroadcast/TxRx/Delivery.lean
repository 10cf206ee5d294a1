import Wifibroadcast.Transmitter.Counters

/-! # What the receiver hands to the FEC decoder

A receiver whose key file corresponds to the transmitter's is given the transmitter's frames in
the order they were injected, none lost, and treats each as its receive path does: a session-key
frame goes to `onNewPacketWfbKey`, a data frame to `decryptPacket` under the session key it holds.
Then every data frame opens, and what the receiver feeds to the FEC decoder is exactly the list of
fragments the encoder emitted for the accepted packets, in order. The constructor announces the
first key before any data, a rekey is announced before the first fragment sealed under the new
key, and an announcement repeated by the timer installs the key the receiver already holds.
-/

namespace Wifibroadcast

variable (S : Sodium Bytes) (L : HeaderLayout)

/-- Modelled from the spec: the receive path on one frame, "if `radio_port` indicates a session-key
frame, hand to" the session-key handler; "else attempt AEAD-open using current session key with
the header as AAD; on success, feed to the FEC decoder". The state is the `Decryptor` and what was
fed to the decoder so far. -/
def receiveFrame (st : Decryptor Bytes × List Bytes) (i : Injection) :
    Except Abort (Decryptor Bytes × List Bytes) :=
  match i.frame with
  | .sessionKey pkt _ => .ok ((st.1.onNewPacketWfbKey S pkt).1, st.2)
  | .data wbDataHeader encryptedData =>
      (st.1.decryptPacket S L false wbDataHeader encryptedData encryptedData.length.toUInt64).map
        fun payload => (st.1, st.2 ++ payload.toList)

/-- Modelled from the spec: the receive path over frames that arrive in order, none lost, from the
receiver `d`. -/
def receive (d : Decryptor Bytes) (frames : List Injection) :
    Except Abort (Decryptor Bytes × List Bytes) :=
  frames.foldlM (receiveFrame S L) (d, [])

/-- The payloads of the fragments the encoder emits during the accepted calls, in order. -/
def fragmentPayloads (K : TxConstants) (calls : List FeedCall) : List Bytes :=
  (calls.filter (·.accepted K)).flatMap fun c => c.encoder.fragments.map (·.2)

theorem fragmentPayloads_cons (K : TxConstants) (c : FeedCall) (calls : List FeedCall) :
    fragmentPayloads K (c :: calls) =
      (if c.accepted K then c.encoder.fragments.map (·.2) else []) ++ fragmentPayloads K calls := by
  cases h : c.accepted K <;> simp [fragmentPayloads, List.filter_cons, h]

variable {S L}

theorem receive_append_singleton {d₀ : Decryptor Bytes} {frames : List Injection}
    {st : Decryptor Bytes × List Bytes} (h : receive S L d₀ frames = .ok st) (i : Injection) :
    receive S L d₀ (frames ++ [i]) = receiveFrame S L st i := by
  unfold receive at h ⊢
  simp only [List.foldlM_append, h, List.foldlM_cons, List.foldlM_nil, bind_pure]
  rfl

section Frames

variable (hS : S.Lawful) (hlen : S.AeadLength)
include hS

/-- A genuine announcement installs the key it seals, whatever key the receiver held. -/
theorem receiveFrame_sessionKey {d : Decryptor Bytes} {out : List Bytes}
    {k pk sk : Bytes} {pkt : WBSessionKeyPacket Bytes}
    (hbox : S.boxEasy k pkt.sessionKeyNonce pk sk = some pkt.sessionKeyData)
    (hkeys : S.beforenm d.txPublickey d.rxSecretkey = S.beforenm pk sk)
    (port : UInt8) (seq : UInt16) (origin : Origin) (isFecEnabled : Bool) :
    receiveFrame S L (d, out) ⟨port, seq, origin, .sessionKey pkt isFecEnabled⟩ =
      .ok ({ d with sessionKey := k }, out) := by
  simp only [receiveFrame, Decryptor.onNewPacketWfbKey_of_open
    (S.boxOpenEasy_of_boxEasy hS hbox hkeys)]

include hlen

/-- A fragment sealed under the key the receiver holds is fed to the decoder. -/
theorem receiveFrame_data {d : Decryptor Bytes} {e : Encryptor Bytes} {out : List Bytes}
    (hkey : d.sessionKey = e.sessionKey) (wbDataHeader : WBDataHeader) {payload : Bytes}
    (hsize : L.size + payload.length + abytes ≤ vectorMaxSize)
    (port : UInt8) (seq : UInt16) (origin : Origin) :
    receiveFrame S L (d, out)
        ⟨port, seq, origin, .data wbDataHeader (e.encryptPacket S L payload wbDataHeader)⟩ =
      .ok (d, out ++ [payload]) := by
  have hopen : d.decryptPacket S L false wbDataHeader (e.encryptPacket S L payload wbDataHeader)
      (e.encryptPacket S L payload wbDataHeader).length.toUInt64 = .ok (some payload) :=
    Decryptor.decryptPacket_of_sealed hS hlen false hkey wbDataHeader hsize
  simp only [receiveFrame, hopen]
  rfl

end Frames

variable (S L) in
/-- What holds between calls: the receiver's long-term keys make the transmitter's box key, the
transmitter's packet seals its session key, and the receiver, run over the record from `d₀`, holds
that session key and has fed `out` to the decoder. -/
structure Delivered (d₀ : Decryptor Bytes) (tx : WBTransmitter) (out : List Bytes) : Prop where
  keys : S.beforenm d₀.txPublickey d₀.rxSecretkey =
    S.beforenm tx.encryptor.rxPublickey tx.encryptor.txSecretkey
  sealed : S.boxEasy tx.encryptor.sessionKey tx.sessionKeyPacket.sessionKeyNonce
    tx.encryptor.rxPublickey tx.encryptor.txSecretkey = some tx.sessionKeyPacket.sessionKeyData
  received : ∃ d, receive S L d₀ tx.injected = .ok (d, out) ∧ d.txPublickey = d₀.txPublickey ∧
    d.rxSecretkey = d₀.rxSecretkey ∧ d.sessionKey = tx.encryptor.sessionKey

namespace Delivered

open WBTransmitter

variable (hS : S.Lawful) (hlen : S.AeadLength) {K : TxConstants} {d₀ : Decryptor Bytes}
  {tx tx' : WBTransmitter} {out : List Bytes}
include hS

/-- An announcement establishes the invariant from everything but the receiver's session key. -/
theorem of_sendSessionKey (tx : WBTransmitter)
    (hkeys : S.beforenm d₀.txPublickey d₀.rxSecretkey =
      S.beforenm tx.encryptor.rxPublickey tx.encryptor.txSecretkey)
    (hsealed : S.boxEasy tx.encryptor.sessionKey tx.sessionKeyPacket.sessionKeyNonce
      tx.encryptor.rxPublickey tx.encryptor.txSecretkey = some tx.sessionKeyPacket.sessionKeyData)
    (hreceived : ∃ d, receive S L d₀ tx.injected = .ok (d, out) ∧
      d.txPublickey = d₀.txPublickey ∧ d.rxSecretkey = d₀.rxSecretkey) (origin : Origin) :
    Delivered S L d₀ (tx.sendSessionKey origin) out := by
  obtain ⟨d, hd, hpk, hsk⟩ := hreceived
  refine ⟨hkeys, hsealed, { d with sessionKey := tx.encryptor.sessionKey }, ?_, hpk, hsk, rfl⟩
  rw [sendSessionKey_injected, receive_append_singleton hd]
  exact receiveFrame_sessionKey hS hsealed (by rw [hpk, hsk, hkeys]) _ _ _ _

theorem sendSessionKey (h : Delivered S L d₀ tx out) (origin : Origin) :
    Delivered S L d₀ (tx.sendSessionKey origin) out :=
  let ⟨d, hd, hpk, hsk, _⟩ := h.received
  of_sendSessionKey hS tx h.keys h.sealed ⟨d, hd, hpk, hsk⟩ origin

theorem announceIfDue (h : Delivered S L d₀ tx out) (t : Nat) :
    Delivered S L d₀ (announceIfDue K t tx) out := by
  unfold WBTransmitter.announceIfDue
  split
  · have h' := h.sendSessionKey hS (.timer t)
    exact ⟨h'.keys, h'.sealed, h'.received⟩
  · exact h

/-- A rekey seals a key under the same key pair and announces it at once. -/
theorem rekeyOnOverflow (h : Delivered S L d₀ tx out) {t : Nat} {encoder : EncoderRun}
    {draw : Bytes × Bytes} (hr : rekeyOnOverflow S t encoder draw tx = .ok tx') :
    Delivered S L d₀ tx' out := by
  rcases rekeyOnOverflow_cases S hr with rfl | ⟨e, he, rfl⟩
  · exact h
  · obtain ⟨data, hbox, rfl⟩ := Encryptor.makeSessionKey_eq_ok.mp he
    obtain ⟨d, hd, hpk, hsk, -⟩ := h.received
    refine of_sendSessionKey hS _ ?_ ?_ ?_ _
    exacts [h.keys, hbox, ⟨d, hd, hpk, hsk⟩]

/-- The constructor's first announcement installs the key it draws, and the four repeats keep it. -/
theorem create {fs : String → Option Bytes} {options : TOptions} {receiver : Option String}
    (hcorr : KeyfilesCorrespond S fs options.keypair receiver)
    (hd₀ : Decryptor.create S fs receiver = .ok d₀) {draw : Bytes × Bytes} {tEnd : Nat}
    (hcreate : WBTransmitter.create S K fs options draw tEnd = .ok tx) :
    Delivered S L d₀ tx [] := by
  obtain ⟨e₀, e, he₀, hkey, rfl⟩ := create_eq_ok S K hcreate
  obtain ⟨data, hbox, rfl⟩ := Encryptor.makeSessionKey_eq_ok.mp hkey
  have hkeys := beforenm_eq_of_correspond hS hcorr he₀ hd₀
  have h₅ := Function.Iterate.rec (Delivered S L d₀ · []) (fun _ h => h.sendSessionKey hS .startup)
    (of_sendSessionKey hS (init K options (decide (options.fecK = .int 0))
      { e₀ with sessionKey := draw.1, sessionKeyPacket := ⟨draw.2, data⟩ } ⟨draw.2, data⟩)
      hkeys hbox ⟨d₀, rfl, rfl, rfl⟩ .startup) 4
  exact ⟨h₅.keys, h₅.sealed, h₅.received⟩

include hlen

theorem sendFecPrimaryOrSecondaryFragment (h : Delivered S L d₀ tx out) (t : Nat)
    (nonce : UInt64) {payload : Bytes} (hsize : L.size + payload.length + abytes ≤ vectorMaxSize) :
    Delivered S L d₀ (sendFecPrimaryOrSecondaryFragment S L t tx nonce payload)
      (out ++ [payload]) := by
  obtain ⟨d, hd, hpk, hsk, hkey⟩ := h.received
  refine ⟨h.keys, h.sealed, d, ?_, hpk, hsk, hkey⟩
  rw [sendFecPrimaryOrSecondaryFragment_injected, receive_append_singleton hd]
  exact receiveFrame_data hS hlen hkey _ hsize _ _ _

theorem sendFragments (t : Nat) :
    ∀ {tx : WBTransmitter} {out : List Bytes} (fragments : List (UInt64 × Bytes)),
      (∀ f ∈ fragments, L.size + f.2.length + abytes ≤ vectorMaxSize) →
      Delivered S L d₀ tx out →
      Delivered S L d₀ (sendFragments S L t tx fragments) (out ++ fragments.map (·.2))
  | _, _, [], _, h => by simpa using h
  | _, _, f :: fragments, hsize, h => by
      have h' := sendFragments t fragments (fun g hg => hsize g (.tail _ hg))
        (h.sendFecPrimaryOrSecondaryFragment hS hlen t f.1 (hsize f (.head _)))
      simpa using h'

/-- An accepted call feeds the decoder its fragments; a rejected one changes nothing. -/
theorem feedPacket (h : Delivered S L d₀ tx out) {c : FeedCall}
    (hsize : c.accepted K → ∀ f ∈ c.encoder.fragments, L.size + f.2.length + abytes ≤ vectorMaxSize)
    (hf : feedPacket S L K tx c = .ok tx') :
    Delivered S L d₀ tx' (out ++ if c.accepted K then c.encoder.fragments.map (·.2) else []) := by
  by_cases hc : c.buf.length = 0 ∨ K.fecMaxPayloadSize < c.buf.length
  · obtain rfl := Except.ok.inj ((feedPacket_rejected S L K tx hc).symm.trans hf)
    have hacc : c.accepted K = false := by
      simp only [FeedCall.accepted, decide_eq_true hc, Bool.not_true]
    simpa [hacc] using h
  · have hacc : c.accepted K = true := by
      simp only [FeedCall.accepted, decide_eq_false hc, Bool.not_false]
    obtain ⟨tx₁, hr, rfl⟩ := feedPacket_accepted S L K hc hf
    have h₀ : Delivered S L d₀
        { tx with countBytesDataProvided := tx.countBytesDataProvided + c.buf.length } out :=
      ⟨h.keys, h.sealed, h.received⟩
    have h₁ := (((h₀.announceIfDue hS c.time).sendFragments hS hlen c.time _
      (hsize hacc)).rekeyOnOverflow hS hr)
    rw [if_pos hacc]
    exact ⟨h₁.keys, h₁.sealed, h₁.received⟩

theorem run :
    ∀ {tx tx' : WBTransmitter} {out : List Bytes} (calls : List FeedCall),
      (∀ c ∈ calls, c.accepted K →
        ∀ f ∈ c.encoder.fragments, L.size + f.2.length + abytes ≤ vectorMaxSize) →
      Delivered S L d₀ tx out → WBTransmitter.run S L K tx calls = .ok tx' →
      Delivered S L d₀ tx' (out ++ fragmentPayloads K calls)
  | _, _, _, [], _, h, hrun => by
      obtain rfl := Except.ok.inj hrun
      simpa [fragmentPayloads] using h
  | _, _, _, c :: calls, hsize, h, hrun => by
      rw [run_cons] at hrun
      obtain ⟨tx₁, h₁, hrun⟩ := Except.bind_eq_ok.mp hrun
      have h' := run calls (fun c' hc' => hsize c' (.tail _ hc'))
        (h.feedPacket hS hlen (hsize c (.head _)) h₁) hrun
      simpa [fragmentPayloads_cons] using h'

end Delivered

/-- On a channel that loses and reorders nothing, a receiver whose key file corresponds to the
transmitter's gets through every frame of every run: every data frame opens, what it feeds the FEC
decoder is exactly the fragments the encoder emitted for the accepted packets, in order, and it
ends holding the transmitter's session key. -/
theorem receive_delivers_fragments (hS : S.Lawful) (hlen : S.AeadLength) (K : TxConstants)
    {fs : String → Option Bytes} {options : TOptions} {draw : Bytes × Bytes} {tEnd : Nat}
    {tx₀ : WBTransmitter} (hcreate : WBTransmitter.create S K fs options draw tEnd = .ok tx₀)
    {receiver : Option String} (hcorr : KeyfilesCorrespond S fs options.keypair receiver)
    {d₀ : Decryptor Bytes} (hd₀ : Decryptor.create S fs receiver = .ok d₀) (calls : List FeedCall)
    (hsize : ∀ c ∈ calls, c.accepted K →
      ∀ f ∈ c.encoder.fragments, L.size + f.2.length + abytes ≤ vectorMaxSize) :
    ∃ tx d, tx₀.run S L K calls = .ok tx ∧
      receive S L d₀ tx.injected = .ok (d, fragmentPayloads K calls) ∧
      d.sessionKey = tx.encryptor.sessionKey := by
  obtain ⟨tx, hrun, -⟩ := (KeyInv.create hcreate : KeyInv S L _ _ tx₀).run calls
  obtain ⟨-, -, d, hd, -, -, hkey⟩ :=
    (Delivered.create hS hcorr hd₀ hcreate).run hS hlen calls hsize hrun
  exact ⟨tx, d, hrun, hd, hkey⟩

/-- Default keys at both ends, FEC on, a first packet of two fragments after which the encoder
overflows, and an empty packet. -/
theorem receive_delivers_fragments_rekey :
    ∃ tx₀, WBTransmitter.create Sodium.plain ⟨1000, 1446, 0, 0⟩ (fun _ => none)
        ⟨0, none, .int 8⟩ ([1], [2]) 0 = .ok tx₀ ∧
      ∃ tx d, tx₀.run Sodium.plain HeaderLayout.spec ⟨1000, 1446, 0, 0⟩
          [⟨0, [5], ⟨[(0, [5]), (1, [6])], true⟩, ([3], [4])⟩, ⟨2000, [], ⟨[], false⟩, ([], [])⟩] =
          .ok tx ∧
        receive Sodium.plain HeaderLayout.spec
            (Decryptor.ofKeys Sodium.plain (List.replicate 32 0) (List.replicate 32 0))
            tx.injected =
          .ok (d, fragmentPayloads ⟨1000, 1446, 0, 0⟩
            [⟨0, [5], ⟨[(0, [5]), (1, [6])], true⟩, ([3], [4])⟩, ⟨2000, [], ⟨[], false⟩, ([], [])⟩]) ∧
        d.sessionKey = tx.encryptor.sessionKey :=
  ⟨_, rfl, receive_delivers_fragments Sodium.plain_lawful Sodium.plain_aeadLength
    ⟨1000, 1446, 0, 0⟩ (rfl : WBTransmitter.create Sodium.plain ⟨1000, 1446, 0, 0⟩ (fun _ => none)
      ⟨0, none, .int 8⟩ ([1], [2]) 0 = _) (Or.inl ⟨rfl, rfl⟩) rfl _ (by decide)⟩

end Wifibroadcast
