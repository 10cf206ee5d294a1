import Wifibroadcast.Transmitter.Keys
import Mathlib

/-! # Counters and sequence numbers of WBTransmitter

`sendPacket` writes `ieee80211_seq` into the 802.11 header of each frame and adds 16 to it, and
`sendFecPrimaryOrSecondaryFragment` writes `m_curr_seq_nr` into each `WBDataHeader` and adds 1.
`createDebugState` reports `nInputPackets`, `nInjectedSessionKeypackets` and, as the number of data
frames, `nInjectedPackets - nInjectedSessionKeypackets`. Over every run these agree with the
record of injected frames: frame `k` carries the first 802.11 number plus `16 * k`, data frame `k`
the first data sequence number plus `k`, both modulo `2^16`, and every frame the radio port of the
options.
-/

namespace Wifibroadcast

/-- Whether a frame announces the session key. -/
def Injection.isSessionKey (i : Injection) : Bool :=
  match i.frame with
  | .sessionKey .. => true
  | .data .. => false

/-- The `WBDataHeader` sequence number of a data frame. -/
def Injection.sequenceNumber (i : Injection) : Option UInt16 :=
  match i.frame with
  | .sessionKey .. => none
  | .data wbDataHeader _ => some wbDataHeader.sequenceNumber

/-- `n` numbers from `init`, each `step` more than the one before, modulo `2^16`. -/
def numbering (step init : UInt16) (n : Nat) : List UInt16 :=
  (List.range n).map fun k => (· + step)^[k] init

theorem numbering_succ (step init : UInt16) (n : Nat) :
    numbering step init (n + 1) = numbering step init n ++ [(· + step)^[n] init] := by
  simp [numbering, List.range_succ]

/-- The counters `createDebugState` prints and the numbers in the headers, against the record of
injected frames. -/
structure CounterInv (K : TxConstants) (port : UInt8) (tx : WBTransmitter) : Prop where
  radioPort : tx.radioPort = port
  ports : ∀ i ∈ tx.injected, i.radioPort = port
  nInjectedPackets : tx.nInjectedPackets = tx.injected.length
  nInjectedSessionKeypackets :
    tx.nInjectedSessionKeypackets = tx.injected.countP Injection.isSessionKey
  ieee80211Seqs :
    tx.injected.map Injection.ieee80211Seq = numbering 16 K.ieee80211SeqInit tx.nInjectedPackets
  ieee80211Seq : tx.ieee80211Seq = (· + 16)^[tx.nInjectedPackets] K.ieee80211SeqInit
  sequenceNumbers : tx.injected.filterMap Injection.sequenceNumber =
    numbering 1 K.currSeqNrInit (tx.nInjectedPackets - tx.nInjectedSessionKeypackets)
  currSeqNr :
    tx.currSeqNr = (· + 1)^[tx.nInjectedPackets - tx.nInjectedSessionKeypackets] K.currSeqNrInit

/-- Whether `feedPacket` takes the packet: `size <= 0 || size > FEC_MAX_PAYLOAD_SIZE` fails. -/
def FeedCall.accepted (K : TxConstants) (c : FeedCall) : Bool :=
  !(c.buf.length = 0 ∨ K.fecMaxPayloadSize < c.buf.length)

namespace CounterInv

open WBTransmitter

variable {S : Sodium Bytes} {L : HeaderLayout} {K : TxConstants} {port : UInt8}
  {tx tx' : WBTransmitter}

/-- The invariant reads six fields only. -/
theorem congr (h : CounterInv K port tx) (h₁ : tx'.radioPort = tx.radioPort)
    (h₂ : tx'.injected = tx.injected) (h₃ : tx'.nInjectedPackets = tx.nInjectedPackets)
    (h₄ : tx'.nInjectedSessionKeypackets = tx.nInjectedSessionKeypackets)
    (h₅ : tx'.ieee80211Seq = tx.ieee80211Seq) (h₆ : tx'.currSeqNr = tx.currSeqNr) :
    CounterInv K port tx' := by
  cases h
  constructor <;> simp only [h₁, h₂, h₃, h₄, h₅, h₆] <;> assumption

theorem sessionKeypackets_le (h : CounterInv K port tx) :
    tx.nInjectedSessionKeypackets ≤ tx.nInjectedPackets := by
  rw [h.nInjectedSessionKeypackets, h.nInjectedPackets]; exact List.countP_le_length _

/-- A frame `sendPacket` appends carries the transmitter's radio port. -/
theorem ports_snoc (h : CounterInv K port tx) (seq : UInt16) (origin : Origin) (frame : TxFrame) :
    ∀ i ∈ tx.injected ++ [⟨tx.radioPort, seq, origin, frame⟩], i.radioPort = port := by
  intro i hi
  rcases List.mem_append.mp hi with hi | hi
  · exact h.ports i hi
  · rw [List.mem_singleton.mp hi]; exact h.radioPort

theorem sendSessionKey (h : CounterInv K port tx) (origin : Origin) :
    CounterInv K port (tx.sendSessionKey origin) where
  radioPort := h.radioPort
  ports := by rw [sendSessionKey_injected]; exact h.ports_snoc _ _ _
  nInjectedPackets := by simp [WBTransmitter.sendSessionKey, sendPacket, h.nInjectedPackets]
  nInjectedSessionKeypackets := by
    simp [WBTransmitter.sendSessionKey, sendPacket, h.nInjectedSessionKeypackets,
      Injection.isSessionKey]
  ieee80211Seqs := by
    simp [WBTransmitter.sendSessionKey, sendPacket, h.ieee80211Seqs, h.ieee80211Seq,
      numbering_succ]
  ieee80211Seq := by
    simp [WBTransmitter.sendSessionKey, sendPacket, h.ieee80211Seq, Function.iterate_succ_apply']
  sequenceNumbers := by
    simp [WBTransmitter.sendSessionKey, sendPacket, h.sequenceNumbers, Injection.sequenceNumber]
  currSeqNr := by simp [WBTransmitter.sendSessionKey, sendPacket, h.currSeqNr]

theorem sendFecPrimaryOrSecondaryFragment (h : CounterInv K port tx) (t : Nat) (nonce : UInt64)
    (payload : Bytes) :
    CounterInv K port (sendFecPrimaryOrSecondaryFragment S L t tx nonce payload) := by
  have hsub : tx.nInjectedPackets + 1 - tx.nInjectedSessionKeypackets =
      tx.nInjectedPackets - tx.nInjectedSessionKeypackets + 1 := by
    have := h.sessionKeypackets_le; omega
  constructor
  · exact h.radioPort
  · rw [sendFecPrimaryOrSecondaryFragment_injected]; exact h.ports_snoc _ _ _
  all_goals simp only [WBTransmitter.sendFecPrimaryOrSecondaryFragment, sendPacket]
  · simp [h.nInjectedPackets]
  · simp [h.nInjectedSessionKeypackets, Injection.isSessionKey]
  · simp [h.ieee80211Seqs, h.ieee80211Seq, numbering_succ]
  · simp [h.ieee80211Seq, Function.iterate_succ_apply']
  · simp [h.sequenceNumbers, h.currSeqNr, Injection.sequenceNumber, hsub, numbering_succ]
  · simp [h.currSeqNr, hsub, Function.iterate_succ_apply']

theorem sendFragments (t : Nat) :
    ∀ {tx : WBTransmitter} (fragments : List (UInt64 × Bytes)), CounterInv K port tx →
      CounterInv K port (sendFragments S L t tx fragments)
  | _, [], h => h
  | _, f :: fragments, h =>
      sendFragments t fragments (h.sendFecPrimaryOrSecondaryFragment t f.1 f.2)

theorem announceIfDue (h : CounterInv K port tx) (t : Nat) :
    CounterInv K port (announceIfDue K t tx) := by
  unfold WBTransmitter.announceIfDue
  split
  · exact (h.sendSessionKey _).congr rfl rfl rfl rfl rfl rfl
  · exact h

theorem rekeyOnOverflow (h : CounterInv K port tx) {t : Nat} {encoder : EncoderRun}
    {draw : Bytes × Bytes} (hr : rekeyOnOverflow S t encoder draw tx = .ok tx') :
    CounterInv K port tx' := by
  rcases rekeyOnOverflow_cases S hr with rfl | ⟨e, -, rfl⟩
  · exact h
  · refine CounterInv.sendSessionKey ?_ _
    exact h.congr rfl rfl rfl rfl rfl rfl

/-! ## The input counters -/

theorem sendFragments_inputs (t : Nat) :
    ∀ (tx : WBTransmitter) (fragments : List (UInt64 × Bytes)),
      (WBTransmitter.sendFragments S L t tx fragments).nInputPackets = tx.nInputPackets ∧
        (WBTransmitter.sendFragments S L t tx fragments).countBytesDataProvided =
          tx.countBytesDataProvided
  | _, [] => ⟨rfl, rfl⟩
  | tx, f :: fragments =>
      sendFragments_inputs t (WBTransmitter.sendFecPrimaryOrSecondaryFragment S L t tx f.1 f.2)
        fragments

theorem announceIfDue_inputs (t : Nat) (tx : WBTransmitter) :
    (WBTransmitter.announceIfDue K t tx).nInputPackets = tx.nInputPackets ∧
      (WBTransmitter.announceIfDue K t tx).countBytesDataProvided = tx.countBytesDataProvided := by
  unfold WBTransmitter.announceIfDue
  split <;> exact ⟨rfl, rfl⟩

theorem rekeyOnOverflow_inputs {t : Nat} {encoder : EncoderRun} {draw : Bytes × Bytes}
    (hr : WBTransmitter.rekeyOnOverflow S t encoder draw tx = .ok tx') :
    tx'.nInputPackets = tx.nInputPackets ∧
      tx'.countBytesDataProvided = tx.countBytesDataProvided := by
  rcases rekeyOnOverflow_cases S hr with rfl | ⟨e, -, rfl⟩ <;> exact ⟨rfl, rfl⟩

/-- One call keeps the invariant and counts the packet and its bytes when it takes it. -/
theorem feedPacket (h : CounterInv K port tx) {c : FeedCall}
    (hf : WBTransmitter.feedPacket S L K tx c = .ok tx') :
    CounterInv K port tx' ∧
      tx'.nInputPackets = tx.nInputPackets + (if c.accepted K then 1 else 0) ∧
      tx'.countBytesDataProvided =
        tx.countBytesDataProvided + (if c.accepted K then c.buf.length else 0) := by
  by_cases hc : c.buf.length = 0 ∨ K.fecMaxPayloadSize < c.buf.length
  · have hacc : c.accepted K = false := by
      simp only [FeedCall.accepted, decide_eq_true hc, Bool.not_true]
    rw [feedPacket_rejected S L K tx hc, Except.ok.injEq] at hf
    subst hf
    simp [hacc, h]
  · have hacc : c.accepted K = true := by
      simp only [FeedCall.accepted, decide_eq_false hc, Bool.not_false]
    obtain ⟨tx₁, hr, rfl⟩ := feedPacket_accepted S L K hc hf
    have h₀ : CounterInv K port
        { tx with countBytesDataProvided := tx.countBytesDataProvided + c.buf.length } :=
      h.congr rfl rfl rfl rfl rfl rfl
    have h₁ := ((h₀.announceIfDue c.time).sendFragments c.time c.encoder.fragments).rekeyOnOverflow hr
    obtain ⟨hn₁, hb₁⟩ := rekeyOnOverflow_inputs hr
    refine ⟨h₁.congr rfl rfl rfl rfl rfl rfl, ?_, ?_⟩ <;> simp only [hacc, if_true]
    · rw [hn₁, (sendFragments_inputs _ _ _).1, (announceIfDue_inputs _ _).1]
    · rw [hb₁, (sendFragments_inputs _ _ _).2, (announceIfDue_inputs _ _).2]

theorem run {tx : WBTransmitter} (h : CounterInv K port tx) :
    ∀ {calls : List FeedCall} {tx' : WBTransmitter}, WBTransmitter.run S L K tx calls = .ok tx' →
      CounterInv K port tx' ∧
        tx'.nInputPackets = tx.nInputPackets + (calls.filter (·.accepted K)).length ∧
        tx'.countBytesDataProvided =
          tx.countBytesDataProvided + ((calls.filter (·.accepted K)).map (·.buf.length)).sum
  | [], _, hrun => by cases hrun; simp [h]
  | c :: calls, tx', hrun => by
      rw [run_cons] at hrun
      obtain ⟨tx₁, hf, hrun⟩ := Except.bind_eq_ok.mp hrun
      obtain ⟨h₁, hn₁, hb₁⟩ := h.feedPacket hf
      obtain ⟨h', hn, hb⟩ := h₁.run hrun
      refine ⟨h', ?_, ?_⟩ <;> cases hc : c.accepted K <;>
        simp only [hc, List.filter_cons, if_true, if_false, Bool.false_eq_true] at hn₁ hb₁ ⊢ <;>
        simp [hn, hb, hn₁, hb₁] <;> omega

theorem iterate_sendSessionKey {tx : WBTransmitter} (h : CounterInv K port tx) :
    ∀ n, CounterInv K port ((fun tx => tx.sendSessionKey .startup)^[n] tx) ∧
      ((fun tx => tx.sendSessionKey .startup)^[n] tx).nInputPackets = tx.nInputPackets ∧
      ((fun tx => tx.sendSessionKey .startup)^[n] tx).countBytesDataProvided =
        tx.countBytesDataProvided
  | 0 => ⟨h, rfl, rfl⟩
  | n + 1 => by
      rw [Function.iterate_succ_apply']
      obtain ⟨h', hn, hb⟩ := iterate_sendSessionKey h n
      exact ⟨h'.sendSessionKey _, hn, hb⟩

/-- The constructor starts every counter at zero and both numberings at `WBTransmitter.h`'s
initial values, and its five announcements keep the invariant. -/
theorem create {fs : String → Option Bytes} {options : TOptions} {draw : Bytes × Bytes}
    {tEnd : Nat} {tx₀ : WBTransmitter} (h : create S K fs options draw tEnd = .ok tx₀) :
    CounterInv K options.radioPort tx₀ ∧ tx₀.nInputPackets = 0 ∧
      tx₀.countBytesDataProvided = 0 := by
  obtain ⟨e₀, e, -, -, rfl⟩ := create_eq_ok S K h
  have hinit : CounterInv K options.radioPort
      (init K options (decide (options.fecK = .int 0)) e e.sessionKeyPacket) := by
    constructor <;> simp [init, numbering]
  obtain ⟨h₅, hn, hb⟩ := hinit.iterate_sendSessionKey 5
  exact ⟨h₅.congr rfl rfl rfl rfl rfl rfl, hn, hb⟩

end CounterInv

/-- Over every run from the constructor, whatever the encoder does: every frame carries the
options' radio port, `nInjectedPackets` is the number of frames and `nInjectedSessionKeypackets`
that of announcements, frame `k` has 802.11 sequence number `ieee80211SeqInit + 16 * k` and data
frame `k` the `WBDataHeader` sequence number `currSeqNrInit + k` (modulo `2^16`), there are
`nInjectedPackets - nInjectedSessionKeypackets` data frames, and `nInputPackets` and
`count_bytes_data_provided` count the accepted calls and their bytes. -/
theorem counters_match_injected (S : Sodium Bytes) (L : HeaderLayout) (K : TxConstants)
    {fs : String → Option Bytes} {options : TOptions} {draw : Bytes × Bytes} {tEnd : Nat}
    {tx₀ : WBTransmitter} (hcreate : WBTransmitter.create S K fs options draw tEnd = .ok tx₀)
    (calls : List FeedCall) :
    ∃ tx, tx₀.run S L K calls = .ok tx ∧ CounterInv K options.radioPort tx ∧
      tx.nInputPackets = (calls.filter (·.accepted K)).length ∧
      tx.countBytesDataProvided = ((calls.filter (·.accepted K)).map (·.buf.length)).sum := by
  obtain ⟨tx, hrun, -⟩ := (KeyInv.create hcreate : KeyInv S L _ _ tx₀).run (K := K) calls
  obtain ⟨h₀, hn₀, hb₀⟩ := CounterInv.create hcreate
  obtain ⟨h, hn, hb⟩ := h₀.run hrun
  exact ⟨tx, hrun, h, by rw [hn, hn₀, Nat.zero_add], by rw [hb, hb₀, Nat.zero_add]⟩

/-- Radio port 3, an accepted call with two fragments and a rekey, and an empty packet. -/
theorem counters_match_injected_two_calls :
    ∃ tx₀, WBTransmitter.create Sodium.plain ⟨1000, 1446, 0, 0⟩ (fun _ => none)
        ⟨3, none, .int 8⟩ ([1], [2]) 0 = .ok tx₀ ∧
      ∃ tx, tx₀.run Sodium.plain HeaderLayout.spec ⟨1000, 1446, 0, 0⟩
          [⟨0, [5], ⟨[(0, [5]), (1, [6])], true⟩, ([3], [4])⟩, ⟨10, [], ⟨[], false⟩, ([], [])⟩] =
          .ok tx ∧
        CounterInv ⟨1000, 1446, 0, 0⟩ 3 tx ∧
        tx.nInputPackets = (([⟨0, [5], ⟨[(0, [5]), (1, [6])], true⟩, ([3], [4])⟩,
          ⟨10, [], ⟨[], false⟩, ([], [])⟩] : List FeedCall).filter
            (·.accepted ⟨1000, 1446, 0, 0⟩)).length ∧
        tx.countBytesDataProvided = ((([⟨0, [5], ⟨[(0, [5]), (1, [6])], true⟩, ([3], [4])⟩,
          ⟨10, [], ⟨[], false⟩, ([], [])⟩] : List FeedCall).filter
            (·.accepted ⟨1000, 1446, 0, 0⟩)).map (·.buf.length)).sum :=
  ⟨_, rfl, counters_match_injected Sodium.plain HeaderLayout.spec ⟨1000, 1446, 0, 0⟩
    (rfl : WBTransmitter.create Sodium.plain ⟨1000, 1446, 0, 0⟩ (fun _ => none) ⟨3, none, .int 8⟩
      ([1], [2]) 0 = _) _⟩

end Wifibroadcast
