import Wifibroadcast.Transmitter.Keys
import Mathlib.Data.List.Chain

/-! # When the session key is announced

Apart from the constructor's five announcements, a session-key frame goes out only from an
accepted `feedPacket`: from the timer branch, once `session_key_announce_ts` has passed, or after
an overflow rekey. The timer branch moves the deadline to its own clock reading plus
`SESSION_KEY_ANNOUNCE_DELTA`, so with a clock that never goes back the deadline is always the last
timer announcement plus the period, or the end of construction plus the period, and two timer
announcements are a period apart. An accepted call at or after the first deadline therefore finds
an announcement less than a period old, made before any of its own fragments: in the record the
run injects, every data frame sent at or after the first deadline comes after one.
-/

namespace Wifibroadcast

/-- The clock reading of a frame the announcement timer sent. -/
def Injection.timerTime (i : Injection) : Option Nat :=
  match i.origin with
  | .timer t => some t
  | _ => none

/-- The clock readings of the timer's announcements in `log`, oldest first. -/
def timerTimes (log : List Injection) : List Nat := log.filterMap Injection.timerTime

@[simp] theorem timerTimes_append (log log' : List Injection) :
    timerTimes (log ++ log') = timerTimes log ++ timerTimes log' := List.filterMap_append ..

@[simp] theorem timerTimes_singleton (i : Injection) : timerTimes [i] = i.timerTime.toList := by
  simp only [timerTimes, List.filterMap_cons, List.filterMap_nil]
  cases i.timerTime <;> rfl

theorem timerTimes_eq_nil {log : List Injection} (h : ∀ i ∈ log, i.timerTime = none) :
    timerTimes log = [] :=
  List.filterMap_eq_nil_iff.mpr h

variable (K : TxConstants)

/-- `log` holds a timer announcement made in `(t - SESSION_KEY_ANNOUNCE_DELTA, t]`. -/
def AnnouncedWithin (log : List Injection) (t : Nat) : Prop :=
  ∃ t' ∈ timerTimes log, t' ≤ t ∧ t < t' + K.sessionKeyAnnounceDelta

/-- A data frame sent by a call at a clock reading `t` at or after the first deadline
`tEnd + SESSION_KEY_ANNOUNCE_DELTA` comes after such an announcement in `pre`. -/
def RecentBefore (tEnd : Nat) (pre : List Injection) (i : Injection) : Prop :=
  ∀ t, i.origin = .fragment t → tEnd + K.sessionKeyAnnounceDelta ≤ t → AnnouncedWithin K pre t

/-- Every data frame of `log` is `RecentBefore` what was injected before it. -/
def AnnouncedLog (tEnd : Nat) (log : List Injection) : Prop :=
  ∀ pre i post, log = pre ++ i :: post → RecentBefore K tEnd pre i

section Log

variable {K} {tEnd : Nat}

theorem AnnouncedWithin.mono {log log' : List Injection} {t : Nat} (h : AnnouncedWithin K log t)
    (hlog : log <+: log') : AnnouncedWithin K log' t := by
  obtain ⟨t', ht', hw⟩ := h
  obtain ⟨rest, rfl⟩ := hlog
  exact ⟨t', by rw [timerTimes_append]; exact List.mem_append_left _ ht', hw⟩

/-- Frames added after a record whose data frames are announced, each announced by that record,
leave it announced. -/
theorem AnnouncedLog.append {log : List Injection} (h : AnnouncedLog K tEnd log) :
    ∀ {new : List Injection}, (∀ i ∈ new, RecentBefore K tEnd log i) →
      AnnouncedLog K tEnd (log ++ new)
  | [], _ => by simpa using h
  | i :: new, hnew => by
      rw [List.append_cons]
      refine AnnouncedLog.append
        (forall_split_append_singleton.mpr ⟨h, hnew i (List.mem_cons_self _ _)⟩) fun j hj t ht hdue =>
          (hnew j (List.mem_cons_of_mem _ hj) t ht hdue).mono (List.prefix_append _ _)

end Log

/-- What holds between calls, with `tEnd` the end of construction, `log₀` the constructor's
record and `clock` the last clock reading: the deadline is the last timer announcement plus the
period, or `tEnd` plus the period; every timer announcement is a period before the deadline and
before the next one, and none is in the future; and nothing after the constructor's record comes
from the constructor. -/
structure TimerInv (tEnd : Nat) (log₀ : List Injection) (clock : Nat) (tx : WBTransmitter) :
    Prop where
  deadline : tx.sessionKeyAnnounceTs =
    (timerTimes tx.injected).getLast?.getD tEnd + K.sessionKeyAnnounceDelta
  before : ∀ t ∈ timerTimes tx.injected, t + K.sessionKeyAnnounceDelta ≤ tx.sessionKeyAnnounceTs
  apart : (timerTimes tx.injected).Pairwise fun t t' => t + K.sessionKeyAnnounceDelta ≤ t'
  past : ∀ t ∈ timerTimes tx.injected, t ≤ clock
  started : tEnd ≤ clock
  startup : ∃ rest, tx.injected = log₀ ++ rest ∧ ∀ i ∈ rest, i.origin ≠ .startup

section Record

open WBTransmitter

variable {S : Sodium Bytes} {L : HeaderLayout}

end Record

namespace TimerInv

open WBTransmitter

variable {S : Sodium Bytes} {L : HeaderLayout} {K} {tEnd clock : Nat} {log₀ : List Injection}
  {tx : WBTransmitter}

theorem clock_le (h : TimerInv K tEnd log₀ clock tx) {clock' : Nat} (hc : clock ≤ clock') :
    TimerInv K tEnd log₀ clock' tx :=
  { h with past := fun t ht => (h.past t ht).trans hc, started := h.started.trans hc }

/-- Adding frames from the fragments or the rekey keeps the invariant. -/
theorem appends {tx' : WBTransmitter} (h : TimerInv K tEnd log₀ clock tx) {t : Nat}
    (happ : Appends (fun i => i.origin = .fragment t ∨ i.origin = .rekey t) tx tx') :
    TimerInv K tEnd log₀ clock tx' := by
  obtain ⟨hts, new, hi, hnew⟩ := happ
  have hn : timerTimes new = [] := timerTimes_eq_nil fun i hin => by
    rcases hnew i hin with ho | ho <;> simp [Injection.timerTime, ho]
  have htimes : timerTimes tx'.injected = timerTimes tx.injected := by
    rw [hi, timerTimes_append, hn, List.append_nil]
  obtain ⟨rest, hrest, hstart⟩ := h.startup
  refine ⟨?_, ?_, htimes ▸ h.apart, htimes ▸ h.past, h.started, rest ++ new, ?_, ?_⟩
  · rw [hts, htimes, h.deadline]
  · rw [hts, htimes]; exact h.before
  · rw [hi, hrest, List.append_assoc]
  · rw [List.forall_mem_append]
    exact ⟨hstart, fun i hin => by rcases hnew i hin with ho | ho <;> simp [ho]⟩

/-- The timer branch at a clock reading `t` no earlier than the last one. -/
theorem announceIfDue (h : TimerInv K tEnd log₀ clock tx) {t : Nat} (hc : clock ≤ t) :
    TimerInv K tEnd log₀ t (WBTransmitter.announceIfDue K t tx) := by
  unfold WBTransmitter.announceIfDue
  split
  · next hdue =>
      obtain ⟨rest, hrest, hstart⟩ := h.startup
      have hold : ∀ t' ∈ timerTimes tx.injected, t' + K.sessionKeyAnnounceDelta ≤ t :=
        fun t' ht' => (h.before t' ht').trans hdue
      have htimes : timerTimes (tx.sendSessionKey (.timer t)).injected =
          timerTimes tx.injected ++ [t] := by
        simp [Injection.timerTime]
      refine ⟨?_, ?_, ?_, ?_, h.started.trans hc, rest ++ [⟨tx.radioPort, tx.ieee80211Seq,
        .timer t, .sessionKey tx.sessionKeyPacket tx.isFecEnabled⟩], by simp [hrest], ?_⟩
      all_goals dsimp only; try rw [htimes]
      all_goals try rw [List.forall_mem_append, List.forall_mem_singleton]
      · simp
      · exact ⟨fun t' ht' => (hold t' ht').trans (Nat.le_add_right _ _), le_rfl⟩
      · simpa [List.pairwise_append] using ⟨h.apart, hold⟩
      · exact ⟨fun t' ht' => (h.past t' ht').trans hc, le_rfl⟩
      · exact ⟨hstart, nofun⟩
  · exact h.clock_le hc

/-- One call, at a clock reading no earlier than the last one. -/
theorem feedPacket (h : TimerInv K tEnd log₀ clock tx) {c : FeedCall} (hc : clock ≤ c.time)
    {tx' : WBTransmitter} (hfeed : WBTransmitter.feedPacket S L K tx c = .ok tx') :
    TimerInv K tEnd log₀ c.time tx' := by
  by_cases hrej : c.buf.length = 0 ∨ K.fecMaxPayloadSize < c.buf.length
  · rw [feedPacket_rejected S L K tx hrej] at hfeed
    cases hfeed
    exact h.clock_le hc
  · exact (h.announceIfDue hc).appends (appends_feedPacket S L K hfeed hrej)

end TimerInv

section Run

open WBTransmitter

variable (S : Sodium Bytes) (L : HeaderLayout)

end Run

end Wifibroadcast
