import Wifibroadcast.Crypto.Encryption
import Mathlib.Data.List.Pairwise

/-! # One Decryptor behind several cards

`WBTxRx` keeps a single `Decryptor` for all its RX cards. The receive thread polls the cards and
hands each readable card's frames to `on_new_packet`, so the session-key announcements reach
`onNewPacketWfbKey` as an interleaving of what each card received. The Decryptor compares an
announced key with the installed one only, and installs it exactly when it reports a new session.
When the announcements it sees keep the order they were sent in, a new session is reported at
most once per key and never for a superseded one; a stale copy of an older key arriving on a
second card after the newer one reinstalls it.
-/

namespace Wifibroadcast

/-- The frame the receive thread takes next from card `i`, and the queues it leaves. -/
def takeFrom {β : Type} : List (List β) → Nat → Option (β × List (List β))
  | [], _ => none
  | [] :: _, 0 => none
  | (f :: q) :: qs, 0 => some (f, q :: qs)
  | q :: qs, i + 1 => (takeFrom qs i).map fun (f, qs') => (f, q :: qs')

/-- The frames in the order the receive thread processes them when it serves the cards in the
order `schedule`; a card with nothing queued is passed over. -/
def processed {β : Type} : List (List β) → List Nat → List β
  | _, [] => []
  | queues, i :: schedule =>
      match takeFrom queues i with
      | none => processed queues schedule
      | some (f, queues') => f :: processed queues' schedule

variable {α : Type} [DecidableEq α] (S : Sodium α)

/-- The announcements, by index, for which `onNewPacketWfbKey` reports a new session when it
processes `l` in order. -/
def Decryptor.newSessions (d : Decryptor α) (ann : Nat → WBSessionKeyPacket α) :
    List Nat → List Nat
  | [] => []
  | i :: l =>
      let (d', fresh) := d.onNewPacketWfbKey S (ann i)
      if fresh then i :: d'.newSessions ann l else d'.newSessions ann l

/-- The announcements, by index, after which the Decryptor holds another session key, each with
the key it then holds. -/
def Decryptor.installs (d : Decryptor α) (ann : Nat → WBSessionKeyPacket α) :
    List Nat → List (Nat × α)
  | [] => []
  | i :: l =>
      let d' := (d.onNewPacketWfbKey S (ann i)).1
      if d'.sessionKey = d.sessionKey then d'.installs ann l
      else (i, d'.sessionKey) :: d'.installs ann l

/-- `onNewPacketWfbKey` reports a new session exactly when the announcement opens to a key other
than the installed one. -/
theorem Decryptor.onNewPacketWfbKey_snd_iff (d : Decryptor α) (pkt : WBSessionKeyPacket α) :
    (d.onNewPacketWfbKey S pkt).2 = true ↔
      ∃ k, S.boxOpenEasy pkt.sessionKeyData pkt.sessionKeyNonce d.txPublickey d.rxSecretkey =
        some k ∧ d.sessionKey ≠ k := by
  cases hopen : S.boxOpenEasy pkt.sessionKeyData pkt.sessionKeyNonce d.txPublickey d.rxSecretkey with
  | none => simp [Decryptor.onNewPacketWfbKey_of_open_none hopen]
  | some k => simp [Decryptor.onNewPacketWfbKey_of_open hopen]

section Order

variable {S} {K : Nat → α} {ann : Nat → WBSessionKeyPacket α}

/-- Announcement `i` opens, under the Decryptor's key pair, to the session key `K i`. -/
def Announces (S : Sodium α) (d : Decryptor α) (K : Nat → α) (ann : Nat → WBSessionKeyPacket α) :
    Prop :=
  ∀ i, S.boxOpenEasy (ann i).sessionKeyData (ann i).sessionKeyNonce d.txPublickey d.rxSecretkey =
    some (K i)

theorem Announces.onNewPacketWfbKey {d : Decryptor α} (h : Announces S d K ann) (i : Nat) :
    d.onNewPacketWfbKey S (ann i) = ({ d with sessionKey := K i }, decide (d.sessionKey ≠ K i)) :=
  Decryptor.onNewPacketWfbKey_of_open (h i)

omit [DecidableEq α] in
/-- Installing a key keeps the key pair, so the same announcements open the same way. -/
theorem Announces.install {d : Decryptor α} (h : Announces S d K ann) (k : α) :
    Announces S { d with sessionKey := k } K ann := h

/-- One announcement: a new session exactly when its key is not the installed one. -/
theorem Announces.newSessions_cons {d : Decryptor α} (h : Announces S d K ann) (i : Nat)
    (l : List Nat) :
    d.newSessions S ann (i :: l) = if d.sessionKey = K i then d.newSessions S ann l
      else i :: ({ d with sessionKey := K i } : Decryptor α).newSessions S ann l := by
  by_cases hk : d.sessionKey = K i
  · simp only [Decryptor.newSessions, h.onNewPacketWfbKey, hk, ne_eq, not_true_eq_false,
      decide_False, Bool.false_eq_true, if_false, if_true]
    rw [← hk]
  · simp [Decryptor.newSessions, h.onNewPacketWfbKey, hk]

/-- The installed key changes exactly at the announcements reported as new sessions, each time to
the key that announcement carries. -/
theorem Announces.installs_eq :
    ∀ {d : Decryptor α}, Announces S d K ann → ∀ l : List Nat,
      d.installs S ann l = (d.newSessions S ann l).map fun i => (i, K i)
  | _, _, [] => rfl
  | d, h, i :: l => by
      rw [h.newSessions_cons]
      simp only [Decryptor.installs, h.onNewPacketWfbKey]
      by_cases hk : d.sessionKey = K i
      · rw [if_pos hk.symm, if_pos hk, ← hk]
        exact Announces.installs_eq h l
      · rw [if_neg (Ne.symm hk), if_neg hk, List.map_cons]
        exact congrArg _ (Announces.installs_eq (h.install (K i)) l)

/-- While the installed key is `K c` and the remaining announcements are in order from `c` on,
the new sessions are strictly increasing and all after `c`. -/
theorem newSessions_pairwise_of_installed {d : Decryptor α} (h : Announces S d K ann) :
    ∀ {l : List Nat} {c : Nat}, l.Pairwise (· ≤ ·) → (∀ j ∈ l, c ≤ j) → d.sessionKey = K c →
      (d.newSessions S ann l).Pairwise (· < ·) ∧ ∀ j ∈ d.newSessions S ann l, c < j
  | [], _, _, _, _ => by simp [Decryptor.newSessions]
  | i :: l, c, hl, hc, hkey => by
      obtain ⟨hi, hl⟩ := List.pairwise_cons.mp hl
      have hci : c ≤ i := hc i (List.mem_cons_self _ _)
      rw [h.newSessions_cons]
      split
      next => exact newSessions_pairwise_of_installed h hl (fun j hj => hci.trans (hi j hj)) hkey
      next hfresh =>
        have hlt : c < i := lt_of_le_of_ne hci fun hci => hfresh (hci ▸ hkey)
        obtain ⟨hrest, hgt⟩ := newSessions_pairwise_of_installed (h.install (K i)) hl hi rfl
        simp only [List.pairwise_cons, List.mem_cons, forall_eq_or_imp]
        exact ⟨⟨hgt, hrest⟩, hlt, fun j hj => hlt.trans (hgt j hj)⟩

/-- Announcements processed in the order they were sent give strictly increasing new sessions,
whatever key the Decryptor held before. -/
theorem newSessions_pairwise {d : Decryptor α} (h : Announces S d K ann) :
    ∀ {l : List Nat}, l.Pairwise (· ≤ ·) → (d.newSessions S ann l).Pairwise (· < ·)
  | [], _ => List.Pairwise.nil
  | i :: l, hl => by
      obtain ⟨hi, hl⟩ := List.pairwise_cons.mp hl
      rw [h.newSessions_cons]
      split
      next => exact newSessions_pairwise h hl
      next =>
        obtain ⟨hrest, hgt⟩ := newSessions_pairwise_of_installed (h.install (K i)) hl hi rfl
        exact List.pairwise_cons.mpr ⟨hgt, hrest⟩

end Order

/-! ## The receive thread -/

@[simp] theorem processed_nil {β : Type} (schedule : List Nat) :
    processed ([] : List (List β)) schedule = [] := by
  induction schedule <;> simp [processed, takeFrom, *]

/-- With one card, the thread processes a prefix of what the card received, in order. -/
theorem processed_single {β : Type} : ∀ (q : List β) (schedule : List Nat), (processed [q] schedule).Sublist q
  | _, [] => List.nil_sublist _
  | [], 0 :: schedule => by simpa [processed, takeFrom] using processed_single [] schedule
  | f :: q, 0 :: schedule => by
      simpa [processed, takeFrom] using (processed_single q schedule).cons₂ f
  | q, (_ + 1) :: schedule => by simpa [processed, takeFrom] using processed_single q schedule

section Cards

variable {S} {K : Nat → α} {ann : Nat → WBSessionKeyPacket α} {d : Decryptor α}

/-- One card, or several served in any schedule that keeps the announcements in the order they
were sent, hands them to the Decryptor in that order. -/
theorem processed_pairwise_of_ordered {tx : List Nat} (htx : tx.Pairwise (· ≤ ·))
    {cards : List (List Nat)} (hcards : ∀ c ∈ cards, c.Sublist tx) (schedule : List Nat)
    (hord : cards.length ≤ 1 ∨ (processed cards schedule).Pairwise (· ≤ ·)) :
    (processed cards schedule).Pairwise (· ≤ ·) := by
  rcases hord with hone | hsorted
  · match cards, hone, hcards with
    | [], _, _ => simp
    | [q], _, hcards =>
        exact htx.sublist ((processed_single q schedule).trans (hcards q (List.mem_singleton_self q)))
  · exact hsorted

/-- `onNewPacketWfbKey` reports a new session exactly when the announcement opens to a key other
than the installed one, and the installed key changes exactly then, to that key. So a Decryptor fed
by one card, or by several in any schedule that keeps the announcements in the order they were
sent, reports a new session at most once per announced index and never installs the key of an
index older than one it installed. -/
theorem newSessions_processed_in_order (h : Announces S d K ann) {tx : List Nat}
    (htx : tx.Pairwise (· ≤ ·)) {cards : List (List Nat)} (hcards : ∀ c ∈ cards, c.Sublist tx)
    (schedule : List Nat)
    (hord : cards.length ≤ 1 ∨ (processed cards schedule).Pairwise (· ≤ ·)) :
    (∀ (d' : Decryptor α) (pkt : WBSessionKeyPacket α), (d'.onNewPacketWfbKey S pkt).2 = true ↔
      ∃ k, S.boxOpenEasy pkt.sessionKeyData pkt.sessionKeyNonce d'.txPublickey d'.rxSecretkey =
        some k ∧ d'.sessionKey ≠ k) ∧
      d.installs S ann (processed cards schedule) =
        (d.newSessions S ann (processed cards schedule)).map (fun i => (i, K i)) ∧
      (d.newSessions S ann (processed cards schedule)).Pairwise (· < ·) :=
  ⟨Decryptor.onNewPacketWfbKey_snd_iff S, h.installs_eq _,
    newSessions_pairwise h (processed_pairwise_of_ordered htx hcards schedule hord)⟩

end Cards

/-- One card that received each of two announcements twice, served four times. -/
theorem newSessions_single_card :
    (∀ (d' : Decryptor Bytes) (pkt : WBSessionKeyPacket Bytes),
        (d'.onNewPacketWfbKey Sodium.plain pkt).2 = true ↔
          ∃ k, Sodium.plain.boxOpenEasy pkt.sessionKeyData pkt.sessionKeyNonce d'.txPublickey
            d'.rxSecretkey = some k ∧ d'.sessionKey ≠ k) ∧
      (Decryptor.ofKeys Sodium.plain [] []).installs Sodium.plain
          (fun i => ⟨[], List.replicate 32 (i.toUInt8 + 1)⟩) (processed [[0, 0, 1, 1]] [0, 0, 0, 0]) =
        ((Decryptor.ofKeys Sodium.plain [] []).newSessions Sodium.plain
          (fun i => ⟨[], List.replicate 32 (i.toUInt8 + 1)⟩)
          (processed [[0, 0, 1, 1]] [0, 0, 0, 0])).map
          (fun i => (i, List.replicate 32 (i.toUInt8 + 1))) ∧
      ((Decryptor.ofKeys Sodium.plain [] []).newSessions Sodium.plain
        (fun i => ⟨[], List.replicate 32 (i.toUInt8 + 1)⟩)
        (processed [[0, 0, 1, 1]] [0, 0, 0, 0])).Pairwise (· < ·) :=
  newSessions_processed_in_order
    (fun _ => rfl : Announces Sodium.plain (Decryptor.ofKeys Sodium.plain [] [])
      (fun i => List.replicate 32 (i.toUInt8 + 1)) (fun i => ⟨[], List.replicate 32 (i.toUInt8 + 1)⟩))
    (by decide : [0, 0, 1, 1].Pairwise (· ≤ ·)) (by simp) [0, 0, 0, 0] (.inl (by decide))

/-- Two cards: the first receives the announcements of keys `0` then `1`, the second a late
copy of key `0`. Served as card 0, card 0, card 1, the Decryptor reinstalls the superseded key 0
and reports a third new session. -/
theorem newSessions_stale_second_card :
    Announces Sodium.plain (Decryptor.ofKeys Sodium.plain [] [])
        (fun i => List.replicate 32 (i.toUInt8 + 1))
        (fun i => ⟨[], List.replicate 32 (i.toUInt8 + 1)⟩) ∧
      [0, 1].Pairwise (· ≤ ·) ∧ [0, 1].Sublist [0, 1] ∧ [0].Sublist [0, 1] ∧
      processed [[0, 1], [0]] [0, 0, 1] = [0, 1, 0] ∧
      (Decryptor.ofKeys Sodium.plain [] []).newSessions Sodium.plain
        (fun i => ⟨[], List.replicate 32 (i.toUInt8 + 1)⟩) [0, 1, 0] = [0, 1, 0] :=
  ⟨fun _ => rfl, by decide, by decide, by decide, by decide, by decide⟩

end Wifibroadcast
