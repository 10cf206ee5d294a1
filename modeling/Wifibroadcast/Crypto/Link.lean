import Wifibroadcast.Crypto.Symbolic

/-! # The link against an active adversary

Two endpoints, each built from its own key file as `WBTxRx` builds both its `Encryptor` and its
`Decryptor` from its one `encryption_key`: `secret_A || public_B` at A, `secret_B || public_A` at
B. The adversary sees every frame and hands any endpoint any announcement it can derive, whether
replayed, reflected or built. X25519 is symmetric, so both directions box their session keys under
the same key and an endpoint installs its own announcement reflected back to it; and a Decryptor
starts from the all-zero key, which the adversary knows. What holds is weaker: a Decryptor only
ever holds the zero key or a key one of the two Encryptors drew, and under a drawn key it only
opens ciphertexts the endpoint that drew it sent.
-/

namespace Wifibroadcast

/-- The two endpoints. -/
inductive Side
  | a
  | b
  deriving DecidableEq, Repr

def Side.party : Side → Party
  | .a => .a
  | .b => .b

def Side.peer : Side → Side
  | .a => .b
  | .b => .a

theorem Side.party_inj {p q : Side} (h : p.party = q.party) : p = q := by
  cases p <;> cases q <;> first | rfl | cases h

theorem sharedKey_side (p : Side) : sharedKey p.party p.peer.party = .shared .a .b := by
  cases p <;> rfl

/-- One endpoint: its `Encryptor`, its `Decryptor`, and how many session keys it has drawn. -/
structure Endpoint where
  encryptor : Encryptor Term
  decryptor : Decryptor Term
  drawn : Nat

/-- The endpoint `p` built from the key file `secret_p || public_peer`. -/
def Endpoint.create (p : Side) : Endpoint where
  encryptor := Encryptor.ofKeys Term.sodium (.secretKey p.party) (.publicKey p.peer.party)
  decryptor := Decryptor.ofKeys Term.sodium (.secretKey p.party) (.publicKey p.peer.party)
  drawn := 0

/-- A frame on the air: an announcement, or a data packet's associated data, nonce and
ciphertext. -/
inductive Frame
  | sessionKey (pkt : WBSessionKeyPacket Term)
  | data (ad npub c : Term)

def Frame.parts : Frame → List Term
  | .sessionKey pkt => [pkt.sessionKeyNonce, pkt.sessionKeyData]
  | .data ad npub c => [ad, npub, c]

structure Link where
  ep : Side → Endpoint
  /-- Every frame an endpoint injected, with its sender, oldest first. -/
  air : List (Side × Frame)

namespace Link

def init : Link := ⟨Endpoint.create, []⟩

/-- Everything the adversary has seen. -/
def known (s : Link) : List Term := s.air.flatMap fun f => f.2.parts

/-- Endpoint `p` replaced by `e`. -/
def set (s : Link) (p : Side) (e : Endpoint) : Link := { s with ep := Function.update s.ep p e }

/-- Endpoint `p` injects the frame `f`. -/
def inject (s : Link) (p : Side) (f : Frame) : Link := { s with air := s.air ++ [(p, f)] }

@[simp] theorem set_ep (s : Link) (p q : Side) (e : Endpoint) :
    (s.set p e).ep q = if q = p then e else s.ep q := Function.update_apply ..

@[simp] theorem set_known (s : Link) (p : Side) (e : Endpoint) : (s.set p e).known = s.known := rfl

@[simp] theorem inject_ep (s : Link) (p : Side) (f : Frame) : (s.inject p f).ep = s.ep := rfl

@[simp] theorem inject_air (s : Link) (p : Side) (f : Frame) :
    (s.inject p f).air = s.air ++ [(p, f)] := rfl

@[simp] theorem inject_known (s : Link) (p : Side) (f : Frame) :
    (s.inject p f).known = s.known ++ f.parts := by
  simp [known, inject]

/-- One step: an endpoint draws a session key, announces its current one, sends a data packet, or
processes an announcement the adversary can derive. -/
inductive Step : Link → Link → Prop
  | makeSessionKey (s : Link) (p : Side) (nonce : Nat) {e : Encryptor Term} :
      (s.ep p).encryptor.makeSessionKey Term.sodium (.sessionKey p.party (s.ep p).drawn)
        (.atom nonce) = .ok e →
      Step s (s.set p { s.ep p with encryptor := e, drawn := (s.ep p).drawn + 1 })
  | announce (s : Link) (p : Side) :
      Step s (s.inject p (.sessionKey (s.ep p).encryptor.sessionKeyPacket))
  | send (s : Link) (p : Side) (ad npub m : Nat) :
      Step s (s.inject p (.data (.atom ad) (.atom npub)
        ((s.ep p).encryptor.aeadSeal Term.sodium (.atom ad) (.atom npub) (.atom m))))
  | onNewPacketWfbKey (s : Link) (p : Side) (pkt : WBSessionKeyPacket Term) :
      Derivable s.known pkt.sessionKeyNonce → Derivable s.known pkt.sessionKeyData →
      Step s (s.set p
        { s.ep p with decryptor := ((s.ep p).decryptor.onNewPacketWfbKey Term.sodium pkt).1 })

inductive Reachable : Link → Prop
  | init : Reachable init
  | step {s s' : Link} : Reachable s → Step s s' → Reachable s'

/-- `decryptPacket` at `p` returns a payload for a data frame the adversary can derive. -/
def Accepts (s : Link) (p : Side) (ad npub c : Term) : Prop :=
  Derivable s.known ad ∧ Derivable s.known npub ∧ Derivable s.known c ∧
    ((s.ep p).decryptor.aeadOpen Term.sodium ad npub c).isSome

end Link

/-! ## What honest endpoints put on the air -/

/-- The session key and announcement of an Encryptor of `q` that has drawn `drawn` keys: the zeros
it starts with, or one of the keys it drew, boxed under the link's X25519 key. -/
def SessionOk (q : Side) (drawn : Nat) (e : Encryptor Term) : Prop :=
  (e.sessionKey = .zeros keybytes ∧
      e.sessionKeyPacket = ⟨.zeros noncebytes, .zeros (keybytes + macbytes)⟩) ∨
    ∃ i < drawn, ∃ n, e.sessionKey = .sessionKey q.party i ∧
      e.sessionKeyPacket = ⟨.atom n, .box (.shared .a .b) (.atom n) (.sessionKey q.party i)⟩

/-- A frame made by an Encryptor of its sender in a state `SessionOk` allows. -/
def FrameOk (drawn : Side → Nat) : Side × Frame → Prop
  | (q, f) => ∃ e, SessionOk q (drawn q) e ∧ (f = .sessionKey e.sessionKeyPacket ∨
      ∃ ad npub m, f = .data (.atom ad) (.atom npub)
        (e.aeadSeal Term.sodium (.atom ad) (.atom npub) (.atom m)))

/-- `k` is the zero key or a key one of the endpoints drew. -/
def KeyOk (drawn : Side → Nat) (k : Term) : Prop :=
  k = .zeros keybytes ∨ ∃ q, ∃ i < drawn q, k = .sessionKey q.party i

/-- Endpoint `p` keeps its key pair, its Encryptor holds what `SessionOk` allows, and its
Decryptor a key `KeyOk` allows. -/
structure EndpointOk (drawn : Side → Nat) (p : Side) (ep : Endpoint) : Prop where
  keys : ep.encryptor.txSecretkey = .secretKey p.party ∧
    ep.encryptor.rxPublickey = .publicKey p.peer.party ∧
    ep.decryptor.rxSecretkey = .secretKey p.party ∧
    ep.decryptor.txPublickey = .publicKey p.peer.party
  session : SessionOk p (drawn p) ep.encryptor
  installed : KeyOk drawn ep.decryptor.sessionKey

section Mono

variable {d d' : Side → Nat} (hd : ∀ q, d q ≤ d' q)
include hd

theorem SessionOk.mono {q : Side} {e : Encryptor Term} (h : SessionOk q (d q) e) :
    SessionOk q (d' q) e := by
  rcases h with h | ⟨i, hi, h⟩
  · exact .inl h
  · exact .inr ⟨i, lt_of_lt_of_le hi (hd q), h⟩

theorem FrameOk.mono : ∀ {f : Side × Frame}, FrameOk d f → FrameOk d' f
  | (_, _), ⟨e, he, hf⟩ => ⟨e, he.mono hd, hf⟩

theorem KeyOk.mono {k : Term} (h : KeyOk d k) : KeyOk d' k := by
  rcases h with h | ⟨q, i, hi, h⟩
  · exact .inl h
  · exact .inr ⟨q, i, lt_of_lt_of_le hi (hd q), h⟩

theorem EndpointOk.mono {p : Side} {ep : Endpoint} (h : EndpointOk d p ep) : EndpointOk d' p ep :=
  ⟨h.keys, h.session.mono hd, h.installed.mono hd⟩

end Mono

/-- The parts of an announcement of an Encryptor `SessionOk` allows are harmless, and the only
locked term in them is the box of a key it drew. -/
theorem SessionOk.announcement_parts {q : Side} {drawn : Nat} {e : Encryptor Term}
    (h : SessionOk q drawn e) {u : Term} (hu : u ∈ (Frame.sessionKey e.sessionKeyPacket).parts) :
    u.harmless ∧ ∀ {t : Term}, t.Occurs u → t.locked →
      ∃ i < drawn, ∃ n, t = .box (.shared .a .b) (.atom n) (.sessionKey q.party i) := by
  rcases h with ⟨-, hpkt⟩ | ⟨i, hi, n, -, hpkt⟩ <;>
    simp only [Frame.parts, hpkt, List.mem_cons, List.mem_singleton, List.not_mem_nil,
      or_false] at hu
  case inl =>
    -- the zero announcement: two runs of zeros
    refine ⟨by rcases hu with rfl | rfl <;> rfl, fun ht hl => ?_⟩
    rcases hu with rfl | rfl <;> simp [ht.eq_of_children_nil rfl, Term.locked] at hl
  case inr =>
    rcases hu with rfl | rfl
    · -- the nonce
      exact ⟨rfl, fun ht hl => by simp [ht.eq_of_children_nil rfl, Term.locked] at hl⟩
    · -- the box of the drawn key
      refine ⟨by simp [Term.harmless, Party.honest], fun ht hl => ⟨i, hi, n, ?_⟩⟩
      exact ht.eq_of_locked hl (by simp [Term.children, Term.locked])

/-- The parts of a data frame an Encryptor `SessionOk` allows seals are harmless, and the only
locked term in them is the ciphertext, when it is sealed under a key the Encryptor drew. -/
theorem SessionOk.data_parts {q : Side} {drawn : Nat} {e : Encryptor Term}
    (h : SessionOk q drawn e) {ad npub m : Nat} {u : Term}
    (hu : u ∈ (Frame.data (.atom ad) (.atom npub)
      (e.aeadSeal Term.sodium (.atom ad) (.atom npub) (.atom m))).parts) :
    u.harmless ∧ ∀ {t : Term}, t.Occurs u → t.locked → ∃ i < drawn,
      t = .aead (.sessionKey q.party i) (.atom ad) (.atom npub) (.atom m) ∧
        e.aeadSeal Term.sodium (.atom ad) (.atom npub) (.atom m) = t := by
  simp only [Frame.parts, Encryptor.aeadSeal, Term.sodium_aeadEncrypt, List.mem_cons,
    List.mem_singleton, List.not_mem_nil, or_false] at hu ⊢
  rcases hu with rfl | rfl | rfl
  case inl | inr.inl =>
    -- the associated data and the nonce
    exact ⟨rfl, fun ht hl => by simp [ht.eq_of_children_nil rfl, Term.locked] at hl⟩
  case inr.inr =>
    -- the ciphertext
    rcases h with ⟨hk, -⟩ | ⟨i, hi, n, hk, -⟩ <;> rw [hk]
    · -- under the zero key, which is not locked
      refine ⟨rfl, fun ht hl => ?_⟩
      rw [ht.eq_of_locked hl (by simp [Term.children, Term.locked])] at hl
      simp [Term.locked, Term.harmless] at hl
    · -- under a drawn key
      refine ⟨rfl, fun ht hl => ?_⟩
      have heq := ht.eq_of_locked hl (by simp [Term.children, Term.locked])
      exact ⟨i, hi, heq, heq.symm⟩

/-- The parts of an honest frame are harmless, and a locked term in them is an announced box
of a key its sender drew, or the ciphertext of a data frame under such a key. -/
theorem FrameOk.parts {d : Side → Nat} {q : Side} {f : Frame} (hf : FrameOk d (q, f))
    {u : Term} (hu : u ∈ f.parts) :
    u.harmless ∧ ∀ {t : Term}, t.Occurs u → t.locked →
      (∃ i < d q, ∃ n, t = .box (.shared .a .b) (.atom n) (.sessionKey q.party i)) ∨
        ∃ i < d q, ∃ ad npub m, t = .aead (.sessionKey q.party i) ad npub m ∧ f = .data ad npub t := by
  obtain ⟨e, hsess, rfl | ⟨ad, npub, m, rfl⟩⟩ := hf
  · obtain ⟨hharm, hlocked⟩ := hsess.announcement_parts hu
    exact ⟨hharm, fun ht hl => .inl (hlocked ht hl)⟩
  · obtain ⟨hharm, hlocked⟩ := hsess.data_parts hu
    refine ⟨hharm, fun ht hl => .inr ?_⟩
    obtain ⟨i, hi, rfl, hseal⟩ := hlocked ht hl
    exact ⟨i, hi, _, _, _, rfl, by rw [hseal]⟩

namespace Link

/-- How many keys each endpoint has drawn. -/
def drawn (s : Link) (q : Side) : Nat := (s.ep q).drawn

@[simp] theorem set_drawn (s : Link) (p q : Side) (e : Endpoint) :
    (s.set p e).drawn q = if q = p then e.drawn else s.drawn q := by
  simp only [drawn, set_ep]; split <;> rfl

@[simp] theorem inject_drawn (s : Link) (p : Side) (f : Frame) : (s.inject p f).drawn = s.drawn :=
  rfl

/-- What holds in every reachable state. -/
structure Inv (s : Link) : Prop where
  endpoints : ∀ p, EndpointOk s.drawn p (s.ep p)
  air : ∀ f ∈ s.air, FrameOk s.drawn f

variable {s : Link}

theorem Inv.known_harmless (hs : s.Inv) : ∀ u ∈ s.known, u.harmless := by
  intro u hu
  obtain ⟨⟨q, f⟩, hf, hu⟩ := List.mem_flatMap.mp hu
  exact ((hs.air _ hf).parts hu).1

/-- A locked term the adversary derives is in a frame on the air, as `FrameOk.parts` says. -/
theorem Inv.locked (hs : s.Inv) {t : Term} (h : Derivable s.known t) (hlocked : t.locked) :
    ∃ q f, (q, f) ∈ s.air ∧
      ((∃ i < s.drawn q, ∃ n, t = .box (.shared .a .b) (.atom n) (.sessionKey q.party i)) ∨
        ∃ i < s.drawn q, ∃ ad npub m, t = .aead (.sessionKey q.party i) ad npub m ∧
          f = .data ad npub t) := by
  obtain ⟨u, hu, hocc⟩ := h.locked_occurs hs.known_harmless .refl hlocked
  obtain ⟨⟨q, f⟩, hf, hu⟩ := List.mem_flatMap.mp hu
  exact ⟨q, f, hf, ((hs.air _ hf).parts hu).2 hocc hlocked⟩

/-- A box under the link's key that the adversary can present seals a key an endpoint drew. -/
theorem Inv.keyOk_of_box (hs : s.Inv) {n k : Term}
    (h : Derivable s.known (.box (.shared .a .b) n k)) : KeyOk s.drawn k := by
  obtain ⟨q, f, -, ⟨i, hi, _, heq⟩ | ⟨_, _, _, _, _, heq, -⟩⟩ :=
    hs.locked h (by simp [Term.locked, Term.harmless, Party.honest])
  · cases heq
    exact .inr ⟨q, i, hi, rfl⟩
  · cases heq

/-- A ciphertext under a drawn key that the adversary can present was sent by the endpoint that
drew the key. -/
theorem Inv.data_of_aead (hs : s.Inv) {q : Side} {i : Nat} {ad npub m : Term}
    (h : Derivable s.known (.aead (.sessionKey q.party i) ad npub m)) :
    (q, .data ad npub (.aead (.sessionKey q.party i) ad npub m)) ∈ s.air := by
  obtain ⟨q', f, hf, ⟨_, _, _, heq⟩ | ⟨_, _, ad', npub', _, heq, rfl⟩⟩ :=
    hs.locked h (by simp [Term.locked, Term.harmless])
  · cases heq
  · simp only [Term.aead.injEq, Term.sessionKey.injEq] at heq
    obtain ⟨⟨hq, -⟩, rfl, rfl, -⟩ := heq
    obtain rfl := Side.party_inj hq
    exact hf

/-! ## Each step keeps the invariant -/

theorem inv_init : init.Inv where
  endpoints _ := ⟨⟨rfl, rfl, rfl, rfl⟩, .inl ⟨rfl, rfl⟩, .inl rfl⟩
  air _ h := nomatch h

/-- Replacing one endpoint by one that has drawn at least as many keys and is `EndpointOk` keeps
the invariant. -/
theorem Inv.set (hs : s.Inv) {p : Side} {e : Endpoint} (hd : (s.ep p).drawn ≤ e.drawn)
    (he : EndpointOk (s.set p e).drawn p e) : (s.set p e).Inv := by
  have hmono : ∀ q, s.drawn q ≤ (s.set p e).drawn q := by
    intro q; by_cases hq : q = p
    · subst hq; simpa using hd
    · simp [hq]
  refine ⟨fun q => ?_, fun f hf => (hs.air f hf).mono hmono⟩
  by_cases hq : q = p
  · subst hq; simpa using he
  · simpa [hq] using (hs.endpoints q).mono hmono

theorem Inv.makeSessionKey (hs : s.Inv) {p : Side} {nonce : Nat} {e : Encryptor Term}
    (h : (s.ep p).encryptor.makeSessionKey Term.sodium (.sessionKey p.party (s.ep p).drawn)
      (.atom nonce) = .ok e) :
    (s.set p { s.ep p with encryptor := e, drawn := (s.ep p).drawn + 1 }).Inv := by
  have hp := hs.endpoints p
  obtain ⟨htx, hrx, hsk, hpk⟩ := hp.keys
  obtain ⟨data, hdata, rfl⟩ := Encryptor.makeSessionKey_eq_ok.mp h
  rw [htx, hrx] at hdata
  have hbox : data = .box (.shared .a .b) (.atom nonce) (.sessionKey p.party (s.ep p).drawn) := by
    simp only [Sodium.boxEasy, Term.sodium, Option.map_some', Option.some.injEq] at hdata
    rw [← hdata, sharedKey_side]
  refine hs.set (Nat.le_succ _) ⟨⟨htx, hrx, hsk, hpk⟩, ?_, hp.installed.mono fun q => ?_⟩
  · simpa [hbox] using .inr ⟨(s.ep p).drawn, Nat.lt_succ_self _, nonce, rfl, rfl⟩
  · by_cases hq : q = p
    · subst hq; simp [drawn]
    · simp [hq]

theorem Inv.inject (hs : s.Inv) {p : Side} {f : Frame} (hf : FrameOk s.drawn (p, f)) :
    (s.inject p f).Inv where
  endpoints := hs.endpoints
  air f' hf' := by
    rcases List.mem_append.mp hf' with hf' | hf'
    · exact hs.air f' hf'
    · rw [List.mem_singleton.mp hf']; exact hf

theorem Inv.onNewPacketWfbKey (hs : s.Inv) {p : Side} {pkt : WBSessionKeyPacket Term}
    (hdata : Derivable s.known pkt.sessionKeyData) :
    (s.set p { s.ep p with
      decryptor := ((s.ep p).decryptor.onNewPacketWfbKey Term.sodium pkt).1 }).Inv := by
  have hp := hs.endpoints p
  obtain ⟨htx, hrx, hsk, hpk⟩ := hp.keys
  have hkey : KeyOk s.drawn ((s.ep p).decryptor.onNewPacketWfbKey Term.sodium pkt).1.sessionKey := by
    rcases @Decryptor.onNewPacketWfbKey_sessionKey Term Term.sodium _ (s.ep p).decryptor pkt
      with hk | hk
    · rw [hk]; exact hp.installed
    · rw [hsk, hpk, Term.boxOpenEasy_eq_some, sharedKey_side] at hk
      exact hs.keyOk_of_box (hk ▸ hdata)
  have hd : ∀ q, s.drawn q ≤ (s.set p { s.ep p with decryptor :=
      ((s.ep p).decryptor.onNewPacketWfbKey Term.sodium pkt).1 }).drawn q := by
    intro q; by_cases hq : q = p
    · subst hq; simp [drawn]
    · simp [hq]
  exact hs.set le_rfl ⟨by simpa using hp.keys, hp.session.mono hd, hkey.mono hd⟩

theorem Inv.step (hs : s.Inv) {s' : Link} (h : Step s s') : s'.Inv := by
  cases h with
  | makeSessionKey p nonce h => exact hs.makeSessionKey h
  | announce p => exact hs.inject ⟨_, (hs.endpoints p).session, .inl rfl⟩
  | send p ad npub m => exact hs.inject ⟨_, (hs.endpoints p).session, .inr ⟨ad, npub, m, rfl⟩⟩
  | onNewPacketWfbKey p pkt _ hdata => exact hs.onNewPacketWfbKey hdata

theorem Reachable.inv (h : s.Reachable) : s.Inv := by
  induction h with
  | init => exact inv_init
  | step _ hstep ih => exact ih.step hstep

end Link

/-! ## What a Decryptor accepts -/

/-- In every reachable state, a Decryptor that accepts a data packet holds the zero key or a key
one of the endpoints drew, and under a drawn key the ciphertext is one the endpoint that drew the
key sent. -/
theorem accepts_sealed_by_endpoint {s : Link} (hs : s.Reachable) {p : Side} {ad npub c : Term}
    (h : s.Accepts p ad npub c) :
    (s.ep p).decryptor.sessionKey = .zeros keybytes ∨
      ∃ q, ∃ i < (s.ep q).drawn, (s.ep p).decryptor.sessionKey = .sessionKey q.party i ∧
        (q, .data ad npub c) ∈ s.air := by
  obtain ⟨-, -, hc, hopen⟩ := h
  obtain ⟨m, hm⟩ := Option.isSome_iff_exists.mp hopen
  rw [Decryptor.aeadOpen, Term.aeadDecrypt_eq_some] at hm
  subst hm
  rcases (hs.inv.endpoints p).installed with hz | ⟨q, i, hi, hk⟩
  · exact .inl hz
  · rw [hk] at hc ⊢
    exact .inr ⟨q, i, hi, rfl, hs.inv.data_of_aead hc⟩

/-! ## A reflected announcement -/

/-- B draws session key 0 under nonce 0 and announces it; the adversary reflects the announcement
to B, whose Decryptor installs it; B then sends payload 1 under header 0 and nonce 0. -/
def reflectionRun : Link :=
  let s₁ := Link.init.set .b { Link.init.ep .b with
    encryptor := ⟨.secretKey .b, .publicKey .a, .sessionKey .b 0,
      ⟨.atom 0, .box (.shared .a .b) (.atom 0) (.sessionKey .b 0)⟩⟩, drawn := 1 }
  let s₂ := s₁.inject .b (.sessionKey (s₁.ep .b).encryptor.sessionKeyPacket)
  let s₃ := s₂.set .b { s₂.ep .b with decryptor :=
    ((s₂.ep .b).decryptor.onNewPacketWfbKey Term.sodium (s₁.ep .b).encryptor.sessionKeyPacket).1 }
  s₃.inject .b (.data (.atom 0) (.atom 0)
    ((s₃.ep .b).encryptor.aeadSeal Term.sodium (.atom 0) (.atom 0) (.atom 1)))

theorem reflectionRun_reachable : reflectionRun.Reachable :=
  .step (.step (.step (.step .init (.makeSessionKey _ .b 0 rfl)) (.announce _ .b))
    (.onNewPacketWfbKey _ .b _ (.known (by decide)) (.known (by decide)))) (.send _ .b 0 0 1)

theorem reflectionRun_accepts :
    reflectionRun.Accepts .b (.atom 0) (.atom 0) (.aead (.sessionKey .b 0) (.atom 0) (.atom 0) (.atom 1)) :=
  ⟨.atom 0, .atom 0, .known (by decide), by decide⟩

/-- B's data packet, accepted by B itself in the reflection run, is one B sent. -/
theorem accepts_sealed_by_endpoint_reflected :
    (reflectionRun.ep .b).decryptor.sessionKey = .zeros keybytes ∨
      ∃ q, ∃ i < (reflectionRun.ep q).drawn, (reflectionRun.ep .b).decryptor.sessionKey =
        .sessionKey q.party i ∧
        (q, .data (.atom 0) (.atom 0) (.aead (.sessionKey .b 0) (.atom 0) (.atom 0) (.atom 1))) ∈
          reflectionRun.air :=
  accepts_sealed_by_endpoint reflectionRun_reachable reflectionRun_accepts

/-- Before any announcement B accepts a packet the adversary seals under the zero key; and in the
reflection run, where A injects nothing, B installs the key its own Encryptor drew and accepts
B's own packet under it. -/
theorem reflected_announcement_accepted :
    Link.init.Reachable ∧
      Link.init.Accepts .b (.atom 0) (.atom 0) (.aead (.zeros keybytes) (.atom 0) (.atom 0) (.atom 1)) ∧
      reflectionRun.Reachable ∧ (reflectionRun.ep .b).decryptor.sessionKey = .sessionKey .b 0 ∧
      reflectionRun.Accepts .b (.atom 0) (.atom 0)
        (.aead (.sessionKey .b 0) (.atom 0) (.atom 0) (.atom 1)) ∧
      ∀ f ∈ reflectionRun.air, f.1 = .b :=
  ⟨.init, ⟨.atom 0, .atom 0, .aead (.zeros _) (.atom 0) (.atom 0) (.atom 1), by decide⟩,
    reflectionRun_reachable, by decide, reflectionRun_accepts, by decide⟩

/-- The adversary never derives a session key or the secret key of an endpoint. -/
theorem secrets_not_derivable {s : Link} (hs : s.Reachable) (q : Party) (i : Nat) (p : Side) :
    ¬ Derivable s.known (.sessionKey q i) ∧ ¬ Derivable s.known (.secretKey p.party) := by
  constructor <;> intro h <;> have := h.harmless hs.inv.known_harmless
  · exact absurd this (by simp [Term.harmless])
  · cases p <;> exact absurd this (by simp [Term.harmless, Side.party, Party.honest])

/-- In the reflection run the adversary has B's session key 0 in front of it and cannot derive it,
nor B's secret key. -/
theorem secrets_not_derivable_reflected :
    ¬ Derivable reflectionRun.known (.sessionKey .b 0) ∧
      ¬ Derivable reflectionRun.known (.secretKey Side.b.party) :=
  secrets_not_derivable reflectionRun_reachable .b 0 .b

end Wifibroadcast
