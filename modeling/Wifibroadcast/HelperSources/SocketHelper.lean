import Wifibroadcast.Crypto.Encryption
import Mathlib.Data.Finset.Card

/-! # Forwarding to several UDP ports

`SocketHelper.hpp`. A `UDPForwarder` owns a socket configured for one `client_addr:client_udp_port`,
sending to the address `inet_aton` parses from the string and to the port modulo `2^16`; a
`UDPMultiForwarder` keeps a `std::list` of them and sends each packet through every one. Every
member function takes `udpForwardersLock` for its whole body, so the calls are atomic steps.
`addForwarder` skips a pair it already has, so the pairs in the list stay distinct, and each
successful call is an insert or an erase on the set of pairs. `removeForwarder` erases what
`std::find_if` returns without checking it: for a pair that is not in the list that is `end()`,
and `std::list::erase(end())` is undefined, where its comment promises to do nothing.
-/

namespace Wifibroadcast

/-- A `UDPForwarder`: the socket it opened and the pair it was configured for. -/
structure UDPForwarder where
  sockfd : Int
  clientAddr : String
  clientUdpPort : Int
  deriving DecidableEq, Repr

namespace UDPForwarder

/-- `explicit UDPForwarder(client_addr, client_udp_port)`, with `sockfd` what `socket()` returns. -/
def create (clientAddr : String) (clientUdpPort : Int) (sockfd : Int) : Except Abort UDPForwarder :=
  if sockfd < 0 then .error (.runtimeError "Error opening socket:")
  else .ok ⟨sockfd, clientAddr, clientUdpPort⟩

/-- The port of `saddr`: `(unsigned short) client_udp_port`. -/
def sinPort (f : UDPForwarder) : UInt16 := (f.clientUdpPort % 65536).toNat.toUInt16

/-- The address of `saddr`: what `inet_aton(client_addr, &saddr.sin_addr)` writes into the
`bzero`'d struct. `inetAton` is the C library's parser, the address of a string it accepts and
none for one it rejects; the constructor ignores the result, so a rejected string leaves
`0.0.0.0`. -/
def sinAddr (inetAton : String → Option UInt32) (f : UDPForwarder) : UInt32 :=
  (inetAton f.clientAddr).getD 0

/-- What `sendto` hands to the kernel: the socket, the destination in `saddr` and the bytes. -/
structure Datagram where
  sockfd : Int
  addr : UInt32
  port : UInt16
  packet : Bytes

/-- `forwardPacketViaUDP(packet, packetSize)`; a failed or short `sendto` is only logged. -/
def forwardPacketViaUDP (inetAton : String → Option UInt32) (f : UDPForwarder) (packet : Bytes) :
    Datagram :=
  ⟨f.sockfd, f.sinAddr inetAton, f.sinPort, packet⟩

/-- The test `addForwarder` and `removeForwarder` make on each entry. -/
def forwardsTo (f : UDPForwarder) (clientAddr : String) (clientUdpPort : Int) : Bool :=
  f.clientAddr == clientAddr && f.clientUdpPort == clientUdpPort

/-- The pair a forwarder was configured for. -/
def key (f : UDPForwarder) : String × Int := (f.clientAddr, f.clientUdpPort)

theorem forwardsTo_eq (f : UDPForwarder) (clientAddr : String) (clientUdpPort : Int) :
    f.forwardsTo clientAddr clientUdpPort = (f.key == (clientAddr, clientUdpPort)) := rfl

theorem create_eq_ok {clientAddr : String} {clientUdpPort sockfd : Int} {f : UDPForwarder} :
    create clientAddr clientUdpPort sockfd = .ok f ↔ 0 ≤ sockfd ∧ f = ⟨sockfd, clientAddr, clientUdpPort⟩ := by
  unfold create
  split <;> simp [*, eq_comm, Int.not_lt.mp, reduceCtorEq]

end UDPForwarder

structure UDPMultiForwarder where
  udpForwarders : List UDPForwarder

namespace UDPMultiForwarder

/-- `addForwarder(client_addr, client_udp_port)`, with `sockfd` what the new forwarder's
`socket()` returns. -/
def addForwarder (m : UDPMultiForwarder) (clientAddr : String) (clientUdpPort : Int)
    (sockfd : Int) : Except Abort UDPMultiForwarder :=
  if m.udpForwarders.any (·.forwardsTo clientAddr clientUdpPort) then .ok m
  else (UDPForwarder.create clientAddr clientUdpPort sockfd).map fun f => ⟨m.udpForwarders ++ [f]⟩

/-- `removeForwarder(client_addr, client_udp_port)`: `erase(find_if(...))`. -/
def removeForwarder (m : UDPMultiForwarder) (clientAddr : String) (clientUdpPort : Int) :
    Except Abort UDPMultiForwarder :=
  match m.udpForwarders.find? (·.forwardsTo clientAddr clientUdpPort) with
  | some _ => .ok ⟨m.udpForwarders.eraseP (·.forwardsTo clientAddr clientUdpPort)⟩
  | none => .error .eraseEnd

/-- `forwardPacketViaUDP(packet, packetSize)`: one datagram per forwarder, in list order. -/
def forwardPacketViaUDP (inetAton : String → Option UInt32) (m : UDPMultiForwarder)
    (packet : Bytes) : List UDPForwarder.Datagram :=
  m.udpForwarders.map (·.forwardPacketViaUDP inetAton packet)

/-- A call that changes the list. -/
inductive Op
  | addForwarder (clientAddr : String) (clientUdpPort : Int) (sockfd : Int)
  | removeForwarder (clientAddr : String) (clientUdpPort : Int)

def apply (m : UDPMultiForwarder) : Op → Except Abort UDPMultiForwarder
  | .addForwarder a p fd => m.addForwarder a p fd
  | .removeForwarder a p => m.removeForwarder a p

/-- A sequence of calls; the first exception or undefined behaviour ends it. -/
def run (m : UDPMultiForwarder) : List Op → Except Abort UDPMultiForwarder
  | [] => .ok m
  | op :: ops =>
      match m.apply op with
      | .ok m => run m ops
      | .error e => .error e

/-- The pairs forwarded to. -/
def keys (m : UDPMultiForwarder) : List (String × Int) := m.udpForwarders.map UDPForwarder.key

/-! ## The set of pairs -/

/-- What the list stands for: a set of pairs, which an add inserts into and a remove erases
from, as the comments of the two functions say. -/
def Op.keySet (s : Finset (String × Int)) : Op → Finset (String × Int)
  | .addForwarder a p _ => insert (a, p) s
  | .removeForwarder a p => s.erase (a, p)

/-- The list has no duplicate pair, and its pairs are `s`. -/
def Represents (m : UDPMultiForwarder) (s : Finset (String × Int)) : Prop :=
  m.keys.Nodup ∧ ∀ k, k ∈ m.keys ↔ k ∈ s

theorem any_forwardsTo (m : UDPMultiForwarder) (a : String) (p : Int) :
    m.udpForwarders.any (·.forwardsTo a p) = decide ((a, p) ∈ m.keys) := by
  rw [Bool.eq_iff_iff, List.any_eq_true, decide_eq_true_iff]
  simp [keys, UDPForwarder.forwardsTo, UDPForwarder.key]

theorem keys_eraseP (m : UDPMultiForwarder) (a : String) (p : Int) :
    (m.udpForwarders.eraseP (·.forwardsTo a p)).map UDPForwarder.key = m.keys.erase (a, p) := by
  rw [keys, List.erase_eq_eraseP', List.eraseP_map]
  simp only [Function.comp_def, UDPForwarder.forwardsTo_eq]

/-- A pair no forwarder has makes `find_if` return `end()`, which `erase` is handed. -/
theorem removeForwarder_of_not_mem (m : UDPMultiForwarder) {a : String} {p : Int}
    (h : (a, p) ∉ m.keys) : m.removeForwarder a p = .error .eraseEnd := by
  have hnone : m.udpForwarders.find? (·.forwardsTo a p) = none := by
    rw [List.find?_eq_none]
    intro f hf hfwd
    exact h (List.mem_map.mpr ⟨f, hf, by
      simpa [UDPForwarder.forwardsTo, UDPForwarder.key] using hfwd⟩)
  simp [removeForwarder, hnone]

variable {m m' : UDPMultiForwarder} {s : Finset (String × Int)}

theorem Represents.addForwarder (h : m.Represents s) {a : String} {p fd : Int}
    (hadd : m.addForwarder a p fd = .ok m') : m'.Represents (insert (a, p) s) := by
  unfold UDPMultiForwarder.addForwarder at hadd
  rw [any_forwardsTo] at hadd
  by_cases hmem : (a, p) ∈ m.keys
  · rw [if_pos (decide_eq_true hmem)] at hadd
    cases hadd
    rwa [Finset.insert_eq_of_mem ((h.2 _).mp hmem)]
  · rw [if_neg (by simpa using hmem)] at hadd
    cases hf : UDPForwarder.create a p fd <;> rw [hf] at hadd <;> cases hadd
    obtain ⟨-, rfl⟩ := UDPForwarder.create_eq_ok.mp hf
    have hkeys : (⟨m.udpForwarders ++ [⟨fd, a, p⟩]⟩ : UDPMultiForwarder).keys =
        m.keys ++ [(a, p)] := by
      simp [keys, UDPForwarder.key]
    refine ⟨?_, fun k => ?_⟩ <;> rw [hkeys]
    · exact h.1.append (List.nodup_singleton _) (List.disjoint_singleton.mpr hmem)
    · simp [h.2, or_comm]

theorem Represents.removeForwarder (h : m.Represents s) {a : String} {p : Int}
    (hrem : m.removeForwarder a p = .ok m') : m'.Represents (s.erase (a, p)) := by
  unfold UDPMultiForwarder.removeForwarder at hrem
  split at hrem
  · cases hrem
    refine ⟨?_, fun k => ?_⟩ <;> rw [keys, keys_eraseP]
    · exact h.1.erase _
    · rw [h.1.mem_erase_iff, Finset.mem_erase, h.2]
  · cases hrem

/-- Each successful call is the matching operation on the set of pairs. -/
theorem Represents.apply (h : m.Represents s) {op : Op} (happ : m.apply op = .ok m') :
    m'.Represents (Op.keySet s op) := by
  cases op with
  | addForwarder a p fd => exact h.addForwarder happ
  | removeForwarder a p => exact h.removeForwarder happ

theorem Represents.run :
    ∀ {m : UDPMultiForwarder} {s : Finset (String × Int)} {ops : List Op} {m' : UDPMultiForwarder},
      m.Represents s → m.run ops = .ok m' → m'.Represents (ops.foldl Op.keySet s)
  | _, _, [], _, h, hrun => by cases hrun; exact h
  | _, _, op :: ops, _, h, hrun => by
      simp only [UDPMultiForwarder.run] at hrun
      split at hrun
      · next m₁ happ => exact (h.apply happ).run hrun
      · cases hrun

end UDPMultiForwarder

open UDPMultiForwarder in
/-- After any calls that return, the pairs in the list are distinct and are the set the calls
insert and erase, and `forwardPacketViaUDP` sends one datagram per pair in the set. -/
theorem forwarders_represent_keySet {ops : List Op} {m : UDPMultiForwarder}
    (h : (⟨[]⟩ : UDPMultiForwarder).run ops = .ok m) :
    m.keys.Nodup ∧ (∀ k, k ∈ m.keys ↔ k ∈ ops.foldl Op.keySet ∅) ∧
      ∀ inetAton packet,
        (m.forwardPacketViaUDP inetAton packet).length = (ops.foldl Op.keySet ∅).card := by
  obtain ⟨hnodup, hmem⟩ := (show (⟨[]⟩ : UDPMultiForwarder).Represents ∅ from
    ⟨List.nodup_nil, by simp [keys]⟩).run h
  refine ⟨hnodup, hmem, fun inetAton packet => ?_⟩
  rw [forwardPacketViaUDP, List.length_map,
    show m.udpForwarders.length = m.keys.length by simp [keys],
    ← List.toFinset_card_of_nodup hnodup]
  exact congrArg Finset.card (Finset.ext fun k => by simpa using hmem k)

/-- Two forwarders to the same port, a duplicate add and a remove. -/
theorem forwarders_represent_keySet_four_calls :
    ∃ m, (⟨[]⟩ : UDPMultiForwarder).run [.addForwarder "127.0.0.1" 5600 3,
        .addForwarder "127.0.0.1" 5600 4, .addForwarder "127.0.0.1" 5601 5,
        .removeForwarder "127.0.0.1" 5600] = .ok m ∧
      m.keys.Nodup ∧ (∀ k, k ∈ m.keys ↔ k ∈ [UDPMultiForwarder.Op.addForwarder "127.0.0.1" 5600 3,
        .addForwarder "127.0.0.1" 5600 4, .addForwarder "127.0.0.1" 5601 5,
        .removeForwarder "127.0.0.1" 5600].foldl UDPMultiForwarder.Op.keySet ∅) ∧
      ∀ inetAton packet, (m.forwardPacketViaUDP inetAton packet).length =
        ([UDPMultiForwarder.Op.addForwarder "127.0.0.1" 5600 3, .addForwarder "127.0.0.1" 5600 4,
          .addForwarder "127.0.0.1" 5601 5, .removeForwarder "127.0.0.1" 5600].foldl
            UDPMultiForwarder.Op.keySet ∅).card :=
  ⟨_, rfl, forwarders_represent_keySet rfl⟩

/-! ## Destinations

`addForwarder` compares the `client_addr` strings and the `int` ports, while a forwarder sends to
the address `inet_aton` parses from the string and to `(unsigned short) client_udp_port`, the port
modulo `2^16`. Two pairs that differ as strings and `int`s but name one address, or whose ports
differ by a multiple of `2^16`, are two forwarders to one destination. -/

/-- On an empty list, `removeForwarder("127.0.0.1", 5600)` erases `end()`, where the set of pairs
it stands for is left as it is. -/
theorem removeForwarder_empty_erases_end :
    (⟨[]⟩ : UDPMultiForwarder).removeForwarder "127.0.0.1" 5600 = .error .eraseEnd ∧
      UDPMultiForwarder.Op.keySet ∅ (.removeForwarder "127.0.0.1" 5600) = ∅ :=
  ⟨rfl, rfl⟩

end Wifibroadcast
