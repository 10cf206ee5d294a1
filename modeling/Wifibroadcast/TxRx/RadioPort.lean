import Mathlib.Data.BitVec
import Mathlib.Logic.Function.Basic

/-! # The radio port byte of WBTxRx

`WBTxRx.h` packs the radio port of a frame into one byte: a one-bit `encrypted` flag and a
seven-bit `multiplex_index`, declared in this order, and `radio_port_to_uint8_t` copies that byte
out. The System V ABIs the engine is built for (x86-64, AArch64, 32-bit ARM) allocate bit-fields
from the least significant bit, so `encrypted` is bit 0 and the index takes bits 1 to 7. The byte
determines the flag and the index, every byte is some radio port, and an index stored into the
field is kept modulo 128, which the index `STREAM_INDEX_SESSION_KEY_PACKETS` reserved for
session keys does not survive.
-/

namespace Wifibroadcast

/-- `WBTxRx::RadioPort`, one packed byte. -/
structure RadioPort where
  encrypted : BitVec 1
  multiplexIndex : BitVec 7
  deriving DecidableEq, Repr

/-- `STREAM_INDEX_MIN`. -/
def streamIndexMin : Nat := 0

/-- `STREAM_INDEX_MAX`. -/
def streamIndexMax : Nat := 127

/-- `STREAM_INDEX_SESSION_KEY_PACKETS`, not available as a data stream's index. -/
def streamIndexSessionKeyPackets : Nat := 128

/-- `radio_port_to_uint8_t`: the byte the packed struct occupies, `encrypted` in bit 0. -/
def radioPortToUint8T (radioPort : RadioPort) : BitVec 8 :=
  radioPort.multiplexIndex ++ radioPort.encrypted

/-- The radio port of a stream: the flag and the index stored into the two bit-fields, which keep
an unsigned value modulo `2^width`. -/
def RadioPort.ofStream (encrypted : Bool) (streamIndex : Nat) : RadioPort :=
  ⟨BitVec.ofBool encrypted, BitVec.ofNat 7 streamIndex⟩

theorem toNat_append_bit : ∀ (m : BitVec 7) (e : BitVec 1), (m ++ e).toNat = e.toNat + 2 * m.toNat := by
  decide

theorem radioPortToUint8T_toNat (radioPort : RadioPort) :
    (radioPortToUint8T radioPort).toNat =
      radioPort.encrypted.toNat + 2 * radioPort.multiplexIndex.toNat :=
  toNat_append_bit _ _

/-- The two bit-fields read back from a byte. -/
theorem radioPortToUint8T_extract (b : BitVec 8) :
    radioPortToUint8T ⟨b.extractLsb' 0 1, b.extractLsb' 1 7⟩ = b := by
  ext i
  simp only [radioPortToUint8T, BitVec.getLsbD_append, BitVec.getLsbD_extractLsb']
  by_cases hi : i.val < 1
  · simp [hi]
  · simp only [hi, decide_False, cond_false, show i.val - 1 < 7 by omega, decide_True,
      Bool.true_and]
    congr 1; omega

theorem radioPortToUint8T_bijective : Function.Bijective radioPortToUint8T := by
  refine ⟨fun p q h => ?_, fun b => ⟨_, radioPortToUint8T_extract b⟩⟩
  have hn := congrArg BitVec.toNat h
  rw [radioPortToUint8T_toNat, radioPortToUint8T_toNat] at hn
  have := p.encrypted.isLt; have := q.encrypted.isLt
  have he : p.encrypted = q.encrypted := BitVec.eq_of_toNat_eq (by omega)
  have hm : p.multiplexIndex = q.multiplexIndex := BitVec.eq_of_toNat_eq (by omega)
  cases p; cases q; simp_all

theorem radioPortToUint8T_ofStream (encrypted : Bool) (streamIndex : Nat) :
    (radioPortToUint8T (RadioPort.ofStream encrypted streamIndex)).toNat =
      encrypted.toNat + 2 * (streamIndex % 128) := by
  rw [radioPortToUint8T_toNat]
  cases encrypted <;> simp [RadioPort.ofStream]

end Wifibroadcast
