import Wifibroadcast.Crypto.Encryption
import Mathlib.Data.BitVec
import Mathlib.Tactic.FinCases
import Mathlib.Tactic.IntervalCases
import Mathlib.Data.List.Basic

/-! # The SSSE3 region kernels of libmoepgf

`gf256_ssse3.h` multiplies a memory region by a GF(2^8) constant sixteen bytes at a time. Each
byte is split into its two nibbles, `_mm_shuffle_epi8` looks both up in sixteen-entry product
tables, and the two products are XORed. The high nibble is brought down with `_mm_srli_epi64`,
which shifts two 64-bit lanes, after a mask with `0xf0` has cleared every low nibble, so no bit
crosses from one byte into the next.

The field is that of `gf256tables285.h`: a byte is a polynomial over GF(2) of degree below 8,
addition is XOR, and the product is shift-and-add, reduced by `x^8 + x^4 + x^3 + x^2 + 1` (`0x11d`,
285) whenever a bit leaves the byte. Multiplying by a constant distributes over XOR, which is what
lets the kernels multiply the two nibbles of a byte separately and add the results.

A register is its sixteen bytes and memory a byte per address. The aligned load and store fault
at an address that is not a multiple of 16, so the kernels agree with the scalar reference on
aligned regions only.
-/

namespace Wifibroadcast

/-! ## GF(2^8) modulo 0x11d -/

/-- Multiplication by `x`: shift left, and reduce by `0x11d` when the top bit falls out. -/
def xtime (a : BitVec 8) : BitVec 8 := if a.msb then (a <<< 1) ^^^ 0x1d else a <<< 1

/-- The shift-and-add product with `n` bits of `b` left, `a` the current multiple of the first
factor and `acc` the sum so far. -/
def gfMulAux : Nat → BitVec 8 → BitVec 8 → BitVec 8 → BitVec 8
  | 0, _, _, acc => acc
  | n + 1, a, b, acc => gfMulAux n (xtime a) (b >>> 1) (if b.getLsbD 0 then acc ^^^ a else acc)

/-- Modelled from the spec: `a * b` in GF(2^8) modulo `0x11d`, the scalar reference of the region
kernels. -/
def gfMul (a b : BitVec 8) : BitVec 8 := gfMulAux 8 a b 0

/-- Adding `a` when a bit of `b₁ ^^^ b₂` is set is adding it for each of the two bits. -/
theorem xor_ite_xor (p q : Bool) (acc₁ acc₂ a : BitVec 8) :
    (if (p ^^ q) then acc₁ ^^^ acc₂ ^^^ a else acc₁ ^^^ acc₂) =
      (if p then acc₁ ^^^ a else acc₁) ^^^ (if q then acc₂ ^^^ a else acc₂) := by
  cases p <;> cases q <;> simp only [Bool.xor_true, Bool.xor_false, Bool.not_true, Bool.not_false,
    if_true, if_false, Bool.false_eq_true] <;> ac_nf
  simp

theorem gfMulAux_xor : ∀ (n : Nat) (a b₁ b₂ acc₁ acc₂ : BitVec 8),
    gfMulAux n a (b₁ ^^^ b₂) (acc₁ ^^^ acc₂) = gfMulAux n a b₁ acc₁ ^^^ gfMulAux n a b₂ acc₂
  | 0, _, _, _, _, _ => rfl
  | n + 1, a, b₁, b₂, acc₁, acc₂ => by
      simp only [gfMulAux, BitVec.ushiftRight_xor_distrib, BitVec.getLsbD_xor]
      rw [xor_ite_xor, gfMulAux_xor]

/-- Multiplication by a constant distributes over XOR. -/
theorem gfMul_xor (c x y : BitVec 8) : gfMul c (x ^^^ y) = gfMul c x ^^^ gfMul c y := by
  simpa [gfMul] using gfMulAux_xor 8 c x y 0 0

theorem gfMul_zero_left : ∀ x : BitVec 8, gfMul 0 x = 0 := by decide

theorem gfMul_one_left : ∀ x : BitVec 8, gfMul 1 x = x := by decide

/-! ## Intrinsics -/

/-- An `__m128i`, as its sixteen bytes, byte `0` least significant. -/
abbrev M128 := Fin 16 → BitVec 8

/-- `_mm_and_si128`. -/
def mmAndSi128 (a b : M128) : M128 := fun j => a j &&& b j

/-- `_mm_xor_si128`. -/
def mmXorSi128 (a b : M128) : M128 := fun j => a j ^^^ b j

/-- `_mm_set1_epi8`: the byte in all sixteen positions. -/
def mmSet1Epi8 (b : BitVec 8) : M128 := fun _ => b

/-- `_mm_shuffle_epi8(a, b)`: byte `j` is byte `b[j] mod 16` of `a`, or zero when bit 7 of `b[j]`
is set. -/
def mmShuffleEpi8 (a b : M128) : M128 := fun j =>
  if (b j).msb then 0 else a ⟨(b j).toNat % 16, Nat.mod_lt _ (by decide)⟩

/-- Eight bytes as one 64-bit lane, byte `0` least significant. -/
def pack8 (g : Fin 8 → BitVec 8) : BitVec 64 :=
  g 7 ++ g 6 ++ g 5 ++ g 4 ++ g 3 ++ g 2 ++ g 1 ++ g 0

/-- `_mm_srli_epi64(a, imm)`: each of the two 64-bit lanes shifted right by `imm`, with zeros
shifted in at the top of the lane. -/
def mmSrliEpi64 (a : M128) (imm : Nat) : M128 := fun j =>
  (pack8 (fun k => a ⟨8 * (j.val / 8) + k.val, by omega⟩) >>> imm).extractLsb' (8 * (j.val % 8)) 8

/-- Memory: a byte at every address. -/
abbrev Mem := Nat → BitVec 8

/-- `_mm_load_si128(p)`: the sixteen bytes at `p`, which must be 16-byte aligned. -/
def mmLoadSi128 (mem : Mem) (p : Nat) : Except Abort M128 :=
  if p % 16 = 0 then .ok fun j => mem (p + j) else .error .misaligned

/-- `_mm_store_si128(p, a)`: `a` written to the sixteen bytes at `p`, which must be 16-byte
aligned. -/
def mmStoreSi128 (mem : Mem) (p : Nat) (a : M128) : Except Abort Mem :=
  if p % 16 = 0 then .ok fun q => if h : p ≤ q ∧ q < p + 16 then a ⟨q - p, by omega⟩ else mem q
  else .error .misaligned

/-- `memset(p, v, n)`. -/
def memset (mem : Mem) (p : Nat) (v : BitVec 8) (n : Nat) : Mem :=
  fun q => if p ≤ q ∧ q < p + n then v else mem q

/-- `memcpy(dst, src, n)`, read before written (the regions of a defined call do not overlap). -/
def memcpy (mem : Mem) (dst src n : Nat) : Mem :=
  fun q => if dst ≤ q ∧ q < dst + n then mem (q - dst + src) else mem q

/-! ## The kernels -/

/-- The multiply both loops share: each byte of `x` times the constant whose low and high nibble
product tables are `t1` and `t2`. -/
def shuffleMul (t1 t2 x : M128) : M128 :=
  let m1 := mmSet1Epi8 0x0f
  let m2 := mmSet1Epi8 0xf0
  let l := mmShuffleEpi8 t1 (mmAndSi128 x m1)
  let h := mmShuffleEpi8 t2 (mmSrliEpi64 (mmAndSi128 x m2) 4)
  mmXorSi128 h l

/-- The loop of `maddrc256_shuffle_ssse3`, one block of sixteen bytes per turn until `region1`
reaches `end_`. -/
def maddrcLoop (t1 t2 : M128) (mem : Mem) (region1 region2 end_ : Nat) : Except Abort Mem :=
  if region1 < end_ then do
    let in2 ← mmLoadSi128 mem region2
    let in1 ← mmLoadSi128 mem region1
    let mem ← mmStoreSi128 mem region1 (mmXorSi128 (shuffleMul t1 t2 in2) in1)
    maddrcLoop t1 t2 mem (region1 + 16) (region2 + 16) end_
  else .ok mem
termination_by end_ - region1

/-- The loop of `mulrc256_shuffle_ssse3`. -/
def mulrcLoop (t1 t2 : M128) (mem : Mem) (region end_ : Nat) : Except Abort Mem :=
  if region < end_ then do
    let x ← mmLoadSi128 mem region
    let mem ← mmStoreSi128 mem region (shuffleMul t1 t2 x)
    mulrcLoop t1 t2 mem (region + 16) end_
  else .ok mem
termination_by end_ - region

section Kernels

variable (tl th : BitVec 8 → M128)

/-- `maddrc256_shuffle_ssse3(region1, region2, constant, length)`, with the product tables and the
SSE2 XOR routine `xorr_sse2` as parameters. -/
def maddrc256ShuffleSsse3 (xorrSse2 : Mem → Nat → Nat → Nat → Except Abort Mem) (mem : Mem)
    (region1 region2 : Nat) (constant : BitVec 8) (length : Nat) : Except Abort Mem :=
  if constant = 0 then .ok mem
  else if constant = 1 then xorrSse2 mem region1 region2 length
  else maddrcLoop (tl constant) (th constant) mem region1 region2 (region1 + length)

/-- `mulrc256_shuffle_ssse3(region, constant, length)`. -/
def mulrc256ShuffleSsse3 (mem : Mem) (region : Nat) (constant : BitVec 8) (length : Nat) :
    Except Abort Mem :=
  if constant = 0 then .ok (memset mem region 0 length)
  else if constant = 1 then .ok mem
  else mulrcLoop (tl constant) (th constant) mem region (region + length)

/-- `mulrc256_shuffle_sse3_x(region1, region2, constant, length)`. -/
def mulrc256ShuffleSse3X (mem : Mem) (region1 region2 : Nat) (constant : BitVec 8)
    (length : Nat) : Except Abort Mem :=
  mulrc256ShuffleSsse3 tl th (memcpy mem region1 region2 length) region1 constant length

end Kernels

/-! ## The scalar reference -/

/-- Modelled from the spec: `region_multiply_add(region1, region2, c, length)`, that is
`region1[i] ^= c * region2[i]` for `i < length`, every other byte unchanged. -/
def maddrcSpec (mem : Mem) (region1 region2 : Nat) (c : BitVec 8) (length : Nat) : Mem :=
  fun q => if region1 ≤ q ∧ q < region1 + length then
    mem q ^^^ gfMul c (mem (q - region1 + region2)) else mem q

/-- Modelled from the spec: `region[i] = c * region[i]` for `i < length`. -/
def mulrcSpec (mem : Mem) (region : Nat) (c : BitVec 8) (length : Nat) : Mem :=
  fun q => if region ≤ q ∧ q < region + length then gfMul c (mem q) else mem q

/-- Modelled from the spec: `region1[i] = c * region2[i]` for `i < length`. -/
def mulrcCopySpec (mem : Mem) (region1 region2 : Nat) (c : BitVec 8) (length : Nat) : Mem :=
  fun q => if region1 ≤ q ∧ q < region1 + length then gfMul c (mem (q - region1 + region2))
    else mem q

/-- `region1[i] ^= region2[i]` for `i < length`, what `xorr_sse2` is taken to do. -/
def xorRegion (mem : Mem) (region1 region2 length : Nat) : Mem :=
  fun q => if region1 ≤ q ∧ q < region1 + length then mem q ^^^ mem (q - region1 + region2)
    else mem q

/-- Modelled from the spec: the low-nibble product table, `tl[c][i] = c * i`. -/
def shuffleLowTable (c : BitVec 8) : M128 := fun i => gfMul c (BitVec.ofNat 8 i)

/-- Modelled from the spec: the high-nibble product table, `th[c][i] = c * (i << 4)`. -/
def shuffleHighTable (c : BitVec 8) : M128 := fun i => gfMul c (BitVec.ofNat 8 i <<< 4)

/-! ## No bit leaves its byte -/

/-- Bit `8 * k + r` of `x ++ y` for a byte `y`: bit `r` of `y` when `k = 0`, and otherwise bit
`8 * (k - 1) + r` of `x`. -/
theorem getLsbD_append_byte {w : Nat} (x : BitVec w) (y : BitVec 8) (k : Nat) {r : Nat}
    (hr : r < 8) :
    (x ++ y).getLsbD (8 * k + r) = if k = 0 then y.getLsbD r else x.getLsbD (8 * (k - 1) + r) := by
  rw [BitVec.getLsbD_append]
  rcases k with _ | k
  · simp [hr]
  · have hk : ¬ 8 * (k + 1) + r < 8 := by omega
    simp only [hk, decide_False, cond_false, Nat.add_one_ne_zero, if_false, Nat.add_sub_cancel]
    congr 1; omega

theorem getLsbD_pack8 (g : Fin 8 → BitVec 8) (k : Fin 8) {r : Nat} (hr : r < 8) :
    (pack8 g).getLsbD (8 * k + r) = (g k).getLsbD r := by
  simp only [pack8, getLsbD_append_byte _ _ _ hr]
  fin_cases k <;> simp

theorem getLsbD_of_and_low_nibble {x : BitVec 8} (hx : x &&& 0x0f = 0) {r : Nat} (hr : r < 4) :
    x.getLsbD r = false := by
  have h := congrArg (·.getLsbD r) hx
  simp only [BitVec.getLsbD_and, BitVec.getLsbD_zero] at h
  interval_cases r <;> simpa using h

/-- Shifting a lane whose bytes have clear low nibbles by four moves each byte's high nibble into
its own low nibble: bits that cross into the byte below are zero. -/
theorem pack8_ushiftRight_four {g : Fin 8 → BitVec 8} (hg : ∀ k, g k &&& 0x0f = 0) (k : Fin 8) :
    (pack8 g >>> 4).extractLsb' (8 * k) 8 = g k >>> 4 := by
  ext i
  simp only [BitVec.getLsbD_extractLsb', BitVec.getLsbD_ushiftRight, i.isLt, decide_True,
    Bool.true_and]
  by_cases hi : i.val < 4
  · rw [show 4 + (8 * k.val + i.val) = 8 * k + (4 + i) by omega, getLsbD_pack8 _ _ (by omega)]
  · rw [BitVec.getLsbD_ge (g k) _ (by omega)]
    by_cases hk : k.val < 7
    · rw [show 4 + (8 * k.val + i.val) = 8 * ((⟨k + 1, by omega⟩ : Fin 8) : Nat) + (i - 4) by
        simp only; omega, getLsbD_pack8 _ _ (by omega)]
      exact getLsbD_of_and_low_nibble (hg _) (by omega)
    · exact BitVec.getLsbD_ge _ _ (by omega)

/-- On a register whose low nibbles are clear, `_mm_srli_epi64(·, 4)` shifts each byte alone. -/
theorem mmSrliEpi64_four {a : M128} (ha : ∀ j, a j &&& 0x0f = 0) (j : Fin 16) :
    mmSrliEpi64 a 4 j = a j >>> 4 := by
  have hj : (⟨8 * (j.val / 8) + j.val % 8, by omega⟩ : Fin 16) = j := Fin.ext (by simp only; omega)
  unfold mmSrliEpi64
  rw [@pack8_ushiftRight_four (fun k => a ⟨8 * (j.val / 8) + k.val, by omega⟩) (fun _ => ha _)
    ⟨j.val % 8, by omega⟩]
  simp only [hj]

theorem toNat_low_nibble_lt (x : BitVec 8) : (x &&& 0x0f).toNat < 16 := by
  rw [BitVec.toNat_and]; exact Nat.lt_succ_of_le Nat.and_le_right

theorem toNat_high_nibble_lt (x : BitVec 8) : ((x &&& 0xf0) >>> 4).toNat < 16 := by
  rw [BitVec.toNat_ushiftRight, Nat.shiftRight_eq_div_pow]; have := (x &&& 0xf0).isLt; omega

theorem high_nibble_and_low (x : BitVec 8) : x &&& 0xf0 &&& 0x0f = 0 := by
  rw [BitVec.and_assoc]; exact BitVec.and_zero

theorem high_nibble_shift_back : ∀ x : BitVec 8, (x &&& 0xf0) >>> 4 <<< 4 = x &&& 0xf0 := by
  decide

theorem high_xor_low_nibble : ∀ x : BitVec 8, (x &&& 0xf0) ^^^ (x &&& 0x0f) = x := by
  decide

/-- An index below 16 has bit 7 clear, so the shuffle looks it up. -/
theorem mmShuffleEpi8_of_eq (a b : M128) (j : Fin 16) {y : BitVec 8} (hy : b j = y)
    (h : y.toNat < 16) : mmShuffleEpi8 a b j = a ⟨y.toNat, h⟩ := by
  have hmsb : y.msb = false := by
    rw [BitVec.msb_eq_decide]; simp only [decide_eq_false_iff_not]; omega
  simp only [mmShuffleEpi8, hy, hmsb, Nat.mod_eq_of_lt h, Bool.false_eq_true, if_false]

/-! ## One block -/

section Tables

variable {tl th : BitVec 8 → M128}
  (htl : ∀ c (i : Fin 16), tl c i = gfMul c (BitVec.ofNat 8 i))
  (hth : ∀ c (i : Fin 16), th c i = gfMul c (BitVec.ofNat 8 i <<< 4))
include htl hth

/-- With the product tables of `c`, the shared block step multiplies every byte by `c`. -/
theorem shuffleMul_tables (c : BitVec 8) (x : M128) :
    shuffleMul (tl c) (th c) x = fun j => gfMul c (x j) := by
  funext j
  have hhigh : mmSrliEpi64 (mmAndSi128 x (mmSet1Epi8 0xf0)) 4 j = (x j &&& 0xf0) >>> 4 :=
    mmSrliEpi64_four (fun j => high_nibble_and_low (x j)) j
  have hlow : mmAndSi128 x (mmSet1Epi8 0x0f) j = x j &&& 0x0f := rfl
  simp only [shuffleMul, mmXorSi128,
    mmShuffleEpi8_of_eq (th c) _ j hhigh (toNat_high_nibble_lt (x j)),
    mmShuffleEpi8_of_eq (tl c) _ j hlow (toNat_low_nibble_lt (x j)), htl, hth,
    BitVec.ofNat_toNat, BitVec.setWidth_eq, high_nibble_shift_back, ← gfMul_xor,
    high_xor_low_nibble]

end Tables

/-! ## The loops -/

theorem mmLoadSi128_aligned {mem : Mem} {p : Nat} (h : p % 16 = 0) :
    mmLoadSi128 mem p = .ok fun j => mem (p + j) := if_pos h

theorem mmStoreSi128_aligned {mem : Mem} {p : Nat} (a : M128) (h : p % 16 = 0) :
    mmStoreSi128 mem p a =
      .ok fun q => if h : p ≤ q ∧ q < p + 16 then a ⟨q - p, by omega⟩ else mem q := if_pos h

section Loops

variable (c : BitVec 8) (mem : Mem) {region1 region2 length m : Nat}

theorem maddrcSpec_zero : maddrcSpec mem region1 region2 c 0 = mem := by
  funext q; simp only [maddrcSpec]; split_ifs <;> first | rfl | omega

theorem mulrcSpec_zero : mulrcSpec mem region1 c 0 = mem := by
  funext q; simp only [mulrcSpec]; split_ifs <;> first | rfl | omega

/-- Storing the next block's products extends the reference by sixteen bytes; the block of
`region2` it reads is untouched so far, since the regions are disjoint. -/
theorem maddrcSpec_store (hdisj : region1 + length ≤ region2 ∨ region2 + length ≤ region1)
    (hm : m + 16 ≤ length) (ha : (region1 + m) % 16 = 0) :
    mmStoreSi128 (maddrcSpec mem region1 region2 c m) (region1 + m)
      (mmXorSi128 (fun j => gfMul c (maddrcSpec mem region1 region2 c m (region2 + m + j)))
        (fun j => maddrcSpec mem region1 region2 c m (region1 + m + j))) =
      .ok (maddrcSpec mem region1 region2 c (m + 16)) := by
  rw [mmStoreSi128_aligned _ ha]
  congr 1; funext q
  simp only [maddrcSpec, mmXorSi128]
  split_ifs <;> first
    | omega
    | rfl
    | rw [BitVec.xor_comm, show region1 + m + (q - (region1 + m)) = q by omega,
        show region2 + m + (q - (region1 + m)) = q - region1 + region2 by omega]

theorem mulrcSpec_store (ha : (region1 + m) % 16 = 0) :
    mmStoreSi128 (mulrcSpec mem region1 c m) (region1 + m)
      (fun j => gfMul c (mulrcSpec mem region1 c m (region1 + m + j))) =
      .ok (mulrcSpec mem region1 c (m + 16)) := by
  rw [mmStoreSi128_aligned _ ha]
  congr 1; funext q
  simp only [mulrcSpec]
  split_ifs <;> first
    | omega
    | rfl
    | rw [show region1 + m + (q - (region1 + m)) = q by omega]

variable {tl th : BitVec 8 → M128}
  (htl : ∀ c (i : Fin 16), tl c i = gfMul c (BitVec.ofNat 8 i))
  (hth : ∀ c (i : Fin 16), th c i = gfMul c (BitVec.ofNat 8 i <<< 4))
  (h1 : region1 % 16 = 0)
include htl hth h1

/-- The loop of `maddrc256_shuffle_ssse3`, entered after the first `m` bytes are done, finishes
the reference. -/
theorem maddrcLoop_from (h2 : region2 % 16 = 0)
    (hdisj : region1 + length ≤ region2 ∨ region2 + length ≤ region1) (n : Nat) :
    ∀ m, m % 16 = 0 → length = m + 16 * n →
      maddrcLoop (tl c) (th c) (maddrcSpec mem region1 region2 c m) (region1 + m) (region2 + m)
        (region1 + length) = .ok (maddrcSpec mem region1 region2 c length) := by
  induction n with
  | zero =>
    rintro m - rfl
    rw [maddrcLoop, if_neg (by omega)]
  | succ n ih =>
    intro m hm hlen
    rw [maddrcLoop, if_pos (by omega), mmLoadSi128_aligned (by omega),
      mmLoadSi128_aligned (by omega)]
    simp only [bind, Except.bind, shuffleMul_tables htl hth]
    rw [maddrcSpec_store c mem hdisj (by omega) (by omega), Nat.add_assoc, Nat.add_assoc]
    exact ih (m + 16) (by omega) (by omega)

theorem mulrcLoop_from (n : Nat) :
    ∀ m, m % 16 = 0 → length = m + 16 * n →
      mulrcLoop (tl c) (th c) (mulrcSpec mem region1 c m) (region1 + m) (region1 + length) =
        .ok (mulrcSpec mem region1 c length) := by
  induction n with
  | zero =>
    rintro m - rfl
    rw [mulrcLoop, if_neg (by omega)]
  | succ n ih =>
    intro m hm hlen
    rw [mulrcLoop, if_pos (by omega), mmLoadSi128_aligned (by omega)]
    simp only [bind, Except.bind, shuffleMul_tables htl hth]
    rw [mulrcSpec_store c mem (by omega), Nat.add_assoc]
    exact ih (m + 16) (by omega) (by omega)

variable (hlen : length % 16 = 0)
include hlen

theorem maddrcLoop_spec (h2 : region2 % 16 = 0)
    (hdisj : region1 + length ≤ region2 ∨ region2 + length ≤ region1) :
    maddrcLoop (tl c) (th c) mem region1 region2 (region1 + length) =
      .ok (maddrcSpec mem region1 region2 c length) := by
  simpa only [maddrcSpec_zero, Nat.add_zero] using
    maddrcLoop_from c mem htl hth h1 h2 hdisj (length / 16) 0 rfl (by omega)

theorem mulrcLoop_spec :
    mulrcLoop (tl c) (th c) mem region1 (region1 + length) = .ok (mulrcSpec mem region1 c length) := by
  simpa only [mulrcSpec_zero, Nat.add_zero] using
    mulrcLoop_from c mem htl hth h1 (length / 16) 0 rfl (by omega)

end Loops

/-! ## The kernels against the reference -/

section Shortcuts

variable (mem : Mem) (region1 region2 length : Nat)

theorem maddrcSpec_gfMul_zero : maddrcSpec mem region1 region2 0 length = mem := by
  funext q; simp only [maddrcSpec, gfMul_zero_left]; split_ifs <;> simp

theorem maddrcSpec_gfMul_one :
    maddrcSpec mem region1 region2 1 length = xorRegion mem region1 region2 length := by
  funext q; simp only [maddrcSpec, xorRegion, gfMul_one_left]

theorem mulrcSpec_gfMul_zero : mulrcSpec mem region1 0 length = memset mem region1 0 length := by
  funext q; simp only [mulrcSpec, memset, gfMul_zero_left]

theorem mulrcSpec_gfMul_one : mulrcSpec mem region1 1 length = mem := by
  funext q; simp only [mulrcSpec, gfMul_one_left, ite_self]

theorem mulrcSpec_memcpy (c : BitVec 8) :
    mulrcSpec (memcpy mem region1 region2 length) region1 c length =
      mulrcCopySpec mem region1 region2 c length := by
  funext q; simp only [mulrcSpec, memcpy, mulrcCopySpec]; split_ifs <;> rfl

end Shortcuts

/-- The three kernels, and for every constant the loops behind them, leave memory as the scalar
reference does. -/
structure KernelsAgree (tl th : BitVec 8 → M128)
    (xorrSse2 : Mem → Nat → Nat → Nat → Except Abort Mem) (c : BitVec 8) (mem : Mem)
    (region1 region2 length : Nat) : Prop where
  madd : maddrc256ShuffleSsse3 tl th xorrSse2 mem region1 region2 c length =
    .ok (maddrcSpec mem region1 region2 c length)
  maddLoop : maddrcLoop (tl c) (th c) mem region1 region2 (region1 + length) =
    .ok (maddrcSpec mem region1 region2 c length)
  mul : mulrc256ShuffleSsse3 tl th mem region1 c length = .ok (mulrcSpec mem region1 c length)
  mulLoop : mulrcLoop (tl c) (th c) mem region1 (region1 + length) =
    .ok (mulrcSpec mem region1 c length)
  mulCopy : mulrc256ShuffleSse3X tl th mem region1 region2 c length =
    .ok (mulrcCopySpec mem region1 region2 c length)

section Kernels

variable {tl th : BitVec 8 → M128}
  (htl : ∀ c (i : Fin 16), tl c i = gfMul c (BitVec.ofNat 8 i))
  (hth : ∀ c (i : Fin 16), th c i = gfMul c (BitVec.ofNat 8 i <<< 4))
  (c : BitVec 8) (mem : Mem) {region1 region2 length : Nat}
  (h1 : region1 % 16 = 0) (hlen : length % 16 = 0)
include htl hth h1 hlen

theorem mulrc256ShuffleSsse3_spec :
    mulrc256ShuffleSsse3 tl th mem region1 c length = .ok (mulrcSpec mem region1 c length) := by
  unfold mulrc256ShuffleSsse3
  split_ifs with h0 h1'
  · rw [h0, mulrcSpec_gfMul_zero]
  · rw [h1', mulrcSpec_gfMul_one]
  · exact mulrcLoop_spec c mem htl hth h1 hlen

theorem mulrc256ShuffleSse3X_spec (region2 : Nat) :
    mulrc256ShuffleSse3X tl th mem region1 region2 c length =
      .ok (mulrcCopySpec mem region1 region2 c length) := by
  rw [mulrc256ShuffleSse3X, mulrc256ShuffleSsse3_spec htl hth c _ h1 hlen, mulrcSpec_memcpy]

variable {xorrSse2 : Mem → Nat → Nat → Nat → Except Abort Mem}
  (hxorr : ∀ mem region1 region2 length,
    xorrSse2 mem region1 region2 length = .ok (xorRegion mem region1 region2 length))
  (h2 : region2 % 16 = 0) (hdisj : region1 + length ≤ region2 ∨ region2 + length ≤ region1)
include hxorr h2 hdisj

theorem maddrc256ShuffleSsse3_spec :
    maddrc256ShuffleSsse3 tl th xorrSse2 mem region1 region2 c length =
      .ok (maddrcSpec mem region1 region2 c length) := by
  unfold maddrc256ShuffleSsse3
  split_ifs with h0 h1'
  · rw [h0, maddrcSpec_gfMul_zero]
  · rw [h1', hxorr, maddrcSpec_gfMul_one]
  · exact maddrcLoop_spec c mem htl hth h1 hlen h2 hdisj

theorem shuffle_kernels_agree_with_reference :
    KernelsAgree tl th xorrSse2 c mem region1 region2 length ∧
      (∀ x : M128, ∀ j, mmSrliEpi64 (mmAndSi128 x (mmSet1Epi8 0xf0)) 4 j = (x j &&& 0xf0) >>> 4) ∧
      ∀ x : M128, ∀ j, (mmAndSi128 x (mmSet1Epi8 0x0f) j).toNat < 16 ∧
        (mmSrliEpi64 (mmAndSi128 x (mmSet1Epi8 0xf0)) 4 j).toNat < 16 := by
  have hsrli : ∀ x : M128, ∀ j,
      mmSrliEpi64 (mmAndSi128 x (mmSet1Epi8 0xf0)) 4 j = (x j &&& 0xf0) >>> 4 :=
    fun x => mmSrliEpi64_four fun j => high_nibble_and_low (x j)
  refine ⟨⟨maddrc256ShuffleSsse3_spec htl hth c mem h1 hlen hxorr h2 hdisj,
    maddrcLoop_spec c mem htl hth h1 hlen h2 hdisj, mulrc256ShuffleSsse3_spec htl hth c mem h1 hlen,
    mulrcLoop_spec c mem htl hth h1 hlen, mulrc256ShuffleSse3X_spec htl hth c mem h1 hlen _⟩,
    hsrli, fun x j => ⟨toNat_low_nibble_lt (x j), ?_⟩⟩
  rw [hsrli]; exact toNat_high_nibble_lt (x j)

end Kernels

theorem shuffle_kernels_agree_with_reference_block :
    KernelsAgree shuffleLowTable shuffleHighTable
        (fun mem region1 region2 length => .ok (xorRegion mem region1 region2 length)) 2
        (fun _ => 0) 0 16 16 ∧
      (∀ x : M128, ∀ j, mmSrliEpi64 (mmAndSi128 x (mmSet1Epi8 0xf0)) 4 j = (x j &&& 0xf0) >>> 4) ∧
      ∀ x : M128, ∀ j, (mmAndSi128 x (mmSet1Epi8 0x0f) j).toNat < 16 ∧
        (mmSrliEpi64 (mmAndSi128 x (mmSet1Epi8 0xf0)) 4 j).toNat < 16 :=
  shuffle_kernels_agree_with_reference (fun _ _ => rfl) (fun _ _ => rfl) 2 (fun _ => 0) rfl rfl
    (fun _ _ _ _ => rfl) rfl (by decide)

/-- A region that is not 16-byte aligned faults at its first load, though it is disjoint from the
other region and its length is a multiple of 16. -/
theorem maddrc256ShuffleSsse3_misaligned_faults :
    (1 + 16 ≤ 32 ∧ 16 % 16 = 0) ∧
      maddrc256ShuffleSsse3 shuffleLowTable shuffleHighTable
        (fun mem region1 region2 length => .ok (xorRegion mem region1 region2 length))
        (fun _ => 0) 1 32 2 16 = .error .misaligned := by
  refine ⟨by decide, ?_⟩
  rw [maddrc256ShuffleSsse3, if_neg (by decide), if_neg (by decide), maddrcLoop,
    if_pos (by decide)]
  rfl

/-! ## Lengths that are not a multiple of 16

The loops test `region1 < end` once per block of sixteen bytes, from `region1` to
`end = region1 + length`. On any length they therefore act on `length` rounded up to whole
blocks: the last block reads and writes up to fifteen bytes past the end of the regions. -/

/-- `length` rounded up to whole blocks of sixteen bytes: what a loop to `region + length` covers. -/
def blocksLength (length : Nat) : Nat := 16 * ((length + 15) / 16)

theorem blocksLength_mod (length : Nat) : blocksLength length % 16 = 0 :=
  Nat.mul_mod_right 16 _

theorem le_blocksLength (length : Nat) : length ≤ blocksLength length := by
  unfold blocksLength; omega

theorem blocksLength_lt (length : Nat) : blocksLength length < length + 16 := by
  unfold blocksLength; omega

/-- From a block boundary on, the loop to `region1 + length` runs as the one to
`region1 + blocksLength length`: the two tests agree at every block boundary. -/
theorem maddrcLoop_blocksLength (t1 t2 : M128) (region1 length n : Nat) :
    ∀ k, blocksLength length = k + 16 * n → ∀ (mem : Mem) (region2 : Nat),
      maddrcLoop t1 t2 mem (region1 + k) region2 (region1 + length) =
        maddrcLoop t1 t2 mem (region1 + k) region2 (region1 + blocksLength length) := by
  have hle := le_blocksLength length
  have hlt := blocksLength_lt length
  induction n with
  | zero =>
    intro k hk mem region2
    rw [maddrcLoop.eq_1 t1 t2 mem _ _ (region1 + length),
      maddrcLoop.eq_1 t1 t2 mem _ _ (region1 + blocksLength length), if_neg (by omega),
      if_neg (by omega)]
  | succ n ih =>
    intro k hk mem region2
    rw [maddrcLoop.eq_1 t1 t2 mem _ _ (region1 + length),
      maddrcLoop.eq_1 t1 t2 mem _ _ (region1 + blocksLength length), if_pos (by omega),
      if_pos (by omega)]
    simp only [Nat.add_assoc, ih (k + 16) (by omega)]

theorem mulrcLoop_blocksLength (t1 t2 : M128) (region length n : Nat) :
    ∀ k, blocksLength length = k + 16 * n → ∀ mem : Mem,
      mulrcLoop t1 t2 mem (region + k) (region + length) =
        mulrcLoop t1 t2 mem (region + k) (region + blocksLength length) := by
  have hle := le_blocksLength length
  have hlt := blocksLength_lt length
  induction n with
  | zero =>
    intro k hk mem
    rw [mulrcLoop.eq_1 t1 t2 mem _ (region + length),
      mulrcLoop.eq_1 t1 t2 mem _ (region + blocksLength length), if_neg (by omega),
      if_neg (by omega)]
  | succ n ih =>
    intro k hk mem
    rw [mulrcLoop.eq_1 t1 t2 mem _ (region + length),
      mulrcLoop.eq_1 t1 t2 mem _ (region + blocksLength length), if_pos (by omega),
      if_pos (by omega)]
    simp only [Nat.add_assoc, ih (k + 16) (by omega)]

section Blocks

variable {tl th : BitVec 8 → M128}
  (htl : ∀ c (i : Fin 16), tl c i = gfMul c (BitVec.ofNat 8 i))
  (hth : ∀ c (i : Fin 16), th c i = gfMul c (BitVec.ofNat 8 i <<< 4))
  {xorrSse2 : Mem → Nat → Nat → Nat → Except Abort Mem}
  (c : BitVec 8) (hc0 : c ≠ 0) (hc1 : c ≠ 1) (mem : Mem) {region1 region2 length : Nat}
  (h1 : region1 % 16 = 0)
include htl hth hc0 hc1 h1

theorem mulrc256ShuffleSsse3_blocks :
    mulrc256ShuffleSsse3 tl th mem region1 c length =
      .ok (mulrcSpec mem region1 c (blocksLength length)) := by
  have hloop := mulrcLoop_blocksLength (tl c) (th c) region1 length (blocksLength length / 16) 0
    (by have := blocksLength_mod length; omega) mem
  rw [Nat.add_zero] at hloop
  rw [mulrc256ShuffleSsse3, if_neg hc0, if_neg hc1, hloop]
  exact mulrcLoop_spec c mem htl hth h1 (blocksLength_mod length)

/-- For a constant other than 0 and 1 the three kernels act on whole blocks, whatever the length:
they leave memory as the reference does over `length` rounded up to a multiple of 16, so the bytes
from `region1 + length` to the next multiple of 16 are overwritten too, and
`mulrc256_shuffle_sse3_x` copies `length` bytes but multiplies whole blocks. -/
theorem shuffle_kernels_act_on_whole_blocks (h2 : region2 % 16 = 0)
    (hdisj : region1 + blocksLength length ≤ region2 ∨ region2 + blocksLength length ≤ region1) :
    maddrc256ShuffleSsse3 tl th xorrSse2 mem region1 region2 c length =
        .ok (maddrcSpec mem region1 region2 c (blocksLength length)) ∧
      mulrc256ShuffleSsse3 tl th mem region1 c length =
        .ok (mulrcSpec mem region1 c (blocksLength length)) ∧
      mulrc256ShuffleSse3X tl th mem region1 region2 c length =
        .ok (mulrcSpec (memcpy mem region1 region2 length) region1 c (blocksLength length)) := by
  have hloop := maddrcLoop_blocksLength (tl c) (th c) region1 length (blocksLength length / 16) 0
    (by have := blocksLength_mod length; omega) mem region2
  rw [Nat.add_zero] at hloop
  refine ⟨?_, mulrc256ShuffleSsse3_blocks htl hth c hc0 hc1 mem h1,
    mulrc256ShuffleSsse3_blocks htl hth c hc0 hc1 _ h1⟩
  rw [maddrc256ShuffleSsse3, if_neg hc0, if_neg hc1, hloop]
  exact maddrcLoop_spec c mem htl hth h1 (blocksLength_mod length) h2 hdisj

end Blocks

/-- A one-byte region: the constant 2 multiplies the whole first block, fifteen bytes past the
end included. -/
theorem shuffle_kernels_act_on_whole_blocks_one_byte :
    maddrc256ShuffleSsse3 shuffleLowTable shuffleHighTable
        (fun mem region1 region2 length => .ok (xorRegion mem region1 region2 length))
        (fun _ => 1) 0 16 2 1 = .ok (maddrcSpec (fun _ => 1) 0 16 2 (blocksLength 1)) ∧
      mulrc256ShuffleSsse3 shuffleLowTable shuffleHighTable (fun _ => 1) 0 2 1 =
        .ok (mulrcSpec (fun _ => 1) 0 2 (blocksLength 1)) ∧
      mulrc256ShuffleSse3X shuffleLowTable shuffleHighTable (fun _ => 1) 0 16 2 1 =
        .ok (mulrcSpec (memcpy (fun _ => 1) 0 16 1) 0 2 (blocksLength 1)) :=
  shuffle_kernels_act_on_whole_blocks (fun _ _ => rfl) (fun _ _ => rfl) 2 (by decide) (by decide)
    (fun _ => 1) rfl rfl (Or.inl (by decide))

/-! ## Accumulating a linear combination

A parity shard is a GF(2^8) linear combination of the source shards: one
`maddrc256_shuffle_ssse3` call per source, all into the same destination. -/

/-- Modelled from the spec: `dst[i] ^= c_1 * src_1[i] ^ ... ^ c_k * src_k[i]` for `i < length`,
the sources given as constants and start addresses. -/
def linearCombination (mem : Mem) (dst length : Nat) (sources : List (BitVec 8 × Nat)) : Mem :=
  fun q => if dst ≤ q ∧ q < dst + length then
    sources.foldl (fun acc s => acc ^^^ gfMul s.1 (mem (q - dst + s.2))) (mem q) else mem q

section Accumulate

variable {tl th : BitVec 8 → M128}
  (htl : ∀ c (i : Fin 16), tl c i = gfMul c (BitVec.ofNat 8 i))
  (hth : ∀ c (i : Fin 16), th c i = gfMul c (BitVec.ofNat 8 i <<< 4))
  {xorrSse2 : Mem → Nat → Nat → Nat → Except Abort Mem}
  (hxorr : ∀ mem region1 region2 length,
    xorrSse2 mem region1 region2 length = .ok (xorRegion mem region1 region2 length))
  {dst length : Nat} (hdst : dst % 16 = 0) (hlen : length % 16 = 0)
include htl hth hxorr hdst hlen

/-- The calls, one per source in order, leave the destination holding the combination; sources
are aligned and disjoint from the destination, so no call changes what a later one reads. -/
theorem maddrc_accumulates (sources : List (BitVec 8 × Nat))
    (hsrc : ∀ s ∈ sources, s.2 % 16 = 0 ∧ (dst + length ≤ s.2 ∨ s.2 + length ≤ dst)) (mem : Mem) :
    sources.foldlM (fun mem s => maddrc256ShuffleSsse3 tl th xorrSse2 mem dst s.2 s.1 length) mem =
      .ok (linearCombination mem dst length sources) := by
  induction sources generalizing mem with
  | nil =>
    show Except.ok mem = _
    congr 1; funext q; simp only [linearCombination, List.foldl_nil, ite_self]
  | cons s sources ih =>
    obtain ⟨hs₂, hsd⟩ := hsrc s (List.mem_cons_self _ _)
    have hrest : ∀ s' ∈ sources, s'.2 % 16 = 0 ∧ (dst + length ≤ s'.2 ∨ s'.2 + length ≤ dst) :=
      fun s' hs' => hsrc s' (List.mem_cons_of_mem _ hs')
    rw [List.foldlM_cons, maddrc256ShuffleSsse3_spec htl hth s.1 mem hdst hlen hxorr hs₂ hsd]
    simp only [bind, Except.bind]
    rw [ih hrest]
    congr 1; funext q
    simp only [linearCombination, List.foldl_cons]
    split_ifs with hq
    · rw [show maddrcSpec mem dst s.2 s.1 length q = mem q ^^^ gfMul s.1 (mem (q - dst + s.2)) from
        if_pos hq]
      refine List.foldl_ext _ _ _ fun acc s' hs' => ?_
      have hd := (hrest s' hs').2
      simp only [maddrcSpec]
      rw [if_neg (by omega)]
    · exact if_neg hq

end Accumulate

/-- Constants 2 and 3 on the sources at 16 and 32, into the zeroed destination at 0. -/
theorem maddrc_accumulates_two_sources :
    ([(2, 16), (3, 32)] : List (BitVec 8 × Nat)).foldlM
        (fun mem s => maddrc256ShuffleSsse3 shuffleLowTable shuffleHighTable
          (fun mem region1 region2 length => .ok (xorRegion mem region1 region2 length))
          mem 0 s.2 s.1 16) (fun _ => 0) =
      .ok (linearCombination (fun _ => 0) 0 16 [(2, 16), (3, 32)]) :=
  maddrc_accumulates (fun _ _ => rfl) (fun _ _ => rfl) (fun _ _ _ _ => rfl) rfl rfl _ (by decide) _

end Wifibroadcast
