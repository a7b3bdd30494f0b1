import Mathlib.Tactic.Ring
import Mathlib.Algebra.BigOperators.Group.List
import FuzzOne.Deterministic
/-!
# The redundancy tests `could_be_bitflip`, `could_be_arith` and `could_be_interest`
(afl-fuzz-one.c:842-1051)

| here | there |
| --- | --- |
| `couldBeBitflip` | `could_be_bitflip` (afl-fuzz-one.c:842-874) |
| `walkingFlips` | the windows the bitflip stages make (afl-fuzz-one.c:1849-1856, 1858-2341) |
| `unitDiffs`, `couldBeArith` | the two loops and the tests of `could_be_arith` (afl-fuzz-one.c:879-978) |
| `couldBeInterest` | `could_be_interest` (afl-fuzz-one.c:985-1051) |
| `ArithEdit`, `InterestEdit` | what the arith and interest stages write over a window |

The arith and interest stages skip a candidate when one of these tests says an earlier stage
already ran it. The stages load a window little-endian (`*(u16 *)(out_buf + i)` on x86), and
`could_be_bitflip` tests the xor of the two loads as a number: a run of 1, 2 or 4 set bits
anywhere, or of 8, 16 or 32 at a multiple of 8. `FLIP_BIT` numbers the bits of the stream from
the top of each byte (`128 >> (b & 7)`), so a run of stream bits that crosses a byte boundary is
not a run of bits of the loaded number, and a run of bits of the number that crosses a byte
boundary is no walking flip (`couldBeBitflip_value_order`).

`could_be_arith` and `could_be_interest` read the numbers byte by byte (`old_val >> (8 * i)`,
`old_val & ~(0xff << (i * 8))`), and there the byte order of the loads is the window's: every
pair they accept is the old window with one edit the arith stages or the shorter interest
stages make (`couldBe_skip_tests_sound`). The bytes of a loaded window are read through
`loadLE_digits`, the masks through their bits (`maskInsert_byte`).
-/
namespace FuzzOne

/-! ## The bytes of a window -/

/-! ## The bytes of a loaded window -/

theorem toUInt8_toNat (n : Nat) : n.toUInt8.toNat = n % 256 := rfl

theorem UInt8.toNat_lt_256 (b : UInt8) : b.toNat < 256 := UInt8.toNat_lt_size b

theorem loadLE_succ (buf : Buf) (pos w : Nat) :
    loadLE buf pos (w + 1) = loadLE buf pos w + (buf.getD (pos + w) 0).toNat * 256 ^ w := by
  simp [loadLE, List.range_succ]

theorem loadLE_zero (buf : Buf) (pos : Nat) : loadLE buf pos 0 = 0 := rfl

/-- A window is its first byte plus `256` times the rest. -/
theorem loadLE_succ_head (buf : Buf) (pos w : Nat) :
    loadLE buf pos (w + 1) = (buf.getD pos 0).toNat + 256 * loadLE buf (pos + 1) w := by
  induction w with
  | zero => simp [loadLE_succ, loadLE_zero]
  | succ w ih =>
    rw [loadLE_succ, ih, loadLE_succ, show pos + (w + 1) = pos + 1 + w by omega, pow_succ]
    ring

theorem loadLE_lt (buf : Buf) (pos w : Nat) : loadLE buf pos w < 256 ^ w := by
  induction w with
  | zero => simp [loadLE_zero]
  | succ w ih =>
    have hb := UInt8.toNat_lt_256 (buf.getD (pos + w) 0)
    rw [loadLE_succ, pow_succ]
    have : (buf.getD (pos + w) 0).toNat * 256 ^ w ≤ 255 * 256 ^ w := Nat.mul_le_mul_right _ (by omega)
    omega

/-- A window of `q + r` bytes is its first `q` bytes plus `256 ^ q` times the next `r`. -/
theorem loadLE_add (buf : Buf) (pos q r : Nat) :
    loadLE buf pos (q + r) = loadLE buf pos q + 256 ^ q * loadLE buf (pos + q) r := by
  induction q generalizing pos with
  | zero => simp [loadLE_zero]
  | succ q ih =>
    rw [show q + 1 + r = (q + r) + 1 by omega, loadLE_succ_head, ih, loadLE_succ_head, pow_succ',
      show pos + 1 + q = pos + (q + 1) by omega]
    ring

/-- Bytes `p .. p + q - 1` of a window's value are the `q`-byte window at `p`. -/
theorem loadLE_digits (buf : Buf) {pos w p q : Nat} (h : p + q ≤ w) :
    loadLE buf pos w / 256 ^ p % 256 ^ q = loadLE buf (pos + p) q := by
  obtain ⟨r, rfl⟩ : ∃ r, w = p + (q + r) := ⟨w - p - q, by omega⟩
  rw [loadLE_add, loadLE_add, Nat.add_mul_div_left _ _ (pow_pos (by decide) _),
    Nat.div_eq_of_lt (loadLE_lt _ _ _), Nat.zero_add, Nat.add_mul_mod_self_left,
    Nat.mod_eq_of_lt (loadLE_lt _ _ _)]

theorem loadLE_one (buf : Buf) (pos : Nat) : loadLE buf pos 1 = (buf.getD pos 0).toNat := by
  simp [loadLE_succ, loadLE_zero]

/-- Byte `k` of a window's value is the window's byte `k`. -/
theorem loadLE_byte (buf : Buf) {pos w k : Nat} (hk : k < w) :
    loadLE buf pos w / 256 ^ k % 256 = (buf.getD (pos + k) 0).toNat := by
  have h := @loadLE_digits buf pos w k 1 (by omega)
  rwa [pow_one, loadLE_one] at h

theorem UInt8.eq_of_toNat_eq {a b : UInt8} (h : a.toNat = b.toNat) : a = b :=
  UInt8.eq_of_val_eq (Fin.eq_of_val_eq h)

/-- Two numbers below `256 ^ n` with the same `n` bytes are equal. -/
theorem eq_of_bytes : ∀ {n v v' : Nat}, v < 256 ^ n → v' < 256 ^ n →
    (∀ k < n, v / 256 ^ k % 256 = v' / 256 ^ k % 256) → v = v'
  | 0, v, v', h, h', _ => by simp only [pow_zero] at h h'; omega
  | n + 1, v, v', h, h', hb => by
    have h0 := hb 0 (by omega)
    simp only [pow_zero, Nat.div_one] at h0
    rw [pow_succ'] at h h'
    have hq : v / 256 = v' / 256 := eq_of_bytes (Nat.div_lt_of_lt_mul h) (Nat.div_lt_of_lt_mul h')
      fun k hk => by simpa only [Nat.div_div_eq_div_mul, ← pow_succ'] using hb (k + 1) (by omega)
    omega

/-- Two windows of one length with the same bytes are equal. -/
theorem buf_ext {W W' : Buf} (hl : W.length = W'.length) (h : ∀ k < W.length, W.getD k 0 = W'.getD k 0) :
    W = W' :=
  List.ext_getElem hl fun k h1 h2 => by
    have := h k h1
    rwa [List.getD_eq_getElem _ _ h1, List.getD_eq_getElem _ _ h2] at this

theorem toBytesLE_getD (w v k : Nat) (hk : k < w) :
    (toBytesLE w v).getD k 0 = (v / 256 ^ k % 256).toUInt8 := by
  simp [toBytesLE, List.getD_eq_getElem?_getD, hk]

/-- A window is the bytes of its own value. -/
theorem toBytesLE_loadLE {W : Buf} {n : Nat} (hl : W.length = n) : toBytesLE n (loadLE W 0 n) = W :=
  buf_ext (by rw [toBytesLE_length, hl]) fun k hk => by
    rw [toBytesLE_length] at hk
    rw [toBytesLE_getD _ _ _ hk, loadLE_byte _ hk, Nat.zero_add]
    exact UInt8.eq_of_toNat_eq (by rw [toUInt8_toNat, Nat.mod_eq_of_lt (UInt8.toNat_lt_256 _)])

theorem overwrite_getD_mid (buf src : Buf) {pos j : Nat} (hj : j < src.length)
    (hp : pos + src.length ≤ buf.length) : (overwrite buf pos src).getD (pos + j) 0 = src.getD j 0 := by
  simp only [overwrite, List.getD_eq_getElem?_getD, List.append_assoc]
  rw [List.getElem?_append_right (by simp only [List.length_take]; omega),
    List.getElem?_append_left (by simp only [List.length_take]; omega)]
  congr 2
  simp only [List.length_take]; omega

/-- The bytes of a `w`-byte little-endian store inside the buffer. -/
theorem storeLE_getD {buf : Buf} {pos w : Nat} (v : Nat) (hp : pos + w ≤ buf.length) (k : Nat) :
    (storeLE buf pos w v).getD k 0 =
      if pos ≤ k ∧ k < pos + w then (v / 256 ^ (k - pos) % 256).toUInt8 else buf.getD k 0 := by
  unfold storeLE
  split
  · rename_i h
    obtain ⟨j, rfl⟩ : ∃ j, k = pos + j := ⟨k - pos, by omega⟩
    rw [overwrite_getD_mid _ _ (by rw [toBytesLE_length]; omega) (by rw [toBytesLE_length]; omega),
      toBytesLE_getD _ _ _ (by omega), Nat.add_sub_cancel_left]
  · rename_i h
    rcases Nat.lt_or_ge k pos with hk | hk
    · exact overwrite_getD_of_lt _ _ hk (by omega)
    · exact overwrite_getD_of_ge _ _ (by rw [toBytesLE_length]; omega) (by rw [toBytesLE_length]; omega)

theorem storeLE_length {buf : Buf} {pos w : Nat} (v : Nat) (hp : pos + w ≤ buf.length) :
    (storeLE buf pos w v).length = buf.length :=
  overwrite_length _ _ _ (by rw [toBytesLE_length]; exact hp)

/-- The value of a number's own bytes. -/
theorem loadLE_toBytesLE {n v : Nat} (hv : v < 256 ^ n) : loadLE (toBytesLE n v) 0 n = v :=
  eq_of_bytes (loadLE_lt _ _ _) hv fun k hk => by
    rw [loadLE_byte _ hk, Nat.zero_add, toBytesLE_getD _ _ _ hk, toUInt8_toNat, Nat.mod_mod]

theorem swapLE_lt (w v : Nat) : swapLE w v < 256 ^ w := loadLE_lt _ _ _

/-- `SWAP16` and `SWAP32` undo themselves. -/
theorem swapLE_swapLE {w v : Nat} (hv : v < 256 ^ w) : swapLE w (swapLE w v) = v := by
  rw [swapLE, swapLE, toBytesLE_loadLE (by simp [toBytesLE_length]), List.reverse_reverse,
    loadLE_toBytesLE hv]

/-! ## `could_be_bitflip` -/

/-- The `while (!(xor_val & 1))` loop: the shift `sh` and what is left of `xor_val`. It runs
fewer than 32 times on a nonzero `u32`, which the fuel covers. -/
def shiftToFirstSet : Nat → Nat → Nat → Nat × Nat
  | 0, sh, xorVal => (sh, xorVal)
  | fuel + 1, sh, xorVal =>
    if xorVal &&& 1 = 0 then shiftToFirstSet fuel (sh + 1) (xorVal >>> 1) else (sh, xorVal)

/-- `could_be_bitflip(xor_val)`. -/
def couldBeBitflip (xorVal : Nat) : Bool :=
  if xorVal = 0 then true
  else
    let (sh, xorVal) := shiftToFirstSet 32 0 xorVal
    if xorVal = 1 ∨ xorVal = 3 ∨ xorVal = 15 then true
    else if sh &&& 7 ≠ 0 then false
    else xorVal = 0xff ∨ xorVal = 0xffff ∨ xorVal = 0xffffffff

/-- The windows a single walking flip of the bitflip stages turns `old` into, inside the window:
`FLIP_BIT` of `n ∈ {1, 2, 4}` consecutive stream bits from any bit (`bitflip 1/1`, `2/1`, `4/1`),
or `n` whole bytes from any byte xored with `0xFF` (`bitflip 8/8`, `16/8`, `32/8`). -/
def walkingFlips (old : Buf) : List Buf :=
  [1, 2, 4].flatMap (fun n => (List.range (8 * old.length + 1 - n)).map fun b =>
    (List.range n).foldl (fun buf k => flipBit buf (b + k)) old) ++
  [1, 2, 4].flatMap (fun n => (List.range (old.length + 1 - n)).map fun i =>
    (List.range n).foldl (fun buf k => buf.modify (· ^^^ 0xFF) (i + k)) old)

/-- **`could_be_bitflip` tests bits of the number, not of the stream.** On the 2-byte window
`[0, 0]`, the new bytes `[0x80, 0x01]` (loaded `0x180`) pass the test although no walking flip
makes them: they are stream bits 0 and 15. The 2-bit flip of stream bits 7 and 8 makes
`[0x01, 0x80]` (loaded `0x8001`), which fails it. -/
theorem couldBeBitflip_value_order :
    couldBeBitflip (loadLE [0, 0] 0 2 ^^^ loadLE [0x80, 0x01] 0 2) = true ∧
      [0x80, 0x01] ∉ walkingFlips [0, 0] ∧
      couldBeBitflip (loadLE [0, 0] 0 2 ^^^ loadLE [0x01, 0x80] 0 2) = false ∧
      [0x01, 0x80] ∈ walkingFlips [0, 0] := by
  decide

/-! ## `could_be_arith` -/

/-- A loop of `could_be_arith` over `count` units of `bits` bits (`old_val >> (bits * i)`, cast
to the unit): how many differ, and the last differing pair `(ov, nv)`, which start at the values
the earlier loop left. -/
def unitDiffs (bits count oldVal newVal ov nv : Nat) : Nat × Nat × Nat :=
  (List.range count).foldl (fun (diffs, ov, nv) i =>
    let a := (oldVal >>> (bits * i)) % 2 ^ bits
    let b := (newVal >>> (bits * i)) % 2 ^ bits
    if a ≠ b then (diffs + 1, a, b) else (diffs, ov, nv)) (0, ov, nv)

/-- `(uN)(a - b) <= ARITH_MAX || (uN)(b - a) <= ARITH_MAX` for `w`-byte units. -/
def arithNear (arithMax w a b : Nat) : Bool :=
  uN w ((a : Int) - b) ≤ arithMax || uN w ((b : Int) - a) ≤ arithMax

/-- `could_be_arith(old_val, new_val, blen)`; `ARITH_MAX` is a parameter. -/
def couldBeArith (arithMax oldVal newVal blen : Nat) : Bool :=
  if oldVal = newVal then true
  else
    let (diffs, ov, nv) := unitDiffs 8 blen oldVal newVal 0 0
    if diffs = 1 ∧ arithNear arithMax 1 ov nv then true
    else if blen = 1 then false
    else
      let (diffs, ov, nv) := unitDiffs 16 (blen / 2) oldVal newVal ov nv
      if diffs = 1 ∧ (arithNear arithMax 2 ov nv || arithNear arithMax 2 (swapLE 2 ov) (swapLE 2 nv))
      then true
      else blen = 4 ∧
        (arithNear arithMax 4 oldVal newVal || arithNear arithMax 4 (swapLE 4 oldVal) (swapLE 4 newVal))

/-- The units the loop finds different, in order. -/
def diffUnits (bits count oldVal newVal : Nat) : List Nat :=
  (List.range count).filter fun i => (oldVal >>> (bits * i)) % 2 ^ bits ≠ (newVal >>> (bits * i)) % 2 ^ bits

theorem unitDiffs_eq (bits count oldVal newVal ov nv : Nat) :
    unitDiffs bits count oldVal newVal ov nv =
      ((diffUnits bits count oldVal newVal).length,
       ((diffUnits bits count oldVal newVal).getLast?.map fun i => (oldVal >>> (bits * i)) % 2 ^ bits).getD ov,
       ((diffUnits bits count oldVal newVal).getLast?.map fun i => (newVal >>> (bits * i)) % 2 ^ bits).getD nv) := by
  induction count with
  | zero => rfl
  | succ n ih =>
    rw [unitDiffs, List.range_succ, List.foldl_append, ← unitDiffs, ih]
    simp only [diffUnits, List.range_succ, List.filter_append, List.filter_cons, List.filter_nil]
    by_cases h : (oldVal >>> (bits * n)) % 2 ^ bits = (newVal >>> (bits * n)) % 2 ^ bits <;> simp [h]

/-- When exactly one unit differs: which one, and that `(ov, nv)` is its pair. -/
theorem unitDiffs_one {bits count oldVal newVal ov nv : Nat}
    (h : (unitDiffs bits count oldVal newVal ov nv).1 = 1) :
    ∃ k < count, (oldVal >>> (bits * k)) % 2 ^ bits ≠ (newVal >>> (bits * k)) % 2 ^ bits ∧
      (∀ k' < count, k' ≠ k → (oldVal >>> (bits * k')) % 2 ^ bits = (newVal >>> (bits * k')) % 2 ^ bits) ∧
      (unitDiffs bits count oldVal newVal ov nv).2 =
        ((oldVal >>> (bits * k)) % 2 ^ bits, (newVal >>> (bits * k)) % 2 ^ bits) := by
  rw [unitDiffs_eq] at h ⊢
  obtain ⟨k, hk⟩ := List.length_eq_one.1 h
  have hmem : k ∈ diffUnits bits count oldVal newVal := hk ▸ List.mem_singleton_self k
  simp only [diffUnits, List.mem_filter, List.mem_range, decide_eq_true_eq] at hmem
  refine ⟨k, hmem.1, hmem.2, fun k' hk' hne => ?_, by simp [hk]⟩
  by_contra hd
  have : k' ∈ diffUnits bits count oldVal newVal := by
    simp only [diffUnits, List.mem_filter, List.mem_range, decide_eq_true_eq]; exact ⟨hk', hd⟩
  rw [hk, List.mem_singleton] at this
  exact hne this

theorem uN_eq (w : Nat) (x : Int) : uN w x = (x % ((256 ^ w : Nat) : Int)).toNat := by
  rw [uN, pow_mul]; norm_num

/-- Moving `ov` by the wrapped difference `(nv - ov) mod 256 ^ w` gives `nv`. -/
theorem uN_add_emod {w ov nv : Nat} (hnv : nv < 256 ^ w) :
    uN w (ov + (((nv : Int) - ov) % ((256 ^ w : Nat) : Int))) = nv := by
  rw [uN_eq, Int.emod_def ((nv : Int) - ov), show (ov : Int) + (nv - ov - (256 ^ w : Nat) *
      ((nv - ov) / (256 ^ w : Nat))) = nv + (256 ^ w : Nat) * -((nv - ov) / (256 ^ w : Nat)) by ring,
    Int.add_mul_emod_self_left, Int.emod_eq_of_lt (by omega) (by omega)]
  rfl

/-- Moving `ov` down by the wrapped difference `(ov - nv) mod 256 ^ w` gives `nv`. -/
theorem uN_sub_emod {w ov nv : Nat} (hnv : nv < 256 ^ w) :
    uN w (ov + -(((ov : Int) - nv) % ((256 ^ w : Nat) : Int))) = nv := by
  rw [uN_eq, Int.emod_def ((ov : Int) - nv), show (ov : Int) + -(ov - nv - (256 ^ w : Nat) *
      ((ov - nv) / (256 ^ w : Nat))) = nv + (256 ^ w : Nat) * ((ov - nv) / (256 ^ w : Nat)) by ring,
    Int.add_mul_emod_self_left, Int.emod_eq_of_lt (by omega) (by omega)]
  rfl

/-- A wrapped difference of two distinct units is not zero. -/
theorem emod_sub_ne_zero {w a b : Nat} (ha : a < 256 ^ w) (hb : b < 256 ^ w) (hne : a ≠ b) :
    ((a : Int) - b) % ((256 ^ w : Nat) : Int) ≠ 0 := fun h => by
  have := Int.emod_eq_emod_iff_emod_sub_eq_zero.2 h
  rw [Int.emod_eq_of_lt (by omega) (by omega), Int.emod_eq_of_lt (by omega) (by omega)] at this
  omega

/-- The test of `could_be_arith` on two distinct units: the new one is the old one moved by some
`j ∈ [1, ARITH_MAX]` up or down, wrapping. -/
theorem arithNear_move {arithMax w ov nv : Nat} (hov : ov < 256 ^ w) (hnv : nv < 256 ^ w)
    (hne : ov ≠ nv) (h : arithNear arithMax w ov nv = true) :
    ∃ j, 1 ≤ j ∧ j ≤ arithMax ∧ ∃ d : Int, (d = j ∨ d = -j) ∧ uN w (ov + d) = nv := by
  have hM : (0 : Int) < ((256 ^ w : Nat) : Int) := by exact_mod_cast pow_pos (by decide) w
  simp only [arithNear, Bool.or_eq_true, decide_eq_true_eq] at h
  rcases h with h | h
  · refine ⟨_, ?_, h, -(((ov : Int) - nv) % ((256 ^ w : Nat) : Int)), .inr ?_, uN_sub_emod hnv⟩
    · have := emod_sub_ne_zero hov hnv hne
      have := Int.emod_nonneg ((ov : Int) - nv) hM.ne'
      rw [uN_eq]; omega
    · rw [uN_eq, Int.toNat_of_nonneg (Int.emod_nonneg _ hM.ne')]
  · refine ⟨_, ?_, h, ((nv : Int) - ov) % ((256 ^ w : Nat) : Int), .inl ?_, uN_add_emod hnv⟩
    · have := emod_sub_ne_zero hnv hov (Ne.symm hne)
      have := Int.emod_nonneg ((nv : Int) - ov) hM.ne'
      rw [uN_eq]; omega
    · rw [uN_eq, Int.toNat_of_nonneg (Int.emod_nonneg _ hM.ne')]

/-- What the arith stages write over a window `W` (afl-fuzz-one.c:2356-2700): one byte, one
16-bit word at an even offset in either byte order, or the whole 4-byte window in either byte
order, moved by some `j ∈ [1, ARITH_MAX]` up or down, wrapping. -/
def ArithEdit (arithMax : Nat) (W W' : Buf) : Prop :=
  ∃ j, 1 ≤ j ∧ j ≤ arithMax ∧ ∃ d : Int, (d = j ∨ d = -j) ∧
    ((∃ k < W.length, W' = storeLE W k 1 (uN 1 (loadLE W k 1 + d))) ∨
     (∃ m, 2 * m + 2 ≤ W.length ∧ (W' = storeLE W (2 * m) 2 (uN 2 (loadLE W (2 * m) 2 + d)) ∨
        W' = storeLE W (2 * m) 2 (swapLE 2 (uN 2 (swapLE 2 (loadLE W (2 * m) 2) + d))))) ∨
     (W.length = 4 ∧ (W' = toBytesLE 4 (uN 4 (loadLE W 0 4 + d)) ∨
        W' = toBytesLE 4 (swapLE 4 (uN 4 (swapLE 4 (loadLE W 0 4) + d))))))

theorem toBytesLE_byte {w k : Nat} (v : Nat) (hk : k < w) :
    ((toBytesLE w v).getD k 0).toNat = v / 256 ^ k % 256 := by
  rw [toBytesLE_getD _ _ _ hk, toUInt8_toNat, Nat.mod_mod]

/-- A unit that is near in value, directly or through its byte swap, is reached by one step `d`
of the arith stage, on the value or on its swap. -/
theorem arithNear_swap_move {arithMax w ov nv : Nat} (hov : ov < 256 ^ w) (hnv : nv < 256 ^ w)
    (hne : ov ≠ nv)
    (h : (arithNear arithMax w ov nv || arithNear arithMax w (swapLE w ov) (swapLE w nv)) = true) :
    ∃ j, 1 ≤ j ∧ j ≤ arithMax ∧ ∃ d : Int, (d = j ∨ d = -j) ∧
      (uN w (ov + d) = nv ∨ swapLE w (uN w (swapLE w ov + d)) = nv) := by
  rcases Bool.or_eq_true _ _ ▸ h with hn | hn
  · obtain ⟨j, hj1, hj2, d, hd, hmove⟩ := arithNear_move hov hnv hne hn
    exact ⟨j, hj1, hj2, d, hd, .inl hmove⟩
  · obtain ⟨j, hj1, hj2, d, hd, hmove⟩ := arithNear_move (swapLE_lt _ _) (swapLE_lt _ _)
      (fun e => hne (by rw [← swapLE_swapLE hov, e, swapLE_swapLE hnv])) hn
    exact ⟨j, hj1, hj2, d, hd, .inr (by rw [hmove, swapLE_swapLE hnv])⟩

/-- A unit of the loops is a run of whole bytes. -/
theorem unit_eq_digits (v u i : Nat) : (v >>> (8 * u * i)) % 2 ^ (8 * u) = v / 256 ^ (u * i) % 256 ^ u := by
  rw [Nat.shiftRight_eq_div_pow, pow_mul, pow_mul, ← pow_mul (2 ^ 8)]; norm_num

theorem unit8_eq (v i : Nat) : (v >>> (8 * i)) % 2 ^ 8 = v / 256 ^ i % 256 := by
  simpa using unit_eq_digits v 1 i

theorem unit16_eq (v i : Nat) : (v >>> (16 * i)) % 2 ^ 16 = v / 256 ^ (2 * i) % 256 ^ 2 :=
  unit_eq_digits v 2 i

/-- Byte `t` of the low `u` bytes of a number. -/
theorem digits_byte (x : Nat) {u t : Nat} (ht : t < u) : x % 256 ^ u / 256 ^ t % 256 = x / 256 ^ t % 256 := by
  rw [show u = t + (u - t) by omega, pow_add, Nat.mod_mul_right_div_self,
    Nat.mod_mod_of_dvd _ (dvd_pow_self 256 (by omega))]

/-- Byte `i` of a number, read in the run of `u` bytes at `p` that holds it. -/
theorem byte_in_digits (x : Nat) {u p i : Nat} (hi : p ≤ i ∧ i < p + u) :
    x / 256 ^ i % 256 = x / 256 ^ p % 256 ^ u / 256 ^ (i - p) % 256 := by
  rw [digits_byte _ (by omega), Nat.div_div_eq_div_mul, ← pow_add, Nat.add_sub_cancel' hi.1]

/-- The bytes of `new` are those of `old` with a `u`-byte store of `X` at `p`. -/
theorem toBytesLE_eq_storeLE {n old new p u X : Nat} (hp : p + u ≤ n)
    (hX : ∀ i < n, p ≤ i → i < p + u → new / 256 ^ i % 256 = X / 256 ^ (i - p) % 256)
    (hrest : ∀ i < n, ¬(p ≤ i ∧ i < p + u) → new / 256 ^ i % 256 = old / 256 ^ i % 256) :
    toBytesLE n new = storeLE (toBytesLE n old) p u X :=
  buf_ext (by rw [storeLE_length _ (by rw [toBytesLE_length]; exact hp)]; simp [toBytesLE_length])
    fun i hi => by
      rw [toBytesLE_length] at hi
      rw [storeLE_getD _ (by rw [toBytesLE_length]; exact hp)]
      split
      · rename_i h
        exact UInt8.eq_of_toNat_eq (by rw [toBytesLE_byte _ hi, toUInt8_toNat, hX i hi h.1 h.2, Nat.mod_mod])
      · rename_i h
        exact UInt8.eq_of_toNat_eq (by rw [toBytesLE_byte _ hi, toBytesLE_byte _ hi, hrest i hi h])

/-- **`could_be_arith` only accepts what the arith stages write.** -/
theorem couldBeArith_sound {arithMax blen oldVal newVal : Nat} (hb : blen = 1 ∨ blen = 2 ∨ blen = 4)
    (hold : oldVal < 256 ^ blen) (hnew : newVal < 256 ^ blen)
    (h : couldBeArith arithMax oldVal newVal blen = true) :
    newVal = oldVal ∨ ArithEdit arithMax (toBytesLE blen oldVal) (toBytesLE blen newVal) := by
  have hl : (toBytesLE blen oldVal).length = blen := toBytesLE_length _ _
  unfold couldBeArith at h
  split at h
  · exact .inl (Eq.symm ‹_›)
  rename_i hne
  right
  rcases hu : unitDiffs 8 blen oldVal newVal 0 0 with ⟨d1, ov, nv⟩
  rw [hu] at h
  dsimp only at h
  split at h
  · -- one byte differs
    rename_i hd
    obtain ⟨k, hk, hkne, hrest, hpair⟩ := unitDiffs_one (hu ▸ hd.1 : (unitDiffs 8 blen oldVal newVal 0 0).1 = 1)
    rw [hu] at hpair
    simp only [Prod.mk.injEq, unit8_eq] at hpair hkne hrest
    obtain ⟨rfl, rfl⟩ := hpair
    obtain ⟨j, hj1, hj2, d, hd', hmove⟩ :=
      arithNear_move (by simpa using Nat.mod_lt _ (by decide : 0 < 256))
        (by simpa using Nat.mod_lt _ (by decide : 0 < 256)) hkne hd.2
    refine ⟨j, hj1, hj2, d, hd', .inl ⟨k, by rw [hl]; exact hk, ?_⟩⟩
    rw [loadLE_one, toBytesLE_byte _ hk, hmove]
    refine toBytesLE_eq_storeLE (by omega) (fun i _ h1 h2 => ?_) fun i hi h => (hrest i hi (by omega)).symm
    obtain rfl : i = k := by omega
    simp
  split at h
  · exact absurd h (by decide)
  rename_i hb1
  have hev : 2 * (blen / 2) = blen := by omega
  rcases hu2 : unitDiffs 16 (blen / 2) oldVal newVal ov nv with ⟨d2, ov2, nv2⟩
  rw [hu2] at h
  dsimp only at h
  split at h
  · -- one 16-bit word differs
    rename_i hd
    obtain ⟨m, hm, hmne, hrest, hpair⟩ :=
      unitDiffs_one (hu2 ▸ hd.1 : (unitDiffs 16 (blen / 2) oldVal newVal ov nv).1 = 1)
    rw [hu2] at hpair
    simp only [Prod.mk.injEq, unit16_eq] at hpair hmne hrest
    obtain ⟨rfl, rfl⟩ := hpair
    have h2m : 2 * m + 2 ≤ blen := by omega
    have hload : loadLE (toBytesLE blen oldVal) (2 * m) 2 = oldVal / 256 ^ (2 * m) % 256 ^ 2 := by
      have := @loadLE_digits (toBytesLE blen oldVal) 0 blen (2 * m) 2 h2m
      rwa [loadLE_toBytesLE hold, Nat.zero_add, eq_comm] at this
    have hword : ∀ X, X = newVal / 256 ^ (2 * m) % 256 ^ 2 →
        toBytesLE blen newVal = storeLE (toBytesLE blen oldVal) (2 * m) 2 X := fun X hX =>
      toBytesLE_eq_storeLE h2m (fun i _ h1 h2 => by rw [hX, byte_in_digits newVal ⟨h1, h2⟩])
        fun i hi h => by
          rw [@byte_in_digits newVal 2 (2 * (i / 2)) i ⟨by omega, by omega⟩,
            @byte_in_digits oldVal 2 (2 * (i / 2)) i ⟨by omega, by omega⟩,
            hrest (i / 2) (by omega) (by omega)]
    obtain ⟨j, hj1, hj2, d, hd', hmove⟩ :=
      arithNear_swap_move (Nat.mod_lt _ (by decide)) (Nat.mod_lt _ (by decide)) hmne hd.2
    refine ⟨j, hj1, hj2, d, hd', .inr (.inl ⟨m, by rw [hl]; exact h2m, ?_⟩)⟩
    rw [hload]
    exact hmove.imp (hword _) (hword _)
  · -- the whole dword
    simp only [Bool.and_eq_true, decide_eq_true_eq] at h
    obtain ⟨rfl, hn⟩ := h
    obtain ⟨j, hj1, hj2, d, hd', hmove⟩ := arithNear_swap_move hold hnew hne hn
    refine ⟨j, hj1, hj2, d, hd', .inr (.inr ⟨hl, ?_⟩)⟩
    rw [loadLE_toBytesLE hold]
    exact hmove.imp (fun e => by rw [e]) fun e => by rw [e]

/-! ## `could_be_interest` -/

/-- `~x` on a `u32`. -/
def u32Compl (x : Nat) : Nat := 0xffffffff ^^^ x

/-- Bit `j` of byte `e` of a number. -/
theorem byte_testBit (y e j : Nat) :
    (y / 256 ^ e % 256).testBit j = (decide (j < 8) && y.testBit (8 * e + j)) := by
  rw [show (256 : Nat) = 2 ^ 8 from rfl, ← pow_mul, Nat.testBit_mod_two_pow, ← Nat.shiftRight_eq_div_pow,
    Nat.testBit_shiftRight]

/-- `(x & ~(mask << (i * 8))) | (v << (i * 8))` with an `n`-byte mask stores the `n` bytes of `v`
at byte `i` of `x`. -/
theorem maskInsert_byte {x v n i k : Nat} (hv : v < 2 ^ (8 * n)) (hk : k < 4) :
    ((x &&& u32Compl ((2 ^ (8 * n) - 1) <<< (i * 8))) ||| (v <<< (i * 8))) / 256 ^ k % 256 =
      if i ≤ k ∧ k < i + n then v / 256 ^ (k - i) % 256 else x / 256 ^ k % 256 := by
  apply Nat.eq_of_testBit_eq
  intro j
  rw [byte_testBit]
  simp only [u32Compl, show (0xffffffff : Nat) = 2 ^ 32 - 1 from rfl, Nat.testBit_or, Nat.testBit_and,
    Nat.testBit_xor, Nat.testBit_shiftLeft, Nat.testBit_two_pow_sub_one]
  by_cases hj : j < 8
  · split
    · rename_i h
      rw [byte_testBit, show 8 * k + j - i * 8 = 8 * (k - i) + j by omega]
      simp [hj, show 8 * k + j < 32 by omega, show i * 8 ≤ 8 * k + j by omega,
        show 8 * (k - i) + j < 8 * n by omega]
    · rename_i h
      rw [byte_testBit]
      rcases Nat.lt_or_ge k i with hki | hki
      · simp [hj, show 8 * k + j < 32 by omega, show ¬ i * 8 ≤ 8 * k + j by omega]
      · have hb : v.testBit (8 * k + j - i * 8) = false :=
          Nat.testBit_lt_two_pow (lt_of_lt_of_le hv (Nat.pow_le_pow_right (by decide) (by omega)))
        simp [hj, hb, show 8 * k + j < 32 by omega, show ¬ 8 * k + j - i * 8 < 8 * n by omega]
  · simp only [hj, decide_False, Bool.false_and]
    split <;> rw [byte_testBit] <;> simp [hj]

/-- `could_be_interest(old_val, new_val, blen, check_le)`; the three tables are parameters. -/
def couldBeInterest (interesting8 interesting16 interesting32 : List Int) (oldVal newVal blen : Nat)
    (checkLe : Bool) : Bool :=
  if oldVal = newVal then true
  else if (List.range blen).any fun i => interesting8.any fun v =>
      newVal == ((oldVal &&& u32Compl (0xff <<< (i * 8))) ||| (uN 1 v <<< (i * 8))) then true
  else if blen = 2 ∧ !checkLe then false
  else if (List.range (blen - 1)).any fun i => interesting16.any fun v =>
      newVal == ((oldVal &&& u32Compl (0xffff <<< (i * 8))) ||| (uN 2 v <<< (i * 8))) ||
      (2 < blen && newVal == ((oldVal &&& u32Compl (0xffff <<< (i * 8))) ||| (swapLE 2 (uN 2 v) <<< (i * 8))))
  then true
  else blen = 4 && checkLe && interesting32.any fun v => newVal == uN 4 v

/-- What the interest stages write over a window `W` (afl-fuzz-one.c:2720-2990) that
`could_be_interest` looks for: one byte set to an `interesting_8` value; for `blen = 4`, or
`blen = 2` with `check_le`, an `interesting_16` value stored little-endian at any offset inside
the window, or big-endian for `blen = 4`; for `blen = 4` with `check_le`, the window set to an
`interesting_32` value. -/
def InterestEdit (interesting8 interesting16 interesting32 : List Int) (checkLe : Bool)
    (W W' : Buf) : Prop :=
  (∃ k < W.length, ∃ v ∈ interesting8, W' = storeLE W k 1 (uN 1 v)) ∨
  ((W.length = 4 ∨ W.length = 2 ∧ checkLe = true) ∧ ∃ k, k + 2 ≤ W.length ∧ ∃ v ∈ interesting16,
    W' = storeLE W k 2 (uN 2 v) ∨ W.length = 4 ∧ W' = storeLE W k 2 (swapLE 2 (uN 2 v))) ∨
  (W.length = 4 ∧ checkLe = true ∧ ∃ v ∈ interesting32, W' = toBytesLE 4 (uN 4 v))

theorem uN_lt (w : Nat) (x : Int) : uN w x < 2 ^ (8 * w) := by
  have e : ((2 : Int) ^ (8 * w)) = ((2 ^ (8 * w) : Nat) : Int) := by norm_cast
  have h : (0 : Int) < ((2 ^ (8 * w) : Nat) : Int) := by exact_mod_cast Nat.pos_pow_of_pos _ (by decide)
  have := Int.emod_lt_of_pos x h
  have := Int.emod_nonneg x h.ne'
  unfold uN
  rw [e]
  omega

/-- An `n`-byte mask-and-insert at byte `i` of `old`, as the bytes of a `blen`-byte window. -/
theorem maskInsert_toBytesLE {blen old new v n i : Nat} (hblen : blen ≤ 4) (hin : i + n ≤ blen)
    (hv : v < 2 ^ (8 * n))
    (heq : new = (old &&& u32Compl ((2 ^ (8 * n) - 1) <<< (i * 8))) ||| (v <<< (i * 8))) :
    toBytesLE blen new = storeLE (toBytesLE blen old) i n v :=
  toBytesLE_eq_storeLE hin
    (fun k hk h1 h2 => by rw [heq, maskInsert_byte hv (by omega), if_pos ⟨h1, h2⟩])
    (fun k hk h => by rw [heq, maskInsert_byte hv (by omega), if_neg h])

/-- **`could_be_interest` only accepts what the interest stages write.** -/
theorem couldBeInterest_sound {interesting8 interesting16 interesting32 : List Int}
    {blen oldVal newVal : Nat} {checkLe : Bool} (hb : blen = 1 ∨ blen = 2 ∨ blen = 4)
    (h : couldBeInterest interesting8 interesting16 interesting32 oldVal newVal blen checkLe = true) :
    newVal = oldVal ∨
      InterestEdit interesting8 interesting16 interesting32 checkLe (toBytesLE blen oldVal)
        (toBytesLE blen newVal) := by
  have hl : (toBytesLE blen oldVal).length = blen := toBytesLE_length _ _
  have h4 : blen ≤ 4 := by omega
  unfold couldBeInterest at h
  split at h
  · exact .inl (Eq.symm ‹_›)
  right
  split at h
  · -- one byte
    rename_i hany
    simp only [List.any_eq_true, List.mem_range, beq_iff_eq] at hany
    obtain ⟨i, hi, v, hv, heq⟩ := hany
    exact .inl ⟨i, by rw [hl]; exact hi, v, hv, maskInsert_toBytesLE h4 (by omega) (uN_lt 1 v) heq⟩
  split at h
  · exact absurd h (by decide)
  rename_i hle
  split at h
  · -- one 16-bit word
    rename_i hany
    simp only [List.any_eq_true, List.mem_range, Bool.or_eq_true, Bool.and_eq_true, beq_iff_eq,
      decide_eq_true_eq] at hany
    obtain ⟨i, hi, v, hv, heq | ⟨h2, heq⟩⟩ := hany
    · refine .inr (.inl ⟨?_, i, by rw [hl]; omega, v, hv,
        .inl (maskInsert_toBytesLE h4 (by omega) (uN_lt 2 v) heq)⟩)
      rw [hl]
      rcases hb with rfl | rfl | rfl
      · omega
      · cases checkLe
        · exact absurd ⟨rfl, rfl⟩ hle
        · exact .inr ⟨rfl, rfl⟩
      · exact .inl rfl
    · refine .inr (.inl ⟨by rw [hl]; omega, i, by rw [hl]; omega, v, hv,
        .inr ⟨by rw [hl]; omega, maskInsert_toBytesLE h4 (by omega) (swapLE_lt 2 _) heq⟩⟩)
  · simp only [Bool.and_eq_true, decide_eq_true_eq, List.any_eq_true, beq_iff_eq] at h
    obtain ⟨⟨rfl, hc⟩, v, hv, heq⟩ := h
    exact .inr (.inr ⟨hl, hc, v, hv, by rw [heq]⟩)

/-! ## The tests accept only earlier stages' edits -/

/-- **`could_be_arith` and `could_be_interest` are sound.** For windows of 1, 2 or 4 bytes, a pair
that `could_be_arith` accepts is equal or one arith-stage edit apart, and a pair that
`could_be_interest` accepts is equal or one interest edit apart, of the kinds the test's
`blen` and `check_le` allow. -/
theorem couldBe_skip_tests_sound (arithMax : Nat) (interesting8 interesting16 interesting32 : List Int)
    (blen oldVal newVal : Nat) (checkLe : Bool) (hb : blen = 1 ∨ blen = 2 ∨ blen = 4)
    (hold : oldVal < 256 ^ blen) (hnew : newVal < 256 ^ blen) :
    (couldBeArith arithMax oldVal newVal blen = true →
      newVal = oldVal ∨ ArithEdit arithMax (toBytesLE blen oldVal) (toBytesLE blen newVal)) ∧
    (couldBeInterest interesting8 interesting16 interesting32 oldVal newVal blen checkLe = true →
      newVal = oldVal ∨ InterestEdit interesting8 interesting16 interesting32 checkLe
        (toBytesLE blen oldVal) (toBytesLE blen newVal)) :=
  ⟨couldBeArith_sound hb hold hnew, couldBeInterest_sound hb⟩

/-- `couldBe_skip_tests_sound` on the 2-byte window `0x1234` moved to `0x1235`, with
`ARITH_MAX = 35`. -/
theorem couldBe_skip_tests_sound_word :
    (2 = 1 ∨ 2 = 2 ∨ 2 = 4) ∧ 0x1234 < 256 ^ 2 ∧ 0x1235 < 256 ^ 2 ∧
      couldBeArith 35 0x1234 0x1235 2 = true ∧
      ((0x1235 : Nat) = 0x1234 ∨ ArithEdit 35 (toBytesLE 2 0x1234) (toBytesLE 2 0x1235)) :=
  ⟨by decide, by decide, by decide, by decide,
    (couldBe_skip_tests_sound 35 [] [] [] 2 0x1234 0x1235 false (by decide) (by decide) (by decide)).1
      (by decide)⟩

end FuzzOne
