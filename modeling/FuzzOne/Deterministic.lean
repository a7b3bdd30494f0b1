import FuzzOne.BranchMask
/-!
# The walking-byte flips of the deterministic stage (afl-fuzz-one.c:2256-2346)

| here | there |
| --- | --- |
| `walkingFlipCandidates` | the loop shared by `bitflip 16/8` and `bitflip 32/8` |
| `bitflip16Candidates` | `bitflip 16/8` (afl-fuzz-one.c:2256-2298) |
| `bitflip32Candidates` | `bitflip 32/8` (afl-fuzz-one.c:2300-2346) |

Both stages flip `w` bytes at every `i < len - w + 1`, skip an `i` whose effector bytes are all
zero, and consult the branch mask; a stage's result is the list of candidates it hands to
`common_fuzz_stuff`, in order (`out_buf` is `in_buf` again after each one). `eff i` stands for
`eff_map[EFF_APOS(i)]`. The two stages differ in when they consult the mask:
`bitflip 32/8` when `rb_fuzzing` is set, `bitflip 16/8` when it is *not*. So in rare-branch mode
the 32-bit flips stay on bytes with `OVERWRITE_SAFE` (`bitflip32_respects_mask`), and the 16-bit
flips do not (`bitflip16_flips_unsafe_byte`).
-/
namespace FuzzOne

/-- The candidates of a walking flip of `w` bytes; the mask is consulted when `checkMask`. -/
def walkingFlipCandidates (w : Nat) (checkMask : Bool) (eff : Nat → Bool) (mask inBuf : Buf) :
    List Buf :=
  (List.range (inBuf.length - (w - 1))).filterMap fun i =>
    if (List.range w).all fun k => !eff (i + k) then none
    else if checkMask ∧ (List.range w).any fun k => mask.getD (i + k) 0 &&& 1 = 0 then none
    else some (storeLE inBuf i w (loadLE inBuf i w ^^^ (2 ^ (8 * w) - 1)))

/-- `bitflip 16/8`: the mask test sits under `if (!afl->rb_fuzzing)`. -/
def bitflip16Candidates (rbFuzzing : Nat) (eff : Nat → Bool) (mask inBuf : Buf) : List Buf :=
  if inBuf.length < 2 then [] else walkingFlipCandidates 2 (rbFuzzing == 0) eff mask inBuf

/-- `bitflip 32/8`: the mask test sits under `if (afl->rb_fuzzing)`. -/
def bitflip32Candidates (rbFuzzing : Nat) (eff : Nat → Bool) (mask inBuf : Buf) : List Buf :=
  if inBuf.length < 4 then [] else walkingFlipCandidates 4 (rbFuzzing != 0) eff mask inBuf

/-! ## Where a candidate differs from the input -/

theorem overwrite_getD_of_lt (buf src : Buf) {pos j : Nat} (hj : j < pos) (hp : pos ≤ buf.length) :
    (overwrite buf pos src).getD j 0 = buf.getD j 0 := by
  simp only [overwrite, List.getD_eq_getElem?_getD, List.append_assoc]
  rw [List.getElem?_append_left (by simp only [List.length_take]; omega), List.getElem?_take_of_lt hj]

theorem overwrite_getD_of_ge (buf src : Buf) {pos j : Nat} (hj : pos + src.length ≤ j)
    (hp : pos + src.length ≤ buf.length) : (overwrite buf pos src).getD j 0 = buf.getD j 0 := by
  simp only [overwrite, List.getD_eq_getElem?_getD, List.append_assoc]
  rw [List.getElem?_append_right (by simp only [List.length_take]; omega),
    List.getElem?_append_right (by simp only [List.length_take]; omega), List.getElem?_drop]
  congr 2
  simp only [List.length_take]; omega

/-- A `w`-byte store inside the buffer changes only the bytes `pos .. pos + w - 1`. -/
theorem storeLE_getD_ne {buf : Buf} {pos w v j : Nat} (hp : pos + w ≤ buf.length)
    (hj : (storeLE buf pos w v).getD j 0 ≠ buf.getD j 0) : pos ≤ j ∧ j < pos + w := by
  unfold storeLE at hj
  constructor
  · by_contra h
    exact hj (overwrite_getD_of_lt _ _ (by omega) (by omega))
  · by_contra h
    exact hj (overwrite_getD_of_ge _ _ (by rw [toBytesLE_length]; omega)
      (by rw [toBytesLE_length]; omega))

/-- Every candidate of a walking flip that consults the mask differs from the input only at
bytes below `len` with `OVERWRITE_SAFE`. -/
theorem walkingFlip_respects_mask {w : Nat} (hw : 1 ≤ w) (eff : Nat → Bool) (mask inBuf : Buf)
    {c : Buf} (hc : c ∈ walkingFlipCandidates w true eff mask inBuf) {j : Nat}
    (hj : c.getD j 0 ≠ inBuf.getD j 0) : j < inBuf.length ∧ mask.getD j 0 &&& 1 ≠ 0 := by
  simp only [walkingFlipCandidates, List.mem_filterMap, List.mem_range] at hc
  obtain ⟨i, hi, hsome⟩ := hc
  split_ifs at hsome with h1 h2
  cases hsome
  have hin := storeLE_getD_ne (by omega) hj
  refine ⟨by omega, fun h0 => h2 ⟨trivial, ?_⟩⟩
  exact List.any_eq_true.2 ⟨j - i, List.mem_range.2 (by omega), by
    rw [Nat.add_sub_cancel' hin.1]; exact decide_eq_true h0⟩

/-- **`bitflip 32/8` keeps to the mask** in rare-branch mode: every candidate differs from
`in_buf` only at bytes `i < len` with `OVERWRITE_SAFE`, for every input and mask. -/
theorem bitflip32_respects_mask {rbFuzzing : Nat} (hrb : rbFuzzing ≠ 0) (eff : Nat → Bool)
    (mask inBuf : Buf) {c : Buf} (hc : c ∈ bitflip32Candidates rbFuzzing eff mask inBuf) {j : Nat}
    (hj : c.getD j 0 ≠ inBuf.getD j 0) : j < inBuf.length ∧ mask.getD j 0 &&& 1 ≠ 0 := by
  unfold bitflip32Candidates at hc
  split_ifs at hc
  · cases hc
  · have hne : (rbFuzzing != 0) = true := by simpa using hrb
    rw [hne] at hc
    exact walkingFlip_respects_mask (by decide) eff mask inBuf hc hj

/-- `bitflip32_respects_mask` at rare branch `1` on a 5-byte input whose mask allows bytes 0-3:
the one candidate changes byte 0, which is allowed. -/
theorem bitflip32_respects_mask_at_five :
    (1 : Nat) ≠ 0 ∧
      [255, 255, 255, 255, 0] ∈ bitflip32Candidates 1 (fun _ => true) [1, 1, 1, 1, 0, 4]
        [0, 0, 0, 0, 0] ∧
      ([255, 255, 255, 255, 0] : Buf).getD 0 0 ≠ ([0, 0, 0, 0, 0] : Buf).getD 0 0 ∧
      (0 < ([0, 0, 0, 0, 0] : Buf).length ∧ ([1, 1, 1, 1, 0, 4] : Buf).getD 0 0 &&& 1 ≠ 0) :=
  ⟨by decide, by decide, by decide,
    @bitflip32_respects_mask 1 (by decide) (fun _ => true) [1, 1, 1, 1, 0, 4] [0, 0, 0, 0, 0]
      [255, 255, 255, 255, 0] (by decide) 0 (by decide)⟩

/-- **`bitflip 16/8` flips a byte the mask forbids.** In rare-branch mode, on the 2-byte input
whose built mask `[0, 1, 4]` allows only byte 1 (the oracle of the `FLIP_BIT1` run), the
stage executes `[255, 255]`: byte 0 changed without `OVERWRITE_SAFE`. -/
theorem bitflip16_flips_unsafe_byte :
    buildBranchMask (fun b => b == [0, 255] || b == [0, 0, 3]) [0, 0] (fun i => i.toUInt8 + 1) =
        [0, 1, 4] ∧
      bitflip16Candidates 1 (fun _ => true) [0, 1, 4] [0, 0] = [[255, 255]] ∧
      ([0, 1, 4] : Buf).getD 0 0 &&& overwriteSafe = 0 := by
  decide

end FuzzOne
