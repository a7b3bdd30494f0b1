import FuzzOne.Basic
/-!
# Rare-branch trimming: `trim_case_rb` and its caller (afl-fuzz-one.c:1204-1302, 1688-1706)

| here | there |
| --- | --- |
| `TrimCfg` | `TRIM_START_STEPS`, `TRIM_END_STEPS`, `TRIM_MIN_BYTES` (`config.h`) |
| `nextP2` | `next_p2` (`afl-fuzz.h`) |
| `trimInner`, `trimOuter`, `trimCaseRb` | `trim_case_rb` |
| `rbTrimStep` | the `@RB@ TRIM` step of `fuzz_one_original` (afl-fuzz-one.c:1688-1706) |
| `TrimKept` | what the trim has kept: the input, or a candidate on which the branch was hit |

The executor enters as an oracle on the candidate bytes: `none` when `common_fuzz_stuff`
abandons (or `stop_soon` is set), `some b` when it ran and `hits_branch` answered `b`. Both
loops are given fuel; every inner round removes a byte or moves `remove_pos` on, and the outer
loop halves `remove_len` (`trimInner_isSome`, `trimOuter_isSome`).

`trim_case_rb` removes a window by `memmove` *inside* `in_buf`, the buffer `queue_testcase_get`
returned (`trimCaseRb_writes_in_buf`). It returns `0` both for an input under 5 bytes and for one
trimmed to nothing, and the caller reads `0` as "not trimmed": it keeps the old `len` over bytes
the trim has already shifted (`rbTrimStep_keeps_len_over_shifted_bytes`).

Every round that accepts a candidate moves the tail over the removed window, so `in_buf` then
starts with that candidate: what the trim returns is the input or a candidate on which the
oracle saw the branch hit (`trimCaseRb_keeps_branch`).
-/
namespace FuzzOne

/-- The trim constants; the loops need `TRIM_MIN_BYTES ≥ 1` to move on. -/
structure TrimCfg where
  startSteps : Nat
  endSteps : Nat
  minBytes : Nat
  one_le_minBytes : 1 ≤ minBytes

/-- `next_p2(val)`: the least power of two that is at least `val` (`1` for `0`). -/
def nextP2 (val : Nat) : Nat := go 32 1
where
  go : Nat → Nat → Nat
    | 0, ret => ret
    | fuel + 1, ret => if ret < val then go fuel (ret * 2) else ret

/-- The candidate of a round: `in_buf` without the `trim_avail` bytes at `remove_pos`. -/
def trimCandidate (inBuf : Buf) (inLen removePos trimAvail : Nat) : Buf :=
  inBuf.take removePos ++ (inBuf.drop (removePos + trimAvail)).take (inLen - removePos - trimAvail)

/-- The inner `while (remove_pos < in_len)`: `(in_buf, in_len, len_p2)` and whether the loop ended
normally (`false` for `goto abort_rb_trimming`); `none` when the fuel runs out. -/
def trimInner (hits : Buf → Option Bool) (removeLen : Nat) :
    Nat → Buf → Nat → Nat → Nat → Option ((Buf × Nat × Nat) × Bool)
  | 0, _, _, _, _ => none
  | fuel + 1, inBuf, inLen, lenP2, removePos =>
    if removePos < inLen then
      let trimAvail := min removeLen (inLen - removePos)
      match hits (trimCandidate inBuf inLen removePos trimAvail) with
      | none => some ((inBuf, inLen, lenP2), false)
      | some true =>
        let moveTail := inLen - removePos - trimAvail
        let inBuf := memmove inBuf removePos (removePos + trimAvail) moveTail
        trimInner hits removeLen fuel inBuf (inLen - trimAvail) (nextP2 (inLen - trimAvail)) removePos
      | some false => trimInner hits removeLen fuel inBuf inLen lenP2 (removePos + removeLen)
    else some ((inBuf, inLen, lenP2), true)

/-- The outer `while`, halving `remove_len`: the final `(in_buf, in_len)`. -/
def trimOuter (cfg : TrimCfg) (hits : Buf → Option Bool) :
    Nat → Buf → Nat → Nat → Nat → Option (Buf × Nat)
  | 0, _, _, _, _ => none
  | fuel + 1, inBuf, inLen, lenP2, removeLen =>
    if max (lenP2 / cfg.endSteps) cfg.minBytes ≤ removeLen then
      match trimInner hits removeLen (inLen + 1) inBuf inLen lenP2 0 with
      | none => none
      | some ((inBuf, inLen, _), false) => some (inBuf, inLen)
      | some ((inBuf, inLen, lenP2), true) => trimOuter cfg hits fuel inBuf inLen lenP2 (removeLen / 2)
    else some (inBuf, inLen)

/-- `trim_case_rb(afl, in_buf, in_len, out_buf)`: `in_buf` after the call and the returned length. -/
def trimCaseRb (cfg : TrimCfg) (rbFuzzing : Nat) (hits : Buf → Option Bool) (inBuf : Buf)
    (inLen : Nat) : Option (Buf × Nat) :=
  if rbFuzzing = 0 then some (inBuf, inLen)
  else if inLen < 5 then some (inBuf, 0)
  else
    let lenP2 := nextP2 inLen
    let removeLen := max (lenP2 / cfg.startSteps) cfg.minBytes
    trimOuter cfg hits (removeLen + 1) inBuf inLen lenP2 removeLen

/-- The rare-branch trim step: the `in_buf` and `len` that `fuzz_one_original` goes on with. -/
def rbTrimStep (cfg : TrimCfg) (rbFuzzing : Nat) (trimForBranch : Bool) (hits : Buf → Option Bool)
    (inBuf : Buf) (len : Nat) : Option (Buf × Nat) :=
  if rbFuzzing ≠ 0 ∧ trimForBranch then
    (trimCaseRb cfg rbFuzzing hits inBuf len).map fun (buf, trimLen) =>
      (buf, if 0 < trimLen then trimLen else len)
  else some (inBuf, len)

/-! ## The loops terminate -/

/-- Every inner round removes a byte or moves `remove_pos` on: `in_len - remove_pos` rounds do. -/
theorem trimInner_isSome (hits : Buf → Option Bool) {removeLen : Nat} (hr : 1 ≤ removeLen) :
    ∀ (fuel : Nat) (inBuf : Buf) (inLen lenP2 removePos : Nat), inLen - removePos < fuel →
      (trimInner hits removeLen fuel inBuf inLen lenP2 removePos).isSome
  | 0, _, _, _, _, h => absurd h (Nat.not_lt_zero _)
  | fuel + 1, inBuf, inLen, lenP2, removePos, h => by
    unfold trimInner
    split
    · rename_i hpos
      dsimp only
      split
      · rfl
      · exact trimInner_isSome hits hr fuel _ _ _ _ (by omega)
      · exact trimInner_isSome hits hr fuel _ _ _ _ (by omega)
    · rfl

/-- The outer loop halves `remove_len`, which stays at least `TRIM_MIN_BYTES ≥ 1` inside it. -/
theorem trimOuter_isSome (cfg : TrimCfg) (hits : Buf → Option Bool) :
    ∀ (fuel : Nat) (inBuf : Buf) (inLen lenP2 removeLen : Nat), removeLen < fuel →
      (trimOuter cfg hits fuel inBuf inLen lenP2 removeLen).isSome
  | 0, _, _, _, _, h => absurd h (Nat.not_lt_zero _)
  | fuel + 1, inBuf, inLen, lenP2, removeLen, h => by
    unfold trimOuter
    split
    · rename_i hle
      have hr : 1 ≤ removeLen := le_trans cfg.one_le_minBytes (le_trans (le_max_right _ _) hle)
      have hin := trimInner_isSome hits hr (inLen + 1) inBuf inLen lenP2 0 (by omega)
      split
      · rename_i e; rw [e] at hin; cases hin
      · rfl
      · exact trimOuter_isSome cfg hits fuel _ _ _ _ (by omega)
    · rfl

/-- `trim_case_rb` returns, whatever the oracle. -/
theorem trimCaseRb_isSome (cfg : TrimCfg) (rbFuzzing : Nat) (hits : Buf → Option Bool)
    (inBuf : Buf) (inLen : Nat) : (trimCaseRb cfg rbFuzzing hits inBuf inLen).isSome := by
  unfold trimCaseRb
  split_ifs
  · rfl
  · rfl
  · exact trimOuter_isSome cfg hits _ _ _ _ _ (Nat.lt_succ_self _)

/-! ## In-place edits of the queue's buffer -/

/-- `TRIM_START_STEPS = 16`, `TRIM_END_STEPS = 1024`, `TRIM_MIN_BYTES = 4`. -/
def trimCfgDefault : TrimCfg := ⟨16, 1024, 4, by decide⟩

/-- **`trim_case_rb` writes into `in_buf`.** A 5-byte input whose branch survives the removal of
its first 4 bytes is trimmed to length 1, and the entry's buffer now holds `[4, 1, 2, 3, 4]`. -/
theorem trimCaseRb_writes_in_buf :
    trimCaseRb trimCfgDefault 1 (fun b => some (b == [4])) [0, 1, 2, 3, 4] 5 =
      some ([4, 1, 2, 3, 4], 1) := by
  decide

/-- **A trim to nothing is read as no trim**: `fuzz_one_original` keeps `len = 5` over an
`in_buf` that is neither the input nor the last accepted candidate. -/
theorem rbTrimStep_keeps_len_over_shifted_bytes :
    rbTrimStep trimCfgDefault 1 true (fun _ => some true) [0, 1, 2, 3, 4] 5 =
      some ([4, 1, 2, 3, 4], 5) := by
  decide

/-! ## What the trim keeps -/

/-- What the trim has kept of the input `orig`: `in_buf` holds its `in_len` bytes, no more of them
than `orig` has, and they are `orig` itself or a candidate the oracle saw hit the branch. -/
def TrimKept (hits : Buf → Option Bool) (orig inBuf : Buf) (inLen : Nat) : Prop :=
  inLen ≤ inBuf.length ∧ inLen ≤ orig.length ∧ (inBuf.take inLen = orig ∨ hits (inBuf.take inLen) = some true)

/-- The tail moved over the removed window leaves the candidate in front. -/
theorem memmove_trimCandidate {inBuf : Buf} {inLen removePos trimAvail : Nat} (hl : inLen ≤ inBuf.length)
    (hp : removePos + trimAvail ≤ inLen) :
    (memmove inBuf removePos (removePos + trimAvail) (inLen - removePos - trimAvail)).take (inLen - trimAvail) =
      trimCandidate inBuf inLen removePos trimAvail :=
  List.take_left' (by simp only [List.length_append, List.length_take, List.length_drop]; omega)

/-- An accepted candidate is kept: `in_buf` then starts with it. -/
theorem TrimKept.remove {hits : Buf → Option Bool} {orig inBuf : Buf} {inLen removePos trimAvail : Nat}
    (hk : TrimKept hits orig inBuf inLen) (hp : removePos + trimAvail ≤ inLen)
    (hh : hits (trimCandidate inBuf inLen removePos trimAvail) = some true) :
    TrimKept hits orig (memmove inBuf removePos (removePos + trimAvail) (inLen - removePos - trimAvail))
      (inLen - trimAvail) := by
  obtain ⟨hl, ho, -⟩ := hk
  refine ⟨?_, by omega, .inr ?_⟩
  · rw [memmove_length _ _ _ _ (by omega) (by omega)]; omega
  · rw [memmove_trimCandidate hl hp, hh]

variable {hits : Buf → Option Bool} {orig : Buf}

/-- The inner loop keeps what the trim has kept. -/
theorem trimInner_kept (removeLen : Nat) :
    ∀ (fuel : Nat) (inBuf : Buf) (inLen lenP2 removePos : Nat) {r : (Buf × Nat × Nat) × Bool},
      trimInner hits removeLen fuel inBuf inLen lenP2 removePos = some r → TrimKept hits orig inBuf inLen →
        TrimKept hits orig r.1.1 r.1.2.1
  | 0, _, _, _, _, _, h, _ => by cases h
  | fuel + 1, inBuf, inLen, lenP2, removePos, r, h, hk => by
    unfold trimInner at h
    split at h
    · rename_i hpos
      dsimp only at h
      split at h
      · cases h; exact hk
      · rename_i hh
        exact trimInner_kept removeLen fuel _ _ _ _ h (hk.remove (by omega) hh)
      · exact trimInner_kept removeLen fuel _ _ _ _ h hk
    · cases h; exact hk

/-- The outer loop keeps what the trim has kept. -/
theorem trimOuter_kept (cfg : TrimCfg) :
    ∀ (fuel : Nat) (inBuf : Buf) (inLen lenP2 removeLen : Nat) {r : Buf × Nat},
      trimOuter cfg hits fuel inBuf inLen lenP2 removeLen = some r → TrimKept hits orig inBuf inLen →
        TrimKept hits orig r.1 r.2
  | 0, _, _, _, _, _, h, _ => by cases h
  | fuel + 1, inBuf, inLen, lenP2, removeLen, r, h, hk => by
    unfold trimOuter at h
    split at h
    · split at h
      · cases h
      · rename_i e
        cases h
        exact trimInner_kept removeLen _ _ _ _ _ e hk
      · rename_i e
        exact trimOuter_kept cfg fuel _ _ _ _ h (trimInner_kept removeLen _ _ _ _ _ e hk)
    · cases h; exact hk

/-- **`trim_case_rb` keeps the branch**: it returns the input or a candidate on which
`hits_branch` held, no longer than the input. -/
theorem trimCaseRb_keeps_branch (cfg : TrimCfg) (rbFuzzing : Nat) {inBuf : Buf} {inLen : Nat}
    (hl : inLen ≤ inBuf.length) (h5 : 5 ≤ inLen) {buf : Buf} {len : Nat}
    (h : trimCaseRb cfg rbFuzzing hits inBuf inLen = some (buf, len)) :
    len ≤ inLen ∧ (buf.take len = inBuf.take inLen ∨ hits (buf.take len) = some true) := by
  have hk : TrimKept hits (inBuf.take inLen) inBuf inLen := ⟨hl, by simp [hl], .inl rfl⟩
  unfold trimCaseRb at h
  split_ifs at h
  · cases h; exact ⟨le_rfl, .inl rfl⟩
  · omega
  · have hr := trimOuter_kept cfg _ _ _ _ _ h hk
    exact ⟨by simpa [hl] using hr.2.1, hr.2.2⟩

/-- `trimCaseRb_keeps_branch` on 8 bytes whose branch needs byte `9`: the trim returns `[5, 6, 7, 9]`. -/
theorem trimCaseRb_keeps_branch_nine :
    trimCaseRb trimCfgDefault 1 (fun b => some (b.contains 9)) [1, 2, 3, 4, 5, 6, 7, 9] 8 =
        some ([5, 6, 7, 9, 5, 6, 7, 9], 4) ∧
      (8 ≤ ([1, 2, 3, 4, 5, 6, 7, 9] : Buf).length ∧ 5 ≤ 8) ∧
      (4 ≤ 8 ∧ (([5, 6, 7, 9, 5, 6, 7, 9] : Buf).take 4 = ([1, 2, 3, 4, 5, 6, 7, 9] : Buf).take 8 ∨
        (fun b : Buf => some (b.contains 9)) (([5, 6, 7, 9, 5, 6, 7, 9] : Buf).take 4) = some true)) :=
  have h : trimCaseRb trimCfgDefault 1 (fun b => some (b.contains 9)) [1, 2, 3, 4, 5, 6, 7, 9] 8 =
      some ([5, 6, 7, 9, 5, 6, 7, 9], 4) := by decide
  ⟨h, ⟨by decide, by decide⟩, trimCaseRb_keeps_branch trimCfgDefault 1 (by decide) (by decide) h⟩

end FuzzOne
