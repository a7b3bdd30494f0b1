import FuzzOne.Bandit
/-!
# Choosing the havoc operator: the mask, `case2r` and the `ATOMIZE_CASES` decoder
(afl-fuzz-one.c:3504-3730)

| here | there |
| --- | --- |
| `HavocCase`, `numCaseEnum` | the operator enum, `NUM_CASE_ENUM` |
| `havocCaseMask` | `u8 mask[NUM_CASE_ENUM]` (afl-fuzz-one.c:3506-3531) |
| `case2r`, `caseR` | `case2r[]` and the two extras adjustments (afl-fuzz-one.c:3539-3551) |
| `atomizeCase` | the `ATOMIZE_CASES` switch (afl-fuzz-one.c:3568-3712) |

The header that declares the enum is not part of this tree. Its order is the order of `case2r`
and of the decoder's ranges (`FLIP_BIT1 = 0` to `SPLICE_INSERT = 27`), which the comparisons
`selected_case >= OVERWRITE_WITH_AEXTRA` and `selected_case >= SPLICE_OVERWRITE` rely on too.
The bandit is built with `NUM_CASE_ENUM` arms. The mask reads `len` and the decoder `temp_len`;
`atomizeCase_caseR` decodes every unmasked case at the length the mask was built with, and
HavocSize.lean proves that `temp_len = len` whenever an iteration starts.
-/
namespace FuzzOne

/-- The atomic havoc operators, in enum order. -/
inductive HavocCase
  | flipBit1 | interesting8 | interesting16 | interesting16Be | interesting32 | interesting32Be
  | arith8Minus | arith8Plus | arith16Minus | arith16BeMinus | arith16Plus | arith16BePlus
  | arith32Minus | arith32BeMinus | arith32Plus | arith32BePlus | rand8 | cloneBytes
  | insertSameByte | overwriteWithChunk | overwriteWithSameByte | deleteBytes
  | overwriteWithExtra | insertExtra | overwriteWithAextra | insertAextra
  | spliceOverwrite | spliceInsert
deriving DecidableEq, Repr

def numCaseEnum : Nat := 28

/-- `MAX_HAVOC_ENTRY` (afl-fuzz-one.c:3454). -/
def maxHavocEntry : Nat := 59

/-- The mask handed to `SELECT_ARM`: `1` marks an operator that cannot run. -/
def havocCaseMask (extrasCnt aExtrasCnt readyForSplicingCount len maxFile blkXl : Nat) :
    List Bool :=
  let m := List.replicate numCaseEnum false
  let m := if extrasCnt == 0 then
    (m.set HavocCase.overwriteWithExtra.toCtorIdx true).set HavocCase.insertExtra.toCtorIdx true
    else m
  let m := if aExtrasCnt == 0 then
    (m.set HavocCase.overwriteWithAextra.toCtorIdx true).set HavocCase.insertAextra.toCtorIdx true
    else m
  let m := if readyForSplicingCount ≤ 1 then
    (m.set HavocCase.spliceInsert.toCtorIdx true).set HavocCase.spliceOverwrite.toCtorIdx true
    else m
  let m := if maxFile ≤ len + blkXl then m.set HavocCase.spliceInsert.toCtorIdx true else m
  if len < 2 then m.set HavocCase.spliceOverwrite.toCtorIdx true else m

/-- `case2r[]`. -/
def case2r : List Nat :=
  [0, 4, 8, 10, 12, 14, 16, 20, 24, 26, 28, 30, 32, 34, 36, 38, 40, 44, 47, 48, 51, 52,
    maxHavocEntry + 1, maxHavocEntry + 3, maxHavocEntry + 5, maxHavocEntry + 7,
    maxHavocEntry + 10, maxHavocEntry + 9]

/-- `r` for the selected case: `case2r[selected_case]`, less `4` past the missing dictionaries. -/
def caseR (extrasCnt aExtrasCnt selectedCase : Nat) : Nat :=
  let r := case2r.getD selectedCase 0
  let r := if HavocCase.overwriteWithAextra.toCtorIdx ≤ selectedCase ∧ extrasCnt == 0 then r - 4
    else r
  if HavocCase.spliceOverwrite.toCtorIdx ≤ selectedCase ∧ aExtrasCnt == 0 then r - 4 else r

/-- The `ATOMIZE_CASES` switch: the operator `r` stands for. -/
def atomizeCase (extrasCnt aExtrasCnt tempLen maxFile blkXl r : Nat) : HavocCase :=
  if r ≤ 3 then .flipBit1 else if r ≤ 7 then .interesting8
  else if r ≤ 9 then .interesting16 else if r ≤ 11 then .interesting16Be
  else if r ≤ 13 then .interesting32 else if r ≤ 15 then .interesting32Be
  else if r ≤ 19 then .arith8Minus else if r ≤ 23 then .arith8Plus
  else if r ≤ 25 then .arith16Minus else if r ≤ 27 then .arith16BeMinus
  else if r ≤ 29 then .arith16Plus else if r ≤ 31 then .arith16BePlus
  else if r ≤ 33 then .arith32Minus else if r ≤ 35 then .arith32BeMinus
  else if r ≤ 37 then .arith32Plus else if r ≤ 39 then .arith32BePlus
  else if r ≤ 43 then .rand8 else if r ≤ 46 then .cloneBytes
  else if r ≤ 47 then .insertSameByte else if r ≤ 50 then .overwriteWithChunk
  else if r ≤ 51 then .overwriteWithSameByte else if r ≤ maxHavocEntry then .deleteBytes
  else
    let r := r - (maxHavocEntry + 1)
    if extrasCnt != 0 ∧ r < 2 then .overwriteWithExtra
    else if extrasCnt != 0 ∧ r < 4 then .insertExtra
    else
      let r := if extrasCnt != 0 then r - 4 else r
      if aExtrasCnt != 0 ∧ r < 2 then .overwriteWithAextra
      else if aExtrasCnt != 0 ∧ r < 4 then .insertAextra
      else
        let r := if aExtrasCnt != 0 then r - 4 else r
        if (2 ≤ tempLen ∧ r % 2 = 1) ∨ maxFile ≤ tempLen + blkXl then .spliceOverwrite
        else .spliceInsert

/-! ## The decoder inverts `case2r` on every unmasked case -/

/-- On an unmasked case the decoder inverts `case2r` with the adjustments. The mask and the
decoder read the counts and the length through five tests only; once those are Booleans, the
statement is a finite check, which tests the decoding first and the mask only where it fails. -/
theorem atomizeCase_caseR (extrasCnt aExtrasCnt readyForSplicingCount len maxFile blkXl sc : Nat)
    (hsc : sc < numCaseEnum)
    (hm : (havocCaseMask extrasCnt aExtrasCnt readyForSplicingCount len maxFile blkXl).getD sc
      false = false) :
    (atomizeCase extrasCnt aExtrasCnt len maxFile blkXl (caseR extrasCnt aExtrasCnt sc)).toCtorIdx
      = sc := by
  have h2 : (2 ≤ len) = ¬ len < 2 := propext Nat.not_lt.symm
  unfold havocCaseMask at hm
  unfold atomizeCase caseR
  simp only [h2, bne, ← Bool.cond_decide, Bool.decide_and, Bool.decide_or, decide_not] at hm ⊢
  revert hm
  rw [imp_iff_or_not]
  revert sc
  generalize (extrasCnt == 0) = e
  generalize (aExtrasCnt == 0) = a
  generalize decide (readyForSplicingCount ≤ 1) = s
  generalize decide (maxFile ≤ len + blkXl) = b
  generalize decide (len < 2) = l
  revert e a s b l
  decide

theorem havocCaseMask_flipBit1 (extrasCnt aExtrasCnt readyForSplicingCount len maxFile blkXl : Nat) :
    (havocCaseMask extrasCnt aExtrasCnt readyForSplicingCount len maxFile blkXl).getD
      HavocCase.flipBit1.toCtorIdx false = false := by
  unfold havocCaseMask
  simp only [← Bool.cond_decide]
  generalize (extrasCnt == 0) = e
  generalize (aExtrasCnt == 0) = a
  generalize decide (readyForSplicingCount ≤ 1) = s
  generalize decide (maxFile ≤ len + blkXl) = b
  generalize decide (len < 2) = l
  revert e a s b l
  decide

end FuzzOne
