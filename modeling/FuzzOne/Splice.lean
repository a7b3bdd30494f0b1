import FuzzOne.BranchMask
/-!
# Splicing: `locate_diffs` and `retry_splicing` (afl-fuzz-one.c:1058-1080, 4957-5032)

| here | there |
| --- | --- |
| `locateDiffs` | `locate_diffs` (afl-fuzz-one.c:1058-1080) |
| `diffOffsets` | the offsets below `len` where the two buffers differ |
| `spliceStep` | `retry_splicing` from the `locate_diffs` call to `goto custom_mutator_stage` (afl-fuzz-one.c:4991-5032) |

`locate_diffs` returns the first and the last differing offset (`locateDiffs_spec`). The split
point is drawn between them, but the second `memcpy` copies the target from its start:
`memcpy(in_scratch_buf + split_at, new_buf, len - split_at)`. The spliced input is
`B[0..split_at) ++ B′[0..len B′ - split_at)`, not `B[0..split_at) ++ B′[split_at..len B′)`
(`spliceStep_takes_target_prefix`).
-/
namespace FuzzOne

/-- `locate_diffs(ptr1, ptr2, len, &first, &last)`: `f_loc` and `l_loc`, `-1` while no byte
differs. -/
def locateDiffs (ptr1 ptr2 : Buf) (len : Nat) : Int × Int := go (List.range len) (-1) (-1)
where
  go : List Nat → Int → Int → Int × Int
    | [], fLoc, lLoc => (fLoc, lLoc)
    | pos :: ps, fLoc, lLoc =>
      if ptr1.getD pos 0 != ptr2.getD pos 0 then go ps (if fLoc = -1 then pos else fLoc) pos
      else go ps fLoc lLoc

/-- The offsets below `len` where `ptr1` and `ptr2` differ, in increasing order. -/
def diffOffsets (ptr1 ptr2 : Buf) (len : Nat) : List Nat :=
  (List.range len).filter fun pos => ptr1.getD pos 0 != ptr2.getD pos 0

/-- `retry_splicing` once the target is chosen: `in_buf` and `len` as they stand at the
`locate_diffs` call, the target's bytes `new_buf`, and `branch_mask`, `temp_len` as havoc left
them. `none` is `goto retry_splicing`; otherwise `split_at`, the new `in_buf`, `branch_mask`
and `orig_branch_mask`. -/
def spliceStep (inBuf : Buf) (len : Nat) (newBuf branchMask : Buf) (tempLen : Nat) (g : Rng) :
    Option (Nat × Buf × Buf × Buf × Rng) :=
  let (fDiff, lDiff) := locateDiffs inBuf newBuf (min len newBuf.length)
  if fDiff < 0 ∨ lDiff < 2 ∨ fDiff = lDiff then none
  else
    let (r, g) := g.below (lDiff - fDiff).toNat
    let splitAt := fDiff.toNat + r
    let len := newBuf.length
    let inBuf := inBuf.take splitAt ++ newBuf.take (len - splitAt)
    let branchMask :=
      overwrite (allocBranchMask (len + 1)) 0 (branchMask.take (min splitAt (tempLen + 1)))
    some (splitAt, inBuf, branchMask, branchMask, g)

/-! ## `locate_diffs` -/

theorem locateDiffs.go_spec (ptr1 ptr2 : Buf) :
    ∀ (ps : List Nat) (fLoc lLoc : Int), locateDiffs.go ptr1 ptr2 ps fLoc lLoc =
      let ds := ps.filter fun pos => ptr1.getD pos 0 != ptr2.getD pos 0
      (if fLoc = -1 then (ds.head?.map Int.ofNat).getD (-1) else fLoc,
        (ds.getLast?.map Int.ofNat).getD lLoc)
  | [], fLoc, lLoc => by simp only [locateDiffs.go]; split_ifs <;> simp_all
  | pos :: ps, fLoc, lLoc => by
    by_cases hd : (ptr1.getD pos 0 != ptr2.getD pos 0) = true
    · simp only [locateDiffs.go, List.filter_cons, hd, if_true]
      rw [locateDiffs.go_spec]
      simp only [List.head?_cons, List.getLast?_cons, Option.map_some', Option.getD_some,
        Int.ofNat_eq_coe]
      congr 1
      · split_ifs <;> first | rfl | contradiction
      · cases List.getLast? _ <;> rfl
    · simp only [locateDiffs.go, List.filter_cons, hd, Bool.false_eq_true, ↓reduceIte]
      rw [locateDiffs.go_spec]

/-- `locate_diffs` returns the first and the last offset where the buffers differ, `-1` for
both when they agree on the first `len` bytes. -/
theorem locateDiffs_spec (ptr1 ptr2 : Buf) (len : Nat) :
    locateDiffs ptr1 ptr2 len = (((diffOffsets ptr1 ptr2 len).head?.map Int.ofNat).getD (-1),
      ((diffOffsets ptr1 ptr2 len).getLast?.map Int.ofNat).getD (-1)) := by
  simp [locateDiffs, locateDiffs.go_spec, diffOffsets]

/-- The first differing offset is at most the last, which lies below `len`. -/
theorem diffOffsets_head_le {ptr1 ptr2 : Buf} {len f l : Nat}
    (hf : (diffOffsets ptr1 ptr2 len).head? = some f)
    (hl : (diffOffsets ptr1 ptr2 len).getLast? = some l) : f ≤ l ∧ l < len := by
  have hmem := List.mem_of_getLast?_eq_some hl
  have hlt := List.mem_range.1 (List.mem_filter.1 hmem).1
  have hp : (diffOffsets ptr1 ptr2 len).Pairwise (· < ·) := (List.pairwise_lt_range len).filter _
  rcases hds : diffOffsets ptr1 ptr2 len with _ | ⟨d, rest⟩
  · simp [hds] at hf
  · rw [hds, List.head?_cons, Option.some_inj] at hf
    rw [hds, List.pairwise_cons] at hp
    rw [hds, List.mem_cons] at hmem
    rcases hmem with rfl | hr
    · exact ⟨hf ▸ le_refl _, hlt⟩
    · exact ⟨hf ▸ le_of_lt (hp.1 l hr), hlt⟩

/-! ## The spliced input -/

/-- Past the difference test, `split_at` lies between the first and the last differing offset,
the new `in_buf` is `B[0..split_at)` followed by the first `len B′ - split_at` bytes of the
target, and the new mask is `alloc_branch_mask(len B′ + 1)` with the first
`min(split_at, temp_len + 1)` bytes of the old one, copied to `orig_branch_mask`. -/
theorem spliceStep_takes_target_prefix {inBuf newBuf branchMask : Buf} {len tempLen : Nat}
    {g : Rng} {splitAt : Nat} {buf mask origMask : Buf} {g' : Rng}
    (hm : tempLen + 1 ≤ branchMask.length)
    (h : spliceStep inBuf len newBuf branchMask tempLen g = some (splitAt, buf, mask, origMask, g')) :
    ∃ f l, (diffOffsets inBuf newBuf (min len newBuf.length)).head? = some f ∧
      (diffOffsets inBuf newBuf (min len newBuf.length)).getLast? = some l ∧
      f ≤ splitAt ∧ splitAt < l ∧
      buf = inBuf.take splitAt ++ newBuf.take (newBuf.length - splitAt) ∧
      mask = branchMask.take (min splitAt (tempLen + 1)) ++
        List.replicate (newBuf.length - min splitAt (tempLen + 1)) 7 ++ [4] ∧
      origMask = mask := by
  unfold spliceStep at h
  rw [locateDiffs_spec] at h
  rcases hf : (diffOffsets inBuf newBuf (min len newBuf.length)).head? with _ | f
  · simp [hf] at h
  rcases hl : (diffOffsets inBuf newBuf (min len newBuf.length)).getLast? with _ | l
  · simp [hf, hl] at h
  obtain ⟨hfl, hlt⟩ := diffOffsets_head_le hf hl
  have hln := (lt_min_iff.1 hlt).2
  simp only [hf, hl, Option.map_some', Option.getD_some, Int.ofNat_eq_coe, Int.toNat_ofNat,
    Int.toNat_sub] at h
  split_ifs at h with htest
  rcases hb : g.below (l - f) with ⟨r, g1⟩
  have hr := g.below_lt (n := l - f) (by omega)
  rw [hb] at h hr
  dsimp only at hr
  simp only [Option.some.injEq, Prod.mk.injEq] at h
  obtain ⟨rfl, rfl, rfl, rfl, rfl⟩ := h
  refine ⟨f, l, rfl, rfl, by omega, by omega, rfl, ?_, rfl⟩
  have hk : min (f + r) (tempLen + 1) ≤ branchMask.length := le_trans (min_le_right _ _) hm
  have hkn : min (f + r) (tempLen + 1) ≤ newBuf.length := le_trans (min_le_left _ _) (by omega)
  rw [overwrite, List.take_zero, List.nil_append, Nat.zero_add, List.length_take,
    Nat.min_eq_left hk, allocBranchMask_drop hkn, List.append_assoc]

/-- At `B = [0, 0, 0, 0]`, `B′ = [1, 2, 3, 4]` and a draw of `1`, `split_at = 1` and the spliced
input is `[0, 1, 2, 3]`, where `B[0..1) ++ B′[1..4)` is `[0, 2, 3, 4]`. -/
theorem spliceStep_copies_target_head :
    spliceStep [0, 0, 0, 0] 4 [1, 2, 3, 4] (allocBranchMask 5) 4 ⟨fun _ => 1, 0⟩ =
        some (1, [0, 1, 2, 3], allocBranchMask 5, allocBranchMask 5, ⟨fun _ => 1, 1⟩) ∧
      [0, 1, 2, 3] = ([0, 0, 0, 0] : Buf).take 1 ++ ([1, 2, 3, 4] : Buf).take (4 - 1) ∧
      [0, 1, 2, 3] ≠ ([0, 0, 0, 0] : Buf).take 1 ++ ([1, 2, 3, 4] : Buf).drop 1 := by
  have e : spliceStep [0, 0, 0, 0] 4 [1, 2, 3, 4] (allocBranchMask 5) 4 ⟨fun _ => 1, 0⟩ =
      some (1, [0, 1, 2, 3], allocBranchMask 5, allocBranchMask 5, ⟨fun _ => 1, 1⟩) := rfl
  obtain ⟨-, -, -, -, -, -, hbuf, -⟩ := spliceStep_takes_target_prefix (by decide) e
  exact ⟨e, hbuf, by decide⟩

end FuzzOne
