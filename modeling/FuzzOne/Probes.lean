import FuzzOne.BranchMask
/-!
# The rare-branch probes of the deterministic stage (afl-fuzz-one.c:1752-1760, 2020-2145)

| here | there |
| --- | --- |
| `walkingByteMask` | `branch_mask[stage_cur] = 1` in the walking-byte stage (afl-fuzz-one.c:2020-2035) |
| `rbrem8Mask` | the `rbrem8` loop (afl-fuzz-one.c:2103-2118) |
| `rbadd8Mask` | the `rbadd8` loop (afl-fuzz-one.c:2121-2137) |
| `rbProbes` | `ck_alloc(len + 1)`, the three loops and `memcpy(orig_branch_mask, branch_mask, len + 1)` |

In rare-branch mode, outside shadow mode and with `use_branch_mask > 0`, the mask starts zeroed
and each probe runs a candidate and asks the target-branch oracle `hits`. The three loops build
`buildBranchMask` (`rbProbes_eq_buildBranchMask`), with the `rand_below(afl, 256)` draws as the
inserted bytes. Nothing sets `INSERT_BEFORE_SAFE` on the trailing byte unless the oracle accepts
the input with a byte appended.
-/
namespace FuzzOne

/-- The walking-byte stage's mask writes: `branch_mask[i] = 1` when the branch is hit with byte `i`
xored with `0xFF` (`out_buf` is `in_buf` again after each candidate). -/
def walkingByteMask (hits : Buf → Bool) (inBuf mask : Buf) : Buf :=
  (List.range inBuf.length).foldl
    (fun mask i => if hits (inBuf.modify (· ^^^ 0xFF) i) then mask.set i 1 else mask) mask

/-- `rbrem8`: `tmp_buf` is the head `out_buf[0..i)` and the tail `out_buf[i+1..len)`;
`branch_mask[i] += 2` when the branch is hit. -/
def rbrem8Mask (hits : Buf → Bool) (inBuf mask : Buf) : Buf :=
  (List.range inBuf.length).foldl
    (fun mask i => if hits (inBuf.take i ++ inBuf.drop (i + 1)) then mask.modify (· + 2) i else mask)
    mask

/-- `rbadd8`: for `i ≤ len`, `tmp_buf` is the head, the byte `rand_below(afl, 256)` and the tail;
`branch_mask[i] += 4` when the branch is hit. -/
def rbadd8Mask (hits : Buf → Bool) (inBuf mask : Buf) (g : Rng) : Buf × Rng :=
  (List.range (inBuf.length + 1)).foldl
    (fun (mask, g) i =>
      let (r, g) := g.below 256
      (if hits (inBuf.take i ++ [r.toUInt8] ++ inBuf.drop i) then mask.modify (· + 4) i else mask, g))
    (mask, g)

/-- The mask and `orig_branch_mask` after the probes, and the random source. -/
def rbProbes (hits : Buf → Bool) (inBuf : Buf) (g : Rng) : Buf × Buf × Rng :=
  let mask := List.replicate (inBuf.length + 1) 0
  let mask := walkingByteMask hits inBuf mask
  let mask := rbrem8Mask hits inBuf mask
  let (mask, g) := rbadd8Mask hits inBuf mask g
  (mask, mask, g)

/-! ## A loop that updates entry `i` in round `i` -/

/-- A `for (i = 0; i < n; i++)` loop whose round `i` updates entry `i` only. -/
theorem foldl_range_getElem? (f : Nat → UInt8 → UInt8) {step : Buf → Nat → Buf}
    (h : ∀ m i j, (step m i)[j]? = (fun a => if i = j then f i a else a) <$> m[j]?) (m : Buf) :
    ∀ (n j : Nat), ((List.range n).foldl step m)[j]? = if j < n then (f j) <$> m[j]? else m[j]?
  | 0, j => by simp
  | n + 1, j => by
    rw [List.range_succ, List.foldl_append, List.foldl_cons, List.foldl_nil, h,
      foldl_range_getElem? f h m n j]
    by_cases hj : j = n
    · subst hj; simp
    · by_cases hjn : j < n
      · simp [hjn, Ne.symm hj, show j < n + 1 by omega]
      · simp [hjn, Ne.symm hj, show ¬j < n + 1 by omega]

/-- `rbadd8` draws once per round: round `i` inserts the byte of draw `pos + i`. -/
theorem rbadd8Mask_eq (hits : Buf → Bool) (inBuf mask : Buf) (g : Rng) :
    rbadd8Mask hits inBuf mask g =
      ((List.range (inBuf.length + 1)).foldl (fun mask i =>
        if hits (inBuf.take i ++ [(g.draws (g.pos + i) % 256).toUInt8] ++ inBuf.drop i)
        then mask.modify (· + 4) i else mask) mask,
       { g with pos := g.pos + (inBuf.length + 1) }) := by
  unfold rbadd8Mask
  generalize inBuf.length + 1 = n
  induction n with
  | zero => rfl
  | succ n ih =>
    rw [List.range_succ, List.foldl_append, List.foldl_append, ih]
    simp [Rng.below, Nat.add_assoc]

/-- A round that adds to entry `i` under a test. -/
theorem cond_modify_getElem? (c : Bool) (f : UInt8 → UInt8) (m : Buf) (i j : Nat) :
    (if c then m.modify f i else m)[j]? = (fun a => if i = j then (if c then f a else a) else a) <$> m[j]? := by
  cases c <;> simp [List.getElem?_modify]

theorem walkingByteMask_getElem? (hits : Buf → Bool) (inBuf mask : Buf) (j : Nat) :
    (walkingByteMask hits inBuf mask)[j]? = if j < inBuf.length then
      (fun a => if hits (inBuf.modify (· ^^^ 0xFF) j) then 1 else a) <$> mask[j]? else mask[j]? :=
  foldl_range_getElem? (fun i a => if hits (inBuf.modify (· ^^^ 0xFF) i) then 1 else a) (fun m i j => by
    rcases eq_or_ne i j with rfl | hij
    · by_cases hc : hits (inBuf.modify (· ^^^ 0xFF) i)
      · simp only [hc, if_true, List.getElem?_set_self']; rfl
      · simp [hc]
    · split <;> simp [hij]) mask _ j

theorem rbrem8Mask_getElem? (hits : Buf → Bool) (inBuf mask : Buf) (j : Nat) :
    (rbrem8Mask hits inBuf mask)[j]? = if j < inBuf.length then
      (fun a => if hits (inBuf.take j ++ inBuf.drop (j + 1)) then a + 2 else a) <$> mask[j]?
    else mask[j]? :=
  foldl_range_getElem? (fun i a => if hits (inBuf.take i ++ inBuf.drop (i + 1)) then a + 2 else a)
    (fun m i j => cond_modify_getElem? _ _ m i j) mask _ j

/-! ## The probes build `buildBranchMask` -/

theorem buildBranchMask_getElem? (hits : Buf → Bool) (inBuf : Buf) (ins : Nat → UInt8) (j : Nat) :
    (buildBranchMask hits inBuf ins)[j]? =
      if j < inBuf.length + 1 then
        some ((if j < inBuf.length ∧ hits (inBuf.modify (· ^^^ 0xFF) j) then 1 else 0) +
          (if j < inBuf.length ∧ hits (inBuf.eraseIdx j) then 2 else 0) +
          (if hits (inBuf.take j ++ [ins j] ++ inBuf.drop j) then 4 else 0))
      else none := by
  rw [buildBranchMask, List.getElem?_map]
  split
  · rw [List.getElem?_range ‹_›]; rfl
  · rw [List.getElem?_eq_none (by rw [List.length_range]; omega)]; rfl

/-- **The probes build the mask of the three tests.** For every input, oracle and draws, the mask
after the probes is `buildBranchMask` with the drawn bytes inserted, `orig_branch_mask` is a copy
of it, and the trailing byte has `INSERT_BEFORE_SAFE` exactly when the oracle accepts the input
with the last drawn byte appended. -/
theorem rbProbes_eq_buildBranchMask (hits : Buf → Bool) (inBuf : Buf) (g : Rng) :
    (rbProbes hits inBuf g).1 =
        buildBranchMask hits inBuf (fun i => (g.draws (g.pos + i) % 256).toUInt8) ∧
      (rbProbes hits inBuf g).2.1 = (rbProbes hits inBuf g).1 ∧
      ((rbProbes hits inBuf g).1.getD inBuf.length 0 &&& insertBeforeSafe ≠ 0 ↔
        hits (inBuf ++ [(g.draws (g.pos + inBuf.length) % 256).toUInt8])) := by
  have e : (rbProbes hits inBuf g).1 = (List.range (inBuf.length + 1)).foldl (fun mask i =>
      if hits (inBuf.take i ++ [(g.draws (g.pos + i) % 256).toUInt8] ++ inBuf.drop i)
      then mask.modify (· + 4) i else mask)
      (rbrem8Mask hits inBuf (walkingByteMask hits inBuf (List.replicate (inBuf.length + 1) 0))) := by
    simp only [rbProbes, rbadd8Mask_eq]
  have hmask : (rbProbes hits inBuf g).1 =
      buildBranchMask hits inBuf (fun i => (g.draws (g.pos + i) % 256).toUInt8) := by
    rw [e]
    apply List.ext_getElem?
    intro j
    rw [foldl_range_getElem? (fun i a => if hits (inBuf.take i ++
        [(g.draws (g.pos + i) % 256).toUInt8] ++ inBuf.drop i) then a + 4 else a)
      (fun m i j => cond_modify_getElem? _ _ m i j),
      rbrem8Mask_getElem?, walkingByteMask_getElem?, List.getElem?_replicate,
      buildBranchMask_getElem?, List.eraseIdx_eq_take_drop_succ]
    generalize hits (inBuf.modify (· ^^^ 0xFF) j) = a
    generalize hits (inBuf.take j ++ inBuf.drop (j + 1)) = b
    generalize hits (inBuf.take j ++ [(g.draws (g.pos + j) % 256).toUInt8] ++ inBuf.drop j) = c
    by_cases hj : j < inBuf.length
    · simp only [hj, show j < inBuf.length + 1 by omega, if_true, true_and]
      cases a <;> cases b <;> cases c <;> rfl
    · by_cases hj1 : j < inBuf.length + 1 <;> simp only [hj, hj1, if_true, if_false, false_and]
      cases c <;> rfl
  refine ⟨hmask, rfl, ?_⟩
  rw [hmask, List.getD_eq_getElem?_getD, buildBranchMask_getElem?, if_pos (Nat.lt_succ_self _)]
  simp only [Nat.lt_irrefl, false_and, if_false, List.take_length, List.drop_length, List.append_nil]
  cases hits (inBuf ++ [(g.draws (g.pos + inBuf.length) % 256).toUInt8]) <;> decide

end FuzzOne
