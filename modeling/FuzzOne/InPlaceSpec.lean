import FuzzOne.InPlace
import FuzzOne.Probes
/-!
# What the in-place sub-stages compute (afl-fuzz-one.c:1858-2990)

InPlace.lean runs each sub-stage as the code does, on `out_buf` in place; the earlier modules
describe what some of them produce as plain functions of `in_buf`. This module proves that the
loops compute those functions.

| in place | what it computes |
| --- | --- |
| `bitflip16`, `bitflip32` | exactly the candidates of `bitflip16Candidates`, `bitflip32Candidates` (Deterministic.lean), under the effector map and mask the state holds (`walkingBytes_run_candidates`) |
| `bitflip8`, `rbProbeLoops` | the mask and the draws of `rbProbes` (Probes.lean) from the zeroed mask of `re_run` (`flip8_probes_build_mask`) |
| `bitflip1` | every single-bit flip, in order, and the tokens of `bitflip1Tokens` (AutoTokens.lean) read off the checksums of the flips of each byte's last bit (`bitflip1_collects_tokens`) |
| `bitflip8` | the effector map `effMapAfter`: the blocks of the first byte, of the last, and of every byte whose flip moved the path, with `eff_cnt` counting them (`bitflip8_effector_map`) |
| `arith8`, `arith16`, `arith32` | exactly `storeCandidates` of their tries, `j = 1 .. ARITH_MAX` at each window start (`arith_run_candidates`) |
| `interest8`, `interest16`, `interest32` | exactly `storeCandidates` of the interesting values that the redundancy tests let through (`interest_run_candidates`) |

Each loop keeps `out_buf = in_buf` between rounds and acts on one part of the state as a plain
fold does (`foldl_proj`). The value stages write a try into the window, run it and write the
window's value back; a round of them adds its candidates and changes nothing else
(`storeRunsRestore_eq`, `storeRounds_eq`).
-/
namespace FuzzOne

/-- A loop whose rounds keep an invariant and act on a projection of the state as `g` does. -/
theorem foldl_proj {σ α β : Type} {f : σ → α → σ} {I : σ → Prop} (proj : σ → β) (g : β → α → β) :
    ∀ (l : List α), (∀ a ∈ l, ∀ s, I s → I (f s a) ∧ proj (f s a) = g (proj s) a) →
      ∀ s, I s → I (l.foldl f s) ∧ proj (l.foldl f s) = l.foldl g (proj s)
  | [], _, _, h => ⟨h, rfl⟩
  | a :: l, hf, s, h => by
    obtain ⟨h₁, e⟩ := hf a (List.mem_cons_self _ _) s h
    rw [List.foldl_cons, List.foldl_cons, ← e]
    exact foldl_proj proj g l (fun b hb => hf b (List.mem_cons_of_mem _ hb)) _ h₁

/-- A `filterMap` is the `flatMap` of the options read as lists. -/
theorem filterMap_eq_flatMap_toList {α β : Type} (F : α → Option β) :
    ∀ l : List α, l.filterMap F = l.flatMap fun a => (F a).toList
  | [] => rfl
  | a :: l => by
    rw [List.filterMap_cons, List.flatMap_cons, filterMap_eq_flatMap_toList F l]
    cases F a <;> rfl

/-- A loop whose rounds each append a list collects their `flatMap`. -/
theorem foldl_append_flatMap {α β : Type} (F : α → List β) :
    ∀ (l : List α) (acc : List β), l.foldl (fun acc a => acc ++ F a) acc = acc ++ l.flatMap F
  | [], acc => by simp
  | a :: l, acc => by rw [List.foldl_cons, foldl_append_flatMap F l, List.flatMap_cons, List.append_assoc]

/-- A loop over the values whose body loops over each value's list is one loop over their
concatenation. -/
theorem foldl_flatMap {α β γ : Type} (g : γ → β → γ) (T : α → List β) (l : List α) (s : γ) :
    (l.flatMap T).foldl g s = l.foldl (fun s a => (T a).foldl g s) s := by
  rw [List.flatMap_def, List.foldl_flatten, List.foldl_map]

/-- Rounds that each add candidates fixed by the starting state, and change nothing else,
collect them in order. -/
theorem storeRounds_eq {α : Type} {R : DetSt → α → DetSt} (C : α → List Buf) (st : DetSt) (l : List α)
    (hR : ∀ i ∈ l, ∀ s : DetSt, { s with execs := st.execs } = st → R s i = { s with execs := s.execs ++ C i }) :
    l.foldl R st = { st with execs := st.execs ++ l.flatMap C } := by
  obtain ⟨h₁, e⟩ := foldl_proj (f := R) (I := fun s : DetSt => { s with execs := st.execs } = st) DetSt.execs
    (fun acc i => acc ++ C i) l (fun i hi s hs => by rw [hR i hi s hs]; exact ⟨hs, rfl⟩) st rfl
  rw [foldl_append_flatMap] at e
  rw [← e]
  generalize l.foldl R st = F at h₁ ⊢
  rw [← h₁]

/-! ## The walking bytes run the candidate lists -/

section WalkingBytes

variable (cfg : DetCfg) (w : Nat) (checkMask : Bool) {inBuf : Buf} {st : DetSt}

/-- A round of `bitflip 16/8` or `32/8` adds its candidate, if the position is not skipped, and
leaves everything else as it was. -/
theorem walkingByteRound_eq {i : Nat} (hp : i + w ≤ inBuf.length) (h : st.outBuf = inBuf) :
    walkingByteRound cfg w checkMask inBuf.length st i = { st with execs := st.execs ++
      (if (List.range w).all fun k => !st.effSet cfg (i + k) then none
       else if checkMask ∧ (List.range w).any fun k => st.branchMask.getD (i + k) 0 &&& 1 = 0 then none
       else some (storeLE inBuf i w (loadLE inBuf i w ^^^ (2 ^ (8 * w) - 1)))).toList } := by
  subst h
  have hM : loadLE st.outBuf i w ^^^ (2 ^ (8 * w) - 1) < 256 ^ w := by
    rw [show (256 : Nat) ^ w = 2 ^ (8 * w) by rw [Nat.pow_mul]]
    exact Nat.xor_lt_two_pow (by rw [Nat.pow_mul]; exact loadLE_lt _ _ _) (Nat.sub_lt (Nat.two_pow_pos _) one_pos)
  unfold walkingByteRound DetSt.skipPos
  cases ha : (List.range w).all fun k => !st.effSet cfg (i + k)
  · cases hb : (List.range w).any fun k => st.branchMask.getD (i + k) 0 &&& 1 = 0 <;> cases checkMask <;>
      simp only [Bool.or_false, Bool.false_or, Bool.and_true, Bool.and_false, Bool.false_eq_true, ↓reduceIte,
        and_false, and_true, Option.toList_none, Option.toList_some, List.append_nil]
    all_goals simp only [DetSt.store, DetSt.run, DetSt.exec, loadLE_storeLE _ hp, Nat.mod_eq_of_lt hM,
      Nat.xor_assoc, Nat.xor_self, Nat.xor_zero, storeLE_storeLE _ _ hp, storeLE_loadLE hp,
      List.take_of_length_le (storeLE_length _ hp).le]
  · simp only [Bool.true_or, ↓reduceIte, Option.toList_none, List.append_nil]

/-- The rounds over every window start run `walkingFlipCandidates` with the state's effector map
and mask. -/
theorem walkingByteRounds_eq (hw : 1 ≤ w) (h : st.outBuf = inBuf) :
    (List.range (inBuf.length - (w - 1))).foldl (walkingByteRound cfg w checkMask inBuf.length) st =
      { st with execs := st.execs ++ walkingFlipCandidates w checkMask (st.effSet cfg) st.branchMask inBuf } := by
  rw [walkingFlipCandidates, filterMap_eq_flatMap_toList]
  refine storeRounds_eq _ st _ fun i hi s hs => ?_
  have hm : s.effMap = st.effMap ∧ s.branchMask = st.branchMask := by rw [← hs]; exact ⟨rfl, rfl⟩
  rw [walkingByteRound_eq cfg w checkMask (by rw [List.mem_range] at hi; omega) (by rw [← h, ← hs])]
  simp only [DetSt.effSet, hm]

/-- **`bitflip 16/8` and `32/8` run their candidate lists.** From `out_buf = in_buf`, the
in-place stages execute exactly `bitflip16Candidates` and `bitflip32Candidates` of the effector
map and branch mask the state holds, in order, and change nothing else. -/
theorem walkingBytes_run_candidates (h : st.outBuf = inBuf) :
    bitflip16 cfg inBuf.length st =
        { st with execs := st.execs ++ bitflip16Candidates cfg.rbFuzzing (st.effSet cfg) st.branchMask inBuf } ∧
      bitflip32 cfg inBuf.length st =
        { st with execs := st.execs ++ bitflip32Candidates cfg.rbFuzzing (st.effSet cfg) st.branchMask inBuf } := by
  constructor
  · unfold bitflip16 bitflip16Candidates
    split
    · simp
    · exact walkingByteRounds_eq cfg 2 _ (by decide) h
  · unfold bitflip32 bitflip32Candidates
    split
    · simp
    · exact walkingByteRounds_eq cfg 4 _ (by decide) h

/-- `walkingBytes_run_candidates` on a 4-byte input in rare-branch mode whose mask allows every
byte: `bitflip 32/8` runs its one window with every byte flipped. -/
theorem walkingBytes_run_candidates_four :
    let cfg : DetCfg := ⟨35, [], [], [], [], [], 200, 50, 1048576, 128, false, 1, false, 1, false, 3, 128, 90, 0,
      ⟨3, 32⟩⟩
    let st : DetSt := ⟨[1, 2, 3, 4], [], [1, 1, 1, 1, 4], [1], 1, ⟨0, fun _ => 0, 0⟩, [], Rng.zeros, []⟩
    st.outBuf = [1, 2, 3, 4] ∧
      bitflip32Candidates cfg.rbFuzzing (st.effSet cfg) st.branchMask [1, 2, 3, 4] = [[254, 253, 252, 251]] ∧
      bitflip16 cfg ([1, 2, 3, 4] : Buf).length st =
        { st with execs := st.execs ++ bitflip16Candidates cfg.rbFuzzing (st.effSet cfg) st.branchMask [1, 2, 3, 4] } ∧
      bitflip32 cfg ([1, 2, 3, 4] : Buf).length st =
        { st with execs := st.execs ++ bitflip32Candidates cfg.rbFuzzing (st.effSet cfg) st.branchMask [1, 2, 3, 4] } :=
  ⟨rfl, by decide, walkingBytes_run_candidates _ rfl⟩

end WalkingBytes

/-! ## Bitflip 8/8 and the probes, round by round -/

/-- Whether the run of `in_buf` with byte `i` flipped counts as moving the path in `bitflip 8/8`:
the checksum of its trace is not `exec_cksum`; in non-instrumented mode or on a file shorter than
`EFF_MIN_LEN` the stand-in `~exec_cksum` is compared instead. -/
def flipMoves (cfg : DetCfg) (t : Target) (inBuf : Buf) (i : Nat) : Bool :=
  (if !cfg.nonInstrumentedMode && cfg.effMinLen ≤ inBuf.length then t.cksum (inBuf.modify (· ^^^ 0xFF) i)
    else cfg.execCksum ^^^ (2 ^ 64 - 1)) != cfg.execCksum

/-- The write of round `i` of `bitflip 8/8` to `(eff_map, eff_cnt)`: an unflagged block is
flagged and counted when the flip of byte `i` moved the path. -/
def effStep (cfg : DetCfg) (t : Target) (inBuf : Buf) (e : Buf × Nat) (i : Nat) : Buf × Nat :=
  if e.1.getD (i >>> cfg.effMapScale2) 0 == 0 && flipMoves cfg t inBuf i then
    (e.1.set (i >>> cfg.effMapScale2) 1, e.2 + 1)
  else e

section Rounds

variable (cfg : DetCfg) (t : Target) {inBuf : Buf} {st : DetSt}

/-- A round of `bitflip 8/8`: one run of the flipped byte, the mask write of rare-branch mode,
the effector write, and `out_buf` back to `in_buf`. -/
theorem flip8Round_eq (i : Nat) (h : st.outBuf = inBuf) :
    flip8Round cfg t inBuf.length st i = { st with
      branchMask := if cfg.rbFuzzing != 0 && !cfg.shadowMode && 0 < cfg.useBranchMask &&
          t.hitsBranch (inBuf.modify (· ^^^ 0xFF) i) then st.branchMask.set i 1 else st.branchMask
      effMap := (effStep cfg t inBuf (st.effMap, st.effCnt) i).1
      effCnt := (effStep cfg t inBuf (st.effMap, st.effCnt) i).2
      execs := st.execs ++ [inBuf.modify (· ^^^ 0xFF) i] } := by
  subst h
  have ht : (st.outBuf.modify (· ^^^ 0xFF) i).take st.outBuf.length = st.outBuf.modify (· ^^^ 0xFF) i :=
    List.take_of_length_le (List.length_modify _ _ _).le
  unfold flip8Round effStep flipMoves
  simp only [DetSt.run, DetSt.exec, ht]
  by_cases hb : (cfg.rbFuzzing != 0 && !cfg.shadowMode && decide (0 < cfg.useBranchMask) &&
      t.hitsBranch (st.outBuf.modify (· ^^^ 0xFF) i)) = true <;>
    by_cases he : (st.effMap.getD (i >>> cfg.effMapScale2) 0 == 0) = true <;>
    simp only [hb, he, ↓reduceIte, Bool.true_and, Bool.false_and, Bool.false_eq_true] <;>
    (try split_ifs) <;> simp only [modify_xor_xor]

theorem rbrem8Round_eq {i : Nat} (hi : i < inBuf.length) (h : st.outBuf = inBuf) :
    rbrem8Round t inBuf.length st i = { st with
      branchMask := if t.hitsBranch (inBuf.take i ++ inBuf.drop (i + 1)) then st.branchMask.modify (· + 2) i
        else st.branchMask
      execs := st.execs ++ [inBuf.take i ++ inBuf.drop (i + 1)] } := by
  subst h
  have hd : (st.outBuf.drop (1 + i)).take (st.outBuf.length - i - 1) = st.outBuf.drop (i + 1) := by
    rw [Nat.add_comm 1 i]
    exact List.take_of_length_le (by simp only [List.length_drop]; omega)
  have ht : (st.outBuf.take i ++ st.outBuf.drop (i + 1)).take (st.outBuf.length - 1) =
      st.outBuf.take i ++ st.outBuf.drop (i + 1) :=
    List.take_of_length_le (by simp only [List.length_append, List.length_take, List.length_drop]; omega)
  unfold rbrem8Round
  simp only [DetSt.exec, hd, ht]
  split <;> rfl

theorem rbadd8Round_eq (i : Nat) (h : st.outBuf = inBuf) :
    rbadd8Round t inBuf.length st i = { st with
      branchMask := if t.hitsBranch (inBuf.take i ++ [(st.rng.below 256).1.toUInt8] ++ inBuf.drop i)
        then st.branchMask.modify (· + 4) i else st.branchMask
      rng := (st.rng.below 256).2
      execs := st.execs ++ [inBuf.take i ++ [(st.rng.below 256).1.toUInt8] ++ inBuf.drop i] } := by
  subst h
  have hd : (st.outBuf.drop i).take (st.outBuf.length - i) = st.outBuf.drop i :=
    List.take_of_length_le (by simp only [List.length_drop]; omega)
  have ht (r : UInt8) : (st.outBuf.take i ++ [r] ++ st.outBuf.drop i).take (st.outBuf.length + 1) =
      st.outBuf.take i ++ [r] ++ st.outBuf.drop i :=
    List.take_of_length_le
      (by simp only [List.length_append, List.length_take, List.length_drop, List.length_singleton]; omega)
  unfold rbadd8Round
  simp only [DetSt.exec, hd, ht]
  split <;> rfl

end Rounds

@[simp] theorem effMapInit_outBuf (cfg : DetCfg) (len : Nat) (st : DetSt) :
    (effMapInit cfg len st).outBuf = st.outBuf := by unfold effMapInit; dsimp only; split <;> rfl

@[simp] theorem effMapInit_branchMask (cfg : DetCfg) (len : Nat) (st : DetSt) :
    (effMapInit cfg len st).branchMask = st.branchMask := by unfold effMapInit; dsimp only; split <;> rfl

@[simp] theorem effMapInit_rng (cfg : DetCfg) (len : Nat) (st : DetSt) :
    (effMapInit cfg len st).rng = st.rng := by unfold effMapInit; dsimp only; split <;> rfl

@[simp] theorem effMapDense_outBuf (cfg : DetCfg) (len : Nat) (st : DetSt) :
    (effMapDense cfg len st).outBuf = st.outBuf := by unfold effMapDense; dsimp only; split <;> rfl

@[simp] theorem effMapDense_branchMask (cfg : DetCfg) (len : Nat) (st : DetSt) :
    (effMapDense cfg len st).branchMask = st.branchMask := by unfold effMapDense; dsimp only; split <;> rfl

@[simp] theorem effMapDense_rng (cfg : DetCfg) (len : Nat) (st : DetSt) :
    (effMapDense cfg len st).rng = st.rng := by unfold effMapDense; dsimp only; split <;> rfl

/-! ## The probes build the mask of `rbProbes` -/

section Probes

variable (cfg : DetCfg) (t : Target) (inBuf : Buf)

/-- The test under which `bitflip 8/8` writes the mask and the probes run. -/
theorem rbMask_on (hrb : cfg.rbFuzzing ≠ 0) (hsh : cfg.shadowMode = false) (hm : 0 < cfg.useBranchMask) :
    (cfg.rbFuzzing != 0 && !cfg.shadowMode && decide (0 < cfg.useBranchMask)) = true := by
  simp [hrb, hsh, hm]

/-- The rounds of `bitflip 8/8` in rare-branch mode write the mask as `walkingByteMask` does and
draw nothing. -/
theorem flip8Rounds_mask (hrb : cfg.rbFuzzing ≠ 0) (hsh : cfg.shadowMode = false)
    (hm : 0 < cfg.useBranchMask) (st : DetSt) (h : st.outBuf = inBuf) :
    let st' := (List.range inBuf.length).foldl (flip8Round cfg t inBuf.length) st
    (st'.outBuf = inBuf ∧ st'.rng = st.rng) ∧ st'.branchMask = walkingByteMask t.hitsBranch inBuf st.branchMask :=
  foldl_proj (I := fun s : DetSt => s.outBuf = inBuf ∧ s.rng = st.rng) DetSt.branchMask
    (fun mask i => if t.hitsBranch (inBuf.modify (· ^^^ 0xFF) i) then mask.set i 1 else mask) _
    (fun i _ s hs => by
      rw [flip8Round_eq cfg t i hs.1]
      exact ⟨hs, by simp only [rbMask_on cfg hrb hsh hm, Bool.true_and]⟩) st ⟨h, rfl⟩

theorem rbrem8Rounds_mask (st : DetSt) (h : st.outBuf = inBuf) :
    let st' := (List.range inBuf.length).foldl (rbrem8Round t inBuf.length) st
    (st'.outBuf = inBuf ∧ st'.rng = st.rng) ∧ st'.branchMask = rbrem8Mask t.hitsBranch inBuf st.branchMask :=
  foldl_proj (I := fun s : DetSt => s.outBuf = inBuf ∧ s.rng = st.rng) DetSt.branchMask
    (fun mask i => if t.hitsBranch (inBuf.take i ++ inBuf.drop (i + 1)) then mask.modify (· + 2) i else mask) _
    (fun i hi s hs => by
      rw [rbrem8Round_eq t (List.mem_range.1 hi) hs.1]
      exact ⟨hs, rfl⟩) st ⟨h, rfl⟩

theorem rbadd8Rounds_mask (st : DetSt) (h : st.outBuf = inBuf) :
    let st' := (List.range (inBuf.length + 1)).foldl (rbadd8Round t inBuf.length) st
    st'.outBuf = inBuf ∧ (st'.branchMask, st'.rng) = rbadd8Mask t.hitsBranch inBuf st.branchMask st.rng :=
  foldl_proj (I := fun s : DetSt => s.outBuf = inBuf) (fun s => (s.branchMask, s.rng))
    (fun (mask, g) i =>
      let (r, g) := g.below 256
      (if t.hitsBranch (inBuf.take i ++ [r.toUInt8] ++ inBuf.drop i) then mask.modify (· + 4) i else mask, g))
    _ (fun i _ s hs => by
      rw [rbadd8Round_eq t i hs]
      exact ⟨hs, rfl⟩) st h

/-- **Bitflip 8/8 and the probes build the mask of `rbProbes`.** In rare-branch mode, outside
shadow mode and with `use_branch_mask > 0`, from `out_buf = in_buf` and the zeroed mask of
`re_run` (`len + 1` bytes), the in-place `bitflip 8/8` and `rbrem8`/`rbadd8` loops leave the mask
`rbProbes` builds, with the same draws, and `out_buf = in_buf`. -/
theorem flip8_probes_build_mask (st : DetSt) (h : st.outBuf = inBuf) (hrb : cfg.rbFuzzing ≠ 0)
    (hsh : cfg.shadowMode = false) (hm : 0 < cfg.useBranchMask)
    (hz : st.branchMask = List.replicate (inBuf.length + 1) 0) :
    (rbProbeLoops cfg t inBuf.length (bitflip8 cfg t inBuf.length st)).outBuf = inBuf ∧
      (rbProbeLoops cfg t inBuf.length (bitflip8 cfg t inBuf.length st)).branchMask =
        (rbProbes t.hitsBranch inBuf st.rng).1 ∧
      (rbProbeLoops cfg t inBuf.length (bitflip8 cfg t inBuf.length st)).rng =
        (rbProbes t.hitsBranch inBuf st.rng).2.2 := by
  obtain ⟨⟨h₁, r₁⟩, m₁⟩ := flip8Rounds_mask cfg t inBuf hrb hsh hm (effMapInit cfg inBuf.length st)
    (by rw [effMapInit_outBuf, h])
  unfold bitflip8 rbProbeLoops
  rw [if_pos (rbMask_on cfg hrb hsh hm)]
  generalize List.foldl (flip8Round cfg t inBuf.length) (effMapInit cfg inBuf.length st)
    (List.range inBuf.length) = S at h₁ r₁ m₁
  obtain ⟨⟨h₂, r₂⟩, m₂⟩ := rbrem8Rounds_mask t inBuf (effMapDense cfg inBuf.length S)
    (by rw [effMapDense_outBuf, h₁])
  obtain ⟨h₃, e₃⟩ := rbadd8Rounds_mask t inBuf _ h₂
  simp only [effMapDense_rng, effMapDense_branchMask, effMapInit_rng, effMapInit_branchMask, hz] at r₁ m₁ r₂ m₂
  rw [r₂, r₁, m₂, m₁] at e₃
  unfold rbProbes
  dsimp only
  rcases e : rbadd8Mask t.hitsBranch inBuf
    (rbrem8Mask t.hitsBranch inBuf (walkingByteMask t.hitsBranch inBuf (List.replicate (inBuf.length + 1) 0)))
    st.rng with ⟨mask, g⟩
  rw [e, Prod.mk.injEq] at e₃
  exact ⟨h₃, e₃⟩

/-- `flip8_probes_build_mask` on a 4-byte input with a target branch hit by every 4-byte run:
the byte flips keep it, deleting or inserting a byte loses it, so the mask is `[1, 1, 1, 1, 0]`. -/
theorem flip8_probes_build_mask_four :
    let cfg : DetCfg := ⟨35, [], [], [], [], [], 200, 50, 1048576, 128, false, 1, false, 1, false, 3, 128, 90, 0,
      ⟨3, 32⟩⟩
    let t : Target := ⟨fun _ => 0, fun b => b.length == 4⟩
    let st : DetSt := ⟨[1, 2, 3, 4], [], List.replicate 5 0, [], 1, ⟨0, fun _ => 0, 0⟩, [], Rng.zeros, []⟩
    (st.outBuf = [1, 2, 3, 4] ∧ cfg.rbFuzzing ≠ 0 ∧ cfg.shadowMode = false ∧ 0 < cfg.useBranchMask ∧
      st.branchMask = List.replicate (([1, 2, 3, 4] : Buf).length + 1) 0) ∧
    (rbProbes t.hitsBranch [1, 2, 3, 4] st.rng).1 = [1, 1, 1, 1, 0] ∧
    ((rbProbeLoops cfg t ([1, 2, 3, 4] : Buf).length (bitflip8 cfg t ([1, 2, 3, 4] : Buf).length st)).outBuf =
        [1, 2, 3, 4] ∧
      (rbProbeLoops cfg t ([1, 2, 3, 4] : Buf).length (bitflip8 cfg t ([1, 2, 3, 4] : Buf).length st)).branchMask =
        (rbProbes t.hitsBranch [1, 2, 3, 4] st.rng).1 ∧
      (rbProbeLoops cfg t ([1, 2, 3, 4] : Buf).length (bitflip8 cfg t ([1, 2, 3, 4] : Buf).length st)).rng =
        (rbProbes t.hitsBranch [1, 2, 3, 4] st.rng).2.2) :=
  ⟨⟨rfl, by decide, rfl, by decide, rfl⟩, by decide,
    flip8_probes_build_mask _ _ _ _ rfl (by decide) rfl (by decide) rfl⟩

/-- The trailing mask byte gets `INSERT_BEFORE_SAFE` only from the oracle: on `[0]` with a target
branch that only one-byte inputs hit, the byte flip keeps it and every deletion or insertion
loses it, so the mask after the probes is `[1, 0]`. -/
theorem trailing_mask_byte_unset :
    let cfg : DetCfg := ⟨35, [], [], [], [], [], 200, 50, 1048576, 128, false, 1, false, 1, false, 3, 128, 90, 0,
      ⟨3, 32⟩⟩
    let t : Target := ⟨fun _ => 0, fun b => b.length == 1⟩
    let st : DetSt := ⟨[0], [], [0, 0], [], 1, ⟨0, fun _ => 0, 0⟩, [], Rng.zeros, []⟩
    cfg.rbFuzzing ≠ 0 ∧ cfg.shadowMode = false ∧ 0 < cfg.useBranchMask ∧
      (rbProbeLoops cfg t 1 (bitflip8 cfg t 1 st)).branchMask = [1, 0] := by
  decide

end Probes

/-! ## The effector map of bitflip 8/8 -/

/-- Block `a` of the effector map is flagged once the rounds over the bytes below `k` ran: it
holds the first byte or the last one, or a byte below `k` whose flip moved the path. -/
def effMarked (cfg : DetCfg) (t : Target) (inBuf : Buf) (k a : Nat) : Bool :=
  a == 0 || a == (inBuf.length - 1) >>> cfg.effMapScale2 ||
    (List.range k).any fun i => i >>> cfg.effMapScale2 == a && flipMoves cfg t inBuf i

/-- The effector map after those rounds: `EFF_ALEN(len)` bytes, `1` on the flagged blocks. -/
def effMapAfter (cfg : DetCfg) (t : Target) (inBuf : Buf) (k : Nat) : Buf :=
  (List.range (effAlen cfg.effMapScale2 inBuf.length)).map fun a => if effMarked cfg t inBuf k a then 1 else 0

/-- `EFF_APOS(i) < EFF_ALEN(len)` for every byte `i < len`. -/
theorem apos_lt_effAlen (s : Nat) {i len : Nat} (h : i < len) : i >>> s < effAlen s len := by
  unfold effAlen
  rw [Nat.shiftRight_eq_div_pow, Nat.shiftRight_eq_div_pow]
  have hq := Nat.two_pow_pos s
  split
  · exact Nat.lt_succ_of_le (Nat.div_le_div_right h.le)
  · rename_i hr
    rw [Nat.add_zero, Nat.div_lt_iff_lt_mul hq, Nat.div_mul_cancel (Nat.dvd_of_mod_eq_zero (not_not.1 hr))]
    exact h

section EffMap

variable (cfg : DetCfg) (t : Target) (inBuf : Buf)

theorem effMarked_succ (k a : Nat) :
    effMarked cfg t inBuf (k + 1) a =
      (effMarked cfg t inBuf k a || (k >>> cfg.effMapScale2 == a && flipMoves cfg t inBuf k)) := by
  simp only [effMarked, List.range_succ, List.any_append, List.any_cons, List.any_nil, Bool.or_false,
    Bool.or_assoc]

theorem effMapAfter_getElem? (k a : Nat) :
    (effMapAfter cfg t inBuf k)[a]? =
      if a < effAlen cfg.effMapScale2 inBuf.length then some (if effMarked cfg t inBuf k a then 1 else 0)
      else none := by
  rw [effMapAfter, List.getElem?_map]
  split
  · rw [List.getElem?_range ‹_›]; rfl
  · rw [List.getElem?_eq_none (by rw [List.length_range]; omega)]; rfl

/-- A round that flags nothing new leaves the map as it was. -/
theorem effMapAfter_succ_of {k : Nat}
    (h : (effMarked cfg t inBuf k (k >>> cfg.effMapScale2) || !flipMoves cfg t inBuf k) = true) :
    effMapAfter cfg t inBuf (k + 1) = effMapAfter cfg t inBuf k := by
  refine List.map_congr_left fun a _ => ?_
  rw [effMarked_succ]
  by_cases ha : k >>> cfg.effMapScale2 = a
  · subst ha
    cases hm : effMarked cfg t inBuf k (k >>> cfg.effMapScale2) <;> simp_all
  · simp [ha]

/-- A round that flags block `EFF_APOS(k)` sets that byte of the map. -/
theorem effMapAfter_succ_set {k : Nat} (hk : k < inBuf.length) (hf : flipMoves cfg t inBuf k = true) :
    effMapAfter cfg t inBuf (k + 1) = (effMapAfter cfg t inBuf k).set (k >>> cfg.effMapScale2) 1 := by
  have ha := apos_lt_effAlen cfg.effMapScale2 hk
  apply List.ext_getElem?
  intro b
  rw [List.getElem?_set, effMapAfter_getElem?, effMapAfter_getElem?, effMarked_succ, hf, Bool.and_true]
  simp only [effMapAfter, List.length_map, List.length_range, ha, if_true]
  by_cases hb : k >>> cfg.effMapScale2 = b
  · subst hb; simp [ha]
  · simp [hb]

/-- One round keeps the map equal to `effMapAfter` and `eff_cnt` counting its flagged blocks
beyond the count `c0` it started from. -/
theorem effStep_after {k c c0 : Nat} (hk : k < inBuf.length)
    (hc : c + 1 = c0 + (effMapAfter cfg t inBuf k).count 1) :
    ∃ c', effStep cfg t inBuf (effMapAfter cfg t inBuf k, c) k = (effMapAfter cfg t inBuf (k + 1), c') ∧
      c' + 1 = c0 + (effMapAfter cfg t inBuf (k + 1)).count 1 := by
  have ha := apos_lt_effAlen cfg.effMapScale2 hk
  have hget : (effMapAfter cfg t inBuf k).getD (k >>> cfg.effMapScale2) 0 =
      if effMarked cfg t inBuf k (k >>> cfg.effMapScale2) then 1 else 0 := by
    rw [List.getD_eq_getElem?_getD, effMapAfter_getElem?, if_pos ha]; rfl
  have h00 : ((0 : UInt8) == 0) = true := rfl
  have h10 : ((1 : UInt8) == 0) = false := rfl
  unfold effStep
  cases hm : effMarked cfg t inBuf k (k >>> cfg.effMapScale2) <;> cases hf : flipMoves cfg t inBuf k <;>
    simp only [hget, hm, hf, Bool.false_eq_true, ↓reduceIte, Bool.and_false, Bool.and_true, h00, h10]
  · rw [effMapAfter_succ_of cfg t inBuf (by simp [hf])]; exact ⟨c, rfl, hc⟩
  · have hlen : k >>> cfg.effMapScale2 < (effMapAfter cfg t inBuf k).length := by
      simpa [effMapAfter] using ha
    have h0 : (effMapAfter cfg t inBuf k)[k >>> cfg.effMapScale2] = 0 := by
      have := effMapAfter_getElem? cfg t inBuf k (k >>> cfg.effMapScale2)
      rw [if_pos ha, hm, List.getElem?_eq_getElem hlen] at this
      exact Option.some.inj this
    refine ⟨c + 1, by rw [effMapAfter_succ_set cfg t inBuf hk hf], ?_⟩
    rw [effMapAfter_succ_set cfg t inBuf hk hf, List.count_set _ _ _ _ hlen, h0]
    have h01 : ((0 : UInt8) == 1) = false := rfl
    simp only [h01, beq_self_eq_true, Bool.false_eq_true, ↓reduceIte]
    omega
  all_goals rw [effMapAfter_succ_of cfg t inBuf (by simp [hm])]; exact ⟨c, rfl, hc⟩

/-- Before the rounds the map flags the blocks of the first and the last byte, and `eff_cnt` has
counted the last one when it is not the first. -/
theorem effMapInit_after (hlen : 0 < inBuf.length) (st : DetSt) :
    (effMapInit cfg inBuf.length st).effMap = effMapAfter cfg t inBuf 0 ∧
      (effMapInit cfg inBuf.length st).effCnt + 1 = st.effCnt + (effMapAfter cfg t inBuf 0).count 1 := by
  have h0 : 0 < effAlen cfg.effMapScale2 inBuf.length := by
    simpa using apos_lt_effAlen cfg.effMapScale2 hlen
  have hl := apos_lt_effAlen cfg.effMapScale2 (Nat.sub_lt hlen one_pos)
  have hcount : ((List.replicate (effAlen cfg.effMapScale2 inBuf.length) (0 : UInt8)).set 0 1).count 1 = 1 := by
    rw [List.count_set _ _ _ _ (by simpa using h0), List.count_replicate]; simp
  unfold effMapInit
  dsimp only
  split
  · rename_i hne
    have e : effMapAfter cfg t inBuf 0 =
        ((List.replicate (effAlen cfg.effMapScale2 inBuf.length) 0).set 0 1).set
          ((inBuf.length - 1) >>> cfg.effMapScale2) 1 := by
      apply List.ext_getElem?
      intro b
      rw [effMapAfter_getElem?, List.getElem?_set, List.getElem?_set, List.getElem?_replicate]
      simp only [effMarked, List.range_zero, List.any_nil, Bool.or_false, List.length_set, List.length_replicate]
      by_cases hb : (inBuf.length - 1) >>> cfg.effMapScale2 = b
      · subst hb; simp [hl, hne]
      · by_cases hb0 : b = 0
        · subst hb0; simp [h0, hb]
        · simp [hb, hb0, Ne.symm hb, Ne.symm hb0]
    refine ⟨e.symm, ?_⟩
    rw [e, List.count_set _ _ _ _ (by simpa using hl), hcount, List.getElem_set_ne (Ne.symm hne),
      List.getElem_replicate]
    rfl
  · rename_i heq
    have e : effMapAfter cfg t inBuf 0 = (List.replicate (effAlen cfg.effMapScale2 inBuf.length) 0).set 0 1 := by
      apply List.ext_getElem?
      intro b
      rw [effMapAfter_getElem?, List.getElem?_set, List.getElem?_replicate]
      simp only [effMarked, List.range_zero, List.any_nil, Bool.or_false, not_not.1 heq, Bool.or_self,
        List.length_replicate]
      by_cases hb0 : b = 0
      · subst hb0; simp [h0]
      · simp [hb0, Ne.symm hb0]
    exact ⟨e.symm, by rw [e, hcount]⟩

/-- The rounds over the bytes below `k` build `effMapAfter k`, with `eff_cnt` counting. -/
theorem effSteps_after (c0 : Nat) : ∀ k ≤ inBuf.length, ∀ c, c + 1 = c0 + (effMapAfter cfg t inBuf 0).count 1 →
    ∃ c', (List.range k).foldl (effStep cfg t inBuf) (effMapAfter cfg t inBuf 0, c) = (effMapAfter cfg t inBuf k, c') ∧
      c' + 1 = c0 + (effMapAfter cfg t inBuf k).count 1
  | 0, _, c, hc => ⟨c, rfl, hc⟩
  | k + 1, hk, c, hc => by
    obtain ⟨c', e, hc'⟩ := effSteps_after c0 k (by omega) c hc
    rw [List.range_succ, List.foldl_append, e, List.foldl_cons, List.foldl_nil]
    exact effStep_after cfg t inBuf (by omega) hc'

end EffMap

/-- **The effector map of `bitflip 8/8`.** From `out_buf = in_buf` with `len ≥ 1`, the stage
leaves `out_buf = in_buf` and, before the density rule, the map `effMapAfter`: a block is
flagged exactly when it holds the first byte, the last byte, or a byte whose walking-byte flip
moved the path (its checksum differs from `exec_cksum`; every byte in non-instrumented mode and
on files shorter than `EFF_MIN_LEN`). `eff_cnt` grows by the number of flagged blocks less one,
so it counts them exactly when it starts at `1`, and a map denser than `EFF_MAX_PERC` percent by
that count is flagged everywhere. -/
theorem bitflip8_effector_map (cfg : DetCfg) (t : Target) (inBuf : Buf) (st : DetSt) (h : st.outBuf = inBuf)
    (hlen : 0 < inBuf.length) :
    (bitflip8 cfg t inBuf.length st).outBuf = inBuf ∧
      (bitflip8 cfg t inBuf.length st).effCnt + 1 = st.effCnt + (effMapAfter cfg t inBuf inBuf.length).count 1 ∧
      (bitflip8 cfg t inBuf.length st).effMap =
        if (bitflip8 cfg t inBuf.length st).effCnt ≠ effAlen cfg.effMapScale2 inBuf.length ∧
            cfg.effMaxPerc < (bitflip8 cfg t inBuf.length st).effCnt * 100 / effAlen cfg.effMapScale2 inBuf.length
        then List.replicate (effAlen cfg.effMapScale2 inBuf.length) 1 else effMapAfter cfg t inBuf inBuf.length := by
  obtain ⟨hm₀, hc₀⟩ := effMapInit_after cfg t inBuf hlen st
  obtain ⟨h₁, e₁⟩ := foldl_proj (f := flip8Round cfg t inBuf.length) (I := fun s : DetSt => s.outBuf = inBuf)
    (fun s => (s.effMap, s.effCnt)) (effStep cfg t inBuf) (List.range inBuf.length)
    (fun i _ s hs => by rw [flip8Round_eq cfg t i hs]; exact ⟨hs, rfl⟩)
    (effMapInit cfg inBuf.length st) (by simp only [effMapInit_outBuf, h])
  obtain ⟨c', e₂, hc'⟩ := effSteps_after cfg t inBuf st.effCnt inBuf.length le_rfl _ hc₀
  rw [hm₀, e₂, Prod.mk.injEq] at e₁
  unfold bitflip8 effMapDense
  dsimp only
  generalize List.foldl (flip8Round cfg t inBuf.length) (effMapInit cfg inBuf.length st)
    (List.range inBuf.length) = S at h₁ e₁
  obtain ⟨e₃, e₄⟩ := e₁
  split <;> simp only [h₁, e₃, e₄, hc', true_and, and_self, if_true, if_false, *]

/-- `bitflip8_effector_map` on the 32 bytes `0, 1, ..., 31` (four blocks of eight), with a path
that reads byte 10 only: the map flags the first and last blocks and the block of byte 10, and
three flagged blocks out of four are not dense enough at `EFF_MAX_PERC = 90`. -/
theorem bitflip8_effector_map_byte10 :
    let cfg : DetCfg := ⟨35, [], [], [], [], [], 200, 50, 1048576, 128, false, 0, false, 0, false, 3, 4, 90, 10,
      ⟨3, 32⟩⟩
    let t : Target := ⟨fun b => (b.getD 10 0).toNat, fun _ => false⟩
    let inBuf : Buf := (List.range 32).map Nat.toUInt8
    let st : DetSt := ⟨inBuf, [], [], [], 1, ⟨0, fun _ => 0, 0⟩, [], Rng.zeros, []⟩
    (st.outBuf = inBuf ∧ 0 < inBuf.length) ∧ effMapAfter cfg t inBuf inBuf.length = [1, 1, 0, 1] ∧
    ((bitflip8 cfg t inBuf.length st).outBuf = inBuf ∧
      (bitflip8 cfg t inBuf.length st).effCnt + 1 = st.effCnt + (effMapAfter cfg t inBuf inBuf.length).count 1 ∧
      (bitflip8 cfg t inBuf.length st).effMap =
        if (bitflip8 cfg t inBuf.length st).effCnt ≠ effAlen cfg.effMapScale2 inBuf.length ∧
            cfg.effMaxPerc < (bitflip8 cfg t inBuf.length st).effCnt * 100 / effAlen cfg.effMapScale2 inBuf.length
        then List.replicate (effAlen cfg.effMapScale2 inBuf.length) 1 else effMapAfter cfg t inBuf inBuf.length) :=
  ⟨⟨rfl, by decide⟩, by decide, bitflip8_effector_map _ _ _ _ rfl (by decide)⟩

/-! ## Bitflip 1/1 hands over the tokens of the token model -/

section Flip1

variable (cfg : DetCfg) (t : Target) {inBuf : Buf}

theorem tokenLoop_append (execCksum : Nat) (inBuf : Buf) (cks : Nat → Nat) :
    ∀ (ks ks' : List Nat) (st : TokenSt) (toks : List Buf),
      tokenLoop cfg.auto execCksum inBuf cks (ks ++ ks') st toks =
        tokenLoop cfg.auto execCksum inBuf cks ks' (tokenLoop cfg.auto execCksum inBuf cks ks st toks).1
          (tokenLoop cfg.auto execCksum inBuf cks ks st toks).2
  | [], _, _, _ => rfl
  | k :: ks, ks', st, toks => by
    simp only [List.cons_append, tokenLoop]
    exact tokenLoop_append execCksum inBuf cks ks ks' _ _

/-- A round of `bitflip 1/1`: the run of the flipped bit and, at the last bit of a byte, the
token step on the byte and the checksum of that run. -/
theorem flip1Round_eq {st : DetSt} (b : Nat) (h : st.outBuf = inBuf) :
    flip1Round cfg t inBuf.length st b =
      if !cfg.nonInstrumentedMode && b % 8 == 7 then
        { st with execs := st.execs ++ [flipBits inBuf b 1]
                  tok := (tokenStep cfg.auto cfg.execCksum (b == inBuf.length * 8 - 1) (inBuf.getD (b / 8) 0)
                    (t.cksum (flipBits inBuf b 1)) st.tok).1
                  autos := st.autos ++ (tokenStep cfg.auto cfg.execCksum (b == inBuf.length * 8 - 1)
                    (inBuf.getD (b / 8) 0) (t.cksum (flipBits inBuf b 1)) st.tok).2 }
      else { st with execs := st.execs ++ [flipBits inBuf b 1] } := by
  subst h
  unfold flip1Round walkingBitRound
  simp only [DetSt.run, DetSt.exec, flipBits_flipBits, List.take_of_length_le (flipBits_length _ _ _).le]

/-- The first seven bits of a byte only run their flips. -/
theorem flip1Rounds_low {n : Nat} : ∀ (j : Nat), j ≤ 7 → ∀ st : DetSt, st.outBuf = inBuf →
    ((List.range j).map (n * 8 + ·)).foldl (flip1Round cfg t inBuf.length) st =
      { st with execs := st.execs ++ (List.range j).map fun i => flipBits inBuf (n * 8 + i) 1 }
  | 0, _, st, _ => by simp
  | j + 1, hj, st, h => by
    have h' : ({ st with execs := st.execs ++ (List.range j).map fun i => flipBits inBuf (n * 8 + i) 1 } :
      DetSt).outBuf = inBuf := h
    rw [List.range_succ, List.map_append, List.foldl_append, flip1Rounds_low j (by omega) st h,
      List.map_singleton, List.foldl_cons, List.foldl_nil, flip1Round_eq cfg t _ h',
      if_neg (by simp only [Bool.and_eq_true, beq_iff_eq, not_and]; intro _; omega)]
    simp

/-- The bytes below `n`: their flips, and the token loop over them. -/
theorem flip1Rounds_bytes (hni : cfg.nonInstrumentedMode = false) (st : DetSt) (h : st.outBuf = inBuf) :
    ∀ n ≤ inBuf.length, (List.range (n * 8)).foldl (flip1Round cfg t inBuf.length) st =
      { st with
        execs := st.execs ++ (List.range (n * 8)).map fun b => flipBits inBuf b 1
        tok := (tokenLoop cfg.auto cfg.execCksum inBuf (fun k => t.cksum (flipBits inBuf (k * 8 + 7) 1))
          (List.range n) st.tok []).1
        autos := st.autos ++ (tokenLoop cfg.auto cfg.execCksum inBuf
          (fun k => t.cksum (flipBits inBuf (k * 8 + 7) 1)) (List.range n) st.tok []).2 }
  | 0, _ => by simp [tokenLoop]
  | n + 1, hn => by
    have hlast : (n * 8 + 7 == inBuf.length * 8 - 1) = decide (n + 1 = inBuf.length) := by
      rw [Bool.eq_iff_iff, beq_iff_eq, decide_eq_true_iff]; omega
    have hbyte : (n * 8 + 7) / 8 = n := by omega
    rw [show (n + 1) * 8 = n * 8 + 8 by ring, List.range_add, List.foldl_append]
    have e := flip1Rounds_bytes hni st h n (by omega)
    generalize List.foldl (flip1Round cfg t inBuf.length) st (List.range (n * 8)) = S₀ at e ⊢
    have h₀ : S₀.outBuf = inBuf := by rw [e]; exact h
    rw [show List.range 8 = List.range 7 ++ [7] from rfl, List.map_append, List.foldl_append,
      flip1Rounds_low cfg t 7 le_rfl S₀ h₀, List.map_singleton, List.foldl_cons, List.foldl_nil,
      @flip1Round_eq cfg t inBuf { S₀ with execs := S₀.execs ++ _ } _ h₀, if_pos (by simp [hni]; omega), hlast,
      hbyte, e, List.range_succ n, tokenLoop_append cfg]
    simp [tokenLoop, List.map_append, List.append_assoc]

/-- **`bitflip 1/1` hands `maybe_add_auto` the tokens of the token model.** In instrumented mode,
from `out_buf = in_buf`, the in-place stage runs every single-bit flip of `in_buf` in order,
leaves `out_buf = in_buf`, and hands over exactly the tokens of `bitflip1Tokens` (AutoTokens.lean)
with the checksums of the runs that flip bit 0 of each byte, leaving its `a_len`, `a_collect` and
`prev_cksum`, from the `a_len` and `a_collect` it found. -/
theorem bitflip1_collects_tokens (hni : cfg.nonInstrumentedMode = false) (st : DetSt) (h : st.outBuf = inBuf) :
    bitflip1 cfg t inBuf.length st = { st with
      execs := st.execs ++ (List.range (inBuf.length * 8)).map fun b => flipBits inBuf b 1
      tok := (bitflip1Tokens cfg.auto cfg.execCksum inBuf (fun k => t.cksum (flipBits inBuf (k * 8 + 7) 1))
        st.tok.aLen st.tok.aCollect).1
      autos := st.autos ++ (bitflip1Tokens cfg.auto cfg.execCksum inBuf
        (fun k => t.cksum (flipBits inBuf (k * 8 + 7) 1)) st.tok.aLen st.tok.aCollect).2 } := by
  unfold bitflip1
  rw [flip1Rounds_bytes cfg t hni { st with tok.prevCksum := cfg.execCksum } h _ le_rfl]
  rfl

/-- `bitflip1_collects_tokens` on `"IHD"` with every flip moving the path the same way: the stage
hands over the token `"IHD"`. -/
theorem bitflip1_collects_tokens_ihd :
    let cfg : DetCfg := ⟨35, [], [], [], [], [], 200, 50, 1048576, 128, false, 0, false, 0, false, 3, 128, 90, 0,
      ⟨3, 32⟩⟩
    let t : Target := ⟨fun _ => 1, fun _ => false⟩
    let st : DetSt := ⟨[0x49, 0x48, 0x44], [], [], [], 1, ⟨0, fun _ => 0, 0⟩, [], Rng.zeros, []⟩
    (cfg.nonInstrumentedMode = false ∧ st.outBuf = [0x49, 0x48, 0x44]) ∧
    (bitflip1Tokens cfg.auto cfg.execCksum [0x49, 0x48, 0x44] (fun k => t.cksum (flipBits [0x49, 0x48, 0x44] (k * 8 + 7) 1))
      st.tok.aLen st.tok.aCollect).2 = [[0x49, 0x48, 0x44]] ∧
    bitflip1 cfg t ([0x49, 0x48, 0x44] : Buf).length st = { st with
      execs := st.execs ++ (List.range (([0x49, 0x48, 0x44] : Buf).length * 8)).map
        fun b => flipBits [0x49, 0x48, 0x44] b 1
      tok := (bitflip1Tokens cfg.auto cfg.execCksum [0x49, 0x48, 0x44]
        (fun k => t.cksum (flipBits [0x49, 0x48, 0x44] (k * 8 + 7) 1)) st.tok.aLen st.tok.aCollect).1
      autos := st.autos ++ (bitflip1Tokens cfg.auto cfg.execCksum [0x49, 0x48, 0x44]
        (fun k => t.cksum (flipBits [0x49, 0x48, 0x44] (k * 8 + 7) 1)) st.tok.aLen st.tok.aCollect).2 } :=
  ⟨⟨rfl, rfl⟩, by decide, bitflip1_collects_tokens _ _ rfl _ rfl⟩

end Flip1

/-! ## The arith and interest stages run their candidate lists -/

/-- The candidates of a stage that writes values over the `w`-byte windows starting below `n`:
at each start `i` that `skip` does not skip, every try for the value `in_buf` holds there whose
test passes, in order, written into `in_buf`. -/
def storeCandidates (inBuf : Buf) (w n : Nat) (skip : Nat → Bool) (tries : Nat → List (Bool × Nat)) :
    List Buf :=
  (List.range n).flatMap fun i =>
    if skip i then [] else ((tries (loadLE inBuf i w)).filter Prod.fst).map fun t => storeLE inBuf i w t.2

section ValueStages

variable {inBuf : Buf} {i w : Nat}

/-- A try from a state whose window holds some value: run when its test passes, and the window
then holds the try's value. -/
theorem storeRun_eq (hp : i + w ≤ inBuf.length) (t : Bool × Nat) {st : DetSt} {x : Nat}
    (h : st.outBuf = storeLE inBuf i w x) :
    st.storeRun inBuf.length i w t = if t.1 then
      { st with execs := st.execs ++ [storeLE inBuf i w t.2], outBuf := storeLE inBuf i w t.2 } else st := by
  unfold DetSt.storeRun
  split
  · simp only [DetSt.run, DetSt.exec, DetSt.store, h, storeLE_storeLE _ _ hp,
      List.take_of_length_le (storeLE_length _ hp).le]
  · rfl

/-- The tries at `i` run those whose test passes, in order, and leave some value in the window. -/
theorem storeRuns_eq (hp : i + w ≤ inBuf.length) :
    ∀ (tries : List (Bool × Nat)) (st : DetSt) (x : Nat), st.outBuf = storeLE inBuf i w x →
      ∃ y, tries.foldl (DetSt.storeRun inBuf.length i w) st =
        { st with execs := st.execs ++ (tries.filter Prod.fst).map fun t => storeLE inBuf i w t.2
                  outBuf := storeLE inBuf i w y }
  | [], st, x, h => ⟨x, by rw [← h]; simp⟩
  | t :: ts, st, x, h => by
    rw [List.foldl_cons, storeRun_eq hp t h]
    cases ht : t.1
    · obtain ⟨y, e⟩ := storeRuns_eq hp ts st x h
      exact ⟨y, by simpa [ht] using e⟩
    · obtain ⟨y, e⟩ := storeRuns_eq hp ts
        { st with execs := st.execs ++ [storeLE inBuf i w t.2], outBuf := storeLE inBuf i w t.2 } t.2 rfl
      exact ⟨y, by simp [e, ht, List.filter_cons]⟩

/-- Tries at `i` from `out_buf = in_buf`, then `in_buf`'s value written back: the runs of the
tries whose test passes, and nothing else changed. -/
theorem storeRunsRestore_eq (hp : i + w ≤ inBuf.length) (tries : List (Bool × Nat)) {st : DetSt}
    (h : st.outBuf = inBuf) :
    (tries.foldl (DetSt.storeRun inBuf.length i w) st).store i w (loadLE inBuf i w) =
      { st with execs := st.execs ++ (tries.filter Prod.fst).map fun t => storeLE inBuf i w t.2 } := by
  obtain ⟨y, e⟩ := storeRuns_eq hp tries st _ (by rw [h, storeLE_loadLE hp])
  rw [e]
  subst h
  simp only [DetSt.store, storeLE_storeLE _ _ hp, storeLE_loadLE hp]

variable (cfg : DetCfg)

/-- A round of an arith stage at a window inside `in_buf` runs the tries of every `j` whose test
passes, in order, and changes nothing else. -/
theorem arithRound_eq (tries : Nat → Nat → List (Bool × Nat)) (hp : i + w ≤ inBuf.length) {st : DetSt}
    (h : st.outBuf = inBuf) :
    arithRound cfg w tries inBuf.length st i =
      { st with
        execs := st.execs ++
          if st.skipPos cfg (cfg.rbFuzzing != 0) i w then [] else
            (((List.range' 1 cfg.arithMax).flatMap (tries (loadLE inBuf i w))).filter Prod.fst).map
              fun t => storeLE inBuf i w t.2 } := by
  subst h
  unfold arithRound
  split
  · simp
  · rw [List.filter_flatMap, List.map_flatMap]
    exact storeRounds_eq _ st _ fun j _ s hs => storeRunsRestore_eq hp _ (by rw [← hs])

/-- A round of `interest 16/8` or `32/8` runs the tries of every value whose test passes. -/
theorem interestRound_eq (vals : List Int) (tries : Nat → Int → List (Bool × Nat)) (hp : i + w ≤ inBuf.length)
    {st : DetSt} (h : st.outBuf = inBuf) :
    interestRound cfg w vals tries inBuf.length st i =
      { st with
        execs := st.execs ++
          if st.skipPos cfg (cfg.rbFuzzing != 0) i w then [] else
            ((vals.flatMap (tries (loadLE inBuf i w))).filter Prod.fst).map fun t => storeLE inBuf i w t.2 } := by
  subst h
  unfold interestRound
  split
  · simp
  · dsimp only
    rw [← foldl_flatMap]
    exact storeRunsRestore_eq hp _ rfl

/-- A round of `interest 8/8` runs every value that `could_be_bitflip` and `could_be_arith` do
not skip. -/
theorem interest8Round_eq (hp : i + 1 ≤ inBuf.length) {st : DetSt} (h : st.outBuf = inBuf) :
    interest8Round cfg inBuf.length st i =
      { st with
        execs := st.execs ++
          if st.skipPos cfg (cfg.rbFuzzing != 0) i 1 then [] else
            ((cfg.interesting8.map fun v => (!(couldBeBitflip (loadLE inBuf i 1 ^^^ uN 1 v) ||
                couldBeArith cfg.arithMax (loadLE inBuf i 1) (uN 1 v) 1), uN 1 v)).filter Prod.fst).map
              fun t => storeLE inBuf i 1 t.2 } := by
  subst h
  unfold interest8Round
  split
  · simp
  · dsimp only
    rw [List.map_eq_flatMap _ cfg.interesting8, List.filter_flatMap, List.map_flatMap]
    apply storeRounds_eq
    intro v _ s hs
    have ho : s.outBuf = st.outBuf := by rw [← hs]
    split
    · rename_i hc
      simp [hc]
    · rename_i hc
      rw [Bool.not_eq_true] at hc
      simpa [hc] using storeRunsRestore_eq hp [(true, uN 1 v)] ho

/-- The rounds of a stage over the windows starting below `n`, all inside `in_buf`, collect the
candidates of each round. -/
theorem valueRounds_eq (R : DetSt → Nat → DetSt) (tries : Nat → List (Bool × Nat)) {n : Nat}
    (hn : n + w ≤ inBuf.length + 1) {st : DetSt} (h : st.outBuf = inBuf)
    (hR : ∀ i, i + w ≤ inBuf.length → ∀ s : DetSt, s.outBuf = inBuf → R s i = { s with
      execs := s.execs ++ if s.skipPos cfg (cfg.rbFuzzing != 0) i w then [] else
        ((tries (loadLE inBuf i w)).filter Prod.fst).map fun t => storeLE inBuf i w t.2 }) :
    (List.range n).foldl R st =
      { st with execs := st.execs ++ storeCandidates inBuf w n (fun i => st.skipPos cfg (cfg.rbFuzzing != 0) i w) tries } :=
  storeRounds_eq _ st _ fun i hi s hs => by
    have hk : s.skipPos cfg (cfg.rbFuzzing != 0) i w = st.skipPos cfg (cfg.rbFuzzing != 0) i w := by
      rw [← hs]; rfl
    rw [hR i (by rw [List.mem_range] at hi; omega) s (by rw [← h, ← hs]), hk]

/-- A stage on an input too short for its window runs nothing. -/
theorem storeCandidates_short (skip : Nat → Bool) (tries : Nat → List (Bool × Nat)) {n : Nat} (hn : n = 0) :
    storeCandidates inBuf w n skip tries = [] := by
  subst hn; rfl

theorem DetSt.execs_append_nil (st : DetSt) : { st with execs := st.execs ++ [] } = st := by
  simp

/-- **The arith stages run their candidate lists.** From `out_buf = in_buf`, `arith 8/8`, `16/8`
and `32/8` execute exactly `storeCandidates` of their tries: at every window start that the
effector map (and in rare-branch mode the branch mask) does not skip, for `j = 1 .. ARITH_MAX` in
order, each of `orig + j`, `orig - j` (and for 16 and 32 bits their big-endian forms) that the
width test and `could_be_bitflip` let through, written into `in_buf`; nothing under `no_arith`.
Each stage changes nothing else: `out_buf` is `in_buf` again. -/
theorem arith_run_candidates {st : DetSt} (h : st.outBuf = inBuf) :
    arith8 cfg inBuf.length st =
        { st with
          execs := st.execs ++ if cfg.noArith then [] else
            storeCandidates inBuf 1 inBuf.length (fun i => st.skipPos cfg (cfg.rbFuzzing != 0) i 1)
              fun o => (List.range' 1 cfg.arithMax).flatMap (arith8Tries o) } ∧
      arith16 cfg inBuf.length st =
        { st with
          execs := st.execs ++ if cfg.noArith then [] else
            storeCandidates inBuf 2 (inBuf.length - 1) (fun i => st.skipPos cfg (cfg.rbFuzzing != 0) i 2)
              fun o => (List.range' 1 cfg.arithMax).flatMap (arith16Tries o) } ∧
      arith32 cfg inBuf.length st =
        { st with
          execs := st.execs ++ if cfg.noArith then [] else
            storeCandidates inBuf 4 (inBuf.length - 3) (fun i => st.skipPos cfg (cfg.rbFuzzing != 0) i 4)
              fun o => (List.range' 1 cfg.arithMax).flatMap (arith32Tries o) } := by
  have rounds := fun (w : Nat) (tries : Nat → Nat → List (Bool × Nat)) (n : Nat)
      (hn : n + w ≤ inBuf.length + 1) =>
    valueRounds_eq cfg (arithRound cfg w tries inBuf.length)
      (fun o => (List.range' 1 cfg.arithMax).flatMap (tries o)) hn h fun _ hi _ hs => arithRound_eq cfg tries hi hs
  unfold arith8 arith16 arith32
  cases cfg.noArith
  · simp only [Bool.false_eq_true, false_or, ↓reduceIte]
    refine ⟨rounds 1 _ _ (by omega), ?_, ?_⟩ <;> split
    · rw [storeCandidates_short _ _ (by omega), DetSt.execs_append_nil]
    · exact rounds 2 _ _ (by omega)
    · rw [storeCandidates_short _ _ (by omega), DetSt.execs_append_nil]
    · exact rounds 4 _ _ (by omega)
  · simp only [true_or, ↓reduceIte, DetSt.execs_append_nil, and_self]

/-- `arith_run_candidates` on the byte `0` with `ARITH_MAX = 2`: `1`, `255` and `2` are single
walking flips of `0` and `could_be_bitflip` drops them, so `arith 8/8` runs `254` alone. -/
theorem arith_run_candidates_zero :
    let cfg : DetCfg := ⟨2, [], [], [], [], [], 200, 50, 1048576, 128, false, 0, false, 0, false, 3, 128, 90, 0,
      ⟨3, 32⟩⟩
    let st : DetSt := ⟨[0], [], [7, 7], [1], 1, ⟨0, fun _ => 0, 0⟩, [], Rng.zeros, []⟩
    st.outBuf = [0] ∧
      storeCandidates [0] 1 1 (fun i => st.skipPos cfg (cfg.rbFuzzing != 0) i 1)
        (fun o => (List.range' 1 cfg.arithMax).flatMap (arith8Tries o)) = [[254]] ∧
      (arith8 cfg ([0] : Buf).length st =
        { st with
          execs := st.execs ++ if cfg.noArith then [] else
            storeCandidates [0] 1 ([0] : Buf).length (fun i => st.skipPos cfg (cfg.rbFuzzing != 0) i 1)
              fun o => (List.range' 1 cfg.arithMax).flatMap (arith8Tries o) } ∧
      arith16 cfg ([0] : Buf).length st =
        { st with
          execs := st.execs ++ if cfg.noArith then [] else
            storeCandidates [0] 2 (([0] : Buf).length - 1) (fun i => st.skipPos cfg (cfg.rbFuzzing != 0) i 2)
              fun o => (List.range' 1 cfg.arithMax).flatMap (arith16Tries o) } ∧
      arith32 cfg ([0] : Buf).length st =
        { st with
          execs := st.execs ++ if cfg.noArith then [] else
            storeCandidates [0] 4 (([0] : Buf).length - 3) (fun i => st.skipPos cfg (cfg.rbFuzzing != 0) i 4)
              fun o => (List.range' 1 cfg.arithMax).flatMap (arith32Tries o) }) :=
  ⟨rfl, by decide, arith_run_candidates _ rfl⟩

/-- **The interest stages run their candidate lists.** From `out_buf = in_buf`, `interest 8/8`
executes, at every byte that is not skipped, each value of `interesting_8` that neither
`could_be_bitflip` nor `could_be_arith` skips; `interest 16/8` and `32/8` execute, at every window
start that is not skipped, for each value of their table in order, its little-endian form and
then, when it differs, its big-endian form, each when none of `could_be_bitflip`,
`could_be_arith` and `could_be_interest` skips it (nothing under `no_arith`). Each stage
changes nothing else: `out_buf` is `in_buf` again. -/
theorem interest_run_candidates {st : DetSt} (h : st.outBuf = inBuf) :
    interest8 cfg inBuf.length st =
        { st with
          execs := st.execs ++
            storeCandidates inBuf 1 inBuf.length (fun i => st.skipPos cfg (cfg.rbFuzzing != 0) i 1)
              fun o => cfg.interesting8.map fun v =>
                (!(couldBeBitflip (o ^^^ uN 1 v) || couldBeArith cfg.arithMax o (uN 1 v) 1), uN 1 v) } ∧
      interest16 cfg inBuf.length st =
        { st with
          execs := st.execs ++ if cfg.noArith then [] else
            storeCandidates inBuf 2 (inBuf.length - 1) (fun i => st.skipPos cfg (cfg.rbFuzzing != 0) i 2)
              fun o => cfg.interesting16.flatMap (interest16Tries cfg o) } ∧
      interest32 cfg inBuf.length st =
        { st with
          execs := st.execs ++ if cfg.noArith then [] else
            storeCandidates inBuf 4 (inBuf.length - 3) (fun i => st.skipPos cfg (cfg.rbFuzzing != 0) i 4)
              fun o => cfg.interesting32.flatMap (interest32Tries cfg o) } := by
  have rounds := fun (w : Nat) (vals : List Int) (tries : Nat → Int → List (Bool × Nat)) (n : Nat)
      (hn : n + w ≤ inBuf.length + 1) =>
    valueRounds_eq cfg (interestRound cfg w vals tries inBuf.length) (fun o => vals.flatMap (tries o))
      hn h fun _ hi _ hs => interestRound_eq cfg vals tries hi hs
  refine ⟨valueRounds_eq cfg _ _ (by omega) h fun _ hi _ hs => interest8Round_eq cfg hi hs, ?_⟩
  unfold interest16 interest32
  cases cfg.noArith
  · simp only [Bool.false_eq_true, false_or, ↓reduceIte]
    constructor <;> split
    · rw [storeCandidates_short _ _ (by omega), DetSt.execs_append_nil]
    · exact rounds 2 _ _ _ (by omega)
    · rw [storeCandidates_short _ _ (by omega), DetSt.execs_append_nil]
    · exact rounds 4 _ _ _ (by omega)
  · simp only [true_or, ↓reduceIte, DetSt.execs_append_nil, and_self]

/-- `interest_run_candidates` on the byte `0` with the `INTERESTING_8` table of `config.h`:
every value but `100` and `127` is a walking flip of `0` (or `0` itself), so `interest 8/8`
runs those two. -/
theorem interest_run_candidates_zero :
    let cfg : DetCfg := ⟨35, [-128, -1, 0, 1, 16, 32, 64, 100, 127], [], [], [], [], 200, 50, 1048576, 128, false, 0,
      false, 0, false, 3, 128, 90, 0, ⟨3, 32⟩⟩
    let st : DetSt := ⟨[0], [], [7, 7], [1], 1, ⟨0, fun _ => 0, 0⟩, [], Rng.zeros, []⟩
    st.outBuf = [0] ∧
      storeCandidates [0] 1 1 (fun i => st.skipPos cfg (cfg.rbFuzzing != 0) i 1)
        (fun o => cfg.interesting8.map fun v =>
          (!(couldBeBitflip (o ^^^ uN 1 v) || couldBeArith cfg.arithMax o (uN 1 v) 1), uN 1 v)) = [[100], [127]] ∧
      (interest8 cfg ([0] : Buf).length st =
        { st with
          execs := st.execs ++
            storeCandidates [0] 1 ([0] : Buf).length (fun i => st.skipPos cfg (cfg.rbFuzzing != 0) i 1)
              fun o => cfg.interesting8.map fun v =>
                (!(couldBeBitflip (o ^^^ uN 1 v) || couldBeArith cfg.arithMax o (uN 1 v) 1), uN 1 v) } ∧
      interest16 cfg ([0] : Buf).length st =
        { st with
          execs := st.execs ++ if cfg.noArith then [] else
            storeCandidates [0] 2 (([0] : Buf).length - 1) (fun i => st.skipPos cfg (cfg.rbFuzzing != 0) i 2)
              fun o => cfg.interesting16.flatMap (interest16Tries cfg o) } ∧
      interest32 cfg ([0] : Buf).length st =
        { st with
          execs := st.execs ++ if cfg.noArith then [] else
            storeCandidates [0] 4 (([0] : Buf).length - 3) (fun i => st.skipPos cfg (cfg.rbFuzzing != 0) i 4)
              fun o => cfg.interesting32.flatMap (interest32Tries cfg o) }) :=
  ⟨rfl, by decide, interest_run_candidates _ rfl⟩

/-- The redundancy tests assume every stage ran at every position, but the effector map skips
positions stage by stage. With `EFF_MAP_SCALE2 = 3`, `EFF_MIN_LEN` at 16 and a target branch that
a flip of any of the first 15 bytes loses, the 17-byte input with `5` at byte 15 leaves block 1
of the effector map clear: `arith 8/8` and `interest 8/8` skip byte 15, while `interest 16/8` at
15 (blocks 1 and 2) skips `[0x10, 0x00]` as `5 + 11`. No stage from `bitflip 8/8` to
`interest 8/8` runs that candidate. -/
theorem interest16_skips_unrun_arith :
    let cfg : DetCfg := ⟨35, [-128, -1, 0, 1, 16, 32, 64, 100, 127],
      [-128, -1, 0, 1, 16, 32, 64, 100, 127, -32768, -129, 128, 255, 256, 512, 1000, 1024, 4096, 32767],
      [], [], [], 200, 50, 1048576, 128, false, 1, false, 1, false, 3, 16, 90, 0, ⟨3, 32⟩⟩
    let inBuf : Buf := List.replicate 15 0 ++ [5, 0]
    let t : Target := ⟨fun _ => 0, fun b => b.take 15 == inBuf.take 15⟩
    let st := rbProbeLoops cfg t 17 (bitflip8 cfg t 17
      ⟨inBuf, [], List.replicate 18 0, [], 1, ⟨0, fun _ => 0, 0⟩, [], Rng.zeros, []⟩)
    let cand := storeLE inBuf 15 2 16
    st.effMap = [1, 0, 1] ∧ cand ≠ inBuf ∧ st.skipPos cfg true 15 1 = true ∧
      st.skipPos cfg true 15 2 = false ∧ (interest16Tries cfg (loadLE inBuf 15 2) 16).head? = some (false, 16) ∧
      cand ∉ (interest8 cfg 17 (arith32 cfg 17 (arith16 cfg 17 (arith8 cfg 17 st)))).execs := by
  set_option maxRecDepth 20000 in decide

end ValueStages

end FuzzOne
