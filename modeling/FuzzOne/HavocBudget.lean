import FuzzOne.Splice
import FuzzOne.Havoc
import Mathlib.Data.Nat.Log
/-!
# The havoc budget: `stage_max`, its doubling, and the splice cycles
(afl-fuzz-one.c:3392-3426, 4795-4915, 4957-5032)

| here | there |
| --- | --- |
| `BudgetCfg` | `HAVOC_CYCLES`, `HAVOC_CYCLES_INIT`, `SPLICE_HAVOC`, `HAVOC_MIN`, `SPLICE_CYCLES` (`config.h`), `afl->havoc_max_mult`, `afl->havoc_div` |
| `havocSetup` | `havoc_stage:` up to the loop (afl-fuzz-one.c:3401-3419) |
| `HavocExec`, `LoopSt`, `havocLoop` | `for (afl->stage_cur = 0; afl->stage_cur < afl->stage_max; ++afl->stage_cur)`, its `goto abandon_entry` (4800-4810) and the doubling (4897-4915) |
| `SpliceEnv`, `retrySplicing` | `retry_splicing:` (afl-fuzz-one.c:4957-5030) |
| `PhaseSt`, `havocPhase` | the havoc passes and the retries between them |

A havoc iteration enters as `exec`, from what it works on to what it leaves and what
`common_fuzz_stuff` and `queued_paths` said: abandon, a find, or nothing new. `perf_score` is a
`u32` and is doubled as one; the type of `stage_max` is in `afl-fuzz.h`, which src/ does not
have, so it is a natural number here, and `havoc_budget` shows it stays below `2 ^ 31`.

The loop bound grows while the loop runs, but a doubling needs
`perf_score <= havoc_max_mult * 100` and doubles `perf_score` too: from a positive `perf_score`,
at most `⌊log₂ (havoc_max_mult * 100 / perf_score)⌋ + 1` doublings happen, and the loop runs at
most `stage_max * 2 ^` that many iterations (`havocLoop_spec`, `havoc_budget`). Every pass after the first
needs `splice_cycle++ < SPLICE_CYCLES` (`havocPhase_passes_le`).
-/
namespace FuzzOne

/-- The constants the budget reads. -/
structure BudgetCfg where
  havocCycles : Nat
  havocCyclesInit : Nat
  spliceHavoc : Nat
  havocMin : Nat
  spliceCycles : Nat
  havocMaxMult : Nat
  havocDiv : Nat

/-- `afl->havoc_max_mult * 100`, computed in `u32`. -/
def BudgetCfg.maxPerf (cfg : BudgetCfg) : Nat := cfg.havocMaxMult * 100 % 2 ^ 32

/-- `havoc_stage:` up to the loop: the `perf_score` the pass runs with, and its `stage_max`. -/
def havocSetup (cfg : BudgetCfg) (doingDet : Bool) (spliceCycle perfScore origPerf : Nat) : Nat × Nat :=
  let (perf, stageMax) := if spliceCycle = 0 then
      (perfScore, (if doingDet then cfg.havocCyclesInit else cfg.havocCycles) * perfScore % 2 ^ 32 /
        cfg.havocDiv / 100)
    else (origPerf, cfg.spliceHavoc * origPerf % 2 ^ 32 / cfg.havocDiv / 100)
  (perf, if stageMax < cfg.havocMin then cfg.havocMin else stageMax)

/-- What a havoc iteration ends with: `common_fuzz_stuff` asked to abandon, or it ran and
`queued_paths` moved past `havoc_queued` or not. -/
inductive HavocExec
  | abandon | found | nothing
deriving DecidableEq, Repr

/-- The loop's variables, and `world`, what the iterations work on. -/
structure LoopSt (ω : Type) where
  stageCur : Nat
  stageMax : Nat
  perfScore : Nat
  world : ω

/-- The havoc loop, with `maxPerf = afl->havoc_max_mult * 100`: `some (s, true)` is
`goto abandon_entry`, `some (s, false)` the end of the loop, `none` the end of the fuel. -/
def havocLoop {ω : Type} (maxPerf : Nat) (exec : ω → ω × HavocExec) :
    Nat → LoopSt ω → Option (LoopSt ω × Bool)
  | 0, _ => none
  | fuel + 1, s =>
    if s.stageCur < s.stageMax then
      let (w, r) := exec s.world
      match r with
      | .abandon => some ({ s with world := w }, true)
      | .found =>
        let s := if s.perfScore ≤ maxPerf then
            { s with stageMax := s.stageMax * 2, perfScore := s.perfScore * 2 % 2 ^ 32 } else s
        havocLoop maxPerf exec fuel { s with stageCur := s.stageCur + 1, world := w }
      | .nothing => havocLoop maxPerf exec fuel { s with stageCur := s.stageCur + 1, world := w }
    else some (s, false)

/-- The loop at the start of a pass: `stage_cur = 0` and the values of `havocSetup`. -/
def havocStart {ω : Type} (cfg : BudgetCfg) (doingDet : Bool) (spliceCycle perfScore origPerf : Nat)
    (w : ω) : LoopSt ω :=
  ⟨0, (havocSetup cfg doingDet spliceCycle perfScore origPerf).2,
    (havocSetup cfg doingDet spliceCycle perfScore origPerf).1, w⟩

/-- What `retry_splicing` reads besides the pass's variables: `use_splicing`,
`ready_for_splicing_count`, the queue, `orig_in` and `afl->queue_cur->len`. -/
structure SpliceEnv where
  useSplicing : Bool
  readyForSplicingCount : Nat
  queue : HavocEnv
  origIn : Buf
  entryLen : Nat

/-- The variables of the havoc/splice phase: `splice_cycle`, `perf_score`, `in_buf` and `len`
(`inScratch` is `in_buf != orig_in`), `orig_branch_mask`, the havoc buffers, the world, and
`passes`, a history variable counting the havoc passes begun. -/
structure PhaseSt (σ : Type) where
  spliceCycle : Nat
  perfScore : Nat
  inBuf : Buf
  len : Nat
  inScratch : Bool
  origBranchMask : Buf
  havoc : HavocSt
  world : σ
  passes : Nat

/-- `if (in_buf != orig_in) { in_buf = orig_in; len = afl->queue_cur->len; }` -/
def PhaseSt.restoreIn {σ : Type} (env : SpliceEnv) (s : PhaseSt σ) : PhaseSt σ :=
  if s.inScratch then { s with inBuf := env.origIn, len := env.entryLen, inScratch := false } else s

@[simp] theorem PhaseSt.restoreIn_spliceCycle {σ : Type} (env : SpliceEnv) (s : PhaseSt σ) :
    (s.restoreIn env).spliceCycle = s.spliceCycle := by
  unfold restoreIn; split <;> rfl

@[simp] theorem PhaseSt.restoreIn_passes {σ : Type} (env : SpliceEnv) (s : PhaseSt σ) :
    (s.restoreIn env).passes = s.passes := by
  unfold restoreIn; split <;> rfl

/-- `retry_splicing:`: `some (true, s)` is a splice and `goto custom_mutator_stage`,
`some (false, s)` the end of the phase; `none` when the draws of the target, or the
`goto retry_splicing`s, take more than `fuel` rounds. -/
def retrySplicing {σ : Type} (cfg : BudgetCfg) (env : SpliceEnv) : Nat → PhaseSt σ → Option (Bool × PhaseSt σ)
  | 0, _ => none
  | fuel + 1, s =>
    if env.useSplicing then
      let c := s.spliceCycle
      let s := { s with spliceCycle := c + 1 }
      if c < cfg.spliceCycles ∧ 1 < env.readyForSplicingCount ∧ 4 ≤ env.entryLen then
        let s := s.restoreIn env
        match pickSpliceTarget env.queue fuel s.havoc with
        | none => none
        | some (tid, h) =>
          let newBuf := env.queue.queue.getD tid []
          match spliceStep s.inBuf s.len newBuf h.branchMask h.tempLen h.rng with
          | none => retrySplicing cfg env fuel { s with havoc := h }
          | some (_, inBuf, bm, obm, g) =>
            some (true, { s with
              inBuf := inBuf, len := newBuf.length, inScratch := true, origBranchMask := obm
              havoc := { h with outBuf := inBuf, branchMask := bm, rng := g } })
      else some (false, s)
    else some (false, s)

/-- How the phase ends. -/
inductive PhaseEnd
  | abandoned | finished | outOfFuel
deriving DecidableEq, Repr

/-- The havoc/splice phase from `havoc_stage:`, with `doing_det` and `orig_perf` as the stages
before left them: a pass, then `retry_splicing`, and on a splice the next pass. -/
def havocPhase {σ : Type} (cfg : BudgetCfg) (env : SpliceEnv) (doingDet : Bool) (origPerf : Nat)
    (exec : HavocSt × σ → (HavocSt × σ) × HavocExec) : Nat → PhaseSt σ → PhaseEnd × PhaseSt σ
  | 0, s => (.outOfFuel, s)
  | fuel + 1, s =>
    let s := { s with passes := s.passes + 1, havoc := { s.havoc with tempLen := s.len } }
    match havocLoop cfg.maxPerf exec fuel
        (havocStart cfg doingDet s.spliceCycle s.perfScore origPerf (s.havoc, s.world)) with
    | none => (.outOfFuel, s)
    | some (l, ab) =>
      let s := { s with perfScore := l.perfScore, havoc := l.world.1, world := l.world.2 }
      if ab then (.abandoned, s)
      else
        match retrySplicing cfg env fuel s with
        | none => (.outOfFuel, s)
        | some (false, s) => (.finished, s)
        | some (true, s) => havocPhase cfg env doingDet origPerf exec fuel s

/-! ## The doublings left -/

/-- The doublings left from `perf_score = perf` under the cap `max_perf`:
`⌊log₂ (max_perf / perf)⌋ + 1` within the cap, none above it. -/
def doublingBound (maxPerf perf : Nat) : Nat :=
  if perf ≤ maxPerf then Nat.log 2 (maxPerf / perf) + 1 else 0

theorem doublingBound_le (maxPerf p : Nat) : doublingBound maxPerf p ≤ Nat.log 2 (maxPerf / p) + 1 := by
  unfold doublingBound; split <;> omega

/-- A doubling within the cap uses up one doubling. -/
theorem doublingBound_double {maxPerf p : Nat} (h0 : 0 < p) (hp : p ≤ maxPerf) :
    doublingBound maxPerf (p * 2) + 1 = doublingBound maxPerf p := by
  unfold doublingBound
  rw [if_pos hp]
  by_cases h2 : p * 2 ≤ maxPerf
  · rw [if_pos h2, ← Nat.div_div_eq_div_mul, Nat.log_div_base]
    have : 1 ≤ Nat.log 2 (maxPerf / p) := Nat.log_pos (by decide) ((Nat.le_div_iff_mul_le h0).2 (by omega))
    omega
  · have h1 : maxPerf / p = 1 := Nat.div_eq_of_lt_le (by omega) (by omega)
    rw [if_neg h2, h1, Nat.log_one_right]

/-- Within the cap, the doublings left take `perf_score` to at most twice the cap. -/
theorem mul_pow_doublingBound_le {maxPerf p : Nat} (h0 : 0 < p) (hp : p ≤ maxPerf) :
    p * 2 ^ doublingBound maxPerf p ≤ 2 * maxPerf := by
  unfold doublingBound
  rw [if_pos hp, Nat.pow_succ]
  have hq : 0 < maxPerf / p := (Nat.le_div_iff_mul_le h0).2 (by omega)
  have h1 := Nat.pow_log_le_self 2 (Nat.pos_iff_ne_zero.1 hq)
  calc p * (2 ^ Nat.log 2 (maxPerf / p) * 2) = 2 * (2 ^ Nat.log 2 (maxPerf / p) * p) := by
        rw [Nat.mul_comm p, Nat.mul_comm _ 2, Nat.mul_assoc]
    _ ≤ 2 * (maxPerf / p * p) := Nat.mul_le_mul_left 2 (Nat.mul_le_mul_right p h1)
    _ ≤ 2 * maxPerf := Nat.mul_le_mul_left 2 (Nat.div_mul_le_self maxPerf p)

/-! ## The loop runs out of doublings -/

section Loop

variable {ω : Type} (maxPerf : Nat) (exec : ω → ω × HavocExec)

/-- The iterations a loop state can still reach: `stage_max` after every doubling left. -/
def LoopSt.reach (s : LoopSt ω) : Nat := s.stageMax * 2 ^ doublingBound maxPerf s.perfScore

/-- **The havoc loop ends within its reach.** From a positive `perf_score`, for every
executor, the loop returns within `reach - stage_cur + 1` rounds; `stage_max` and `perf_score`
have been doubled together `d` times, `d` at most the doublings left, and no `u32` doubling of
`perf_score` wrapped; the iterations stay within the reach. -/
theorem havocLoop_spec (hM : maxPerf < 2 ^ 31) :
    ∀ (fuel : Nat) (s : LoopSt ω), 0 < s.perfScore → s.stageCur ≤ s.stageMax →
      s.reach maxPerf - s.stageCur < fuel →
      ∃ l ab, havocLoop maxPerf exec fuel s = some (l, ab) ∧
        (∃ d ≤ doublingBound maxPerf s.perfScore,
          l.stageMax = s.stageMax * 2 ^ d ∧ l.perfScore = s.perfScore * 2 ^ d) ∧
        l.stageCur + (if ab then 1 else 0) ≤ s.reach maxPerf
  | 0, _, _, _, h => absurd h (Nat.not_lt_zero _)
  | fuel + 1, s, hp, hc, hb => by
    have hreach : s.stageMax ≤ s.reach maxPerf := Nat.le_mul_of_pos_right _ (Nat.two_pow_pos _)
    unfold havocLoop
    split
    · rename_i hlt
      -- an iteration with no doubling keeps the reach
      have next (w : ω) := havocLoop_spec hM fuel { s with stageCur := s.stageCur + 1, world := w } hp
        (by dsimp only; omega) (by show s.reach maxPerf - (s.stageCur + 1) < fuel; omega)
      obtain ⟨w, r⟩ := exec s.world
      cases r with
      | abandon =>
        exact ⟨_, true, rfl, ⟨0, Nat.zero_le _, by simp, by simp⟩, by simp only [if_true]; omega⟩
      | found =>
        dsimp only
        split
        · -- a doubling within the cap: one doubling less is left, with twice the `stage_max`
          rename_i hle
          have hD := doublingBound_double hp hle
          have hwrap : s.perfScore * 2 % 2 ^ 32 = s.perfScore * 2 := Nat.mod_eq_of_lt (by omega)
          have hr : s.reach maxPerf = s.stageMax * 2 * 2 ^ doublingBound maxPerf (s.perfScore * 2) := by
            rw [LoopSt.reach, ← hD, Nat.pow_succ, Nat.mul_assoc, Nat.mul_comm 2]
          obtain ⟨l, ab, hl, ⟨d, hd, hm, hq⟩, hi⟩ :=
            havocLoop_spec hM fuel ⟨s.stageCur + 1, s.stageMax * 2, s.perfScore * 2 % 2 ^ 32, w⟩
              (by dsimp only; omega) (by dsimp only; omega)
              (by show s.stageMax * 2 * 2 ^ doublingBound maxPerf (s.perfScore * 2 % 2 ^ 32) -
                    (s.stageCur + 1) < fuel
                  rw [hwrap, ← hr]; omega)
          simp only [hwrap, LoopSt.reach] at hd hm hq hi
          refine ⟨l, ab, hl, ⟨d + 1, by omega, ?_, ?_⟩, hr ▸ hi⟩
          · rw [hm, Nat.pow_succ, Nat.mul_assoc, Nat.mul_comm 2]
          · rw [hq, Nat.pow_succ, Nat.mul_assoc, Nat.mul_comm 2]
        · exact next w
      | nothing => exact next w
    · exact ⟨s, false, rfl, ⟨0, Nat.zero_le _, by simp, by simp⟩,
        by simp only [Bool.false_eq_true, ↓reduceIte]; omega⟩

end Loop

/-! ## With the build's constants nothing overflows -/

/-- The build's constants leave the doublings room: `HAVOC_MIN` and `havoc_max_mult` are
positive, and twice the cap times `HAVOC_MIN` plus the three cycle factors is below `2 ^ 31`.
`config.h` has `HAVOC_MIN = 16`, `HAVOC_CYCLES = 256`, `HAVOC_CYCLES_INIT = 1024` and
`SPLICE_HAVOC = 32`, and `havoc_max_mult` is `HAVOC_MAX_MULT = 64` (32 with MOpt). -/
structure BudgetCfg.Fits (cfg : BudgetCfg) : Prop where
  havocMin_pos : 0 < cfg.havocMin
  havocMaxMult_pos : 0 < cfg.havocMaxMult
  room : 2 * (cfg.havocMaxMult * 100) *
    (cfg.havocMin + (cfg.havocCycles + cfg.havocCyclesInit + cfg.spliceHavoc)) < 2 ^ 31

theorem BudgetCfg.Fits.cap_lt {cfg : BudgetCfg} (h : cfg.Fits) : 2 * (cfg.havocMaxMult * 100) < 2 ^ 31 :=
  lt_of_le_of_lt (Nat.le_mul_of_pos_right _ (by have := h.havocMin_pos; omega)) h.room

/-- With room, `afl->havoc_max_mult * 100` does not wrap. -/
theorem BudgetCfg.Fits.maxPerf_eq {cfg : BudgetCfg} (h : cfg.Fits) : cfg.maxPerf = cfg.havocMaxMult * 100 :=
  Nat.mod_eq_of_lt (by have := h.cap_lt; omega)

theorem BudgetCfg.Fits.havocMin_lt {cfg : BudgetCfg} (h : cfg.Fits) : 200 * cfg.havocMin < 2 ^ 31 :=
  lt_of_le_of_lt (Nat.mul_le_mul (by have := h.havocMaxMult_pos; omega) (Nat.le_add_right _ _)) h.room

/-- The `stage_max` a pass starts with is `HAVOC_MIN`, or its factor times its `perf_score`
through the `u32` wrap and the divisions: at most `HAVOC_MIN` plus either. -/
theorem havocSetup_stageMax_le (cfg : BudgetCfg) (doingDet : Bool) (c p op : Nat) :
    (havocSetup cfg doingDet c p op).2 ≤
        cfg.havocMin + (cfg.havocCycles + cfg.havocCyclesInit + cfg.spliceHavoc) * (havocSetup cfg doingDet c p op).1 ∧
      (havocSetup cfg doingDet c p op).2 ≤ cfg.havocMin + 2 ^ 32 / 100 := by
  have key : ∀ k q, k ≤ cfg.havocCycles + cfg.havocCyclesInit + cfg.spliceHavoc →
      (if k * q % 2 ^ 32 / cfg.havocDiv / 100 < cfg.havocMin then cfg.havocMin
        else k * q % 2 ^ 32 / cfg.havocDiv / 100) ≤
          cfg.havocMin + (cfg.havocCycles + cfg.havocCyclesInit + cfg.spliceHavoc) * q ∧
      (if k * q % 2 ^ 32 / cfg.havocDiv / 100 < cfg.havocMin then cfg.havocMin
        else k * q % 2 ^ 32 / cfg.havocDiv / 100) ≤ cfg.havocMin + 2 ^ 32 / 100 := by
    intro k q hk
    have h1 : k * q % 2 ^ 32 / cfg.havocDiv / 100 ≤ k * q % 2 ^ 32 / 100 :=
      Nat.div_le_div_right (Nat.div_le_self _ _)
    have h2 : k * q % 2 ^ 32 / 100 ≤ 2 ^ 32 / 100 := Nat.div_le_div_right (Nat.mod_lt _ (by decide)).le
    have h3 : k * q % 2 ^ 32 / 100 ≤ k * q := (Nat.div_le_self _ _).trans (Nat.mod_le _ _)
    have h4 := Nat.mul_le_mul_right q hk
    split <;> omega
  unfold havocSetup
  by_cases h0 : c = 0
  · cases doingDet
    · simpa only [h0, ↓reduceIte, Bool.false_eq_true] using key cfg.havocCycles p (by omega)
    · simpa only [h0, ↓reduceIte] using key cfg.havocCyclesInit p (by omega)
  · simpa only [h0, ↓reduceIte] using key cfg.spliceHavoc op (by omega)

section Start

variable {ω : Type} (cfg : BudgetCfg) (doingDet : Bool) (c p op : Nat) (w : ω)

/-- **A pass's `stage_max` stays below `2 ^ 31`** through every doubling left, with the build's
constants and a positive `perf_score`. -/
theorem havocStart_reach_lt (hfit : cfg.Fits) (hp : 0 < (havocStart cfg doingDet c p op w).perfScore) :
    (havocStart cfg doingDet c p op w).reach cfg.maxPerf < 2 ^ 31 := by
  obtain ⟨hm1, hm2⟩ := havocSetup_stageMax_le cfg doingDet c p op
  have hroom := hfit.room
  have hmin := hfit.havocMin_lt
  rw [← hfit.maxPerf_eq] at hroom
  simp only [LoopSt.reach, havocStart] at hp ⊢
  generalize (havocSetup cfg doingDet c p op).1 = q at hp hm1 hm2 ⊢
  generalize (havocSetup cfg doingDet c p op).2 = m at hm1 hm2 ⊢
  by_cases hle : q ≤ cfg.maxPerf
  · have h2 := mul_pow_doublingBound_le hp hle
    have h1 : 2 ^ doublingBound cfg.maxPerf q ≤ q * 2 ^ doublingBound cfg.maxPerf q :=
      Nat.le_mul_of_pos_left _ hp
    calc m * 2 ^ doublingBound cfg.maxPerf q
        ≤ (cfg.havocMin + (cfg.havocCycles + cfg.havocCyclesInit + cfg.spliceHavoc) * q) *
            2 ^ doublingBound cfg.maxPerf q := Nat.mul_le_mul_right _ hm1
      _ = cfg.havocMin * 2 ^ doublingBound cfg.maxPerf q +
            (cfg.havocCycles + cfg.havocCyclesInit + cfg.spliceHavoc) * (q * 2 ^ doublingBound cfg.maxPerf q) := by
          rw [Nat.add_mul, Nat.mul_assoc]
      _ ≤ cfg.havocMin * (2 * cfg.maxPerf) +
            (cfg.havocCycles + cfg.havocCyclesInit + cfg.spliceHavoc) * (2 * cfg.maxPerf) :=
          Nat.add_le_add (Nat.mul_le_mul_left _ (h1.trans h2)) (Nat.mul_le_mul_left _ h2)
      _ < 2 ^ 31 := by rw [← Nat.add_mul, Nat.mul_comm]; exact hroom
  · simp only [doublingBound, hle, if_false, Nat.pow_zero, Nat.mul_one]
    omega

end Start

/-! ## At most `SPLICE_CYCLES + 1` passes -/

section Phase

variable {σ : Type} (cfg : BudgetCfg) (env : SpliceEnv)

/-- A retry keeps the passes; one that splices has used a `splice_cycle` below `SPLICE_CYCLES`,
so it leaves `splice_cycle` higher, and at most `SPLICE_CYCLES`. -/
theorem retrySplicing_spec : ∀ (fuel : Nat) (s t : PhaseSt σ) (b : Bool),
    retrySplicing cfg env fuel s = some (b, t) → t.passes = s.passes ∧
      (b = true → s.spliceCycle < t.spliceCycle ∧ t.spliceCycle ≤ cfg.spliceCycles)
  | 0, _, _, _, h => nomatch h
  | fuel + 1, s, t, b, h => by
    unfold retrySplicing at h
    split at h
    · dsimp only at h
      split at h
      · rename_i hc
        split at h
        · cases h
        · split at h
          · -- `goto retry_splicing`
            obtain ⟨h1, h2⟩ := retrySplicing_spec fuel _ t b h
            simp only [PhaseSt.restoreIn_passes, PhaseSt.restoreIn_spliceCycle] at h1 h2
            exact ⟨h1, fun hb => ⟨by have := (h2 hb).1; omega, (h2 hb).2⟩⟩
          · -- the splice
            cases h
            simp only [PhaseSt.restoreIn_passes, PhaseSt.restoreIn_spliceCycle]
            exact ⟨trivial, fun _ => ⟨Nat.lt_succ_self _, hc.1⟩⟩
      · cases h
        exact ⟨rfl, nofun⟩
    · cases h
      exact ⟨rfl, nofun⟩

/-- **A phase begins at most `SPLICE_CYCLES - splice_cycle + 1` havoc passes**, whatever the
executor, the draws and the fuel: every pass after the first follows a splice, which used up a
`splice_cycle` below `SPLICE_CYCLES`. -/
theorem havocPhase_passes_le (doingDet : Bool) (origPerf : Nat)
    (exec : HavocSt × σ → (HavocSt × σ) × HavocExec) : ∀ (fuel : Nat) (s : PhaseSt σ),
      (havocPhase cfg env doingDet origPerf exec fuel s).2.passes ≤
        s.passes + (cfg.spliceCycles - s.spliceCycle) + 1
  | 0, s => Nat.le_add_right_of_le (Nat.le_add_right _ _)
  | fuel + 1, s => by
    unfold havocPhase
    dsimp only
    split
    · exact Nat.add_le_add_right (Nat.le_add_right _ _) 1
    · split
      · exact Nat.add_le_add_right (Nat.le_add_right _ _) 1
      · split
        · exact Nat.add_le_add_right (Nat.le_add_right _ _) 1
        · rename_i t ht
          have h1 := (retrySplicing_spec cfg env fuel _ t false ht).1
          dsimp only at h1 ⊢
          omega
        · rename_i t ht
          obtain ⟨h1, h2⟩ := retrySplicing_spec cfg env fuel _ t true ht
          have ih := havocPhase_passes_le doingDet origPerf exec fuel t
          dsimp only at h1 h2
          have := h2 rfl
          omega

end Phase

/-! ## The budget of the havoc/splice phase -/

/-- **The havoc budget.** With the build's constants, for every executor (every sequence of
finds) and every pass that starts with a positive `perf_score`: the loop returns within
`stage_max * 2 ^ (⌊log₂ (havoc_max_mult * 100 / perf_score)⌋ + 1)` iterations; `stage_max` and
`perf_score` are doubled together `d` times, `d` at most `⌊log₂ (…)⌋ + 1` and `0` above the cap,
with no `u32` wrap of `perf_score` and `stage_max` below `2 ^ 31`. For every splice environment,
executor and fuel, a phase that starts at `splice_cycle` begins at most `SPLICE_CYCLES + 1` havoc
passes. -/
theorem havoc_budget (cfg : BudgetCfg) (hfit : cfg.Fits) {ω : Type} (exec : ω → ω × HavocExec)
    (doingDet : Bool) (spliceCycle perfScore origPerf : Nat) (w : ω) (s : LoopSt ω)
    (hs : s = havocStart cfg doingDet spliceCycle perfScore origPerf w) (hp : 0 < s.perfScore) :
    (∃ l ab, havocLoop cfg.maxPerf exec
        (s.stageMax * 2 ^ (Nat.log 2 (cfg.maxPerf / s.perfScore) + 1) + 1) s = some (l, ab) ∧
      ∃ d ≤ Nat.log 2 (cfg.maxPerf / s.perfScore) + 1, (cfg.maxPerf < s.perfScore → d = 0) ∧
        l.stageMax = s.stageMax * 2 ^ d ∧ l.perfScore = s.perfScore * 2 ^ d ∧ l.stageMax < 2 ^ 31 ∧
        l.stageCur + (if ab then 1 else 0) ≤ s.stageMax * 2 ^ (Nat.log 2 (cfg.maxPerf / s.perfScore) + 1)) ∧
    ∀ {σ : Type} (env : SpliceEnv) (exec' : HavocSt × σ → (HavocSt × σ) × HavocExec) (fuel : Nat)
      (st : PhaseSt σ), st.passes = 0 →
        (havocPhase cfg env doingDet origPerf exec' fuel st).2.passes ≤ cfg.spliceCycles + 1 := by
  subst hs
  have hM : cfg.maxPerf < 2 ^ 31 := by rw [hfit.maxPerf_eq]; have := hfit.cap_lt; omega
  have hD := doublingBound_le cfg.maxPerf (havocStart cfg doingDet spliceCycle perfScore origPerf w).perfScore
  have hreach := Nat.mul_le_mul_left (havocStart cfg doingDet spliceCycle perfScore origPerf w).stageMax
    (Nat.pow_le_pow_right Nat.zero_lt_two hD)
  obtain ⟨l, ab, hl, ⟨d, hd, hm, hq⟩, hi⟩ := havocLoop_spec cfg.maxPerf exec hM _ _ hp (Nat.zero_le _)
    (Nat.lt_succ_of_le ((Nat.sub_le _ _).trans hreach))
  refine ⟨⟨l, ab, hl, d, hd.trans hD, fun hlt => ?_, hm, hq, ?_, hi.trans hreach⟩,
    fun env exec' fuel st h0 => ?_⟩
  · have : doublingBound cfg.maxPerf _ = 0 := if_neg (Nat.not_le.2 hlt)
    omega
  · rw [hm]
    exact lt_of_le_of_lt (Nat.mul_le_mul_left _ (Nat.pow_le_pow_right Nat.zero_lt_two hd))
      (havocStart_reach_lt cfg doingDet spliceCycle perfScore origPerf w hfit hp)
  · have := havocPhase_passes_le cfg env doingDet origPerf exec' fuel st
    omega

/-- `havoc_budget` with the constants of `config.h` and `havoc_div = 1`, for the first pass after
the deterministic stage at `perf_score = 100` (`stage_max = 1024`), and an executor that finds a
path at every iteration. -/
theorem havoc_budget_every_find :
    let cfg : BudgetCfg := ⟨256, 1024, 32, 16, 15, 64, 1⟩
    let exec : Unit → Unit × HavocExec := fun w => (w, .found)
    let s := havocStart cfg true 0 100 100 ()
    cfg.Fits ∧ 0 < s.perfScore ∧
    ((∃ l ab, havocLoop cfg.maxPerf exec
        (s.stageMax * 2 ^ (Nat.log 2 (cfg.maxPerf / s.perfScore) + 1) + 1) s = some (l, ab) ∧
      ∃ d ≤ Nat.log 2 (cfg.maxPerf / s.perfScore) + 1, (cfg.maxPerf < s.perfScore → d = 0) ∧
        l.stageMax = s.stageMax * 2 ^ d ∧ l.perfScore = s.perfScore * 2 ^ d ∧ l.stageMax < 2 ^ 31 ∧
        l.stageCur + (if ab then 1 else 0) ≤ s.stageMax * 2 ^ (Nat.log 2 (cfg.maxPerf / s.perfScore) + 1)) ∧
    ∀ {σ : Type} (env : SpliceEnv) (exec' : HavocSt × σ → (HavocSt × σ) × HavocExec) (fuel : Nat)
      (st : PhaseSt σ), st.passes = 0 →
        (havocPhase cfg env true 100 exec' fuel st).2.passes ≤ cfg.spliceCycles + 1) :=
  ⟨⟨by decide, by decide, by decide⟩, by decide,
    havoc_budget _ ⟨by decide, by decide, by decide⟩ _ true 0 100 100 () _ rfl (by decide)⟩

end FuzzOne
