import FuzzOne.Call
import FuzzOne.InPlace
import Mathlib.Tactic.LiftLets
/-!
# The two passes of a shadow call (afl-fuzz-one.c:1407-1430, 1731-1750, 1843-2145, 5039-5060)

| here | there |
| --- | --- |
| `OpenSt.detCfg`, `OpenSt.detStart` | what `bitflip 1/1` and `bitflip 8/8` read of a call |
| `detFlips` | the bit flips from the first candidate of a stage, as InPlace.lean runs them |
| `bitflipStages` | stages whose `eff_cnt` and `a_len` are those the bit flips leave |
| `DetSet` | `doing_det = 1` at bitflip 1/1 (afl-fuzz-one.c:1843) |

With `run_with_shadow` in rare-branch mode a call fuzzes its entry twice: the baseline pass in
shadow mode, and, after `abandon_entry:` jumps back to `re_run:`, the rare-branch pass. `re_run:`
sets back `perf_score`, the counters and `virgin_bits`, and no other local: whatever the stages
did, the rare-branch pass starts with the `in_buf`, `len`, `out_buf`, `splice_cycle`, `eff_cnt`,
`a_len` and `doing_det` the baseline pass left (`shadow_pass_carries_locals`), with `doing_det = 1`
once the baseline pass ran bitflip 1/1 (`shadow_pass_after_flip1`), and with the `eff_cnt` and
`a_len` of the baseline pass's bit flips (`shadow_pass_flip_counts`). On a 9-byte entry the second
pass starts with `eff_cnt = 2`, `a_len = 10` and `doing_det = 1`, where the first started with
`1`, `0` and `0` (`shadow_second_pass_keeps_locals`).
-/
namespace FuzzOne

/-! ## The bit flips as stages -/

/-- The `DetCfg` of a call: the constants of `dc`, the modes of `afl` and the entry's `exec_cksum`. -/
def OpenSt.detCfg (dc : DetCfg) (s : OpenSt) : DetCfg :=
  { dc with
    rbFuzzing := s.afl.rbFuzzing
    shadowMode := s.globals.shadowMode
    useBranchMask := s.afl.useBranchMask
    nonInstrumentedMode := s.afl.nonInstrumentedMode
    execCksum := s.entry.execCksum }

/-- What the deterministic stage finds of a call (`a_collect`, which only the tokens read, empty). -/
def OpenSt.detStart (s : OpenSt) : DetSt :=
  ⟨s.locals.outBuf, [], s.branchMask, [], s.locals.effCnt, ⟨s.locals.aLen, fun _ => 0, 0⟩, [], s.rng, []⟩

/-- The bit flips from the first candidate of `stage` when no candidate abandons; 2/1 and 4/1,
which write neither `eff_cnt` nor `a_len`, are left out. -/
def detFlips (dc : DetCfg) (t : Target) (stage : FirstStage) (s : OpenSt) : DetSt :=
  match stage with
  | .flip1 => bitflip8 (s.detCfg dc) t s.locals.len (bitflip1 (s.detCfg dc) t s.locals.len s.detStart)
  | .flip8 => bitflip8 (s.detCfg dc) t s.locals.len s.detStart
  | .havoc => s.detStart

/-- Stages whose `eff_cnt` and `a_len` are those the bit flips leave. -/
def bitflipStages (dc : DetCfg) (t : Target) (rest : StagesOracle) : StagesOracle := fun stage c =>
  { rest stage c with effCnt := (detFlips dc t stage c.st).effCnt, aLen := (detFlips dc t stage c.st).tok.aLen }

/-! ## Runs in pieces -/

/-- A run of `m + n` jumps is a run of `m` jumps and then one of `n`. -/
theorem runCall_add (cfg : OpenCfg) (o : OpenOracle) (so : StagesOracle) : ∀ (m n : Nat) (p : Point) (c : Call),
    runCall cfg o so (m + n) p c = runCall cfg o so n (runCall cfg o so m p c).1 (runCall cfg o so m p c).2
  | 0, n, p, c => by rw [Nat.zero_add]; rfl
  | m + 1, n, p, c => by
    rw [Nat.add_right_comm, runCall, runCall]
    exact runCall_add cfg o so m n _ _

/-- A call past the choice after `m` jumps goes on from where they left it. -/
theorem fuzzOneCall_add (cfg : OpenCfg) (o : OpenOracle) (so : StagesOracle) (m n : Nat) (c : Call)
    (h : (fuzzOneCall cfg o so m c).1 ≠ .skipped) :
    fuzzOneCall cfg o so (m + n) c = runCall cfg o so n (fuzzOneCall cfg o so m c).1 (fuzzOneCall cfg o so m c).2 := by
  unfold fuzzOneCall at h ⊢
  rcases h₁ : fuzzOneEntry cfg c.st with ⟨_ | _, s⟩
  · rw [h₁] at h
    exact absurd rfl h
  · rw [h₁] at h
    simp only [Bool.not_true, Bool.false_eq_true, ↓reduceIte] at h ⊢
    rcases h₂ : chooseBranch c.marks s with ⟨_ | _, m', s'⟩
    · rw [h₂] at h
      exact absurd rfl h
    · exact runCall_add cfg o so m n .calibration ⟨m', s'⟩

/-! ## `doing_det` at bitflip 1/1 -/

/-- At the first candidate of bitflip 1/1 and in the stages after it, `doing_det` is set. -/
def DetSet (r : Point × OpenSt) : Prop :=
  r.1.atFlip1 = true → r.2.locals.doingDet = true

theorem DetSet.of_not {r : Point × OpenSt} (h : r.1.atFlip1 = false) : DetSet r := fun h' =>
  absurd (h.symm.trans h') Bool.false_ne_true

/-- A block whose jumps all avoid bitflip 1/1. -/
theorem DetSet.of_contains {next : List Point} {r : Point × OpenSt} (h : next.contains r.1 = true)
    (hn : next.all (fun q => !q.atFlip1) = true) : DetSet r := by
  refine .of_not ?_
  simpa using List.all_eq_true.mp hn _ (List.mem_of_elem_eq_true h)

/-- The skips set `doing_det` as they go to bitflip 1/1. -/
theorem skipChecks_detSet (s : OpenSt) : DetSet (skipChecks s) := by
  unfold skipChecks
  exact iteInduction (motive := DetSet) (fun _ => .of_not rfl) fun _ =>
    iteInduction (motive := DetSet) (fun _ => .of_not rfl) fun _ =>
      iteInduction (motive := DetSet) (fun _ => .of_not rfl) fun _ _ => rfl

/-- The first candidate goes on to the stages of its own stage. -/
theorem firstExec_atFlip1 (o : OpenOracle) (stage : FirstStage) (s : OpenSt)
    (h : (firstExec o stage s).1.atFlip1 = true) : stage = .flip1 := by
  unfold firstExec at h
  dsimp only at h
  split at h <;> cases stage <;> first | rfl | exact absurd h Bool.false_ne_true

/-- Every jump keeps `DetSet`: only the skips go to bitflip 1/1. -/
theorem callStep_detSet (cfg : OpenCfg) (o : OpenOracle) (so : StagesOracle) {p : Point} {c : Call}
    (h : DetSet (p, c.st)) : DetSet ((callStep cfg o so p c).1, (callStep cfg o so p c).2.st) := by
  cases p with
  | calibration => exact .of_contains (calibration_jumps cfg o c.st).1 rfl
  | trimming => exact .of_contains (trimming_jumps o c.st).1 rfl
  | rbTrim => exact .of_not rfl
  | reRun => exact .of_contains (reRunBlock_jumps c.st).1 rfl
  | cmplog => exact .of_contains (cmplogBlock_jumps cfg o c.st).1 rfl
  | skipChecks => exact skipChecks_detSet c.st
  | firstExec stage =>
    intro hp
    obtain rfl := firstExec_atFlip1 o stage c.st hp
    exact h rfl
  | stages _ => exact .of_not rfl
  | abandonEntry => exact .of_contains (abandonEntry_jumps c.st).1.1 rfl
  | skipped | returned | fatal => exact .of_not rfl

theorem runCall_detSet (cfg : OpenCfg) (o : OpenOracle) (so : StagesOracle) :
    ∀ (fuel : Nat) (p : Point) (c : Call), DetSet (p, c.st) →
      DetSet ((runCall cfg o so fuel p c).1, (runCall cfg o so fuel p c).2.st)
  | 0, _, _, h => h
  | fuel + 1, _, _, h => runCall_detSet cfg o so fuel _ _ (callStep_detSet cfg o so h)

/-- Wherever a call is, `doing_det` is set if it is at bitflip 1/1. -/
theorem fuzzOneCall_detSet (cfg : OpenCfg) (o : OpenOracle) (so : StagesOracle) (fuel : Nat) (c : Call) :
    DetSet ((fuzzOneCall cfg o so fuel c).1, (fuzzOneCall cfg o so fuel c).2.st) := by
  unfold fuzzOneCall
  rcases fuzzOneEntry cfg c.st with ⟨_ | _, s⟩
  · exact .of_not rfl
  · simp only [Bool.not_true, Bool.false_eq_true, ↓reduceIte]
    rcases chooseBranch c.marks s with ⟨_ | _, m, s'⟩
    · exact .of_not rfl
    · exact runCall_detSet cfg o so fuel .calibration ⟨m, s'⟩ (.of_not rfl)

/-! ## From the stages back to `re_run:` -/

/-- `abandon_entry:` writes the entry and `afl` only. -/
theorem abandonEntry_frame (s : OpenSt) :
    (abandonEntry s).2.locals = s.locals ∧ (abandonEntry s).2.globals = s.globals ∧
      (abandonEntry s).2.shadow = s.shadow := by
  unfold abandonEntry
  lift_lets
  intro e a a'
  split
  lift_lets
  intro a₁
  exact iteInduction (motive := fun r : Point × OpenSt =>
    r.2.locals = s.locals ∧ r.2.globals = s.globals ∧ r.2.shadow = s.shadow)
    (fun _ => ⟨rfl, rfl, rfl⟩) fun _ => ⟨rfl, rfl, rfl⟩

/-- The second `re_run:` leaves shadow mode and sets back `perf_score` alone of the locals. -/
theorem reRunBlock_second (s : OpenSt) (hsh : s.globals.shadowMode = true) (hsw : s.shadowSwitch = true) :
    (reRunBlock s).1 = (if s.shadow.origPerf = 0 then .abandonEntry else .cmplog) ∧
      (reRunBlock s).2.globals.shadowMode = false ∧
      (reRunBlock s).2.locals = { s.locals with perfScore := s.shadow.origPerf } := by
  have hc : s.afl.rbFuzzing ≠ 0 ∧ s.afl.runWithShadow = true := by
    simpa [OpenSt.shadowSwitch] using hsw
  unfold reRunBlock
  rw [if_pos hc, reRun_second _ _ _ hsh]
  dsimp only
  split <;> exact ⟨rfl, rfl, rfl⟩

/-- From the stages in shadow mode, three jumps start the next pass with the stages' locals. -/
theorem stages_back_to_reRun (cfg : OpenCfg) (o : OpenOracle) (so : StagesOracle) (stage : FirstStage)
    (c : Call) (hsh : c.st.globals.shadowMode = true) (hsw : c.st.shadowSwitch = true) :
    (runCall cfg o so 3 (.stages stage) c).1 = (if c.st.shadow.origPerf = 0 then .abandonEntry else .cmplog) ∧
      (runCall cfg o so 3 (.stages stage) c).2.st.globals.shadowMode = false ∧
      (runCall cfg o so 3 (.stages stage) c).2.st.locals =
        { (stagesBlock so stage c).2.st.locals with perfScore := c.st.shadow.origPerf } := by
  have hj := abandonEntry_jumps (stagesBlock so stage c).2.st
  obtain ⟨hl, hg, hv⟩ := abandonEntry_frame (stagesBlock so stage c).2.st
  -- `abandon_entry:` goes back to `re_run:` with shadow mode and its switch as the stages left them
  have hback : (abandonEntry (stagesBlock so stage c).2.st).1 = .reRun := by
    have h0 : (stagesBlock so stage c).2.st.globals.shadowMode = true := hsh
    rw [hj.2, if_pos h0]
  have hsh₂ : (abandonEntry (stagesBlock so stage c).2.st).2.globals.shadowMode = true := hg ▸ hsh
  have hsw₂ : (abandonEntry (stagesBlock so stage c).2.st).2.shadowSwitch = true := by
    rw [← hsw]
    simp only [OpenSt.shadowSwitch, hj.1.2.2.1, hj.1.2.2.2]
    rfl
  have hre := reRunBlock_second _ hsh₂ hsw₂
  rw [hl, hv] at hre
  have e : runCall cfg o so 3 (.stages stage) c = runCall cfg o so 1 (abandonEntry (stagesBlock so stage c).2.st).1
      ⟨(stagesBlock so stage c).2.marks, (abandonEntry (stagesBlock so stage c).2.st).2⟩ := rfl
  have e₂ : ∀ c₂ : Call, runCall cfg o so 1 .reRun c₂ = ((reRunBlock c₂.st).1, ⟨c₂.marks, (reRunBlock c₂.st).2⟩) :=
    fun _ => rfl
  rw [e, hback, e₂]
  dsimp only
  exact hre

/-! ## The rare-branch pass starts where the baseline pass ended -/

section Shadow

variable (cfg : OpenCfg) (o : OpenOracle) (so : StagesOracle) {m : Nat} {stage : FirstStage} {c c' : Call}
  (hm : fuzzOneCall cfg o so m c = (.stages stage, c')) (hsh : c'.st.globals.shadowMode = true)
  (hsw : c'.st.shadowSwitch = true)
include hm hsh hsw

/-- **The rare-branch pass starts with the baseline pass's locals**: all but `perf_score` are
those the stages of the pass in shadow mode left. -/
theorem shadow_pass_carries_locals :
    (fuzzOneCall cfg o so (m + 3) c).1 = (if c'.st.shadow.origPerf = 0 then .abandonEntry else .cmplog) ∧
      (fuzzOneCall cfg o so (m + 3) c).2.st.globals.shadowMode = false ∧
      (fuzzOneCall cfg o so (m + 3) c).2.st.locals =
        { (stagesBlock so stage c').2.st.locals with perfScore := c'.st.shadow.origPerf } := by
  have hne : (fuzzOneCall cfg o so m c).1 ≠ .skipped := by simp [hm]
  rw [fuzzOneCall_add cfg o so m 3 c hne, hm]
  exact stages_back_to_reRun cfg o so stage c' hsh hsw

/-- After a baseline pass that ran bitflip 1/1, the rare-branch pass starts with `doing_det = 1`. -/
theorem shadow_pass_after_flip1 (hst : stage = .flip1) :
    (fuzzOneCall cfg o so (m + 3) c).2.st.locals.doingDet = true := by
  rw [(shadow_pass_carries_locals cfg o so hm hsh hsw).2.2]
  subst hst
  have h := fuzzOneCall_detSet cfg o so m c
  rw [hm] at h
  exact h rfl

end Shadow

/-- The rare-branch pass starts with the `eff_cnt` and `a_len` of the baseline pass's bit flips. -/
theorem shadow_pass_flip_counts (cfg : OpenCfg) (o : OpenOracle) (dc : DetCfg) (t : Target) (rest : StagesOracle)
    {m : Nat} {stage : FirstStage} {c c' : Call} (hm : fuzzOneCall cfg o (bitflipStages dc t rest) m c = (.stages stage, c'))
    (hsh : c'.st.globals.shadowMode = true) (hsw : c'.st.shadowSwitch = true) :
    (fuzzOneCall cfg o (bitflipStages dc t rest) (m + 3) c).2.st.locals.effCnt = (detFlips dc t stage c'.st).effCnt ∧
      (fuzzOneCall cfg o (bitflipStages dc t rest) (m + 3) c).2.st.locals.aLen = (detFlips dc t stage c'.st).tok.aLen := by
  rw [(shadow_pass_carries_locals cfg o _ hm hsh hsw).2.2]
  exact ⟨rfl, rfl⟩

/-- **The rare-branch pass does not start where the baseline pass did.** On a 9-byte entry whose
every flip changes the path, the baseline pass starts with `eff_cnt = 1`, `a_len = 0`,
`doing_det = 0`, and the rare-branch pass with `2`, `10` and `1`. -/
theorem shadow_second_pass_keeps_locals :
    let cfg : OpenCfg := ⟨3, 3, 99, 75, 95, trimCfgDefault⟩
    let o : OpenOracle := ⟨fun _ => ⟨.ok, 0, 0, false⟩, fun s => ⟨.ok, s.entry.bytes, s.entry.len, false⟩,
      fun _ => some true, fun _ => 100, fun _ => false, fun _ => (false, 0), fun _ _ => (false, 0)⟩
    let so : StagesOracle := bitflipStages
      ⟨35, [], [], [], [], [], 200, 50, 1048576, 128, false, 0, false, 0, false, 3, 128, 90, 0, ⟨3, 32⟩⟩
      ⟨fun b => if b = [1, 2, 3, 4, 5, 6, 7, 8, 9] then 0 else 1, fun _ => false⟩ .idle
    let c : Call := ⟨⟨[0], [-1]⟩,
      ⟨⟨[1, 2, 3, 4, 5, 6, 7, 8, 9], 9, [1], 0, 0, false, 0, 1, false, false, 0, true, false, 0, 0⟩,
       ⟨false, 0, 0, false, false, 1, 1, 1, 1, false, 0, [1], 64, 2, 8, 0, false, .ok, 0, false, 0,
        false, true, 1, false, 0, 0, 0, 0, 64, false, -1, 0, 0⟩,
       ⟨0, 0, 0, 0, []⟩, ⟨[], 0, [], 0, 1, 0, false, 100⟩, ⟨false, [], 0, 0, 0⟩, [], [], false, false, 1,
       Rng.zeros⟩⟩
    (fuzzOneCall cfg o so 4 c).1 = .cmplog ∧ (fuzzOneCall cfg o so 4 c).2.st.globals.shadowMode = true ∧
      (fuzzOneCall cfg o so 4 c).2.st.locals =
        ⟨[1, 2, 3, 4, 5, 6, 7, 8, 9], 9, [1, 2, 3, 4, 5, 6, 7, 8, 9], 0, 1, 0, false, 100⟩ ∧
      (fuzzOneCall cfg o so 10 c).1 = .cmplog ∧ (fuzzOneCall cfg o so 10 c).2.st.globals.shadowMode = false ∧
      (fuzzOneCall cfg o so 10 c).2.st.locals =
        ⟨[1, 2, 3, 4, 5, 6, 7, 8, 9], 9, [1, 2, 3, 4, 5, 6, 7, 8, 9], 0, 2, 10, true, 100⟩ := by
  set_option maxRecDepth 4000 in
  exact ⟨by decide, by decide, by decide, by decide, by decide, by decide⟩

end FuzzOne
