import FuzzOne.Opening
import Mathlib.Tactic.LiftLets
/-!
# Runs of the opening: what every jump keeps, and where the jumps end
(afl-fuzz-one.c:1519-1843, 5039-5077)

The blocks after the rare-branch choice are functions of `OpenSt`, and `openStep` jumps between
them; the theorems here hold of every run from the choice on, whatever the oracles return. Each
rests on one step lemma per block, built from `iteInduction` over the block's branches, and a run
lemma by induction on the fuel.

The choice reads any non-zero byte of `fuzzed_branches` as the simple bitflip done ("We fuzzed
this guy already", afl-fuzz-one.c:1540-1546) and sets `skip_simple_bitflip`; no block after it
clears that flag (`SkipsFlip1`, `runOpening_skipsFlip1`). An entry with a marked branch, such as
one an abandoned call left, never reaches bitflip 1/1 in rare-branch mode
(`marked_entry_skips_bitflip1`).

The one back edge, `if (afl->shadow_mode) goto re_run;` at `abandon_entry:`, is taken at most
once. With `rb_fuzzing` and `run_with_shadow` set, `re_run:` switches shadow mode on for the first
pass and off for the second; otherwise it leaves shadow mode as it is. `openRank` counts the jumps
left, every jump lowers it (`openStep_rank`), and a call that starts outside shadow mode reaches
an end within 13 jumps (`openCall_ends`).
-/
namespace FuzzOne

/-! ## A marked entry skips bitflip 1/1 -/

/-- The first candidate of bitflip 1/1, and the stages that go on from it. -/
def Point.atFlip1 : Point → Bool
  | .firstExec .flip1 | .stages .flip1 => true
  | _ => false

/-- A point of a run and its state that cannot lead to bitflip 1/1: the run is not at its first
candidate or in the stages after it, and `skip_simple_bitflip` is set. -/
def SkipsFlip1 (r : Point × OpenSt) : Prop :=
  r.1.atFlip1 = false ∧ r.2.skipSimpleBitflip = true

/-- A point other than bitflip 1/1, with `skip_simple_bitflip` set. -/
theorem skipsFlip1_of_ne {p : Point} {s : OpenSt} (hp : p.atFlip1 = false)
    (h : s.skipSimpleBitflip = true) : SkipsFlip1 (p, s) :=
  ⟨hp, h⟩

/-! Each block after the choice keeps `SkipsFlip1`: only the skips write `skip_simple_bitflip`,
and they only set it. -/

section Skip

variable (cfg : OpenCfg) (o : OpenOracle) (s : OpenSt) (h : s.skipSimpleBitflip = true)
include h

theorem calibration_skipsFlip1 : SkipsFlip1 (calibration cfg o s) := by
  unfold calibration
  refine iteInduction (motive := SkipsFlip1) (fun _ => skipsFlip1_of_ne rfl h) fun _ => ?_
  by_cases hc : s.entry.calFailed < cfg.calChances <;> simp only [hc, ↓reduceIte] <;>
    repeat' (first | refine iteInduction (motive := SkipsFlip1) (fun _ => ?_) (fun _ => ?_) |
      exact skipsFlip1_of_ne rfl h)

theorem trimming_skipsFlip1 : SkipsFlip1 (trimming o s) := by
  unfold trimming
  repeat' (first | refine iteInduction (motive := SkipsFlip1) (fun _ => ?_) (fun _ => ?_) |
    exact skipsFlip1_of_ne rfl h)

theorem reRunBlock_skipsFlip1 : SkipsFlip1 (reRunBlock s) := by
  unfold reRunBlock
  repeat' (first | refine iteInduction (motive := SkipsFlip1) (fun _ => ?_) (fun _ => ?_) |
    exact skipsFlip1_of_ne rfl h)

theorem cmplogBlock_skipsFlip1 : SkipsFlip1 (cmplogBlock cfg o s) := by
  unfold cmplogBlock
  repeat' (first | refine iteInduction (motive := SkipsFlip1) (fun _ => ?_) (fun _ => ?_) |
    exact skipsFlip1_of_ne rfl h | exact ⟨by dsimp only; split <;> rfl, h⟩)

/-- With `skip_simple_bitflip` set, the skips send the run to bitflip 8/8 or further. -/
theorem skipChecks_skipsFlip1 : SkipsFlip1 (skipChecks s) := by
  unfold skipChecks
  refine iteInduction (motive := SkipsFlip1) (fun _ => skipsFlip1_of_ne rfl h) fun _ =>
    iteInduction (motive := SkipsFlip1) (fun _ => skipsFlip1_of_ne rfl h) fun _ =>
      iteInduction (motive := SkipsFlip1) (fun hs => skipsFlip1_of_ne rfl hs) fun hs => absurd ?_ hs
  split
  · rfl
  · exact h

theorem abandonEntry_skipsFlip1 : SkipsFlip1 (abandonEntry s) := by
  unfold abandonEntry
  repeat' (first | refine iteInduction (motive := SkipsFlip1) (fun _ => ?_) (fun _ => ?_) |
    exact skipsFlip1_of_ne rfl h)

end Skip

/-- No block but the skips writes `skip_simple_bitflip`, and those only set it. -/
theorem openStep_skipsFlip1 (cfg : OpenCfg) (o : OpenOracle) {p : Point} {s : OpenSt}
    (h : SkipsFlip1 (p, s)) : SkipsFlip1 (openStep cfg o p s) := by
  obtain ⟨hp, h⟩ := h
  cases p with
  | calibration => exact calibration_skipsFlip1 cfg o s h
  | trimming => exact trimming_skipsFlip1 o s h
  | rbTrim => exact skipsFlip1_of_ne rfl h
  | reRun => exact reRunBlock_skipsFlip1 s h
  | cmplog => exact cmplogBlock_skipsFlip1 cfg o s h
  | skipChecks => exact skipChecks_skipsFlip1 s h
  | firstExec stage =>
    refine ⟨?_, h⟩
    show (if (o.commonFuzzStuff stage s).1 then Point.abandonEntry else .stages stage).atFlip1 = false
    split
    · rfl
    · cases stage <;> first | rfl | exact hp
  | abandonEntry => exact abandonEntry_skipsFlip1 s h
  | skipped | returned | stages _ | fatal => exact ⟨hp, h⟩

/-- A run from such a point never reaches bitflip 1/1. -/
theorem runOpening_skipsFlip1 (cfg : OpenCfg) (o : OpenOracle) : ∀ (fuel : Nat) (p : Point) (s : OpenSt),
    SkipsFlip1 (p, s) → SkipsFlip1 (runOpening cfg o fuel p s)
  | 0, _, _, h => h
  | fuel + 1, _, _, h => runOpening_skipsFlip1 cfg o fuel _ _ (openStep_skipsFlip1 cfg o h)

/-- A choice in rare-branch mode that goes on sets `skip_simple_bitflip` when a byte of
`fuzzed_branches` below `map_size >> 3` is non-zero: `rbChoose` reads any marked branch as the
simple bitflip done. -/
theorem chooseBranch_skip {m : Marks} {s : OpenSt} {k : Nat} (hvan : s.afl.vanillaAfl = false)
    (hk : k < s.afl.mapSize / 8) (hfb : m.fuzzedBranches.getD k 0 ≠ 0)
    (hgo : (chooseBranch m s).1 = true) : (chooseBranch m s).2.2.skipSimpleBitflip = true := by
  have hany : ((List.range (s.afl.mapSize / 8)).any fun k => m.fuzzedBranches.getD k 0 ≠ 0) = true :=
    List.any_eq_true.2 ⟨k, List.mem_range.2 hk, decide_eq_true hfb⟩
  revert hgo
  simp only [chooseBranch, hvan, Bool.false_eq_true, if_false]
  rcases h : isRbHitMini s.afl.hitBits m.blacklist s.afl.rareBranchExp s.afl.maxRareBranches
    s.afl.mapSize s.entry.traceMini with ⟨exp, _ | hits⟩
  · exact fun h => absurd h Bool.false_ne_true
  · rcases hf : hits.find? (fun id => !fuzzedBit m.fuzzedBranches id) with _ | id
    · cases hits <;> simp [rbChoose, hf, OpenSt.readEntry]
    · simp only [rbChoose, hf, hany, Bool.or_true, OpenSt.readEntry, imp_self]

/-! ## The opening ends -/

/-- The four ends of a call: `return 1` before the entry is read, the return from
`abandon_entry:`, the stages, and `FATAL`. -/
def Point.isEnd : Point → Bool
  | .skipped | .returned | .stages _ | .fatal => true
  | _ => false

/-- The jumps left from a point, with shadow mode `sh` and the switch `tg` of `re_run:`. A pass
from `re_run:` to `abandon_entry:` is five jumps. One more pass follows a pass in shadow mode, and
follows too when a `re_run:` still ahead will switch shadow mode on. -/
def openRank (sh tg : Bool) : Point → Nat
  | .calibration => 8 + 5 * (tg && !sh).toNat
  | .trimming => 7 + 5 * (tg && !sh).toNat
  | .rbTrim => 6 + 5 * (tg && !sh).toNat
  | .reRun => 5 + 5 * (tg && !sh).toNat
  | .cmplog => 4 + 5 * sh.toNat
  | .skipChecks => 3 + 5 * sh.toNat
  | .firstExec _ => 2 + 5 * sh.toNat
  | .abandonEntry => 1 + 5 * sh.toNat
  | .skipped | .returned | .stages _ | .fatal => 0

/-- `afl->rb_fuzzing && afl->run_with_shadow`, the switch of `re_run:`. -/
def OpenSt.shadowSwitch (s : OpenSt) : Bool := decide (s.afl.rbFuzzing ≠ 0) && s.afl.runWithShadow

/-- The jumps left from `p` in `s`. -/
def OpenSt.rank (s : OpenSt) (p : Point) : Nat := openRank s.globals.shadowMode s.shadowSwitch p

/-- Shadow mode is on only with the switch of `re_run:` set. -/
def OpenSt.ShadowOk (s : OpenSt) : Prop := s.globals.shadowMode = true → s.shadowSwitch = true

/-- What a block does to the back edge: it jumps to one of `next`, and leaves `shadow_mode`,
`rb_fuzzing` and `run_with_shadow` as they were in `s`. -/
def JumpsTo (next : List Point) (s : OpenSt) (r : Point × OpenSt) : Prop :=
  next.contains r.1 = true ∧ r.2.globals.shadowMode = s.globals.shadowMode ∧
    r.2.afl.rbFuzzing = s.afl.rbFuzzing ∧ r.2.afl.runWithShadow = s.afl.runWithShadow

theorem openRank_pos {p : Point} (hp : p.isEnd = false) (sh tg : Bool) : 0 < openRank sh tg p := by
  cases p <;> first | (simp only [openRank]; omega) | exact absurd hp (by simp [Point.isEnd])

/-- The ends stay where they are. -/
theorem openStep_end (cfg : OpenCfg) (o : OpenOracle) {p : Point} (s : OpenSt) (hp : p.isEnd = true) :
    openStep cfg o p s = (p, s) := by
  cases p <;> first | rfl | exact absurd hp Bool.false_ne_true

theorem runOpening_end (cfg : OpenCfg) (o : OpenOracle) {p : Point} (hp : p.isEnd = true) :
    ∀ (fuel : Nat) (s : OpenSt), runOpening cfg o fuel p s = (p, s)
  | 0, _ => rfl
  | fuel + 1, s => by rw [runOpening, openStep_end cfg o s hp]; exact runOpening_end cfg o hp fuel s

/-- A block that keeps the back edge and jumps to a point of lower rank keeps `ShadowOk`. -/
theorem JumpsTo.rank_lt_at {next : List Point} {p : Point} {s : OpenSt} {r : Point × OpenSt}
    (h : JumpsTo next s r) (hlt : s.rank r.1 < s.rank p) (hok : s.ShadowOk) :
    r.2.ShadowOk ∧ r.2.rank r.1 < s.rank p := by
  obtain ⟨-, h1, h2, h3⟩ := h
  have hsw : r.2.shadowSwitch = s.shadowSwitch := by simp only [OpenSt.shadowSwitch, h2, h3]
  refine ⟨fun hs => hsw ▸ hok (h1 ▸ hs), ?_⟩
  rwa [OpenSt.rank, h1, hsw]

/-- `JumpsTo.rank_lt_at` for a block whose jumps lower the rank in every mode. -/
theorem JumpsTo.rank_lt {next : List Point} {p : Point} {s : OpenSt} {r : Point × OpenSt}
    (h : JumpsTo next s r) (hlt : ∀ sh tg : Bool, ∀ q ∈ next, openRank sh tg q < openRank sh tg p)
    (hok : s.ShadowOk) : r.2.ShadowOk ∧ r.2.rank r.1 < s.rank p :=
  h.rank_lt_at (hlt _ _ _ (List.mem_of_elem_eq_true h.1)) hok

section Blocks

variable (cfg : OpenCfg) (o : OpenOracle) (s : OpenSt)

theorem calibration_jumps : JumpsTo [.trimming, .abandonEntry, .fatal] s (calibration cfg o s) := by
  unfold calibration
  refine iteInduction (motive := JumpsTo _ s) (fun _ => ⟨rfl, rfl, rfl, rfl⟩) fun _ => ?_
  by_cases hc : s.entry.calFailed < cfg.calChances <;> simp only [hc, ↓reduceIte] <;>
    repeat' (first | refine iteInduction (motive := JumpsTo _ s) (fun _ => ?_) (fun _ => ?_) |
      exact ⟨rfl, rfl, rfl, rfl⟩)

theorem trimming_jumps : JumpsTo [.rbTrim, .abandonEntry, .fatal] s (trimming o s) := by
  unfold trimming
  repeat' (first | refine iteInduction (motive := JumpsTo _ s) (fun _ => ?_) (fun _ => ?_) |
    exact ⟨rfl, rfl, rfl, rfl⟩)

theorem rbTrimScore_jumps : JumpsTo [.reRun] s (rbTrimScore cfg o s) := ⟨rfl, rfl, rfl, rfl⟩

theorem cmplogBlock_jumps : JumpsTo [.skipChecks, .abandonEntry] s (cmplogBlock cfg o s) := by
  unfold cmplogBlock
  repeat' (first | refine iteInduction (motive := JumpsTo _ s) (fun _ => ?_) (fun _ => ?_) |
    exact ⟨rfl, rfl, rfl, rfl⟩ | exact ⟨by dsimp only; split <;> rfl, rfl, rfl, rfl⟩)

theorem skipChecks_jumps :
    JumpsTo [.firstExec .havoc, .firstExec .flip8, .firstExec .flip1] s (skipChecks s) := by
  unfold skipChecks
  repeat' (first | refine iteInduction (motive := JumpsTo _ s) (fun _ => ?_) (fun _ => ?_) |
    exact ⟨rfl, rfl, rfl, rfl⟩ | exact ⟨rfl, by split <;> rfl, by split <;> rfl, by split <;> rfl⟩)

theorem firstExec_jumps (stage : FirstStage) :
    JumpsTo [.abandonEntry, .stages stage] s (firstExec o stage s) :=
  ⟨by unfold firstExec; dsimp only; split <;> cases stage <;> rfl, rfl, rfl, rfl⟩

/-- `abandon_entry:` goes back to `re_run:` exactly in shadow mode. -/
theorem abandonEntry_jumps : JumpsTo [.reRun, .returned] s (abandonEntry s) ∧
    (abandonEntry s).1 = if s.globals.shadowMode then .reRun else .returned := by
  unfold abandonEntry
  lift_lets
  intro e a a'
  split
  rename_i e' a'' heq
  -- the counters' update keeps `rb_fuzzing` and `run_with_shadow`
  have ha : a''.rbFuzzing = s.afl.rbFuzzing ∧ a''.runWithShadow = s.afl.runWithShadow := by
    split at heq <;> (try split at heq) <;> cases heq <;> exact ⟨rfl, rfl⟩
  lift_lets
  intro a₁ a₂
  by_cases hsh : s.globals.shadowMode = true <;>
    simp only [hsh, ↓reduceIte, Bool.false_eq_true, and_true]
  · exact ⟨rfl, rfl, ha⟩
  · refine ⟨rfl, rfl, ?_⟩
    show a₂.rbFuzzing = s.afl.rbFuzzing ∧ a₂.runWithShadow = s.afl.runWithShadow
    simp only [a₂]
    split <;> exact ha

/-- `re_run:` jumps on or to `abandon_entry:`, and switches shadow mode when its switch is set. -/
theorem reRunBlock_jumps :
    [.abandonEntry, .cmplog].contains (reRunBlock s).1 = true ∧
      (reRunBlock s).2.globals.shadowMode = xor s.globals.shadowMode s.shadowSwitch ∧
      (reRunBlock s).2.afl = s.afl := by
  unfold reRunBlock
  by_cases hsw : s.afl.rbFuzzing ≠ 0 ∧ s.afl.runWithShadow = true
  · have h1 : s.shadowSwitch = true := by simpa [OpenSt.shadowSwitch] using hsw
    rw [if_pos hsw]; simp only []
    split <;> exact ⟨rfl, by simp [h1], rfl⟩
  · have h0 : s.shadowSwitch = false := by simpa [OpenSt.shadowSwitch] using hsw
    rw [if_neg hsw]; simp only []
    split <;> exact ⟨rfl, by simp [h0], rfl⟩

theorem fuzzOneEntry_globals : (fuzzOneEntry cfg s).2.globals = s.globals := by
  unfold fuzzOneEntry
  repeat' (first | rfl |
    refine iteInduction (motive := fun r : Bool × OpenSt => r.2.globals = s.globals)
      (fun _ => ?_) (fun _ => ?_))

theorem chooseBranch_globals (m : Marks) : (chooseBranch m s).2.2.globals = s.globals := by
  unfold chooseBranch
  split
  · rfl
  · simp only []
    split <;> (try split) <;> rfl

end Blocks

/-- **Every jump lowers the rank** and keeps `ShadowOk`. -/
theorem openStep_rank (cfg : OpenCfg) (o : OpenOracle) {p : Point} {s : OpenSt} (hok : s.ShadowOk)
    (hp : p.isEnd = false) :
    (openStep cfg o p s).2.ShadowOk ∧ (openStep cfg o p s).2.rank (openStep cfg o p s).1 < s.rank p := by
  cases p with
  | calibration => exact (calibration_jumps cfg o s).rank_lt (by decide) hok
  | trimming => exact (trimming_jumps o s).rank_lt (by decide) hok
  | rbTrim => exact (rbTrimScore_jumps cfg o s).rank_lt (by decide) hok
  | reRun =>
    show (reRunBlock s).2.ShadowOk ∧ (reRunBlock s).2.rank (reRunBlock s).1 < s.rank .reRun
    obtain ⟨hq, hsh, ha⟩ := reRunBlock_jumps s
    have hsw : (reRunBlock s).2.shadowSwitch = s.shadowSwitch := by rw [OpenSt.shadowSwitch, ha]; rfl
    -- the switch flips shadow mode, which `ShadowOk` allows only with the switch set
    have key : ∀ sh tg : Bool, (sh = true → tg = true) → ∀ q ∈ [Point.abandonEntry, .cmplog],
        ((xor sh tg) = true → tg = true) ∧ openRank (xor sh tg) tg q < openRank sh tg .reRun := by
      decide
    obtain ⟨h1, h2⟩ := key _ _ hok _ (List.mem_of_elem_eq_true hq)
    exact ⟨fun h => hsw ▸ h1 (hsh ▸ h), by rw [OpenSt.rank, hsh, hsw]; exact h2⟩
  | cmplog => exact (cmplogBlock_jumps cfg o s).rank_lt (by decide) hok
  | skipChecks => exact (skipChecks_jumps s).rank_lt (by decide) hok
  | firstExec stage => exact (firstExec_jumps o s stage).rank_lt (by cases stage <;> decide) hok
  | abandonEntry =>
    obtain ⟨hj, hpt⟩ := abandonEntry_jumps s
    refine hj.rank_lt_at ?_ hok
    rw [hpt, OpenSt.rank, OpenSt.rank]
    cases s.globals.shadowMode <;> cases s.shadowSwitch <;> decide
  | skipped | returned | stages _ | fatal => exact absurd hp (by simp [Point.isEnd])

/-- A run from a point of rank at most `fuel` ends. -/
theorem runOpening_ends (cfg : OpenCfg) (o : OpenOracle) : ∀ (fuel : Nat) (p : Point) (s : OpenSt),
    s.ShadowOk → s.rank p ≤ fuel → (runOpening cfg o fuel p s).1.isEnd = true
  | fuel, p, s, hok, h => by
    cases hp : p.isEnd
    · cases fuel with
      | zero => exact absurd h (Nat.not_le.2 (openRank_pos hp _ _))
      | succ fuel =>
        obtain ⟨hok', hlt⟩ := openStep_rank cfg o hok hp
        exact runOpening_ends cfg o fuel _ _ hok' (by omega)
    · rw [runOpening_end cfg o hp]; exact hp

/-- **The opening ends.** A call that starts outside shadow mode reaches an end within 13 jumps
after the choice, whatever the oracles return: `abandon_entry:` goes back to `re_run:` at most
once. -/
theorem openCall_ends (cfg : OpenCfg) (o : OpenOracle) (c : Call) (hsh : c.st.globals.shadowMode = false)
    (fuel : Nat) (hf : 13 ≤ fuel) : (openCall cfg o fuel c).1.isEnd = true := by
  have hg : ((chooseBranch c.marks (fuzzOneEntry cfg c.st).2).2.2).globals = c.st.globals := by
    rw [chooseBranch_globals, fuzzOneEntry_globals]
  unfold openCall
  rcases h1 : fuzzOneEntry cfg c.st with ⟨_ | _, s⟩
  · rfl
  · rw [h1] at hg
    simp only [Bool.not_true, Bool.false_eq_true, ↓reduceIte]
    rcases h2 : chooseBranch c.marks s with ⟨_ | _, m, s'⟩
    · rfl
    · rw [h2] at hg
      refine runOpening_ends cfg o fuel .calibration s' (fun h => ?_) ?_
      · rw [hg, hsh] at h; exact absurd h Bool.false_ne_true
      · show openRank s'.globals.shadowMode s'.shadowSwitch .calibration ≤ fuel
        rw [hg, hsh]
        exact ((by decide : ∀ tg, openRank false tg .calibration ≤ 13) _).trans hf

/-- `openCall_ends` at its bound: with the switch of `re_run:` set and a first candidate that
abandons the entry, the call runs a pass in shadow mode and a second one, and ends at the 13th
jump. -/
theorem openCall_ends_two_passes :
    let cfg : OpenCfg := ⟨3, 3, 99, 75, 95, trimCfgDefault⟩
    let o : OpenOracle := ⟨fun _ => ⟨.ok, 0, 0, false⟩, fun s => ⟨.ok, s.entry.bytes, s.entry.len, false⟩,
      fun _ => some true, fun _ => 100, fun _ => false, fun _ => (false, 0), fun _ _ => (true, 0)⟩
    let c : Call := ⟨⟨[0], [-1]⟩,
      ⟨⟨[1, 2, 3], 3, [1], 0, 0, false, 0, 1, false, false, 0, true, false, 0, 0⟩,
       ⟨false, 0, 0, false, false, 1, 1, 1, 1, false, 0, [1], 64, 2, 8, 0, false, .ok, 0, false, 0,
        false, true, 1, false, 0, 0, 0, 0, 64, false, -1, 0, 0⟩,
       ⟨0, 0, 0, 0, []⟩, ⟨[], 0, [], 0, 1, 0, false, 100⟩, ⟨false, [], 0, 0, 0⟩, [], [], false, false, 1,
       Rng.zeros⟩⟩
    (openCall cfg o 12 c).1 = .abandonEntry ∧ (openCall cfg o 13 c).1 = .returned ∧
      (openCall cfg o 13 c).1.isEnd = true :=
  ⟨by decide, by decide, openCall_ends _ _ _ rfl 13 (by decide)⟩

end FuzzOne
