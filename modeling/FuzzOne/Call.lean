import FuzzOne.OpeningRuns
/-!
# A whole call of `fuzz_one_original`: the stages and the way back to `re_run:`
(afl-fuzz-one.c:1404-5082)

| here | there |
| --- | --- |
| `StagesOut` | what the stages from the first candidate to `abandon_entry:` write |
| `StagesOracle` | the stages (afl-fuzz-one.c:1844-5036), as the executor, the draws and the target decide |
| `stagesBlock` | the stages, which end at `abandon_entry:`: at their end with `ret_val = 0`, or by a `goto abandon_entry` |
| `callStep`, `runCall` | the jumps of a whole call |
| `fuzzOneCall` | a call: the entry, the choice, the blocks, the stages and `abandon_entry:`, which goes back to `re_run:` in shadow mode |

The opening (Opening.lean) ends at the first candidate. A whole call goes on into the stages,
which end at `abandon_entry:`; in shadow mode that jumps back to `re_run:` for the rare-branch
pass, whose stages end at `abandon_entry:` again. The stages are a parameter of the call: what
they write is what the oracle returns, and `StagesOut` leaves out what they do not write:
`skip_simple_bitflip`, `rb_skip_deterministic`, `doing_det`, `shadow_mode`, the saved `orig_*`
values, `fuzzed_branches`, and of the entry all but `passed_det` (`mark_as_det_done`, 3225).
The test cases they save enter the queue through `add_to_queue`.

With a branch of the entry already marked, a call in rare-branch mode never reaches bitflip 1/1,
in either pass (`marked_entry_skips_bitflip1`).
-/
namespace FuzzOne

/-- What the stages write: the locals but `doing_det`, `virgin_bits` and the counters, the branch
masks, `mark_as_det_done`, the test cases `add_to_queue` appended, `ret_val = 0`, the blacklist
and the draws. -/
structure StagesOut where
  inBuf : Buf
  len : Nat
  outBuf : Buf
  spliceCycle : Nat
  effCnt : Nat
  aLen : Nat
  perfScore : Nat
  virginBits : Buf
  queuedDiscovered : Nat
  queuedWithCov : Nat
  totalExecs : Nat
  branchMask : Buf
  origBranchMask : Buf
  markDetDone : Bool
  added : Nat
  completed : Bool
  blacklist : List Int
  rng : Rng

/-- The stages that go on from the first candidate of `stage`, by what they write. -/
def StagesOracle : Type := FirstStage → Call → StagesOut

/-- The stages, from the first candidate of `stage` to `abandon_entry:`. -/
def stagesBlock (so : StagesOracle) (stage : FirstStage) (c : Call) : Point × Call :=
  let out := so stage c
  let s := c.st.addToQueue out.added
  (.abandonEntry, ⟨{ c.marks with blacklist := out.blacklist }, { s with
    entry := { s.entry with passedDet := s.entry.passedDet || out.markDetDone }
    locals := { s.locals with
      inBuf := out.inBuf
      len := out.len
      outBuf := out.outBuf
      spliceCycle := out.spliceCycle
      effCnt := out.effCnt
      aLen := out.aLen
      perfScore := out.perfScore }
    globals := { s.globals with
      virginBits := out.virginBits
      queuedDiscovered := out.queuedDiscovered
      queuedWithCov := out.queuedWithCov
      totalExecs := out.totalExecs }
    branchMask := out.branchMask
    origBranchMask := out.origBranchMask
    retVal := if out.completed then 0 else s.retVal
    rng := out.rng }⟩)

/-- One jump of a whole call: the stages, or a block of the opening. -/
def callStep (cfg : OpenCfg) (o : OpenOracle) (so : StagesOracle) : Point → Call → Point × Call
  | .stages stage, c => stagesBlock so stage c
  | p, c => ((openStep cfg o p c.st).1, { c with st := (openStep cfg o p c.st).2 })

/-- `fuel` jumps of a whole call from `p`. -/
def runCall (cfg : OpenCfg) (o : OpenOracle) (so : StagesOracle) : Nat → Point → Call → Point × Call
  | 0, p, c => (p, c)
  | fuel + 1, p, c => runCall cfg o so fuel (callStep cfg o so p c).1 (callStep cfg o so p c).2

/-- A call of `fuzz_one_original` with `fuel` jumps after the choice: the point it ends at and the
state it leaves. -/
def fuzzOneCall (cfg : OpenCfg) (o : OpenOracle) (so : StagesOracle) (fuel : Nat) (c : Call) :
    Point × Call :=
  let (go, s) := fuzzOneEntry cfg c.st
  if !go then (.skipped, { c with st := s })
  else
    let (go, m, s) := chooseBranch c.marks s
    if !go then (.skipped, ⟨m, s⟩)
    else runCall cfg o so fuel .calibration ⟨m, s⟩

/-- A jump that is not the stages is the opening's. -/
theorem callStep_open (cfg : OpenCfg) (o : OpenOracle) (so : StagesOracle) {p : Point}
    (hp : ∀ stage, p ≠ .stages stage) (c : Call) :
    callStep cfg o so p c = ((openStep cfg o p c.st).1, { c with st := (openStep cfg o p c.st).2 }) := by
  cases p <;> first | rfl | exact absurd rfl (hp _)

/-- The call gets past the entry block and the choice, and runs the blocks from the calibration. -/
theorem fuzzOneCall_eq_run (cfg : OpenCfg) (o : OpenOracle) (so : StagesOracle) (fuel : Nat) {c : Call}
    (h₁ : (fuzzOneEntry cfg c.st).1 = true) (h₂ : (chooseBranch c.marks (fuzzOneEntry cfg c.st).2).1 = true) :
    fuzzOneCall cfg o so fuel c = runCall cfg o so fuel .calibration
      ⟨(chooseBranch c.marks (fuzzOneEntry cfg c.st).2).2.1, (chooseBranch c.marks (fuzzOneEntry cfg c.st).2).2.2⟩ := by
  unfold fuzzOneCall
  rcases e₁ : fuzzOneEntry cfg c.st with ⟨go, s⟩
  rw [e₁] at h₁ h₂
  obtain rfl : go = true := h₁
  rcases e₂ : chooseBranch c.marks s with ⟨go', m, s'⟩
  rw [e₂] at h₂
  obtain rfl : go' = true := h₂
  simp only [e₂, Bool.not_true, Bool.false_eq_true, ↓reduceIte]

/-! ## A marked entry skips bitflip 1/1 in both passes -/

/-- The stages leave `skip_simple_bitflip` alone and end at `abandon_entry:`. -/
theorem callStep_skipsFlip1 (cfg : OpenCfg) (o : OpenOracle) (so : StagesOracle) {p : Point} {c : Call}
    (h : SkipsFlip1 (p, c.st)) :
    SkipsFlip1 ((callStep cfg o so p c).1, (callStep cfg o so p c).2.st) := by
  cases p
  case stages stage => exact ⟨rfl, h.2⟩
  all_goals exact openStep_skipsFlip1 cfg o h

/-- A whole run from such a point never reaches bitflip 1/1. -/
theorem runCall_skipsFlip1 (cfg : OpenCfg) (o : OpenOracle) (so : StagesOracle) :
    ∀ (fuel : Nat) (p : Point) (c : Call), SkipsFlip1 (p, c.st) →
      SkipsFlip1 ((runCall cfg o so fuel p c).1, (runCall cfg o so fuel p c).2.st)
  | 0, _, _, h => h
  | fuel + 1, _, _, h => runCall_skipsFlip1 cfg o so fuel _ _ (callStep_skipsFlip1 cfg o so h)

/-- **An entry with a marked branch never gets bitflip 1/1 in rare-branch mode.** With a non-zero
byte of `fuzzed_branches` below `map_size >> 3`, the choice sets `skip_simple_bitflip`, and no
later block or stage of either pass clears it. -/
theorem marked_entry_skips_bitflip1 (cfg : OpenCfg) (o : OpenOracle) (so : StagesOracle) (fuel : Nat)
    (c : Call) (hvan : c.st.afl.vanillaAfl = false) (hboot : c.st.afl.prevCycleWoNew = 0 ∨ c.st.afl.bootstrap = 0)
    (k : Nat) (hk : k < c.st.afl.mapSize / 8) (hfb : c.marks.fuzzedBranches.getD k 0 ≠ 0) :
    (fuzzOneCall cfg o so fuel c).1.atFlip1 = false := by
  obtain ⟨hgo, ha, -⟩ := fuzzOneEntry_rb cfg hvan hboot
  unfold fuzzOneCall
  rcases h : fuzzOneEntry cfg c.st with ⟨go, s⟩
  rw [h] at hgo ha
  obtain rfl : go = true := hgo
  simp only [Bool.not_true, Bool.false_eq_true, ↓reduceIte]
  rcases hc : chooseBranch c.marks s with ⟨_ | _, m, s'⟩
  · rfl
  · have hs := chooseBranch_skip (by rw [ha]; exact hvan) (by rw [ha]; exact hk) hfb (by rw [hc])
    rw [hc] at hs
    exact (runCall_skipsFlip1 cfg o so fuel .calibration ⟨m, s'⟩ (skipsFlip1_of_ne rfl hs)).1

/-- Stages that run to their end and change nothing but `ret_val`. -/
def StagesOracle.idle : StagesOracle := fun _ c =>
  ⟨c.st.locals.inBuf, c.st.locals.len, c.st.locals.outBuf, c.st.locals.spliceCycle, c.st.locals.effCnt,
    c.st.locals.aLen, c.st.locals.perfScore, c.st.globals.virginBits, c.st.globals.queuedDiscovered,
    c.st.globals.queuedWithCov, c.st.globals.totalExecs, c.st.branchMask, c.st.origBranchMask, false, 0, true,
    c.marks.blacklist, c.st.rng⟩

/-- `marked_entry_skips_bitflip1` on a shadow call whose only rare branch is marked: both passes
go to bitflip 8/8 and the call returns at its 15th jump; unmarked, it goes to bitflip 1/1. -/
theorem marked_entry_skips_bitflip1_flip8 :
    let cfg : OpenCfg := ⟨3, 3, 99, 75, 95, trimCfgDefault⟩
    let o : OpenOracle := ⟨fun _ => ⟨.ok, 0, 0, false⟩, fun s => ⟨.ok, s.entry.bytes, s.entry.len, false⟩,
      fun _ => some true, fun _ => 100, fun _ => false, fun _ => (false, 0), fun _ _ => (false, 0)⟩
    let st : OpenSt :=
      ⟨⟨[1, 2, 3], 3, [1], 0, 0, false, 0, 1, false, false, 0, true, false, 0, 0⟩,
       ⟨false, 0, 0, false, false, 1, 1, 1, 1, false, 0, [1], 64, 2, 8, 0, false, .ok, 0, false, 0,
        false, true, 1, false, 0, 0, 0, 0, 64, false, -1, 0, 0⟩,
       ⟨0, 0, 0, 0, []⟩, ⟨[], 0, [], 0, 1, 0, false, 100⟩, ⟨false, [], 0, 0, 0⟩, [], [], false, false, 1,
       Rng.zeros⟩
    let c : Call := ⟨⟨[1], [-1]⟩, st⟩
    (fuzzOneCall cfg o .idle 6 c).1 = .firstExec .flip8 ∧ (fuzzOneCall cfg o .idle 12 c).1 = .firstExec .flip8 ∧
      (fuzzOneCall cfg o .idle 15 c).1 = .returned ∧ (fuzzOneCall cfg o .idle 6 ⟨⟨[0], [-1]⟩, st⟩).1 = .firstExec .flip1 ∧
      (c.st.afl.vanillaAfl = false ∧ (c.st.afl.prevCycleWoNew = 0 ∨ c.st.afl.bootstrap = 0) ∧
        0 < c.st.afl.mapSize / 8 ∧ c.marks.fuzzedBranches.getD 0 0 ≠ 0) ∧
      (fuzzOneCall cfg o .idle 15 c).1.atFlip1 = false :=
  ⟨by decide, by decide, by decide, by decide, ⟨rfl, .inl rfl, by decide, by decide⟩,
    marked_entry_skips_bitflip1 _ _ .idle 15 ⟨⟨[1], [-1]⟩, _⟩ rfl (.inl rfl) 0 (by decide) (by decide)⟩

end FuzzOne
