import FuzzOne.RareBranch
import FuzzOne.RbTrim
import FuzzOne.BranchMask
/-!
# The opening of `fuzz_one_original`: from the entry of the call to the first candidate
(afl-fuzz-one.c:1404-1843, 5039-5077)

| here | there |
| --- | --- |
| `PassLocals` | the locals `in_buf`, `len`, `out_buf`, `splice_cycle`, `eff_cnt`, `a_len`, `doing_det`, `perf_score` |
| `PassGlobals` | `shadow_mode`, `virgin_bits`, `queued_discovered`, `queued_with_cov`, `fsrv.total_execs` |
| `ShadowSaved`, `reRun` | `orig_perf`, `orig_queued_*`, `orig_total_execs`, `virgin_virgin_bits`, and the shadow switch at `re_run:` |
| `Marks` | `afl->queue_cur->fuzzed_branches` and `afl->blacklist` |
| `QueueEntry` | the other fields of `afl->queue_cur` the opening reads or writes; `bytes` is what `queue_testcase_get` returns |
| `AflOpen` | the other fields of `afl` it reads or writes, besides those `PassGlobals` holds |
| `OpenSt`, `Call` | the state of a call without, and with, the `Marks` |
| `OpenCfg` | `CAL_CHANCES`, `CMPLOG_LVL_MAX`, `SKIP_*_PROB` and the trim constants |
| `OpenOracle` | `calibrate_case`, `trim_case`, `hits_branch`, `calculate_score`, the clock test, `input_to_state_stage`, the first `common_fuzz_stuff` |
| `OpenSt.addToQueue` | the entries `add_to_queue` appends while the target runs |
| `Point` | the blocks between the choice and the first candidate, and the ways out of them |
| `fuzzOneEntry` | the locals' initial values, the switch to vanilla mode, its random skips (afl-fuzz-one.c:1404-1515) |
| `chooseBranch` | the rare-branch choice (afl-fuzz-one.c:1519-1567) and the reads of the entry (1588-1592) |
| `calibration`, `trimming` | CALIBRATION and TRIMMING (afl-fuzz-one.c:1606-1680) |
| `rbTrimScore` | @RB@ TRIM and PERFORMANCE SCORE (afl-fuzz-one.c:1686-1727) |
| `reRunBlock` | `re_run:`, the branch masks and `perf_score <= 0` (afl-fuzz-one.c:1731-1768) |
| `cmplogBlock`, `skipChecks` | the colorization guard and the skips of the deterministic stage (afl-fuzz-one.c:1770-1843) |
| `firstExec`, `abandonEntry` | the first candidate, and `abandon_entry:` (afl-fuzz-one.c:5039-5077) |
| `openStep`, `runOpening` | the jumps between the blocks after the choice |
| `openCall` | a call: the entry, the choice, then the blocks |

The external functions enter as an oracle that returns only the fields they write; the runs of
the target may add test cases to the queue, which raises `queued_paths` and
`pending_not_fuzzed` by one each (`add_to_queue`, outside this tree). Only the
choice reads the `Marks`; every block after it is a function of `OpenSt` alone, so by its type
it cannot write them, and a call leaves the `Marks` as the choice wrote them (`openCall_marks`).

The choice marks the branch it takes in `fuzzed_branches` at once (afl-fuzz-one.c:1548), before
the calibration, the trim and the score can abandon the entry, and no block after it clears the
mark. An entry abandoned there keeps its branch marked as fuzzed although none of its candidates
ran (`chosen_branch_stays_marked`); the blacklist, written only after bitflip 8/8, is kept.
-/
namespace FuzzOne

structure PassLocals where
  inBuf : Buf
  len : Nat
  outBuf : Buf
  spliceCycle : Nat
  effCnt : Nat
  aLen : Nat
  doingDet : Bool
  perfScore : Nat
deriving DecidableEq, Repr

structure PassGlobals where
  shadowMode : Bool
  virginBits : Buf
  queuedDiscovered : Nat
  queuedWithCov : Nat
  totalExecs : Nat
deriving DecidableEq, Repr

/-- The values saved at entry (`orig_*`) and by the first `re_run` (`virgin_virgin_bits`). -/
structure ShadowSaved where
  origPerf : Nat
  origQueuedDiscovered : Nat
  origQueuedWithCov : Nat
  origTotalExecs : Nat
  virginVirginBits : Buf

/-- The `re_run:` block, with `rb_fuzzing` set and `run_with_shadow`: the first time it enters
shadow mode and saves `virgin_bits`; the second time it leaves it and restores the counters. -/
def reRun (sv : ShadowSaved) (l : PassLocals) (g : PassGlobals) :
    ShadowSaved × PassLocals × PassGlobals :=
  if !g.shadowMode then ({ sv with virginVirginBits := g.virginBits }, l, { g with shadowMode := true })
  else
    (sv, { l with perfScore := sv.origPerf },
      { g with shadowMode := false, queuedDiscovered := sv.origQueuedDiscovered,
               queuedWithCov := sv.origQueuedWithCov, totalExecs := sv.origTotalExecs,
               virginBits := sv.virginVirginBits })

/-- `re_run:` switches shadow mode. -/
@[simp] theorem reRun_shadowMode (sv : ShadowSaved) (l : PassLocals) (g : PassGlobals) :
    (reRun sv l g).2.2.shadowMode = !g.shadowMode := by
  unfold reRun; cases g.shadowMode <;> rfl

/-- The second `re_run:` puts back the counters, `virgin_bits` and `perf_score` saved for it, and
touches no other local. -/
theorem reRun_second (sv : ShadowSaved) (l : PassLocals) (g : PassGlobals) (hg : g.shadowMode = true) :
    reRun sv l g = (sv, { l with perfScore := sv.origPerf },
      ⟨false, sv.virginVirginBits, sv.origQueuedDiscovered, sv.origQueuedWithCov, sv.origTotalExecs⟩) := by
  simp [reRun, hg]

/-- `fsrv_run_result_t` (`forkserver.h`): what a run of the target returns. -/
inductive FsrvRun
  | ok | tmout | crash | error | noinst | nobits
deriving DecidableEq, Repr

/-- The entry's `fuzzed_branches` (a bit per branch id, `map_size >> 3` bytes) and the blacklist,
`-1`-terminated: what a call leaves behind of the rare branch it chose. -/
structure Marks where
  fuzzedBranches : Buf
  blacklist : List Int
deriving DecidableEq, Repr

/-- The other fields of `afl->queue_cur` the opening reads or writes. -/
structure QueueEntry where
  bytes : Buf
  len : Nat
  traceMini : Buf
  calFailed : Nat
  execCksum : Nat
  trimDone : Bool
  perfScore : Nat
  depth : Nat
  wasFuzzed : Bool
  passedDet : Bool
  fuzzLevel : Nat
  favored : Bool
  disabled : Bool
  colorized : Nat
  tcRef : Nat
deriving DecidableEq, Repr

/-- The other fields of `afl` the opening reads or writes, besides those of `PassGlobals`. -/
structure AflOpen where
  vanillaAfl : Bool
  prevCycleWoNew : Nat
  bootstrap : Nat
  skipDeterministic : Bool
  skipDeterministicBootstrap : Bool
  pendingFavored : Nat
  pendingNotFuzzed : Nat
  queuedPaths : Nat
  queueCycle : Nat
  nonInstrumentedMode : Bool
  rbFuzzing : Nat
  hitBits : List Nat
  rareBranchExp : Nat
  maxRareBranches : Nat
  mapSize : Nat
  cycleWoNew : Nat
  stopSoon : Bool
  crashMode : FsrvRun
  curSkippedPaths : Nat
  disableTrim : Bool
  readyForSplicingCount : Nat
  trimForBranch : Bool
  runWithShadow : Bool
  useBranchMask : Nat
  cmplogMode : Bool
  cmplogLvl : Nat
  cmplogMaxFilesize : Nat
  mainNodeMax : Nat
  mainNodeId : Nat
  havocMaxMult : Nat
  reinitTable : Bool
  splicingWith : Int
  successfulBranchTries : Nat
  totalBranchTries : Nat
deriving DecidableEq, Repr

/-- The constants of the build the opening reads. -/
structure OpenCfg where
  calChances : Nat
  cmplogLvlMax : Nat
  skipToNewProb : Nat
  skipNfavNewProb : Nat
  skipNfavOldProb : Nat
  trim : TrimCfg

/-- The state of a call but for the `Marks`: the entry, `afl`, the shadow values, the locals, the
branch masks, the two skip flags, `ret_val` and the draws. -/
structure OpenSt where
  entry : QueueEntry
  afl : AflOpen
  shadow : ShadowSaved
  locals : PassLocals
  globals : PassGlobals
  branchMask : Buf
  origBranchMask : Buf
  skipSimpleBitflip : Bool
  rbSkipDeterministic : Bool
  retVal : Nat
  rng : Rng

/-- The whole state of a call. -/
structure Call where
  marks : Marks
  st : OpenSt

/-- What `calibrate_case` returns and writes. -/
structure CalibrateOut where
  res : FsrvRun
  calFailed : Nat
  execCksum : Nat
  stopSoon : Bool

/-- What `trim_case` returns and writes: the entry's bytes and length after it. -/
structure TrimOut where
  res : FsrvRun
  bytes : Buf
  len : Nat
  stopSoon : Bool

/-- Where the first candidate of the stages is run. -/
inductive FirstStage
  | flip1 | flip8 | havoc
deriving DecidableEq, Repr

/-- The external functions, by what they return on the state they are called in; two return
whether to abandon the entry and how many test cases they added. -/
structure OpenOracle where
  calibrateCase : OpenSt → CalibrateOut
  trimCase : OpenSt → TrimOut
  hitsBranch : Buf → Option Bool
  calculateScore : OpenSt → Nat
  pathsStale : OpenSt → Bool
  inputToStateStage : OpenSt → Bool × Nat
  commonFuzzStuff : FirstStage → OpenSt → Bool × Nat

/-- The blocks after the choice, and the ends of the opening: `return 1`, `return` from
`abandon_entry`, the stages after a first candidate, and `FATAL`. -/
inductive Point
  | calibration | trimming | rbTrim | reRun | cmplog | skipChecks
  | firstExec (stage : FirstStage) | abandonEntry
  | skipped | returned | stages (stage : FirstStage) | fatal
deriving DecidableEq, Repr

/-! ## The blocks -/

/-- The locals, the switch to vanilla mode and its random skips (afl-fuzz-one.c:1407-1515);
`false` is `return 1`. -/
def fuzzOneEntry (cfg : OpenCfg) (s : OpenSt) : Bool × OpenSt :=
  let a := s.afl
  let a := if !a.vanillaAfl && a.prevCycleWoNew ≠ 0 && a.bootstrap ≠ 0 then
      { a with vanillaAfl := true, rbFuzzing := 0,
               skipDeterministicBootstrap := if a.bootstrap = 2 then true else a.skipDeterministicBootstrap }
    else a
  let s := { s with
    afl := a, retVal := 1, skipSimpleBitflip := a.skipDeterministic,
    rbSkipDeterministic := a.skipDeterministic
    locals := { s.locals with spliceCycle := 0, perfScore := 100, effCnt := 1, aLen := 0, doingDet := false }
    shadow := { s.shadow with
      origQueuedWithCov := s.globals.queuedWithCov, origQueuedDiscovered := s.globals.queuedDiscovered,
      origTotalExecs := s.globals.totalExecs } }
  if !a.vanillaAfl then (true, s)
  else if a.pendingFavored ≠ 0 then
    if s.entry.wasFuzzed || 0 < s.entry.fuzzLevel || !s.entry.favored then
      let (r, g) := s.rng.below 100
      (!decide (r < cfg.skipToNewProb), { s with rng := g })
    else (true, s)
  else if !a.nonInstrumentedMode && !s.entry.favored && 10 < a.queuedPaths then
    let (r, g) := s.rng.below 100
    let prob := if 1 < a.queueCycle && (s.entry.fuzzLevel = 0 || s.entry.wasFuzzed) then
      cfg.skipNfavNewProb else cfg.skipNfavOldProb
    (!decide (r < prob), { s with rng := g })
  else (true, s)

/-- `orig_in = in_buf = queue_testcase_get(afl, afl->queue_cur); len = afl->queue_cur->len;` -/
def OpenSt.readEntry (s : OpenSt) : OpenSt :=
  { s with locals := { s.locals with inBuf := s.entry.bytes, len := s.entry.len } }

/-- The rare-branch choice (afl-fuzz-one.c:1519-1567): `is_rb_hit_mini`, then the commit
`rbChoose`, which writes the chosen branch into `fuzzed_branches`. `false` is `return 1`. -/
def chooseBranch (m : Marks) (s : OpenSt) : Bool × Marks × OpenSt :=
  if s.afl.vanillaAfl then (true, m, s.readEntry)
  else
    let a := { s.afl with skipDeterministicBootstrap := false }
    let (exp, r) := isRbHitMini a.hitBits m.blacklist a.rareBranchExp a.maxRareBranches a.mapSize
      s.entry.traceMini
    let a := { a with rareBranchExp := exp }
    match r with
    | none => (false, m, { s with afl := a })
    | some hits =>
      match rbChoose a.mapSize hits m.fuzzedBranches with
      | none => (false, m, { s with afl := { a with rbFuzzing := 0 } })
      | some (id, fb, sb, rsd) =>
        let sb := s.skipSimpleBitflip || sb
        (true, { m with fuzzedBranches := fb }, OpenSt.readEntry { s with
          afl := { a with rbFuzzing := id, cycleWoNew := if sb then a.cycleWoNew else 0 }
          skipSimpleBitflip := sb, rbSkipDeterministic := s.rbSkipDeterministic || rsd })

/-- `add_to_queue` for `n` new test cases: `++afl->queued_paths` and `++afl->pending_not_fuzzed`
for each. -/
def OpenSt.addToQueue (n : Nat) (s : OpenSt) : OpenSt :=
  { s with afl := { s.afl with queuedPaths := s.afl.queuedPaths + n, pendingNotFuzzed := s.afl.pendingNotFuzzed + n } }

/-- `++afl->cur_skipped_paths; goto abandon_entry;` -/
def OpenSt.skipPath (s : OpenSt) : Point × OpenSt :=
  (.abandonEntry, { s with afl := { s.afl with curSkippedPaths := s.afl.curSkippedPaths + 1 } })

/-- CALIBRATION (afl-fuzz-one.c:1606-1641), for an entry whose calibration failed earlier. -/
def calibration (cfg : OpenCfg) (o : OpenOracle) (s : OpenSt) : Point × OpenSt :=
  if s.entry.calFailed = 0 then (.trimming, s)
  else
    let (res, s) := if s.entry.calFailed < cfg.calChances then
        let s := { s with entry := { s.entry with execCksum := 0 } }
        let c := o.calibrateCase s
        (c.res, { s with
          entry := { s.entry with calFailed := c.calFailed, execCksum := c.execCksum }
          afl := { s.afl with stopSoon := c.stopSoon } })
      else (.tmout, s)
    if res = .error then (.fatal, s)
    else if s.afl.stopSoon || res ≠ s.afl.crashMode then s.skipPath
    else (.trimming, s)

/-- TRIMMING (afl-fuzz-one.c:1649-1680). -/
def trimming (o : OpenOracle) (s : OpenSt) : Point × OpenSt :=
  if !s.afl.nonInstrumentedMode && !s.entry.trimDone && !s.afl.disableTrim then
    let oldLen := s.entry.len
    let t := o.trimCase s
    let s := { s with
      entry := { s.entry with bytes := t.bytes, len := t.len }, afl := { s.afl with stopSoon := t.stopSoon }
      locals := { s.locals with inBuf := t.bytes } }
    if t.res = .error then (.fatal, s)
    else if s.afl.stopSoon then s.skipPath
    else
      let len := s.entry.len
      (.rbTrim, { s with
        entry := { s.entry with trimDone := true }, locals := { s.locals with len := len }
        afl := { s.afl with
          readyForSplicingCount := if len ≤ 4 ∧ 4 < oldLen then u32 ((s.afl.readyForSplicingCount : Int) - 1)
            else s.afl.readyForSplicingCount } })
  else (.rbTrim, s)

/-- @RB@ TRIM and PERFORMANCE SCORE (afl-fuzz-one.c:1686-1727): `trim_case_rb` works in the
entry's own buffer, `out_buf` is copied from it, and the score is stored three times. -/
def rbTrimScore (cfg : OpenCfg) (o : OpenOracle) (s : OpenSt) : Point × OpenSt :=
  let (inBuf, len) := (rbTrimStep cfg.trim s.afl.rbFuzzing s.afl.trimForBranch o.hitsBranch
    s.locals.inBuf s.locals.len).getD (s.locals.inBuf, s.locals.len)
  let s := { s with
    entry := { s.entry with bytes := inBuf }
    locals := { s.locals with inBuf := inBuf, len := len, outBuf := inBuf.take len } }
  let score := o.calculateScore s
  (.reRun, { s with
    entry := { s.entry with perfScore := score }, locals := { s.locals with perfScore := score }
    shadow := { s.shadow with origPerf := score, origTotalExecs := s.globals.totalExecs } })

/-- `re_run:` (afl-fuzz-one.c:1731-1768): the shadow switch of `reRun`, the two branch masks,
and `if (unlikely(perf_score <= 0)) { goto abandon_entry; }`. -/
def reRunBlock (s : OpenSt) : Point × OpenSt :=
  let (sv, l, g) := if s.afl.rbFuzzing ≠ 0 ∧ s.afl.runWithShadow then reRun s.shadow s.locals s.globals
    else (s.shadow, s.locals, s.globals)
  let mask := if s.afl.vanillaAfl || g.shadowMode || s.afl.useBranchMask = 0 then
    allocBranchMask (l.len + 1) else List.replicate (l.len + 1) 0
  let s := { s with shadow := sv, locals := l, globals := g, branchMask := mask, origBranchMask := mask }
  if l.perfScore = 0 then (.abandonEntry, s) else (.cmplog, s)

/-- The colorization stage's guard (afl-fuzz-one.c:1770-1795); `pathsStale` is
`get_cur_time() - afl->last_path_time > 300000`. -/
def cmplogBlock (cfg : OpenCfg) (o : OpenOracle) (s : OpenSt) : Point × OpenSt :=
  let e := s.entry
  let a := s.afl
  let len := s.locals.len
  if a.cmplogMode && e.colorized < a.cmplogLvl && len ≤ a.cmplogMaxFilesize then
    if len < 4 then (.skipChecks, { s with entry := { e with colorized := cfg.cmplogLvlMax } })
    else if a.cmplogLvl = 3 || (a.cmplogLvl = 2 && e.tcRef ≠ 0) || e.favored ||
        s.globals.totalExecs % a.queuedPaths = 0 || o.pathsStale s then
      let (abandon, n) := o.inputToStateStage s
      (if abandon then .abandonEntry else .skipChecks, s.addToQueue n)
    else (.skipChecks, s)
  else (.skipChecks, s)

/-- The skips of the deterministic stage (afl-fuzz-one.c:1803-1843): the stage whose first
candidate runs next. -/
def skipChecks (s : OpenSt) : Point × OpenSt :=
  let a := s.afl
  let e := s.entry
  let perf := s.locals.perfScore
  let otherNode := a.mainNodeMax ≠ 0 ∧ e.execCksum % a.mainNodeMax ≠ u32 ((a.mainNodeId : Int) - 1)
  if (a.rbFuzzing = 0 && a.skipDeterministic) || a.skipDeterministicBootstrap ||
      (a.vanillaAfl && e.wasFuzzed) || (a.vanillaAfl && e.passedDet) ||
      (a.vanillaAfl && decide (perf <
        if e.depth * 30 ≤ a.havocMaxMult * 100 then e.depth * 30 else a.havocMaxMult * 100)) then
    (.firstExec .havoc, s)
  else if otherNode ∧ (a.rbFuzzing = 0 ∨ s.globals.shadowMode) then (.firstExec .havoc, s)
  else
    let s := if otherNode then { s with rbSkipDeterministic := true, skipSimpleBitflip := true } else s
    if s.skipSimpleBitflip then (.firstExec .flip8, s)
    else (.firstExec .flip1, { s with locals := { s.locals with doingDet := true } })

/-- The first `common_fuzz_stuff` of the stage: a non-zero return is `goto abandon_entry`. -/
def firstExec (o : OpenOracle) (stage : FirstStage) (s : OpenSt) : Point × OpenSt :=
  let (abandon, n) := o.commonFuzzStuff stage s
  (if abandon then .abandonEntry else .stages stage, s.addToQueue n)

/-- `abandon_entry:` (afl-fuzz-one.c:5039-5077); in shadow mode it goes back to `re_run`. -/
def abandonEntry (s : OpenSt) : Point × OpenSt :=
  let e := s.entry
  let a := { s.afl with splicingWith := -1 }
  let (e, a) := if !a.stopSoon && e.calFailed = 0 && (!e.wasFuzzed || e.fuzzLevel = 0) && !e.disabled then
      if !e.wasFuzzed then
        ({ e with wasFuzzed := true }, { a with
          pendingNotFuzzed := u32 ((a.pendingNotFuzzed : Int) - 1), reinitTable := true
          pendingFavored := if e.favored then u32 ((a.pendingFavored : Int) - 1) else a.pendingFavored })
      else (e, a)
    else (e, a)
  let a := { a with successfulBranchTries := 0, totalBranchTries := 0 }
  if s.globals.shadowMode then (.reRun, { s with entry := e, afl := a })
  else
    let a := if s.globals.queuedWithCov ≠ s.shadow.origQueuedWithCov then
      { a with prevCycleWoNew := 0, vanillaAfl := false, cycleWoNew := 0 } else a
    (.returned, { s with entry := { e with fuzzLevel := e.fuzzLevel + 1 }, afl := a })

/-- One jump of the opening after the choice; the four ends stay where they are. -/
def openStep (cfg : OpenCfg) (o : OpenOracle) : Point → OpenSt → Point × OpenSt
  | .calibration, s => calibration cfg o s
  | .trimming, s => trimming o s
  | .rbTrim, s => rbTrimScore cfg o s
  | .reRun, s => reRunBlock s
  | .cmplog, s => cmplogBlock cfg o s
  | .skipChecks, s => skipChecks s
  | .firstExec stage, s => firstExec o stage s
  | .abandonEntry, s => abandonEntry s
  | p, s => (p, s)

/-- `fuel` jumps of the opening from `p`. -/
def runOpening (cfg : OpenCfg) (o : OpenOracle) : Nat → Point → OpenSt → Point × OpenSt
  | 0, p, s => (p, s)
  | fuel + 1, p, s => runOpening cfg o fuel (openStep cfg o p s).1 (openStep cfg o p s).2

/-- A call of `fuzz_one_original` up to its first candidate, with `fuel` jumps after the choice:
the point it ends at and the state it leaves. -/
def openCall (cfg : OpenCfg) (o : OpenOracle) (fuel : Nat) (c : Call) : Point × Call :=
  let (go, s) := fuzzOneEntry cfg c.st
  if !go then (.skipped, { c with st := s })
  else
    let (go, m, s) := chooseBranch c.marks s
    if !go then (.skipped, ⟨m, s⟩)
    else
      let (p, s) := runOpening cfg o fuel .calibration s
      (p, ⟨m, s⟩)

/-! ## A call leaves the marks as the choice wrote them -/

/-- A bit set by `|=` reads back as set. -/
theorem UInt8.or_bit_and_bit_ne_zero (x : UInt8) {j : Nat} (hj : j < 8) :
    (x ||| (1 <<< j).toUInt8) &&& (1 <<< j).toUInt8 ≠ 0 := by
  intro h
  have hb : (1 <<< j).toUInt8.toNat = 2 ^ j := by
    show (1 <<< j) % 256 = 2 ^ j
    rw [Nat.shiftLeft_eq, Nat.one_mul]
    exact Nat.mod_eq_of_lt (Nat.pow_lt_pow_right (by decide) hj)
  have hor : (x ||| (1 <<< j).toUInt8).toNat = x.toNat ||| (1 <<< j).toUInt8.toNat := BitVec.toNat_or ..
  have h2 := congrArg (fun u : UInt8 => u.toNat.testBit j) h
  simp only [UInt8.and_toNat, hor, hb, Nat.testBit_and, Nat.testBit_or, Nat.testBit_two_pow_self,
    Bool.or_true, Bool.and_true, UInt8.toNat_zero, Nat.zero_testBit] at h2
  exact absurd h2 Bool.noConfusion

/-- The commit's `fuzzed_branches[byte_offset] |= (1 << (bit_offset))` sets the branch's bit, when
the byte lies inside `fuzzed_branches`. -/
theorem fuzzedBit_mark {fb : Buf} {id : Nat} (h : (id - 1) / 8 < fb.length) :
    fuzzedBit (fb.modify (· ||| (1 <<< ((id - 1) % 8)).toUInt8) ((id - 1) / 8)) id = true := by
  simp only [fuzzedBit, List.getD_eq_getElem?_getD, List.getElem?_modify_eq, List.getElem?_eq_getElem h,
    Option.map_eq_map, Option.map_some', Option.getD_some, decide_eq_true_eq]
  exact UInt8.or_bit_and_bit_ne_zero _ (Nat.mod_lt _ (by decide))

/-- In rare-branch mode the entry block goes on to the choice, with `afl` and the entry as they
were. -/
theorem fuzzOneEntry_rb (cfg : OpenCfg) {s : OpenSt} (hvan : s.afl.vanillaAfl = false)
    (hboot : s.afl.prevCycleWoNew = 0 ∨ s.afl.bootstrap = 0) :
    (fuzzOneEntry cfg s).1 = true ∧ (fuzzOneEntry cfg s).2.afl = s.afl ∧
      (fuzzOneEntry cfg s).2.entry = s.entry := by
  have hsw : (decide (s.afl.prevCycleWoNew ≠ 0) && decide (s.afl.bootstrap ≠ 0)) = false := by
    rcases hboot with h | h <;> simp [h]
  simp only [fuzzOneEntry, hvan, Bool.not_false, Bool.true_and, hsw, Bool.false_eq_true, ↓reduceIte,
    and_self]

/-- When `is_rb_hit_mini` returns branches and one of them is unmarked, the choice goes on and
marks the first unmarked one. -/
theorem chooseBranch_fresh {m : Marks} {s : OpenSt} (hits : List Nat) (id : Nat)
    (hvan : s.afl.vanillaAfl = false)
    (hhits : (isRbHitMini s.afl.hitBits m.blacklist s.afl.rareBranchExp s.afl.maxRareBranches
      s.afl.mapSize s.entry.traceMini).2 = some hits)
    (hpick : hits.find? (fun id => !fuzzedBit m.fuzzedBranches id) = some id) :
    (chooseBranch m s).1 = true ∧ (chooseBranch m s).2.1 =
      { m with fuzzedBranches := m.fuzzedBranches.modify (· ||| (1 <<< ((id - 1) % 8)).toUInt8) ((id - 1) / 8) } := by
  simp only [chooseBranch, hvan, Bool.false_eq_true, if_false]
  rcases h : isRbHitMini s.afl.hitBits m.blacklist s.afl.rareBranchExp s.afl.maxRareBranches
    s.afl.mapSize s.entry.traceMini with ⟨exp, r⟩
  rw [h] at hhits
  subst hhits
  simp only [rbChoose, hpick, and_self]

/-- A call that gets past the entry block leaves the `Marks` as the choice wrote them, at
whichever point it ends: no block after the choice can write them. -/
theorem openCall_marks (cfg : OpenCfg) (o : OpenOracle) (fuel : Nat) (c : Call)
    (hgo : (fuzzOneEntry cfg c.st).1 = true) :
    (openCall cfg o fuel c).2.marks = (chooseBranch c.marks (fuzzOneEntry cfg c.st).2).2.1 := by
  unfold openCall
  rcases h : fuzzOneEntry cfg c.st with ⟨go, s⟩
  rw [h] at hgo
  obtain rfl : go = true := hgo
  simp only [Bool.not_true, Bool.false_eq_true, ↓reduceIte]
  split <;> rfl

/-- **A call in rare-branch mode keeps its chosen branch marked, however it ends**, also when it
abandons the entry before any candidate ran. -/
theorem chosen_branch_stays_marked (cfg : OpenCfg) (o : OpenOracle) (fuel : Nat) (c : Call)
    (hits : List Nat) (id : Nat) (hvan : c.st.afl.vanillaAfl = false)
    (hboot : c.st.afl.prevCycleWoNew = 0 ∨ c.st.afl.bootstrap = 0)
    (hhits : (isRbHitMini c.st.afl.hitBits c.marks.blacklist c.st.afl.rareBranchExp
      c.st.afl.maxRareBranches c.st.afl.mapSize c.st.entry.traceMini).2 = some hits)
    (hpick : hits.find? (fun id => !fuzzedBit c.marks.fuzzedBranches id) = some id)
    (hin : (id - 1) / 8 < c.marks.fuzzedBranches.length) :
    fuzzedBit c.marks.fuzzedBranches id = false ∧
      fuzzedBit (openCall cfg o fuel c).2.marks.fuzzedBranches id = true ∧
      (openCall cfg o fuel c).2.marks.blacklist = c.marks.blacklist := by
  obtain ⟨hgo, ha, he⟩ := fuzzOneEntry_rb cfg hvan hboot
  obtain ⟨-, hm⟩ := @chooseBranch_fresh c.marks (fuzzOneEntry cfg c.st).2 hits id (by rw [ha]; exact hvan)
    (by rw [ha, he]; exact hhits) hpick
  rw [openCall_marks cfg o fuel c hgo, hm]
  exact ⟨by simpa using List.find?_some hpick, fuzzedBit_mark hin, rfl⟩

/-- `chosen_branch_stays_marked` at an entry whose calibration failed `CAL_CHANCES` times: the
call skips the entry and returns with `fuzzed_branches = [1]`. -/
theorem chosen_branch_stays_marked_at_calibration :
    let cfg : OpenCfg := ⟨3, 3, 99, 75, 95, trimCfgDefault⟩
    let o : OpenOracle := ⟨fun _ => ⟨.ok, 0, 0, false⟩, fun s => ⟨.ok, s.entry.bytes, s.entry.len, false⟩,
      fun _ => some true, fun _ => 100, fun _ => false, fun _ => (false, 0), fun _ _ => (false, 0)⟩
    let c : Call := ⟨⟨[0], [-1]⟩,
      ⟨⟨[1, 2, 3], 3, [1], 3, 0, false, 0, 1, false, false, 0, true, false, 0, 0⟩,
       ⟨false, 0, 0, false, false, 1, 1, 1, 1, false, 0, [1], 64, 2, 8, 0, false, .ok, 0, false, 0,
        false, false, 1, false, 0, 0, 0, 0, 64, false, -1, 0, 0⟩,
       ⟨0, 0, 0, 0, []⟩, ⟨[], 0, [], 0, 1, 0, false, 100⟩, ⟨false, [], 0, 0, 0⟩, [], [], false, false, 1,
       Rng.zeros⟩⟩
    ((openCall cfg o 3 c).1 = .returned ∧ (openCall cfg o 3 c).2.st.afl.curSkippedPaths = 1 ∧
      (openCall cfg o 3 c).2.marks.fuzzedBranches = [1]) ∧
    (fuzzedBit c.marks.fuzzedBranches 1 = false ∧
      fuzzedBit (openCall cfg o 3 c).2.marks.fuzzedBranches 1 = true ∧
      (openCall cfg o 3 c).2.marks.blacklist = c.marks.blacklist) :=
  ⟨by decide, chosen_branch_stays_marked _ _ 3 _ [1] 1 rfl (.inl rfl) (by decide) (by decide) (by decide)⟩

end FuzzOne
