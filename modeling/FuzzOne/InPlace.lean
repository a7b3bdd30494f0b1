import FuzzOne.Redundancy
import FuzzOne.AutoTokens
/-!
# The deterministic sub-stages in place (afl-fuzz-one.c:1858-3212)

| here | there |
| --- | --- |
| `DetCfg` | `ARITH_MAX`, the interesting tables, the dictionaries, `MAX_FILE`, `MAX_DICT_FILE`, `USE_AUTO_EXTRAS`, `EFF_*`, and the mode fields of `afl` |
| `Target` | `hash64(trace_bits)` and `hits_branch` after a run |
| `DetSt` | `out_buf`, `ex_tmp`, `branch_mask`, `eff_map`, `eff_cnt`, the token locals, the draws and the runs |
| `bitflip1` | `bitflip 1/1` with the token collection (afl-fuzz-one.c:1858-1968) |
| `bitflip8`, `rbProbeLoops` | `bitflip 8/8` with the effector map, `rbrem8` and `rbadd8` (afl-fuzz-one.c:1999-2145) |
| `bitflip2`, `bitflip4` | `bitflip 2/1` and `4/1` (afl-fuzz-one.c:2176-2240) |
| `bitflip16`, `bitflip32` | `bitflip 16/8` and `32/8` (afl-fuzz-one.c:2245-2341) |
| `arith8`, `arith16`, `arith32` | `arith 8/8`, `16/8` and `32/8` (afl-fuzz-one.c:2344-2720) |
| `interest8`, `interest16`, `interest32` | `interest 8/8`, `16/8` and `32/8` (afl-fuzz-one.c:2722-2990) |
| `userExtrasOver`, `userExtrasInsert`, `autoExtrasOver` | the dictionary stages (afl-fuzz-one.c:2992-3212) |

Every sub-stage edits `out_buf` in place, hands it to `common_fuzz_stuff`, and undoes the edit:
the bit flips by flipping again, the stores by writing back the `orig` they loaded, the
overwrites by copying `last_len` bytes of `in_buf` back, which covers every token written at
`i` because the tokens come sorted by length. `user extras (insert)` builds its candidates in
`ex_tmp` and keeps `ex_tmp[0..i)` equal to `in_buf[0..i)` with one byte copied per position.
A stage that completes leaves `out_buf = in_buf`, and each buffer it runs is `in_buf` with one
edit of that stage (`detStage_keeps_input`).

A stage is modelled as it runs when every `common_fuzz_stuff` returns `0` (an abandon leaves it
at once). `len` is the length of `in_buf`; the loop bounds `(len << 3) - 1` and `(len << 3) - 3`
are taken in `Nat`, which agrees with the code for `len ≥ 1`.
-/
namespace FuzzOne

/-- The constants and `afl` fields the deterministic stage reads. -/
structure DetCfg where
  arithMax : Nat
  interesting8 : List Int
  interesting16 : List Int
  interesting32 : List Int
  /-- `afl->extras[0 .. extras_cnt)` and `afl->a_extras[0 .. a_extras_cnt)`. -/
  extras : List Buf
  aExtras : List Buf
  maxDetExtras : Nat
  useAutoExtras : Nat
  maxFile : Nat
  maxDictFile : Nat
  noArith : Bool
  rbFuzzing : Nat
  shadowMode : Bool
  useBranchMask : Nat
  nonInstrumentedMode : Bool
  effMapScale2 : Nat
  effMinLen : Nat
  effMaxPerc : Nat
  /-- `afl->queue_cur->exec_cksum`. -/
  execCksum : Nat
  auto : AutoCfg

/-- What the stage reads of the target after `common_fuzz_stuff` ran a buffer. -/
structure Target where
  /-- `hash64(afl->fsrv.trace_bits, afl->fsrv.map_size, HASH_CONST)`. -/
  cksum : Buf → Nat
  /-- `hits_branch(afl, afl->rb_fuzzing - 1)`. -/
  hitsBranch : Buf → Bool

/-- The locals of `fuzz_one_original` the sub-stages read and write, and the buffers handed to
`common_fuzz_stuff`, in order. -/
structure DetSt where
  outBuf : Buf
  exTmp : Buf
  branchMask : Buf
  effMap : Buf
  effCnt : Nat
  /-- `a_len`, `a_collect` and `prev_cksum`. -/
  tok : TokenSt
  /-- The tokens handed to `maybe_add_auto`. -/
  autos : List Buf
  rng : Rng
  execs : List Buf

/-- `common_fuzz_stuff(afl, buf, n)` returning `0`. -/
def DetSt.exec (st : DetSt) (buf : Buf) (n : Nat) : DetSt := { st with execs := st.execs ++ [buf.take n] }

/-- `common_fuzz_stuff(afl, out_buf, len)`. -/
def DetSt.run (st : DetSt) (len : Nat) : DetSt := st.exec st.outBuf len

/-- `*(uN *)(out_buf + i) = v` for `N = 8 * w`. -/
def DetSt.store (st : DetSt) (i w v : Nat) : DetSt := { st with outBuf := storeLE st.outBuf i w v }

/-- `eff_map[EFF_APOS(p)]` is set. -/
def DetSt.effSet (cfg : DetCfg) (st : DetSt) (p : Nat) : Bool :=
  st.effMap.getD (p >>> cfg.effMapScale2) 0 != 0

/-- The two `continue`s at the head of a position of the `w`-byte stages: no byte of the window
has its effector byte set, or (when `checkMask`) one lacks `OVERWRITE_SAFE`. -/
def DetSt.skipPos (cfg : DetCfg) (checkMask : Bool) (st : DetSt) (i w : Nat) : Bool :=
  ((List.range w).all fun k => !st.effSet cfg (i + k)) ||
    (checkMask && (List.range w).any fun k => st.branchMask.getD (i + k) 0 &&& 1 = 0)

/-! ## The walking bits -/

/-- `FLIP_BIT(_ar, b)`, `FLIP_BIT(_ar, b + 1)`, ..., `FLIP_BIT(_ar, b + n - 1)`. -/
def flipBits (buf : Buf) (b n : Nat) : Buf := (List.range n).foldl (fun buf k => flipBit buf (b + k)) buf

/-- A round of `bitflip 2/1` (`n = 2`) or `4/1` (`n = 4`) at `stage_cur = b`. -/
def walkingBitRound (n len : Nat) (st : DetSt) (b : Nat) : DetSt :=
  let st := ({ st with outBuf := flipBits st.outBuf b n } : DetSt).run len
  { st with outBuf := flipBits st.outBuf b n }

/-- A round of `bitflip 1/1`: the flip and its run, then, at the last bit of a byte, the token
step on the restored byte with the checksum of the run. -/
def flip1Round (cfg : DetCfg) (t : Target) (len : Nat) (st : DetSt) (b : Nat) : DetSt :=
  let cksum := t.cksum ((flipBits st.outBuf b 1).take len)
  let st := walkingBitRound 1 len st b
  if !cfg.nonInstrumentedMode && b % 8 == 7 then
    let (tok, toks) := tokenStep cfg.auto cfg.execCksum (b == len * 8 - 1) (st.outBuf.getD (b / 8) 0)
      cksum st.tok
    { st with tok, autos := st.autos ++ toks }
  else st

/-- `bitflip 1/1`, from `prev_cksum = exec_cksum`. -/
def bitflip1 (cfg : DetCfg) (t : Target) (len : Nat) (st : DetSt) : DetSt :=
  (List.range (len * 8)).foldl (flip1Round cfg t len) { st with tok.prevCksum := cfg.execCksum }

def bitflip2 (len : Nat) (st : DetSt) : DetSt := (List.range (len * 8 - 1)).foldl (walkingBitRound 2 len) st

def bitflip4 (len : Nat) (st : DetSt) : DetSt := (List.range (len * 8 - 3)).foldl (walkingBitRound 4 len) st

/-! ## The walking bytes -/

/-- `EFF_ALEN(l)`. -/
def effAlen (s l : Nat) : Nat := (l >>> s) + if l % 2 ^ s ≠ 0 then 1 else 0

/-- A round of `bitflip 8/8` at `i`: the flipped byte's run marks the mask in rare-branch mode,
and the effector byte of `i` when the run's checksum is not `exec_cksum`. -/
def flip8Round (cfg : DetCfg) (t : Target) (len : Nat) (st : DetSt) (i : Nat) : DetSt :=
  let st := { st with outBuf := st.outBuf.modify (· ^^^ 0xFF) i }
  let cand := st.outBuf.take len
  let st := st.run len
  let st := if cfg.rbFuzzing != 0 && !cfg.shadowMode && 0 < cfg.useBranchMask && t.hitsBranch cand
    then { st with branchMask := st.branchMask.set i 1 } else st
  let a := i >>> cfg.effMapScale2
  let st :=
    if st.effMap.getD a 0 == 0 then
      let cksum := if !cfg.nonInstrumentedMode && cfg.effMinLen ≤ len then t.cksum cand
        else cfg.execCksum ^^^ (2 ^ 64 - 1)
      if cksum != cfg.execCksum then { st with effMap := st.effMap.set a 1, effCnt := st.effCnt + 1 }
      else st
    else st
  { st with outBuf := st.outBuf.modify (· ^^^ 0xFF) i }

/-- The effector map before `bitflip 8/8`: `EFF_ALEN(len)` zero bytes with the entries of the
first and the last byte set, the last one counted in `eff_cnt`. -/
def effMapInit (cfg : DetCfg) (len : Nat) (st : DetSt) : DetSt :=
  let s := cfg.effMapScale2
  let effMap := (List.replicate (effAlen s len) 0).set 0 1
  if (len - 1) >>> s ≠ 0 then { st with effMap := effMap.set ((len - 1) >>> s) 1, effCnt := st.effCnt + 1 }
  else { st with effMap }

/-- After `bitflip 8/8`: a map denser than `EFF_MAX_PERC` percent is set everywhere. -/
def effMapDense (cfg : DetCfg) (len : Nat) (st : DetSt) : DetSt :=
  let alen := effAlen cfg.effMapScale2 len
  if st.effCnt ≠ alen ∧ cfg.effMaxPerc < st.effCnt * 100 / alen then { st with effMap := List.replicate alen 1 }
  else st

/-- `bitflip 8/8` with the effector map set up before it and made dense after it. -/
def bitflip8 (cfg : DetCfg) (t : Target) (len : Nat) (st : DetSt) : DetSt :=
  effMapDense cfg len ((List.range len).foldl (flip8Round cfg t len) (effMapInit cfg len st))

/-- `rbrem8` at `i`: `tmp_buf` holds `out_buf` without byte `i`. -/
def rbrem8Round (t : Target) (len : Nat) (st : DetSt) (i : Nat) : DetSt :=
  let cand := st.outBuf.take i ++ (st.outBuf.drop (1 + i)).take (len - i - 1)
  let st := st.exec cand (len - 1)
  if t.hitsBranch cand then { st with branchMask := st.branchMask.modify (· + 2) i } else st

/-- `rbadd8` at `i`: `tmp_buf` holds `out_buf` with a random byte inserted before `i`. -/
def rbadd8Round (t : Target) (len : Nat) (st : DetSt) (i : Nat) : DetSt :=
  let (r, rng) := st.rng.below 256
  let cand := st.outBuf.take i ++ [r.toUInt8] ++ (st.outBuf.drop i).take (len - i)
  let st := { st with rng }.exec cand (len + 1)
  if t.hitsBranch cand then { st with branchMask := st.branchMask.modify (· + 4) i } else st

/-- The `rbrem8` and `rbadd8` probes after `bitflip 8/8`. -/
def rbProbeLoops (cfg : DetCfg) (t : Target) (len : Nat) (st : DetSt) : DetSt :=
  if cfg.rbFuzzing != 0 && !cfg.shadowMode && 0 < cfg.useBranchMask then
    (List.range (len + 1)).foldl (rbadd8Round t len) ((List.range len).foldl (rbrem8Round t len) st)
  else st

/-- A round of `bitflip 16/8` (`w = 2`) or `32/8` (`w = 4`) at `i`. -/
def walkingByteRound (cfg : DetCfg) (w : Nat) (checkMask : Bool) (len : Nat) (st : DetSt) (i : Nat) :
    DetSt :=
  if st.skipPos cfg checkMask i w then st
  else
    let st := (st.store i w (loadLE st.outBuf i w ^^^ (2 ^ (8 * w) - 1))).run len
    st.store i w (loadLE st.outBuf i w ^^^ (2 ^ (8 * w) - 1))

/-- `bitflip 16/8`: the mask test sits under `if (!afl->rb_fuzzing)`. -/
def bitflip16 (cfg : DetCfg) (len : Nat) (st : DetSt) : DetSt :=
  if len < 2 then st else (List.range (len - 1)).foldl (walkingByteRound cfg 2 (cfg.rbFuzzing == 0) len) st

/-- `bitflip 32/8`: the mask test sits under `if (afl->rb_fuzzing)`. -/
def bitflip32 (cfg : DetCfg) (len : Nat) (st : DetSt) : DetSt :=
  if len < 4 then st else (List.range (len - 3)).foldl (walkingByteRound cfg 4 (cfg.rbFuzzing != 0) len) st

/-! ## Arithmetics and interesting values -/

/-- `if (test) { *(uN *)(out_buf + i) = v; common_fuzz_stuff(afl, out_buf, len); }` -/
def DetSt.storeRun (len i w : Nat) (st : DetSt) (t : Bool × Nat) : DetSt :=
  if t.1 then (st.store i w t.2).run len else st

/-- The two tries of `arith 8/8` at `j`, `orig + j` and `orig - j`, each with its test on the
low byte of `orig ^ (orig ± j)`. -/
def arith8Tries (orig j : Nat) : List (Bool × Nat) :=
  [(!couldBeBitflip (orig ^^^ uN 1 (orig + j)), uN 1 (orig + j)),
   (!couldBeBitflip (orig ^^^ uN 1 ((orig : Int) - j)), uN 1 ((orig : Int) - j))]

/-- The four tries of `arith 16/8` at `j`: little-endian `+` and `-`, then big-endian
`SWAP16(SWAP16(orig) ± j)`. -/
def arith16Tries (orig j : Nat) : List (Bool × Nat) :=
  let be (x : Int) := swapLE 2 (uN 2 x)
  [(0xff < orig % 256 + j && !couldBeBitflip (orig ^^^ uN 2 (orig + j)), uN 2 (orig + j)),
   (orig % 256 < j && !couldBeBitflip (orig ^^^ uN 2 ((orig : Int) - j)), uN 2 ((orig : Int) - j)),
   (0xff < orig / 256 + j && !couldBeBitflip (orig ^^^ be (swapLE 2 orig + j)), be (swapLE 2 orig + j)),
   (orig / 256 < j && !couldBeBitflip (orig ^^^ be ((swapLE 2 orig : Int) - j)),
     be ((swapLE 2 orig : Int) - j))]

/-- The four tries of `arith 32/8` at `j`. -/
def arith32Tries (orig j : Nat) : List (Bool × Nat) :=
  let be (x : Int) := swapLE 4 (uN 4 x)
  [(0xffff < orig % 65536 + j && !couldBeBitflip (orig ^^^ uN 4 (orig + j)), uN 4 (orig + j)),
   (orig % 65536 < j && !couldBeBitflip (orig ^^^ uN 4 ((orig : Int) - j)), uN 4 ((orig : Int) - j)),
   (0xffff < swapLE 4 orig % 65536 + j && !couldBeBitflip (orig ^^^ be (swapLE 4 orig + j)),
     be (swapLE 4 orig + j)),
   (swapLE 4 orig % 65536 < j && !couldBeBitflip (orig ^^^ be ((swapLE 4 orig : Int) - j)),
     be ((swapLE 4 orig : Int) - j))]

/-- A round of an arith stage at `i`: for `j = 1 .. ARITH_MAX` the tries of `j`, then
`*(uN *)(out_buf + i) = orig`. -/
def arithRound (cfg : DetCfg) (w : Nat) (tries : Nat → Nat → List (Bool × Nat)) (len : Nat) (st : DetSt)
    (i : Nat) : DetSt :=
  let orig := loadLE st.outBuf i w
  if st.skipPos cfg (cfg.rbFuzzing != 0) i w then st
  else (List.range' 1 cfg.arithMax).foldl (fun st j => ((tries orig j).foldl (DetSt.storeRun len i w) st).store i w orig) st

def arith8 (cfg : DetCfg) (len : Nat) (st : DetSt) : DetSt :=
  if cfg.noArith then st else (List.range len).foldl (arithRound cfg 1 arith8Tries len) st

def arith16 (cfg : DetCfg) (len : Nat) (st : DetSt) : DetSt :=
  if cfg.noArith ∨ len < 2 then st else (List.range (len - 1)).foldl (arithRound cfg 2 arith16Tries len) st

def arith32 (cfg : DetCfg) (len : Nat) (st : DetSt) : DetSt :=
  if cfg.noArith ∨ len < 4 then st else (List.range (len - 3)).foldl (arithRound cfg 4 arith32Tries len) st

/-- A round of `interest 8/8` at `i`: each value is written, run and undone, unless
`could_be_bitflip` or `could_be_arith` skips it. -/
def interest8Round (cfg : DetCfg) (len : Nat) (st : DetSt) (i : Nat) : DetSt :=
  let orig := loadLE st.outBuf i 1
  if st.skipPos cfg (cfg.rbFuzzing != 0) i 1 then st
  else cfg.interesting8.foldl (fun st v =>
    if couldBeBitflip (orig ^^^ uN 1 v) || couldBeArith cfg.arithMax orig (uN 1 v) 1 then st
    else ((st.store i 1 (uN 1 v)).run len).store i 1 orig) st

/-- The two tries of `interest 16/8` for a value: little-endian, then `SWAP16` when it differs. -/
def interest16Tries (cfg : DetCfg) (orig : Nat) (v : Int) : List (Bool × Nat) :=
  let le := uN 2 v
  let be := swapLE 2 (uN 2 v)
  [(!couldBeBitflip (orig ^^^ le) && !couldBeArith cfg.arithMax orig le 2 &&
      !couldBeInterest cfg.interesting8 cfg.interesting16 cfg.interesting32 orig le 2 false, le),
   (le != be && !couldBeBitflip (orig ^^^ be) && !couldBeArith cfg.arithMax orig be 2 &&
      !couldBeInterest cfg.interesting8 cfg.interesting16 cfg.interesting32 orig be 2 true, be)]

/-- The two tries of `interest 32/8` for a value. -/
def interest32Tries (cfg : DetCfg) (orig : Nat) (v : Int) : List (Bool × Nat) :=
  let le := uN 4 v
  let be := swapLE 4 (uN 4 v)
  [(!couldBeBitflip (orig ^^^ le) && !couldBeArith cfg.arithMax orig le 4 &&
      !couldBeInterest cfg.interesting8 cfg.interesting16 cfg.interesting32 orig le 4 false, le),
   (le != be && !couldBeBitflip (orig ^^^ be) && !couldBeArith cfg.arithMax orig be 4 &&
      !couldBeInterest cfg.interesting8 cfg.interesting16 cfg.interesting32 orig be 4 true, be)]

/-- A round of `interest 16/8` or `32/8` at `i`: the tries of every value, and `orig` written
back once after them. -/
def interestRound (cfg : DetCfg) (w : Nat) (vals : List Int) (tries : Nat → Int → List (Bool × Nat))
    (len : Nat) (st : DetSt) (i : Nat) : DetSt :=
  let orig := loadLE st.outBuf i w
  if st.skipPos cfg (cfg.rbFuzzing != 0) i w then st
  else (vals.foldl (fun st v => (tries orig v).foldl (DetSt.storeRun len i w) st) st).store i w orig

def interest8 (cfg : DetCfg) (len : Nat) (st : DetSt) : DetSt :=
  (List.range len).foldl (interest8Round cfg len) st

def interest16 (cfg : DetCfg) (len : Nat) (st : DetSt) : DetSt :=
  if cfg.noArith ∨ len < 2 then st
  else (List.range (len - 1)).foldl (interestRound cfg 2 cfg.interesting16 (interest16Tries cfg) len) st

def interest32 (cfg : DetCfg) (len : Nat) (st : DetSt) : DetSt :=
  if cfg.noArith ∨ len < 4 then st
  else (List.range (len - 3)).foldl (interestRound cfg 4 cfg.interesting32 (interest32Tries cfg) len) st

/-! ## The dictionary stages -/

/-- `memchr(eff_map + EFF_APOS(i), 1, EFF_SPAN_ALEN(i, l))` finds a set effector byte. -/
def DetSt.effSpan (cfg : DetCfg) (st : DetSt) (i l : Nat) : Bool :=
  let s := cfg.effMapScale2
  ((st.effMap.drop (i >>> s)).take (((i + l - 1) >>> s) - (i >>> s) + 1)).contains 1

/-- Token `e` at `i` after `(st, last_len)`. `drawSkip` is the user pass's probabilistic skip
(`extras_cnt > max_det_extras`), which draws `rand_below(afl, extras_cnt)` for every token. -/
def extrasOverTry (cfg : DetCfg) (drawSkip : Bool) (len i : Nat) (acc : DetSt × Nat) (e : Buf) :
    DetSt × Nat :=
  let (st, lastLen) := acc
  let (skip, rng) := if drawSkip then
      let (r, rng) := st.rng.below cfg.extras.length
      (decide (cfg.maxDetExtras ≤ r), rng)
    else (false, st.rng)
  let st := { st with rng }
  if skip || decide (len - i < e.length) || (st.outBuf.drop i).take e.length == e || !st.effSpan cfg i e.length
  then (st, lastLen)
  else if cfg.rbFuzzing != 0 && (List.range e.length).any fun k => st.branchMask.getD (i + k) 0 &&& 1 == 0
  then (st, lastLen)
  else (({ st with outBuf := overwrite st.outBuf i e } : DetSt).run len, e.length)

/-- A position of an overwrite stage: its tokens, then `memcpy(out_buf + i, in_buf + i, last_len)`. -/
def extrasOverRound (cfg : DetCfg) (extras : List Buf) (drawSkip : Bool) (inBuf : Buf) (len : Nat)
    (st : DetSt) (i : Nat) : DetSt :=
  let (st, lastLen) := extras.foldl (extrasOverTry cfg drawSkip len i) (st, 0)
  { st with outBuf := overwrite st.outBuf i ((inBuf.drop i).take lastLen) }

/-- `user extras (over)`. -/
def userExtrasOver (cfg : DetCfg) (inBuf : Buf) (len : Nat) (st : DetSt) : DetSt :=
  if cfg.extras.length = 0 then st
  else (List.range len).foldl
    (extrasOverRound cfg cfg.extras (decide (cfg.maxDetExtras < cfg.extras.length)) inBuf len) st

/-- `auto extras (over)`, over the first `MIN(a_extras_cnt, USE_AUTO_EXTRAS)` tokens. -/
def autoExtrasOver (cfg : DetCfg) (inBuf : Buf) (len : Nat) (st : DetSt) : DetSt :=
  if cfg.aExtras.length = 0 then st
  else (List.range len).foldl
    (extrasOverRound cfg (cfg.aExtras.take (min cfg.aExtras.length cfg.useAutoExtras)) false inBuf len) st

/-- `afl_realloc(buf, n)`: the contents kept, at least `n` bytes (the new bytes are written before
any candidate reads them). -/
def realloc (buf : Buf) (n : Nat) : Buf := buf ++ List.replicate (n - buf.length) 0

/-- Token `e` inserted at `i`: the token and the tail of `out_buf` copied into `ex_tmp`. -/
def extrasInsertTry (cfg : DetCfg) (len i : Nat) (st : DetSt) (e : Buf) : DetSt :=
  if cfg.maxFile < len + e.length then st
  else if st.branchMask.getD i 0 &&& 4 = 0 then st
  else
    let exTmp := overwrite (overwrite st.exTmp i e) (i + e.length) ((st.outBuf.drop i).take (len - i))
    { st with exTmp }.exec exTmp (len + e.length)

/-- A position of `user extras (insert)`: its tokens, then `ex_tmp[i] = out_buf[i]`. -/
def extrasInsertRound (cfg : DetCfg) (len : Nat) (st : DetSt) (i : Nat) : DetSt :=
  let st := cfg.extras.foldl (extrasInsertTry cfg len i) st
  { st with exTmp := st.exTmp.set i (st.outBuf.getD i 0) }

/-- `user extras (insert)`, after `ex_tmp = afl_realloc(ex, len + MAX_DICT_FILE)`. -/
def userExtrasInsert (cfg : DetCfg) (len : Nat) (st : DetSt) : DetSt :=
  if cfg.extras.length = 0 then st
  else (List.range (len + 1)).foldl (extrasInsertRound cfg len)
    { st with exTmp := realloc st.exTmp (len + cfg.maxDictFile) }

/-! ## The sub-stages -/

inductive DetStage
  | flip1 | flip8 | flip2 | flip4 | flip16 | flip32
  | arith8 | arith16 | arith32 | interest8 | interest16 | interest32
  | userExtrasOver | userExtrasInsert | autoExtrasOver
  deriving DecidableEq, Repr

/-- A sub-stage run on `in_buf` of length `len`; `bitflip 8/8` comes with its probes. -/
def DetStage.run (cfg : DetCfg) (t : Target) (inBuf : Buf) (len : Nat) : DetStage → DetSt → DetSt
  | .flip1 => bitflip1 cfg t len
  | .flip8 => fun st => rbProbeLoops cfg t len (bitflip8 cfg t len st)
  | .flip2 => bitflip2 len
  | .flip4 => bitflip4 len
  | .flip16 => bitflip16 cfg len
  | .flip32 => bitflip32 cfg len
  | .arith8 => FuzzOne.arith8 cfg len
  | .arith16 => FuzzOne.arith16 cfg len
  | .arith32 => FuzzOne.arith32 cfg len
  | .interest8 => FuzzOne.interest8 cfg len
  | .interest16 => FuzzOne.interest16 cfg len
  | .interest32 => FuzzOne.interest32 cfg len
  | .userExtrasOver => FuzzOne.userExtrasOver cfg inBuf len
  | .userExtrasInsert => FuzzOne.userExtrasInsert cfg len
  | .autoExtrasOver => FuzzOne.autoExtrasOver cfg inBuf len

/-! ## Writing a window and writing it back -/

theorem overwrite_getD (buf src : Buf) {pos : Nat} (hp : pos + src.length ≤ buf.length) (k : Nat) :
    (overwrite buf pos src).getD k 0 =
      if pos ≤ k ∧ k < pos + src.length then src.getD (k - pos) 0 else buf.getD k 0 := by
  split
  · obtain ⟨j, rfl⟩ : ∃ j, k = pos + j := ⟨k - pos, by omega⟩
    rw [overwrite_getD_mid _ _ (by omega) hp, Nat.add_sub_cancel_left]
  · rcases Nat.lt_or_ge k pos with hk | hk
    · exact overwrite_getD_of_lt _ _ hk (by omega)
    · exact overwrite_getD_of_ge _ _ (by omega) hp

/-- A write at the same place that is at least as long hides the earlier one. -/
theorem overwrite_overwrite {buf X Y : Buf} {pos : Nat} (hXY : X.length ≤ Y.length)
    (hp : pos + Y.length ≤ buf.length) : overwrite (overwrite buf pos X) pos Y = overwrite buf pos Y := by
  have hX : pos + X.length ≤ buf.length := by omega
  have hl := overwrite_length buf X pos hX
  refine buf_ext (by rw [overwrite_length _ _ _ (by omega), hl, overwrite_length _ _ _ hp]) fun k _ => ?_
  rw [overwrite_getD _ _ (by omega), overwrite_getD _ _ hX, overwrite_getD _ _ hp]
  split_ifs <;> first | rfl | omega

theorem window_getD (buf : Buf) {pos n k : Nat} (hk : k < n) :
    ((buf.drop pos).take n).getD k 0 = buf.getD (pos + k) 0 := by
  rw [List.getD_eq_getElem?_getD, List.getElem?_take_of_lt hk, List.getElem?_drop, ← List.getD_eq_getElem?_getD]

/-- Copying a window's own bytes over it changes nothing. -/
theorem overwrite_window {buf : Buf} {pos n : Nat} (hp : pos + n ≤ buf.length) :
    overwrite buf pos ((buf.drop pos).take n) = buf := by
  have hn : ((buf.drop pos).take n).length = n := by simp only [List.length_take, List.length_drop]; omega
  refine buf_ext (by rw [overwrite_length _ _ _ (by omega)]) fun k _ => ?_
  rw [overwrite_getD _ _ (by omega), hn]
  split_ifs with h
  · rw [window_getD _ (by omega), Nat.add_sub_cancel' h.1]
  · rfl

/-- `memcpy(out_buf + i, in_buf + i, last_len)` after a write of `last_len` bytes at `i`. -/
theorem overwrite_undo {buf X : Buf} {pos : Nat} (hp : pos + X.length ≤ buf.length) :
    overwrite (overwrite buf pos X) pos ((buf.drop pos).take X.length) = buf := by
  rw [overwrite_overwrite (by simp only [List.length_take, List.length_drop]; omega)
    (by simp only [List.length_take, List.length_drop]; omega), overwrite_window hp]

theorem storeLE_storeLE {buf : Buf} {pos w : Nat} (x y : Nat) (hp : pos + w ≤ buf.length) :
    storeLE (storeLE buf pos w x) pos w y = storeLE buf pos w y :=
  overwrite_overwrite (by rw [toBytesLE_length, toBytesLE_length]) (by rw [toBytesLE_length]; exact hp)

/-- The bytes of a window's value are the window. -/
theorem toBytesLE_window {buf : Buf} {pos w : Nat} (hp : pos + w ≤ buf.length) :
    toBytesLE w (loadLE buf pos w) = (buf.drop pos).take w :=
  buf_ext (by simp only [toBytesLE_length, List.length_take, List.length_drop]; omega) fun k hk => by
    rw [toBytesLE_length] at hk
    rw [toBytesLE_getD _ _ _ hk, loadLE_byte _ hk, window_getD _ hk]
    exact UInt8.eq_of_toNat_eq (by rw [toUInt8_toNat, Nat.mod_eq_of_lt (UInt8.toNat_lt_256 _)])

/-- Writing back the value a window held. -/
theorem storeLE_loadLE {buf : Buf} {pos w : Nat} (hp : pos + w ≤ buf.length) :
    storeLE buf pos w (loadLE buf pos w) = buf := by
  rw [storeLE, toBytesLE_window hp, overwrite_window hp]

theorem loadLE_storeLE {buf : Buf} {pos w : Nat} (v : Nat) (hp : pos + w ≤ buf.length) :
    loadLE (storeLE buf pos w v) pos w = v % 256 ^ w :=
  eq_of_bytes (loadLE_lt _ _ _) (Nat.mod_lt _ (pow_pos (by decide) _)) fun k hk => by
    rw [loadLE_byte _ hk, storeLE_getD _ hp, if_pos (by omega), Nat.add_sub_cancel_left, toUInt8_toNat,
      Nat.mod_mod, digits_byte v hk]

/-! ## Flips undo themselves -/

theorem UInt8.xor_xor_cancel (x m : UInt8) : x ^^^ m ^^^ m = x :=
  UInt8.eq_of_toNat_eq (by
    show x.toNat ^^^ m.toNat ^^^ m.toNat = x.toNat
    rw [Nat.xor_assoc, Nat.xor_self, Nat.xor_zero])

theorem UInt8.xor_xor_comm (x m n : UInt8) : x ^^^ m ^^^ n = x ^^^ n ^^^ m :=
  UInt8.eq_of_toNat_eq (by
    show x.toNat ^^^ m.toNat ^^^ n.toNat = x.toNat ^^^ n.toNat ^^^ m.toNat
    rw [Nat.xor_assoc, Nat.xor_comm m.toNat, Nat.xor_assoc])

/-- `x ^= m` twice at one index. -/
theorem modify_xor_xor (buf : Buf) (i : Nat) (m : UInt8) : (buf.modify (· ^^^ m) i).modify (· ^^^ m) i = buf := by
  rw [List.modify_modify_eq, show ((· ^^^ m) ∘ (· ^^^ m) : UInt8 → UInt8) = id from
    funext fun x => UInt8.xor_xor_cancel x m, List.modify_id]

theorem flipBit_flipBit (ar : Buf) (b : Nat) : flipBit (flipBit ar b) b = ar := modify_xor_xor _ _ _

theorem flipBit_comm (ar : Buf) (b c : Nat) : flipBit (flipBit ar b) c = flipBit (flipBit ar c) b := by
  unfold flipBit
  by_cases h : b / 8 = c / 8
  · rw [h, List.modify_modify_eq, List.modify_modify_eq]
    congr 1
    funext x
    exact UInt8.xor_xor_comm x _ _
  · exact List.modify_modify_ne _ _ _ h

theorem flipBit_length (ar : Buf) (b : Nat) : (flipBit ar b).length = ar.length := List.length_modify _ _ _

theorem flipBits_succ (buf : Buf) (b n : Nat) : flipBits buf b (n + 1) = flipBit (flipBits buf b n) (b + n) := by
  simp only [flipBits, List.range_succ, List.foldl_append, List.foldl_cons, List.foldl_nil]

theorem flipBits_length (buf : Buf) (b : Nat) : ∀ n, (flipBits buf b n).length = buf.length
  | 0 => rfl
  | n + 1 => by rw [flipBits_succ, flipBit_length, flipBits_length buf b n]

theorem flipBits_flipBit (buf : Buf) (b c : Nat) : ∀ n, flipBits (flipBit buf c) b n = flipBit (flipBits buf b n) c
  | 0 => rfl
  | n + 1 => by rw [flipBits_succ, flipBits_succ, flipBits_flipBit buf b c n, flipBit_comm]

/-- The walking flips of `bitflip 1/1`, `2/1` and `4/1` undo themselves. -/
theorem flipBits_flipBits (buf : Buf) (b : Nat) : ∀ n, flipBits (flipBits buf b n) b n = buf
  | 0 => rfl
  | n + 1 => by
    rw [flipBits_succ, flipBits_succ, flipBits_flipBit, flipBits_flipBits buf b n, flipBit_flipBit]

/-! ## Runs that keep an invariant -/

/-- From `st` to `st'`: `I` holds at `st'`, and every buffer run in between has `P`. -/
structure Keeps (I : DetSt → Prop) (P : Buf → Prop) (st st' : DetSt) : Prop where
  inv : I st'
  runs : ∃ new, st'.execs = st.execs ++ new ∧ ∀ c ∈ new, P c

namespace Keeps

variable {I J : DetSt → Prop} {P Q : Buf → Prop} {st st₁ st₂ : DetSt}

theorem refl (h : I st) : Keeps I P st st := ⟨h, [], by simp, by simp⟩

/-- A single run of `c`. -/
theorem one (c : Buf) (h : I st₁) (he : st₁.execs = st.execs ++ [c]) (hc : P c) : Keeps I P st st₁ :=
  ⟨h, [c], he, by simpa using hc⟩

theorem trans (h₁ : Keeps J P st st₁) (h₂ : Keeps I P st₁ st₂) : Keeps I P st st₂ := by
  obtain ⟨-, n₁, e₁, p₁⟩ := h₁
  obtain ⟨i₂, n₂, e₂, p₂⟩ := h₂
  exact ⟨i₂, n₁ ++ n₂, by rw [e₂, e₁, List.append_assoc],
    fun c hc => (List.mem_append.1 hc).elim (p₁ c) (p₂ c)⟩

theorem mono (h : Keeps I P st st₁) (hI : I st₁ → J st₁) (hP : ∀ c, P c → Q c) : Keeps J Q st st₁ :=
  ⟨hI h.inv, h.runs.imp fun _ ⟨e, p⟩ => ⟨e, fun c hc => hP c (p c hc)⟩⟩

/-- A state with the same `out_buf` invariant and the same runs. -/
theorem congr (h : Keeps I P st st₁) (hI : I st₁ → I st₂) (he : st₂.execs = st₁.execs) : Keeps I P st st₂ :=
  ⟨hI h.inv, he ▸ h.runs⟩

/-- Only the runs of the start state matter. -/
theorem start (h : Keeps I P st₁ st₂) (he : st₁.execs = st.execs) : Keeps I P st st₂ :=
  ⟨h.inv, he ▸ h.runs⟩

/-- The run lemma: a loop whose every round keeps `I` and runs only `P`. -/
theorem foldl {α : Type} {f : DetSt → α → DetSt} :
    ∀ (as : List α), (∀ a ∈ as, ∀ st, I st → Keeps I P st (f st a)) → ∀ st, I st → Keeps I P st (as.foldl f st)
  | [], _, _, h => .refl h
  | a :: as, hf, st, h =>
    have h₁ := hf a (List.mem_cons_self _ _) st h
    h₁.trans (foldl as (fun a ha => hf a (List.mem_cons_of_mem _ ha)) _ h₁.inv)

end Keeps

/-! ## What a sub-stage runs -/

/-- `c` is `in_buf` with one `w`-byte store at some `i`, of a value `vals` offers for the old
value of the window. -/
def StoreEdit (inBuf : Buf) (w : Nat) (vals : Nat → List Nat) (c : Buf) : Prop :=
  ∃ i, i + w ≤ inBuf.length ∧ ∃ v ∈ vals (loadLE inBuf i w), c = storeLE inBuf i w v

/-- `c` is `in_buf` with one token of `extras` written over it at some `i`. -/
def OverEdit (inBuf : Buf) (extras : List Buf) (c : Buf) : Prop :=
  ∃ i, ∃ e ∈ extras, i + e.length ≤ inBuf.length ∧ c = overwrite inBuf i e

/-- The buffers a sub-stage hands to `common_fuzz_stuff`: `in_buf` with one edit of that stage. -/
def DetStage.Edit (cfg : DetCfg) (inBuf : Buf) : DetStage → Buf → Prop
  | .flip1, c => ∃ b < inBuf.length * 8, c = flipBits inBuf b 1
  | .flip8, c => (∃ i < inBuf.length, c = inBuf.modify (· ^^^ 0xFF) i) ∨
      (∃ i < inBuf.length, c = inBuf.eraseIdx i) ∨
      ∃ i ≤ inBuf.length, ∃ r : UInt8, c = inBuf.take i ++ [r] ++ inBuf.drop i
  | .flip2, c => ∃ b < inBuf.length * 8 - 1, c = flipBits inBuf b 2
  | .flip4, c => ∃ b < inBuf.length * 8 - 3, c = flipBits inBuf b 4
  | .flip16, c => StoreEdit inBuf 2 (fun o => [o ^^^ 0xffff]) c
  | .flip32, c => StoreEdit inBuf 4 (fun o => [o ^^^ 0xffffffff]) c
  | .arith8, c => StoreEdit inBuf 1
      (fun o => (List.range' 1 cfg.arithMax).flatMap fun j => (arith8Tries o j).map Prod.snd) c
  | .arith16, c => StoreEdit inBuf 2
      (fun o => (List.range' 1 cfg.arithMax).flatMap fun j => (arith16Tries o j).map Prod.snd) c
  | .arith32, c => StoreEdit inBuf 4
      (fun o => (List.range' 1 cfg.arithMax).flatMap fun j => (arith32Tries o j).map Prod.snd) c
  | .interest8, c => StoreEdit inBuf 1 (fun _ => cfg.interesting8.map (uN 1)) c
  | .interest16, c => StoreEdit inBuf 2
      (fun o => cfg.interesting16.flatMap fun v => (interest16Tries cfg o v).map Prod.snd) c
  | .interest32, c => StoreEdit inBuf 4
      (fun o => cfg.interesting32.flatMap fun v => (interest32Tries cfg o v).map Prod.snd) c
  | .userExtrasOver, c => OverEdit inBuf cfg.extras c
  | .userExtrasInsert, c => ∃ i ≤ inBuf.length, ∃ e ∈ cfg.extras, c = inBuf.take i ++ e ++ inBuf.drop i
  | .autoExtrasOver, c => OverEdit inBuf (cfg.aExtras.take (min cfg.aExtras.length cfg.useAutoExtras)) c

theorem StoreEdit.of_mem {inBuf : Buf} {w i v : Nat} {vals : Nat → List Nat} (hp : i + w ≤ inBuf.length)
    (hv : v ∈ vals (loadLE inBuf i w)) : StoreEdit inBuf w vals (storeLE inBuf i w v) :=
  ⟨i, hp, v, hv, rfl⟩

/-! ## The walking bits and bytes give `out_buf` back -/

section Rounds

variable {inBuf : Buf} {st : DetSt}

theorem walkingBitRound_keeps (n b : Nat) (h : st.outBuf = inBuf) :
    Keeps (·.outBuf = inBuf) (· = flipBits inBuf b n) st (walkingBitRound n inBuf.length st b) := by
  subst h
  exact .one _ (flipBits_flipBits _ _ _) rfl (List.take_of_length_le (flipBits_length _ _ _).le)

/-- The token step reads the restored byte and changes neither `out_buf` nor the runs. -/
theorem flip1Round_keeps (cfg : DetCfg) (t : Target) (b : Nat) (h : st.outBuf = inBuf) :
    Keeps (·.outBuf = inBuf) (· = flipBits inBuf b 1) st (flip1Round cfg t inBuf.length st b) :=
  (walkingBitRound_keeps 1 b h).congr (fun h' => by unfold flip1Round; dsimp only; split <;> exact h')
    (by unfold flip1Round; dsimp only; split <;> rfl)

theorem flip8Round_keeps (cfg : DetCfg) (t : Target) (i : Nat) (h : st.outBuf = inBuf) :
    Keeps (·.outBuf = inBuf) (· = inBuf.modify (· ^^^ 0xFF) i) st (flip8Round cfg t inBuf.length st i) := by
  subst h
  refine .one _ ?_ ?_ (List.take_of_length_le (List.length_modify _ _ _).le)
  · unfold flip8Round; dsimp only; split_ifs <;> exact modify_xor_xor _ _ _
  · unfold flip8Round; dsimp only; split_ifs <;> rfl

theorem rbrem8Round_keeps (t : Target) {i : Nat} (hi : i < inBuf.length) (h : st.outBuf = inBuf) :
    Keeps (·.outBuf = inBuf) (· = inBuf.eraseIdx i) st (rbrem8Round t inBuf.length st i) := by
  subst h
  refine .one _ (by unfold rbrem8Round; dsimp only; split <;> rfl) (by unfold rbrem8Round; dsimp only; split <;> rfl) ?_
  have hd : (st.outBuf.drop (1 + i)).take (st.outBuf.length - i - 1) = st.outBuf.drop (i + 1) := by
    rw [Nat.add_comm 1 i]
    exact List.take_of_length_le (by simp only [List.length_drop]; omega)
  rw [hd, List.take_of_length_le (by simp only [List.length_append, List.length_take, List.length_drop]; omega),
    List.eraseIdx_eq_take_drop_succ]

theorem rbadd8Round_keeps (t : Target) (i : Nat) (h : st.outBuf = inBuf) :
    Keeps (·.outBuf = inBuf) (fun c => ∃ r : UInt8, c = inBuf.take i ++ [r] ++ inBuf.drop i) st
      (rbadd8Round t inBuf.length st i) := by
  subst h
  refine .one _ (by unfold rbadd8Round; dsimp only; split <;> rfl) (by unfold rbadd8Round; dsimp only; split <;> rfl)
    ⟨(st.rng.below 256).1.toUInt8, ?_⟩
  have hd : (st.outBuf.drop i).take (st.outBuf.length - i) = st.outBuf.drop i :=
    List.take_of_length_le (by simp only [List.length_drop]; omega)
  rw [hd, List.take_of_length_le
    (by simp only [List.length_append, List.length_take, List.length_drop, List.length_singleton]; omega)]

end Rounds

/-! ## The stores give `out_buf` back -/

/-- Inside a position of a store stage: `out_buf` is `in_buf` with some value at `[i, i + w)`. -/
def InWindow (inBuf : Buf) (i w : Nat) (st : DetSt) : Prop := ∃ x, st.outBuf = storeLE inBuf i w x

section Stores

variable {inBuf : Buf} {st : DetSt} {i w : Nat}

theorem InWindow.of_eq (hp : i + w ≤ inBuf.length) (h : st.outBuf = inBuf) : InWindow inBuf i w st :=
  ⟨loadLE inBuf i w, by rw [h, storeLE_loadLE hp]⟩

theorem storeRun_keeps (hp : i + w ≤ inBuf.length) (t : Bool × Nat) (h : InWindow inBuf i w st) :
    Keeps (InWindow inBuf i w) (· = storeLE inBuf i w t.2) st (st.storeRun inBuf.length i w t) := by
  obtain ⟨x, hx⟩ := h
  unfold DetSt.storeRun
  split
  · refine .one _ ⟨t.2, by simp only [DetSt.run, DetSt.exec, DetSt.store, hx, storeLE_storeLE _ _ hp]⟩ rfl ?_
    simp only [DetSt.store, hx, storeLE_storeLE _ _ hp]
    exact List.take_of_length_le (storeLE_length _ hp).le
  · exact .refl ⟨x, hx⟩

/-- The tries at `i`, in order: each run is `in_buf` with one of their values at `i`. -/
theorem tries_keeps (hp : i + w ≤ inBuf.length) (tries : List (Bool × Nat)) (h : InWindow inBuf i w st) :
    Keeps (InWindow inBuf i w) (fun c => ∃ t ∈ tries, c = storeLE inBuf i w t.2) st
      (tries.foldl (DetSt.storeRun inBuf.length i w) st) :=
  Keeps.foldl tries (fun t ht _ h => (storeRun_keeps hp t h).mono id fun _ hc => ⟨t, ht, hc⟩) st h

/-- `*(uN *)(out_buf + i) = orig` ends a position. -/
theorem store_orig_keeps (hp : i + w ≤ inBuf.length) {P : Buf → Prop} (h : InWindow inBuf i w st) :
    Keeps (·.outBuf = inBuf) P st (st.store i w (loadLE inBuf i w)) := by
  obtain ⟨x, hx⟩ := h
  exact ⟨by simp only [DetSt.store, hx, storeLE_storeLE _ _ hp, storeLE_loadLE hp], [], by simp [DetSt.store],
    by simp⟩

theorem walkingByteRound_keeps (cfg : DetCfg) (checkMask : Bool) (hp : i + w ≤ inBuf.length)
    (h : st.outBuf = inBuf) :
    Keeps (·.outBuf = inBuf) (StoreEdit inBuf w fun o => [o ^^^ (2 ^ (8 * w) - 1)]) st
      (walkingByteRound cfg w checkMask inBuf.length st i) := by
  unfold walkingByteRound
  split
  · exact .refl h
  · subst h
    have hM : loadLE st.outBuf i w ^^^ (2 ^ (8 * w) - 1) < 256 ^ w := by
      rw [show (256 : Nat) ^ w = 2 ^ (8 * w) by rw [Nat.pow_mul]]
      exact Nat.xor_lt_two_pow (by rw [Nat.pow_mul]; exact loadLE_lt _ _ _) (Nat.sub_lt (Nat.two_pow_pos _) one_pos)
    refine .one _ ?_ rfl ?_
    · simp only [DetSt.store, DetSt.run, DetSt.exec, loadLE_storeLE _ hp, Nat.mod_eq_of_lt hM, Nat.xor_assoc,
        Nat.xor_self, Nat.xor_zero, storeLE_storeLE _ _ hp, storeLE_loadLE hp]
    · simp only [DetSt.store]
      rw [List.take_of_length_le (storeLE_length _ hp).le]
      exact StoreEdit.of_mem hp (List.mem_singleton_self _)

/-- An arith position: each `j` ends with `orig` written back. -/
theorem arithRound_keeps (cfg : DetCfg) (tries : Nat → Nat → List (Bool × Nat)) (hp : i + w ≤ inBuf.length)
    (h : st.outBuf = inBuf) :
    Keeps (·.outBuf = inBuf)
      (StoreEdit inBuf w fun o => (List.range' 1 cfg.arithMax).flatMap fun j => (tries o j).map Prod.snd) st
      (arithRound cfg w tries inBuf.length st i) := by
  unfold arithRound
  rw [h]
  split
  · exact .refl h
  · refine Keeps.foldl _ (fun j hj st h => ?_) st h
    have h₁ := tries_keeps hp (tries (loadLE inBuf i w) j) (.of_eq hp h)
    exact (h₁.mono id fun _ ⟨t, ht, hc⟩ => hc ▸ StoreEdit.of_mem hp
      (List.mem_flatMap.2 ⟨j, hj, List.mem_map_of_mem _ ht⟩)).trans (store_orig_keeps hp h₁.inv)

/-- An `interest 8/8` position: each value written is undone before the next. -/
theorem interest8Round_keeps (cfg : DetCfg) (hp : i + 1 ≤ inBuf.length) (h : st.outBuf = inBuf) :
    Keeps (·.outBuf = inBuf) (StoreEdit inBuf 1 fun _ => cfg.interesting8.map (uN 1)) st
      (interest8Round cfg inBuf.length st i) := by
  unfold interest8Round
  rw [h]
  split
  · exact .refl h
  · refine Keeps.foldl _ (fun v hv st h => ?_) st h
    split
    · exact .refl h
    · refine .one _ ?_ rfl ?_
      · simp only [DetSt.store, DetSt.run, DetSt.exec, h, storeLE_storeLE _ _ hp, storeLE_loadLE hp]
      · simp only [DetSt.store, h]
        rw [List.take_of_length_le (storeLE_length _ hp).le]
        exact StoreEdit.of_mem hp (List.mem_map_of_mem _ hv)

/-- An `interest 16/8` or `32/8` position: the window holds the last value until `orig` is
written back after all of them. -/
theorem interestRound_keeps (cfg : DetCfg) (vals : List Int) (tries : Nat → Int → List (Bool × Nat))
    (hp : i + w ≤ inBuf.length) (h : st.outBuf = inBuf) :
    Keeps (·.outBuf = inBuf) (StoreEdit inBuf w fun o => vals.flatMap fun v => (tries o v).map Prod.snd) st
      (interestRound cfg w vals tries inBuf.length st i) := by
  unfold interestRound
  rw [h]
  split
  · exact .refl h
  · have h₁ : Keeps (InWindow inBuf i w)
        (StoreEdit inBuf w fun o => vals.flatMap fun v => (tries o v).map Prod.snd) st _ :=
      Keeps.foldl vals (fun v hv st h => (tries_keeps hp (tries (loadLE inBuf i w) v) h).mono id
        fun _ ⟨t, ht, hc⟩ => hc ▸ StoreEdit.of_mem hp (List.mem_flatMap.2 ⟨v, hv, List.mem_map_of_mem _ ht⟩))
        st (.of_eq hp h)
    exact h₁.trans (store_orig_keeps hp h₁.inv)

end Stores

/-! ## The dictionary stages give `out_buf` back -/

theorem overwrite_nil (buf : Buf) (pos : Nat) : overwrite buf pos [] = buf := by
  simp [overwrite]

theorem overwrite_eq (buf src : Buf) (pos : Nat) :
    overwrite buf pos src = buf.take pos ++ src ++ buf.drop (pos + src.length) := rfl

/-- What trying a token can do: draw only, or, when it fits, write it and run. -/
theorem extrasOverTry_cases (cfg : DetCfg) (d : Bool) (len i : Nat) (acc : DetSt × Nat) (e : Buf) :
    ∃ rng, extrasOverTry cfg d len i acc e = ({ acc.1 with rng }, acc.2) ∨
      (e.length ≤ len - i ∧ extrasOverTry cfg d len i acc e =
        (({ acc.1 with rng, outBuf := overwrite acc.1.outBuf i e } : DetSt).run len, e.length)) := by
  obtain ⟨st, l⟩ := acc
  unfold extrasOverTry
  dsimp only
  split <;> exact ⟨_, by
    split_ifs with h₁ h₂
    · exact .inl rfl
    · exact .inl rfl
    · exact .inr ⟨by simp only [Bool.or_eq_true, decide_eq_true_eq] at h₁; omega, rfl⟩⟩

/-- Inside a position of an overwrite stage: `out_buf` is `in_buf` with the last token run, of
length `last_len`, written at `i`. -/
def OverAt (inBuf : Buf) (i : Nat) (acc : DetSt × Nat) : Prop :=
  ∃ X : Buf, acc.1.outBuf = overwrite inBuf i X ∧ X.length = acc.2 ∧ i + acc.2 ≤ inBuf.length

section Extras

variable {inBuf : Buf} {st : DetSt}

/-- The tokens at `i`, shortest first: each one run hides the one run before it. -/
theorem extrasOver_fold (cfg : DetCfg) (d : Bool) (i : Nat) :
    ∀ (es : List Buf) (acc : DetSt × Nat), es.Pairwise (fun a b => a.length ≤ b.length) →
      (∀ e ∈ es, acc.2 ≤ e.length) → OverAt inBuf i acc →
      OverAt inBuf i (es.foldl (extrasOverTry cfg d inBuf.length i) acc) ∧
      Keeps (fun _ => True) (OverEdit inBuf es) acc.1 (es.foldl (extrasOverTry cfg d inBuf.length i) acc).1
  | [], _, _, _, h => ⟨h, .refl trivial⟩
  | e :: es, acc, hs, hle, ⟨X, hX, hXl, hXi⟩ => by
    obtain ⟨he, hs⟩ := List.pairwise_cons.1 hs
    have hsub : ∀ c, OverEdit inBuf es c → OverEdit inBuf (e :: es) c :=
      fun _ ⟨j, e', he', hc⟩ => ⟨j, e', List.mem_cons_of_mem _ he', hc⟩
    obtain ⟨rng, hr | ⟨hfit, hr⟩⟩ := extrasOverTry_cases cfg d inBuf.length i acc e
    · have ih := extrasOver_fold cfg d i es (extrasOverTry cfg d inBuf.length i acc e) hs
        (by rw [hr]; exact fun e' h' => hle e' (List.mem_cons_of_mem _ h')) (by rw [hr]; exact ⟨X, hX, hXl, hXi⟩)
      rw [List.foldl_cons]
      exact ⟨ih.1, (ih.2.start (by rw [hr])).mono id hsub⟩
    · have hlen : i + e.length ≤ inBuf.length := by omega
      have hout : overwrite acc.1.outBuf i e = overwrite inBuf i e := by
        rw [hX, overwrite_overwrite (hXl ▸ hle e (List.mem_cons_self _ _)) hlen]
      have ih := extrasOver_fold cfg d i es (extrasOverTry cfg d inBuf.length i acc e) hs
        (by rw [hr]; exact he) (by rw [hr]; exact ⟨e, hout, rfl, hlen⟩)
      rw [List.foldl_cons]
      refine ⟨ih.1, (@Keeps.one (fun _ => True) _ _ _ (overwrite inBuf i e) trivial ?_
        ⟨i, e, List.mem_cons_self _ _, hlen, rfl⟩).trans (ih.2.mono id hsub)⟩
      rw [hr]
      simp only [DetSt.run, DetSt.exec, hout, List.take_of_length_le (overwrite_length _ _ _ hlen).le]

/-- A position of an overwrite stage ends with `memcpy(out_buf + i, in_buf + i, last_len)`, which
covers every token run at `i` when they come sorted by length. -/
theorem extrasOverRound_keeps (cfg : DetCfg) {es : List Buf} (d : Bool)
    (hs : es.Pairwise fun a b => a.length ≤ b.length) {i : Nat} (hi : i ≤ inBuf.length) (h : st.outBuf = inBuf) :
    Keeps (·.outBuf = inBuf) (OverEdit inBuf es) st (extrasOverRound cfg es d inBuf inBuf.length st i) := by
  obtain ⟨⟨X, hX, hXl, hXi⟩, hk⟩ := extrasOver_fold cfg d i es (st, 0) hs (fun _ _ => Nat.zero_le _)
    ⟨[], by rw [h, overwrite_nil], rfl, by omega⟩
  unfold extrasOverRound
  dsimp only
  exact ⟨by rw [hX, ← hXl, overwrite_undo (by omega)], hk.runs⟩

theorem take_getD (l : Buf) {n k : Nat} (hk : k < n) : (l.take n).getD k 0 = l.getD k 0 := by
  rw [List.getD_eq_getElem?_getD, List.getElem?_take_of_lt hk, ← List.getD_eq_getElem?_getD]

/-- A write at `p` leaves the bytes before `q ≤ p`. -/
theorem overwrite_take_of_le {buf src : Buf} {p q : Nat} (hq : q ≤ p) (hp : p ≤ buf.length) :
    (overwrite buf p src).take q = buf.take q := by
  rw [overwrite, List.append_assoc, List.take_append_of_le_length (by simp only [List.length_take]; omega),
    List.take_take, min_eq_left hq]

theorem le_overwrite_length {buf src : Buf} {p : Nat} (hp : p ≤ buf.length) :
    buf.length ≤ (overwrite buf p src).length ∧ p + src.length ≤ (overwrite buf p src).length := by
  simp only [overwrite, List.length_append, List.length_take, List.length_drop]
  omega

/-- The candidate the two `memcpy`s build in `ex_tmp`, once `ex_tmp[0..i) = in_buf[0..i)`. -/
theorem insert_candidate {ex e : Buf} {i : Nat} (hi : i ≤ inBuf.length) (hh : ex.take i = inBuf.take i)
    (hl : inBuf.length ≤ ex.length) :
    (overwrite (overwrite ex i e) (i + e.length) ((inBuf.drop i).take (inBuf.length - i))).take
      (inBuf.length + e.length) = inBuf.take i ++ e ++ inBuf.drop i := by
  have hT : (inBuf.drop i).take (inBuf.length - i) = inBuf.drop i :=
    List.take_of_length_le (by simp only [List.length_drop]; omega)
  have hA : (overwrite ex i e).take (i + e.length) = inBuf.take i ++ e := by
    rw [overwrite, List.take_left' (by simp only [List.length_append, List.length_take]; omega), hh]
  rw [overwrite_eq (overwrite ex i e), hA, hT,
    List.take_left' (by simp only [List.length_append, List.length_take, List.length_drop]; omega)]

/-- Before position `i` of `user extras (insert)`: `out_buf = in_buf`, `ex_tmp[0..i) = in_buf[0..i)`,
and `ex_tmp` holds at least `len` bytes. -/
def HeadAt (inBuf : Buf) (i : Nat) (st : DetSt) : Prop :=
  st.outBuf = inBuf ∧ st.exTmp.take i = inBuf.take i ∧ inBuf.length ≤ st.exTmp.length

theorem extrasInsertTry_keeps (cfg : DetCfg) {i : Nat} (hi : i ≤ inBuf.length) {e : Buf} (he : e ∈ cfg.extras)
    (h : HeadAt inBuf i st) :
    Keeps (HeadAt inBuf i) (DetStage.userExtrasInsert.Edit cfg inBuf) st (extrasInsertTry cfg inBuf.length i st e) := by
  obtain ⟨ho, hh, hl⟩ := h
  have h₁ := @le_overwrite_length st.exTmp e i (by omega)
  have h₂ := @le_overwrite_length (overwrite st.exTmp i e) ((st.outBuf.drop i).take (inBuf.length - i))
    (i + e.length) (by omega)
  unfold extrasInsertTry
  split_ifs
  · exact .refl ⟨ho, hh, hl⟩
  · exact .refl ⟨ho, hh, hl⟩
  · refine .one _ ⟨ho, ?_, hl.trans (h₁.1.trans h₂.1)⟩ rfl ⟨i, hi, e, he, ?_⟩
    · dsimp only [DetSt.exec]
      rw [overwrite_take_of_le (by omega) (by omega), overwrite_take_of_le le_rfl (by omega), hh]
    · rw [ho]
      exact insert_candidate hi hh hl

/-- `ex_tmp[i] = out_buf[i]` moves the copied head one byte on. -/
theorem headCopy_keeps {i : Nat} (hi : i < inBuf.length) (h : HeadAt inBuf i st) :
    HeadAt inBuf (i + 1) { st with exTmp := st.exTmp.set i (st.outBuf.getD i 0) } := by
  obtain ⟨ho, hh, hl⟩ := h
  refine ⟨ho, buf_ext (by simp only [List.length_take, List.length_set]; omega) fun k hk => ?_,
    by simp only [List.length_set]; exact hl⟩
  simp only [List.length_take, List.length_set] at hk
  rw [take_getD _ (by omega), take_getD _ (by omega), List.getD_eq_getElem?_getD, List.getElem?_set]
  by_cases hki : i = k
  · rw [if_pos hki, if_pos (by omega), Option.getD_some, ho, hki]
  · rw [if_neg hki, ← List.getD_eq_getElem?_getD, ← take_getD _ (show k < i by omega), hh, take_getD _ (by omega)]

end Extras

/-! ## Every sub-stage gives `out_buf` back -/

section Stages

variable (cfg : DetCfg) (t : Target) {inBuf : Buf} {st : DetSt}

theorem bitflip1_keeps (h : st.outBuf = inBuf) :
    Keeps (·.outBuf = inBuf) (DetStage.flip1.Edit cfg inBuf) st (bitflip1 cfg t inBuf.length st) :=
  (Keeps.foldl _ (fun b hb _ h => (flip1Round_keeps cfg t b h).mono id fun _ hc => ⟨b, List.mem_range.1 hb, hc⟩)
    { st with tok.prevCksum := cfg.execCksum } h).start rfl

theorem bitflip2_keeps (h : st.outBuf = inBuf) :
    Keeps (·.outBuf = inBuf) (DetStage.flip2.Edit cfg inBuf) st (bitflip2 inBuf.length st) :=
  Keeps.foldl _ (fun b hb _ h => (walkingBitRound_keeps 2 b h).mono id fun _ hc => ⟨b, List.mem_range.1 hb, hc⟩)
    st h

theorem bitflip4_keeps (h : st.outBuf = inBuf) :
    Keeps (·.outBuf = inBuf) (DetStage.flip4.Edit cfg inBuf) st (bitflip4 inBuf.length st) :=
  Keeps.foldl _ (fun b hb _ h => (walkingBitRound_keeps 4 b h).mono id fun _ hc => ⟨b, List.mem_range.1 hb, hc⟩)
    st h

/-- The effector-map setup before the loop and the density rule after it leave `out_buf` and the
runs alone. -/
theorem bitflip8_keeps (h : st.outBuf = inBuf) :
    Keeps (·.outBuf = inBuf) (DetStage.flip8.Edit cfg inBuf) st (bitflip8 cfg t inBuf.length st) := by
  have hk : ∀ S : DetSt, S.outBuf = inBuf → Keeps (·.outBuf = inBuf) (DetStage.flip8.Edit cfg inBuf) S
      ((List.range inBuf.length).foldl (flip8Round cfg t inBuf.length) S) := fun S hS =>
    Keeps.foldl _ (fun i hi _ h => (flip8Round_keeps cfg t i h).mono id
      fun _ hc => .inl ⟨i, List.mem_range.1 hi, hc⟩) S hS
  exact ((hk (effMapInit cfg inBuf.length st) (by unfold effMapInit; dsimp only; split <;> exact h)).start
    (by unfold effMapInit; dsimp only; split <;> rfl)).congr
    (fun h' => by unfold bitflip8 effMapDense; dsimp only; split <;> exact h')
    (by unfold bitflip8 effMapDense; dsimp only; split <;> rfl)

theorem rbProbeLoops_keeps (h : st.outBuf = inBuf) :
    Keeps (·.outBuf = inBuf) (DetStage.flip8.Edit cfg inBuf) st (rbProbeLoops cfg t inBuf.length st) := by
  unfold rbProbeLoops
  split
  · have h₁ : Keeps (·.outBuf = inBuf) (DetStage.flip8.Edit cfg inBuf) st _ :=
      Keeps.foldl _ (fun i hi _ h => (rbrem8Round_keeps t (List.mem_range.1 hi) h).mono id
        fun _ hc => .inr (.inl ⟨i, List.mem_range.1 hi, hc⟩)) st h
    exact h₁.trans (Keeps.foldl _ (fun i hi _ h => (rbadd8Round_keeps t i h).mono id
      fun _ hc => .inr (.inr ⟨i, Nat.lt_succ_iff.1 (List.mem_range.1 hi), hc⟩)) _ h₁.inv)
  · exact .refl h

theorem bitflip16_keeps (h : st.outBuf = inBuf) :
    Keeps (·.outBuf = inBuf) (DetStage.flip16.Edit cfg inBuf) st (bitflip16 cfg inBuf.length st) := by
  unfold bitflip16
  split
  · exact .refl h
  · exact Keeps.foldl _ (fun i hi _ h => walkingByteRound_keeps cfg _ (by rw [List.mem_range] at hi; omega) h) st h

theorem bitflip32_keeps (h : st.outBuf = inBuf) :
    Keeps (·.outBuf = inBuf) (DetStage.flip32.Edit cfg inBuf) st (bitflip32 cfg inBuf.length st) := by
  unfold bitflip32
  split
  · exact .refl h
  · exact Keeps.foldl _ (fun i hi _ h => walkingByteRound_keeps cfg _ (by rw [List.mem_range] at hi; omega) h) st h

theorem arith8_keeps (h : st.outBuf = inBuf) :
    Keeps (·.outBuf = inBuf) (DetStage.arith8.Edit cfg inBuf) st (arith8 cfg inBuf.length st) := by
  unfold arith8
  split
  · exact .refl h
  · exact Keeps.foldl _ (fun i hi _ h => arithRound_keeps cfg _ (by rw [List.mem_range] at hi; omega) h) st h

theorem arith16_keeps (h : st.outBuf = inBuf) :
    Keeps (·.outBuf = inBuf) (DetStage.arith16.Edit cfg inBuf) st (arith16 cfg inBuf.length st) := by
  unfold arith16
  split
  · exact .refl h
  · exact Keeps.foldl _ (fun i hi _ h => arithRound_keeps cfg _ (by rw [List.mem_range] at hi; omega) h) st h

theorem arith32_keeps (h : st.outBuf = inBuf) :
    Keeps (·.outBuf = inBuf) (DetStage.arith32.Edit cfg inBuf) st (arith32 cfg inBuf.length st) := by
  unfold arith32
  split
  · exact .refl h
  · exact Keeps.foldl _ (fun i hi _ h => arithRound_keeps cfg _ (by rw [List.mem_range] at hi; omega) h) st h

theorem interest8_keeps (h : st.outBuf = inBuf) :
    Keeps (·.outBuf = inBuf) (DetStage.interest8.Edit cfg inBuf) st (interest8 cfg inBuf.length st) :=
  Keeps.foldl _ (fun i hi _ h => interest8Round_keeps cfg (by rw [List.mem_range] at hi; omega) h) st h

theorem interest16_keeps (h : st.outBuf = inBuf) :
    Keeps (·.outBuf = inBuf) (DetStage.interest16.Edit cfg inBuf) st (interest16 cfg inBuf.length st) := by
  unfold interest16
  split
  · exact .refl h
  · exact Keeps.foldl _ (fun i hi _ h => interestRound_keeps cfg _ _ (by rw [List.mem_range] at hi; omega) h) st h

theorem interest32_keeps (h : st.outBuf = inBuf) :
    Keeps (·.outBuf = inBuf) (DetStage.interest32.Edit cfg inBuf) st (interest32 cfg inBuf.length st) := by
  unfold interest32
  split
  · exact .refl h
  · exact Keeps.foldl _ (fun i hi _ h => interestRound_keeps cfg _ _ (by rw [List.mem_range] at hi; omega) h) st h

theorem userExtrasOver_keeps (hs : cfg.extras.Pairwise fun a b => a.length ≤ b.length) (h : st.outBuf = inBuf) :
    Keeps (·.outBuf = inBuf) (DetStage.userExtrasOver.Edit cfg inBuf) st
      (userExtrasOver cfg inBuf inBuf.length st) := by
  unfold userExtrasOver
  split
  · exact .refl h
  · exact Keeps.foldl _ (fun i hi _ h => extrasOverRound_keeps cfg _ hs (List.mem_range.1 hi).le h) st h

theorem autoExtrasOver_keeps (hs : cfg.aExtras.Pairwise fun a b => a.length ≤ b.length) (h : st.outBuf = inBuf) :
    Keeps (·.outBuf = inBuf) (DetStage.autoExtrasOver.Edit cfg inBuf) st
      (autoExtrasOver cfg inBuf inBuf.length st) := by
  unfold autoExtrasOver
  split
  · exact .refl h
  · exact Keeps.foldl _ (fun i hi _ h => extrasOverRound_keeps cfg _ (hs.sublist (List.take_sublist _ _))
      (List.mem_range.1 hi).le h) st h

/-- `user extras (insert)`: the positions before `len` keep the head copied; the last one only
needs `out_buf`. -/
theorem userExtrasInsert_keeps (h : st.outBuf = inBuf) :
    Keeps (·.outBuf = inBuf) (DetStage.userExtrasInsert.Edit cfg inBuf) st (userExtrasInsert cfg inBuf.length st) := by
  unfold userExtrasInsert
  split
  · exact .refl h
  · let st₀ : DetSt := { st with exTmp := realloc st.exTmp (inBuf.length + cfg.maxDictFile) }
    have h₀ : HeadAt inBuf 0 st₀ := ⟨h, rfl, by simp only [st₀, realloc, List.length_append, List.length_replicate]; omega⟩
    have tries := fun i (hi : i ≤ inBuf.length) (S : DetSt) (hS : HeadAt inBuf i S) =>
      Keeps.foldl cfg.extras (fun e he _ h => extrasInsertTry_keeps cfg hi he h) S hS
    have loop : ∀ n ≤ inBuf.length, Keeps (HeadAt inBuf n) (DetStage.userExtrasInsert.Edit cfg inBuf) st₀
        ((List.range n).foldl (extrasInsertRound cfg inBuf.length) st₀) := by
      intro n
      induction n with
      | zero => exact fun _ => .refl h₀
      | succ n ih =>
        intro hn
        have h₁ := ih (by omega)
        have h₂ := tries n (by omega) _ h₁.inv
        rw [List.range_succ, List.foldl_append, List.foldl_cons, List.foldl_nil]
        exact h₁.trans ⟨headCopy_keeps (by omega) h₂.inv, h₂.runs⟩
    have h₁ := loop _ le_rfl
    have h₂ := tries _ le_rfl _ h₁.inv
    rw [List.range_succ, List.foldl_append, List.foldl_cons, List.foldl_nil]
    have h₃ : Keeps (·.outBuf = inBuf) (DetStage.userExtrasInsert.Edit cfg inBuf) _ _ :=
      h₂.mono (fun h => h.1) fun _ hc => hc
    refine ((h₁.trans h₃).congr ?_ ?_).start ?_
    exacts [id, rfl, rfl]

end Stages

/-- **Every deterministic sub-stage gives `out_buf` back and runs `in_buf` with one edit.** From
`out_buf = in_buf`, with the user and the auto dictionaries sorted by length, each of the fifteen
sub-stages leaves `out_buf = in_buf`, and every buffer it hands to `common_fuzz_stuff` is
`in_buf` with one edit of that stage, whatever the effector map, the mask, the draws and the
target's answers. -/
theorem detStage_keeps_input (cfg : DetCfg) (t : Target) (inBuf : Buf) (stage : DetStage) (st : DetSt)
    (hout : st.outBuf = inBuf) (hextras : cfg.extras.Pairwise fun a b => a.length ≤ b.length)
    (haextras : cfg.aExtras.Pairwise fun a b => a.length ≤ b.length) :
    (stage.run cfg t inBuf inBuf.length st).outBuf = inBuf ∧
      ∃ new, (stage.run cfg t inBuf inBuf.length st).execs = st.execs ++ new ∧
        ∀ c ∈ new, stage.Edit cfg inBuf c := by
  suffices Keeps (·.outBuf = inBuf) (stage.Edit cfg inBuf) st (stage.run cfg t inBuf inBuf.length st) from
    ⟨this.inv, this.runs⟩
  cases stage with
  | flip1 => exact bitflip1_keeps cfg t hout
  | flip8 => exact (bitflip8_keeps cfg t hout).trans (rbProbeLoops_keeps cfg t (bitflip8_keeps cfg t hout).inv)
  | flip2 => exact bitflip2_keeps cfg hout
  | flip4 => exact bitflip4_keeps cfg hout
  | flip16 => exact bitflip16_keeps cfg hout
  | flip32 => exact bitflip32_keeps cfg hout
  | arith8 => exact arith8_keeps cfg hout
  | arith16 => exact arith16_keeps cfg hout
  | arith32 => exact arith32_keeps cfg hout
  | interest8 => exact interest8_keeps cfg hout
  | interest16 => exact interest16_keeps cfg hout
  | interest32 => exact interest32_keeps cfg hout
  | userExtrasOver => exact userExtrasOver_keeps cfg hextras hout
  | userExtrasInsert => exact userExtrasInsert_keeps cfg hout
  | autoExtrasOver => exact autoExtrasOver_keeps cfg haextras hout

/-- `detStage_keeps_input` at `user extras (over)` with the tokens `"a"`, `"bc"` over a 3-byte
input whose effector map is set. -/
theorem detStage_keeps_input_extras :
    let cfg : DetCfg := ⟨35, [], [], [], [[97], [98, 99]], [], 200, 50, 1048576, 128, false, 0, false, 0,
      false, 3, 128, 90, 0, ⟨3, 32⟩⟩
    let t : Target := ⟨fun _ => 0, fun _ => true⟩
    let st : DetSt := ⟨[1, 2, 3], [], [], [1], 1, ⟨0, fun _ => 0, 0⟩, [], Rng.zeros, []⟩
    st.outBuf = [1, 2, 3] ∧ (cfg.extras.Pairwise fun a b => a.length ≤ b.length) ∧
      (cfg.aExtras.Pairwise fun a b => a.length ≤ b.length) ∧
      (DetStage.userExtrasOver.run cfg t [1, 2, 3] ([1, 2, 3] : Buf).length st).outBuf = [1, 2, 3] ∧
      ∃ new, (DetStage.userExtrasOver.run cfg t [1, 2, 3] ([1, 2, 3] : Buf).length st).execs = st.execs ++ new ∧
        ∀ c ∈ new, DetStage.userExtrasOver.Edit cfg [1, 2, 3] c :=
  ⟨rfl, by decide, by decide, detStage_keeps_input _ _ _ _ _ rfl (by decide) (by decide)⟩

end FuzzOne
