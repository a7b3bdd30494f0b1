import FuzzOne.BranchMask
import FuzzOne.HavocCase
/-!
# The havoc stage: the operators, the stacking loop and the restore
(afl-fuzz-one.c:3390-4893)

| here | there |
| --- | --- |
| `HavocCfg`, `HavocEnv` | the `config.h` constants, `afl->extras`, `afl->a_extras`, the queue |
| `HavocSt` | `out_buf`, `temp_len`, `branch_mask`, `mutation_pos`, `mutation_data32`, `mutation_size` |
| `HavocSt.chooseBlockLen` | `choose_block_len` (afl-fuzz-one.c:794-832) |
| `stackLoop` | `for (i = 0; i < use_stacking; ++i)` of every case |
| `flipBit1Body`, `overwriteBody` and its members | cases `0 ... 43` |
| `cloneBytesBody`, `insertSameByteBody` | cases `44 ... 46`, `47` |
| `overwriteWithChunkBody`, `overwriteWithSameByteBody`, `deleteBytesBody` | `48 ... 50`, `51`, `52 ... 59` |
| `extraOverwriteBody`, `extraInsertBody`, `spliceBody` | the `default:` branch |
| `runCase`, `havocApply` | `switch (r)` (afl-fuzz-one.c:3801-4799) |
| `havocRestore` | the restore (afl-fuzz-one.c:4815-4893) |

Buffers hold `out_buf[0..temp_len)` and `branch_mask[0..temp_len]` with whatever lies past
them. The labels of `switch (r)` are those of the `ATOMIZE_CASES` switch, so `havocApply` runs
`runCase` of the case `atomizeCase` decodes; both splice cases run the one loop of the
`default:` branch, which picks the mode anew in each round from `temp_len`. `mutation_pos` and
`mutation_data32` are uninitialised stack arrays: an iteration starts them from arbitrary
contents, and the views `mutation_data8/16/32` all index the saved value by round.

A round returns `none` where the program does not go on: the splice target search runs out of
draws, a position query writes past `position_map`, or a `memmove` runs past its buffer.
`position_map` holds `temp_len + 1` entries: the stage reallocates it so at its start and after
every insertion, and a query writes more only when its bound wraps, and then billions.

Three places break the contracts the stage states:
* `FLIP_BIT1` asks for a byte with `OVERWRITE_SAFE` plus a random `0..7`, and flips the bit of
  that number, which lies in byte `pos / 8`: a byte the mask forbids
  (`havoc_flipBit1_unsafe_byte`);
* for the same reason `FLIP_BIT1` flips stream bits up to the last allowed start plus 7 only, and
  `RAND8` asks for a 32-bit window to write one byte: allowed bits and bytes near the end of the
  input are never chosen (`havoc_misses_safe_targets`);
* the optimized restore puts back `out_buf` and `temp_len` after a size-changing operator, but
  not the mask that operator edited (`havoc_restore_keeps_edited_mask`).
-/
namespace FuzzOne

/-- The constants of the build the havoc stage reads, and `queue_cycle`, `run_over10m`. -/
structure HavocCfg where
  maxFile : Nat
  blkSmall : Nat
  blkMedium : Nat
  blkLarge : Nat
  blkXl : Nat
  arithMax : Nat
  interesting8 : List Int
  interesting16 : List Int
  interesting32 : List Int
  minLenForOptimizedRestore : Nat
  queueCycle : Nat
  runOver10m : Bool

/-- The dictionaries and the queue the operators read. -/
structure HavocEnv where
  extras : List Buf
  aExtras : List Buf
  queue : List Buf
  currentEntry : Nat

/-- `enum MutationByteSize`. -/
inductive MutationByteSize | other | bit1 | byte1 | byte2 | byte4
deriving DecidableEq, Repr

structure HavocSt where
  outBuf : Buf
  tempLen : Nat
  branchMask : Buf
  rng : Rng
  mutationPos : Nat → Nat
  mutationData : Nat → Nat
  mutationSize : MutationByteSize

/-! ## The draws an operator makes -/

def HavocSt.below (s : HavocSt) (n : Nat) : Nat × HavocSt :=
  let (v, g) := s.rng.below n
  (v, { s with rng := g })

theorem HavocSt.below_zero {s : HavocSt} (h : s.rng.Zero) (n : Nat) :
    ∃ g, s.below n = (0, { s with rng := g }) ∧ g.Zero := by
  obtain ⟨g, e, hg⟩ := Rng.below_zero h n
  exact ⟨g, by simp [HavocSt.below, e], hg⟩

/-- `get_random_modifiable_posn(afl, n, t, temp_len, branch_mask, position_map)`. -/
def HavocSt.modPosn (s : HavocSt) (numToModify : Nat) (modType : UInt8) : Option (Nat × HavocSt) :=
  (getRandomModifiablePosn s.rng numToModify modType s.tempLen s.branchMask (s.tempLen + 1)).map
    fun r => (r.1, { s with rng := r.2 })

def HavocSt.insPosn (s : HavocSt) : Nat × HavocSt :=
  let (p, g) := getRandomInsertPosn s.rng s.tempLen s.branchMask
  (p, { s with rng := g })

/-- `choose_block_len(afl, limit)`. -/
def HavocSt.chooseBlockLen (cfg : HavocCfg) (s : HavocSt) (limit : Nat) : Nat × HavocSt :=
  let rlim := if cfg.runOver10m then min cfg.queueCycle 3 else 1
  let (c, s) := s.below rlim
  let (minValue, maxValue, s) :=
    if c = 0 then (1, cfg.blkSmall, s)
    else if c = 1 then (cfg.blkSmall, cfg.blkMedium, s)
    else
      let (t, s) := s.below 10
      if t ≠ 0 then (cfg.blkMedium, cfg.blkLarge, s) else (cfg.blkLarge, cfg.blkXl, s)
  let minValue := if limit ≤ minValue then 1 else minValue
  let (o, s) := s.below (u32 ((min maxValue limit : Nat) - minValue + 1))
  (minValue + o, s)

/-- With zero draws the block is one byte long. -/
theorem HavocSt.chooseBlockLen_zero (cfg : HavocCfg) {s : HavocSt} (h : s.rng.Zero) (limit : Nat) :
    ∃ g, s.chooseBlockLen cfg limit = (1, { s with rng := g }) ∧ g.Zero := by
  obtain ⟨g1, e1, h1⟩ := s.below_zero h (if cfg.runOver10m then min cfg.queueCycle 3 else 1)
  obtain ⟨g2, e2, h2⟩ := HavocSt.below_zero (s := { s with rng := g1 }) h1
    (u32 ((min cfg.blkSmall limit : Nat) - 1 + 1))
  exact ⟨g2, by simp only [HavocSt.chooseBlockLen, e1, if_true, ite_self, Nat.cast_one, e2], h2⟩

/-- The block constants in the order of `config.h` (`HAVOC_BLK_SMALL = 32`,
`HAVOC_BLK_MEDIUM = 128`, `HAVOC_BLK_LARGE = 1500`, `HAVOC_BLK_XL = 32768`,
`MAX_FILE = 1 MB`). The last field keeps the `u32` sum `temp_len + HAVOC_BLK_XL` of the insert
guards from wrapping for `temp_len < MAX_FILE`, so the guards are the plain comparisons. -/
structure HavocCfg.Blocks (cfg : HavocCfg) : Prop where
  small_pos : 1 ≤ cfg.blkSmall
  small_le : cfg.blkSmall ≤ cfg.blkMedium
  medium_le : cfg.blkMedium ≤ cfg.blkLarge
  large_le : cfg.blkLarge ≤ cfg.blkXl
  xl_lt : cfg.blkXl < cfg.maxFile
  maxFile_add_xl_le : cfg.maxFile + cfg.blkXl ≤ 2 ^ 32

instance (cfg : HavocCfg) : Decidable cfg.Blocks :=
  decidable_of_iff (1 ≤ cfg.blkSmall ∧ cfg.blkSmall ≤ cfg.blkMedium ∧ cfg.blkMedium ≤ cfg.blkLarge ∧
      cfg.blkLarge ≤ cfg.blkXl ∧ cfg.blkXl < cfg.maxFile ∧ cfg.maxFile + cfg.blkXl ≤ 2 ^ 32)
    ⟨fun ⟨a, b, c, d, e, f⟩ => ⟨a, b, c, d, e, f⟩, fun ⟨a, b, c, d, e, f⟩ => ⟨a, b, c, d, e, f⟩⟩

theorem HavocCfg.Blocks.xl_pos {cfg : HavocCfg} (hb : cfg.Blocks) : 1 ≤ cfg.blkXl :=
  hb.small_pos.trans (hb.small_le.trans (hb.medium_le.trans hb.large_le))

/-- A draw of `rand_below(afl, n)` is at most `n - 1`, also for `n = 0`. -/
theorem Rng.below_le_pred (g : Rng) (n : Nat) : (g.below n).1 ≤ n - 1 := by
  unfold Rng.below; split
  · exact Nat.zero_le _
  · exact Nat.le_pred_of_lt (Nat.mod_lt _ (by omega))

/-- The last draw of `choose_block_len`, from the class `[lo, hi]`: at least 1, at most `hi`, and
at most `limit` unless `limit` is 0. -/
theorem blockDraw_le (limit : Nat) {lo hi : Nat} (h1 : 1 ≤ lo) (h2 : lo ≤ hi) (h3 : hi < 2 ^ 32) (g : Rng) :
    1 ≤ (if limit ≤ lo then 1 else lo) +
        (g.below (u32 ((min hi limit : Nat) - (if limit ≤ lo then 1 else lo) + 1))).1 ∧
      (if limit ≤ lo then 1 else lo) +
        (g.below (u32 ((min hi limit : Nat) - (if limit ≤ lo then 1 else lo) + 1))).1 ≤
          max (min limit hi) 1 := by
  have ho := g.below_le_pred (u32 ((min hi limit : Nat) - (if limit ≤ lo then 1 else lo) + 1))
  unfold u32 at ho ⊢
  by_cases hl : limit ≤ lo <;> simp only [hl, ↓reduceIte] at ho ⊢ <;> omega

/-- **`choose_block_len` stays in its bounds.** With the block constants ordered, the length is
at least 1 and at most `limit` and `HAVOC_BLK_XL`; for `limit = 0` it is 1. -/
theorem HavocSt.chooseBlockLen_le {cfg : HavocCfg} (hb : cfg.Blocks) (s : HavocSt) (limit : Nat) :
    1 ≤ (s.chooseBlockLen cfg limit).1 ∧ (s.chooseBlockLen cfg limit).1 ≤ max (min limit cfg.blkXl) 1 := by
  have := hb.small_pos; have := hb.small_le; have := hb.medium_le; have := hb.large_le
  unfold HavocSt.chooseBlockLen
  dsimp only
  generalize hm : (if _ = 0 then _ else _ : Nat × Nat × HavocSt) = m
  obtain ⟨lo, hi, t⟩ := m
  -- every class `[lo, hi]` lies in `[1, HAVOC_BLK_XL]`
  have hc : 1 ≤ lo ∧ lo ≤ hi ∧ hi ≤ cfg.blkXl := by
    split_ifs at hm <;> cases hm <;> omega
  have hd := blockDraw_le limit hc.1 hc.2.1 (by have := hb.maxFile_add_xl_le; have := hb.xl_lt; omega) t.rng
  exact ⟨hd.1, hd.2.trans (by omega)⟩

/-- The byte of `INSERT_SAME_BYTE` and `OVERWRITE_WITH_SAME_BYTE`:
`rand_below(afl, 2) ? rand_below(afl, 256) : out_buf[rand_below(afl, temp_len)]`. -/
def HavocSt.randomByte (s : HavocSt) : UInt8 × HavocSt :=
  let (c, s) := s.below 2
  if c ≠ 0 then let (v, s) := s.below 256; (v.toUInt8, s)
  else let (k, s) := s.below s.tempLen; (s.outBuf.getD k 0, s)

/-- The mask after `n` bytes are inserted at `pos`: a fresh `alloc_branch_mask(temp_len + n + 1)`
with the old head and the old tail `branch_mask[pos..temp_len]` copied around the new part. -/
def insertMask (mask : Buf) (tempLen pos n : Nat) : Buf :=
  overwrite (overwrite (allocBranchMask (tempLen + n + 1)) 0 (mask.take pos)) (pos + n)
    ((mask.drop pos).take (tempLen - pos + 1))

/-- Insert `ins` at `pos`: head, `ins`, the tail up to `temp_len`; the mask rebuilt. -/
def HavocSt.insert (s : HavocSt) (pos : Nat) (ins : Buf) : HavocSt :=
  { s with outBuf := s.outBuf.take pos ++ ins ++ (s.outBuf.drop pos).take (s.tempLen - pos),
           branchMask := insertMask s.branchMask s.tempLen pos ins.length,
           tempLen := s.tempLen + ins.length }

/-! ## The operators -/

/-- The `for (i = 0; i < use_stacking; ++i)` loop: a body returns whether to go on, or `none`. -/
def stackLoop (body : Nat → HavocSt → Option (HavocSt × Bool)) : Nat → Nat → HavocSt → Option HavocSt
  | 0, _, s => some s
  | n + 1, i, s =>
    match body i s with
    | none => none
    | some (s, true) => stackLoop body n (i + 1) s
    | some (s, false) => some s

/-- `FLIP_BIT1` (case `0 ... 3`): a 1-bit query, and `FLIP_BIT(out_buf, pos)`. -/
def flipBit1Body (i : Nat) (s : HavocSt) : Option (HavocSt × Bool) :=
  match s.modPosn 1 overwriteSafe with
  | none => none
  | some (pos, s) =>
    if pos = 0xffffffff then some (s, false)
    else some ({ s with mutationPos := Function.update s.mutationPos i pos,
                        outBuf := flipBit s.outBuf pos }, true)

/-- The body of the fixed-width overwrites: query `numToModify` bits, save the `w` bytes at the
position, and store `newVal` of them there. -/
def overwriteBody (numToModify w : Nat) (newVal : Nat → HavocSt → Nat × HavocSt) (i : Nat)
    (s : HavocSt) : Option (HavocSt × Bool) :=
  match s.modPosn numToModify overwriteSafe with
  | none => none
  | some (pos, s) =>
    if pos = 0xffffffff then some (s, false)
    else
      let old := loadLE s.outBuf pos w
      let s := { s with mutationPos := Function.update s.mutationPos i pos,
                        mutationData := Function.update s.mutationData i old }
      let (v, s) := newVal old s
      some ({ s with outBuf := storeLE s.outBuf pos w v }, true)

/-- A value of an interesting table. -/
def interestingVal (tbl : List Int) (w : Nat) (s : HavocSt) : Nat × HavocSt :=
  let (k, s) := s.below tbl.length
  (uN w (tbl.getD k 0), s)

/-- `1 + rand_below(afl, ARITH_MAX)` as a `w`-byte number. -/
def arithNum (cfg : HavocCfg) (w : Nat) (s : HavocSt) : Nat × HavocSt :=
  let (k, s) := s.below cfg.arithMax
  (uN w (1 + k), s)

def interesting8Body (cfg : HavocCfg) := overwriteBody 8 1 fun _ => interestingVal cfg.interesting8 1
def interesting16Body (cfg : HavocCfg) :=
  overwriteBody 16 2 fun _ => interestingVal cfg.interesting16 2
def interesting16BeBody (cfg : HavocCfg) := overwriteBody 16 2 fun _ s =>
  let (v, s) := interestingVal cfg.interesting16 2 s; (swapLE 2 v, s)
def interesting32Body (cfg : HavocCfg) :=
  overwriteBody 32 4 fun _ => interestingVal cfg.interesting32 4
def interesting32BeBody (cfg : HavocCfg) := overwriteBody 32 4 fun _ s =>
  let (v, s) := interestingVal cfg.interesting32 4 s; (swapLE 4 v, s)

/-- `ARITH8/16/32` with `+` or `-` (`sub`), little-endian: `*(uN *)(out_buf + pos) -= num`. -/
def arithBody (cfg : HavocCfg) (w : Nat) (sub : Bool) := overwriteBody (8 * w) w fun old s =>
  let (num, s) := arithNum cfg w s
  (uN w (if sub then (old : Int) - num else old + num), s)

/-- The big-endian ones: `SWAP(SWAP(*(uN *)(out_buf + pos)) - num)`. -/
def arithBeBody (cfg : HavocCfg) (w : Nat) (sub : Bool) := overwriteBody (8 * w) w fun old s =>
  let (num, s) := arithNum cfg w s
  let v := swapLE w old
  (swapLE w (uN w (if sub then (v : Int) - num else v + num)), s)

/-- `RAND8` (case `40 ... 43`): a 32-bit query for a 1-byte write, `out_buf[pos] ^= 1 + r`. -/
def rand8Body := overwriteBody 32 1 fun old s =>
  let (k, s) := s.below 255
  ((old ^^^ (1 + k)) % 256, s)

def cloneBytesBody (cfg : HavocCfg) (_ : Nat) (s : HavocSt) : Option (HavocSt × Bool) :=
  if s.tempLen + cfg.blkXl < cfg.maxFile then
    let (cloneLen, s) := s.chooseBlockLen cfg s.tempLen
    let (cloneFrom, s) := s.below (u32 ((s.tempLen : Int) - cloneLen + 1))
    let (cloneTo, s) := s.insPosn
    if cloneTo = 0xffffffff then some (s, false)
    else some (s.insert cloneTo ((s.outBuf.drop cloneFrom).take cloneLen), true)
  else some (s, false)

def insertSameByteBody (cfg : HavocCfg) (_ : Nat) (s : HavocSt) : Option (HavocSt × Bool) :=
  if s.tempLen + cfg.blkXl < cfg.maxFile then
    let (cloneLen, s) := s.chooseBlockLen cfg cfg.blkXl
    let (cloneTo, s) := s.insPosn
    if cloneTo = 0xffffffff then some (s, false)
    else
      let (v, s) := s.randomByte
      some (s.insert cloneTo (List.replicate cloneLen v), true)
  else some (s, false)

def overwriteWithChunkBody (cfg : HavocCfg) (_ : Nat) (s : HavocSt) : Option (HavocSt × Bool) :=
  let (copyLen, s) := s.chooseBlockLen cfg (s.tempLen - 1)
  let (copyFrom, s) := s.below (u32 ((s.tempLen : Int) - copyLen + 1))
  match s.modPosn (u32 (copyLen * 8)) overwriteSafe with
  | none => none
  | some (copyTo, s) =>
    if copyTo = 0xffffffff then some (s, false)
    else if copyFrom ≠ copyTo then
      (memmove? s.outBuf copyTo copyFrom copyLen).map fun outBuf => ({ s with outBuf }, true)
    else some (s, true)

def overwriteWithSameByteBody (cfg : HavocCfg) (_ : Nat) (s : HavocSt) :
    Option (HavocSt × Bool) :=
  let (copyLen, s) := s.chooseBlockLen cfg (s.tempLen - 1)
  match s.modPosn (u32 (copyLen * 8)) overwriteSafe with
  | none => none
  | some (copyTo, s) =>
    if copyTo = 0xffffffff then some (s, false)
    else
      let (v, s) := s.randomByte
      some ({ s with outBuf := overwrite s.outBuf copyTo (List.replicate copyLen v) }, true)

def deleteBytesBody (cfg : HavocCfg) (_ : Nat) (s : HavocSt) : Option (HavocSt × Bool) :=
  if s.tempLen < 2 then some (s, false)
  else
    let (delLen, s) := s.chooseBlockLen cfg (s.tempLen - 1)
    match s.modPosn (u32 (delLen * 8)) deleteSafe with
    | none => none
    | some (delFrom, s) =>
      if delFrom = 0xffffffff then some (s, false)
      else
        let n : Int := s.tempLen - delFrom - delLen
        match memmove? s.outBuf delFrom (delFrom + delLen) (u32 n),
            memmove? s.branchMask delFrom (delFrom + delLen) (u32 (n + 1)) with
        | some outBuf, some branchMask =>
          some ({ s with outBuf, branchMask, tempLen := s.tempLen - delLen }, true)
        | _, _ => none

/-- `OVERWRITE_WITH_EXTRA` and `OVERWRITE_WITH_AEXTRA` over the dictionary `es`. -/
def extraOverwriteBody (es : List Buf) (_ : Nat) (s : HavocSt) : Option (HavocSt × Bool) :=
  let (k, s) := s.below es.length
  let e := es.getD k []
  if s.tempLen < e.length then some (s, false)
  else
    match s.modPosn (u32 (e.length * 8)) overwriteSafe with
    | none => none
    | some (pos, s) =>
      if pos = 0xffffffff then some (s, false)
      else some ({ s with outBuf := overwrite s.outBuf pos e }, true)

/-- `INSERT_EXTRA` and `INSERT_AEXTRA` over the dictionary `es`. -/
def extraInsertBody (cfg : HavocCfg) (es : List Buf) (_ : Nat) (s : HavocSt) :
    Option (HavocSt × Bool) :=
  let (k, s) := s.below es.length
  let e := es.getD k []
  if cfg.maxFile ≤ s.tempLen + e.length then some (s, false)
  else
    let (pos, s) := s.insPosn
    if pos = 0xffffffff then some (s, false) else some (s.insert pos e, true)

/-- The `do ... while` that picks the splice target: draws until the entry is not the current one
and has at least 4 bytes; `none` when `fuel` draws do not find one. -/
def pickSpliceTarget (env : HavocEnv) : Nat → HavocSt → Option (Nat × HavocSt)
  | 0, _ => none
  | fuel + 1, s =>
    let (tid, s) := s.below env.queue.length
    if tid = env.currentEntry ∨ (env.queue.getD tid []).length < 4 then pickSpliceTarget env fuel s
    else some (tid, s)

/-- A round of the splice loop; `r` is what is left of `r` after the dictionary branches. -/
def spliceBody (cfg : HavocCfg) (env : HavocEnv) (fuel r : Nat) (_ : Nat) (s : HavocSt) :
    Option (HavocSt × Bool) :=
  match pickSpliceTarget env fuel s with
  | none => none
  | some (tid, s) =>
    let newBuf := env.queue.getD tid []
    let newLen := newBuf.length
    if (2 ≤ s.tempLen ∧ r % 2 = 1) ∨ cfg.maxFile ≤ s.tempLen + cfg.blkXl then
      let (copyLen, s) := s.chooseBlockLen cfg (u32 ((newLen : Int) - 1))
      let copyLen := if s.tempLen < copyLen then s.tempLen else copyLen
      let (copyFrom, s) := s.below (u32 ((newLen : Int) - copyLen + 1))
      match s.modPosn (u32 (copyLen * 8)) overwriteSafe with
      | none => none
      | some (copyTo, s) =>
        if copyTo = 0xffffffff then some (s, false)
        else some ({ s with outBuf := overwrite s.outBuf copyTo ((newBuf.drop copyFrom).take copyLen) },
          true)
    else
      let (cloneLen, s) := s.chooseBlockLen cfg newLen
      let (cloneFrom, s) := s.below (u32 ((newLen : Int) - cloneLen + 1))
      let (cloneTo, s) := s.insPosn
      if cloneTo = 0xffffffff then some (s, false)
      else some (s.insert cloneTo ((newBuf.drop cloneFrom).take cloneLen), true)

/-- `r` as the splice loop reads it, after `r -= MAX_HAVOC_ENTRY + 1` and the dictionaries'
`r -= 4`. -/
def spliceR (extrasCnt aExtrasCnt r : Nat) : Nat :=
  let r := r - (maxHavocEntry + 1)
  let r := if extrasCnt != 0 then r - 4 else r
  if aExtrasCnt != 0 then r - 4 else r

/-- The fixed-width operators keep `mutation_size` set before their length guard. -/
def guarded (minLen : Nat) (size : MutationByteSize) (body : Nat → HavocSt → Option (HavocSt × Bool))
    (useStacking : Nat) (s : HavocSt) : Option HavocSt :=
  let s := { s with mutationSize := size }
  if s.tempLen < minLen then some s else stackLoop body useStacking 0 s

/-- The case of `switch (r)` that runs the operator `c`, with `use_stacking` rounds; `rs` is `r`
as the splice loop reads it. -/
def runCase (cfg : HavocCfg) (env : HavocEnv) (fuel rs useStacking : Nat) (s : HavocSt) :
    HavocCase → Option HavocSt
  | .flipBit1 => guarded 0 .bit1 flipBit1Body useStacking s
  | .interesting8 => guarded 0 .byte1 (interesting8Body cfg) useStacking s
  | .interesting16 => guarded 2 .byte2 (interesting16Body cfg) useStacking s
  | .interesting16Be => guarded 2 .byte2 (interesting16BeBody cfg) useStacking s
  | .interesting32 => guarded 4 .byte4 (interesting32Body cfg) useStacking s
  | .interesting32Be => guarded 4 .byte4 (interesting32BeBody cfg) useStacking s
  | .arith8Minus => guarded 0 .byte1 (arithBody cfg 1 true) useStacking s
  | .arith8Plus => guarded 0 .byte1 (arithBody cfg 1 false) useStacking s
  | .arith16Minus => guarded 2 .byte2 (arithBody cfg 2 true) useStacking s
  | .arith16BeMinus => guarded 2 .byte2 (arithBeBody cfg 2 true) useStacking s
  | .arith16Plus => guarded 2 .byte2 (arithBody cfg 2 false) useStacking s
  | .arith16BePlus => guarded 2 .byte2 (arithBeBody cfg 2 false) useStacking s
  | .arith32Minus => guarded 4 .byte4 (arithBody cfg 4 true) useStacking s
  | .arith32BeMinus => guarded 4 .byte4 (arithBeBody cfg 4 true) useStacking s
  | .arith32Plus => guarded 4 .byte4 (arithBody cfg 4 false) useStacking s
  | .arith32BePlus => guarded 4 .byte4 (arithBeBody cfg 4 false) useStacking s
  | .rand8 => guarded 0 .byte1 rand8Body useStacking s
  | .cloneBytes => stackLoop (cloneBytesBody cfg) useStacking 0 s
  | .insertSameByte => stackLoop (insertSameByteBody cfg) useStacking 0 s
  | .overwriteWithChunk => guarded 2 .other (overwriteWithChunkBody cfg) useStacking s
  | .overwriteWithSameByte => guarded 2 .other (overwriteWithSameByteBody cfg) useStacking s
  | .deleteBytes => stackLoop (deleteBytesBody cfg) useStacking 0 s
  | .overwriteWithExtra => stackLoop (extraOverwriteBody env.extras) useStacking 0 s
  | .insertExtra => stackLoop (extraInsertBody cfg env.extras) useStacking 0 s
  | .overwriteWithAextra => stackLoop (extraOverwriteBody env.aExtras) useStacking 0 s
  | .insertAextra => stackLoop (extraInsertBody cfg env.aExtras) useStacking 0 s
  | .spliceOverwrite | .spliceInsert => stackLoop (spliceBody cfg env fuel rs) useStacking 0 s

/-- `switch (r)` with `use_stacking` rounds. -/
def havocApply (cfg : HavocCfg) (env : HavocEnv) (fuel r useStacking : Nat) (s : HavocSt) :
    Option HavocSt :=
  let s := { s with mutationSize := .other }
  runCase cfg env fuel (spliceR env.extras.length env.aExtras.length r) useStacking s
    (atomizeCase env.extras.length env.aExtras.length s.tempLen cfg.maxFile cfg.blkXl r)

/-! ## The restore -/

/-- `for (j = use_stacking - 1; j >= 0; j--)`: the rounds' records, last first. -/
def replayOrder (useStacking : Nat) : List Nat := (List.range useStacking).reverse

/-- The restore after the execution, for an input `in_buf` of `len` bytes. -/
def havocRestore (cfg : HavocCfg) (inBuf origBranchMask : Buf) (useStacking : Nat)
    (s : HavocSt) : HavocSt :=
  let len := inBuf.length
  let replay (w : Nat) := (replayOrder useStacking).foldl
    (fun out j => storeLE out (s.mutationPos j) w (s.mutationData j)) s.outBuf
  let flips := (replayOrder useStacking).foldl (fun out j => flipBit out (s.mutationPos j)) s.outBuf
  if cfg.minLenForOptimizedRestore ≤ len then
    match s.mutationSize with
    | .bit1 => { s with outBuf := flips }
    | .byte1 => { s with outBuf := replay 1 }
    | .byte2 => if s.tempLen < 2 then s else { s with outBuf := replay 2 }
    | .byte4 => if s.tempLen < 4 then s else { s with outBuf := replay 4 }
    | .other => { s with outBuf := inBuf, tempLen := len }
  else { s with outBuf := inBuf, tempLen := len, branchMask := origBranchMask.take (len + 1) }

/-- A havoc iteration that is not abandoned, from its `r` and `use_stacking`: the operator, then
the restore. `pos₀` and `data₀` are the stack contents the mutation arrays start with. -/
def havocIteration (cfg : HavocCfg) (env : HavocEnv) (fuel : Nat) (inBuf origBranchMask : Buf)
    (pos₀ data₀ : Nat → Nat) (r useStacking : Nat) (s : HavocSt) : Option HavocSt :=
  (havocApply cfg env fuel r useStacking { s with mutationPos := pos₀, mutationData := data₀ }).map
    (havocRestore cfg inBuf origBranchMask useStacking)

/-- The iterations of `for (stage_cur = 0; ...)` that are not abandoned, one after another. -/
def havocIterations (cfg : HavocCfg) (env : HavocEnv) (fuel : Nat) (inBuf origBranchMask : Buf) :
    List ((Nat → Nat) × (Nat → Nat) × Nat × Nat) → HavocSt → Option HavocSt
  | [], s => some s
  | (pos₀, data₀, r, useStacking) :: its, s =>
    (havocIteration cfg env fuel inBuf origBranchMask pos₀ data₀ r useStacking s).bind
      (havocIterations cfg env fuel inBuf origBranchMask its)

/-! ## What one round can touch -/

/-- A position query fails when its entries do not fit in `position_map`, and otherwise draws
`0xffffffff` or a listed start (plus an offset below 8 for fewer than 8 bits). -/
theorem HavocSt.modPosn_spec (s : HavocSt) (n : Nat) (t : UInt8) :
    s.modPosn n t = none ∧ s.tempLen + 1 < (modifiablePositions n t s.tempLen s.branchMask).length ∨
      ∃ pos g, s.modPosn n t = some (pos, { s with rng := g }) ∧
        (modifiablePositions n t s.tempLen s.branchMask).length ≤ s.tempLen + 1 ∧
        (pos = 0xffffffff ∧ modifiablePositions n t s.tempLen s.branchMask = [] ∨
          ∃ p ∈ modifiablePositions n t s.tempLen s.branchMask, ∃ o < 8, pos = p + o ∧ (8 ≤ n → o = 0)) := by
  unfold HavocSt.modPosn
  rcases getRandomModifiablePosn_spec s.rng n t s.tempLen s.branchMask (s.tempLen + 1) with
    ⟨h, hl⟩ | ⟨pos, g, h, hl, hq⟩
  · exact .inl ⟨by rw [h]; rfl, hl⟩
  · exact .inr ⟨pos, g, by rw [h]; rfl, hl, hq⟩

/-- A body that always returns and keeps `P` returns after any number of rounds, with `P`. -/
theorem stackLoop_spec {body : Nat → HavocSt → Option (HavocSt × Bool)} (P : HavocSt → Prop)
    (hstep : ∀ i s, P s → ∃ s' b, body i s = some (s', b) ∧ P s') :
    ∀ (n i : Nat) (s : HavocSt), P s → ∃ s', stackLoop body n i s = some s' ∧ P s'
  | 0, _, s, h => ⟨s, rfl, h⟩
  | n + 1, i, s, h => by
    obtain ⟨s', b, e, h'⟩ := hstep i s h
    cases b
    · exact ⟨s', by simp [stackLoop, e], h'⟩
    · simpa [stackLoop, e] using stackLoop_spec P hstep n (i + 1) s' h'

/-- A round of a fixed-width overwrite whose query fits, when the value's draws touch only the
random source: `w` bytes stored at a listed start (plus the sub-byte offset), or nothing. -/
theorem overwriteBody_spec (n w : Nat) (newVal : Nat → HavocSt → Nat × HavocSt)
    (hv : ∀ old s, (newVal old s).2.outBuf = s.outBuf ∧ (newVal old s).2.tempLen = s.tempLen ∧
      (newVal old s).2.branchMask = s.branchMask) (i : Nat) (s : HavocSt)
    (hfit : (modifiablePositions n overwriteSafe s.tempLen s.branchMask).length ≤ s.tempLen + 1) :
    ∃ s' b, overwriteBody n w newVal i s = some (s', b) ∧ s'.tempLen = s.tempLen ∧
      s'.branchMask = s.branchMask ∧ (s'.outBuf = s.outBuf ∨
        ∃ p ∈ modifiablePositions n overwriteSafe s.tempLen s.branchMask, ∃ o < 8, (8 ≤ n → o = 0) ∧
          ∃ v, s'.outBuf = storeLE s.outBuf (p + o) w v) := by
  rcases s.modPosn_spec n overwriteSafe with ⟨-, hl⟩ | ⟨pos, g, e, -, hq⟩
  · omega
  unfold overwriteBody
  rw [e]
  dsimp only
  split
  · exact ⟨_, _, rfl, rfl, rfl, .inl rfl⟩
  · rename_i hne
    obtain ⟨p, hmem, o, ho, rfl, h8⟩ := hq.resolve_left fun h => hne h.1
    obtain ⟨hv1, hv2, hv3⟩ := hv (loadLE s.outBuf (p + o) w)
      { s with rng := g, mutationPos := Function.update s.mutationPos i (p + o),
               mutationData := Function.update s.mutationData i (loadLE s.outBuf (p + o) w) }
    exact ⟨_, _, rfl, hv2, hv3, .inr ⟨p, hmem, o, ho, h8, _, by rw [hv1]⟩⟩

/-! ## `FLIP_BIT1` flips a forbidden byte -/

/-- **`FLIP_BIT1` writes outside its mask.** A 2-byte input whose mask (built by the
deterministic stage for a target-branch oracle) allows only byte 1: the 1-bit query returns
`1 + 0`, and `FLIP_BIT(out_buf, 1)` flips bit 6 of byte 0, which has no `OVERWRITE_SAFE`. -/
theorem havoc_flipBit1_unsafe_byte (cfg : HavocCfg) (env : HavocEnv) (fuel : Nat)
    (pos₀ data₀ : Nat → Nat) :
    let mask := buildBranchMask (fun b => b == [0, 255] || b == [0, 0, 3]) [0, 0]
      (fun i => i.toUInt8 + 1)
    mask = [0, 1, 4] ∧
      (havocApply cfg env fuel 0 1 ⟨[0, 0], 2, mask, Rng.zeros, pos₀, data₀, .other⟩).map
        (·.outBuf) = some [64, 0] ∧
      mask.getD 0 0 &&& overwriteSafe = 0 := by
  intro mask
  have hm : mask = [0, 1, 4] := by decide
  have h1 : (1 : UInt8) &&& 1 = 1 := by decide
  have h0 : (0 : UInt8) &&& 1 = 0 := by decide
  have hf : flipBit [0, 0] 1 = [64, 0] := by decide
  refine ⟨hm, ?_, by rw [hm]; decide⟩
  rw [hm]
  simp [havocApply, runCase, atomizeCase, guarded, stackLoop, flipBit1Body, HavocSt.modPosn,
    getRandomModifiablePosn, modifiablePositions, posnScan, Rng.below, Rng.zeros, u32,
    overwriteSafe, h1, h0, hf]

/-! ## Allowed targets the queries never reach -/

/-- One `FLIP_BIT1` round on a 2-byte input under the permissive mask never touches bit `64` of
byte 1: the 1-bit query returns a start `0` or `1` plus at most `7`, so `FLIP_BIT` reaches byte 1
only at bit number 8, its `128`. -/
theorem flipBit1Body_keeps_bit (c : UInt8) (i : Nat) (s : HavocSt)
    (h : s.tempLen = 2 ∧ s.branchMask = allocBranchMask 3 ∧ s.outBuf.getD 1 0 &&& 64 = c) :
    ∃ s' b, flipBit1Body i s = some (s', b) ∧
      (s'.tempLen = 2 ∧ s'.branchMask = allocBranchMask 3 ∧ s'.outBuf.getD 1 0 &&& 64 = c) := by
  obtain ⟨hl, hm, hc⟩ := h
  have hpm : modifiablePositions 1 overwriteSafe s.tempLen s.branchMask = [0, 1] := by
    rw [hl, hm]; decide
  rcases s.modPosn_spec 1 overwriteSafe with ⟨-, hfit⟩ | ⟨pos, g, e, -, hq⟩
  · rw [hpm, hl] at hfit; exact absurd hfit (by decide)
  rw [hpm] at hq
  unfold flipBit1Body
  rw [e]
  dsimp only
  split
  · exact ⟨_, _, rfl, hl, hm, hc⟩
  · rename_i hne
    refine ⟨_, _, rfl, hl, hm, ?_⟩
    have h8 : pos ≤ 8 := by
      rcases hq with ⟨h, -⟩ | ⟨p, hmem, o, ho, rfl, -⟩
      · exact absurd h hne
      · simp only [List.mem_cons, List.mem_singleton, List.not_mem_nil, or_false] at hmem; omega
    dsimp only
    rw [flipBit_getD]
    split
    · obtain rfl : pos = 8 := by omega
      rw [← hc]
      generalize s.outBuf.getD 1 0 = x
      cases x with | mk v => revert v; decide
    · exact hc

/-- One `RAND8` round on a 4-byte input under the permissive mask writes byte 0 only: its 32-bit
query lists the one 4-byte window, at 0. -/
theorem rand8Body_keeps_tail (d : Buf) (i : Nat) (s : HavocSt)
    (h : s.tempLen = 4 ∧ s.branchMask = allocBranchMask 5 ∧ s.outBuf.drop 1 = d) :
    ∃ s' b, rand8Body i s = some (s', b) ∧
      (s'.tempLen = 4 ∧ s'.branchMask = allocBranchMask 5 ∧ s'.outBuf.drop 1 = d) := by
  obtain ⟨hl, hm, hd⟩ := h
  refine Exists.imp (fun s' => Exists.imp fun b ⟨e, hl', hm', hout⟩ => ⟨e, hl' ▸ hl, hm' ▸ hm, ?_⟩)
    (overwriteBody_spec 32 1 _ (fun old s => ?_) i s (by rw [hl, hm]; decide))
  · -- the value's draw changes the random source only
    rcases hb : s.below 255 with ⟨k, s1⟩
    obtain rfl : s1 = _ := (congrArg Prod.snd hb).symm
    exact ⟨rfl, rfl, rfl⟩
  · rw [hl, hm, show modifiablePositions 32 overwriteSafe 4 (allocBranchMask 5) = [0] by decide] at hout
    rcases hout with hout | ⟨p, hp, o, -, ho, v, hout⟩
    · rw [hout, hd]
    · obtain rfl : p = 0 := List.mem_singleton.1 hp
      rw [hout, ho (by decide), storeLE_zero_drop, hd]

/-- **Allowed targets that no draw reaches.** Under the permissive mask of `alloc_branch_mask`,
for every draw sequence and every stacking count: `FLIP_BIT1` (`r = 0`) on a 2-byte input leaves
bit `64` of byte 1 as it was, and `RAND8` (`r = 40`) on a 4-byte input leaves bytes 1-3 as they
were, although every one of those bytes has `OVERWRITE_SAFE`. -/
theorem havoc_misses_safe_targets (cfg : HavocCfg) (env : HavocEnv) (fuel useStacking : Nat)
    (g : Rng) (pos₀ data₀ : Nat → Nat) (sz : MutationByteSize) (b0 b1 b2 b3 : UInt8) :
    (∃ s, havocApply cfg env fuel 0 useStacking ⟨[b0, b1], 2, allocBranchMask 3, g, pos₀, data₀, sz⟩
        = some s ∧ s.outBuf.getD 1 0 &&& 64 = b1 &&& 64) ∧
      (∃ s, havocApply cfg env fuel 40 useStacking
          ⟨[b0, b1, b2, b3], 4, allocBranchMask 5, g, pos₀, data₀, sz⟩ = some s ∧
        s.outBuf.drop 1 = [b1, b2, b3]) := by
  constructor
  · obtain ⟨s, e, -, -, h⟩ := stackLoop_spec _ (flipBit1Body_keeps_bit (b1 &&& 64)) useStacking 0
      ⟨[b0, b1], 2, allocBranchMask 3, g, pos₀, data₀, .bit1⟩ ⟨rfl, rfl, rfl⟩
    exact ⟨s, by simpa [havocApply, runCase, atomizeCase, guarded] using e, h⟩
  · obtain ⟨s, e, -, -, h⟩ := stackLoop_spec _ (rand8Body_keeps_tail [b1, b2, b3]) useStacking 0
      ⟨[b0, b1, b2, b3], 4, allocBranchMask 5, g, pos₀, data₀, .byte1⟩ ⟨rfl, rfl, rfl⟩
    exact ⟨s, by simpa [havocApply, runCase, atomizeCase, guarded] using e, h⟩

/-! ## The optimized restore keeps an edited mask -/

theorem atomizeCase_deleteBytes (extrasCnt aExtrasCnt tempLen maxFile blkXl : Nat) :
    atomizeCase extrasCnt aExtrasCnt tempLen maxFile blkXl 52 = .deleteBytes := by
  simp [atomizeCase, maxHavocEntry]

/-- **The optimized restore leaves the mask a deletion edited.** For every value of
`MIN_LEN_FOR_OPTIMIZED_RESTORE`, an input of `len = max(MIN_LEN, 2)` bytes under the mask of
`alloc_branch_mask`: `DELETE_BYTES` shifts the mask left by one byte, and the restore (the
optimized path, `mutation_size = OTHER`) puts back `out_buf` and `temp_len` but leaves
`branch_mask[len - 1] = 4` where `orig_branch_mask` has `7`. -/
theorem havoc_restore_keeps_edited_mask (cfg : HavocCfg) (env : HavocEnv) (fuel : Nat)
    (pos₀ data₀ : Nat → Nat) (hmin : cfg.minLenForOptimizedRestore < 2 ^ 32) :
    let len := max cfg.minLenForOptimizedRestore 2
    let inBuf : Buf := List.replicate len 0
    let mask := allocBranchMask (len + 1)
    ∃ s, havocIteration cfg env fuel inBuf mask pos₀ data₀ 52 1
        ⟨inBuf, len, mask, Rng.zeros, pos₀, data₀, .other⟩ = some s ∧
      s.tempLen = len ∧ s.outBuf = inBuf ∧ s.branchMask.take (len + 1) ≠ mask := by
  intro len inBuf mask
  have h2 : 2 ≤ len := le_max_right _ _
  have h32 : len < 2 ^ 32 := max_lt hmin (by norm_num)
  obtain ⟨m, hm⟩ : ∃ m, len = m + 2 := ⟨len - 2, by omega⟩
  -- the one round of `DELETE_BYTES`: `del_len = 1`, `del_from = 0`
  obtain ⟨g1, e1, hg1⟩ := HavocSt.chooseBlockLen_zero cfg
    (s := ⟨inBuf, len, mask, Rng.zeros, pos₀, data₀, .other⟩) rfl (len - 1)
  obtain ⟨g2, e2, hg2⟩ := getRandomModifiablePosn_alloc_zero hg1 deleteSafe (by decide) h2 h32
  have hu : u32 ((len : Int) - (0 : Nat) - (1 : Nat) + 1) = len := by
    rw [u32, show (len : Int) - (0 : Nat) - (1 : Nat) + 1 = len by push_cast; omega,
      Int.emod_eq_of_lt (by omega) (by omega)]
    simp
  have hu' : u32 ((len : Int) - (0 : Nat) - (1 : Nat)) = len - 1 := by
    rw [u32, show (len : Int) - (0 : Nat) - (1 : Nat) = ((len - 1 : Nat) : Int) by push_cast; omega,
      Int.emod_eq_of_lt (by omega) (by omega)]
    simp
  simp only [havocIteration, havocApply, atomizeCase_deleteBytes, runCase]
  unfold stackLoop deleteBytesBody
  rw [if_neg (show ¬ len < 2 by omega)]
  dsimp only
  rw [e1]
  dsimp only [HavocSt.modPosn]
  rw [show u32 ((1 : Nat) * 8) = 8 by decide, e2]
  dsimp only [Option.map_some']
  rw [if_neg (by decide), hu, hu', memmove?, if_pos (by simp [inBuf]; omega), memmove?,
    if_pos (by simp [mask, allocBranchMask]; omega)]
  simp only [stackLoop, Option.map_some']
  refine ⟨_, rfl, ?_⟩
  -- the restore: `OTHER` on the optimized path
  simp only [havocRestore, inBuf, List.length_replicate, if_pos (le_max_left _ _)]
  refine ⟨trivial, trivial, ?_⟩
  have hmm : (memmove mask 0 (0 + 1) len).take (len + 1) = List.replicate (m + 1) 7 ++ [4, 4] := by
    simp [mask, hm, memmove, allocBranchMask, List.take_of_length_le]
  have hmask : mask = List.replicate (m + 1) 7 ++ [7, 4] := by
    simp [mask, hm, allocBranchMask, List.replicate_succ']
  rw [hmm, hmask]
  simp

/-- `havoc_restore_keeps_edited_mask` at `MIN_LEN_FOR_OPTIMIZED_RESTORE = 64`. -/
theorem havoc_restore_keeps_edited_mask_at_64 :
    let cfg : HavocCfg := ⟨1048576, 32, 128, 1500, 32768, 35, [], [], [], 64, 1, false⟩
    cfg.minLenForOptimizedRestore < 2 ^ 32 ∧
      ∃ s, havocIteration cfg ⟨[], [], [], 0⟩ 0 (List.replicate 64 0) (allocBranchMask 65)
          (fun _ => 0) (fun _ => 0) 52 1
          ⟨List.replicate 64 0, 64, allocBranchMask 65, Rng.zeros, fun _ => 0, fun _ => 0, .other⟩
          = some s ∧
        s.tempLen = 64 ∧ s.outBuf = List.replicate 64 0 ∧ s.branchMask.take 65 ≠ allocBranchMask 65 :=
  ⟨by decide, havoc_restore_keeps_edited_mask _ ⟨[], [], [], 0⟩ 0 (fun _ => 0) (fun _ => 0) (by decide)⟩

end FuzzOne
