import FuzzOne.HavocMask
/-!
# Havoc keeps the test case non-empty and below `MAX_FILE` (afl-fuzz-one.c:794-832, 3801-4893)

Every operator of the havoc `switch (r)` guards what it adds: `CLONE_BYTES` and
`INSERT_SAME_BYTE` run only while `temp_len + HAVOC_BLK_XL < MAX_FILE`, the dictionary inserts
only while `temp_len + extra_len < MAX_FILE`, `SPLICE_INSERT` only in the other branch of
`temp_len + HAVOC_BLK_XL >= MAX_FILE`, and `DELETE_BYTES` only while `temp_len >= 2`, with
`del_len = choose_block_len(afl, temp_len - 1)`. What makes the guards enough is the bound of
`choose_block_len`: "Doesn't return zero, provided that max_len is > 0", and never more than
`limit` or `HAVOC_BLK_XL` (`HavocSt.chooseBlockLen_le`), when the block constants are ordered
as in `config.h` (`HavocCfg.Blocks`).

So `1 ≤ temp_len < MAX_FILE` (`HavocSt.SizeOk`) holds after every round of every operator,
over any `use_stacking`, and after the restore of an input that has it
(`havoc_keeps_file_size`). The overwriting operators do not touch `temp_len`, wherever their
position lands.
-/
namespace FuzzOne

variable {cfg : HavocCfg}

/-! ## The size bounds over the operators -/

/-- `temp_len` is at least 1 and below `MAX_FILE`. -/
def HavocSt.SizeOk (cfg : HavocCfg) (s : HavocSt) : Prop := 1 ≤ s.tempLen ∧ s.tempLen < cfg.maxFile

instance (cfg : HavocCfg) (s : HavocSt) : Decidable (s.SizeOk cfg) := inferInstanceAs (Decidable (_ ∧ _))

/-- Every round of `body` keeps the size bounds. -/
def KeepsSize (cfg : HavocCfg) (body : Nat → HavocSt → Option (HavocSt × Bool)) : Prop :=
  ∀ i s s' b, s.SizeOk cfg → body i s = some (s', b) → s'.SizeOk cfg

/-- Every round of `body` keeps `temp_len`. -/
def KeepsTempLen (body : Nat → HavocSt → Option (HavocSt × Bool)) : Prop :=
  ∀ i s s' b, body i s = some (s', b) → s'.tempLen = s.tempLen

/-- Every round of `body` keeps `mutation_size`. -/
def KeepsMutationSize (body : Nat → HavocSt → Option (HavocSt × Bool)) : Prop :=
  ∀ i s s' b, body i s = some (s', b) → s'.mutationSize = s.mutationSize

/-- The stacked rounds keep what every round keeps. -/
theorem stackLoop_inv {body : Nat → HavocSt → Option (HavocSt × Bool)} (P : HavocSt → Prop)
    (hb : ∀ i s s' b, P s → body i s = some (s', b) → P s') :
    ∀ (n i : Nat) (s s' : HavocSt), P s → stackLoop body n i s = some s' → P s'
  | 0, _, s, _, hs, h => by cases h; exact hs
  | n + 1, i, s, s', hs, h => by
    unfold stackLoop at h
    split at h
    · cases h
    · exact stackLoop_inv P hb n (i + 1) _ _ (hb i s _ _ hs ‹_›) h
    · cases h; exact hb i s _ _ hs ‹_›

section Frame

variable {body : Nat → HavocSt → Option (HavocSt × Bool)} {n i : Nat} {s s' : HavocSt}

theorem KeepsTempLen.stackLoop (hb : KeepsTempLen body) (h : stackLoop body n i s = some s') :
    s'.tempLen = s.tempLen :=
  stackLoop_inv (fun t => t.tempLen = s.tempLen) (fun i _ _ b ht e => (hb i _ _ b e).trans ht) n i s s' rfl h

theorem KeepsMutationSize.stackLoop (hb : KeepsMutationSize body) (h : stackLoop body n i s = some s') :
    s'.mutationSize = s.mutationSize :=
  stackLoop_inv (fun t => t.mutationSize = s.mutationSize) (fun i _ _ b ht e => (hb i _ _ b e).trans ht) n i s
    s' rfl h

/-- A body whose rounds keep `temp_len` keeps the size bounds. -/
theorem KeepsSize.of_tempLen (h : KeepsTempLen body) : KeepsSize cfg body :=
  fun i s s' b hs e => by unfold HavocSt.SizeOk; rw [h i s s' b e]; exact hs

/-- The fixed-width operators behind their length guard keep `temp_len`. -/
theorem guarded_tempLen (hb : KeepsTempLen body) {minLen : Nat} {size : MutationByteSize}
    (h : guarded minLen size body n s = some s') : s'.tempLen = s.tempLen := by
  unfold guarded at h
  dsimp only at h
  split at h
  · cases h; rfl
  · have e := hb.stackLoop h
    exact e

end Frame

theorem HavocSt.modPosn_tempLen {s t : HavocSt} {n pos : Nat} {m : UInt8} (h : s.modPosn n m = some (pos, t)) :
    t.tempLen = s.tempLen :=
  congrArg (fun b => b.2.1) (HavocSt.modPosn_bufs h)

/-- A round of a fixed-width overwrite keeps `temp_len` when the value's draws do. -/
theorem overwriteBody_tempLen (n w : Nat) {newVal : Nat → HavocSt → Nat × HavocSt}
    (hv : ∀ old s, (newVal old s).2.tempLen = s.tempLen) : KeepsTempLen (overwriteBody n w newVal) := by
  intro i s s' b h
  unfold overwriteBody at h
  split at h
  · cases h
  · rename_i hq
    have ht := HavocSt.modPosn_tempLen hq
    dsimp only at h
    split at h <;> obtain ⟨rfl, -⟩ := Prod.mk.inj (Option.some.inj h)
    · exact ht
    · exact (hv _ _).trans ht

@[simp] theorem HavocSt.below_tempLen (s : HavocSt) (n : Nat) : (s.below n).2.tempLen = s.tempLen := rfl

@[simp] theorem HavocSt.insPosn_tempLen (s : HavocSt) : s.insPosn.2.tempLen = s.tempLen := rfl

@[simp] theorem HavocSt.chooseBlockLen_tempLen (cfg : HavocCfg) (s : HavocSt) (limit : Nat) :
    (s.chooseBlockLen cfg limit).2.tempLen = s.tempLen :=
  congrArg (fun b => b.2.1) (s.chooseBlockLen_bufs cfg limit)

@[simp] theorem HavocSt.randomByte_tempLen (s : HavocSt) : s.randomByte.2.tempLen = s.tempLen :=
  congrArg (fun b => b.2.1) s.randomByte_bufs

@[simp] theorem HavocSt.insert_tempLen (s : HavocSt) (pos : Nat) (ins : Buf) :
    (s.insert pos ins).tempLen = s.tempLen + ins.length := rfl

@[simp] theorem HavocSt.below_mutationSize (s : HavocSt) (n : Nat) :
    (s.below n).2.mutationSize = s.mutationSize := rfl

@[simp] theorem HavocSt.insPosn_mutationSize (s : HavocSt) : s.insPosn.2.mutationSize = s.mutationSize := rfl

@[simp] theorem HavocSt.insert_mutationSize (s : HavocSt) (pos : Nat) (ins : Buf) :
    (s.insert pos ins).mutationSize = s.mutationSize := rfl

@[simp] theorem HavocSt.chooseBlockLen_mutationSize (cfg : HavocCfg) (s : HavocSt) (limit : Nat) :
    (s.chooseBlockLen cfg limit).2.mutationSize = s.mutationSize := by
  simp only [HavocSt.chooseBlockLen, HavocSt.below_mutationSize,
    apply_ite (fun x : Nat × Nat × HavocSt => x.2.2.mutationSize), ite_self]

@[simp] theorem HavocSt.randomByte_mutationSize (s : HavocSt) : s.randomByte.2.mutationSize = s.mutationSize := by
  simp only [HavocSt.randomByte, HavocSt.below_mutationSize,
    apply_ite (fun x : UInt8 × HavocSt => x.2.mutationSize), ite_self]

theorem HavocSt.modPosn_mutationSize {s t : HavocSt} {n pos : Nat} {m : UInt8}
    (h : s.modPosn n m = some (pos, t)) : t.mutationSize = s.mutationSize := by
  obtain ⟨r, -, e⟩ := Option.map_eq_some'.1 h
  cases e
  rfl

/-- A state with the `temp_len` of one that keeps the bounds keeps them. -/
theorem HavocSt.SizeOk.of_tempLen {s t : HavocSt} (hs : s.SizeOk cfg) (h : t.tempLen = s.tempLen) :
    t.SizeOk cfg := by
  unfold HavocSt.SizeOk; rw [h]; exact hs

/-- An insertion of a block no longer than `limit`, into a file with room for `limit` more bytes. -/
theorem HavocSt.SizeOk.insert {s t : HavocSt} (hs : s.SizeOk cfg) (ht : t.tempLen = s.tempLen) {limit : Nat}
    (hroom : s.tempLen + limit < cfg.maxFile) (pos : Nat) {ins : Buf} (hl : ins.length ≤ limit) :
    (t.insert pos ins).SizeOk cfg := by
  unfold HavocSt.SizeOk at hs ⊢
  rw [HavocSt.insert_tempLen, ht]
  omega

theorem cloneBytesBody_keeps (hb : cfg.Blocks) : KeepsSize cfg (cloneBytesBody cfg) := by
  intro i s s' b hs h
  unfold cloneBytesBody at h
  split at h
  · rename_i hroom
    have hl := (s.chooseBlockLen_le hb s.tempLen).2
    have hx := hb.xl_pos
    dsimp only at h
    split at h <;> obtain ⟨rfl, -⟩ := Prod.mk.inj (Option.some.inj h)
    · exact hs.of_tempLen (by simp)
    · refine hs.insert (by simp) hroom _ ?_
      simp only [List.length_take]
      omega
  · obtain ⟨rfl, -⟩ := Prod.mk.inj (Option.some.inj h); exact hs

theorem insertSameByteBody_keeps (hb : cfg.Blocks) : KeepsSize cfg (insertSameByteBody cfg) := by
  intro i s s' b hs h
  unfold insertSameByteBody at h
  split at h
  · rename_i hroom
    have hl := (s.chooseBlockLen_le hb cfg.blkXl).2
    have hx := hb.xl_pos
    dsimp only at h
    split at h <;> obtain ⟨rfl, -⟩ := Prod.mk.inj (Option.some.inj h)
    · exact hs.of_tempLen (by simp)
    · refine hs.insert (by simp) hroom _ ?_
      simp only [List.length_replicate]
      omega
  · obtain ⟨rfl, -⟩ := Prod.mk.inj (Option.some.inj h); exact hs

/-- `DELETE_BYTES` runs only from `temp_len >= 2` and deletes at most `temp_len - 1` bytes. -/
theorem deleteBytesBody_keeps (hb : cfg.Blocks) : KeepsSize cfg (deleteBytesBody cfg) := by
  intro i s s' b hs h
  unfold deleteBytesBody at h
  split at h
  · obtain ⟨rfl, -⟩ := Prod.mk.inj (Option.some.inj h); exact hs
  · rename_i h2
    have hl := s.chooseBlockLen_le hb (s.tempLen - 1)
    dsimp only at h
    split at h
    · cases h
    · rename_i hq
      have ht := (HavocSt.modPosn_tempLen hq).trans (HavocSt.chooseBlockLen_tempLen _ _ _)
      split at h
      · obtain ⟨rfl, -⟩ := Prod.mk.inj (Option.some.inj h); exact hs.of_tempLen ht
      · split at h
        · obtain ⟨rfl, -⟩ := Prod.mk.inj (Option.some.inj h)
          unfold HavocSt.SizeOk at hs ⊢
          dsimp only
          rw [ht]
          omega
        · cases h

theorem extraInsertBody_keeps (es : List Buf) : KeepsSize cfg (extraInsertBody cfg es) := by
  intro i s s' b hs h
  unfold extraInsertBody at h
  dsimp only at h
  split at h
  · obtain ⟨rfl, -⟩ := Prod.mk.inj (Option.some.inj h); exact hs.of_tempLen (by simp)
  · rename_i hroom
    split at h <;> obtain ⟨rfl, -⟩ := Prod.mk.inj (Option.some.inj h)
    · exact hs.of_tempLen (by simp)
    · exact hs.insert (by simp) (by simpa using hroom) _ le_rfl

/-- The draws of the splice target change only the generator. -/
theorem pickSpliceTarget_frame (env : HavocEnv) :
    ∀ (fuel : Nat) (s : HavocSt) {tid : Nat} {t : HavocSt}, pickSpliceTarget env fuel s = some (tid, t) →
      t = { s with rng := t.rng }
  | 0, _, _, _, h => by cases h
  | fuel + 1, s, _, _, h => by
    unfold pickSpliceTarget at h
    dsimp only at h
    split at h
    · have e := pickSpliceTarget_frame env fuel _ h
      exact e
    · obtain ⟨-, rfl⟩ := Prod.mk.inj (Option.some.inj h); rfl

/-- `SPLICE_OVERWRITE` keeps `temp_len`; `SPLICE_INSERT` runs only with room for
`HAVOC_BLK_XL` bytes and inserts at most `choose_block_len(afl, new_len)` of them. -/
theorem spliceBody_keeps (hb : cfg.Blocks) (env : HavocEnv) (fuel r : Nat) :
    KeepsSize cfg (spliceBody cfg env fuel r) := by
  intro i s s' b hs h
  unfold spliceBody at h
  split at h
  · cases h
  · rename_i tid t ht
    have hts : t.tempLen = s.tempLen := by rw [pickSpliceTarget_frame env fuel s ht]
    have hs' := hs.of_tempLen hts
    dsimp only at h
    split at h
    · split at h
      · cases h
      · rename_i hq
        have hq' := HavocSt.modPosn_tempLen hq
        split at h <;> obtain ⟨rfl, -⟩ := Prod.mk.inj (Option.some.inj h) <;> exact hs'.of_tempLen (by simp [hq'])
    · rename_i hroom
      have hl := (t.chooseBlockLen_le hb (env.queue.getD tid []).length).2
      have hx := hb.xl_pos
      split at h <;> obtain ⟨rfl, -⟩ := Prod.mk.inj (Option.some.inj h)
      · exact hs'.of_tempLen (by simp)
      · refine hs'.insert (by simp) (show t.tempLen + cfg.blkXl < cfg.maxFile by omega) _ ?_
        simp only [List.length_take]
        omega

theorem flipBit1Body_tempLen : KeepsTempLen flipBit1Body :=
  fun i s s' b h => by
    unfold flipBit1Body at h
    split at h
    · cases h
    · rename_i hq
      have ht := HavocSt.modPosn_tempLen hq
      split at h <;> obtain ⟨rfl, -⟩ := Prod.mk.inj (Option.some.inj h) <;> exact ht

theorem overwriteWithChunkBody_tempLen : KeepsTempLen (overwriteWithChunkBody cfg) :=
  fun i s s' b h => by
    unfold overwriteWithChunkBody at h
    dsimp only at h
    split at h
    · cases h
    · rename_i hq
      have ht : _ = s.tempLen := (HavocSt.modPosn_tempLen hq).trans (by simp)
      split_ifs at h
      · obtain ⟨rfl, -⟩ := Prod.mk.inj (Option.some.inj h); exact ht
      · obtain ⟨o, -, e⟩ := Option.map_eq_some'.1 h
        obtain ⟨rfl, -⟩ := Prod.mk.inj e
        exact ht
      · obtain ⟨rfl, -⟩ := Prod.mk.inj (Option.some.inj h); exact ht

theorem overwriteWithSameByteBody_tempLen : KeepsTempLen (overwriteWithSameByteBody cfg) :=
  fun i s s' b h => by
    unfold overwriteWithSameByteBody at h
    dsimp only at h
    split at h
    · cases h
    · rename_i hq
      have ht : _ = s.tempLen := (HavocSt.modPosn_tempLen hq).trans (by simp)
      split at h <;> obtain ⟨rfl, -⟩ := Prod.mk.inj (Option.some.inj h) <;> simp [ht]

theorem extraOverwriteBody_tempLen (es : List Buf) : KeepsTempLen (extraOverwriteBody es) :=
  fun i s s' b h => by
    unfold extraOverwriteBody at h
    dsimp only at h
    split at h
    · obtain ⟨rfl, -⟩ := Prod.mk.inj (Option.some.inj h); rfl
    · split at h
      · cases h
      · rename_i hq
        have ht := HavocSt.modPosn_tempLen hq
        split at h <;> obtain ⟨rfl, -⟩ := Prod.mk.inj (Option.some.inj h) <;> exact ht

/-- The fixed-width operators behind their length guard. -/
theorem guarded_sizeOk {body : Nat → HavocSt → Option (HavocSt × Bool)} (hb : KeepsSize cfg body)
    (minLen : Nat) (size : MutationByteSize) (n : Nat) {s s' : HavocSt} (hs : s.SizeOk cfg)
    (h : guarded minLen size body n s = some s') : s'.SizeOk cfg := by
  unfold guarded at h
  dsimp only at h
  split at h
  · cases h; exact hs
  · exact stackLoop_inv _ hb n 0 { s with mutationSize := size } s' hs h

/-- Every operator of the `switch (r)`, over `use_stacking` rounds, keeps the size bounds. -/
theorem havocApply_sizeOk (hb : cfg.Blocks) (env : HavocEnv) (fuel r useStacking : Nat) {s s' : HavocSt}
    (hs : s.SizeOk cfg) (h : havocApply cfg env fuel r useStacking s = some s') : s'.SizeOk cfg := by
  have hs0 : ({ s with mutationSize := .other } : HavocSt).SizeOk cfg := hs
  unfold havocApply at h
  dsimp only at h
  revert h
  cases atomizeCase env.extras.length env.aExtras.length s.tempLen cfg.maxFile cfg.blkXl r <;>
    intro h <;> simp only [runCase] at h
  case flipBit1 => exact guarded_sizeOk (.of_tempLen flipBit1Body_tempLen) _ _ _ hs0 h
  case interesting8 | interesting16 | interesting16Be | interesting32 | interesting32Be | arith8Minus |
      arith8Plus | arith16Minus | arith16BeMinus | arith16Plus | arith16BePlus | arith32Minus |
      arith32BeMinus | arith32Plus | arith32BePlus | rand8 =>
    exact guarded_sizeOk (.of_tempLen (overwriteBody_tempLen _ _ fun _ _ => rfl)) _ _ _ hs0 h
  case cloneBytes => exact stackLoop_inv _ (cloneBytesBody_keeps hb) _ _ _ _ hs0 h
  case insertSameByte => exact stackLoop_inv _ (insertSameByteBody_keeps hb) _ _ _ _ hs0 h
  case overwriteWithChunk => exact guarded_sizeOk (.of_tempLen overwriteWithChunkBody_tempLen) _ _ _ hs0 h
  case overwriteWithSameByte => exact guarded_sizeOk (.of_tempLen overwriteWithSameByteBody_tempLen) _ _ _ hs0 h
  case deleteBytes => exact stackLoop_inv _ (deleteBytesBody_keeps hb) _ _ _ _ hs0 h
  case overwriteWithExtra | overwriteWithAextra =>
    exact stackLoop_inv _ (KeepsSize.of_tempLen (extraOverwriteBody_tempLen _)) _ _ _ _ hs0 h
  case insertExtra | insertAextra => exact stackLoop_inv _ (extraInsertBody_keeps _) _ _ _ _ hs0 h
  case spliceOverwrite | spliceInsert => exact stackLoop_inv _ (spliceBody_keeps hb _ _ _) _ _ _ _ hs0 h

/-- The restore puts back `temp_len = len` or keeps the `temp_len` of a fixed-width operator. -/
theorem havocRestore_sizeOk {inBuf : Buf} (origBranchMask : Buf) (useStacking : Nat)
    (hin : 1 ≤ inBuf.length ∧ inBuf.length < cfg.maxFile) {s : HavocSt} (hs : s.SizeOk cfg) :
    (havocRestore cfg inBuf origBranchMask useStacking s).SizeOk cfg := by
  unfold havocRestore
  dsimp only
  split
  · split <;> (try split) <;> first | exact hs | exact hin
  · exact hin

/-- **Havoc keeps the test case non-empty and below `MAX_FILE`.** With the block constants of
`config.h` in their order, `choose_block_len` returns at least 1 and at most `limit` and
`HAVOC_BLK_XL` (1 for `limit = 0`); from a state with `1 ≤ temp_len < MAX_FILE`, every operator
of the `switch (r)`, over any number of stacked rounds, whatever the draws, the dictionaries and
the queue, leaves a candidate with `1 ≤ temp_len < MAX_FILE`; and the restore after its
execution, for an input with `1 ≤ len < MAX_FILE`, leaves a state with the same bounds. -/
theorem havoc_keeps_file_size (hb : cfg.Blocks) (env : HavocEnv) (fuel : Nat) {inBuf : Buf} (origBranchMask : Buf)
    (hin : 1 ≤ inBuf.length ∧ inBuf.length < cfg.maxFile) (r useStacking : Nat) {s s' : HavocSt}
    (hs : s.SizeOk cfg) (h : havocApply cfg env fuel r useStacking s = some s') :
    (∀ (t : HavocSt) (limit : Nat),
      1 ≤ (t.chooseBlockLen cfg limit).1 ∧ (t.chooseBlockLen cfg limit).1 ≤ max (min limit cfg.blkXl) 1) ∧
    s'.SizeOk cfg ∧ (havocRestore cfg inBuf origBranchMask useStacking s').SizeOk cfg :=
  have hs' := havocApply_sizeOk hb env fuel r useStacking hs h
  ⟨fun t limit => t.chooseBlockLen_le hb limit, hs', havocRestore_sizeOk origBranchMask useStacking hin hs'⟩

/-- `havoc_keeps_file_size` at two stacked rounds of `DELETE_BYTES` on a 2-byte input with the
constants of `config.h`: the first round deletes one byte, the second finds `temp_len < 2` and
stops, and the restore puts back both bytes. -/
theorem havoc_keeps_file_size_delete :
    let cfg : HavocCfg := ⟨1048576, 32, 128, 1500, 32768, 35, [], [], [], 64, 1, false⟩
    let s : HavocSt := ⟨[5, 6], 2, allocBranchMask 3, Rng.zeros, fun _ => 0, fun _ => 0, .other⟩
    ∃ s', havocApply cfg ⟨[], [], [], 0⟩ 0 52 2 s = some s' ∧ s'.tempLen = 1 ∧
      (havocRestore cfg [5, 6] (allocBranchMask 3) 2 s').tempLen = 2 ∧
      cfg.Blocks ∧ (1 ≤ ([5, 6] : Buf).length ∧ ([5, 6] : Buf).length < cfg.maxFile) ∧ s.SizeOk cfg ∧
      ((∀ (t : HavocSt) (limit : Nat),
        1 ≤ (t.chooseBlockLen cfg limit).1 ∧ (t.chooseBlockLen cfg limit).1 ≤ max (min limit cfg.blkXl) 1) ∧
      s'.SizeOk cfg ∧ (havocRestore cfg [5, 6] (allocBranchMask 3) 2 s').SizeOk cfg) :=
  ⟨_, rfl, rfl, rfl, by decide, by decide, by decide,
    havoc_keeps_file_size (by decide) ⟨[], [], [], 0⟩ 0 _ (by decide) 52 2
      (s := ⟨[5, 6], 2, allocBranchMask 3, Rng.zeros, fun _ => 0, fun _ => 0, .other⟩) (by decide) rfl⟩

/-! ## `temp_len = len` when an iteration starts -/

theorem cloneBytesBody_mutationSize : KeepsMutationSize (cloneBytesBody cfg) := by
  intro i s s' b h
  unfold cloneBytesBody at h
  dsimp only at h
  split_ifs at h <;> obtain ⟨rfl, -⟩ := Prod.mk.inj (Option.some.inj h) <;> simp

theorem insertSameByteBody_mutationSize : KeepsMutationSize (insertSameByteBody cfg) := by
  intro i s s' b h
  unfold insertSameByteBody at h
  dsimp only at h
  split_ifs at h <;> obtain ⟨rfl, -⟩ := Prod.mk.inj (Option.some.inj h) <;> simp

theorem extraInsertBody_mutationSize (es : List Buf) : KeepsMutationSize (extraInsertBody cfg es) := by
  intro i s s' b h
  unfold extraInsertBody at h
  dsimp only at h
  split_ifs at h <;> obtain ⟨rfl, -⟩ := Prod.mk.inj (Option.some.inj h) <;> simp

theorem deleteBytesBody_mutationSize : KeepsMutationSize (deleteBytesBody cfg) := by
  intro i s s' b h
  unfold deleteBytesBody at h
  split at h
  · obtain ⟨rfl, -⟩ := Prod.mk.inj (Option.some.inj h); rfl
  · dsimp only at h
    split at h
    · cases h
    · rename_i hq
      have hm : _ = s.mutationSize := (HavocSt.modPosn_mutationSize hq).trans (by simp)
      split at h
      · obtain ⟨rfl, -⟩ := Prod.mk.inj (Option.some.inj h); exact hm
      · split at h
        · obtain ⟨rfl, -⟩ := Prod.mk.inj (Option.some.inj h); exact hm
        · cases h

theorem spliceBody_mutationSize (env : HavocEnv) (fuel r : Nat) :
    KeepsMutationSize (spliceBody cfg env fuel r) := by
  intro i s s' b h
  unfold spliceBody at h
  split at h
  · cases h
  · rename_i tid t ht
    have hm : t.mutationSize = s.mutationSize := by rw [pickSpliceTarget_frame env fuel s ht]
    dsimp only at h
    split at h
    · split at h
      · cases h
      · rename_i hq
        have hq' := HavocSt.modPosn_mutationSize hq
        split at h <;> obtain ⟨rfl, -⟩ := Prod.mk.inj (Option.some.inj h) <;> simp [hq', hm]
    · split at h <;> obtain ⟨rfl, -⟩ := Prod.mk.inj (Option.some.inj h) <;> simp [hm]

/-- After `switch (r)`, `mutation_size` is `OTHER`, or the operator kept `temp_len`: the
fixed-width ones, and the dictionary overwrites, which leave `mutation_size` at `OTHER` too. -/
theorem havocApply_restorable {env : HavocEnv} {fuel r useStacking : Nat} {s s' : HavocSt}
    (h : havocApply cfg env fuel r useStacking s = some s') :
    s'.mutationSize = .other ∨ s'.tempLen = s.tempLen := by
  unfold havocApply at h
  dsimp only at h
  revert h
  cases atomizeCase env.extras.length env.aExtras.length s.tempLen cfg.maxFile cfg.blkXl r <;>
    intro h <;> simp only [runCase] at h
  case flipBit1 => exact .inr (guarded_tempLen flipBit1Body_tempLen h)
  case interesting8 | interesting16 | interesting16Be | interesting32 | interesting32Be | arith8Minus |
      arith8Plus | arith16Minus | arith16BeMinus | arith16Plus | arith16BePlus | arith32Minus |
      arith32BeMinus | arith32Plus | arith32BePlus | rand8 =>
    exact .inr (guarded_tempLen (overwriteBody_tempLen _ _ fun _ _ => rfl) h)
  case overwriteWithChunk => exact .inr (guarded_tempLen overwriteWithChunkBody_tempLen h)
  case overwriteWithSameByte => exact .inr (guarded_tempLen overwriteWithSameByteBody_tempLen h)
  case overwriteWithExtra | overwriteWithAextra =>
    have e := (extraOverwriteBody_tempLen _).stackLoop h
    exact .inr e
  case cloneBytes => exact .inl (cloneBytesBody_mutationSize.stackLoop h)
  case insertSameByte => exact .inl (insertSameByteBody_mutationSize.stackLoop h)
  case deleteBytes => exact .inl (deleteBytesBody_mutationSize.stackLoop h)
  case insertExtra | insertAextra => exact .inl ((extraInsertBody_mutationSize _).stackLoop h)
  case spliceOverwrite | spliceInsert => exact .inl ((spliceBody_mutationSize _ _ _).stackLoop h)

/-- The restore puts `temp_len = len` back, or keeps a `temp_len` that is `len` already. -/
theorem havocRestore_tempLen {inBuf : Buf} (origBranchMask : Buf) (useStacking : Nat) {s : HavocSt}
    (hs : s.mutationSize = .other ∨ s.tempLen = inBuf.length) :
    (havocRestore cfg inBuf origBranchMask useStacking s).tempLen = inBuf.length := by
  unfold havocRestore
  dsimp only
  split
  · rcases hs with hs | hs
    · rw [hs]
    · split <;> (try split) <;> first | rfl | exact hs
  · rfl

/-- A havoc iteration that starts from `temp_len = len` ends with `temp_len = len`. -/
theorem havocIteration_tempLen {env : HavocEnv} {fuel : Nat} {inBuf origBranchMask : Buf}
    {pos₀ data₀ : Nat → Nat} {r useStacking : Nat} {s t : HavocSt} (h₀ : s.tempLen = inBuf.length)
    (h : havocIteration cfg env fuel inBuf origBranchMask pos₀ data₀ r useStacking s = some t) :
    t.tempLen = inBuf.length := by
  obtain ⟨s', hs', rfl⟩ := Option.map_eq_some'.1 h
  exact havocRestore_tempLen _ _ ((havocApply_restorable hs').imp_right (·.trans h₀))

/-- So every iteration starts from `temp_len = len` (set before the loop, afl-fuzz-one.c:3421). -/
theorem havocIterations_tempLen (env : HavocEnv) (fuel : Nat) (inBuf origBranchMask : Buf) :
    ∀ (its : List ((Nat → Nat) × (Nat → Nat) × Nat × Nat)) (s t : HavocSt), s.tempLen = inBuf.length →
      havocIterations cfg env fuel inBuf origBranchMask its s = some t → t.tempLen = inBuf.length
  | [], _, _, h₀, h => by cases h; exact h₀
  | (_, _, _, _) :: its, _, t, h₀, h => by
    obtain ⟨s', hs', h⟩ := Option.bind_eq_some.1 h
    exact havocIterations_tempLen env fuel inBuf origBranchMask its s' t (havocIteration_tempLen h₀ hs') h

/-! ## The operator the bandit selects is the one `switch (r)` runs -/

/-- **The selected operator decodes back to itself, and the iteration runs its case.** After any
iterations before it, which leave `temp_len = len`; from every state the operator bandit reaches
through its calls, whatever its draws, the dictionaries and the splicing readiness: the arm is below
`NUM_CASE_ENUM` and unmasked, `case2r` with the adjustments decodes to it in the `ATOMIZE_CASES`
switch, which reads `temp_len`, and the iteration runs that operator's case of `switch (r)` with
its `use_stacking` rounds, then the restore. -/
theorem havoc_case_decodes (cfg : BanditCfg) (alg : MutAlg) (calls : List BanditCall) (d : Draws)
    (hcfg : HavocCfg) (env : HavocEnv) (fuel readyForSplicingCount : Nat) (inBuf origBranchMask : Buf)
    (its : List ((Nat → Nat) × (Nat → Nat) × Nat × Nat)) {s₀ t : HavocSt} (h₀ : s₀.tempLen = inBuf.length)
    (hrun : havocIterations hcfg env fuel inBuf origBranchMask its s₀ = some t) :
    let mask := havocCaseMask env.extras.length env.aExtras.length readyForSplicingCount inBuf.length
      hcfg.maxFile hcfg.blkXl
    t.tempLen = inBuf.length ∧
    ∃ sc, (((MutBandit.init numCaseEnum alg).run cfg calls).selectArm cfg d fun i => mask.getD i false).1 =
        some sc ∧ sc < numCaseEnum ∧ mask.getD sc false = false ∧
      ∃ c : HavocCase, c.toCtorIdx = sc ∧
        atomizeCase env.extras.length env.aExtras.length t.tempLen hcfg.maxFile hcfg.blkXl
          (caseR env.extras.length env.aExtras.length sc) = c ∧
        ∀ pos₀ data₀ useStacking,
          havocIteration hcfg env fuel inBuf origBranchMask pos₀ data₀
              (caseR env.extras.length env.aExtras.length sc) useStacking t =
            (runCase hcfg env fuel
                (spliceR env.extras.length env.aExtras.length (caseR env.extras.length env.aExtras.length sc))
                useStacking { t with mutationPos := pos₀, mutationData := data₀, mutationSize := .other } c).map
              (havocRestore hcfg inBuf origBranchMask useStacking) := by
  intro mask
  have ht := havocIterations_tempLen env fuel inBuf origBranchMask its s₀ t h₀ hrun
  obtain ⟨sc, hsel, hlt, hm⟩ := MutBandit.select_some_unmasked cfg d (fun i => mask.getD i false)
    (MutBandit.inv_run cfg numCaseEnum alg calls)
    ⟨HavocCase.flipBit1.toCtorIdx, by decide, havocCaseMask_flipBit1 _ _ _ _ _ _⟩
  refine ⟨ht, sc, hsel, hlt, hm, _, ?_, rfl, fun _ _ _ => rfl⟩
  rw [ht]
  exact atomizeCase_caseR _ _ _ _ _ _ _ hlt hm

/-- A `gsl_ran_discrete` that returns the first index of nonzero weight. -/
def DiscreteSampler.first : DiscreteSampler where
  pick w n := ((List.range n).find? w).getD 0
  pick_spec w n := by
    rintro ⟨i, hi, hw⟩
    obtain ⟨j, hj⟩ := Option.isSome_iff_exists.1 (List.find?_isSome.2 ⟨i, List.mem_range.2 hi, hw⟩)
    dsimp only
    rw [hj]
    exact ⟨List.mem_range.1 (List.mem_of_find?_eq_some hj), List.find?_some hj⟩

/-- `havoc_case_decodes` at the first iteration on a 2-byte input, for the uniform selector. -/
theorem havoc_case_decodes_first :
    let hcfg : HavocCfg := ⟨1048576, 32, 128, 1500, 32768, 35, [], [], [], 64, 1, false⟩
    let env : HavocEnv := ⟨[], [], [], 0⟩
    let s₀ : HavocSt := ⟨[5, 6], 2, allocBranchMask 3, Rng.zeros, fun _ => 0, fun _ => 0, .other⟩
    let cfg : BanditCfg := ⟨0, 0, false, ⟨2, le_refl 2, 0, 0, 0, false⟩, fun _ _ _ _ _ _ => false⟩
    let d : Draws := ⟨Rng.zeros, ⟨fun _ => 0, fun _ => ⟨le_refl 0, zero_le_one⟩⟩, DiscreteSampler.first,
      ⟨fun _ _ => some 0, fun _ _ _ _ => ⟨0, rfl, le_refl 0⟩⟩⟩
    let mask := havocCaseMask 0 0 0 2 hcfg.maxFile hcfg.blkXl
    s₀.tempLen = ([5, 6] : Buf).length ∧
    havocIterations hcfg env 0 [5, 6] (allocBranchMask 3) [] s₀ = some s₀ ∧
    (s₀.tempLen = ([5, 6] : Buf).length ∧
    ∃ sc, (((MutBandit.init numCaseEnum .uniform).run cfg []).selectArm cfg d fun i => mask.getD i false).1 =
        some sc ∧ sc < numCaseEnum ∧ mask.getD sc false = false ∧
      ∃ c : HavocCase, c.toCtorIdx = sc ∧ atomizeCase 0 0 s₀.tempLen hcfg.maxFile hcfg.blkXl (caseR 0 0 sc) = c ∧
        ∀ pos₀ data₀ useStacking,
          havocIteration hcfg env 0 [5, 6] (allocBranchMask 3) pos₀ data₀ (caseR 0 0 sc) useStacking s₀ =
            (runCase hcfg env 0 (spliceR 0 0 (caseR 0 0 sc)) useStacking
              { s₀ with mutationPos := pos₀, mutationData := data₀, mutationSize := .other } c).map
              (havocRestore hcfg [5, 6] (allocBranchMask 3) useStacking)) := by
  intro hcfg env s₀ cfg d mask
  exact ⟨rfl, rfl, havoc_case_decodes cfg .uniform [] d hcfg env 0 0 [5, 6] (allocBranchMask 3) [] rfl rfl⟩

/-- **Stacked `SPLICE_INSERT` rounds can overwrite.** Each round of the splice loop tests
`temp_len + HAVOC_BLK_XL >= MAX_FILE` again (afl-fuzz-one.c:4707), on the grown `temp_len`. With
`MAX_FILE = 1 MB` and `HAVOC_BLK_XL = 32768`, the `r` of `SPLICE_INSERT` decodes to it at
`temp_len = 1015807` and to `SPLICE_OVERWRITE` one byte later. At `MAX_FILE = 8`, `HAVOC_BLK_XL = 4`
and the block classes in order, on `[1, 2, 3]` with `SPLICE_INSERT` unmasked: its first round
inserts `[5]`, and its second overwrites that byte with `[6]`, so two rounds add one byte. -/
theorem stacked_splice_insert_overwrites :
    let cfg : HavocCfg := ⟨8, 1, 2, 3, 4, 35, [], [], [], 64, 1, false⟩
    let env : HavocEnv := ⟨[], [], [[5, 6, 7, 8], [1, 2, 3]], 1⟩
    let s : HavocSt := ⟨[1, 2, 3], 3, allocBranchMask 4, ⟨fun i => if i = 4 then 1 else 0, 0⟩, fun _ => 0,
      fun _ => 0, .other⟩
    atomizeCase 0 0 1015807 1048576 32768 (caseR 0 0 27) = .spliceInsert ∧
    atomizeCase 0 0 1015808 1048576 32768 (caseR 0 0 27) = .spliceOverwrite ∧
    cfg.Blocks ∧ (havocCaseMask 0 0 2 3 cfg.maxFile cfg.blkXl).getD 27 false = false ∧
    atomizeCase 0 0 s.tempLen cfg.maxFile cfg.blkXl (caseR 0 0 27) = .spliceInsert ∧
    (havocApply cfg env 4 (caseR 0 0 27) 1 s).map (fun t => (t.outBuf, t.tempLen)) = some ([5, 1, 2, 3], 4) ∧
    (havocApply cfg env 4 (caseR 0 0 27) 2 s).map (fun t => (t.outBuf, t.tempLen)) = some ([6, 1, 2, 3], 4) := by
  intro cfg env s
  exact ⟨by decide, by decide, by decide, by decide, by decide, by decide, by decide⟩

end FuzzOne
