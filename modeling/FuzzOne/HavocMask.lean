import FuzzOne.Havoc
/-!
# The mask edits of the size-changing havoc operators
(afl-fuzz-one.c:4300-4416, 4479-4594, 4730-4775)

| here | there |
| --- | --- |
| `HavocSt.cells` | the pairs `(out_buf[i], branch_mask[i])` for `i < temp_len` |
| `HavocSt.sentinel` | `branch_mask[temp_len]` |
| `CellEdit` | an insertion (mask bytes `7`, as `alloc_branch_mask` leaves them) or a deletion |
| `Lockstep ok` | the mask was edited exactly as `out_buf` was, by edits of the kind `ok`, and the sentinel kept |
| `HavocSt.insert` | the head, inserted part and tail copies of `CLONE_BYTES`, `INSERT_SAME_BYTE`, `INSERT_EXTRA`, `INSERT_AEXTRA` and `SPLICE_INSERT` |
| `deleteBytesBody` | the two `memmove`s of `DELETE_BYTES` |

Every insertion copies `temp_len - pos + 1` mask bytes after the new block, the sentinel
included, so each inserting operator keeps the mask in lockstep with `out_buf`, by insertions,
over any number of rounds (`inserting_ops_lockstep`). `DELETE_BYTES` moves
`temp_len - del_from - del_len + 1` mask bytes, the lockstep edit for a block inside
`[0, temp_len)`. Its query returns such a block unless a `u32` bound of the scan wraps; the scan
then writes billions of entries past `position_map` and the program faults
(`deleteBytesBody_lockstep`, `havoc_delete_past_window`).
-/
namespace FuzzOne

/-! ## The pairs and the sentinel -/

/-- The data bytes with their mask bytes: `(out_buf[i], branch_mask[i])` for `i < temp_len`. -/
def HavocSt.cells (s : HavocSt) : List (UInt8 × UInt8) :=
  (s.outBuf.take s.tempLen).zip (s.branchMask.take s.tempLen)

/-- `branch_mask[temp_len]`. -/
def HavocSt.sentinel (s : HavocSt) : UInt8 := s.branchMask.getD s.tempLen 0

/-- `out_buf` holds `temp_len` bytes and the mask `temp_len + 1`. -/
structure HavocSt.Sized (s : HavocSt) : Prop where
  out : s.tempLen ≤ s.outBuf.length
  mask : s.tempLen < s.branchMask.length

/-- An edit of the pairs: a block of new bytes, each with mask `7`, inserted before `pos`, or the
block `[pos, pos + len)` removed; `none` when the edit does not fit. -/
inductive CellEdit
  | insert (pos : Nat) (bytes : Buf)
  | delete (pos len : Nat)
deriving DecidableEq, Repr

def CellEdit.apply : CellEdit → List (UInt8 × UInt8) → Option (List (UInt8 × UInt8))
  | .insert p x, c => if p ≤ c.length then some (c.take p ++ x.map (·, 7) ++ c.drop p) else none
  | .delete p n, c => if p + n ≤ c.length then some (c.take p ++ c.drop (p + n)) else none

/-- A run of edits, each applied to what the ones before it left. -/
def CellEdit.run (es : List CellEdit) (c : List (UInt8 × UInt8)) : Option (List (UInt8 × UInt8)) :=
  es.foldlM (fun c e => e.apply c) c

theorem CellEdit.run_append (es es' : List CellEdit) (c : List (UInt8 × UInt8)) :
    CellEdit.run (es ++ es') c = CellEdit.run es c >>= CellEdit.run es' := by
  simp [CellEdit.run, List.foldlM_append]

/-- An insertion. -/
def CellEdit.IsInsert : CellEdit → Prop
  | .insert .. => True
  | .delete .. => False

/-- The mask moved with `out_buf` from `s` to `s'` by edits of the kind `ok`: the pairs of `s'`
are those of `s` after such edits, the sentinel is kept, and the sizes hold. -/
structure Lockstep (ok : CellEdit → Prop) (s s' : HavocSt) : Prop where
  sized : s'.Sized
  sentinel : s'.sentinel = s.sentinel
  edits : ∃ es, (∀ e ∈ es, ok e) ∧ CellEdit.run es s.cells = some s'.cells

section Lockstep

variable {ok : CellEdit → Prop} {s s' s'' : HavocSt}

theorem Lockstep.trans (h : Lockstep ok s s') (h' : Lockstep ok s' s'') : Lockstep ok s s'' := by
  obtain ⟨es, hok, hes⟩ := h.edits
  obtain ⟨es', hok', hes'⟩ := h'.edits
  exact ⟨h'.sized, h'.sentinel.trans h.sentinel, es ++ es',
    fun e he => (List.mem_append.1 he).elim (hok e) (hok' e), by rw [CellEdit.run_append, hes]; exact hes'⟩

theorem Lockstep.mono {ok' : CellEdit → Prop} (h : Lockstep ok s s') (hok : ∀ e, ok e → ok' e) :
    Lockstep ok' s s' :=
  let ⟨es, hes, e⟩ := h.edits
  ⟨h.sized, h.sentinel, es, fun x hx => hok x (hes x hx), e⟩

/-- The three fields the mask edits act on. -/
def HavocSt.bufs (s : HavocSt) : Buf × Nat × Buf := (s.outBuf, s.tempLen, s.branchMask)

theorem Lockstep.of_bufs (h : s.Sized) (e : s'.bufs = s.bufs) : Lockstep ok s s' := by
  simp only [HavocSt.bufs, Prod.mk.injEq] at e
  obtain ⟨h1, h2, h3⟩ := e
  refine ⟨⟨?_, ?_⟩, ?_, [], List.forall_mem_nil _, ?_⟩ <;>
    simp only [HavocSt.sentinel, HavocSt.cells, CellEdit.run, List.foldlM_nil, h1, h2, h3]
  exacts [h.out, h.mask, rfl]

theorem Lockstep.refl (h : s.Sized) : Lockstep ok s s := .of_bufs h rfl

end Lockstep

/-! ## Insertions -/

/-- Two lists of one length edited at the same places: the pairs are edited there too. -/
theorem zip_edit {α β : Type} {a : List α} {b : List β} (h : a.length = b.length) (p q : Nat)
    {x : List α} {y : List β} (hxy : x.length = y.length) :
    (a.take p ++ x ++ a.drop q).zip (b.take p ++ y ++ b.drop q) =
      (a.zip b).take p ++ x.zip y ++ (a.zip b).drop q := by
  rw [List.zip_append (by simp [h, hxy]), List.zip_append (by simp [h])]
  simp only [List.zip_eq_zipWith, List.take_zipWith, List.drop_zipWith]

theorem insertMask_eq {mask : Buf} {tempLen pos : Nat} (hm : tempLen < mask.length)
    (hp : pos ≤ tempLen) (n : Nat) :
    insertMask mask tempLen pos n =
      mask.take pos ++ List.replicate n 7 ++ (mask.drop pos).take (tempLen - pos + 1) := by
  have hl : (mask.take pos).length = pos := List.length_take_of_le (by omega)
  have hT : ((mask.drop pos).take (tempLen - pos + 1)).length = tempLen - pos + 1 := by
    simp only [List.length_take, List.length_drop]; omega
  have hB : overwrite (allocBranchMask (tempLen + n + 1)) 0 (mask.take pos) =
      mask.take pos ++ (List.replicate (tempLen + n - pos) 7 ++ [4]) := by
    rw [overwrite, List.take_zero, List.nil_append, hl, Nat.zero_add, allocBranchMask_drop (by omega)]
  have hBl : (mask.take pos ++ (List.replicate (tempLen + n - pos) 7 ++ [4])).length =
      pos + n + (tempLen - pos + 1) := by
    simp only [List.length_append, hl, List.length_replicate, List.length_singleton]; omega
  rw [insertMask, hB, overwrite, List.take_append_eq_append_take, hl,
    List.take_of_length_le (by omega), Nat.add_sub_cancel_left, List.take_append_of_le_length
      (by simp only [List.length_append, List.length_replicate, List.length_singleton]; omega),
    List.take_replicate, min_eq_left (by omega), hT, List.drop_eq_nil_of_le hBl.le, List.append_nil]

theorem CellEdit.run_singleton (e : CellEdit) (c : List (UInt8 × UInt8)) :
    CellEdit.run [e] c = e.apply c := by
  simp [CellEdit.run]

theorem HavocSt.cells_length {s : HavocSt} (h : s.Sized) : s.cells.length = s.tempLen := by
  simp [HavocSt.cells, h.out, h.mask.le]

theorem HavocSt.insert_lockstep {s : HavocSt} (h : s.Sized) {pos : Nat} (hp : pos ≤ s.tempLen)
    (ins : Buf) : Lockstep CellEdit.IsInsert s (s.insert pos ins) := by
  obtain ⟨hout, hmask⟩ := h
  have hm := insertMask_eq hmask hp ins.length
  have hA : (s.branchMask.take pos).length = pos := List.length_take_of_le (by omega)
  have ho : (s.insert pos ins).outBuf.length = s.tempLen + ins.length := by
    simp only [HavocSt.insert, List.length_append, List.length_take, List.length_drop]; omega
  have hAR : (s.branchMask.take pos ++ List.replicate ins.length (7 : UInt8)).length =
      pos + ins.length := by
    simp only [List.length_append, hA, List.length_replicate]
  refine ⟨⟨ho.ge, ?_⟩, ?_, [.insert pos ins], by simp [CellEdit.IsInsert], ?_⟩
  · simp only [HavocSt.insert, hm, List.length_append, hAR, List.length_take, List.length_drop]
    omega
  · simp only [HavocSt.sentinel, HavocSt.insert, hm, List.getD_eq_getElem?_getD]
    rw [List.getElem?_append_right (by omega), List.getElem?_take, if_pos (by omega),
      List.getElem?_drop, hAR]
    congr 3; omega
  · rw [CellEdit.run_singleton, CellEdit.apply,
      if_pos (by rw [HavocSt.cells_length ⟨hout, hmask⟩]; exact hp)]
    have e1 : (s.insert pos ins).outBuf.take (s.tempLen + ins.length) =
        (s.outBuf.take s.tempLen).take pos ++ ins ++ (s.outBuf.take s.tempLen).drop pos := by
      rw [← ho, List.take_length, List.take_take, min_eq_left hp, List.drop_take]; rfl
    have e2 : (s.insert pos ins).branchMask.take (s.tempLen + ins.length) =
        (s.branchMask.take s.tempLen).take pos ++ List.replicate ins.length 7 ++
          (s.branchMask.take s.tempLen).drop pos := by
      rw [show s.tempLen + ins.length = pos + ins.length + (s.tempLen - pos) by omega,
        show (s.insert pos ins).branchMask = _ from hm, ← hAR, List.take_append, List.take_take,
        min_eq_left (by omega), List.take_take, min_eq_left hp, List.drop_take]
    simp only [HavocSt.cells, show (s.insert pos ins).tempLen = s.tempLen + ins.length from rfl, e1, e2]
    rw [zip_edit (by simp only [List.length_take]; omega) _ _ (List.length_replicate _ _).symm,
      List.map_prod_left_eq_zip,
      List.map_const']

/-! ## The draws leave the buffers alone -/

@[simp] theorem HavocSt.below_bufs (s : HavocSt) (n : Nat) : (s.below n).2.bufs = s.bufs := rfl

theorem HavocSt.modPosn_bufs {s t : HavocSt} {n pos : Nat} {m : UInt8} (h : s.modPosn n m = some (pos, t)) :
    t.bufs = s.bufs := by
  obtain ⟨r, -, e⟩ := Option.map_eq_some'.1 h
  cases e
  rfl

@[simp] theorem HavocSt.insPosn_bufs (s : HavocSt) : s.insPosn.2.bufs = s.bufs := rfl

@[simp] theorem HavocSt.chooseBlockLen_bufs (cfg : HavocCfg) (s : HavocSt) (limit : Nat) :
    (s.chooseBlockLen cfg limit).2.bufs = s.bufs := by
  simp only [HavocSt.chooseBlockLen, HavocSt.below_bufs,
    apply_ite (fun x : Nat × Nat × HavocSt => x.2.2.bufs), ite_self]

@[simp] theorem HavocSt.randomByte_bufs (s : HavocSt) : s.randomByte.2.bufs = s.bufs := by
  simp only [HavocSt.randomByte, HavocSt.below_bufs, apply_ite (fun x : UInt8 × HavocSt => x.2.bufs),
    ite_self]

theorem getRandomInsertPosn_le (g : Rng) (mapLen : Nat) (mask : Buf) :
    (getRandomInsertPosn g mapLen mask).1 ≤ mapLen := by
  unfold getRandomInsertPosn
  dsimp only
  split
  · exact le_refl _
  · rw [List.getD_eq_getElem?_getD]
    cases hx : (insertPositions mapLen mask)[(g.below (insertPositions mapLen mask).length).1]? with
    | none => exact Nat.zero_le _
    | some x =>
      have := List.mem_of_mem_filter (List.getElem?_mem hx)
      simp only [List.mem_range] at this
      simpa using Nat.lt_succ_iff.1 this

/-- The position `get_random_insert_posn` returns is at most `temp_len`. -/
theorem HavocSt.insPosn_le {s t : HavocSt} (e : t.bufs = s.bufs) : t.insPosn.1 ≤ s.tempLen :=
  (congrArg (fun b => b.2.1) e : t.tempLen = s.tempLen) ▸ getRandomInsertPosn_le _ _ _

/-- An insertion at most at `temp_len`, after draws. -/
theorem Lockstep.insert_at {s t : HavocSt} (h : s.Sized) (e : t.bufs = s.bufs) {pos : Nat}
    (hp : pos ≤ s.tempLen) (ins : Buf) : Lockstep CellEdit.IsInsert s (t.insert pos ins) :=
  have ht : Lockstep CellEdit.IsInsert s t := .of_bufs h e
  ht.trans (HavocSt.insert_lockstep ht.sized
    ((congrArg (fun b => b.2.1) e : t.tempLen = s.tempLen) ▸ hp) ins)

/-! ## The inserting operators -/

theorem cloneBytesBody_lockstep (cfg : HavocCfg) (i : Nat) {s : HavocSt} (h : s.Sized) :
    ∃ s' b, cloneBytesBody cfg i s = some (s', b) ∧ Lockstep CellEdit.IsInsert s s' := by
  unfold cloneBytesBody
  dsimp only
  split
  · split
    · exact ⟨_, _, rfl, .of_bufs h (by simp)⟩
    · exact ⟨_, _, rfl, .insert_at h (by simp) (HavocSt.insPosn_le (by simp)) _⟩
  · exact ⟨_, _, rfl, .of_bufs h rfl⟩

theorem insertSameByteBody_lockstep (cfg : HavocCfg) (i : Nat) {s : HavocSt} (h : s.Sized) :
    ∃ s' b, insertSameByteBody cfg i s = some (s', b) ∧ Lockstep CellEdit.IsInsert s s' := by
  unfold insertSameByteBody
  dsimp only
  split
  · split
    · exact ⟨_, _, rfl, .of_bufs h (by simp)⟩
    · exact ⟨_, _, rfl, .insert_at h (by simp) (HavocSt.insPosn_le (by simp)) _⟩
  · exact ⟨_, _, rfl, .of_bufs h rfl⟩

theorem extraInsertBody_lockstep (cfg : HavocCfg) (es : List Buf) (i : Nat) {s : HavocSt}
    (h : s.Sized) : ∃ s' b, extraInsertBody cfg es i s = some (s', b) ∧ Lockstep CellEdit.IsInsert s s' := by
  unfold extraInsertBody
  dsimp only
  split
  · exact ⟨_, _, rfl, .of_bufs h (by simp)⟩
  · split
    · exact ⟨_, _, rfl, .of_bufs h (by simp)⟩
    · exact ⟨_, _, rfl, .insert_at h (by simp) (HavocSt.insPosn_le (by simp)) _⟩

/-! ## Deletions -/

/-- A body whose every round moves the mask with `out_buf` does so over any number of rounds. -/
theorem stackLoop_lockstep {ok : CellEdit → Prop} {body : Nat → HavocSt → Option (HavocSt × Bool)}
    (hb : ∀ i s, s.Sized → ∃ s' b, body i s = some (s', b) ∧ Lockstep ok s s') (n i : Nat)
    {s : HavocSt} (h : s.Sized) : ∃ s', stackLoop body n i s = some s' ∧ Lockstep ok s s' :=
  stackLoop_spec (Lockstep ok s)
    (fun i t ht => let ⟨t', b, e, h'⟩ := hb i t ht.sized; ⟨t', b, e, ht.trans h'⟩) n i s (.refl h)

/-- **The inserting operators keep the mask in lockstep.** From a state whose `out_buf` holds
`temp_len` bytes and whose mask holds `temp_len + 1`, every stacked run of `CLONE_BYTES`,
`INSERT_SAME_BYTE`, `INSERT_EXTRA` or `INSERT_AEXTRA` returns, and its pairs are the old ones
after insertions only, each of mask-`7` bytes at a position at most the current `temp_len`; the
sentinel keeps its value. -/
theorem inserting_ops_lockstep (cfg : HavocCfg) (env : HavocEnv) (fuel r useStacking : Nat)
    (s : HavocSt) (h : s.Sized)
    (hr : atomizeCase env.extras.length env.aExtras.length s.tempLen cfg.maxFile cfg.blkXl r ∈
      [.cloneBytes, .insertSameByte, .insertExtra, .insertAextra]) :
    ∃ s', havocApply cfg env fuel r useStacking s = some s' ∧ Lockstep CellEdit.IsInsert s s' := by
  have h0 : Lockstep CellEdit.IsInsert s { s with mutationSize := .other } := .of_bufs h rfl
  have run : ∀ body : Nat → HavocSt → Option (HavocSt × Bool),
      (∀ i t, t.Sized → ∃ t' b, body i t = some (t', b) ∧ Lockstep CellEdit.IsInsert t t') →
      ∃ s', stackLoop body useStacking 0 { s with mutationSize := .other } = some s' ∧
        Lockstep CellEdit.IsInsert s s' :=
    fun _ hb => (stackLoop_lockstep hb _ _ h0.sized).imp fun _ ⟨e, l⟩ => ⟨e, h0.trans l⟩
  simp only [List.mem_cons, List.mem_singleton, List.not_mem_nil, or_false] at hr
  rcases hr with hr | hr | hr | hr <;> simp only [havocApply, runCase, hr]
  exacts [run _ fun i _ => cloneBytesBody_lockstep cfg i, run _ fun i _ => insertSameByteBody_lockstep cfg i,
    run _ fun i _ => extraInsertBody_lockstep cfg _ i, run _ fun i _ => extraInsertBody_lockstep cfg _ i]

/-- `inserting_ops_lockstep` for three rounds of `CLONE_BYTES` on a 2-byte input. -/
theorem inserting_ops_lockstep_clone :
    let cfg : HavocCfg := ⟨1048576, 32, 128, 1500, 32768, 35, [], [], [], 64, 1, false⟩
    let s : HavocSt := ⟨[0, 0], 2, allocBranchMask 3, Rng.zeros, fun _ => 0, fun _ => 0, .other⟩
    s.Sized ∧ atomizeCase 0 0 2 cfg.maxFile cfg.blkXl 44 ∈
        [.cloneBytes, .insertSameByte, .insertExtra, .insertAextra] ∧
      ∃ s', havocApply cfg ⟨[], [], [], 0⟩ 0 44 3 s = some s' ∧ Lockstep CellEdit.IsInsert s s' :=
  ⟨⟨by decide, by decide⟩, by decide,
    inserting_ops_lockstep _ ⟨[], [], [], 0⟩ 0 44 3 _ ⟨by decide, by decide⟩ (by decide)⟩

/-! ## A deletion past the window -/

/-- **`DELETE_BYTES` past the window faults.** A 4-byte input whose mask allows deleting bytes 0,
2 and 3, with `del_len = 3`: the scan of the delete query meets the end of the run `[0, 1)` at
`i = 1`, where the bound `i - 3 + 1` wraps, and it writes `2^32 - 1` entries into a
`position_map` of 5, so the iteration never returns. -/
theorem havoc_delete_past_window (cfg : HavocCfg) (env : HavocEnv) (fuel : Nat)
    (pos₀ data₀ : Nat → Nat) (b₀ b₁ b₂ b₃ : UInt8)
    (hcfg : cfg.runOver10m = false ∧ 3 ≤ cfg.blkSmall) :
    (HavocSt.chooseBlockLen cfg
        ⟨[b₀, b₁, b₂, b₃], 4, [2, 0, 2, 2, 4], ⟨fun _ => 2, 0⟩, pos₀, data₀, .other⟩ 3).1 = 3 ∧
      (modifiablePositions 24 deleteSafe 4 [2, 0, 2, 2, 4]).length = 2 ^ 32 - 1 ∧
      havocApply cfg env fuel 52 1
        ⟨[b₀, b₁, b₂, b₃], 4, [2, 0, 2, 2, 4], ⟨fun _ => 2, 0⟩, pos₀, data₀, .other⟩ = none := by
  have hq : modifiablePositions 24 deleteSafe 4 [2, 0, 2, 2, 4] = List.range' 0 (2 ^ 32 - 1) := by
    have h2 : (2 : UInt8) &&& 2 = 2 := by decide
    have h0 : (0 : UInt8) &&& 2 = 0 := by decide
    have h20 : (2 : UInt8) ≠ 0 := by decide
    simp [modifiablePositions, posnScan, deleteSafe, u32, h2, h0, h20]
  have hd : (HavocSt.chooseBlockLen cfg
      ⟨[b₀, b₁, b₂, b₃], 4, [2, 0, 2, 2, 4], ⟨fun _ => 2, 0⟩, pos₀, data₀, .other⟩ 3) =
      (3, ⟨[b₀, b₁, b₂, b₃], 4, [2, 0, 2, 2, 4], ⟨fun _ => 2, 1⟩, pos₀, data₀, .other⟩) := by
    simp [HavocSt.chooseBlockLen, HavocSt.below, Rng.below, hcfg.1, min_eq_right hcfg.2, u32]
  refine ⟨by rw [hd], by rw [hq, List.length_range'], ?_⟩
  simp only [havocApply, atomizeCase_deleteBytes, runCase]
  unfold stackLoop deleteBytesBody
  simp [hd, HavocSt.modPosn, getRandomModifiablePosn, u32, hq]

/-- `havoc_delete_past_window` under the default block sizes, before ten minutes of fuzzing. -/
theorem havoc_delete_past_window_default :
    let cfg : HavocCfg := ⟨1048576, 32, 128, 1500, 32768, 35, [], [], [], 64, 1, false⟩
    (cfg.runOver10m = false ∧ 3 ≤ cfg.blkSmall) ∧
      (HavocSt.chooseBlockLen cfg
          ⟨[0, 0, 0, 0], 4, [2, 0, 2, 2, 4], ⟨fun _ => 2, 0⟩, fun _ => 0, fun _ => 0, .other⟩ 3).1 = 3 ∧
        (modifiablePositions 24 deleteSafe 4 [2, 0, 2, 2, 4]).length = 2 ^ 32 - 1 ∧
        havocApply cfg ⟨[], [], [], 0⟩ 0 52 1
          ⟨[0, 0, 0, 0], 4, [2, 0, 2, 2, 4], ⟨fun _ => 2, 0⟩, fun _ => 0, fun _ => 0, .other⟩ = none :=
  ⟨⟨rfl, by decide⟩,
    havoc_delete_past_window _ ⟨[], [], [], 0⟩ 0 (fun _ => 0) (fun _ => 0) 0 0 0 0 ⟨rfl, by decide⟩⟩

end FuzzOne
