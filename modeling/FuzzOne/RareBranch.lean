import FuzzOne.Basic
/-!
# The rare-branch choice: `get_lowest_hit_branch_ids`, `is_rb_hit_mini` and the commit
(afl-fuzz-one.c:1084-1197, 1519-1567)

| here | there |
| --- | --- |
| `containsId` | `contains_id` (afl-fuzz-one.c:1085-1090) |
| `lowestHitLoop`, `getLowestHitBranchIds` | `get_lowest_hit_branch_ids` (afl-fuzz-one.c:1092-1137) |
| `insertLoop`, `rbHitLoop`, `isRbHitMini` | `is_rb_hit_mini` (afl-fuzz-one.c:1143-1197) |
| `rbChoose` | the loop over `min_branch_hits` in `fuzz_one_original` (afl-fuzz-one.c:1519-1567) |
| `Blacklist`, `blacklistUpdate` | `afl->blacklist` and its update after bitflip 8/8 (afl-fuzz-one.c:2147-2158) |

`is_rb_hit_mini` keeps `branch_ids` and `branch_cts` as `u32` arrays; they are modelled as the
bytes `ck_alloc` returns, because its `memmove` calls shift `min_hit_index - j` *bytes*. Its
insertion loop does not stop once it has inserted, and the element is appended at the end
whatever happened (the loop always ends with `j == min_hit_index`).

`get_lowest_hit_branch_ids` keeps its list at one exponent (`getLowestHitBranchIds_rareResult`),
but stops scanning once the list is full, so a rarer branch later in the map is not seen
(`getLowestHitBranchIds_stops_early`).

`isRbHitMini_duplicates`: with two rare branches hit, the second with fewer hits, the result
names the second one twice and loses the first, and `fuzz_one_original` then goes back to a
branch already fuzzed while a rare branch of the entry is still unmarked.

The blacklist is an `int` array behind a `-1` terminator that doubles when `blacklist_pos`
reaches its last slot; over any run of passes it stays inside its array, and `contains_id` reads
back the branches of exactly the passes in which no try hit the branch
(`blacklist_keeps_missed_branches`).
-/
namespace FuzzOne

/-- `contains_id(branch_id, branch_ids)`: the scan stops at the `-1` terminator. -/
def containsId (branchId : Int) : List Int → Bool
  | [] => false
  | b :: bs => if b = -1 then false else b = branchId || containsId branchId bs

/-- `while (cur_hits >>= 1) highest_order_bit++;` on a 64-bit count. -/
def highestOrderBit (h : Nat) : Nat := go 64 (h % 2 ^ 64)
where
  go : Nat → Nat → Nat
    | 0, _ => 0
    | fuel + 1, h => if h / 2 = 0 then 0 else go fuel (h / 2) + 1

/-- The loop of `get_lowest_hit_branch_ids` over `i`: `exp` is `afl->rare_branch_exp`, `lowest`
is `lowest_hob` (`none` for `INT_MAX`), `ret` the ids in `rare_branch_ids[0..ret_list_size)`. -/
def lowestHitLoop (hitBits : List Nat) (blacklist : List Int) (maxRareBranches : Nat) :
    List Nat → Nat → Option Nat → List Nat → Nat × Option Nat × List Nat
  | [], exp, lowest, ret => (exp, lowest, ret)
  | i :: is, exp, lowest, ret =>
    if ret.length < maxRareBranches - 1 then
      let h := hitBits.getD i 0
      if 0 < h ∧ !containsId i blacklist then
        let hob := highestOrderBit h
        let lowest := some (match lowest with | none => hob | some l => min hob l)
        if hob < exp then
          let (exp, ret) := if hob + 1 < exp then (hob + 1, []) else (exp, ret)
          lowestHitLoop hitBits blacklist maxRareBranches is exp lowest (ret ++ [i])
        else lowestHitLoop hitBits blacklist maxRareBranches is exp lowest ret
      else lowestHitLoop hitBits blacklist maxRareBranches is exp lowest ret
    else (exp, lowest, ret)

/-- `get_lowest_hit_branch_ids`: the new `rare_branch_exp` and the ids; `fuel` bounds its recursion. -/
def getLowestHitBranchIds (hitBits : List Nat) (blacklist : List Int) (maxRareBranches mapSize : Nat) :
    Nat → Nat → Nat × List Nat
  | 0, exp => (exp, [])
  | fuel + 1, exp =>
    match lowestHitLoop hitBits blacklist maxRareBranches (List.range mapSize) exp none [] with
    | (_, some l, []) => getLowestHitBranchIds hitBits blacklist maxRareBranches mapSize fuel (l + 1)
    | (exp, _, ret) => (exp, ret)

def store32 (buf : Buf) (idx v : Nat) : Buf := storeLE buf (4 * idx) 4 v
def load32 (buf : Buf) (idx : Nat) : Nat := loadLE buf (4 * idx) 4

/-- The `for (j ...)` loop of `is_rb_hit_mini` for branch `id` with `h` hits: at each `j` with a
count of at least `h` it shifts `min_hit_index - j` bytes and writes the branch. -/
def insertLoop (h id m : Nat) : List Nat → Buf × Buf → Buf × Buf
  | [], a => a
  | j :: js, (ids, cts) =>
    if h ≤ load32 cts j then
      let cts := memmove cts (4 * (j + 1)) (4 * j) (m - j)
      let ids := memmove ids (4 * (j + 1)) (4 * j) (m - j)
      insertLoop h id m js (store32 ids j id, store32 cts j h)
    else insertLoop h id m js (ids, cts)

/-- Branch `i` is set in `trace_mini` and is one of the rarest. -/
def hitsRare (rarest : List Int) (traceMini : Buf) (i : Nat) : Bool :=
  traceMini.getD (i / 8) 0 &&& (1 <<< (i % 8)).toUInt8 ≠ 0 && containsId i rarest

/-- The loop of `is_rb_hit_mini` over `i`: `(branch_ids, branch_cts, min_hit_index)`. -/
def rbHitLoop (hitBits : List Nat) (rarest : List Int) (traceMini : Buf) :
    List Nat → Buf × Buf × Nat → Buf × Buf × Nat
  | [], a => a
  | i :: is, (ids, cts, m) =>
    if hitsRare rarest traceMini i then
      let h := hitBits.getD i 0 % 2 ^ 32
      let (ids, cts) := if m = 0 then (store32 ids 0 (i + 1), store32 cts 0 h) else (ids, cts)
      let (ids, cts) := insertLoop h (i + 1) m (List.range m) (ids, cts)
      rbHitLoop hitBits rarest traceMini is (store32 ids m (i + 1), store32 cts m h, m + 1)
    else rbHitLoop hitBits rarest traceMini is (ids, cts, m)

/-- The `u32` entries of a returned array before its `0` terminator. -/
def idsBeforeZero (ids : Buf) : List Nat :=
  ((List.range (ids.length / 4)).map (load32 ids)).takeWhile (· ≠ 0)

/-- `is_rb_hit_mini`: the new `rare_branch_exp`, and the ids (`id + 1`) or `none` for `NULL`. -/
def isRbHitMini (hitBits : List Nat) (blacklist : List Int) (exp maxRareBranches mapSize : Nat)
    (traceMini : Buf) : Nat × Option (List Nat) :=
  let (exp, rare) := getLowestHitBranchIds hitBits blacklist maxRareBranches mapSize 2 exp
  let rarest : List Int := rare.map (fun i => (i : Int)) ++ [-1]
  let zeros := List.replicate (4 * maxRareBranches) 0
  let (ids, _, m) := rbHitLoop hitBits rarest traceMini (List.range mapSize) (zeros, zeros, 0)
  (exp, if m = 0 then none else some (idsBeforeZero (store32 ids m 0)))

/-- Whether bit `id - 1` of `fuzzed_branches` is set. -/
def fuzzedBit (fb : Buf) (id : Nat) : Bool := fb.getD ((id - 1) / 8) 0 &&& (1 <<< ((id - 1) % 8)).toUInt8 ≠ 0

/-- The commit in `fuzz_one_original`: `none` is `return 1`; otherwise `rb_fuzzing` (branch
`+ 1`), the new `fuzzed_branches`, `skip_simple_bitflip` and `rb_skip_deterministic`. -/
def rbChoose (mapSize : Nat) (hits : List Nat) (fb : Buf) : Option (Nat × Buf × Bool × Bool) :=
  match hits.find? (fun id => !fuzzedBit fb id) with
  | some id =>
    let skipBitflip := ((List.range (mapSize / 8)).any fun k => fb.getD k 0 ≠ 0)
    some (id, fb.modify (· ||| (1 <<< ((id - 1) % 8)).toUInt8) ((id - 1) / 8), skipBitflip, false)
  | none => match hits with
    | [] => none
    | id :: _ => some (id, fb, true, true)

/-! ## The ids `get_lowest_hit_branch_ids` returns -/

theorem highestOrderBit_go_le : ∀ (fuel k x : Nat), x < 2 ^ (k + 1) → highestOrderBit.go fuel x ≤ k
  | 0, _, _, _ => Nat.zero_le _
  | fuel + 1, k, x, hx => by
    unfold highestOrderBit.go
    split
    · exact Nat.zero_le _
    · rename_i h2
      cases k with
      | zero => rw [Nat.zero_add, Nat.pow_one] at hx; omega
      | succ k =>
        have := highestOrderBit_go_le fuel k (x / 2) (by rw [Nat.pow_succ] at hx; omega)
        omega

/-- The count is taken as a `u64`, so its highest-order bit is at most 63. -/
theorem highestOrderBit_lt (h : Nat) : highestOrderBit h < 64 :=
  Nat.lt_succ_of_le (highestOrderBit_go_le 64 63 _ (Nat.mod_lt _ (by decide)))

/-- The ids collected so far: not blacklisted, hit, of highest-order bit `rare_branch_exp - 1`. -/
def RareIds (hitBits : List Nat) (blacklist : List Int) (exp : Nat) (ret : List Nat) : Prop :=
  ∀ i ∈ ret, containsId i blacklist = false ∧ 0 < hitBits.getD i 0 ∧
    highestOrderBit (hitBits.getD i 0) + 1 = exp

/-- The scan's list is a subsequence of the ids it went over, within `max_rare_branches - 1`,
each at the current exponent. -/
theorem lowestHitLoop_spec (hitBits : List Nat) (blacklist : List Int) (maxRareBranches : Nat) :
    ∀ (is : List Nat) (exp : Nat) (lowest : Option Nat) (ret : List Nat),
      ret.length ≤ maxRareBranches - 1 → RareIds hitBits blacklist exp ret →
      let r := lowestHitLoop hitBits blacklist maxRareBranches is exp lowest ret
      List.Sublist r.2.2 (ret ++ is) ∧ r.2.2.length ≤ maxRareBranches - 1 ∧
        RareIds hitBits blacklist r.1 r.2.2
  | [], exp, lowest, ret, hl, hr => ⟨by simp [lowestHitLoop], hl, hr⟩
  | i :: is, exp, lowest, ret, hl, hr => by
    have hsub : List.Sublist (ret ++ is) (ret ++ i :: is) := (List.sublist_cons_self i is).append_left ret
    have ih := lowestHitLoop_spec hitBits blacklist maxRareBranches is
    unfold lowestHitLoop
    split_ifs with hroom
    · dsimp only
      split_ifs with hh hlt hreset
      · -- `i` starts a new list at the lower exponent `hob + 1`
        have hi : RareIds hitBits blacklist (highestOrderBit (hitBits.getD i 0) + 1) [i] := by
          intro j hj
          obtain rfl := List.mem_singleton.1 hj
          exact ⟨by simpa using hh.2, hh.1, rfl⟩
        obtain ⟨hs, hl', hr'⟩ := ih _ _ ([] ++ [i]) (by simp; omega) hi
        exact ⟨hs.trans (List.sublist_append_right ret _), hl', hr'⟩
      · -- `i` joins the list: its highest-order bit is `rare_branch_exp - 1`
        have hi : RareIds hitBits blacklist exp (ret ++ [i]) := by
          intro j hj
          rcases List.mem_append.1 hj with hj | hj
          · exact hr j hj
          · obtain rfl := List.mem_singleton.1 hj
            exact ⟨by simpa using hh.2, hh.1, by omega⟩
        obtain ⟨hs, hl', hr'⟩ := ih _ _ (ret ++ [i]) (by simp; omega) hi
        exact ⟨by rw [List.append_cons ret i is]; exact hs, hl', hr'⟩
      · obtain ⟨hs, hl', hr'⟩ := ih exp _ ret hl hr
        exact ⟨hs.trans hsub, hl', hr'⟩
      · obtain ⟨hs, hl', hr'⟩ := ih exp lowest ret hl hr
        exact ⟨hs.trans hsub, hl', hr'⟩
    · exact ⟨List.sublist_append_left _ _, hl, hr⟩

/-- With an id listed, the exponent is at most 64. -/
theorem RareIds.exp_le {hitBits : List Nat} {blacklist : List Int} {exp : Nat} {ret : List Nat}
    (h : RareIds hitBits blacklist exp ret) (hne : ret ≠ []) : exp ≤ 64 := by
  obtain ⟨i, hi⟩ := List.exists_mem_of_ne_nil ret hne
  have := highestOrderBit_lt (hitBits.getD i 0)
  have := (h i hi).2.2
  omega

/-- What a result `(rare_branch_exp, ids)` of `get_lowest_hit_branch_ids` satisfies. -/
structure RareResult (hitBits : List Nat) (blacklist : List Int) (maxRareBranches mapSize : Nat)
    (r : Nat × List Nat) : Prop where
  increasing : r.2.Pairwise (· < ·)
  length_le : r.2.length ≤ maxRareBranches - 1
  mem : ∀ i ∈ r.2, i < mapSize ∧ containsId i blacklist = false ∧ 0 < hitBits.getD i 0 ∧
    highestOrderBit (hitBits.getD i 0) + 1 = r.1
  exp_le : r.2 ≠ [] → r.1 ≤ 64

/-- **The ids `get_lowest_hit_branch_ids` returns** are increasing, below `map_size`, at most
`max_rare_branches - 1`, and each not blacklisted, hit, and at the exponent it leaves. -/
theorem getLowestHitBranchIds_rareResult (hitBits : List Nat) (blacklist : List Int)
    (maxRareBranches mapSize : Nat) : ∀ (fuel exp : Nat),
    RareResult hitBits blacklist maxRareBranches mapSize
      (getLowestHitBranchIds hitBits blacklist maxRareBranches mapSize fuel exp)
  | 0, _ => ⟨List.Pairwise.nil, Nat.zero_le _, fun _ h => absurd h (List.not_mem_nil _),
      fun h => absurd rfl h⟩
  | fuel + 1, exp => by
    obtain ⟨hs, hl, hr⟩ := lowestHitLoop_spec hitBits blacklist maxRareBranches (List.range mapSize)
      exp none [] (Nat.zero_le _) (fun _ h => absurd h (List.not_mem_nil _))
    unfold getLowestHitBranchIds
    split
    · exact getLowestHitBranchIds_rareResult hitBits blacklist maxRareBranches mapSize fuel _
    · rename_i e
      rw [e, List.nil_append] at hs
      rw [e] at hl hr
      exact ⟨(List.pairwise_lt_range mapSize).sublist hs, hl,
        fun i hi => ⟨List.mem_range.1 (hs.subset hi), hr i hi⟩, hr.exp_le⟩

/-- **A full list stops the scan before the rarest branch**: branch 0 (4 hits) fills a list of
one before branch 1 (1 hit) is seen. -/
theorem getLowestHitBranchIds_stops_early :
    getLowestHitBranchIds [4, 1] [-1] 2 2 2 64 = (3, [0]) ∧
      highestOrderBit 4 = 2 ∧ highestOrderBit 1 = 0 := by
  decide

/-! ## `NULL` exactly when no rare branch is hit -/

/-- `min_hit_index` counts the rare branches hit. -/
theorem rbHitLoop_count (hitBits : List Nat) (rarest : List Int) (traceMini : Buf) :
    ∀ (is : List Nat) (a : Buf × Buf × Nat),
      (rbHitLoop hitBits rarest traceMini is a).2.2 = a.2.2 + (is.filter (hitsRare rarest traceMini)).length
  | [], _ => rfl
  | i :: is, (ids, cts, m) => by
    unfold rbHitLoop
    by_cases h : hitsRare rarest traceMini i = true
    · simp only [h, if_true, List.filter_cons_of_pos h, List.length_cons, rbHitLoop_count]
      omega
    · simp only [h, Bool.false_eq_true, if_false, List.filter_cons_of_neg h, rbHitLoop_count]

/-- `is_rb_hit_mini` returns `NULL` exactly when no rarest branch is set in `trace_mini`. -/
theorem isRbHitMini_eq_none_iff (hitBits : List Nat) (blacklist : List Int)
    (exp maxRareBranches mapSize : Nat) (traceMini : Buf) :
    (isRbHitMini hitBits blacklist exp maxRareBranches mapSize traceMini).2 = none ↔
      ∀ i < mapSize, hitsRare
        ((getLowestHitBranchIds hitBits blacklist maxRareBranches mapSize 2 exp).2.map
          (fun i => (i : Int)) ++ [-1]) traceMini i = false := by
  simp only [isRbHitMini, rbHitLoop_count, Nat.zero_add, List.length_eq_zero, List.filter_eq_nil_iff,
    List.mem_range, Bool.not_eq_true]
  split_ifs with h
  · exact iff_of_true rfl h
  · exact iff_of_false (by simp) h

/-! ## The insertion duplicates and loses branches -/

/-- **`is_rb_hit_mini` duplicates a branch and loses another**: `[2, 2]` for `[2, 1]`, so the
commit takes the fuzzed branch `1` again although branch `0` is unmarked. -/
theorem isRbHitMini_duplicates :
    isRbHitMini [3, 2] [-1] 2 3 2 [3] = (2, some [2, 2]) ∧
      rbChoose 2 [2, 2] [2] = some (2, [2], true, true) := by
  decide

/-! ## The blacklist store -/

/-- `afl->blacklist` with `afl->blacklist_pos` and `afl->blacklist_size`. -/
structure Blacklist where
  slots : List Int
  pos : Nat
  size : Nat
deriving DecidableEq, Repr

/-- `blacklist[blacklist_pos++] = rb_fuzzing - 1; blacklist[blacklist_pos] = -1;`, after the
array doubles when `blacklist_pos` reaches its last slot (its new tail is `0` here). -/
def Blacklist.add (b : Blacklist) (rbFuzzing : Nat) : Blacklist :=
  let b := if b.size - 1 ≤ b.pos then { b with size := 2 * b.size, slots := b.slots ++ List.replicate b.size 0 }
    else b
  { b with slots := (b.slots.set b.pos ((rbFuzzing : Int) - 1)).set (b.pos + 1) (-1), pos := b.pos + 1 }

/-- The blacklist update after bitflip 8/8 (afl-fuzz-one.c:2147-2158). -/
def blacklistUpdate (b : Blacklist) (rbFuzzing successfulBranchTries : Nat) : Blacklist :=
  if rbFuzzing ≠ 0 ∧ successfulBranchTries = 0 then b.add rbFuzzing else b

/-- The array holds its `size` slots, the first `pos` of them the branches `ids` and the next the
`-1` terminator. -/
structure Blacklist.Holds (b : Blacklist) (ids : List Int) : Prop where
  length : b.slots.length = b.size
  pos_lt : b.pos < b.size
  take_pos : b.slots.take b.pos = ids
  terminator : b.slots.getD b.pos 0 = -1
  ids_ne : ∀ i ∈ ids, i ≠ -1

/-- `contains_id` reads a list of branches up to its terminator. -/
theorem containsId_append_terminator (x : Int) (rest : List Int) :
    ∀ ids : List Int, (∀ i ∈ ids, i ≠ -1) → containsId x (ids ++ -1 :: rest) = decide (x ∈ ids)
  | [], _ => by simp [containsId]
  | i :: ids, h => by
    have hi : i ≠ -1 := h i (List.mem_cons_self _ _)
    rw [List.cons_append, containsId, if_neg hi,
      containsId_append_terminator x rest ids fun j hj => h j (List.mem_cons_of_mem _ hj)]
    by_cases e : i = x
    · subst e; simp
    · simp [e, Ne.symm e]

/-- A blacklist that holds `ids` answers `contains_id` with membership in `ids`. -/
theorem Blacklist.Holds.containsId {b : Blacklist} {ids : List Int} (h : b.Holds ids) (x : Int) :
    containsId x b.slots = decide (x ∈ ids) := by
  have hp : b.pos < b.slots.length := h.length ▸ h.pos_lt
  have ht := h.terminator
  rw [List.getD_eq_getElem?_getD, List.getElem?_eq_getElem hp, Option.getD_some] at ht
  rw [← List.take_append_drop b.pos b.slots, List.drop_eq_getElem_cons hp, ht, h.take_pos]
  exact containsId_append_terminator x _ ids h.ids_ne

/-- The add writes both slots inside the array and appends the branch. -/
theorem Blacklist.Holds.add {b : Blacklist} {ids : List Int} (h : b.Holds ids) {rbFuzzing : Nat}
    (hr : 1 ≤ rbFuzzing) : (b.add rbFuzzing).Holds (ids ++ [(rbFuzzing : Int) - 1]) := by
  -- the array after the growth: the same first slots, and room for the terminator
  obtain ⟨g, hg, hlen, hroom, htake⟩ : ∃ g : Blacklist,
      (if b.size - 1 ≤ b.pos then { b with size := 2 * b.size, slots := b.slots ++ List.replicate b.size 0 }
        else b) = g ∧ g.slots.length = g.size ∧ b.pos + 1 < g.size ∧ g.slots.take b.pos = ids ∧ g.pos = b.pos := by
    have := h.pos_lt
    split
    · refine ⟨_, rfl, by simp [h.length]; omega, by dsimp only; omega, ?_, rfl⟩
      rw [List.take_append_of_le_length (by rw [h.length]; omega), h.take_pos]
    · exact ⟨_, rfl, h.length, by omega, h.take_pos, rfl⟩
  unfold Blacklist.add
  rw [hg]
  have hp : b.pos < g.slots.length := by omega
  refine ⟨by simp [hlen], by dsimp only; omega, ?_, ?_, ?_⟩
  · show ((g.slots.set g.pos _).set (g.pos + 1) (-1)).take (g.pos + 1) = _
    rw [htake.2, List.set_take, List.set_eq_of_length_le (by simp), List.take_succ, List.getElem?_set_self hp,
      List.set_take, List.set_eq_of_length_le (by simp), htake.1, Option.toList_some]
  · show ((g.slots.set g.pos _).set (g.pos + 1) (-1)).getD (g.pos + 1) 0 = -1
    rw [htake.2, List.getD_eq_getElem?_getD, List.getElem?_set_self (by simp; omega), Option.getD_some]
  · intro i hi
    rcases List.mem_append.1 hi with hi | hi
    · exact h.ids_ne i hi
    · rw [List.mem_singleton.1 hi]; omega

/-- The branches of the passes `(rb_fuzzing, successful_branch_tries)` that no try hit. -/
def missedBranches (passes : List (Nat × Nat)) : List Int :=
  (passes.filter fun p => p.1 ≠ 0 ∧ p.2 = 0).map fun p => (p.1 : Int) - 1

/-- The update of one pass adds its branch exactly when the pass missed it. -/
theorem Blacklist.Holds.update {b : Blacklist} {ids : List Int} (h : b.Holds ids) (p : Nat × Nat) :
    (blacklistUpdate b p.1 p.2).Holds (ids ++ missedBranches [p]) := by
  unfold blacklistUpdate missedBranches
  by_cases hp : p.1 ≠ 0 ∧ p.2 = 0
  · rw [if_pos hp, List.filter_cons_of_pos (by simpa using hp)]
    exact h.add (by omega)
  · rw [if_neg hp, List.filter_cons_of_neg (by simpa using hp)]
    simpa using h

/-- The updates of a run of passes keep the store and add the missed branches in order. -/
theorem Blacklist.Holds.updates :
    ∀ (passes : List (Nat × Nat)) {b : Blacklist} {ids : List Int}, b.Holds ids →
      (passes.foldl (fun b p => blacklistUpdate b p.1 p.2) b).Holds (ids ++ missedBranches passes)
  | [], _, _, h => by simpa [missedBranches] using h
  | p :: ps, _, _, h => by
    have e : missedBranches (p :: ps) = missedBranches [p] ++ missedBranches ps := by
      simp only [missedBranches, ← List.map_append, ← List.filter_append, List.singleton_append]
    rw [List.foldl_cons, e, ← List.append_assoc]
    exact Blacklist.Holds.updates ps (h.update p)

/-- **The blacklist grows inside its array and reads back every missed branch**: `contains_id`
finds exactly the old branches and those of the passes that missed theirs. -/
theorem blacklist_keeps_missed_branches {b : Blacklist} {ids : List Int} (h : b.Holds ids)
    (passes : List (Nat × Nat)) :
    (passes.foldl (fun b p => blacklistUpdate b p.1 p.2) b).Holds (ids ++ missedBranches passes) ∧
      ∀ x, containsId x (passes.foldl (fun b p => blacklistUpdate b p.1 p.2) b).slots =
        decide (x ∈ ids ∨ x ∈ missedBranches passes) := by
  have h' := h.updates passes
  exact ⟨h', fun x => by rw [h'.containsId, decide_eq_decide, List.mem_append]⟩

/-- `blacklist_keeps_missed_branches` from an empty array of two slots: branch 4 is added in
place, branch 2 was hit, and branch 6 first doubles the array. -/
theorem blacklist_keeps_missed_branches_doubling :
    (⟨[-1, 0], 0, 2⟩ : Blacklist).Holds [] ∧
      [(5, 0), (3, 2), (7, 0)].foldl (fun b p => blacklistUpdate b p.1 p.2) (⟨[-1, 0], 0, 2⟩ : Blacklist) =
        ⟨[4, 6, -1, 0], 2, 4⟩ ∧
      (([(5, 0), (3, 2), (7, 0)].foldl (fun b p => blacklistUpdate b p.1 p.2) (⟨[-1, 0], 0, 2⟩ : Blacklist)).Holds
          ([] ++ missedBranches [(5, 0), (3, 2), (7, 0)]) ∧
        ∀ x, containsId x ([(5, 0), (3, 2), (7, 0)].foldl (fun b p => blacklistUpdate b p.1 p.2)
          (⟨[-1, 0], 0, 2⟩ : Blacklist)).slots = decide (x ∈ [] ∨ x ∈ missedBranches [(5, 0), (3, 2), (7, 0)])) :=
  have h : (⟨[-1, 0], 0, 2⟩ : Blacklist).Holds [] := ⟨rfl, by decide, rfl, rfl, fun _ h => absurd h (List.not_mem_nil _)⟩
  ⟨h, by decide, blacklist_keeps_missed_branches h _⟩

end FuzzOne
