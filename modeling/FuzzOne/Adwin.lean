import Mathlib.Algebra.Field.Rat
import Mathlib.Algebra.BigOperators.Group.List
import Mathlib.Data.List.Infix
import Mathlib.Algebra.Order.Ring.Nat
/-!
# ADWIN: `adwin_add_elem` and its helpers (afl-fuzz-one.c:245-406)

The linked list of `adwin_node_t` is a list of nodes from `head` (node 0) to `tail`; node `k`
holds `sum[0..size)` oldest first, and each of its buckets stands for `2^k` rewards. The
compile-time parameters (`ADWIN_M` and the others) are in a header outside `src/`, so they are
the fields of `AdwinCfg`. A node that overflows at `ADWIN_M + 1` buckets gives two to the next
node and keeps `ADWIN_M - 1`, so the code keeps every node past the head non-empty only for
`ADWIN_M ≥ 2`; `AdwinCfg` carries that bound. The floating-point change test `adwin_should_drop`
is any function of the numbers it reads (`ShouldDrop`), and the `while (1)` of
`adwin_drop_last_till_identical` is given fuel, one pass per bucket (`dropLoop_fuel_enough`
shows that is enough). `adwinRunScans` lists the states the passes of the drop scan read.

Main theorem `adwin_run_well_formed`: after any stream of rewards the state is `WellFormed`
(the buckets, read from `tail[0]` to the head's last, tile a suffix of the stream whose length
is `W` and whose total is `sum`); so `sum ≤ W` and the estimation is the window's mean; and in
every state a pass of the drop scan reads, `sum ≤ W` and no subtraction of the scan wraps.
-/
namespace FuzzOne

/-- The ADWIN parameters of the build (`ADWIN_M`, `ADWIN_MIN_ELEM_TO_START_DROP`,
`ADWIN_MIN_ELEM_TO_CHECK`, `ADWIN_DROP_INTERVAL`, `ADWIN_ADAPTIVE_RESETTING`). -/
structure AdwinCfg where
  m : Nat
  two_le_m : 2 ≤ m
  minElemToStartDrop : Nat
  minElemToCheck : Nat
  dropInterval : Nat
  adaptiveResetting : Bool

/-- `adwin_should_drop(s0, n0, s1, n1, ddv2, dd2_3)`, with `ddv2` and `dd2_3` computed from
`W` and `sum`: the arguments are `W sum s0 n0 s1 n1`. -/
abbrev ShouldDrop := Nat → Nat → Nat → Nat → Nat → Nat → Bool

/-- `adwin_t`. -/
structure Adwin where
  nodes : List (List Nat)
  lastNodeIdx : Nat
  W : Nat
  sum : Nat
  numAdd : Nat
deriving DecidableEq, Repr

/-- `init_adwin` on a zeroed `adwin_t`: one empty head node. -/
def Adwin.init : Adwin := ⟨[[]], 0, 0, 0, 0⟩

/-! ## The operations -/

/-- `adwin_add_tail_window(adwin->head, r)`. -/
def addToHead (r : Nat) : List (List Nat) → List (List Nat)
  | [] => []
  | h :: t => (h ++ [r]) :: t

/-- The loop of `adwin_normlize_buckets` (afl-fuzz-one.c:302-319) from some node on: `c` is the
bucket the previous node folded (`adwin_add_tail_window(node->next, s)`), appended before the
size test; a missing next node is created (`adwin_add_tail_node`). The flag says whether a node
was added. -/
def normlize (m : Nat) : Option Nat → List (List Nat) → List (List Nat) × Bool
  | none, [] => ([], false)
  | some s, [] => ([[s]], true)
  | c, node :: rest =>
    let node := node ++ c.toList
    if node.length ≤ m then (node :: rest, false)
    else
      let r := normlize m (some (node.getD 0 0 + node.getD 1 0)) rest
      (node.drop 2 :: r.1, r.2)

/-- `adwin_normlize_buckets`. -/
def adwinNormlizeBuckets (m : Nat) (a : Adwin) : Adwin :=
  let r := normlize m none a.nodes
  { a with nodes := r.1, lastNodeIdx := if r.2 then a.lastNodeIdx + 1 else a.lastNodeIdx }

/-- `adwin_expire_last_window` (afl-fuzz-one.c:285): drop `tail->sum[0]`, and the tail node
itself once empty unless it is the head. -/
def adwinExpireLastWindow (a : Adwin) : Adwin :=
  let tail := a.nodes.getLastD []
  let W := a.W - 2 ^ a.lastNodeIdx
  let sum := a.sum - tail.getD 0 0
  if tail.drop 1 = [] ∧ 1 < a.nodes.length then
    { a with nodes := a.nodes.dropLast, lastNodeIdx := a.lastNodeIdx - 1, W, sum }
  else { a with nodes := a.nodes.dropLast ++ [tail.drop 1], W, sum }

/-- The buckets in the order the drop scan visits them, `(1ull << exp, node->sum[k])` from the
tail down to the head, `exp` counting down from `last_node_idx`. -/
def scanFrom : Nat → List (List Nat) → List (Nat × Nat)
  | _, [] => []
  | e, node :: rest => node.map (fun v => (2 ^ e, v)) ++ scanFrom (e - 1) rest

def scanOrder (a : Adwin) : List (Nat × Nat) := scanFrom a.lastNodeIdx a.nodes.reverse

/-- One pass of the scan in `adwin_drop_last_till_identical` (afl-fuzz-one.c:352-379), from the
running `(n0, s0, n1, s1)`: `true` when `adwin_should_drop` fires. -/
def dropScan (cfg : AdwinCfg) (sd : ShouldDrop) (W sum : Nat) :
    List (Nat × Nat) → Nat → Nat → Nat → Nat → Bool
  | [], _, _, _, _ => false
  | (w, v) :: bs, n0, s0, n1, s1 =>
    if n1 - w < cfg.minElemToCheck then false
    else if n0 + w < cfg.minElemToCheck then dropScan cfg sd W sum bs (n0 + w) (s0 + v) (n1 - w) (s1 - v)
    else sd W sum (s0 + v) (n0 + w) (s1 - v) (n1 - w) ||
      dropScan cfg sd W sum bs (n0 + w) (s0 + v) (n1 - w) (s1 - v)

/-- The `while (1)` passes: after a drop, reset (adaptive resetting, which then leaves the loop
with `dropped == false`) or expire the oldest bucket and scan again. -/
def dropLoop (cfg : AdwinCfg) (sd : ShouldDrop) : Nat → Adwin → Adwin
  | 0, a => a
  | fuel + 1, a =>
    if dropScan cfg sd a.W a.sum (scanOrder a) 0 0 a.W a.sum then
      if cfg.adaptiveResetting then Adwin.init else dropLoop cfg sd fuel (adwinExpireLastWindow a)
    else a

def bucketCount (a : Adwin) : Nat := (a.nodes.map List.length).sum

/-- `adwin_drop_last_till_identical`. -/
def adwinDropLastTillIdentical (cfg : AdwinCfg) (sd : ShouldDrop) (a : Adwin) : Adwin :=
  if a.W < cfg.minElemToStartDrop then a else dropLoop cfg sd (bucketCount a + 1) a

/-- `adwin_add_elem` (afl-fuzz-one.c:387), for a reward `0` or `1`. -/
def adwinAddElem (cfg : AdwinCfg) (sd : ShouldDrop) (a : Adwin) (reward : Bool) : Adwin :=
  let a := adwinNormlizeBuckets cfg.m
    { a with W := a.W + 1, sum := a.sum + reward.toNat, nodes := addToHead reward.toNat a.nodes }
  if cfg.dropInterval = 1 then adwinDropLastTillIdentical cfg sd a
  else if a.numAdd + 1 = cfg.dropInterval then adwinDropLastTillIdentical cfg sd { a with numAdd := 0 }
  else { a with numAdd := a.numAdd + 1 }

/-- `adwin_get_estimation`, in exact arithmetic. -/
def adwinGetEstimation (a : Adwin) : ℚ := if 0 < a.W then (a.sum : ℚ) / a.W else 0

/-- The state after `adwin_add_elem` was called with each reward of the stream in turn. -/
def adwinRun (cfg : AdwinCfg) (sd : ShouldDrop) (rs : List Bool) : Adwin :=
  rs.foldl (adwinAddElem cfg sd) Adwin.init

/-! ## The states the drop scan reads -/

/-- The states the passes of `dropLoop` scan, in order: the first, then, after each drop that
does not reset, the state `adwin_expire_last_window` left. -/
def dropLoopScans (cfg : AdwinCfg) (sd : ShouldDrop) : Nat → Adwin → List Adwin
  | 0, _ => []
  | fuel + 1, a =>
    a :: if dropScan cfg sd a.W a.sum (scanOrder a) 0 0 a.W a.sum && !cfg.adaptiveResetting then
      dropLoopScans cfg sd fuel (adwinExpireLastWindow a) else []

/-- The states the scans of `adwin_drop_last_till_identical` read. -/
def adwinDropScans (cfg : AdwinCfg) (sd : ShouldDrop) (a : Adwin) : List Adwin :=
  if a.W < cfg.minElemToStartDrop then [] else dropLoopScans cfg sd (bucketCount a + 1) a

/-- The states the scans of one `adwin_add_elem` read, from the normalized state on. -/
def adwinAddElemScans (cfg : AdwinCfg) (sd : ShouldDrop) (a : Adwin) (reward : Bool) : List Adwin :=
  let a := adwinNormlizeBuckets cfg.m
    { a with W := a.W + 1, sum := a.sum + reward.toNat, nodes := addToHead reward.toNat a.nodes }
  if cfg.dropInterval = 1 then adwinDropScans cfg sd a
  else if a.numAdd + 1 = cfg.dropInterval then adwinDropScans cfg sd { a with numAdd := 0 }
  else []

/-- The states the scans read while `adwin_add_elem` is called with each reward in turn. -/
def adwinRunScans (cfg : AdwinCfg) (sd : ShouldDrop) : List Bool → Adwin → List Adwin
  | [], _ => []
  | r :: rs, a => adwinAddElemScans cfg sd a r ++ adwinRunScans cfg sd rs (adwinAddElem cfg sd a r)

/-! ## The invariant -/

/-- Consecutive blocks of `xs`, one per bucket `(width, value)`, each summing to its value. -/
def Tiles : List (Nat × Nat) → List Nat → Prop
  | [], xs => xs = []
  | (w, v) :: bs, xs => w ≤ xs.length ∧ (xs.take w).sum = v ∧ Tiles bs (xs.drop w)

/-- The buckets oldest first: the nodes from the tail to `head`, node `k` of width `2^k`. -/
def buckets (k : Nat) : List (List Nat) → List (Nat × Nat)
  | [] => []
  | node :: rest => buckets (k + 1) rest ++ node.map (fun v => (2 ^ k, v))

/-- The state a well-formed ADWIN is in, relative to the rewards of its window. -/
structure Adwin.WellFormed (m : Nat) (a : Adwin) (window : List Nat) : Prop where
  length_nodes : a.nodes.length = a.lastNodeIdx + 1
  node_le : ∀ node ∈ a.nodes, node.length ≤ m
  node_ne : ∀ node ∈ a.nodes.tail, node ≠ []
  tiles : Tiles (buckets 0 a.nodes) window
  W_eq : a.W = window.length
  sum_eq : a.sum = window.sum

/-- Every `n1 -= 1ull << exp` and `s1 -= node->sum[k]` of the scan takes away no more than is
left, so the `u64` counters never wrap. -/
def ScanExact : List (Nat × Nat) → Nat → Nat → Prop
  | [], _, _ => True
  | (w, v) :: bs, n1, s1 => w ≤ n1 ∧ v ≤ s1 ∧ ScanExact bs (n1 - w) (s1 - v)


/-! ## Tiles -/

theorem Tiles.length_eq : ∀ {bs : List (Nat × Nat)} {xs : List Nat}, Tiles bs xs →
    (bs.map Prod.fst).sum = xs.length
  | [], _, h => by simp [show _ = [] from h]
  | (w, v) :: bs, xs, ⟨hw, _, h⟩ => by
    have := Tiles.length_eq h
    simp only [List.map_cons, List.sum_cons, List.length_drop] at this ⊢
    omega

theorem sum_take_add_drop (xs : List Nat) (n : Nat) : (xs.take n).sum + (xs.drop n).sum = xs.sum := by
  rw [← List.sum_append, List.take_append_drop]

theorem Tiles.sum_eq : ∀ {bs : List (Nat × Nat)} {xs : List Nat}, Tiles bs xs →
    (bs.map Prod.snd).sum = xs.sum
  | [], _, h => by simp [show _ = [] from h]
  | (w, v) :: bs, xs, ⟨_, hv, h⟩ => by
    have := Tiles.sum_eq h
    have := sum_take_add_drop xs w
    simp only [List.map_cons, List.sum_cons] at *
    omega

theorem Tiles.append : ∀ {bs cs : List (Nat × Nat)} {xs ys : List Nat}, Tiles bs xs → Tiles cs ys →
    Tiles (bs ++ cs) (xs ++ ys)
  | [], _, _, _, h, h' => by simpa [show _ = [] from h] using h'
  | (w, v) :: bs, _, xs, _, ⟨hw, hv, h⟩, h' => by
    refine ⟨by simp; omega, ?_, ?_⟩
    · rw [List.take_append_of_le_length hw, hv]
    · rw [List.drop_append_of_le_length hw]
      exact Tiles.append h h'

/-- Two adjacent buckets of one width fold into one bucket of twice the width. -/
theorem Tiles.merge {w a b : Nat} {post : List (Nat × Nat)} :
    ∀ {pre : List (Nat × Nat)} {xs : List Nat}, Tiles (pre ++ (w, a) :: (w, b) :: post) xs →
      Tiles (pre ++ (w + w, a + b) :: post) xs
  | [], xs, ⟨hw, ha, hw', hb, h⟩ => by
    simp only [List.length_drop, List.drop_drop] at hw' h
    refine ⟨by omega, ?_, h⟩
    rw [List.take_add, List.sum_append, ha, hb]
  | (w', v) :: pre, xs, ⟨hw, hv, h⟩ => ⟨hw, hv, Tiles.merge h⟩

/-- With every reward in `{0, 1}`, the window's total is at most its length. -/
theorem sum_le_length : ∀ {xs : List Nat}, (∀ x ∈ xs, x ≤ 1) → xs.sum ≤ xs.length
  | [], _ => by simp
  | x :: xs, h => by
    have := sum_le_length (fun y hy => h y (List.mem_cons_of_mem x hy))
    have := h x (List.mem_cons_self x xs)
    simp only [List.sum_cons, List.length_cons]
    omega

theorem Tiles.scanExact : ∀ {bs : List (Nat × Nat)} {xs : List Nat}, Tiles bs xs →
    ScanExact bs xs.length xs.sum
  | [], _, _ => trivial
  | (w, v) :: bs, xs, ⟨hw, hv, h⟩ => by
    have := sum_take_add_drop xs w
    refine ⟨hw, by omega, ?_⟩
    have e1 : xs.length - w = (xs.drop w).length := by simp
    have e2 : xs.sum - v = (xs.drop w).sum := by omega
    rw [e1, e2]
    exact Tiles.scanExact h

/-! ## Buckets of the node list -/

theorem buckets_append_last (t : List Nat) : ∀ (l : List (List Nat)) (k : Nat),
    buckets k (l ++ [t]) = t.map (fun v => (2 ^ (k + l.length), v)) ++ buckets k l
  | [], k => by simp [buckets]
  | n :: l, k => by
    rw [List.cons_append, buckets, buckets_append_last t l (k + 1), buckets, List.append_assoc,
      List.length_cons, show k + 1 + l.length = k + (l.length + 1) by omega]

theorem scanFrom_reverse : ∀ (l : List (List Nat)) (e : Nat), l.length = e + 1 →
    scanFrom e l.reverse = buckets 0 l := by
  intro l
  induction l using List.reverseRecOn with
  | nil => intro e h; simp at h
  | append_singleton l t ih =>
    intro e h
    simp only [List.length_append, List.length_singleton] at h
    obtain rfl : e = l.length := by omega
    rw [List.reverse_append, List.reverse_singleton, List.singleton_append, scanFrom,
      buckets_append_last, Nat.zero_add]
    congr 1
    cases l with
    | nil => simp [buckets, scanFrom]
    | cons n l => exact ih _ rfl

theorem scanOrder_eq {a : Adwin} (h : a.nodes.length = a.lastNodeIdx + 1) :
    scanOrder a = buckets 0 a.nodes :=
  scanFrom_reverse a.nodes a.lastNodeIdx h


/-! ## `adwin_normlize_buckets` -/

/-- The nodes past the head: each holds between one and `ADWIN_M` buckets. -/
def NodesOk (m : Nat) (l : List (List Nat)) : Prop := ∀ n ∈ l, n.length ≤ m ∧ n ≠ []

/-- The fold cascade keeps the tiling: the folded bucket covers the two it replaces. -/
theorem normlize_tiles {m : Nat} (hm : 1 ≤ m) : ∀ (nodes : List (List Nat)) (c : Option Nat) (k : Nat)
    (post : List (Nat × Nat)) (xs : List Nat),
    Tiles (buckets k nodes ++ c.toList.map (fun v => (2 ^ k, v)) ++ post) xs →
    Tiles (buckets k (normlize m c nodes).1 ++ post) xs
  | [], none, _, _, _, h => by simpa [normlize, buckets] using h
  | [], some _, _, _, _, h => by simpa [normlize, buckets] using h
  | node :: rest, c, k, post, xs, h => by
    simp only [normlize]
    split
    · simpa [buckets, List.map_append, List.append_assoc] using h
    · rename_i hlen
      obtain ⟨a, b, tl, e⟩ : ∃ a b tl, node ++ c.toList = a :: b :: tl := by
        match hn : node ++ c.toList with
        | a :: b :: tl => exact ⟨a, b, tl, rfl⟩
        | [] => rw [hn] at hlen; simp at hlen
        | [_] => rw [hn] at hlen; simp at hlen; omega
      have h' : Tiles (buckets (k + 1) rest ++ (node ++ c.toList).map (fun v => (2 ^ k, v)) ++ post) xs := by
        simpa [buckets, List.map_append, List.append_assoc] using h
      rw [e] at h' ⊢
      have h'' : Tiles (buckets (k + 1) rest ++ (2 ^ k, a) :: (2 ^ k, b) ::
          (tl.map (fun v => (2 ^ k, v)) ++ post)) xs := by
        simpa [List.append_assoc] using h'
      simp only [List.getD_cons_zero, List.getD_cons_succ, List.drop_succ_cons, List.drop_zero,
        buckets, List.append_assoc]
      apply normlize_tiles hm rest (some (a + b)) (k + 1)
      simpa [Nat.pow_succ, Nat.mul_two] using Tiles.merge h''

/-- The shape after the cascade: every node within `ADWIN_M`, and every node it reaches other
than the first keeps at least one bucket (this is where `ADWIN_M ≥ 2` is needed). -/
theorem normlize_shape {m : Nat} (hm : 2 ≤ m) : ∀ (rest : List (List Nat)) (node : List Nat)
    (c : Option Nat), (node ++ c.toList).length ≤ m + 1 → NodesOk m rest →
    ∃ node' rest', (normlize m c (node :: rest)).1 = node' :: rest' ∧ node'.length ≤ m ∧
      (c.isSome → node' ≠ []) ∧ NodesOk m rest' ∧
      rest'.length = rest.length + (normlize m c (node :: rest)).2.toNat
  | rest, node, c, hlen, hrest => by
    simp only [normlize]
    split
    · rename_i hle
      refine ⟨_, rest, rfl, hle, fun hc => ?_, hrest, by simp⟩
      obtain ⟨v, rfl⟩ := Option.isSome_iff_exists.1 hc
      simp
    · rename_i hgt
      have hl : node.length + c.toList.length = m + 1 := by
        rw [List.length_append] at hlen hgt; omega
      refine ⟨_, _, rfl, by simp only [List.length_drop, List.length_append]; omega, fun _ h0 => ?_, ?_⟩
      · have := congrArg List.length h0
        simp only [List.length_drop, List.length_append, List.length_nil] at this; omega
      · cases rest with
        | nil => exact ⟨fun n hn => by
            rw [List.mem_singleton.1 hn]; exact ⟨by rw [List.length_singleton]; omega, List.cons_ne_nil _ _⟩, rfl⟩
        | cons n2 rest2 =>
          have h2 := (hrest n2 (List.mem_cons_self _ _)).1
          obtain ⟨n', r', e, hn', hne, hr', hlen'⟩ := normlize_shape hm rest2 n2
            (some ((node ++ c.toList).getD 0 0 + (node ++ c.toList).getD 1 0))
            (by simp only [Option.toList_some, List.length_append, List.length_singleton]; omega)
            (fun n hn => hrest n (List.mem_cons_of_mem _ hn))
          rw [e]
          refine ⟨?_, by simp only [List.length_cons, hlen']; omega⟩
          intro n hn
          rcases List.mem_cons.1 hn with rfl | hn
          · exact ⟨hn', hne rfl⟩
          · exact hr' n hn


/-! ## Each operation keeps the state well formed -/

theorem wellFormed_init (m : Nat) : Adwin.init.WellFormed m [] :=
  ⟨rfl, by simp [Adwin.init], by simp [Adwin.init], rfl, rfl, rfl⟩

theorem Adwin.WellFormed.setNumAdd {m : Nat} {a : Adwin} {w : List Nat} (h : a.WellFormed m w)
    (k : Nat) : ({ a with numAdd := k }).WellFormed m w :=
  ⟨h.1, h.2, h.3, h.4, h.5, h.6⟩

/-- Appending the reward to the head and running the fold cascade. -/
theorem wellFormed_addToHead {m : Nat} (hm : 2 ≤ m) {a : Adwin} {w : List Nat} (r : Nat)
    (h : a.WellFormed m w) :
    (adwinNormlizeBuckets m
      { a with W := a.W + 1, sum := a.sum + r, nodes := addToHead r a.nodes }).WellFormed m
      (w ++ [r]) := by
  obtain ⟨hlen, hle, hne, ht, hW, hs⟩ := h
  cases a with | mk nodes L W sum numAdd =>
  cases nodes with
  | nil => simp at hlen
  | cons head rest =>
  simp only [List.length_cons, List.tail_cons] at hlen hne ht hW hs
  have hrest : NodesOk m rest := fun n hn => ⟨hle n (List.mem_cons_of_mem _ hn), hne n hn⟩
  obtain ⟨n', r', e, hn', -, hr', hlen'⟩ := normlize_shape hm rest (head ++ [r]) none
    (by simpa using hle head (List.mem_cons_self _ _)) hrest
  have htiles : Tiles (buckets 0 ((head ++ [r]) :: rest) ++ none.toList.map (fun v => (2 ^ 0, v)) ++ [])
      (w ++ [r]) := by
    have := Tiles.append ht (show Tiles [(1, r)] [r] from ⟨by simp, by simp, rfl⟩)
    simpa [buckets, List.append_assoc] using this
  have ht' := normlize_tiles (show 1 ≤ m by omega) _ none 0 [] _ htiles
  simp only [adwinNormlizeBuckets, addToHead] at ht' ⊢
  rw [e] at ht' ⊢
  refine ⟨?_, ?_, fun n hn => (hr' n hn).2, by simpa using ht', by simp [hW], by simp [hs]⟩
  · revert hlen'
    cases (normlize m none ((head ++ [r]) :: rest)).2 <;> simp <;> omega
  · intro n hn
    rcases List.mem_cons.1 hn with rfl | hn
    · exact hn'
    · exact (hr' n hn).1

/-- A well-formed ADWIN with some bucket has a nonempty tail node. -/
theorem Adwin.WellFormed.last_cons {m : Nat} {a : Adwin} {w : List Nat} (h : a.WellFormed m w)
    (hb : buckets 0 a.nodes ≠ []) :
    ∃ init t0 trest, a.nodes = init ++ [t0 :: trest] ∧ init.length = a.lastNodeIdx := by
  have hnil : a.nodes ≠ [] := by intro e; have := h.length_nodes; rw [e] at this; simp at this
  obtain ⟨init, t, e⟩ : ∃ init t, a.nodes = init ++ [t] :=
    ⟨_, _, (List.dropLast_append_getLast hnil).symm⟩
  have hL : init.length = a.lastNodeIdx := by have := h.length_nodes; rw [e] at this; simpa using this
  refine ⟨init, ?_⟩
  cases t with
  | cons t0 trest => exact ⟨t0, trest, e, hL⟩
  | nil =>
    cases init with
    | nil => rw [e] at hb; simp [buckets] at hb
    | cons i0 init => exact absurd rfl (h.node_ne [] (by simp [e]))

/-- `adwin_expire_last_window` drops the oldest bucket, i.e. the first `2^last_node_idx`
rewards of the window. -/
theorem wellFormed_expire {m : Nat} {a : Adwin} {w : List Nat} (h : a.WellFormed m w)
    (hb : buckets 0 a.nodes ≠ []) :
    (adwinExpireLastWindow a).WellFormed m (w.drop (2 ^ a.lastNodeIdx)) := by
  obtain ⟨init, t0, trest, e, hL⟩ := h.last_cons hb
  obtain ⟨hlen, hle, hne, ht, hW, hs⟩ := h
  cases a with | mk nodes L W sum numAdd =>
  simp only at e hL hlen hle hne ht hW hs ⊢
  subst e
  rw [buckets_append_last, Nat.zero_add, hL] at ht
  obtain ⟨h2, hv, ht'⟩ := ht
  have hsum := sum_take_add_drop w (2 ^ L)
  simp only [adwinExpireLastWindow, List.getLastD_concat, List.dropLast_concat, List.getD_cons_zero,
    List.drop_succ_cons, List.drop_zero, List.length_append, List.length_singleton]
  split
  · rename_i hc
    obtain ⟨rfl, hc⟩ := hc
    refine ⟨by dsimp only; simp only [List.length_append, List.length_singleton] at hlen; omega,
      fun n hn => hle n (by simp [hn]), fun n hn => hne n ?_, by simpa using ht', by simp; omega,
      by simp; omega⟩
    rw [List.tail_append_of_ne_nil (by rintro rfl; simp at hc)]
    exact List.mem_append_left _ hn
  · rename_i hc
    refine ⟨by simp; omega, fun n hn => ?_, fun n hn => ?_, ?_, by simp; omega, by simp; omega⟩
    · rcases List.mem_append.1 hn with hn | hn
      · exact hle n (by simp [hn])
      · simp at hn; subst hn
        have := hle (t0 :: n) (by simp); simp at this; omega
    · cases init with
      | nil => simp at hn
      | cons i0 init =>
        simp only [List.cons_append, List.tail_cons, List.mem_append, List.mem_singleton] at hn
        rcases hn with hn | rfl
        · exact hne n (by simp [hn])
        · intro e
          exact hc ⟨e, by simp only [List.cons_append, List.length_cons, List.length_append]; omega⟩
    · rw [buckets_append_last, Nat.zero_add, hL]; exact ht'

theorem bucketCount_expire {m : Nat} {a : Adwin} {w : List Nat} (h : a.WellFormed m w)
    (hb : buckets 0 a.nodes ≠ []) : bucketCount (adwinExpireLastWindow a) + 1 = bucketCount a := by
  obtain ⟨init, t0, trest, e, -⟩ := h.last_cons hb
  simp only [adwinExpireLastWindow, bucketCount, e, List.getLastD_concat, List.dropLast_concat,
    List.drop_succ_cons, List.drop_zero]
  split
  · rename_i hc; rw [hc.1]; simp
  · simp; omega

/-- A pass that drops has scanned at least one bucket. -/
theorem Adwin.WellFormed.buckets_ne {cfg : AdwinCfg} {sd : ShouldDrop} {a : Adwin} {w : List Nat}
    (h : a.WellFormed cfg.m w) (hscan : dropScan cfg sd a.W a.sum (scanOrder a) 0 0 a.W a.sum) :
    buckets 0 a.nodes ≠ [] := by
  rw [← scanOrder_eq h.length_nodes]; intro e; rw [e] at hscan; simp [dropScan] at hscan

theorem wellFormed_dropLoop (cfg : AdwinCfg) (sd : ShouldDrop) : ∀ (fuel : Nat) {a : Adwin}
    {w : List Nat}, a.WellFormed cfg.m w →
    ∃ w', w' <:+ w ∧ (dropLoop cfg sd fuel a).WellFormed cfg.m w'
  | 0, _, w, h => ⟨w, List.suffix_refl w, h⟩
  | fuel + 1, a, w, h => by
    simp only [dropLoop]
    split
    · rename_i hscan
      split
      · exact ⟨[], List.nil_suffix, wellFormed_init cfg.m⟩
      · obtain ⟨w', hs, h'⟩ := wellFormed_dropLoop cfg sd fuel (wellFormed_expire h (h.buckets_ne hscan))
        exact ⟨w', hs.trans (List.drop_suffix _ _), h'⟩
    · exact ⟨w, List.suffix_refl w, h⟩

theorem wellFormed_dropLastTillIdentical (cfg : AdwinCfg) (sd : ShouldDrop) {a : Adwin}
    {w : List Nat} (h : a.WellFormed cfg.m w) :
    ∃ w', w' <:+ w ∧ (adwinDropLastTillIdentical cfg sd a).WellFormed cfg.m w' := by
  unfold adwinDropLastTillIdentical
  split
  · exact ⟨w, List.suffix_refl w, h⟩
  · exact wellFormed_dropLoop cfg sd _ h

/-- One `adwin_add_elem`: the window gains the reward and may lose old rewards. -/
theorem wellFormed_addElem (cfg : AdwinCfg) (sd : ShouldDrop) {a : Adwin} {w : List Nat} (r : Bool)
    (h : a.WellFormed cfg.m w) :
    ∃ w', w' <:+ w ++ [r.toNat] ∧ (adwinAddElem cfg sd a r).WellFormed cfg.m w' := by
  have h1 := wellFormed_addToHead cfg.two_le_m r.toNat h
  simp only [adwinAddElem]
  split
  · exact wellFormed_dropLastTillIdentical cfg sd h1
  · split
    · exact wellFormed_dropLastTillIdentical cfg sd (h1.setNumAdd 0)
    · exact ⟨_, List.suffix_refl _, h1.setNumAdd _⟩

theorem wellFormed_foldl (cfg : AdwinCfg) (sd : ShouldDrop) : ∀ (rs : List Bool) {a : Adwin}
    {pre w : List Nat}, w <:+ pre → a.WellFormed cfg.m w →
    ∃ w', w' <:+ pre ++ rs.map Bool.toNat ∧ (rs.foldl (adwinAddElem cfg sd) a).WellFormed cfg.m w'
  | [], _, _, w, hs, h => ⟨w, by simpa using hs, h⟩
  | r :: rs, _, _, w, hs, h => by
    obtain ⟨w1, hs1, h1⟩ := wellFormed_addElem cfg sd r h
    obtain ⟨t, rfl⟩ := hs
    have hs2 : w1 <:+ (t ++ w) ++ [r.toNat] := hs1.trans ⟨t, by simp⟩
    obtain ⟨w', hs', h'⟩ := wellFormed_foldl cfg sd rs hs2 h1
    exact ⟨w', by simpa using hs', h'⟩

/-- A well-formed state's scan takes away no more than is left at each bucket. -/
theorem Adwin.WellFormed.scanExact {m : Nat} {a : Adwin} {w : List Nat} (h : a.WellFormed m w) :
    ScanExact (scanOrder a) a.W a.sum := by
  rw [scanOrder_eq h.length_nodes, h.W_eq, h.sum_eq]
  exact h.tiles.scanExact

/-- A window taken from a stream of `0/1` rewards totals at most its length. -/
theorem Adwin.WellFormed.sum_le {m : Nat} {a : Adwin} {w : List Nat} (h : a.WellFormed m w)
    {rs : List Bool} (hs : w <:+: rs.map Bool.toNat) : a.sum ≤ a.W := by
  rw [h.W_eq, h.sum_eq]
  refine sum_le_length fun x hx => ?_
  obtain ⟨b, -, rfl⟩ := List.mem_map.1 (hs.subset hx)
  exact Bool.toNat_le b

theorem dropLoopScans_wellFormed (cfg : AdwinCfg) (sd : ShouldDrop) : ∀ (fuel : Nat) {a : Adwin}
    {w : List Nat}, a.WellFormed cfg.m w →
    ∀ b ∈ dropLoopScans cfg sd fuel a, ∃ w', w' <:+ w ∧ b.WellFormed cfg.m w'
  | 0, _, _, _, _, hb => absurd hb (List.not_mem_nil _)
  | fuel + 1, a, w, h, b, hb => by
    rw [dropLoopScans, List.mem_cons] at hb
    rcases hb with rfl | hb
    · exact ⟨w, List.suffix_refl w, h⟩
    · split at hb
      · rename_i hscan
        rw [Bool.and_eq_true] at hscan
        obtain ⟨w', hs, h'⟩ := dropLoopScans_wellFormed cfg sd fuel
          (wellFormed_expire h (h.buckets_ne hscan.1)) b hb
        exact ⟨w', hs.trans (List.drop_suffix _ _), h'⟩
      · exact absurd hb (List.not_mem_nil _)

theorem adwinDropScans_wellFormed (cfg : AdwinCfg) (sd : ShouldDrop) {a : Adwin} {w : List Nat}
    (h : a.WellFormed cfg.m w) : ∀ b ∈ adwinDropScans cfg sd a, ∃ w', w' <:+ w ∧ b.WellFormed cfg.m w' := by
  unfold adwinDropScans
  split
  · exact fun b hb => absurd hb (List.not_mem_nil _)
  · exact dropLoopScans_wellFormed cfg sd _ h

/-- Every state the scans of one `adwin_add_elem` read is well formed, over a suffix of the window
with the reward appended. -/
theorem adwinAddElemScans_wellFormed (cfg : AdwinCfg) (sd : ShouldDrop) {a : Adwin} {w : List Nat}
    (r : Bool) (h : a.WellFormed cfg.m w) :
    ∀ b ∈ adwinAddElemScans cfg sd a r, ∃ w', w' <:+ w ++ [r.toNat] ∧ b.WellFormed cfg.m w' := by
  have h1 := wellFormed_addToHead cfg.two_le_m r.toNat h
  simp only [adwinAddElemScans]
  split
  · exact adwinDropScans_wellFormed cfg sd h1
  · split
    · exact adwinDropScans_wellFormed cfg sd (h1.setNumAdd 0)
    · exact fun b hb => absurd hb (List.not_mem_nil _)

/-- Every state a scan reads during a stream is well formed over a block of the stream. -/
theorem adwinRunScans_wellFormed (cfg : AdwinCfg) (sd : ShouldDrop) : ∀ (rs : List Bool) {a : Adwin}
    {pre w : List Nat}, w <:+ pre → a.WellFormed cfg.m w →
    ∀ b ∈ adwinRunScans cfg sd rs a, ∃ w', w' <:+: pre ++ rs.map Bool.toNat ∧ b.WellFormed cfg.m w'
  | [], _, _, _, _, _, _, hb => absurd hb (List.not_mem_nil _)
  | r :: rs, a, pre, w, hs, h, b, hb => by
    obtain ⟨t, rfl⟩ := hs
    have hpre : w ++ [r.toNat] <:+ t ++ w ++ [r.toNat] := ⟨t, by simp⟩
    rw [adwinRunScans, List.mem_append] at hb
    rcases hb with hb | hb
    · obtain ⟨w', hs', h'⟩ := adwinAddElemScans_wellFormed cfg sd r h b hb
      exact ⟨w', (hs'.trans hpre).isInfix.trans ⟨[], rs.map Bool.toNat, by simp⟩, h'⟩
    · obtain ⟨w1, hs1, h1⟩ := wellFormed_addElem cfg sd r h
      obtain ⟨w', hs', h'⟩ := adwinRunScans_wellFormed cfg sd rs (hs1.trans hpre) h1 b hb
      exact ⟨w', by simpa using hs', h'⟩

/-! ## The run -/

/-- **ADWIN stays well formed.** For `ADWIN_M ≥ 2`, every stream of `0/1` rewards, every
outcome of the change test and every drop interval and resetting mode: the buckets tile a
suffix `window` of the stream with `W = |window|` and `sum = Σ window`, every node holds at most
`ADWIN_M` buckets and every node past the head at least one; so `sum ≤ W` (`W - sum + 1` in
`adsts_select_arm` does not wrap) and `adwin_get_estimation` is the window's mean. In every
state a pass of the drop scan reads, after the add and after each expiry, `sum ≤ W` and the
scan's `n1 -= 2^exp`, `s1 -= bucket` never wrap. -/
theorem adwin_run_well_formed (cfg : AdwinCfg) (sd : ShouldDrop) (rs : List Bool) :
    (∃ window, window <:+ rs.map Bool.toNat ∧ (adwinRun cfg sd rs).WellFormed cfg.m window ∧
      (adwinRun cfg sd rs).sum ≤ (adwinRun cfg sd rs).W ∧
      adwinGetEstimation (adwinRun cfg sd rs) = (window.sum : ℚ) / window.length) ∧
    ∀ b ∈ adwinRunScans cfg sd rs Adwin.init, b.sum ≤ b.W ∧ ScanExact (scanOrder b) b.W b.sum := by
  refine ⟨?_, fun b hb => ?_⟩
  · obtain ⟨w, hs, h⟩ := wellFormed_foldl cfg sd rs (List.nil_suffix : [] <:+ ([] : List Nat))
      (wellFormed_init cfg.m)
    rw [List.nil_append] at hs
    unfold adwinRun
    refine ⟨w, hs, h, h.sum_le hs.isInfix, ?_⟩
    unfold adwinGetEstimation
    split
    · rw [h.W_eq, h.sum_eq]
    · rename_i hW
      have hw : w = [] := List.eq_nil_of_length_eq_zero (by rw [← h.W_eq]; omega)
      simp [hw, div_zero]
  · obtain ⟨w, hs, h⟩ := adwinRunScans_wellFormed cfg sd rs (List.nil_suffix : [] <:+ ([] : List Nat))
      (wellFormed_init cfg.m) b hb
    rw [List.nil_append] at hs
    exact ⟨h.sum_le hs, h.scanExact⟩


/-- The fuel `bucketCount + 1` of `adwin_drop_last_till_identical` is never exhausted: every
pass that drops removes one bucket, so more fuel changes nothing. -/
theorem dropLoop_fuel_enough (cfg : AdwinCfg) (sd : ShouldDrop) : ∀ (f : Nat) {a : Adwin}
    {w : List Nat}, a.WellFormed cfg.m w → bucketCount a < f →
    dropLoop cfg sd (f + 1) a = dropLoop cfg sd f a
  | 0, _, _, _, hf => absurd hf (Nat.not_lt_zero _)
  | f + 1, a, w, h, hf => by
    conv_lhs => rw [dropLoop]
    conv_rhs => rw [dropLoop]
    split
    · rename_i hscan
      split
      · rfl
      · have hb := h.buckets_ne hscan
        exact dropLoop_fuel_enough cfg sd f (wellFormed_expire h hb)
          (by have := bucketCount_expire h hb; omega)
    · rfl

end FuzzOne
