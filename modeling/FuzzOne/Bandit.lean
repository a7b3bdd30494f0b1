import Mathlib.Algebra.Order.Field.Rat
import Mathlib.Data.List.GetD
import Mathlib.Tactic.Linarith
import FuzzOne.Adwin
import FuzzOne.Basic
/-!
# The mutation-operator bandits (afl-fuzz-one.c:408-747)

The six selectors the havoc stage can be built with (`uniform`, `ucb`, `ts`, `dts`, `adsts`,
`dbe`) as one tagged state `MutBandit`, with `select_arm` and `add_reward` as the source computes
them. Floating-point state is kept in `ℚ`. The random draws enter through their contracts: a
Beta sample lies in `[0, 1]` (`BetaDraws`), `gsl_ran_discrete` returns an index of nonzero
weight (`DiscreteSampler`), and `rand_below` is `Rng.below`. UCB's bonus
`sqrt(2 * log(t) / n)` is a nonnegative number once `t ≥ 1` and NaN for `t = 0`
(`log 0 = -inf`), which is all the selection reads of it (`UcbBonus`).

`MutBandit.select_some_unmasked`: from every state reachable by `select_arm` and `add_reward`
calls (`MutBandit.run`, invariant `MutBandit.Inv`), with at least one arm unmasked, every selector
returns an unmasked arm below `n_arms`. For `ucb` this needs the reachable-state fact that
`time_step` counts every reward, so no arm with a pull meets `t = 0` and a NaN bonus
(`selected_idx` would be read uninitialised).
-/
namespace FuzzOne

/-- `normal_bandit_arm` (`ucb`, `ts`) and `uniform_bandit_arm`. -/
structure NormalArm where
  numSelected : Nat
  totalRewards : Nat
  sampleMean : ℚ
deriving Inhabited

/-- `dts_bandit_arm`. -/
structure DtsArm where
  numSelected : Nat
  numRewarded : Nat
  totalRewards : ℚ
  totalLosses : ℚ
deriving Inhabited

/-- `dbe_bandit_arm`. -/
structure DbeArm where
  numSelected : Nat
  numRewarded : Nat
  totalRewards : ℚ
  disNumSelected : ℚ
  sampleMean : ℚ
deriving Inhabited

/-- `adwin_bandit_arm`. -/
structure AdwinArm where
  numSelected : Nat
  totalRewards : Nat
  adwin : Adwin

instance : Inhabited AdwinArm := ⟨⟨0, 0, Adwin.init⟩⟩

/-- A mutation bandit: which algorithm, with its state. `ucb` also keeps `time_step`. -/
inductive MutBandit
  | uniform (arms : List NormalArm)
  | ucb (timeStep : Nat) (arms : List NormalArm)
  | ts (arms : List NormalArm)
  | dts (arms : List DtsArm)
  | adsts (arms : List AdwinArm)
  | dbe (arms : List DbeArm)

/-- The build's constants: `DTS_GAMMA`, `DBE_GAMMA`, `OPTIMISTIC_DTS`, and the ADWIN of the
`adsts` arms with its change test. -/
structure BanditCfg where
  dtsGamma : ℚ
  dbeGamma : ℚ
  optimisticDts : Bool
  adwin : AdwinCfg
  shouldDrop : ShouldDrop

/-- One Beta sample per arm, each in `[0, 1]`. -/
structure BetaDraws where
  val : Nat → ℚ
  mem : ∀ i, 0 ≤ val i ∧ val i ≤ 1

/-- `gsl_ran_discrete` on `n` weights, given by which are nonzero. -/
structure DiscreteSampler where
  pick : (Nat → Bool) → Nat → Nat
  pick_spec : ∀ w n, (∃ i < n, w i = true) → pick w n < n ∧ w (pick w n) = true

/-- The float value of `sqrt(2 * log(t) / n)`: `none` is NaN. -/
structure UcbBonus where
  val : Nat → Nat → Option ℚ
  val_pos : ∀ t n, 0 < t → 0 < n → ∃ q, val t n = some q ∧ 0 ≤ q

/-- The random outcomes one `select_arm` call consumes. -/
structure Draws where
  rng : Rng
  beta : BetaDraws
  discrete : DiscreteSampler
  bonus : UcbBonus

/-! ## `select_arm` -/

/-- The loop of `uniform_select_arm`: the `k`-th unmasked arm, `none` at `assert(0)`. -/
def uniformPick (mask : Nat → Bool) : List Nat → Nat → Option Nat
  | [], _ => none
  | i :: is, k =>
    if mask i then uniformPick mask is k else if k = 0 then some i else uniformPick mask is (k - 1)

def countUnmasked (mask : Nat → Bool) (n : Nat) : Nat := ((List.range n).filter fun i => !mask i).length

/-- `uniform_select_arm`. -/
def uniformSelectArm (g : Rng) (n : Nat) (mask : Nat → Bool) : Option Nat :=
  uniformPick mask (List.range n) (g.below (countUnmasked mask n)).1

/-- The `for` loop of `ts_select_arm`, `dts_select_arm` and `adsts_select_arm`: the first arm
with the largest sample among the unmasked, from `max_sampled = -1`, `selected_idx = 0`. -/
def argmaxLoop (mask : Nat → Bool) (sample : Nat → ℚ) : List Nat → ℚ → Nat → Nat
  | [], _, sel => sel
  | i :: is, best, sel =>
    if mask i then argmaxLoop mask sample is best sel
    else if best < sample i then argmaxLoop mask sample is (sample i) i
    else argmaxLoop mask sample is best sel

/-- The loop of `ucb_select_arm`: an unseen arm is returned at once; `none` is a
`selected_idx` never assigned. A NaN score never compares greater. -/
def ucbLoop (bonus : UcbBonus) (t : Nat) (arms : List NormalArm) (mask : Nat → Bool) :
    List Nat → ℚ → Option Nat → Option Nat
  | [], _, sel => sel
  | i :: is, best, sel =>
    if mask i then ucbLoop bonus t arms mask is best sel
    else
      let arm := arms.getD i default
      if arm.numSelected = 0 then some i
      else match bonus.val t arm.numSelected with
        | none => ucbLoop bonus t arms mask is best sel
        | some b =>
          if best < arm.sampleMean + b then ucbLoop bonus t arms mask is (arm.sampleMean + b) (some i)
          else ucbLoop bonus t arms mask is best sel

/-- The dOTS clamp of `dts_select_arm` under `OPTIMISTIC_DTS`: `max(sample, a / (a + b))`. -/
def dtsSample (cfg : BanditCfg) (arms : List DtsArm) (beta : BetaDraws) (i : Nat) : ℚ :=
  let a := (arms.getD i default).totalRewards + 1
  let b := (arms.getD i default).totalLosses + 1
  if cfg.optimisticDts ∧ beta.val i < a / (a + b) then a / (a + b) else beta.val i

theorem le_dtsSample (cfg : BanditCfg) (arms : List DtsArm) (beta : BetaDraws) (i : Nat) :
    beta.val i ≤ dtsSample cfg arms beta i := by
  unfold dtsSample; dsimp only
  split
  · exact le_of_lt ‹_ ∧ _›.2
  · exact le_refl _

/-- `dbe_select_arm`'s reduction coefficient `1 / (2 * max_avg)` over the unmasked arms that
have been pulled, and its reset of every arm when it exceeds `1 << 30`. -/
def dbeMaxAvg (arms : List DbeArm) (mask : Nat → Bool) : ℚ :=
  ((List.range arms.length).filter fun i => !mask i && decide (0 < (arms.getD i default).disNumSelected)).foldl
    (fun m i => if m < (arms.getD i default).sampleMean then (arms.getD i default).sampleMean else m) 0

def dbeRedcoef (arms : List DbeArm) (mask : Nat → Bool) : ℚ :=
  if 0 < dbeMaxAvg arms mask then 1 / (2 * dbeMaxAvg arms mask) else 1

def dbeReset (arms : List DbeArm) : List DbeArm :=
  arms.map fun a => { a with totalRewards := 1, disNumSelected := 1, sampleMean := 1 }

/-- `dbe_select_arm`: an unmasked arm never pulled (`dis_num_selected <= 0`) uniformly, without
discounting; otherwise `gsl_ran_discrete` over `w[i] = pow(2, cur)`, which is positive for every
unmasked arm and `0` (from `calloc`) for a masked one, then every arm discounted. -/
def dbeSelectArm (cfg : BanditCfg) (d : Draws) (arms : List DbeArm) (mask : Nat → Bool) :
    Nat × List DbeArm :=
  let n := arms.length
  let arms := if 2 ^ 30 < dbeRedcoef arms mask then dbeReset arms else arms
  let indices := (List.range n).filter fun i => !mask i && decide ((arms.getD i default).disNumSelected ≤ 0)
  if 0 < indices.length then (indices.getD (d.rng.below indices.length).1 0, arms)
  else
    (d.discrete.pick (fun i => !mask i) n,
      arms.map fun a => { a with totalRewards := a.totalRewards * cfg.dbeGamma,
                                 disNumSelected := a.disNumSelected * cfg.dbeGamma })

/-- `SELECT_ARM(MUT_ALG)(afl, mut_bandit, mask)`: the arm (`none` where the C result is
undefined) and the bandit after the call. -/
def MutBandit.selectArm (cfg : BanditCfg) (d : Draws) (mask : Nat → Bool) :
    MutBandit → Option Nat × MutBandit
  | .uniform arms => (uniformSelectArm d.rng arms.length mask, .uniform arms)
  | .ucb t arms => (ucbLoop d.bonus t arms mask (List.range arms.length) (-1) none, .ucb t arms)
  | .ts arms => (some (argmaxLoop mask d.beta.val (List.range arms.length) (-1) 0), .ts arms)
  | .dts arms =>
    (some (argmaxLoop mask (dtsSample cfg arms d.beta) (List.range arms.length) (-1) 0),
      .dts (arms.map fun a => { a with totalRewards := a.totalRewards * cfg.dtsGamma,
                                       totalLosses := a.totalLosses * cfg.dtsGamma }))
  | .adsts arms => (some (argmaxLoop mask d.beta.val (List.range arms.length) (-1) 0), .adsts arms)
  | .dbe arms => let r := dbeSelectArm cfg d arms mask; (some r.1, .dbe r.2)

/-! ## `add_reward` -/

/-- `uniform_add_reward`: no mean. -/
def NormalArm.count (a : NormalArm) (r : Bool) : NormalArm :=
  ⟨a.numSelected + 1, a.totalRewards + r.toNat, a.sampleMean⟩

/-- `ucb_add_reward` / `ts_add_reward` on the arm. -/
def NormalArm.reward (a : NormalArm) (r : Bool) : NormalArm :=
  ⟨a.numSelected + 1, a.totalRewards + r.toNat,
    ((a.totalRewards + r.toNat : Nat) : ℚ) / (a.numSelected + 1 : Nat)⟩

/-- `dts_add_reward`. -/
def DtsArm.reward (a : DtsArm) (r : Bool) : DtsArm :=
  ⟨a.numSelected + 1, a.numRewarded + r.toNat, a.totalRewards + r.toNat,
    a.totalLosses + (1 - r.toNat : Nat)⟩

/-- `dbe_add_reward`. -/
def DbeArm.reward (a : DbeArm) (r : Bool) : DbeArm :=
  ⟨a.numSelected + 1, a.numRewarded + r.toNat, a.totalRewards + r.toNat, a.disNumSelected + 1,
    (a.totalRewards + r.toNat) / (a.disNumSelected + 1)⟩

/-- `adsts_add_reward`: the counters, and the reward fed to the arm's ADWIN. -/
def AdwinArm.reward (cfg : BanditCfg) (a : AdwinArm) (r : Bool) : AdwinArm :=
  ⟨a.numSelected + 1, a.totalRewards + r.toNat, adwinAddElem cfg.adwin cfg.shouldDrop a.adwin r⟩

/-- `ADD_REWARD(MUT_ALG)(mut_bandit, idx, r)`; `ucb_add_reward` also advances `time_step`. -/
def MutBandit.addReward (cfg : BanditCfg) (idx : Nat) (r : Bool) : MutBandit → MutBandit
  | .uniform arms => .uniform (arms.modify (·.count r) idx)
  | .ucb t arms => .ucb (t + 1) (arms.modify (·.reward r) idx)
  | .ts arms => .ts (arms.modify (·.reward r) idx)
  | .dts arms => .dts (arms.modify (·.reward r) idx)
  | .adsts arms => .adsts (arms.modify (·.reward cfg r) idx)
  | .dbe arms => .dbe (arms.modify (·.reward r) idx)

def MutBandit.nArms : MutBandit → Nat
  | .uniform arms | .ucb _ arms | .ts arms => arms.length
  | .dts arms => arms.length
  | .adsts arms => arms.length
  | .dbe arms => arms.length

/-- A bandit as the fuzzer creates it: `n` zeroed arms (an empty ADWIN each). -/
inductive MutAlg | uniform | ucb | ts | dts | adsts | dbe

def MutBandit.init (n : Nat) : MutAlg → MutBandit
  | .uniform => .uniform (List.replicate n ⟨0, 0, 0⟩)
  | .ucb => .ucb 0 (List.replicate n ⟨0, 0, 0⟩)
  | .ts => .ts (List.replicate n ⟨0, 0, 0⟩)
  | .dts => .dts (List.replicate n ⟨0, 0, 0, 0⟩)
  | .adsts => .adsts (List.replicate n default)
  | .dbe => .dbe (List.replicate n ⟨0, 0, 0, 0, 0⟩)

/-- One call the havoc loop makes on a bandit. -/
inductive BanditCall
  | select (d : Draws) (mask : Nat → Bool)
  | reward (idx : Nat) (r : Bool)

def MutBandit.call (cfg : BanditCfg) (b : MutBandit) : BanditCall → MutBandit
  | .select d mask => (b.selectArm cfg d mask).2
  | .reward idx r => b.addReward cfg idx r

/-- The bandit after a sequence of calls: the states reachable from `init`. -/
def MutBandit.run (cfg : BanditCfg) (b : MutBandit) (calls : List BanditCall) : MutBandit :=
  calls.foldl (MutBandit.call cfg) b

/-! ## Every selector picks an unmasked arm -/

theorem uniformPick_spec (mask : Nat → Bool) : ∀ (l : List Nat) (k : Nat),
    k < (l.filter fun i => !mask i).length → ∃ i ∈ l, uniformPick mask l k = some i ∧ mask i = false
  | [], _, h => by simp at h
  | i :: is, k, h => by
    unfold uniformPick
    by_cases hi : mask i = true
    · obtain ⟨j, hj, e, hm⟩ := uniformPick_spec mask is k (by simpa [hi] using h)
      exact ⟨j, List.mem_cons_of_mem _ hj, by simp [hi, e], hm⟩
    · by_cases hk : k = 0
      · exact ⟨i, List.mem_cons_self _ _, by simp [hi, hk], by simpa using hi⟩
      · obtain ⟨j, hj, e, hm⟩ := uniformPick_spec mask is (k - 1)
          (by simp [hi] at h; omega)
        exact ⟨j, List.mem_cons_of_mem _ hj, by simp [hi, hk, e], hm⟩

/-- The argmax loop ends on an unmasked arm of its list once one of them beats the running
maximum. -/
theorem argmaxLoop_spec (mask : Nat → Bool) (sample : Nat → ℚ) (P : Nat → Prop) :
    ∀ (l : List Nat) (best : ℚ) (sel : Nat), (∀ i ∈ l, mask i = false → P i) →
    P sel ∨ (∃ i ∈ l, mask i = false ∧ best < sample i) → P (argmaxLoop mask sample l best sel)
  | [], _, _, _, h => by simpa using h
  | i :: is, best, sel, hP, h => by
    have hP' : ∀ j ∈ is, mask j = false → P j := fun j hj => hP j (List.mem_cons_of_mem _ hj)
    unfold argmaxLoop
    by_cases hi : mask i = true
    · refine if_pos hi ▸ argmaxLoop_spec mask sample P is best sel hP' (h.imp_right ?_)
      rintro ⟨j, hj, hm, hlt⟩
      rcases List.mem_cons.1 hj with rfl | hj
      · simp [hm] at hi
      · exact ⟨j, hj, hm, hlt⟩
    · have hi' : mask i = false := by simpa using hi
      simp only [hi', Bool.false_eq_true, if_false]
      split
      · exact argmaxLoop_spec mask sample P is _ _ hP' (Or.inl (hP i (List.mem_cons_self _ _) hi'))
      · rename_i hlt
        refine argmaxLoop_spec mask sample P is best sel hP' (h.imp_right ?_)
        rintro ⟨j, hj, hm, hlt'⟩
        rcases List.mem_cons.1 hj with rfl | hj
        · exact absurd hlt' hlt
        · exact ⟨j, hj, hm, hlt'⟩

/-- The UCB loop ends on an unmasked arm of its list once one of them is unseen or has a number
score above the running maximum. -/
theorem ucbLoop_spec (bonus : UcbBonus) (t : Nat) (arms : List NormalArm) (mask : Nat → Bool)
    (P : Nat → Prop) : ∀ (l : List Nat) (best : ℚ) (sel : Option Nat),
    (∀ i ∈ l, mask i = false → P i) →
    (∃ s, sel = some s ∧ P s) ∨ (∃ i ∈ l, mask i = false ∧ ((arms.getD i default).numSelected = 0 ∨
      ∃ b, bonus.val t (arms.getD i default).numSelected = some b ∧
        best < (arms.getD i default).sampleMean + b)) →
    ∃ s, ucbLoop bonus t arms mask l best sel = some s ∧ P s
  | [], _, _, _, h => by simpa [ucbLoop] using h
  | i :: is, best, sel, hP, h => by
    have hP' : ∀ j ∈ is, mask j = false → P j := fun j hj => hP j (List.mem_cons_of_mem _ hj)
    -- an `i` that cannot be the promised pick leaves the promise to the rest of the list
    have skip (hni : ¬ (mask i = false ∧ ((arms.getD i default).numSelected = 0 ∨
        ∃ b, bonus.val t (arms.getD i default).numSelected = some b ∧
          best < (arms.getD i default).sampleMean + b))) :
        ∃ s, ucbLoop bonus t arms mask is best sel = some s ∧ P s := by
      refine ucbLoop_spec bonus t arms mask P is best sel hP' (h.imp_right ?_)
      rintro ⟨j, hj, hm, hc⟩
      rcases List.mem_cons.1 hj with rfl | hj
      · exact absurd ⟨hm, hc⟩ hni
      · exact ⟨j, hj, hm, hc⟩
    unfold ucbLoop
    by_cases hi : mask i = true
    · simp only [hi, if_true]
      exact skip (by simp [hi])
    have hi' : mask i = false := by simpa using hi
    have hPi := hP i (List.mem_cons_self _ _) hi'
    simp only [hi', Bool.false_eq_true, if_false]
    split
    · exact ⟨i, rfl, hPi⟩
    rename_i h0
    split
    · rename_i hnan
      exact skip fun ⟨_, hc⟩ => hc.elim h0 fun ⟨_, hb, _⟩ => Option.noConfusion (hnan.symm.trans hb)
    rename_i b hb
    split
    · exact ucbLoop_spec bonus t arms mask P is _ _ hP' (Or.inl ⟨i, rfl, hPi⟩)
    · rename_i hlt
      exact skip fun ⟨_, hc⟩ => hc.elim h0 fun ⟨_, hb', hlt'⟩ => by
        obtain rfl := Option.some.inj (hb.symm.trans hb'); exact hlt hlt'

theorem dbeSelectArm_length (cfg : BanditCfg) (d : Draws) (arms : List DbeArm) (mask : Nat → Bool) :
    (dbeSelectArm cfg d arms mask).2.length = arms.length := by
  have hA : (if 2 ^ 30 < dbeRedcoef arms mask then dbeReset arms else arms).length = arms.length := by
    split <;> simp [dbeReset]
  unfold dbeSelectArm
  generalize (if 2 ^ 30 < dbeRedcoef arms mask then dbeReset arms else arms) = A at hA ⊢
  dsimp only; split <;> simp [hA]

/-- `dbe_select_arm` returns an unmasked arm: from the never-pulled ones, or from
`gsl_ran_discrete` over the unmasked ones. -/
theorem dbeSelectArm_unmasked (cfg : BanditCfg) (d : Draws) (arms : List DbeArm) (mask : Nat → Bool)
    (hm : ∃ i < arms.length, mask i = false) :
    (dbeSelectArm cfg d arms mask).1 < arms.length ∧ mask (dbeSelectArm cfg d arms mask).1 = false := by
  unfold dbeSelectArm
  generalize (if 2 ^ 30 < dbeRedcoef arms mask then dbeReset arms else arms) = A
  dsimp only
  split
  · rename_i hpos
    have hmem := List.getD_eq_getElem _ 0 (d.rng.below_lt hpos) ▸
      List.getElem_mem (d.rng.below_lt hpos)
    simp only [List.mem_filter, List.mem_range, Bool.and_eq_true, Bool.not_eq_true'] at hmem
    exact ⟨hmem.1, hmem.2.1⟩
  · simpa using d.discrete.pick_spec (fun i => !mask i) arms.length (by simpa using hm)

/-- What every reachable bandit keeps: `n_arms` arms, and for `ucb` every arm's pulls counted in
`time_step` and a nonnegative mean. -/
def MutBandit.Inv (n : Nat) : MutBandit → Prop
  | .ucb t arms => arms.length = n ∧ ∀ a ∈ arms, a.numSelected ≤ t ∧ 0 ≤ a.sampleMean
  | b => b.nArms = n

theorem NormalArm.reward_inv {t : Nat} {a : NormalArm} (h : a.numSelected ≤ t ∧ 0 ≤ a.sampleMean)
    (r : Bool) : (a.reward r).numSelected ≤ t + 1 ∧ 0 ≤ (a.reward r).sampleMean :=
  ⟨by simp [NormalArm.reward]; omega, div_nonneg (Nat.cast_nonneg _) (Nat.cast_nonneg _)⟩

theorem MutBandit.inv_call (cfg : BanditCfg) {n : Nat} {b : MutBandit} (h : b.Inv n) :
    ∀ c : BanditCall, (b.call cfg c).Inv n
  | .select d mask => by
    cases b <;> simp_all [MutBandit.call, MutBandit.selectArm, MutBandit.Inv, MutBandit.nArms,
      dbeSelectArm_length]
  | .reward idx r => by
    cases b with
    | ucb t arms =>
      refine ⟨by simpa [MutBandit.call, MutBandit.addReward] using h.1, fun a ha => ?_⟩
      simp only [MutBandit.call, MutBandit.addReward, List.mem_iff_getElem, List.length_modify,
        List.getElem_modify] at ha
      obtain ⟨j, hj, rfl⟩ := ha
      have hj' := h.2 _ (List.getElem_mem hj)
      split
      · exact NormalArm.reward_inv hj' r
      · exact ⟨by omega, hj'.2⟩
    | _ => simpa [MutBandit.call, MutBandit.addReward, MutBandit.Inv, MutBandit.nArms] using h

theorem MutBandit.inv_run (cfg : BanditCfg) (n : Nat) (alg : MutAlg) (calls : List BanditCall) :
    ((MutBandit.init n alg).run cfg calls).Inv n := by
  suffices ∀ (calls : List BanditCall) (b : MutBandit), b.Inv n → (b.run cfg calls).Inv n from
    this calls _ (by cases alg <;> simp [MutBandit.init, MutBandit.Inv, MutBandit.nArms])
  intro calls
  induction calls with
  | nil => exact fun b h => h
  | cons c cs ih => exact fun b h => ih _ (MutBandit.inv_call cfg h c)

/-- **Every selector picks an unmasked arm.** From any state with the invariant, when some arm
below `n_arms` is unmasked, `select_arm` returns an unmasked arm below `n_arms`. -/
theorem MutBandit.select_some_unmasked (cfg : BanditCfg) (d : Draws) (mask : Nat → Bool) {n : Nat}
    {b : MutBandit} (hb : b.Inv n) (hm : ∃ i < n, mask i = false) :
    ∃ i, (b.selectArm cfg d mask).1 = some i ∧ i < n ∧ mask i = false := by
  obtain ⟨j, hj, hmj⟩ := hm
  have hP : ∀ i ∈ List.range n, mask i = false → i < n ∧ mask i = false :=
    fun i hi hm => ⟨List.mem_range.1 hi, hm⟩
  have hjr : j ∈ List.range n := List.mem_range.2 hj
  /- the Thompson samplers: every sample is at least `0`, above the initial `-1` -/
  have argmax (sample : Nat → ℚ) (hs : ∀ i, 0 ≤ sample i) :
      argmaxLoop mask sample (List.range n) (-1) 0 < n ∧
        mask (argmaxLoop mask sample (List.range n) (-1) 0) = false :=
    argmaxLoop_spec mask sample _ _ _ _ hP
      (Or.inr ⟨j, hjr, hmj, by linarith [hs j]⟩)
  have hbeta := fun i => (d.beta.mem i).1
  cases b with
  | uniform arms =>
    simp only [MutBandit.Inv, MutBandit.nArms] at hb; subst hb
    have hpos : 0 < countUnmasked mask arms.length :=
      List.length_pos.2 (List.ne_nil_of_mem (a := j) (by simp [hj, hmj]))
    obtain ⟨i, hi, e, hm⟩ := uniformPick_spec mask _ _ (d.rng.below_lt hpos)
    exact ⟨i, e, List.mem_range.1 hi, hm⟩
  | ucb t arms =>
    obtain ⟨rfl, harms⟩ := hb
    refine ucbLoop_spec d.bonus t arms mask _ _ _ _ hP (Or.inr ⟨j, hjr, hmj, ?_⟩)
    have ha := harms _ (List.getElem_mem hj)
    rw [List.getD_eq_getElem _ _ hj]
    rcases Nat.eq_zero_or_pos arms[j].numSelected with h0 | h0
    · exact Or.inl h0
    · obtain ⟨q, hq, hq0⟩ := d.bonus.val_pos t _ (by omega) h0
      exact Or.inr ⟨q, hq, by linarith [ha.2]⟩
  | ts arms =>
    simp only [MutBandit.Inv, MutBandit.nArms] at hb; subst hb
    exact ⟨_, rfl, argmax _ hbeta⟩
  | dts arms =>
    simp only [MutBandit.Inv, MutBandit.nArms] at hb; subst hb
    exact ⟨_, rfl, argmax _ fun i => (hbeta i).trans (le_dtsSample cfg arms d.beta i)⟩
  | adsts arms =>
    simp only [MutBandit.Inv, MutBandit.nArms] at hb; subst hb
    exact ⟨_, rfl, argmax _ hbeta⟩
  | dbe arms =>
    simp only [MutBandit.Inv, MutBandit.nArms] at hb; subst hb
    exact ⟨_, rfl, dbeSelectArm_unmasked cfg d arms mask ⟨j, hj, hmj⟩⟩

end FuzzOne
