import Mathlib.Data.List.GetD
import Mathlib.Data.List.SplitBy
import FuzzOne.Basic
/-!
# Dictionary tokens collected by `bitflip 1/1` (afl-fuzz-one.c:1858-1968)

| here | there |
| --- | --- |
| `AutoCfg` | `MIN_AUTO_EXTRA`, `MAX_AUTO_EXTRA` |
| `TokenSt` | `a_len`, `u8 a_collect[MAX_AUTO_EXTRA]`, `prev_cksum` |
| `tokenStep` | the block under `(stage_cur & 7) == 7` (afl-fuzz-one.c:1913-1966) |
| `bitflip1Tokens` | the loop over the bytes, `prev_cksum = exec_cksum` at its start |
| `autoTokens` | the maximal runs of bytes with one checksum other than `exec_cksum` |

`cks k` is the trace checksum after the least significant bit of byte `k` is flipped, and the
tokens are what `maybe_add_auto` receives. Started with `a_len = 0`, the loop hands over exactly
the runs of `autoTokens` (`bitflip1Tokens_eq_autoTokens`), the runs of `List.splitBy`.

`a_len` and `a_collect` are set to `0` only where they are declared. In a shadow run the
rare-branch pass jumps back to `re_run` and runs `bitflip 1/1` again with the baseline pass's
`a_len` and `a_collect` (ShadowPasses.lean, `shadow_pass_carries_locals`); the first checksum change
of the second pass then hands the leftover bytes to `maybe_add_auto`
(`bitflip1Tokens_stale_second_pass`).
-/
namespace FuzzOne

structure AutoCfg where
  minAutoExtra : Nat
  maxAutoExtra : Nat

structure TokenSt where
  aLen : Nat
  aCollect : Nat → UInt8
  prevCksum : Nat

/-- `if (a_len < MAX_AUTO_EXTRA) a_collect[a_len] = byte; ++a_len;` -/
def TokenSt.collect (cfg : AutoCfg) (byte : UInt8) (st : TokenSt) : TokenSt :=
  { st with aCollect := if st.aLen < cfg.maxAutoExtra then Function.update st.aCollect st.aLen byte
                        else st.aCollect,
            aLen := st.aLen + 1 }

/-- `if (a_len >= MIN_AUTO_EXTRA && a_len <= MAX_AUTO_EXTRA) maybe_add_auto(afl, a_collect, a_len);` -/
def TokenSt.token (cfg : AutoCfg) (st : TokenSt) : List Buf :=
  if cfg.minAutoExtra ≤ st.aLen ∧ st.aLen ≤ cfg.maxAutoExtra then [(List.range st.aLen).map st.aCollect]
  else []

/-- Byte `byte` at `stage_cur = 8k + 7`, with the checksum `cksum` of its flip. -/
def tokenStep (cfg : AutoCfg) (execCksum : Nat) (isLast : Bool) (byte : UInt8) (cksum : Nat)
    (st : TokenSt) : TokenSt × List Buf :=
  let (st, toks) :=
    if isLast ∧ cksum = st.prevCksum then
      let st := st.collect cfg byte
      (st, st.token cfg)
    else if cksum ≠ st.prevCksum then ({ st with aLen := 0, prevCksum := cksum }, st.token cfg)
    else (st, [])
  (if cksum ≠ execCksum then st.collect cfg byte else st, toks)

/-- The loop over the remaining bytes `ks`; `stage_cur == stage_max - 1` at the last byte. -/
def tokenLoop (cfg : AutoCfg) (execCksum : Nat) (inBuf : Buf) (cks : Nat → Nat) :
    List Nat → TokenSt → List Buf → TokenSt × List Buf
  | [], st, toks => (st, toks)
  | k :: ks, st, toks =>
    let (st, t) := tokenStep cfg execCksum (k + 1 = inBuf.length) (inBuf.getD k 0) (cks k) st
    tokenLoop cfg execCksum inBuf cks ks st (toks ++ t)

/-- `bitflip 1/1` from the `a_len`, `a_collect` it finds: the state it leaves and the tokens. -/
def bitflip1Tokens (cfg : AutoCfg) (execCksum : Nat) (inBuf : Buf) (cks : Nat → Nat) (aLen : Nat)
    (aCollect : Nat → UInt8) : TokenSt × List Buf :=
  tokenLoop cfg execCksum inBuf cks (List.range inBuf.length) ⟨aLen, aCollect, execCksum⟩ []

/-- The token of a run of byte positions: its bytes, when its checksum is not `exec_cksum` and
its length lies in `[MIN_AUTO_EXTRA, MAX_AUTO_EXTRA]`. -/
def runToken (cfg : AutoCfg) (execCksum : Nat) (inBuf : Buf) (cks : Nat → Nat) (run : List Nat) :
    List Buf :=
  if cks (run.headD 0) ≠ execCksum ∧ cfg.minAutoExtra ≤ run.length ∧ run.length ≤ cfg.maxAutoExtra
  then [run.map (inBuf.getD · 0)] else []

/-- The tokens of the maximal runs of equal checksums, in input order. -/
def autoTokens (cfg : AutoCfg) (execCksum : Nat) (inBuf : Buf) (cks : Nat → Nat) : List Buf :=
  ((List.range inBuf.length).splitBy (fun i j => cks i == cks j)).flatMap
    (runToken cfg execCksum inBuf cks)

/-! ## The three branches of a byte -/

section Steps

variable (cfg : AutoCfg) (execCksum : Nat) (byte : UInt8) (cksum : Nat) (st : TokenSt)

/-- A byte that is not the last, with the checksum of the run before it. -/
theorem tokenStep_same (hp : st.prevCksum = cksum) :
    tokenStep cfg execCksum false byte cksum st =
      (if cksum ≠ execCksum then st.collect cfg byte else st, []) := by
  simp [tokenStep, hp]

/-- A byte whose checksum differs from the one before: the run so far is offered, a new one starts. -/
theorem tokenStep_new (isLast : Bool) (hp : st.prevCksum ≠ cksum) :
    tokenStep cfg execCksum isLast byte cksum st =
      (if cksum ≠ execCksum then { st with aLen := 0, prevCksum := cksum }.collect cfg byte
        else { st with aLen := 0, prevCksum := cksum }, st.token cfg) := by
  simp [tokenStep, Ne.symm hp]

/-- The last byte, with the checksum of the run before it: the run with it is offered. -/
theorem tokenStep_last_same (hp : st.prevCksum = cksum) :
    (tokenStep cfg execCksum true byte cksum st).2 = (st.collect cfg byte).token cfg := by
  simp [tokenStep, hp]

end Steps

/-! ## Started from `a_len = 0`, the loop offers the maximal runs -/

/-- The loop state after the bytes up to `ag`, against `List.splitBy.loop`: the run being built is
`(ag :: g).reverse`, the runs before it are `gs.reverse`, and their tokens are out. -/
structure TokenInv (cfg : AutoCfg) (execCksum : Nat) (inBuf : Buf) (cks : Nat → Nat) (ag : Nat)
    (g : List Nat) (gs : List (List Nat)) (st : TokenSt) (toks : List Buf) : Prop where
  prev : st.prevCksum = cks ag
  same : ∀ x ∈ g, cks x = cks ag
  aLen : st.aLen = if cks ag ≠ execCksum then g.length + 1 else 0
  collect : ∀ t < st.aLen, t < cfg.maxAutoExtra →
    st.aCollect t = inBuf.getD ((ag :: g).reverse.getD t 0) 0
  toks : toks = gs.reverse.flatMap (runToken cfg execCksum inBuf cks)

theorem flatMap_reverse_cons {α β : Type} (f : α → List β) (x : α) (xs : List α) :
    (x :: xs).reverse.flatMap f = xs.reverse.flatMap f ++ f x := by
  simp

section Inv

variable {cfg : AutoCfg} {execCksum : Nat} {inBuf : Buf} {cks : Nat → Nat} {ag : Nat}
  {g : List Nat} {gs : List (List Nat)} {st : TokenSt} {toks : List Buf}

theorem TokenInv.head_cksum (h : TokenInv cfg execCksum inBuf cks ag g gs st toks) :
    cks ((ag :: g).reverse.headD 0) = cks ag := by
  obtain ⟨x, xs, hx⟩ := List.exists_cons_of_ne_nil (List.reverse_ne_nil_iff.2 (List.cons_ne_nil ag g))
  have hmem : x ∈ (ag :: g).reverse := hx ▸ List.mem_cons_self x xs
  rw [hx, List.headD_cons]
  rcases List.mem_cons.1 (List.mem_reverse.1 hmem) with rfl | hg
  · rfl
  · exact h.same x hg

/-- The run being built is what `a_collect` offers. -/
theorem TokenInv.token_eq (hmin : 2 ≤ cfg.minAutoExtra)
    (h : TokenInv cfg execCksum inBuf cks ag g gs st toks) :
    st.token cfg = runToken cfg execCksum inBuf cks (ag :: g).reverse := by
  unfold TokenSt.token runToken
  rw [h.head_cksum, List.length_reverse, List.length_cons, h.aLen]
  by_cases hc : cks ag = execCksum
  · simp [hc]; omega
  · simp only [hc, ne_eq, not_false_eq_true, if_true, true_and]
    split_ifs with hr
    · refine congrArg (fun l => [l]) (List.ext_getElem (by simp) fun t h1 h2 => ?_)
      simp only [List.length_map, List.length_range] at h1
      rw [List.getElem_map, List.getElem_map, List.getElem_range,
        h.collect t (by rw [h.aLen, if_pos hc]; exact h1) (by omega),
        List.getD_eq_getElem (ag :: g).reverse 0 (by simpa using h1)]
    · rfl

/-- A byte with the run's checksum joins the run. -/
theorem TokenInv.extend {a : Nat} (h : TokenInv cfg execCksum inBuf cks ag g gs st toks)
    (hc : cks a = cks ag) :
    TokenInv cfg execCksum inBuf cks a (ag :: g) gs
      (if cks a ≠ execCksum then st.collect cfg (inBuf.getD a 0) else st) toks := by
  have hsame : ∀ x ∈ ag :: g, cks x = cks a := by
    rintro x (_ | ⟨_, hx⟩); exacts [hc.symm, (h.same x hx).trans hc.symm]
  by_cases he : cks a = execCksum
  · have h0 : st.aLen = 0 := by rw [h.aLen, if_neg (by rw [← hc, he]; exact not_not_intro rfl)]
    rw [if_neg (not_not_intro he)]
    exact ⟨h.prev.trans hc.symm, hsame, by rw [h0, if_neg (not_not_intro he)],
      fun t ht => absurd ht (h0 ▸ Nat.not_lt_zero t), h.toks⟩
  · have hl : st.aLen = g.length + 1 := by rw [h.aLen, if_pos (by rwa [← hc])]
    rw [if_pos he]
    refine ⟨h.prev.trans hc.symm, hsame, by simp [TokenSt.collect, hl, he], fun t ht hm => ?_, h.toks⟩
    simp only [TokenSt.collect] at ht ⊢
    rw [List.reverse_cons]
    rcases Nat.lt_or_ge t st.aLen with htl | htl
    · rw [List.getD_append _ _ _ _ (by simp; omega), ← h.collect t htl hm]
      split_ifs <;> simp [Function.update_noteq (Nat.ne_of_lt htl)]
    · obtain rfl : t = st.aLen := by omega
      rw [if_pos hm, Function.update_same, List.getD_append_right _ _ _ _ (by simp; omega)]
      simp [hl]

/-- A run starting at `a`, after the runs `gs.reverse`. -/
theorem TokenInv.fresh (a : Nat) (st : TokenSt) (gs : List (List Nat)) :
    TokenInv cfg execCksum inBuf cks a [] gs
      (if cks a ≠ execCksum then { st with aLen := 0, prevCksum := cks a }.collect cfg (inBuf.getD a 0)
        else { st with aLen := 0, prevCksum := cks a })
      (gs.reverse.flatMap (runToken cfg execCksum inBuf cks)) := by
  by_cases he : cks a = execCksum
  · rw [if_neg (not_not_intro he)]
    exact ⟨rfl, by simp, by simp [he], fun t ht => absurd ht (Nat.not_lt_zero t), rfl⟩
  · rw [if_pos he]
    refine ⟨rfl, by simp, by simp [he, TokenSt.collect], fun t ht hm => ?_, rfl⟩
    simp only [TokenSt.collect] at ht ⊢
    obtain rfl : t = 0 := by omega
    simp [hm]

/-- A byte with another checksum ends the run, whose token is offered, and starts a new one. -/
theorem TokenInv.restart (hmin : 2 ≤ cfg.minAutoExtra) {a : Nat}
    (h : TokenInv cfg execCksum inBuf cks ag g gs st toks) :
    TokenInv cfg execCksum inBuf cks a [] ((ag :: g).reverse :: gs)
      (if cks a ≠ execCksum then { st with aLen := 0, prevCksum := cks a }.collect cfg (inBuf.getD a 0)
        else { st with aLen := 0, prevCksum := cks a }) (toks ++ st.token cfg) := by
  rw [h.token_eq hmin, h.toks, ← flatMap_reverse_cons]
  exact TokenInv.fresh a st _

/-- From a state matching `List.splitBy.loop`, the rest of the loop offers the tokens of the runs
that `splitBy` completes. -/
theorem tokenLoop_sim (hmin : 2 ≤ cfg.minAutoExtra) :
    ∀ (m a : Nat), a + (m + 1) = inBuf.length → ∀ {ag g gs st toks},
      TokenInv cfg execCksum inBuf cks ag g gs st toks →
      (tokenLoop cfg execCksum inBuf cks (List.range' a (m + 1)) st toks).2 =
        (List.splitBy.loop (fun i j => cks i == cks j) (List.range' a (m + 1)) ag g gs).flatMap
          (runToken cfg execCksum inBuf cks)
  | 0, a, hlen, ag, g, gs, st, toks, h => by
    have hlast : decide (a + 1 = inBuf.length) = true := decide_eq_true (by omega)
    rw [List.range'_succ, List.range'_zero, tokenLoop, List.splitBy.loop, hlast]
    rcases hs : tokenStep cfg execCksum true (inBuf.getD a 0) (cks a) st with ⟨st', t⟩
    simp only [tokenLoop]
    by_cases hc : cks a = cks ag
    · have ht : t = (st.collect cfg (inBuf.getD a 0)).token cfg := by
        rw [← tokenStep_last_same cfg execCksum _ _ st (h.prev.trans hc.symm), hs]
      rw [show (cks ag == cks a) = true from beq_iff_eq.2 hc.symm, List.splitBy.loop, h.toks, ht,
        flatMap_reverse_cons]
      congr 1
      have he' := h.extend hc
      by_cases he : cks a = execCksum
      · rw [if_neg (not_not_intro he)] at he'
        have h1 : (st.collect cfg (inBuf.getD a 0)).aLen = 1 := by
          rw [TokenSt.collect, he'.aLen, if_neg (not_not_intro he)]
        rw [TokenSt.token, h1, runToken, he'.head_cksum, if_neg (by omega), if_neg (by simp [he])]
      · rw [if_pos he] at he'
        exact he'.token_eq hmin
    · have ht : t = st.token cfg := by
        rw [tokenStep_new _ _ _ _ _ _ (by rw [h.prev]; exact Ne.symm hc)] at hs
        exact (Prod.ext_iff.1 hs).2.symm
      rw [show (cks ag == cks a) = false from beq_eq_false_iff_ne.2 (Ne.symm hc)]
      dsimp only
      rw [List.splitBy.loop, h.toks, ht, flatMap_reverse_cons, flatMap_reverse_cons, h.token_eq hmin, List.append_assoc]
      have h1 : runToken cfg execCksum inBuf cks [a] = [] := by
        rw [runToken, List.length_singleton, if_neg (by omega)]
      rw [List.reverse_singleton, h1, List.append_nil]
  | m + 1, a, hlen, ag, g, gs, st, toks, h => by
    have hlast : decide (a + 1 = inBuf.length) = false := decide_eq_false (by omega)
    rw [List.range'_succ, tokenLoop, List.splitBy.loop, hlast]
    by_cases hc : cks a = cks ag
    · rw [tokenStep_same _ _ _ _ _ (h.prev.trans hc.symm),
        show (cks ag == cks a) = true from beq_iff_eq.2 hc.symm]
      dsimp only
      rw [List.append_nil]
      exact tokenLoop_sim hmin m (a + 1) (by omega) (h.extend hc)
    · rw [tokenStep_new _ _ _ _ _ _ (by rw [h.prev]; exact Ne.symm hc),
        show (cks ag == cks a) = false from beq_eq_false_iff_ne.2 (Ne.symm hc)]
      dsimp only
      exact tokenLoop_sim hmin m (a + 1) (by omega) (h.restart hmin)

end Inv

/-- **From `a_len = 0`, `bitflip 1/1` offers exactly the maximal runs.** With
`MIN_AUTO_EXTRA ≥ 2`, for every input, checksum oracle and `a_collect` contents, the tokens handed
to `maybe_add_auto` are those of the maximal runs of bytes sharing a checksum other than
`exec_cksum`, with a length in `[MIN_AUTO_EXTRA, MAX_AUTO_EXTRA]`, in input order. -/
theorem bitflip1Tokens_eq_autoTokens (cfg : AutoCfg) (hmin : 2 ≤ cfg.minAutoExtra) (execCksum : Nat)
    (inBuf : Buf) (cks : Nat → Nat) (aCollect : Nat → UInt8) :
    (bitflip1Tokens cfg execCksum inBuf cks 0 aCollect).2 = autoTokens cfg execCksum inBuf cks := by
  unfold bitflip1Tokens autoTokens
  rcases hlen : inBuf.length with _ | n
  · rfl
  rw [List.range_eq_range', List.range'_succ, List.splitBy]
  have hst : (⟨0, aCollect, execCksum⟩ : TokenSt) =
      { (⟨0, aCollect, execCksum⟩ : TokenSt) with aLen := 0, prevCksum := execCksum } := rfl
  rcases n with _ | n
  · by_cases hc : cks 0 = execCksum <;>
      simp [tokenLoop, tokenStep, hc, TokenSt.token, TokenSt.collect, runToken, List.splitBy.loop,
        hlen]
    · omega
    · rw [if_neg (by omega), if_neg (by omega)]
  · rw [tokenLoop, show decide (0 + 1 = inBuf.length) = false from decide_eq_false (by omega)]
    by_cases hc : cks 0 = execCksum
    · rw [tokenStep_same _ _ _ _ _ hc.symm]
      dsimp only
      have h0 : TokenInv cfg execCksum inBuf cks 0 [] [] _ _ :=
        TokenInv.fresh 0 ⟨0, aCollect, execCksum⟩ []
      rw [if_neg (not_not_intro hc), hc, ← hst] at h0
      rw [if_neg (not_not_intro hc)]
      exact tokenLoop_sim hmin n 1 (by omega) h0
    · rw [tokenStep_new _ _ _ _ _ _ (Ne.symm hc)]
      dsimp only
      have h0 : TokenInv cfg execCksum inBuf cks 0 [] [] _ _ :=
        TokenInv.fresh 0 ⟨0, aCollect, execCksum⟩ []
      have ht : TokenSt.token cfg ⟨0, aCollect, execCksum⟩ = [] := by
        rw [TokenSt.token, if_neg (by dsimp only; omega)]
      rw [ht]
      exact tokenLoop_sim hmin n 1 (by omega) h0

/-- The `IHDR` example: bytes 1 to 4 of `"xIHDRx"` change the path the same way, the others not. -/
theorem bitflip1Tokens_eq_autoTokens_ihdr :
    2 ≤ (⟨3, 32⟩ : AutoCfg).minAutoExtra ∧
      (bitflip1Tokens ⟨3, 32⟩ 0 [0x78, 0x49, 0x48, 0x44, 0x52, 0x78]
          (fun k => if 1 ≤ k ∧ k ≤ 4 then 7 else 0) 0 (fun _ => 0)).2 =
        autoTokens ⟨3, 32⟩ 0 [0x78, 0x49, 0x48, 0x44, 0x52, 0x78]
          (fun k => if 1 ≤ k ∧ k ≤ 4 then 7 else 0) :=
  ⟨by decide, bitflip1Tokens_eq_autoTokens _ (by decide) _ _ _ _⟩

/-- A leftover token: the baseline pass over `"IHD"` (every flip changes the path the same way)
leaves `a_len = 4` and `a_collect = "IHDD"`; the rare-branch pass over the same bytes hands
`"IHDD"` to `maybe_add_auto` before `"IHD"`. -/
theorem bitflip1Tokens_stale_second_pass :
    (bitflip1Tokens ⟨3, 32⟩ 0 [0x49, 0x48, 0x44] (fun _ => 1) 0 (fun _ => 0)).2 =
        [[0x49, 0x48, 0x44]] ∧
      (bitflip1Tokens ⟨3, 32⟩ 0 [0x49, 0x48, 0x44] (fun _ => 1)
          (bitflip1Tokens ⟨3, 32⟩ 0 [0x49, 0x48, 0x44] (fun _ => 1) 0 (fun _ => 0)).1.aLen
          (bitflip1Tokens ⟨3, 32⟩ 0 [0x49, 0x48, 0x44] (fun _ => 1) 0 (fun _ => 0)).1.aCollect).2 =
        [[0x49, 0x48, 0x44, 0x44], [0x49, 0x48, 0x44]] ∧
      autoTokens ⟨3, 32⟩ 0 [0x49, 0x48, 0x44] (fun _ => 1) = [[0x49, 0x48, 0x44]] := by
  decide

end FuzzOne
