import Mathlib.Data.List.Basic
import Mathlib.Data.Int.Defs
import Mathlib.Algebra.Group.Int
import Mathlib.Algebra.Group.Nat.Basic
import Mathlib.Algebra.Order.Ring.Nat
/-!
# Buffers, C arithmetic and the random source

Byte buffers are `List UInt8` holding a C buffer's bytes. `memmove` reads the original source
bytes, as C's does for overlapping windows; `memmove?` fails on a copy past the buffer.
`(u32)` casts are `u32`, the value modulo `2^32`.

`rand_below(afl, n)` is the next raw draw of a stream reduced below `n`, and `0` without a draw
when `n ≤ 1`; quantifying over `Rng` covers every outcome of every call.
-/
namespace FuzzOne

abbrev Buf := List UInt8

/-- `(u32)x` for the value `x` of a C expression. -/
def u32 (x : Int) : Nat := (x % 2 ^ 32).toNat

/-- `(uN)x` for an `N = 8 * w`-bit store. -/
def uN (w : Nat) (x : Int) : Nat := (x % 2 ^ (8 * w)).toNat

/-- `FLIP_BIT(_ar, _b)` (afl-fuzz-one.c:1849): `_ar[_b >> 3] ^= 128 >> (_b & 7)`. -/
def flipBit (ar : Buf) (b : Nat) : Buf :=
  ar.modify (fun x => x ^^^ (128 >>> (b % 8)).toUInt8) (b / 8)

/-- `memcpy(buf + pos, src, |src|)`. -/
def overwrite (buf : Buf) (pos : Nat) (src : Buf) : Buf :=
  buf.take pos ++ src ++ buf.drop (pos + src.length)

/-- `memmove(mem + dst, mem + src, n)` for a source and a destination inside `mem`. -/
def memmove {α : Type} (mem : List α) (dst src n : Nat) : List α :=
  mem.take dst ++ (mem.drop src).take n ++ mem.drop (dst + n)

/-- `memmove(mem + dst, mem + src, n)`: `none` when a range runs past the buffer's end. -/
def memmove? {α : Type} (mem : List α) (dst src n : Nat) : Option (List α) :=
  if dst + n ≤ mem.length ∧ src + n ≤ mem.length then some (memmove mem dst src n) else none

/-- The `w` little-endian bytes of `v` (`*(u16 *)` / `*(u32 *)` stores on x86). -/
def toBytesLE (w v : Nat) : Buf := (List.range w).map fun i => (v / 256 ^ i % 256).toUInt8

/-- The value of `w` little-endian bytes at `pos`. -/
def loadLE (buf : Buf) (pos w : Nat) : Nat :=
  ((List.range w).map fun i => (buf.getD (pos + i) 0).toNat * 256 ^ i).sum

def storeLE (buf : Buf) (pos w v : Nat) : Buf := overwrite buf pos (toBytesLE w v)

/-- `SWAP16` / `SWAP32`: the `w` bytes of `v` in reverse order. -/
def swapLE (w v : Nat) : Nat := loadLE (toBytesLE w v).reverse 0 w

/-- A stream of raw random draws and the index of the next one. -/
structure Rng where
  draws : Nat → Nat
  pos : Nat

/-- `rand_below(afl, n)`. -/
def Rng.below (g : Rng) (n : Nat) : Nat × Rng :=
  if n ≤ 1 then (0, g) else (g.draws g.pos % n, { g with pos := g.pos + 1 })

theorem Rng.below_lt (g : Rng) {n : Nat} (h : 0 < n) : (g.below n).1 < n := by
  unfold Rng.below; split <;> simp only
  · omega
  · exact Nat.mod_lt _ h

/-- The stream whose draws are all `0`. -/
def Rng.zeros : Rng := ⟨fun _ => 0, 0⟩

/-- All draws of the stream are `0`. -/
def Rng.Zero (g : Rng) : Prop := g.draws = fun _ => 0

theorem Rng.below_zero {g : Rng} (h : g.Zero) (n : Nat) : ∃ g', g.below n = (0, g') ∧ g'.Zero := by
  unfold Rng.below; split
  · exact ⟨g, rfl, h⟩
  · exact ⟨{ g with pos := g.pos + 1 }, by simp [show g.draws = _ from h], h⟩

theorem overwrite_length (buf src : Buf) (pos : Nat) (h : pos + src.length ≤ buf.length) :
    (overwrite buf pos src).length = buf.length := by
  simp only [overwrite, List.length_append, List.length_take, List.length_drop]; omega

theorem memmove_length {α : Type} (mem : List α) (dst src n : Nat) (hd : dst + n ≤ mem.length)
    (hs : src + n ≤ mem.length) : (memmove mem dst src n).length = mem.length := by
  simp only [memmove, List.length_append, List.length_take, List.length_drop]; omega

theorem toBytesLE_length (w v : Nat) : (toBytesLE w v).length = w := by simp [toBytesLE]

/-- A store at offset 0 leaves the bytes past its width alone. -/
theorem storeLE_zero_drop (buf : Buf) (w v : Nat) : (storeLE buf 0 w v).drop w = buf.drop w := by
  simp [storeLE, overwrite, toBytesLE_length]

/-- `FLIP_BIT(ar, b)` changes byte `b >> 3` only, by `128 >> (b & 7)`. -/
theorem flipBit_getD (ar : Buf) (b k : Nat) :
    (flipBit ar b).getD k 0 =
      if b / 8 = k ∧ k < ar.length then ar.getD k 0 ^^^ (128 >>> (b % 8)).toUInt8
      else ar.getD k 0 := by
  simp only [flipBit, List.getD_eq_getElem?_getD, List.getElem?_modify]
  by_cases hk : k < ar.length
  · simp only [List.getElem?_eq_getElem hk, Option.map_eq_map, Option.map_some', Option.getD_some,
      hk, and_true]
  · simp [List.getElem?_eq_none (Nat.le_of_not_lt hk), hk]

end FuzzOne
