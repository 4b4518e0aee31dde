import Mathlib
import Kash.Script.DataStack

/-! # Reachability intervals (`reachability::interval`)

    An `Interval` is the inclusive range `[start, end]` of `u64`s; an empty one has
    `end = start - 1`. `Interval::new` only checks its bounds with `debug_assert!`s,
    which a release build leaves out, so the model builds any pair. The release
    profile keeps overflow checks: every `u64` addition and subtraction here panics
    on overflow (`PanicSite.arithmetic_overflow`), and a failed `assert!` or
    `assert_eq!` is `PanicSite.assertion_failed`.

    `split_exponential` gives each part a share of the spare room, computed in
    `f64` by `exponential_fractions`. The floats reach the integers only through
    `f64::round(total_bias * fraction) as u64`; the model takes those `u64`s as a
    parameter, `rounded_bias i` for part `i`, so its results hold whatever the
    floats are. -/

namespace KashReachability

open KashScript

/-- `Interval`. -/
structure Interval where
  start : UInt64
  «end» : UInt64
  deriving DecidableEq, Repr

/-- A `u64` subtraction: going below zero panics. -/
def u64_sub (a b : UInt64) : Except PanicSite UInt64 :=
  if b ≤ a then .ok (a - b) else .error .arithmetic_overflow

/-- `Iterator::sum::<u64>`: the additions from zero, each checked. -/
def u64_sum (xs : List UInt64) : Except PanicSite UInt64 :=
  xs.foldlM u64_add 0

namespace Interval

/-- `Interval::new`. -/
def new (start «end» : UInt64) : Interval := ⟨start, «end»⟩

/-- `Interval::empty`. -/
def empty : Interval := new 1 0

/-- `Interval::maximal`: one short of both ends of `u64`. -/
def maximal : Interval := new 1 (0xFFFFFFFFFFFFFFFF - 1)

/-- `size`: `(end + 1) - start`, which panics at `end = u64::MAX` and below an
    empty interval. -/
def size (self : Interval) : Except PanicSite UInt64 := do
  let last ← u64_add self.end 1
  u64_sub last self.start

/-- `contains`. -/
def contains (self other : Interval) : Bool :=
  self.start ≤ other.start && other.end ≤ self.end

/-- `strictly_contains`. -/
def strictly_contains (self other : Interval) : Bool :=
  self.start ≤ other.start && other.end < self.end

/-- The `map` of `split_exact`, with the running `start`: each part is
    `new(start, start + size - 1)`, then `start += size`. -/
def split_exact_loop : UInt64 → List UInt64 → Except PanicSite (List Interval)
  | _, [] => pure []
  | start, size :: sizes => do
      let last ← u64_add start size
      let «end» ← u64_sub last 1
      let interval := new start «end»
      let start ← u64_add start size
      let rest ← split_exact_loop start sizes
      pure (interval :: rest)

/-- `split_exact`: the sizes must add up to the size of the interval. -/
def split_exact (self : Interval) (sizes : List UInt64) : Except PanicSite (List Interval) := do
  let sizes_sum ← u64_sum sizes
  let size ← self.size
  if sizes_sum ≠ size then throw .assertion_failed
  split_exact_loop self.start sizes

/-- The bias loop of `split_exponential` from part `i` on: the last part takes all
    that remains, the others the rounded float share, capped by what remains. -/
def bias_loop (rounded_bias : ℕ → UInt64) (last : ℕ) :
    ℕ → List UInt64 → UInt64 → Except PanicSite (List UInt64)
  | _, [], _ => pure []
  | i, size :: sizes, remaining_bias => do
      let bias := if i = last then remaining_bias else min remaining_bias (rounded_bias i)
      let biased ← u64_add size bias
      let remaining_bias ← u64_sub remaining_bias bias
      let rest ← bias_loop rounded_bias last (i + 1) sizes remaining_bias
      pure (biased :: rest)

/-- `split_exponential`. `exponential_fractions` gives one fraction per size, so the
    loop runs over the sizes and `exp_fractions.len() - 1` is the last index. -/
def split_exponential (self : Interval) (sizes : List UInt64) (rounded_bias : ℕ → UInt64) :
    Except PanicSite (List Interval) := do
  let interval_size ← self.size
  let sizes_sum ← u64_sum sizes
  if interval_size < sizes_sum then throw .assertion_failed
  if sizes_sum = 0 then throw .assertion_failed
  if interval_size = sizes_sum then
    self.split_exact sizes
  else
    let remaining_bias ← u64_sub interval_size sizes_sum
    let biased_sizes ← bias_loop rounded_bias (sizes.length - 1) 0 sizes remaining_bias
    self.split_exact biased_sizes

end Interval

end KashReachability
