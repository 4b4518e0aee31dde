import Kash.Consensus.Difficulty

/-! # The past median time managers (`consensus/src/processes/past_median_time.rs`)

    The past median time of a block is read from the timestamps of its window.
    Both managers read each window block's timestamp from the header store
    (`get_timestamp(..).unwrap()`, a missing entry being `missing_entry`) and
    sort the timestamps. The full manager returns the timestamp in the middle,
    at position `len / 2`; the sampled one returns the mean of the (at most)
    eleven timestamps around the middle, rounded to the nearest, the middle
    frame taken towards the later timestamps when its size is even. An empty
    window gives the genesis timestamp.

    `sort_unstable` of `u64`s is deterministic, as the source notes: a sorted
    permutation of `u64`s is unique, so the model sorts by insertion. The sum
    of the frame and the rounding addition are `u64` operations, which panic on
    overflow in a release build with overflow checks; the `usize` arithmetic of
    the indices is on lengths of lists in memory and is modelled in `ℕ`, with
    the subtraction checked. -/

namespace KashPastMedianTime

open KashDifficulty KashGhostdag KashScript KashReachability

variable {H : Type}

/-- `get_timestamp(hash).unwrap()` of the header store. -/
def get_timestamp (headers_store : H → Option CompactHeaderData) (hash : H) :
    Except DifficultyFault UInt64 := do
  pure (← get_compact_header_data headers_store hash).timestamp

/-- The timestamps of the window's blocks, as
    `window.iter().map(|item| ..get_timestamp(item.0.hash).unwrap()).collect()`
    reads them. -/
def read_timestamps (headers_store : H → Option CompactHeaderData)
    (window : List (SortableBlock H)) : Except DifficultyFault (List UInt64) :=
  window.mapM fun item => get_timestamp headers_store item.hash

/-- `sort_unstable` of `u64`s. -/
def sort_unstable (window_timestamps : List UInt64) : List UInt64 :=
  window_timestamps.insertionSort (· ≤ ·)

/-- The slice `v[lo..hi]`, which panics unless `lo ≤ hi ≤ v.len()`. -/
def slice {α : Type} (v : List α) (lo hi : ℕ) : Except DifficultyFault (List α) :=
  if lo ≤ hi ∧ hi ≤ v.length then .ok ((v.take hi).drop lo)
  else .error (.panics .index_out_of_bounds)

/-- `FullPastMedianTimeManager`. -/
structure FullPastMedianTimeManager (H : Type) where
  headers_store : H → Option CompactHeaderData
  genesis_timestamp : UInt64

/-- `FullPastMedianTimeManager::calc_past_median_time`: the timestamp in the
    middle of the sorted window. -/
def FullPastMedianTimeManager.calc_past_median_time (self : FullPastMedianTimeManager H)
    (window : List (SortableBlock H)) : Except DifficultyFault UInt64 := do
  if window.isEmpty then return self.genesis_timestamp
  let window_timestamps := sort_unstable (← read_timestamps self.headers_store window)
  index window_timestamps (window_timestamps.length / 2)

/-- `AVERAGE_FRAME_SIZE` of the sampled `calc_past_median_time`. -/
def AVERAGE_FRAME_SIZE : ℕ := 11

/-- `SampledPastMedianTimeManager`. -/
structure SampledPastMedianTimeManager (H : Type) where
  headers_store : H → Option CompactHeaderData
  genesis_timestamp : UInt64

/-- `SampledPastMedianTimeManager::calc_past_median_time`: the mean of the
    `AVERAGE_FRAME_SIZE` timestamps closest to the middle of the sorted window,
    rounded to the nearest. -/
def SampledPastMedianTimeManager.calc_past_median_time (self : SampledPastMedianTimeManager H)
    (window : List (SortableBlock H)) : Except DifficultyFault UInt64 := do
  if window.isEmpty then return self.genesis_timestamp
  let window_timestamps := sort_unstable (← read_timestamps self.headers_store window)
  let avg_frame_size := min window_timestamps.length AVERAGE_FRAME_SIZE
  -- of the two middle frames of an even size, the later one
  let ending_index := (window_timestamps.length + avg_frame_size + 1) / 2
  if ending_index < avg_frame_size then throw (.panics .arithmetic_overflow)
  let frame ← slice window_timestamps (ending_index - avg_frame_size) ending_index
  (do
    let total ← u64_add (← u64_sum frame) (avg_frame_size.toUInt64 / 2)
    u64_div total avg_frame_size.toUInt64).mapError .panics

end KashPastMedianTime
