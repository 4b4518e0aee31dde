import Kash.Consensus.Ghostdag
import Kash.Consensus.Interval
import Kash.Math.Uint
import Kash.Lib.MinMax

/-! # The difficulty managers (`consensus/src/processes/difficulty.rs`)

    A block's difficulty bits are computed from its difficulty window, the
    `BlockWindowHeap` of the blocks before it. Each window block is read with the
    timestamp and the bits of its header (`get_difficulty_blocks`). Until the
    window holds `min_difficulty_window_len` blocks the genesis bits are kept.
    Past that, the block of least `(timestamp, blue work, hash)` is removed, the
    targets of the others are averaged in `Uint320`, and the average is scaled by
    the measured duration of the window over the expected one, whose `u64`
    product panics on overflow. The full manager expects the result to fit in
    `Uint256`; the sampled one multiplies the expected duration by the sample
    rate and caps the result at `max_difficulty_target`. Both managers run the
    same lines up to the average, which the source writes out twice and the
    model once (`window_average`).

    A `BinaryHeap`'s iteration order is unspecified, so a window is a list of its
    blocks in any order. The header store is a function from a hash to its
    compact header; a read of a missing entry is the `unwrap` panic
    `missing_entry`. `Uint256` values are numbers, as in the GHOSTDAG model;
    `Uint320` values are `Uint 5`, with `Uint.of_nat` for the words of a
    `Uint256`. Blue work (`Uint192`) is a number: the estimate of the hash rate
    only subtracts a smaller one from a larger one and divides by a word. -/

namespace KashDifficulty

open KashGhostdag KashMath KashScript MinMax

variable {H : Type} [LinearOrder H]

/-- `DifficultyError`, as far as the modelled functions return it. -/
inductive DifficultyError
  | UnderMinWindowSizeAllowed (window_size min_window_size : ℕ)
  | EmptyTimestampRange
  deriving DecidableEq, Repr

/-- Where the managers stop short. -/
inductive DifficultyFault
  /-- A header store read's `unwrap` on a missing entry. -/
  | missing_entry
  /-- A fault of a GHOSTDAG store read. -/
  | ghostdag (fault : GhostdagFault)
  /-- A panic of the integer arithmetic, an index, an `assert!` or an `unwrap`. -/
  | panics (site : PanicSite)
  /-- `expect("Expected target should be less than 2^256")`. -/
  | target_exceeds_256_bits
  deriving DecidableEq, Repr

/-- `CompactHeaderData`, the fields the managers read. -/
structure CompactHeaderData where
  daa_score : UInt64
  timestamp : UInt64
  bits : UInt32
  deriving DecidableEq, Repr

/-- `DifficultyBlock`. -/
structure DifficultyBlock (H : Type) where
  timestamp : UInt64
  bits : UInt32
  sortable_block : SortableBlock H
  deriving DecidableEq

/-- `Ord for DifficultyBlock`: the timestamp, then the sortable block. -/
def DifficultyBlock.cmp (self other : DifficultyBlock H) : Ordering :=
  (compare self.timestamp other.timestamp).then (self.sortable_block.cmp other.sortable_block)

/-- `<` of `PartialOrd for DifficultyBlock`, which is `cmp`. -/
def DifficultyBlock.lt (self other : DifficultyBlock H) : Bool := self.cmp other == .lt

/-- `MIN_DIFFICULTY_WINDOW_LEN`. -/
def MIN_DIFFICULTY_WINDOW_LEN : ℕ := 10

/-- What `check_min_difficulty_window_len` asserts. -/
def check_min_difficulty_window_len (difficulty_window_size min_difficulty_window_len : ℕ) : Prop :=
  MIN_DIFFICULTY_WINDOW_LEN ≤ min_difficulty_window_len ∧
    min_difficulty_window_len ≤ difficulty_window_size

instance (difficulty_window_size min_difficulty_window_len : ℕ) :
    Decidable (check_min_difficulty_window_len difficulty_window_size min_difficulty_window_len) :=
  inferInstanceAs (Decidable (_ ∧ _))

/-! ## Reads, and the panics of the standard library -/

/-- `get_compact_header_data(hash).unwrap()`. -/
def get_compact_header_data (headers_store : H → Option CompactHeaderData) (hash : H) :
    Except DifficultyFault CompactHeaderData :=
  match headers_store hash with
  | some data => .ok data
  | none => .error .missing_entry

/-- `Option::unwrap`. -/
def unwrap {α : Type} (o : Option α) : Except DifficultyFault α :=
  match o with
  | some a => .ok a
  | none => .error (.panics .unwrap_none)

/-- Indexing a `Vec`. -/
def index {α : Type} (l : List α) (i : ℕ) : Except DifficultyFault α :=
  match l[i]? with
  | some a => .ok a
  | none => .error (.panics .index_out_of_bounds)

/-- `Vec::swap_remove`, which panics out of range. -/
def remove_at {α : Type} (l : List α) (i : ℕ) : Except DifficultyFault (List α) :=
  match swap_remove l i with
  | some rest => .ok rest
  | none => .error (.panics .index_out_of_bounds)

/-- `get_difficulty_blocks`: each window block with its header's timestamp and
    bits. -/
def get_difficulty_blocks (headers_store : H → Option CompactHeaderData)
    (window : List (SortableBlock H)) : Except DifficultyFault (List (DifficultyBlock H)) :=
  window.mapM fun item => do
    let data ← get_compact_header_data headers_store item.hash
    pure ⟨data.timestamp, data.bits, item⟩

/-! ## The difficulty bits -/

/-- What both managers' `calculate_difficulty_bits` compute alike: the least and
    the greatest timestamp, the number of blocks left once the least block is
    removed, and their average target. -/
structure WindowAverage where
  min_ts : UInt64
  max_ts : UInt64
  difficulty_blocks_len : UInt64
  average_target : Uint 5

/-- The lines of `calculate_difficulty_bits` from `position_minmax` to
    `average_target`, the same in both managers. -/
def window_average (difficulty_blocks : List (DifficultyBlock H)) :
    Except DifficultyFault WindowAverage := do
  let (min_ts_index, max_ts_index) ← unwrap (position_minmax DifficultyBlock.lt difficulty_blocks)
  let min_ts := (← index difficulty_blocks min_ts_index).timestamp
  let max_ts := (← index difficulty_blocks max_ts_index).timestamp
  -- the least block goes out, for the average target of the window's inside
  let difficulty_blocks ← remove_at difficulty_blocks min_ts_index
  let difficulty_blocks_len := difficulty_blocks.length.toUInt64
  let targets_sum := Uint.sum (difficulty_blocks.map fun diff_block =>
    Uint.from_uint256 (Uint.of_nat (from_compact_target_bits diff_block.bits)))
  let average_target ← (targets_sum.div_u64 difficulty_blocks_len).mapError .panics
  pure ⟨min_ts, max_ts, difficulty_blocks_len, average_target⟩

/-- `FullDifficultyManager`, whose window lengths `new` has checked. -/
structure FullDifficultyManager (H : Type) where
  headers_store : H → Option CompactHeaderData
  genesis_bits : UInt32
  difficulty_window_size : ℕ
  min_difficulty_window_len : ℕ
  target_time_per_block : UInt64
  window_len_ok : check_min_difficulty_window_len difficulty_window_size min_difficulty_window_len

/-- `FullDifficultyManager::new`: `check_min_difficulty_window_len` panics on
    lengths out of order. -/
def FullDifficultyManager.new (headers_store : H → Option CompactHeaderData) (genesis_bits : UInt32)
    (difficulty_window_size min_difficulty_window_len : ℕ) (target_time_per_block : UInt64) :
    Except DifficultyFault (FullDifficultyManager H) :=
  if h : check_min_difficulty_window_len difficulty_window_size min_difficulty_window_len then
    .ok ⟨headers_store, genesis_bits, difficulty_window_size, min_difficulty_window_len,
      target_time_per_block, h⟩
  else .error (.panics .assertion_failed)

/-- `FullDifficultyManager::calculate_difficulty_bits`. -/
def FullDifficultyManager.calculate_difficulty_bits (self : FullDifficultyManager H)
    (window : List (SortableBlock H)) : Except DifficultyFault UInt32 := do
  let difficulty_blocks ← get_difficulty_blocks self.headers_store window
  -- until the window is long enough the difficulty stays constant
  if difficulty_blocks.length < self.min_difficulty_window_len then return self.genesis_bits
  let w ← window_average difficulty_blocks
  let measured ← (KashReachability.u64_sub w.max_ts w.min_ts).mapError .panics
  let expected ← (u64_mul self.target_time_per_block w.difficulty_blocks_len).mapError .panics
  let new_target ← ((w.average_target.mul_u64 (max measured 1)).div_u64 expected).mapError .panics
  match Uint.try_from_uint320 new_target with
  | .ok target => pure (compact_target_bits target.to_nat)
  | .error _ => throw .target_exceeds_256_bits

/-- `SampledDifficultyManager`, whose window lengths `new` has checked and
    whose maximal target came from a `Uint256`. -/
structure SampledDifficultyManager (H : Type) where
  headers_store : H → Option CompactHeaderData
  genesis_bits : UInt32
  max_difficulty_target : Uint 5
  difficulty_window_size : ℕ
  min_difficulty_window_len : ℕ
  difficulty_sample_rate : UInt64
  target_time_per_block : UInt64
  window_len_ok : check_min_difficulty_window_len difficulty_window_size min_difficulty_window_len
  max_difficulty_target_fits : max_difficulty_target.to_nat < 2 ^ 256

/-- `SampledDifficultyManager::new`. -/
def SampledDifficultyManager.new (headers_store : H → Option CompactHeaderData)
    (genesis_bits : UInt32) (max_difficulty_target : Uint 4)
    (difficulty_window_size min_difficulty_window_len : ℕ)
    (difficulty_sample_rate target_time_per_block : UInt64) :
    Except DifficultyFault (SampledDifficultyManager H) :=
  if h : check_min_difficulty_window_len difficulty_window_size min_difficulty_window_len then
    .ok ⟨headers_store, genesis_bits, Uint.from_uint256 max_difficulty_target,
      difficulty_window_size, min_difficulty_window_len, difficulty_sample_rate,
      target_time_per_block, h, by
        rw [Uint.to_nat_from_uint256]
        exact Uint.to_nat_lt max_difficulty_target⟩
  else .error (.panics .assertion_failed)

/-- `SampledDifficultyManager::calculate_difficulty_bits`. -/
def SampledDifficultyManager.calculate_difficulty_bits (self : SampledDifficultyManager H)
    (window : List (SortableBlock H)) : Except DifficultyFault UInt32 := do
  let difficulty_blocks ← get_difficulty_blocks self.headers_store window
  if difficulty_blocks.length < self.min_difficulty_window_len then return self.genesis_bits
  let w ← window_average difficulty_blocks
  let measured_duration := max (← (KashReachability.u64_sub w.max_ts w.min_ts).mapError .panics) 1
  -- the sample rate is what this manager adds to the full one's expected duration
  let expected_duration ← (do
    u64_mul (← u64_mul self.target_time_per_block self.difficulty_sample_rate)
      w.difficulty_blocks_len).mapError .panics
  let new_target ←
    ((w.average_target.mul_u64 measured_duration).div_u64 expected_duration).mapError .panics
  match Uint.try_from_uint320 (new_target.min self.max_difficulty_target) with
  | .ok target => pure (compact_target_bits target.to_nat)
  | .error _ => throw (.panics .unwrap_error)

/-! ## The estimate of the hash rate -/

/-- `MIN_WINDOW_SIZE` of `internal_estimate_network_hashes_per_second`. -/
def MIN_WINDOW_SIZE : ℕ := 1000

/-- `internal_estimate_network_hashes_per_second`: the blue work the window
    gained per second, or why there is no estimate. -/
def internal_estimate_network_hashes_per_second (headers_store : H → Option CompactHeaderData)
    (window : List (SortableBlock H)) : Except DifficultyFault (Except DifficultyError UInt64) := do
  let window_size := window.length
  if window_size < MIN_WINDOW_SIZE then
    return .error (.UnderMinWindowSizeAllowed window_size MIN_WINDOW_SIZE)
  let difficulty_blocks ← get_difficulty_blocks headers_store window
  let (min_ts, max_ts) ←
    unwrap (minmax_by (fun a b => decide (a < b)) (difficulty_blocks.map (·.timestamp)))
  if min_ts = max_ts then return .error .EmptyTimestampRange
  -- milliseconds to seconds
  let window_duration := (← (KashReachability.u64_sub max_ts min_ts).mapError .panics) / 1000
  if window_duration = 0 then return .ok 0
  let (min_blue_work, max_blue_work) ← unwrap
    (minmax_by (fun a b => decide (a < b)) (difficulty_blocks.map (·.sortable_block.blue_work)))
  -- `as_u64` keeps the low word of the `Uint192` quotient
  return .ok ((max_blue_work - min_blue_work) / window_duration.toNat).toUInt64

/-- `FullDifficultyManager::estimate_network_hashes_per_second`. -/
def FullDifficultyManager.estimate_network_hashes_per_second (self : FullDifficultyManager H)
    (window : List (SortableBlock H)) : Except DifficultyFault (Except DifficultyError UInt64) :=
  internal_estimate_network_hashes_per_second self.headers_store window

/-- `SampledDifficultyManager::estimate_network_hashes_per_second`. -/
def SampledDifficultyManager.estimate_network_hashes_per_second
    (self : SampledDifficultyManager H) (window : List (SortableBlock H)) :
    Except DifficultyFault (Except DifficultyError UInt64) :=
  internal_estimate_network_hashes_per_second self.headers_store window

/-! ## The DAA score -/

/-- `GhostdagData::mergeset_size`. -/
def mergeset_size (ghostdag_data : GhostdagData H) : ℕ :=
  ghostdag_data.mergeset_blues.length + ghostdag_data.mergeset_reds.length

/-- `GhostdagData::unordered_mergeset`: the blues, then the reds. -/
def unordered_mergeset (ghostdag_data : GhostdagData H) : List H :=
  ghostdag_data.mergeset_blues ++ ghostdag_data.mergeset_reds

/-- Collecting hashes into a `BlockHashSet`. -/
def collect_hashes (hashes : List H) : ListSet H :=
  hashes.foldl (fun set hash => (set.insert hash).1) ∅

/-- `internal_calc_daa_score`: the selected parent's DAA score and the mergeset
    blocks that are not in `mergeset_non_daa`. The count is a `usize`
    subtraction, which panics below zero. -/
def internal_calc_daa_score (headers_store : H → Option CompactHeaderData)
    (ghostdag_data : GhostdagData H) (mergeset_non_daa : ListSet H) :
    Except DifficultyFault UInt64 := do
  let sp_daa_score := (← get_compact_header_data headers_store ghostdag_data.selected_parent).daa_score
  if mergeset_size ghostdag_data < mergeset_non_daa.elems.length then
    throw (.panics .arithmetic_overflow)
  (u64_add sp_daa_score
    (mergeset_size ghostdag_data - mergeset_non_daa.elems.length).toUInt64).mapError .panics

/-- `difficulty_full_window_size`: the window size times the sample rate. -/
def SampledDifficultyManager.difficulty_full_window_size (self : SampledDifficultyManager H) :
    Except DifficultyFault UInt64 :=
  (u64_mul self.difficulty_window_size.toUInt64 self.difficulty_sample_rate).mapError .panics

/-- `lowest_daa_blue_score`: the blue score a full window below the block, or
    zero. -/
def SampledDifficultyManager.lowest_daa_blue_score (self : SampledDifficultyManager H)
    (ghostdag_data : GhostdagData H) : Except DifficultyFault ℕ := do
  let difficulty_full_window_size := (← self.difficulty_full_window_size).toNat
  pure (max ghostdag_data.blue_score difficulty_full_window_size - difficulty_full_window_size)

/-- `SampledDifficultyManager::calc_daa_score_and_mergeset_non_daa_blocks`: the
    mergeset blocks below the lowest DAA blue score are non-DAA. -/
def SampledDifficultyManager.calc_daa_score_and_mergeset_non_daa_blocks
    (self : SampledDifficultyManager H) (ghostdag_data : GhostdagData H) (store : GhostdagStores H) :
    Except DifficultyFault (UInt64 × ListSet H) := do
  let lowest_daa_blue_score ← self.lowest_daa_blue_score ghostdag_data
  let below ← (unordered_mergeset ghostdag_data).filterM fun hash => do
    let blue_score ← (store.get_blue_score hash).mapError .ghostdag
    pure (decide (blue_score < lowest_daa_blue_score))
  let mergeset_non_daa := collect_hashes below
  pure (← internal_calc_daa_score self.headers_store ghostdag_data mergeset_non_daa, mergeset_non_daa)

/-- `BinaryHeap::peek` of the window's `Reverse` entries: its least block. -/
def peek (window : List (SortableBlock H)) : Option (SortableBlock H) :=
  (minmax_by (fun a b => a.cmp b == .lt) window).map Prod.fst

/-- `BlueWorkType::MAX`. -/
def BLUE_WORK_MAX : ℕ := 2 ^ 192 - 1

/-- `FullDifficultyManager::calc_daa_score_and_mergeset_non_daa_blocks`: the
    mergeset in ascending order, then the selected parent, as long as each is
    below the window's least block. An empty window has a default least block of
    maximal blue work. -/
def FullDifficultyManager.calc_daa_score_and_mergeset_non_daa_blocks [Inhabited H]
    (self : FullDifficultyManager H) (window : List (SortableBlock H))
    (ghostdag_data : GhostdagData H) (store : GhostdagStores H) :
    Except DifficultyFault (UInt64 × ListSet H) := do
  let default_lowest_block : SortableBlock H := ⟨default, BLUE_WORK_MAX⟩
  let window_lowest_block := (peek window).getD default_lowest_block
  let ascending ← (ghostdag_data.ascending_mergeset_without_selected_parent store).mapError .ghostdag
  let selected_parent_hash := ghostdag_data.selected_parent
  -- `unwrap_or_default`: a selected parent without data counts zero blue work
  let selected_parent_block : SortableBlock H :=
    ⟨selected_parent_hash, match store.get_blue_work selected_parent_hash with
      | .ok blue_work => blue_work
      | .error _ => 0⟩
  let below := (ascending ++ [selected_parent_block]).takeWhile fun sortable_block =>
    sortable_block.cmp window_lowest_block == .lt
  let mergeset_non_daa := collect_hashes (below.map (·.hash))
  pure (← internal_calc_daa_score self.headers_store ghostdag_data mergeset_non_daa, mergeset_non_daa)

end KashDifficulty
