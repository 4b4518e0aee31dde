import Kash.Consensus.Difficulty

/-! # The block windows (`consensus/src/processes/window.rs`)

    A block's window is built in a `BoundedSizeBlockHeap`: a `BinaryHeap` of
    `Reverse<SortableBlock>`, whose top is the block of least blue work, with a
    bound on its size. While it has room it takes every block offered; once full,
    it rejects a block below its least one, and otherwise gives up its least
    block for the new one (`try_push`). Both window managers offer, per chain
    block, its selected parent and then its mergeset in descending blue work, and
    stop offering at the first rejection (`try_push_mergeset`). The sampled
    manager offers only every `sample_rate`-th block of the mergeset, counting
    from the selected parent's DAA score, and reports the mergeset blocks below
    the DAA window's lowest blue score as non-DAA (`sampled_mergeset_iterator`).

    The heap is the list of its entries; its consumers read it in any order.
    The iterators of the source are lazy: a block after a `break` is never read.
    The model reads the whole mergeset first, so on a store missing an entry past
    the point where the source stops it reports the fault the source would not
    meet; on stores that hold every mergeset block the two agree. The caches
    are functions from a hash to the window stored for it. The full manager's
    window is built in full: from the cache, or by the walk down the chain, whose
    iterations the model bounds. -/

namespace KashWindow

open KashDifficulty KashGhostdag KashScript

/-- `WindowOrigin`: the manager that built a cached window. -/
inductive WindowOrigin
  | Full
  | Sampled
  deriving DecidableEq, Repr

/-- `WindowType`. -/
inductive WindowType
  | SampledDifficultyWindow
  | FullDifficultyWindow
  | SampledMedianTimeWindow
  | VaryingWindow (size : ℕ)
  deriving DecidableEq, Repr

/-- `BlockWindowHeap`: the entries of its `BinaryHeap<Reverse<SortableBlock>>`,
    and its origin. -/
structure BlockWindowHeap (H : Type) where
  blocks : List (SortableBlock H)
  origin : WindowOrigin
  deriving DecidableEq

/-- `BoundedSizeBlockHeap`. -/
structure BoundedSizeBlockHeap (H : Type) where
  binary_heap : BlockWindowHeap H
  size_bound : ℕ
  deriving DecidableEq

/-- The items of `sampled_mergeset_iterator`. -/
inductive SampledBlock (H : Type)
  | Sampled (block : SortableBlock H)
  | NonDaa (hash : H)
  deriving DecidableEq

/-- The variant of `RuleError` the window managers return. -/
inductive RuleError
  | InsufficientDaaWindowSize (size : ℕ)
  deriving DecidableEq, Repr

/-- A failed window build: a rule error the source returns, or a panic. -/
inductive WindowFault
  | rule (error : RuleError)
  | panics (fault : DifficultyFault)
  deriving DecidableEq, Repr

variable {H : Type} [LinearOrder H]

namespace BlockWindowHeap

/-- `BlockWindowHeap::new`, and `with_capacity`: an empty heap. -/
def new (origin : WindowOrigin) : BlockWindowHeap H := ⟨[], origin⟩

/-- `BinaryHeap::pop` of the `Reverse` entries: the block of least blue work
    goes; an empty heap stays empty. -/
def pop (self : BlockWindowHeap H) : BlockWindowHeap H :=
  match peek self.blocks with
  | some least => { self with blocks := self.blocks.erase least }
  | none => self

/-- `BinaryHeap::push`. -/
def push (self : BlockWindowHeap H) (block : SortableBlock H) : BlockWindowHeap H :=
  { self with blocks := block :: self.blocks }

end BlockWindowHeap

namespace BoundedSizeBlockHeap

/-- `BoundedSizeBlockHeap::from_binary_heap`. -/
def from_binary_heap (size_bound : ℕ) (binary_heap : BlockWindowHeap H) : BoundedSizeBlockHeap H :=
  ⟨binary_heap, size_bound⟩

/-- `BoundedSizeBlockHeap::new`. -/
def new (contents : WindowOrigin) (size_bound : ℕ) : BoundedSizeBlockHeap H :=
  from_binary_heap size_bound (BlockWindowHeap.new contents)

/-- `reached_size_bound`. -/
def reached_size_bound (self : BoundedSizeBlockHeap H) : Bool :=
  self.binary_heap.blocks.length == self.size_bound

/-- `can_push`: whether `try_push` would take the block. A full heap reads its
    least block with `unwrap`, which panics when the bound is zero. -/
def can_push (self : BoundedSizeBlockHeap H) (hash : H) (blue_work : ℕ) :
    Except DifficultyFault Bool := do
  let r_sortable_block : SortableBlock H := ⟨hash, blue_work⟩
  if self.reached_size_bound then
    let max ← unwrap (peek self.binary_heap.blocks)
    -- `*max >= r_sortable_block` of two `Reverse` entries: the block is not below the least
    return r_sortable_block.cmp max != .lt
  return true

/-- `try_push`: the heap after the push, and whether the block went in. -/
def try_push (self : BoundedSizeBlockHeap H) (hash : H) (blue_work : ℕ) :
    BoundedSizeBlockHeap H × Bool :=
  let r_sortable_block : SortableBlock H := ⟨hash, blue_work⟩
  if self.reached_size_bound then
    match peek self.binary_heap.blocks with
    | some max =>
        -- `*max < r_sortable_block` of two `Reverse` entries: the block is below the least
        if r_sortable_block.cmp max == .lt then (self, false)
        else ({ self with binary_heap := self.binary_heap.pop.push r_sortable_block }, true)
    | none => ({ self with binary_heap := self.binary_heap.pop.push r_sortable_block }, true)
  else ({ self with binary_heap := self.binary_heap.push r_sortable_block }, true)

/-- The loop of `try_push_mergeset` over the descending mergeset: push while
    the pushes succeed. -/
def push_until_rejected (heap : BoundedSizeBlockHeap H) : List (SortableBlock H) → BoundedSizeBlockHeap H
  | [] => heap
  | block :: rest =>
      match heap.try_push block.hash block.blue_work with
      | (heap, true) => push_until_rejected heap rest
      | (heap, false) => heap

/-- The loop of the sampled `try_push_mergeset`: push the sampled blocks while
    the pushes succeed, passing over the non-DAA ones. -/
def push_sampled_until_rejected (heap : BoundedSizeBlockHeap H) :
    List (SampledBlock H) → BoundedSizeBlockHeap H
  | [] => heap
  | .Sampled block :: rest =>
      match heap.try_push block.hash block.blue_work with
      | (heap, true) => push_sampled_until_rejected heap rest
      | (heap, false) => heap
  | .NonDaa _ :: rest => push_sampled_until_rejected heap rest

end BoundedSizeBlockHeap

open BoundedSizeBlockHeap

/-- `FullWindowManager`, with the store, the caches and the sizes the modelled
    functions read, the constant `ORIGIN`, and the iteration bound of the model's
    walk down the chain. -/
structure FullWindowManager (H : Type) where
  genesis_hash : H
  origin : H
  ghostdag_store : GhostdagStores H
  block_window_cache_for_difficulty : H → Option (BlockWindowHeap H)
  block_window_cache_for_past_median_time : H → Option (BlockWindowHeap H)
  difficulty_window_size : ℕ
  past_median_time_window_size : ℕ
  fuel : ℕ

namespace FullWindowManager

/-- `FullWindowManager::window_size`. -/
def window_size (self : FullWindowManager H) (_ghostdag_data : GhostdagData H)
    (window_type : WindowType) : ℕ :=
  match window_type with
  | .SampledDifficultyWindow | .FullDifficultyWindow => self.difficulty_window_size
  | .SampledMedianTimeWindow => self.past_median_time_window_size
  | .VaryingWindow size => size

/-- `FullWindowManager::sample_rate`. -/
def sample_rate (_self : FullWindowManager H) (_ghostdag_data : GhostdagData H)
    (_window_type : WindowType) : UInt64 :=
  1

/-- `FullWindowManager::try_push_mergeset`: the heap after offering the
    selected parent and then the mergeset in descending order, and whether the
    selected parent was already too low to enter. -/
def try_push_mergeset (self : FullWindowManager H) (heap : BoundedSizeBlockHeap H)
    (ghostdag_data : GhostdagData H) (selected_parent_blue_work : ℕ) :
    Except GhostdagFault (BoundedSizeBlockHeap H × Bool) := do
  match heap.try_push ghostdag_data.selected_parent selected_parent_blue_work with
  | (heap, false) => return (heap, true)
  | (heap, true) =>
      let descending ← ghostdag_data.descending_mergeset_without_selected_parent self.ghostdag_store
      return (heap.push_until_rejected descending, false)

/-- The cache `build_block_window` reads for a window size, if any. -/
def window_cache (self : FullWindowManager H) (window_size : ℕ) : Option (H → Option (BlockWindowHeap H)) :=
  if window_size = self.difficulty_window_size then some self.block_window_cache_for_difficulty
  else if window_size = self.past_median_time_window_size then
    some self.block_window_cache_for_past_median_time
  else none

/-- The `loop` of `build_block_window`: down the selected chain, offer each
    chain block's selected parent and mergeset, until genesis, `ORIGIN` (where a
    window that is not full is an error) or a selected parent too low to enter. -/
def walk_down_chain (self : FullWindowManager H) :
    ℕ → BoundedSizeBlockHeap H → GhostdagData H → Except WindowFault (BoundedSizeBlockHeap H)
  | 0, _, _ => throw (.panics (.ghostdag .out_of_fuel))
  | fuel + 1, window_heap, current_ghostdag =>
      if current_ghostdag.selected_parent = self.origin then
        if window_heap.reached_size_bound then pure window_heap
        else throw (.rule (.InsufficientDaaWindowSize window_heap.binary_heap.blocks.length))
      else if current_ghostdag.selected_parent = self.genesis_hash then pure window_heap
      else do
        let parent_ghostdag ← (self.ghostdag_store.get_data current_ghostdag.selected_parent).mapError
          fun e => .panics (.ghostdag e)
        let (window_heap, selected_parent_blue_work_too_low) ←
          (self.try_push_mergeset window_heap current_ghostdag parent_ghostdag.blue_work).mapError
            fun e => .panics (.ghostdag e)
        -- the past of the selected parent has even lower blue work
        if selected_parent_blue_work_too_low then pure window_heap
        else walk_down_chain self fuel window_heap parent_ghostdag

/-- `FullWindowManager::build_block_window`: the selected parent's cached window
    with this block's mergeset offered, when the cache for the window size holds
    one built by this manager; otherwise the walk down the chain. -/
def build_block_window (self : FullWindowManager H) (ghostdag_data : GhostdagData H)
    (window_type : WindowType) : Except WindowFault (BlockWindowHeap H) := do
  let window_size := self.window_size ghostdag_data window_type
  if window_size = 0 then return BlockWindowHeap.new .Full
  if let some cache := self.window_cache window_size then
    if let some selected_parent_binary_heap := cache ghostdag_data.selected_parent then
      -- only a cached window that originates from here
      if selected_parent_binary_heap.origin = .Full then
        let mut window_heap := from_binary_heap window_size selected_parent_binary_heap
        if ghostdag_data.selected_parent ≠ self.genesis_hash then
          let blue_work ← (self.ghostdag_store.get_blue_work ghostdag_data.selected_parent).mapError
            fun e => .panics (.ghostdag e)
          window_heap := (← (self.try_push_mergeset window_heap ghostdag_data blue_work).mapError
            fun e => .panics (.ghostdag e)).1
        return window_heap.binary_heap
  let window_heap ← self.walk_down_chain self.fuel (BoundedSizeBlockHeap.new .Full window_size)
    ghostdag_data
  return window_heap.binary_heap

end FullWindowManager

/-- `SampledWindowManager`, with the stores, the sizes and the rates the
    modelled functions read. -/
structure SampledWindowManager (H : Type) where
  genesis_hash : H
  ghostdag_store : GhostdagStores H
  headers_store : H → Option CompactHeaderData
  difficulty_window_size : ℕ
  difficulty_sample_rate : UInt64
  past_median_time_window_size : ℕ
  past_median_time_sample_rate : UInt64
  difficulty_manager : SampledDifficultyManager H

namespace SampledWindowManager

/-- `SampledWindowManager::window_size`; the `usize` product of the full
    difficulty window panics on overflow. -/
def window_size (self : SampledWindowManager H) (_ghostdag_data : GhostdagData H)
    (window_type : WindowType) : Except DifficultyFault ℕ :=
  match window_type with
  | .SampledDifficultyWindow => pure self.difficulty_window_size
  | .FullDifficultyWindow =>
      if self.difficulty_window_size * self.difficulty_sample_rate.toNat < 2 ^ 64 then
        pure (self.difficulty_window_size * self.difficulty_sample_rate.toNat)
      else throw (.panics .arithmetic_overflow)
  | .SampledMedianTimeWindow => pure self.past_median_time_window_size
  | .VaryingWindow size => pure size

/-- `SampledWindowManager::sample_rate`. -/
def sample_rate (self : SampledWindowManager H) (_ghostdag_data : GhostdagData H)
    (window_type : WindowType) : UInt64 :=
  match window_type with
  | .SampledDifficultyWindow => self.difficulty_sample_rate
  | .SampledMedianTimeWindow => self.past_median_time_sample_rate
  | .FullDifficultyWindow | .VaryingWindow _ => 1

/-- A `u64` remainder: a zero divisor panics. -/
def u64_rem (a b : UInt64) : Except PanicSite UInt64 :=
  if b = 0 then .error .division_by_zero else .ok (a % b)

/-- The `filter_map` of `sampled_mergeset_iterator`, with its running `index`:
    a block below the threshold is non-DAA; every other block is counted, and
    sampled when the selected parent's DAA score plus the count is a multiple of
    the rate. -/
def sample_blocks (stores : GhostdagStores H) (sample_rate selected_parent_daa_score : UInt64)
    (blue_score_threshold : ℕ) : UInt64 → List (SortableBlock H) →
      Except DifficultyFault (List (SampledBlock H))
  | _, [] => pure []
  | index, block :: rest => do
      if (← (stores.get_blue_score block.hash).mapError .ghostdag) < blue_score_threshold then
        pure (.NonDaa block.hash ::
          (← sample_blocks stores sample_rate selected_parent_daa_score blue_score_threshold index rest))
      else
        let index ← (u64_add index 1).mapError .panics
        let total ← (u64_add selected_parent_daa_score index).mapError .panics
        if (← (u64_rem total sample_rate).mapError .panics) == 0 then
          pure (.Sampled block ::
            (← sample_blocks stores sample_rate selected_parent_daa_score blue_score_threshold index rest))
        else sample_blocks stores sample_rate selected_parent_daa_score blue_score_threshold index rest

/-- `sampled_mergeset_iterator`: the selected parent and then the mergeset in
    descending order, each sampled, passed over or reported non-DAA. -/
def sampled_mergeset_iterator (self : SampledWindowManager H) (sample_rate : UInt64)
    (ghostdag_data : GhostdagData H) (selected_parent_blue_work : ℕ) :
    Except DifficultyFault (List (SampledBlock H)) := do
  let selected_parent_block : SortableBlock H := ⟨ghostdag_data.selected_parent, selected_parent_blue_work⟩
  let selected_parent_daa_score :=
    (← get_compact_header_data self.headers_store ghostdag_data.selected_parent).daa_score
  let blue_score_threshold ← self.difficulty_manager.lowest_daa_blue_score ghostdag_data
  let descending ← (ghostdag_data.descending_mergeset_without_selected_parent
    self.ghostdag_store).mapError .ghostdag
  sample_blocks self.ghostdag_store sample_rate selected_parent_daa_score blue_score_threshold 0
    (selected_parent_block :: descending)

/-- `SampledWindowManager::try_push_mergeset`: the heap after offering the
    sampled blocks, and whether the selected parent was already too low to
    enter. -/
def try_push_mergeset (self : SampledWindowManager H) (heap : BoundedSizeBlockHeap H)
    (sample_rate : UInt64) (ghostdag_data : GhostdagData H) (selected_parent_blue_work : ℕ) :
    Except DifficultyFault (BoundedSizeBlockHeap H × Bool) := do
  if !(← heap.can_push ghostdag_data.selected_parent selected_parent_blue_work) then
    return (heap, true)
  let blocks ← self.sampled_mergeset_iterator sample_rate ghostdag_data selected_parent_blue_work
  return (heap.push_sampled_until_rejected blocks, false)

end SampledWindowManager

end KashWindow
