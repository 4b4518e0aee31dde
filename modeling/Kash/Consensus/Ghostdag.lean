import Kash.Lib.ListSet
import Kash.Lib.AListLoops
import Mathlib

/-! # GHOSTDAG (`consensus/src/processes/ghostdag`, `model/stores/ghostdag.rs`)

    A new block's GHOSTDAG data is computed from its parents: the parent of
    highest `(blue_work, hash)` is the selected parent; the mergeset is every
    block in the past of the parents and not in the past of the selected
    parent (`unordered_mergeset_without_selected_parent`, a breadth-first
    search over parent links that prunes at the selected parent's past); the
    mergeset is sorted by `(blue_work, hash)` and each block, in that order, is
    coloured blue when adding it keeps every blue anticone within `k`
    (`check_blue_candidate`), red otherwise. The blue score and blue work are
    the selected parent's plus those of the mergeset blues.

    Block hashes are any linearly ordered type `H`. The stores the manager reads
    are functions from a hash to its entry; a read of a missing entry is the
    `unwrap` panic `missing_entry`. The reachability service is an oracle
    `is_dag_ancestor_of`. Hash sets are `ListSet`s and hash maps `Map`s, so the
    model fixes one iteration order where the source promises none; results
    that are sorted afterwards do not depend on it. The `loop`s walking the
    selected chain and the search's `while` have no bound in the source; here
    each runs at most `fuel` iterations and reports `out_of_fuel` beyond.

    `u64` blue scores panic on overflow (the release profile checks it);
    `Uint192` blue work wraps, as its `Add` only asserts in debug builds.
    `KType` counts are natural numbers: they stay within `k + 1`. -/

namespace KashGhostdag

open AListLoops

/-- Where GHOSTDAG stops short. -/
inductive GhostdagFault
  /-- A store read's `unwrap` on a missing entry. -/
  | missing_entry
  /-- `assert!(!parents.is_empty(), ...)`. -/
  | no_parents
  /-- `panic!("block {block} is not in blue set of the given context")`. -/
  | not_in_blue_set
  /-- `assert!(... <= self.k, "found blue anticone larger than K")`. -/
  | blue_anticone_larger_than_k
  /-- `u64` addition past `u64::MAX`. -/
  | add_with_overflow
  /-- Division of a `Uint256` by zero. -/
  | division_by_zero
  /-- `expect("Work should not exceed 2**192")`. -/
  | work_exceeds_192_bits
  /-- `panic!("distinct blocks are never equal")`. -/
  | distinct_blocks_equal
  /-- A loop of the model ran out of its iteration bound. -/
  | out_of_fuel
  deriving DecidableEq, Repr

/-! ## Data -/

/-- `GhostdagData`. -/
structure GhostdagData (H : Type) where
  blue_score : ℕ
  blue_work : ℕ
  selected_parent : H
  mergeset_blues : List H
  mergeset_reds : List H
  blues_anticone_sizes : Map H ℕ
  deriving DecidableEq

/-- `SortableBlock`, ordered by blue work and then by hash. -/
structure SortableBlock (H : Type) where
  hash : H
  blue_work : ℕ
  deriving DecidableEq

variable {H : Type} [LinearOrder H]

/-- `SortableBlock::cmp`. -/
def SortableBlock.cmp (a b : SortableBlock H) : Ordering :=
  (compare a.blue_work b.blue_work).then (compare a.hash b.hash)

namespace GhostdagData

/-- `GhostdagData::new_with_selected_parent`. -/
def new_with_selected_parent (selected_parent : H) (_k : ℕ) : GhostdagData H :=
  { blue_score := 0
    blue_work := 0
    selected_parent
    mergeset_blues := [selected_parent]
    mergeset_reds := []
    blues_anticone_sizes := (∅ : Map H ℕ).insert selected_parent 0 }

/-- `add_blue`: the block with its blue anticone size, and one more for each
    blue whose anticone it enters. -/
def add_blue (self : GhostdagData H) (block : H) (blue_anticone_size : ℕ)
    (block_blues_anticone_sizes : Map H ℕ) : GhostdagData H :=
  { self with
    mergeset_blues := self.mergeset_blues ++ [block]
    blues_anticone_sizes :=
      block_blues_anticone_sizes.entries.foldl (fun m e => m.insert e.1 (e.2 + 1))
        (self.blues_anticone_sizes.insert block blue_anticone_size) }

/-- `add_red`. -/
def add_red (self : GhostdagData H) (block : H) : GhostdagData H :=
  { self with mergeset_reds := self.mergeset_reds ++ [block] }

/-- `finalize_score_and_work`. -/
def finalize_score_and_work (self : GhostdagData H) (blue_score blue_work : ℕ) : GhostdagData H :=
  { self with blue_score, blue_work }

end GhostdagData

/-! ## Merge-joining the blues and the reds -/

/-- `itertools::EitherOrBoth`. -/
inductive EitherOrBoth (α : Type)
  | Left (a : α)
  | Right (a : α)
  | Both (a b : α)

/-- `merge_join_by`: two sequences merged by a comparison, a pair comparing
    equal taken together. -/
def merge_join_by {α : Type} (cmp : α → α → Ordering) : List α → List α → List (EitherOrBoth α)
  | [], ys => ys.map .Right
  | xs, [] => xs.map .Left
  | x :: xs, y :: ys =>
      match cmp x y with
      | .lt => .Left x :: merge_join_by cmp xs (y :: ys)
      | .gt => .Right y :: merge_join_by cmp (x :: xs) ys
      | .eq => .Both x y :: merge_join_by cmp xs ys

/-- The `map` after the merge: both sides yield their block, a pair panics. -/
def take_merged {α : Type} : List (EitherOrBoth α) → Except GhostdagFault (List α)
  | [] => .ok []
  | .Left b :: rest | .Right b :: rest => do pure (b :: (← take_merged rest))
  | .Both _ _ :: _ => .error .distinct_blocks_equal

section Stores

/-- The stores GHOSTDAG reads: the GHOSTDAG data of every block, its parents
    (the relations store) and its header's difficulty bits. -/
structure GhostdagStores (H : Type) where
  ghostdag : H → Option (GhostdagData H)
  relations : H → Option (List H)
  bits : H → Option UInt32

/-- A store read with `unwrap`. -/
def read {α : Type} (entry : Option α) : Except GhostdagFault α :=
  match entry with
  | some a => .ok a
  | none => .error .missing_entry

variable (stores : GhostdagStores H)

/-- `get_data`. -/
def GhostdagStores.get_data (hash : H) : Except GhostdagFault (GhostdagData H) :=
  read (stores.ghostdag hash)

/-- `get_blue_work`. -/
def GhostdagStores.get_blue_work (hash : H) : Except GhostdagFault ℕ := do
  pure (← stores.get_data hash).blue_work

/-- `get_blue_score`. -/
def GhostdagStores.get_blue_score (hash : H) : Except GhostdagFault ℕ := do
  pure (← stores.get_data hash).blue_score

/-- `get_selected_parent`. -/
def GhostdagStores.get_selected_parent (hash : H) : Except GhostdagFault H := do
  pure (← stores.get_data hash).selected_parent

/-- `get_blues_anticone_sizes`. -/
def GhostdagStores.get_blues_anticone_sizes (hash : H) : Except GhostdagFault (Map H ℕ) := do
  pure (← stores.get_data hash).blues_anticone_sizes

/-- `ascending_mergeset_without_selected_parent`: the blues after the selected
    parent and the reds, each with its blue work, merged in ascending order. -/
def GhostdagData.ascending_mergeset_without_selected_parent (self : GhostdagData H) :
    Except GhostdagFault (List (SortableBlock H)) := do
  let blues ← self.mergeset_blues.tail.mapM fun h => do
    pure (⟨h, ← stores.get_blue_work h⟩ : SortableBlock H)
  let reds ← self.mergeset_reds.mapM fun h => do
    pure (⟨h, ← stores.get_blue_work h⟩ : SortableBlock H)
  take_merged (merge_join_by SortableBlock.cmp blues reds)

/-- `descending_mergeset_without_selected_parent`: the same lists reversed,
    merged by the reversed comparison. -/
def GhostdagData.descending_mergeset_without_selected_parent (self : GhostdagData H) :
    Except GhostdagFault (List (SortableBlock H)) := do
  let blues ← self.mergeset_blues.tail.reverse.mapM fun h => do
    pure (⟨h, ← stores.get_blue_work h⟩ : SortableBlock H)
  let reds ← self.mergeset_reds.reverse.mapM fun h => do
    pure (⟨h, ← stores.get_blue_work h⟩ : SortableBlock H)
  take_merged (merge_join_by (fun a b => SortableBlock.cmp b a) blues reds)

/-- `consensus_ordered_mergeset`: the selected parent, then the rest of the
    mergeset in ascending order. -/
def GhostdagData.consensus_ordered_mergeset (self : GhostdagData H) :
    Except GhostdagFault (List H) := do
  let rest ← self.ascending_mergeset_without_selected_parent stores
  pure (self.selected_parent :: rest.map (·.hash))

end Stores

/-! ## The mergeset -/

/-- The state of the mergeset search: the queue, the mergeset so far and the
    blocks found in the selected parent's past. -/
structure MergesetSearch (H : Type) where
  queue : List H
  mergeset : ListSet H
  past : ListSet H

section Mergeset

variable (get_parents : H → Option (List H)) (is_dag_ancestor_of : H → H → Bool)
  (selected_parent : H)

/-- One parent of the current block: skipped when seen, recorded in `past` when
    it is in the selected parent's past, added to the mergeset and queued
    otherwise. -/
def visit_parent (s : MergesetSearch H) (parent : H) : MergesetSearch H :=
  if parent ∈ s.mergeset ∨ parent ∈ s.past then s
  else if is_dag_ancestor_of parent selected_parent then { s with past := (s.past.insert parent).1 }
  else { s with mergeset := (s.mergeset.insert parent).1, queue := s.queue ++ [parent] }

/-- The `while let Some(current) = queue.pop_front()` loop. -/
def mergeset_loop : ℕ → MergesetSearch H → Except GhostdagFault (ListSet H)
  | 0, _ => .error .out_of_fuel
  | fuel + 1, s =>
      match s.queue with
      | [] => .ok s.mergeset
      | current :: queue => do
          let current_parents ← read (get_parents current)
          mergeset_loop fuel (current_parents.foldl (visit_parent is_dag_ancestor_of selected_parent)
            { s with queue })

/-- `unordered_mergeset_without_selected_parent`: the search starts from the
    parents other than the selected parent, all in the mergeset. -/
def unordered_mergeset_without_selected_parent (parents : List H) (fuel : ℕ) :
    Except GhostdagFault (ListSet H) :=
  let queue := parents.filter (· ≠ selected_parent)
  let mergeset := queue.foldl (fun m p => (m.insert p).1) ∅
  mergeset_loop get_parents is_dag_ancestor_of selected_parent fuel ⟨queue, mergeset, ∅⟩

end Mergeset

/-! ## The manager -/

/-- `Uint256::from_compact_target_bits`. -/
def from_compact_target_bits (bits : UInt32) : ℕ :=
  let unshifted_expt := bits.toNat / 2 ^ 24
  let (mant, expt) :=
    if unshifted_expt ≤ 3 then ((bits.toNat % 2 ^ 24) / 2 ^ (8 * (3 - unshifted_expt)), 0)
    else (bits.toNat % 2 ^ 24, 8 * (unshifted_expt - 3))
  if mant > 0x7FFFFF then 0 else mant * 2 ^ (expt % 256) % 2 ^ 256

/-- `Uint256::bits`: the least number of bits that holds the value. -/
def bits (self : ℕ) : ℕ := self.size

/-- `Uint256::compact_target_bits`: the byte length as the exponent and the top
    three bytes as the mantissa, which moves one byte down when its sign bit is
    set. `as_u64` keeps the low word, `as u32` its low half, and the `u32`
    exponent is shifted into the top byte. -/
def compact_target_bits (self : ℕ) : UInt32 :=
  let size := (bits self + 7) / 8
  let compact : UInt32 :=
    if size ≤ 3 then (self % 2 ^ 64 * 2 ^ (8 * (3 - size)) % 2 ^ 64).toUInt32
    else (self / 2 ^ (8 * (size - 3) % 256) % 2 ^ 64).toUInt32
  let negative := compact &&& 0x00800000 ≠ 0
  let compact := if negative then compact >>> 8 else compact
  let size := if negative then size + 1 else size
  compact ||| (size.toUInt32 <<< 24)

/-- `calc_work`: `!target / (target + 1) + 1` in `Uint256`, narrowed to `Uint192`. -/
def calc_work (bits : UInt32) : Except GhostdagFault ℕ := do
  let target := from_compact_target_bits bits
  let divisor := (target + 1) % 2 ^ 256
  if divisor = 0 then throw .division_by_zero
  let res := ((2 ^ 256 - 1 - target) / divisor + 1) % 2 ^ 256
  if res < 2 ^ 192 then pure res else throw .work_exceeds_192_bits

/-- `GhostdagManager`: the genesis, `ORIGIN`, `k`, the stores, the reachability
    oracle, and the iteration bound of the model's loops. -/
structure GhostdagManager (H : Type) where
  genesis_hash : H
  origin : H
  k : ℕ
  stores : GhostdagStores H
  is_dag_ancestor_of : H → H → Bool
  fuel : ℕ

/-- A block of the selected chain, with its data; `hash` is none for the new
    block. -/
structure ChainBlock (H : Type) where
  hash : Option H
  data : GhostdagData H

/-- `ColoringState`. -/
inductive ColoringState
  | Blue
  | Red
  | Pending
  deriving DecidableEq

/-- `ColoringOutput`. -/
inductive ColoringOutput (H : Type)
  | Blue (blue_anticone_size : ℕ) (blues_anticone_sizes : Map H ℕ)
  | Red

namespace GhostdagManager

variable (self : GhostdagManager H)

/-- `genesis_ghostdag_data`. -/
def genesis_ghostdag_data : GhostdagData H := ⟨0, 0, self.origin, [], [], ∅⟩

/-- `find_selected_parent`: the last maximum by `(blue_work, hash)`. -/
def find_selected_parent (parents : List H) : Except GhostdagFault H := do
  let blocks ← parents.mapM fun parent => do
    pure (⟨parent, ← self.stores.get_blue_work parent⟩ : SortableBlock H)
  match blocks with
  | [] => throw .no_parents
  | b :: bs => pure (bs.foldl (fun x y => if SortableBlock.cmp x y = .gt then x else y) b).hash

/-- `sort_blocks`: a stable sort by `(blue_work, hash)`. -/
def sort_blocks (blocks : List H) : Except GhostdagFault (List H) := do
  let keyed ← blocks.mapM fun block => do
    pure (⟨block, ← self.stores.get_blue_work block⟩ : SortableBlock H)
  pure ((keyed.insertionSort fun a b => SortableBlock.cmp a b ≠ .gt).map (·.hash))

/-- `ordered_mergeset_without_selected_parent`. -/
def ordered_mergeset_without_selected_parent (selected_parent : H) (parents : List H) :
    Except GhostdagFault (List H) := do
  let mergeset ← unordered_mergeset_without_selected_parent self.stores.relations
    self.is_dag_ancestor_of selected_parent parents self.fuel
  self.sort_blocks mergeset.elems

/-- The `loop` of `blue_anticone_size`: the first map on the selected chain
    from `context` down that holds `block`. -/
def blue_anticone_size_loop (block : H) : ℕ → Map H ℕ → H → Except GhostdagFault ℕ
  | 0, _, _ => .error .out_of_fuel
  | fuel + 1, current_blues_anticone_sizes, current_selected_parent =>
      match current_blues_anticone_sizes.get block with
      | some size => .ok size
      | none =>
          if current_selected_parent = self.genesis_hash ∨ current_selected_parent = self.origin then
            .error .not_in_blue_set
          else do
            let sizes ← self.stores.get_blues_anticone_sizes current_selected_parent
            let selected_parent ← self.stores.get_selected_parent current_selected_parent
            blue_anticone_size_loop block fuel sizes selected_parent

/-- `blue_anticone_size`. -/
def blue_anticone_size (block : H) (context : GhostdagData H) : Except GhostdagFault ℕ :=
  self.blue_anticone_size_loop block self.fuel context.blues_anticone_sizes context.selected_parent

/-- The `for` loop of `check_blue_candidate_with_chain_block` over the chain
    block's blues, carrying the candidate's map and count. -/
def check_chain_blues (new_block_data : GhostdagData H) (blue_candidate : H) :
    List H → Map H ℕ → ℕ → Except GhostdagFault (ColoringState × Map H ℕ × ℕ)
  | [], sizes, size => .ok (.Pending, sizes, size)
  | block :: blocks, sizes, size =>
      -- blues in the candidate's past are not in its anticone
      if self.is_dag_ancestor_of block blue_candidate then
        check_chain_blues new_block_data blue_candidate blocks sizes size
      else do
        let block_size ← self.blue_anticone_size block new_block_data
        let sizes := sizes.insert block block_size
        let size := size + 1
        if size > self.k then pure (.Red, sizes, size)
        else if block_size = self.k then pure (.Red, sizes, size)
        else if block_size ≤ self.k then check_chain_blues new_block_data blue_candidate blocks sizes size
        else throw .blue_anticone_larger_than_k

/-- `check_blue_candidate_with_chain_block`. -/
def check_blue_candidate_with_chain_block (new_block_data : GhostdagData H)
    (chain_block : ChainBlock H) (blue_candidate : H) (sizes : Map H ℕ) (size : ℕ) :
    Except GhostdagFault (ColoringState × Map H ℕ × ℕ) :=
  match chain_block.hash with
  | some hash =>
      -- a chain block in the candidate's past has every remaining blue there too
      if self.is_dag_ancestor_of hash blue_candidate then .ok (.Blue, sizes, size)
      else self.check_chain_blues new_block_data blue_candidate chain_block.data.mergeset_blues sizes size
  | none => self.check_chain_blues new_block_data blue_candidate chain_block.data.mergeset_blues sizes size

/-- The `loop` of `check_blue_candidate` down the selected chain. -/
def check_blue_candidate_loop (new_block_data : GhostdagData H) (blue_candidate : H) :
    ℕ → ChainBlock H → Map H ℕ → ℕ → Except GhostdagFault (ColoringOutput H)
  | 0, _, _, _ => .error .out_of_fuel
  | fuel + 1, chain_block, sizes, size => do
      match ← self.check_blue_candidate_with_chain_block new_block_data chain_block blue_candidate
          sizes size with
      | (.Blue, sizes, size) => pure (.Blue size sizes)
      | (.Red, _, _) => pure .Red
      | (.Pending, sizes, size) =>
          let data ← self.stores.get_data chain_block.data.selected_parent
          check_blue_candidate_loop new_block_data blue_candidate fuel
            ⟨some chain_block.data.selected_parent, data⟩ sizes size

/-- `check_blue_candidate`. -/
def check_blue_candidate (new_block_data : GhostdagData H) (blue_candidate : H) :
    Except GhostdagFault (ColoringOutput H) :=
  if new_block_data.mergeset_blues.length = self.k + 1 then .ok .Red
  else self.check_blue_candidate_loop new_block_data blue_candidate self.fuel
    ⟨none, new_block_data⟩ ∅ 0

/-- One candidate of the coloring loop of `ghostdag`. -/
def color_candidate (new_block_data : GhostdagData H) (blue_candidate : H) :
    Except GhostdagFault (GhostdagData H) := do
  match ← self.check_blue_candidate new_block_data blue_candidate with
  | .Blue blue_anticone_size blues_anticone_sizes =>
      pure (new_block_data.add_blue blue_candidate blue_anticone_size blues_anticone_sizes)
  | .Red => pure (new_block_data.add_red blue_candidate)

/-- The work a mergeset blue adds: none for `ORIGIN`. -/
def blue_work_of (hash : H) : Except GhostdagFault ℕ :=
  if hash = self.origin then .ok 0
  else do calc_work (← read (self.stores.bits hash))

/-- `ghostdag`. -/
def ghostdag (parents : List H) : Except GhostdagFault (GhostdagData H) := do
  if parents = [] then throw .no_parents
  let selected_parent ← self.find_selected_parent parents
  let new_block_data := GhostdagData.new_with_selected_parent selected_parent self.k
  let ordered_mergeset ← self.ordered_mergeset_without_selected_parent selected_parent parents
  let new_block_data ← ordered_mergeset.foldlM self.color_candidate new_block_data
  let selected_parent_score ← self.stores.get_blue_score selected_parent
  let blue_score := selected_parent_score + new_block_data.mergeset_blues.length
  if 2 ^ 64 ≤ blue_score then throw .add_with_overflow
  -- `Uint192` sums wrap
  let works ← new_block_data.mergeset_blues.mapM self.blue_work_of
  let added_blue_work := works.foldl (fun a b => (a + b) % 2 ^ 192) 0
  let blue_work := (← self.stores.get_blue_work selected_parent) + added_blue_work
  pure (new_block_data.finalize_score_and_work blue_score (blue_work % 2 ^ 192))

end GhostdagManager

end KashGhostdag
