import Kash.Hashing
import Kash.Script.DataStack

/-! # Merkle roots (`kash_merkle`, `consensus/core/src/merkle.rs`)

    `calc_merkle_root` lays the tree out in one array: the leaves padded with
    `None` to the next power of two, then each level's nodes after the level below.
    A node with no left child is `None`; a node with a left child and no right one
    hashes the left child with `ZERO_HASH`. The root is the last slot. The branch
    hasher `MerkleBranchHash` is a parameter. -/

namespace KashMerkle

open KashTx KashHashing KashScript

/-- `merkle_hash`: the branch hash of the two children. -/
def merkle_hash (MerkleBranchHash : Bytes → Hash) (left right : Hash) : Hash :=
  MerkleBranchHash (left.bytes ++ right.bytes)

/-- One iteration of the loop of `calc_merkle_root`, at `i = 2 * j`, writing the
    parent into slot `next_pot + j`. Each index is checked as the Rust indexing
    checks it. -/
def merkle_step (MerkleBranchHash : Bytes → Hash) (next_pot : ℕ) (merkles : Array (Option Hash))
    (j : ℕ) : Except PanicSite (Array (Option Hash)) :=
  let i := 2 * j
  let offset := next_pot + j
  if h : i + 1 < merkles.size ∧ offset < merkles.size then
    match merkles[i] with
    | none => .ok (merkles.set offset none h.2)
    | some left =>
        .ok (merkles.set offset
          (some (merkle_hash MerkleBranchHash left (merkles[i + 1].getD ZERO_HASH))) h.2)
  else .error .index_out_of_bounds

/-- `calc_merkle_root`. -/
def calc_merkle_root (MerkleBranchHash : Bytes → Hash) (hashes : List Hash) :
    Except PanicSite Hash :=
  if hashes.length = 0 then .ok ZERO_HASH
  else
    let next_pot := hashes.length.nextPowerOfTwo
    let vec_len := 2 * next_pot - 1
    let merkles := (hashes.map some ++ List.replicate (vec_len - hashes.length) none).toArray
    -- `(0..vec_len - 1).step_by(2)` visits `i = 2 * j` for `j < next_pot - 1`
    match (List.range (next_pot - 1)).foldlM (merkle_step MerkleBranchHash next_pot) merkles with
    | .error site => .error site
    | .ok merkles =>
        match merkles.back? with
        | some (some root) => .ok root
        | _ => .error .unwrap_none

/-- `calc_hash_merkle_root_with_options`: the root over the transactions' hashes. -/
def calc_hash_merkle_root_with_options (TransactionHash MerkleBranchHash : Bytes → Hash)
    (txs : List Transaction) (include_mass_field : Bool) : Except PanicSite Hash :=
  calc_merkle_root MerkleBranchHash (txs.map fun tx => hash TransactionHash tx include_mass_field)

end KashMerkle
