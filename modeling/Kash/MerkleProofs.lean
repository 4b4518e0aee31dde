import Mathlib
import Kash.Merkle
import Kash.Lib.FlatTree

/-! # The flat Merkle array computes the tree's root

    `calc_merkle_root` lays a perfect binary tree out in one array, the leaves
    padded with `None` to the next power of two (`FlatTree`). Its tree, read as a
    recursion on lists, is `merkle_root_spec`: one leaf is the root, and more leaves
    go up one level by `merkle_pairs`, which hashes neighbours and an odd last leaf
    with `ZERO_HASH`.

    * `merkle_step_eq` — each step of the loop stays in bounds and writes the node
      rule `merkle_node` of the two slots below;
    * `merkle_steps_eq` — the whole loop is `FlatTree.fill` on the slots;
    * `root_leaves` — on leaves padded with `None`, the level above is the padded
      `merkle_pairs`, so the tree's root over a power of two less than twice the
      leaves is `merkle_root_spec`;
    * `calc_merkle_root_eq_spec` — the root of the array is that root, with no
      index out of range and no `unwrap` of `None`. -/

namespace KashMerkle

open KashTx KashHashing KashScript FlatTree

variable (MerkleBranchHash : Bytes → Hash)

/-- The node rule of the array: a node without a left child is `None`; otherwise the
    hash of the left child with the right one, or with `ZERO_HASH` when there is none. -/
def merkle_node (left right : Option Hash) : Option Hash :=
  match left with
  | none => none
  | some left => some (merkle_hash MerkleBranchHash left (right.getD ZERO_HASH))

/-- One level up (`pairs`): `l[2i]` hashed with `l[2i+1]`, or with `ZERO_HASH` when
    `l[2i+1]` is missing. -/
def merkle_pairs : List Hash → List Hash
  | a :: b :: rest => merkle_hash MerkleBranchHash a b :: merkle_pairs rest
  | [a] => [merkle_hash MerkleBranchHash a ZERO_HASH]
  | [] => []

theorem merkle_pairs_length : ∀ l : List Hash, (merkle_pairs MerkleBranchHash l).length = (l.length + 1) / 2
  | a :: b :: rest => by
      simp only [merkle_pairs, List.length_cons, merkle_pairs_length rest]
      omega
  | [_] => by simp [merkle_pairs]
  | [] => rfl

/-- The Merkle root of the tree over the hashes (`MR`): a single hash is the root,
    more go up a level; no hashes give `ZERO_HASH`. -/
def merkle_root_spec : List Hash → Hash
  | [] => ZERO_HASH
  | [h] => h
  | a :: b :: rest => merkle_root_spec (merkle_pairs MerkleBranchHash (a :: b :: rest))
termination_by l => l.length
decreasing_by
  rw [merkle_pairs_length]
  simp only [List.length_cons]
  omega

/-! ## The tree over padded leaves -/

/-- Entry `j` of the level above is the node rule of entries `2 j` and `2 j + 1`,
    `None` past the end. -/
theorem getElem?_merkle_pairs :
    ∀ (l : List Hash) (j : ℕ),
      (merkle_pairs MerkleBranchHash l)[j]? = merkle_node MerkleBranchHash l[2 * j]? l[2 * j + 1]?
  | a :: b :: rest, 0 => rfl
  | a :: b :: rest, j + 1 => by
      rw [merkle_pairs, List.getElem?_cons_succ, getElem?_merkle_pairs rest j]
      rfl
  | [_], 0 => rfl
  | [_], _ + 1 => rfl
  | [], _ => rfl

/-- **THE PADDED TREE**: over `2 ^ m` leaves, the hashes padded with `None`, the tree's
    root is `merkle_root_spec` when the hashes fill more than half of them. A level of
    padded leaves goes up to the padded `merkle_pairs`, which fills more than half of
    the level above. -/
theorem root_leaves :
    ∀ (m : ℕ) (l : List Hash), l.length ≤ 2 ^ m → 2 ^ m < 2 * l.length →
      root (merkle_node MerkleBranchHash) m (fun s => l[s]?) = some (merkle_root_spec MerkleBranchHash l)
  | 0, l, h₁, h₂ => by
      obtain ⟨a, rfl⟩ : ∃ a, l = [a] := List.length_eq_one_iff.mp (by norm_num at h₁ h₂; omega)
      rw [merkle_root_spec]
      rfl
  | m + 1, l, h₁, h₂ => by
      have hpow : 2 ^ (m + 1) = 2 * 2 ^ m := by rw [pow_succ]; ring
      have hpos : 0 < 2 ^ m := by positivity
      rcases l with _ | ⟨a, _ | ⟨b, rest⟩⟩
      · simp only [List.length_nil] at h₂
        omega
      · simp only [List.length_singleton] at h₂
        omega
      have hlevel : levelUp (merkle_node MerkleBranchHash) (fun s => (a :: b :: rest)[s]?) =
          fun j => (merkle_pairs MerkleBranchHash (a :: b :: rest))[j]? := by
        funext j
        rw [getElem?_merkle_pairs]
        rfl
      have hlen := merkle_pairs_length MerkleBranchHash (a :: b :: rest)
      show root _ m (levelUp _ _) = _
      rw [hlevel, root_leaves m _ (by omega) (by omega), merkle_root_spec]

/-! ## The loop over the array -/

/-- The slots of the array, `None` past its end. -/
def slots (merkles : Array (Option Hash)) : ℕ → Option Hash := fun s => merkles[s]?.getD none

theorem slots_eq_getElem {merkles : Array (Option Hash)} {s : ℕ} (h : s < merkles.size) :
    slots merkles s = merkles[s] := by
  unfold slots
  rw [Array.getElem?_eq_getElem h]
  rfl

theorem slots_set (merkles : Array (Option Hash)) {i : ℕ} (h : i < merkles.size) (v : Option Hash) :
    slots (merkles.set i v h) = Function.update (slots merkles) i v := by
  funext s
  unfold slots
  rw [Array.getElem?_set]
  by_cases hs : s = i
  · subst hs
    rw [if_pos rfl, Function.update_self]
    rfl
  · rw [if_neg (Ne.symm hs), Function.update_of_ne hs]

/-- A step whose three slots lie in the array writes the node rule of the two slots
    below into slot `next_pot + j`. -/
theorem merkle_step_eq {next_pot j : ℕ} {merkles : Array (Option Hash)}
    (h₁ : 2 * j + 1 < merkles.size) (h₂ : next_pot + j < merkles.size) :
    merkle_step MerkleBranchHash next_pot merkles j =
      .ok (merkles.set (next_pot + j)
        (merkle_node MerkleBranchHash merkles[2 * j] merkles[2 * j + 1]) h₂) := by
  unfold merkle_step
  rw [dif_pos ⟨h₁, h₂⟩]
  split <;> rename_i hleft <;> rw [hleft] <;> rfl

/-- **THE LOOP**: in an array of `2 * next_pot - 1` slots, the first `k` steps succeed
    and write the slots `FlatTree.fill` writes. -/
theorem merkle_steps_eq {next_pot : ℕ} (merkles : Array (Option Hash))
    (hsize : merkles.size = 2 * next_pot - 1) :
    ∀ k, k + 1 ≤ next_pot → ∃ merkles',
      (List.range k).foldlM (merkle_step MerkleBranchHash next_pot) merkles = .ok merkles' ∧
        merkles'.size = merkles.size ∧
        slots merkles' = fill (merkle_node MerkleBranchHash) next_pot (slots merkles) k
  | 0, _ => ⟨merkles, rfl, rfl, rfl⟩
  | k + 1, hk => by
      obtain ⟨A, hrun, hA, hslots⟩ := merkle_steps_eq merkles hsize k (by omega)
      have h₁ : 2 * k + 1 < A.size := by omega
      have h₂ : next_pot + k < A.size := by omega
      refine ⟨A.set (next_pot + k) (merkle_node MerkleBranchHash A[2 * k] A[2 * k + 1]) h₂,
        ?_, by rw [Array.size_set, hA], ?_⟩
      · rw [List.range_succ, List.foldlM_append, hrun, ExceptLoops.ok_bind, List.foldlM_cons,
          merkle_step_eq MerkleBranchHash h₁ h₂, ExceptLoops.ok_bind, List.foldlM_nil]
        rfl
      · rw [slots_set, fill_succ, ← hslots, slots_eq_getElem (by omega : 2 * k < A.size),
          slots_eq_getElem h₁]

/-! ## The root -/

/-- The leaves of the array are the hashes, `None` past them. -/
theorem slots_leaves (hashes : List Hash) (pad : ℕ) (s : ℕ) :
    slots (hashes.map some ++ List.replicate pad none).toArray s = hashes[s]? := by
  unfold slots
  rw [List.getElem?_toArray]
  by_cases hs : s < hashes.length
  · rw [List.getElem?_append_left (by simpa using hs), List.getElem?_map]
    rw [List.getElem?_eq_getElem hs]
    rfl
  · rw [List.getElem?_append_right (by simpa using hs), List.getElem?_replicate,
      List.getElem?_eq_none (by omega)]
    split_ifs <;> rfl

/-- `calc_merkle_root` returns the root of the tree over the hashes, `ZERO_HASH` for
    none, with no index out of range and no `unwrap` of `None`. -/
theorem calc_merkle_root_eq_spec (hashes : List Hash) :
    calc_merkle_root MerkleBranchHash hashes = .ok (merkle_root_spec MerkleBranchHash hashes) := by
  unfold calc_merkle_root
  by_cases hn : hashes.length = 0
  · rw [if_pos hn, List.eq_nil_of_length_eq_zero hn, merkle_root_spec]
  rw [if_neg hn]
  dsimp only
  -- `next_pot = 2 ^ m` leaves, more than half of them hashes
  obtain ⟨m, hm⟩ := Nat.isPowerOfTwo_nextPowerOfTwo hashes.length
  have hle := le_nextPowerOfTwo hashes.length
  have hlt := nextPowerOfTwo_lt_two_mul (Nat.pos_of_ne_zero hn)
  rw [hm] at hle hlt ⊢
  have hpos : 0 < 2 ^ m := by positivity
  set merkles := (hashes.map some ++ List.replicate (2 * 2 ^ m - 1 - hashes.length) none).toArray
  have hsize : merkles.size = 2 * 2 ^ m - 1 := by
    simp only [merkles, List.size_toArray, List.length_append, List.length_map,
      List.length_replicate]
    omega
  obtain ⟨A, hrun, hA, hslots⟩ := merkle_steps_eq MerkleBranchHash merkles hsize (2 ^ m - 1) (by omega)
  obtain ⟨hlayout, hkeep⟩ := @fill_layout _ (merkle_node MerkleBranchHash) _ hpos (slots merkles)
  -- the last slot holds the root of the layout, whose leaves are the hashes
  have hroot : slots A (2 * 2 ^ m - 2) = some (merkle_root_spec MerkleBranchHash hashes) := by
    calc slots A (2 * 2 ^ m - 2)
        = fill (merkle_node MerkleBranchHash) (2 ^ m) (slots merkles) (2 ^ m - 1) (2 * 2 ^ m - 2) := by
          rw [hslots]
      _ = root (merkle_node MerkleBranchHash) m
            (fill (merkle_node MerkleBranchHash) (2 ^ m) (slots merkles) (2 ^ m - 1)) :=
          hlayout.last_eq_root m
      _ = root (merkle_node MerkleBranchHash) m (fun s => hashes[s]?) :=
          root_congr m fun s hs => by rw [hkeep s hs, slots_leaves]
      _ = some (merkle_root_spec MerkleBranchHash hashes) := root_leaves MerkleBranchHash m hashes hle hlt
  have hback : A.back? = some (some (merkle_root_spec MerkleBranchHash hashes)) := by
    rw [Array.back?_eq_getElem?, Array.getElem?_eq_getElem (by omega), ← slots_eq_getElem,
      hA, hsize, show 2 * 2 ^ m - 1 - 1 = 2 * 2 ^ m - 2 by omega, hroot]
  rw [hrun]
  dsimp only
  rw [hback]

/-- The flat array agrees with the tree: for every branch hash, `calc_merkle_root`
    returns `merkle_root_spec` of the hashes (`ZERO_HASH` for none) and never panics;
    so does the root over a block's transaction hashes. -/
theorem calc_merkle_root_layout_agrees :
    (∀ (MerkleBranchHash : Bytes → Hash) (hashes : List Hash),
      calc_merkle_root MerkleBranchHash hashes = .ok (merkle_root_spec MerkleBranchHash hashes)) ∧
    (∀ (TransactionHash MerkleBranchHash : Bytes → Hash) (txs : List Transaction)
        (include_mass_field : Bool),
      calc_hash_merkle_root_with_options TransactionHash MerkleBranchHash txs include_mass_field =
        .ok (merkle_root_spec MerkleBranchHash
          (txs.map fun tx => hash TransactionHash tx include_mass_field))) :=
  ⟨calc_merkle_root_eq_spec, fun _ MerkleBranchHash _ _ => calc_merkle_root_eq_spec MerkleBranchHash _⟩

end KashMerkle
