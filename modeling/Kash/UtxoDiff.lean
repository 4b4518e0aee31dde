import Mathlib
import Kash.TxData
import Kash.Lib.AListLoops

/-! # The UTXO diff algebra of `consensus/core/src/utxo`

    A `UtxoCollection` is a hash map from outpoints to entries; a `UtxoDiff` is a
    pair of them, the entries it adds and the entries it removes. This file
    translates `utxo_collection.rs`, `utxo_diff.rs` and `utxo_view.rs`:

    * the collection loops (`intersection_with_remainder_having_daa_score_in_place`
      and its two siblings, `remove_collection`, `add_collection`, `intersects`,
      `intersects_with_rule`), whose set operators compare entries by DAA score
      only;
    * `with_diff_in_place` / `with_diff`, `diff_from`, and `add_transaction` with
      `remove_entry` / `add_entry`;
    * `ComposedUtxoView::get`, and `UtxoSetStore::write_diff` (`utxo_set.rs`),
      which applies a diff to a stored UTXO set.

    Every loop touches only the outpoint it visits, so each function is, at each
    outpoint, a function of the two diffs' contents at that outpoint. The
    per-outpoint readings (`withDiffCell`, `diffFromCell` and their clash tests)
    are stated here and proved to be what the loops compute; the laws of the
    algebra are proved over them in `UtxoDiffAlgebraProofs`. The one check that
    is not per-outpoint is the `General` test of `diff_from`, which compares two
    existentials over the whole collection. -/

namespace KashUtxoDiff

open KashTx AListLoops

/-- `UtxoCollection = HashMap<TransactionOutpoint, UtxoEntry>`. The order of
    `entries` is the hash map's iteration order, which the code never relies on. -/
abbrev UtxoCollection := Map TransactionOutpoint UtxoEntry

/-- An optional entry is present with the given DAA score. -/
def hasScore (x : Option UtxoEntry) (daa_score : UInt64) : Bool :=
  match x with
  | some entry => entry.block_daa_score == daa_score
  | none => false

/-- `contains_with_daa_score`. -/
def contains_with_daa_score (self : UtxoCollection) (outpoint : TransactionOutpoint)
    (daa_score : UInt64) : Bool :=
  hasScore (self.get outpoint) daa_score

/-- `remove_collection`: drop every key of `other`. -/
def remove_collection (self other : UtxoCollection) : UtxoCollection :=
  other.entries.foldl (fun m x => m.erase x.1) self

/-- `add_collection`: insert every entry of `other`, over what `self` holds. -/
def add_collection (self other : UtxoCollection) : UtxoCollection :=
  other.entries.foldl (fun m x => m.insert x.1 x.2) self

/-- `intersects`: some key lies in both collections (walking the smaller one). -/
def intersects (self other : UtxoCollection) : Bool :=
  if self.entries.length ≤ other.entries.length then
    self.entries.any (fun x => decide (x.1 ∈ other))
  else
    other.entries.any (fun x => decide (x.1 ∈ self))

/-- `intersects_with_rule`: the first common key whose two entries satisfy `rule`,
    walking the smaller collection; the rule always gets `self`'s entry first. -/
def intersects_with_rule (self other : UtxoCollection)
    (rule : TransactionOutpoint → UtxoEntry → UtxoEntry → Bool) :
    Option TransactionOutpoint :=
  if self.entries.length ≤ other.entries.length then
    self.entries.findSome? fun x =>
      match other.get x.1 with
      | some v2 => if rule x.1 x.2 v2 then some x.1 else none
      | none => none
  else
    other.entries.findSome? fun x =>
      match self.get x.1 with
      | some v1 => if rule x.1 v1 x.2 then some x.1 else none
      | none => none

/-- `intersection_with_remainder_having_daa_score_in_place`:
    `result ∪ (this ∩ other)` and `remainder ∪ (this ∖ other)`, by DAA score. -/
def intersection_with_remainder_having_daa_score_in_place (this other result remainder :
    UtxoCollection) : UtxoCollection × UtxoCollection :=
  this.entries.foldl
    (fun acc x =>
      if contains_with_daa_score other x.1 x.2.block_daa_score then
        (acc.1.insert x.1 x.2, acc.2)
      else (acc.1, acc.2.insert x.1 x.2))
    (result, remainder)

/-- `subtraction_having_daa_score_in_place`: `result ∪ (this ∖ other)`, by DAA score. -/
def subtraction_having_daa_score_in_place (this other result : UtxoCollection) :
    UtxoCollection :=
  this.entries.foldl
    (fun acc x =>
      if !contains_with_daa_score other x.1 x.2.block_daa_score then acc.insert x.1 x.2
      else acc)
    result

/-- `subtraction_with_remainder_having_daa_score_in_place`:
    `result ∪ (this ∖ other)` and `remainder ∪ (this ∩ other)`, by DAA score. -/
def subtraction_with_remainder_having_daa_score_in_place (this other result remainder :
    UtxoCollection) : UtxoCollection × UtxoCollection :=
  this.entries.foldl
    (fun acc x =>
      if !contains_with_daa_score other x.1 x.2.block_daa_score then
        (acc.1.insert x.1 x.2, acc.2)
      else (acc.1, acc.2.insert x.1 x.2))
    (result, remainder)

/-- A diff: the entries it adds and the entries it removes. -/
structure UtxoDiff where
  add : UtxoCollection
  remove : UtxoCollection

/-- `PartialEq` of `HashMap`: the same keys with the same values, whatever order the
    entries are listed in. -/
def collection_eq (a b : UtxoCollection) : Prop := a.toFinmap = b.toFinmap

instance (a b : UtxoCollection) : Decidable (collection_eq a b) :=
  inferInstanceAs (Decidable (a.toFinmap = b.toFinmap))

/-- The derived `PartialEq` of `UtxoDiff`. -/
def diff_eq (a b : UtxoDiff) : Prop := collection_eq a.add b.add ∧ collection_eq a.remove b.remove

/-- `UtxoDiff::default()`. -/
def UtxoDiff.empty : UtxoDiff := ⟨∅, ∅⟩

/-- `to_reversed`: the diff that undoes this one. -/
def UtxoDiff.to_reversed (d : UtxoDiff) : UtxoDiff := ⟨d.remove, d.add⟩

/-- `UtxoAlgebraError`, with the texts the code attaches. -/
inductive UtxoAlgebraError
  | DuplicateRemovePoint (outpoint : TransactionOutpoint)
  | DuplicateAddPoint (outpoint : TransactionOutpoint)
  | DoubleRemoveCall (outpoint : TransactionOutpoint)
  | DoubleAddCall (outpoint : TransactionOutpoint)
  | DiffIntersectionPoint (outpoint : TransactionOutpoint) (text : String)
  | General (text : String)
  deriving DecidableEq

/-- `with_diff_in_place`: apply `other` after `self`. The two sanity checks come
    first; the state is changed only when both pass, so the returned diff is the
    state of `self` afterwards. -/
def with_diff_in_place (self other : UtxoDiff) : Except UtxoAlgebraError UtxoDiff :=
  match intersects_with_rule other.remove self.remove
      (fun outpoint entry_to_add _existing_entry =>
        !contains_with_daa_score self.add outpoint entry_to_add.block_daa_score) with
  | some offending_outpoint => .error (.DuplicateRemovePoint offending_outpoint)
  | none =>
  match intersects_with_rule other.add self.add
      (fun outpoint _entry_to_add existing_entry =>
        !contains_with_daa_score other.remove outpoint existing_entry.block_daa_score) with
  | some offending_outpoint => .error (.DuplicateAddPoint offending_outpoint)
  | none =>
    -- removals: cancel an equal-score addition, else record the removal
    let r1 := intersection_with_remainder_having_daa_score_in_place other.remove self.add ∅
      self.remove
    let add1 := remove_collection self.add r1.1
    -- additions: cancel an equal-score removal, else record the addition
    let r2 := intersection_with_remainder_having_daa_score_in_place other.add r1.2 ∅ add1
    .ok ⟨r2.2, remove_collection r1.2 r2.1⟩

/-- `with_diff`: `with_diff_in_place` on a clone. -/
def with_diff (self other : UtxoDiff) : Except UtxoAlgebraError UtxoDiff :=
  with_diff_in_place self other

/-- `diff_from`: the diff that takes `self` to `other`, both read from one base. -/
def diff_from (self other : UtxoDiff) : Except UtxoAlgebraError UtxoDiff :=
  let rule_not_added_output_removed_with_daa_score :=
    fun (outpoint : TransactionOutpoint) (this_entry other_entry : UtxoEntry) =>
      !(other_entry.block_daa_score != this_entry.block_daa_score &&
        (contains_with_daa_score self.add outpoint other_entry.block_daa_score ||
          contains_with_daa_score other.remove outpoint this_entry.block_daa_score))
  match intersects_with_rule self.remove other.add
      rule_not_added_output_removed_with_daa_score with
  | some offending_outpoint =>
      .error (.DiffIntersectionPoint offending_outpoint "both in self.add and in other.remove")
  | none =>
  let rule_not_removed_output_added_with_daa_score :=
    fun (outpoint : TransactionOutpoint) (this_entry other_entry : UtxoEntry) =>
      !(other_entry.block_daa_score != this_entry.block_daa_score &&
        (contains_with_daa_score self.remove outpoint other_entry.block_daa_score ||
          contains_with_daa_score other.add outpoint this_entry.block_daa_score))
  match intersects_with_rule self.add other.remove
      rule_not_removed_output_added_with_daa_score with
  | some offending_outpoint =>
      .error (.DiffIntersectionPoint offending_outpoint "both in self.remove and in other.add")
  | none =>
  match intersects_with_rule self.remove other.remove
      (fun _outpoint this_entry other_entry =>
        other_entry.block_daa_score != this_entry.block_daa_score) with
  | some offending_outpoint =>
      .error (.DiffIntersectionPoint offending_outpoint
        "both in self.remove and other.remove with different DAA scores, with no corresponding entry in self.add")
  | none =>
    let r := subtraction_with_remainder_having_daa_score_in_place self.add other.add ∅ ∅
    if intersects r.2 self.remove != intersects r.2 other.remove then
      .error (.General
        "diff_from: outpoint both in self.add, other.add, and only one of self.remove and other.remove")
    else
      let result_remove := subtraction_having_daa_score_in_place other.remove self.remove r.1
      let result_add := subtraction_having_daa_score_in_place self.remove other.remove ∅
      .ok ⟨subtraction_having_daa_score_in_place other.add self.add result_add, result_remove⟩

/-- `remove_entry`: cancel an equal-score addition, or record a fresh removal. -/
def remove_entry (self : UtxoDiff) (outpoint : TransactionOutpoint) (entry : UtxoEntry) :
    Except UtxoAlgebraError UtxoDiff :=
  if contains_with_daa_score self.add outpoint entry.block_daa_score then
    .ok { self with add := self.add.erase outpoint }
  else if outpoint ∉ self.remove then
    .ok { self with remove := self.remove.insert outpoint entry }
  else .error (.DoubleRemoveCall outpoint)

/-- `add_entry`: cancel an equal-score removal, or record a fresh addition. -/
def add_entry (self : UtxoDiff) (outpoint : TransactionOutpoint) (entry : UtxoEntry) :
    Except UtxoAlgebraError UtxoDiff :=
  if contains_with_daa_score self.remove outpoint entry.block_daa_score then
    .ok { self with remove := self.remove.erase outpoint }
  else if outpoint ∉ self.add then
    .ok { self with add := self.add.insert outpoint entry }
  else .error (.DoubleAddCall outpoint)

/-- The entries a transaction's outputs become, at the given DAA score. -/
def output_entries (tx : Transaction) (block_daa_score : UInt64) :
    List (TransactionOutpoint × UtxoEntry) :=
  tx.outputs.zipIdx.map fun (output, i) =>
    (⟨tx.id, UInt32.ofNat i⟩,
      ⟨output.value, output.script_public_key, block_daa_score, tx.is_coinbase,
        output.asset_type⟩)

/-- `add_transaction`: remove every spent entry, then add every output. -/
def add_transaction (self : UtxoDiff) (transaction : PopulatedTransaction)
    (block_daa_score : UInt64) : Except UtxoAlgebraError UtxoDiff := do
  let d ← transaction.populated_inputs.foldlM
    (fun d ie => remove_entry d ie.1.previous_outpoint ie.2) self
  (output_entries transaction.tx block_daa_score).foldlM
    (fun d oe => add_entry d oe.1 oe.2) d

/-- A read-only UTXO view (`UtxoView::get`). -/
abbrev UtxoView := TransactionOutpoint → Option UtxoEntry

/-- `ComposedUtxoView::get`: the diff's added entry, else nothing if the diff
    removes the outpoint, else the base. -/
def compose (base : UtxoView) (diff : UtxoDiff) : UtxoView := fun outpoint =>
  match diff.add.get outpoint with
  | some entry => some entry
  | none => if outpoint ∈ diff.remove then none else base outpoint

/-- A collection read as a view. -/
def UtxoCollection.view (c : UtxoCollection) : UtxoView := fun outpoint => c.get outpoint

/-- `UtxoSetStore::write_diff`: delete the outpoints the diff removes, then write the
    entries it adds. -/
def write_diff (utxo_set : UtxoCollection) (utxo_diff : UtxoDiff) : UtxoCollection :=
  add_collection (remove_collection utxo_set utxo_diff.remove) utxo_diff.add

/-! ## What each collection loop computes at one outpoint -/

/-- `add_collection` reads `other`'s entry where it has one, else `self`'s. -/
theorem get_add_collection (self other : UtxoCollection) (k : TransactionOutpoint) :
    (add_collection self other).get k = (other.get k).or (self.get k) := by
  have h := foldl_pointwise (fun (m : UtxoCollection) k => m.get k) (fun _ v _ => some v)
    (fun (m : UtxoCollection) x => m.insert x.1 x.2)
    (fun m x k => get_insert m x.1 k x.2) other self k
  rw [add_collection, h]
  cases other.get k <;> rfl

/-- `remove_collection` drops exactly the keys of `other`. -/
theorem get_remove_collection (self other : UtxoCollection) (k : TransactionOutpoint) :
    (remove_collection self other).get k = if k ∈ other then none else self.get k := by
  have h := foldl_pointwise (fun (m : UtxoCollection) k => m.get k) (fun _ _ _ => none)
    (fun (m : UtxoCollection) x => m.erase x.1)
    (fun m x k => get_erase m x.1 k) other self k
  rw [remove_collection, h]
  by_cases hk : k ∈ other
  · obtain ⟨v, hv⟩ := Option.isSome_iff_exists.mp ((mem_iff_get_isSome other k).mp hk)
    rw [hv, if_pos hk]
  · have hnone : other.get k = none := by
      rw [← Option.not_isSome_iff_eq_none, ← mem_iff_get_isSome]
      exact hk
    rw [hnone, if_neg hk]

/-- A stored set with a diff written reads what the set composed with the diff reads. -/
theorem get_write_diff (utxo_set : UtxoCollection) (utxo_diff : UtxoDiff) (o : TransactionOutpoint) :
    (write_diff utxo_set utxo_diff).get o = compose utxo_set.view utxo_diff o := by
  rw [write_diff, get_add_collection, compose, get_remove_collection]
  cases utxo_diff.add.get o <;> rfl

/-- `intersection_with_remainder_having_daa_score_in_place`, key by key: an entry of
    `this` goes to the result when `other` holds the key with its DAA score, and to
    the remainder otherwise. -/
theorem get_intersection_with_remainder (this other result remainder : UtxoCollection)
    (k : TransactionOutpoint) :
    let r := intersection_with_remainder_having_daa_score_in_place this other result
      remainder
    (r.1.get k, r.2.get k) =
      match this.get k with
      | some v =>
          if hasScore (other.get k) v.block_daa_score then (some v, remainder.get k)
          else (result.get k, some v)
      | none => (result.get k, remainder.get k) := by
  have h := foldl_pointwise (fun (acc : UtxoCollection × UtxoCollection) k =>
      (acc.1.get k, acc.2.get k))
    (fun k v p => if hasScore (other.get k) v.block_daa_score then (some v, p.2)
      else (p.1, some v))
    (fun acc x => if contains_with_daa_score other x.1 x.2.block_daa_score then
      (acc.1.insert x.1 x.2, acc.2) else (acc.1, acc.2.insert x.1 x.2)) ?_ this
    (result, remainder) k
  · exact h.trans (by cases this.get k <;> rfl)
  · -- one step changes the visited key only, in one of the two collections
    intro acc x j
    by_cases hj : j = x.1
    · subst hj
      by_cases hc : hasScore (other.get x.1) x.2.block_daa_score = true <;>
        simp [contains_with_daa_score, hc]
    · by_cases hc : hasScore (other.get x.1) x.2.block_daa_score = true <;>
        simp [contains_with_daa_score, hc, hj]

/-- `subtraction_having_daa_score_in_place`, key by key: an entry of `this` is
    copied unless `other` holds the key with the same DAA score. -/
theorem get_subtraction (this other result : UtxoCollection) (k : TransactionOutpoint) :
    (subtraction_having_daa_score_in_place this other result).get k =
      match this.get k with
      | some v =>
          if hasScore (other.get k) v.block_daa_score then result.get k else some v
      | none => result.get k := by
  have h := foldl_pointwise (fun (m : UtxoCollection) k => m.get k)
    (fun k v r => if hasScore (other.get k) v.block_daa_score then r else some v)
    (fun acc x => if !contains_with_daa_score other x.1 x.2.block_daa_score then
      acc.insert x.1 x.2 else acc) ?_ this result k
  · exact h.trans (by cases this.get k <;> rfl)
  · intro acc x j
    by_cases hj : j = x.1
    · subst hj
      by_cases hc : hasScore (other.get x.1) x.2.block_daa_score = true <;>
        simp [contains_with_daa_score, hc]
    · by_cases hc : hasScore (other.get x.1) x.2.block_daa_score = true <;>
        simp [contains_with_daa_score, hc, hj]

/-- `subtraction_with_remainder_having_daa_score_in_place`, key by key. -/
theorem get_subtraction_with_remainder (this other result remainder : UtxoCollection)
    (k : TransactionOutpoint) :
    let r := subtraction_with_remainder_having_daa_score_in_place this other result
      remainder
    (r.1.get k, r.2.get k) =
      match this.get k with
      | some v =>
          if hasScore (other.get k) v.block_daa_score then (result.get k, some v)
          else (some v, remainder.get k)
      | none => (result.get k, remainder.get k) := by
  have h := foldl_pointwise (fun (acc : UtxoCollection × UtxoCollection) k =>
      (acc.1.get k, acc.2.get k))
    (fun k v p => if hasScore (other.get k) v.block_daa_score then (p.1, some v)
      else (some v, p.2))
    (fun acc x => if !contains_with_daa_score other x.1 x.2.block_daa_score then
      (acc.1.insert x.1 x.2, acc.2) else (acc.1, acc.2.insert x.1 x.2)) ?_ this
    (result, remainder) k
  · exact h.trans (by cases this.get k <;> rfl)
  · intro acc x j
    by_cases hj : j = x.1
    · subst hj
      by_cases hc : hasScore (other.get x.1) x.2.block_daa_score = true <;>
        simp [contains_with_daa_score, hc]
    · by_cases hc : hasScore (other.get x.1) x.2.block_daa_score = true <;>
        simp [contains_with_daa_score, hc, hj]

/-- `intersects_with_rule` finds nothing exactly when no common key has entries
    satisfying the rule — whichever side it walks. -/
theorem intersects_with_rule_eq_none_iff (self other : UtxoCollection)
    (rule : TransactionOutpoint → UtxoEntry → UtxoEntry → Bool) :
    intersects_with_rule self other rule = none ↔
      ∀ k v1 v2, self.get k = some v1 → other.get k = some v2 →
        rule k v1 v2 = false := by
  unfold intersects_with_rule
  split
  · rw [findSome_eq_none_iff]
    constructor
    · intro h k v1 v2 h1 h2
      have := h k v1 h1
      simp only [h2] at this
      simpa using this
    · intro h k v1 h1
      cases h2 : other.get k with
      | none => rfl
      | some v2 => simp [h k v1 v2 h1 h2]
  · rw [findSome_eq_none_iff]
    constructor
    · intro h k v1 v2 h1 h2
      have := h k v2 h2
      simp only [h1] at this
      simpa using this
    · intro h k v2 h2
      cases h1 : self.get k with
      | none => rfl
      | some v1 => simp [h k v1 v2 h1 h2]

/-- The outpoint `intersects_with_rule` reports is common to both collections, and
    its two entries satisfy the rule: an error names an offending point. -/
theorem intersects_with_rule_eq_some {self other : UtxoCollection}
    {rule : TransactionOutpoint → UtxoEntry → UtxoEntry → Bool} {o : TransactionOutpoint}
    (h : intersects_with_rule self other rule = some o) :
    ∃ v1 v2, self.get o = some v1 ∧ other.get o = some v2 ∧ rule o v1 v2 = true := by
  unfold intersects_with_rule at h
  split at h
  · obtain ⟨⟨k, v1⟩, hmem, hf⟩ := List.exists_of_findSome?_eq_some h
    have h1 : self.get k = some v1 := (get_eq_some_iff self k v1).mpr hmem
    cases h2 : other.get k with
    | none => simp [h2] at hf
    | some v2 =>
        by_cases hr : rule k v1 v2 = true
        · simp only [h2, hr, if_true, Option.some.injEq] at hf
          subst hf
          exact ⟨v1, v2, h1, h2, hr⟩
        · simp [h2, hr] at hf
  · obtain ⟨⟨k, v2⟩, hmem, hf⟩ := List.exists_of_findSome?_eq_some h
    have h2 : other.get k = some v2 := (get_eq_some_iff other k v2).mpr hmem
    cases h1 : self.get k with
    | none => simp [h1] at hf
    | some v1 =>
        by_cases hr : rule k v1 v2 = true
        · simp only [h1, hr, if_true, Option.some.injEq] at hf
          subst hf
          exact ⟨v1, v2, h1, h2, hr⟩
        · simp [h1, hr] at hf

/-- `intersects` holds exactly when some key lies in both collections. -/
theorem intersects_iff (self other : UtxoCollection) :
    intersects self other = true ↔ ∃ k, k ∈ self ∧ k ∈ other := by
  unfold intersects
  split
  · rw [List.any_eq_true]
    constructor
    · rintro ⟨⟨k, v⟩, hmem, hk⟩
      exact ⟨k, AList.mem_keys.mpr (List.mem_keys_of_mem hmem), of_decide_eq_true hk⟩
    · rintro ⟨k, hs, ho⟩
      obtain ⟨v, hv⟩ := Option.isSome_iff_exists.mp ((mem_iff_get_isSome self k).mp hs)
      exact ⟨⟨k, v⟩, (get_eq_some_iff self k v).mp hv, decide_eq_true ho⟩
  · rw [List.any_eq_true]
    constructor
    · rintro ⟨⟨k, v⟩, hmem, hk⟩
      exact ⟨k, of_decide_eq_true hk, AList.mem_keys.mpr (List.mem_keys_of_mem hmem)⟩
    · rintro ⟨k, hs, ho⟩
      obtain ⟨v, hv⟩ := Option.isSome_iff_exists.mp ((mem_iff_get_isSome other k).mp ho)
      exact ⟨⟨k, v⟩, (get_eq_some_iff other k v).mp hv, decide_eq_true hs⟩

/-- The result side of `intersection_with_remainder_having_daa_score_in_place`. -/
theorem get_intersection_fst (this other result remainder : UtxoCollection)
    (k : TransactionOutpoint) :
    (intersection_with_remainder_having_daa_score_in_place this other result
      remainder).1.get k =
      match this.get k with
      | some v => if hasScore (other.get k) v.block_daa_score then some v else result.get k
      | none => result.get k := by
  have h := congrArg Prod.fst (get_intersection_with_remainder this other result remainder k)
  refine h.trans ?_
  cases this.get k with
  | none => rfl
  | some v => by_cases hv : hasScore (other.get k) v.block_daa_score = true <;> simp [hv]

/-- The remainder side of `intersection_with_remainder_having_daa_score_in_place`. -/
theorem get_intersection_snd (this other result remainder : UtxoCollection)
    (k : TransactionOutpoint) :
    (intersection_with_remainder_having_daa_score_in_place this other result
      remainder).2.get k =
      match this.get k with
      | some v =>
          if hasScore (other.get k) v.block_daa_score then remainder.get k else some v
      | none => remainder.get k := by
  have h := congrArg Prod.snd (get_intersection_with_remainder this other result remainder k)
  refine h.trans ?_
  cases this.get k with
  | none => rfl
  | some v => by_cases hv : hasScore (other.get k) v.block_daa_score = true <;> simp [hv]

/-- The result side of `subtraction_with_remainder_having_daa_score_in_place`. -/
theorem get_subtraction_fst (this other result remainder : UtxoCollection)
    (k : TransactionOutpoint) :
    (subtraction_with_remainder_having_daa_score_in_place this other result
      remainder).1.get k =
      match this.get k with
      | some v => if hasScore (other.get k) v.block_daa_score then result.get k else some v
      | none => result.get k := by
  have h := congrArg Prod.fst (get_subtraction_with_remainder this other result remainder k)
  refine h.trans ?_
  cases this.get k with
  | none => rfl
  | some v => by_cases hv : hasScore (other.get k) v.block_daa_score = true <;> simp [hv]

/-- The remainder side of `subtraction_with_remainder_having_daa_score_in_place`. -/
theorem get_subtraction_snd (this other result remainder : UtxoCollection)
    (k : TransactionOutpoint) :
    (subtraction_with_remainder_having_daa_score_in_place this other result
      remainder).2.get k =
      match this.get k with
      | some v =>
          if hasScore (other.get k) v.block_daa_score then some v else remainder.get k
      | none => remainder.get k := by
  have h := congrArg Prod.snd (get_subtraction_with_remainder this other result remainder k)
  refine h.trans ?_
  cases this.get k with
  | none => rfl
  | some v => by_cases hv : hasScore (other.get k) v.block_daa_score = true <;> simp [hv]

/-! ## The diff operations at one outpoint -/

/-- What a diff holds at one outpoint: the entry it adds and the entry it removes. -/
structure Cell where
  add : Option UtxoEntry
  remove : Option UtxoEntry
  deriving DecidableEq

/-- The cell of a diff at an outpoint. -/
def UtxoDiff.cell (d : UtxoDiff) (o : TransactionOutpoint) : Cell :=
  ⟨d.add.get o, d.remove.get o⟩

/-- Two collections are `==` exactly when they hold the same value at every key. -/
theorem collection_eq_iff (a b : UtxoCollection) :
    collection_eq a b ↔ ∀ o, a.get o = b.get o := by
  constructor
  · intro h o
    have := congrArg (Finmap.lookup o) h
    rwa [Finmap.lookup_toFinmap, Finmap.lookup_toFinmap] at this
  · intro h
    refine Finmap.ext_lookup fun o => ?_
    rw [Finmap.lookup_toFinmap, Finmap.lookup_toFinmap]
    exact h o

/-- Two diffs are `==` exactly when their cells agree at every outpoint. -/
theorem diff_eq_iff_cells (a b : UtxoDiff) : diff_eq a b ↔ ∀ o, a.cell o = b.cell o := by
  simp only [diff_eq, collection_eq_iff, UtxoDiff.cell, Cell.mk.injEq]
  exact ⟨fun h o => ⟨h.1 o, h.2 o⟩, fun h => ⟨fun o => (h o).1, fun o => (h o).2⟩⟩

/-- `with_diff` at one outpoint: `other`'s removal cancels an equal-score addition
    of `self` or is recorded; then `other`'s addition cancels an equal-score removal
    or is recorded. -/
def withDiffCell (c1 c2 : Cell) : Cell :=
  let c : Cell :=
    match c2.remove with
    | some e => if hasScore c1.add e.block_daa_score then ⟨none, c1.remove⟩ else ⟨c1.add, some e⟩
    | none => c1
  match c2.add with
  | some e => if hasScore c.remove e.block_daa_score then ⟨c.add, none⟩ else ⟨some e, c.remove⟩
  | none => c

/-- The two sanity checks of `with_diff` at one outpoint: both diffs remove it and
    `self` adds no entry of the removed score, or both add it and `other` removes no
    entry of `self`'s added score. -/
def withDiffClash (c1 c2 : Cell) : Bool :=
  (match c2.remove, c1.remove with
    | some e, some _ => !hasScore c1.add e.block_daa_score
    | _, _ => false) ||
  (match c2.add, c1.add with
    | some _, some e => !hasScore c2.remove e.block_daa_score
    | _, _ => false)

/-- `with_diff` succeeds exactly when no outpoint fails a sanity check. -/
theorem with_diff_ok_iff (self other : UtxoDiff) :
    (∃ w, with_diff self other = .ok w) ↔
      ∀ o, withDiffClash (self.cell o) (other.cell o) = false := by
  unfold with_diff with_diff_in_place
  constructor
  · rintro ⟨w, h⟩ o
    split at h
    · cases h
    rename_i heq1
    split at h
    · cases h
    rename_i heq2
    -- both searches came back empty: read them at `o`
    have h1 := (intersects_with_rule_eq_none_iff _ _ _).mp heq1 o
    have h2 := (intersects_with_rule_eq_none_iff _ _ _).mp heq2 o
    simp only [withDiffClash, UtxoDiff.cell, Bool.or_eq_false_iff]
    constructor
    · cases hr2 : other.remove.get o with
      | none => rfl
      | some e2 =>
          cases hr1 : self.remove.get o with
          | none => rfl
          | some e1 => simpa [contains_with_daa_score] using h1 e2 e1 hr2 hr1
    · cases ha2 : other.add.get o with
      | none => rfl
      | some e2 =>
          cases ha1 : self.add.get o with
          | none => rfl
          | some e1 => simpa [contains_with_daa_score] using h2 e2 e1 ha2 ha1
  · intro h
    split
    · -- a removal clash would be a clash at the reported outpoint
      rename_i o heq
      obtain ⟨e2, e1, hr2, hr1, hrule⟩ := intersects_with_rule_eq_some heq
      have := h o
      simp [withDiffClash, UtxoDiff.cell, hr2, hr1] at this
      simp [contains_with_daa_score, this] at hrule
    · split
      · rename_i o heq
        obtain ⟨e2, e1, ha2, ha1, hrule⟩ := intersects_with_rule_eq_some heq
        have := h o
        simp [withDiffClash, UtxoDiff.cell, ha2, ha1] at this
        simp [contains_with_daa_score, this] at hrule
      · exact ⟨_, rfl⟩

/-- **WITH_DIFF, POINTWISE**: a successful `with_diff` holds, at every outpoint, what
    `withDiffCell` computes from the two diffs' cells there. -/
theorem with_diff_cell {self other w : UtxoDiff} (h : with_diff self other = .ok w)
    (o : TransactionOutpoint) : w.cell o = withDiffCell (self.cell o) (other.cell o) := by
  unfold with_diff with_diff_in_place at h
  split at h
  · cases h
  · split at h
    · cases h
    · cases h
      simp only [UtxoDiff.cell, withDiffCell, get_intersection_fst, get_intersection_snd,
        get_remove_collection, mem_iff_get_isSome]
      -- split on what `other` holds at `o`, then on the score comparisons
      simp only [get_empty]
      obtain ⟨a2, ha2⟩ : ∃ x, other.add.get o = x := ⟨_, rfl⟩
      obtain ⟨r2, hr2⟩ : ∃ x, other.remove.get o = x := ⟨_, rfl⟩
      simp only [ha2, hr2]
      cases a2 <;> cases r2 <;> simp only [] <;> split_ifs <;> simp_all

/-- `x` unless `y` holds an entry of its DAA score: one key of
    `subtraction_having_daa_score_in_place`. -/
def keepUnless (x y : Option UtxoEntry) : Option UtxoEntry :=
  match x with
  | some e => if hasScore y e.block_daa_score then none else some e
  | none => none

/-- `diff_from` at one outpoint. Of the two loops that fill each side of the
    result, the later one wins. -/
def diffFromCell (c1 c2 : Cell) : Cell :=
  ⟨(keepUnless c2.add c1.add).or (keepUnless c1.remove c2.remove),
    (keepUnless c2.remove c1.remove).or (keepUnless c1.add c2.add)⟩

/-- The three rule checks of `diff_from` at one outpoint. The first two rules are
    negated conditions: an outpoint in both `self.remove` and `other.add` (or both
    `self.add` and `other.remove`) is an error unless the two scores differ and the
    other side of one diff explains the difference. -/
def diffFromClash (c1 c2 : Cell) : Bool :=
  (match c1.remove, c2.add with
    | some t, some u => !(u.block_daa_score != t.block_daa_score &&
        (hasScore c1.add u.block_daa_score || hasScore c2.remove t.block_daa_score))
    | _, _ => false) ||
  (match c1.add, c2.remove with
    | some t, some u => !(u.block_daa_score != t.block_daa_score &&
        (hasScore c1.remove u.block_daa_score || hasScore c2.add t.block_daa_score))
    | _, _ => false) ||
  (match c1.remove, c2.remove with
    | some t, some u => u.block_daa_score != t.block_daa_score
    | _, _ => false)

/-- `self` adds the outpoint and `other` adds it with the same DAA score. -/
def inBothToAdd (c1 c2 : Cell) : Bool :=
  match c1.add with
  | some e => hasScore c2.add e.block_daa_score
  | none => false

/-- The `General` check of `diff_from` read at one outpoint: an outpoint both diffs
    add is removed by both or by neither. -/
def generalAgrees (c1 c2 : Cell) : Bool :=
  !inBothToAdd c1 c2 || (c1.remove.isSome == c2.remove.isSome)

/-- The `in_both_to_add` collection of `diff_from`. -/
theorem mem_in_both_iff (self other : UtxoDiff) (o : TransactionOutpoint) :
    o ∈ (subtraction_with_remainder_having_daa_score_in_place self.add other.add ∅ ∅).2 ↔
      inBothToAdd (self.cell o) (other.cell o) = true := by
  rw [mem_iff_get_isSome, get_subtraction_snd]
  simp only [inBothToAdd, UtxoDiff.cell, get_empty]
  cases self.add.get o with
  | none => simp
  | some v => by_cases hv : hasScore (other.add.get o) v.block_daa_score = true <;> simp [hv]

/-- `diff_from` succeeds when no outpoint fails a rule check and every outpoint
    passes the `General` check. -/
theorem diff_from_ok_of {self other : UtxoDiff}
    (hclash : ∀ o, diffFromClash (self.cell o) (other.cell o) = false)
    (hgen : ∀ o, generalAgrees (self.cell o) (other.cell o) = true) :
    ∃ d, diff_from self other = .ok d := by
  unfold diff_from
  simp only []
  split
  · rename_i o heq
    obtain ⟨t, u, ht, hu, hrule⟩ := intersects_with_rule_eq_some heq
    have := hclash o
    simp only [diffFromClash, UtxoDiff.cell, ht, hu, Bool.or_eq_false_iff] at this
    simp only [contains_with_daa_score] at hrule
    exact absurd hrule (by rw [this.1.1]; decide)
  · split
    · rename_i o heq
      obtain ⟨t, u, ht, hu, hrule⟩ := intersects_with_rule_eq_some heq
      have := hclash o
      simp only [diffFromClash, UtxoDiff.cell, ht, hu, Bool.or_eq_false_iff] at this
      simp only [contains_with_daa_score] at hrule
      exact absurd hrule (by rw [this.1.2]; decide)
    · split
      · rename_i o heq
        obtain ⟨t, u, ht, hu, hrule⟩ := intersects_with_rule_eq_some heq
        have := hclash o
        simp only [diffFromClash, UtxoDiff.cell, ht, hu, Bool.or_eq_false_iff] at this
        exact absurd hrule (by rw [this.2]; decide)
      · -- the `General` check compares two existentials that agree key by key
        have hsame : intersects
            (subtraction_with_remainder_having_daa_score_in_place self.add other.add ∅ ∅).2
              self.remove =
            intersects
            (subtraction_with_remainder_having_daa_score_in_place self.add other.add ∅ ∅).2
              other.remove := by
          rw [Bool.eq_iff_iff, intersects_iff, intersects_iff]
          constructor
          · rintro ⟨k, hk, hr⟩
            have hg := hgen k
            rw [mem_in_both_iff] at hk
            simp only [generalAgrees, hk, Bool.not_true, Bool.false_or, beq_iff_eq] at hg
            refine ⟨k, (mem_in_both_iff self other k).mpr hk, ?_⟩
            rw [mem_iff_get_isSome] at hr ⊢
            exact hg ▸ hr
          · rintro ⟨k, hk, hr⟩
            have hg := hgen k
            rw [mem_in_both_iff] at hk
            simp only [generalAgrees, hk, Bool.not_true, Bool.false_or, beq_iff_eq] at hg
            refine ⟨k, (mem_in_both_iff self other k).mpr hk, ?_⟩
            rw [mem_iff_get_isSome] at hr ⊢
            exact hg.symm ▸ hr
        rw [if_neg (by simp [hsame])]
        exact ⟨_, rfl⟩

/-- **DIFF_FROM, POINTWISE**: a successful `diff_from` holds, at every outpoint, what
    `diffFromCell` computes from the two diffs' cells there. -/
theorem diff_from_cell {self other d : UtxoDiff} (h : diff_from self other = .ok d)
    (o : TransactionOutpoint) : d.cell o = diffFromCell (self.cell o) (other.cell o) := by
  unfold diff_from at h
  simp only [] at h
  split at h
  · cases h
  split at h
  · cases h
  split at h
  · cases h
  split at h
  · cases h
  cases h
  simp only [UtxoDiff.cell, diffFromCell, keepUnless, get_subtraction, get_subtraction_fst,
    get_empty]
  obtain ⟨a1, ha1⟩ : ∃ x, self.add.get o = x := ⟨_, rfl⟩
  obtain ⟨r1, hr1⟩ : ∃ x, self.remove.get o = x := ⟨_, rfl⟩
  obtain ⟨a2, ha2⟩ : ∃ x, other.add.get o = x := ⟨_, rfl⟩
  obtain ⟨r2, hr2⟩ : ∃ x, other.remove.get o = x := ⟨_, rfl⟩
  simp only [ha1, hr1, ha2, hr2]
  cases a1 <;> cases r1 <;> cases a2 <;> cases r2 <;> simp only [] <;> (try split_ifs) <;>
    simp_all

end KashUtxoDiff
