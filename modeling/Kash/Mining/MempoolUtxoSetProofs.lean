import Kash.Mining.Mempool
import Kash.Lib.ExceptLoops
import Kash.Pipeline.ParallelValidationProofs

/-! # What the mempool UTXO set records

    `outpoint_owner_id` is kept exactly: adding a transaction records it as the
    owner of every outpoint its inputs spend, removing it forgets those
    outpoints, and `check_double_spends` accepts a transaction exactly when no
    other transaction owns one of them.

    `pool_unspent_outputs` is not: the input loop of `add_transaction` removes
    the added transaction's own outpoint with the input's index where the comment
    says it deletes the output the input spends. A child added after its parent
    leaves the parent's spent output listed (`add_transaction_keeps_spent_output`). -/

namespace KashMempool

open KashTx AListLoops KashUtxoDiff ExceptLoops

/-- The outpoints a transaction's inputs spend. -/
def MutableTransaction.spent_outpoints (t : MutableTransaction) : List TransactionOutpoint :=
  t.tx.inputs.map (·.previous_outpoint)

/-- The indexed inputs of a transaction spend its spent outpoints. -/
theorem zipIdx_previous_outpoints (t : MutableTransaction) :
    t.tx.inputs.zipIdx.map (fun input => input.1.previous_outpoint) = t.spent_outpoints := by
  have h : (fun input : TransactionInput × ℕ => input.1.previous_outpoint) =
      (·.previous_outpoint) ∘ Prod.fst := rfl
  rw [h, ← List.map_map, List.zipIdx_map_fst]
  rfl

/-- A populated transaction has one entry per input. -/
theorem entries_length_of_populated {t : MutableTransaction} (h : t.is_fully_populated = .ok true) :
    t.entries.length = t.tx.inputs.length := by
  unfold MutableTransaction.is_fully_populated MutableTransaction.is_verifiable at h
  by_cases hlen : t.entries.length = t.tx.inputs.length
  · exact hlen
  · rw [if_neg hlen] at h
    cases h

/-- A loop over a list's head and then its tail, testing one value, reads as one
    test against the whole list. -/
theorem ite_mem_cons {α β : Type*} [DecidableEq α] (a x : α) (l : List α) (u v : β) :
    (if a ∈ l then u else if a = x then u else v) = if a ∈ x :: l then u else v := by
  by_cases hl : a ∈ l
  · rw [if_pos hl, if_pos (List.mem_cons_of_mem x hl)]
  · rw [if_neg hl]
    by_cases hx : a = x
    · rw [if_pos hx, if_pos (hx ▸ List.mem_cons_self)]
    · rw [if_neg hx, if_neg (by simp [hx, hl])]

namespace MempoolUtxoSet

/-! ## Adding a transaction -/

theorem owner_foldl_create_output (transaction_id : TransactionId) :
    ∀ (l : List (TransactionOutput × ℕ)) (self : MempoolUtxoSet),
      (l.foldl (create_output transaction_id) self).outpoint_owner_id = self.outpoint_owner_id
  | [], _ => rfl
  | x :: xs, self => by
      rw [List.foldl_cons, owner_foldl_create_output transaction_id xs]
      rfl

theorem owner_foldl_spend_input (transaction_id : TransactionId) (o : TransactionOutpoint) :
    ∀ (l : List (TransactionInput × ℕ)) (self : MempoolUtxoSet),
      (l.foldl (spend_input transaction_id) self).outpoint_owner_id.get o =
        if o ∈ l.map (fun input => input.1.previous_outpoint) then some transaction_id
        else self.outpoint_owner_id.get o
  | [], self => by simp
  | x :: xs, self => by
      rw [List.foldl_cons, owner_foldl_spend_input transaction_id o xs, List.map_cons]
      -- the step records this input's outpoint; later inputs overwrite with the same owner
      simp only [spend_input, get_insert]
      exact ite_mem_cons _ _ _ _ _

/-- **OWNERS ON ADD**: the added transaction owns exactly the outpoints it
    spends; every other outpoint keeps its owner. -/
theorem owner_add_transaction (self : MempoolUtxoSet) (t : MutableTransaction)
    (o : TransactionOutpoint) :
    (self.add_transaction t).outpoint_owner_id.get o =
      if o ∈ t.spent_outpoints then some t.id else self.outpoint_owner_id.get o := by
  rw [add_transaction, owner_foldl_create_output, owner_foldl_spend_input,
    zipIdx_previous_outpoints]

/-! ## Removing a transaction -/

theorem owner_foldl_remove_output (transaction_id : TransactionId) :
    ∀ (l : List ℕ) (self : MempoolUtxoSet),
      (l.foldl (remove_output transaction_id) self).outpoint_owner_id = self.outpoint_owner_id
  | [], _ => rfl
  | x :: xs, self => by
      rw [List.foldl_cons, owner_foldl_remove_output transaction_id xs]
      rfl

/-- The input loop of `remove_transaction` runs through when every index has an
    entry, and forgets the owner of every outpoint it visits. -/
theorem foldlM_restore_input (t : MutableTransaction) (parent_ids_in_pool : TransactionIdSet) :
    ∀ (l : List (TransactionInput × ℕ)) (self : MempoolUtxoSet),
      (∀ input ∈ l, input.2 < t.entries.length) →
      ∃ self', l.foldlM (restore_input t parent_ids_in_pool) self = .ok self' ∧
        ∀ o, self'.outpoint_owner_id.get o =
          if o ∈ l.map (fun input => input.1.previous_outpoint) then none
          else self.outpoint_owner_id.get o
  | [], self, _ => ⟨self, rfl, fun o => by simp⟩
  | x :: xs, self, hidx => by
      obtain ⟨entry, hentry⟩ : ∃ entry, t.entries[x.2]? = some entry :=
        ⟨_, List.getElem?_eq_getElem (hidx x List.mem_cons_self)⟩
      -- the step at `x` succeeds and drops the owner of its outpoint
      obtain ⟨self₁, hstep, hown₁⟩ : ∃ self₁, restore_input t parent_ids_in_pool self x = .ok self₁ ∧
          self₁.outpoint_owner_id = self.outpoint_owner_id.erase x.1.previous_outpoint := by
        unfold restore_input
        rw [hentry]
        exact ⟨_, rfl, rfl⟩
      obtain ⟨self', hrest, hown⟩ :=
        foldlM_restore_input t parent_ids_in_pool xs self₁ fun input h => hidx input (List.mem_cons_of_mem x h)
      refine ⟨self', ?_, fun o => ?_⟩
      · rw [List.foldlM_cons, hstep]
        exact hrest
      · rw [hown o, hown₁, get_erase, List.map_cons]
        exact ite_mem_cons _ _ _ _ _

/-- **OWNERS ON REMOVE**: removing a transaction with one entry per input
    succeeds and forgets exactly the owners of the outpoints it spends. -/
theorem remove_transaction_owner (self : MempoolUtxoSet) (t : MutableTransaction)
    (parent_ids_in_pool : TransactionIdSet) (hlen : t.entries.length = t.tx.inputs.length) :
    ∃ self', self.remove_transaction t parent_ids_in_pool = .ok self' ∧
      ∀ o, self'.outpoint_owner_id.get o =
        if o ∈ t.spent_outpoints then none else self.outpoint_owner_id.get o := by
  have hidx : ∀ input ∈ t.tx.inputs.zipIdx, input.2 < t.entries.length := by
    rintro ⟨input, i⟩ h
    rw [hlen]
    simpa using (List.mem_zipIdx h).2.1
  obtain ⟨self₁, hloop, hown⟩ := foldlM_restore_input t parent_ids_in_pool _ self hidx
  refine ⟨(List.range t.tx.outputs.length).foldl (remove_output t.id) self₁, ?_, fun o => ?_⟩
  · rw [remove_transaction, hloop]
    rfl
  · rw [owner_foldl_remove_output, hown, zipIdx_previous_outpoints]

/-! ## Double spends -/

/-- **DOUBLE SPENDS**: the check passes exactly when every outpoint the
    transaction spends is unowned or owned by the transaction itself. -/
theorem check_double_spends_eq_ok (self : MempoolUtxoSet) (t : MutableTransaction) :
    self.check_double_spends t = .ok () ↔
      ∀ o ∈ t.spent_outpoints, ∀ owner, self.outpoint_owner_id.get o = some owner → owner = t.id := by
  unfold check_double_spends
  rw [forM_eq_ok]
  simp only [MutableTransaction.spent_outpoints, List.mem_map, forall_exists_index, and_imp,
    forall_apply_eq_imp_iff₂]
  apply forall₂_congr
  intro input _
  unfold get_outpoint_owner_id
  cases self.outpoint_owner_id.get input.previous_outpoint with
  | none => simp
  | some owner =>
      by_cases h : owner = t.id
      · simp [h]
      · simp [h]

/-! ## The spent output that stays -/

/-- A transaction spending a consensus outpoint into one pool output. -/
def pool_parent : MutableTransaction :=
  ⟨KashPipeline.spend_outpoint ⟨KashPipeline.hash_of_byte 1, 0⟩ (KashPipeline.hash_of_byte 10),
    [some ⟨10, ⟨0, []⟩, 0, false, .KSH⟩], some 5, some 1⟩

/-- A transaction spending the output of `pool_parent`. -/
def pool_child : MutableTransaction :=
  ⟨KashPipeline.spend_outpoint ⟨KashPipeline.hash_of_byte 10, 0⟩ (KashPipeline.hash_of_byte 11),
    [some (pool_entry ⟨5, ⟨0, []⟩, .KSH⟩)], some 0, some 1⟩

/-- After a parent and then its child are added, the parent's output that the
    child spends is still among the pool's unspent outputs, with its entry. -/
theorem add_transaction_keeps_spent_output :
    ⟨pool_parent.id, 0⟩ ∈ pool_child.spent_outpoints ∧
      ((new.add_transaction pool_parent).add_transaction pool_child).pool_unspent_outputs.get
        ⟨pool_parent.id, 0⟩ = some (pool_entry ⟨5, ⟨0, []⟩, .KSH⟩) := by
  decide

end MempoolUtxoSet

end KashMempool
