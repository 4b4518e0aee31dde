import Kash.Mining.MempoolUtxoSetProofs
import Kash.HashingProofs

/-! # The transaction pool's relations stay exact

    The pool keeps four redundant records of one graph: the pool transactions,
    and an edge from `p` to `c` when `c` spends an output of `p`.
    `parent_transactions` lists each transaction's in-pool parents,
    `chained_transactions` each transaction's in-pool children,
    `ready_transactions` the transactions with no in-pool parent, and
    `outpoint_owner_id` the spender of each outpoint a pool transaction spends.
    `PoolInvariant` says that all four are exact. It holds of the empty pool, and
    every call keeps it: an addition whose preconditions hold
    (`PoolInvariant.add`), and every removal (`PoolInvariant.remove`), which deletes
    one vertex of the graph from each record. So it holds of every pool reached
    from `TransactionsPool::new` (`Reachable`), and there the breadth-first walk
    of `get_redeemer_ids_in_pool` lists exactly the in-pool descendants.

    A transaction's id is the hash of its id stream (`IdHashed`), and that stream
    holds the id of every outpoint the transaction spends. So a transaction
    spending its own output holds its own hash in the stream it hashes
    (`HoldsOwnHash`), a fixed point of the hash that no transaction the node
    receives is; such a transaction would be its own parent, which the records
    cannot say (`not_spends_self`).

    The proofs go through one view lemma per record and call: what the record
    holds after the call, in terms of what it held before. -/

namespace KashMempool

open KashTx AListLoops Relation

/-- Transaction `t` spends an output of the transaction with id `p`. -/
def MutableTransaction.spends (t : MutableTransaction) (p : TransactionId) : Prop :=
  ∃ input ∈ t.tx.inputs, input.previous_outpoint.transaction_id = p

instance (t : MutableTransaction) (p : TransactionId) : Decidable (t.spends p) :=
  inferInstanceAs (Decidable (∃ input ∈ t.tx.inputs, input.previous_outpoint.transaction_id = p))

namespace TransactionsPool

/-- The parents `parent_transactions` lists for a transaction (none without an entry). -/
def parents_of (s : TransactionsPool) (c : TransactionId) : TransactionIdSet :=
  (s.parent_transactions.get c).getD ∅

/-- The transactions `chained_transactions` lists for a transaction. -/
def chains_in (s : TransactionsPool) (p : TransactionId) : TransactionIdSet :=
  (s.chained_transactions.get p).getD ∅

/-- Pool transaction `c` spends an output of pool transaction `p`. -/
def ChildInPool (s : TransactionsPool) (p c : TransactionId) : Prop :=
  p ∈ s.all_transactions ∧ ∃ t, s.get c = some t ∧ t.mtx.spends p

/-! ## Ids are content hashes -/

section ContentHash

/-- The stream `hashing::tx::id` hashes. -/
def id_stream (tx : Transaction) : KashHashing.Bytes :=
  KashHashing.write_transaction tx (KashHashing.id_encoding_flags tx) false

variable (TransactionID : KashHashing.Bytes → Hash)

/-- The transaction's id is the hash of its id stream, as `finalize` stores it. -/
def IdHashed (T : MempoolTransaction) : Prop :=
  T.id = KashHashing.id TransactionID T.mtx.tx

/-- The id stream of the transaction holds the stream's own hash. -/
def HoldsOwnHash (T : MempoolTransaction) : Prop :=
  (KashHashing.id TransactionID T.mtx.tx).bytes <:+: id_stream T.mtx.tx

instance (T : MempoolTransaction) : Decidable (IdHashed TransactionID T) :=
  inferInstanceAs (Decidable (_ = _))

instance (T : MempoolTransaction) : Decidable (HoldsOwnHash TransactionID T) :=
  inferInstanceAs (Decidable (_ <:+: _))

variable {TransactionID}

/-- A transaction whose id is the hash of its stream, and not a fixed point of
    it, spends no output of its own: the id of every outpoint it spends is in the
    stream. -/
theorem not_spends_self {T : MempoolTransaction} (hid : IdHashed TransactionID T)
    (hfix : ¬ HoldsOwnHash TransactionID T) : ¬ T.mtx.spends T.id := by
  rintro ⟨input, hin, hself⟩
  apply hfix
  unfold HoldsOwnHash
  rw [← hid, ← hself]
  exact KashHashing.outpoint_id_infix_write_transaction hin _ _

end ContentHash

/-! ## The invariant -/

/-- The pool's records, each exact, and what they rest on. -/
structure PoolInvariant (TransactionID : KashHashing.Bytes → Hash) (s : TransactionsPool) : Prop where
  /-- Every transaction is filed under its own id. -/
  ids : ∀ id t, s.get id = some t → t.id = id
  /-- Every transaction is fully populated. -/
  populated : ∀ id t, s.get id = some t → t.mtx.is_fully_populated = .ok true
  /-- Every transaction's id is the hash of its stream, which does not hold it. -/
  hashed : ∀ id t, s.get id = some t → IdHashed TransactionID t ∧ ¬ HoldsOwnHash TransactionID t
  /-- `parent_transactions[id]` exists and holds the pool transactions whose
      outputs `id` spends. -/
  parents : ∀ id t, s.get id = some t →
    id ∈ s.parent_transactions ∧ ∀ p, p ∈ s.parents_of id ↔ p ∈ s.all_transactions ∧ t.mtx.spends p
  /-- `chained_transactions` is the converse of `parent_transactions`. -/
  chained : ∀ p c, c ∈ s.chains_in p ↔ p ∈ s.parents_of c
  /-- The ready transactions are the pool transactions with no parent in the pool. -/
  ready : ∀ id, id ∈ s.ready_transactions ↔
    ∃ t, s.get id = some t ∧ ∀ p ∈ s.all_transactions, ¬ t.mtx.spends p
  /-- Only pool transactions have parent entries. -/
  parent_keys : ∀ id ∈ s.parent_transactions, id ∈ s.all_transactions
  /-- Only pool transactions have chained entries. -/
  chained_keys : ∀ id ∈ s.chained_transactions, id ∈ s.all_transactions
  /-- `outpoint_owner_id` maps each outpoint a pool transaction spends to it, and
      nothing else. -/
  owners : ∀ o id, s.utxo_set.outpoint_owner_id.get o = some id ↔
    ∃ t, s.get id = some t ∧ o ∈ t.mtx.spent_outpoints

/-- What an addition needs besides its assertions: no double spend, no pool
    transaction spending the new one's outputs, and an id that is the hash of the
    transaction's stream, as every transaction the node receives has. -/
structure AddAllowed (TransactionID : KashHashing.Bytes → Hash) (s : TransactionsPool)
    (T : MempoolTransaction) : Prop where
  fresh : T.id ∉ s.all_transactions
  populated : T.mtx.is_fully_populated = .ok true
  no_double_spend : s.utxo_set.check_double_spends T.mtx = .ok ()
  no_redeemer : ∀ id t, s.get id = some t → ¬ t.mtx.spends T.id
  hashed : IdHashed TransactionID T
  not_fixed_point : ¬ HoldsOwnHash TransactionID T

theorem AddAllowed.not_self {TransactionID : KashHashing.Bytes → Hash} {s : TransactionsPool}
    {T : MempoolTransaction} (hallow : AddAllowed TransactionID s T) : ¬ T.mtx.spends T.id :=
  not_spends_self hallow.hashed hallow.not_fixed_point

/-- The pools reached from `new` by allowed additions and by removals. -/
inductive Reachable (TransactionID : KashHashing.Bytes → Hash) : TransactionsPool → Prop
  | new : Reachable TransactionID TransactionsPool.new
  | add {s s' : TransactionsPool} (T : MempoolTransaction) :
      Reachable TransactionID s → AddAllowed TransactionID s T →
      s.add_mempool_transaction T = .ok s' → Reachable TransactionID s'
  | remove {s s' : TransactionsPool} (id : TransactionId) (r : Except RuleError MempoolTransaction) :
      Reachable TransactionID s → s.remove_transaction id = .ok (s', r) → Reachable TransactionID s'

/-! ## Reading the records -/

theorem mem_iff_get (s : TransactionsPool) (k : TransactionId) :
    k ∈ s.all_transactions ↔ ∃ t, s.get k = some t := by
  rw [mem_iff_get_isSome, Option.isSome_iff_exists]
  rfl

/-- The in-pool parents are the pool transactions whose outputs the transaction
    spends. -/
theorem mem_get_parent_transaction_ids_in_pool (s : TransactionsPool) (t : MutableTransaction)
    (p : TransactionId) :
    p ∈ s.get_parent_transaction_ids_in_pool t ↔ p ∈ s.all_transactions ∧ t.spends p := by
  have h : ∀ (l : List TransactionInput) (acc : TransactionIdSet),
      p ∈ l.foldl (fun parents input =>
          if s.has input.previous_outpoint.transaction_id then
            (parents.insert input.previous_outpoint.transaction_id).1
          else parents) acc ↔
        p ∈ acc ∨ (p ∈ s.all_transactions ∧ ∃ input ∈ l, input.previous_outpoint.transaction_id = p) := by
    intro l
    induction l with
    | nil => intro acc; simp
    | cons x xs ih =>
        intro acc
        rw [List.foldl_cons, ih]
        by_cases hx : x.previous_outpoint.transaction_id ∈ s.all_transactions
        · have hhas : s.has x.previous_outpoint.transaction_id = true := decide_eq_true hx
          rw [if_pos hhas, ListSet.mem_insert]
          constructor
          · rintro ((rfl | h) | ⟨hp, input, hin, rfl⟩)
            · exact Or.inr ⟨hx, x, List.mem_cons_self, rfl⟩
            · exact Or.inl h
            · exact Or.inr ⟨hp, input, List.mem_cons_of_mem x hin, rfl⟩
          · rintro (h | ⟨hp, input, hin, rfl⟩)
            · exact Or.inl (Or.inr h)
            · rcases List.mem_cons.mp hin with rfl | hin
              · exact Or.inl (Or.inl rfl)
              · exact Or.inr ⟨hp, input, hin, rfl⟩
        · have hhas : s.has x.previous_outpoint.transaction_id = false := decide_eq_false hx
          rw [if_neg (by rw [hhas]; exact Bool.false_ne_true)]
          constructor
          · rintro (h | ⟨hp, input, hin, rfl⟩)
            · exact Or.inl h
            · exact Or.inr ⟨hp, input, List.mem_cons_of_mem x hin, rfl⟩
          · rintro (h | ⟨hp, input, hin, rfl⟩)
            · exact Or.inl h
            · rcases List.mem_cons.mp hin with rfl | hin
              · exact absurd hp hx
              · exact Or.inr ⟨hp, input, hin, rfl⟩
  rw [get_parent_transaction_ids_in_pool, h]
  simp only [ListSet.not_mem_empty, false_or]
  rfl

/-! ## The loops over a set of ids -/

/-- The loop of `add_mempool_transaction` adds the transaction to the chained
    set of each of its parents. -/
theorem get_foldl_chain_to (id : TransactionId) (parents : TransactionIdSet)
    (chained : TransactionsEdges) (k : TransactionId) :
    (parents.elems.foldl (chain_to id) chained).get k =
      if k ∈ parents then some (((chained.get k).getD ∅).insert id).1 else chained.get k := by
  refine foldl_keys (fun (m : TransactionsEdges) k => m.get k)
    (fun _ o => some ((o.getD ∅).insert id).1) (chain_to id) ?_ parents.elems parents.nodup chained k
  intro m x k
  rw [chain_to, get_insert]
  by_cases hk : k = x
  · subst hk
    rw [if_pos rfl]
  · rw [if_neg hk, if_neg hk]

/-- The first loop of `remove_transaction` drops the transaction from the
    chained set of each of its parents. -/
theorem get_foldl_unchain_from (id : TransactionId) (parents : TransactionIdSet)
    (chained : TransactionsEdges) (k : TransactionId) :
    (parents.elems.foldl (unchain_from id) chained).get k =
      if k ∈ parents then (chained.get k).map (·.remove id) else chained.get k := by
  refine foldl_keys (fun (m : TransactionsEdges) k => m.get k)
    (fun _ o => o.map (·.remove id)) (unchain_from id) ?_ parents.elems parents.nodup chained k
  intro m x k
  unfold unchain_from
  cases hx : m.get x with
  | none =>
      by_cases hk : k = x
      · rw [if_pos hk, hk, hx]
        rfl
      · rw [if_neg hk]
  | some chains =>
      rw [get_insert]
      by_cases hk : k = x
      · rw [if_pos hk, if_pos hk, hk, hx]
        rfl
      · rw [if_neg hk, if_neg hk]

/-- The second loop of `remove_transaction`, on the parent sets: the
    transaction leaves the parent set of each of its children. -/
theorem get_foldl_unparent (id : TransactionId) (chains : TransactionIdSet)
    (parent_transactions : TransactionsEdges) (ready : TransactionIdSet) (k : TransactionId) :
    (chains.elems.foldl (unparent id) (parent_transactions, ready)).1.get k =
      if k ∈ chains then (parent_transactions.get k).map (·.remove id)
      else parent_transactions.get k := by
  refine foldl_keys (fun (e : TransactionsEdges × TransactionIdSet) k => e.1.get k)
    (fun _ o => o.map (·.remove id)) (unparent id) ?_ chains.elems chains.nodup _ k
  intro e x k
  unfold unparent
  cases hx : e.1.get x with
  | none =>
      by_cases hk : k = x
      · rw [if_pos hk, hk, hx]
        rfl
      · rw [if_neg hk]
  | some parents =>
      show Map.get (e.1.insert x (parents.remove id)) k = _
      rw [get_insert]
      by_cases hk : k = x
      · rw [if_pos hk, if_pos hk, hk, hx]
        rfl
      · rw [if_neg hk, if_neg hk]

/-- The second loop of `remove_transaction`, on the ready set: a child becomes
    ready when the removed transaction was its last parent. -/
theorem mem_foldl_unparent (id : TransactionId) (chains : TransactionIdSet)
    (parent_transactions : TransactionsEdges) (ready : TransactionIdSet) (k : TransactionId) :
    k ∈ (chains.elems.foldl (unparent id) (parent_transactions, ready)).2 ↔
      k ∈ ready ∨ (k ∈ chains ∧
        ∃ parents, parent_transactions.get k = some parents ∧ (parents.remove id).is_empty) := by
  -- the ready flag of a key moves together with its parent set
  have h := foldl_keys (fun (e : TransactionsEdges × TransactionIdSet) k => (e.1.get k, decide (k ∈ e.2)))
    (fun _ d => (d.1.map (·.remove id),
      d.2 || d.1.any fun parents => (parents.remove id).is_empty))
    (unparent id) ?_ chains.elems chains.nodup (parent_transactions, ready) k
  · have h2 := Bool.eq_iff_iff.mp (congrArg Prod.snd h)
    by_cases hk : k ∈ chains
    · rw [if_pos (show k ∈ chains.elems from hk)] at h2
      cases hp : parent_transactions.get k with
      | none =>
          rw [hp] at h2
          simp only [decide_eq_true_eq, Option.any_none, Bool.or_false] at h2
          rw [h2]
          simp
      | some parents =>
          rw [hp] at h2
          simp only [decide_eq_true_eq, Option.any_some, Bool.or_eq_true] at h2
          rw [h2]
          simp [hk]
    · rw [if_neg (show k ∉ chains.elems from hk)] at h2
      simp only [decide_eq_true_eq] at h2
      rw [h2]
      simp [hk]
  · intro e x k
    unfold unparent
    cases hx : e.1.get x with
    | none =>
        by_cases hk : k = x
        · rw [if_pos hk, hk, hx]
          simp
        · rw [if_neg hk]
    | some parents =>
        show (Map.get (e.1.insert x (parents.remove id)) k, decide (k ∈ _)) = _
        rw [get_insert]
        by_cases hk : k = x
        · rw [if_pos hk, if_pos hk]
          subst hk
          rw [hx]
          by_cases he : (parents.remove id).is_empty
          · simp [he]
          · simp [he]
        · rw [if_neg hk, if_neg hk]
          by_cases he : (parents.remove id).is_empty
          · simp [he, hk]
          · simp [he]

/-! ## Adding a transaction -/

section Add

variable {s s' : TransactionsPool} {T : MempoolTransaction}

/-- **ADD**: the addition succeeds exactly when the transaction is new and fully
    populated, and then files it under its id with its in-pool parents. -/
theorem add_mempool_transaction_eq_ok_iff :
    s.add_mempool_transaction T = .ok s' ↔
      T.id ∉ s.all_transactions ∧ T.mtx.is_fully_populated = .ok true ∧
        s' = { all_transactions := s.all_transactions.insert T.id T
               parent_transactions :=
                 s.parent_transactions.insert T.id (s.get_parent_transaction_ids_in_pool T.mtx)
               chained_transactions := (s.get_parent_transaction_ids_in_pool T.mtx).elems.foldl
                 (chain_to T.id) s.chained_transactions
               ready_transactions :=
                 if (s.get_parent_transaction_ids_in_pool T.mtx).is_empty then
                   (s.ready_transactions.insert T.id).1
                 else s.ready_transactions
               utxo_set := s.utxo_set.add_transaction T.mtx } := by
  by_cases hmem : T.id ∈ s.all_transactions
  · -- the first assertion fails
    have hfail : s.add_mempool_transaction T = .error .transaction_already_exists := by
      unfold add_mempool_transaction
      rw [if_pos hmem]
      rfl
    rw [hfail]
    exact iff_of_false (fun hc => by cases hc) fun h => h.1 hmem
  · cases hp : T.mtx.is_fully_populated with
    | error e =>
        have hfail : s.add_mempool_transaction T = .error e := by
          unfold add_mempool_transaction
          rw [if_neg hmem, hp]
          rfl
        rw [hfail]
        exact iff_of_false (fun hc => by cases hc) fun h => by cases h.2.1
    | ok populated =>
        cases populated
        · -- the second assertion fails
          have hfail : s.add_mempool_transaction T = .error .not_fully_populated := by
            unfold add_mempool_transaction
            rw [if_neg hmem, hp]
            rfl
          rw [hfail]
          exact iff_of_false (fun hc => by cases hc) fun h => by cases h.2.1
        · unfold add_mempool_transaction
          rw [if_neg hmem, hp]
          constructor
          · intro h
            cases h
            exact ⟨hmem, rfl, rfl⟩
          · rintro ⟨-, -, rfl⟩
            rfl

theorem get_of_add (h : s.add_mempool_transaction T = .ok s') (k : TransactionId) :
    s'.get k = if k = T.id then some T else s.get k := by
  obtain ⟨-, -, rfl⟩ := add_mempool_transaction_eq_ok_iff.mp h
  exact get_insert _ _ _ _

theorem get_of_add_eq_some (h : s.add_mempool_transaction T = .ok s') {k : TransactionId}
    {t : MempoolTransaction} (ht : s'.get k = some t) :
    (k = T.id ∧ t = T) ∨ (k ≠ T.id ∧ s.get k = some t) := by
  rw [get_of_add h] at ht
  by_cases hk : k = T.id
  · rw [if_pos hk, Option.some_inj] at ht
    exact Or.inl ⟨hk, ht.symm⟩
  · rw [if_neg hk] at ht
    exact Or.inr ⟨hk, ht⟩

theorem mem_all_of_add (h : s.add_mempool_transaction T = .ok s') (k : TransactionId) :
    k ∈ s'.all_transactions ↔ k = T.id ∨ k ∈ s.all_transactions := by
  obtain ⟨-, -, rfl⟩ := add_mempool_transaction_eq_ok_iff.mp h
  simp only [AList.mem_insert]

theorem parents_of_of_add (h : s.add_mempool_transaction T = .ok s') (c : TransactionId) :
    s'.parents_of c =
      if c = T.id then s.get_parent_transaction_ids_in_pool T.mtx else s.parents_of c := by
  obtain ⟨-, -, rfl⟩ := add_mempool_transaction_eq_ok_iff.mp h
  unfold parents_of
  rw [get_insert]
  by_cases hc : c = T.id
  · rw [if_pos hc, if_pos hc]
    rfl
  · rw [if_neg hc, if_neg hc]

theorem mem_parent_keys_of_add (h : s.add_mempool_transaction T = .ok s') (k : TransactionId) :
    k ∈ s'.parent_transactions ↔ k = T.id ∨ k ∈ s.parent_transactions := by
  obtain ⟨-, -, rfl⟩ := add_mempool_transaction_eq_ok_iff.mp h
  simp only [AList.mem_insert]

theorem mem_chains_in_of_add (h : s.add_mempool_transaction T = .ok s') (p x : TransactionId) :
    x ∈ s'.chains_in p ↔
      x ∈ s.chains_in p ∨ (x = T.id ∧ p ∈ s.get_parent_transaction_ids_in_pool T.mtx) := by
  obtain ⟨-, -, rfl⟩ := add_mempool_transaction_eq_ok_iff.mp h
  unfold chains_in
  rw [get_foldl_chain_to]
  by_cases hp : p ∈ s.get_parent_transaction_ids_in_pool T.mtx
  · rw [if_pos hp, Option.getD_some, ListSet.mem_insert]
    simp only [hp, and_true]
    exact or_comm
  · rw [if_neg hp]
    simp [hp]

theorem mem_chained_keys_of_add (h : s.add_mempool_transaction T = .ok s') (k : TransactionId) :
    k ∈ s'.chained_transactions ↔
      k ∈ s.get_parent_transaction_ids_in_pool T.mtx ∨ k ∈ s.chained_transactions := by
  obtain ⟨-, -, rfl⟩ := add_mempool_transaction_eq_ok_iff.mp h
  rw [mem_iff_get_isSome, mem_iff_get_isSome, get_foldl_chain_to]
  by_cases hk : k ∈ s.get_parent_transaction_ids_in_pool T.mtx
  · simp [hk]
  · simp [hk]

theorem mem_ready_of_add (h : s.add_mempool_transaction T = .ok s') (x : TransactionId) :
    x ∈ s'.ready_transactions ↔
      x ∈ s.ready_transactions ∨
        (x = T.id ∧ ∀ p, p ∉ s.get_parent_transaction_ids_in_pool T.mtx) := by
  obtain ⟨-, -, rfl⟩ := add_mempool_transaction_eq_ok_iff.mp h
  by_cases he : (s.get_parent_transaction_ids_in_pool T.mtx).is_empty
  · have hnone := (ListSet.is_empty_iff _).mp he
    simp only [he, if_true, ListSet.mem_insert]
    simp [hnone, or_comm]
  · have hsome : ¬ ∀ p, p ∉ s.get_parent_transaction_ids_in_pool T.mtx :=
      fun hn => he ((ListSet.is_empty_iff _).mpr hn)
    simp only [he, Bool.false_eq_true, if_false]
    simp [hsome]

theorem owner_of_add (h : s.add_mempool_transaction T = .ok s') (o : TransactionOutpoint) :
    s'.utxo_set.outpoint_owner_id.get o =
      if o ∈ T.mtx.spent_outpoints then some T.id else s.utxo_set.outpoint_owner_id.get o := by
  obtain ⟨-, -, rfl⟩ := add_mempool_transaction_eq_ok_iff.mp h
  exact MempoolUtxoSet.owner_add_transaction _ _ _

end Add

namespace PoolInvariant

variable {TransactionID : KashHashing.Bytes → Hash} {s : TransactionsPool}
  (hinv : PoolInvariant TransactionID s)

include hinv in
/-- No transaction spends its own output. -/
theorem not_self {id : TransactionId} {t : MempoolTransaction} (ht : s.get id = some t) :
    ¬ t.mtx.spends id := by
  obtain ⟨hid, hfix⟩ := hinv.hashed id t ht
  rw [← hinv.ids id t ht]
  exact not_spends_self hid hfix
include hinv

/-- A transaction outside the pool has no recorded parents. -/
theorem not_mem_parents_of_of_not_mem {c : TransactionId} (hc : c ∉ s.all_transactions)
    (p : TransactionId) : p ∉ s.parents_of c := by
  have hnone : s.parent_transactions.get c = none := by
    rw [← Option.not_isSome_iff_eq_none, ← mem_iff_get_isSome]
    exact fun hk => hc (hinv.parent_keys c hk)
  unfold parents_of
  rw [hnone]
  exact ListSet.not_mem_empty p

/-- The recorded parents are exactly the in-pool parents. -/
theorem mem_parents_of_iff (p c : TransactionId) : p ∈ s.parents_of c ↔ s.ChildInPool p c := by
  cases hc : s.get c with
  | none =>
      have hmem : c ∉ s.all_transactions := by
        rw [mem_iff_get, hc]
        rintro ⟨t, ht⟩
        cases ht
      refine iff_of_false (hinv.not_mem_parents_of_of_not_mem hmem p) ?_
      rintro ⟨-, t, ht, -⟩
      rw [hc] at ht
      cases ht
  | some t =>
      rw [(hinv.parents c t hc).2 p]
      constructor
      · rintro ⟨hp, hs⟩
        exact ⟨hp, t, hc, hs⟩
      · rintro ⟨hp, t', ht', hs⟩
        rw [hc] at ht'
        cases ht'
        exact ⟨hp, hs⟩

/-- The recorded children are exactly the in-pool children. -/
theorem mem_chains_in_iff (p c : TransactionId) : c ∈ s.chains_in p ↔ s.ChildInPool p c :=
  (hinv.chained p c).trans (hinv.mem_parents_of_iff p c)

/-- No transaction is recorded as its own parent. -/
theorem not_mem_parents_of_self (c : TransactionId) : c ∉ s.parents_of c := by
  rw [hinv.mem_parents_of_iff]
  rintro ⟨-, t, ht, hs⟩
  exact hinv.not_self ht hs

end PoolInvariant

/-- An allowed addition succeeds. -/
theorem AddAllowed.add_ok {TransactionID : KashHashing.Bytes → Hash} {s : TransactionsPool}
    {T : MempoolTransaction} (hallow : AddAllowed TransactionID s T) :
    ∃ s', s.add_mempool_transaction T = .ok s' :=
  ⟨_, add_mempool_transaction_eq_ok_iff.mpr ⟨hallow.fresh, hallow.populated, rfl⟩⟩

/-- **ADD KEEPS THE INVARIANT**: the new transaction enters with its in-pool
    parents, as a child of each of them, ready when it has none, and as the owner
    of what it spends; no old record changes, as nothing in the pool spends it. -/
theorem PoolInvariant.add {TransactionID : KashHashing.Bytes → Hash} {s s' : TransactionsPool}
    {T : MempoolTransaction} (hinv : PoolInvariant TransactionID s) (hallow : AddAllowed TransactionID s T)
    (h : s.add_mempool_transaction T = .ok s') : PoolInvariant TransactionID s' := by
  have hP := mem_get_parent_transaction_ids_in_pool s T.mtx
  have hne : ∀ {x t}, s.get x = some t → x ≠ T.id := by
    rintro x t ht rfl
    exact hallow.fresh ((mem_iff_get s _).mpr ⟨t, ht⟩)
  -- the parents recorded after the addition
  have hpar : ∀ c p, p ∈ s'.parents_of c ↔
      (c = T.id ∧ p ∈ s.all_transactions ∧ T.mtx.spends p) ∨ (c ≠ T.id ∧ p ∈ s.parents_of c) := by
    intro c p
    rw [parents_of_of_add h]
    by_cases hc : c = T.id
    · rw [if_pos hc, hP]
      simp [hc]
    · rw [if_neg hc]
      simp [hc]
  refine ⟨?ids, ?populated, ?hashed, ?parents, ?chained, ?ready, ?parent_keys, ?chained_keys,
    ?owners⟩
  case ids =>
    intro k t ht
    rcases get_of_add_eq_some h ht with ⟨rfl, rfl⟩ | ⟨-, ht⟩
    · rfl
    · exact hinv.ids k t ht
  case populated =>
    intro k t ht
    rcases get_of_add_eq_some h ht with ⟨rfl, rfl⟩ | ⟨-, ht⟩
    · exact hallow.populated
    · exact hinv.populated k t ht
  case hashed =>
    intro k t ht
    rcases get_of_add_eq_some h ht with ⟨rfl, rfl⟩ | ⟨-, ht⟩
    · exact ⟨hallow.hashed, hallow.not_fixed_point⟩
    · exact hinv.hashed k t ht
  case parents =>
    intro c t ht
    rcases get_of_add_eq_some h ht with ⟨rfl, rfl⟩ | ⟨hc, ht⟩
    · refine ⟨(mem_parent_keys_of_add h _).mpr (Or.inl rfl), fun p => ?_⟩
      rw [hpar, mem_all_of_add h]
      constructor
      · rintro (⟨-, hp, hs⟩ | ⟨hne', -⟩)
        · exact ⟨Or.inr hp, hs⟩
        · exact absurd rfl hne'
      · rintro ⟨rfl | hp, hs⟩
        · exact absurd hs hallow.not_self
        · exact Or.inl ⟨rfl, hp, hs⟩
    · obtain ⟨hkey, hmem⟩ := hinv.parents c t ht
      refine ⟨(mem_parent_keys_of_add h c).mpr (Or.inr hkey), fun p => ?_⟩
      rw [hpar, mem_all_of_add h, hmem]
      constructor
      · rintro (⟨hc', -⟩ | ⟨-, hp, hs⟩)
        · exact absurd hc' hc
        · exact ⟨Or.inr hp, hs⟩
      · rintro ⟨rfl | hp, hs⟩
        · exact absurd hs (hallow.no_redeemer c t ht)
        · exact Or.inr ⟨hc, hp, hs⟩
  case chained =>
    intro p c
    rw [mem_chains_in_of_add h, hinv.chained, hpar, hP]
    by_cases hc : c = T.id
    · -- the new transaction had no parent entry before
      subst hc
      have hnot := hinv.not_mem_parents_of_of_not_mem hallow.fresh p
      simp [hnot]
    · simp [hc]
  case ready =>
    intro x
    rw [mem_ready_of_add h, hinv.ready]
    by_cases hx : x = T.id
    · subst hx
      have hnone : s.get T.id = none := by
        rw [← Option.not_isSome_iff_eq_none]
        intro hs
        exact hallow.fresh ((mem_iff_get_isSome _ _).mpr hs)
      rw [get_of_add h, if_pos rfl, hnone]
      simp only [reduceCtorEq, false_and, exists_false, true_and, false_or, Option.some_inj,
        exists_eq_left', hP, not_and]
      constructor
      · intro hn p hp
        rcases (mem_all_of_add h p).mp hp with rfl | hp
        · exact hallow.not_self
        · exact hn p hp
      · intro hn p hp
        exact hn p ((mem_all_of_add h p).mpr (Or.inr hp))
    · rw [get_of_add h, if_neg hx]
      simp only [hx, false_and, or_false]
      constructor
      · rintro ⟨t, ht, hn⟩
        refine ⟨t, ht, fun p hp => ?_⟩
        rcases (mem_all_of_add h p).mp hp with rfl | hp
        · exact hallow.no_redeemer x t ht
        · exact hn p hp
      · rintro ⟨t, ht, hn⟩
        exact ⟨t, ht, fun p hp => hn p ((mem_all_of_add h p).mpr (Or.inr hp))⟩
  case parent_keys =>
    intro k hk
    rw [mem_all_of_add h]
    rcases (mem_parent_keys_of_add h k).mp hk with hk | hk
    · exact Or.inl hk
    · exact Or.inr (hinv.parent_keys k hk)
  case chained_keys =>
    intro k hk
    rw [mem_all_of_add h]
    rcases (mem_chained_keys_of_add h k).mp hk with hk | hk
    · exact Or.inr ((hP k).mp hk).1
    · exact Or.inr (hinv.chained_keys k hk)
  case owners =>
    intro o x
    rw [owner_of_add h]
    by_cases ho : o ∈ T.mtx.spent_outpoints
    · rw [if_pos ho, Option.some_inj]
      constructor
      · rintro rfl
        exact ⟨T, by rw [get_of_add h, if_pos rfl], ho⟩
      · rintro ⟨t, ht, hot⟩
        rcases get_of_add_eq_some h ht with ⟨rfl, -⟩ | ⟨hx, ht⟩
        · rfl
        · -- another pool transaction spending `o` would have failed the double-spend check
          have howner := (hinv.owners o x).mpr ⟨t, ht, hot⟩
          exact absurd ((MempoolUtxoSet.check_double_spends_eq_ok _ _).mp hallow.no_double_spend
            o ho x howner).symm (Ne.symm hx)
    · rw [if_neg ho, hinv.owners]
      constructor
      · rintro ⟨t, ht, hot⟩
        exact ⟨t, by rw [get_of_add h, if_neg (hne ht)]; exact ht, hot⟩
      · rintro ⟨t, ht, hot⟩
        rcases get_of_add_eq_some h ht with ⟨rfl, rfl⟩ | ⟨-, ht⟩
        · exact absurd hot ho
        · exact ⟨t, ht, hot⟩

/-! ## Removing a transaction -/

theorem mem_getD_map_remove (o : Option TransactionIdSet) (id x : TransactionId) :
    x ∈ (o.map (·.remove id)).getD ∅ ↔ x ≠ id ∧ x ∈ o.getD ∅ := by
  cases o with
  | none => simp
  | some parents => exact ListSet.mem_remove parents id x

theorem get_unchain_parents (s : TransactionsPool) (id k : TransactionId) :
    (s.unchain_parents id).get k =
      if k ∈ s.parents_of id then (s.chained_transactions.get k).map (·.remove id)
      else s.chained_transactions.get k := by
  unfold unchain_parents parents_of
  cases s.parent_transactions.get id with
  | none => rw [Option.getD_none, if_neg (ListSet.not_mem_empty k)]
  | some parents => exact get_foldl_unchain_from id parents s.chained_transactions k

theorem get_unparent_chains (s : TransactionsPool) (chained : TransactionsEdges)
    (id k : TransactionId) :
    (s.unparent_chains chained id).1.get k =
      if k ∈ (chained.get id).getD ∅ then (s.parent_transactions.get k).map (·.remove id)
      else s.parent_transactions.get k := by
  unfold unparent_chains
  cases chained.get id with
  | none => rw [Option.getD_none, if_neg (ListSet.not_mem_empty k)]
  | some chains => exact get_foldl_unparent id chains _ _ k

theorem mem_unparent_chains (s : TransactionsPool) (chained : TransactionsEdges)
    (id k : TransactionId) :
    k ∈ (s.unparent_chains chained id).2 ↔ k ∈ s.ready_transactions ∨
      (k ∈ (chained.get id).getD ∅ ∧
        ∃ parents, s.parent_transactions.get k = some parents ∧ (parents.remove id).is_empty) := by
  unfold unparent_chains
  cases chained.get id with
  | none => simp
  | some chains => exact mem_foldl_unparent id chains _ _ k

/-- Unless the transaction is its own parent, the second block reads its own
    chained set unchanged by the first. -/
theorem chains_unchain_parents (s : TransactionsPool) (id : TransactionId)
    (hself : id ∉ s.parents_of id) : ((s.unchain_parents id).get id).getD ∅ = s.chains_in id := by
  rw [get_unchain_parents, if_neg hself]
  rfl

/-- **REMOVE**: with one entry per input, removing a transaction does not
    panic. The relational part is always done; a transaction in the pool then
    leaves it, and the owner index forgets what it spends. -/
theorem remove_transaction_eq_ok (s : TransactionsPool) (id : TransactionId)
    (hpop : ∀ t, s.get id = some t → t.mtx.entries.length = t.mtx.tx.inputs.length) :
    ∃ s' r, s.remove_transaction id = .ok (s', r) ∧
      (∀ k, s'.get k = if k = id then none else s.get k) ∧
      s'.parent_transactions = (s.remove_relations id).parent_transactions ∧
      s'.chained_transactions = (s.remove_relations id).chained_transactions ∧
      s'.ready_transactions = (s.remove_relations id).ready_transactions ∧
      ∀ o, s'.utxo_set.outpoint_owner_id.get o =
        match s.get id with
        | some t => if o ∈ t.mtx.spent_outpoints then none else s.utxo_set.outpoint_owner_id.get o
        | none => s.utxo_set.outpoint_owner_id.get o := by
  have hsame : (s.remove_relations id).all_transactions.get id = s.get id := rfl
  unfold remove_transaction
  dsimp only
  cases hg : s.get id with
  | none =>
      -- the error comes after the relational part, which stays
      rw [hsame, hg]
      refine ⟨s.remove_relations id, _, rfl, fun k => ?_, rfl, rfl, rfl, fun o => rfl⟩
      by_cases hk : k = id
      · rw [if_pos hk, hk]
        exact hg
      · rw [if_neg hk]
        rfl
  | some T =>
      rw [hsame, hg]
      dsimp only
      -- the pool the parents are looked up in no longer holds the transaction
      obtain ⟨u, hu, hown⟩ := MempoolUtxoSet.remove_transaction_owner (s.remove_relations id).utxo_set
        T.mtx (TransactionsPool.get_parent_transaction_ids_in_pool
          { all_transactions := AList.erase id (s.remove_relations id).all_transactions,
            parent_transactions := (s.remove_relations id).parent_transactions,
            chained_transactions := (s.remove_relations id).chained_transactions,
            ready_transactions := (s.remove_relations id).ready_transactions,
            utxo_set := (s.remove_relations id).utxo_set } T.mtx)
        (hpop T hg)
      rw [hu]
      exact ⟨_, _, rfl, fun k => get_erase _ _ _, rfl, rfl, rfl, hown⟩

section Remove

variable {TransactionID : KashHashing.Bytes → Hash} {s s' : TransactionsPool} {id : TransactionId}
  {r : Except RuleError MempoolTransaction}

/-- What a successful removal did, read off `remove_transaction_eq_ok`. -/
theorem remove_facts (hinv : PoolInvariant TransactionID s) (h : s.remove_transaction id = .ok (s', r)) :
    (∀ k, s'.get k = if k = id then none else s.get k) ∧
      s'.parent_transactions = (s.remove_relations id).parent_transactions ∧
      s'.chained_transactions = (s.remove_relations id).chained_transactions ∧
      s'.ready_transactions = (s.remove_relations id).ready_transactions ∧
      ∀ o, s'.utxo_set.outpoint_owner_id.get o =
        match s.get id with
        | some t => if o ∈ t.mtx.spent_outpoints then none else s.utxo_set.outpoint_owner_id.get o
        | none => s.utxo_set.outpoint_owner_id.get o := by
  obtain ⟨s'', r', h', hfacts⟩ := remove_transaction_eq_ok s id fun t ht =>
    entries_length_of_populated (hinv.populated id t ht)
  rw [h'] at h
  cases h
  exact hfacts

theorem get_of_remove (hinv : PoolInvariant TransactionID s) (h : s.remove_transaction id = .ok (s', r))
    (k : TransactionId) : s'.get k = if k = id then none else s.get k :=
  (remove_facts hinv h).1 k

theorem get_of_remove_eq_some (hinv : PoolInvariant TransactionID s) (h : s.remove_transaction id = .ok (s', r))
    {k : TransactionId} {t : MempoolTransaction} (ht : s'.get k = some t) :
    k ≠ id ∧ s.get k = some t := by
  rw [get_of_remove hinv h] at ht
  by_cases hk : k = id
  · rw [if_pos hk] at ht
    cases ht
  · rw [if_neg hk] at ht
    exact ⟨hk, ht⟩

theorem mem_all_of_remove (hinv : PoolInvariant TransactionID s) (h : s.remove_transaction id = .ok (s', r))
    (k : TransactionId) : k ∈ s'.all_transactions ↔ k ≠ id ∧ k ∈ s.all_transactions := by
  rw [mem_iff_get, mem_iff_get]
  constructor
  · rintro ⟨t, ht⟩
    obtain ⟨hk, ht⟩ := get_of_remove_eq_some hinv h ht
    exact ⟨hk, t, ht⟩
  · rintro ⟨hk, t, ht⟩
    exact ⟨t, by rw [get_of_remove hinv h, if_neg hk]; exact ht⟩

/-- The removed transaction leaves every parent set, and its own goes. -/
theorem mem_parents_of_of_remove (hinv : PoolInvariant TransactionID s)
    (h : s.remove_transaction id = .ok (s', r)) (c x : TransactionId) :
    x ∈ s'.parents_of c ↔ c ≠ id ∧ x ≠ id ∧ x ∈ s.parents_of c := by
  have hpt := (remove_facts hinv h).2.1
  unfold parents_of
  rw [hpt]
  show x ∈ (Map.get ((s.unparent_chains (s.unchain_parents id) id).1.erase id) c).getD ∅ ↔ _
  rw [get_erase]
  by_cases hc : c = id
  · rw [if_pos hc]
    simp [hc]
  · rw [if_neg hc, get_unparent_chains, chains_unchain_parents s id (hinv.not_mem_parents_of_self id)]
    by_cases hch : c ∈ s.chains_in id
    · rw [if_pos hch, mem_getD_map_remove]
      simp [hc]
    · -- a transaction not chained to the removed one never listed it as a parent
      rw [if_neg hch]
      have hnot : id ∉ s.parents_of c := fun hm => hch ((hinv.chained id c).mpr hm)
      constructor
      · intro hx
        exact ⟨hc, fun hxid => hnot (hxid ▸ hx), hx⟩
      · rintro ⟨-, -, hx⟩
        exact hx

/-- The removed transaction leaves every chained set, and its own goes. -/
theorem mem_chains_in_of_remove (hinv : PoolInvariant TransactionID s)
    (h : s.remove_transaction id = .ok (s', r)) (p x : TransactionId) :
    x ∈ s'.chains_in p ↔ p ≠ id ∧ x ≠ id ∧ x ∈ s.chains_in p := by
  have hch := (remove_facts hinv h).2.2.1
  unfold chains_in
  rw [hch]
  show x ∈ (Map.get ((s.unchain_parents id).erase id) p).getD ∅ ↔ _
  rw [get_erase]
  by_cases hp : p = id
  · rw [if_pos hp]
    simp [hp]
  · rw [if_neg hp, get_unchain_parents]
    by_cases hpar : p ∈ s.parents_of id
    · rw [if_pos hpar, mem_getD_map_remove]
      simp [hp]
    · -- a transaction that is not a parent of the removed one never chained it
      rw [if_neg hpar]
      have hnot : id ∉ s.chains_in p := fun hm => hpar ((hinv.chained p id).mp hm)
      constructor
      · intro hx
        exact ⟨hp, fun hxid => hnot (hxid ▸ hx), hx⟩
      · rintro ⟨-, -, hx⟩
        exact hx

theorem mem_ready_of_remove (hinv : PoolInvariant TransactionID s) (h : s.remove_transaction id = .ok (s', r))
    (x : TransactionId) :
    x ∈ s'.ready_transactions ↔ x ≠ id ∧ (x ∈ s.ready_transactions ∨
      (x ∈ s.chains_in id ∧
        ∃ parents, s.parent_transactions.get x = some parents ∧ (parents.remove id).is_empty)) := by
  rw [(remove_facts hinv h).2.2.2.1]
  show x ∈ (s.unparent_chains (s.unchain_parents id) id).2.remove id ↔ _
  rw [ListSet.mem_remove, mem_unparent_chains,
    chains_unchain_parents s id (hinv.not_mem_parents_of_self id)]

theorem mem_parent_keys_of_remove (hinv : PoolInvariant TransactionID s)
    (h : s.remove_transaction id = .ok (s', r)) (k : TransactionId) :
    k ∈ s'.parent_transactions ↔ k ≠ id ∧ k ∈ s.parent_transactions := by
  rw [(remove_facts hinv h).2.1, mem_iff_get_isSome, mem_iff_get_isSome]
  show (Map.get ((s.unparent_chains (s.unchain_parents id) id).1.erase id) k).isSome ↔ _
  rw [get_erase, get_unparent_chains]
  by_cases hk : k = id
  · simp [hk]
  · rw [if_neg hk]
    split_ifs <;> simp [hk]

theorem mem_chained_keys_of_remove (hinv : PoolInvariant TransactionID s)
    (h : s.remove_transaction id = .ok (s', r)) (k : TransactionId) :
    k ∈ s'.chained_transactions ↔ k ≠ id ∧ k ∈ s.chained_transactions := by
  rw [(remove_facts hinv h).2.2.1, mem_iff_get_isSome, mem_iff_get_isSome]
  show (Map.get ((s.unchain_parents id).erase id) k).isSome ↔ _
  rw [get_erase, get_unchain_parents]
  by_cases hk : k = id
  · simp [hk]
  · rw [if_neg hk]
    split_ifs <;> simp [hk]

end Remove

/-- **REMOVE KEEPS THE INVARIANT**: the removed transaction leaves every record;
    the children it leaves without a parent in the pool become ready. A missing
    transaction changes nothing the records say. -/
theorem PoolInvariant.remove {TransactionID : KashHashing.Bytes → Hash} {s s' : TransactionsPool}
    {id : TransactionId} {r : Except RuleError MempoolTransaction} (hinv : PoolInvariant TransactionID s)
    (h : s.remove_transaction id = .ok (s', r)) : PoolInvariant TransactionID s' := by
  refine ⟨?ids, ?populated, ?hashed, ?parents, ?chained, ?ready, ?parent_keys, ?chained_keys,
    ?owners⟩
  case ids =>
    intro k t ht
    exact hinv.ids k t (get_of_remove_eq_some hinv h ht).2
  case populated =>
    intro k t ht
    exact hinv.populated k t (get_of_remove_eq_some hinv h ht).2
  case hashed =>
    intro k t ht
    exact hinv.hashed k t (get_of_remove_eq_some hinv h ht).2
  case parents =>
    intro c t ht
    obtain ⟨hc, ht⟩ := get_of_remove_eq_some hinv h ht
    obtain ⟨hkey, hmem⟩ := hinv.parents c t ht
    refine ⟨(mem_parent_keys_of_remove hinv h c).mpr ⟨hc, hkey⟩, fun p => ?_⟩
    rw [mem_parents_of_of_remove hinv h, hmem, mem_all_of_remove hinv h]
    constructor
    · rintro ⟨-, hp, hpa, hs⟩
      exact ⟨⟨hp, hpa⟩, hs⟩
    · rintro ⟨⟨hp, hpa⟩, hs⟩
      exact ⟨hc, hp, hpa, hs⟩
  case chained =>
    intro p c
    rw [mem_chains_in_of_remove hinv h, mem_parents_of_of_remove hinv h, hinv.chained]
    constructor
    · rintro ⟨hp, hc, hm⟩
      exact ⟨hc, hp, hm⟩
    · rintro ⟨hc, hp, hm⟩
      exact ⟨hp, hc, hm⟩
  case ready =>
    intro x
    rw [mem_ready_of_remove hinv h]
    constructor
    · rintro ⟨hx, hr | ⟨hch, parents, hps, he⟩⟩
      · obtain ⟨t, ht, hn⟩ := (hinv.ready x).mp hr
        refine ⟨t, by rw [get_of_remove hinv h, if_neg hx]; exact ht, fun p hp => ?_⟩
        exact hn p ((mem_all_of_remove hinv h p).mp hp).2
      · -- a child whose last parent was the removed transaction
        obtain ⟨-, t, ht, -⟩ := (hinv.mem_chains_in_iff id x).mp hch
        refine ⟨t, by rw [get_of_remove hinv h, if_neg hx]; exact ht, fun p hp hs => ?_⟩
        obtain ⟨hpid, hpmem⟩ := (mem_all_of_remove hinv h p).mp hp
        have hpar : p ∈ s.parents_of x := ((hinv.parents x t ht).2 p).mpr ⟨hpmem, hs⟩
        unfold parents_of at hpar
        rw [hps] at hpar
        exact (ListSet.is_empty_iff _).mp he p ((ListSet.mem_remove _ _ _).mpr ⟨hpid, hpar⟩)
    · rintro ⟨t, ht', hn⟩
      obtain ⟨hx, ht⟩ := get_of_remove_eq_some hinv h ht'
      refine ⟨hx, ?_⟩
      by_cases hch : x ∈ s.chains_in id
      · -- chained to the removed transaction: it was the only parent
        right
        obtain ⟨hkey, hmem⟩ := hinv.parents x t ht
        obtain ⟨parents, hps⟩ := Option.isSome_iff_exists.mp ((mem_iff_get_isSome _ _).mp hkey)
        refine ⟨hch, parents, hps, (ListSet.is_empty_iff _).mpr fun y hy => ?_⟩
        obtain ⟨hyid, hy⟩ := (ListSet.mem_remove _ _ _).mp hy
        have hy' : y ∈ s.parents_of x := by
          unfold parents_of
          rw [hps]
          exact hy
        obtain ⟨hya, hys⟩ := (hmem y).mp hy'
        exact hn y ((mem_all_of_remove hinv h y).mpr ⟨hyid, hya⟩) hys
      · left
        refine (hinv.ready x).mpr ⟨t, ht, fun p hp hs => ?_⟩
        by_cases hpid : p = id
        · subst hpid
          exact hch ((hinv.mem_chains_in_iff p x).mpr ⟨hp, t, ht, hs⟩)
        · exact hn p ((mem_all_of_remove hinv h p).mpr ⟨hpid, hp⟩) hs
  case parent_keys =>
    intro k hk
    obtain ⟨hkid, hk⟩ := (mem_parent_keys_of_remove hinv h k).mp hk
    exact (mem_all_of_remove hinv h k).mpr ⟨hkid, hinv.parent_keys k hk⟩
  case chained_keys =>
    intro k hk
    obtain ⟨hkid, hk⟩ := (mem_chained_keys_of_remove hinv h k).mp hk
    exact (mem_all_of_remove hinv h k).mpr ⟨hkid, hinv.chained_keys k hk⟩
  case owners =>
    intro o x
    rw [(remove_facts hinv h).2.2.2.2 o]
    cases hg : s.get id with
    | none =>
        -- nothing was filed under the id: the pool reads as before
        have hsame : ∀ k, s'.get k = s.get k := by
          intro k
          rw [get_of_remove hinv h]
          by_cases hk : k = id
          · rw [if_pos hk, hk, hg]
          · rw [if_neg hk]
        simp only [hsame]
        exact hinv.owners o x
    | some T =>
        dsimp only
        by_cases ho : o ∈ T.mtx.spent_outpoints
        · rw [if_pos ho]
          refine iff_of_false (fun hc => by cases hc) ?_
          rintro ⟨t, ht', hot⟩
          obtain ⟨hx, ht⟩ := get_of_remove_eq_some hinv h ht'
          -- `o` had one owner, the removed transaction
          have h₁ := (hinv.owners o x).mpr ⟨t, ht, hot⟩
          have h₂ := (hinv.owners o id).mpr ⟨T, hg, ho⟩
          rw [h₁, Option.some_inj] at h₂
          exact hx h₂
        · rw [if_neg ho, hinv.owners]
          constructor
          · rintro ⟨t, ht, hot⟩
            refine ⟨t, ?_, hot⟩
            rw [get_of_remove hinv h, if_neg]
            · exact ht
            · rintro rfl
              rw [hg, Option.some_inj] at ht
              exact ho (ht ▸ hot)
          · rintro ⟨t, ht', hot⟩
            exact ⟨t, (get_of_remove_eq_some hinv h ht').2, hot⟩

/-- Every removal from a pool with the invariant succeeds. -/
theorem PoolInvariant.remove_ok {TransactionID : KashHashing.Bytes → Hash} {s : TransactionsPool}
    (hinv : PoolInvariant TransactionID s)
    (id : TransactionId) : ∃ s' r, s.remove_transaction id = .ok (s', r) := by
  obtain ⟨s', r, h, -⟩ := remove_transaction_eq_ok s id fun t ht =>
    entries_length_of_populated (hinv.populated id t ht)
  exact ⟨s', r, h⟩

/-- The empty pool has the invariant. -/
theorem PoolInvariant.new (TransactionID : KashHashing.Bytes → Hash) :
    PoolInvariant TransactionID TransactionsPool.new := by
  refine ⟨?_, ?_, ?_, ?_, ?_, ?_, ?_, ?_, ?_⟩ <;> intros <;> simp_all [TransactionsPool.new, get,
    parents_of, chains_in, MempoolUtxoSet.new]

/-! ## Descendants -/

/-- The ids `get_redeemer_ids_in_pool` follows from a transaction are its
    chained set. -/
theorem chains_of_eq (s : TransactionsPool) (t : MempoolTransaction) :
    s.chains_of t = (s.chains_in t.id).elems := by
  unfold chains_of chains_in
  cases s.chained_transactions.get t.id <;> rfl

/-- The links the walk follows are the in-pool spending edges. -/
theorem PoolInvariant.edge_iff {TransactionID : KashHashing.Bytes → Hash} {s : TransactionsPool}
    (hinv : PoolInvariant TransactionID s) (a b : TransactionId) :
    Bfs.Edge s.get s.chains_of a b ↔ s.ChildInPool a b := by
  constructor
  · rintro ⟨t, ht, hb, -⟩
    rw [chains_of_eq, hinv.ids a t ht] at hb
    exact (hinv.mem_chains_in_iff a b).mp hb
  · intro hab
    obtain ⟨t, ht⟩ := (mem_iff_get s a).mp hab.1
    obtain ⟨t', ht', -⟩ := hab.2
    refine ⟨t, ht, ?_, by rw [ht']; rfl⟩
    rw [chains_of_eq, hinv.ids a t ht]
    exact (hinv.mem_chains_in_iff a b).mpr hab

/-- **REDEEMERS**: in a pool with the invariant, `get_redeemer_ids_in_pool`
    lists, each once, exactly the transactions reachable by in-pool spending
    edges. -/
theorem PoolInvariant.get_redeemer_ids_in_pool_spec {TransactionID : KashHashing.Bytes → Hash}
    {s : TransactionsPool} (hinv : PoolInvariant TransactionID s)
    (id : TransactionId) :
    (∀ b, b ∈ s.get_redeemer_ids_in_pool id ↔ TransGen s.ChildInPool id b) ∧
      (s.get_redeemer_ids_in_pool id).Nodup := by
  have hkeys : ∀ b, (s.get b).isSome → b ∈ s.all_transactions.keys := by
    intro b hb
    exact AList.mem_keys.mp ((mem_iff_get_isSome _ _).mpr hb)
  have hfuel : s.all_transactions.keys.length + 1 ≤ s.all_transactions.entries.length + 1 := by
    simp [AList.keys, List.keys]
  obtain ⟨hmem, hnodup⟩ := Bfs.mem_reachable_iff id _ hkeys hfuel
  have hedge : Bfs.Edge s.get s.chains_of = s.ChildInPool := by
    funext a b
    exact propext (hinv.edge_iff a b)
  rw [hedge] at hmem
  exact ⟨hmem, hnodup⟩

/-! ## Runs -/

theorem Reachable.invariant {TransactionID : KashHashing.Bytes → Hash} {s : TransactionsPool}
    (h : Reachable TransactionID s) : PoolInvariant TransactionID s := by
  induction h with
  | new => exact PoolInvariant.new TransactionID
  | add T _ hallow hadd ih => exact ih.add hallow hadd
  | remove id r _ hrem ih => exact ih.remove hrem

/-- A transaction hash that gives `pool_parent` and `pool_child` the ids they carry. -/
def pool_ids_hash (stream : KashHashing.Bytes) : Hash :=
  if stream = id_stream MempoolUtxoSet.pool_parent.tx then MempoolUtxoSet.pool_parent.id
  else if stream = id_stream MempoolUtxoSet.pool_child.tx then MempoolUtxoSet.pool_child.id
  else ZERO_HASH

/-- The pool holding `pool_parent`. -/
def parent_pool : TransactionsPool :=
  match TransactionsPool.new.add_mempool_transaction ⟨MempoolUtxoSet.pool_parent⟩ with
  | .ok s => s
  | .error _ => TransactionsPool.new

/-- The pool holding `pool_parent` and its child `pool_child`. -/
def parent_child_pool : TransactionsPool :=
  match parent_pool.add_mempool_transaction ⟨MempoolUtxoSet.pool_child⟩ with
  | .ok s => s
  | .error _ => TransactionsPool.new

/-- The pool left when the parent is removed and its child stays. -/
def orphaned_child_pool : TransactionsPool :=
  match parent_child_pool.remove_transaction MempoolUtxoSet.pool_parent.id with
  | .ok (s, _) => s
  | .error _ => TransactionsPool.new

theorem reachable_orphaned_child_pool : Reachable pool_ids_hash orphaned_child_pool := by
  have h₁ : TransactionsPool.new.add_mempool_transaction ⟨MempoolUtxoSet.pool_parent⟩ =
      .ok parent_pool := rfl
  have h₂ : parent_pool.add_mempool_transaction ⟨MempoolUtxoSet.pool_child⟩ =
      .ok parent_child_pool := rfl
  have h₃ : parent_child_pool.remove_transaction MempoolUtxoSet.pool_parent.id =
      .ok (orphaned_child_pool, .ok ⟨MempoolUtxoSet.pool_parent⟩) := rfl
  have hallow₁ : AddAllowed pool_ids_hash TransactionsPool.new ⟨MempoolUtxoSet.pool_parent⟩ :=
    ⟨by decide, by decide, by decide, fun _ _ ht => (by cases ht), by decide, by decide +kernel⟩
  -- the parent is the only transaction of the first pool, and it spends no output of the child
  have hallow₂ : AddAllowed pool_ids_hash parent_pool ⟨MempoolUtxoSet.pool_child⟩ := by
    refine ⟨by decide, by decide, by decide, fun id t ht => ?_, by decide, by decide +kernel⟩
    rcases get_of_add_eq_some h₁ ht with ⟨-, rfl⟩ | ⟨-, ht⟩
    · decide
    · cases ht
  exact .remove _ _ (.add _ (.add _ .new hallow₁ h₁) hallow₂ h₂) h₃

/-- The child left alone is ready. -/
example : MempoolUtxoSet.pool_child.id ∈ orphaned_child_pool.ready_transactions := by decide

end TransactionsPool

end KashMempool
