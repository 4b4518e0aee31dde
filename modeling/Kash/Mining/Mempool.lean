import Kash.UtxoDiff
import Kash.Lib.ListSet
import Kash.Lib.Bfs

/-! # The mempool's transaction pool (`mining/src/mempool/model`)

    `TransactionsPool` keeps the mempool's transactions by id and three
    redundant views of how they depend on each other: for every transaction its
    parents in the pool (`parent_transactions`), for every transaction the pool
    transactions spending its outputs (`chained_transactions`), and the
    transactions with no parent in the pool (`ready_transactions`). Its
    `MempoolUtxoSet` holds the outputs pool transactions create
    (`pool_unspent_outputs`) and, for every outpoint a pool transaction spends,
    the transaction spending it (`outpoint_owner_id`).

    `add_mempool_transaction` and `remove_transaction` update all of these
    piecemeal. Their assertions are the panics of `PoolPanic`; indexing
    `entries[i]` in `MempoolUtxoSet::remove_transaction` is one more. The one
    error a removal returns leaves the updates it made before it in place, so
    `remove_transaction` returns the state together with its result.

    The input loop of `MempoolUtxoSet::add_transaction` removes from
    `pool_unspent_outputs` the outpoint held in `outpoint`, which is the added
    transaction's own id with the input's index, and not the outpoint the input
    spends; `spend_input` keeps that.

    Hash maps are `Map`s and hash sets `ListSet`s, both iterated in whatever
    order they list their entries. The breadth-first walk of
    `get_redeemer_ids_in_pool` is `Bfs.reachable`, run with one iteration per
    pool transaction and one more. The fields the functions here never read
    (the configuration, the expiry scan marks, a transaction's priority and
    arrival score) are left out. -/

namespace KashMempool

open KashTx AListLoops KashUtxoDiff

/-- `UNACCEPTED_DAA_SCORE = u64::MAX`: the score of an entry no block accepted. -/
def UNACCEPTED_DAA_SCORE : UInt64 := 0xFFFFFFFFFFFFFFFF

/-- Where the pool panics. -/
inductive PoolPanic
  /-- `assert!(!self.all_transactions.contains_key(&id))` of `add_mempool_transaction`. -/
  | transaction_already_exists
  /-- `assert!(transaction.mtx.is_fully_populated())` of `add_mempool_transaction`. -/
  | not_fully_populated
  /-- `assert_eq!(self.entries.len(), self.tx.inputs.len())` of `is_verifiable`. -/
  | entries_length_mismatch
  /-- `transaction.entries[i]` of `MempoolUtxoSet::remove_transaction`. -/
  | index_out_of_bounds
  deriving DecidableEq, Repr

/-- The `RuleError`s the pool returns. -/
inductive RuleError
  | RejectMissingTransaction (transaction_id : TransactionId)
  | RejectDoubleSpendInMempool (outpoint : TransactionOutpoint) (transaction_id : TransactionId)
  deriving DecidableEq

/-- `MutableTransaction`: a transaction with the UTXO entries found for its inputs
    so far, and its fee and mass once computed. -/
structure MutableTransaction where
  tx : Transaction
  entries : List (Option UtxoEntry)
  calculated_fee : Option UInt64
  calculated_compute_mass : Option UInt64
  deriving DecidableEq

namespace MutableTransaction

/-- `id`. -/
def id (self : MutableTransaction) : TransactionId := self.tx.id

/-- `is_verifiable`: every entry found, after asserting one entry per input. -/
def is_verifiable (self : MutableTransaction) : Except PoolPanic Bool :=
  if self.entries.length = self.tx.inputs.length then .ok (self.entries.all Option.isSome)
  else .error .entries_length_mismatch

/-- `is_fully_populated`. -/
def is_fully_populated (self : MutableTransaction) : Except PoolPanic Bool := do
  let verifiable ← self.is_verifiable
  pure (verifiable && self.calculated_fee.isSome && self.calculated_compute_mass.isSome)

end MutableTransaction

/-- `MempoolTransaction`, of which the functions here read only the transaction. -/
structure MempoolTransaction where
  mtx : MutableTransaction
  deriving DecidableEq

/-- `MempoolTransaction::id`. -/
def MempoolTransaction.id (self : MempoolTransaction) : TransactionId := self.mtx.id

/-- `TransactionIdSet = HashSet<TransactionId>`. -/
abbrev TransactionIdSet := ListSet TransactionId

/-- `TransactionsEdges = HashMap<TransactionId, TransactionIdSet>`. -/
abbrev TransactionsEdges := Map TransactionId TransactionIdSet

/-- `OutpointIndex = HashMap<TransactionOutpoint, TransactionId>`. -/
abbrev OutpointIndex := Map TransactionOutpoint TransactionId

/-- `MempoolTransactionCollection = HashMap<TransactionId, MempoolTransaction>`. -/
abbrev MempoolTransactionCollection := Map TransactionId MempoolTransaction

/-! ## `utxo_set.rs` -/

/-- `MempoolUtxoSet`. -/
structure MempoolUtxoSet where
  pool_unspent_outputs : UtxoCollection
  outpoint_owner_id : OutpointIndex

namespace MempoolUtxoSet

/-- `new`. -/
def new : MempoolUtxoSet := ⟨∅, ∅⟩

/-- One input of `add_transaction`: remove the pool output at `outpoint`, which
    holds the added transaction's id and the input's index, and record the
    transaction as the owner of the outpoint the input spends. -/
def spend_input (transaction_id : TransactionId) (self : MempoolUtxoSet)
    (input : TransactionInput × ℕ) : MempoolUtxoSet :=
  let outpoint : TransactionOutpoint := ⟨transaction_id, UInt32.ofNat input.2⟩
  { pool_unspent_outputs := self.pool_unspent_outputs.erase outpoint,
    outpoint_owner_id := self.outpoint_owner_id.insert input.1.previous_outpoint transaction_id }

/-- The entry a pool output gets: no accepting block, not a coinbase. -/
def pool_entry (output : TransactionOutput) : UtxoEntry :=
  ⟨output.value, output.script_public_key, UNACCEPTED_DAA_SCORE, false, output.asset_type⟩

/-- One output of `add_transaction`: store it under the transaction's outpoint. -/
def create_output (transaction_id : TransactionId) (self : MempoolUtxoSet)
    (output : TransactionOutput × ℕ) : MempoolUtxoSet :=
  { self with
    pool_unspent_outputs :=
      self.pool_unspent_outputs.insert ⟨transaction_id, UInt32.ofNat output.2⟩ (pool_entry output.1) }

/-- `add_transaction`. -/
def add_transaction (self : MempoolUtxoSet) (transaction : MutableTransaction) : MempoolUtxoSet :=
  let self := transaction.tx.inputs.zipIdx.foldl (spend_input transaction.id) self
  transaction.tx.outputs.zipIdx.foldl (create_output transaction.id) self

/-- One input of `remove_transaction`: restore the spent entry when its creator is
    still in the pool, and forget the input's owner. -/
def restore_input (transaction : MutableTransaction) (parent_ids_in_pool : TransactionIdSet)
    (self : MempoolUtxoSet) (input : TransactionInput × ℕ) : Except PoolPanic MempoolUtxoSet :=
  match transaction.entries[input.2]? with
  | none => .error .index_out_of_bounds
  | some entry =>
      let pool_unspent_outputs :=
        match entry with
        | some entry =>
            if input.1.previous_outpoint.transaction_id ∈ parent_ids_in_pool then
              self.pool_unspent_outputs.insert input.1.previous_outpoint entry
            else self.pool_unspent_outputs
        | none => self.pool_unspent_outputs
      .ok { pool_unspent_outputs,
            outpoint_owner_id := self.outpoint_owner_id.erase input.1.previous_outpoint }

/-- One output of `remove_transaction`: drop the transaction's outpoint `i`. -/
def remove_output (transaction_id : TransactionId) (self : MempoolUtxoSet) (i : ℕ) :
    MempoolUtxoSet :=
  { self with pool_unspent_outputs := self.pool_unspent_outputs.erase ⟨transaction_id, UInt32.ofNat i⟩ }

/-- `remove_transaction`. -/
def remove_transaction (self : MempoolUtxoSet) (transaction : MutableTransaction)
    (parent_ids_in_pool : TransactionIdSet) : Except PoolPanic MempoolUtxoSet := do
  let self ← transaction.tx.inputs.zipIdx.foldlM (restore_input transaction parent_ids_in_pool) self
  pure ((List.range transaction.tx.outputs.length).foldl (remove_output transaction.id) self)

/-- `get_outpoint_owner_id`. -/
def get_outpoint_owner_id (self : MempoolUtxoSet) (outpoint : TransactionOutpoint) :
    Option TransactionId :=
  self.outpoint_owner_id.get outpoint

/-- `check_double_spends`: no other pool transaction spends an outpoint the
    transaction spends. -/
def check_double_spends (self : MempoolUtxoSet) (transaction : MutableTransaction) :
    Except RuleError Unit :=
  transaction.tx.inputs.forM fun input =>
    match self.get_outpoint_owner_id input.previous_outpoint with
    | some existing_transaction_id =>
        if existing_transaction_id ≠ transaction.id then
          .error (.RejectDoubleSpendInMempool input.previous_outpoint existing_transaction_id)
        else .ok ()
    | none => .ok ()

end MempoolUtxoSet

/-! ## `transactions_pool.rs` and `pool.rs` -/

/-- `TransactionsPool`. -/
structure TransactionsPool where
  all_transactions : MempoolTransactionCollection
  parent_transactions : TransactionsEdges
  chained_transactions : TransactionsEdges
  ready_transactions : TransactionIdSet
  utxo_set : MempoolUtxoSet

namespace TransactionsPool

/-- `new`. -/
def new : TransactionsPool := ⟨∅, ∅, ∅, ∅, MempoolUtxoSet.new⟩

/-- `Pool::has`. -/
def has (self : TransactionsPool) (transaction_id : TransactionId) : Bool :=
  decide (transaction_id ∈ self.all_transactions)

/-- `Pool::get`. -/
def get (self : TransactionsPool) (transaction_id : TransactionId) : Option MempoolTransaction :=
  self.all_transactions.get transaction_id

/-- `Pool::get_parent_transaction_ids_in_pool`. -/
def get_parent_transaction_ids_in_pool (self : TransactionsPool) (transaction : MutableTransaction) :
    TransactionIdSet :=
  transaction.tx.inputs.foldl (fun parents input =>
      if self.has input.previous_outpoint.transaction_id then
        (parents.insert input.previous_outpoint.transaction_id).1
      else parents) ∅

/-- The ids a transaction's entry of `chained_transactions` lists. -/
def chains_of (self : TransactionsPool) (transaction : MempoolTransaction) : List TransactionId :=
  match self.chained_transactions.get transaction.id with
  | some chains => chains.elems
  | none => []

/-- `Pool::get_redeemer_ids_in_pool`: the breadth-first walk along
    `chained_transactions` from the transaction, listing each pool transaction
    the first time it is met. -/
def get_redeemer_ids_in_pool (self : TransactionsPool) (transaction_id : TransactionId) :
    List TransactionId :=
  Bfs.reachable self.get self.chains_of (self.all_transactions.entries.length + 1) transaction_id

/-- One parent of an added transaction:
    `chained_transactions.entry(parent_id).or_default().insert(id)`. -/
def chain_to (id : TransactionId) (chained_transactions : TransactionsEdges)
    (parent_id : TransactionId) : TransactionsEdges :=
  chained_transactions.insert parent_id (((chained_transactions.get parent_id).getD ∅).insert id).1

/-- `add_mempool_transaction`, which never returns an error. -/
def add_mempool_transaction (self : TransactionsPool) (transaction : MempoolTransaction) :
    Except PoolPanic TransactionsPool := do
  let id := transaction.id
  if id ∈ self.all_transactions then throw .transaction_already_exists
  let populated ← transaction.mtx.is_fully_populated
  if !populated then throw .not_fully_populated
  let parents := self.get_parent_transaction_ids_in_pool transaction.mtx
  pure
    { all_transactions := self.all_transactions.insert id transaction
      parent_transactions := self.parent_transactions.insert id parents
      chained_transactions := parents.elems.foldl (chain_to id) self.chained_transactions
      ready_transactions :=
        if parents.is_empty then (self.ready_transactions.insert id).1 else self.ready_transactions
      utxo_set := self.utxo_set.add_transaction transaction.mtx }

/-- One parent of a removed transaction: drop the transaction from the parent's
    chained set. -/
def unchain_from (transaction_id : TransactionId) (chained_transactions : TransactionsEdges)
    (parent : TransactionId) : TransactionsEdges :=
  match chained_transactions.get parent with
  | some chains => chained_transactions.insert parent (chains.remove transaction_id)
  | none => chained_transactions

/-- One transaction chained to a removed one: drop the removed transaction from
    its parents, and make it ready when none are left. -/
def unparent (transaction_id : TransactionId) (edges : TransactionsEdges × TransactionIdSet)
    (chain : TransactionId) : TransactionsEdges × TransactionIdSet :=
  match edges.1.get chain with
  | some parents =>
      let parents := parents.remove transaction_id
      (edges.1.insert chain parents, if parents.is_empty then (edges.2.insert chain).1 else edges.2)
  | none => edges

/-- The first `if let` block of `remove_transaction`: drop the transaction from
    the chained set of each of its parents. -/
def unchain_parents (self : TransactionsPool) (transaction_id : TransactionId) : TransactionsEdges :=
  match self.parent_transactions.get transaction_id with
  | some parents => parents.elems.foldl (unchain_from transaction_id) self.chained_transactions
  | none => self.chained_transactions

/-- The second `if let` block of `remove_transaction`, which reads the chained sets
    the first left: drop the transaction from the parents of each transaction
    chained to it, making ready those left with none. -/
def unparent_chains (self : TransactionsPool) (chained_transactions : TransactionsEdges)
    (transaction_id : TransactionId) : TransactionsEdges × TransactionIdSet :=
  match chained_transactions.get transaction_id with
  | some chains =>
      chains.elems.foldl (unparent transaction_id) (self.parent_transactions, self.ready_transactions)
  | none => (self.parent_transactions, self.ready_transactions)

/-- The relational part of `remove_transaction`, done before the transaction is
    looked up: the two blocks, then the transaction's own entries. -/
def remove_relations (self : TransactionsPool) (transaction_id : TransactionId) : TransactionsPool :=
  let chained_transactions := self.unchain_parents transaction_id
  let edges := self.unparent_chains chained_transactions transaction_id
  { self with
    parent_transactions := edges.1.erase transaction_id
    chained_transactions := chained_transactions.erase transaction_id
    ready_transactions := edges.2.remove transaction_id }

/-- `remove_transaction`: the state after the call, with the removed transaction
    or the error. -/
def remove_transaction (self : TransactionsPool) (transaction_id : TransactionId) :
    Except PoolPanic (TransactionsPool × Except RuleError MempoolTransaction) := do
  let self := self.remove_relations transaction_id
  match self.all_transactions.get transaction_id with
  | none => pure (self, .error (.RejectMissingTransaction transaction_id))
  | some removed_tx =>
      let self := { self with all_transactions := self.all_transactions.erase transaction_id }
      let parent_ids := self.get_parent_transaction_ids_in_pool removed_tx.mtx
      let utxo_set ← self.utxo_set.remove_transaction removed_tx.mtx parent_ids
      pure ({ self with utxo_set }, .ok removed_tx)

end TransactionsPool

end KashMempool
