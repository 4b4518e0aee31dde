import Kash.Pipeline.BodyValidation
import Kash.Coinbase
import Kash.MuHash

/-! # The UTXO state of a chain block (`virtual_processor/utxo_validation.rs`)

    `calculate_utxo_state` builds a chain block's UTXO state from its selected
    parent's: it adds the selected parent's coinbase, then merges the blocks of the
    mergeset in consensus order, the selected parent first. The transactions of a
    merged block are validated in parallel against one view — the selected
    parent's UTXO set composed with the mergeset diff so far — and the valid ones
    are then added in block order to the mergeset diff and to the multiset hash.
    Each merged block's reward (the subsidy its coinbase payload records and the
    fees of the transactions it had accepted) is recorded for the coinbase.

    The blocks' transactions, which the code reads from the block-transactions
    store, and the consensus-ordered mergeset, which it reads from the GHOSTDAG
    store, are arguments. `sequential_utxo_state` is the reading the parallel code
    stands for: every transaction validated against everything accepted before it,
    and accepted at once. -/

namespace KashPipeline

open KashTx KashHashing KashScript KashValidation KashCoinbase KashUtxoDiff KashMuHash
open AListLoops

/-! ## Data -/

/-- `AcceptedTxEntry`. -/
structure AcceptedTxEntry where
  transaction_id : TransactionId
  index_within_block : UInt32
  deriving DecidableEq

/-- `MergesetBlockAcceptanceData`. -/
structure MergesetBlockAcceptanceData where
  block_hash : Hash
  accepted_transactions : List AcceptedTxEntry
  deriving DecidableEq

/-- `UtxoProcessingContext`. Of its `ghostdag_data` the code reads the selected
    parent and the consensus-ordered mergeset; the first is kept here, the second
    is an argument of `calculate_utxo_state`. -/
structure UtxoProcessingContext (G : Type) where
  selected_parent : Hash
  multiset_hash : MuHash G
  mergeset_diff : UtxoDiff
  accepted_tx_ids : List TransactionId
  mergeset_acceptance_data : List MergesetBlockAcceptanceData
  mergeset_rewards : Map Hash BlockRewardData

variable {G : Type} [CommGroup G]

/-- `UtxoProcessingContext::new`. -/
def UtxoProcessingContext.new (selected_parent : Hash) (selected_parent_multiset_hash : MuHash G) :
    UtxoProcessingContext G :=
  ⟨selected_parent, selected_parent_multiset_hash, UtxoDiff.empty, [], [], ∅⟩

/-- The parts of `VirtualStateProcessor` these functions read: the validator, the
    coinbase manager, the script engine's cryptography and the MuHash element map. -/
structure VirtualStateProcessor (G : Type) where
  transaction_validator : TransactionValidator
  coinbase_manager : CoinbaseManager
  crypto : Crypto
  data_to_element : Bytes → G

/-- `Result::unwrap`: an `Err` panics. -/
def unwrap {ε α : Type} : Except ε α → Except PanicSite α
  | .ok a => .ok a
  | .error _ => .error .unwrap_error

/-- `txs[0]`. -/
def first_transaction (txs : List Transaction) : Except PanicSite Transaction :=
  match txs with
  | [] => .error .index_out_of_bounds
  | tx :: _ => .ok tx

/-- `.ok()` of a validation: `None` for a rejected transaction, while a panic
    unwinds. -/
def ok_or_panic {α : Type} : Except TxFault α → Except PanicSite (Option α)
  | .ok a => .ok (some a)
  | .error (.rule _) => .ok none
  | .error (.panics site) => .error site

/-! ## Validating one transaction against a view -/

/-- The entries of the inputs in the view; `none` at the first missing one. -/
def lookup_entries (utxo_view : UtxoView) : List TransactionInput → Option (List UtxoEntry)
  | [] => some []
  | input :: rest => do
      let entry ← utxo_view input.previous_outpoint
      let entries ← lookup_entries utxo_view rest
      pure (entry :: entries)

theorem lookup_entries_length {utxo_view : UtxoView} :
    ∀ {inputs : List TransactionInput} {entries : List UtxoEntry},
      lookup_entries utxo_view inputs = some entries → entries.length = inputs.length
  | [], entries, h => by
      cases h
      rfl
  | input :: rest, entries, h => by
      simp only [lookup_entries, Option.bind_eq_bind, Option.bind_eq_some_iff, Option.pure_def,
        Option.some.injEq] at h
      obtain ⟨_, -, entries', hrest, rfl⟩ := h
      simp only [List.length_cons, lookup_entries_length hrest]

/-- The transaction with the entries its inputs spend in the view. -/
def populate (utxo_view : UtxoView) (transaction : Transaction) : Option PopulatedTransaction :=
  match h : lookup_entries utxo_view transaction.inputs with
  | none => none
  | some entries => some ⟨transaction, entries, lookup_entries_length h⟩

namespace VirtualStateProcessor

variable (p : VirtualStateProcessor G)

/-- `validate_transaction_in_utxo_context`: populate the transaction from the view,
    then validate it with its entries. -/
def validate_transaction_in_utxo_context (transaction : Transaction) (utxo_view : UtxoView)
    (pov_daa_score : UInt64) (flags : TxValidationFlags) : Except TxFault ValidatedTransaction :=
  match populate utxo_view transaction with
  | none => .error (.rule .MissingTxOutpoints)
  | some populated_tx =>
      match p.transaction_validator.validate_populated_transaction_and_get_fee p.crypto
          populated_tx pov_daa_score flags with
      | .ok calculated_fee => .ok ⟨populated_tx, calculated_fee⟩
      | .error e => .error e

/-- The `filter_map` of `validate_transactions_in_parallel` from the transaction at
    `index`: the valid transactions with their index in the block. -/
def validate_transactions_from (utxo_view : UtxoView) (pov_daa_score : UInt64)
    (flags : TxValidationFlags) (index : ℕ) :
    List Transaction → Except PanicSite (List (ValidatedTransaction × UInt32))
  | [] => .ok []
  | tx :: rest => do
      let validated ←
        ok_or_panic (p.validate_transaction_in_utxo_context tx utxo_view pov_daa_score flags)
      let others ← validate_transactions_from utxo_view pov_daa_score flags (index + 1) rest
      pure ((validated.map fun vtx => (vtx, UInt32.ofNat index)).toList ++ others)

/-- `validate_transactions_in_parallel`: every transaction but the coinbase against
    the same view. -/
def validate_transactions_in_parallel (txs : List Transaction) (utxo_view : UtxoView)
    (pov_daa_score : UInt64) (flags : TxValidationFlags) :
    Except PanicSite (List (ValidatedTransaction × UInt32)) :=
  p.validate_transactions_from utxo_view pov_daa_score flags 1 (txs.drop 1)

/-! ## Accepting transactions -/

/-- One iteration of the loop over a block's validated transactions: the
    transaction joins the mergeset diff (`unwrap`) and the multiset hash, its id the
    accepted ids and its fee the block's fee. -/
def accept_transaction (pov_daa_score : UInt64) (acc : UtxoProcessingContext G × UInt64)
    (validated_tx : ValidatedTransaction) : Except PanicSite (UtxoProcessingContext G × UInt64) := do
  let (ctx, block_fee) := acc
  let mergeset_diff ← unwrap (KashUtxoDiff.add_transaction ctx.mergeset_diff
    validated_tx.toPopulatedTransaction pov_daa_score)
  let multiset_hash := ctx.multiset_hash.add_transaction p.data_to_element
    validated_tx.toPopulatedTransaction pov_daa_score
  let block_fee ← u64_add block_fee validated_tx.calculated_fee
  pure ({ ctx with
    mergeset_diff := mergeset_diff
    multiset_hash := multiset_hash
    accepted_tx_ids := ctx.accepted_tx_ids ++ [validated_tx.tx.id] }, block_fee)

/-- The selected parent's coinbase as `ValidatedTransaction::new_coinbase` makes it:
    no entries, so that its inputs, which are zipped with the entries, are none. -/
def coinbase_populated (coinbase : Transaction) : PopulatedTransaction :=
  (ValidatedTransaction.new_coinbase { coinbase with inputs := [] } rfl).toPopulatedTransaction

/-- The start of `calculate_utxo_state`: the selected parent's first transaction,
    which `new_coinbase` asserts is a coinbase, joins the diff (`unwrap`), the
    multiset hash and the accepted ids. -/
def accept_coinbase (ctx : UtxoProcessingContext G) (selected_parent_transactions : List Transaction)
    (pov_daa_score : UInt64) : Except PanicSite (UtxoProcessingContext G × TransactionId) := do
  let coinbase ← first_transaction selected_parent_transactions
  if !coinbase.is_coinbase then .error .assertion_failed
  else
    let validated_coinbase := coinbase_populated coinbase
    let mergeset_diff ← unwrap (KashUtxoDiff.add_transaction ctx.mergeset_diff validated_coinbase
      pov_daa_score)
    let multiset_hash := ctx.multiset_hash.add_transaction p.data_to_element validated_coinbase
      pov_daa_score
    pure ({ ctx with
      mergeset_diff := mergeset_diff
      multiset_hash := multiset_hash
      accepted_tx_ids := ctx.accepted_tx_ids ++ [coinbase.id] }, coinbase.id)

/-- The acceptance data of a merged block; the selected parent's lists its
    coinbase first. -/
def acceptance_data (merged_block : Hash) (is_selected_parent : Bool) (coinbase_id : TransactionId)
    (validated : List (ValidatedTransaction × UInt32)) : MergesetBlockAcceptanceData :=
  let accepted := validated.map fun (tx, tx_idx) => (⟨tx.tx.id, tx_idx⟩ : AcceptedTxEntry)
  ⟨merged_block, if is_selected_parent then ⟨coinbase_id, 0⟩ :: accepted else accepted⟩

/-- The end of an iteration over the merged blocks: the acceptance data, and the
    reward, whose subsidy and script the block's coinbase payload records
    (`unwrap`). -/
def record_block (ctx : UtxoProcessingContext G) (merged_block : Hash) (txs : List Transaction)
    (block_fee : UInt64) (acceptance : MergesetBlockAcceptanceData) :
    Except PanicSite (UtxoProcessingContext G) := do
  let ctx := { ctx with mergeset_acceptance_data := ctx.mergeset_acceptance_data ++ [acceptance] }
  let coinbase ← first_transaction txs
  let coinbase_data ← unwrap (p.coinbase_manager.deserialize_coinbase_payload coinbase.payload)
  let reward_data : BlockRewardData :=
    ⟨coinbase_data.subsidy, block_fee, coinbase_data.miner_data.script_public_key⟩
  pure { ctx with mergeset_rewards := ctx.mergeset_rewards.insert merged_block reward_data }

/-- The flags a merged block is validated with: the selected parent's transactions
    were validated with their scripts already. -/
def validation_flags (is_selected_parent : Bool) : TxValidationFlags :=
  if is_selected_parent then .SkipScriptChecks else .Full

/-! ## The parallel and the sequential pass -/

/-- One iteration of the loop over the merged blocks of `calculate_utxo_state`:
    validate all the block's transactions against the view composed with the
    mergeset diff so far, then accept the valid ones in order. -/
def merge_block (selected_parent_utxo_view : UtxoView) (pov_daa_score : UInt64)
    (coinbase_id : TransactionId) (ctx : UtxoProcessingContext G)
    (block : (Hash × List Transaction) × ℕ) : Except PanicSite (UtxoProcessingContext G) := do
  let ((merged_block, txs), i) := block
  let composed_view := compose selected_parent_utxo_view ctx.mergeset_diff
  let is_selected_parent := i == 0
  let validated_transactions ← p.validate_transactions_in_parallel txs composed_view pov_daa_score
    (validation_flags is_selected_parent)
  let (ctx, block_fee) ←
    (validated_transactions.map Prod.fst).foldlM (p.accept_transaction pov_daa_score) (ctx, 0)
  p.record_block ctx merged_block txs block_fee
    (acceptance_data merged_block is_selected_parent coinbase_id validated_transactions)

/-- The order `accepted_tx_ids.sort()` leaves the ids in: by their bytes. -/
def sort_ids (ids : List TransactionId) : List TransactionId :=
  ids.mergeSort fun a b => decide (a.bytes ≤ b.bytes)

/-- `calculate_utxo_state`, for the selected parent's transactions, the
    consensus-ordered mergeset without the selected parent (each block with its
    transactions) and the selected parent's UTXO view. -/
def calculate_utxo_state (ctx : UtxoProcessingContext G) (selected_parent_transactions : List Transaction)
    (mergeset : List (Hash × List Transaction)) (selected_parent_utxo_view : UtxoView)
    (pov_daa_score : UInt64) : Except PanicSite (UtxoProcessingContext G) := do
  let (ctx, coinbase_id) ← p.accept_coinbase ctx selected_parent_transactions pov_daa_score
  let ctx ← ((ctx.selected_parent, selected_parent_transactions) :: mergeset).zipIdx.foldlM
    (p.merge_block selected_parent_utxo_view pov_daa_score coinbase_id) ctx
  pure { ctx with accepted_tx_ids := sort_ids ctx.accepted_tx_ids }

/-- The sequential reading of a block from the transaction at `index`: each
    transaction validated against the view composed with everything accepted
    before it, and accepted at once. -/
def sequential_transactions_from (selected_parent_utxo_view : UtxoView) (pov_daa_score : UInt64)
    (flags : TxValidationFlags) (index : ℕ) :
    (UtxoProcessingContext G × UInt64) × List (ValidatedTransaction × UInt32) →
      List Transaction →
      Except PanicSite ((UtxoProcessingContext G × UInt64) × List (ValidatedTransaction × UInt32))
  | acc, [] => .ok acc
  | (state, accepted), tx :: rest => do
      let composed_view := compose selected_parent_utxo_view state.1.mergeset_diff
      match ← ok_or_panic
          (p.validate_transaction_in_utxo_context tx composed_view pov_daa_score flags) with
      | none =>
          sequential_transactions_from selected_parent_utxo_view pov_daa_score flags (index + 1)
            (state, accepted) rest
      | some validated_tx => do
          let state ← p.accept_transaction pov_daa_score state validated_tx
          sequential_transactions_from selected_parent_utxo_view pov_daa_score flags (index + 1)
            (state, accepted ++ [(validated_tx, UInt32.ofNat index)]) rest

/-- A merged block read sequentially. -/
def sequential_merge_block (selected_parent_utxo_view : UtxoView) (pov_daa_score : UInt64)
    (coinbase_id : TransactionId) (ctx : UtxoProcessingContext G)
    (block : (Hash × List Transaction) × ℕ) : Except PanicSite (UtxoProcessingContext G) := do
  let ((merged_block, txs), i) := block
  let is_selected_parent := i == 0
  let ((ctx, block_fee), accepted) ←
    p.sequential_transactions_from selected_parent_utxo_view pov_daa_score
      (validation_flags is_selected_parent) 1 ((ctx, 0), []) (txs.drop 1)
  p.record_block ctx merged_block txs block_fee
    (acceptance_data merged_block is_selected_parent coinbase_id accepted)

/-- The sequential pass over the whole mergeset. -/
def sequential_utxo_state (ctx : UtxoProcessingContext G)
    (selected_parent_transactions : List Transaction) (mergeset : List (Hash × List Transaction))
    (selected_parent_utxo_view : UtxoView) (pov_daa_score : UInt64) :
    Except PanicSite (UtxoProcessingContext G) := do
  let (ctx, coinbase_id) ← p.accept_coinbase ctx selected_parent_transactions pov_daa_score
  let ctx ← ((ctx.selected_parent, selected_parent_transactions) :: mergeset).zipIdx.foldlM
    (p.sequential_merge_block selected_parent_utxo_view pov_daa_score coinbase_id) ctx
  pure { ctx with accepted_tx_ids := sort_ids ctx.accepted_tx_ids }

end VirtualStateProcessor

end KashPipeline
