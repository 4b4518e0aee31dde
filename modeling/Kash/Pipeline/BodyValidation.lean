import Kash.Validation.TxValidator
import Kash.Merkle

/-! # Block bodies in isolation (`body_validation_in_isolation.rs`)

    `validate_body_in_isolation` checks a block's transactions without any UTXO
    context: there are some, the header commits to their merkle root, exactly the
    first is a coinbase, each is valid in isolation, the block's mass is within its
    limit, and no transaction appears twice, spends an outpoint another input of the
    block spends, or spends an outpoint a transaction of the block creates. The last
    three make the transactions of a block independent of each other, which the
    UTXO stage relies on when it validates them in parallel.

    A header is reduced to the fields these checks and the UTXO stage read. -/

namespace KashPipeline

open KashTx KashHashing KashScript KashValidation KashMerkle

/-- The fields of a block header the body and UTXO stages read. -/
structure Header where
  hash : Hash
  daa_score : UInt64
  hash_merkle_root : Hash

/-- `Block`. -/
structure Block where
  header : Header
  transactions : List Transaction

/-- The variants of `RuleError` the checks of this file return. -/
inductive RuleError
  | BadMerkleRoot (header calculated : Hash)
  | NoTransactions
  | FirstTxNotCoinbase
  | MultipleCoinbases (index : ℕ)
  | TxInIsolationValidationFailed (id : TransactionId) (error : TxRuleError)
  | ExceedsMassLimit (max_block_mass : UInt64)
  | MassFieldTooLow (id : TransactionId) (committed calculated : UInt64)
  | DoubleSpendInSameBlock (outpoint : TransactionOutpoint)
  | ChainedTransaction (outpoint : TransactionOutpoint)
  | DuplicateTransactions (id : TransactionId)

/-- A failed block check: a rule the block breaks, or a panic. -/
inductive BlockFault
  | rule (error : RuleError)
  | panics (site : PanicSite)

/-- The parameters of `BlockBodyProcessor` these checks read, with the hashers. -/
structure BlockBodyProcessor where
  transaction_validator : TransactionValidator
  mass_calculator : MassCalculator
  max_block_mass : UInt64
  storage_mass_activation_daa_score : UInt64
  TransactionHash : Bytes → Hash
  MerkleBranchHash : Bytes → Hash

/-- `check_has_transactions`. -/
def check_has_transactions (block : Block) : Except RuleError Unit :=
  if block.transactions.isEmpty then .error .NoTransactions else .ok ()

/-- `check_only_one_coinbase`: the index is the position among the transactions
    after the first. -/
def check_only_one_coinbase (block : Block) : Except RuleError Unit :=
  match block.transactions with
  | [] => .ok ()
  | first :: rest =>
      if !first.is_coinbase then .error .FirstTxNotCoinbase
      else
        match rest.findIdx? (·.is_coinbase) with
        | some i => .error (.MultipleCoinbases i)
        | none => .ok ()

/-- `check_block_double_spends`: no outpoint is spent twice in the block. -/
def check_block_double_spends (block : Block) : Except RuleError Unit :=
  match first_repeat [] (block.transactions.flatMap fun tx => tx.inputs.map (·.previous_outpoint))
  with
  | some outpoint => .error (.DoubleSpendInSameBlock outpoint)
  | none => .ok ()

/-- The outpoints the transactions of a block create. -/
def block_created_outpoints (txs : List Transaction) : List TransactionOutpoint :=
  txs.flatMap fun tx => (List.range tx.outputs.length).map fun index => ⟨tx.id, UInt32.ofNat index⟩

/-- `check_no_chained_transactions`: no input spends an outpoint the block
    creates. -/
def check_no_chained_transactions (block : Block) : Except RuleError Unit :=
  let created := block_created_outpoints block.transactions
  match (block.transactions.flatMap (·.inputs)).find? (·.previous_outpoint ∈ created) with
  | some input => .error (.ChainedTransaction input.previous_outpoint)
  | none => .ok ()

/-- `check_duplicate_transactions`. -/
def check_duplicate_transactions (block : Block) : Except RuleError Unit :=
  match first_repeat [] (block.transactions.map (·.id)) with
  | some id => .error (.DuplicateTransactions id)
  | none => .ok ()

namespace BlockBodyProcessor

variable (p : BlockBodyProcessor)

/-- `check_hash_merkle_root`. -/
def check_hash_merkle_root (block : Block) (storage_mass_activated : Bool) :
    Except BlockFault Unit := do
  let calculated ← (calc_hash_merkle_root_with_options p.TransactionHash p.MerkleBranchHash
    block.transactions storage_mass_activated).mapError .panics
  if calculated ≠ block.header.hash_merkle_root then
    .error (.rule (.BadMerkleRoot block.header.hash_merkle_root calculated))
  else pure ()

/-- `check_transactions_in_isolation`. -/
def check_transactions_in_isolation (block : Block) : Except RuleError Unit :=
  block.transactions.forM fun tx =>
    (p.transaction_validator.validate_tx_in_isolation tx).mapError
      (.TxInIsolationValidationFailed tx.id)

/-- The loop of `check_block_mass` once the storage-mass fork is active: every
    committed mass covers the compute mass, and their saturating sum the limit. -/
def committed_mass_from (total_mass : UInt64) : List Transaction → Except BlockFault UInt64
  | [] => .ok total_mass
  | tx :: rest => do
      let calculated_tx_compute_mass ←
        (p.mass_calculator.calc_tx_compute_mass tx).mapError .panics
      let committed_contextual_mass := tx.mass
      if committed_contextual_mass < calculated_tx_compute_mass then
        .error (.rule (.MassFieldTooLow tx.id committed_contextual_mass calculated_tx_compute_mass))
      else
        let total_mass := saturating_add total_mass committed_contextual_mass
        if total_mass > p.max_block_mass then .error (.rule (.ExceedsMassLimit p.max_block_mass))
        else committed_mass_from total_mass rest

/-- The loop of `check_block_mass` before the fork: the saturating sum of the
    compute masses is within the limit. -/
def compute_mass_from (total_mass : UInt64) : List Transaction → Except BlockFault UInt64
  | [] => .ok total_mass
  | tx :: rest => do
      let calculated_tx_mass ← (p.mass_calculator.calc_tx_compute_mass tx).mapError .panics
      let total_mass := saturating_add total_mass calculated_tx_mass
      if total_mass > p.max_block_mass then .error (.rule (.ExceedsMassLimit p.max_block_mass))
      else compute_mass_from total_mass rest

/-- `check_block_mass`. -/
def check_block_mass (block : Block) (storage_mass_activated : Bool) : Except BlockFault UInt64 :=
  if storage_mass_activated then p.committed_mass_from 0 block.transactions
  else p.compute_mass_from 0 block.transactions

/-- `validate_body_in_isolation`: the checks in order; the block's mass. -/
def validate_body_in_isolation (block : Block) : Except BlockFault UInt64 := do
  let storage_mass_activated := block.header.daa_score > p.storage_mass_activation_daa_score
  (check_has_transactions block).mapError .rule
  p.check_hash_merkle_root block storage_mass_activated
  (check_only_one_coinbase block).mapError .rule
  (p.check_transactions_in_isolation block).mapError .rule
  let mass ← p.check_block_mass block storage_mass_activated
  (check_duplicate_transactions block).mapError .rule
  (check_block_double_spends block).mapError .rule
  (check_no_chained_transactions block).mapError .rule
  pure mass

end BlockBodyProcessor

end KashPipeline
