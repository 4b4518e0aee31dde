import Mathlib

/-! # The transaction data model of `kash_consensus_core`

    The records every consensus component reads: hashes, outpoints, UTXO entries,
    inputs, outputs and transactions (`consensus/core/src/tx.rs`), with the two
    Kash additions — the `AssetType` of every output and entry, and the
    `TransactionAction` of every transaction.

    Fixed-size byte arrays are lists with their length as a field, so that a
    `Hash` of the wrong length cannot be built. Machine integers keep their Rust
    widths. A `PopulatedTransaction` carries the `assert_eq!` of its constructor:
    one UTXO entry per input. -/

namespace KashTx

/-- `kash_hashes::Hash`: thirty-two bytes. -/
structure Hash where
  bytes : List UInt8
  bytes_length : bytes.length = 32
  deriving DecidableEq

/-- The all-zero hash, `ZERO_HASH`. -/
def ZERO_HASH : Hash := ⟨List.replicate 32 0, rfl⟩

/-- Thirty-two copies of one byte have the length of a hash. -/
theorem replicate_32_length (b : UInt8) : (List.replicate 32 b).length = 32 :=
  List.length_replicate

/-- `TransactionId` is a `Hash`. -/
abbrev TransactionId := Hash

/-- `SubnetworkId`: twenty bytes. -/
structure SubnetworkId where
  bytes : List UInt8
  bytes_length : bytes.length = 20
  deriving DecidableEq

/-- `SubnetworkId::from_byte`: the given byte followed by nineteen zeros. -/
def SubnetworkId.from_byte (b : UInt8) : SubnetworkId := ⟨b :: List.replicate 19 0, rfl⟩

/-- The native subnetwork. -/
def SUBNETWORK_ID_NATIVE : SubnetworkId := SubnetworkId.from_byte 0

/-- The subnetwork of coinbase transactions. -/
def SUBNETWORK_ID_COINBASE : SubnetworkId := SubnetworkId.from_byte 1

/-- The subnetwork of registry transactions. -/
def SUBNETWORK_ID_REGISTRY : SubnetworkId := SubnetworkId.from_byte 2

/-- `SubnetworkId::is_builtin`. -/
def SubnetworkId.is_builtin (self : SubnetworkId) : Bool :=
  decide (self = SUBNETWORK_ID_COINBASE) || decide (self = SUBNETWORK_ID_REGISTRY)

/-- `SubnetworkId::is_builtin_or_native`. -/
def SubnetworkId.is_builtin_or_native (self : SubnetworkId) : Bool :=
  decide (self = SUBNETWORK_ID_NATIVE) || self.is_builtin

/-- The derived order of `SubnetworkId`: its bytes, lexicographically. -/
instance : LT SubnetworkId := ⟨fun a b => a.bytes < b.bytes⟩

instance (a b : SubnetworkId) : Decidable (a < b) := inferInstanceAs (Decidable (a.bytes < b.bytes))

/-- The three assets of the Kash chain (`asset_type.rs`). -/
inductive AssetType
  | KSH
  | KUSD
  | KRV
  deriving DecidableEq, Repr

/-- The kind of a transaction (`tx.rs`, `TransactionAction`). -/
inductive TransactionAction
  | TransferKSH
  | TransferKUSD
  | TransferKRV
  | MintKUSD
  | StakeKSH
  | RedeemKSH
  deriving DecidableEq, Repr

/-- `TransactionAction::asset_transfer_types`: the asset spent and the asset created. -/
def TransactionAction.asset_transfer_types : TransactionAction → AssetType × AssetType
  | .TransferKSH => (.KSH, .KSH)
  | .TransferKUSD => (.KUSD, .KUSD)
  | .TransferKRV => (.KRV, .KRV)
  | .MintKUSD => (.KSH, .KUSD)
  | .StakeKSH => (.KSH, .KRV)
  | .RedeemKSH => (.KRV, .KSH)

/-- A versioned script (`ScriptPublicKey`). -/
@[ext] structure ScriptPublicKey where
  version : UInt16
  script : List UInt8
  deriving DecidableEq

/-- A UTXO: its amount, the script that locks it, the DAA score of the block that
    accepted it, whether a coinbase created it, and its asset. -/
structure UtxoEntry where
  amount : UInt64
  script_public_key : ScriptPublicKey
  block_daa_score : UInt64
  is_coinbase : Bool
  asset_type : AssetType
  deriving DecidableEq

/-- The output a transaction input spends. -/
@[ext] structure TransactionOutpoint where
  transaction_id : TransactionId
  index : UInt32
  deriving DecidableEq

/-- A transaction input. -/
structure TransactionInput where
  previous_outpoint : TransactionOutpoint
  signature_script : List UInt8
  sequence : UInt64
  sig_op_count : UInt8
  deriving DecidableEq

/-- A transaction output. -/
structure TransactionOutput where
  value : UInt64
  script_public_key : ScriptPublicKey
  asset_type : AssetType
  deriving DecidableEq

/-- A transaction. `mass` and `id` are the cached fields of the Rust struct: the
    committed mass and the id that `finalize` stored. -/
structure Transaction where
  version : UInt16
  inputs : List TransactionInput
  outputs : List TransactionOutput
  action : TransactionAction
  lock_time : UInt64
  subnetwork_id : SubnetworkId
  gas : UInt64
  payload : List UInt8
  mass : UInt64
  id : TransactionId
  deriving DecidableEq

/-- `Transaction::is_coinbase`. -/
def Transaction.is_coinbase (tx : Transaction) : Bool :=
  decide (tx.subnetwork_id = SUBNETWORK_ID_COINBASE)

/-- A transaction with one UTXO entry per input (`PopulatedTransaction::new` asserts
    the lengths agree). It is the model of every `VerifiableTransaction`. -/
structure PopulatedTransaction where
  tx : Transaction
  entries : List UtxoEntry
  entries_length : entries.length = tx.inputs.length

/-- `populated_inputs()`: the inputs paired with their entries. -/
def PopulatedTransaction.populated_inputs (ptx : PopulatedTransaction) :
    List (TransactionInput × UtxoEntry) :=
  ptx.tx.inputs.zip ptx.entries

/-- A validated transaction: populated, with the fee its validation computed. -/
structure ValidatedTransaction extends PopulatedTransaction where
  calculated_fee : UInt64

/-- `ValidatedTransaction::new_coinbase`: a coinbase, with no entries and no fee.
    The Rust constructor asserts `is_coinbase`; the entry list is empty, so the
    transaction must have no inputs for its inputs to be indexed. -/
def ValidatedTransaction.new_coinbase (tx : Transaction) (h : tx.inputs = []) :
    ValidatedTransaction :=
  { tx := tx, entries := [], entries_length := by rw [h]; rfl, calculated_fee := 0 }

end KashTx
