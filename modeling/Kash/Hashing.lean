import Kash.TxData
import Kash.Lib.PrefixCode

/-! # What the consensus hashes are fed

    The transaction hash, the transaction id (`hashing/tx.rs`), the signature hash
    (`hashing/sighash.rs`) and the MuHash element of a UTXO (`muhash.rs`) are
    hashes of byte streams built by the writers of `HasherExtensions`. A hash
    function is a parameter (`Bytes → Hash`, one per hashing domain); what a
    commitment covers is decided by the stream alone, so the model is the stream.

    A `Hasher` that has been fed `s` and is then fed `t` has been fed `s ++ t`; each
    writer below is the list of bytes it feeds. `write_len` writes a `usize` as a
    `u64`; the code asserts at compile time that this loses nothing, so lengths are
    below `2 ^ 64` wherever a stream is read back (`Transaction.LengthsFit`). -/

namespace KashHashing

open KashTx PrefixCode

/-- A stream of bytes fed to a hasher. -/
abbrev Bytes := List UInt8

/-! ## `HasherExtensions` -/

/-- `write_len`: the length as eight little-endian bytes. -/
def write_len (len : ℕ) : Bytes := leBytes 8 len

/-- `write_bool`: one byte, `1` or `0`. -/
def write_bool (element : Bool) : Bytes := [if element then 1 else 0]

/-- `write_u8`. -/
def write_u8 (element : UInt8) : Bytes := [element]

/-- `write_u16` (and `update(x.to_le_bytes())` of a `u16`). -/
def write_u16 (element : UInt16) : Bytes := leBytes 2 element.toNat

/-- `write_u32` (and `update(x.to_le_bytes())` of a `u32`). -/
def write_u32 (element : UInt32) : Bytes := leBytes 4 element.toNat

/-- `write_u64` (and `update(x.to_le_bytes())` of a `u64`). -/
def write_u64 (element : UInt64) : Bytes := leBytes 8 element.toNat

/-- `write_var_bytes`: the length, then the bytes. -/
def write_var_bytes (bytes : Bytes) : Bytes := write_len bytes.length ++ bytes

/-! ## The transaction stream (`hashing/tx.rs`) -/

/-- `TX_ENCODING_FULL`. -/
def TX_ENCODING_FULL : UInt8 := 0

/-- `TX_ENCODING_EXCLUDE_SIGNATURE_SCRIPT`. -/
def TX_ENCODING_EXCLUDE_SIGNATURE_SCRIPT : UInt8 := 1

/-- Whether the flags keep signature scripts (the test in `write_input`). -/
def includes_signature_script (encoding_flags : UInt8) : Bool :=
  encoding_flags &&& TX_ENCODING_EXCLUDE_SIGNATURE_SCRIPT != TX_ENCODING_EXCLUDE_SIGNATURE_SCRIPT

/-- `write_outpoint`: the transaction id, then the index. -/
def write_outpoint (outpoint : TransactionOutpoint) : Bytes :=
  outpoint.transaction_id.bytes ++ write_u32 outpoint.index

/-- `write_input`: the outpoint, the signature script and sig-op count (or an empty
    script), the sequence. -/
def write_input (input : TransactionInput) (encoding_flags : UInt8) : Bytes :=
  write_outpoint input.previous_outpoint ++
    (if includes_signature_script encoding_flags then
      write_var_bytes input.signature_script ++ write_u8 input.sig_op_count
    else write_var_bytes []) ++
    write_u64 input.sequence

/-- `write_output`: the value and the script public key. The asset type is not
    written. -/
def write_output (output : TransactionOutput) : Bytes :=
  write_u64 output.value ++ write_u16 output.script_public_key.version ++
    write_var_bytes output.script_public_key.script

/-- `write_transaction`. The action is not written. -/
def write_transaction (tx : Transaction) (encoding_flags : UInt8) (include_mass_field : Bool) :
    Bytes :=
  write_u16 tx.version ++ write_len tx.inputs.length ++
    tx.inputs.flatMap (fun input => write_input input encoding_flags) ++
    write_len tx.outputs.length ++ tx.outputs.flatMap write_output ++
    write_u64 tx.lock_time ++ tx.subnetwork_id.bytes ++ write_u64 tx.gas ++
    write_var_bytes tx.payload ++
    (if include_mass_field && decide (0 < tx.mass) then write_u64 tx.mass else [])

/-- `hashing::tx::hash`, for the `TransactionHash` hasher. -/
def hash (TransactionHash : Bytes → Hash) (tx : Transaction) (include_mass_field : Bool) :
    Hash :=
  TransactionHash (write_transaction tx TX_ENCODING_FULL include_mass_field)

/-- The flags `hashing::tx::id` encodes with: signature scripts are kept for a
    coinbase only. -/
def id_encoding_flags (tx : Transaction) : UInt8 :=
  if tx.is_coinbase then TX_ENCODING_FULL else TX_ENCODING_EXCLUDE_SIGNATURE_SCRIPT

/-- `hashing::tx::id`, for the `TransactionID` hasher. -/
protected def id (TransactionID : Bytes → Hash) (tx : Transaction) : TransactionId :=
  TransactionID (write_transaction tx (id_encoding_flags tx) false)

/-- `Transaction::new`: a transaction with mass zero whose id `finalize` stores. -/
def Transaction.new (TransactionID : Bytes → Hash) (version : UInt16)
    (inputs : List TransactionInput) (outputs : List TransactionOutput)
    (action : TransactionAction) (lock_time : UInt64) (subnetwork_id : SubnetworkId)
    (gas : UInt64) (payload : List UInt8) : Transaction :=
  let tx : Transaction :=
    ⟨version, inputs, outputs, action, lock_time, subnetwork_id, gas, payload, 0, ZERO_HASH⟩
  { tx with id := KashHashing.id TransactionID tx }

/-! ## The signature hash stream (`hashing/sighash.rs`) -/

/-- `SigHashType`. -/
structure SigHashType where
  val : UInt8
  deriving DecidableEq

/-- `SIG_HASH_ALL`. -/
def SIG_HASH_ALL : SigHashType := ⟨0b00000001⟩

/-- `SIG_HASH_NONE`. -/
def SIG_HASH_NONE : SigHashType := ⟨0b00000010⟩

/-- `SIG_HASH_SINGLE`. -/
def SIG_HASH_SINGLE : SigHashType := ⟨0b00000100⟩

/-- `SIG_HASH_ANY_ONE_CAN_PAY`. -/
def SIG_HASH_ANY_ONE_CAN_PAY : SigHashType := ⟨0b10000000⟩

/-- `SIG_HASH_MASK`. -/
def SIG_HASH_MASK : UInt8 := 0b00000111

/-- `ALLOWED_SIG_HASH_TYPES_VALUES`. -/
def ALLOWED_SIG_HASH_TYPES_VALUES : List UInt8 :=
  [SIG_HASH_ALL.val, SIG_HASH_NONE.val, SIG_HASH_SINGLE.val,
    SIG_HASH_ALL.val ||| SIG_HASH_ANY_ONE_CAN_PAY.val,
    SIG_HASH_NONE.val ||| SIG_HASH_ANY_ONE_CAN_PAY.val,
    SIG_HASH_SINGLE.val ||| SIG_HASH_ANY_ONE_CAN_PAY.val]

/-- `is_sighash_all`. -/
def SigHashType.is_sighash_all (t : SigHashType) : Bool := t.val &&& SIG_HASH_MASK == SIG_HASH_ALL.val

/-- `is_sighash_none`. -/
def SigHashType.is_sighash_none (t : SigHashType) : Bool :=
  t.val &&& SIG_HASH_MASK == SIG_HASH_NONE.val

/-- `is_sighash_single`. -/
def SigHashType.is_sighash_single (t : SigHashType) : Bool :=
  t.val &&& SIG_HASH_MASK == SIG_HASH_SINGLE.val

/-- `is_sighash_anyone_can_pay`. -/
def SigHashType.is_sighash_anyone_can_pay (t : SigHashType) : Bool :=
  t.val &&& SIG_HASH_ANY_ONE_CAN_PAY.val == SIG_HASH_ANY_ONE_CAN_PAY.val

/-- `to_u8`. -/
def SigHashType.to_u8 (t : SigHashType) : UInt8 := t.val

/-- `from_u8`: only the six allowed values. -/
def SigHashType.from_u8 (val : UInt8) : Except String SigHashType :=
  if val ∈ ALLOWED_SIG_HASH_TYPES_VALUES then .ok ⟨val⟩ else .error "invalid sighash type"

/-- `SigHashReusedValues`: the hashes shared by all inputs, computed at most once. -/
structure SigHashReusedValues where
  previous_outputs_hash : Option Hash
  sequences_hash : Option Hash
  sig_op_counts_hash : Option Hash
  outputs_hash : Option Hash

/-- `SigHashReusedValues::new`. -/
def SigHashReusedValues.new : SigHashReusedValues := ⟨none, none, none, none⟩

/-- What `previous_outputs_hash` hashes: every input's outpoint. -/
def previous_outputs_stream (tx : Transaction) : Bytes :=
  tx.inputs.flatMap fun input =>
    input.previous_outpoint.transaction_id.bytes ++ write_u32 input.previous_outpoint.index

/-- What `sequences_hash` hashes. -/
def sequences_stream (tx : Transaction) : Bytes :=
  tx.inputs.flatMap fun input => write_u64 input.sequence

/-- What `sig_op_counts_hash` hashes. -/
def sig_op_counts_stream (tx : Transaction) : Bytes :=
  tx.inputs.flatMap fun input => write_u8 input.sig_op_count

/-- `previous_outputs_hash`. -/
def previous_outputs_hash (TransactionSigningHash : Bytes → Hash) (tx : Transaction)
    (hash_type : SigHashType) (reused_values : SigHashReusedValues) :
    Hash × SigHashReusedValues :=
  if hash_type.is_sighash_anyone_can_pay then (ZERO_HASH, reused_values)
  else
    match reused_values.previous_outputs_hash with
    | some h => (h, reused_values)
    | none =>
        let h := TransactionSigningHash (previous_outputs_stream tx)
        (h, { reused_values with previous_outputs_hash := some h })

/-- `sequences_hash`. -/
def sequences_hash (TransactionSigningHash : Bytes → Hash) (tx : Transaction)
    (hash_type : SigHashType) (reused_values : SigHashReusedValues) :
    Hash × SigHashReusedValues :=
  if hash_type.is_sighash_single || hash_type.is_sighash_anyone_can_pay ||
      hash_type.is_sighash_none then (ZERO_HASH, reused_values)
  else
    match reused_values.sequences_hash with
    | some h => (h, reused_values)
    | none =>
        let h := TransactionSigningHash (sequences_stream tx)
        (h, { reused_values with sequences_hash := some h })

/-- `sig_op_counts_hash`. -/
def sig_op_counts_hash (TransactionSigningHash : Bytes → Hash) (tx : Transaction)
    (hash_type : SigHashType) (reused_values : SigHashReusedValues) :
    Hash × SigHashReusedValues :=
  if hash_type.is_sighash_anyone_can_pay then (ZERO_HASH, reused_values)
  else
    match reused_values.sig_op_counts_hash with
    | some h => (h, reused_values)
    | none =>
        let h := TransactionSigningHash (sig_op_counts_stream tx)
        (h, { reused_values with sig_op_counts_hash := some h })

/-- `payload_hash`: zero for the native subnetwork. -/
def payload_hash (TransactionSigningHash : Bytes → Hash) (tx : Transaction) : Hash :=
  if tx.subnetwork_id = SUBNETWORK_ID_NATIVE then ZERO_HASH
  else TransactionSigningHash (write_var_bytes tx.payload)

/-- `hash_script_public_key`. -/
def hash_script_public_key (script_public_key : ScriptPublicKey) : Bytes :=
  write_u16 script_public_key.version ++ write_var_bytes script_public_key.script

/-- `hash_output`: the value and the script public key. The asset type is not
    written. -/
def hash_output (output : TransactionOutput) : Bytes :=
  write_u64 output.value ++ hash_script_public_key output.script_public_key

/-- `hash_outpoint`. -/
def hash_outpoint (outpoint : TransactionOutpoint) : Bytes :=
  outpoint.transaction_id.bytes ++ write_u32 outpoint.index

/-- `outputs_hash`: zero for `SIG_HASH_NONE`; the output at the input's index (or
    zero) for `SIG_HASH_SINGLE`; otherwise all outputs. -/
def outputs_hash (TransactionSigningHash : Bytes → Hash) (tx : Transaction)
    (hash_type : SigHashType) (reused_values : SigHashReusedValues) (input_index : ℕ) :
    Hash × SigHashReusedValues :=
  if hash_type.is_sighash_none then (ZERO_HASH, reused_values)
  else if hash_type.is_sighash_single then
    match tx.outputs[input_index]? with
    | none => (ZERO_HASH, reused_values)
    | some output => (TransactionSigningHash (hash_output output), reused_values)
  else
    match reused_values.outputs_hash with
    | some h => (h, reused_values)
    | none =>
        let h := TransactionSigningHash (tx.outputs.flatMap hash_output)
        (h, { reused_values with outputs_hash := some h })

/-- The values `calc_schnorr_signature_hash` feeds its hasher, in the order it feeds
    them. -/
@[ext] structure SigHashPreimage where
  version : UInt16
  previous_outputs_hash : Hash
  sequences_hash : Hash
  sig_op_counts_hash : Hash
  previous_outpoint : TransactionOutpoint
  script_public_key : ScriptPublicKey
  amount : UInt64
  sequence : UInt64
  sig_op_count : UInt8
  outputs_hash : Hash
  lock_time : UInt64
  subnetwork_id : SubnetworkId
  gas : UInt64
  payload_hash : Hash
  hash_type : UInt8
  deriving DecidableEq

/-- The hasher chain of `calc_schnorr_signature_hash`: each value, written in turn. -/
def SigHashPreimage.write (p : SigHashPreimage) : Bytes :=
  write_u16 p.version ++ p.previous_outputs_hash.bytes ++ p.sequences_hash.bytes ++
    p.sig_op_counts_hash.bytes ++ hash_outpoint p.previous_outpoint ++
    hash_script_public_key p.script_public_key ++ write_u64 p.amount ++
    write_u64 p.sequence ++ write_u8 p.sig_op_count ++ p.outputs_hash.bytes ++
    write_u64 p.lock_time ++ p.subnetwork_id.bytes ++ write_u64 p.gas ++
    p.payload_hash.bytes ++ write_u8 p.hash_type

/-- The values `calc_schnorr_signature_hash` writes for one input, and the reused
    values after it; `none` where `populated_input` would panic. -/
def signature_hash_preimage (TransactionSigningHash : Bytes → Hash)
    (verifiable_tx : PopulatedTransaction) (input_index : ℕ) (hash_type : SigHashType)
    (reused_values : SigHashReusedValues) : Option (SigHashPreimage × SigHashReusedValues) :=
  match verifiable_tx.populated_inputs[input_index]? with
  | none => none
  | some (input, entry) =>
      let tx := verifiable_tx.tx
      let (previous_outputs, r₁) :=
        previous_outputs_hash TransactionSigningHash tx hash_type reused_values
      let (sequences, r₂) := sequences_hash TransactionSigningHash tx hash_type r₁
      let (sig_op_counts, r₃) := sig_op_counts_hash TransactionSigningHash tx hash_type r₂
      let (outputs, r₄) := outputs_hash TransactionSigningHash tx hash_type r₃ input_index
      some (⟨tx.version, previous_outputs, sequences, sig_op_counts, input.previous_outpoint,
        entry.script_public_key, entry.amount, input.sequence, input.sig_op_count, outputs,
        tx.lock_time, tx.subnetwork_id, tx.gas, payload_hash TransactionSigningHash tx,
        hash_type.to_u8⟩, r₄)

/-- `calc_schnorr_signature_hash`. -/
def calc_schnorr_signature_hash (TransactionSigningHash : Bytes → Hash)
    (verifiable_tx : PopulatedTransaction) (input_index : ℕ) (hash_type : SigHashType)
    (reused_values : SigHashReusedValues) : Option (Hash × SigHashReusedValues) :=
  (signature_hash_preimage TransactionSigningHash verifiable_tx input_index hash_type
    reused_values).map fun (p, r) => (TransactionSigningHash p.write, r)

/-- `calc_ecdsa_signature_hash`: the Schnorr signature hash, hashed again. -/
def calc_ecdsa_signature_hash (TransactionSigningHash TransactionSigningHashECDSA : Bytes → Hash)
    (tx : PopulatedTransaction) (input_index : ℕ) (hash_type : SigHashType)
    (reused_values : SigHashReusedValues) : Option (Hash × SigHashReusedValues) :=
  (calc_schnorr_signature_hash TransactionSigningHash tx input_index hash_type
    reused_values).map fun (h, r) => (TransactionSigningHashECDSA h.bytes, r)

/-! ## The MuHash element of a UTXO (`muhash.rs`) -/

/-- `write_utxo`: the outpoint, then the entry's DAA score, amount, coinbase flag and
    script public key. The asset type is not written. -/
def write_utxo (entry : UtxoEntry) (outpoint : TransactionOutpoint) : Bytes :=
  outpoint.transaction_id.bytes ++ write_u32 outpoint.index ++
    write_u64 entry.block_daa_score ++ write_u64 entry.amount ++
    write_bool entry.is_coinbase ++ write_u16 entry.script_public_key.version ++
    write_var_bytes entry.script_public_key.script

end KashHashing
