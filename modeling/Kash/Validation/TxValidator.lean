import Kash.Script.Engine

/-! # Transaction validation (`TransactionValidator`)

    Consensus validates a transaction in two stages. `validate_tx_in_isolation`
    looks at the transaction alone: the input and output counts, the lengths of
    the scripts, the shape of a coinbase, the value range of every output,
    distinct outpoints, no gas, no payload outside a coinbase, the version.
    `validate_populated_transaction_and_get_fee` looks at it together with the UTXO
    entries its inputs spend: coinbase maturity, the input amounts and the output
    values against them, the mass commitment once the storage-mass fork is active,
    the relative lock times, the signature-operation counts and the scripts. It
    returns the fee: the input amount minus the output value.

    The arithmetic is the `u64` arithmetic of the release profile, which keeps
    overflow checks: where it would panic the model returns the `PanicSite`. The
    signature cache is left out, as in `Engine`, and so is the `warn!` logged when
    the storage-mass fork activates. -/

namespace KashValidation

open KashTx KashScript KashHashing

/-! ## Constants -/

/-- `SOMPI_PER_KASH`. -/
def SOMPI_PER_KASH : UInt64 := 100000000

/-- `MAX_SOMPI`: twenty-nine billion KSH. -/
def MAX_SOMPI : UInt64 := 29000000000 * SOMPI_PER_KASH

/-- `STORAGE_MASS_PARAMETER`. -/
def STORAGE_MASS_PARAMETER : UInt64 := SOMPI_PER_KASH * 10000

/-- `TX_VERSION`. -/
def TX_VERSION : UInt16 := 0

def SUBNETWORK_ID_SIZE : ℕ := 20
def HASH_SIZE : ℕ := 32

/-! ## Errors -/

/-- `TxRuleError`, without `InvalidTransactionType`, which only the parsing of an
    action name returns. -/
inductive TxRuleError
  | NoTxInputs
  | TxDuplicateInputs
  | TxHasGas
  | NonCoinbaseTxHasPayload
  | UnknownTxVersion (version : UInt16)
  | TooManyInputs (count max : ℕ)
  | TooManyOutputs (count max : ℕ)
  | TooBigSignatureScript (index max : ℕ)
  | TooBigScriptPublicKey (index max : ℕ)
  | NotFinalized (index : ℕ)
  | CoinbaseHasInputs (count : ℕ)
  | CoinbaseTooManyOutputs (count : ℕ) (max : UInt64)
  | CoinbaseScriptPublicKeyTooLong (index : ℕ)
  | ImmatureCoinbaseSpend (index : ℕ) (outpoint : TransactionOutpoint)
      (block_daa_score pov_daa_score coinbase_maturity : UInt64)
  | InputAmountOverflow
  | InputAmountTooHigh
  | TxOutZero (index : ℕ)
  | TxOutTooHigh (index : ℕ)
  | OutputsValueOverflow
  | TotalTxOutTooHigh
  | SpendTooHigh (total_out total_in : UInt64)
  | SequenceLockConditionsAreNotMet
  | MissingTxOutpoints
  | SignatureInvalid (error : TxScriptError)
  | WrongSigOpCount (index : ℕ) (committed calculated : UInt64)
  | MassIncomputable
  | WrongMass (calculated committed : UInt64)
  deriving DecidableEq

/-- A failed validation: a rule the transaction breaks, or a panic of the code. -/
inductive TxFault
  | rule (error : TxRuleError)
  | panics (site : PanicSite)
  deriving DecidableEq

/-- The failure is a panic. -/
def TxFault.IsPanic : TxFault → Prop
  | .rule _ => False
  | .panics _ => True

/-- A rule check inside a validation that may also panic. -/
def rule {α : Type} (x : Except TxRuleError α) : Except TxFault α := x.mapError .rule

/-- Arithmetic that may panic, inside a validation. -/
def arith {α : Type} (x : Except PanicSite α) : Except TxFault α := x.mapError .panics

/-- An engine failure as `check_scripts` reports it: `map_err(SignatureInvalid)`. -/
def EngineFault.toTxFault : EngineFault → TxFault
  | .script e => .rule (.SignatureInvalid e)
  | .panics site => .panics site

/-! ## `i64` arithmetic -/

/-- `pov_daa_score as i64` and `block_daa_score as i64`: the two's complement reading. -/
def as_i64 (x : UInt64) : ℤ := if x.toNat < 2 ^ 63 then x.toNat else x.toNat - 2 ^ 64

/-- An `i64` result: overflow panics. -/
def i64_result (x : ℤ) : Except PanicSite ℤ :=
  if I64_MIN ≤ x ∧ x ≤ I64_MAX then .ok x else .error .arithmetic_overflow

/-! ## Mass (`MassCalculator`, `transaction_estimated_serialized_size`) -/

/-- `MassCalculator`. -/
structure MassCalculator where
  mass_per_tx_byte : UInt64
  mass_per_script_pub_key_byte : UInt64
  mass_per_sig_op : UInt64
  storage_mass_parameter : UInt64

/-- `transaction_input_estimated_serialized_size`: the outpoint, the length of the
    signature script and the script, the sequence. -/
def transaction_input_estimated_serialized_size (input : TransactionInput) : ℕ :=
  (HASH_SIZE + 4) + 8 + input.signature_script.length + 8

/-- `transaction_output_estimated_serialized_size`. -/
def transaction_output_estimated_serialized_size (output : TransactionOutput) : ℕ :=
  8 + 2 + 8 + output.script_public_key.script.length

/-- The sum `transaction_estimated_serialized_size` computes. -/
def estimated_serialized_size (tx : Transaction) : ℕ :=
  2 + 8 + (tx.inputs.map transaction_input_estimated_serialized_size).sum +
    8 + (tx.outputs.map transaction_output_estimated_serialized_size).sum +
    8 + SUBNETWORK_ID_SIZE + 8 + HASH_SIZE + 8 + tx.payload.length

/-- `transaction_estimated_serialized_size`. -/
def transaction_estimated_serialized_size (tx : Transaction) : Except PanicSite UInt64 :=
  u64_of_sum (estimated_serialized_size tx)

/-- `calc_tx_compute_mass`: size, script public keys and signature operations, each
    times its price. -/
def MassCalculator.calc_tx_compute_mass (m : MassCalculator) (tx : Transaction) :
    Except PanicSite UInt64 :=
  if tx.is_coinbase then .ok 0
  else do
    let size ← transaction_estimated_serialized_size tx
    let mass_for_size ← u64_mul size m.mass_per_tx_byte
    let total_script_public_key_size ←
      u64_of_sum (tx.outputs.map fun output => 2 + output.script_public_key.script.length).sum
    let total_script_public_key_mass ←
      u64_mul total_script_public_key_size m.mass_per_script_pub_key_byte
    let total_sigops ← u64_of_sum (tx.inputs.map fun input => input.sig_op_count.toNat).sum
    let total_sigops_mass ← u64_mul total_sigops m.mass_per_sig_op
    u64_of_sum (mass_for_size.toNat + total_script_public_key_mass.toNat + total_sigops_mass.toNat)

/-- The `map(C / value).try_fold(checked_add)` over the outputs: each division is
    made when the fold reaches it, and the fold stops at the first overflow. -/
def harmonic_outs_from (C : UInt64) (total : UInt64) :
    List TransactionOutput → Except PanicSite (Option UInt64)
  | [] => .ok (some total)
  | out :: rest => do
      let current ← u64_div C out.value
      match checked_add total current with
      | none => pure none
      | some total => harmonic_outs_from C total rest

/-- `calc_tx_storage_mass`: `max(0, C·(|O|/H(O) − |I|/A(I)))`, `none` when the sum
    over the outputs overflows. It divides by every output value and by the mean
    input amount, so it panics on a zero among them. -/
def MassCalculator.calc_tx_storage_mass (m : MassCalculator) (ptx : PopulatedTransaction) :
    Except PanicSite (Option UInt64) :=
  if ptx.tx.is_coinbase then .ok (some 0)
  else do
    match ← harmonic_outs_from m.storage_mass_parameter 0 ptx.tx.outputs with
    | none => pure none
    | some harmonic_outs =>
        let sum_ins ← u64_of_sum (ptx.populated_inputs.map fun p => p.2.amount.toNat).sum
        let ins_len := ptx.tx.inputs.length.toUInt64
        let mean_ins ← u64_div sum_ins ins_len
        let per_input ← u64_div m.storage_mass_parameter mean_ins
        pure (some (saturating_sub harmonic_outs (saturating_mul ins_len per_input)))

/-! ## The validator -/

/-- `TransactionValidator`: the consensus parameters it reads. -/
structure TransactionValidator where
  max_tx_inputs : ℕ
  max_tx_outputs : ℕ
  max_signature_script_len : ℕ
  max_script_public_key_len : ℕ
  ghostdag_k : UInt16
  coinbase_payload_script_public_key_max_len : UInt8
  coinbase_maturity : UInt64
  mass_calculator : MassCalculator
  storage_mass_activation_daa_score : UInt64

namespace TransactionValidator

variable (v : TransactionValidator)

/-! ## Checks in isolation (`tx_validation_in_isolation.rs`) -/

/-- The length checks of the script lists: the first position whose length is
    above `max` is reported as `mk position max`. -/
def check_lengths (lengths : List ℕ) (max : ℕ) (mk : ℕ → ℕ → TxRuleError) :
    Except TxRuleError Unit :=
  match lengths.findIdx? (· > max) with
  | some i => .error (mk i max)
  | none => .ok ()

/-- `check_transaction_inputs_count`. -/
def check_transaction_inputs_count (tx : Transaction) : Except TxRuleError Unit :=
  if !tx.is_coinbase && tx.inputs.isEmpty then .error .NoTxInputs
  else if tx.inputs.length > v.max_tx_inputs then
    .error (.TooManyInputs tx.inputs.length v.max_tx_inputs)
  else .ok ()

/-- `check_transaction_outputs_count`. Its error reports the number of inputs and
    `max_tx_inputs`, where the outputs are what it checks. -/
def check_transaction_outputs_count (tx : Transaction) : Except TxRuleError Unit :=
  if tx.outputs.length > v.max_tx_outputs then
    .error (.TooManyOutputs tx.inputs.length v.max_tx_inputs)
  else .ok ()

/-- `check_transaction_signature_scripts`. -/
def check_transaction_signature_scripts (tx : Transaction) : Except TxRuleError Unit :=
  check_lengths (tx.inputs.map (·.signature_script.length)) v.max_signature_script_len
    .TooBigSignatureScript

/-- `check_transaction_script_public_keys`. -/
def check_transaction_script_public_keys (tx : Transaction) : Except TxRuleError Unit :=
  check_lengths (tx.outputs.map (·.script_public_key.script.length)) v.max_script_public_key_len
    .TooBigScriptPublicKey

/-- `check_transaction_inputs_in_isolation`. -/
def check_transaction_inputs_in_isolation (tx : Transaction) : Except TxRuleError Unit := do
  v.check_transaction_inputs_count tx
  v.check_transaction_signature_scripts tx

/-- `check_transaction_outputs_in_isolation`. -/
def check_transaction_outputs_in_isolation (tx : Transaction) : Except TxRuleError Unit := do
  v.check_transaction_outputs_count tx
  v.check_transaction_script_public_keys tx

/-- `check_coinbase_in_isolation`: a coinbase has no inputs, at most `k + 2`
    outputs and short script public keys. -/
def check_coinbase_in_isolation (tx : Transaction) : Except TxRuleError Unit :=
  if !tx.is_coinbase then .ok ()
  else if !tx.inputs.isEmpty then .error (.CoinbaseHasInputs tx.inputs.length)
  else
    let outputs_limit : UInt64 := v.ghostdag_k.toUInt64 + 2
    if tx.outputs.length > outputs_limit.toNat then
      .error (.CoinbaseTooManyOutputs tx.outputs.length outputs_limit)
    else
      check_lengths (tx.outputs.map (·.script_public_key.script.length))
        v.coinbase_payload_script_public_key_max_len.toNat
        fun i _ => .CoinbaseScriptPublicKeyTooLong i

end TransactionValidator

/-- One step of the `u64` totals of the amount checks: `checked_add`, then the
    bound `MAX_SOMPI`. -/
def add_within_max_sompi (total value : UInt64) (overflow too_high : TxRuleError) :
    Except TxRuleError UInt64 :=
  match checked_add total value with
  | none => .error overflow
  | some total => if total > MAX_SOMPI then .error too_high else .ok total

/-- The loop of `check_transaction_output_value_ranges` from output `i` with the
    running total. -/
def output_value_ranges_from (i : ℕ) (total : UInt64) :
    List TransactionOutput → Except TxRuleError Unit
  | [] => .ok ()
  | output :: rest =>
      if output.value = 0 then .error (.TxOutZero i)
      else if output.value > MAX_SOMPI then .error (.TxOutTooHigh i)
      else do
        let total ← add_within_max_sompi total output.value .OutputsValueOverflow
          .TotalTxOutTooHigh
        output_value_ranges_from (i + 1) total rest

/-- `check_transaction_output_value_ranges`. -/
def check_transaction_output_value_ranges (tx : Transaction) : Except TxRuleError Unit :=
  output_value_ranges_from 0 0 tx.outputs

/-- A loop of `HashSet::insert` calls that stops at the first value already
    inserted, which it returns. -/
def first_repeat {α : Type} [DecidableEq α] (existing : List α) : List α → Option α
  | [] => none
  | a :: rest => if a ∈ existing then some a else first_repeat (a :: existing) rest

/-- `check_duplicate_transaction_inputs`. -/
def check_duplicate_transaction_inputs (tx : Transaction) : Except TxRuleError Unit :=
  match first_repeat [] (tx.inputs.map (·.previous_outpoint)) with
  | some _ => .error .TxDuplicateInputs
  | none => .ok ()

/-- `check_gas`. -/
def check_gas (tx : Transaction) : Except TxRuleError Unit :=
  if tx.gas > 0 then .error .TxHasGas else .ok ()

/-- `check_transaction_payload`. -/
def check_transaction_payload (tx : Transaction) : Except TxRuleError Unit :=
  if !tx.is_coinbase && !tx.payload.isEmpty then .error .NonCoinbaseTxHasPayload else .ok ()

/-- `check_transaction_version`. -/
def check_transaction_version (tx : Transaction) : Except TxRuleError Unit :=
  if tx.version ≠ TX_VERSION then .error (.UnknownTxVersion tx.version) else .ok ()

/-- `validate_tx_in_isolation`. -/
def TransactionValidator.validate_tx_in_isolation (v : TransactionValidator) (tx : Transaction) :
    Except TxRuleError Unit := do
  v.check_transaction_inputs_in_isolation tx
  v.check_transaction_outputs_in_isolation tx
  v.check_coinbase_in_isolation tx
  check_transaction_output_value_ranges tx
  check_duplicate_transaction_inputs tx
  check_gas tx
  check_transaction_payload tx
  check_transaction_version tx

/-! ## Checks against the UTXO entries (`transaction_validator_populated.rs`) -/

/-- `TxValidationFlags`. -/
inductive TxValidationFlags
  | Full
  | SkipScriptChecks
  | SkipMassCheck
  deriving DecidableEq, Repr

namespace TransactionValidator

variable (v : TransactionValidator)

/-- The `find` of `check_transaction_coinbase_maturity` from input `index`: the
    first coinbase entry that matures after `pov_daa_score`. The sum
    `block_daa_score + coinbase_maturity` is computed for coinbase entries only. -/
def coinbase_maturity_from (pov_daa_score : UInt64) (index : ℕ) :
    List (TransactionInput × UtxoEntry) → Except TxFault Unit
  | [] => .ok ()
  | (input, entry) :: rest =>
      if entry.is_coinbase then do
        let matures_at ← arith (u64_add entry.block_daa_score v.coinbase_maturity)
        if matures_at > pov_daa_score then
          .error (.rule (.ImmatureCoinbaseSpend index input.previous_outpoint
            entry.block_daa_score pov_daa_score v.coinbase_maturity))
        else coinbase_maturity_from pov_daa_score (index + 1) rest
      else coinbase_maturity_from pov_daa_score (index + 1) rest

/-- `check_transaction_coinbase_maturity`. -/
def check_transaction_coinbase_maturity (ptx : PopulatedTransaction) (pov_daa_score : UInt64) :
    Except TxFault Unit :=
  v.coinbase_maturity_from pov_daa_score 0 ptx.populated_inputs

end TransactionValidator

/-- `check_transaction_input_amounts`: the total of the entries' amounts, at most
    `MAX_SOMPI` at every step. -/
def check_transaction_input_amounts (ptx : PopulatedTransaction) : Except TxRuleError UInt64 :=
  ptx.populated_inputs.foldlM
    (fun total p => add_within_max_sompi total p.2.amount .InputAmountOverflow .InputAmountTooHigh) 0

/-- `check_transaction_output_values`: the outputs' total, which may not exceed the
    inputs'. The `sum` panics on overflow; `check_transaction_output_value_ranges`
    rules that out for a transaction valid in isolation. -/
def check_transaction_output_values (ptx : PopulatedTransaction) (total_in : UInt64) :
    Except TxFault UInt64 := do
  let total_out ← arith (u64_of_sum (ptx.tx.outputs.map (·.value.toNat)).sum)
  if total_in < total_out then .error (.rule (.SpendTooHigh total_out total_in))
  else pure total_out

/-- `check_mass_commitment`: the storage mass plus the compute mass, which is
    computed only when the storage mass is, must be the committed mass. -/
def TransactionValidator.check_mass_commitment (v : TransactionValidator)
    (ptx : PopulatedTransaction) : Except TxFault Unit := do
  let calculated_contextual_mass ←
    match ← arith (v.mass_calculator.calc_tx_storage_mass ptx) with
    | none => .error (.rule .MassIncomputable)
    | some storage_mass => do
        let compute_mass ← arith (v.mass_calculator.calc_tx_compute_mass ptx.tx)
        match checked_add storage_mass compute_mass with
        | none => .error (.rule .MassIncomputable)
        | some mass => pure mass
  let committed_contextual_mass := ptx.tx.mass
  if committed_contextual_mass ≠ calculated_contextual_mass then
    .error (.rule (.WrongMass calculated_contextual_mass committed_contextual_mass))
  else pure ()

/-- The `filter(..).any(..)` of `check_sequence_lock`: whether an input with its
    relative lock enabled is still locked at `pov_daa_score`. The lock
    `block_daa_score as i64 + relative_lock - 1` is `i64` arithmetic. -/
def sequence_locked (pov_daa_score : ℤ) : List (TransactionInput × UtxoEntry) → Except PanicSite Bool
  | [] => .ok false
  | (input, entry) :: rest =>
      if input.sequence &&& SEQUENCE_LOCK_TIME_DISABLED ≠ SEQUENCE_LOCK_TIME_DISABLED then do
        let relative_lock : ℤ := (input.sequence &&& SEQUENCE_LOCK_TIME_MASK).toNat
        let lock ← i64_result (as_i64 entry.block_daa_score + relative_lock)
        let lock_daa_score ← i64_result (lock - 1)
        if lock_daa_score ≥ pov_daa_score then pure true
        else sequence_locked pov_daa_score rest
      else sequence_locked pov_daa_score rest

/-- `check_sequence_lock`. -/
def check_sequence_lock (ptx : PopulatedTransaction) (pov_daa_score : UInt64) :
    Except TxFault Unit := do
  if ← arith (sequence_locked (as_i64 pov_daa_score) ptx.populated_inputs) then
    .error (.rule .SequenceLockConditionsAreNotMet)
  else pure ()

/-- The loop of `check_sig_op_counts` from input `index`: every input commits to
    the count of its scripts. -/
def sig_op_counts_from (index : ℕ) : List (TransactionInput × UtxoEntry) → Except TxFault Unit
  | [] => .ok ()
  | (input, entry) :: rest => do
      let calculated ← arith (get_sig_op_count input.signature_script entry.script_public_key)
      if calculated ≠ input.sig_op_count.toUInt64 then
        .error (.rule (.WrongSigOpCount index input.sig_op_count.toUInt64 calculated))
      else sig_op_counts_from (index + 1) rest

/-- `check_sig_op_counts`. -/
def check_sig_op_counts (ptx : PopulatedTransaction) : Except TxFault Unit :=
  sig_op_counts_from 0 ptx.populated_inputs

/-- The loop of `check_scripts` from input `index`: an engine for each input,
    sharing the sighash values the earlier inputs computed. -/
def scripts_from (c : Crypto) (ptx : PopulatedTransaction) (reused_values : SigHashReusedValues)
    (index : ℕ) : List (TransactionInput × UtxoEntry) → Except TxFault Unit
  | [] => .ok ()
  | (input, entry) :: rest => do
      let engine ← rule ((from_transaction_input ptx input index entry reused_values).mapError
        .SignatureInvalid)
      let engine ← (execute c engine).mapError EngineFault.toTxFault
      scripts_from c ptx engine.reused_values (index + 1) rest

/-- `check_scripts`. -/
def check_scripts (c : Crypto) (ptx : PopulatedTransaction) : Except TxFault Unit :=
  scripts_from c ptx SigHashReusedValues.new 0 ptx.populated_inputs

/-- The signature-operation counts and the scripts, unless the flags skip them. -/
def check_scripts_if (c : Crypto) (ptx : PopulatedTransaction) :
    TxValidationFlags → Except TxFault Unit
  | .Full | .SkipMassCheck => do
      check_sig_op_counts ptx
      check_scripts c ptx
  | .SkipScriptChecks => pure ()

namespace TransactionValidator

variable (v : TransactionValidator)

/-- The mass commitment, checked unless the flags skip it and once the
    storage-mass fork is active. The bound of the activation `warn!` is computed. -/
def check_mass_if_active (ptx : PopulatedTransaction) (pov_daa_score : UInt64)
    (flags : TxValidationFlags) : Except TxFault Unit :=
  if flags ≠ .SkipMassCheck ∧ pov_daa_score > v.storage_mass_activation_daa_score then do
    v.check_mass_commitment ptx
    let _ ← arith (u64_add v.storage_mass_activation_daa_score 10)
    pure ()
  else pure ()

/-- `validate_populated_transaction_and_get_fee`. -/
def validate_populated_transaction_and_get_fee (c : Crypto) (ptx : PopulatedTransaction)
    (pov_daa_score : UInt64) (flags : TxValidationFlags) : Except TxFault UInt64 := do
  v.check_transaction_coinbase_maturity ptx pov_daa_score
  let total_in ← rule (check_transaction_input_amounts ptx)
  let total_out ← check_transaction_output_values ptx total_in
  v.check_mass_if_active ptx pov_daa_score flags
  check_sequence_lock ptx pov_daa_score
  check_scripts_if c ptx flags
  pure (total_in - total_out)

end TransactionValidator

end KashValidation
