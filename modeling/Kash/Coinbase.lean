import Kash.Validation.TxValidator
import Kash.Lib.AListLoops

/-! # The coinbase (`processes/coinbase.rs`)

    The coinbase of a block pays the blocks its mergeset merges: one KSH output for
    each blue block of the DAA window, worth the block's subsidy and the fees of the
    transactions it had accepted, and one output to the merging block's miner for
    all the red ones. Its payload records the block's blue score, its subsidy and
    the miner's script public key and extra data, in a fixed layout that
    `deserialize_coinbase_payload` reads back.

    `CoinbaseManager::new` precomputes `blocks_per_month` and the subsidy table
    from the target block time; the model takes both as fields, with the facts
    `new` makes true of them: the month is not empty, and the table has
    `SUBSIDY_BY_MONTH_TABLE_SIZE` entries. -/

namespace KashCoinbase

open KashTx KashHashing KashScript AListLoops

/-! ## Layout of the payload -/

def LENGTH_OF_BLUE_SCORE : ℕ := 8
def LENGTH_OF_SUBSIDY : ℕ := 8
def LENGTH_OF_SCRIPT_PUB_KEY_VERSION : ℕ := 2
def LENGTH_OF_SCRIPT_PUB_KEY_LENGTH : ℕ := 1

def MIN_PAYLOAD_LENGTH : ℕ :=
  LENGTH_OF_BLUE_SCORE + LENGTH_OF_SUBSIDY + LENGTH_OF_SCRIPT_PUB_KEY_VERSION +
    LENGTH_OF_SCRIPT_PUB_KEY_LENGTH

def SUBSIDY_BY_MONTH_TABLE_SIZE : ℕ := 426

/-! ## Data -/

/-- `MinerData`. -/
structure MinerData where
  script_public_key : ScriptPublicKey
  extra_data : List UInt8
  deriving DecidableEq

/-- `CoinbaseData`: what a payload records. -/
structure CoinbaseData where
  blue_score : UInt64
  subsidy : UInt64
  miner_data : MinerData
  deriving DecidableEq

/-- `BlockRewardData`: what a merged block is owed. -/
structure BlockRewardData where
  subsidy : UInt64
  total_fees : UInt64
  script_public_key : ScriptPublicKey
  deriving DecidableEq

/-- `CoinbaseTransactionTemplate`. -/
structure CoinbaseTransactionTemplate where
  tx : Transaction
  has_red_reward : Bool

/-- `CoinbaseError`. -/
inductive CoinbaseError
  | PayloadLenBelowMin (len min : ℕ)
  | PayloadLenAboveMax (len max : ℕ)
  | PayloadScriptPublicKeyLenAboveMax (len : ℕ) (max : UInt8)
  | PayloadCantContainScriptPublicKey (len required : ℕ)
  deriving DecidableEq

/-- A failure of `deserialize_coinbase_payload` or `expected_coinbase_transaction`:
    its error, or a panic. -/
inductive CoinbaseFault
  | error (e : CoinbaseError)
  | panics (site : PanicSite)
  deriving DecidableEq

/-- `PayloadParser`: the part of the payload not read yet. -/
structure PayloadParser where
  remaining : List UInt8

/-- `PayloadParser::take`: the first `n` bytes, and the parser after them. Its
    `split_at` panics when `n` passes the end. -/
def PayloadParser.take (self : PayloadParser) (n : ℕ) :
    Except PanicSite (List UInt8 × PayloadParser) :=
  if n ≤ self.remaining.length then .ok (self.remaining.take n, ⟨self.remaining.drop n⟩)
  else .error .index_out_of_bounds

/-- `slice.try_into().unwrap()` into `[u8; n]`: it panics unless the slice has `n`
    bytes. -/
def try_into_array (n : ℕ) (slice : List UInt8) : Except PanicSite (List UInt8) :=
  if slice.length = n then .ok slice else .error .unwrap_error

/-- `CoinbaseManager`, with what `new` guarantees of its precomputed fields. -/
structure CoinbaseManager where
  coinbase_payload_script_public_key_max_len : UInt8
  max_coinbase_payload_len : ℕ
  deflationary_phase_daa_score : UInt64
  pre_deflationary_phase_base_subsidy : UInt64
  target_time_per_block : UInt64
  blocks_per_month : UInt64
  subsidy_by_month_table : List UInt64
  blocks_per_month_pos : 0 < blocks_per_month.toNat
  subsidy_by_month_table_length : subsidy_by_month_table.length = SUBSIDY_BY_MONTH_TABLE_SIZE

namespace CoinbaseManager

variable (m : CoinbaseManager)

theorem subsidy_by_month_table_ne_nil : m.subsidy_by_month_table ≠ [] := by
  intro h
  have hlen := m.subsidy_by_month_table_length
  rw [h] at hlen
  cases hlen

/-- `calc_block_subsidy`: the base subsidy before the deflationary phase, then the
    table's entry for the month, and its last entry after the table. -/
def calc_block_subsidy (daa_score : UInt64) : UInt64 :=
  if daa_score < m.deflationary_phase_daa_score then m.pre_deflationary_phase_base_subsidy
  else
    let months_since_deflationary_phase_started :=
      ((daa_score - m.deflationary_phase_daa_score) / m.blocks_per_month).toNat
    if months_since_deflationary_phase_started ≥ m.subsidy_by_month_table.length then
      m.subsidy_by_month_table.getLast m.subsidy_by_month_table_ne_nil
    else m.subsidy_by_month_table.getD months_since_deflationary_phase_started 0

/-! ## The payload -/

/-- The fields of the payload after the blue score and the subsidy. -/
def miner_data_bytes (miner_data : MinerData) : List UInt8 :=
  write_u16 miner_data.script_public_key.version ++
    [UInt8.ofNat miner_data.script_public_key.script.length] ++
    miner_data.script_public_key.script ++ miner_data.extra_data

/-- `serialize_coinbase_payload`. -/
def serialize_coinbase_payload (data : CoinbaseData) : Except CoinbaseError (List UInt8) :=
  let script_pub_key_len := data.miner_data.script_public_key.script.length
  if script_pub_key_len > m.coinbase_payload_script_public_key_max_len.toNat then
    .error (.PayloadScriptPublicKeyLenAboveMax script_pub_key_len
      m.coinbase_payload_script_public_key_max_len)
  else
    .ok (write_u64 data.blue_score ++ write_u64 data.subsidy ++ miner_data_bytes data.miner_data)

/-- `modify_coinbase_payload`: keep the blue score and the subsidy, write the new
    miner data after them. -/
def modify_coinbase_payload (payload : List UInt8) (miner_data : MinerData) :
    Except CoinbaseError (List UInt8) :=
  let script_pub_key_len := miner_data.script_public_key.script.length
  if script_pub_key_len > m.coinbase_payload_script_public_key_max_len.toNat then
    .error (.PayloadScriptPublicKeyLenAboveMax script_pub_key_len
      m.coinbase_payload_script_public_key_max_len)
  else
    .ok (payload.take (LENGTH_OF_BLUE_SCORE + LENGTH_OF_SUBSIDY) ++ miner_data_bytes miner_data)

/-- `deserialize_coinbase_payload`: the two length checks, then the fields read in
    order by a `PayloadParser`, each fixed-width field through `try_into().unwrap()`. -/
def deserialize_coinbase_payload (payload : List UInt8) : Except CoinbaseFault CoinbaseData :=
  if payload.length < MIN_PAYLOAD_LENGTH then
    .error (.error (.PayloadLenBelowMin payload.length MIN_PAYLOAD_LENGTH))
  else if payload.length > m.max_coinbase_payload_len then
    .error (.error (.PayloadLenAboveMax payload.length m.max_coinbase_payload_len))
  else do
    let parser : PayloadParser := ⟨payload⟩
    let (bytes, parser) ← (parser.take LENGTH_OF_BLUE_SCORE).mapError .panics
    let blue_score := (from_le_bytes (← (try_into_array 8 bytes).mapError .panics)).toUInt64
    let (bytes, parser) ← (parser.take LENGTH_OF_SUBSIDY).mapError .panics
    let subsidy := (from_le_bytes (← (try_into_array 8 bytes).mapError .panics)).toUInt64
    let (bytes, parser) ← (parser.take LENGTH_OF_SCRIPT_PUB_KEY_VERSION).mapError .panics
    let script_pub_key_version :=
      (from_le_bytes (← (try_into_array 2 bytes).mapError .panics)).toUInt16
    let (bytes, parser) ← (parser.take LENGTH_OF_SCRIPT_PUB_KEY_LENGTH).mapError .panics
    let script_pub_key_len := (from_le_bytes (← (try_into_array 1 bytes).mapError .panics)).toUInt8
    if script_pub_key_len > m.coinbase_payload_script_public_key_max_len then
      .error (.error (.PayloadScriptPublicKeyLenAboveMax script_pub_key_len.toNat
        m.coinbase_payload_script_public_key_max_len))
    else if parser.remaining.length < script_pub_key_len.toNat then
      .error (.error (.PayloadCantContainScriptPublicKey payload.length
        (MIN_PAYLOAD_LENGTH + script_pub_key_len.toNat)))
    else do
      let (script, parser) ← (parser.take script_pub_key_len.toNat).mapError .panics
      pure ⟨blue_score, subsidy, ⟨⟨script_pub_key_version, script⟩, parser.remaining⟩⟩

/-! ## The expected coinbase -/

/-- A merged block's reward: `subsidy + total_fees`, and its reward data must be
    in the map (`unwrap`). -/
def block_reward (mergeset_rewards : Map Hash BlockRewardData) (block : Hash) :
    Except PanicSite (BlockRewardData × UInt64) :=
  match mergeset_rewards.get block with
  | none => .error .unwrap_none
  | some reward_data => do
      let reward ← u64_add reward_data.subsidy reward_data.total_fees
      pure (reward_data, reward)

/-- The outputs for the blue blocks of the DAA window: one KSH output for each
    positive reward, to the script the block's coinbase reported. -/
def blue_outputs (mergeset_rewards : Map Hash BlockRewardData) :
    List Hash → Except PanicSite (List TransactionOutput)
  | [] => .ok []
  | blue :: rest => do
      let (reward_data, reward) ← block_reward mergeset_rewards blue
      let outputs ← blue_outputs mergeset_rewards rest
      if reward > 0 then pure (⟨reward, reward_data.script_public_key, .KSH⟩ :: outputs)
      else pure outputs

/-- The rewards of the red blocks of the DAA window, added up from `red_reward`. -/
def red_reward_from (mergeset_rewards : Map Hash BlockRewardData) (red_reward : UInt64) :
    List Hash → Except PanicSite UInt64
  | [] => .ok red_reward
  | red :: rest => do
      let (_, reward) ← block_reward mergeset_rewards red
      let red_reward ← u64_add red_reward reward
      red_reward_from mergeset_rewards red_reward rest

/-- `expected_coinbase_transaction`, for the blue score and the mergeset blues and
    reds of the block's `ghostdag_data`. -/
def expected_coinbase_transaction (TransactionID : Bytes → Hash) (daa_score : UInt64)
    (miner_data : MinerData) (blue_score : UInt64) (mergeset_blues mergeset_reds : List Hash)
    (mergeset_rewards : Map Hash BlockRewardData) (mergeset_non_daa : List Hash) :
    Except CoinbaseFault CoinbaseTransactionTemplate := do
  let outputs ← (blue_outputs mergeset_rewards
    (mergeset_blues.filter (· ∉ mergeset_non_daa))).mapError .panics
  let red_reward ← (red_reward_from mergeset_rewards 0
    (mergeset_reds.filter (· ∉ mergeset_non_daa))).mapError .panics
  let outputs :=
    if red_reward > 0 then outputs ++ [⟨red_reward, miner_data.script_public_key, .KSH⟩]
    else outputs
  let subsidy := m.calc_block_subsidy daa_score
  let payload ← (m.serialize_coinbase_payload ⟨blue_score, subsidy, miner_data⟩).mapError .error
  pure ⟨Transaction.new TransactionID KashValidation.TX_VERSION [] outputs .TransferKSH 0 SUBNETWORK_ID_COINBASE 0 payload,
    red_reward > 0⟩

end CoinbaseManager

end KashCoinbase
