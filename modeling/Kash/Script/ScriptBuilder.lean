import Mathlib
import Kash.Script.Engine

/-! # `ScriptBuilder` (`kash_txscript::script_builder`)

    The builder wallets use to write scripts: opcodes, and data pushed with the
    shortest opcode that carries it. Every operation but `add_raw_data` refuses a
    script that would outgrow `MAX_SCRIPTS_SIZE`, and `add_data` a push longer than
    `MAX_SCRIPT_ELEMENT_SIZE`. An operation that fails leaves the builder as it was;
    the model returns the new builder on success.

    `add_i64` writes its number with `OpcodeData::<i64>::serialize`, which panics on
    `i64::MIN`; that failure is `BuilderFault.serialize`. -/

namespace KashScript

open codes

/-- `ScriptBuilderError`. -/
inductive ScriptBuilderError
  | OpCodeRejected (opcode : UInt8)
  | OpCodesRejected (count : ℕ)
  | DataRejected (size : ℕ)
  | ElementExceedsMaxSize (size : ℕ)
  | IntegerRejected (val : ℤ)
  deriving DecidableEq, Repr

/-- How `add_i64` fails: with a `ScriptBuilderError`, or in the number's
    serialization. -/
inductive BuilderFault
  | builder (error : ScriptBuilderError)
  | serialize (fault : EngineFault)
  deriving DecidableEq, Repr

/-- `ScriptBuilder`: the script written so far. -/
structure ScriptBuilder where
  script : List UInt8
  deriving DecidableEq, Repr

/-- `ScriptBuilder::new`. -/
def ScriptBuilder.new : ScriptBuilder := ⟨[]⟩

/-- `add_op`. -/
def ScriptBuilder.add_op (self : ScriptBuilder) (opcode : UInt8) :
    Except ScriptBuilderError ScriptBuilder :=
  if self.script.length ≥ MAX_SCRIPTS_SIZE then .error (.OpCodeRejected opcode)
  else .ok ⟨self.script ++ [opcode]⟩

/-- `add_ops`. -/
def ScriptBuilder.add_ops (self : ScriptBuilder) (opcodes : List UInt8) :
    Except ScriptBuilderError ScriptBuilder :=
  if self.script.length + opcodes.length > MAX_SCRIPTS_SIZE then
    .error (.OpCodesRejected opcodes.length)
  else .ok ⟨self.script ++ opcodes⟩

/-- `canonical_data_size`: the bytes the canonical push of the data takes. `data[0]`
    is read only when the data has one byte. -/
def canonical_data_size (data : List UInt8) : ℕ :=
  let data_len := data.length
  if data_len = 0 ∨
      (data_len = 1 ∧ (data.headD 0 ≤ OP_SMALL_INT_MAX_VAL ∨ data.headD 0 = OP_1_NEGATE_VAL)) then
    1
  else
    data_len +
      if data_len ≤ OP_DATA_MAX_VAL.toNat then 1
      else if data_len ≤ 255 then 2
      else if data_len ≤ 65535 then 3
      else 5

/-- `add_raw_data`: the small-integer opcodes for one byte up to 16 or `0x81`, else
    the shortest data push. The `u16`/`u32` casts of the length are the
    little-endian bytes of `leBytes`, modulo their width. -/
def ScriptBuilder.add_raw_data (self : ScriptBuilder) (data : List UInt8) : ScriptBuilder :=
  let data_len := data.length
  if data_len = 0 ∨ (data_len = 1 ∧ data.headD 0 = 0) then ⟨self.script ++ [Op0]⟩
  else if data_len = 1 ∧ data.headD 0 ≤ OP_SMALL_INT_MAX_VAL then
    ⟨self.script ++ [(Op1 - 1) + data.headD 0]⟩
  else if data_len = 1 ∧ data.headD 0 = OP_1_NEGATE_VAL then ⟨self.script ++ [Op1Negate]⟩
  else
    let push :=
      if data_len ≤ OP_DATA_MAX_VAL.toNat then [(OP_DATA_MIN_VAL - 1) + UInt8.ofNat data_len]
      else if data_len ≤ 255 then [OpPushData1, UInt8.ofNat data_len]
      else if data_len ≤ 65535 then OpPushData2 :: PrefixCode.leBytes 2 data_len
      else OpPushData4 :: PrefixCode.leBytes 4 data_len
    ⟨self.script ++ push ++ data⟩

/-- `add_data`: the canonical push, unless the script would grow past
    `MAX_SCRIPTS_SIZE` or the data is longer than `MAX_SCRIPT_ELEMENT_SIZE`. -/
def ScriptBuilder.add_data (self : ScriptBuilder) (data : List UInt8) :
    Except ScriptBuilderError ScriptBuilder :=
  let data_size := canonical_data_size data
  if self.script.length + data_size > MAX_SCRIPTS_SIZE then .error (.DataRejected data_size)
  else if data.length > MAX_SCRIPT_ELEMENT_SIZE then .error (.ElementExceedsMaxSize data.length)
  else .ok (self.add_raw_data data)

/-- `add_i64`: `Op0`, `Op1Negate` and `Op1..Op16` for the small numbers, else the
    serialized number pushed as data. `((Op1 as i64 - 1) + val) as u8` keeps the low
    byte. -/
def ScriptBuilder.add_i64 (self : ScriptBuilder) (val : ℤ) : Except BuilderFault ScriptBuilder :=
  if self.script.length + 1 > MAX_SCRIPTS_SIZE then .error (.builder (.IntegerRejected val))
  else if val = 0 then .ok ⟨self.script ++ [Op0]⟩
  else if val = -1 ∨ (1 ≤ val ∧ val ≤ 16) then
    .ok ⟨self.script ++ [UInt8.ofInt ((Op1.toNat : ℤ) - 1 + val)]⟩
  else
    match i64_serialize val with
    | .error fault => .error (.serialize fault)
    | .ok bytes => (self.add_data bytes).mapError .builder

/-- `add_u64`: the eight little-endian bytes with the trailing zeros trimmed, pushed
    as data. -/
def ScriptBuilder.add_u64 (self : ScriptBuilder) (val : UInt64) :
    Except ScriptBuilderError ScriptBuilder :=
  let buffer := PrefixCode.leBytes 8 val.toNat
  let trimmed_size := 8 - (buffer.reverse.findIdx? (· != 0)).getD 8
  self.add_data (buffer.take trimmed_size)

/-- `add_lock_time`. -/
def ScriptBuilder.add_lock_time (self : ScriptBuilder) (lock_time : UInt64) :
    Except ScriptBuilderError ScriptBuilder :=
  self.add_u64 lock_time

/-- `add_sequence`. -/
def ScriptBuilder.add_sequence (self : ScriptBuilder) (sequence : UInt64) :
    Except ScriptBuilderError ScriptBuilder :=
  self.add_u64 sequence

end KashScript
