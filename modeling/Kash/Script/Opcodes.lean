import Kash.Lib.PrefixCode

/-! # Script opcodes (`kash_txscript::opcodes`)

    A script is a byte string read as a sequence of opcodes: one opcode byte and
    the data it carries. The `opcode_list!` table gives every byte a length
    specification — a fixed total length, or a little-endian count of one, two or
    four bytes (`OpPushData1/2/4`) — and the metadata the engine reads
    (`is_push_opcode`, `is_disabled`, `always_illegal`, `is_conditional`,
    `check_minimal_data_push`). What each opcode does is in `Engine`.

    The errors are `TxScriptError`. Where the Rust error carries a text built by
    `format!` from data (an opcode's `Debug` form, a byte vector in hex), the model
    carries that data. A place where the Rust code would panic — an `unwrap` of
    `None`, an out-of-range index, an arithmetic overflow, a failed `assert!` — is a
    `PanicSite`: the model returns it instead of going on, so that a theorem can say
    it is never reached. -/

namespace KashScript

/-- The places where the Rust code can panic. -/
inductive PanicSite
  /-- An `i32`/`i64`/`u64`/`usize` operation whose result does not fit. -/
  | arithmetic_overflow
  /-- An integer division by zero. -/
  | division_by_zero
  /-- `OpcodeData::<i64>::serialize(i64::MIN)`: `abs` overflows, and in a release
      build the byte loop never ends. -/
  | serialize_i64_min
  /-- A slice index, `remove`, `insert` or `split_off` out of range. -/
  | index_out_of_bounds
  /-- `unwrap` or `expect` of `None`. -/
  | unwrap_none
  /-- `unwrap` of an `Err`. -/
  | unwrap_error
  /-- A failed `assert!`. -/
  | assertion_failed
  /-- `unreachable!()`. -/
  | unreachable_code
  deriving DecidableEq, Repr

/-- An opcode read from a script: its byte (`CODE`) and its data. -/
structure Opcode where
  value : UInt8
  data : List UInt8
  deriving DecidableEq, Repr

/-- The failures of `secp256k1` parsing that the engine reports. -/
inductive SecpError
  | InvalidPublicKey
  | InvalidSignature
  deriving DecidableEq, Repr

/-- The data of a `NotMinimalData` text. -/
inductive MinimalDataViolation
  /-- "numeric value encoded as {v:x?} is not minimally encoded" -/
  | numeric_not_minimal (v : List UInt8)
  /-- "numeric value encoded as {v:x?} is longer than 8 bytes" -/
  | numeric_longer_than_8 (v : List UInt8)
  /-- "zero length data push is encoded with opcode .. instead of OpFalse" -/
  | not_op_false (opcode : Opcode)
  /-- "zero length data push is encoded with opcode .. instead of Op_n" -/
  | not_small_int (opcode : Opcode)
  /-- "data push of the value -1 encoded with opcode .. instead of OP_1NEGATE" -/
  | not_op_1negate (opcode : Opcode)
  /-- "data push of n bytes encoded with opcode .. instead of OP_DATA_n" -/
  | not_op_data (opcode : Opcode)
  /-- "data push of n bytes encoded with opcode .. instead of OP_PUSHDATA1" -/
  | not_push_data1 (opcode : Opcode)
  /-- "data push of n bytes encoded with opcode .. instead of OP_PUSHDATA2" -/
  | not_push_data2 (opcode : Opcode)
  deriving DecidableEq, Repr

/-- The data of a `NumberTooBig` text. -/
inductive NumberTooBigReason
  /-- A script number longer than `DEFAULT_SCRIPT_NUM_LEN` bytes. -/
  | script_number (v : List UInt8)
  /-- A lock time or sequence longer than eight bytes. -/
  | lock_time (v : List UInt8)
  /-- A length that does not fit an `i64` (`OpSize`). -/
  | length (len : ℕ)
  deriving DecidableEq, Repr

/-- `TxScriptError`, the variants the engine returns. -/
inductive TxScriptError
  | MalformedPushSize (bytes : List UInt8)
  | MalformedPush (expected remaining : ℕ)
  | InvalidIndex (index len : ℕ)
  | StackSizeExceeded (size max : ℕ)
  | InvalidOpcode (opcode : Opcode)
  | OpcodeReserved (opcode : Opcode)
  | OpcodeDisabled (opcode : Opcode)
  | EmptyStack
  | CleanStack (extra : ℕ)
  | EvalFalse
  | EarlyReturn
  | VerifyError
  | InvalidState (text : String)
  | InvalidSignature (error : SecpError)
  | TooManyOperations (max : ℤ)
  | NotATransactionInput
  | ElementTooBig (size max : ℕ)
  | NotMinimalData (violation : MinimalDataViolation)
  | InvalidSource (text : String)
  | UnsatisfiedLockTime (text : String)
  | NumberTooBig (reason : NumberTooBigReason)
  | NullFail
  | InvalidSignatureCount (text : String)
  | InvalidPubKeyCount (text : String)
  | InvalidSigHashType (hash_type : UInt8)
  | PubKeyFormat
  | SigLength (len : ℕ)
  | NoScripts
  | SignatureScriptNotPushOnly
  | ErrUnbalancedConditional
  | InvalidStackOperation (needed len : ℕ)
  | ScriptSize (size max : ℕ)
  deriving DecidableEq, Repr

/-- How a computation of the engine fails: with the script error the Rust code
    returns, or with a panic. -/
inductive EngineFault
  | script (error : TxScriptError)
  | panics (site : PanicSite)
  deriving DecidableEq, Repr

/-- The failure is a panic. -/
def EngineFault.IsPanic : EngineFault → Prop
  | .script _ => False
  | .panics _ => True

@[simp] theorem EngineFault.not_isPanic_script (e : TxScriptError) :
    ¬ (EngineFault.script e).IsPanic := id

/-! ## Codes -/

namespace codes

def OpFalse : UInt8 := 0x00
def Op0 : UInt8 := 0x00
def OpData1 : UInt8 := 0x01
def OpData32 : UInt8 := 0x20
def OpData33 : UInt8 := 0x21
def OpData75 : UInt8 := 0x4b
def OpPushData1 : UInt8 := 0x4c
def OpPushData2 : UInt8 := 0x4d
def OpPushData4 : UInt8 := 0x4e
def Op1Negate : UInt8 := 0x4f
def OpTrue : UInt8 := 0x51
def Op1 : UInt8 := 0x51
def Op16 : UInt8 := 0x60
def OpVerIf : UInt8 := 0x65
def OpVerNotIf : UInt8 := 0x66
def OpReturn : UInt8 := 0x6a
def OpCat : UInt8 := 0x7e
def OpSubStr : UInt8 := 0x7f
def OpLeft : UInt8 := 0x80
def OpRight : UInt8 := 0x81
def OpInvert : UInt8 := 0x83
def OpAnd : UInt8 := 0x84
def OpOr : UInt8 := 0x85
def OpXor : UInt8 := 0x86
def OpEqual : UInt8 := 0x87
def Op2Mul : UInt8 := 0x8d
def Op2Div : UInt8 := 0x8e
def OpMul : UInt8 := 0x95
def OpDiv : UInt8 := 0x96
def OpMod : UInt8 := 0x97
def OpLShift : UInt8 := 0x98
def OpRShift : UInt8 := 0x99
def OpCheckMultiSigECDSA : UInt8 := 0xa9
def OpBlake2b : UInt8 := 0xaa
def OpCheckSigECDSA : UInt8 := 0xab
def OpCheckSig : UInt8 := 0xac
def OpCheckSigVerify : UInt8 := 0xad
def OpCheckMultiSig : UInt8 := 0xae
def OpCheckMultiSigVerify : UInt8 := 0xaf

end codes

open codes

/-- `OP_SMALL_INT_MIN_VAL`. -/
def OP_SMALL_INT_MIN_VAL : UInt8 := 1

/-- `OP_SMALL_INT_MAX_VAL`. -/
def OP_SMALL_INT_MAX_VAL : UInt8 := 16

/-- `OP_1_NEGATE_VAL`. -/
def OP_1_NEGATE_VAL : UInt8 := 0x81

/-- `OP_DATA_MIN_VAL`. -/
def OP_DATA_MIN_VAL : UInt8 := OpData1

/-- `OP_DATA_MAX_VAL`. -/
def OP_DATA_MAX_VAL : UInt8 := OpData75

/-- `NO_COST_OPCODE`: the last opcode that is not counted as an operation. -/
def NO_COST_OPCODE : UInt8 := 0x60

/-! ## Reading opcodes -/

/-- The length specification of `opcode_list!`: the fixed length of the opcode with
    its data, or the width of the little-endian count in front of the data. -/
inductive LengthSpec
  | fixed (length : ℕ)
  | var (width : ℕ)
  deriving DecidableEq

/-- The length specification of every opcode byte: `OpData1..75` carry 1 to 75
    bytes, `OpPushData1/2/4` a `u8`/`u16`/`u32` count, every other opcode nothing. -/
def length_spec (value : UInt8) : LengthSpec :=
  if 1 ≤ value.toNat ∧ value.toNat ≤ 75 then .fixed (value.toNat + 1)
  else if value = OpPushData1 then .var 1
  else if value = OpPushData2 then .var 2
  else if value = OpPushData4 then .var 4
  else .fixed 1

/-- `from_le_bytes`: the number a little-endian byte string writes. -/
def from_le_bytes (bytes : List UInt8) : ℕ :=
  bytes.foldr (fun b acc => b.toNat + 256 * acc) 0

/-- `OpcodeSerialization::deserialize` of one opcode whose byte has been read: the
    opcode (or the error) and the bytes left. Every `take` consumes what it finds,
    so after an error nothing is left. -/
def deserialize_opcode (value : UInt8) (it : List UInt8) :
    Except TxScriptError Opcode × List UInt8 :=
  match length_spec value with
  | .fixed length =>
      -- "Static length includes the opcode itself", then `new` checks the length
      let data := it.take (length - 1)
      (if data.length ≠ length - 1 then .error (.MalformedPush (length - 1) data.length)
        else .ok ⟨value, data⟩, it.drop (length - 1))
  | .var width =>
      let bytes := it.take width
      if bytes.length ≠ width then (.error (.MalformedPushSize bytes), it.drop width)
      else
        let length := from_le_bytes bytes
        let rest := it.drop width
        let data := rest.take length
        (if data.length ≠ length then .error (.MalformedPush length data.length)
          else .ok ⟨value, data⟩, rest.drop length)

/-- `deserialize_next_opcode`: `none` at the end of the script. -/
def deserialize_next_opcode : List UInt8 → Option (Except TxScriptError Opcode × List UInt8)
  | [] => none
  | value :: it => some (deserialize_opcode value it)

/-- The opcodes read from a script, one `deserialize_next_opcode` at a time. Each
    opcode takes at least its own byte, so `fuel` equal to the script's length reads
    the whole script. -/
def parse_opcodes : ℕ → List UInt8 → List (Except TxScriptError Opcode)
  | 0, _ => []
  | fuel + 1, script =>
      match deserialize_next_opcode script with
      | none => []
      | some (opcode, rest) => opcode :: parse_opcodes fuel rest

/-- `parse_script`. -/
def parse_script (script : List UInt8) : List (Except TxScriptError Opcode) :=
  parse_opcodes script.length script

/-! ## Metadata (`OpCodeMetadata`) -/

/-- `is_disabled`. -/
def Opcode.is_disabled (op : Opcode) : Bool :=
  op.value ∈ [OpCat, OpSubStr, OpLeft, OpRight, OpInvert, OpAnd, OpOr, OpXor, Op2Mul, Op2Div,
    OpMul, OpDiv, OpMod, OpLShift, OpRShift]

/-- `always_illegal`. -/
def Opcode.always_illegal (op : Opcode) : Bool :=
  op.value = OpVerIf || op.value = OpVerNotIf

/-- `is_push_opcode`: the opcodes up to `Op16`, `OpReserved` included. -/
def Opcode.is_push_opcode (op : Opcode) : Bool := op.value ≤ NO_COST_OPCODE

/-- `len`: the length of the data. -/
def Opcode.len (op : Opcode) : ℕ := op.data.length

/-- `is_conditional`: `OpIf` to `OpEndIf`, run even in a branch not taken. -/
def Opcode.is_conditional (op : Opcode) : Bool := 0x63 ≤ op.value && op.value ≤ 0x68

/-- `check_minimal_data_push`: a push uses the shortest encoding of its data. -/
def Opcode.check_minimal_data_push (op : Opcode) : Except TxScriptError Unit :=
  let data_len := op.len
  let opcode := op.value
  match op.data with
  | [] =>
      if opcode ≠ OpFalse then .error (.NotMinimalData (.not_op_false op)) else .ok ()
  | [d] =>
      if OP_SMALL_INT_MIN_VAL ≤ d ∧ d ≤ OP_SMALL_INT_MAX_VAL then
        if opcode ≠ OpTrue + d - 1 then .error (.NotMinimalData (.not_small_int op)) else .ok ()
      else if d = OP_1_NEGATE_VAL then
        if opcode ≠ Op1Negate then .error (.NotMinimalData (.not_op_1negate op)) else .ok ()
      else if opcode.toNat ≠ data_len then .error (.NotMinimalData (.not_op_data op))
      else .ok ()
  | _ =>
      if data_len ≤ OpData75.toNat then
        if opcode.toNat ≠ data_len then .error (.NotMinimalData (.not_op_data op)) else .ok ()
      else if data_len ≤ 255 then
        if opcode ≠ OpPushData1 then .error (.NotMinimalData (.not_push_data1 op)) else .ok ()
      else if data_len < 65535 ∧ opcode ≠ OpPushData2 then
        .error (.NotMinimalData (.not_push_data2 op))
      else .ok ()

/-- `get_data`. -/
def Opcode.get_data (op : Opcode) : List UInt8 := op.data

/-- `OpcodeSerialization::serialize`: the byte, the count (cast to the width of the
    count field) for `OpPushData1/2/4`, the data. -/
def Opcode.serialize (op : Opcode) : List UInt8 :=
  match length_spec op.value with
  | .fixed _ => op.value :: op.data
  | .var width => op.value :: (PrefixCode.leBytes width op.data.length ++ op.data)

/-- `to_small_int`: the number of `OpFalse` and `OpTrue..Op16`. Its `assert!` is
    over the half-open range `OpTrue..Op16`, which leaves out `Op16`. -/
def to_small_int (op : Opcode) : Except PanicSite UInt8 :=
  if op.value = OpFalse then .ok 0
  else if OpTrue ≤ op.value ∧ op.value < Op16 then .ok (op.value - (OpTrue - 1))
  else .error .assertion_failed

end KashScript
