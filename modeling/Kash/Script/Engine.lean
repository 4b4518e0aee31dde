import Kash.Script.DataStack
import Kash.Hashing

/-! # The script engine (`TxScriptEngine`)

    The engine runs the signature script of an input and the script public key of
    the entry it spends (and, for a pay-to-script-hash entry, the redeem script the
    signature script pushed) on one data stack. Each script is read opcode by
    opcode; `execute_script` stops at the first error and after every opcode checks
    that the two stacks hold at most `MAX_STACK_SIZE` elements. `execute` then asks
    for a clean stack holding one true element.

    What an opcode does is `Instr.run` of the instruction `decode` reads from its
    byte: the bodies of the `opcode_list!` table. The cryptography (the sighash
    hashers, SHA-256, BLAKE2b, `secp256k1` parsing and verification) is a parameter
    `Crypto`. The signature cache is left out: it stores results of the
    verification it stands in front of.

    The engine state carries one invariant in its type: an engine built for a
    transaction input has an input index in range, as `from_transaction_input`
    checks. -/

namespace KashScript

open KashTx KashHashing ExceptLoops codes

/-! ## Constants -/

def MAX_SCRIPT_PUBLIC_KEY_VERSION : UInt16 := 0
def MAX_STACK_SIZE : ℕ := 244
def MAX_SCRIPTS_SIZE : ℕ := 10000
def MAX_SCRIPT_ELEMENT_SIZE : ℕ := 520
def MAX_OPS_PER_SCRIPT : ℤ := 201
def MAX_TX_IN_SEQUENCE_NUM : UInt64 := 0xffffffffffffffff
def SEQUENCE_LOCK_TIME_DISABLED : UInt64 := (1 : UInt64) <<< 63
def SEQUENCE_LOCK_TIME_MASK : UInt64 := 0x00000000ffffffff
def LOCK_TIME_THRESHOLD : UInt64 := 500000000000
def MAX_PUB_KEYS_PER_MUTLTISIG : ℤ := 20

/-! ## State -/

/-- `OpCond`: the state of one open `OpIf`. -/
inductive OpCond
  | False
  | True
  | Skip
  deriving DecidableEq, Repr

/-- `OpCond::negate`. -/
def OpCond.negate : OpCond → OpCond
  | .True => .False
  | .False => .True
  | .Skip => .Skip

/-- The cryptography the engine calls. -/
structure Crypto where
  TransactionSigningHash : Bytes → Hash
  TransactionSigningHashECDSA : Bytes → Hash
  sha256 : Bytes → Bytes
  blake2b : Bytes → Bytes
  /-- `XOnlyPublicKey::from_slice` succeeds. -/
  xonly_public_key_from_slice : Bytes → Bool
  /-- `schnorr::Signature::from_slice` succeeds. -/
  schnorr_signature_from_slice : Bytes → Bool
  /-- `sig.verify(&msg, &pk)` for a Schnorr signature, message and key. -/
  schnorr_verify : Bytes → Hash → Bytes → Bool
  /-- `PublicKey::from_slice` succeeds. -/
  public_key_from_slice : Bytes → Bool
  /-- `ecdsa::Signature::from_compact` succeeds. -/
  ecdsa_signature_from_compact : Bytes → Bool
  /-- `sig.verify(&msg, &pk)` for an ECDSA signature, message and key. -/
  ecdsa_verify : Bytes → Hash → Bytes → Bool

/-- `ScriptSource`. A transaction input's index is in range. -/
inductive ScriptSource
  | TxInput (tx : PopulatedTransaction) (input : TransactionInput) (id : ℕ)
      (utxo_entry : UtxoEntry) (is_p2sh : Bool) (id_lt : id < tx.tx.inputs.length)
  | StandAloneScripts (scripts : List Bytes)

/-- `TxScriptEngine`. -/
structure TxScriptEngine where
  dstack : Stack
  astack : Stack
  script_source : ScriptSource
  reused_values : SigHashReusedValues
  cond_stack : List OpCond
  num_ops : ℤ

/-- `ScriptClass::is_pay_to_script_hash`. -/
def is_pay_to_script_hash (script_public_key : Bytes) : Bool :=
  script_public_key.length == 35 && script_public_key[0]? == some OpBlake2b &&
    script_public_key[1]? == some OpData32 && script_public_key[34]? == some OpEqual

/-- `from_transaction_input`: the index must name an input. -/
def from_transaction_input (tx : PopulatedTransaction) (input : TransactionInput)
    (input_idx : ℕ) (utxo_entry : UtxoEntry) (reused_values : SigHashReusedValues) :
    Except TxScriptError TxScriptEngine :=
  let is_p2sh := is_pay_to_script_hash utxo_entry.script_public_key.script
  if h : input_idx < tx.tx.inputs.length then
    .ok ⟨[], [], .TxInput tx input input_idx utxo_entry is_p2sh h, reused_values, [], 0⟩
  else .error (.InvalidIndex input_idx tx.tx.inputs.length)

/-- `from_script`. -/
def from_script (script : Bytes) (reused_values : SigHashReusedValues) : TxScriptEngine :=
  ⟨[], [], .StandAloneScripts [script], reused_values, [], 0⟩

/-- `is_executing`: no `OpIf` is open, or the innermost one is taken. -/
def TxScriptEngine.is_executing (vm : TxScriptEngine) : Bool :=
  match vm.cond_stack.getLast? with
  | none => true
  | some cond => cond == .True

/-- `Vec::pop`. -/
def vec_pop {α : Type} (s : List α) : Option (α × List α) :=
  s.getLast?.map fun x => (x, s.dropLast)

/-- The script error the Rust code returns. -/
def err {α : Type} (e : TxScriptError) : Except EngineFault α := .error (.script e)

/-- The array patterns `[a]`, `[a, b]`, `[a, b, c]` on popped items: the `expect`
    of `pop_items` and `pop_raw`. -/
def items1 {α : Type} : List α → Except EngineFault α
  | [a] => .ok a
  | _ => .error (.panics .unwrap_none)

def items2 {α : Type} : List α → Except EngineFault (α × α)
  | [a, b] => .ok (a, b)
  | _ => .error (.panics .unwrap_none)

def items3 {α : Type} : List α → Except EngineFault (α × α × α)
  | [a, b, c] => .ok (a, b, c)
  | _ => .error (.panics .unwrap_none)

/-- `OpcodeData::<bool>::deserialize`, which cannot fail. -/
def read_bool (v : List UInt8) : Except TxScriptError Bool := .ok (bool_deserialize v)

/-- `push_item` of an `i64`. -/
def push_number (n : ℤ) (d : Stack) : Except EngineFault Stack := do
  let bytes ← i64_serialize n
  pure (d ++ [bytes])

/-- The top element read as a boolean is popped and must be true (`OpVerify` and
    the `...Verify` opcodes). -/
def pop_verify (d : Stack) : Except EngineFault Stack := do
  let (items, d) ← pop_items 1 read_bool d
  let valid ← items1 items
  if valid then pure d else err .VerifyError

/-- Run a body on the data stack alone. -/
def with_dstack (vm : TxScriptEngine) (f : Stack → Except EngineFault Stack) :
    Except EngineFault TxScriptEngine := do
  let dstack ← f vm.dstack
  pure { vm with dstack }

/-! ## Bodies on the data stack -/

namespace Exec

/-- `OpIfDup`. -/
def OpIfDup (d : Stack) : Except EngineFault Stack := do
  let items ← peek_raw 1 d
  let result ← items1 items
  if bool_deserialize result then pure (d ++ [result]) else pure d

/-- `OpNip`. -/
def OpNip (d : Stack) : Except EngineFault Stack :=
  if d.length ≥ 2 then do
    let (_, d) ← vec_remove d (d.length - 2)
    pure d
  else err (.InvalidStackOperation 2 d.length)

/-- `OpPick`. -/
def OpPick (d : Stack) : Except EngineFault Stack := do
  let (items, d) ← pop_items 1 i32_deserialize d
  let loc ← items1 items
  if loc < 0 ∨ loc.toNat ≥ d.length then err (.InvalidState "pick at an invalid location")
  else
    let item ← vec_index d (d.length - loc.toNat - 1)
    pure (d ++ [item])

/-- `OpRoll`. -/
def OpRoll (d : Stack) : Except EngineFault Stack := do
  let (items, d) ← pop_items 1 i32_deserialize d
  let loc ← items1 items
  if loc < 0 ∨ loc.toNat ≥ d.length then err (.InvalidState "roll at an invalid location")
  else
    let (item, d) ← vec_remove d (d.length - loc.toNat - 1)
    pure (d ++ [item])

/-- `OpTuck`. -/
def OpTuck (d : Stack) : Except EngineFault Stack :=
  if d.length ≥ 2 then
    match d.getLast? with
    | some last => vec_insert d (d.length - 2) last
    | none => .error (.panics .unwrap_none)
  else err (.InvalidStackOperation 2 d.length)

/-- `OpSize`: `i64::try_from` of the length of the top element. -/
def OpSize (d : Stack) : Except EngineFault Stack :=
  match d.getLast? with
  | some last =>
      if last.length < 2 ^ 63 then push_number last.length d
      else err (.NumberTooBig (.length last.length))
  | none => err (.InvalidStackOperation 1 0)

/-- `OpEqual`. -/
def OpEqual (d : Stack) : Except EngineFault Stack :=
  if d.length ≥ 2 then do
    let (d, pair) ← split_off d (d.length - 2)
    let a ← vec_index pair 0
    let b ← vec_index pair 1
    pure (d ++ [if a = b then [1] else []])
  else err (.InvalidStackOperation 2 d.length)

/-- `OpEqualVerify`. -/
def OpEqualVerify (d : Stack) : Except EngineFault Stack :=
  if d.length ≥ 2 then do
    let (d, pair) ← split_off d (d.length - 2)
    let a ← vec_index pair 0
    let b ← vec_index pair 1
    if a = b then pure d else err .VerifyError
  else err (.InvalidStackOperation 2 d.length)

end Exec

/-- The numeric opcodes of one operand. -/
inductive UnaryOp
  | Op1Add
  | Op1Sub
  | OpNegate
  | OpAbs
  | OpNot
  | Op0NotEqual

/-- The `i64` each computes. -/
def UnaryOp.eval : UnaryOp → ℤ → ℤ
  | .Op1Add, value => value + 1
  | .Op1Sub, value => value - 1
  | .OpNegate, value => -value
  | .OpAbs, m => |m|
  | .OpNot, m => if m = 0 then 1 else 0
  | .Op0NotEqual, m => if m ≠ 0 then 1 else 0

/-- The numeric opcodes of two operands that push their result. -/
inductive BinaryOp
  | OpAdd
  | OpSub
  | OpBoolAnd
  | OpBoolOr
  | OpNumEqual
  | OpNumNotEqual
  | OpLessThan
  | OpGreaterThan
  | OpLessThanOrEqual
  | OpGreaterThanOrEqual
  | OpMin
  | OpMax

/-- The `i64` each computes from `[a, b]` (`b` was on top). -/
def BinaryOp.eval : BinaryOp → ℤ → ℤ → ℤ
  | .OpAdd, a, b => a + b
  | .OpSub, a, b => a - b
  | .OpBoolAnd, a, b => if a ≠ 0 ∧ b ≠ 0 then 1 else 0
  | .OpBoolOr, a, b => if a ≠ 0 ∨ b ≠ 0 then 1 else 0
  | .OpNumEqual, a, b => if a = b then 1 else 0
  | .OpNumNotEqual, a, b => if a ≠ b then 1 else 0
  | .OpLessThan, a, b => if a < b then 1 else 0
  | .OpGreaterThan, a, b => if a > b then 1 else 0
  | .OpLessThanOrEqual, a, b => if a ≤ b then 1 else 0
  | .OpGreaterThanOrEqual, a, b => if a ≥ b then 1 else 0
  | .OpMin, a, b => min a b
  | .OpMax, a, b => max a b

namespace Exec

/-- A numeric opcode of one operand: the `i64` operation panics on overflow. -/
def unary (op : UnaryOp) (d : Stack) : Except EngineFault Stack := do
  let (items, d) ← pop_items 1 i64_deserialize d
  let value ← items1 items
  let result ← to_i64 (op.eval value)
  push_number result d

/-- A numeric opcode of two operands. -/
def binary (op : BinaryOp) (d : Stack) : Except EngineFault Stack := do
  let (items, d) ← pop_items 2 i64_deserialize d
  let (a, b) ← items2 items
  let result ← to_i64 (op.eval a b)
  push_number result d

/-- `OpNumEqualVerify`. -/
def OpNumEqualVerify (d : Stack) : Except EngineFault Stack := do
  let (items, d) ← pop_items 2 i64_deserialize d
  let (a, b) ← items2 items
  if a = b then pure d else err .VerifyError

/-- `OpWithin`. -/
def OpWithin (d : Stack) : Except EngineFault Stack := do
  let (items, d) ← pop_items 3 i64_deserialize d
  let (x, l, u) ← items3 items
  push_number (if x ≥ l ∧ x < u then 1 else 0) d

/-- `OpSHA256` and `OpBlake2b`: the top element, hashed. -/
def hash_top (hash : Bytes → Bytes) (d : Stack) : Except EngineFault Stack := do
  let (items, d) ← pop_raw 1 d
  let last ← items1 items
  pure (d ++ [hash last])

end Exec

/-! ## Conditionals and the alt stack -/

/-- The condition `OpIf` (on `OpNotIf`, negated) pushes: `Skip` in a branch not
    taken; otherwise the popped top element, which must be empty or the single
    byte `1`. -/
def op_if_cond (negate : Bool) (vm : TxScriptEngine) : Except EngineFault (OpCond × Stack) :=
  if vm.is_executing then
    match vec_pop vm.dstack with
    | none => err .EmptyStack
    | some (cond_buf, dstack) =>
        if cond_buf.length > 1 then err (.InvalidState "expected boolean")
        else
          match cond_buf.getLast? with
          | some 1 => pure (if negate then OpCond.False else OpCond.True, dstack)
          | some _ => err (.InvalidState "expected boolean")
          | none => pure (if negate then OpCond.True else OpCond.False, dstack)
  else pure (OpCond.Skip, vm.dstack)

/-- `OpIf` and `OpNotIf`. -/
def op_if (negate : Bool) (vm : TxScriptEngine) : Except EngineFault TxScriptEngine := do
  let (cond, dstack) ← op_if_cond negate vm
  pure { vm with dstack, cond_stack := vm.cond_stack ++ [cond] }

/-- `OpElse`. -/
def op_else (vm : TxScriptEngine) : Except EngineFault TxScriptEngine :=
  match vec_pop vm.cond_stack with
  | some (cond, rest) => pure { vm with cond_stack := rest ++ [cond.negate] }
  | none => err (.InvalidState "condition stack empty")

/-- `OpEndIf`. -/
def op_end_if (vm : TxScriptEngine) : Except EngineFault TxScriptEngine :=
  match vec_pop vm.cond_stack with
  | some (_, rest) => pure { vm with cond_stack := rest }
  | none => err (.InvalidState "condition stack empty")

/-- `OpToAltStack`. -/
def op_to_alt_stack (vm : TxScriptEngine) : Except EngineFault TxScriptEngine := do
  let (items, dstack) ← pop_raw 1 vm.dstack
  let item ← items1 items
  pure { vm with dstack, astack := vm.astack ++ [item] }

/-- `OpFromAltStack`. -/
def op_from_alt_stack (vm : TxScriptEngine) : Except EngineFault TxScriptEngine :=
  match vec_pop vm.astack with
  | some (last, astack) => pure { vm with astack, dstack := vm.dstack ++ [last] }
  | none => err .EmptyStack

/-! ## Signatures -/

/-- `check_pub_key_encoding`: a Schnorr key has 32 bytes. -/
def check_pub_key_encoding (pub_key : Bytes) : Except TxScriptError Unit :=
  if pub_key.length = 32 then .ok () else .error .PubKeyFormat

/-- `check_pub_key_encoding_ecdsa`: an ECDSA key has 33 bytes. -/
def check_pub_key_encoding_ecdsa (pub_key : Bytes) : Except TxScriptError Unit :=
  if pub_key.length = 33 then .ok () else .error .PubKeyFormat

/-- `check_schnorr_signature` and `check_ecdsa_signature`, which differ only in the
    key encoding, the parsers, the signature hash and the verification: whether
    `sig` signs the input's signature hash under `key`. The signature hash reads
    `populated_input(id)`, which panics on an index out of range. -/
def check_signature_with (check_key : Bytes → Except TxScriptError Unit)
    (key_from_slice sig_from_slice : Bytes → Bool)
    (signature_hash : PopulatedTransaction → ℕ → SigHashType → SigHashReusedValues →
      Option (Hash × SigHashReusedValues))
    (verify : Bytes → Hash → Bytes → Bool) (vm : TxScriptEngine) (hash_type : SigHashType)
    (key sig : Bytes) : Except EngineFault (Bool × TxScriptEngine) :=
  match vm.script_source with
  | .TxInput tx _ id _ _ _ => do
      if sig.length ≠ 64 then err (.SigLength sig.length)
      else
        match check_key key with
        | .error e => err e
        | .ok () =>
            if !key_from_slice key then err (.InvalidSignature .InvalidPublicKey)
            else if !sig_from_slice sig then err (.InvalidSignature .InvalidSignature)
            else
              match signature_hash tx id hash_type vm.reused_values with
              | none => .error (.panics .index_out_of_bounds)
              | some (sig_hash, reused_values) =>
                  pure (verify sig sig_hash key, { vm with reused_values })
  | .StandAloneScripts _ => err .NotATransactionInput

/-- `check_schnorr_signature`. -/
def check_schnorr_signature (c : Crypto) :=
  check_signature_with check_pub_key_encoding c.xonly_public_key_from_slice
    c.schnorr_signature_from_slice (calc_schnorr_signature_hash c.TransactionSigningHash)
    c.schnorr_verify

/-- `check_ecdsa_signature`. -/
def check_ecdsa_signature (c : Crypto) :=
  check_signature_with check_pub_key_encoding_ecdsa c.public_key_from_slice
    c.ecdsa_signature_from_compact
    (calc_ecdsa_signature_hash c.TransactionSigningHash c.TransactionSigningHashECDSA)
    c.ecdsa_verify

/-- The signature check an opcode calls. -/
def check_signature (c : Crypto) (ecdsa : Bool) :=
  if ecdsa then check_ecdsa_signature c else check_schnorr_signature c

/-- `OpCheckSig` (`ecdsa = false`) and `OpCheckSigECDSA`: the last byte of the
    signature is its hash type; an empty signature pushes false. -/
def op_check_sig (c : Crypto) (ecdsa : Bool) (vm : TxScriptEngine) :
    Except EngineFault TxScriptEngine := do
  let (items, dstack) ← pop_raw 2 vm.dstack
  let (sig, key) ← items2 items
  let vm := { vm with dstack }
  match sig.getLast? with
  | some typ =>
      match SigHashType.from_u8 typ with
      | .error _ => err (.InvalidSigHashType typ)
      | .ok hash_type => do
          let (valid, vm) ← check_signature c ecdsa vm hash_type key sig.dropLast
          pure { vm with dstack := vm.dstack ++ [bool_serialize valid] }
  | none => pure { vm with dstack := vm.dstack ++ [bool_serialize false] }

/-- `num_sigs - sig_idx` in `usize`: it panics below zero. -/
def usize_sub (a b : ℕ) : Except EngineFault ℕ :=
  if b ≤ a then .ok (a - b) else .error (.panics .arithmetic_overflow)

/-- The inner `loop` of the multisig check: try the remaining keys, each check
    consuming its key, until one verifies the signature. `none` when fewer keys are
    left than signatures (the `break 'outer`), otherwise the keys after the one that
    verified. -/
def check_keys (c : Crypto) (ecdsa : Bool) (hash_type : SigHashType) (signature : Bytes)
    (num_sigs sig_idx : ℕ) :
    List Bytes → TxScriptEngine → Except EngineFault (Option (List Bytes) × TxScriptEngine)
  | pub_keys, vm => do
      let remaining ← usize_sub num_sigs sig_idx
      if pub_keys.length < remaining then pure (none, vm)
      else
        match pub_keys with
        | [] => .error (.panics .unwrap_none)
        | pub_key :: rest => do
            let (valid, vm) ← check_signature c ecdsa vm hash_type pub_key signature
            if valid then pure (some rest, vm)
            else check_keys c ecdsa hash_type signature num_sigs sig_idx rest vm

/-- The outer loop of the multisig check over the signatures, `sig_idx` the index
    of the first: whether it failed. -/
def check_signatures (c : Crypto) (ecdsa : Bool) (num_sigs : ℕ) :
    ℕ → List Bytes → List Bytes → TxScriptEngine → Except EngineFault (Bool × TxScriptEngine)
  | _, [], _, vm => pure (false, vm)
  | sig_idx, signature :: signatures, pub_keys, vm =>
      match signature.getLast? with
      | none => pure (true, vm)
      | some typ =>
          match SigHashType.from_u8 typ with
          | .error _ => err (.InvalidSigHashType typ)
          | .ok hash_type => do
              let (outcome, vm) ←
                check_keys c ecdsa hash_type signature.dropLast num_sigs sig_idx pub_keys vm
              match outcome with
              | none => pure (true, vm)
              | some pub_keys => check_signatures c ecdsa num_sigs (sig_idx + 1) signatures pub_keys vm

/-- `op_check_multisig_schnorr_or_ecdsa`. -/
def op_check_multisig_schnorr_or_ecdsa (c : Crypto) (ecdsa : Bool) (vm : TxScriptEngine) :
    Except EngineFault TxScriptEngine := do
  let (items, d) ← pop_items 1 i32_deserialize vm.dstack
  let num_keys ← items1 items
  if num_keys < 0 then
    err (.InvalidPubKeyCount ("number of pubkeys " ++ toString num_keys ++ " is negative"))
  else if num_keys > MAX_PUB_KEYS_PER_MUTLTISIG then
    err (.InvalidPubKeyCount ("too many pubkeys " ++ toString num_keys ++ " > " ++
      toString MAX_PUB_KEYS_PER_MUTLTISIG))
  else
    let num_keys_usize := num_keys.toNat
    let num_ops ← to_i32 (vm.num_ops + num_keys)
    if num_ops > MAX_OPS_PER_SCRIPT then err (.TooManyOperations MAX_OPS_PER_SCRIPT)
    else if d.length < num_keys_usize then err (.InvalidStackOperation num_keys_usize d.length)
    else
      let (d, pub_keys) ← split_off d (d.length - num_keys_usize)
      let (items, d) ← pop_items 1 i32_deserialize d
      let num_sigs ← items1 items
      if num_sigs < 0 then
        err (.InvalidSignatureCount ("number of signatures " ++ toString num_sigs ++
          " is negative"))
      else if num_sigs > num_keys then
        err (.InvalidSignatureCount ("more signatures than pubkeys " ++ toString num_sigs ++
          " > " ++ toString num_keys))
      else
        let num_sigs := num_sigs.toNat
        if d.length < num_sigs then err (.InvalidStackOperation num_sigs d.length)
        else
          let (d, signatures) ← split_off d (d.length - num_sigs)
          let (failed, vm) ← check_signatures c ecdsa num_sigs 0 signatures pub_keys
            { vm with dstack := d, num_ops }
          if failed && signatures.any (fun sig => !sig.isEmpty) then err .NullFail
          else pure { vm with dstack := vm.dstack ++ [bool_serialize !failed] }

/-! ## Lock times -/

/-- `u64::from_le_bytes` of a vector that must hold eight bytes. -/
def u64_from_le_bytes (bytes : Bytes) : Except EngineFault UInt64 :=
  if bytes.length = 8 then .ok (UInt64.ofNat (from_le_bytes bytes))
  else .error (.panics .unwrap_none)

/-- The top element as a `u64` of at most eight bytes, padded with zeros
    (`resize(8, 0)`). -/
def pop_u64 (d : Stack) : Except EngineFault (UInt64 × Stack) := do
  let (items, d) ← pop_raw 1 d
  let bytes ← items1 items
  if bytes.length > 8 then err (.NumberTooBig (.lock_time bytes))
  else
    let value ← u64_from_le_bytes (bytes ++ List.replicate (8 - bytes.length) 0)
    pure (value, d)

/-- `{:#x}`. -/
def hex_string (n : ℕ) : String := "0x" ++ String.ofList (Nat.toDigits 16 n)

/-- `OpCheckLockTimeVerify`. -/
def op_check_lock_time_verify (vm : TxScriptEngine) : Except EngineFault TxScriptEngine :=
  match vm.script_source with
  | .TxInput tx input _ _ _ _ => do
      let (stack_lock_time, dstack) ← pop_u64 vm.dstack
      let lock_time := tx.tx.lock_time
      if !((lock_time < LOCK_TIME_THRESHOLD && stack_lock_time < LOCK_TIME_THRESHOLD) ||
          (lock_time ≥ LOCK_TIME_THRESHOLD && stack_lock_time ≥ LOCK_TIME_THRESHOLD)) then
        err (.UnsatisfiedLockTime ("mismatched locktime types -- tx locktime " ++
          toString lock_time ++ ", stack locktime " ++ toString stack_lock_time))
      else if stack_lock_time > lock_time then
        err (.UnsatisfiedLockTime ("locktime requirement not satisfied -- locktime is " ++
          "greater than the transaction locktime: " ++ toString stack_lock_time ++ " > " ++
          toString lock_time))
      else if input.sequence = MAX_TX_IN_SEQUENCE_NUM then
        err (.UnsatisfiedLockTime "transaction input is finalized")
      else pure { vm with dstack }
  | .StandAloneScripts _ =>
      err (.InvalidSource "LockTimeVerify only applies to transaction inputs")

/-- `OpCheckSequenceVerify`. -/
def op_check_sequence_verify (vm : TxScriptEngine) : Except EngineFault TxScriptEngine :=
  match vm.script_source with
  | .TxInput _ input _ _ _ _ => do
      let (stack_sequence, dstack) ← pop_u64 vm.dstack
      if stack_sequence &&& SEQUENCE_LOCK_TIME_DISABLED ≠ 0 then pure { vm with dstack }
      else if input.sequence &&& SEQUENCE_LOCK_TIME_DISABLED ≠ 0 then
        err (.UnsatisfiedLockTime ("transaction sequence has sequence locktime disabled " ++
          "bit set: " ++ hex_string input.sequence.toNat))
      else if stack_sequence &&& SEQUENCE_LOCK_TIME_MASK >
          input.sequence &&& SEQUENCE_LOCK_TIME_MASK then
        err (.UnsatisfiedLockTime ("locktime requirement not satisfied -- locktime is " ++
          "greater than the transaction locktime: " ++
          toString (stack_sequence &&& SEQUENCE_LOCK_TIME_MASK) ++ " > " ++
          toString (input.sequence &&& SEQUENCE_LOCK_TIME_MASK)))
      else pure { vm with dstack }
  | .StandAloneScripts _ =>
      err (.InvalidSource "LockTimeVerify only applies to transaction inputs")

/-! ## The opcode table -/

/-- What an opcode does. -/
inductive Instr
  | OpFalse
  /-- `OpData1..75`, `OpPushData1/2/4`: push the opcode's data. -/
  | push_data
  | Op1Negate
  /-- `OpTrue..Op16`: push the number. -/
  | small_int (k : ℕ)
  /-- `OpReserved`, `OpVer`, `OpVerIf`, `OpVerNotIf`, `OpReserved1/2`. -/
  | reserved
  /-- The splice, bitwise and multiplicative opcodes. -/
  | disabled
  /-- `OpUnknown*` and the template opcodes. -/
  | invalid
  | OpNop
  | OpIf
  | OpNotIf
  | OpElse
  | OpEndIf
  | OpVerify
  | OpReturn
  | OpToAltStack
  | OpFromAltStack
  | drop_items (n : ℕ)
  | dup_items (n : ℕ)
  | over_items (n : ℕ)
  | rot_items (n : ℕ)
  | swap_items (n : ℕ)
  | OpIfDup
  | OpDepth
  | OpNip
  | OpPick
  | OpRoll
  | OpTuck
  | OpSize
  | OpEqual
  | OpEqualVerify
  | unary (op : UnaryOp)
  | binary (op : BinaryOp)
  | OpNumEqualVerify
  | OpWithin
  | OpSHA256
  | OpBlake2b
  /-- `OpCheckSig` and `OpCheckSigECDSA`. -/
  | check_sig (ecdsa : Bool)
  | OpCheckSigVerify
  /-- `OpCheckMultiSig` and `OpCheckMultiSigECDSA`. -/
  | check_multisig (ecdsa : Bool)
  | OpCheckMultiSigVerify
  | OpCheckLockTimeVerify
  | OpCheckSequenceVerify

/-- `opcode_list!`: the instruction of every opcode byte. -/
def decode (value : UInt8) : Instr :=
  if value = OpFalse then .OpFalse
  else if value ≤ OpPushData4 then .push_data
  else if OpTrue ≤ value ∧ value ≤ Op16 then .small_int (value.toNat - 0x50)
  else
    match value with
    | 0x4f => .Op1Negate
    | 0x50 => .reserved
    | 0x61 => .OpNop
    | 0x62 => .reserved
    | 0x63 => .OpIf
    | 0x64 => .OpNotIf
    | 0x65 => .reserved
    | 0x66 => .reserved
    | 0x67 => .OpElse
    | 0x68 => .OpEndIf
    | 0x69 => .OpVerify
    | 0x6a => .OpReturn
    | 0x6b => .OpToAltStack
    | 0x6c => .OpFromAltStack
    | 0x6d => .drop_items 2
    | 0x6e => .dup_items 2
    | 0x6f => .dup_items 3
    | 0x70 => .over_items 2
    | 0x71 => .rot_items 2
    | 0x72 => .swap_items 2
    | 0x73 => .OpIfDup
    | 0x74 => .OpDepth
    | 0x75 => .drop_items 1
    | 0x76 => .dup_items 1
    | 0x77 => .OpNip
    | 0x78 => .over_items 1
    | 0x79 => .OpPick
    | 0x7a => .OpRoll
    | 0x7b => .rot_items 1
    | 0x7c => .swap_items 1
    | 0x7d => .OpTuck
    | 0x7e => .disabled
    | 0x7f => .disabled
    | 0x80 => .disabled
    | 0x81 => .disabled
    | 0x82 => .OpSize
    | 0x83 => .disabled
    | 0x84 => .disabled
    | 0x85 => .disabled
    | 0x86 => .disabled
    | 0x87 => .OpEqual
    | 0x88 => .OpEqualVerify
    | 0x89 => .reserved
    | 0x8a => .reserved
    | 0x8b => .unary .Op1Add
    | 0x8c => .unary .Op1Sub
    | 0x8d => .disabled
    | 0x8e => .disabled
    | 0x8f => .unary .OpNegate
    | 0x90 => .unary .OpAbs
    | 0x91 => .unary .OpNot
    | 0x92 => .unary .Op0NotEqual
    | 0x93 => .binary .OpAdd
    | 0x94 => .binary .OpSub
    | 0x95 => .disabled
    | 0x96 => .disabled
    | 0x97 => .disabled
    | 0x98 => .disabled
    | 0x99 => .disabled
    | 0x9a => .binary .OpBoolAnd
    | 0x9b => .binary .OpBoolOr
    | 0x9c => .binary .OpNumEqual
    | 0x9d => .OpNumEqualVerify
    | 0x9e => .binary .OpNumNotEqual
    | 0x9f => .binary .OpLessThan
    | 0xa0 => .binary .OpGreaterThan
    | 0xa1 => .binary .OpLessThanOrEqual
    | 0xa2 => .binary .OpGreaterThanOrEqual
    | 0xa3 => .binary .OpMin
    | 0xa4 => .binary .OpMax
    | 0xa5 => .OpWithin
    | 0xa8 => .OpSHA256
    | 0xa9 => .check_multisig true
    | 0xaa => .OpBlake2b
    | 0xab => .check_sig true
    | 0xac => .check_sig false
    | 0xad => .OpCheckSigVerify
    | 0xae => .check_multisig false
    | 0xaf => .OpCheckMultiSigVerify
    | 0xb0 => .OpCheckLockTimeVerify
    | 0xb1 => .OpCheckSequenceVerify
    | _ => .invalid

/-- The body of an instruction (`OpCodeExecution::execute`). -/
def Instr.run (c : Crypto) (op : Opcode) (vm : TxScriptEngine) :
    Instr → Except EngineFault TxScriptEngine
  | .OpFalse => with_dstack vm fun d => pure (d ++ [[]])
  | .push_data => with_dstack vm fun d => pure (d ++ [op.data])
  | .Op1Negate => with_dstack vm (push_number (-1))
  | .small_int k => with_dstack vm (push_number k)
  | .reserved => err (.OpcodeReserved op)
  | .disabled => err (.OpcodeDisabled op)
  | .invalid => err (.InvalidOpcode op)
  | .OpNop => pure vm
  | .OpIf => op_if false vm
  | .OpNotIf => op_if true vm
  | .OpElse => op_else vm
  | .OpEndIf => op_end_if vm
  | .OpVerify => with_dstack vm pop_verify
  | .OpReturn => err .EarlyReturn
  | .OpToAltStack => op_to_alt_stack vm
  | .OpFromAltStack => op_from_alt_stack vm
  | .drop_items n => with_dstack vm (KashScript.drop_items n)
  | .dup_items n => with_dstack vm (KashScript.dup_items n)
  | .over_items n => with_dstack vm (KashScript.over_items n)
  | .rot_items n => with_dstack vm (KashScript.rot_items n)
  | .swap_items n => with_dstack vm (KashScript.swap_items n)
  | .OpIfDup => with_dstack vm Exec.OpIfDup
  | .OpDepth => with_dstack vm fun d => push_number d.length d
  | .OpNip => with_dstack vm Exec.OpNip
  | .OpPick => with_dstack vm Exec.OpPick
  | .OpRoll => with_dstack vm Exec.OpRoll
  | .OpTuck => with_dstack vm Exec.OpTuck
  | .OpSize => with_dstack vm Exec.OpSize
  | .OpEqual => with_dstack vm Exec.OpEqual
  | .OpEqualVerify => with_dstack vm Exec.OpEqualVerify
  | .unary u => with_dstack vm (Exec.unary u)
  | .binary b => with_dstack vm (Exec.binary b)
  | .OpNumEqualVerify => with_dstack vm Exec.OpNumEqualVerify
  | .OpWithin => with_dstack vm Exec.OpWithin
  | .OpSHA256 => with_dstack vm (Exec.hash_top c.sha256)
  | .OpBlake2b => with_dstack vm (Exec.hash_top c.blake2b)
  | .check_sig ecdsa => op_check_sig c ecdsa vm
  | .OpCheckSigVerify => do
      let vm ← op_check_sig c false vm
      with_dstack vm pop_verify
  | .check_multisig ecdsa => op_check_multisig_schnorr_or_ecdsa c ecdsa vm
  | .OpCheckMultiSigVerify => do
      let vm ← op_check_multisig_schnorr_or_ecdsa c false vm
      with_dstack vm pop_verify
  | .OpCheckLockTimeVerify => op_check_lock_time_verify vm
  | .OpCheckSequenceVerify => op_check_sequence_verify vm

/-- `execute` of an opcode. -/
def Opcode.execute (c : Crypto) (op : Opcode) (vm : TxScriptEngine) :
    Except EngineFault TxScriptEngine :=
  (decode op.value).run c op vm

/-! ## Running scripts -/

/-- The first part of `execute_opcode`: an opcode that is not a push counts as an
    operation; a push may not carry more than `MAX_SCRIPT_ELEMENT_SIZE` bytes. -/
def count_opcode (vm : TxScriptEngine) (opcode : Opcode) : Except EngineFault TxScriptEngine :=
  if !opcode.is_push_opcode then do
    let num_ops ← to_i32 (vm.num_ops + 1)
    if num_ops > MAX_OPS_PER_SCRIPT then err (.TooManyOperations MAX_OPS_PER_SCRIPT)
    else pure { vm with num_ops }
  else if opcode.len > MAX_SCRIPT_ELEMENT_SIZE then
    err (.ElementTooBig opcode.len MAX_SCRIPT_ELEMENT_SIZE)
  else pure vm

/-- `execute_opcode`: run the opcode when the branch is taken or the opcode is a
    conditional; a push is checked to be minimal first. -/
def execute_opcode (c : Crypto) (vm : TxScriptEngine) (opcode : Opcode) :
    Except EngineFault TxScriptEngine := do
  let vm ← count_opcode vm opcode
  if vm.is_executing || opcode.is_conditional then
    if 0 < opcode.value ∧ opcode.value ≤ 0x4e then
      match opcode.check_minimal_data_push with
      | .error e => err e
      | .ok () => opcode.execute c vm
    else opcode.execute c vm
  else pure vm

/-- The combined size of the two stacks. -/
def TxScriptEngine.combined_size (vm : TxScriptEngine) : ℕ := vm.astack.length + vm.dstack.length

/-- One iteration of the `try_for_each` of `execute_script`. -/
def script_step (c : Crypto) (verify_only_push : Bool) (vm : TxScriptEngine)
    (opcode : Except TxScriptError Opcode) : Except EngineFault TxScriptEngine :=
  match opcode with
  | .error e => err e
  | .ok opcode =>
      if opcode.is_disabled then err (.OpcodeDisabled opcode)
      else if opcode.always_illegal then err (.OpcodeReserved opcode)
      else if verify_only_push && !opcode.is_push_opcode then err .SignatureScriptNotPushOnly
      else do
        let vm ← execute_opcode c vm opcode
        if vm.combined_size > MAX_STACK_SIZE then
          err (.StackSizeExceeded vm.combined_size MAX_STACK_SIZE)
        else pure vm

/-- `execute_script`: no `OpIf` may stay open; the alt stack and the operation
    count do not outlive the script. -/
def execute_script (c : Crypto) (vm : TxScriptEngine) (script : Bytes)
    (verify_only_push : Bool) : Except EngineFault TxScriptEngine :=
  match (parse_script script).foldlM (script_step c verify_only_push) vm with
  | .error e => .error e
  | .ok vm =>
      if !vm.cond_stack.isEmpty then err .ErrUnbalancedConditional
      else pure { vm with astack := [], num_ops := 0 }

/-- `check_error_condition`: on the final check the stack must hold one element;
    the top element must be true. -/
def check_error_condition (vm : TxScriptEngine) (final_script : Bool) :
    Except EngineFault TxScriptEngine := do
  if final_script && vm.dstack.length > 1 then err (.CleanStack (vm.dstack.length - 1))
  else if final_script && vm.dstack.isEmpty then err .EmptyStack
  else
    let (items, dstack) ← pop_items 1 read_bool vm.dstack
    let v ← items1 items
    if v then pure { vm with dstack } else err .EvalFalse

/-- The scripts `execute` runs and whether the entry is P2SH; `none` when the
    script public key has a version above `MAX_SCRIPT_PUBLIC_KEY_VERSION`, which
    `execute` accepts without running a script. -/
def TxScriptEngine.scripts (vm : TxScriptEngine) : Option (List Bytes × Bool) :=
  match vm.script_source with
  | .TxInput _ input _ utxo_entry is_p2sh _ =>
      if utxo_entry.script_public_key.version > MAX_SCRIPT_PUBLIC_KEY_VERSION then none
      else some ([input.signature_script, utxo_entry.script_public_key.script], is_p2sh)
  | .StandAloneScripts scripts => some (scripts, false)

/-- The engine runs a transaction input. -/
def ScriptSource.is_tx_input : ScriptSource → Bool
  | .TxInput .. => true
  | .StandAloneScripts _ => false

/-- One iteration of the `try_for_each` over the nonempty scripts of `execute`: the
    signature script of an input may only push; the stack before a P2SH script
    public key is saved. -/
def run_script (c : Crypto) (is_p2sh : Bool) (acc : TxScriptEngine × Option Stack)
    (entry : Bytes × ℕ) : Except EngineFault (TxScriptEngine × Option Stack) :=
  let (vm, saved_stack) := acc
  let (s, idx) := entry
  let verify_only_push := idx == 0 && vm.script_source.is_tx_input
  let saved_stack := if is_p2sh && idx == 1 then some vm.dstack else saved_stack
  do
    let vm ← execute_script c vm s verify_only_push
    pure (vm, saved_stack)

/-- The body of `execute` up to its final `check_error_condition(true)`. -/
def run_scripts (c : Crypto) (vm : TxScriptEngine) (scripts : List Bytes) (is_p2sh : Bool) :
    Except EngineFault TxScriptEngine :=
  if scripts.isEmpty then err .NoScripts
  else if scripts.all (·.isEmpty) then err .EvalFalse
  else
    match scripts.find? (·.length > MAX_SCRIPTS_SIZE) with
    | some s => err (.ScriptSize s.length MAX_SCRIPTS_SIZE)
    | none => do
        let (vm, saved_stack) ←
          (scripts.zipIdx.filter (fun e => !e.1.isEmpty)).foldlM (run_script c is_p2sh)
            (vm, none)
        if is_p2sh then
          let vm ← check_error_condition vm false
          match saved_stack with
          | none => err .EmptyStack
          | some dstack =>
              match vec_pop dstack with
              | none => err .EmptyStack
              | some (script, dstack) => execute_script c { vm with dstack } script false
        else pure vm

/-- `execute`. -/
def execute (c : Crypto) (vm : TxScriptEngine) : Except EngineFault TxScriptEngine :=
  match vm.scripts with
  | none => pure vm
  | some (scripts, is_p2sh) => do
      let vm ← run_scripts c vm scripts is_p2sh
      check_error_condition vm true

/-! ## Counting signature operations (`get_sig_op_count`) -/

/-- What one opcode adds to the signature-operation count, given the opcode before
    it (`none` for the first): one for a single-signature check, and for a
    multisig check the small number pushed just before it, or
    `MAX_PUB_KEYS_PER_MUTLTISIG`. The small number goes through `to_small_int`. -/
def sig_op_weight (prev : Option Opcode) (op : Opcode) : Except PanicSite UInt64 :=
  if op.value = OpCheckSig ∨ op.value = OpCheckSigVerify ∨ op.value = OpCheckSigECDSA then .ok 1
  else if op.value = OpCheckMultiSig ∨ op.value = OpCheckMultiSigVerify ∨
      op.value = OpCheckMultiSigECDSA then
    match prev with
    | none => .ok MAX_PUB_KEYS_PER_MUTLTISIG.toNat.toUInt64
    | some prev =>
        if OpTrue ≤ prev.value ∧ prev.value ≤ Op16 then
          (to_small_int prev).map UInt8.toUInt64
        else .ok MAX_PUB_KEYS_PER_MUTLTISIG.toNat.toUInt64
  else .ok 0

/-- The loop of `get_sig_op_count_by_opcodes` from the opcode after `prev` with the
    count `num_sigs`: it returns the count at the first opcode that failed to
    parse. The `expect` on the previous opcode cannot fail, since it parsed. -/
def sig_op_count_from (prev : Option Opcode) (num_sigs : UInt64) :
    List (Except TxScriptError Opcode) → Except PanicSite UInt64
  | [] => .ok num_sigs
  | .error _ :: _ => .ok num_sigs
  | .ok op :: rest => do
      let weight ← sig_op_weight prev op
      let num_sigs ← u64_add num_sigs weight
      sig_op_count_from (some op) num_sigs rest

/-- `get_sig_op_count_by_opcodes`. -/
def get_sig_op_count_by_opcodes (opcodes : List (Except TxScriptError Opcode)) :
    Except PanicSite UInt64 :=
  sig_op_count_from none 0 opcodes

/-- The signature script of a P2SH spend counts when it parses and only pushes. -/
def Opcode.parsed_push : Except TxScriptError Opcode → Bool
  | .ok op => op.is_push_opcode
  | .error _ => false

/-- `get_sig_op_count`: the signature operations of the script public key, or for
    a P2SH entry those of the redeem script the signature script pushes last. -/
def get_sig_op_count (signature_script : Bytes) (prev_script_public_key : ScriptPublicKey) :
    Except PanicSite UInt64 :=
  let is_p2sh := is_pay_to_script_hash prev_script_public_key.script
  let script_pub_key_ops := parse_script prev_script_public_key.script
  if !is_p2sh then get_sig_op_count_by_opcodes script_pub_key_ops
  else
    let signature_script_ops := parse_script signature_script
    if signature_script_ops.isEmpty || !signature_script_ops.all Opcode.parsed_push then .ok 0
    else
      match signature_script_ops.getLast? with
      | some (.ok last) => get_sig_op_count_by_opcodes (parse_script last.get_data)
      | _ => .error .unwrap_none

end KashScript
