import Kash.Script.Engine
import Kash.HashingProofs

/-! # The script engine does not panic

    Every place where the Rust engine could panic is a `PanicSite` of the model,
    and this file shows that none is reached from an engine whose operation count is
    within `MAX_OPS_PER_SCRIPT` (as every engine the constructors build is):

    * each instruction, from any data stack (`Instr.run_safe`): the guards in front
      of every `Vec` operation keep it in range, numbers read from the stack have at
      most four bytes so no `i64` operation overflows and `i64::MIN` is never
      written, and the index of a transaction input is in range;
    * each opcode step, then each script (`execute_script_safe`, by the run rule of
      `ExceptLoops`), then `execute` (`execute_safe`).

    It then says what a successful `execute` means (`execute_ok`) and that every
    opcode of a successful script leaves at most `MAX_STACK_SIZE` elements on the
    two stacks (`execute_script_stack_bound`). -/

namespace KashScript

open ExceptLoops KashTx KashHashing codes

/-- Between two opcodes the operation count is within its bound. -/
def TxScriptEngine.Inv (vm : TxScriptEngine) : Prop :=
  0 ≤ vm.num_ops ∧ vm.num_ops ≤ MAX_OPS_PER_SCRIPT

theorem inv_of_num_ops_zero {vm : TxScriptEngine} (h : vm.num_ops = 0) : vm.Inv := by
  unfold TxScriptEngine.Inv MAX_OPS_PER_SCRIPT
  omega

/-- Every engine `from_transaction_input` builds starts with no operation counted. -/
theorem from_transaction_input_inv {tx : PopulatedTransaction} {input : TransactionInput}
    {input_idx : ℕ} {utxo_entry : UtxoEntry} {reused_values : SigHashReusedValues}
    {vm : TxScriptEngine}
    (h : from_transaction_input tx input input_idx utxo_entry reused_values = .ok vm) : vm.Inv := by
  unfold from_transaction_input at h
  split at h
  · cases h
    exact inv_of_num_ops_zero rfl
  · cases h

/-! ## Small pieces -/

section Pieces

variable {α : Type}

theorem items1_safe {l : List α} (h : l.length = 1) : Safe (fun a => l = [a]) (items1 l) := by
  obtain ⟨a, rfl⟩ := List.length_eq_one_iff.mp h
  exact rfl

theorem items2_safe {l : List α} (h : l.length = 2) :
    Safe (fun p => l = [p.1, p.2]) (items2 l) := by
  obtain ⟨a, b, rfl⟩ := List.length_eq_two.mp h
  exact rfl

theorem items3_safe {l : List α} (h : l.length = 3) :
    Safe (fun p => l = [p.1, p.2.1, p.2.2]) (items3 l) := by
  obtain ⟨a, b, c, rfl⟩ := List.length_eq_three.mp h
  exact rfl

@[simp] theorem safe_err {P : α → Prop} (e : TxScriptError) : Safe P (err e) :=
  safe_script_error e

end Pieces

/-- Pushing a number other than `i64::MIN` does not panic. -/
theorem push_number_safe {n : ℤ} (h : n ≠ I64_MIN) (d : Stack) :
    Safe (fun _ => True) (push_number n d) :=
  (i64_serialize_safe h).bind fun _ _ => trivial

theorem push_number_nonneg_safe {n : ℤ} (h : 0 ≤ n) (d : Stack) :
    Safe (fun _ => True) (push_number n d) :=
  push_number_safe (by unfold I64_MIN; omega) d

theorem pop_verify_safe (d : Stack) : Safe (fun _ => True) (pop_verify d) := by
  unfold pop_verify
  refine (pop_items_safe 1 read_bool d).bind ?_
  rintro ⟨items, d'⟩ ⟨hlen, -⟩
  refine (items1_safe hlen).bind fun valid _ => ?_
  show Safe _ (if valid then pure d' else err .VerifyError)
  split
  · trivial
  · exact safe_err _

section Engine

variable {vm : TxScriptEngine}

theorem with_dstack_safe {f : Stack → Except EngineFault Stack} (hinv : vm.Inv)
    (h : Safe (fun _ => True) (f vm.dstack)) : Safe TxScriptEngine.Inv (with_dstack vm f) :=
  h.bind fun _ _ => hinv

/-! ## The bodies on the data stack -/

theorem OpIfDup_safe (d : Stack) : Safe (fun _ => True) (Exec.OpIfDup d) := by
  unfold Exec.OpIfDup
  refine (peek_raw_safe 1 d).bind fun items hlen => ?_
  refine (items1_safe hlen).bind fun result _ => ?_
  show Safe _ (if bool_deserialize result then pure (d ++ [result]) else pure d)
  split <;> trivial

/-- `OpNip` removes below the top only when there are two elements. -/
theorem OpNip_safe (d : Stack) : Safe (fun _ => True) (Exec.OpNip d) := by
  unfold Exec.OpNip
  split
  · rename_i hlen
    rw [vec_remove_safe d (by omega)]
    trivial
  · exact safe_err _

/-- **PICK IS IN RANGE**: the location checked against the stack's length. -/
theorem OpPick_safe (d : Stack) : Safe (fun _ => True) (Exec.OpPick d) := by
  unfold Exec.OpPick
  refine (pop_items_safe 1 i32_deserialize d).bind ?_
  rintro ⟨items, d'⟩ ⟨hlen, -⟩
  refine (items1_safe hlen).bind fun loc _ => ?_
  show Safe _ (if loc < 0 ∨ loc.toNat ≥ d'.length then _ else _)
  split
  · exact safe_err _
  · rename_i hloc
    rw [vec_index_safe d' (by omega)]
    trivial

/-- **ROLL IS IN RANGE**. -/
theorem OpRoll_safe (d : Stack) : Safe (fun _ => True) (Exec.OpRoll d) := by
  unfold Exec.OpRoll
  refine (pop_items_safe 1 i32_deserialize d).bind ?_
  rintro ⟨items, d'⟩ ⟨hlen, -⟩
  refine (items1_safe hlen).bind fun loc _ => ?_
  show Safe _ (if loc < 0 ∨ loc.toNat ≥ d'.length then _ else _)
  split
  · exact safe_err _
  · rename_i hloc
    rw [vec_remove_safe d' (by omega)]
    trivial

/-- **TUCK IS IN RANGE**: two elements, so a last one and a place below it. -/
theorem OpTuck_safe (d : Stack) : Safe (fun _ => True) (Exec.OpTuck d) := by
  unfold Exec.OpTuck
  split
  · rename_i hlen
    have hne : d ≠ [] := List.ne_nil_of_length_pos (by omega)
    rw [List.getLast?_eq_some_getLast hne]
    dsimp only
    rw [vec_insert_safe d (Nat.sub_le _ _)]
    trivial
  · exact safe_err _

theorem OpSize_safe (d : Stack) : Safe (fun _ => True) (Exec.OpSize d) := by
  unfold Exec.OpSize
  split
  · split
    · exact push_number_nonneg_safe (Int.natCast_nonneg _) d
    · exact safe_err _
  · exact safe_err _

/-- The two elements `OpEqual` and `OpEqualVerify` split off are indexed in range. -/
theorem split_pair {d : Stack} (hlen : d.length ≥ 2) :
    ∃ a b, split_off d (d.length - 2) = .ok (d.take (d.length - 2), [a, b]) := by
  rw [split_off_safe d (Nat.sub_le _ _)]
  have h2 : (d.drop (d.length - 2)).length = 2 := by
    rw [List.length_drop]
    omega
  obtain ⟨a, b, hab⟩ := List.length_eq_two.mp h2
  exact ⟨a, b, by rw [hab]⟩

theorem OpEqual_safe (d : Stack) : Safe (fun _ => True) (Exec.OpEqual d) := by
  unfold Exec.OpEqual
  split
  · rename_i hlen
    obtain ⟨a, b, h⟩ := split_pair hlen
    rw [h]
    trivial
  · exact safe_err _

theorem OpEqualVerify_safe (d : Stack) : Safe (fun _ => True) (Exec.OpEqualVerify d) := by
  unfold Exec.OpEqualVerify
  split
  · rename_i hlen
    obtain ⟨a, b, h⟩ := split_pair hlen
    rw [h]
    show Safe _ (if a = b then _ else _)
    split
    · trivial
    · exact safe_err _
  · exact safe_err _

/-! ## Numeric opcodes -/

/-- Every numeric opcode of one operand maps a number of at most four bytes into
    the range of `i64`, strictly above `i64::MIN`. -/
theorem UnaryOp.eval_bounds (op : UnaryOp) {v : ℤ} (h₁ : -2 ^ 31 < v) (h₂ : v < 2 ^ 31) :
    I64_MIN < op.eval v ∧ op.eval v ≤ I64_MAX := by
  unfold I64_MIN I64_MAX
  cases op with
  | Op1Add | Op1Sub | OpNegate =>
      simp only [UnaryOp.eval]
      constructor <;> omega
  | OpAbs =>
      simp only [UnaryOp.eval]
      rcases abs_cases v with ⟨habs, -⟩ | ⟨habs, -⟩ <;> rw [habs] <;> constructor <;> omega
  | OpNot | Op0NotEqual =>
      simp only [UnaryOp.eval]
      split <;> constructor <;> omega

/-- Every numeric opcode of two operands does the same. -/
theorem BinaryOp.eval_bounds (op : BinaryOp) {a b : ℤ} (ha₁ : -2 ^ 31 < a) (ha₂ : a < 2 ^ 31)
    (hb₁ : -2 ^ 31 < b) (hb₂ : b < 2 ^ 31) : I64_MIN < op.eval a b ∧ op.eval a b ≤ I64_MAX := by
  unfold I64_MIN I64_MAX
  cases op with
  | OpAdd | OpSub =>
      simp only [BinaryOp.eval]
      constructor <;> omega
  | OpMin | OpMax =>
      simp only [BinaryOp.eval]
      constructor <;> omega
  | OpBoolAnd | OpBoolOr | OpNumEqual | OpNumNotEqual | OpLessThan | OpGreaterThan
  | OpLessThanOrEqual | OpGreaterThanOrEqual =>
      simp only [BinaryOp.eval]
      split <;> constructor <;> omega

/-- **NO OVERFLOW**: a numeric opcode of one operand does not panic. -/
theorem unary_safe (op : UnaryOp) (d : Stack) : Safe (fun _ => True) (Exec.unary op d) := by
  unfold Exec.unary
  refine (pop_items_safe 1 i64_deserialize d).bind ?_
  rintro ⟨items, d'⟩ ⟨hlen, hread⟩
  refine (items1_safe hlen).bind fun value hitems => ?_
  obtain ⟨v, hv⟩ := hread value (by rw [hitems]; exact List.mem_singleton.mpr rfl)
  obtain ⟨hlo, hhi⟩ := op.eval_bounds (i64_deserialize_bounds hv).1 (i64_deserialize_bounds hv).2
  show Safe _ (to_i64 (op.eval value) >>= fun result => push_number result d')
  rw [to_i64_of_bounds hlo.le hhi]
  exact push_number_safe hlo.ne' d'

/-- **NO OVERFLOW**: a numeric opcode of two operands does not panic. -/
theorem binary_safe (op : BinaryOp) (d : Stack) : Safe (fun _ => True) (Exec.binary op d) := by
  unfold Exec.binary
  refine (pop_items_safe 2 i64_deserialize d).bind ?_
  rintro ⟨items, d'⟩ ⟨hlen, hread⟩
  refine (items2_safe hlen).bind ?_
  rintro ⟨a, b⟩ hitems
  obtain ⟨va, hva⟩ := hread a (by rw [hitems]; simp)
  obtain ⟨vb, hvb⟩ := hread b (by rw [hitems]; simp)
  obtain ⟨hlo, hhi⟩ := op.eval_bounds (i64_deserialize_bounds hva).1
    (i64_deserialize_bounds hva).2 (i64_deserialize_bounds hvb).1 (i64_deserialize_bounds hvb).2
  show Safe _ (to_i64 (op.eval a b) >>= fun result => push_number result d')
  rw [to_i64_of_bounds hlo.le hhi]
  exact push_number_safe hlo.ne' d'

theorem OpNumEqualVerify_safe (d : Stack) : Safe (fun _ => True) (Exec.OpNumEqualVerify d) := by
  unfold Exec.OpNumEqualVerify
  refine (pop_items_safe 2 i64_deserialize d).bind ?_
  rintro ⟨items, d'⟩ ⟨hlen, -⟩
  refine (items2_safe hlen).bind ?_
  rintro ⟨a, b⟩ -
  show Safe _ (if a = b then pure d' else err .VerifyError)
  split
  · trivial
  · exact safe_err _

theorem OpWithin_safe (d : Stack) : Safe (fun _ => True) (Exec.OpWithin d) := by
  unfold Exec.OpWithin
  refine (pop_items_safe 3 i64_deserialize d).bind ?_
  rintro ⟨items, d'⟩ ⟨hlen, -⟩
  refine (items3_safe hlen).bind ?_
  rintro ⟨x, l, u⟩ -
  show Safe _ (push_number (if x ≥ l ∧ x < u then 1 else 0) d')
  exact push_number_nonneg_safe (by split <;> omega) d'

theorem hash_top_safe (hash : Bytes → Bytes) (d : Stack) :
    Safe (fun _ => True) (Exec.hash_top hash d) := by
  unfold Exec.hash_top
  refine (pop_raw_safe 1 d).bind ?_
  rintro ⟨items, d'⟩ ⟨hlen, -⟩
  exact (items1_safe hlen).bind fun _ _ => trivial

/-! ## Conditionals and the alt stack -/

theorem op_if_safe (negate : Bool) (hinv : vm.Inv) : Safe TxScriptEngine.Inv (op_if negate vm) := by
  unfold op_if
  refine Holds.bind (P := fun _ => True) ?_ ?_
  rotate_left
  · rintro ⟨cond, dstack⟩ -
    exact hinv
  unfold op_if_cond
  split
  · split
    · exact safe_err _
    · split
      · exact safe_err _
      · split
        · trivial
        · exact safe_err _
        · trivial
  · trivial

theorem op_else_safe (hinv : vm.Inv) : Safe TxScriptEngine.Inv (op_else vm) := by
  unfold op_else
  split
  · exact hinv
  · exact safe_err _

theorem op_end_if_safe (hinv : vm.Inv) : Safe TxScriptEngine.Inv (op_end_if vm) := by
  unfold op_end_if
  split
  · exact hinv
  · exact safe_err _

theorem op_to_alt_stack_safe (hinv : vm.Inv) : Safe TxScriptEngine.Inv (op_to_alt_stack vm) := by
  unfold op_to_alt_stack
  refine (pop_raw_safe 1 vm.dstack).bind ?_
  rintro ⟨items, d'⟩ ⟨hlen, -⟩
  exact (items1_safe hlen).bind fun _ _ => hinv

theorem op_from_alt_stack_safe (hinv : vm.Inv) :
    Safe TxScriptEngine.Inv (op_from_alt_stack vm) := by
  unfold op_from_alt_stack
  split
  · exact hinv
  · exact safe_err _

/-! ## Signatures -/

/-- **THE SIGNATURE HASH IS COMPUTED**: a signature check does not panic when the
    signature hash of an input in range exists. -/
theorem check_signature_with_safe {check_key : Bytes → Except TxScriptError Unit}
    {key_from_slice sig_from_slice : Bytes → Bool}
    {signature_hash : PopulatedTransaction → ℕ → SigHashType → SigHashReusedValues →
      Option (Hash × SigHashReusedValues)} {verify : Bytes → Hash → Bytes → Bool}
    (hsome : ∀ tx id hash_type reused_values, id < tx.tx.inputs.length →
      (signature_hash tx id hash_type reused_values).isSome)
    (hinv : vm.Inv) (hash_type : SigHashType) (key sig : Bytes) :
    Safe (fun r => r.2.Inv)
      (check_signature_with check_key key_from_slice sig_from_slice signature_hash verify vm
        hash_type key sig) := by
  unfold check_signature_with
  split
  · rename_i tx _ id _ _ hid _
    split
    · exact safe_err _
    · split
      · exact safe_err _
      · split
        · exact safe_err _
        · split
          · exact safe_err _
          · split
            · rename_i hnone
              have := hsome tx id hash_type vm.reused_values hid
              rw [hnone] at this
              cases this
            · exact hinv
  · exact safe_err _

theorem check_signature_safe (c : Crypto) (ecdsa : Bool) (hinv : vm.Inv)
    (hash_type : SigHashType) (key sig : Bytes) :
    Safe (fun r => r.2.Inv) (check_signature c ecdsa vm hash_type key sig) := by
  unfold check_signature
  split
  · exact check_signature_with_safe
      (fun tx _ hash_type reused_values hid => calc_ecdsa_signature_hash_isSome
        c.TransactionSigningHash c.TransactionSigningHashECDSA tx hid hash_type reused_values)
      hinv hash_type key sig
  · exact check_signature_with_safe
      (fun tx _ hash_type reused_values hid => calc_schnorr_signature_hash_isSome
        c.TransactionSigningHash tx hid hash_type reused_values)
      hinv hash_type key sig

theorem op_check_sig_safe (c : Crypto) (ecdsa : Bool) (hinv : vm.Inv) :
    Safe TxScriptEngine.Inv (op_check_sig c ecdsa vm) := by
  unfold op_check_sig
  refine (pop_raw_safe 2 vm.dstack).bind ?_
  rintro ⟨items, d'⟩ ⟨hlen, -⟩
  refine (items2_safe hlen).bind ?_
  rintro ⟨sig, key⟩ -
  dsimp only
  split
  · split
    · exact safe_err _
    · refine (check_signature_safe c ecdsa ?_ _ key _).bind ?_
      · exact hinv
      rintro ⟨valid, vm'⟩ hvm'
      exact hvm'
  · exact hinv

/-- The inner loop of the multisig check does not panic while a signature is left
    to check: the count of remaining signatures does not underflow and is positive,
    so the loop stops before it runs out of keys. -/
theorem check_keys_safe (c : Crypto) (ecdsa : Bool) (hash_type : SigHashType)
    (signature : Bytes) {num_sigs sig_idx : ℕ} (hidx : sig_idx < num_sigs) :
    ∀ (pub_keys : List Bytes) (vm : TxScriptEngine), vm.Inv →
      Safe (fun r => r.2.Inv)
        (check_keys c ecdsa hash_type signature num_sigs sig_idx pub_keys vm) := by
  intro pub_keys
  induction pub_keys with
  | nil =>
      intro vm hinv
      rw [check_keys, usize_sub, if_pos hidx.le]
      show Safe _ (if ([] : List Bytes).length < num_sigs - sig_idx then _ else _)
      rw [if_pos (by simp; omega)]
      exact hinv
  | cons pub_key rest ih =>
      intro vm hinv
      rw [check_keys, usize_sub, if_pos hidx.le]
      show Safe _ (if (pub_key :: rest).length < num_sigs - sig_idx then _ else _)
      split
      · exact hinv
      · refine (check_signature_safe c ecdsa hinv hash_type pub_key signature).bind ?_
        rintro ⟨valid, vm'⟩ hvm'
        dsimp only
        split
        · exact hvm'
        · exact ih vm' hvm'

/-- The outer loop of the multisig check: `sig_idx` and the signatures left make up
    the `num_sigs` signatures. -/
theorem check_signatures_safe (c : Crypto) (ecdsa : Bool) (num_sigs : ℕ) :
    ∀ (signatures : List Bytes) (sig_idx : ℕ) (pub_keys : List Bytes) (vm : TxScriptEngine),
      sig_idx + signatures.length = num_sigs → vm.Inv →
      Safe (fun r => r.2.Inv) (check_signatures c ecdsa num_sigs sig_idx signatures pub_keys vm) := by
  intro signatures
  induction signatures with
  | nil =>
      intro sig_idx pub_keys vm _ hinv
      exact hinv
  | cons signature signatures ih =>
      intro sig_idx pub_keys vm hcount hinv
      have hidx : sig_idx < num_sigs := by
        rw [List.length_cons] at hcount
        omega
      rw [check_signatures]
      split
      · exact hinv
      · split
        · exact safe_err _
        · refine (check_keys_safe c ecdsa _ _ hidx pub_keys vm hinv).bind ?_
          rintro ⟨outcome, vm'⟩ hvm'
          dsimp only
          split
          · exact hvm'
          · exact ih (sig_idx + 1) _ vm' (by rw [List.length_cons] at hcount; omega) hvm'

/-- **MULTISIG DOES NOT PANIC**: the operation count stays in `i32` and within its
    bound, and both `split_off`s are guarded. -/
theorem op_check_multisig_safe (c : Crypto) (ecdsa : Bool) (hinv : vm.Inv) :
    Safe TxScriptEngine.Inv (op_check_multisig_schnorr_or_ecdsa c ecdsa vm) := by
  unfold op_check_multisig_schnorr_or_ecdsa
  refine (pop_items_safe 1 i32_deserialize vm.dstack).bind ?_
  rintro ⟨items, d⟩ ⟨hlen, -⟩
  refine (items1_safe hlen).bind fun num_keys _ => ?_
  show Safe _ (if num_keys < 0 then _ else _)
  split
  · exact safe_err _
  split
  · exact safe_err _
  rename_i hneg hmax
  have hops : I32_MIN ≤ vm.num_ops + num_keys ∧ vm.num_ops + num_keys ≤ I32_MAX := by
    unfold TxScriptEngine.Inv MAX_OPS_PER_SCRIPT at hinv
    unfold MAX_PUB_KEYS_PER_MUTLTISIG at hmax
    unfold I32_MIN I32_MAX
    constructor <;> omega
  show Safe _ (to_i32 (vm.num_ops + num_keys) >>= _)
  rw [to_i32_of_bounds hops.1 hops.2]
  show Safe _ (if vm.num_ops + num_keys > MAX_OPS_PER_SCRIPT then _ else _)
  split
  · exact safe_err _
  rename_i hbound
  split
  · exact safe_err _
  rename_i hkeys
  rw [split_off_safe d (Nat.sub_le _ _)]
  refine (pop_items_safe 1 i32_deserialize _).bind ?_
  rintro ⟨items, d'⟩ ⟨hlen', -⟩
  refine (items1_safe hlen').bind fun num_sigs _ => ?_
  show Safe _ (if num_sigs < 0 then _ else _)
  split
  · exact safe_err _
  split
  · exact safe_err _
  show Safe _ (if d'.length < num_sigs.toNat then _ else _)
  split
  · exact safe_err _
  rename_i hsigs
  rw [split_off_safe d' (Nat.sub_le _ _)]
  -- the signatures split off are exactly `num_sigs` of them
  have hcount : 0 + (d'.drop (d'.length - num_sigs.toNat)).length = num_sigs.toNat := by
    rw [List.length_drop]
    omega
  have hops' : 0 ≤ vm.num_ops + num_keys ∧ vm.num_ops + num_keys ≤ MAX_OPS_PER_SCRIPT := by
    unfold TxScriptEngine.Inv at hinv
    exact ⟨by omega, not_lt.mp hbound⟩
  refine (check_signatures_safe c ecdsa _ _ 0 _ _ hcount ?_).bind ?_
  · exact hops'
  rintro ⟨failed, vm'⟩ hvm'
  dsimp only
  split
  · exact safe_err _
  · exact hvm'

/-! ## Lock times -/

theorem pop_u64_safe (d : Stack) : Safe (fun _ => True) (pop_u64 d) := by
  unfold pop_u64
  refine (pop_raw_safe 1 d).bind ?_
  rintro ⟨items, d'⟩ ⟨hlen, -⟩
  refine (items1_safe hlen).bind fun bytes _ => ?_
  show Safe _ (if bytes.length > 8 then _ else _)
  split
  · exact safe_err _
  · rename_i hbytes
    -- `resize(8, 0)` leaves eight bytes
    have h8 : (bytes ++ List.replicate (8 - bytes.length) 0).length = 8 := by
      rw [List.length_append, List.length_replicate]
      omega
    rw [u64_from_le_bytes, if_pos h8]
    trivial

theorem op_check_lock_time_verify_safe (hinv : vm.Inv) :
    Safe TxScriptEngine.Inv (op_check_lock_time_verify vm) := by
  unfold op_check_lock_time_verify
  split
  · refine (pop_u64_safe vm.dstack).bind ?_
    rintro ⟨stack_lock_time, dstack⟩ -
    dsimp only
    split
    · exact safe_err _
    split
    · exact safe_err _
    split
    · exact safe_err _
    · exact hinv
  · exact safe_err _

theorem op_check_sequence_verify_safe (hinv : vm.Inv) :
    Safe TxScriptEngine.Inv (op_check_sequence_verify vm) := by
  unfold op_check_sequence_verify
  split
  · refine (pop_u64_safe vm.dstack).bind ?_
    rintro ⟨stack_sequence, dstack⟩ -
    dsimp only
    split
    · exact hinv
    split
    · exact safe_err _
    split
    · exact safe_err _
    · exact hinv
  · exact safe_err _

/-! ## Every instruction -/

/-- **NO INSTRUCTION PANICS**: from an engine within its operation count, every
    instruction returns an engine within it, or a script error. -/
theorem Instr.run_safe (c : Crypto) (op : Opcode) (hinv : vm.Inv) :
    ∀ i : Instr, Safe TxScriptEngine.Inv (i.run c op vm)
  | .OpFalse => @with_dstack_safe vm (fun d => pure (d ++ [[]])) hinv trivial
  | .push_data => @with_dstack_safe vm (fun d => pure (d ++ [op.data])) hinv trivial
  | .Op1Negate => with_dstack_safe hinv (push_number_safe (by unfold I64_MIN; omega) _)
  | .small_int _ => with_dstack_safe hinv (push_number_nonneg_safe (Int.natCast_nonneg _) _)
  | .reserved => safe_err _
  | .disabled => safe_err _
  | .invalid => safe_err _
  | .OpNop => hinv
  | .OpIf => op_if_safe false hinv
  | .OpNotIf => op_if_safe true hinv
  | .OpElse => op_else_safe hinv
  | .OpEndIf => op_end_if_safe hinv
  | .OpVerify => with_dstack_safe hinv (pop_verify_safe _)
  | .OpReturn => safe_err _
  | .OpToAltStack => op_to_alt_stack_safe hinv
  | .OpFromAltStack => op_from_alt_stack_safe hinv
  | .drop_items n => with_dstack_safe hinv (drop_items_safe n _)
  | .dup_items n => with_dstack_safe hinv (dup_items_safe n _)
  | .over_items n => with_dstack_safe hinv (over_items_safe n _)
  | .rot_items n => with_dstack_safe hinv (rot_items_safe n _)
  | .swap_items n => with_dstack_safe hinv (swap_items_safe n _)
  | .OpIfDup => with_dstack_safe hinv (OpIfDup_safe _)
  | .OpDepth => with_dstack_safe hinv (push_number_nonneg_safe (Int.natCast_nonneg _) _)
  | .OpNip => with_dstack_safe hinv (OpNip_safe _)
  | .OpPick => with_dstack_safe hinv (OpPick_safe _)
  | .OpRoll => with_dstack_safe hinv (OpRoll_safe _)
  | .OpTuck => with_dstack_safe hinv (OpTuck_safe _)
  | .OpSize => with_dstack_safe hinv (OpSize_safe _)
  | .OpEqual => with_dstack_safe hinv (OpEqual_safe _)
  | .OpEqualVerify => with_dstack_safe hinv (OpEqualVerify_safe _)
  | .unary u => with_dstack_safe hinv (unary_safe u _)
  | .binary b => with_dstack_safe hinv (binary_safe b _)
  | .OpNumEqualVerify => with_dstack_safe hinv (OpNumEqualVerify_safe _)
  | .OpWithin => with_dstack_safe hinv (OpWithin_safe _)
  | .OpSHA256 => with_dstack_safe hinv (hash_top_safe _ _)
  | .OpBlake2b => with_dstack_safe hinv (hash_top_safe _ _)
  | .check_sig ecdsa => op_check_sig_safe c ecdsa hinv
  | .OpCheckSigVerify =>
      (op_check_sig_safe c false hinv).bind fun _ h => with_dstack_safe h (pop_verify_safe _)
  | .check_multisig ecdsa => op_check_multisig_safe c ecdsa hinv
  | .OpCheckMultiSigVerify =>
      (op_check_multisig_safe c false hinv).bind fun _ h => with_dstack_safe h (pop_verify_safe _)
  | .OpCheckLockTimeVerify => op_check_lock_time_verify_safe hinv
  | .OpCheckSequenceVerify => op_check_sequence_verify_safe hinv

/-- The operation count of a counted opcode stays within its bound. -/
theorem execute_opcode_safe (c : Crypto) (opcode : Opcode) (hinv : vm.Inv) :
    Safe TxScriptEngine.Inv (execute_opcode c vm opcode) := by
  unfold execute_opcode
  refine Holds.bind (P := TxScriptEngine.Inv) ?_ fun vm' hvm' => ?_
  · unfold count_opcode
    split
    · have hops : I32_MIN ≤ vm.num_ops + 1 ∧ vm.num_ops + 1 ≤ I32_MAX := by
        unfold TxScriptEngine.Inv MAX_OPS_PER_SCRIPT at hinv
        unfold I32_MIN I32_MAX
        constructor <;> omega
      show Safe _ (to_i32 (vm.num_ops + 1) >>= _)
      rw [to_i32_of_bounds hops.1 hops.2]
      show Safe _ (if vm.num_ops + 1 > MAX_OPS_PER_SCRIPT then _ else _)
      split
      · exact safe_err _
      · rename_i hbound
        unfold TxScriptEngine.Inv at hinv
        show 0 ≤ vm.num_ops + 1 ∧ vm.num_ops + 1 ≤ MAX_OPS_PER_SCRIPT
        exact ⟨by omega, not_lt.mp hbound⟩
    · split
      · exact safe_err _
      · exact hinv
  · split
    · split
      · split
        · exact safe_err _
        · exact Instr.run_safe c opcode hvm' _
      · exact Instr.run_safe c opcode hvm' _
    · exact hvm'

/-- **STEP**: one iteration of `execute_script` keeps the invariant and does not
    panic. -/
theorem script_step_safe (c : Crypto) (verify_only_push : Bool)
    (opcode : Except TxScriptError Opcode) (hinv : vm.Inv) :
    Safe TxScriptEngine.Inv (script_step c verify_only_push vm opcode) := by
  unfold script_step
  split
  · exact safe_err _
  · split
    · exact safe_err _
    split
    · exact safe_err _
    split
    · exact safe_err _
    · refine (execute_opcode_safe c _ hinv).bind fun vm' hvm' => ?_
      split
      · exact safe_err _
      · exact hvm'

/-- **RUN**: a whole script does not panic, and leaves a fresh operation count. -/
theorem execute_script_safe (c : Crypto) (script : Bytes) (verify_only_push : Bool)
    (hinv : vm.Inv) : Safe TxScriptEngine.Inv (execute_script c vm script verify_only_push) := by
  have hrun := holds_foldlM (script_step c verify_only_push)
    (fun vm opcode h => script_step_safe c verify_only_push opcode h) (parse_script script) vm hinv
  unfold execute_script
  split
  · rename_i e he
    rw [he] at hrun
    exact hrun
  · split
    · exact safe_err _
    · exact inv_of_num_ops_zero rfl

/-- `check_error_condition` pops exactly one element. -/
theorem check_error_condition_safe (final_script : Bool) (hinv : vm.Inv) :
    Safe TxScriptEngine.Inv (check_error_condition vm final_script) := by
  unfold check_error_condition
  split
  · exact safe_err _
  split
  · exact safe_err _
  refine (pop_items_safe 1 read_bool vm.dstack).bind ?_
  rintro ⟨items, d⟩ ⟨hlen, -⟩
  refine (items1_safe hlen).bind fun v _ => ?_
  show Safe _ (if v then _ else _)
  split
  · exact hinv
  · exact safe_err _

theorem run_script_safe (c : Crypto) (is_p2sh : Bool) (acc : TxScriptEngine × Option Stack)
    (entry : Bytes × ℕ) (hinv : acc.1.Inv) :
    Safe (fun r => r.1.Inv) (run_script c is_p2sh acc entry) :=
  (execute_script_safe c _ _ hinv).bind fun _ h => h

theorem run_scripts_safe (c : Crypto) (scripts : List Bytes) (is_p2sh : Bool) (hinv : vm.Inv) :
    Safe TxScriptEngine.Inv (run_scripts c vm scripts is_p2sh) := by
  unfold run_scripts
  split
  · exact safe_err _
  split
  · exact safe_err _
  split
  · exact safe_err _
  · refine (holds_foldlM (R := fun r : TxScriptEngine × Option Stack => r.1.Inv)
      (run_script c is_p2sh) (fun acc entry h => run_script_safe c is_p2sh acc entry h) _
      (vm, none) hinv).bind ?_
    rintro ⟨vm', saved_stack⟩ hvm'
    dsimp only
    split
    · refine (check_error_condition_safe false hvm').bind fun vm'' hvm'' => ?_
      split
      · exact safe_err _
      · split
        · exact safe_err _
        · exact execute_script_safe c _ false hvm''
    · exact hvm'

/-- **EXECUTE DOES NOT PANIC**. -/
theorem execute_safe (c : Crypto) (hinv : vm.Inv) : Safe TxScriptEngine.Inv (execute c vm) := by
  unfold execute
  split
  · exact hinv
  · exact (run_scripts_safe c _ _ hinv).bind fun _ h => check_error_condition_safe true h

end Engine

/-! ## What a successful run means -/

/-- The final `check_error_condition` succeeds on a stack of one true element
    only. -/
theorem check_error_condition_final_ok {vm vm' : TxScriptEngine}
    (h : check_error_condition vm true = .ok vm') :
    ∃ v, vm.dstack = [v] ∧ bool_deserialize v = true := by
  unfold check_error_condition at h
  split at h
  · cases h
  split at h
  · cases h
  rename_i hmore hempty
  obtain ⟨⟨items, dstack⟩, hpop, h⟩ := (bind_eq_ok _ _ _).mp h
  obtain ⟨raw, hs, hlen, hmap⟩ := pop_items_eq_ok hpop
  obtain ⟨x, rfl⟩ := List.length_eq_one_iff.mp hlen
  -- at most one element, so the popped one is all there was
  have hd : dstack = [] := by
    have hl := congrArg List.length hs
    rw [List.length_append, List.length_singleton] at hl
    have hle : ¬ vm.dstack.length > 1 := by simpa using hmore
    exact List.eq_nil_of_length_eq_zero (by omega)
  subst hd
  have hitems : items = [bool_deserialize x] := by
    have hread : [x].mapM read_bool = .ok [bool_deserialize x] := rfl
    rw [hread] at hmap
    cases hmap
    rfl
  subst hitems
  refine ⟨x, hs, ?_⟩
  cases hb : bool_deserialize x
  · rw [hb] at h
    cases h
  · rfl

/-- The scripts are not run only for a script public key of a version above
    `MAX_SCRIPT_PUBLIC_KEY_VERSION`. -/
theorem TxScriptEngine.scripts_eq_none {vm : TxScriptEngine} (h : vm.scripts = none) :
    ∃ tx input id utxo_entry is_p2sh hid,
      vm.script_source = .TxInput tx input id utxo_entry is_p2sh hid ∧
        MAX_SCRIPT_PUBLIC_KEY_VERSION < utxo_entry.script_public_key.version := by
  unfold TxScriptEngine.scripts at h
  split at h
  · rename_i tx input id utxo_entry is_p2sh hid hsrc
    split at h
    · rename_i hversion
      exact ⟨tx, input, id, utxo_entry, is_p2sh, hid, hsrc, hversion⟩
    · cases h
  · cases h

/-- **A SUCCESSFUL EXECUTE**: either the scripts were not run, or they left one
    element, which reads as true. -/
theorem execute_ok {c : Crypto} {vm vm' : TxScriptEngine} (h : execute c vm = .ok vm') :
    (vm.scripts = none ∧ vm' = vm) ∨
      ∃ scripts is_p2sh vm₁ v, vm.scripts = some (scripts, is_p2sh) ∧
        run_scripts c vm scripts is_p2sh = .ok vm₁ ∧ vm₁.dstack = [v] ∧
          bool_deserialize v = true := by
  unfold execute at h
  split at h
  · rename_i hs
    cases h
    exact .inl ⟨hs, rfl⟩
  · rename_i scripts is_p2sh hs
    obtain ⟨vm₁, hrun, hcheck⟩ := (bind_eq_ok _ _ _).mp h
    obtain ⟨v, hv, htrue⟩ := check_error_condition_final_ok hcheck
    exact .inr ⟨scripts, is_p2sh, vm₁, v, hs, hrun, hv, htrue⟩

/-- A stand-in for the cryptography under which no key or signature parses. -/
def inert_crypto : Crypto :=
  ⟨fun _ => ZERO_HASH, fun _ => ZERO_HASH, fun _ => [], fun _ => [], fun _ => false,
    fun _ => false, fun _ _ _ => false, fun _ => false, fun _ => false, fun _ _ _ => false⟩

-- `OP_1 OP_2 OP_ADD OP_3 OP_EQUAL`
example : (execute inert_crypto
    (from_script [OpTrue, 0x52, 0x93, 0x53, OpEqual] SigHashReusedValues.new)).toBool = true := by
  decide

/-! ## The stack bound -/

/-- A successful opcode step leaves at most `MAX_STACK_SIZE` elements. -/
theorem script_step_stack_bound {c : Crypto} {verify_only_push : Bool}
    {vm vm' : TxScriptEngine} {opcode : Except TxScriptError Opcode}
    (h : script_step c verify_only_push vm opcode = .ok vm') :
    vm'.combined_size ≤ MAX_STACK_SIZE := by
  unfold script_step at h
  split at h
  · cases h
  split at h
  · cases h
  split at h
  · cases h
  split at h
  · cases h
  obtain ⟨vm₁, -, h⟩ := (bind_eq_ok _ _ _).mp h
  split at h
  · cases h
  · rename_i hsize
    cases h
    exact not_lt.mp hsize

/-- **EVERY OPCODE KEEPS THE BOUND**: in a successful script, the state after each
    opcode holds at most `MAX_STACK_SIZE` elements on the two stacks. -/
theorem execute_script_stack_bound {c : Crypto} {vm vm' : TxScriptEngine} {script : Bytes}
    {verify_only_push : Bool} (h : execute_script c vm script verify_only_push = .ok vm') :
    ∀ k, 0 < k → k ≤ (parse_script script).length →
      ∃ vmk, ((parse_script script).take k).foldlM (script_step c verify_only_push) vm = .ok vmk ∧
        vmk.combined_size ≤ MAX_STACK_SIZE := by
  unfold execute_script at h
  split at h
  · cases h
  · rename_i vm₁ hrun
    intro k hk hlen
    obtain ⟨vmk, hfold, hbound⟩ :=
      foldlM_prefix _ _ (fun _ _ _ h => script_step_stack_bound h) _ vm vm₁ hrun k
    exact ⟨vmk, hfold, hbound hk hlen⟩

/-! ## The engine's contract -/

/-- **SCRIPT ENGINE SAFETY**: from every engine within its operation count (every
    engine `from_transaction_input` and `from_script` build), `execute` returns `Ok`
    or a script error and never panics; `Ok` means that the script public key has
    an unknown version and no script ran, or that the data stack held exactly one
    element reading as true; and every opcode of a successful script leaves at most
    `MAX_STACK_SIZE` elements on the two stacks. -/
theorem execute_safe_and_sound (c : Crypto) (vm : TxScriptEngine) (hinv : vm.Inv) :
    (∀ site, execute c vm ≠ .error (.panics site)) ∧
    (∀ vm', execute c vm = .ok vm' →
      (vm' = vm ∧ ∃ tx input id utxo_entry is_p2sh hid,
        vm.script_source = .TxInput tx input id utxo_entry is_p2sh hid ∧
          MAX_SCRIPT_PUBLIC_KEY_VERSION < utxo_entry.script_public_key.version) ∨
      ∃ scripts is_p2sh vm₁ v, vm.scripts = some (scripts, is_p2sh) ∧
        run_scripts c vm scripts is_p2sh = .ok vm₁ ∧ vm₁.dstack = [v] ∧
          bool_deserialize v = true) ∧
    (∀ (vm₀ vm' : TxScriptEngine) (script : Bytes) (verify_only_push : Bool),
      execute_script c vm₀ script verify_only_push = .ok vm' →
      ∀ k, 0 < k → k ≤ (parse_script script).length →
        ∃ vmk, ((parse_script script).take k).foldlM (script_step c verify_only_push) vm₀ =
          .ok vmk ∧ vmk.combined_size ≤ MAX_STACK_SIZE) := by
  refine ⟨fun site h => (execute_safe c hinv).not_bad h trivial, fun vm' h => ?_,
    fun _ _ _ _ h => execute_script_stack_bound h⟩
  rcases execute_ok h with ⟨hnone, rfl⟩ | hrun
  · exact .inl ⟨rfl, TxScriptEngine.scripts_eq_none hnone⟩
  · exact .inr hrun

/-- An input with an empty signature script. -/
def spend_input : TransactionInput := ⟨⟨ZERO_HASH, 0⟩, [], 0, 1⟩

/-- The transaction that spends `entry` through that input. -/
def spend (entry : UtxoEntry) : PopulatedTransaction :=
  ⟨⟨0, [spend_input], [⟨10, ⟨0, []⟩, .KSH⟩], .TransferKSH, 0, SUBNETWORK_ID_NATIVE, 0, [], 0,
    ZERO_HASH⟩, [entry], rfl⟩

/-- The engine for that input. -/
def spend_engine (entry : UtxoEntry) : TxScriptEngine :=
  ⟨[], [], .TxInput (spend entry) spend_input 0 entry
    (is_pay_to_script_hash entry.script_public_key.script) Nat.zero_lt_one,
    SigHashReusedValues.new, [], 0⟩

/-- `spend_engine` is the engine `from_transaction_input` builds for the spend. -/
theorem from_transaction_input_spend (entry : UtxoEntry) :
    from_transaction_input (spend entry) spend_input 0 entry SigHashReusedValues.new =
      .ok (spend_engine entry) := rfl

/-- An entry locked by `OpTrue`. -/
def op_true_entry : UtxoEntry := ⟨10, ⟨0, [OpTrue]⟩, 0, false, .KSH⟩

theorem execute_safe_and_sound_op_true :
    (spend_engine op_true_entry).Inv ∧
      ∀ site, execute inert_crypto (spend_engine op_true_entry) ≠ .error (.panics site) :=
  have hinv := from_transaction_input_inv (from_transaction_input_spend op_true_entry)
  ⟨hinv, (execute_safe_and_sound inert_crypto (spend_engine op_true_entry) hinv).1⟩

/-- An entry locked by `OpReturn` under a script public key of the given version. -/
def op_return_entry (version : UInt16) : UtxoEntry := ⟨10, ⟨version, [OpReturn]⟩, 0, false, .KSH⟩

/-- **UNKNOWN VERSIONS ARE ACCEPTED UNRUN**: the input spending an `OpReturn` entry
    fails under version 0 and succeeds under version 1, where no script runs and
    the data stack never holds an element. -/
theorem execute_accepts_unknown_version :
    execute inert_crypto (spend_engine (op_return_entry 0)) = .error (.script .EarlyReturn) ∧
    execute inert_crypto (spend_engine (op_return_entry 1)) =
      .ok (spend_engine (op_return_entry 1)) ∧
    ¬ ∀ (c : Crypto) (vm vm' : TxScriptEngine), vm.Inv → execute c vm = .ok vm' →
      ∃ scripts is_p2sh vm₁ v, vm.scripts = some (scripts, is_p2sh) ∧
        run_scripts c vm scripts is_p2sh = .ok vm₁ ∧ vm₁.dstack = [v] ∧
          bool_deserialize v = true := by
  refine ⟨rfl, rfl, fun h => ?_⟩
  obtain ⟨_, _, _, _, hscripts, -⟩ := h inert_crypto (spend_engine (op_return_entry 1)) _
    (from_transaction_input_inv (from_transaction_input_spend _)) rfl
  cases hscripts

end KashScript
