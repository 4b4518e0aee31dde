import Kash.Script.Engine

/-! # Counting signature operations

    `get_sig_op_count_by_opcodes` walks the parsed opcodes of a script up to the
    first one that failed to parse. A single-signature check counts one; a
    multisig check counts the number its predecessor pushes when that
    predecessor is one of `Op1..Op16`, and `MAX_PUB_KEYS_PER_MUTLTISIG`
    otherwise. The caller's guard admits `Op1..=Op16`, but the number goes
    through `to_small_int`, whose assertion admits only `OpTrue..Op16`: a
    multisig check right after `Op16` panics.

    `intended_sig_op_count` is the count the guard describes. The counter
    returns it whenever no `Op16` stands right before a multisig check and the
    count fits in a `u64` (`sig_op_count_from_eq_intended`); it panics on the
    first such pair (`sig_op_count_from_panics`). -/

namespace KashScript

open codes

/-- The single-signature checks. -/
def Opcode.is_sig_check (op : Opcode) : Bool :=
  op.value == OpCheckSig || op.value == OpCheckSigVerify || op.value == OpCheckSigECDSA

/-- The multisig checks. -/
def Opcode.is_multisig_check (op : Opcode) : Bool :=
  op.value == OpCheckMultiSig || op.value == OpCheckMultiSigVerify ||
    op.value == OpCheckMultiSigECDSA

/-- The number of keys the guard of `get_sig_op_count_by_opcodes` assigns to a
    multisig check after `prev`: the pushed number for `Op1..=Op16`. -/
def intended_multisig_keys : Option Opcode → ℕ
  | some prev =>
      if OpTrue ≤ prev.value ∧ prev.value ≤ Op16 then (prev.value - (OpTrue - 1)).toNat
      else MAX_PUB_KEYS_PER_MUTLTISIG.toNat
  | none => MAX_PUB_KEYS_PER_MUTLTISIG.toNat

/-- What one opcode adds to the intended count. -/
def intended_weight (prev : Option Opcode) (op : Opcode) : ℕ :=
  if op.is_sig_check then 1
  else if op.is_multisig_check then intended_multisig_keys prev
  else 0

/-- The intended count over the parsed prefix of a script. -/
def intended_sig_op_count (prev : Option Opcode) : List (Except TxScriptError Opcode) → ℕ
  | [] => 0
  | .error _ :: _ => 0
  | .ok op :: rest => intended_weight prev op + intended_sig_op_count (some op) rest

/-- The predecessor of a multisig check is `Op16`. -/
def Opcode.follows_op16 (prev : Option Opcode) (op : Opcode) : Bool :=
  op.is_multisig_check && prev.any (·.value == Op16)

/-- Some multisig check of the parsed prefix stands right after `Op16`. -/
def op16_before_multisig (prev : Option Opcode) : List (Except TxScriptError Opcode) → Bool
  | [] => false
  | .error _ :: _ => false
  | .ok op :: rest => op.follows_op16 prev || op16_before_multisig (some op) rest

/-! ## One opcode -/

theorem sig_op_weight_of_sig_check {prev : Option Opcode} {op : Opcode}
    (h : op.is_sig_check = true) : sig_op_weight prev op = .ok 1 := by
  simp only [Opcode.is_sig_check, Bool.or_eq_true, beq_iff_eq, or_assoc] at h
  unfold sig_op_weight
  rw [if_pos h]

/-- An opcode other than a multisig check after `Op16` weighs what the guard
    says. -/
theorem sig_op_weight_eq_intended (prev : Option Opcode) (op : Opcode)
    (h16 : op.follows_op16 prev = false) :
    sig_op_weight prev op = .ok (intended_weight prev op).toUInt64 := by
  by_cases hsig : op.is_sig_check = true
  · rw [sig_op_weight_of_sig_check hsig, intended_weight, if_pos hsig]
    rfl
  have hsig' : ¬ (op.value = OpCheckSig ∨ op.value = OpCheckSigVerify ∨
      op.value = OpCheckSigECDSA) := by
    simpa [Opcode.is_sig_check, or_assoc] using hsig
  unfold sig_op_weight
  rw [intended_weight, if_neg hsig, if_neg hsig']
  by_cases hmulti : op.is_multisig_check = true
  · have hmulti' : op.value = OpCheckMultiSig ∨ op.value = OpCheckMultiSigVerify ∨
        op.value = OpCheckMultiSigECDSA := by
      simpa [Opcode.is_multisig_check, or_assoc] using hmulti
    rw [if_pos hmulti', if_pos hmulti]
    cases prev with
    | none => rfl
    | some prev =>
        -- the predecessor is not `Op16`, so `to_small_int` accepts every value
        -- the guard lets through
        have hne : prev.value ≠ Op16 := by
          simpa [Opcode.follows_op16, hmulti] using h16
        simp only [intended_multisig_keys]
        split_ifs with hrange
        · have hlt : prev.value < Op16 := UInt8.lt_of_le_of_ne hrange.2 hne
          have hfalse : prev.value ≠ OpFalse := by
            intro h
            rw [h] at hrange
            exact absurd hrange.1 (by decide)
          rw [to_small_int, if_neg hfalse, if_pos ⟨hrange.1, hlt⟩]
          show Except.ok (UInt8.toUInt64 _) = _
          rw [← UInt64.ofNat_uInt8ToNat]
        · rfl
  · have hmulti' : ¬ (op.value = OpCheckMultiSig ∨ op.value = OpCheckMultiSigVerify ∨
        op.value = OpCheckMultiSigECDSA) := by
      simpa [Opcode.is_multisig_check, or_assoc] using hmulti
    rw [if_neg hmulti', if_neg hmulti]
    rfl

/-- **THE OFF-BY-ONE**: a multisig check right after `Op16` panics in
    `to_small_int`. -/
theorem sig_op_weight_of_follows_op16 {prev : Option Opcode} {op : Opcode}
    (h16 : op.follows_op16 prev = true) : sig_op_weight prev op = .error .assertion_failed := by
  cases prev with
  | none => simp [Opcode.follows_op16] at h16
  | some prev =>
      obtain ⟨hmulti, hvalue⟩ : op.is_multisig_check = true ∧ prev.value = Op16 := by
        simpa [Opcode.follows_op16] using h16
      have hmulti' : op.value = OpCheckMultiSig ∨ op.value = OpCheckMultiSigVerify ∨
          op.value = OpCheckMultiSigECDSA := by
        simpa [Opcode.is_multisig_check, or_assoc] using hmulti
      -- a multisig opcode is no single-signature check
      have hsig' : ¬ (op.value = OpCheckSig ∨ op.value = OpCheckSigVerify ∨
          op.value = OpCheckSigECDSA) := by
        rcases hmulti' with h | h | h <;> rw [h] <;> decide
      unfold sig_op_weight
      rw [if_neg hsig', if_pos hmulti']
      simp only [hvalue, to_small_int]
      decide

/-! ## The whole walk -/

/-- **COUNT**: without a multisig check after `Op16`, and when the count fits,
    the walk returns the intended count. The induction follows the parsed
    opcodes; the accumulated count is the invariant. -/
theorem sig_op_count_from_eq_intended :
    ∀ (ops : List (Except TxScriptError Opcode)) (prev : Option Opcode) (num_sigs : UInt64),
      op16_before_multisig prev ops = false →
      num_sigs.toNat + intended_sig_op_count prev ops < 2 ^ 64 →
      sig_op_count_from prev num_sigs ops =
        .ok (num_sigs.toNat + intended_sig_op_count prev ops).toUInt64
  | [], prev, num_sigs, _, _ => by
      simp [sig_op_count_from, intended_sig_op_count]
  | .error e :: rest, prev, num_sigs, _, _ => by
      simp [sig_op_count_from, intended_sig_op_count]
  | .ok op :: rest, prev, num_sigs, h16, hfit => by
      simp only [op16_before_multisig, Bool.or_eq_false_iff] at h16
      simp only [intended_sig_op_count] at hfit ⊢
      have hweight : (intended_weight prev op).toUInt64.toNat = intended_weight prev op :=
        UInt64.toNat_ofNat_of_lt' (show _ < 2 ^ 64 by omega)
      have hadd : u64_add num_sigs (intended_weight prev op).toUInt64 =
          .ok (num_sigs + (intended_weight prev op).toUInt64) :=
        u64_add_of_lt (by omega)
      have hsum : (num_sigs + (intended_weight prev op).toUInt64).toNat =
          num_sigs.toNat + intended_weight prev op := by
        rw [UInt64.toNat_add, hweight, Nat.mod_eq_of_lt (by omega)]
      rw [sig_op_count_from, sig_op_weight_eq_intended prev op h16.1]
      show (u64_add num_sigs (intended_weight prev op).toUInt64 >>= fun num_sigs =>
        sig_op_count_from (some op) num_sigs rest) = _
      rw [hadd]
      show sig_op_count_from (some op) (num_sigs + (intended_weight prev op).toUInt64) rest = _
      rw [sig_op_count_from_eq_intended rest (some op) _ h16.2 (by omega), hsum, Nat.add_assoc]

/-- **PANIC**: a multisig check after `Op16` in the parsed prefix makes the walk
    panic, when the count up to it fits. -/
theorem sig_op_count_from_panics :
    ∀ (ops : List (Except TxScriptError Opcode)) (prev : Option Opcode) (num_sigs : UInt64),
      op16_before_multisig prev ops = true →
      num_sigs.toNat + intended_sig_op_count prev ops < 2 ^ 64 →
      sig_op_count_from prev num_sigs ops = .error .assertion_failed
  | [], _, _, h16, _ => by simp [op16_before_multisig] at h16
  | .error _ :: _, _, _, h16, _ => by simp [op16_before_multisig] at h16
  | .ok op :: rest, prev, num_sigs, h16, hfit => by
      simp only [intended_sig_op_count] at hfit
      cases hop : op.follows_op16 prev with
      | true =>
          -- this opcode is the first offending one
          rw [sig_op_count_from, sig_op_weight_of_follows_op16 hop]
          rfl
      | false =>
          have hrest : op16_before_multisig (some op) rest = true := by
            simpa [op16_before_multisig, hop] using h16
          have hweight : (intended_weight prev op).toUInt64.toNat = intended_weight prev op :=
            UInt64.toNat_ofNat_of_lt' (show _ < 2 ^ 64 by omega)
          have hadd : u64_add num_sigs (intended_weight prev op).toUInt64 =
              .ok (num_sigs + (intended_weight prev op).toUInt64) :=
            u64_add_of_lt (by omega)
          have hsum : (num_sigs + (intended_weight prev op).toUInt64).toNat =
              num_sigs.toNat + intended_weight prev op := by
            rw [UInt64.toNat_add, hweight, Nat.mod_eq_of_lt (by omega)]
          rw [sig_op_count_from, sig_op_weight_eq_intended prev op hop]
          show (u64_add num_sigs (intended_weight prev op).toUInt64 >>= fun num_sigs =>
            sig_op_count_from (some op) num_sigs rest) = _
          rw [hadd]
          exact sig_op_count_from_panics rest (some op) _ hrest (by omega)

/-! ## `get_sig_op_count_by_opcodes` -/

/-- **SIG OP COUNT**: over the opcodes of a script, the counter returns the count
    its guard describes, whenever no multisig check follows `Op16` in the parsed
    prefix and the count fits in a `u64`. -/
theorem get_sig_op_count_by_opcodes_eq_intended (ops : List (Except TxScriptError Opcode))
    (h16 : op16_before_multisig none ops = false)
    (hfit : intended_sig_op_count none ops < 2 ^ 64) :
    get_sig_op_count_by_opcodes ops = .ok (intended_sig_op_count none ops).toUInt64 := by
  have h := sig_op_count_from_eq_intended ops none 0 h16 (by simpa using hfit)
  rw [get_sig_op_count_by_opcodes, h, UInt64.toNat_zero, Nat.zero_add]

/-- `Op1 OpCheckMultiSig` counts one. -/
theorem get_sig_op_count_by_opcodes_one_of_one :
    op16_before_multisig none (parse_script [OpTrue, OpCheckMultiSig]) = false ∧
    intended_sig_op_count none (parse_script [OpTrue, OpCheckMultiSig]) < 2 ^ 64 ∧
    get_sig_op_count_by_opcodes (parse_script [OpTrue, OpCheckMultiSig]) =
      .ok (intended_sig_op_count none (parse_script [OpTrue, OpCheckMultiSig])).toUInt64 :=
  ⟨by decide, by decide,
    get_sig_op_count_by_opcodes_eq_intended _ (by decide) (by decide)⟩

/-- **PANIC**: a multisig check after `Op16` in the parsed prefix makes the
    counter panic, whatever else the script holds, when the count fits. -/
theorem get_sig_op_count_by_opcodes_panics (ops : List (Except TxScriptError Opcode))
    (h16 : op16_before_multisig none ops = true)
    (hfit : intended_sig_op_count none ops < 2 ^ 64) :
    get_sig_op_count_by_opcodes ops = .error .assertion_failed :=
  sig_op_count_from_panics ops none 0 h16 (by simpa using hfit)

/-- `OpCheckSig Op16 OpCheckMultiSigVerify` panics. -/
theorem get_sig_op_count_by_opcodes_panics_after_check_sig :
    op16_before_multisig none (parse_script [OpCheckSig, Op16, OpCheckMultiSigVerify]) = true ∧
    intended_sig_op_count none (parse_script [OpCheckSig, Op16, OpCheckMultiSigVerify]) <
      2 ^ 64 ∧
    get_sig_op_count_by_opcodes (parse_script [OpCheckSig, Op16, OpCheckMultiSigVerify]) =
      .error .assertion_failed :=
  ⟨by decide, by decide, get_sig_op_count_by_opcodes_panics _ (by decide) (by decide)⟩

/-- A script public key `Op16 OpCheckMultiSig`: whatever the signature script,
    `get_sig_op_count` panics, and `check_sig_op_counts` calls it for every
    input that spends such an entry. -/
theorem get_sig_op_count_panics_on_op16_multisig (signature_script : List UInt8) (version : UInt16) :
    get_sig_op_count signature_script ⟨version, [Op16, OpCheckMultiSig]⟩ =
      .error .assertion_failed := by
  have h16 : op16_before_multisig none (parse_script [Op16, OpCheckMultiSig]) = true := by
    decide
  have hfit : intended_sig_op_count none (parse_script [Op16, OpCheckMultiSig]) < 2 ^ 64 := by
    decide
  exact get_sig_op_count_by_opcodes_panics _ h16 hfit

end KashScript
