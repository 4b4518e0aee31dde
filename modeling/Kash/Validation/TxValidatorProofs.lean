import Kash.Validation.TxValidator
import Kash.Script.EngineProofs

/-! # What validation says about value

    A successful `validate_populated_transaction_and_get_fee` returns the amount of
    the entries its inputs spend minus the value of its outputs, both summed over
    every entry and every output whatever its asset
    (`validated_fee_counts_every_asset`). Neither validation reads an
    `asset_type` or the `action`: a `TransferKSH` that spends a KUSD entry and pays
    KSH passes both, and its fee is KUSD value
    (`transfer_ksh_spending_kusd_accepted`). -/

namespace KashValidation

open KashTx KashScript KashHashing ExceptLoops codes

/-! ## Sums, in total and by asset -/

/-- The amount of the entries. -/
def total_amount (entries : List UtxoEntry) : ℕ := (entries.map (·.amount.toNat)).sum

/-- The value of the outputs. -/
def total_value (outputs : List TransactionOutput) : ℕ := (outputs.map (·.value.toNat)).sum

/-- The amount of the entries of one asset. -/
def amount_of (asset : AssetType) (entries : List UtxoEntry) : ℕ :=
  total_amount (entries.filter (·.asset_type = asset))

/-- The value of the outputs of one asset. -/
def value_of (asset : AssetType) (outputs : List TransactionOutput) : ℕ :=
  total_value (outputs.filter (·.asset_type = asset))

/-- A sum over a list is the sum of its sums over the three assets. -/
theorem sum_by_asset {γ : Type} (asset : γ → AssetType) (w : γ → ℕ) (l : List γ) :
    (l.map w).sum = ((l.filter (asset · = .KSH)).map w).sum +
      ((l.filter (asset · = .KUSD)).map w).sum + ((l.filter (asset · = .KRV)).map w).sum := by
  induction l with
  | nil => rfl
  | cons x l ih =>
      cases hx : asset x <;> simp [hx, ih] <;> omega

theorem total_amount_by_asset (entries : List UtxoEntry) :
    total_amount entries =
      amount_of .KSH entries + amount_of .KUSD entries + amount_of .KRV entries := by
  unfold amount_of total_amount
  exact sum_by_asset UtxoEntry.asset_type (·.amount.toNat) entries

theorem total_value_by_asset (outputs : List TransactionOutput) :
    total_value outputs =
      value_of .KSH outputs + value_of .KUSD outputs + value_of .KRV outputs := by
  unfold value_of total_value
  exact sum_by_asset TransactionOutput.asset_type (·.value.toNat) outputs

/-- The entries of the populated inputs are the transaction's entries. -/
theorem populated_inputs_entries (ptx : PopulatedTransaction) :
    ptx.populated_inputs.map Prod.snd = ptx.entries :=
  List.map_snd_zip (Nat.le_of_eq ptx.entries_length)

/-! ## `u64` arithmetic -/

@[simp] theorem rule_eq_ok {α : Type} (x : Except TxRuleError α) (a : α) :
    rule x = .ok a ↔ x = .ok a :=
  mapError_eq_ok _ x a

@[simp] theorem arith_eq_ok {α : Type} (x : Except PanicSite α) (a : α) :
    arith x = .ok a ↔ x = .ok a :=
  mapError_eq_ok _ x a

/-- A step of the amount totals adds the value and stays within `MAX_SOMPI`. -/
theorem add_within_max_sompi_ok {total value total' : UInt64} {overflow too_high : TxRuleError}
    (h : add_within_max_sompi total value overflow too_high = .ok total') :
    total'.toNat = total.toNat + value.toNat ∧ total'.toNat ≤ MAX_SOMPI.toNat := by
  unfold add_within_max_sompi at h
  split at h
  · cases h
  · rename_i s hs
    split at h
    · cases h
    · rename_i hmax
      cases h
      exact ⟨checked_add_eq_some hs, UInt64.le_iff_toNat_le.mp (UInt64.not_lt.mp hmax)⟩

/-! ## The amount checks -/

/-- **INPUT TOTAL**: `check_transaction_input_amounts` returns the amount of all
    the entries, at most `MAX_SOMPI`. -/
theorem check_transaction_input_amounts_ok {ptx : PopulatedTransaction} {total_in : UInt64}
    (h : check_transaction_input_amounts ptx = .ok total_in) :
    total_in.toNat = total_amount ptx.entries ∧ total_in.toNat ≤ MAX_SOMPI.toNat := by
  let step := fun (total : UInt64) (p : TransactionInput × UtxoEntry) =>
    add_within_max_sompi total p.2.amount .InputAmountOverflow .InputAmountTooHigh
  have hsum := foldlM_measure UInt64.toNat (fun p => p.2.amount.toNat) step
    (fun _ _ _ hs => (add_within_max_sompi_ok hs).1) ptx.populated_inputs 0 total_in h
  have hmax := foldlM_invariant (fun total : UInt64 => total.toNat ≤ MAX_SOMPI.toNat) step
    (fun _ _ _ _ hs => (add_within_max_sompi_ok hs).2) ptx.populated_inputs 0 total_in
    (Nat.zero_le _) h
  refine ⟨?_, hmax⟩
  rw [hsum, UInt64.toNat_zero, Nat.zero_add, ← populated_inputs_entries, total_amount,
    List.map_map]
  rfl

/-- **OUTPUT TOTAL**: `check_transaction_output_values` returns the value of all the
    outputs, at most the input total. -/
theorem check_transaction_output_values_ok {ptx : PopulatedTransaction} {total_in total_out : UInt64}
    (h : check_transaction_output_values ptx total_in = .ok total_out) :
    total_out.toNat = total_value ptx.tx.outputs ∧ total_out.toNat ≤ total_in.toNat := by
  unfold check_transaction_output_values at h
  obtain ⟨sum, hsum, hrest⟩ := (bind_eq_ok _ _ _).mp h
  have hval : sum.toNat = total_value ptx.tx.outputs := u64_of_sum_ok ((arith_eq_ok _ _).mp hsum)
  split at hrest
  · cases hrest
  · rename_i hle
    cases hrest
    exact ⟨hval, UInt64.le_iff_toNat_le.mp (UInt64.not_lt.mp hle)⟩

/-- What a successful `validate_populated_transaction_and_get_fee` ran: every check
    passed, and the fee is the input total minus the output total. -/
theorem validate_populated_ok {v : TransactionValidator} {c : Crypto} {ptx : PopulatedTransaction}
    {pov_daa_score : UInt64} {flags : TxValidationFlags} {fee : UInt64}
    (h : v.validate_populated_transaction_and_get_fee c ptx pov_daa_score flags = .ok fee) :
    v.check_transaction_coinbase_maturity ptx pov_daa_score = .ok () ∧
      ∃ total_in total_out, check_transaction_input_amounts ptx = .ok total_in ∧
        check_transaction_output_values ptx total_in = .ok total_out ∧
        v.check_mass_if_active ptx pov_daa_score flags = .ok () ∧
        check_sequence_lock ptx pov_daa_score = .ok () ∧
        check_scripts_if c ptx flags = .ok () ∧ fee = total_in - total_out := by
  obtain ⟨⟨⟩, hmat, h⟩ := (bind_eq_ok _ _ _).mp h
  obtain ⟨total_in, hin, h⟩ := (bind_eq_ok _ _ _).mp h
  obtain ⟨total_out, hout, h⟩ := (bind_eq_ok _ _ _).mp h
  obtain ⟨⟨⟩, hmass, h⟩ := (bind_eq_ok _ _ _).mp h
  obtain ⟨⟨⟩, hseq, h⟩ := (bind_eq_ok _ _ _).mp h
  obtain ⟨⟨⟩, hscripts, h⟩ := (bind_eq_ok _ _ _).mp h
  cases h
  exact ⟨hmat, total_in, total_out, (rule_eq_ok _ _).mp hin, hout, hmass, hseq, hscripts, rfl⟩

/-- **THE FEE COUNTS EVERY ASSET**: the fee of a validated transaction plus the
    value of its outputs in KSH, KUSD and KRV is the amount of the entries it spends
    in KSH, KUSD and KRV, which is at most `MAX_SOMPI`. -/
theorem validated_fee_counts_every_asset (v : TransactionValidator) (c : Crypto)
    (ptx : PopulatedTransaction) (pov_daa_score : UInt64) (flags : TxValidationFlags)
    (fee : UInt64)
    (h : v.validate_populated_transaction_and_get_fee c ptx pov_daa_score flags = .ok fee) :
    fee.toNat + (value_of .KSH ptx.tx.outputs + value_of .KUSD ptx.tx.outputs +
        value_of .KRV ptx.tx.outputs) =
      amount_of .KSH ptx.entries + amount_of .KUSD ptx.entries + amount_of .KRV ptx.entries ∧
    amount_of .KSH ptx.entries + amount_of .KUSD ptx.entries + amount_of .KRV ptx.entries ≤
      MAX_SOMPI.toNat := by
  obtain ⟨-, total_in, total_out, hin, hout, -, -, -, rfl⟩ := validate_populated_ok h
  obtain ⟨hin_sum, hin_max⟩ := check_transaction_input_amounts_ok hin
  obtain ⟨hout_sum, hout_le⟩ := check_transaction_output_values_ok hout
  have hfee : (total_in - total_out).toNat = total_in.toNat - total_out.toNat :=
    UInt64.toNat_sub_of_le _ _ (UInt64.le_iff_toNat_le.mpr hout_le)
  rw [← total_amount_by_asset, ← total_value_by_asset, hfee, ← hin_sum, ← hout_sum]
  omega

/-! ## A transfer of KSH paid for in KUSD -/

/-- An entry of ten KUSD sompi that anyone can spend (`OpTrue`). -/
def kusd_entry : UtxoEntry := ⟨10, ⟨0, [OpTrue]⟩, 0, false, .KUSD⟩

/-- A `TransferKSH` spending `kusd_entry` into one output of five KSH sompi. -/
def kusd_as_ksh : PopulatedTransaction :=
  ⟨⟨TX_VERSION, [⟨⟨ZERO_HASH, 0⟩, [], 0, 0⟩], [⟨5, ⟨0, []⟩, .KSH⟩], .TransferKSH, 0,
    SUBNETWORK_ID_NATIVE, 0, [], 0, ZERO_HASH⟩, [kusd_entry], rfl⟩

/-- The mainnet parameters of the validator (`MAINNET_PARAMS`); the storage-mass
    fork is not active. -/
def mainnet_validator : TransactionValidator :=
  ⟨1000000000, 1000000000, 1000000000, 1000000000, 18, 150, 100,
    ⟨1, 10, 1000, STORAGE_MASS_PARAMETER⟩, UInt64.ofNat (2 ^ 64 - 1)⟩

/-- Under the mainnet parameters and any cryptography, `kusd_as_ksh` passes both
    validations with a fee of five: it spends only KUSD, pays five KSH, and its fee
    is five sompi of KUSD. -/
theorem transfer_ksh_spending_kusd_accepted :
    mainnet_validator.validate_tx_in_isolation kusd_as_ksh.tx = .ok () ∧
    (∀ c : Crypto,
      mainnet_validator.validate_populated_transaction_and_get_fee c kusd_as_ksh 1000 .Full =
        .ok 5) ∧
    kusd_as_ksh.tx.action.asset_transfer_types = (.KSH, .KSH) ∧
    kusd_as_ksh.entries.map (·.asset_type) = [.KUSD] ∧
    amount_of .KSH kusd_as_ksh.entries = 0 ∧ value_of .KSH kusd_as_ksh.tx.outputs = 5 :=
  ⟨by decide, fun _ => rfl, rfl, rfl, rfl, rfl⟩

/-- `kusd_as_ksh` is validated with a fee of five, which is its KUSD amount minus
    its KSH value. -/
theorem validated_fee_counts_every_asset_kusd_as_ksh :
    mainnet_validator.validate_populated_transaction_and_get_fee inert_crypto kusd_as_ksh 1000
        .Full = .ok 5 ∧
    (UInt64.toNat 5 + (value_of .KSH kusd_as_ksh.tx.outputs + value_of .KUSD kusd_as_ksh.tx.outputs +
        value_of .KRV kusd_as_ksh.tx.outputs) =
      amount_of .KSH kusd_as_ksh.entries + amount_of .KUSD kusd_as_ksh.entries +
        amount_of .KRV kusd_as_ksh.entries ∧
    amount_of .KSH kusd_as_ksh.entries + amount_of .KUSD kusd_as_ksh.entries +
        amount_of .KRV kusd_as_ksh.entries ≤ MAX_SOMPI.toNat) :=
  ⟨rfl, validated_fee_counts_every_asset mainnet_validator inert_crypto kusd_as_ksh 1000 .Full 5 rfl⟩

end KashValidation
