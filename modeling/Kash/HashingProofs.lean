import Kash.Hashing

/-! # What the consensus hashes commit to

    A hash commits to what its stream determines. Each stream of `Hashing` is read
    back here field by field, with the prefix codes of `PrefixCode`: the stream
    fixes exactly a record of fields (`TransactionFields`, `utxo_fields`,
    `SigHashPreimage`), and the record fixes the stream.

    None of the records holds the transaction's `action` or an output's or entry's
    `asset_type`: no writer reads them. Two transactions that differ only there have
    one id, one hash and one signature hash for every input, and two UTXO entries
    that differ only in their asset have one MuHash element
    (`commitments_omit_action_and_asset_type`). -/

namespace KashHashing

open KashTx PrefixCode

/-! ## Each writer is a prefix code -/

theorem recovers_write_u8 : Recovers write_u8 id (fun _ => True) := recovers_singleton

theorem recovers_write_bool : Recovers write_bool id (fun _ => True) := by
  refine Recovers.of_length 1 (fun _ _ => rfl) fun a b _ _ h => ?_
  cases a <;> cases b <;> simp_all [write_bool]

theorem recovers_write_u16 : Recovers write_u16 id (fun _ => True) :=
  recovers_leBytes_of 2 (fun _ _ h => UInt16.toNat_inj.mp h) UInt16.toNat_lt

theorem recovers_write_u32 : Recovers write_u32 id (fun _ => True) :=
  recovers_leBytes_of 4 (fun _ _ h => UInt32.toNat_inj.mp h) UInt32.toNat_lt

theorem recovers_write_u64 : Recovers write_u64 id (fun _ => True) :=
  recovers_leBytes_of 8 (fun _ _ h => UInt64.toNat_inj.mp h) UInt64.toNat_lt

/-- Lengths below `2 ^ 64` are read back. -/
theorem recovers_write_len : Recovers write_len id (· < 2 ^ 64) := recovers_leBytes 8

theorem recovers_write_var_bytes :
    Recovers write_var_bytes id (fun bytes => bytes.length < 2 ^ 64) :=
  recovers_write_len.counted_symbols

theorem recovers_hash_bytes : Recovers Hash.bytes id (fun _ => True) := by
  refine Recovers.of_length 32 (fun h _ => h.bytes_length) fun a b _ _ h => ?_
  obtain ⟨a, ha⟩ := a
  obtain ⟨b, hb⟩ := b
  cases h
  rfl

theorem recovers_subnetwork_id_bytes : Recovers SubnetworkId.bytes id (fun _ => True) := by
  refine Recovers.of_length 20 (fun s _ => s.bytes_length) fun a b _ _ h => ?_
  obtain ⟨a, ha⟩ := a
  obtain ⟨b, hb⟩ := b
  cases h
  rfl

/-- An outpoint is read back whole. -/
theorem recovers_write_outpoint : Recovers write_outpoint id (fun _ => True) := by
  intro a b r r' _ _ h
  simp only [write_outpoint, List.append_assoc] at h
  obtain ⟨hid, h⟩ := recovers_hash_bytes _ _ _ _ trivial trivial h
  obtain ⟨hindex, hr⟩ := recovers_write_u32 _ _ _ _ trivial trivial h
  exact ⟨TransactionOutpoint.ext hid hindex, hr⟩

/-- `hash_outpoint` writes what `write_outpoint` writes. -/
theorem hash_outpoint_eq (outpoint : TransactionOutpoint) :
    hash_outpoint outpoint = write_outpoint outpoint := rfl

/-- A script public key is read back whole, when its script's length fits. -/
theorem recovers_hash_script_public_key :
    Recovers hash_script_public_key id (fun spk => spk.script.length < 2 ^ 64) := by
  intro a b r r' ha hb h
  simp only [hash_script_public_key, List.append_assoc] at h
  obtain ⟨hversion, h⟩ := recovers_write_u16 _ _ _ _ trivial trivial h
  obtain ⟨hscript, hr⟩ := recovers_write_var_bytes _ _ _ _ ha hb h
  exact ⟨ScriptPublicKey.ext hversion hscript, hr⟩

/-! ## The transaction stream -/

/-- What `write_input` writes of an input: the outpoint, the signature script and
    sig-op count if the flags keep them, and the sequence. -/
def input_fields (encoding_flags : UInt8) (input : TransactionInput) :
    TransactionOutpoint × Option (Bytes × UInt8) × UInt64 :=
  (input.previous_outpoint,
    if includes_signature_script encoding_flags then
      some (input.signature_script, input.sig_op_count)
    else none,
    input.sequence)

/-- What `write_output` writes of an output: everything but the asset type. -/
def output_fields (output : TransactionOutput) : UInt64 × ScriptPublicKey :=
  (output.value, output.script_public_key)

/-- What `write_transaction` writes of a transaction. -/
structure TransactionFields where
  version : UInt16
  inputs : List (TransactionOutpoint × Option (Bytes × UInt8) × UInt64)
  outputs : List (UInt64 × ScriptPublicKey)
  lock_time : UInt64
  subnetwork_id : SubnetworkId
  gas : UInt64
  payload : Bytes
  mass : UInt64
  deriving DecidableEq

/-- The fields of a transaction that its stream writes; the mass counts only when
    the mass field is included. -/
def transaction_fields (encoding_flags : UInt8) (include_mass_field : Bool)
    (tx : Transaction) : TransactionFields :=
  ⟨tx.version, tx.inputs.map (input_fields encoding_flags), tx.outputs.map output_fields,
    tx.lock_time, tx.subnetwork_id, tx.gas, tx.payload,
    if include_mass_field then tx.mass else 0⟩

/-- Every length the transaction stream writes fits in a `u64`. -/
structure LengthsFit (tx : Transaction) : Prop where
  inputs : tx.inputs.length < 2 ^ 64
  outputs : tx.outputs.length < 2 ^ 64
  payload : tx.payload.length < 2 ^ 64
  signature_scripts : ∀ input ∈ tx.inputs, input.signature_script.length < 2 ^ 64
  scripts : ∀ output ∈ tx.outputs, output.script_public_key.script.length < 2 ^ 64

/-- An input's stream is read back to its fields. -/
theorem recovers_write_input (encoding_flags : UInt8) :
    Recovers (fun input => write_input input encoding_flags) (input_fields encoding_flags)
      (fun input => input.signature_script.length < 2 ^ 64) := by
  intro a b r r' ha hb h
  simp only [write_input, List.append_assoc] at h
  obtain ⟨houtpoint, h⟩ := recovers_write_outpoint _ _ _ _ trivial trivial h
  cases hflags : includes_signature_script encoding_flags with
  | false =>
      -- the empty script in its place says nothing
      simp only [hflags, Bool.false_eq_true, if_false, List.append_cancel_left_eq] at h
      obtain ⟨hsequence, hr⟩ := recovers_write_u64 _ _ _ _ trivial trivial h
      refine ⟨?_, hr⟩
      simp only [input_fields, hflags, Bool.false_eq_true, if_false]
      exact Prod.ext houtpoint (Prod.ext rfl hsequence)
  | true =>
      simp only [hflags, if_true, List.append_assoc] at h
      obtain ⟨hscript, h⟩ := recovers_write_var_bytes _ _ _ _ ha hb h
      obtain ⟨hcount, h⟩ := recovers_write_u8 _ _ _ _ trivial trivial h
      obtain ⟨hsequence, hr⟩ := recovers_write_u64 _ _ _ _ trivial trivial h
      refine ⟨?_, hr⟩
      simp only [input_fields, hflags, if_true]
      exact Prod.ext houtpoint (Prod.ext (congrArg some (Prod.ext hscript hcount)) hsequence)

/-- An output's stream is read back to its fields. -/
theorem recovers_write_output :
    Recovers write_output output_fields
      (fun output => output.script_public_key.script.length < 2 ^ 64) := by
  intro a b r r' ha hb h
  simp only [write_output, List.append_assoc] at h
  obtain ⟨hvalue, h⟩ := recovers_write_u64 _ _ _ _ trivial trivial h
  obtain ⟨hversion, h⟩ := recovers_write_u16 _ _ _ _ trivial trivial h
  obtain ⟨hscript, hr⟩ := recovers_write_var_bytes _ _ _ _ ha hb h
  exact ⟨Prod.ext hvalue (ScriptPublicKey.ext hversion hscript), hr⟩

/-- The optional mass at the end of the stream is read back: nothing for a zero
    mass, eight bytes otherwise. -/
theorem mass_tail_inj (include_mass_field : Bool) (m₁ m₂ : UInt64)
    (h : (if include_mass_field && decide (0 < m₁) then write_u64 m₁ else []) =
      (if include_mass_field && decide (0 < m₂) then write_u64 m₂ else [])) :
    (if include_mass_field then m₁ else 0) = (if include_mass_field then m₂ else 0) := by
  cases include_mass_field with
  | false => rfl
  | true =>
      simp only [Bool.true_and, if_true] at h ⊢
      have hlen := congrArg List.length h
      by_cases h₁ : 0 < m₁ <;> by_cases h₂ : 0 < m₂ <;>
        simp only [h₁, h₂, decide_true, decide_false, if_true, Bool.false_eq_true,
          if_false, write_u64, leBytes_length, List.length_nil] at h hlen
      · exact (recovers_write_u64 m₁ m₂ [] [] trivial trivial (by simpa [write_u64] using h)).1
      · omega
      · omega
      · -- both masses are zero
        rw [UInt64.lt_iff_toNat_lt, UInt64.toNat_zero, Nat.not_lt, Nat.le_zero] at h₁ h₂
        exact UInt64.toNat_inj.mp (h₁.trans h₂.symm)

/-- The stream reads only the fields. -/
theorem write_transaction_eq_of_fields {tx₁ tx₂ : Transaction} {encoding_flags : UInt8}
    {include_mass_field : Bool}
    (h : transaction_fields encoding_flags include_mass_field tx₁ =
      transaction_fields encoding_flags include_mass_field tx₂) :
    write_transaction tx₁ encoding_flags include_mass_field =
      write_transaction tx₂ encoding_flags include_mass_field := by
  simp only [transaction_fields, TransactionFields.mk.injEq] at h
  obtain ⟨hversion, hinputs, houtputs, hlock, hsubnetwork, hgas, hpayload, hmass⟩ := h
  have hin := flatMap_eq_of_map_eq (fun input => write_input input encoding_flags)
    (input_fields encoding_flags) (fun a b hab => by
      simp only [input_fields, Prod.mk.injEq] at hab
      obtain ⟨houtpoint, hscript, hsequence⟩ := hab
      cases hflags : includes_signature_script encoding_flags <;>
        simp_all [write_input]) _ _ hinputs
  have hout := flatMap_eq_of_map_eq write_output output_fields
    (fun a b hab => by
      simp only [output_fields, Prod.mk.injEq] at hab
      simp only [write_output, hab.1, hab.2]) _ _ houtputs
  have hlen_in : tx₁.inputs.length = tx₂.inputs.length := by
    simpa using congrArg List.length hinputs
  have hlen_out : tx₁.outputs.length = tx₂.outputs.length := by
    simpa using congrArg List.length houtputs
  have htail : (if include_mass_field && decide (0 < tx₁.mass) then write_u64 tx₁.mass else []) =
      (if include_mass_field && decide (0 < tx₂.mass) then write_u64 tx₂.mass else []) := by
    cases include_mass_field with
    | false => rfl
    | true =>
        simp only [if_true] at hmass
        rw [hmass]
  simp only [write_transaction, hversion, hlen_in, hin, hlen_out, hout, hlock, hsubnetwork,
    hgas, hpayload, htail]

/-- **THE TRANSACTION STREAM IS ITS FIELDS**: for transactions whose lengths fit, two
    streams written with the same flags are equal exactly when the transactions
    agree on `transaction_fields` — version, every input's outpoint and sequence (and
    signature script and sig-op count when kept), every output's value and script
    public key, lock time, subnetwork, gas, payload and (if included) mass. -/
theorem write_transaction_eq_iff (tx₁ tx₂ : Transaction) (encoding_flags : UInt8)
    (include_mass_field : Bool) (h₁ : LengthsFit tx₁) (h₂ : LengthsFit tx₂) :
    write_transaction tx₁ encoding_flags include_mass_field =
        write_transaction tx₂ encoding_flags include_mass_field ↔
      transaction_fields encoding_flags include_mass_field tx₁ =
        transaction_fields encoding_flags include_mass_field tx₂ := by
  refine ⟨fun h => ?_, write_transaction_eq_of_fields⟩
  simp only [write_transaction, List.append_assoc] at h
  -- read the stream field by field, in the order `write_transaction` writes it
  obtain ⟨hversion, h⟩ := recovers_write_u16 _ _ _ _ trivial trivial h
  obtain ⟨hn_in, h⟩ := recovers_write_len _ _ _ _ h₁.inputs h₂.inputs h
  obtain ⟨hinputs, h⟩ := (recovers_write_input encoding_flags).flatMap _ _ _ _ hn_in
    h₁.signature_scripts h₂.signature_scripts h
  obtain ⟨hn_out, h⟩ := recovers_write_len _ _ _ _ h₁.outputs h₂.outputs h
  obtain ⟨houtputs, h⟩ := recovers_write_output.flatMap _ _ _ _ hn_out h₁.scripts h₂.scripts h
  obtain ⟨hlock, h⟩ := recovers_write_u64 _ _ _ _ trivial trivial h
  obtain ⟨hsubnetwork, h⟩ := recovers_subnetwork_id_bytes _ _ _ _ trivial trivial h
  obtain ⟨hgas, h⟩ := recovers_write_u64 _ _ _ _ trivial trivial h
  obtain ⟨hpayload, h⟩ := recovers_write_var_bytes _ _ _ _ h₁.payload h₂.payload h
  have hmass := mass_tail_inj include_mass_field tx₁.mass tx₂.mass h
  simp only [transaction_fields, TransactionFields.mk.injEq]
  exact ⟨hversion, hinputs, houtputs, hlock, hsubnetwork, hgas, hpayload, hmass⟩

/-- The transaction stream holds the id of every outpoint the transaction spends:
    `write_input` starts with it. -/
theorem outpoint_id_infix_write_transaction {tx : Transaction} {input : TransactionInput}
    (hin : input ∈ tx.inputs) (encoding_flags : UInt8) (include_mass_field : Bool) :
    input.previous_outpoint.transaction_id.bytes <:+:
      write_transaction tx encoding_flags include_mass_field := by
  have hinput : input.previous_outpoint.transaction_id.bytes <:+: write_input input encoding_flags :=
    (List.prefix_append _ _).isInfix.trans ((List.prefix_append _ _).isInfix.trans
      (List.prefix_append _ _).isInfix)
  have hinputs : write_input input encoding_flags <:+:
      tx.inputs.flatMap (fun input => write_input input encoding_flags) :=
    List.infix_of_mem_flatten (List.mem_map_of_mem hin)
  refine (hinput.trans hinputs).trans ?_
  simp only [write_transaction, List.append_assoc]
  exact (List.infix_append' _ _ _).trans (List.suffix_append _ _).isInfix

/-! ## The UTXO stream -/

/-- What `write_utxo` writes of an entry: everything but the asset type. -/
def utxo_fields (entry : UtxoEntry) : UInt64 × UInt64 × Bool × ScriptPublicKey :=
  (entry.block_daa_score, entry.amount, entry.is_coinbase, entry.script_public_key)

/-- **THE UTXO STREAM IS ITS FIELDS**: two MuHash elements' streams are equal exactly
    when the outpoints are equal and the entries agree on everything but the asset
    type. -/
theorem write_utxo_eq_iff (entry₁ entry₂ : UtxoEntry) (outpoint₁ outpoint₂ : TransactionOutpoint)
    (h₁ : entry₁.script_public_key.script.length < 2 ^ 64)
    (h₂ : entry₂.script_public_key.script.length < 2 ^ 64) :
    write_utxo entry₁ outpoint₁ = write_utxo entry₂ outpoint₂ ↔
      outpoint₁ = outpoint₂ ∧ utxo_fields entry₁ = utxo_fields entry₂ := by
  constructor
  · intro h
    simp only [write_utxo, List.append_assoc] at h
    obtain ⟨hid, h⟩ := recovers_hash_bytes _ _ _ _ trivial trivial h
    obtain ⟨hindex, h⟩ := recovers_write_u32 _ _ _ _ trivial trivial h
    obtain ⟨hdaa, h⟩ := recovers_write_u64 _ _ _ _ trivial trivial h
    obtain ⟨hamount, h⟩ := recovers_write_u64 _ _ _ _ trivial trivial h
    obtain ⟨hcoinbase, h⟩ := recovers_write_bool _ _ _ _ trivial trivial h
    obtain ⟨hversion, h⟩ := recovers_write_u16 _ _ _ _ trivial trivial h
    obtain ⟨hscript, -⟩ := recovers_write_var_bytes _ _ [] [] h₁ h₂ (by simpa using h)
    exact ⟨TransactionOutpoint.ext hid hindex,
      Prod.ext hdaa (Prod.ext hamount (Prod.ext hcoinbase (ScriptPublicKey.ext hversion hscript)))⟩
  · rintro ⟨rfl, hfields⟩
    simp only [utxo_fields, Prod.mk.injEq] at hfields
    obtain ⟨hdaa, hamount, hcoinbase, hspk⟩ := hfields
    simp only [write_utxo, hdaa, hamount, hcoinbase, hspk]

/-! ## The signature hash stream -/

/-- **THE SIGNATURE HASH STREAM IS ITS PREIMAGE**: the stream `calc_schnorr_signature_hash`
    hashes is equal for two preimages exactly when the preimages are equal, when
    their script lengths fit. -/
theorem SigHashPreimage.write_eq_iff (p₁ p₂ : SigHashPreimage)
    (h₁ : p₁.script_public_key.script.length < 2 ^ 64)
    (h₂ : p₂.script_public_key.script.length < 2 ^ 64) :
    p₁.write = p₂.write ↔ p₁ = p₂ := by
  refine ⟨fun h => ?_, fun h => h ▸ rfl⟩
  simp only [SigHashPreimage.write, hash_outpoint_eq, List.append_assoc] at h
  obtain ⟨hversion, h⟩ := recovers_write_u16 _ _ _ _ trivial trivial h
  obtain ⟨hprevious, h⟩ := recovers_hash_bytes _ _ _ _ trivial trivial h
  obtain ⟨hsequences, h⟩ := recovers_hash_bytes _ _ _ _ trivial trivial h
  obtain ⟨hsig_ops, h⟩ := recovers_hash_bytes _ _ _ _ trivial trivial h
  obtain ⟨houtpoint, h⟩ := recovers_write_outpoint _ _ _ _ trivial trivial h
  obtain ⟨hspk, h⟩ := recovers_hash_script_public_key _ _ _ _ h₁ h₂ h
  obtain ⟨hamount, h⟩ := recovers_write_u64 _ _ _ _ trivial trivial h
  obtain ⟨hsequence, h⟩ := recovers_write_u64 _ _ _ _ trivial trivial h
  obtain ⟨hcount, h⟩ := recovers_write_u8 _ _ _ _ trivial trivial h
  obtain ⟨houtputs, h⟩ := recovers_hash_bytes _ _ _ _ trivial trivial h
  obtain ⟨hlock, h⟩ := recovers_write_u64 _ _ _ _ trivial trivial h
  obtain ⟨hsubnetwork, h⟩ := recovers_subnetwork_id_bytes _ _ _ _ trivial trivial h
  obtain ⟨hgas, h⟩ := recovers_write_u64 _ _ _ _ trivial trivial h
  obtain ⟨hpayload, h⟩ := recovers_hash_bytes _ _ _ _ trivial trivial h
  obtain ⟨htype, -⟩ := recovers_write_u8 _ _ [] [] trivial trivial (by simpa using h)
  exact SigHashPreimage.ext hversion hprevious hsequences hsig_ops houtpoint hspk hamount
    hsequence hcount houtputs hlock hsubnetwork hgas hpayload htype

/-- `hash_output` reads only the output's fields. -/
theorem hash_output_eq_of_fields (a b : TransactionOutput) (h : output_fields a = output_fields b) :
    hash_output a = hash_output b := by
  simp only [output_fields, Prod.mk.injEq] at h
  simp only [hash_output, h.1, h.2]

/-- `outputs_hash` reads only the outputs' fields. -/
theorem outputs_hash_eq_of_fields (TransactionSigningHash : Bytes → Hash) {tx₁ tx₂ : Transaction}
    (hash_type : SigHashType) (reused_values : SigHashReusedValues) (input_index : ℕ)
    (h : tx₁.outputs.map output_fields = tx₂.outputs.map output_fields) :
    outputs_hash TransactionSigningHash tx₁ hash_type reused_values input_index =
      outputs_hash TransactionSigningHash tx₂ hash_type reused_values input_index := by
  unfold outputs_hash
  split_ifs with hnone hsingle
  · rfl
  · -- the output at the input's index, if any, has the same fields on both sides
    have hi := congrArg (·[input_index]?) h
    simp only [List.getElem?_map] at hi
    cases h₁ : tx₁.outputs[input_index]? with
    | none =>
        cases h₂ : tx₂.outputs[input_index]? with
        | none => rfl
        | some o₂ => simp [h₁, h₂] at hi
    | some o₁ =>
        cases h₂ : tx₂.outputs[input_index]? with
        | none => simp [h₁, h₂] at hi
        | some o₂ =>
            simp only [h₁, h₂, Option.map_some, Option.some.injEq] at hi
            simp only [hash_output_eq_of_fields o₁ o₂ hi]
  · rw [flatMap_eq_of_map_eq hash_output output_fields hash_output_eq_of_fields _ _ h]

/-- Under `TX_ENCODING_FULL` an input's fields are the whole input. -/
theorem input_fields_full_injective : Function.Injective (input_fields TX_ENCODING_FULL) := by
  intro a b h
  simp only [input_fields, Prod.mk.injEq] at h
  obtain ⟨houtpoint, hscript, hsequence⟩ := h
  have hfull : includes_signature_script TX_ENCODING_FULL = true := rfl
  simp only [hfull, if_true, Option.some.injEq, Prod.mk.injEq] at hscript
  cases a
  cases b
  simp_all

/-- **THE SIGNATURE HASH READS ONLY THE WRITTEN FIELDS**: two transactions with the same
    fields under `TX_ENCODING_FULL`, spending the same entries, have the same
    preimage for every input, hash type and reused values. -/
theorem signature_hash_preimage_eq_of_fields (TransactionSigningHash : Bytes → Hash)
    {tx₁ tx₂ : Transaction} {entries : List UtxoEntry}
    (h₁ : entries.length = tx₁.inputs.length) (h₂ : entries.length = tx₂.inputs.length)
    (input_index : ℕ) (hash_type : SigHashType) (reused_values : SigHashReusedValues)
    (h : transaction_fields TX_ENCODING_FULL false tx₁ = transaction_fields TX_ENCODING_FULL false tx₂) :
    signature_hash_preimage TransactionSigningHash ⟨tx₁, entries, h₁⟩ input_index hash_type
        reused_values =
      signature_hash_preimage TransactionSigningHash ⟨tx₂, entries, h₂⟩ input_index hash_type
        reused_values := by
  simp only [transaction_fields, TransactionFields.mk.injEq] at h
  obtain ⟨hversion, hinputs, houtputs, hlock, hsubnetwork, hgas, hpayload, -⟩ := h
  have hin : tx₁.inputs = tx₂.inputs := List.map_injective_iff.mpr input_fields_full_injective hinputs
  have hout := fun r => outputs_hash_eq_of_fields TransactionSigningHash hash_type r input_index houtputs
  obtain ⟨v₁, i₁, o₁, a₁, l₁, s₁, g₁, p₁, m₁, d₁⟩ := tx₁
  obtain ⟨v₂, i₂, o₂, a₂, l₂, s₂, g₂, p₂, m₂, d₂⟩ := tx₂
  simp only at hversion hin hlock hsubnetwork hgas hpayload houtputs hout
  subst hversion hin hlock hsubnetwork hgas hpayload
  -- the other sub-hashes read only inputs, subnetwork and payload, now shared
  unfold signature_hash_preimage
  simp only [PopulatedTransaction.populated_inputs, hout]
  rfl

/-- The signature hash of an input that exists is computed: `populated_input` does
    not panic. -/
theorem signature_hash_preimage_isSome (TransactionSigningHash : Bytes → Hash)
    (tx : PopulatedTransaction) {input_index : ℕ} (h : input_index < tx.tx.inputs.length)
    (hash_type : SigHashType) (reused_values : SigHashReusedValues) :
    (signature_hash_preimage TransactionSigningHash tx input_index hash_type
      reused_values).isSome := by
  have hlt : input_index < tx.populated_inputs.length := by
    rw [PopulatedTransaction.populated_inputs, List.length_zip, tx.entries_length, min_self]
    exact h
  unfold signature_hash_preimage
  rw [List.getElem?_eq_getElem hlt]
  rfl

theorem calc_schnorr_signature_hash_isSome (TransactionSigningHash : Bytes → Hash)
    (tx : PopulatedTransaction) {input_index : ℕ} (h : input_index < tx.tx.inputs.length)
    (hash_type : SigHashType) (reused_values : SigHashReusedValues) :
    (calc_schnorr_signature_hash TransactionSigningHash tx input_index hash_type
      reused_values).isSome := by
  rw [calc_schnorr_signature_hash, Option.isSome_map]
  exact signature_hash_preimage_isSome TransactionSigningHash tx h hash_type reused_values

theorem calc_ecdsa_signature_hash_isSome
    (TransactionSigningHash TransactionSigningHashECDSA : Bytes → Hash)
    (tx : PopulatedTransaction) {input_index : ℕ} (h : input_index < tx.tx.inputs.length)
    (hash_type : SigHashType) (reused_values : SigHashReusedValues) :
    (calc_ecdsa_signature_hash TransactionSigningHash TransactionSigningHashECDSA tx input_index
      hash_type reused_values).isSome := by
  rw [calc_ecdsa_signature_hash, Option.isSome_map]
  exact calc_schnorr_signature_hash_isSome TransactionSigningHash tx h hash_type reused_values

/-! ## The action and the asset types are not committed -/

/-- A KSH transfer spending one output. -/
def transfer_ksh : Transaction :=
  ⟨0, [⟨⟨ZERO_HASH, 0⟩, [], 0, 1⟩], [⟨10, ⟨0, []⟩, .KSH⟩], .TransferKSH, 0,
    SUBNETWORK_ID_NATIVE, 0, [], 0, ZERO_HASH⟩

/-- The same transaction as a KUSD mint. -/
def mint_kusd : Transaction :=
  { transfer_ksh with action := .MintKUSD, outputs := [⟨10, ⟨0, []⟩, .KUSD⟩] }

/-- The entry both transactions spend. -/
def spent_ksh : UtxoEntry := ⟨10, ⟨0, []⟩, 0, false, .KSH⟩

/-- The same entry, holding KUSD. -/
def spent_kusd : UtxoEntry := { spent_ksh with asset_type := .KUSD }

/-- A KSH transfer and a KUSD mint that differ only in their action and in their
    output's asset have one transaction stream under every flag (so one id and one
    hash), and one signature hash preimage for every input; a KSH entry and a KUSD
    entry that differ only in their asset have one MuHash element. -/
theorem commitments_omit_action_and_asset_type :
    mint_kusd.action ≠ transfer_ksh.action ∧
      (∀ encoding_flags include_mass_field,
        write_transaction mint_kusd encoding_flags include_mass_field =
          write_transaction transfer_ksh encoding_flags include_mass_field) ∧
      (∀ TransactionSigningHash input_index hash_type reused_values,
        signature_hash_preimage TransactionSigningHash ⟨mint_kusd, [spent_ksh], rfl⟩
            input_index hash_type reused_values =
          signature_hash_preimage TransactionSigningHash ⟨transfer_ksh, [spent_ksh], rfl⟩
            input_index hash_type reused_values) ∧
      spent_kusd.asset_type ≠ spent_ksh.asset_type ∧
      ∀ outpoint, write_utxo spent_kusd outpoint = write_utxo spent_ksh outpoint := by
  refine ⟨by decide, fun _ _ => write_transaction_eq_of_fields rfl,
    fun H input_index hash_type reused_values => ?_, by decide, fun _ => rfl⟩
  exact signature_hash_preimage_eq_of_fields H rfl rfl input_index hash_type reused_values rfl

/-- **WHAT THE COMMITMENTS COVER**: the transaction stream (hashed for the id and the
    hash) is equal exactly when the written fields are; the signature hash stream is
    equal exactly when its preimage is, and the preimage reads only the written
    fields and the spent entries; the UTXO stream is equal exactly when the outpoint
    and every field of the entry but its asset are. Lengths fit in a `u64`. -/
theorem commitments_cover_written_fields :
    (∀ (tx₁ tx₂ : Transaction) (encoding_flags : UInt8) (include_mass_field : Bool),
      LengthsFit tx₁ → LengthsFit tx₂ →
      (write_transaction tx₁ encoding_flags include_mass_field =
          write_transaction tx₂ encoding_flags include_mass_field ↔
        transaction_fields encoding_flags include_mass_field tx₁ =
          transaction_fields encoding_flags include_mass_field tx₂)) ∧
    (∀ p₁ p₂ : SigHashPreimage, p₁.script_public_key.script.length < 2 ^ 64 →
      p₂.script_public_key.script.length < 2 ^ 64 → (p₁.write = p₂.write ↔ p₁ = p₂)) ∧
    (∀ (TransactionSigningHash : Bytes → Hash) (tx₁ tx₂ : Transaction)
      (entries : List UtxoEntry) (h₁ : entries.length = tx₁.inputs.length)
      (h₂ : entries.length = tx₂.inputs.length) (input_index : ℕ) (hash_type : SigHashType)
      (reused_values : SigHashReusedValues),
      transaction_fields TX_ENCODING_FULL false tx₁ =
          transaction_fields TX_ENCODING_FULL false tx₂ →
        signature_hash_preimage TransactionSigningHash ⟨tx₁, entries, h₁⟩ input_index
            hash_type reused_values =
          signature_hash_preimage TransactionSigningHash ⟨tx₂, entries, h₂⟩ input_index
            hash_type reused_values) ∧
    (∀ (entry₁ entry₂ : UtxoEntry) (outpoint₁ outpoint₂ : TransactionOutpoint),
      entry₁.script_public_key.script.length < 2 ^ 64 →
      entry₂.script_public_key.script.length < 2 ^ 64 →
      (write_utxo entry₁ outpoint₁ = write_utxo entry₂ outpoint₂ ↔
        outpoint₁ = outpoint₂ ∧ utxo_fields entry₁ = utxo_fields entry₂)) :=
  ⟨write_transaction_eq_iff, SigHashPreimage.write_eq_iff,
    fun H _ _ _ h₁ h₂ input_index hash_type reused_values h =>
      signature_hash_preimage_eq_of_fields H h₁ h₂ input_index hash_type reused_values h,
    write_utxo_eq_iff⟩

theorem transfer_ksh_lengthsFit : LengthsFit transfer_ksh :=
  ⟨by decide, by decide, by decide, by decide, by decide⟩

theorem mint_kusd_lengthsFit : LengthsFit mint_kusd :=
  ⟨by decide, by decide, by decide, by decide, by decide⟩

/-- The zero preimage of a signature hash, for the given amount. -/
def preimage_of_amount (amount : UInt64) : SigHashPreimage :=
  ⟨0, ZERO_HASH, ZERO_HASH, ZERO_HASH, ⟨ZERO_HASH, 0⟩, ⟨0, []⟩, amount, 0, 1, ZERO_HASH, 0,
    SUBNETWORK_ID_NATIVE, 0, ZERO_HASH, SIG_HASH_ALL.to_u8⟩

/-- The commitments at the transfer and the mint: their streams and their fields are
    equal, and so are their preimages; two preimages of different amounts have
    different streams; the KSH and KUSD entries have equal elements and fields. -/
theorem commitments_cover_written_fields_transfer :
    (write_transaction transfer_ksh TX_ENCODING_FULL false =
        write_transaction mint_kusd TX_ENCODING_FULL false ↔
      transaction_fields TX_ENCODING_FULL false transfer_ksh =
        transaction_fields TX_ENCODING_FULL false mint_kusd) ∧
    ((preimage_of_amount 10).write = (preimage_of_amount 20).write ↔
      preimage_of_amount 10 = preimage_of_amount 20) ∧
    signature_hash_preimage (fun _ => ZERO_HASH) ⟨transfer_ksh, [spent_ksh], rfl⟩ 0
        SIG_HASH_ALL SigHashReusedValues.new =
      signature_hash_preimage (fun _ => ZERO_HASH) ⟨mint_kusd, [spent_ksh], rfl⟩ 0
        SIG_HASH_ALL SigHashReusedValues.new ∧
    (write_utxo spent_ksh ⟨ZERO_HASH, 0⟩ = write_utxo spent_kusd ⟨ZERO_HASH, 0⟩ ↔
      (⟨ZERO_HASH, 0⟩ : TransactionOutpoint) = ⟨ZERO_HASH, 0⟩ ∧
        utxo_fields spent_ksh = utxo_fields spent_kusd) :=
  ⟨commitments_cover_written_fields.1 transfer_ksh mint_kusd TX_ENCODING_FULL false
      transfer_ksh_lengthsFit mint_kusd_lengthsFit,
    commitments_cover_written_fields.2.1 _ _ (by decide) (by decide),
    commitments_cover_written_fields.2.2.1 (fun _ => ZERO_HASH) transfer_ksh mint_kusd
      [spent_ksh] rfl rfl 0 SIG_HASH_ALL SigHashReusedValues.new rfl,
    commitments_cover_written_fields.2.2.2 spent_ksh spent_kusd ⟨ZERO_HASH, 0⟩ ⟨ZERO_HASH, 0⟩
      (by decide) (by decide)⟩

end KashHashing
