import Kash.HashingProofs

/-! # The reused signature-hash values are a transparent cache

    `SigHashReusedValues` holds four hashes shared by all inputs of a transaction,
    filled by the first call that needs each. A call reads a slot only on the paths
    where a fresh call would compute the same stream's hash, and fills a slot only
    with that hash. So a cache whose every slot is empty or holds the hash of its
    stream (`SigHashReusedValues.Coherent`) gives each call the hash a fresh cache
    gives, and stays such a cache (`calc_schnorr_signature_hash_coherent`).

    The four streams read the outpoints, sequences and signature-operation counts of
    the inputs and the outputs, never a signature script; so one cache serves every
    transaction that differs from another only in its signature scripts
    (`coherent_congr`). -/

namespace KashHashing

open KashTx

variable (TransactionSigningHash : Bytes → Hash)

/-! ## Coherent caches -/

/-- A cache slot holds nothing, or the value it stands for. -/
def Cached (slot : Option Hash) (value : Hash) : Prop := ∀ h, slot = some h → h = value

theorem cached_none (value : Hash) : Cached none value := fun _ h => nomatch h

theorem cached_some (value : Hash) : Cached (some value) value :=
  fun _ h => (Option.some.inj h).symm

/-- Every hash the reused values hold is the hash of the stream of `tx` it stands
    for. -/
structure SigHashReusedValues.Coherent (r : SigHashReusedValues) (tx : Transaction) : Prop where
  previous_outputs :
    Cached r.previous_outputs_hash (TransactionSigningHash (previous_outputs_stream tx))
  sequences : Cached r.sequences_hash (TransactionSigningHash (sequences_stream tx))
  sig_op_counts : Cached r.sig_op_counts_hash (TransactionSigningHash (sig_op_counts_stream tx))
  outputs : Cached r.outputs_hash (TransactionSigningHash (tx.outputs.flatMap hash_output))

theorem SigHashReusedValues.coherent_new (tx : Transaction) :
    SigHashReusedValues.new.Coherent TransactionSigningHash tx :=
  ⟨cached_none _, cached_none _, cached_none _, cached_none _⟩

/-- A transaction with its signature scripts erased: what the cached streams read. -/
def without_signature_scripts (tx : Transaction) : Transaction :=
  { tx with inputs := tx.inputs.map fun input => { input with signature_script := [] } }

/-- Transactions that differ only in their signature scripts have the same cached
    streams, so a cache coherent for one is coherent for the other. -/
theorem coherent_congr {tx tx' : Transaction} {r : SigHashReusedValues}
    (htx : without_signature_scripts tx = without_signature_scripts tx')
    (hr : r.Coherent TransactionSigningHash tx) : r.Coherent TransactionSigningHash tx' := by
  -- each stream of a transaction is the stream of its erased form
  have hinputs : tx.inputs.map (fun input => { input with signature_script := [] }) =
      tx'.inputs.map (fun input => { input with signature_script := [] }) :=
    congrArg Transaction.inputs htx
  have houtputs : tx.outputs = tx'.outputs := by
    have := congrArg Transaction.outputs htx
    exact this
  have hprev : previous_outputs_stream tx = previous_outputs_stream tx' := by
    have := congrArg (List.flatMap fun input : TransactionInput =>
      input.previous_outpoint.transaction_id.bytes ++ write_u32 input.previous_outpoint.index)
      hinputs
    simpa only [previous_outputs_stream, List.flatMap_map] using this
  have hseq : sequences_stream tx = sequences_stream tx' := by
    have := congrArg (List.flatMap fun input : TransactionInput => write_u64 input.sequence)
      hinputs
    simpa only [sequences_stream, List.flatMap_map] using this
  have hsig : sig_op_counts_stream tx = sig_op_counts_stream tx' := by
    have := congrArg (List.flatMap fun input : TransactionInput => write_u8 input.sig_op_count)
      hinputs
    simpa only [sig_op_counts_stream, List.flatMap_map] using this
  exact ⟨hprev ▸ hr.previous_outputs, hseq ▸ hr.sequences, hsig ▸ hr.sig_op_counts,
    houtputs ▸ hr.outputs⟩

/-! ## Each sub-hash -/

section SubHashes

variable {TransactionSigningHash} {tx : Transaction} (hash_type : SigHashType)
  {r : SigHashReusedValues}

theorem previous_outputs_hash_coherent (hr : r.Coherent TransactionSigningHash tx) :
    (previous_outputs_hash TransactionSigningHash tx hash_type r).1 =
      (previous_outputs_hash TransactionSigningHash tx hash_type .new).1 ∧
    (previous_outputs_hash TransactionSigningHash tx hash_type r).2.Coherent
      TransactionSigningHash tx := by
  unfold previous_outputs_hash
  split_ifs
  · exact ⟨rfl, hr⟩
  · cases hslot : r.previous_outputs_hash with
    | some h => exact ⟨hr.previous_outputs h hslot, hr⟩
    | none => exact ⟨rfl, { hr with previous_outputs := cached_some _ }⟩

theorem sequences_hash_coherent (hr : r.Coherent TransactionSigningHash tx) :
    (sequences_hash TransactionSigningHash tx hash_type r).1 =
      (sequences_hash TransactionSigningHash tx hash_type .new).1 ∧
    (sequences_hash TransactionSigningHash tx hash_type r).2.Coherent
      TransactionSigningHash tx := by
  unfold sequences_hash
  split_ifs
  · exact ⟨rfl, hr⟩
  · cases hslot : r.sequences_hash with
    | some h => exact ⟨hr.sequences h hslot, hr⟩
    | none => exact ⟨rfl, { hr with sequences := cached_some _ }⟩

theorem sig_op_counts_hash_coherent (hr : r.Coherent TransactionSigningHash tx) :
    (sig_op_counts_hash TransactionSigningHash tx hash_type r).1 =
      (sig_op_counts_hash TransactionSigningHash tx hash_type .new).1 ∧
    (sig_op_counts_hash TransactionSigningHash tx hash_type r).2.Coherent
      TransactionSigningHash tx := by
  unfold sig_op_counts_hash
  split_ifs
  · exact ⟨rfl, hr⟩
  · cases hslot : r.sig_op_counts_hash with
    | some h => exact ⟨hr.sig_op_counts h hslot, hr⟩
    | none => exact ⟨rfl, { hr with sig_op_counts := cached_some _ }⟩

/-- `SIG_HASH_SINGLE` hashes its one output without the cache. -/
theorem outputs_hash_coherent (hr : r.Coherent TransactionSigningHash tx) (input_index : ℕ) :
    (outputs_hash TransactionSigningHash tx hash_type r input_index).1 =
      (outputs_hash TransactionSigningHash tx hash_type .new input_index).1 ∧
    (outputs_hash TransactionSigningHash tx hash_type r input_index).2.Coherent
      TransactionSigningHash tx := by
  unfold outputs_hash
  split_ifs
  · exact ⟨rfl, hr⟩
  · cases tx.outputs[input_index]? with
    | none => exact ⟨rfl, hr⟩
    | some output => exact ⟨rfl, hr⟩
  · cases hslot : r.outputs_hash with
    | some h => exact ⟨hr.outputs h hslot, hr⟩
    | none => exact ⟨rfl, { hr with outputs := cached_some _ }⟩

end SubHashes

/-! ## One call -/

section Call

variable {TransactionSigningHash} {tx : PopulatedTransaction} (input_index : ℕ)
  (hash_type : SigHashType) {r : SigHashReusedValues}

/-- **ONE CALL**: on a coherent cache, the signature hash preimage is the one a fresh
    cache gives, and the cache stays coherent. -/
theorem signature_hash_preimage_coherent (hr : r.Coherent TransactionSigningHash tx.tx) :
    (signature_hash_preimage TransactionSigningHash tx input_index hash_type r).map Prod.fst =
      (signature_hash_preimage TransactionSigningHash tx input_index hash_type .new).map
        Prod.fst ∧
    ∀ p ∈ signature_hash_preimage TransactionSigningHash tx input_index hash_type r,
      p.2.Coherent TransactionSigningHash tx.tx := by
  unfold signature_hash_preimage
  cases tx.populated_inputs[input_index]? with
  | none => exact ⟨rfl, fun _ hp => nomatch hp⟩
  | some ie =>
      -- the four sub-hashes in turn, each on the cache the previous one left, on
      -- both sides
      have hnew := SigHashReusedValues.coherent_new TransactionSigningHash tx.tx
      obtain ⟨h₁, c₁⟩ := previous_outputs_hash_coherent hash_type hr
      obtain ⟨h₁', c₁'⟩ := previous_outputs_hash_coherent hash_type hnew
      obtain ⟨h₂, c₂⟩ := sequences_hash_coherent hash_type c₁
      obtain ⟨h₂', c₂'⟩ := sequences_hash_coherent hash_type c₁'
      obtain ⟨h₃, c₃⟩ := sig_op_counts_hash_coherent hash_type c₂
      obtain ⟨h₃', c₃'⟩ := sig_op_counts_hash_coherent hash_type c₂'
      obtain ⟨h₄, c₄⟩ := outputs_hash_coherent hash_type c₃ input_index
      obtain ⟨h₄', -⟩ := outputs_hash_coherent hash_type c₃' input_index
      refine ⟨?_, ?_⟩
      · simp only [Option.map_some]
        rw [h₁, h₂, h₃, h₄, h₂', h₃', h₄']
      · intro p hp
        cases hp
        exact c₄

theorem calc_schnorr_signature_hash_coherent (hr : r.Coherent TransactionSigningHash tx.tx) :
    (calc_schnorr_signature_hash TransactionSigningHash tx input_index hash_type r).map
        Prod.fst =
      (calc_schnorr_signature_hash TransactionSigningHash tx input_index hash_type .new).map
        Prod.fst ∧
    ∀ p ∈ calc_schnorr_signature_hash TransactionSigningHash tx input_index hash_type r,
      p.2.Coherent TransactionSigningHash tx.tx := by
  obtain ⟨hpre, hcoh⟩ := signature_hash_preimage_coherent input_index hash_type hr
  unfold calc_schnorr_signature_hash
  refine ⟨?_, ?_⟩
  · rw [Option.map_map, Option.map_map]
    have hcomp : (Prod.fst ∘ fun (pr : SigHashPreimage × SigHashReusedValues) =>
        (TransactionSigningHash pr.1.write, pr.2)) =
        (fun p => TransactionSigningHash p.write) ∘ Prod.fst := rfl
    rw [hcomp, ← Option.map_map, hpre, Option.map_map]
  · intro p hp
    obtain ⟨q, hq, rfl⟩ := Option.mem_map.mp hp
    exact hcoh q hq

end Call

/-! ## A run of calls sharing one cache -/

/-- Calls of `calc_schnorr_signature_hash` one after another, each on the cache the
    previous one left, as a verifier checking the inputs of a transaction makes them:
    the hashes, or `none` at the first call that panics. -/
def calc_schnorr_signature_hash_calls :
    SigHashReusedValues → List (PopulatedTransaction × ℕ × SigHashType) → Option (List Hash)
  | _, [] => some []
  | reused_values, (tx, input_index, hash_type) :: calls =>
      match calc_schnorr_signature_hash TransactionSigningHash tx input_index hash_type
          reused_values with
      | none => none
      | some (h, reused_values) =>
          (h :: ·) <$> calc_schnorr_signature_hash_calls reused_values calls

/-- A run from a cache coherent for `tx₀`, over transactions that differ from `tx₀`
    only in their signature scripts, returns what fresh caches return. -/
theorem calc_schnorr_signature_hash_calls_coherent (tx₀ : Transaction) :
    ∀ (calls : List (PopulatedTransaction × ℕ × SigHashType)) (r : SigHashReusedValues),
      (∀ c ∈ calls, without_signature_scripts c.1.tx = without_signature_scripts tx₀) →
      r.Coherent TransactionSigningHash tx₀ →
      calc_schnorr_signature_hash_calls TransactionSigningHash r calls =
        calls.mapM fun c => (calc_schnorr_signature_hash TransactionSigningHash c.1 c.2.1
          c.2.2 .new).map Prod.fst
  | [], _, _, _ => rfl
  | (tx, input_index, hash_type) :: calls, r, hcalls, hr => by
      have htx := hcalls _ List.mem_cons_self
      -- the cache is coherent for this call's transaction, and after it for `tx₀` again
      obtain ⟨hfst, hcoh⟩ := calc_schnorr_signature_hash_coherent input_index hash_type (coherent_congr TransactionSigningHash htx.symm hr)
      have ih := fun r' => calc_schnorr_signature_hash_calls_coherent tx₀ calls r'
        (fun c hc => hcalls c (List.mem_cons_of_mem _ hc))
      rw [List.mapM_cons, ← hfst, calc_schnorr_signature_hash_calls]
      cases hcall : calc_schnorr_signature_hash TransactionSigningHash tx input_index hash_type r
        with
      | none => rfl
      | some p =>
          obtain ⟨h, r'⟩ := p
          have hr' : r'.Coherent TransactionSigningHash tx₀ :=
            coherent_congr TransactionSigningHash htx (hcoh _ hcall)
          dsimp only
          rw [ih r' hr']
          cases calls.mapM fun c => (calc_schnorr_signature_hash TransactionSigningHash c.1
            c.2.1 c.2.2 .new).map Prod.fst <;> rfl

/-- **THE CACHE IS TRANSPARENT**: over transactions that differ only in their
    signature scripts, a run of signature-hash calls sharing one `SigHashReusedValues`,
    for any inputs and any hash types, returns for each call the hash that call
    returns with a fresh `SigHashReusedValues` (and panics where it panics). -/
theorem reused_values_transparent (tx₀ : Transaction)
    (calls : List (PopulatedTransaction × ℕ × SigHashType))
    (hcalls : ∀ c ∈ calls, without_signature_scripts c.1.tx = without_signature_scripts tx₀) :
    calc_schnorr_signature_hash_calls TransactionSigningHash SigHashReusedValues.new calls =
      calls.mapM fun c => (calc_schnorr_signature_hash TransactionSigningHash c.1 c.2.1 c.2.2
        .new).map Prod.fst :=
  calc_schnorr_signature_hash_calls_coherent TransactionSigningHash tx₀ calls _ hcalls
    (SigHashReusedValues.coherent_new TransactionSigningHash tx₀)

/-- The KSH transfer with a signature script on its input. -/
def transfer_ksh_signed : Transaction :=
  { transfer_ksh with inputs := [⟨⟨ZERO_HASH, 0⟩, [0x41], 0, 1⟩] }

/-- Two checks of the transfer's input, before and after it is signed. -/
def transfer_ksh_calls : List (PopulatedTransaction × ℕ × SigHashType) :=
  [(⟨transfer_ksh, [spent_ksh], rfl⟩, 0, SIG_HASH_ALL),
    (⟨transfer_ksh_signed, [spent_ksh], rfl⟩, 0, SIG_HASH_ALL)]

theorem reused_values_transparent_transfer_ksh :
    (∀ c ∈ transfer_ksh_calls,
      without_signature_scripts c.1.tx = without_signature_scripts transfer_ksh) ∧
    calc_schnorr_signature_hash_calls (fun _ => ZERO_HASH) SigHashReusedValues.new
        transfer_ksh_calls =
      transfer_ksh_calls.mapM fun c => (calc_schnorr_signature_hash (fun _ => ZERO_HASH) c.1
        c.2.1 c.2.2 .new).map Prod.fst := by
  have hcalls : ∀ c ∈ transfer_ksh_calls,
      without_signature_scripts c.1.tx = without_signature_scripts transfer_ksh := by
    decide
  exact ⟨hcalls, reused_values_transparent _ transfer_ksh _ hcalls⟩

end KashHashing
