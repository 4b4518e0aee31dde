import Kash.Pipeline.UtxoValidation
import Kash.UtxoDiffTransactionProofs
import Kash.Validation.TxValidatorProofs
import Mathlib

/-! # Parallel validation within a block is sequential validation

    `calculate_utxo_state` validates all the transactions of a merged block against
    the view at the start of the block, and adds the valid ones to the mergeset diff
    afterwards. That is the same as validating each transaction against everything
    accepted before it when no transaction of the block spends an outpoint that an
    earlier one spends or creates (`Independent`): adding a transaction changes the
    composed view only at the outpoints it spends and creates, so every later
    transaction reads the same entries either way. `check_block_double_spends` and
    `check_no_chained_transactions` are exactly these two conditions, so every block
    that passed `validate_body_in_isolation` has independent transactions.

    Then `calculate_utxo_state` succeeds, with the same context, exactly when the
    sequential pass does (`calculate_utxo_state_eq_ok_iff_sequential`). Neither pass
    always succeeds: a merged transaction spending an entry locked by
    `Op16 OpCheckMultiSig` makes the signature-operation count panic in
    `to_small_int` (`calculate_utxo_state_panics_on_op16_multisig`). -/

namespace KashPipeline

open KashTx KashHashing KashScript KashValidation KashCoinbase KashUtxoDiff KashMuHash
open ExceptLoops

/-! ## What the isolation checks give -/

/-- A loop of `HashSet::insert` that finds no repeat ran over a list without
    repeats that avoids the values inserted before it. -/
theorem first_repeat_eq_none {α : Type} [DecidableEq α] :
    ∀ (existing l : List α), first_repeat existing l = none → l.Nodup ∧ ∀ a ∈ l, a ∉ existing
  | _, [], _ => ⟨List.nodup_nil, fun _ h => nomatch h⟩
  | existing, a :: rest, h => by
      unfold first_repeat at h
      split_ifs at h with ha
      obtain ⟨hnd, hfresh⟩ := first_repeat_eq_none (a :: existing) rest h
      refine ⟨List.nodup_cons.mpr ⟨fun hmem => hfresh a hmem List.mem_cons_self, hnd⟩, ?_⟩
      intro b hb
      rcases List.mem_cons.mp hb with rfl | hb
      · exact ha
      · exact fun hmem => hfresh b hb (List.mem_cons_of_mem a hmem)

/-- No transaction of the list spends an outpoint that a transaction before it
    spends or creates. -/
def Independent : List Transaction → Prop
  | [] => True
  | tx :: rest => (∀ later ∈ rest, ∀ outpoint ∈ spent_outpoints later,
      outpoint ∉ spent_outpoints tx ∧ outpoint ∉ created_outpoints tx) ∧ Independent rest

/-- Transactions whose spent outpoints are all distinct and none of them created in
    the list are independent. -/
theorem independent_of_disjoint :
    ∀ (txs : List Transaction), (txs.flatMap spent_outpoints).Nodup →
      (∀ outpoint ∈ txs.flatMap spent_outpoints, outpoint ∉ txs.flatMap created_outpoints) →
      Independent txs
  | [], _, _ => trivial
  | tx :: rest, hnd, hchained => by
      rw [List.flatMap_cons, List.nodup_append] at hnd
      obtain ⟨-, hnd_rest, hdisjoint⟩ := hnd
      have hspent_rest : ∀ outpoint ∈ rest.flatMap spent_outpoints,
          outpoint ∈ (tx :: rest).flatMap spent_outpoints := by
        intro outpoint hout
        rw [List.flatMap_cons]
        exact List.mem_append_right _ hout
      refine ⟨fun later hlater outpoint hout => ⟨?_, ?_⟩, independent_of_disjoint rest hnd_rest ?_⟩
      · -- two inputs of the block spend distinct outpoints
        have hmem : outpoint ∈ rest.flatMap spent_outpoints :=
          List.mem_flatMap.mpr ⟨later, hlater, hout⟩
        exact fun hspent => hdisjoint outpoint hspent outpoint hmem rfl
      · -- no input spends an outpoint the block creates
        intro hcreated
        refine hchained outpoint (hspent_rest outpoint (List.mem_flatMap.mpr ⟨later, hlater, hout⟩)) ?_
        rw [List.flatMap_cons]
        exact List.mem_append_left _ hcreated
      · intro outpoint hout hcreated
        refine hchained outpoint (hspent_rest outpoint hout) ?_
        rw [List.flatMap_cons]
        exact List.mem_append_right _ hcreated

/-- **ISOLATION MAKES A BLOCK INDEPENDENT**: a block without double spends and
    chained transactions has independent transactions. -/
theorem independent_of_checks {block : Block}
    (hdouble : check_block_double_spends block = .ok ())
    (hchained : check_no_chained_transactions block = .ok ()) :
    Independent block.transactions := by
  unfold check_block_double_spends at hdouble
  unfold check_no_chained_transactions at hchained
  split at hdouble
  · cases hdouble
  rename_i hnone
  dsimp only at hchained
  split at hchained
  · cases hchained
  rename_i hfind
  apply independent_of_disjoint
  · exact (first_repeat_eq_none [] _ hnone).1
  · intro outpoint hout hcreated
    obtain ⟨tx, htx, hin⟩ := List.mem_flatMap.mp hout
    obtain ⟨input, hinput, rfl⟩ := List.mem_map.mp hin
    have hmem : input ∈ block.transactions.flatMap (·.inputs) := List.mem_flatMap.mpr ⟨tx, htx, hinput⟩
    exact List.find?_eq_none.mp hfind input hmem (decide_eq_true hcreated)

/-- A block that passed `validate_body_in_isolation` passed its double-spend and
    chained-transaction checks. -/
theorem checks_of_validate_body_in_isolation {bp : BlockBodyProcessor} {block : Block}
    {mass : UInt64} (h : bp.validate_body_in_isolation block = .ok mass) :
    check_block_double_spends block = .ok () ∧ check_no_chained_transactions block = .ok () := by
  unfold BlockBodyProcessor.validate_body_in_isolation at h
  simp only [bind_eq_ok, mapError_eq_ok] at h
  obtain ⟨-, -, -, -, -, -, -, -, -, -, -, -, ⟨⟩, hdouble, ⟨⟩, hchained, -⟩ := h
  exact ⟨hdouble, hchained⟩

/-- A block that passed `validate_body_in_isolation` has every transaction valid in
    isolation. -/
theorem transactions_valid_of_validate_body_in_isolation {bp : BlockBodyProcessor}
    {block : Block} {mass : UInt64} (h : bp.validate_body_in_isolation block = .ok mass) :
    ∀ tx ∈ block.transactions, bp.transaction_validator.validate_tx_in_isolation tx = .ok () := by
  unfold BlockBodyProcessor.validate_body_in_isolation at h
  simp only [bind_eq_ok, mapError_eq_ok] at h
  obtain ⟨-, -, -, -, -, -, ⟨⟩, hisolation, -⟩ := h
  unfold BlockBodyProcessor.check_transactions_in_isolation at hisolation
  intro tx htx
  exact (mapError_eq_ok _ _ _).mp ((forM_eq_ok _ _).mp hisolation tx htx)

/-- The transactions after the first of an independent list are independent. -/
theorem Independent.drop_one : ∀ {txs : List Transaction}, Independent txs → Independent (txs.drop 1)
  | [], _ => trivial
  | _ :: _, h => h.2

/-- Each list of transactions `calculate_utxo_state` merges is a block's. -/
theorem mem_block_transactions {selected_parent : Block} {mergeset : List Block}
    {txs : List Transaction}
    (htxs : txs ∈ selected_parent.transactions ::
      (mergeset.map fun block => (block.header.hash, block.transactions)).map Prod.snd) :
    ∃ block ∈ selected_parent :: mergeset, block.transactions = txs := by
  rcases List.mem_cons.mp htxs with rfl | hmerged
  · exact ⟨selected_parent, List.mem_cons_self, rfl⟩
  · rw [List.map_map] at hmerged
    obtain ⟨block, hblock, rfl⟩ := List.mem_map.mp hmerged
    exact ⟨block, List.mem_cons_of_mem _ hblock, rfl⟩

/-- The blocks of a chain block's mergeset that passed `validate_body_in_isolation`
    have independent transactions after their coinbases. -/
theorem independent_of_bodies {bp : BlockBodyProcessor} {selected_parent : Block}
    {mergeset : List Block}
    (hbodies : ∀ block ∈ selected_parent :: mergeset,
      ∃ mass, bp.validate_body_in_isolation block = .ok mass) :
    ∀ txs ∈ selected_parent.transactions ::
      (mergeset.map fun block => (block.header.hash, block.transactions)).map Prod.snd,
      Independent (txs.drop 1) := by
  intro txs htxs
  obtain ⟨block, hblock, rfl⟩ := mem_block_transactions htxs
  obtain ⟨mass, hmass⟩ := hbodies block hblock
  obtain ⟨hdouble, hchained⟩ := checks_of_validate_body_in_isolation hmass
  exact (independent_of_checks hdouble hchained).drop_one

/-! ## Validation reads the spent outpoints only -/

/-- The entries looked up for the inputs depend on the view at their outpoints only. -/
theorem lookup_entries_congr {utxo_view utxo_view' : UtxoView} :
    ∀ {inputs : List TransactionInput},
      (∀ input ∈ inputs, utxo_view input.previous_outpoint = utxo_view' input.previous_outpoint) →
      lookup_entries utxo_view inputs = lookup_entries utxo_view' inputs
  | [], _ => rfl
  | input :: rest, h => by
      have hrest := lookup_entries_congr fun i hi => h i (List.mem_cons_of_mem input hi)
      simp only [lookup_entries, h input List.mem_cons_self, hrest]

/-- `populate` keeps the transaction. -/
theorem populate_tx {utxo_view : UtxoView} {tx : Transaction} {ptx : PopulatedTransaction}
    (h : populate utxo_view tx = some ptx) : ptx.tx = tx := by
  unfold populate at h
  split at h
  · cases h
  · cases h
    rfl

/-- `populate` depends on the view at the spent outpoints only. -/
theorem populate_congr {utxo_view utxo_view' : UtxoView} {tx : Transaction}
    (h : ∀ outpoint ∈ spent_outpoints tx, utxo_view outpoint = utxo_view' outpoint) :
    populate utxo_view tx = populate utxo_view' tx := by
  have hlookup : lookup_entries utxo_view tx.inputs = lookup_entries utxo_view' tx.inputs :=
    lookup_entries_congr fun input hinput => h _ (List.mem_map_of_mem hinput)
  unfold populate
  split <;> split <;> simp_all

/-- `unwrap` succeeds with the value of a success. -/
@[simp] theorem unwrap_eq_ok {ε α : Type} (x : Except ε α) (a : α) :
    unwrap x = .ok a ↔ x = .ok a := by
  cases x <;> simp [unwrap]

/-- A validation that `.ok()` keeps succeeded. -/
@[simp] theorem ok_or_panic_eq_some {α : Type} (x : Except TxFault α) (a : α) :
    ok_or_panic x = .ok (some a) ↔ x = .ok a := by
  cases x with
  | ok b => simp [ok_or_panic]
  | error e => cases e <;> simp [ok_or_panic]

namespace VirtualStateProcessor

variable {G : Type} (p : VirtualStateProcessor G)

/-- Validation against a view depends on the view at the spent outpoints only. -/
theorem validate_transaction_in_utxo_context_congr {utxo_view utxo_view' : UtxoView}
    {tx : Transaction} (pov_daa_score : UInt64) (flags : TxValidationFlags)
    (h : ∀ outpoint ∈ spent_outpoints tx, utxo_view outpoint = utxo_view' outpoint) :
    p.validate_transaction_in_utxo_context tx utxo_view pov_daa_score flags =
      p.validate_transaction_in_utxo_context tx utxo_view' pov_daa_score flags := by
  unfold validate_transaction_in_utxo_context
  rw [populate_congr h]

/-- A transaction validated against a view is that transaction, populated. -/
theorem validate_transaction_in_utxo_context_tx {utxo_view : UtxoView} {tx : Transaction}
    {pov_daa_score : UInt64} {flags : TxValidationFlags} {validated_tx : ValidatedTransaction}
    (h : p.validate_transaction_in_utxo_context tx utxo_view pov_daa_score flags = .ok validated_tx) :
    validated_tx.tx = tx := by
  unfold validate_transaction_in_utxo_context at h
  split at h
  · cases h
  · rename_i populated_tx hpopulate
    split at h
    · cases h
      exact populate_tx hpopulate
    · cases h

/-- The parallel loop at a transaction: its validation, then the rest. -/
theorem validate_transactions_from_cons_eq_ok {utxo_view : UtxoView} {pov_daa_score : UInt64}
    {flags : TxValidationFlags} {index : ℕ} {tx : Transaction} {rest : List Transaction}
    {validated : List (ValidatedTransaction × UInt32)} :
    p.validate_transactions_from utxo_view pov_daa_score flags index (tx :: rest) = .ok validated ↔
      ∃ first others,
        ok_or_panic (p.validate_transaction_in_utxo_context tx utxo_view pov_daa_score flags) =
          .ok first ∧
        p.validate_transactions_from utxo_view pov_daa_score flags (index + 1) rest = .ok others ∧
        validated = (first.map fun vtx => (vtx, UInt32.ofNat index)).toList ++ others := by
  rw [validate_transactions_from, bind_eq_ok]
  constructor
  · rintro ⟨first, hfirst, hrest⟩
    obtain ⟨others, hothers, hpure⟩ := (bind_eq_ok _ _ _).mp hrest
    cases hpure
    exact ⟨first, others, hfirst, hothers, rfl⟩
  · rintro ⟨first, others, hfirst, hothers, rfl⟩
    exact ⟨first, hfirst, (bind_eq_ok _ _ _).mpr ⟨others, hothers, rfl⟩⟩

/-! ## Accepting a transaction -/

variable [CommGroup G]

/-- Accepting a transaction adds it to the mergeset diff. -/
theorem accept_transaction_diff {pov_daa_score : UInt64} {ctx ctx' : UtxoProcessingContext G}
    {block_fee block_fee' : UInt64} {validated_tx : ValidatedTransaction}
    (h : p.accept_transaction pov_daa_score (ctx, block_fee) validated_tx = .ok (ctx', block_fee')) :
    add_transaction ctx.mergeset_diff validated_tx.toPopulatedTransaction pov_daa_score =
      .ok ctx'.mergeset_diff := by
  simp only [accept_transaction, bind_eq_ok, unwrap_eq_ok] at h
  obtain ⟨mergeset_diff, hdiff, _, -, hpure⟩ := h
  cases hpure
  exact hdiff

/-- Accepting a transaction leaves what the composed view reads at every outpoint
    the transaction neither spends nor creates. -/
theorem compose_accept_transaction_of_not_mem (base : UtxoView) {pov_daa_score : UInt64}
    {state state' : UtxoProcessingContext G × UInt64} {validated_tx : ValidatedTransaction}
    {o : TransactionOutpoint}
    (h : p.accept_transaction pov_daa_score state validated_tx = .ok state')
    (hspent : o ∉ spent_outpoints validated_tx.tx)
    (hcreated : o ∉ created_outpoints validated_tx.tx) :
    compose base state'.1.mergeset_diff o = compose base state.1.mergeset_diff o := by
  obtain ⟨ctx, block_fee⟩ := state
  obtain ⟨ctx', block_fee'⟩ := state'
  exact compose_add_transaction_of_not_mem base (p.accept_transaction_diff h) hspent hcreated

/-! ## One block -/

/-- The sequential loop at a transaction: its validation against the view so far,
    its acceptance if it is valid, then the rest. -/
theorem sequential_transactions_from_cons_eq_ok {selected_parent_utxo_view : UtxoView}
    {pov_daa_score : UInt64} {flags : TxValidationFlags} {index : ℕ}
    {state : UtxoProcessingContext G × UInt64} {accepted : List (ValidatedTransaction × UInt32)}
    {tx : Transaction} {rest : List Transaction}
    {r : (UtxoProcessingContext G × UInt64) × List (ValidatedTransaction × UInt32)} :
    p.sequential_transactions_from selected_parent_utxo_view pov_daa_score flags index
        (state, accepted) (tx :: rest) = .ok r ↔
      ∃ first, ok_or_panic (p.validate_transaction_in_utxo_context tx
          (compose selected_parent_utxo_view state.1.mergeset_diff) pov_daa_score flags) =
          .ok first ∧
        match first with
        | none => p.sequential_transactions_from selected_parent_utxo_view pov_daa_score flags
            (index + 1) (state, accepted) rest = .ok r
        | some validated_tx => ∃ state',
            p.accept_transaction pov_daa_score state validated_tx = .ok state' ∧
            p.sequential_transactions_from selected_parent_utxo_view pov_daa_score flags
              (index + 1) (state', accepted ++ [(validated_tx, UInt32.ofNat index)]) rest = .ok r := by
  rw [sequential_transactions_from, bind_eq_ok]
  constructor <;> rintro ⟨first, hfirst, hrest⟩ <;> refine ⟨first, hfirst, ?_⟩ <;> cases first <;>
    simpa only [bind_eq_ok] using hrest

/-- **ONE BLOCK, ONE TRANSACTION AT A TIME**: over independent transactions whose
    spent outpoints read in the composed view what they read in a frozen view, the
    sequential pass succeeds exactly when validating them all against the frozen
    view and then accepting the valid ones in order succeeds, with the same result.
    The induction carries the hypothesis on the views: accepting a transaction
    changes the composed view at outpoints the later transactions do not spend. -/
theorem sequential_transactions_from_eq_ok (selected_parent_utxo_view frozen_view : UtxoView)
    (pov_daa_score : UInt64) (flags : TxValidationFlags) :
    ∀ (txs : List Transaction) (index : ℕ) (state : UtxoProcessingContext G × UInt64)
      (accepted : List (ValidatedTransaction × UInt32))
      (r : (UtxoProcessingContext G × UInt64) × List (ValidatedTransaction × UInt32)),
      Independent txs →
      (∀ tx ∈ txs, ∀ outpoint ∈ spent_outpoints tx,
        compose selected_parent_utxo_view state.1.mergeset_diff outpoint = frozen_view outpoint) →
      (p.sequential_transactions_from selected_parent_utxo_view pov_daa_score flags index
          (state, accepted) txs = .ok r ↔
        ∃ validated, p.validate_transactions_from frozen_view pov_daa_score flags index txs =
            .ok validated ∧
          (validated.map Prod.fst).foldlM (p.accept_transaction pov_daa_score) state = .ok r.1 ∧
          r.2 = accepted ++ validated)
  | [], index, state, accepted, ⟨r_state, r_accepted⟩, _, _ => by
      simp only [sequential_transactions_from, validate_transactions_from]
      constructor
      · intro h
        cases h
        exact ⟨[], rfl, rfl, by rw [List.append_nil]⟩
      · rintro ⟨validated, hvalidated, hfold, hr⟩
        cases hvalidated
        cases hfold
        rw [List.append_nil] at hr
        rw [hr]
  | tx :: rest, index, state, accepted, r, hind, hview => by
      obtain ⟨hfirst, hind_rest⟩ := hind
      have ih := fun state' accepted' hview' => sequential_transactions_from_eq_ok
        selected_parent_utxo_view frozen_view pov_daa_score flags rest (index + 1) state' accepted' r
        hind_rest hview'
      have hview_rest : ∀ later ∈ rest, ∀ outpoint ∈ spent_outpoints later,
          compose selected_parent_utxo_view state.1.mergeset_diff outpoint = frozen_view outpoint :=
        fun later hlater => hview later (List.mem_cons_of_mem tx hlater)
      -- once the transaction is accepted, the rest still reads the frozen view
      have hafter : ∀ validated_tx state',
          ok_or_panic (p.validate_transaction_in_utxo_context tx frozen_view pov_daa_score flags) =
            .ok (some validated_tx) →
          p.accept_transaction pov_daa_score state validated_tx = .ok state' →
          ∀ later ∈ rest, ∀ outpoint ∈ spent_outpoints later,
            compose selected_parent_utxo_view state'.1.mergeset_diff outpoint =
              frozen_view outpoint := by
        intro validated_tx state' hvalid haccept later hlater outpoint hout
        have htx : validated_tx.tx = tx :=
          p.validate_transaction_in_utxo_context_tx ((ok_or_panic_eq_some _ _).mp hvalid)
        obtain ⟨hspent, hcreated⟩ := hfirst later hlater outpoint hout
        rw [← htx] at hspent hcreated
        rw [p.compose_accept_transaction_of_not_mem selected_parent_utxo_view haccept hspent
          hcreated]
        exact hview_rest later hlater outpoint hout
      rw [sequential_transactions_from_cons_eq_ok,
        p.validate_transaction_in_utxo_context_congr pov_daa_score flags (hview tx List.mem_cons_self)]
      constructor
      · rintro ⟨first, hvalid, hrest⟩
        cases first with
        | none =>
            obtain ⟨validated, hvalidated, hfold, hr⟩ := (ih state accepted hview_rest).mp hrest
            exact ⟨validated, (validate_transactions_from_cons_eq_ok p).mpr
              ⟨none, validated, hvalid, hvalidated, rfl⟩, hfold, hr⟩
        | some validated_tx =>
            obtain ⟨state', haccept, hrest⟩ := hrest
            obtain ⟨validated, hvalidated, hfold, hr⟩ :=
              (ih state' _ (hafter validated_tx state' hvalid haccept)).mp hrest
            refine ⟨(validated_tx, UInt32.ofNat index) :: validated,
              (validate_transactions_from_cons_eq_ok p).mpr
                ⟨some validated_tx, validated, hvalid, hvalidated, rfl⟩, ?_, ?_⟩
            · rw [List.map_cons, foldlM_cons_eq_ok]
              exact ⟨state', haccept, hfold⟩
            · rw [hr, List.append_assoc, List.singleton_append]
      · rintro ⟨validated, hvalidated, hfold, hr⟩
        obtain ⟨first, others, hvalid, hothers, rfl⟩ :=
          (validate_transactions_from_cons_eq_ok p).mp hvalidated
        refine ⟨first, hvalid, ?_⟩
        cases first with
        | none => exact (ih state accepted hview_rest).mpr ⟨others, hothers, hfold, hr⟩
        | some validated_tx =>
            obtain ⟨state', haccept, hfold'⟩ := (foldlM_cons_eq_ok _ _ _ _ _).mp hfold
            refine ⟨state', haccept,
              (ih state' _ (hafter validated_tx state' hvalid haccept)).mpr
                ⟨others, hothers, hfold', ?_⟩⟩
            rw [hr, List.append_assoc, List.singleton_append]
            rfl

/-- **ONE MERGED BLOCK**: a block whose transactions after the coinbase are
    independent merges, validated in parallel, exactly when it merges sequentially,
    into the same context. -/
theorem merge_block_eq_ok_iff (selected_parent_utxo_view : UtxoView) (pov_daa_score : UInt64)
    (coinbase_id : TransactionId) (ctx ctx' : UtxoProcessingContext G) (merged_block : Hash)
    (txs : List Transaction) (i : ℕ) (hind : Independent (txs.drop 1)) :
    p.merge_block selected_parent_utxo_view pov_daa_score coinbase_id ctx ((merged_block, txs), i) =
        .ok ctx' ↔
      p.sequential_merge_block selected_parent_utxo_view pov_daa_score coinbase_id ctx
        ((merged_block, txs), i) = .ok ctx' := by
  -- the frozen view is the view at the start of the block
  have hstep := p.sequential_transactions_from_eq_ok selected_parent_utxo_view
    (compose selected_parent_utxo_view ctx.mergeset_diff) pov_daa_score
    (validation_flags (i == 0)) (txs.drop 1) 1 (ctx, 0) []
  simp only [merge_block, sequential_merge_block, validate_transactions_in_parallel, bind_eq_ok]
  constructor
  · rintro ⟨validated, hvalidated, ⟨ctx₁, block_fee⟩, hfold, hrecord⟩
    refine ⟨((ctx₁, block_fee), validated), ?_, hrecord⟩
    exact (hstep _ hind fun _ _ _ _ => rfl).mpr ⟨validated, hvalidated, hfold, rfl⟩
  · rintro ⟨⟨⟨ctx₁, block_fee⟩, accepted⟩, hseq, hrecord⟩
    obtain ⟨validated, hvalidated, hfold, hr⟩ := (hstep _ hind fun _ _ _ _ => rfl).mp hseq
    rw [List.nil_append] at hr
    subst hr
    exact ⟨_, hvalidated, ⟨ctx₁, block_fee⟩, hfold, hrecord⟩

/-! ## The whole pass -/

/-- **THE WHOLE PASS**: when the transactions after the coinbase of the selected
    parent and of every merged block are independent, `calculate_utxo_state`
    succeeds exactly when the sequential pass does, with the same context. -/
theorem calculate_utxo_state_eq_ok_iff_of_independent (ctx ctx' : UtxoProcessingContext G)
    (selected_parent_transactions : List Transaction) (mergeset : List (Hash × List Transaction))
    (selected_parent_utxo_view : UtxoView) (pov_daa_score : UInt64)
    (hind : ∀ txs ∈ selected_parent_transactions :: mergeset.map Prod.snd,
      Independent (txs.drop 1)) :
    p.calculate_utxo_state ctx selected_parent_transactions mergeset selected_parent_utxo_view
        pov_daa_score = .ok ctx' ↔
      p.sequential_utxo_state ctx selected_parent_transactions mergeset selected_parent_utxo_view
        pov_daa_score = .ok ctx' := by
  -- the two passes differ only in the step of their loop over the merged blocks
  have hloop : ∀ (ctx₀ : UtxoProcessingContext G) coinbase_id ctx₁,
      ((ctx₀.selected_parent, selected_parent_transactions) :: mergeset).zipIdx.foldlM
          (p.merge_block selected_parent_utxo_view pov_daa_score coinbase_id) ctx₀ = .ok ctx₁ ↔
        ((ctx₀.selected_parent, selected_parent_transactions) :: mergeset).zipIdx.foldlM
          (p.sequential_merge_block selected_parent_utxo_view pov_daa_score coinbase_id) ctx₀ =
          .ok ctx₁ := by
    intro ctx₀ coinbase_id ctx₁
    apply foldlM_ok_congr
    rintro ⟨⟨merged_block, txs⟩, i⟩ hmem b b'
    apply p.merge_block_eq_ok_iff
    apply hind
    obtain ⟨-, hi, hblock⟩ := List.mem_zipIdx hmem
    have hpair : (merged_block, txs) ∈ (ctx₀.selected_parent, selected_parent_transactions) ::
        mergeset := by
      rw [hblock]
      exact List.getElem_mem _
    rcases List.mem_cons.mp hpair with hsp | hmerged
    · cases hsp
      exact List.mem_cons_self
    · exact List.mem_cons_of_mem _ (List.mem_map_of_mem hmerged)
  simp only [calculate_utxo_state, sequential_utxo_state, bind_eq_ok]
  constructor
  · rintro ⟨⟨ctx₀, coinbase_id⟩, hcoinbase, ctx₁, hfold, hsort⟩
    exact ⟨⟨ctx₀, coinbase_id⟩, hcoinbase, ctx₁, (hloop ctx₀ coinbase_id ctx₁).mp hfold, hsort⟩
  · rintro ⟨⟨ctx₀, coinbase_id⟩, hcoinbase, ctx₁, hfold, hsort⟩
    exact ⟨⟨ctx₀, coinbase_id⟩, hcoinbase, ctx₁, (hloop ctx₀ coinbase_id ctx₁).mpr hfold, hsort⟩

end VirtualStateProcessor

/-- The UTXO state of a chain block built from blocks that passed
    `validate_body_in_isolation` is the sequential one: `calculate_utxo_state`
    returns `Ok` exactly when the sequential pass does, with the same context —
    so with the same accepted transactions, acceptance data, rewards, multiset
    hash and mergeset diff. -/
theorem calculate_utxo_state_eq_ok_iff_sequential {G : Type} [CommGroup G]
    (p : VirtualStateProcessor G) (bp : BlockBodyProcessor) (ctx ctx' : UtxoProcessingContext G)
    (selected_parent : Block) (mergeset : List Block) (selected_parent_utxo_view : UtxoView)
    (pov_daa_score : UInt64)
    (hbodies : ∀ block ∈ selected_parent :: mergeset,
      ∃ mass, bp.validate_body_in_isolation block = .ok mass) :
    p.calculate_utxo_state ctx selected_parent.transactions
        (mergeset.map fun block => (block.header.hash, block.transactions))
        selected_parent_utxo_view pov_daa_score = .ok ctx' ↔
      p.sequential_utxo_state ctx selected_parent.transactions
        (mergeset.map fun block => (block.header.hash, block.transactions))
        selected_parent_utxo_view pov_daa_score = .ok ctx' := by
  exact p.calculate_utxo_state_eq_ok_iff_of_independent _ _ _ _ _ _ (independent_of_bodies hbodies)

/-! ## A merged block whose validation panics -/

/-- The hash of thirty-two equal bytes. -/
def hash_of_byte (b : UInt8) : Hash := ⟨List.replicate 32 b, replicate_32_length b⟩

/-- A coinbase with no outputs whose payload is the nineteen zero bytes of a zero
    blue score and subsidy and an empty script of version zero. -/
def zero_payload_coinbase (id : TransactionId) : Transaction :=
  ⟨TX_VERSION, [], [], .TransferKSH, 0, SUBNETWORK_ID_COINBASE, 0, List.replicate 19 0, 0, id⟩

/-- A transaction spending one outpoint into a five-sompi KSH output. -/
def spend_outpoint (outpoint : TransactionOutpoint) (id : TransactionId) : Transaction :=
  ⟨TX_VERSION, [⟨outpoint, [], 0, 0⟩], [⟨5, ⟨0, []⟩, .KSH⟩], .TransferKSH, 0,
    SUBNETWORK_ID_NATIVE, 0, [], 0, id⟩

/-- The view holding one entry. -/
def single_entry_view (outpoint : TransactionOutpoint) (entry : UtxoEntry) : UtxoView :=
  fun o => if o = outpoint then some entry else none

/-- An outpoint of the selected parent's UTXO set. -/
def parent_outpoint : TransactionOutpoint := ⟨hash_of_byte 2, 0⟩

/-- A ten-sompi entry locked by `Op16 OpCheckMultiSig`. -/
def op16_multisig_entry : UtxoEntry := ⟨10, ⟨0, [codes.Op16, codes.OpCheckMultiSig]⟩, 0, false, .KSH⟩

/-- A selected parent holding only its coinbase. -/
def coinbase_only_block : Block := ⟨⟨hash_of_byte 3, 1000, ZERO_HASH⟩, [zero_payload_coinbase (hash_of_byte 4)]⟩

/-- A merged block whose one transaction spends `parent_outpoint`. -/
def spending_block : Block :=
  ⟨⟨hash_of_byte 5, 1000, ZERO_HASH⟩,
    [zero_payload_coinbase (hash_of_byte 6), spend_outpoint parent_outpoint (hash_of_byte 7)]⟩

/-- `CoinbaseManager::new` under the mainnet parameters, with a table of zeros. -/
def mainnet_coinbase_manager : CoinbaseManager :=
  ⟨150, 204, 0, 50000000000, 1000, 2629800, List.replicate SUBSIDY_BY_MONTH_TABLE_SIZE 0,
    by decide, List.length_replicate⟩

/-- The body processor under the mainnet parameters, with hashers that send
    everything to `ZERO_HASH`. -/
def zero_hash_body_processor : BlockBodyProcessor :=
  ⟨mainnet_validator, mainnet_validator.mass_calculator, 500000, UInt64.ofNat (2 ^ 64 - 1),
    fun _ => ZERO_HASH, fun _ => ZERO_HASH⟩

/-- The virtual processor under the mainnet parameters, with a trivial MuHash group. -/
def mainnet_processor : VirtualStateProcessor Unit :=
  ⟨mainnet_validator, mainnet_coinbase_manager, inert_crypto, fun _ => ()⟩

/-- An entry of ten sompi that anyone can spend (`OpTrue`). -/
def op_true_entry : UtxoEntry := ⟨10, ⟨0, [codes.OpTrue]⟩, 0, false, .KSH⟩

/-- Both blocks pass `validate_body_in_isolation`. -/
theorem test_blocks_valid_in_isolation : ∀ block ∈ [coinbase_only_block, spending_block],
    ∃ mass, zero_hash_body_processor.validate_body_in_isolation block = .ok mass := by
  intro block hblock
  simp only [List.mem_cons, List.mem_nil_iff, or_false] at hblock
  rcases hblock with rfl | rfl
  · exact ⟨0, (toOption_eq_some _ _).mp (by decide +kernel)⟩
  · exact ⟨184, (toOption_eq_some _ _).mp (by decide +kernel)⟩

/-- `spending_block` merged over `coinbase_only_block`, spending an `OpTrue` entry:
    the parallel pass succeeds, and the sequential pass ends in the same context. -/
theorem calculate_utxo_state_eq_ok_iff_sequential_spending_block :
    (∀ block ∈ [coinbase_only_block, spending_block],
      ∃ mass, zero_hash_body_processor.validate_body_in_isolation block = .ok mass) ∧
    ∃ ctx', mainnet_processor.calculate_utxo_state (UtxoProcessingContext.new (hash_of_byte 3) MuHash.new)
        coinbase_only_block.transactions
        ([spending_block].map fun block => (block.header.hash, block.transactions))
        (single_entry_view parent_outpoint op_true_entry) 1000 = .ok ctx' ∧
      mainnet_processor.sequential_utxo_state (UtxoProcessingContext.new (hash_of_byte 3) MuHash.new)
        coinbase_only_block.transactions
        ([spending_block].map fun block => (block.header.hash, block.transactions))
        (single_entry_view parent_outpoint op_true_entry) 1000 = .ok ctx' := by
  have hsome : (mainnet_processor.calculate_utxo_state
      (UtxoProcessingContext.new (hash_of_byte 3) MuHash.new) coinbase_only_block.transactions
      ([spending_block].map fun block => (block.header.hash, block.transactions))
      (single_entry_view parent_outpoint op_true_entry) 1000).toOption.isSome = true := by
    decide +kernel
  obtain ⟨ctx', hctx⟩ := Option.isSome_iff_exists.mp hsome
  have hcalc := (toOption_eq_some _ _).mp hctx
  exact ⟨test_blocks_valid_in_isolation, ctx', hcalc,
    (calculate_utxo_state_eq_ok_iff_sequential mainnet_processor zero_hash_body_processor _ ctx'
      coinbase_only_block [spending_block] _ 1000 test_blocks_valid_in_isolation).mp hcalc⟩

/-- Both blocks pass `validate_body_in_isolation`, yet `calculate_utxo_state`
    panics when the transaction of `spending_block` spends an entry locked by
    `Op16 OpCheckMultiSig`: its signature operations are counted with
    `to_small_int`, whose assertion leaves out `Op16`. -/
theorem calculate_utxo_state_panics_on_op16_multisig :
    (∀ block ∈ [coinbase_only_block, spending_block],
      ∃ mass, zero_hash_body_processor.validate_body_in_isolation block = .ok mass) ∧
    mainnet_processor.calculate_utxo_state (UtxoProcessingContext.new (hash_of_byte 3) MuHash.new)
        coinbase_only_block.transactions
        ([spending_block].map fun block => (block.header.hash, block.transactions))
        (single_entry_view parent_outpoint op16_multisig_entry) 1000 =
      .error .assertion_failed :=
  ⟨test_blocks_valid_in_isolation, rfl⟩

end KashPipeline
