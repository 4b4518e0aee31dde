import Kash.Pipeline.ParallelValidationProofs

/-! # The UTXO commitment follows the UTXO set

    `calculate_utxo_state` records every accepted transaction twice: in the
    mergeset diff (`UtxoDiff::add_transaction`) and in the multiset hash
    (`MuHashExtensions::add_transaction`). The multiset hash divides by the element
    of every entry the diff removes and multiplies by the element of every entry it
    adds (`add_transaction_eq_folds`, `value_add_transaction`).

    The two records agree when every removal is a real spend and every addition a
    real creation. Validation makes the spends real: an input's entry is the one the
    composed view reads. A creation is real when the outpoint is not in the selected
    parent's UTXO set. The pass accepts only candidates (`candidate_transactions`)
    whose inputs it reads, so the outpoints it may come to hold are those of the set
    and those created by a candidate whose inputs it may hold (`Available`); the
    condition is that no such candidate creates an outpoint of the set
    (`NewOutputsOnly`), which only an id collision breaks. Under it the diff stays
    applicable to the selected parent's set, and the multiset hash commits to the
    set the diff leaves (`Commits`), over every step of the sequential pass
    (`sequential_utxo_state_commits`); the parallel pass ends in the same context. -/

namespace KashPipeline

open KashTx KashHashing KashScript KashValidation KashUtxoDiff KashMuHash ExceptLoops

variable {G : Type} [CommGroup G] (data_to_element : Bytes → G)

/-! ## The multiset hash of a transaction -/

/-- **THE SAME ENTRIES**: `MuHashExtensions::add_transaction` removes the pairs that
    `UtxoDiff::add_transaction` removes — every input with its entry — and adds the
    pairs it adds, `output_entries`. -/
theorem add_transaction_eq_folds (h : MuHash G) (tx : PopulatedTransaction)
    (block_daa_score : UInt64) :
    h.add_transaction data_to_element tx block_daa_score =
      (output_entries tx.tx block_daa_score).foldl
        (fun h oe => h.add_utxo data_to_element oe.1 oe.2)
        (tx.populated_inputs.foldl
          (fun h ie => h.remove_element data_to_element (write_utxo ie.2 ie.1.previous_outpoint))
          h) := by
  rw [MuHash.add_transaction, output_entries, List.foldl_map]

/-- Removing the entries of a list of spends divides by the product of their
    elements. -/
theorem value_foldl_remove_element :
    ∀ (spends : List (TransactionInput × UtxoEntry)) (h : MuHash G),
      (spends.foldl (fun h ie =>
          h.remove_element data_to_element (write_utxo ie.2 ie.1.previous_outpoint)) h).value =
        h.value /
          (spends.map fun ie => data_to_element (write_utxo ie.2 ie.1.previous_outpoint)).prod
  | [], h => by simp
  | ie :: rest, h => by
      rw [List.foldl_cons, value_foldl_remove_element rest, MuHash.value_remove_element,
        List.map_cons, List.prod_cons, div_div]

/-- Adding the entries of a list of creations multiplies by the product of their
    elements. -/
theorem value_foldl_add_utxo :
    ∀ (creates : List (TransactionOutpoint × UtxoEntry)) (h : MuHash G),
      (creates.foldl (fun h oe => h.add_utxo data_to_element oe.1 oe.2) h).value =
        h.value * (creates.map fun oe => data_to_element (write_utxo oe.2 oe.1)).prod
  | [], h => by simp
  | oe :: rest, h => by
      rw [List.foldl_cons, value_foldl_add_utxo rest, MuHash.add_utxo, MuHash.value_add_element,
        List.map_cons, List.prod_cons, mul_assoc]

/-- What `MuHashExtensions::add_transaction` does to the committed value. -/
theorem value_add_transaction (h : MuHash G) (tx : PopulatedTransaction)
    (block_daa_score : UInt64) :
    (h.add_transaction data_to_element tx block_daa_score).value =
      h.value / (tx.populated_inputs.map fun ie =>
          data_to_element (write_utxo ie.2 ie.1.previous_outpoint)).prod *
        ((output_entries tx.tx block_daa_score).map fun oe =>
          data_to_element (write_utxo oe.2 oe.1)).prod := by
  rw [add_transaction_eq_folds, value_foldl_add_utxo, value_foldl_remove_element]

/-! ## The commitment of a set, one entry at a time -/

/-- Sets that read alike have one commitment. -/
theorem utxo_set_hash_congr {utxo_set utxo_set' : UtxoCollection}
    (h : ∀ o, utxo_set'.get o = utxo_set.get o) :
    utxo_set_hash data_to_element utxo_set' = utxo_set_hash data_to_element utxo_set := by
  have hmap : utxo_set'.toFinmap = utxo_set.toFinmap := (collection_eq_iff utxo_set' utxo_set).mpr h
  unfold utxo_set_hash
  rw [hmap]

/-- Spending a present entry divides the commitment of a set by its element. -/
theorem utxo_set_hash_of_spend {utxo_set utxo_set' : UtxoCollection}
    {outpoint : TransactionOutpoint} {entry : UtxoEntry}
    (hread : utxo_set.get outpoint = some entry)
    (h : ∀ o, utxo_set'.get o = if o = outpoint then none else utxo_set.get o) :
    utxo_set_hash data_to_element utxo_set' =
      utxo_set_hash data_to_element utxo_set / data_to_element (write_utxo entry outpoint) := by
  have hmap : utxo_set'.toFinmap = utxo_set.toFinmap.erase outpoint := by
    apply Finmap.ext_lookup
    intro o
    rw [Finmap.lookup_toFinmap]
    change utxo_set'.get o = _
    rw [h o]
    split_ifs with ho
    · rw [ho, Finmap.lookup_erase]
    · rw [Finmap.lookup_erase_ne ho, Finmap.lookup_toFinmap]
      rfl
  have hlookup : utxo_set.toFinmap.lookup outpoint = some entry := by
    rw [Finmap.lookup_toFinmap]
    exact hread
  unfold utxo_set_hash
  rw [hmap, MultisetHash.ofFinmap_erase _ hlookup]

/-- Creating an entry at an absent outpoint multiplies the commitment of a set by
    its element. -/
theorem utxo_set_hash_of_create {utxo_set utxo_set' : UtxoCollection}
    {outpoint : TransactionOutpoint} {entry : UtxoEntry}
    (hfresh : utxo_set.get outpoint = none)
    (h : ∀ o, utxo_set'.get o = if o = outpoint then some entry else utxo_set.get o) :
    utxo_set_hash data_to_element utxo_set' =
      utxo_set_hash data_to_element utxo_set * data_to_element (write_utxo entry outpoint) := by
  have hmap : utxo_set'.toFinmap = utxo_set.toFinmap.insert outpoint entry := by
    apply Finmap.ext_lookup
    intro o
    rw [Finmap.lookup_toFinmap]
    change utxo_set'.get o = _
    rw [h o]
    split_ifs with ho
    · rw [ho, Finmap.lookup_insert]
    · rw [Finmap.lookup_insert_of_ne _ ho, Finmap.lookup_toFinmap]
      rfl
  have hnot : outpoint ∉ utxo_set.toFinmap := by
    rw [← Finmap.lookup_eq_none, Finmap.lookup_toFinmap]
    exact hfresh
  unfold utxo_set_hash
  rw [hmap, MultisetHash.ofFinmap_insert _ _ hnot, mul_comm]

/-! ## A transaction on a diff applicable to the set -/

section Diff

variable (utxo_set : UtxoCollection)

/-- **SPENDING THE INPUTS**: removing, from a diff applicable to the set, the entries
    the composed view reads at distinct outpoints keeps the diff applicable and
    divides the commitment of the set it leaves by their elements. -/
theorem remove_entries_commit :
    ∀ (spends : List (TransactionInput × UtxoEntry)) (d d' : UtxoDiff),
      d.ApplicableTo utxo_set.view → (spends.map (·.1.previous_outpoint)).Nodup →
      (∀ ie ∈ spends, compose utxo_set.view d ie.1.previous_outpoint = some ie.2) →
      spends.foldlM (fun d ie => remove_entry d ie.1.previous_outpoint ie.2) d = .ok d' →
      d'.ApplicableTo utxo_set.view ∧
        utxo_set_hash data_to_element (write_diff utxo_set d') =
          utxo_set_hash data_to_element (write_diff utxo_set d) /
            (spends.map fun ie => data_to_element (write_utxo ie.2 ie.1.previous_outpoint)).prod
  | [], d, d', happ, _, _, h => by
      cases h
      exact ⟨happ, by simp⟩
  | ie :: rest, d, d', happ, hnodup, hread, h => by
      obtain ⟨d₁, h₁, hrest⟩ := (foldlM_cons_eq_ok _ _ _ _ _).mp h
      rw [List.map_cons, List.nodup_cons] at hnodup
      obtain ⟨happ₁, hview₁⟩ := remove_entry_spends happ (hread ie List.mem_cons_self) h₁
      -- the later spends read the same entries after this one
      have hread₁ : ∀ ie' ∈ rest,
          compose utxo_set.view d₁ ie'.1.previous_outpoint = some ie'.2 := by
        intro ie' hie'
        have hne : ie'.1.previous_outpoint ≠ ie.1.previous_outpoint := fun heq =>
          hnodup.1 (List.mem_map.mpr ⟨ie', hie', heq⟩)
        rw [hview₁, if_neg hne]
        exact hread ie' (List.mem_cons_of_mem ie hie')
      obtain ⟨happ', hhash'⟩ := remove_entries_commit rest d₁ d' happ₁ hnodup.2 hread₁ hrest
      have hhash₁ : utxo_set_hash data_to_element (write_diff utxo_set d₁) =
          utxo_set_hash data_to_element (write_diff utxo_set d) /
            data_to_element (write_utxo ie.2 ie.1.previous_outpoint) := by
        apply utxo_set_hash_of_spend
        · rw [get_write_diff]
          exact hread ie List.mem_cons_self
        · intro o
          rw [get_write_diff, get_write_diff, hview₁]
      refine ⟨happ', ?_⟩
      rw [hhash', hhash₁, List.map_cons, List.prod_cons, div_div]

/-- **CREATING THE OUTPUTS**: adding, to a diff applicable to the set, entries at
    outpoints the set does not hold keeps the diff applicable and multiplies the
    commitment of the set it leaves by their elements. -/
theorem add_entries_commit :
    ∀ (creates : List (TransactionOutpoint × UtxoEntry)) (d d' : UtxoDiff),
      d.ApplicableTo utxo_set.view → (∀ oe ∈ creates, utxo_set.get oe.1 = none) →
      creates.foldlM (fun d oe => add_entry d oe.1 oe.2) d = .ok d' →
      d'.ApplicableTo utxo_set.view ∧
        utxo_set_hash data_to_element (write_diff utxo_set d') =
          utxo_set_hash data_to_element (write_diff utxo_set d) *
            (creates.map fun oe => data_to_element (write_utxo oe.2 oe.1)).prod
  | [], d, d', happ, _, h => by
      cases h
      exact ⟨happ, by simp⟩
  | oe :: rest, d, d', happ, hfresh, h => by
      obtain ⟨d₁, h₁, hrest⟩ := (foldlM_cons_eq_ok _ _ _ _ _).mp h
      obtain ⟨hbefore, happ₁, hview₁⟩ :=
        add_entry_creates happ (hfresh oe List.mem_cons_self) h₁
      obtain ⟨happ', hhash'⟩ := add_entries_commit rest d₁ d' happ₁
        (fun oe' hoe' => hfresh oe' (List.mem_cons_of_mem oe hoe')) hrest
      have hhash₁ : utxo_set_hash data_to_element (write_diff utxo_set d₁) =
          utxo_set_hash data_to_element (write_diff utxo_set d) *
            data_to_element (write_utxo oe.2 oe.1) := by
        apply utxo_set_hash_of_create
        · rw [get_write_diff]
          exact hbefore
        · intro o
          rw [get_write_diff, get_write_diff, hview₁]
      refine ⟨happ', ?_⟩
      rw [hhash', hhash₁, List.map_cons, List.prod_cons, mul_assoc]

/-- **A TRANSACTION, RECORDED TWICE**: adding to a diff applicable to the set a
    transaction whose distinct inputs spend the entries the composed view reads and
    whose outputs are new to the set keeps the diff applicable, and a multiset hash
    that committed to the set the diff left commits, after the transaction, to the
    set the new diff leaves. -/
theorem add_transaction_commits {d d' : UtxoDiff} {tx : PopulatedTransaction}
    {block_daa_score : UInt64} {h : MuHash G} (happ : d.ApplicableTo utxo_set.view)
    (hnodup : (spent_outpoints tx.tx).Nodup)
    (hread : ∀ ie ∈ tx.populated_inputs,
      compose utxo_set.view d ie.1.previous_outpoint = some ie.2)
    (hfresh : ∀ o ∈ created_outpoints tx.tx, utxo_set.get o = none)
    (hhash : h.value = utxo_set_hash data_to_element (write_diff utxo_set d))
    (hadd : add_transaction d tx block_daa_score = .ok d') :
    d'.ApplicableTo utxo_set.view ∧
      (h.add_transaction data_to_element tx block_daa_score).value =
        utxo_set_hash data_to_element (write_diff utxo_set d') := by
  unfold add_transaction at hadd
  obtain ⟨d₁, h₁, h₂⟩ := (bind_eq_ok _ _ _).mp hadd
  rw [← populated_inputs_outpoints] at hnodup
  obtain ⟨happ₁, hhash₁⟩ := remove_entries_commit data_to_element utxo_set _ d d₁ happ hnodup hread h₁
  have hfresh' : ∀ oe ∈ output_entries tx.tx block_daa_score, utxo_set.get oe.1 = none := by
    intro oe hoe
    apply hfresh
    rw [← output_entries_outpoints tx.tx block_daa_score]
    exact List.mem_map_of_mem hoe
  obtain ⟨happ', hhash'⟩ := add_entries_commit data_to_element utxo_set _ d₁ d' happ₁ hfresh' h₂
  refine ⟨happ', ?_⟩
  rw [value_add_transaction, hhash, hhash', hhash₁]

end Diff

/-- A transaction whose inputs all read entries reads something at every outpoint it
    spends. -/
theorem reads_spent_outpoints {utxo_view : UtxoView} {ptx : PopulatedTransaction}
    (hread : ∀ ie ∈ ptx.populated_inputs, utxo_view ie.1.previous_outpoint = some ie.2) :
    ∀ o ∈ spent_outpoints ptx.tx, utxo_view o ≠ none := by
  intro o ho
  rw [← populated_inputs_outpoints] at ho
  obtain ⟨ie, hie, rfl⟩ := List.mem_map.mp ho
  rw [hread ie hie]
  exact Option.some_ne_none _

/-! ## What the pass can come to hold -/

/-- The transactions the pass may accept: the selected parent's coinbase, and every
    transaction after the coinbase of each merged block, the selected parent first. -/
def candidate_transactions (selected_parent_transactions : List Transaction)
    (mergeset : List (Hash × List Transaction)) : List Transaction :=
  selected_parent_transactions.take 1 ++
    (selected_parent_transactions :: mergeset.map Prod.snd).flatMap (·.drop 1)

/-- The outpoints a pass over the set may come to hold: those the set holds, and
    those created by a candidate all of whose inputs it may come to hold. -/
inductive Available (utxo_set : UtxoCollection) (txs : List Transaction) :
    TransactionOutpoint → Prop
  | held {o : TransactionOutpoint} : utxo_set.get o ≠ none → Available utxo_set txs o
  | created {tx : Transaction} {o : TransactionOutpoint} : tx ∈ txs →
      (∀ o' ∈ spent_outpoints tx, Available utxo_set txs o') → o ∈ created_outpoints tx →
      Available utxo_set txs o

/-- No candidate that may come to read all its inputs creates an outpoint the set
    holds. Only an id collision breaks it: ids hash a transaction's content, so a
    candidate that creates an outpoint of the selected parent's set is the
    transaction that created it, whose inputs were spent before that set and which
    no candidate creates again, down to a coinbase, whose payload carries its blue
    score. -/
def NewOutputsOnly (utxo_set : UtxoCollection) (txs : List Transaction) : Prop :=
  ∀ tx ∈ txs, (∀ o ∈ spent_outpoints tx, Available utxo_set txs o) →
    ∀ o ∈ created_outpoints tx, utxo_set.get o = none

/-- An outpoint the set does not hold and no candidate creates is never available. -/
theorem not_available {utxo_set : UtxoCollection} {txs : List Transaction}
    {o : TransactionOutpoint} (hheld : utxo_set.get o = none)
    (hcreated : ∀ tx ∈ txs, o ∉ created_outpoints tx) : ¬ Available utxo_set txs o := by
  rintro (h | ⟨htx, -, ho⟩)
  · exact h hheld
  · exact hcreated _ htx ho

/-- Candidates whose outputs are all new to the set meet it. -/
theorem NewOutputsOnly.of_fresh {utxo_set : UtxoCollection} {txs : List Transaction}
    (hfresh : ∀ tx ∈ txs, ∀ o ∈ created_outpoints tx, utxo_set.get o = none) :
    NewOutputsOnly utxo_set txs :=
  fun tx htx _ => hfresh tx htx

/-! ## The invariant of the pass -/

/-- The invariant of the pass over a set and the transactions it may accept: the
    mergeset diff is applicable to the set and adds only outpoints the pass may come
    to hold, and the multiset hash commits to the set the diff leaves. -/
structure Commits (utxo_set : UtxoCollection) (txs : List Transaction)
    (ctx : UtxoProcessingContext G) : Prop where
  applicable : ctx.mergeset_diff.ApplicableTo utxo_set.view
  adds_available : ∀ o, (ctx.mergeset_diff.add.get o).isSome → Available utxo_set txs o
  hash_eq : ctx.multiset_hash.value =
    utxo_set_hash data_to_element (write_diff utxo_set ctx.mergeset_diff)

namespace Commits

variable {data_to_element} {utxo_set : UtxoCollection} {txs : List Transaction}
  {ctx ctx' : UtxoProcessingContext G}

/-- The invariant reads the diff and the multiset hash only. -/
theorem of_eq (hc : Commits data_to_element utxo_set txs ctx)
    (hdiff : ctx'.mergeset_diff = ctx.mergeset_diff)
    (hhash : ctx'.multiset_hash = ctx.multiset_hash) : Commits data_to_element utxo_set txs ctx' := by
  refine ⟨?_, ?_, ?_⟩
  · rw [hdiff]
    exact hc.applicable
  · rw [hdiff]
    exact hc.adds_available
  · rw [hdiff, hhash]
    exact hc.hash_eq

/-- **START**: a new context whose multiset hash commits to the set satisfies the
    invariant: its diff is empty. -/
theorem new (selected_parent : Hash) {muhash : MuHash G}
    (hhash : muhash.value = utxo_set_hash data_to_element utxo_set) :
    Commits data_to_element utxo_set txs (UtxoProcessingContext.new selected_parent muhash) := by
  refine ⟨empty_applicableTo _, fun o ho => ?_, ?_⟩
  · simp [UtxoProcessingContext.new, UtxoDiff.empty] at ho
  · show muhash.value = utxo_set_hash data_to_element (write_diff utxo_set UtxoDiff.empty)
    rw [hhash]
    symm
    apply utxo_set_hash_congr
    intro o
    rw [get_write_diff]
    show compose utxo_set.view UtxoDiff.empty o = utxo_set.get o
    rw [compose_empty]
    rfl

/-- Every outpoint a view of the pass holds is one the pass may come to hold. -/
theorem available_of_compose (hc : Commits data_to_element utxo_set txs ctx)
    {o : TransactionOutpoint} (hview : compose utxo_set.view ctx.mergeset_diff o ≠ none) :
    Available utxo_set txs o := by
  rw [compose_eq_applyCell] at hview
  unfold applyCell UtxoDiff.cell at hview
  cases hadd : ctx.mergeset_diff.add.get o with
  | some e => exact hc.adds_available o (by rw [hadd]; rfl)
  | none =>
      rw [hadd] at hview
      dsimp only at hview
      split_ifs at hview
      · exact absurd rfl hview
      · exact .held hview

/-- A candidate that reads all its inputs in a view of the pass creates only
    outpoints new to the set. -/
theorem fresh_of_reads (hc : Commits data_to_element utxo_set txs ctx)
    (hnew : NewOutputsOnly utxo_set txs) {tx : Transaction} (htx : tx ∈ txs)
    (hreads : ∀ o ∈ spent_outpoints tx, compose utxo_set.view ctx.mergeset_diff o ≠ none) :
    ∀ o ∈ created_outpoints tx, utxo_set.get o = none :=
  hnew tx htx fun o ho => hc.available_of_compose (hreads o ho)

/-- **ONE STEP**: adding a candidate whose distinct inputs spend what the composed
    view reads, and whose created outpoints are new to the set, keeps the
    invariant. -/
theorem add_transaction (hc : Commits data_to_element utxo_set txs ctx)
    {tx : PopulatedTransaction} {block_daa_score : UInt64} (htx : tx.tx ∈ txs)
    (hnodup : (spent_outpoints tx.tx).Nodup)
    (hread : ∀ ie ∈ tx.populated_inputs,
      compose utxo_set.view ctx.mergeset_diff ie.1.previous_outpoint = some ie.2)
    (hfresh : ∀ o ∈ created_outpoints tx.tx, utxo_set.get o = none)
    (hdiff : KashUtxoDiff.add_transaction ctx.mergeset_diff tx block_daa_score =
      .ok ctx'.mergeset_diff)
    (hhash : ctx'.multiset_hash =
      ctx.multiset_hash.add_transaction data_to_element tx block_daa_score) :
    Commits data_to_element utxo_set txs ctx' := by
  obtain ⟨happ', hvalue⟩ := add_transaction_commits data_to_element utxo_set hc.applicable hnodup
    hread hfresh hc.hash_eq hdiff
  -- the inputs it read are outpoints the pass may come to hold, and so are its outputs
  have hinputs : ∀ o ∈ spent_outpoints tx.tx, Available utxo_set txs o :=
    fun o ho => hc.available_of_compose (reads_spent_outpoints hread o ho)
  refine ⟨happ', fun o ho => ?_, by rw [hhash, hvalue]⟩
  rcases add_transaction_adds hdiff ho with hold | hnew
  · exact hc.adds_available o hold
  · exact .created htx hinputs hnew

end Commits

/-! ## What the pass reads -/

/-- The entries looked up for the inputs are what the view reads at their
    outpoints. -/
theorem lookup_entries_reads {utxo_view : UtxoView} :
    ∀ {inputs : List TransactionInput} {entries : List UtxoEntry},
      lookup_entries utxo_view inputs = some entries →
      ∀ ie ∈ inputs.zip entries, utxo_view ie.1.previous_outpoint = some ie.2
  | [], _, _, _, hie => by
      rw [List.zip_nil_left] at hie
      cases hie
  | input :: rest, entries, h, ie, hie => by
      simp only [lookup_entries, Option.bind_eq_bind, Option.bind_eq_some_iff, Option.pure_def,
        Option.some.injEq] at h
      obtain ⟨entry, hentry, entries', hrest, rfl⟩ := h
      rw [List.zip_cons_cons] at hie
      rcases List.mem_cons.mp hie with rfl | hie
      · exact hentry
      · exact lookup_entries_reads hrest ie hie

/-- A populated transaction's entries are what the view reads at its inputs. -/
theorem populate_reads {utxo_view : UtxoView} {tx : Transaction} {ptx : PopulatedTransaction}
    (h : populate utxo_view tx = some ptx) :
    ∀ ie ∈ ptx.populated_inputs, utxo_view ie.1.previous_outpoint = some ie.2 := by
  unfold populate at h
  split at h
  · cases h
  · rename_i entries hentries
    cases h
    exact lookup_entries_reads hentries

/-- A transaction valid in isolation spends distinct outpoints, and a coinbase valid
    in isolation spends none. -/
theorem isolation_inputs {v : TransactionValidator} {tx : Transaction}
    (h : v.validate_tx_in_isolation tx = .ok ()) :
    (spent_outpoints tx).Nodup ∧ (tx.is_coinbase = true → tx.inputs = []) := by
  unfold TransactionValidator.validate_tx_in_isolation at h
  simp only [bind_eq_ok] at h
  obtain ⟨-, -, -, -, ⟨⟩, hcoinbase, -, -, ⟨⟩, hduplicate, -⟩ := h
  constructor
  · unfold check_duplicate_transaction_inputs at hduplicate
    split at hduplicate
    · cases hduplicate
    · rename_i hnone
      exact (first_repeat_eq_none [] _ hnone).1
  · intro hcb
    unfold TransactionValidator.check_coinbase_in_isolation at hcoinbase
    rw [hcb] at hcoinbase
    by_contra hne
    have hnonempty : (!tx.inputs.isEmpty) = true := by simpa [List.isEmpty_iff] using hne
    simp [hnonempty] at hcoinbase

namespace VirtualStateProcessor

variable (p : VirtualStateProcessor G)

omit [CommGroup G] in
/-- A transaction validated against a view spends what the view reads. -/
theorem validate_transaction_in_utxo_context_reads {utxo_view : UtxoView} {tx : Transaction}
    {pov_daa_score : UInt64} {flags : TxValidationFlags} {validated_tx : ValidatedTransaction}
    (h : p.validate_transaction_in_utxo_context tx utxo_view pov_daa_score flags = .ok validated_tx) :
    ∀ ie ∈ validated_tx.populated_inputs, utxo_view ie.1.previous_outpoint = some ie.2 := by
  unfold validate_transaction_in_utxo_context at h
  split at h
  · cases h
  · rename_i populated_tx hpopulate
    split at h
    · cases h
      exact populate_reads hpopulate
    · cases h

/-- Accepting a transaction adds it to the multiset hash. -/
theorem accept_transaction_multiset_hash {pov_daa_score : UInt64}
    {ctx ctx' : UtxoProcessingContext G} {block_fee block_fee' : UInt64}
    {validated_tx : ValidatedTransaction}
    (h : p.accept_transaction pov_daa_score (ctx, block_fee) validated_tx = .ok (ctx', block_fee')) :
    ctx'.multiset_hash = ctx.multiset_hash.add_transaction p.data_to_element
      validated_tx.toPopulatedTransaction pov_daa_score := by
  simp only [accept_transaction, bind_eq_ok, unwrap_eq_ok] at h
  obtain ⟨_, -, _, -, hpure⟩ := h
  cases hpure
  rfl

omit [CommGroup G] in
/-- Recording a merged block leaves the diff and the multiset hash. -/
theorem record_block_keeps {ctx ctx' : UtxoProcessingContext G} {merged_block : Hash}
    {txs : List Transaction} {block_fee : UInt64} {acceptance : MergesetBlockAcceptanceData}
    (h : p.record_block ctx merged_block txs block_fee acceptance = .ok ctx') :
    ctx'.mergeset_diff = ctx.mergeset_diff ∧ ctx'.multiset_hash = ctx.multiset_hash := by
  simp only [record_block, bind_eq_ok] at h
  obtain ⟨_, -, _, -, hpure⟩ := h
  cases hpure
  exact ⟨rfl, rfl⟩

/-- Accepting the selected parent's coinbase adds its first transaction, a coinbase,
    to the diff and to the multiset hash. -/
theorem accept_coinbase_eq_ok {ctx ctx₁ : UtxoProcessingContext G}
    {selected_parent_transactions : List Transaction} {pov_daa_score : UInt64}
    {coinbase_id : TransactionId}
    (h : p.accept_coinbase ctx selected_parent_transactions pov_daa_score = .ok (ctx₁, coinbase_id)) :
    ∃ coinbase ∈ selected_parent_transactions.take 1, coinbase.is_coinbase = true ∧
      KashUtxoDiff.add_transaction ctx.mergeset_diff (coinbase_populated coinbase) pov_daa_score =
        .ok ctx₁.mergeset_diff ∧
      ctx₁.multiset_hash = ctx.multiset_hash.add_transaction p.data_to_element
        (coinbase_populated coinbase) pov_daa_score := by
  unfold accept_coinbase at h
  obtain ⟨coinbase, hfirst, hrest⟩ := (bind_eq_ok _ _ _).mp h
  have hmem : coinbase ∈ selected_parent_transactions.take 1 := by
    cases selected_parent_transactions with
    | nil => cases hfirst
    | cons tx rest =>
        cases hfirst
        exact List.mem_singleton_self _
  split_ifs at hrest with hcb
  simp only [bind_eq_ok, unwrap_eq_ok] at hrest
  obtain ⟨_, hdiff, hpure⟩ := hrest
  cases hpure
  exact ⟨coinbase, hmem, by simpa using hcb, hdiff, rfl⟩

end VirtualStateProcessor

/-! ## The sequential pass keeps the invariant -/

/-- What the pass needs of a transaction it may accept: it spends distinct
    outpoints, and none if it is a coinbase. -/
structure Admissible (tx : Transaction) : Prop where
  nodup : (spent_outpoints tx).Nodup
  coinbase_inputs : tx.is_coinbase = true → tx.inputs = []

/-- The transactions after the coinbase of every merged block are candidates. -/
theorem mem_candidate_transactions {selected_parent_transactions : List Transaction}
    {mergeset : List (Hash × List Transaction)} {txs : List Transaction} {tx : Transaction}
    (htxs : txs ∈ selected_parent_transactions :: mergeset.map Prod.snd) (htx : tx ∈ txs.drop 1) :
    tx ∈ candidate_transactions selected_parent_transactions mergeset :=
  List.mem_append_right _ (List.mem_flatMap.mpr ⟨txs, htxs, htx⟩)

namespace VirtualStateProcessor

/-- The selected parent's coinbase, without inputs, is the coinbase itself. -/
theorem coinbase_populated_tx {coinbase : Transaction} (h : coinbase.inputs = []) :
    (coinbase_populated coinbase).tx = coinbase := by
  cases coinbase
  dsimp only at h
  subst h
  rfl

variable (p : VirtualStateProcessor G) (utxo_set : UtxoCollection) (txs_all : List Transaction)
  (pov_daa_score : UInt64)

/-- **ONE BLOCK**: the sequential loop over a block's transactions keeps the
    invariant. Each step is a rejection, which changes nothing, or an acceptance,
    whose inputs were read in the view so far. -/
theorem sequential_transactions_from_commits (hnew : NewOutputsOnly utxo_set txs_all)
    (flags : TxValidationFlags) :
    ∀ (txs : List Transaction) (index : ℕ) (state : UtxoProcessingContext G × UInt64)
      (accepted : List (ValidatedTransaction × UInt32))
      (r : (UtxoProcessingContext G × UInt64) × List (ValidatedTransaction × UInt32)),
      (∀ tx ∈ txs, tx ∈ txs_all ∧ Admissible tx) →
      Commits p.data_to_element utxo_set txs_all state.1 →
      p.sequential_transactions_from utxo_set.view pov_daa_score flags index (state, accepted) txs =
        .ok r →
      Commits p.data_to_element utxo_set txs_all r.1.1
  | [], _, _, _, _, _, hc, h => by
      cases h
      exact hc
  | tx :: rest, index, ⟨ctx, block_fee⟩, accepted, r, htxs, hc, h => by
      have hrest_txs : ∀ tx' ∈ rest, tx' ∈ txs_all ∧ Admissible tx' :=
        fun tx' htx' => htxs tx' (List.mem_cons_of_mem tx htx')
      obtain ⟨first, hvalid, hrest⟩ := (p.sequential_transactions_from_cons_eq_ok).mp h
      cases first with
      | none =>
          exact sequential_transactions_from_commits hnew flags rest (index + 1) _ accepted r
            hrest_txs hc hrest
      | some validated_tx =>
          obtain ⟨⟨ctx', block_fee'⟩, haccept, hrest⟩ := hrest
          obtain ⟨hmem, hadmissible⟩ := htxs tx List.mem_cons_self
          have hvalidated := (ok_or_panic_eq_some _ _).mp hvalid
          have htx : validated_tx.tx = tx := p.validate_transaction_in_utxo_context_tx hvalidated
          have hread := p.validate_transaction_in_utxo_context_reads hvalidated
          rw [← htx] at hmem
          -- the candidate read all its inputs, so its outputs are new to the set
          have hfresh := hc.fresh_of_reads hnew hmem (reads_spent_outpoints hread)
          have hc' : Commits p.data_to_element utxo_set txs_all ctx' :=
            hc.add_transaction hmem (htx ▸ hadmissible.nodup) hread hfresh
              (p.accept_transaction_diff haccept) (p.accept_transaction_multiset_hash haccept)
          exact sequential_transactions_from_commits hnew flags rest (index + 1) _ _ r hrest_txs hc'
            hrest

/-- A merged block, read sequentially, keeps the invariant. -/
theorem sequential_merge_block_commits (hnew : NewOutputsOnly utxo_set txs_all)
    (coinbase_id : TransactionId) {ctx ctx' : UtxoProcessingContext G} {merged_block : Hash}
    {txs : List Transaction} {i : ℕ} (htxs : ∀ tx ∈ txs.drop 1, tx ∈ txs_all ∧ Admissible tx)
    (hc : Commits p.data_to_element utxo_set txs_all ctx)
    (h : p.sequential_merge_block utxo_set.view pov_daa_score coinbase_id ctx
      ((merged_block, txs), i) = .ok ctx') :
    Commits p.data_to_element utxo_set txs_all ctx' := by
  simp only [sequential_merge_block, bind_eq_ok] at h
  obtain ⟨r, hseq, hrecord⟩ := h
  have hc' := p.sequential_transactions_from_commits utxo_set txs_all pov_daa_score hnew _
    (txs.drop 1) 1 (ctx, 0) [] r htxs hc hseq
  obtain ⟨hdiff, hhash⟩ := p.record_block_keeps hrecord
  exact hc'.of_eq hdiff hhash

/-- **THE SEQUENTIAL PASS**: from a context that commits to the set, the sequential
    pass ends in one that commits to the set, when every merged transaction is
    admissible and no candidate that may read its inputs recreates an outpoint of
    the set. -/
theorem sequential_utxo_state_commits (selected_parent_transactions : List Transaction)
    (mergeset : List (Hash × List Transaction)) (ctx ctx' : UtxoProcessingContext G)
    (htxs : ∀ txs ∈ selected_parent_transactions :: mergeset.map Prod.snd, ∀ tx ∈ txs,
      Admissible tx)
    (hnew : NewOutputsOnly utxo_set (candidate_transactions selected_parent_transactions mergeset))
    (hc : Commits p.data_to_element utxo_set
      (candidate_transactions selected_parent_transactions mergeset) ctx)
    (h : p.sequential_utxo_state ctx selected_parent_transactions mergeset utxo_set.view
      pov_daa_score = .ok ctx') :
    Commits p.data_to_element utxo_set
      (candidate_transactions selected_parent_transactions mergeset) ctx' := by
  simp only [sequential_utxo_state, bind_eq_ok] at h
  obtain ⟨⟨ctx₀, coinbase_id⟩, hcoinbase, ctx₁, hfold, hpure⟩ := h
  cases hpure
  -- the selected parent's coinbase: a candidate with no inputs, so its outputs are new
  obtain ⟨coinbase, hfirst, hcb, hdiff, hhash⟩ := p.accept_coinbase_eq_ok hcoinbase
  have hinputs := (htxs _ List.mem_cons_self coinbase (List.mem_of_mem_take hfirst)).coinbase_inputs
    hcb
  have hcand : (coinbase_populated coinbase).tx ∈
      candidate_transactions selected_parent_transactions mergeset := by
    rw [coinbase_populated_tx hinputs]
    exact List.mem_append_left _ hfirst
  have hfresh : ∀ o ∈ created_outpoints (coinbase_populated coinbase).tx, utxo_set.get o = none := by
    rw [coinbase_populated_tx hinputs]
    refine hnew coinbase (List.mem_append_left _ hfirst) fun o ho => ?_
    rw [spent_outpoints, hinputs] at ho
    cases ho
  have hnodup : (spent_outpoints (coinbase_populated coinbase).tx).Nodup := List.nodup_nil
  have hread : ∀ ie ∈ (coinbase_populated coinbase).populated_inputs,
      compose utxo_set.view ctx.mergeset_diff ie.1.previous_outpoint = some ie.2 := by
    intro ie hie
    simp [coinbase_populated, ValidatedTransaction.new_coinbase,
      PopulatedTransaction.populated_inputs] at hie
  have hc₀ : Commits p.data_to_element utxo_set
      (candidate_transactions selected_parent_transactions mergeset) ctx₀ :=
    hc.add_transaction hcand hnodup hread hfresh hdiff hhash
  -- the merged blocks, one after another
  have hc₁ := foldlM_invariant_of_mem (Commits p.data_to_element utxo_set
      (candidate_transactions selected_parent_transactions mergeset)) _ _
    (by
      rintro b ⟨⟨merged_block, txs⟩, i⟩ b' hblock hb hstep
      obtain ⟨-, hi, hpair⟩ := List.mem_zipIdx hblock
      have hpair_mem : (merged_block, txs) ∈ (ctx₀.selected_parent, selected_parent_transactions) ::
          mergeset := by
        rw [hpair]
        exact List.getElem_mem _
      have htxs_mem : txs ∈ selected_parent_transactions :: mergeset.map Prod.snd := by
        rcases List.mem_cons.mp hpair_mem with hsp | hm
        · cases hsp
          exact List.mem_cons_self
        · exact List.mem_cons_of_mem _ (List.mem_map_of_mem hm)
      exact p.sequential_merge_block_commits utxo_set _ pov_daa_score hnew coinbase_id
        (fun tx htx => ⟨mem_candidate_transactions htxs_mem htx,
          htxs txs htxs_mem tx (List.mem_of_mem_drop htx)⟩) hb hstep)
    ctx₀ ctx₁ hc₀ hfold
  exact hc₁.of_eq rfl rfl

end VirtualStateProcessor

/-- The UTXO commitment of a chain block whose selected parent and merged blocks
    passed `validate_body_in_isolation`. `MuHashExtensions::add_transaction` divides
    the committed value by the element of every entry `UtxoDiff::add_transaction`
    removes and multiplies it by the element of every entry it adds. And when no
    candidate transaction that may come to read all its inputs creates an outpoint
    the selected parent's UTXO set holds, as in every mergeset the DAG reaches, a
    multiset hash that commits to the selected parent's set ends, after
    `calculate_utxo_state`, committing to that set with the mergeset diff written. -/
theorem multiset_hash_commits_to_utxo_set {G : Type} [CommGroup G] (p : VirtualStateProcessor G)
    (bp : BlockBodyProcessor) (utxo_set : UtxoCollection) (selected_parent : Block)
    (mergeset : List Block) (selected_parent_multiset_hash : MuHash G) (pov_daa_score : UInt64)
    (ctx' : UtxoProcessingContext G)
    (hbodies : ∀ block ∈ selected_parent :: mergeset,
      ∃ mass, bp.validate_body_in_isolation block = .ok mass)
    (hnew : NewOutputsOnly utxo_set (candidate_transactions selected_parent.transactions
        (mergeset.map fun block => (block.header.hash, block.transactions))))
    (hhash : selected_parent_multiset_hash.value = utxo_set_hash p.data_to_element utxo_set)
    (h : p.calculate_utxo_state
      (UtxoProcessingContext.new selected_parent.header.hash selected_parent_multiset_hash)
      selected_parent.transactions (mergeset.map fun block => (block.header.hash, block.transactions))
      utxo_set.view pov_daa_score = .ok ctx') :
    (∀ (muhash : MuHash G) (tx : PopulatedTransaction) (block_daa_score : UInt64),
      (muhash.add_transaction p.data_to_element tx block_daa_score).value =
        muhash.value / (tx.populated_inputs.map fun ie =>
            p.data_to_element (write_utxo ie.2 ie.1.previous_outpoint)).prod *
          ((output_entries tx.tx block_daa_score).map fun oe =>
            p.data_to_element (write_utxo oe.2 oe.1)).prod) ∧
    ctx'.multiset_hash.value = utxo_set_hash p.data_to_element (write_diff utxo_set ctx'.mergeset_diff) := by
  refine ⟨value_add_transaction p.data_to_element, ?_⟩
  -- the parallel pass ended where the sequential one ends
  have hseq := (p.calculate_utxo_state_eq_ok_iff_of_independent _ _ _ _ _ _
    (independent_of_bodies hbodies)).mp h
  -- every merged transaction is admissible, from its validity in isolation
  have hadmissible : ∀ txs ∈ selected_parent.transactions ::
      (mergeset.map fun block => (block.header.hash, block.transactions)).map Prod.snd,
      ∀ tx ∈ txs, Admissible tx := by
    intro txs htxs tx htx
    obtain ⟨block, hblock, rfl⟩ := mem_block_transactions htxs
    obtain ⟨mass, hmass⟩ := hbodies block hblock
    obtain ⟨hnodup, hcoinbase⟩ :=
      isolation_inputs (transactions_valid_of_validate_body_in_isolation hmass tx htx)
    exact ⟨hnodup, hcoinbase⟩
  exact (p.sequential_utxo_state_commits utxo_set pov_daa_score _ _ _ _ hadmissible hnew
    (Commits.new _ hhash) hseq).hash_eq

/-- The virtual processor under the mainnet parameters, with the integers under
    addition as the MuHash group and the length of an encoding as its element. -/
def length_processor : VirtualStateProcessor (Multiplicative ℤ) :=
  ⟨mainnet_validator, mainnet_coinbase_manager, inert_crypto,
    fun data => Multiplicative.ofAdd (data.length : ℤ)⟩

/-- A UTXO set holding `op_true_entry` at `parent_outpoint`. -/
def parent_utxo_set : UtxoCollection := (∅ : UtxoCollection).insert parent_outpoint op_true_entry

/-- The multiset hash of `parent_utxo_set`. -/
def parent_multiset_hash : MuHash (Multiplicative ℤ) :=
  MuHash.new.add_utxo length_processor.data_to_element parent_outpoint op_true_entry

/-- An outpoint spent before the selected parent's set. -/
def earlier_outpoint : TransactionOutpoint := ⟨hash_of_byte 8, 0⟩

/-- A transaction accepted before the selected parent's set, spending
    `earlier_outpoint`. -/
def earlier_spend : Transaction := spend_outpoint earlier_outpoint (hash_of_byte 9)

/-- The entry `earlier_spend` created. -/
def earlier_spend_entry : UtxoEntry := ⟨5, ⟨0, []⟩, 900, false, .KSH⟩

/-- A merged block carrying `earlier_spend` again. -/
def remerging_block : Block :=
  ⟨⟨hash_of_byte 10, 1000, ZERO_HASH⟩, [zero_payload_coinbase (hash_of_byte 11), earlier_spend]⟩

/-- `parent_utxo_set` with the output of `earlier_spend`. -/
def remerged_utxo_set : UtxoCollection :=
  parent_utxo_set.insert ⟨hash_of_byte 9, 0⟩ earlier_spend_entry

/-- The multiset hash of `remerged_utxo_set`. -/
def remerged_multiset_hash : MuHash (Multiplicative ℤ) :=
  parent_multiset_hash.add_utxo length_processor.data_to_element ⟨hash_of_byte 9, 0⟩
    earlier_spend_entry

/-- `spending_block` and `remerging_block` merged over `coinbase_only_block`. The
    re-merged `earlier_spend` creates an outpoint the set holds, but it spends one
    the pass cannot hold; the multiset hash commits to the selected parent's set
    with the mergeset diff written. -/
theorem multiset_hash_commits_to_utxo_set_remerged_spend :
    (∀ block ∈ [coinbase_only_block, spending_block, remerging_block],
      ∃ mass, zero_hash_body_processor.validate_body_in_isolation block = .ok mass) ∧
    earlier_spend ∈ candidate_transactions coinbase_only_block.transactions
      ([spending_block, remerging_block].map fun block => (block.header.hash, block.transactions)) ∧
    (∃ o ∈ created_outpoints earlier_spend, remerged_utxo_set.get o ≠ none) ∧
    NewOutputsOnly remerged_utxo_set (candidate_transactions coinbase_only_block.transactions
      ([spending_block, remerging_block].map fun block => (block.header.hash, block.transactions))) ∧
    remerged_multiset_hash.value = utxo_set_hash length_processor.data_to_element remerged_utxo_set ∧
    ∃ ctx', length_processor.calculate_utxo_state
        (UtxoProcessingContext.new (hash_of_byte 3) remerged_multiset_hash)
        coinbase_only_block.transactions
        ([spending_block, remerging_block].map fun block => (block.header.hash, block.transactions))
        remerged_utxo_set.view 1000 = .ok ctx' ∧
      ctx'.multiset_hash.value =
        utxo_set_hash length_processor.data_to_element (write_diff remerged_utxo_set ctx'.mergeset_diff) := by
  have hbodies : ∀ block ∈ [coinbase_only_block, spending_block, remerging_block],
      ∃ mass, zero_hash_body_processor.validate_body_in_isolation block = .ok mass := by
    intro block hblock
    simp only [List.mem_cons, List.mem_nil_iff, or_false] at hblock
    rcases hblock with rfl | rfl | rfl
    · exact ⟨0, (toOption_eq_some _ _).mp (by decide +kernel)⟩
    · exact ⟨184, (toOption_eq_some _ _).mp (by decide +kernel)⟩
    · exact ⟨184, (toOption_eq_some _ _).mp (by decide +kernel)⟩
  have hcands : candidate_transactions coinbase_only_block.transactions
      ([spending_block, remerging_block].map fun block => (block.header.hash, block.transactions)) =
      [zero_payload_coinbase (hash_of_byte 4), spend_outpoint parent_outpoint (hash_of_byte 7),
        earlier_spend] := rfl
  have hnew : NewOutputsOnly remerged_utxo_set (candidate_transactions
      coinbase_only_block.transactions
      ([spending_block, remerging_block].map fun block => (block.header.hash, block.transactions))) := by
    rw [hcands]
    intro tx htx hreads
    simp only [List.mem_cons, List.mem_nil_iff, or_false] at htx
    rcases htx with rfl | rfl | rfl
    · decide
    · decide
    -- the re-merged transaction spends an outpoint that neither the set nor a candidate holds
    · exact absurd (hreads earlier_outpoint (by decide)) (not_available (by decide) (by decide))
  have hhash : remerged_multiset_hash.value =
      utxo_set_hash length_processor.data_to_element remerged_utxo_set := by
    decide
  have hsome : (length_processor.calculate_utxo_state
      (UtxoProcessingContext.new (hash_of_byte 3) remerged_multiset_hash)
      coinbase_only_block.transactions
      ([spending_block, remerging_block].map fun block => (block.header.hash, block.transactions))
      remerged_utxo_set.view 1000).toOption.isSome = true := by
    decide +kernel
  obtain ⟨ctx', hctx⟩ := Option.isSome_iff_exists.mp hsome
  have hcalc := (toOption_eq_some _ _).mp hctx
  exact ⟨hbodies, by rw [hcands]; decide, ⟨⟨hash_of_byte 9, 0⟩, by decide, by decide⟩, hnew, hhash,
    ctx', hcalc,
    (multiset_hash_commits_to_utxo_set length_processor zero_hash_body_processor remerged_utxo_set
      coinbase_only_block [spending_block, remerging_block] remerged_multiset_hash 1000 ctx'
      hbodies hnew hhash hcalc).2⟩

/-! ## A merged transaction that recreates a live outpoint -/

/-- A second outpoint of the selected parent's UTXO set. -/
def other_outpoint : TransactionOutpoint := ⟨hash_of_byte 8, 0⟩

/-- A UTXO set holding `op_true_entry` at `parent_outpoint` and at `other_outpoint`. -/
def two_entry_utxo_set : UtxoCollection := parent_utxo_set.insert other_outpoint op_true_entry

/-- The multiset hash of `two_entry_utxo_set`. -/
def two_entry_multiset_hash : MuHash (Multiplicative ℤ) :=
  parent_multiset_hash.add_utxo length_processor.data_to_element other_outpoint op_true_entry

/-- A merged block whose transaction spends `other_outpoint` and whose id collides
    with that of the transaction that created `parent_outpoint`, so that its output
    is `parent_outpoint` again. -/
def recreating_block : Block :=
  ⟨⟨hash_of_byte 5, 1000, ZERO_HASH⟩,
    [zero_payload_coinbase (hash_of_byte 6), spend_outpoint other_outpoint (hash_of_byte 2)]⟩

/-- Both blocks pass `validate_body_in_isolation`, the multiset hash commits to the
    selected parent's set, and `calculate_utxo_state` succeeds; yet the multiset hash
    it ends with is not the commitment of the set with the mergeset diff written. The
    diff overwrites the live entry at `parent_outpoint`, whose element the multiset
    hash keeps: the colliding id breaks `NewOutputsOnly`. -/
theorem multiset_hash_diverges_on_recreated_outpoint :
    (∀ block ∈ [coinbase_only_block, recreating_block],
      ∃ mass, zero_hash_body_processor.validate_body_in_isolation block = .ok mass) ∧
    two_entry_multiset_hash.value =
      utxo_set_hash length_processor.data_to_element two_entry_utxo_set ∧
    ∃ ctx', length_processor.calculate_utxo_state
        (UtxoProcessingContext.new (hash_of_byte 3) two_entry_multiset_hash)
        coinbase_only_block.transactions
        ([recreating_block].map fun block => (block.header.hash, block.transactions))
        two_entry_utxo_set.view 1000 = .ok ctx' ∧
      ctx'.multiset_hash.value ≠
        utxo_set_hash length_processor.data_to_element
          (write_diff two_entry_utxo_set ctx'.mergeset_diff) := by
  have hbodies : ∀ block ∈ [coinbase_only_block, recreating_block],
      ∃ mass, zero_hash_body_processor.validate_body_in_isolation block = .ok mass := by
    intro block hblock
    simp only [List.mem_cons, List.mem_nil_iff, or_false] at hblock
    rcases hblock with rfl | rfl
    · exact ⟨0, (toOption_eq_some _ _).mp (by decide +kernel)⟩
    · exact ⟨184, (toOption_eq_some _ _).mp (by decide +kernel)⟩
  have hhash : two_entry_multiset_hash.value =
      utxo_set_hash length_processor.data_to_element two_entry_utxo_set := by
    decide
  -- the pass succeeds, and its result reads against the commitment as false
  have hgap : (length_processor.calculate_utxo_state
      (UtxoProcessingContext.new (hash_of_byte 3) two_entry_multiset_hash)
      coinbase_only_block.transactions
      ([recreating_block].map fun block => (block.header.hash, block.transactions))
      two_entry_utxo_set.view 1000).toOption.map
        (fun ctx' => decide (ctx'.multiset_hash.value =
          utxo_set_hash length_processor.data_to_element
            (write_diff two_entry_utxo_set ctx'.mergeset_diff))) = some false := by
    decide +kernel
  obtain ⟨ctx', hctx, hne⟩ := Option.map_eq_some_iff.mp hgap
  exact ⟨hbodies, hhash, ctx', (toOption_eq_some _ _).mp hctx, of_decide_eq_false hne⟩

end KashPipeline
