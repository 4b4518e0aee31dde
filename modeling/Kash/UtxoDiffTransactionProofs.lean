import Kash.UtxoDiffAlgebraProofs

/-! # Where `add_transaction` writes

    `add_transaction` folds `remove_entry` over the spent entries and `add_entry`
    over the created ones, and each of the two writes the diff's cell at its own
    outpoint only. So a transaction changes a composed view at the outpoints it
    spends and creates and nowhere else (`compose_add_transaction_of_not_mem`):
    the frame the UTXO stage relies on when it validates the transactions of a
    block against one view and adds them to the diff afterwards.

    On a diff that is applicable to its base (`UtxoDiff.ApplicableTo`), removing
    the entry the composed view reads is a real spend — the view then reads
    nothing there (`remove_entry_spends`) — and adding an entry at an outpoint the
    base does not hold is a real creation (`add_entry_creates`); both keep the diff
    applicable. -/

namespace KashUtxoDiff

open KashTx AListLoops ExceptLoops

/-- The outpoints a transaction spends. -/
def spent_outpoints (tx : Transaction) : List TransactionOutpoint :=
  tx.inputs.map (·.previous_outpoint)

/-- The outpoints a transaction creates: its id with the index of each output. -/
def created_outpoints (tx : Transaction) : List TransactionOutpoint :=
  (List.range tx.outputs.length).map fun index => ⟨tx.id, UInt32.ofNat index⟩

/-- The entries `add_transaction` adds sit at the outpoints the transaction creates. -/
theorem output_entries_outpoints (tx : Transaction) (block_daa_score : UInt64) :
    (output_entries tx block_daa_score).map Prod.fst = created_outpoints tx := by
  have hfst : (Prod.fst ∘ fun (x : TransactionOutput × ℕ) =>
      ((⟨tx.id, UInt32.ofNat x.2⟩ : TransactionOutpoint),
        (⟨x.1.value, x.1.script_public_key, block_daa_score, tx.is_coinbase,
          x.1.asset_type⟩ : UtxoEntry))) =
      (fun index => (⟨tx.id, UInt32.ofNat index⟩ : TransactionOutpoint)) ∘ Prod.snd := rfl
  rw [output_entries, List.map_map, hfst, ← List.map_map, List.zipIdx_map_snd,
    created_outpoints, List.range_eq_range']

/-- The outpoints of a populated transaction's inputs are the ones it spends. -/
theorem populated_inputs_outpoints (tx : PopulatedTransaction) :
    tx.populated_inputs.map (·.1.previous_outpoint) = spent_outpoints tx.tx := by
  have hfst : tx.populated_inputs.map Prod.fst = tx.tx.inputs :=
    List.map_fst_zip (le_of_eq tx.entries_length.symm)
  rw [spent_outpoints, ← hfst, List.map_map]
  rfl

/-- `remove_entry` writes the cell of its own outpoint only. -/
theorem remove_entry_cell_of_ne {self d : UtxoDiff} {outpoint o : TransactionOutpoint}
    {entry : UtxoEntry} (h : remove_entry self outpoint entry = .ok d) (ho : o ≠ outpoint) :
    d.cell o = self.cell o := by
  unfold remove_entry at h
  split_ifs at h <;> cases h <;> simp [UtxoDiff.cell, ho]

/-- `add_entry` writes the cell of its own outpoint only. -/
theorem add_entry_cell_of_ne {self d : UtxoDiff} {outpoint o : TransactionOutpoint}
    {entry : UtxoEntry} (h : add_entry self outpoint entry = .ok d) (ho : o ≠ outpoint) :
    d.cell o = self.cell o := by
  unfold add_entry at h
  split_ifs at h <;> cases h <;> simp [UtxoDiff.cell, ho]

/-- **FRAME**: `add_transaction` leaves the cell of every outpoint the transaction
    neither spends nor creates. -/
theorem add_transaction_cell_of_not_mem {self d : UtxoDiff} {transaction : PopulatedTransaction}
    {block_daa_score : UInt64} {o : TransactionOutpoint}
    (h : add_transaction self transaction block_daa_score = .ok d)
    (hspent : o ∉ spent_outpoints transaction.tx)
    (hcreated : o ∉ created_outpoints transaction.tx) :
    d.cell o = self.cell o := by
  unfold add_transaction at h
  obtain ⟨d₁, h₁, h₂⟩ := (bind_eq_ok _ _ _).mp h
  -- the removals visit the spent outpoints
  have hremoved : d₁.cell o = self.cell o := by
    refine foldlM_invariant_of_mem (fun d => d.cell o = self.cell o) _ _ ?_ self d₁ rfl h₁
    intro d ie d' hie hd hstep
    have hne : o ≠ ie.1.previous_outpoint := by
      rintro rfl
      exact hspent (List.mem_map_of_mem (List.of_mem_zip hie).1)
    rw [remove_entry_cell_of_ne hstep hne, hd]
  -- the additions visit the created outpoints
  rw [← output_entries_outpoints transaction.tx block_daa_score] at hcreated
  refine foldlM_invariant_of_mem (fun d => d.cell o = self.cell o) _ _ ?_ d₁ d hremoved h₂
  intro d oe d' hoe hd hstep
  have hne : o ≠ oe.1 := by
    rintro rfl
    exact hcreated (List.mem_map_of_mem hoe)
  rw [add_entry_cell_of_ne hstep hne, hd]

/-- A composed view reads the same after `add_transaction` at every outpoint the
    transaction neither spends nor creates. -/
theorem compose_add_transaction_of_not_mem {self d : UtxoDiff}
    {transaction : PopulatedTransaction} {block_daa_score : UInt64} (base : UtxoView)
    {o : TransactionOutpoint} (h : add_transaction self transaction block_daa_score = .ok d)
    (hspent : o ∉ spent_outpoints transaction.tx)
    (hcreated : o ∉ created_outpoints transaction.tx) :
    compose base d o = compose base self o := by
  rw [compose_eq_applyCell, compose_eq_applyCell,
    add_transaction_cell_of_not_mem h hspent hcreated]

/-- `remove_entry` adds nothing. -/
theorem remove_entry_adds {self d : UtxoDiff} {outpoint o : TransactionOutpoint}
    {entry : UtxoEntry} (h : remove_entry self outpoint entry = .ok d)
    (hadd : (d.add.get o).isSome) : (self.add.get o).isSome := by
  unfold remove_entry at h
  split_ifs at h <;> cases h
  · simp only [get_erase] at hadd
    split_ifs at hadd
    · cases hadd
    · exact hadd
  · exact hadd

/-- `add_entry` adds its own outpoint only. -/
theorem add_entry_adds {self d : UtxoDiff} {outpoint o : TransactionOutpoint}
    {entry : UtxoEntry} (h : add_entry self outpoint entry = .ok d)
    (hadd : (d.add.get o).isSome) : (self.add.get o).isSome ∨ o = outpoint := by
  unfold add_entry at h
  split_ifs at h <;> cases h
  · exact Or.inl hadd
  · simp only [get_insert] at hadd
    split_ifs at hadd with ho
    · exact Or.inr ho
    · exact Or.inl hadd

/-- The outpoints a diff adds after `add_transaction` are those it added before and
    those the transaction creates. -/
theorem add_transaction_adds {self d : UtxoDiff} {transaction : PopulatedTransaction}
    {block_daa_score : UInt64} (h : add_transaction self transaction block_daa_score = .ok d)
    {o : TransactionOutpoint} (hadd : (d.add.get o).isSome) :
    (self.add.get o).isSome ∨ o ∈ created_outpoints transaction.tx := by
  unfold add_transaction at h
  obtain ⟨d₁, h₁, h₂⟩ := (bind_eq_ok _ _ _).mp h
  let Added : UtxoDiff → Prop := fun d => ∀ o, (d.add.get o).isSome →
    (self.add.get o).isSome ∨ o ∈ created_outpoints transaction.tx
  have hremoved : Added d₁ := by
    refine foldlM_invariant_of_mem Added _ _ ?_ self d₁ (fun o ho => Or.inl ho) h₁
    intro d ie d' _ hd hstep o ho
    exact hd o (remove_entry_adds hstep ho)
  refine foldlM_invariant_of_mem Added _ _ ?_ d₁ d hremoved h₂ o hadd
  intro d oe d' hoe hd hstep o ho
  rcases add_entry_adds hstep ho with ho | rfl
  · exact hd o ho
  · right
    rw [← output_entries_outpoints transaction.tx block_daa_score]
    exact List.mem_map_of_mem hoe

/-! ## Spending and creating on an applicable diff -/

/-- Removing the entry the composed view reads, on a cell applicable to its base:
    the cell stays applicable and the view reads nothing there. -/
theorem remove_entry_cell_spends {base : UtxoView} {self d : UtxoDiff}
    {outpoint : TransactionOutpoint} {entry : UtxoEntry}
    (happ : Applicable (base outpoint) (self.cell outpoint))
    (hread : compose base self outpoint = some entry)
    (h : remove_entry self outpoint entry = .ok d) :
    Applicable (base outpoint) (d.cell outpoint) ∧ compose base d outpoint = none := by
  rw [compose_eq_applyCell] at hread ⊢
  obtain ⟨hremoved, hadded⟩ := happ
  unfold remove_entry at h
  split_ifs at h with hadd hfresh
  · -- an addition with the spent DAA score is cancelled: the cell removes the
    -- outpoint too, or the base does not hold it
    cases h
    have hsome : (self.add.get outpoint).isSome := by
      simp only [contains_with_daa_score, hasScore] at hadd
      split at hadd
      · rename_i heq
        rw [heq]
        rfl
      · cases hadd
    have hcell : ({ self with add := self.add.erase outpoint } : UtxoDiff).cell outpoint =
        ⟨none, self.remove.get outpoint⟩ := by
      simp [UtxoDiff.cell]
    rw [hcell]
    refine ⟨⟨hremoved, fun hnone => (Bool.false_ne_true hnone).elim⟩, ?_⟩
    rcases hadded hsome with hrem | hbase
    · have hrem' : (self.remove.get outpoint).isSome := hrem
      simp [applyCell, hrem']
    · simp [applyCell, hbase]
  · -- a fresh removal is recorded: the view read the base's entry
    cases h
    have hadd_none : self.add.get outpoint = none := by
      cases ha : self.add.get outpoint with
      | none => rfl
      | some a =>
          simp only [UtxoDiff.cell, applyCell, ha, Option.some.injEq] at hread
          subst hread
          simp [contains_with_daa_score, hasScore, ha] at hadd
    have hrem_none : self.remove.get outpoint = none :=
      Option.not_isSome_iff_eq_none.mp (by rwa [mem_iff_get_isSome] at hfresh)
    have hbase : base outpoint = some entry := by
      simpa [UtxoDiff.cell, applyCell, hadd_none, hrem_none] using hread
    have hcell : ({ self with remove := self.remove.insert outpoint entry } : UtxoDiff).cell
        outpoint = ⟨none, some entry⟩ := by
      simp [UtxoDiff.cell, hadd_none]
    rw [hcell]
    refine ⟨⟨fun e he => ?_, fun hnone => (Bool.false_ne_true hnone).elim⟩, rfl⟩
    cases he
    exact ⟨entry, hbase, rfl⟩

/-- Adding an entry at an outpoint its base does not hold, on a cell applicable to
    that base: the view read nothing there, the cell stays applicable, and the view
    reads the entry. -/
theorem add_entry_cell_creates {base : UtxoView} {self d : UtxoDiff}
    {outpoint : TransactionOutpoint} {entry : UtxoEntry}
    (happ : Applicable (base outpoint) (self.cell outpoint)) (hfresh : base outpoint = none)
    (h : add_entry self outpoint entry = .ok d) :
    compose base self outpoint = none ∧ Applicable (base outpoint) (d.cell outpoint) ∧
      compose base d outpoint = some entry := by
  rw [compose_eq_applyCell, compose_eq_applyCell]
  obtain ⟨hremoved, -⟩ := happ
  -- the cell removes nothing: a removal would be of an entry of the base
  have hrem_none : self.remove.get outpoint = none := by
    cases hr : self.remove.get outpoint with
    | none => rfl
    | some r =>
        obtain ⟨b, hb, -⟩ := hremoved r hr
        rw [hfresh] at hb
        cases hb
  unfold add_entry at h
  split_ifs at h with hcancel hnew
  · simp [contains_with_daa_score, hasScore, hrem_none] at hcancel
  · cases h
    have hadd_none : self.add.get outpoint = none :=
      Option.not_isSome_iff_eq_none.mp (by rwa [mem_iff_get_isSome] at hnew)
    refine ⟨by simp [UtxoDiff.cell, applyCell, hadd_none, hrem_none, hfresh], ⟨?_, ?_⟩, ?_⟩
    · intro e he
      simp [UtxoDiff.cell, hrem_none] at he
    · exact fun _ => Or.inr hfresh
    · simp [UtxoDiff.cell, applyCell]

/-- **SPEND**: removing, from a diff applicable to its base, the entry the composed
    view reads keeps the diff applicable; the view then reads nothing there and the
    same elsewhere. -/
theorem remove_entry_spends {base : UtxoView} {self d : UtxoDiff}
    {outpoint : TransactionOutpoint} {entry : UtxoEntry} (happ : self.ApplicableTo base)
    (hread : compose base self outpoint = some entry)
    (h : remove_entry self outpoint entry = .ok d) :
    d.ApplicableTo base ∧
      ∀ o, compose base d o = if o = outpoint then none else compose base self o := by
  obtain ⟨hcell, hnone⟩ := remove_entry_cell_spends (happ outpoint) hread h
  constructor
  · intro o
    by_cases ho : o = outpoint
    · subst ho
      exact hcell
    · rw [remove_entry_cell_of_ne h ho]
      exact happ o
  · intro o
    split_ifs with ho
    · subst ho
      exact hnone
    · rw [compose_eq_applyCell, compose_eq_applyCell, remove_entry_cell_of_ne h ho]

/-- **CREATE**: adding, to a diff applicable to its base, an entry at an outpoint the
    base does not hold keeps the diff applicable; the view read nothing there and then
    reads the entry, and the same elsewhere. -/
theorem add_entry_creates {base : UtxoView} {self d : UtxoDiff}
    {outpoint : TransactionOutpoint} {entry : UtxoEntry} (happ : self.ApplicableTo base)
    (hfresh : base outpoint = none) (h : add_entry self outpoint entry = .ok d) :
    compose base self outpoint = none ∧ d.ApplicableTo base ∧
      ∀ o, compose base d o = if o = outpoint then some entry else compose base self o := by
  obtain ⟨hbefore, hcell, hsome⟩ := add_entry_cell_creates (happ outpoint) hfresh h
  refine ⟨hbefore, fun o => ?_, fun o => ?_⟩
  · by_cases ho : o = outpoint
    · subst ho
      exact hcell
    · rw [add_entry_cell_of_ne h ho]
      exact happ o
  · split_ifs with ho
    · subst ho
      exact hsome
    · rw [compose_eq_applyCell, compose_eq_applyCell, add_entry_cell_of_ne h ho]

end KashUtxoDiff
