import Mathlib
import Kash.UtxoDiffTransactionProofs

/-! # A run of `add_transaction`

    The UTXO stage adds the accepted transactions of a block to one diff, one
    `add_transaction` after another, each transaction populated from the view that
    composes the base with the diff so far. This file compares the composed view at
    the end of such a run with the ledger's own reading of the run
    (`apply_transactions`): the outpoints each transaction spends removed, then its
    outputs inserted, in order.

    The two agree (`add_transactions_applies`) when every call is admissible: its
    inputs read the composed view at distinct outpoints, and its outputs sit at
    distinct outpoints that neither the base nor the composed view holds. The proof
    follows `add_transaction`'s two loops: the spends (`remove_entries_spend`) and
    the creations (`add_entries_create`), each step a `Function.update` of the view;
    the run lemma is an induction over the calls. An output re-created at an
    outpoint the base holds and the run spent is what the freshness of the base
    excludes: `add_entry` then cancels the removal when the DAA scores agree, and the
    composed view reads the base's old entry (`add_transactions_reads_old_entry`). -/

namespace KashUtxoDiff

open KashTx AListLoops ExceptLoops

/-! ## The ledger's reading of a run -/

/-- The view after a transaction, as a ledger reads it: the outpoints it spends
    removed, then its outputs inserted, in order. -/
def apply_transaction (v : UtxoView) (tx : Transaction) (block_daa_score : UInt64) : UtxoView :=
  (output_entries tx block_daa_score).foldl (fun v oe => Function.update v oe.1 (some oe.2))
    ((spent_outpoints tx).foldl (fun v o => Function.update v o none) v)

/-- The view after a run of transactions, each with the DAA score it is added at. -/
def apply_transactions (v : UtxoView) (calls : List (PopulatedTransaction × UInt64)) :
    UtxoView :=
  calls.foldl (fun v c => apply_transaction v c.1.tx c.2) v

/-- The calls of a run: `add_transaction` on each transaction in turn. -/
def add_transactions (d : UtxoDiff) (calls : List (PopulatedTransaction × UInt64)) :
    Except UtxoAlgebraError UtxoDiff :=
  calls.foldlM (fun d c => add_transaction d c.1 c.2) d

/-- What a call needs of the view `v` it is made on: its inputs' entries are the
    ones `v` reads, it spends and creates distinct outpoints, and its outputs are
    new to the base and to `v`. -/
structure CallAdmissible (base v : UtxoView) (transaction : PopulatedTransaction) : Prop where
  reads : ∀ ie ∈ transaction.populated_inputs, v ie.1.previous_outpoint = some ie.2
  spent_nodup : (spent_outpoints transaction.tx).Nodup
  created_nodup : (created_outpoints transaction.tx).Nodup
  fresh : ∀ o ∈ created_outpoints transaction.tx, base o = none ∧ v o = none

/-- Every call of a run is admissible on the view the calls before it leave. -/
def RunAdmissible (base : UtxoView) : UtxoView → List (PopulatedTransaction × UInt64) → Prop
  | _, [] => True
  | v, c :: cs => CallAdmissible base v c.1 ∧ RunAdmissible base (apply_transaction v c.1.tx c.2) cs

/-- Removing a list of outpoints from a view, one `Function.update` at a time. -/
theorem foldl_update_none_apply (l : List TransactionOutpoint) (v : UtxoView)
    (o : TransactionOutpoint) :
    l.foldl (fun (v : UtxoView) o => Function.update v o none) v o =
      if o ∈ l then none else v o := by
  induction l generalizing v with
  | nil => simp
  | cons a l ih =>
      rw [List.foldl_cons, ih, Function.update_apply]
      by_cases hl : o ∈ l
      · simp [hl]
      · by_cases ha : o = a <;> simp [hl, ha]

/-! ## One call -/

/-- `remove_entry` of the entry the composed view reads does not fail: a removal
    already recorded there is under an addition with that entry, which it cancels. -/
theorem remove_entry_ok {base : UtxoView} {self : UtxoDiff} {outpoint : TransactionOutpoint}
    {entry : UtxoEntry} (hread : compose base self outpoint = some entry) :
    ∃ d, remove_entry self outpoint entry = .ok d := by
  unfold remove_entry
  by_cases hcancel : contains_with_daa_score self.add outpoint entry.block_daa_score
  · rw [if_pos hcancel]
    exact ⟨_, rfl⟩
  rw [if_neg hcancel]
  -- a recorded removal would hide the outpoint unless the diff adds it back
  have hnew : outpoint ∉ self.remove := by
    intro hmem
    cases hadd : self.add.get outpoint with
    | none => simp [compose, hadd, hmem] at hread
    | some e =>
        simp only [compose, hadd, Option.some.injEq] at hread
        subst hread
        simp [contains_with_daa_score, hasScore, hadd] at hcancel
  rw [if_pos hnew]
  exact ⟨_, rfl⟩

/-- `add_entry` at an outpoint the composed view does not read does not fail: the
    diff adds nothing there. -/
theorem add_entry_ok {base : UtxoView} {self : UtxoDiff} {outpoint : TransactionOutpoint}
    (entry : UtxoEntry) (hview : compose base self outpoint = none) :
    ∃ d, add_entry self outpoint entry = .ok d := by
  have hadd : self.add.get outpoint = none := by
    unfold compose at hview
    cases hget : self.add.get outpoint with
    | none => rfl
    | some e =>
        rw [hget] at hview
        cases hview
  unfold add_entry
  by_cases hcancel : contains_with_daa_score self.remove outpoint entry.block_daa_score
  · rw [if_pos hcancel]
    exact ⟨_, rfl⟩
  have hnew : outpoint ∉ self.add := by
    rw [mem_iff_get_isSome, hadd]
    exact Bool.false_ne_true
  rw [if_neg hcancel, if_pos hnew]
  exact ⟨_, rfl⟩

/-- **THE SPENDS**: removing the entries the composed view reads at distinct
    outpoints succeeds, keeps the diff applicable, and removes the outpoints from the
    view. -/
theorem remove_entries_spend {base : UtxoView} :
    ∀ (spends : List (TransactionInput × UtxoEntry)) (d : UtxoDiff),
      d.ApplicableTo base → (spends.map (·.1.previous_outpoint)).Nodup →
      (∀ ie ∈ spends, compose base d ie.1.previous_outpoint = some ie.2) →
      ∃ d', spends.foldlM (fun d ie => remove_entry d ie.1.previous_outpoint ie.2) d = .ok d' ∧
        d'.ApplicableTo base ∧
        compose base d' = (spends.map (·.1.previous_outpoint)).foldl
          (fun (v : UtxoView) o => Function.update v o none) (compose base d)
  | [], d, happ, _, _ => ⟨d, rfl, happ, rfl⟩
  | ie :: rest, d, happ, hnodup, hread => by
      rw [List.map_cons, List.nodup_cons] at hnodup
      obtain ⟨d₁, h₁⟩ := remove_entry_ok (hread ie List.mem_cons_self)
      obtain ⟨happ₁, hview₁⟩ := remove_entry_spends happ (hread ie List.mem_cons_self) h₁
      -- one spend is one update of the view
      have hupdate : compose base d₁ =
          Function.update (compose base d) ie.1.previous_outpoint none := by
        funext o
        rw [hview₁, Function.update_apply]
      -- the later spends read the same entries after this one
      have hread₁ : ∀ ie' ∈ rest, compose base d₁ ie'.1.previous_outpoint = some ie'.2 := by
        intro ie' hie'
        have hne : ie'.1.previous_outpoint ≠ ie.1.previous_outpoint := fun heq =>
          hnodup.1 (List.mem_map.mpr ⟨ie', hie', heq⟩)
        rw [hview₁, if_neg hne]
        exact hread ie' (List.mem_cons_of_mem ie hie')
      obtain ⟨d', hrest, happ', hview'⟩ := remove_entries_spend rest d₁ happ₁ hnodup.2 hread₁
      refine ⟨d', ?_, happ', ?_⟩
      · rw [List.foldlM_cons, h₁]
        exact hrest
      · rw [hview', hupdate, List.map_cons, List.foldl_cons]

/-- **THE CREATIONS**: adding entries at distinct outpoints that neither the base
    nor the composed view holds succeeds, keeps the diff applicable, and inserts the
    entries into the view. -/
theorem add_entries_create {base : UtxoView} :
    ∀ (creates : List (TransactionOutpoint × UtxoEntry)) (d : UtxoDiff),
      d.ApplicableTo base → (creates.map Prod.fst).Nodup →
      (∀ oe ∈ creates, base oe.1 = none ∧ compose base d oe.1 = none) →
      ∃ d', creates.foldlM (fun d oe => add_entry d oe.1 oe.2) d = .ok d' ∧
        d'.ApplicableTo base ∧
        compose base d' = creates.foldl
          (fun (v : UtxoView) oe => Function.update v oe.1 (some oe.2)) (compose base d)
  | [], d, happ, _, _ => ⟨d, rfl, happ, rfl⟩
  | oe :: rest, d, happ, hnodup, hfresh => by
      rw [List.map_cons, List.nodup_cons] at hnodup
      obtain ⟨hbase, hview⟩ := hfresh oe List.mem_cons_self
      obtain ⟨d₁, h₁⟩ := add_entry_ok oe.2 hview
      obtain ⟨-, happ₁, hview₁⟩ := add_entry_creates happ hbase h₁
      have hupdate : compose base d₁ = Function.update (compose base d) oe.1 (some oe.2) := by
        funext o
        rw [hview₁, Function.update_apply]
      -- the later outpoints are still new to the view
      have hfresh₁ : ∀ oe' ∈ rest, base oe'.1 = none ∧ compose base d₁ oe'.1 = none := by
        intro oe' hoe'
        have hne : oe'.1 ≠ oe.1 := fun heq => hnodup.1 (List.mem_map.mpr ⟨oe', hoe', heq⟩)
        obtain ⟨hb, hv⟩ := hfresh oe' (List.mem_cons_of_mem oe hoe')
        rw [hview₁, if_neg hne]
        exact ⟨hb, hv⟩
      obtain ⟨d', hrest, happ', hview'⟩ := add_entries_create rest d₁ happ₁ hnodup.2 hfresh₁
      refine ⟨d', ?_, happ', ?_⟩
      · rw [List.foldlM_cons, h₁]
        exact hrest
      · rw [hview', hupdate, List.foldl_cons]

/-- **ONE CALL**: an admissible call succeeds, keeps the diff applicable, and leaves
    the composed view the ledger's reading of the transaction. -/
theorem add_transaction_applies {base : UtxoView} {self : UtxoDiff}
    {transaction : PopulatedTransaction} (block_daa_score : UInt64)
    (happ : self.ApplicableTo base) (hadm : CallAdmissible base (compose base self) transaction) :
    ∃ d, add_transaction self transaction block_daa_score = .ok d ∧ d.ApplicableTo base ∧
      compose base d = apply_transaction (compose base self) transaction.tx block_daa_score := by
  have hspent := hadm.spent_nodup
  rw [← populated_inputs_outpoints] at hspent
  obtain ⟨d₁, h₁, happ₁, hview₁⟩ :=
    remove_entries_spend transaction.populated_inputs self happ hspent hadm.reads
  rw [populated_inputs_outpoints] at hview₁
  -- the outputs are not spent by the transaction: the view reads them as nothing
  have hfresh : ∀ oe ∈ output_entries transaction.tx block_daa_score,
      base oe.1 = none ∧ compose base d₁ oe.1 = none := by
    intro oe hoe
    have hcreated : oe.1 ∈ created_outpoints transaction.tx := by
      rw [← output_entries_outpoints transaction.tx block_daa_score]
      exact List.mem_map_of_mem hoe
    obtain ⟨hb, hv⟩ := hadm.fresh oe.1 hcreated
    refine ⟨hb, ?_⟩
    rw [hview₁, foldl_update_none_apply]
    split_ifs
    · rfl
    · exact hv
  have hcreated := hadm.created_nodup
  rw [← output_entries_outpoints transaction.tx block_daa_score] at hcreated
  obtain ⟨d, h₂, happ', hview'⟩ := add_entries_create _ d₁ happ₁ hcreated hfresh
  refine ⟨d, ?_, happ', ?_⟩
  · unfold add_transaction
    rw [h₁]
    exact h₂
  · rw [hview', hview₁]
    rfl

/-! ## A run -/

/-- **A RUN**: a run of admissible calls succeeds, keeps the diff applicable, and
    leaves the composed view the ledger's reading of the run. -/
theorem add_transactions_applies {base : UtxoView} :
    ∀ (calls : List (PopulatedTransaction × UInt64)) (d : UtxoDiff), d.ApplicableTo base →
      RunAdmissible base (compose base d) calls →
      ∃ d', add_transactions d calls = .ok d' ∧ d'.ApplicableTo base ∧
        compose base d' = apply_transactions (compose base d) calls
  | [], d, happ, _ => ⟨d, rfl, happ, rfl⟩
  | c :: cs, d, happ, ⟨hadm, hrest⟩ => by
      obtain ⟨d₁, h₁, happ₁, hview₁⟩ := add_transaction_applies c.2 happ hadm
      rw [← hview₁] at hrest
      obtain ⟨d', h', happ', hview'⟩ := add_transactions_applies cs d₁ happ₁ hrest
      refine ⟨d', ?_, happ', ?_⟩
      · unfold add_transactions
        rw [List.foldlM_cons, h₁]
        exact h'
      · rw [hview', hview₁]
        rfl

/-! ## Failed calls -/

/-- `remove_entry` fails only on a second removal of its outpoint. -/
theorem remove_entry_error {self : UtxoDiff} {outpoint : TransactionOutpoint} {entry : UtxoEntry}
    {e : UtxoAlgebraError} (h : remove_entry self outpoint entry = .error e) :
    e = .DoubleRemoveCall outpoint := by
  unfold remove_entry at h
  -- the two successful branches are discharged by the split itself
  split_ifs at h
  cases h
  rfl

/-- `add_entry` fails only on a second addition at its outpoint. -/
theorem add_entry_error {self : UtxoDiff} {outpoint : TransactionOutpoint} {entry : UtxoEntry}
    {e : UtxoAlgebraError} (h : add_entry self outpoint entry = .error e) :
    e = .DoubleAddCall outpoint := by
  unfold add_entry at h
  -- the two successful branches are discharged by the split itself
  split_ifs at h
  cases h
  rfl

/-- A failed call names an outpoint the transaction spends or creates. -/
theorem add_transaction_error {self : UtxoDiff} {transaction : PopulatedTransaction}
    {block_daa_score : UInt64} {e : UtxoAlgebraError}
    (h : add_transaction self transaction block_daa_score = .error e) :
    (∃ o ∈ spent_outpoints transaction.tx, e = .DoubleRemoveCall o) ∨
      (∃ o ∈ created_outpoints transaction.tx, e = .DoubleAddCall o) := by
  unfold add_transaction at h
  rcases (bind_eq_error _ _ _).mp h with h₁ | ⟨d₁, -, h₂⟩
  · -- a spend failed
    obtain ⟨ie, hie, d, hstep⟩ := foldlM_eq_error _ _ _ _ h₁
    refine Or.inl ⟨ie.1.previous_outpoint, ?_, remove_entry_error hstep⟩
    rw [← populated_inputs_outpoints]
    exact List.mem_map_of_mem hie
  · -- a creation failed
    obtain ⟨oe, hoe, d, hstep⟩ := foldlM_eq_error _ _ _ _ h₂
    refine Or.inr ⟨oe.1, ?_, add_entry_error hstep⟩
    rw [← output_entries_outpoints transaction.tx block_daa_score]
    exact List.mem_map_of_mem hoe

/-- A call whose inputs read the composed view and whose outputs are new to the
    base fails only on a repeated input, a repeated output outpoint, or an output
    outpoint the view already holds. -/
theorem add_transaction_error_repeats {base : UtxoView} {self : UtxoDiff}
    {transaction : PopulatedTransaction} {block_daa_score : UInt64} {e : UtxoAlgebraError}
    (happ : self.ApplicableTo base)
    (hreads : ∀ ie ∈ transaction.populated_inputs,
      compose base self ie.1.previous_outpoint = some ie.2)
    (hbase : ∀ o ∈ created_outpoints transaction.tx, base o = none)
    (h : add_transaction self transaction block_daa_score = .error e) :
    ¬ (spent_outpoints transaction.tx).Nodup ∨ ¬ (created_outpoints transaction.tx).Nodup ∨
      ∃ o ∈ created_outpoints transaction.tx, compose base self o ≠ none := by
  by_contra hall
  push Not at hall
  obtain ⟨hspent, hcreated, hnew⟩ := hall
  obtain ⟨d, hok, -⟩ := add_transaction_applies block_daa_score happ
    ⟨hreads, hspent, hcreated, fun o ho => ⟨hbase o ho, hnew o ho⟩⟩
  rw [hok] at h
  cases h

/-- On a diff applicable to its base, a run of admissible calls succeeds and the
    composed view then reads what the ledger reads after the run; and a call whose
    inputs read the composed view and whose outputs are new to the base fails only
    with `DoubleRemoveCall` of an outpoint it spends or `DoubleAddCall` of one it
    creates, when an input is repeated or an output outpoint is created twice. -/
theorem add_transactions_compose_ledger {base : UtxoView} {d : UtxoDiff}
    (happ : d.ApplicableTo base) :
    (∀ calls, RunAdmissible base (compose base d) calls →
      ∃ d', add_transactions d calls = .ok d' ∧ d'.ApplicableTo base ∧
        ∀ o, compose base d' o = apply_transactions (compose base d) calls o) ∧
    (∀ (transaction : PopulatedTransaction) (block_daa_score : UInt64) (e : UtxoAlgebraError),
      (∀ ie ∈ transaction.populated_inputs,
        compose base d ie.1.previous_outpoint = some ie.2) →
      (∀ o ∈ created_outpoints transaction.tx, base o = none) →
      add_transaction d transaction block_daa_score = .error e →
      ((∃ o ∈ spent_outpoints transaction.tx, e = .DoubleRemoveCall o) ∨
        (∃ o ∈ created_outpoints transaction.tx, e = .DoubleAddCall o)) ∧
      (¬ (spent_outpoints transaction.tx).Nodup ∨ ¬ (created_outpoints transaction.tx).Nodup ∨
        ∃ o ∈ created_outpoints transaction.tx, compose base d o ≠ none)) := by
  refine ⟨fun calls hrun => ?_, fun _ _ _ hreads hbase h =>
    ⟨add_transaction_error h, add_transaction_error_repeats happ hreads hbase h⟩⟩
  obtain ⟨d', hok, happ', hview⟩ := add_transactions_applies calls d happ hrun
  exact ⟨d', hok, happ', fun o => congrFun hview o⟩

/-! ## A run that spends what it creates -/

/-- The id of `pass_o0`. -/
def pass_id : TransactionId := ⟨List.replicate 32 1, replicate_32_length 1⟩

theorem pass_o0_entries_length : [tx_a].length = [(⟨o0, [], 0, 0⟩ : TransactionInput)].length :=
  rfl

/-- A transaction spending `o0` and creating one output of five sompi under `pass_id`. -/
def pass_o0 : PopulatedTransaction :=
  ⟨⟨0, [⟨o0, [], 0, 0⟩], [⟨5, ⟨0, []⟩, .KSH⟩], .TransferKSH, 0, SUBNETWORK_ID_NATIVE, 0, [],
    0, pass_id⟩, [tx_a], pass_o0_entries_length⟩

/-- A transaction spending the output `pass_o0` creates, populated with its entry. -/
def spend_pass : PopulatedTransaction :=
  ⟨⟨0, [⟨⟨pass_id, 0⟩, [], 0, 0⟩], [], .TransferKSH, 0, SUBNETWORK_ID_NATIVE, 0, [], 0,
    ZERO_HASH⟩, [⟨5, ⟨0, []⟩, 0, false, .KSH⟩], rfl⟩

/-- `pass_o0`, then the spend of its output, both at DAA score 0. -/
def pass_calls : List (PopulatedTransaction × UInt64) := [(pass_o0, 0), (spend_pass, 0)]

/-- A run whose second call spends the output its first call creates is admissible
    on `base_a`, and the composed view then agrees with the ledger. -/
theorem add_transactions_compose_ledger_spend :
    ∃ d', add_transactions UtxoDiff.empty pass_calls = .ok d' ∧ d'.ApplicableTo base_a ∧
      ∀ o, compose base_a d' o = apply_transactions (compose base_a UtxoDiff.empty) pass_calls o :=
  (add_transactions_compose_ledger (empty_applicableTo base_a)).1 _
    ⟨⟨by decide, by decide, by decide, by decide⟩,
      ⟨by decide, by decide, by decide, by decide⟩, trivial⟩

/-! ## A spent outpoint created again -/

/-- The spend, then the re-creation, both at DAA score 0. -/
def recreate_calls : List (PopulatedTransaction × UInt64) := [(spend_o0, 0), (recreate_o0, 0)]

/-- Both calls read the view they are made on and succeed, but the re-creation at
    the spent entry's DAA score cancels the removal: the composed view reads the
    base's `tx_a` where the ledger reads `tx_c`. -/
theorem add_transactions_reads_old_entry :
    (∀ ie ∈ spend_o0.populated_inputs,
      compose base_a UtxoDiff.empty ie.1.previous_outpoint = some ie.2) ∧
    recreate_o0.populated_inputs = [] ∧
    ∃ d, add_transactions UtxoDiff.empty recreate_calls = .ok d ∧
      compose base_a d o0 = some tx_a ∧
      apply_transactions (compose base_a UtxoDiff.empty) recreate_calls o0 = some tx_c ∧
      tx_a ≠ tx_c :=
  ⟨by decide, rfl, _, rfl, by decide, by decide, by decide⟩

end KashUtxoDiff
