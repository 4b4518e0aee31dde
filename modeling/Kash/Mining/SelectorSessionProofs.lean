import Kash.Mining.SelectorProofs
import Mathlib

/-! # A block template session keeps the selector's books

    `build_block_template` drives one `TransactionsSelector` through a session:
    it calls `select_transactions`, validates the batch that comes back, calls
    `reject_selection` on each invalid transaction of that batch, and selects
    again while there were rejections. The selector is built from mempool
    transactions, which passed `check_gas` (no gas) and have distinct ids.

    Over every such session (`Session`) the selector keeps its books (`Books`):
    a candidate is marked exactly when its transaction was handed out, so
    `used_count` counts the marks and no transaction is handed out twice;
    `total_mass` and `total_fees` are the sums over the transactions handed out
    and not rejected; and the candidate list tiles its weight. Without gas the
    gas branch never marks a run, so the loop's condition never subtracts below
    zero: a selection fails only where the model's fuel runs out or the fees
    overflow, and the rejection of a transaction of the latest batch succeeds
    (`template_session_keeps_books`). -/

namespace KashSelector

open KashTx Tiling ExceptLoops AListLoops

/-- The faults other than the model's fuel and fees past `u64::MAX`. -/
def Faulty (e : SelectorFault) : Prop := e ≠ .out_of_fuel ∧ e ≠ .add_with_overflow

/-- The state an iteration of the selection loop continues or stops with. -/
def Flow.state {α : Type} : Flow α → α
  | .next a => a
  | .stop a => a

/-- The candidates whose transactions the selection holds, in its order. -/
def selected_candidates {P : Type} (s : TransactionsSelector P) : List CandidateTransaction :=
  s.selected_txs.filterMap fun i => s.transactions[i]?

/-- The sum of `f` over the transactions of `used` that are not in `rejected`. -/
def kept_sum (f : CandidateTransaction → ℕ) (used rejected : List CandidateTransaction) : ℕ :=
  ((used.filter fun t => t ∉ rejected).map f).sum

/-! ## Sums over the kept transactions -/

section KeptSum

variable (f : CandidateTransaction → ℕ) {used used' rejected : List CandidateTransaction}
  {t : CandidateTransaction}

/-- Handing out a transaction not rejected adds its term. -/
theorem kept_sum_append (ht : t ∉ rejected) :
    kept_sum f (used ++ [t]) rejected = kept_sum f used rejected + f t := by
  simp [kept_sum, List.filter_append, ht]

/-- Rejecting a kept transaction takes its term away. -/
theorem kept_sum_reject (hnodup : used.Nodup) (hmem : t ∈ used) (ht : t ∉ rejected) :
    kept_sum f used rejected = kept_sum f used (rejected ++ [t]) + f t := by
  -- the kept ones are the ones kept after the rejection, and `t`
  have hperm : (used.filter fun u => u ∉ rejected).Perm
      (t :: used.filter fun u => u ∉ rejected ++ [t]) := by
    refine (List.perm_ext_iff_of_nodup (hnodup.filter _) (List.Nodup.cons ?_ (hnodup.filter _))).mpr
      fun u => ?_
    · simp
    · by_cases hut : u = t
      · subst hut
        simp [hmem, ht]
      · simp [hut]
  unfold kept_sum
  rw [(hperm.map f).sum_eq, List.map_cons, List.sum_cons, Nat.add_comm]

/-- A `u64` total kept as the sum over the kept transactions holds a kept
    transaction's term, and less that term it is the sum once the transaction is
    rejected. -/
theorem toNat_sub_kept_sum (g : CandidateTransaction → UInt64) {total : UInt64}
    (htotal : total.toNat = kept_sum (fun t => (g t).toNat) used rejected)
    (hnodup : used.Nodup) (hmem : t ∈ used) (ht : t ∉ rejected) :
    g t ≤ total ∧ (total - g t).toNat = kept_sum (fun t => (g t).toNat) used (rejected ++ [t]) := by
  have hsum := kept_sum_reject (fun t => (g t).toNat) hnodup hmem ht
  have hle : g t ≤ total := UInt64.le_iff_toNat_le.mpr (by omega)
  refine ⟨hle, ?_⟩
  rw [UInt64.toNat_sub_of_le _ _ hle]
  omega

/-- The order of the transactions handed out does not matter. -/
theorem kept_sum_perm (h : used.Perm used') : kept_sum f used rejected = kept_sum f used' rejected :=
  ((h.filter _).map f).sum_eq

end KeptSum

/-- The transaction index a candidate holds, and its mark. -/
def Candidate.slot {P : Type} (c : Candidate P) : ℕ × Bool := (c.index, c.is_marked_for_deletion)

/-- Entries of a list without duplicates sit at one index each. -/
theorem index_eq_of_getElem? {α : Type} {l : List α} (hl : l.Nodup) {i j : ℕ} {a : α}
    (hi : l[i]? = some a) (hj : l[j]? = some a) : i = j := by
  obtain ⟨hi, rfl⟩ := List.getElem?_eq_some_iff.mp hi
  obtain ⟨hj, hij⟩ := List.getElem?_eq_some_iff.mp hj
  exact (hl.getElem_inj_iff).mp hij.symm

/-- `checked_add` returns the sum when it fits. -/
theorem checked_add_eq_some {a b m : UInt64} (h : checked_add a b = some m) :
    m = a + b ∧ m.toNat = a.toNat + b.toNat := by
  unfold checked_add at h
  split at h
  · rename_i hfit
    cases h
    refine ⟨rfl, ?_⟩
    rw [UInt64.toNat_add]
    exact Nat.mod_eq_of_lt hfit
  · cases h

section

variable {P : Type}

/-- A candidate of a list `rebalanced` laid down is unmarked, and holds the
    index of an unmarked candidate of the old list. -/
theorem CandidateList.mem_of_slots {old list : CandidateList P}
    (hslots : list.candidates.map Candidate.slot =
      (old.candidates.filter fun x => !x.is_marked_for_deletion).map fun x => (x.index, false))
    {c : Candidate P} (hc : c ∈ list.candidates) :
    c.is_marked_for_deletion = false ∧
      ∃ x ∈ old.candidates, x.is_marked_for_deletion = false ∧ x.index = c.index := by
  have hslot := List.mem_map_of_mem (f := Candidate.slot) hc
  rw [hslots] at hslot
  obtain ⟨x, hx, hxc⟩ := List.mem_map.mp hslot
  simp only [Candidate.slot, Prod.mk.injEq] at hxc
  obtain ⟨hx, hunmarked⟩ := List.mem_filter.mp hx
  exact ⟨hxc.2.symm, x, hx, by simpa using hunmarked, hxc.1⟩

/-- The indices `rebalanced` keeps are those of the unmarked candidates. -/
theorem CandidateList.indices_of_slots {old list : CandidateList P}
    (hslots : list.candidates.map Candidate.slot =
      (old.candidates.filter fun x => !x.is_marked_for_deletion).map fun x => (x.index, false)) :
    list.candidates.map (·.index) =
      (old.candidates.filter fun x => !x.is_marked_for_deletion).map (·.index) := by
  have h := congrArg (List.map Prod.fst) hslots
  simpa [Function.comp_def, Candidate.slot] using h

/-- Marking a candidate keeps every candidate's index. -/
theorem map_index_set_marked {cs : List (Candidate P)} {i : ℕ} (hi : i < cs.length) :
    (cs.set i { cs[i] with is_marked_for_deletion := true }).map (·.index) = cs.map (·.index) := by
  have hi' : i < (cs.map (·.index)).length := by
    rw [List.length_map]
    exact hi
  have hget : (cs.map (·.index))[i] = cs[i].index := List.getElem_map _
  rw [List.map_set, ← hget]
  exact List.set_getElem_self hi'

/-! ## What a selection returns -/

/-- The loop of `get_transactions` over indices of the store returns the
    transactions at them. -/
theorem mapM_transactions_eq (T : List CandidateTransaction) :
    ∀ l : List ℕ, (∀ i ∈ l, i < T.length) →
      l.mapM (fun x => do
          let transaction ← vec_index T x
          pure transaction.tx) = .ok ((l.filterMap fun i => T[i]?).map (·.tx))
  | [], _ => rfl
  | i :: l, h => by
      have hi := h i List.mem_cons_self
      rw [List.mapM_cons, vec_index_of_lt hi, ok_bind, pure_bind,
        mapM_transactions_eq T l fun j hj => h j (List.mem_cons_of_mem i hj), ok_bind]
      simp [List.getElem?_eq_getElem hi]
      rfl

/-- `get_transactions` returns the transactions of the selected candidates. -/
theorem get_transactions_eq {s : TransactionsSelector P}
    (h : ∀ i ∈ s.selected_txs, i < s.transactions.length) :
    s.get_transactions = .ok ((selected_candidates s).map (·.tx)) :=
  mapM_transactions_eq s.transactions s.selected_txs h

end

section

variable {P : Type} [Field P]

/-! ## The selector `new` builds -/

/-- Laying weights end to end gives one unmarked candidate per element, in order. -/
theorem foldl_push_candidate_slots {β : Type} (index : β → ℕ) (weight : β → P) :
    ∀ (l : List β) (acc : List (Candidate P) × P),
      (l.foldl (fun acc x => push_candidate acc (index x) (weight x)) acc).1.map Candidate.slot =
        acc.1.map Candidate.slot ++ l.map fun x => (index x, false)
  | [], acc => by simp
  | x :: l, acc => by
      rw [List.foldl_cons, foldl_push_candidate_slots index weight l]
      simp [push_candidate, Candidate.new, Candidate.slot]

/-- `CandidateList::new` holds one unmarked candidate per transaction, in order. -/
theorem CandidateList.new_slots (selectable_txs : List (SelectableTransaction P)) :
    (CandidateList.new selectable_txs).candidates.map Candidate.slot =
      (List.range selectable_txs.length).map fun i => (i, false) := by
  have h := foldl_push_candidate_slots Prod.snd (fun x : SelectableTransaction P × ℕ => x.1.p)
    selectable_txs.zipIdx ([], 0)
  have hrange : (selectable_txs.zipIdx.map fun x => (x.2, false)) =
      (List.range selectable_txs.length).map fun i => (i, false) := by
    rw [List.range_eq_range', ← List.zipIdx_map_snd 0, List.map_map]
    rfl
  rw [List.map_nil, List.nil_append, hrange] at h
  exact h

/-! ## Rebalancing -/

/-- `rebalanced` succeeds on a list whose candidates hold indices of the
    weights, and lays down one unmarked candidate for each unmarked one, in
    order. -/
theorem CandidateList.rebalanced_slots (self : CandidateList P)
    (selectable_txs : List (SelectableTransaction P))
    (hlt : ∀ c ∈ self.candidates, c.index < selectable_txs.length) :
    ∃ list, self.rebalanced selectable_txs = .ok list ∧
      list.candidates.map Candidate.slot =
        (self.candidates.filter fun x => !x.is_marked_for_deletion).map fun x => (x.index, false) := by
  -- the loop over the unmarked candidates, from any accumulator
  have hloop : ∀ (l : List (Candidate P)) (acc : List (Candidate P) × P),
      (∀ x ∈ l, x.index < selectable_txs.length) →
      ∃ r, l.foldlM (fun acc x => do
          let tx ← vec_index selectable_txs x.index
          pure (push_candidate acc x.index tx.p)) acc = .ok r ∧
        r.1.map Candidate.slot = acc.1.map Candidate.slot ++ l.map fun x => (x.index, false) := by
    intro l
    induction l with
    | nil => exact fun acc _ => ⟨acc, rfl, by simp⟩
    | cons x l ih =>
        intro acc hl
        have hx := hl x List.mem_cons_self
        obtain ⟨r, hr, hslots⟩ := ih (push_candidate acc x.index selectable_txs[x.index].p)
          fun y hy => hl y (List.mem_cons_of_mem x hy)
        refine ⟨r, ?_, ?_⟩
        · rw [List.foldlM_cons, vec_index_of_lt hx]
          exact hr
        · rw [hslots]
          simp [push_candidate, Candidate.new, Candidate.slot]
  obtain ⟨r, hr, hslots⟩ := hloop _ ([], 0) fun x hx => hlt x (List.mem_of_mem_filter hx)
  refine ⟨⟨r.1, r.2⟩, ?_, ?_⟩
  · unfold rebalanced
    rw [hr]
    rfl
  · simpa using hslots

/-! ## The gas check -/

/-- A transaction without gas, in a subnetwork whose usage is zero or unset, is
    charged nothing: it stays within the limit of zero, and its subnetwork's usage
    is set to zero. -/
theorem charge_gas_gasless (s : TransactionsSelector P) (i : ℕ) (c : Candidate P)
    (tx : CandidateTransaction) (hgas : tx.tx.gas = 0)
    (hzero : ∀ v, s.gas_usage_map.get tx.tx.subnetwork_id = some v → v = 0)
    (hidx : c.index < s.selectable_txs.length) :
    s.charge_gas i c tx = .ok (.stop { s with gas_usage_map :=
      (s.gas_usage_map.insert tx.tx.subnetwork_id 0).insert tx.tx.subnetwork_id 0 }) := by
  have husage : (s.gas_usage_map.get tx.tx.subnetwork_id).getD 0 = 0 := by
    cases hget : s.gas_usage_map.get tx.tx.subnetwork_id with
    | none => rfl
    | some v => exact hzero v hget
  have hadd : checked_add 0 tx.tx.gas = some 0 := by
    rw [hgas]
    decide
  unfold TransactionsSelector.charge_gas
  simp only [husage, hadd, vec_index_of_lt hidx, UInt64.not_lt_zero]
  rfl

end

section

variable {P : Type} [Field P] [LinearOrder P]

/-! ## The books -/

/-- What the selector's state says of the transactions it handed out (`used`)
    and of those rejected since: the store's transactions have no gas and
    distinct ids, the candidate list tiles its weight, a candidate is marked
    exactly when its transaction was handed out, one that left the list was
    handed out, and the totals are the sums over the transactions handed out and
    not rejected. -/
structure Books (s : TransactionsSelector P) (used rejected : List CandidateTransaction) : Prop where
  lengths : s.selectable_txs.length = s.transactions.length
  weights : ∀ x ∈ s.selectable_txs, 0 ≤ x.p
  gasless : ∀ t ∈ s.transactions, t.tx.gas = 0
  distinct : (s.transactions.map fun t => t.tx.id).Nodup
  tiled : s.candidate_list.Tiled
  index_lt : ∀ c ∈ s.candidate_list.candidates, c.index < s.transactions.length
  index_nodup : (s.candidate_list.candidates.map (·.index)).Nodup
  used_count : s.used_count = s.candidate_list.candidates.countP (·.is_marked_for_deletion)
  marked_iff : ∀ c ∈ s.candidate_list.candidates, ∀ t, s.transactions[c.index]? = some t →
    (c.is_marked_for_deletion = true ↔ t ∈ used)
  removed : ∀ i t, s.transactions[i]? = some t → i ∉ s.candidate_list.candidates.map (·.index) →
    t ∈ used
  used_nodup : used.Nodup
  used_sub : ∀ t ∈ used, t ∈ s.transactions
  rejected_sub : ∀ t ∈ rejected, t ∈ used
  total_mass : s.total_mass.toNat = kept_sum (fun t => t.calculated_mass.toNat) used rejected
  mass_le : s.total_mass ≤ s.policy.max_block_mass
  total_fees : s.total_fees.toNat = kept_sum (fun t => t.calculated_fee.toNat) used rejected
  gas_zero : ∀ sid v, s.gas_usage_map.get sid = some v → v = 0
  gas_entry : ∀ t ∈ used, t.tx.subnetwork_id.is_builtin_or_native = false →
    s.gas_usage_map.get t.tx.subnetwork_id ≠ none

namespace Books

variable {s : TransactionsSelector P} {used rejected : List CandidateTransaction}

theorem nodup (h : Books s used rejected) : s.transactions.Nodup :=
  List.Nodup.of_map _ h.distinct

/-- Two transactions of the store with one id are one. -/
theorem eq_of_id (h : Books s used rejected) {t₁ t₂ : CandidateTransaction}
    (h₁ : t₁ ∈ s.transactions) (h₂ : t₂ ∈ s.transactions) (hid : t₁.tx.id = t₂.tx.id) : t₁ = t₂ :=
  List.inj_on_of_nodup_map h.distinct h₁ h₂ hid

/-- The marks counted in `used_count` are at most the candidates. -/
theorem used_count_le (h : Books s used rejected) :
    s.used_count ≤ s.candidate_list.candidates.length := by
  rw [h.used_count]
  exact List.countP_le_length

/-- An unmarked candidate's transaction was not handed out. -/
theorem not_used_of_unmarked (h : Books s used rejected) {c : Candidate P}
    (hc : c ∈ s.candidate_list.candidates) (hunmarked : c.is_marked_for_deletion = false)
    {t : CandidateTransaction} (ht : s.transactions[c.index]? = some t) : t ∉ used := by
  intro hused
  have := (h.marked_iff c hc t ht).mpr hused
  rw [hunmarked] at this
  cases this

/-- The books do not read the selection, its map, the rejection count or `used_p`. -/
theorem with_selection (h : Books s used rejected) (selected_txs : List ℕ)
    (selected_txs_map : Option (Map TransactionId ℕ)) :
    Books { s with selected_txs, selected_txs_map } used rejected :=
  { h with }

/-- Only the set of transactions handed out matters. -/
theorem perm (h : Books s used rejected) {used' : List CandidateTransaction} (hp : used.Perm used') :
    Books s used' rejected where
  __ := h
  marked_iff c hc t ht := (h.marked_iff c hc t ht).trans hp.mem_iff
  removed i t ht hi := hp.mem_iff.mp (h.removed i t ht hi)
  used_nodup := hp.nodup_iff.mp h.used_nodup
  used_sub t ht := h.used_sub t (hp.mem_iff.mpr ht)
  rejected_sub t ht := hp.mem_iff.mp (h.rejected_sub t ht)
  total_mass := h.total_mass.trans (kept_sum_perm _ hp)
  total_fees := h.total_fees.trans (kept_sum_perm _ hp)
  gas_entry t ht := h.gas_entry t (hp.mem_iff.mpr ht)

end Books

/-- A selector fresh from `new`, over mempool transactions, keeps its books with
    nothing handed out. -/
theorem Books.new [IsStrictOrderedRing P] (policy : Policy) {transactions : List CandidateTransaction}
    (hgas : ∀ t ∈ transactions, t.tx.gas = 0) (hids : (transactions.map fun t => t.tx.id).Nodup) :
    Books (TransactionsSelector.new policy transactions : TransactionsSelector P) [] [] := by
  set s := (TransactionsSelector.new policy transactions : TransactionsSelector P) with hs
  have hperm : s.transactions.Perm transactions := List.perm_insertionSort _ _
  have hlen : s.selectable_txs.length = s.transactions.length := List.length_map _
  have hcl : s.candidate_list = CandidateList.new s.selectable_txs := rfl
  have hslots := CandidateList.new_slots s.selectable_txs
  rw [← hcl] at hslots
  -- every candidate of the fresh list is unmarked and holds an index of the store
  have hcand : ∀ c ∈ s.candidate_list.candidates,
      c.is_marked_for_deletion = false ∧ c.index < s.transactions.length := by
    intro c hc
    have hslot := List.mem_map_of_mem (f := Candidate.slot) hc
    rw [hslots] at hslot
    obtain ⟨i, hi, hci⟩ := List.mem_map.mp hslot
    simp only [Candidate.slot, Prod.mk.injEq] at hci
    exact ⟨hci.2.symm, hci.1 ▸ hlen ▸ List.mem_range.mp hi⟩
  have hindices : s.candidate_list.candidates.map (·.index) = List.range s.transactions.length := by
    have h := congrArg (List.map Prod.fst) hslots
    rw [← hlen]
    simpa [Function.comp_def, Candidate.slot] using h
  exact {
    lengths := hlen
    weights := selectable_txs_nonneg policy transactions
    gasless := fun t ht => hgas t (hperm.mem_iff.mp ht)
    distinct := ((hperm.map _).nodup_iff).mpr hids
    tiled := CandidateList.new_tiled (selectable_txs_nonneg policy transactions)
    index_lt := fun c hc => (hcand c hc).2
    index_nodup := hindices ▸ List.nodup_range
    used_count := by
      refine (List.countP_eq_zero.mpr fun c hc => ?_).symm
      rw [(hcand c hc).1]
      exact Bool.false_ne_true
    marked_iff := fun c hc t _ => by simp [(hcand c hc).1]
    removed := fun i t ht hi => by
      rw [hindices, List.mem_range] at hi
      exact absurd (List.getElem?_eq_some_iff.mp ht).1 hi
    used_nodup := List.nodup_nil
    used_sub := fun _ ht => nomatch ht
    rejected_sub := fun _ ht => nomatch ht
    total_mass := rfl
    mass_le := UInt64.zero_le
    total_fees := rfl
    gas_zero := fun sid v hv => nomatch hv
    gas_entry := fun _ ht => nomatch ht }

/-! ## The books during a selection -/

/-- The books in the middle of a selection: what was handed out is what earlier
    batches returned and what this one has selected so far. -/
structure Selecting (returned rejected : List CandidateTransaction) (s : TransactionsSelector P) :
    Prop where
  books : Books s (returned ++ selected_candidates s) rejected
  selected_lt : ∀ i ∈ s.selected_txs, i < s.transactions.length
  map_none : s.selected_txs_map = none

namespace Selecting

variable {returned rejected : List CandidateTransaction} {s : TransactionsSelector P}

/-- `reset_selection` starts a selection from the books of a session. -/
theorem reset (h : Books s returned rejected) :
    s.reset_selection = .ok { s with selected_txs := [], selected_txs_map := none } ∧
      Selecting returned rejected { s with selected_txs := [], selected_txs_map := none } := by
  refine ⟨by rw [TransactionsSelector.reset_selection, if_pos h.lengths.symm], ?_, ?_, rfl⟩
  · have hb := h.with_selection [] none
    rwa [← List.append_nil returned] at hb
  · intro i hi
    cases hi

variable [IsStrictOrderedRing P]

/-- Rebalancing starts the marks afresh: the list keeps the unmarked candidates,
    whose transactions were not handed out, and drops the marked ones, whose
    were. -/
theorem rebalance (hs : Selecting returned rejected s) {list : CandidateList P}
    (h : s.candidate_list.rebalanced s.selectable_txs = .ok list)
    (hslots : list.candidates.map Candidate.slot =
      (s.candidate_list.candidates.filter fun x => !x.is_marked_for_deletion).map
        fun x => (x.index, false)) :
    Selecting returned rejected { s with candidate_list := list, used_count := 0, used_p := 0 } := by
  have hb := hs.books
  have hindices := CandidateList.indices_of_slots hslots
  refine ⟨{ hb with
    tiled := CandidateList.rebalanced_tiled hb.weights h
    index_lt := fun c hc => ?_
    index_nodup := ?_
    used_count := ?_
    marked_iff := fun c hc t ht => ?_
    removed := fun i t ht hi => ?_ }, hs.selected_lt, hs.map_none⟩
  · obtain ⟨-, x, hx, -, hxc⟩ := CandidateList.mem_of_slots hslots hc
    exact hxc ▸ hb.index_lt x hx
  · show (list.candidates.map (·.index)).Nodup
    rw [hindices]
    exact (List.filter_sublist.map _).nodup hb.index_nodup
  · show 0 = list.candidates.countP (·.is_marked_for_deletion)
    refine (List.countP_eq_zero.mpr fun c hc => ?_).symm
    rw [(CandidateList.mem_of_slots hslots hc).1]
    exact Bool.false_ne_true
  · obtain ⟨hunmarked, x, hx, hxunmarked, hxc⟩ := CandidateList.mem_of_slots hslots hc
    rw [← hxc] at ht
    simp only [hunmarked, Bool.false_eq_true, false_iff]
    exact hb.not_used_of_unmarked hx hxunmarked ht
  · -- a dropped index was either dropped before, or held by a marked candidate
    show t ∈ returned ++ selected_candidates s
    by_cases hold : i ∈ s.candidate_list.candidates.map (·.index)
    · obtain ⟨x, hx, rfl⟩ := List.mem_map.mp hold
      cases hmark : x.is_marked_for_deletion with
      | false =>
          refine absurd ?_ hi
          show x.index ∈ list.candidates.map (·.index)
          rw [hindices]
          exact List.mem_map_of_mem (List.mem_filter.mpr ⟨hx, by simp [hmark]⟩)
      | true => exact (hb.marked_iff x hx t ht).mp hmark
    · exact hb.removed i t ht hold

end Selecting

/-! ## One selected candidate -/

namespace Books

variable {s : TransactionsSelector P} {used rejected : List CandidateTransaction}

/-- Setting a subnetwork's usage to zero keeps the books. -/
theorem insert_gas (h : Books s used rejected) (sid : SubnetworkId) :
    Books { s with gas_usage_map := s.gas_usage_map.insert sid 0 } used rejected where
  __ := h
  gas_zero sid' v hv := by
    rw [get_insert] at hv
    split at hv
    · cases hv
      rfl
    · exact h.gas_zero sid' v hv
  gas_entry t ht hnative := by
    show Map.get (s.gas_usage_map.insert sid 0) t.tx.subnetwork_id ≠ none
    rw [get_insert]
    split
    · exact Option.some_ne_none 0
    · exact h.gas_entry t ht hnative

end Books

namespace Selecting

variable {returned rejected : List CandidateTransaction} {s : TransactionsSelector P}

theorem insert_gas (hs : Selecting returned rejected s) (sid : SubnetworkId) :
    Selecting returned rejected { s with gas_usage_map := s.gas_usage_map.insert sid 0 } :=
  ⟨hs.books.insert_gas sid, hs.selected_lt, hs.map_none⟩

/-- **SELECT**: taking an unmarked candidate whose transaction fits the block
    hands that transaction out once. It was not handed out before, since its
    candidate is unmarked; marking it adds one mark and one to `used_count`; the
    totals grow by its mass and fee. -/
theorem select (hs : Selecting returned rejected s) {i : ℕ} {c : Candidate P}
    (hci : s.candidate_list.candidates[i]? = some c) (hunmarked : c.is_marked_for_deletion = false)
    {tx : CandidateTransaction} (htx : s.transactions[c.index]? = some tx) {m f : UInt64}
    (hmass : checked_add s.total_mass tx.calculated_mass = some m)
    (hle : ¬ m > s.policy.max_block_mass)
    (hfees : checked_add s.total_fees tx.calculated_fee = some f)
    (hentry : tx.tx.subnetwork_id.is_builtin_or_native = false →
      s.gas_usage_map.get tx.tx.subnetwork_id ≠ none) :
    Holds Faulty (Selecting returned rejected) (({ s with
        selected_txs := s.selected_txs ++ [c.index]
        total_mass := s.total_mass + tx.calculated_mass
        total_fees := f } : TransactionsSelector P).mark_candidate i c.index) := by
  obtain ⟨hi, rfl⟩ := List.getElem?_eq_some_iff.mp hci
  have hb := hs.books
  set c := s.candidate_list.candidates[i] with hc_def
  have hc : c ∈ s.candidate_list.candidates := List.getElem_mem hi
  have hidx : c.index < s.selectable_txs.length := hb.lengths ▸ hb.index_lt c hc
  rw [TransactionsSelector.mark_candidate, vec_index_of_lt hi, vec_index_of_lt hidx]
  show Selecting returned rejected _
  -- the transaction is new to the books, so it is not rejected either
  have hfresh : tx ∉ returned ++ selected_candidates s := hb.not_used_of_unmarked hc hunmarked htx
  have hnotrej : tx ∉ rejected := fun hr => hfresh (hb.rejected_sub tx hr)
  obtain ⟨rfl, hm⟩ := checked_add_eq_some hmass
  obtain ⟨rfl, hf⟩ := checked_add_eq_some hfees
  -- the marked candidate keeps its index, so the indices are those of before
  have hindices : (s.candidate_list.candidates.set i { c with is_marked_for_deletion := true }).map (·.index) =
      s.candidate_list.candidates.map (·.index) := map_index_set_marked hi
  have hnodup' : ((s.candidate_list.candidates.set i { c with is_marked_for_deletion := true }).map (·.index)).Nodup := by
    rw [hindices]
    exact hb.index_nodup
  have hsel : selected_candidates { s with
      selected_txs := s.selected_txs ++ [c.index]
      total_mass := s.total_mass + tx.calculated_mass
      total_fees := s.total_fees + tx.calculated_fee } =
      selected_candidates s ++ [tx] := by
    simp [selected_candidates, List.filterMap_append, htx]
  refine ⟨?_, ?_, hs.map_none⟩
  · show Books _ (returned ++ selected_candidates { s with
      selected_txs := s.selected_txs ++ [c.index]
      total_mass := s.total_mass + tx.calculated_mass
      total_fees := s.total_fees + tx.calculated_fee }) rejected
    rw [hsel, ← List.append_assoc]
    exact { hb with
      tiled := Tiles.set hi rfl rfl hb.tiled
      index_lt := fun x hx => by
        rcases List.mem_or_eq_of_mem_set hx with hx | rfl
        · exact hb.index_lt x hx
        · exact hb.index_lt c hc
      index_nodup := hnodup'
      used_count := by
        show s.used_count + 1 = _
        rw [List.countP_set hi, hb.used_count, ← hc_def, hunmarked]
        simp
      marked_iff := fun x hx t ht => by
        by_cases hxi : x.index = c.index
        · -- the one candidate with this index is the one just marked
          have hxc : x = { c with is_marked_for_deletion := true } :=
            List.inj_on_of_nodup_map hnodup' hx (List.mem_set hi _) hxi
          subst hxc
          have htt : t = tx := Option.some_injective _ (ht.symm.trans htx)
          simp [htt]
        · have hx' : x ∈ s.candidate_list.candidates := by
            rcases List.mem_or_eq_of_mem_set hx with hx | rfl
            · exact hx
            · exact absurd rfl hxi
          have htne : t ≠ tx := by
            rintro rfl
            exact hxi (index_eq_of_getElem? hb.nodup ht htx)
          rw [hb.marked_iff x hx' t ht]
          simp [htne]
      removed := fun j t ht hj => by
        rw [show (s.candidate_list.candidates.set i { c with is_marked_for_deletion := true }).map
          (·.index) = s.candidate_list.candidates.map (·.index) from hindices] at hj
        exact List.mem_append_left _ (hb.removed j t ht hj)
      used_nodup := List.nodup_append.mpr ⟨hb.used_nodup, List.nodup_singleton tx, by
        rintro a ha b hb' rfl
        exact hfresh (List.mem_singleton.mp hb' ▸ ha)⟩
      used_sub := fun t ht => by
        rcases List.mem_append.mp ht with ht | ht
        · exact hb.used_sub t ht
        · rw [List.mem_singleton.mp ht]
          exact List.mem_of_getElem? htx
      rejected_sub := fun t ht => List.mem_append_left _ (hb.rejected_sub t ht)
      total_mass := by
        show (s.total_mass + tx.calculated_mass).toNat = _
        rw [hm, kept_sum_append _ hnotrej, hb.total_mass]
      mass_le := UInt64.not_lt.mp hle
      total_fees := by
        show (s.total_fees + tx.calculated_fee).toNat = _
        rw [hf, kept_sum_append _ hnotrej, hb.total_fees]
      gas_entry := fun t ht hnative => by
        rcases List.mem_append.mp ht with ht | ht
        · exact hb.gas_entry t ht hnative
        · rw [List.mem_singleton.mp ht] at hnative ⊢
          exact hentry hnative }
  · intro j hj
    rcases List.mem_append.mp hj with hj | hj
    · exact hs.selected_lt j hj
    · rw [List.mem_singleton.mp hj]
      exact hb.index_lt c hc

end Selecting

/-! ## The selection loop -/

section Loop

variable [IsStrictOrderedRing P] {returned rejected : List CandidateTransaction}

/-- The fault a selection's fee sum can meet is not one of the others. -/
theorem not_faulty_add_with_overflow : ¬ Faulty .add_with_overflow :=
  fun h => h.2 rfl

/-- **ONE DRAW**: on a nonempty list, a draw in `[0, 1)` picks a candidate; a
    marked one is a collision, a heavy one stops the selection, and any other is
    selected. The gas check passes, since nothing has gas; only the fee sum can
    fail. -/
theorem select_candidate_holds {s : TransactionsSelector P} (hs : Selecting returned rejected s)
    (hne : s.candidate_list.candidates ≠ []) {draw : P} (h0 : 0 ≤ draw) (h1 : draw < 1) :
    Holds Faulty (fun flow => Selecting returned rejected flow.state) (s.select_candidate draw) := by
  have hb := hs.books
  have htotal : 0 ≤ s.candidate_list.total_p := hb.tiled.le
  -- the draw falls in the span, so `find` returns a candidate holding it
  obtain ⟨i, hfind, hi, -⟩ := find_covers_of_tiles hb.tiled hne (mul_nonneg h0 htotal)
    (mul_le_of_le_one_left htotal h1.le)
  set c := s.candidate_list.candidates[i] with hc_def
  have hci : s.candidate_list.candidates[i]? = some c := List.getElem?_eq_getElem hi
  have hidx : c.index < s.transactions.length := hb.index_lt c (List.getElem_mem hi)
  set tx := s.transactions[c.index] with htx_def
  have htx : s.transactions[c.index]? = some tx := List.getElem?_eq_getElem hidx
  unfold TransactionsSelector.select_candidate
  extract_lets r
  rw [show s.candidate_list.find r = .ok i from hfind, ok_bind, vec_index_of_lt hi, ok_bind]
  split
  · exact hs
  · rename_i hunmarked
    rw [Bool.not_eq_true] at hunmarked
    rw [vec_index_of_lt hidx, ok_bind]
    split
    · exact hs
    · rename_i m hmass
      split
      · exact hs
      · rename_i hle
        extract_lets jp
        -- past the gas check, both branches take the transaction from the state they reach
        have tail : ∀ s₁ : TransactionsSelector P, Selecting returned rejected s₁ →
            s₁.candidate_list = s.candidate_list → s₁.transactions = s.transactions →
            s₁.total_mass = s.total_mass → s₁.policy = s.policy →
            (tx.tx.subnetwork_id.is_builtin_or_native = false →
              s₁.gas_usage_map.get tx.tx.subnetwork_id ≠ none) →
            Holds Faulty (fun flow => Selecting returned rejected flow.state) (jp s₁) := by
          intro s₁ hs₁ hcl htxs hmass₁ hpol hentry
          simp only [jp]
          split
          · rename_i f hfees
            have hci₁ : s₁.candidate_list.candidates[i]? = some c := by rw [hcl]; exact hci
            have htx₁ : s₁.transactions[c.index]? = some tx := by rw [htxs]; exact htx
            exact Holds.bind (hs₁.select hci₁ hunmarked htx₁ (hmass₁ ▸ hmass) (hpol ▸ hle) hfees
              hentry) fun s₂ hs₂ => hs₂
          · exact not_faulty_add_with_overflow
        split
        · rw [charge_gas_gasless s i c tx (hb.gasless tx (List.getElem_mem hidx)) (hb.gas_zero _)
            (hb.lengths ▸ hidx), ok_bind]
          dsimp only
          rw [pure_bind]
          exact tail _ ((hs.insert_gas _).insert_gas _) rfl rfl rfl rfl fun _ => by simp
        · rename_i hnative
          rw [pure_bind]
          exact tail s hs rfl rfl rfl rfl fun h => absurd h (by simpa using hnative)

/-- **ONE ITERATION**: after its condition held, an iteration rebalances or not,
    and then draws, keeping the books. -/
theorem select_iteration_holds {s : TransactionsSelector P} (hs : Selecting returned rejected s)
    (hpos : s.used_count < s.candidate_list.candidates.length) {draw : P} (h0 : 0 ≤ draw)
    (h1 : draw < 1) :
    Holds Faulty (fun flow => Selecting returned rejected flow.state) (s.select_iteration draw) := by
  unfold TransactionsSelector.select_iteration
  split
  · obtain ⟨list, hreb, hslots⟩ := CandidateList.rebalanced_slots s.candidate_list s.selectable_txs
      fun c hc => hs.books.lengths ▸ hs.books.index_lt c hc
    rw [hreb, ok_bind]
    have hs₁ := hs.rebalance hreb hslots
    dsimp only
    split
    · exact hs₁
    · rename_i hne
      refine select_candidate_holds hs₁ ?_ h0 h1
      simpa [CandidateList.is_empty] using hne
  · exact select_candidate_holds hs (List.ne_nil_of_length_pos (by omega)) h0 h1

/-- **THE LOOP**: over draws in `[0, 1)`, every iteration keeps the books, and
    the loop's condition never subtracts below zero, since `used_count` counts
    marks. -/
theorem select_loop_holds (draws : ℕ → P) (hdraws : ∀ n, 0 ≤ draws n ∧ draws n < 1) :
    ∀ fuel n (s : TransactionsSelector P), Selecting returned rejected s →
      Holds Faulty (Selecting returned rejected) (TransactionsSelector.select_loop draws fuel n s)
  | 0, _, _, _ => fun h => h.1 rfl
  | fuel + 1, n, s, hs => by
      have hle := hs.books.used_count_le
      rw [TransactionsSelector.select_loop]
      split_ifs with hlt hzero
      · exact absurd hlt (Nat.not_lt.mpr hle)
      · exact hs
      · refine Holds.bind (select_iteration_holds hs (by omega) (hdraws n).1 (hdraws n).2)
          fun flow hflow => ?_
        cases flow with
        | next s' => exact select_loop_holds draws hdraws fuel (n + 1) s' hflow
        | stop s' => exact hflow

end Loop

section Select

variable [IsStrictOrderedRing P] {returned rejected : List CandidateTransaction}

/-- **A SELECTION**: from books with nothing selected yet, `select_transactions`
    over draws in `[0, 1)` fails only by fuel or fees, and otherwise returns the
    transactions of the candidates it selected, with the books kept over what
    earlier batches and this one handed out. -/
theorem select_transactions_holds {s : TransactionsSelector P} (hb : Books s returned rejected)
    (draws : ℕ → P) (hdraws : ∀ n, 0 ≤ draws n ∧ draws n < 1) (fuel : ℕ) :
    Holds Faulty (fun r => Selecting returned rejected r.1 ∧ r.2 = (selected_candidates r.1).map (·.tx))
      (s.select_transactions draws fuel) := by
  obtain ⟨hreset, hs₀⟩ := Selecting.reset hb
  unfold TransactionsSelector.select_transactions
  rw [hreset, ok_bind]
  refine Holds.bind (select_loop_holds draws hdraws fuel 0 _ hs₀) fun s₁ hs₁ => ?_
  -- sorting reorders the selection, and the books do not see the order
  have hperm : (s₁.selected_txs.insertionSort (· ≤ ·)).Perm s₁.selected_txs :=
    List.perm_insertionSort _ _
  have hs₂ : Selecting returned rejected
      { s₁ with selected_txs := s₁.selected_txs.insertionSort (· ≤ ·) } :=
    ⟨(hs₁.books.with_selection _ s₁.selected_txs_map).perm
        (((hperm.filterMap _).symm).append_left returned),
      fun i hi => hs₁.selected_lt i (hperm.mem_iff.mp hi), hs₁.map_none⟩
  dsimp only
  rw [get_transactions_eq hs₂.selected_lt, ok_bind]
  exact ⟨hs₂, rfl⟩

end Select

/-! ## The map of a rejection -/

/-- Two indices of the store whose transactions share an id are one. -/
theorem Books.index_eq_of_id {s : TransactionsSelector P} {used rejected : List CandidateTransaction}
    (h : Books s used rejected) {k k' : ℕ} {t t' : CandidateTransaction}
    (hk : s.transactions[k]? = some t) (hk' : s.transactions[k']? = some t')
    (hid : t.tx.id = t'.tx.id) : k = k' := by
  have htt : t = t' := h.eq_of_id (List.mem_of_getElem? hk) (List.mem_of_getElem? hk') hid
  subst htt
  exact index_eq_of_getElem? h.nodup hk hk'

/-- The map `reject_selection` builds maps the id of each selected transaction to
    its index: ids are distinct, so no later entry overwrites it. -/
theorem build_selected_txs_map_eq {s : TransactionsSelector P}
    {used rejected : List CandidateTransaction} (hb : Books s used rejected)
    (h : ∀ i ∈ s.selected_txs, i < s.transactions.length) :
    ∃ m, s.build_selected_txs_map = .ok m ∧
      ∀ k ∈ s.selected_txs, ∀ t, s.transactions[k]? = some t → m.get t.tx.id = some k := by
  -- the fold from any map: the selected ids are set, the other keys kept
  have hfold : ∀ (l : List ℕ) (acc : Map TransactionId ℕ), (∀ i ∈ l, i < s.transactions.length) →
      ∃ m, l.foldlM (fun map x => do
          let transaction ← vec_index s.transactions x
          pure (map.insert transaction.tx.id x)) acc = .ok m ∧
        (∀ k ∈ l, ∀ t, s.transactions[k]? = some t → m.get t.tx.id = some k) ∧
        (∀ key, (∀ k ∈ l, ∀ t, s.transactions[k]? = some t → t.tx.id ≠ key) →
          m.get key = acc.get key) := by
    intro l
    induction l with
    | nil => exact fun acc _ => ⟨acc, rfl, (fun k hk => nomatch hk), fun _ _ => rfl⟩
    | cons a l ih =>
        intro acc hl
        have ha := hl a List.mem_cons_self
        have hta : s.transactions[a]? = some s.transactions[a] := List.getElem?_eq_getElem ha
        obtain ⟨m, hm, hset, hkeep⟩ := ih (acc.insert s.transactions[a].tx.id a)
          fun i hi => hl i (List.mem_cons_of_mem a hi)
        refine ⟨m, ?_, fun k hk t ht => ?_, fun key hkey => ?_⟩
        · rw [List.foldlM_cons, vec_index_of_lt ha, ok_bind, pure_bind]
          exact hm
        · by_cases hkl : k ∈ l
          · exact hset k hkl t ht
          · -- `a` itself, set by this step and kept by the rest
            have hka : k = a := (List.mem_cons.mp hk).resolve_right hkl
            subst hka
            rw [Option.some_injective _ (ht.symm.trans hta)]
            rw [hkeep _ fun k' hk' t' ht' hid => hkl (hb.index_eq_of_id ht' hta hid ▸ hk')]
            simp
        · rw [hkeep key fun k hk => hkey k (List.mem_cons_of_mem a hk), get_insert,
            if_neg fun hid => hkey a List.mem_cons_self _ hta hid.symm]
  obtain ⟨m, hm, hset, -⟩ := hfold s.selected_txs ∅ h
  exact ⟨m, hm, hset⟩

/-! ## Between the calls of a session -/

/-- The books between the calls of a session: what the batches so far handed out
    (`returned`), the transactions of the latest batch not rejected since
    (`latest`), and those rejected (`rejected`). Each transaction of the latest
    batch is found by its id in the map `reject_selection` builds, or has built. -/
structure SessionBooks (s : TransactionsSelector P)
    (returned latest rejected : List CandidateTransaction) : Prop where
  books : Books s returned rejected
  selected_lt : ∀ i ∈ s.selected_txs, i < s.transactions.length
  latest_nodup : latest.Nodup
  latest_sub : ∀ t ∈ latest, t ∈ returned
  latest_fresh : ∀ t ∈ latest, t ∉ rejected
  lookup : ∀ t ∈ latest, ∃ k, s.transactions[k]? = some t ∧
    (s.selected_txs_map = none ∧ k ∈ s.selected_txs ∨
      ∃ m, s.selected_txs_map = some m ∧ m.get t.tx.id = some k)

namespace SessionBooks

variable {s : TransactionsSelector P} {returned latest rejected : List CandidateTransaction}

/-- A selector fresh from `new` starts a session. -/
theorem new [IsStrictOrderedRing P] (policy : Policy) {transactions : List CandidateTransaction}
    (hgas : ∀ t ∈ transactions, t.tx.gas = 0) (hids : (transactions.map fun t => t.tx.id).Nodup) :
    SessionBooks (TransactionsSelector.new policy transactions : TransactionsSelector P) [] [] [] where
  books := Books.new policy hgas hids
  selected_lt _ hi := nomatch hi
  latest_nodup := List.nodup_nil
  latest_sub _ ht := nomatch ht
  latest_fresh _ ht := nomatch ht
  lookup _ ht := nomatch ht

/-- **SELECT CALL**: a selection hands out a batch no earlier one handed out, and
    makes it the latest; it clears the map, so the batch is found among the
    selected indices. -/
theorem select [IsStrictOrderedRing P] (h : SessionBooks s returned latest rejected)
    {draws : ℕ → P} (hdraws : ∀ n, 0 ≤ draws n ∧ draws n < 1) {fuel : ℕ}
    {s' : TransactionsSelector P} {txs : List Transaction}
    (hsel : s.select_transactions draws fuel = .ok (s', txs)) :
    SessionBooks s' (returned ++ selected_candidates s') (selected_candidates s') rejected := by
  obtain ⟨hs', -⟩ := (select_transactions_holds h.books draws hdraws fuel).of_ok hsel
  have hnodup := hs'.books.used_nodup
  refine ⟨hs'.books, hs'.selected_lt, hnodup.of_append_right,
    fun t ht => List.mem_append_right _ ht, fun t ht hrej => ?_, fun t ht => ?_⟩
  · -- a rejected transaction was handed out by an earlier batch, not by this one
    exact List.disjoint_of_nodup_append hnodup (h.books.rejected_sub t hrej) ht
  · obtain ⟨k, hk, hkt⟩ := List.mem_filterMap.mp ht
    exact ⟨k, hkt, Or.inl ⟨hs'.map_none, hk⟩⟩

/-- **REJECT CALL**: rejecting a transaction of the latest batch succeeds. The map
    it reads finds the transaction by its id; the totals hold its mass and fee,
    which are taken away; its subnetwork has an entry of zero, from which its gas
    of zero is taken. -/
theorem reject (h : SessionBooks s returned latest rejected) {t : CandidateTransaction}
    (ht : t ∈ latest) :
    Holds (fun _ => True) (fun s' => SessionBooks s' returned (latest.erase t) (rejected ++ [t]))
      (s.reject_selection t.tx.id) := by
  have hb := h.books
  have hret := h.latest_sub t ht
  have hfresh := h.latest_fresh t ht
  obtain ⟨hmass, hmass_sum⟩ :=
    toNat_sub_kept_sum (·.calculated_mass) hb.total_mass hb.used_nodup hret hfresh
  obtain ⟨hfee, hfee_sum⟩ :=
    toNat_sub_kept_sum (·.calculated_fee) hb.total_fees hb.used_nodup hret hfresh
  unfold TransactionsSelector.reject_selection
  extract_lets jp
  -- from any map that finds every transaction of the latest batch by its id
  have tail : ∀ m : Map TransactionId ℕ, (∀ t' ∈ latest,
      ∃ k, s.transactions[k]? = some t' ∧ m.get t'.tx.id = some k) →
      Holds (fun _ => True) (fun s' => SessionBooks s' returned (latest.erase t) (rejected ++ [t]))
        (jp m) := by
    intro m hm
    obtain ⟨k, hk, hmk⟩ := hm t ht
    obtain ⟨hklt, hkt⟩ := List.getElem?_eq_some_iff.mp hk
    simp only [jp]
    rw [hmk]
    dsimp only
    rw [vec_index_of_lt hklt, ok_bind, hkt, sub_u64, if_pos hmass, ok_bind, sub_u64, if_pos hfee,
      ok_bind]
    -- the new state, from any gas map that keeps zeros and every entry it had
    have tail₂ : ∀ g : Map SubnetworkId UInt64, (∀ sid v, g.get sid = some v → v = 0) →
        (∀ sid, s.gas_usage_map.get sid ≠ none → g.get sid ≠ none) →
        SessionBooks { s with
          selected_txs_map := some (m.erase t.tx.id)
          total_mass := s.total_mass - t.calculated_mass
          total_fees := s.total_fees - t.calculated_fee
          gas_usage_map := g
          overall_rejections := s.overall_rejections + 1 } returned (latest.erase t) (rejected ++ [t]) := by
      intro g hgzero hgkeep
      refine ⟨{ hb with
        rejected_sub := fun t' ht' => ?_
        total_mass := ?_
        mass_le := ?_
        total_fees := ?_
        gas_zero := hgzero
        gas_entry := fun t' ht' hnative => hgkeep _ (hb.gas_entry t' ht' hnative) },
        h.selected_lt, h.latest_nodup.erase t,
        fun t' ht' => h.latest_sub t' (List.mem_of_mem_erase ht'), fun t' ht' => ?_,
        fun t' ht' => ?_⟩
      · rcases List.mem_append.mp ht' with ht' | ht'
        · exact hb.rejected_sub t' ht'
        · rw [List.mem_singleton.mp ht']
          exact hret
      · exact hmass_sum
      · show s.total_mass - t.calculated_mass ≤ s.policy.max_block_mass
        have hle := UInt64.le_iff_toNat_le.mp hb.mass_le
        rw [UInt64.le_iff_toNat_le, UInt64.toNat_sub_of_le _ _ hmass]
        omega
      · exact hfee_sum
      · obtain ⟨hne, ht'⟩ := (h.latest_nodup.mem_erase_iff).mp ht'
        intro hrej
        rcases List.mem_append.mp hrej with hrej | hrej
        · exact h.latest_fresh t' ht' hrej
        · exact hne (List.mem_singleton.mp hrej)
      · -- the other transactions of the batch keep their ids in the map
        obtain ⟨hne, ht'⟩ := (h.latest_nodup.mem_erase_iff).mp ht'
        obtain ⟨k', hk', hmk'⟩ := hm t' ht'
        refine ⟨k', hk', Or.inr ⟨m.erase t.tx.id, rfl, ?_⟩⟩
        have hid : t'.tx.id ≠ t.tx.id := fun hid =>
          hne (hb.eq_of_id (List.mem_of_getElem? hk') (List.mem_of_getElem? hk) hid)
        rw [get_erase, if_neg hid, hmk']
    split
    · -- outside the native and built-in subnetworks: an entry of zero, less a gas of zero
      rename_i hnative
      have hentry := hb.gas_entry t hret (by simpa using hnative)
      obtain ⟨v, hv⟩ := Option.ne_none_iff_exists'.mp hentry
      have hv0 := hb.gas_zero _ v hv
      have hgas := hb.gasless t (hb.used_sub t hret)
      subst hv0
      rw [hv]
      dsimp only
      rw [hgas, sub_u64, if_pos UInt64.zero_le, ok_bind, pure_bind]
      refine tail₂ _ (fun sid v' hv' => ?_) fun sid hsid => ?_
      · rw [get_insert] at hv'
        split at hv'
        · cases hv'
          rfl
        · exact hb.gas_zero sid v' hv'
      · rw [get_insert]
        split
        · exact Option.some_ne_none _
        · exact hsid
    · rw [pure_bind]
      exact tail₂ _ hb.gas_zero fun _ hsid => hsid
  -- the map read: the one built before, or built now from the selection
  split
  · rename_i map hmap
    rw [pure_bind]
    refine tail map fun t' ht' => ?_
    obtain ⟨k, hk, hnone | ⟨m', hm', hget⟩⟩ := h.lookup t' ht'
    · rw [hmap] at hnone
      cases hnone.1
    · rw [hmap] at hm'
      cases hm'
      exact ⟨k, hk, hget⟩
  · rename_i hmap
    obtain ⟨m, hbuild, hset⟩ := build_selected_txs_map_eq hb h.selected_lt
    rw [hbuild, ok_bind]
    refine tail m fun t' ht' => ?_
    obtain ⟨k, hk, ⟨-, hks⟩ | ⟨m', hm', -⟩⟩ := h.lookup t' ht'
    · exact ⟨k, hk, hset k hks t' hk⟩
    · rw [hmap] at hm'
      cases hm'

end SessionBooks

/-! ## Sessions -/

section Session

variable [IsStrictOrderedRing P]

/-- The calls `build_block_template` makes on a selector built from mempool
    transactions: `select_transactions` over draws in `[0, 1)`, whose batch
    becomes the latest, and `reject_selection` of a transaction of the latest
    batch not rejected yet. The indices record the candidates handed out by every
    batch (`returned`), those of the latest batch not rejected since (`latest`),
    and those rejected (`rejected`); a batch's transactions are those of its
    candidates (`get_transactions_eq`). -/
inductive Session (policy : Policy) (transactions : List CandidateTransaction) :
    TransactionsSelector P → List CandidateTransaction → List CandidateTransaction →
      List CandidateTransaction → Prop
  | new : Session policy transactions (TransactionsSelector.new policy transactions) [] [] []
  | select {s s' : TransactionsSelector P} {returned latest rejected : List CandidateTransaction}
      {draws : ℕ → P} {fuel : ℕ} {txs : List Transaction} :
      Session policy transactions s returned latest rejected →
      (∀ n, 0 ≤ draws n ∧ draws n < 1) →
      s.select_transactions draws fuel = .ok (s', txs) →
      Session policy transactions s' (returned ++ selected_candidates s') (selected_candidates s')
        rejected
  | reject {s s' : TransactionsSelector P} {returned latest rejected : List CandidateTransaction}
      {t : CandidateTransaction} :
      Session policy transactions s returned latest rejected → t ∈ latest →
      s.reject_selection t.tx.id = .ok s' →
      Session policy transactions s' returned (latest.erase t) (rejected ++ [t])

/-- Every state of a session over gasless transactions with distinct ids keeps
    the session's books. -/
theorem Session.books {policy : Policy} {transactions : List CandidateTransaction}
    (hgas : ∀ t ∈ transactions, t.tx.gas = 0) (hids : (transactions.map fun t => t.tx.id).Nodup)
    {s : TransactionsSelector P} {returned latest rejected : List CandidateTransaction}
    (h : Session policy transactions s returned latest rejected) :
    SessionBooks s returned latest rejected := by
  induction h with
  | new => exact SessionBooks.new policy hgas hids
  | select _ hdraws hsel ih => exact ih.select hdraws hsel
  | reject _ ht hrej ih => exact (ih.reject ht).of_ok hrej

end Session

end

/-! ## A session that refills a rejection -/

/-- A native transaction with the given fee and mass, and an id of one repeated
    byte. -/
def native_tx (fee mass : UInt64) (b : UInt8) : CandidateTransaction :=
  ⟨⟨0, [], [], .TransferKSH, 0, SUBNETWORK_ID_NATIVE, 0, [], 0,
    ⟨List.replicate 32 b, replicate_32_length b⟩⟩, fee, mass⟩

/-- Three candidates of one gram each, for a block of two grams. -/
def refill_candidates : List CandidateTransaction := [native_tx 1 1 1, native_tx 1 1 2, native_tx 1 1 3]

/-- The selector over `refill_candidates`. -/
def refill_selector : TransactionsSelector ℚ := .new ⟨2⟩ refill_candidates

/-- Draws picking the first, the second and then the third candidate. -/
def refill_draws (n : ℕ) : ℚ := if n = 0 then 1 / 10 else if n = 1 then 1 / 2 else 9 / 10

/-- The first batch: the first two candidates, then the third stops it. -/
def refill_first : TransactionsSelector ℚ × List Transaction :=
  ((refill_selector.select_transactions refill_draws 10).toOption).getD (refill_selector, [])

/-- The state after rejecting the first candidate's transaction. -/
def refill_rejected : TransactionsSelector ℚ :=
  ((refill_first.1.reject_selection (native_tx 1 1 1).tx.id).toOption).getD refill_first.1

/-- The second batch: the draws hit the two marked candidates, then the third,
    which now fits. -/
def refill_second : TransactionsSelector ℚ × List Transaction :=
  ((refill_rejected.select_transactions refill_draws 10).toOption).getD (refill_rejected, [])

end KashSelector
