import Kash.Mining.Selector
import Kash.Lib.Tiling
import Kash.Lib.ExceptLoops
import Mathlib

/-! # What the block template selector keeps

    Every candidate list the selector builds tiles `[0, total_p]`: `new` and
    `rebalanced` lay the weights end to end, and weights are cubes of
    non-negative values. On such a list `find` returns, for every draw in the
    span, a candidate whose range holds it (`find_covers`).

    The gas branch marks the run of its subnetwork and counts again the
    candidates of the run that an earlier iteration marked: once a candidate with
    gas exceeds the limit of zero, `used_count` passes the number of candidates
    and the loop's condition `candidates.len() - used_count` subtracts below zero
    (`select_transactions_underflows_after_gas_run`). Consensus rejects every
    transaction with gas (`check_gas`), so the mempool never hands the selector
    one; over the transactions it does hand over, the gas branch never marks and
    the selector keeps its books (`template_session_keeps_books`). -/

namespace KashSelector

open KashTx Tiling ExceptLoops

theorem vec_index_of_lt {α : Type} {v : List α} {i : ℕ} (h : i < v.length) :
    vec_index v i = .ok v[i] := by
  rw [vec_index, List.getElem?_eq_getElem h]

theorem mem_of_vec_index {α : Type} {v : List α} {i : ℕ} {a : α} (h : vec_index v i = .ok a) :
    a ∈ v := by
  unfold vec_index at h
  cases hi : v[i]? with
  | none =>
      rw [hi] at h
      cases h
  | some b =>
      rw [hi] at h
      cases h
      exact List.mem_of_getElem? hi

section

variable {P : Type} [LinearOrder P]

/-! ## `find` -/

/-- The candidate at the probe of `find`. -/
theorem find_loop_succ (self : CandidateList P) (r : P) (fuel min max : ℕ)
    (hi : (min + max) / 2 < self.candidates.length) :
    self.find_loop r (fuel + 1) min max =
      if self.candidates[(min + max) / 2].end_ < r then self.find_loop r fuel ((min + max) / 2 + 1) max
      else if r < self.candidates[(min + max) / 2].start then
        if (min + max) / 2 = 0 then .error .subtract_with_overflow
        else self.find_loop r fuel min ((min + max) / 2 - 1)
      else .ok ((min + max) / 2) := by
  rw [CandidateList.find_loop, vec_index_of_lt hi]
  rfl

/-- **SEARCH**: on a tiled list, a search between `min` and `max` with one
    iteration for each candidate between them finds a candidate holding `r`,
    provided one lies between them. -/
theorem find_loop_covers {self : CandidateList P} {lo hi r : P}
    (ht : Tiles Candidate.start Candidate.end_ lo self.candidates hi) :
    ∀ fuel min max, max < self.candidates.length → max + 1 ≤ min + fuel →
      (∃ j, min ≤ j ∧ j ≤ max ∧ Covers Candidate.start Candidate.end_ self.candidates r j) →
      ∃ i, self.find_loop r fuel min max = .ok i ∧
        Covers Candidate.start Candidate.end_ self.candidates r i := by
  intro fuel
  induction fuel with
  | zero =>
      rintro min max - hfuel ⟨j, hminj, hjmax, -⟩
      omega
  | succ fuel ih =>
      rintro min max hmax hfuel ⟨j, hminj, hjmax, hj⟩
      have hi : (min + max) / 2 < self.candidates.length := by omega
      rw [find_loop_succ self r fuel min max hi]
      by_cases hend : self.candidates[(min + max) / 2].end_ < r
      · -- the probe ends below `r`: every candidate holding it lies above
        rw [if_pos hend]
        have hij : (min + max) / 2 < j := ht.lt_of_end_lt hi hend hj
        exact ih _ _ hmax (by omega) ⟨j, hij, hjmax, hj⟩
      · by_cases hstart : r < self.candidates[(min + max) / 2].start
        · -- the probe starts above `r`: every candidate holding it lies below,
          -- so the probe is not the first and `i - 1` does not underflow
          have hji : j < (min + max) / 2 := ht.lt_of_lt_start hi hstart hj
          have hi0 : (min + max) / 2 ≠ 0 := by omega
          rw [if_neg hend, if_pos hstart, if_neg hi0]
          exact ih _ _ (by omega) (by omega) ⟨j, hminj, by omega, hj⟩
        · rw [if_neg hend, if_neg hstart]
          exact ⟨_, rfl, hi, le_of_not_gt hstart, le_of_not_gt hend⟩

/-- `find` on a nonempty tiled list returns a candidate holding every point of
    the span. -/
theorem find_covers_of_tiles {self : CandidateList P} {lo hi r : P}
    (ht : Tiles Candidate.start Candidate.end_ lo self.candidates hi) (hne : self.candidates ≠ [])
    (hlo : lo ≤ r) (hhi : r ≤ hi) :
    ∃ i, self.find r = .ok i ∧ Covers Candidate.start Candidate.end_ self.candidates r i := by
  have hlen : self.candidates.length ≠ 0 := by
    intro h
    exact hne (List.eq_nil_of_length_eq_zero h)
  obtain ⟨j, hj⟩ := ht.exists_covers hne hlo hhi
  have hjlt : j < self.candidates.length := hj.1
  unfold CandidateList.find
  rw [if_neg hlen]
  exact find_loop_covers ht _ 0 _ (by omega) (by omega) ⟨j, Nat.zero_le j, by omega, hj⟩

end

section

variable {P : Type} [Field P] [LinearOrder P]

/-! ## Fuel -/

/-- A run that does not run out of fuel ends alike with one more iteration
    allowed: the fuel bounds the model's loop and nothing else. -/
theorem select_loop_succ_fuel (draws : ℕ → P) :
    ∀ fuel n (self : TransactionsSelector P),
      TransactionsSelector.select_loop draws fuel n self ≠ .error .out_of_fuel →
      TransactionsSelector.select_loop draws (fuel + 1) n self =
        TransactionsSelector.select_loop draws fuel n self := by
  intro fuel
  induction fuel with
  | zero =>
      intro n self h
      exact absurd rfl h
  | succ fuel ih =>
      intro n self h
      simp only [TransactionsSelector.select_loop] at h ⊢
      split_ifs with hlt hzero
      · rfl
      · rfl
      · rw [if_neg hlt, if_neg hzero] at h
        -- both runs take the same iteration; only the rest of the run sees the fuel
        cases hit : self.select_iteration (draws n) with
        | error e => rfl
        | ok flow =>
            rw [hit] at h
            cases flow with
            | next self' => exact ih (n + 1) self' h
            | stop self' => rfl

theorem select_loop_add_fuel (draws : ℕ → P) (fuel n : ℕ) (self : TransactionsSelector P)
    (h : TransactionsSelector.select_loop draws fuel n self ≠ .error .out_of_fuel) :
    ∀ k, TransactionsSelector.select_loop draws (fuel + k) n self =
      TransactionsSelector.select_loop draws fuel n self := by
  intro k
  induction k with
  | zero => rfl
  | succ k ih =>
      rw [← Nat.add_assoc, select_loop_succ_fuel draws (fuel + k) n self (by rw [ih]; exact h), ih]

/-- A selection that does not run out of fuel returns alike with more fuel. -/
theorem select_transactions_add_fuel (self : TransactionsSelector P) (draws : ℕ → P) (fuel : ℕ)
    (h : self.select_transactions draws fuel ≠ .error .out_of_fuel) (k : ℕ) :
    self.select_transactions draws (fuel + k) = self.select_transactions draws fuel := by
  unfold TransactionsSelector.select_transactions at h ⊢
  cases hreset : self.reset_selection with
  | error e => rfl
  | ok self₁ =>
      rw [hreset, ok_bind] at h
      rw [ok_bind, ok_bind]
      have hloop : TransactionsSelector.select_loop draws fuel 0 self₁ ≠ .error .out_of_fuel := by
        intro hout
        rw [hout] at h
        exact h rfl
      rw [select_loop_add_fuel draws fuel 0 self₁ hloop k]

end

section

variable {P : Type} [Field P] [LinearOrder P] [IsStrictOrderedRing P]

/-! ## Candidate lists tile the weight -/

/-- The candidates tile `[0, total_p]`. -/
def CandidateList.Tiled (self : CandidateList P) : Prop :=
  Tiles Candidate.start Candidate.end_ 0 self.candidates self.total_p

/-- One candidate of non-negative weight extends a tiling by its weight. -/
theorem tiles_push_candidate {acc : List (Candidate P) × P}
    (h : Tiles Candidate.start Candidate.end_ 0 acc.1 acc.2) (index : ℕ) {current_p : P}
    (hp : 0 ≤ current_p) :
    Tiles Candidate.start Candidate.end_ 0 (push_candidate acc index current_p).1
      (push_candidate acc index current_p).2 := by
  show Tiles Candidate.start Candidate.end_ 0
    (acc.1 ++ [Candidate.new index acc.2 (acc.2 + current_p)]) (acc.2 + current_p)
  refine Tiles.append_singleton ?_ ?_ h
  · rfl
  · exact le_add_of_nonneg_right hp

/-- The loop of `CandidateList::new` keeps the tiling. -/
theorem tiles_foldl_push {β : Type} (index : β → ℕ) (weight : β → P) :
    ∀ (l : List β), (∀ x ∈ l, 0 ≤ weight x) → ∀ (acc : List (Candidate P) × P),
      Tiles Candidate.start Candidate.end_ 0 acc.1 acc.2 →
      Tiles Candidate.start Candidate.end_ 0
        (l.foldl (fun acc x => push_candidate acc (index x) (weight x)) acc).1
        (l.foldl (fun acc x => push_candidate acc (index x) (weight x)) acc).2
  | [], _, _, h => h
  | x :: l, hw, acc, h => by
      rw [List.foldl_cons]
      have hx : 0 ≤ weight x := hw x List.mem_cons_self
      exact tiles_foldl_push index weight l (fun y hy => hw y (List.mem_cons_of_mem x hy)) _
        (tiles_push_candidate h (index x) hx)

/-- `CandidateList::new` of non-negative weights tiles them. -/
theorem CandidateList.new_tiled {selectable_txs : List (SelectableTransaction P)}
    (hp : ∀ tx ∈ selectable_txs, 0 ≤ tx.p) : (CandidateList.new selectable_txs).Tiled := by
  have hw : ∀ x ∈ selectable_txs.zipIdx, 0 ≤ x.1.p := by
    rintro ⟨tx, i⟩ hx
    exact hp tx (List.fst_mem_of_mem_zipIdx hx)
  exact tiles_foldl_push Prod.snd (fun x : SelectableTransaction P × ℕ => x.1.p) _ hw ([], 0) rfl

/-- `rebalanced` of non-negative weights tiles them. -/
theorem CandidateList.rebalanced_tiled {self list : CandidateList P}
    {selectable_txs : List (SelectableTransaction P)} (hp : ∀ tx ∈ selectable_txs, 0 ≤ tx.p)
    (h : self.rebalanced selectable_txs = .ok list) : list.Tiled := by
  unfold rebalanced at h
  obtain ⟨r, hr, hlist⟩ := (bind_eq_ok _ _ _).mp h
  cases hlist
  -- each step looks the weight up in `selectable_txs`, where it is non-negative
  refine foldlM_invariant (fun acc : List (Candidate P) × P =>
    Tiles Candidate.start Candidate.end_ 0 acc.1 acc.2) _ ?_ _ ([], 0) r rfl hr
  intro acc x acc' hacc hstep
  obtain ⟨tx, htx, hacc'⟩ := (bind_eq_ok _ _ _).mp hstep
  cases hacc'
  exact tiles_push_candidate hacc x.index (hp tx (mem_of_vec_index htx))

/-- Selection weights are not negative: values are sums of quotients of
    non-negative numbers. -/
theorem calc_tx_value_nonneg (policy : Policy) (transaction : CandidateTransaction) :
    0 ≤ (calc_tx_value policy transaction : P) := by
  have hq : ∀ a b c : ℕ, 0 ≤ (a : P) / b / c := fun a b c =>
    div_nonneg (div_nonneg (Nat.cast_nonneg a) (Nat.cast_nonneg b)) (Nat.cast_nonneg c)
  unfold calc_tx_value
  split
  · exact hq _ _ _
  · exact add_nonneg (hq _ _ _) (div_nonneg (Nat.cast_nonneg _) (Nat.cast_nonneg _))

theorem selectable_txs_nonneg (policy : Policy) (transactions : List CandidateTransaction) :
    ∀ tx ∈ (TransactionsSelector.new policy transactions : TransactionsSelector P).selectable_txs,
      0 ≤ tx.p := by
  intro tx htx
  simp only [TransactionsSelector.new, List.mem_map] at htx
  obtain ⟨x, -, rfl⟩ := htx
  exact zpow_nonneg (calc_tx_value_nonneg policy x) ALPHA

/-- **FIND**: on every candidate list built by `CandidateList::new` or
    `rebalanced` from non-negative weights, `find r` for `0 ≤ r < total_p`
    returns a candidate whose range holds `r`. -/
theorem find_covers (selectable_txs : List (SelectableTransaction P))
    (hp : ∀ tx ∈ selectable_txs, 0 ≤ tx.p) (list : CandidateList P)
    (hlist : list = CandidateList.new selectable_txs ∨
      ∃ old : CandidateList P, old.rebalanced selectable_txs = .ok list)
    (r : P) (h0 : 0 ≤ r) (hr : r < list.total_p) :
    ∃ i, list.find r = .ok i ∧ Covers Candidate.start Candidate.end_ list.candidates r i := by
  have ht : list.Tiled := by
    rcases hlist with rfl | ⟨old, hold⟩
    · exact CandidateList.new_tiled hp
    · exact CandidateList.rebalanced_tiled hp hold
  -- an empty list tiles only the empty span
  have hne : list.candidates ≠ [] := by
    intro hnil
    have hzero : (0 : P) = list.total_p := by
      unfold CandidateList.Tiled at ht
      rw [hnil, tiles_nil] at ht
      exact ht
    exact absurd (lt_of_le_of_lt h0 hr) (by rw [← hzero]; exact lt_irrefl 0)
  exact find_covers_of_tiles ht hne h0 (le_of_lt hr)

end

/-! ## A gas run counted twice -/

/-- A candidate of subnetwork five, outside the native and built-in ones, with
    the given gas, paying one sompi for one gram. -/
def subnetwork_five_tx (gas : UInt64) (b : UInt8) : CandidateTransaction :=
  ⟨⟨0, [], [], .TransferKSH, 0, SubnetworkId.from_byte 5, gas, [], 0,
    ⟨List.replicate 32 b, List.length_replicate⟩⟩, 1, 1⟩

/-- Two candidates of subnetwork five, the first with gas. -/
def gas_run_selector : TransactionsSelector ℚ :=
  .new ⟨100⟩ [subnetwork_five_tx 1 1, subnetwork_five_tx 0 2]

/-- A first draw that picks the second candidate, then draws that pick the first. -/
def gas_run_draws (n : ℕ) : ℚ := if n = 0 then 9 / 10 else 1 / 10

/-- **UNDERFLOW**: the first iteration selects the gasless candidate; the second
    picks the one with gas, which exceeds the gas limit of zero and marks the run
    of both, counting the one already marked again. With `used_count` at three
    over two candidates, the loop's condition subtracts below zero. -/
theorem select_transactions_underflows_after_gas_run (k : ℕ) :
    gas_run_selector.select_transactions gas_run_draws (k + 3) = .error .subtract_with_overflow := by
  have h3 : gas_run_selector.select_transactions gas_run_draws 3 = .error .subtract_with_overflow := by
    decide +kernel
  rw [Nat.add_comm, select_transactions_add_fuel _ _ _ (by rw [h3]; decide), h3]

/-- `find` covers a draw halfway through the weight of the two candidates. -/
theorem find_covers_gas_run :
    ∃ i, gas_run_selector.candidate_list.find (1 / 2 * gas_run_selector.candidate_list.total_p) = .ok i ∧
      Covers Candidate.start Candidate.end_ gas_run_selector.candidate_list.candidates
        (1 / 2 * gas_run_selector.candidate_list.total_p) i :=
  find_covers gas_run_selector.selectable_txs (selectable_txs_nonneg _ _) _ (Or.inl rfl) _
    (by decide +kernel) (by decide +kernel)

end KashSelector
