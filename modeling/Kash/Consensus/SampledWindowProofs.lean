import Kash.Consensus.WindowProofs

/-! # The sampled window

    The sampled manager offers a block's selected parent and mergeset, in
    descending order, through `sampled_mergeset_iterator`, which reports the
    mergeset blocks below the DAA window as non-DAA and samples every
    `sample_rate`-th of the others, counting from the selected parent's DAA
    score. Its `try_push_mergeset` checks the selected parent with `can_push`,
    then pushes the sampled blocks until the first rejection.

    The sampled blocks are some of the selected parent and the mergeset, in
    their order (`sampled_mergeset_iterator_sublist`), so on a selected parent
    above a strictly descending mergeset the early stops lose nothing: the heap
    is the one that offering every sampled block gives
    (`try_push_mergeset_sampled_offers_all`). The iterator reports exactly the
    blocks below the threshold as non-DAA, and samples exactly the others whose
    count, from one, brings the selected parent's DAA score `d` to a multiple of
    the rate `r` (`sampled_by_count`): `(d + n) / r - d / r` of the `n` others
    (`sampled_mergeset_iterator_spec`). -/

namespace KashWindow

open KashDifficulty KashGhostdag KashScript KashReachability MinMax BoundedHeap ExceptLoops
open BoundedSizeBlockHeap

variable {H : Type}

/-- The block of a sampled item. -/
def SampledBlock.sampled : SampledBlock H → Option (SortableBlock H)
  | .Sampled block => some block
  | .NonDaa _ => none

/-- The hash of a non-DAA item. -/
def SampledBlock.non_daa : SampledBlock H → Option H
  | .Sampled _ => none
  | .NonDaa hash => some hash

variable [LinearOrder H]

namespace SampledWindowManager

/-- Pushing the sampled items until a rejection is pushing their blocks until a
    rejection. -/
theorem push_sampled_until_rejected_eq :
    ∀ (heap : BoundedSizeBlockHeap H) (items : List (SampledBlock H)),
      heap.push_sampled_until_rejected items =
        heap.push_until_rejected (items.filterMap SampledBlock.sampled)
  | _, [] => rfl
  | heap, .Sampled block :: items => by
      rw [push_sampled_until_rejected, List.filterMap_cons, SampledBlock.sampled]
      dsimp only
      rw [push_until_rejected]
      cases heap.try_push block.hash block.blue_work with
      | mk pushed accepted =>
          cases accepted with
          | true => exact push_sampled_until_rejected_eq pushed items
          | false => rfl
  | heap, .NonDaa hash :: items => by
      rw [push_sampled_until_rejected, List.filterMap_cons, SampledBlock.sampled]
      exact push_sampled_until_rejected_eq heap items

omit [LinearOrder H] in
/-- The sampled blocks of a run of the `filter_map` are some of its blocks, in
    their order. -/
theorem sample_blocks_sampled_sublist {stores : GhostdagStores H}
    {sample_rate selected_parent_daa_score : UInt64} {blue_score_threshold : ℕ} :
    ∀ {index : UInt64} {blocks : List (SortableBlock H)} {items : List (SampledBlock H)},
      sample_blocks stores sample_rate selected_parent_daa_score blue_score_threshold index blocks =
        .ok items →
      (items.filterMap SampledBlock.sampled).Sublist blocks
  | _, [], items, h => by
      cases h
      exact List.Sublist.slnil
  | index, block :: blocks, items, h => by
      rw [sample_blocks] at h
      obtain ⟨score, -, h⟩ := (bind_eq_ok _ _ _).mp h
      split_ifs at h with hbelow
      · -- a non-DAA block: the rest of the run samples from the rest
        obtain ⟨rest, hrest, h⟩ := (bind_eq_ok _ _ _).mp h
        cases h
        exact (sample_blocks_sampled_sublist hrest).cons block
      · obtain ⟨index', -, h⟩ := (bind_eq_ok _ _ _).mp h
        obtain ⟨total, -, h⟩ := (bind_eq_ok _ _ _).mp h
        obtain ⟨remainder, -, h⟩ := (bind_eq_ok _ _ _).mp h
        split_ifs at h with hsampled
        · obtain ⟨rest, hrest, h⟩ := (bind_eq_ok _ _ _).mp h
          cases h
          exact (sample_blocks_sampled_sublist hrest).cons_cons block
        · exact (sample_blocks_sampled_sublist h).cons block

/-- The sampled blocks of the iterator are some of the selected parent and the
    descending mergeset, in their order. -/
theorem sampled_mergeset_iterator_sublist (self : SampledWindowManager H) (sample_rate : UInt64)
    (ghostdag_data : GhostdagData H) (selected_parent_blue_work : ℕ)
    {descending : List (SortableBlock H)} {items : List (SampledBlock H)}
    (hdesc : ghostdag_data.descending_mergeset_without_selected_parent self.ghostdag_store =
      .ok descending)
    (hitems : self.sampled_mergeset_iterator sample_rate ghostdag_data selected_parent_blue_work =
      .ok items) :
    (items.filterMap SampledBlock.sampled).Sublist
      (⟨ghostdag_data.selected_parent, selected_parent_blue_work⟩ :: descending) := by
  unfold sampled_mergeset_iterator at hitems
  obtain ⟨_, -, hitems⟩ := (bind_eq_ok _ _ _).mp hitems
  obtain ⟨_, -, hitems⟩ := (bind_eq_ok _ _ _).mp hitems
  obtain ⟨descending', hread, hitems⟩ := (bind_eq_ok _ _ _).mp hitems
  rw [mapError_eq_ok, hdesc] at hread
  cases hread
  exact sample_blocks_sampled_sublist hitems

/-- **THE SAMPLED MANAGER'S EARLY STOPS LOSE NOTHING**: on a heap of a positive
    bound and a selected parent above a mergeset in strictly descending order,
    `try_push_mergeset` gives the heap that offering every sampled block gives,
    and reports the selected parent too low exactly when the heap is full and
    the selected parent is below its least entry. -/
theorem try_push_mergeset_sampled_offers_all (self : SampledWindowManager H)
    (heap : BoundedSizeBlockHeap H) (sample_rate : UInt64) (ghostdag_data : GhostdagData H)
    (selected_parent_blue_work : ℕ) {descending : List (SortableBlock H)}
    {items : List (SampledBlock H)} (hbound : 0 < heap.size_bound)
    (hdesc : ghostdag_data.descending_mergeset_without_selected_parent self.ghostdag_store =
      .ok descending)
    (hitems : self.sampled_mergeset_iterator sample_rate ghostdag_data selected_parent_blue_work =
      .ok items)
    (hsorted : ((⟨ghostdag_data.selected_parent, selected_parent_blue_work⟩ : SortableBlock H) ::
      descending).Pairwise fun a b => b.key < a.key) :
    ∃ too_low, self.try_push_mergeset heap sample_rate ghostdag_data selected_parent_blue_work =
        .ok (offer_all heap (items.filterMap SampledBlock.sampled), too_low) ∧
      (too_low = true ↔ heap.binary_heap.blocks.length = heap.size_bound ∧
        ∃ m, peek heap.binary_heap.blocks = some m ∧
          (⟨ghostdag_data.selected_parent, selected_parent_blue_work⟩ : SortableBlock H).key < m.key) := by
  have hsub := self.sampled_mergeset_iterator_sublist sample_rate ghostdag_data
    selected_parent_blue_work hdesc hitems
  unfold try_push_mergeset
  rw [can_push_of_pos hbound]
  cases hpush : (heap.try_push ghostdag_data.selected_parent selected_parent_blue_work).2 with
  | false =>
      -- the selected parent is rejected, and every sampled block is below it
      refine ⟨true, ?_, iff_of_true rfl (try_push_eq_false_iff.mp hpush)⟩
      rw [offer_all_of_rejected hpush fun b hb => key_le_of_descending hsorted b (hsub.subset hb)]
      rfl
  | true =>
      refine ⟨false, ?_, iff_of_false Bool.false_ne_true fun h => ?_⟩
      · simp only [Bool.not_true, ok_bind, hitems, push_sampled_until_rejected_eq,
          push_until_rejected_of_descending heap (hsorted.sublist hsub)]
        rfl
      · rw [← try_push_eq_false_iff, hpush] at h
        exact Bool.noConfusion h

/-- A full window of three whose least block is `6`. -/
def full_heap : BoundedSizeBlockHeap ℕ := ⟨⟨[⟨8, 8⟩, ⟨9, 9⟩, ⟨6, 6⟩], .Full⟩, 3⟩

/-- A sampled manager over the same stores, whose DAA window reaches down to
    blue score `1`. -/
def sampled_manager : SampledWindowManager ℕ :=
  { genesis_hash := 0, ghostdag_store := chain_stores, headers_store := steady_headers,
    difficulty_window_size := 10, difficulty_sample_rate := 1, past_median_time_window_size := 10,
    past_median_time_sample_rate := 1, difficulty_manager := steady_sampled }

/-- The items at the rate `2`: of the DAA blocks `10`, `7`, `5`, `3`, the second
    and the fourth; `0` is below the DAA window. -/
def chain_items : List (SampledBlock ℕ) := [.Sampled ⟨7, 7⟩, .Sampled ⟨3, 3⟩, .NonDaa 0]

theorem chain_items_eq : sampled_manager.sampled_mergeset_iterator 2 chain_data 10 = .ok chain_items := by
  unfold sampled_mergeset_iterator
  rw [show sampled_manager.ghostdag_store = chain_stores from rfl, chain_descending_eq]
  rfl

theorem try_push_mergeset_sampled_offers_all_chain :
    0 < full_heap.size_bound ∧
      chain_data.descending_mergeset_without_selected_parent sampled_manager.ghostdag_store =
        .ok chain_descending ∧
      sampled_manager.sampled_mergeset_iterator 2 chain_data 10 = .ok chain_items ∧
      ((⟨chain_data.selected_parent, 10⟩ : SortableBlock ℕ) :: chain_descending).Pairwise
        (fun a b => b.key < a.key) ∧
      ∃ too_low, sampled_manager.try_push_mergeset full_heap 2 chain_data 10 =
          .ok (offer_all full_heap (chain_items.filterMap SampledBlock.sampled), too_low) ∧
        (too_low = true ↔ full_heap.binary_heap.blocks.length = full_heap.size_bound ∧
          ∃ m, peek full_heap.binary_heap.blocks = some m ∧
            (⟨chain_data.selected_parent, 10⟩ : SortableBlock ℕ).key < m.key) :=
  ⟨by decide, chain_descending_eq, chain_items_eq, by decide,
    try_push_mergeset_sampled_offers_all sampled_manager full_heap 2 chain_data 10 (by decide)
      chain_descending_eq chain_items_eq (by decide)⟩

/-! ## What the sampled iterator yields -/

/-- The blocks at or above the DAA threshold, by the blue scores `score`. -/
def daa_blocks (score : H → ℕ) (threshold : ℕ) (blocks : List (SortableBlock H)) :
    List (SortableBlock H) :=
  blocks.filter fun b => threshold ≤ score b.hash

/-- The hashes of the blocks below the DAA threshold. -/
def non_daa_hashes (score : H → ℕ) (threshold : ℕ) (blocks : List (SortableBlock H)) : List H :=
  (blocks.filter fun b => score b.hash < threshold).map (·.hash)

/-- The blocks of a list, counted from `start` on, whose count brings `d` to a
    multiple of `r`. -/
def sampled_by_count (d r start : ℕ) (blocks : List (SortableBlock H)) : List (SortableBlock H) :=
  ((blocks.zipIdx start).filter fun p => (d + p.2) % r = 0).map Prod.fst

omit [LinearOrder H] in
/-- The first block is taken when its count makes a multiple. -/
theorem sampled_by_count_cons (d r start : ℕ) (block : SortableBlock H)
    (blocks : List (SortableBlock H)) :
    sampled_by_count d r start (block :: blocks) =
      (if (d + start) % r = 0 then [block] else []) ++ sampled_by_count d r (start + 1) blocks := by
  unfold sampled_by_count
  rw [List.zipIdx_cons, List.filter_cons]
  split <;> simp_all

/-- One more number in a range adds a multiple of `r` exactly when it is one. -/
theorem count_multiples_succ (r m k : ℕ) :
    (m + 1 + k) / r - m / r =
      (if (m + 1) % r = 0 then 1 else 0) + ((m + 1 + k) / r - (m + 1) / r) := by
  have hstep : (m + 1) / r = m / r + if r ∣ m + 1 then 1 else 0 := Nat.succ_div
  have hmono : (m + 1) / r ≤ (m + 1 + k) / r := Nat.div_le_div_right (by omega)
  by_cases hdvd : (m + 1) % r = 0
  · rw [if_pos (Nat.dvd_of_mod_eq_zero hdvd)] at hstep
    rw [if_pos hdvd]
    omega
  · rw [if_neg (fun h => hdvd (Nat.mod_eq_zero_of_dvd h))] at hstep
    rw [if_neg hdvd]
    omega

omit [LinearOrder H] in
/-- Counted from `k + 1`, the blocks taken are as many as the multiples of `r`
    the count passes: `(d + k + n) / r - (d + k) / r` of `n` blocks. -/
theorem length_sampled_by_count (d r : ℕ) :
    ∀ (k : ℕ) (blocks : List (SortableBlock H)),
      (sampled_by_count d r (k + 1) blocks).length = (d + k + blocks.length) / r - (d + k) / r
  | k, [] => by simp [sampled_by_count]
  | k, block :: blocks => by
      -- the first block's count is `k + 1`; the others are counted from `k + 2`
      have hstep : (d + k + (blocks.length + 1)) / r - (d + k) / r =
          (if (d + (k + 1)) % r = 0 then 1 else 0) +
            ((d + (k + 1) + blocks.length) / r - (d + (k + 1)) / r) := by
        have e₁ : d + k + (blocks.length + 1) = d + k + 1 + blocks.length := by omega
        have e₂ : d + (k + 1) = d + k + 1 := by omega
        rw [e₁, e₂]
        exact count_multiples_succ r (d + k) blocks.length
      rw [sampled_by_count_cons, List.length_append, length_sampled_by_count d r (k + 1) blocks,
        List.length_cons, hstep]
      split_ifs <;> rfl

/-- The sampling test of a counted block, in numbers: its `u64` additions do
    not overflow. -/
theorem sample_test_eq {selected_parent_daa_score index sample_rate : UInt64}
    (hfit : selected_parent_daa_score.toNat + index.toNat + 1 < 2 ^ 64) :
    ((selected_parent_daa_score + (index + 1)) % sample_rate == 0) =
      decide ((selected_parent_daa_score.toNat + index.toNat + 1) % sample_rate.toNat = 0) := by
  have hindex : (index + 1).toNat = index.toNat + 1 := toNat_add_of_lt (by simp; omega)
  have htotal : (selected_parent_daa_score + (index + 1)).toNat =
      selected_parent_daa_score.toNat + index.toNat + 1 := by
    rw [toNat_add_of_lt (by rw [hindex]; omega), hindex, Nat.add_assoc]
  rw [Bool.eq_iff_iff, beq_iff_eq, decide_eq_true_iff, ← UInt64.toNat_inj, UInt64.toNat_mod, htotal,
    UInt64.toNat_zero]

omit [LinearOrder H] in
/-- The recursion of the sampling: where every block's blue score reads and the
    counts fit in a `u64`, the `filter_map` from `index` reports the blocks below
    the threshold as non-DAA and samples the others by their count from
    `index + 1`. -/
theorem sample_blocks_sampled_by_count {stores : GhostdagStores H}
    {sample_rate selected_parent_daa_score : UInt64} {threshold : ℕ} {score : H → ℕ}
    (hrate : sample_rate ≠ 0) :
    ∀ (index : UInt64) (blocks : List (SortableBlock H)),
      (∀ b ∈ blocks, stores.get_blue_score b.hash = .ok (score b.hash)) →
      selected_parent_daa_score.toNat + index.toNat + (daa_blocks score threshold blocks).length <
        2 ^ 64 →
      ∃ items, sample_blocks stores sample_rate selected_parent_daa_score threshold index blocks =
          .ok items ∧
        items.filterMap SampledBlock.non_daa = non_daa_hashes score threshold blocks ∧
        items.filterMap SampledBlock.sampled = sampled_by_count selected_parent_daa_score.toNat
          sample_rate.toNat (index.toNat + 1) (daa_blocks score threshold blocks)
  | index, [], _, _ => ⟨[], rfl, rfl, rfl⟩
  | index, block :: blocks, hscore, hfit => by
      have hrest_score : ∀ b ∈ blocks, stores.get_blue_score b.hash = .ok (score b.hash) :=
        fun b hb => hscore b (List.mem_cons_of_mem block hb)
      rw [sample_blocks, hscore block List.mem_cons_self, ok_mapError, ok_bind]
      by_cases hbelow : score block.hash < threshold
      · -- a non-DAA block: reported, and not counted
        have hdaa : daa_blocks score threshold (block :: blocks) = daa_blocks score threshold blocks := by
          simp [daa_blocks, hbelow]
        rw [hdaa] at hfit ⊢
        obtain ⟨items, hitems, hnon, hsampled⟩ :=
          sample_blocks_sampled_by_count hrate index blocks hrest_score hfit
        refine ⟨.NonDaa block.hash :: items, ?_, ?_, hsampled⟩
        · rw [if_pos hbelow, hitems]
          rfl
        · rw [List.filterMap_cons, SampledBlock.non_daa, hnon]
          simp [non_daa_hashes, hbelow]
      · -- a DAA block: counted, and sampled when the count makes a multiple
        have hdaa : daa_blocks score threshold (block :: blocks) =
            block :: daa_blocks score threshold blocks := by
          simp [daa_blocks, not_lt.mp hbelow]
        have hnon : non_daa_hashes score threshold (block :: blocks) =
            non_daa_hashes score threshold blocks := by
          simp [non_daa_hashes, hbelow]
        rw [hdaa, List.length_cons] at hfit
        rw [hdaa, hnon]
        have hindex : (index + 1).toNat = index.toNat + 1 := toNat_add_of_lt (by simp; omega)
        have hfit' : selected_parent_daa_score.toNat + (index + 1).toNat +
            (daa_blocks score threshold blocks).length < 2 ^ 64 := by
          rw [hindex]
          omega
        obtain ⟨items, hitems, hnon', hsampled_eq⟩ :=
          sample_blocks_sampled_by_count hrate (index + 1) blocks hrest_score hfit'
        rw [hindex] at hsampled_eq
        rw [if_neg hbelow, u64_add_of_lt (by simp; omega), ok_mapError, ok_bind,
          u64_add_of_lt (by rw [hindex]; omega), ok_mapError, ok_bind, u64_rem, if_neg hrate,
          ok_mapError, ok_bind, sample_test_eq (by omega)]
        by_cases hsampled : (selected_parent_daa_score.toNat + index.toNat + 1) % sample_rate.toNat = 0
        · refine ⟨.Sampled block :: items, ?_, hnon', ?_⟩
          · rw [if_pos (decide_eq_true hsampled), hitems]
            rfl
          · rw [List.filterMap_cons, SampledBlock.sampled, hsampled_eq, sampled_by_count_cons,
              ← Nat.add_assoc, if_pos hsampled]
            rfl
        · refine ⟨items, ?_, hnon', ?_⟩
          · rw [if_neg (by simpa using hsampled), hitems]
          · rw [hsampled_eq, sampled_by_count_cons, ← Nat.add_assoc, if_neg hsampled]
            rfl

omit [LinearOrder H] in
/-- **THE RUN LEMMA OF THE SAMPLING**: where every block's blue score reads and
    the counts fit in a `u64`, the `filter_map` from `index` yields the blocks
    below the threshold as non-DAA, and samples exactly the others whose count,
    from `index + 1`, makes the selected parent's DAA score `d` plus the count a
    multiple of the rate `r`: `(d + index + n) / r - (d + index) / r` of the `n`
    others. -/
theorem sample_blocks_spec {stores : GhostdagStores H} {sample_rate selected_parent_daa_score : UInt64}
    {threshold : ℕ} {score : H → ℕ} (hrate : sample_rate ≠ 0) :
    ∀ (index : UInt64) (blocks : List (SortableBlock H)),
      (∀ b ∈ blocks, stores.get_blue_score b.hash = .ok (score b.hash)) →
      selected_parent_daa_score.toNat + index.toNat + (daa_blocks score threshold blocks).length <
        2 ^ 64 →
      ∃ items, sample_blocks stores sample_rate selected_parent_daa_score threshold index blocks =
          .ok items ∧
        items.filterMap SampledBlock.non_daa = non_daa_hashes score threshold blocks ∧
        items.filterMap SampledBlock.sampled = sampled_by_count selected_parent_daa_score.toNat
          sample_rate.toNat (index.toNat + 1) (daa_blocks score threshold blocks) ∧
        (items.filterMap SampledBlock.sampled).length =
          (selected_parent_daa_score.toNat + index.toNat + (daa_blocks score threshold blocks).length) /
              sample_rate.toNat -
            (selected_parent_daa_score.toNat + index.toNat) / sample_rate.toNat := by
  intro index blocks hscore hfit
  obtain ⟨items, hitems, hnon, hsampled⟩ :=
    sample_blocks_sampled_by_count hrate index blocks hscore hfit
  refine ⟨items, hitems, hnon, hsampled, ?_⟩
  rw [hsampled, length_sampled_by_count]

/-- **WHAT THE SAMPLED ITERATOR YIELDS**: where the selected parent's header, the
    DAA threshold, the descending mergeset and every blue score read, and the
    counts fit in a `u64`, the iterator reports exactly the blocks below the
    threshold as non-DAA and samples exactly the others, in order, whose count
    from one brings the selected parent's DAA score `d` to a multiple of the rate
    `r`: `(d + n) / r - d / r` of the `n` others. -/
theorem sampled_mergeset_iterator_spec (self : SampledWindowManager H) (sample_rate : UInt64)
    (ghostdag_data : GhostdagData H) (selected_parent_blue_work : ℕ) {header : CompactHeaderData}
    {threshold : ℕ} {descending : List (SortableBlock H)} (score : H → ℕ)
    (hheader : self.headers_store ghostdag_data.selected_parent = some header)
    (hthreshold : self.difficulty_manager.lowest_daa_blue_score ghostdag_data = .ok threshold)
    (hdesc : ghostdag_data.descending_mergeset_without_selected_parent self.ghostdag_store =
      .ok descending)
    (hscore : ∀ b ∈ (⟨ghostdag_data.selected_parent, selected_parent_blue_work⟩ : SortableBlock H) ::
      descending, self.ghostdag_store.get_blue_score b.hash = .ok (score b.hash))
    (hrate : sample_rate ≠ 0)
    (hfit : header.daa_score.toNat + (daa_blocks score threshold
      (⟨ghostdag_data.selected_parent, selected_parent_blue_work⟩ :: descending)).length < 2 ^ 64) :
    ∃ items, self.sampled_mergeset_iterator sample_rate ghostdag_data selected_parent_blue_work =
        .ok items ∧
      items.filterMap SampledBlock.non_daa = non_daa_hashes score threshold
        (⟨ghostdag_data.selected_parent, selected_parent_blue_work⟩ :: descending) ∧
      items.filterMap SampledBlock.sampled = sampled_by_count header.daa_score.toNat sample_rate.toNat 1
        (daa_blocks score threshold
          (⟨ghostdag_data.selected_parent, selected_parent_blue_work⟩ :: descending)) ∧
      (items.filterMap SampledBlock.sampled).length =
        (header.daa_score.toNat + (daa_blocks score threshold
          (⟨ghostdag_data.selected_parent, selected_parent_blue_work⟩ :: descending)).length) /
            sample_rate.toNat -
          header.daa_score.toNat / sample_rate.toNat := by
  obtain ⟨items, hitems, hnon, hsampled, hcount⟩ :=
    @sample_blocks_spec H self.ghostdag_store sample_rate header.daa_score threshold score hrate 0 _
      hscore (by rw [UInt64.toNat_zero, Nat.add_zero]; exact hfit)
  rw [UInt64.toNat_zero, Nat.add_zero] at hcount
  rw [UInt64.toNat_zero, Nat.zero_add] at hsampled
  refine ⟨items, ?_, hnon, hsampled, hcount⟩
  unfold sampled_mergeset_iterator
  rw [get_compact_header_data, hheader]
  simp only [ok_bind, hthreshold, hdesc, ok_mapError]
  exact hitems

/-- The iterator's items over the chain's mergeset, at a rate of two. -/
theorem sampled_mergeset_iterator_spec_chain :
    sampled_manager.headers_store chain_data.selected_parent = some ⟨0, 10000, 0x1d00ffff⟩ ∧
      sampled_manager.difficulty_manager.lowest_daa_blue_score chain_data = .ok 1 ∧
      chain_data.descending_mergeset_without_selected_parent sampled_manager.ghostdag_store =
        .ok chain_descending ∧
      (∀ b ∈ (⟨chain_data.selected_parent, 10⟩ : SortableBlock ℕ) :: chain_descending,
        sampled_manager.ghostdag_store.get_blue_score b.hash = .ok b.hash) ∧
      (2 : UInt64) ≠ 0 ∧
      (⟨0, 10000, 0x1d00ffff⟩ : CompactHeaderData).daa_score.toNat + (daa_blocks (fun hash => hash) 1
        (⟨chain_data.selected_parent, 10⟩ :: chain_descending)).length < 2 ^ 64 ∧
      ∃ items, sampled_manager.sampled_mergeset_iterator 2 chain_data 10 = .ok items ∧
        items.filterMap SampledBlock.non_daa = non_daa_hashes (fun hash => hash) 1
          (⟨chain_data.selected_parent, 10⟩ :: chain_descending) ∧
        items.filterMap SampledBlock.sampled = sampled_by_count
          (⟨0, 10000, 0x1d00ffff⟩ : CompactHeaderData).daa_score.toNat (2 : UInt64).toNat 1
          (daa_blocks (fun hash => hash) 1 (⟨chain_data.selected_parent, 10⟩ :: chain_descending)) ∧
        (items.filterMap SampledBlock.sampled).length =
          ((⟨0, 10000, 0x1d00ffff⟩ : CompactHeaderData).daa_score.toNat + (daa_blocks (fun hash => hash) 1
            (⟨chain_data.selected_parent, 10⟩ :: chain_descending)).length) / (2 : UInt64).toNat -
            (⟨0, 10000, 0x1d00ffff⟩ : CompactHeaderData).daa_score.toNat / (2 : UInt64).toNat :=
  ⟨by decide, by decide, chain_descending_eq, by decide, by decide, by decide,
    sampled_mergeset_iterator_spec sampled_manager 2 chain_data 10 (fun hash => hash) (by decide)
      (by decide) chain_descending_eq (by decide) (by decide) (by decide)⟩

end SampledWindowManager

end KashWindow
