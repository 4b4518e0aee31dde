import Kash.Consensus.PastMedianTime
import Kash.Consensus.IntervalProofs
import Kash.Lib.OrderStatistic

/-! # What the past median time managers compute

    Sorting keeps the timestamps and orders them (`sort_unstable_perm`,
    `sort_unstable_sorted`), and two orderings of one window sort alike
    (`sort_unstable_eq_of_perm`). On a nonempty window whose headers are stored:

    * `calc_past_median_time_full_median` — the full manager returns a timestamp
      of the window with at most `len / 2` timestamps below it and at most
      `len - 1 - len / 2` above it, which is its upper median;
    * `calc_past_median_time_sampled_spec` — the sampled manager returns the
      rounded mean of its middle frame, without a panic when the timestamps are
      below `2 ^ 60`, and the result has at most `frame_end - 1` timestamps below
      it and at most `len - 1 - frame_start` above it;
    * `calc_past_median_time_perm` — neither depends on the order in which the
      window heap is iterated. -/

namespace KashPastMedianTime

open KashDifficulty KashGhostdag KashScript KashReachability ExceptLoops OrderStatistic

variable {H : Type}

/-! ## Sorting -/

theorem sort_unstable_perm (xs : List UInt64) : (sort_unstable xs).Perm xs :=
  List.perm_insertionSort _ _

theorem sort_unstable_sorted (xs : List UInt64) : (sort_unstable xs).Pairwise (· ≤ ·) :=
  List.pairwise_insertionSort _ _

theorem length_sort_unstable (xs : List UInt64) : (sort_unstable xs).length = xs.length :=
  (sort_unstable_perm xs).length_eq

/-- Two orderings of the same timestamps sort to one list. -/
theorem sort_unstable_eq_of_perm {xs ys : List UInt64} (h : xs.Perm ys) :
    sort_unstable xs = sort_unstable ys :=
  List.Perm.eq_of_pairwise' (sort_unstable_sorted xs) (sort_unstable_sorted ys)
    (((sort_unstable_perm xs).trans h).trans (sort_unstable_perm ys).symm)

/-- A count over the timestamps is a count over the sorted timestamps. -/
theorem countP_sort_unstable (p : UInt64 → Bool) (xs : List UInt64) :
    (sort_unstable xs).countP p = xs.countP p :=
  (sort_unstable_perm xs).countP_eq p

/-- The sorted timestamps as numbers are sorted: the order statistics of
    `OrderStatistic` apply to them. -/
theorem sort_unstable_sorted_toNat (xs : List UInt64) :
    ((sort_unstable xs).map UInt64.toNat).Pairwise (· ≤ ·) :=
  List.pairwise_map.mpr ((sort_unstable_sorted xs).imp fun h => UInt64.le_iff_toNat_le.mp h)

/-- Counting the timestamps below a value is counting the sorted numbers below
    its number. -/
theorem countP_lt_eq (xs : List UInt64) (r : UInt64) :
    xs.countP (fun t => decide (t < r)) =
      ((sort_unstable xs).map UInt64.toNat).countP (fun x => decide (x < r.toNat)) := by
  rw [List.countP_map, countP_sort_unstable]
  exact List.countP_congr fun t _ => by
    simp only [Function.comp_apply, decide_eq_true_iff, UInt64.lt_iff_toNat_lt]

/-- Counting the timestamps above a value is counting the sorted numbers above
    its number. -/
theorem countP_gt_eq (xs : List UInt64) (r : UInt64) :
    xs.countP (fun t => decide (r < t)) =
      ((sort_unstable xs).map UInt64.toNat).countP (fun x => decide (r.toNat < x)) := by
  rw [List.countP_map, countP_sort_unstable]
  exact List.countP_congr fun t _ => by
    simp only [Function.comp_apply, decide_eq_true_iff, UInt64.lt_iff_toNat_lt]

/-! ## Reading the window -/

section Read

variable {headers_store : H → Option CompactHeaderData}

theorem length_read_timestamps {window : List (SortableBlock H)} {timestamps : List UInt64}
    (h : read_timestamps headers_store window = .ok timestamps) :
    timestamps.length = window.length :=
  ((mapM_eq_ok _ window timestamps).mp h).length_eq.symm

/-- A window and a reordering of it read alike: both fail on a missing header, or
    both give the same timestamps up to order. -/
theorem read_timestamps_perm {window window' : List (SortableBlock H)} (h : window.Perm window') :
    (read_timestamps headers_store window = .error .missing_entry ∧
        read_timestamps headers_store window' = .error .missing_entry) ∨
      ∃ timestamps timestamps', read_timestamps headers_store window = .ok timestamps ∧
        read_timestamps headers_store window' = .ok timestamps' ∧ timestamps.Perm timestamps' := by
  refine mapM_perm (fun item e he => ?_) h
  unfold get_timestamp get_compact_header_data at he
  cases hread : headers_store item.hash with
  | none =>
      rw [hread] at he
      cases he
      rfl
  | some data =>
      rw [hread] at he
      cases he

end Read

/-! ## The full manager -/

/-- **THE UPPER MEDIAN**: on a nonempty window whose headers are stored, the full
    manager returns a timestamp of the window with at most `len / 2` of the
    timestamps strictly below it and at most `len - 1 - len / 2` strictly above
    it; no other value has both bounds. -/
theorem calc_past_median_time_full_median (m : FullPastMedianTimeManager H)
    {window : List (SortableBlock H)} {timestamps : List UInt64} (hne : window ≠ [])
    (hread : read_timestamps m.headers_store window = .ok timestamps) :
    ∃ r ∈ timestamps, m.calc_past_median_time window = .ok r ∧
      timestamps.countP (fun t => decide (t < r)) ≤ timestamps.length / 2 ∧
      timestamps.countP (fun t => decide (r < t)) ≤ timestamps.length - 1 - timestamps.length / 2 := by
  have hlen : (sort_unstable timestamps).length = timestamps.length := length_sort_unstable timestamps
  have hpos : 0 < timestamps.length := by
    rw [length_read_timestamps hread]
    exact List.length_pos_iff.mpr hne
  have hmid : timestamps.length / 2 < (sort_unstable timestamps).length := by
    rw [hlen]
    omega
  have hs := sort_unstable_sorted_toNat timestamps
  refine ⟨(sort_unstable timestamps)[timestamps.length / 2],
    (sort_unstable_perm timestamps).mem_iff.mp (List.getElem_mem _), ?_, ?_, ?_⟩
  · have hempty : window.isEmpty = false := List.isEmpty_eq_false_iff.mpr hne
    simp only [FullPastMedianTimeManager.calc_past_median_time, hempty, hread, ok_bind, index,
      hlen, List.getElem?_eq_getElem hmid]
    rfl
  · rw [countP_lt_eq]
    exact countP_lt_le hs (by rwa [List.length_map]) (List.getElem_map _).ge
  · have habove := countP_gt_le hs (i := timestamps.length / 2) (by rwa [List.length_map])
      (List.getElem_map _).le
    have hns : ((sort_unstable timestamps).map UInt64.toNat).length = timestamps.length := by
      rw [List.length_map, hlen]
    rw [countP_gt_eq]
    omega

/-- Headers one second apart. -/
def stamped_headers (hash : ℕ) : Option CompactHeaderData :=
  some ⟨0, (1000 * hash).toUInt64, 0x1d00ffff⟩

/-- Five blocks, not in the order of their timestamps. -/
def scrambled_window : List (SortableBlock ℕ) := [3, 0, 4, 1, 2].map fun i => ⟨i, i⟩

/-- Their timestamps, in the window's order. -/
def scrambled_timestamps : List UInt64 := [3000, 0, 4000, 1000, 2000]

theorem calc_past_median_time_full_median_scrambled :
    scrambled_window ≠ [] ∧
      read_timestamps stamped_headers scrambled_window = .ok scrambled_timestamps ∧
      ∃ r ∈ scrambled_timestamps,
        (⟨stamped_headers, 0⟩ : FullPastMedianTimeManager ℕ).calc_past_median_time
          scrambled_window = .ok r ∧
        scrambled_timestamps.countP (fun t => decide (t < r)) ≤ scrambled_timestamps.length / 2 ∧
        scrambled_timestamps.countP (fun t => decide (r < t)) ≤
          scrambled_timestamps.length - 1 - scrambled_timestamps.length / 2 :=
  ⟨by decide, by decide, calc_past_median_time_full_median ⟨stamped_headers, 0⟩ (by decide) (by decide)⟩

/-! ## The sampled manager -/

/-- Where the sampled manager's middle frame of a window of `n` timestamps ends. -/
def frame_end (n : ℕ) : ℕ := (n + min n AVERAGE_FRAME_SIZE + 1) / 2

/-- Where it starts. -/
def frame_start (n : ℕ) : ℕ := frame_end n - min n AVERAGE_FRAME_SIZE

/-- The middle frame of a nonempty window lies inside it and holds
    `min n AVERAGE_FRAME_SIZE` timestamps. -/
theorem frame_bounds {n : ℕ} (hn : 0 < n) :
    min n AVERAGE_FRAME_SIZE ≤ frame_end n ∧ frame_end n ≤ n ∧ frame_start n < frame_end n ∧
      frame_end n - frame_start n = min n AVERAGE_FRAME_SIZE := by
  unfold frame_start frame_end AVERAGE_FRAME_SIZE
  omega

/-- The sampled manager on a nonempty window that reads: the checked rounded
    mean of the middle frame of the sorted timestamps. -/
theorem calc_past_median_time_sampled_eq (m : SampledPastMedianTimeManager H)
    {window : List (SortableBlock H)} {timestamps : List UInt64} (hne : window ≠ [])
    (hread : read_timestamps m.headers_store window = .ok timestamps) :
    m.calc_past_median_time window = (do
      let frame ← slice (sort_unstable timestamps) (frame_start timestamps.length)
        (frame_end timestamps.length)
      (do
        let total ← u64_add (← u64_sum frame)
          ((min timestamps.length AVERAGE_FRAME_SIZE).toUInt64 / 2)
        u64_div total (min timestamps.length AVERAGE_FRAME_SIZE).toUInt64).mapError .panics) := by
  have hpos : 0 < timestamps.length := by
    rw [length_read_timestamps hread]
    exact List.length_pos_iff.mpr hne
  have hempty : window.isEmpty = false := List.isEmpty_eq_false_iff.mpr hne
  -- the `usize` subtraction of the slice start cannot go below zero
  have hcheck : ¬ (timestamps.length + min timestamps.length AVERAGE_FRAME_SIZE + 1) / 2 <
      min timestamps.length AVERAGE_FRAME_SIZE :=
    not_lt.mpr (frame_bounds hpos).1
  simp only [SampledPastMedianTimeManager.calc_past_median_time, hempty, Bool.false_eq_true,
    if_false, hread, ok_bind, length_sort_unstable]
  rw [if_neg hcheck]
  rfl

/-- **THE SAMPLED PAST MEDIAN TIME**: on a nonempty window whose headers are
    stored with timestamps below `2 ^ 60`, the sampled manager returns, without a
    panic, the mean of the sorted timestamps from `frame_start` to `frame_end`
    rounded to the nearest; it has at most `frame_end - 1` of the timestamps
    strictly below it and at most `len - 1 - frame_start` strictly above it. -/
theorem calc_past_median_time_sampled_spec (m : SampledPastMedianTimeManager H)
    {window : List (SortableBlock H)} {timestamps : List UInt64} (hne : window ≠ [])
    (hread : read_timestamps m.headers_store window = .ok timestamps)
    (hsmall : ∀ t ∈ timestamps, t.toNat < 2 ^ 60) :
    ∃ r : UInt64, m.calc_past_median_time window = .ok r ∧
      r.toNat = (((((sort_unstable timestamps).take (frame_end timestamps.length)).drop
          (frame_start timestamps.length)).map UInt64.toNat).sum +
          min timestamps.length AVERAGE_FRAME_SIZE / 2) / min timestamps.length AVERAGE_FRAME_SIZE ∧
      timestamps.countP (fun t => decide (t < r)) ≤ frame_end timestamps.length - 1 ∧
      timestamps.countP (fun t => decide (r < t)) ≤
        timestamps.length - 1 - frame_start timestamps.length := by
  have hpos : 0 < timestamps.length := by
    rw [length_read_timestamps hread]
    exact List.length_pos_iff.mpr hne
  obtain ⟨-, hend, hstart, hsize⟩ := frame_bounds hpos
  have hlen := length_sort_unstable timestamps
  have hns_len : ((sort_unstable timestamps).map UInt64.toNat).length = timestamps.length := by
    rw [List.length_map, hlen]
  have hs := sort_unstable_sorted_toNat timestamps
  generalize hframe : ((sort_unstable timestamps).take (frame_end timestamps.length)).drop
    (frame_start timestamps.length) = frame
  generalize hf : min timestamps.length AVERAGE_FRAME_SIZE = f at hsize
  have hf_pos : 0 < f := by
    rw [← hf]
    unfold AVERAGE_FRAME_SIZE
    omega
  have hf_le : f ≤ 11 := hf ▸ min_le_right _ _
  -- the frame: its size, and its numbers between those at the two ends of the slice
  have hframe_len : frame.length = f := by
    rw [← hframe, List.length_drop, List.length_take, hlen, Nat.min_eq_left hend, hsize]
  have hframe_nat : frame.map UInt64.toNat =
      (((sort_unstable timestamps).map UInt64.toNat).take (frame_end timestamps.length)).drop
        (frame_start timestamps.length) := by
    rw [← hframe, List.map_drop, List.map_take]
  have hbounds : ∀ x ∈ frame.map UInt64.toNat,
      ((sort_unstable timestamps).map UInt64.toNat)[frame_start timestamps.length] ≤ x ∧
        x ≤ ((sort_unstable timestamps).map UInt64.toNat)[frame_end timestamps.length - 1] :=
    fun x hx => mem_slice_bounds hs hstart (by omega) (hframe_nat ▸ hx)
  have hsmall_frame : ∀ x ∈ frame.map UInt64.toNat, x < 2 ^ 60 := by
    intro x hx
    obtain ⟨t, ht, rfl⟩ := List.mem_map.mp hx
    exact hsmall t ((sort_unstable_perm timestamps).mem_iff.mp
      (List.mem_of_mem_take (List.mem_of_mem_drop (hframe ▸ ht))))
  -- the sum of at most eleven timestamps below `2 ^ 60`, and half the count, fit
  have hsum_le : (frame.map UInt64.toNat).sum ≤ f * 2 ^ 60 := by
    have h := List.sum_le_card_nsmul (frame.map UInt64.toNat) (2 ^ 60) fun x hx =>
      (hsmall_frame x hx).le
    rwa [List.length_map, hframe_len, smul_eq_mul] at h
  have hf_word : f.toUInt64.toNat = f := by
    rw [Nat.toUInt64_eq, UInt64.toNat_ofNat', Nat.mod_eq_of_lt (by omega)]
  have hhalf_word : (f.toUInt64 / 2).toNat = f / 2 := by
    rw [UInt64.toNat_div, hf_word]
    rfl
  have hsum_fits : (frame.map UInt64.toNat).sum < 2 ^ 64 := by omega
  have hsum_word : (frame.map UInt64.toNat).sum.toUInt64.toNat = (frame.map UInt64.toNat).sum := by
    rw [Nat.toUInt64_eq, UInt64.toNat_ofNat', Nat.mod_eq_of_lt hsum_fits]
  have htotal_fits :
      (frame.map UInt64.toNat).sum.toUInt64.toNat + (f.toUInt64 / 2).toNat < 2 ^ 64 := by
    rw [hsum_word, hhalf_word]
    omega
  have htotal_word : ((frame.map UInt64.toNat).sum.toUInt64 + f.toUInt64 / 2).toNat =
      (frame.map UInt64.toNat).sum + f / 2 := by
    rw [toNat_add_of_lt htotal_fits, hsum_word, hhalf_word]
  have hf_ne : f.toUInt64 ≠ 0 := fun h0 => by
    rw [h0, UInt64.toNat_zero] at hf_word
    omega
  -- the value, and where it lies
  have hr : (((frame.map UInt64.toNat).sum.toUInt64 + f.toUInt64 / 2) / f.toUInt64).toNat =
      ((frame.map UInt64.toNat).sum + f / 2) / f := by
    rw [UInt64.toNat_div, htotal_word, hf_word]
  have hframe_ne : frame.map UInt64.toNat ≠ [] := fun h => by
    rw [← List.length_eq_zero_iff, List.length_map] at h
    omega
  have hmean := rounded_mean_bounds hframe_ne (fun x hx => (hbounds x hx).1)
    (fun x hx => (hbounds x hx).2)
  have hcount : (frame.map UInt64.toNat).length = f := by rw [List.length_map, hframe_len]
  rw [hcount, ← hr] at hmean
  refine ⟨_, ?_, hr, ?_, ?_⟩
  · rw [calc_past_median_time_sampled_eq m hne hread, hf]
    have hslice : slice (sort_unstable timestamps) (frame_start timestamps.length)
        (frame_end timestamps.length) = .ok frame := by
      rw [slice, if_pos ⟨by omega, by omega⟩, hframe]
    simp only [hslice, ok_bind, u64_sum_eq, u64_of_sum, if_pos hsum_fits, u64_add_of_lt htotal_fits,
      u64_div, if_neg hf_ne, ok_mapError]
  · have hbelow := countP_lt_le hs (j := frame_end timestamps.length - 1) (by omega) hmean.2
    rw [countP_lt_eq]
    exact hbelow
  · have habove := countP_gt_le hs (i := frame_start timestamps.length) (by omega) hmean.1
    rw [countP_gt_eq]
    omega

theorem calc_past_median_time_sampled_spec_scrambled :
    scrambled_window ≠ [] ∧
      read_timestamps stamped_headers scrambled_window = .ok scrambled_timestamps ∧
      (∀ t ∈ scrambled_timestamps, t.toNat < 2 ^ 60) ∧
      ∃ r : UInt64,
        (⟨stamped_headers, 0⟩ : SampledPastMedianTimeManager ℕ).calc_past_median_time
          scrambled_window = .ok r ∧
        r.toNat = (((((sort_unstable scrambled_timestamps).take
            (frame_end scrambled_timestamps.length)).drop
            (frame_start scrambled_timestamps.length)).map UInt64.toNat).sum +
            min scrambled_timestamps.length AVERAGE_FRAME_SIZE / 2) /
          min scrambled_timestamps.length AVERAGE_FRAME_SIZE ∧
        scrambled_timestamps.countP (fun t => decide (t < r)) ≤
          frame_end scrambled_timestamps.length - 1 ∧
        scrambled_timestamps.countP (fun t => decide (r < t)) ≤
          scrambled_timestamps.length - 1 - frame_start scrambled_timestamps.length := by
  have hsmall : ∀ t ∈ scrambled_timestamps, t.toNat < 2 ^ 60 := by simp [scrambled_timestamps]
  exact ⟨by decide, by decide, hsmall,
    calc_past_median_time_sampled_spec ⟨stamped_headers, 0⟩ (by decide) (by decide) hsmall⟩

/-! ## The order of the window -/

/-- **THE ORDER OF THE WINDOW DOES NOT MATTER**: the window heap is iterated in
    no promised order, and both managers compute the same past median time, or
    stop at the same panic, from every ordering of the window. -/
theorem calc_past_median_time_perm {window window' : List (SortableBlock H)}
    (hperm : window.Perm window') :
    (∀ m : FullPastMedianTimeManager H,
        m.calc_past_median_time window = m.calc_past_median_time window') ∧
      ∀ m : SampledPastMedianTimeManager H,
        m.calc_past_median_time window = m.calc_past_median_time window' := by
  have hempty : window.isEmpty = window'.isEmpty := by
    rw [Bool.eq_iff_iff, List.isEmpty_iff, List.isEmpty_iff]
    constructor
    · intro h
      rw [h] at hperm
      exact hperm.symm.eq_nil
    · intro h
      rw [h] at hperm
      exact hperm.eq_nil
  -- both managers read the window with their store and then depend on the
  -- timestamps only through their sorted list
  constructor
  · intro m
    rcases @read_timestamps_perm H m.headers_store _ _ hperm with
      ⟨h₁, h₂⟩ | ⟨timestamps, timestamps', h₁, h₂, hp⟩
    · simp only [FullPastMedianTimeManager.calc_past_median_time, hempty, h₁, h₂, error_bind]
    · simp only [FullPastMedianTimeManager.calc_past_median_time, hempty, h₁, h₂, ok_bind,
        sort_unstable_eq_of_perm hp]
  · intro m
    rcases @read_timestamps_perm H m.headers_store _ _ hperm with
      ⟨h₁, h₂⟩ | ⟨timestamps, timestamps', h₁, h₂, hp⟩
    · simp only [SampledPastMedianTimeManager.calc_past_median_time, hempty, h₁, h₂, error_bind]
    · simp only [SampledPastMedianTimeManager.calc_past_median_time, hempty, h₁, h₂, ok_bind,
        sort_unstable_eq_of_perm hp]

theorem calc_past_median_time_perm_reversed :
    scrambled_window.Perm scrambled_window.reverse ∧
      (∀ m : FullPastMedianTimeManager ℕ, m.calc_past_median_time scrambled_window =
        m.calc_past_median_time scrambled_window.reverse) ∧
      ∀ m : SampledPastMedianTimeManager ℕ, m.calc_past_median_time scrambled_window =
        m.calc_past_median_time scrambled_window.reverse :=
  ⟨by decide, calc_past_median_time_perm (by decide)⟩

end KashPastMedianTime
