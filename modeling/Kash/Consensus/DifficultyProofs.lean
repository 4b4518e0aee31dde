import Kash.Consensus.Difficulty
import Kash.Consensus.CompactTargetProofs
import Kash.Consensus.IntervalProofs
import Kash.Math.UintOpsProofs

/-! # What the difficulty managers compute

    A window read from the header store has one difficulty block per entry, and
    blocks of one key are one block (`get_difficulty_blocks_key_inj`): the key of
    `DifficultyBlock::cmp` is the timestamp, the blue work and the hash, and the
    hash fixes the header. The lines both managers share remove the block of least
    key and average the targets of the others (`window_average_eq`); the average
    is exact in `Uint320` for every window of fewer than `2 ^ 64` blocks
    (`window_average_value`).

    The managers' results follow:

    * `calculate_difficulty_bits_sampled_exact` — the sampled manager returns the
      bits of the average target scaled by the measured over the expected
      duration and capped at `max_difficulty_target`, without a panic, whenever
      the expected duration is a positive `u64`;
    * `calculate_difficulty_bits_sampled_le_max` — its target never exceeds
      `max_difficulty_target` once the window is long enough;
    * `calculate_difficulty_bits_full_exact` — the full manager returns the bits
      of the same quotient when it is below `2 ^ 256`, and panics otherwise;
    * `calculate_difficulty_bits_perm` — neither depends on the order in which
      the window heap is iterated.

    The estimate of the hash rate is the spread of the blue work over the spread
    of the timestamps in whole seconds, or the reason there is none
    (`internal_estimate_network_hashes_per_second_spec`). The sampled manager's
    DAA score adds to the selected parent's the mergeset blocks within a full
    window of blue score, and the others are its non-DAA blocks
    (`calc_daa_score_and_mergeset_non_daa_blocks_spec`). -/

namespace KashDifficulty

open KashGhostdag KashMath KashScript MinMax ExceptLoops

variable {H : Type}

namespace DifficultyBlock

/-- The target the block's bits encode. -/
def target (b : DifficultyBlock H) : ℕ := from_compact_target_bits b.bits

/-- The target in `Uint320`, as `calculate_difficulty_bits` sums it. -/
def target_word (b : DifficultyBlock H) : Uint 5 := Uint.from_uint256 (Uint.of_nat b.target)

theorem to_nat_target_word (b : DifficultyBlock H) : b.target_word.to_nat = b.target := by
  rw [target_word, Uint.to_nat_from_uint256, Uint.to_nat_of_nat]
  exact Nat.mod_eq_of_lt (from_compact_target_bits_lt b.bits)

variable [LinearOrder H]

/-- What `DifficultyBlock::cmp` compares: the timestamp, then the sortable block. -/
def key (b : DifficultyBlock H) : ℕ ×ₗ (ℕ ×ₗ H) := toLex (b.timestamp.toNat, b.sortable_block.key)

theorem lt_on_key : LtOnKey key (DifficultyBlock.lt (H := H)) := by
  intro a b
  rw [DifficultyBlock.lt, beq_iff_eq, DifficultyBlock.cmp, Ordering.then_eq_lt, key, key,
    Prod.Lex.toLex_lt_toLex, UInt64.compare_eq_toNat_compare_toNat, compare_lt_iff_lt,
    compare_eq_iff_eq, SortableBlock.cmp_eq_compare, compare_lt_iff_lt]

theorem timestamp_le_of_key_le {a b : DifficultyBlock H} (h : a.key ≤ b.key) :
    a.timestamp ≤ b.timestamp := by
  rw [UInt64.le_iff_toNat_le]
  rcases Prod.Lex.toLex_le_toLex.mp h with h | ⟨h, -⟩
  · exact h.le
  · exact h.le

end DifficultyBlock

open DifficultyBlock

/-! ## Reading the window -/

section Read

variable {headers_store : H → Option CompactHeaderData}

/-- One window entry read: the entry with its header's timestamp and bits. -/
theorem read_entry_eq_ok {item : SortableBlock H} {b : DifficultyBlock H} :
    (do
        let data ← get_compact_header_data headers_store item.hash
        pure (⟨data.timestamp, data.bits, item⟩ : DifficultyBlock H)) = .ok b ↔
      ∃ data, headers_store item.hash = some data ∧ b = ⟨data.timestamp, data.bits, item⟩ := by
  unfold get_compact_header_data
  cases headers_store item.hash with
  | none => exact ⟨fun h => (nomatch h), fun ⟨_, h, _⟩ => (nomatch h)⟩
  | some data =>
      constructor
      · intro h
        cases h
        exact ⟨data, rfl, rfl⟩
      · rintro ⟨_, ⟨⟩, rfl⟩
        rfl

/-- A read window is its entries, each with the timestamp and the bits of the
    header stored under its hash. -/
theorem get_difficulty_blocks_spec {window : List (SortableBlock H)}
    {blocks : List (DifficultyBlock H)} (h : get_difficulty_blocks headers_store window = .ok blocks) :
    blocks.map (·.sortable_block) = window ∧
      ∀ b ∈ blocks, ∃ data, headers_store b.sortable_block.hash = some data ∧
        b.timestamp = data.timestamp ∧ b.bits = data.bits := by
  have hall := (mapM_eq_ok _ window blocks).mp h
  induction hall with
  | nil => exact ⟨rfl, fun _ h => absurd h List.not_mem_nil⟩
  | @cons item b window blocks hb _ ih =>
      obtain ⟨data, hdata, rfl⟩ := read_entry_eq_ok.mp hb
      obtain ⟨hmap, hrest⟩ := ih ((mapM_eq_ok _ _ _).mpr ‹_›)
      refine ⟨by rw [List.map_cons, hmap], fun b' hb' => ?_⟩
      rcases List.mem_cons.mp hb' with rfl | hb'
      · exact ⟨data, hdata, rfl, rfl⟩
      · exact hrest b' hb'

theorem length_get_difficulty_blocks {window : List (SortableBlock H)}
    {blocks : List (DifficultyBlock H)} (h : get_difficulty_blocks headers_store window = .ok blocks) :
    blocks.length = window.length := by
  rw [← (get_difficulty_blocks_spec h).1, List.length_map]

/-- **ONE KEY, ONE BLOCK**: two blocks of a read window with one key are one
    block, since the hash fixes the header. -/
theorem get_difficulty_blocks_key_inj {window : List (SortableBlock H)}
    {blocks : List (DifficultyBlock H)} (h : get_difficulty_blocks headers_store window = .ok blocks) :
    ∀ a ∈ blocks, ∀ b ∈ blocks, a.key = b.key → a = b := by
  intro a ha b hb hkey
  obtain ⟨hts, hsb⟩ := Prod.mk.inj (toLex_inj.mp hkey)
  have hsame : a.sortable_block = b.sortable_block := SortableBlock.key_injective hsb
  obtain ⟨da, hda, -, hbits_a⟩ := (get_difficulty_blocks_spec h).2 a ha
  obtain ⟨db, hdb, -, hbits_b⟩ := (get_difficulty_blocks_spec h).2 b hb
  have hdata : da = db := Option.some.inj (hda.symm.trans (hsame ▸ hdb))
  obtain ⟨ta, ba, sa⟩ := a
  obtain ⟨tb, bb, sb⟩ := b
  dsimp only at hts hsame hbits_a hbits_b
  rw [UInt64.toNat_inj.mp hts, hsame, hbits_a, hbits_b, hdata]

/-- A window and a reordering of it read alike: both fail on a missing header, or
    both give the same blocks in the reordered order. -/
theorem get_difficulty_blocks_perm {window window' : List (SortableBlock H)}
    (h : window.Perm window') :
    (get_difficulty_blocks headers_store window = .error .missing_entry ∧
        get_difficulty_blocks headers_store window' = .error .missing_entry) ∨
      ∃ blocks blocks', get_difficulty_blocks headers_store window = .ok blocks ∧
        get_difficulty_blocks headers_store window' = .ok blocks' ∧ blocks.Perm blocks' := by
  refine mapM_perm (fun item e he => ?_) h
  unfold get_compact_header_data at he
  cases hread : headers_store item.hash with
  | none =>
      rw [hread] at he
      cases he
      rfl
  | some data =>
      rw [hread] at he
      cases he

end Read

/-! ## The shared average -/

section Order

variable [LinearOrder H]

/-- **THE SHARED LINES**: on a nonempty list of blocks, `window_average` removes
    a block of least key, takes the timestamps of it and of a block of greatest
    key, and divides the `Uint320` sum of the other targets by their number. -/
theorem window_average_eq {blocks : List (DifficultyBlock H)} (hne : blocks ≠ []) :
    ∃ first ∈ blocks, ∃ last ∈ blocks, (∀ b ∈ blocks, first.key ≤ b.key ∧ b.key ≤ last.key) ∧
      ∃ rest, blocks.Perm (first :: rest) ∧
        window_average blocks = (do
          let average_target ← ((Uint.sum (rest.map target_word)).div_u64
            rest.length.toUInt64).mapError .panics
          pure ⟨first.timestamp, last.timestamp, rest.length.toUInt64, average_target⟩) := by
  obtain ⟨i, j, hij⟩ : ∃ i j, position_minmax DifficultyBlock.lt blocks = some (i, j) :=
    position_minmax_isSome hne
  obtain ⟨hi, hj, hext⟩ := position_minmax_spec lt_on_key hij
  obtain ⟨rest, hremove, hperm⟩ := swap_remove_perm hi
  refine ⟨blocks[i], List.getElem_mem hi, blocks[j], List.getElem_mem hj, hext, rest, hperm, ?_⟩
  simp only [window_average, hij, unwrap, index, List.getElem?_eq_getElem hi,
    List.getElem?_eq_getElem hj, remove_at, hremove, ok_bind]
  rfl

end Order

theorem sum_target_words_perm {rest rest' : List (DifficultyBlock H)} (h : rest.Perm rest') :
    Uint.sum (rest.map target_word) = Uint.sum (rest'.map target_word) :=
  Uint.to_nat_inj (by rw [Uint.to_nat_sum, Uint.to_nat_sum, ((h.map _).map _).sum_eq])

/-- Fewer than `2 ^ 64` targets, each below `2 ^ 256`, sum in `Uint320` without
    wrapping. -/
theorem to_nat_sum_target_words {rest : List (DifficultyBlock H)} (hlen : rest.length < 2 ^ 64) :
    (Uint.sum (rest.map target_word)).to_nat = (rest.map target).sum := by
  have hmap : (rest.map target_word).map Uint.to_nat = rest.map target := by
    rw [List.map_map]
    exact List.map_congr_left fun b _ => to_nat_target_word b
  have hle : (rest.map target).sum ≤ rest.length * (2 ^ 256 - 1) := by
    have h := List.sum_le_card_nsmul (rest.map target) (2 ^ 256 - 1) fun t ht => by
      obtain ⟨b, -, rfl⟩ := List.mem_map.mp ht
      exact Nat.le_sub_one_of_lt (from_compact_target_bits_lt b.bits)
    rwa [List.length_map, smul_eq_mul] at h
  have hlt : (rest.map target).sum < 2 ^ Uint.BITS 5 :=
    calc (rest.map target).sum ≤ rest.length * (2 ^ 256 - 1) := hle
      _ < 2 ^ 64 * 2 ^ 256 := Nat.mul_lt_mul_of_lt_of_le hlen (by norm_num) (by norm_num)
      _ = 2 ^ Uint.BITS 5 := by rw [← pow_add, Uint.BITS]
  rw [Uint.to_nat_sum, hmap, Nat.mod_eq_of_lt hlt]

variable [LinearOrder H] in
/-- **THE AVERAGE IS EXACT**: for two blocks to `2 ^ 64`, `window_average`
    returns the least and the greatest timestamp and the average target of the
    blocks other than the one of least key, which is below `2 ^ 256`. -/
theorem window_average_value {blocks : List (DifficultyBlock H)} (h2 : 2 ≤ blocks.length)
    (hlen : blocks.length ≤ 2 ^ 64) :
    ∃ first ∈ blocks, ∃ last ∈ blocks, (∀ b ∈ blocks, first.key ≤ b.key ∧ b.key ≤ last.key) ∧
      ∃ average_target : Uint 5,
        window_average blocks =
          .ok ⟨first.timestamp, last.timestamp, (blocks.length - 1).toUInt64, average_target⟩ ∧
        average_target.to_nat = ((blocks.map target).sum - first.target) / (blocks.length - 1) ∧
        average_target.to_nat < 2 ^ 256 := by
  have hne : blocks ≠ [] := List.ne_nil_of_length_pos (by omega)
  obtain ⟨first, hfirst, last, hlast, hext, rest, hperm, heq⟩ := window_average_eq hne
  have hrest : rest.length = blocks.length - 1 := by
    rw [hperm.length_eq, List.length_cons, Nat.add_sub_cancel]
  -- the sum of all targets is the removed one's and the others'
  have hsum : (rest.map target).sum = (blocks.map target).sum - first.target := by
    rw [(hperm.map target).sum_eq, List.map_cons, List.sum_cons, Nat.add_sub_cancel_left]
  have hlen_word : rest.length.toUInt64.toNat = rest.length := by
    rw [Nat.toUInt64_eq, UInt64.toNat_ofNat', Nat.mod_eq_of_lt (by omega)]
  have hne_word : rest.length.toUInt64 ≠ 0 := fun h0 => by
    rw [h0, UInt64.toNat_zero] at hlen_word
    omega
  obtain ⟨average_target, hdiv, havg⟩ := Uint.div_u64_value (Uint.sum (rest.map target_word)) hne_word
  rw [to_nat_sum_target_words (by omega), hlen_word, hsum, hrest] at havg
  refine ⟨first, hfirst, last, hlast, hext, average_target, ?_, havg, ?_⟩
  · rw [heq, hdiv, ← hrest]
    rfl
  · -- an average of targets below `2 ^ 256` is below `2 ^ 256`
    rw [havg, Nat.div_lt_iff_lt_mul (by omega), ← hsum, ← hrest]
    calc (rest.map target).sum ≤ rest.length * (2 ^ 256 - 1) := by
          have h := List.sum_le_card_nsmul (rest.map target) (2 ^ 256 - 1) fun t ht => by
            obtain ⟨b, -, rfl⟩ := List.mem_map.mp ht
            exact Nat.le_sub_one_of_lt (from_compact_target_bits_lt b.bits)
          rwa [List.length_map, smul_eq_mul] at h
      _ < 2 ^ 256 * rest.length := by
          rw [Nat.mul_comm]
          exact Nat.mul_lt_mul_of_pos_right (by norm_num) (by omega)


/-! ## The managers -/

theorem toNat_max_one (d : UInt64) : (max d 1).toNat = max d.toNat 1 := by
  rw [UInt64.toNat_max, UInt64.toNat_one]

/-- A window of `u64` length: its count less one, as a `u64`. -/
theorem toNat_count (n : ℕ) (hn : n ≤ 2 ^ 64) : (n - 1).toUInt64.toNat = n - 1 := by
  rw [Nat.toUInt64_eq, UInt64.toNat_ofNat', Nat.mod_eq_of_lt (by omega)]

/-- The average target times a `u64` duration, divided by a nonzero `u64`: exact
    in `Uint320`, as the average is below `2 ^ 256`. -/
theorem scaled_target_value {average_target : Uint 5} (havg : average_target.to_nat < 2 ^ 256)
    (measured : UInt64) {expected : UInt64} (hexp : expected ≠ 0) :
    ∃ new_target : Uint 5, (average_target.mul_u64 measured).div_u64 expected = .ok new_target ∧
      new_target.to_nat = average_target.to_nat * measured.toNat / expected.toNat := by
  have hprod : (average_target.mul_u64 measured).to_nat = average_target.to_nat * measured.toNat := by
    rw [Uint.to_nat_mul_u64, Nat.mod_eq_of_lt]
    calc average_target.to_nat * measured.toNat < 2 ^ 256 * 2 ^ 64 :=
          Nat.mul_lt_mul'' havg measured.toNat_lt
      _ = 2 ^ Uint.BITS 5 := by rw [← pow_add, Uint.BITS]
  obtain ⟨q, hq, hqv⟩ := Uint.div_u64_value (average_target.mul_u64 measured) hexp
  exact ⟨q, hq, by rw [hqv, hprod]⟩

theorem two_le_of_window_len_ok {size len : ℕ} (h : check_min_difficulty_window_len size len) :
    2 ≤ len :=
  le_trans (by decide) h.1

/-- The new target in numbers: the average target of the blocks other than
    `first`, times the measured duration from `first` to `last` (at least one),
    over the expected duration. -/
def retarget (blocks : List (DifficultyBlock H)) (first last : DifficultyBlock H) (expected : ℕ) : ℕ :=
  ((blocks.map target).sum - first.target) / (blocks.length - 1) *
    max (last.timestamp.toNat - first.timestamp.toNat) 1 / expected

/-! ### Two windows of ten headers

    One header a second at the bits `0x1d00ffff`, read by a sampled manager of
    one block a second capped at `2 ^ 255`; and one header every three seconds at
    the bits `0x207fffff`, whose target is just below `2 ^ 255`, read by a full
    manager of one block a second. -/

def steady_headers (hash : ℕ) : Option CompactHeaderData :=
  some ⟨0, (1000 * hash).toUInt64, 0x1d00ffff⟩

def ten_blocks_window : List (SortableBlock ℕ) := (List.range 10).map fun i => ⟨i, i⟩

def steady_blocks : List (DifficultyBlock ℕ) :=
  (List.range 10).map fun i => ⟨(1000 * i).toUInt64, 0x1d00ffff, ⟨i, i⟩⟩

def steady_sampled : SampledDifficultyManager ℕ where
  headers_store := steady_headers
  genesis_bits := 0x1d00ffff
  max_difficulty_target := Uint.of_nat (2 ^ 255)
  difficulty_window_size := 10
  min_difficulty_window_len := 10
  difficulty_sample_rate := 1
  target_time_per_block := 1000
  window_len_ok := by decide
  max_difficulty_target_fits := by
    rw [Uint.to_nat_of_nat, Nat.mod_eq_of_lt (Nat.pow_lt_pow_right (by norm_num) (by decide))]
    exact Nat.pow_lt_pow_right (by norm_num) (by norm_num)

def slow_headers (hash : ℕ) : Option CompactHeaderData :=
  some ⟨0, (3000 * hash).toUInt64, 0x207fffff⟩

def slow_blocks : List (DifficultyBlock ℕ) :=
  (List.range 10).map fun i => ⟨(3000 * i).toUInt64, 0x207fffff, ⟨i, i⟩⟩

def slow_full : FullDifficultyManager ℕ where
  headers_store := slow_headers
  genesis_bits := 0x207fffff
  difficulty_window_size := 10
  min_difficulty_window_len := 10
  target_time_per_block := 1000
  window_len_ok := by decide

section Managers

variable [LinearOrder H] {window : List (SortableBlock H)} {blocks : List (DifficultyBlock H)}

/-- **THE SHARED COMPUTATION IN NUMBERS**: for two blocks to `2 ^ 64`, the lines
    both managers share succeed, the duration subtraction cannot go below zero,
    and for every nonzero expected duration the scaled target is `retarget`. -/
theorem window_retarget (h2 : 2 ≤ blocks.length) (hlen : blocks.length ≤ 2 ^ 64) :
    ∃ first ∈ blocks, ∃ last ∈ blocks,
      (∀ b ∈ blocks, first.key ≤ b.key ∧ b.timestamp ≤ last.timestamp) ∧
      ∃ w : WindowAverage, window_average blocks = .ok w ∧
        w.difficulty_blocks_len.toNat = blocks.length - 1 ∧
        KashReachability.u64_sub w.max_ts w.min_ts = .ok (w.max_ts - w.min_ts) ∧
        ∀ expected : UInt64, expected ≠ 0 → ∃ new_target : Uint 5,
          (w.average_target.mul_u64 (max (w.max_ts - w.min_ts) 1)).div_u64 expected =
              .ok new_target ∧
            new_target.to_nat = retarget blocks first last expected.toNat := by
  obtain ⟨first, hfirst, last, hlast, hext, avg, hw, havg, havg_lt⟩ := window_average_value h2 hlen
  refine ⟨first, hfirst, last, hlast,
    fun b hb => ⟨(hext b hb).1, timestamp_le_of_key_le (hext b hb).2⟩, _, hw,
    toNat_count blocks.length hlen, ?_, fun expected hexp => ?_⟩
  · exact KashReachability.u64_sub_of_le
      (UInt64.le_iff_toNat_le.mp (timestamp_le_of_key_le (hext last hlast).1))
  · have hts := UInt64.le_iff_toNat_le.mp (timestamp_le_of_key_le (hext last hlast).1)
    obtain ⟨new_target, hnew, hval⟩ :=
      scaled_target_value havg_lt (max (last.timestamp - first.timestamp) 1) hexp
    refine ⟨new_target, hnew, ?_⟩
    rw [hval, toNat_max_one, UInt64.toNat_sub_of_le _ _ (UInt64.le_iff_toNat_le.mpr hts), havg]
    rfl

/-- **THE SAMPLED DIFFICULTY**: once the window is long enough, the sampled manager
    returns, without a panic, the bits of the average target of the window
    without its earliest block, times the measured duration over the expected
    one, capped at `max_difficulty_target` — when the expected duration is a
    positive `u64`. -/
theorem calculate_difficulty_bits_sampled_exact (m : SampledDifficultyManager H)
    (hblocks : get_difficulty_blocks m.headers_store window = .ok blocks)
    (hfull : m.min_difficulty_window_len ≤ blocks.length) (hlen : blocks.length ≤ 2 ^ 64)
    (hexpected : 0 < m.target_time_per_block.toNat * m.difficulty_sample_rate.toNat *
      (blocks.length - 1))
    (hfits : m.target_time_per_block.toNat * m.difficulty_sample_rate.toNat *
      (blocks.length - 1) < 2 ^ 64) :
    ∃ first ∈ blocks, ∃ last ∈ blocks,
      (∀ b ∈ blocks, first.key ≤ b.key ∧ b.timestamp ≤ last.timestamp) ∧
      m.calculate_difficulty_bits window = .ok (compact_target_bits (min
        (retarget blocks first last
          (m.target_time_per_block.toNat * m.difficulty_sample_rate.toNat * (blocks.length - 1)))
        m.max_difficulty_target.to_nat)) := by
  have h2 := le_trans (two_le_of_window_len_ok m.window_len_ok) hfull
  obtain ⟨first, hfirst, last, hlast, hext, w, hw, hcount, hsub, hnew⟩ := window_retarget h2 hlen
  refine ⟨first, hfirst, last, hlast, hext, ?_⟩
  -- the expected duration: both `u64` products fit
  have hrate : m.target_time_per_block.toNat * m.difficulty_sample_rate.toNat < 2 ^ 64 :=
    lt_of_le_of_lt (Nat.le_mul_of_pos_right _ (by omega)) hfits
  have hfits' : (m.target_time_per_block * m.difficulty_sample_rate).toNat *
      w.difficulty_blocks_len.toNat < 2 ^ 64 := by
    rw [toNat_mul_of_lt hrate, hcount]
    exact hfits
  have hexp_nat := toNat_mul_of_lt hfits'
  rw [toNat_mul_of_lt hrate, hcount] at hexp_nat
  obtain ⟨new_target, hdiv, hval⟩ :=
    hnew (m.target_time_per_block * m.difficulty_sample_rate * w.difficulty_blocks_len) fun h0 => by
      rw [h0, UInt64.toNat_zero] at hexp_nat
      omega
  -- the cap keeps the target below `2 ^ 256`, so the narrowing succeeds
  have hcap := Uint.to_nat_min new_target m.max_difficulty_target
  obtain ⟨target, htry, htarget⟩ :=
    (Uint.try_from_uint320_value (new_target.min m.max_difficulty_target)).1
      (by rw [hcap]; exact lt_of_le_of_lt (min_le_right _ _) m.max_difficulty_target_fits)
  simp only [SampledDifficultyManager.calculate_difficulty_bits, hblocks, ok_bind,
    if_neg (not_lt.mpr hfull), hw, hsub, ok_mapError, u64_mul_of_lt hrate, u64_mul_of_lt hfits',
    hdiv, htry]
  rw [htarget, hcap, hval, hexp_nat]
  rfl

theorem calculate_difficulty_bits_sampled_exact_steady :
    get_difficulty_blocks steady_sampled.headers_store ten_blocks_window = .ok steady_blocks ∧
      steady_sampled.min_difficulty_window_len ≤ steady_blocks.length ∧
      steady_blocks.length ≤ 2 ^ 64 ∧
      0 < steady_sampled.target_time_per_block.toNat * steady_sampled.difficulty_sample_rate.toNat *
        (steady_blocks.length - 1) ∧
      steady_sampled.target_time_per_block.toNat * steady_sampled.difficulty_sample_rate.toNat *
        (steady_blocks.length - 1) < 2 ^ 64 ∧
      ∃ first ∈ steady_blocks, ∃ last ∈ steady_blocks,
        (∀ b ∈ steady_blocks, first.key ≤ b.key ∧ b.timestamp ≤ last.timestamp) ∧
        steady_sampled.calculate_difficulty_bits ten_blocks_window = .ok (compact_target_bits (min
          (retarget steady_blocks first last (steady_sampled.target_time_per_block.toNat *
            steady_sampled.difficulty_sample_rate.toNat * (steady_blocks.length - 1)))
          steady_sampled.max_difficulty_target.to_nat)) :=
  ⟨by decide, by decide, by decide, by decide, by decide,
    calculate_difficulty_bits_sampled_exact steady_sampled (by decide) (by decide) (by decide)
      (by decide) (by decide)⟩

/-- **THE FULL DIFFICULTY**: once the window is long enough, the full manager
    returns the bits of the same quotient over its expected duration when it is
    below `2 ^ 256`, and panics at its `expect` when it is not — when the
    expected duration is a positive `u64`. -/
theorem calculate_difficulty_bits_full_exact (m : FullDifficultyManager H)
    (hblocks : get_difficulty_blocks m.headers_store window = .ok blocks)
    (hfull : m.min_difficulty_window_len ≤ blocks.length) (hlen : blocks.length ≤ 2 ^ 64)
    (hexpected : 0 < m.target_time_per_block.toNat * (blocks.length - 1))
    (hfits : m.target_time_per_block.toNat * (blocks.length - 1) < 2 ^ 64) :
    ∃ first ∈ blocks, ∃ last ∈ blocks,
      (∀ b ∈ blocks, first.key ≤ b.key ∧ b.timestamp ≤ last.timestamp) ∧
      m.calculate_difficulty_bits window =
        if retarget blocks first last (m.target_time_per_block.toNat * (blocks.length - 1)) < 2 ^ 256
        then .ok (compact_target_bits
          (retarget blocks first last (m.target_time_per_block.toNat * (blocks.length - 1))))
        else .error .target_exceeds_256_bits := by
  have h2 := le_trans (two_le_of_window_len_ok m.window_len_ok) hfull
  obtain ⟨first, hfirst, last, hlast, hext, w, hw, hcount, hsub, hnew⟩ := window_retarget h2 hlen
  refine ⟨first, hfirst, last, hlast, hext, ?_⟩
  have hfits' : m.target_time_per_block.toNat * w.difficulty_blocks_len.toNat < 2 ^ 64 := by
    rw [hcount]
    exact hfits
  have hexp_nat := toNat_mul_of_lt hfits'
  rw [hcount] at hexp_nat
  obtain ⟨new_target, hdiv, hval⟩ :=
    hnew (m.target_time_per_block * w.difficulty_blocks_len) fun h0 => by
      rw [h0, UInt64.toNat_zero] at hexp_nat
      omega
  rw [hexp_nat] at hval
  simp only [FullDifficultyManager.calculate_difficulty_bits, hblocks, ok_bind,
    if_neg (not_lt.mpr hfull), hw, hsub, ok_mapError, u64_mul_of_lt hfits', hdiv]
  -- the narrowing decides between the bits and the panic
  obtain ⟨hfit, hnofit⟩ := Uint.try_from_uint320_value new_target
  split_ifs with hlt
  · obtain ⟨target, htry, htarget⟩ := hfit (hval ▸ hlt)
    rw [htry]
    show pure (compact_target_bits target.to_nat) = _
    rw [htarget, hval]
    rfl
  · rw [hnofit (hval ▸ not_lt.mp hlt)]
    rfl

/-- The full manager's `expect` is reached: three times the average target of
    the slow window is past `2 ^ 256`. -/
theorem calculate_difficulty_bits_full_exact_slow :
    get_difficulty_blocks slow_full.headers_store ten_blocks_window = .ok slow_blocks ∧
      slow_full.min_difficulty_window_len ≤ slow_blocks.length ∧ slow_blocks.length ≤ 2 ^ 64 ∧
      0 < slow_full.target_time_per_block.toNat * (slow_blocks.length - 1) ∧
      slow_full.target_time_per_block.toNat * (slow_blocks.length - 1) < 2 ^ 64 ∧
      (∃ first ∈ slow_blocks, ∃ last ∈ slow_blocks,
        (∀ b ∈ slow_blocks, first.key ≤ b.key ∧ b.timestamp ≤ last.timestamp) ∧
        slow_full.calculate_difficulty_bits ten_blocks_window =
          if retarget slow_blocks first last
              (slow_full.target_time_per_block.toNat * (slow_blocks.length - 1)) < 2 ^ 256
          then .ok (compact_target_bits (retarget slow_blocks first last
            (slow_full.target_time_per_block.toNat * (slow_blocks.length - 1))))
          else .error .target_exceeds_256_bits) ∧
      slow_full.calculate_difficulty_bits ten_blocks_window = .error .target_exceeds_256_bits :=
  ⟨by decide, by decide, by decide, by decide, by decide,
    calculate_difficulty_bits_full_exact slow_full (by decide) (by decide) (by decide) (by decide)
      (by decide), by decide +kernel⟩

/-- **NEVER ABOVE THE MAXIMAL TARGET**: once the window is long enough, every
    bits the sampled manager returns decode to a target no larger than
    `max_difficulty_target`. -/
theorem calculate_difficulty_bits_sampled_le_max (m : SampledDifficultyManager H) {bits : UInt32}
    (hfull : m.min_difficulty_window_len ≤ window.length)
    (h : m.calculate_difficulty_bits window = .ok bits) :
    from_compact_target_bits bits ≤ m.max_difficulty_target.to_nat := by
  unfold SampledDifficultyManager.calculate_difficulty_bits at h
  obtain ⟨blocks, hblocks, h⟩ := (bind_eq_ok _ _ _).mp h
  rw [if_neg (not_lt.mpr (by rw [length_get_difficulty_blocks hblocks]; exact hfull))] at h
  obtain ⟨w, -, h⟩ := (bind_eq_ok _ _ _).mp h
  obtain ⟨d, -, h⟩ := (bind_eq_ok _ _ _).mp h
  obtain ⟨expected, -, h⟩ := (bind_eq_ok _ _ _).mp h
  obtain ⟨new_target, -, h⟩ := (bind_eq_ok _ _ _).mp h
  -- what is left is the narrowing of the capped target, which fits
  have hcap := Uint.to_nat_min new_target m.max_difficulty_target
  have hlt : (new_target.min m.max_difficulty_target).to_nat < 2 ^ 256 := by
    rw [hcap]
    exact lt_of_le_of_lt (min_le_right _ _) m.max_difficulty_target_fits
  obtain ⟨target, htry, htarget⟩ := (Uint.try_from_uint320_value _).1 hlt
  rw [htry] at h
  change Except.ok (compact_target_bits target.to_nat) = Except.ok bits at h
  cases h
  calc from_compact_target_bits (compact_target_bits target.to_nat) ≤ target.to_nat :=
        from_compact_target_bits_le (htarget ▸ hlt)
    _ = min new_target.to_nat m.max_difficulty_target.to_nat := by rw [htarget, hcap]
    _ ≤ m.max_difficulty_target.to_nat := min_le_right _ _

theorem calculate_difficulty_bits_sampled_le_max_steady :
    steady_sampled.min_difficulty_window_len ≤ ten_blocks_window.length ∧
      steady_sampled.calculate_difficulty_bits ten_blocks_window = .ok 0x1d00ffff ∧
      from_compact_target_bits 0x1d00ffff ≤ steady_sampled.max_difficulty_target.to_nat := by
  have h : steady_sampled.calculate_difficulty_bits ten_blocks_window = .ok 0x1d00ffff := by
    decide +kernel
  exact ⟨by decide, h, calculate_difficulty_bits_sampled_le_max steady_sampled (by decide) h⟩

/-- A read window and a reordering of it give the same shared values: the block
    of least key is one block, as is the one of greatest key, and the others are
    the same up to order. -/
theorem window_average_perm {blocks blocks' : List (DifficultyBlock H)} (hperm : blocks.Perm blocks')
    (hinj : ∀ a ∈ blocks, ∀ b ∈ blocks, a.key = b.key → a = b) (hne : blocks ≠ []) :
    window_average blocks = window_average blocks' := by
  have hne' : blocks' ≠ [] := fun h => hne (List.Perm.eq_nil (h ▸ hperm))
  obtain ⟨first, hfirst, last, hlast, hext, rest, hrest, heq⟩ := window_average_eq hne
  obtain ⟨first', hfirst', last', hlast', hext', rest', hrest', heq'⟩ := window_average_eq hne'
  have hfirst'_mem : first' ∈ blocks := hperm.mem_iff.mpr hfirst'
  have hlast'_mem : last' ∈ blocks := hperm.mem_iff.mpr hlast'
  have hsame_first : first = first' :=
    hinj _ hfirst _ hfirst'_mem (key_eq_of_least hperm hfirst hfirst'
      (fun x hx => (hext x hx).1) (fun x hx => (hext' x hx).1))
  have hsame_last : last = last' :=
    hinj _ hlast _ hlast'_mem (key_eq_of_greatest hperm hlast hlast'
      (fun x hx => (hext x hx).2) (fun x hx => (hext' x hx).2))
  subst hsame_first hsame_last
  -- what is left after the removed block is the same up to order
  have hrest_perm : rest.Perm rest' := ((hrest.symm.trans hperm).trans hrest').cons_inv
  rw [heq, heq', hrest_perm.length_eq, sum_target_words_perm hrest_perm]

/-- **THE ORDER OF THE WINDOW DOES NOT MATTER**: the window heap is iterated in
    no promised order, and both managers compute the same bits, or stop at the
    same panic, from every ordering of the window. -/
theorem calculate_difficulty_bits_perm {window' : List (SortableBlock H)}
    (hperm : window.Perm window') :
    (∀ m : FullDifficultyManager H,
        m.calculate_difficulty_bits window = m.calculate_difficulty_bits window') ∧
      ∀ m : SampledDifficultyManager H,
        m.calculate_difficulty_bits window = m.calculate_difficulty_bits window' := by
  -- both managers read the window with the same store and then depend on the
  -- blocks only through their number and `window_average`
  have hread : ∀ headers_store : H → Option CompactHeaderData, ∀ min_len : ℕ,
      10 ≤ min_len →
      (get_difficulty_blocks headers_store window = .error .missing_entry ∧
          get_difficulty_blocks headers_store window' = .error .missing_entry) ∨
        ∃ blocks blocks', get_difficulty_blocks headers_store window = .ok blocks ∧
          get_difficulty_blocks headers_store window' = .ok blocks' ∧
          blocks.length = blocks'.length ∧
          (min_len ≤ blocks.length → window_average blocks = window_average blocks') := by
    intro headers_store min_len hmin
    rcases @get_difficulty_blocks_perm H headers_store _ _ hperm with
      hboth | ⟨blocks, blocks', h₁, h₂, hp⟩
    · exact Or.inl hboth
    · refine Or.inr ⟨blocks, blocks', h₁, h₂, hp.length_eq, fun hlong => ?_⟩
      exact window_average_perm hp (get_difficulty_blocks_key_inj h₁)
        (List.ne_nil_of_length_pos (by omega))
  constructor
  · intro m
    rcases hread m.headers_store m.min_difficulty_window_len m.window_len_ok.1 with
      ⟨h₁, h₂⟩ | ⟨blocks, blocks', h₁, h₂, hlen, hw⟩
    · simp only [FullDifficultyManager.calculate_difficulty_bits, h₁, h₂, error_bind]
    · simp only [FullDifficultyManager.calculate_difficulty_bits, h₁, h₂, ok_bind, ← hlen]
      split_ifs with hshort
      · rfl
      · rw [hw (not_lt.mp hshort)]
  · intro m
    rcases hread m.headers_store m.min_difficulty_window_len m.window_len_ok.1 with
      ⟨h₁, h₂⟩ | ⟨blocks, blocks', h₁, h₂, hlen, hw⟩
    · simp only [SampledDifficultyManager.calculate_difficulty_bits, h₁, h₂, error_bind]
    · simp only [SampledDifficultyManager.calculate_difficulty_bits, h₁, h₂, ok_bind, ← hlen]
      split_ifs with hshort
      · rfl
      · rw [hw (not_lt.mp hshort)]

theorem calculate_difficulty_bits_perm_reversed :
    ten_blocks_window.Perm ten_blocks_window.reverse ∧
      (∀ m : FullDifficultyManager ℕ, m.calculate_difficulty_bits ten_blocks_window =
        m.calculate_difficulty_bits ten_blocks_window.reverse) ∧
      ∀ m : SampledDifficultyManager ℕ, m.calculate_difficulty_bits ten_blocks_window =
        m.calculate_difficulty_bits ten_blocks_window.reverse :=
  ⟨by decide, calculate_difficulty_bits_perm (by decide)⟩

end Managers

/-! ## The estimate of the hash rate -/

section HashRate

variable {headers_store : H → Option CompactHeaderData} {window : List (SortableBlock H)}
  {blocks : List (DifficultyBlock H)}

/-- The scan for the least and the greatest value of a field of the blocks ends on
    the fields of two blocks, between which every block's field lies. -/
theorem minmax_by_field_spec {β : Type} [LinearOrder β] {γ : Type} (g : DifficultyBlock H → γ)
    (key : γ → β) {lt : γ → γ → Bool} (hlt : LtOnKey key lt) (hne : blocks ≠ []) :
    ∃ low ∈ blocks, ∃ high ∈ blocks, minmax_by lt (blocks.map g) = some (g low, g high) ∧
      ∀ b ∈ blocks, key (g low) ≤ key (g b) ∧ key (g b) ≤ key (g high) := by
  obtain ⟨lo, hi, hscan⟩ : ∃ lo hi, minmax_by lt (blocks.map g) = some (lo, hi) :=
    minmax_by_isSome fun h => hne (List.map_eq_nil_iff.mp h)
  obtain ⟨hlo, hhi, hall⟩ := minmax_by_spec hlt hscan
  obtain ⟨low, hlow, rfl⟩ := List.mem_map.mp hlo
  obtain ⟨high, hhigh, rfl⟩ := List.mem_map.mp hhi
  exact ⟨low, hlow, high, hhigh, hscan, fun b hb => hall (g b) (List.mem_map_of_mem hb)⟩

theorem lt_on_toNat : LtOnKey UInt64.toNat fun a b : UInt64 => decide (a < b) := fun _ _ =>
  decide_eq_true_iff.trans UInt64.lt_iff_toNat_lt

theorem lt_on_id : LtOnKey id fun a b : ℕ => decide (a < b) := fun _ _ => decide_eq_true_iff

/-- **THE HASH RATE**: on a nonempty read window, the estimate is refused under
    `MIN_WINDOW_SIZE` blocks and when every timestamp is one, and is otherwise
    the spread of the blue work over the spread of the timestamps in whole
    seconds (zero below a second), cut to its low 64 bits; nothing panics. -/
theorem internal_estimate_network_hashes_per_second_spec (hne : window ≠ [])
    (hblocks : get_difficulty_blocks headers_store window = .ok blocks) :
    ∃ first ∈ blocks, ∃ last ∈ blocks, ∃ low ∈ blocks, ∃ high ∈ blocks,
      (∀ b ∈ blocks, first.timestamp ≤ b.timestamp ∧ b.timestamp ≤ last.timestamp ∧
        low.sortable_block.blue_work ≤ b.sortable_block.blue_work ∧
        b.sortable_block.blue_work ≤ high.sortable_block.blue_work) ∧
      internal_estimate_network_hashes_per_second headers_store window =
        .ok (if window.length < MIN_WINDOW_SIZE then
              .error (.UnderMinWindowSizeAllowed window.length MIN_WINDOW_SIZE)
            else if first.timestamp = last.timestamp then .error .EmptyTimestampRange
            else .ok ((high.sortable_block.blue_work - low.sortable_block.blue_work) /
              ((last.timestamp.toNat - first.timestamp.toNat) / 1000)).toUInt64) := by
  have hne' : blocks ≠ [] := fun h => hne (List.eq_nil_of_length_eq_zero
    (by rw [← length_get_difficulty_blocks hblocks, h, List.length_nil]))
  obtain ⟨first, hfirst, last, hlast, hts, hts_all⟩ :=
    minmax_by_field_spec (·.timestamp) UInt64.toNat lt_on_toNat hne'
  obtain ⟨low, hlow, high, hhigh, hbw, hbw_all⟩ :=
    minmax_by_field_spec (·.sortable_block.blue_work) id lt_on_id hne'
  refine ⟨first, hfirst, last, hlast, low, hlow, high, hhigh, fun b hb =>
    ⟨UInt64.le_iff_toNat_le.mpr (hts_all b hb).1, UInt64.le_iff_toNat_le.mpr (hts_all b hb).2,
      (hbw_all b hb).1, (hbw_all b hb).2⟩, ?_⟩
  have hle : first.timestamp.toNat ≤ last.timestamp.toNat := (hts_all first hfirst).2
  -- the duration in whole seconds, as the `u64` division computes it
  have hduration : ((last.timestamp - first.timestamp) / 1000).toNat =
      (last.timestamp.toNat - first.timestamp.toNat) / 1000 := by
    rw [UInt64.toNat_div, UInt64.toNat_sub_of_le _ _ (UInt64.le_iff_toNat_le.mpr hle)]
    rfl
  unfold internal_estimate_network_hashes_per_second
  dsimp only
  by_cases hshort : window.length < MIN_WINDOW_SIZE
  · rw [if_pos hshort, if_pos hshort]
    rfl
  rw [if_neg hshort, if_neg hshort]
  simp only [hblocks, ok_bind, hts, unwrap]
  by_cases hsame : first.timestamp = last.timestamp
  · rw [if_pos hsame, if_pos hsame]
    rfl
  rw [if_neg hsame, if_neg hsame]
  simp only [KashReachability.u64_sub_of_le hle, ok_mapError, ok_bind, hbw]
  split_ifs with hzero
  · -- under a second: the source returns zero, as a division by zero does in numbers
    rw [← UInt64.toNat_inj, hduration, UInt64.toNat_zero] at hzero
    rw [hzero, Nat.div_zero]
    rfl
  · rw [hduration]
    rfl

/-- A thousand of the steady headers, one a second, the blue work growing by one a
    block: the least window the estimate reads. -/
def thousand_blocks_window : List (SortableBlock ℕ) := (List.range 1000).map fun i => ⟨i, i⟩

def steady_thousand_blocks : List (DifficultyBlock ℕ) :=
  (List.range 1000).map fun i => ⟨(1000 * i).toUInt64, 0x1d00ffff, ⟨i, i⟩⟩

theorem get_difficulty_blocks_thousand :
    get_difficulty_blocks steady_headers thousand_blocks_window = .ok steady_thousand_blocks := by
  unfold get_difficulty_blocks thousand_blocks_window steady_thousand_blocks
  rw [mapM_eq_ok, List.forall₂_map_left_iff, List.forall₂_map_right_iff]
  exact List.forall₂_same.mpr fun _ _ => rfl

theorem mem_steady_thousand_blocks {b : DifficultyBlock ℕ} (hb : b ∈ steady_thousand_blocks) :
    ∃ i < 1000, b = ⟨(1000 * i).toUInt64, 0x1d00ffff, ⟨i, i⟩⟩ := by
  obtain ⟨i, hi, rfl⟩ := List.mem_map.mp hb
  exact ⟨i, List.mem_range.mp hi, rfl⟩

theorem steady_block_mem {i : ℕ} (hi : i < 1000) :
    (⟨(1000 * i).toUInt64, 0x1d00ffff, ⟨i, i⟩⟩ : DifficultyBlock ℕ) ∈ steady_thousand_blocks :=
  List.mem_map.mpr ⟨i, List.mem_range.mpr hi, rfl⟩

theorem toNat_steady_timestamp {i : ℕ} (hi : i < 1000) : ((1000 * i).toUInt64).toNat = 1000 * i := by
  rw [Nat.toUInt64_eq, UInt64.toNat_ofNat', Nat.mod_eq_of_lt (by omega)]

/-- A thousand blocks a second apart, the work growing by one a block: the
    estimate is one hash a second. -/
theorem internal_estimate_network_hashes_per_second_spec_steady :
    thousand_blocks_window ≠ [] ∧
      get_difficulty_blocks steady_headers thousand_blocks_window = .ok steady_thousand_blocks ∧
      internal_estimate_network_hashes_per_second steady_headers thousand_blocks_window =
        .ok (.ok 1) := by
  have hlen : thousand_blocks_window.length = 1000 := by
    rw [thousand_blocks_window, List.length_map, List.length_range]
  have hne : thousand_blocks_window ≠ [] := List.ne_nil_of_length_pos (by rw [hlen]; decide)
  obtain ⟨first, hfirst, last, hlast, low, hlow, high, hhigh, hbounds, hest⟩ :=
    internal_estimate_network_hashes_per_second_spec hne get_difficulty_blocks_thousand
  refine ⟨hne, get_difficulty_blocks_thousand, ?_⟩
  -- the extremes are the first and the last block of the window
  obtain ⟨i₁, hi₁, rfl⟩ := mem_steady_thousand_blocks hfirst
  obtain ⟨i₂, hi₂, rfl⟩ := mem_steady_thousand_blocks hlast
  obtain ⟨i₃, hi₃, rfl⟩ := mem_steady_thousand_blocks hlow
  obtain ⟨i₄, hi₄, rfl⟩ := mem_steady_thousand_blocks hhigh
  have h₀ := toNat_steady_timestamp (i := 0) (by decide)
  have h₉₉₉ := toNat_steady_timestamp (i := 999) (by decide)
  have hmin := hbounds _ (steady_block_mem (i := 0) (by decide))
  have hmax := hbounds _ (steady_block_mem (i := 999) (by decide))
  rw [UInt64.le_iff_toNat_le, UInt64.le_iff_toNat_le, toNat_steady_timestamp hi₁, h₀] at hmin
  rw [UInt64.le_iff_toNat_le, UInt64.le_iff_toNat_le, toNat_steady_timestamp hi₂, h₉₉₉] at hmax
  obtain ⟨rfl, rfl, rfl, rfl⟩ : i₁ = 0 ∧ i₂ = 999 ∧ i₃ = 0 ∧ i₄ = 999 := by
    dsimp only at hmin hmax
    omega
  -- a full window over 999 seconds, gaining 999 of blue work
  rw [hest, hlen, if_neg (by decide), if_neg (by decide), h₀, h₉₉₉]
  rfl

end HashRate

/-! ## The DAA score -/

section DaaScore

variable [LinearOrder H]

/-- **THE DAA SCORE OF A SAMPLED BLOCK**: for a mergeset of distinct stored
    blocks, the non-DAA blocks are exactly the mergeset blocks below the lowest
    DAA blue score, a full window under the block's blue score, and the DAA score
    is the selected parent's plus the number of the others — when the window
    product and the score fit in a `u64`. -/
theorem calc_daa_score_and_mergeset_non_daa_blocks_spec (m : SampledDifficultyManager H)
    (ghostdag_data : GhostdagData H) (store : GhostdagStores H) (blue_score : H → ℕ)
    (sp_data : CompactHeaderData) (hnodup : (unordered_mergeset ghostdag_data).Nodup)
    (hscores : ∀ hash ∈ unordered_mergeset ghostdag_data,
      store.get_blue_score hash = .ok (blue_score hash))
    (hsp : m.headers_store ghostdag_data.selected_parent = some sp_data)
    (hsize : m.difficulty_window_size < 2 ^ 64)
    (hwindow : m.difficulty_window_size * m.difficulty_sample_rate.toNat < 2 ^ 64)
    (hfits : sp_data.daa_score.toNat + ((unordered_mergeset ghostdag_data).filter fun hash =>
      ghostdag_data.blue_score - m.difficulty_window_size * m.difficulty_sample_rate.toNat ≤
        blue_score hash).length < 2 ^ 64) :
    ∃ daa_score : UInt64,
      m.calc_daa_score_and_mergeset_non_daa_blocks ghostdag_data store =
        .ok (daa_score, collect_hashes ((unordered_mergeset ghostdag_data).filter fun hash =>
          blue_score hash <
            ghostdag_data.blue_score - m.difficulty_window_size * m.difficulty_sample_rate.toNat)) ∧
      daa_score.toNat = sp_data.daa_score.toNat + ((unordered_mergeset ghostdag_data).filter fun hash =>
        ghostdag_data.blue_score - m.difficulty_window_size * m.difficulty_sample_rate.toNat ≤
          blue_score hash).length := by
  generalize hW : m.difficulty_window_size * m.difficulty_sample_rate.toNat = W at hwindow hfits ⊢
  generalize hlowest : ghostdag_data.blue_score - W = lowest at hfits ⊢
  -- the lowest DAA blue score
  have hsize_word : m.difficulty_window_size.toUInt64.toNat = m.difficulty_window_size := by
    rw [Nat.toUInt64_eq, UInt64.toNat_ofNat', Nat.mod_eq_of_lt hsize]
  have hW_fits : m.difficulty_window_size.toUInt64.toNat * m.difficulty_sample_rate.toNat < 2 ^ 64 := by
    rw [hsize_word, hW]
    exact hwindow
  have hW_word : (m.difficulty_window_size.toUInt64 * m.difficulty_sample_rate).toNat = W := by
    rw [toNat_mul_of_lt hW_fits, hsize_word, hW]
  have hlow : m.lowest_daa_blue_score ghostdag_data = .ok lowest := by
    simp only [SampledDifficultyManager.lowest_daa_blue_score,
      SampledDifficultyManager.difficulty_full_window_size, u64_mul_of_lt hW_fits, ok_mapError,
      ok_bind, hW_word]
    rw [← hlowest]
    congr 1
    omega
  -- the non-DAA blocks: the filter's tests all succeed
  have hbelow := filterM_eq_ok (unordered_mergeset ghostdag_data)
    (q := fun hash => decide (blue_score hash < lowest))
    (p := fun hash => do
      let blue_score ← (store.get_blue_score hash).mapError DifficultyFault.ghostdag
      pure (decide (blue_score < lowest)))
    fun hash hmem => by rw [hscores hash hmem]; rfl
  -- the count: the set has as many blocks as the filter, the rest are at or above it
  have hset : (collect_hashes ((unordered_mergeset ghostdag_data).filter fun hash =>
      blue_score hash < lowest)).elems.length =
      ((unordered_mergeset ghostdag_data).filter fun hash => blue_score hash < lowest).length :=
    ListSet.length_foldl_insert_empty (hnodup.filter _)
  have hpartition := List.length_eq_length_filter_add (l := unordered_mergeset ghostdag_data)
    fun hash => decide (blue_score hash < lowest)
  have hrest : ((unordered_mergeset ghostdag_data).filter fun hash =>
      !decide (blue_score hash < lowest)) =
      (unordered_mergeset ghostdag_data).filter fun hash => lowest ≤ blue_score hash :=
    List.filter_congr fun hash _ => by simp only [← decide_not, not_lt]
  have hsize_merge : mergeset_size ghostdag_data = (unordered_mergeset ghostdag_data).length := by
    rw [mergeset_size, unordered_mergeset, List.length_append]
  rw [hrest] at hpartition
  have hcount : mergeset_size ghostdag_data -
      (collect_hashes ((unordered_mergeset ghostdag_data).filter fun hash =>
        blue_score hash < lowest)).elems.length =
      ((unordered_mergeset ghostdag_data).filter fun hash => lowest ≤ blue_score hash).length := by
    rw [hset, hsize_merge]
    omega
  have hfits' : sp_data.daa_score.toNat + (mergeset_size ghostdag_data -
      (collect_hashes ((unordered_mergeset ghostdag_data).filter fun hash =>
        blue_score hash < lowest)).elems.length).toUInt64.toNat < 2 ^ 64 := by
    rw [hcount, Nat.toUInt64_eq, UInt64.toNat_ofNat', Nat.mod_eq_of_lt (by omega)]
    exact hfits
  have hle : (collect_hashes ((unordered_mergeset ghostdag_data).filter fun hash =>
      blue_score hash < lowest)).elems.length ≤ mergeset_size ghostdag_data := by
    rw [hset, hsize_merge]
    exact List.length_filter_le _ _
  obtain ⟨daa_score, hdaa⟩ : ∃ daa_score, u64_add sp_data.daa_score (mergeset_size ghostdag_data -
      (collect_hashes ((unordered_mergeset ghostdag_data).filter fun hash =>
        blue_score hash < lowest)).elems.length).toUInt64 = .ok daa_score :=
    ⟨_, u64_add_of_lt hfits'⟩
  refine ⟨daa_score, ?_, ?_⟩
  · simp only [SampledDifficultyManager.calc_daa_score_and_mergeset_non_daa_blocks, hlow, ok_bind,
      hbelow, internal_calc_daa_score, get_compact_header_data, hsp,
      if_neg (not_lt.mpr hle), hdaa, ok_mapError]
    rfl
  · rw [u64_add_ok hdaa, Nat.toUInt64_eq, UInt64.toNat_ofNat', hcount,
      Nat.mod_eq_of_lt (by omega)]

/-- A block of blue score 12 that merges the blues 11 and 1 and the red 5. -/
def merging_data : GhostdagData ℕ :=
  { blue_score := 12, blue_work := 12, selected_parent := 11, mergeset_blues := [11, 1],
    mergeset_reds := [5], blues_anticone_sizes := ∅ }

/-- Stores in which the blue score of every block is its hash. -/
def hash_score_stores : GhostdagStores ℕ where
  ghostdag hash := some ⟨hash, hash, hash, [], [], ∅⟩
  relations _ := none
  bits _ := none

theorem calc_daa_score_and_mergeset_non_daa_blocks_spec_merging :
    (unordered_mergeset merging_data).Nodup ∧
      (∀ hash ∈ unordered_mergeset merging_data,
        hash_score_stores.get_blue_score hash = .ok hash) ∧
      steady_sampled.headers_store merging_data.selected_parent =
        some ⟨0, 11000, 0x1d00ffff⟩ ∧
      steady_sampled.difficulty_window_size < 2 ^ 64 ∧
      steady_sampled.difficulty_window_size * steady_sampled.difficulty_sample_rate.toNat < 2 ^ 64 ∧
      (0 : UInt64).toNat + ((unordered_mergeset merging_data).filter fun hash =>
        merging_data.blue_score -
          steady_sampled.difficulty_window_size * steady_sampled.difficulty_sample_rate.toNat ≤
            hash).length < 2 ^ 64 ∧
      ∃ daa_score : UInt64,
        steady_sampled.calc_daa_score_and_mergeset_non_daa_blocks merging_data hash_score_stores =
          .ok (daa_score, collect_hashes ((unordered_mergeset merging_data).filter fun hash =>
            hash < merging_data.blue_score -
              steady_sampled.difficulty_window_size * steady_sampled.difficulty_sample_rate.toNat)) ∧
        daa_score.toNat = (0 : UInt64).toNat + ((unordered_mergeset merging_data).filter fun hash =>
          merging_data.blue_score -
            steady_sampled.difficulty_window_size * steady_sampled.difficulty_sample_rate.toNat ≤
              hash).length :=
  ⟨by decide, by decide, by decide, by decide, by decide, by decide,
    calc_daa_score_and_mergeset_non_daa_blocks_spec steady_sampled merging_data hash_score_stores
      (fun hash => hash) ⟨0, 11000, 0x1d00ffff⟩ (by decide) (by decide) (by decide) (by decide)
      (by decide) (by decide)⟩

end DaaScore

end KashDifficulty
