import Mathlib
import Kash.Consensus.Interval
import Kash.Lib.Tiling

/-! # Splitting an interval

    `split_exact` lays parts of the given sizes end to end over the interval, and
    `split_exponential` first grows each size by a share of the spare room. Both
    are stated with `EndToEnd`, the tiling of `Kash.Lib.Tiling` read on the
    half-open ranges `[start, end + 1)`, so that an empty part, with
    `end = start - 1`, is a range of length zero.

    * `split_exact_spec` — sizes that add up to the interval's size give parts of
      exactly those sizes, end to end over the interval;
    * `bias_loop_spec` — the bias loop hands out the whole spare room, whatever
      the rounded float shares are, since the last part takes what remains;
    * `split_exponential_spec` — so every part is at least its size.

    An interval from `start = 0` is outside what `Interval::new` asserts: there a
    first part of size zero ends at `0 - 1`, and the subtraction panics. -/

namespace KashReachability

open KashScript

/-! ## Checked `u64` arithmetic -/

theorem u64_sub_of_le {a b : UInt64} (h : b.toNat ≤ a.toNat) : u64_sub a b = .ok (a - b) :=
  if_pos (UInt64.le_iff_toNat_le.mpr h)

theorem u64_sub_eq_error {a b : UInt64} (h : a.toNat < b.toNat) :
    u64_sub a b = .error .arithmetic_overflow :=
  if_neg fun hle => absurd (UInt64.le_iff_toNat_le.mp hle) (by omega)

theorem u64_add_eq_error {a b : UInt64} (h : 2 ^ 64 ≤ a.toNat + b.toNat) :
    u64_add a b = .error .arithmetic_overflow := by
  rw [u64_add, checked_add, if_neg (by omega)]

theorem toNat_add_of_lt {a b : UInt64} (h : a.toNat + b.toNat < 2 ^ 64) :
    (a + b).toNat = a.toNat + b.toNat := by
  rw [UInt64.toNat_add, Nat.mod_eq_of_lt h]

/-- The additions of `Iterator::sum` from `acc` panic exactly when the exact sum
    does not fit: every partial sum is at most the whole. -/
theorem foldlM_u64_add : ∀ (xs : List UInt64) (acc : UInt64),
    xs.foldlM u64_add acc = u64_of_sum (acc.toNat + (xs.map UInt64.toNat).sum)
  | [], acc => by
      rw [List.foldlM_nil, List.map_nil, List.sum_nil, Nat.add_zero, u64_of_sum,
        if_pos (UInt64.toNat_lt acc), Nat.toUInt64_eq, UInt64.ofNat_toNat]
      rfl
  | x :: xs, acc => by
      rw [List.foldlM_cons, List.map_cons, List.sum_cons]
      by_cases hfit : acc.toNat + x.toNat < 2 ^ 64
      · rw [u64_add_of_lt hfit, ExceptLoops.ok_bind, foldlM_u64_add xs, toNat_add_of_lt hfit,
          Nat.add_assoc]
      · rw [u64_add_eq_error (by omega), ExceptLoops.error_bind, u64_of_sum, if_neg (by omega)]

theorem u64_sum_eq (xs : List UInt64) : u64_sum xs = u64_of_sum (xs.map UInt64.toNat).sum := by
  rw [u64_sum, foldlM_u64_add, UInt64.toNat_zero, Nat.zero_add]

/-! ## The size of an interval -/

/-- **SIZE**: `size` succeeds exactly when `end + 1` fits and is at least `start`,
    with `end + 1 - start`. -/
theorem size_eq_ok_iff {I : Interval} {n : UInt64} :
    I.size = .ok n ↔
      I.end.toNat + 1 < 2 ^ 64 ∧ I.start.toNat ≤ I.end.toNat + 1 ∧
        n.toNat = I.end.toNat + 1 - I.start.toNat := by
  unfold Interval.size
  by_cases h₁ : I.end.toNat + 1 < 2 ^ 64
  · have hfit : I.end.toNat + (1 : UInt64).toNat < 2 ^ 64 := by rw [UInt64.toNat_one]; exact h₁
    have hlast : (I.end + 1).toNat = I.end.toNat + 1 := by rw [toNat_add_of_lt hfit, UInt64.toNat_one]
    rw [u64_add_of_lt hfit, ExceptLoops.ok_bind]
    by_cases h₂ : I.start.toNat ≤ I.end.toNat + 1
    · rw [u64_sub_of_le (by rw [hlast]; exact h₂), Except.ok.injEq, ← UInt64.toNat_inj,
        UInt64.toNat_sub_of_le _ _ (UInt64.le_iff_toNat_le.mpr (by rw [hlast]; exact h₂)), hlast]
      exact ⟨fun h => ⟨h₁, h₂, h.symm⟩, fun h => h.2.2.symm⟩
    · rw [u64_sub_eq_error (by rw [hlast]; omega)]
      exact ⟨(fun h => by cases h), fun h => absurd h.2.1 h₂⟩
  · rw [u64_add_eq_error (by rw [UInt64.toNat_one]; omega)]
    exact ⟨(fun h => by cases h), fun h => absurd h.1 h₁⟩

/-! ## `split_exact` -/

/-- The parts lie end to end from `lo` up to `hi - 1`: the first starts at `lo`,
    each next one starts right after the end of the one before, the last ends at
    `hi - 1`, and an empty part ends right before it starts. -/
def EndToEnd (lo : ℕ) (parts : List Interval) (hi : ℕ) : Prop :=
  Tiling.Tiles (fun J : Interval => J.start.toNat) (fun J => J.end.toNat + 1) lo parts hi

/-- **THE LOOP OF `split_exact`**: from a positive `start` with room for all the
    sizes, the loop lays the parts end to end, each of its own size. The
    induction is on the sizes; the running `start` is the end of the parts so far. -/
theorem split_exact_loop_spec : ∀ (sizes : List UInt64) (start : UInt64), 0 < start.toNat →
    start.toNat + (sizes.map UInt64.toNat).sum < 2 ^ 64 →
    ∃ parts, Interval.split_exact_loop start sizes = .ok parts ∧
      EndToEnd start.toNat parts (start.toNat + (sizes.map UInt64.toNat).sum) ∧
      List.Forall₂ (fun J s => J.size = .ok s) parts sizes
  | [], start, _, _ => ⟨[], rfl, by rw [List.map_nil, List.sum_nil, Nat.add_zero]; rfl, .nil⟩
  | size :: sizes, start, hstart, hfit => by
      rw [List.map_cons, List.sum_cons] at hfit ⊢
      have hadd : start.toNat + size.toNat < 2 ^ 64 := by omega
      have hlast := toNat_add_of_lt hadd
      have hone : (1 : UInt64).toNat ≤ (start + size).toNat := by rw [UInt64.toNat_one, hlast]; omega
      have hend : (start + size - 1).toNat + 1 = start.toNat + size.toNat := by
        rw [UInt64.toNat_sub_of_le _ _ (UInt64.le_iff_toNat_le.mpr hone), hlast, UInt64.toNat_one]
        omega
      obtain ⟨parts, hrun, htiles, hsizes⟩ :=
        split_exact_loop_spec sizes (start + size) (by omega) (by rw [hlast]; omega)
      refine ⟨Interval.new start (start + size - 1) :: parts, ?_, ?_, ?_⟩
      · rw [Interval.split_exact_loop, u64_add_of_lt hadd, ExceptLoops.ok_bind, u64_sub_of_le hone,
          ExceptLoops.ok_bind, ExceptLoops.ok_bind, hrun]
        rfl
      · -- the part ends where the rest starts
        refine ⟨rfl, by show start.toNat ≤ (start + size - 1).toNat + 1; omega, ?_⟩
        show EndToEnd ((start + size - 1).toNat + 1) parts (start.toNat + (size.toNat + _))
        rw [hend, ← Nat.add_assoc, ← hlast]
        exact htiles
      · refine .cons (size_eq_ok_iff.mpr ⟨?_, ?_, ?_⟩) hsizes
        · show (start + size - 1).toNat + 1 < 2 ^ 64
          omega
        · show start.toNat ≤ (start + size - 1).toNat + 1
          omega
        · show size.toNat = (start + size - 1).toNat + 1 - start.toNat
          omega

/-- **`split_exact`**: on an interval from a positive start, sizes that add up to
    its size give parts of exactly those sizes, end to end over it. -/
theorem split_exact_spec {I : Interval} {n : UInt64} {sizes : List UInt64}
    (hstart : 0 < I.start.toNat) (hsize : I.size = .ok n)
    (hsum : (sizes.map UInt64.toNat).sum = n.toNat) :
    ∃ parts, I.split_exact sizes = .ok parts ∧ EndToEnd I.start.toNat parts (I.end.toNat + 1) ∧
      List.Forall₂ (fun J s => J.size = .ok s) parts sizes := by
  obtain ⟨hfit, hle, hn⟩ := size_eq_ok_iff.mp hsize
  have hsum' : u64_sum sizes = .ok n := by
    rw [u64_sum_eq, u64_of_sum, if_pos (by omega), hsum, Nat.toUInt64_eq, UInt64.ofNat_toNat]
  obtain ⟨parts, hrun, htiles, hsizes⟩ :=
    split_exact_loop_spec sizes I.start hstart (by omega)
  refine ⟨parts, ?_, ?_, hsizes⟩
  · rw [Interval.split_exact, hsum', ExceptLoops.ok_bind, hsize, ExceptLoops.ok_bind,
      if_neg (not_not.mpr rfl), hrun]
  · have hhi : I.start.toNat + (sizes.map UInt64.toNat).sum = I.end.toNat + 1 := by omega
    rw [hhi] at htiles
    exact htiles

/-! ## `split_exponential` -/

/-- Two relations along three lists compose. -/
theorem forall₂_trans_rel {α β γ : Type*} {R : α → β → Prop} {S : β → γ → Prop}
    {T : α → γ → Prop} (h : ∀ a b c, R a b → S b c → T a c) :
    ∀ {l₁ : List α} {l₂ : List β} {l₃ : List γ},
      List.Forall₂ R l₁ l₂ → List.Forall₂ S l₂ l₃ → List.Forall₂ T l₁ l₃
  | _, _, _, .nil, .nil => .nil
  | _, _, _, .cons hab h₁, .cons hbc h₂ => .cons (h _ _ _ hab hbc) (forall₂_trans_rel h h₁ h₂)

/-- **THE BIAS LOOP HANDS OUT THE WHOLE SPARE ROOM**, whatever the rounded shares
    are: each share is capped by what remains and the last part, at index `last`,
    takes the rest. So the biased sizes add up to the sizes plus the room, and
    each is at least its size. -/
theorem bias_loop_spec (rounded_bias : ℕ → UInt64) (last : ℕ) :
    ∀ (sizes : List UInt64) (i : ℕ) (remaining_bias : UInt64),
      i + sizes.length = last + 1 → (sizes = [] → remaining_bias = 0) →
      (sizes.map UInt64.toNat).sum + remaining_bias.toNat < 2 ^ 64 →
      ∃ biased, Interval.bias_loop rounded_bias last i sizes remaining_bias = .ok biased ∧
        (biased.map UInt64.toNat).sum = (sizes.map UInt64.toNat).sum + remaining_bias.toNat ∧
        List.Forall₂ (fun b s => s.toNat ≤ b.toNat) biased sizes
  | [], _, remaining_bias, _, hdone, _ => by
      refine ⟨[], rfl, ?_, .nil⟩
      rw [hdone rfl, UInt64.toNat_zero]
      rfl
  | size :: sizes, i, remaining_bias, hlen, _, hfit => by
      rw [List.map_cons, List.sum_cons] at hfit ⊢
      rw [List.length_cons] at hlen
      rw [Interval.bias_loop]
      generalize hb : (if i = last then remaining_bias else min remaining_bias (rounded_bias i)) = bias
      -- the share of part `i` is never more than what remains, and the last takes it all
      have hbias : bias.toNat ≤ remaining_bias.toNat := by
        rw [← hb]
        split_ifs
        · exact le_rfl
        · rw [UInt64.toNat_min]
          exact Nat.min_le_left _ _
      have hdone : sizes = [] → remaining_bias - bias = 0 := by
        intro hnil
        rw [hnil, List.length_nil] at hlen
        rw [← hb, if_pos (by omega), UInt64.sub_self]
      have hadd : size.toNat + bias.toNat < 2 ^ 64 := by omega
      have hsub := UInt64.toNat_sub_of_le _ _ (UInt64.le_iff_toNat_le.mpr hbias)
      obtain ⟨biased, hrun, hsum, hge⟩ := bias_loop_spec rounded_bias last sizes (i + 1)
        (remaining_bias - bias) (by omega) hdone (by omega)
      refine ⟨(size + bias) :: biased, ?_, ?_, .cons ?_ hge⟩
      · rw [u64_add_of_lt hadd, ExceptLoops.ok_bind, u64_sub_of_le hbias, ExceptLoops.ok_bind, hrun]
        rfl
      · rw [List.map_cons, List.sum_cons, hsum, toNat_add_of_lt hadd, hsub]
        omega
      · rw [toNat_add_of_lt hadd]
        omega

/-- **`split_exponential`**: on an interval from a positive start, sizes with a
    positive sum of at most its size give one part per size, end to end over the
    interval, each at least its size, whatever the rounded float shares are. -/
theorem split_exponential_spec {I : Interval} {n : UInt64} {sizes : List UInt64}
    (rounded_bias : ℕ → UInt64) (hstart : 0 < I.start.toNat) (hsize : I.size = .ok n)
    (hpos : 0 < (sizes.map UInt64.toNat).sum) (hle : (sizes.map UInt64.toNat).sum ≤ n.toNat) :
    ∃ parts, I.split_exponential sizes rounded_bias = .ok parts ∧
      EndToEnd I.start.toNat parts (I.end.toNat + 1) ∧
      List.Forall₂ (fun J s => ∃ m, J.size = .ok m ∧ s.toNat ≤ m.toNat) parts sizes := by
  have hn := UInt64.toNat_lt n
  generalize hS : (sizes.map UInt64.toNat).sum = S at hpos hle
  have hSfit : S.toUInt64.toNat = S := by
    rw [Nat.toUInt64_eq, UInt64.toNat_ofNat', Nat.mod_eq_of_lt (by omega)]
  have hsum : u64_sum sizes = .ok S.toUInt64 := by rw [u64_sum_eq, hS, u64_of_sum, if_pos (by omega)]
  have hne : sizes ≠ [] := by
    rintro rfl
    rw [List.map_nil, List.sum_nil] at hS
    omega
  unfold Interval.split_exponential
  rw [hsize, ExceptLoops.ok_bind, hsum, ExceptLoops.ok_bind,
    if_neg (by rw [UInt64.lt_iff_toNat_lt, hSfit]; omega),
    if_neg (by rw [← UInt64.toNat_inj, hSfit, UInt64.toNat_zero]; omega)]
  by_cases heq : n = S.toUInt64
  · -- no room to spare: the exact split of the sizes
    rw [if_pos heq]
    obtain ⟨parts, hrun, htiles, hsizes⟩ :=
      split_exact_spec hstart hsize (by rw [hS, heq, hSfit])
    exact ⟨parts, hrun, htiles, hsizes.imp fun J s h => ⟨s, h, le_rfl⟩⟩
  · -- the room is handed out, then the exact split of the biased sizes
    have hroom : S.toUInt64.toNat ≤ n.toNat := by rw [hSfit]; exact hle
    rw [if_neg heq, u64_sub_of_le hroom, ExceptLoops.ok_bind]
    have hroom' := UInt64.toNat_sub_of_le _ _ (UInt64.le_iff_toNat_le.mpr hroom)
    obtain ⟨biased, hbias, hbsum, hbge⟩ :=
      bias_loop_spec rounded_bias (sizes.length - 1) sizes 0 (n - S.toUInt64)
        (by have := List.length_pos_of_ne_nil hne; omega) (fun h => absurd h hne)
        (by rw [hS, hroom', hSfit]; omega)
    rw [hbias, ExceptLoops.ok_bind]
    obtain ⟨parts, hrun, htiles, hsizes⟩ :=
      split_exact_spec hstart hsize (by rw [hbsum, hS, hroom', hSfit]; omega)
    exact ⟨parts, hrun, htiles, forall₂_trans_rel (fun J b s h₁ h₂ => ⟨b, h₁, h₂⟩) hsizes hbge⟩

/-- **SPLITTING AN INTERVAL**: on an interval from a positive start, as
    `Interval::new` asserts, `split_exponential` with a positive sum of sizes of
    at most its size, and `split_exact` with sizes that add up to its size, lay one
    part per size end to end over it; the exponential parts are at least their
    sizes whatever the floats round to, and the exact parts are their sizes. -/
theorem split_interval_end_to_end (I : Interval) (n : UInt64) (sizes : List UInt64)
    (rounded_bias : ℕ → UInt64) (hstart : 0 < I.start.toNat) (hsize : I.size = .ok n) :
    (0 < (sizes.map UInt64.toNat).sum → (sizes.map UInt64.toNat).sum ≤ n.toNat →
      ∃ parts, I.split_exponential sizes rounded_bias = .ok parts ∧
        EndToEnd I.start.toNat parts (I.end.toNat + 1) ∧
        List.Forall₂ (fun J s => ∃ m, J.size = .ok m ∧ s.toNat ≤ m.toNat) parts sizes) ∧
      ((sizes.map UInt64.toNat).sum = n.toNat →
        ∃ parts, I.split_exact sizes = .ok parts ∧ EndToEnd I.start.toNat parts (I.end.toNat + 1) ∧
          List.Forall₂ (fun J s => J.size = .ok s) parts sizes) :=
  ⟨fun hpos hle => split_exponential_spec rounded_bias hstart hsize hpos hle,
    fun hsum => split_exact_spec hstart hsize hsum⟩

/-- The shares `f64::round` gives for sizes one, two and three and a bias of 94:
    the fractions are 1/7, 2/7 and 4/7. -/
def shares_one_two_three (i : ℕ) : UInt64 := ([13, 27, 54] : List UInt64).getD i 0

/-- Sizes one, two and three leave 94 of an interval of a hundred to the bias
    loop, and the biased parts still lie end to end over it. -/
theorem split_interval_end_to_end_one_to_hundred :
    0 < (Interval.new 1 100).start.toNat ∧ (Interval.new 1 100).size = .ok 100 ∧
      ∃ parts,
        (Interval.new 1 100).split_exponential ([1, 2, 3] : List UInt64) shares_one_two_three =
          .ok parts ∧
        EndToEnd (Interval.new 1 100).start.toNat parts ((Interval.new 1 100).end.toNat + 1) ∧
        List.Forall₂ (fun J s => ∃ m, J.size = .ok m ∧ s.toNat ≤ m.toNat) parts
          ([1, 2, 3] : List UInt64) :=
  ⟨by decide, rfl,
    (split_interval_end_to_end (Interval.new 1 100) 100 ([1, 2, 3] : List UInt64)
      shares_one_two_three (by decide) rfl).1 (by decide) (by decide)⟩

/-- An interval from zero: its first part of size zero would end at `0 - 1`, and
    the subtraction panics, in both splits (the shares are not read before). -/
theorem split_from_zero_start_panics :
    (Interval.new 0 0).size = .ok 1 ∧
      (Interval.new 0 0).split_exponential [0, 1] (fun _ => 0) = .error .arithmetic_overflow ∧
      (Interval.new 0 0).split_exact [0, 1] = .error .arithmetic_overflow :=
  ⟨rfl, rfl, rfl⟩

end KashReachability
