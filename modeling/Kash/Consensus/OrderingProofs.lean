import Kash.Consensus.GhostdagRunProofs
import Mathlib

/-! # The order of a block's mergeset

    `ghostdag` sorts the mergeset by `(blue_work, hash)` and colours it in that
    order, so its blues after the selected parent and its reds are each a
    strictly ascending part of one strictly ascending list. Merge-joining two
    such parts never meets a pair that compares equal:
    `ascending_mergeset_without_selected_parent` returns the whole mergeset in
    strictly ascending order and never reaches its panic, and
    `descending_mergeset_without_selected_parent` returns that list reversed
    (`ghostdag_ascending_eq_ok`).

    The order is topological only while blue work grows along parent links
    (`consensus_ordered_mergeset_topological`). A call keeps that growth when its
    selected parent has a nonzero target and its blue-work sum stays below
    `2^192` (`BlueWorkIncreasing.add_block`); the `Uint192` sum wraps beyond
    that. -/

namespace KashGhostdag

open Relation ExceptLoops AListLoops

/-! ## Merge-joining two ascending lists -/

section MergeJoin

variable {α : Type} {cmp : α → α → Ordering}

theorem merge_join_by_nil_left (ys : List α) : merge_join_by cmp [] ys = ys.map .Right := by
  rw [merge_join_by]

theorem merge_join_by_nil_right : ∀ xs : List α, merge_join_by cmp xs [] = xs.map .Left
  | [] => merge_join_by_nil_left []
  | x :: xs => by
      rw [merge_join_by]
      exact List.cons_ne_nil x xs

theorem merge_join_by_lt {x y : α} (xs ys : List α) (h : cmp x y = .lt) :
    merge_join_by cmp (x :: xs) (y :: ys) = .Left x :: merge_join_by cmp xs (y :: ys) := by
  rw [merge_join_by, h]

theorem merge_join_by_gt {x y : α} (xs ys : List α) (h : cmp x y = .gt) :
    merge_join_by cmp (x :: xs) (y :: ys) = .Right y :: merge_join_by cmp (x :: xs) ys := by
  rw [merge_join_by, h]

theorem take_merged_left {b : α} {rest : List (EitherOrBoth α)} {l : List α}
    (h : take_merged rest = .ok l) : take_merged (.Left b :: rest) = .ok (b :: l) := by
  rw [take_merged, h]
  rfl

theorem take_merged_right {b : α} {rest : List (EitherOrBoth α)} {l : List α}
    (h : take_merged rest = .ok l) : take_merged (.Right b :: rest) = .ok (b :: l) := by
  rw [take_merged, h]
  rfl

theorem take_merged_map_left : ∀ xs : List α, take_merged (xs.map .Left) = .ok xs
  | [] => rfl
  | _ :: xs => take_merged_left (take_merged_map_left xs)

theorem take_merged_map_right : ∀ ys : List α, take_merged (ys.map .Right) = .ok ys
  | [] => rfl
  | _ :: ys => take_merged_right (take_merged_map_right ys)

variable {β : Type} [LinearOrder β] (f : α → β)

/-- **MERGE**: two lists ascending strictly by a key, with no key in common,
    merge without a pair into a strictly ascending list of both that keeps
    the order of each. -/
theorem take_merged_merge_join_by (hcmp : ∀ a b, cmp a b = compare (f a) (f b)) :
    ∀ xs ys : List α, xs.Pairwise (fun a b => f a < f b) → ys.Pairwise (fun a b => f a < f b) →
      (∀ x ∈ xs, ∀ y ∈ ys, f x ≠ f y) →
      ∃ l, take_merged (merge_join_by cmp xs ys) = .ok l ∧ l.Perm (xs ++ ys) ∧
        l.Pairwise (fun a b => f a < f b) ∧ xs.Sublist l ∧ ys.Sublist l := by
  intro xs
  induction xs with
  | nil =>
      intro ys _ hys _
      rw [merge_join_by_nil_left, take_merged_map_right]
      exact ⟨ys, rfl, List.Perm.refl ys, hys, List.nil_sublist ys, List.Sublist.refl ys⟩
  | cons x xs ihx =>
      intro ys
      induction ys with
      | nil =>
          intro hxs _ _
          rw [merge_join_by_nil_right, take_merged_map_left, List.append_nil]
          exact ⟨x :: xs, rfl, List.Perm.refl _, hxs, List.Sublist.refl _, List.nil_sublist _⟩
      | cons y ys ihy =>
          intro hxs hys hdisj
          obtain ⟨hx, hxs'⟩ := List.pairwise_cons.mp hxs
          obtain ⟨hy, hys'⟩ := List.pairwise_cons.mp hys
          rcases lt_trichotomy (f x) (f y) with hlt | heq | hgt
          -- `x` goes first; the outer hypothesis merges the rest
          · obtain ⟨l, hl, hperm, hsorted, hxl, hyl⟩ := ihx (y :: ys) hxs' hys
              fun a ha b hb => hdisj a (List.mem_cons_of_mem x ha) b hb
            rw [merge_join_by_lt xs ys ((hcmp x y).trans (compare_lt_iff_lt.mpr hlt))]
            refine ⟨x :: l, take_merged_left hl, hperm.cons x,
              List.pairwise_cons.mpr ⟨fun z hz => ?_, hsorted⟩, hxl.cons_cons x, hyl.cons x⟩
            rcases List.mem_append.mp (hperm.subset hz) with hz | hz
            · exact hx z hz
            · rcases List.mem_cons.mp hz with rfl | hz
              · exact hlt
              · exact hlt.trans (hy z hz)
          · exact absurd heq (hdisj x List.mem_cons_self y List.mem_cons_self)
          -- `y` goes first; the inner hypothesis merges the rest
          · obtain ⟨l, hl, hperm, hsorted, hxl, hyl⟩ := ihy hxs hys'
              fun a ha b hb => hdisj a ha b (List.mem_cons_of_mem y hb)
            rw [merge_join_by_gt xs ys ((hcmp x y).trans (compare_gt_iff_gt.mpr hgt))]
            refine ⟨y :: l, take_merged_right hl, (hperm.cons y).trans List.perm_middle.symm,
              List.pairwise_cons.mpr ⟨fun z hz => ?_, hsorted⟩, hxl.cons y, hyl.cons_cons y⟩
            rcases List.mem_append.mp (hperm.subset hz) with hz | hz
            · rcases List.mem_cons.mp hz with rfl | hz
              · exact hgt
              · exact hgt.trans (hx z hz)
            · exact hy z hz

end MergeJoin

/-! ## The order of `SortableBlock` -/

variable {H : Type} [LinearOrder H]

/-- What `SortableBlock::cmp` compares: blue work, then hash. -/
def SortableBlock.key (b : SortableBlock H) : ℕ ×ₗ H := toLex (b.blue_work, b.hash)

theorem SortableBlock.cmp_eq_compare (a b : SortableBlock H) : a.cmp b = compare a.key b.key :=
  rfl

omit [LinearOrder H] in
theorem SortableBlock.key_injective : Function.Injective (SortableBlock.key (H := H)) := by
  rintro ⟨ha, wa⟩ ⟨hb, wb⟩ h
  obtain ⟨rfl, rfl⟩ := Prod.mk.inj (toLex_inj.mp h)
  rfl

theorem SortableBlock.cmp_ne_gt_iff {a b : SortableBlock H} : a.cmp b ≠ .gt ↔ a.key ≤ b.key := by
  rw [SortableBlock.cmp_eq_compare, Ne, compare_gt_iff_gt, not_lt]

/-- A key no larger has no more blue work. -/
theorem SortableBlock.blue_work_le_of_key_le {a b : SortableBlock H} (h : a.key ≤ b.key) :
    a.blue_work ≤ b.blue_work := by
  rcases Prod.Lex.toLex_le_toLex.mp h with h | ⟨h, -⟩
  · exact h.le
  · exact h.le

/-- Distinct blocks sorted by key ascend strictly. -/
theorem pairwise_key_lt {keyed : List (SortableBlock H)}
    (hle : keyed.Pairwise (fun a b => a.key ≤ b.key)) (hnd : keyed.Nodup) :
    keyed.Pairwise (fun a b => a.key < b.key) :=
  (hle.and hnd).imp fun ⟨hab, hne⟩ => lt_of_le_of_ne hab fun h => hne (SortableBlock.key_injective h)

omit [LinearOrder H] in
/-- Keying blocks that carry their stored blue work gives them back. -/
theorem mapM_keyed {stores : GhostdagStores H} {keyed : List (SortableBlock H)}
    (h : ∀ b ∈ keyed, stores.get_blue_work b.hash = .ok b.blue_work) :
    (keyed.map (·.hash)).mapM (fun block => do
      pure (⟨block, ← stores.get_blue_work block⟩ : SortableBlock H)) = .ok keyed := by
  apply (mapM_eq_ok _ _ _).mpr
  rw [List.forall₂_map_left_iff, List.forall₂_same]
  intro b hb
  rw [h b hb]
  rfl

/-! ## What one call sorts -/

section Call

variable {self : GhostdagManager H} {parents : List H} {data : GhostdagData H}

/-- `sort_blocks` keys each block with its stored blue work and orders the
    keys. -/
theorem sort_blocks_eq_ok {blocks sorted : List H} (h : self.sort_blocks blocks = .ok sorted) :
    ∃ keyed : List (SortableBlock H), sorted = keyed.map (·.hash) ∧
      (∀ b ∈ keyed, self.stores.get_blue_work b.hash = .ok b.blue_work) ∧
      keyed.Pairwise (fun a b => a.key ≤ b.key) := by
  unfold GhostdagManager.sort_blocks at h
  obtain ⟨keyed, hkeyed, hsorted⟩ := (bind_eq_ok _ _ _).mp h
  cases hsorted
  -- the sort's relation is the order of the keys
  have htotal : Std.Total (fun a b : SortableBlock H => SortableBlock.cmp a b ≠ .gt) :=
    ⟨fun a b => (le_total a.key b.key).imp SortableBlock.cmp_ne_gt_iff.mpr
      SortableBlock.cmp_ne_gt_iff.mpr⟩
  have htrans : IsTrans (SortableBlock H) (fun a b => SortableBlock.cmp a b ≠ .gt) :=
    ⟨fun _ _ _ hab hbc => SortableBlock.cmp_ne_gt_iff.mpr
      ((SortableBlock.cmp_ne_gt_iff.mp hab).trans (SortableBlock.cmp_ne_gt_iff.mp hbc))⟩
  refine ⟨_, rfl, fun b hb => keyed_stored ((mapM_eq_ok _ _ _).mp hkeyed) b
    ((List.perm_insertionSort _ keyed).subset hb), ?_⟩
  exact (List.pairwise_insertionSort _ keyed).imp SortableBlock.cmp_ne_gt_iff.mp

/-- The mergeset of a successful call, keyed by the store and strictly
    ascending: the blues after the selected parent and the reds are the two
    parts a decision per block splits it into. -/
theorem ghostdag_keyed (h : self.ghostdag parents = .ok data) :
    ∃ (mergeset : ListSet H) (keyed : List (SortableBlock H)) (color : SortableBlock H → Bool),
      unordered_mergeset_without_selected_parent self.stores.relations self.is_dag_ancestor_of
        data.selected_parent parents self.fuel = .ok mergeset ∧
      (keyed.map (·.hash)).Perm mergeset.elems ∧
      (∀ b ∈ keyed, self.stores.get_blue_work b.hash = .ok b.blue_work) ∧
      keyed.Pairwise (fun a b => a.key < b.key) ∧
      data.mergeset_blues.tail = (keyed.filter color).map (·.hash) ∧
      data.mergeset_reds = (keyed.filter fun b => !color b).map (·.hash) := by
  obtain ⟨sp, m, om, color, -, -, hm, hsort, -, hsp, hblues, hreds, -⟩ := ghostdag_eq_ok h
  obtain ⟨keyed, rfl, hstored, hle⟩ := sort_blocks_eq_ok hsort
  have hperm := sort_blocks_perm hsort
  have hnd : keyed.Nodup := List.Nodup.of_map _ (hperm.nodup_iff.mpr m.nodup)
  refine ⟨m, keyed, color ∘ (·.hash), by rw [hsp]; exact hm, hperm, hstored,
    pairwise_key_lt hle hnd, ?_, ?_⟩
  · rw [hblues, List.tail_cons, List.filter_map]
  · rw [hreds, List.filter_map]
    rfl

/-- **ASCENDING**: after a successful call, the ascending merge of the blues and
    the reds never meets a pair comparing equal; it lists the whole mergeset,
    each block with its stored blue work, in strictly ascending order, with the
    blues and the reds as parts of it; the descending merge lists it reversed. -/
theorem ghostdag_ascending_eq_ok (h : self.ghostdag parents = .ok data) :
    ∃ (mergeset : ListSet H) (asc : List (SortableBlock H)),
      unordered_mergeset_without_selected_parent self.stores.relations self.is_dag_ancestor_of
        data.selected_parent parents self.fuel = .ok mergeset ∧
      data.ascending_mergeset_without_selected_parent self.stores = .ok asc ∧
      (asc.map (·.hash)).Perm mergeset.elems ∧
      asc.Pairwise (fun a b => a.key < b.key) ∧
      (∀ b ∈ asc, self.stores.get_blue_work b.hash = .ok b.blue_work) ∧
      data.mergeset_blues.tail.Sublist (asc.map (·.hash)) ∧
      data.mergeset_reds.Sublist (asc.map (·.hash)) ∧
      data.descending_mergeset_without_selected_parent self.stores = .ok asc.reverse := by
  obtain ⟨m, keyed, color, hm, hperm, hstored, hlt, hblues, hreds⟩ := ghostdag_keyed h
  have hdisj : ∀ x ∈ keyed.filter color, ∀ y ∈ keyed.filter (fun b => !color b),
      x.key ≠ y.key := by
    intro x hx y hy hxy
    obtain rfl := SortableBlock.key_injective hxy
    have hcx := (List.mem_filter.mp hx).2
    have hcy := (List.mem_filter.mp hy).2
    rw [hcx] at hcy
    exact Bool.false_ne_true hcy
  have hfstored : ∀ p, ∀ b ∈ keyed.filter p, self.stores.get_blue_work b.hash = .ok b.blue_work :=
    fun p b hb => hstored b (List.mem_of_mem_filter hb)
  obtain ⟨asc, hasc, haperm, hasorted, hblues_sub, hreds_sub⟩ :=
    take_merged_merge_join_by SortableBlock.key (fun _ _ => rfl) _ _ (hlt.filter _)
      (hlt.filter _) hdisj
  have hasc_stored : ∀ b ∈ asc, self.stores.get_blue_work b.hash = .ok b.blue_work := by
    intro b hb
    exact hstored b ((List.filter_append_perm color keyed).subset (haperm.subset hb))
  -- the descending merge runs over the reversed parts, with the dual key
  have hdual : ∀ p, (keyed.filter p).reverse.Pairwise
      (fun a b => OrderDual.toDual a.key < OrderDual.toDual b.key) := fun p =>
    List.pairwise_reverse.mpr ((hlt.filter p).imp OrderDual.toDual_lt_toDual.mpr)
  obtain ⟨desc, hdesc, hdperm, hdsorted, -, -⟩ :=
    take_merged_merge_join_by (fun b : SortableBlock H => OrderDual.toDual b.key)
      (fun _ _ => rfl) _ _ (hdual color) (hdual _)
      fun x hx y hy hxy => hdisj x (List.mem_reverse.mp hx) y (List.mem_reverse.mp hy)
        (OrderDual.toDual.injective hxy)
  have hdesc_eq : desc = asc.reverse := by
    refine List.Perm.eq_of_pairwise (fun a b _ _ hab hba => absurd hab (not_lt_of_gt hba))
      hdsorted (List.pairwise_reverse.mpr (hasorted.imp OrderDual.toDual_lt_toDual.mpr)) ?_
    exact ((hdperm.trans ((List.reverse_perm _).append (List.reverse_perm _))).trans
      haperm.symm).trans (List.reverse_perm asc).symm
  refine ⟨m, asc, hm, ?_, ?_, hasorted, hasc_stored, ?_, ?_, ?_⟩
  · unfold GhostdagData.ascending_mergeset_without_selected_parent
    rw [hblues, hreds, mapM_keyed (hfstored _), mapM_keyed (hfstored _)]
    exact hasc
  · exact ((haperm.trans (List.filter_append_perm color keyed)).map _).trans hperm
  · rw [hblues]
    exact hblues_sub.map _
  · rw [hreds]
    exact hreds_sub.map _
  · unfold GhostdagData.descending_mergeset_without_selected_parent
    rw [hblues, hreds, ← List.map_reverse, ← List.map_reverse,
      mapM_keyed fun b hb => hfstored _ b (List.mem_reverse.mp hb),
      mapM_keyed fun b hb => hfstored _ b (List.mem_reverse.mp hb), ← hdesc_eq]
    exact hdesc

end Call

/-! ## Blue work along parent links -/

omit [LinearOrder H] in
theorem read_eq_ok {α : Type} {entry : Option α} {a : α} : read entry = .ok a ↔ entry = some a := by
  cases entry with
  | none => exact ⟨fun h => (nomatch h), fun h => (nomatch h)⟩
  | some b => exact ⟨fun h => congrArg some (Except.ok.inj h), fun h => by cases h; rfl⟩

omit [LinearOrder H] in
theorem get_blue_work_eq_ok {stores : GhostdagStores H} {hash : H} {w : ℕ} :
    stores.get_blue_work hash = .ok w ↔ ∃ d, stores.ghostdag hash = some d ∧ d.blue_work = w := by
  unfold GhostdagStores.get_blue_work GhostdagStores.get_data
  rw [bind_eq_ok]
  constructor
  · rintro ⟨d, hd, hw⟩
    exact ⟨d, read_eq_ok.mp hd, Except.ok.inj hw⟩
  · rintro ⟨d, hd, rfl⟩
    exact ⟨d, read_eq_ok.mpr hd, rfl⟩

/-- Blue work strictly increases along every parent link of the stored DAG. -/
def BlueWorkIncreasing (stores : GhostdagStores H) : Prop :=
  ∀ x y, IsParent stores.relations x y → ∃ wx wy, stores.get_blue_work x = .ok wx ∧
    stores.get_blue_work y = .ok wy ∧ wy < wx

omit [LinearOrder H] in
/-- Blue work decreases along every path to an ancestor. -/
theorem BlueWorkIncreasing.lt_of_transGen {stores : GhostdagStores H}
    (hinc : BlueWorkIncreasing stores) {x y : H} (h : TransGen (IsParent stores.relations) x y) :
    ∀ {wx wy : ℕ}, stores.get_blue_work x = .ok wx → stores.get_blue_work y = .ok wy → wy < wx := by
  induction h with
  | single hxy =>
      intro wx wy hx hy
      obtain ⟨wx', wy', hx', hy', hlt⟩ := hinc _ _ hxy
      obtain rfl := Except.ok.inj (hx.symm.trans hx')
      obtain rfl := Except.ok.inj (hy.symm.trans hy')
      exact hlt
  | tail _ hcy ih =>
      intro wx wy hx hy
      obtain ⟨wc, wy', hc, hy', hlt⟩ := hinc _ _ hcy
      obtain rfl := Except.ok.inj (hy.symm.trans hy')
      exact hlt.trans (ih hx hc)

/-- Genesis alone has no parent link. -/
theorem BlueWorkIncreasing.init (genesis origin : H) (bits : UInt32) :
    BlueWorkIncreasing (GhostdagStores.init genesis origin bits) := by
  rintro x y ⟨ps, hps, hy⟩
  dsimp only [GhostdagStores.init] at hps
  split_ifs at hps
  cases hps
  exact absurd hy List.not_mem_nil

section Call

variable {self : GhostdagManager H} {parents : List H} {data : GhostdagData H}

/-- **TOPOLOGICAL**: where blue work grows along parent links, the consensus
    order of a mergeset puts no block before one of its ancestors. -/
theorem consensus_ordered_mergeset_topological (h : self.ghostdag parents = .ok data)
    (horacle : OracleCorrect self.stores.relations self.is_dag_ancestor_of)
    (hanti : ∀ p ∈ parents, ∀ q ∈ parents, p ≠ q → ¬ InPast self.stores.relations q p)
    (hinc : BlueWorkIncreasing self.stores) :
    ∃ order, data.consensus_ordered_mergeset self.stores = .ok order ∧
      order.Pairwise (fun a b => ¬ TransGen (IsParent self.stores.relations) a b) := by
  obtain ⟨m, asc, hm, hasc, hperm, hsorted, hstored, -⟩ := ghostdag_ascending_eq_ok h
  obtain ⟨sp, -, -, -, -, hsel, -, -, -, hsp, -⟩ := ghostdag_eq_ok h
  have hspp : data.selected_parent ∈ parents := by
    rw [hsp]
    exact find_selected_parent_mem hsel
  have hmem := mergeset_loop_sound horacle _ _ m
    (SearchInv.init fun p hp hne => hanti p hp _ hspp hne) hm
  refine ⟨data.selected_parent :: asc.map (·.hash), ?_, List.pairwise_cons.mpr ⟨?_, ?_⟩⟩
  · unfold GhostdagData.consensus_ordered_mergeset
    rw [hasc]
    rfl
  -- no mergeset block is in the selected parent's past
  · intro b hb hpast
    exact ((hmem b).mp (hperm.subset hb)).2 hpast.to_reflTransGen
  -- an ancestor has less blue work, so its key comes first
  · rw [List.pairwise_map]
    refine hsorted.imp_of_mem fun ha hb hab hpast => ?_
    have hlt := hinc.lt_of_transGen hpast (hstored _ ha) (hstored _ hb)
    have hle := SortableBlock.blue_work_le_of_key_le hab.le
    omega

end Call

/-! ## What one call adds to the blue work -/

theorem from_compact_target_bits_lt (bits : UInt32) : from_compact_target_bits bits < 2 ^ 256 := by
  unfold from_compact_target_bits
  dsimp only
  split
  all_goals
    split_ifs
    · exact Nat.two_pow_pos 256
    · exact Nat.mod_lt _ (Nat.two_pow_pos 256)

/-- A nonzero target has positive work: its divisor is at least two, so the
    quotient plus one stays below `2^256`. -/
theorem calc_work_pos {bits : UInt32} {w : ℕ} (h : calc_work bits = .ok w)
    (htarget : from_compact_target_bits bits ≠ 0) : 0 < w := by
  have hlt := from_compact_target_bits_lt bits
  unfold calc_work at h
  dsimp only at h
  split_ifs at h with hdiv hres
  · cases h
  · cases h
  cases h
  generalize from_compact_target_bits bits = t at *
  generalize hN : 2 ^ 256 = N at *
  have hN2 : 2 ≤ N := hN ▸ Nat.le_self_pow (by decide) 2
  have ht1 : t + 1 < N := Nat.lt_of_le_of_ne hlt fun heq => hdiv (by rw [heq, Nat.mod_self])
  rw [Nat.mod_eq_of_lt ht1]
  have hq := Nat.div_mul_le_self (N - 1 - t) (t + 1)
  have h2q : (N - 1 - t) / (t + 1) * 2 ≤ (N - 1 - t) / (t + 1) * (t + 1) :=
    Nat.mul_le_mul_left _ (by omega)
  rw [Nat.mod_eq_of_lt (by omega)]
  omega

/-- Adding in `Uint192` is adding, while the sum stays below the bound. -/
theorem foldl_add_mod_eq {m : ℕ} :
    ∀ (l : List ℕ) (acc : ℕ), acc + l.sum < m → l.foldl (fun a b => (a + b) % m) acc = acc + l.sum
  | [], acc, _ => by rw [List.foldl_nil, List.sum_nil, Nat.add_zero]
  | b :: l, acc, h => by
      rw [List.sum_cons] at h
      rw [List.foldl_cons, Nat.mod_eq_of_lt (by omega), foldl_add_mod_eq l (acc + b) (by omega),
        List.sum_cons, Nat.add_assoc]

/-- One step of the maximum loop keeps the larger key. -/
theorem key_le_max_step (x y : SortableBlock H) :
    x.key ≤ (if SortableBlock.cmp x y = .gt then x else y).key ∧
      y.key ≤ (if SortableBlock.cmp x y = .gt then x else y).key := by
  split_ifs with hgt
  · rw [SortableBlock.cmp_eq_compare, compare_gt_iff_gt] at hgt
    exact ⟨le_rfl, hgt.le⟩
  · exact ⟨SortableBlock.cmp_ne_gt_iff.mp hgt, le_rfl⟩

/-- The maximum loop ends on a block whose key bounds every block's. -/
theorem key_le_foldl_max : ∀ (b : SortableBlock H) (bs : List (SortableBlock H)), ∀ c ∈ b :: bs,
    c.key ≤ (bs.foldl (fun x y => if SortableBlock.cmp x y = .gt then x else y) b).key
  | b, [], c, hc => by
      rw [List.mem_singleton.mp hc]
      rfl
  | b, y :: bs, c, hc => by
      rw [List.foldl_cons]
      have hstep := key_le_max_step b y
      have hmax := key_le_foldl_max (if SortableBlock.cmp b y = .gt then b else y) bs
      rcases List.mem_cons.mp hc with rfl | hc
      · exact hstep.1.trans (hmax _ List.mem_cons_self)
      rcases List.mem_cons.mp hc with rfl | hc
      · exact hstep.2.trans (hmax _ List.mem_cons_self)
      · exact hmax c (List.mem_cons_of_mem _ hc)

section Call

variable {self : GhostdagManager H} {parents : List H} {data : GhostdagData H}

/-- **SELECTED PARENT**: no parent has more blue work than the selected one. -/
theorem find_selected_parent_max {sp p : H} (h : self.find_selected_parent parents = .ok sp)
    (hp : p ∈ parents) :
    ∃ wp w, self.stores.get_blue_work p = .ok wp ∧ self.stores.get_blue_work sp = .ok w ∧
      wp ≤ w := by
  unfold GhostdagManager.find_selected_parent at h
  obtain ⟨keyed, hkeyed, hsel⟩ := (bind_eq_ok _ _ _).mp h
  have hall := (mapM_eq_ok _ _ _).mp hkeyed
  rw [← keyed_hashes hall] at hp
  obtain ⟨c, hc, rfl⟩ := List.mem_map.mp hp
  cases keyed with
  | nil => cases hsel
  | cons b bs =>
      cases hsel
      exact ⟨c.blue_work, _, keyed_stored hall c hc, keyed_stored hall _ (foldl_max_mem b bs),
        SortableBlock.blue_work_le_of_key_le (key_le_foldl_max b bs c hc)⟩

/-- A block other than `ORIGIN` whose target is nonzero adds positive work. -/
theorem blue_work_of_pos {b : H} {w : ℕ} (horigin : b ≠ self.origin)
    (htarget : ∀ bits, self.stores.bits b = some bits → from_compact_target_bits bits ≠ 0)
    (h : self.blue_work_of b = .ok w) : 0 < w := by
  unfold GhostdagManager.blue_work_of at h
  rw [if_neg horigin] at h
  obtain ⟨bits, hbits, hw⟩ := (bind_eq_ok _ _ _).mp h
  exact calc_work_pos hw (htarget bits (read_eq_ok.mp hbits))

/-- The blue work of a successful call: the selected parent's, plus the work
    of each mergeset blue, summed in `Uint192`. -/
theorem ghostdag_blue_work (h : self.ghostdag parents = .ok data) :
    ∃ w works, self.stores.get_blue_work data.selected_parent = .ok w ∧
      data.mergeset_blues.mapM self.blue_work_of = .ok works ∧
      data.blue_work = (w + works.foldl (fun a b => (a + b) % 2 ^ 192) 0) % 2 ^ 192 := by
  obtain ⟨sp, -, -, -, -, hsel, -, -, -, hsp, -⟩ := ghostdag_eq_ok h
  obtain ⟨sp', om, colored, score, works, w, hsel', -, -, -, -, hworks, hw, hdata⟩ :=
    ghostdag_steps h
  -- the selected parent the call read is the one its data records
  have hsp' : data.selected_parent = sp' := hsp.trans (Except.ok.inj (hsel.symm.trans hsel'))
  rw [hsp']
  subst hdata
  exact ⟨w, works, hw, hworks, rfl⟩

/-- **STEP**: committing the data of a call keeps blue work growing along
    parent links, when the selected parent is not `ORIGIN`, its target is
    nonzero and the call's blue-work sum stays below `2^192`. -/
theorem BlueWorkIncreasing.add_block {hash : H} {bits : UInt32}
    (hinc : BlueWorkIncreasing self.stores)
    (hstored : ∀ y, (self.stores.relations y).isSome = (self.stores.ghostdag y).isSome)
    (hfresh : self.stores.relations hash = none) (h : self.ghostdag parents = .ok data)
    (horigin : data.selected_parent ≠ self.origin)
    (htarget : ∀ b, self.stores.bits data.selected_parent = some b → from_compact_target_bits b ≠ 0)
    (hwrap : ∀ w works, self.stores.get_blue_work data.selected_parent = .ok w →
      data.mergeset_blues.mapM self.blue_work_of = .ok works → w + works.sum < 2 ^ 192) :
    BlueWorkIncreasing (self.stores.add_block hash parents bits data) := by
  -- a block with blue work is stored, so it is not the new one and keeps its work
  have hkeep : ∀ {y w}, self.stores.get_blue_work y = .ok w →
      (self.stores.add_block hash parents bits data).get_blue_work y = .ok w := by
    intro y w hy
    obtain ⟨d, hd, rfl⟩ := get_blue_work_eq_ok.mp hy
    have hrel : (self.stores.relations y).isSome := by
      rw [hstored, hd]
      rfl
    exact get_blue_work_eq_ok.mpr ⟨d, (ghostdag_add_block_of_stored hfresh hrel).trans hd, rfl⟩
  intro x y hxy
  rw [isParent_add_block] at hxy
  split_ifs at hxy with hx
  · -- a link of the new block: its parent has no more work than the selected parent
    subst hx
    obtain ⟨sp, m, om, color, score, hsel, -, -, -, hsp, hblues, -⟩ := ghostdag_eq_ok h
    subst hsp
    obtain ⟨w, works, hw, hworks, hbw⟩ := ghostdag_blue_work h
    obtain ⟨wp, w', hp, hw', hle⟩ := find_selected_parent_max hsel hxy
    rw [hw, Except.ok.injEq] at hw'
    subst hw'
    have hsum := hwrap w works hw hworks
    -- the selected parent's own work is positive
    rw [hblues] at hworks
    obtain ⟨wsp, ws, hwsp, -, rfl⟩ := List.forall₂_cons_left_iff.mp ((mapM_eq_ok _ _ _).mp hworks)
    have hpos := blue_work_of_pos horigin htarget hwsp
    refine ⟨data.blue_work, wp, get_blue_work_eq_ok.mpr ⟨data, if_pos rfl, rfl⟩, hkeep hp, ?_⟩
    rw [hbw, foldl_add_mod_eq _ 0 (by omega), Nat.mod_eq_of_lt (by omega), List.sum_cons]
    omega
  · obtain ⟨wx, wy, hwx, hwy, hlt⟩ := hinc x y hxy
    exact ⟨wx, wy, hkeep hwx, hkeep hwy, hlt⟩

end Call

/-! ## The order of a mergeset -/

/-- After a successful call, the ascending merge lists the whole mergeset,
    each block with its stored blue work, strictly ascending by
    `SortableBlock::cmp`, with the blues after the selected parent and the reds
    as parts of it, and never panics; the descending merge lists it reversed.
    Where blue work grows along parent links, the consensus order puts no block
    before an ancestor; genesis alone has that growth, and a call keeps it when
    its selected parent is not `ORIGIN`, has a nonzero target and the call's
    blue-work sum stays below `2^192`. -/
theorem ascending_mergeset_sorted_and_topological :
    (∀ (self : GhostdagManager H) (parents : List H) (data : GhostdagData H),
      self.ghostdag parents = .ok data →
      ∃ (mergeset : ListSet H) (asc : List (SortableBlock H)),
        unordered_mergeset_without_selected_parent self.stores.relations self.is_dag_ancestor_of
          data.selected_parent parents self.fuel = .ok mergeset ∧
        data.ascending_mergeset_without_selected_parent self.stores = .ok asc ∧
        (asc.map (·.hash)).Perm mergeset.elems ∧
        asc.Pairwise (fun a b => SortableBlock.cmp a b = .lt) ∧
        (∀ b ∈ asc, self.stores.get_blue_work b.hash = .ok b.blue_work) ∧
        data.mergeset_blues.tail.Sublist (asc.map (·.hash)) ∧
        data.mergeset_reds.Sublist (asc.map (·.hash)) ∧
        data.descending_mergeset_without_selected_parent self.stores = .ok asc.reverse) ∧
    (∀ (self : GhostdagManager H) (parents : List H) (data : GhostdagData H),
      self.ghostdag parents = .ok data →
      OracleCorrect self.stores.relations self.is_dag_ancestor_of →
      (∀ p ∈ parents, ∀ q ∈ parents, p ≠ q → ¬ InPast self.stores.relations q p) →
      BlueWorkIncreasing self.stores →
      ∃ order, data.consensus_ordered_mergeset self.stores = .ok order ∧
        order.Pairwise (fun a b => ¬ TransGen (IsParent self.stores.relations) a b)) ∧
    (∀ (genesis origin : H) (bits : UInt32),
      BlueWorkIncreasing (GhostdagStores.init genesis origin bits)) ∧
    (∀ (self : GhostdagManager H) (parents : List H) (data : GhostdagData H) (hash : H)
        (bits : UInt32), BlueWorkIncreasing self.stores →
      (∀ y, (self.stores.relations y).isSome = (self.stores.ghostdag y).isSome) →
      self.stores.relations hash = none → self.ghostdag parents = .ok data →
      data.selected_parent ≠ self.origin →
      (∀ b, self.stores.bits data.selected_parent = some b → from_compact_target_bits b ≠ 0) →
      (∀ w works, self.stores.get_blue_work data.selected_parent = .ok w →
        data.mergeset_blues.mapM self.blue_work_of = .ok works → w + works.sum < 2 ^ 192) →
      BlueWorkIncreasing (self.stores.add_block hash parents bits data)) := by
  refine ⟨fun self parents data h => ?_,
    fun self parents data h horacle hanti hinc =>
      consensus_ordered_mergeset_topological h horacle hanti hinc,
    BlueWorkIncreasing.init,
    fun self parents data hash bits hinc hstored hfresh h horigin htarget hwrap =>
      hinc.add_block hstored hfresh h horigin htarget hwrap⟩
  obtain ⟨m, asc, hm, hasc, hperm, hsorted, hstored, hblues, hreds, hdesc⟩ :=
    ghostdag_ascending_eq_ok h
  exact ⟨m, asc, hm, hasc, hperm, hsorted.imp compare_lt_iff_lt.mpr, hstored, hblues, hreds, hdesc⟩

theorem ascending_mergeset_sorted_and_topological_two_children :
    (∃ (mergeset : ListSet ℕ) (asc : List (SortableBlock ℕ)),
      unordered_mergeset_without_selected_parent two_children_stores.relations
        two_children_dag.search_is_dag_ancestor_of 2 [1, 2] 20 = .ok mergeset ∧
      merging_data.ascending_mergeset_without_selected_parent two_children_stores = .ok asc ∧
      (asc.map (·.hash)).Perm mergeset.elems ∧
      asc.Pairwise (fun a b => SortableBlock.cmp a b = .lt) ∧
      (∀ b ∈ asc, two_children_stores.get_blue_work b.hash = .ok b.blue_work) ∧
      merging_data.mergeset_blues.tail.Sublist (asc.map (·.hash)) ∧
      merging_data.mergeset_reds.Sublist (asc.map (·.hash)) ∧
      merging_data.descending_mergeset_without_selected_parent two_children_stores =
        .ok asc.reverse) ∧
    (∃ order, merging_data.consensus_ordered_mergeset two_children_stores = .ok order ∧
      order.Pairwise (fun a b => ¬ TransGen (IsParent two_children_stores.relations) a b)) ∧
    BlueWorkIncreasing two_children_stores := by
  -- both children are committed with the work of genesis added to nothing
  have hinc1 := ascending_mergeset_sorted_and_topological.2.2.2
    ⟨0, 100, 18, GhostdagStores.init 0 100 0x1d00ffff, (Dag.genesis 0).search_is_dag_ancestor_of,
      20⟩ [0] ⟨1, 4295032833, 0, [0], [], (∅ : Map ℕ ℕ).insert 0 0⟩ 1 0x1d00ffff
    (BlueWorkIncreasing.init 0 100 0x1d00ffff) (StoreInv.init 0 100 0x1d00ffff).stored rfl rfl
    (by decide) (fun b hb => by cases hb; decide)
    (fun w works hw hworks => by
      obtain rfl : w = 0 := Except.ok.inj (hw.symm.trans rfl)
      obtain rfl : works = [4295032833] := Except.ok.inj (hworks.symm.trans rfl)
      decide)
  have hinc2 : BlueWorkIncreasing two_children_stores := ascending_mergeset_sorted_and_topological.2.2.2
    ⟨0, 100, 18, _, first_child_dag.search_is_dag_ancestor_of, 20⟩
    [0] ⟨1, 4295032833, 0, [0], [], (∅ : Map ℕ ℕ).insert 0 0⟩ 2 0x1d00ffff hinc1
    (stored_add_block (StoreInv.init 0 100 0x1d00ffff).stored) rfl rfl
    (by decide) (fun b hb => by cases hb; decide)
    (fun w works hw hworks => by
      obtain rfl : w = 0 := Except.ok.inj (hw.symm.trans rfl)
      obtain rfl : works = [4295032833] := Except.ok.inj (hworks.symm.trans rfl)
      decide)
  have hcall : GhostdagManager.ghostdag ⟨0, 100, 18, two_children_stores,
      two_children_dag.search_is_dag_ancestor_of, 20⟩ [1, 2] = .ok merging_data := rfl
  exact ⟨ascending_mergeset_sorted_and_topological.1 _ [1, 2] merging_data hcall,
    ascending_mergeset_sorted_and_topological.2.1 _ [1, 2] merging_data hcall
      two_children_dag.search_oracle_correct two_children_antichain hinc2, hinc2⟩

/-! ## When the blue work wraps

    Target `2^64` (difficulty bits `0x09010000`) has work just below `2^192`,
    so the blue work of a block two links above genesis wraps below that of
    its parent. -/

/-- Difficulty bits `0x09010000`: target `2^64`. -/
def wrap_bits : UInt32 := 0x09010000

/-- The work of `wrap_bits`, as `calc_work` computes it. -/
def wrap_work : ℕ := 6277101735386680763495507056286727952657427581105975853055

/-- Genesis `0`; `1` on genesis; `2` on `1`; `3` on genesis; each committed with
    the data `ghostdag` gives it, all at `wrap_bits`. -/
def wrap_stores : GhostdagStores ℕ :=
  (((GhostdagStores.init 0 100 wrap_bits).add_block 1 [0] wrap_bits
    ⟨1, wrap_work, 0, [0], [], (∅ : Map ℕ ℕ).insert 0 0⟩).add_block 2 [1] wrap_bits
    ⟨2, 2 * wrap_work % 2 ^ 192, 1, [1], [], (∅ : Map ℕ ℕ).insert 1 0⟩).add_block 3 [0] wrap_bits
    ⟨1, wrap_work, 0, [0], [], (∅ : Map ℕ ℕ).insert 0 0⟩

/-- The relations of `wrap_stores`. -/
def wrap_dag : Dag ℕ :=
  ((first_child_dag.add_block 2 [1] (by decide)).add_block 3 [0] (by decide))

/-- The manager that colours the block merging `3` and `2`. -/
def wrap_manager : GhostdagManager ℕ :=
  ⟨0, 100, 18, wrap_stores, wrap_dag.search_is_dag_ancestor_of, 20⟩

/-- The data `ghostdag` gives the block merging `3` and `2`. -/
def wrap_data : GhostdagData ℕ :=
  ⟨4, 4 * wrap_work % 2 ^ 192, 3, [3, 2, 1], [],
    (((∅ : Map ℕ ℕ).insert 1 2).insert 2 2).insert 3 2⟩

/-- `wrap_stores` is grown by `ghostdag` from genesis. -/
theorem wrap_stores_built : Built 0 100 18 wrap_stores :=
  Built.add 3 [0] wrap_bits _ (first_child_dag.add_block 2 [1] (by decide)).search_is_dag_ancestor_of
    20 (Built.add 2 [1] wrap_bits _ first_child_dag.search_is_dag_ancestor_of 20
      (Built.add 1 [0] wrap_bits _ (Dag.genesis 0).search_is_dag_ancestor_of 20
        (Built.genesis wrap_bits) rfl (by decide) (antichain_singleton _ 0)
        (Dag.genesis 0).search_oracle_correct rfl)
      rfl (by decide) (antichain_singleton _ 1) first_child_dag.search_oracle_correct rfl)
    rfl (by decide) (antichain_singleton _ 0)
    (first_child_dag.add_block 2 [1] (by decide)).search_oracle_correct rfl

/-- Every block of `wrap_stores` has a nonzero target. -/
theorem wrap_stores_targets (h : ℕ) (b : UInt32) (hb : wrap_stores.bits h = some b) :
    from_compact_target_bits b ≠ 0 := by
  dsimp only [wrap_stores, GhostdagStores.add_block, GhostdagStores.init] at hb
  split_ifs at hb <;> (cases hb; decide)

theorem wrap_manager_ghostdag : wrap_manager.ghostdag [3, 2] = .ok wrap_data := rfl

/-- Over a DAG grown by `ghostdag` with nonzero targets, the consensus order of
    the block merging `3` and `2` lists `2` before its parent `1`: the blue work
    of `2` wrapped below that of `1`. -/
theorem consensus_ordered_mergeset_wraps :
    Built 0 100 18 wrap_stores ∧
    (∀ h b, wrap_stores.bits h = some b → from_compact_target_bits b ≠ 0) ∧
    wrap_manager.ghostdag [3, 2] = .ok wrap_data ∧
    wrap_data.consensus_ordered_mergeset wrap_stores = .ok [3, 2, 1] ∧
    IsParent wrap_stores.relations 2 1 := by
  have hblues : wrap_data.mergeset_blues.tail.mapM (fun block => do
      pure (⟨block, ← wrap_stores.get_blue_work block⟩ : SortableBlock ℕ)) =
      .ok [⟨2, 2 * wrap_work % 2 ^ 192⟩, ⟨1, wrap_work⟩] := rfl
  have hreds : wrap_data.mergeset_reds.mapM (fun block => do
      pure (⟨block, ← wrap_stores.get_blue_work block⟩ : SortableBlock ℕ)) = .ok [] := rfl
  refine ⟨wrap_stores_built, wrap_stores_targets, wrap_manager_ghostdag, ?_, ⟨[1], rfl, by decide⟩⟩
  -- the reds are empty, so the merge lists the blues as sorted
  unfold GhostdagData.consensus_ordered_mergeset
    GhostdagData.ascending_mergeset_without_selected_parent
  rw [hblues, ok_bind, hreds, ok_bind, merge_join_by_nil_right, take_merged_map_left]
  rfl

/-- Over the same DAG, the data of the block merging `3` and `2` counts two
    blues in the anticone of `2`, while its blue set, its mergeset blues and
    the blue chain `[0]` of its selected parent `3`, has one: `3`. Coloring
    `1` after its child `2`, the check took `2` for a block of `1`'s anticone. -/
theorem blues_anticone_sizes_overcount_after_wrap :
    Built 0 100 18 wrap_stores ∧
    wrap_manager.ghostdag [3, 2] = .ok wrap_data ∧
    BlueChain wrap_stores 0 3 [0] ∧
    wrap_data.blues_anticone_sizes.get 2 = some 2 ∧
    ∀ x ∈ wrap_data.mergeset_blues ++ [0],
      (¬ InPast wrap_stores.relations 2 x ∧ ¬ InPast wrap_stores.relations x 2) ↔ x = 3 := by
  have hchain : BlueChain wrap_stores 0 3 [0] :=
    @BlueChain.chain ℕ wrap_stores 0 3 ⟨1, wrap_work, 0, [0], [], (∅ : Map ℕ ℕ).insert 0 0⟩ []
      (by decide) rfl BlueChain.genesis
  refine ⟨wrap_stores_built, wrap_manager_ghostdag, hchain, rfl, ?_⟩
  intro x hx
  -- the search decides the past on `wrap_dag`, whose relations are the store's
  show ¬ InPast wrap_dag.relations 2 x ∧ ¬ InPast wrap_dag.relations x 2 ↔ x = 3
  rw [← wrap_dag.search_oracle_correct x 2, ← wrap_dag.search_oracle_correct 2 x]
  simp only [wrap_data, List.cons_append, List.nil_append, List.mem_cons, List.not_mem_nil,
    or_false] at hx
  rcases hx with rfl | rfl | rfl | rfl <;> decide

end KashGhostdag
