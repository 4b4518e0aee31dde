import Kash.UtxoDiff
import Kash.Lib.ExceptLoops

/-! # The laws of the UTXO diff algebra

    `with_diff` is documented as "equal to if the first diff, and then the second
    diff were applied to the same base UTXO set", and `diff_from` as its inverse,
    checked in `test_utxo_diff_rules` by a round trip over twenty-four
    single-outpoint cases. Both are per-outpoint (`UtxoDiff`), so each law is a law
    about one outpoint's cells, proved here by splitting on the five optional
    entries involved, and lifted to whole diffs.

    The laws do not hold for every pair of diffs, for three reasons the code gives:

    * the set operators compare entries by DAA score only, and `diff_from` assumes
      that "if an outpoint exists in both diffs, its underlying values would be the
      same" — so two entries of one outpoint with one DAA score must be one entry
      (`EntriesByScore`);
    * a diff that adds and removes one outpoint with one DAA score is not what
      `add_entry` / `remove_entry` build — such a pair cancels — and `with_diff`
      cancels it too, so it cannot be recovered (`UtxoDiff.WellFormed`);
    * "both diffs are from the same base": what a diff removes must be in the set it
      is applied to (`UtxoDiff.ApplicableTo`).

    Under these the composition law (`with_diff_composes`) and both round trips
    (`diff_from_with_diff_inverse`) hold; without them, each fails on one outpoint
    (`with_diff_not_sequential`, `diff_from_with_diff_not_inverse`). -/

namespace KashUtxoDiff

open KashTx AListLoops

/-! ## What a diff does to a UTXO set, one outpoint at a time -/

/-- A diff's cell applied to a base entry: `ComposedUtxoView::get` at one outpoint. -/
def applyCell (base : Option UtxoEntry) (c : Cell) : Option UtxoEntry :=
  match c.add with
  | some e => some e
  | none => if c.remove.isSome then none else base

/-- A composed view reads, at each outpoint, the cell applied to the base there. -/
theorem compose_eq_applyCell (base : UtxoView) (d : UtxoDiff) (o : TransactionOutpoint) :
    compose base d o = applyCell (base o) (d.cell o) := by
  unfold compose applyCell UtxoDiff.cell
  cases d.add.get o with
  | some e => rfl
  | none => simp only [mem_iff_get_isSome]

/-- A cell can be applied to a base entry: what it removes is there with the removed
    DAA score, and what it adds is absent unless it is also removed. -/
def Applicable (base : Option UtxoEntry) (c : Cell) : Prop :=
  (∀ e, c.remove = some e → ∃ b, base = some b ∧ b.block_daa_score = e.block_daa_score) ∧
    (c.add.isSome → c.remove.isSome ∨ base = none)

/-- A diff can be applied to a view, at every outpoint. -/
def UtxoDiff.ApplicableTo (d : UtxoDiff) (base : UtxoView) : Prop :=
  ∀ o, Applicable (base o) (d.cell o)

/-- A cell never adds and removes one outpoint with one DAA score: `add_entry` and
    `remove_entry` cancel such a pair instead of recording it. -/
def Cell.WellFormed (c : Cell) : Prop :=
  ∀ a r, c.add = some a → c.remove = some r → a.block_daa_score ≠ r.block_daa_score

/-- A diff is well formed at every outpoint. -/
def UtxoDiff.WellFormed (d : UtxoDiff) : Prop := ∀ o, (d.cell o).WellFormed

/-- A present entry is the one `entry_of` gives for its DAA score. -/
def ByScore (entry_of : UInt64 → UtxoEntry) (x : Option UtxoEntry) : Prop :=
  ∀ e, x = some e → e = entry_of e.block_daa_score

/-- Every entry of a view is determined by its outpoint and its DAA score. -/
def EntriesByScore (entry_at : TransactionOutpoint → UInt64 → UtxoEntry) (v : UtxoView) :
    Prop :=
  ∀ o, ByScore (entry_at o) (v o)

/-- Every entry a diff adds or removes is determined by its outpoint and DAA score. -/
def UtxoDiff.EntriesByScore (entry_at : TransactionOutpoint → UInt64 → UtxoEntry)
    (d : UtxoDiff) : Prop :=
  KashUtxoDiff.EntriesByScore entry_at d.add.view ∧
    KashUtxoDiff.EntriesByScore entry_at d.remove.view

/-! ## The laws on cells

    Each law is a finite check: split on which of the five optional entries (the
    base's and the four cell sides) are present; what is left are comparisons of
    DAA scores, and equalities of entries that `ByScore` reduces to them. -/

/-- **COMPOSITION, ONE OUTPOINT**: applying `withDiffCell c1 c2` is applying `c1` and
    then `c2`. -/
theorem applyCell_withDiffCell (entry_of : UInt64 → UtxoEntry) (b : Option UtxoEntry)
    (c1 c2 : Cell) (h1 : Applicable b c1) (h2 : Applicable (applyCell b c1) c2)
    (hb : ByScore entry_of b) (ha1 : ByScore entry_of c1.add)
    (hr1 : ByScore entry_of c1.remove) (ha2 : ByScore entry_of c2.add)
    (hr2 : ByScore entry_of c2.remove) (hc : withDiffClash c1 c2 = false) :
    applyCell b (withDiffCell c1 c2) = applyCell (applyCell b c1) c2 := by
  obtain ⟨a1, r1⟩ := c1
  obtain ⟨a2, r2⟩ := c2
  rcases b with _ | b <;> rcases a1 with _ | a1 <;> rcases r1 with _ | r1 <;>
    rcases a2 with _ | a2 <;> rcases r2 with _ | r2 <;>
    simp only [Applicable, applyCell, withDiffCell, withDiffClash, hasScore, ByScore] at * <;>
    grind

/-- **DIFF THEN WITH, ONE OUTPOINT**: for two well-formed cells applicable to one base,
    `diff_from` passes its checks and `with_diff` of its result gives the second cell
    back. -/
theorem withDiffCell_diffFromCell (entry_of : UInt64 → UtxoEntry) (b : Option UtxoEntry)
    (c1 c2 : Cell) (w1 : c1.WellFormed) (w2 : c2.WellFormed)
    (h1 : Applicable b c1) (h2 : Applicable b c2)
    (ha1 : ByScore entry_of c1.add) (hr1 : ByScore entry_of c1.remove)
    (ha2 : ByScore entry_of c2.add) (hr2 : ByScore entry_of c2.remove) :
    diffFromClash c1 c2 = false ∧ generalAgrees c1 c2 = true ∧
      withDiffClash c1 (diffFromCell c1 c2) = false ∧
      withDiffCell c1 (diffFromCell c1 c2) = c2 := by
  obtain ⟨a1, r1⟩ := c1
  obtain ⟨a2, r2⟩ := c2
  rcases b with _ | b <;> rcases a1 with _ | a1 <;> rcases r1 with _ | r1 <;>
    rcases a2 with _ | a2 <;> rcases r2 with _ | r2 <;>
    simp only [Applicable, Cell.WellFormed, diffFromClash, generalAgrees, inBothToAdd,
      withDiffClash, withDiffCell, diffFromCell, keepUnless, hasScore, ByScore] at * <;>
    grind

/-- **WITH THEN DIFF, ONE OUTPOINT**: for a well-formed cell applicable to a base and a
    well-formed cell applicable after it, `diff_from` of the composition passes its
    checks and gives the second cell back. -/
theorem diffFromCell_withDiffCell (entry_of : UInt64 → UtxoEntry) (b : Option UtxoEntry)
    (c1 c2 : Cell) (w1 : c1.WellFormed) (w2 : c2.WellFormed)
    (h1 : Applicable b c1) (h2 : Applicable (applyCell b c1) c2)
    (ha1 : ByScore entry_of c1.add) (hr1 : ByScore entry_of c1.remove)
    (ha2 : ByScore entry_of c2.add) (hr2 : ByScore entry_of c2.remove)
    (hc : withDiffClash c1 c2 = false) :
    diffFromClash c1 (withDiffCell c1 c2) = false ∧
      generalAgrees c1 (withDiffCell c1 c2) = true ∧
      diffFromCell c1 (withDiffCell c1 c2) = c2 := by
  obtain ⟨a1, r1⟩ := c1
  obtain ⟨a2, r2⟩ := c2
  rcases b with _ | b <;> rcases a1 with _ | a1 <;> rcases r1 with _ | r1 <;>
    rcases a2 with _ | a2 <;> rcases r2 with _ | r2 <;>
    simp only [applyCell, Applicable, Cell.WellFormed, diffFromClash, generalAgrees,
      inBothToAdd, withDiffClash, withDiffCell, diffFromCell, keepUnless, hasScore,
      ByScore] at * <;>
    grind

/-- Under applicability, `with_diff` never reports a double removal or addition: a
    second removal finds the entry the first diff re-added, with its DAA score, and a
    second addition is preceded by a removal of the first one. -/
theorem withDiffClash_eq_false (b : Option UtxoEntry) (c1 c2 : Cell)
    (h1 : Applicable b c1) (h2 : Applicable (applyCell b c1) c2) :
    withDiffClash c1 c2 = false := by
  obtain ⟨a1, r1⟩ := c1
  obtain ⟨a2, r2⟩ := c2
  rcases b with _ | b <;> rcases a1 with _ | a1 <;> rcases r1 with _ | r1 <;>
    rcases a2 with _ | a2 <;> rcases r2 with _ | r2 <;>
    simp only [Applicable, applyCell, withDiffClash, hasScore] at * <;>
    grind

/-! ## The laws on whole diffs -/

section Laws

variable (entry_at : TransactionOutpoint → UInt64 → UtxoEntry)

/-- The four sides of two diffs' cells at one outpoint are determined by score. -/
theorem cells_byScore {d : UtxoDiff} (e : d.EntriesByScore entry_at) (o : TransactionOutpoint) :
    ByScore (entry_at o) (d.cell o).add ∧ ByScore (entry_at o) (d.cell o).remove :=
  ⟨e.1 o, e.2 o⟩

/-- `with_diff` succeeds on a diff applicable to a view and a diff applicable after it. -/
theorem with_diff_ok_of_applicable (base : UtxoView) (d1 d2 : UtxoDiff)
    (h1 : d1.ApplicableTo base) (h2 : d2.ApplicableTo (compose base d1)) :
    ∃ d, with_diff d1 d2 = .ok d := by
  rw [with_diff_ok_iff]
  intro o
  have h2o := h2 o
  rw [compose_eq_applyCell] at h2o
  exact withDiffClash_eq_false (base o) _ _ (h1 o) h2o

/-- **WITH_DIFF IS SEQUENTIAL APPLICATION**: for a diff `d1` applicable to a view and
    a diff `d2` applicable to the view after `d1`, with every entry of the view and
    of both diffs determined by its outpoint and DAA score, `d1.with_diff(d2)`
    succeeds, and the view composed with its result reads, at every outpoint, what
    the view composed with `d1` and then `d2` reads. -/
theorem with_diff_composes (base : UtxoView) (d1 d2 : UtxoDiff)
    (h1 : d1.ApplicableTo base) (h2 : d2.ApplicableTo (compose base d1))
    (hb : EntriesByScore entry_at base) (e1 : d1.EntriesByScore entry_at)
    (e2 : d2.EntriesByScore entry_at) :
    ∃ d, with_diff d1 d2 = .ok d ∧
      ∀ o, compose base d o = compose (compose base d1) d2 o := by
  obtain ⟨d, hd⟩ := with_diff_ok_of_applicable base d1 d2 h1 h2
  refine ⟨d, hd, fun o => ?_⟩
  have h2o := h2 o
  rw [compose_eq_applyCell] at h2o
  obtain ⟨ha1, hr1⟩ := cells_byScore entry_at e1 o
  obtain ⟨ha2, hr2⟩ := cells_byScore entry_at e2 o
  have hc := (with_diff_ok_iff d1 d2).mp ⟨d, hd⟩ o
  rw [compose_eq_applyCell, compose_eq_applyCell, compose_eq_applyCell, with_diff_cell hd o]
  exact applyCell_withDiffCell (entry_at o) (base o) _ _ (h1 o) h2o (hb o) ha1 hr1 ha2 hr2 hc

/-- `diff_from` then `with_diff`: for two well-formed diffs applicable to one view,
    `diff_from` succeeds and `with_diff` of its result succeeds and gives `other`
    back, up to `==`. -/
theorem diff_from_then_with_diff (base : UtxoView) (this other : UtxoDiff)
    (w1 : this.WellFormed) (w2 : other.WellFormed)
    (e1 : this.EntriesByScore entry_at) (e2 : other.EntriesByScore entry_at)
    (h1 : this.ApplicableTo base) (h2 : other.ApplicableTo base) :
    ∃ d, diff_from this other = .ok d ∧ ∃ w, with_diff this d = .ok w ∧ diff_eq w other := by
  -- the cell law, at every outpoint
  have law : ∀ o, diffFromClash (this.cell o) (other.cell o) = false ∧
      generalAgrees (this.cell o) (other.cell o) = true ∧
      withDiffClash (this.cell o) (diffFromCell (this.cell o) (other.cell o)) = false ∧
      withDiffCell (this.cell o) (diffFromCell (this.cell o) (other.cell o)) = other.cell o :=
    fun o => withDiffCell_diffFromCell (entry_at o) (base o) _ _ (w1 o) (w2 o) (h1 o) (h2 o)
      (e1.1 o) (e1.2 o) (e2.1 o) (e2.2 o)
  obtain ⟨d, hd⟩ := diff_from_ok_of (fun o => (law o).1) (fun o => (law o).2.1)
  have hok : ∃ w, with_diff this d = .ok w := by
    rw [with_diff_ok_iff]
    intro o
    rw [diff_from_cell hd o]
    exact (law o).2.2.1
  obtain ⟨w, hw⟩ := hok
  refine ⟨d, hd, w, hw, (diff_eq_iff_cells w other).mpr fun o => ?_⟩
  rw [with_diff_cell hw o, diff_from_cell hd o]
  exact (law o).2.2.2

/-- `with_diff` then `diff_from`: for a well-formed diff applicable to a view and a
    well-formed diff applicable after it, `with_diff` succeeds and `diff_from` of its
    result succeeds and gives `other` back, up to `==`. -/
theorem with_diff_then_diff_from (base : UtxoView) (this other : UtxoDiff)
    (w1 : this.WellFormed) (w2 : other.WellFormed)
    (e1 : this.EntriesByScore entry_at) (e2 : other.EntriesByScore entry_at)
    (h1 : this.ApplicableTo base) (h2 : other.ApplicableTo (compose base this)) :
    ∃ w, with_diff this other = .ok w ∧ ∃ d, diff_from this w = .ok d ∧ diff_eq d other := by
  obtain ⟨w, hw⟩ := with_diff_ok_of_applicable base this other h1 h2
  -- the cell law, at every outpoint, read through the cells of the composition
  have law : ∀ o, diffFromClash (this.cell o) (w.cell o) = false ∧
      generalAgrees (this.cell o) (w.cell o) = true ∧
      diffFromCell (this.cell o) (w.cell o) = other.cell o := by
    intro o
    have h2o := h2 o
    rw [compose_eq_applyCell] at h2o
    rw [with_diff_cell hw o]
    exact diffFromCell_withDiffCell (entry_at o) (base o) _ _ (w1 o) (w2 o) (h1 o) h2o
      (e1.1 o) (e1.2 o) (e2.1 o) (e2.2 o) ((with_diff_ok_iff this other).mp ⟨w, hw⟩ o)
  obtain ⟨d, hd⟩ := diff_from_ok_of (fun o => (law o).1) (fun o => (law o).2.1)
  refine ⟨w, hw, d, hd, (diff_eq_iff_cells d other).mpr fun o => ?_⟩
  rw [diff_from_cell hd o]
  exact (law o).2.2

/-- **DIFF_FROM AND WITH_DIFF ARE INVERSE**: for well-formed diffs whose entries are
    determined by outpoint and DAA score, `this` applicable to a view: if `other` is
    applicable to the same view, `with_diff` undoes `diff_from`; if `other` is
    applicable after `this`, `diff_from` undoes `with_diff`. Each call succeeds, and
    the round trip gives `other` back up to `==` (the same entry at every outpoint). -/
theorem diff_from_with_diff_inverse (base : UtxoView) (this other : UtxoDiff)
    (w1 : this.WellFormed) (w2 : other.WellFormed)
    (e1 : this.EntriesByScore entry_at) (e2 : other.EntriesByScore entry_at)
    (h1 : this.ApplicableTo base) :
    (other.ApplicableTo base →
      ∃ d, diff_from this other = .ok d ∧ ∃ w, with_diff this d = .ok w ∧ diff_eq w other) ∧
    (other.ApplicableTo (compose base this) →
      ∃ w, with_diff this other = .ok w ∧ ∃ d, diff_from this w = .ok d ∧ diff_eq d other) :=
  ⟨diff_from_then_with_diff entry_at base this other w1 w2 e1 e2 h1,
    with_diff_then_diff_from entry_at base this other w1 w2 e1 e2 h1⟩

end Laws

/-! ## Every diff the code builds is well formed

    `remove_entry` and `add_entry` cancel an entry of the other side that has the
    DAA score of the new one, so the side they record never meets an equal score:
    `add_transaction`, and any run of it, keeps a diff well formed. -/

/-- `remove_entry` keeps a diff well formed. -/
theorem remove_entry_wellFormed {self d : UtxoDiff} {outpoint : TransactionOutpoint}
    {entry : UtxoEntry} (hw : self.WellFormed) (h : remove_entry self outpoint entry = .ok d) :
    d.WellFormed := by
  unfold remove_entry at h
  intro o a r ha hr
  split_ifs at h with hadd hfresh
  · -- the addition is cancelled: one side shrinks
    cases h
    simp only [UtxoDiff.cell, get_erase] at ha hr
    split_ifs at ha
    exact hw o a r ha hr
  · -- the removal is recorded: no addition has its score
    cases h
    simp only [UtxoDiff.cell, get_insert] at ha hr
    split_ifs at hr with ho
    · subst ho
      cases hr
      simp only [contains_with_daa_score, hasScore, ha, beq_iff_eq] at hadd
      exact hadd
    · exact hw o a r ha hr

/-- `add_entry` keeps a diff well formed. -/
theorem add_entry_wellFormed {self d : UtxoDiff} {outpoint : TransactionOutpoint}
    {entry : UtxoEntry} (hw : self.WellFormed) (h : add_entry self outpoint entry = .ok d) :
    d.WellFormed := by
  unfold add_entry at h
  intro o a r ha hr
  split_ifs at h with hrem hfresh
  · -- the removal is cancelled: one side shrinks
    cases h
    simp only [UtxoDiff.cell, get_erase] at ha hr
    split_ifs at hr
    exact hw o a r ha hr
  · -- the addition is recorded: no removal has its score
    cases h
    simp only [UtxoDiff.cell, get_insert] at ha hr
    split_ifs at ha with ho
    · subst ho
      cases ha
      simp only [contains_with_daa_score, hasScore, hr, beq_iff_eq] at hrem
      exact fun heq => hrem heq.symm
    · exact hw o a r ha hr

/-- **ADD_TRANSACTION KEEPS DIFFS WELL FORMED**: a transaction added to a well-formed
    diff leaves it well formed. -/
theorem add_transaction_wellFormed {self d : UtxoDiff} {transaction : PopulatedTransaction}
    {block_daa_score : UInt64} (hw : self.WellFormed)
    (h : add_transaction self transaction block_daa_score = .ok d) : d.WellFormed := by
  unfold add_transaction at h
  obtain ⟨d₁, h₁, h₂⟩ := (ExceptLoops.bind_eq_ok _ _ _).mp h
  -- the spends, then the outputs, each step keeping the invariant
  have hw₁ : d₁.WellFormed :=
    ExceptLoops.foldlM_invariant UtxoDiff.WellFormed _
      (fun _ _ _ hb hs => remove_entry_wellFormed hb hs) _ _ _ hw h₁
  exact ExceptLoops.foldlM_invariant UtxoDiff.WellFormed _
    (fun _ _ _ hb hs => add_entry_wellFormed hb hs) _ _ _ hw₁ h₂

/-- The empty diff, where every run of `add_transaction` starts, is well formed. -/
theorem empty_wellFormed : UtxoDiff.empty.WellFormed := by
  intro o a r ha
  cases ha

/-! ## Where the laws fail without their hypotheses

    One outpoint `o0` is enough. `tx_a` is an entry created at DAA score 0; `tx_c`
    has the same outpoint and score and another amount. -/

/-- The outpoint of the examples. -/
def o0 : TransactionOutpoint := ⟨ZERO_HASH, 0⟩

/-- An entry at DAA score 0. -/
def tx_a : UtxoEntry := ⟨10, ⟨0, []⟩, 0, false, .KSH⟩

/-- Another entry at DAA score 0. -/
def tx_c : UtxoEntry := ⟨20, ⟨0, []⟩, 0, false, .KSH⟩

/-- A view holding only `tx_a` at `o0`. -/
def base_a : UtxoView := fun o => if o = o0 then some tx_a else none

/-- A diff that spends `tx_a` and creates `tx_c` at the same outpoint and score. -/
def replace_a_by_c : UtxoDiff := ⟨(∅ : UtxoCollection).insert o0 tx_c, (∅ : UtxoCollection).insert o0 tx_a⟩

/-- A diff that adds and removes `tx_a`. -/
def add_remove_a : UtxoDiff := ⟨(∅ : UtxoCollection).insert o0 tx_a, (∅ : UtxoCollection).insert o0 tx_a⟩

theorem empty_applicableTo (base : UtxoView) : UtxoDiff.empty.ApplicableTo base := by
  intro o
  refine ⟨fun e he => ?_, fun ha => ?_⟩
  · simp [UtxoDiff.empty, UtxoDiff.cell] at he
  · simp [UtxoDiff.empty, UtxoDiff.cell] at ha

theorem compose_empty (base : UtxoView) : compose base UtxoDiff.empty = base := by
  funext o
  rw [compose_eq_applyCell]
  rfl

/-- Without entries determined by score, the composition law fails: `with_diff`
    cancels `replace_a_by_c`'s removal of `tx_a` against its own addition of `tx_c`,
    one score for both, and the composed view still reads `tx_a` where applying the
    diffs in turn reads `tx_c`. -/
theorem with_diff_not_sequential :
    ¬ ∀ (base : UtxoView) (d1 d2 d : UtxoDiff), d1.ApplicableTo base →
      d2.ApplicableTo (compose base d1) → with_diff d1 d2 = .ok d →
      ∀ o, compose base d o = compose (compose base d1) d2 o := by
  intro h
  have happ : replace_a_by_c.ApplicableTo (compose base_a UtxoDiff.empty) := by
    rw [compose_empty]
    intro o
    by_cases ho : o = o0
    · subst ho
      refine ⟨fun e he => ⟨tx_a, rfl, ?_⟩, fun _ => Or.inl rfl⟩
      cases he
      rfl
    · refine ⟨fun e he => ?_, fun ha => ?_⟩
      · simp [replace_a_by_c, UtxoDiff.cell, ho] at he
      · simp [replace_a_by_c, UtxoDiff.cell, ho] at ha
  have hw : with_diff UtxoDiff.empty replace_a_by_c = .ok UtxoDiff.empty := by rfl
  have hread := h base_a UtxoDiff.empty replace_a_by_c UtxoDiff.empty
    (empty_applicableTo base_a) happ hw o0
  rw [compose_empty] at hread
  -- the left side is the base's tx_a; the right side is the added tx_c
  have hl : base_a o0 = some tx_a := by simp [base_a]
  have hr : compose base_a replace_a_by_c o0 = some tx_c := rfl
  rw [hl, hr] at hread
  cases hread

/-- Without well-formed diffs, the round trip fails: `diff_from` of the empty diff
    and `add_remove_a` is `add_remove_a` itself, and `with_diff` cancels its addition
    against its removal, giving the empty diff. -/
theorem diff_from_with_diff_not_inverse :
    ¬ ∀ (this other d : UtxoDiff), diff_from this other = .ok d →
      ∃ w, with_diff this d = .ok w ∧ diff_eq w other := by
  intro h
  obtain ⟨w, hw, heq⟩ := h UtxoDiff.empty add_remove_a add_remove_a (by rfl)
  have hempty : with_diff UtxoDiff.empty add_remove_a = .ok UtxoDiff.empty := by rfl
  rw [hempty] at hw
  cases hw
  have hcell := (diff_eq_iff_cells _ _).mp heq o0
  simp [UtxoDiff.empty, UtxoDiff.cell, add_remove_a] at hcell

/-! ## The laws on a spend and a re-creation

    `spend_a` spends `tx_a` from `base_a`; `create_b` then creates `tx_b` at the
    same outpoint, at DAA score 1. -/

/-- An entry at DAA score 1. -/
def tx_b : UtxoEntry := ⟨20, ⟨0, []⟩, 1, false, .KSH⟩

/-- A diff that spends `tx_a`. -/
def spend_a : UtxoDiff := ⟨∅, (∅ : UtxoCollection).insert o0 tx_a⟩

/-- A diff that creates `tx_b`. -/
def create_b : UtxoDiff := ⟨(∅ : UtxoCollection).insert o0 tx_b, ∅⟩

/-- A transaction spending `o0`, populated with `tx_a`, the entry `base_a` holds there. -/
def spend_o0 : PopulatedTransaction :=
  ⟨⟨0, [⟨o0, [], 0, 0⟩], [], .TransferKSH, 0, SUBNETWORK_ID_NATIVE, 0, [], 0, ZERO_HASH⟩,
    [tx_a], rfl⟩

/-- A transaction whose one output is created at `o0`: the entry `tx_c` at DAA
    score 0, `tx_b` at DAA score 1. -/
def recreate_o0 : PopulatedTransaction :=
  ⟨⟨0, [], [⟨20, ⟨0, []⟩, .KSH⟩], .TransferKSH, 0, SUBNETWORK_ID_NATIVE, 0, [], 0, ZERO_HASH⟩,
    [], rfl⟩

/-- `spend_a` is the diff `add_transaction` builds for the spend. -/
theorem add_transaction_spend_o0 : add_transaction UtxoDiff.empty spend_o0 0 = .ok spend_a := rfl

/-- `create_b` is the diff `add_transaction` builds for the re-creation at DAA score 1. -/
theorem add_transaction_recreate_o0 :
    add_transaction UtxoDiff.empty recreate_o0 1 = .ok create_b := rfl

/-- The entries of the run, by DAA score. -/
def entry_ab : TransactionOutpoint → UInt64 → UtxoEntry := fun _ daa =>
  if daa = 0 then tx_a else tx_b

theorem spend_a_applicableTo : spend_a.ApplicableTo base_a := by
  intro o
  by_cases ho : o = o0
  · subst ho
    refine ⟨fun e he => ⟨tx_a, rfl, ?_⟩, fun ha => ?_⟩
    · cases he
      rfl
    · cases ha
  · refine ⟨fun e he => ?_, fun ha => ?_⟩
    · simp [spend_a, UtxoDiff.cell, ho] at he
    · cases ha

theorem create_b_applicableTo : create_b.ApplicableTo (compose base_a spend_a) := by
  intro o
  by_cases ho : o = o0
  · subst ho
    exact ⟨fun e he => (by cases he), fun _ => Or.inr rfl⟩
  · refine ⟨fun e he => ?_, fun ha => ?_⟩
    · cases he
    · simp [create_b, UtxoDiff.cell, ho] at ha

theorem base_a_byScore : EntriesByScore entry_ab base_a := by
  intro o e he
  by_cases ho : o = o0
  · simp only [base_a, ho, if_true, Option.some.injEq] at he
    subst he
    rfl
  · simp [base_a, ho] at he

theorem spend_a_byScore : spend_a.EntriesByScore entry_ab := by
  refine ⟨fun o e he => ?_, fun o e he => ?_⟩
  · cases he
  · by_cases ho : o = o0
    · simp only [spend_a, UtxoCollection.view, get_insert, ho, if_true,
        Option.some.injEq] at he
      subst he
      rfl
    · simp [spend_a, UtxoCollection.view, ho] at he

theorem create_b_byScore : create_b.EntriesByScore entry_ab := by
  refine ⟨fun o e he => ?_, fun o e he => ?_⟩
  · by_cases ho : o = o0
    · simp only [create_b, UtxoCollection.view, get_insert, ho, if_true,
        Option.some.injEq] at he
      subst he
      rfl
    · simp [create_b, UtxoCollection.view, ho] at he
  · cases he

theorem spend_a_wellFormed : spend_a.WellFormed :=
  add_transaction_wellFormed empty_wellFormed add_transaction_spend_o0

theorem create_b_wellFormed : create_b.WellFormed :=
  add_transaction_wellFormed empty_wellFormed add_transaction_recreate_o0

/-- Spending `tx_a` and re-creating its outpoint composes like applying the two
    diffs in turn. -/
theorem with_diff_composes_respend :
    ∃ d, with_diff spend_a create_b = .ok d ∧
      ∀ o, compose base_a d o = compose (compose base_a spend_a) create_b o :=
  with_diff_composes entry_ab base_a spend_a create_b spend_a_applicableTo
    create_b_applicableTo base_a_byScore spend_a_byScore create_b_byScore

/-- The composition of the spend and the re-creation, taken apart by `diff_from`,
    gives the re-creation back. -/
theorem diff_from_with_diff_inverse_respend :
    ∃ w, with_diff spend_a create_b = .ok w ∧
      ∃ d, diff_from spend_a w = .ok d ∧ diff_eq d create_b :=
  (diff_from_with_diff_inverse entry_ab base_a spend_a create_b spend_a_wellFormed
    create_b_wellFormed spend_a_byScore create_b_byScore spend_a_applicableTo).2
    create_b_applicableTo

end KashUtxoDiff
