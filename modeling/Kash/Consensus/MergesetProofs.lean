import Kash.Consensus.Ghostdag
import Kash.Lib.Bfs
import Kash.Lib.ExceptLoops
import Mathlib

/-! # The mergeset is the past of the parents outside the selected parent's past

    `unordered_mergeset_without_selected_parent` searches from the parents
    other than the selected parent, through parent links, and stops at every
    block the reachability oracle places in the selected parent's past. With a
    correct oracle and parents none of which is in the selected parent's past
    (they form an antichain), it returns exactly the blocks in the inclusive
    past of the parents and not in the inclusive past of the selected parent
    (`mem_unordered_mergeset_iff`).

    The proof is the textbook search invariant: the mergeset holds only such
    blocks, `past` only blocks of the selected parent's past, the queue only
    mergeset blocks, and every mergeset block that has left the queue has each
    parent in the mergeset or in the selected parent's past. With the queue
    empty the mergeset is closed, hence complete. Each iteration takes one
    block off the queue and queues one block per block it adds to the
    mergeset, so the queue empties in time. -/

namespace KashGhostdag

open Relation ListSet

variable {H : Type}

/-! ## The DAG the relations store holds -/

/-- `y` is a parent of `x` in the relations store. -/
def IsParent (relations : H → Option (List H)) (x y : H) : Prop :=
  ∃ ps, relations x = some ps ∧ y ∈ ps

/-- `a` is in the inclusive past of `x`: `x` reaches it by parent links. -/
def InPast (relations : H → Option (List H)) (x a : H) : Prop :=
  ReflTransGen (IsParent relations) x a

/-- The reachability oracle answers as the relations store does. -/
def OracleCorrect (relations : H → Option (List H)) (is_dag_ancestor_of : H → H → Bool) : Prop :=
  ∀ a b, is_dag_ancestor_of a b = true ↔ InPast relations b a

/-- A block DAG as the relations store holds it: finitely many blocks, each
    stored with its parents, every parent a block. -/
structure Dag (H : Type) where
  relations : H → Option (List H)
  blocks : List H
  mem_blocks : ∀ x, (relations x).isSome ↔ x ∈ blocks
  parent_mem : ∀ x y, IsParent relations x y → y ∈ blocks

theorem isParent_of_eq {relations : H → Option (List H)} {x y : H} {ps : List H}
    (hx : relations x = some ps) : IsParent relations x y ↔ y ∈ ps := by
  constructor
  · rintro ⟨ps', hps', hy⟩
    rw [hx, Option.some.injEq] at hps'
    exact hps' ▸ hy
  · intro hy
    exact ⟨ps, hx, hy⟩

/-- The past of a block of the DAG is made of blocks. -/
theorem Dag.mem_blocks_of_inPast (dag : Dag H) {x a : H} (hx : x ∈ dag.blocks)
    (h : InPast dag.relations x a) : a ∈ dag.blocks := by
  induction h with
  | refl => exact hx
  | tail _ hpar _ => exact dag.parent_mem _ _ hpar

/-- In a DAG every parent is stored, so the search's links are the parent links. -/
theorem Dag.edge_eq (dag : Dag H) : Bfs.Edge dag.relations id = IsParent dag.relations := by
  funext a b
  apply propext
  constructor
  · rintro ⟨ps, hps, hb, -⟩
    exact ⟨ps, hps, hb⟩
  · rintro ⟨ps, hps, hb⟩
    exact ⟨ps, hps, hb, (dag.mem_blocks b).mpr (dag.parent_mem a b ⟨ps, hps, hb⟩)⟩

variable [LinearOrder H]

/-- A reachability oracle computed by search: `a` is `b`, or the search from `b`
    over parent links finds it. -/
def Dag.search_is_dag_ancestor_of (dag : Dag H) (a b : H) : Bool :=
  decide (a = b) || decide (a ∈ Bfs.reachable dag.relations id (dag.blocks.length + 1) b)

/-- **ORACLE**: the search answers as the relations do. -/
theorem Dag.search_oracle_correct (dag : Dag H) :
    OracleCorrect dag.relations dag.search_is_dag_ancestor_of := by
  intro a b
  have hkeys : ∀ x, (dag.relations x).isSome → x ∈ dag.blocks := fun x hx => (dag.mem_blocks x).mp hx
  have hsearch := (@Bfs.mem_reachable_iff H (List H) dag.relations id _ dag.blocks b
    (dag.blocks.length + 1) hkeys (le_refl _)).1 a
  rw [Dag.edge_eq] at hsearch
  rw [Dag.search_is_dag_ancestor_of, Bool.or_eq_true, decide_eq_true_iff, decide_eq_true_iff,
    hsearch, InPast, reflTransGen_iff_eq_or_transGen]

/-- The DAG of genesis alone. -/
def Dag.genesis (genesis : H) : Dag H where
  relations h := if h = genesis then some [] else none
  blocks := [genesis]
  mem_blocks x := by
    split_ifs with hx
    · exact ⟨fun _ => List.mem_singleton.mpr hx, fun _ => rfl⟩
    · exact ⟨fun h => absurd h Bool.false_ne_true, fun h => absurd (List.mem_singleton.mp h) hx⟩
  parent_mem x y := by
    rintro ⟨ps, hps, hy⟩
    dsimp only at hps
    split_ifs at hps
    cases hps
    exact absurd hy List.not_mem_nil

/-- The DAG with one more block, whose parents are blocks of it. -/
def Dag.add_block (dag : Dag H) (hash : H) (parents : List H)
    (hparents : ∀ p ∈ parents, p ∈ dag.blocks) : Dag H where
  relations h := if h = hash then some parents else dag.relations h
  blocks := hash :: dag.blocks
  mem_blocks x := by
    rw [List.mem_cons]
    split_ifs with hx
    · exact ⟨fun _ => Or.inl hx, fun _ => rfl⟩
    · rw [dag.mem_blocks]
      exact ⟨Or.inr, fun h => h.resolve_left hx⟩
  parent_mem x y := by
    rintro ⟨ps, hps, hy⟩
    dsimp only at hps
    split_ifs at hps
    · cases hps
      exact List.mem_cons_of_mem _ (hparents y hy)
    · exact List.mem_cons_of_mem _ (dag.parent_mem x y ⟨ps, hps, hy⟩)

/-! ## One parent -/

section Visit

variable {is_dag_ancestor_of : H → H → Bool} {selected_parent : H}

/-- Whether visiting `parent` adds it to the mergeset. -/
abbrev Adds (is_dag_ancestor_of : H → H → Bool) (selected_parent : H) (s : MergesetSearch H)
    (parent : H) : Prop :=
  parent ∉ s.mergeset ∧ parent ∉ s.past ∧ is_dag_ancestor_of parent selected_parent = false

/-- The cases of `visit_parent`: skip, record in `past`, or add. -/
theorem visit_parent_eq (s : MergesetSearch H) (parent : H) :
    visit_parent is_dag_ancestor_of selected_parent s parent =
      if parent ∈ s.mergeset ∨ parent ∈ s.past then s
      else if is_dag_ancestor_of parent selected_parent = true then
        { s with past := (s.past.insert parent).1 }
      else { s with mergeset := (s.mergeset.insert parent).1, queue := s.queue ++ [parent] } := rfl

theorem mem_visit_parent_mergeset (s : MergesetSearch H) (parent x : H) :
    x ∈ (visit_parent is_dag_ancestor_of selected_parent s parent).mergeset ↔
      x ∈ s.mergeset ∨ (x = parent ∧ parent ∉ s.past ∧
        is_dag_ancestor_of parent selected_parent = false) := by
  rw [visit_parent_eq]
  by_cases hseen : parent ∈ s.mergeset ∨ parent ∈ s.past
  · rw [if_pos hseen]
    constructor
    · exact Or.inl
    · rintro (hx | ⟨rfl, hpast, -⟩)
      · exact hx
      · exact hseen.resolve_right hpast
  · rw [if_neg hseen]
    rw [not_or] at hseen
    by_cases hanc : is_dag_ancestor_of parent selected_parent = true
    · rw [if_pos hanc]
      simp [hanc]
    · rw [if_neg hanc]
      simp [hseen.2, Bool.eq_false_iff.mpr hanc, or_comm]

theorem mem_visit_parent_past (s : MergesetSearch H) (parent x : H) :
    x ∈ (visit_parent is_dag_ancestor_of selected_parent s parent).past ↔
      x ∈ s.past ∨ (x = parent ∧ parent ∉ s.mergeset ∧
        is_dag_ancestor_of parent selected_parent = true) := by
  rw [visit_parent_eq]
  by_cases hseen : parent ∈ s.mergeset ∨ parent ∈ s.past
  · rw [if_pos hseen]
    constructor
    · exact Or.inl
    · rintro (hx | ⟨rfl, hmerge, -⟩)
      · exact hx
      · exact hseen.resolve_left hmerge
  · rw [if_neg hseen]
    rw [not_or] at hseen
    by_cases hanc : is_dag_ancestor_of parent selected_parent = true
    · rw [if_pos hanc]
      simp [hanc, hseen.1, or_comm]
    · rw [if_neg hanc]
      simp [hanc]

theorem visit_parent_queue (s : MergesetSearch H) (parent : H) :
    (visit_parent is_dag_ancestor_of selected_parent s parent).queue =
      s.queue ++ if Adds is_dag_ancestor_of selected_parent s parent then [parent] else [] := by
  rw [visit_parent_eq]
  by_cases hseen : parent ∈ s.mergeset ∨ parent ∈ s.past
  · rw [if_pos hseen, if_neg (by tauto), List.append_nil]
  · rw [if_neg hseen]
    rw [not_or] at hseen
    by_cases hanc : is_dag_ancestor_of parent selected_parent = true
    · rw [if_pos hanc, if_neg (by simp [hanc]), List.append_nil]
    · rw [if_neg hanc, if_pos ⟨hseen.1, hseen.2, Bool.eq_false_iff.mpr hanc⟩]

theorem visit_parent_mergeset_length (s : MergesetSearch H) (parent : H) :
    (visit_parent is_dag_ancestor_of selected_parent s parent).mergeset.elems.length =
      s.mergeset.elems.length + if Adds is_dag_ancestor_of selected_parent s parent then 1 else 0 := by
  rw [visit_parent_eq]
  by_cases hseen : parent ∈ s.mergeset ∨ parent ∈ s.past
  · rw [if_pos hseen, if_neg (by tauto)]
    rfl
  · rw [if_neg hseen]
    rw [not_or] at hseen
    by_cases hanc : is_dag_ancestor_of parent selected_parent = true
    · rw [if_pos hanc, if_neg (by simp [hanc])]
      rfl
    · rw [if_neg hanc, if_pos ⟨hseen.1, hseen.2, Bool.eq_false_iff.mpr hanc⟩]
      show (s.mergeset.insert parent).1.elems.length = _
      rw [elems_insert_of_not_mem hseen.1, List.length_cons]

/-! ## The parents of one block -/

variable (is_dag_ancestor_of selected_parent) in
/-- The scan over the parents of the current block. -/
abbrev scan (ps : List H) (s : MergesetSearch H) : MergesetSearch H :=
  ps.foldl (visit_parent is_dag_ancestor_of selected_parent) s

/-- The scan adds every parent seen neither in the mergeset nor in `past` that
    the oracle does not place in the selected parent's past. -/
theorem mem_scan_mergeset (x : H) :
    ∀ (ps : List H) (s : MergesetSearch H),
      x ∈ (scan is_dag_ancestor_of selected_parent ps s).mergeset ↔
        x ∈ s.mergeset ∨ (x ∈ ps ∧ x ∉ s.past ∧ is_dag_ancestor_of x selected_parent = false)
  | [], s => by simp
  | p :: ps, s => by
      simp only [scan, List.foldl_cons]
      rw [mem_scan_mergeset x ps, mem_visit_parent_mergeset, mem_visit_parent_past]
      by_cases hx : x = p
      · subst hx
        cases is_dag_ancestor_of x selected_parent with
        | false =>
            simp only [and_true, true_and, List.mem_cons, true_or, Bool.false_eq_true, and_false,
              or_false]
            tauto
        | true => simp
      · simp [hx]

/-- The scan records in `past` every parent not in the mergeset that the oracle
    places in the selected parent's past. -/
theorem mem_scan_past (x : H) :
    ∀ (ps : List H) (s : MergesetSearch H),
      x ∈ (scan is_dag_ancestor_of selected_parent ps s).past ↔
        x ∈ s.past ∨ (x ∈ ps ∧ x ∉ s.mergeset ∧ is_dag_ancestor_of x selected_parent = true)
  | [], s => by simp
  | p :: ps, s => by
      simp only [scan, List.foldl_cons]
      rw [mem_scan_past x ps, mem_visit_parent_past, mem_visit_parent_mergeset]
      by_cases hx : x = p
      · subst hx
        cases is_dag_ancestor_of x selected_parent with
        | false => simp
        | true =>
            simp only [and_true, true_and, List.mem_cons, true_or]
            tauto
      · simp [hx]

/-- The scan appends to the queue exactly the blocks it adds to the mergeset. -/
theorem scan_queue :
    ∀ (ps : List H) (s : MergesetSearch H), ∃ added,
      (scan is_dag_ancestor_of selected_parent ps s).queue = s.queue ++ added ∧
        ∀ x, x ∈ added ↔ x ∉ s.mergeset ∧ x ∈ (scan is_dag_ancestor_of selected_parent ps s).mergeset
  | [], s => ⟨[], by simp, fun x => by simp⟩
  | p :: ps, s => by
      simp only [scan, List.foldl_cons]
      obtain ⟨added, hq, hadded⟩ := scan_queue ps (visit_parent is_dag_ancestor_of selected_parent s p)
      refine ⟨(if Adds is_dag_ancestor_of selected_parent s p then [p] else []) ++ added, ?_, ?_⟩
      · rw [hq, visit_parent_queue, List.append_assoc]
      · intro x
        have hmono : x ∈ (visit_parent is_dag_ancestor_of selected_parent s p).mergeset →
            x ∈ (scan is_dag_ancestor_of selected_parent ps
              (visit_parent is_dag_ancestor_of selected_parent s p)).mergeset :=
          fun h => (mem_scan_mergeset x ps _).mpr (Or.inl h)
        rw [List.mem_append, hadded x, mem_visit_parent_mergeset]
        unfold Adds
        constructor
        · rintro (hx | ⟨hx, hin⟩)
          -- the first parent, added by its visit
          · split_ifs at hx with hadd
            · rw [List.mem_singleton] at hx
              subst hx
              exact ⟨hadd.1, hmono ((mem_visit_parent_mergeset s x x).mpr
                (Or.inr ⟨rfl, hadd.2.1, hadd.2.2⟩))⟩
            · exact absurd hx List.not_mem_nil
          · exact ⟨fun h => hx (Or.inl h), hin⟩
        · rintro ⟨hx, hin⟩
          by_cases hv : x = p ∧ p ∉ s.past ∧ is_dag_ancestor_of p selected_parent = false
          · obtain ⟨rfl, hpast, hanc⟩ := hv
            exact Or.inl (by rw [if_pos ⟨hx, hpast, hanc⟩]; exact List.mem_singleton_self x)
          · exact Or.inr ⟨fun h => h.elim hx hv, hin⟩

/-- The queue grows by as many blocks as the mergeset. -/
theorem scan_length :
    ∀ (ps : List H) (s : MergesetSearch H),
      (scan is_dag_ancestor_of selected_parent ps s).queue.length + s.mergeset.elems.length =
        s.queue.length + (scan is_dag_ancestor_of selected_parent ps s).mergeset.elems.length
  | [], s => rfl
  | p :: ps, s => by
      simp only [scan, List.foldl_cons]
      have h := scan_length ps (visit_parent is_dag_ancestor_of selected_parent s p)
      dsimp only [scan] at h
      rw [visit_parent_queue, visit_parent_mergeset_length] at h
      rw [List.length_append] at h
      split_ifs at h <;> simp only [List.length_singleton, List.length_nil] at h <;> omega

end Visit

/-! ## The search invariant -/

section Search

variable {relations : H → Option (List H)} {is_dag_ancestor_of : H → H → Bool}
  {selected_parent : H} {parents : List H}

/-- The blocks the mergeset should hold. -/
def InMergeset (relations : H → Option (List H)) (selected_parent : H) (parents : List H)
    (x : H) : Prop :=
  (∃ p ∈ parents, InPast relations p x) ∧ ¬ InPast relations selected_parent x

/-- What the search keeps. -/
structure SearchInv (relations : H → Option (List H)) (selected_parent : H) (parents : List H)
    (s : MergesetSearch H) : Prop where
  sound : ∀ x ∈ s.mergeset, InMergeset relations selected_parent parents x
  past_sound : ∀ x ∈ s.past, InPast relations selected_parent x
  queue_sub : ∀ x ∈ s.queue, x ∈ s.mergeset
  seeds : ∀ p ∈ parents, p ≠ selected_parent → p ∈ s.mergeset
  closed : ∀ x ∈ s.mergeset, x ∉ s.queue → ∀ y, IsParent relations x y →
    y ∈ s.mergeset ∨ InPast relations selected_parent y

/-- A parent left outside the mergeset by a scan is in the selected parent's past. -/
theorem handled_of_scan (horacle : OracleCorrect relations is_dag_ancestor_of)
    {s : MergesetSearch H} (hpast : ∀ x ∈ s.past, InPast relations selected_parent x)
    {ps : List H} {y : H} (hy : y ∈ ps) :
    y ∈ (scan is_dag_ancestor_of selected_parent ps s).mergeset ∨
      InPast relations selected_parent y := by
  by_cases hs : y ∈ s.past
  · exact Or.inr (hpast y hs)
  · cases hanc : is_dag_ancestor_of y selected_parent with
    | true => exact Or.inr ((horacle y selected_parent).mp hanc)
    | false => exact Or.inl ((mem_scan_mergeset y ps s).mpr (Or.inr ⟨hy, hs, hanc⟩))

/-- **ITERATION**: expanding the block at the head of the queue keeps the
    invariant. -/
theorem SearchInv.expand (horacle : OracleCorrect relations is_dag_ancestor_of)
    {s : MergesetSearch H} (h : SearchInv relations selected_parent parents s)
    {current : H} {rest ps : List H} (hq : s.queue = current :: rest)
    (hps : relations current = some ps) :
    SearchInv relations selected_parent parents
      (scan is_dag_ancestor_of selected_parent ps { s with queue := rest }) := by
  have hcur : current ∈ s.mergeset := h.queue_sub current (hq ▸ List.mem_cons_self)
  obtain ⟨added, hq', hadded⟩ := scan_queue ps { s with queue := rest }
  refine ⟨?sound, ?past_sound, ?queue_sub, ?seeds, ?closed⟩
  case sound =>
    intro x hx
    rcases (mem_scan_mergeset x ps _).mp hx with hx | ⟨hxps, -, hanc⟩
    · exact h.sound x hx
    -- a new block is a parent of the current one, outside the selected parent's past
    · obtain ⟨⟨p, hp, hpast⟩, -⟩ := h.sound current hcur
      refine ⟨⟨p, hp, hpast.tail ⟨ps, hps, hxps⟩⟩, fun hin => ?_⟩
      rw [← horacle x selected_parent, hanc] at hin
      exact Bool.false_ne_true hin
  case past_sound =>
    intro x hx
    rcases (mem_scan_past x ps _).mp hx with hx | ⟨-, -, hanc⟩
    · exact h.past_sound x hx
    · exact (horacle x selected_parent).mp hanc
  case queue_sub =>
    intro x hx
    rw [hq', List.mem_append] at hx
    rcases hx with hx | hx
    · exact (mem_scan_mergeset x ps _).mpr (Or.inl (h.queue_sub x (hq ▸ List.mem_cons_of_mem _ hx)))
    · exact ((hadded x).mp hx).2
  case seeds =>
    intro p hp hne
    exact (mem_scan_mergeset p ps _).mpr (Or.inl (h.seeds p hp hne))
  case closed =>
    intro x hx hxq y hy
    by_cases hxc : x = current
    -- the current block: the scan has just handled its parents
    · subst hxc
      refine handled_of_scan horacle ?_ ((isParent_of_eq hps).mp hy)
      exact h.past_sound
    -- any other block left the queue earlier, and the mergeset only grows
    · have hxs : x ∈ s.mergeset := by
        rcases (mem_scan_mergeset x ps _).mp hx with hx | ⟨hxps, hnp, hanc⟩
        · exact hx
        · by_contra hnot
          exact hxq (hq' ▸ List.mem_append_right rest ((hadded x).mpr ⟨hnot, hx⟩))
      have hxq₀ : x ∉ s.queue := by
        rw [hq, List.mem_cons, not_or]
        exact ⟨hxc, fun hr => hxq (hq' ▸ List.mem_append_left added hr)⟩
      rcases h.closed x hxs hxq₀ y hy with hy | hy
      · exact Or.inl ((mem_scan_mergeset y ps _).mpr (Or.inl hy))
      · exact Or.inr hy

omit [LinearOrder H] in
/-- With the queue empty, the mergeset holds exactly the blocks it should:
    it is closed under parent links outside the selected parent's past, which
    no parent link leaves. -/
theorem SearchInv.exit {s : MergesetSearch H} (h : SearchInv relations selected_parent parents s)
    (hq : s.queue = []) (x : H) : x ∈ s.mergeset ↔ InMergeset relations selected_parent parents x := by
  constructor
  · exact h.sound x
  · rintro ⟨⟨p, hp, hpx⟩, hsp⟩
    have hne : p ≠ selected_parent := by
      rintro rfl
      exact hsp hpx
    have hS : ∀ a ∈ {b | b ∈ s.mergeset}, ∀ b, IsParent relations a b →
        b ∈ {b | b ∈ s.mergeset} ∨ b ∈ {b | InPast relations selected_parent b} :=
      fun a ha => h.closed a ha (by rw [hq]; exact List.not_mem_nil)
    have hZ : ∀ a b, a ∈ {b | InPast relations selected_parent b} → IsParent relations a b →
        b ∈ {b | InPast relations selected_parent b} :=
      fun _ _ ha hab => ReflTransGen.tail ha hab
    exact Bfs.mem_of_reflTransGen_of_closed hS hZ (h.seeds p hp hne) hpx hsp

/-- The search starts from the parents other than the selected parent, all in
    the mergeset and in the queue. -/
theorem SearchInv.init
    (hanti : ∀ p ∈ parents, p ≠ selected_parent → ¬ InPast relations selected_parent p) :
    SearchInv relations selected_parent parents
      ⟨parents.filter (· ≠ selected_parent),
        (parents.filter (· ≠ selected_parent)).foldl (fun (m : ListSet H) p => (m.insert p).1) ∅,
        ∅⟩ := by
  have hmem : ∀ x, x ∈ (parents.filter (· ≠ selected_parent)).foldl
      (fun (m : ListSet H) p => (m.insert p).1) ∅ ↔
      x ∈ parents ∧ x ≠ selected_parent := by
    intro x
    rw [mem_foldl_insert, List.mem_filter, decide_eq_true_iff]
    simp
  refine ⟨?sound, ?past_sound, ?queue_sub, ?seeds, ?closed⟩
  case sound =>
    intro x hx
    obtain ⟨hxp, hne⟩ := (hmem x).mp hx
    exact ⟨⟨x, hxp, ReflTransGen.refl⟩, hanti x hxp hne⟩
  case past_sound =>
    intro x hx
    exact absurd hx (not_mem_empty x)
  case queue_sub =>
    intro x hx
    rw [List.mem_filter, decide_eq_true_iff] at hx
    exact (hmem x).mpr hx
  case seeds =>
    intro p hp hne
    exact (hmem p).mpr ⟨hp, hne⟩
  -- every mergeset block is still queued
  case closed =>
    intro x hx hxq
    refine absurd ?_ hxq
    rw [List.mem_filter, decide_eq_true_iff]
    exact (hmem x).mp hx

end Search

/-! ## The whole search -/

section Loop

variable {dag : Dag H} {is_dag_ancestor_of : H → H → Bool} {selected_parent : H}
  {parents : List H}

/-- Iterations still needed: one per queued block and one per block of the DAG
    not in the mergeset yet. -/
def search_budget (blocks : List H) (s : MergesetSearch H) : ℕ :=
  s.queue.length + (blocks.length - s.mergeset.elems.length)

omit [LinearOrder H] in
/-- The mergeset holds blocks of the DAG, each once. -/
theorem SearchInv.mergeset_length_le (hparents : ∀ p ∈ parents, p ∈ dag.blocks)
    {s : MergesetSearch H} (h : SearchInv dag.relations selected_parent parents s) :
    s.mergeset.elems.length ≤ dag.blocks.length := by
  refine s.mergeset.nodup.length_le_of_subset fun x hx => ?_
  obtain ⟨⟨p, hp, hpx⟩, -⟩ := h.sound x hx
  exact dag.mem_blocks_of_inPast (hparents p hp) hpx

/-- **LOOP**: with one iteration more than the budget, the loop returns the
    mergeset the invariant promises. -/
theorem mergeset_loop_spec (horacle : OracleCorrect dag.relations is_dag_ancestor_of)
    (hparents : ∀ p ∈ parents, p ∈ dag.blocks) :
    ∀ (fuel : ℕ) (s : MergesetSearch H), SearchInv dag.relations selected_parent parents s →
      search_budget dag.blocks s < fuel →
      ∃ m, mergeset_loop dag.relations is_dag_ancestor_of selected_parent fuel s = .ok m ∧
        ∀ x, x ∈ m ↔ InMergeset dag.relations selected_parent parents x := by
  intro fuel
  induction fuel with
  | zero =>
      intro s _ hb
      exact absurd hb (Nat.not_lt_zero _)
  | succ fuel ih =>
      intro s h hb
      cases hq : s.queue with
      | nil =>
          refine ⟨s.mergeset, ?_, h.exit hq⟩
          rw [mergeset_loop, hq]
      | cons current rest =>
          -- the current block is in the DAG, so its parents are stored
          have hcur : current ∈ dag.blocks := by
            obtain ⟨⟨p, hp, hpx⟩, -⟩ := h.sound current (h.queue_sub current (hq ▸ List.mem_cons_self))
            exact dag.mem_blocks_of_inPast (hparents p hp) hpx
          obtain ⟨ps, hps⟩ := Option.isSome_iff_exists.mp ((dag.mem_blocks current).mpr hcur)
          have h' := h.expand horacle hq hps
          -- one block left the queue; as many were queued as joined the mergeset
          have hlen : (scan is_dag_ancestor_of selected_parent ps { s with queue := rest }).queue.length +
              s.mergeset.elems.length = rest.length +
                (scan is_dag_ancestor_of selected_parent ps { s with queue := rest }).mergeset.elems.length :=
            scan_length ps _
          obtain ⟨added, hq', -⟩ :=
            @scan_queue H _ is_dag_ancestor_of selected_parent ps { s with queue := rest }
          have hle := h'.mergeset_length_le hparents
          have hle₀ := h.mergeset_length_le hparents
          obtain ⟨m, hm, hmem⟩ := ih _ h' (by
            unfold search_budget at hb ⊢
            rw [hq, List.length_cons] at hb
            rw [hq', List.length_append] at hlen ⊢
            omega)
          refine ⟨m, ?_, hmem⟩
          rw [mergeset_loop, hq]
          simp only [read, hps, ExceptLoops.ok_bind]
          exact hm

/-- Every successful search returns the mergeset, whatever its fuel: the loop
    stops only with the queue empty. -/
theorem mergeset_loop_sound (horacle : OracleCorrect relations is_dag_ancestor_of) :
    ∀ (fuel : ℕ) (s : MergesetSearch H) (m : ListSet H),
      SearchInv relations selected_parent parents s →
      mergeset_loop relations is_dag_ancestor_of selected_parent fuel s = .ok m →
      ∀ x, x ∈ m ↔ InMergeset relations selected_parent parents x := by
  intro fuel
  induction fuel with
  | zero =>
      intro s m _ h
      rw [mergeset_loop] at h
      cases h
  | succ fuel ih =>
      intro s m hinv h
      cases hq : s.queue with
      | nil =>
          rw [mergeset_loop, hq] at h
          obtain rfl : s.mergeset = m := Except.ok.inj h
          exact hinv.exit hq
      | cons current rest =>
          rw [mergeset_loop, hq] at h
          cases hps : relations current with
          | none =>
              dsimp only at h
              rw [hps] at h
              cases h
          | some ps =>
              simp only [read, hps, ExceptLoops.ok_bind] at h
              exact ih _ m (hinv.expand horacle hq hps) h

end Loop

/-- **MERGESET**: with a correct reachability oracle and no parent other than
    the selected parent in the selected parent's past, the search over a DAG
    returns, given one iteration more than the parents and blocks together,
    exactly the blocks in the inclusive past of the parents and not in the
    inclusive past of the selected parent. -/
theorem mem_unordered_mergeset_iff (dag : Dag H) (is_dag_ancestor_of : H → H → Bool)
    (selected_parent : H) (parents : List H) (fuel : ℕ)
    (horacle : OracleCorrect dag.relations is_dag_ancestor_of)
    (hanti : ∀ p ∈ parents, p ≠ selected_parent → ¬ InPast dag.relations selected_parent p)
    (hparents : ∀ p ∈ parents, p ∈ dag.blocks) (hfuel : parents.length + dag.blocks.length < fuel) :
    ∃ m, unordered_mergeset_without_selected_parent dag.relations is_dag_ancestor_of
        selected_parent parents fuel = .ok m ∧
      ∀ x, x ∈ m ↔ (∃ p ∈ parents, InPast dag.relations p x) ∧
        ¬ InPast dag.relations selected_parent x := by
  apply mergeset_loop_spec horacle hparents fuel _ (SearchInv.init hanti)
  unfold search_budget
  have hq := List.length_filter_le (fun x => decide (x ≠ selected_parent)) parents
  dsimp only
  omega

end KashGhostdag
