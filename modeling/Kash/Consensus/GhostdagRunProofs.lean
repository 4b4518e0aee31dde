import Kash.Consensus.MergesetProofs
import Mathlib

/-! # GHOSTDAG over a growing DAG

    What `ghostdag` returns, whatever its coloring decides: the selected parent
    is one of the parents; the mergeset blues are the selected parent followed
    by the blues of the sorted mergeset, the mergeset reds the rest of it, each
    in sorted order; the blue score is the selected parent's plus the number of
    mergeset blues (`ghostdag_eq_ok`, `color_loop_eq_ok`).

    A DAG grows from genesis by blocks each committed with the data `ghostdag`
    computed from its parents (`Built`). Through every such run the selected
    chain descends along parent links, no block is its own ancestor, and the
    mergeset blues of a block lie outside its selected parent's past. Hence
    the blue set of a block (its mergeset blues and its selected parent's blue
    set) counts no block twice, and the blue score is its size
    (`BlueChain.spec`). -/

namespace KashGhostdag

open Relation ExceptLoops AListLoops

variable {H : Type} [LinearOrder H]

/-! ## What one call computes -/

section Call

variable {self : GhostdagManager H}

omit [LinearOrder H] in
/-- A block keyed with the blue work the store holds. -/
theorem keyed_eq_ok {stores : GhostdagStores H} {hash : H} {b : SortableBlock H}
    (h : (do pure (⟨hash, ← stores.get_blue_work hash⟩ : SortableBlock H)) = .ok b) :
    b.hash = hash ∧ stores.get_blue_work hash = .ok b.blue_work := by
  obtain ⟨w, hw, hb⟩ := (bind_eq_ok _ _ _).mp h
  cases hb
  exact ⟨rfl, hw⟩

omit [LinearOrder H] in
/-- Blocks keyed by their blue work are the blocks. -/
theorem keyed_hashes {stores : GhostdagStores H} {blocks : List H} {keyed : List (SortableBlock H)}
    (h : List.Forall₂ (fun block b => (do pure (⟨block, ← stores.get_blue_work block⟩ :
      SortableBlock H)) = Except.ok b) blocks keyed) :
    keyed.map (·.hash) = blocks := by
  induction h with
  | nil => rfl
  | cons hb _ ih =>
      rw [List.map_cons, ih, (keyed_eq_ok hb).1]

omit [LinearOrder H] in
/-- Each keyed block carries the blue work the store holds for it. -/
theorem keyed_stored {stores : GhostdagStores H} {blocks : List H}
    {keyed : List (SortableBlock H)}
    (h : List.Forall₂ (fun block b => (do pure (⟨block, ← stores.get_blue_work block⟩ :
      SortableBlock H)) = Except.ok b) blocks keyed) :
    ∀ b ∈ keyed, stores.get_blue_work b.hash = .ok b.blue_work := by
  induction h with
  | nil => exact fun b hb => absurd hb List.not_mem_nil
  | cons hb _ ih =>
      intro b' hb'
      rcases List.mem_cons.mp hb' with rfl | hb'
      · rw [(keyed_eq_ok hb).1]
        exact (keyed_eq_ok hb).2
      · exact ih b' hb'

/-- The maximum the loop keeps is one of the blocks. -/
theorem foldl_max_mem (b : SortableBlock H) :
    ∀ (bs : List (SortableBlock H)),
      bs.foldl (fun x y => if SortableBlock.cmp x y = .gt then x else y) b ∈ b :: bs
  | [] => List.mem_singleton_self b
  | c :: bs => by
      rw [List.foldl_cons]
      split_ifs
      · exact List.cons_subset_cons b (List.subset_cons_self c bs) (foldl_max_mem b bs)
      · exact List.mem_cons_of_mem b (foldl_max_mem c bs)

/-- The selected parent is one of the parents. -/
theorem find_selected_parent_mem {parents : List H} {selected_parent : H}
    (h : self.find_selected_parent parents = .ok selected_parent) : selected_parent ∈ parents := by
  unfold GhostdagManager.find_selected_parent at h
  obtain ⟨keyed, hkeyed, hsel⟩ := (bind_eq_ok _ _ _).mp h
  have hmap := keyed_hashes ((mapM_eq_ok _ _ _).mp hkeyed)
  cases keyed with
  | nil => cases hsel
  | cons b bs =>
      cases hsel
      rw [← hmap]
      exact List.mem_map_of_mem (foldl_max_mem b bs)

/-- `sort_blocks` reorders the blocks. -/
theorem sort_blocks_perm {blocks sorted : List H} (h : self.sort_blocks blocks = .ok sorted) :
    sorted.Perm blocks := by
  unfold GhostdagManager.sort_blocks at h
  obtain ⟨keyed, hkeyed, hsorted⟩ := (bind_eq_ok _ _ _).mp h
  cases hsorted
  rw [← keyed_hashes ((mapM_eq_ok _ _ _).mp hkeyed)]
  exact (List.perm_insertionSort _ keyed).map _

/-- Coloring one candidate appends it to the blues or to the reds. -/
theorem color_candidate_eq_ok {d d' : GhostdagData H} {c : H}
    (h : self.color_candidate d c = .ok d') :
    d'.selected_parent = d.selected_parent ∧
      ((d'.mergeset_blues = d.mergeset_blues ++ [c] ∧ d'.mergeset_reds = d.mergeset_reds) ∨
        (d'.mergeset_blues = d.mergeset_blues ∧ d'.mergeset_reds = d.mergeset_reds ++ [c])) := by
  unfold GhostdagManager.color_candidate at h
  obtain ⟨out, -, hout⟩ := (bind_eq_ok _ _ _).mp h
  cases out with
  | Blue size sizes =>
      cases hout
      exact ⟨rfl, Or.inl ⟨rfl, rfl⟩⟩
  | Red =>
      cases hout
      exact ⟨rfl, Or.inr ⟨rfl, rfl⟩⟩

/-- Giving one absent element its own decision leaves the others' decisions. -/
theorem update_eq_of_not_mem {c x : H} {l : List H} (hc : c ∉ l) (hx : x ∈ l) (color : H → Bool)
    (b : Bool) : (if x = c then b else color x) = color x :=
  if_neg fun hxc : x = c => hc (hxc ▸ hx)

/-- **COLORING**: the coloring loop over distinct candidates splits them, in
    their order, between the blues and the reds. -/
theorem color_loop_eq_ok :
    ∀ (candidates : List H) (d d' : GhostdagData H), candidates.Nodup →
      candidates.foldlM self.color_candidate d = .ok d' →
      ∃ color : H → Bool, d'.selected_parent = d.selected_parent ∧
        d'.mergeset_blues = d.mergeset_blues ++ candidates.filter color ∧
        d'.mergeset_reds = d.mergeset_reds ++ candidates.filter (fun x => !color x)
  | [], d, d', _, h => by
      cases h
      exact ⟨fun _ => true, rfl, by simp, by simp⟩
  | c :: candidates, d, d', hnd, h => by
      obtain ⟨d₁, h₁, hrest⟩ := (foldlM_cons_eq_ok _ _ _ _ _).mp h
      obtain ⟨hc, hrest_nd⟩ := List.nodup_cons.mp hnd
      obtain ⟨color, hsp, hblues, hreds⟩ := color_loop_eq_ok candidates d₁ d' hrest_nd hrest
      obtain ⟨hsp₁, hstep⟩ := color_candidate_eq_ok h₁
      -- `c` gets the decision of its own step; the rest keeps the decisions found
      rcases hstep with ⟨hb, hr⟩ | ⟨hb, hr⟩
      · refine ⟨fun x => if x = c then true else color x, hsp.trans hsp₁, ?_, ?_⟩
        · rw [hblues, hb, List.filter_cons, if_pos (by simp), List.append_assoc,
            List.singleton_append,
            List.filter_congr fun x hx => update_eq_of_not_mem hc hx color true]
        · rw [hreds, hr, List.filter_cons, if_neg (by simp),
            List.filter_congr fun x hx => congrArg (!·) (update_eq_of_not_mem hc hx color true)]
      · refine ⟨fun x => if x = c then false else color x, hsp.trans hsp₁, ?_, ?_⟩
        · rw [hblues, hb, List.filter_cons, if_neg (by simp),
            List.filter_congr fun x hx => update_eq_of_not_mem hc hx color false]
        · rw [hreds, hr, List.filter_cons, if_pos (by simp), List.append_assoc,
            List.singleton_append,
            List.filter_congr fun x hx => congrArg (!·) (update_eq_of_not_mem hc hx color false)]

/-- The steps of a successful call: it selects a parent, orders the mergeset,
    colours it starting from the selected parent, keeps the blue score below
    `2^64`, and adds up the work of the blues in `Uint192`. -/
theorem ghostdag_steps {parents : List H} {data : GhostdagData H}
    (h : self.ghostdag parents = .ok data) :
    ∃ selected_parent ordered_mergeset colored selected_parent_score works selected_parent_work,
      self.find_selected_parent parents = .ok selected_parent ∧
      self.ordered_mergeset_without_selected_parent selected_parent parents =
        .ok ordered_mergeset ∧
      ordered_mergeset.foldlM self.color_candidate
        (GhostdagData.new_with_selected_parent selected_parent self.k) = .ok colored ∧
      self.stores.get_blue_score selected_parent = .ok selected_parent_score ∧
      selected_parent_score + colored.mergeset_blues.length < 2 ^ 64 ∧
      colored.mergeset_blues.mapM self.blue_work_of = .ok works ∧
      self.stores.get_blue_work selected_parent = .ok selected_parent_work ∧
      data = colored.finalize_score_and_work (selected_parent_score + colored.mergeset_blues.length)
        ((selected_parent_work + works.foldl (fun a b => (a + b) % 2 ^ 192) 0) % 2 ^ 192) := by
  unfold GhostdagManager.ghostdag at h
  dsimp only at h
  split_ifs at h with hnil
  · cases h
  obtain ⟨selected_parent, hsp, h⟩ := (bind_eq_ok _ _ _).mp h
  obtain ⟨ordered_mergeset, hom, h⟩ := (bind_eq_ok _ _ _).mp h
  obtain ⟨colored, hcolored, h⟩ := (bind_eq_ok _ _ _).mp h
  obtain ⟨score, hscore, h⟩ := (bind_eq_ok _ _ _).mp h
  split_ifs at h with hover
  · cases h
  obtain ⟨works, hworks, h⟩ := (bind_eq_ok _ _ _).mp h
  obtain ⟨work, hwork, h⟩ := (bind_eq_ok _ _ _).mp h
  cases h
  exact ⟨selected_parent, ordered_mergeset, colored, score, works, work, hsp, hom, hcolored, hscore,
    Nat.lt_of_not_le hover, hworks, hwork, rfl⟩

/-- **GHOSTDAG**: a successful call selects one of the parents, sorts the
    mergeset, splits it between blues and reds, and adds the blues to the
    selected parent's score. -/
theorem ghostdag_eq_ok {parents : List H} {data : GhostdagData H}
    (h : self.ghostdag parents = .ok data) :
    ∃ selected_parent mergeset ordered_mergeset color selected_parent_score,
      self.find_selected_parent parents = .ok selected_parent ∧
      unordered_mergeset_without_selected_parent self.stores.relations self.is_dag_ancestor_of
        selected_parent parents self.fuel = .ok mergeset ∧
      self.sort_blocks mergeset.elems = .ok ordered_mergeset ∧
      self.stores.get_blue_score selected_parent = .ok selected_parent_score ∧
      data.selected_parent = selected_parent ∧
      data.mergeset_blues = selected_parent :: ordered_mergeset.filter color ∧
      data.mergeset_reds = ordered_mergeset.filter (fun x => !color x) ∧
      data.blue_score = selected_parent_score + data.mergeset_blues.length := by
  obtain ⟨selected_parent, ordered_mergeset, colored, score, works, work, hsp, hom, hcolored, hscore,
    -, -, -, rfl⟩ := ghostdag_steps h
  -- the sorted mergeset repeats no block, so the coloring splits it
  unfold GhostdagManager.ordered_mergeset_without_selected_parent at hom
  obtain ⟨mergeset, hmergeset, hsort⟩ := (bind_eq_ok _ _ _).mp hom
  have hnd : ordered_mergeset.Nodup := (sort_blocks_perm hsort).nodup_iff.mpr mergeset.nodup
  obtain ⟨color, hsp', hblues, hreds⟩ := color_loop_eq_ok ordered_mergeset _ colored hnd hcolored
  exact ⟨selected_parent, mergeset, ordered_mergeset, color, score, hsp, hmergeset, hsort, hscore,
    hsp', hblues, hreds, rfl⟩

/-- A candidate comes out blue only while the blues are fewer than `k + 1`. -/
theorem check_blue_candidate_blue {d : GhostdagData H} {c : H} {size : ℕ} {sizes : Map H ℕ}
    (h : self.check_blue_candidate d c = .ok (.Blue size sizes)) :
    d.mergeset_blues.length ≠ self.k + 1 := by
  intro hlen
  unfold GhostdagManager.check_blue_candidate at h
  rw [if_pos hlen] at h
  cases h

/-- Coloring a candidate keeps at most `k + 1` blues. -/
theorem color_candidate_length {d d' : GhostdagData H} {c : H}
    (h : self.color_candidate d c = .ok d') (hd : d.mergeset_blues.length ≤ self.k + 1) :
    d'.mergeset_blues.length ≤ self.k + 1 := by
  unfold GhostdagManager.color_candidate at h
  obtain ⟨out, hout, h⟩ := (bind_eq_ok _ _ _).mp h
  cases out with
  | Blue size sizes =>
      cases h
      have hne := check_blue_candidate_blue hout
      show (d.mergeset_blues ++ [c]).length ≤ self.k + 1
      rw [List.length_append, List.length_singleton]
      omega
  | Red =>
      cases h
      exact hd

/-- **COLORS**: with a correct oracle and parents forming an antichain, a
    successful call puts the selected parent first among at most `k + 1`
    blues, and its blues and reds are, each once, the selected parent and the
    blocks of the parents' past outside the selected parent's past. -/
theorem ghostdag_colors_mergeset {parents : List H} {data : GhostdagData H}
    (h : self.ghostdag parents = .ok data)
    (horacle : OracleCorrect self.stores.relations self.is_dag_ancestor_of)
    (hanti : ∀ p ∈ parents, ∀ q ∈ parents, p ≠ q → ¬ InPast self.stores.relations q p) :
    data.mergeset_blues.head? = some data.selected_parent ∧
    data.mergeset_blues.length ≤ self.k + 1 ∧
    (data.mergeset_blues ++ data.mergeset_reds).Nodup ∧
    ∀ x, x ∈ data.mergeset_blues ++ data.mergeset_reds ↔
      x = data.selected_parent ∨ InMergeset self.stores.relations data.selected_parent parents x := by
  obtain ⟨sp, m, om, color, -, hsel, hm, hsort, -, hsp, hblues, hreds, -⟩ := ghostdag_eq_ok h
  obtain ⟨sp', om', colored, score, works, work, -, -, hcolored, -, -, -, -, hdata⟩ :=
    ghostdag_steps h
  have hmem := mergeset_loop_sound horacle _ _ m
    (SearchInv.init fun p hp hne => hanti p hp sp (find_selected_parent_mem hsel) hne) hm
  -- the blues and reds are the selected parent and the sorted mergeset
  have hperm : (data.mergeset_blues ++ data.mergeset_reds).Perm (sp :: m.elems) := by
    rw [hblues, hreds, List.cons_append]
    exact ((List.filter_append_perm color om).trans (sort_blocks_perm hsort)).cons sp
  have hsp_out : sp ∉ m := fun hin => ((hmem sp).mp hin).2 ReflTransGen.refl
  refine ⟨by rw [hblues, hsp]; rfl, ?_, hperm.nodup_iff.mpr (List.Nodup.cons hsp_out m.nodup),
    fun x => ?_⟩
  · rw [hdata]
    exact foldlM_invariant (fun d => d.mergeset_blues.length ≤ self.k + 1) self.color_candidate
      (fun _ _ _ hd hstep => color_candidate_length hstep hd) om' _ colored
      (Nat.le_add_left 1 self.k) hcolored
  · rw [hperm.mem_iff, List.mem_cons, hsp]
    exact or_congr_right (hmem x)

end Call

/-! ## A DAG grown block by block -/

/-- The stores holding genesis alone, with the data `genesis_ghostdag_data`
    gives it and no parents. -/
def GhostdagStores.init (genesis origin : H) (bits : UInt32) : GhostdagStores H where
  ghostdag h := if h = genesis then some ⟨0, 0, origin, [], [], ∅⟩ else none
  relations h := if h = genesis then some [] else none
  bits h := if h = genesis then some bits else none

/-- The stores once a block is committed with its parents, its header's bits
    and its GHOSTDAG data. -/
def GhostdagStores.add_block (stores : GhostdagStores H) (hash : H) (parents : List H)
    (bits : UInt32) (data : GhostdagData H) : GhostdagStores H where
  ghostdag h := if h = hash then some data else stores.ghostdag h
  relations h := if h = hash then some parents else stores.relations h
  bits h := if h = hash then some bits else stores.bits h

omit [LinearOrder H] in
/-- A single parent is an antichain. -/
theorem antichain_singleton (relations : H → Option (List H)) (a : H) :
    ∀ p ∈ [a], ∀ q ∈ [a], p ≠ q → ¬ InPast relations q p :=
  fun _ hp _ hq hne => absurd ((List.mem_singleton.mp hp).trans (List.mem_singleton.mp hq).symm) hne

/-- Genesis `0` and two children of it, `1` and `2`, each committed with the
    data `ghostdag` gives it, at difficulty bits `0x1d00ffff`. -/
def two_children_stores : GhostdagStores ℕ :=
  ((GhostdagStores.init 0 100 0x1d00ffff).add_block 1 [0] 0x1d00ffff
    ⟨1, 4295032833, 0, [0], [], (∅ : Map ℕ ℕ).insert 0 0⟩).add_block 2 [0] 0x1d00ffff
    ⟨1, 4295032833, 0, [0], [], (∅ : Map ℕ ℕ).insert 0 0⟩

/-- The relations of genesis and its first child. -/
def first_child_dag : Dag ℕ := (Dag.genesis 0).add_block 1 [0] (by decide)

/-- The relations of `two_children_stores`. -/
def two_children_dag : Dag ℕ := first_child_dag.add_block 2 [0] (by decide)

/-- The data `ghostdag` gives the block merging `1` and `2`. -/
def merging_data : GhostdagData ℕ :=
  ⟨3, 12885098499, 2, [2, 1], [], ((∅ : Map ℕ ℕ).insert 1 1).insert 2 1⟩

/-- The call for the block merging `1` and `2`. -/
def two_children_manager : GhostdagManager ℕ :=
  ⟨0, 100, 18, two_children_stores, two_children_dag.search_is_dag_ancestor_of, 20⟩

/-- `1` and `2` are not in each other's past, as the search finds. -/
theorem two_children_antichain :
    ∀ p ∈ [1, 2], ∀ q ∈ [1, 2], p ≠ q → ¬ InPast two_children_stores.relations q p := by
  intro p hp q hq hne hpast
  have hfound := (two_children_dag.search_oracle_correct p q).mpr hpast
  simp only [List.mem_cons, List.not_mem_nil, or_false] at hp hq
  rcases hp with rfl | rfl <;> rcases hq with rfl | rfl
  all_goals first | exact hne rfl | exact absurd hfound (by decide)

/-- The block merging `1` and `2`: its selected parent `2` heads the blues, `1`
    joins them, and the two are the selected parent and the whole mergeset. -/
theorem ghostdag_colors_mergeset_two_children :
    two_children_manager.ghostdag [1, 2] = .ok merging_data ∧
    OracleCorrect two_children_manager.stores.relations two_children_manager.is_dag_ancestor_of ∧
    (∀ p ∈ [1, 2], ∀ q ∈ [1, 2], p ≠ q → ¬ InPast two_children_manager.stores.relations q p) ∧
    ([2, 1].head? = some 2 ∧ [2, 1].length ≤ two_children_manager.k + 1 ∧ ([2, 1] ++ []).Nodup ∧
      ∀ x, x ∈ [2, 1] ++ [] ↔
        x = 2 ∨ InMergeset two_children_manager.stores.relations 2 [1, 2] x) := by
  have h : two_children_manager.ghostdag [1, 2] = .ok merging_data := rfl
  exact ⟨h, two_children_dag.search_oracle_correct, two_children_antichain,
    ghostdag_colors_mergeset h two_children_dag.search_oracle_correct two_children_antichain⟩

/-- A DAG grown from genesis: each block is new, its parents are stored and none
    is in the past of another, and it is committed with the data `ghostdag`
    computed for it against a correct reachability oracle, with any iteration
    bound. -/
inductive Built (genesis origin : H) (k : ℕ) : GhostdagStores H → Prop
  | genesis (bits : UInt32) : Built genesis origin k (GhostdagStores.init genesis origin bits)
  | add {stores : GhostdagStores H} (hash : H) (parents : List H) (bits : UInt32)
      (data : GhostdagData H) (is_dag_ancestor_of : H → H → Bool) (fuel : ℕ) :
      Built genesis origin k stores →
      stores.relations hash = none →
      (∀ p ∈ parents, (stores.relations p).isSome) →
      (∀ p ∈ parents, ∀ q ∈ parents, p ≠ q → ¬ InPast stores.relations q p) →
      OracleCorrect stores.relations is_dag_ancestor_of →
      GhostdagManager.ghostdag ⟨genesis, origin, k, stores, is_dag_ancestor_of, fuel⟩ parents =
        .ok data →
      Built genesis origin k (stores.add_block hash parents bits data)

section Frame

variable {stores : GhostdagStores H} {hash : H} {parents : List H} {bits : UInt32}
  {data : GhostdagData H}

theorem isParent_add_block (x y : H) :
    IsParent (stores.add_block hash parents bits data).relations x y ↔
      if x = hash then y ∈ parents else IsParent stores.relations x y := by
  unfold IsParent GhostdagStores.add_block
  dsimp only
  split_ifs with hx
  · exact ⟨fun ⟨ps, hps, hy⟩ => Option.some.inj hps ▸ hy, fun hy => ⟨parents, rfl, hy⟩⟩
  · exact Iff.rfl

/-- **FRAME**: committing a new block changes no past of a stored block, since
    no stored block has the new one as a parent. -/
theorem inPast_add_block (hfresh : stores.relations hash = none)
    (hclosed : ∀ x y, IsParent stores.relations x y → (stores.relations y).isSome)
    {x a : H} (hx : (stores.relations x).isSome) :
    InPast (stores.add_block hash parents bits data).relations x a ↔ InPast stores.relations x a := by
  have hne : ∀ y, (stores.relations y).isSome → y ≠ hash := by
    rintro y hy rfl
    rw [hfresh] at hy
    exact Bool.false_ne_true hy
  constructor
  · intro h
    induction h with
    | refl => exact ReflTransGen.refl
    | @tail c a _ hca ih =>
        -- every block on the path is stored, so its links are the old ones
        have hc : (stores.relations c).isSome := by
          induction ih with
          | refl => exact hx
          | tail _ hp _ => exact hclosed _ _ hp
        rw [isParent_add_block, if_neg (hne c hc)] at hca
        exact ih.tail hca
  · intro h
    induction h with
    | refl => exact ReflTransGen.refl
    | @tail c a hxc hca ih =>
        have hc : (stores.relations c).isSome := by
          induction hxc with
          | refl => exact hx
          | tail _ hp _ => exact hclosed _ _ hp
        refine ih.tail ?_
        rw [isParent_add_block, if_neg (hne c hc)]
        exact hca

/-- Committing a new block keeps every parent link. -/
theorem isParent_mono_add_block (hfresh : stores.relations hash = none) {x y : H}
    (h : IsParent stores.relations x y) :
    IsParent (stores.add_block hash parents bits data).relations x y := by
  rw [isParent_add_block, if_neg]
  · exact h
  · rintro rfl
    obtain ⟨ps, hps, -⟩ := h
    rw [hfresh] at hps
    cases hps

/-- Committing a block stores both its parents and its data. -/
theorem stored_add_block (hstored : ∀ y, (stores.relations y).isSome = (stores.ghostdag y).isSome) :
    ∀ y, ((stores.add_block hash parents bits data).relations y).isSome =
      ((stores.add_block hash parents bits data).ghostdag y).isSome := by
  intro y
  dsimp only [GhostdagStores.add_block]
  split_ifs
  · rfl
  · exact hstored y

/-- A stored block stays stored when another is committed. -/
theorem relations_add_block_isSome {y : H} (hy : (stores.relations y).isSome) :
    ((stores.add_block hash parents bits data).relations y).isSome := by
  dsimp only [GhostdagStores.add_block]
  split_ifs
  · rfl
  · exact hy

end Frame

/-! ## The invariant of a grown DAG -/

/-- What the data of a block other than genesis says about it: its selected
    parent is a parent; its mergeset blues are the selected parent and then
    blocks of its past outside the selected parent's past, each once; its blue
    score is the selected parent's plus their number. -/
structure ChainFacts (stores : GhostdagStores H) (b : H) (d : GhostdagData H) : Prop where
  parent : IsParent stores.relations b d.selected_parent
  blues : ∃ rest, d.mergeset_blues = d.selected_parent :: rest ∧ rest.Nodup ∧
    ∀ x ∈ rest, TransGen (IsParent stores.relations) b x ∧
      ¬ InPast stores.relations d.selected_parent x
  score : ∃ d', stores.ghostdag d.selected_parent = some d' ∧
    d.blue_score = d'.blue_score + d.mergeset_blues.length

/-- What every grown DAG keeps: blocks are stored with data and parents,
    parents are stored, parent links descend a rank (so no block is its own
    ancestor), genesis keeps its data, and every other block its chain facts. -/
structure StoreInv (genesis origin : H) (stores : GhostdagStores H) : Prop where
  stored : ∀ h, (stores.relations h).isSome = (stores.ghostdag h).isSome
  parent_stored : ∀ x y, IsParent stores.relations x y → (stores.relations y).isSome
  ranked : ∃ rank : H → ℕ, ∀ x y, IsParent stores.relations x y → rank y < rank x
  genesis_data : stores.ghostdag genesis = some ⟨0, 0, origin, [], [], ∅⟩
  chain : ∀ b d, stores.ghostdag b = some d → b ≠ genesis → ChainFacts stores b d

theorem StoreInv.init (genesis origin : H) (bits : UInt32) :
    StoreInv genesis origin (GhostdagStores.init genesis origin bits) := by
  refine ⟨?stored, ?parent_stored, ?ranked, ?genesis_data, ?chain⟩
  case stored =>
    intro h
    dsimp only [GhostdagStores.init]
    split_ifs <;> rfl
  -- genesis has no parents
  case parent_stored =>
    rintro x y ⟨ps, hps, hy⟩
    dsimp only [GhostdagStores.init] at hps
    split_ifs at hps
    cases hps
    exact absurd hy List.not_mem_nil
  case ranked =>
    refine ⟨fun _ => 0, ?_⟩
    rintro x y ⟨ps, hps, hy⟩
    dsimp only [GhostdagStores.init] at hps
    split_ifs at hps
    cases hps
    exact absurd hy List.not_mem_nil
  case genesis_data =>
    dsimp only [GhostdagStores.init]
    exact if_pos rfl
  case chain =>
    intro b d hb hne
    dsimp only [GhostdagStores.init] at hb
    rw [if_neg hne] at hb
    cases hb

section Add

variable {genesis origin : H} {k : ℕ} {stores : GhostdagStores H} {hash : H} {parents : List H}
  {bits : UInt32} {data : GhostdagData H} {is_dag_ancestor_of : H → H → Bool} {fuel : ℕ}

omit [LinearOrder H] in
theorem ne_of_stored (hfresh : stores.relations hash = none) {y : H}
    (hy : (stores.relations y).isSome) : y ≠ hash := by
  rintro rfl
  rw [hfresh] at hy
  exact Bool.false_ne_true hy

/-- A stored block keeps its data when another is committed. -/
theorem ghostdag_add_block_of_stored (hfresh : stores.relations hash = none) {y : H}
    (hy : (stores.relations y).isSome) :
    (stores.add_block hash parents bits data).ghostdag y = stores.ghostdag y :=
  if_neg (ne_of_stored hfresh hy)

/-- The chain facts of a stored block survive the commit of another. -/
theorem ChainFacts.add_block (hinv : StoreInv genesis origin stores)
    (hfresh : stores.relations hash = none) {b : H} {d : GhostdagData H}
    (h : ChainFacts stores b d) : ChainFacts (stores.add_block hash parents bits data) b d := by
  have hsp : (stores.relations d.selected_parent).isSome := hinv.parent_stored _ _ h.parent
  obtain ⟨rest, hblues, hnd, hrest⟩ := h.blues
  obtain ⟨d', hd', hscore⟩ := h.score
  refine ⟨isParent_mono_add_block hfresh h.parent, ⟨rest, hblues, hnd, fun x hx => ?_⟩,
    ⟨d', (ghostdag_add_block_of_stored hfresh hsp).trans hd', hscore⟩⟩
  obtain ⟨hpast, hout⟩ := hrest x hx
  refine ⟨TransGen.mono (fun _ _ => isParent_mono_add_block hfresh) _ _ hpast, ?_⟩
  rw [inPast_add_block hfresh hinv.parent_stored hsp]
  exact hout

/-- The chain facts of the block `ghostdag` computed data for, once it is
    committed. -/
theorem ChainFacts.of_ghostdag (hinv : StoreInv genesis origin stores)
    (hfresh : stores.relations hash = none) (hparents : ∀ p ∈ parents, (stores.relations p).isSome)
    (hanti : ∀ p ∈ parents, ∀ q ∈ parents, p ≠ q → ¬ InPast stores.relations q p)
    (horacle : OracleCorrect stores.relations is_dag_ancestor_of)
    (h : GhostdagManager.ghostdag ⟨genesis, origin, k, stores, is_dag_ancestor_of, fuel⟩ parents =
      .ok data) :
    ChainFacts (stores.add_block hash parents bits data) hash data := by
  obtain ⟨sp, m, om, color, score, hsel, hm, hsort, hscore, hsp, hblues, -, hbs⟩ := ghostdag_eq_ok h
  have hspp : sp ∈ parents := find_selected_parent_mem hsel
  have hsp_stored : (stores.relations sp).isSome := hparents sp hspp
  -- the search returned the mergeset, and the sort reordered it
  have hmem : ∀ x, x ∈ m ↔ InMergeset stores.relations sp parents x :=
    mergeset_loop_sound horacle _ _ m (SearchInv.init fun p hp hne => hanti p hp sp hspp hne) hm
  have hperm := sort_blocks_perm hsort
  refine ⟨?parent, ?blues, ?score⟩
  case parent =>
    rw [isParent_add_block, if_pos rfl, hsp]
    exact hspp
  case blues =>
    refine ⟨om.filter color, by rw [hblues, hsp], (hperm.nodup_iff.mpr m.nodup).filter _,
      fun x hx => ?_⟩
    obtain ⟨⟨p, hp, hpx⟩, hout⟩ := (hmem x).mp (hperm.subset (List.mem_of_mem_filter hx))
    rw [hsp]
    refine ⟨TransGen.head' ?_ (ReflTransGen.mono (fun _ _ => isParent_mono_add_block hfresh) _ _ hpx), ?_⟩
    · rw [isParent_add_block, if_pos rfl]
      exact hp
    · rw [inPast_add_block hfresh hinv.parent_stored hsp_stored]
      exact hout
  case score =>
    obtain ⟨d', hd', hscore'⟩ : ∃ d', stores.ghostdag sp = some d' ∧ d'.blue_score = score := by
      unfold GhostdagStores.get_blue_score GhostdagStores.get_data read at hscore
      cases hd : stores.ghostdag sp with
      | none =>
          rw [hd] at hscore
          cases hscore
      | some d' =>
          rw [hd] at hscore
          exact ⟨d', rfl, Except.ok.inj hscore⟩
    refine ⟨d', ?_, ?_⟩
    · rw [hsp, ghostdag_add_block_of_stored hfresh hsp_stored]
      exact hd'
    · rw [hbs, hscore']

/-- **STEP**: committing the block `ghostdag` computed data for keeps the
    invariant. -/
theorem StoreInv.add (hinv : StoreInv genesis origin stores)
    (hfresh : stores.relations hash = none) (hparents : ∀ p ∈ parents, (stores.relations p).isSome)
    (hanti : ∀ p ∈ parents, ∀ q ∈ parents, p ≠ q → ¬ InPast stores.relations q p)
    (horacle : OracleCorrect stores.relations is_dag_ancestor_of)
    (h : GhostdagManager.ghostdag ⟨genesis, origin, k, stores, is_dag_ancestor_of, fuel⟩ parents =
      .ok data) :
    StoreInv genesis origin (stores.add_block hash parents bits data) := by
  -- a parent link either leaves the new block for one of its parents or is old
  have hlink : ∀ x y, IsParent (stores.add_block hash parents bits data).relations x y →
      (stores.relations y).isSome := by
    intro x y hxy
    rw [isParent_add_block] at hxy
    split_ifs at hxy
    · exact hparents y hxy
    · exact hinv.parent_stored x y hxy
  refine ⟨?stored, ?parent_stored, ?ranked, ?genesis_data, ?chain⟩
  case stored => exact stored_add_block hinv.stored
  case parent_stored =>
    intro x y hxy
    exact relations_add_block_isSome (hlink x y hxy)
  case ranked =>
    obtain ⟨rank, hrank⟩ := hinv.ranked
    -- the new block ranks above all of its parents
    refine ⟨fun y => if y = hash then (parents.map rank).sum + 1 else rank y, fun x y hxy => ?_⟩
    dsimp only
    rw [if_neg (ne_of_stored hfresh (hlink x y hxy))]
    rw [isParent_add_block] at hxy
    split_ifs at hxy ⊢
    · exact Nat.lt_succ_of_le (List.le_sum_of_mem (List.mem_map_of_mem hxy))
    · exact hrank x y hxy
  case genesis_data =>
    have hg : (stores.relations genesis).isSome := by
      rw [hinv.stored, hinv.genesis_data]
      rfl
    rw [ghostdag_add_block_of_stored hfresh hg]
    exact hinv.genesis_data
  case chain =>
    intro b d hb hne
    dsimp only [GhostdagStores.add_block] at hb
    split_ifs at hb with hbh
    · cases hb
      subst hbh
      exact ChainFacts.of_ghostdag hinv hfresh hparents hanti horacle h
    · exact (hinv.chain b d hb hne).add_block hinv hfresh

end Add

/-- **RUN**: every DAG grown from genesis keeps the invariant. -/
theorem Built.invariant {genesis origin : H} {k : ℕ} {stores : GhostdagStores H}
    (h : Built genesis origin k stores) : StoreInv genesis origin stores := by
  induction h with
  | genesis bits => exact StoreInv.init genesis origin bits
  | add _ _ _ _ _ _ _ hfresh hparents hanti horacle hdata ih =>
      exact ih.add hfresh hparents hanti horacle hdata

/-! ## The blue set along the selected chain -/

/-- The blues a block's data accumulates along its selected chain down to
    genesis: its mergeset blues, then those of its selected parent. -/
inductive BlueChain (stores : GhostdagStores H) (genesis : H) : H → List H → Prop
  | genesis : BlueChain stores genesis genesis []
  | chain {b : H} {d : GhostdagData H} {blues : List H} :
      b ≠ genesis → stores.ghostdag b = some d →
      BlueChain stores genesis d.selected_parent blues →
      BlueChain stores genesis b (d.mergeset_blues ++ blues)

section Blues

variable {genesis origin : H} {stores : GhostdagStores H}

omit [LinearOrder H] in
/-- Parent links descend the rank, so no block is in its own strict past. -/
theorem StoreInv.acyclic (hinv : StoreInv genesis origin stores) (x : H) :
    ¬ TransGen (IsParent stores.relations) x x := by
  obtain ⟨rank, hrank⟩ := hinv.ranked
  have hdesc : ∀ {a b}, TransGen (IsParent stores.relations) a b → rank b < rank a := by
    intro a b hab
    induction hab with
    | single h => exact hrank _ _ h
    | tail _ h ih => exact (hrank _ _ h).trans ih
  exact fun h => lt_irrefl _ (hdesc h)

omit [LinearOrder H] in
/-- Along the selected chain every blue lies in the block's strict past, no
    blue comes twice, and the blue score counts them. -/
theorem BlueChain.spec (hinv : StoreInv genesis origin stores) {b : H} {blues : List H}
    (h : BlueChain stores genesis b blues) :
    ∀ d, stores.ghostdag b = some d →
      blues.Nodup ∧ blues.length = d.blue_score ∧
        ∀ x ∈ blues, TransGen (IsParent stores.relations) b x := by
  induction h with
  | genesis =>
      intro d hd
      rw [hinv.genesis_data, Option.some.injEq] at hd
      subst hd
      exact ⟨List.nodup_nil, rfl, fun x hx => absurd hx List.not_mem_nil⟩
  | @chain b d blues hne hb _ ih =>
      intro d₀ hd₀
      rw [hb, Option.some.injEq] at hd₀
      subst hd₀
      have hc := hinv.chain b d hb hne
      obtain ⟨rest, hblues, hnd, hrest⟩ := hc.blues
      obtain ⟨d', hd', hscore⟩ := hc.score
      obtain ⟨ihnd, ihlen, ihpast⟩ := ih d' hd'
      refine ⟨?nodup, ?length, ?past⟩
      case nodup =>
        -- the selected parent is outside its own strict past, the rest outside its past
        rw [hblues, List.nodup_append]
        refine ⟨List.Nodup.cons (fun hsp => (hrest _ hsp).2 ReflTransGen.refl) hnd, ihnd, ?_⟩
        rintro a ha c hc' rfl
        rcases List.mem_cons.mp ha with rfl | ha
        · exact hinv.acyclic _ (ihpast _ hc')
        · exact (hrest a ha).2 (ihpast a hc').to_reflTransGen
      case length =>
        rw [List.length_append, ihlen, hscore, Nat.add_comm]
      case past =>
        intro x hx
        rcases List.mem_append.mp hx with hx | hx
        · rw [hblues] at hx
          rcases List.mem_cons.mp hx with rfl | hx
          · exact TransGen.single hc.parent
          · exact (hrest x hx).1
        · exact TransGen.head hc.parent (ihpast x hx)

omit [LinearOrder H] in
/-- Every stored block has its blue chain down to genesis; the induction is on
    the rank, which the selected parent lowers. -/
theorem StoreInv.exists_blueChain (hinv : StoreInv genesis origin stores) :
    ∀ b, (stores.relations b).isSome → ∃ blues, BlueChain stores genesis b blues := by
  obtain ⟨rank, hrank⟩ := hinv.ranked
  intro b
  induction hn : rank b using Nat.strong_induction_on generalizing b with
  | _ n ih =>
      intro hb
      by_cases hg : b = genesis
      · subst hg
        exact ⟨[], BlueChain.genesis⟩
      rw [hinv.stored] at hb
      obtain ⟨d, hd⟩ := Option.isSome_iff_exists.mp hb
      have hc := hinv.chain b d hd hg
      obtain ⟨blues, hblues⟩ := ih _ (hn ▸ hrank _ _ hc.parent) d.selected_parent rfl
        (hinv.parent_stored _ _ hc.parent)
      exact ⟨_, BlueChain.chain hg hd hblues⟩

end Blues

/-! ## The mergeset and the blue score -/

/-- The search returns exactly the past of the parents outside the selected
    parent's past; and through every DAG grown by `ghostdag`, each block has
    its blue chain, which counts no block twice and whose size is the block's
    blue score. -/
theorem mergeset_exact_and_blue_score_counts_blue_set :
    (∀ (dag : Dag H) (is_dag_ancestor_of : H → H → Bool) (selected_parent : H) (parents : List H)
        (fuel : ℕ), OracleCorrect dag.relations is_dag_ancestor_of →
      (∀ p ∈ parents, p ≠ selected_parent → ¬ InPast dag.relations selected_parent p) →
      (∀ p ∈ parents, p ∈ dag.blocks) → parents.length + dag.blocks.length < fuel →
      ∃ m, unordered_mergeset_without_selected_parent dag.relations is_dag_ancestor_of
          selected_parent parents fuel = .ok m ∧
        ∀ x, x ∈ m ↔ (∃ p ∈ parents, InPast dag.relations p x) ∧
          ¬ InPast dag.relations selected_parent x) ∧
    (∀ (genesis origin : H) (k : ℕ) (stores : GhostdagStores H), Built genesis origin k stores →
      ∀ b d, stores.ghostdag b = some d →
        (∃ blues, BlueChain stores genesis b blues) ∧
        ∀ blues, BlueChain stores genesis b blues →
          blues.Nodup ∧ blues.toFinset.card = d.blue_score) := by
  refine ⟨fun dag is_dag_ancestor_of selected_parent parents fuel horacle hanti hparents hfuel =>
    mem_unordered_mergeset_iff dag is_dag_ancestor_of selected_parent parents fuel horacle hanti
      hparents hfuel, ?_⟩
  intro genesis origin k stores hbuilt b d hd
  have hinv := hbuilt.invariant
  have hb : (stores.relations b).isSome := by
    rw [hinv.stored, hd]
    rfl
  refine ⟨hinv.exists_blueChain b hb, fun blues hblues => ?_⟩
  obtain ⟨hnd, hlen, -⟩ := hblues.spec hinv d hd
  exact ⟨hnd, (List.toFinset_card_of_nodup hnd).trans hlen⟩

/-- Genesis `0`, its children `1` and `2`, and `3` merging them. -/
def diamond : Dag ℕ where
  relations
    | 0 => some []
    | 1 | 2 => some [0]
    | 3 => some [1, 2]
    | _ => none
  blocks := [0, 1, 2, 3]
  mem_blocks
    | 0 | 1 | 2 | 3 => by decide
    | _ + 4 => by simp
  parent_mem := by
    rintro (_ | _ | _ | _ | x) y ⟨ps, hps, hy⟩ <;> cases hps <;> simp at hy ⊢ <;> omega

/-- `two_children_stores` with the block merging `1` and `2` committed as `3`. -/
def diamond_stores : GhostdagStores ℕ :=
  two_children_stores.add_block 3 [1, 2] 0x1d00ffff merging_data

/-- `diamond_stores` is grown by `ghostdag` from genesis. -/
theorem diamond_stores_built : Built 0 100 18 diamond_stores :=
  Built.add 3 [1, 2] 0x1d00ffff _ two_children_dag.search_is_dag_ancestor_of 20
    (Built.add 2 [0] 0x1d00ffff _ first_child_dag.search_is_dag_ancestor_of 20
      (Built.add 1 [0] 0x1d00ffff _ (Dag.genesis 0).search_is_dag_ancestor_of 20
        (Built.genesis 0x1d00ffff) rfl (by decide) (antichain_singleton _ 0)
        (Dag.genesis 0).search_oracle_correct rfl)
      rfl (by decide) (antichain_singleton _ 0) first_child_dag.search_oracle_correct rfl)
    rfl (by decide) two_children_antichain two_children_dag.search_oracle_correct rfl

theorem mergeset_exact_and_blue_score_counts_blue_set_diamond :
    (∃ m, unordered_mergeset_without_selected_parent diamond.relations
        diamond.search_is_dag_ancestor_of 1 [1, 2] 10 = .ok m ∧
      ∀ x, x ∈ m ↔ (∃ p ∈ [1, 2], InPast diamond.relations p x) ∧
        ¬ InPast diamond.relations 1 x) ∧
    ((∃ blues, BlueChain diamond_stores 0 3 blues) ∧
      ∀ blues, BlueChain diamond_stores 0 3 blues → blues.Nodup ∧ blues.toFinset.card = 3) := by
  -- `2` is not in the past of `1`, as the search finds
  have hanti : ∀ p ∈ [1, 2], p ≠ 1 → ¬ InPast diamond.relations 1 p := by
    intro p hp hne hpast
    obtain rfl : p = 2 := by
      simp only [List.mem_cons, List.not_mem_nil, or_false] at hp
      omega
    exact absurd ((diamond.search_oracle_correct 2 1).mpr hpast) (by decide)
  exact ⟨mergeset_exact_and_blue_score_counts_blue_set.1 diamond _ 1 [1, 2] 10
      diamond.search_oracle_correct hanti (by decide) (by decide),
    mergeset_exact_and_blue_score_counts_blue_set.2 0 100 18 _ diamond_stores_built 3 _ rfl⟩

end KashGhostdag
