import Kash.Consensus.Window
import Kash.Consensus.OrderingProofs
import Kash.Consensus.DifficultyProofs
import Kash.Consensus.IntervalProofs
import Kash.Lib.BoundedHeap

/-! # The window keeps the blocks of greatest blue work

    `try_push` is the library's `BoundedHeap.push` for the comparison of
    `SortableBlock`s (`try_push_eq`), which is `<` on the injective key (blue
    work, hash). So the library's invariant holds of every run: after distinct
    blocks are offered one at a time, the window keeps `min size n` of them, each
    above every block left out (`offer_all_keeps_greatest`).

    The full manager's walk down the chain stops offering at the first rejection
    of a chain block's offers, and stops walking when a selected parent is
    rejected. On a chain whose offers descend (each chain block's selected parent
    above its descending mergeset and above every block offered after them)
    neither stop loses anything: the walk gives the window that offering every
    block of the chain gives (`walk_down_chain_eq`). So a cache miss builds the
    window that keeps the greatest blocks of the chain, or fails at `ORIGIN` with
    fewer (`build_block_window_of_cache_miss`), and a cache hit on the selected
    parent's window builds the same window up to order
    (`build_block_window_of_cache_hit`), which the difficulty and the past median
    time read in any order. -/

namespace KashWindow

open KashDifficulty KashGhostdag KashScript KashReachability MinMax BoundedHeap ExceptLoops

variable {H : Type}

namespace BoundedSizeBlockHeap

/-- The heap with other entries, its bound and origin kept. -/
def with_blocks (heap : BoundedSizeBlockHeap H) (blocks : List (SortableBlock H)) :
    BoundedSizeBlockHeap H :=
  ⟨⟨blocks, heap.binary_heap.origin⟩, heap.size_bound⟩

@[simp] theorem with_blocks_blocks (heap : BoundedSizeBlockHeap H) (blocks : List (SortableBlock H)) :
    (heap.with_blocks blocks).binary_heap.blocks = blocks := rfl

@[simp] theorem with_blocks_size_bound (heap : BoundedSizeBlockHeap H) (blocks : List (SortableBlock H)) :
    (heap.with_blocks blocks).size_bound = heap.size_bound := rfl

@[simp] theorem with_blocks_origin (heap : BoundedSizeBlockHeap H) (blocks : List (SortableBlock H)) :
    (heap.with_blocks blocks).binary_heap.origin = heap.binary_heap.origin := rfl

@[simp] theorem with_blocks_self (heap : BoundedSizeBlockHeap H) :
    heap.with_blocks heap.binary_heap.blocks = heap := rfl

@[simp] theorem new_blocks (origin : WindowOrigin) (size_bound : ℕ) :
    (new origin size_bound : BoundedSizeBlockHeap H).binary_heap.blocks = [] := rfl

@[simp] theorem new_size_bound (origin : WindowOrigin) (size_bound : ℕ) :
    (new origin size_bound : BoundedSizeBlockHeap H).size_bound = size_bound := rfl

@[simp] theorem with_blocks_with_blocks (heap : BoundedSizeBlockHeap H) (l l' : List (SortableBlock H)) :
    (heap.with_blocks l).with_blocks l' = heap.with_blocks l' := rfl

end BoundedSizeBlockHeap

variable [LinearOrder H]

/-! ## The comparison of the heap's entries -/

/-- The comparison `peek` and `try_push` make between two entries. -/
def block_lt (a b : SortableBlock H) : Bool := a.cmp b == .lt

theorem block_lt_on_key : LtOnKey SortableBlock.key (block_lt (H := H)) := by
  intro a b
  rw [block_lt, beq_iff_eq, SortableBlock.cmp_eq_compare, compare_lt_iff_lt]

theorem peek_eq_least (blocks : List (SortableBlock H)) : peek blocks = least block_lt blocks :=
  rfl

/-! ## One push -/

namespace BoundedSizeBlockHeap

/-- **`try_push` IS THE LIBRARY'S PUSH** on the heap's entries: a full heap
    pops its least entry only when the block is not below it. -/
theorem try_push_eq (heap : BoundedSizeBlockHeap H) (hash : H) (blue_work : ℕ) :
    heap.try_push hash blue_work =
      (heap.with_blocks (push block_lt heap.size_bound heap.binary_heap.blocks ⟨hash, blue_work⟩).1,
        (push block_lt heap.size_bound heap.binary_heap.blocks ⟨hash, blue_work⟩).2) := by
  unfold try_push BoundedHeap.push reached_size_bound
  rw [← peek_eq_least]
  by_cases hfull : heap.binary_heap.blocks.length = heap.size_bound
  · rw [if_pos (beq_iff_eq.mpr hfull), if_pos hfull]
    -- the source pops whatever `peek` saw, and pops nothing from an empty heap
    cases hpeek : peek heap.binary_heap.blocks with
    | none => simp [BlockWindowHeap.pop, BlockWindowHeap.push, hpeek, with_blocks]
    | some m =>
        by_cases hlt : block_lt ⟨hash, blue_work⟩ m = true
        · rw [block_lt] at hlt
          simp [hlt, block_lt]
        · rw [block_lt] at hlt
          simp [hlt, block_lt, BlockWindowHeap.pop, BlockWindowHeap.push, hpeek, with_blocks]
  · rw [if_neg (by simpa using hfull), if_neg hfull]
    rfl

@[simp] theorem try_push_size_bound (heap : BoundedSizeBlockHeap H) (hash : H) (blue_work : ℕ) :
    (heap.try_push hash blue_work).1.size_bound = heap.size_bound := by
  rw [try_push_eq, with_blocks_size_bound]

/-- A push is rejected exactly when the heap is full and the block is below its
    least entry. -/
theorem try_push_eq_false_iff {heap : BoundedSizeBlockHeap H} {hash : H} {blue_work : ℕ} :
    (heap.try_push hash blue_work).2 = false ↔
      heap.binary_heap.blocks.length = heap.size_bound ∧
        ∃ m, peek heap.binary_heap.blocks = some m ∧
          (⟨hash, blue_work⟩ : SortableBlock H).key < m.key := by
  rw [try_push_eq, push_eq_false_iff, ← peek_eq_least]
  constructor
  · rintro ⟨hfull, m, hm, hlt⟩
    exact ⟨hfull, m, hm, (block_lt_on_key _ _).mp hlt⟩
  · rintro ⟨hfull, m, hm, hlt⟩
    exact ⟨hfull, m, hm, (block_lt_on_key _ _).mpr hlt⟩

/-- With a positive bound, `can_push` answers what `try_push` would do: a full
    heap is then nonempty, so the `unwrap` of its least entry succeeds. -/
theorem can_push_of_pos {heap : BoundedSizeBlockHeap H} (hbound : 0 < heap.size_bound)
    (hash : H) (blue_work : ℕ) :
    heap.can_push hash blue_work = .ok (heap.try_push hash blue_work).2 := by
  unfold can_push try_push
  by_cases hfull : heap.reached_size_bound = true
  · rw [if_pos hfull, if_pos hfull]
    have hne : heap.binary_heap.blocks ≠ [] := by
      intro h
      rw [reached_size_bound, beq_iff_eq, h, List.length_nil] at hfull
      omega
    obtain ⟨m, hm, -, -⟩ := least_spec block_lt_on_key hne
    rw [peek_eq_least, hm]
    cases hcmp : (⟨hash, blue_work⟩ : SortableBlock H).cmp m <;> simp [unwrap, hcmp]
  · rw [if_neg hfull, if_neg hfull]
    rfl

end BoundedSizeBlockHeap

open BoundedSizeBlockHeap

/-! ## Whole runs -/

/-- The heap that offering every block in order gives: the managers' loops
    without their `break`. -/
def offer_all (heap : BoundedSizeBlockHeap H) (blocks : List (SortableBlock H)) :
    BoundedSizeBlockHeap H :=
  blocks.foldl (fun heap block => (heap.try_push block.hash block.blue_work).1) heap

@[simp] theorem offer_all_nil (heap : BoundedSizeBlockHeap H) : offer_all heap [] = heap := rfl

@[simp] theorem offer_all_cons (heap : BoundedSizeBlockHeap H) (block : SortableBlock H)
    (blocks : List (SortableBlock H)) :
    offer_all heap (block :: blocks) = offer_all (heap.try_push block.hash block.blue_work).1 blocks :=
  rfl

/-- The run lemma of the refinement: offering blocks is the library's fold of
    pushes on the heap's entries. -/
theorem offer_all_eq : ∀ (heap : BoundedSizeBlockHeap H) (blocks : List (SortableBlock H)),
    offer_all heap blocks =
      heap.with_blocks (blocks.foldl (fun l x => (push block_lt heap.size_bound l x).1)
        heap.binary_heap.blocks)
  | heap, [] => by rw [offer_all_nil, List.foldl_nil, with_blocks_self]
  | heap, block :: blocks => by
      rw [offer_all_cons, offer_all_eq, try_push_size_bound, List.foldl_cons, try_push_eq,
        with_blocks_blocks, with_blocks_with_blocks]

/-- What a window keeps of the blocks offered to it: `min size n` of the `n`
    blocks, with no repeats, each greater by `SortableBlock::cmp` than every
    offered block it does not hold. -/
structure KeepsGreatest (size : ℕ) (window blocks : List (SortableBlock H)) : Prop where
  length_eq : window.length = min size blocks.length
  nodup : window.Nodup
  subset : ∀ b ∈ window, b ∈ blocks
  above : ∀ b ∈ blocks, b ∉ window → ∀ c ∈ window, SortableBlock.cmp b c = .lt

/-- The library's invariant, pushed in the order offered, read in the order of
    the source's comparison. -/
theorem KeepsGreatest.of_topOf {size : ℕ} {window blocks : List (SortableBlock H)}
    (h : TopOf SortableBlock.key size window blocks.reverse) : KeepsGreatest size window blocks :=
  ⟨by rw [h.length_eq, List.length_reverse], h.nodup,
    fun b hb => List.mem_reverse.mp (h.subset b hb), fun b hb hout c hc => by
      rw [SortableBlock.cmp_eq_compare, compare_lt_iff_lt]
      exact h.above b (List.mem_reverse.mpr hb) hout c hc⟩

/-- The run lemma from an empty heap: the library's invariant holds of the
    distinct blocks offered. -/
theorem offer_all_topOf (origin : WindowOrigin) {size_bound : ℕ} (hbound : 0 < size_bound)
    {blocks : List (SortableBlock H)} (hnodup : blocks.Nodup) :
    TopOf SortableBlock.key size_bound
      (offer_all (BoundedSizeBlockHeap.new origin size_bound) blocks).binary_heap.blocks
      blocks.reverse := by
  -- the library's run lemma, from the empty heap that has had nothing pushed
  have hrun := TopOf.foldl_push block_lt_on_key SortableBlock.key_injective hbound blocks
    (TopOf.nil : TopOf SortableBlock.key size_bound [] [])
    (by rw [List.append_nil, List.nodup_reverse]; exact hnodup)
  rw [List.append_nil] at hrun
  rw [offer_all_eq, new_blocks, new_size_bound, with_blocks_blocks]
  exact hrun

@[simp] theorem offer_all_size_bound (heap : BoundedSizeBlockHeap H) (blocks : List (SortableBlock H)) :
    (offer_all heap blocks).size_bound = heap.size_bound := by
  rw [offer_all_eq, with_blocks_size_bound]

/-- **THE WINDOW HOLDS THE GREATEST BLOCKS**: after distinct blocks are offered
    one at a time to an empty heap of a positive bound, it holds `min bound n` of
    them, each greater, by blue work and then hash, than every block left out. -/
theorem offer_all_keeps_greatest (origin : WindowOrigin) {size_bound : ℕ} (hbound : 0 < size_bound)
    {blocks : List (SortableBlock H)} (hnodup : blocks.Nodup) :
    KeepsGreatest size_bound
      (offer_all (BoundedSizeBlockHeap.new origin size_bound) blocks).binary_heap.blocks blocks :=
  KeepsGreatest.of_topOf (offer_all_topOf origin hbound hnodup)

/-- Five blocks, to be offered to a window of three. -/
def five_blocks : List (SortableBlock ℕ) := [⟨3, 30⟩, ⟨1, 10⟩, ⟨4, 40⟩, ⟨5, 50⟩, ⟨2, 20⟩]

theorem offer_all_keeps_greatest_five :
    0 < 3 ∧ five_blocks.Nodup ∧
      KeepsGreatest 3 (offer_all (BoundedSizeBlockHeap.new .Full 3) five_blocks).binary_heap.blocks
        five_blocks :=
  ⟨by decide, by decide, offer_all_keeps_greatest .Full (by decide) (by decide)⟩

/-! ## The early stops -/

/-- Pushing until a rejection is the library's `push_while` on the entries. -/
theorem push_until_rejected_eq : ∀ (heap : BoundedSizeBlockHeap H) (blocks : List (SortableBlock H)),
    heap.push_until_rejected blocks =
      heap.with_blocks (push_while block_lt heap.size_bound heap.binary_heap.blocks blocks)
  | heap, [] => by rw [push_until_rejected, push_while, with_blocks_self]
  | heap, block :: blocks => by
      unfold push_until_rejected push_while
      rw [try_push_eq]
      cases push block_lt heap.size_bound heap.binary_heap.blocks ⟨block.hash, block.blue_work⟩ with
      | mk l accepted =>
          cases accepted with
          | true =>
              simp only
              rw [push_until_rejected_eq, with_blocks_blocks, with_blocks_size_bound,
                with_blocks_with_blocks]
          | false => rfl

/-- On strictly descending blocks, stopping at the first rejection gives the
    heap that offering every block gives. -/
theorem push_until_rejected_of_descending (heap : BoundedSizeBlockHeap H)
    {blocks : List (SortableBlock H)} (hdesc : blocks.Pairwise fun a b => b.key < a.key) :
    heap.push_until_rejected blocks = offer_all heap blocks := by
  rw [push_until_rejected_eq, offer_all_eq, push_while_eq_foldl block_lt_on_key blocks _ hdesc]

/-- Offering a list whose blocks are no greater than a rejected block changes
    nothing: the full heap rejects each of them too. -/
theorem offer_all_of_rejected {heap : BoundedSizeBlockHeap H} {top : SortableBlock H}
    (hrej : (heap.try_push top.hash top.blue_work).2 = false) {blocks : List (SortableBlock H)}
    (hbelow : ∀ b ∈ blocks, b.key ≤ top.key) : offer_all heap blocks = heap := by
  obtain ⟨hfull, m, hm, hlt⟩ := try_push_eq_false_iff.mp hrej
  rw [offer_all_eq, foldl_push_of_lt_least block_lt_on_key hfull (by rw [← peek_eq_least]; exact hm)
    blocks fun b hb => lt_of_le_of_lt (hbelow b hb) hlt, with_blocks_self]

/-- In a strictly descending list, no block is above the first. -/
theorem key_le_of_descending {top : SortableBlock H} {rest : List (SortableBlock H)}
    (hdesc : (top :: rest).Pairwise fun a b => b.key < a.key) :
    ∀ b ∈ top :: rest, b.key ≤ top.key := by
  intro b hb
  rcases List.mem_cons.mp hb with rfl | hb
  · exact le_rfl
  · exact ((List.pairwise_cons.mp hdesc).1 b hb).le

/-! ## The full manager -/

namespace FullWindowManager

/-- Once the mergeset reads, `try_push_mergeset` pushes the selected parent and
    then the mergeset until a rejection, and reports whether the selected parent
    was the one rejected. -/
theorem try_push_mergeset_eq (self : FullWindowManager H) (heap : BoundedSizeBlockHeap H)
    (ghostdag_data : GhostdagData H) (selected_parent_blue_work : ℕ)
    {descending : List (SortableBlock H)}
    (hdesc : ghostdag_data.descending_mergeset_without_selected_parent self.ghostdag_store =
      .ok descending) :
    self.try_push_mergeset heap ghostdag_data selected_parent_blue_work =
      .ok (heap.push_until_rejected
          (⟨ghostdag_data.selected_parent, selected_parent_blue_work⟩ :: descending),
        !(heap.try_push ghostdag_data.selected_parent selected_parent_blue_work).2) := by
  unfold try_push_mergeset
  rw [push_until_rejected]
  cases heap.try_push ghostdag_data.selected_parent selected_parent_blue_work with
  | mk pushed accepted =>
      cases accepted with
      | true => simp only [hdesc, ok_bind]; rfl
      | false => rfl

/-- The blocks the walk offers from a chain block on when it never stops
    early: one list per chain block, its selected parent and then its mergeset in
    descending order, down to genesis or `ORIGIN`; and whether the chain ends at
    `ORIGIN`. -/
def chain_offers (self : FullWindowManager H) :
    ℕ → GhostdagData H → Except WindowFault (List (List (SortableBlock H)) × Bool)
  | 0, _ => throw (.panics (.ghostdag .out_of_fuel))
  | fuel + 1, current_ghostdag =>
      if current_ghostdag.selected_parent = self.origin then pure ([], true)
      else if current_ghostdag.selected_parent = self.genesis_hash then pure ([], false)
      else do
        let parent_ghostdag ← (self.ghostdag_store.get_data current_ghostdag.selected_parent).mapError
          fun e => .panics (.ghostdag e)
        let descending ← (current_ghostdag.descending_mergeset_without_selected_parent
          self.ghostdag_store).mapError fun e => .panics (.ghostdag e)
        let (rest, at_origin) ← chain_offers self fuel parent_ghostdag
        pure ((⟨current_ghostdag.selected_parent, parent_ghostdag.blue_work⟩ :: descending) :: rest,
          at_origin)

end FullWindowManager

/-- Each chain block's offers descend strictly from its selected parent, which
    is above every block offered after them. -/
def Descends : List (List (SortableBlock H)) → Prop
  | [] => True
  | [] :: rest => Descends rest
  | (top :: tail) :: rest =>
      (top :: tail).Pairwise (fun a b => b.key < a.key) ∧ (∀ b ∈ rest.flatten, b.key < top.key) ∧
        Descends rest

instance decidableDescends : (steps : List (List (SortableBlock H))) → Decidable (Descends steps)
  | [] => inferInstanceAs (Decidable True)
  | [] :: rest => decidableDescends rest
  | (_ :: _) :: rest =>
      have := decidableDescends rest
      inferInstanceAs (Decidable (_ ∧ _ ∧ Descends rest))

theorem offer_all_append (heap : BoundedSizeBlockHeap H) (l₁ l₂ : List (SortableBlock H)) :
    offer_all heap (l₁ ++ l₂) = offer_all (offer_all heap l₁) l₂ :=
  List.foldl_append

namespace FullWindowManager

/-- What a successful `chain_offers` is: the chain ends here at `ORIGIN` or at
    genesis, or this chain block's offers, read from the stores, come before
    the selected parent's. -/
theorem chain_offers_succ_eq_ok (self : FullWindowManager H) {fuel : ℕ}
    {ghostdag_data : GhostdagData H} {steps : List (List (SortableBlock H))} {at_origin : Bool}
    (h : self.chain_offers (fuel + 1) ghostdag_data = .ok (steps, at_origin)) :
    (ghostdag_data.selected_parent = self.origin ∧ steps = [] ∧ at_origin = true) ∨
      (ghostdag_data.selected_parent ≠ self.origin ∧
        ghostdag_data.selected_parent = self.genesis_hash ∧ steps = [] ∧ at_origin = false) ∨
      ∃ parent_ghostdag descending rest,
        ghostdag_data.selected_parent ≠ self.origin ∧
        ghostdag_data.selected_parent ≠ self.genesis_hash ∧
        self.ghostdag_store.get_data ghostdag_data.selected_parent = .ok parent_ghostdag ∧
        ghostdag_data.descending_mergeset_without_selected_parent self.ghostdag_store =
          .ok descending ∧
        steps = (⟨ghostdag_data.selected_parent, parent_ghostdag.blue_work⟩ :: descending) :: rest ∧
        self.chain_offers fuel parent_ghostdag = .ok (rest, at_origin) := by
  unfold chain_offers at h
  by_cases horigin : ghostdag_data.selected_parent = self.origin
  · rw [if_pos horigin] at h
    obtain ⟨rfl, rfl⟩ := Prod.mk.inj (Except.ok.inj h)
    exact .inl ⟨horigin, rfl, rfl⟩
  rw [if_neg horigin] at h
  by_cases hgenesis : ghostdag_data.selected_parent = self.genesis_hash
  · rw [if_pos hgenesis] at h
    obtain ⟨rfl, rfl⟩ := Prod.mk.inj (Except.ok.inj h)
    exact .inr (.inl ⟨horigin, hgenesis, rfl, rfl⟩)
  rw [if_neg hgenesis] at h
  obtain ⟨parent_ghostdag, hparent, h⟩ := (bind_eq_ok _ _ _).mp h
  obtain ⟨descending, hdescending, h⟩ := (bind_eq_ok _ _ _).mp h
  obtain ⟨⟨rest, at_origin'⟩, hrest, h⟩ := (bind_eq_ok _ _ _).mp h
  obtain ⟨rfl, rfl⟩ := Prod.mk.inj (Except.ok.inj h)
  exact .inr (.inr ⟨parent_ghostdag, descending, rest, horigin, hgenesis,
    (mapError_eq_ok _ _ _).mp hparent, (mapError_eq_ok _ _ _).mp hdescending, rfl, hrest⟩)

/-- **THE WALK LOSES NOTHING**: on a chain whose offers descend, the walk down
    the chain, with its early stops, gives the heap that offering every block of
    the chain gives, or the error of a chain that ends at `ORIGIN` with that heap
    not full. -/
theorem walk_down_chain_eq (self : FullWindowManager H) :
    ∀ (fuel : ℕ) (heap : BoundedSizeBlockHeap H) (ghostdag_data : GhostdagData H)
      {steps : List (List (SortableBlock H))} {at_origin : Bool},
      self.chain_offers fuel ghostdag_data = .ok (steps, at_origin) → Descends steps →
      self.walk_down_chain fuel heap ghostdag_data =
        if at_origin = true ∧ (offer_all heap steps.flatten).reached_size_bound = false then
          .error (.rule (.InsufficientDaaWindowSize
            (offer_all heap steps.flatten).binary_heap.blocks.length))
        else .ok (offer_all heap steps.flatten)
  | 0, _, _, _, _, hoffers, _ => by cases hoffers
  | fuel + 1, heap, ghostdag_data, steps, at_origin, hoffers, hdesc => by
      unfold walk_down_chain
      rcases chain_offers_succ_eq_ok self hoffers with
        ⟨horigin, rfl, rfl⟩ | ⟨horigin, hgenesis, rfl, rfl⟩ |
          ⟨parent_ghostdag, descending, rest, horigin, hgenesis, hparent, hdescending, rfl, hrest⟩
      · -- the chain ends at `ORIGIN`, where the window must be full
        rw [if_pos horigin]
        cases hfull : heap.reached_size_bound <;> simp [hfull] <;> rfl
      · rw [if_neg horigin, if_pos hgenesis, if_neg (by simp), List.flatten_nil, offer_all_nil]
        rfl
      obtain ⟨hstep, hbelow, hrest_desc⟩ := hdesc
      rw [if_neg horigin, if_neg hgenesis, hparent, ok_mapError, ok_bind,
        try_push_mergeset_eq self heap ghostdag_data _ hdescending, ok_mapError, ok_bind,
        push_until_rejected_of_descending heap hstep, List.flatten_cons, offer_all_append]
      cases hpush : (heap.try_push ghostdag_data.selected_parent parent_ghostdag.blue_work).2 with
      | true =>
          -- the selected parent entered: the walk goes on from it
          simp only [Bool.not_true, Bool.false_eq_true, if_false]
          exact walk_down_chain_eq self fuel _ parent_ghostdag hrest hrest_desc
      | false =>
          -- too low: the full window rejects every block after it as well
          have hstay : offer_all heap (⟨ghostdag_data.selected_parent, parent_ghostdag.blue_work⟩ ::
              descending) = heap :=
            offer_all_of_rejected hpush (key_le_of_descending hstep)
          have hstay_rest : offer_all heap rest.flatten = heap :=
            offer_all_of_rejected hpush fun b hb => (hbelow b hb).le
          have hreached : heap.reached_size_bound = true := by
            rw [reached_size_bound, beq_iff_eq]
            exact (try_push_eq_false_iff.mp hpush).1
          rw [hstay, hstay_rest, if_neg (by simp [hreached])]
          rfl

/-- On a cache miss, `build_block_window` is the walk down the chain from an
    empty window of the type's size. -/
theorem build_block_window_of_miss (self : FullWindowManager H) (ghostdag_data : GhostdagData H)
    (window_type : WindowType) (hsize : 0 < self.window_size ghostdag_data window_type)
    (hmiss : ∀ cache ∈ self.window_cache (self.window_size ghostdag_data window_type),
      ∀ cached ∈ cache ghostdag_data.selected_parent, cached.origin ≠ .Full) :
    self.build_block_window ghostdag_data window_type = (do
      let window_heap ← self.walk_down_chain self.fuel
        (.new .Full (self.window_size ghostdag_data window_type)) ghostdag_data
      pure window_heap.binary_heap) := by
  unfold build_block_window
  cases hcache : self.window_cache (self.window_size ghostdag_data window_type) with
  | none => simp [Nat.pos_iff_ne_zero.mp hsize, hcache]
  | some cache =>
      cases hcached : cache ghostdag_data.selected_parent with
      | none => simp [Nat.pos_iff_ne_zero.mp hsize, hcache, hcached]
      | some cached =>
          have horigin := hmiss cache hcache cached hcached
          simp [Nat.pos_iff_ne_zero.mp hsize, hcache, hcached, horigin]

/-- **THE WINDOW OF A CACHE MISS**: when the cache for the window size holds no
    window of this manager for the selected parent, on a chain whose offers
    descend and are distinct, `build_block_window` fails exactly when the chain
    ends at `ORIGIN` having offered fewer blocks than the window size, with their
    number, and otherwise returns a window that keeps the greatest of the
    chain's blocks. -/
theorem build_block_window_of_cache_miss (self : FullWindowManager H)
    (ghostdag_data : GhostdagData H) (window_type : WindowType)
    {steps : List (List (SortableBlock H))} {at_origin : Bool}
    (hsize : 0 < self.window_size ghostdag_data window_type)
    (hmiss : ∀ cache ∈ self.window_cache (self.window_size ghostdag_data window_type),
      ∀ cached ∈ cache ghostdag_data.selected_parent, cached.origin ≠ .Full)
    (hoffers : self.chain_offers self.fuel ghostdag_data = .ok (steps, at_origin))
    (hdesc : Descends steps) (hnodup : steps.flatten.Nodup) :
    (at_origin = true ∧ steps.flatten.length < self.window_size ghostdag_data window_type →
      self.build_block_window ghostdag_data window_type =
        .error (.rule (.InsufficientDaaWindowSize steps.flatten.length))) ∧
    (¬ (at_origin = true ∧ steps.flatten.length < self.window_size ghostdag_data window_type) →
      ∃ window, self.build_block_window ghostdag_data window_type = .ok window ∧
        KeepsGreatest (self.window_size ghostdag_data window_type) window.blocks steps.flatten) := by
  have hkeeps := KeepsGreatest.of_topOf (offer_all_topOf .Full hsize hnodup)
  -- the window is full exactly when the chain offered as many blocks as its size
  have hreached : (offer_all (.new .Full (self.window_size ghostdag_data window_type))
      steps.flatten).reached_size_bound = false ↔
        steps.flatten.length < self.window_size ghostdag_data window_type := by
    rw [reached_size_bound, offer_all_size_bound, new_size_bound, hkeeps.length_eq,
      beq_eq_false_iff_ne]
    omega
  rw [build_block_window_of_miss self ghostdag_data window_type hsize hmiss,
    walk_down_chain_eq self self.fuel _ ghostdag_data hoffers hdesc]
  constructor
  · intro hshort
    rw [if_pos ⟨hshort.1, hreached.mpr hshort.2⟩, hkeeps.length_eq, Nat.min_eq_right hshort.2.le]
    rfl
  · intro hfull
    rw [if_neg fun h => hfull ⟨h.1, hreached.mp h.2⟩]
    exact ⟨_, rfl, hkeeps⟩

/-- **A CACHE HIT GIVES THE SAME WINDOW**: when the cache for the window size
    holds, for the selected parent, a window of this manager that keeps the
    greatest of the selected parent's chain, `build_block_window` on a chain
    whose offers descend and are distinct returns, in some order, the blocks of
    the window that offering the whole chain to an empty one gives. -/
theorem build_block_window_of_cache_hit (self : FullWindowManager H)
    (ghostdag_data : GhostdagData H) (window_type : WindowType)
    {cache : H → Option (BlockWindowHeap H)} {cached : BlockWindowHeap H}
    {step : List (SortableBlock H)} {rest : List (List (SortableBlock H))} {at_origin : Bool}
    (hsize : 0 < self.window_size ghostdag_data window_type)
    (hcache : self.window_cache (self.window_size ghostdag_data window_type) = some cache)
    (hcached : cache ghostdag_data.selected_parent = some cached)
    (hcached_origin : cached.origin = .Full)
    (hcached_blocks : cached.blocks.Perm
      (offer_all (.new .Full (self.window_size ghostdag_data window_type)) rest.flatten).binary_heap.blocks)
    (hoffers : self.chain_offers self.fuel ghostdag_data = .ok (step :: rest, at_origin))
    (hdesc : Descends (step :: rest)) (hnodup : (step :: rest).flatten.Nodup) :
    ∃ window, self.build_block_window ghostdag_data window_type = .ok window ∧
      window.blocks.Perm (offer_all (.new .Full (self.window_size ghostdag_data window_type))
        (step :: rest).flatten).binary_heap.blocks := by
  obtain ⟨fuel, hfuel⟩ : ∃ fuel, self.fuel = fuel + 1 := by
    cases h : self.fuel with
    | zero => rw [h] at hoffers; cases hoffers
    | succ fuel => exact ⟨fuel, rfl⟩
  rw [hfuel] at hoffers
  rcases chain_offers_succ_eq_ok self hoffers with ⟨-, h, -⟩ | ⟨-, -, h, -⟩ |
      ⟨parent_ghostdag, descending, rest', -, hgenesis, hparent, hdescending, hsteps, -⟩
  · cases h
  · cases h
  obtain ⟨hstep_eq, rfl⟩ := List.cons.inj hsteps
  have hstep : step.Pairwise (fun a b => b.key < a.key) := by
    rw [hstep_eq] at hdesc ⊢
    exact hdesc.1
  have hblue_work : self.ghostdag_store.get_blue_work ghostdag_data.selected_parent =
      .ok parent_ghostdag.blue_work := by
    rw [GhostdagStores.get_blue_work, hparent]
    rfl
  -- the cached window, with this block's offers pushed until a rejection
  have hbuild : self.build_block_window ghostdag_data window_type =
      .ok (offer_all (from_binary_heap (self.window_size ghostdag_data window_type) cached)
        step).binary_heap := by
    unfold build_block_window
    simp [Nat.pos_iff_ne_zero.mp hsize, hcache, hcached, hcached_origin, hgenesis, hblue_work,
      try_push_mergeset_eq self _ ghostdag_data _ hdescending, ← hstep_eq,
      push_until_rejected_of_descending _ hstep]
  refine ⟨_, hbuild, ?_⟩
  -- both windows keep the greatest of the same blocks, offered in another order
  rw [List.flatten_cons] at hnodup ⊢
  have hnodup_rev : (step.reverse ++ rest.flatten.reverse).Nodup := by
    have h := List.nodup_reverse.mpr hnodup
    rw [List.reverse_append] at h
    exact List.perm_append_comm.nodup_iff.mp h
  have hcached_top : TopOf SortableBlock.key (self.window_size ghostdag_data window_type) cached.blocks
      rest.flatten.reverse :=
    (offer_all_topOf .Full hsize (List.nodup_append.mp hnodup).2.1).of_perm hcached_blocks.symm
  have hhit_top : TopOf SortableBlock.key (self.window_size ghostdag_data window_type)
      (offer_all (from_binary_heap (self.window_size ghostdag_data window_type) cached)
        step).binary_heap.blocks (step.reverse ++ rest.flatten.reverse) := by
    rw [offer_all_eq, with_blocks_blocks]
    exact TopOf.foldl_push block_lt_on_key SortableBlock.key_injective hsize step hcached_top
      hnodup_rev
  have hmiss_top := offer_all_topOf .Full hsize hnodup
  rw [List.reverse_append] at hmiss_top
  exact hhit_top.perm hmiss_top List.perm_append_comm

end FullWindowManager

/-! ## A chain -/

/-- Stores of a chain down to genesis `0`: block `10` has the selected parent
    `6` and the blue `4` after it, every other block the selected parent `0`;
    every block's blue work and blue score is its hash. -/
def chain_stores : GhostdagStores ℕ where
  ghostdag hash :=
    some ⟨hash, hash, if hash = 10 then 6 else 0, if hash = 10 then [6, 4] else [0], [], ∅⟩
  relations _ := none
  bits _ := none

/-- A block on top of the chain, with the selected parent `10`, the blues `3`
    and `7` after it and the reds `0` and `5`. -/
def chain_data : GhostdagData ℕ :=
  { blue_score := 11, blue_work := 11, selected_parent := 10, mergeset_blues := [10, 3, 7],
    mergeset_reds := [0, 5], blues_anticone_sizes := ∅ }

def chain_descending : List (SortableBlock ℕ) := [⟨7, 7⟩, ⟨5, 5⟩, ⟨3, 3⟩, ⟨0, 0⟩]

/-- The chain block's mergeset, descending: the merge of `merge_join_by` is not
    structural, so it is evaluated here by its equations rather than by `decide`. -/
theorem chain_descending_eq :
    chain_data.descending_mergeset_without_selected_parent chain_stores = .ok chain_descending := by
  simp +decide [GhostdagData.descending_mergeset_without_selected_parent, chain_data, merge_join_by,
    chain_descending, GhostdagStores.get_blue_work, GhostdagStores.get_data, KashGhostdag.read,
    chain_stores, SortableBlock.cmp]

/-- What the block offers, and what block `10` offers after it. -/
def chain_step : List (SortableBlock ℕ) := [⟨10, 10⟩, ⟨7, 7⟩, ⟨5, 5⟩, ⟨3, 3⟩, ⟨0, 0⟩]

def chain_rest : List (List (SortableBlock ℕ)) := [[⟨6, 6⟩, ⟨4, 4⟩]]

/-- Any manager over these stores, with `ORIGIN` as `100` and three iterations,
    reads the chain's offers. -/
theorem chain_offers_chain (self : FullWindowManager ℕ) (hstore : self.ghostdag_store = chain_stores)
    (horigin : self.origin = 100) (hgenesis : self.genesis_hash = 0) (hfuel : self.fuel = 3) :
    self.chain_offers self.fuel chain_data = .ok (chain_step :: chain_rest, false) := by
  rw [hfuel]
  simp +decide [FullWindowManager.chain_offers, hstore, horigin, hgenesis, chain_data, chain_stores,
    chain_step, chain_rest, GhostdagData.descending_mergeset_without_selected_parent, merge_join_by,
    GhostdagStores.get_blue_work, GhostdagStores.get_data, KashGhostdag.read, SortableBlock.cmp]

/-- A full manager of windows of three blocks, with empty caches. -/
def full_manager : FullWindowManager ℕ :=
  { genesis_hash := 0, origin := 100, ghostdag_store := chain_stores,
    block_window_cache_for_difficulty := fun _ => none,
    block_window_cache_for_past_median_time := fun _ => none,
    difficulty_window_size := 3, past_median_time_window_size := 3, fuel := 3 }

theorem full_manager_misses :
    ∀ cache ∈ full_manager.window_cache (full_manager.window_size chain_data .SampledDifficultyWindow),
      ∀ cached ∈ cache chain_data.selected_parent, cached.origin ≠ .Full := by
  simp [FullWindowManager.window_cache, FullWindowManager.window_size, full_manager]

theorem build_block_window_of_cache_miss_chain :
    0 < full_manager.window_size chain_data .SampledDifficultyWindow ∧
      (∀ cache ∈ full_manager.window_cache (full_manager.window_size chain_data .SampledDifficultyWindow),
        ∀ cached ∈ cache chain_data.selected_parent, cached.origin ≠ .Full) ∧
      full_manager.chain_offers full_manager.fuel chain_data = .ok (chain_step :: chain_rest, false) ∧
      Descends (chain_step :: chain_rest) ∧ (chain_step :: chain_rest).flatten.Nodup ∧
      (false = true ∧ (chain_step :: chain_rest).flatten.length <
          full_manager.window_size chain_data .SampledDifficultyWindow →
        full_manager.build_block_window chain_data .SampledDifficultyWindow =
          .error (.rule (.InsufficientDaaWindowSize (chain_step :: chain_rest).flatten.length))) ∧
      (¬ (false = true ∧ (chain_step :: chain_rest).flatten.length <
          full_manager.window_size chain_data .SampledDifficultyWindow) →
        ∃ window, full_manager.build_block_window chain_data .SampledDifficultyWindow = .ok window ∧
          KeepsGreatest (full_manager.window_size chain_data .SampledDifficultyWindow) window.blocks
            (chain_step :: chain_rest).flatten) :=
  ⟨by decide, full_manager_misses, chain_offers_chain full_manager rfl rfl rfl rfl, by decide,
    by decide, FullWindowManager.build_block_window_of_cache_miss full_manager chain_data
      .SampledDifficultyWindow (by decide) full_manager_misses
      (chain_offers_chain full_manager rfl rfl rfl rfl) (by decide) (by decide)⟩

/-- The full manager with block `10`'s window in the difficulty cache: the
    blocks `6` and `4` its chain offers. -/
def cached_manager : FullWindowManager ℕ :=
  { full_manager with
    block_window_cache_for_difficulty := fun hash =>
      if hash = 10 then some ⟨[⟨4, 4⟩, ⟨6, 6⟩], .Full⟩ else none }

theorem build_block_window_of_cache_hit_chain :
    0 < cached_manager.window_size chain_data .SampledDifficultyWindow ∧
      cached_manager.window_cache (cached_manager.window_size chain_data .SampledDifficultyWindow) =
        some cached_manager.block_window_cache_for_difficulty ∧
      cached_manager.block_window_cache_for_difficulty chain_data.selected_parent =
        some ⟨[⟨4, 4⟩, ⟨6, 6⟩], .Full⟩ ∧
      (⟨[⟨4, 4⟩, ⟨6, 6⟩], .Full⟩ : BlockWindowHeap ℕ).origin = .Full ∧
      (⟨[⟨4, 4⟩, ⟨6, 6⟩], .Full⟩ : BlockWindowHeap ℕ).blocks.Perm
        (offer_all (.new .Full (cached_manager.window_size chain_data .SampledDifficultyWindow))
          chain_rest.flatten).binary_heap.blocks ∧
      cached_manager.chain_offers cached_manager.fuel chain_data = .ok (chain_step :: chain_rest, false) ∧
      Descends (chain_step :: chain_rest) ∧ (chain_step :: chain_rest).flatten.Nodup ∧
      ∃ window, cached_manager.build_block_window chain_data .SampledDifficultyWindow = .ok window ∧
        window.blocks.Perm
          (offer_all (.new .Full (cached_manager.window_size chain_data .SampledDifficultyWindow))
            (chain_step :: chain_rest).flatten).binary_heap.blocks :=
  ⟨by decide, rfl, rfl, rfl, by decide, chain_offers_chain cached_manager rfl rfl rfl rfl, by decide,
    by decide, FullWindowManager.build_block_window_of_cache_hit cached_manager chain_data
      .SampledDifficultyWindow (by decide) rfl rfl rfl (by decide)
      (chain_offers_chain cached_manager rfl rfl rfl rfl) (by decide) (by decide)⟩

end KashWindow
