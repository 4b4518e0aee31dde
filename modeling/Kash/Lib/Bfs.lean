import Kash.Lib.ListSet
import Mathlib

/-! # Breadth-first search for everything reachable from a key

    A graph stored as a map from keys to nodes, each node naming the keys it
    links to: `lookup` finds the node of a key, `next` the keys a node names. The
    search from a stored key queues its node, and for every node it takes from
    the queue it marks, lists and queues each stored key the node names that is
    not marked yet. With one iteration for the start and one for every stored
    key, it returns, each once, exactly the keys reachable from the start by one
    or more links between stored keys (`mem_reachable_iff`).

    The proof is the textbook one: every listed key is reachable, every queued
    node belongs to a listed key or the start, and every listed key whose node
    has left the queue has all its successors listed. When the queue is empty
    the listed keys are closed under links, hence hold everything reachable.
    Each iteration takes one node off the queue and queues one node per key it
    lists, and no key is listed twice, so the queue empties in time.

    Nothing here knows what the nodes are. -/

namespace Bfs

open Relation

variable {β γ : Type*}

/-- The search's state: the marked keys, the keys listed so far, the queue. -/
structure Frontier (β γ : Type*) where
  visited : ListSet β
  found : List β
  queue : List γ

section Search

variable (lookup : β → Option γ) (next : γ → List β)

/-- A link from a stored key to a stored key its node names. -/
def Edge (a b : β) : Prop := ∃ c, lookup a = some c ∧ b ∈ next c ∧ (lookup b).isSome

variable [DecidableEq β]

/-- One key named by the node being expanded: a stored key seen for the first
    time is marked, listed, and its node queued. -/
def visit (f : Frontier β γ) (b : β) : Frontier β γ :=
  match lookup b with
  | some c =>
      let (visited, fresh) := f.visited.insert b
      if fresh then ⟨visited, f.found ++ [b], f.queue ++ [c]⟩ else ⟨visited, f.found, f.queue⟩
  | none => f

/-- The loop taking nodes off the front of the queue, for at most `fuel`
    iterations. -/
def loop : ℕ → Frontier β γ → List β
  | 0, f => f.found
  | fuel + 1, f =>
      match f.queue with
      | [] => f.found
      | c :: queue => loop fuel ((next c).foldl (visit lookup) ⟨f.visited, f.found, queue⟩)

/-- The search from `start`: nothing when the start is not stored. -/
def reachable (fuel : ℕ) (start : β) : List β :=
  match lookup start with
  | some c => loop lookup next fuel ⟨∅, [], [c]⟩
  | none => []

/-! ## Expanding one node -/

/-- The marks agree with the list, and the list repeats nothing. -/
def Coherent (f : Frontier β γ) : Prop := (∀ b, b ∈ f.visited ↔ b ∈ f.found) ∧ f.found.Nodup

variable {lookup}

theorem visit_visited (f : Frontier β γ) (b b' : β) :
    b' ∈ (visit lookup f b).visited ↔ b' ∈ f.visited ∨ (b' = b ∧ (lookup b).isSome) := by
  unfold visit
  cases hb : lookup b with
  | none => simp
  | some c =>
      by_cases hfresh : b ∈ f.visited
      · simp only [ListSet.insert_fresh, hfresh, not_true_eq_false, decide_false,
          Bool.false_eq_true, if_false, ListSet.insert_of_mem hfresh, Option.isSome_some, and_true]
        constructor
        · exact Or.inl
        · rintro (h | rfl)
          · exact h
          · exact hfresh
      · simp [hfresh, or_comm]

theorem visit_found_of_mem {f : Frontier β γ} (b : β) {b' : β} (h : b' ∈ f.found) :
    b' ∈ (visit lookup f b).found := by
  unfold visit
  cases lookup b with
  | none => exact h
  | some c =>
      by_cases hfresh : b ∈ f.visited
      · simpa [hfresh] using h
      · simp [hfresh, h]

theorem visit_queue_of_mem {f : Frontier β γ} (b : β) {c' : γ} (h : c' ∈ f.queue) :
    c' ∈ (visit lookup f b).queue := by
  unfold visit
  cases lookup b with
  | none => exact h
  | some c =>
      by_cases hfresh : b ∈ f.visited
      · simpa [hfresh] using h
      · simp [hfresh, h]

/-- A newly listed key is the visited one, and its node is queued. -/
theorem visit_found_new (f : Frontier β γ) (b b' : β) (h : b' ∈ (visit lookup f b).found) :
    b' ∈ f.found ∨ (b' = b ∧ ∃ c, lookup b = some c ∧ c ∈ (visit lookup f b).queue) := by
  unfold visit at h ⊢
  cases hb : lookup b with
  | none => rw [hb] at h; exact Or.inl h
  | some c =>
      rw [hb] at h
      by_cases hfresh : b ∈ f.visited
      · simp only [ListSet.insert_fresh, hfresh, not_true_eq_false, decide_false] at h
        exact Or.inl h
      · simp only [ListSet.insert_fresh, hfresh, not_false_eq_true, decide_true, if_true,
          List.mem_append, List.mem_singleton] at h
        rcases h with h | rfl
        · exact Or.inl h
        · simp [hfresh]

/-- A newly queued node is the node of the visited key, now listed. -/
theorem visit_queue_new (f : Frontier β γ) (b : β) (c' : γ) (h : c' ∈ (visit lookup f b).queue) :
    c' ∈ f.queue ∨ (b ∈ (visit lookup f b).found ∧ lookup b = some c') := by
  unfold visit at h ⊢
  cases hb : lookup b with
  | none => rw [hb] at h; exact Or.inl h
  | some c =>
      rw [hb] at h
      by_cases hfresh : b ∈ f.visited
      · simp only [ListSet.insert_fresh, hfresh, not_true_eq_false, decide_false] at h
        exact Or.inl h
      · simp only [ListSet.insert_fresh, hfresh, not_false_eq_true, decide_true, if_true,
          List.mem_append, List.mem_singleton] at h
        rcases h with h | rfl
        · exact Or.inl h
        · simp [hfresh]

/-- Every listed key has its node queued: the list and the queue grow together. -/
theorem visit_length (f : Frontier β γ) (b : β) :
    (visit lookup f b).found.length + f.queue.length =
      f.found.length + (visit lookup f b).queue.length := by
  unfold visit
  cases lookup b with
  | none => rfl
  | some c =>
      by_cases hfresh : b ∈ f.visited
      · simp [hfresh]
      · simp [hfresh]
        omega

theorem visit_coherent {f : Frontier β γ} (hf : Coherent f) (b : β) :
    Coherent (visit lookup f b) := by
  obtain ⟨hvis, hnodup⟩ := hf
  unfold visit
  cases lookup b with
  | none => exact ⟨hvis, hnodup⟩
  | some c =>
      by_cases hfresh : b ∈ f.visited
      · simp only [ListSet.insert_fresh, hfresh, not_true_eq_false, decide_false]
        refine ⟨fun b' => ?_, hnodup⟩
        rw [ListSet.insert_of_mem hfresh]
        exact hvis b'
      · simp only [ListSet.insert_fresh, hfresh, not_false_eq_true, decide_true, if_true]
        refine ⟨fun b' => ?_, ?_⟩
        · simp [hvis, or_comm]
        · have hb : b ∉ f.found := fun h => hfresh ((hvis b).mpr h)
          exact hnodup.append (List.nodup_singleton b) (List.disjoint_singleton.mpr hb)

/-! ## Expanding a node's keys one after the other -/

theorem scan_visited (xs : List β) (f : Frontier β γ) (b : β) :
    b ∈ (xs.foldl (visit lookup) f).visited ↔ b ∈ f.visited ∨ (b ∈ xs ∧ (lookup b).isSome) := by
  induction xs generalizing f with
  | nil => simp
  | cons x xs ih =>
      rw [List.foldl_cons, ih, visit_visited, List.mem_cons]
      constructor
      · rintro ((h | ⟨rfl, h⟩) | ⟨h, h'⟩)
        · exact Or.inl h
        · exact Or.inr ⟨Or.inl rfl, h⟩
        · exact Or.inr ⟨Or.inr h, h'⟩
      · rintro (h | ⟨rfl | h, h'⟩)
        · exact Or.inl (Or.inl h)
        · exact Or.inl (Or.inr ⟨rfl, h'⟩)
        · exact Or.inr ⟨h, h'⟩

theorem scan_found_of_mem (xs : List β) {f : Frontier β γ} {b : β} (h : b ∈ f.found) :
    b ∈ (xs.foldl (visit lookup) f).found := by
  induction xs generalizing f with
  | nil => exact h
  | cons x xs ih => exact ih (visit_found_of_mem x h)

theorem scan_queue_of_mem (xs : List β) {f : Frontier β γ} {c : γ} (h : c ∈ f.queue) :
    c ∈ (xs.foldl (visit lookup) f).queue := by
  induction xs generalizing f with
  | nil => exact h
  | cons x xs ih => exact ih (visit_queue_of_mem x h)

theorem scan_found_new (xs : List β) (f : Frontier β γ) (b : β)
    (h : b ∈ (xs.foldl (visit lookup) f).found) :
    b ∈ f.found ∨ (b ∈ xs ∧ ∃ c, lookup b = some c ∧ c ∈ (xs.foldl (visit lookup) f).queue) := by
  induction xs generalizing f with
  | nil => exact Or.inl h
  | cons x xs ih =>
      rcases ih (visit lookup f x) h with h' | ⟨hxs, hq⟩
      · rcases visit_found_new f x b h' with h'' | ⟨rfl, c, hc, hcq⟩
        · exact Or.inl h''
        · exact Or.inr ⟨List.mem_cons_self, c, hc, scan_queue_of_mem xs hcq⟩
      · exact Or.inr ⟨List.mem_cons_of_mem x hxs, hq⟩

theorem scan_queue_new (xs : List β) (f : Frontier β γ) (c : γ)
    (h : c ∈ (xs.foldl (visit lookup) f).queue) :
    c ∈ f.queue ∨ ∃ b, b ∈ (xs.foldl (visit lookup) f).found ∧ lookup b = some c := by
  induction xs generalizing f with
  | nil => exact Or.inl h
  | cons x xs ih =>
      rcases ih (visit lookup f x) h with h' | hb
      · rcases visit_queue_new f x c h' with h'' | ⟨hx, hc⟩
        · exact Or.inl h''
        · exact Or.inr ⟨x, scan_found_of_mem xs hx, hc⟩
      · exact Or.inr hb

theorem scan_length (xs : List β) (f : Frontier β γ) :
    (xs.foldl (visit lookup) f).found.length + f.queue.length =
      f.found.length + (xs.foldl (visit lookup) f).queue.length := by
  induction xs generalizing f with
  | nil => rfl
  | cons x xs ih =>
      have h : (visit lookup f x).found.length + f.queue.length =
          f.found.length + (visit lookup f x).queue.length := visit_length f x
      have h' := ih (visit lookup f x)
      rw [List.foldl_cons]
      omega

theorem scan_coherent (xs : List β) {f : Frontier β γ} (hf : Coherent f) :
    Coherent (xs.foldl (visit lookup) f) := by
  induction xs generalizing f with
  | nil => exact hf
  | cons x xs ih => exact ih (visit_coherent hf x)

/-! ## The loop -/

variable (lookup)

/-- What holds of the search from `start` at every iteration. -/
structure Inv (start : β) (f : Frontier β γ) : Prop where
  coherent : Coherent f
  sound : ∀ b ∈ f.found, TransGen (Edge lookup next) start b
  queued : ∀ c ∈ f.queue, ∃ a, (a = start ∨ a ∈ f.found) ∧ lookup a = some c
  closed : ∀ a, (a = start ∨ a ∈ f.found) →
    (∃ c ∈ f.queue, lookup a = some c) ∨ ∀ b, Edge lookup next a b → b ∈ f.found

variable {lookup next}

omit [DecidableEq β] in
theorem lookup_isSome_of_transGen {a b : β} (h : TransGen (Edge lookup next) a b) :
    (lookup b).isSome := by
  cases h with
  | single he =>
      obtain ⟨_, _, _, hb⟩ := he
      exact hb
  | tail _ he =>
      obtain ⟨_, _, _, hb⟩ := he
      exact hb

omit [DecidableEq β] in
theorem not_transGen_of_lookup_none {a b : β} (ha : lookup a = none) :
    ¬ TransGen (Edge lookup next) a b := by
  intro h
  induction h with
  | single he =>
      obtain ⟨c, hc, -⟩ := he
      rw [ha] at hc
      cases hc
  | tail _ _ ih => exact ih

/-- **EXPAND**: taking a node off the queue and expanding its keys keeps the
    invariant. -/
theorem Inv.expand {start : β} {visited : ListSet β} {found : List β} {c : γ} {queue : List γ}
    (h : Inv lookup next start ⟨visited, found, c :: queue⟩) :
    Inv lookup next start ((next c).foldl (visit lookup) ⟨visited, found, queue⟩) := by
  set f' := (next c).foldl (visit lookup) ⟨visited, found, queue⟩ with hf'
  have hcoh : Coherent f' := scan_coherent _ h.coherent
  -- the keys of the expanded node: all listed now, and linked from a listed key or the start
  have hnext : ∀ b, b ∈ next c → (lookup b).isSome → b ∈ f'.found := by
    intro b hb hs
    exact (hcoh.1 b).mp ((scan_visited _ _ b).mpr (Or.inr ⟨hb, hs⟩))
  obtain ⟨a₀, ha₀, hc₀⟩ := h.queued c List.mem_cons_self
  refine ⟨hcoh, ?_, ?_, ?_⟩
  · intro b hb
    rcases scan_found_new _ _ b hb with hb | ⟨hbn, c', hc', -⟩
    · exact h.sound b hb
    · have hedge : Edge lookup next a₀ b := ⟨c, hc₀, hbn, by rw [hc']; rfl⟩
      rcases ha₀ with rfl | ha₀
      · exact TransGen.single hedge
      · exact TransGen.tail (h.sound a₀ ha₀) hedge
  · intro c' hc'
    rcases scan_queue_new _ _ c' hc' with hq | ⟨b, hb, hbc⟩
    · obtain ⟨a, ha, hac⟩ := h.queued c' (List.mem_cons_of_mem c hq)
      refine ⟨a, ?_, hac⟩
      rcases ha with rfl | ha
      · exact Or.inl rfl
      · exact Or.inr (scan_found_of_mem _ ha)
    · exact ⟨b, Or.inr hb, hbc⟩
  · intro a ha
    -- a key listed just now has its node queued; an older one is handled by the old invariant
    have hold : a = start ∨ a ∈ found →
        (∃ c' ∈ f'.queue, lookup a = some c') ∨ ∀ b, Edge lookup next a b → b ∈ f'.found := by
      intro ha
      rcases h.closed a ha with ⟨c', hc'q, hac'⟩ | hcl
      · rcases List.mem_cons.mp hc'q with rfl | hq
        · right
          rintro b ⟨c'', hac'', hb, hs⟩
          rw [hac'] at hac''
          cases hac''
          exact hnext b hb hs
        · exact Or.inl ⟨c', scan_queue_of_mem _ hq, hac'⟩
      · exact Or.inr fun b hb => scan_found_of_mem _ (hcl b hb)
    rcases ha with rfl | ha
    · exact hold (Or.inl rfl)
    · rcases scan_found_new _ _ a ha with ha | ⟨-, c', hac', hq⟩
      · exact hold (Or.inr ha)
      · exact Or.inl ⟨c', hq, hac'⟩

omit [DecidableEq β] in
/-- With the queue empty, the listed keys are exactly the reachable ones. -/
theorem Inv.exit {start : β} {visited : ListSet β} {found : List β}
    (h : Inv lookup next start ⟨visited, found, []⟩) (b : β) :
    b ∈ found ↔ TransGen (Edge lookup next) start b := by
  have hcl : ∀ a, (a = start ∨ a ∈ found) → ∀ b, Edge lookup next a b → b ∈ found := by
    intro a ha
    rcases h.closed a ha with ⟨c, hc, -⟩ | hcl
    · exact absurd hc List.not_mem_nil
    · exact hcl
  constructor
  · exact h.sound b
  · intro hr
    induction hr with
    | single he => exact hcl start (Or.inl rfl) _ he
    | tail _ he ih => exact hcl _ (Or.inr ih) _ he

variable (keys : List β)

/-- Iterations still needed: one per queued node and one per stored key not
    listed yet. -/
def budget (f : Frontier β γ) : ℕ := f.queue.length + (keys.length - f.found.length)

variable {keys}

omit [DecidableEq β] in
theorem found_length_le {start : β} {f : Frontier β γ} (h : Inv lookup next start f)
    (hkeys : ∀ b, (lookup b).isSome → b ∈ keys) : f.found.length ≤ keys.length :=
  h.coherent.2.length_le_of_subset fun b hb =>
    hkeys b (lookup_isSome_of_transGen (h.sound b hb))

/-- **LOOP**: with enough iterations, the loop lists each reachable key once and
    nothing else. -/
theorem loop_spec (start : β) (hkeys : ∀ b, (lookup b).isSome → b ∈ keys) :
    ∀ (fuel : ℕ) (f : Frontier β γ), Inv lookup next start f → budget keys f ≤ fuel →
      (∀ b, b ∈ loop lookup next fuel f ↔ TransGen (Edge lookup next) start b) ∧
        (loop lookup next fuel f).Nodup := by
  intro fuel
  induction fuel with
  | zero =>
      rintro ⟨visited, found, queue⟩ h hb
      have hq : queue = [] := List.eq_nil_of_length_eq_zero (by dsimp only [budget] at hb; omega)
      subst hq
      exact ⟨h.exit, h.coherent.2⟩
  | succ fuel ih =>
      rintro ⟨visited, found, queue⟩ h hb
      cases queue with
      | nil => exact ⟨h.exit, h.coherent.2⟩
      | cons c queue =>
          have h' := h.expand
          -- one node left the queue; as many were queued as keys were listed
          have hlen : ((next c).foldl (visit lookup) ⟨visited, found, queue⟩).found.length +
              queue.length = found.length +
                ((next c).foldl (visit lookup) ⟨visited, found, queue⟩).queue.length :=
            scan_length (next c) ⟨visited, found, queue⟩
          have hle := found_length_le h' hkeys
          have hle₀ := found_length_le h hkeys
          apply ih _ h'
          dsimp only [budget] at hb ⊢
          simp only [List.length_cons] at hb hlen
          omega

/-- **REACHABLE**: given every stored key and one iteration more than their
    number, the search lists exactly the keys reachable from the start, each
    once. -/
theorem mem_reachable_iff (start : β) (fuel : ℕ) (hkeys : ∀ b, (lookup b).isSome → b ∈ keys)
    (hfuel : keys.length + 1 ≤ fuel) :
    (∀ b, b ∈ reachable lookup next fuel start ↔ TransGen (Edge lookup next) start b) ∧
      (reachable lookup next fuel start).Nodup := by
  unfold reachable
  cases hs : lookup start with
  | none =>
      exact ⟨fun b => iff_of_false List.not_mem_nil (not_transGen_of_lookup_none hs),
        List.nodup_nil⟩
  | some c =>
      have hinv : Inv lookup next start ⟨∅, [], [c]⟩ := by
        refine ⟨⟨fun b => iff_of_false (ListSet.not_mem_empty b) List.not_mem_nil,
          List.nodup_nil⟩, ?_, ?_, ?_⟩
        · intro b hb
          exact absurd hb List.not_mem_nil
        · intro c' hc'
          rw [List.mem_singleton] at hc'
          exact ⟨start, Or.inl rfl, hc' ▸ hs⟩
        · intro a ha
          rcases ha with rfl | ha
          · exact Or.inl ⟨c, List.mem_singleton_self c, hs⟩
          · exact absurd ha List.not_mem_nil
      apply loop_spec start hkeys fuel _ hinv
      unfold budget
      simp only [List.length_singleton, List.length_nil, Nat.sub_zero]
      omega

end Search

/-- **CLOSED**: a set holding `a` whose every link leads back into it or into
    `Z`, a set no link leaves, holds everything reachable from `a` outside `Z`. -/
theorem mem_of_reflTransGen_of_closed {r : β → β → Prop} {S Z : Set β}
    (hS : ∀ x ∈ S, ∀ y, r x y → y ∈ S ∨ y ∈ Z) (hZ : ∀ x y, x ∈ Z → r x y → y ∈ Z)
    {a b : β} (ha : a ∈ S) (hab : ReflTransGen r a b) (hb : b ∉ Z) : b ∈ S := by
  induction hab with
  | refl => exact ha
  | @tail c b _ hcb ih =>
      -- a path into `Z` would stay there
      have hc : c ∉ Z := fun hc => hb (hZ c b hc hcb)
      rcases hS c (ih hc) b hcb with h | h
      · exact h
      · exact absurd h hb

end Bfs
