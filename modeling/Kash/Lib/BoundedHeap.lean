import Kash.Lib.MinMax

/-! # A heap that keeps the greatest elements pushed into it

    A heap of at most `bound` elements takes every element while it has room.
    Once full, it rejects an element below its least one, and otherwise gives
    up its least element for the new one (`push`). `push_while` pushes the
    elements of a list in order and stops at the first rejection.

    For a comparison that is `<` on an injective key into a linear order:

    * `TopOf.push` and `TopOf.foldl_push` — the step and run lemmas of the
      invariant `TopOf`: after pushing distinct elements, the heap holds
      `min bound n` of the `n` elements pushed, each above every element left
      out;
    * `TopOf.perm` — what such a heap holds depends on the elements pushed and
      not on their order;
    * `push_eq_false_iff` — a push is rejected exactly when the heap is full and
      the element is below its least, and a rejection leaves the heap as it was;
    * `push_while_eq_foldl` — on a descending list, stopping at the first
      rejection loses nothing: every later push would be rejected too. -/

namespace BoundedHeap

open MinMax

variable {α : Type*} [DecidableEq α]

/-- The least element of a heap: the first result of the scan. -/
def least (lt : α → α → Bool) (heap : List α) : Option α :=
  (minmax_by lt heap).map Prod.fst

/-- One push into a heap of at most `bound` elements that keeps the greatest:
    the heap, and whether the element went in. -/
def push (lt : α → α → Bool) (bound : ℕ) (heap : List α) (x : α) : List α × Bool :=
  if heap.length = bound then
    match least lt heap with
    | some m => if lt x m then (heap, false) else (x :: heap.erase m, true)
    | none => (x :: heap, true)
  else (x :: heap, true)

/-- Push the elements of a list in order while the pushes succeed. -/
def push_while (lt : α → α → Bool) (bound : ℕ) (heap : List α) : List α → List α
  | [] => heap
  | x :: xs =>
      match push lt bound heap x with
      | (heap', true) => push_while lt bound heap' xs
      | (heap', false) => heap'

section Key

variable {β : Type*} [LinearOrder β] {key : α → β} {lt : α → α → Bool} {bound : ℕ}

omit [DecidableEq α] in
/-- The least element of a nonempty heap is in it, and no element is below it. -/
theorem least_spec (hlt : LtOnKey key lt) {heap : List α} (hne : heap ≠ []) :
    ∃ m, least lt heap = some m ∧ m ∈ heap ∧ ∀ y ∈ heap, key m ≤ key y := by
  obtain ⟨a, b, hab⟩ : ∃ a b, minmax_by lt heap = some (a, b) := minmax_by_isSome hne
  obtain ⟨ha, -, hall⟩ := minmax_by_spec hlt hab
  exact ⟨a, by rw [least, hab, Option.map_some], ha, fun y hy => (hall y hy).1⟩

/-- A full heap rejects an element below its least, and stays as it is. -/
theorem push_of_lt_least {heap : List α} (hfull : heap.length = bound) {m : α}
    (hm : least lt heap = some m) {x : α} (hxm : lt x m = true) :
    push lt bound heap x = (heap, false) := by
  rw [push, if_pos hfull]
  simp only [hm, hxm, if_true]

/-- **THE REJECTIONS**: a push is rejected exactly when the heap is full and the
    element is below its least. -/
theorem push_eq_false_iff {heap : List α} {x : α} :
    (push lt bound heap x).2 = false ↔
      heap.length = bound ∧ ∃ m, least lt heap = some m ∧ lt x m = true := by
  unfold push
  by_cases hfull : heap.length = bound
  · rw [if_pos hfull]
    cases hm : least lt heap with
    | none => simp
    | some m =>
        by_cases hxm : lt x m = true
        · simp [hxm, hfull]
        · simp [hxm]
  · simp [hfull]

/-- **WHAT THE HEAP HOLDS**: after the distinct elements `pushed`, the heap
    holds `min bound n` of them, each above every element left out. -/
structure TopOf (key : α → β) (bound : ℕ) (heap pushed : List α) : Prop where
  nodup : heap.Nodup
  subset : ∀ x ∈ heap, x ∈ pushed
  length_eq : heap.length = min bound pushed.length
  above : ∀ x ∈ pushed, x ∉ heap → ∀ y ∈ heap, key x < key y

omit [DecidableEq α] in
theorem TopOf.nil : TopOf key bound [] [] :=
  ⟨List.nodup_nil, fun _ h => absurd h List.not_mem_nil, by simp,
    fun _ h => absurd h List.not_mem_nil⟩

omit [DecidableEq α] in
/-- A heap with room holds every element pushed. -/
theorem TopOf.mem_of_lt (hinv : TopOf key bound heap pushed)
    (hroom : heap.length < bound) : ∀ x ∈ pushed, x ∈ heap := by
  have hsub : heap.Subperm pushed := List.subperm_of_subset hinv.nodup hinv.subset
  have hlen : pushed.length ≤ heap.length := by
    rw [hinv.length_eq] at hroom ⊢
    omega
  exact fun x hx => (hsub.perm_of_length_le hlen).symm.subset hx

/-- **THE STEP LEMMA**: pushing an element not pushed before keeps `TopOf`,
    for a heap of at least one element. -/
theorem TopOf.push (hlt : LtOnKey key lt) (hkey : Function.Injective key) (hbound : 0 < bound)
    {heap pushed : List α} (hinv : TopOf key bound heap pushed) {x : α} (hx : x ∉ pushed) : TopOf key bound (push lt bound heap x).1 (x :: pushed) := by
  have hx_heap : x ∉ heap := fun h => hx (hinv.subset x h)
  unfold BoundedHeap.push
  by_cases hfull : heap.length = bound
  · -- a full heap is nonempty: its least element decides
    rw [if_pos hfull]
    have hne : heap ≠ [] := fun h => by rw [h, List.length_nil] at hfull; omega
    have hlen_le : bound ≤ pushed.length := by
      have h := hinv.length_eq
      rw [hfull] at h
      omega
    obtain ⟨m, hm, hm_mem, hm_le⟩ := least_spec hlt hne
    simp only [hm]
    by_cases hxm : lt x m = true
    · -- rejected: the heap stays, and the new element is below all of it
      rw [if_pos hxm]
      refine ⟨hinv.nodup, fun y hy => List.mem_cons_of_mem x (hinv.subset y hy), ?_, ?_⟩
      · rw [hinv.length_eq, List.length_cons]
        omega
      · intro z hz hz_heap y hy
        rcases List.mem_cons.mp hz with rfl | hz
        · exact lt_of_lt_of_le ((hlt _ _).mp hxm) (hm_le y hy)
        · exact hinv.above z hz hz_heap y hy
    · -- accepted: the least element makes room
      rw [if_neg hxm]
      have hmx : key m < key x := by
        rcases (not_lt.mp fun h => hxm ((hlt _ _).mpr h)).lt_or_eq with h | h
        · exact h
        · exact absurd (hkey h ▸ hm_mem) hx_heap
      have hm_lt : ∀ y ∈ heap.erase m, key m < key y := fun y hy => by
        have hym : y ≠ m := fun h => by rw [h] at hy; exact (hinv.nodup.not_mem_erase) hy
        rcases (hm_le y (List.mem_of_mem_erase hy)).lt_or_eq with h | h
        · exact h
        · exact absurd (hkey h).symm hym
      refine ⟨List.nodup_cons.mpr ⟨fun h => hx_heap (List.mem_of_mem_erase h), hinv.nodup.erase m⟩,
        fun y hy => ?_, ?_, ?_⟩
      · rcases List.mem_cons.mp hy with rfl | hy
        · exact List.mem_cons_self
        · exact List.mem_cons_of_mem x (hinv.subset y (List.mem_of_mem_erase hy))
      · rw [List.length_cons, List.length_erase_of_mem hm_mem, List.length_cons]
        omega
      · intro z hz hz_heap y hy
        have hzx : z ≠ x := fun h => hz_heap (h ▸ List.mem_cons_self)
        have hz_pushed : z ∈ pushed := (List.mem_cons.mp hz).resolve_left hzx
        -- `z` is the element given up, or was left out before
        have hz_m : key z ≤ key m := by
          by_cases hzm : z = m
          · rw [hzm]
          · have hz_out : z ∉ heap := fun h =>
              hz_heap (List.mem_cons_of_mem x ((List.mem_erase_of_ne hzm).mpr h))
            exact (hinv.above z hz_pushed hz_out m hm_mem).le
        rcases List.mem_cons.mp hy with rfl | hy
        · by_cases hzm : z = m
          · rw [hzm]
            exact hmx
          · exact lt_of_le_of_lt hz_m hmx
        · by_cases hzm : z = m
          · rw [hzm]
            exact hm_lt y hy
          · exact lt_of_le_of_lt hz_m (hm_lt y hy)
  · -- a heap with room takes the element, and held every element before
    rw [if_neg hfull]
    have hroom : heap.length < bound := by
      have h := hinv.length_eq
      omega
    have hall := hinv.mem_of_lt hroom
    refine ⟨List.nodup_cons.mpr ⟨hx_heap, hinv.nodup⟩, fun y hy => ?_, ?_, ?_⟩
    · rcases List.mem_cons.mp hy with rfl | hy
      · exact List.mem_cons_self
      · exact List.mem_cons_of_mem x (hinv.subset y hy)
    · have h := hinv.length_eq
      rw [List.length_cons, List.length_cons]
      omega
    · intro z hz hz_heap
      rcases List.mem_cons.mp hz with rfl | hz
      · exact absurd List.mem_cons_self hz_heap
      · exact absurd (List.mem_cons_of_mem x (hall z hz)) hz_heap

/-- **THE RUN LEMMA**: pushing distinct new elements one after the other keeps
    `TopOf`, with the elements pushed last first. -/
theorem TopOf.foldl_push (hlt : LtOnKey key lt) (hkey : Function.Injective key) (hbound : 0 < bound) :
    ∀ (xs : List α) {heap pushed : List α}, TopOf key bound heap pushed →
      (xs.reverse ++ pushed).Nodup →
      TopOf key bound (xs.foldl (fun heap x => (BoundedHeap.push lt bound heap x).1) heap)
        (xs.reverse ++ pushed)
  | [], _, _, hinv, _ => hinv
  | x :: xs, heap, pushed, hinv, hnodup => by
      rw [List.reverse_cons, List.append_assoc, List.singleton_append] at hnodup ⊢
      have hrest := List.nodup_append.mp hnodup
      have hx : x ∉ pushed := (List.nodup_cons.mp hrest.2.1).1
      exact TopOf.foldl_push hlt hkey hbound xs (hinv.push hlt hkey hbound hx) hnodup

omit [DecidableEq α] in
/-- `TopOf` is about the elements of the heap, not their order. -/
theorem TopOf.of_perm {heap heap' pushed : List α} (h : TopOf key bound heap pushed)
    (hp : heap.Perm heap') : TopOf key bound heap' pushed :=
  ⟨hp.nodup_iff.mp h.nodup, fun x hx => h.subset x (hp.symm.subset hx),
    by rw [← hp.length_eq, h.length_eq],
    fun x hx hout y hy => h.above x hx (fun hin => hout (hp.subset hin)) y (hp.symm.subset hy)⟩

omit [DecidableEq α] in
/-- Of two heaps of one bound that keep the greatest of the same elements, the
    first holds only elements of the second: an element of the first left out
    of the second would be below an element the second holds and the first does
    not, and above it. -/
theorem TopOf.subset_of_perm {heap₁ heap₂ pushed₁ pushed₂ : List α}
    (h₁ : TopOf key bound heap₁ pushed₁) (h₂ : TopOf key bound heap₂ pushed₂)
    (hp : pushed₁.Perm pushed₂) : ∀ x ∈ heap₁, x ∈ heap₂ := by
  intro x hx
  by_contra hx₂
  -- the second heap, as long as the first, holds an element the first does not
  obtain ⟨y, hy₂, hy₁⟩ : ∃ y ∈ heap₂, y ∉ heap₁ := by
    by_contra hno
    simp only [not_exists, not_and, not_not] at hno
    have hlen : heap₁.length ≤ heap₂.length := by
      rw [h₁.length_eq, h₂.length_eq, hp.length_eq]
    exact hx₂ (((List.subperm_of_subset h₂.nodup hno).perm_of_length_le hlen).symm.subset hx)
  have hyx := h₁.above y (hp.symm.subset (h₂.subset y hy₂)) hy₁ x hx
  have hxy := h₂.above x (hp.subset (h₁.subset x hx)) hx₂ y hy₂
  exact lt_asymm hyx hxy

omit [DecidableEq α] in
/-- **WHAT THE HEAP HOLDS IS WHAT WAS PUSHED**: two heaps of one bound that keep
    the greatest of the same elements, pushed in any order, hold the same
    elements. -/
theorem TopOf.perm {heap₁ heap₂ pushed₁ pushed₂ : List α}
    (h₁ : TopOf key bound heap₁ pushed₁) (h₂ : TopOf key bound heap₂ pushed₂)
    (hp : pushed₁.Perm pushed₂) : heap₁.Perm heap₂ :=
  (List.perm_ext_iff_of_nodup h₁.nodup h₂.nodup).mpr fun x =>
    ⟨h₁.subset_of_perm h₂ hp x, h₂.subset_of_perm h₁ hp.symm x⟩

/-- A full heap rejects every element of a list below its least, and stays as
    it is. -/
theorem foldl_push_of_lt_least (hlt : LtOnKey key lt) {heap : List α}
    (hfull : heap.length = bound) {m : α} (hm : least lt heap = some m) :
    ∀ xs : List α, (∀ y ∈ xs, key y < key m) →
      xs.foldl (fun heap x => (push lt bound heap x).1) heap = heap
  | [], _ => rfl
  | y :: ys, hbelow => by
      rw [List.foldl_cons, push_of_lt_least hfull hm ((hlt _ _).mpr (hbelow y List.mem_cons_self))]
      exact foldl_push_of_lt_least hlt hfull hm ys fun z hz => hbelow z (List.mem_cons_of_mem y hz)

/-- **STOPPING EARLY LOSES NOTHING**: on a strictly descending list, pushing
    while the pushes succeed gives the heap that pushing every element gives,
    since after a rejection every later element is below the same least. -/
theorem push_while_eq_foldl (hlt : LtOnKey key lt) :
    ∀ (xs heap : List α), xs.Pairwise (fun a b => key b < key a) →
      push_while lt bound heap xs = xs.foldl (fun heap x => (push lt bound heap x).1) heap
  | [], _, _ => rfl
  | x :: xs, heap, hdesc => by
      have hrest := List.pairwise_cons.mp hdesc
      cases hpush : push lt bound heap x with
      | mk heap' accepted =>
          cases accepted with
          | true =>
              simp only [push_while, List.foldl_cons, hpush]
              exact push_while_eq_foldl hlt xs heap' hrest.2
          | false =>
              -- rejected: `x` is below the least of the full heap, and so is the rest
              obtain ⟨hfull, m, hm, hxm⟩ := push_eq_false_iff.mp (by rw [hpush])
              have hheap : heap' = heap :=
                (Prod.mk.inj (hpush.symm.trans (push_of_lt_least hfull hm hxm))).1
              simp only [push_while, List.foldl_cons, hpush]
              rw [hheap, foldl_push_of_lt_least hlt hfull hm xs fun y hy =>
                (hrest.1 y hy).trans ((hlt _ _).mp hxm)]

end Key

end BoundedHeap
