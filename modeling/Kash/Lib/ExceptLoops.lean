import Mathlib

/-! # Fallible computations and loops

    Code that stops at the first error (`?`, and `?` inside a `for` loop) is a
    computation, or a monadic fold, in `Except`. This file gives the rules such
    code is reasoned with:

    * a successful run is a successful first step followed by a successful run of
      the rest, and every prefix of a successful run succeeds;
    * an invariant kept by every successful step is kept by every successful run;
    * a map whose every failure is one error fails on a list exactly when it fails
      on any reordering of it, and otherwise returns the images reordered alike,
      and a filter whose every test succeeds keeps what the tests accept;
    * `Holds bad P x` — `x` succeeds with a value in `P` or fails with an error
      outside the class `bad` — composes along `>>=` and along folds. With `bad`
      the errors that stand for a crash, it says that a computation does not crash.

    Nothing here knows what the computations compute. -/

namespace ExceptLoops

universe u v

variable {ε : Type u} {α β : Type v}

/-- Results compare by constructor and contents, so that what a computation
    returns on a fixed input can be decided. -/
instance instDecidableEqExcept [DecidableEq ε] [DecidableEq α] : DecidableEq (Except ε α)
  | .ok a, .ok b => decidable_of_iff (a = b) (by simp)
  | .error a, .error b => decidable_of_iff (a = b) (by simp)
  | .ok _, .error _ => isFalse (by simp)
  | .error _, .ok _ => isFalse (by simp)

/-- A computation that has succeeded passes its value on. -/
@[simp] theorem ok_bind (a : α) (f : α → Except ε β) : (Except.ok a >>= f) = f a := rfl

/-- A computation that has failed passes its error on. -/
@[simp] theorem error_bind (e : ε) (f : α → Except ε β) : (Except.error e >>= f) = .error e :=
  rfl

/-- A successful sequence is a successful first computation and a successful rest. -/
theorem bind_eq_ok (x : Except ε α) (f : α → Except ε β) (b : β) :
    x >>= f = .ok b ↔ ∃ a, x = .ok a ∧ f a = .ok b := by
  cases x with
  | error e => exact ⟨fun h => (nomatch h), fun ⟨_, h, _⟩ => (nomatch h)⟩
  | ok a =>
      constructor
      · intro h
        exact ⟨a, rfl, h⟩
      · rintro ⟨a', ha, h⟩
        cases ha
        exact h

/-- A failed sequence failed in its first computation or, after it succeeded, in
    the rest. -/
theorem bind_eq_error (x : Except ε α) (f : α → Except ε β) (e : ε) :
    x >>= f = .error e ↔ x = .error e ∨ ∃ a, x = .ok a ∧ f a = .error e := by
  cases x with
  | error e' =>
      rw [error_bind]
      constructor
      · intro h
        cases h
        exact Or.inl rfl
      · rintro (h | ⟨_, h, _⟩)
        · cases h
          rfl
        · cases h
  | ok a =>
      constructor
      · intro h
        exact Or.inr ⟨a, rfl, h⟩
      · rintro (h | ⟨a', ha, h⟩)
        · cases h
        · cases ha
          exact h

/-- **A FAILED RUN**: a run that fails, fails at one of its steps, with that step's
    error. -/
theorem foldlM_eq_error (f : β → α → Except ε β) :
    ∀ (l : List α) (b : β) (e : ε), l.foldlM f b = .error e → ∃ a ∈ l, ∃ b', f b' a = .error e := by
  intro l
  induction l with
  | nil =>
      intro b e h
      cases h
  | cons a l ih =>
      intro b e h
      rw [List.foldlM_cons] at h
      rcases (bind_eq_error _ _ _).mp h with h₁ | ⟨b₁, -, hrest⟩
      · exact ⟨a, List.mem_cons_self, b, h₁⟩
      · obtain ⟨a', ha', b', h'⟩ := ih b₁ e hrest
        exact ⟨a', List.mem_cons_of_mem a ha', b', h'⟩

/-- A successful run over a nonempty list is a successful first step and a
    successful run of the rest. -/
theorem foldlM_cons_eq_ok (f : β → α → Except ε β) (a : α) (l : List α) (b b' : β) :
    (a :: l).foldlM f b = .ok b' ↔ ∃ b₁, f b a = .ok b₁ ∧ l.foldlM f b₁ = .ok b' := by
  rw [List.foldlM_cons]
  cases h : f b a with
  | error e => exact ⟨fun h' => (nomatch h'), fun ⟨_, h₁, _⟩ => (nomatch h₁)⟩
  | ok b₁ =>
      constructor
      · intro h'
        exact ⟨b₁, rfl, h'⟩
      · rintro ⟨b₂, hb, h'⟩
        cases hb
        exact h'

/-- **RUN INVARIANT**: a property kept by every successful step holds after every
    successful run. -/
theorem foldlM_invariant (P : β → Prop) (f : β → α → Except ε β)
    (hstep : ∀ b a b', P b → f b a = .ok b' → P b') :
    ∀ (l : List α) (b b' : β), P b → l.foldlM f b = .ok b' → P b' := by
  intro l
  induction l with
  | nil =>
      intro b b' hb h
      cases h
      exact hb
  | cons a l ih =>
      intro b b' hb h
      obtain ⟨b₁, h₁, hrest⟩ := (foldlM_cons_eq_ok f a l b b').mp h
      exact ih b₁ b' (hstep b a b₁ hb h₁) hrest

/-- The run invariant for a step that keeps the property on the elements of the
    list only. -/
theorem foldlM_invariant_of_mem (P : β → Prop) (f : β → α → Except ε β) :
    ∀ (l : List α), (∀ b a b', a ∈ l → P b → f b a = .ok b' → P b') →
      ∀ (b b' : β), P b → l.foldlM f b = .ok b' → P b' := by
  intro l
  induction l with
  | nil =>
      intro _ b b' hb h
      cases h
      exact hb
  | cons a l ih =>
      intro hstep b b' hb h
      obtain ⟨b₁, h₁, hrest⟩ := (foldlM_cons_eq_ok f a l b b').mp h
      have hrest_step : ∀ b a' b', a' ∈ l → P b → f b a' = .ok b' → P b' :=
        fun b a' b' ha' => hstep b a' b' (List.mem_cons_of_mem a ha')
      exact ih hrest_step b₁ b' (hstep b a b₁ List.mem_cons_self hb h₁) hrest

/-- **RUN CONGRUENCE**: two steps that succeed alike on every element of a list
    succeed alike over the whole list. -/
theorem foldlM_ok_congr (f g : β → α → Except ε β) :
    ∀ (l : List α), (∀ a ∈ l, ∀ b b', f b a = .ok b' ↔ g b a = .ok b') →
      ∀ (b b' : β), l.foldlM f b = .ok b' ↔ l.foldlM g b = .ok b' := by
  intro l
  induction l with
  | nil => intro _ b b'; rfl
  | cons a l ih =>
      intro hfg b b'
      have hrest : ∀ a' ∈ l, ∀ b b', f b a' = .ok b' ↔ g b a' = .ok b' :=
        fun a' ha' => hfg a' (List.mem_cons_of_mem a ha')
      rw [foldlM_cons_eq_ok, foldlM_cons_eq_ok]
      constructor
      · rintro ⟨b₁, h₁, h⟩
        exact ⟨b₁, (hfg a List.mem_cons_self b b₁).mp h₁, (ih hrest b₁ b').mp h⟩
      · rintro ⟨b₁, h₁, h⟩
        exact ⟨b₁, (hfg a List.mem_cons_self b b₁).mpr h₁, (ih hrest b₁ b').mpr h⟩

/-- **RUN MEASURE**: when every successful step adds `g a` to a measure of the
    state, a successful run adds the sum of `g` over the list. -/
theorem foldlM_measure (μ : β → Nat) (g : α → Nat) (f : β → α → Except ε β)
    (hstep : ∀ b a b', f b a = .ok b' → μ b' = μ b + g a) :
    ∀ (l : List α) (b b' : β), l.foldlM f b = .ok b' → μ b' = μ b + (l.map g).sum := by
  intro l
  induction l with
  | nil =>
      intro b b' h
      cases h
      simp
  | cons a l ih =>
      intro b b' h
      obtain ⟨b₁, h₁, hrest⟩ := (foldlM_cons_eq_ok f a l b b').mp h
      rw [ih b₁ b' hrest, hstep b a b₁ h₁, List.map_cons, List.sum_cons, Nat.add_assoc]

@[simp] theorem ok_mapError {ε' : Type u} (f : ε → ε') (a : α) :
    (Except.ok a : Except ε α).mapError f = .ok a := rfl

/-- Changing the error of a computation keeps its success. -/
@[simp] theorem mapError_eq_ok {ε' : Type u} (f : ε → ε') (x : Except ε α) (a : α) :
    x.mapError f = .ok a ↔ x = .ok a := by
  cases x <;> simp [Except.mapError]

/-- A loop of checks succeeds exactly when every check does. -/
theorem forM_eq_ok (f : α → Except ε PUnit) :
    ∀ (l : List α), l.forM f = .ok PUnit.unit ↔ ∀ a ∈ l, f a = .ok PUnit.unit
  | [] => ⟨fun _ _ h => (nomatch h), fun _ => rfl⟩
  | a :: l => by
      rw [List.forM, bind_eq_ok, forM_eq_ok f l]
      constructor
      · rintro ⟨⟨⟩, ha, hl⟩ b hb
        rcases List.mem_cons.mp hb with rfl | hb
        · exact ha
        · exact hl b hb
      · intro h
        exact ⟨PUnit.unit, h a List.mem_cons_self, fun b hb => h b (List.mem_cons_of_mem a hb)⟩

/-- A map succeeds exactly when it succeeds on every element, pairing each with
    its image. -/
theorem mapM_eq_ok (f : α → Except ε β) :
    ∀ (l : List α) (l' : List β), l.mapM f = .ok l' ↔ List.Forall₂ (fun a b => f a = .ok b) l l'
  | [], l' => by
      cases l' with
      | nil => exact ⟨fun _ => List.Forall₂.nil, fun _ => rfl⟩
      | cons b l' => exact ⟨fun h => (nomatch h), fun h => (nomatch h)⟩
  | a :: l, l' => by
      rw [List.mapM_cons, bind_eq_ok]
      constructor
      · rintro ⟨b, hb, hrest⟩
        obtain ⟨bs, hbs, hl'⟩ := (bind_eq_ok _ _ _).mp hrest
        cases hl'
        exact List.Forall₂.cons hb ((mapM_eq_ok f l bs).mp hbs)
      · intro h
        cases h with
        | cons hb hrest =>
            exact ⟨_, hb, (bind_eq_ok _ _ _).mpr ⟨_, (mapM_eq_ok f l _).mpr hrest, rfl⟩⟩

/-- A failed map failed at one of the elements, with its error. -/
theorem mapM_eq_error (f : α → Except ε β) :
    ∀ (l : List α) (e : ε), l.mapM f = .error e → ∃ a ∈ l, f a = .error e
  | [], _, h => nomatch h
  | a :: l, e, h => by
      rw [List.mapM_cons] at h
      rcases (bind_eq_error _ _ _).mp h with ha | ⟨_, -, hrest⟩
      · exact ⟨a, List.mem_cons_self, ha⟩
      · rcases (bind_eq_error _ _ _).mp hrest with hl | ⟨_, -, hpure⟩
        · obtain ⟨a', ha', h'⟩ := mapM_eq_error f l e hl
          exact ⟨a', List.mem_cons_of_mem a ha', h'⟩
        · cases hpure

/-- **A MAP OVER A REORDERING**: a map whose every failure is `e` fails, with `e`,
    on a list exactly when it fails on a reordering of it, and otherwise returns
    the images reordered alike. By induction on the reordering. -/
theorem mapM_perm {f : α → Except ε β} {e : ε} (hf : ∀ a e₀, f a = .error e₀ → e₀ = e)
    {l l' : List α} (h : l.Perm l') :
    (l.mapM f = .error e ∧ l'.mapM f = .error e) ∨
      ∃ r r', l.mapM f = .ok r ∧ l'.mapM f = .ok r' ∧ r.Perm r' := by
  induction h with
  | nil => exact Or.inr ⟨[], [], rfl, rfl, List.Perm.nil⟩
  | cons x _ ih =>
      simp only [List.mapM_cons]
      cases hx : f x with
      | error e₀ =>
          obtain rfl := hf x e₀ hx
          exact Or.inl ⟨rfl, rfl⟩
      | ok b =>
          rcases ih with ⟨h₁, h₂⟩ | ⟨r, r', h₁, h₂, hp⟩
          · exact Or.inl ⟨by rw [ok_bind, h₁]; rfl, by rw [ok_bind, h₂]; rfl⟩
          · exact Or.inr ⟨b :: r, b :: r', by rw [ok_bind, h₁]; rfl, by rw [ok_bind, h₂]; rfl,
              hp.cons b⟩
  | swap x y l =>
      simp only [List.mapM_cons]
      -- the first failure differs with the order, but every failure is `e`
      cases hx : f x with
      | error e₀ =>
          obtain rfl := hf x e₀ hx
          cases hy : f y with
          | error e₁ =>
              obtain rfl := hf y e₁ hy
              exact Or.inl ⟨rfl, rfl⟩
          | ok c => exact Or.inl ⟨rfl, rfl⟩
      | ok b =>
          cases hy : f y with
          | error e₁ =>
              obtain rfl := hf y e₁ hy
              exact Or.inl ⟨rfl, rfl⟩
          | ok c =>
              cases hl : l.mapM f with
              | error e₂ =>
                  obtain ⟨a, -, ha⟩ := mapM_eq_error f l e₂ hl
                  obtain rfl := hf a e₂ ha
                  exact Or.inl ⟨rfl, rfl⟩
              | ok r => exact Or.inr ⟨c :: b :: r, b :: c :: r, rfl, rfl, List.Perm.swap b c r⟩
  | trans _ _ ih₁ ih₂ =>
      rcases ih₁ with ⟨h₁, h₂⟩ | ⟨r₁, r₂, h₁, h₂, hp₁₂⟩
      · rcases ih₂ with ⟨-, h₃⟩ | ⟨r₂', -, h₂', -⟩
        · exact Or.inl ⟨h₁, h₃⟩
        · rw [h₂] at h₂'
          cases h₂'
      · rcases ih₂ with ⟨h₂', -⟩ | ⟨r₂', r₃, h₂', h₃, hp₂₃⟩
        · rw [h₂] at h₂'
          cases h₂'
        · rw [h₂] at h₂'
          cases h₂'
          exact Or.inr ⟨r₁, r₃, h₁, h₃, hp₁₂.trans hp₂₃⟩

section Filter

variable {γ : Type}

/-- The loop of `filterM`, when every test succeeds with `q`. -/
theorem filterAuxM_eq_ok {p : γ → Except ε Bool} {q : γ → Bool} :
    ∀ (l acc : List γ), (∀ a ∈ l, p a = .ok (q a)) →
      List.filterAuxM p l acc = .ok ((l.filter q).reverse ++ acc)
  | [], acc, _ => rfl
  | a :: l, acc, h => by
      rw [List.filterAuxM, h a List.mem_cons_self, ok_bind,
        filterAuxM_eq_ok l _ fun b hb => h b (List.mem_cons_of_mem a hb), List.filter_cons]
      cases q a
      · rfl
      · rw [if_pos rfl, List.reverse_cons, List.append_assoc, List.singleton_append]
        rfl

/-- A filter whose every test succeeds keeps what the tests accept. -/
theorem filterM_eq_ok {p : γ → Except ε Bool} {q : γ → Bool} (l : List γ)
    (h : ∀ a ∈ l, p a = .ok (q a)) : l.filterM p = .ok (l.filter q) := by
  rw [List.filterM, filterAuxM_eq_ok l [] h, ok_bind, List.append_nil, List.reverse_reverse]
  rfl

end Filter

/-- A computation whose `toOption` holds a value succeeded with it. -/
theorem toOption_eq_some (x : Except ε α) (a : α) : x.toOption = some a ↔ x = .ok a := by
  cases x <;> simp [Except.toOption]

/-- A computation that succeeds returns what its option, read with any default,
    holds. -/
theorem eq_ok_getD (x : Except ε α) (d : α) (h : x.toOption.isSome = true) :
    x = .ok (x.toOption.getD d) := by
  cases x with
  | error e => cases h
  | ok a => rfl

/-- Every prefix of a successful run succeeds, and each prefix that ran a step
    ends in a value the step guarantees. -/
theorem foldlM_prefix (Q : β → Prop) (f : β → α → Except ε β)
    (hstep : ∀ b a b', f b a = .ok b' → Q b') :
    ∀ (l : List α) (b b' : β), l.foldlM f b = .ok b' →
      ∀ k, ∃ bk, (l.take k).foldlM f b = .ok bk ∧ (0 < k → k ≤ l.length → Q bk) := by
  intro l
  induction l with
  | nil =>
      intro b b' _ k
      exact ⟨b, by rw [List.take_nil]; rfl,
        fun h₁ h₂ => absurd (Nat.lt_of_lt_of_le h₁ h₂) (Nat.lt_irrefl 0)⟩
  | cons a l ih =>
      intro b b' h k
      obtain ⟨b₁, h₁, hrest⟩ := (foldlM_cons_eq_ok f a l b b').mp h
      cases k with
      | zero => exact ⟨b, rfl, fun h => absurd h (Nat.lt_irrefl 0)⟩
      | succ k =>
          -- the first step ran; the rest is a prefix of the run from its result
          obtain ⟨bk, hk, hQ⟩ := ih b₁ b' hrest k
          refine ⟨bk, (foldlM_cons_eq_ok f a _ b bk).mpr ⟨b₁, h₁, hk⟩, fun _ hlen => ?_⟩
          cases k with
          | zero =>
              rw [List.take_zero] at hk
              cases hk
              exact hstep b a b₁ h₁
          | succ k => exact hQ (Nat.succ_pos k) (by simpa using hlen)

/-! ## Computations that do not fail badly -/

/-- `x` succeeds with a value satisfying `P`, or fails with an error that is not
    `bad`. -/
def Holds (bad : ε → Prop) (P : α → Prop) : Except ε α → Prop
  | .ok a => P a
  | .error e => ¬ bad e

variable {bad : ε → Prop} {P Q : α → Prop} {R : β → Prop}

@[simp] theorem holds_ok (a : α) : Holds bad P (.ok a) ↔ P a := Iff.rfl

@[simp] theorem holds_error (e : ε) : Holds bad P (.error e : Except ε α) ↔ ¬ bad e := Iff.rfl

@[simp] theorem holds_pure (a : α) : Holds bad P (pure a : Except ε α) ↔ P a := Iff.rfl

theorem Holds.mono {x : Except ε α} (h : Holds bad P x) (hPQ : ∀ a, P a → Q a) :
    Holds bad Q x := by
  cases x with
  | ok a => exact hPQ a h
  | error e => exact h

/-- **SEQUENCING**: a first computation that does not fail badly, followed by a
    second that does not fail badly from any of its results. -/
theorem Holds.bind {x : Except ε α} {f : α → Except ε β} (hx : Holds bad P x)
    (hf : ∀ a, P a → Holds bad R (f a)) : Holds bad R (x >>= f) := by
  cases x with
  | ok a => exact hf a hx
  | error e => exact hx

theorem Holds.map {x : Except ε α} {f : α → β} (hx : Holds bad P x)
    (hf : ∀ a, P a → R (f a)) : Holds bad R (f <$> x) := by
  cases x with
  | ok a => exact hf a hx
  | error e => exact hx

/-- What a successful computation that holds returns satisfies the postcondition. -/
theorem Holds.of_ok {x : Except ε α} {a : α} (h : Holds bad P x) (hx : x = .ok a) : P a := by
  subst hx
  exact h

/-- A computation that holds does not fail badly. -/
theorem Holds.not_bad {x : Except ε α} {e : ε} (h : Holds bad P x) (hx : x = .error e) :
    ¬ bad e := by
  subst hx
  exact h

/-- **RUN RULE**: steps that keep an invariant without failing badly make runs
    that keep it without failing badly. -/
theorem holds_foldlM (f : β → α → Except ε β)
    (hstep : ∀ b a, R b → Holds bad R (f b a)) :
    ∀ (l : List α) (b : β), R b → Holds bad R (l.foldlM f b) := by
  intro l
  induction l with
  | nil =>
      intro b hb
      exact hb
  | cons a l ih =>
      intro b hb
      rw [List.foldlM_cons]
      exact (hstep b a hb).bind fun b₁ hb₁ => ih b₁ hb₁

end ExceptLoops
