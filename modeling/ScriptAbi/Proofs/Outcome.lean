import Mathlib.Data.List.Forall2

namespace ScriptAbi

/-!
# Chains of steps that can fail

When a chain of steps gives a result, so did each step of it. `mapM_eq_ok_iff` says it for the same
step along a list: the results stand beside the things that they were made of. When the chain fails,
it does so with the error of the first step that fails (`mapM_eq_error_iff`). By positions this is
`mapM_eq_ok_iff_getElem?` and `mapM_eq_error_iff_getElem?`.
-/

variable {α β ε ε' : Type}

/-- A step after a step gives a result iff both do. -/
theorem bind_eq_ok_iff {x : Except ε α} {f : α → Except ε β} {b : β} :
    x >>= f = .ok b ↔ ∃ a, x = .ok a ∧ f a = .ok b := by
  cases x with
  | error e => simp [bind, Except.bind]
  | ok a => simp [bind, Except.bind]

/-- A mapped result is there iff there is a result that is mapped to it. -/
theorem map_eq_ok_iff {x : Except ε α} {f : α → β} {b : β} :
    x.map f = .ok b ↔ ∃ a, x = .ok a ∧ f a = b := by
  cases x with
  | error e => simp [Except.map]
  | ok a => simp [Except.map]

/-- Another wording of the error changes no result. -/
@[simp] theorem mapError_eq_ok_iff {x : Except ε α} {f : ε → ε'} {a : α} :
    x.mapError f = .ok a ↔ x = .ok a := by
  cases x with
  | error e => simp [Except.mapError]
  | ok b => simp [Except.mapError]

/-- **A step along a list** gives results iff it gives one for each thing in the list, in order. -/
theorem mapM_eq_ok_iff {f : α → Except ε β} {xs : List α} {ys : List β} :
    xs.mapM f = .ok ys ↔ List.Forall₂ (fun x y => f x = .ok y) xs ys := by
  -- the results are not fixed, as those of the rest are other ones
  induction xs generalizing ys with
  | nil => cases ys <;> simp [pure, Except.pure]
  | cons x xs ih =>
    rw [List.mapM_cons, bind_eq_ok_iff, List.forall₂_cons_left_iff]
    constructor
    · rintro ⟨y, hy, h⟩
      obtain ⟨rest, hrest, heq⟩ := bind_eq_ok_iff.1 h
      cases heq
      exact ⟨y, rest, hy, ih.1 hrest, rfl⟩
    · rintro ⟨y, rest, hy, hrest, rfl⟩
      exact ⟨y, hy, bind_eq_ok_iff.2 ⟨rest, ih.2 hrest, rfl⟩⟩

/-- A step gives results along a joined list iff it gives some along each of the two. -/
theorem mapM_append_eq_ok_iff {f : α → Except ε β} {xs₁ xs₂ : List α} {ys : List β} :
    (xs₁ ++ xs₂).mapM f = .ok ys ↔
      ∃ ys₁ ys₂, xs₁.mapM f = .ok ys₁ ∧ xs₂.mapM f = .ok ys₂ ∧ ys = ys₁ ++ ys₂ := by
  rw [List.mapM_append, bind_eq_ok_iff]
  constructor
  · rintro ⟨ys₁, h₁, h⟩
    obtain ⟨ys₂, h₂, heq⟩ := bind_eq_ok_iff.1 h
    cases heq
    exact ⟨ys₁, ys₂, h₁, h₂, rfl⟩
  · rintro ⟨ys₁, ys₂, h₁, h₂, rfl⟩
    exact ⟨ys₁, h₁, bind_eq_ok_iff.2 ⟨ys₂, h₂, rfl⟩⟩

/-- What a step gives along two lists it gives along the joined list. -/
theorem mapM_append_eq_ok {f : α → Except ε β} {xs₁ xs₂ : List α} {ys₁ ys₂ : List β}
    (h₁ : xs₁.mapM f = .ok ys₁) (h₂ : xs₂.mapM f = .ok ys₂) :
    (xs₁ ++ xs₂).mapM f = .ok (ys₁ ++ ys₂) :=
  mapM_append_eq_ok_iff.2 ⟨ys₁, ys₂, h₁, h₂, rfl⟩

/-- In two lists side by side, something stands beside each thing on the left. -/
theorem exists_of_mem_left {R : α → β → Prop} {xs : List α} {ys : List β}
    (h : List.Forall₂ R xs ys) {x : α} (hx : x ∈ xs) : ∃ y ∈ ys, R x y := by
  obtain ⟨i, hi, rfl⟩ := List.getElem_of_mem hx
  have hi' : i < ys.length := by rwa [← h.length_eq]
  exact ⟨ys[i], List.getElem_mem hi', h.get hi hi'⟩

/-- And beside each thing on the right. -/
theorem exists_of_mem_right {R : α → β → Prop} {xs : List α} {ys : List β}
    (h : List.Forall₂ R xs ys) {y : β} (hy : y ∈ ys) : ∃ x ∈ xs, R x y :=
  exists_of_mem_left h.flip hy

/-- Each result was made of a thing in the list. -/
theorem exists_of_mem_mapM {f : α → Except ε β} {xs : List α} {ys : List β} {y : β}
    (h : xs.mapM f = .ok ys) (hy : y ∈ ys) : ∃ x ∈ xs, f x = .ok y :=
  exists_of_mem_right (mapM_eq_ok_iff.1 h) hy

/-- What each result keeps of the thing that it was made of, the list of results keeps. -/
theorem map_eq_of_mapM {γ : Type} {f : α → Except ε β} {g : β → γ} {g' : α → γ} {xs : List α}
    {ys : List β} (h : xs.mapM f = .ok ys) (hstep : ∀ x ∈ xs, ∀ y, f x = .ok y → g y = g' x) :
    ys.map g = xs.map g' := by
  have hall := mapM_eq_ok_iff.1 h
  clear h
  induction hall with
  | nil => rfl
  | cons hxy _ ih =>
    rw [List.map_cons, List.map_cons, hstep _ (by simp) _ hxy, ih fun x hx => hstep x (by simp [hx])]

/-- A step that gives a function's value for each thing in a list maps the list. -/
theorem mapM_eq_ok_map {f : α → Except ε β} {g : α → β} {xs : List α}
    (h : ∀ x ∈ xs, f x = .ok (g x)) : xs.mapM f = .ok (xs.map g) := by
  rw [mapM_eq_ok_iff, List.forall₂_map_right_iff, List.forall₂_same]
  exact h

/-- Two lists side by side, by positions. -/
theorem forall₂_iff_getElem? {R : α → β → Prop} {xs : List α} {ys : List β} :
    List.Forall₂ R xs ys ↔
      ys.length = xs.length
        ∧ ∀ (i : Nat) (x : α), xs[i]? = some x → ∃ y, ys[i]? = some y ∧ R x y := by
  rw [List.forall₂_iff_get, eq_comm]
  refine and_congr_right fun hlength => ⟨fun h i x hx => ?_, fun h i hi hi' => ?_⟩
  · obtain ⟨hi, rfl⟩ := List.getElem?_eq_some_iff.1 hx
    have hi' : i < ys.length := by omega
    exact ⟨ys[i], List.getElem?_eq_getElem hi', h i hi hi'⟩
  · obtain ⟨y, hy, hbeside⟩ := h i xs[i] (List.getElem?_eq_getElem hi)
    obtain ⟨_, rfl⟩ := List.getElem?_eq_some_iff.1 hy
    exact hbeside

/-- A step along a list by positions: the result at a position is that of the thing there. -/
theorem mapM_eq_ok_iff_getElem? {f : α → Except ε β} {xs : List α} {ys : List β} :
    xs.mapM f = .ok ys ↔
      ys.length = xs.length
        ∧ ∀ (i : Nat) (x : α), xs[i]? = some x → ∃ y, ys[i]? = some y ∧ f x = .ok y := by
  rw [mapM_eq_ok_iff, forall₂_iff_getElem?]

/-! ### Failure -/

/-- A step after a step fails if the first one does, or if it does so itself. -/
theorem bind_eq_error_iff {x : Except ε α} {f : α → Except ε β} {e : ε} :
    x >>= f = .error e ↔ x = .error e ∨ ∃ a, x = .ok a ∧ f a = .error e := by
  cases x with
  | error e' => simp [bind, Except.bind]
  | ok a => simp [bind, Except.bind]

/-- Mapping the result does not change the error. -/
theorem map_eq_error_iff {x : Except ε α} {f : α → β} {e : ε} :
    x.map f = .error e ↔ x = .error e := by
  cases x with
  | error e' => simp [Except.map]
  | ok a => simp [Except.map]

/-- A mapped error is there iff there is an error that is mapped to it. -/
theorem mapError_eq_error_iff {x : Except ε α} {f : ε → ε'} {e : ε'} :
    x.mapError f = .error e ↔ ∃ e', x = .error e' ∧ f e' = e := by
  cases x with
  | error e' => simp [Except.mapError]
  | ok a => simp [Except.mapError]

/-- **A step along a list fails** with the error that it gives for the first thing for which it
    gives one. -/
theorem mapM_eq_error_iff {f : α → Except ε β} {xs : List α} {e : ε} :
    xs.mapM f = .error e ↔
      ∃ front x back, xs = front ++ x :: back ∧ (∀ y ∈ front, ∃ result, f y = .ok result)
        ∧ f x = .error e := by
  induction xs with
  | nil => simp [pure, Except.pure]
  | cons first rest ih =>
    rw [List.mapM_cons, bind_eq_error_iff]
    constructor
    · -- the first element fails, or it succeeds and one of the rest does
      rintro (hfirst | ⟨result, hfirst, hrest⟩)
      · exact ⟨[], first, rest, rfl, by simp, hfirst⟩
      · rcases bind_eq_error_iff.1 hrest with hrest | ⟨_, -, hpure⟩
        · obtain ⟨front, x, back, rfl, hfront, hx⟩ := ih.1 hrest
          refine ⟨first :: front, x, back, rfl, ?_, hx⟩
          rintro y (_ | ⟨_, hy⟩)
          · exact ⟨result, hfirst⟩
          · exact hfront y hy
        · cases hpure
    · rintro ⟨front, x, back, heq, hfront, hx⟩
      cases front with
      | nil =>
        cases heq
        exact .inl hx
      | cons y front =>
        cases heq
        obtain ⟨result, hresult⟩ := hfront first (by simp)
        refine .inr ⟨result, hresult, bind_eq_error_iff.2 (.inl ?_)⟩
        exact ih.2 ⟨front, x, back, rfl, fun z hz => hfront z (by simp [hz]), hx⟩

/-- A step along a list fails at the first position at which it fails. -/
theorem mapM_eq_error_iff_getElem? {f : α → Except ε β} {xs : List α} {e : ε} :
    xs.mapM f = .error e ↔
      ∃ (i : Nat) (x : α), xs[i]? = some x
        ∧ (∀ j < i, ∀ y, xs[j]? = some y → ∃ result, f y = .ok result) ∧ f x = .error e := by
  rw [mapM_eq_error_iff]
  constructor
  · rintro ⟨front, x, back, rfl, hfront, hx⟩
    refine ⟨front.length, x, by simp, fun j hj y hy => hfront y ?_, hx⟩
    rw [List.getElem?_append_left hj] at hy
    exact List.mem_of_getElem? hy
  · rintro ⟨i, x, hget, hbefore, hx⟩
    obtain ⟨hi, rfl⟩ := List.getElem?_eq_some_iff.1 hget
    refine ⟨xs.take i, xs[i], xs.drop (i + 1), by simp, fun y hy => ?_, hx⟩
    obtain ⟨j, hj, rfl⟩ := List.mem_take_iff_getElem.1 hy
    exact hbefore j (by omega) _ (List.getElem?_eq_getElem _)

end ScriptAbi
