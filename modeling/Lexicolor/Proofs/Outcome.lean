import Mathlib

/-!
# Computations that can fail

A computation in steps fails as its first step that fails.
-/

namespace Lexicolor

variable {ε α β : Type}

theorem bind_eq_ok {x : Except ε α} {f : α → Except ε β} {b : β} :
    (x >>= f) = .ok b ↔ ∃ a, x = .ok a ∧ f a = .ok b := by
  cases x <;> simp [bind, Except.bind]

theorem bind_eq_error {x : Except ε α} {f : α → Except ε β} {e : ε} :
    (x >>= f) = .error e ↔ x = .error e ∨ ∃ a, x = .ok a ∧ f a = .error e := by
  cases x <;> simp [bind, Except.bind]

theorem map_eq_ok {x : Except ε α} {f : α → β} {b : β} :
    f <$> x = .ok b ↔ ∃ a, x = .ok a ∧ f a = b := by
  cases x <;> simp [Functor.map, Except.map]

theorem map_eq_error {x : Except ε α} {f : α → β} {e : ε} :
    f <$> x = .error e ↔ x = .error e := by
  cases x <;> simp [Functor.map, Except.map]

theorem mapM_eq_ok {f : α → Except ε β} {l : List α} {r : List β} :
    l.mapM f = .ok r ↔ List.Forall₂ (fun a b => f a = .ok b) l r := by
  induction l generalizing r with
  | nil => cases r <;> simp [pure, Except.pure]
  | cons a l ih =>
      rw [List.mapM_cons, bind_eq_ok, List.forall₂_cons_left_iff]
      refine exists_congr fun b => ?_
      simp only [bind_eq_ok, ih, pure, Except.pure, Except.ok.injEq]
      constructor
      · intro ⟨hb, bs, hbs, hr⟩
        exact ⟨bs, hb, hbs, hr.symm⟩
      · intro ⟨bs, hb, hbs, hr⟩
        exact ⟨hb, bs, hbs, hr.symm⟩

/-- The first item that cannot be mapped decides. -/
theorem mapM_eq_error {f : α → Except ε β} {l : List α} {e : ε} : l.mapM f = .error e ↔
    ∃ before a after, l = before ++ a :: after ∧ (∀ b ∈ before, ∃ c, f b = .ok c) ∧
      f a = .error e := by
  induction l with
  | nil => simp [pure, Except.pure]
  | cons a l ih =>
      rw [List.mapM_cons, bind_eq_error]
      constructor
      · intro h
        cases h with
        | inl ha => exact ⟨[], a, l, rfl, by simp, ha⟩
        | inr h =>
            obtain ⟨b, hb, h⟩ := h
            cases bind_eq_error.mp h with
            | inl hrest =>
                obtain ⟨before, a', after, rfl, hbefore, ha'⟩ := ih.mp hrest
                exact ⟨a :: before, a', after, rfl,
                  List.forall_mem_cons.mpr ⟨⟨b, hb⟩, hbefore⟩, ha'⟩
            | inr h =>
                obtain ⟨_, -, h⟩ := h
                cases h
      · intro ⟨before, a', after, hl, hbefore, ha'⟩
        cases before with
        | nil =>
            obtain ⟨rfl, rfl⟩ := List.cons.inj hl
            exact .inl ha'
        | cons b before =>
            obtain ⟨rfl, rfl⟩ := List.cons.inj hl
            obtain ⟨⟨c, hc⟩, hbefore⟩ := List.forall_mem_cons.mp hbefore
            refine .inr ⟨c, hc, bind_eq_error.mpr (.inl (ih.mpr ?_))⟩
            exact ⟨before, a', after, rfl, hbefore, ha'⟩

end Lexicolor
