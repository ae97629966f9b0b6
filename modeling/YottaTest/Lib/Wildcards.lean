/-
  File:      YottaTest/Lib/Wildcards.lean
  Subject:   Patterns with `*` and `?`, and the strings they match.

  * `Matches` -- a pattern matches a string; wildcards stand for the characters `any` allows;
  * `matches_star`, `matches_one`, `matches_char`, `matches_append` -- by the shape of the pattern;
  * `exists_matches`, `exists_matches_forall` -- some string is matched, and one of given characters.
-/
import Mathlib.Data.List.Basic

namespace YottaTest.Lib

/-- `*` and `?`. -/
def wild (c : Char) : Prop := c = '*' ∨ c = '?'

instance (c : Char) : Decidable (wild c) := by
  unfold wild
  infer_instance

/-- The strings that a pattern matches: `*` stands for any row of characters, `?` for one. -/
inductive Matches (any : Char → Prop) : List Char → List Char → Prop where
  | nil : Matches any [] []
  | star {p s : List Char} (u : List Char) : (∀ c ∈ u, any c) → Matches any p s →
      Matches any ('*' :: p) (u ++ s)
  | one {p s : List Char} (c : Char) : any c → Matches any p s → Matches any ('?' :: p) (c :: s)
  | char {p s : List Char} {c : Char} : ¬ wild c → Matches any p s → Matches any (c :: p) (c :: s)

section Shapes

variable {any : Char → Prop} {p q s : List Char}

theorem matches_nil : Matches any [] s ↔ s = [] := by
  constructor
  · intro h
    cases h
    rfl
  · intro h
    subst h
    exact .nil

theorem matches_star :
    Matches any ('*' :: p) s ↔ ∃ u v, s = u ++ v ∧ (∀ c ∈ u, any c) ∧ Matches any p v := by
  constructor
  · intro h
    cases h with
    | star u hu h => exact ⟨u, _, rfl, hu, h⟩
    | char hc _ => exact absurd (Or.inl rfl) hc
  · intro h
    obtain ⟨u, v, rfl, hu, h⟩ := h
    exact .star u hu h

theorem matches_one : Matches any ('?' :: p) s ↔ ∃ c v, s = c :: v ∧ any c ∧ Matches any p v := by
  constructor
  · intro h
    cases h with
    | one c hc h => exact ⟨c, _, rfl, hc, h⟩
    | char hc _ => exact absurd (Or.inr rfl) hc
  · intro h
    obtain ⟨c, v, rfl, hc, h⟩ := h
    exact .one c hc h

theorem matches_char {c : Char} (hc : ¬ wild c) :
    Matches any (c :: p) s ↔ ∃ v, s = c :: v ∧ Matches any p v := by
  constructor
  · intro h
    cases h with
    | star => exact absurd (Or.inl rfl) hc
    | one => exact absurd (Or.inr rfl) hc
    | char _ h => exact ⟨_, rfl, h⟩
  · intro h
    obtain ⟨v, rfl, h⟩ := h
    exact .char hc h

/-- A pattern in two parts matches a string in two parts. -/
theorem matches_append :
    Matches any (p ++ q) s ↔ ∃ s₁ s₂, s = s₁ ++ s₂ ∧ Matches any p s₁ ∧ Matches any q s₂ := by
  constructor
  · intro h
    induction p generalizing s with
    | nil => exact ⟨[], s, rfl, .nil, h⟩
    | cons c p ih =>
        by_cases hstar : c = '*'
        · subst hstar
          obtain ⟨u, v, rfl, hu, hv⟩ := matches_star.1 h
          obtain ⟨s₁, s₂, rfl, h₁, h₂⟩ := ih hv
          exact ⟨u ++ s₁, s₂, (List.append_assoc u s₁ s₂).symm, .star u hu h₁, h₂⟩
        by_cases hone : c = '?'
        · subst hone
          obtain ⟨d, v, rfl, hd, hv⟩ := matches_one.1 h
          obtain ⟨s₁, s₂, rfl, h₁, h₂⟩ := ih hv
          exact ⟨d :: s₁, s₂, rfl, .one d hd h₁, h₂⟩
        have hc : ¬ wild c := not_or.2 ⟨hstar, hone⟩
        obtain ⟨v, rfl, hv⟩ := (matches_char hc).1 h
        obtain ⟨s₁, s₂, rfl, h₁, h₂⟩ := ih hv
        exact ⟨c :: s₁, s₂, rfl, .char hc h₁, h₂⟩
  · intro h
    obtain ⟨s₁, s₂, rfl, h₁, h₂⟩ := h
    induction h₁ with
    | nil => exact h₂
    | star u hu _ ih =>
        rw [List.append_assoc]
        exact .star u hu ih
    | one c hc _ ih => exact .one c hc ih
    | char hc _ ih => exact .char hc ih

/-- **Some string of given characters is matched** iff the pattern itself has no others, wildcards
    apart. -/
theorem exists_matches_forall {ok : Char → Prop} {fill : Char} (hany : any fill) (hok : ok fill) :
    (∃ s, Matches any p s ∧ ∀ c ∈ s, ok c) ↔ ∀ c ∈ p, wild c ∨ ok c := by
  induction p with
  | nil =>
      exact iff_of_true ⟨[], .nil, fun _ h => absurd h List.not_mem_nil⟩
        fun _ h => absurd h List.not_mem_nil
  | cons c p ih =>
      rw [List.forall_mem_cons, ← ih]
      constructor
      · intro h
        obtain ⟨s, hs, hall⟩ := h
        cases hs with
        | star u _ hs =>
            exact ⟨Or.inl (Or.inl rfl), _, hs, fun d hd => hall d (List.mem_append_right u hd)⟩
        | one d _ hs =>
            exact ⟨Or.inl (Or.inr rfl), _, hs, fun e he => hall e (List.mem_cons_of_mem d he)⟩
        | char _ hs =>
            exact ⟨Or.inr (hall c List.mem_cons_self), _, hs,
              fun e he => hall e (List.mem_cons_of_mem c he)⟩
      · intro h
        obtain ⟨hc, s, hs, hall⟩ := h
        by_cases hstar : c = '*'
        · subst hstar
          exact ⟨s, .star [] (fun _ h => absurd h List.not_mem_nil) hs, hall⟩
        by_cases hone : c = '?'
        · subst hone
          exact ⟨fill :: s, .one fill hany hs, List.forall_mem_cons.2 ⟨hok, hall⟩⟩
        have hwild : ¬ wild c := not_or.2 ⟨hstar, hone⟩
        exact ⟨c :: s, .char hwild hs,
          List.forall_mem_cons.2 ⟨hc.resolve_left hwild, hall⟩⟩

/-- Every pattern matches something. -/
theorem exists_matches {fill : Char} (hany : any fill) (p : List Char) : ∃ s, Matches any p s := by
  have h : ∃ s, Matches any p s ∧ ∀ c ∈ s, (fun _ : Char => True) c :=
    (exists_matches_forall hany trivial).2 fun _ _ => Or.inr trivial
  obtain ⟨s, hs, -⟩ := h
  exact ⟨s, hs⟩

end Shapes

end YottaTest.Lib
