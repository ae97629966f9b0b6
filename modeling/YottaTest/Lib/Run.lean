/-
  File:      YottaTest/Lib/Run.lean
  Subject:   Runs of a transition system: what a step preserves a run preserves, and what a
             measure drives to an end is reached.

  * `run_keeps` -- the invariant rule, from one state to any state a run leads to;
  * `run_of_measure` -- the progress rule: as long as some step keeps a property and lowers a
    measure, a run leads to the goal;
  * `countP_update`, `eq_of_countP_eq` -- how many parties of a family have a property, after an
    update of one of them, and when all that may have it do.
-/
import Mathlib.Data.List.Nodup
import Mathlib.Logic.Function.Basic
import Mathlib.Logic.Relation

namespace YottaTest.Lib

open Function Relation

variable {S : Type} {step : S → S → Prop}

/-- **The invariant rule.** -/
theorem run_keeps {I : S → Prop} (hstep : ∀ s s', I s → step s s' → I s') {s s' : S}
    (h : ReflTransGen step s s') (hs : I s) : I s' := by
  induction h with
  | refl => exact hs
  | tail _ h ih => exact hstep _ _ ih h

/-- **The progress rule.** -/
theorem run_of_measure (I goal : S → Prop) (measure : S → Nat)
    (hstep : ∀ s, I s → ¬ goal s → ∃ s', step s s' ∧ I s' ∧ measure s' < measure s) :
    ∀ (n : Nat) (s : S), measure s ≤ n → I s → ∃ s', ReflTransGen step s s' ∧ I s' ∧ goal s'
  | n, s, hn, hs => by
      by_cases hg : goal s
      · exact ⟨s, .refl, hs, hg⟩
      · obtain ⟨t, hst, ht, hlt⟩ := hstep s hs hg
        cases n with
        | zero => omega
        | succ n =>
            obtain ⟨s', hrun, hs', hgoal⟩ := run_of_measure I goal measure hstep n t (by omega) ht
            exact ⟨s', .head hst hrun, hs', hgoal⟩

/-- **The count of a property over a family, after an update of one member.** -/
theorem countP_update {ι α : Type} [DecidableEq ι] (q : α → Bool) (f : ι → α) (i : ι) (a : α) :
    ∀ is : List ι, is.Nodup → i ∈ is →
      (is.countP fun j => q (update f i a j)) + (if q (f i) then 1 else 0) =
        (is.countP fun j => q (f j)) + (if q a then 1 else 0)
  | [], _, h => by simp at h
  | j :: is, hn, h => by
      obtain ⟨hj, hn⟩ := List.nodup_cons.1 hn
      rw [List.countP_cons, List.countP_cons]
      by_cases hi : i = j
      · subst hi
        have hsame : (is.countP fun k => q (update f i a k)) = is.countP fun k => q (f k) :=
          List.countP_congr fun k hk => by
            have hne : k ≠ i := fun he => hj (he ▸ hk)
            simp [hne]
        rw [hsame, update_self]
        omega
      · have ih := countP_update q f i a is hn ((List.mem_cons.1 h).resolve_left hi)
        rw [update_of_ne (Ne.symm hi)]
        omega

/-- A smaller property that as many members have is the same property. -/
theorem eq_of_countP_eq {α : Type} {p q : α → Bool} :
    ∀ l : List α, (∀ a ∈ l, p a = true → q a = true) → l.countP p = l.countP q →
      ∀ a ∈ l, p a = q a
  | [], _, _, _, h => by simp at h
  | a :: l, hpq, hc, b, hb => by
      have hl : ∀ a ∈ l, p a = true → q a = true := fun b hb => hpq b (by simp [hb])
      have hle : l.countP p ≤ l.countP q := List.countP_mono_left hl
      have ha := hpq a (by simp)
      rw [List.countP_cons, List.countP_cons] at hc
      have hpa : p a = q a := by
        cases hp : p a with
        | true => exact (ha hp).symm
        | false =>
            cases hq : q a with
            | false => rfl
            | true => simp [hp, hq] at hc; omega
      rcases List.mem_cons.1 hb with rfl | hb
      · exact hpa
      · rw [hpa] at hc
        exact eq_of_countP_eq l hl (by omega) b hb

end YottaTest.Lib
