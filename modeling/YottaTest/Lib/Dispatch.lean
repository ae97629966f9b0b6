/-
  File:      YottaTest/Lib/Dispatch.lean
  Subject:   A chain of tests on how a text begins: the first one that matches, and the longest.

  * `Arm`, `Arm.takes` -- a pattern: the texts that begin with it, or only the pattern itself;
  * `firstArm`, `longestArm` -- the arm a chain comes to first, and the one whose pattern goes
    furthest;
  * `firstArm_eq_longestArm` -- **both do the same, if no pattern is the beginning of a later one that
    does something else.**
-/
import Mathlib.Data.List.Infix

namespace YottaTest.Lib

variable {α A : Type} [DecidableEq α]

/-- A pattern, and what is done with the texts it takes. -/
structure Arm (α A : Type) where
  pattern : List α
  exact : Bool
  action : A
  deriving DecidableEq, Repr

/-- The texts that begin with the pattern, or it alone. -/
def Arm.takes (arm : Arm α A) (t : List α) : Bool :=
  if arm.exact then t = arm.pattern else arm.pattern <+: t

theorem Arm.prefix_of_takes {arm : Arm α A} {t : List α} (h : arm.takes t = true) :
    arm.pattern <+: t := by
  unfold Arm.takes at h
  split at h
  · exact of_decide_eq_true h ▸ List.prefix_rfl
  · exact of_decide_eq_true h

def firstArm (arms : List (Arm α A)) (t : List α) : Option (Arm α A) :=
  arms.find? fun arm => arm.takes t

theorem firstArm_spec {arms : List (Arm α A)} {t : List α} {arm : Arm α A}
    (h : firstArm arms t = some arm) : arm ∈ arms ∧ arm.takes t = true := by
  have hfind : (arms.find? fun arm => arm.takes t) = some arm := h
  exact ⟨List.mem_of_find?_eq_some hfind, (List.find?_eq_some_iff_append.1 hfind).1⟩

/-- An arm that takes the text hides all later ones. -/
theorem firstArm_of_take {arms : List (Arm α A)} {n : Nat} {arm : Arm α A} {t : List α}
    (hmem : arm ∈ arms.take n) (htakes : arm.takes t = true) :
    ∃ first ∈ arms.take n, firstArm arms t = some first := by
  have hsome : ((arms.take n).find? fun arm => arm.takes t).isSome = true :=
    List.find?_isSome.2 ⟨arm, hmem, htakes⟩
  obtain ⟨first, hfirst⟩ := Option.isSome_iff_exists.1 hsome
  refine ⟨first, List.mem_of_find?_eq_some hfirst, ?_⟩
  have hsplit : firstArm arms t = firstArm (arms.take n ++ arms.drop n) t := by
    rw [List.take_append_drop]
  rw [hsplit, firstArm, List.find?_append, hfirst]
  rfl

/-- Of two arms with patterns of the same length the first one. -/
def longestArm : List (Arm α A) → List α → Option (Arm α A)
  | [], _ => none
  | arm :: arms, t =>
      match longestArm arms t with
      | none => if arm.takes t then some arm else none
      | some longest =>
          if arm.takes t ∧ longest.pattern.length ≤ arm.pattern.length then some arm else some longest

/-- No pattern that takes its continuations is the beginning of a later one that takes the text too
    and has another action. -/
def Separate (arms : List (Arm α A)) (t : List α) : Prop :=
  arms.Pairwise fun arm later =>
    arm.exact = false → arm.pattern <+: later.pattern → later.takes t = true →
      arm.action = later.action

theorem longestArm_spec : ∀ {arms : List (Arm α A)} {t : List α} {arm : Arm α A},
    longestArm arms t = some arm → arm ∈ arms ∧ arm.takes t = true
  | [], _, _, h => by cases h
  | a :: arms, t, arm, h => by
      rw [longestArm] at h
      cases hrest : longestArm arms t with
      | none =>
          rw [hrest] at h
          dsimp only at h
          split at h
          · rename_i htakes
            exact Option.some.inj h ▸ ⟨List.mem_cons_self, htakes⟩
          · cases h
      | some longest =>
          rw [hrest] at h
          dsimp only at h
          split at h
          · rename_i hboth
            exact Option.some.inj h ▸ ⟨List.mem_cons_self, hboth.1⟩
          · obtain ⟨hmem, htakes⟩ := longestArm_spec hrest
            exact Option.some.inj h ▸ ⟨List.mem_cons_of_mem a hmem, htakes⟩

theorem longestArm_eq_none : ∀ {arms : List (Arm α A)} {t : List α},
    longestArm arms t = none ↔ ∀ arm ∈ arms, arm.takes t = false
  | [], _ => by simp [longestArm]
  | a :: arms, t => by
      rw [longestArm, List.forall_mem_cons, ← longestArm_eq_none]
      cases hrest : longestArm arms t with
      | none => cases a.takes t <;> simp
      | some longest =>
          dsimp only
          split <;> simp

/-- No arm that takes the text has a longer pattern. -/
theorem longestArm_length : ∀ {arms : List (Arm α A)} {t : List α} {arm longest : Arm α A},
    longestArm arms t = some longest → arm ∈ arms → arm.takes t = true →
      arm.pattern.length ≤ longest.pattern.length
  | [], _, _, _, h, _, _ => by cases h
  | a :: arms, t, arm, longest, h, hmem, htakes => by
      rw [longestArm] at h
      cases hrest : longestArm arms t with
      | none =>
          rw [hrest] at h
          dsimp only at h
          rcases List.mem_cons.1 hmem with rfl | hmem
          · rw [if_pos htakes] at h
            exact Option.some.inj h ▸ Nat.le_refl _
          · rw [longestArm_eq_none.1 hrest arm hmem] at htakes
            cases htakes
      | some longest' =>
          rw [hrest] at h
          dsimp only at h
          split at h
          · rename_i hboth
            obtain rfl := Option.some.inj h
            rcases List.mem_cons.1 hmem with rfl | hmem
            · exact Nat.le_refl _
            · exact Nat.le_trans (longestArm_length hrest hmem htakes) hboth.2
          · rename_i hshort
            obtain rfl := Option.some.inj h
            rcases List.mem_cons.1 hmem with rfl | hmem
            · exact Nat.le_of_not_le fun hle => hshort ⟨htakes, hle⟩
            · exact longestArm_length hrest hmem htakes

/-- **The first arm does what the longest one does.** -/
theorem firstArm_eq_longestArm {t : List α} : ∀ {arms : List (Arm α A)}, Separate arms t →
    (firstArm arms t).map Arm.action = (longestArm arms t).map Arm.action
  | [], _ => rfl
  | a :: arms, h => by
      obtain ⟨hlater, hrest⟩ := List.pairwise_cons.1 h
      have ih := firstArm_eq_longestArm hrest
      rw [longestArm]
      by_cases htakes : a.takes t = true
      · have hfirst : firstArm (a :: arms) t = some a := List.find?_cons_of_pos htakes
        rw [hfirst]
        cases hlong : longestArm arms t with
        | none => rw [if_pos htakes]
        | some longest =>
            dsimp only
            split
            · rfl
            · rename_i hshort
              obtain ⟨hmem, hlongest⟩ := longestArm_spec hlong
              have hlt : a.pattern.length < longest.pattern.length :=
                Nat.lt_of_not_le fun hle => hshort ⟨htakes, hle⟩
              have hpre : a.pattern <+: longest.pattern :=
                List.prefix_of_prefix_length_le (Arm.prefix_of_takes htakes)
                  (Arm.prefix_of_takes hlongest) (Nat.le_of_lt hlt)
              have hexact : a.exact = false := by
                by_contra hexact
                rw [Arm.takes, if_pos (Bool.not_eq_false _ ▸ hexact)] at htakes
                have hlen := (Arm.prefix_of_takes hlongest).length_le
                rw [of_decide_eq_true htakes] at hlen
                omega
              exact congrArg some (hlater longest hmem hexact hpre hlongest)
      · have hfirst : firstArm (a :: arms) t = firstArm arms t := List.find?_cons_of_neg htakes
        rw [hfirst, ih]
        cases longestArm arms t with
        | none => exact (congrArg _ (if_neg htakes)).symm
        | some longest => exact (congrArg _ (if_neg fun hboth => htakes hboth.1)).symm

end YottaTest.Lib
