/-
  File:      YottaTest/Lib/Cascade.lean
  Subject:   Updates that call for further updates, as triggers, hooks and observers do.

  An update changes a state and calls for a list of further updates. These are carried out at
  once, each with all it calls for in turn, down to a limit of nesting.

  * `cascade`, `runCascade` -- one update and a list of updates, carried out to the end; past the
    limit there is no result;
  * `runCascade_isSome` -- if whatever is called for has a lower rank, updates whose rank is
    within the limit never reach it;
  * `runCascade_keeps` -- the invariant rule: what each update keeps, whoever called for it, a run
    keeps; `runCascade_rel` -- the same for a relation between two runs.
-/
import Mathlib.Data.List.Basic

namespace YottaTest.Lib

variable {C S : Type} (act : C → S → S × List C)

/-- An update with all it calls for, at most `depth` levels below it. -/
def cascade : Nat → C → S → Option S
  | 0, c, s => if (act c s).2.isEmpty then some (act c s).1 else none
  | depth + 1, c, s => (act c s).2.foldlM (fun s c => cascade depth c s) (act c s).1

/-- A list of updates, each carried out with all it calls for before the next one. -/
def runCascade (depth : Nat) (cs : List C) (s : S) : Option S :=
  cs.foldlM (fun s c => cascade act depth c s) s

@[simp] theorem runCascade_nil (depth : Nat) (s : S) : runCascade act depth [] s = some s := rfl

@[simp] theorem runCascade_cons (depth : Nat) (c : C) (cs : List C) (s : S) :
    runCascade act depth (c :: cs) s =
      (cascade act depth c s).bind fun s => runCascade act depth cs s :=
  List.foldlM_cons

theorem runCascade_append (depth : Nat) (as bs : List C) (s : S) :
    runCascade act depth (as ++ bs) s =
      (runCascade act depth as s).bind fun s => runCascade act depth bs s :=
  List.foldlM_append

theorem cascade_succ (depth : Nat) (c : C) (s : S) :
    cascade act (depth + 1) c s = runCascade act depth (act c s).2 (act c s).1 := rfl

variable {act}

/-- An update that calls for nothing. -/
theorem cascade_of_nil {c : C} {s : S} (h : (act c s).2 = []) (depth : Nat) :
    cascade act depth c s = some (act c s).1 := by
  cases depth with
  | zero => simp only [cascade, h, List.isEmpty_nil, if_true]
  | succ depth => rw [cascade_succ, h, runCascade_nil]

section Rank

variable {rank : C → Nat} (hrank : ∀ c s, ∀ c' ∈ (act c s).2, rank c' < rank c)
include hrank

theorem cascade_isSome : ∀ (depth : Nat) (c : C) (s : S), rank c ≤ depth →
    (cascade act depth c s).isSome = true
  | 0, c, s, h => by
      have hnil : (act c s).2 = [] := by
        refine List.eq_nil_iff_forall_not_mem.2 fun c' hc' => ?_
        have hlt := hrank c s c' hc'
        omega
      rw [cascade_of_nil hnil]
      rfl
  | depth + 1, c, s, h => by
      rw [cascade_succ]
      have hall : ∀ c' ∈ (act c s).2, rank c' ≤ depth := by
        intro c' hc'
        have hlt := hrank c s c' hc'
        omega
      generalize (act c s).2 = cs at hall
      generalize (act c s).1 = s
      induction cs generalizing s with
      | nil => rfl
      | cons c' cs ih =>
          have hc' := cascade_isSome depth c' s (hall c' List.mem_cons_self)
          obtain ⟨t, ht⟩ := Option.isSome_iff_exists.1 hc'
          rw [runCascade_cons, ht]
          exact ih (fun b hb => hall b (List.mem_cons_of_mem _ hb)) t

/-- **Ranks within the limit never reach it.** -/
theorem runCascade_isSome {depth : Nat} : ∀ {cs : List C}, (∀ c ∈ cs, rank c ≤ depth) → ∀ s : S,
    (runCascade act depth cs s).isSome = true
  | [], _, _ => rfl
  | c :: cs, h, s => by
      obtain ⟨t, ht⟩ := Option.isSome_iff_exists.1
        (cascade_isSome hrank depth c s (h c List.mem_cons_self))
      rw [runCascade_cons, ht]
      exact runCascade_isSome (fun b hb => h b (List.mem_cons_of_mem _ hb)) t

end Rank

section Keeps

variable {I : S → Prop} {Q : C → Prop}
  (hact : ∀ c s, Q c → I s → I (act c s).1 ∧ ∀ c' ∈ (act c s).2, Q c')
include hact

theorem cascade_keeps : ∀ (depth : Nat) {c : C} {s s' : S}, Q c → I s →
    cascade act depth c s = some s' → I s'
  | 0, c, s, s', hc, hs, h => by
      have hkeep := hact c s hc hs
      simp only [cascade] at h
      split at h
      · exact Option.some.inj h ▸ hkeep.1
      · cases h
  | depth + 1, c, s, s', hc, hs, h => by
      obtain ⟨hs', hall⟩ := hact c s hc hs
      rw [cascade_succ] at h
      generalize (act c s).2 = cs at hall h
      generalize (act c s).1 = t at hs' h
      induction cs generalizing t with
      | nil => exact Option.some.inj h ▸ hs'
      | cons c' cs ih =>
          rw [runCascade_cons] at h
          obtain ⟨u, hu, h⟩ := Option.bind_eq_some_iff.1 h
          exact ih (fun b hb => hall b (List.mem_cons_of_mem _ hb)) u
            (cascade_keeps depth (hall c' List.mem_cons_self) hs' hu) h

/-- **The invariant rule for cascades.** -/
theorem runCascade_keeps {depth : Nat} : ∀ {cs : List C} {s s' : S}, (∀ c ∈ cs, Q c) → I s →
    runCascade act depth cs s = some s' → I s'
  | [], s, s', _, hs, h => Option.some.inj h ▸ hs
  | c :: cs, s, s', hcs, hs, h => by
      rw [runCascade_cons] at h
      obtain ⟨u, hu, h⟩ := Option.bind_eq_some_iff.1 h
      exact runCascade_keeps (fun b hb => hcs b (List.mem_cons_of_mem _ hb))
        (cascade_keeps hact depth (hcs c List.mem_cons_self) hs hu) h

end Keeps

section Related

variable {R : S → S → Prop} {Q : C → Prop}
  (hact : ∀ c s t, Q c → R s t →
    (act c s).2 = (act c t).2 ∧ R (act c s).1 (act c t).1 ∧ ∀ c' ∈ (act c s).2, Q c')
include hact

theorem cascade_rel : ∀ (depth : Nat) {c : C} {s s' t t' : S}, Q c → R s t →
    cascade act depth c s = some s' → cascade act depth c t = some t' → R s' t'
  | 0, c, s, s', t, t', hc, hst, hs, ht => by
      have hkeep := hact c s t hc hst
      simp only [cascade] at hs ht
      split at hs
      · split at ht
        · exact Option.some.inj hs ▸ Option.some.inj ht ▸ hkeep.2.1
        · cases ht
      · cases hs
  | depth + 1, c, s, s', t, t', hc, hst, hs, ht => by
      obtain ⟨heq, hst', hall⟩ := hact c s t hc hst
      rw [cascade_succ] at hs ht
      rw [← heq] at ht
      generalize (act c s).2 = cs at hall hs ht
      generalize (act c s).1 = u at hst' hs
      generalize (act c t).1 = v at hst' ht
      induction cs generalizing u v with
      | nil => exact Option.some.inj hs ▸ Option.some.inj ht ▸ hst'
      | cons c' cs ih =>
          rw [runCascade_cons] at hs ht
          obtain ⟨u', hu, hs⟩ := Option.bind_eq_some_iff.1 hs
          obtain ⟨v', hv, ht⟩ := Option.bind_eq_some_iff.1 ht
          exact ih (fun b hb => hall b (List.mem_cons_of_mem _ hb)) u' hs v'
            (cascade_rel depth (hall c' List.mem_cons_self) hst' hu hv) ht

/-- **Runs from related states end in related states**, if related states call for the same. -/
theorem runCascade_rel {depth : Nat} : ∀ {cs : List C} {s s' t t' : S}, (∀ c ∈ cs, Q c) → R s t →
    runCascade act depth cs s = some s' → runCascade act depth cs t = some t' → R s' t'
  | [], s, s', t, t', _, hst, hs, ht => Option.some.inj hs ▸ Option.some.inj ht ▸ hst
  | c :: cs, s, s', t, t', hcs, hst, hs, ht => by
      rw [runCascade_cons] at hs ht
      obtain ⟨u, hu, hs⟩ := Option.bind_eq_some_iff.1 hs
      obtain ⟨v, hv, ht⟩ := Option.bind_eq_some_iff.1 ht
      exact runCascade_rel (fun b hb => hcs b (List.mem_cons_of_mem _ hb))
        (cascade_rel hact depth (hcs c List.mem_cons_self) hst hu hv) hs ht

end Related

end YottaTest.Lib
