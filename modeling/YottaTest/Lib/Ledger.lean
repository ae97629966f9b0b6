/-
  File:      YottaTest/Lib/Ledger.lean
  Subject:   Book-keeping: transfers between accounts, and what each account sees of them.

  * `Transfer`, `effect`, `concerns` -- a transfer, what it adds to an account, whom it concerns;
  * `history`, `balance` -- the transfers of an account, and what a list of transfers makes of its
    opening balance; its own history is all that counts for it (`balance_history`);
  * `sum_balance` -- **the balances always add up to the opening balances**;
  * `history_unique` -- under references that differ, a transfer stands once in the history of
    each account it concerns.
-/
import Mathlib.Algebra.BigOperators.Group.Finset.Piecewise
import Mathlib.Data.List.Nodup

namespace YottaTest.Lib

/-- A transfer between two accounts, under a reference. -/
structure Transfer (A G R : Type) where
  source : A
  target : A
  amount : G
  ref : R
  deriving DecidableEq

variable {A G R : Type} [DecidableEq A] [AddCommGroup G]

/-- What a transfer adds to an account. -/
def Transfer.effect (t : Transfer A G R) (a : A) : G :=
  (if t.target = a then t.amount else 0) - (if t.source = a then t.amount else 0)

/-- The account is one of the two. -/
def Transfer.concerns (t : Transfer A G R) (a : A) : Bool := t.source = a ∨ t.target = a

/-- The transfers of an account, oldest first. -/
def history (a : A) (ts : List (Transfer A G R)) : List (Transfer A G R) :=
  ts.filter fun t => t.concerns a

/-- What transfers make of an opening balance. -/
def balance (opening : G) (a : A) (ts : List (Transfer A G R)) : G :=
  opening + (ts.map fun t => t.effect a).sum

@[simp] theorem balance_nil (opening : G) (a : A) :
    balance opening a ([] : List (Transfer A G R)) = opening := by
  simp [balance]

theorem balance_concat (opening : G) (a : A) (ts : List (Transfer A G R)) (t : Transfer A G R) :
    balance opening a (ts ++ [t]) = balance opening a ts + t.effect a := by
  simp [balance, add_assoc]

theorem Transfer.effect_eq_zero {t : Transfer A G R} {a : A} (h : t.concerns a = false) :
    t.effect a = 0 := by
  simp only [Transfer.concerns, decide_eq_false_iff_not, not_or] at h
  simp [Transfer.effect, h.1, h.2]

/-- **An account's own history makes its balance.** -/
theorem balance_history (opening : G) (a : A) (ts : List (Transfer A G R)) :
    balance opening a (history a ts) = balance opening a ts := by
  induction ts using List.reverseRecOn with
  | nil => rfl
  | append_singleton ts t ih =>
      unfold history at ih ⊢
      rw [List.filter_append, balance_concat, ← ih]
      cases h : t.concerns a with
      | true => simp [h, balance_concat]
      | false => simp [h, t.effect_eq_zero h]

/-- The running balance: each transfer adds its effect to the balance before. -/
theorem balance_take_succ (opening : G) (a : A) (ts : List (Transfer A G R)) {j : Nat}
    (hj : j < ts.length) :
    balance opening a (ts.take (j + 1)) = balance opening a (ts.take j) + ts[j].effect a := by
  rw [List.take_succ_eq_append_getElem hj, balance_concat]

/-- What a transfer adds to the accounts adds up to nothing. -/
theorem Transfer.sum_effect (t : Transfer A G R) {s : Finset A} (hs : t.source ∈ s)
    (ht : t.target ∈ s) : ∑ a ∈ s, t.effect a = 0 := by
  simp only [Transfer.effect, Finset.sum_sub_distrib, Finset.sum_ite_eq, hs, ht, if_true, sub_self]

/-- **The books are balanced.** -/
theorem sum_balance (opening : G) (s : Finset A) (ts : List (Transfer A G R))
    (hts : ∀ t ∈ ts, t.source ∈ s ∧ t.target ∈ s) :
    ∑ a ∈ s, balance opening a ts = s.card • opening := by
  induction ts using List.reverseRecOn with
  | nil => simp
  | append_singleton ts t ih =>
      have ht := hts t (by simp)
      simp only [balance_concat, Finset.sum_add_distrib, t.sum_effect ht.1 ht.2, add_zero]
      exact ih fun u hu => hts u (by simp [hu])

omit [AddCommGroup G] in
/-- **A transfer stands once in the history of an account it concerns**, when no two transfers
    share a reference. -/
theorem history_unique {ts : List (Transfer A G R)} (hrefs : (ts.map Transfer.ref).Nodup)
    {t : Transfer A G R} (ht : t ∈ ts) {a : A} (ha : t.concerns a = true) :
    ∃ j, ∃ hj : j < (history a ts).length, (history a ts)[j] = t ∧
      ∀ i (hi : i < (history a ts).length), (history a ts)[i].ref = t.ref → i = j := by
  have hmem : t ∈ history a ts := List.mem_filter.2 ⟨ht, ha⟩
  have hnodup : ((history a ts).map Transfer.ref).Nodup :=
    hrefs.sublist (List.Sublist.map _ (List.filter_sublist))
  obtain ⟨j, hj, hjt⟩ := List.mem_iff_getElem.1 hmem
  refine ⟨j, hj, hjt, fun i hi href => ?_⟩
  have hi' : i < ((history a ts).map Transfer.ref).length := by simpa using hi
  have hj' : j < ((history a ts).map Transfer.ref).length := by simpa using hj
  have heq : ((history a ts).map Transfer.ref)[i] = ((history a ts).map Transfer.ref)[j] := by
    simp [href, hjt]
  exact hnodup.getElem_inj_iff.1 heq

end YottaTest.Lib
