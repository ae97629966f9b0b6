/-
  File:      YottaTest/Lib/Paths.lean
  Subject:   Paths in a tree: lists in lexicographic order, a path before all those that continue it.

  * `prefix_between` -- the paths that continue another one are an interval;
  * `lt_iff_exists_split` -- the order of lists of one length;
  * `exists_first_prefix` -- where a path first reaches a bound;
  * `Span`, `Span.covers` -- the paths below one path, and those below a range of them;
  * `Span.Beats` -- a longer span wins, and a single path wins over a range of the same length;
  * `Laid`, `exists_laid`, `best_of_last` -- **spans laid out between the members of an increasing
    family: the one that wins for a path is of the last member that is not after it**;
  * `laidAt_unique` -- a span is laid out for one member only.
-/
import Mathlib.Data.List.Lex
import Mathlib.Order.Lattice

namespace YottaTest.Lib

variable {α : Type} [LinearOrder α]

/-! ## 1. The order -/

theorem nil_le_path (p : List α) : [] ≤ p := by
  rw [← not_lt]
  intro h
  cases h

theorem cons_lt_path {a b : α} {p q : List α} : a :: p < b :: q ↔ a < b ∨ a = b ∧ p < q :=
  List.cons_lt_cons_iff

theorem cons_le_path {a b : α} {p q : List α} : a :: p ≤ b :: q ↔ a < b ∨ a = b ∧ p ≤ q := by
  rw [← not_lt, cons_lt_path, ← not_lt (a := q)]
  constructor
  · intro h
    rcases lt_trichotomy a b with hab | rfl | hab
    · exact Or.inl hab
    · exact Or.inr ⟨rfl, fun hq => h (Or.inr ⟨rfl, hq⟩)⟩
    · exact absurd (Or.inl hab) h
  · rintro (hab | ⟨rfl, hp⟩) (hba | ⟨heq, hq⟩)
    · exact lt_asymm hab hba
    · exact ne_of_gt hab heq
    · exact lt_irrefl _ hba
    · exact hp hq

theorem prefix_le {p q : List α} (h : p <+: q) : p ≤ q := by
  induction p generalizing q with
  | nil => exact nil_le_path q
  | cons a p ih =>
      obtain ⟨t, rfl⟩ := h
      exact cons_le_path.2 (Or.inr ⟨rfl, ih (List.prefix_append p t)⟩)

theorem prefix_lt {p q : List α} (h : p <+: q) (hne : p ≠ q) : p < q :=
  lt_of_le_of_ne (prefix_le h) hne

/-- The first difference decides. -/
theorem append_cons_lt {a b : α} (h : a < b) (q s t : List α) : q ++ a :: s < q ++ b :: t := by
  induction q with
  | nil => exact cons_lt_path.2 (Or.inl h)
  | cons x q ih => exact cons_lt_path.2 (Or.inr ⟨rfl, ih⟩)

theorem le_of_append_cons_le {a b : α} {q s t : List α} (h : q ++ a :: s ≤ q ++ b :: t) : a ≤ b :=
  not_lt.1 fun hlt => absurd h (not_le.2 (append_cons_lt hlt q t s))

/-- **The paths that continue another one are an interval.** -/
theorem prefix_between {p a b c : List α} (ha : p <+: a) (hc : p <+: c) (hab : a ≤ b) (hbc : b ≤ c) :
    p <+: b := by
  induction p generalizing a b c with
  | nil => exact List.nil_prefix
  | cons x p ih =>
      obtain ⟨a, rfl⟩ := ha
      obtain ⟨c, rfl⟩ := hc
      cases b with
      | nil => exact absurd (le_antisymm hab (nil_le_path _)) (by simp)
      | cons y b =>
          rw [List.cons_append, cons_le_path] at hab hbc
          have hxy : x = y := le_antisymm
            (hab.elim le_of_lt fun h => le_of_eq h.1) (hbc.elim le_of_lt fun h => le_of_eq h.1)
          subst hxy
          have hab := hab.resolve_left (lt_irrefl x)
          have hbc := hbc.resolve_left (lt_irrefl x)
          exact (List.prefix_cons_inj x).2
            (ih (List.prefix_append p a) (List.prefix_append p c) hab.2 hbc.2)

/-- Where a path first reaches a bound. -/
theorem exists_first_prefix {k : List α} : ∀ {t q : List α}, k ≤ q ++ t → q < k →
    ∃ p c rest, q ++ t = p ++ c :: rest ∧ p < k ∧ k ≤ p ++ [c]
  | [], q, hle, hlt => by
      rw [List.append_nil] at hle
      exact absurd hle (not_le.2 hlt)
  | c :: t, q, hle, hlt => by
      by_cases hc : k ≤ q ++ [c]
      · exact ⟨q, c, t, rfl, hlt, hc⟩
      · have happend : q ++ c :: t = (q ++ [c]) ++ t := by simp
        rw [happend] at hle ⊢
        exact exists_first_prefix hle (not_le.1 hc)

/-- Of two lists of one length the smaller one has the smaller entry where they first differ. -/
theorem lt_iff_exists_split : ∀ {s t : List α}, s.length = t.length →
    (s < t ↔ ∃ common a b s' t', s = common ++ a :: s' ∧ t = common ++ b :: t' ∧ a < b)
  | s, t, h => by
      refine ⟨fun hlt => ?_, fun hsplit => ?_⟩
      · induction s generalizing t with
        | nil =>
            cases t with
            | nil => exact absurd hlt (lt_irrefl _)
            | cons => cases h
        | cons a s ih =>
            cases t with
            | nil => cases h
            | cons b t =>
                rcases cons_lt_path.1 hlt with hab | ⟨rfl, hst⟩
                · exact ⟨[], a, b, s, t, rfl, rfl, hab⟩
                · obtain ⟨common, x, y, s', t', rfl, rfl, hxy⟩ := ih t (Nat.succ.inj h) hst
                  exact ⟨a :: common, x, y, s', t', rfl, rfl, hxy⟩
      · obtain ⟨common, a, b, s', t', rfl, rfl, hab⟩ := hsplit
        exact append_cons_lt hab common s' t'

/-! ## 2. Spans -/

/-- The paths that continue one path, or those that continue a path whose last member lies in a
    range: from the one given on, and before the bound, if there is one. -/
inductive Span (α : Type) where
  | point (path : List α)
  | range (path : List α) (bound : Option α)
  deriving DecidableEq, Repr

namespace Span

/-- How many members of a path the span determines. -/
def level : Span α → Nat
  | point path => path.length
  | range path _ => path.length

def covers : Span α → List α → Prop
  | point path, p => path <+: p
  | range path bound, p =>
      ∃ q lo x rest, path = q ++ [lo] ∧ p = q ++ x :: rest ∧ lo ≤ x ∧ ∀ b, bound = some b → x < b

def isPoint : Span α → Bool
  | point _ => true
  | range _ _ => false

/-- **A span wins over a shorter one, and a point over a range of the same length.** -/
def Beats (n n' : Span α) : Prop :=
  n'.level < n.level ∨ (n'.level = n.level ∧ n.isPoint = true ∧ n'.isPoint = false)

section Map

variable {β : Type} (f : α → β)

/-- The same span over other names of the members. -/
def map : Span α → Span β
  | point path => point (path.map f)
  | range path bound => range (path.map f) (bound.map f)

omit [LinearOrder α] in
@[simp] theorem level_map (n : Span α) : (n.map f).level = n.level := by
  cases n <;> simp [map, level]

omit [LinearOrder α] in
@[simp] theorem isPoint_map (n : Span α) : (n.map f).isPoint = n.isPoint := by
  cases n <;> rfl

variable {f}

omit [LinearOrder α] in
theorem map_injective (hf : Function.Injective f) : Function.Injective (map f) := by
  intro n n' h
  cases n with
  | point path =>
      cases n' with
      | point path' => exact congrArg point (hf.list_map (Span.point.inj h))
      | range path' bound' => cases h
  | range path bound =>
      cases n' with
      | point path' => cases h
      | range path' bound' =>
          obtain ⟨hpath, hbound⟩ := Span.range.inj h
          rw [hf.list_map hpath, Option.map_injective hf hbound]

omit [LinearOrder α] in
theorem beats_map {n n' : Span α} : (n.map f).Beats (n'.map f) ↔ n.Beats n' := by
  simp [Beats]

end Map

end Span

/-! ## 3. Spans between the members of a family -/

/-- The spans laid out from a member up to the next one: the beginnings of the next member that are
    not before this one, and ranges along the part of this member that the next one does not have. -/
def Laid (k : List α) (next : Option (List α)) : Span α → Prop
  | .point path => ∃ x, next = some x ∧ path <+: x ∧ path ≠ x ∧ k ≤ path
  | .range path bound =>
      path <+: k ∧ path ≠ [] ∧ (∀ x, next = some x → ¬ path <+: x) ∧
        bound = next.bind fun x => if path.dropLast <+: x then x[path.length - 1]? else none

/-- The spans laid out from the member at this place. -/
def LaidAt (ks : List (List α)) (i : Nat) (n : Span α) : Prop :=
  ∃ k, ks[i]? = some k ∧ Laid k ks[i + 1]? n

/-- A range ends before the next member. -/
theorem Laid.lt_next {k x : List α} {path : List α} {bound : Option α}
    (h : Laid k (some x) (.range path bound)) (hkx : k < x) {p : List α}
    (hcov : (Span.range path bound).covers p) : p < x := by
  obtain ⟨hpath, -, hnot, hbound⟩ := h
  obtain ⟨q, lo, c, rest, rfl, rfl, -, hlt⟩ := hcov
  have hq : q <+: k := (List.prefix_append q [lo]).trans hpath
  rw [← not_le]
  intro hle
  have hqx : q <+: x := prefix_between hq (List.prefix_append q _) (le_of_lt hkx) hle
  obtain ⟨t, rfl⟩ := hqx
  cases t with
  | nil =>
      rw [List.append_nil] at hkx
      exact absurd (prefix_le hq) (not_le.2 hkx)
  | cons b t =>
      have hb : bound = some b := by simpa using hbound
      exact absurd hle (not_le.2 (append_cons_lt (hlt b hb) q rest t))

/-- **From a member up to the next one each path is covered**, by a span that determines enough of it
    to be not before the member. -/
theorem exists_laid {k p : List α} {next : Option (List α)} (hle : k ≤ p)
    (hnext : ∀ x, next = some x → p < x) (hk : k ≠ [] ∨ next ≠ none) :
    ∃ n, Laid k next n ∧ n.covers p ∧ k ≤ p.take n.level := by
  by_cases hnil : k = []
  · obtain ⟨x, rfl⟩ := Option.ne_none_iff_exists'.1 (hk.resolve_left fun h => h hnil)
    subst hnil
    refine ⟨.point [], ⟨x, rfl, List.nil_prefix, ?_, nil_le_path _⟩, List.nil_prefix, nil_le_path _⟩
    rintro rfl
    exact absurd (hnext [] rfl) (not_lt.2 (nil_le_path p))
  · have hpos : [] < k := lt_of_le_of_ne (nil_le_path k) (Ne.symm hnil)
    obtain ⟨q, c, rest, hp, hqk, hkc⟩ := exists_first_prefix (t := p) (q := []) hle hpos
    obtain rfl : p = q ++ c :: rest := hp
    have htake : (q ++ c :: rest).take (q.length + 1) = q ++ [c] := by
      rw [List.take_length_add_append]
      rfl
    have hcp : q ++ [c] <+: q ++ c :: rest := ⟨rest, by simp⟩
    by_cases hx : ∃ x, next = some x ∧ q ++ [c] <+: x
    · obtain ⟨x, rfl, hcx⟩ := hx
      refine ⟨.point (q ++ [c]), ⟨x, rfl, hcx, ?_, hkc⟩, hcp, ?_⟩
      · rintro rfl
        exact absurd (prefix_le hcp) (not_le.2 (hnext _ rfl))
      · rw [Span.level, List.length_append, List.length_singleton, htake]
        exact hkc
    · -- the member goes the same way up to here
      have hqk' : q <+: k :=
        prefix_between List.prefix_rfl (List.prefix_append q [c]) (le_of_lt hqk) hkc
      obtain ⟨t, rfl⟩ := hqk'
      cases t with
      | nil => exact absurd hqk (by simp)
      | cons lo t =>
          have hlo : lo ≤ c := le_of_append_cons_le hkc
          have hsame : lo = c → t = [] := by
            rintro rfl
            by_contra ht
            refine absurd hkc (not_le.2 (prefix_lt ⟨t, by simp⟩ ?_))
            simpa using ht
          refine ⟨.range (q ++ [lo]) _, ⟨⟨t, by simp⟩, by simp, ?_, rfl⟩,
            ⟨q, lo, c, rest, rfl, rfl, hlo, ?_⟩, ?_⟩
          · rintro x rfl hx'
            rcases lt_or_eq_of_le hlo with hlt | rfl
            · obtain ⟨u, rfl⟩ := hx'
              have hbefore := append_cons_lt hlt q u rest
              exact absurd (hnext _ rfl) (not_lt.2 (le_of_lt (by simpa using hbefore)))
            · exact hx ⟨x, rfl, hx'⟩
          · intro b hb
            cases next with
            | none => cases hb
            | some x =>
                have hb : (if q <+: x then x[q.length]? else none) = some b := by simpa using hb
                split at hb
                · rename_i hqx
                  obtain ⟨u, rfl⟩ := hqx
                  cases u with
                  | nil => simp at hb
                  | cons b' u =>
                      obtain rfl : b' = b := by simpa using hb
                      have hcb := le_of_append_cons_le (le_of_lt (hnext _ rfl))
                      refine lt_of_le_of_ne hcb ?_
                      rintro rfl
                      exact hx ⟨_, rfl, u, by simp⟩
                · cases hb
          · rw [Span.level, List.length_append, List.length_singleton, htake]
            exact hkc

omit [LinearOrder α] in
theorem exists_get_of_le {ks : List (List α)} {i l : Nat} {k : List α} (hl : ks[l]? = some k)
    (h : i ≤ l) : ∃ x, ks[i]? = some x := by
  obtain ⟨hl', -⟩ := List.getElem?_eq_some_iff.1 hl
  exact ⟨ks[i], List.getElem?_eq_getElem (Nat.lt_of_le_of_lt h hl')⟩

section Family

variable {ks : List (List α)} (hks : ks.Pairwise (· < ·))
include hks

theorem get_lt {i l : Nat} {k k' : List α} (hi : ks[i]? = some k) (hl : ks[l]? = some k')
    (h : i < l) : k < k' := by
  obtain ⟨hi', rfl⟩ := List.getElem?_eq_some_iff.1 hi
  obtain ⟨hl', rfl⟩ := List.getElem?_eq_some_iff.1 hl
  exact List.pairwise_iff_getElem.1 hks i l hi' hl' h

theorem get_le {i l : Nat} {k k' : List α} (hi : ks[i]? = some k) (hl : ks[l]? = some k')
    (h : i ≤ l) : k ≤ k' := by
  rcases Nat.lt_or_eq_of_le h with h | rfl
  · exact le_of_lt (get_lt hks hi hl h)
  · exact le_of_eq (Option.some.inj (hi.symm.trans hl))

/-- **The span that wins for a path is of the last member that is not after it.** -/
theorem best_of_last {p : List α} {i l : Nat} {k : List α} {n : Span α} (hi : ks[i]? = some k)
    (hle : k ≤ p) (hnext : ∀ x, ks[i + 1]? = some x → p < x) (hn : LaidAt ks l n)
    (hcov : n.covers p)
    (hbest : ∀ l' n', LaidAt ks l' n' → n'.covers p → ¬ n'.Beats n) : l = i := by
  obtain ⟨k', hl, hlaid⟩ := hn
  cases n with
  | point path =>
      obtain ⟨x, hx, hpx, hne, hk'⟩ := hlaid
      have hpp : path ≤ p := prefix_le hcov
      rcases Nat.lt_trichotomy l i with hlt | rfl | hgt
      · -- the point is before the member, so its span is shorter
        have hbefore : path < k := lt_of_lt_of_le (prefix_lt hpx hne) (get_le hks hx hi hlt)
        obtain ⟨e, he, hecov, hek⟩ := exists_laid hle hnext
          (Or.inl fun hnil => absurd hbefore (not_lt.2 (hnil ▸ nil_le_path _)))
        refine absurd (Or.inl ?_) (hbest i e ⟨k, hi, he⟩ hecov)
        rw [Span.level]
        by_contra hlevel
        have htake : p.take e.level <+: path :=
          List.prefix_of_prefix_length_le (List.take_prefix _ _) hcov
            ((List.length_take_le _ _).trans (not_lt.1 hlevel))
        exact absurd (hek.trans (prefix_le htake)) (not_le.2 hbefore)
      · rfl
      · obtain ⟨y, hy⟩ := exists_get_of_le hl hgt
        have hafter : p < k' := lt_of_lt_of_le (hnext y hy) (get_le hks hy hl hgt)
        exact absurd (hk'.trans hpp) (not_le.2 hafter)
  | range path bound =>
      rcases Nat.lt_trichotomy l i with hlt | rfl | hgt
      · obtain ⟨x, hx⟩ := exists_get_of_le hi hlt
        rw [hx] at hlaid
        have hbefore := hlaid.lt_next (get_lt hks hl hx (Nat.lt_succ_self l)) hcov
        exact absurd (hle.trans_lt hbefore) (not_lt.2 (get_le hks hx hi hlt))
      · rfl
      · -- the range only covers the path because both continue its beginning, which is a point
        exfalso
        obtain ⟨y, hy⟩ := exists_get_of_le hl hgt
        have hpy := hnext y hy
        have hyk := get_le hks hy hl hgt
        obtain ⟨q, lo, c, rest, rfl, rfl, hlo, -⟩ := hcov
        obtain ⟨hpath, -, -, -⟩ := hlaid
        have hc : lo = c := by
          refine (lt_or_eq_of_le hlo).resolve_left fun hlt => ?_
          obtain ⟨u, rfl⟩ := hpath
          have hbefore := append_cons_lt hlt q u rest
          exact absurd (hpy.trans_le hyk) (not_lt.2 (le_of_lt (by simpa using hbefore)))
        subst hc
        have hpp : q ++ [lo] <+: q ++ lo :: rest := ⟨rest, by simp⟩
        have hpy' : q ++ [lo] <+: y := prefix_between hpp hpath (le_of_lt hpy) hyk
        obtain ⟨e, he, hecov, hek⟩ := exists_laid hle hnext (Or.inr (by rw [hy]; simp))
        by_cases hlevel : (q ++ [lo]).length < e.level
        · exact hbest i e ⟨k, hi, he⟩ hecov (Or.inl hlevel)
        · have htake : (q ++ lo :: rest).take e.level <+: q ++ [lo] :=
            List.prefix_of_prefix_length_le (List.take_prefix _ _) hpp
              ((List.length_take_le _ _).trans (not_lt.1 hlevel))
          have hpoint : Laid k ks[i + 1]? (.point (q ++ [lo])) := by
            refine ⟨y, hy, hpy', ?_, hek.trans (prefix_le htake)⟩
            rintro rfl
            exact absurd (prefix_le hpp) (not_le.2 hpy)
          exact hbest i _ ⟨k, hi, hpoint⟩ hpp (Or.inr ⟨rfl, rfl, rfl⟩)

/-- **No span is laid out from two members.** -/
theorem laidAt_unique {i l : Nat} {n : Span α} (h : LaidAt ks i n) (h' : LaidAt ks l n) : i = l := by
  wlog hlt : i < l generalizing i l
  · rcases Nat.lt_or_eq_of_le (Nat.le_of_not_lt hlt) with hgt | heq
    · exact (this h' h hgt).symm
    · exact heq.symm
  exfalso
  obtain ⟨k, hi, hk⟩ := h
  obtain ⟨k', hl, hk'⟩ := h'
  obtain ⟨x, hx⟩ := exists_get_of_le hl hlt
  have hxk := get_le hks hx hl hlt
  cases n with
  | point path =>
      obtain ⟨y, hy, hpy, hne, -⟩ := hk
      obtain ⟨-, -, -, -, hle⟩ := hk'
      obtain rfl : x = y := Option.some.inj (hx.symm.trans hy)
      exact absurd (hxk.trans hle) (not_le.2 (prefix_lt hpy hne))
  | range path bound =>
      obtain ⟨hpath, -, hnot, -⟩ := hk
      exact hnot x hx (prefix_between hpath hk'.1 (le_of_lt (get_lt hks hi hx (Nat.lt_succ_self i))) hxk)

end Family

end YottaTest.Lib
