/-
  File:      YottaTest/Awk/Text.lean
  Subject:   index() and sub() of awk, for a pattern that is plain text, and lists of tokens.

  A token starts with a mark that occurs nowhere else in it; tokens are joined by a separator. In
  such a text a token can only be found where a token starts, but it is found there also as the
  beginning of a longer one.

  * `index`, `sub` -- the two functions;
  * `IsToken`, `infix_intercalate`, `index_eq_zero`, `index_eq_one` -- searching a joined list;
  * `removeInner`, `sub_token_sep` -- removing a token with the separator after it;
  * `cutLater`, `sub_sep_token` -- removing a token with the separator before it.
-/
import Mathlib.Data.List.Basic
import Mathlib.Data.List.Infix

namespace YottaTest.Awk

/-! ## 1. Words in a text -/

section Words

variable {α : Type}

theorem forall_mem_of_all {p : α → Prop} [DecidablePred p] {l : List α} (h : l.all (fun a => decide (p a)) = true) :
    ∀ a ∈ l, p a :=
  fun a ha => of_decide_eq_true (List.all_eq_true.1 h a ha)

/-- A word without the separator stops before one. -/
theorem prefix_append_sep {sep : α} {word : List α} (hs : sep ∉ word) (v rest : List α) :
    word <+: v ++ sep :: rest ↔ word <+: v := by
  induction word generalizing v with
  | nil => simp
  | cons c word ih =>
      have hsep : ¬ c = sep := fun h => hs (h ▸ List.mem_cons_self)
      cases v with
      | nil => simp [hsep]
      | cons d v =>
          rw [List.cons_append, List.cons_prefix_cons, List.cons_prefix_cons,
            ih fun h => hs (List.mem_cons_of_mem _ h)]

theorem infix_append_sep {sep : α} {word : List α} (hw : word ≠ []) (hs : sep ∉ word)
    (v rest : List α) : word <:+: v ++ sep :: rest ↔ word <:+: v ∨ word <:+: rest := by
  induction v with
  | nil =>
      have hpre : ¬ word <+: sep :: rest := by
        intro h
        have hnil := (prefix_append_sep hs [] rest).1 h
        exact hw (List.prefix_nil.1 hnil)
      simp [List.infix_cons_iff, hpre, hw]
  | cons c v ih =>
      rw [List.cons_append, List.infix_cons_iff, ih, List.infix_cons_iff, ← List.cons_append,
        prefix_append_sep hs, or_assoc]

end Words

/-! ## 2. Tokens -/

/-- A token: it starts with the mark, which occurs nowhere else in it, and has no separator. -/
structure IsToken {α : Type} (mark sep : α) (w : List α) : Prop where
  head : ∃ t, w = mark :: t ∧ mark ∉ t
  sep_notMem : sep ∉ w

section Tokens

variable {α : Type} {mark sep : α}

theorem IsToken.ne_nil {w : List α} (h : IsToken mark sep w) : w ≠ [] := by
  obtain ⟨t, rfl, -⟩ := h.head
  exact List.cons_ne_nil _ _

theorem IsToken.mark_ne {w : List α} (h : IsToken mark sep w) : mark ≠ sep := by
  obtain ⟨t, rfl, -⟩ := h.head
  exact fun heq => h.sep_notMem (heq ▸ List.mem_cons_self)

/-- A token is found in a token at its start only. -/
theorem IsToken.infix_iff {w v : List α} (hw : IsToken mark sep w) (hv : IsToken mark sep v) :
    w <:+: v ↔ w <+: v := by
  refine ⟨fun h => ?_, List.IsPrefix.isInfix⟩
  obtain ⟨t, rfl, ht⟩ := hw.head
  obtain ⟨u, rfl, hu⟩ := hv.head
  rcases List.infix_cons_iff.1 h with hpre | hin
  · exact hpre
  · exact absurd (hin.subset List.mem_cons_self) hu

theorem infix_intercalate {w : List α} (hw : IsToken mark sep w) : ∀ {vs : List (List α)},
    (∀ v ∈ vs, IsToken mark sep v) → (w <:+: [sep].intercalate vs ↔ ∃ v ∈ vs, w <+: v)
  | [], _ => by simp [hw.ne_nil]
  | [v], h => by
      rw [List.intercalate_singleton, hw.infix_iff (h v List.mem_cons_self)]
      simp
  | v :: v' :: vs, h => by
      have ih := infix_intercalate hw fun x hx => h x (List.mem_cons_of_mem v hx)
      rw [List.intercalate_cons_cons, List.append_assoc, List.singleton_append,
        infix_append_sep hw.ne_nil hw.sep_notMem, ih, hw.infix_iff (h v List.mem_cons_self)]
      simp

/-- A token at the start of the joined list is at the start of its first token. -/
theorem prefix_intercalate {w : List α} (hw : IsToken mark sep w) (v : List α)
    (vs : List (List α)) : w <+: [sep].intercalate (v :: vs) ↔ w <+: v := by
  cases vs with
  | nil => rw [List.intercalate_singleton]
  | cons v' vs =>
      rw [List.intercalate_cons_cons, List.append_assoc, List.singleton_append,
        prefix_append_sep hw.sep_notMem]

theorem sep_mem_intercalate {v v' : List α} (vs : List (List α)) :
    sep ∈ [sep].intercalate (v :: v' :: vs) := by
  simp [List.intercalate_cons_cons]

theorem token_sep_prefix {w v : List α} (hw : sep ∉ w) (hv : sep ∉ v) (rest : List α) :
    w ++ [sep] <+: v ++ sep :: rest ↔ v = w := by
  induction w generalizing v with
  | nil =>
      cases v with
      | nil => simp
      | cons d v =>
          have hd : ¬ sep = d := fun h => hv (h ▸ List.mem_cons_self)
          simp [hd]
  | cons c w ih =>
      have hc : ¬ c = sep := fun h => hw (h ▸ List.mem_cons_self)
      cases v with
      | nil => simp [hc]
      | cons d v =>
          rw [List.cons_append, List.cons_append, List.cons_prefix_cons,
            ih (fun h => hw (List.mem_cons_of_mem _ h)) fun h => hv (List.mem_cons_of_mem _ h),
            List.cons.injEq, eq_comm (a := c)]

end Tokens

/-! ## 3. The functions -/

section Functions

variable {α : Type} [DecidableEq α]

/-- `index(text,word)`: where the word first stands, counted from 1; 0 without it. -/
def index : List α → List α → Nat
  | [], _ => 0
  | c :: s, word =>
      if word <+: c :: s then 1
      else if index s word = 0 then 0 else index s word + 1

/-- `sub(word,new,text)`, the text after it, for a word without metacharacters. -/
def sub (word new : List α) : List α → List α
  | [] => []
  | c :: s => if word <+: c :: s then new ++ (c :: s).drop word.length else c :: sub word new s

theorem index_eq_zero {word : List α} (hw : word ≠ []) : ∀ s : List α,
    index s word = 0 ↔ ¬ word <:+: s
  | [] => by simp [index, hw]
  | c :: s => by
      have ih := index_eq_zero hw s
      rw [List.infix_cons_iff, not_or, ← ih, index]
      split
      · simp_all
      · split
        · simp_all
        · simp_all

theorem index_eq_one {word : List α} (hw : word ≠ []) : ∀ s : List α,
    index s word = 1 ↔ word <+: s
  | [] => by simp [index, hw]
  | c :: s => by
      rw [index]
      split
      · simp_all
      · split
        · simp_all
        · simp_all

/-- Text without the word's first character is passed over. -/
theorem sub_skip {c : α} {p new u : List α} (hc : c ∉ u) (s : List α) :
    sub (c :: p) new (u ++ s) = u ++ sub (c :: p) new s := by
  induction u with
  | nil => rfl
  | cons d u ih =>
      have hd : ¬ (c :: p) <+: d :: (u ++ s) := by
        rw [List.cons_prefix_cons]
        exact fun h => hc (h.1 ▸ List.mem_cons_self)
      rw [List.cons_append, sub, if_neg hd, ih fun h => hc (List.mem_cons_of_mem _ h)]
      rfl

/-! ### On joined tokens -/

variable {mark sep : α}

/-- The first token equal to `w`, the last one apart, removed. -/
def removeInner (w : List α) : List (List α) → List (List α)
  | v :: v' :: vs => if v = w then v' :: vs else v :: removeInner w (v' :: vs)
  | vs => vs

theorem removeInner_ne_nil (w v : List α) (vs : List (List α)) : removeInner w (v :: vs) ≠ [] := by
  cases vs with
  | nil => simp [removeInner]
  | cons v' vs =>
      rw [removeInner]
      split
      · simp
      · simp

theorem mem_of_mem_removeInner {w x : List α} : ∀ {vs : List (List α)}, x ∈ removeInner w vs → x ∈ vs
  | [], h => h
  | [_], h => h
  | v :: v' :: vs, h => by
      rw [removeInner] at h
      split at h
      · exact List.mem_cons_of_mem v h
      · rcases List.mem_cons.1 h with rfl | hin
        · exact List.mem_cons_self
        · exact List.mem_cons_of_mem v (mem_of_mem_removeInner hin)

/-- **Removing a token with the separator after it.** -/
theorem sub_token_sep {w : List α} (hw : IsToken mark sep w) : ∀ {vs : List (List α)},
    (∀ v ∈ vs, IsToken mark sep v) →
    sub (w ++ [sep]) [] ([sep].intercalate vs) = [sep].intercalate (removeInner w vs)
  | [], _ => rfl
  | [v], h => by
      obtain ⟨t, rfl, ht⟩ := hw.head
      obtain ⟨u, rfl, hu⟩ := (h v List.mem_cons_self).head
      have hpre : ¬ mark :: t ++ [sep] <+: mark :: u := by
        intro hpre
        exact (h _ List.mem_cons_self).sep_notMem (hpre.subset (by simp))
      have hskip := @sub_skip α _ mark (t ++ [sep]) [] u hu []
      rw [List.append_nil] at hskip
      rw [removeInner, List.intercalate_singleton, sub, if_neg hpre, List.cons_append, hskip]
      · simp [sub]
      · simp
  | v :: v' :: vs, h => by
      have hv := h v List.mem_cons_self
      have ih := sub_token_sep hw fun x hx => h x (List.mem_cons_of_mem v hx)
      have hmark := hw.mark_ne
      have hiff := token_sep_prefix hw.sep_notMem hv.sep_notMem ([sep].intercalate (v' :: vs))
      obtain ⟨t, rfl, ht⟩ := hw.head
      obtain ⟨u, rfl, hu⟩ := hv.head
      rw [List.intercalate_cons_cons, List.append_assoc, List.singleton_append, removeInner]
      rw [List.cons_append] at hiff
      have hcons : mark :: u ++ sep :: [sep].intercalate (v' :: vs) =
          mark :: (u ++ sep :: [sep].intercalate (v' :: vs)) := rfl
      rw [hcons] at hiff ⊢
      rw [sub, List.cons_append]
      by_cases heq : mark :: u = mark :: t
      · rw [if_pos (hiff.2 heq), if_pos heq]
        obtain rfl := (List.cons.inj heq).2
        have hsplit : mark :: (u ++ sep :: [sep].intercalate (v' :: vs)) =
            (mark :: (u ++ [sep])) ++ [sep].intercalate (v' :: vs) := by simp
        rw [hsplit, List.drop_left, List.nil_append]
      · rw [if_neg fun hpre => heq (hiff.1 hpre), if_neg heq, sub_skip hu]
        have hsep : sub (mark :: (t ++ [sep])) [] (sep :: [sep].intercalate (v' :: vs)) =
            sep :: sub (mark :: (t ++ [sep])) [] ([sep].intercalate (v' :: vs)) := by
          rw [sub, if_neg]
          rw [List.cons_prefix_cons]
          exact fun hpre => hmark hpre.1
        rw [List.cons_append] at ih
        rw [hsep, ih]
        obtain ⟨x, xs, hx⟩ := List.exists_cons_of_ne_nil (removeInner_ne_nil (mark :: t) v' vs)
        rw [hx, List.intercalate_cons_cons]
        simp

/-- From the first token after the first one that starts with `w`, this and the separator before it
    are cut out: what is left of it joins the token before. -/
def cutLater (w : List α) : List (List α) → List (List α)
  | v :: v' :: vs =>
      if w <+: v' then (v ++ v'.drop w.length) :: vs else v :: cutLater w (v' :: vs)
  | vs => vs

theorem cutLater_ne_nil (w v : List α) (vs : List (List α)) : cutLater w (v :: vs) ≠ [] := by
  cases vs with
  | nil => simp [cutLater]
  | cons v' vs =>
      rw [cutLater]
      split
      · simp
      · simp

theorem notMem_of_mem_cutLater {sep : α} {w x : List α} : ∀ {vs : List (List α)},
    (∀ v ∈ vs, sep ∉ v) → x ∈ cutLater w vs → sep ∉ x
  | [], h, hx => h x hx
  | [v], h, hx => h x hx
  | v :: v' :: vs, h, hx => by
      have htail : ∀ y ∈ v' :: vs, sep ∉ y := fun y hy => h y (List.mem_cons_of_mem v hy)
      rw [cutLater] at hx
      split at hx
      · rcases List.mem_cons.1 hx with rfl | hin
        · rw [List.mem_append, not_or]
          exact ⟨h v List.mem_cons_self, fun hd => htail v' List.mem_cons_self (List.mem_of_mem_drop hd)⟩
        · exact htail x (List.mem_cons_of_mem v' hin)
      · rcases List.mem_cons.1 hx with rfl | hin
        · exact h x List.mem_cons_self
        · exact notMem_of_mem_cutLater htail hin

/-- **Removing a token with the separator before it.** -/
theorem sub_sep_token {w : List α} (hw : IsToken mark sep w) : ∀ {vs : List (List α)},
    (∀ v ∈ vs, IsToken mark sep v) →
    sub (sep :: w) [] ([sep].intercalate vs) = [sep].intercalate (cutLater w vs)
  | [], _ => rfl
  | [v], h => by
      have hskip := @sub_skip α _ sep w [] v (h v List.mem_cons_self).sep_notMem []
      rw [List.append_nil] at hskip
      rw [cutLater, List.intercalate_singleton, hskip]
      · simp [sub]
      · simp
  | v :: v' :: vs, h => by
      have ih := sub_sep_token hw fun x hx => h x (List.mem_cons_of_mem v hx)
      rw [List.intercalate_cons_cons, List.append_assoc, List.singleton_append,
        sub_skip (h v List.mem_cons_self).sep_notMem, cutLater, sub]
      by_cases hpre : w <+: v'
      · have hin : sep :: w <+: sep :: [sep].intercalate (v' :: vs) :=
          List.cons_prefix_cons.2 ⟨rfl, (prefix_intercalate hw v' vs).2 hpre⟩
        rw [if_pos hin, if_pos hpre, List.nil_append, List.length_cons, List.drop_succ_cons]
        obtain ⟨u, rfl⟩ := hpre
        cases vs with
        | nil => simp
        | cons x xs => simp [List.intercalate_cons_cons]
      · have hout : ¬ sep :: w <+: sep :: [sep].intercalate (v' :: vs) :=
          fun hin => hpre ((prefix_intercalate hw v' vs).1 (List.cons_prefix_cons.1 hin).2)
        rw [if_neg hout, if_neg hpre, ih]
        obtain ⟨x, xs, hx⟩ := List.exists_cons_of_ne_nil (cutLater_ne_nil w v' vs)
        rw [hx, List.intercalate_cons_cons]
        simp

end Functions

end YottaTest.Awk
