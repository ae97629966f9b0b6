/-
  File:      YottaTest/Awk/Marked.lean
  Subject:   Names written between marks: the row "#A#B#".

  * `marked`, `tagged` -- the row of a list of names, and one name between its marks;
  * `tagged_infix_marked`, `char_infix_marked` -- what is found in a row;
  * `squeeze`, `gsub_run` -- runs of the mark made one;
  * `squeeze_marked`, `tagged_infix_squeeze`, `replaceAll_marked` -- tidying a row, and taking a name out of it.
-/
import YottaTest.Awk.Regex

namespace YottaTest.Awk

section Rows

variable {α : Type}

/-- The row of names between marks. -/
def marked (mark : α) (names : List (List α)) : List α := mark :: names.flatMap (· ++ [mark])

/-- One name between its marks. -/
def tagged (mark : α) (name : List α) : List α := mark :: name ++ [mark]

variable {mark : α}

@[simp] theorem marked_nil : marked mark [] = [mark] := rfl

theorem marked_cons (name : List α) (names : List (List α)) :
    marked mark (name :: names) = mark :: (name ++ marked mark names) := by
  simp [marked]

theorem marked_singleton (name : List α) : marked mark [name] = tagged mark name := by
  simp [marked, tagged]

theorem marked_append_tagged (names : List (List α)) (name : List α) :
    marked mark names ++ tagged mark name = marked mark (names ++ [[], name]) := by
  simp [marked, tagged]

/-! ## 1. What is found in a row -/

/-- Between marks a name stands at the start of a row exactly if it is the first one. -/
theorem tagged_prefix_marked {name other : List α} (hname : mark ∉ name) (hother : mark ∉ other)
    (names : List (List α)) :
    tagged mark name <+: marked mark (other :: names) ↔ other = name := by
  rw [marked_cons, tagged, List.cons_append, List.cons_prefix_cons]
  simp only [true_and]
  exact token_sep_prefix hname hother (names.flatMap (· ++ [mark]))

/-- What starts with the mark is not found in text without it, nor across its end. -/
theorem infix_append_of_notMem {w u s : List α} (hu : mark ∉ u) :
    mark :: w <:+: u ++ s ↔ mark :: w <:+: s := by
  induction u with
  | nil => rfl
  | cons c u ih =>
      have hc : ¬ mark :: w <+: c :: (u ++ s) := by
        rw [List.cons_prefix_cons]
        exact fun h => hu (h.1 ▸ List.mem_cons_self)
      rw [List.cons_append, List.infix_cons_iff, ih fun h => hu (List.mem_cons_of_mem c h)]
      simp [hc]

/-- **A name between marks is found in a row exactly if it is one of its names.** -/
theorem tagged_infix_marked {name : List α} (hname : mark ∉ name) : ∀ {names : List (List α)},
    (∀ n ∈ names, mark ∉ n) → (tagged mark name <:+: marked mark names ↔ name ∈ names)
  | [], _ => by
      simp only [List.not_mem_nil, iff_false]
      intro h
      have hlen := h.length_le
      simp [tagged] at hlen
  | other :: names, h => by
      have hother := h other List.mem_cons_self
      have ih := tagged_infix_marked hname fun n hn => h n (List.mem_cons_of_mem other hn)
      rw [marked_cons, List.infix_cons_iff, ← marked_cons, tagged_prefix_marked hname hother, tagged,
        List.cons_append, infix_append_of_notMem hother, ← List.cons_append, ← tagged, ih, List.mem_cons,
        eq_comm]

/-- A character other than the mark is found in a row exactly if a name has it. -/
theorem char_infix_marked {c : α} (hc : c ≠ mark) (names : List (List α)) :
    [c] <:+: marked mark names ↔ ∃ n ∈ names, c ∈ n := by
  rw [List.singleton_infix_iff]
  simp [marked, hc]

end Rows

/-! ## 2. Runs of the mark -/

section Run

/-- One character for every run of it. -/
def squeeze (c : Char) : List Char → List Char
  | [] => []
  | d :: s => if d = c ∧ s.head? = some c then squeeze c s else d :: squeeze c s

/-- `c[c]*`. -/
def run (c : Char) : Regex := .seq (lit c) (.seq (.star (lit c)) .empty)

theorem furthest_rounds (c : Char) : ∀ (n : Nat) (before : Option Char) (s : List Char), s.length ≤ n →
    (furthest (rounds (ends (lit c)) n ⟨before, s⟩)).map Place.rest = some (s.dropWhile (· = c))
  | 0, before, s, h => by
      rw [List.length_eq_zero_iff.1 (Nat.le_zero.1 h)]
      rfl
  | n + 1, before, [], _ => by
      have hnone : ends (lit c) ⟨before, []⟩ = [] := rfl
      simp [rounds, hnone, furthest]
  | n + 1, before, d :: s, h => by
      rw [rounds, ends_lit]
      by_cases hd : d = c
      · have ih := furthest_rounds c n (some d) s (by simpa using h)
        obtain ⟨q, hq, hrest⟩ := Option.map_eq_some_iff.1 ih
        have hlen : q.rest.length ≤ s.length := by
          rw [hrest]
          exact (List.dropWhile_suffix _).length_le
        rw [if_pos hd, List.flatMap_singleton, furthest, hq]
        dsimp only
        rw [if_neg (by simp only [List.length_cons]; omega), Option.map_some, hrest, hd]
        simp
      · rw [if_neg hd]
        simp [furthest, hd]

/-- The longest run is taken. -/
theorem longest_run (c : Char) (before : Option Char) (s : List Char) :
    (longest (run c) ⟨before, c :: s⟩).map Place.rest = some (s.dropWhile (· = c)) := by
  have hempty : ends (.seq (.star (lit c)) .empty) = ends (.star (lit c)) := by
    funext p
    rw [ends]
    simp [ends]
  rw [longest, run, ends, ends_lit, if_pos rfl, List.flatMap_singleton, hempty, ends]
  exact furthest_rounds c s.length (some c) s (Nat.le_refl _)

theorem longest_run_none {c d : Char} (hd : d ≠ c) (before : Option Char) (s : List Char) :
    longest (run c) ⟨before, d :: s⟩ = none := by
  rw [longest, run, ends, ends_lit, if_neg hd]
  rfl

theorem longest_run_nil (c : Char) (before : Option Char) : longest (run c) ⟨before, []⟩ = none := rfl

theorem squeeze_run (c : Char) : ∀ s : List Char, squeeze c (c :: s) = c :: squeeze c (s.dropWhile (· = c))
  | [] => by simp [squeeze]
  | d :: s => by
      rw [squeeze]
      by_cases hd : d = c
      · rw [if_pos ⟨rfl, by simp [hd]⟩, hd, squeeze_run c s]
        simp
      · rw [if_neg (by simp [hd])]
        simp [hd]

theorem gsubFrom_skip (r : Regex) (new : List Char) : ∀ (u : List Char) (touched : Bool)
    (before : Option Char) (s : List Char), u ≠ [] →
    ∃ before', gsubFrom r new u.length touched before (u ++ s) = gsubFrom r new 0 true before' s
  | [c], touched, before, s, _ => ⟨some c, by simp [gsubFrom]⟩
  | c :: d :: u, touched, before, s, _ => by
      obtain ⟨before', ih⟩ := gsubFrom_skip r new (d :: u) false (some c) s (List.cons_ne_nil _ _)
      refine ⟨before', ?_⟩
      rw [← ih]
      simp [gsubFrom]

/-- **Replacing runs by one character squeezes them.** -/
theorem gsub_run {c : Char} (hc : c ≠ '&' ∧ c ≠ '\\') (s : List Char) (touched : Bool)
    (before : Option Char) : gsubFrom (run c) [c] 0 touched before s = squeeze c s := by
  have hnew : ∀ matched, expand [c] matched = [c] :=
    fun matched => expand_of_plain (fun d hd => (List.mem_singleton.1 hd).symm ▸ hc) matched
  match s with
  | [] =>
      rw [gsubFrom, longest_run_nil, squeeze]
      split
      · rfl
      · rfl
  | d :: s =>
      by_cases hd : d = c
      · have hsplit : s.takeWhile (· = c) ++ s.dropWhile (· = c) = s := List.takeWhile_append_dropWhile
        have hshort : (s.dropWhile (· = c)).length ≤ s.length := (List.dropWhile_suffix _).length_le
        have hlen : (s.takeWhile (· = c)).length + (s.dropWhile (· = c)).length = s.length := by
          rw [← List.length_append, hsplit]
        obtain ⟨p, hp, hrest⟩ := Option.map_eq_some_iff.1 (longest_run c before s)
        have hcount : (c :: s).length - p.rest.length = (s.takeWhile (· = c)).length + 1 := by
          rw [hrest, List.length_cons]
          omega
        have hgo : ∃ touched' before', gsubFrom (run c) [c] (s.takeWhile (· = c)).length
            ((s.takeWhile (· = c)).length + 1 = 1) (some c) s =
            gsubFrom (run c) [c] 0 touched' before' (s.dropWhile (· = c)) := by
          by_cases hnil : s.takeWhile (· = c) = []
          · rw [hnil, List.nil_append] at hsplit
            exact ⟨true, some c, by rw [hnil, hsplit]; rfl⟩
          · obtain ⟨before', h⟩ := gsubFrom_skip (run c) [c] (s.takeWhile (· = c))
              ((s.takeWhile (· = c)).length + 1 = 1) (some c) (s.dropWhile (· = c)) hnil
            rw [hsplit] at h
            exact ⟨true, before', h⟩
        obtain ⟨touched', before', hgo⟩ := hgo
        have ih := gsub_run hc (s.dropWhile (· = c)) touched' before'
        rw [hd, gsubFrom, hp]
        dsimp only
        rw [hcount, if_neg (Nat.succ_ne_zero _), hnew, Nat.add_sub_cancel, hgo, ih, squeeze_run]
        rfl
      · have ih := gsub_run hc s false (some d)
        rw [gsubFrom, longest_run_none hd]
        dsimp only
        rw [ih, squeeze, if_neg fun h => hd h.1]
termination_by s.length

end Run

/-! ## 3. A row tidied, and a name taken out -/

section Change

variable {mark : Char}

theorem squeeze_append {u : List Char} (hu : mark ∉ u) (s : List Char) :
    squeeze mark (u ++ s) = u ++ squeeze mark s := by
  induction u with
  | nil => rfl
  | cons c u ih =>
      have hc : c ≠ mark := fun h => hu (h ▸ List.mem_cons_self)
      rw [List.cons_append, squeeze, if_neg fun h => hc h.1, ih fun h => hu (List.mem_cons_of_mem c h)]
      rfl

/-- **Tidied, a row has no empty names.** -/
theorem squeeze_marked : ∀ {names : List (List Char)}, (∀ n ∈ names, mark ∉ n) →
    squeeze mark (marked mark names) = marked mark (names.filter (· ≠ []))
  | [], _ => by simp [squeeze]
  | name :: names, h => by
      have hname := h name List.mem_cons_self
      have ih := squeeze_marked fun n hn => h n (List.mem_cons_of_mem name hn)
      cases name with
      | nil =>
          rw [marked_cons, List.nil_append, squeeze, if_pos ⟨rfl, rfl⟩, ih]
          simp
      | cons c name =>
          have hc : c ≠ mark := fun heq => hname (heq ▸ List.mem_cons_self)
          rw [marked_cons, squeeze, if_neg (by simp [hc]), squeeze_append hname, ih]
          simp [marked_cons]

/-- What comes first does not change how the rest is squeezed. -/
theorem squeeze_suffix (c : Char) : ∀ u s : List Char, ∃ u', squeeze c (u ++ s) = u' ++ squeeze c s
  | [], s => ⟨[], rfl⟩
  | d :: u, s => by
      obtain ⟨u', ih⟩ := squeeze_suffix c u s
      rw [List.cons_append, squeeze, ih]
      split
      · exact ⟨u', rfl⟩
      · exact ⟨d :: u', rfl⟩

/-- **A name between marks is still there in the squeezed text.** -/
theorem tagged_infix_squeeze {name text : List Char} (hname : mark ∉ name) (hne : name ≠ [])
    (h : tagged mark name <:+: text) : tagged mark name <:+: squeeze mark text := by
  obtain ⟨u, s, rfl⟩ := h
  obtain ⟨c, rest, rfl⟩ := List.exists_cons_of_ne_nil hne
  have hc : c ≠ mark := fun heq => hname (heq ▸ List.mem_cons_self)
  obtain ⟨u', hu⟩ := squeeze_suffix mark u (tagged mark (c :: rest) ++ s)
  have hsplit : tagged mark (c :: rest) ++ s = mark :: (c :: rest ++ mark :: s) := by simp [tagged]
  have hopen : squeeze mark (mark :: (c :: rest ++ mark :: s)) =
      mark :: squeeze mark (c :: rest ++ mark :: s) := by
    rw [squeeze, if_neg (by simp [hc])]
  refine ⟨u', squeeze mark (s.dropWhile (· = mark)), ?_⟩
  rw [List.append_assoc u, hu, hsplit, hopen, squeeze_append hname, squeeze_run]
  simp [tagged]

theorem replaceFrom_skip (w new : List Char) : ∀ (u s : List Char),
    replaceFrom w new u.length (u ++ s) = replaceFrom w new 0 s
  | [], _ => rfl
  | _ :: u, s => replaceFrom_skip w new u s

theorem replaceFrom_append {w new u : List Char} (hu : mark ∉ u) (s : List Char) :
    replaceFrom (mark :: w) new 0 (u ++ s) = u ++ replaceFrom (mark :: w) new 0 s := by
  induction u with
  | nil => rfl
  | cons c u ih =>
      have hpre : ¬ mark :: w <+: c :: (u ++ s) := by
        rw [List.cons_prefix_cons]
        exact fun h => hu (h.1 ▸ List.mem_cons_self)
      rw [List.cons_append, replaceFrom, if_neg hpre, ih fun h => hu (List.mem_cons_of_mem c h)]
      rfl

theorem replaceFrom_of_absent (w new : List Char) : ∀ s : List Char, ¬ w <:+: s →
    replaceFrom w new 0 s = s
  | [], _ => rfl
  | c :: s, h => by
      rw [List.infix_cons_iff, not_or] at h
      rw [replaceFrom, if_neg h.1, replaceFrom_of_absent w new s h.2]

/-- **A name replaced by a mark is taken out of the row.** -/
theorem replaceAll_marked {name : List Char} (hname : mark ∉ name) : ∀ {names : List (List Char)},
    (∀ n ∈ names, mark ∉ n) → names.Nodup →
    replaceAll (tagged mark name) [mark] (marked mark names) = marked mark (names.filter (· ≠ name))
  | [], h, _ => by
      have hout : ¬ tagged mark name <:+: marked mark [] := by
        rw [tagged_infix_marked hname h]
        exact List.not_mem_nil
      exact replaceFrom_of_absent _ _ _ hout
  | other :: names, h, hnodup => by
      have hother := h other List.mem_cons_self
      have htail : ∀ n ∈ names, mark ∉ n := fun n hn => h n (List.mem_cons_of_mem other hn)
      obtain ⟨hnotin, hnodup⟩ := List.nodup_cons.1 hnodup
      have hiff := tagged_prefix_marked hname hother names
      rw [marked_cons] at hiff ⊢
      rw [replaceAll, replaceFrom]
      by_cases heq : other = name
      · have hout : ¬ tagged mark name <:+: marked mark names := by
          rw [tagged_infix_marked hname htail, ← heq]
          exact hnotin
        have hkeep : names.filter (· ≠ name) = names := by
          refine List.filter_eq_self.2 fun n hn => decide_eq_true ?_
          intro hn'
          rw [hn', ← heq] at hn
          exact hnotin hn
        have hlen : (tagged mark name).length - 1 = (name ++ [mark]).length := by simp [tagged]
        have hrow : other ++ marked mark names = (name ++ [mark]) ++ names.flatMap (· ++ [mark]) := by
          simp [marked, heq]
        have hrest : ¬ tagged mark name <:+: names.flatMap (· ++ [mark]) := by
          intro hin
          exact hout (List.infix_cons_iff.2 (Or.inr hin))
        rw [if_pos (hiff.2 heq), hlen, hrow, replaceFrom_skip, replaceFrom_of_absent _ _ _ hrest,
          List.filter_cons_of_neg (by simpa using heq), hkeep]
        rfl
      · have ih := replaceAll_marked hname htail hnodup
        have hpass := @replaceFrom_append mark (name ++ [mark]) [mark] other hother (marked mark names)
        rw [if_neg fun hpre => heq (hiff.1 hpre), List.filter_cons_of_pos (by simpa using heq), marked_cons,
          ← ih]
        exact congrArg (mark :: ·) hpass

end Change

end YottaTest.Awk
