/-
  File:      YottaTest/Awk/Regex.lean
  Subject:   Extended regular expressions as awk reads and matches them.

  * `Regex`, `Place`, `ends`, `longest` -- expressions, and the longest match at a place;
  * `matchesText` -- the operator `~`;
  * `expand`, `gsub`, `subFirst` -- replacing every match, or the first one, with `&` for what was matched;
  * `ere` -- reading an expression;
  * `ere_literal`, `longest_word` -- an expression without metacharacters stands for itself;
  * `MatchesOnly`, `gsub_eq` -- where a pattern matches one word only, that word is replaced;
  * `anchored`, `gsub_anchored` -- a word between `^` and `$`, on a text that is the word.
-/
import YottaTest.Awk.Text

namespace YottaTest.Awk

/-! ## 1. Expressions and matches -/

inductive Regex where
  /-- the empty expression -/
  | empty
  /-- a character in one of the ranges, or in none of them -/
  | cls (neg : Bool) (ranges : List (Char × Char))
  /-- `^` -/
  | bol
  /-- `$` -/
  | eol
  /-- `\y`, and with `false` `\B` -/
  | edge (at_edge : Bool)
  | seq (a b : Regex)
  | alt (a b : Regex)
  | star (a : Regex)
  deriving DecidableEq, Repr

/-- A place in a text: the character before it, and what follows. -/
structure Place where
  before : Option Char
  rest : List Char
  deriving DecidableEq, Repr

def inRanges (ranges : List (Char × Char)) (c : Char) : Bool :=
  ranges.any fun range => range.1.toNat ≤ c.toNat && c.toNat ≤ range.2.toNat

def wordRanges : List (Char × Char) := [('a', 'z'), ('A', 'Z'), ('0', '9'), ('_', '_')]

def isWord : Option Char → Bool
  | some c => inRanges wordRanges c
  | none => false

/-- `p`, and the places that `n` rounds of `f` lead to from there. -/
def rounds (f : Place → List Place) : Nat → Place → List Place
  | 0, p => [p]
  | n + 1, p => p :: (f p).flatMap (rounds f n)

/-- Where the matches that begin at a place end. -/
def ends : Regex → Place → List Place
  | .empty, p => [p]
  | .cls neg ranges, p => match p.rest with
    | [] => []
    | c :: s => if inRanges ranges c = !neg then [⟨some c, s⟩] else []
  | .bol, p => if p.before = none then [p] else []
  | .eol, p => if p.rest = [] then [p] else []
  | .edge at_edge, p => if (isWord p.before != isWord p.rest.head?) = at_edge then [p] else []
  | .seq a b, p => (ends a p).flatMap (ends b)
  | .alt a b, p => ends a p ++ ends b p
  | .star a, p => rounds (ends a) p.rest.length p

/-- The end that leaves least of the text. -/
def furthest : List Place → Option Place
  | [] => none
  | p :: ps => match furthest ps with
    | none => some p
    | some q => if p.rest.length ≤ q.rest.length then some p else some q

/-- The end of the longest match at a place. -/
def longest (r : Regex) (p : Place) : Option Place := furthest (ends r p)

/-- A match somewhere from a place on. -/
def matchesFrom (r : Regex) (before : Option Char) : List Char → Bool
  | [] => (longest r ⟨before, []⟩).isSome
  | c :: s => (longest r ⟨before, c :: s⟩).isSome || matchesFrom r (some c) s

/-- `text ~ r`. -/
def matchesText (r : Regex) (text : List Char) : Bool := matchesFrom r none text

/-- A pattern that begins with `^` matches at the beginning or not at all. -/
theorem matchesFrom_bol (r : Regex) : ∀ (s : List Char) (c : Char),
    matchesFrom (.seq .bol r) (some c) s = false
  | [], _ => rfl
  | _ :: s, _ => by
      rw [matchesFrom, matchesFrom_bol r s, Bool.or_false]
      rfl

theorem matchesText_bol (r : Regex) (text : List Char) :
    matchesText (.seq .bol r) text = (longest (.seq .bol r) ⟨none, text⟩).isSome := by
  cases text with
  | nil => rfl
  | cons c s => rw [matchesText, matchesFrom, matchesFrom_bol, Bool.or_false]

/-! ## 2. Replacing -/

/-- The new text, with `&` for what was matched; `\&` is an ampersand and `\\` a backslash. -/
def expand (new matched : List Char) : List Char :=
  match new with
  | [] => []
  | '\\' :: '&' :: s => '&' :: expand s matched
  | '\\' :: '\\' :: s => '\\' :: expand s matched
  | '&' :: s => matched ++ expand s matched
  | c :: s => c :: expand s matched

/-- The replacement from a place on; `skip` characters belong to a match already replaced, and
    `touched` says that a match that was not empty ended here. -/
def gsubFrom (r : Regex) (new : List Char) : Nat → Bool → Option Char → List Char → List Char
  | 0, touched, before, [] =>
      if touched then [] else match longest r ⟨before, []⟩ with
        | some _ => expand new []
        | none => []
  | _ + 1, _, _, [] => []
  | skip + 1, _, _, c :: s => gsubFrom r new skip (skip = 0) (some c) s
  | 0, touched, before, c :: s =>
      match longest r ⟨before, c :: s⟩ with
      | none => c :: gsubFrom r new 0 false (some c) s
      | some p =>
          let len := (c :: s).length - p.rest.length
          if len = 0 then
            if touched then c :: gsubFrom r new 0 false (some c) s
            else expand new [] ++ c :: gsubFrom r new 0 false (some c) s
          else expand new ((c :: s).take len) ++ gsubFrom r new (len - 1) (len = 1) (some c) s

/-- `gsub(r,new,text)` and `gensub(r,new,"g",text)`: the text after it. -/
def gsub (r : Regex) (new text : List Char) : List Char := gsubFrom r new 0 false none text

/-- `gsub(r,new,text)`, its result: the number of replacements from a place on. -/
def gsubCountFrom (r : Regex) : Nat → Bool → Option Char → List Char → Nat
  | 0, touched, before, [] => if touched then 0 else if (longest r ⟨before, []⟩).isSome then 1 else 0
  | _ + 1, _, _, [] => 0
  | skip + 1, _, _, c :: s => gsubCountFrom r skip (skip = 0) (some c) s
  | 0, touched, before, c :: s =>
      match longest r ⟨before, c :: s⟩ with
      | none => gsubCountFrom r 0 false (some c) s
      | some p =>
          let len := (c :: s).length - p.rest.length
          if len = 0 then
            if touched then gsubCountFrom r 0 false (some c) s
            else gsubCountFrom r 0 false (some c) s + 1
          else gsubCountFrom r (len - 1) (len = 1) (some c) s + 1

def gsubCount (r : Regex) (text : List Char) : Nat := gsubCountFrom r 0 false none text

/-- The replacement of the first match from a place on. -/
def subFirstFrom (r : Regex) (new : List Char) (before : Option Char) : List Char → List Char
  | [] => if (longest r ⟨before, []⟩).isSome then expand new [] else []
  | c :: s =>
      match longest r ⟨before, c :: s⟩ with
      | none => c :: subFirstFrom r new (some c) s
      | some p => expand new ((c :: s).take ((c :: s).length - p.rest.length)) ++ p.rest

/-- `sub(r,new,text)`: the text after it. -/
def subFirst (r : Regex) (new text : List Char) : List Char := subFirstFrom r new none text

/-- Where nothing is replaced the text stays. -/
theorem gsubFrom_of_count {r : Regex} (new : List Char) : ∀ (s : List Char) {touched : Bool}
    {before : Option Char}, gsubCountFrom r 0 touched before s = 0 → gsubFrom r new 0 touched before s = s
  | [], touched, before, h => by
      unfold gsubCountFrom at h
      unfold gsubFrom
      cases touched with
      | true => rfl
      | false =>
          cases hlongest : longest r ⟨before, []⟩ with
          | none => rfl
          | some p =>
              rw [hlongest] at h
              cases h
  | c :: s, touched, before, h => by
      unfold gsubCountFrom at h
      unfold gsubFrom
      cases hlongest : longest r ⟨before, c :: s⟩ with
      | none =>
          rw [hlongest] at h
          exact congrArg (c :: ·) (gsubFrom_of_count new s h)
      | some p =>
          rw [hlongest] at h
          dsimp only at h ⊢
          split at h
          · rename_i hlen
            split at h
            · rename_i htouched
              rw [if_pos hlen, if_pos htouched]
              exact congrArg (c :: ·) (gsubFrom_of_count new s h)
            · cases h
          · cases h

theorem gsub_of_count {r : Regex} {new text : List Char} (h : gsubCount r text = 0) : gsub r new text = text :=
  gsubFrom_of_count new text h

/-! ## 3. Reading an expression -/

def lit (c : Char) : Regex := .cls false [(c, c)]

def anyChar : Regex := .cls true []

/-- `\c`. -/
def escaped (c : Char) : Regex :=
  match c with
  | 'y' => .edge true
  | 'B' => .edge false
  | 'w' => .cls false wordRanges
  | 'W' => .cls true wordRanges
  | 's' => .cls false [(' ', ' '), ('\t', '\r')]
  | 'S' => .cls true [(' ', ' '), ('\t', '\r')]
  | 't' => lit '\t'
  | 'n' => lit '\n'
  | c => lit c

/-- The members of a bracket expression up to its `]`; the first one may be `]`. -/
def bracket : Nat → Bool → List Char → Option (List (Char × Char) × List Char)
  | 0, _, _ => none
  | _, _, [] => none
  | fuel + 1, first, c :: s =>
      if c = ']' ∧ first = false then some ([], s)
      else match c, s with
        | '\\', d :: s => (bracket fuel false s).map fun p => ((d, d) :: p.1, p.2)
        | c, '-' :: d :: s' =>
            if d = ']' then (bracket fuel false s).map fun p => ((c, c) :: p.1, p.2)
            -- "Invalid range end"
            else if d.toNat < c.toNat then none
            else (bracket fuel false s').map fun p => ((c, d) :: p.1, p.2)
        | c, s => (bracket fuel false s).map fun p => ((c, c) :: p.1, p.2)

def times (a : Regex) : Nat → Regex
  | 0 => .empty
  | n + 1 => .seq a (times a n)

/-- Up to `n` times. -/
def atMost (a : Regex) : Nat → Regex
  | 0 => .empty
  | n + 1 => .alt .empty (.seq a (atMost a n))

def number (digits : List Char) : Nat := digits.foldl (fun n c => 10 * n + (c.toNat - 48)) 0

/-- The greatest number of times. -/
def dupMax : Nat := 32767

/-- `{n}`, `{n,}` or `{n,m}` after an expression; anything else does not start an interval. The bounds
    have to be in order and not too large (`some (none, _)` is the error). -/
def interval (a : Regex) (s : List Char) : Option (Option Regex × List Char) :=
  let low := s.takeWhile Char.isDigit
  if low = [] then none
  else match s.drop low.length with
    | '}' :: s => some (if number low ≤ dupMax then some (times a (number low)) else none, s)
    | ',' :: s =>
        let high := s.takeWhile Char.isDigit
        match s.drop high.length with
        | '}' :: s =>
            if high = [] then
              some (if number low ≤ dupMax then some (.seq (times a (number low)) (.star a)) else none, s)
            else
              some (if number low ≤ number high ∧ number high ≤ dupMax then
                some (.seq (times a (number low)) (atMost a (number high - number low))) else none, s)
        | _ => none
    | _ => none

/-- The operators after an expression; `none` where an interval is an error. -/
def postfixes : Nat → Regex → List Char → Option (Regex × List Char)
  | 0, a, s => some (a, s)
  | fuel + 1, a, s => match s with
    | '*' :: s => postfixes fuel (.star a) s
    | '+' :: s => postfixes fuel (.seq a (.star a)) s
    | '?' :: s => postfixes fuel (.alt a .empty) s
    | '{' :: t => match interval a t with
      | some (b, s) => b.bind fun b => postfixes fuel b s
      | none => some (a, s)
    | _ => some (a, s)

mutual

/-- Alternatives. -/
def readAlt : Nat → List Char → Option (Regex × List Char)
  | 0, _ => none
  | fuel + 1, s => match readSeq fuel s with
    | some (a, '|' :: s) => (readAlt fuel s).map fun p => (.alt a p.1, p.2)
    | some p => some p
    | none => none

/-- A sequence, up to `|` or `)`. -/
def readSeq : Nat → List Char → Option (Regex × List Char)
  | 0, _ => none
  | _, [] => some (.empty, [])
  | fuel + 1, c :: s =>
      if c = '|' ∨ c = ')' then some (.empty, c :: s)
      else
        let atom : Option (Regex × List Char) := match c, s with
          | '(', s => match readAlt fuel s with
            | some (a, ')' :: s) => some (a, s)
            | _ => none
          | '[', '^' :: s => (bracket (s.length + 1) true s).map fun p => (.cls true p.1, p.2)
          | '[', s => (bracket (s.length + 1) true s).map fun p => (.cls false p.1, p.2)
          | '\\', d :: s => some (escaped d, s)
          | '.', s => some (anyChar, s)
          | '^', s => some (.bol, s)
          | '$', s => some (.eol, s)
          | c, s => some (lit c, s)
        match atom with
        | some (a, s) => match postfixes s.length a s with
            | some (a, s) => (readSeq fuel s).map fun q => (.seq a q.1, q.2)
            | none => none
        | none => none

end

/-- The expression a text is read as; `none` where awk stops with an error. -/
def ere (text : List Char) : Option Regex :=
  match readAlt (2 * text.length + 2) text with
  | some (r, []) => some r
  | _ => none

example : (ere "^NO.*REP".toList).map (matchesText · "NON_REPLIC".toList) = some true := by decide
example : (ere "^NON?.?TP$".toList).map (matchesText · "NON_TPX".toList) = some false := by decide
example : ere "a{2,1}".toList = none ∧ ere "[b-a]".toList = none := by decide
example : (ere "mjl_[0-9][0-9]*(_[0-9]|[0-9])".toList).map
    (gsub · "J".toList "x.mjl_2020_1 closed".toList) = some "x.J closed".toList := by decide

/-! ## 4. Expressions without metacharacters -/

def metachars : List Char := ['\\', '^', '$', '.', '[', '|', '(', ')', '*', '+', '?', '{']

/-- The characters one after the other. -/
def word : List Char → Regex
  | [] => .empty
  | c :: s => .seq (lit c) (word s)

theorem postfixes_of_notMeta {c : Char} (hc : c ∉ metachars) (fuel : Nat) (a : Regex) (s : List Char) :
    postfixes fuel a (c :: s) = some (a, c :: s) := by
  cases fuel with
  | zero => rfl
  | succ fuel =>
      unfold postfixes
      split
      · rename_i heq
        cases heq
        exact absurd (by decide) hc
      · rename_i heq
        cases heq
        exact absurd (by decide) hc
      · rename_i heq
        cases heq
        exact absurd (by decide) hc
      · rename_i heq
        cases heq
        exact absurd (by decide) hc
      · rfl

theorem readSeq_cons_literal {c : Char} (hc : c ∉ metachars) {s : List Char}
    (hs : postfixes s.length (lit c) s = some (lit c, s)) (fuel : Nat) :
    readSeq (fuel + 1) (c :: s) = (readSeq fuel s).map fun q => (.seq (lit c) q.1, q.2) := by
  have hend : ¬ (c = '|' ∨ c = ')') := by
    intro hcase
    rcases hcase with heq | heq
    · exact hc (heq ▸ by decide)
    · exact hc (heq ▸ by decide)
  conv_lhs => unfold readSeq
  rw [if_neg hend]
  dsimp only
  split
  · rename_i heq
    split at heq
    all_goals first
      | exact absurd (by decide) hc
      | skip
    obtain ⟨rfl, rfl⟩ := Prod.mk.inj (Option.some.inj heq)
    rw [hs]
  · rename_i heq
    split at heq
    all_goals first
      | exact absurd (by decide) hc
      | cases heq

theorem readSeq_literal : ∀ (s : List Char) {fuel : Nat}, s.length < fuel → (∀ c ∈ s, c ∉ metachars) →
    readSeq fuel s = some (word s, [])
  | [], fuel, hfuel, _ => by
      cases fuel with
      | zero => exact absurd hfuel (Nat.not_lt_zero _)
      | succ fuel => rfl
  | c :: s, fuel, hfuel, h => by
      cases fuel with
      | zero => exact absurd hfuel (Nat.not_lt_zero _)
      | succ fuel =>
          have hrest : ∀ d ∈ s, d ∉ metachars := fun d hd => h d (List.mem_cons_of_mem c hd)
          have ih := @readSeq_literal s fuel (by simpa using hfuel) hrest
          have hpost : postfixes s.length (lit c) s = some (lit c, s) := by
            cases s with
            | nil => rfl
            | cons d s => exact postfixes_of_notMeta (hrest d List.mem_cons_self) _ _ _
          rw [readSeq_cons_literal (h c List.mem_cons_self) hpost, ih]
          rfl

/-- **Without metacharacters an expression is read as its characters.** -/
theorem ere_literal {s : List Char} (h : ∀ c ∈ s, c ∉ metachars) : ere s = some (word s) := by
  have hseq := @readSeq_literal s (2 * s.length + 1) (by omega) h
  unfold ere readAlt
  rw [hseq]

theorem inRanges_lit (c d : Char) : inRanges [(c, c)] d = true ↔ d = c := by
  unfold inRanges
  simp only [List.any_cons, List.any_nil, Bool.or_false, Bool.and_eq_true, decide_eq_true_eq]
  constructor
  · intro ⟨h1, h2⟩
    exact Char.toNat_inj.1 (Nat.le_antisymm h2 h1)
  · intro heq
    rw [heq]
    exact ⟨Nat.le_refl _, Nat.le_refl _⟩

theorem ends_lit (c d : Char) (before : Option Char) (s : List Char) :
    ends (lit c) ⟨before, d :: s⟩ = if d = c then [⟨some d, s⟩] else [] := by
  by_cases hd : d = c
  · rw [if_pos hd]
    exact if_pos ((inRanges_lit c d).2 hd)
  · rw [if_neg hd]
    exact if_neg fun h => hd ((inRanges_lit c d).1 h)

/-- **It is matched by its characters only.** -/
theorem ends_word : ∀ (w : List Char) (p : Place), ends (word w) p =
    if w <+: p.rest then [⟨(w.getLast?).or p.before, p.rest.drop w.length⟩] else []
  | [], p => by simp [word, ends]
  | c :: w, ⟨before, []⟩ => by simp [word, ends, lit]
  | c :: w, ⟨before, d :: s⟩ => by
      rw [word, ends, ends_lit]
      by_cases hd : d = c
      · have ih := ends_word w ⟨some c, s⟩
        have hlast : ((c :: w).getLast?).or before = (w.getLast?).or (some c) := by
          cases hw : w.getLast? with
          | none => simp [List.getLast?_eq_none_iff.1 hw]
          | some e => simp [List.getLast?_cons, hw]
        rw [if_pos hd, hd, hlast, List.flatMap_singleton, ih]
        simp [List.cons_prefix_cons]
      · have hpre : ¬ c :: w <+: d :: s := fun h => hd (List.cons_prefix_cons.1 h).1.symm
        rw [if_neg hd, if_neg hpre]
        rfl

theorem longest_word (w : List Char) (p : Place) : longest (word w) p =
    if w <+: p.rest then some ⟨(w.getLast?).or p.before, p.rest.drop w.length⟩ else none := by
  unfold longest
  rw [ends_word]
  split
  · rfl
  · rfl

/-! ## 5. A pattern that matches one word only -/

/-- Every `w` of a text replaced, from left to right; `skip` characters belong to one already replaced. -/
def replaceFrom (w new : List Char) : Nat → List Char → List Char
  | _, [] => []
  | skip + 1, _ :: s => replaceFrom w new skip s
  | 0, c :: s =>
      if w <+: c :: s then new ++ replaceFrom w new (w.length - 1) s else c :: replaceFrom w new 0 s

/-- Every `w` of a text replaced. -/
def replaceAll (w new text : List Char) : List Char := replaceFrom w new 0 text

/-- In this text the expression matches just where `w` stands, and that alone. -/
def MatchesOnly (r : Regex) (w text : List Char) : Prop :=
  ∀ pre s, text = pre ++ s → (longest r ⟨pre.getLast?, s⟩).map Place.rest =
    if w <+: s then some (s.drop w.length) else none

theorem matchesOnly_word (w text : List Char) : MatchesOnly (word w) w text := by
  intro pre s _
  rw [longest_word]
  split
  · rfl
  · rfl

theorem gsubFrom_eq {r : Regex} {w new text : List Char} (hw : w ≠ []) (h : MatchesOnly r w text) :
    ∀ (s pre : List Char) (skip : Nat) (touched : Bool), text = pre ++ s →
    gsubFrom r new skip touched pre.getLast? s = replaceFrom w (expand new w) skip s
  | [], pre, skip, touched, htext => by
      have hnone : longest r ⟨pre.getLast?, []⟩ = none := by
        have hat := h pre [] htext
        rw [if_neg fun hpre => hw (List.prefix_nil.1 hpre)] at hat
        exact Option.map_eq_none_iff.1 hat
      cases skip with
      | zero =>
          rw [gsubFrom, hnone, replaceFrom]
          split
          · rfl
          · rfl
      | succ skip => rfl
  | c :: s, pre, skip, touched, htext => by
      have hnext : text = (pre ++ [c]) ++ s := by rw [htext, List.append_assoc, List.singleton_append]
      have hlast : (pre ++ [c]).getLast? = some c := by simp
      cases skip with
      | succ skip =>
          rw [gsubFrom, replaceFrom, ← hlast, gsubFrom_eq hw h s (pre ++ [c]) skip _ hnext]
      | zero =>
          have hat := h pre (c :: s) htext
          rw [gsubFrom, replaceFrom]
          by_cases hpre : w <+: c :: s
          · rw [if_pos hpre] at hat
            obtain ⟨p, hp, hrest⟩ := Option.map_eq_some_iff.1 hat
            have hle := hpre.length_le
            have hpos : 0 < w.length := List.length_pos_iff.2 hw
            have hlen : (c :: s).length - p.rest.length = w.length := by
              rw [hrest, List.length_drop]
              omega
            have htake : (c :: s).take w.length = w := by
              obtain ⟨t, ht⟩ := hpre
              rw [← ht, List.take_left]
            rw [hp, if_pos hpre]
            dsimp only
            rw [hlen, if_neg (by omega), htake, ← hlast,
              gsubFrom_eq hw h s (pre ++ [c]) (w.length - 1) _ hnext]
          · rw [if_neg hpre] at hat
            rw [Option.map_eq_none_iff.1 hat, if_neg hpre]
            dsimp only
            rw [← hlast, gsubFrom_eq hw h s (pre ++ [c]) 0 _ hnext]

/-- **A pattern that matches one word only replaces that word.** -/
theorem gsub_eq {r : Regex} {w text : List Char} (hw : w ≠ []) (h : MatchesOnly r w text)
    (new : List Char) : gsub r new text = replaceAll w (expand new w) text :=
  gsubFrom_eq hw h text [] 0 false rfl

theorem expand_of_plain {new : List Char} (hnew : ∀ c ∈ new, c ≠ '&' ∧ c ≠ '\\') (matched : List Char) :
    expand new matched = new := by
  induction new with
  | nil => rfl
  | cons c s ih =>
      have hc := hnew c List.mem_cons_self
      have hs := ih fun d hd => hnew d (List.mem_cons_of_mem c hd)
      unfold expand
      split
      · rename_i heq
        cases heq
      · rename_i heq
        exact absurd (List.cons.inj heq).1 hc.2
      · rename_i heq
        exact absurd (List.cons.inj heq).1 hc.2
      · rename_i heq
        exact absurd (List.cons.inj heq).1 hc.1
      · rename_i heq
        obtain ⟨rfl, rfl⟩ := List.cons.inj heq
        rw [hs]

/-! ## 6. A whole text -/

/-- The characters one after the other, and then the end. -/
def wordEnd : List Char → Regex
  | [] => .seq .eol .empty
  | c :: s => .seq (lit c) (wordEnd s)

/-- `^w$` -/
def anchored (w : List Char) : List Char := '^' :: (w ++ ['$'])

theorem postfixes_before_end {w : List Char} (h : ∀ c ∈ w, c ∉ metachars) (fuel : Nat) (a : Regex) :
    postfixes fuel a (w ++ ['$']) = some (a, w ++ ['$']) := by
  cases w with
  | nil =>
      cases fuel with
      | zero => rfl
      | succ fuel => rfl
  | cons c w => exact postfixes_of_notMeta (h c List.mem_cons_self) _ _ _

theorem readSeq_wordEnd : ∀ (w : List Char) {fuel : Nat}, w.length + 1 < fuel → (∀ c ∈ w, c ∉ metachars) →
    readSeq fuel (w ++ ['$']) = some (wordEnd w, [])
  | [], fuel, hfuel, _ => by
      obtain ⟨n, rfl⟩ : ∃ n, fuel = n + 2 := ⟨fuel - 2, by simp at hfuel; omega⟩
      rfl
  | c :: w, fuel, hfuel, h => by
      obtain ⟨n, rfl⟩ : ∃ n, fuel = n + 1 := ⟨fuel - 1, by omega⟩
      have hrest : ∀ d ∈ w, d ∉ metachars := fun d hd => h d (List.mem_cons_of_mem c hd)
      have ih := @readSeq_wordEnd w n (by simpa using hfuel) hrest
      rw [List.cons_append, readSeq_cons_literal (h c List.mem_cons_self) (postfixes_before_end hrest _ _), ih]
      rfl

theorem ere_anchored {w : List Char} (h : ∀ c ∈ w, c ∉ metachars) :
    ere (anchored w) = some (.seq .bol (wordEnd w)) := by
  have hseq := @readSeq_wordEnd w (2 * (w.length + 2)) (by omega) h
  have hlen : (anchored w).length = w.length + 2 := by simp [anchored]
  have hread : readSeq (2 * (w.length + 2) + 1) (anchored w) = some (.seq .bol (wordEnd w), []) := by
    unfold anchored readSeq
    simp [postfixes_before_end h, hseq]
  unfold ere readAlt
  rw [hlen, hread]

theorem ends_wordEnd : ∀ (w : List Char) (before : Option Char),
    ends (wordEnd w) ⟨before, w⟩ = [⟨(w.getLast?).or before, []⟩]
  | [], before => rfl
  | c :: w, before => by
      have hlast : ((c :: w).getLast?).or before = (w.getLast?).or (some c) := by
        cases hw : w.getLast? with
        | none => simp [List.getLast?_eq_none_iff.1 hw]
        | some e => simp [List.getLast?_cons, hw]
      rw [wordEnd, ends, ends_lit, if_pos rfl, List.flatMap_singleton, ends_wordEnd w (some c), hlast]

/-- Nothing is left behind a match of everything. -/
theorem gsubFrom_rest (r : Regex) (new : List Char) : ∀ (s : List Char) (touched : Bool)
    (before : Option Char), (s = [] → touched = true) → gsubFrom r new s.length touched before s = []
  | [], touched, before, h => by
      rw [List.length_nil, gsubFrom, h rfl]
      rfl
  | c :: s, touched, before, _ => by
      rw [List.length_cons, gsubFrom]
      exact gsubFrom_rest r new s _ _ fun hs => by simp [hs]

/-- **`gsub("^" w "$",new,w)` puts the new text for all of `w`.** -/
theorem gsub_anchored {w : List Char} (hw : w ≠ []) (new : List Char) :
    gsub (.seq .bol (wordEnd w)) new w = expand new w := by
  obtain ⟨c, s, rfl⟩ := List.exists_cons_of_ne_nil hw
  have hlongest : longest (.seq .bol (wordEnd (c :: s))) ⟨none, c :: s⟩
      = some ⟨((c :: s).getLast?).or none, []⟩ := by
    unfold longest
    rw [ends, ends, if_pos rfl, List.flatMap_singleton, ends_wordEnd]
    rfl
  unfold gsub
  rw [gsubFrom, hlongest]
  dsimp only
  have hrest := gsubFrom_rest (.seq .bol (wordEnd (c :: s))) new s (decide ((c :: s).length = 1)) (some c)
    fun hs => by simp [hs]
  simp only [List.length_nil, Nat.sub_zero, List.take_length]
  rw [if_neg (by simp), List.length_cons, Nat.add_sub_cancel]
  rw [List.length_cons] at hrest
  rw [hrest, List.append_nil]

end YottaTest.Awk
