/-
  File:      YottaTest/Relink/Validity.lean
  Subject:   rctlupdate.m, the tests a ZRUPDATE pattern is refused by before anything is looked up.

  * `parsePattern` -- directory, name and extension, by the positions of the last "/" and the last ".";
  * `nameLoop`, `extLoop`, `validity` -- the two tests of setExpectations;
  * `Argument`, `parsePattern_text` -- a directory and a last component, and how they are parsed;
  * `Nameable`, `Typeable` -- that something the pattern matches is a routine's object file;
  * `validity_iff` -- **when the tests refuse exactly the patterns nothing can match.**
-/
import Mathlib.Tactic.Tauto
import YottaTest.Lib.Wildcards
import YottaTest.Relink.Canonicalize

namespace YottaTest.Relink

open YottaTest.Lib

/-! ## 1. The routines -/

structure Parse where
  dir : Text
  name : Text
  ext : Text
  deriving DecidableEq, Repr

/-- `for  set pos=$find(pattern,c,last) quit:(0=pos)  set last=pos`: the place behind the last `c`
    in the text, which begins at place `i`; `last` if there is none. -/
def lastFind (c : Char) : Text → Nat → Int → Int
  | [], _, last => last
  | x :: rest, i, last => lastFind c rest (i + 1) (if x = c then i + 1 else last)

/-- `$extract(s,first,last)` -/
def extract (s : Text) (first last : Int) : Text := (s.take last.toNat).drop (first.toNat - 1)

def parsePattern (pattern : Text) : Parse :=
  let length : Int := pattern.length
  let slashPos := lastFind '/' pattern 1 0
  -- from the slash on, or from the beginning
  let dotPos := lastFind '.' (extract pattern (slashPos - 1) length) (max 1 (slashPos - 1)).toNat
    (slashPos - 1)
  let dotPos := if slashPos - 1 = dotPos then length + 2 else dotPos
  { dir := extract pattern 0 (slashPos - 1)
    name := extract pattern slashPos (dotPos - 2)
    ext := extract pattern (dotPos - 1) length }

/-- `1A` and `1N` -/
def letter (c : Char) : Prop := c.isAlpha = true

def letterOrDigit (c : Char) : Prop := c.isAlpha = true ∨ c.isDigit = true

instance (c : Char) : Decidable (letter c) := by
  unfold letter
  infer_instance

instance (c : Char) : Decidable (letterOrDigit c) := by
  unfold letterOrDigit
  infer_instance

/-- `for i=1:1 set char=$extract(name,i) quit:(stop)!(""=char)  do …` -/
def nameLoop : Nat → Text → Bool
  | _, [] => false
  | i, char :: rest =>
      if (char ≠ '*' ∧ char ≠ '?') ∧
          ((i = 1 ∧ char ≠ '_' ∧ ¬ letter char) ∨ (i ≠ 1 ∧ ¬ letterOrDigit char)) then true
      else nameLoop (i + 1) rest

/-- `for i=2:1 set char=$extract(extension,i) quit:(stop)!(""=char)  do:("*"'=char)` -/
def extLoop : Text → Bool → Bool
  | [], _ => false
  | char :: rest, seenExt =>
      if char = '*' then extLoop rest seenExt
      else if seenExt ∨ (char ≠ 'o' ∧ char ≠ '?') then true
      else extLoop rest true

/-- The second line of the error; the first is "YDB-E-FILEPARSE, …" with the argument. -/
inductive Announced where
  /-- "YDB-I-TEXT, Filename is not a valid routine name" -/
  | badName
  /-- "YDB-I-TEXT, Unsupported filetype specified" -/
  | badType
  deriving DecidableEq, Repr

/-- `(processedArg["*")!(processedArg["?")` -/
def wildcarded (processedArg : Text) : Prop := ∃ c ∈ processedArg, wild c

instance (processedArg : Text) : Decidable (wildcarded processedArg) :=
  List.decidableBEx wild processedArg

/-- The first test: `stop` after the loop over the name, or for an empty name without wildcards. -/
def nameStop (processedArg : Text) : Bool :=
  let name := (parsePattern processedArg).name
  if name ≠ [] then nameLoop 1 name else ¬ wildcarded processedArg

/-- The second test, which begins behind the dot of the extension. -/
def typeStop (processedArg : Text) : Bool :=
  let extension := (parsePattern processedArg).ext
  if extension ≠ [] then extLoop (extension.drop 1) false else ¬ wildcarded processedArg

/-- setExpectations, from the expanded argument to the two tests. -/
def validity (processedArg : Text) : Option Announced :=
  if nameStop processedArg then some .badName
  else if typeStop processedArg then some .badType
  else none

/-! ## 2. The parts of a pattern -/

/-- A pattern: a directory, which ends with "/" if there is one, and the last component. -/
structure Argument where
  dir : Text
  component : Text
  slash : dir = [] ∨ ∃ d, dir = d ++ ['/']
  chars : ∀ c ∈ component, letterOrDigit c ∨ c ∈ ['_', '.', '*', '?']

def Argument.text (a : Argument) : Text := a.dir ++ a.component

theorem lastFind_of_notMem {c : Char} : ∀ {s : Text}, c ∉ s → ∀ (i : Nat) (last : Int),
    lastFind c s i last = last
  | [], _, _, _ => rfl
  | x :: s, h, i, last => by
      obtain ⟨hx, hs⟩ := not_or.1 fun h' => h (List.mem_cons.2 h')
      rw [lastFind, if_neg (Ne.symm hx), lastFind_of_notMem hs]

theorem lastFind_append (c : Char) : ∀ (s t : Text) (i : Nat) (last : Int),
    lastFind c (s ++ t) i last = lastFind c t (i + s.length) (lastFind c s i last)
  | [], _, _, _ => rfl
  | x :: s, t, i, last => by
      rw [List.cons_append, lastFind, lastFind_append c s t, lastFind, List.length_cons]
      congr 1
      omega

/-- The last of several is the one after which there is no more. -/
theorem lastFind_last {c : Char} (s : Text) {t : Text} (ht : c ∉ t) (i : Nat) (last : Int) :
    lastFind c (s ++ c :: t) i last = (i + s.length + 1 : Nat) := by
  rw [lastFind_append, lastFind, if_pos rfl, lastFind_of_notMem ht]
  rfl

namespace Argument

variable (a : Argument)

theorem slash_notMem : '/' ∉ a.component := by
  intro h
  rcases a.chars '/' h with h | h
  · exact absurd h (by decide)
  · exact absurd h (by decide)

/-- The place of the component: behind the directory. -/
def slashPos : Int := if a.dir = [] then 0 else (a.dir.length + 1 : Nat)

theorem slashPos_eq : lastFind '/' a.text 1 0 = a.slashPos := by
  unfold slashPos
  rcases a.slash with h | ⟨d, h⟩
  · rw [text, h, if_pos rfl, List.nil_append]
    exact lastFind_of_notMem a.slash_notMem 1 0
  · rw [text, h, if_neg (by simp), List.append_assoc, List.singleton_append,
      lastFind_last d a.slash_notMem, List.length_append, List.length_singleton]
    congr 1
    omega

theorem slashPos_toNat : a.slashPos.toNat - 1 = a.dir.length ∧
    (a.slashPos - 1).toNat = a.dir.length ∧ a.slashPos ≤ a.dir.length + 1 := by
  unfold slashPos
  by_cases h : a.dir = []
  · rw [if_pos h, h]
    exact ⟨rfl, rfl, by decide⟩
  · rw [if_neg h]
    refine ⟨?_, ?_, ?_⟩ <;> omega

/-- The part of the component that is taken out. -/
theorem extract_component (k : Nat) :
    extract a.text a.slashPos (a.dir.length + k : Nat) = a.component.take k := by
  rw [extract, text, a.slashPos_toNat.1, Int.toNat_natCast, List.take_length_add_append,
    List.drop_left]

theorem extract_dir : extract a.text 0 (a.slashPos - 1) = a.dir := by
  rw [extract, a.slashPos_toNat.2.1, text, List.take_left]
  rfl

theorem length_text : a.text.length = a.dir.length + a.component.length := List.length_append

/-- The rest of the pattern from a place in the component on. -/
theorem extract_rest (k : Nat) :
    extract a.text (a.dir.length + k + 1 : Nat) a.text.length = a.component.drop k := by
  rw [extract, Int.toNat_natCast, Int.toNat_natCast, List.take_length, text, Nat.add_sub_cancel,
    List.drop_length_add_append]

/-- The search for dots begins at the slash, or at the beginning; either way it is in the component. -/
theorem dotPos_eq (last : Int) :
    lastFind '.' (extract a.text (a.slashPos - 1) a.text.length) (max 1 (a.slashPos - 1)).toNat last =
      lastFind '.' a.component (a.dir.length + 1) last := by
  rcases a.slash with h | ⟨d, h⟩
  · have hzero : a.slashPos = 0 := if_pos h
    rw [hzero, extract, Int.toNat_natCast, List.take_length, text, h]
    rfl
  · have hpos : a.slashPos = (d.length + 2 : Nat) := by
      rw [slashPos, h, if_neg (by simp), List.length_append, List.length_singleton]
    have htext : a.text = d ++ '/' :: a.component := by rw [text, h]; simp
    have hplace : (max 1 ((d.length + 2 : Nat) - 1 : Int)).toNat = d.length + 1 := by omega
    have hdrop : ((d.length + 2 : Nat) - 1 : Int).toNat - 1 = d.length := by omega
    rw [hpos, hplace, extract, Int.toNat_natCast, List.take_length, hdrop, htext, List.drop_left,
      lastFind, if_neg (by decide), h, List.length_append]
    rfl

/-- **How a pattern without a dot is parsed**: the whole component is the name. -/
theorem parsePattern_nodot (h : '.' ∉ a.component) : parsePattern a.text = ⟨a.dir, a.component, []⟩ := by
  have hname := a.extract_component a.component.length
  have hext := a.extract_rest a.component.length
  rw [List.take_length] at hname
  rw [List.drop_length] at hext
  unfold parsePattern
  dsimp only
  rw [a.slashPos_eq, a.dotPos_eq, lastFind_of_notMem h, if_pos rfl, a.extract_dir]
  have hlast : (a.text.length + 2 - 2 : Int) = (a.dir.length + a.component.length : Nat) := by
    rw [← a.length_text]
    omega
  have hfirst : (a.text.length + 2 - 1 : Int) = (a.dir.length + a.component.length + 1 : Nat) := by
    rw [← a.length_text]
    omega
  rw [hlast, hname, hfirst, hext]

/-- **How a pattern with a dot is parsed**: the extension begins at the last one. -/
theorem parsePattern_dot {n e : Text} (h : a.component = n ++ '.' :: e) (he : '.' ∉ e) :
    parsePattern a.text = ⟨a.dir, n, '.' :: e⟩ := by
  have hname := a.extract_component n.length
  have hext := a.extract_rest n.length
  rw [h, List.take_left] at hname
  rw [h, List.drop_left] at hext
  have hpos := a.slashPos_toNat.2.2
  unfold parsePattern
  dsimp only
  rw [a.slashPos_eq, a.dotPos_eq, h, lastFind_last n he, if_neg (by omega), a.extract_dir]
  have hlast : ((a.dir.length + 1 + n.length + 1 : Nat) - 2 : Int) = (a.dir.length + n.length : Nat) := by
    omega
  have hfirst : ((a.dir.length + 1 + n.length + 1 : Nat) - 1 : Int) =
      (a.dir.length + n.length + 1 : Nat) := by
    omega
  rw [hlast, hname, hfirst, hext]

end Argument

/-! ## 3. What can be matched -/

/-- Within a component a wildcard stands for any character but "/". -/
def inComponent (c : Char) : Prop := c ≠ '/'

theorem inComponent_a : inComponent 'a' := by
  unfold inComponent
  decide

/-- The base name of an object file: "_" or a letter, then letters or digits. -/
def ValidName : Text → Prop
  | [] => False
  | c :: rest => (c = '_' ∨ letter c) ∧ ∀ d ∈ rest, letterOrDigit d

/-- The name matches a valid base name. -/
def Nameable (name : Text) : Prop := ∃ s, Matches inComponent name s ∧ ValidName s

/-- The component matches a string that ends in ".o". -/
def Typeable (component : Text) : Prop := ∃ s, Matches inComponent component (s ++ ['.', 'o'])

/-- A character that may stand behind the first one. -/
def Later (c : Char) : Prop := wild c ∨ letterOrDigit c

/-- A name that passes the first test, read as a whole. -/
def Plain : Text → Prop
  | [] => True
  | c :: rest => (wild c ∨ c = '_' ∨ letter c) ∧ ∀ d ∈ rest, Later d

/-- Stars, "_", and nothing else but letters, digits and wildcards. -/
def LateUnderscore (name : Text) : Prop :=
  ∃ k rest, name = List.replicate (k + 1) '*' ++ '_' :: rest ∧ ∀ d ∈ rest, Later d

/-- Letters and digits alone are matched. -/
theorem exists_later {p : Text} :
    (∃ s, Matches inComponent p s ∧ ∀ d ∈ s, letterOrDigit d) ↔ ∀ d ∈ p, Later d :=
  exists_matches_forall inComponent_a (by decide)

/-- A name that begins with a star: the star matches nothing, or the first characters. -/
theorem nameable_star {p : Text} : Nameable ('*' :: p) ↔ Nameable p ∨ ∀ d ∈ p, Later d := by
  rw [← exists_later]
  constructor
  · intro h
    obtain ⟨s, hs, hvalid⟩ := h
    obtain ⟨u, v, rfl, -, hv⟩ := matches_star.1 hs
    cases u with
    | nil => exact Or.inl ⟨v, hv, hvalid⟩
    | cons c u => exact Or.inr ⟨v, hv, fun d hd => hvalid.2 d (List.mem_append_right u hd)⟩
  · intro h
    rcases h with ⟨s, hs, hvalid⟩ | ⟨s, hs, hall⟩
    · exact ⟨s, .star [] (fun _ h => absurd h List.not_mem_nil) hs, hvalid⟩
    · refine ⟨['a'] ++ s, .star ['a'] ?_ hs, Or.inr (by decide), hall⟩
      intro c hc
      rw [List.mem_singleton.1 hc]
      exact inComponent_a

/-- A name that begins with another character. -/
theorem nameable_cons {c : Char} (hc : c ≠ '*') {p : Text} : Nameable (c :: p) ↔ Plain (c :: p) := by
  show _ ↔ (wild c ∨ c = '_' ∨ letter c) ∧ ∀ d ∈ p, Later d
  rw [← exists_later]
  constructor
  · intro h
    obtain ⟨s, hs, hvalid⟩ := h
    cases hs with
    | star => exact absurd rfl hc
    | one d _ hs => exact ⟨Or.inl (Or.inr rfl), _, hs, hvalid.2⟩
    | char _ hs => exact ⟨Or.inr hvalid.1, _, hs, hvalid.2⟩
  · intro h
    obtain ⟨hfirst, s, hs, hall⟩ := h
    by_cases hone : c = '?'
    · subst hone
      exact ⟨'a' :: s, .one 'a' inComponent_a hs, Or.inr (by decide), hall⟩
    · have hwild : ¬ wild c := not_or.2 ⟨hc, hone⟩
      exact ⟨c :: s, .char hwild hs, hfirst.resolve_left hwild, hall⟩

/-- A star in front of a name that passes the test. -/
theorem plain_star {p : Text} (h : Plain p) : Plain ('*' :: p) ∨ LateUnderscore ('*' :: p) := by
  cases p with
  | nil => exact Or.inl ⟨Or.inl (Or.inl rfl), fun _ h => absurd h List.not_mem_nil⟩
  | cons c p =>
      rcases h.1 with hc | rfl | hc
      · exact Or.inl ⟨Or.inl (Or.inl rfl), List.forall_mem_cons.2 ⟨Or.inl hc, h.2⟩⟩
      · exact Or.inr ⟨0, p, rfl, h.2⟩
      · exact Or.inl ⟨Or.inl (Or.inl rfl), List.forall_mem_cons.2 ⟨Or.inr (Or.inl hc), h.2⟩⟩

/-- **A name matches a valid base name iff it passes the test, or has stars in front of a "_"**; the
    empty name does not. -/
theorem nameable_iff : ∀ {name : Text}, Nameable name ↔ name ≠ [] ∧ (Plain name ∨ LateUnderscore name)
  | [] => by
      refine iff_of_false (fun h => ?_) fun h => h.1 rfl
      obtain ⟨s, hs, hvalid⟩ := h
      obtain rfl := matches_nil.1 hs
      exact hvalid
  | c :: p => by
      by_cases hc : c = '*'
      · subst hc
        rw [nameable_star, nameable_iff]
        constructor
        · intro h
          refine ⟨List.cons_ne_nil _ _, ?_⟩
          rcases h with ⟨-, h | ⟨k, rest, rfl, hrest⟩⟩ | h
          · exact plain_star h
          · exact Or.inr ⟨k + 1, rest, rfl, hrest⟩
          · exact Or.inl ⟨Or.inl (Or.inl rfl), h⟩
        · intro h
          rcases h.2 with h | ⟨k, rest, hstars, hrest⟩
          · exact Or.inr h.2
          · have hp : p = List.replicate k '*' ++ '_' :: rest := (List.cons.inj hstars).2
            refine Or.inl ⟨?_, ?_⟩
            · rw [hp]
              simp
            · cases k with
              | zero => exact Or.inl (hp ▸ ⟨Or.inr (Or.inl rfl), hrest⟩)
              | succ k => exact Or.inr ⟨k, rest, hp, hrest⟩
      · rw [nameable_cons hc]
        constructor
        · exact fun h => ⟨List.cons_ne_nil c p, Or.inl h⟩
        · intro h
          rcases h.2 with h | ⟨k, rest, hstars, -⟩
          · exact h
          · exact absurd (List.cons.inj hstars).1 hc

/-- The end of a component: a star, or "o" or "?" behind a star, a dot or "?". -/
def Ending (component : Text) : Prop :=
  match component.reverse with
  | [] => False
  | y :: front =>
      y = '*' ∨ (y = 'o' ∨ y = '?') ∧
        match front with
        | [] => False
        | x :: _ => x = '*' ∨ x = '?' ∨ x = '.'

/-- What a single character at the end of a pattern matches. -/
theorem matches_last {p : Text} {y : Char} {s : Text} {z : Char} (hy : y ≠ '*')
    (h : Matches inComponent (p ++ [y]) (s ++ [z])) :
    (y = '?' ∨ y = z) ∧ Matches inComponent p s := by
  obtain ⟨s₁, s₂, hs, h₁, h₂⟩ := matches_append.1 h
  have hone : ∃ d, s₂ = [d] ∧ (y = '?' ∨ y = d) := by
    cases h₂ with
    | star => exact absurd rfl hy
    | one d _ h => exact ⟨d, by rw [matches_nil.1 h], Or.inl rfl⟩
    | char _ h => exact ⟨y, by rw [matches_nil.1 h], Or.inr rfl⟩
  obtain ⟨d, rfl, hd⟩ := hone
  obtain ⟨rfl, hz⟩ := List.append_inj' hs rfl
  obtain rfl : z = d := List.head_eq_of_cons_eq hz
  exact ⟨hd, h₁⟩

/-- A character at the end of a pattern matches what it may. -/
theorem matches_snoc {p : Text} {y : Char} {s : Text} {z : Char} (hz : inComponent z)
    (h : y = '*' ∨ y = '?' ∨ y = z) (hp : Matches inComponent p s) :
    Matches inComponent (p ++ [y]) (s ++ [z]) := by
  refine matches_append.2 ⟨s, [z], rfl, hp, ?_⟩
  by_cases hstar : y = '*'
  · subst hstar
    exact .star [z] (fun c hc => List.mem_singleton.1 hc ▸ hz) .nil
  by_cases hone : y = '?'
  · subst hone
    exact .one z hz .nil
  obtain rfl := (h.resolve_left hstar).resolve_left hone
  exact .char (not_or.2 ⟨hstar, hone⟩) .nil

theorem ending_singleton {y : Char} : Ending [y] ↔ y = '*' := by
  simp [Ending]

theorem ending_concat {f : Text} {x y : Char} :
    Ending (f ++ [x] ++ [y]) ↔ y = '*' ∨ (y = 'o' ∨ y = '?') ∧ (x = '*' ∨ x = '?' ∨ x = '.') := by
  simp [Ending]

theorem inComponent_dot : inComponent '.' := by
  unfold inComponent
  decide

theorem inComponent_o : inComponent 'o' := by
  unfold inComponent
  decide

/-- **A component matches a string that ends in ".o" iff its own end does.** -/
theorem typeable_iff {component : Text} : Typeable component ↔ Ending component := by
  have hsplit : ∀ s : Text, s ++ ['.', 'o'] = (s ++ ['.']) ++ ['o'] := fun s => by simp
  rcases List.eq_nil_or_concat component with rfl | ⟨front, y, rfl⟩
  · refine iff_of_false (fun h => ?_) fun h => h
    obtain ⟨s, hs⟩ := h
    have := matches_nil.1 hs
    simp at this
  rw [List.concat_eq_append]
  have hstar : y = '*' → Typeable (front ++ [y]) := by
    intro hy
    subst hy
    obtain ⟨s, hs⟩ := exists_matches inComponent_a front
    refine ⟨s, matches_append.2 ⟨s, ['.', 'o'], rfl, hs, .star ['.', 'o'] ?_ .nil⟩⟩
    intro c hc
    rcases List.mem_cons.1 hc with rfl | hc
    · exact inComponent_dot
    · rw [List.mem_singleton.1 hc]
      exact inComponent_o
  rcases List.eq_nil_or_concat front with rfl | ⟨f, x, rfl⟩
  · rw [List.nil_append, ending_singleton]
    refine ⟨fun h => ?_, hstar⟩
    by_contra hy
    obtain ⟨s, hs⟩ := h
    rw [hsplit, ← List.nil_append [y]] at hs
    have := matches_nil.1 (matches_last hy hs).2
    simp at this
  · rw [List.concat_eq_append] at hstar ⊢
    rw [ending_concat]
    constructor
    · intro h
      by_cases hy : y = '*'
      · exact Or.inl hy
      · obtain ⟨s, hs⟩ := h
        rw [hsplit] at hs
        obtain ⟨hlast, hs⟩ := matches_last hy hs
        refine Or.inr ⟨hlast.symm, ?_⟩
        by_cases hx : x = '*'
        · exact Or.inl hx
        · exact Or.inr (matches_last hx hs).1
    · intro h
      rcases h with hy | ⟨hy, hx⟩
      · exact hstar hy
      · obtain ⟨s, hs⟩ := exists_matches inComponent_a f
        refine ⟨s, ?_⟩
        rw [hsplit]
        exact matches_snoc inComponent_o (Or.inr hy.symm) (matches_snoc inComponent_dot hx hs)

/-! ## 4. What the tests refuse -/

/-- Behind the first character. -/
theorem nameLoop_later : ∀ {rest : Text} {i : Nat}, 2 ≤ i →
    (nameLoop i rest = false ↔ ∀ d ∈ rest, Later d)
  | [], _, _ => iff_of_true rfl fun _ h => absurd h List.not_mem_nil
  | c :: rest, i, hi => by
      rw [nameLoop, List.forall_mem_cons]
      by_cases hc : Later c
      · have hno : ¬ ((c ≠ '*' ∧ c ≠ '?') ∧
            ((i = 1 ∧ c ≠ '_' ∧ ¬ letter c) ∨ (i ≠ 1 ∧ ¬ letterOrDigit c))) := by
          intro h
          rcases hc with (hc | hc) | hc
          · exact h.1.1 hc
          · exact h.1.2 hc
          · rcases h.2 with h | h
            · exact absurd h.1 (by omega)
            · exact h.2 hc
        rw [if_neg hno, nameLoop_later (by omega), and_iff_right hc]
      · have hyes : (c ≠ '*' ∧ c ≠ '?') ∧
            ((i = 1 ∧ c ≠ '_' ∧ ¬ letter c) ∨ (i ≠ 1 ∧ ¬ letterOrDigit c)) := by
          refine ⟨⟨fun h => hc (Or.inl (Or.inl h)), fun h => hc (Or.inl (Or.inr h))⟩, Or.inr ⟨by omega, ?_⟩⟩
          exact fun h => hc (Or.inr h)
        rw [if_pos hyes]
        exact iff_of_false (by decide) fun h => hc h.1

/-- The first test is passed by the names that `Plain` describes. -/
theorem nameLoop_eq_false : ∀ {name : Text}, nameLoop 1 name = false ↔ Plain name
  | [] => iff_of_true rfl trivial
  | c :: rest => by
      rw [nameLoop]
      show _ ↔ (wild c ∨ c = '_' ∨ letter c) ∧ ∀ d ∈ rest, Later d
      by_cases hc : wild c ∨ c = '_' ∨ letter c
      · have hno : ¬ ((c ≠ '*' ∧ c ≠ '?') ∧
            (((1 : Nat) = 1 ∧ c ≠ '_' ∧ ¬ letter c) ∨ ((1 : Nat) ≠ 1 ∧ ¬ letterOrDigit c))) := by
          intro h
          rcases h.2 with h' | h'
          · exact hc.elim (fun hw => hw.elim h.1.1 h.1.2) fun hc => hc.elim h'.2.1 h'.2.2
          · exact h'.1 rfl
        rw [if_neg hno, nameLoop_later (by decide), and_iff_right hc]
      · obtain ⟨hwild, hc'⟩ := not_or.1 hc
        have hyes : (c ≠ '*' ∧ c ≠ '?') ∧
            (((1 : Nat) = 1 ∧ c ≠ '_' ∧ ¬ letter c) ∨ ((1 : Nat) ≠ 1 ∧ ¬ letterOrDigit c)) :=
          ⟨not_or.1 hwild, Or.inl ⟨rfl, not_or.1 hc'⟩⟩
        rw [if_pos hyes]
        exact iff_of_false (by decide) fun h => hc h.1

/-- An extension with another character than one "o" or "?", stars apart. -/
def OtherType (e : Text) : Prop := (e.filter fun c => c ≠ '*') ∉ [[], ['o'], ['?']]

theorem extLoop_seen : ∀ e : Text, extLoop e true = true ↔ (e.filter fun c => c ≠ '*') ≠ []
  | [] => by simp [extLoop]
  | c :: e => by
      by_cases hc : c = '*'
      · rw [extLoop, if_pos hc, extLoop_seen e]
        simp [hc]
      · rw [extLoop, if_neg hc]
        simp [hc]

theorem extLoop_iff : ∀ e : Text, extLoop e false = true ↔ OtherType e
  | [] => by simp [extLoop, OtherType]
  | c :: e => by
      by_cases hc : c = '*'
      · rw [extLoop, if_pos hc, extLoop_iff e]
        simp [OtherType, hc]
      · rw [extLoop, if_neg hc]
        have hfilter : ((c :: e).filter fun c => c ≠ '*') = c :: e.filter fun c => c ≠ '*' := by
          simp [hc]
        rw [OtherType, hfilter]
        by_cases ho : c = 'o' ∨ c = '?'
        · rw [if_neg (by tauto), extLoop_seen]
          rcases ho with rfl | rfl <;> simp
        · rw [if_pos (by tauto)]
          simp only [List.mem_cons, List.cons_ne_nil, List.cons.injEq, List.not_mem_nil, or_false,
            false_or]
          tauto

/-- An extension that is not empty and not of another type is one that a ".o" can end in. -/
theorem ending_of_type {n e : Text} (he : e ≠ []) (h : ¬ OtherType e) : Ending (n ++ '.' :: e) := by
  rcases List.eq_nil_or_concat e with rfl | ⟨f, y, rfl⟩
  · exact absurd rfl he
  rw [List.concat_eq_append] at h ⊢
  -- what the extension has in front of its last character, stars apart
  have hfilter : y = '*' ∨ (y = 'o' ∨ y = '?') ∧ ∀ c ∈ f, c = '*' := by
    by_cases hy : y = '*'
    · exact Or.inl hy
    · have hsplit : ((f ++ [y]).filter fun c => c ≠ '*') = (f.filter fun c => c ≠ '*') ++ [y] := by
        rw [List.filter_append]
        simp [hy]
      have hmem : (f.filter fun c => c ≠ '*') ++ [y] ∈ [[], ['o'], ['?']] := by
        rw [← hsplit]
        exact not_not.1 h
      have hone : (f.filter fun c => c ≠ '*') = [] ∧ (y = 'o' ∨ y = '?') := by
        simp only [List.mem_cons, List.append_eq_nil_iff, List.cons_ne_nil, and_false, false_or,
          List.append_eq_singleton_iff, List.cons.injEq, and_true, List.not_mem_nil, or_false] at hmem
        tauto
      refine Or.inr ⟨hone.2, fun c hc => ?_⟩
      by_contra hne
      have := List.filter_eq_nil_iff.1 hone.1 c hc
      exact this (by simpa using hne)
  have hconcat : n ++ '.' :: (f ++ [y]) = (n ++ '.' :: f) ++ [y] := by simp
  rw [hconcat]
  rcases List.eq_nil_or_concat f with rfl | ⟨g, x, rfl⟩
  · rw [ending_concat]
    exact hfilter.imp_right fun h => ⟨h.1, Or.inr (Or.inr rfl)⟩
  · rw [List.concat_eq_append] at hfilter ⊢
    have hconcat' : n ++ '.' :: (g ++ [x]) = (n ++ '.' :: g) ++ [x] := by simp
    rw [hconcat', ending_concat]
    exact hfilter.imp_right fun h => ⟨h.1, Or.inl (h.2 x (by simp))⟩

theorem not_ending_dot (n : Text) : ¬ Ending (n ++ ['.']) := by
  simp [Ending]

/-- Without a dot and without a wildcard there is no such end. -/
theorem wild_of_ending {component : Text} (hdot : '.' ∉ component) (h : Ending component) :
    ∃ c ∈ component, wild c := by
  rcases List.eq_nil_or_concat component with rfl | ⟨front, y, rfl⟩
  · exact absurd h (by simp [Ending])
  rw [List.concat_eq_append] at h hdot ⊢
  rcases List.eq_nil_or_concat front with rfl | ⟨f, x, rfl⟩
  · exact ⟨y, by simp, Or.inl (ending_singleton.1 h)⟩
  · rw [List.concat_eq_append] at h hdot ⊢
    rcases ending_concat.1 h with hy | ⟨-, hx | hx | hx⟩
    · exact ⟨y, by simp, Or.inl hy⟩
    · exact ⟨x, by simp, Or.inl hx⟩
    · exact ⟨x, by simp, Or.inr hx⟩
    · exact absurd (show '.' ∈ f ++ [x] ++ [y] by simp [hx]) hdot

/-- A text with a dot, parted at its last one. -/
theorem exists_last_dot {s : Text} (h : '.' ∈ s) : ∃ n e, s = n ++ '.' :: e ∧ '.' ∉ e := by
  obtain ⟨a, b, hs, ha⟩ := List.eq_append_cons_of_mem (List.mem_reverse.2 h)
  refine ⟨b.reverse, a.reverse, ?_, fun h => ha (List.mem_reverse.1 h)⟩
  rw [← List.reverse_reverse s, hs]
  simp

/-- The tests refuse an argument exactly when nothing can match it. -/
structure Exact (a : Argument) : Prop where
  name : validity a.text = some .badName ↔ ¬ Nameable (parsePattern a.text).name
  type : validity a.text ≠ some .badName →
    (validity a.text = some .badType ↔ ¬ Typeable a.component)

/-- The arguments the tests are right about, by what stands where in them. -/
structure Covered (a : Argument) : Prop where
  underscore : ¬ LateUnderscore (parsePattern a.text).name
  empty : (parsePattern a.text).name = [] → ¬ wildcarded a.text
  dotless : (parsePattern a.text).name ≠ [] → Plain (parsePattern a.text).name →
    '.' ∉ a.component → wildcarded a.text → Ending a.component
  dot : (parsePattern a.text).name ≠ [] → Plain (parsePattern a.text).name →
    (parsePattern a.text).ext ≠ ['.'] ∧
      (OtherType ((parsePattern a.text).ext.drop 1) → ¬ Ending a.component)

section Tests

variable (processedArg : Text)

/-- The first test, by the parsed name. -/
theorem nameStop_iff : nameStop processedArg = true ↔
    (parsePattern processedArg).name ≠ [] ∧ ¬ Plain (parsePattern processedArg).name ∨
      (parsePattern processedArg).name = [] ∧ ¬ wildcarded processedArg := by
  unfold nameStop
  dsimp only
  by_cases hname : (parsePattern processedArg).name = []
  · rw [if_neg (not_not.2 hname), decide_eq_true_iff]
    tauto
  · rw [if_pos hname, ← nameLoop_eq_false, Bool.not_eq_false]
    tauto

/-- The second test, by the parsed extension. -/
theorem typeStop_iff : typeStop processedArg = true ↔
    (parsePattern processedArg).ext ≠ [] ∧ OtherType ((parsePattern processedArg).ext.drop 1) ∨
      (parsePattern processedArg).ext = [] ∧ ¬ wildcarded processedArg := by
  unfold typeStop
  dsimp only
  by_cases hext : (parsePattern processedArg).ext = []
  · rw [if_neg (not_not.2 hext), decide_eq_true_iff]
    tauto
  · rw [if_pos hext, extLoop_iff]
    tauto

theorem validity_badName : validity processedArg = some .badName ↔ nameStop processedArg = true := by
  unfold validity
  by_cases h : nameStop processedArg = true
  · rw [if_pos h]
    exact iff_of_true rfl h
  · rw [if_neg h]
    refine iff_of_false ?_ h
    split <;> simp

theorem validity_badType (h : validity processedArg ≠ some .badName) :
    validity processedArg = some .badType ↔ typeStop processedArg = true := by
  have hname : ¬ nameStop processedArg = true := fun h' => h ((validity_badName _).2 h')
  unfold validity
  rw [if_neg hname]
  by_cases htype : typeStop processedArg = true
  · rw [if_pos htype]
    exact iff_of_true rfl htype
  · rw [if_neg htype]
    exact iff_of_false (by simp) htype

end Tests

theorem not_plain_of_late {name : Text} (h : LateUnderscore name) : ¬ Plain name := by
  obtain ⟨k, rest, rfl, -⟩ := h
  intro hplain
  have hlater : Later '_' := by
    refine hplain.2 '_' ?_
    simp
  exact absurd hlater (by unfold Later; decide)

/-- The first test is right about a name that is not empty, unless stars stand in front of a "_", and
    about an empty name, unless there is a wildcard elsewhere. -/
theorem name_exact (a : Argument) :
    (validity a.text = some .badName ↔ ¬ Nameable (parsePattern a.text).name) ↔
      ¬ LateUnderscore (parsePattern a.text).name ∧
        ((parsePattern a.text).name = [] → ¬ wildcarded a.text) := by
  rw [validity_badName, nameStop_iff, nameable_iff]
  have hlate : LateUnderscore (parsePattern a.text).name → ¬ Plain (parsePattern a.text).name :=
    not_plain_of_late
  have hempty : (parsePattern a.text).name = [] → ¬ LateUnderscore (parsePattern a.text).name := by
    intro h hl
    obtain ⟨k, rest, hname, -⟩ := hl
    rw [h] at hname
    simp at hname
  tauto

/-- The second test, about a component without a dot. -/
theorem type_exact_dotless (a : Argument) (hdot : '.' ∉ a.component) :
    (typeStop a.text = true ↔ ¬ Typeable a.component) ↔
      (wildcarded a.text → Ending a.component) := by
  have hwild : Ending a.component → wildcarded a.text := by
    intro h
    obtain ⟨c, hc, hw⟩ := wild_of_ending hdot h
    exact ⟨c, List.mem_append_right _ hc, hw⟩
  have hext : (parsePattern a.text).ext = [] := by rw [a.parsePattern_nodot hdot]
  rw [typeStop_iff, typeable_iff]
  tauto

/-- The second test, about a component with a dot. -/
theorem type_exact_dot (a : Argument) (hdot : '.' ∈ a.component) :
    (typeStop a.text = true ↔ ¬ Typeable a.component) ↔
      (parsePattern a.text).ext ≠ ['.'] ∧
        (OtherType ((parsePattern a.text).ext.drop 1) → ¬ Ending a.component) := by
  obtain ⟨n, e, hcomponent, he⟩ := exists_last_dot hdot
  have hext : (parsePattern a.text).ext = '.' :: e := by rw [a.parsePattern_dot hcomponent he]
  rw [typeStop_iff, typeable_iff, hext]
  show ('.' :: e ≠ [] ∧ OtherType e ∨ '.' :: e = [] ∧ _ ↔ _) ↔ _ ∧ (OtherType e → _)
  have hcons : '.' :: e ≠ [] := List.cons_ne_nil _ _
  by_cases hnil : e = []
  · subst hnil
    have hother : ¬ OtherType [] := by simp [OtherType]
    have hend : ¬ Ending a.component := hcomponent ▸ not_ending_dot n
    tauto
  · have hne : '.' :: e ≠ ['.'] := fun h => hnil (List.cons.inj h).2
    have htype : ¬ OtherType e → Ending a.component := fun h => hcomponent ▸ ending_of_type hnil h
    tauto

/-- **The tests refuse exactly what nothing can match iff the argument is covered.** -/
theorem validity_iff (a : Argument) : Exact a ↔ Covered a := by
  have hname := name_exact a
  have hpass : ((parsePattern a.text).name = [] → ¬ wildcarded a.text) →
      (validity a.text ≠ some .badName ↔
        (parsePattern a.text).name ≠ [] ∧ Plain (parsePattern a.text).name) := by
    intro hempty
    rw [ne_eq, validity_badName, nameStop_iff]
    tauto
  constructor
  · intro h
    obtain ⟨hlate, hempty⟩ := hname.1 h.name
    refine ⟨hlate, hempty, fun h₁ h₂ hdot => ?_, fun h₁ h₂ => ?_⟩
    · have hpassed := (hpass hempty).2 ⟨h₁, h₂⟩
      have htype := h.type hpassed
      rw [validity_badType _ hpassed] at htype
      exact (type_exact_dotless a hdot).1 htype
    · have hpassed := (hpass hempty).2 ⟨h₁, h₂⟩
      have htype := h.type hpassed
      rw [validity_badType _ hpassed] at htype
      by_cases hdot : '.' ∈ a.component
      · exact (type_exact_dot a hdot).1 htype
      · rw [a.parsePattern_nodot hdot]
        exact ⟨by simp, fun h => absurd h (by simp [OtherType])⟩
  · intro h
    refine ⟨hname.2 ⟨h.underscore, h.empty⟩, fun hpassed => ?_⟩
    obtain ⟨h₁, h₂⟩ := (hpass h.empty).1 hpassed
    rw [validity_badType _ hpassed]
    by_cases hdot : '.' ∈ a.component
    · exact (type_exact_dot a hdot).2 (h.dot h₁ h₂)
    · exact (type_exact_dotless a hdot).2 (h.dotless h₁ h₂ hdot)

/-- "*_a.o" -/
def starUnderscore : Argument where
  dir := []
  component := ['*', '_', 'a', '.', 'o']
  slash := Or.inl rfl
  chars := by
    have hchars : (['*', '_', 'a', '.', 'o'].all fun c =>
        letterOrDigit c ∨ c ∈ ['_', '.', '*', '?']) = true := by decide
    exact fun c hc => of_decide_eq_true (List.all_eq_true.1 hchars c hc)

/-- The string "_a.o" is matched, and the pattern is refused for the "_" behind the star. -/
theorem underscore_behind_star : ¬ ∀ a : Argument, Exact a := by
  intro h
  have hrefused : validity starUnderscore.text = some .badName := by decide
  have hmatched : Nameable (parsePattern starUnderscore.text).name := by
    refine ⟨['_', 'a'], ?_, Or.inl rfl, fun d hd => ?_⟩
    · exact .star [] (fun _ h => absurd h List.not_mem_nil)
        (.char (by decide) (.char (by decide) .nil))
    · rw [List.mem_singleton.1 hd]
      decide
  exact (h starUnderscore).name.1 hrefused hmatched

end YottaTest.Relink
