/-
  File:      YottaTest/Umjrnl/Split.lean
  Subject:   umjrnl.m, SPLIT: a record's node and its value, divided at the "=" between them.

  The routine goes from one "=" to the next, and stops at the first one with an even number of
  quotes before it. In the text of a reference every quote in a string is doubled, so that number is
  odd just inside the strings. No caller passes `subs`, the array for the subscripts.

  * `find`, `turn`, `loop`, `split` -- the routine;
  * `split_eq` -- **the text is divided at the first "=" outside of strings, which is where the replay
    divides it**;
  * `Part`, `GlobalRef` -- the text of a global reference;
  * `split_reference` -- **the reference and the value come back.**
-/
import YottaTest.Umjrnl.Replay

namespace YottaTest.Umjrnl

open YottaTest.Lib YottaTest.M

/-! ## 1. The routine -/

def equals : MChar := .chr 61

/-- `$c(34)` -/
def quote : MChar := .chr 34

/-- `$find(X,ch,ptr)`: the position behind the first `ch` from position `ptr` on, or 0. -/
def find (X : MStr) (ch : MChar) (ptr : Nat) : Nat :=
  if ch ∈ X.drop (ptr - 1) then (ptr - 1) + (X.drop (ptr - 1)).idxOf ch + 2 else 0

/-- One round of the loop: it goes on from a position, or has an answer. -/
inductive Round where
  | more (ptr : Nat)
  | found (p1 p2 : MStr)
  | none

def turn (X : MStr) (ptr : Nat) : Round :=
  let ptr := find X equals ptr
  if ptr = 0 then .none
  else
    let p1 := extract X 1 (ptr - 2)
    if (numPieces quote p1 - 1) % 2 ≠ 0 then .more ptr
    else .found p1 (extract X ptr 99999)

theorem find_bounds {X : MStr} {ch : MChar} {ptr : Nat} (h : find X ch ptr ≠ 0) :
    ptr < find X ch ptr ∧ find X ch ptr ≤ X.length + 1 := by
  unfold find at h ⊢
  split at h
  · rename_i hmem
    have hidx := List.idxOf_lt_length_of_mem hmem
    rw [List.length_drop] at hidx
    rw [if_pos hmem]
    omega
  · exact absurd rfl h

theorem turn_more {X : MStr} {ptr next : Nat} (h : turn X ptr = .more next) :
    ptr < next ∧ next ≤ X.length + 1 := by
  unfold turn at h
  dsimp only at h
  split at h
  · cases h
  · rename_i hptr
    split at h
    · obtain rfl := Round.more.inj h
      exact find_bounds hptr
    · cases h

/-- `for  d  quit:'ptr`: the answer, if `eq` is 1 behind it. -/
def loop (X : MStr) (ptr : Nat) : Option (MStr × MStr) :=
  match _h : turn X ptr with
  | .none => none
  | .found p1 p2 => some (p1, p2)
  | .more next => loop X next
termination_by X.length + 1 - ptr
decreasing_by
  have hnext := turn_more _h
  omega

/-- `SPLIT(X,.p1,.p2)` -/
def split (X : MStr) : MStr × MStr :=
  if equals ∉ X then (X, []) else (loop X 0).getD (X, [])

/-! ## 2. The first "=" outside of strings -/

/-- Quotes open and close in turn. -/
def inString (t : MStr) : Bool := t.count quote % 2 = 1

theorem inString_append_equals (t : MStr) : inString (t ++ [equals]) = inString t := by
  have hcount : [equals].count quote = 0 := by decide
  unfold inString
  rw [List.count_append, hcount, Nat.add_zero]

theorem inString_append_cons (t s : MStr) (c : MChar) :
    inString (t ++ c :: s) = inString ((t ++ [c]) ++ s) := by
  rw [List.append_assoc, List.singleton_append]

theorem inString_push (t : MStr) (c : MChar) :
    inString (t ++ [c]) = if c = quote then !inString t else inString t := by
  unfold inString
  rw [List.count_append]
  by_cases hc : c = quote
  · rw [if_pos hc, hc, List.count_singleton_self]
    by_cases hodd : t.count quote % 2 = 1
    · have heven : ¬ (t.count quote + 1) % 2 = 1 := by omega
      simp [hodd, heven]
    · have hodd' : (t.count quote + 1) % 2 = 1 := by omega
      simp [hodd, hodd']
  · have hnone : [c].count quote = 0 :=
      List.count_eq_zero.2 fun h => hc (List.mem_singleton.1 h).symm
    rw [if_neg hc, hnone, Nat.add_zero]

/-- Text without "=" is passed over. -/
theorem beforeEq_append {w : MStr} (hw : equals ∉ w) (t s : MStr) :
    beforeEq (inString t) (w ++ s) = (beforeEq (inString (t ++ w)) s).map (w ++ ·) := by
  induction w generalizing t with
  | nil =>
      rw [List.append_nil]
      cases h : beforeEq (inString t) s <;> simp [h]
  | cons c w ih =>
      have hc : ¬ (c = .chr 61 ∧ inString t = false) := fun h =>
        hw (List.mem_cons.2 (Or.inl h.1.symm))
      have ih' := ih (fun h => hw (List.mem_cons_of_mem c h)) (t ++ [c])
      rw [inString_append_cons, List.cons_append, beforeEq, if_neg hc]
      rw [inString_push] at ih'
      rw [show (if c = MChar.chr 34 then !inString t else inString t)
        = if c = quote then !inString t else inString t from rfl, ih', Option.map_map]
      rfl

theorem beforeEq_none {t s : MStr} (hs : equals ∉ s) : beforeEq (inString t) s = none := by
  have h := beforeEq_append hs t []
  rw [List.append_nil] at h
  rw [h]
  rfl

theorem find_eq_zero {X : MStr} {ptr : Nat} (h : equals ∉ X.drop (ptr - 1)) : find X equals ptr = 0 :=
  if_neg h

theorem find_append {u w v : MStr} (hw : equals ∉ w) :
    find (u ++ (w ++ equals :: v)) equals (u.length + 1) = u.length + w.length + 2 := by
  unfold find
  rw [Nat.add_sub_cancel, List.drop_left, if_pos (List.mem_append_right _ List.mem_cons_self),
    List.idxOf_append_of_notMem hw, List.idxOf_cons_self]
  omega

/-- From the start it makes no difference whether the search begins at 0 or at 1. -/
theorem loop_zero (X : MStr) : loop X 0 = loop X 1 := by
  have hturn : turn X 0 = turn X 1 := rfl
  rw [loop, loop, hturn]

theorem turn_none {u v : MStr} (hv : equals ∉ v) : turn (u ++ v) (u.length + 1) = .none := by
  have hfind : find (u ++ v) equals (u.length + 1) = 0 :=
    find_eq_zero (by rwa [Nat.add_sub_cancel, List.drop_left])
  unfold turn
  simp only [hfind, if_true]

/-- A round that comes to an "=". -/
theorem turn_append {u w v : MStr} (hw : equals ∉ w) :
    turn (u ++ (w ++ equals :: v)) (u.length + 1) =
      if inString (u ++ w) then .more ((u ++ w ++ [equals]).length + 1)
      else .found (u ++ w) (extract (u ++ (w ++ equals :: v)) ((u ++ w).length + 2) 99999) := by
  have hp1 : extract (u ++ (w ++ equals :: v)) 1 (u.length + w.length + 2 - 2) = u ++ w := by
    have hlen : u.length + w.length + 2 - 2 = (u ++ w).length := by
      rw [List.length_append]
      rfl
    unfold extract
    rw [hlen, ← List.append_assoc, List.take_left]
    rfl
  unfold turn
  simp only [find_append hw, hp1]
  rw [if_neg (by omega)]
  unfold inString numPieces
  rw [Nat.add_sub_cancel]
  by_cases hodd : (u ++ w).count quote % 2 = 1
  · rw [if_pos (by omega), if_pos (decide_eq_true hodd)]
    simp only [List.length_append, List.length_singleton]
  · rw [if_neg (by omega), if_neg (by simpa using hodd), List.length_append]

/-- Behind `u` the loop finds the first "=" outside of strings. -/
theorem loop_eq (u v : MStr) : loop (u ++ v) (u.length + 1) =
    (beforeEq (inString u) v).map fun p =>
      (u ++ p, extract (u ++ v) ((u ++ p).length + 2) 99999) := by
  by_cases hv : equals ∈ v
  · obtain ⟨w, v', rfl, hw⟩ := List.eq_append_cons_of_mem hv
    rw [loop, turn_append hw, beforeEq_append hw, beforeEq, Option.map_map]
    by_cases hs : inString (u ++ w) = true
    · -- an "=" in a string: the next round is behind it
      have ih := loop_eq (u ++ w ++ [equals]) v'
      have hassoc : u ++ w ++ [equals] ++ v' = u ++ (w ++ equals :: v') := by simp
      rw [inString_append_equals, hassoc] at ih
      have hne : ¬ (equals = MChar.chr 61 ∧ inString (u ++ w) = false) := by simp [hs]
      have hquote : ¬ equals = MChar.chr 34 := by decide
      rw [if_pos hs, if_neg hne, if_neg hquote]
      simp only
      rw [ih, Option.map_map]
      congr 1
      funext p
      simp
    · have hf : inString (u ++ w) = false := by simpa using hs
      rw [if_neg hs, if_pos ⟨rfl, hf⟩]
      simp
  · rw [loop, turn_none hv, beforeEq_none hv]
    rfl
termination_by v.length
decreasing_by
  subst_vars
  simp
  omega

/-- **The text is divided at the first "=" outside of strings.** -/
theorem split_eq (X : MStr) : split X =
    match beforeEq false X with
    | some p => (p, extract X (p.length + 2) 99999)
    | none => (X, []) := by
  have hloop := loop_eq [] X
  rw [List.nil_append, List.length_nil, show inString [] = false from rfl] at hloop
  unfold split
  rw [loop_zero, hloop]
  by_cases hX : equals ∈ X
  · rw [if_neg (not_not_intro hX)]
    cases beforeEq false X with
    | none => rfl
    | some p => rfl
  · have hnone := beforeEq_none (t := []) hX
    rw [show inString [] = false from rfl] at hnone
    rw [if_pos hX, hnone]

/-- What the replay takes as the node is the first part. -/
theorem split_fst (data : MStr) : (split data).1 = splitVar data := by
  rw [split_eq, splitVar]
  cases beforeEq false data with
  | none => rfl
  | some p => rfl

/-! ## 3. Texts of references -/

/-- A piece of a reference: code, such as a number or a `$C(10)`, or a string between quotes. -/
inductive Part where
  | code (t : MStr) (no_equals : equals ∉ t) (no_quote : quote ∉ t)
  | string (s : MStr)

/-- A string with its quotes doubled. -/
def doubled (s : MStr) : MStr := s.flatMap fun c => if c = quote then [quote, quote] else [c]

def Part.text : Part → MStr
  | .code t _ _ => t
  | .string s => quote :: (doubled s ++ [quote])

/-- The pieces of a subscript are joined by "_". -/
def subText (parts : List Part) : MStr := (lit "_").intercalate (parts.map Part.text)

/-- A global: the environment it is in, if one is named, its name and its subscripts. -/
structure GlobalRef where
  environment : Option MStr
  name : MStr
  name_no_equals : equals ∉ name
  name_no_quote : quote ∉ name
  subs : List (List Part)

/-- `^|"gld"|name(sub,sub)` -/
def GlobalRef.text (r : GlobalRef) : MStr :=
  lit "^" ++ (match r.environment with
    | some gld => lit "|" ++ (Part.string gld).text ++ lit "|"
    | none => []) ++ r.name ++
  if r.subs = [] then [] else lit "(" ++ (lit ",").intercalate (r.subs.map subText) ++ lit ")"

/-- Read from outside of strings, the text has no "=" outside of them and ends outside. -/
def Closed (t : MStr) : Prop := ∀ s, beforeEq false (t ++ s) = (beforeEq false s).map (t ++ ·)

theorem Closed.nil : Closed [] := fun s => by
  cases h : beforeEq false s <;> simp [h]

theorem Closed.append {t t' : MStr} (h : Closed t) (h' : Closed t') : Closed (t ++ t') := by
  intro s
  rw [List.append_assoc, h, h', Option.map_map]
  simp [Function.comp_def]

theorem closed_code {t : MStr} (he : equals ∉ t) (hq : quote ∉ t) : Closed t := by
  intro s
  have h := beforeEq_append he [] s
  have hcount : inString ([] ++ t) = false := by
    unfold inString
    rw [List.nil_append, List.count_eq_zero.2 hq]
    rfl
  rw [hcount] at h
  exact h

theorem beforeEq_quote (inStr : Bool) (s : MStr) :
    beforeEq inStr (quote :: s) = (beforeEq (!inStr) s).map (quote :: ·) := by
  have hne : ¬ (quote = MChar.chr 61 ∧ inStr = false) := fun h => absurd h.1 (by decide)
  have hq : quote = MChar.chr 34 := rfl
  rw [beforeEq, if_neg hne, if_pos hq]

/-- Inside a string, up to its last quote. -/
theorem beforeEq_doubled (s rest : MStr) :
    beforeEq true (doubled s ++ quote :: rest) =
      (beforeEq false rest).map (doubled s ++ quote :: ·) := by
  induction s with
  | nil => simp [doubled, beforeEq, quote]
  | cons c s ih =>
      have hcons : doubled (c :: s) = (if c = quote then [quote, quote] else [c]) ++ doubled s := rfl
      rw [hcons]
      by_cases hc : c = quote
      · -- a doubled quote leaves the string and enters it again
        rw [if_pos hc]
        simp only [List.cons_append, List.nil_append]
        rw [beforeEq_quote, Bool.not_true, beforeEq_quote, Bool.not_false, ih, Option.map_map,
          Option.map_map]
        rfl
      · rw [if_neg hc]
        simp only [List.cons_append, List.nil_append]
        have hne : ¬ c = MChar.chr 34 := hc
        rw [beforeEq, if_neg (by simp), if_neg hne, ih, Option.map_map]
        rfl

theorem closed_string (s : MStr) : Closed (Part.string s).text := by
  intro rest
  have hassoc : (Part.string s).text ++ rest = quote :: (doubled s ++ quote :: rest) := by
    simp [Part.text]
  rw [hassoc, beforeEq_quote, Bool.not_false, beforeEq_doubled, Option.map_map]
  cases beforeEq false rest <;> simp [Part.text]

theorem closed_part (p : Part) : Closed p.text := by
  cases p with
  | code t he hq => exact closed_code he hq
  | string s => exact closed_string s

theorem closed_intercalate {sep : MStr} (hsep : Closed sep) : ∀ {ts : List MStr},
    (∀ t ∈ ts, Closed t) → Closed (sep.intercalate ts)
  | [], _ => Closed.nil
  | [t], h => by
      rw [List.intercalate_singleton]
      exact h t List.mem_cons_self
  | t :: t' :: ts, h => by
      have ih := closed_intercalate hsep fun x hx => h x (List.mem_cons_of_mem t hx)
      rw [List.intercalate_cons_cons]
      exact ((h t List.mem_cons_self).append hsep).append ih

theorem closed_subText (parts : List Part) : Closed (subText parts) := by
  refine closed_intercalate (closed_code (by decide) (by decide)) fun t ht => ?_
  obtain ⟨p, -, rfl⟩ := List.mem_map.1 ht
  exact closed_part p

theorem GlobalRef.closed (r : GlobalRef) : Closed r.text := by
  have hcode : ∀ w ∈ [lit "^", lit "|", lit "(", lit ")", lit ","], Closed w := by
    intro w hw
    have hfree : equals ∉ w ∧ quote ∉ w := by
      revert hw
      revert w
      decide
    exact closed_code hfree.1 hfree.2
  have hsubs : Closed ((lit ",").intercalate (r.subs.map subText)) := by
    refine closed_intercalate (hcode _ (by decide)) fun t ht => ?_
    obtain ⟨parts, -, rfl⟩ := List.mem_map.1 ht
    exact closed_subText parts
  unfold GlobalRef.text
  refine (((hcode _ (by decide)).append ?_).append (closed_code r.name_no_equals r.name_no_quote)).append ?_
  · cases r.environment with
    | none => exact Closed.nil
    | some gld => exact ((hcode _ (by decide)).append (closed_string gld)).append (hcode _ (by decide))
  · by_cases hs : r.subs = []
    · rw [if_pos hs]
      exact Closed.nil
    · rw [if_neg hs]
      exact ((hcode _ (by decide)).append hsubs).append (hcode _ (by decide))

/-! ## 4. The result -/

/-- The first "=" outside of strings is the one behind the reference. -/
theorem GlobalRef.beforeEq_text (r : GlobalRef) (value : MStr) :
    beforeEq false (r.text ++ equals :: value) = some r.text := by
  rw [r.closed, beforeEq, if_pos ⟨rfl, rfl⟩]
  simp

/-- The reference and the value of a record come back from its text. -/
theorem split_reference (r : GlobalRef) (value : MStr)
    (hlen : (r.text ++ equals :: value).length ≤ 99999) :
    split (r.text ++ equals :: value) = (r.text, value) := by
  rw [split_eq, r.beforeEq_text]
  have hvalue : extract (r.text ++ equals :: value) (r.text.length + 2) 99999 = value := by
    have hdrop : (r.text ++ equals :: value).drop (r.text.length + 1) = value := by
      rw [← List.drop_drop, List.drop_left]
      rfl
    unfold extract
    rw [List.take_of_length_le hlen]
    exact hdrop
  simp only [hvalue]

/-- `^a("x=""y")="b=c"` -/
theorem split_reference_quoted :
    split (lit "^a(\"x=\"\"y\")=\"b=c\"") = (lit "^a(\"x=\"\"y\")", lit "\"b=c\"") :=
  split_reference ⟨none, lit "a", by decide, by decide, [[.string (lit "x=\"y")]]⟩ (lit "\"b=c\"") (by decide)

end YottaTest.Umjrnl
