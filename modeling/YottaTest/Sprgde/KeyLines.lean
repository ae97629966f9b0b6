/-
  File:      YottaTest/Sprgde/KeyLines.lean
  Subject:   gensprgde.m, extractkey: the whole entry of the gvkey array for a line.

  Beside the name and the subscripts (`extractkey` of Extractkey.lean) the routine keeps their number
  and the text of the key, which ends where the loop over the characters ended.

  * `loop`, `gvkey` -- the loop with the place it ends at, and the entry made from it;
  * `Part`, `ZwrSubs` -- what ZWRITE writes for a subscript: numbers, strings, lists of codes;
  * `Passed` -- texts that the loop reads to their end;
  * `KeyLine`, `gvkey_text` -- **the entry of a line is its name, subscripts, number and key.**
-/
import YottaTest.Sprgde.Extractkey

namespace YottaTest.Sprgde

/-! ## 1. The entry of a line -/

/-- The loop over the characters, with the place `i` it ends at. -/
def loop (line : Text) : Text → Nat → Scan → Scan × Nat
  | [], i, s => (s, i)
  | c :: rest, i, s =>
      if c = '"' then
        loop line rest (i + 1) { s with quotestate := if s.quotestate = 1 then 2 else 1 }
      else
        let s := { s with quotestate := if s.quotestate = 2 then 0 else s.quotestate }
        if s.quotestate ≠ 0 then loop line rest (i + 1) s
        else if c = '=' then (s, i)
        else loop line rest (i + 1) (scanChar line i c s)

/-- `gvkey(linenum)`, `gvkey(linenum,0)`, `gvkey(linenum,1)` and so on, and `gvkey(linenum,"KEY")`. -/
structure GvKey where
  nsubs : Nat
  gblname : Text
  subs : List Text
  key : Text
  deriving DecidableEq, Repr

/-- The state before the first character. -/
def Scan.start : Scan := ⟨0, 0, 0, [], []⟩

def gvkey (line : Text) : GvKey :=
  let (s, i) := loop line line 1 .start
  { nsubs := s.subs.length
    gblname := if s.subs.length = 0 then [] else s.gblname
    subs := s.subs
    key := ze line 1 (i - 1) }

/-- The place where the loop ends depends on the quotes alone. -/
def stop : Text → Nat → Nat → Nat
  | [], _, i => i
  | c :: rest, q, i =>
      if c = '"' then stop rest (if q = 1 then 2 else 1) (i + 1)
      else if (if q = 2 then 0 else q) ≠ 0 then stop rest q (i + 1)
      else if c = '=' then i
      else stop rest 0 (i + 1)

theorem scanChar_quotestate (line : Text) (i : Nat) (c : Char) (s : Scan) :
    (scanChar line i c s).quotestate = s.quotestate := by
  unfold scanChar
  split
  · split <;> rfl
  · split
    · split <;> rfl
    · split
      · split <;> rfl
      · rfl

theorem loop_eq (line : Text) : ∀ (rest : Text) (i : Nat) (s : Scan),
    loop line rest i s = (scan line rest i s, stop rest s.quotestate i)
  | [], _, _ => rfl
  | c :: rest, i, s => by
      rw [loop, scan, stop]
      by_cases hc : c = '"'
      · rw [if_pos hc, if_pos hc, if_pos hc]
        exact loop_eq line rest _ _
      · rw [if_neg hc, if_neg hc, if_neg hc]
        dsimp only
        by_cases hq : (if s.quotestate = 2 then 0 else s.quotestate) ≠ 0
        · have hkeep : (if s.quotestate = 2 then 0 else s.quotestate) = s.quotestate := by
            by_cases h2 : s.quotestate = 2
            · rw [if_pos h2] at hq
              exact absurd rfl hq
            · rw [if_neg h2]
          rw [if_pos hq, if_pos hq, if_pos hq, hkeep]
          exact loop_eq line rest _ _
        · rw [if_neg hq, if_neg hq, if_neg hq]
          by_cases he : c = '='
          · rw [if_pos he, if_pos he, if_pos he]
          · rw [if_neg he, if_neg he, if_neg he, loop_eq line rest, scanChar_quotestate,
              not_not.1 hq]

/-- The loop ends, at the latest one place behind the line. -/
theorem stop_le : ∀ (rest : Text) (q i : Nat), stop rest q i ≤ i + rest.length
  | [], _, _ => Nat.le_refl _
  | c :: rest, q, i => by
      have h := fun q' => stop_le rest q' (i + 1)
      rw [stop, List.length_cons]
      by_cases hc : c = '"'
      · rw [if_pos hc]
        have := h (if q = 1 then 2 else 1)
        omega
      · rw [if_neg hc]
        by_cases hq : (if q = 2 then 0 else q) ≠ 0
        · rw [if_pos hq]
          have := h q
          omega
        · rw [if_neg hq]
          by_cases he : c = '='
          · rw [if_pos he]
            omega
          · rw [if_neg he]
            have := h 0
            omega

/-! ## 2. What ZWRITE writes for a subscript -/

/-- One part of a subscript: plain text such as a number, a string with its quotes doubled, or a
    function of a list of codes. -/
inductive Part where
  | number (t : Text) (plain : ∀ c ∈ t, c ∉ special)
  | string (s : Text)
  | codes (function : Text) (plain : ∀ c ∈ function, c ∉ special) (list : Text)
      (separated : ∀ c ∈ list, c = ',' ∨ c ∉ special)

/-- The characters of a string, each quote twice. -/
def doubled : Text → Text
  | [] => []
  | c :: s => if c = '"' then '"' :: '"' :: doubled s else c :: doubled s

def Part.text : Part → Text
  | number t _ => t
  | string s => '"' :: (doubled s ++ ['"'])
  | codes function _ list _ => function ++ '(' :: (list ++ [')'])

/-- Parts with `_` between them. -/
def concatenated : List Part → Text
  | [] => []
  | [p] => p.text
  | p :: ps => p.text ++ '_' :: concatenated ps

theorem Subscript.append {t u : Text} (ht : Subscript t) (hu : Subscript u) : Subscript (t ++ u) := by
  induction ht with
  | nil => exact hu
  | plain hc _ ih => exact .plain hc ih
  | quoted hs _ ih =>
      rw [List.cons_append, List.append_assoc, List.cons_append]
      exact .quoted hs ih
  | codes hs _ ih =>
      rw [List.cons_append, List.append_assoc, List.cons_append]
      exact .codes hs ih

/-- A string with doubled quotes is a row of strings without quotes. -/
theorem subscript_doubled : ∀ (s p : Text), '"' ∉ p → Subscript ('"' :: (p ++ (doubled s ++ ['"'])))
  | [], p, hp => .quoted hp .nil
  | c :: s, p, hp => by
      rw [doubled]
      by_cases hc : c = '"'
      · rw [if_pos hc]
        exact .quoted hp (subscript_doubled s [] List.not_mem_nil)
      · have hnot : '"' ∉ p ++ [c] := by
          rw [List.mem_append, List.mem_singleton]
          exact not_or.2 ⟨hp, Ne.symm hc⟩
        have h := subscript_doubled s (p ++ [c]) hnot
        rw [if_neg hc, List.cons_append]
        rwa [List.append_assoc, List.singleton_append] at h

theorem Part.subscript : ∀ p : Part, Subscript p.text
  | number _ plain => subscript_of_plain plain
  | string s => subscript_doubled s [] List.not_mem_nil
  | codes _ plain _ separated => (subscript_of_plain plain).append (.codes separated .nil)

theorem subscript_concatenated : ∀ ps : List Part, Subscript (concatenated ps)
  | [] => .nil
  | [p] => p.subscript
  | p :: q :: ps => p.subscript.append (.plain (by decide) (subscript_concatenated (q :: ps)))

/-! ## 3. The end of the key -/

/-- Outside strings the loop reads the text to its end and is outside strings again. -/
def Passed (t : Text) : Prop :=
  ∀ (rest : Text) (q i : Nat), q = 0 ∨ q = 2 →
    ∃ q', (q' = 0 ∨ q' = 2) ∧ stop (t ++ rest) q i = stop rest q' (i + t.length)

theorem Passed.nil : Passed [] := fun _ q _ hq => ⟨q, hq, rfl⟩

theorem Passed.append {t u : Text} (ht : Passed t) (hu : Passed u) : Passed (t ++ u) := by
  intro rest q i hq
  obtain ⟨q₁, hq₁, h₁⟩ := ht (u ++ rest) q i hq
  obtain ⟨q₂, hq₂, h₂⟩ := hu rest q₁ (i + t.length) hq₁
  refine ⟨q₂, hq₂, ?_⟩
  rw [List.append_assoc, h₁, h₂, List.length_append, Nat.add_assoc]

theorem Passed.char {c : Char} (hquote : c ≠ '"') (heq : c ≠ '=') : Passed [c] := by
  intro rest q i hq
  refine ⟨0, Or.inl rfl, ?_⟩
  have hzero : (if q = 2 then 0 else q) = 0 := by
    rcases hq with rfl | rfl <;> rfl
  rw [List.singleton_append, stop, if_neg hquote, hzero, if_neg (by simp), if_neg heq]
  rfl

theorem passed_of_forall : ∀ {t : Text}, (∀ c ∈ t, c ≠ '"' ∧ c ≠ '=') → Passed t
  | [], _ => .nil
  | _ :: _, h =>
      (Passed.char (h _ List.mem_cons_self).1 (h _ List.mem_cons_self).2).append
        (passed_of_forall fun d hd => h d (List.mem_cons_of_mem _ hd))

theorem stop_inside {rest : Text} : ∀ {s : Text} {i : Nat}, '"' ∉ s →
    stop (s ++ '"' :: rest) 1 i = stop rest 2 (i + s.length + 1)
  | [], _, _ => rfl
  | c :: s, i, hs => by
      obtain ⟨hc, hs⟩ := not_or.1 fun h => hs (List.mem_cons.2 h)
      rw [List.cons_append, stop, if_neg (Ne.symm hc), if_pos (by decide), stop_inside hs,
        List.length_cons]
      congr 1
      omega

theorem Passed.quoted {s : Text} (hs : '"' ∉ s) : Passed ('"' :: (s ++ ['"'])) := by
  intro rest q i hq
  refine ⟨2, Or.inr rfl, ?_⟩
  have hopen : (if q = 1 then 2 else 1) = 1 := by
    rcases hq with rfl | rfl <;> rfl
  rw [List.cons_append, stop, if_pos rfl, hopen, List.append_assoc, List.singleton_append,
    stop_inside hs, List.length_cons, List.length_append]
  congr 1
  simp only [List.length_singleton]
  omega

theorem Subscript.passed {t : Text} (ht : Subscript t) : Passed t := by
  induction ht with
  | nil => exact .nil
  | plain hc _ ih => exact (Passed.char (not_special hc).1 (not_special hc).2.2.2.2).append ih
  | @quoted s t hs _ ih =>
      have h := (Passed.quoted hs).append ih
      rwa [List.cons_append, List.append_assoc, List.singleton_append] at h
  | @codes s t hs _ ih =>
      have hlist : Passed ('(' :: (s ++ [')'])) := by
        refine passed_of_forall fun c hc => ?_
        rcases List.mem_cons.1 hc with rfl | hc
        · decide
        · rcases List.mem_append.1 hc with hc | hc
          · rcases hs c hc with rfl | hplain
            · decide
            · exact ⟨(not_special hplain).1, (not_special hplain).2.2.2.2⟩
          · obtain rfl := List.mem_singleton.1 hc
            decide
      have h := hlist.append ih
      rwa [List.cons_append, List.append_assoc, List.singleton_append] at h

theorem passed_subsText : ∀ {ts : List Text}, (∀ t ∈ ts, Subscript t) → Passed (subsText ts)
  | [], _ => .nil
  | [t], h => ((h t (by simp)).passed).append (Passed.char (by decide) (by decide))
  | t :: u :: ts, h => by
      obtain ⟨ht, hts⟩ := List.forall_mem_cons.1 h
      exact ht.passed.append ((Passed.char (c := ',') (by decide) (by decide)).append
        (passed_subsText hts))

/-- Where the key ends: in front of the value, or at the end of the line. -/
theorem stop_valueText (value : Option Text) {q : Nat} (i : Nat) (hq : q = 0 ∨ q = 2) :
    stop (valueText value) q i = i := by
  cases value with
  | none => rfl
  | some v => rcases hq with rfl | rfl <;> rfl

/-! ## 4. The lines of an extract -/

/-- A line: the name of the global, its subscripts as ZWRITE writes them, and the value if there is
    one (there is none in the answer of `$query`). -/
structure KeyLine where
  gblname : Text
  plain : ∀ c ∈ gblname, c ∉ special
  subs : List (List Part)
  value : Option Text

namespace KeyLine

variable (l : KeyLine)

/-- The texts of the subscripts. -/
def texts : List Text := l.subs.map concatenated

/-- The key in the line. -/
def key : Text :=
  '^' :: (l.gblname ++ if l.subs = [] then [] else '(' :: subsText l.texts)

/-- The line. -/
def text : Text := l.key ++ valueText l.value

/-- The entry that the line stands for. -/
def entry : GvKey where
  nsubs := l.subs.length
  gblname := if l.subs = [] then [] else l.gblname
  subs := l.texts
  key := l.key

theorem subscript_texts : ∀ t ∈ l.texts, Subscript t :=
  List.forall_mem_map.2 fun ps _ => subscript_concatenated ps

theorem passed_key : Passed l.key := by
  have hname : Passed ('^' :: l.gblname) :=
    (Passed.char (by decide) (by decide)).append
      (passed_of_forall fun c hc => ⟨(not_special (l.plain c hc)).1, (not_special (l.plain c hc)).2.2.2.2⟩)
  unfold key
  split
  · rwa [List.append_nil]
  · exact hname.append ((Passed.char (c := '(') (by decide) (by decide)).append
      (passed_subsText l.subscript_texts))

/-- The loop ends where the key does. -/
theorem stop_text : stop l.text 0 1 = 1 + l.key.length := by
  obtain ⟨q, hq, h⟩ := l.passed_key (valueText l.value) 0 1 (Or.inl rfl)
  rw [text, h, stop_valueText _ _ hq]

theorem ze_key : ze l.text 1 l.key.length = l.key := by
  rw [ze, text, List.take_left]
  rfl

/-- Without subscripts the loop adds none. -/
theorem scan_unsubscripted (h : l.subs = []) : (scan l.text l.text 1 .start).subs = [] := by
  have htext : l.text = '^' :: l.gblname ++ valueText l.value := by
    rw [text, key, if_pos h, List.append_nil]
  have hplain : ∀ c ∈ '^' :: l.gblname, c ∉ special :=
    List.forall_mem_cons.2 ⟨by decide, l.plain⟩
  have hscan : scan l.text l.text 1 .start =
      scan l.text (valueText l.value) (1 + ('^' :: l.gblname).length) .start := by
    generalize l.text = line at htext ⊢
    rw [htext]
    exact scan_gblname hplain rfl
  rw [hscan]
  exact (scan_valueText l.value (Or.inl rfl)).1

theorem gvkey_eq : gvkey l.text = l.entry := by
  have hloop : loop l.text l.text 1 .start =
      (scan l.text l.text 1 .start, 1 + l.key.length) := by
    rw [loop_eq]
    exact congrArg _ l.stop_text
  have hkey : ze l.text 1 (1 + l.key.length - 1) = l.key := by
    rw [Nat.add_sub_cancel_left, ze_key]
  unfold gvkey
  rw [hloop]
  dsimp only
  rw [hkey]
  unfold entry
  by_cases h : l.subs = []
  · rw [l.scan_unsubscripted h, if_pos h, texts, h]
    rfl
  · have hread := extractkey_line l.value l.plain l.subscript_texts (fun ht => h (List.map_eq_nil_iff.1 ht))
    have htext : lineText l.gblname l.texts l.value = l.text := by
      rw [text, key, if_neg h, lineText]
      simp
    rw [htext] at hread
    have hsubs : (scan l.text l.text 1 .start).subs = l.texts := congrArg Key.subs hread
    have hne : l.texts ≠ [] := fun ht => h (List.map_eq_nil_iff.1 ht)
    have hname : (if (scan l.text l.text 1 .start).subs = [] then []
        else (scan l.text l.text 1 .start).gblname) = l.gblname := congrArg Key.gblname hread
    rw [hsubs, if_neg hne] at hname
    rw [hsubs, hname, texts, List.length_map, if_neg h, if_neg (by rwa [List.length_eq_zero_iff])]

end KeyLine

/-- **The entry of every line is its name, its subscripts, their number and its key**; the name of an
    unsubscripted one is empty and its number 0. The loop ends after at most the length of the line. -/
theorem gvkey_text (lines : List KeyLine) :
    (lines.map KeyLine.text).map gvkey = lines.map KeyLine.entry ∧
      ∀ line : Text, (loop line line 1 .start).2 ≤ line.length + 1 := by
  constructor
  · rw [List.map_map]
    exact List.map_congr_left fun l _ => l.gvkey_eq
  · intro line
    rw [loop_eq, Nat.add_comm]
    exact stop_le line 0 1

/-- A quoted subscript with a comma in it, and one with a list of codes behind a string: the line
    `^y("a,""b",3,"c"_$C(0,10))="="`. -/
def quotedAndCodes : KeyLine where
  gblname := ['y']
  plain := by simp [special]
  subs := [[.string "a,\"b".toList], [.number ['3'] (by simp [special])],
    [.string ['c'], .codes ['$', 'C'] (by simp [special]) ['0', ',', '1', '0'] (by simp [special])]]
  value := some "\"=\"".toList

theorem gvkey_text_quotedAndCodes :
    gvkey quotedAndCodes.text = ⟨3, ['y'],
      ["\"a,\"\"b\"".toList, ['3'], "\"c\"_$C(0,10)".toList], "^y(\"a,\"\"b\",3,\"c\"_$C(0,10))".toList⟩ ∧
    (loop quotedAndCodes.text quotedAndCodes.text 1 .start).2 ≤ quotedAndCodes.text.length + 1 := by
  obtain ⟨hgvkey, hends⟩ := gvkey_text [quotedAndCodes]
  exact ⟨List.head_eq_of_cons_eq hgvkey, hends _⟩

end YottaTest.Sprgde
