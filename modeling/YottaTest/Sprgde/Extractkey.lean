/-
  File:      YottaTest/Sprgde/Extractkey.lean
  Subject:   gensprgde.m: the global's name and the subscripts of a line of a ZWR extract.

  The line is read character by character. A quote state tells what is inside a string, where a
  doubled quote stands for one; a parenthesis state tells the parentheses of the subscripts from
  those of a `$C(...)` in one of them.

  * `Scan`, `scanChar`, `scan`, `extractkey` -- the reading of a line;
  * `Subscript` -- the texts a subscript may have: in them a comma, a parenthesis or an equals sign
    only stands in a string, or within parentheses of its own;
  * `scan_subscript` -- the reading passes over such a text;
  * `extractkey_line` -- **a line is read as the name and the subscripts it is written with**.
-/
import Mathlib.Data.List.Basic

namespace YottaTest.Sprgde

abbrev Text := List Char

/-! ## 1. The reading of a line -/

/-- `gvkey(linenum,0)` and `gvkey(linenum,1)` to `gvkey(linenum,nsubs)`. -/
structure Key (σ : Type) where
  gblname : Text
  subs : List σ
  deriving DecidableEq, Repr

structure Scan where
  quotestate : Nat
  parenstate : Int
  previ : Nat
  gblname : Text
  subs : List Text
  deriving DecidableEq, Repr

/-- `$ze(line,first,last)` -/
def ze (line : Text) (first last : Nat) : Text := (line.take last).drop (first - 1)

/-- A character outside strings, at place `i` of the line. -/
def scanChar (line : Text) (i : Nat) (c : Char) (s : Scan) : Scan :=
  if c = '(' then
    -- nested parens
    if s.parenstate ≠ 0 then { s with parenstate := s.parenstate + 2 }
    else { s with parenstate := 1, gblname := ze line 2 (i - 1), previ := i + 1 }
  else if c = ',' then
    if s.parenstate ≠ 1 then s
    else { s with subs := s.subs ++ [ze line s.previ (i - 1)], previ := i + 1 }
  else if c = ')' then
    if s.parenstate ≠ 1 then { s with parenstate := s.parenstate - 2 }
    else { s with parenstate := 2, subs := s.subs ++ [ze line s.previ (i - 1)], previ := i + 1 }
  else s

/-- The rest of the line, from place `i` on. -/
def scan (line : Text) : Text → Nat → Scan → Scan
  | [], _, s => s
  | c :: rest, i, s =>
      if c = '"' then
        scan line rest (i + 1) { s with quotestate := if s.quotestate = 1 then 2 else 1 }
      else
        let s := { s with quotestate := if s.quotestate = 2 then 0 else s.quotestate }
        if s.quotestate ≠ 0 then scan line rest (i + 1) s
        else if c = '=' then s
        else scan line rest (i + 1) (scanChar line i c s)

def extractkey (line : Text) : Key Text :=
  let s := scan line line 1 ⟨0, 0, 0, [], []⟩
  ⟨if s.subs = [] then [] else s.gblname, s.subs⟩

/-! ## 2. Lines -/

/-- The characters that mean something outside strings. -/
def special : Text := ['"', '(', ')', ',', '=']

/-- The text of a subscript: plain characters, strings in quotes (a doubled quote is the end of one
    string and the begin of the next), and lists of codes in parentheses. -/
inductive Subscript : Text → Prop where
  | nil : Subscript []
  | plain {c : Char} {t : Text} : c ∉ special → Subscript t → Subscript (c :: t)
  | quoted {s t : Text} : '"' ∉ s → Subscript t → Subscript ('"' :: (s ++ '"' :: t))
  | codes {s t : Text} : (∀ c ∈ s, c = ',' ∨ c ∉ special) → Subscript t →
      Subscript ('(' :: (s ++ ')' :: t))

/-- The subscripts, with what comes between and after them. -/
def subsText : List Text → Text
  | [] => []
  | [t] => t ++ [')']
  | t :: ts => t ++ ',' :: subsText ts

/-- What follows the key: nothing in the answer of `$query`, and the value in an extract. -/
def valueText : Option Text → Text
  | none => []
  | some v => '=' :: v

def lineText (gblname : Text) (subs : List Text) (value : Option Text) : Text :=
  '^' :: (gblname ++ '(' :: (subsText subs ++ valueText value))

/-! ## 3. What the reading passes over -/

theorem ze_append (pre t rest : Text) :
    ze (pre ++ t ++ rest) (pre.length + 1) (pre.length + t.length) = t := by
  rw [ze, Nat.add_sub_cancel, ← List.length_append, List.take_left, List.drop_left]

theorem subscript_of_plain : ∀ {t : Text}, (∀ c ∈ t, c ∉ special) → Subscript t
  | [], _ => .nil
  | c :: _, h => .plain (h c List.mem_cons_self) (subscript_of_plain fun d hd =>
      h d (List.mem_cons_of_mem c hd))

theorem not_special {c : Char} (h : c ∉ special) :
    c ≠ '"' ∧ c ≠ '(' ∧ c ≠ ')' ∧ c ≠ ',' ∧ c ≠ '=' := by
  simpa [special] using h

/-- Outside strings a character is taken as what it is. -/
theorem scan_cons {line rest : Text} {c : Char} {i : Nat} {s : Scan}
    (hq : s.quotestate = 0 ∨ s.quotestate = 2) (hquote : c ≠ '"') (heq : c ≠ '=') :
    scan line (c :: rest) i s =
      scan line rest (i + 1) (scanChar line i c { s with quotestate := 0 }) := by
  have hstate : (if s.quotestate = 2 then 0 else s.quotestate) = 0 := by
    rcases hq with h | h <;> simp [h]
  simp only [scan, if_neg hquote, hstate, if_neg heq, ne_eq, not_true_eq_false, if_false]

theorem scanChar_plain {line : Text} {c : Char} {i : Nat} {s : Scan} (h : c ∉ special) :
    scanChar line i c s = s := by
  obtain ⟨-, h₁, h₂, h₃, -⟩ := not_special h
  rw [scanChar, if_neg h₁, if_neg h₃, if_neg h₂]

theorem scan_quoted {line rest : Text} : ∀ {t : Text} {i : Nat} {s : Scan}, '"' ∉ t →
    s.quotestate = 1 →
      scan line (t ++ '"' :: rest) i s =
        scan line rest (i + t.length + 1) { s with quotestate := 2 }
  | [], i, s, _, hs => by simp [scan, hs]
  | c :: t, i, s, ht, hs => by
      obtain ⟨hc, ht⟩ := not_or.1 (fun h => ht (List.mem_cons.2 h))
      have hstep : scan line (c :: (t ++ '"' :: rest)) i s = scan line (t ++ '"' :: rest) (i + 1) s := by
        obtain ⟨q, paren, previ, gblname, subs⟩ := s
        obtain rfl : q = 1 := hs
        simp [scan, Ne.symm hc]
      rw [List.cons_append, hstep, scan_quoted ht hs, List.length_cons]
      congr 1
      omega

theorem scan_codes {line rest : Text} : ∀ {t : Text} {i : Nat} {s : Scan},
    (∀ c ∈ t, c = ',' ∨ c ∉ special) → s.parenstate = 3 → s.quotestate = 0 →
      scan line (t ++ ')' :: rest) i s =
        scan line rest (i + t.length + 1) { s with parenstate := 1 }
  | [], i, s, _, hp, hq => by
      rw [List.nil_append, scan_cons (Or.inl hq) (by decide) (by decide)]
      simp [scanChar, hp, hq]
  | c :: t, i, s, ht, hp, hq => by
      obtain ⟨hc, ht⟩ := List.forall_mem_cons.1 ht
      have hzero : ({ s with quotestate := 0 } : Scan) = s :=
        congrArg (fun q => { s with quotestate := q }) hq.symm
      have hchar : scanChar line i c s = s := by
        rcases hc with rfl | hc
        · simp [scanChar, hp]
        · exact scanChar_plain hc
      have hne : c ≠ '"' ∧ c ≠ '=' := by
        rcases hc with rfl | hc
        · decide
        · exact ⟨(not_special hc).1, (not_special hc).2.2.2.2⟩
      rw [List.cons_append, scan_cons (Or.inl hq) hne.1 hne.2, hzero, hchar,
        scan_codes ht hp hq, List.length_cons]
      congr 1
      omega

/-- **A subscript is passed over.** -/
theorem scan_subscript (line rest : Text) {t : Text} (ht : Subscript t) :
    ∀ {i : Nat} {s : Scan}, s.parenstate = 1 → s.quotestate = 0 ∨ s.quotestate = 2 →
      ∃ q, (q = 0 ∨ q = 2) ∧
        scan line (t ++ rest) i s = scan line rest (i + t.length) { s with quotestate := q } := by
  induction ht with
  | nil => exact fun {i s} _ hq => ⟨s.quotestate, hq, rfl⟩
  | @plain c t hc _ ih =>
      intro i s hp hq
      obtain ⟨q, hq', hscan⟩ := ih (i := i + 1) (s := { s with quotestate := 0 }) hp (Or.inl rfl)
      refine ⟨q, hq', ?_⟩
      rw [List.cons_append, scan_cons hq (not_special hc).1 (not_special hc).2.2.2.2,
        scanChar_plain hc, hscan, List.length_cons]
      congr 1
      omega
  | @quoted u t hu _ ih =>
      intro i s hp hq
      obtain ⟨q, hq', hscan⟩ := ih (i := i + 1 + u.length + 1) (s := { s with quotestate := 2 }) hp
        (Or.inr rfl)
      refine ⟨q, hq', ?_⟩
      have hopen : (if s.quotestate = 1 then 2 else 1) = 1 := by rcases hq with h | h <;> simp [h]
      rw [List.cons_append, List.append_assoc, List.cons_append, scan, if_pos rfl, hopen,
        scan_quoted hu rfl, hscan, List.length_cons, List.length_append, List.length_cons]
      congr 1
      omega
  | @codes u t hu _ ih =>
      intro i s hp hq
      obtain ⟨q, hq', hscan⟩ := ih (i := i + 1 + u.length + 1)
        (s := { s with parenstate := 1, quotestate := 0 }) rfl (Or.inl rfl)
      refine ⟨q, hq', ?_⟩
      have hopen : scanChar line i '(' { s with quotestate := 0 } =
          { s with quotestate := 0, parenstate := 3 } := by
        simp [scanChar, hp]
      have hback : ({ s with quotestate := 0, parenstate := 1 } : Scan) =
          { s with quotestate := 0 } := by
        rw [← hp]
      rw [List.cons_append, List.append_assoc, List.cons_append,
        scan_cons hq (by decide) (by decide), hopen, scan_codes hu rfl rfl, hscan,
        List.length_cons, List.length_append, List.length_cons]
      rw [← hp]
      congr 1
      omega

/-! ## 4. A line as a whole -/

/-- A separator at its own level ends the subscript that began at `previ`. -/
theorem scanChar_end {line pre t rest : Text} (hline : line = pre ++ t ++ rest) {c : Char} {s : Scan}
    (hc : c = ',' ∨ c = ')') (hp : s.parenstate = 1) (hprevi : s.previ = pre.length + 1) :
    scanChar line (pre.length + 1 + t.length) c s =
      { s with
        parenstate := if c = ',' then 1 else 2
        subs := s.subs ++ [t]
        previ := pre.length + 1 + t.length + 1 } := by
  have hze : ze line s.previ (pre.length + t.length) = t := by
    rw [hline, hprevi, ze_append]
  rcases hc with rfl | rfl
  · simp [scanChar, hp, hze]
  · simp [scanChar, hp, hze]

/-- The value of an extract line is not read. -/
theorem scan_valueText {line : Text} {i : Nat} {s : Scan} (value : Option Text)
    (hq : s.quotestate = 0 ∨ s.quotestate = 2) :
    (scan line (valueText value) i s).subs = s.subs ∧
      (scan line (valueText value) i s).gblname = s.gblname := by
  cases value with
  | none => exact ⟨rfl, rfl⟩
  | some v => rcases hq with hq | hq <;> simp [valueText, scan, hq]

theorem scan_subsText {line : Text} (value : Option Text) : ∀ {ts : List Text} {pre : Text} {s : Scan},
    ts ≠ [] → (∀ t ∈ ts, Subscript t) → line = pre ++ (subsText ts ++ valueText value) →
      s.parenstate = 1 → (s.quotestate = 0 ∨ s.quotestate = 2) → s.previ = pre.length + 1 →
      (scan line (subsText ts ++ valueText value) (pre.length + 1) s).subs = s.subs ++ ts ∧
        (scan line (subsText ts ++ valueText value) (pre.length + 1) s).gblname = s.gblname
  | [], _, _, h, _, _, _, _, _ => absurd rfl h
  | [t], pre, s, _, hts, hline, hp, hq, hprevi => by
      have hsplit : subsText [t] ++ valueText value = t ++ ')' :: valueText value := by
        simp [subsText]
      rw [hsplit] at hline ⊢
      obtain ⟨q, hq', hscan⟩ := scan_subscript line (')' :: valueText value) (hts t (by simp))
        (i := pre.length + 1) hp hq
      have hline' : line = pre ++ t ++ ')' :: valueText value := by rw [hline, List.append_assoc]
      rw [hscan, scan_cons hq' (by decide) (by decide),
        scanChar_end (s := { s with quotestate := 0 }) hline' (Or.inr rfl) hp hprevi]
      exact scan_valueText value (Or.inl rfl)
  | t :: u :: ts, pre, s, _, hts, hline, hp, hq, hprevi => by
      obtain ⟨ht, hts⟩ := List.forall_mem_cons.1 hts
      have hsplit : subsText (t :: u :: ts) ++ valueText value =
          t ++ ',' :: (subsText (u :: ts) ++ valueText value) := by
        simp [subsText]
      rw [hsplit] at hline ⊢
      obtain ⟨q, hq', hscan⟩ := scan_subscript line
        (',' :: (subsText (u :: ts) ++ valueText value)) ht (i := pre.length + 1) hp hq
      have hline' : line = pre ++ t ++ ',' :: (subsText (u :: ts) ++ valueText value) := by
        rw [hline, List.append_assoc]
      have hpre : line = (pre ++ t ++ [',']) ++ (subsText (u :: ts) ++ valueText value) := by
        rw [hline']
        simp
      have hlen : pre.length + 1 + t.length + 1 = (pre ++ t ++ [',']).length + 1 := by
        simp
        omega
      rw [hscan, scan_cons hq' (by decide) (by decide),
        scanChar_end (s := { s with quotestate := 0 }) hline' (Or.inl rfl) hp hprevi, hlen]
      have hrest := scan_subsText value (s := { s with
          quotestate := 0
          parenstate := if (',' : Char) = ',' then 1 else 2
          subs := s.subs ++ [t]
          previ := (pre ++ t ++ [',']).length + 1 }) (by simp) hts hpre rfl (Or.inl rfl) rfl
      refine ⟨hrest.1.trans ?_, hrest.2⟩
      simp

theorem scan_gblname {line rest : Text} : ∀ {g : Text} {i : Nat} {s : Scan},
    (∀ c ∈ g, c ∉ special) → s.quotestate = 0 →
      scan line (g ++ rest) i s = scan line rest (i + g.length) s
  | [], _, _, _, _ => rfl
  | c :: g, i, s, hg, hq => by
      obtain ⟨hc, hg⟩ := List.forall_mem_cons.1 hg
      have hzero : ({ s with quotestate := 0 } : Scan) = s :=
        congrArg (fun q => { s with quotestate := q }) hq.symm
      rw [List.cons_append, scan_cons (Or.inl hq) (not_special hc).1 (not_special hc).2.2.2.2, hzero,
        scanChar_plain hc, scan_gblname hg hq, List.length_cons]
      congr 1
      omega

/-- **A line is read as the name and the subscripts it is written with.** -/
theorem extractkey_line {g : Text} {ts : List Text} (value : Option Text)
    (hg : ∀ c ∈ g, c ∉ special) (hts : ∀ t ∈ ts, Subscript t) (hne : ts ≠ []) :
    extractkey (lineText g ts value) = ⟨g, ts⟩ := by
  have hstart : scan (lineText g ts value) (lineText g ts value) 1 ⟨0, 0, 0, [], []⟩ =
      scan (lineText g ts value) (subsText ts ++ valueText value) (('^' :: g ++ ['(']).length + 1)
        ⟨0, 1, ('^' :: g ++ ['(']).length + 1, g, []⟩ := by
    have hcaret : ∀ c ∈ '^' :: g, c ∉ special := List.forall_mem_cons.2 ⟨by decide, hg⟩
    have hname : ze (lineText g ts value) 2 (1 + ('^' :: g).length - 1) = g := by
      have h := ze_append ['^'] g ('(' :: (subsText ts ++ valueText value))
      have hlast : 1 + ('^' :: g).length - 1 = ['^'].length + g.length := by
        simp
        omega
      rw [hlast]
      exact h
    have hsplit : scan (lineText g ts value) (lineText g ts value) 1 ⟨0, 0, 0, [], []⟩ =
        scan (lineText g ts value) ('^' :: g ++ '(' :: (subsText ts ++ valueText value)) 1
          ⟨0, 0, 0, [], []⟩ := rfl
    rw [hsplit, scan_gblname hcaret rfl, scan_cons (Or.inl rfl) (by decide) (by decide)]
    simp only [scanChar, if_true, ne_eq, not_true_eq_false, if_false, hname]
    congr 1
    · simp
      omega
    · congr 1
      simp
      omega
  have hline : lineText g ts value = ('^' :: g ++ ['(']) ++ (subsText ts ++ valueText value) := by
    simp [lineText]
  have hsubs := scan_subsText value (s := ⟨0, 1, ('^' :: g ++ ['(']).length + 1, g, []⟩) hne hts hline
    rfl (Or.inl rfl) rfl
  rw [extractkey, hstart, hsubs.1, hsubs.2, List.nil_append, if_neg hne]

end YottaTest.Sprgde
