/-
  File:      YottaTest/SimpleApi/Wordfreq.lean
  Subject:   wordfreq.c and wordfreq.go: the words of a text with how often each of them occurs.

  Both programs count the words in `words`, turn that array around into `index`, whose first
  subscript is the count, and print `index` with the largest counts first. They differ in how they
  read lines and cut them into words. A buffer of either holds every word and count of the texts here.

  * `runs`, `fgets`, `readString` -- the library functions, over the characters of a text;
  * `wordsOfC`, `wordsOfGo` -- the words that each program counts;
  * `count`, `buildIndex`, `printIndex` -- the array `words`, the array `index`, and the output;
  * `mainC`, `mainGo` -- the programs;
  * `Right` -- what is to be printed for a list of words; `right_output`: **both print that for the
    words they have counted**, and `Right.count_eq`: it is right for no other counts;
  * `wordsOf` -- the words of a text; `wordsOfC_eq`, `wordsOfGo_append` -- which of them are counted;
  * `agree_iff` -- **when the two programs agree**: a last line without a newline is lost in Go.
-/
import Mathlib.Data.List.Induction
import YottaTest.Lib.Digits
import YottaTest.Lib.Ordered
import YottaTest.Lib.Pieces
import YottaTest.Lib.Table

namespace YottaTest.SimpleApi.Wordfreq

open YottaTest.Lib

abbrev Text := List Char

/-- Numbers of up to 18 digits, as many as M keeps. -/
def maxNumber : Nat := 10 ^ 18

/-- The order of subscripts: numbers are in the order of their values. A text of more digits need not be a
number. -/
structure SubscriptOrder extends Collation Text where
  numbers : ∀ m < maxNumber, ∀ n < maxNumber, lt (Nat.toDigits 10 m) (Nat.toDigits 10 n) = decide (m < n)

/-! ## 1. Lines and words -/

/-- The longest parts of a text without a separator: `strtok` and `strings.Fields`. `acc` is the part
that has begun. -/
def runs (isSep : Char → Bool) (acc : Text) : Text → List Text
  | [] => if acc = [] then [] else [acc]
  | c :: s =>
      if isSep c then (if acc = [] then runs isSep [] s else acc :: runs isSep [] s)
      else runs isSep (acc ++ [c]) s

/-- `fgets(linebuff,sizeof(linebuff),stdin)` until it returns NULL: a line, with its newline, or as much of
it as the buffer holds. -/
def fgets (acc : Text) : Text → List Text
  | [] => if acc = [] then [] else [acc]
  | c :: s =>
      if c = '\n' ∨ acc.length + 1 = 1023 then (acc ++ [c]) :: fgets [] s
      else fgets (acc ++ [c]) s

/-- `readin.ReadString('\n')` until there is an error: at the end of the file the error is EOF, and what was
read before it is not looked at. -/
def readString (acc : Text) : Text → List Text
  | [] => []
  | c :: s => if c = '\n' then (acc ++ [c]) :: readString [] s else readString (acc ++ [c]) s

/-- `tolower` for every character, and `strings.ToLower`, in ASCII. -/
def toLower (t : Text) : Text := t.map Char.toLower

/-- `if (tmp_ptr[-1] == '\n') tmp1.len_used--;` -/
def dropNewline (t : Text) : Text := if t.getLast? = some '\n' then t.dropLast else t

/-- The words of a line in the C program: those without a character left are not counted. A string of C
ends at the first NUL. -/
def wordsOfLine (line : Text) : List Text :=
  let string := line.takeWhile fun c => c ≠ '\x00'
  ((runs (fun c => c = ' ') [] string).map fun t => dropNewline (toLower t)).filter fun t => t ≠ []

def wordsOfC (text : Text) : List Text := (fgets [] text).flatMap wordsOfLine

/-- `unicode.IsSpace`, in ASCII. -/
def isSpace (c : Char) : Bool :=
  c = '\t' || c = '\n' || c = '\x0b' || c = '\x0c' || c = '\r' || c = ' '

def wordsOfGo (text : Text) : List Text :=
  (readString [] text).flatMap fun linein => runs isSpace [] (toLower linein)

/-! ## 2. The arrays -/

/-- `ydb_incr_s(&words,1,&tmp1,NULL,&value)` -/
def incr (words : Table Text Nat) (w : Text) : Table Text Nat := words.set w ((words.get w).getD 0 + 1)

def count (ws : List Text) : Table Text Nat := ws.foldl incr Table.empty

/-- What a call yields at the end of the order. -/
def endOfOrder : Text := []

/-- `index(words_tmp1,tmp1)=""` -/
def setIndex (index : List (Text × Text)) (node : Text × Text) : List (Text × Text) :=
  if node ∈ index then index else index ++ [node]

section Output

variable (o : SubscriptOrder)

/-- The loop that goes through `words` from a subscript on and sets `index`. -/
def buildIndex (words : Table Text Nat) (tmp1 : Text) : List (Text × Text) :=
  (o.visit (words.entries.map Prod.fst) (Collation.place tmp1)).foldl
    (fun index w => setIndex index (Nat.toDigits 10 ((words.get w).getD 0), w)) []

/-- The second subscripts below a first one. -/
def below (index : List (Text × Text)) (n : Text) : List Text :=
  (index.filter fun node => node.1 = n).map Prod.snd

/-- The two loops that go backwards through the first subscripts of `index`, from one on, and forwards
through the second ones. -/
def printIndex (index : List (Text × Text)) (tmp1 : Text) : List Text :=
  (o.flip.visit (index.map Prod.fst) (Collation.place tmp1)).flatMap fun n =>
    (o.visit (below index n) (Collation.place [])).map fun w => n ++ '\t' :: w

/-- `wordfreq.c`: the last loop starts with the subscript that the one before it ended with. -/
def mainC (text : Text) : List Text :=
  let words := count (wordsOfC text)
  printIndex o (buildIndex o words []) endOfOrder

/-- `wordfreq.go` -/
def mainGo (text : Text) : List Text :=
  let words := count (wordsOfGo text)
  printIndex o (buildIndex o words []) []

/-! ## 3. What is to be printed -/

/-- The line for a word. -/
def line (n : Nat) (w : Text) : Text := Nat.toDigits 10 n ++ '\t' :: w

/-- Larger counts come first, and words with one count in the order of subscripts. -/
def Before (a b : Nat × Text) : Prop := b.1 < a.1 ∨ a.1 = b.1 ∧ o.lt a.2 b.2 = true

/-- The counts of the words, in order. -/
structure Counts (ws : List Text) (entries : List (Nat × Text)) : Prop where
  sorted : entries.Pairwise (Before o)
  mem_iff : ∀ n w, (n, w) ∈ entries ↔ w ∈ ws ∧ n = ws.count w

/-- Every distinct word once, with its count, in order. -/
def Right (ws : List Text) (out : List Text) : Prop :=
  ∃ entries, Counts o ws entries ∧ out = entries.map fun e => line e.1 e.2

end Output

/-! ## 4. The arrays -/

theorem get_count (ws : List Text) (w : Text) :
    (count ws).get w = if w ∈ ws then some (ws.count w) else none := by
  induction ws using List.reverseRecOn with
  | nil => rw [if_neg List.not_mem_nil]; rfl
  | append_singleton ws v ih =>
      have hstep : count (ws ++ [v]) = incr (count ws) v := List.foldl_concat ..
      rw [hstep, incr, Table.get_set, List.count_append, List.count_singleton]
      by_cases hwv : w = v
      · subst hwv
        rw [if_pos rfl, if_pos (List.mem_append_right ws List.mem_cons_self), ih, beq_self_eq_true,
          if_pos rfl]
        by_cases hw : w ∈ ws
        · rw [if_pos hw, Option.getD_some]
        · rw [if_neg hw, List.count_eq_zero_of_not_mem hw, Option.getD_none]
      · have hmem : w ∈ ws ++ [v] ↔ w ∈ ws := by
          rw [List.mem_append, List.mem_singleton, or_iff_left hwv]
        rw [if_neg hwv, ih, beq_eq_false_iff_ne.2 (Ne.symm hwv), if_neg Bool.false_ne_true, Nat.add_zero,
          if_congr hmem rfl rfl]

/-- The subscripts of `words` are the words. -/
theorem mem_keys_count {ws : List Text} {w : Text} :
    w ∈ (count ws).entries.map Prod.fst ↔ w ∈ ws := by
  have hkey : w ∈ (count ws).entries.map Prod.fst ↔ ∃ n, (count ws).get w = some n := by
    simp only [List.mem_map, Prod.exists, exists_and_right, exists_eq_right, Table.mem_entries_iff]
  rw [hkey, get_count]
  by_cases hw : w ∈ ws
  · rw [if_pos hw]
    exact iff_of_true ⟨_, rfl⟩ hw
  · rw [if_neg hw]
    refine iff_of_false (fun h => ?_) hw
    obtain ⟨n, hn⟩ := h
    cases hn

theorem getD_count {ws : List Text} {w : Text} (h : w ∈ ws) :
    ((count ws).get w).getD 0 = ws.count w := by
  rw [get_count, if_pos h, Option.getD_some]

theorem mem_setIndex {index : List (Text × Text)} {node x : Text × Text} :
    x ∈ setIndex index node ↔ x ∈ index ∨ x = node := by
  unfold setIndex
  split
  · rename_i hmem
    exact ⟨Or.inl, fun h => h.elim id fun heq => heq ▸ hmem⟩
  · rw [List.mem_append, List.mem_singleton]

theorem mem_foldl_setIndex (f : Text → Text × Text) {x : Text × Text} :
    ∀ (ws : List Text) (index : List (Text × Text)),
      x ∈ ws.foldl (fun index w => setIndex index (f w)) index ↔ x ∈ index ∨ ∃ w ∈ ws, x = f w
  | [], index => by simp
  | w :: ws, index => by
      rw [List.foldl_cons, mem_foldl_setIndex f ws, mem_setIndex, or_assoc, List.exists_mem_cons_iff]

section Output

variable {o : SubscriptOrder} {ws : List Text}

/-- **What stands in `index`** after the first loop. -/
theorem mem_buildIndex {n w : Text} :
    (n, w) ∈ buildIndex o (count ws) [] ↔ w ∈ ws ∧ n = Nat.toDigits 10 (ws.count w) := by
  unfold buildIndex
  rw [mem_foldl_setIndex, or_iff_right List.not_mem_nil]
  constructor
  · intro h
    obtain ⟨v, hv, heq⟩ := h
    have hmem : v ∈ ws := mem_keys_count.1 (o.mem_visit.1 hv).1
    rw [getD_count hmem] at heq
    obtain ⟨rfl, rfl⟩ := Prod.mk.inj heq
    exact ⟨hmem, rfl⟩
  · intro h
    refine ⟨w, o.mem_visit.2 ⟨mem_keys_count.2 h.1, rfl⟩, ?_⟩
    rw [getD_count h.1, h.2]

theorem mem_below {index : List (Text × Text)} {n w : Text} : w ∈ below index n ↔ (n, w) ∈ index := by
  unfold below
  simp only [List.mem_map, List.mem_filter, decide_eq_true_eq, Prod.exists, exists_eq_right]

/-- What the last two loops come to. -/
def printed (o : SubscriptOrder) (ws : List Text) : List (Nat × Text) :=
  let index := buildIndex o (count ws) []
  (o.flip.visit (index.map Prod.fst) none).flatMap fun n =>
    (o.visit (below index n) none).map fun w => (ws.count w, w)

/-- A subscript that the first of them comes to, with one that the second comes to below it. -/
theorem mem_inner {n w : Text} (h : w ∈ o.visit (below (buildIndex o (count ws) []) n) none) :
    w ∈ ws ∧ n = Nat.toDigits 10 (ws.count w) := mem_buildIndex.1 (mem_below.1 (o.mem_visit.1 h).1)

theorem printIndex_eq :
    printIndex o (buildIndex o (count ws) []) [] = (printed o ws).map fun e => line e.1 e.2 := by
  unfold printIndex printed
  rw [List.map_flatMap]
  refine List.flatMap_congr fun n _ => ?_
  rw [List.map_map]
  refine List.map_congr_left fun w hw => ?_
  rw [(mem_inner hw).2]
  rfl

theorem mem_printed {n : Nat} {w : Text} : (n, w) ∈ printed o ws ↔ w ∈ ws ∧ n = ws.count w := by
  unfold printed
  simp only [List.mem_flatMap, List.mem_map, Prod.mk.injEq]
  constructor
  · intro h
    obtain ⟨_, -, v, hv, hn, rfl⟩ := h
    exact ⟨(mem_inner hv).1, hn.symm⟩
  · intro h
    have hindex : (Nat.toDigits 10 (ws.count w), w) ∈ buildIndex o (count ws) [] :=
      mem_buildIndex.2 ⟨h.1, rfl⟩
    refine ⟨Nat.toDigits 10 (ws.count w), ?_, w, ?_, h.2.symm, rfl⟩
    · exact o.flip.mem_visit.2 ⟨List.mem_map.2 ⟨_, hindex, rfl⟩, rfl⟩
    · exact o.mem_visit.2 ⟨mem_below.2 hindex, rfl⟩

theorem printed_sorted (h : ws.length < maxNumber) : (printed o ws).Pairwise (Before o) := by
  have hcount : ∀ w, ws.count w < maxNumber := fun _ => Nat.lt_of_le_of_lt List.count_le_length h
  refine List.pairwise_flatMap.2 ⟨fun n _ => ?_, ?_⟩
  · -- words with one count
    refine List.pairwise_map.2 ((o.visit_sorted _ none).imp_of_mem fun {v w} hv hw hlt => Or.inr ⟨?_, hlt⟩)
    exact toDigits_inj ((mem_inner hv).2.symm.trans (mem_inner hw).2)
  · refine (o.flip.visit_sorted _ none).imp fun {m n} hlt a ha b hb => Or.inl ?_
    obtain ⟨v, hv, rfl⟩ := List.mem_map.1 ha
    obtain ⟨w, hw, rfl⟩ := List.mem_map.1 hb
    rw [(mem_inner hv).2, (mem_inner hw).2] at hlt
    exact of_decide_eq_true ((o.numbers _ (hcount w) _ (hcount v)).symm.trans hlt)

/-- **The output for a list of words**: each distinct word once, with its count, in order. -/
theorem right_output (o : SubscriptOrder) {ws : List Text} (h : ws.length < maxNumber) :
    Right o ws (printIndex o (buildIndex o (count ws) []) []) :=
  ⟨printed o ws, ⟨printed_sorted h, fun _ _ => mem_printed⟩, printIndex_eq⟩

theorem line_inj {m n : Nat} {v w : Text} (h : line m v = line n w) : m = n ∧ v = w := by
  have htab : ∀ k, '\t' ∉ Nat.toDigits 10 k := notMem_toDigits (by decide)
  have hcount := congrArg (beforeFirst '\t') h
  have hword := congrArg (afterFirst '\t') h
  unfold line at hcount hword
  rw [beforeFirst_append (htab m), beforeFirst_append (htab n)] at hcount
  rw [afterFirst_append (htab m), afterFirst_append (htab n)] at hword
  exact ⟨toDigits_inj hcount, hword⟩

/-- **One output is right for one way of counting only.** -/
theorem Right.count_eq {ws' : List Text} {out : List Text} (h : Right o ws out) (h' : Right o ws' out)
    (w : Text) : ws.count w = ws'.count w := by
  obtain ⟨entries, hc, rfl⟩ := h
  obtain ⟨entries', hc', heq⟩ := h'
  have hinj : Function.Injective fun e : Nat × Text => line e.1 e.2 := fun a b hab =>
    Prod.ext (line_inj hab).1 (line_inj hab).2
  obtain rfl := List.map_injective_iff.2 hinj heq
  have hiff : ∀ n, w ∈ ws ∧ n = ws.count w ↔ w ∈ ws' ∧ n = ws'.count w := fun n =>
    (hc.mem_iff n w).symm.trans (hc'.mem_iff n w)
  by_cases hw : w ∈ ws
  · exact ((hiff _).1 ⟨hw, rfl⟩).2
  · have hw' : w ∉ ws' := fun hmem => hw ((hiff _).2 ⟨hmem, rfl⟩).1
    rw [List.count_eq_zero_of_not_mem hw, List.count_eq_zero_of_not_mem hw']

end Output

/-! ## 5. Cutting a text into words -/

/-- What stands between words. -/
def isSep (c : Char) : Bool := c = ' ' || c = '\n'

/-- The words of a text, in lower case. -/
def wordsOf (text : Text) : List Text := (runs isSep [] text).map toLower

/-- What stands behind the last newline; `acc` is what has been read of it. -/
def lastLine (acc : Text) : Text → Text
  | [] => acc
  | c :: s => if c = '\n' then lastLine [] s else lastLine (acc ++ [c]) s

section Runs

variable {isSep : Char → Bool} {c : Char}

theorem runs_append (h : isSep c = true) : ∀ (s acc t : Text),
    runs isSep acc (s ++ c :: t) = runs isSep acc s ++ runs isSep [] t
  | [], acc, t => by
      rw [List.nil_append, runs, runs, if_pos h]
      split
      · rfl
      · rfl
  | d :: s, acc, t => by
      rw [List.cons_append, runs, runs]
      by_cases hd : isSep d = true
      · rw [if_pos hd, if_pos hd, runs_append h s [] t]
        split
        · rfl
        · rfl
      · rw [if_neg hd, if_neg hd, runs_append h s _ t]

/-- Not more words than characters. -/
theorem length_runs (isSep : Char → Bool) : ∀ (s acc : Text),
    (runs isSep acc s).length ≤ s.length + if acc = [] then 0 else 1
  | [], acc => by
      rw [runs]
      split
      · exact Nat.le_refl _
      · exact Nat.le_refl _
  | c :: s, acc => by
      have hnone := length_runs isSep s []
      have hone := length_runs isSep s (acc ++ [c])
      rw [if_pos rfl] at hnone
      rw [if_neg (by simp)] at hone
      rw [runs, List.length_cons]
      split
      · split
        · omega
        · rw [List.length_cons]
          omega
      · omega

/-- A separator at the end. -/
theorem runs_concat (h : isSep c = true) (acc s : Text) : runs isSep acc (s ++ [c]) = runs isSep acc s := by
  rw [runs_append h, runs, if_pos rfl, List.append_nil]

theorem runs_congr {isSep' : Char → Bool} : ∀ {s : Text} (acc : Text), (∀ c ∈ s, isSep c = isSep' c) →
    runs isSep acc s = runs isSep' acc s
  | [], _, _ => rfl
  | d :: s, acc, h => by
      obtain ⟨hd, hs⟩ := List.forall_mem_cons.1 h
      rw [runs, runs, hd, runs_congr [] hs, runs_congr (acc ++ [d]) hs]

theorem runs_map {f : Char → Char} (h : ∀ c, isSep (f c) = isSep c) : ∀ s acc : Text,
    runs isSep (acc.map f) (s.map f) = (runs isSep acc s).map (List.map f)
  | [], acc => by
      rw [List.map_nil, runs, runs, if_congr List.map_eq_nil_iff rfl rfl]
      split
      · rfl
      · rfl
  | d :: s, acc => by
      have hone : acc.map f ++ [f d] = (acc ++ [d]).map f := by rw [List.map_append]; rfl
      have hnil : runs isSep [] (s.map f) = (runs isSep [] s).map (List.map f) := runs_map h s []
      rw [List.map_cons, runs, runs, h d, if_congr List.map_eq_nil_iff rfl rfl, hone,
        runs_map h s (acc ++ [d]), hnil]
      split
      · split
        · rfl
        · rfl
      · rfl

theorem mem_of_mem_runs : ∀ {s acc w : Text}, w ∈ runs isSep acc s → c ∈ w → c ∈ acc ++ s
  | [], acc, w, hw, hc => by
      rw [runs] at hw
      split at hw
      · cases hw
      · rw [List.mem_singleton.1 hw] at hc
        exact List.mem_append_left [] hc
  | d :: s, acc, w, hw, hc => by
      have hlater : w ∈ runs isSep [] s → c ∈ acc ++ d :: s := fun hw =>
        List.mem_append_right acc (List.mem_cons_of_mem d (mem_of_mem_runs hw hc))
      rw [runs] at hw
      split at hw
      · split at hw
        · exact hlater hw
        · rcases List.mem_cons.1 hw with rfl | hw
          · exact List.mem_append_left _ hc
          · exact hlater hw
      · have hmem := mem_of_mem_runs hw hc
        rwa [List.append_assoc, List.singleton_append] at hmem

/-- A character that does not separate stands in a word. -/
theorem exists_mem_runs : ∀ {s acc : Text}, c ∈ acc ∨ c ∈ s ∧ isSep c = false →
    ∃ w ∈ runs isSep acc s, c ∈ w
  | [], acc, h => by
      have hacc : c ∈ acc := h.resolve_right fun h => List.not_mem_nil h.1
      rw [runs, if_neg (List.ne_nil_of_mem hacc)]
      exact ⟨acc, List.mem_cons_self, hacc⟩
  | d :: s, acc, h => by
      rw [runs]
      by_cases hd : isSep d = true
      · have hlater : c ∈ d :: s ∧ isSep c = false → ∃ w ∈ runs isSep [] s, c ∈ w := by
          intro h
          refine exists_mem_runs (Or.inr ⟨(List.mem_cons.1 h.1).resolve_left fun heq => ?_, h.2⟩)
          rw [heq, hd] at h
          cases h.2
        rw [if_pos hd]
        by_cases hacc : acc = []
        · rw [if_pos hacc]
          exact hlater (h.resolve_left fun hc => List.ne_nil_of_mem hc hacc)
        · rw [if_neg hacc]
          rcases h with h | h
          · exact ⟨acc, List.mem_cons_self, h⟩
          · obtain ⟨w, hw, hc⟩ := hlater h
            exact ⟨w, List.mem_cons_of_mem acc hw, hc⟩
      · rw [if_neg hd]
        apply exists_mem_runs
        rcases h with h | ⟨h, hc⟩
        · exact Or.inl (List.mem_append_left _ h)
        · rcases List.mem_cons.1 h with rfl | h
          · exact Or.inl (List.mem_append_right acc List.mem_cons_self)
          · exact Or.inr ⟨h, hc⟩

end Runs

theorem toLower_cases (c : Char) : c.toLower = c ∨ c.isUpper = true ∧ c.toLower.isLower = true := by
  by_cases h : c.val ≥ 'A'.val ∧ c.val ≤ 'Z'.val
  · have h₀ : 65 ≤ c.toNat := h.1
    have h₁ : c.toNat ≤ 90 := h.2
    have hall : ∀ k < 26, (Char.ofNat (65 + k)).isUpper = true ∧
        (Char.ofNat (65 + k)).toLower.isLower = true := by decide
    have hc := hall (c.toNat - 65) (by omega)
    rw [Nat.add_sub_cancel' h₀, Char.ofNat_toNat] at hc
    exact Or.inr hc
  · refine Or.inl ?_
    unfold Char.toLower
    rw [dif_neg h]

/-- Only letters change. -/
theorem toLower_eq_iff {c d : Char} (hu : d.isUpper = false) (hl : d.isLower = false) :
    c.toLower = d ↔ c = d := by
  rcases toLower_cases c with h | ⟨hc, hlow⟩
  · rw [h]
  · refine iff_of_false (fun h => ?_) (fun h => ?_)
    · rw [h, hl] at hlow
      cases hlow
    · rw [h, hu] at hc
      cases hc

theorem isSpace_toLower (c : Char) : isSpace c.toLower = isSpace c := by
  have hiff : ∀ d : Char, d.isUpper = false → d.isLower = false →
      decide (c.toLower = d) = decide (c = d) := fun d hu hl =>
    decide_eq_decide.2 (toLower_eq_iff hu hl)
  unfold isSpace
  rw [hiff '\t' rfl rfl, hiff '\n' rfl rfl, hiff '\x0b' rfl rfl, hiff '\x0c' rfl rfl, hiff '\r' rfl rfl,
    hiff ' ' rfl rfl]

theorem runs_toLower (s : Text) : runs isSpace [] (toLower s) = (runs isSpace [] s).map toLower :=
  runs_map isSpace_toLower s []

/-! ## 6. Reading the text -/

/-- A text of words with spaces and newlines between them; it is not so long that a count could have more
digits than M keeps. -/
structure Input (text : Text) : Prop where
  short : text.length < maxNumber
  ascii : ∀ c ∈ text, c.toNat < 128
  separators : ∀ c ∈ text, isSpace c = true → isSep c = true
  words : ∀ w, w <:+: text → (∀ c ∈ w, isSep c = false) → w.length ≤ 63
  lines : ∀ l, l <:+: text → '\n' ∉ l → l.length < 1023

theorem Input.of_short {text : Text} (hlen : text.length ≤ 63)
    (hall : (text.all fun c => decide (c.toNat < 128) && (!isSpace c || isSep c)) = true) : Input text := by
  have hchar : ∀ c ∈ text, c.toNat < 128 ∧ (isSpace c = true → isSep c = true) := by
    intro c hc
    have h := List.all_eq_true.1 hall c hc
    rw [Bool.and_eq_true, decide_eq_true_eq, Bool.or_eq_true, Bool.not_eq_true'] at h
    refine ⟨h.1, fun hspace => h.2.resolve_left fun hnone => ?_⟩
    rw [hspace] at hnone
    cases hnone
  exact
    { short := Nat.lt_of_le_of_lt hlen (by decide)
      ascii := fun c hc => (hchar c hc).1
      separators := fun c hc => (hchar c hc).2
      words := fun w hw _ => Nat.le_trans hw.length_le hlen
      lines := fun l hl _ => Nat.lt_of_le_of_lt (Nat.le_trans hl.length_le hlen) (by decide) }

theorem Input.isSpace_eq {text : Text} (h : Input text) : ∀ c ∈ text, isSpace c = isSep c := by
  intro c hc
  cases hsep : isSep c with
  | false =>
      refine Bool.eq_false_iff.2 fun hspace => ?_
      rw [h.separators c hc hspace] at hsep
      cases hsep
  | true =>
      unfold isSep at hsep
      unfold isSpace
      grind

/-- The lines that end have the words of the text up to the last newline. -/
theorem runs_readString {isSep : Char → Bool} (h : isSep '\n' = true) : ∀ s acc : Text,
    (readString acc s).flatMap (runs isSep []) ++ runs isSep [] (lastLine acc s)
      = runs isSep [] (acc ++ s)
  | [], acc => by rw [readString, lastLine, List.flatMap_nil, List.nil_append, List.append_nil]
  | c :: s, acc => by
      rw [readString, lastLine]
      by_cases hc : c = '\n'
      · rw [if_pos hc, if_pos hc, hc, List.flatMap_cons, runs_concat h, List.append_assoc,
          runs_readString h s [], runs_append h, List.nil_append]
      · rw [if_neg hc, if_neg hc, runs_readString h s, List.append_assoc, List.singleton_append]

theorem mem_lastLine {c : Char} : ∀ {s acc : Text}, c ∈ lastLine acc s → c ∈ acc ++ s
  | [], acc, h => by
      rw [List.append_nil]
      exact h
  | d :: s, acc, h => by
      rw [lastLine] at h
      split at h
      · exact List.mem_append_right acc (List.mem_cons_of_mem d (mem_lastLine h))
      · have hmem := mem_lastLine h
        rwa [List.append_assoc, List.singleton_append] at hmem

/-- **What the Go program counts**: the words behind the last newline are missing. -/
theorem wordsOfGo_append {text : Text} (h : Input text) :
    wordsOfGo text ++ wordsOf (lastLine [] text) = wordsOf text := by
  have hlast : ∀ c ∈ lastLine [] text, isSpace c = isSep c := fun c hc =>
    h.isSpace_eq c (mem_lastLine hc)
  unfold wordsOfGo wordsOf
  simp only [runs_toLower]
  rw [← runs_congr [] hlast, ← runs_congr [] h.isSpace_eq, ← List.map_flatMap, ← List.map_append,
    runs_readString rfl, List.nil_append]

theorem toLower_eq_nil {t : Text} : toLower t = [] ↔ t = [] := List.map_eq_nil_iff

theorem dropNewline_of_notMem {t : Text} (h : '\n' ∉ t) : dropNewline t = t :=
  if_neg fun hlast => h (List.mem_of_getLast? hlast)

theorem mem_of_mem_dropNewline {c : Char} {t : Text} (h : c ∈ dropNewline t) : c ∈ t := by
  unfold dropNewline at h
  split at h
  · exact List.dropLast_subset t h
  · exact h

theorem dropNewline_concat (t : Text) : dropNewline (t ++ ['\n']) = t := by
  rw [dropNewline, if_pos List.getLast?_concat, List.dropLast_concat]

/-- The words of some parts of a line. -/
def kept (ts : List Text) : List Text := (ts.map dropNewline).filter fun t => t ≠ []

theorem kept_cons {acc : Text} (h : '\n' ∉ acc) (hne : acc ≠ []) (ts : List Text) :
    kept (acc :: ts) = acc :: kept ts := by
  unfold kept
  rw [List.map_cons, dropNewline_of_notMem h, List.filter_cons_of_pos (by simpa using hne)]

/-- Cutting at spaces, with a newline at the end or without one. -/
theorem kept_runs {e : Text} (he : e = [] ∨ e = ['\n']) : ∀ {s acc : Text}, '\n' ∉ acc → '\n' ∉ s →
    kept (runs (fun c => c = ' ') acc (s ++ e)) = runs isSep acc s
  | [], acc, hacc, _ => by
      rw [List.nil_append, runs]
      rcases he with rfl | rfl
      · rw [runs]
        split
        · rfl
        · rename_i hne
          exact kept_cons hacc hne []
      · have hpart : runs (fun c => c = ' ') acc ['\n'] = [acc ++ ['\n']] := by
          rw [runs, if_neg (by decide), runs, if_neg (List.append_ne_nil_of_right_ne_nil acc (by decide))]
        rw [hpart, kept, List.map_singleton, dropNewline_concat]
        by_cases hnil : acc = []
        · rw [if_pos hnil, hnil]
          rfl
        · rw [if_neg hnil, List.filter_cons_of_pos (by simpa using hnil), List.filter_nil]
  | d :: s, acc, hacc, hs => by
      obtain ⟨hd, hs⟩ := not_or.1 fun h => hs (List.mem_cons.2 h)
      have hsep : isSep d = decide (d = ' ') := by
        unfold isSep
        rw [decide_eq_false (Ne.symm hd), Bool.or_false]
      rw [List.cons_append, runs, runs, hsep]
      by_cases hspace : decide (d = ' ') = true
      · rw [if_pos hspace, if_pos hspace]
        by_cases hnil : acc = []
        · rw [if_pos hnil, if_pos hnil, kept_runs he List.not_mem_nil hs]
        · rw [if_neg hnil, if_neg hnil, kept_cons hacc hnil, kept_runs he List.not_mem_nil hs]
      · rw [if_neg hspace, if_neg hspace]
        refine kept_runs he (fun h => ?_) hs
        rcases List.mem_append.1 h with h | h
        · exact hacc h
        · exact hd (List.mem_singleton.1 h)

theorem dropNewline_toLower (t : Text) : dropNewline (toLower t) = toLower (dropNewline t) := by
  have hlast : (toLower t).getLast? = some '\n' ↔ t.getLast? = some '\n' := by
    unfold toLower
    rw [List.getLast?_map, Option.map_eq_some_iff]
    simp only [toLower_eq_iff (d := '\n') rfl rfl, exists_eq_right]
  unfold dropNewline
  rw [if_congr hlast rfl rfl]
  split
  · exact List.map_dropLast.symm
  · rfl

theorem wordsOfLine_eq_kept (line : Text) : wordsOfLine line
    = (kept (runs (fun c => c = ' ') [] (line.takeWhile fun c => c ≠ '\x00'))).map toLower := by
  have hlower : (fun t => toLower (dropNewline t)) = fun t => dropNewline (toLower t) :=
    funext fun t => (dropNewline_toLower t).symm
  have hne : ((fun t : Text => decide (t ≠ [])) ∘ toLower) = fun t => decide (t ≠ []) :=
    funext fun t => decide_eq_decide.2 (not_congr toLower_eq_nil)
  unfold wordsOfLine kept
  dsimp only
  generalize runs (fun c => c = ' ') [] (line.takeWhile fun c => c ≠ '\x00') = parts
  have hmap : (parts.map fun t => toLower (dropNewline t)) = (parts.map dropNewline).map toLower :=
    List.map_map.symm
  rw [← hlower, hmap, List.filter_map, hne]

/-- **The words of a line of the C program**, if there is no NUL in it. -/
theorem wordsOfLine_eq {e s : Text} (he : e = [] ∨ e = ['\n']) (hs : '\n' ∉ s) (hnul : '\x00' ∉ s) :
    wordsOfLine (s ++ e) = wordsOf s := by
  have hall : ∀ c ∈ s ++ e, decide (c ≠ '\x00') = true := by
    intro c hc
    refine decide_eq_true fun hzero => ?_
    rw [hzero, List.mem_append] at hc
    rcases he with rfl | rfl
    · exact hc.elim hnul List.not_mem_nil
    · exact hc.elim hnul (by decide)
  rw [wordsOfLine_eq_kept, List.takeWhile_eq_self_iff.2 hall, kept_runs he List.not_mem_nil hs, wordsOf]

/-- The lines as `fgets` gives them, if the buffer holds each of them. -/
theorem words_fgets : ∀ {s acc : Text}, '\n' ∉ acc → '\x00' ∉ acc ++ s →
    (∀ l, l <:+: acc ++ s → '\n' ∉ l → l.length < 1023) →
    (fgets acc s).flatMap wordsOfLine = wordsOf (acc ++ s)
  | [], acc, hacc, hnul, _ => by
      rw [List.append_nil] at hnul ⊢
      rw [fgets]
      split
      · rename_i hnil
        rw [hnil]
        rfl
      · have hline := wordsOfLine_eq (Or.inl rfl) hacc hnul
        rw [List.append_nil] at hline
        rw [List.flatMap_singleton, hline]
  | c :: s, acc, hacc, hnul, hlines => by
      have hacc0 : '\x00' ∉ acc := fun h => hnul (List.mem_append_left _ h)
      by_cases hc : c = '\n'
      · have hs0 : '\x00' ∉ [] ++ s := fun h => hnul (List.mem_append_right acc (List.mem_cons_of_mem c h))
        have hlines' : ∀ l, l <:+: [] ++ s → '\n' ∉ l → l.length < 1023 := fun l hl =>
          hlines l (hl.trans ((List.suffix_cons c s).trans (List.suffix_append acc _)).isInfix)
        rw [fgets, if_pos (Or.inl hc), List.flatMap_cons, words_fgets List.not_mem_nil hs0 hlines', hc,
          wordsOfLine_eq (Or.inr rfl) hacc hacc0, wordsOf, wordsOf, wordsOf, runs_append rfl,
          List.map_append, List.nil_append]
      · have hone : acc ++ c :: s = (acc ++ [c]) ++ s := by simp
        have hnewline : '\n' ∉ acc ++ [c] := by
          rw [List.mem_append, List.mem_singleton]
          exact fun h => h.elim hacc fun h => hc h.symm
        have hlen : acc.length + 1 < 1023 := by
          have hlt := hlines (acc ++ [c]) (hone ▸ (List.prefix_append _ s).isInfix) hnewline
          rwa [List.length_append] at hlt
        rw [hone] at hnul hlines ⊢
        rw [fgets, if_neg (fun h => h.elim hc fun h => by omega), words_fgets hnewline hnul hlines]

/-- **What the C program counts.** -/
theorem wordsOfC_eq {text : Text} (h : Input text) (hnul : '\x00' ∉ text) :
    wordsOfC text = wordsOf text :=
  words_fgets List.not_mem_nil hnul h.lines

/-- A word with a NUL is never counted. -/
theorem nul_notMem_wordsOfC {text w : Text} (hw : w ∈ wordsOfC text) : '\x00' ∉ w := by
  intro hnul
  obtain ⟨l, -, hw⟩ := List.mem_flatMap.1 hw
  rw [wordsOfLine_eq_kept] at hw
  obtain ⟨t, ht, rfl⟩ := List.mem_map.1 hw
  obtain ⟨c, hc, hzero⟩ := List.mem_map.1 hnul
  obtain rfl := (toLower_eq_iff rfl rfl).1 hzero
  obtain ⟨part, hpart, rfl⟩ := List.mem_map.1 (List.mem_filter.1 ht).1
  have hread : '\x00' ∈ l.takeWhile fun c => c ≠ '\x00' := mem_of_mem_runs hpart (mem_of_mem_dropNewline hc)
  have hne := List.mem_takeWhile_imp hread
  simp at hne

theorem exists_nul_mem_wordsOf {text : Text} (h : '\x00' ∈ text) : ∃ w ∈ wordsOf text, '\x00' ∈ w := by
  have hrun : ∃ w ∈ runs isSep [] text, '\x00' ∈ w := exists_mem_runs (Or.inr ⟨h, rfl⟩)
  obtain ⟨w, hw, hc⟩ := hrun
  exact ⟨toLower w, List.mem_map_of_mem hw, List.mem_map.2 ⟨'\x00', hc, rfl⟩⟩

/-! ### How many words there are -/

theorem length_wordsOfLine (line : Text) : (wordsOfLine line).length ≤ line.length := by
  have hruns := length_runs (fun c => c = ' ') (line.takeWhile fun c => c ≠ '\x00') []
  have htake := (List.takeWhile_sublist (fun c => decide (c ≠ '\x00')) (l := line)).length_le
  rw [if_pos rfl] at hruns
  unfold wordsOfLine
  refine Nat.le_trans (List.length_filter_le _ _) ?_
  rw [List.length_map]
  omega

theorem length_fgets : ∀ (s acc : Text),
    ((fgets acc s).flatMap wordsOfLine).length ≤ acc.length + s.length
  | [], acc => by
      rw [fgets]
      split
      · exact Nat.zero_le _
      · rw [List.flatMap_singleton]
        exact length_wordsOfLine acc
  | c :: s, acc => by
      have hline := length_wordsOfLine (acc ++ [c])
      have hrest := length_fgets s []
      have hmore := length_fgets s (acc ++ [c])
      simp only [List.length_append, List.length_cons, List.length_nil] at hline hrest hmore
      rw [fgets, List.length_cons]
      split
      · rw [List.flatMap_cons, List.length_append]
        omega
      · omega

theorem length_readString : ∀ (s acc : Text),
    ((readString acc s).flatMap fun linein => runs isSpace [] (toLower linein)).length ≤
      acc.length + s.length
  | [], acc => Nat.zero_le _
  | c :: s, acc => by
      have hline := length_runs isSpace (toLower (acc ++ [c])) []
      have hrest := length_readString s []
      have hmore := length_readString s (acc ++ [c])
      rw [if_pos rfl, toLower, List.length_map] at hline
      simp only [List.length_append, List.length_cons, List.length_nil] at hline hrest hmore
      rw [readString, List.length_cons]
      split
      · rw [List.flatMap_cons, List.length_append, toLower]
        omega
      · omega

/-! ## 7. The programs -/

/-- A whole number in its shortest form, as a number; not one of more than 18 digits. -/
def subscript (t : Text) : Nat ⊕ Text :=
  let n := Nat.ofDigitChars 10 t 0
  if n < maxNumber ∧ Nat.toDigits 10 n = t then .inl n else .inr t

theorem subscript_inj (s t : Text) (h : subscript s = subscript t) : s = t := by
  unfold subscript at h
  dsimp only at h
  split at h
  · rename_i hs
    split at h
    · rename_i ht
      rw [← hs.2, ← ht.2, Sum.inl.inj h]
    · cases h
  · split at h
    · cases h
    · exact Sum.inr.inj h

/-- Whole numbers in front of all other texts. -/
def numbersFirst : SubscriptOrder where
  toCollation := (Collation.natural.either Collation.bytewise).along subscript subscript_inj
  numbers m hm n hn := by
    have hnum : ∀ k < maxNumber, subscript (Nat.toDigits 10 k) = .inl k := fun k hk => by
      unfold subscript
      rw [Nat.ofDigitChars_ten_toDigits, if_pos ⟨hk, rfl⟩]
    show Collation.ltEither _ _ (subscript _) (subscript _) = _
    rw [hnum m hm, hnum n hn]
    rfl

/-- Both programs print the words of the text with their counts, and so the same. -/
structure Agree (o : SubscriptOrder) (text : Text) : Prop where
  right_c : Right o (wordsOf text) (mainC o text)
  right_go : Right o (wordsOf text) (mainGo o text)
  same : mainC o text = mainGo o text

section Programs

variable {o : SubscriptOrder} {text : Text}

theorem right_mainC (h : Input text) : Right o (wordsOfC text) (mainC o text) := by
  have hlen := length_fgets text []
  rw [List.length_nil, Nat.zero_add] at hlen
  exact right_output o (Nat.lt_of_le_of_lt hlen h.short)

theorem right_mainGo (h : Input text) : Right o (wordsOfGo text) (mainGo o text) := by
  have hlen := length_readString text []
  rw [List.length_nil, Nat.zero_add] at hlen
  exact right_output o (Nat.lt_of_le_of_lt hlen h.short)

/-- The Go program is right if it has counted every word. -/
theorem lastLine_of_right_go (h : Input text) (hr : Right o (wordsOf text) (mainGo o text)) :
    wordsOf (lastLine [] text) = [] := by
  refine List.eq_nil_iff_forall_not_mem.2 fun w hw => ?_
  have hcount := hr.count_eq (right_mainGo h) w
  rw [← wordsOfGo_append h, List.count_append] at hcount
  have hpos := List.count_pos_iff.2 hw
  omega

theorem nul_of_right_c (h : Input text) (hr : Right o (wordsOf text) (mainC o text)) : '\x00' ∉ text := by
  intro hnul
  obtain ⟨w, hw, hc⟩ := exists_nul_mem_wordsOf hnul
  have hcount := hr.count_eq (right_mainC h) w
  have hnever : w ∉ wordsOfC text := fun hmem => nul_notMem_wordsOfC hmem hc
  have hpos := List.count_pos_iff.2 hw
  rw [hcount, List.count_eq_zero_of_not_mem hnever] at hpos
  exact Nat.lt_irrefl 0 hpos

/-- **The two programs agree exactly where** no word stands behind the last newline, which the Go program
leaves out, and no NUL in the text, which ends a string of the C program. -/
theorem agree_iff (o : SubscriptOrder) (h : Input text) :
    Agree o text ↔ wordsOf (lastLine [] text) = [] ∧ '\x00' ∉ text := by
  constructor
  · intro hagree
    exact ⟨lastLine_of_right_go h hagree.right_go, nul_of_right_c h hagree.right_c⟩
  · intro hcond
    obtain ⟨hlast, hnul⟩ := hcond
    have hc := wordsOfC_eq h hnul
    have hgo := wordsOfGo_append h
    rw [hlast, List.append_nil] at hgo
    have hright_c := right_mainC (o := o) h
    have hright_go := right_mainGo (o := o) h
    rw [hc] at hright_c
    rw [hgo] at hright_go
    refine ⟨hright_c, hright_go, ?_⟩
    unfold mainC mainGo
    rw [hc, hgo]
    rfl

end Programs

theorem agree_two_lines : Agree numbersFirst "b a\nB\n".toList :=
  (agree_iff numbersFirst (.of_short (by decide) (by decide))).2 ⟨by decide, by decide⟩

/-- Of a text without a newline the Go program counts nothing. -/
theorem last_line_lost : Input "a".toList ∧ ¬ Agree numbersFirst "a".toList := by
  have hinput : Input "a".toList := .of_short (by decide) (by decide)
  refine ⟨hinput, fun h => ?_⟩
  have hcount := h.right_go.count_eq (right_mainGo hinput) "a".toList
  exact absurd hcount (by decide)

end YottaTest.SimpleApi.Wordfreq
