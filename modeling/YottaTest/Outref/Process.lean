/-
  File:      YottaTest/Outref/Process.lean
  Subject:   process.awk: the canonical spelling of an option.

  * `rules`, `process` -- the cascade, and what it gives an option with the result "correct";
  * `spellings`, `process_spelling` -- **every canonical spelling is its own**;
  * `IsOwn`, `process_eq_self_iff` -- an option is its own canonical spelling exactly if it is one of
    these, or a single letter, or no rule takes it.
-/
import YottaTest.Awk.Regex

namespace YottaTest.Outref

open YottaTest.Awk

abbrev Text := List Char

/-- `toupper(text)`. -/
def toupper (text : Text) : Text := text.map Char.toUpper

/-- When a rule takes an option. -/
inductive Test where
  /-- `option ~ /pattern/` -/
  | matching (pattern : String)
  /-- `option == /pattern/`: awk compares the option with the result of `$0 ~ /pattern/`, which is "0"
      on a directive line -/
  | sameAs (pattern : String)
  deriving DecidableEq, Repr

/-- What a rule puts out. -/
inductive Oput where
  | name (spelling : String)
  | option
  deriving DecidableEq, Repr

structure Rule where
  test : Test
  oput : Oput
  deriving DecidableEq, Repr

/-- The rule for single letters. -/
def letterRule : Rule := ⟨.matching "^[A-Z]$", .option⟩

def rules : List Rule := [
  ⟨.matching "^BG$", .name "BG"⟩,
  ⟨.matching "^MM$", .name "MM"⟩,
  ⟨.matching "^REPLIC$", .name "REPLIC"⟩,
  ⟨.matching "^NO.*REP", .name "NON_REPLIC"⟩,
  ⟨.matching "^MULTISITE", .name "MULTISITE"⟩,
  ⟨.matching "^MULTI_SITE", .name "MULTISITE"⟩,
  ⟨.matching "^SUPPL.*_AB", .name "SUPPLEMENTARY_AB"⟩,
  ⟨.matching "^SUPPL.*_AP", .name "SUPPLEMENTARY_AP"⟩,
  ⟨.matching "^SUPPL.*_PQ", .name "SUPPLEMENTARY_PQ"⟩,
  ⟨.matching "^2WL$", .name "2WL"⟩,
  ⟨.matching "^ATL$", .name "ATL"⟩,
  ⟨.matching "^NONGGSERVER", .name "NONGGSERVER"⟩,
  ⟨.matching "^BIG_ENDIAN", .name "BIG_ENDIAN"⟩,
  ⟨.matching "^LITTLE_ENDIAN", .name "LITTLE_ENDIAN"⟩,
  ⟨.matching "^UNICODE_MODE", .name "UNICODE_MODE"⟩,
  ⟨.matching "^NONUNICODE_MODE", .name "NONUNICODE_MODE"⟩,
  ⟨.matching "^REORG$", .name "REORG"⟩,
  ⟨.matching "^NO.*REO", .name "NON_REORG"⟩,
  ⟨.matching "^SIN", .name "SINGLE_REG"⟩,
  ⟨.matching "^MULTI_R", .name "MULTI_REG"⟩,
  ⟨.matching "^MULTIR", .name "MULTI_REG"⟩,
  ⟨.matching "^GT[^C]?M", .name "GT.M"⟩,
  ⟨.matching "^GT[^C]?CM", .name "GT.CM"⟩,
  ⟨.matching "^TP$", .name "TP"⟩,
  ⟨.matching "^NON?.?TP$", .name "NON_TP"⟩,
  letterRule,
  ⟨.matching "^UNNICE$", .name "UNNICE"⟩,
  ⟨.matching "^NON?.?NI", .name "UNNICE"⟩,
  ⟨.matching "^NICE$", .name "NICE"⟩,
  ⟨.matching "^COLLATION$", .name "COLLATION"⟩,
  ⟨.matching "^NO.*CO", .name "NON_COLLATION"⟩,
  ⟨.matching "^SETJNL", .name "SETJNL"⟩,
  ⟨.sameAs "^JNL", .name "SETJNL"⟩,
  ⟨.matching "^NO.*JNL", .name "NON_SETJNL"⟩,
  ⟨.matching "^NO.*NOLINE", .name "NON_NOLINE"⟩,
  ⟨.matching "^NOLINE", .name "NOLINE"⟩,
  ⟨.matching "^DBG$", .name "DBG"⟩,
  ⟨.matching "^PRO$", .name "PRO"⟩,
  ⟨.matching "^BTA$", .name "BTA"⟩,
  ⟨.matching "^UTF8", .name "UTF8"⟩,
  ⟨.matching "^NON_UTF8", .name "NON_UTF8"⟩,
  ⟨.sameAs "^JNL_BEFORE", .name "JNL_BEFORE"⟩,
  ⟨.sameAs "^JNL_NOBEFORE", .name "JNL_NOBEFORE"⟩,
  ⟨.matching "^64BIT_GTM", .name "64BIT_GTM"⟩,
  ⟨.matching "^32BIT_GTM", .name "32BIT_GTM"⟩,
  ⟨.matching "^PLATFORM_NO_V4GTM", .name "PLATFORM_NO_V4GTM"⟩,
  ⟨.matching "^PLATFORM_NO_PRIORGTM", .name "PLATFORM_NO_PRIORGTM"⟩,
  ⟨.matching "^PLATFORM_NO_COMPRESS_VER", .name "PLATFORM_NO_COMPRESS_VER"⟩,
  ⟨.matching "^PLATFORM_NO_DSVER", .name "PLATFORM_NO_DSVER"⟩,
  ⟨.matching "^PLATFORM_NO_GGTOOLSDIR", .name "PLATFORM_NO_GGTOOLSDIR"⟩,
  ⟨.matching "^PLATFORM_NO_GGUSERS", .name "PLATFORM_NO_GGUSERS"⟩,
  ⟨.matching "^PLATFORM_NO_GGBUILDDIR", .name "PLATFORM_NO_GGBUILDDIR"⟩,
  ⟨.matching "^PLATFORM_NO_IGS", .name "PLATFORM_NO_IGS"⟩,
  ⟨.matching "^PLATFORM_NO_4BYTE_UTF8", .name "PLATFORM_NO_4BYTE_UTF8"⟩,
  ⟨.matching "^PLATFORM_JAVA", .name "PLATFORM_JAVA"⟩,
  ⟨.matching "^PLATFORM_NOJAVA", .name "PLATFORM_NOJAVA"⟩,
  ⟨.matching "^MM_FILE_EXT", .name "MM_FILE_EXT"⟩,
  ⟨.matching "^MM_FILE_NO_EXT", .name "MM_FILE_NO_EXT"⟩,
  ⟨.matching "^ENCRYPT", .name "ENCRYPT"⟩,
  ⟨.matching "^NON_ENCRYPT", .name "NON_ENCRYPT"⟩,
  ⟨.matching "^TRIGGER", .name "TRIGGER"⟩,
  ⟨.matching "^NOTRIGGER", .name "NOTRIGGER"⟩,
  ⟨.matching "^TLS$", .name "TLS"⟩,
  ⟨.matching "^NOTLS$", .name "NOTLS"⟩,
  ⟨.matching "^SPANNING_REGIONS", .name "SPANNING_REGIONS"⟩,
  ⟨.matching "^NONSPANNING_REGIONS", .name "NONSPANNING_REGIONS"⟩]

def Test.takes (test : Test) (option : Text) : Bool :=
  match test with
  | .matching pattern => match ere pattern.toList with
    | some r => matchesText r option
    | none => false
  | .sameAs _ => option = ['0']

def Rule.spell (rule : Rule) (option : Text) : Text :=
  match rule.oput with
  | .name spelling => spelling.toList
  | .option => option

/-- The rule that takes an option: the first one. -/
def captor (option : Text) : Option Rule := rules.find? fun rule => rule.test.takes option

/-- `process(option,"correct")`. -/
def process (option : Text) : Text :=
  match captor (toupper option) with
  | some rule => rule.spell (toupper option)
  | none => toupper option

/-- The spellings the rules put out. -/
def spellings : List Text := rules.filterMap fun rule =>
  match rule.oput with
  | .name spelling => some spelling.toList
  | .option => none

/-- A rule by the texts of its pattern and its spelling; `none` for a comparison, and for the option. -/
def Rule.texts (rule : Rule) : Option Text × Option Text :=
  (match rule.test with
    | .matching pattern => some pattern.toList
    | .sameAs _ => none,
   match rule.oput with
    | .name spelling => some spelling.toList
    | .option => none)

/-- `matchesText`, without the places where a pattern that begins with `^` cannot match. -/
def matchesStart : Regex → Text → Bool
  | .seq .bol r, option => (longest (.seq .bol r) ⟨none, option⟩).isSome
  | r, option => matchesText r option

theorem matchesStart_eq (r : Regex) (option : Text) : matchesStart r option = matchesText r option := by
  unfold matchesStart
  split
  · exact (matchesText_bol _ option).symm
  · rfl

/-- `Test.takes`, for the text of a pattern. -/
def takesText (pattern : Option Text) (option : Text) : Bool :=
  match pattern with
  | some pattern => match ere pattern with
    | some r => matchesStart r option
    | none => false
  | none => option = ['0']

theorem takesText_texts (rule : Rule) (option : Text) :
    takesText rule.texts.1 option = rule.test.takes option := by
  obtain ⟨test, oput⟩ := rule
  cases test with
  | matching pattern =>
      show (match ere pattern.toList with | some r => matchesStart r option | none => false) = _
      simp only [matchesStart_eq]
      rfl
  | sameAs pattern => rfl

theorem spell_texts (rule : Rule) (option : Text) : rule.texts.2.getD option = rule.spell option := by
  obtain ⟨test, oput⟩ := rule
  cases oput with
  | name spelling => rfl
  | option => rfl

theorem process_texts (option : Text) : process option =
    (((rules.map Rule.texts).find? fun x => takesText x.1 (toupper option)).elim (toupper option)
      fun x => x.2.getD (toupper option)) := by
  have htakes : (fun x : Option Text × Option Text => takesText x.1 (toupper option)) ∘ Rule.texts =
      fun rule => rule.test.takes (toupper option) := funext fun rule => takesText_texts rule _
  rw [List.find?_map, htakes, process, captor]
  cases rules.find? fun rule => rule.test.takes (toupper option) with
  | none => rfl
  | some rule => exact (spell_texts rule _).symm

theorem spellings_texts : spellings = (rules.map Rule.texts).filterMap Prod.snd := by
  rw [List.filterMap_map]
  refine List.filterMap_congr fun rule _ => ?_
  obtain ⟨test, oput⟩ := rule
  cases oput with
  | name spelling => rfl
  | option => rfl

set_option maxRecDepth 4000 in
/-- **Every canonical spelling is its own.** -/
theorem process_spelling : ∀ spelling ∈ spellings, process spelling = spelling := by
  simp only [spellings_texts, process_texts]
  unfold rules letterRule
  simp only [List.map_cons, List.map_nil, Rule.texts]
  -- with the texts of the literals written out the kernel does not decode them again for every option
  repeat rw [String.toList_ofList]
  decide +kernel

theorem mem_spellings {pattern spelling : String} (h : ⟨.matching pattern, .name spelling⟩ ∈ rules) :
    spelling.toList ∈ spellings := List.mem_filterMap.2 ⟨_, h, rfl⟩

/-- The rules see an option in capitals. -/
theorem process_congr {option option' : Text} (h : toupper option = toupper option') :
    process option = process option' := by
  rw [process, h]
  rfl

theorem spell_mem_spellings {rule : Rule} (h : rule ∈ rules) (hrule : rule ≠ letterRule) (option : Text) :
    rule.spell option ∈ spellings := by
  have hname : ∀ rule ∈ rules, rule = letterRule ∨ ∃ spelling, rule.oput = .name spelling := by
    intro rule h
    cases hput : rule.oput with
    | name spelling => exact Or.inr ⟨spelling, rfl⟩
    | option =>
        have honly : ∀ rule ∈ rules, rule.oput = .option → rule = letterRule := by decide +kernel
        exact Or.inl (honly rule h hput)
  rcases hname rule h with heq | ⟨spelling, hput⟩
  · exact absurd heq hrule
  · refine List.mem_filterMap.2 ⟨rule, h, ?_⟩
    rw [Rule.spell, hput]

/-- What `process` gives: the option itself, or one of the spellings. -/
theorem process_cases (option : Text) :
    process option = toupper option ∨ process option ∈ spellings := by
  unfold process
  cases hrule : captor (toupper option) with
  | none => exact Or.inl rfl
  | some rule =>
      by_cases hletter : rule = letterRule
      · rw [hletter]
        exact Or.inl rfl
      · exact Or.inr (spell_mem_spellings (List.mem_of_find?_eq_some hrule) hletter _)

/-- An option that the rules leave as it is: one of the spellings, a single letter, or one that no rule
    takes. -/
def IsOwn (option : Text) : Prop :=
  option ∈ spellings ∨ captor option = some letterRule ∨ captor option = none

/-- **Only these are their own canonical spelling.** -/
theorem process_eq_self_iff {option : Text} (hupper : toupper option = option) :
    process option = option ↔ IsOwn option := by
  constructor
  · intro h
    unfold process at h
    rw [hupper] at h
    unfold IsOwn
    cases hrule : captor option with
    | none => exact Or.inr (Or.inr rfl)
    | some rule =>
        rw [hrule] at h
        by_cases hletter : rule = letterRule
        · exact Or.inr (Or.inl (congrArg some hletter))
        · have hmem := spell_mem_spellings (List.mem_of_find?_eq_some hrule) hletter option
          dsimp only at h
          rw [h] at hmem
          exact Or.inl hmem
  · intro h
    rcases h with hmem | hletter | hnone
    · exact process_spelling option hmem
    · rw [process, hupper, hletter]
      rfl
    · rw [process, hupper, hnone]

/-- A spelling has neither of the two marks of the deny text, and is not empty. -/
theorem spelling_clean : ∀ spelling ∈ spellings, '#' ∉ spelling ∧ '@' ∉ spelling ∧ spelling ≠ [] := by
  simp only [spellings_texts]
  unfold rules letterRule
  simp only [List.map_cons, List.map_nil, Rule.texts]
  repeat rw [String.toList_ofList]
  decide +kernel

end YottaTest.Outref
