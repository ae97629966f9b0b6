/-
  File:      YottaTest/Outref/Deny.lean
  Subject:   outref.awk: the text of denied names, and its directives.

  * `suspendOutput`, `allowOutput`, `suppressed` -- what the two directives do to the text, and whether
    a line is printed;
  * `Spells` -- the text spells the names of a list;
  * `suspendOutput_spells`, `gensub_spells` -- a name added, and taken out;
  * `suppressed_iff` -- a line is kept back exactly if an option is among the names.
-/
import Mathlib.Data.List.Nodup
import YottaTest.Awk.Marked
import YottaTest.Outref.Envir

namespace YottaTest.Outref

open YottaTest.Awk

/-! ## 1. The code -/

/-- `gensub(pattern,new,"g",text)`; `none` where awk stops at the pattern. -/
def gensub (pattern new text : Text) : Option Text := (ere pattern).map fun r => gsub r new text

def hostAll : Text := "HOST_ALL".toList

theorem process_hostAll : process hostAll = hostAll := by
  rw [process_texts]
  unfold rules letterRule hostAll
  simp only [List.map_cons, List.map_nil, Rule.texts]
  repeat rw [String.toList_ofList]
  decide +kernel

/-- `envir[elem]` once it is between marks. -/
def wrap (option : Text) : Text := if option = [] then ['@'] else tagged '#' option

section Directives

variable (env : Environ)

/-- Added to the text if it is not there already. -/
def addName (deny name : Text) : Text :=
  if index deny (tagged '#' name) = 0 then deny ++ tagged '#' name else deny

/-- One name of a SUSPEND_OUTPUT directive. -/
def suspendField (deny x : Text) : Text :=
  if process x ≠ hostAll then addName deny (process x)
  else (env.visit (platforms env)).foldl addName deny

/-- `##SUSPEND_OUTPUT` with its names. -/
def suspendOutput (xs : List Text) (deny : Text) : Option Text :=
  gensub "#[#]*".toList ['#'] (xs.foldl (suspendField env) deny)

/-- `gensub("#"name"#","#","g",deny)`. -/
def dropName (deny name : Text) : Option Text := gensub (tagged '#' name) ['#'] deny

def envlist : Text :=
  wrap (host env) ++ ' ' :: machtype env ++ ' ' :: osname env ++ ' ' :: linuxDistrib env

/-- The names that go with this host. -/
def hostNames : List Text := [hostosMachtype env, machtype env, osname env, linuxDistrib env]

/-- The name itself, or all platforms and this host. -/
def allowNames (deny x : Text) : Option Text :=
  if process x ≠ hostAll then dropName deny (process x)
  else ((env.visit (platforms env)).foldlM dropName deny).bind fun deny => dropName deny (wrap (host env))

/-- If the name is one for this host, what goes with this host. -/
def allowKinds (deny x : Text) : Option Text :=
  if index (envlist env) (process x) ≠ 0 then (hostNames env).foldlM dropName deny else some deny

/-- One name of an ALLOW_OUTPUT directive. -/
def allowField (deny x : Text) : Option Text := (allowNames env deny x).bind fun deny => allowKinds env deny x

/-- `##ALLOW_OUTPUT` with its names. -/
def allowOutput (xs : List Text) (deny : Text) : Option Text := xs.foldlM (allowField env) deny

/-- No line is printed: one of the options is in the text. -/
def suppressed (deny : Text) : Bool := (held env).any fun option => index deny (wrap option) ≠ 0

end Directives

/-- The text spells these names, in some order and each any number of times. -/
inductive Spells : Text → List Text → Prop where
  | unset : Spells [] []
  | row {names : List Text} (h : ∀ n ∈ names, '#' ∉ n) : Spells (marked '#' names) names

theorem ere_run : ere "#[#]*".toList = some (run '#') := by decide

theorem gensub_run (deny : Text) : gensub "#[#]*".toList ['#'] deny = some (squeeze '#' deny) := by
  rw [gensub, ere_run, Option.map_some, gsub, gsub_run (by decide)]

theorem index_tagged {deny : Text} {names : List Text} (h : Spells deny names) {name : Text}
    (hname : '#' ∉ name) : index deny (tagged '#' name) ≠ 0 ↔ name ∈ names := by
  have hne : tagged '#' name ≠ [] := List.cons_ne_nil _ _
  rw [Ne, index_eq_zero hne, not_not]
  cases h with
  | unset => simp [hne]
  | row h => exact tagged_infix_marked hname h

theorem index_at {deny : Text} {names : List Text} (h : Spells deny names) :
    index deny ['@'] ≠ 0 ↔ ∃ name ∈ names, '@' ∈ name := by
  have hne : ['@'] ≠ [] := List.cons_ne_nil _ _
  rw [Ne, index_eq_zero hne, not_not]
  cases h with
  | unset => simp
  | row h => exact char_infix_marked (by decide) _

theorem Spells.squeeze {deny : Text} {names : List Text} (h : Spells deny names) :
    Spells (squeeze '#' deny) (names.filter (· ≠ [])) := by
  cases h with
  | unset => exact Spells.unset
  | row hnames =>
      rw [squeeze_marked hnames]
      exact Spells.row fun n hn => hnames n (List.mem_filter.1 hn).1

/-- **A line is kept back exactly if an option is among the names**, or if an option is empty and a
    name has the mark for that. -/
theorem suppressed_iff {env : Environ} {deny : Text} {names : List Text} (h : Spells deny names)
    (hheld : ∀ w ∈ held env, '#' ∉ w) : suppressed env deny = true ↔
    (∃ w ∈ held env, w ≠ [] ∧ w ∈ names) ∨ ([] ∈ held env ∧ ∃ name ∈ names, '@' ∈ name) := by
  have hwrap : ∀ w ∈ held env, (index deny (wrap w) ≠ 0 ↔
      (w ≠ [] ∧ w ∈ names) ∨ (w = [] ∧ ∃ name ∈ names, '@' ∈ name)) := by
    intro w hw
    unfold wrap
    by_cases hnil : w = []
    · rw [if_pos hnil, index_at h]
      simp [hnil]
    · rw [if_neg hnil, index_tagged h (hheld w hw)]
      simp [hnil]
  unfold suppressed
  simp only [List.any_eq_true, decide_eq_true_eq]
  constructor
  · intro h
    obtain ⟨w, hw, hindex⟩ := h
    rcases (hwrap w hw).1 hindex with ⟨hne, hmem⟩ | ⟨rfl, hname⟩
    · exact Or.inl ⟨w, hw, hne, hmem⟩
    · exact Or.inr ⟨hw, hname⟩
  · intro hcase
    rcases hcase with ⟨w, hw, hne, hmem⟩ | ⟨hw, hname⟩
    · exact ⟨w, hw, (hwrap w hw).2 (Or.inl ⟨hne, hmem⟩)⟩
    · exact ⟨[], hw, (hwrap [] hw).2 (Or.inr ⟨rfl, hname⟩)⟩

/-! ## 3. Names added -/

/-- A list of names without repetitions, empty names apart. -/
def Tidy (names : List Text) : Prop := (names.filter (· ≠ [])).Nodup

theorem addName_spells {deny : Text} {names : List Text} (h : Spells deny names) (htidy : Tidy names)
    {name : Text} (hname : '#' ∉ name) : ∃ names', Spells (addName deny name) names' ∧ Tidy names' ∧
      ∀ n, n ≠ [] → (n ∈ names' ↔ n ∈ names ∨ n = name) := by
  unfold addName
  by_cases hin : name ∈ names
  · rw [if_neg ((index_tagged h hname).2 hin)]
    refine ⟨names, h, htidy, fun n _ => ?_⟩
    constructor
    · exact Or.inl
    · intro hn
      rcases hn with hn | rfl
      · exact hn
      · exact hin
  · rw [if_pos (not_not.1 fun hne => hin ((index_tagged h hname).1 hne))]
    cases h with
    | unset =>
        refine ⟨[name], ?_, List.Sublist.nodup List.filter_sublist (List.nodup_singleton _), by simp⟩
        rw [List.nil_append, ← marked_singleton]
        exact Spells.row (by simpa using hname)
    | row hnames =>
        refine ⟨names ++ [[], name], ?_, ?_, fun n hn => by simp [hn]⟩
        · rw [marked_append_tagged]
          refine Spells.row fun n hn => ?_
          rcases List.mem_append.1 hn with hn | hn
          · exact hnames n hn
          · rcases List.mem_cons.1 hn with rfl | hn
            · exact List.not_mem_nil
            · rw [List.mem_singleton.1 hn]
              exact hname
        · have hnew : ∀ n ∈ names.filter (· ≠ []), ¬ n = name := by
            intro n hn heq
            exact hin (heq ▸ (List.mem_filter.1 hn).1)
          have hfew : Tidy [[], name] := by
            unfold Tidy
            by_cases hnil : name = []
            · simp [hnil]
            · simp [hnil]
          rw [Tidy, List.filter_append]
          refine List.Nodup.append htidy hfew ?_
          intro n hn hn'
          obtain ⟨hmem, hne⟩ := List.mem_filter.1 hn'
          simp at hmem hne
          exact hnew n hn (hmem.resolve_left hne)

theorem addNames_spells : ∀ (added : List Text) {deny : Text} {names : List Text}, Spells deny names →
    Tidy names → (∀ n ∈ added, '#' ∉ n) → ∃ names', Spells (added.foldl addName deny) names' ∧
      Tidy names' ∧ ∀ n, n ≠ [] → (n ∈ names' ↔ n ∈ names ∨ n ∈ added)
  | [], _, names, h, htidy, _ => ⟨names, h, htidy, by simp⟩
  | name :: added, _, _, h, htidy, hadded => by
      obtain ⟨names₁, h₁, htidy₁, hmem₁⟩ := addName_spells h htidy (hadded name List.mem_cons_self)
      obtain ⟨names₂, h₂, htidy₂, hmem₂⟩ :=
        addNames_spells added h₁ htidy₁ fun n hn => hadded n (List.mem_cons_of_mem name hn)
      refine ⟨names₂, h₂, htidy₂, fun n hn => ?_⟩
      rw [hmem₂ n hn, hmem₁ n hn, List.mem_cons, or_assoc]

/-- The names a SUSPEND_OUTPUT directive adds for one of its names. -/
def suspendNames (env : Environ) (x : Text) : List Text :=
  if process x ≠ hostAll then [process x] else env.visit (platforms env)

theorem suspendField_eq (env : Environ) (deny x : Text) :
    suspendField env deny x = (suspendNames env x).foldl addName deny := by
  unfold suspendField suspendNames
  split
  · rfl
  · rfl

theorem suspendFields_eq (env : Environ) : ∀ (xs : List Text) (deny : Text),
    xs.foldl (suspendField env) deny = (xs.flatMap (suspendNames env)).foldl addName deny
  | [], _ => rfl
  | x :: xs, deny => by
      rw [List.foldl_cons, suspendField_eq, suspendFields_eq env xs, List.flatMap_cons, List.foldl_append]

/-- **A SUSPEND_OUTPUT directive adds its names.** -/
theorem suspendOutput_spells {env : Environ} {deny : Text} {names : List Text} (h : Spells deny names)
    (htidy : Tidy names) {xs : List Text} (hxs : ∀ n ∈ xs.flatMap (suspendNames env), '#' ∉ n) :
    ∃ deny' names', suspendOutput env xs deny = some deny' ∧ Spells deny' names' ∧ names'.Nodup ∧
      ∀ n, n ∈ names' ↔ n ≠ [] ∧ (n ∈ names ∨ n ∈ xs.flatMap (suspendNames env)) := by
  obtain ⟨names', h', htidy', hmem⟩ := addNames_spells _ h htidy hxs
  refine ⟨squeeze '#' (xs.foldl (suspendField env) deny), names'.filter (· ≠ []), gensub_run _, ?_, htidy', ?_⟩
  · rw [suspendFields_eq]
    exact h'.squeeze
  · intro n
    rw [List.mem_filter, decide_eq_true_eq, and_comm]
    constructor
    · intro ⟨hne, hin⟩
      exact ⟨hne, (hmem n hne).1 hin⟩
    · intro ⟨hne, hin⟩
      exact ⟨hne, (hmem n hne).2 hin⟩

end YottaTest.Outref
