/-
  File:      YottaTest/Outref/Options.lean
  Subject:   Which active options a SUSPEND_OUTPUT directive can name.

  * `denied_addName`, `suspendOutput_denies` -- what is between marks in the text stays there;
  * `Suspendable`, `suspendable_iff` -- **the options whose directive keeps the lines back**;
  * `parallel_not_suspended` -- one that has none.
-/
import YottaTest.Outref.Deny

namespace YottaTest.Outref

open YottaTest.Awk

/-! ## 1. A denied name is found -/

theorem infix_addName {w deny : Text} (h : w <:+: deny) (name : Text) : w <:+: addName deny name := by
  unfold addName
  split
  · exact h.trans (List.prefix_append _ _).isInfix
  · exact h

theorem infix_addNames {w : Text} : ∀ (added : List Text) {deny : Text}, w <:+: deny →
    w <:+: added.foldl addName deny
  | [], _, h => h
  | name :: added, _, h => infix_addNames added (infix_addName h name)

theorem denied_addName (deny name : Text) : tagged '#' name <:+: addName deny name := by
  unfold addName
  split
  · exact (List.suffix_append _ _).isInfix
  · rename_i hin
    have hne : tagged '#' name ≠ [] := List.cons_ne_nil _ _
    rw [index_eq_zero hne, not_not] at hin
    exact hin

theorem denied_addNames {name : Text} : ∀ {added : List Text} (deny : Text), name ∈ added →
    tagged '#' name <:+: added.foldl addName deny
  | other :: added, deny, h => by
      rcases List.mem_cons.1 h with rfl | h
      · exact infix_addNames added (denied_addName deny name)
      · exact denied_addNames (addName deny other) h

/-- **What a directive names is in the text after it**, whatever the text was. -/
theorem suspendOutput_denies {env : Environ} {name v : Text} (hname : '#' ∉ name) (hne : name ≠ [])
    (h : name ∈ suspendNames env v) (deny : Text) :
    ∃ deny', suspendOutput env [v] deny = some deny' ∧ tagged '#' name <:+: deny' := by
  refine ⟨_, gensub_run _, tagged_infix_squeeze hname hne ?_⟩
  rw [suspendFields_eq, List.flatMap_singleton]
  exact denied_addNames deny h

theorem suppressed_of_index {env : Environ} {w deny : Text} (hw : w ∈ held env)
    (h : wrap w <:+: deny) : suppressed env deny = true := by
  unfold suppressed
  have hne : wrap w ≠ [] := by
    unfold wrap
    split
    · exact List.cons_ne_nil _ _
    · exact List.cons_ne_nil _ _
  rw [List.any_eq_true]
  refine ⟨w, hw, decide_eq_true ?_⟩
  rw [Ne, index_eq_zero hne, not_not]
  exact h

theorem suppressed_of_tagged {env : Environ} {w deny : Text} (hw : w ∈ held env) (hne : w ≠ [])
    (h : tagged '#' w <:+: deny) : suppressed env deny = true := by
  refine suppressed_of_index hw ?_
  rw [wrap, if_neg hne]
  exact h

/-! ## 2. Which options can be suspended -/

/-- The options that the rules of `process` leave as they are, or give the spelling of an option in the
    environment; HOST_ALL stands for the platforms, so one of these must be an option. -/
def Suspendable (env : Environ) (v : Text) : Prop :=
  (v ≠ hostAll ∧ (IsOwn v ∨ ∃ rule, captor v = some rule ∧ rule.spell v ∈ held env)) ∨
    (v = hostAll ∧ ∃ p ∈ platforms env, p ∈ held env ∨ ('@' ∈ p ∧ [] ∈ held env))

theorem hostAll_notMem_spellings : hostAll ∉ spellings := by
  rw [spellings_texts]
  unfold rules letterRule hostAll
  simp only [List.map_cons, List.map_nil, Rule.texts]
  repeat rw [String.toList_ofList]
  decide +kernel

theorem process_eq_hostAll {v : Text} (hupper : toupper v = v) : process v = hostAll ↔ v = hostAll := by
  constructor
  · intro h
    rcases process_cases v with heq | hmem
    · rw [h, hupper] at heq
      exact heq.symm
    · rw [h] at hmem
      exact absurd hmem hostAll_notMem_spellings
  · intro h
    rw [h]
    exact process_hostAll

/-- The spelling that the first rule gives is in the environment, or no rule changes the option. -/
theorem process_mem_held {env : Environ} {v : Text} (hupper : toupper v = v) (hv : v ∈ held env) :
    process v ∈ held env ↔ IsOwn v ∨ ∃ rule, captor v = some rule ∧ rule.spell v ∈ held env := by
  constructor
  · intro h
    unfold process at h
    rw [hupper] at h
    cases hrule : captor v with
    | none => exact Or.inl (Or.inr (Or.inr hrule))
    | some rule =>
        rw [hrule] at h
        exact Or.inr ⟨rule, rfl, h⟩
  · intro h
    rcases h with hown | ⟨rule, hrule, hmem⟩
    · rw [(process_eq_self_iff hupper).2 hown]
      exact hv
    · rw [process, hupper, hrule]
      exact hmem

theorem process_clean {v : Text} (hupper : toupper v = v) (hv : '#' ∉ v) (hne : v ≠ []) :
    '#' ∉ process v ∧ process v ≠ [] := by
  rcases process_cases v with heq | hmem
  · rw [heq, hupper]
    exact ⟨hv, hne⟩
  · obtain ⟨h1, -, h2⟩ := spelling_clean _ hmem
    exact ⟨h1, h2⟩

section Suspend

variable {env : Environ} {v : Text}

/-- From an empty text a line is kept back only if one of the names added is an option. -/
theorem suspended_of_unset {deny : Text} (hheld : ∀ w ∈ held env, '#' ∉ w)
    (hadded : ∀ n ∈ suspendNames env v, '#' ∉ n) (h : suspendOutput env [v] [] = some deny)
    (hsup : suppressed env deny = true) :
    ∃ n ∈ suspendNames env v, n ∈ held env ∨ ('@' ∈ n ∧ [] ∈ held env) := by
  obtain ⟨deny', names, hdeny', hspells, -, hmem⟩ :=
    @suspendOutput_spells env [] [] Spells.unset List.nodup_nil [v] (by simpa using hadded)
  rw [hdeny'] at h
  obtain rfl := Option.some.inj h
  have hfrom : ∀ n ∈ names, n ∈ suspendNames env v := by
    intro n hn
    simpa using ((hmem n).1 hn).2
  rcases (suppressed_iff hspells hheld).1 hsup with ⟨w, hw, -, hin⟩ | ⟨hnil, n, hn, hat⟩
  · exact ⟨w, hfrom w hin, Or.inl hw⟩
  · exact ⟨n, hfrom n hn, Or.inr ⟨hat, hnil⟩⟩

/-- **The active options whose SUSPEND_OUTPUT directive keeps the following lines back.** -/
theorem suspendable_iff (hheld : ∀ w ∈ held env, '#' ∉ w) (hplat : ∀ p ∈ platforms env, '#' ∉ p)
    (hv : v ∈ held env) (hne : v ≠ []) (hupper : toupper v = v) :
    (∀ deny, ∃ deny', suspendOutput env [v] deny = some deny' ∧ suppressed env deny' = true) ↔
      Suspendable env v := by
  have hclean := process_clean hupper (hheld v hv) hne
  have hvisit : ∀ n, n ∈ env.visit (platforms env) ↔ n ∈ platforms env :=
    fun n => (env.visit_perm _).mem_iff
  have hall := process_eq_hostAll hupper
  unfold Suspendable
  by_cases hhost : v = hostAll
  · have hnames : suspendNames env v = env.visit (platforms env) := if_neg fun h => h (hall.2 hhost)
    constructor
    · intro h
      obtain ⟨deny', hdeny', hsup⟩ := h []
      have hadded : ∀ n ∈ suspendNames env v, '#' ∉ n := by
        intro n hn
        rw [hnames, hvisit] at hn
        exact hplat n hn
      obtain ⟨n, hn, hcase⟩ := suspended_of_unset hheld hadded hdeny' hsup
      rw [hnames, hvisit] at hn
      exact Or.inr ⟨hhost, n, hn, hcase⟩
    · intro h deny
      rcases h with ⟨hnot, -⟩ | ⟨-, p, hp, hcase⟩
      · exact absurd hhost hnot
      · have hin : p ∈ suspendNames env v := by
          rw [hnames, hvisit]
          exact hp
        have hpne := mem_fields_ne_nil hp
        obtain ⟨deny', hdeny', hfound⟩ := suspendOutput_denies (hplat p hp) hpne hin deny
        refine ⟨deny', hdeny', ?_⟩
        rcases hcase with hmem | ⟨hat, hnil⟩
        · exact suppressed_of_tagged hmem hpne hfound
        · refine suppressed_of_index hnil ?_
          rw [wrap, if_pos rfl, List.singleton_infix_iff]
          exact hfound.subset (by simp [tagged, hat])
  · have hnames : suspendNames env v = [process v] := if_pos fun h => hhost (hall.1 h)
    have hmem := process_mem_held hupper hv
    constructor
    · intro h
      obtain ⟨deny', hdeny', hsup⟩ := h []
      have hadded : ∀ n ∈ suspendNames env v, '#' ∉ n := by
        intro n hn
        rw [hnames] at hn
        rw [List.mem_singleton.1 hn]
        exact hclean.1
      obtain ⟨n, hn, hcase⟩ := suspended_of_unset hheld hadded hdeny' hsup
      rw [hnames] at hn
      obtain rfl := List.mem_singleton.1 hn
      rcases hcase with hin | ⟨hat, -⟩
      · exact Or.inl ⟨hhost, hmem.1 hin⟩
      · -- only the option itself can have the mark of an empty option
        rcases process_cases v with heq | hspelling
        · rw [hupper] at heq
          exact Or.inl ⟨hhost, Or.inl ((process_eq_self_iff hupper).1 heq)⟩
        · exact absurd hat (spelling_clean _ hspelling).2.1
    · intro h deny
      rcases h with ⟨-, hcase⟩ | ⟨heq, -⟩
      · have hin : process v ∈ suspendNames env v := by
          rw [hnames]
          exact List.mem_singleton_self _
        obtain ⟨deny', hdeny', hfound⟩ := suspendOutput_denies hclean.1 hclean.2 hin deny
        exact ⟨deny', hdeny', suppressed_of_tagged (hmem.2 hcase) hclean.2 hfound⟩
      · exact absurd heq hhost

end Suspend

/-- A run on one host, with everything else unset. -/
def singleHost : Environ := Environ.ofList [("tst_org_host", "node1.site"), ("gtm_mupjnl_parallel", "1")]

theorem replic_mem_spellings : "REPLIC".toList ∈ spellings :=
  @mem_spellings "^REPLIC$" "REPLIC" (by simp [rules])

theorem suspendable_iff_replic : ∃ deny',
    suspendOutput (Environ.ofList [("tst_options_all", "test_repl"), ("test_repl", "REPLIC")])
      ["REPLIC".toList] [] = some deny' ∧
    suppressed (Environ.ofList [("tst_options_all", "test_repl"), ("test_repl", "REPLIC")]) deny' = true := by
  have hheld : (∀ w ∈ held (Environ.ofList [("tst_options_all", "test_repl"), ("test_repl", "REPLIC")]), '#' ∉ w) ∧
      "REPLIC".toList ∈ held (Environ.ofList [("tst_options_all", "test_repl"), ("test_repl", "REPLIC")]) := by
    unfold held envir numbered distribFlag pick only osname machtype linuxDistrib hostosMachtype
    simp only [apply_ite String.toList]
    unfold Environ.is Environ.num Environ.get
    repeat rw [String.toList_ofList]
    rw [Environ.ofList_texts, List.map_cons, List.map_cons, List.map_nil]
    repeat rw [String.toList_ofList]
    decide +kernel
  have hplatforms : ∀ p ∈ platforms (Environ.ofList [("tst_options_all", "test_repl"), ("test_repl", "REPLIC")]),
      '#' ∉ p := by
    unfold platforms Environ.get
    rw [Environ.ofList_texts, List.map_cons, List.map_cons, List.map_nil]
    repeat rw [String.toList_ofList]
    decide +kernel
  have hown : "REPLIC".toList ≠ hostAll ∧ "REPLIC".toList ≠ [] ∧ toupper "REPLIC".toList = "REPLIC".toList := by
    unfold hostAll
    repeat rw [String.toList_ofList]
    decide
  exact (suspendable_iff hheld.1 hplatforms hheld.2 hown.2.1 hown.2.2).2
    (Or.inl ⟨hown.1, Or.inl (Or.inl replic_mem_spellings)⟩) []

/-- What this run holds. -/
theorem held_singleHost : (∀ w ∈ held singleHost, '#' ∉ w ∧ toupper w = w ∧ w ≠ "NON_SETJNL".toList) ∧
    "NOMUPJNL_PARALLEL".toList ∈ held singleHost := by
  unfold held envir numbered distribFlag pick only osname machtype linuxDistrib hostosMachtype
  simp only [apply_ite String.toList]
  unfold Environ.is Environ.num Environ.get
  repeat rw [String.toList_ofList]
  have htexts : singleHost = _ := Environ.ofList_texts _
  simp only [List.map_cons, List.map_nil] at htexts
  repeat rw [String.toList_ofList] at htexts
  rw [htexts]
  decide +kernel

theorem process_parallel : process "NOMUPJNL_PARALLEL".toList = "NON_SETJNL".toList ∧
    "NON_SETJNL".toList ≠ hostAll ∧ '#' ∉ "NON_SETJNL".toList ∧ '@' ∉ "NON_SETJNL".toList := by
  rw [process_texts]
  unfold rules letterRule hostAll
  simp only [List.map_cons, List.map_nil, Rule.texts]
  repeat rw [String.toList_ofList]
  decide +kernel

/-- **The flag of a run without parallel recovery cannot be suspended**: a rule for the journal options
    takes it. -/
theorem parallel_not_suspended :
    (∀ w ∈ held singleHost, '#' ∉ w ∧ toupper w = w) ∧ "NOMUPJNL_PARALLEL".toList ∈ held singleHost ∧
      (suspendOutput singleHost ["NOMUPJNL_PARALLEL".toList] []).map (suppressed singleHost) = some false := by
  obtain ⟨hheld, hflag⟩ := held_singleHost
  obtain ⟨hprocess, hhost, hclean, hat⟩ := process_parallel
  have hnames : suspendNames singleHost "NOMUPJNL_PARALLEL".toList = ["NON_SETJNL".toList] := by
    rw [suspendNames, hprocess, if_pos hhost]
  refine ⟨fun w hw => ⟨(hheld w hw).1, (hheld w hw).2.1⟩, hflag, ?_⟩
  have hrun : suspendOutput singleHost ["NOMUPJNL_PARALLEL".toList] [] = some _ := gensub_run _
  rw [hrun, Option.map_some]
  refine congrArg some (Bool.eq_false_iff.2 fun hsup => ?_)
  have hadded : ∀ n ∈ suspendNames singleHost "NOMUPJNL_PARALLEL".toList, '#' ∉ n := by
    intro n hn
    rw [hnames] at hn
    rw [List.mem_singleton.1 hn]
    exact hclean
  obtain ⟨n, hn, hcase⟩ := suspended_of_unset (fun w hw => (hheld w hw).1) hadded hrun hsup
  rw [hnames] at hn
  obtain rfl := List.mem_singleton.1 hn
  rcases hcase with hin | ⟨hmark, -⟩
  · exact (hheld _ hin).2.2 rfl
  · exact hat hmark

end YottaTest.Outref
