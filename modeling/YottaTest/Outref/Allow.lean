/-
  File:      YottaTest/Outref/Allow.lean
  Subject:   Runs of SUSPEND_OUTPUT and ALLOW_OUTPUT directives against the set of denied names.

  * `Directive`, `denyText` -- a run over the text;
  * `denied` -- what the set of denied names should be after it;
  * `Exact`, `takeOut` -- a pattern that finds its own name only, and names taken out of the text;
  * `Meets`, `RunOk` -- steps at which the text keeps to the set;
  * `deny_run` -- **in runs of such steps the text spells the set**;
  * `allow_atl` -- an ALLOW_OUTPUT for one flag allows the operating system.
-/
import Mathlib.Data.Set.Insert
import YottaTest.Outref.Deny

namespace YottaTest.Outref

open YottaTest.Awk

/-! ## 1. Directives and the set of names -/

inductive Directive where
  | suspend (xs : List Text)
  | allow (xs : List Text)
  deriving DecidableEq, Repr

def Directive.run (env : Environ) : Directive → Text → Option Text
  | .suspend xs, deny => suspendOutput env xs deny
  | .allow xs, deny => allowOutput env xs deny

/-- The text after directives. -/
def denyText (env : Environ) (ds : List Directive) (deny : Text) : Option Text :=
  ds.foldlM (fun deny d => d.run env deny) deny

theorem denyText_nil (env : Environ) (deny : Text) : denyText env [] deny = some deny := rfl

theorem denyText_cons (env : Environ) (d : Directive) (ds : List Directive) (deny : Text) :
    denyText env (d :: ds) deny = (d.run env deny).bind (denyText env ds) := rfl

/-- What a name stands for: itself in its canonical form, or all platforms. -/
def named (env : Environ) (x : Text) : Set Text :=
  if process x = hostAll then {n | n ∈ platforms env} else {process x}

/-- The names by which this host can be allowed. -/
def hostKinds (env : Environ) : List Text := [host env, machtype env, osname env, linuxDistrib env]

/-- What ALLOW_OUTPUT of a name allows. -/
def allowed (env : Environ) (x : Text) : Set Text :=
  named env x ∪ {n | process x = hostAll ∧ n = host env} ∪
    {n | process x ∈ hostKinds env ∧ n ∈ hostNames env}

def Directive.apply (env : Environ) (s : Set Text) : Directive → Set Text
  | .suspend xs => s ∪ {n | ∃ x ∈ xs, n ∈ named env x}
  | .allow xs => s \ {n | ∃ x ∈ xs, n ∈ allowed env x}

/-- **The set of denied names** after directives. -/
def denied (env : Environ) (ds : List Directive) : Set Text := ds.foldl (Directive.apply env) ∅

/-! ## 2. Names taken out of the text -/

/-- The pattern made of a name finds in the text that name only. -/
def Exact (deny name : Text) : Prop :=
  ∃ r, ere (tagged '#' name) = some r ∧ MatchesOnly r (tagged '#' name) deny

/-- The text without these names. -/
def takeOut : List Text → Text → Text
  | [], deny => deny
  | n :: ns, deny => takeOut ns (replaceAll (tagged '#' n) ['#'] deny)

/-- One name after the other is found exactly. -/
def ExactAll : List Text → Text → Prop
  | [], _ => True
  | n :: ns, deny => Exact deny n ∧ ExactAll ns (replaceAll (tagged '#' n) ['#'] deny)

/-- A name without metacharacters is found exactly. -/
theorem exact_of_literal {name : Text} (h : ∀ c ∈ name, c ∉ metachars) (deny : Text) : Exact deny name := by
  refine ⟨word (tagged '#' name), ere_literal ?_, matchesOnly_word _ _⟩
  intro c hc
  rcases List.mem_append.1 hc with hc | hc
  · rcases List.mem_cons.1 hc with rfl | hc
    · decide
    · exact h c hc
  · rw [List.mem_singleton.1 hc]
    decide

theorem dropName_exact {deny name : Text} (h : Exact deny name) :
    dropName deny name = some (replaceAll (tagged '#' name) ['#'] deny) := by
  obtain ⟨r, hr, honly⟩ := h
  have hne : tagged '#' name ≠ [] := List.cons_ne_nil _ _
  rw [dropName, gensub, hr, Option.map_some, gsub_eq hne honly, expand_of_plain (forall_mem_of_all (by decide))]

theorem dropNames_exact : ∀ {ns : List Text} {deny : Text}, ExactAll ns deny →
    ns.foldlM dropName deny = some (takeOut ns deny)
  | [], _, _ => rfl
  | _ :: _, _, h => by
      rw [List.foldlM_cons, dropName_exact h.1]
      exact dropNames_exact h.2

/-- A text that spells names, none of them empty and none twice. -/
structure SpellsSet (deny : Text) (names : List Text) : Prop where
  spells : Spells deny names
  nodup : names.Nodup
  nonempty : [] ∉ names

theorem replaceAll_spells {deny : Text} {names : List Text} (h : SpellsSet deny names) {name : Text}
    (hname : '#' ∉ name) :
    SpellsSet (replaceAll (tagged '#' name) ['#'] deny) (names.filter (· ≠ name)) := by
  obtain ⟨hspells, hnodup, hnonempty⟩ := h
  refine ⟨?_, hnodup.filter _, fun hmem => hnonempty (List.mem_filter.1 hmem).1⟩
  cases hspells with
  | unset => exact Spells.unset
  | row hnames =>
      rw [replaceAll_marked hname hnames hnodup]
      exact Spells.row fun n hn => hnames n (List.mem_filter.1 hn).1

/-- A name with two marks before it is not in the text. -/
theorem replaceAll_wrapped {deny : Text} {names : List Text} (h : SpellsSet deny names) (name : Text) :
    replaceAll (tagged '#' (tagged '#' name)) ['#'] deny = deny := by
  obtain ⟨hspells, -, hnonempty⟩ := h
  refine replaceFrom_of_absent _ _ _ fun hin => hnonempty ?_
  have hpair : tagged '#' [] <:+: deny := by
    refine List.IsInfix.trans (List.IsPrefix.isInfix ?_) hin
    exact ⟨name ++ ['#', '#'], by simp [tagged]⟩
  cases hspells with
  | unset => simp [tagged] at hpair
  | row hnames => exact (tagged_infix_marked (List.not_mem_nil) hnames).1 hpair

theorem takeOut_spells : ∀ {ns : List Text} {deny : Text} {names : List Text}, SpellsSet deny names →
    (∀ n ∈ ns, '#' ∉ n) → SpellsSet (takeOut ns deny) (names.filter (· ∉ ns))
  | [], _, _, h, _ => by simpa [takeOut] using h
  | n :: ns, deny, names, h, hns => by
      have hstep := replaceAll_spells h (hns n List.mem_cons_self)
      have ih := takeOut_spells hstep fun m hm => hns m (List.mem_cons_of_mem n hm)
      have hfilter : (names.filter (· ≠ n)).filter (· ∉ ns) = names.filter (· ∉ n :: ns) := by
        rw [List.filter_filter]
        refine List.filter_congr fun m _ => ?_
        simp [Bool.and_comm]
      rw [hfilter] at ih
      exact ih

/-! ## 3. One step -/

/-- When an ALLOW_OUTPUT name allows what it should: its patterns find these names only, HOST_ALL is
    not given while this host itself is denied, and a name that stands somewhere in the names of this
    host is one of them, unless none of what goes with this host is denied. -/
structure AllowOk (env : Environ) (deny x : Text) : Prop where
  ne_nil : x ≠ []
  clean : ∀ n ∈ suspendNames env x, '#' ∉ n
  exact_ : ExactAll (suspendNames env x) deny
  host_all : process x = hostAll →
    Exact (takeOut (suspendNames env x) deny) (wrap (host env)) ∧
    index (takeOut (suspendNames env x) deny) (tagged '#' (host env)) = 0 ∧
    (host env = [] → index (takeOut (suspendNames env x) deny) (tagged '#' ['@']) = 0)
  kinds : index (envlist env) (process x) ≠ 0 →
    ExactAll (hostNames env) (takeOut (suspendNames env x) deny) ∧
    (process x ∈ hostKinds env ∨
      ∀ n ∈ hostNames env, index (takeOut (suspendNames env x) deny) (tagged '#' n) = 0)

theorem mem_named {env : Environ} {x n : Text} : n ∈ named env x ↔ n ∈ suspendNames env x := by
  unfold named suspendNames
  by_cases hall : process x = hostAll
  · rw [if_pos hall, if_neg (not_not.2 hall), (env.visit_perm _).mem_iff]
    rfl
  · rw [if_neg hall, if_pos hall, List.mem_singleton]
    rfl

theorem process_ne_nil {x : Text} (hx : x ≠ []) : process x ≠ [] := by
  rcases process_cases x with heq | hmem
  · rw [heq]
    exact fun h => hx (List.map_eq_nil_iff.1 h)
  · exact (spelling_clean _ hmem).2.2

/-- A name by which this host can be allowed is found in the list of them. -/
theorem kinds_index {env : Environ} {c : Text} (hc : c ∈ hostKinds env) (hne : c ≠ []) :
    index (envlist env) c ≠ 0 := by
  rw [Ne, index_eq_zero hne, not_not]
  unfold hostKinds at hc
  simp only [List.mem_cons, List.not_mem_nil, or_false] at hc
  unfold envlist
  rcases hc with heq | heq | heq | heq
  · refine ⟨['#'], '#' :: ' ' :: machtype env ++ ' ' :: osname env ++ ' ' :: linuxDistrib env, ?_⟩
    rw [← heq, wrap, if_neg hne]
    simp [tagged]
  · refine ⟨wrap (host env) ++ [' '], ' ' :: osname env ++ ' ' :: linuxDistrib env, ?_⟩
    rw [← heq]
    simp
  · refine ⟨wrap (host env) ++ ' ' :: machtype env ++ [' '], ' ' :: linuxDistrib env, ?_⟩
    rw [← heq]
    simp
  · refine ⟨wrap (host env) ++ ' ' :: machtype env ++ ' ' :: osname env ++ [' '], [], ?_⟩
    rw [← heq]
    simp

/-- The pattern for this host finds nothing: its name has marks already. -/
theorem dropHost {env : Environ} {deny : Text} {names : List Text} (h : SpellsSet deny names)
    (hexact : Exact deny (wrap (host env))) (hat : host env = [] → index deny (tagged '#' ['@']) = 0) :
    dropName deny (wrap (host env)) = some deny := by
  rw [dropName_exact hexact]
  unfold wrap
  split
  · rename_i hnil
    have hne : tagged '#' ['@'] ≠ [] := List.cons_ne_nil _ _
    have hout := (index_eq_zero hne deny).1 (hat hnil)
    exact congrArg some (replaceFrom_of_absent _ _ _ hout)
  · exact congrArg some (replaceAll_wrapped h (host env))

section Step

variable {env : Environ} {deny : Text} {names : List Text}

theorem SpellsSet.index_eq_zero (h : SpellsSet deny names) {n : Text} (hn : '#' ∉ n) :
    index deny (tagged '#' n) = 0 ↔ n ∉ names := by
  rw [← index_tagged h.spells hn, Ne, not_not]

/-- The named ones are taken out first. -/
theorem allowNames_eq {x : Text} (h : AllowOk env deny x) (hspells : SpellsSet deny names) :
    allowNames env deny x = some (takeOut (suspendNames env x) deny) := by
  have hdrop := dropNames_exact h.exact_
  unfold allowNames
  by_cases hall : process x = hostAll
  · have hnames : suspendNames env x = env.visit (platforms env) := if_neg (not_not.2 hall)
    obtain ⟨hexact, -, hat⟩ := h.host_all hall
    have hhost := dropHost (takeOut_spells hspells h.clean) hexact hat
    rw [hnames] at hhost hdrop ⊢
    rw [if_neg (not_not.2 hall), hdrop, Option.bind_some, hhost]
  · have hnames : suspendNames env x = [process x] := if_pos hall
    rw [hnames] at hdrop ⊢
    rw [if_pos hall, ← hdrop]
    simp

/-- Then what goes with this host. -/
theorem allowField_eq {x : Text} (h : AllowOk env deny x) (hspells : SpellsSet deny names) :
    allowField env deny x = if index (envlist env) (process x) ≠ 0
      then some (takeOut (hostNames env) (takeOut (suspendNames env x) deny))
      else some (takeOut (suspendNames env x) deny) := by
  rw [allowField, allowNames_eq h hspells, Option.bind_some, allowKinds]
  by_cases hindex : index (envlist env) (process x) ≠ 0
  · rw [if_pos hindex, if_pos hindex]
    exact dropNames_exact (h.kinds hindex).1
  · rw [if_neg hindex, if_neg hindex]

theorem mem_allowed {x n : Text} : n ∈ allowed env x ↔
    (n ∈ named env x ∨ (process x = hostAll ∧ n = host env)) ∨
      (process x ∈ hostKinds env ∧ n ∈ hostNames env) := Iff.rfl

/-- **One name of an ALLOW_OUTPUT directive takes out what it allows**, and nothing else. -/
theorem allowField_spells {x : Text} (h : AllowOk env deny x) (hspells : SpellsSet deny names)
    (hclean : ∀ n ∈ hostNames env, '#' ∉ n) (hhost : '#' ∉ host env) :
    ∃ deny' names', allowField env deny x = some deny' ∧ SpellsSet deny' names' ∧
      ∀ n, n ∈ names' ↔ n ∈ names ∧ n ∉ allowed env x := by
  have hfirst := takeOut_spells hspells h.clean
  have hkeep : ∀ n, n ∈ names.filter (· ∉ suspendNames env x) ↔ n ∈ names ∧ n ∉ named env x := by
    intro n
    rw [List.mem_filter, decide_eq_true_eq, mem_named]
  have hnothost : ∀ n ∈ names.filter (· ∉ suspendNames env x),
      ¬ (process x = hostAll ∧ n = host env) := by
    intro n hn ⟨hall, heq⟩
    have hout := (h.host_all hall).2.1
    rw [hfirst.index_eq_zero hhost] at hout
    exact hout (heq ▸ hn)
  rw [allowField_eq h hspells]
  by_cases hindex : index (envlist env) (process x) ≠ 0
  · rw [if_pos hindex]
    have hsecond := takeOut_spells hfirst hclean
    refine ⟨_, _, rfl, hsecond, fun n => ?_⟩
    rw [List.mem_filter, decide_eq_true_eq, mem_allowed, not_or, not_or]
    rcases (h.kinds hindex).2 with hkind | hnone
    · constructor
      · intro ⟨hn, hnot⟩
        exact ⟨((hkeep n).1 hn).1, ⟨((hkeep n).1 hn).2, hnothost n hn⟩, fun hc => hnot hc.2⟩
      · intro ⟨hn, ⟨hnamed, _⟩, hnot⟩
        exact ⟨(hkeep n).2 ⟨hn, hnamed⟩, fun hin => hnot ⟨hkind, hin⟩⟩
    · have hout : ∀ n ∈ names.filter (· ∉ suspendNames env x), n ∉ hostNames env := by
        intro n hn hin
        exact (hfirst.index_eq_zero (hclean n hin)).1 (hnone n hin) hn
      constructor
      · intro ⟨hn, hnot⟩
        exact ⟨((hkeep n).1 hn).1, ⟨((hkeep n).1 hn).2, hnothost n hn⟩, fun hc => hnot hc.2⟩
      · intro ⟨hn, ⟨hnamed, _⟩, _⟩
        exact ⟨(hkeep n).2 ⟨hn, hnamed⟩, hout n ((hkeep n).2 ⟨hn, hnamed⟩)⟩
  · rw [if_neg hindex]
    have hkind : process x ∉ hostKinds env := fun hc => hindex (kinds_index hc (process_ne_nil h.ne_nil))
    refine ⟨_, _, rfl, hfirst, fun n => ?_⟩
    rw [mem_allowed, not_or, not_or]
    constructor
    · intro hn
      exact ⟨((hkeep n).1 hn).1, ⟨((hkeep n).1 hn).2, hnothost n hn⟩, fun hc => hkind hc.1⟩
    · intro ⟨hn, ⟨hnamed, _⟩, _⟩
      exact (hkeep n).2 ⟨hn, hnamed⟩

end Step

/-! ## 4. Runs -/

/-- The names of the environment have no mark in them. -/
structure Plain (env : Environ) : Prop where
  held : ∀ w ∈ held env, '#' ∉ w
  hostNames : ∀ n ∈ hostNames env, '#' ∉ n

/-- Each name of an ALLOW_OUTPUT directive is one that allows what it should. -/
def AllowsOk (env : Environ) : List Text → Text → Prop
  | [], _ => True
  | x :: xs, deny => AllowOk env deny x ∧ ∀ deny', allowField env deny x = some deny' → AllowsOk env xs deny'

/-- When a directive does to the text what it does to the set. The mark "@" stands for empty options. -/
def Meets (env : Environ) (deny : Text) : Directive → Prop
  | .suspend xs => ∀ x ∈ xs, x ≠ [] ∧ ∀ n ∈ suspendNames env x, '#' ∉ n ∧ ('@' ∈ n → [] ∉ held env)
  | .allow xs => AllowsOk env xs deny

/-- A run of such directives. -/
def RunOk (env : Environ) : List Directive → Text → Prop
  | [], _ => True
  | d :: ds, deny => Meets env deny d ∧ ∀ deny', d.run env deny = some deny' → RunOk env ds deny'

/-- The text spells the set, and "@" in it does not stand for an empty option. -/
def Keeps (env : Environ) (deny : Text) (s : Set Text) : Prop :=
  ∃ names, SpellsSet deny names ∧ (∀ n, n ∈ names ↔ n ∈ s) ∧ ∀ n ∈ names, '@' ∈ n → [] ∉ held env

section Run

variable {env : Environ} {deny : Text} {s : Set Text}

theorem host_clean (hplain : Plain env) : '#' ∉ host env := by
  unfold host
  cases hfind : (envir env).find? fun entry => entry.1 = "TST_ORG_HOST".toList with
  | none => exact List.not_mem_nil
  | some entry =>
      exact hplain.held entry.2 (List.mem_map_of_mem (List.mem_of_find?_eq_some hfind))

theorem suspendNames_ne_nil {x n : Text} (hx : x ≠ []) (hn : n ∈ suspendNames env x) : n ≠ [] := by
  unfold suspendNames at hn
  split at hn
  · rw [List.mem_singleton.1 hn]
    exact process_ne_nil hx
  · exact mem_fields_ne_nil ((env.visit_perm _).mem_iff.1 hn)

theorem suspend_keeps {xs : List Text} (h : Keeps env deny s) (hmeets : Meets env deny (.suspend xs)) :
    ∃ deny', suspendOutput env xs deny = some deny' ∧ Keeps env deny' (Directive.apply env s (.suspend xs)) := by
  obtain ⟨names, hspells, hmem, hat⟩ := h
  have hadded : ∀ n ∈ xs.flatMap (suspendNames env), n ≠ [] ∧ '#' ∉ n ∧ ('@' ∈ n → [] ∉ held env) := by
    intro n hn
    obtain ⟨x, hx, hn⟩ := List.mem_flatMap.1 hn
    exact ⟨suspendNames_ne_nil (hmeets x hx).1 hn, (hmeets x hx).2 n hn⟩
  obtain ⟨deny', names', hrun, hspells', hnodup', hmem'⟩ := @suspendOutput_spells env deny names hspells.spells
    (hspells.nodup.filter _) xs fun n hn => (hadded n hn).2.1
  refine ⟨deny', hrun, names', ⟨hspells', hnodup', fun hnil => ((hmem' []).1 hnil).1 rfl⟩, ?_, ?_⟩
  · intro n
    have hset : n ∈ Directive.apply env s (.suspend xs) ↔ n ∈ s ∨ ∃ x ∈ xs, n ∈ named env x := Iff.rfl
    rw [hmem' n, hset, ← hmem n, List.mem_flatMap]
    simp only [mem_named]
    constructor
    · exact And.right
    · intro hcase
      refine ⟨?_, hcase⟩
      rcases hcase with hn | hn
      · exact fun hnil => hspells.nonempty (hnil ▸ hn)
      · exact (hadded n (List.mem_flatMap.2 hn)).1
  · intro n hn
    rcases ((hmem' n).1 hn).2 with hn | hn
    · exact hat n hn
    · exact (hadded n hn).2.2

theorem allow_keeps (hplain : Plain env) : ∀ {xs : List Text} {deny : Text} {s : Set Text},
    Keeps env deny s → AllowsOk env xs deny →
    ∃ deny', allowOutput env xs deny = some deny' ∧ Keeps env deny' (Directive.apply env s (.allow xs))
  | [], deny, s, h, _ => by
      have hset : Directive.apply env s (.allow []) = s := by
        ext n
        simp [Directive.apply]
      refine ⟨deny, rfl, ?_⟩
      rw [hset]
      exact h
  | x :: xs, deny, s, h, hok => by
      obtain ⟨names, hspells, hmem, hat⟩ := h
      obtain ⟨deny₁, names₁, hstep, hspells₁, hmem₁⟩ :=
        allowField_spells hok.1 hspells hplain.hostNames (host_clean hplain)
      have hkeeps₁ : Keeps env deny₁ (s \ allowed env x) := by
        refine ⟨names₁, hspells₁, ?_, fun n hn => hat n ((hmem₁ n).1 hn).1⟩
        intro n
        rw [hmem₁ n, hmem n]
        rfl
      obtain ⟨deny₂, hrest, hkeeps₂⟩ := allow_keeps hplain hkeeps₁ (hok.2 deny₁ hstep)
      have hset : Directive.apply env (s \ allowed env x) (.allow xs) =
          Directive.apply env s (.allow (x :: xs)) := by
        ext n
        simp [Directive.apply, and_assoc]
      refine ⟨deny₂, ?_, hset ▸ hkeeps₂⟩
      rw [allowOutput, List.foldlM_cons, hstep]
      exact hrest

theorem run_keeps (hplain : Plain env) : ∀ {ds : List Directive} {deny : Text} {s : Set Text},
    Keeps env deny s → RunOk env ds deny →
    ∃ deny', denyText env ds deny = some deny' ∧ Keeps env deny' (ds.foldl (Directive.apply env) s)
  | [], deny, _, h, _ => ⟨deny, rfl, h⟩
  | d :: ds, deny, s, h, hok => by
      have hstep : ∃ deny', d.run env deny = some deny' ∧ Keeps env deny' (Directive.apply env s d) := by
        cases d with
        | suspend xs => exact suspend_keeps h hok.1
        | allow xs => exact allow_keeps hplain h hok.1
      obtain ⟨deny₁, hrun, hkeeps⟩ := hstep
      obtain ⟨deny₂, hrest, hkeeps₂⟩ := run_keeps hplain hkeeps (hok.2 deny₁ hrun)
      refine ⟨deny₂, ?_, hkeeps₂⟩
      rw [denyText_cons, hrun]
      exact hrest

/-- **The text of denied names follows the directives, and lines are kept back by it.** -/
theorem deny_run (hplain : Plain env) {ds : List Directive} (h : RunOk env ds []) :
    ∃ deny, denyText env ds [] = some deny ∧
      (∀ n, '#' ∉ n → (index deny (tagged '#' n) ≠ 0 ↔ n ∈ denied env ds)) ∧
      (suppressed env deny = true ↔ ∃ w ∈ held env, w ≠ [] ∧ w ∈ denied env ds) := by
  have hstart : Keeps env [] ∅ :=
    ⟨[], ⟨Spells.unset, List.nodup_nil, List.not_mem_nil⟩, by simp, by simp⟩
  obtain ⟨deny, hrun, names, hspells, hmem, hat⟩ := run_keeps hplain hstart h
  refine ⟨deny, hrun, ?_, ?_⟩
  · intro n hn
    rw [index_tagged hspells.spells hn]
    exact hmem n
  · rw [suppressed_iff hspells.spells hplain.held]
    constructor
    · intro hcase
      rcases hcase with ⟨w, hw, hne, hin⟩ | ⟨hnil, n, hn, hmark⟩
      · exact ⟨w, hw, hne, (hmem w).1 hin⟩
      · exact absurd hnil (hat n hn hmark)
    · intro ⟨w, hw, hne, hin⟩
      exact Or.inl ⟨w, hw, hne, (hmem w).2 hin⟩

end Run

/-! ## 5. A host whose name has a flag in it -/

/-- A run on the host "atlst2000". -/
def onAtlst : Environ := Environ.ofList [("tst_org_host", "atlst2000.site"), ("gtm_test_osname", "Linux"),
  ("gtm_test_machtype", "x86_64"), ("gtm_test_linux_distrib", "ubuntu"),
  ("gtm_test_os_machtype", "HOST_LINUX_X86_64"), ("gtm_test_os_machtype_all", "HOST_LINUX_X86_64 HOST_LINUX_IX86")]

/-- What this run holds back. -/
theorem onAtlst_held : (∀ w ∈ held onAtlst, '#' ∉ w) ∧ "HOST_LINUX_X86_64".toList ∈ held onAtlst ∧
    suppressed onAtlst "#HOST_LINUX_IX86#".toList = false := by
  unfold suppressed held envir numbered distribFlag pick only osname machtype linuxDistrib hostosMachtype
  simp only [apply_ite String.toList]
  unfold Environ.is Environ.num Environ.get
  repeat rw [String.toList_ofList]
  have htexts : onAtlst = _ := Environ.ofList_texts _
  simp only [List.map_cons, List.map_nil] at htexts
  repeat rw [String.toList_ofList] at htexts
  rw [htexts]
  decide +kernel

theorem onAtlst_host : host onAtlst = "ATLST2000".toList := by
  unfold host envir numbered distribFlag pick only osname machtype linuxDistrib hostosMachtype
  simp only [apply_ite String.toList]
  unfold Environ.is Environ.num Environ.get
  repeat rw [String.toList_ofList]
  have htexts : onAtlst = _ := Environ.ofList_texts _
  simp only [List.map_cons, List.map_nil] at htexts
  repeat rw [String.toList_ofList] at htexts
  rw [htexts]
  decide +kernel

/-- The names of this host, and what "ATL" is looked for in. -/
theorem onAtlst_names :
    hostNames onAtlst = ["HOST_LINUX_X86_64".toList, "X86_64".toList, "LINUX".toList, "UBUNTU".toList] ∧
      platforms onAtlst = ["HOST_LINUX_X86_64".toList, "HOST_LINUX_IX86".toList] ∧
      envlist onAtlst = "#ATLST2000# X86_64 LINUX UBUNTU".toList := by
  unfold hostNames platforms envlist hostosMachtype machtype osname linuxDistrib Environ.get
  rw [onAtlst_host]
  have htexts : onAtlst = _ := Environ.ofList_texts _
  simp only [List.map_cons, List.map_nil] at htexts
  repeat rw [String.toList_ofList] at htexts
  rw [htexts]
  repeat rw [String.toList_ofList]
  decide +kernel

theorem deny_run_replic :
    ∃ deny, denyText onAtlst [.suspend ["REPLIC".toList], .allow ["replic".toList]] [] = some deny ∧
      (∀ n, '#' ∉ n → (index deny (tagged '#' n) ≠ 0 ↔
        n ∈ denied onAtlst [.suspend ["REPLIC".toList], .allow ["replic".toList]])) ∧
      (suppressed onAtlst deny = true ↔ ∃ w ∈ held onAtlst, w ≠ [] ∧
        w ∈ denied onAtlst [.suspend ["REPLIC".toList], .allow ["replic".toList]]) := by
  obtain ⟨hnames, -, hlist⟩ := onAtlst_names
  have hplain : Plain onAtlst := by
    refine ⟨onAtlst_held.1, ?_⟩
    rw [hnames]
    repeat rw [String.toList_ofList]
    decide
  have htexts : "REPLIC".toList ≠ hostAll ∧ toupper "replic".toList = toupper "REPLIC".toList ∧
      "REPLIC".toList ≠ [] ∧ "replic".toList ≠ [] ∧ '#' ∉ "REPLIC".toList ∧ '@' ∉ "REPLIC".toList ∧
      ("REPLIC".toList.all fun c => c ∉ metachars) = true := by
    unfold hostAll
    repeat rw [String.toList_ofList]
    decide
  obtain ⟨hhost, hupper, hne, hne', hclean, hat, hliteral⟩ := htexts
  have hprocess : process "REPLIC".toList = "REPLIC".toList :=
    process_spelling _ (@mem_spellings "^REPLIC$" "REPLIC" (by simp [rules]))
  have hsuspend : suspendNames onAtlst "REPLIC".toList = ["REPLIC".toList] := by
    rw [suspendNames, hprocess, if_pos hhost]
  have hallow : suspendNames onAtlst "replic".toList = ["REPLIC".toList] := by
    rw [suspendNames, process_congr hupper, hprocess, if_pos hhost]
  have hindex : ¬ index (envlist onAtlst) "REPLIC".toList ≠ 0 := by
    rw [hlist]
    repeat rw [String.toList_ofList]
    decide +kernel
  refine deny_run hplain ⟨?_, fun deny _ => ⟨⟨⟨hne', ?_, ?_, ?_, ?_⟩, fun _ _ => trivial⟩, fun _ _ => trivial⟩⟩
  · intro x hx
    rw [List.mem_singleton.1 hx]
    refine ⟨hne, fun n hn => ?_⟩
    rw [hsuspend] at hn
    rw [List.mem_singleton.1 hn]
    exact ⟨hclean, fun hin => absurd hin hat⟩
  · rw [hallow]
    intro n hn
    rw [List.mem_singleton.1 hn]
    exact hclean
  · rw [hallow]
    exact ⟨exact_of_literal (fun c hc => of_decide_eq_true (List.all_eq_true.1 hliteral c hc)) deny, trivial⟩
  · rw [process_congr hupper, hprocess]
    exact fun hall => absurd hall hhost
  · rw [process_congr hupper, hprocess]
    exact fun hin => absurd hin hindex

/-- **ALLOW_OUTPUT for a flag allows the platform**: the flag stands in the name of the host. -/
theorem allow_atl : ∃ deny,
    denyText onAtlst [.suspend [hostAll], .allow ["ATL".toList]] [] = some deny ∧
    suppressed onAtlst deny = false ∧
    ∃ w ∈ held onAtlst, w ≠ [] ∧ w ∈ denied onAtlst [.suspend [hostAll], .allow ["ATL".toList]] := by
  obtain ⟨hnames, hplatforms, hlist⟩ := onAtlst_names
  have hatl : process "ATL".toList = "ATL".toList :=
    process_spelling _ (@mem_spellings "^ATL$" "ATL" (by simp [rules]))
  have hheld : "HOST_LINUX_X86_64".toList ∈ held onAtlst ∧
      suppressed onAtlst "#HOST_LINUX_IX86#".toList = false := onAtlst_held.2
  have htexts : "ATL".toList ≠ hostAll ∧ "HOST_LINUX_X86_64".toList ≠ [] ∧
      "ATL".toList ∉ ["ATLST2000".toList, "X86_64".toList, "LINUX".toList, "UBUNTU".toList] ∧
      "HOST_LINUX_X86_64".toList ≠ "ATL".toList := by
    unfold hostAll
    repeat rw [String.toList_ofList]
    decide
  obtain ⟨hhost, hne, hkinds, hother⟩ := htexts
  have hsuspend : suspendOutput onAtlst [hostAll] [] = some "#HOST_LINUX_X86_64#HOST_LINUX_IX86#".toList := by
    rw [suspendOutput, gensub_run, List.foldl_cons, suspendField, process_hostAll, if_neg (not_not.2 rfl),
      show onAtlst.visit (platforms onAtlst) = platforms onAtlst from rfl, hplatforms]
    repeat rw [String.toList_ofList]
    decide +kernel
  have hindex : index (envlist onAtlst) "ATL".toList ≠ 0 := by
    rw [hlist]
    repeat rw [String.toList_ofList]
    decide +kernel
  have hallow : allowOutput onAtlst ["ATL".toList] "#HOST_LINUX_X86_64#HOST_LINUX_IX86#".toList =
      some "#HOST_LINUX_IX86#".toList := by
    have hnone : dropName "#HOST_LINUX_X86_64#HOST_LINUX_IX86#".toList "ATL".toList =
        some "#HOST_LINUX_X86_64#HOST_LINUX_IX86#".toList := by
      repeat rw [String.toList_ofList]
      decide +kernel
    rw [allowOutput, List.foldlM_cons, allowField, allowNames, hatl, if_pos hhost, hnone, Option.bind_some,
      allowKinds, hatl, if_pos hindex, hnames]
    repeat rw [String.toList_ofList]
    decide +kernel
  refine ⟨"#HOST_LINUX_IX86#".toList, ?_, hheld.2, "HOST_LINUX_X86_64".toList, hheld.1, hne, ?_, ?_⟩
  · have hfirst : (Directive.suspend [hostAll]).run onAtlst [] = some _ := hsuspend
    have hsecond : (Directive.allow ["ATL".toList]).run onAtlst _ = some _ := hallow
    rw [denyText_cons, hfirst, Option.bind_some, denyText_cons, hsecond, Option.bind_some, denyText_nil]
  · refine Or.inr ⟨hostAll, List.mem_singleton_self _, ?_⟩
    rw [named, if_pos process_hostAll]
    show "HOST_LINUX_X86_64".toList ∈ platforms onAtlst
    rw [hplatforms]
    exact List.mem_cons_self
  · intro ⟨x, hx, hallowed⟩
    obtain rfl := List.mem_singleton.1 hx
    rcases mem_allowed.1 hallowed with (hnamed | ⟨hall, -⟩) | ⟨hkind, -⟩
    · rw [mem_named, suspendNames, hatl, if_pos hhost] at hnamed
      exact hother (List.mem_singleton.1 hnamed)
    · rw [hatl] at hall
      exact hhost hall
    · have hsame : hostKinds onAtlst = ["ATLST2000".toList, "X86_64".toList, "LINUX".toList, "UBUNTU".toList] := by
        rw [hostKinds, onAtlst_host]
        exact congrArg (List.cons _) (List.cons.inj hnames).2
      rw [hatl, hsame] at hkind
      exact hkinds hkind

end YottaTest.Outref
