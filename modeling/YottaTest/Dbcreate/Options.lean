/-
  File:      YottaTest/Dbcreate/Options.lean
  Subject:   dbcreate_multi.awk: the options, as an ordered chain of tests on how they begin.

  An option sets a parameter; the journal options are numbered and kept one after the other. The
  option a text spells is the one whose name, or abbreviation, goes furthest in it.

  * `Param`, `Action`, `chain` -- the parameters, and the arms of the chain in their order;
  * `step`, `parse` -- a field of the line, and all of them;
  * `spelled`, `ownValue` -- the option a field spells, and the value written behind its first `=`;
  * `OnItsOwn` -- what is promised of a set of options;
  * `chain_eq_spelled` -- the chain takes an option for what it spells, but for two options that
    an abbreviation comes before, and for the pattern that is not anchored;
  * `options_onItsOwn_iff` -- **when each option of a set takes effect on its own.**
-/
import Mathlib.Logic.Function.Basic
import YottaTest.Lib.Dispatch
import YottaTest.Lib.Run

namespace YottaTest.Dbcreate

open Function YottaTest.Lib

abbrev Text := List Char

/-! ## 1. The parser -/

/-- The index of `value`. -/
inductive Param where
  | file_name | n_regions | key_size | record_size | block_size | allocation | global_buffer_count
  | extension_count | reserved_bytes | collation_default | null_subscripts | access_method
  | acc_meth_env | journal | test_collation | test_stdnull_collation | test_gtcm | qdbrundown
  | freeze | defer_allocate | epoch_taper | lock_space
  | move | filename_override | template | different_gld | gld_has_db_fullpath | jnl_prefix_
  | jnl_suffix
  /-- `"journal" jnl_count` -/
  | journalNo (n : Nat)
  /-- a field beyond the list of arguments -/
  | empty
  deriving DecidableEq, Repr

/-- `argmnts` -/
def argmnts : List Param :=
  [.file_name, .n_regions, .key_size, .record_size, .block_size, .allocation, .global_buffer_count,
    .extension_count, .reserved_bytes, .collation_default, .null_subscripts, .access_method,
    .acc_meth_env, .journal, .test_collation, .test_stdnull_collation, .test_gtcm, .qdbrundown,
    .freeze, .defer_allocate, .epoch_taper, .lock_space]

/-- What is stored: the value, the value in upper case, or a text of its own. -/
inductive How where
  | tmp
  | upper
  | const (text : Text)
  deriving DecidableEq, Repr

inductive Action where
  | set (p : Param) (how : How)
  /-- `value["journal" ++jnl_count]=...`, for `-jnl_auto` and for `-journal` -/
  | journal (auto : Bool)
  deriving DecidableEq, Repr

def flag (p : Param) (text : String) : Action := .set p (.const text.toList)

/-- A test on how the field begins, and one on all of it. -/
def starts (pattern : String) (action : Action) : Arm Char Action := ⟨pattern.toList, false, action⟩

def only (pattern : String) (action : Action) : Arm Char Action := ⟨pattern.toList, true, action⟩

/-- The arms after the first one. -/
def arms : List (Arm Char Action) :=
  [starts "-bl" (.set .block_size .tmp),
   starts "-al" (.set .allocation .tmp),
   starts "-glo" (.set .global_buffer_count .tmp),
   starts "-e" (.set .extension_count .tmp),
   starts "-c" (.set .collation_default .tmp),
   starts "-rec" (.set .record_size .tmp),
   starts "-res" (.set .reserved_bytes .tmp),
   starts "-k" (.set .key_size .tmp),
   starts "-nom" (flag .move "0"),
   starts "-nu" (.set .null_subscripts .tmp),
   only "-n" (flag .null_subscripts "NOVAL"),
   starts "-n=" (.set .null_subscripts .tmp),
   starts "-nu=" (.set .null_subscripts .tmp),
   starts "-acc_meth" (.set .access_method .upper),
   starts "-acc_meth_env" (.set .acc_meth_env .upper),
   starts "-journal" (.journal false),
   starts "-n_regions" (.set .n_regions .tmp),
   starts "-qdbrundown" (flag .qdbrundown "-qdbrundown"),
   starts "-noqdbrundown" (flag .qdbrundown "-noqdbrundown"),
   starts "-inst_freeze_on_error" (flag .freeze "-inst_freeze_on_error"),
   starts "-noinst_freeze_on_error" (flag .freeze "-noinst_freeze_on_error"),
   starts "-test_collation" (.set .test_collation .tmp),
   starts "-name_override" (.set .filename_override .tmp),
   starts "-test_gtcm" (.set .test_gtcm .tmp),
   starts "-t" (.set .template .tmp),
   starts "-stdnull" (flag .test_stdnull_collation "-stdnull"),
   starts "-nostdnull" (flag .test_stdnull_collation "-nostdnull"),
   starts "-different_gld" (flag .different_gld "1"),
   starts "-gld_has_db_fullpath" (flag .gld_has_db_fullpath "1"),
   starts "-jnl_prefix=" (.set .jnl_prefix_ .tmp),
   starts "-jnl_suffix=" (.set .jnl_suffix .tmp),
   starts "-jnl_auto" (.journal true),
   starts "-defer_allocate" (flag .defer_allocate "-defer_allocate"),
   starts "-nodefer_allocate" (flag .defer_allocate "-nodefer_allocate"),
   starts "-epoch_taper" (flag .epoch_taper "-epochtaper"),
   starts "-noepoch_taper" (flag .epoch_taper "-noepochtaper"),
   starts "-lock_space" (.set .lock_space .tmp)]

/-- The first arm, `-f`, which is not anchored. -/
def fileName : Action := .set .file_name .tmp

/-- The arm that takes the field. -/
def chain (field : Text) : Option Action :=
  if "-f".toList <:+: field then some fileName else (firstArm arms field).map Arm.action

structure State where
  value : Param → Option Text
  jnl_count : Nat

def How.eval (tmp : Text) : How → Text
  | .tmp => tmp
  | .upper => tmp.map Char.toUpper
  | .const text => text

/-- The text of a journal option. -/
def journalText (auto : Bool) (tmp : Text) : Text :=
  if auto then
    "autoswitchlimit=".toList ++ tmp
  else tmp.map Char.toUpper

def Action.run (tmp : Text) (s : State) : Action → State
  | .set p how => { s with value := update s.value p (some (how.eval tmp)) }
  | .journal auto =>
      { value := update s.value (.journalNo (s.jnl_count + 1)) (some (journalText auto tmp))
        jnl_count := s.jnl_count + 1 }

def null : Text := "NULL".toList

/-- What `gsub` leaves behind the last `=`, or `NULL`. -/
def tmpOf (field : Text) : Text :=
  if '=' ∈ field then (field.reverse.takeWhile (· ≠ '=')).reverse else null

/-- Field `i`. -/
def step (s : State) (i : Nat) (field : Text) : State :=
  match chain field with
  | some action => action.run (tmpOf field) s
  | none => { s with value := update s.value ((argmnts[i - 1]?).getD .empty) (some field) }

/-- The fields from the `i`-th on. -/
def parseFrom (i : Nat) : List Text → State → State
  | [], s => s
  | field :: fields, s => parseFrom (i + 1) fields (step s i field)

/-- The environment: gtm_test_qdbrundown, gtm_test_freeze_on_error, gtm_test_defer_allocate and
    gtm_test_epoch_taper. -/
structure Environ where
  qdbrundown : Bool
  freeze : Bool
  defer_allocate : Bool
  epoch_taper : Bool

def unspec : Text := "***unspec***".toList

/-- BEGIN -/
def begin_ (env : Environ) : State where
  jnl_count := 0
  value
    | .qdbrundown => if env.qdbrundown then some "-qdbrundown".toList else none
    | .freeze => if env.freeze then some "-inst_freeze_on_error".toList else none
    | .defer_allocate => if env.defer_allocate then none else some "-nodefer_allocate".toList
    | .epoch_taper => if env.epoch_taper then none else some "-noepochtaper".toList
    | .jnl_prefix_ => some unspec
    | .jnl_suffix => some unspec
    | .move => some "1".toList
    | _ => none

def parse (env : Environ) (fields : List Text) : State := parseFrom 1 fields (begin_ env)

/-! ## 2. What an option spells -/

/-- The option the field spells: the arm whose pattern goes furthest. -/
def spelledArm (field : Text) : Option (Arm Char Action) :=
  longestArm (starts "-f" fileName :: arms) field

def spelled (field : Text) : Option Action := (spelledArm field).map Arm.action

/-- The value written in the field, behind the first `=`. -/
def ownValue (field : Text) : Text :=
  if '=' ∈ field then (field.dropWhile (· ≠ '=')).tail else null

/-- The journal options among the fields. -/
def journalOpts (fields : List Text) : List (Bool × Text) :=
  fields.filterMap fun field =>
    match spelled field with
    | some (.journal auto) => some (auto, field)
    | _ => none

/-- What the fields should do to the parameters. -/
structure Effect (s s' : State) (fields : List Text) : Prop where
  set : ∀ field ∈ fields, ∀ p how, spelled field = some (.set p how) →
    s'.value p = some (how.eval (ownValue field))
  /-- each journal option is added to those before -/
  journal : ∀ i auto field, (journalOpts fields)[i]? = some (auto, field) →
    s'.value (.journalNo (s.jnl_count + i + 1)) = some (journalText auto (ownValue field))
  /-- and nothing else is changed -/
  rest : ∀ p, (∀ field ∈ fields, ∀ how, spelled field ≠ some (.set p how)) →
    (∀ i < (journalOpts fields).length, p ≠ .journalNo (s.jnl_count + i + 1)) →
      s'.value p = s.value p

/-- **Each option takes effect on its own**, in every order of them, and whatever comes before. -/
def OnItsOwn (fields : List Text) : Prop :=
  ∀ (env : Environ) (before l : List Text), l.Perm fields →
    Effect (parse env before) (parse env (before ++ l)) l

def Action.param : Action → Option Param
  | .set p _ => some p
  | .journal _ => none

/-- A set of supported options, at most one for each parameter (apart from the journal options). -/
structure Options where
  fields : List Text
  supported : ∀ field ∈ fields, (spelled field).isSome = true
  distinct : (fields.filterMap fun field => (spelled field).bind Action.param).Nodup

/-- The text of a flag is its own value. -/
def isFlag : Action → Bool
  | .set _ (.const _) => true
  | _ => false

/-- A field that the chain reads as it is spelled. -/
structure Clear (field : Text) : Prop where
  /-- `-acc_meth` comes before `-acc_meth_env` -/
  accMeth : ¬ "-acc_meth_env".toList <+: field
  /-- `-e` comes before `-epoch_taper` -/
  epochTaper : ¬ "-epoch_taper".toList <+: field
  /-- `-f` may stand anywhere -/
  anchored : "-f".toList <:+: field → "-f".toList <+: field
  /-- the value is what comes behind the last `=` -/
  value : ∀ action, spelled field = some action → isFlag action = false → '=' ∉ ownValue field

/-! ### The chain and the spelling -/

/-- The parameters of the journal options are not set by name. -/
def Param.isJournalNo : Param → Bool
  | .journalNo _ => true
  | _ => false

/-- What the table of arms is like. -/
theorem arms_table :
    -- two pairs of arms of which the earlier one takes what the later one is for
    (arms.Pairwise fun arm later => arm.exact = false → arm.pattern <+: later.pattern →
      arm.action = later.action ∨ later.pattern = "-acc_meth_env".toList ∨
        later.pattern = "-epoch_taper".toList) ∧
    -- three patterns that begin no other one
    (∀ arm ∈ [starts "-f" fileName, starts "-acc_meth_env" (.set .acc_meth_env .upper),
        starts "-epoch_taper" (flag .epoch_taper "-epochtaper")],
      arm ∈ starts "-f" fileName :: arms ∧
        ∀ other ∈ starts "-f" fileName :: arms, arm.pattern <+: other.pattern →
          other.action = arm.action) ∧
    -- the two arms that take them first
    (starts "-acc_meth" (.set .access_method .upper) ∈ arms.take 14 ∧
      (∀ arm ∈ arms.take 14, arm.action.param ≠ some .acc_meth_env) ∧
      ∀ arm ∈ arms, arm.action.param = some .acc_meth_env → "-acc_meth".toList <+: arm.pattern) ∧
    (starts "-e" (.set .extension_count .tmp) ∈ arms.take 4 ∧
      (∀ arm ∈ arms.take 4, arm.action.param ≠ some .epoch_taper) ∧
      ∀ arm ∈ arms, arm.action.param = some .epoch_taper →
        arm.action = flag .epoch_taper "-noepochtaper" ∨ "-e".toList <+: arm.pattern) ∧
    -- what the arms for one parameter do
    (∀ arm ∈ starts "-f" fileName :: arms, arm.action.param = some .file_name →
      arm.pattern = "-f".toList) ∧
    (∀ arm ∈ starts "-f" fileName :: arms, arm.action.param = some .move →
      arm.action = flag .move "0") ∧
    (∀ arm ∈ starts "-f" fileName :: arms,
      arm.action.param = some .jnl_prefix_ ∨ arm.action.param = some .jnl_suffix →
        (arm.pattern = "-jnl_prefix=".toList ∨ arm.pattern = "-jnl_suffix=".toList) ∧
          arm.action = (if arm.action.param = some .jnl_prefix_ then .set .jnl_prefix_ .tmp
            else .set .jnl_suffix .tmp)) ∧
    (¬ "-f".toList <:+: "-jnl_prefix=".toList ++ unspec ∧
      ¬ "-f".toList <:+: "-jnl_suffix=".toList ++ unspec) ∧
    ∀ arm ∈ starts "-f" fileName :: arms, arm.action.param.any Param.isJournalNo = false := by
  refine ⟨?_, ?_, ⟨?_, ?_, ?_⟩, ⟨?_, ?_, ?_⟩, ?_, ?_, ?_, ⟨?_, ?_⟩, ?_⟩ <;> decide +kernel

/-- The two pairs of arms of which the earlier one takes what the later one is for. -/
theorem pairwise_arms : arms.Pairwise fun arm later =>
    arm.exact = false → arm.pattern <+: later.pattern →
      arm.action = later.action ∨ later.pattern = "-acc_meth_env".toList ∨
        later.pattern = "-epoch_taper".toList :=
  arms_table.1

theorem separate_arms {field : Text} (hacc : ¬ "-acc_meth_env".toList <+: field)
    (hepoch : ¬ "-epoch_taper".toList <+: field) : Separate arms field := by
  refine pairwise_arms.imp fun {arm later} h hexact hpre htakes => ?_
  have hlater := Arm.prefix_of_takes htakes
  rcases h hexact hpre with h | h | h
  · exact h
  · exact absurd (h ▸ hlater) hacc
  · exact absurd (h ▸ hlater) hepoch

theorem takes_starts {pattern : String} {action : Action} {field : Text} :
    (starts pattern action).takes field = true ↔ pattern.toList <+: field :=
  decide_eq_true_iff

theorem spelled_of_infix {field : Text} (h : ¬ "-f".toList <:+: field) :
    spelled field = (longestArm arms field).map Arm.action := by
  have hpre : ¬ "-f".toList <+: field := fun hp => h hp.isInfix
  rw [spelled, spelledArm, longestArm]
  have htakes : ¬ (starts "-f" fileName).takes field = true := fun ht => hpre (takes_starts.1 ht)
  cases longestArm arms field with
  | none => exact congrArg _ (if_neg htakes)
  | some longest => exact congrArg _ (if_neg fun hboth => htakes hboth.1)

/-- An option whose pattern begins no other pattern is spelled wherever a field begins with it. -/
theorem spelled_of_prefix (arm : Arm Char Action) (hmem : arm ∈ starts "-f" fileName :: arms)
    (hexact : arm.exact = false)
    (hunique : ∀ other ∈ starts "-f" fileName :: arms, arm.pattern <+: other.pattern →
      other.action = arm.action) {field : Text} (h : arm.pattern <+: field) :
    spelled field = some arm.action := by
  have htakes : arm.takes field = true := by
    unfold Arm.takes
    rw [hexact]
    exact decide_eq_true h
  rw [spelled, spelledArm]
  cases hlong : longestArm (starts "-f" fileName :: arms) field with
  | none =>
      rw [longestArm_eq_none.1 hlong arm hmem] at htakes
      cases htakes
  | some longest =>
      obtain ⟨hmem', htakes'⟩ := longestArm_spec hlong
      have hpre : arm.pattern <+: longest.pattern :=
        List.prefix_of_prefix_length_le h (Arm.prefix_of_takes htakes')
          (longestArm_length hlong hmem htakes)
      exact congrArg some (hunique longest hmem' hpre)

/-- Three patterns begin no other one. -/
theorem spelled_of_longest {arm : Arm Char Action}
    (hmem : arm ∈ [starts "-f" fileName, starts "-acc_meth_env" (.set .acc_meth_env .upper),
      starts "-epoch_taper" (flag .epoch_taper "-epochtaper")])
    (hexact : arm.exact = false) {field : Text} (h : arm.pattern <+: field) :
    spelled field = some arm.action := by
  obtain ⟨-, hlongest, -⟩ := arms_table
  exact spelled_of_prefix arm (hlongest arm hmem).1 hexact (hlongest arm hmem).2 h

theorem spelled_file_name {field : Text} (h : "-f".toList <+: field) :
    spelled field = some fileName :=
  spelled_of_longest List.mem_cons_self rfl h

/-- **The chain takes a field for what it spells.** -/
theorem chain_eq_spelled {field : Text} (hacc : ¬ "-acc_meth_env".toList <+: field)
    (hepoch : ¬ "-epoch_taper".toList <+: field)
    (hanchored : "-f".toList <:+: field → "-f".toList <+: field) :
    chain field = spelled field := by
  by_cases hf : "-f".toList <:+: field
  · rw [chain, if_pos hf, spelled_file_name (hanchored hf)]
  · rw [chain, if_neg hf, spelled_of_infix hf, firstArm_eq_longestArm (separate_arms hacc hepoch)]

theorem chain_eq_some {field : Text} {action : Action} (h : chain field = some action) :
    action = fileName ∨ ∃ arm, firstArm arms field = some arm ∧ arm.action = action := by
  unfold chain at h
  split at h
  · exact Or.inl (Option.some.inj h).symm
  · exact Or.inr (Option.map_eq_some_iff.1 h)

/-- The arm for `-acc_meth_env` is never reached. -/
theorem chain_ne_acc_meth_env {field : Text} {action : Action} (h : chain field = some action) :
    action.param ≠ some .acc_meth_env := by
  intro hparam
  rcases chain_eq_some h with rfl | ⟨arm, hfirst, rfl⟩
  · cases hparam
  · obtain ⟨hmem, htakes⟩ := firstArm_spec hfirst
    have hpre := Arm.prefix_of_takes htakes
    obtain ⟨-, -, ⟨hbefore, hnone, hpattern⟩, -⟩ := arms_table
    obtain ⟨first, hmem', hfirst'⟩ := firstArm_of_take hbefore
      (takes_starts.2 ((hpattern arm hmem hparam).trans hpre))
    obtain rfl : first = arm := Option.some.inj (hfirst'.symm.trans hfirst)
    exact hnone first hmem' hparam

/-- Nor is the one for `-epoch_taper`. -/
theorem chain_epoch_taper {field : Text} {action : Action} (h : chain field = some action)
    (hparam : action.param = some .epoch_taper) : action = flag .epoch_taper "-noepochtaper" := by
  rcases chain_eq_some h with rfl | ⟨arm, hfirst, rfl⟩
  · cases hparam
  · obtain ⟨hmem, htakes⟩ := firstArm_spec hfirst
    have hpre := Arm.prefix_of_takes htakes
    obtain ⟨-, -, -, ⟨hbefore, hnone, harm⟩, -⟩ := arms_table
    refine (harm arm hmem hparam).resolve_right fun he => ?_
    obtain ⟨first, hmem', hfirst'⟩ := firstArm_of_take hbefore (takes_starts.2 (he.trans hpre))
    obtain rfl : first = arm := Option.some.inj (hfirst'.symm.trans hfirst)
    exact hnone first hmem' hparam

theorem spelled_mem {field : Text} {action : Action} (h : spelled field = some action) :
    ∃ arm ∈ starts "-f" fileName :: arms, arm.pattern <+: field ∧ arm.takes field = true ∧
      arm.action = action := by
  obtain ⟨arm, harm, haction⟩ := Option.map_eq_some_iff.1 h
  obtain ⟨hmem, htakes⟩ := longestArm_spec harm
  exact ⟨arm, hmem, Arm.prefix_of_takes htakes, htakes, haction⟩

/-- What the chain has no arm for is no option. -/
theorem chain_isSome {field : Text} (h : (spelled field).isSome = true) :
    (chain field).isSome = true := by
  obtain ⟨action, haction⟩ := Option.isSome_iff_exists.1 h
  obtain ⟨arm, hmem, hpre, htakes, -⟩ := spelled_mem haction
  unfold chain
  split
  · rfl
  · rename_i hf
    rcases List.mem_cons.1 hmem with rfl | hmem
    · exact absurd hpre.isInfix hf
    · rw [Option.isSome_map]
      exact List.find?_isSome.2 ⟨arm, hmem, htakes⟩

/-- An option that does not begin with `-f` has another parameter. -/
theorem spelled_param_file_name {field : Text} {action : Action} (h : spelled field = some action)
    (hparam : action.param = some .file_name) : "-f".toList <+: field := by
  obtain ⟨arm, hmem, hpre, -, rfl⟩ := spelled_mem h
  obtain ⟨-, -, -, -, harm, -⟩ := arms_table
  exact harm arm hmem hparam ▸ hpre

theorem param_ne_journalNo {arm : Arm Char Action} (hmem : arm ∈ starts "-f" fileName :: arms)
    (n : Nat) : arm.action.param ≠ some (.journalNo n) := by
  obtain ⟨-, -, -, -, -, -, -, -, harm⟩ := arms_table
  intro hparam
  have hno := harm arm hmem
  rw [hparam] at hno
  cases hno

theorem chain_ne_journalNo {field : Text} {action : Action} (h : chain field = some action)
    (n : Nat) : action.param ≠ some (.journalNo n) := by
  rcases chain_eq_some h with rfl | ⟨arm, hfirst, rfl⟩
  · exact fun hparam => by cases hparam
  · exact param_ne_journalNo (List.mem_cons_of_mem _ (firstArm_spec hfirst).1) n

/-! ## 3. The fields one after the other -/

/-- What the chain does with a field that it takes. -/
def taken (field : Text) : Action := (chain field).getD fileName

def run (fields : List Text) (s : State) : State :=
  fields.foldl (fun s field => (taken field).run (tmpOf field) s) s

theorem parseFrom_append : ∀ (before l : List Text) (i : Nat) (s : State),
    parseFrom i (before ++ l) s = parseFrom (i + before.length) l (parseFrom i before s)
  | [], _, _, _ => rfl
  | field :: before, l, i, s => by
      rw [List.cons_append, parseFrom, parseFrom, parseFrom_append, List.length_cons]
      congr 1
      omega

theorem parseFrom_eq_run : ∀ {l : List Text} (i : Nat) (s : State),
    (∀ field ∈ l, (chain field).isSome = true) → parseFrom i l s = run l s
  | [], _, _, _ => rfl
  | field :: l, i, s, h => by
      obtain ⟨hfield, hl⟩ := List.forall_mem_cons.1 h
      obtain ⟨action, haction⟩ := Option.isSome_iff_exists.1 hfield
      have hstep : step s i field = (taken field).run (tmpOf field) s := by
        rw [step, taken, haction]
        rfl
      rw [parseFrom, hstep, parseFrom_eq_run (i + 1) _ hl]
      rfl

theorem run_cons (field : Text) (l : List Text) (s : State) :
    run (field :: l) s = run l ((taken field).run (tmpOf field) s) := rfl

theorem run_append (l l' : List Text) (s : State) : run (l ++ l') s = run l' (run l s) :=
  List.foldl_append

theorem value_run_set {tmp : Text} {s : State} {p : Param} {how : How} :
    ((Action.set p how).run tmp s).value p = some (how.eval tmp) := update_self ..

theorem value_run_other {action : Action} {tmp : Text} {s : State} {p : Param}
    (hparam : action.param ≠ some p) (hno : p.isJournalNo = false) :
    (action.run tmp s).value p = s.value p := by
  cases action with
  | set p' how => exact update_of_ne (fun h => hparam (congrArg some h.symm)) _ _
  | journal auto =>
      refine update_of_ne (fun h => ?_) _ _
      rw [h] at hno
      cases hno

/-- A parameter is what it was, or what some field set it to. -/
theorem value_run (p : Param) (hno : p.isJournalNo = false) : ∀ (l : List Text) (s : State),
    (run l s).value p = s.value p ∨
      ∃ field ∈ l, ∃ how, taken field = .set p how ∧
        (run l s).value p = some (how.eval (tmpOf field))
  | [], s => Or.inl rfl
  | field :: l, s => by
      rcases value_run p hno l ((taken field).run (tmpOf field) s) with h | ⟨f, hf, how, htaken, hv⟩
      · by_cases hparam : (taken field).param = some p
        · cases haction : taken field with
          | set p' how =>
              rw [haction] at hparam
              obtain rfl : p' = p := Option.some.inj hparam
              refine Or.inr ⟨field, List.mem_cons_self, how, haction, ?_⟩
              rw [run_cons, h, haction]
              exact value_run_set
          | journal auto =>
              rw [haction] at hparam
              cases hparam
        · exact Or.inl (h.trans (value_run_other hparam hno))
      · exact Or.inr ⟨f, List.mem_cons_of_mem field hf, how, htaken, hv⟩

/-- The last field that sets a parameter decides. -/
theorem value_run_last {field : Text} {p : Param} {how : How} (htaken : taken field = .set p how)
    (hno : p.isJournalNo = false) {l l' : List Text} {s : State}
    (hafter : ∀ f ∈ l', (taken f).param ≠ some p) :
    (run (l ++ field :: l') s).value p = some (how.eval (tmpOf field)) := by
  rw [run_append, run_cons, htaken]
  rcases value_run p hno l' ((Action.set p how).run (tmpOf field) (run l s)) with h | ⟨f, hf, how', hf', -⟩
  · exact h.trans value_run_set
  · exact absurd (congrArg Action.param hf') (hafter f hf)

/-! ### The journal options -/

/-- The journal options as the chain takes them. -/
def journalTaken (fields : List Text) : List (Bool × Text) :=
  fields.filterMap fun field =>
    match taken field with
    | .journal auto => some (auto, field)
    | _ => none

theorem journal_run : ∀ (l : List Text) (s : State),
    (∀ field ∈ l, ∀ n, (taken field).param ≠ some (.journalNo n)) →
      (run l s).jnl_count = s.jnl_count + (journalTaken l).length ∧
        (∀ n, (∀ i < (journalTaken l).length, n ≠ s.jnl_count + i + 1) →
          (run l s).value (.journalNo n) = s.value (.journalNo n)) ∧
        ∀ i auto field, (journalTaken l)[i]? = some (auto, field) →
          (run l s).value (.journalNo (s.jnl_count + i + 1)) =
            some (journalText auto (tmpOf field))
  | [], s, _ => ⟨rfl, fun _ _ => rfl, fun i _ _ h => by simp [journalTaken] at h⟩
  | field :: l, s, h => by
      obtain ⟨hfield, hl⟩ := List.forall_mem_cons.1 h
      obtain ⟨hcount, hrest, hentry⟩ := journal_run l ((taken field).run (tmpOf field) s) hl
      cases haction : taken field with
      | set p how =>
          have hsame : journalTaken (field :: l) = journalTaken l := by
            simp [journalTaken, haction]
          rw [haction] at hcount hrest hentry hfield
          rw [hsame, run_cons, haction]
          refine ⟨hcount, fun n hn => (hrest n hn).trans ?_, hentry⟩
          exact update_of_ne (fun he => hfield n (congrArg some he.symm)) _ _
      | journal auto =>
          have hcons : journalTaken (field :: l) = (auto, field) :: journalTaken l := by
            simp [journalTaken, haction]
          rw [haction] at hcount hrest hentry
          have hone : ((Action.journal auto).run (tmpOf field) s).jnl_count = s.jnl_count + 1 := rfl
          rw [hone] at hcount hrest hentry
          rw [hcons, run_cons, haction, List.length_cons]
          refine ⟨by omega, fun n hn => ?_, fun i auto' field' hi => ?_⟩
          · refine (hrest n fun i hi he => ?_).trans (update_of_ne (fun he => ?_) _ _)
            · exact hn (i + 1) (by omega) (by omega)
            · exact hn 0 (by omega) (Param.journalNo.inj he)
          · cases i with
            | zero =>
                obtain ⟨rfl, rfl⟩ := Prod.mk.inj (Option.some.inj hi)
                refine (hrest _ fun i _ he => ?_).trans (update_self ..)
                omega
            | succ i =>
                have hat := hentry i auto' field' hi
                rwa [show s.jnl_count + 1 + i + 1 = s.jnl_count + (i + 1) + 1 by omega] at hat

/-! ## 4. The value behind the last `=`, and behind the first one -/

/-- A field with a value, split at the first `=`. -/
theorem exists_split {field : Text} (h : '=' ∈ field) :
    ∃ name, '=' ∉ name ∧ field = name ++ '=' :: ownValue field := by
  obtain ⟨name, value, rfl, hname⟩ := List.eq_append_cons_of_mem h
  refine ⟨name, hname, ?_⟩
  have hdrop : (name ++ '=' :: value).dropWhile (· ≠ '=') = '=' :: value := by
    rw [List.dropWhile_append_of_pos]
    · rfl
    · exact fun c hc => decide_eq_true fun he => hname (he ▸ hc)
  rw [ownValue, if_pos h, hdrop]
  rfl

theorem tmpOf_eq {field : Text} (h : '=' ∉ ownValue field) : tmpOf field = ownValue field := by
  by_cases heq : '=' ∈ field
  · obtain ⟨name, -, hsplit⟩ := exists_split heq
    rw [tmpOf, if_pos heq]
    generalize ownValue field = value at h hsplit
    subst hsplit
    rw [List.reverse_append, List.reverse_cons, List.append_assoc, List.takeWhile_append_of_pos]
    · simp
    · exact fun c hc => decide_eq_true fun he => h (he ▸ List.mem_reverse.1 hc)
  · rw [tmpOf, ownValue, if_neg heq, if_neg heq]

theorem length_tmpOf {field : Text} (h : '=' ∈ ownValue field) :
    (tmpOf field).length < (ownValue field).length := by
  have heq : '=' ∈ field := by
    by_contra heq
    rw [ownValue, if_neg heq] at h
    exact absurd h (by simp [null])
  obtain ⟨name, -, hsplit⟩ := exists_split heq
  rw [tmpOf, if_pos heq]
  generalize ownValue field = value at h hsplit
  subst hsplit
  obtain ⟨a, b, rfl⟩ := List.append_of_mem h
  have hrev : (name ++ '=' :: (a ++ '=' :: b)).reverse =
      b.reverse ++ '=' :: (a.reverse ++ '=' :: name.reverse) := by
    simp
  have hle : ∀ l r : Text, ((l ++ '=' :: r).takeWhile (· ≠ '=')).length ≤ l.length := by
    intro l r
    induction l with
    | nil => simp
    | cons c l ih =>
        rw [List.cons_append, List.takeWhile_cons]
        split
        · exact Nat.succ_le_succ ih
        · exact Nat.zero_le _
  have hb := hle b.reverse (a.reverse ++ '=' :: name.reverse)
  rw [hrev, List.length_reverse, List.length_append, List.length_cons]
  rw [List.length_reverse] at hb
  omega

theorem length_eval {how : How} {p : Param} (h : isFlag (.set p how) = false) (tmp : Text) :
    (how.eval tmp).length = tmp.length := by
  cases how with
  | tmp => rfl
  | upper => exact List.length_map ..
  | const text => cases h

theorem eval_flag {how : How} {p : Param} (h : isFlag (.set p how) = true) (t t' : Text) :
    how.eval t = how.eval t' := by
  cases how with
  | tmp => cases h
  | upper => cases h
  | const text => rfl

theorem length_journalText (auto : Bool) {t t' : Text} (h : t.length < t'.length) :
    (journalText auto t).length < (journalText auto t').length := by
  cases auto with
  | true =>
      simp only [journalText, if_true, List.length_append]
      omega
  | false => simpa [journalText] using h

/-! ## 5. Options on their own -/

theorem isJournalNo_of_spelled {field : Text} {p : Param} {how : How}
    (h : spelled field = some (.set p how)) : p.isJournalNo = false := by
  obtain ⟨arm, hmem, -, -, haction⟩ := spelled_mem h
  cases p with
  | journalNo n => exact absurd (congrArg Action.param haction) (param_ne_journalNo hmem n)
  | _ => rfl

theorem taken_of_spelled {field : Text} {action : Action} (hchain : chain field = spelled field)
    (h : spelled field = some action) : taken field = action := by
  rw [taken, hchain, h]
  rfl

section Read

variable {l : List Text} (hchain : ∀ field ∈ l, chain field = spelled field)
  (hsupported : ∀ field ∈ l, (spelled field).isSome = true)
include hchain hsupported

theorem journalTaken_eq : journalTaken l = journalOpts l := by
  refine List.filterMap_congr fun field hf => ?_
  obtain ⟨action, haction⟩ := Option.isSome_iff_exists.1 (hsupported field hf)
  rw [taken_of_spelled (hchain field hf) haction, haction]
  cases action <;> rfl

/-- **Fields that are taken for what they spell** do what they should, with the value behind the last
    `=`. -/
theorem run_read (hdistinct : (l.filterMap fun field => (spelled field).bind Action.param).Nodup)
    (s : State) :
    (∀ field ∈ l, ∀ p how, spelled field = some (.set p how) →
      (run l s).value p = some (how.eval (tmpOf field))) ∧
    (∀ i auto field, (journalOpts l)[i]? = some (auto, field) →
      (run l s).value (.journalNo (s.jnl_count + i + 1)) = some (journalText auto (tmpOf field))) ∧
    ∀ p, (∀ field ∈ l, ∀ how, spelled field ≠ some (.set p how)) →
      (∀ i < (journalOpts l).length, p ≠ .journalNo (s.jnl_count + i + 1)) →
        (run l s).value p = s.value p := by
  have htaken : ∀ field ∈ l, spelled field = some (taken field) := fun field hf => by
    obtain ⟨action, haction⟩ := Option.isSome_iff_exists.1 (hsupported field hf)
    rw [taken_of_spelled (hchain field hf) haction, haction]
  obtain ⟨-, hother, hentry⟩ := journal_run l s fun field hf n hparam =>
    chain_ne_journalNo ((hchain field hf).trans (htaken field hf)) n hparam
  rw [journalTaken_eq hchain hsupported] at hother hentry
  refine ⟨fun field hf p how hspelled => ?_, hentry, fun p hp hno => ?_⟩
  · obtain ⟨before, after, rfl⟩ := List.append_of_mem hf
    refine value_run_last (taken_of_spelled (hchain field hf) hspelled)
      (isJournalNo_of_spelled hspelled) fun f hafter hparam => ?_
    -- a later field with the same parameter would be a second option for it
    rw [List.filterMap_append, List.filterMap_cons_some (b := p) (by rw [hspelled]; rfl)] at hdistinct
    have hnot := (List.nodup_cons.1 (List.nodup_append.1 hdistinct).2.1).1
    refine hnot (List.mem_filterMap.2 ⟨f, hafter, ?_⟩)
    rw [htaken f (List.mem_append_right _ (List.mem_cons_of_mem _ hafter))]
    exact hparam
  · by_cases hj : p.isJournalNo = true
    · cases p with
      | journalNo n => exact hother n fun i hi he => hno i hi (congrArg Param.journalNo he)
      | _ => cases hj
    · rw [Bool.not_eq_true] at hj
      refine (value_run p hj l s).resolve_right ?_
      intro hsome
      obtain ⟨f, hf, how, hset, -⟩ := hsome
      exact hp f hf how (hset ▸ htaken f hf)

end Read

theorem Clear.chain_eq {field : Text} (h : Clear field) : chain field = spelled field :=
  chain_eq_spelled h.accMeth h.epochTaper h.anchored

/-- The fields after others. -/
theorem parse_append (env : Environ) (before : List Text) {l : List Text}
    (h : ∀ field ∈ l, (spelled field).isSome = true) :
    parse env (before ++ l) = run l (parse env before) := by
  rw [parse, parseFrom_append]
  exact parseFrom_eq_run _ _ fun field hf => chain_isSome (h field hf)

/-- Clear options take effect on their own. -/
theorem onItsOwn_of_clear (o : Options) (h : ∀ field ∈ o.fields, Clear field) :
    OnItsOwn o.fields := by
  intro env before l hperm
  have hsupported : ∀ field ∈ l, (spelled field).isSome = true := fun field hf =>
    o.supported field (hperm.mem_iff.1 hf)
  have hclear : ∀ field ∈ l, Clear field := fun field hf => h field (hperm.mem_iff.1 hf)
  obtain ⟨hset, hjournal, hrest⟩ := run_read (fun field hf => (hclear field hf).chain_eq) hsupported
    ((hperm.filterMap _).nodup_iff.2 o.distinct) (parse env before)
  rw [parse_append env before hsupported]
  refine ⟨fun field hf p how hspelled => ?_, fun i auto field hi => ?_, hrest⟩
  · rw [hset field hf p how hspelled]
    cases hflag : isFlag (.set p how) with
    | true => rw [eval_flag hflag]
    | false => rw [tmpOf_eq ((hclear field hf).value _ hspelled hflag)]
  · rw [hjournal i auto field hi]
    have hmem := List.mem_of_getElem? hi
    obtain ⟨f, hf, heq⟩ := List.mem_filterMap.1 hmem
    have hspelled : f = field ∧ spelled f = some (.journal auto) := by
      split at heq
      · rename_i auto' hspelled
        obtain ⟨rfl, rfl⟩ := Prod.mk.inj (Option.some.inj heq)
        exact ⟨rfl, hspelled⟩
      · cases heq
    rw [hspelled.1] at hf hspelled
    rw [tmpOf_eq ((hclear field hf).value _ hspelled.2 rfl)]

/-! ### Where an option is not clear -/

/-- An environment that sets nothing. -/
def bare : Environ := ⟨false, false, true, true⟩

theorem spelled_acc_meth_env {field : Text} (h : "-acc_meth_env".toList <+: field) :
    spelled field = some (.set .acc_meth_env .upper) :=
  spelled_of_longest (List.mem_cons_of_mem _ List.mem_cons_self) rfl h

theorem spelled_epoch_taper {field : Text} (h : "-epoch_taper".toList <+: field) :
    spelled field = some (flag .epoch_taper "-epochtaper") :=
  spelled_of_longest (List.mem_cons_of_mem _ (List.mem_cons_of_mem _ List.mem_cons_self)) rfl h

/-- `-jnl_prefix=` with what BEGIN stores has no `-f`, and neither has `-jnl_suffix=`. -/
theorem ownValue_ne_unspec {field : Text} {p : Param} {how : How}
    (h : spelled field = some (.set p how)) (hp : p = .jnl_prefix_ ∨ p = .jnl_suffix)
    (hf : "-f".toList <:+: field) : how.eval (ownValue field) ≠ unspec := by
  obtain ⟨arm, hmem, hpre, -, haction⟩ := spelled_mem h
  obtain ⟨-, -, -, -, -, -, harm, ⟨hpre_clear, hsuf_clear⟩, -⟩ := arms_table
  have hparam : arm.action.param = some .jnl_prefix_ ∨ arm.action.param = some .jnl_suffix := by
    rw [haction]
    exact hp.imp (congrArg some) (congrArg some)
  obtain ⟨hpattern, hact⟩ := harm arm hmem hparam
  have hhow : how = .tmp := by
    rw [haction] at hact
    split at hact <;> exact (Action.set.inj hact).2
  subst hhow
  intro hv
  have hvalue : ownValue field = unspec := hv
  have hfield : field = arm.pattern ++ unspec := by
    obtain ⟨r, rfl⟩ := hpre
    have hrest : ownValue (arm.pattern ++ r) = r := by
      rcases hpattern with hpattern | hpattern <;> rw [hpattern] <;> rfl
    rw [hrest] at hvalue
    rw [hvalue]
  rw [hfield] at hf
  rcases hpattern with hpattern | hpattern
  · rw [hpattern] at hf
    exact hpre_clear hf
  · rw [hpattern] at hf
    exact hsuf_clear hf

/-- Two members with the same image are the same. -/
theorem eq_of_nodup_filterMap {α β : Type} {f : α → Option β} : ∀ {l : List α},
    (l.filterMap f).Nodup → ∀ {a a' : α} {b : β}, a ∈ l → a' ∈ l → f a = some b → f a' = some b → a = a'
  | [], _, _, _, _, h, _, _, _ => absurd h List.not_mem_nil
  | x :: l, hnodup, a, a', b, ha, ha', hb, hb' => by
      have hmem : ∀ y ∈ l, f y = some b → b ∈ l.filterMap f := fun y hy hyb =>
        List.mem_filterMap.2 ⟨y, hy, hyb⟩
      cases hx : f x with
      | none =>
          rw [List.filterMap_cons_none hx] at hnodup
          have hne : ∀ y, f y = some b → y ≠ x := by
            intro y hy he
            rw [he, hx] at hy
            cases hy
          exact eq_of_nodup_filterMap hnodup ((List.mem_cons.1 ha).resolve_left (hne a hb))
            ((List.mem_cons.1 ha').resolve_left (hne a' hb')) hb hb'
      | some c =>
          rw [List.filterMap_cons_some hx] at hnodup
          obtain ⟨hc, hnodup⟩ := List.nodup_cons.1 hnodup
          rcases List.mem_cons.1 ha with rfl | hal
          · rcases List.mem_cons.1 ha' with rfl | hal'
            · rfl
            · exact absurd (hmem a' hal' hb') (Option.some.inj (hx.symm.trans hb) ▸ hc)
          · rcases List.mem_cons.1 ha' with rfl | hal'
            · exact absurd (hmem a hal hb) (Option.some.inj (hx.symm.trans hb') ▸ hc)
            · exact eq_of_nodup_filterMap hnodup hal hal' hb hb'

section Necessary

variable {o : Options} (h : Effect (begin_ bare) (run o.fields (begin_ bare)) o.fields)
include h

omit h in
theorem chain_eq_taken {field : Text} (hf : field ∈ o.fields) : chain field = some (taken field) := by
  obtain ⟨action, haction⟩ := Option.isSome_iff_exists.1 (chain_isSome (o.supported field hf))
  rw [taken, haction]
  rfl

/-- A parameter that BEGIN leaves alone is set by some field. -/
theorem exists_taken {field : Text} (hf : field ∈ o.fields) {p : Param} {how : How}
    (hspelled : spelled field = some (.set p how))
    (hbegin : (begin_ bare).value p ≠ some (how.eval (ownValue field))) :
    ∃ f ∈ o.fields, ∃ how', chain f = some (.set p how') ∧
      how'.eval (tmpOf f) = how.eval (ownValue field) := by
  have hv := h.set field hf p how hspelled
  rcases value_run p (isJournalNo_of_spelled hspelled) o.fields (begin_ bare) with
    hsame | ⟨f, hmem, how', htaken, hset⟩
  · exact absurd (hsame.symm.trans hv) hbegin
  · exact ⟨f, hmem, how', htaken ▸ chain_eq_taken hmem, Option.some.inj (hset.symm.trans hv)⟩

theorem not_acc_meth_env {field : Text} (hf : field ∈ o.fields) :
    ¬ "-acc_meth_env".toList <+: field := by
  intro hpre
  obtain ⟨f, -, how, hchain, -⟩ := exists_taken h hf (spelled_acc_meth_env hpre)
    (Option.some_ne_none _).symm
  exact chain_ne_acc_meth_env hchain rfl

theorem not_epoch_taper {field : Text} (hf : field ∈ o.fields) :
    ¬ "-epoch_taper".toList <+: field := by
  intro hpre
  obtain ⟨f, -, how, hchain, heval⟩ := exists_taken h hf (spelled_epoch_taper hpre)
    (Option.some_ne_none _).symm
  have hact := chain_epoch_taper hchain rfl
  obtain rfl : how = .const "-noepochtaper".toList := (Action.set.inj hact).2
  have htext : "-noepochtaper".toList = "-epochtaper".toList := heval
  exact absurd htext (by simp)

/-- The chain takes a field for what it spells, or for `-f`. -/
theorem chain_or {field : Text} (hf : field ∈ o.fields) (hne : chain field ≠ some fileName) :
    chain field = spelled field := by
  refine chain_eq_spelled (not_acc_meth_env h hf) (not_epoch_taper h hf) fun hinf => ?_
  rw [chain, if_pos hinf] at hne
  exact absurd rfl hne

theorem anchored {field : Text} (hf : field ∈ o.fields) (hinf : "-f".toList <:+: field) :
    "-f".toList <+: field := by
  by_contra hpre
  have hfile : chain field = some fileName := if_pos hinf
  obtain ⟨action, haction⟩ := Option.isSome_iff_exists.1 (o.supported field hf)
  cases action with
  | set p how =>
      have hp : p ≠ .file_name := fun he =>
        hpre (spelled_param_file_name haction (congrArg some he))
      have hbegin : (begin_ bare).value p ≠ some (how.eval (ownValue field)) := by
        intro hv
        cases p with
        | jnl_prefix_ =>
            exact ownValue_ne_unspec haction (Or.inl rfl) hinf (Option.some.inj hv).symm
        | jnl_suffix =>
            exact ownValue_ne_unspec haction (Or.inr rfl) hinf (Option.some.inj hv).symm
        | move =>
            obtain ⟨arm, hmem, -, -, hact⟩ := spelled_mem haction
            obtain ⟨-, -, -, -, -, hmove, -⟩ := arms_table
            have hflag := hmove arm hmem (hact ▸ rfl)
            rw [hact] at hflag
            obtain rfl : how = .const "0".toList := (Action.set.inj hflag).2
            have htext : "1".toList = "0".toList := Option.some.inj hv
            exact absurd htext (by simp)
        | _ => cases hv
      obtain ⟨f, hmem, how', hchain, -⟩ := exists_taken h hf haction hbegin
      have hspelled : spelled f = some (.set p how') := by
        rw [← hchain]
        refine (chain_or h hmem ?_).symm
        rw [hchain]
        intro he
        exact hp (Action.set.inj (Option.some.inj he)).1
      -- both are options for the same parameter
      have hsame : f = field :=
        eq_of_nodup_filterMap o.distinct hmem hf (congrArg (Option.bind · Action.param) hspelled)
          (congrArg (Option.bind · Action.param) haction)
      rw [hsame, hfile] at hchain
      exact hp (Action.set.inj (Option.some.inj hchain)).1.symm
  | journal auto =>
      -- the journal options that are taken as such are fewer than those spelled
      obtain ⟨-, hother, -⟩ := journal_run o.fields (begin_ bare) fun f hmem n =>
        chain_ne_journalNo (chain_eq_taken hmem) n
      have hle : (journalOpts o.fields).length ≤ (journalTaken o.fields).length := by
        by_contra hlt
        have hlast : (journalTaken o.fields).length < (journalOpts o.fields).length := by omega
        have hsome := h.journal _ _ _ (List.getElem?_eq_getElem hlast)
        rw [hother] at hsome
        · cases hsome
        · intro i hi
          omega
      rw [journalOpts, journalTaken, List.length_filterMap_eq_countP, List.length_filterMap_eq_countP]
        at hle
      have himp : ∀ f ∈ o.fields,
          (match taken f with
            | .journal auto => some (auto, f)
            | _ => none).isSome = true →
          (match spelled f with
            | some (.journal auto) => some (auto, f)
            | _ => none).isSome = true := by
        intro f hmem hsome
        cases htaken : taken f with
        | set p how =>
            rw [htaken] at hsome
            cases hsome
        | journal auto' =>
            have hchain := chain_eq_taken hmem
            rw [htaken] at hchain
            have hspelled := chain_or h hmem (by rw [hchain]; exact fun he => by cases he)
            rw [← hspelled, hchain]
            rfl
      have hcount := Nat.le_antisymm (List.countP_mono_left himp) hle
      have hsame := eq_of_countP_eq o.fields himp hcount field hf
      rw [haction] at hsame
      have htaken : taken field = fileName := by
        rw [taken, hfile]
        rfl
      rw [htaken] at hsame
      cases hsame

theorem value_clear {field : Text} (hf : field ∈ o.fields) {action : Action}
    (haction : spelled field = some action) (hflag : isFlag action = false) :
    '=' ∉ ownValue field := by
  intro heq
  have hchain : ∀ f ∈ o.fields, chain f = spelled f := fun f hmem =>
    chain_eq_spelled (not_acc_meth_env h hmem) (not_epoch_taper h hmem) (anchored h hmem)
  obtain ⟨hset, hjournal, -⟩ := run_read hchain o.supported o.distinct (begin_ bare)
  have hlt := length_tmpOf heq
  cases action with
  | set p how =>
      have heval := Option.some.inj ((hset field hf p how haction).symm.trans
        (h.set field hf p how haction))
      have hlen := congrArg List.length heval
      rw [length_eval hflag, length_eval hflag] at hlen
      omega
  | journal auto =>
      have hmem : (auto, field) ∈ journalOpts o.fields :=
        List.mem_filterMap.2 ⟨field, hf, by rw [haction]⟩
      obtain ⟨i, hi, hget⟩ := List.mem_iff_getElem.1 hmem
      have hat : (journalOpts o.fields)[i]? = some (auto, field) :=
        (List.getElem?_eq_getElem hi).trans (congrArg some hget)
      have htext := Option.some.inj ((hjournal i auto field hat).symm.trans (h.journal i auto field hat))
      have hlen := length_journalText auto hlt
      rw [htext] at hlen
      exact Nat.lt_irrefl _ hlen

end Necessary

/-- **When each option of a set takes effect on its own**: exactly when none of them is
    `-acc_meth_env` or `-epoch_taper`, none has `-f` behind its beginning, and no value has a `=`. -/
theorem options_onItsOwn_iff (o : Options) : OnItsOwn o.fields ↔ ∀ field ∈ o.fields, Clear field := by
  refine ⟨fun h field hf => ?_, onItsOwn_of_clear o⟩
  have heffect := h bare [] o.fields (List.Perm.refl _)
  rw [parse_append bare [] o.supported] at heffect
  exact ⟨not_acc_meth_env heffect hf, not_epoch_taper heffect hf, anchored heffect hf,
    fun action haction hflag => value_clear heffect hf haction hflag⟩

/-- Four options for different parameters, the last one of them for the journal. -/
def fourOptions : Options where
  fields := ["-k=64".toList, "-rec=512".toList, "-acc_meth=BG".toList, "-journal=on,before".toList]
  supported := by decide +kernel
  distinct := by decide +kernel

theorem options_onItsOwn_four : OnItsOwn fourOptions.fields := by
  refine (options_onItsOwn_iff fourOptions).2 ?_
  have hall : ∀ field ∈ fourOptions.fields, ¬ "-acc_meth_env".toList <+: field ∧
      ¬ "-epoch_taper".toList <+: field ∧ ¬ "-f".toList <:+: field ∧ '=' ∉ ownValue field := by
    decide +kernel
  intro field hfield
  obtain ⟨hacc, hepoch, hf, hvalue⟩ := hall field hfield
  exact ⟨hacc, hepoch, fun h => absurd h hf, fun _ _ _ => hvalue⟩

/-- What dbcreate_base.csh adds is taken for another access method. -/
theorem acc_meth_env_captured : ¬ OnItsOwn ["-acc_meth=MM".toList, "-acc_meth_env=BG".toList] := by
  intro h
  have hrun : spelled "-acc_meth=MM".toList = some (.set .access_method .upper) ∧
      (parse bare (["-acc_meth=MM".toList, "-acc_meth_env=BG".toList])).value .access_method ≠
        some (How.upper.eval (ownValue "-acc_meth=MM".toList)) := by
    decide +kernel
  exact hrun.2 ((h bare [] _ (List.Perm.refl _)).set _ List.mem_cons_self _ _ hrun.1)

end YottaTest.Dbcreate
