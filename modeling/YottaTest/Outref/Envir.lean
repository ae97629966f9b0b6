/-
  File:      YottaTest/Outref/Envir.lean
  Subject:   outref.awk: the options it reads from the environment.

  * `Environ` -- the environment, and what awk adds to it;
  * `envir`, `held` -- the array of options, and the values in it;
  * `platforms`, `host`, `machtype`, `osname`, `linuxDistrib` -- the names of this host.
-/
import YottaTest.Outref.Process

namespace YottaTest.Outref

/-! ## 1. The environment -/

/-- The environment of a run. awk compares a number with a value as numbers if the value looks like
    one; what a value looks like, and the order in which an array is gone through, is awk's. -/
structure Environ where
  /-- `ENVIRON[name]` -/
  value : Text → Text
  /-- `n == value` -/
  same : Nat → Text → Bool
  /-- `n > value` -/
  above : Nat → Text → Bool
  /-- `for (i in array)` -/
  visit : List Text → List Text
  visit_perm : ∀ names, (visit names).Perm names

namespace Environ

def get (env : Environ) (name : String) : Text := env.value name.toList

/-- `"want" == ENVIRON[name]` -/
def is (env : Environ) (name want : String) : Bool := env.get name = want.toList

/-- `n == ENVIRON[name]` -/
def num (env : Environ) (name : String) (n : Nat) : Bool := env.same n (env.get name)

end Environ

/-- An environment with these variables, whose arrays are gone through from the front. -/
def Environ.ofList (vars : List (String × String)) : Environ where
  value name := ((vars.find? fun v => v.1.toList = name).map fun v => v.2.toList).getD []
  same n text := text = Nat.toDigits 10 n
  above n text := text ≠ [] && text.all Char.isDigit && Awk.number text < n
  visit names := names
  visit_perm names := List.Perm.refl names

/-- `Environ.ofList`, for the texts of the variables. -/
def Environ.ofTexts (vars : List (Text × Text)) : Environ where
  value name := ((vars.find? fun v => v.1 = name).map Prod.snd).getD []
  same n text := text = Nat.toDigits 10 n
  above n text := text ≠ [] && text.all Char.isDigit && Awk.number text < n
  visit names := names
  visit_perm names := List.Perm.refl names

theorem Environ.ofList_texts (vars : List (String × String)) :
    Environ.ofList vars = Environ.ofTexts (vars.map fun v => (v.1.toList, v.2.toList)) := by
  unfold Environ.ofList Environ.ofTexts
  simp only [List.find?_map, Option.map_map]
  rfl

def isBlank (c : Char) : Bool := c = ' ' || c = '\t' || c = '\n'

/-- The fields of a text. -/
def fields (text : Text) : List Text := (text.splitOnP isBlank).filter (· ≠ [])

theorem mem_fields_ne_nil {name text : Text} (h : name ∈ fields text) : name ≠ [] := by
  unfold fields at h
  simpa using (List.mem_filter.1 h).2

theorem fields_append {c : Char} (hc : isBlank c = true) (u v : Text) :
    fields (u ++ c :: v) = fields u ++ fields v := by
  rw [fields, List.splitOnP_append_cons u v hc, List.filter_append]
  rfl

theorem fields_word {w : Text} (hne : w ≠ []) (hw : ∀ c ∈ w, isBlank c = false) : fields w = [w] := by
  rw [fields, List.splitOnP_eq_singleton hw]
  simp [hne]

/-- `sub(/\..*$/,"",host)`: the name before the first dot. -/
def short (host : Text) : Text := host.takeWhile (· ≠ '.')

section Names

variable (env : Environ)

def osname : Text := toupper (env.get "gtm_test_osname")

def machtype : Text := toupper (env.get "gtm_test_machtype")

def linuxDistrib : Text :=
  if env.get "gtm_test_linux_distrib" = [] then "NON_LINUX".toList
  else toupper (env.get "gtm_test_linux_distrib")

def hostosMachtype : Text := env.get "gtm_test_os_machtype"

/-- `all_platforms`. -/
def platforms : List Text := fields (env.get "gtm_test_os_machtype_all")

/-! ## 2. The options -/

/-- One of two flags. -/
def pick (cond : Bool) (yes no : String) : List (Option Text) := [some (if cond then yes else no).toList]

/-- A flag, or none. -/
def only (cond : Bool) (flag : String) : List (Option Text) := [if cond then some flag.toList else none]

def distribFlag : List (Option Text) :=
  if env.is "real_mach_type" "x86_64" then
    if env.is "gtm_test_linux_distrib" "arch" then [some "ARCH_LINUX_X86_64".toList]
    else if env.is "gtm_test_linux_distrib" "debian" then [some "DEBIAN_LINUX_X86_64".toList]
    else if env.is "gtm_test_linux_distrib" "ubuntu" then [some "UBUNTU_LINUX_X86_64".toList]
    else if env.is "gtm_test_linux_distrib" "centos" then [some "CENTOS_LINUX_X86_64".toList]
    else if env.is "gtm_test_linux_distrib" "rhel" then [some "RHEL_LINUX_X86_64".toList]
    else [none]
  else if env.is "real_mach_type" "aarch64" then
    if env.is "gtm_test_linux_distrib" "debian" then [some "DEBIAN_LINUX_AARCH64".toList]
    else if env.is "gtm_test_linux_distrib" "ubuntu" then [some "UBUNTU_LINUX_AARCH64".toList]
    else [none]
  else []

/-- The flags that are numbered, not named, in order; `none` where a number stays without a flag. -/
def numbered : List (Option Text) :=
  [some (osname env), some (env.get "gtm_server_location"), some (linuxDistrib env), some (machtype env),
    some (hostosMachtype env), some (toupper (env.get "tst_image"))] ++
  pick (env.is "gtm_endian" "BIG_ENDIAN") "BIG_ENDIAN" "LITTLE_ENDIAN" ++
  pick (env.is "gtm_test_unicode_support" "TRUE") "UTF8" "NON_UTF8" ++
  pick (env.is "gtm_chset" "UTF-8") "UNICODE_MODE" "NONUNICODE_MODE" ++
  pick (env.is "gtm_chset" "UTF-8") "CHSET_UTF8"
    (if env.is "gtm_chset" "M" then "CHSET_M" else "CHSET_UNDEF") ++
  pick (env.is "gtm_test_jnl_nobefore" "1") "JNL_NOBEFORE" "JNL_BEFORE" ++
  pick (env.is "gtm_platform_size" "64") "64BIT_GTM" "32BIT_GTM" ++
  only (!env.is "gtm_platform_no_V4" "") "PLATFORM_NO_V4GTM" ++
  only (env.is "gtm_test_nopriorgtmver" "1") "PLATFORM_NO_PRIORGTM" ++
  only (env.is "gtm_platform_no_compress_ver" "1") "PLATFORM_NO_COMPRESS_VER" ++
  only (env.is "gtm_platform_no_ds_ver" "1") "PLATFORM_NO_DSVER" ++
  only (env.is "gtm_test_noggtoolsdir" "1") "PLATFORM_NO_GGTOOLSDIR" ++
  only (env.is "gtm_test_noggusers" "1") "PLATFORM_NO_GGUSERS" ++
  only (env.is "gtm_test_noggbuilddir" "1") "PLATFORM_NO_GGBUILDDIR" ++
  only (env.is "gtm_test_noIGS" "1") "PLATFORM_NO_IGS" ++
  only (env.is "gtm_platform_no_4byte_utf8" "1") "PLATFORM_NO_4BYTE_UTF8" ++
  (if env.is "test_repl" "MULTISITE" then [] else [some "NON_MULTISITE".toList]) ++
  pick (!env.is "acc_meth" "MM" || !env.is "gtm_platform_mmfile_ext" "0") "MM_FILE_EXT" "MM_FILE_NO_EXT" ++
  pick (env.is "test_encryption" "ENCRYPT") "ENCRYPT" "NON_ENCRYPT" ++
  pick (env.num "gtm_test_trigger" 1) "TRIGGER" "NOTRIGGER" ++
  pick (env.is "gtm_test_tls" "TRUE") "TLS" "NOTLS" ++
  pick (env.num "gtm_test_java_support" 1) "PLATFORM_JAVA" "PLATFORM_NOJAVA" ++
  pick (env.num "test_replic_suppl_type" 1) "SUPPLEMENTARY_AP"
    (if env.num "test_replic_suppl_type" 2 then "SUPPLEMENTARY_PQ" else "SUPPLEMENTARY_AB") ++
  pick (env.num "gtm_test_spanreg" 1 || env.num "gtm_test_spanreg" 3) "SPANNING_REGIONS"
    "NONSPANNING_REGIONS" ++
  pick (!env.is "gtm_custom_errors" "") "CUSTOM_ERRORS" "NO_CUSTOM_ERRORS" ++
  pick (env.num "gtm_test_forward_rollback" 1) "FORWARD_ROLLBACK" "NOFORWARD_ROLLBACK" ++
  pick (env.num "gtm_mupjnl_parallel" 1 || env.is "gtm_mupjnl_parallel" "") "NOMUPJNL_PARALLEL"
    "MUPJNL_PARALLEL" ++
  distribFlag env ++
  only (env.num "gtm_test_singlecpu" 1) "ONECPU" ++
  only (env.num "ydb_test_exclude_diskfollow_timeout" 1) "EXCLUDE_DISKFOLLOW_TIMEOUT" ++
  only (env.num "ydb_test_exclude_sem_counter" 1) "EXCLUDE_SEM_COUNTER" ++
  only (env.num "ydb_test_exclude_ydb362b" 1) "EXCLUDE_YDB362B" ++
  only (env.num "ydb_test_exclude_gtm7949" 1) "EXCLUDE_GTM7949" ++
  only (env.num "ydb_test_exclude_gtm7083a" 1) "EXCLUDE_GTM7083A" ++
  only (env.num "ydb_test_exclude_V5_tests" 1) "EXCLUDE_V5_TESTS" ++
  pick (env.num "is_tst_dir_ssd" 1) "TST_DIR_SSD" "TST_DIR_HDD" ++
  only (env.is "real_mach_type" "armv6l") "MACHTYPE_ARMV6L" ++
  pick (env.is "big_files_present" "0") "BIG_FILES_ABSENT" "BIG_FILES_PRESENT" ++
  pick (env.num "ydb_test_tls13_plus" 1) "TLS1.3PLUS" "TLS1.3MINUS" ++
  pick (env.is "gtm_test_dynamic_literals" "DYNAMIC_LITERALS") "DYNAMIC_LITERALS" "NODYNAMIC_LITERALS" ++
  if osname env = "AIX".toList then pick (env.above 6 (env.get "gtm_test_osver")) "AIX_5" "AIX_NEW" else []

/-- `array[key] = value`. -/
def assign (array : List (Text × Text)) (key value : Text) : List (Text × Text) :=
  (key, value) :: array.filter fun entry => entry.1 ≠ key

/-- `array[++n] = flag`, for one flag after the other. -/
def assignFrom : Nat → List (Option Text) → List (Text × Text) → List (Text × Text)
  | _, [], array => array
  | n, none :: flags, array => assignFrom (n + 1) flags array
  | n, some flag :: flags, array => assignFrom (n + 1) flags (assign array (Nat.toDigits 10 (n + 1)) flag)

/-- `envir`, before its values are put between marks. -/
def envir : List (Text × Text) :=
  let named := assign [("TST_ORG_HOST".toList, toupper (short (env.get "tst_org_host")))] "LFE".toList
    (env.get "LFE")
  let options := (fields (env.get "tst_options_all")).foldl (fun array x => assign array x (env.value x)) named
  let random := fields (env.get "tst_random_all")
  assignFrom random.length (numbered env)
    (random.foldl (fun array x => assign array x (env.value x)) options)

/-- The values of the options. -/
def held : List Text := (envir env).map Prod.snd

/-- `envir["TST_ORG_HOST"]`. -/
def host : Text := (((envir env).find? fun entry => entry.1 = "TST_ORG_HOST".toList).map Prod.snd).getD []

end Names

end YottaTest.Outref
