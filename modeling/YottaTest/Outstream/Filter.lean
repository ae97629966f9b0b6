/-
  File:      YottaTest/Outstream/Filter.lean
  Subject:   outstream.awk: the masks that are put on the lines of a log.

  A line is masked by rules that look at the line alone, and by two things that are left over from the
  lines before it: `substatus`, which counts replacements, and `jnl_flag1line`, which says whether the
  lines of a process table are read.

  * `Edit`, `Rule`, `Rule.apply` -- replacements, and when they are made;
  * `Environ`, `State`, `filter`, `outputs` -- the environment, what is left over, and what is printed;
  * `Unstamped`, `JpvLine` -- the lines that what is left over has to do with;
  * `outputs_eq` -- **every other line is printed the same in every log**;
  * `status_left_over` -- a renamed file without a time, after a line with a replacement and without one.
-/
import YottaTest.Awk.Patterns

namespace YottaTest.Outstream

open YottaTest.Awk

abbrev Text := List Char

/-! ## 1. Rules -/

local instance : Coe String Text := ⟨String.toList⟩

inductive Edit where
  /-- `gsub(pattern,new)` -/
  | gsub (pattern new : Text)
  /-- `sub(pattern,new)` -/
  | sub (pattern new : Text)
  deriving DecidableEq, Repr

inductive Rule where
  | edit (e : Edit)
  /-- `gsub(replicationtimeexpr pattern,replicationtimerepl new)` -/
  | replication (pattern new : Text)
  /-- the edits if the line matches one of the patterns -/
  | when (patterns : List Text) (edits : List Edit)
  /-- `status = gsub(pattern,new); if (status) $0="##FILTERED##"$0` if the line matches `lines` -/
  | marking (lines pattern new : Text)
  deriving DecidableEq, Repr

def Edit.apply (text : Text) : Edit → Text
  | .gsub pattern new => gsubText pattern new text
  | .sub pattern new => subText pattern new text

def filtered : Text := "##FILTERED##"

def replicationtimeexpr : Text :=
  "^[A-Z][a-z][a-z] [A-Z][a-z][a-z] [ 0-9][0-9] [0-9][0-9]:[0-9][0-9]:[0-9][0-9] 20[0-9][0-9] : "

def replicationtimerepl : Text := "##FILTERED##... ... .. ..:..:.. 20.. : "

/-- A replacement that marks the line as well; the count is the status. -/
def marked (pattern new text : Text) : Text :=
  if gsubStatus pattern text = 0 then gsubText pattern new text
  else filtered ++ gsubText pattern new text

def Rule.apply (timeexpr timerepl text : Text) : Rule → Text
  | .edit e => e.apply text
  | .replication pattern new => gsubText (timeexpr ++ pattern) (timerepl ++ new) text
  | .when patterns edits =>
      if patterns.any fun pattern => matchesPattern pattern text then edits.foldl Edit.apply text else text
  | .marking lines pattern new => if matchesPattern lines text then marked pattern new text else text

def applyRules (rules : List Rule) (text : Text) : Text :=
  rules.foldl (Rule.apply replicationtimeexpr replicationtimerepl) text

theorem applyRules_append (rules rules' : List Rule) (text : Text) :
    applyRules (rules ++ rules') text = applyRules rules' (applyRules rules text) := List.foldl_append ..

def replicationStr (str : Text) : Rule := .replication str str

/-- MUPIP EXTRACT and MUPIP JOURNAL. -/
def extractRules : List Rule := [
  .edit (.gsub "^[0-9 ]*-[A-Z][A-Z][A-Z]-[1-9][0-9][0-9][0-9]  [0-9][0-9]:[0-9][0-9]:[0-9][0-9]"
    "##FILTERED##..-...-....  ..:..:.."),
  .edit (.gsub "GDS BINARY EXTRACT LEVEL [0-9][0-9]*"
    "##FILTERED##GDS BINARY EXTRACT LEVEL ..................................."),
  .edit (.gsub "^.YDB-I-MUJNLSTAT, Backward processing started at ... ... .. ..:..:.. 20..$"
    "##FILTERED##%YDB-I-MUJNLSTAT, Backward processing started at ... ... .. ..:..:.. 20.."),
  .edit (.gsub "^.YDB-I-MUJNLSTAT, Before image applying started at ... ... .. ..:..:.. 20..$"
    "##FILTERED##%YDB-I-MUJNLSTAT, Before image applying started at ... ... .. ..:..:.. 20.."),
  .edit (.gsub "^.YDB-I-MUJNLSTAT, End processing at ... ... .. ..:..:.. 20..$"
    "##FILTERED##%YDB-I-MUJNLSTAT, End processing at ... ... .. ..:..:.. 20.."),
  .edit (.gsub "^.YDB-I-MUJNLSTAT, Forward processing started at ... ... .. ..:..:.. 20..$"
    "##FILTERED##%YDB-I-MUJNLSTAT, Forward processing started at ... ... .. ..:..:.. 20.."),
  .edit (.gsub "^.YDB-I-MUJNLSTAT, Initial processing started at ... ... .. ..:..:.. 20..$"
    "##FILTERED##%YDB-I-MUJNLSTAT, Initial processing started at ... ... .. ..:..:.. 20.."),
  .edit (.gsub "^.YDB-I-MUJNLSTAT, Lookback processing started at ... ... .. ..:..:.. ....$"
    "##FILTERED##%YDB-I-MUJNLSTAT, Lookback processing started at ... ... .. ..:..:.. ...."),
  .edit (.gsub "^.YDB-I-MUJNLSTAT, FETCHRESYNC processing started at [A-Z][a-z][a-z] [A-Z][a-z][a-z] [ 0-9][0-9] [0-9][0-9]:[0-9][0-9]:[0-9][0-9] 20[0-9][0-9]$"
    "##FILTERED##%YDB-I-MUJNLSTAT, FETCHRESYNC processing started at... ... .. ..:..:.. 20.."),
  .edit (.gsub "^.YDB-I-IPCNOTDEL, ... ... .. ..:..:.. 20.. : Mupip journal process did not delete IPC resources for region [A-Z]+$"
    "##FILTERED##%YDB-I-IPCNOTDEL, ... ... .. ..:..:.. 20.. : Mupip journal process did not delete IPC resources for region XREG"),
  .marking "SHOW output for journal file"
    "mjl_[0-9][0-9_]*(_[0-9][0-9]*|[0-9]*)" "mjl_##TIMESTAMP##"]

/-- MUPIP REPLIC -EDITINSTANCE -SHOW. -/
def instanceRules : List Rule := [
  .edit (.gsub "Journal Pool Sem Id                          *[0-9][0-9]* \\[0x[0-9A-F][0-9A-F]*\\]"
    "##FILTERED##Journal Pool Sem Id             .......... [0x........]"),
  .edit (.gsub "Journal Pool Shm Id                          *[0-9][0-9]* \\[0x[0-9A-F][0-9A-F]*\\]"
    "##FILTERED##Journal Pool Shm Id             .......... [0x........]"),
  .edit (.gsub "Receive Pool Sem Id                          *[0-9][0-9]* \\[0x[0-9A-F][0-9A-F]*\\]"
    "##FILTERED##Receive Pool Sem Id             .......... [0x........]"),
  .edit (.gsub "Receive Pool Shm Id                          *[0-9][0-9]* \\[0x[0-9A-F][0-9A-F]*\\]"
    "##FILTERED##Receive Pool Shm Id             .......... [0x........]"),
  .when ["HDR Instance File Created Nodename",
      "HDR LMS Group Created Nodename",
      "HDR STRM [ 0-9][0-9]: Group Created Nodename",
      "HST #     [ 0-9][0-9] : LMS Group Created Nodename"]
    [ .gsub "\\.[a-z0-9\\.]*$" "",
      .gsub "name [ ]*" "name          ",
      .gsub "$" "##FILTERED##" ]]

/-- Replication commands and logs. -/
def replicationRules : List Rule := [
  replicationStr "Initiating START of source server for secondary instance",
  .replication "Initiating ACTIVATE operation on source server pid .[0-9][0-9]*."
    "Initiating ACTIVATE operation on source server pid [##PID##]",
  .replication "Initiating DEACTIVATE operation on source server pid .[0-9][0-9]*."
    "Initiating DEACTIVATE operation on source server pid [##PID##]",
  replicationStr "Received REPL_ROLLBACK_FIRST message. Secondary is out of sync",
  replicationStr "Not deleting jnlpool ipcs.",
  .replication "Initiating STATSLOG operation on source server pid .[0-9][0-9]*. "
    "Initiating STATSLOG operation on source server pid [##PID##] ",
  .replication "Initiating CHANGELOG operation on source server pid .[0-9][0-9]*. "
    "Initiating CHANGELOG operation on source server pid [##PID##] ",
  .replication "Initiating SHUTDOWN operation on source server pid .[0-9][0-9]*. "
    "Initiating SHUTDOWN operation on source server pid [##PID##] ",
  replicationStr "Initiating shut down",
  .replication "Initiating NEEDRESTART operation on source server pid .[0-9][0-9]*. "
    "Initiating NEEDRESTART operation on source server pid [##PID##] ",
  .replication "Initiating NEEDRESTART operation for secondary instance .[A-Z0-9][A-Z0-9]*."
    "Initiating NEEDRESTART operation for secondary instance [##INSTANCE##]",
  .replication "Initiating SHOWBACKLOG operation on source server pid .[0-9][0-9]*. "
    "Initiating SHOWBACKLOG operation on source server pid [##PID##] ",
  .replication "Initiating CHECKHEALTH operation on source server pid .[0-9][0-9]*. "
    "Initiating CHECKHEALTH operation on source server pid [##PID##] ",
  .replication "Initiating STOPSOURCEFILTER operation on source server pid .[0-9][0-9]*. "
    "Initiating STOPSOURCEFILTER operation on source server pid [##PID##] ",
  .replication "Initiating LOSTTNCOMPLETE operation on source server pid .[0-9][0-9]*. "
    "Initiating LOSTTNCOMPLETE operation on source server pid [##PID##] ",
  .replication "Initiating LOSTTNCOMPLETE operation on instance .[A-Z0-9][A-Z0-9]*."
    "Initiating LOSTTNCOMPLETE operation on instance [##INSTANCE##]",
  replicationStr "Forcing immediate shutdown",
  replicationStr "Source server startup failed. See source server log file",
  replicationStr "Journal pool shared memory removed",
  replicationStr "Journal pool semaphore removed",
  replicationStr "Receive pool shared memory removed",
  replicationStr "Receive pool semaphore removed",
  .replication "Waiting for upto .[0-9]*. seconds for the source server to shutdown"
    "Waiting for upto XXX seconds for the source server to shutdown",
  replicationStr "Shutting down with a backlog due to timeout",
  replicationStr "Shutting down with zero backlog",
  replicationStr "%YDB-E-"]

/-- Process ids. -/
def pidRules : List Rule := [
  .when ["SRCSRVEXISTS, Source server for secondary instance .* is already running with pid"]
    [ .gsub "pid [0-9][0-9]*" "pid ##FILTERED##" ],
  .edit (.gsub "PID [0-9][0-9]* Source server is alive"
    "PID ##FILTERED##[##PID##] Source server is alive"),
  .edit (.gsub "PID [0-9][0-9]* Receiver server is alive"
    "PID ##FILTERED##[##PID##] Receiver server is alive"),
  .edit (.gsub "PID [0-9][0-9]* Update process is alive"
    "PID ##FILTERED##[##PID##] Update process is alive")]

/-- File names that hold a time. -/
def fileRules : List Rule := [
  .edit (.gsub "START_[_0-9]*.out" "##FILTERED##START_##TIMESTAMP##.out"),
  .edit (.gsub "SRC_[_0-9]*.log" "##FILTERED##SRC_##TIMESTAMP##.log"),
  .edit (.gsub "RCVR_[_0-9]*.log" "##FILTERED##RCVR_##TIMESTAMP##.log"),
  .edit (.gsub "RCVR_[_0-9]*.log.updproc" "##FILTERED##RCVR_##TIMESTAMP##.log.updproc"),
  .edit (.gsub "SHUT_[_0-9]*.out" "##FILTERED##SHUT_##TIMESTAMP##.out"),
  .edit (.gsub "all logs related to timestamp [_0-9]*" "all logs related to ##FILTERED## ##TIMESTAMP##"),
  .edit (.gsub "passive_[_0-9]*.log" "##FILTERED##passive_##TIMESTAMP##.log"),
  .edit (.gsub "ACTIVATE_[_0-9]*.out" "##FILTERED##ACTIVATE_##TIMESTAMP##.out"),
  .edit (.gsub "backlog_[_0-9]*.out" "##FILTERED##backlog_##TIMESTAMP##.out")]

/-- Remote directories, and counters in file names. -/
def remoteRules : List Rule := [
  .when ["instance[0-9]"]
    [ .sub "Files Created in .*instance" "Files Created in ##FILTERED##_REMOTE_TEST_PATH_/instance",
      .sub "Starting Passive Source Server and Receiver Server in .*instance"
        "Starting Passive Source Server and Receiver Server in ##FILTERED##_REMOTE_TEST_PATH_/instance",
      .sub "Starting Primary Source Server in .*instance"
        "Starting Primary Source Server in ##FILTERED##_REMOTE_TEST_PATH_/instance",
      .sub "Shutting down Passive Source Server and Receiver Server in .*instance"
        "Shutting down Passive Source Server and Receiver Server in ##FILTERED##_REMOTE_TEST_PATH_/instance",
      .sub "Shutting down Primary Source Server Server in .*instance"
        "Shutting down Primary Source Server Server in ##FILTERED##_REMOTE_TEST_PATH_/instance",
      .sub "File .*instance[0-9]\\/mumps.repl is renamed to .*instance[0-9]\\/mumps.repl"
        "File ##FILTERED##_REMOTE_TEST_PATH_INSTANCE_/mumps.repl is renamed to ##FILTERED##_REMOTE_TEST_PATH_INSTANCE_/mumps.repl" ],
  .when ["Simulating crash on Instance INSTANCE[2-9]"]
    [ .sub " in .*" " in ##FILTERED##_REMOTE_TEST_PATH_" ],
  .edit (.sub "Lost transactions extract file .*\\/instance"
    "Lost transactions extract file ##FILTERED##_REMOTE_TEST_PATH_/instance"),
  .when ["ORLBKSTART"]
    [ .sub "corresponding to .*instance" "corresponding to ##FILTERED##_REMOTE_TEST_PATH_/instance" ],
  .when ["ORLBKCMPLT"]
    [ .sub "corresponding to .*instance" "corresponding to ##FILTERED##_REMOTE_TEST_PATH_/instance" ],
  .edit (.gsub "msr_execute_[0-9][0-9]*.out" "msr_execute_##FILTERED##NO.out"),
  .edit (.gsub "msr_execute_[0-9][0-9]*.csh" "msr_execute_##FILTERED##NO.csh"),
  .edit (.gsub "written into instancefile_[0-9][0-9]*.out"
    "written into instancefile_##FILTERED##NO.out")]

/-- The domain name, and debugging information. -/
def hostRules : List Rule := [
  .when ["REPLREQRUNDOWN.*Must be rundown on cluster node"]
    [ .gsub "\\.[a-z0-9\\.]*$" "",
      .gsub "$" ".##FILTERED##" ],
  .edit (.sub "GTM_TEST_DEBUGINFO.*" "##FILTERED##GTM_TEST_DEBUGINFO.*")]

/-- The journal file label. -/
def journalRules : List Rule := [
  .edit (.gsub "Journal file label      YDBJNL44" "Journal file label      ##FILTERED##"),
  .edit (.gsub "^ Journal Creation Time         [0-9][0-9][0-9][0-9]/[0-9][0-9]/[0-9][0-9] [0-9][0-9]:[0-9][0-9]:[0-9][0-9]"
    " Journal Creation Time         ..../../.. ..:..:.."),
  .edit (.gsub "^ Time of last update           [0-9][0-9][0-9][0-9]/[0-9][0-9]/[0-9][0-9] [0-9][0-9]:[0-9][0-9]:[0-9][0-9]"
    " Time of last update           ..../../.. ..:..:..")]

/-- The journal file header. -/
def jnlfileRules : List Rule := [
  .edit (.gsub "^ Journal file checksum seed          [ ]*[0-9]+ .0x[0-9A-F]+."
    " Journal file checksum seed           ##FILTERED##"),
  .edit (.gsub "^ Journal file encrypted                      ( TRUE|FALSE)$"
    " Journal file encrypted               ##FILTERED##"),
  .edit (.gsub "^ Journal file hash         *[0-9A-F]*"
    " Journal file hash                    ##FILTERED##")]

/-- The database file header. -/
def databaseRules : List Rule := [
  .edit (.gsub "Endian Format                [ ]*[BL][I][GT][TLE]*"
    "Endian Format      ##FILTERED####ENDIAN##"),
  .edit (.gsub "^  Database file encrypted             ( TRUE|FALSE)  Inst Freeze on Error         ( TRUE|FALSE)$"
    "  Database file encrypted      ##FILTERED##  Inst Freeze on Error         ##FILTERED##"),
  .edit (.gsub "^  Spanning Node Absent                ( TRUE|FALSE)  Maximum Key Size Assured     ( TRUE|FALSE)"
    "  Spanning Node Absent         ##FILTERED##  Maximum Key Size Assured  ##FILTERED##"),
  .edit (.gsub "^  Defer allocation                    ( TRUE|FALSE)"
    "  Defer allocation             ##FILTERED##"),
  .edit (.gsub "  Spin sleep time mask    0x[0-9A-F]*" "  Spin sleep time mask  ##FILTERED##")]

/-- Instance Freeze, and the quick rundown. -/
def frozenRules : List Rule := [
  .edit (.gsub "^.YDB-I-MUINSTFROZEN, ... ... .. ..:..:.. 20.."
    "##FILTERED##YDB-I-MUINSTFROZEN, ... ... .. ..:..:.. 20.."),
  .edit (.gsub "^.YDB-I-MUINSTUNFROZEN, ... ... .. ..:..:.. 20.."
    "##FILTERED##YDB-I-MUINSTUNFROZEN, ... ... .. ..:..:.. 20.."),
  .edit (.gsub "HDR Quick database rundown is active                 ....."
    "HDR Quick database rundown is active                 .....")]

/-! ## 2. The filter -/

/-- `priorver` after the BEGIN rule; an unset one is 0, as is one that looks so. -/
def priorPattern : Option Text → Text
  | none => "IMPOSSIBLEVERNAME\\y".toList
  | some priorver =>
      if looksZero priorver then "IMPOSSIBLEVERNAME\\y".toList
      else if priorver = [] then [] else priorver ++ "\\y".toList

def jpvPattern (nodename username : Text) : Text :=
  "[0-9][0-9]*[ ]*(".toList ++ nodename ++ "|".toList ++ nodename.map Char.toUpper ++ ").*(".toList ++
    username ++ "|".toList ++ username.map Char.toUpper ++ ")[ ]* ..../../.. ..:..:..".toList

/-- What the filter is called with. awk stops at an expression that it cannot read. -/
structure Environ where
  /-- `-v priorver=` -/
  priorver : Option Text
  /-- `-v mask_jnleod=`; empty without it -/
  mask_jnleod : Text
  /-- `ENVIRON["HOST:r:r:r"]` -/
  nodename : Text
  /-- `ENVIRON["USER"]` -/
  username : Text
  tst_image : Text
  gtm_test_keep_muinstfrozen : Text
  prior_readable : (ere (priorPattern priorver)).isSome = true
  jpv_readable : (ere (jpvPattern nodename username)).isSome = true

namespace Environ

def jpv (env : Environ) : Regex := (ere (jpvPattern env.nodename env.username)).get env.jpv_readable

def epochinterval (env : Environ) : Text :=
  if env.tst_image = "dbg".toList then " 30"
  else if env.tst_image = "pro".toList then "300" else []

end Environ

/-- What is left over from the lines before. -/
structure State where
  substatus : Nat
  jnl_flag1line : Nat
  deriving DecidableEq, Repr

def State.start : State := ⟨0, 0⟩

def renamed : Text :=
  "^.YDB-I-FILERENAME, File .*[\\/a-z0-9_]*\\..* is renamed to .*[\\/a-z0-9_]*\\..*_[0-9][0-9]*(_[0-9][0-9]*|[0-9])$"

/-- What the time of a renamed file may come after. -/
def stamps : List (Text × Text) := [
  ("mjl_[0-9][0-9_]*(_[0-9][0-9]*|[0-9]*)", "mjl_##TIMESTAMP##"),
  ("mjf_[0-9][0-9_]*(_[0-9][0-9]*|[0-9]*)", "mjf_##TIMESTAMP##"),
  ("repl_[0-9][0-9_]*(_[0-9][0-9]*|[0-9]*)", "repl_##TIMESTAMP##"),
  ("lost_[0-9][0-9_]*(_[0-9][0-9]*|[0-9]*)", "lost_##TIMESTAMP##"),
  ("broken_[0-9][0-9_]*(_[0-9][0-9]*|[0-9]*)", "broken_##TIMESTAMP##")]

/-- `substatus += gsub(pattern,new)` for each of the stamps. -/
def maskStamps (substatus : Nat) (text : Text) : Nat × Text :=
  stamps.foldl (fun p stamp => (p.1 + gsubStatus stamp.1 p.2, gsubText stamp.1 stamp.2 p.2))
    (substatus, text)

def filerename (s : State) (text : Text) : State × Text :=
  if matchesPattern renamed text then
    let p := maskStamps s.substatus text
    ({ s with substatus := p.1 }, if p.1 = 0 then p.2 else filtered ++ p.2)
  else (s, text)

/-- The rules from the one for MUPIP EXTRACT to the one for debugging information. -/
def maskLine (env : Environ) (text : Text) : Text :=
  let text := applyRules (extractRules ++ instanceRules ++ replicationRules ++ pidRules ++ fileRules ++
    remoteRules) text
  let text :=
    if priorPattern env.priorver = [] then text
    else gsubText (priorPattern env.priorver) "##FILTERED##PRIORVER##" text
  applyRules hostRules text

/-- The lines of the process table. -/
def jpvTable (env : Environ) (s : State) (text : Text) : State × Text :=
  let p : State × Text :=
    if s.jnl_flag1line = 2 then
      let status := gsubCount env.jpv text
      (⟨status, if status = 0 then 0 else 2⟩,
        gsub env.jpv "##FILTERED## ##PID## ##NODENAME## ##USER## ..../../.. ..:..:.." text)
    else (s, text)
  let s := p.1
  let text := p.2
  let s :=
    if s.jnl_flag1line = 1 ∧ matchesPattern (List.replicate 65 '-') text = true then
      { s with jnl_flag1line := s.jnl_flag1line + 1 }
    else s
  let s :=
    if matchesPattern "PID        NODE             USER         TERM JPV_TIME" text then
      { s with jnl_flag1line := s.jnl_flag1line + 1 }
    else s
  (s, text)

def maskJournal (env : Environ) (text : Text) : Text :=
  let text := applyRules journalRules text
  let text :=
    if truth env.mask_jnleod then
      gsubText "^ End of Data[ ]*[0-9]+ .0x[0-9A-F]+."
        " End of Data                             ##FILTERED##" text
    else text
  let text := applyRules jnlfileRules text
  gsubText ("^ Epoch Interval                                ".toList ++ env.epochinterval)
    " Epoch Interval                       ##FILTERED##" text

/-- `substatus = gsub(pattern,new); if (substatus) $0="##FILTERED##"$0` if the line matches `lines`. -/
def markStatus (lines pattern new : Text) (s : State) (text : Text) : State × Text :=
  if matchesPattern lines text then
    ({ s with substatus := gsubStatus pattern text }, marked pattern new text)
  else (s, text)

def endiancvt : State → Text → State × Text :=
  markStatus "database file [a-zA-Z0-9_\\.]* from [A-Z]* endian to [A-Z]* endian on a [A-Z]* endian system"
    "from [A-Z]* endian to [A-Z]* endian on a [A-Z]* endian system"
    "from ##ENDIAN## endian to ##ENDIAN## endian on a ##ENDIAN## endian system"

def dbendian : State → Text → State × Text :=
  markStatus "YDB-E-DBENDIAN, Database file .* is [A-Z]* endian on a [A-Z]* endian system"
    "is [A-Z]* endian on a [A-Z]* endian system" "is ##ENDIAN## endian on a ##ENDIAN## endian system"

/-- The lines of a frozen instance that are left out. -/
def skipsFrozen (env : Environ) (text : Text) : Bool :=
  (matchesPattern "^.YDB-I-MUINSTFROZEN,...." text ||
    matchesPattern "^.YDB-I-MUINSTUNFROZEN,....." text) && !truth env.gtm_test_keep_muinstfrozen

/-- The rules from the one for ENDIANCVT to the end. -/
def finish (env : Environ) (s : State) (text : Text) : State × Option Text :=
  let p := endiancvt s text
  let p := dbendian p.1 p.2
  let text := applyRules databaseRules p.2
  (p.1, if skipsFrozen env text then none else some (applyRules frozenRules text))

/-- The lines that are passed over. -/
def isSkipped (line : Text) : Bool := matchesPattern "CEE5213S The signal SIGPIPE was received." line

/-- What is done with a line: what is left over, and what is printed, if anything. -/
def filter (env : Environ) (s : State) (line : Text) : State × Option Text :=
  if isSkipped line then (s, none)
  else
    let p := filerename s line
    let p := jpvTable env p.1 (maskLine env p.2)
    finish env p.1 (maskJournal env p.2)

/-- What is printed for the lines of a log. -/
def outputs (env : Environ) : State → List Text → List (Option Text)
  | _, [] => []
  | s, line :: log => (filter env s line).2 :: outputs env (filter env s line).1 log

/-- What is left over after some lines. -/
def stateAfter (env : Environ) (s : State) (log : List Text) : State :=
  log.foldl (fun s line => (filter env s line).1) s

/-! ## 3. What is left over -/

/-- A line for a renamed file that has no time to mask, and is not passed over. -/
def Unstamped (line : Text) : Prop :=
  isSkipped line = false ∧ matchesPattern renamed line = true ∧ (maskStamps 0 line).1 = 0

/-- The line when the process table is looked for in it. -/
def atTable (env : Environ) (s : State) (line : Text) : Text := maskLine env (filerename s line).2

/-- A line of the process table. -/
def JpvLine (env : Environ) (s : State) (line : Text) : Prop := gsubCount env.jpv (atTable env s line) ≠ 0

section Runs

variable {env : Environ} {a b : State} {line : Text}

theorem maskStamps_add (substatus : Nat) (text : Text) :
    maskStamps substatus text = (substatus + (maskStamps 0 text).1, (maskStamps 0 text).2) := by
  have hfold : ∀ (stamps : List (Text × Text)) (m n : Nat) (text : Text),
      let f := fun (p : Nat × Text) (stamp : Text × Text) =>
        (p.1 + gsubStatus stamp.1 p.2, gsubText stamp.1 stamp.2 p.2)
      stamps.foldl f (m + n, text) = (m + (stamps.foldl f (n, text)).1, (stamps.foldl f (n, text)).2) := by
    intro stamps
    induction stamps with
    | nil => exact fun m n text => rfl
    | cons stamp stamps ih =>
        intro m n text
        have hstep := ih m (n + gsubStatus stamp.1 text) (gsubText stamp.1 stamp.2 text)
        rw [← Nat.add_assoc] at hstep
        exact hstep
  exact hfold stamps substatus 0 text

/-- **The text of a renamed file** depends on what is left over only if it has no time to mask. -/
theorem filerename_congr (hskipped : isSkipped line = false)
    (hstamp : Unstamped line → (a.substatus = 0 ↔ b.substatus = 0)) :
    (filerename a line).2 = (filerename b line).2 := by
  unfold filerename
  split
  · rename_i hrenamed
    dsimp only
    rw [maskStamps_add a.substatus, maskStamps_add b.substatus]
    dsimp only
    by_cases hzero : (maskStamps 0 line).1 = 0
    · have hsame := hstamp ⟨hskipped, hrenamed, hzero⟩
      rw [hzero, Nat.add_zero, Nat.add_zero]
      by_cases ha : a.substatus = 0
      · rw [if_pos ha, if_pos (hsame.1 ha)]
      · rw [if_neg ha, if_neg fun hb => ha (hsame.2 hb)]
    · rw [if_neg (by omega), if_neg (by omega)]
  · rfl

theorem filerename_flag (s : State) (line : Text) :
    (filerename s line).1.jnl_flag1line = s.jnl_flag1line := by
  by_cases hrenamed : matchesPattern renamed line = true
  · obtain ⟨n, text, hyes⟩ : ∃ n text, filerename s line = ({ s with substatus := n }, text) :=
      ⟨_, _, if_pos hrenamed⟩
    rw [hyes]
  · have hno : filerename s line = (s, line) := if_neg hrenamed
    rw [hno]

/-- The text after the process table was looked for. -/
theorem jpvTable_text (env : Environ) (s : State) (text : Text) : (jpvTable env s text).2 =
    if s.jnl_flag1line = 2 then
      gsub env.jpv "##FILTERED## ##PID## ##NODENAME## ##USER## ..../../.. ..:..:.." text
    else text := by
  unfold jpvTable
  dsimp only
  split
  · rfl
  · rfl

/-- Where the table matters to no line of it, it matters to none. -/
theorem jpvTable_congr {text : Text}
    (htable : gsubCount env.jpv text ≠ 0 → (a.jnl_flag1line = 2 ↔ b.jnl_flag1line = 2)) :
    (jpvTable env a text).2 = (jpvTable env b text).2 := by
  rw [jpvTable_text, jpvTable_text]
  by_cases hcount : gsubCount env.jpv text = 0
  · rw [gsub_of_count hcount, ite_self, ite_self]
  · have hsame := htable hcount
    by_cases ha : a.jnl_flag1line = 2
    · rw [if_pos ha, if_pos (hsame.1 ha)]
    · rw [if_neg ha, if_neg fun hb => ha (hsame.2 hb)]

theorem markStatus_text (lines pattern new : Text) (s : State) (text : Text) :
    (markStatus lines pattern new s text).2 = (markStatus lines pattern new .start text).2 := by
  unfold markStatus
  split
  · rfl
  · rfl

/-- The text printed for a line, from the text after the process table was looked for. -/
def printed (env : Environ) (text : Text) : Option Text := (finish env .start (maskJournal env text)).2

theorem finish_text (env : Environ) (s : State) (text : Text) :
    (finish env s text).2 = (finish env .start text).2 := by
  have hmarked : ∀ lines pattern new (s t : State) (text : Text),
      (markStatus lines pattern new s text).2 = (markStatus lines pattern new t text).2 := by
    intro lines pattern new s t text
    rw [markStatus_text, markStatus_text _ _ _ t]
  have hendian : (dbendian (endiancvt s text).1 (endiancvt s text).2).2 =
      (dbendian (endiancvt .start text).1 (endiancvt .start text).2).2 := by
    unfold endiancvt
    rw [hmarked _ _ _ s .start]
    exact hmarked _ _ _ _ _ _
  unfold finish
  dsimp only
  rw [hendian]

theorem filter_text (env : Environ) (s : State) (line : Text) : (filter env s line).2 =
    if isSkipped line then none
    else printed env (jpvTable env (filerename s line).1 (atTable env s line)).2 := by
  by_cases hsigpipe : isSkipped line = true
  · have hnone : filter env s line = (s, none) := if_pos hsigpipe
    rw [hnone, if_pos hsigpipe]
  · obtain ⟨q, hq⟩ : ∃ q, jpvTable env (filerename s line).1 (atTable env s line) = q := ⟨_, rfl⟩
    have hfilter : filter env s line = finish env q.1 (maskJournal env q.2) := by
      rw [← hq]
      exact if_neg hsigpipe
    rw [hfilter, if_neg hsigpipe, hq, finish_text, printed]

/-- **What is printed for a line** depends on what is left over only for these two kinds of lines. -/
theorem filter_congr (hstamp : Unstamped line → (a.substatus = 0 ↔ b.substatus = 0))
    (htable : JpvLine env a line → (a.jnl_flag1line = 2 ↔ b.jnl_flag1line = 2)) :
    (filter env a line).2 = (filter env b line).2 := by
  by_cases hsigpipe : isSkipped line = true
  · rw [filter_text, filter_text, if_pos hsigpipe, if_pos hsigpipe]
  have htext : atTable env a line = atTable env b line := by
    unfold atTable
    rw [filerename_congr (Bool.eq_false_iff.2 hsigpipe) hstamp]
  have hjpv : (jpvTable env (filerename a line).1 (atTable env a line)).2 =
      (jpvTable env (filerename b line).1 (atTable env b line)).2 := by
    rw [htext]
    refine jpvTable_congr fun hcount => ?_
    rw [filerename_flag, filerename_flag]
    refine htable ?_
    unfold JpvLine
    rwa [htext]
  rw [filter_text, filter_text, hjpv]

end Runs

theorem outputs_getElem (env : Environ) : ∀ {log : List Text} {i : Nat} {line : Text} (s : State),
    log[i]? = some line → (outputs env s log)[i]? = some (filter env (stateAfter env s (log.take i)) line).2
  | l :: log, 0, line, s, h => by
      obtain rfl : l = line := Option.some.inj h
      rw [outputs, List.getElem?_cons_zero, List.take_zero, stateAfter, List.foldl_nil]
  | l :: log, i + 1, line, s, h => outputs_getElem env (filter env s l).1 h

/-- **A line is printed the same in two logs** with the same process table for it, unless it is for a
    renamed file without a time to mask, and a replacement is left over in one of them only. -/
theorem outputs_eq (env : Environ) (log log' : List Text) (i j : Nat) (line : Text)
    (hi : log[i]? = some line) (hj : log'[j]? = some line)
    (htable : JpvLine env (stateAfter env .start (log.take i)) line →
      ((stateAfter env .start (log.take i)).jnl_flag1line = 2 ↔
        (stateAfter env .start (log'.take j)).jnl_flag1line = 2))
    (hstamp : Unstamped line → ((stateAfter env .start (log.take i)).substatus = 0 ↔
      (stateAfter env .start (log'.take j)).substatus = 0)) :
    (outputs env .start log)[i]? = (outputs env .start log')[j]? := by
  rw [outputs_getElem env .start hi, outputs_getElem env .start hj, filter_congr hstamp htable]

/-! ## 4. Two logs -/

/-- An environment without options. -/
def plain : Environ where
  priorver := none
  mask_jnleod := []
  nodename := ['h']
  username := ['u']
  tst_image := []
  gtm_test_keep_muinstfrozen := []
  prior_readable := by decide +kernel
  jpv_readable := by decide +kernel

def datRenamed : Text := "%YDB-I-FILERENAME, File a.dat is renamed to a.dat_20"

def mjlRenamed : Text := "%YDB-I-FILERENAME, File a.mjl is renamed to a.mjl_20"

def mjlMasked : Text := "##FILTERED##%YDB-I-FILERENAME, File a.mjl is renamed to a.mjl_##TIMESTAMP##"

def sigpipe : Text := "CEE5213S The signal SIGPIPE was received."

/-- The three texts that only the first rule has to do with. -/
def quiet : List Text := [datRenamed, filtered ++ datRenamed, mjlMasked]

/-- The rules for the line alone leave them as they are. -/
theorem maskLine_quiet {text : Text} (h : text ∈ quiet) : maskLine plain text = text := by
  have hextract : ∀ text ∈ quiet, applyRules (extractRules ++ instanceRules) text = text := by
    unfold quiet applyRules extractRules instanceRules filtered datRenamed mjlMasked
    repeat rw [String.toList_ofList]
    decide +kernel
  have hreplication : ∀ text ∈ quiet, applyRules replicationRules text = text := by
    unfold quiet applyRules replicationRules replicationStr replicationtimeexpr replicationtimerepl filtered
      datRenamed mjlMasked
    repeat rw [String.toList_ofList]
    decide +kernel
  have hfile : ∀ text ∈ quiet, applyRules (pidRules ++ fileRules) text = text := by
    unfold quiet applyRules pidRules fileRules filtered datRenamed mjlMasked
    repeat rw [String.toList_ofList]
    decide +kernel
  have hremote : ∀ text ∈ quiet, applyRules remoteRules text = text := by
    unfold quiet applyRules remoteRules filtered datRenamed mjlMasked
    repeat rw [String.toList_ofList]
    decide +kernel
  have hhost : ∀ text ∈ quiet,
      gsubText (priorPattern plain.priorver) "##FILTERED##PRIORVER##" text = text ∧
        applyRules hostRules text = text := by
    unfold quiet applyRules hostRules plain priorPattern filtered datRenamed mjlMasked
    repeat rw [String.toList_ofList]
    decide +kernel
  have hrules : applyRules (extractRules ++ instanceRules ++ replicationRules ++ pidRules ++ fileRules ++
      remoteRules) text = text := by
    have hsplit : extractRules ++ instanceRules ++ replicationRules ++ pidRules ++ fileRules ++ remoteRules =
        (extractRules ++ instanceRules) ++ (replicationRules ++ ((pidRules ++ fileRules) ++ remoteRules)) := by
      simp only [List.append_assoc]
    rw [hsplit, applyRules_append, hextract text h, applyRules_append, hreplication text h,
      applyRules_append, hfile text h, hremote text h]
  unfold maskLine
  dsimp only
  rw [hrules, (hhost text h).1, ite_self, (hhost text h).2]

theorem jpvTable_quiet {text : Text} (h : text ∈ quiet) (n : Nat) :
    jpvTable plain ⟨n, 0⟩ text = (⟨n, 0⟩, text) := by
  have hheader : ∀ text ∈ quiet,
      matchesPattern "PID        NODE             USER         TERM JPV_TIME" text = false := by
    unfold quiet filtered datRenamed mjlMasked
    repeat rw [String.toList_ofList]
    decide +kernel
  unfold jpvTable
  rw [if_neg (show ¬ (0 : Nat) = 2 by omega)]
  dsimp only
  rw [hheader text h, if_neg Bool.false_ne_true, if_neg fun h1 => Nat.zero_ne_one h1.1]

theorem filerename_quiet : filerename ⟨1, 0⟩ datRenamed = (⟨1, 0⟩, filtered ++ datRenamed) ∧
    filerename .start datRenamed = (.start, datRenamed) ∧ filerename .start mjlRenamed = (⟨1, 0⟩, mjlMasked) := by
  unfold filerename maskStamps stamps renamed filtered datRenamed mjlRenamed mjlMasked
  repeat rw [String.toList_ofList]
  decide +kernel

/-- **What the filter does** with a line that the first rule makes one of the three. -/
theorem filter_quiet {s : State} {line text : Text} {n : Nat} (htext : text ∈ quiet) (hn : n ∈ [0, 1])
    (hsigpipe : isSkipped line = false)
    (hfirst : filerename s line = (⟨n, 0⟩, text)) : filter plain s line = (⟨n, 0⟩, some text) := by
  have hjournal : ∀ text ∈ quiet, maskJournal plain text = text := by
    unfold quiet maskJournal applyRules journalRules jnlfileRules plain Environ.epochinterval truth filtered
      datRenamed mjlMasked replicationtimeexpr replicationtimerepl
    repeat rw [String.toList_ofList]
    decide +kernel
  have hfinish : ∀ text ∈ quiet, ∀ n ∈ [0, 1], finish plain ⟨n, 0⟩ text = (⟨n, 0⟩, some text) := by
    unfold quiet finish applyRules endiancvt dbendian markStatus marked databaseRules skipsFrozen frozenRules
      plain truth filtered datRenamed mjlMasked replicationtimeexpr replicationtimerepl
    repeat rw [String.toList_ofList]
    decide +kernel
  unfold filter
  rw [hsigpipe, hfirst]
  dsimp only
  rw [maskLine_quiet htext, jpvTable_quiet htext]
  dsimp only
  rw [hjournal text htext, hfinish text htext n hn]
  rfl

/-- A line that is skipped leaves nothing over: what is left over is 0 for this line in both logs. -/
theorem outputs_eq_sigpipe : (outputs plain .start [datRenamed])[0]? =
    (outputs plain .start [sigpipe, datRenamed])[1]? := by
  have hskipped : isSkipped sigpipe = true := by
    unfold isSkipped sigpipe
    rw [String.toList_ofList]
    decide +kernel
  have hafter : stateAfter plain .start ([sigpipe, datRenamed].take 1) = .start := by
    have hfilter : filter plain .start sigpipe = (.start, none) := if_pos hskipped
    rw [List.take_succ_cons, List.take_zero, stateAfter, List.foldl_cons, List.foldl_nil, hfilter]
  refine outputs_eq plain [datRenamed] [sigpipe, datRenamed] 0 1 datRenamed rfl rfl (fun _ => ?_) fun _ => ?_
  · rw [hafter]
    exact Iff.rfl
  · rw [hafter]
    exact Iff.rfl

/-- **A replacement that is left over marks a later line**, though no line of a process table is read. -/
theorem status_left_over :
    (stateAfter plain .start ([datRenamed].take 0)).jnl_flag1line =
      (stateAfter plain .start ([mjlRenamed, datRenamed].take 1)).jnl_flag1line ∧
    (outputs plain .start [datRenamed])[0]? = some (some datRenamed) ∧
    (outputs plain .start [mjlRenamed, datRenamed])[1]? = some (some (filtered ++ datRenamed)) ∧
    (outputs plain .start [datRenamed])[0]? ≠ (outputs plain .start [mjlRenamed, datRenamed])[1]? := by
  have hsigpipe : isSkipped datRenamed = false ∧ isSkipped mjlRenamed = false := by
    unfold isSkipped datRenamed mjlRenamed
    repeat rw [String.toList_ofList]
    decide +kernel
  obtain ⟨hleft, hdat, hmjl⟩ := filerename_quiet
  have hfirst : filter plain .start mjlRenamed = (⟨1, 0⟩, some mjlMasked) :=
    filter_quiet (by simp [quiet]) (by simp) hsigpipe.2 hmjl
  have halone : filter plain .start datRenamed = (⟨0, 0⟩, some datRenamed) :=
    filter_quiet (by simp [quiet]) (by simp) hsigpipe.1 hdat
  have hlater : filter plain ⟨1, 0⟩ datRenamed = (⟨1, 0⟩, some (filtered ++ datRenamed)) :=
    filter_quiet (by simp [quiet]) (by simp) hsigpipe.1 hleft
  have hone : (outputs plain .start [datRenamed])[0]? = some (some datRenamed) := by
    rw [outputs, halone]
    rfl
  have htwo : (outputs plain .start [mjlRenamed, datRenamed])[1]? = some (some (filtered ++ datRenamed)) := by
    rw [outputs, hfirst, outputs, hlater]
    rfl
  refine ⟨?_, hone, htwo, fun heq => ?_⟩
  · rw [List.take_zero, List.take_succ_cons, List.take_zero, stateAfter, List.foldl_nil, stateAfter,
      List.foldl_cons, List.foldl_nil, hfirst]
    rfl
  · rw [hone, htwo] at heq
    have hlen := congrArg List.length (Option.some.inj (Option.some.inj heq))
    unfold filtered at hlen
    rw [String.toList_ofList, List.length_append] at hlen
    simp at hlen

end YottaTest.Outstream
