/-
  File:      YottaTest/Barrage/Analyzer.lean
  Subject:   The analyzer of barrage.m: what it holds of directories and processes, and how a
             logged action changes it.

  The analyzer replays the log of a test in which processes compile, link, zrupdate and execute
  routines, and predicts which version each execution must run. Its arrays are modelled field by
  field, every node an `Option`, so that a read of an undefined node is visible:

  * `SrcNode`, `ObjNode`, `Rtn`, `Proc`, `State` -- SRCDIRS, OBJDIRS, PROCS, RCTLSHM,
    PROCSRTNREFS and the parent's local array `zroutines`;
  * `simulateSetZroutines`, `simulateZrupdate`, `simulateObjectSharing`, `simulateLink`,
    `simulateExec` -- the simulate functions, in `Except Fault`: a fault is an undefined read or
    a failed assert;
  * `replayAction` -- the dispatch of `replayAnalyzeParent`, one case per action.

  What the simulate functions print (results and expected errors are only compared and reported)
  is left out. `State.events` is a ghost: it records what happened, and no code reads it.
-/
import YottaTest.Lib.Table

namespace YottaTest.Barrage

open YottaTest.Lib

/-! ## 1. The arrays -/

/-- How the analyzer can trip: it reads a node that does not exist, or an assert fails. -/
inductive Fault where
  | undefined
  | assert
  deriving DecidableEq, Repr

/-- A read of a node that must exist. -/
def defined {α : Type} : Option α → Except Fault α
  | some a => .ok a
  | none => .error .undefined

theorem bind_eq_ok {ε α β : Type} {x : Except ε α} {f : α → Except ε β} {b : β} :
    (x >>= f) = .ok b ↔ ∃ a, x = .ok a ∧ f a = .ok b := by
  cases x with
  | error e => simp [bind, Except.bind]
  | ok a => simp [bind, Except.bind]

/-- `do assert(condition)`. -/
def assert (p : Prop) [Decidable p] : Except Fault Unit :=
  if p then .ok () else .error .assert

/-- `SRCDIRS(dir,name)`: the node's own value, and `"ver"` and `"time"` below it. -/
structure SrcNode where
  data : Bool
  ver : Option Nat
  time : Option Nat

/-- `$data(SRCDIRS(dir,name))`: a value or a descendant. -/
def SrcNode.exists (n : SrcNode) : Bool := n.data || n.ver.isSome || n.time.isSome

/-- `OBJDIRS(dir,name)`: the node's own value (an object file is there), and `"ver"`, `"time"`,
    `"srcDir"`, `"cycle"` below it. -/
structure ObjNode (Dir : Type) where
  data : Bool
  ver : Option Nat
  time : Option Nat
  srcDir : Option Dir
  cycle : Option Nat

/-- One object directory of a `$zroutines` array: `(i)`, `(i,"*")`, `(i,0)`, `(i,j)`. -/
structure ZroEntry (Dir : Type) where
  dir : Option Dir
  starred : Option Bool
  count : Option Nat
  src : Nat → Option Dir

/-- A `$zroutines` array: `(0)` and the entries by their index. -/
structure Zro (Dir : Type) where
  count : Option Nat
  entry : Nat → ZroEntry Dir

/-- `PROCS(pid,"rtns",name)`: `"*"`, `"dir"`, `"ver"` and `(dir,"cycle")`. -/
structure Rtn (Dir : Type) where
  starred : Option Bool
  dir : Option Dir
  ver : Option Nat
  cycle : Dir → Option Nat

/-- `PROCS(pid)`: `"zro"`, `"dirs"` and `"rtns"`. -/
structure Proc (Dir Name : Type) where
  zro : Zro Dir
  dirs : Dir → Bool
  rtns : Table Name (Rtn Dir)

/-- A variant of a routine in shared memory: its version, object directory and source
    directory. -/
structure Variant (Dir : Type) where
  ver : Nat
  dir : Dir
  srcDir : Dir
  deriving DecidableEq

/-- Why a cycle was bumped: an explicit zrupdate of the routine, a wildcard zrupdate while the
    routine's object existed, or a load of a new variant into shared memory. -/
inductive Cause where
  | zrupdate
  | wildcard
  | load
  deriving DecidableEq, Repr

/-- The ghost's record of a run. -/
inductive Event (Pid Dir Name : Type) where
  /-- `pid` begins to link `name`. -/
  | link (pid : Pid) (name : Name)
  /-- `pid` bumps the cycle of `name` in `dir`. -/
  | bump (pid : Pid) (dir : Dir) (name : Name) (cause : Cause)

/-- One object directory of a logged `$zroutines`, with its source directories. -/
structure LogZro (Dir : Type) where
  dir : Dir
  starred : Bool
  srcs : List Dir

structure State (Pid Dir Name : Type) where
  srcdirs : Dir → Name → SrcNode
  objdirs : Dir → Table Name (ObjNode Dir)
  procs : Pid → Proc Dir Name
  rctlshm : List (Name × Variant Dir × Pid)
  procsrtnrefs : Pid → Name → Option (Variant Dir)
  /-- The parent's local array, merged into at every `$zroutines` action and never killed. -/
  zroutines : Zro Dir
  /-- Ghost: the links and bumps so far, oldest first. -/
  events : List (Event Pid Dir Name)
  /-- Ghost: the last `$zroutines` each process logged. -/
  lastZro : Pid → Option (List (LogZro Dir))

def SrcNode.empty : SrcNode := ⟨false, none, none⟩

def ObjNode.empty {Dir : Type} : ObjNode Dir := ⟨false, none, none, none, none⟩

def ZroEntry.empty {Dir : Type} : ZroEntry Dir := ⟨none, none, none, fun _ => none⟩

def Zro.empty {Dir : Type} : Zro Dir := ⟨none, fun _ => ZroEntry.empty⟩

def State.init {Pid Dir Name : Type} : State Pid Dir Name where
  srcdirs := fun _ _ => SrcNode.empty
  objdirs := fun _ => Table.empty
  procs := fun _ => ⟨Zro.empty, fun _ => false, Table.empty⟩
  rctlshm := []
  procsrtnrefs := fun _ _ => none
  zroutines := Zro.empty
  events := []
  lastZro := fun _ => none

variable {Pid Dir Name : Type} [DecidableEq Pid] [DecidableEq Dir] [DecidableEq Name]

namespace State

def setSrc (s : State Pid Dir Name) (dir : Dir) (name : Name) (n : SrcNode) :
    State Pid Dir Name :=
  { s with srcdirs := fun d r => if d = dir ∧ r = name then n else s.srcdirs d r }

/-- The nodes under `OBJDIRS(dir,name)`. -/
def obj (s : State Pid Dir Name) (dir : Dir) (name : Name) : ObjNode Dir :=
  ((s.objdirs dir).get name).getD ObjNode.empty

def setObj (s : State Pid Dir Name) (dir : Dir) (name : Name) (n : ObjNode Dir) :
    State Pid Dir Name :=
  { s with objdirs := fun d => if d = dir then (s.objdirs d).set name n else s.objdirs d }

def setProc (s : State Pid Dir Name) (pid : Pid) (p : Proc Dir Name) : State Pid Dir Name :=
  { s with procs := fun q => if q = pid then p else s.procs q }

def record (s : State Pid Dir Name) (e : Event Pid Dir Name) : State Pid Dir Name :=
  { s with events := s.events ++ [e] }

end State

/-! ## 2. Setting $zroutines -/

/-- The nodes of one logged object directory, its source directories from index 1 on. -/
def ZroEntry.ofLog (z : LogZro Dir) : ZroEntry Dir where
  dir := some z.dir
  starred := some z.starred
  count := some z.srcs.length
  src := fun j => match j with
    | 0 => none
    | j + 1 => z.srcs[j]?

/-- The nodes `^LOG(time,pid,"zro")` of a logged `$zroutines`, from index 1 on. -/
def Zro.ofLog (log : List (LogZro Dir)) : Zro Dir where
  count := some log.length
  entry := fun i => match i with
    | 0 => ZroEntry.empty
    | i + 1 => (log[i]?.map ZroEntry.ofLog).getD ZroEntry.empty

/-- M's `merge`: a node of the source replaces the target's, other nodes of the target stay. -/
def ZroEntry.merge (target source : ZroEntry Dir) : ZroEntry Dir where
  dir := source.dir.or target.dir
  starred := source.starred.or target.starred
  count := source.count.or target.count
  src := fun j => (source.src j).or (target.src j)

def Zro.merge (target source : Zro Dir) : Zro Dir where
  count := source.count.or target.count
  entry := fun i => (target.entry i).merge (source.entry i)

/-- `for i=1:1:newZroutines(0) set:(newZroutines(i,"*")) PROCS(pid,"dirs",newZroutines(i))=1`,
    from index `i` on, `n` entries. -/
def knowStarredDirs (z : Zro Dir) : Nat → Nat → (Dir → Bool) → Except Fault (Dir → Bool)
  | 0, _, dirs => .ok dirs
  | n + 1, i, dirs => do
      let starred ← defined (z.entry i).starred
      let dirs ← if starred then do
          let dir ← defined (z.entry i).dir
          pure fun d => if d = dir then true else dirs d
        else pure dirs
      knowStarredDirs z n (i + 1) dirs

/-- Every routine linked in autorelink-enabled fashion is forgotten, and the starred directories
    of the new `$zroutines` are known. -/
def simulateSetZroutines (s : State Pid Dir Name) (pid : Pid) (newZroutines : Zro Dir) :
    Except Fault (State Pid Dir Name) := do
  let p := s.procs pid
  -- the kill's postcondition reads "*" of every routine
  if p.rtns.entries.all fun e => e.2.starred.isSome then
    let rtns := p.rtns.filter fun _ r => r.starred ≠ some true
    let n ← defined newZroutines.count
    let dirs ← knowStarredDirs newZroutines n 1 p.dirs
    .ok (s.setProc pid { p with rtns := rtns, dirs := dirs })
  else .error .undefined

/-- The ACTSETZROUTINES case: merge the log into the parent's array, simulate, and merge the
    parent's array into the process's. -/
def setZroutines (s : State Pid Dir Name) (pid : Pid) (log : List (LogZro Dir)) :
    Except Fault (State Pid Dir Name) := do
  let s := { s with zroutines := s.zroutines.merge (Zro.ofLog log) }
  let s ← simulateSetZroutines s pid s.zroutines
  let p := s.procs pid
  let s := s.setProc pid { p with zro := p.zro.merge s.zroutines }
  .ok { s with lastZro := fun q => if q = pid then some log else s.lastZro q }

/-! ## 3. Cycles and shared memory -/

/-- What a zrupdate names. -/
inductive Target (Name : Type) where
  | wildcard
  | routine (name : Name)

/-- `set OBJDIRS(dir,name,"cycle")=$get(OBJDIRS(dir,name,"cycle"),0)+1`. -/
def ObjNode.bump (n : ObjNode Dir) : ObjNode Dir :=
  { n with cycle := some (n.cycle.getD 0 + 1) }

/-- The node `PROCS(pid,"dirs",dir)` is set. -/
def State.knowDir (s : State Pid Dir Name) (pid : Pid) (dir : Dir) : State Pid Dir Name :=
  s.setProc pid
    { s.procs pid with dirs := fun d => if d = dir then true else (s.procs pid).dirs d }

/-- The routines of `OBJDIRS(dir)` whose object exists: what the loop over
    `$order(OBJDIRS(dir,rtnName))` lets through `$data(OBJDIRS(dir,rtnName))#10`. -/
def State.held (s : State Pid Dir Name) (dir : Dir) : List Name :=
  ((s.objdirs dir).filter fun _ n => n.data).entries.map Prod.fst

/-- A zrupdate that succeeds: the cycle of the routine, or of every routine whose object the
    directory holds, goes up by one. `cause` is for the ghost only. -/
def simulateZrupdate (s : State Pid Dir Name) (pid : Pid) (dir : Dir) (cause : Cause) :
    Target Name → State Pid Dir Name
  | .wildcard =>
      let found := s.held dir
      let s' : State Pid Dir Name :=
        { s with
          objdirs := fun d =>
            if d = dir then (s.objdirs d).map fun _ n => if n.data then n.bump else n
            else s.objdirs d
          events := s.events ++ found.map fun r => .bump pid dir r cause }
      if found = [] then s' else s'.knowDir pid dir
  | .routine name =>
      ((s.setObj dir name (s.obj dir name).bump).record (.bump pid dir name cause)).knowDir
        pid dir

/-- A process's reference to a variant of a routine is removed, also from shared memory. -/
def clearRoutineSharedRefs (s : State Pid Dir Name) (pid : Pid) (name : Name) :
    State Pid Dir Name :=
  { s with
    -- the kill names an entry only when the process holds a reference
    rctlshm :=
      match s.procsrtnrefs pid name with
      | none => s.rctlshm
      | some v => s.rctlshm.filter fun e => e ≠ (name, v, pid)
    procsrtnrefs := fun q r => if q = pid ∧ r = name then none else s.procsrtnrefs q r }

/-- `$data(RCTLSHM(name,ver,dir,srcDir))`: some process references the variant. -/
def State.shared (s : State Pid Dir Name) (name : Name) (v : Variant Dir) : Bool :=
  s.rctlshm.any fun e => e.1 = name ∧ e.2.1 = v

def Rtn.empty : Rtn Dir := ⟨none, none, none, fun _ => none⟩

/-- The nodes under `PROCS(pid,"rtns",name)`. -/
def State.rtn (s : State Pid Dir Name) (pid : Pid) (name : Name) : Rtn Dir :=
  ((s.procs pid).rtns.get name).getD Rtn.empty

def State.setRtn (s : State Pid Dir Name) (pid : Pid) (name : Name) (r : Rtn Dir) :
    State Pid Dir Name :=
  s.setProc pid { s.procs pid with rtns := (s.procs pid).rtns.set name r }

/-- `set PROCS(pid,"rtns",name,dir,"cycle")=c`. -/
def Rtn.setCycle (r : Rtn Dir) (dir : Dir) (c : Nat) : Rtn Dir :=
  { r with cycle := fun d => if d = dir then some c else r.cycle d }

/-- Loading a new variant into shared memory: a zrupdate, whose cycle the process records. -/
def loadObject (s : State Pid Dir Name) (pid : Pid) (dir : Dir) (name : Name) :
    Except Fault (State Pid Dir Name) := do
  let s := simulateZrupdate s pid dir .load (.routine name)
  let c ← defined (s.obj dir name).cycle
  .ok (s.setRtn pid name ((s.rtn pid name).setCycle dir c))

/-- The process's reference to the variant it now runs. -/
def setRoutineSharedRef (s : State Pid Dir Name) (pid : Pid) (name : Name) (v : Variant Dir) :
    State Pid Dir Name :=
  { s with
    rctlshm := s.rctlshm ++ [(name, v, pid)]
    procsrtnrefs := fun q r => if q = pid ∧ r = name then some v else s.procsrtnrefs q r }

/-- The object code of a link is placed in shared memory unless the variant is there; either way
    the process's reference moves to it. -/
def simulateObjectSharing (s : State Pid Dir Name) (pid : Pid) (dir srcDir : Dir) (name : Name)
    (ver : Nat) : Except Fault (State Pid Dir Name) := do
  let v : Variant Dir := ⟨ver, dir, srcDir⟩
  let s ← if s.shared name v then .ok s else loadObject s pid dir name
  .ok (setRoutineSharedRef (clearRoutineSharedRefs s pid name) pid name v)

/-! ## 4. Linking -/

/-- What the search of `$zroutines` for a directory ends with: `stop`, `starred` and the
    subscripts of `dirsToUpdateCycle`. -/
structure Search (Dir : Type) where
  stop : Bool
  starred : Bool
  dirs : List Dir

/-- `for i=1:1:PROCS(pid,"zro",0) do  quit:stop`, from index `i` on, `n` entries. -/
def searchZro (z : Zro Dir) (dir : Dir) :
    Nat → Nat → Bool → List Dir → Except Fault (Search Dir)
  | 0, _, starred, dirs => .ok ⟨false, starred, dirs⟩
  | n + 1, i, _, dirs => do
      let dirName ← defined (z.entry i).dir
      let starred ← defined (z.entry i).starred
      let dirs := if starred then dirs.insert dirName else dirs
      if dirName = dir then .ok ⟨true, starred, dirs⟩
      else searchZro z dir n (i + 1) starred dirs

/-- The cycle of the routine is initialized in every directory of the list, where it is not yet,
    and recorded with the process. -/
def recordCycles (s : State Pid Dir Name) (pid : Pid) (name : Name) :
    List Dir → State Pid Dir Name
  | [] => s
  | d :: ds =>
      let c := (s.obj d name).cycle.getD 0
      let s := s.setObj d name { s.obj d name with cycle := some c }
      recordCycles (s.setRtn pid name ((s.rtn pid name).setCycle d c)) pid name ds

/-- The process's old record of the routine gives way to the new one: the cycles of the searched
    directories if the link is starred, `"*"` and `"dir"`. -/
def startLink (s : State Pid Dir Name) (pid : Pid) (dir : Dir) (name : Name)
    (found : Search Dir) : State Pid Dir Name :=
  let s := s.record (.link pid name)
  let s := s.setProc pid { s.procs pid with rtns := (s.procs pid).rtns.erase name }
  let s := if found.stop && found.starred then recordCycles s pid name found.dirs else s
  s.setRtn pid name
    { s.rtn pid name with starred := some (found.stop && found.starred), dir := some dir }

/-- A link of the object of a routine in a directory. -/
def simulateLink (s : State Pid Dir Name) (pid : Pid) (dir : Dir) (name : Name) :
    Except Fault (State Pid Dir Name) := do
  let ver ← defined (s.obj dir name).ver
  let n ← defined (s.procs pid).zro.count
  let found ← searchZro (s.procs pid).zro dir n 1 false []
  let s := startLink s pid dir name found
  let s ← if found.stop && found.starred then do
      let srcDir ← defined (s.obj dir name).srcDir
      simulateObjectSharing s pid dir srcDir name ver
    else .ok (clearRoutineSharedRefs s pid name)
  .ok (s.setRtn pid name { s.rtn pid name with ver := some ver })

/-! ## 5. Executing -/

/-- The cycle comparison: `for i=1:1:PROCS(pid,"zro",0) do:(starred)  quit:(needsLink)!(stop)`,
    from index `i` on, `n` entries. Returns `needsLink`. -/
def compareCycles (s : State Pid Dir Name) (pid : Pid) (name : Name) :
    Nat → Nat → Except Fault Bool
  | 0, _ => .ok false
  | n + 1, i => do
      let z := (s.procs pid).zro.entry i
      let r := s.rtn pid name
      let starred ← defined z.starred
      if starred then do
        let objDir ← defined z.dir
        let linkDir ← defined r.dir
        assert (r.cycle objDir ≠ none)
        assert ((s.obj objDir name).cycle ≠ none)
        let own ← defined (r.cycle objDir)
        let cur ← defined (s.obj objDir name).cycle
        assert (own ≤ cur)
        if own < cur then .ok true
        else if objDir = linkDir then .ok false
        else compareCycles s pid name n (i + 1)
      else compareCycles s pid name n (i + 1)

/-- Whether an execution must link the routine first. -/
def needsLink (s : State Pid Dir Name) (pid : Pid) (name : Name) : Except Fault Bool :=
  match (s.procs pid).rtns.get name with
  | none => .ok true
  | some r => do
      let _ ← defined r.dir
      let starred ← defined r.starred
      if starred then do
        let n ← defined (s.procs pid).zro.count
        compareCycles s pid name n 1
      else .ok false

/-- The local variables of the search for an object or a source. -/
structure Found (Dir : Type) where
  objVersion : Nat
  objTime : Nat
  srcVersion : Nat
  srcTime : Nat
  objDir : Option Dir
  srcDir : Option Dir

/-- The search through the source directories of one entry: `quit:(0'=srcVersion)`. -/
def searchSources (s : State Pid Dir Name) (name : Name) (z : ZroEntry Dir) :
    Nat → Nat → Found Dir → Except Fault (Found Dir)
  | 0, _, f => .ok f
  | n + 1, j, f => do
      let srcDir ← defined (z.src j)
      let f := { f with srcDir := some srcDir }
      let node := s.srcdirs srcDir name
      let f ← if node.exists then do
          let ver ← defined node.ver
          let time ← defined node.time
          pure { f with srcVersion := ver, srcTime := time }
        else pure f
      if f.srcVersion ≠ 0 then .ok f else searchSources s name z n (j + 1) f

/-- The search through `$zroutines`: `quit:(0'=objVersion)!(0'=srcVersion)`. -/
def searchObjects (s : State Pid Dir Name) (zro : Zro Dir) (name : Name) :
    Nat → Nat → Found Dir → Except Fault (Found Dir)
  | 0, _, f => .ok f
  | n + 1, i, f => do
      let z := zro.entry i
      let objDir ← defined z.dir
      let count ← defined z.count
      let f ← searchSources s name z count 1 { f with objDir := some objDir }
      let node := s.obj objDir name
      let f ← if node.data then do
          let ver ← defined node.ver
          let time ← defined node.time
          pure { f with objVersion := ver, objTime := time }
        else pure f
      if f.objVersion ≠ 0 ∨ f.srcVersion ≠ 0 then .ok f
      else searchObjects s zro name n (i + 1) f

/-- The version, time and source directory of an object that a process compiles. -/
def ObjNode.compile (n : ObjNode Dir) (ver time : Nat) (srcDir : Dir) : ObjNode Dir :=
  { n with ver := some ver, time := some time, srcDir := some srcDir }

/-- The part of an execution that links: find the first object or source, compile if the source
    is newer or there is no object, and link. With neither there is nothing to link (the
    execution is expected to fail). -/
def relink (s : State Pid Dir Name) (pid : Pid) (time : Nat) (name : Name) :
    Except Fault (State Pid Dir Name) := do
  let zro := (s.procs pid).zro
  let n ← defined zro.count
  let f ← searchObjects s zro name n 1 ⟨0, 0, 0, 0, none, none⟩
  if 0 < f.objVersion then do
    let objDir ← defined f.objDir
    let s ← if f.srcTime > f.objTime then do
        let srcDir ← defined f.srcDir
        pure (s.setObj objDir name ((s.obj objDir name).compile f.srcVersion time srcDir))
      else pure s
    simulateLink s pid objDir name
  else if 0 < f.srcVersion then do
    let objDir ← defined f.objDir
    let srcDir ← defined f.srcDir
    let node := { s.obj objDir name with data := true }
    simulateLink (s.setObj objDir name (node.compile f.srcVersion time srcDir)) pid objDir name
  else .ok s

/-- An execution of a routine. -/
def simulateExec (s : State Pid Dir Name) (pid : Pid) (time : Nat) (name : Name) :
    Except Fault (State Pid Dir Name) := do
  let link ← needsLink s pid name
  if link then relink s pid time name else .ok s

/-! ## 6. The dispatch -/

/-- A logged action. The lists are the items of the action's loop; an item logged as NOOP does
    nothing and is not listed. -/
inductive Action (Dir Name : Type) where
  | setZroutines (zro : List (LogZro Dir))
  | writeSources (items : List (Dir × Name × Nat))
  | deleteSources (items : List (Dir × Name))
  | deleteObjects (items : List (Dir × Name))
  | compile (items : List (Name × Dir × Dir))
  | link (items : List (Dir × Name))
  | zrupdate (items : List (Dir × Target Name))
  | execute (name : Name)

/-- One item of a compile: the source directory `dir`, the object directory `dst`. -/
def compileItem (s : State Pid Dir Name) (time : Nat) (item : Name × Dir × Dir) :
    Except Fault (State Pid Dir Name) := do
  let (name, dir, dst) := item
  let ver ← defined (s.srcdirs dir name).ver
  let node := { s.obj dst name with data := true }
  .ok (s.setObj dst name (node.compile ver time dir))

/-- Why an explicit zrupdate bumps: for the ghost only. -/
def Target.cause : Target Name → Cause
  | .wildcard => .wildcard
  | .routine _ => .zrupdate

/-- One logged action of a process, in analysis mode, every zrupdate a success. -/
def replayAction (s : State Pid Dir Name) (time : Nat) (pid : Pid) :
    Action Dir Name → Except Fault (State Pid Dir Name)
  | .setZroutines zro => setZroutines s pid zro
  | .writeSources items => .ok <|
      items.foldl (fun s item => s.setSrc item.1 item.2.1 ⟨true, some item.2.2, some time⟩) s
  | .deleteSources items => .ok <|
      items.foldl (fun s item => s.setSrc item.1 item.2 SrcNode.empty) s
  | .deleteObjects items => .ok <|
      items.foldl (fun s item => s.setObj item.1 item.2 { s.obj item.1 item.2 with data := false })
        s
  | .compile items => items.foldlM (fun s item => compileItem s time item) s
  | .link items => items.foldlM (fun s item => simulateLink s pid item.1 item.2) s
  | .zrupdate items => .ok <|
      items.foldl (fun s item => simulateZrupdate s pid item.1 item.2.cause item.2) s
  | .execute name => simulateExec s pid time name

end YottaTest.Barrage
