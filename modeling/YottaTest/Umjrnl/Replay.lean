/-
  File:      YottaTest/Umjrnl/Replay.lean
  Subject:   umjrnl.m: applying an M journal extract onto a database.

  The routine reads the extract line by line. A data record becomes a command, which is executed
  at once, or kept in `tran` while a transaction is open; the commit that closes the outermost
  transaction executes what is kept.

  * `Env` -- what the routine finds around it: the logical names, `$zqgblmod` and `$ztrigger`;
  * `Cmd`, `Played` -- the commands, and an executed command with the `$ztwormhole` it saw;
  * `setRec`, `killRec`, `zkillRec`, `ztwormhole`, `ztrig`, `lgtrig`, `commit` -- the handlers;
  * `step`, `run`, `umjrnl` -- one record, all records, and the routine with its format check.
-/
import Mathlib.Data.List.Infix
import YottaTest.M.Globals

namespace YottaTest.Umjrnl

open YottaTest.Lib YottaTest.M

/-! ## 1. Records -/

/-- The field separator of an extract. -/
def backslash : MChar := .chr 92

/-- `$piece(rec,"\",first,99999)`: the fields from one on, with the separators between them. -/
def piecesFrom (first : Nat) (rec : MStr) : MStr := (List.range (first - 1)).foldl
  (fun s _ => afterFirst backslash s) rec

/-- `+$piece(rec,"\",1)`. -/
def recType (rec : MStr) : Nat := (Val.str (piece backslash rec 1)).toNat

/-- `$piece(rec,"\",nodeflgposn)#2`. -/
def nodeflg (rec : MStr) : Bool := (Val.str (piece backslash rec 10)).toNat % 2 = 1

/-- `$piece(rec,"\",jnlnodeposn,99999)`. -/
def nodeData (rec : MStr) : MStr := piecesFrom 11 rec

/-- `$piece(rec,"\",ztwormposn,99999)`, the same position as `lgtrigposn`. -/
def trigData (rec : MStr) : MStr := piecesFrom 10 rec

/-- What stands before the first "=" that is not in a string; `none` without one. -/
def beforeEq (inStr : Bool) : MStr → Option MStr
  | [] => none
  | c :: s =>
      if c = .chr 61 ∧ inStr = false then some []
      else (beforeEq (if c = .chr 34 then !inStr else inStr) s).map (c :: ·)

/-- `do SPLIT(data,.datavar,.dataval)`: `datavar`. -/
def splitVar (data : MStr) : MStr := (beforeEq false data).getD data

/-! ## 2. Commands and state -/

/-- A command umjrnl executes, with the text it takes from the record. -/
inductive Cmd where
  | set (data : MStr)
  | kill (data : MStr)
  | zkill (data : MStr)
  /-- `set $ztwormhole=data` -/
  | ztwormhole (data : MStr)
  /-- `ztrigger data` -/
  | ztrigger (data : MStr)
  /-- `$ztrigger("item",data)` -/
  | item (data : MStr)
  deriving DecidableEq, Repr

/-- A command that was executed, and the value of `$ztwormhole` then. -/
structure Played where
  cmd : Cmd
  ztwormhole : MStr
  deriving DecidableEq, Repr

/-- What the routine finds around it. -/
structure Env where
  /-- the logical name `gtm_test_trigger` -/
  trigtst : Bool
  /-- the caller has set `checkzqgblmod` -/
  checkzqgblmod : Bool
  /-- `$zqgblmod(node)`, after the commands executed so far -/
  zqgblmod : List Played → MStr → Bool
  /-- the result of `$ztrigger("item",data)` -/
  ztriggerItem : List Played → MStr → Bool
  /-- the value of a string expression in an extract -/
  literal : MStr → MStr

structure St where
  tpFence : Int
  /-- `tran(1)` … `tran(cnt)` -/
  tran : List Cmd
  /-- `skipgbl` is defined -/
  skipgbl : Bool
  ztwormhole : MStr
  /-- what was executed -/
  done : List Played
  /-- `umhalt` was called -/
  halted : Bool

def St.init : St := ⟨0, [], false, [], [], false⟩

/-- `do umhalt`. -/
def umhalt (st : St) : St := { st with halted := true }

section Routine

variable (env : Env)

/-- A command executed. -/
def xecute (st : St) (cmd : Cmd) : St :=
  let played := { st with done := st.done ++ [⟨cmd, st.ztwormhole⟩] }
  match cmd with
  | .ztwormhole data => { played with ztwormhole := env.literal data }
  -- `if '$ztrigger("item",…) … do umhalt`
  | .item data => if env.ztriggerItem st.done data then played else umhalt st
  | _ => played

/-- `if tpFence set cnt=cnt+1,tran(cnt)=…  else  …`. -/
def issue (st : St) (cmd : Cmd) : St :=
  if st.tpFence ≠ 0 then { st with tran := st.tran ++ [cmd] } else xecute env st cmd

/-- The `$zqgblmod` check of a record's node, where the caller asked for it. -/
def modified (st : St) (node : MStr) : Bool := env.checkzqgblmod && env.zqgblmod st.done node

/-- `trigtst&($piece(rec,"\",nodeflgposn)#2)`: a trigger did this update. -/
def byTrigger (rec : MStr) : Bool := env.trigtst && nodeflg rec

def setRec (st : St) (rec : MStr) : St :=
  if byTrigger env rec then st
  else
    -- `new skipgbl`
    let skipgbl := modified env st (splitVar (nodeData rec))
    if skipgbl then st
    else if (piece backslash rec 11).take 4 = lit "^#t(" then st
    else issue env st (.set (nodeData rec))

def killRec (st : St) (rec : MStr) : St :=
  if byTrigger env rec then st
  else
    let st := { st with skipgbl := st.skipgbl || modified env st (nodeData rec) }
    if st.skipgbl then st
    else if (piece backslash rec 11).take 3 = lit "^#t" then st
    else issue env st (.kill (nodeData rec))

def zkillRec (st : St) (rec : MStr) : St :=
  let st := { st with skipgbl := st.skipgbl || modified env st (nodeData rec) }
  if st.skipgbl then st
  else if (piece backslash rec 11).take 3 = lit "^#t" then st
  else issue env st (.zkill (nodeData rec))

/-- What the three handlers of trigger records do with their command: they need a transaction. -/
def trigRec (st : St) (cmd : Cmd) : St :=
  if env.checkzqgblmod then st
  else if st.tpFence = 0 then umhalt st
  else { st with tran := st.tran ++ [cmd] }

def ztwormhole (st : St) (rec : MStr) : St := trigRec env st (.ztwormhole (trigData rec))

def ztrig (st : St) (rec : MStr) : St := trigRec env st (.ztrigger (nodeData rec))

def lgtrig (st : St) (rec : MStr) : St := trigRec env st (.item (trigData rec))

/-- `for i=1:1:cnt … xecute tran(i)`; a halt ends it. -/
def flush (st : St) (tran : List Cmd) : St :=
  tran.foldl (fun st cmd => if st.halted then st else xecute env st cmd) st

def commit (st : St) : St :=
  -- "umjrnl.m cannot handle $zqgblmod checks within TP"
  if env.checkzqgblmod then umhalt st
  else { flush env st st.tran with tran := [] }

/-- `set tpFence=tpFence-1 D:0=tpFence commit(…)`. -/
def close (st : St) : St :=
  let st := { st with tpFence := st.tpFence - 1 }
  if st.tpFence = 0 then commit env st else st

/-- One record. -/
def step (st : St) (rec : MStr) : St :=
  if st.halted then st
  else match recType rec with
  | 5 => setRec env st rec
  | 4 => killRec env st rec
  | 10 => zkillRec env st rec
  | 11 => ztwormhole env st rec
  | 12 => ztrig env st rec
  | 13 => lgtrig env st rec
  | 6 => { st with tpFence := st.tpFence + 1, ztwormhole := [] }
  | 7 => { close env st with ztwormhole := [] }
  | 8 => { st with tpFence := st.tpFence + 1 }
  | 9 => close env st
  | _ => st

/-- The read loop. -/
def run (recs : List MStr) : St := recs.foldl (step env) .init

end Routine

end YottaTest.Umjrnl
