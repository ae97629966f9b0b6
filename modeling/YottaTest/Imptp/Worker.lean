/-
  File:      YottaTest/Imptp/Worker.lean
  Subject:   One iteration of impjob^imptp, as the list of updates it performs.

  An iteration is eleven stages; a stage is fenced by a transaction (istp 1 or 2), or its updates
  stand on their own. The updates are data (`Cmd`), with the values they compute from the database
  as expressions (`Expr`), so that the same list can be executed, compared with another worker's
  and run under triggers.

  * `Gvn` -- the globals, without their first subscript `fillid`, which is the same everywhere;
  * `Expr.eval`, `Cmd.exec` -- what the commands do to the database;
  * `Chance` -- what a run does not determine: the random numbers, `$TRESTART` at the try that
    commits, `$HOROLOG` and the like;
  * `stage1` … `stage11`, `iteration` -- the code of imptp.m, lines 250 to 441.
-/
import YottaTest.Imptp.Values
import YottaTest.M.Globals

namespace YottaTest.Imptp

open YottaTest.Lib YottaTest.M

/-! ## 1. Globals and commands -/

/-- The globals of the test. `subpiece` is no global: it is the worker's local variable of that
    name, kept in the same table under the job and loop number it belongs to. -/
inductive Gvn where
  | arandom | brandomv | crandomva | drandomvariable | erandomvariableimptp
  | frandomvariableinimptp | grandomvariableinimptpfill | hrandomvariableinimptpfilling
  | irandomvariableinimptpfillprgrm | jrandomvariableinimptpfillprogram
  | antp | bntp | cntp | dntp | entp | fntp | gntp | hntp | intp
  | aspan | bspan | espan
  | andxarr | bndxarr | cndxarr | dndxarr | endxarr | fndxarr | gndxarr | hndxarr | indxarr
  | lasti | cntloop | cntseq | endloop | dummy | zdummy | dummynoop
  | subpiece
  deriving DecidableEq, Repr

/-- A node of one of the globals. -/
abbrev GNode := Node Gvn

/-- A database of the test. -/
abbrev Db := DB Gvn

/-- What an update writes. -/
inductive Expr where
  /-- A value that does not depend on the database. -/
  | lit (v : Val)
  /-- `$get(node)`. -/
  | get (n : GNode)
  /-- `$tr($get(node)," ","")`. -/
  | noBlanks (n : GNode)
  /-- `$extract(node,1,$length(node)-$length("suffix"))`. -/
  | dropSuffix (n : GNode)
  /-- `$tr($piece($get(node),"|",k)," ","X")`. -/
  | pieceX (n : GNode) (k : Nat)
  deriving DecidableEq, Repr

def Expr.eval (d : Db) : Expr → Val
  | .lit v => v
  | .get n => d.value n
  | .noBlanks n => .str (dropBlanks (d.value n).toStr)
  | .dropSuffix n => .str ((d.value n).toStr.take ((d.value n).toStr.length - 6))
  | .pieceX n k => .str (blanksToX (piece bar (d.value n).toStr k))

/-- One update, or one command that only concerns triggers. -/
inductive Cmd where
  /-- `set node=expr`. -/
  | set (n : GNode) (e : Expr)
  /-- `set $piece(node,"|",k)=source`, the source being a local variable. -/
  | setPiece (n : GNode) (k : Nat) (source : GNode)
  | kill (n : GNode)
  | zkill (n : GNode)
  /-- `$incr(node,by)`. -/
  | incr (n : GNode) (by_ : Nat)
  /-- `set $ztwormhole=expr`. -/
  | ztwormhole (v : Val)
  /-- `ztrigger node`. -/
  | ztrigger (n : GNode)
  /-- `do ^imptpdztrig(k,istp<2)`: random `$ztrigger` operations of its own. -/
  | dztrig (k : Nat)
  /-- `$ztrigger("item",trig)`, with the random number that chose `trig`. -/
  | ztriggerItem (rndm : Nat)
  deriving DecidableEq, Repr

/-- What a command does to the database, with no triggers installed. -/
def Cmd.exec : Cmd → Db → Db
  | .set n e, d => d.set n (e.eval d)
  | .setPiece n k source, d =>
      if k = 0 then d
      else d.set n (.str (Lib.setPiece bar (d.value n).toStr k (d.value source).toStr))
  | .kill n, d => d.kill n
  | .zkill n, d => d.zkill n
  | .incr n k, d => d.incr n k
  | .ztwormhole _, d => d
  | .ztrigger _, d => d
  | .dztrig _, d => d
  | .ztriggerItem _, d => d

/-! ## 2. The nodes of an iteration -/

/-- A node under one string subscript. -/
def strNode (g : Gvn) (s : MStr) : GNode := ⟨g, [.str s]⟩

/-- A node under one number. -/
def numNode (g : Gvn) (n : Nat) : GNode := ⟨g, [.num n]⟩

/-- A node under a string and a number. -/
def strNumNode (g : Gvn) (s : MStr) (n : Nat) : GNode := ⟨g, [.str s, .num n]⟩

/-- A node under two numbers. -/
def numNumNode (g : Gvn) (m n : Nat) : GNode := ⟨g, [.num m, .num n]⟩

/-- A global's only node. -/
def topNode (g : Gvn) : GNode := ⟨g, []⟩

/-- `set node=value`, the value a string of the iteration. -/
def setStr (n : GNode) (s : MStr) : Cmd := .set n (.lit (.str s))

/-- `set node=number`. -/
def setNum (n : GNode) (k : Nat) : Cmd := .set n (.lit (.num k))

/-- The globals of stages 4 and 5 beside `^arandom`. -/
def otherRandoms : List Gvn :=
  [.brandomv, .crandomva, .drandomvariable, .erandomvariableimptp, .frandomvariableinimptp,
    .grandomvariableinimptpfill, .hrandomvariableinimptpfilling, .irandomvariableinimptpfillprgrm]

/-- The globals of stage 11 beside `^andxarr`. -/
def otherNdxarrs : List Gvn :=
  [.bndxarr, .cndxarr, .dndxarr, .endxarr, .fndxarr, .gndxarr, .hndxarr, .indxarr]

/-! ## 3. What a run leaves open -/

/-- The random numbers and clocks of one iteration. -/
structure Chance where
  /-- Stage 1: `$r(10)` and `$TRESTART`. -/
  rndm1 : Nat
  trestart1 : Nat
  /-- Stage 2: `$random(10)`, and the one that chooses the trigger operation. -/
  rndm2 : Nat
  item2 : Nat
  /-- Stage 5: `$random(10)` and `$TRESTART`. -/
  rndm5 : Nat
  trestart5 : Nat
  /-- Stage 9: `$random(2)`. -/
  flag : Nat
  /-- `$job`, `$horolog` and the process's CPU time. -/
  job : Nat
  horolog : MStr
  cputim : Nat
  deriving DecidableEq, Repr

/-- `noop^imptp`: the two notes it leaves. -/
def noop (jobno loop : Nat) (ch : Chance) : List Cmd :=
  let note (s : MStr) : GNode :=
    ⟨.dummynoop, [.num jobno, .num loop, .str s, .num ch.job, .str ch.horolog]⟩
  -- "start" and "end"
  [setNum (note [.chr 115, .chr 116, .chr 97, .chr 114, .chr 116]) ch.cputim,
    setNum (note [.chr 101, .chr 110, .chr 100]) ch.cputim]

namespace Config

variable (cfg : Config)

/-- `set ztr=(trigger#10)>1`. -/
def ztr : Bool := cfg.trigger % 10 > 1

/-- `set dztrig=(trigger>10)`. -/
def dztrig : Bool := cfg.trigger > 10

/-- `set lfence=istp  if (istp=0)&(crash=1) set lfence=1  if gtcm=1 set lfence=0`. -/
def lfence : Nat :=
  if cfg.gtcm = 1 then 0 else if cfg.istp = 0 ∧ cfg.crash = 1 then 1 else cfg.istp

/-- `if 'trigger do …`. -/
def noTrigger (cs : List Cmd) : List Cmd := if cfg.trigger = 0 then cs else []

/-- `do:dztrig ^imptpdztrig(k,istp<2)`. -/
def doDztrig (k : Nat) : List Cmd := if cfg.dztrig then [.dztrig k] else []

end Config

/-! ## 4. The stages -/

section Stages

variable (cfg : Config) (jobno loop I : Nat) (ch : Chance)

def stage1 : List Cmd :=
  [setStr (strNode .arandom (cfg.subsMAX I)) (cfg.val loop)]
    ++ (if cfg.istp = 1 ∧ cfg.crash ≠ 0 then
          (if ch.rndm1 = 1 ∧ ch.trestart1 > 2 then noop jobno loop ch else [])
          ++ (if ch.trestart1 ≠ 0 then [setNum (numNode .zdummy ch.trestart1) jobno] else [])
        else [])
    ++ [setStr (strNode .brandomv (cfg.subsMAX I)) (cfg.valALT loop)]
    ++ cfg.noTrigger [setStr (strNode .crandomva (cfg.subsMAX I)) (cfg.valALT loop)]
    ++ [setStr (strNode .drandomvariable (cfg.subs I)) (cfg.valALT loop)]
    ++ cfg.noTrigger
        [setStr (strNode .erandomvariableimptp (cfg.subs I)) (cfg.valALT loop),
          setStr (strNode .frandomvariableinimptp (cfg.subs I)) (cfg.valALT loop)]
    ++ [setStr (strNode .grandomvariableinimptpfill (cfg.subs I)) (cfg.val loop)]
    ++ cfg.noTrigger
        [setStr (strNode .hrandomvariableinimptpfilling (cfg.subs I)) (cfg.val loop),
          setStr (strNode .irandomvariableinimptpfillprgrm (cfg.subs I)) (cfg.val loop)]
    ++ (if cfg.trigger ≠ 0 then [Cmd.ztwormhole (.str (cfg.subs I))] else [])
    ++ [setStr (numNode .jrandomvariableinimptpfillprogram I) (cfg.val loop)]
    ++ cfg.noTrigger
        [setStr (numNumNode .jrandomvariableinimptpfillprogram I I) (cfg.val loop),
          setStr ⟨.jrandomvariableinimptpfillprogram, [.num I, .num I, .str (cfg.subs I)]⟩
            (cfg.val loop)]
    ++ (if cfg.istp ≠ 0 then
          (if cfg.ztr then [Cmd.ztrigger (numNumNode .lasti jobno loop)] else [])
          ++ [setNum (numNode .lasti jobno) loop]
        else [])

def stage2 : List Cmd :=
  (if ch.rndm2 < 5 ∧ cfg.trigger ≠ 0 then [Cmd.ztriggerItem ch.item2] else [])
    ++ [setStr (strNode .antp (cfg.subs I)) (cfg.val loop)]
    ++ (if cfg.trigger = 0 then
          [setStr (strNode .bntp (cfg.subs I)) (cfg.val loop),
            setStr (strNode .cntp (cfg.subs I)) (cfg.val loop),
            setStr (strNode .dntp (cfg.subs I)) (cfg.valALT loop)]
        else [setStr (strNode .dntp (cfg.subs I)) (cfg.valALT loop)])

def stage3 : List Cmd :=
  cfg.doDztrig 2
    ++ [setStr (strNode .entp (cfg.subs I)) (cfg.val loop)]
    ++ cfg.noTrigger [setStr (strNode .fntp (cfg.subs I)) (cfg.val loop)]
    ++ (if cfg.trigger ≠ 0 then
          [Cmd.set (strNode .fntp (cfg.subs I)) (.dropSuffix (strNode .fntp (cfg.subs I)))]
        else [])
    ++ [setStr (strNode .gntp (cfg.subsMAX I)) (cfg.valMAX loop)]
    ++ cfg.noTrigger
        [setStr (strNode .hntp (cfg.subsMAX I)) (cfg.valMAX loop),
          setStr (strNode .intp (cfg.subsMAX I)) (cfg.valMAX loop),
          setStr (strNode .bntp (cfg.subsMAX I)) (cfg.valMAX loop)]

/-- Stage 4 for one `J`. -/
def stage4 (J : Nat) : List Cmd :=
  [setStr (strNumNode .arandom (cfg.subs I) J) (cfg.valj loop J)]
    ++ cfg.noTrigger
        (otherRandoms.map fun g => setStr (strNumNode g (cfg.subs I) J) (cfg.valj loop J))
    ++ cfg.doDztrig 1

def stage5 : List Cmd :=
  cfg.doDztrig 2
    ++ (if cfg.istp = 1 ∧ cfg.crash ≠ 0 then
          (if ch.rndm5 = 1 ∧ ch.trestart5 > 2 then noop jobno loop ch else [])
        else [])
    ++ [Cmd.kill (strNumNode .arandom (cfg.subs I) 1)]
    ++ cfg.noTrigger (otherRandoms.map fun g => .kill (strNumNode g (cfg.subs I) 1))
    ++ cfg.doDztrig 1
    ++ cfg.doDztrig 2

def stage6 : List Cmd :=
  [Cmd.zkill (numNode .jrandomvariableinimptpfillprogram I)]
    ++ cfg.noTrigger [Cmd.zkill (numNumNode .jrandomvariableinimptpfillprogram I I)]

def stage7 : List Cmd :=
  [setStr (numNode .aspan I) (cfg.valPIECE loop)]
    ++ cfg.noTrigger
        [Cmd.set (numNode .espan I) (.get (numNode .aspan I)),
          .set (numNode .bspan I) (.noBlanks (numNode .aspan I))]

def stage8 : List Cmd :=
  [Cmd.kill (strNumNode .arandom (cfg.subs I) 1), .kill (strNode .antp (cfg.subs I))]
    ++ cfg.noTrigger
        [Cmd.kill (strNode .bntp (cfg.subs I)), .zkill (strNumNode .brandomv (cfg.subs I) 1),
          .zkill (strNode .cntp (cfg.subs I)), .zkill (strNode .dntp (cfg.subs I))]
    ++ [Cmd.kill (strNode .bntp (cfg.subsMAX I))]
    ++ (if cfg.istp = 1 then [setStr (topNode .dummy) ch.horolog] else [])

def stage9 : List Cmd :=
  [Cmd.incr (topNode .cntloop) 1, .incr (topNode .cntseq) (13 + cfg.jobcnt)]

/-- The worker's local variable `subpiece` in this iteration. -/
def subpieceNode : GNode := numNumNode .subpiece jobno loop

def stage10 : List Cmd :=
  let k := cfg.targetpiece loop
  [Cmd.set (subpieceNode jobno loop) (.pieceX (numNode .aspan I) k),
    .zkill (numNode .espan I),
    .setPiece (numNode .aspan I) k (subpieceNode jobno loop)]
    ++ cfg.noTrigger
        [Cmd.setPiece (numNode .espan I) k (subpieceNode jobno loop),
          .setPiece (numNode .bspan I) k (subpieceNode jobno loop)]

def stage11 : List Cmd :=
  cfg.doDztrig 1
    ++ (if cfg.ztr then
          [Cmd.ztwormhole (.num I), .ztrigger (numNumNode .andxarr jobno loop), .ztwormhole (.str [])]
        else [])
    ++ [setNum (numNumNode .andxarr jobno loop) I]
    ++ cfg.noTrigger (otherNdxarrs.map fun g => setNum (numNumNode g jobno loop) I)
    ++ (if cfg.istp = 0 then
          (if cfg.ztr then [Cmd.ztrigger (numNumNode .lasti jobno loop)] else [])
          ++ [setNum (numNode .lasti jobno) loop]
        else [])

/-! ## 5. The iteration -/

/-- A stage with its fence: 0 for none, 1 for TP, 2 for ZTP. -/
structure Stage where
  fence : Nat
  cmds : List Cmd
  deriving DecidableEq, Repr

/-- **The body of imptp's loop**, the call of `^imptpdztrig` before stage 1 included. -/
def iteration : List Stage :=
  [⟨0, cfg.doDztrig 1⟩,
    ⟨cfg.istp, stage1 cfg jobno loop I ch⟩,
    ⟨0, stage2 cfg loop I ch⟩,
    ⟨cfg.istp, stage3 cfg loop I⟩]
    ++ (List.range cfg.jobcnt).map (fun j => ⟨cfg.istp, stage4 cfg loop I (j + 1)⟩)
    ++ [⟨cfg.istp, stage5 cfg jobno loop I ch⟩,
    ⟨cfg.istp, stage6 cfg I⟩,
    ⟨cfg.istp, stage7 cfg loop I⟩,
    ⟨0, stage8 cfg I ch⟩,
    ⟨if ch.flag = 1 then cfg.lfence else 0, stage9 cfg⟩,
    ⟨cfg.istp, stage10 cfg jobno loop I⟩,
    ⟨cfg.lfence, stage11 cfg jobno loop I⟩]

end Stages

/-- What commits at once: a fenced stage as a whole, else each update. -/
def Stage.steps (s : Stage) : List (List Cmd) :=
  if s.fence = 0 then s.cmds.map fun c => [c] else [s.cmds]

/-- The steps of an iteration between which it can be interrupted. -/
def steps (stages : List Stage) : List (List Cmd) := stages.flatMap Stage.steps

/-- The updates of an iteration in order. -/
def cmds (stages : List Stage) : List Cmd := stages.flatMap Stage.cmds

/-- `+$get(^lasti(fillid,jobno))`: where a job restarts. -/
def lastiOf (d : Db) (jobno : Nat) : Nat := (d.value (numNode .lasti jobno)).toNat

end YottaTest.Imptp
