/-
  File:      YottaTest/Triggers/Load.lean
  Subject:   One line of a trigger file: `gentrigload` of randomtriggers.m on the table of the
             line's global.

  * `Fields` -- a line as the code takes it apart; `Message` -- what is written for it;
  * `addSet`, `addNonSet`, `create` -- the three branches of an addition;
  * `touchKill`, `touchSet`, `touchBoth`, `delete` -- the pieces and the branches of a deletion; the
    two branches with `zshow` and `halt` give none;
  * `load` -- a line.
-/
import YottaTest.Triggers.Hasht

namespace YottaTest.Triggers

open YottaTest.M YottaTest.Lib

/-! ## 1. Lines and messages -/

/-- The variables `gentrigload` sets from a line. -/
structure Fields where
  add : Bool
  gvn : MStr
  /-- all the commands, `S` among them -/
  cmds : Finset MStr
  pieces : MStr
  delim : MStr
  xecute : MStr
  options : Finset MStr
  deriving DecidableEq

namespace Fields

def setspecified (f : Fields) : Bool := S ∈ f.cmds

/-- `cmds` after `kill cmds("S")`. -/
def nonSet (f : Fields) : Finset MStr := f.cmds.erase S

def killspecified (f : Fields) : Bool := f.nonSet ≠ ∅

end Fields

/-- "SET", "Non-SET" or "SET and/or Non-SET". -/
inductive Part where
  | set
  | nonSet
  | both
  deriving DecidableEq, Repr

/-- `$select((setspecified&killspecified):"SET and/or Non-SET",setspecified:"SET",1:"Non-SET")` -/
def Fields.part (f : Fields) : Part :=
  if f.setspecified && f.killspecified then .both else if f.setspecified then .set else .nonSet

/-- A line of the output; all but the last name a trigger by its number. -/
inductive Message where
  | added (part : Part) (i : Nat)
  | modified (part : Part) (i : Nat)
  | deleted (part : Part) (i : Nat)
  /-- "already present in trigger named" -/
  | present (part : Part) (i : Nat)
  /-- "not present in trigger named" -/
  | notPresent (part : Part) (i : Nat)
  | doesNotExist (part : Part)
  deriving DecidableEq, Repr

/-- A line 'Added', 'Modified' or 'Deleted'. -/
def Message.isUpdate : Message → Bool
  | .added .. | .modified .. | .deleted .. => true
  | _ => false

/-- What processing a line gives: the table, `setmod` and `killmod`, what is counted and written. -/
structure Out where
  g : Gbl
  setmod : Bool := false
  killmod : Bool := false
  added : Nat := 0
  deleted : Nat := 0
  modified : Nat := 0
  written : List Message := []

/-- The line has updated the database. -/
def Out.upd (o : Out) : Bool := o.setmod || o.killmod

def Out.write (o : Out) (m : Message) : Out := { o with written := o.written ++ [m] }

/-- `write "Modified …"  if $incr(trigs("modified"))` -/
def Out.writeModified (o : Out) (part : Part) (i : Nat) : Out :=
  { o with written := o.written ++ [.modified part i], modified := o.modified + 1 }

/-- `write "Added …"  if $incr(trigs("added"))` -/
def Out.writeAdded (o : Out) (part : Part) (i : Nat) : Out :=
  { o with written := o.written ++ [.added part i], added := o.added + 1 }

/-- `write "Deleted …"  if $incr(trigs("deleted"))` -/
def Out.writeDeleted (o : Out) (part : Part) (i : Nat) : Out :=
  { o with written := o.written ++ [.deleted part i], deleted := o.deleted + 1 }

/-! ## 2. Addition -/

namespace Gbl

/-- `setexists` -/
def setexists (g : Gbl) (f : Fields) : Bool :=
  (g.index.get (f.xecute, f.delim, f.pieces)).getD 0 ≠ 0

/-- `setindex`: the SET trigger with the line's delim and pieces; failing that the first trigger, if
    it has no delim; failing that 0. -/
def setindex (g : Gbl) (f : Fields) : Nat :=
  if g.setexists f = false ∧ (g.trig f.xecute (g.first f.xecute)).delim = none
  then g.first f.xecute else (g.index.get (f.xecute, f.delim, f.pieces)).getD 0

end Gbl

/-- The messages of an addition of SET to an xecute string that has triggers. -/
def addSetMessages (f : Fields) (killindex setindex : Nat) (setexists setmod killmod : Bool)
    (o : Out) : Out :=
  if killindex ≠ setindex then
    let o := if killmod then o.writeModified .nonSet killindex
      else if f.killspecified then o.write (.present .nonSet killindex) else o
    if setexists = false then o.writeAdded .set setindex
    else if setmod then o.writeModified .set setindex else o.write (.present .set setindex)
  else if f.killspecified = false then
    if setmod then o.writeModified .set setindex else o.write (.present .set setindex)
  else if setmod || killmod then o.writeModified f.part setindex
  else o.write (.present f.part setindex)

/-- SET is among the commands of an addition to an xecute string that has triggers. -/
def addSet (g : Gbl) (f : Fields) : Out :=
  let x := f.xecute
  let killindex := g.first x
  let setexists := g.setexists f
  -- a new trigger when there is none to set or to join
  let fresh := g.setindex f = 0
  let setindex := if fresh then g.seqnum + 1 else g.setindex f
  let g := if fresh then { g with seqnum := g.seqnum + 1, tncount := g.tncount + 1 } else g
  let g := if setexists = false then g.setIndex x f.delim f.pieces setindex else g
  let t := g.trig x killindex
  let killmod : Bool := (computediff t.cmds f.nonSet).uniq2 ≠ ∅
  let killmod := if killmod = false ∧ setindex = killindex
    then (computediff t.options f.options).differ else killmod
  let setmod := if killindex = setindex then killmod else false
  let setmod := if setmod = false then !setexists else setmod
  let g := g.setTrig x killindex { t with cmds := t.cmds ∪ f.nonSet }
  let u := g.trig x setindex
  let setmod := if setexists ∧ setmod = false
    then (computediff u.options f.options).differ else setmod
  let g := g.setTrig x setindex
    { cmds := u.cmds ∪ {S}, options := f.options, delim := f.delim, pieces := f.pieces }
  addSetMessages f killindex setindex setexists setmod killmod
    { g := g, setmod := setmod, killmod := killmod }

/-- An addition without SET to an xecute string that has triggers. -/
def addNonSet (g : Gbl) (f : Fields) : Out :=
  let killindex := g.first f.xecute
  let t := g.trig f.xecute killindex
  let killmod : Bool := (computediff t.cmds f.nonSet).uniq2 ≠ ∅
  let killmod := if killmod = false then (computediff t.options f.options).differ else killmod
  let g := g.setTrig f.xecute killindex { t with options := f.options, cmds := t.cmds ∪ f.nonSet }
  let o : Out := { g := g, killmod := killmod }
  if killmod then o.writeModified .nonSet killindex else o.write (.present .nonSet killindex)

/-- An addition to an xecute string that has no trigger. -/
def create (g : Gbl) (f : Fields) : Out :=
  let g := { g with tncount := g.tncount + 1 }
  let killindex := g.seqnum + 1
  let g := { g with seqnum := killindex }
  let g := { g with tncount := killindex }
  let t : Trigger := { Trigger.none with options := f.options, cmds := f.nonSet }
  if f.setspecified then
    let t := { t with cmds := t.cmds ∪ {S}, delim := some f.delim, pieces := some f.pieces }
    let g := (g.setTrig f.xecute killindex t).setIndex f.xecute f.delim f.pieces killindex
    if f.killspecified then
      { g := g, setmod := true, killmod := true, written := [.added .both killindex], added := 1 }
    else { g := g, setmod := true, written := [.added .set killindex], added := 1 }
  else
    { g := g.setTrig f.xecute killindex t, killmod := true, added := 1
      written := [.added .nonSet killindex] }

/-! ## 3. Deletion -/

/-- The commands of a deletion are taken from the first trigger; `say` is whether it is written that
    it has none of them. -/
def touchKill (o : Out) (x : MStr) (killindex : Nat) (cmds : Finset MStr) (say : Bool) : Out :=
  let t := o.g.trig x killindex
  let common := (computediff t.cmds cmds).common
  if common ≠ ∅ then
    let o := { o with killmod := true }
    let rest := t.cmds \ common
    if rest ≠ ∅ then
      { o with g := o.g.setTrig x killindex { t with cmds := rest } }.writeModified .nonSet killindex
    else
      { o with g := (o.g.killTrig x killindex).hashtdecrement }.writeDeleted .nonSet killindex
  else if say then o.write (.notPresent .nonSet killindex) else o

/-- The SET trigger of a deletion, when it is not the first one. -/
def touchSet (o : Out) (f : Fields) (setindex : Nat) : Option Out :=
  let t := o.g.trig f.xecute setindex
  let common := (computediff t.cmds {S}).common
  -- unreachable
  if common = ∅ then none
  -- unreachable
  else if t.cmds \ common ≠ ∅ then none
  else
    let g := (o.g.killTrig f.xecute setindex).hashtdecrement
    let g := g.killIndex f.xecute f.delim f.pieces
    some ({ o with g := g, setmod := true }.writeDeleted .set setindex)

/-- A deletion with SET, when SET and KILL triggers are identical. -/
def touchBoth (g : Gbl) (f : Fields) (killindex : Nat) (setexists : Bool) : Out :=
  let x := f.xecute
  let t := g.trig x killindex
  let common := (computediff t.cmds (f.nonSet ∪ {S})).common
  if common ≠ ∅ then
    let rest := t.cmds \ common
    if rest ≠ ∅ then
      let g := g.setTrig x killindex { t with cmds := rest, pieces := none, delim := none }
      let g := g.killIndex x f.delim f.pieces
      { g := g, killmod := true : Out }.writeModified f.part killindex
    else
      let g := (g.killTrig x killindex).hashtdecrement
      let g := g.killIndex x f.delim f.pieces
      { g := g, killmod := true : Out }.writeDeleted f.part killindex
  else
    let o : Out := { g := g, setmod := setexists }
    if setexists then o.writeModified .set killindex
    else o.write (.notPresent (if f.killspecified then .both else .set) killindex)

/-- A deletion from an xecute string that has triggers. -/
def delete (g : Gbl) (f : Fields) : Option Out :=
  let killindex := g.first f.xecute
  if f.setspecified then
    if killindex ≠ g.setindex f then
      if g.setexists f = false then
        some ((touchKill { g := g } f.xecute killindex f.nonSet f.killspecified).write
          (.doesNotExist .set))
      else
        touchSet (touchKill { g := g } f.xecute killindex f.nonSet f.killspecified) f (g.setindex f)
    else some (touchBoth g f killindex (g.setexists f))
  else some (touchKill { g := g } f.xecute killindex f.nonSet true)

/-! ## 4. A line -/

/-- One turn of the loop over the lines, on the table of the line's global. -/
def load (g : Gbl) (f : Fields) : Option Out :=
  if f.add then
    if g.data f.xecute then
      some (if f.setspecified then addSet g f else addNonSet g f)
    else some (create g f)
  else if g.data f.xecute then delete g f
  else some ({ g := g : Out }.write (.doesNotExist f.part))

end YottaTest.Triggers
