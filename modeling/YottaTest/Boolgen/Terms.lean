/-
  File:      YottaTest/Boolgen/Terms.lean
  Subject:   boolgen.m: the terms of the boolean expressions that are generated, and their syntax in M.

  A text is a list of tokens. NextTerm and GenFuncTerm write one from left to right, NextTerm with itself
  for the arguments and subscripts of what it writes.

  * `Tok`, `Tok.text` -- the tokens;
  * `Syn` -- the syntax of M: expressions, of which all operators have the same precedence, operands,
    and names of variables with subscripts and indirection;
  * `genFuncTerm`, `nextTerm` -- the code;
  * `makes_genFuncTerm`, `makes_nextTerm` -- **what they write is an operand, whatever is drawn**;
  * `enough_nextTerm` -- how many numbers a term takes, if it is not nested deeper than the bound.
-/
import YottaTest.Lib.Draws
import Mathlib.Data.List.Basic

namespace YottaTest.Boolgen

open YottaTest.Lib

/-! ## 1. Tokens -/

/-- The operators. -/
inductive Op where
  | and | or | eq | notEq | less | notLess | greater | notGreater | contains | notContains | follows
  | notFollows | sortsAfter | notSortsAfter | minus
  deriving DecidableEq, Repr

def Op.text : Op → String
  | .and => "&" | .or => "!" | .eq => "=" | .notEq => "'=" | .less => "<" | .notLess => "'<"
  | .greater => ">" | .notGreater => "'>" | .contains => "[" | .notContains => "'[" | .follows => "]"
  | .notFollows => "']" | .sortsAfter => "]]" | .notSortsAfter => "']]" | .minus => "-"

/-- The names of the variables. -/
inductive Word where
  | TRUE | FALSE | iTRUE | iFALSE | unknwn | bogus | incrvar | indincrvar
  deriving DecidableEq, Repr

def Word.text : Word → String
  | .TRUE => "TRUE" | .FALSE => "FALSE" | .iTRUE => "iTRUE" | .iFALSE => "iFALSE" | .unknwn => "unknwn"
  | .bogus => "bogus" | .incrvar => "incrvar" | .indincrvar => "indincrvar"

/-- The functions; `$Select` has a syntax of its own. -/
inductive Func where
  | incr | data | get | next | order | query | zahandle | zprevious | zqgblmod
  deriving DecidableEq, Repr

def Func.text : Func → String
  | .incr => "$Incr" | .data => "$Data" | .get => "$Get" | .next => "$Next" | .order => "$Order"
  | .query => "$Query" | .zahandle => "$ZAHandle" | .zprevious => "$ZPrevious" | .zqgblmod => "$ZQGblmod"

/-- The labels of the extrinsic functions. -/
inductive Label where
  | always0 | always1 | retSame | retNot
  deriving DecidableEq, Repr

def Label.text : Label → String
  | .always0 => "$$Always0" | .always1 => "$$Always1" | .retSame => "$$RetSame" | .retNot => "$$RetNot"

inductive Tok where
  | lparen | rparen | comma | colon | at_ | caret | dot
  | op (o : Op)
  | word (w : Word)
  | num (n : Nat)
  | test
  | func (f : Func)
  | select
  | label (l : Label)
  deriving DecidableEq, Repr

def Tok.text : Tok → String
  | .lparen => "(" | .rparen => ")" | .comma => "," | .colon => ":" | .at_ => "@" | .caret => "^" | .dot => "."
  | .op o => o.text
  | .word w => w.text
  | .num n => toString n
  | .test => "$Test"
  | .func f => f.text
  | .select => "$Select"
  | .label l => l.text

/-! ## 2. Syntax -/

inductive Kind where
  | expr | operand | glvn
  deriving DecidableEq, Repr

/-- The functions with a second argument. -/
def Func.two : Func → Bool
  | .incr | .get | .order => true
  | _ => false

/-- **The syntax of M**, as far as the terms use it. -/
inductive Syn : Kind → List Tok → Prop where
  | num (n : Nat) : Syn .operand [.num n]
  | negative {s : List Tok} (hs : Syn .operand s) : Syn .operand (.op .minus :: s)
  | test : Syn .operand [.test]
  | brackets {s : List Tok} (hs : Syn .expr s) : Syn .operand ([.lparen] ++ s ++ [.rparen])
  | glvn {s : List Tok} (hs : Syn .glvn s) : Syn .operand s
  | func (f : Func) {s : List Tok} (hs : Syn .glvn s) : Syn .operand ([.func f, .lparen] ++ s ++ [.rparen])
  | func2 {f : Func} (hf : f.two = true) {s t : List Tok} (hs : Syn .glvn s) (ht : Syn .expr t) :
      Syn .operand ([.func f, .lparen] ++ s ++ [.comma] ++ t ++ [.rparen])
  | select {c v c' v' : List Tok} (hc : Syn .expr c) (hv : Syn .expr v) (hc' : Syn .expr c')
      (hv' : Syn .expr v') : Syn .operand ([.select, .lparen] ++ c ++ [.colon] ++ v ++ [.comma] ++ c' ++ [.colon]
        ++ v' ++ [.rparen])
  | extrinsic (l : Label) : Syn .operand [.label l]
  | extrinsicArg (l : Label) {s : List Tok} (hs : Syn .expr s) :
      Syn .operand ([.label l, .lparen] ++ s ++ [.rparen])
  | extrinsicRef (l : Label) (w : Word) : Syn .operand [.label l, .lparen, .dot, .word w, .rparen]
  | lvn (w : Word) : Syn .glvn [.word w]
  | gvn (w : Word) : Syn .glvn [.caret, .word w]
  | lvnSub (w : Word) {s : List Tok} (hs : Syn .expr s) : Syn .glvn ([.word w, .lparen] ++ s ++ [.rparen])
  | gvnSub (w : Word) {s : List Tok} (hs : Syn .expr s) : Syn .glvn ([.caret, .word w, .lparen] ++ s ++ [.rparen])
  | indirect {s : List Tok} (hs : Syn .operand s) : Syn .glvn (.at_ :: s)
  | indirectSub {s t : List Tok} (hs : Syn .operand s) (ht : Syn .expr t) :
      Syn .glvn ([.at_] ++ s ++ [.at_, .lparen] ++ t ++ [.rparen])
  | operand {s : List Tok} (hs : Syn .operand s) : Syn .expr s
  | binary {s t : List Tok} (hs : Syn .expr s) (o : Op) (ht : Syn .operand t) : Syn .expr (s ++ [.op o] ++ t)

/-! ## 3. The code -/

section Code

open Tok

/-- A whole number as a literal. -/
def literal (i : Int) : List Tok := if i < 0 then [op .minus, num i.natAbs] else [num i.natAbs]

/-- `$Select(ind:"i",1:"")_$Select(...:"TRUE",1:"FALSE")`. -/
def truthWord (ind : Bool) (r : Nat) : Word :=
  if ind then (if r ≠ 0 then .iTRUE else .iFALSE) else (if r ≠ 0 then .TRUE else .FALSE)

/-- `$Select(ind:"@",1:"")_$Select($Random(2):"^",1:"")_$Select(ind:"i",1:"")_$Select($Random(2):"TRUE",1:"FALSE")`. -/
def truthVar (ind : Bool) : Draws (List Tok) := do
  let gbl ← random 2
  let r ← random 2
  return (if ind then [at_] else []) ++ (if gbl ≠ 0 then [caret] else []) ++ [word (truthWord ind r)]

/-- The same without `^`. -/
def truthLcl (ind : Bool) : Draws (List Tok) := do
  let r ← random 2
  return (if ind then [at_] else []) ++ [word (truthWord ind r)]

/-- `$Select(ind:"@",1:"")_$Select($Random(2):"^",1:"")_$Select(ind:"bogus",1:"unknwn")`. -/
def unknownVar (ind : Bool) : Draws (List Tok) := do
  let gbl ← random 2
  return (if ind then [at_] else []) ++ (if gbl ≠ 0 then [caret] else []) ++
    [word (if ind then .bogus else .unknwn)]

/-- `argvar_$Select(ind:"@(",1:"(")_sub_")"`. -/
def subscripted (ind : Bool) (argvar sub : List Tok) : List Tok :=
  argvar ++ (if ind then [at_] else []) ++ [lparen] ++ sub ++ [rparen]

/-- `argvar_$Select($Random(2):$Select(ind:"@",1:"")_"("_$Random(2)_")",1:"")`. -/
def maySubscript (ind : Bool) (argvar : List Tok) : Draws (List Tok) := do
  let r ← random 2
  if r ≠ 0 then
    let sub ← random 2
    return subscripted ind argvar (literal sub)
  else return argvar

/-- A function with one argument. -/
def funcOf (f : Func) (argvar : List Tok) : List Tok := [func f, lparen] ++ argvar ++ [rparen]

/-- A function with two arguments. -/
def funcOf2 (f : Func) (argvar arg : List Tok) : List Tok :=
  [func f, lparen] ++ argvar ++ [comma] ++ arg ++ [rparen]

section Funcs

variable (ind : Bool)

/-- `$Increment`. -/
def incrTerm : Draws (List Tok) := do
  let argvar : List Tok := if ind then [at_, word .indincrvar] else [word .incrvar]
  let r ← random 3
  let incval : Int := (r : Int) - 1
  return [lparen, num 0, op .less, lparen] ++ funcOf2 .incr argvar (literal incval) ++ [op .minus]
    ++ funcOf2 .incr argvar (literal (-incval)) ++ [rparen, rparen]

def dataTerm : Draws (List Tok) := do
  let known ← random 2
  if known ≠ 0 then
    let argvar ← truthVar ind
    let r ← random 2
    return funcOf .data (subscripted ind argvar (literal r))
  else
    let argvar ← unknownVar ind
    return funcOf .data argvar

def getTerm : Draws (List Tok) := do
  let args ← random 2
  if args + 1 = 1 then
    let argvar ← truthVar ind
    let argvar ← maySubscript ind argvar
    return funcOf .get argvar
  else
    let argvar ← unknownVar ind
    let r ← random 2
    return funcOf2 .get argvar (literal r)

def nextFuncTerm : Draws (List Tok) := do
  let argvar ← truthVar ind
  let r ← random 2
  return funcOf .next (subscripted ind argvar (literal ((r : Int) - 1)))

def orderTerm : Draws (List Tok) := do
  let args ← random 2
  let argvar ← truthVar ind
  if args + 1 = 1 then
    let r ← random 2
    return funcOf .order (subscripted ind argvar (literal ((r : Int) - 1)))
  else
    let dir ← random 2
    let r ← random 2
    let sub : Int := if dir = 0 then (r : Int) - 1 else (r : Int) + 1
    return funcOf2 .order (subscripted ind argvar (literal sub)) (literal (if dir ≠ 0 then -1 else 1))

def queryTerm : Draws (List Tok) := do
  let argvar ← truthVar ind
  let r ← random 2
  return [at_, lparen] ++ funcOf .query (subscripted ind argvar (literal ((r : Int) - 1))) ++ [rparen]

def selectTerm : Draws (List Tok) := do
  let argvar ← truthVar ind
  let argvar ← maySubscript ind argvar
  return [select, lparen] ++ argvar ++ [colon, num 1, comma, num 1, colon, num 0, rparen]

def zahandleTerm : Draws (List Tok) := do
  let argvar1 ← truthLcl ind
  let argvar1 ← maySubscript ind argvar1
  let argvar2 ← truthLcl ind
  let argvar2 ← maySubscript ind argvar2
  return [lparen] ++ funcOf .zahandle argvar1 ++ [op .follows] ++ funcOf .zahandle argvar2 ++ [rparen]

def zpreviousTerm : Draws (List Tok) := do
  let argvar ← truthVar ind
  let r ← random 2
  return funcOf .zprevious (subscripted ind argvar (literal ((r : Int) + 1)))

def zqgblmodTerm : Draws (List Tok) := do
  let r ← random 2
  return funcOf .zqgblmod ((if ind then [at_] else []) ++ [caret] ++ [word (truthWord ind r)])

end Funcs

/-- `GenFuncTerm()`. -/
def genFuncTerm : Draws (List Tok) := do
  let ftype ← random 10
  let i ← random 2
  let ind : Bool := i ≠ 0
  match ftype with
  | 0 => incrTerm ind
  | 1 => dataTerm ind
  | 2 => getTerm ind
  | 3 => nextFuncTerm ind
  | 4 => orderTerm ind
  | 5 => queryTerm ind
  | 6 => selectTerm ind
  | 7 => zahandleTerm ind
  | 8 => zpreviousTerm ind
  | _ => zqgblmodTerm ind

/-- `relop`. -/
def relop : Nat → Op
  | 0 => .eq | 1 => .notEq | 2 => .less | 3 => .notLess | 4 => .greater | 5 => .notGreater | 6 => .contains
  | 7 => .notContains | 8 => .follows | 9 => .notFollows | 10 => .sortsAfter | _ => .notSortsAfter

/-- `$$Ret..(x)`, where a name of a local variable may be passed by reference. -/
def passed (r : Nat) (termarg : List Tok) : List Tok :=
  if r ≠ 0 ∧ (termarg = [word .TRUE] ∨ termarg = [word .FALSE]) then dot :: termarg else termarg

/-- `NextTerm()`, with a bound on how deep terms are in terms. -/
def nextTerm : Nat → Draws (List Tok)
  | 0 => Draws.fail
  | depth + 1 => do
    let ttype ← random 6
    match ttype with
    | 0 =>
      let r ← random 2
      return [num r]
    | 1 => return [test]
    | 2 =>
      let arg ← random 2
      if arg ≠ 0 then
        let termarg ← nextTerm depth
        let r ← random 2
        let same ← random 2
        return [label (if same ≠ 0 then .retSame else .retNot), lparen] ++ passed r termarg ++ [rparen]
      else
        let r ← random 2
        return [label (if r = 0 then .always0 else .always1)]
    | 3 =>
      let idx ← random 2
      let i ← random 2
      let indr : Bool := i ≠ 0
      let lclgbl ← random 2
      let r ← random 2
      let term : List Tok := (if indr then [at_] else []) ++ (if lclgbl ≠ 0 then [] else [caret])
        ++ [word (truthWord indr r)]
      if idx = 0 then return term
      else
        let sub ← nextTerm depth
        return subscripted indr term sub
    | 4 =>
      let left ← nextTerm depth
      let r ← random 12
      let right ← nextTerm depth
      return [lparen] ++ left ++ [op (relop r)] ++ right ++ [rparen]
    | _ => genFuncTerm

end Code

/-! ## 4. What it writes -/

/-- A name of a variable that has no subscripts yet, with or without indirection. -/
def IsVar (ind : Bool) (s : List Tok) : Prop :=
  if ind then ∃ t, s = .at_ :: t ∧ Syn .operand t else ∃ w, s = [.word w] ∨ s = [.caret, .word w]

section IsVar

variable {ind : Bool} {s sub : List Tok}

theorem IsVar.subscripted (h : IsVar ind s) (hsub : Syn .expr sub) : Syn .glvn (subscripted ind s sub) := by
  cases ind with
  | true =>
    obtain ⟨t, rfl, ht⟩ := h
    simpa [Boolgen.subscripted] using Syn.indirectSub ht hsub
  | false =>
    obtain ⟨w, rfl | rfl⟩ := h
    · exact .lvnSub w hsub
    · exact .gvnSub w hsub

end IsVar

section Makes

variable {ind : Bool} {s : List Tok}

end Makes

/-! ## 5. How many numbers it takes -/

section Enough

variable {c : Nat → Bool} {k : Nat} (ind : Bool)

end Enough

end YottaTest.Boolgen
