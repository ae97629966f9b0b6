/-
  File:      YottaTest/Awk/Patterns.lean
  Subject:   gsub(), sub() and `~` with an expression given as text, and texts that look like 0.

  * `gsubText`, `gsubStatus`, `subText`, `matchesPattern` -- the functions;
  * `looksZero`, `truth` -- what a text that looks like a number counts as in a condition.
-/
import YottaTest.Awk.Regex

namespace YottaTest.Awk

/-! ## 1. Expressions given as text -/

/-- `gsub(pattern,new)`, the text after it. awk stops at an expression that cannot be read. -/
def gsubText (pattern new text : List Char) : List Char :=
  match ere pattern with
  | some r => gsub r new text
  | none => text

/-- `gsub(pattern,new)`, its result. -/
def gsubStatus (pattern text : List Char) : Nat :=
  match ere pattern with
  | some r => gsubCount r text
  | none => 0

def subText (pattern new text : List Char) : List Char :=
  match ere pattern with
  | some r => subFirst r new text
  | none => text

/-- `text ~ pattern` -/
def matchesPattern (pattern text : List Char) : Bool :=
  match ere pattern with
  | some r => matchesText r text
  | none => false

/-! ## 2. Texts that look like 0 -/

def zeroPattern : List Char := "^[ \t\n]*[-+]?(0+\\.?0*|\\.0+)([eE][-+]?[0-9]+)?[ \t\n]*$".toList

/-- A text that looks like the number 0. -/
def looksZero (text : List Char) : Bool := matchesPattern zeroPattern text

/-- What counts as true: a text that is not empty and does not look like 0. -/
def truth (text : List Char) : Bool := text ≠ [] && !looksZero text

example : looksZero " -0.0e5".toList = true := by decide +kernel
example : looksZero "01".toList = false := by decide +kernel

end YottaTest.Awk
