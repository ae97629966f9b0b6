/-
  File:      YottaTest/Go/ThreeEnp1.lean
  Subject:   threeenp1B1.go: the 3n+1 problem by goroutines that share `^limits`, `^step`, `^result`
             and `^highest`.

  A goroutine is modelled up to its next operation on the database; the operations are atomic, and
  so are the two transactions, at their commit.

  * `limits64`, `defineLimits` -- the blocks of a line, in int64 and without bounds; `Pc`, `act` --
    `doblk` and `dostep`, one operation at a time;
  * `Run`, `Prog`, `Step`, `Reach` -- the goroutines of a line, and the program line by line.

  `KeyT.Alloc(5, 1, 18)` leaves 18 bytes for the subscript of `^step`: a longer number panics, and
  a panic ends the process. So no number of the goroutines ever leaves the range of an int64. The sums
  that define the blocks can leave it, on lines with numbers near 2^63; `Line.blksize` and `launch` are for
  the other lines, where they agree with `Line.blk64` and `Line.limits64` (`launch_limits64`).
-/
import Mathlib.Algebra.GroupWithZero.Nat
import Mathlib.Logic.Function.Basic
import YottaTest.Lib.Orbit

namespace YottaTest.Go

open Function YottaTest.Lib

/-! ## 1. The database and the goroutines -/

structure Db where
  /-- `^limits(i)` -/
  limits : Nat → Option Nat
  /-- `^limits(i,1)`; 0 stands for a node that is not there. -/
  claims : Nat → Nat
  /-- `^step(n)` -/
  step : Nat → Option Nat
  result : Option Nat
  highest : Option Nat
  reads : Option Nat
  updates : Option Nat

/-- The locals `reads(index)`, `updates(index)` and `highest(index)` of a goroutine. -/
structure Local where
  reads : Nat
  updates : Nat
  highest : Nat
  deriving DecidableEq, Repr

/-- Where `dostep` is: the block, its end and the number in turn. -/
structure Work where
  index : Nat
  blkend : Nat
  current : Nat
  deriving DecidableEq, Repr

/-- The next operation of a goroutine, with the variables it still needs. -/
inductive Pc where
  /-- `index++`, `$DATA(^limits(index))` -/
  | scan (index : Nat)
  /-- `$INCREMENT(^limits(index,1))` -/
  | claim (index : Nat)
  /-- the value of `^limits(index)` -/
  | fetchEnd (index : Nat)
  /-- the value of `^limits(index-1)` -/
  | fetchStart (index blkend : Nat)
  /-- `$DATA(^step(n))`, in the loop over `i`; `path` is `currpath(index,0)` to `(index,i-1)` -/
  | probe (w : Work) (i n : Nat) (path : List Nat)
  /-- the value of `^step(n)` -/
  | fetchStep (w : Work) (i n : Nat) (path : List Nat)
  /-- the transaction on `^result` -/
  | tally (w : Work) (i : Nat) (path : List Nat)
  /-- the next subscript of `currpath(index)`, `k`, and `^step(currpath(index,k))=i-k` -/
  | write (w : Work) (i k : Nat) (rest : List Nat)
  /-- the last transaction -/
  | final
  | finished
  | panicked
  deriving DecidableEq, Repr

/-- The 3n+1 rules. -/
def collatz (n : Nat) : Nat := if n % 2 = 0 then n / 2 else 3 * n + 1

/-- The head of the loop over the numbers of a block. -/
def nextCurrent (w : Work) : Pc :=
  if w.current ≤ w.blkend then .probe w 0 w.current [] else .scan w.index

def Work.succ (w : Work) : Work := { w with current := w.current + 1 }

/-- One operation of a goroutine. -/
def act (db : Db) (l : Local) : Pc → Db × Local × Pc
  | .scan index =>
      (db, l, if (db.limits (index + 1)).isSome || db.claims (index + 1) ≠ 0
        then .claim (index + 1) else .final)
  | .claim index =>
      ({ db with claims := update db.claims index (db.claims index + 1) }, l,
        if db.claims index + 1 = 1 then .fetchEnd index else .scan index)
  | .fetchEnd index =>
      match db.limits index with
      | none => (db, l, .panicked)
      | some blkend =>
          (db, l, if index = 1 then nextCurrent ⟨index, blkend, 1⟩ else .fetchStart index blkend)
  | .fetchStart index blkend =>
      match db.limits (index - 1) with
      | none => (db, l, .panicked)
      | some blkstart => (db, l, nextCurrent ⟨index, blkend, blkstart + 1⟩)
  | .probe w i n path =>
      let l := { l with reads := l.reads + 1 }
      if 1000000000000000000 ≤ n then (db, l, .panicked)
      else if (db.step n).isSome ∨ n = 1 then
        (db, l, if i = 0 then nextCurrent w.succ
          else if 1 < n then .fetchStep w i n path else .tally w i path)
      else
        (db, { l with highest := if l.highest < collatz n then collatz n else l.highest },
          .probe w (i + 1) (collatz n) (path ++ [n]))
  | .fetchStep w i n path =>
      match db.step n with
      | none => (db, l, .panicked)
      | some stepval => (db, l, .tally w (i + stepval) path)
  | .tally w i path =>
      (if db.result.getD 0 < i then { db with result := some i } else db, l, .write w i 0 path)
  | .write w _ _ [] => (db, l, nextCurrent w.succ)
  | .write w i k (n :: rest) =>
      ({ db with step := update db.step n (some (i - k)) }, { l with updates := l.updates + 1 },
        .write w i (k + 1) rest)
  | .final =>
      ({ db with
          reads := some (db.reads.getD 0 + l.reads)
          updates := some (db.updates.getD 0 + l.updates)
          highest := if db.highest.getD 0 < l.highest then some l.highest else db.highest }, l,
        .finished)
  | .finished => (db, l, .finished)
  | .panicked => (db, l, .panicked)

/-- The block a goroutine is working on. -/
def Pc.block : Pc → Option Nat
  | .fetchEnd index | .fetchStart index _ => some index
  | .probe w .. | .fetchStep w .. | .tally w .. | .write w .. => some w.index
  | _ => none

/-- The block that is done with a step from the one to the other. -/
def completed (pc pc' : Pc) : Option Nat :=
  match pc' with
  | .scan _ => pc.block
  | _ => none

/-! ## 2. A line -/

/-- A line of the input; the defaults have been put in. -/
structure Line where
  endnum : Nat
  streams : Nat
  blk : Nat
  streams_pos : 0 < streams

/-- The variables of main are int64. -/
def Line.IsInt64 (l : Line) : Prop := l.endnum < 2 ^ 63 ∧ l.streams < 2 ^ 63 ∧ l.blk < 2 ^ 63

instance (l : Line) : Decidable l.IsInt64 :=
  inferInstanceAs (Decidable (l.endnum < 2 ^ 63 ∧ l.streams < 2 ^ 63 ∧ l.blk < 2 ^ 63))

/-- A sum in int64. -/
def int64 (n : Int) : Int := n.bmod (2 ^ 64)

/-- `blk`, after it has been reduced to the maximum for a stream. -/
def Line.blk64 (l : Line) : Int :=
  let maxblk := (int64 (l.endnum + (l.streams - 1))).tdiv l.streams
  if l.blk ≠ 0 ∧ (l.blk : Int) ≤ maxblk then l.blk else maxblk

/-- The loop that defines the blocks: `i`, `tmp`, and the subscript `limitsGbl` still has, which
    the last block takes. -/
def defineLimits64 (endnum blk : Int) : Nat → Nat → Int → Nat → (Nat → Option Int) → Option (Nat → Option Int)
  | 0, _, _, _, _ => none
  | turns + 1, i, tmp, sub, limits =>
      if tmp = endnum then some limits
      else if endnum < int64 (tmp + blk) then some (update limits sub (some endnum))
      else defineLimits64 endnum blk turns (i + 1) (int64 (tmp + blk)) i
        (update limits i (some (int64 (tmp + blk))))

/-- `^limits` of a line, if the loop ends within so many turns. -/
def Line.limits64 (l : Line) (turns : Nat) : Option (Nat → Option Int) :=
  defineLimits64 l.endnum l.blk64 turns 1 0 0 fun _ => none

/-- The size of a block, where nothing wraps around. -/
def Line.blksize (l : Line) : Nat :=
  let maxblk := (l.endnum + (l.streams - 1)) / l.streams
  if l.blk ≠ 0 ∧ l.blk ≤ maxblk then l.blk else maxblk

/-- The same loop, where nothing wraps around. -/
def defineLimits (endnum blk : Nat) : Nat → Nat → Nat → Nat → (Nat → Option Nat) →
    Nat → Option Nat
  | 0, _, _, _, limits => limits
  | turns + 1, i, tmp, sub, limits =>
      if tmp = endnum then limits
      else if endnum < tmp + blk then update limits sub (some endnum)
      else defineLimits endnum blk turns (i + 1) (tmp + blk) i (update limits i (some (tmp + blk)))

/-- The goroutines of a line while they run. -/
structure Run where
  db : Db
  loc : Nat → Local
  pc : Nat → Pc
  /-- Ghost: the blocks that are done, each with its goroutine. -/
  processed : List (Nat × Nat)

/-- The blocks are defined, and the goroutines released. -/
def launch (l : Line) (db : Db) : Run where
  db := { db with
    limits := defineLimits l.endnum l.blksize (l.endnum + 1) 1 0 0 fun _ => none
    claims := fun _ => 0 }
  loc _ := ⟨0, 0, 0⟩
  pc g := .scan g
  processed := []

/-- A goroutine does its next operation. -/
def Run.act (r : Run) (g : Nat) : Run :=
  let (db, l, pc) := Go.act r.db (r.loc g) (r.pc g)
  { db := db
    loc := update r.loc g l
    pc := update r.pc g pc
    processed := r.processed ++ (completed (r.pc g) pc).toList.map fun b => (b, g) }

/-! ## 3. The program -/

/-- The database is made ready for the next line. -/
def Db.reset (db : Db) : Db :=
  { db with highest := some 0, reads := some 0, result := some 0, updates := some 0
            step := fun _ => none }

/-- The kills at the beginning of the program. -/
def Db.afresh (db : Db) : Db :=
  { db with highest := none, reads := none, result := none, updates := none
            step := fun _ => none }

inductive Prog where
  /-- at the head of the loop over the lines -/
  | ready (db : Db)
  /-- waiting for the goroutines -/
  | running (l : Line) (r : Run)

inductive Step : Prog → Prog → Prop
  | line (db : Db) (l : Line) : Step (.ready db) (.running l (launch l db))
  | act {l : Line} {r : Run} {g : Nat} (hg : g < l.streams)
      (hpanic : ∀ g' < l.streams, r.pc g' ≠ .panicked) (hrun : r.pc g ≠ .finished) :
      Step (.running l r) (.running l (r.act g))
  | reset {l : Line} {r : Run} (hfinished : ∀ g < l.streams, r.pc g = .finished)
      (hresult : r.db.result.isSome) (hhighest : r.db.highest.isSome) :
      Step (.running l r) (.ready r.db.reset)

inductive Reach : Prog → Prop
  | start (db : Db) : Reach (.ready db.afresh)
  | step {p p' : Prog} (h : Reach p) (hs : Step p p') : Reach p'

end YottaTest.Go
