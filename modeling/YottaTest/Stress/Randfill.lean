/-
  File:      YottaTest/Stress/Randfill.lean
  Subject:   initdat.m, randfill.m and m_filling_randfill of simpleapi_run_concurr.c.

  * `Table`, `initdat` -- the primes and their roots; `initdat_isGenerator`;
  * `Glob`, `Node` -- the nodes that are filled; `Cfg` -- what does not change during a run;
  * `exam`, `Act.on` -- what is done with one node; `forIndex` -- the loop over the indices;
  * `filling`, `mFillingRandfill` -- the routine in M and in C, which differ in the order of the
    globals only.

  `^prime`, `^root`, `^cust`, `^instance` and `^PID` are set before the jobs are let go, and only
  read from then on. The ZWRITE of `^cust` to files is left out.
-/
import Mathlib.Data.List.GetD
import Mathlib.Tactic.NormNum.Prime
import YottaTest.Lib.Cycle
import YottaTest.Lib.Shared

namespace YottaTest.Stress

open YottaTest.Lib

/-! ## 1. initdat -/

/-- `^prime` and `^root(1)` to `^root(10)`. -/
structure Table where
  prime : Nat
  roots : List Nat
  deriving DecidableEq

/-- `^root(pno)` -/
def Table.root (t : Table) (pno : Nat) : Nat := t.roots.getD (pno - 1) 0

def lsmall : Table := ⟨53, [2, 3, 5, 8, 12, 14, 18, 19, 20, 21]⟩
def lmid : Table := ⟨101, [11, 12, 15, 18, 26, 27, 28, 29, 34, 35]⟩
def lbig : Table := ⟨503, [20, 29, 30, 31, 34, 35, 37, 38, 40, 41]⟩
def lhuge : Table := ⟨1009, [22, 26, 31, 33, 34, 38, 46, 51, 52, 53]⟩
def small : Table := ⟨2503, [203, 205, 208, 212, 217, 220, 221, 224, 226, 228]⟩
def mid : Table := ⟨5003, [500, 502, 504, 505, 506, 508, 509, 510, 511, 512]⟩
def big : Table := ⟨8009, [502, 506, 509, 510, 511, 515, 516, 518, 519, 524]⟩
def huge : Table := ⟨20011, [131, 132, 138, 147, 148, 155, 157, 161, 162, 166]⟩

def initdat : List Table := [lsmall, lmid, lbig, lhuge, small, mid, big, huge]

/-- The tables with the prime factors of `prime-1`. -/
def factored : List (Table × List Nat) :=
  [(lsmall, [2, 2, 13]), (lmid, [2, 2, 5, 5]), (lbig, [2, 251]), (lhuge, [2, 2, 2, 2, 3, 3, 7]),
    (small, [2, 3, 3, 139]), (mid, [2, 41, 61]), (big, [2, 2, 2, 7, 11, 13]),
    (huge, [2, 3, 5, 23, 29])]

theorem Table.root_mem {t : Table} (ht : t.roots.length = 10) {pno : Nat} (h : pno < 11) :
    t.root pno ∈ t.roots := by
  rw [Table.root, List.getD_eq_getElem _ _ (by omega)]
  exact List.getElem_mem _

theorem initdat_length {t : Table} (ht : t ∈ initdat) : t.roots.length = 10 := by
  revert t
  decide

theorem factored_prime : ∀ tq ∈ factored, ∀ q ∈ tq.2, q.Prime := by
  simp only [factored, List.forall_mem_cons, List.not_mem_nil, false_implies, implies_true,
    and_true]
  norm_num

/-- **Every root of every table generates all indices.** -/
theorem initdat_isGenerator {t : Table} (ht : t ∈ initdat) {g : Nat} (hg : g ∈ t.roots) :
    IsGenerator t.prime g := by
  have hcheck : ∀ tq ∈ factored, 2 ≤ tq.1.prime ∧ tq.1.prime ≤ 2 ^ 15 ∧
      tq.2.prod = tq.1.prime - 1 ∧ ∀ g ∈ tq.1.roots,
        powMod tq.1.prime 15 g (tq.1.prime - 1) 1 = 1 ∧
          ∀ q ∈ tq.2, powMod tq.1.prime 15 g ((tq.1.prime - 1) / q) 1 ≠ 1 := by
    decide
  have hmem : t ∈ factored.map Prod.fst := ht
  obtain ⟨⟨_, qs⟩, hq, rfl⟩ := List.mem_map.mp hmem
  obtain ⟨hp, hbits, hprod, hroots⟩ := hcheck _ hq
  exact isGenerator_of_prod 15 qs hp hbits (factored_prime _ hq) hprod (hroots g hg).1
    (hroots g hg).2

/-! ## 2. The nodes -/

/-- The globals that are filled. -/
inductive Glob where
  | afill | e | cfill | dfill | efill | ffill
  /-- `^%1` -/
  | pct1
  | b
  /-- `^bbbbbbbbbbbbbbbbbbbbbbbbbbbbbbb` -/
  | bb
  deriving DecidableEq, Repr

/-- The global has a node for each process, with `^PID(jobno,^instance)` as a subscript. -/
def Glob.own : Glob → Bool
  | .efill | .pct1 | .b | .bb => true
  | _ => false

/-- `^glob(ndx,obj,iter)` or `^glob(ndx,obj,pid,iter)` -/
structure Node where
  glob : Glob
  ndx : Nat
  obj : String
  pid : Option Nat
  iter : Nat
  deriving DecidableEq, Repr

/-- What does not change during a run. -/
structure Cfg where
  table : Table
  /-- `^cust(ndx,^instance)` -/
  cust : Nat → String
  /-- `^PID(jobno,^instance)` -/
  pid : Nat → Nat
  /-- No two processes have one number at a time. -/
  pid_inj : ∀ {j k : Nat}, pid j = pid k → j = k
  iterate : Nat

def Cfg.node (c : Cfg) (jobno iter ndx : Nat) (g : Glob) : Node :=
  ⟨g, ndx, c.cust ndx, if g.own then some (c.pid jobno) else none, iter⟩

/-- What a job is to find in a node. -/
def Cfg.correct (c : Cfg) (ndx : Nat) (g : Glob) : Nat := if g.own then c.table.prime else ndx

/-! ## 3. The routine -/

inductive Act where
  | set
  | kill
  | ver
  deriving DecidableEq, Repr

/-- What the routine writes to its device, and the error it may run into. -/
inductive Report where
  /-- `** FAIL verifying global`, with the node, `CORRECT` and `COMPUTED` -/
  | exam (pos : Node) (vcorr vcomp : Nat)
  /-- the act and `FAIL` -/
  | fail (act : Act)
  /-- a read of an undefined node -/
  | gvundef (pos : Node)
  deriving DecidableEq, Repr

/-- EXAM: the number of errors so far. -/
def exam (pos : Node) (vcorr err : Nat) : Prog Node Nat Report Nat := do
  match ← Prog.get pos with
  | none => .stop (.gvundef pos)
  | some vcomp =>
      if vcorr = vcomp then
        pure err
      else
        Prog.say (.exam pos vcorr vcomp)
        pure (err + 1)

/-- What is done with one global at one index. -/
def Act.on (c : Cfg) (jobno iter : Nat) (act : Act) (ndx : Nat) (g : Glob) (err : Nat) :
    Prog Node Nat Report Nat :=
  let pos := c.node jobno iter ndx g
  match act with
  | .set =>
      if g.own then do
        let v ← Prog.get pos
        Prog.set pos (v.getD 0 + c.table.prime)
        pure err
      else do
        Prog.set pos ndx
        pure err
  | .kill => do
      Prog.kill pos
      pure err
  | .ver => exam pos (c.correct ndx g) err

/-- The globals at one index, in turn. -/
def forGlobs (on : Glob → Nat → Prog Node Nat Report Nat) : List Glob → Nat →
    Prog Node Nat Report Nat
  | [], err => pure err
  | g :: globs, err => do
      let err ← on g err
      forGlobs on globs err

def maxErr : Nat := 10

/-- The loop over the indices; it is left with more than `MAXERR` errors. -/
def forIndex (prime root : Nat) (body : Nat → Nat → Prog Node Nat Report Nat) : Nat → Nat → Nat →
    Prog Node Nat Report Nat
  | 0, _, err => pure err
  | turns + 1, ndx, err => do
      let err ← body ndx err
      if maxErr < err then
        pure err
      else
        forIndex prime root body turns (ndx * root % prime) err

/-- The routine for the globals in a given order. -/
def fillingOf (globs : List Glob) (c : Cfg) (jobno : Nat) (act : Act) (root iter : Nat) :
    Prog Node Nat Report Unit := do
  let err ← forIndex c.table.prime root (fun ndx => forGlobs (act.on c jobno iter ndx) globs)
    (c.table.prime - 1) 1 0
  if err ≠ 0 then
    Prog.say (.fail act)

/-- filling^randfill -/
def filling : Cfg → Nat → Act → Nat → Nat → Prog Node Nat Report Unit :=
  fillingOf [.afill, .e, .cfill, .dfill, .efill, .ffill, .pct1, .b, .bb]

/-- m_filling_randfill -/
def mFillingRandfill : Cfg → Nat → Act → Nat → Nat → Prog Node Nat Report Unit :=
  fillingOf [.afill, .e, .cfill, .dfill, .ffill, .efill, .pct1, .b, .bb]

/-- The two implementations of the jobs. -/
inductive Impl where
  | m
  | simpleApi
  deriving DecidableEq, Repr

def Impl.globs : Impl → List Glob
  | .m => [.afill, .e, .cfill, .dfill, .efill, .ffill, .pct1, .b, .bb]
  | .simpleApi => [.afill, .e, .cfill, .dfill, .ffill, .efill, .pct1, .b, .bb]

def Impl.filling : Impl → Cfg → Nat → Act → Nat → Nat → Prog Node Nat Report Unit
  | .m => Stress.filling
  | .simpleApi => mFillingRandfill

theorem Impl.filling_eq (impl : Impl) : impl.filling = fillingOf impl.globs := by
  cases impl
  · rfl
  · rfl

theorem Impl.mem_globs (impl : Impl) (g : Glob) : g ∈ impl.globs := by
  cases impl
  · cases g <;> decide
  · cases g <;> decide

theorem Impl.nodup_globs (impl : Impl) : impl.globs.Nodup := by
  cases impl
  · decide
  · decide

/-- randfill -/
def randfill (impl : Impl) (c : Cfg) (jobno : Nat) (act : Act) (pno iter : Nat) :
    Prog Node Nat Report Unit :=
  impl.filling c jobno act (c.table.root pno) iter

end YottaTest.Stress
