/-
  File:      YottaTest/Imptp/CheckDb.lean
  Subject:   checkdb, the program that verifies what imptp left in the database.

  The verdict is the number `fl` of failed comparisons. What a comparison prints is left out, and
  so is `skipreg`, which is 0 where nothing is skipped.

  * `compiter` -- the comparisons for a finished iteration;
  * `crashIter` -- those after a crash, where an iteration may have stopped at any stage;
  * `iterLoop`, `jobLoop` -- the loops over `^lasti` and the jobs, left after too many errors;
  * `nocrash`, `crash`, `crashztp`, `checkdb` -- the entry points;
  * `jobLoop_eq_zero` -- no failure is counted exactly when no iteration has one.
-/
import YottaTest.Imptp.Index
import YottaTest.Imptp.Worker

namespace YottaTest.Imptp

open YottaTest.Lib YottaTest.M

/-! ## 1. Comparisons -/

/-- The number of comparisons that fail. -/
def fails (checks : List Bool) : Nat := checks.count false

/-- `$GET(node)=s`. -/
def holds (d : Db) (n : GNode) (s : MStr) : Bool := (d.value n).toStr = s

section Iteration

variable (cfg : Config) (d : Db) (jobno I loop : Nat)

/-- The nine globals in the order checkdb names them. -/
def nine : List Gvn :=
  [.arandom, .brandomv, .crandomva, .drandomvariable, .erandomvariableimptp,
    .frandomvariableinimptp, .grandomvariableinimptpfill, .hrandomvariableinimptpfilling,
    .irandomvariableinimptpfillprgrm]

/-- "First tp": the nodes with one subscript. -/
def checkFirst : List Bool :=
  [holds d (strNode .arandom (cfg.subsMAX I)) (cfg.val loop),
    holds d (strNode .brandomv (cfg.subsMAX I)) (cfg.valALT loop),
    holds d (strNode .crandomva (cfg.subsMAX I)) (cfg.valALT loop),
    holds d (strNode .drandomvariable (cfg.subs I)) (cfg.valALT loop),
    holds d (strNode .erandomvariableimptp (cfg.subs I)) (cfg.valALT loop),
    holds d (strNode .frandomvariableinimptp (cfg.subs I)) (cfg.valALT loop),
    holds d (strNode .grandomvariableinimptpfill (cfg.subs I)) (cfg.val loop),
    holds d (strNode .hrandomvariableinimptpfilling (cfg.subs I)) (cfg.val loop),
    holds d (strNode .irandomvariableinimptpfillprgrm (cfg.subs I)) (cfg.val loop)]

/-- `$GET(^jrandomvariableinimptpfillprogram(fid,I))=""`, and the same under `(fid,I,I)`. -/
def checkJrandomNull : List Bool :=
  [holds d (numNode .jrandomvariableinimptpfillprogram I) [],
    holds d (numNumNode .jrandomvariableinimptpfillprogram I I) []]

/-- `$GET(^jrandomvariableinimptpfillprogram(fid,I,I,subs))=val`. -/
def checkJrandom : List Bool :=
  [holds d ⟨.jrandomvariableinimptpfillprogram, [.num I, .num I, .str (cfg.subs I)]⟩ (cfg.val loop)]

/-- The nine globals at the second subscript `J`. -/
def checkRow (J : Nat) (rval : MStr) : List Bool :=
  nine.map fun g => holds d (strNumNode g (cfg.subs I) J) rval

/-- `$DATA(...)=0` for the globals of stage 2. -/
def checkNtpNull : List Bool :=
  [!d.data (strNode .antp (cfg.subs I)), !d.data (strNode .bntp (cfg.subs I)),
    !d.data (strNode .cntp (cfg.subs I)), !d.data (strNode .dntp (cfg.subs I))]

/-- The globals of stage 3. -/
def checkNtp : List Bool :=
  [holds d (strNode .entp (cfg.subs I)) (cfg.val loop),
    holds d (strNode .fntp (cfg.subs I)) (cfg.val loop),
    holds d (strNode .gntp (cfg.subsMAX I)) (cfg.valMAX loop),
    holds d (strNode .hntp (cfg.subsMAX I)) (cfg.valMAX loop),
    holds d (strNode .intp (cfg.subsMAX I)) (cfg.valMAX loop)]

/-! ## 2. A finished iteration -/

/-- **`compiter`**: the failures of one iteration that ran to its end. -/
def compiter : Nat :=
  let targetpiece := cfg.targetpiece loop
  let valPIECE := Lib.setPiece bar (cfg.valPIECE loop) targetpiece
    (blanksToX (piece bar (cfg.valPIECE loop) targetpiece))
  fails <|
    checkFirst cfg d I loop ++ checkJrandomNull d I ++ checkJrandom cfg d I loop
      ++ ((List.range cfg.jobcnt).flatMap fun j =>
        checkRow cfg d I (j + 1) (if j + 1 = 1 then [] else cfg.valj loop (j + 1)))
      ++ checkNtpNull cfg d I ++ checkNtp cfg d I loop
      ++ [holds d (numNode .aspan I) valPIECE, holds d (numNode .bspan I) (dropBlanks valPIECE),
        piece bar (d.value (numNode .espan I)).toStr targetpiece = piece bar valPIECE targetpiece]

/-! ## 3. An iteration after a crash -/

/-- What stages 7 and 10 leave in `^aspan`, `^espan` and `^bspan`. In checkdb `stage(10,"espan")`
    stays undefined for target piece 0; no state of the three nodes gets to the comparison then. -/
structure StageValues where
  aspan7 : MStr
  espan7 : MStr
  bspan7 : MStr
  aspan10 : MStr
  espan10 : MStr
  bspan10 : MStr
  deriving DecidableEq, Repr

def stageValues : StageValues :=
  let valPIECE := cfg.valPIECE loop
  let targetpiece := cfg.targetpiece loop
  let replaced := blanksToX (piece bar valPIECE targetpiece)
  { aspan7 := valPIECE
    espan7 := valPIECE
    bspan7 := dropBlanks valPIECE
    aspan10 := Lib.setPiece bar valPIECE targetpiece replaced
    espan10 := Lib.setPiece bar [] targetpiece replaced
    bspan10 := dropBlanks (Lib.setPiece bar valPIECE targetpiece replaced) }

/-- "validate the last fully completed transaction": the cases in their order. -/
def spanOk (stage : StageValues) (aspan espan bspan : MStr) : Bool :=
  -- all are undefined
  if aspan = [] ∧ espan = [] ∧ bspan = [] then true
  -- stage 7 successful, or partial #1, #2; stage 10 partial #1
  else if aspan = stage.aspan7 ∧ aspan = espan ∧ stage.bspan7 = bspan then true
  else if aspan = stage.aspan7 ∧ espan = [] ∧ bspan = [] then true
  else if aspan = stage.aspan7 ∧ aspan = espan ∧ bspan = [] then true
  else if aspan = stage.aspan7 ∧ espan = [] ∧ stage.bspan7 = bspan then true
  -- "at this point Stage 7 is complete"
  else if aspan = stage.aspan7 then false
  -- stage 10 successful, or partial #2, #3
  else if aspan = stage.aspan10 ∧ espan = stage.espan10 ∧ bspan = stage.bspan10 then true
  else if aspan = stage.aspan10 ∧ espan = [] ∧ stage.bspan7 = bspan then true
  else if aspan = stage.aspan10 ∧ espan = stage.espan10 ∧ stage.bspan7 = bspan then true
  else false

/-- `$DATA(^andxarr(fid,jobno,loop))`. -/
def complete : Bool := d.data (numNumNode .andxarr jobno loop)

/-- `$ZPREVIOUS(global(fid,subs,""))`. -/
def lastJ (g : Gvn) : Option Nat := d.zprevious (strNode g (cfg.subs I))

/-- `+jmax`. -/
def jmax : Nat := if complete d jobno loop then cfg.jobcnt else (lastJ cfg d I .arandom).getD 0

/-- **The loop body of `crash`**: the failures of one iteration that may have been cut short. -/
def crashIter : Nat :=
  let complete := complete d jobno loop
  let jmax := jmax cfg d jobno I loop
  fails <|
    checkFirst cfg d I loop ++ checkJrandom cfg d I loop
      ++ (if complete then checkJrandomNull d I else [])
      -- verify TP partners
      ++ (if complete then []
        else nine.tail.map fun g => decide (lastJ cfg d I .arandom = lastJ cfg d I g))
      ++ ((List.range jmax).flatMap fun j =>
        checkRow cfg d I (j + 1)
          (if j + 1 = 1 ∧ (complete ∨ d.data (strNumNode .arandom (cfg.subs I) 1) = false) then []
            else cfg.valj loop (j + 1)))
      ++ (if complete then checkNtpNull cfg d I else [])
      ++ (if complete ∨ jmax ≠ 0 then checkNtp cfg d I loop else [])
      ++ (if complete then []
        else [spanOk (stageValues cfg loop) (d.value (numNode .aspan I)).toStr
          (d.value (numNode .espan I)).toStr (d.value (numNode .bspan I)).toStr])

/-- **The loop body of `crashztp`**: an iteration counts when all of stage 11 is there. -/
def crashztpIter : Nat :=
  if ([.andxarr, .bndxarr, .cndxarr, .dndxarr, .endxarr, .fndxarr, .gndxarr, .hndxarr,
      .indxarr] : List Gvn).all fun g => d.data (numNumNode g jobno loop)
  then compiter cfg d I loop else 0

end Iteration

/-! ## 4. The loops -/

/-- `set maxerr=10`. -/
def maxerr : Nat := 10

/-- `for loop=…: do  q:(fl>maxerr)`, with `set I=(I*nroot)#prime` at the end of the body: the
    next `n` loops. -/
def iterLoop (jobcnt : Nat) (iter : Nat → Nat → Nat) : Nat → Nat → Nat → Nat → Nat
  | 0, _, _, fl => fl
  | n + 1, loop, I, fl =>
      let fl := fl + iter I loop
      if fl > maxerr then fl else iterLoop jobcnt iter n (loop + 1) (nextI jobcnt I) fl

/-- `for jobno=…`, with `set ival=(ival*root)#prime` at the end of the body: the next `n` jobs. -/
def jobLoop (jobcnt : Nat) (loops : Nat → Nat) (iter : Nat → Nat → Nat → Nat) :
    Nat → Nat → Nat → Nat → Nat
  | 0, _, _, fl => fl
  | n + 1, jobno, ival, fl =>
      jobLoop jobcnt loops iter n (jobno + 1) (mulMod prime root ival)
        (iterLoop jobcnt (iter jobno) (loops jobno) 1 ival fl)

section Entry

variable (cfg : Config) (d : Db)

def nocrash : Nat :=
  jobLoop cfg.jobcnt (lastiOf d) (fun _ I loop => compiter cfg d I loop) cfg.jobcnt 1 1 0

def crash : Nat :=
  jobLoop cfg.jobcnt (lastiOf d) (fun jobno I loop => crashIter cfg d jobno I loop)
    cfg.jobcnt 1 1 0

def crashztp : Nat :=
  jobLoop cfg.jobcnt (fun jobno => lastiOf d jobno - 1)
    (fun jobno I loop => crashztpIter cfg d jobno I loop) cfg.jobcnt 1 1 0

/-- `set cntloop=cntloop+$GET(^lasti(fid,J))` over the jobs. -/
def sumLasti : Nat := ((List.range cfg.jobcnt).map fun j => lastiOf d (j + 1)).sum

/-- **`checkdb`**: the number of failures, `none` where it refuses to verify. "checkdb PASSED" is
    `some 0`. -/
def checkdb : Option Nat :=
  if cfg.jobcnt = 0 then none
  else if cfg.gtcm = 1 ∧ cfg.crash = 1 then none
  else
    let callcrash := if cfg.istp = 0 then 0 else cfg.crash
    let fl := if callcrash = 0 then nocrash cfg d
      else if cfg.istp = 2 then crashztp cfg d
      else crash cfg d
    some (if cfg.crash = 0 ∧ natStr (sumLasti cfg d) ≠ (d.value (topNode .cntloop)).toStr
      then fl + 1 else fl)

end Entry

/-! ## 5. When no failure is counted -/

section Zero

variable {jobcnt : Nat}

theorem fails_eq_zero {l : List Bool} : fails l = 0 ↔ ∀ b ∈ l, b = true := by
  rw [fails, List.count_eq_zero]
  constructor
  · intro h b hb
    cases b with
    | true => rfl
    | false => exact absurd hb h
  · exact fun h hm => absurd (h false hm) (by decide)

/-- The loop over the iterations `loop`, …, `loop + n - 1` counts no failure exactly when none of
    them has one. -/
theorem iterLoop_eq_zero (iter : Nat → Nat → Nat) : ∀ (n loop I fl : Nat),
    iterLoop jobcnt iter n loop I fl = 0 ↔
      fl = 0 ∧ ∀ i < n, iter ((nextI jobcnt)^[i] I) (loop + i) = 0
  | 0, loop, I, fl => by simp [iterLoop]
  | n + 1, loop, I, fl => by
      have ih := iterLoop_eq_zero iter n (loop + 1) (nextI jobcnt I) (fl + iter I loop)
      have hstep : iterLoop jobcnt iter (n + 1) loop I fl = 0 ↔
          fl + iter I loop = 0 ∧ iterLoop jobcnt iter n (loop + 1) (nextI jobcnt I)
            (fl + iter I loop) = 0 := by
        simp only [iterLoop]
        split
        · constructor
          · intro h
            omega
          · exact fun h => h.1
        · exact ⟨fun h => ⟨(ih.1 h).1, h⟩, fun h => h.2⟩
      rw [hstep, ih]
      constructor
      · rintro ⟨hfl, -, h⟩
        refine ⟨by omega, fun i hi => ?_⟩
        cases i with
        | zero =>
            show iter I loop = 0
            omega
        | succ i =>
            rw [Function.iterate_succ_apply]
            have := h i (by omega)
            rwa [Nat.add_right_comm loop 1 i] at this
      · rintro ⟨rfl, h⟩
        have h0 : iter I loop = 0 := h 0 (by omega)
        refine ⟨by omega, by omega, fun i hi => ?_⟩
        have := h (i + 1) (by omega)
        rw [Function.iterate_succ_apply] at this
        rwa [Nat.add_right_comm loop 1 i]

/-- **No failure is counted exactly when no iteration of a job up to its `^lasti` has one.** -/
theorem jobLoop_eq_zero (loops : Nat → Nat) (iter : Nat → Nat → Nat → Nat) :
    jobLoop jobcnt loops iter jobcnt 1 1 0 = 0 ↔
      ∀ jobno, 1 ≤ jobno → jobno ≤ jobcnt → ∀ loop, 1 ≤ loop → loop ≤ loops jobno →
        iter jobno (usedI jobcnt jobno loop) loop = 0 := by
  have hgen : ∀ (n jobno ival fl : Nat), jobLoop jobcnt loops iter n jobno ival fl = 0 ↔
      fl = 0 ∧ ∀ i < n, ∀ k < loops (jobno + i),
        iter (jobno + i) ((nextI jobcnt)^[k] ((mulMod prime root)^[i] ival)) (1 + k) = 0 := by
    intro n
    induction n with
    | zero => intro jobno ival fl; simp [jobLoop]
    | succ n ih =>
        intro jobno ival fl
        rw [jobLoop, ih, iterLoop_eq_zero]
        constructor
        · rintro ⟨⟨hfl, h0⟩, h⟩
          refine ⟨hfl, fun i hi k hk => ?_⟩
          cases i with
          | zero => exact h0 k hk
          | succ i =>
              have hj : jobno + (i + 1) = jobno + 1 + i := by omega
              rw [hj] at hk ⊢
              rw [Function.iterate_succ_apply]
              exact h i (by omega) k hk
        · rintro ⟨hfl, h⟩
          refine ⟨⟨hfl, fun k hk => h 0 (by omega) k hk⟩, fun i hi k hk => ?_⟩
          have hj : jobno + (i + 1) = jobno + 1 + i := by omega
          have := h (i + 1) (by omega) k (by rwa [hj])
          rwa [hj, Function.iterate_succ_apply] at this
  rw [hgen]
  have hused (i k : Nat) : (nextI jobcnt)^[k] ((mulMod prime root)^[i] 1)
      = usedI jobcnt (1 + i) (1 + k) := by
    have h1 : 1 + i - 1 = i := by omega
    have h2 : 1 + k - 1 = k := by omega
    simp only [usedI, restartI, firstI, h1, h2, Function.iterate_zero_apply]
  constructor
  · rintro ⟨-, h⟩ jobno h1 hj loop hl hlt
    obtain ⟨i, rfl⟩ := Nat.exists_eq_add_of_le h1
    obtain ⟨k, rfl⟩ := Nat.exists_eq_add_of_le hl
    rw [← hused]
    exact h i (by omega) k (by omega)
  · intro h
    refine ⟨rfl, fun i hi k hk => ?_⟩
    rw [hused]
    exact h (1 + i) (by omega) (by omega) (1 + k) (by omega) (by omega)

end Zero

end YottaTest.Imptp
