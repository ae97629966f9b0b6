/-
  File:      YottaTest/Imptp/System.lean
  Subject:   Runs of imptp: the parent, the jobs and what interrupts them, in any interleaving.

  A job between two of its steps is known by its loop number, its index and the steps it has yet
  to do; everything else is in the database. Runs are sequences of events, one step of one party
  at a time.

  * `Sys`, `Event`, `step` -- the state and what an event does to it;
  * `Reach` -- the states of the runs whose every event meets a condition on the state before it;
  * `JobOk`, `jobsOk_of_reach` -- a running job is in some iteration of its own, at the index that
    iteration uses, with a last part of its steps to do.
-/
import YottaTest.Imptp.Outline
import YottaTest.Imptp.Index
import Mathlib.Logic.Function.Basic
import Mathlib.Algebra.BigOperators.Group.List.Basic

namespace YottaTest.Imptp

open YottaTest.Lib YottaTest.M

/-! ## 1. The system -/

/-- A job: not there, or in the middle of iteration `loop`. -/
inductive JobState where
  | idle
  | running (loop I : Nat) (rest : List (List Cmd))
  deriving DecidableEq, Repr

/-- The database, and the jobs by number. -/
structure Sys where
  db : Db
  jobs : Nat → JobState

/-- What can happen next. The random numbers of an iteration come with the event that begins it. -/
inductive Event where
  /-- The parent, `imptp^imptp`, before it starts the jobs. -/
  | parent
  /-- A job is started. -/
  | launch (jobno : Nat) (ch : Chance)
  /-- A job does its next step. -/
  | exec (jobno : Nat)
  /-- A job is at the end of its loop body. -/
  | next (jobno : Nat) (ch : Chance)
  /-- A job is killed. -/
  | crash (jobno : Nat)
  /-- `endtp` asks all jobs to stop. -/
  | endtp
  deriving DecidableEq, Repr

/-- The parent's initialization of what the jobs share. -/
def parentSetup (d : Db) : Db :=
  let d : Db := d.set (topNode .endloop) (.num 0)
  let d : Db := if DB.data d (topNode .cntloop) then d else d.set (topNode .cntloop) (.num 0)
  if DB.data d (topNode .cntseq) then d else d.set (topNode .cntseq) (.num 0)

/-- The system before anything has run. -/
def Sys.start : Sys := ⟨parentSetup Table.empty, fun _ => .idle⟩

section System

variable (cfg : Config) (preset : Nat)

/-- Iteration `loop` of job `jobno` is about to begin. -/
def beginLoop (jobno loop I : Nat) (ch : Chance) : JobState :=
  .running loop I (steps (iteration cfg jobno loop I ch))

/-- What an event does; `none` when it cannot happen. -/
def step : Event → Sys → Option Sys
  | .parent, s => some { s with db := parentSetup s.db }
  | .launch jobno ch, s =>
      match s.jobs jobno with
      | .idle =>
          let lasti := lastiOf s.db jobno
          -- `for loop=lasti+1:1:top`
          if 1 ≤ jobno ∧ jobno ≤ cfg.jobcnt ∧ lasti + 1 ≤ top preset cfg.jobcnt then
            some { s with
              jobs := Function.update s.jobs jobno
                (beginLoop cfg jobno (lasti + 1) (restartI cfg.jobcnt jobno lasti) ch) }
          else none
      | .running _ _ _ => none
  | .exec jobno, s =>
      match s.jobs jobno with
      | .running loop I (cs :: rest) =>
          some ⟨run Cmd.exec cs s.db, Function.update s.jobs jobno (.running loop I rest)⟩
      | _ => none
  | .next jobno ch, s =>
      match s.jobs jobno with
      | .running loop I [] =>
          -- `quit:$get(^endloop(fillid),0)`, else the next loop number up to `top`
          if (s.db.value (topNode .endloop)).toNat ≠ 0 ∨ top preset cfg.jobcnt ≤ loop then
            some { s with jobs := Function.update s.jobs jobno .idle }
          else
            some { s with
              jobs := Function.update s.jobs jobno
                (beginLoop cfg jobno (loop + 1) (nextI cfg.jobcnt I) ch) }
      | _ => none
  | .crash jobno, s =>
      match s.jobs jobno with
      | .running _ _ _ => some { s with jobs := Function.update s.jobs jobno .idle }
      | .idle => none
  | .endtp, s => some { s with db := s.db.set (topNode .endloop) (.num 1) }

/-- The states reached by events that meet `P` where they happen. -/
inductive Reach (P : Sys → Event → Prop) : Sys → Prop where
  | start : Reach P Sys.start
  | step {s s' : Sys} {e : Event} : Reach P s → P s e → step cfg preset e s = some s' → Reach P s'

end System

/-! ## 2. What an event can do -/

section Cases

variable {cfg : Config} {preset : Nat} {s s' : Sys}

/-- The job table with one job changed. -/
abbrev Sys.put (s : Sys) (jobno : Nat) (js : JobState) : Sys :=
  { s with jobs := Function.update s.jobs jobno js }

theorem Sys.put_self (s : Sys) (jobno : Nat) (js : JobState) : (s.put jobno js).jobs jobno = js :=
  Function.update_self jobno js s.jobs

theorem Sys.put_of_ne (s : Sys) {j jobno : Nat} (hj : j ≠ jobno) (js : JobState) :
    (s.put jobno js).jobs j = s.jobs j := Function.update_of_ne hj js s.jobs

/-- **All that an event can do**, by event. -/
inductive StepTo (cfg : Config) (preset : Nat) (s : Sys) : Event → Sys → Prop where
  | parent : StepTo cfg preset s .parent { s with db := parentSetup s.db }
  | launch {jobno ch} (hj : 1 ≤ jobno ∧ jobno ≤ cfg.jobcnt) (hidle : s.jobs jobno = .idle)
      (htop : lastiOf s.db jobno + 1 ≤ top preset cfg.jobcnt) :
      StepTo cfg preset s (.launch jobno ch) (s.put jobno
        (beginLoop cfg jobno (lastiOf s.db jobno + 1)
          (restartI cfg.jobcnt jobno (lastiOf s.db jobno)) ch))
  | exec {jobno loop I cs rest} (hrun : s.jobs jobno = .running loop I (cs :: rest)) :
      StepTo cfg preset s (.exec jobno)
        ⟨run Cmd.exec cs s.db, Function.update s.jobs jobno (.running loop I rest)⟩
  | stop {jobno ch loop I} (hrun : s.jobs jobno = .running loop I []) :
      StepTo cfg preset s (.next jobno ch) (s.put jobno .idle)
  | next {jobno ch loop I} (hrun : s.jobs jobno = .running loop I [])
      (hend : (s.db.value (topNode .endloop)).toNat = 0) (htop : loop < top preset cfg.jobcnt) :
      StepTo cfg preset s (.next jobno ch)
        (s.put jobno (beginLoop cfg jobno (loop + 1) (nextI cfg.jobcnt I) ch))
  | crash {jobno loop I rest} (hrun : s.jobs jobno = .running loop I rest) :
      StepTo cfg preset s (.crash jobno) (s.put jobno .idle)
  | endtp : StepTo cfg preset s .endtp { s with db := s.db.set (topNode .endloop) (.num 1) }

theorem stepTo_of_step {e : Event} (h : step cfg preset e s = some s') :
    StepTo cfg preset s e s' := by
  cases e with
  | parent =>
      obtain rfl := Option.some.inj h
      exact .parent
  | launch jobno ch =>
      simp only [step] at h
      split at h
      · rename_i hidle
        split at h
        · rename_i hc
          obtain rfl := Option.some.inj h
          exact .launch ⟨hc.1, hc.2.1⟩ hidle hc.2.2
        · cases h
      · cases h
  | exec jobno =>
      simp only [step] at h
      split at h
      · rename_i hrun
        obtain rfl := Option.some.inj h
        exact .exec hrun
      · cases h
  | next jobno ch =>
      simp only [step] at h
      split at h
      · rename_i hrun
        split at h
        · obtain rfl := Option.some.inj h
          exact .stop hrun
        · rename_i hgo
          obtain rfl := Option.some.inj h
          exact .next hrun (by omega) (by omega)
      · cases h
  | crash jobno =>
      simp only [step] at h
      split at h
      · rename_i hrun
        obtain rfl := Option.some.inj h
        exact .crash hrun
      · cases h
  | endtp =>
      obtain rfl := Option.some.inj h
      exact .endtp

theorem Reach.mono {P Q : Sys → Event → Prop} (hPQ : ∀ s e, P s e → Q s e)
    (h : Reach cfg preset P s) : Reach cfg preset Q s := by
  induction h with
  | start => exact .start
  | step _ hp hs ih => exact .step ih (hPQ _ _ hp) hs

end Cases

/-! ## 3. Running jobs -/

/-- Iteration `loop` of a job, below the cycle length of the index. -/
structure InRange (cfg : Config) (jobno loop : Nat) : Prop where
  job : 1 ≤ jobno ∧ jobno ≤ cfg.jobcnt
  loop_pos : 1 ≤ loop
  cycle : exponent cfg.jobcnt jobno loop < prime - 1

/-- The own nodes of an iteration. -/
abbrev OwnOf (cfg : Config) (jobno loop : Nat) : GNode → Prop :=
  Own cfg jobno loop (usedI cfg.jobcnt jobno loop)

/-- An iteration of a job at its index. -/
abbrev jobIteration (cfg : Config) (jobno loop : Nat) (ch : Chance) : List Stage :=
  iteration cfg jobno loop (usedI cfg.jobcnt jobno loop) ch

theorem usedI_ne_zero (jobcnt jobno loop : Nat) : usedI jobcnt jobno loop ≠ 0 :=
  Nat.pos_iff_ne_zero.1 (usedI_pos jobcnt jobno loop)

/-- Two iterations in range have no own node in common. -/
theorem InRange.disjoint {cfg : Config} {j n j' n' : Nat} (h : InRange cfg j n)
    (h' : InRange cfg j' n') {k : GNode} (hk : OwnOf cfg j n k) (hk' : OwnOf cfg j' n' k) :
    j = j' ∧ n = n' :=
  own_disjoint (usedI_ne_zero _ _ _) (usedI_ne_zero _ _ _)
    (usedI_inj h.job h.loop_pos h'.job h'.loop_pos h.cycle h'.cycle) hk hk'

/-- The event begins no iteration at or past the cycle length of the index. -/
def InCycle (cfg : Config) (preset : Nat) (s : Sys) : Event → Prop
  | .launch jobno _ => exponent cfg.jobcnt jobno (lastiOf s.db jobno + 1) < prime - 1
  | .next jobno _ => ∀ loop I, s.jobs jobno = .running loop I [] →
      (s.db.value (topNode .endloop)).toNat = 0 → loop < top preset cfg.jobcnt →
      exponent cfg.jobcnt jobno (loop + 1) < prime - 1
  | _ => True

/-- A running job is in an iteration of its own. -/
structure JobOk (cfg : Config) (jobno loop I : Nat) (rest : List (List Cmd)) : Prop where
  range : InRange cfg jobno loop
  index : I = usedI cfg.jobcnt jobno loop
  tail : ∃ ch pre, pre ++ rest = steps (iteration cfg jobno loop I ch)

/-- All running jobs are. -/
def JobsOk (cfg : Config) (s : Sys) : Prop :=
  ∀ jobno loop I rest, s.jobs jobno = .running loop I rest → JobOk cfg jobno loop I rest

section JobsOk

variable {cfg : Config} {preset : Nat} {s : Sys}

theorem jobOk_begin {jobno loop : Nat} {ch : Chance} (h : InRange cfg jobno loop) :
    JobOk cfg jobno loop (usedI cfg.jobcnt jobno loop)
      (steps (iteration cfg jobno loop (usedI cfg.jobcnt jobno loop) ch)) :=
  ⟨h, rfl, ch, [], rfl⟩

/-- A job table with one job changed, job by job. -/
theorem put_cases {Q : Nat → JobState → Prop} {jobs : Nat → JobState} {jobno : Nat}
    {js : JobState} (h : ∀ j, Q j (jobs j)) (hj : Q jobno js) :
    ∀ j, Q j (Function.update jobs jobno js j) := by
  intro j
  by_cases hne : j = jobno
  · subst hne
    rw [Function.update_self]
    exact hj
  · rw [Function.update_of_ne hne]
    exact h j

theorem jobsOk_step {s' : Sys} {e : Event} (h : JobsOk cfg s) (hc : InCycle cfg preset s e)
    (hs : StepTo cfg preset s e s') : JobsOk cfg s' := by
  have hput {jobno : Nat} {js : JobState}
      (hj : ∀ loop I rest, js = .running loop I rest → JobOk cfg jobno loop I rest) :
      ∀ j loop I rest, Function.update s.jobs jobno js j = .running loop I rest →
        JobOk cfg j loop I rest :=
    put_cases (Q := fun j js => ∀ loop I rest, js = .running loop I rest →
      JobOk cfg j loop I rest) h hj
  cases hs with
  | parent => exact h
  | endtp => exact h
  | launch hj hidle htop =>
      refine hput fun loop I rest he => ?_
      obtain ⟨rfl, rfl, rfl⟩ := JobState.running.inj he
      rw [restartI_eq_usedI]
      exact jobOk_begin ⟨hj, by omega, hc⟩
  | exec hrun =>
      refine hput fun loop I rest he => ?_
      obtain ⟨rfl, rfl, rfl⟩ := JobState.running.inj he
      obtain ⟨hr, hi, ch, pre, hpre⟩ := h _ _ _ _ hrun
      exact ⟨hr, hi, ch, pre ++ [_], by rw [List.append_assoc]; exact hpre⟩
  | stop hrun =>
      exact hput fun loop I rest he => by cases he
  | next hrun hend htop =>
      refine hput fun loop I rest he => ?_
      obtain ⟨rfl, rfl, rfl⟩ := JobState.running.inj he
      obtain ⟨hr, rfl, -⟩ := h _ _ _ _ hrun
      rw [nextI_usedI _ _ hr.loop_pos]
      exact jobOk_begin ⟨hr.job, by omega, hc _ _ hrun hend htop⟩
  | crash hrun =>
      exact hput fun loop I rest he => by cases he

theorem jobsOk_of_reach {P : Sys → Event → Prop} (hP : ∀ s e, P s e → InCycle cfg preset s e)
    (h : Reach cfg preset P s) : JobsOk cfg s := by
  induction h with
  | start => exact fun _ _ _ _ h => by cases h
  | step _ hp hs ih => exact jobsOk_step ih (hP _ _ hp) (stepTo_of_step hs)

/-- The commands of a step of a running job are of its iteration. -/
theorem JobOk.mem {jobno loop I : Nat} {cs : List Cmd} {rest : List (List Cmd)}
    (h : JobOk cfg jobno loop I (cs :: rest)) :
    ∃ ch, ∀ c ∈ cs, c ∈ cmds (iteration cfg jobno loop I ch) := by
  obtain ⟨-, -, ch, pre, hpre⟩ := h
  refine ⟨ch, fun c hc => ?_⟩
  rw [← flatten_steps, ← hpre]
  exact List.mem_flatten.2 ⟨cs, List.mem_append_right _ List.mem_cons_self, hc⟩

theorem JobOk.within {jobno loop I : Nat} {cs : List Cmd} {rest : List (List Cmd)}
    (h : JobOk cfg jobno loop I (cs :: rest)) :
    ∀ c ∈ cs, c.Within (OwnOf cfg jobno loop) := by
  obtain ⟨ch, hm⟩ := h.mem
  obtain ⟨-, rfl, -⟩ := h
  exact fun c hc => iteration_within cfg jobno loop _ ch (usedI_ne_zero _ _ _) c (hm c hc)

end JobsOk

end YottaTest.Imptp
