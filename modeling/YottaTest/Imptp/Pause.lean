/-
  File:      YottaTest/Imptp/Pause.lean
  Subject:   Pausing the jobs: the rounds of `pause` and `resume` of pauseimptp.m.

  At the head of its loop a job looks at `^%pauseflag`; if it is set it counts itself, polls the
  flag and uncounts itself. The controller sets the flag and polls the count, and to resume clears
  the flag, polls the count again and kills the flag with all below it.

  * `Job`, `Control`, `Sys`, `jobStep`, `controlStep`, `Step` -- the parties statement by statement;
  * `Inv` -- where the jobs can be at each point of a round: the count is that of the jobs between
    their two increments, and the flag exists as long as one of them may read it;
  * **`pause_safe`** -- while paused no job updates anything, after a round nobody waits and the
    count is zero, and no job reads a flag that is gone.
-/
import YottaTest.Lib.Run

namespace YottaTest.Imptp.Pause

open Function Relation YottaTest.Lib

/-! ## 1. The parties -/

/-- The next statement of a job. -/
inductive Job where
  /-- `if ($get(^%pauseflag,0)) do` -/
  | head
  /-- `$increment(^%pauseflag(fillid,"pausedcount"))` -/
  | count
  /-- `quit:0=^%pauseflag  hang 0.5` -/
  | wait
  /-- `$increment(^%pauseflag(fillid,"pausedcount"),-1)` -/
  | uncount
  /-- the iteration body -/
  | body
  | ended
  /-- a read of an undefined global -/
  | fault
  deriving DecidableEq, Repr

/-- The next statement of the controller. -/
inductive Control where
  /-- no round is going on -/
  | idle
  /-- `set ^%pauseflag=1` -/
  | pause
  /-- `quit:$get(^%pauseflag(fillid,"pausedcount"),0)=jobcount` -/
  | awaitPaused (jobcount : Nat)
  /-- `pause` has returned -/
  | paused
  /-- `set ^%pauseflag=0` -/
  | resume
  /-- `quit:0=$get(^%pauseflag(fillid,"pausedcount"),0)` -/
  | awaitResumed
  /-- `kill ^%pauseflag` -/
  | kill
  deriving DecidableEq, Repr

structure Sys (ι : Type) where
  /-- `^%pauseflag` -/
  flag : Option Nat
  /-- `^%pauseflag(fillid,"pausedcount")` -/
  paused : Option Int
  job : ι → Job
  control : Control
  /-- The controller's `gtm_test_jobcnt`. -/
  jobcnt : Nat
  /-- Ghost: how many updates the iteration bodies have made. -/
  updates : Nat

variable {ι : Type} [DecidableEq ι]

def Sys.setJob (s : Sys ι) (i : ι) (j : Job) : Sys ι := { s with job := update s.job i j }

/-- `$increment` of the count. -/
def Sys.increment (s : Sys ι) (by_ : Int) : Sys ι :=
  { s with paused := some (s.paused.getD 0 + by_) }

/-- What a job can do next. The body makes any number of updates; a job ends only while no round
    is going on. -/
inductive JobStep (i : ι) (s : Sys ι) : Sys ι → Prop where
  | headPaused : s.job i = .head → s.flag.getD 0 ≠ 0 → JobStep i s (s.setJob i .count)
  | headFree : s.job i = .head → s.flag.getD 0 = 0 → JobStep i s (s.setJob i .body)
  | count : s.job i = .count → JobStep i s ((s.increment 1).setJob i .wait)
  | waitUndefined : s.job i = .wait → s.flag = none → JobStep i s (s.setJob i .fault)
  | waitEnds : s.job i = .wait → s.flag = some 0 → JobStep i s (s.setJob i .uncount)
  | uncount : s.job i = .uncount → JobStep i s ((s.increment (-1)).setJob i .body)
  | update : s.job i = .body → JobStep i s { s with updates := s.updates + 1 }
  | bodyEnds : s.job i = .body → JobStep i s (s.setJob i .head)
  | ends : s.job i = .head → s.control = .idle → JobStep i s (s.setJob i .ended)

def Job.live (j : Job) : Bool := j ≠ .ended

/-- `set:jobcount=0 jobcount=5`. -/
def expectedCount (jobcnt : Nat) : Nat := if jobcnt = 0 then 5 else jobcnt

/-- What the controller can do next. A round is only begun while there are as many jobs as it
    expects. -/
inductive ControlStep (jobs : List ι) (s : Sys ι) : Sys ι → Prop where
  | begins : s.control = .idle →
      expectedCount s.jobcnt = (jobs.countP fun i => (s.job i).live) →
      ControlStep jobs s { s with control := .pause }
  | pause : s.control = .pause →
      ControlStep jobs s { s with flag := some 1, control := .awaitPaused (expectedCount s.jobcnt) }
  | allPaused {jobcount : Nat} : s.control = .awaitPaused jobcount →
      s.paused.getD 0 = jobcount → ControlStep jobs s { s with control := .paused }
  | resumes : s.control = .paused → ControlStep jobs s { s with control := .resume }
  | resume : s.control = .resume →
      ControlStep jobs s { s with flag := some 0, control := .awaitResumed }
  | allResumed : s.control = .awaitResumed → s.paused.getD 0 = 0 →
      ControlStep jobs s { s with control := .kill }
  | kill : s.control = .kill →
      ControlStep jobs s { s with flag := none, paused := none, control := .idle }

/-- A step of one of the jobs or of the controller. -/
inductive Step (jobs : List ι) (s s' : Sys ι) : Prop where
  | job (i : ι) : i ∈ jobs → JobStep i s s' → Step jobs s s'
  | control : ControlStep jobs s s' → Step jobs s s'

/-- Nobody has paused the jobs yet. -/
def Sys.start (jobcnt : Nat) : Sys ι := ⟨none, none, fun _ => .head, .idle, jobcnt, 0⟩

/-- The states of a test with these jobs, of any number of rounds. -/
def Reach (jobs : List ι) (jobcnt : Nat) (s : Sys ι) : Prop :=
  ReflTransGen (Step jobs) (Sys.start jobcnt) s

/-! ## 2. The invariant -/

/-- A job between its two increments. -/
def Job.counted : Job → Bool
  | .wait | .uncount => true
  | _ => false

/-- Where the jobs can be, by the point of the round. -/
def Control.allows : Control → Job → Bool
  | .idle, j | .pause, j | .kill, j => j = .head || j = .body || j = .ended
  | .awaitPaused _, j => j = .head || j = .count || j = .wait || j = .body || j = .ended
  | .paused, j | .resume, j => j = .wait || j = .ended
  | .awaitResumed, j => j = .wait || j = .uncount || j = .body || j = .head || j = .ended

def Control.flag : Control → Option Nat
  | .idle | .pause => none
  | .awaitPaused _ | .paused | .resume => some 1
  | .awaitResumed | .kill => some 0

namespace Control

variable {c : Control}

/-- A job that finds the flag set may count itself. -/
theorem allows_count (h : c.allows .head = true) (hf : c.flag.getD 0 ≠ 0) :
    c.allows .count = true := by
  cases c with
  | awaitPaused n => rfl
  | paused => cases h
  | resume => cases h
  | _ => exact absurd rfl hf

theorem allows_body (h : c.allows .head = true) (hf : c.flag.getD 0 = 0) :
    c.allows .body = true := by
  cases c with
  | awaitPaused n => simp [flag] at hf
  | paused => cases h
  | resume => cases h
  | _ => rfl

theorem allows_wait (h : c.allows .count = true) : c.allows .wait = true := by
  cases c with
  | awaitPaused n => rfl
  | _ => cases h

/-- As long as a job may wait the flag exists. -/
theorem flag_of_wait (h : c.allows .wait = true) : c.flag ≠ none := by
  cases c with
  | idle => cases h
  | pause => cases h
  | _ => simp [flag]

theorem allows_uncount (h : c.allows .wait = true) (hf : c.flag = some 0) :
    c.allows .uncount = true := by
  cases c with
  | awaitResumed => rfl
  | kill => cases h
  | _ => simp [flag] at hf

theorem allows_body_of_uncount (h : c.allows .uncount = true) : c.allows .body = true := by
  cases c with
  | awaitResumed => rfl
  | _ => cases h

theorem allows_head (h : c.allows .body = true) : c.allows .head = true := by
  cases c with
  | paused => cases h
  | resume => cases h
  | _ => rfl

end Control

structure Inv (jobs : List ι) (s : Sys ι) : Prop where
  flag : s.flag = s.control.flag
  paused : s.paused.getD 0 = (jobs.countP fun i => (s.job i).counted : Nat)
  allowed : ∀ i ∈ jobs, s.control.allows (s.job i) = true
  /-- During a round there are as many jobs as the controller expects. -/
  expected : s.control ≠ .idle →
    expectedCount s.jobcnt = (jobs.countP fun i => (s.job i).live)
  awaited : ∀ n, s.control = .awaitPaused n → n = expectedCount s.jobcnt

omit [DecidableEq ι] in
theorem inv_start (jobs : List ι) (jobcnt : Nat) : Inv jobs (Sys.start jobcnt) where
  flag := rfl
  paused := by simp [Sys.start, Job.counted]
  allowed := fun _ _ => rfl
  expected := fun h => absurd rfl h
  awaited := fun n h => by cases h

/-- A step of one job keeps the invariant if the job goes where it may be, does not end in a round,
    and counts itself as it does. -/
theorem Inv.setJob {jobs : List ι} {s : Sys ι} (h : Inv jobs s) (hn : jobs.Nodup) {i : ι}
    (hi : i ∈ jobs) {j : Job} {paused : Option Int} (hallow : s.control.allows j = true)
    (hlive : s.control = .idle ∨ j.live = (s.job i).live)
    (hpaused : paused.getD 0 + (if (s.job i).counted then 1 else 0) =
      s.paused.getD 0 + (if j.counted then 1 else 0)) :
    Inv jobs { s.setJob i j with paused := paused } where
  flag := h.flag
  paused := by
    have hcount := countP_update Job.counted s.job i j jobs hn hi
    have hp := h.paused
    show paused.getD 0 = (jobs.countP fun k => (update s.job i j k).counted : Nat)
    cases hold : (s.job i).counted with
    | false => cases hnew : j.counted <;> simp [hold, hnew] at hpaused hcount <;> omega
    | true => cases hnew : j.counted <;> simp [hold, hnew] at hpaused hcount <;> omega
  allowed := fun k hk => by
    show s.control.allows (update s.job i j k) = true
    by_cases hki : k = i
    · rw [hki, update_self]
      exact hallow
    · rw [update_of_ne hki]
      exact h.allowed k hk
  expected := fun hidle => by
    have hcount := countP_update Job.live s.job i j jobs hn hi
    have hl := hlive.resolve_left hidle
    have he := h.expected hidle
    show expectedCount s.jobcnt = jobs.countP fun k => (update s.job i j k).live
    rw [hl] at hcount
    omega
  awaited := h.awaited

omit [DecidableEq ι] in
@[simp] theorem paused_increment (s : Sys ι) (by_ : Int) :
    (s.increment by_).paused.getD 0 = s.paused.getD 0 + by_ := rfl

theorem inv_jobStep {jobs : List ι} {s s' : Sys ι} (hn : jobs.Nodup) {i : ι} (hi : i ∈ jobs)
    (h : Inv jobs s) (hs : JobStep i s s') : Inv jobs s' := by
  have hallow := h.allowed i hi
  have hflag := h.flag
  cases hs with
  | headPaused hj hf =>
      rw [hj] at hallow
      rw [hflag] at hf
      exact h.setJob hn hi (Control.allows_count hallow hf) (.inr (by rw [hj]; rfl))
        (by rw [hj]; rfl)
  | headFree hj hf =>
      rw [hj] at hallow
      rw [hflag] at hf
      exact h.setJob hn hi (Control.allows_body hallow hf) (.inr (by rw [hj]; rfl))
        (by rw [hj]; rfl)
  | count hj =>
      rw [hj] at hallow
      exact h.setJob hn hi (Control.allows_wait hallow) (.inr (by rw [hj]; rfl))
        (by rw [hj]; simp [Job.counted])
  | waitUndefined hj hf =>
      rw [hj] at hallow
      exact absurd (hflag.symm.trans hf) (Control.flag_of_wait hallow)
  | waitEnds hj hf =>
      rw [hj] at hallow
      exact h.setJob hn hi (Control.allows_uncount hallow (hflag.symm.trans hf))
        (.inr (by rw [hj]; rfl)) (by rw [hj]; rfl)
  | uncount hj =>
      rw [hj] at hallow
      exact h.setJob hn hi (Control.allows_body_of_uncount hallow) (.inr (by rw [hj]; rfl))
        (by rw [hj, paused_increment]; simp only [Job.counted, if_true, Bool.false_eq_true, if_false]; omega)
  | update hj => exact ⟨h.flag, h.paused, h.allowed, h.expected, h.awaited⟩
  | bodyEnds hj =>
      rw [hj] at hallow
      exact h.setJob hn hi (Control.allows_head hallow) (.inr (by rw [hj]; rfl)) (by rw [hj]; rfl)
  | ends hj hidle =>
      exact h.setJob hn hi (by rw [hidle]; rfl) (.inl hidle) (by rw [hj]; rfl)

omit [DecidableEq ι] in
/-- When the count is the number of jobs, all of them wait. -/
theorem Inv.all_wait {jobs : List ι} {s : Sys ι} (h : Inv jobs s) {n : Nat}
    (hc : s.control = .awaitPaused n) (hn : s.paused.getD 0 = n) :
    ∀ i ∈ jobs, Control.paused.allows (s.job i) = true := by
  have hcount : (jobs.countP fun i => (s.job i).counted) = jobs.countP fun i => (s.job i).live := by
    have hp := h.paused
    have he := h.expected (by rw [hc]; simp)
    have ha := h.awaited n hc
    omega
  intro i hi
  have hsame := eq_of_countP_eq jobs
    (fun i _ hi => by cases hj : s.job i <;> simp [hj, Job.counted, Job.live] at hi ⊢) hcount i hi
  have hallow := h.allowed i hi
  rw [hc] at hallow
  cases hj : s.job i <;> simp_all [Job.counted, Job.live, Control.allows]

omit [DecidableEq ι] in
/-- When the count is zero, no job is between its increments. -/
theorem Inv.none_wait {jobs : List ι} {s : Sys ι} (h : Inv jobs s) (hc : s.control = .awaitResumed)
    (hn : s.paused.getD 0 = 0) : ∀ i ∈ jobs, Control.kill.allows (s.job i) = true := by
  have hzero : (jobs.countP fun i => (s.job i).counted) = 0 := by
    have hp := h.paused
    omega
  intro i hi
  have hnot := List.countP_eq_zero.1 hzero i hi
  have hallow := h.allowed i hi
  rw [hc] at hallow
  cases hj : s.job i <;> simp_all [Job.counted, Control.allows]

omit [DecidableEq ι] in
theorem inv_controlStep {jobs : List ι} {s s' : Sys ι} (h : Inv jobs s)
    (hs : ControlStep jobs s s') : Inv jobs s' := by
  have hflag := h.flag
  have hallow := h.allowed
  cases hs with
  | begins hc he =>
      rw [hc] at hflag hallow
      exact ⟨hflag, h.paused, hallow, fun _ => he, fun _ hn => by cases hn⟩
  | pause hc =>
      rw [hc] at hallow
      refine ⟨rfl, h.paused, fun i hi => ?_, fun _ => h.expected (by rw [hc]; simp),
        fun n hn => (Control.awaitPaused.inj hn).symm⟩
      have := hallow i hi
      cases hj : s.job i <;> simp_all [Control.allows]
  | allPaused hc hn =>
      rw [hc] at hflag
      exact ⟨hflag, h.paused, h.all_wait hc hn, fun _ => h.expected (by rw [hc]; simp),
        fun _ hn => by cases hn⟩
  | resumes hc =>
      rw [hc] at hflag hallow
      exact ⟨hflag, h.paused, hallow, fun _ => h.expected (by rw [hc]; simp),
        fun _ hn => by cases hn⟩
  | resume hc =>
      rw [hc] at hallow
      refine ⟨rfl, h.paused, fun i hi => ?_, fun _ => h.expected (by rw [hc]; simp),
        fun _ hn => by cases hn⟩
      have := hallow i hi
      cases hj : s.job i <;> simp_all [Control.allows]
  | allResumed hc hn =>
      rw [hc] at hflag
      exact ⟨hflag, h.paused, h.none_wait hc hn, fun _ => h.expected (by rw [hc]; simp),
        fun _ hn => by cases hn⟩
  | kill hc =>
      rw [hc] at hallow
      refine ⟨rfl, ?_, hallow, fun hidle => absurd rfl hidle, fun _ hn => by cases hn⟩
      have hzero : (jobs.countP fun i => (s.job i).counted) = 0 :=
        List.countP_eq_zero.2 fun i hi => by
          have := hallow i hi
          cases hj : s.job i <;> simp_all [Control.allows, Job.counted]
      show (none : Option Int).getD 0 = (jobs.countP fun i => (s.job i).counted : Nat)
      rw [hzero]
      rfl

theorem inv_of_reach {jobs : List ι} {jobcnt : Nat} {s : Sys ι} (hn : jobs.Nodup)
    (h : Reach jobs jobcnt s) : Inv jobs s := by
  refine run_keeps (I := Inv jobs) (fun s s' hI hs => ?_) h (inv_start jobs jobcnt)
  cases hs with
  | job i hi hs => exact inv_jobStep hn hi hI hs
  | control hs => exact inv_controlStep hI hs

/-! ## 3. Pausing is safe -/

/-- **Pausing is safe**, over any rounds and interleavings: while paused every job waits and no
    step updates anything; when no round is going on the count is zero and no job is between its
    increments; and no job reads a flag that is gone. -/
theorem pause_safe {jobs : List ι} (hn : jobs.Nodup) {jobcnt : Nat} {s : Sys ι}
    (h : Reach jobs jobcnt s) :
    (s.control = .paused →
      (∀ i ∈ jobs, s.job i = .wait ∨ s.job i = .ended) ∧
        ∀ s', Step jobs s s' → s'.updates = s.updates) ∧
      (s.control = .idle → s.paused.getD 0 = 0 ∧ ∀ i ∈ jobs, (s.job i).counted = false) ∧
      ∀ i ∈ jobs, ∀ s', JobStep i s s' → s'.job i ≠ .fault := by
  have hi := inv_of_reach hn h
  refine ⟨fun hc => ?_, fun hc => ?_, fun i him s' hs => ?_⟩
  · have hwait : ∀ i ∈ jobs, s.job i = .wait ∨ s.job i = .ended := fun i him => by
      have := hi.allowed i him
      rw [hc] at this
      simpa [Control.allows] using this
    refine ⟨hwait, fun s' hs => ?_⟩
    cases hs with
    | job i him hs =>
        cases hs with
        | update hj => rcases hwait i him with h | h <;> simp [hj] at h
        | _ => rfl
    | control hs => cases hs <;> rfl
  · have hnone : ∀ i ∈ jobs, (s.job i).counted = false := fun i him => by
      have := hi.allowed i him
      rw [hc] at this
      cases hj : s.job i <;> simp_all [Control.allows, Job.counted]
    refine ⟨?_, hnone⟩
    rw [hi.paused, List.countP_eq_zero.2 fun i him => by simp [hnone i him]]
    rfl
  · have hafter := (inv_jobStep hn him hi hs).allowed i him
    rintro hf
    rw [hf] at hafter
    cases hc : s'.control <;> simp [hc, Control.allows] at hafter

/-- One job, paused once. -/
theorem pause_safe_once : ∃ s : Sys Nat, s.control = .paused ∧
    (∀ i ∈ [0], s.job i = .wait ∨ s.job i = .ended) ∧
      ∀ s', Step [0] s s' → s'.updates = s.updates := by
  have hrun : ∃ s : Sys Nat, Reach [0] 1 s ∧ s.control = .paused :=
    ⟨_, ReflTransGen.refl.tail (.control (.begins rfl (by decide)))
      |>.tail (.control (.pause rfl))
      |>.tail (.job 0 (by simp) (.headPaused rfl (by decide)))
      |>.tail (.job 0 (by simp) (.count rfl))
      |>.tail (.control (.allPaused rfl rfl)), rfl⟩
  obtain ⟨s, hs, hc⟩ := hrun
  exact ⟨s, hc, (pause_safe (by simp) hs).1 hc⟩

end YottaTest.Imptp.Pause
