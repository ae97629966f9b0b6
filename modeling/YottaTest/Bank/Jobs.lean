/-
  File:      YottaTest/Bank/Jobs.lean
  Subject:   mrtst and mrtptst: jobs that post to the accounts of the bank, and the verdict on them.

  The parent starts the jobs behind a lock, waits until each of them is set up, lets them go, and looks
  at ^ERROR when it has the lock again. mrtst locks an account and makes three updates one after the
  other; mrtptst makes them in a transaction.

  * `Update`, `Job`, `Parent`, `State` -- where the processes are, and what they share;
  * `jobStep`, `parentStep`, `die`, `run` -- their steps in any order, and deaths;
  * `JobOk`, `ParentOk`, `Verdict` -- what ^ERROR and ^JOBSETUP say about a job;
  * `verdict_run` -- **the parent prints PASS only if every job has made all its updates.**
-/
import YottaTest.Bank.Accounts
import YottaTest.Lib.Locks

namespace YottaTest.Bank

open Function YottaTest.Lib

/-! ## 1. The processes -/

inductive Program where
  | mrtst
  | mrtptst
  deriving DecidableEq, Repr

/-- The names of the locks: `^TEST`, `^ACCT` and subscripts. -/
inductive Sub where
  | test
  | acct
  | num (n : Nat)
  deriving DecidableEq, Repr

inductive Proc where
  | parent
  | job (jobno : Nat)
  deriving DecidableEq, Repr

/-- Where an update of mrtst is. -/
inductive Update where
  /-- before `Lock +^ACCT(acct)` -/
  | lock (acct : Nat)
  /-- before `Set name=^ACNM(acct)` -/
  | name (acct : Nat) (delta : Int)
  /-- before `Set balance=^ACCT(acct)+delta` -/
  | balance (acct : Nat) (delta : Int)
  /-- before `Set jnlrec=^JNL(acct,0)` -/
  | jnlrec (acct : Nat) (delta balance : Int)
  /-- before `Set ^ERROR=1` -/
  | error (acct : Nat)
  /-- before `Set ^JNL(acct,0)=jnlrec` -/
  | setCount (acct : Nat) (delta balance jnlrec : Int)
  /-- before `Set ^JNL(acct,jnlrec)=delta` -/
  | setDelta (acct : Nat) (delta balance jnlrec : Int)
  /-- before `Set ^ACCT(acct)=balance` -/
  | setAcct (acct : Nat) (balance : Int)
  /-- before `Lock -^ACCT(acct)` -/
  | unlock (acct : Nat)
  deriving DecidableEq, Repr

/-- Where a job is. -/
inductive Job where
  | none
  /-- before `Set ^ERROR(jobno)=0` -/
  | setError
  /-- before `Set ^JOBSETUP(jobno)=1` -/
  | setJobsetup
  /-- before `Lock +^TEST(jobno)` -/
  | lockTest
  /-- before the turn `i` -/
  | loop (i : Nat)
  | update (i : Nat) (u : Update)
  /-- before `Kill ^ERROR(jobno)` -/
  | killError
  /-- before its rundown -/
  | quit
  | ended
  | dead
  deriving DecidableEq, Repr

/-- Where the parent is. -/
inductive Parent where
  /-- before `Lock +^TEST` -/
  | lockTest
  /-- before the `JOB` command for `i` -/
  | fork (i : Nat)
  /-- before it adds ^JOBSETUP(j) -/
  | count (j jobsSetup : Nat)
  /-- before `Lock -^TEST` -/
  | unlock
  /-- before `Lock +^TEST:18360` -/
  | relock
  /-- before it looks at ^ERROR, with `$T` -/
  | check (t : Bool)
  /-- it has printed PASS or FAIL, and goes on to its last `Lock` -/
  | done (pass : Bool)
  deriving DecidableEq, Repr

structure State where
  db : Db
  /-- `^ERROR` has a value -/
  errorRoot : Bool
  /-- the subscripts of ^ERROR -/
  error : List Nat
  /-- the jobs whose ^JOBSETUP is 1 -/
  jobsetup : List Nat
  locks : Locks Proc Sub
  parent : Parent
  job : Nat → Job
  /-- Ghost: the updates each job has made. -/
  completed : Nat → Nat
  /-- Ghost: a job has died between its updates of an account. -/
  torn : Bool

/-- The first of the updates is made and the last one is not. -/
def Update.between : Update → Bool
  | .setDelta .. | .setAcct .. => true
  | _ => false

def Job.between : Job → Bool
  | .update _ u => u.between
  | _ => false

def State.goto (s : State) (j : Nat) (place : Job) : State := { s with job := update s.job j place }

/-- A process that has started ends; its locks are released. -/
def die (j : Nat) (s : State) : State :=
  { s with
    locks := s.locks.unlockAll (.job j)
    job := update s.job j .dead
    torn := s.torn || (s.job j).between }

/-- `$Random(10000)-5000` -/
def delta (draw : Nat) : Int := (draw % 10000 : Nat) - 5000

/-- `$Random(^ACCT(0))+1`; none where that is an error. -/
def pick (db : Db) (draw : Nat) : Option Nat :=
  (db.acct 0).bind fun accnts =>
    if accnts.toInt < 1 then none else some (draw % accnts.toInt.toNat + 1)

/-- The next step of an update of mrtst. -/
def updateStep (j i : Nat) (u : Update) (draw : Nat) (s : State) : State :=
  match u with
  | .lock acct =>
      if s.locks.isFree (.job j) [.acct, .num acct] then
        { s.goto j (.update i (.name acct (delta draw))) with
          locks := s.locks.lock (.job j) [.acct, .num acct] }
      else s
  | .name acct delta => match s.db.acnm acct with
    | none => die j s
    | some _ => s.goto j (.update i (.balance acct delta))
  | .balance acct delta => match s.db.acct acct with
    | none => die j s
    | some balance => s.goto j (.update i (.jnlrec acct delta (balance.toInt + delta)))
  | .jnlrec acct delta balance => match s.db.jnl acct 0 with
    | none => die j s
    | some .empty => s.goto j (.update i (.error acct))
    | some (.num jnlrec) => s.goto j (.update i (.setCount acct delta balance (jnlrec + 1)))
  | .error acct => { s.goto j (.update i (.unlock acct)) with errorRoot := true }
  | .setCount acct delta balance jnlrec =>
      { s.goto j (.update i (.setDelta acct delta balance jnlrec)) with
        db := s.db.setJnl acct 0 (.num jnlrec) }
  | .setDelta acct delta balance jnlrec =>
      { s.goto j (.update i (.setAcct acct balance)) with db := s.db.setJnl acct jnlrec (.num delta) }
  | .setAcct acct balance =>
      { s.goto j (.update i (.unlock acct)) with
        db := s.db.setAcct acct (.num balance)
        completed := update s.completed j (s.completed j + 1) }
  | .unlock acct =>
      { s.goto j (.loop (i + 1)) with locks := s.locks.unlock (.job j) [.acct, .num acct] }

/-- The updates of an account at once. -/
def post (db : Db) (acct : Nat) (delta : Int) (balance : Value) (jnlrec : Int) : Db :=
  ((db.setJnl acct 0 (.num jnlrec)).setJnl acct jnlrec (.num delta)).setAcct acct
    (.num (balance.toInt + delta))

/-- The transaction of mrtptst; an error rolls it back. -/
def transaction (j i acct : Nat) (delta : Int) (s : State) : State :=
  match s.db.acnm acct with
  | none => die j s
  | some _ => match s.db.acct acct with
    | none => die j s
    | some balance => match s.db.jnl acct 0 with
      | none => die j s
      | some .empty => { s.goto j (.loop (i + 1)) with errorRoot := true }
      | some (.num jnlrec) =>
          { s.goto j (.loop (i + 1)) with
            db := post s.db acct delta balance (jnlrec + 1)
            completed := update s.completed j (s.completed j + 1) }

section Steps

variable (program : Program) (jobcnt trans : Nat)

/-- The next step of a job, with what it draws. -/
def jobStep (j draw draw' : Nat) (s : State) : State :=
  match s.job j with
  | .none | .ended | .dead => s
  | .setError => { s.goto j .setJobsetup with error := j :: s.error }
  | .setJobsetup => { s.goto j .lockTest with jobsetup := j :: s.jobsetup }
  | .lockTest =>
      if s.locks.isFree (.job j) [.test, .num j] then
        { s.goto j (.loop 1) with locks := s.locks.lock (.job j) [.test, .num j] }
      else s
  | .loop i =>
      if i ≤ trans then
        match pick s.db draw with
        | none => die j s
        | some acct => match program with
          | .mrtst => s.goto j (.update i (.lock acct))
          | .mrtptst => transaction j i acct (delta draw') s
      else s.goto j .killError
  | .update i u => updateStep j i u draw' s
  | .killError => { s.goto j .quit with error := s.error.filter (· ≠ j) }
  | .quit => { s.goto j .ended with locks := s.locks.unlockAll (.job j) }

/-- The next step of the parent; `Lock +^TEST` waits. -/
def parentStep (s : State) : State :=
  match s.parent with
  | .lockTest =>
      if s.locks.isFree .parent [.test] then
        { s with locks := s.locks.lock .parent [.test], parent := .fork 1 }
      else s
  | .fork i =>
      if i ≤ jobcnt then { s.goto i .setError with parent := .fork (i + 1) }
      else { s with parent := .count 1 0 }
  | .count j jobsSetup =>
      if j ≤ jobcnt then
        { s with parent := .count (j + 1) (jobsSetup + if j ∈ s.jobsetup then 1 else 0) }
      else if jobsSetup = jobcnt then { s with parent := .unlock }
      else { s with parent := .count 1 0 }
  | .unlock => { s with locks := s.locks.unlock .parent [.test], parent := .relock }
  | .relock =>
      if s.locks.isFree .parent [.test] then
        { s with locks := s.locks.lock .parent [.test], parent := .check true }
      else s
  | .check t => { s with parent := .done (t && !s.errorRoot && s.error.isEmpty) }
  | .done _ => { s with locks := s.locks.unlockAll .parent }

/-- What can happen. -/
inductive Event where
  | parent
  /-- the time of `Lock +^TEST:18360` is over -/
  | timeout
  | job (j draw draw' : Nat)
  /-- a job that has started dies with an error -/
  | die (j : Nat)

def step (s : State) : Event → State
  | .parent => parentStep jobcnt s
  | .timeout => match s.parent with
    | .relock => { s with parent := .check false }
    | _ => s
  | .job j draw draw' => jobStep program trans j draw draw' s
  | .die j => match s.job j with
    | .none | .ended | .dead => s
    | _ => die j s

/-- Nothing is in ^ERROR and ^JOBSETUP. -/
def start (db : Db) : State :=
  ⟨db, false, [], [], [], .lockTest, fun _ => .none, fun _ => 0, false⟩

def run (s : State) (events : List Event) : State := events.foldl (step program jobcnt trans) s

end Steps

/-! ## 2. What ^ERROR and ^JOBSETUP say -/

variable {program : Program} {jobcnt trans : Nat} {s t : State} {j k : Nat}

/-- The number of updates made, or an update was passed over, which ^ERROR tells. -/
def Made (s : State) (j n : Nat) : Prop := s.errorRoot = true ∨ s.completed j = n

/-- What the place of a job says. -/
def JobOk (trans : Nat) (s : State) (j : Nat) : Job → Prop
  | .none | .setError => j ∉ s.jobsetup ∧ s.completed j = 0
  | .setJobsetup => j ∉ s.jobsetup ∧ s.completed j = 0 ∧ j ∈ s.error
  | .lockTest => s.completed j = 0 ∧ j ∈ s.error
  | .loop i => j ∈ s.error ∧ 1 ≤ i ∧ i ≤ trans + 1 ∧ Made s j (i - 1)
  | .update i (.unlock _) => j ∈ s.error ∧ 1 ≤ i ∧ i ≤ trans ∧ Made s j i
  | .update i _ => j ∈ s.error ∧ 1 ≤ i ∧ i ≤ trans ∧ Made s j (i - 1)
  | .killError => j ∈ s.error ∧ Made s j trans
  | .quit | .ended | .dead => j ∈ s.jobsetup → j ∈ s.error ∨ Made s j trans

/-- The job has ended its updates, one way or the other. -/
def Job.over : Job → Bool
  | .quit | .ended | .dead => true
  | _ => false

/-- What the place of the parent says. -/
def ParentOk (jobcnt trans : Nat) (s : State) : Parent → Prop
  | .lockTest => ∀ j, s.job j = .none
  | .fork i => ∀ j, i ≤ j → s.job j = .none
  | .count j jobsSetup =>
      jobsSetup < j ∧ j ≤ jobcnt + 1 ∧ (jobsSetup + 1 = j → ∀ k, 1 ≤ k → k < j → k ∈ s.jobsetup)
  | .unlock | .relock | .check _ => ∀ j, 1 ≤ j → j ≤ jobcnt → j ∈ s.jobsetup
  | .done true => ∀ j, 1 ≤ j → j ≤ jobcnt → (s.job j).over = true ∧ s.completed j = trans
  | .done false => True

structure Verdict (jobcnt trans : Nat) (s : State) : Prop where
  job : ∀ j, JobOk trans s j (s.job j)
  parent : ParentOk jobcnt trans s s.parent

/-- A step of a job is nothing to the others: it changes its own node of ^ERROR and of ^JOBSETUP, and
    its own count; ^ERROR itself stays where it is. -/
structure Only (j : Nat) (s t : State) : Prop where
  job : ∀ k, k ≠ j → t.job k = s.job k
  error : ∀ k, k ≠ j → (k ∈ t.error ↔ k ∈ s.error)
  jobsetup : ∀ k, k ≠ j → (k ∈ t.jobsetup ↔ k ∈ s.jobsetup)
  completed : ∀ k, k ≠ j → t.completed k = s.completed k
  errorRoot : s.errorRoot = true → t.errorRoot = true
  setup : j ∈ s.jobsetup → j ∈ t.jobsetup
  parent : t.parent = s.parent

theorem Only.jobOk (h : Only j s t) (hk : k ≠ j) (hok : JobOk trans s k (s.job k)) :
    JobOk trans t k (t.job k) := by
  have hmade : ∀ {n}, Made s k n → Made t k n := fun hm =>
    hm.imp h.errorRoot fun hc => (h.completed k hk).trans hc
  rw [h.job k hk]
  unfold JobOk at hok ⊢
  split at hok
  · exact ⟨fun hin => hok.1 ((h.jobsetup k hk).1 hin), (h.completed k hk).trans hok.2⟩
  · exact ⟨fun hin => hok.1 ((h.jobsetup k hk).1 hin), (h.completed k hk).trans hok.2⟩
  · exact ⟨fun hin => hok.1 ((h.jobsetup k hk).1 hin), (h.completed k hk).trans hok.2.1,
      (h.error k hk).2 hok.2.2⟩
  · exact ⟨(h.completed k hk).trans hok.1, (h.error k hk).2 hok.2⟩
  · exact ⟨(h.error k hk).2 hok.1, hok.2.1, hok.2.2.1, hmade hok.2.2.2⟩
  · exact ⟨(h.error k hk).2 hok.1, hok.2.1, hok.2.2.1, hmade hok.2.2.2⟩
  · exact ⟨(h.error k hk).2 hok.1, hok.2.1, hok.2.2.1, hmade hok.2.2.2⟩
  · exact ⟨(h.error k hk).2 hok.1, hmade hok.2⟩
  · exact fun hin => (hok ((h.jobsetup k hk).1 hin)).imp (h.error k hk).2 hmade
  · exact fun hin => (hok ((h.jobsetup k hk).1 hin)).imp (h.error k hk).2 hmade
  · exact fun hin => (hok ((h.jobsetup k hk).1 hin)).imp (h.error k hk).2 hmade

/-- **A step of a job**, with what its new place says; a job whose updates are over makes no more. -/
theorem Only.verdict (h : Only j s t) (hv : Verdict jobcnt trans s) (hstarted : s.job j ≠ .none)
    (hok : JobOk trans t j (t.job j))
    (hover : (s.job j).over = true → (t.job j).over = true ∧ t.completed j = s.completed j) :
    Verdict jobcnt trans t where
  job k := by
    by_cases hk : k = j
    · exact hk ▸ hok
    · exact h.jobOk hk (hv.job k)
  parent := by
    have hparent := hv.parent
    have hsetup : ∀ k, k ∈ s.jobsetup → k ∈ t.jobsetup := by
      intro k hin
      by_cases hk : k = j
      · subst hk
        exact h.setup hin
      · exact (h.jobsetup k hk).2 hin
    have hnone : ∀ k, s.job k = .none → t.job k = .none := by
      intro k hk
      have hne : k ≠ j := by
        intro he
        subst he
        exact hstarted hk
      rwa [h.job k hne]
    rw [h.parent]
    unfold ParentOk at hparent ⊢
    split at hparent
    · exact fun k => hnone k (hparent k)
    · exact fun k hk => hnone k (hparent k hk)
    · exact ⟨hparent.1, hparent.2.1, fun he k h1 hlt => hsetup k (hparent.2.2 he k h1 hlt)⟩
    · exact fun k h1 hle => hsetup k (hparent k h1 hle)
    · exact fun k h1 hle => hsetup k (hparent k h1 hle)
    · exact fun k h1 hle => hsetup k (hparent k h1 hle)
    · intro k h1 hle
      obtain ⟨hk, hcount⟩ := hparent k h1 hle
      by_cases he : k = j
      · subst he
        exact ⟨(hover hk).1, (hover hk).2.trans hcount⟩
      · exact ⟨by rwa [h.job k he], (h.completed k he).trans hcount⟩
    · trivial

theorem only_goto (s : State) (j : Nat) (place : Job) : Only j s (s.goto j place) :=
  ⟨fun _ hk => update_of_ne hk .., fun _ _ => Iff.rfl, fun _ _ => Iff.rfl, fun _ _ => rfl, fun h => h,
    fun h => h, rfl⟩

theorem only_die (s : State) (j : Nat) : Only j s (die j s) :=
  ⟨fun _ hk => update_of_ne hk .., fun _ _ => Iff.rfl, fun _ _ => Iff.rfl, fun _ _ => rfl, fun h => h,
    fun h => h, rfl⟩

@[simp] theorem State.goto_self (s : State) (j : Nat) (place : Job) : (s.goto j place).job j = place :=
  update_self ..

@[simp] theorem die_self (j : Nat) (s : State) : (die j s).job j = .dead := update_self ..

/-- What is left of a job that dies. -/
theorem JobOk.die (hok : JobOk trans s j (s.job j)) : JobOk trans (die j s) j ((Bank.die j s).job j) := by
  rw [die_self]
  unfold JobOk at hok ⊢
  intro hin
  split at hok
  · exact absurd hin hok.1
  · exact absurd hin hok.1
  · exact absurd hin hok.1
  · exact Or.inl hok.2
  · exact Or.inl hok.1
  · exact Or.inl hok.1
  · exact Or.inl hok.1
  · exact Or.inl hok.1
  · exact hok hin
  · exact hok hin
  · exact hok hin

/-! ## 3. What every step keeps -/

theorem Verdict.die (h : Verdict jobcnt trans s) (hstarted : s.job j ≠ .none) :
    Verdict jobcnt trans (die j s) :=
  (only_die s j).verdict h hstarted (h.job j).die fun _ => ⟨by rw [die_self]; rfl, rfl⟩

/-- A step to another place, while the updates go on. -/
theorem Verdict.goto (h : Verdict jobcnt trans s) {place : Job} (hstarted : s.job j ≠ .none)
    (hok : JobOk trans (s.goto j place) j place) (hover : (s.job j).over = false) :
    Verdict jobcnt trans (s.goto j place) := by
  refine (only_goto s j place).verdict h hstarted ?_ fun hyes => ?_
  · rwa [State.goto_self]
  · rw [hover] at hyes
    cases hyes

theorem made_succ {i : Nat} (h1 : 1 ≤ i) (h : Made s j (i - 1)) (hroot : t.errorRoot = s.errorRoot)
    (hcount : t.completed j = s.completed j + 1) : Made t j i := by
  unfold Made at h ⊢
  rw [hroot, hcount]
  exact h.imp_right fun hc => by omega

theorem Verdict.updateStep (h : Verdict jobcnt trans s) {i : Nat} {u : Update}
    (hplace : s.job j = .update i u) (draw : Nat) : Verdict jobcnt trans (updateStep j i u draw s) := by
  have hok := h.job j
  have hstarted : s.job j ≠ .none := by
    rw [hplace]
    exact fun he => by cases he
  have hover : (s.job j).over = false := by
    rw [hplace]
    rfl
  -- a change of something that the verdict does not look at
  have hother : ∀ {t : State}, t.job = update s.job j (t.job j) → t.error = s.error →
      t.jobsetup = s.jobsetup → t.completed = s.completed → t.errorRoot = s.errorRoot →
      t.parent = s.parent → JobOk trans t j (t.job j) → Verdict jobcnt trans t := by
    intro t hjob herror hsetup hcount hroot hparent hnew
    refine Only.verdict ⟨fun k hk => ?_, fun k _ => by rw [herror], fun k _ => by rw [hsetup],
      fun k _ => by rw [hcount], fun hr => by rwa [hroot], fun hin => by rwa [hsetup], hparent⟩ h hstarted
      hnew fun hyes => ?_
    · rw [hjob, update_of_ne hk]
    · rw [hover] at hyes
      cases hyes
  rw [hplace] at hok
  cases u with
  | lock acct =>
      unfold Bank.updateStep
      dsimp only
      split
      · refine hother (by simp [State.goto]) rfl rfl rfl rfl rfl ?_
        show JobOk trans _ j ((s.goto j (.update i (.name acct (delta draw)))).job j)
        rw [State.goto_self]
        exact hok
      · exact h
  | name acct delta =>
      unfold Bank.updateStep
      dsimp only
      split
      · exact h.die hstarted
      · exact h.goto hstarted hok hover
  | balance acct delta =>
      unfold Bank.updateStep
      dsimp only
      split
      · exact h.die hstarted
      · exact h.goto hstarted hok hover
  | jnlrec acct delta balance =>
      unfold Bank.updateStep
      dsimp only
      split
      · exact h.die hstarted
      · exact h.goto hstarted hok hover
      · exact h.goto hstarted hok hover
  | error acct =>
      refine (Only.verdict ⟨fun k hk => update_of_ne hk .., fun _ _ => Iff.rfl, fun _ _ => Iff.rfl,
        fun _ _ => rfl, fun _ => rfl, fun hin => hin, rfl⟩ h hstarted ?_ fun hyes => ?_)
      · show JobOk trans _ j ((s.goto j (.update i (.unlock acct))).job j)
        rw [State.goto_self]
        exact ⟨hok.1, hok.2.1, hok.2.2.1, Or.inl rfl⟩
      · rw [hover] at hyes
        cases hyes
  | setCount acct delta balance jnlrec =>
      refine hother (by simp [Bank.updateStep, State.goto]) rfl rfl rfl rfl rfl ?_
      show JobOk trans _ j ((s.goto j (.update i (.setDelta acct delta balance jnlrec))).job j)
      rw [State.goto_self]
      exact hok
  | setDelta acct delta balance jnlrec =>
      refine hother (by simp [Bank.updateStep, State.goto]) rfl rfl rfl rfl rfl ?_
      show JobOk trans _ j ((s.goto j (.update i (.setAcct acct balance))).job j)
      rw [State.goto_self]
      exact hok
  | setAcct acct balance =>
      refine (Only.verdict ⟨fun k hk => update_of_ne hk .., fun _ _ => Iff.rfl, fun _ _ => Iff.rfl,
        fun k hk => update_of_ne hk .., fun hr => hr, fun hin => hin, rfl⟩ h hstarted ?_ fun hyes => ?_)
      · show JobOk trans _ j ((s.goto j (.update i (.unlock acct))).job j)
        rw [State.goto_self]
        exact ⟨hok.1, hok.2.1, hok.2.2.1, made_succ hok.2.1 hok.2.2.2 rfl (update_self ..)⟩
      · rw [hover] at hyes
        cases hyes
  | unlock acct =>
      refine hother (by simp [Bank.updateStep, State.goto]) rfl rfl rfl rfl rfl ?_
      show JobOk trans _ j ((s.goto j (.loop (i + 1))).job j)
      rw [State.goto_self]
      exact ⟨hok.1, Nat.succ_pos i, Nat.succ_le_succ hok.2.2.1, hok.2.2.2⟩

theorem Verdict.transaction (h : Verdict jobcnt trans s) {i : Nat} (hplace : s.job j = .loop i)
    (hi : i ≤ trans) (acct : Nat) (delta : Int) :
    Verdict jobcnt trans (transaction j i acct delta s) := by
  have hok := h.job j
  have hstarted : s.job j ≠ .none := by
    rw [hplace]
    exact fun he => by cases he
  have hover : (s.job j).over ≠ true := by
    rw [hplace]
    exact Bool.false_ne_true
  rw [hplace] at hok
  unfold Bank.transaction
  split
  · exact h.die hstarted
  · split
    · exact h.die hstarted
    · split
      · exact h.die hstarted
      · refine (Only.verdict ⟨fun k hk => update_of_ne hk .., fun _ _ => Iff.rfl, fun _ _ => Iff.rfl,
          fun _ _ => rfl, fun _ => rfl, fun hin => hin, rfl⟩ h hstarted ?_ fun hyes => absurd hyes hover)
        show JobOk trans _ j ((s.goto j (.loop (i + 1))).job j)
        rw [State.goto_self]
        exact ⟨hok.1, Nat.succ_pos i, Nat.succ_le_succ hi, Or.inl rfl⟩
      · refine (Only.verdict ⟨fun k hk => update_of_ne hk .., fun _ _ => Iff.rfl, fun _ _ => Iff.rfl,
          fun k hk => update_of_ne hk .., fun hr => hr, fun hin => hin, rfl⟩ h hstarted ?_
          fun hyes => absurd hyes hover)
        show JobOk trans _ j ((s.goto j (.loop (i + 1))).job j)
        rw [State.goto_self]
        exact ⟨hok.1, Nat.succ_pos i, Nat.succ_le_succ hi,
          made_succ hok.2.1 hok.2.2.2 rfl (update_self ..)⟩

/-- **A step of a job.** -/
theorem Verdict.jobStep (h : Verdict jobcnt trans s) (j draw draw' : Nat) :
    Verdict jobcnt trans (jobStep program trans j draw draw' s) := by
  have hok := h.job j
  unfold Bank.jobStep
  cases hplace : s.job j with
  | none => exact h
  | ended => exact h
  | dead => exact h
  | setError =>
      rw [hplace] at hok
      refine (Only.verdict ⟨fun k hk => update_of_ne hk .., fun k hk => ?_, fun _ _ => Iff.rfl,
        fun _ _ => rfl, fun hr => hr, fun hin => hin, rfl⟩ h (by rw [hplace]; simp) ?_ fun hyes => ?_)
      · exact List.mem_cons.trans (or_iff_right hk)
      · show JobOk trans _ j ((s.goto j .setJobsetup).job j)
        rw [State.goto_self]
        exact ⟨hok.1, hok.2, List.mem_cons_self⟩
      · rw [hplace] at hyes
        cases hyes
  | setJobsetup =>
      rw [hplace] at hok
      refine (Only.verdict ⟨fun k hk => update_of_ne hk .., fun _ _ => Iff.rfl, fun k hk => ?_,
        fun _ _ => rfl, fun hr => hr, fun hin => List.mem_cons_of_mem j hin, rfl⟩ h (by rw [hplace]; simp) ?_
        fun hyes => ?_)
      · exact List.mem_cons.trans (or_iff_right hk)
      · show JobOk trans _ j ((s.goto j .lockTest).job j)
        rw [State.goto_self]
        exact ⟨hok.2.1, hok.2.2⟩
      · rw [hplace] at hyes
        cases hyes
  | lockTest =>
      rw [hplace] at hok
      dsimp only
      split
      · refine (Only.verdict ⟨fun k hk => update_of_ne hk .., fun _ _ => Iff.rfl, fun _ _ => Iff.rfl,
          fun _ _ => rfl, fun hr => hr, fun hin => hin, rfl⟩ h (by rw [hplace]; simp) ?_ fun hyes => ?_)
        · show JobOk trans _ j ((s.goto j (.loop 1)).job j)
          rw [State.goto_self]
          exact ⟨hok.2, Nat.le_refl 1, Nat.succ_pos trans, Or.inr hok.1⟩
        · rw [hplace] at hyes
          cases hyes
      · exact h
  | loop i =>
      dsimp only
      split
      · rename_i hi
        split
        · exact h.die (by rw [hplace]; simp)
        · cases program with
          | mrtst =>
              rw [hplace] at hok
              exact h.goto (by rw [hplace]; simp) ⟨hok.1, hok.2.1, hi, hok.2.2.2⟩ (by rw [hplace]; rfl)
          | mrtptst => exact h.transaction hplace hi _ _
      · rename_i hi
        rw [hplace] at hok
        have hlast : i - 1 = trans := by
          have := hok.2.2.1
          omega
        exact h.goto (by rw [hplace]; simp) ⟨hok.1, hlast ▸ hok.2.2.2⟩ (by rw [hplace]; rfl)
  | update i u => exact h.updateStep hplace draw'
  | killError =>
      rw [hplace] at hok
      refine (Only.verdict ⟨fun k hk => update_of_ne hk .., fun k hk => ?_, fun _ _ => Iff.rfl,
        fun _ _ => rfl, fun hr => hr, fun hin => hin, rfl⟩ h (by rw [hplace]; simp) ?_ fun hyes => ?_)
      · exact List.mem_filter.trans (and_iff_left (decide_eq_true hk))
      · show JobOk trans _ j ((s.goto j .quit).job j)
        rw [State.goto_self]
        exact fun _ => Or.inr hok.2
      · rw [hplace] at hyes
        cases hyes
  | quit =>
      rw [hplace] at hok
      refine (Only.verdict ⟨fun k hk => update_of_ne hk .., fun _ _ => Iff.rfl, fun _ _ => Iff.rfl,
        fun _ _ => rfl, fun hr => hr, fun hin => hin, rfl⟩ h (by rw [hplace]; simp) ?_ fun _ => ⟨?_, rfl⟩)
      · show JobOk trans _ j ((s.goto j .ended).job j)
        rw [State.goto_self]
        exact hok
      · show ((s.goto j .ended).job j).over = true
        rw [State.goto_self]
        rfl

/-- Where ^ERROR is empty, a job that was set up has made all its updates. -/
theorem JobOk.passed (hok : JobOk trans s j (s.job j)) (hsetup : j ∈ s.jobsetup)
    (hroot : s.errorRoot = false) (herror : s.error = []) :
    (s.job j).over = true ∧ s.completed j = trans := by
  have hnot : j ∉ s.error := by
    rw [herror]
    exact List.not_mem_nil
  have hmade : j ∈ s.error ∨ Made s j trans → s.completed j = trans := by
    intro h
    rcases h with h | h | h
    · exact absurd h hnot
    · rw [hroot] at h
      cases h
    · exact h
  unfold JobOk at hok
  split at hok
  · exact absurd hsetup hok.1
  · exact absurd hsetup hok.1
  · exact absurd hsetup hok.1
  · exact absurd hok.2 hnot
  · exact absurd hok.1 hnot
  · exact absurd hok.1 hnot
  · exact absurd hok.1 hnot
  · exact absurd hok.1 hnot
  · rename_i heq
    exact ⟨by rw [heq]; rfl, hmade (hok hsetup)⟩
  · rename_i heq
    exact ⟨by rw [heq]; rfl, hmade (hok hsetup)⟩
  · rename_i heq
    exact ⟨by rw [heq]; rfl, hmade (hok hsetup)⟩

/-- The parent moves on, and nothing else changes. -/
theorem Verdict.move (h : Verdict jobcnt trans s) {parent : Parent} (locks : Locks Proc Sub)
    (hparent : ParentOk jobcnt trans { s with locks := locks, parent := parent } parent) :
    Verdict jobcnt trans { s with locks := locks, parent := parent } :=
  ⟨h.job, hparent⟩

/-- **A step of the parent.** -/
theorem Verdict.parentStep (h : Verdict jobcnt trans s) : Verdict jobcnt trans (parentStep jobcnt s) := by
  have hparent := h.parent
  unfold Bank.parentStep
  cases hplace : s.parent with
  | lockTest =>
      rw [hplace] at hparent
      dsimp only
      split
      · exact h.move _ fun j _ => hparent j
      · exact h
  | fork i =>
      rw [hplace] at hparent
      dsimp only
      split
      · have hi := h.job i
        rw [hparent i (Nat.le_refl i)] at hi
        refine ⟨fun k => ?_, fun k hk => ?_⟩
        · by_cases hki : k = i
          · subst hki
            show JobOk trans _ k ((s.goto k .setError).job k)
            rw [State.goto_self]
            exact hi
          · exact (only_goto s i .setError).jobOk hki (h.job k)
        · show (s.goto i .setError).job k = .none
          rw [(only_goto s i .setError).job k (by omega)]
          exact hparent k (by omega)
      · exact h.move s.locks ⟨Nat.zero_lt_one, Nat.succ_pos jobcnt, fun _ k h1 hlt => by omega⟩
  | count j jobsSetup =>
      rw [hplace] at hparent
      obtain ⟨hlt, hle, hall⟩ := hparent
      dsimp only
      split
      · rename_i hj
        refine h.move s.locks ⟨by split <;> omega, by omega, fun he k h1 hk => ?_⟩
        split at he
        · rename_i hin
          by_cases hkj : k = j
          · exact hkj ▸ hin
          · exact hall (by omega) k h1 (by omega)
        · omega
      · split
        · exact h.move s.locks fun k h1 hk => hall (by omega) k h1 (by omega)
        · exact h.move s.locks ⟨Nat.zero_lt_one, Nat.succ_pos jobcnt, fun _ k h1 hlt => by omega⟩
  | unlock =>
      rw [hplace] at hparent
      exact h.move _ hparent
  | relock =>
      rw [hplace] at hparent
      dsimp only
      split
      · exact h.move _ hparent
      · exact h
  | check t =>
      rw [hplace] at hparent
      dsimp only
      refine h.move s.locks ?_
      cases hpass : t && !s.errorRoot && s.error.isEmpty with
      | false => trivial
      | true =>
          simp only [Bool.and_eq_true, Bool.not_eq_true', List.isEmpty_iff] at hpass
          exact fun j h1 hle => (h.job j).passed (hparent j h1 hle) hpass.1.2 hpass.2
  | done pass =>
      rw [hplace] at hparent
      exact h.move _ hparent

theorem Verdict.step (h : Verdict jobcnt trans s) (e : Event) :
    Verdict jobcnt trans (step program jobcnt trans s e) := by
  cases e with
  | parent => exact h.parentStep
  | timeout =>
      unfold Bank.step
      dsimp only
      split
      · rename_i hplace
        have hparent := h.parent
        rw [hplace] at hparent
        exact h.move s.locks hparent
      · exact h
  | job j draw draw' => exact h.jobStep j draw draw'
  | die j =>
      unfold Bank.step
      dsimp only
      split
      · exact h
      · exact h
      · exact h
      · rename_i hnone _ _
        exact h.die hnone

theorem verdict_start (jobcnt trans : Nat) (db : Db) : Verdict jobcnt trans (start db) :=
  ⟨fun _ => ⟨List.not_mem_nil, rfl⟩, fun _ => rfl⟩

theorem verdict_run (program : Program) (jobcnt trans : Nat) (db : Db) (events : List Event) :
    Verdict jobcnt trans (run program jobcnt trans (start db) events) := by
  have hrun : ∀ (events : List Event) {s : State}, Verdict jobcnt trans s →
      Verdict jobcnt trans (run program jobcnt trans s events) := by
    intro events
    induction events with
    | nil => exact fun h => h
    | cons e events ih => exact fun h => ih (h.step e)
  exact hrun events (verdict_start jobcnt trans db)

end YottaTest.Bank
