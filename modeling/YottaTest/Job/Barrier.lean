/-
  File:      YottaTest/Job/Barrier.lean
  Subject:   job.m: the children of a job start their routine together.

  The parent locks ^job and starts the children. Each child locks its own ^%jobwait(index), to
  signal that it is there, and then waits for a lock below ^job. The parent tries all ^%jobwait
  locks again and again; when it gets none of them, every child is there, and it unlocks ^job. It
  gives up after 600 rounds, and says so.

  * `Parent`, `Child`, `State` -- where the processes are, and the locks;
  * `parentStep`, `childStep`, `run` -- their steps, in any order;
  * `Barrier`, `run_barrier` -- **no child runs before ^job is unlocked, and when it is, all children
    hold their locks, or the parent has tried 600 times and reported it.**
-/
import Mathlib.Logic.Function.Basic
import YottaTest.Lib.Locks

namespace YottaTest.Job

open Function YottaTest.Lib

/-! ## 1. The processes -/

/-- A global's name, or a subscript. -/
inductive Sub where
  | name (text : List Char)
  | num (n : Nat)
  deriving DecidableEq, Repr

inductive Proc where
  | parent
  | child (index : Nat)
  deriving DecidableEq, Repr

/-- What a call of `^job` is about: the routine, the number of jobs, the job id, if there is one, and
    `$j` of each child. -/
structure Params where
  routine : List Char
  njobs : Nat
  jobid : Option Sub
  job : Nat → Nat

/-- Where the parent is. -/
inductive Parent where
  /-- before `lock +^job` -/
  | lockJob
  /-- before the `JOB` command for the index -/
  | fork (index : Nat)
  /-- before `lock +^%jobwait(i):0` -/
  | tryLock (round i : Nat) (all : Bool)
  /-- it has got ^%jobwait(i) -/
  | gotLock (round i : Nat)
  /-- before the message -/
  | giveUp (round : Nat)
  /-- before `lock -^job` -/
  | unlockJob (round : Nat) (all : Bool)
  | released
  deriving DecidableEq, Repr

/-- Where a child is. -/
inductive Child where
  | none
  /-- before `lock +^%jobwait(index)` -/
  | lockWait
  /-- before `lock +^job(index,$j)` -/
  | lockJob
  /-- before `lock` -/
  | unlockAll
  | running
  deriving DecidableEq, Repr

structure State where
  locks : Locks Proc Sub
  parent : Parent
  child : Nat → Child
  reported : Bool

section Steps

variable (c : Params)

/-- `^job` and the label of the routine, `$piece(routine,"^",1)`. -/
def jobName : Sub := .name ('j' :: 'o' :: 'b' :: c.routine.takeWhile (· ≠ '^'))

/-- `^%jobwait(i)`, or `^%jobwait(jobid,i)`. -/
def jobwait (i : Nat) : List Sub :=
  .name ['%', 'j', 'o', 'b', 'w', 'a', 'i', 't'] :: (c.jobid.toList ++ [Sub.num i])

/-- `^job(index,$j)` -/
def jobBelow (index : Nat) : List Sub := [jobName c, .num index, .num (c.job index)]

def rounds : Nat := 600

/-- The parent's next step; a lock without a timeout waits. -/
def parentStep (s : State) : State :=
  match s.parent with
  | .lockJob =>
      if s.locks.isFree .parent [jobName c] then
        { s with locks := s.locks.lock .parent [jobName c], parent := .fork 1 }
      else s
  | .fork index =>
      if index ≤ c.njobs then
        { s with child := update s.child index .lockWait, parent := .fork (index + 1) }
      else { s with parent := .tryLock 1 1 true }
  | .tryLock round i all =>
      if i ≤ c.njobs then
        if s.locks.isFree .parent (jobwait c i) then
          { s with locks := s.locks.lock .parent (jobwait c i), parent := .gotLock round i }
        else { s with parent := .tryLock round (i + 1) all }
      else if all then { s with parent := .unlockJob round true }
      else if round < rounds then { s with parent := .tryLock (round + 1) 1 true }
      else { s with parent := .giveUp round }
  | .gotLock round i =>
      { s with locks := s.locks.unlock .parent (jobwait c i), parent := .tryLock round (i + 1) false }
  | .giveUp round => { s with reported := true, parent := .unlockJob round false }
  | .unlockJob _ _ => { s with locks := s.locks.unlock .parent [jobName c], parent := .released }
  | .released => s

/-- The next step of a child. -/
def childStep (s : State) (index : Nat) : State :=
  match s.child index with
  | .none => s
  | .lockWait =>
      if s.locks.isFree (.child index) (jobwait c index) then
        { s with
          locks := s.locks.lock (.child index) (jobwait c index)
          child := update s.child index .lockJob }
      else s
  | .lockJob =>
      if s.locks.isFree (.child index) (jobBelow c index) then
        { s with
          locks := s.locks.lock (.child index) (jobBelow c index)
          child := update s.child index .unlockAll }
      else s
  | .unlockAll =>
      { s with locks := s.locks.unlockAll (.child index), child := update s.child index .running }
  | .running => s

def step (s : State) : Proc → State
  | .parent => parentStep c s
  | .child index => childStep c s index

def start : State := ⟨[], .lockJob, fun _ => .none, false⟩

/-- The processes take their steps in this order. -/
def run (s : State) (order : List Proc) : State := order.foldl (step c) s

/-- What is promised. -/
structure Barrier (s : State) : Prop where
  /-- no child runs before the parent has released the barrier -/
  together : ∀ index, s.child index = .running → s.parent = .released
  /-- when it does so, every child is there, or the time is over and that is reported -/
  complete : ∀ round all, s.parent = .unlockJob round all →
    (∀ i, 1 ≤ i → i ≤ c.njobs → (Proc.child i, jobwait c i) ∈ s.locks) ∨
      (round = rounds ∧ s.reported = true)

end Steps

/-! ## 2. The names -/

variable {c : Params} {s : State}

theorem jobwait_inj {i k : Nat} (h : jobwait c i = jobwait c k) : i = k := by
  have htail := List.append_cancel_left (List.cons.inj h).2
  simpa using htail

theorem conflict_jobwait {i k : Nat} (h : Conflict (jobwait c i) (jobwait c k)) : i = k :=
  jobwait_inj ((conflict_iff_of_length (by simp [jobwait])).1 h)

theorem jobwait_ne_job (c : Params) : Sub.name ['%', 'j', 'o', 'b', 'w', 'a', 'i', 't'] ≠ jobName c := by
  intro h
  exact absurd (List.cons.inj (Sub.name.inj h)).1 (by decide)

/-! ## 3. What holds at every step -/

/-- What the place of the parent says about the children. -/
def ParentOk (c : Params) (s : State) : Parent → Prop
  | .lockJob => ∀ i, s.child i = .none
  | .fork index => ∀ i, index ≤ i → s.child i = .none
  | .tryLock round i all =>
      round ≤ rounds ∧ (all = true → ∀ j, 1 ≤ j → j < i → s.child j = .lockJob)
  | .gotLock round _ => round ≤ rounds
  | .giveUp round => round = rounds
  | .unlockJob _ true => ∀ j, 1 ≤ j → j ≤ c.njobs → s.child j = .lockJob
  | .unlockJob round false => round = rounds ∧ s.reported = true
  | .released => True

structure Inv (c : Params) (s : State) : Prop where
  /-- the locks of a child -/
  owned : ∀ i name, (Proc.child i, name) ∈ s.locks →
    (name = jobwait c i ∧ (s.child i = .lockJob ∨ s.child i = .unlockAll)) ∨
      (name = jobBelow c i ∧ s.child i = .unlockAll)
  /-- a child that waits for the parent is there -/
  present : ∀ i, s.child i = .lockJob → (Proc.child i, jobwait c i) ∈ s.locks
  /-- the parent has locked ^job, until it releases it -/
  barrier : s.parent ≠ .lockJob → s.parent ≠ .released → (Proc.parent, [jobName c]) ∈ s.locks
  /-- which holds the children back -/
  back : s.parent ≠ .released → ∀ i, s.child i ≠ .unlockAll ∧ s.child i ≠ .running
  parentOk : ParentOk c s s.parent

theorem Inv.barrier_spec (h : Inv c s) : Barrier c s where
  together i hrun := by
    by_contra hparent
    exact (h.back hparent i).2 hrun
  complete round all hparent := by
    have hok := h.parentOk
    rw [hparent] at hok
    cases all with
    | true => exact Or.inl fun i hi hn => h.present i (hok i hi hn)
    | false => exact Or.inr hok

theorem inv_start (c : Params) : Inv c start where
  owned i name h := by cases h
  present i h := by cases h
  barrier h := absurd rfl h
  back _ i := by simp [start]
  parentOk _ := rfl

/-- One child goes on, and the locks of all others stay as they are. -/
theorem Inv.child (h : Inv c s) {index : Nat} {locks : Locks Proc Sub} {parent : Parent} {place : Child}
    (howned : ∀ name, (Proc.child index, name) ∈ locks →
      (name = jobwait c index ∧ (place = .lockJob ∨ place = .unlockAll)) ∨
        (name = jobBelow c index ∧ place = .unlockAll))
    (hother : ∀ q name, q ≠ .child index → ((q, name) ∈ locks ↔ (q, name) ∈ s.locks))
    (hpresent : place = .lockJob → (Proc.child index, jobwait c index) ∈ locks)
    (hreleased : parent ≠ .released → s.parent ≠ .released)
    (hbarrier : parent ≠ .lockJob → parent ≠ .released → (Proc.parent, [jobName c]) ∈ s.locks)
    (hback : parent ≠ .released → place ≠ .unlockAll ∧ place ≠ .running)
    (hok : ParentOk c ⟨locks, parent, update s.child index place, s.reported⟩ parent) :
    Inv c ⟨locks, parent, update s.child index place, s.reported⟩ := by
  have hne : ∀ {i : Nat}, i ≠ index → Proc.child i ≠ .child index := fun hi he => hi (Proc.child.inj he)
  constructor
  · intro i name hmem
    by_cases hi : i = index
    · subst hi
      dsimp only
      rw [update_self]
      exact howned name hmem
    · dsimp only
      rw [update_of_ne hi]
      exact h.owned i name ((hother _ name (hne hi)).1 hmem)
  · intro i hplace
    dsimp only at hplace
    by_cases hi : i = index
    · subst hi
      rw [update_self] at hplace
      exact hpresent hplace
    · rw [update_of_ne hi] at hplace
      exact (hother _ _ (hne hi)).2 (h.present i hplace)
  · exact fun hl hr => (hother _ _ (by simp)).2 (hbarrier hl hr)
  · intro hr i
    dsimp only
    by_cases hi : i = index
    · subst hi
      rw [update_self]
      exact hback hr
    · rw [update_of_ne hi]
      exact h.back (hreleased hr) i
  · exact hok

/-! ### The parent -/

/-- A lock is nothing to the others. -/
theorem mem_lock_other {locks : Locks Proc Sub} {p q : Proc} {name other : List Sub} (hq : q ≠ p) :
    (q, other) ∈ locks.lock p name ↔ (q, other) ∈ locks := by
  rw [Locks.mem_lock]
  constructor
  · intro h
    exact h.resolve_left fun he => hq he.1
  · exact Or.inr

theorem mem_unlock_child {locks : Locks Proc Sub} {name other : List Sub} {i : Nat} :
    (Proc.child i, other) ∈ locks.unlock .parent name ↔ (Proc.child i, other) ∈ locks :=
  ⟨Locks.mem_of_mem_unlock, Locks.mem_unlock_of_ne (Or.inl fun h => by cases h)⟩

/-- The parent goes on, and the locks of the children stay as they are. -/
theorem Inv.parent (h : Inv c s) {locks : Locks Proc Sub} {place : Parent} {reported : Bool}
    (hchild : ∀ i name, (Proc.child i, name) ∈ locks ↔ (Proc.child i, name) ∈ s.locks)
    (hbarrier : place ≠ .lockJob → place ≠ .released → (Proc.parent, [jobName c]) ∈ locks)
    (hback : s.parent ≠ .released)
    (hok : ParentOk c ⟨locks, place, s.child, reported⟩ place) :
    Inv c ⟨locks, place, s.child, reported⟩ where
  owned i name hmem := h.owned i name ((hchild i name).1 hmem)
  present i hi := (hchild i _).2 (h.present i hi)
  barrier := hbarrier
  back _ := h.back hback
  parentOk := hok

/-- **The child whose lock the parent does not get is there.** -/
theorem Inv.child_of_not_isFree (h : Inv c s) {i : Nat} (hback : s.parent ≠ .released)
    (hfree : ¬ s.locks.isFree .parent (jobwait c i) = true) : s.child i = .lockJob := by
  rw [Bool.not_eq_true] at hfree
  obtain ⟨q, other, hmem, hq, hc⟩ := Locks.exists_of_not_isFree hfree
  cases q with
  | parent => exact absurd rfl hq
  | child k =>
      rcases h.owned k other hmem with ⟨rfl, hk⟩ | ⟨rfl, hk⟩
      · obtain rfl := conflict_jobwait hc
        exact hk.resolve_right (h.back hback i).1
      · exact absurd hc (not_conflict_of_head (jobwait_ne_job c) _ _)

theorem Inv.parentStep (h : Inv c s) : Inv c (parentStep c s) := by
  have hok := h.parentOk
  unfold Job.parentStep
  cases hp : s.parent with
  | lockJob =>
      rw [hp] at hok
      dsimp only
      split
      · refine h.parent (fun i name => mem_lock_other (by simp)) (fun _ _ => Locks.mem_lock.2 (Or.inl ⟨rfl, rfl⟩))
          (by rw [hp]; simp) ?_
        exact fun i _ => hok i
      · exact h
  | fork index =>
      rw [hp] at hok
      have hheld := h.barrier (by rw [hp]; simp) (by rw [hp]; simp)
      have hback := h.back (by rw [hp]; simp)
      dsimp only
      split
      · have hnew : s.child index = .none := hok index (Nat.le_refl _)
        refine h.child (fun name hmem => ?_) (fun q name _ => Iff.rfl) (fun hi => by cases hi)
          (fun _ => by rw [hp]; simp) (fun _ _ => hheld) (fun _ => by simp) fun i hi => ?_
        · have howned := h.owned index name hmem
          simp [hnew] at howned
        · have hne : i ≠ index := Nat.ne_of_gt hi
          exact (update_of_ne hne ..).trans (hok i (Nat.le_of_succ_le hi))
      · refine h.parent (fun i name => Iff.rfl) (fun _ _ => hheld) (by rw [hp]; simp) ?_
        exact ⟨by decide, fun _ j hj hlt => by omega⟩
  | tryLock round i all =>
      rw [hp] at hok
      have hheld := h.barrier (by rw [hp]; simp) (by rw [hp]; simp)
      have hreleased : s.parent ≠ .released := by rw [hp]; simp
      dsimp only
      split
      · split
        · exact h.parent (fun i name => mem_lock_other (by simp)) (fun _ _ => Locks.mem_lock.2 (Or.inr hheld)) hreleased
            hok.1
        · rename_i hfree
          refine h.parent (fun i name => Iff.rfl) (fun _ _ => hheld) hreleased ?_
          refine ⟨hok.1, fun hall j hj hlt => ?_⟩
          by_cases hji : j = i
          · exact hji ▸ h.child_of_not_isFree hreleased (hji ▸ hfree)
          · exact hok.2 hall j hj (by omega)
      · split
        · rename_i hn hall
          refine h.parent (fun i name => Iff.rfl) (fun _ _ => hheld) hreleased ?_
          exact fun j hj hle => hok.2 hall j hj (by omega)
        · split
          · rename_i hlt
            refine h.parent (fun i name => Iff.rfl) (fun _ _ => hheld) hreleased ?_
            exact ⟨hlt, fun _ j hj hlt => by omega⟩
          · rename_i hlt
            refine h.parent (fun i name => Iff.rfl) (fun _ _ => hheld) hreleased ?_
            exact Nat.le_antisymm hok.1 (Nat.not_lt.1 hlt)
  | gotLock round i =>
      rw [hp] at hok
      have hheld := h.barrier (by rw [hp]; simp) (by rw [hp]; simp)
      have hne : [jobName c] ≠ jobwait c i := fun heq => jobwait_ne_job c (List.cons.inj heq).1.symm
      refine h.parent (fun i name => mem_unlock_child)
        (fun _ _ => Locks.mem_unlock_of_ne (Or.inr hne) hheld) (by rw [hp]; simp) ?_
      exact ⟨hok, fun hfalse => by cases hfalse⟩
  | giveUp round =>
      rw [hp] at hok
      have hheld := h.barrier (by rw [hp]; simp) (by rw [hp]; simp)
      exact h.parent (fun i name => Iff.rfl) (fun _ _ => hheld) (by rw [hp]; simp) ⟨hok, rfl⟩
  | unlockJob round all =>
      refine h.parent (fun i name => mem_unlock_child) (fun _ hreleased => absurd rfl hreleased)
        (by rw [hp]; simp) trivial
  | released => exact h

/-! ### A child -/

/-- Children that are there stay there. -/
theorem ParentOk.update_child {index : Nat} {locks : Locks Proc Sub} {place : Child}
    (hnone : s.child index ≠ .none) (hthere : s.parent ≠ .released → s.child index ≠ .lockJob)
    (h : ParentOk c s s.parent) : ParentOk c { s with locks := locks, child := update s.child index place } s.parent := by
  have hkept : s.parent ≠ .released → ∀ i, s.child i = .lockJob → update s.child index place i = .lockJob := by
    intro hr i hi
    have hne : i ≠ index := fun he => hthere hr (he ▸ hi)
    rwa [update_of_ne hne]
  have hfree : ∀ i, s.child i = .none → update s.child index place i = .none := by
    intro i hi
    have hne : i ≠ index := fun he => hnone (he ▸ hi)
    rwa [update_of_ne hne]
  cases hplace : s.parent with
  | lockJob => rw [hplace] at h; exact fun i => hfree i (h i)
  | fork _ => rw [hplace] at h; exact fun i hi => hfree i (h i hi)
  | tryLock round i all =>
      rw [hplace] at h hkept
      exact ⟨h.1, fun hall j hj hlt => hkept (by simp) j (h.2 hall j hj hlt)⟩
  | gotLock round i => rw [hplace] at h; exact h
  | giveUp round => rw [hplace] at h; exact h
  | unlockJob round all =>
      rw [hplace] at h hkept
      cases all with
      | true => exact fun j hj hle => hkept (by simp) j (h j hj hle)
      | false => exact h
  | released => trivial

/-- A child gets past ^job only after the parent. -/
theorem Inv.released_of_isFree (h : Inv c s) {i : Nat} (hi : s.child i = .lockJob)
    (hfree : s.locks.isFree (.child i) (jobBelow c i) = true) : s.parent = .released := by
  by_contra hreleased
  have hlock : s.parent ≠ .lockJob := by
    intro hp
    have hok := h.parentOk
    rw [hp] at hok
    rw [hok i] at hi
    cases hi
  have hheld := h.barrier hlock hreleased
  have hconflict : Conflict (jobBelow c i) [jobName c] := Or.inr ⟨[.num i, .num (c.job i)], rfl⟩
  have hne : Proc.parent ≠ .child i := fun h => by cases h
  rw [Locks.not_isFree hheld hne hconflict] at hfree
  cases hfree

theorem Inv.childStep (h : Inv c s) (index : Nat) : Inv c (childStep c s index) := by
  unfold Job.childStep
  cases hi : s.child index with
  | none => exact h
  | lockWait =>
      dsimp only
      split
      · refine h.child (fun name hmem => ?_) (fun q name hq => mem_lock_other hq)
          (fun _ => Locks.mem_lock.2 (Or.inl ⟨rfl, rfl⟩)) id h.barrier (fun _ => by simp)
          (h.parentOk.update_child (by rw [hi]; simp) fun _ => by rw [hi]; simp)
        rcases Locks.mem_lock.1 hmem with ⟨-, rfl⟩ | hmem
        · exact Or.inl ⟨rfl, Or.inl rfl⟩
        · have howned := h.owned index name hmem
          simp [hi] at howned
      · exact h
  | lockJob =>
      dsimp only
      split
      · rename_i hfree
        have hreleased := h.released_of_isFree hi hfree
        refine h.child (fun name hmem => ?_) (fun q name hq => mem_lock_other hq) (fun hp => by cases hp) id
          h.barrier (fun hr => absurd hreleased hr)
          (h.parentOk.update_child (by rw [hi]; simp) fun hr => absurd hreleased hr)
        rcases Locks.mem_lock.1 hmem with ⟨-, rfl⟩ | hmem
        · exact Or.inr ⟨rfl, rfl⟩
        · rcases h.owned index name hmem with ⟨hname, -⟩ | ⟨hname, -⟩
          · exact Or.inl ⟨hname, Or.inr rfl⟩
          · exact Or.inr ⟨hname, rfl⟩
      · exact h
  | unlockAll =>
      have hreleased : s.parent = .released := by
        by_contra hr
        exact (h.back hr index).1 hi
      refine h.child (fun name hmem => ?_) (fun q name hq => ?_) (fun hp => by cases hp) id h.barrier
        (fun hr => absurd hreleased hr)
        (h.parentOk.update_child (by rw [hi]; simp) fun hr => absurd hreleased hr)
      · exact absurd rfl (Locks.mem_unlockAll.1 hmem).2
      · rw [Locks.mem_unlockAll]
        exact and_iff_left hq
  | running => exact h

theorem Inv.step (h : Inv c s) (p : Proc) : Inv c (step c s p) := by
  cases p with
  | parent => exact h.parentStep
  | child index => exact h.childStep index

theorem Inv.run : ∀ (order : List Proc) {s : State}, Inv c s → Inv c (run c s order)
  | [], _, h => h
  | p :: order, _, h => Inv.run order (h.step p)

/-- **The start barrier holds**, for every number of children and every order of steps. -/
theorem run_barrier (c : Params) (order : List Proc) : Barrier c (run c start order) :=
  ((inv_start c).run order).barrier_spec

/-- One child, which is there before the parent tries its lock. -/
example : (run ⟨['s'], 1, none, fun _ => 7⟩ start [.parent, .parent, .parent, .child 1, .parent, .parent, .parent,
    .child 1, .child 1]).child 1 = .running := by decide

end YottaTest.Job
