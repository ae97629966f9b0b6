/-
  File:      YottaTest/Stress/Jobs.lean
  Subject:   stress.m: the job without transactions, the jobs that roll back and those that commit.

  * `tpflag`, `body` -- the kind of a job, and one iteration of it;
  * `State`, `State.act`, `Reach` -- the jobs of run^concurr, one operation or one transaction of one
    job at a time, in any order;
  * `holds_body` -- an iteration leaves its nodes right and finds no error.
-/
import YottaTest.Stress.Filling

namespace YottaTest.Stress

open Function YottaTest.Lib

/-! ## 1. job^stress -/

inductive TpFlag where
  | ntp
  | tpr
  | tpc
  deriving DecidableEq, Repr

/-- The kinds of `stress(1,5,10)`. -/
def tpflag (jobno : Nat) : TpFlag := if jobno ≤ 1 then .ntp else if jobno ≤ 5 then .tpr else .tpc

/-- `loop+loop#10+1`, from left to right -/
def pno (loop : Nat) : Nat := (loop + loop) % 10 + 1

/-- What an iteration does, between TSTART and TROLLBACK or TCOMMIT if there is a transaction. -/
def body (impl : Impl) (c : Cfg) (jobno loop : Nat) : Prog Node Nat Report Unit := do
  randfill impl c jobno .kill (pno loop) loop
  randfill impl c jobno .set (pno loop) loop
  randfill impl c jobno .ver (pno loop) loop

/-- Where a job is. -/
inductive Pc where
  /-- in an iteration without a transaction -/
  | ntp (loop : Nat) (rest : Prog Node Nat Report Unit)
  /-- before a transaction -/
  | tran (loop : Nat)
  /-- `S ^lasti(jobno,localinstance)=loop` -/
  | lasti (loop : Nat)
  | completed
  /-- in ERROR -/
  | stopped

structure State where
  db : Node → Option Nat
  lasti : Nat → Option Nat
  pc : Nat → Pc
  /-- What the jobs have written about errors. -/
  reports : List (Nat × Report)

/-- `F loop=1:1:iterate` -/
def next (impl : Impl) (c : Cfg) (jobno loop : Nat) : Pc :=
  if loop ≤ c.iterate then
    match tpflag jobno with
    | .ntp => .ntp loop (body impl c jobno loop)
    | _ => .tran loop
  else .completed

/-- The jobs are released. -/
def released (impl : Impl) (c : Cfg) (db : Node → Option Nat) : State where
  db := db
  lasti _ := none
  pc jobno := next impl c jobno 1
  reports := []

/-- A job does its next operation. A transaction is one operation: it is serializable, and what is
    rolled back has no effect. -/
def State.act (impl : Impl) (c : Cfg) (s : State) (jobno : Nat) : State :=
  let report (ms : List Report) := s.reports ++ ms.map fun m => (jobno, m)
  match s.pc jobno with
  | .ntp loop (.ret ()) => { s with pc := update s.pc jobno (.lasti loop) }
  | .ntp _ (.stop m) => { s with pc := update s.pc jobno .stopped, reports := report [m] }
  | .ntp loop rest =>
      let (db, ms, rest) := rest.step s.db
      { s with db := db, pc := update s.pc jobno (.ntp loop rest), reports := report ms }
  | .tran loop =>
      match (body impl c jobno loop).run s.db with
      | (_, ms, none) => { s with pc := update s.pc jobno .stopped, reports := report ms }
      | (db, ms, some ()) =>
          { s with
            db := if tpflag jobno = .tpc then db else s.db
            pc := update s.pc jobno (.lasti loop)
            reports := report ms }
  | .lasti loop =>
      { s with
        lasti := update s.lasti jobno (some loop)
        pc := update s.pc jobno (next impl c jobno (loop + 1)) }
  | .completed | .stopped => s

/-- The jobs 1 to 10, in any order. -/
inductive Reach (impl : Impl) (c : Cfg) (db : Node → Option Nat) : State → Prop
  | start : Reach impl c db (released impl c db)
  | act {s : State} {jobno : Nat} (h : Reach impl c db s) (hpos : 1 ≤ jobno) (hle : jobno ≤ 10) :
      Reach impl c db (s.act impl c jobno)

/-! ## 2. An iteration -/

section Body

variable {impl : Impl} {c : Cfg} {jobno loop : Nat}
  {rely : (Node → Option Nat) → (Node → Option Nat) → Prop} {db : Node → Option Nat}

theorem isGenerator_root (ht : c.table ∈ initdat) (loop : Nat) :
    IsGenerator c.table.prime (c.table.root (pno loop)) := by
  refine initdat_isGenerator ht (Table.root_mem (initdat_length ht) ?_)
  unfold pno
  omega

theorem holds_body (ht : c.table ∈ initdat) (hr : c.Rely jobno loop rely) :
    Holds rely (c.May jobno loop) (body impl c jobno loop) (fun _ t => c.Filled jobno loop t) db := by
  have hroot := isGenerator_root ht loop
  refine Holds.bind hr.toIsRely ((holds_kill hr hroot).mono fun _ t hkill => ?_)
  refine Holds.bind hr.toIsRely ((holds_set hr hroot hkill).mono fun _ t hset => ?_)
  exact Holds.mono (holds_ver (P := fun _ => True) (fun _ _ => trivial) hr hroot hset trivial)
    fun _ _ h => h.1

end Body

/-- What the job without transactions has to expect: other nodes than its own are made right. -/
def Cfg.Commits (c : Cfg) (jobno : Nat) (s s' : Node → Option Nat) : Prop :=
  ∀ n, s' n = s n ∨ n.pid ≠ some (c.pid jobno) ∧ s' n = some (c.correct n.ndx n.glob)

theorem rely_commits (c : Cfg) (jobno loop : Nat) : c.Rely jobno loop (c.Commits jobno) where
  refl _ _ := Or.inl rfl
  trans h h' n := by
    rcases h' n with hn | hn
    · rw [hn]
      exact h n
    · exact Or.inr hn
  own {s s' ndx g} h hg := by
    refine (h _).resolve_right fun hn => hn.1 ?_
    simp [Cfg.node, hg]
  correct {s s' ndx g} h hs := by
    rcases h (c.node jobno loop ndx g) with hn | ⟨_, hn⟩
    · rw [hn, hs]
    · exact hn

/-- In a transaction there is nobody else. -/
theorem rely_eq (c : Cfg) (jobno loop : Nat) : c.Rely jobno loop fun s s' => s' = s where
  toIsRely := isRely_eq
  own h _ := by rw [h]
  correct h hs := by rw [h, hs]

end YottaTest.Stress
