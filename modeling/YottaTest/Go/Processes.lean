/-
  File:      YottaTest/Go/Processes.lean
  Subject:   threeenp1C2.go: the workers of the 3n+1 problem are processes, that main starts, waits
             for with `^count` and lets go with `lock1`.

  A worker's blocks and numbers are those of a goroutine (`Go.act`). What is new is the way to them:
  main counts a worker in `^count` before it starts it, the worker takes itself off again once it has
  its keys, and then stands at `lock1(index)` for as long as main has `lock1`. A process can die, and
  with it go its locks.

  * `State`, `mainStep`, `workerStep`, `Step`, `Reach` -- main and its workers, line after line;
  * `Ordered`, `Covered`, `inv_of_reach` -- what holds of `^count` and the locks, and of the blocks;
  * `Event`, `exec` -- runs, event by event;
  * `lock1_barrier` -- **nobody is at its blocks before all are ready**;
  * `processes_never_stuck` -- only a worker that dies before it is ready can keep main waiting;
  * `processes_answer` -- **what main reports, when some of the workers never came past their lock.**

  An error of main ends the program, and with it the model.
-/
import YottaTest.Go.Answer
import YottaTest.Lib.Digits
import YottaTest.Lib.Locks
import YottaTest.Lib.Run

namespace YottaTest.Go.Processes

open Function YottaTest.Lib

/-! ## 1. Main and its workers -/

/-- Where a worker is in `doblk`. -/
inductive Stage where
  /-- not started -/
  | absent
  /-- before `yottadb.IncrE("-1", "^count")` -/
  | initializing
  /-- at `yottadb.LockIncrE("lock1", subscr)` -/
  | waiting
  /-- at the blocks -/
  | scanning
  /-- the process is gone -/
  | ended
  deriving DecidableEq, Repr

/-- The next operation of main. -/
inductive MainPc where
  | readLine
  /-- `LockIncrE("lock1")` -/
  | lock
  /-- `IncrE("1", "^count")`, for the worker of this index -/
  | incr (index : Nat)
  /-- `proc[index].Start()` -/
  | start (index : Nat)
  /-- `ValE("^count")`, until it is "0" -/
  | poll
  /-- `LockDecrE("lock1")` -/
  | unlock
  /-- `proc[idx].Wait()` -/
  | wait (idx : Nat)
  /-- the results are printed, and the database made ready -/
  | report
  deriving DecidableEq, Repr

structure State where
  line : Line
  /-- The database, and the workers' places in it. -/
  run : Run
  /-- `^count` -/
  count : Option Int
  /-- The locks, of main (`none`) and the workers. -/
  locks : Locks (Option Nat) (List Char)
  main : MainPc
  stage : Nat → Stage
  /-- Ghost: the workers that have been through `IncrE("-1", "^count")`. -/
  ready : Nat → Bool
  /-- Ghost: the workers that have been granted their lock. -/
  released : Nat → Bool

def lock1 : List (List Char) := [['l', 'o', 'c', 'k', '1']]

/-- `lock1(index)` -/
def lock1Of (index : Nat) : List (List Char) := lock1 ++ [Nat.toDigits 10 index]

/-- The head of the loop that starts the workers. -/
def launchFrom (streams index : Nat) : MainPc := if index < streams then .incr index else .poll

/-- The head of the loop that waits for the workers. -/
def waitFrom (streams idx : Nat) : MainPc := if idx < streams then .wait idx else .report

/-- A line has been read: the blocks are defined and `^count` is killed. -/
def State.readLine (s : State) (l : Line) : State :=
  { s with
    line := l
    run := launch l s.run.db
    count := none
    main := .lock
    stage := fun _ => .absent
    ready := fun _ => false
    released := fun _ => false }

/-- The next operation of main; none while it has to wait. -/
def State.mainStep (s : State) : Option State :=
  match s.main with
  | .readLine => none
  | .lock =>
      if s.locks.isFree none lock1 then
        some { s with locks := s.locks.lock none lock1, main := launchFrom s.line.streams 0 }
      else none
  | .incr index => some { s with count := some (s.count.getD 0 + 1), main := .start index }
  | .start index =>
      some { s with
        stage := update s.stage index .initializing
        main := launchFrom s.line.streams (index + 1) }
  | .poll => if s.count = some 0 then some { s with main := .unlock } else none
  | .unlock =>
      some { s with locks := s.locks.unlock none lock1, main := waitFrom s.line.streams 0 }
  | .wait idx =>
      if s.stage idx = .ended then some { s with main := waitFrom s.line.streams (idx + 1) } else none
  | .report =>
      -- a result that is not there is an error
      if s.run.db.result.isSome ∧ s.run.db.highest.isSome ∧ s.run.db.updates.isSome ∧
          s.run.db.reads.isSome then
        some { s with run := { s.run with db := s.run.db.reset }, main := .readLine }
      else none

/-- A process is gone, and its locks with it. -/
def State.exit (s : State) (g : Nat) : State :=
  { s with locks := s.locks.unlockAll (some g), stage := update s.stage g .ended }

/-- The next operation of a worker; none while it has to wait. -/
def State.workerStep (s : State) (g : Nat) : Option State :=
  match s.stage g with
  | .absent | .ended => none
  | .initializing =>
      some { s with
        count := some (s.count.getD 0 - 1)
        stage := update s.stage g .waiting
        ready := update s.ready g true }
  | .waiting =>
      if s.locks.isFree (some g) (lock1Of g) then
        some { s with
          locks := s.locks.lock (some g) (lock1Of g)
          stage := update s.stage g .scanning
          released := update s.released g true }
      else none
  | .scanning =>
      -- a panic ends this process only
      if s.run.pc g = .finished ∨ (s.run.act g).pc g = .panicked then some (s.exit g)
      else some { s with run := s.run.act g }

/-- The process is there. -/
def Stage.alive : Stage → Bool
  | .initializing | .waiting | .scanning => true
  | .absent | .ended => false

inductive Step : State → State → Prop
  | line {s : State} (l : Line) (h : s.main = .readLine) : Step s (s.readLine l)
  | main {s s' : State} (h : s.mainStep = some s') : Step s s'
  | worker {s s' : State} {g : Nat} (h : s.workerStep g = some s') : Step s s'
  /-- An error that `checkErrorReturn` makes a panic of, as when the lock is not granted in time,
      or a signal. -/
  | die {s : State} {g : Nat} (h : (s.stage g).alive) : Step s (s.exit g)

/-- Main starts: there is no line yet. -/
def begin (db : Db) : State where
  line := ⟨0, 1, 0, Nat.one_pos⟩
  run := ⟨db.afresh, fun _ => ⟨0, 0, 0⟩, fun g => .scan g, []⟩
  count := none
  locks := []
  main := .readLine
  stage _ := .absent
  ready _ := false
  released _ := false

inductive Reach : State → Prop
  | start (db : Db) : Reach (begin db)
  | step {s s' : State} (h : Reach s) (hs : Step s s') : Reach s'

/-! ## 2. What holds of `^count` and the locks -/

/-- The workers that main has counted in `^count`. -/
@[grind] def MainPc.counted (streams : Nat) : MainPc → Nat
  | .readLine | .lock => 0
  | .incr index => index
  | .start index => index + 1
  | _ => streams

/-- The workers that main has started. -/
@[grind] def MainPc.started (streams : Nat) : MainPc → Nat
  | .readLine | .lock => 0
  | .incr index | .start index => index
  | _ => streams

/-- Main has `lock1`. -/
@[grind] def MainPc.holds : MainPc → Bool
  | .incr _ | .start _ | .poll | .unlock => true
  | _ => false

/-- Main has seen a `^count` of 0. -/
@[grind] def MainPc.polled : MainPc → Bool
  | .unlock | .wait _ | .report => true
  | _ => false

/-- Main has let go of `lock1`. -/
@[grind] def MainPc.letGo : MainPc → Bool
  | .wait _ | .report => true
  | _ => false

/-- Main has waited for the worker. -/
@[grind] def MainPc.waitedFor (g : Nat) : MainPc → Prop
  | .wait idx => g < idx
  | .report => True
  | _ => False

/-- What holds of main and its workers while a line is under way. -/
structure Ordered (s : State) : Prop where
  bound : ∀ index, s.main = .incr index ∨ s.main = .start index ∨ s.main = .wait index →
    index < s.line.streams
  absent : ∀ g, s.stage g = .absent ↔ s.main.started s.line.streams ≤ g
  early : ∀ g, s.ready g = true → s.stage g ≠ .absent ∧ s.stage g ≠ .initializing
  ready : ∀ g, s.stage g = .waiting ∨ s.stage g = .scanning → s.ready g = true
  count : s.count.getD 0 =
    (s.main.counted s.line.streams : Int) - (List.range s.line.streams).countP s.ready
  counted : 0 < s.main.counted s.line.streams → s.count.isSome
  polled : s.main.polled = true → ∀ g < s.line.streams, s.ready g = true
  released : ∀ g, s.released g = true → s.main.letGo = true ∧ s.ready g = true
  scanning : ∀ g, s.stage g = .scanning → s.released g = true
  lockMain : ∀ name, (none, name) ∈ s.locks → name = lock1
  lockCount : s.locks.countP (fun e => e.1 = none) = if s.main.holds then 1 else 0
  lockWorker : ∀ g name, (some g, name) ∈ s.locks → s.stage g = .scanning ∧ name = lock1Of g
  waited : ∀ g < s.line.streams, s.main.waitedFor g → s.stage g = .ended

section Ordered

variable {s : State} (h : Ordered s)

include h

/-- All that main has counted have taken themselves off again. -/
theorem Ordered.all_ready (hm : s.main = .poll) (hc : s.count = some 0) :
    ∀ g < s.line.streams, s.ready g = true := by
  have hcount := h.count
  have hle := List.countP_le_length (p := s.ready) (l := List.range s.line.streams)
  rw [hm, hc] at hcount
  simp only [MainPc.counted, Option.getD_some, List.length_range] at hcount hle
  have hall : (List.range s.line.streams).countP s.ready = (List.range s.line.streams).length := by
    rw [List.length_range]
    omega
  intro g hg
  exact List.countP_eq_length.1 hall g (List.mem_range.2 hg)

theorem Ordered.notMem_of_not_holds (hm : s.main.holds = false) (name : List (List Char)) :
    (none, name) ∉ s.locks := by
  intro he
  have hcount := h.lockCount
  rw [hm] at hcount
  simp only [Bool.false_eq_true, if_false, List.countP_eq_zero] at hcount
  exact hcount _ he (decide_eq_true rfl)

/-- There are no locks but main's and those of the workers at their blocks. -/
theorem Ordered.locks_eq_nil (hm : s.main.holds = false) (hidle : ∀ g, s.stage g ≠ .scanning) :
    s.locks = [] := by
  refine List.eq_nil_iff_forall_not_mem.2 fun e he => ?_
  obtain ⟨p, name⟩ := e
  cases p with
  | none => exact h.notMem_of_not_holds hm name he
  | some g => exact hidle g (h.lockWorker g name he).1

/-- Nobody is in the way of main at `lock1`. -/
theorem Ordered.lock_nil (hm : s.main = .lock) : s.locks = [] := by
  refine h.locks_eq_nil (by rw [hm]; rfl) fun g hg => ?_
  rw [(h.absent g).2 (by simp [hm, MainPc.started])] at hg
  cases hg

theorem ordered_lock (hm : s.main = .lock) :
    Ordered { s with
      locks := s.locks.lock none lock1
      main := launchFrom s.line.streams 0 } := by
  have hnil := h.lock_nil hm
  obtain ⟨h1, h2, h3, h4, h5, h6, h7, h8, h9, h10, h11, h12, h13⟩ := h
  have := s.line.streams_pos
  rw [hm, hnil] at *
  rw [launchFrom, if_pos this]
  constructor <;> grind [Locks.lock]

theorem ordered_incr {index : Nat} (hm : s.main = .incr index) :
    Ordered { s with count := some (s.count.getD 0 + 1), main := .start index } := by
  obtain ⟨h1, h2, h3, h4, h5, h6, h7, h8, h9, h10, h11, h12, h13⟩ := h
  rw [hm] at *
  constructor <;> grind

theorem ordered_start {index : Nat} (hm : s.main = .start index) :
    Ordered { s with
      stage := update s.stage index .initializing
      main := launchFrom s.line.streams (index + 1) } := by
  obtain ⟨h1, h2, h3, h4, h5, h6, h7, h8, h9, h10, h11, h12, h13⟩ := h
  rw [hm] at *
  unfold launchFrom
  constructor <;> split <;> grind [update_apply]

theorem ordered_poll (hm : s.main = .poll) (hc : s.count = some 0) :
    Ordered { s with main := .unlock } := by
  have hall := h.all_ready hm hc
  obtain ⟨h1, h2, h3, h4, h5, h6, h7, h8, h9, h10, h11, h12, h13⟩ := h
  rw [hm] at *
  constructor <;> grind

theorem Ordered.mem_of_holds (hm : s.main.holds = true) : (none, lock1) ∈ s.locks := by
  have hcount := h.lockCount
  rw [if_pos hm] at hcount
  obtain ⟨⟨p, name⟩, he, hp⟩ := List.countP_pos_iff.1 (Nat.lt_of_lt_of_eq Nat.one_pos hcount.symm)
  have hp : p = none := of_decide_eq_true hp
  subst hp
  exact h.lockMain name he ▸ he

theorem ordered_unlock (hm : s.main = .unlock) :
    Ordered { s with
      locks := s.locks.unlock none lock1
      main := waitFrom s.line.streams 0 } := by
  have hmem := h.mem_of_holds (by rw [hm]; rfl)
  obtain ⟨h1, h2, h3, h4, h5, h6, h7, h8, h9, h10, h11, h12, h13⟩ := h
  have := s.line.streams_pos
  rw [hm] at *
  rw [waitFrom, if_pos this]
  have hcount : (s.locks.unlock none lock1).countP (fun e => e.1 = none) = 0 := by
    have hperm := (Locks.perm_unlock hmem).countP_eq fun e => e.1 = none
    rw [h11, List.countP_cons] at hperm
    simpa [MainPc.holds] using hperm
  constructor <;> grind [Locks.unlock, List.mem_of_mem_erase]

theorem ordered_wait {idx : Nat} (hm : s.main = .wait idx) (he : s.stage idx = .ended) :
    Ordered { s with main := waitFrom s.line.streams (idx + 1) } := by
  obtain ⟨h1, h2, h3, h4, h5, h6, h7, h8, h9, h10, h11, h12, h13⟩ := h
  rw [hm] at *
  unfold waitFrom
  constructor <;> split <;> grind

theorem Ordered.lt_streams {g : Nat} (hg : s.stage g ≠ .absent) : g < s.line.streams := by
  have hstarted : s.main.started s.line.streams ≤ s.line.streams := by
    cases hm : s.main with
    | incr index => exact Nat.le_of_lt (h.bound index (Or.inl hm))
    | start index => exact Nat.le_of_lt (h.bound index (Or.inr (Or.inl hm)))
    | _ => simp [MainPc.started]
  have hlt := mt (h.absent g).2 hg
  omega

theorem ordered_ready {g : Nat} (hg : s.stage g = .initializing) :
    Ordered { s with
      count := some (s.count.getD 0 - 1)
      stage := update s.stage g .waiting
      ready := update s.ready g true } := by
  have hlt := h.lt_streams (g := g) (by simp [hg])
  have hready : s.ready g = false := by
    rw [← Bool.not_eq_true]
    exact fun hr => (h.early g hr).2 hg
  have hcount := countP_update id s.ready g true (List.range s.line.streams)
    List.nodup_range (List.mem_range.2 hlt)
  obtain ⟨h1, h2, h3, h4, h5, h6, h7, h8, h9, h10, h11, h12, h13⟩ := h
  simp only [id_eq, hready] at hcount
  constructor <;> grind [update_apply]

/-- A worker that is granted its lock finds main without `lock1`: all are ready. -/
theorem Ordered.letGo_of_isFree {g : Nat} (hg : s.stage g = .waiting)
    (hfree : s.locks.isFree (some g) (lock1Of g)) : s.main.letGo = true := by
  have hholds : s.main.holds = false := by
    rw [← Bool.not_eq_true]
    intro hholds
    have hconflict : Conflict (lock1Of g) lock1 := Or.inr (List.prefix_append lock1 _)
    rw [Locks.not_isFree (p := some g) (h.mem_of_holds hholds) nofun hconflict] at hfree
    cases hfree
  have hstarted := mt (h.absent g).2 (by simp [hg])
  cases hm : s.main with
  | wait | report => rfl
  | readLine | lock => simp [hm, MainPc.started] at hstarted
  | _ => simp [hm, MainPc.holds] at hholds

theorem ordered_acquire {g : Nat} (hg : s.stage g = .waiting)
    (hfree : s.locks.isFree (some g) (lock1Of g)) :
    Ordered { s with
      locks := s.locks.lock (some g) (lock1Of g)
      stage := update s.stage g .scanning
      released := update s.released g true } := by
  have hgo := h.letGo_of_isFree hg hfree
  obtain ⟨h1, h2, h3, h4, h5, h6, h7, h8, h9, h10, h11, h12, h13⟩ := h
  constructor <;> grind [update_apply, Locks.mem_lock, Locks.lock]

theorem ordered_exit {g : Nat} (hg : (s.stage g).alive) : Ordered (s.exit g) := by
  have hcount : (s.locks.unlockAll (some g)).countP (fun e => e.1 = none) =
      s.locks.countP fun e => e.1 = none := by
    rw [Locks.unlockAll, List.countP_filter]
    refine List.countP_congr fun e _ => ?_
    cases e.1 <;> simp
  obtain ⟨h1, h2, h3, h4, h5, h6, h7, h8, h9, h10, h11, h12, h13⟩ := h
  unfold State.exit
  constructor <;> grind [update_apply, Locks.mem_unlockAll, Stage.alive]

end Ordered

/-! ## 3. What holds of the blocks -/

/-- A worker is at a block behind the one of its index. -/
def Beyond (g : Nat) : Pc → Prop
  | .scan index => g ≤ index
  | .claim index | .fetchEnd index | .fetchStart index _ => g < index
  | .probe w .. | .fetchStep w .. | .tally w .. | .write w .. => g < w.index
  | .final | .finished => True
  | .panicked => False

theorem beyond_of_block {g index : Nat} {pc : Pc} (h : pc.block = some index) :
    Beyond g pc ↔ g < index := by
  cases pc with
  | scan | claim | final | finished | panicked => cases h
  | _ =>
      obtain rfl := Option.some.inj h
      exact Iff.rfl

theorem beyond_moves {g : Nat} {db : Db} {pc pc' : Pc} {claims : Nat → Nat}
    (h : Moves db pc claims pc') (hb : Beyond g pc) : Beyond g pc' := by
  cases h with
  | next index => exact Nat.lt_succ_of_le hb
  | last => trivial
  | won => exact hb
  | lost => exact Nat.le_of_lt hb
  | work hblk hblk' => exact (beyond_of_block hblk').2 ((beyond_of_block hblk).1 hb)
  | done hblk => exact Nat.le_of_lt ((beyond_of_block hblk).1 hb)
  | finish => trivial
  | finished => trivial

/-- What holds of the workers' places while a line is under way. -/
structure Covered (s : State) : Prop where
  idle : ∀ g, s.released g = false → s.run.pc g = .scan g ∧ (s.run.loc g).highest = 0
  unpanicked : ∀ g, s.run.pc g ≠ .panicked
  beyond : ∀ g, Beyond g (s.run.pc g)
  own : ∀ b g, (b, g) ∈ s.run.processed → g < b ∧ s.released g = true
  work : 0 < s.line.endnum → Blocks s.line.endnum s.run.db.limits ∧ Numbers s.line s.run ∧
    Claims s.line s.run

theorem Covered.congr {s s' : State} (h : Covered s) (hline : s'.line = s.line)
    (hrun : s'.run = s.run) (hrel : s'.released = s.released) : Covered s' := by
  obtain ⟨hidle, hpanic, hbeyond, hown, hwork⟩ := h
  constructor
  · rwa [hrel, hrun]
  · rwa [hrun]
  · rwa [hrun]
  · rwa [hrel, hrun]
  · rwa [hline, hrun]

theorem covered_launch {s : State} (h : s.run.db.Fresh) (l : Line) : Covered (s.readLine l) where
  idle _ _ := ⟨rfl, rfl⟩
  unpanicked _ := nofun
  beyond g := Nat.le_refl g
  own := nofun
  work hend := ⟨launch_blocks l s.run.db hend, launch_numbers l h, launch_claims l s.run.db⟩

section Covered

variable {s : State} {g : Nat}

theorem covered_acquire (h : Covered s) :
    Covered { s with
      locks := s.locks.lock (some g) (lock1Of g)
      stage := update s.stage g .scanning
      released := update s.released g true } where
  idle g' hg' := by
    by_cases hgg : g' = g
    · simp [hgg] at hg'
    · exact h.idle g' (by simpa [hgg] using hg')
  unpanicked := h.unpanicked
  beyond := h.beyond
  own b g' hm := by
    obtain ⟨hlt, hrel⟩ := h.own b g' hm
    refine ⟨hlt, ?_⟩
    by_cases hgg : g' = g
    · simp [hgg]
    · simpa [hgg] using hrel
  work := h.work

/-- An operation at the blocks. -/
theorem covered_act (h : Covered s) (hrel : s.released g = true) (hlt : g < s.line.streams)
    (hp : (s.run.act g).pc g ≠ .panicked) : Covered { s with run := s.run.act g } where
  idle g' hg' := by
    have hgg : g' ≠ g := by
      rintro rfl
      rw [hrel] at hg'
      cases hg'
    rw [act_pc_of_ne hgg, act_loc_of_ne hgg]
    exact h.idle g' hg'
  unpanicked g' := by
    by_cases hgg : g' = g
    · rw [hgg]
      exact hp
    · rw [act_pc_of_ne hgg]
      exact h.unpanicked g'
  beyond g' := by
    by_cases hgg : g' = g
    · subst hgg
      have hm := act_moves s.run.db (s.run.loc g') (s.run.pc g') (act_pc_self (g := g') ▸ hp)
      rw [act_pc_self]
      exact beyond_moves hm (h.beyond g')
    · rw [act_pc_of_ne hgg]
      exact h.beyond g'
  own b g' hm := by
    rcases mem_processed_act.1 hm with hm | ⟨rfl, hcomp⟩
    · exact h.own b g' hm
    · exact ⟨(beyond_of_block (block_of_completed hcomp)).1 (h.beyond g'), hrel⟩
  work hend := by
    obtain ⟨hb, hn, hc⟩ := h.work hend
    refine ⟨?_, numbers_act hb hn hlt, claims_act hb hc hlt hp⟩
    rw [run_grows.limits]
    exact hb

end Covered

/-! ## 4. All runs -/

/-- What holds between two lines. -/
structure Between (s : State) : Prop where
  fresh : s.run.db.Fresh
  locks : s.locks = []
  gone : ∀ g, (s.stage g).alive = false

structure Inv (s : State) : Prop where
  between : s.main = .readLine → Between s
  ordered : s.main ≠ .readLine → Ordered s
  covered : s.main ≠ .readLine → Covered s

theorem Inv.of_running {s : State} (ho : Ordered s) (hc : Covered s) (hm : s.main ≠ .readLine) :
    Inv s := ⟨fun h => absurd h hm, fun _ => ho, fun _ => hc⟩

theorem launchFrom_ne (streams index : Nat) : launchFrom streams index ≠ .readLine := by
  unfold launchFrom
  split <;> nofun

theorem waitFrom_ne (streams idx : Nat) : waitFrom streams idx ≠ .readLine := by
  unfold waitFrom
  split <;> nofun

theorem ordered_readLine {s : State} (h : Between s) (l : Line) : Ordered (s.readLine l) := by
  obtain ⟨-, hlocks, -⟩ := h
  unfold State.readLine
  constructor <;> simp [hlocks, MainPc.started, MainPc.counted, MainPc.polled, MainPc.holds,
    MainPc.waitedFor]

/-- After the last wait nobody is there any more. -/
theorem between_report {s : State} (h : Ordered s) (hm : s.main = .report) :
    Between { s with run := { s.run with db := s.run.db.reset }, main := .readLine } := by
  have hgone (g : Nat) : (s.stage g).alive = false := by
    rcases Nat.lt_or_ge g s.line.streams with hg | hg
    · rw [h.waited g hg (by rw [hm]; trivial)]
      rfl
    · rw [(h.absent g).2 (by rw [hm]; exact hg)]
      rfl
  refine ⟨⟨fun _ => rfl, rfl, rfl⟩, h.locks_eq_nil (by rw [hm]; rfl) fun g hg => ?_, hgone⟩
  have halive := hgone g
  rw [hg] at halive
  cases halive

theorem inv_main {s s' : State} (h : Inv s) (hs : s.mainStep = some s') : Inv s' := by
  have hne : s.main ≠ .readLine := fun hm => by
    rw [State.mainStep, hm] at hs
    cases hs
  have ho := h.ordered hne
  have hc := h.covered hne
  unfold State.mainStep at hs
  cases hm : s.main with
  | readLine => exact absurd hm hne
  | lock =>
      simp only [hm] at hs
      split at hs
      · obtain rfl := Option.some.inj hs
        exact .of_running (ordered_lock ho hm) (hc.congr rfl rfl rfl) (launchFrom_ne _ _)
      · cases hs
  | incr index =>
      simp only [hm] at hs
      obtain rfl := Option.some.inj hs
      exact .of_running (ordered_incr ho hm) (hc.congr rfl rfl rfl) nofun
  | start index =>
      simp only [hm] at hs
      obtain rfl := Option.some.inj hs
      exact .of_running (ordered_start ho hm) (hc.congr rfl rfl rfl) (launchFrom_ne _ _)
  | poll =>
      simp only [hm] at hs
      split at hs
      · next hzero =>
        obtain rfl := Option.some.inj hs
        exact .of_running (ordered_poll ho hm hzero) (hc.congr rfl rfl rfl) nofun
      · cases hs
  | unlock =>
      simp only [hm] at hs
      obtain rfl := Option.some.inj hs
      exact .of_running (ordered_unlock ho hm) (hc.congr rfl rfl rfl) (waitFrom_ne _ _)
  | wait idx =>
      simp only [hm] at hs
      split at hs
      · next hended =>
        obtain rfl := Option.some.inj hs
        exact .of_running (ordered_wait ho hm hended) (hc.congr rfl rfl rfl) (waitFrom_ne _ _)
      · cases hs
  | report =>
      simp only [hm] at hs
      split at hs
      · obtain rfl := Option.some.inj hs
        exact ⟨fun _ => between_report ho hm, fun h => absurd rfl h, fun h => absurd rfl h⟩
      · cases hs

theorem Ordered.with_run {s : State} (h : Ordered s) (r : Run) : Ordered { s with run := r } := by
  obtain ⟨h1, h2, h3, h4, h5, h6, h7, h8, h9, h10, h11, h12, h13⟩ := h
  exact ⟨h1, h2, h3, h4, h5, h6, h7, h8, h9, h10, h11, h12, h13⟩

/-- Only while a line is under way are there workers. -/
theorem Inv.running_of_alive {s : State} {g : Nat} (h : Inv s) (hg : (s.stage g).alive = true) :
    s.main ≠ .readLine := fun hm => by
  rw [(h.between hm).gone g] at hg
  cases hg

theorem inv_exit {s : State} {g : Nat} (h : Inv s) (hg : (s.stage g).alive = true) :
    Inv (s.exit g) := by
  have hne := h.running_of_alive hg
  exact .of_running (ordered_exit (h.ordered hne) hg) ((h.covered hne).congr rfl rfl rfl) hne

theorem inv_worker {s s' : State} {g : Nat} (h : Inv s) (hs : s.workerStep g = some s') : Inv s' := by
  unfold State.workerStep at hs
  cases hg : s.stage g with
  | absent | ended =>
      simp only [hg] at hs
      cases hs
  | initializing =>
      have hne := h.running_of_alive (g := g) (by rw [hg]; rfl)
      simp only [hg] at hs
      obtain rfl := Option.some.inj hs
      exact .of_running (ordered_ready (h.ordered hne) hg)
        ((h.covered hne).congr rfl rfl rfl) hne
  | waiting =>
      have hne := h.running_of_alive (g := g) (by rw [hg]; rfl)
      simp only [hg] at hs
      split at hs
      · next hfree =>
        obtain rfl := Option.some.inj hs
        exact .of_running (ordered_acquire (h.ordered hne) hg hfree)
          (covered_acquire (h.covered hne)) hne
      · cases hs
  | scanning =>
      have halive : (s.stage g).alive = true := by
        rw [hg]
        rfl
      have hne := h.running_of_alive halive
      have ho := h.ordered hne
      simp only [hg] at hs
      split at hs
      · obtain rfl := Option.some.inj hs
        exact inv_exit h halive
      · next hgo =>
        obtain rfl := Option.some.inj hs
        have hlt := ho.lt_streams (g := g) (by rw [hg]; nofun)
        exact .of_running (ho.with_run _) (covered_act (h.covered hne) (ho.scanning g hg) hlt
          fun hp => hgo (Or.inr hp)) hne

theorem inv_of_step {s s' : State} (h : Inv s) (hs : Step s s') : Inv s' := by
  cases hs with
  | line l hm =>
      exact .of_running (ordered_readLine (h.between hm) l)
        (covered_launch (h.between hm).fresh l) nofun
  | main hs => exact inv_main h hs
  | worker hs => exact inv_worker h hs
  | die hg => exact inv_exit h hg

theorem inv_of_reach {s : State} (h : Reach s) : Inv s := by
  induction h with
  | start db =>
      exact ⟨fun _ => ⟨⟨fun _ => rfl, rfl, rfl⟩, rfl, fun _ => rfl⟩, fun h => absurd rfl h,
        fun h => absurd rfl h⟩
  | step _ hs ih => exact inv_of_step ih hs

/-! ## 5. Runs, event by event -/

inductive Event where
  | main
  | worker (g : Nat)
  | die (g : Nat)

def State.next (s : State) : Event → Option State
  | .main => s.mainStep
  | .worker g => s.workerStep g
  | .die g => if (s.stage g).alive then some (s.exit g) else none

def State.exec (s : State) : List Event → Option State
  | [] => some s
  | e :: es => (s.next e).bind fun s' => s'.exec es

theorem reach_exec {es : List Event} : ∀ {s s' : State}, Reach s → s.exec es = some s' → Reach s' := by
  induction es with
  | nil =>
      intro s s' h hes
      exact Option.some.inj hes ▸ h
  | cons e es ih =>
      intro s s' h hes
      obtain ⟨t, ht, hes⟩ := Option.bind_eq_some_iff.1 hes
      refine ih (h.step ?_) hes
      cases e with
      | main => exact .main ht
      | worker g => exact .worker ht
      | die g =>
          by_cases hg : (s.stage g).alive
          · rw [State.next, if_pos hg] at ht
            exact Option.some.inj ht ▸ .die hg
          · rw [State.next, if_neg hg] at ht
            cases ht

/-- The line `2 2`. -/
def lineTwice : Line := ⟨2, 2, 0, Nat.two_pos⟩

/-- Both workers are started and get ready, and main lets go of `lock1`. The second one dies at its
    lock, the first one goes on for `n` operations. -/
def lateDeath (n : Nat) : List Event :=
  [.main, .main, .main, .main, .main, .worker 0, .worker 1, .main, .main, .die 1] ++
    List.replicate n (.worker 0)

def afterDeath (es : List Event) : State :=
  (((begin Go.Db.blank).readLine lineTwice).exec es).getD (begin Go.Db.blank)

theorem reach_afterDeath {es : List Event}
    (h : (((begin Go.Db.blank).readLine lineTwice).exec es).isSome) : Reach (afterDeath es) := by
  obtain ⟨s, hs⟩ := Option.isSome_iff_exists.1 h
  unfold afterDeath
  rw [hs]
  exact reach_exec (.step (.start _) (.line lineTwice rfl)) hs

/-! ## 6. The barrier -/

/-- A worker's place, once it has begun with its blocks. -/
def State.Begun (s : State) (g : Nat) : Prop :=
  s.stage g = .scanning ∨ s.run.pc g ≠ .scan g ∨ ∃ b, (b, g) ∈ s.run.processed

theorem released_of_begun {s : State} {g : Nat} (ho : Ordered s) (hc : Covered s)
    (h : s.Begun g) : s.released g = true := by
  rcases h with h | h | ⟨b, h⟩
  · exact ho.scanning g h
  · rw [← Bool.not_eq_false]
    exact fun hrel => h (hc.idle g hrel).1
  · exact (hc.own b g h).2

/-- No worker has begun with its blocks before each of them has its keys and main has let go of
    `lock1`, whatever the order in which they go on and whoever of them has died. -/
theorem lock1_barrier {s : State} (h : Reach s) (hmain : s.main ≠ .readLine) (g : Nat)
    (hg : s.Begun g) : s.main.letGo = true ∧ ∀ g' < s.line.streams, s.ready g' = true := by
  have ho := (inv_of_reach h).ordered hmain
  have hgo := (ho.released g (released_of_begun ho ((inv_of_reach h).covered hmain) hg)).1
  refine ⟨hgo, ho.polled ?_⟩
  cases hm : s.main with
  | wait | report => rfl
  | _ => simp [hm, MainPc.letGo] at hgo

theorem lock1_barrier_late : (afterDeath (lateDeath 2)).main.letGo = true ∧
    ∀ g' < (afterDeath (lateDeath 2)).line.streams, (afterDeath (lateDeath 2)).ready g' = true :=
  lock1_barrier (reach_afterDeath (by decide)) (by decide) 0 (Or.inl (by decide))

/-! ## 7. Nobody waits for ever -/

/-- Two workers have different locks. -/
theorem lock1Of_free {s : State} (h : Ordered s) (hm : s.main.holds = false) (g : Nat)
    (hg : s.stage g ≠ .scanning) : s.locks.isFree (some g) (lock1Of g) = true := by
  rw [← Bool.not_eq_false]
  intro hfree
  obtain ⟨q, other, hmem, hne, hconflict⟩ := Locks.exists_of_not_isFree hfree
  cases q with
  | none => exact h.notMem_of_not_holds hm other hmem
  | some g' =>
      obtain ⟨hstage, rfl⟩ := h.lockWorker g' other hmem
      have hlen : (lock1Of g).length = (lock1Of g').length := rfl
      rw [conflict_iff_of_length hlen] at hconflict
      have hgg : g = g' := toDigits_inj (List.singleton_injective (List.append_cancel_left hconflict))
      exact hg (hgg ▸ hstage)

/-- Main has a worker to wait for that has not come so far: the worker goes on, or has died. -/
theorem worker_goes_on {s : State} (h : Ordered s) (hm : s.main.started s.line.streams = s.line.streams)
    {g : Nat} (hg : g < s.line.streams) (hwait : s.stage g = .waiting → s.main.holds = false) :
    (s.workerStep g).isSome ∨ s.stage g = .ended := by
  unfold State.workerStep
  cases hstage : s.stage g with
  | absent =>
      have hle := (h.absent g).1 hstage
      omega
  | initializing => exact Or.inl rfl
  | waiting =>
      rw [if_pos (lock1Of_free h (hwait hstage) g (by simp [hstage]))]
      exact Or.inl rfl
  | scanning =>
      left
      dsimp only
      split <;> rfl
  | ended => exact Or.inr rfl

/-- Main and the workers cannot all be waiting: there is a line to be read or a result to be reported,
    or one of them has a next operation, or main looks at a `^count` that a worker has left at 1 or
    more, which died before it was ready. -/
theorem processes_never_stuck {s : State} (h : Reach s) :
    s.main = .readLine ∨ s.main = .report ∨ s.mainStep.isSome ∨
      (∃ g < s.line.streams, (s.workerStep g).isSome) ∨
      s.main = .poll ∧ ∃ g < s.line.streams, s.stage g = .ended ∧ s.ready g = false := by
  by_cases hne : s.main = .readLine
  · exact Or.inl hne
  have ho := (inv_of_reach h).ordered hne
  cases hm : s.main with
  | readLine => exact absurd hm hne
  | report => exact Or.inr (Or.inl rfl)
  | lock =>
      refine Or.inr (Or.inr (Or.inl ?_))
      simp [State.mainStep, hm, ho.lock_nil hm, Locks.isFree]
  | incr index => exact Or.inr (Or.inr (Or.inl (by simp [State.mainStep, hm])))
  | start index => exact Or.inr (Or.inr (Or.inl (by simp [State.mainStep, hm])))
  | unlock => exact Or.inr (Or.inr (Or.inl (by simp [State.mainStep, hm])))
  | wait idx =>
      refine Or.inr (Or.inr ?_)
      have hlt := ho.bound idx (Or.inr (Or.inr hm))
      rcases worker_goes_on ho (by rw [hm]; rfl) hlt fun _ => by rw [hm]; rfl with hstep | hended
      · exact Or.inr (Or.inl ⟨idx, hlt, hstep⟩)
      · exact Or.inl (by simp [State.mainStep, hm, hended])
  | poll =>
      refine Or.inr (Or.inr ?_)
      by_cases hzero : s.count = some 0
      · exact Or.inl (by simp [State.mainStep, hm, hzero])
      -- a count that is not 0 is the number of those who are not ready
      have hpos := s.line.streams_pos
      have hsome := ho.counted (by rw [hm]; exact hpos)
      have hcount := ho.count
      obtain ⟨n, hn⟩ := Option.isSome_iff_exists.1 hsome
      rw [hn] at hzero hcount
      rw [hm] at hcount
      simp only [MainPc.counted, Option.getD_some] at hcount
      have hnot : ¬ ∀ g ∈ List.range s.line.streams, s.ready g = true := fun hall => by
        have hlen := List.countP_eq_length.2 hall
        rw [List.length_range] at hlen
        exact hzero (by rw [hcount, hlen]; simp)
      simp only [List.mem_range, not_forall, Bool.not_eq_true] at hnot
      obtain ⟨g, hg, hready⟩ := hnot
      have hwait : s.stage g ≠ .waiting := fun hstage => by
        rw [ho.ready g (Or.inl hstage)] at hready
        cases hready
      rcases worker_goes_on ho (by rw [hm]; rfl) hg fun hstage => absurd hstage hwait with hstep | hended
      · exact Or.inr (Or.inl ⟨g, hg, hstep⟩)
      · exact Or.inr (Or.inr ⟨rfl, g, hg, hended, hready⟩)

theorem processes_never_stuck_late : (afterDeath (lateDeath 0)).main = .readLine ∨
    (afterDeath (lateDeath 0)).main = .report ∨ (afterDeath (lateDeath 0)).mainStep.isSome ∨
      (∃ g < (afterDeath (lateDeath 0)).line.streams, ((afterDeath (lateDeath 0)).workerStep g).isSome) ∨
      (afterDeath (lateDeath 0)).main = .poll ∧ ∃ g < (afterDeath (lateDeath 0)).line.streams,
        (afterDeath (lateDeath 0)).stage g = .ended ∧ (afterDeath (lateDeath 0)).ready g = false :=
  processes_never_stuck (reach_afterDeath (by decide))

/-! ## 8. What main reports -/

/-- No worker died at its blocks. -/
def State.Sound (s : State) : Prop := ∀ g, s.released g = true → s.run.pc g = .finished

/-- The workers that never came past their lock, as if they had found no block left. -/
def State.allFinished (s : State) : Run :=
  { s.run with pc := fun g => if g < s.line.streams then .finished else s.run.pc g }

section Sound

variable {s : State} (hc : Covered s) (hs : s.Sound)

include hc hs

theorem Sound.at (g : Nat) :
    s.run.pc g = .finished ∨ s.run.pc g = .scan g ∧ (s.run.loc g).highest = 0 := by
  cases hrel : s.released g with
  | true => exact Or.inl (hs g hrel)
  | false => exact Or.inr (hc.idle g hrel)

theorem Sound.block (g : Nat) : (s.run.pc g).block = none := by
  rcases Sound.at hc hs g with h | ⟨h, _⟩
  · rw [h]
    rfl
  · rw [h]
    rfl

theorem Sound.pending (g : Nat) : (s.run.pc g).pending = [] := by
  rcases Sound.at hc hs g with h | ⟨h, _⟩
  · rw [h]
    rfl
  · rw [h]
    rfl

/-- Nobody is at a block any more: who has one has done it. -/
theorem Sound.owns (b g : Nat) : Owns s.run b g ↔ (b, g) ∈ s.run.processed := by
  unfold Owns
  rw [Sound.block hc hs]
  simp

/-- Who has done a block is one of those that came past their lock, with an index below it. -/
theorem Sound.processed_iff (hw : Claims s.line s.run) {b : Nat} (hb : (s.run.db.limits b).isSome) :
    (∃! g, (b, g) ∈ s.run.processed) ↔ ∃ g < b, s.released g = true := by
  constructor
  · rintro ⟨g, hg, _⟩
    exact ⟨g, hc.own b g hg⟩
  · rintro ⟨g, hlt, hrel⟩
    have hpassed : (s.run.pc g).Passed b := by
      rw [hs g hrel]
      trivial
    obtain ⟨g', _, ho⟩ := hw.owned (hw.passed hlt hpassed hb)
    have hdone : (b, g') ∈ s.run.processed := (Sound.owns hc hs b g').1 ho
    exact ⟨g', hdone, fun g'' hg'' => hw.unique (Or.inr hg'') (Or.inr hdone)⟩

theorem Sound.owns_allFinished (b g : Nat) : Owns s.allFinished b g ↔ Owns s.run b g := by
  rw [Sound.owns hc hs]
  unfold Owns State.allFinished
  dsimp only
  split
  · simp [Pc.block]
  · rw [Sound.block hc hs]
    simp

theorem Sound.numbers (hn : Numbers s.line s.run) : Numbers s.line s.allFinished := by
  refine { hn with inv := fun g => ?_, closed := fun {u} hu => ?_ }
  · unfold State.allFinished
    dsimp only
    split
    · rcases Sound.at hc hs g with h | ⟨_, h⟩
      · have hinv := hn.inv g
        rwa [h] at hinv
      · rw [h]
        exact Nat.zero_le _
    · exact hn.inv g
  · rcases hn.closed hu with h | h | ⟨g, h⟩
    · exact Or.inl h
    · exact Or.inr (Or.inl h)
    · rw [Sound.pending hc hs] at h
      cases h

/-- The first worker has been at all blocks. -/
theorem Sound.claims (hb : Blocks s.line.endnum s.run.db.limits) (hw : Claims s.line s.run)
    (hzero : s.released 0 = true) : Claims s.line s.allFinished where
  outside g hg := (if_neg (Nat.not_lt.2 hg)).trans (hw.outside g hg)
  passed {g b} _ _ hlim := by
    obtain ⟨m, hm⟩ := hb.numbered
    refine hw.passed ((hm b).1 hlim).1 ?_ hlim
    rw [hs 0 hzero]
    trivial
  owned {b} hne := by
    obtain ⟨g, hg, h⟩ := hw.owned hne
    exact ⟨g, hg, (Sound.owns_allFinished hc hs b g).2 h⟩
  claimed {b g} h := hw.claimed ((Sound.owns_allFinished hc hs b g).1 h)
  unique {b g g'} h h' := hw.unique ((Sound.owns_allFinished hc hs b g).1 h)
    ((Sound.owns_allFinished hc hs b g').1 h')
  working {b g} hblk hmem := by
    unfold State.allFinished at hblk
    dsimp only at hblk
    split at hblk
    · cases hblk
    · rw [Sound.block hc hs] at hblk
      cases hblk
  nodup := hw.nodup

/-- With the first worker at its blocks there is nothing left for the others. -/
theorem Sound.through (hend : 2 ≤ s.line.endnum) (hzero : s.released 0 = true) :
    Through s.line s.allFinished := by
  obtain ⟨hb, hn, hw⟩ := hc.work (by omega)
  exact ⟨hend, fun g hg => if_pos hg, hb, Sound.numbers hc hs hn, Sound.claims hc hs hb hw hzero⟩

end Sound

/-- When main reports, and those workers that died did so before they were at their blocks, a block has
    been done, by one worker, if and only if a worker of a smaller index came past its lock. So main
    reports the sequential answer if the first worker did, whatever became of the others. -/
theorem processes_answer {s : State} (h : Reach s) (hmain : s.main = .report)
    (hend : 2 ≤ s.line.endnum) (hs : s.Sound) :
    (∀ b, (s.run.db.limits b).isSome →
      ((∃! g, (b, g) ∈ s.run.processed) ↔ ∃ g < b, s.released g = true)) ∧
    (s.released 0 = true → Answer s.line s.run.db) := by
  have hne : s.main ≠ .readLine := by
    rw [hmain]
    nofun
  have hc := (inv_of_reach h).covered hne
  obtain ⟨-, -, hw⟩ := hc.work (by omega)
  exact ⟨fun b hb => Sound.processed_iff hc hs hw hb,
    fun hzero => (Sound.through hc hs hend hzero).answer⟩

/-- The second worker has died, and main reports what the first one has done. -/
def lateReport : State := afterDeath (lateDeath 17 ++ [.main, .main])

theorem processes_answer_late :
    (∀ b, (lateReport.run.db.limits b).isSome →
      ((∃! g, (b, g) ∈ lateReport.run.processed) ↔ ∃ g < b, lateReport.released g = true)) ∧
    (lateReport.released 0 = true → Answer lateReport.line lateReport.run.db) := by
  have hreach : Reach lateReport := reach_afterDeath (by decide)
  refine processes_answer hreach (by decide) (by decide) fun g hg => ?_
  have ho := (inv_of_reach hreach).ordered (by decide)
  have hlt := ho.lt_streams (ho.early g (ho.released g hg).2).1
  have htwo : g < 2 := hlt
  obtain rfl | rfl : g = 0 ∨ g = 1 := by omega
  · decide
  · exact absurd hg (by decide)

end YottaTest.Go.Processes
