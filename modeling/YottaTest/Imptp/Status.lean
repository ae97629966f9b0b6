/-
  File:      YottaTest/Imptp/Status.lean
  Subject:   Invariants that speak of one iteration at a time.

  To the nodes of one iteration a run is short: nothing is there, its job works on it, and at some
  point leaves it. Everything else in the run is about other nodes.

  * `Sys.status` -- how far an iteration is: not begun, under way, or left with `^lasti` set;
  * `IterInv` -- a property of an iteration's own nodes by its status, with what each event of its
    own must do to it;
  * `iterInv_of_reach` -- such a property holds in every state of every run.
-/
import YottaTest.Imptp.Counters

namespace YottaTest.Imptp

open YottaTest.Lib YottaTest.M

/-! ## 1. The status of an iteration -/

/-- How far an iteration is. -/
inductive Status where
  /-- `^lasti` is below it: not begun, or to be begun again. -/
  | ahead
  /-- Its job is in the middle of it, with these steps to do. -/
  | running (rest : List (List Cmd))
  /-- `^lasti` has reached it, and its job has left it. -/
  | behind
  deriving DecidableEq, Repr

/-- An iteration that its job is not working on. -/
def leftStatus (lasti loop : Nat) : Status := if loop ≤ lasti then .behind else .ahead

/-- The status of an iteration by the state of its job and `^lasti`. -/
def jobStatus (js : JobState) (lasti loop : Nat) : Status :=
  match js with
  | .running n _ rest => if loop = n then .running rest else leftStatus lasti loop
  | .idle => leftStatus lasti loop

def Sys.status (s : Sys) (jobno loop : Nat) : Status :=
  jobStatus (s.jobs jobno) (lastiOf s.db jobno) loop

section Status

variable {s : Sys} {jobno loop n I : Nat} {rest : List (List Cmd)}

theorem status_self (h : s.jobs jobno = .running loop I rest) :
    s.status jobno loop = .running rest := by
  simp only [Sys.status, h, jobStatus, if_true]

/-- An iteration other than the one its job works on. -/
theorem status_ne (h : ∀ I rest, s.jobs jobno ≠ .running loop I rest) :
    s.status jobno loop = leftStatus (lastiOf s.db jobno) loop := by
  unfold Sys.status jobStatus
  split
  · rename_i n I rest hrun
    refine if_neg fun hn => ?_
    subst hn
    exact h I rest hrun
  · rfl

theorem status_behind (h : ∀ I rest, s.jobs jobno ≠ .running loop I rest)
    (hle : loop ≤ lastiOf s.db jobno) : s.status jobno loop = .behind :=
  (status_ne h).trans (if_pos hle)

theorem status_ahead (h : ∀ I rest, s.jobs jobno ≠ .running loop I rest)
    (hlt : lastiOf s.db jobno < loop) : s.status jobno loop = .ahead :=
  (status_ne h).trans (if_neg (Nat.not_le.2 hlt))

/-- A job works on one iteration at a time. -/
theorem not_running_of_ne (h : s.jobs jobno = .running n I rest) (hn : loop ≠ n) :
    ∀ I' rest', s.jobs jobno ≠ .running loop I' rest' := by
  intro I' rest' h'
  rw [h] at h'
  exact hn (JobState.running.inj h').1.symm

theorem not_running_of_idle (h : s.jobs jobno = .idle) :
    ∀ I' rest', s.jobs jobno ≠ .running loop I' rest' := by
  intro I' rest' h'
  rw [h] at h'
  cases h'

end Status

/-! ## 2. Invariants of one iteration -/

/-- A database that differs in shared nodes only. -/
theorem agree_of_shared {cfg : Config} {d d' : Db} {jobno loop I : Nat}
    (h : ∀ k : GNode, k.gvn.kind ≠ .shared → d'.get k = d.get k) :
    Agree (Own cfg jobno loop I) d' d := fun k hk =>
  h k fun hsh => not_own_of_shared hsh hk

theorem parentSetup_shared (d : Db) (k : GNode) (hk : k.gvn.kind ≠ .shared) :
    (parentSetup d).get k = d.get k := by
  refine get_parentSetup (fun hm => hk ?_) d
  have hkind : ∀ g ∈ [Gvn.endloop, .cntloop, .cntseq], g.kind = .shared := by decide
  exact hkind _ hm

theorem endloop_shared (d : Db) (v : Val) (k : GNode) (hk : k.gvn.kind ≠ .shared) :
    (d.set (topNode .endloop) v).get k = d.get k :=
  Table.get_set_of_ne d v fun h => hk (h ▸ rfl)

/-- **A property of each iteration's own nodes, by its status**, that the iteration's own events
    keep. `CrashOk` is the condition on a crash with `rest` left to do. -/
structure IterInv (cfg : Config) (CrashOk : Nat → Nat → List (List Cmd) → Prop)
    (Q : Nat → Nat → Status → Db → Prop) : Prop where
  /-- It speaks of the iteration's own nodes only. -/
  congr : ∀ {jobno loop st d d'}, InRange cfg jobno loop →
    Agree (OwnOf cfg jobno loop) d' d → Q jobno loop st d → Q jobno loop st d'
  start : ∀ {jobno loop}, InRange cfg jobno loop → Q jobno loop .ahead Table.empty
  begin : ∀ {jobno loop d} (ch : Chance), InRange cfg jobno loop → Q jobno loop .ahead d →
    Q jobno loop (.running (steps (jobIteration cfg jobno loop ch))) d
  exec : ∀ {jobno loop cs rest d}, InRange cfg jobno loop →
    JobOk cfg jobno loop (usedI cfg.jobcnt jobno loop) (cs :: rest) →
    Q jobno loop (.running (cs :: rest)) d → Q jobno loop (.running rest) (run Cmd.exec cs d)
  finish : ∀ {jobno loop d}, InRange cfg jobno loop → Q jobno loop (.running []) d →
    Q jobno loop .behind d
  crash : ∀ {jobno loop rest d}, JobOk cfg jobno loop (usedI cfg.jobcnt jobno loop) rest →
    CrashOk jobno loop rest → Q jobno loop (.running rest) d →
    Q jobno loop (if left .lasti rest = 0 then .behind else .ahead) d

section Steps

variable {cfg : Config} {preset : Nat} {CrashOk : Nat → Nat → List (List Cmd) → Prop}
  {Q : Nat → Nat → Status → Db → Prop} {s s' : Sys} {e : Event}

/-- The event is in the cycle of the index, and a crash is one that is allowed. -/
def Allowed (cfg : Config) (preset : Nat) (CrashOk : Nat → Nat → List (List Cmd) → Prop)
    (s : Sys) (e : Event) : Prop :=
  InCycle cfg preset s e ∧ ∀ jobno loop I rest, e = .crash jobno →
    s.jobs jobno = .running loop I rest → CrashOk jobno loop rest

/-- What the property says of all iterations. -/
def HoldsAll (cfg : Config) (Q : Nat → Nat → Status → Db → Prop) (s : Sys) : Prop :=
  ∀ jobno loop, InRange cfg jobno loop → Q jobno loop (s.status jobno loop) s.db

/-- One job moves from one iteration's status to another's, the database stays. -/
theorem HoldsAll.put (h : HoldsAll cfg Q s) {jobno : Nat} {js : JobState}
    (hjob : ∀ loop, InRange cfg jobno loop →
      jobStatus js (lastiOf s.db jobno) loop = s.status jobno loop ∨
        Q jobno loop (jobStatus js (lastiOf s.db jobno) loop) s.db) :
    HoldsAll cfg Q (s.put jobno js) := by
  intro j n hr
  by_cases hj : j = jobno
  · subst hj
    have hst : (s.put j js).status j n = jobStatus js (lastiOf s.db j) n := by
      rw [Sys.status, Sys.put_self]
    rw [hst]
    rcases hjob n hr with he | hq
    · rw [he]
      exact h j n hr
    · exact hq
  · have hst : (s.put jobno js).status j n = s.status j n := by
      rw [Sys.status, Sys.put_of_ne s hj]
      rfl
    rw [hst]
    exact h j n hr

variable (ht : cfg.trigger = 0)
include ht

/-- A step of a job is about one iteration. -/
theorem HoldsAll.exec (hQ : IterInv cfg CrashOk Q) (h : HoldsAll cfg Q s) (hj : JobsOk cfg s)
    (hl : LastiOk s) {jobno loop I : Nat} {cs : List Cmd} {rest : List (List Cmd)}
    (hrun : s.jobs jobno = .running loop I (cs :: rest)) :
    HoldsAll cfg Q
      ⟨run Cmd.exec cs s.db, Function.update s.jobs jobno (.running loop I rest)⟩ := by
  have hok := hj _ _ _ _ hrun
  have hcnt := hok.counts ht
  obtain ⟨hr0, rfl, -⟩ := id hok
  intro j n hr
  by_cases hself : j = jobno ∧ n = loop
  · obtain ⟨rfl, rfl⟩ := hself
    have hq := h j n hr
    rw [status_self hrun] at hq
    rw [status_self (Function.update_self j _ s.jobs)]
    exact hQ.exec hr hok hq
  · have hagree : Agree (OwnOf cfg j n) (run Cmd.exec cs s.db) s.db := fun k hk =>
      run_other hok.within (fun hk' => hself (hr.disjoint hr0 hk hk'))
        (fun hsh => not_own_of_shared hsh hk) s.db
    refine hQ.congr hr hagree ?_
    have hst : Sys.status ⟨run Cmd.exec cs s.db, Function.update s.jobs jobno
        (.running loop (usedI cfg.jobcnt jobno loop) rest)⟩ j n = s.status j n := by
      by_cases hjj : j = jobno
      · subst hjj
        have hn : n ≠ loop := fun hn => hself ⟨rfl, hn⟩
        rw [status_ne (not_running_of_ne (Function.update_self j _ s.jobs) hn),
          status_ne (not_running_of_ne hrun hn)]
        show leftStatus (lastiOf (run Cmd.exec cs s.db) j) n = _
        by_cases h0 : (gvns cs).count .lasti = 0
        · rw [lasti_same h0]
        · -- `^lasti` goes from `loop - 1` to `loop`, and `n` is not `loop`
          have hll := hl _ _ _ _ hrun
          have h1 := hok.left_le ht (g := .lasti) (by decide)
          rw [left_cons] at hll h1
          rw [lasti_set hcnt h0]
          exact if_congr (by omega) rfl rfl
      · simp only [Sys.status, Function.update_of_ne hjj, lasti_other hcnt hjj]
    rw [hst]
    exact h j n hr

/-- **Every event keeps such a property.** -/
theorem holdsAll_step (hQ : IterInv cfg CrashOk Q) (h : HoldsAll cfg Q s) (hj : JobsOk cfg s)
    (hl : LastiOk s) (he : Allowed cfg preset CrashOk s e) (hs : StepTo cfg preset s e s') :
    HoldsAll cfg Q s' := by
  have hdb {d : Db} (hd : ∀ k : GNode, k.gvn.kind ≠ .shared → d.get k = s.db.get k)
      (hd' : ∀ j, lastiOf d j = lastiOf s.db j) : HoldsAll cfg Q { s with db := d } := by
    intro j n hr
    have hst : Sys.status { s with db := d } j n = s.status j n := by
      rw [Sys.status, hd']
      rfl
    rw [hst]
    exact hQ.congr hr (agree_of_shared hd) (h j n hr)
  cases hs with
  | parent => exact hdb (parentSetup_shared _) (lastiOf_parentSetup _)
  | endtp => exact hdb (endloop_shared _ _) (lastiOf_endtp _ _)
  | @launch jobno ch hr hidle htop =>
      refine h.put fun n hn => ?_
      by_cases hnew : n = lastiOf s.db jobno + 1
      · subst hnew
        have hq := h jobno _ hn
        rw [status_ahead (not_running_of_idle hidle) (Nat.lt_succ_self _)] at hq
        rw [beginLoop, jobStatus, if_pos rfl, restartI_eq_usedI]
        exact Or.inr (hQ.begin ch hn hq)
      · rw [beginLoop, jobStatus, if_neg hnew, status_ne (not_running_of_idle hidle)]
        exact Or.inl rfl
  | exec hrun => exact h.exec ht hQ hj hl hrun
  | @stop jobno ch loop I hrun =>
      have hll : lastiOf s.db jobno = loop := hl _ _ _ _ hrun
      refine h.put fun n hn => ?_
      by_cases hnew : n = loop
      · subst hnew
        have hq := h jobno _ hn
        rw [status_self hrun] at hq
        rw [jobStatus, leftStatus, if_pos (Nat.le_of_eq hll.symm)]
        exact Or.inr (hQ.finish hn hq)
      · rw [status_ne (not_running_of_ne hrun hnew)]
        exact Or.inl rfl
  | @next jobno ch loop I hrun hend htop =>
      have hll : lastiOf s.db jobno = loop := hl _ _ _ _ hrun
      obtain ⟨hr, rfl, -⟩ := hj _ _ _ _ hrun
      refine h.put fun n hn => ?_
      have hq := h jobno _ hn
      rw [nextI_usedI _ _ hr.loop_pos, beginLoop, jobStatus]
      by_cases hnew : n = loop + 1
      · subst hnew
        rw [status_ahead (not_running_of_ne hrun (Nat.succ_ne_self _)) (by omega)] at hq
        rw [if_pos rfl]
        exact Or.inr (hQ.begin ch hn hq)
      · rw [if_neg hnew]
        by_cases hold : n = loop
        · subst hold
          rw [status_self hrun] at hq
          rw [leftStatus, if_pos (Nat.le_of_eq hll.symm)]
          exact Or.inr (hQ.finish hn hq)
        · rw [status_ne (not_running_of_ne hrun hold)]
          exact Or.inl rfl
  | @crash jobno loop I rest hrun =>
      have hll := hl _ _ _ _ hrun
      have hok := hj _ _ _ _ hrun
      obtain ⟨hr, rfl, -⟩ := id hok
      refine h.put fun n hn => ?_
      by_cases hnew : n = loop
      · subst hnew
        have hq := h jobno _ hn
        rw [status_self hrun] at hq
        have hst : jobStatus .idle (lastiOf s.db jobno) n
            = if left .lasti rest = 0 then .behind else .ahead := if_congr (by omega) rfl rfl
        rw [hst]
        exact Or.inr (hQ.crash hok (he.2 _ _ _ _ rfl hrun) hq)
      · rw [status_ne (not_running_of_ne hrun hnew)]
        exact Or.inl rfl

/-- **Such a property holds in every state of every run** of allowed events. -/
theorem iterInv_of_reach {P : Sys → Event → Prop} (hQ : IterInv cfg CrashOk Q)
    (hP : ∀ s e, P s e → Allowed cfg preset CrashOk s e) (h : Reach cfg preset P s) :
    HoldsAll cfg Q s := by
  have hcyc : ∀ s e, P s e → InCycle cfg preset s e := fun s e hp => (hP s e hp).1
  induction h with
  | start =>
      intro j n hr
      have hst : Sys.start.status j n = .ahead := if_neg (Nat.not_le.2 hr.loop_pos)
      rw [hst]
      exact hQ.congr hr (agree_of_shared (parentSetup_shared Table.empty)) (hQ.start hr)
  | step hr hp hs ih =>
      exact holdsAll_step ht hQ ih (jobsOk_of_reach hcyc hr) (lasti_of_reach ht hcyc hr)
        (hP _ _ hp) (stepTo_of_step hs)

end Steps

end YottaTest.Imptp
