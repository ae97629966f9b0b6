/-
  File:      YottaTest/Stress/Verify.lean
  Subject:   concurr.m: what the jobs leave, and what verify^concurr finds.

  * `Effect` -- what a step of a job does to the database; `Pc.Inv`, `Inv`, `inv_of_reach`;
  * `finalDb` -- the database when all jobs have completed; `db_eq_finalDb`;
  * `verify` -- verify^concurr; `stress_verified`.
-/
import YottaTest.Stress.Jobs

namespace YottaTest.Stress

open Function YottaTest.Lib

/-! ## 1. What holds of a job -/

/-- The job's updates remain. -/
def Writes (jobno : Nat) : Prop := tpflag jobno ≠ .tpr

/-- A job's own nodes of an iteration are right. -/
def Cfg.OwnFilled (c : Cfg) (jobno iter : Nat) (db : Node → Option Nat) : Prop :=
  ∀ ndx g, 0 < ndx → ndx < c.table.prime → g.own = true →
    db (c.node jobno iter ndx g) = some (c.correct ndx g)

/-- What a job has left of an iteration. The nodes that are shared are only safe from then on if
    the job without transactions has done the iteration. -/
def Cfg.Left (c : Cfg) (jobno iter : Nat) (db : Node → Option Nat) : Prop :=
  match tpflag jobno with
  | .ntp => c.Filled jobno iter db
  | .tpr => True
  | .tpc => c.OwnFilled jobno iter db

/-- The same for all iterations up to one. -/
def Cfg.LeftUpTo (c : Cfg) (jobno loop : Nat) (db : Node → Option Nat) : Prop :=
  ∀ iter, 1 ≤ iter → iter ≤ loop → c.Left jobno iter db

def Pc.Inv (c : Cfg) (jobno : Nat) (db : Node → Option Nat) : Pc → Prop
  | .ntp loop rest => tpflag jobno = .ntp ∧ 1 ≤ loop ∧ loop ≤ c.iterate ∧
      c.LeftUpTo jobno (loop - 1) db ∧
      Holds (c.Commits jobno) (c.May jobno loop) rest (fun _ t => c.Filled jobno loop t) db
  | .tran loop => tpflag jobno ≠ .ntp ∧ 1 ≤ loop ∧ loop ≤ c.iterate ∧
      c.LeftUpTo jobno (loop - 1) db
  | .lasti loop => 1 ≤ loop ∧ loop ≤ c.iterate ∧ c.LeftUpTo jobno loop db
  | .completed => c.LeftUpTo jobno c.iterate db
  | .stopped => False

/-- What a step of a job does to the database: it writes its nodes of one iteration, and if it is a
    transaction it leaves them right. -/
def Effect (c : Cfg) (jobno : Nat) (db db' : Node → Option Nat) : Prop :=
  ∀ n, db' n = db n ∨ ∃ loop, 1 ≤ loop ∧ loop ≤ c.iterate ∧ Writes jobno ∧ c.May jobno loop n ∧
    (tpflag jobno ≠ .ntp → db' n = some (c.correct n.ndx n.glob))

section Inv

variable {impl : Impl} {c : Cfg} {jobno other : Nat} {db db' : Node → Option Nat}

theorem Effect.refl : Effect c jobno db db := fun _ => Or.inl rfl

theorem pid_of_may {loop : Nat} {n : Node} (h : c.May jobno loop n) (hne : jobno ≠ other) :
    n.pid ≠ some (c.pid other) := by
  obtain ⟨ndx, g, _, _, rfl⟩ := h
  intro hpid
  cases hg : g.own with
  | false => simp [Cfg.node, hg] at hpid
  | true =>
      have : c.pid jobno = c.pid other := by simpa [Cfg.node, hg] using hpid
      exact hne (c.pid_inj this)

/-- To the job without transactions the others only commit. -/
theorem Effect.commits (h : Effect c jobno db db') (hne : jobno ≠ other)
    (hflag : tpflag jobno ≠ .ntp) : c.Commits other db db' := fun n =>
  (h n).imp_right fun ⟨_, _, _, _, hmay, hright⟩ => ⟨pid_of_may hmay hne, hright hflag⟩

/-- The own nodes of a job are left alone by the others. -/
theorem Effect.own (h : Effect c jobno db db') (hne : jobno ≠ other) {iter ndx : Nat} {g : Glob}
    (hg : g.own = true) : db' (c.node other iter ndx g) = db (c.node other iter ndx g) := by
  refine (h _).resolve_right fun ⟨_, _, _, _, hmay, _⟩ => pid_of_may hmay hne ?_
  simp [Cfg.node, hg]

theorem tpflag_ntp_iff : tpflag jobno = .ntp ↔ jobno ≤ 1 := by
  unfold tpflag
  split
  · simp [*]
  · split
    · simp [*]
    · simp [*]

/-- Of two jobs one has transactions. -/
theorem tpflag_of_ne (hpos : 1 ≤ jobno) (hpos' : 1 ≤ other) (hne : jobno ≠ other)
    (h : tpflag other = .ntp) : tpflag jobno ≠ .ntp := by
  rw [tpflag_ntp_iff] at h
  rw [Ne, tpflag_ntp_iff]
  omega

theorem Effect.left (h : Effect c jobno db db') (hpos : 1 ≤ jobno) (hpos' : 1 ≤ other)
    (hne : jobno ≠ other) {loop : Nat} (hleft : c.LeftUpTo other loop db) :
    c.LeftUpTo other loop db' := by
  intro iter hiter hle
  have := hleft iter hiter hle
  unfold Cfg.Left at this ⊢
  cases hflag : tpflag other with
  | ntp =>
      rw [hflag] at this
      have hcommits := h.commits hne (tpflag_of_ne hpos hpos' hne hflag)
      exact fun ndx g hndx hlt => (rely_commits c other iter).correct hcommits (this ndx g hndx hlt)
  | tpr => trivial
  | tpc =>
      rw [hflag] at this
      exact fun ndx g hndx hlt hg => (h.own hne hg).trans (this ndx g hndx hlt hg)

/-- A job is not disturbed by the others. -/
theorem Effect.inv (h : Effect c jobno db db') (hpos : 1 ≤ jobno) (hpos' : 1 ≤ other)
    (hne : jobno ≠ other) {pc : Pc} (hpc : pc.Inv c other db) : pc.Inv c other db' := by
  cases pc with
  | ntp loop rest =>
      obtain ⟨hflag, hloop, hle, hleft, hrest⟩ := hpc
      have hcommits := h.commits hne (tpflag_of_ne hpos hpos' hne hflag)
      exact ⟨hflag, hloop, hle, h.left hpos hpos' hne hleft,
        hrest.stable (rely_commits c other loop).toIsRely hcommits⟩
  | tran loop =>
      obtain ⟨hflag, hloop, hle, hleft⟩ := hpc
      exact ⟨hflag, hloop, hle, h.left hpos hpos' hne hleft⟩
  | lasti loop =>
      obtain ⟨hloop, hle, hleft⟩ := hpc
      exact ⟨hloop, hle, h.left hpos hpos' hne hleft⟩
  | completed => exact h.left hpos hpos' hne hpc
  | stopped => exact hpc

/-! ## 2. The job's own step -/

theorem left_of_eq {iter : Nat} (h : c.Left jobno iter db)
    (heq : ∀ ndx g, db' (c.node jobno iter ndx g) = db (c.node jobno iter ndx g)) :
    c.Left jobno iter db' := by
  unfold Cfg.Left at h ⊢
  cases hflag : tpflag jobno with
  | ntp =>
      rw [hflag] at h
      exact fun ndx g hndx hlt => (heq ndx g).trans (h ndx g hndx hlt)
  | tpr => trivial
  | tpc =>
      rw [hflag] at h
      exact fun ndx g hndx hlt hg => (heq ndx g).trans (h ndx g hndx hlt hg)

/-- An iteration leaves the ones before it alone. -/
theorem leftUpTo_of_frame {loop : Nat} (hloop : 1 ≤ loop) (h : c.LeftUpTo jobno (loop - 1) db)
    (hframe : ∀ n, ¬ c.May jobno loop n → db' n = db n) : c.LeftUpTo jobno (loop - 1) db' := by
  intro iter hiter hle
  refine left_of_eq (h iter hiter hle) fun ndx g => hframe _ fun hmay => ?_
  obtain ⟨ndx', g', _, _, heq⟩ := hmay
  have : iter = loop := congrArg Node.iter heq
  omega

theorem left_of_filled {iter : Nat} (h : c.Filled jobno iter db) : c.Left jobno iter db := by
  unfold Cfg.Left
  cases tpflag jobno with
  | ntp => exact h
  | tpr => trivial
  | tpc => exact fun ndx g hndx hlt _ => h ndx g hndx hlt

theorem leftUpTo_succ {loop : Nat} (h : c.LeftUpTo jobno (loop - 1) db)
    (hleft : c.Left jobno loop db) : c.LeftUpTo jobno loop db := by
  intro iter hiter hle
  rcases Nat.lt_or_eq_of_le hle with hlt | heq
  · exact h iter hiter (by omega)
  · rw [heq]
    exact hleft

theorem next_inv (ht : c.table ∈ initdat) {loop : Nat} (hloop : loop ≤ c.iterate)
    (h : c.LeftUpTo jobno loop db) : (next impl c jobno (loop + 1)).Inv c jobno db := by
  unfold next
  split
  · next hle =>
      cases hflag : tpflag jobno with
      | ntp => exact ⟨hflag, by omega, hle, h, holds_body ht (rely_commits c jobno _)⟩
      | tpr => exact ⟨by simp [hflag], by omega, hle, h⟩
      | tpc => exact ⟨by simp [hflag], by omega, hle, h⟩
  · next hgt =>
      have heq : loop = c.iterate := by omega
      rw [heq] at h
      exact h

/-- What a step of a job does: its effect, its own part of the invariant, and no report. -/
structure Acts (impl : Impl) (c : Cfg) (s s' : State) (jobno : Nat) : Prop where
  effect : Effect c jobno s.db s'.db
  inv : (s'.pc jobno).Inv c jobno s'.db
  reports : s'.reports = s.reports
  others : ∀ k, k ≠ jobno → s'.pc k = s.pc k

variable {s : State}

/-- An operation without a transaction. -/
theorem acts_ntp {loop : Nat} {rest : Prog Node Nat Report Unit}
    (h : (Pc.ntp loop rest).Inv c jobno s.db) :
    Acts impl c s { s with
      db := (rest.step s.db).1
      pc := update s.pc jobno (.ntp loop (rest.step s.db).2.2)
      reports := s.reports ++ (rest.step s.db).2.1.map fun m => (jobno, m) } jobno := by
  obtain ⟨hflag, hloop, hle, hleft, hrest⟩ := h
  obtain ⟨hsay, hnext, hframe⟩ := hrest.step (rely_commits c jobno loop).toIsRely
  refine ⟨fun n => ?_, ?_, ?_, fun k hk => update_of_ne hk ..⟩
  · by_cases hmay : c.May jobno loop n
    · have hwrites : Writes jobno := by simp [Writes, hflag]
      exact Or.inr ⟨loop, hloop, hle, hwrites, hmay, fun hno => absurd hflag hno⟩
    · exact Or.inl (hframe n hmay)
  · dsimp only
    rw [update_self]
    exact ⟨hflag, hloop, hle, leftUpTo_of_frame hloop hleft hframe, hnext⟩
  · dsimp only
    rw [hsay, List.map_nil, List.append_nil]

/-- A whole transaction. -/
theorem acts_tran (ht : c.table ∈ initdat) {loop : Nat} (hpc : s.pc jobno = .tran loop)
    (h : (Pc.tran loop).Inv c jobno s.db) : Acts impl c s (s.act impl c jobno) jobno := by
  obtain ⟨hflag, hloop, hle, hleft⟩ := h
  obtain ⟨db', u, hrun, hfilled, hframe⟩ :=
    Holds.run isRely_eq (holds_body ht (rely_eq c jobno loop) : Holds _ _ (body impl c _ _) _ s.db)
  by_cases htpc : tpflag jobno = .tpc
  · simp only [State.act, hpc, hrun, if_pos htpc]
    refine ⟨fun n => ?_, ?_, by simp, fun k hk => update_of_ne hk ..⟩
    · by_cases hmay : c.May jobno loop n
      · have hwrites : Writes jobno := by simp [Writes, htpc]
        refine Or.inr ⟨loop, hloop, hle, hwrites, hmay, fun _ => ?_⟩
        obtain ⟨ndx, g, hndx, hlt, heq⟩ := hmay
        rw [heq]
        exact hfilled ndx g hndx hlt
      · exact Or.inl (hframe n hmay)
    · dsimp only
      rw [update_self]
      exact ⟨hloop, hle,
        leftUpTo_succ (leftUpTo_of_frame hloop hleft hframe) (left_of_filled hfilled)⟩
  · have htpr : tpflag jobno = .tpr := by
      cases hf : tpflag jobno with
      | ntp => exact absurd hf hflag
      | tpr => rfl
      | tpc => exact absurd hf htpc
    have hleft' : c.Left jobno loop s.db := by simp [Cfg.Left, htpr]
    simp only [State.act, hpc, hrun, if_neg htpc]
    refine ⟨Effect.refl, ?_, by simp, fun k hk => update_of_ne hk ..⟩
    dsimp only
    rw [update_self]
    exact ⟨hloop, hle, leftUpTo_succ hleft hleft'⟩

theorem acts_act (ht : c.table ∈ initdat) (h : (s.pc jobno).Inv c jobno s.db) :
    Acts impl c s (s.act impl c jobno) jobno := by
  cases hpc : s.pc jobno with
  | ntp loop rest =>
      rw [hpc] at h
      cases rest with
      | ret u =>
          have hfilled := h.2.2.2.2 s.db ((rely_commits c jobno loop).refl s.db)
          simp only [State.act, hpc]
          refine ⟨Effect.refl, ?_, rfl, fun k hk => update_of_ne hk ..⟩
          dsimp only
          rw [update_self]
          exact ⟨h.2.1, h.2.2.1, leftUpTo_succ h.2.2.2.1 (left_of_filled hfilled)⟩
      | read n next =>
          simp only [State.act, hpc]
          exact acts_ntp h
      | write n v next =>
          simp only [State.act, hpc]
          exact acts_ntp h
      | tell m next => exact h.2.2.2.2.elim
      | stop m => exact h.2.2.2.2.elim
  | tran loop => exact acts_tran ht hpc (hpc ▸ h)
  | lasti loop =>
      rw [hpc] at h
      simp only [State.act, hpc]
      refine ⟨Effect.refl, ?_, rfl, fun k hk => update_of_ne hk ..⟩
      dsimp only
      rw [update_self]
      exact next_inv ht h.2.1 h.2.2
  | completed =>
      simp only [State.act, hpc]
      exact ⟨Effect.refl, h, rfl, fun _ _ => rfl⟩
  | stopped =>
      rw [hpc] at h
      exact h.elim

end Inv

/-! ## 3. Every run -/

/-- What holds in every state of a run that began with the given database. -/
structure Inv (c : Cfg) (db : Node → Option Nat) (s : State) : Prop where
  job : ∀ jobno, 1 ≤ jobno → jobno ≤ 10 → (s.pc jobno).Inv c jobno s.db
  frame : ∀ n, s.db n = db n ∨ ∃ jobno iter, 1 ≤ jobno ∧ jobno ≤ 10 ∧ Writes jobno ∧ 1 ≤ iter ∧
    iter ≤ c.iterate ∧ c.May jobno iter n
  reports : s.reports = []

theorem inv_of_reach {impl : Impl} {c : Cfg} {db : Node → Option Nat} {s : State}
    (ht : c.table ∈ initdat) (h : Reach impl c db s) : Inv c db s := by
  induction h with
  | start =>
      refine ⟨fun jobno _ _ => ?_, fun n => Or.inl rfl, rfl⟩
      exact next_inv ht (Nat.zero_le _) fun iter hiter hle => absurd hle (by omega)
  | @act s jobno _ hpos hle ih =>
      have hacts : Acts impl c s (s.act impl c jobno) jobno := acts_act ht (ih.job jobno hpos hle)
      refine ⟨fun other hpos' hle' => ?_, fun n => ?_, hacts.reports.trans ih.reports⟩
      · by_cases hother : other = jobno
        · rw [hother]
          exact hacts.inv
        · rw [hacts.others other hother]
          exact hacts.effect.inv hpos hpos' (Ne.symm hother) (ih.job other hpos' hle')
      · rcases hacts.effect n with hn | ⟨iter, hiter, hT, hwrites, hmay, _⟩
        · rw [hn]
          exact ih.frame n
        · exact Or.inr ⟨jobno, iter, hpos, hle, hwrites, hiter, hT, hmay⟩

/-! ## 4. When all jobs have completed -/

def Completed (s : State) : Prop := ∀ jobno, 1 ≤ jobno → jobno ≤ 10 → s.pc jobno = .completed

/-- The jobs whose updates remain. -/
def writers : List Nat := [1, 6, 7, 8, 9, 10]

/-- The node is filled by some job. -/
def Cfg.isFilled (c : Cfg) (n : Node) : Bool :=
  0 < n.ndx && n.ndx < c.table.prime && n.obj == c.cust n.ndx && 1 ≤ n.iter && n.iter ≤ c.iterate &&
    match n.pid with
    | none => !n.glob.own
    | some pid => n.glob.own && writers.any fun jobno => c.pid jobno == pid

/-- The database after the run: the nodes that are filled hold the index, or `prime` where there is
    one for each process. -/
def finalDb (c : Cfg) (db : Node → Option Nat) (n : Node) : Option Nat :=
  if c.isFilled n then some (c.correct n.ndx n.glob) else db n

theorem mem_writers {jobno : Nat} :
    jobno ∈ writers ↔ 1 ≤ jobno ∧ jobno ≤ 10 ∧ Writes jobno := by
  have hall : ∀ j ∈ writers, 1 ≤ j ∧ j ≤ 10 ∧ tpflag j ≠ .tpr := by decide
  have hback : ∀ j < 11, 1 ≤ j → tpflag j ≠ .tpr → j ∈ writers := by decide
  exact ⟨hall jobno, fun ⟨hpos, hle, hw⟩ => hback jobno (by omega) hpos hw⟩

theorem isFilled_iff {c : Cfg} {n : Node} : c.isFilled n = true ↔
    ∃ jobno iter, jobno ∈ writers ∧ 1 ≤ iter ∧ iter ≤ c.iterate ∧ c.May jobno iter n := by
  obtain ⟨g, ndx, obj, pid, iter⟩ := n
  constructor
  · intro h
    simp only [Cfg.isFilled, Bool.and_eq_true, decide_eq_true_eq, beq_iff_eq] at h
    obtain ⟨⟨⟨⟨⟨hndx, hlt⟩, rfl⟩, hiter⟩, hle⟩, hpid⟩ := h
    cases pid with
    | none =>
        have hg : g.own = false := by simpa using hpid
        exact ⟨1, iter, by decide, hiter, hle, ndx, g, hndx, hlt, by simp [Cfg.node, hg]⟩
    | some pid =>
        simp only [Bool.and_eq_true, List.any_eq_true, beq_iff_eq] at hpid
        obtain ⟨hg, jobno, hjob, rfl⟩ := hpid
        exact ⟨jobno, iter, hjob, hiter, hle, ndx, g, hndx, hlt, by simp [Cfg.node, hg]⟩
  · intro h
    obtain ⟨jobno, it, hjob, hiter, hle, ndx', g', hndx, hlt, heq⟩ := h
    rw [heq]
    cases hg : g'.own with
    | false => simp [Cfg.isFilled, Cfg.node, hndx, hlt, hiter, hle, hg]
    | true =>
        simp only [Cfg.isFilled, Cfg.node, hndx, hlt, hiter, hle, hg, if_true, decide_true,
          Bool.and_true, beq_self_eq_true, Bool.true_and, List.any_eq_true, beq_iff_eq]
        exact ⟨jobno, hjob, rfl⟩

section Completed

variable {impl : Impl} {c : Cfg} {db : Node → Option Nat} {s : State}

theorem Inv.left (h : Inv c db s) (hs : Completed s) {jobno iter : Nat} (hpos : 1 ≤ jobno)
    (hle : jobno ≤ 10) (hiter : 1 ≤ iter) (hT : iter ≤ c.iterate) : c.Left jobno iter s.db := by
  have hjob := h.job jobno hpos hle
  rw [hs jobno hpos hle] at hjob
  exact hjob iter hiter hT

/-- Every writer's nodes are right, those that are shared thanks to the job without
    transactions. -/
theorem Inv.filled (h : Inv c db s) (hs : Completed s) {jobno iter : Nat}
    (hjob : jobno ∈ writers) (hiter : 1 ≤ iter) (hT : iter ≤ c.iterate) :
    c.Filled jobno iter s.db := by
  intro ndx g hndx hlt
  obtain ⟨hpos, hle, hwrites⟩ := mem_writers.mp hjob
  cases hg : g.own with
  | false =>
      have hshared : c.node jobno iter ndx g = c.node 1 iter ndx g := by simp [Cfg.node, hg]
      have hone : c.Filled 1 iter s.db := h.left hs (Nat.le_refl 1) (by decide) hiter hT
      rw [hshared]
      exact hone ndx g hndx hlt
  | true =>
      have hleft := h.left hs hpos hle hiter hT
      unfold Cfg.Left at hleft
      cases hflag : tpflag jobno with
      | ntp =>
          rw [hflag] at hleft
          exact hleft ndx g hndx hlt
      | tpr => exact absurd hflag hwrites
      | tpc =>
          rw [hflag] at hleft
          exact hleft ndx g hndx hlt hg

theorem Inv.db_eq (h : Inv c db s) (hs : Completed s) : s.db = finalDb c db := by
  funext n
  unfold finalDb
  split
  · next hn =>
      obtain ⟨jobno, iter, hjob, hiter, hT, ndx, g, hndx, hlt, heq⟩ := isFilled_iff.mp hn
      rw [heq]
      exact h.filled hs hjob hiter hT ndx g hndx hlt
  · next hn =>
      refine (h.frame n).resolve_right fun hmay => hn (isFilled_iff.mpr ?_)
      obtain ⟨jobno, iter, hpos, hle, hwrites, hiter, hT, hmay⟩ := hmay
      exact ⟨jobno, iter, mem_writers.mpr ⟨hpos, hle, hwrites⟩, hiter, hT, hmay⟩

end Completed

/-! ## 5. verify^concurr -/

/-- A FOR loop over the values of an argument. -/
def forEach {ι : Type} (is : List ι) (f : ι → Prog Node Nat Report Unit) :
    Prog Node Nat Report Unit :=
  match is with
  | [] => pure ()
  | i :: is => do
      f i
      forEach is f

/-- verify -/
def verify (c : Cfg) : Prog Node Nat Report Unit :=
  forEach [1, 6, 7, 8, 9, 10] fun jobno =>
    forEach (List.range' 1 12) fun veriter => randfill .m c jobno .ver 1 veriter

theorem holds_forEach {ι : Type} {rely : (Node → Option Nat) → (Node → Option Nat) → Prop}
    {may : Node → Prop} {P : (Node → Option Nat) → Prop} {f : ι → Prog Node Nat Report Unit}
    (hr : IsRely rely) (hstable : ∀ {s s'}, P s → rely s s' → P s') {is : List ι}
    (hf : ∀ i ∈ is, ∀ s, P s → Holds rely may (f i) (fun _ t => P t) s) {s : Node → Option Nat}
    (hs : P s) : Holds rely may (forEach is f) (fun _ t => P t) s := by
  induction is generalizing s with
  | nil => exact fun t ht => hstable hs ht
  | cons i is ih =>
      refine Holds.bind hr ((hf i List.mem_cons_self s hs).mono fun _ t ht => ?_)
      exact ih (fun i hi => hf i (List.mem_cons_of_mem _ hi)) ht

/-- With all nodes right the verification finds nothing. -/
theorem verify_run {c : Cfg} (ht : c.table ∈ initdat) {db : Node → Option Nat}
    (hdb : ∀ jobno ∈ writers, ∀ iter, 1 ≤ iter → iter ≤ 12 → c.Filled jobno iter db) :
    ∃ t, (verify c).run db = (t, [], some ()) := by
  have hstable {t t' : Node → Option Nat} (h : t = db) (h' : t' = t) : t' = db := h'.trans h
  have hholds : Holds (fun s s' => s' = s) (fun _ => False) (verify c) (fun _ t => t = db) db := by
    refine holds_forEach isRely_eq hstable (fun jobno hjob s hs => ?_) rfl
    refine holds_forEach isRely_eq hstable (fun veriter hver s hs => ?_) hs
    have hver := List.mem_range'_1.mp hver
    have hroot : IsGenerator c.table.prime (c.table.root 1) :=
      initdat_isGenerator ht (Table.root_mem (initdat_length ht) (by decide))
    have hfilled := hdb jobno hjob veriter hver.1 (by omega)
    rw [← hs] at hfilled
    exact Holds.mono
      (holds_ver (P := fun t => t = db) hstable (rely_eq c jobno veriter) hroot hfilled hs)
      fun _ _ h => h.2
  obtain ⟨t, u, hrun, _⟩ := hholds.run isRely_eq
  exact ⟨t, hrun⟩

/-- **The stress run leaves a verifiable database**, whatever the order of the jobs' operations and
    transactions and whichever implementation the jobs run: no job finds an error or runs into one,
    and when all have completed the database is `finalDb`, the nodes of the writers hold the index or
    `prime`, and verify^concurr finds nothing. -/
theorem stress_verified {impl : Impl} {c : Cfg} {db : Node → Option Nat} {s : State}
    (ht : c.table ∈ initdat) (hT : 12 ≤ c.iterate) (h : Reach impl c db s) :
    s.reports = [] ∧ (∀ jobno, 1 ≤ jobno → jobno ≤ 10 → s.pc jobno ≠ .stopped) ∧
      (Completed s → s.db = finalDb c db ∧
        (∀ jobno ∈ writers, ∀ iter, 1 ≤ iter → iter ≤ 12 → c.Filled jobno iter s.db) ∧
          ∃ t, (verify c).run s.db = (t, [], some ())) := by
  have hinv := inv_of_reach ht h
  refine ⟨hinv.reports, fun jobno hpos hle hstop => ?_, fun hs => ?_⟩
  · have hjob := hinv.job jobno hpos hle
    rw [hstop] at hjob
    exact hjob
  · have hfilled : ∀ jobno ∈ writers, ∀ iter, 1 ≤ iter → iter ≤ 12 → c.Filled jobno iter s.db :=
      fun jobno hjob iter hiter hle => hinv.filled hs hjob hiter (Nat.le_trans hle hT)
    exact ⟨hinv.db_eq hs, hfilled, verify_run ht hfilled⟩

/-! ## 6. A run can complete -/

section Complete

variable {impl : Impl} {c : Cfg} {db : Node → Option Nat} {s : State} {jobno : Nat}

/-- A run in which only one job goes on, up to a place. -/
def Leads (impl : Impl) (c : Cfg) (db : Node → Option Nat) (jobno : Nat) (s : State) (pc : Pc) :
    Prop :=
  ∃ s', Reach impl c db s' ∧ s'.pc jobno = pc ∧ ∀ k, k ≠ jobno → s'.pc k = s.pc k

theorem Leads.trans {s' : State} {pc : Pc} (hs : ∀ k, k ≠ jobno → s'.pc k = s.pc k)
    (h : Leads impl c db jobno s' pc) : Leads impl c db jobno s pc := by
  obtain ⟨t, ht, hpc, hothers⟩ := h
  exact ⟨t, ht, hpc, fun k hk => (hothers k hk).trans (hs k hk)⟩

theorem leads_ntp (ht : c.table ∈ initdat) (hpos : 1 ≤ jobno) (hle : jobno ≤ 10) {loop : Nat}
    {rest : Prog Node Nat Report Unit} (h : Reach impl c db s)
    (hpc : s.pc jobno = .ntp loop rest) : Leads impl c db jobno s (.lasti loop) := by
  have hothers {s : State} (h : Reach impl c db s) : ∀ k, k ≠ jobno →
      (s.act impl c jobno).pc k = s.pc k :=
    (acts_act ht ((inv_of_reach ht h).job jobno hpos hle)).others
  induction rest generalizing s with
  | ret u =>
      refine ⟨_, h.act hpos hle, ?_, hothers h⟩
      simp [State.act, hpc]
  | read n next ih =>
      refine Leads.trans (hothers h) (ih (s.db n) (h.act hpos hle) ?_)
      simp [State.act, hpc, Prog.step]
  | write n v next ih =>
      refine Leads.trans (hothers h) (ih (h.act hpos hle) ?_)
      simp [State.act, hpc, Prog.step]
  | tell m next _ =>
      have hjob := (inv_of_reach ht h).job jobno hpos hle
      rw [hpc] at hjob
      exact hjob.2.2.2.2.elim
  | stop m =>
      have hjob := (inv_of_reach ht h).job jobno hpos hle
      rw [hpc] at hjob
      exact hjob.2.2.2.2.elim

theorem leads_tran (ht : c.table ∈ initdat) (hpos : 1 ≤ jobno) (hle : jobno ≤ 10) {loop : Nat}
    (h : Reach impl c db s) (hpc : s.pc jobno = .tran loop) :
    Leads impl c db jobno s (.lasti loop) := by
  obtain ⟨db', u, hrun, _⟩ :=
    Holds.run isRely_eq (holds_body ht (rely_eq c jobno loop) : Holds _ _ (body impl c _ _) _ s.db)
  refine ⟨_, h.act hpos hle, ?_, (acts_act ht ((inv_of_reach ht h).job jobno hpos hle)).others⟩
  simp [State.act, hpc, hrun]

/-- From the head of its loop a job can complete. -/
theorem leads_completed (ht : c.table ∈ initdat) (hpos : 1 ≤ jobno) (hle : jobno ≤ 10) (turns : Nat)
    {loop : Nat} (hturns : c.iterate + 1 = loop + turns) (h : Reach impl c db s)
    (hpc : s.pc jobno = next impl c jobno loop) : Leads impl c db jobno s .completed := by
  induction turns generalizing loop s with
  | zero =>
      refine ⟨s, h, ?_, fun _ _ => rfl⟩
      rw [hpc, next, if_neg (by omega)]
  | succ turns ih =>
      have hlasti : Leads impl c db jobno s (.lasti loop) := by
        rw [next, if_pos (by omega)] at hpc
        cases hflag : tpflag jobno with
        | ntp =>
            rw [hflag] at hpc
            exact leads_ntp ht hpos hle h hpc
        | tpr =>
            rw [hflag] at hpc
            exact leads_tran ht hpos hle h hpc
        | tpc =>
            rw [hflag] at hpc
            exact leads_tran ht hpos hle h hpc
      obtain ⟨s', hs', hpc', hothers⟩ := hlasti
      have hacts : Acts impl c s' (s'.act impl c jobno) jobno :=
        acts_act ht ((inv_of_reach ht hs').job jobno hpos hle)
      have hturns' : c.iterate + 1 = loop + 1 + turns := by omega
      refine Leads.trans (fun k hk => (hacts.others k hk).trans (hothers k hk))
        (ih hturns' (hs'.act hpos hle) ?_)
      simp [State.act, hpc']

/-- The jobs can complete, one after the other. -/
theorem exists_completed (ht : c.table ∈ initdat) (impl : Impl) (db : Node → Option Nat) :
    ∃ s, Reach impl c db s ∧ Completed s := by
  have hupto (n : Nat) (hn : n ≤ 10) : ∃ s, Reach impl c db s ∧
      (∀ jobno, 1 ≤ jobno → jobno ≤ n → s.pc jobno = .completed) ∧
        ∀ jobno, n < jobno → s.pc jobno = next impl c jobno 1 := by
    induction n with
    | zero => exact ⟨_, .start, fun jobno hpos hle => absurd hle (by omega), fun _ _ => rfl⟩
    | succ n ih =>
        obtain ⟨s, hs, hdone, hrest⟩ := ih (by omega)
        have hlead : Leads impl c db (n + 1) s .completed := leads_completed ht (by omega) hn
          c.iterate (Nat.add_comm _ _) hs (hrest (n + 1) (by omega))
        obtain ⟨s', hs', hpc, hothers⟩ := hlead
        refine ⟨s', hs', fun jobno hpos hle => ?_, fun jobno hlt => ?_⟩
        · rcases Nat.lt_or_eq_of_le hle with hlt | heq
          · rw [hothers jobno (by omega)]
            exact hdone jobno hpos (by omega)
          · rw [heq]
            exact hpc
        · rw [hothers jobno (by omega)]
          exact hrest jobno (by omega)
  obtain ⟨s, hs, hdone, _⟩ := hupto 10 (Nat.le_refl _)
  exact ⟨s, hs, hdone⟩

end Complete

/-- The run of the test: the table `lhuge` and 12 iterations. -/
def cfgHuge : Cfg where
  table := lhuge
  cust i := toString i
  pid jobno := jobno
  pid_inj h := h
  iterate := 12

theorem stress_verified_lhuge : ∃ s, Reach .m cfgHuge (fun _ => none) s ∧ Completed s ∧
    s.reports = [] ∧ s.db = finalDb cfgHuge fun _ => none := by
  obtain ⟨s, hs, hdone⟩ := exists_completed (c := cfgHuge) (by decide) .m fun _ => none
  have h := stress_verified (by decide) (Nat.le_refl 12) hs
  exact ⟨s, hs, hdone, h.1, (h.2.2 hdone).1⟩

end YottaTest.Stress
