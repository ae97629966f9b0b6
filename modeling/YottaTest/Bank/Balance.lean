/-
  File:      YottaTest/Bank/Balance.lean
  Subject:   mrtst and mrtptst: the accounts are balanced wherever no job is between its updates.

  The lock of an account stands for it: while it is free the account is balanced, and while a job has it,
  the place of the job says how far the three updates are.

  * `Update.acct`, `Update.held` -- the account of an update, and the one whose lock it has;
  * `StageOk`, `Owner`, `Books` -- what a place says, who has which lock, and what holds at every step;
  * `books_run` -- in every run, unless a job has died between its updates;
  * `run_verdict` -- **PASS means that all updates are made, and the accounts are balanced, so that
    mrverify finds no error.**
-/
import YottaTest.Bank.Jobs

namespace YottaTest.Bank

open Function YottaTest.Lib

/-! ## 1. What the place of a job says about its account -/

def Update.acct : Update → Nat
  | .lock acct | .name acct _ | .balance acct _ | .jnlrec acct _ _ | .error acct | .setCount acct _ _ _
  | .setDelta acct _ _ _ | .setAcct acct _ | .unlock acct => acct

/-- Before it has the lock an update has nothing. -/
def Update.held : Update → Option Nat
  | .lock _ => none
  | u => some u.acct

def Job.held : Job → Option Nat
  | .update _ u => u.held
  | _ => Option.none

def StageOk (db : Db) : Update → Prop
  | .lock _ => True
  | .name acct _ | .balance acct _ | .error acct | .unlock acct => BalancedAt db acct
  | .jnlrec acct delta balance =>
      BalancedAt db acct ∧ ∀ v, db.acct acct = some v → balance = v.toInt + delta
  | .setCount acct delta balance jnlrec =>
      ∃ n : Nat, db.jnl acct 0 = some (.num n) ∧ jnlrec = (n + 1 : Nat) ∧
        ∃ v, applied db acct n = some v ∧ db.acct acct = some v ∧ balance = v.toInt + delta
  | .setDelta acct delta balance jnlrec =>
      ∃ n : Nat, db.jnl acct 0 = some (.num (n + 1 : Nat)) ∧ jnlrec = (n + 1 : Nat) ∧
        ∃ v, applied db acct n = some v ∧ balance = v.toInt + delta
  | .setAcct acct balance =>
      ∃ n : Nat, db.jnl acct 0 = some (.num n) ∧ applied db acct n = some (.num balance)

/-- Unless it is between the updates, the account is balanced. -/
theorem StageOk.balancedAt {db : Db} {u : Update} (h : StageOk db u) (hheld : u.held = some u.acct)
    (hbetween : u.between = false) : BalancedAt db u.acct := by
  cases u with
  | lock acct => cases hheld
  | name acct delta => exact h
  | balance acct delta => exact h
  | jnlrec acct delta balance => exact h.1
  | error acct => exact h
  | setCount acct delta balance jnlrec =>
      obtain ⟨n, hcount, -, v, happlied, hacct, -⟩ := h
      exact ⟨n, hcount, v, happlied, hacct⟩
  | setDelta acct delta balance jnlrec => cases hbetween
  | setAcct acct balance => cases hbetween
  | unlock acct => exact h

/-- What is written about another account. -/
structure Db.SameAt (a : Nat) (db db' : Db) : Prop where
  acct : db'.acct a = db.acct a
  opening : db'.opening a = db.opening a
  jnl : db'.jnl a = db.jnl a

theorem sameAt_setAcct {acct a : Nat} (h : a ≠ acct) (db : Db) (v : Value) :
    Db.SameAt a db (db.setAcct acct v) :=
  ⟨Db.setAcct_of_ne h db v, rfl, rfl⟩

theorem sameAt_setJnl {acct a : Nat} (h : a ≠ acct) (db : Db) (i : Int) (v : Value) :
    Db.SameAt a db (db.setJnl acct i v) :=
  ⟨rfl, rfl, funext fun _ => Db.setJnl_of_ne (Or.inl h) db v⟩

theorem Db.SameAt.trans {a : Nat} {db db' db'' : Db} (h : Db.SameAt a db db') (h' : Db.SameAt a db' db'') :
    Db.SameAt a db db'' :=
  ⟨h'.acct.trans h.acct, h'.opening.trans h.opening, h'.jnl.trans h.jnl⟩

theorem sameAt_post {acct a : Nat} (h : a ≠ acct) (db : Db) (delta : Int) (balance : Value) (jnlrec : Int) :
    Db.SameAt a db (post db acct delta balance jnlrec) :=
  ((sameAt_setJnl h db 0 _).trans (sameAt_setJnl h _ jnlrec _)).trans (sameAt_setAcct h _ _)

theorem Db.SameAt.balancedAt {db db' : Db} {acct : Nat} (h : Db.SameAt acct db db') (hb : BalancedAt db acct) :
    BalancedAt db' acct :=
  hb.congr h.acct h.opening h.jnl

theorem Db.SameAt.applied {db db' : Db} {acct : Nat} (h : Db.SameAt acct db db') (n : Nat) :
    applied db' acct n = Bank.applied db acct n :=
  applied_congr h.opening fun k _ _ => by rw [h.jnl]

theorem StageOk.congr {db db' : Db} {u : Update} (hsame : Db.SameAt u.acct db db') (h : StageOk db u) :
    StageOk db' u := by
  cases u with
  | lock acct => trivial
  | name acct delta => exact hsame.balancedAt h
  | balance acct delta => exact hsame.balancedAt h
  | jnlrec acct delta balance =>
      exact ⟨hsame.balancedAt h.1, fun v hv => h.2 v (hsame.acct ▸ hv)⟩
  | error acct => exact hsame.balancedAt h
  | setCount acct delta balance jnlrec =>
      obtain ⟨n, hcount, hrec, v, happlied, hacct, hbalance⟩ := h
      exact ⟨n, (congrFun hsame.jnl 0).trans hcount, hrec, v, (hsame.applied n).trans happlied,
        hsame.acct.trans hacct, hbalance⟩
  | setDelta acct delta balance jnlrec =>
      obtain ⟨n, hcount, hrec, v, happlied, hbalance⟩ := h
      exact ⟨n, (congrFun hsame.jnl 0).trans hcount, hrec, v, (hsame.applied n).trans happlied, hbalance⟩
  | setAcct acct balance =>
      obtain ⟨n, hcount, happlied⟩ := h
      exact ⟨n, (congrFun hsame.jnl 0).trans hcount, (hsame.applied n).trans happlied⟩
  | unlock acct => exact hsame.balancedAt h

/-! ## 2. The three updates -/

section Updates

variable {db : Db} {acct : Nat} {delta balance jnlrec : Int}

/-- Another number of records does not change those that count. -/
theorem applied_setCount (db : Db) (acct : Nat) (v : Value) (n : Nat) :
    applied (db.setJnl acct 0 v) acct n = applied db acct n := by
  refine applied_congr ?_ fun k h1 _ => ?_
  · rfl
  · exact Db.setJnl_of_ne (Or.inr (by omega)) db v

/-- Nor does a later record. -/
theorem applied_setDelta (db : Db) (acct n : Nat) (v : Value) :
    applied (db.setJnl acct (n + 1 : Nat) v) acct n = applied db acct n := by
  refine applied_congr ?_ fun k _ hle => ?_
  · rfl
  · exact Db.setJnl_of_ne (Or.inr (by omega)) db v

theorem stageOk_setCount (h : StageOk db (.setCount acct delta balance jnlrec)) :
    StageOk (db.setJnl acct 0 (.num jnlrec)) (.setDelta acct delta balance jnlrec) := by
  obtain ⟨n, -, hrec, v, happlied, -, hbalance⟩ := h
  refine ⟨n, ?_, hrec, v, (applied_setCount ..).trans happlied, hbalance⟩
  rw [Db.setJnl_self, hrec]

theorem stageOk_setDelta (h : StageOk db (.setDelta acct delta balance jnlrec)) :
    StageOk (db.setJnl acct jnlrec (.num delta)) (.setAcct acct balance) := by
  obtain ⟨n, hcount, hrec, v, happlied, hbalance⟩ := h
  subst hrec
  refine ⟨n + 1, ?_, ?_⟩
  · rw [Db.setJnl_of_ne (Or.inr (by omega))]
    exact hcount
  · rw [applied, applied_setDelta, happlied, Option.bind_some, Db.setJnl_self, Option.map_some, hbalance]
    rfl

theorem stageOk_setAcct (h : StageOk db (.setAcct acct balance)) :
    BalancedAt (db.setAcct acct (.num balance)) acct := by
  obtain ⟨n, hcount, happlied⟩ := h
  have hsame : applied (db.setAcct acct (.num balance)) acct n = applied db acct n := by
    refine applied_congr ?_ fun _ _ _ => ?_
    · rfl
    · rfl
  exact ⟨n, hcount, .num balance, hsame.trans happlied, Db.setAcct_self ..⟩

/-- **The three updates at once** keep an account balanced. -/
theorem balancedAt_post (h : BalancedAt db acct) {v : Value} {n : Int} (hacct : db.acct acct = some v)
    (hcount : db.jnl acct 0 = some (.num n)) : BalancedAt (post db acct delta v (n + 1)) acct := by
  obtain ⟨jnlrecs, hrecs, v', happlied, hacct'⟩ := h
  obtain rfl : v' = v := Option.some.inj (hacct'.symm.trans hacct)
  have hn : n = jnlrecs := by
    have heq := hcount.symm.trans hrecs
    simpa using heq
  have hstage : StageOk db (.setCount acct delta (v'.toInt + delta) (n + 1)) :=
    ⟨jnlrecs, hrecs, by rw [hn]; rfl, v', happlied, hacct, rfl⟩
  exact stageOk_setAcct (stageOk_setDelta (stageOk_setCount hstage))

end Updates

/-! ## 3. Who has which lock -/

/-- The name of the lock of an account. -/
def acctLock (a : Nat) : List Sub := [.acct, .num a]

/-- Each job has the lock of the account it is at, once, and no two have the same. -/
structure Owner (locks : Locks Proc Sub) (job : Nat → Job) : Prop where
  count : ∀ j a, locks.count (.job j, acctLock a) = if (job j).held = some a then 1 else 0
  exclusive : ∀ j k a, (job j).held = some a → (job k).held = some a → j = k

section Owner

variable {locks : Locks Proc Sub} {job : Nat → Job} {place : Job} {j k a : Nat}

theorem Owner.mem (h : Owner locks job) (hheld : (job j).held = some a) :
    (Proc.job j, acctLock a) ∈ locks := by
  refine List.count_pos_iff.1 ?_
  rw [h.count, if_pos hheld]
  exact Nat.zero_lt_one

theorem held_update (hheld : place.held = (job j).held) (k : Nat) :
    (update job j place k).held = (job k).held := by
  by_cases hk : k = j
  · subst hk
    rw [update_self, hheld]
  · rw [update_of_ne hk]

/-- Another place of the same account, and other locks. -/
theorem Owner.goto {locks' : Locks Proc Sub} (h : Owner locks job)
    (hlocks : ∀ k a, locks'.count (.job k, acctLock a) = locks.count (.job k, acctLock a))
    (hheld : place.held = (job j).held) : Owner locks' (update job j place) where
  count k a := by rw [hlocks, h.count, held_update hheld]
  exclusive k l a := by
    rw [held_update hheld, held_update hheld]
    exact h.exclusive k l a

theorem count_lock_of_ne {p : Proc} {name : List Sub} (hname : ∀ a, name ≠ acctLock a) (k a : Nat) :
    (locks.lock p name).count (.job k, acctLock a) = locks.count (.job k, acctLock a) := by
  refine List.count_cons_of_ne fun he => ?_
  exact hname a (Prod.mk.inj he).2

theorem count_unlock_of_ne {p : Proc} {name : List Sub} (hname : ∀ a, name ≠ acctLock a) (k a : Nat) :
    (locks.unlock p name).count (.job k, acctLock a) = locks.count (.job k, acctLock a) := by
  refine List.count_erase_of_ne fun he => ?_
  exact hname a (Prod.mk.inj he).2.symm

theorem count_unlockAll_parent (k a : Nat) :
    (locks.unlockAll .parent).count (.job k, acctLock a) = locks.count (.job k, acctLock a) :=
  List.count_filter (decide_eq_true fun he => by cases he)

/-- A job that has none gets the lock of an account. -/
theorem Owner.lock (h : Owner locks job) (hnone : (job j).held = none)
    (hfree : locks.isFree (.job j) (acctLock a) = true) (hheld : place.held = some a) :
    Owner (locks.lock (.job j) (acctLock a)) (update job j place) where
  count k b := by
    unfold Locks.lock
    by_cases hk : k = j
    · subst hk
      rw [update_self, hheld]
      have hzero : locks.count (.job k, acctLock b) = 0 := by
        rw [h.count, hnone]
        exact if_neg fun he => by cases he
      by_cases hb : a = b
      · subst hb
        rw [List.count_cons_self, hzero, if_pos rfl]
      · rw [if_neg fun he => hb (Option.some.inj he)]
        refine (List.count_cons_of_ne fun he => ?_).trans hzero
        exact hb (by simpa [acctLock] using he)
    · rw [update_of_ne hk, ← h.count]
      refine List.count_cons_of_ne fun he => ?_
      exact hk (by simpa using (Prod.mk.inj he).1.symm)
  exclusive k l b hk hl := by
    have hother : ∀ k, k ≠ j → (job k).held ≠ some a := by
      intro k hkj hka
      have hbusy := Locks.not_isFree (h.mem hka) (fun he => hkj (Proc.job.inj he))
        (Or.inl (List.prefix_refl (acctLock a)))
      rw [hfree] at hbusy
      cases hbusy
    by_cases hkj : k = j
    · by_cases hlj : l = j
      · rw [hkj, hlj]
      · subst hkj
        rw [update_self, hheld] at hk
        obtain rfl := Option.some.inj hk
        rw [update_of_ne hlj] at hl
        exact absurd hl (hother l hlj)
    · by_cases hlj : l = j
      · subst hlj
        rw [update_self, hheld] at hl
        obtain rfl := Option.some.inj hl
        rw [update_of_ne hkj] at hk
        exact absurd hk (hother k hkj)
      · rw [update_of_ne hkj] at hk
        rw [update_of_ne hlj] at hl
        exact h.exclusive k l b hk hl

/-- A job gives up what it has: it has no lock, and the others what they had. -/
theorem Owner.release {locks' : Locks Proc Sub} (h : Owner locks job) (hheld : place.held = none)
    (hself : ∀ a, locks'.count (.job j, acctLock a) = 0)
    (hothers : ∀ k a, k ≠ j → locks'.count (.job k, acctLock a) = locks.count (.job k, acctLock a)) :
    Owner locks' (update job j place) where
  count k a := by
    by_cases hk : k = j
    · subst hk
      rw [update_self, hheld, hself]
      exact (if_neg fun he => by cases he).symm
    · rw [update_of_ne hk, hothers k a hk, h.count]
  exclusive k l a hk hl := by
    have hne : ∀ k, (update job j place k).held = some a → k ≠ j ∧ (job k).held = some a := by
      intro k hk
      by_cases hkj : k = j
      · subst hkj
        rw [update_self, hheld] at hk
        cases hk
      · rw [update_of_ne hkj] at hk
        exact ⟨hkj, hk⟩
    exact h.exclusive k l a (hne k hk).2 (hne l hl).2

theorem Owner.unlockAll (h : Owner locks job) (hheld : place.held = none) :
    Owner (locks.unlockAll (.job j)) (update job j place) := by
  refine h.release hheld (fun a => ?_) fun k a hk => ?_
  · refine List.count_eq_zero.2 fun hin => ?_
    exact (Locks.mem_unlockAll.1 hin).2 rfl
  · exact List.count_filter (decide_eq_true fun he => hk (Proc.job.inj he))

theorem Owner.unlock (h : Owner locks job) (hbefore : (job j).held = some a) (hheld : place.held = none) :
    Owner (locks.unlock (.job j) (acctLock a)) (update job j place) := by
  refine h.release hheld (fun b => ?_) fun k b hk => ?_
  · unfold Locks.unlock
    by_cases hb : b = a
    · subst hb
      rw [List.count_erase_self, h.count, if_pos hbefore]
    · rw [List.count_erase_of_ne fun he => hb (by simpa [acctLock] using he), h.count, hbefore]
      exact if_neg fun he => hb (Option.some.inj he).symm
  · exact List.count_erase_of_ne fun he => hk (Proc.job.inj (Prod.mk.inj he).1)

end Owner

/-! ## 4. What holds at every step -/

/-- **The books**: an account that no job has the lock of is balanced, and the place of a job says how
    far it is with its own. -/
structure Books (program : Program) (accnts : Nat) (s : State) : Prop where
  number : s.db.acct 0 = some (.num accnts)
  owner : Owner s.locks s.job
  range : ∀ j i u, s.job j = .update i u → program = .mrtst ∧ 1 ≤ u.acct ∧ u.acct ≤ accnts
  stage : ∀ j i u, s.job j = .update i u → StageOk s.db u
  free : ∀ a, 1 ≤ a → a ≤ accnts → (∀ j, (s.job j).held ≠ some a) → BalancedAt s.db a

section Books

variable {program : Program} {jobcnt trans accnts : Nat} {s : State} {j : Nat}

theorem Update.held_eq {u : Update} {a : Nat} (h : u.held = some a) : u.acct = a := by
  cases u with
  | lock acct => cases h
  | _ => exact Option.some.inj h

/-- A job goes on, and the database stays. -/
theorem Books.goto (h : Books program accnts s) {place : Job} {locks : Locks Proc Sub}
    (howner : Owner locks (update s.job j place))
    (hplace : ∀ i u, place = .update i u →
      (program = .mrtst ∧ 1 ≤ u.acct ∧ u.acct ≤ accnts) ∧ StageOk s.db u)
    (hgiven : ∀ a, 1 ≤ a → a ≤ accnts → (s.job j).held = some a → place.held ≠ some a → BalancedAt s.db a)
    {t : State} (hdb : t.db = s.db) (hlocks : t.locks = locks) (hjob : t.job = update s.job j place) :
    Books program accnts t where
  number := hdb ▸ h.number
  owner := by rwa [hlocks, hjob]
  range k i u hk := by
    rw [hjob] at hk
    by_cases hkj : k = j
    · subst hkj
      rw [update_self] at hk
      exact (hplace i u hk).1
    · rw [update_of_ne hkj] at hk
      exact h.range k i u hk
  stage k i u hk := by
    rw [hjob] at hk
    rw [hdb]
    by_cases hkj : k = j
    · subst hkj
      rw [update_self] at hk
      exact (hplace i u hk).2
    · rw [update_of_ne hkj] at hk
      exact h.stage k i u hk
  free a h1 hle hnone := by
    rw [hdb]
    have hother : ∀ k, k ≠ j → (s.job k).held ≠ some a := by
      intro k hkj
      have hk := hnone k
      rwa [hjob, update_of_ne hkj] at hk
    by_cases hj : (s.job j).held = some a
    · have hnew := hnone j
      rw [hjob, update_self] at hnew
      exact hgiven a h1 hle hj hnew
    · refine h.free a h1 hle fun k => ?_
      by_cases hkj : k = j
      · exact hkj ▸ hj
      · exact hother k hkj

/-- **A job writes about the account whose lock it has.** -/
theorem Books.write (h : Books program accnts s) {i : Nat} {u u' : Update} (hbefore : s.job j = .update i u)
    (hheld : u.held = some u.acct) (hheld' : u'.held = some u.acct) {db : Db}
    (hstage : StageOk db u') (hsame : ∀ a, a ≠ u.acct → Db.SameAt a s.db db)
    {t : State} (hdb : t.db = db) (hlocks : t.locks = s.locks)
    (hjob : t.job = update s.job j (.update i u')) : Books program accnts t := by
  obtain ⟨hprogram, h1, hle⟩ := h.range j i u hbefore
  have hacct' : u'.acct = u.acct := Update.held_eq hheld'
  have hj : (s.job j).held = some u.acct := by
    rw [hbefore]
    exact hheld
  have hplace : (Job.update i u').held = (s.job j).held := hheld'.trans hj.symm
  refine ⟨?_, ?_, fun k i' v hk => ?_, fun k i' v hk => ?_, fun a ha hlea hnone => ?_⟩
  · rw [hdb, (hsame 0 (by omega)).acct]
    exact h.number
  · rw [hlocks, hjob]
    exact h.owner.goto (fun _ _ => rfl) hplace
  · rw [hjob] at hk
    by_cases hkj : k = j
    · subst hkj
      rw [update_self] at hk
      obtain ⟨rfl, rfl⟩ := Job.update.inj hk
      exact ⟨hprogram, hacct' ▸ h1, hacct' ▸ hle⟩
    · rw [update_of_ne hkj] at hk
      exact h.range k i' v hk
  · rw [hjob] at hk
    rw [hdb]
    by_cases hkj : k = j
    · subst hkj
      rw [update_self] at hk
      obtain ⟨rfl, rfl⟩ := Job.update.inj hk
      exact hstage
    · rw [update_of_ne hkj] at hk
      have hother := h.stage k i' v hk
      cases hv : v.held with
      | none =>
          cases v with
          | lock acct => trivial
          | _ => cases hv
      | some b =>
          -- another job has the lock of another account
          refine hother.congr (hsame _ fun he => hkj ?_)
          refine h.owner.exclusive k j u.acct ?_ hj
          rw [hk]
          exact hv.trans (congrArg some ((Update.held_eq hv).symm.trans he))
  · have hne : a ≠ u.acct := by
      intro he
      refine hnone j ?_
      rw [hjob, update_self, he]
      exact hheld'
    rw [hdb]
    refine (hsame a hne).balancedAt (h.free a ha hlea fun k => ?_)
    have hk := hnone k
    rwa [hjob, held_update hplace] at hk

/-- **A job dies**; unless it is between its updates, its account is balanced. -/
theorem Books.die (h : Books program accnts s) :
    (Bank.die j s).torn = true ∨ Books program accnts (Bank.die j s) := by
  by_cases hbetween : (s.job j).between = true
  · refine Or.inl ?_
    show (s.torn || (s.job j).between) = true
    rw [hbetween, Bool.or_true]
  · have howner : Owner (s.locks.unlockAll (.job j)) (update s.job j .dead) := h.owner.unlockAll rfl
    refine Or.inr (h.goto howner (fun i u he => by cases he) ?_ rfl rfl rfl)
    intro a _ _ hheld _
    cases hplace : s.job j with
    | update i u =>
        rw [hplace] at hheld hbetween
        obtain rfl := Update.held_eq hheld
        exact (h.stage j i u hplace).balancedAt hheld (by simpa [Job.between] using hbetween)
    | _ =>
        rw [hplace] at hheld
        cases hheld

/-- A job that has no lock goes on without one. -/
theorem Books.move (h : Books program accnts s) (hnone : (s.job j).held = none) {place : Job}
    (hplace : ∀ i u, place = .update i u →
      (program = .mrtst ∧ 1 ≤ u.acct ∧ u.acct ≤ accnts) ∧ StageOk s.db u)
    (hheld : place.held = none) {t : State} (hdb : t.db = s.db)
    (hlocks : ∀ k a, t.locks.count (.job k, acctLock a) = s.locks.count (.job k, acctLock a))
    (hjob : t.job = update s.job j place) : Books program accnts t := by
  refine h.goto (h.owner.goto hlocks (hheld.trans hnone.symm)) hplace (fun a _ _ ha => ?_) hdb rfl hjob
  rw [hnone] at ha
  cases ha

theorem Books.updateStep (h : Books program accnts s) {i : Nat} {u : Update}
    (hplace : s.job j = .update i u) (draw : Nat) :
    (updateStep j i u draw s).torn = true ∨ Books program accnts (updateStep j i u draw s) := by
  obtain ⟨hprogram, h1, hle⟩ := h.range j i u hplace
  have hstage := h.stage j i u hplace
  -- the same lock, and nothing is written
  have hread : ∀ {u' : Update}, u'.held = some u.acct → u.held = some u.acct → StageOk s.db u' →
      Books program accnts (s.goto j (.update i u')) := by
    intro u' hheld' hheld hok
    have hj : (s.job j).held = some u.acct := by
      rw [hplace]
      exact hheld
    have hsame : (Job.update i u').held = (s.job j).held := hheld'.trans hj.symm
    refine h.goto (h.owner.goto (fun _ _ => rfl) hsame) (fun i' v he => ?_)
      (fun a _ _ ha hna => ?_) rfl rfl rfl
    · obtain ⟨rfl, rfl⟩ := Job.update.inj he
      rw [Update.held_eq hheld']
      exact ⟨⟨hprogram, h1, hle⟩, hok⟩
    · exact absurd (hheld'.trans (hj.symm.trans ha)) hna
  cases u with
  | lock acct =>
      refine Or.inr ?_
      unfold Bank.updateStep
      dsimp only
      split
      · rename_i hfree
        have hnone : (s.job j).held = none := by
          rw [hplace]
          rfl
        -- nobody had the lock
        have hbalanced : BalancedAt s.db acct := by
          refine h.free acct h1 hle fun k hk => ?_
          have hkj : k ≠ j := by
            intro he
            subst he
            rw [hnone] at hk
            cases hk
          have hbusy := Locks.not_isFree (h.owner.mem hk) (fun he => hkj (Proc.job.inj he))
            (Or.inl (List.prefix_refl (acctLock acct)))
          unfold acctLock at hbusy
          rw [hfree] at hbusy
          cases hbusy
        refine h.goto (h.owner.lock hnone hfree rfl) (fun i' v he => ?_) (fun a _ _ ha => ?_) rfl rfl rfl
        · obtain ⟨rfl, rfl⟩ := Job.update.inj he
          exact ⟨⟨hprogram, h1, hle⟩, hbalanced⟩
        · rw [hnone] at ha
          cases ha
      · exact h
  | name acct delta =>
      unfold Bank.updateStep
      dsimp only
      split
      · exact h.die
      · exact Or.inr (hread rfl rfl hstage)
  | balance acct delta =>
      unfold Bank.updateStep
      dsimp only
      split
      · exact h.die
      · rename_i balance hbalance
        refine Or.inr (hread rfl rfl ⟨hstage, fun v hv => ?_⟩)
        rw [Option.some.inj (hbalance.symm.trans hv)]
  | jnlrec acct delta balance =>
      obtain ⟨hbalanced, hsum⟩ := hstage
      unfold Bank.updateStep
      dsimp only
      split
      · exact h.die
      · exact Or.inr (hread rfl rfl hbalanced)
      · rename_i n hn
        obtain ⟨jnlrecs, hcount, v, happlied, hacct⟩ := hbalanced
        obtain rfl : n = jnlrecs := Value.num.inj (Option.some.inj (hn.symm.trans hcount))
        exact Or.inr (hread rfl rfl ⟨jnlrecs, hcount, rfl, v, happlied, hacct, hsum v hacct⟩)
  | error acct =>
      have hnext : Books program accnts (s.goto j (.update i (.unlock acct))) := hread rfl rfl hstage
      exact Or.inr ⟨hnext.number, hnext.owner, hnext.range, hnext.stage, hnext.free⟩
  | setCount acct delta balance jnlrec =>
      exact Or.inr (h.write hplace rfl rfl (stageOk_setCount hstage) (fun a ha => sameAt_setJnl ha s.db 0 _)
        rfl rfl rfl)
  | setDelta acct delta balance jnlrec =>
      exact Or.inr (h.write hplace rfl rfl (stageOk_setDelta hstage)
        (fun a ha => sameAt_setJnl ha s.db jnlrec _) rfl rfl rfl)
  | setAcct acct balance =>
      have hbalanced : StageOk (s.db.setAcct acct (.num balance)) (.unlock acct) := stageOk_setAcct hstage
      exact Or.inr (h.write hplace rfl rfl hbalanced (fun a ha => sameAt_setAcct ha s.db _) rfl rfl rfl)
  | unlock acct =>
      have hj : (s.job j).held = some acct := by
        rw [hplace]
        rfl
      have howner : Owner (s.locks.unlock (.job j) (acctLock acct)) (update s.job j (.loop (i + 1))) :=
        h.owner.unlock hj rfl
      refine Or.inr (h.goto howner (fun i' v he => by cases he) (fun a _ _ ha _ => ?_) rfl rfl rfl)
      obtain rfl := Option.some.inj (hj.symm.trans ha)
      exact hstage

/-- An account that is drawn. -/
theorem pick_spec {db : Db} (hnumber : db.acct 0 = some (.num accnts)) {draw acct : Nat}
    (h : pick db draw = some acct) : 1 ≤ acct ∧ acct ≤ accnts := by
  unfold pick at h
  rw [hnumber, Option.bind_some] at h
  split at h
  · cases h
  · rename_i hpos
    obtain rfl := Option.some.inj h
    have hlt : draw % accnts < accnts := Nat.mod_lt _ (by simp only [Value.toInt] at hpos; omega)
    show 1 ≤ draw % ((accnts : Int)).toNat + 1 ∧ draw % ((accnts : Int)).toNat + 1 ≤ accnts
    rw [Int.toNat_natCast]
    omega

/-- **A transaction of mrtptst**: no job of it has the lock of an account. -/
theorem Books.transaction (h : Books .mrtptst accnts s) {i acct : Nat} (hplace : s.job j = .loop i)
    (h1 : 1 ≤ acct) (hle : acct ≤ accnts) (delta : Int) :
    (transaction j i acct delta s).torn = true ∨ Books .mrtptst accnts (transaction j i acct delta s) := by
  have hnone : (s.job j).held = none := by
    rw [hplace]
    rfl
  have hfree : ∀ k a, (s.job k).held ≠ some a := by
    intro k a hk
    cases hkp : s.job k with
    | update i' u => cases (h.range k i' u hkp).1
    | _ =>
        rw [hkp] at hk
        cases hk
  unfold Bank.transaction
  split
  · exact h.die
  · split
    · exact h.die
    · rename_i balance hbalance
      split
      · exact h.die
      · have hnext : Books .mrtptst accnts (s.goto j (.loop (i + 1))) :=
          h.move hnone (fun i' u he => by cases he) rfl rfl (fun _ _ => rfl) rfl
        exact Or.inr ⟨hnext.number, hnext.owner, hnext.range, hnext.stage, hnext.free⟩
      · rename_i n hn
        have hsame : ∀ a, a ≠ acct → Db.SameAt a s.db (post s.db acct delta balance (n + 1)) :=
          fun a ha => sameAt_post ha s.db delta balance (n + 1)
        have hrange : ∀ k i' u, update s.job j (.loop (i + 1)) k ≠ .update i' u := by
          intro k i' u hk
          by_cases hkj : k = j
          · subst hkj
            rw [update_self] at hk
            cases hk
          · rw [update_of_ne hkj] at hk
            cases (h.range k i' u hk).1
        refine Or.inr ⟨?_, h.owner.goto (fun _ _ => rfl) hnone.symm, fun k i' u hk => absurd hk (hrange k i' u),
          fun k i' u hk => absurd hk (hrange k i' u), fun a ha hla _ => ?_⟩
        · exact (hsame 0 (by omega)).acct.trans h.number
        · have hold := h.free a ha hla fun k => hfree k a
          by_cases hacct : a = acct
          · subst hacct
            exact balancedAt_post hold hbalance hn
          · exact (hsame a hacct).balancedAt hold

theorem test_ne_acctLock (name : List Sub) (a : Nat) : Sub.test :: name ≠ acctLock a := by
  intro he
  cases (List.cons.inj he).1

/-- **A step of a job.** -/
theorem Books.jobStep (h : Books program accnts s) (j draw draw' : Nat) :
    (jobStep program trans j draw draw' s).torn = true ∨
      Books program accnts (jobStep program trans j draw draw' s) := by
  unfold Bank.jobStep
  cases hplace : s.job j with
  | none => exact Or.inr h
  | ended => exact Or.inr h
  | dead => exact Or.inr h
  | setError =>
      exact Or.inr (h.move (by rw [hplace]; rfl) (fun i u he => by cases he) rfl rfl (fun _ _ => rfl) rfl)
  | setJobsetup =>
      exact Or.inr (h.move (by rw [hplace]; rfl) (fun i u he => by cases he) rfl rfl (fun _ _ => rfl) rfl)
  | lockTest =>
      dsimp only
      split
      · exact Or.inr (h.move (by rw [hplace]; rfl) (fun i u he => by cases he) rfl rfl
          (count_lock_of_ne fun a => test_ne_acctLock _ a) rfl)
      · exact Or.inr h
  | loop i =>
      dsimp only
      split
      · split
        · exact h.die
        · rename_i acct hpick
          obtain ⟨h1, hle⟩ := pick_spec h.number hpick
          cases program with
          | mrtst =>
              refine Or.inr (h.move (by rw [hplace]; rfl) (fun i' u he => ?_) rfl rfl (fun _ _ => rfl) rfl)
              obtain ⟨rfl, rfl⟩ := Job.update.inj he
              exact ⟨⟨rfl, h1, hle⟩, trivial⟩
          | mrtptst => exact h.transaction hplace h1 hle _
      · exact Or.inr (h.move (by rw [hplace]; rfl) (fun i u he => by cases he) rfl rfl (fun _ _ => rfl) rfl)
  | update i u => exact h.updateStep hplace draw'
  | killError =>
      exact Or.inr (h.move (by rw [hplace]; rfl) (fun i u he => by cases he) rfl rfl (fun _ _ => rfl) rfl)
  | quit =>
      have howner : Owner (s.locks.unlockAll (.job j)) (update s.job j .ended) := h.owner.unlockAll rfl
      refine Or.inr (h.goto howner (fun i u he => by cases he) (fun a _ _ ha _ => ?_) rfl rfl rfl)
      rw [hplace] at ha
      cases ha

/-- The parent locks and unlocks ^TEST only. -/
theorem Books.locks (h : Books program accnts s) {locks : Locks Proc Sub} {parent : Parent}
    (hlocks : ∀ k a, locks.count (.job k, acctLock a) = s.locks.count (.job k, acctLock a)) :
    Books program accnts { s with locks := locks, parent := parent } where
  number := h.number
  owner := ⟨fun k a => (hlocks k a).trans (h.owner.count k a), h.owner.exclusive⟩
  range := h.range
  stage := h.stage
  free := h.free

theorem Books.parentStep (h : Books program accnts s) (hverdict : Verdict jobcnt trans s) :
    Books program accnts (parentStep jobcnt s) := by
  have hparent := hverdict.parent
  unfold Bank.parentStep
  cases hplace : s.parent with
  | lockTest =>
      dsimp only
      split
      · exact h.locks (count_lock_of_ne fun a => test_ne_acctLock _ a)
      · exact h
  | fork i =>
      rw [hplace] at hparent
      dsimp only
      split
      · refine h.move (j := i) ?_ (fun i' u he => by cases he) rfl rfl (fun _ _ => rfl) rfl
        rw [hparent i (Nat.le_refl i)]
        rfl
      · exact h.locks fun _ _ => rfl
  | count j jobsSetup =>
      dsimp only
      split
      · exact h.locks fun _ _ => rfl
      · split
        · exact h.locks fun _ _ => rfl
        · exact h.locks fun _ _ => rfl
  | unlock => exact h.locks (count_unlock_of_ne fun a => test_ne_acctLock _ a)
  | relock =>
      dsimp only
      split
      · exact h.locks (count_lock_of_ne fun a => test_ne_acctLock _ a)
      · exact h
  | check t => exact h.locks fun _ _ => rfl
  | done pass => exact h.locks count_unlockAll_parent

theorem Books.step (h : Books program accnts s) (hverdict : Verdict jobcnt trans s) (e : Event) :
    (step program jobcnt trans s e).torn = true ∨ Books program accnts (step program jobcnt trans s e) := by
  cases e with
  | parent => exact Or.inr (h.parentStep hverdict)
  | timeout =>
      unfold Bank.step
      dsimp only
      split
      · exact Or.inr (h.locks fun _ _ => rfl)
      · exact Or.inr h
  | job j draw draw' => exact h.jobStep j draw draw'
  | die j =>
      unfold Bank.step
      dsimp only
      split
      · exact Or.inr h
      · exact Or.inr h
      · exact Or.inr h
      · exact h.die

end Books

/-! ## 5. Runs -/

section Runs

variable {program : Program} {jobcnt trans : Nat} {s : State} {j : Nat}

/-- A death between the updates of an account is not forgotten. -/
theorem torn_die (h : s.torn = true) (j : Nat) : (die j s).torn = true := by
  show (s.torn || (s.job j).between) = true
  rw [h, Bool.true_or]

theorem torn_updateStep (h : s.torn = true) (j i : Nat) (u : Update) (draw : Nat) :
    (updateStep j i u draw s).torn = true := by
  cases u with
  | lock acct =>
      unfold updateStep
      dsimp only
      split
      · exact h
      · exact h
  | name acct delta =>
      unfold updateStep
      dsimp only
      split
      · exact torn_die h j
      · exact h
  | balance acct delta =>
      unfold updateStep
      dsimp only
      split
      · exact torn_die h j
      · exact h
  | jnlrec acct delta balance =>
      unfold updateStep
      dsimp only
      split
      · exact torn_die h j
      · exact h
      · exact h
  | _ => exact h

theorem torn_transaction (h : s.torn = true) (j i acct : Nat) (delta : Int) :
    (transaction j i acct delta s).torn = true := by
  unfold transaction
  split
  · exact torn_die h j
  · split
    · exact torn_die h j
    · split
      · exact torn_die h j
      · exact h
      · exact h

theorem torn_jobStep (h : s.torn = true) (j draw draw' : Nat) :
    (jobStep program trans j draw draw' s).torn = true := by
  unfold jobStep
  cases s.job j with
  | lockTest =>
      dsimp only
      split
      · exact h
      · exact h
  | loop i =>
      dsimp only
      split
      · split
        · exact torn_die h j
        · cases program with
          | mrtst => exact h
          | mrtptst => exact torn_transaction h j i _ _
      · exact h
  | update i u => exact torn_updateStep h j i u draw'
  | _ => exact h

theorem torn_parentStep (h : s.torn = true) : (parentStep jobcnt s).torn = true := by
  unfold parentStep
  cases s.parent with
  | lockTest =>
      dsimp only
      split
      · exact h
      · exact h
  | fork i =>
      dsimp only
      split
      · exact h
      · exact h
  | count j jobsSetup =>
      dsimp only
      split
      · exact h
      · split
        · exact h
        · exact h
  | relock =>
      dsimp only
      split
      · exact h
      · exact h
  | _ => exact h

theorem torn_step (h : s.torn = true) (e : Event) : (step program jobcnt trans s e).torn = true := by
  cases e with
  | parent => exact torn_parentStep h
  | timeout =>
      unfold step
      dsimp only
      split
      · exact h
      · exact h
  | job j draw draw' => exact torn_jobStep h j draw draw'
  | die j =>
      unfold step
      dsimp only
      split
      · exact h
      · exact h
      · exact h
      · exact torn_die h j

theorem books_start {accnts : Nat} {db : Db} (hnumber : db.acct 0 = some (.num accnts))
    (h : ∀ acct, 1 ≤ acct → acct ≤ accnts → BalancedAt db acct) : Books program accnts (start db) where
  number := hnumber
  owner := ⟨fun _ _ => (if_neg fun he => by cases he).symm, fun _ _ _ hk => by cases hk⟩
  range _ _ _ hk := by cases hk
  stage _ _ _ hk := by cases hk
  free a h1 hle _ := h a h1 hle

/-- **In every run** the books are kept, unless a job has died between its updates. -/
theorem books_run {accnts : Nat} : ∀ (events : List Event) {s : State}, Verdict jobcnt trans s →
    s.torn = true ∨ Books program accnts s →
    (run program jobcnt trans s events).torn = true ∨
      Books program accnts (run program jobcnt trans s events)
  | [], _, _, h => h
  | e :: events, _, hverdict, h =>
      books_run events (hverdict.step e) (h.elim (fun ht => Or.inl (torn_step ht e)) fun hb => hb.step hverdict e)

/-- A job is, or has died, between its updates of an account. -/
def Between (s : State) : Prop := s.torn = true ∨ ∃ j, (s.job j).between = true

theorem Books.balanced {accnts : Nat} (h : Books program accnts s) (hbetween : ¬ Between s) :
    Balanced s.db := by
  refine ⟨accnts, h.number, fun a h1 hle => ?_⟩
  by_cases hheld : ∃ j, (s.job j).held = some a
  · obtain ⟨j, hj⟩ := hheld
    cases hplace : s.job j with
    | update i u =>
        rw [hplace] at hj
        have hu : u.between = false := by
          refine Bool.eq_false_iff.2 fun hb => hbetween (Or.inr ⟨j, ?_⟩)
          rw [hplace]
          exact hb
        obtain rfl := Update.held_eq hj
        exact (h.stage j i u hplace).balancedAt hj hu
    | _ =>
        rw [hplace] at hj
        cases hj
  · exact h.free a h1 hle fun j hj => hheld ⟨j, hj⟩

/-- **The verdict of the bank test**: the parent prints PASS only if every job has made all its updates,
    and wherever no job is, or has died, between its updates of an account, the accounts are balanced and
    mrverify reports no error. -/
theorem run_verdict (program : Program) (jobcnt trans : Nat) (db : Db) (events : List Event) :
    ((run program jobcnt trans (start db) events).parent = .done true →
      ∀ j, 1 ≤ j → j ≤ jobcnt → (run program jobcnt trans (start db) events).completed j = trans) ∧
    (Balanced db → ¬ Between (run program jobcnt trans (start db) events) →
      Balanced (run program jobcnt trans (start db) events).db ∧
        mrverify (run program jobcnt trans (start db) events).db = some []) := by
  have hverdict := verdict_run program jobcnt trans db events
  refine ⟨fun hpass j h1 hle => ?_, fun hstart hbetween => ?_⟩
  · have hparent := hverdict.parent
    rw [hpass] at hparent
    exact (hparent j h1 hle).2
  · obtain ⟨accnts, hnumber, hall⟩ := hstart
    have hbooks : Books program accnts (run program jobcnt trans (start db) events) :=
      (books_run events (verdict_start jobcnt trans db) (Or.inr (books_start hnumber hall))).resolve_left
        fun ht => hbetween (Or.inl ht)
    exact ⟨hbooks.balanced hbetween, mrverify_of_balanced (hbooks.balanced hbetween)⟩

/-- One job with one update of the one account there is, to the end and the verdict. -/
def oneUpdate : List Event :=
  [.parent, .parent, .parent, .job 1 0 0, .job 1 0 0, .parent, .parent, .parent] ++
    List.replicate 13 (.job 1 0 7) ++ [.parent, .parent]

theorem run_verdict_one :
    let s := run .mrtst 1 1 (start (mrtstbld 1 (fun _ => ['J']) fun _ => 100)) oneUpdate
    (s.parent = .done true ∧ s.completed 1 = 1 ∧ s.db.acct 1 = some (.num (-4893))) ∧
      Balanced s.db ∧ mrverify s.db = some [] := by
  obtain ⟨hpass, hbalanced⟩ :=
    run_verdict .mrtst 1 1 (mrtstbld 1 (fun _ => ['J']) fun _ => 100) oneUpdate
  refine ⟨⟨rfl, hpass rfl 1 (Nat.le_refl 1) (Nat.le_refl 1), rfl⟩,
    hbalanced (balanced_mrtstbld 1 _ _) fun hbetween => ?_⟩
  rcases hbetween with htorn | ⟨j, hj⟩
  · cases htorn
  · -- no job is in an update
    match j, hj with
    | 0, hj => cases hj
    | 1, hj => cases hj
    | _ + 2, hj => cases hj

end Runs

end YottaTest.Bank
