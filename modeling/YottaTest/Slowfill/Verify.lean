/-
  File:      YottaTest/Slowfill/Verify.lean
  Subject:   slowfill.m: what verify finds after crashes and restarts.

  The restart index comes from ^lslowfilling, the last global of an index that is set outside the
  transaction. A crash between that update and the TCOMMIT leaves the index without its transaction,
  and no job comes back to it.

  * `verify`, `verify_pass_iff` -- the check of all nodes up to the last index;
  * `uninterrupted`, `Found` -- the nodes of a run without a crash, and that verify finds them;
  * `Whole`, `WholeAtCrashes` -- no index lacks its transaction, and none does at a crash;
  * `Inv`, `Inv.run` -- what any interleaving of the jobs leaves in the database;
  * `run_found_iff` -- **the filling survives its crashes exactly when none of them comes between the
    update of ^lslowfilling and the commit**; `crash_before_tcommit` is one that does.
-/
import YottaTest.Slowfill.Fill

namespace YottaTest.Slowfill

open Function YottaTest.Lib YottaTest.M

/-! ## 1. The verification -/

inductive Verdict where
  /-- `^%slowfill("gtcm",fillid)` is not defined -/
  | undefined
  /-- TEST-E-SLOWFILL No data found for ^aslowfilling -/
  | noData
  /-- so many failures; without any, Verify Pass -/
  | errors (n : Nat)
  deriving DecidableEq, Repr

def maxerr : Nat := 20

section Definitions

variable (c : Config)

/-- The globals that are verified for a letter. -/
def globals (istp : Bool) (x : Letter) : List Glob :=
  .slowfilling x :: if istp then [.tpslowfilling x] else []

/-- The value of a global at an index. -/
def expected (I : Nat) : Glob → Nat
  | .slowfilling _ => I
  | .tpslowfilling _ => I * I

/-- All globals should have the same last subscript. -/
def indexErrors (istp : Bool) (last : Nat) (d : Db) : Nat :=
  (templ1.flatMap (globals istp)).countP fun g => lastind c d g ≠ last

/-- Verify all data of an index. -/
def dataErrors (istp : Bool) (I : Nat) (d : Db) : Nat :=
  (templ1.flatMap (globals istp)).countP fun g => d.value (node c g I) ≠ .num (expected I g)

/-- Verify all data, until there are too many failures. -/
def verifyData (istp : Bool) (d : Db) : List Nat → Nat → Nat
  | [], err => err
  | I :: Is, err =>
      let err := err + dataErrors c istp I d
      if maxerr < err then err else verifyData istp d Is err

def verify {J : Type} (s : State J) : Verdict :=
  match s.gtcm with
  | none => .undefined
  | some gtcm =>
      let istp := !gtcm
      let last := lastind c s.db (.slowfilling .a)
      if last = 0 then .noData
      else .errors (verifyData c istp s.db (List.range' 1 last) (indexErrors c istp last s.db))

/-- The database after a job has filled the indices from 1 on, without a crash. -/
def uninterrupted (trigger : Bool) (last : Nat) (d : Db) : Db :=
  (List.range' 1 last).foldl
    (fun d I => (iteration c.istp).foldl (fun d u => apply c trigger I u d) d) d

/-- The verification passes, and it has found each node of a run without a crash to the same last
    index. -/
structure Found {J : Type} (s : State J) : Prop where
  pass : verify c s = .errors 0
  nodes : ∀ (trigger : Bool) (n : Node Glob) (v : Val),
    (uninterrupted c trigger (lastind c s.db (.slowfilling .l)) Table.empty).get n = some v →
      s.db.get n = some v

/-- No index of ^lslowfilling lacks its transaction: no job is between this update and its TCOMMIT,
    unless another one has committed the index. -/
def Whole (d : Db) : Prop :=
  c.istp = true → ∀ I, d.get (node c (.slowfilling .l) I) ≠ none →
    d.get (node c (.tpslowfilling .l) I) ≠ none

/-- No crash of the run comes when an index lacks its transaction. -/
def WholeAtCrashes {J : Type} [DecidableEq J] : List (Event J) → State J → Prop
  | [], _ => True
  | e :: events, s =>
      (∀ trigger, e = .crash trigger → Whole c s.db) ∧
        ∀ s', step c s e = some s' → WholeAtCrashes events s'

end Definitions

variable {c : Config}

theorem verifyData_eq_zero {istp : Bool} {d : Db} : ∀ {Is : List Nat} {err : Nat},
    verifyData c istp d Is err = 0 ↔ err = 0 ∧ ∀ I ∈ Is, dataErrors c istp I d = 0
  | [], err => by simp [verifyData]
  | I :: Is, err => by
      rw [verifyData, List.forall_mem_cons]
      split
      · rename_i hlt
        have hmax : maxerr = 20 := rfl
        constructor
        · intro h
          omega
        · rintro ⟨h, hI, _⟩
          omega
      · rw [verifyData_eq_zero]
        constructor
        · rintro ⟨h, hall⟩
          exact ⟨by omega, by omega, hall⟩
        · rintro ⟨h, hI, hall⟩
          exact ⟨by omega, hall⟩

theorem mem_globals {istp : Bool} {g : Glob} :
    g ∈ templ1.flatMap (globals istp) ↔
      ∃ x, g = .slowfilling x ∨ (istp = true ∧ g = .tpslowfilling x) := by
  rw [List.mem_flatMap]
  constructor
  · rintro ⟨x, _, hg⟩
    refine ⟨x, (List.mem_cons.1 hg).imp_right fun hg => ?_⟩
    cases istp with
    | true => exact ⟨rfl, List.mem_singleton.1 hg⟩
    | false => cases hg
  · rintro ⟨x, h⟩
    refine ⟨x, mem_templ1 x, List.mem_cons.2 (h.imp_right ?_)⟩
    rintro ⟨rfl, rfl⟩
    exact List.mem_singleton_self _

/-- **The verification passes** when there is a last index, all globals have it, and every value up
    to it is right. -/
theorem verify_pass_iff {J : Type} {s : State J} (hgtcm : s.gtcm = some c.gtcm) :
    verify c s = .errors 0 ↔
      lastind c s.db (.slowfilling .a) ≠ 0 ∧
        ∀ g ∈ templ1.flatMap (globals c.istp),
          lastind c s.db g = lastind c s.db (.slowfilling .a) ∧
            ∀ I, 0 < I → I ≤ lastind c s.db (.slowfilling .a) →
              s.db.value (node c g I) = .num (expected I g) := by
  have hunfold : verify c s = if lastind c s.db (.slowfilling .a) = 0 then .noData
      else .errors (verifyData c c.istp s.db (List.range' 1 (lastind c s.db (.slowfilling .a)))
        (indexErrors c c.istp (lastind c s.db (.slowfilling .a)) s.db)) := by
    rw [verify, hgtcm]
    rfl
  rw [hunfold]
  generalize lastind c s.db (.slowfilling .a) = last
  split
  · rename_i hlast
    simp [hlast]
  · rename_i hlast
    rw [Verdict.errors.injEq, verifyData_eq_zero]
    simp only [indexErrors, dataErrors, List.countP_eq_zero, decide_eq_true_eq, Decidable.not_not,
      List.mem_range'_1]
    constructor
    · rintro ⟨hindex, hdata⟩
      exact ⟨hlast, fun g hg => ⟨hindex g hg, fun I hpos hle => hdata I (by omega) g hg⟩⟩
    · rintro ⟨_, hall⟩
      exact ⟨fun g hg => (hall g hg).1, fun I hI g hg => (hall g hg).2 I (by omega) (by omega)⟩

/-! ## 2. What holds at every step -/

/-- The index has this update. -/
def Done (c : Config) (d : Db) (I : Nat) (u : Update) : Prop :=
  ∀ e ∈ written c I u, d.get e.1 = some (.num e.2)

/-- What the place of a job says, when `last` is the last index of ^lslowfilling. -/
structure JobOk (c : Config) (lost : Nat → Prop) (last : Nat) (d : Db) (I : Nat)
    (left : List Update) : Prop where
  pos : 0 < I
  le_infloop : I ≤ infloop
  le : I ≤ last + 1
  /-- it has made the other updates -/
  done : ∃ done, iteration c.istp = done ++ left ∧ ∀ u ∈ done, Done c d I u
  /-- no job comes back to an index that has lost its transaction -/
  after_lost : ∀ k, lost k → k < I

structure Inv {J : Type} (c : Config) (lost : Nat → Prop) (last : Nat) (s : State J) : Prop where
  /-- the nodes are those of the indices up to the last, and some of the next -/
  only : ∀ g n v, (root c g).covers n = true → s.db.get n = some v →
    ∃ I u w, (n, w) ∈ written c I u ∧ v = .num w ∧ u ∈ iteration c.istp ∧
      0 < I ∧ I ≤ infloop ∧ I ≤ last + 1 ∧ (I = last + 1 → u ≠ .tcommit ∧ u ≠ .set .l)
  /-- up to the last index each global outside the transaction is set -/
  sets : ∀ I, 0 < I → I ≤ last → ∀ x, Done c s.db I (.set x)
  /-- a transaction is there as a whole, or not at all -/
  whole : ∀ I x, s.db.get (node c (.tpslowfilling x) I) ≠ none → Done c s.db I .tcommit
  /-- a transaction that is not there is lost, or some job will make it -/
  missing : c.istp = true → ∀ I, 0 < I → I ≤ last → Done c s.db I .tcommit ∨ lost I ∨
    ∃ j trigger left, s.job j = .loop trigger I left ∧ .tcommit ∈ left
  lost_spec : ∀ I, lost I → c.istp = true ∧ 0 < I ∧ I ≤ last ∧ ¬ Done c s.db I .tcommit
  /-- the next index is begun by a job that is still there, or was so before the crash -/
  next : ∀ x, s.db.get (node c (.slowfilling x) (last + 1)) ≠ none →
    (∃ j trigger left, s.job j = .loop trigger (last + 1) left) ∨ ∀ j, s.job j = .starting
  jobs : ∀ j trigger I left, s.job j = .loop trigger I left → JobOk c lost last s.db I left
  stopped : ∀ j, s.job j = .stopped → 0 < last
  gtcm : ∀ j, s.job j ≠ .starting → s.gtcm = some c.gtcm

/-! ### The updates of an index -/

theorem set_mem_iteration (istp : Bool) (x : Letter) : .set x ∈ iteration istp :=
  List.mem_append_left _ (List.mem_map_of_mem (mem_templ1 x))

theorem tcommit_mem_iteration {istp : Bool} : .tcommit ∈ iteration istp ↔ istp = true := by
  cases istp <;> decide

/-- What comes before and after the update of ^lslowfilling. -/
theorem iteration_set_l {istp : Bool} {done left : List Update}
    (h : iteration istp = done ++ .set .l :: left) :
    (∀ x, x ≠ .l → .set x ∈ done) ∧ (istp = true → .tcommit ∈ left) := by
  have hsplit : iteration istp = ([.a, .b, .c, .d, .e, .f, .g, .h, .i, .j, .k].map Update.set) ++
      .set .l :: (if istp then [.tcommit] else []) := by
    cases istp <;> rfl
  rw [hsplit] at h
  have hparts := (List.append_cons_inj_of_notMem (by decide) (by cases istp <;> decide)).1 h
  rw [← hparts.1, ← hparts.2.2]
  constructor
  · intro x hx
    cases x <;> first | decide | exact absurd rfl hx
  · rintro rfl
    exact List.mem_singleton_self _

/-- After the transaction there is nothing left. -/
theorem iteration_tcommit {istp : Bool} {done left : List Update}
    (h : iteration istp = done ++ .tcommit :: left) : left = [] := by
  have htp : istp = true := tcommit_mem_iteration.1 (h ▸ List.mem_append_right _ List.mem_cons_self)
  subst htp
  exact ((List.append_cons_inj_of_notMem (by decide) (by decide)).1 h).2.2.symm

/-! ### The last index -/

theorem le_lastind {d : Db} {g : Glob} {I : Nat} (h : d.get (node c g I) ≠ none) :
    I ≤ lastind c d g := by
  obtain ⟨v, hv⟩ := Option.ne_none_iff_exists'.1 h
  have hmem := (DB.mem_nextNums d (root c g) I).2 ⟨_, v, nextNum_node g I, hv⟩
  rw [lastind, DB.zprevious]
  cases hmax : (d.entries.filterMap fun e => DB.nextNum (root c g) e.1).max? with
  | none => exact absurd (List.max?_eq_none_iff.1 hmax ▸ hmem) (by simp)
  | some j => exact (List.max?_eq_some_iff.1 hmax).2 I hmem

theorem lastind_le {d : Db} {g : Glob} {last : Nat}
    (h : ∀ n v, (root c g).covers n = true → d.get n = some v → ∃ I ≤ last, n = node c g I) :
    lastind c d g ≤ last := by
  rw [lastind, DB.zprevious]
  cases hmax : (d.entries.filterMap fun e => DB.nextNum (root c g) e.1).max? with
  | none => exact Nat.zero_le _
  | some j =>
      obtain ⟨n, v, hj, hv⟩ := (DB.mem_nextNums d _ j).1 (List.max?_eq_some_iff.1 hmax).1
      have hcovers : (root c g).covers n = true := by
        by_contra hc
        rw [DB.nextNum, if_neg hc] at hj
        cases hj
      obtain ⟨I, hle, rfl⟩ := h n v hcovers hv
      rw [nextNum_node] at hj
      exact Option.some.inj hj ▸ hle

section Facts

variable {J : Type} {lost : Nat → Prop} {last : Nat} {s : State J}

theorem Done.set_ne_none {d : Db} {I : Nat} {x : Letter} (h : Done c d I (.set x)) :
    d.get (node c (.slowfilling x) I) ≠ none := by
  rw [h _ (mem_written_set.2 rfl)]
  exact Option.some_ne_none _

theorem Done.tcommit_ne_none {d : Db} {I : Nat} (h : Done c d I .tcommit) (x : Letter) :
    d.get (node c (.tpslowfilling x) I) ≠ none := by
  rw [h _ (mem_written_tcommit.2 ⟨x, rfl⟩)]
  exact Option.some_ne_none _

/-- The node of a global is at an index up to the last, or at the next one if it is set before
    ^lslowfilling. -/
theorem Inv.index_of_slowfilling (h : Inv c lost last s) {x : Letter} {n : Node Glob} {v : Val}
    (hc : (root c (.slowfilling x)).covers n = true) (hv : s.db.get n = some v) :
    ∃ I, n = node c (.slowfilling x) I ∧ 0 < I ∧ I ≤ last + 1 ∧ (I = last + 1 → x ≠ .l) := by
  obtain ⟨I, u, w, hw, -, -, hpos, -, hle, hnext⟩ := h.only _ n v hc hv
  cases u with
  | set y =>
      obtain ⟨rfl, -⟩ := Prod.mk.inj (mem_written_set.1 hw)
      obtain rfl : x = y := Glob.slowfilling.inj (Node.covers_iff.1 hc).1
      exact ⟨I, rfl, hpos, hle, fun he hx => (hnext he).2 (hx ▸ rfl)⟩
  | tcommit =>
      obtain ⟨y, he⟩ := mem_written_tcommit.1 hw
      obtain ⟨rfl, -⟩ := Prod.mk.inj he
      cases (Node.covers_iff.1 hc).1

theorem Inv.index_of_tpslowfilling (h : Inv c lost last s) {x : Letter} {n : Node Glob} {v : Val}
    (hc : (root c (.tpslowfilling x)).covers n = true) (hv : s.db.get n = some v) :
    ∃ I, n = node c (.tpslowfilling x) I ∧ 0 < I ∧ I ≤ last := by
  obtain ⟨I, u, w, hw, -, -, hpos, -, hle, hnext⟩ := h.only _ n v hc hv
  cases u with
  | set y =>
      obtain ⟨rfl, -⟩ := Prod.mk.inj (mem_written_set.1 hw)
      cases (Node.covers_iff.1 hc).1
  | tcommit =>
      obtain ⟨y, he⟩ := mem_written_tcommit.1 hw
      obtain ⟨rfl, -⟩ := Prod.mk.inj he
      obtain rfl : x = y := Glob.tpslowfilling.inj (Node.covers_iff.1 hc).1
      refine ⟨I, rfl, hpos, ?_⟩
      have hne : I ≠ last + 1 := fun he => (hnext he).1 rfl
      omega

/-- **The restart index is the last index of ^lslowfilling.** -/
theorem Inv.lastind_l (h : Inv c lost last s) : lastind c s.db (.slowfilling .l) = last := by
  refine Nat.le_antisymm (lastind_le fun n v hc hv => ?_) ?_
  · obtain ⟨I, hn, -, hle, hnext⟩ := h.index_of_slowfilling hc hv
    have hne : I ≠ last + 1 := fun he => hnext he rfl
    exact ⟨I, by omega, hn⟩
  · cases last with
    | zero => exact Nat.zero_le _
    | succ last => exact le_lastind (h.sets _ (Nat.succ_pos _) (Nat.le_refl _) .l).set_ne_none

/-- A job that has set ^lslowfilling at an index is not beyond the last one. -/
theorem Inv.le_last (h : Inv c lost last s) {I : Nat} (hdone : Done c s.db I (.set .l)) :
    I ≤ last := by
  have hle := le_lastind hdone.set_ne_none
  rwa [h.lastind_l] at hle

/-- A job that has no update left, or only the transaction. -/
theorem JobOk.le_last (h : Inv c lost last s) {I : Nat} {left : List Update}
    (hjob : JobOk c lost last s.db I left) (hleft : .set .l ∉ left) : I ≤ last := by
  obtain ⟨done, hsplit, hdone⟩ := hjob.done
  have hmem := set_mem_iteration c.istp .l
  rw [hsplit] at hmem
  exact h.le_last (hdone _ ((List.mem_append.1 hmem).resolve_right hleft))

/-! ### An update -/

theorem apply_eq_some {trigger : Bool} {I : Nat} {u : Update} {d : Db} {n : Node Glob} {v : Val}
    (h : (apply c trigger I u d).get n = some v) :
    (∃ w, (n, w) ∈ written c I u ∧ v = .num w) ∨ d.get n = some v := by
  by_cases hw : ∃ w, (n, w) ∈ written c I u
  · obtain ⟨w, hw⟩ := hw
    have hv : some v = some (.num w) := h.symm.trans (apply_written hw)
    exact Or.inl ⟨w, hw, Option.some.inj hv⟩
  · refine Or.inr ((apply_other ?_).symm.trans h)
    rintro ⟨n', w⟩ he rfl
    exact hw ⟨w, he⟩

/-- What is set stays set. -/
theorem Done.apply {d : Db} {I I' : Nat} {u u' : Update} {trigger : Bool} (h : Done c d I u) :
    Done c (Slowfill.apply c trigger I' u' d) I u := by
  intro e he
  by_cases hw : ∃ w, (e.1, w) ∈ written c I' u'
  · obtain ⟨w, hw⟩ := hw
    obtain ⟨-, -, rfl⟩ := written_inj hw (show (e.1, e.2) ∈ written c I u from he)
    exact apply_written hw
  · refine (apply_other ?_).trans (h e he)
    intro e' he' hne
    exact hw ⟨e'.2, hne ▸ he'⟩

theorem Done.of_apply (trigger : Bool) {d : Db} {I : Nat} {u : Update} :
    Done c (Slowfill.apply c trigger I u d) I u := fun _ he => apply_written he

/-- Only its own update brings the transaction of an index. -/
theorem tpslowfilling_apply {d : Db} {I I' : Nat} {u : Update} {trigger : Bool} {x : Letter}
    (h : (apply c trigger I' u d).get (node c (.tpslowfilling x) I) ≠ none) :
    (I = I' ∧ u = .tcommit) ∨ d.get (node c (.tpslowfilling x) I) ≠ none := by
  obtain ⟨v, hv⟩ := Option.ne_none_iff_exists'.1 h
  rcases apply_eq_some hv with ⟨w, hw, -⟩ | hv
  · obtain ⟨rfl, rfl, -⟩ := written_inj hw (mem_written_tcommit.2 ⟨x, rfl⟩)
    exact Or.inl ⟨rfl, rfl⟩
  · exact Or.inr (hv ▸ Option.some_ne_none v)

variable [DecidableEq J]

/-- A job makes its next update. When that is the one of ^lslowfilling at the next index, this becomes
    the last one. -/
theorem Inv.update (h : Inv c lost last s) {j : J} {trigger : Bool} {I : Nat} {u : Update}
    {left : List Update} (hplace : s.job j = .loop trigger I (u :: left)) {last' : Nat}
    (hlast : (last' = last ∧ ¬ (u = .set .l ∧ I = last + 1)) ∨
      (last' = last + 1 ∧ u = .set .l ∧ I = last + 1)) :
    Inv c lost last'
      { s with db := apply c trigger I u s.db, job := update s.job j (.loop trigger I left) } := by
  have hjob := h.jobs j _ _ _ hplace
  obtain ⟨done, hsplit, hdone⟩ := hjob.done
  have hmem : u ∈ iteration c.istp := hsplit ▸ List.mem_append_right _ List.mem_cons_self
  have hgrow : last ≤ last' := by omega
  -- the transaction comes after the update of ^lslowfilling
  have htcommit : u = .tcommit → I ≤ last := by
    rintro rfl
    refine hjob.le_last h ?_
    rw [iteration_tcommit hsplit]
    decide
  constructor
  · intro g n v hc hv
    rcases apply_eq_some hv with ⟨w, hw, rfl⟩ | hv
    · refine ⟨I, u, w, hw, rfl, hmem, hjob.pos, hjob.le_infloop, ?_, fun he => ?_⟩
      · have hle := hjob.le
        omega
      · rcases hlast with ⟨rfl, hne⟩ | ⟨rfl, -, hI⟩
        · refine ⟨fun hu => ?_, fun hu => hne ⟨hu, he⟩⟩
          have hle := htcommit hu
          omega
        · omega
    · obtain ⟨I', u', w, hw, hvw, hu', hpos, hinf, hle, hnext⟩ := h.only g n v hc hv
      refine ⟨I', u', w, hw, hvw, hu', hpos, hinf, by omega, fun he => ?_⟩
      rcases hlast with ⟨rfl, -⟩ | ⟨rfl, -, -⟩
      · exact hnext he
      · omega
  · intro I' hpos hle x
    rcases Nat.lt_or_ge last I' with hlt | hge
    · obtain ⟨rfl, rfl, rfl⟩ := hlast.resolve_left (by omega)
      obtain rfl : I' = last + 1 := by omega
      by_cases hx : x = .l
      · subst hx
        exact Done.of_apply trigger
      · exact (hdone _ ((iteration_set_l hsplit).1 x hx)).apply
    · exact (h.sets I' hpos hge x).apply
  · intro I' x hne
    rcases tpslowfilling_apply hne with ⟨rfl, rfl⟩ | hne
    · exact Done.of_apply trigger
    · exact (h.whole I' x hne).apply
  · intro htp I' hpos hle
    rcases Nat.lt_or_ge last I' with hlt | hge
    · obtain ⟨rfl, rfl, rfl⟩ := hlast.resolve_left (by omega)
      obtain rfl : I' = last + 1 := by omega
      exact Or.inr (Or.inr ⟨j, trigger, left, update_self .., (iteration_set_l hsplit).2 htp⟩)
    · rcases h.missing htp I' hpos hge with hd | hl | ⟨k, t, left', hk, hleft⟩
      · exact Or.inl hd.apply
      · exact Or.inr (Or.inl hl)
      · by_cases hkj : k = j
        · subst hkj
          obtain ⟨rfl, rfl, rfl⟩ := Place.loop.inj (hk.symm.trans hplace)
          rcases List.mem_cons.1 hleft with rfl | hleft
          · exact Or.inl (Done.of_apply _)
          · exact Or.inr (Or.inr ⟨k, t, left, update_self .., hleft⟩)
        · exact Or.inr (Or.inr ⟨k, t, left', (update_of_ne hkj ..).trans hk, hleft⟩)
  · intro k hk
    obtain ⟨htp, hpos, hle, hnot⟩ := h.lost_spec k hk
    refine ⟨htp, hpos, by omega, fun hd => ?_⟩
    rcases tpslowfilling_apply (hd.tcommit_ne_none .l) with ⟨rfl, -⟩ | hne
    · exact Nat.lt_irrefl _ (hjob.after_lost _ hk)
    · exact hnot (h.whole k .l hne)
  · intro x hne
    obtain ⟨v, hv⟩ := Option.ne_none_iff_exists'.1 hne
    rcases hlast with ⟨rfl, -⟩ | ⟨rfl, rfl, rfl⟩
    · refine Or.inl ?_
      rcases apply_eq_some hv with ⟨w, hw, -⟩ | hv
      · obtain ⟨rfl, -, -⟩ := written_inj hw (mem_written_set.2 rfl)
        exact ⟨j, trigger, left, update_self ..⟩
      · rcases h.next x (hv ▸ Option.some_ne_none v) with ⟨k, t, left', hk⟩ | hall
        · by_cases hkj : k = j
          · subst hkj
            obtain ⟨rfl, rfl, rfl⟩ := Place.loop.inj (hk.symm.trans hplace)
            exact ⟨k, t, left, update_self ..⟩
          · exact ⟨k, t, left', (update_of_ne hkj ..).trans hk⟩
        · exact absurd ((hall j).symm.trans hplace) (by simp)
    · exfalso
      rcases apply_eq_some hv with ⟨w, hw, -⟩ | hv
      · have heq := (written_inj hw (mem_written_set.2 rfl)).1
        omega
      · obtain ⟨I', hn, -, hle, -⟩ := h.index_of_slowfilling (covers_node _ _) hv
        have heq := (node_inj.1 hn).2
        omega
  · intro k t I' left' hk
    dsimp only at hk
    by_cases hkj : k = j
    · subst hkj
      rw [update_self] at hk
      obtain ⟨rfl, rfl, rfl⟩ := Place.loop.inj hk
      have hle := hjob.le
      refine ⟨hjob.pos, hjob.le_infloop, by omega, ⟨done ++ [u], ?_, fun u' hu' => ?_⟩, hjob.after_lost⟩
      · rw [hsplit, List.append_assoc, List.singleton_append]
      · rcases List.mem_append.1 hu' with hu' | hu'
        · exact (hdone u' hu').apply
        · exact List.mem_singleton.1 hu' ▸ Done.of_apply trigger
    · rw [update_of_ne hkj] at hk
      have hother := h.jobs k t I' left' hk
      obtain ⟨done', hsplit', hdone'⟩ := hother.done
      have hle := hother.le
      exact ⟨hother.pos, hother.le_infloop, by omega, ⟨done', hsplit', fun u' hu' => (hdone' u' hu').apply⟩,
        hother.after_lost⟩
  · intro k hk
    dsimp only at hk
    by_cases hkj : k = j
    · rw [hkj, update_self] at hk
      cases hk
    · rw [update_of_ne hkj] at hk
      exact Nat.lt_of_lt_of_le (h.stopped k hk) hgrow
  · intro k _
    exact h.gtcm j (by rw [hplace]; simp)

/-! ### The other steps -/

/-- A job that has no update left goes elsewhere. -/
theorem Inv.move (h : Inv c lost last s) {j : J} {place : Place} {gtcm : Option Bool}
    (hleft : ∀ t I left, s.job j = .loop t I left → left = [])
    (hloop : ∀ t I left, place = .loop t I left → JobOk c lost last s.db I left)
    (hstopped : place = .stopped → 0 < last)
    (hnext : (∀ k, s.job k = .starting) → (∃ t left, place = .loop t (last + 1) left) ∨
      ∀ x, s.db.get (node c (.slowfilling x) (last + 1)) = none)
    (hgtcm : gtcm = some c.gtcm) :
    Inv c lost last { s with gtcm := gtcm, job := Function.update s.job j place } where
  only := h.only
  sets := h.sets
  whole := h.whole
  missing htp I hpos hle := by
    rcases h.missing htp I hpos hle with hd | hl | ⟨k, t, left, hk, hmem⟩
    · exact Or.inl hd
    · exact Or.inr (Or.inl hl)
    · have hkj : k ≠ j := by
        rintro rfl
        rw [hleft _ _ _ hk] at hmem
        cases hmem
      exact Or.inr (Or.inr ⟨k, t, left, (update_of_ne hkj ..).trans hk, hmem⟩)
  lost_spec := h.lost_spec
  next x hne := by
    rcases h.next x hne with ⟨k, t, left, hk⟩ | hall
    · have hkj : k ≠ j := by
        rintro rfl
        obtain rfl := hleft _ _ _ hk
        have hle := (h.jobs _ _ _ _ hk).le_last h (by simp)
        omega
      exact Or.inl ⟨k, t, left, (update_of_ne hkj ..).trans hk⟩
    · rcases hnext hall with ⟨t, left, hloop⟩ | hnone
      · exact Or.inl ⟨j, t, left, (update_self ..).trans hloop⟩
      · exact absurd (hnone x) hne
  jobs k t I left hk := by
    dsimp only at hk
    by_cases hkj : k = j
    · rw [hkj, update_self] at hk
      exact hloop t I left hk
    · rw [update_of_ne hkj] at hk
      exact h.jobs k t I left hk
  stopped k hk := by
    dsimp only at hk
    by_cases hkj : k = j
    · rw [hkj, update_self] at hk
      exact hstopped hk
    · rw [update_of_ne hkj] at hk
      exact h.stopped k hk
  gtcm _ _ := hgtcm

omit [DecidableEq J] in
/-- A job at an index before its updates. -/
theorem JobOk.of_atIndex (trigger : Bool) {d : Db} {I : Nat} (hpos : 0 < I)
    (hle : I ≤ last + 1) (hafter : ∀ k, lost k → k < I) :
    (∀ t I' left, atIndex c trigger I = .loop t I' left → JobOk c lost last d I' left) ∧
      (atIndex c trigger I = .stopped → 0 < last) := by
  unfold atIndex
  split
  · rename_i hinf
    refine ⟨fun t I' left he => ?_, fun he => absurd he (by simp)⟩
    obtain ⟨rfl, rfl, rfl⟩ := Place.loop.inj he
    exact ⟨hpos, hinf, hle, ⟨[], rfl, fun _ hu => by cases hu⟩, hafter⟩
  · rename_i hinf
    refine ⟨fun t I' left he => absurd he (by simp), fun _ => ?_⟩
    have hlimit : infloop = 1000000 := rfl
    omega

theorem Inv.slowjob (h : Inv c lost last s) {j : J} (hplace : s.job j = .starting) :
    Inv c lost last { s with
      gtcm := some c.gtcm
      job := Function.update s.job j
        (Slowfill.atIndex c s.trigger (1 + lastind c s.db (.slowfilling .l))) } := by
  rw [h.lastind_l, Nat.add_comm]
  obtain ⟨hloop, hstop⟩ := JobOk.of_atIndex (c := c) s.trigger (d := s.db) (Nat.succ_pos last)
    (Nat.le_refl _) fun k hk => Nat.lt_succ_of_le (h.lost_spec k hk).2.2.1
  refine h.move (fun t I left hk => ?_) hloop hstop (fun _ => ?_) rfl
  · rw [hplace] at hk
    cases hk
  · unfold Slowfill.atIndex
    split
    · exact Or.inl ⟨_, _, rfl⟩
    · rename_i hinf
      refine Or.inr fun x => ?_
      by_contra hne
      obtain ⟨v, hv⟩ := Option.ne_none_iff_exists'.1 hne
      obtain ⟨I, u, w, hw, -, -, -, hle, -⟩ := h.only _ _ v (covers_node _ _) hv
      have heq := (written_inj hw (mem_written_set.2 rfl)).1
      exact hinf (heq ▸ hle)

theorem Inv.test (h : Inv c lost last s) {j : J} {trigger : Bool} {I : Nat}
    (hplace : s.job j = .loop trigger I []) :
    Inv c lost last { s with
      job := Function.update s.job j
        (if s.endloop then .stopped else Slowfill.atIndex c trigger (I + 1)) } := by
  have hjob := h.jobs j _ _ _ hplace
  have hpos := hjob.pos
  have hle := hjob.le_last h (by simp)
  obtain ⟨hloop, hstop⟩ := JobOk.of_atIndex (c := c) trigger (d := s.db) (Nat.succ_pos I)
    (Nat.succ_le_succ hle) fun k hk => Nat.lt_succ_of_lt (hjob.after_lost k hk)
  have hleft : ∀ t I' left, s.job j = .loop t I' left → left = [] := by
    intro t I' left hk
    exact (Place.loop.inj (hk.symm.trans hplace)).2.2
  have hgtcm : s.gtcm = some c.gtcm := h.gtcm j (by rw [hplace]; simp)
  have hnot : ¬ ∀ k, s.job k = .starting := fun hall =>
    absurd ((hall j).symm.trans hplace) (by simp)
  split
  · exact h.move hleft (fun t I' left he => absurd he (by simp)) (fun _ => by omega)
      (fun hall => absurd hall hnot) hgtcm
  · exact h.move hleft hloop hstop (fun hall => absurd hall hnot) hgtcm

omit [DecidableEq J] in
/-- After a crash the transactions that are not there are lost. -/
theorem Inv.crash (h : Inv c lost last s) (trigger : Bool) :
    Inv c (fun I => c.istp = true ∧ 0 < I ∧ I ≤ last ∧ ¬ Done c s.db I .tcommit) last
      ({ s with endloop := false, trigger := trigger, job := fun _ => .starting } : State J) where
  only := h.only
  sets := h.sets
  whole := h.whole
  missing htp I hpos hle := by
    by_cases hd : Done c s.db I .tcommit
    · exact Or.inl hd
    · exact Or.inr (Or.inl ⟨htp, hpos, hle, hd⟩)
  lost_spec I hI := hI
  next _ _ := Or.inr fun _ => rfl
  jobs k t I left hk := by cases hk
  stopped k hk := by cases hk
  gtcm k hk := absurd rfl hk

omit [DecidableEq J] in
/-- Nothing is lost by a crash when each index has its transaction. -/
theorem Inv.crash_lost_iff (h : Inv c lost last s) :
    (∀ I, ¬ (c.istp = true ∧ 0 < I ∧ I ≤ last ∧ ¬ Done c s.db I .tcommit)) ↔
      (∀ I, ¬ lost I) ∧ Whole c s.db := by
  constructor
  · intro hnone
    refine ⟨fun I hI => hnone I (h.lost_spec I hI), fun htp I hne => ?_⟩
    obtain ⟨v, hv⟩ := Option.ne_none_iff_exists'.1 hne
    obtain ⟨I', hn, hpos, hle, hnext⟩ := h.index_of_slowfilling (covers_node _ _) hv
    obtain ⟨-, rfl⟩ := node_inj.1 hn
    have hlast : I ≠ last + 1 := fun he => hnext he rfl
    by_contra hnot
    exact hnone I ⟨htp, hpos, by omega, fun hd => hd.tcommit_ne_none .l hnot⟩
  · rintro ⟨-, hwhole⟩ I ⟨htp, hpos, hle, hnot⟩
    exact hnot (h.whole I .l (hwhole htp I (h.sets I hpos hle .l).set_ne_none))

/-- **One step.** -/
theorem Inv.step (h : Inv c lost last s) {e : Event J} {s' : State J} (hstep : step c s e = some s') :
    ∃ lost' last', Inv c lost' last' s' ∧
      ((∀ I, ¬ lost' I) ↔ (∀ I, ¬ lost I) ∧ ∀ trigger, e = .crash trigger → Whole c s.db) := by
  have hkeep : (∀ trigger, e ≠ .crash trigger) → ((∀ I, ¬ lost I) ↔
      (∀ I, ¬ lost I) ∧ ∀ trigger, e = .crash trigger → Whole c s.db) := fun he =>
    ⟨fun hl => ⟨hl, fun t ht => absurd ht (he t)⟩, And.left⟩
  cases e with
  | slowjob j =>
      simp only [Slowfill.step] at hstep
      split at hstep
      · rename_i hplace
        exact ⟨lost, last, Option.some.inj hstep ▸ h.slowjob hplace, hkeep (by simp)⟩
      · cases hstep
  | update j =>
      simp only [Slowfill.step] at hstep
      split at hstep
      · rename_i trigger I u left hplace
        by_cases hl : u = .set .l ∧ I = last + 1
        · exact ⟨lost, last + 1, Option.some.inj hstep ▸ h.update hplace (Or.inr ⟨rfl, hl⟩),
            hkeep (by simp)⟩
        · exact ⟨lost, last, Option.some.inj hstep ▸ h.update hplace (Or.inl ⟨rfl, hl⟩),
            hkeep (by simp)⟩
      · cases hstep
  | test j =>
      simp only [Slowfill.step] at hstep
      split at hstep
      · rename_i trigger I hplace
        exact ⟨lost, last, Option.some.inj hstep ▸ h.test hplace, hkeep (by simp)⟩
      · cases hstep
  | endloop =>
      obtain rfl := Option.some.inj hstep
      exact ⟨lost, last, ⟨h.only, h.sets, h.whole, h.missing, h.lost_spec, h.next, h.jobs, h.stopped,
        h.gtcm⟩, hkeep (by simp)⟩
  | crash trigger =>
      obtain rfl := Option.some.inj hstep
      refine ⟨_, last, h.crash trigger, h.crash_lost_iff.trans (and_congr_right fun _ => ?_)⟩
      exact ⟨fun hw _ _ => hw, fun hw => hw trigger rfl⟩

/-- **A whole run.** -/
theorem Inv.run : ∀ (events : List (Event J)) {lost : Nat → Prop} {last : Nat} {s s' : State J},
    Inv c lost last s → run c events s = some s' →
      ∃ lost' last', Inv c lost' last' s' ∧
        ((∀ I, ¬ lost' I) ↔ (∀ I, ¬ lost I) ∧ WholeAtCrashes c events s)
  | [], lost, last, s, s', h, hrun => by
      obtain rfl := Option.some.inj hrun
      exact ⟨lost, last, h, fun hl => ⟨hl, trivial⟩, And.left⟩
  | e :: events, lost, last, s, s', h, hrun => by
      obtain ⟨t, hstep, hrest⟩ := Option.bind_eq_some_iff.1 hrun
      obtain ⟨lost₁, last₁, hInv, hiff₁⟩ := h.step hstep
      obtain ⟨lost', last', hInv', hiff'⟩ := Inv.run events hInv hrest
      refine ⟨lost', last', hInv', hiff'.trans ?_⟩
      rw [hiff₁, and_assoc]
      refine and_congr_right fun _ => and_congr_right fun _ => ?_
      constructor
      · intro hw t' ht'
        exact Option.some.inj (hstep.symm.trans ht') ▸ hw
      · intro hw
        exact hw t hstep

omit [DecidableEq J] in
/-- A database without a node of the jobs. -/
theorem Inv.start {d : Db} (hd : ∀ g, d.data (root c g) = false) (trigger : Bool) :
    Inv c (fun _ => False) 0 (start d trigger : State J) := by
  have hnone : ∀ g n, (root c g).covers n = true → d.get n = none := fun g =>
    (DB.data_eq_false_iff d _).1 (hd g)
  constructor
  · intro g n v hc hv
    exact absurd (hv.symm.trans (hnone g n hc)) (Option.some_ne_none v)
  · intro I hpos hle
    omega
  · intro I x hne
    exact absurd (hnone _ _ (covers_node _ _)) hne
  · intro _ I hpos hle
    omega
  · intro I hI
    cases hI
  · intro _ _
    exact Or.inr fun _ => rfl
  · intro j t I left hk
    cases hk
  · intro j hk
    cases hk
  · intro j hk
    exact absurd rfl hk

end Facts

/-! ## 3. What the verification finds -/

/-- The nodes of a run without a crash are those that the updates of its indices set. -/
theorem foldl_apply_eq_some {trigger : Bool} {I : Nat} {n : Node Glob} {v : Val} :
    ∀ (us : List Update) {d : Db}, (us.foldl (fun d u => apply c trigger I u d) d).get n = some v →
      (∃ u ∈ us, ∃ w, (n, w) ∈ written c I u ∧ v = .num w) ∨ d.get n = some v
  | [], d, h => Or.inr h
  | u :: us, d, h => by
      rcases foldl_apply_eq_some us h with ⟨u', hu', hw⟩ | h
      · exact Or.inl ⟨u', List.mem_cons_of_mem u hu', hw⟩
      · exact (apply_eq_some h).imp_left fun hw => ⟨u, List.mem_cons_self, hw⟩

theorem uninterrupted_eq_some {trigger : Bool} {last : Nat} {n : Node Glob} {v : Val}
    (h : (uninterrupted c trigger last Table.empty).get n = some v) :
    ∃ I, 0 < I ∧ I ≤ last ∧ ∃ u ∈ iteration c.istp, ∃ w, (n, w) ∈ written c I u ∧ v = .num w := by
  have hfold : ∀ (Is : List Nat) (d : Db),
      (Is.foldl (fun d I => (iteration c.istp).foldl (fun d u => apply c trigger I u d) d) d).get n =
        some v →
      (∃ I ∈ Is, ∃ u ∈ iteration c.istp, ∃ w, (n, w) ∈ written c I u ∧ v = .num w) ∨
        d.get n = some v := by
    intro Is
    induction Is with
    | nil => exact fun d h => Or.inr h
    | cons I Is ih =>
        intro d h
        rcases ih _ h with ⟨I', hI', hu⟩ | h
        · exact Or.inl ⟨I', List.mem_cons_of_mem I hI', hu⟩
        · exact (foldl_apply_eq_some _ h).imp_left fun hu => ⟨I, List.mem_cons_self, hu⟩
  rcases hfold _ _ h with ⟨I, hI, hu⟩ | h
  · rw [List.mem_range'_1] at hI
    exact ⟨I, by omega, by omega, hu⟩
  · cases h

section Stopped

variable {J : Type} {lost : Nat → Prop} {last : Nat} {s : State J}
  (h : Inv c lost last s) (hstop : ∀ j, s.job j = .stopped) (j : J)
include h hstop

/-- All jobs are through with all their indices. -/
theorem Inv.done_of_stopped (hlost : ∀ I, ¬ lost I) {I : Nat} (hpos : 0 < I) (hle : I ≤ last)
    {u : Update} (hu : u ∈ iteration c.istp) : Done c s.db I u := by
  cases u with
  | set x => exact h.sets I hpos hle x
  | tcommit =>
      rcases h.missing (tcommit_mem_iteration.1 hu) I hpos hle with hd | hl | ⟨k, t, left, hk, -⟩
      · exact hd
      · exact absurd hl (hlost I)
      · exact absurd ((hstop k).symm.trans hk) (by simp)

include j

/-- No index after the last one has been begun. -/
theorem Inv.slowfilling_of_stopped (x : Letter) : lastind c s.db (.slowfilling x) = last := by
  refine Nat.le_antisymm (lastind_le fun n v hc hv => ?_) ?_
  · obtain ⟨I, rfl, -, hle, -⟩ := h.index_of_slowfilling hc hv
    refine ⟨I, Nat.le_of_not_lt fun hlt => ?_, rfl⟩
    obtain rfl : I = last + 1 := by omega
    rcases h.next x (hv ▸ Option.some_ne_none v) with ⟨k, t, left, hk⟩ | hall
    · exact absurd ((hstop k).symm.trans hk) (by simp)
    · exact absurd ((hstop j).symm.trans (hall j)) (by simp)
  · exact le_lastind (h.sets last (h.stopped j (hstop j)) (Nat.le_refl _) x).set_ne_none

/-- **The verification passes exactly when no transaction is lost.** -/
theorem Inv.pass_iff : verify c s = .errors 0 ↔ ∀ I, ¬ lost I := by
  have hpos := h.stopped j (hstop j)
  have hgtcm : s.gtcm = some c.gtcm := h.gtcm j (by rw [hstop j]; simp)
  rw [verify_pass_iff hgtcm, h.slowfilling_of_stopped hstop j]
  constructor
  · rintro ⟨-, hall⟩ I hI
    obtain ⟨htp, hI0, hle, hnot⟩ := h.lost_spec I hI
    have hvalue := (hall (.tpslowfilling .l) (mem_globals.2 ⟨.l, Or.inr ⟨htp, rfl⟩⟩)).2 I hI0 hle
    refine hnot (h.whole I .l fun hnone => ?_)
    rw [DB.value, hnone] at hvalue
    cases hvalue
  · intro hlost
    refine ⟨Nat.ne_of_gt hpos, fun g hg => ?_⟩
    obtain ⟨x, rfl | ⟨htp, rfl⟩⟩ := mem_globals.1 hg
    · refine ⟨h.slowfilling_of_stopped hstop j x, fun I hI0 hle => ?_⟩
      rw [DB.value, h.sets I hI0 hle x _ (mem_written_set.2 rfl)]
      rfl
    · have hdone : ∀ I, 0 < I → I ≤ last → Done c s.db I .tcommit := fun I hI0 hle =>
        h.done_of_stopped hstop hlost hI0 hle (tcommit_mem_iteration.2 htp)
      refine ⟨Nat.le_antisymm (lastind_le fun n v hc hv => ?_) ?_, fun I hI0 hle => ?_⟩
      · obtain ⟨I, hn, -, hle⟩ := h.index_of_tpslowfilling hc hv
        exact ⟨I, hle, hn⟩
      · exact le_lastind ((hdone last hpos (Nat.le_refl _)).tcommit_ne_none x)
      · rw [DB.value, hdone I hI0 hle _ (mem_written_tcommit.2 ⟨x, rfl⟩)]
        rfl

theorem Inv.found_iff : Found c s ↔ ∀ I, ¬ lost I := by
  rw [← h.pass_iff hstop j]
  constructor
  · exact Found.pass
  · intro hpass
    refine ⟨hpass, fun trigger n v hv => ?_⟩
    rw [h.lastind_l] at hv
    obtain ⟨I, hI0, hle, u, hu, w, hw, rfl⟩ := uninterrupted_eq_some hv
    exact h.done_of_stopped hstop ((h.pass_iff hstop j).1 hpass) hI0 hle hu _ hw

end Stopped

/-- **The filling survives its crashes exactly when none of them comes between the update of
    ^lslowfilling and the commit of the same index.** The jobs start on a database without a node of
    theirs, run and crash in any order, and all of them stop in the end. -/
theorem run_found_iff {J : Type} [DecidableEq J] [Nonempty J] (c : Config) (d : Db)
    (hd : ∀ g, d.data (root c g) = false) (trigger : Bool) (events : List (Event J)) (s : State J)
    (hrun : run c events (start d trigger) = some s) (hstop : ∀ j, s.job j = .stopped) :
    Found c s ↔ WholeAtCrashes c events (start d trigger) := by
  obtain ⟨j⟩ := ‹Nonempty J›
  obtain ⟨lost, last, h, hlost⟩ := (Inv.start hd trigger).run events hrun
  rw [h.found_iff hstop j, hlost]
  exact and_iff_right fun _ => not_false

/-- A run without a crash. -/
theorem wholeAtCrashes_of_forall {J : Type} [DecidableEq J] :
    ∀ {events : List (Event J)} {s : State J}, (∀ e ∈ events, ∀ trigger, e ≠ .crash trigger) →
      WholeAtCrashes c events s
  | [], _, _ => trivial
  | e :: _, _, hall =>
      ⟨fun trigger he => absurd he (hall e List.mem_cons_self trigger),
        fun _ _ => wholeAtCrashes_of_forall fun e' he' => hall e' (List.mem_cons_of_mem e he')⟩

/-- The first updates of one job at an index, `n` of them. -/
def updates (n : Nat) : List (Event Unit) := List.replicate n (.update ())

/-- One job fills the first index, and is stopped. -/
theorem run_found_first : ∃ s, run ⟨0, false⟩ (.slowjob () :: updates 13 ++ [.endloop, .test ()])
    (start Table.empty false) = some s ∧ Found ⟨0, false⟩ s := by
  have hjob : (run ⟨0, false⟩ (.slowjob () :: updates 13 ++ [.endloop, .test ()])
      (start Table.empty false)).map (fun s => s.job ()) = some .stopped := by
    decide
  obtain ⟨s, hrun, hs⟩ := Option.map_eq_some_iff.1 hjob
  refine ⟨s, hrun, (run_found_iff ⟨0, false⟩ Table.empty (fun _ => rfl) false _ s hrun
    fun _ => hs).2 (wholeAtCrashes_of_forall ?_)⟩
  decide

/-- One job; the crash comes after the update of ^lslowfilling(0,1). After the restart the job fills
    the second index, and is stopped. -/
theorem crash_before_tcommit :
    ∃ s, run ⟨0, false⟩ (.slowjob () :: updates 12 ++ .crash false :: .slowjob () :: updates 13 ++
        [.endloop, .test ()]) (start Table.empty false) = some s ∧
      (∀ j, s.job j = .stopped) ∧ ¬ Found ⟨0, false⟩ s := by
  have hverify : (run ⟨0, false⟩ (.slowjob () :: updates 12 ++ .crash false :: .slowjob () ::
      updates 13 ++ [.endloop, .test ()]) (start Table.empty false)).map
        (fun s => (s.job (), verify ⟨0, false⟩ s)) = some (.stopped, .errors 12) := by
    decide
  obtain ⟨s, hrun, hs⟩ := Option.map_eq_some_iff.1 hverify
  refine ⟨s, hrun, fun _ => (Prod.mk.inj hs).1, fun hfound => ?_⟩
  have hpass := hfound.pass
  rw [(Prod.mk.inj hs).2] at hpass
  exact absurd hpass (by decide)

end YottaTest.Slowfill
