/-
  File:      YottaTest/Slowfill/Fill.lean
  Subject:   slowfill.m and slowfill.trg: jobs that fill globals index by index, crash and restart.

  Each job goes through the indices. At an index it sets twelve globals one by one, and then, in one
  transaction, twelve more; a restart goes on after the last index of ^lslowfilling. All jobs set the
  same nodes, each at its own pace.

  * `Letter`, `Glob`, `Config` -- the globals, and what all the jobs share;
  * `tcommit` -- the transaction, with the triggers or without; `get_tcommit`: both ways it sets the
    same nodes;
  * `Update`, `written`, `apply_written`, `apply_other` -- what an update sets, and that it leaves the
    rest;
  * `Place`, `State`, `Event`, `step`, `run` -- the jobs, in any order, and the crashes.
-/
import Mathlib.Logic.Function.Basic
import YottaTest.Lib.Cascade
import YottaTest.M.Globals

namespace YottaTest.Slowfill

open Function YottaTest.Lib YottaTest.M

/-! ## 1. The globals -/

inductive Letter where
  | a | b | c | d | e | f | g | h | i | j | k | l
  deriving DecidableEq, Repr

def templ1 : List Letter := [.a, .b, .c, .d, .e, .f, .g, .h, .i, .j, .k, .l]

theorem mem_templ1 (x : Letter) : x ∈ templ1 := by cases x <;> decide

/-- `^aslowfilling` to `^lslowfilling`, and `^atpslowfilling` to `^ltpslowfilling`. -/
inductive Glob where
  | slowfilling (x : Letter)
  | tpslowfilling (x : Letter)
  deriving DecidableEq, Repr

abbrev Db := DB Glob

/-- The environment of all the jobs: `gtm_test_dbfillid` and `gtm_test_is_gtcm`. -/
structure Config where
  fillid : Nat
  gtcm : Bool

/-- `for I=startindex:1:infloop` -/
def infloop : Nat := 1000000

section Nodes

variable (c : Config)

def Config.istp : Bool := !c.gtcm

/-- The global below `fillid`. -/
def root (g : Glob) : Node Glob := ⟨g, [.num c.fillid]⟩

/-- `^g(fillid,I)` -/
def node (g : Glob) (I : Nat) : Node Glob := (root c g).child (.num I)

/-- `+$order(^g(fillid,""),-1)` -/
def lastind (d : Db) (g : Glob) : Nat := (d.zprevious (root c g)).getD 0

end Nodes

variable {c : Config}

theorem node_inj {g g' : Glob} {I I' : Nat} : node c g I = node c g' I' ↔ g = g' ∧ I = I' := by
  simp [node, root, Node.child]

theorem covers_node (g : Glob) (I : Nat) : (root c g).covers (node c g I) = true :=
  Node.covers_child _ _

theorem nextNum_node (g : Glob) (I : Nat) : DB.nextNum (root c g) (node c g I) = some I := by
  rw [DB.nextNum, if_pos (covers_node g I)]
  simp [node, root, Node.child]

/-! ## 2. The transaction -/

/-- `trigupd`: a trigger sets this global. -/
def trigupd : Letter → Bool
  | .a | .j | .k | .l => false
  | _ => true

/-- slowfill.trg: the globals that the trigger on this one sets, to the same value. -/
def fires : Letter → List Letter
  | .a => [.b, .c]
  | .b => [.d, .e, .f]
  | .c => [.g, .h, .i]
  | _ => []

/-- One SET at the index, with what its trigger calls for. -/
def act (c : Config) (trigger : Bool) (I : Nat) (s : Letter × Nat) (d : Db) :
    Db × List (Letter × Nat) :=
  (d.set (node c (.tpslowfilling s.1) I) (.num s.2),
    if trigger then (fires s.1).map fun x => (x, s.2) else [])

/-- The nesting limit of triggers. -/
def ztlevelMax : Nat := 127

/-- The transaction of an index; where it fails, it changes nothing. -/
def tcommit (c : Config) (trigger : Bool) (I : Nat) (d : Db) : Db :=
  let sets := (templ1.filter fun x => !trigger || !trigupd x).map fun x => (x, I * I)
  (runCascade (act c trigger I) ztlevelMax sets d).getD d

/-- The order in which the nodes are set. -/
def settled (trigger : Bool) : List Letter :=
  if trigger then [.a, .b, .d, .e, .f, .c, .g, .h, .i, .j, .k, .l] else templ1

def setAll (c : Config) (I : Nat) (xs : List Letter) (d : Db) : Db :=
  xs.foldl (fun d x => d.set (node c (.tpslowfilling x) I) (.num (I * I))) d

theorem tcommit_eq (c : Config) (trigger : Bool) (I : Nat) (d : Db) :
    tcommit c trigger I d = setAll c I (settled trigger) d := by
  cases trigger <;> rfl

theorem mem_settled (trigger : Bool) (x : Letter) : x ∈ settled trigger := by
  cases trigger <;> cases x <;> decide

theorem get_setAll_other {I : Nat} {n : Node Glob} (h : ∀ x, node c (.tpslowfilling x) I ≠ n) :
    ∀ (xs : List Letter) (d : Db), (setAll c I xs d).get n = d.get n
  | [], _ => rfl
  | x :: xs, d => by
      have hrest := get_setAll_other h xs (d.set (node c (.tpslowfilling x) I) (.num (I * I)))
      exact hrest.trans (Table.get_set_of_ne _ _ (h x).symm)

theorem get_setAll {I : Nat} (x : Letter) : ∀ (xs : List Letter) (d : Db),
    x ∈ xs ∨ d.get (node c (.tpslowfilling x) I) = some (.num (I * I)) →
      (setAll c I xs d).get (node c (.tpslowfilling x) I) = some (.num (I * I))
  | [], d, h => h.resolve_left (by simp)
  | y :: xs, d, h => by
      refine get_setAll x xs _ ?_
      by_cases hxy : x = y
      · subst hxy
        exact Or.inr (Table.get_set_self _ _ _)
      · rcases h with h | h
        · exact Or.inl ((List.mem_cons.1 h).resolve_left hxy)
        · refine Or.inr ((Table.get_set_of_ne _ _ fun he => hxy ?_).trans h)
          exact Glob.tpslowfilling.inj (node_inj.1 he).1

/-! ## 3. The updates -/

inductive Update where
  | set (x : Letter)
  | tcommit
  deriving DecidableEq, Repr

/-- The updates of an index, in their order. -/
def iteration (istp : Bool) : List Update :=
  templ1.map .set ++ if istp then [Update.tcommit] else []

def apply (c : Config) (trigger : Bool) (I : Nat) : Update → Db → Db
  | .set x, d => d.set (node c (.slowfilling x) I) (.num I)
  | .tcommit, d => tcommit c trigger I d

/-- The nodes that an update of the index sets, with their values. -/
def written (c : Config) (I : Nat) : Update → List (Node Glob × Nat)
  | .set x => [(node c (.slowfilling x) I, I)]
  | .tcommit => templ1.map fun x => (node c (.tpslowfilling x) I, I * I)

theorem mem_written_set {x : Letter} {I : Nat} {e : Node Glob × Nat} :
    e ∈ written c I (.set x) ↔ e = (node c (.slowfilling x) I, I) := List.mem_singleton

theorem mem_written_tcommit {I : Nat} {e : Node Glob × Nat} :
    e ∈ written c I .tcommit ↔ ∃ x, e = (node c (.tpslowfilling x) I, I * I) := by
  constructor
  · intro h
    obtain ⟨x, _, he⟩ := List.mem_map.1 h
    exact ⟨x, he.symm⟩
  · rintro ⟨x, rfl⟩
    exact List.mem_map.2 ⟨x, mem_templ1 x, rfl⟩

/-- **An update sets its nodes.** -/
theorem apply_written {trigger : Bool} {I : Nat} {u : Update} {d : Db} {e : Node Glob × Nat}
    (he : e ∈ written c I u) : (apply c trigger I u d).get e.1 = some (.num e.2) := by
  cases u with
  | set x =>
      rw [mem_written_set] at he
      subst he
      exact Table.get_set_self _ _ _
  | tcommit =>
      obtain ⟨x, rfl⟩ := mem_written_tcommit.1 he
      show (tcommit c trigger I d).get _ = _
      rw [tcommit_eq]
      exact get_setAll x _ d (Or.inl (mem_settled trigger x))

/-- **All other nodes stay as they are.** -/
theorem apply_other {trigger : Bool} {I : Nat} {u : Update} {d : Db} {n : Node Glob}
    (hn : ∀ e ∈ written c I u, e.1 ≠ n) : (apply c trigger I u d).get n = d.get n := by
  cases u with
  | set x => exact Table.get_set_of_ne _ _ fun he => hn _ (mem_written_set.2 rfl) he.symm
  | tcommit =>
      show (tcommit c trigger I d).get n = _
      rw [tcommit_eq]
      exact get_setAll_other (fun x => hn _ (mem_written_tcommit.2 ⟨x, rfl⟩)) _ d

/-- A node is set by one update of one index, to one value. -/
theorem written_inj {I I' : Nat} {u u' : Update} {n : Node Glob} {v v' : Nat}
    (h : (n, v) ∈ written c I u) (h' : (n, v') ∈ written c I' u') : I = I' ∧ u = u' ∧ v = v' := by
  cases u with
  | set x =>
      obtain ⟨rfl, rfl⟩ := Prod.mk.inj (mem_written_set.1 h)
      cases u' with
      | set x' =>
          obtain ⟨he, rfl⟩ := Prod.mk.inj (mem_written_set.1 h')
          obtain ⟨hg, rfl⟩ := node_inj.1 he
          exact ⟨rfl, congrArg Update.set (Glob.slowfilling.inj hg), rfl⟩
      | tcommit =>
          obtain ⟨x', he⟩ := mem_written_tcommit.1 h'
          cases (node_inj.1 (Prod.mk.inj he).1).1
  | tcommit =>
      obtain ⟨x, he⟩ := mem_written_tcommit.1 h
      obtain ⟨rfl, rfl⟩ := Prod.mk.inj he
      cases u' with
      | set x' => cases (node_inj.1 (Prod.mk.inj (mem_written_set.1 h')).1).1
      | tcommit =>
          obtain ⟨x', he'⟩ := mem_written_tcommit.1 h'
          obtain ⟨hn, rfl⟩ := Prod.mk.inj he'
          obtain ⟨_, rfl⟩ := node_inj.1 hn
          exact ⟨rfl, rfl, rfl⟩

/-! ## 4. The jobs -/

/-- Where a job is. -/
inductive Place where
  /-- before its loop -/
  | starting
  /-- at an index, with these updates left -/
  | loop (trigger : Bool) (I : Nat) (left : List Update)
  | stopped
  deriving DecidableEq, Repr

/-- The globals and the jobs: `^endloop(fillid)`, `^%slowfill("trigger")` and
    `^%slowfill("gtcm",fillid)` beside the nodes that are filled. -/
structure State (J : Type) where
  db : Db
  endloop : Bool
  trigger : Bool
  gtcm : Option Bool
  job : J → Place

inductive Event (J : Type) where
  /-- the job comes to its loop -/
  | slowjob (j : J)
  /-- it makes its next update -/
  | update (j : J)
  /-- it has made all updates of an index, and tests `^endloop` -/
  | test (j : J)
  /-- `^endloop` is set -/
  | endloop
  /-- a crash, recovery, and a restart with the triggers or without -/
  | crash (trigger : Bool)
  deriving DecidableEq, Repr

section Steps

variable {J : Type} [DecidableEq J] (c : Config)

/-- The first start. -/
def start (d : Db) (trigger : Bool) : State J := ⟨d, false, trigger, none, fun _ => .starting⟩

/-- The job at an index, before its updates. -/
def atIndex (trigger : Bool) (I : Nat) : Place :=
  if I ≤ infloop then .loop trigger I (iteration c.istp) else .stopped

def step (s : State J) : Event J → Option (State J)
  | .slowjob j =>
      match s.job j with
      | .starting =>
          let startindex := 1 + lastind c s.db (.slowfilling .l)
          some { s with
            gtcm := some c.gtcm
            job := update s.job j (atIndex c s.trigger startindex) }
      | _ => none
  | .update j =>
      match s.job j with
      | .loop trigger I (u :: left) =>
          some { s with
            db := apply c trigger I u s.db
            job := update s.job j (.loop trigger I left) }
      | _ => none
  | .test j =>
      match s.job j with
      | .loop trigger I [] =>
          some { s with
            job := update s.job j (if s.endloop then .stopped else atIndex c trigger (I + 1)) }
      | _ => none
  | .endloop => some { s with endloop := true }
  | .crash trigger =>
      some { s with endloop := false, trigger := trigger, job := fun _ => .starting }

def run : List (Event J) → State J → Option (State J)
  | [], s => some s
  | e :: events, s => (step c s e).bind (run events)

end Steps

end YottaTest.Slowfill
