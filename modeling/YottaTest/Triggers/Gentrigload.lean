/-
  File:      YottaTest/Triggers/Gentrigload.lean
  Subject:   `gentrigload` of randomtriggers.m on a whole trigger file.

  * `State`, `loadLine`, `gentrigload` -- the tables of all globals and the counters, line by line;
  * `selected` -- the triggers that the select file lists;
  * `Inv` -- the tables are well-formed and the counters add up: `gentrigload_inv`.
-/
import YottaTest.Triggers.Lines
import YottaTest.Triggers.Spec

namespace YottaTest.Triggers

open Function YottaTest.M YottaTest.Lib

/-! ## 1. The program -/

structure State where
  hasht : Table MStr Gbl
  /-- `trigs("added")`, `trigs("deleted")` and `trigs("modified")` -/
  added : Nat
  deleted : Nat
  modified : Nat
  /-- `trigfile("upddb")` and `trigfile("noupddb")` -/
  upddb : Nat
  noupddb : Nat
  cycle : Table MStr Nat
  /-- What has been written: the line's number, its global and the message. -/
  out : List (Nat × MStr × Message)

namespace State

def start : State := ⟨.empty, 0, 0, 0, 0, 0, .empty, []⟩

/-- `hasht(gvn)` -/
def gbl (st : State) (gvn : MStr) : Gbl := (st.hasht.get gvn).getD .empty

/-- What a turn of the loop leaves: line number `i`, for the global `gvn`. -/
def record (st : State) (i : Nat) (gvn : MStr) (o : Out) : State where
  hasht := st.hasht.set gvn o.g
  added := st.added + o.added
  deleted := st.deleted + o.deleted
  modified := st.modified + o.modified
  upddb := if o.upd then st.upddb + 1 else st.upddb
  noupddb := if o.upd then st.noupddb else st.noupddb + 1
  cycle := if o.upd then st.cycle.set gvn ((st.cycle.get gvn).getD 0 + 1) else st.cycle
  out := st.out ++ o.written.map fun m => (i, gvn, m)

/-- One turn of the loop. -/
def loadLine (st : State) (i : Nat) (line : MStr) : Option State :=
  let f := parseLine line
  (load (st.gbl f.gvn) f).map (st.record i f.gvn)

end State

/-- The loop over the lines of the file; none if a `halt` is reached. -/
def gentrigload (lines : List MStr) : Option State :=
  (lines.zipIdx 1).foldlM (fun st line => st.loadLine line.2 line.1) .start

/-- The triggers the loops of the select file come to. -/
def selected (st : State) : List (MStr × (MStr × Nat) × Trigger) :=
  st.hasht.entries.flatMap fun e => e.2.trigs.entries.map fun t => (e.1, t)

/-! ## 2. What holds after every line -/

theorem length_selected (st : State) :
    (selected st).length = st.hasht.sum fun g => g.trigs.size := by
  unfold selected Table.sum
  rw [List.length_flatMap]
  simp only [List.length_map]
  rfl

/-- **The tables are well-formed, and the counters add up.** -/
structure Inv (st : State) (lines : Nat) : Prop where
  wf : ∀ gvn, (st.gbl gvn).WF
  counted : st.added = st.deleted + (selected st).length
  entries : st.upddb + st.noupddb = lines
  /-- Nothing has been written for lines to come. -/
  written : ∀ e ∈ st.out, e.1 ≤ lines

theorem inv_start : Inv .start 0 where
  wf _ := Gbl.wf_empty
  counted := rfl
  entries := rfl
  written _ h := by cases h

theorem gbl_record (st : State) (i : Nat) (gvn : MStr) (o : Out) (gvn' : MStr) :
    (st.record i gvn o).gbl gvn' = if gvn' = gvn then o.g else st.gbl gvn' := by
  unfold State.gbl State.record
  rw [Table.get_set]
  split
  · rfl
  · rfl

/-- **A line of the grammar.** -/
theorem loadLine_spec {st : State} {n : Nat} (h : Inv st n) (l : Line) :
    ∃ o, load (st.gbl l.fields.gvn) l.fields = some o ∧
      st.loadLine (n + 1) l.text = some (st.record (n + 1) l.fields.gvn o) ∧
      Spec (st.gbl l.fields.gvn) o ∧ Inv (st.record (n + 1) l.fields.gvn o) (n + 1) ∧
      (Creates (st.gbl l.fields.gvn) l.fields →
        o.g.excess = (st.gbl l.fields.gvn).seqnum - (st.gbl l.fields.gvn).trigs.size) ∧
      (¬ Creates (st.gbl l.fields.gvn) l.fields → o.g.excess = (st.gbl l.fields.gvn).excess) := by
  obtain ⟨o, ho, hspec, hcreates, hother⟩ := load_spec (h.wf l.fields.gvn) l.cmds_nonempty
  refine ⟨o, ho, ?_, hspec, ?_, fun hc => ?_, hother⟩
  · unfold State.loadLine
    dsimp only
    rw [parseLine_text, ho]
    rfl
  · constructor
    case wf =>
      intro gvn
      rw [gbl_record]
      split
      · exact hspec.wf
      · exact h.wf gvn
    case counted =>
      have hsum := Table.sum_set (fun g : Gbl => g.trigs.size) (d := .empty) rfl st.hasht
        l.fields.gvn o.g
      have hold := h.counted
      have hnew := hspec.counted
      rw [length_selected] at hold ⊢
      unfold State.gbl at hnew
      unfold State.record
      dsimp only
      omega
    case entries =>
      have := h.entries
      unfold State.record
      dsimp only
      split <;> omega
    case written =>
      intro e he
      rcases List.mem_append.1 he with he | he
      · exact (h.written e he).trans (Nat.le_succ n)
      · obtain ⟨m, -, rfl⟩ := List.mem_map.1 he
        exact le_rfl
  · obtain ⟨htn, hsize⟩ := hcreates hc
    rw [Gbl.excess, htn, hsize]
    omega

theorem gentrigload_concat (lines : List MStr) (line : MStr) :
    gentrigload (lines ++ [line]) =
      (gentrigload lines).bind fun st => st.loadLine (lines.length + 1) line := by
  unfold gentrigload
  rw [List.zipIdx_append, List.foldlM_append]
  simp only [List.zipIdx_cons, List.zipIdx_nil, List.foldlM_cons, List.foldlM_nil]
  refine congrArg _ (funext fun st => ?_)
  rw [Nat.add_comm 1]
  exact bind_pure _

/-- A file with one more line. -/
theorem gentrigload_snoc {lines : List Line} {st : State}
    (h : gentrigload (lines.map Line.text) = some st) (l : Line) :
    gentrigload ((lines ++ [l]).map Line.text) = st.loadLine (lines.length + 1) l.text := by
  rw [List.map_append, List.map_singleton, gentrigload_concat, h, List.length_map]
  rfl

/-- **A file of the grammar.** -/
theorem gentrigload_inv (lines : List Line) :
    ∃ st, gentrigload (lines.map Line.text) = some st ∧ Inv st lines.length := by
  induction lines using List.reverseRecOn with
  | nil => exact ⟨.start, rfl, inv_start⟩
  | append_singleton lines l ih =>
      obtain ⟨st, hst, hinv⟩ := ih
      obtain ⟨o, -, hline, -, hinv', -⟩ := loadLine_spec hinv l
      refine ⟨st.record (lines.length + 1) l.fields.gvn o, (gentrigload_snoc hst l).trans hline, ?_⟩
      rw [List.length_append, List.length_singleton]
      exact hinv'

theorem inv_of_gentrigload {lines : List Line} {st : State}
    (h : gentrigload (lines.map Line.text) = some st) : Inv st lines.length := by
  obtain ⟨st', hst', hinv⟩ := gentrigload_inv lines
  rw [h, Option.some.injEq] at hst'
  exact hst' ▸ hinv

end YottaTest.Triggers
