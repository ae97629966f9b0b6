/-
  File:      YottaTest/Umjrnl/Skips.lean
  Subject:   Which update records umjrnl leaves out.

  An update is to be left out if a trigger did it, if it is to `^#t`, or if `$zqgblmod` of its own
  node says so. The handlers of KILL and ZKILL do not `new skipgbl`, and the one of ZKILL does not
  look at the node flags.

  * `toApply` -- the rule, from the record and the `$zqgblmod` of its node only;
  * `leaked` -- an earlier KILL or ZKILL has left `skipgbl` behind (`run_skipgbl_iff`);
  * `applied_iff_clean` -- a record is decided by the rule exactly if none of four things happens;
  * `umjrnl_records_iff` -- **the same for all records of an extract.**
-/
import YottaTest.Umjrnl.Fences

namespace YottaTest.Umjrnl

open YottaTest.Lib YottaTest.M

/-! ## 1. The rule -/

/-- The node of an update record. -/
def nodeOf (rec : MStr) : MStr :=
  if recType rec = 5 then splitVar (nodeData rec) else nodeData rec

/-- The name of a node's global. -/
def globalOf (node : MStr) : MStr := node.takeWhile fun c => c ≠ .chr 40

section Rule

variable (env : Env)

/-- The record is to be applied: no trigger did it, it is not to `^#t`, and its node's `$zqgblmod` does
    not say it is modified. -/
def toApply (st : St) (rec : MStr) : Bool :=
  !byTrigger env rec && globalOf (nodeOf rec) ≠ lit "^#t" && !modified env st (nodeOf rec)

/-- An earlier record has left `skipgbl` behind. -/
def leaked (pre : List MStr) : Prop :=
  ∃ pre' rec, pre' ++ [rec] <+: pre ∧ leaves env (run env pre') rec = true

theorem leaked_append (pre : List MStr) (rec : MStr) :
    leaked env (pre ++ [rec]) ↔ leaked env pre ∨ leaves env (run env pre) rec = true := by
  constructor
  · intro ⟨pre', r, hpre, hl⟩
    rcases List.prefix_concat_iff.1 hpre with heq | hpre
    · obtain ⟨rfl, hr⟩ := List.append_inj' heq rfl
      obtain rfl : r = rec := by simpa using hr
      exact Or.inr hl
    · exact Or.inl ⟨pre', r, hpre, hl⟩
  · intro h
    rcases h with ⟨pre', r, hpre, hl⟩ | hl
    · exact ⟨pre', r, hpre.trans (List.prefix_append _ _), hl⟩
    · exact ⟨pre, rec, List.prefix_refl _, hl⟩

/-- **`skipgbl` is defined exactly if some earlier record left it behind.** -/
theorem run_skipgbl_iff : ∀ {pre : List MStr}, (run env pre).halted = false →
    ((run env pre).skipgbl = true ↔ leaked env pre) := by
  intro pre
  induction pre using List.reverseRecOn with
  | nil =>
      intro _
      refine ⟨fun h => Bool.noConfusion h, fun ⟨pre', rec, hpre, _⟩ => ?_⟩
      simp at hpre
  | append_singleton pre rec ih =>
      intro h
      have hst := not_halted_prefix env (List.prefix_append pre [rec]) h
      rw [run_append, List.foldl_cons, List.foldl_nil, step_skipgbl env hst, Bool.or_eq_true, ih hst,
        leaked_append]

/-! ## 2. Where the handlers differ from it -/

/-- A ZKILL by a trigger that nothing else leaves out. -/
def zkillByTrigger (pre : List MStr) (rec : MStr) : Prop :=
  recType rec = 10 ∧ byTrigger env rec = true ∧ modified env (run env pre) (nodeData rec) = false ∧
    (piece backslash rec 11).take 3 ≠ lit "^#t" ∧ ¬ leaked env pre

/-- A KILL or ZKILL to be applied, after one that left `skipgbl` behind. -/
def killAfterSkip (pre : List MStr) (rec : MStr) : Prop :=
  (recType rec = 4 ∨ recType rec = 10) ∧ toApply env (run env pre) rec = true ∧ leaked env pre

/-- A SET of `^#t` without subscripts that nothing else leaves out. -/
def setOfRoot (pre : List MStr) (rec : MStr) : Prop :=
  recType rec = 5 ∧ byTrigger env rec = false ∧ modified env (run env pre) (nodeOf rec) = false ∧
    nodeOf rec = lit "^#t"

/-- A KILL or ZKILL to be applied, of a global whose name only begins with `^#t`. -/
def killOfLonger (pre : List MStr) (rec : MStr) : Prop :=
  (recType rec = 4 ∨ recType rec = 10) ∧ toApply env (run env pre) rec = true ∧
    (piece backslash rec 11).take 3 = lit "^#t"

/-- None of the four. -/
def Clean (pre : List MStr) (rec : MStr) : Prop :=
  ¬ zkillByTrigger env pre rec ∧ ¬ killAfterSkip env pre rec ∧ ¬ setOfRoot env pre rec ∧
    ¬ killOfLonger env pre rec

end Rule

/-! ### Text -/

theorem piece_eq_beforeFirst {α : Type} [DecidableEq α] (c : α) : ∀ (k : Nat) (s : List α),
    piece c s (k + 1) = beforeFirst c ((afterFirst c)^[k] s)
  | 0, _ => rfl
  | k + 1, s => by
      rw [Function.iterate_succ_apply, ← piece_eq_beforeFirst c k]
      rfl

theorem piecesFrom_eq (first : Nat) (rec : MStr) :
    piecesFrom first rec = (afterFirst backslash)^[first - 1] rec := by
  unfold piecesFrom
  generalize first - 1 = k
  induction k with
  | zero => rfl
  | succ k ih =>
      rw [List.range_succ, List.foldl_append, ih, Function.iterate_succ_apply']
      rfl

/-- The fields from the 11th on begin as the 11th does. -/
theorem nodeData_take {rec w : MStr} (hw : backslash ∉ w) :
    (piece backslash rec 11).take w.length = w ↔ w <+: nodeData rec := by
  rw [piece_eq_beforeFirst, nodeData, piecesFrom_eq]
  generalize (afterFirst backslash)^[10] rec = s
  unfold beforeFirst
  constructor
  · intro h
    rw [← h]
    exact (List.take_prefix _ _).trans (List.takeWhile_prefix _)
  · intro h
    obtain ⟨rest, rfl⟩ := h
    have hall : ∀ c ∈ w, decide (c ≠ backslash) = true := by
      intro c hc
      have hne : c ≠ backslash := fun he => hw (he ▸ hc)
      simpa using hne
    rw [List.takeWhile_append_of_pos hall]
    exact List.take_left

theorem splitVar_start (data : MStr) : splitVar data <+: data := by
  have hpre : ∀ (s : MStr) (inStr : Bool) (p : MStr), beforeEq inStr s = some p → p <+: s := by
    intro s
    induction s with
    | nil => exact fun _ _ h => by cases h
    | cons c s ih =>
        intro inStr p h
        rw [beforeEq] at h
        split at h
        · exact Option.some.inj h ▸ List.nil_prefix
        · obtain ⟨q, hq, rfl⟩ := Option.map_eq_some_iff.1 h
          exact (List.prefix_cons_inj c).2 (ih _ q hq)
  unfold splitVar
  cases h : beforeEq false data with
  | none => exact List.prefix_refl _
  | some p => exact hpre data false p h

/-- A text before the "=" that holds no "=" and no quote stays. -/
theorem splitVar_append {w : MStr} (hw : ∀ c ∈ w, c ≠ .chr 61 ∧ c ≠ .chr 34) (s : MStr) :
    splitVar (w ++ s) = w ++ splitVar s := by
  have hmap : beforeEq false (w ++ s) = (beforeEq false s).map (w ++ ·) := by
    induction w with
    | nil => cases h : beforeEq false s <;> simp [h]
    | cons c w ih =>
        obtain ⟨h61, h34⟩ := hw c List.mem_cons_self
        have ih := ih fun c hc => hw c (List.mem_cons_of_mem _ hc)
        rw [List.cons_append, beforeEq, if_neg fun h => h61 h.1, if_neg h34, ih, Option.map_map]
        rfl
  unfold splitVar
  rw [hmap]
  cases beforeEq false s with
  | none => rfl
  | some p => rfl

/-- A node of the global `^#t`, without subscripts or with them. -/
theorem globalOf_eq_iff (node : MStr) :
    globalOf node = lit "^#t" ↔ node = lit "^#t" ∨ lit "^#t(" <+: node := by
  have hlit : lit "^#t(" = lit "^#t" ++ [.chr 40] := by decide
  constructor
  · intro h
    have hsplit := List.takeWhile_append_dropWhile (p := fun c => decide (c ≠ MChar.chr 40)) (l := node)
    unfold globalOf at h
    rw [h] at hsplit
    cases hd : node.dropWhile fun c => decide (c ≠ MChar.chr 40) with
    | nil =>
        rw [hd, List.append_nil] at hsplit
        exact Or.inl hsplit.symm
    | cons c rest =>
        have hc : c = .chr 40 := by
          have hhead := List.head?_dropWhile_not (fun c => decide (c ≠ MChar.chr 40)) node
          rw [hd] at hhead
          simpa using hhead
        rw [hd, hc] at hsplit
        rw [← hsplit, hlit]
        exact Or.inr ⟨rest, by simp⟩
  · intro h
    rcases h with rfl | ⟨rest, rfl⟩
    · decide
    · rw [hlit]
      rfl

theorem set_trigGlobal {rec : MStr} (h5 : recType rec = 5) :
    ((piece backslash rec 11).take 4 = lit "^#t(" ↔
      globalOf (nodeOf rec) = lit "^#t" ∧ nodeOf rec ≠ lit "^#t") := by
  have htake := @nodeData_take rec (lit "^#t(") (by decide)
  have hlen : (lit "^#t(").length = 4 := by decide
  rw [hlen] at htake
  rw [htake, nodeOf, if_pos h5, globalOf_eq_iff]
  constructor
  · intro ⟨rest, hrest⟩
    have hsplit : splitVar (nodeData rec) = lit "^#t(" ++ splitVar rest := by
      rw [← hrest]
      exact splitVar_append (by decide) rest
    rw [hsplit]
    exact ⟨Or.inr (List.prefix_append _ _), fun he => by simpa [lit] using congrArg List.length he⟩
  · intro ⟨hor, hne⟩
    exact (hor.resolve_left hne).trans (splitVar_start _)

theorem kill_trigGlobal {rec : MStr} (h5 : recType rec ≠ 5)
    (hg : globalOf (nodeOf rec) = lit "^#t") : (piece backslash rec 11).take 3 = lit "^#t" := by
  have htake := @nodeData_take rec (lit "^#t") (by decide)
  have hlen : (lit "^#t").length = 3 := by decide
  rw [hlen] at htake
  rw [htake]
  rw [nodeOf, if_neg h5] at hg
  rw [← hg]
  exact List.takeWhile_prefix _

/-! ## 3. All records -/

section Extract

variable (env : Env)

/-- **A record is decided by the rule exactly if it is clean.** -/
theorem applied_iff_clean {pre : List MStr} {rec : MStr} (hst : (run env pre).halted = false)
    (hup : isUpdate rec = true) :
    applied env (run env pre) rec = toApply env (run env pre) rec ↔ Clean env pre rec := by
  have hs : isStart rec = false := by
    simp only [isUpdate, Bool.or_eq_true, decide_eq_true_eq] at hup
    simp only [isStart, Bool.or_eq_false_iff, decide_eq_false_iff_not]
    omega
  have hc : isCommit rec = false := by
    simp only [isUpdate, Bool.or_eq_true, decide_eq_true_eq] at hup
    simp only [isCommit, Bool.or_eq_false_iff, decide_eq_false_iff_not]
    omega
  simp only [isUpdate, Bool.or_eq_true, decide_eq_true_eq] at hup
  have hleak := run_skipgbl_iff env hst
  rw [applied_eq env hst hs hc]
  rcases hup with (h5 | h4) | h10
  · have hg := set_trigGlobal h5
    have hnode : nodeOf rec = splitVar (nodeData rec) := if_pos h5
    have hh : halts env (run env pre) rec = false := by simp [halts, h5]
    rw [hh, Bool.not_false, Bool.true_and]
    simp only [issues, Clean, zkillByTrigger, killAfterSkip, setOfRoot, killOfLonger, toApply, h5, ← hnode]
    generalize byTrigger env rec = byT
    generalize modified env (run env pre) (nodeOf rec) = mod
    by_cases hroot : nodeOf rec = lit "^#t"
    · have hglobal : globalOf (nodeOf rec) = lit "^#t" := (globalOf_eq_iff _).2 (Or.inl hroot)
      cases byT <;> cases mod <;> simp_all
    · cases byT <;> cases mod <;> simp_all
  · have hg := @kill_trigGlobal rec (by omega)
    have hnode : nodeOf rec = nodeData rec := if_neg (by omega)
    have hh : halts env (run env pre) rec = false := by simp [halts, h4]
    rw [hh, Bool.not_false, Bool.true_and]
    simp only [issues, Clean, zkillByTrigger, killAfterSkip, setOfRoot, killOfLonger, toApply, h4,
      ← hleak, ← hnode]
    generalize byTrigger env rec = byT
    generalize modified env (run env pre) (nodeOf rec) = mod
    generalize (run env pre).skipgbl = skip
    by_cases hglobal : globalOf (nodeOf rec) = lit "^#t"
    · cases byT <;> cases mod <;> cases skip <;> simp_all
    · cases byT <;> cases mod <;> cases skip <;> simp_all
  · have hg := @kill_trigGlobal rec (by omega)
    have hnode : nodeOf rec = nodeData rec := if_neg (by omega)
    have hh : halts env (run env pre) rec = false := by simp [halts, h10]
    rw [hh, Bool.not_false, Bool.true_and]
    simp only [issues, Clean, zkillByTrigger, killAfterSkip, setOfRoot, killOfLonger, toApply, h10,
      ← hleak, ← hnode]
    generalize byTrigger env rec = byT
    generalize modified env (run env pre) (nodeOf rec) = mod
    generalize (run env pre).skipgbl = skip
    by_cases hglobal : globalOf (nodeOf rec) = lit "^#t"
    · cases byT <;> cases mod <;> cases skip <;> simp_all
    · cases byT <;> cases mod <;> cases skip <;> simp_all

/-- **umjrnl decides each record on its own exactly if every update record is clean**: no trigger did
    a ZKILL that nothing else leaves out, no KILL or ZKILL to be applied comes after one that
    `$zqgblmod` left out, and there is no update of a bare `^#t` or of a longer name. -/
theorem umjrnl_records_iff (recs : List MStr) :
    (∀ pre rec, pre ++ [rec] <+: recs → (run env pre).halted = false → isUpdate rec = true →
      applied env (run env pre) rec = toApply env (run env pre) rec) ↔
    (∀ pre rec, pre ++ [rec] <+: recs → (run env pre).halted = false → isUpdate rec = true →
      Clean env pre rec) := by
  constructor
  · intro h pre rec hpre hst hup
    exact (applied_iff_clean env hst hup).1 (h pre rec hpre hst hup)
  · intro h pre rec hpre hst hup
    exact (applied_iff_clean env hst hup).2 (h pre rec hpre hst hup)

end Extract

/-! ### One extract -/

/-- Lost transactions applied with `checkzqgblmod`, where `^a` was modified and `^b` was not. -/
def lossEnv : Env where
  trigtst := false
  checkzqgblmod := true
  zqgblmod := fun _ node => node = lit "^a"
  ztriggerItem := fun _ _ => true
  literal := id

/-- After the KILL of `^a`, which is left out, so is the KILL of `^b`. -/
theorem kill_after_skipped_kill : ¬ ∀ (env : Env) (recs : List MStr), ∀ pre rec,
    pre ++ [rec] <+: recs → (run env pre).halted = false → isUpdate rec = true →
      applied env (run env pre) rec = toApply env (run env pre) rec := by
  intro h
  have hkill := h lossEnv [updateLine (lit "04") (lit "^a"), updateLine (lit "04") (lit "^b")]
    [updateLine (lit "04") (lit "^a")] (updateLine (lit "04") (lit "^b")) (List.prefix_refl _)
    (by decide) (by decide)
  revert hkill
  decide

end YottaTest.Umjrnl
