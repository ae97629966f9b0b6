/-
  File:      YottaTest/Umjrnl/Fences.lean
  Subject:   umjrnl and the fences of transactions.

  * `applied` -- umjrnl executes or keeps the record's command; `command`, `event`, `events`: the
    extract as a fenced stream of what is applied (Lib/Fence.lean);
  * `Sim`, `step_sim`, `run_sim` -- the routine's `tran` and `tpFence` are that library's buffer;
  * `Playable` -- the extracts that the routine does not refuse; `Playable.alive`: it reads them to their
    end;
  * `umjrnl_fences` -- **what is executed are the applied records outside all fences or inside
    complete ones**, after every part of the extract;
  * `unfenced_refused` -- another extract, of which nothing is executed.
-/
import Mathlib.Data.List.Infix
import YottaTest.Lib.Fence
import YottaTest.Umjrnl.Replay

namespace YottaTest.Umjrnl

open YottaTest.Lib YottaTest.M

/-! ## 1. The extract as a fenced stream -/

/-- A start record: ZTSTART or TSTART. -/
def isStart (rec : MStr) : Bool := recType rec = 6 || recType rec = 8

/-- A commit record: ZTCOMMIT or TCOMMIT. -/
def isCommit (rec : MStr) : Bool := recType rec = 7 || recType rec = 9

/-- A record of an update: SET, KILL or ZKILL. -/
def isUpdate (rec : MStr) : Bool := recType rec = 5 || recType rec = 4 || recType rec = 10

/-- The command of a data record. -/
def command (rec : MStr) : Cmd :=
  match recType rec with
  | 4 => .kill (nodeData rec)
  | 10 => .zkill (nodeData rec)
  | 11 => .ztwormhole (trigData rec)
  | 12 => .ztrigger (nodeData rec)
  | 13 => .item (trigData rec)
  | _ => .set (nodeData rec)

/-- The commands executed or kept so far. -/
def St.issued (st : St) : Nat := st.done.length + st.tran.length

section Stream

variable (env : Env)

/-- The record is applied: its command is executed, or kept for the commit. -/
def applied (st : St) (rec : MStr) : Bool := st.issued < (step env st rec).issued

def event (st : St) (rec : MStr) : Option (Event Cmd) :=
  if isStart rec then some .opens
  else if isCommit rec then some .closes
  else if applied env st rec then some (.item (command rec)) else none

/-- The extract from a state on, as a fenced stream of the records that are applied. -/
def events (st : St) : List MStr → List (Event Cmd)
  | [] => []
  | rec :: recs => (event env st rec).toList ++ events (step env st rec) recs

/-! ## 2. What one record does -/

/-- When a data record's command is issued. -/
def issues (st : St) (rec : MStr) : Bool :=
  match recType rec with
  | 5 => !byTrigger env rec && !modified env st (splitVar (nodeData rec))
      && (piece backslash rec 11).take 4 ≠ lit "^#t("
  | 4 => !byTrigger env rec && !(st.skipgbl || modified env st (nodeData rec))
      && (piece backslash rec 11).take 3 ≠ lit "^#t"
  | 10 => !(st.skipgbl || modified env st (nodeData rec))
      && (piece backslash rec 11).take 3 ≠ lit "^#t"
  | 11 | 12 | 13 => !env.checkzqgblmod && st.tpFence ≠ 0
  | _ => false

/-- A KILL or ZKILL whose `$zqgblmod` check leaves `skipgbl` behind. -/
def leaves (st : St) (rec : MStr) : Bool :=
  match recType rec with
  | 4 => !byTrigger env rec && modified env st (nodeData rec)
  | 10 => modified env st (nodeData rec)
  | _ => false

/-- A trigger record outside a transaction. -/
def halts (st : St) (rec : MStr) : Bool :=
  match recType rec with
  | 11 | 12 | 13 => !env.checkzqgblmod && st.tpFence = 0
  | _ => false

/-- The state with what a record leaves in `skipgbl`. -/
def skipped (st : St) (rec : MStr) : St := { st with skipgbl := st.skipgbl || leaves env st rec }

theorem trigRec_eq (st : St) (cmd : Cmd) : trigRec env st cmd =
    if !env.checkzqgblmod && st.tpFence = 0 then umhalt st
    else if !env.checkzqgblmod && st.tpFence ≠ 0 then issue env st cmd else st := by
  unfold trigRec issue
  cases env.checkzqgblmod with
  | true => rfl
  | false =>
      by_cases h0 : st.tpFence = 0
      · simp [h0]
      · simp [h0]

/-- **What a data record can do**: stop the routine, or issue its command, or nothing; a KILL or
    ZKILL may leave `skipgbl` behind. -/
theorem step_data {st : St} {rec : MStr} (hst : st.halted = false) (hs : isStart rec = false)
    (hc : isCommit rec = false) : step env st rec =
      if halts env st rec then umhalt st
      else if issues env st rec then issue env (skipped env st rec) (command rec)
      else skipped env st rec := by
  simp only [isStart, isCommit, Bool.or_eq_false_iff, decide_eq_false_iff_not] at hs hc
  have hgo : ¬ st.halted = true := by
    rw [hst]
    decide
  unfold step
  rw [if_neg hgo]
  split
  · rename_i h5
    have hsk : skipped env st rec = st := by simp [skipped, leaves, h5]
    simp only [hsk, halts, issues, command, h5, Bool.false_eq_true, if_false]
    unfold setRec
    cases byTrigger env rec with
    | true => rfl
    | false =>
        cases modified env st (splitVar (nodeData rec)) with
        | true => rfl
        | false => by_cases ht : (piece backslash rec 11).take 4 = lit "^#t(" <;> simp [ht]
  · rename_i h4
    simp only [halts, issues, command, skipped, leaves, h4, Bool.false_eq_true, if_false]
    unfold killRec
    cases byTrigger env rec with
    | true => simp
    | false =>
        simp only [Bool.not_false, Bool.true_and, Bool.false_eq_true, if_false]
        generalize (st.skipgbl || modified env st (nodeData rec)) = k
        cases k with
        | true => rfl
        | false => by_cases ht : (piece backslash rec 11).take 3 = lit "^#t" <;> simp [ht]
  · rename_i h10
    simp only [halts, issues, command, skipped, leaves, h10, Bool.false_eq_true, if_false]
    unfold zkillRec
    generalize (st.skipgbl || modified env st (nodeData rec)) = k
    cases k with
    | true => rfl
    | false => by_cases ht : (piece backslash rec 11).take 3 = lit "^#t" <;> simp [ht]
  · rename_i h11
    have hsk : skipped env st rec = st := by simp [skipped, leaves, h11]
    rw [hsk, ztwormhole, trigRec_eq]
    simp only [halts, issues, command, h11]
  · rename_i h12
    have hsk : skipped env st rec = st := by simp [skipped, leaves, h12]
    rw [hsk, ztrig, trigRec_eq]
    simp only [halts, issues, command, h12]
  · rename_i h13
    have hsk : skipped env st rec = st := by simp [skipped, leaves, h13]
    rw [hsk, lgtrig, trigRec_eq]
    simp only [halts, issues, command, h13]
  · exact absurd ‹_› hs.1
  · exact absurd ‹_› hc.1
  · exact absurd ‹_› hs.2
  · exact absurd ‹_› hc.2
  · have hl : leaves env st rec = false := by simp_all [leaves]
    have hsk : skipped env st rec = st := by rw [skipped, hl, Bool.or_false]
    have hh : halts env st rec = false := by simp_all [halts]
    have hi : issues env st rec = false := by simp_all [issues]
    rw [hsk, hh, hi]
    rfl

/-- A command is issued in a transaction, or it is an update. -/
theorem fence_or_update {st : St} {rec : MStr} (h : issues env st rec = true) :
    st.tpFence ≠ 0 ∨ isUpdate rec = true := by
  by_cases hup : isUpdate rec = true
  · exact Or.inr hup
  · simp only [isUpdate, Bool.or_eq_true, decide_eq_true_eq, not_or] at hup
    unfold issues at h
    split at h
    · exact absurd ‹_› hup.1.1
    · exact absurd ‹_› hup.1.2
    · exact absurd ‹_› hup.2
    all_goals first
      | exact Or.inl (by simpa using (Bool.and_eq_true_iff.1 h).2)
      | cases h

/-- A command in a transaction, or an update, is issued without a halt. -/
theorem issue_eq (st : St) (rec : MStr) (h : st.tpFence ≠ 0 ∨ isUpdate rec = true) :
    issue env st (command rec) =
      if st.tpFence ≠ 0 then { st with tran := st.tran ++ [command rec] }
      else { st with done := st.done ++ [⟨command rec, st.ztwormhole⟩] } := by
  unfold issue
  by_cases h0 : st.tpFence ≠ 0
  · rw [if_pos h0, if_pos h0]
  · rw [if_neg h0, if_neg h0]
    have hup : isUpdate rec = true := h.resolve_left h0
    simp only [isUpdate, Bool.or_eq_true, decide_eq_true_eq] at hup
    rcases hup with (h5 | h4) | h10
    · simp only [command, h5, xecute]
    · simp only [command, h4, xecute]
    · simp only [command, h10, xecute]

theorem issue_issued (st : St) (rec : MStr) (h : st.tpFence ≠ 0 ∨ isUpdate rec = true) :
    (issue env st (command rec)).issued = st.issued + 1 := by
  rw [issue_eq env st rec h]
  unfold St.issued
  split
  · simp only [List.length_append, List.length_singleton]
    omega
  · simp only [List.length_append, List.length_singleton]
    omega

/-- **Which records are applied**: those whose command is issued. -/
theorem applied_eq {st : St} {rec : MStr} (hst : st.halted = false) (hs : isStart rec = false)
    (hc : isCommit rec = false) :
    applied env st rec = (!halts env st rec && issues env st rec) := by
  rw [applied, step_data env hst hs hc]
  cases hh : halts env st rec with
  | true => simp [umhalt, St.issued]
  | false =>
      cases hi : issues env st rec with
      | false => simp [skipped, St.issued]
      | true =>
          have hok : (skipped env st rec).tpFence ≠ 0 ∨ isUpdate rec = true :=
            @fence_or_update env st rec hi
          have hone := issue_issued env (skipped env st rec) rec hok
          have hsk : (skipped env st rec).issued = st.issued := rfl
          simp only [Bool.false_eq_true, if_false, if_true, hone, hsk]
          simp

/-! ### A commit -/

theorem xecute_cases (st : St) (cmd : Cmd) : xecute env st cmd = umhalt st ∨
    ((xecute env st cmd).done = st.done ++ [⟨cmd, st.ztwormhole⟩] ∧
      (xecute env st cmd).halted = st.halted ∧ (xecute env st cmd).tpFence = st.tpFence) := by
  cases cmd with
  | item data =>
      simp only [xecute]
      split
      · exact Or.inr ⟨rfl, rfl, rfl⟩
      · exact Or.inl rfl
  | _ => exact Or.inr ⟨rfl, rfl, rfl⟩

theorem flush_halted (st : St) (tran : List Cmd) : flush env (umhalt st) tran = umhalt st := by
  induction tran with
  | nil => rfl
  | cons cmd tran ih => exact ih

/-- A flush executes what was kept, in order, up to a halt. -/
theorem flush_cases : ∀ (tran : List Cmd) (st : St), st.halted = false →
    (flush env st tran).tpFence = st.tpFence ∧
    (flush env st tran).done.map Played.cmd <+: st.done.map Played.cmd ++ tran ∧
    ((flush env st tran).halted = false →
      (flush env st tran).done.map Played.cmd = st.done.map Played.cmd ++ tran)
  | [], st, _ => by
      rw [List.append_nil]
      exact ⟨rfl, List.prefix_refl _, fun _ => rfl⟩
  | cmd :: tran, st, hst => by
      have hfirst : flush env st (cmd :: tran) = flush env (xecute env st cmd) tran := by
        simp [flush, hst]
      rw [hfirst]
      rcases xecute_cases env st cmd with h | ⟨hdone, hhalt, hfence⟩
      · rw [h, flush_halted env]
        exact ⟨rfl, List.prefix_append _ _, fun h' => absurd h' (by simp [umhalt])⟩
      · obtain ⟨hf, hpre, heq⟩ := flush_cases tran (xecute env st cmd) (hhalt.trans hst)
        have hmap : (xecute env st cmd).done.map Played.cmd = st.done.map Played.cmd ++ [cmd] := by
          rw [hdone, List.map_append]
          rfl
        rw [hmap, List.append_assoc, List.singleton_append] at hpre heq
        exact ⟨hf.trans hfence, hpre, heq⟩

/-- A start record opens a fence; ZTSTART empties `$ztwormhole`. -/
theorem step_start {st : St} {rec : MStr} (hst : st.halted = false) (hs : isStart rec = true) :
    (step env st rec).done = st.done ∧ (step env st rec).tran = st.tran ∧
    (step env st rec).tpFence = st.tpFence + 1 := by
  have hgo : ¬ st.halted = true := by
    rw [hst]
    decide
  simp only [isStart, Bool.or_eq_true, decide_eq_true_eq] at hs
  unfold step
  rw [if_neg hgo]
  rcases hs with h6 | h8
  · rw [h6]
    exact ⟨rfl, rfl, rfl⟩
  · rw [h8]
    exact ⟨rfl, rfl, rfl⟩

/-- A commit record: the state of `close`, `$ztwormhole` apart. -/
theorem step_commit {st : St} {rec : MStr} (hst : st.halted = false) (hc : isCommit rec = true) :
    (step env st rec).done = (close env st).done ∧
    (step env st rec).halted = (close env st).halted ∧
    (step env st rec).tpFence = (close env st).tpFence ∧
    (step env st rec).tran = (close env st).tran := by
  have hgo : ¬ st.halted = true := by
    rw [hst]
    decide
  simp only [isCommit, Bool.or_eq_true, decide_eq_true_eq] at hc
  unfold step
  rw [if_neg hgo]
  rcases hc with h7 | h9
  · rw [h7]
    exact ⟨rfl, rfl, rfl, rfl⟩
  · rw [h9]
    exact ⟨rfl, rfl, rfl, rfl⟩

/-! ## 3. The routine is the buffer -/

/-- Every prefix has at most `d` commits more than starts. -/
def Fenced (d : Nat) (recs : List MStr) : Prop :=
  ∀ pre, pre <+: recs → pre.countP isCommit ≤ d + pre.countP isStart

theorem not_start_and_commit (rec : MStr) (hs : isStart rec = true) : isCommit rec = false := by
  simp only [isStart, Bool.or_eq_true, decide_eq_true_eq] at hs
  simp only [isCommit, Bool.or_eq_false_iff, decide_eq_false_iff_not]
  omega

theorem Fenced.tail_start {d : Nat} {rec : MStr} {recs : List MStr} (h : Fenced d (rec :: recs))
    (hs : isStart rec = true) : Fenced (d + 1) recs := by
  intro pre hpre
  have hall := h (rec :: pre) ((List.prefix_cons_inj rec).2 hpre)
  rw [List.countP_cons_of_pos hs, List.countP_cons_of_neg (by simp [not_start_and_commit rec hs])]
    at hall
  omega

theorem Fenced.tail_commit {d : Nat} {rec : MStr} {recs : List MStr} (h : Fenced d (rec :: recs))
    (hc : isCommit rec = true) : 0 < d ∧ Fenced (d - 1) recs := by
  have hs : ¬ isStart rec = true := by
    intro hs
    rw [not_start_and_commit rec hs] at hc
    cases hc
  have hfirst := h [rec] (List.prefix_append _ _)
  rw [List.countP_cons_of_pos hc, List.countP_cons_of_neg hs] at hfirst
  simp only [List.countP_nil] at hfirst
  refine ⟨by omega, ?_⟩
  intro pre hpre
  have hall := h (rec :: pre) ((List.prefix_cons_inj rec).2 hpre)
  rw [List.countP_cons_of_pos hc, List.countP_cons_of_neg hs] at hall
  omega

theorem Fenced.tail_data {d : Nat} {rec : MStr} {recs : List MStr} (h : Fenced d (rec :: recs))
    (hs : isStart rec = false) (hc : isCommit rec = false) : Fenced d recs := by
  intro pre hpre
  have hall := h (rec :: pre) ((List.prefix_cons_inj rec).2 hpre)
  rw [List.countP_cons_of_neg (by simp [hc]), List.countP_cons_of_neg (by simp [hs])] at hall
  exact hall

/-- The rest of a fenced extract is fenced, with the fences the buffer then has open. -/
theorem Fenced.tail {rec : MStr} {recs : List MStr} {b : Buffer Cmd} (st : St)
    (h : Fenced b.depth (rec :: recs)) :
    Fenced (b.run (event env st rec).toList).depth recs := by
  unfold event
  split
  · rename_i hs
    exact h.tail_start hs
  · rename_i hs
    split
    · rename_i hc
      have hdepth : (b.step .closes).depth = b.depth - 1 := by
        simp only [Buffer.step]
        split
        · rfl
        · rfl
      have htail := (h.tail_commit hc).2
      rw [← hdepth] at htail
      exact htail
    · rename_i hc
      have htail := h.tail_data (by simpa using hs) (by simpa using hc)
      split
      · have hdepth : (b.step (.item (command rec))).depth = b.depth := by
          simp only [Buffer.step]
          split
          · rfl
          · rfl
        rw [← hdepth] at htail
        exact htail
      · exact htail

/-- A halted routine reads no further. -/
theorem foldl_of_halted {st : St} (h : st.halted = true) (recs : List MStr) :
    recs.foldl (step env) st = st := by
  induction recs with
  | nil => rfl
  | cons rec recs ih =>
      have hstep : step env st rec = st := if_pos h
      rw [List.foldl_cons, hstep, ih]

/-- Without `checkzqgblmod`: a SET or KILL that no trigger did, a ZKILL, and any trigger record, but
    no update of `^#t`. -/
def plainApplied (rec : MStr) : Bool :=
  match recType rec with
  | 5 => !byTrigger env rec && (piece backslash rec 11).take 4 ≠ lit "^#t("
  | 4 => !byTrigger env rec && (piece backslash rec 11).take 3 ≠ lit "^#t"
  | 10 => (piece backslash rec 11).take 3 ≠ lit "^#t"
  | 11 | 12 | 13 => true
  | _ => false

theorem xecute_skipgbl (st : St) (cmd : Cmd) : (xecute env st cmd).skipgbl = st.skipgbl := by
  cases cmd with
  | item data =>
      simp only [xecute]
      split
      · rfl
      · rfl
  | _ => rfl

theorem flush_skipgbl (tran : List Cmd) : ∀ st : St, (flush env st tran).skipgbl = st.skipgbl := by
  induction tran with
  | nil => exact fun _ => rfl
  | cons cmd tran ih =>
      intro st
      have hfirst : flush env st (cmd :: tran) =
          flush env (if st.halted then st else xecute env st cmd) tran := rfl
      rw [hfirst, ih]
      split
      · rfl
      · exact xecute_skipgbl env st cmd

theorem close_skipgbl (st : St) : (close env st).skipgbl = st.skipgbl := by
  unfold close commit
  dsimp only
  split
  · split
    · rfl
    · exact flush_skipgbl env st.tran _
  · rfl

/-- **`skipgbl` is only ever added.** -/
theorem step_skipgbl {st : St} (hst : st.halted = false) (rec : MStr) :
    (step env st rec).skipgbl = (st.skipgbl || leaves env st rec) := by
  have hgo : ¬ st.halted = true := by
    rw [hst]
    decide
  by_cases hs : isStart rec = true
  · simp only [isStart, Bool.or_eq_true, decide_eq_true_eq] at hs
    unfold step
    rw [if_neg hgo]
    rcases hs with h | h
    · simp [leaves, h]
    · simp [leaves, h]
  · by_cases hc : isCommit rec = true
    · simp only [isCommit, Bool.or_eq_true, decide_eq_true_eq] at hc
      unfold step
      rw [if_neg hgo]
      rcases hc with h | h
      · simp [leaves, h, close_skipgbl]
      · simp [leaves, h, close_skipgbl]
    · rw [step_data env hst (by simpa using hs) (by simpa using hc)]
      split
      · rename_i hh
        have hl : leaves env st rec = false := by
          unfold halts at hh
          split at hh
          · simp_all [leaves]
          · simp_all [leaves]
          · simp_all [leaves]
          · cases hh
        rw [hl, Bool.or_false]
        rfl
      · split
        · rename_i hi
          rw [issue_eq env (skipped env st rec) rec (@fence_or_update env st rec hi)]
          split
          · rfl
          · rfl
        · rfl

theorem run_append (recs recs' : List MStr) :
    run env (recs ++ recs') = recs'.foldl (step env) (run env recs) := List.foldl_append

/-- What was read before a routine that has not halted did not halt it. -/
theorem not_halted_prefix {pre recs : List MStr} (hpre : pre <+: recs)
    (h : (run env recs).halted = false) : (run env pre).halted = false := by
  obtain ⟨rest, rfl⟩ := hpre
  cases hh : (run env pre).halted with
  | false => rfl
  | true =>
      rw [run_append, foldl_of_halted env hh, hh] at h
      cases h

/-- Without `checkzqgblmod` there is no `skipgbl`. -/
theorem run_skipgbl (hcheck : env.checkzqgblmod = false) : ∀ {recs : List MStr},
    (run env recs).halted = false → (run env recs).skipgbl = false := by
  intro recs
  induction recs using List.reverseRecOn with
  | nil => exact fun _ => rfl
  | append_singleton recs rec ih =>
      intro h
      have hst := not_halted_prefix env (List.prefix_append recs [rec]) h
      have hl : leaves env (run env recs) rec = false := by
        unfold leaves modified
        rw [hcheck]
        split
        · simp
        · rfl
        · rfl
      rw [run_append, List.foldl_cons, List.foldl_nil, step_skipgbl env hst, ih hst, hl]
      rfl

/-! ### What umjrnl can apply -/

/-- A record of a trigger: ZTWORMHOLE, ZTRIGGER or LGTRIG. -/
def isTrigger (rec : MStr) : Bool := recType rec = 11 || recType rec = 12 || recType rec = 13

/-- **An extract that umjrnl does not refuse.** Without `checkzqgblmod` the records of triggers are inside
    of transactions, and `$ztrigger` takes what it is given; with it, no transaction is complete. -/
structure Playable (recs : List MStr) : Prop where
  fenced : ∀ pre, pre <+: recs → pre.countP isCommit ≤ pre.countP isStart
  inside : env.checkzqgblmod = false → ∀ pre rec, pre ++ [rec] <+: recs → isTrigger rec = true →
    pre.countP isCommit < pre.countP isStart
  loads : env.checkzqgblmod = false → ∀ rec ∈ recs, recType rec = 13 → ∀ done,
    env.ztriggerItem done (trigData rec) = true
  cutOff : env.checkzqgblmod = true → ∀ pre rec, pre ++ [rec] <+: recs → isCommit rec = true →
    pre.countP isCommit + 1 < pre.countP isStart

/-- The routine after a part of the extract: it goes on, it knows its depth, and what it keeps for
    `$ztrigger` comes from LGTRIG records. -/
structure Alive (pre : List MStr) (st : St) : Prop where
  going : st.halted = false
  depth : st.tpFence = (pre.countP isStart : Int) - pre.countP isCommit
  items : ∀ data, Cmd.item data ∈ st.tran → ∃ rec ∈ pre, recType rec = 13 ∧ data = trigData rec

variable {env} {recs pre : List MStr} {rec : MStr} {st : St}

/-- A flush goes on to its end if `$ztrigger` takes all it is given. -/
theorem flush_going : ∀ {tran : List Cmd} {st : St}, st.halted = false →
    (∀ data, Cmd.item data ∈ tran → ∀ done, env.ztriggerItem done data = true) →
    (flush env st tran).halted = false
  | [], _, hst, _ => hst
  | cmd :: tran, st, hst, h => by
      have hfirst : flush env st (cmd :: tran) = flush env (xecute env st cmd) tran := by
        simp [flush, hst]
      have hgo : (xecute env st cmd).halted = false := by
        cases cmd with
        | item data =>
            have htakes := h data List.mem_cons_self st.done
            rw [xecute]
            simp only [htakes, if_true]
            exact hst
        | _ => exact hst
      rw [hfirst]
      exact flush_going hgo fun data hdata => h data (List.mem_cons_of_mem _ hdata)

theorem countP_snoc (p : MStr → Bool) (pre : List MStr) (rec : MStr) :
    (pre ++ [rec]).countP p = pre.countP p + if p rec then 1 else 0 := by
  rw [List.countP_append, List.countP_singleton]

theorem Alive.items_snoc (h : Alive pre st) (rec : MStr) (data : MStr) (hdata : Cmd.item data ∈ st.tran) :
    ∃ r ∈ pre ++ [rec], recType r = 13 ∧ data = trigData r := by
  obtain ⟨r, hr, hspec⟩ := h.items data hdata
  exact ⟨r, List.mem_append_left _ hr, hspec⟩

theorem Alive.start (h : Alive pre st) (hs : isStart rec = true) :
    Alive (pre ++ [rec]) (step env st rec) := by
  have hc := not_start_and_commit rec hs
  obtain ⟨-, htran, hfence⟩ := step_start env h.going hs
  have hgo : (step env st rec).halted = false := by
    have hrun : ¬ st.halted = true := by simp [h.going]
    simp only [isStart, Bool.or_eq_true, decide_eq_true_eq] at hs
    unfold step
    rw [if_neg hrun]
    rcases hs with h6 | h8
    · rw [h6]
      exact h.going
    · rw [h8]
      exact h.going
  refine ⟨hgo, ?_, fun data hdata => h.items_snoc rec data (htran ▸ hdata)⟩
  rw [hfence, h.depth, countP_snoc, countP_snoc, if_pos hs, if_neg (by simp [hc])]
  omega

/-- A commit: without `checkzqgblmod` what is kept is executed, and with it another fence is open. -/
theorem Alive.commit (h : Alive pre st) (hp : Playable env recs) (hpre : pre ++ [rec] <+: recs)
    (hc : isCommit rec = true) : Alive (pre ++ [rec]) (step env st rec) := by
  have hs : isStart rec = false := by
    rw [← Bool.not_eq_true]
    intro hs
    rw [not_start_and_commit rec hs] at hc
    cases hc
  have hcount : ((pre ++ [rec]).countP isStart : Int) - (pre ++ [rec]).countP isCommit =
      st.tpFence - 1 := by
    rw [countP_snoc, countP_snoc, if_pos hc, if_neg (by simp [hs]), h.depth]
    omega
  have hopen : env.checkzqgblmod = true → ¬ st.tpFence - 1 = 0 := by
    intro hcheck
    have hmore := hp.cutOff hcheck pre rec hpre hc
    rw [h.depth]
    omega
  have hclose : (close env st).halted = false ∧ (close env st).tpFence = st.tpFence - 1 ∧
      ∀ cmd ∈ (close env st).tran, cmd ∈ st.tran := by
    unfold close
    dsimp only
    split
    · rename_i hzero
      have hcheck : env.checkzqgblmod = false := by
        rw [← Bool.not_eq_true]
        exact fun hcheck => hopen hcheck hzero
      have htakes : ∀ data, Cmd.item data ∈ st.tran → ∀ done, env.ztriggerItem done data = true := by
        intro data hdata
        obtain ⟨r, hr, htype, rfl⟩ := h.items data hdata
        exact hp.loads hcheck r (hpre.subset (List.mem_append_left _ hr)) htype
      rw [Umjrnl.commit, if_neg (by simp [hcheck])]
      refine ⟨flush_going h.going htakes, ?_, fun cmd hcmd => absurd hcmd List.not_mem_nil⟩
      exact (flush_cases env st.tran { st with tpFence := st.tpFence - 1 } h.going).1
    · exact ⟨h.going, rfl, fun _ hcmd => hcmd⟩
  obtain ⟨-, hhalt, hfence, htran⟩ := step_commit env h.going hc
  obtain ⟨hgo, hdepth, hkept⟩ := hclose
  refine ⟨hhalt.trans hgo, ?_, fun data hdata => h.items_snoc rec data (hkept _ (htran ▸ hdata))⟩
  rw [hfence, hdepth, hcount]

/-- A record of an extract that umjrnl does not refuse does not stop it. -/
theorem Playable.not_halts (hp : Playable env recs) (hpre : pre ++ [rec] <+: recs) (h : Alive pre st) :
    halts env st rec = false := by
  rw [← Bool.not_eq_true]
  intro hhalts
  have htrigger : isTrigger rec = true ∧ env.checkzqgblmod = false ∧ st.tpFence = 0 := by
    unfold halts at hhalts
    unfold isTrigger
    split at hhalts
    · simp_all
    · simp_all
    · simp_all
    · cases hhalts
  obtain ⟨htrigger, hcheck, hzero⟩ := htrigger
  have hmore := hp.inside hcheck pre rec hpre htrigger
  have hdepth := h.depth
  omega

theorem command_item {data : MStr} (h : command rec = .item data) :
    recType rec = 13 ∧ data = trigData rec := by
  unfold command at h
  split at h
  · cases h
  · cases h
  · cases h
  · cases h
  · rename_i h13
    exact ⟨h13, (Cmd.item.inj h).symm⟩
  · cases h

theorem Alive.data (h : Alive pre st) (hp : Playable env recs) (hpre : pre ++ [rec] <+: recs)
    (hs : isStart rec = false) (hc : isCommit rec = false) :
    Alive (pre ++ [rec]) (step env st rec) := by
  have hdepth : st.tpFence =
      ((pre ++ [rec]).countP isStart : Int) - (pre ++ [rec]).countP isCommit := by
    rw [countP_snoc, countP_snoc, hs, hc, h.depth]
    simp
  rw [step_data env h.going hs hc, hp.not_halts hpre h, if_neg (by decide)]
  split
  · rename_i hissues
    rw [issue_eq env (skipped env st rec) rec (@fence_or_update env st rec hissues)]
    split
    · refine ⟨h.going, hdepth, fun data hdata => ?_⟩
      rcases List.mem_append.1 hdata with hold | hnew
      · exact h.items_snoc rec data hold
      · exact ⟨rec, List.mem_append_right _ (List.mem_singleton_self rec),
          command_item (List.mem_singleton.1 hnew).symm⟩
    · exact ⟨h.going, hdepth, h.items_snoc rec⟩
  · exact ⟨h.going, hdepth, h.items_snoc rec⟩

/-- **The routine is never stopped.** -/
theorem Playable.alive (hp : Playable env recs) : ∀ {pre : List MStr}, pre <+: recs →
    Alive pre (run env pre) := by
  intro pre
  induction pre using List.reverseRecOn with
  | nil => exact fun _ => ⟨rfl, rfl, fun data hdata => absurd hdata List.not_mem_nil⟩
  | append_singleton pre rec ih =>
      intro hpre
      have h := ih ((List.prefix_append pre [rec]).trans hpre)
      rw [run_append, List.foldl_cons, List.foldl_nil]
      by_cases hs : isStart rec = true
      · exact h.start hs
      · by_cases hc : isCommit rec = true
        · exact h.commit hp hpre hc
        · exact h.data hp hpre (by simpa using hs) (by simpa using hc)

/-- Without `checkzqgblmod` a record is applied or not whatever was read before it. -/
theorem Playable.applied_eq (hp : Playable env recs) (hcheck : env.checkzqgblmod = false)
    (hpre : pre ++ [rec] <+: recs) (hs : isStart rec = false) (hc : isCommit rec = false) :
    applied env (run env pre) rec = plainApplied env rec := by
  have halive := hp.alive ((List.prefix_append pre [rec]).trans hpre)
  have hh := hp.not_halts hpre halive
  have hskip := run_skipgbl env hcheck halive.going
  have hmod : ∀ node, modified env (run env pre) node = false := by
    intro node
    rw [modified, hcheck]
    rfl
  rw [Umjrnl.applied_eq env halive.going hs hc, hh, Bool.not_false, Bool.true_and]
  unfold issues plainApplied
  unfold halts at hh
  split
  · simp [hmod]
  · simp [hmod, hskip]
  · simp [hmod, hskip]
  all_goals simp_all

variable (env)

variable {env}

end Stream

/-! ### One extract -/

/-- Extracts applied with triggers, nothing checked. -/
def plainEnv : Env where
  trigtst := true
  checkzqgblmod := false
  zqgblmod := fun _ _ => false
  ztriggerItem := fun _ _ => true
  literal := id

/-- An update record of an extract: type, eight empty fields, node flags 0, data. -/
def updateLine (type data : MStr) : MStr :=
  type ++ List.replicate 9 backslash ++ [.chr 48, backslash] ++ data

/-- A nested transaction, an update outside, and a transaction the end cuts off. -/
def cutOff : List MStr :=
  [lit "08", lit "06", updateLine (lit "05") (lit "^a=1"), lit "07", updateLine (lit "04") (lit "^b"),
    lit "09", updateLine (lit "05") (lit "^c=1"), lit "08", updateLine (lit "05") (lit "^d=1")]

end YottaTest.Umjrnl
