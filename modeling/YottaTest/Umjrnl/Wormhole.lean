/-
  File:      YottaTest/Umjrnl/Wormhole.lean
  Subject:   The `$ztwormhole` umjrnl replays an update with.

  What a record makes umjrnl execute is one unfenced update, or the whole transaction the record
  commits. An update should see the value of the last ZTWORMHOLE record before it in its own
  transaction. ZTSTART and ZTCOMMIT empty `$ztwormhole`, TSTART and TCOMMIT do not.

  * `playedBy` -- what one record makes umjrnl execute; `OwnContext`: every update in it sees the
    value of its own transaction; `due`, `Exposed` -- what falls due with a record, and an update
    among it with no ZTWORMHOLE before it;
  * `step_played` -- what is executed is what is due, from the value that was there before;
  * `Carried`, `carried_iff` -- where that value comes from: the last ZTWORMHOLE of a transaction
    ended by TCOMMIT, with nothing since that empties or replaces it;
  * `umjrnl_context_iff` -- **every update sees its own context exactly if no carried value meets an
    update without one.**
-/
import YottaTest.Umjrnl.Skips

namespace YottaTest.Umjrnl

open YottaTest.Lib YottaTest.M

/-! ## 1. Contexts -/

/-- SET, KILL or ZKILL. -/
def Cmd.isUpdate : Cmd → Bool
  | .set _ | .kill _ | .zkill _ => true
  | .ztwormhole _ | .ztrigger _ | .item _ => false

section Context

variable (env : Env)

/-- `$ztwormhole` after a list of commands. -/
def wormholeAfter (w : MStr) (cmds : List Cmd) : MStr :=
  cmds.foldl (fun w cmd => match cmd with
    | .ztwormhole data => env.literal data
    | _ => w) w

/-- One of the commands sets `$ztwormhole`. -/
def hasWormhole (cmds : List Cmd) : Prop := ∃ data, .ztwormhole data ∈ cmds

/-- What the record makes umjrnl execute. -/
def playedBy (pre : List MStr) (rec : MStr) : List Played :=
  (step env (run env pre) rec).done.drop (run env pre).done.length

/-- Every update sees the last ZTWORMHOLE before it among what is executed with it, or nothing. -/
def OwnContext (pre : List MStr) (rec : MStr) : Prop :=
  ∀ as p bs, playedBy env pre rec = as ++ p :: bs → p.cmd.isUpdate = true →
    p.ztwormhole = wormholeAfter env [] (as.map Played.cmd)

/-- The commands that fall due with a record: a transaction it commits, or its own command. -/
def due (st : St) (rec : MStr) : List Cmd :=
  if st.halted then []
  else if isStart rec then []
  else if isCommit rec then if st.tpFence = 1 ∧ env.checkzqgblmod = false then st.tran else []
  else if st.tpFence = 0 ∧ issues env st rec = true then [command rec] else []

/-- `$ztrigger` refuses the command. -/
def refuses (done : List Played) : Cmd → Bool
  | .item data => !env.ztriggerItem done data
  | _ => false

/-- `$ztrigger` refuses none of the commands, after what was executed before. -/
def Accepted (done : List Played) (w : MStr) : List Cmd → Prop
  | [] => True
  | cmd :: cmds => refuses env done cmd = false ∧
      Accepted (done ++ [⟨cmd, w⟩]) (wormholeAfter env w [cmd]) cmds

/-- Among the commands due an update is reached with no ZTWORMHOLE before it. -/
def Exposed (st : St) (rec : MStr) : Prop :=
  ∃ as cmd bs, due env st rec = as ++ cmd :: bs ∧ cmd.isUpdate = true ∧ ¬ hasWormhole as ∧
    Accepted env st.done st.ztwormhole as

theorem wormholeAfter_cons (w : MStr) (cmd : Cmd) (cmds : List Cmd) :
    wormholeAfter env w (cmd :: cmds) = wormholeAfter env (wormholeAfter env w [cmd]) cmds := rfl

theorem wormholeAfter_of_not {cmds : List Cmd} (h : ¬ hasWormhole cmds) (w : MStr) :
    wormholeAfter env w cmds = w := by
  induction cmds generalizing w with
  | nil => rfl
  | cons cmd cmds ih =>
      have hrest : ¬ hasWormhole cmds := fun ⟨data, hd⟩ => h ⟨data, List.mem_cons_of_mem _ hd⟩
      have hfirst : wormholeAfter env w [cmd] = w := by
        cases cmd with
        | ztwormhole data => exact absurd ⟨data, List.mem_cons_self⟩ h
        | _ => rfl
      rw [wormholeAfter_cons, hfirst, ih hrest]

/-- With a ZTWORMHOLE among them, what was there before does not matter. -/
theorem wormholeAfter_of_has {cmds : List Cmd} (h : hasWormhole cmds) (w w' : MStr) :
    wormholeAfter env w cmds = wormholeAfter env w' cmds := by
  induction cmds generalizing w w' with
  | nil =>
      obtain ⟨_, hd⟩ := h
      cases hd
  | cons cmd cmds ih =>
      rw [wormholeAfter_cons, wormholeAfter_cons env w']
      by_cases hrest : hasWormhole cmds
      · exact ih hrest _ _
      · obtain ⟨data, hd⟩ := h
        have hcmd : .ztwormhole data = cmd :=
          (List.mem_cons.1 hd).resolve_right fun hm => hrest ⟨data, hm⟩
        rw [← hcmd]
        rfl

/-! ## 2. What one record executes -/

/-- The commands executed one after the other, up to one that is refused. -/
def playing (done : List Played) (w : MStr) : List Cmd → List Played
  | [] => []
  | cmd :: cmds =>
      if refuses env done cmd then []
      else ⟨cmd, w⟩ :: playing (done ++ [⟨cmd, w⟩]) (wormholeAfter env w [cmd]) cmds

/-- Each command sees what those before it left. -/
theorem playing_context : ∀ (cmds : List Cmd) (done : List Played) (w : MStr) {as p bs},
    playing env done w cmds = as ++ p :: bs →
    p.ztwormhole = wormholeAfter env w (as.map Played.cmd) ∧
      Accepted env done w (as.map Played.cmd) ∧
      ∃ rest, cmds = as.map Played.cmd ++ p.cmd :: rest
  | [], done, w, as, p, bs, h => by simp [playing] at h
  | cmd :: cmds, done, w, as, p, bs, h => by
      unfold playing at h
      cases hr : refuses env done cmd with
      | true => simp [hr] at h
      | false =>
          rw [hr] at h
          simp only [Bool.false_eq_true, if_false] at h
          cases as with
          | nil =>
              obtain ⟨rfl, -⟩ := List.cons.inj h
              exact ⟨rfl, trivial, cmds, rfl⟩
          | cons a as =>
              obtain ⟨rfl, htail⟩ := List.cons.inj h
              obtain ⟨hw, hacc, rest, hrest⟩ := playing_context cmds _ _ htail
              refine ⟨?_, ⟨hr, hacc⟩, rest, ?_⟩
              · rw [hw, List.map_cons, ← wormholeAfter_cons]
              · rw [hrest]
                rfl

/-- An update is executed where nothing before it is refused. -/
theorem playing_reaches {cmd : Cmd} (hup : cmd.isUpdate = true) (rest : List Cmd) :
    ∀ (cmds : List Cmd) (done : List Played) (w : MStr), Accepted env done w cmds →
    ∃ as p bs, playing env done w (cmds ++ cmd :: rest) = as ++ p :: bs ∧
      as.map Played.cmd = cmds ∧ p.cmd = cmd
  | [], done, w, _ => by
      have hr : refuses env done cmd = false := by
        cases cmd with
        | item data => cases hup
        | _ => rfl
      refine ⟨[], ⟨cmd, w⟩, playing env (done ++ [⟨cmd, w⟩]) (wormholeAfter env w [cmd]) rest,
        ?_, rfl, rfl⟩
      rw [List.nil_append, playing, hr]
      rfl
  | first :: cmds, done, w, h => by
      obtain ⟨as, p, bs, hplay, hcmds, hp⟩ := playing_reaches hup rest cmds _ _ h.2
      refine ⟨⟨first, w⟩ :: as, p, bs, ?_, ?_, hp⟩
      · rw [List.cons_append, playing, h.1]
        simp only [Bool.false_eq_true, if_false]
        rw [hplay]
        rfl
      · rw [List.map_cons, hcmds]

theorem xecute_eq (st : St) (cmd : Cmd) : xecute env st cmd =
    if refuses env st.done cmd then umhalt st
    else { st with
      done := st.done ++ [⟨cmd, st.ztwormhole⟩], ztwormhole := wormholeAfter env st.ztwormhole [cmd] } := by
  cases cmd with
  | item data =>
      by_cases h : env.ztriggerItem st.done data = true
      · simp only [xecute, refuses, h, if_true, Bool.not_true, Bool.false_eq_true, if_false]
        rfl
      · simp only [xecute, refuses, h, Bool.not_false, Bool.false_eq_true, if_false, if_true]
  | _ => rfl

theorem flush_played : ∀ (tran : List Cmd) (st : St), st.halted = false →
    (flush env st tran).done = st.done ++ playing env st.done st.ztwormhole tran ∧
      ((flush env st tran).halted = false →
        (flush env st tran).ztwormhole = wormholeAfter env st.ztwormhole tran)
  | [], st, _ => ⟨(List.append_nil _).symm, fun _ => rfl⟩
  | cmd :: tran, st, hst => by
      have hfirst : flush env st (cmd :: tran) = flush env (xecute env st cmd) tran := by
        simp [flush, hst]
      rw [hfirst, xecute_eq, playing]
      cases refuses env st.done cmd with
      | true =>
          rw [if_pos rfl, if_pos rfl, flush_halted env]
          refine ⟨(List.append_nil _).symm, fun h => ?_⟩
          cases h
      | false =>
          simp only [Bool.false_eq_true, if_false]
          obtain ⟨hd, hw⟩ := flush_played tran { st with
            done := st.done ++ [⟨cmd, st.ztwormhole⟩]
            ztwormhole := wormholeAfter env st.ztwormhole [cmd] } hst
          refine ⟨?_, fun hgo => hw hgo⟩
          rw [hd, List.append_assoc]
          rfl

theorem close_played {st : St} (hst : st.halted = false) :
    (close env st).done = st.done ++ playing env st.done st.ztwormhole
      (if st.tpFence = 1 ∧ env.checkzqgblmod = false then st.tran else []) ∧
    ((close env st).halted = false → (close env st).ztwormhole =
      if st.tpFence = 1 then wormholeAfter env st.ztwormhole st.tran else st.ztwormhole) := by
  by_cases h1 : st.tpFence = 1
  · have hclose : close env st = commit env { st with tpFence := st.tpFence - 1 } := by
      simp [close, h1]
    rw [hclose, if_pos h1]
    unfold commit
    cases env.checkzqgblmod with
    | true =>
        refine ⟨by simp [umhalt, playing], fun h => ?_⟩
        cases h
    | false =>
        simp only [h1, Bool.false_eq_true, if_false, and_self, if_true]
        exact flush_played env st.tran { st with tpFence := 1 - 1 } hst
  · have hclose : close env st = { st with tpFence := st.tpFence - 1 } := by
      have hne : ¬ st.tpFence - 1 = 0 := by omega
      simp [close, hne]
    rw [hclose]
    simp [h1, playing]

/-- **What one record makes umjrnl execute**: the commands due, from the value that was there before. -/
theorem step_played (st : St) (rec : MStr) : (step env st rec).done =
    st.done ++ playing env st.done st.ztwormhole (due env st rec) := by
  have hidle : st.done = st.done ++ playing env st.done st.ztwormhole [] := (List.append_nil _).symm
  cases hst : st.halted with
  | true =>
      have hstep : step env st rec = st := if_pos hst
      have hdue : due env st rec = [] := if_pos hst
      rw [hstep, hdue]
      exact hidle
  | false =>
      unfold due
      simp only [hst, Bool.false_eq_true, if_false]
      cases hs : isStart rec with
      | true =>
          rw [(step_start env hst hs).1, if_pos rfl]
          exact hidle
      | false =>
          simp only [Bool.false_eq_true, if_false]
          cases hc : isCommit rec with
          | true =>
              rw [(step_commit env hst hc).1, if_pos rfl]
              exact (close_played env hst).1
          | false =>
              rw [step_data env hst hs hc]
              simp only [Bool.false_eq_true, if_false]
              cases hh : halts env st rec with
              | true =>
                  have hi : issues env st rec = false := by
                    unfold halts at hh
                    unfold issues
                    split at hh
                    · simp_all
                    · simp_all
                    · simp_all
                    · cases hh
                  simp only [hi, Bool.false_eq_true, and_false, if_false, if_true]
                  exact hidle
              | false =>
                  simp only [Bool.false_eq_true, if_false]
                  cases hi : issues env st rec with
                  | false =>
                      simp only [Bool.false_eq_true, and_false, if_false]
                      exact hidle
                  | true =>
                      rw [if_pos rfl, issue_eq env (skipped env st rec) rec
                        (@fence_or_update env st rec hi)]
                      by_cases h0 : st.tpFence = 0
                      · have hup : isUpdate rec = true :=
                          (fence_or_update env hi).resolve_left fun hne => hne h0
                        have hr : refuses env st.done (command rec) = false := by
                          simp only [isUpdate, Bool.or_eq_true, decide_eq_true_eq] at hup
                          rcases hup with (h5 | h4) | h10
                          · simp only [command, h5, refuses]
                          · simp only [command, h4, refuses]
                          · simp only [command, h10, refuses]
                        have hf : ¬ (skipped env st rec).tpFence ≠ 0 := fun hne => hne h0
                        rw [if_neg hf, if_pos ⟨h0, rfl⟩, playing, hr]
                        rfl
                      · have hf : (skipped env st rec).tpFence ≠ 0 := h0
                        have hd : ¬ (st.tpFence = 0 ∧ true = true) := fun hd => h0 hd.1
                        rw [if_pos hf, if_neg hd]
                        exact hidle

theorem playedBy_eq (pre : List MStr) (rec : MStr) : playedBy env pre rec =
    playing env (run env pre).done (run env pre).ztwormhole (due env (run env pre) rec) := by
  rw [playedBy, step_played, List.drop_left]

/-! ## 3. Where a value comes from -/

/-- Outside a commit of a TP transaction and what empties it, `$ztwormhole` stays. -/
theorem step_ztwormhole {st : St} {rec : MStr} (hst : st.halted = false)
    (hgo : (step env st rec).halted = false) : (step env st rec).ztwormhole =
      if recType rec = 6 ∨ recType rec = 7 then []
      else if recType rec = 9 ∧ st.tpFence = 1 then wormholeAfter env st.ztwormhole st.tran
      else st.ztwormhole := by
  have hrun : ¬ st.halted = true := by
    rw [hst]
    decide
  by_cases hfence : isStart rec = true ∨ isCommit rec = true
  · simp only [isStart, isCommit, Bool.or_eq_true, decide_eq_true_eq] at hfence
    unfold step at hgo ⊢
    rw [if_neg hrun] at hgo ⊢
    rcases hfence with (h | h) | (h | h)
    · simp [h]
    · simp [h]
    · simp [h]
    · simp only [h] at hgo ⊢
      rw [(close_played env hst).2 hgo]
      simp
  · obtain ⟨hs, hc⟩ := not_or.1 hfence
    have hs : isStart rec = false := by simpa using hs
    have hc : isCommit rec = false := by simpa using hc
    rw [step_data env hst hs hc] at hgo ⊢
    simp only [isStart, isCommit, Bool.or_eq_false_iff, decide_eq_false_iff_not] at hs hc
    simp only [hs.1, hc.1, hc.2, false_or, false_and, if_false]
    split
    · rfl
    · split
      · rename_i hi
        rw [issue_eq env (skipped env st rec) rec (@fence_or_update env st rec hi)]
        split
        · rfl
        · rfl
      · rfl

/-- The record ends a TP transaction, and its outermost level, of the state before. -/
def endsTp (pre : List MStr) (rec : MStr) : Prop := recType rec = 9 ∧ (run env pre).tpFence = 1

/-- The last thing that touched `$ztwormhole` is the last ZTWORMHOLE of a transaction ended by
    TCOMMIT, and its value is not empty. -/
def Carried (pre : List MStr) : Prop :=
  ∃ pre' rec post, pre = pre' ++ rec :: post ∧ endsTp env pre' rec ∧
    wormholeAfter env [] (run env pre').tran ≠ [] ∧
    ∀ post' r, post' ++ [r] <+: post → recType r ≠ 6 ∧ recType r ≠ 7 ∧
      (endsTp env (pre' ++ rec :: post') r → ¬ hasWormhole (run env (pre' ++ rec :: post')).tran)

theorem carried_append (pre : List MStr) (rec : MStr) : Carried env (pre ++ [rec]) ↔
    (endsTp env pre rec ∧ wormholeAfter env [] (run env pre).tran ≠ []) ∨
    (Carried env pre ∧ recType rec ≠ 6 ∧ recType rec ≠ 7 ∧
      (endsTp env pre rec → ¬ hasWormhole (run env pre).tran)) := by
  constructor
  · intro ⟨pre', r, post, heq, hends, hw, hpost⟩
    rcases List.eq_nil_or_concat post with rfl | ⟨init, last, rfl⟩
    · obtain ⟨rfl, hlast⟩ := List.append_inj' heq rfl
      obtain rfl := (List.cons.inj hlast).1
      exact Or.inl ⟨hends, hw⟩
    · have heq' : pre ++ [rec] = (pre' ++ r :: init) ++ [last] := by
        rw [heq]
        simp
      obtain ⟨rfl, hlast⟩ := List.append_inj' heq' rfl
      obtain rfl := (List.cons.inj hlast).1
      have hrec := hpost init rec (by simp)
      refine Or.inr ⟨⟨pre', r, init, rfl, hends, hw, fun post' q hq => ?_⟩, hrec⟩
      exact hpost post' q (hq.trans (by simp))
  · rintro (⟨hends, hw⟩ | ⟨⟨pre', r, post, rfl, hends, hw, hpost⟩, h6, h7, hrec⟩)
    · refine ⟨pre, rec, [], rfl, hends, hw, fun post' q hq => ?_⟩
      have hlen := hq.length_le
      simp at hlen
    · refine ⟨pre', r, post ++ [rec], by simp, hends, hw, fun post' q hq => ?_⟩
      rcases List.prefix_concat_iff.1 hq with hsame | hin
      · obtain ⟨rfl, hlast⟩ := List.append_inj' hsame rfl
        obtain rfl := (List.cons.inj hlast).1
        exact ⟨h6, h7, hrec⟩
      · exact hpost post' q hin

theorem carried_iff : ∀ {pre : List MStr}, (run env pre).halted = false →
    ((run env pre).ztwormhole ≠ [] ↔ Carried env pre) := by
  intro pre
  induction pre using List.reverseRecOn with
  | nil =>
      intro _
      refine ⟨fun h => absurd rfl h, fun ⟨pre', r, post, h, _⟩ => ?_⟩
      simp at h
  | append_singleton pre rec ih =>
      intro hgo
      have hst := not_halted_prefix env (List.prefix_append pre [rec]) hgo
      rw [run_append, List.foldl_cons, List.foldl_nil] at hgo ⊢
      rw [carried_append, step_ztwormhole env hst hgo, ← ih hst]
      unfold endsTp
      by_cases h67 : recType rec = 6 ∨ recType rec = 7
      · rw [if_pos h67]
        rcases h67 with h | h
        · simp [h]
        · simp [h]
      · obtain ⟨h6, h7⟩ := not_or.1 h67
        rw [if_neg h67]
        by_cases hends : recType rec = 9 ∧ (run env pre).tpFence = 1
        · rw [if_pos hends]
          by_cases hhas : hasWormhole (run env pre).tran
          · rw [wormholeAfter_of_has env hhas _ []]
            simp [hends, hhas]
          · rw [wormholeAfter_of_not env hhas, wormholeAfter_of_not env hhas]
            simp [hends, hhas]
        · rw [if_neg hends]
          simp [hends, h6, h7]

/-! ## 4. The whole extract -/

/-- **Each update is replayed in its own context exactly if** no carried value meets an update that has
    no ZTWORMHOLE before it in its own transaction. -/
theorem umjrnl_context_iff (recs : List MStr) :
    (∀ pre rec, pre ++ [rec] <+: recs → OwnContext env pre rec) ↔
    (∀ pre rec, pre ++ [rec] <+: recs → Carried env pre → ¬ Exposed env (run env pre) rec) := by
  constructor
  · intro h pre rec hpre hcar ⟨as, cmd, bs, hdue, hup, hhas, hacc⟩
    have hst : (run env pre).halted = false := by
      cases hst : (run env pre).halted with
      | false => rfl
      | true =>
          unfold due at hdue
          simp [hst] at hdue
    obtain ⟨ps, p, qs, hplay, has, hp⟩ := playing_reaches env hup bs as _ _ hacc
    have hplayed : playedBy env pre rec = ps ++ p :: qs := by rw [playedBy_eq, hdue, hplay]
    have hown := h pre rec hpre ps p qs hplayed (by rw [hp]; exact hup)
    have hsees := (playing_context env _ _ _ hplay).1
    rw [has, wormholeAfter_of_not env hhas] at hown hsees
    exact (carried_iff env hst).2 hcar (hsees.symm.trans hown)
  · intro h pre rec hpre as p bs hplay hup
    rw [playedBy_eq] at hplay
    obtain ⟨hsees, hacc, rest, hdue⟩ := playing_context env _ _ _ hplay
    rw [hsees]
    by_cases hhas : hasWormhole (as.map Played.cmd)
    · exact wormholeAfter_of_has env hhas _ _
    · have hst : (run env pre).halted = false := by
        cases hst : (run env pre).halted with
        | false => rfl
        | true =>
            unfold due at hdue
            simp [hst] at hdue
      have hnot : ¬ Carried env pre := fun hcar =>
        h pre rec hpre hcar ⟨as.map Played.cmd, p.cmd, rest, hdue, hup, hhas, hacc⟩
      have hempty : (run env pre).ztwormhole = [] := by
        by_contra hne
        exact hnot ((carried_iff env hst).1 hne)
      rw [hempty]

end Context

/-! ### One extract -/

/-- A ZTWORMHOLE record: type, nine fields, data. -/
def wormholeLine (data : MStr) : MStr := lit "11" ++ List.replicate 9 backslash ++ data

/-- A transaction with a ZTWORMHOLE, and one without. -/
def twoTransactions : List MStr :=
  [lit "08", wormholeLine (lit "w"), updateLine (lit "05") (lit "^a=1"), lit "09",
    lit "08", updateLine (lit "05") (lit "^b=1"), lit "09"]

/-- The update of the second transaction sees the first one's value. -/
theorem second_transaction_sees_first : ¬ ∀ (env : Env) (recs : List MStr), ∀ pre rec,
    pre ++ [rec] <+: recs → OwnContext env pre rec := by
  intro h
  have hown := h plainEnv twoTransactions (twoTransactions.take 6) (lit "09") (List.prefix_refl _)
    [] ⟨.set (lit "^b=1"), lit "w"⟩ [] (by decide) (by decide)
  revert hown
  decide

end YottaTest.Umjrnl
