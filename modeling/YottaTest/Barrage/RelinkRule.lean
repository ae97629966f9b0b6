/-
  File:      YottaTest/Barrage/RelinkRule.lean
  Subject:   The analyzer's cycle comparison is the relink rule.

  The rule speaks of a run, not of counters: a process executing a routine links it if it has no
  link of it, or if its link is starred and one of the starred directories its last `$zroutines`
  lists, up to the one it linked from, was bumped since the link by something other than a load of
  its own.

  * `RelinkRule` -- the rule, over the record of the run;
  * `relinkBumps_ne_zero_iff` -- the counter behind the comparison is such an event;
  * **`simulateExec_iff_relinkRule`** -- an execution relinks exactly by the rule.
-/
import YottaTest.Barrage.Invariant

namespace YottaTest.Barrage

variable {Pid Dir Name : Type} [DecidableEq Pid] [DecidableEq Dir] [DecidableEq Name]

/-- **The relink rule.** `sinceLink` are the events since the process's link of the routine, and
    `Event.relinks` excludes the loads the process performed itself; the directories are those of
    the list the process logged last, not of any array. -/
def RelinkRule (s : State Pid Dir Name) (p : Pid) (n : Name) : Prop :=
  (s.procs p).rtns.get n = none ∨
    ∃ r dir log, (s.procs p).rtns.get n = some r ∧ r.starred = some true ∧ r.dir = some dir ∧
      s.lastZro p = some log ∧
      ∃ d ∈ starredUpTo dir log, ∃ e ∈ sinceLink p n s.events, e.relinks p n d = true

theorem relinkBumps_ne_zero_iff (p : Pid) (n : Name) (d : Dir) (es : List (Event Pid Dir Name)) :
    relinkBumps p n d es ≠ 0 ↔ ∃ e ∈ sinceLink p n es, e.relinks p n d = true := by
  unfold relinkBumps
  rw [← Nat.pos_iff_ne_zero, List.countP_pos_iff]

/-- **An execution links first exactly when the rule asks for it**, in every state the analyzer
    reaches, for every process and routine. -/
theorem simulateExec_iff_relinkRule {s : State Pid Dir Name} (h : Reachable s) (p : Pid)
    (time : Nat) (n : Name) :
    ∃ b, needsLink s p n = .ok b ∧
      simulateExec s p time n = (if b then relink s p time n else .ok s) ∧
      (b = true ↔ RelinkRule s p n) := by
  rcases needsLink_eq h.inv n with ⟨hget, hn⟩ | ⟨r, hget, hst, hn⟩ |
    ⟨r, dir, log, hget, hst, hdir, hlast, hn⟩
  · refine ⟨true, hn, by simp only [simulateExec, hn, bind, Except.bind], ?_⟩
    exact ⟨fun _ => Or.inl hget, fun _ => rfl⟩
  · refine ⟨false, hn, by simp only [simulateExec, hn, bind, Except.bind], ?_⟩
    refine ⟨fun h => absurd h (by simp), fun hrule => ?_⟩
    rcases hrule with hnone | ⟨r', -, -, hget', hst', -⟩
    · rw [hget] at hnone
      cases hnone
    · rw [hget] at hget'
      cases hget'
      rw [hst] at hst'
      cases hst'
  · refine ⟨_, hn, by simp only [simulateExec, hn, bind, Except.bind], ?_⟩
    rw [decide_eq_true_eq]
    constructor
    · rintro ⟨d, hd, hb⟩
      exact Or.inr ⟨r, dir, log, hget, hst, hdir, hlast, d, hd,
        (relinkBumps_ne_zero_iff p n d s.events).1 hb⟩
    · rintro (hnone | ⟨r', dir', log', hget', -, hdir', hlast', d, hd, he⟩)
      · rw [hget] at hnone
        cases hnone
      · rw [hget] at hget'
        cases hget'
        rw [hdir] at hdir'
        cases hdir'
        rw [hlast] at hlast'
        cases hlast'
        exact ⟨d, hd, (relinkBumps_ne_zero_iff p n d s.events).2 he⟩

/-- The rule at a starred link whose cycle another process has bumped since: the routine is linked
    again. -/
theorem simulateExec_iff_relinkRule_bumped : ∃ s : State Nat Nat Nat,
    replayLog State.init linkedThenBumped = .ok s ∧ (s.rtn 7 3).starred = some true ∧
      needsLink s 7 3 = .ok true ∧ simulateExec s 7 6 3 = relink s 7 6 3 ∧ RelinkRule s 7 3 := by
  obtain ⟨s, hs, hreach, -, hstarred, -⟩ := reachable_linkedThenBumped
  have hneeds : needsLink s 7 3 = .ok true := by
    cases hs
    rfl
  obtain ⟨b, hb, hexec, hrule⟩ := simulateExec_iff_relinkRule hreach 7 6 3
  obtain rfl : b = true := Except.ok.inj (hb.symm.trans hneeds)
  exact ⟨s, hs, hstarred, hneeds, hexec, hrule.1 rfl⟩

end YottaTest.Barrage
