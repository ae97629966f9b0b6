/-
  File:      YottaTest/Imptp/Outline.lean
  Subject:   An iteration cut short: what its nodes hold after any number of its steps, without
             triggers, and what they hold at its end.

  * `Stage.steps`, `steps` -- what commits at once (`flatten_steps`, `prefix_steps_cons`);
  * `Snap` -- what is common to all states of an iteration before `^andxarr` is set;
  * `Along` -- a property of every state along the steps, composed stage by stage;
  * `Reached`, `reached_of_prefix` -- an iteration of TP stages is in one of five kinds of state;
  * `Final`, `final_of_iteration` -- the state at the end, from any start that left the nodes
    below the iteration's own undefined.
-/
import Mathlib.Data.List.Infix
import YottaTest.Imptp.Progress

namespace YottaTest.Imptp

open YottaTest.Lib YottaTest.M

/-! ## 1. Steps -/

theorem flatten_stage (s : Stage) : s.steps.flatten = s.cmds := by
  unfold Stage.steps
  split
  · induction s.cmds with
    | nil => rfl
    | cons c cs ih => rw [List.map_cons, List.flatten_cons, ih]; rfl
  · rw [List.flatten_cons, List.flatten_nil, List.append_nil]

theorem steps_cons (s : Stage) (ss : List Stage) : steps (s :: ss) = s.steps ++ steps ss := rfl

theorem steps_append (ss ss' : List Stage) : steps (ss ++ ss') = steps ss ++ steps ss' :=
  List.flatMap_append

theorem flatten_steps : ∀ ss : List Stage, (steps ss).flatten = cmds ss
  | [] => rfl
  | s :: ss => by
      rw [steps_cons, List.flatten_append, flatten_stage, flatten_steps ss]
      rfl

/-- A run cut short is cut inside the first part, or after it. -/
theorem cut_append {α : Type} {l a b : List α} (h : l <+: a ++ b) :
    l <+: a ∨ ∃ q, l = a ++ q ∧ q <+: b := by
  obtain ⟨t, ht⟩ := h
  rcases List.append_eq_append_iff.1 ht with ⟨u, hu, -⟩ | ⟨u, hu, hb⟩
  · exact Or.inl ⟨u, hu.symm⟩
  · exact Or.inr ⟨u, hu, ⟨t, hb.symm⟩⟩

/-- What a cut inside a stage has done is a first part of the stage's commands. -/
theorem flatten_prefix_stage {s : Stage} {q : List (List Cmd)} (h : q <+: s.steps) :
    q.flatten <+: s.cmds := flatten_stage s ▸ h.flatten

/-- A fenced stage is done as a whole or not at all. -/
theorem fenced_prefix {s : Stage} (hs : s.fence ≠ 0) {q : List (List Cmd)} (h : q <+: s.steps) :
    q.flatten = [] ∨ q.flatten = s.cmds := by
  rw [Stage.steps, if_neg hs] at h
  obtain ⟨t, ht⟩ := h
  cases q with
  | nil => exact Or.inl rfl
  | cons a q =>
      rw [List.cons_append, List.cons.injEq] at ht
      obtain ⟨hq, -⟩ := List.append_eq_nil_iff.1 ht.2
      rw [ht.1, hq]
      exact Or.inr (List.append_nil _)

/-- A property holds in every state along the steps of some stages. -/
def Along (Q : Db → Prop) (ss : List Stage) (d : Db) : Prop :=
  ∀ q, q <+: steps ss → Q (run Cmd.exec q.flatten d)

theorem Along.nil {Q : Db → Prop} {d : Db} (h : Q d) : Along Q [] d := by
  intro q hq
  rw [List.prefix_nil.1 hq]
  exact h

/-- Stage by stage. -/
theorem Along.cons {Q : Db → Prop} {s : Stage} {ss : List Stage} {d : Db}
    (hs : ∀ q, q <+: s.steps → Q (run Cmd.exec q.flatten d))
    (hss : Along Q ss (run Cmd.exec s.cmds d)) : Along Q (s :: ss) d := by
  intro q hq
  rcases cut_append hq with hq | ⟨q', rfl, hq'⟩
  · exact hs q hq
  · rw [List.flatten_append, flatten_stage, run_append]
    exact hss q' hq'

/-- For a fenced stage only the states before and after count. -/
theorem Along.fenced {Q : Db → Prop} {s : Stage} {ss : List Stage} {d : Db} (hf : s.fence ≠ 0)
    (h0 : Q d) (h1 : Q (run Cmd.exec s.cmds d)) (hss : Along Q ss (run Cmd.exec s.cmds d)) :
    Along Q (s :: ss) d := by
  refine Along.cons (fun q hq => ?_) hss
  rcases fenced_prefix hf hq with h | h
  · rw [h]; exact h0
  · rw [h]; exact h1

/-! ## 2. The state of an iteration before `^andxarr` is set -/

section Snap

variable (cfg : Config) (jobno loop I : Nat)

/-- The row after stage 4 has done the first `m` places. -/
def rowTo (m J : Nat) : Option MStr := if 1 ≤ J ∧ J ≤ m then some (cfg.valj loop J) else none

/-- The row after stage 5. -/
def rowEnd (J : Nat) : Option MStr :=
  if 2 ≤ J ∧ J ≤ cfg.jobcnt then some (cfg.valj loop J) else none

theorem rowTo_succ (m : Nat) : Function.update (rowTo cfg loop m) (m + 1)
    (some (cfg.valj loop (m + 1))) = rowTo cfg loop (m + 1) := by
  funext J
  unfold rowTo
  by_cases h : J = m + 1
  · subst h
    rw [Function.update_self, if_pos ⟨by omega, by omega⟩]
  · rw [Function.update_of_ne h]
    exact if_congr (by omega) rfl rfl

theorem rowTo_end : Function.update (rowTo cfg loop cfg.jobcnt) 1 none = rowEnd cfg loop := by
  funext J
  unfold rowTo rowEnd
  by_cases h : J = 1
  · subst h
    rw [Function.update_self, if_neg (by omega)]
  · rw [Function.update_of_ne h]
    exact if_congr (by omega) rfl rfl

/-- The nodes of an iteration that checkdb looks at, with the row of stage 4 at `r` and the
    spanning nodes at `a`, `e`, `b`; `third` says that stage 3 is done. -/
structure Snap (third : Prop) (r : Nat → Option MStr) (a e b : Option MStr) (d : Db) : Prop where
  first : Holds (firstNodes cfg loop I) d
  third : third → Holds (thirdNodes cfg loop I) d
  row : Row cfg I r d
  spans : Spans I a e b d
  incomplete : d.get (numNumNode .andxarr jobno loop) = none

end Snap

section Frames

variable {cfg : Config} {jobno loop I : Nat} {cs : List Cmd} {d : Db}

theorem first_frame (h : Holds (firstNodes cfg loop I) d)
    (hcs : ∀ g ∈ gvns cs, g ∉ randoms ∧ g ≠ .jrandomvariableinimptpfillprogram) :
    Holds (firstNodes cfg loop I) (run Cmd.exec cs d) := by
  refine holds_frame h fun e he => untouched_of_gvn fun hg => ?_
  have hmem : e.1.gvn ∈ randoms ∨ e.1.gvn = .jrandomvariableinimptpfillprogram := by
    revert e
    simp [firstNodes, strNode, randoms, otherRandoms]
  rcases hmem with hm | hm
  · exact (hcs _ hg).1 hm
  · exact (hcs _ hg).2 hm

theorem third_frame (h : Holds (thirdNodes cfg loop I) d)
    (hcs : ∀ g ∈ gvns cs, g ∉ [Gvn.entp, .fntp, .gntp, .hntp, .intp]) :
    Holds (thirdNodes cfg loop I) (run Cmd.exec cs d) := by
  refine holds_frame h fun e he => untouched_of_gvn fun hg => hcs _ hg ?_
  revert e
  simp [thirdNodes, strNode]

theorem row_frame {r : Nat → Option MStr} (h : Row cfg I r d)
    (hcs : ∀ g ∈ gvns cs, g ∉ randoms) : Row cfg I r (run Cmd.exec cs d) := by
  intro g hg J
  rw [(untouched_of_gvn fun hm => hcs _ hm hg : Untouched _ cs).get]
  exact h g hg J

theorem spans_frame {a e b : Option MStr} (h : Spans I a e b d)
    (hcs : ∀ g ∈ gvns cs, g ∉ [Gvn.aspan, .espan, .bspan]) : Spans I a e b (run Cmd.exec cs d) := by
  have hu {g : Gvn} (hg : g ∈ [Gvn.aspan, .espan, .bspan]) : Untouched (numNode g I) cs :=
    untouched_of_gvn fun hm => hcs g hm hg
  constructor
  · rw [(hu (by decide)).get]
    exact h.aspan
  · rw [(hu (by decide)).get]
    exact h.espan
  · rw [(hu (by decide)).get]
    exact h.bspan

theorem incomplete_frame (h : d.get (numNumNode .andxarr jobno loop) = none)
    (hcs : Gvn.andxarr ∉ gvns cs) :
    (run Cmd.exec cs d).get (numNumNode .andxarr jobno loop) = none := by
  rw [(untouched_of_gvn hcs : Untouched _ cs).get]
  exact h

/-- Globals a snapshot does not look at. -/
def unseen : List Gvn := [.antp, .bntp, .cntp, .dntp, .dummy, .cntloop, .cntseq]

/-- A snapshot stays as it is under commands on other globals. -/
theorem Snap.frame {third : Prop} {r : Nat → Option MStr} {a e b : Option MStr}
    (h : Snap cfg jobno loop I third r a e b d) (cs : List Cmd)
    (hcs : ∀ g ∈ gvns cs, g ∈ unseen) :
    Snap cfg jobno loop I third r a e b (run Cmd.exec cs d) := by
  have hfirst : ∀ g ∈ unseen, g ∉ randoms ∧ g ≠ .jrandomvariableinimptpfillprogram := by decide
  have hthird : ∀ g ∈ unseen, g ∉ [Gvn.entp, .fntp, .gntp, .hntp, .intp] := by decide
  have hspans : ∀ g ∈ unseen, g ∉ [Gvn.aspan, .espan, .bspan] := by decide
  constructor
  · exact first_frame h.first fun g hg => hfirst g (hcs g hg)
  · exact fun ht => third_frame (h.third ht) fun g hg => hthird g (hcs g hg)
  · exact row_frame h.row fun g hg => (hfirst g (hcs g hg)).1
  · exact spans_frame h.spans fun g hg => hspans g (hcs g hg)
  · exact incomplete_frame h.incomplete fun hg => absurd (hcs _ hg) (by decide)

end Frames

/-! ## 3. The snapshot after each stage -/

section Stages

variable (cfg : Config) (jobno loop I : Nat) (ch : Chance) (ht : cfg.trigger = 0)
include ht

/-- Stage 1 on a database without nodes of the iteration. -/
theorem snap_stage1 : Snap cfg jobno loop I (1 ≤ 0) (rowTo cfg loop 0) none none none
    (run Cmd.exec (stage1 cfg jobno loop I ch) Table.empty) := by
  have hs := stage1_sets cfg jobno loop I ch ht
  have hnone {k : GNode} (hk : k.gvn ∉ [Gvn.jrandomvariableinimptpfillprogram, .lasti, .zdummy,
      .dummynoop]) (hk' : k.gvn ∈ randoms → k.subs.length ≠ 1) :
      (run Cmd.exec (stage1 cfg jobno loop I ch) Table.empty).get k = none := by
    refine get_eq_none (fun c hc h => ?_) rfl
    rcases hs c hc k h with ⟨hg, hlen⟩ | hg
    · exact hk' hg hlen
    · exact hk hg
  have hrandoms : ∀ g ∈ randoms, g ∉ [Gvn.jrandomvariableinimptpfillprogram, .lasti, .zdummy,
      .dummynoop] := by decide
  have hout {g : Gvn} (hg : g ∈ [Gvn.aspan, .espan, .bspan, .andxarr]) (t : List Sub) :
      (run Cmd.exec (stage1 cfg jobno loop I ch) Table.empty).get ⟨g, t⟩ = none := by
    have hg' : ∀ g ∈ [Gvn.aspan, .espan, .bspan, .andxarr],
        g ∉ [Gvn.jrandomvariableinimptpfillprogram, .lasti, .zdummy, .dummynoop] ∧
          g ∉ randoms := by decide
    exact hnone (hg' g hg).1 fun h => absurd h (hg' g hg).2
  constructor
  · exact stage1_first cfg jobno loop I ch ht _
  · exact fun h => absurd h (by omega)
  · intro g hg J
    have hr : rowTo cfg loop 0 J = none := if_neg (by omega)
    rw [hr]
    exact hnone (hrandoms g hg) fun _ => by simp [strNumNode]
  · exact ⟨hout (by decide) _, hout (by decide) _, hout (by decide) _⟩
  · exact hout (by decide) _

variable {cfg jobno loop I} {d : Db}

theorem snap_stage3 {third : Prop} {r : Nat → Option MStr} {a e b : Option MStr}
    (h : Snap cfg jobno loop I third r a e b d) :
    Snap cfg jobno loop I True r a e b (run Cmd.exec (stage3 cfg loop I) d) := by
  have hg := stage3_gvns cfg loop I ht
  constructor
  · exact first_frame h.first (by rw [hg]; decide)
  · exact fun _ => stage3_third cfg loop I ht d
  · exact row_frame h.row (by rw [hg]; decide)
  · exact spans_frame h.spans (by rw [hg]; decide)
  · exact incomplete_frame h.incomplete (by rw [hg]; decide)

theorem snap_stage4 {a e b : Option MStr} {m : Nat}
    (h : Snap cfg jobno loop I True (rowTo cfg loop m) a e b d) :
    Snap cfg jobno loop I True (rowTo cfg loop (m + 1)) a e b
      (run Cmd.exec (stage4 cfg loop I (m + 1)) d) := by
  have hg := stage4_gvns cfg loop I ht (m + 1)
  constructor
  · exact holds_frame h.first (stage4_first cfg loop I ht (m + 1))
  · exact fun h3 => third_frame (h.third h3) (by rw [hg]; decide)
  · rw [← rowTo_succ]
    exact stage4_row cfg loop I ht (m + 1) h.row
  · exact spans_frame h.spans (by rw [hg]; decide)
  · exact incomplete_frame h.incomplete (by rw [hg]; decide)

theorem snap_stage5 {a e b : Option MStr}
    (h : Snap cfg jobno loop I True (rowTo cfg loop cfg.jobcnt) a e b d) :
    Snap cfg jobno loop I True (rowEnd cfg loop) a e b
      (run Cmd.exec (stage5 cfg jobno loop I ch) d) := by
  have hg := stage5_gvns cfg jobno loop I ch ht
  have hsub {G : List Gvn} (hG : Gvn.dummynoop ∉ G ∧ ∀ g ∈ randoms, g ∉ G) :
      ∀ g ∈ gvns (stage5 cfg jobno loop I ch), g ∉ G := by
    intro g hm
    rcases hg g hm with rfl | hm
    · exact hG.1
    · exact hG.2 g hm
  constructor
  · exact holds_frame h.first (stage5_first cfg jobno loop I ch ht)
  · exact fun h3 => third_frame (h.third h3) (hsub (by decide))
  · rw [← rowTo_end]
    exact stage5_row cfg jobno loop I ch ht h.row
  · exact spans_frame h.spans (hsub (by decide))
  · exact incomplete_frame h.incomplete fun hm =>
      hsub (G := [.andxarr]) (by decide) _ hm List.mem_cons_self

theorem snap_stage6 {r : Nat → Option MStr} {a e b : Option MStr}
    (h : Snap cfg jobno loop I True r a e b d) :
    Snap cfg jobno loop I True r a e b (run Cmd.exec (stage6 cfg I) d) := by
  have hg := stage6_gvns cfg I ht
  have hsub {G : List Gvn} (hG : Gvn.jrandomvariableinimptpfillprogram ∉ G) :
      ∀ g ∈ gvns (stage6 cfg I), g ∉ G := fun g hm => (hg g hm).symm ▸ hG
  constructor
  · exact holds_frame h.first (stage6_first cfg loop I ht)
  · exact fun h3 => third_frame (h.third h3) (hsub (by decide))
  · exact row_frame h.row (hsub (by decide))
  · exact spans_frame h.spans (hsub (by decide))
  · exact incomplete_frame h.incomplete fun hm => absurd (hg _ hm) (by decide)

theorem snap_stage7 {r : Nat → Option MStr} {a e b : Option MStr}
    (h : Snap cfg jobno loop I True r a e b d) :
    Snap cfg jobno loop I True r (some (cfg.valPIECE loop)) (some (cfg.valPIECE loop))
      (some (dropBlanks (cfg.valPIECE loop))) (run Cmd.exec (stage7 cfg loop I) d) := by
  have hg := stage7_gvns cfg loop I ht
  constructor
  · exact first_frame h.first (by rw [hg]; decide)
  · exact fun h3 => third_frame (h.third h3) (by rw [hg]; decide)
  · exact row_frame h.row (by rw [hg]; decide)
  · exact stage7_spans cfg loop I ht d
  · exact incomplete_frame h.incomplete (by rw [hg]; decide)

/-- Stage 8, whole or cut short, changes nothing that checkdb looks at in an unfinished
    iteration. -/
theorem snap_stage8 {a e b : Option MStr} {cs : List Cmd}
    (h : Snap cfg jobno loop I True (rowEnd cfg loop) a e b d)
    (hcs : ∀ c ∈ cs, c ∈ stage8 cfg I ch) :
    Snap cfg jobno loop I True (rowEnd cfg loop) a e b (run Cmd.exec cs d) := by
  have hg : ∀ g ∈ gvns cs, g ∈ [Gvn.arandom, .antp, .bntp, .brandomv, .cntp, .dntp, .dummy] :=
    fun g hm => stage8_gvns cfg I ch ht g (gvns_subset hcs g hm)
  have hsub {G : List Gvn} (hG : ∀ g ∈ [Gvn.arandom, .antp, .bntp, .brandomv, .cntp, .dntp,
      .dummy], g ∉ G) : ∀ g ∈ gvns cs, g ∉ G := fun g hm => hG g (hg g hm)
  constructor
  · exact holds_frame h.first fun e he c hc => stage8_first cfg loop I ch ht e he c (hcs c hc)
  · exact fun h3 => third_frame (h.third h3) (hsub (by decide))
  · exact stage8_row cfg I ch ht h.row (if_neg (by omega)) hcs
  · exact spans_frame h.spans (hsub (by decide))
  · exact incomplete_frame h.incomplete fun hm => absurd (hg _ hm) (by decide)

theorem snap_stage10 {r : Nat → Option MStr}
    (h : Snap cfg jobno loop I True r (some (cfg.valPIECE loop)) (some (cfg.valPIECE loop))
      (some (dropBlanks (cfg.valPIECE loop))) d) :
    Snap cfg jobno loop I True r (some (cfg.newPIECE loop))
      (if cfg.targetpiece loop = 0 then none
        else some (setPiece bar [] (cfg.targetpiece loop) (cfg.subpiece loop)))
      (some (dropBlanks (cfg.newPIECE loop)))
      (run Cmd.exec (stage10 cfg jobno loop I) d) := by
  have hg := stage10_gvns cfg jobno loop I ht
  constructor
  · exact first_frame h.first (by rw [hg]; decide)
  · exact fun h3 => third_frame (h.third h3) (by rw [hg]; decide)
  · exact row_frame h.row (by rw [hg]; decide)
  · exact stage10_spans cfg jobno loop I ht h.spans
  · exact incomplete_frame h.incomplete (by rw [hg]; decide)

end Stages

/-! ## 4. An iteration cut short -/

section Iteration

variable (cfg : Config) (jobno loop I : Nat) (ch : Chance)

/-- The stages 2 to 9. -/
def middle : List Stage :=
  [⟨0, stage2 cfg loop I ch⟩, ⟨cfg.istp, stage3 cfg loop I⟩]
    ++ ((List.range cfg.jobcnt).map (fun j => ⟨cfg.istp, stage4 cfg loop I (j + 1)⟩)
    ++ [⟨cfg.istp, stage5 cfg jobno loop I ch⟩, ⟨cfg.istp, stage6 cfg I⟩,
      ⟨cfg.istp, stage7 cfg loop I⟩, ⟨0, stage8 cfg I ch⟩,
      ⟨if ch.flag = 1 then cfg.lfence else 0, stage9 cfg⟩])

/-- Stage 11 with its fence. -/
def lastStage : Stage := ⟨cfg.lfence, stage11 cfg jobno loop I⟩

theorem iteration_eq : iteration cfg jobno loop I ch =
    ⟨0, cfg.doDztrig 1⟩ :: ⟨cfg.istp, stage1 cfg jobno loop I ch⟩ ::
      (middle cfg jobno loop I ch ++
        [⟨cfg.istp, stage10 cfg jobno loop I⟩, lastStage cfg jobno loop I]) := by
  simp [iteration, middle, lastStage]

/-- The kinds of state an unfinished or finished iteration is in, the one between stage 10 and
    stage 11 apart. -/
inductive Reached (d : Db) : Prop
  | early (m : Nat) (hm : m ≤ cfg.jobcnt)
      (h : Snap cfg jobno loop I (1 ≤ m) (rowTo cfg loop m) none none none d)
  | killed (h : Snap cfg jobno loop I True (rowEnd cfg loop) none none none d)
  | spanned (h : Snap cfg jobno loop I True (rowEnd cfg loop) (some (cfg.valPIECE loop))
      (some (cfg.valPIECE loop)) (some (dropBlanks (cfg.valPIECE loop))) d)

/-- The state between stage 10 and stage 11. -/
def Replaced (d : Db) : Prop :=
  Snap cfg jobno loop I True (rowEnd cfg loop) (some (cfg.newPIECE loop))
    (if cfg.targetpiece loop = 0 then none
      else some (setPiece bar [] (cfg.targetpiece loop) (cfg.subpiece loop)))
    (some (dropBlanks (cfg.newPIECE loop))) d

/-- What stages 6 and 8 remove. -/
structure Cleared (d : Db) : Prop where
  jrandom : d.get (numNode .jrandomvariableinimptpfillprogram I) = none
  jrandom2 : d.get (numNumNode .jrandomvariableinimptpfillprogram I I) = none
  ntp : ∀ g ∈ ntps, d.get (strNode g (cfg.subs I)) = none

/-- **The state at the end of an iteration.** -/
structure Final (d : Db) : Prop where
  first : Holds (firstNodes cfg loop I) d
  third : Holds (thirdNodes cfg loop I) d
  row : Row cfg I (rowEnd cfg loop) d
  spans : Spans I (some (cfg.newPIECE loop))
    (if cfg.targetpiece loop = 0 then none
      else some (setPiece bar [] (cfg.targetpiece loop) (cfg.subpiece loop)))
    (some (dropBlanks (cfg.newPIECE loop))) d
  cleared : Cleared cfg I d
  complete : d.get (numNumNode .andxarr jobno loop) = some (.num I)

end Iteration

section Cut

variable {cfg : Config} {jobno loop I : Nat} {ch : Chance}

theorem Cleared.frame {d : Db} {cs : List Cmd} (h : Cleared cfg I d)
    (hcs : ∀ g ∈ gvns cs, g ∉ .jrandomvariableinimptpfillprogram :: ntps) :
    Cleared cfg I (run Cmd.exec cs d) := by
  have hu {g : Gvn} (t : List Sub) (hg : g ∈ .jrandomvariableinimptpfillprogram :: ntps) :
      (run Cmd.exec cs d).get ⟨g, t⟩ = d.get ⟨g, t⟩ :=
    (untouched_of_gvn fun hm => hcs g hm hg : Untouched ⟨g, t⟩ cs).get d
  constructor
  · exact (hu _ List.mem_cons_self).trans h.jrandom
  · exact (hu _ List.mem_cons_self).trans h.jrandom2
  · exact fun g hg => (hu _ (List.mem_cons_of_mem _ hg)).trans (h.ntp g hg)

variable (ht : cfg.trigger = 0)
include ht

/-- Stages 6 to 9 clear the nodes, from any database. -/
theorem cleared_stages (d : Db) : Cleared cfg I (run Cmd.exec (stage9 cfg)
    (run Cmd.exec (stage8 cfg I ch) (run Cmd.exec (stage7 cfg loop I)
      (run Cmd.exec (stage6 cfg I) d)))) := by
  have h8 : ∀ g ∈ gvns (stage8 cfg I ch), g ∉ [Gvn.jrandomvariableinimptpfillprogram] := by
    have hsub : ∀ g ∈ [Gvn.arandom, .antp, .bntp, .brandomv, .cntp, .dntp, .dummy],
        g ∉ [Gvn.jrandomvariableinimptpfillprogram] := by decide
    exact fun g hg => hsub g (stage8_gvns cfg I ch ht g hg)
  have h7 : Gvn.jrandomvariableinimptpfillprogram ∉ gvns (stage7 cfg loop I) := by
    rw [stage7_gvns cfg loop I ht]
    decide
  have hj (t : List Sub) (d : Db) : (run Cmd.exec (stage8 cfg I ch) (run Cmd.exec
      (stage7 cfg loop I) d)).get ⟨.jrandomvariableinimptpfillprogram, t⟩
        = d.get ⟨.jrandomvariableinimptpfillprogram, t⟩ := by
    have hu8 : Untouched ⟨.jrandomvariableinimptpfillprogram, t⟩ (stage8 cfg I ch) :=
      untouched_of_gvn fun hm => h8 _ hm List.mem_cons_self
    have hu7 : Untouched ⟨.jrandomvariableinimptpfillprogram, t⟩ (stage7 cfg loop I) :=
      untouched_of_gvn h7
    rw [hu8.get, hu7.get]
  refine Cleared.frame ⟨?_, ?_, ?_⟩ (by rw [stage9_gvns]; decide)
  · exact (hj _ _).trans (stage6_none cfg I ht (Or.inl rfl) d)
  · exact (hj _ _).trans (stage6_none cfg I ht (Or.inr rfl) d)
  · exact fun g hg => stage8_ntp cfg I ch ht _ hg

theorem snap_rows {a e b : Option MStr} : ∀ (n : Nat) {d : Db},
    Snap cfg jobno loop I True (rowTo cfg loop 0) a e b d →
    Snap cfg jobno loop I True (rowTo cfg loop n) a e b
      (run Cmd.exec (cmds ((List.range n).map fun j =>
        (⟨cfg.istp, stage4 cfg loop I (j + 1)⟩ : Stage))) d)
  | 0, _, h => h
  | n + 1, d, h => by
      rw [List.range_succ, List.map_append, cmds, List.flatMap_append, run_append]
      have ih := snap_rows n h
      have h4 := snap_stage4 ht ih
      simpa [cmds] using h4

variable (ch) in
/-- The state after stage 9, from a state after stage 1. -/
theorem snap_middle {d : Db}
    (h : Snap cfg jobno loop I (1 ≤ 0) (rowTo cfg loop 0) none none none d) :
    Snap cfg jobno loop I True (rowEnd cfg loop) (some (cfg.valPIECE loop))
        (some (cfg.valPIECE loop)) (some (dropBlanks (cfg.valPIECE loop)))
        (run Cmd.exec (cmds (middle cfg jobno loop I ch)) d) ∧
      Cleared cfg I (run Cmd.exec (cmds (middle cfg jobno loop I ch)) d) := by
  simp only [middle, cmds, List.flatMap_append, List.flatMap_cons, List.flatMap_nil,
    List.append_nil, run_append]
  have h2 := h.frame (stage2 cfg loop I ch) (by rw [stage2_gvns cfg loop I ch ht]; decide)
  have h4 := snap_rows ht cfg.jobcnt (snap_stage3 ht h2)
  rw [cmds] at h4
  have h7 := snap_stage7 ht (snap_stage6 ht (snap_stage5 ch ht h4))
  have h8 := snap_stage8 ch ht h7 fun _ hc => hc
  have h9 := h8.frame (stage9 cfg) (by rw [stage9_gvns]; decide)
  exact ⟨h9, cleared_stages ht _⟩

omit ht in
/-- Along the places of stage 4. -/
theorem along_rows (hi : cfg.istp ≠ 0) (ht : cfg.trigger = 0) {ss : List Stage} :
    ∀ (n m : Nat) {d : Db}, m + n = cfg.jobcnt →
    Snap cfg jobno loop I True (rowTo cfg loop m) none none none d →
    (∀ d', Snap cfg jobno loop I True (rowTo cfg loop cfg.jobcnt) none none none d' →
      Along (Reached cfg jobno loop I) ss d') →
    Along (Reached cfg jobno loop I) ((List.range' m n).map (fun j =>
      (⟨cfg.istp, stage4 cfg loop I (j + 1)⟩ : Stage)) ++ ss) d
  | 0, m, d, hm, h, hss => hss d (by rw [← hm]; exact h)
  | n + 1, m, d, hm, h, hss => by
      have h1 := snap_stage4 ht h
      have weaken {m : Nat} {d : Db}
          (h : Snap cfg jobno loop I True (rowTo cfg loop m) none none none d) :
          Snap cfg jobno loop I (1 ≤ m) (rowTo cfg loop m) none none none d :=
        ⟨h.first, fun _ => h.third trivial, h.row, h.spans, h.incomplete⟩
      exact Along.fenced hi (.early m (by omega) (weaken h)) (.early (m + 1) (by omega) (weaken h1))
        (along_rows hi ht n (m + 1) (by omega) h1 hss)

/-- **Along the stages 2 to 9**, the cuts inside the unfenced ones included. -/
theorem along_middle (hi : cfg.istp ≠ 0) {d : Db}
    (h : Snap cfg jobno loop I (1 ≤ 0) (rowTo cfg loop 0) none none none d) :
    Along (Reached cfg jobno loop I) (middle cfg jobno loop I ch) d := by
  have h2 {cs : List Cmd} (hcs : cs <+: stage2 cfg loop I ch) :
      Snap cfg jobno loop I (1 ≤ 0) (rowTo cfg loop 0) none none none (run Cmd.exec cs d) := by
    have hunseen : ∀ g ∈ ntps, g ∈ unseen := by decide
    refine h.frame cs fun g hg => hunseen g ?_
    rw [← stage2_gvns cfg loop I ch ht]
    exact gvns_subset (fun c hc => hcs.subset hc) g hg
  have h2' := h2 (List.prefix_refl _)
  have h3 := snap_stage3 ht h2'
  simp only [middle, List.cons_append, List.nil_append, List.range_eq_range']
  refine Along.cons (fun q hq => .early 0 (Nat.zero_le _) (h2 (flatten_prefix_stage hq))) ?_
  refine Along.fenced hi (.early 0 (Nat.zero_le _) h2') (.early 0 (Nat.zero_le _)
    ⟨h3.first, fun _ => h3.third trivial, h3.row, h3.spans, h3.incomplete⟩) ?_
  refine along_rows hi ht cfg.jobcnt 0 (Nat.zero_add _) h3 fun d4 h4 => ?_
  have h5 := snap_stage5 ch ht h4
  have h6 := snap_stage6 ht h5
  have h7 := snap_stage7 ht h6
  have h8 {cs : List Cmd} (hcs : cs <+: stage8 cfg I ch) :=
    snap_stage8 ch ht h7 fun c hc => hcs.subset hc
  have h9 {cs : List Cmd} (hcs : cs <+: stage9 cfg) :=
    (h8 (List.prefix_refl _)).frame cs fun g hg => by
      have hm := gvns_subset (fun c hc => hcs.subset hc) g hg
      rw [stage9_gvns] at hm
      have hunseen : ∀ g ∈ [Gvn.cntloop, .cntseq], g ∈ unseen := by decide
      exact hunseen g hm
  have h4' : Reached cfg jobno loop I d4 := .early cfg.jobcnt (Nat.le_refl _)
    ⟨h4.first, fun _ => h4.third trivial, h4.row, h4.spans, h4.incomplete⟩
  refine Along.fenced hi h4' (.killed h5) ?_
  refine Along.fenced hi (.killed h5) (.killed h6) ?_
  refine Along.fenced hi (.killed h6) (.spanned h7) ?_
  refine Along.cons (fun q hq => .spanned (h8 (flatten_prefix_stage hq))) ?_
  refine Along.cons (fun q hq => .spanned (h9 (flatten_prefix_stage hq))) ?_
  exact Along.nil (.spanned (h9 (List.prefix_refl _)))

omit ht in
theorem stage11_gvns (ht : cfg.trigger = 0) : ∀ g ∈ gvns (stage11 cfg jobno loop I),
    g ∈ .lasti :: .andxarr :: otherNdxarrs := by
  intro g hg
  rw [stage11_eq cfg jobno loop I ht] at hg
  by_cases h0 : cfg.istp = 0
  · simpa [h0, gvns, otherNdxarrs, setNum, numNumNode, numNode, Cmd.target, or_comm, or_assoc,
      or_left_comm] using hg
  · refine List.mem_cons_of_mem _ ?_
    simpa [h0, gvns, otherNdxarrs, setNum, numNumNode, Cmd.target] using hg

/-- **From `^andxarr` on an iteration is complete**, whatever else of stage 11 is done. -/
theorem final_of_replaced {d : Db} (h : Replaced cfg jobno loop I d) (hc : Cleared cfg I d)
    {cs : List Cmd} (hcs : cs <+: stage11 cfg jobno loop I) (hne : cs ≠ []) :
    Final cfg jobno loop I (run Cmd.exec cs d) := by
  have hg : ∀ g ∈ gvns cs, g ∈ .lasti :: .andxarr :: otherNdxarrs := fun g hm =>
    stage11_gvns ht g (gvns_subset (fun c hc => hcs.subset hc) g hm)
  have hsub {G : List Gvn} (hG : ∀ g ∈ Gvn.lasti :: .andxarr :: otherNdxarrs, g ∉ G) :
      ∀ g ∈ gvns cs, g ∉ G := fun g hm => hG g (hg g hm)
  obtain ⟨c, cs', rfl⟩ := List.exists_cons_of_ne_nil hne
  have hc1 : c = setNum (numNumNode .andxarr jobno loop) I := by
    rw [stage11_eq cfg jobno loop I ht] at hcs
    obtain ⟨t, ht'⟩ := hcs
    exact (List.cons.inj ht').1
  constructor
  · exact first_frame h.first fun g hm =>
      ⟨hsub (by decide) g hm, fun he => hsub (G := [.jrandomvariableinimptpfillprogram])
        (by decide) g hm (he ▸ List.mem_cons_self)⟩
  · exact third_frame (h.third trivial) (hsub (by decide))
  · exact row_frame h.row (hsub (by decide))
  · exact spans_frame h.spans (hsub (by decide))
  · exact hc.frame (hsub (by decide))
  · refine get_of_set (fun b hb hw => ?_) (hc1 ▸ List.mem_cons_self) d
    have hb := hcs.subset hb
    rw [stage11_eq cfg jobno loop I ht, List.cons_append, List.mem_cons] at hb
    rcases hb with rfl | hb
    · rfl
    · have hgb : b.target.map (·.gvn) ≠ some .andxarr := by
        rcases List.mem_append.1 hb with hb | hb
        · obtain ⟨g, hgm, rfl⟩ := List.mem_map.1 hb
          have hother : ∀ g ∈ otherNdxarrs, some g ≠ some Gvn.andxarr := by decide
          exact hother g hgm
        · split at hb
          · have hl : some Gvn.lasti ≠ some Gvn.andxarr := by decide
            rw [List.mem_singleton.1 hb]
            exact hl
          · cases hb
      obtain ⟨n, hn, hcov⟩ := covers_of_writes hw
      rw [hn] at hgb
      exact absurd (congrArg some (Node.covers_iff.1 hcov).1) hgb

omit ht in
/-- A stage that has begun has done something. -/
theorem flatten_ne_nil {s : Stage} (hs : s.cmds ≠ []) {q : List (List Cmd)} (hq : q <+: s.steps)
    (hne : q ≠ []) : q.flatten ≠ [] := by
  unfold Stage.steps at hq
  obtain ⟨t, ht⟩ := hq
  obtain ⟨a, q', rfl⟩ := List.exists_cons_of_ne_nil hne
  split at ht
  · obtain ⟨c, cs, hc⟩ := List.exists_cons_of_ne_nil hs
    rw [hc, List.map_cons, List.cons_append, List.cons.injEq] at ht
    simp [ht.1]
  · rw [List.cons_append, List.cons.injEq] at ht
    simp [ht.1, hs]

/-- Once stage 11 has begun the iteration is complete. -/
theorem final_of_lastStage {d : Db} (h : Replaced cfg jobno loop I d) (hc : Cleared cfg I d)
    {q : List (List Cmd)} (hq : q <+: (lastStage cfg jobno loop I).steps) (hne : q ≠ []) :
    Final cfg jobno loop I (run Cmd.exec q.flatten d) := by
  have hcmds : (lastStage cfg jobno loop I).cmds = stage11 cfg jobno loop I := rfl
  have hpre := flatten_prefix_stage hq
  have hne' : q.flatten ≠ [] := by
    refine flatten_ne_nil ?_ hq hne
    rw [hcmds, stage11_eq cfg jobno loop I ht]
    exact List.cons_ne_nil _ _
  rw [hcmds] at hpre
  exact final_of_replaced ht h hc hpre hne'

/-- With TP stages the first step is stage 1, and the last but those of stage 11 is stage 10. -/
theorem steps_iteration (hi : cfg.istp ≠ 0) (jobno loop I : Nat) (ch : Chance) :
    steps (iteration cfg jobno loop I ch) = stage1 cfg jobno loop I ch ::
      (steps (middle cfg jobno loop I ch) ++
        stage10 cfg jobno loop I :: (lastStage cfg jobno loop I).steps) := by
  have h0 : (⟨0, cfg.doDztrig 1⟩ : Stage).steps = [] := by
    simp [Stage.steps, Config.doDztrig, Config.dztrig, ht]
  have hsteps (cs : List Cmd) : (⟨cfg.istp, cs⟩ : Stage).steps = [cs] := if_neg hi
  have hlast : steps [lastStage cfg jobno loop I] = (lastStage cfg jobno loop I).steps :=
    List.append_nil _
  rw [iteration_eq, steps_cons, steps_cons, steps_append, steps_cons, h0, hsteps, hsteps, hlast]
  rfl

/-- After stage 9, and after stage 10. -/
theorem replaced_of_steps (jobno loop I : Nat) (ch : Chance) :
    Replaced cfg jobno loop I (run Cmd.exec (stage10 cfg jobno loop I)
        (run Cmd.exec (cmds (middle cfg jobno loop I ch))
          (run Cmd.exec (stage1 cfg jobno loop I ch) Table.empty))) ∧
      Cleared cfg I (run Cmd.exec (stage10 cfg jobno loop I)
        (run Cmd.exec (cmds (middle cfg jobno loop I ch))
          (run Cmd.exec (stage1 cfg jobno loop I ch) Table.empty))) := by
  have hm := snap_middle ch ht (snap_stage1 cfg jobno loop I ch ht)
  generalize run Cmd.exec (cmds (middle cfg jobno loop I ch))
    (run Cmd.exec (stage1 cfg jobno loop I ch) Table.empty) = d9 at hm ⊢
  refine ⟨snap_stage10 ht hm.1, hm.2.frame ?_⟩
  rw [stage10_gvns cfg jobno loop I ht]
  decide

/-- **An iteration of TP stages, cut anywhere after stage 1**, is in one of the states of
    `Reached`, or between stage 10 and stage 11, or complete. -/
theorem reached_of_prefix (hi : cfg.istp ≠ 0) {pre rest : List (List Cmd)}
    (h : pre ++ rest = steps (iteration cfg jobno loop I ch)) (hne : pre ≠ []) :
    Reached cfg jobno loop I (run Cmd.exec pre.flatten Table.empty) ∨
      (rest = (lastStage cfg jobno loop I).steps ∧
        Replaced cfg jobno loop I (run Cmd.exec pre.flatten Table.empty)) ∨
      Final cfg jobno loop I (run Cmd.exec pre.flatten Table.empty) := by
  rw [steps_iteration ht hi] at h
  obtain ⟨a, q, rfl⟩ := List.exists_cons_of_ne_nil hne
  rw [List.cons_append, List.cons.injEq] at h
  obtain ⟨rfl, h⟩ := h
  have h1 := snap_stage1 cfg jobno loop I ch ht
  have h10 := replaced_of_steps ht jobno loop I ch
  have hm := (snap_middle ch ht h1).1
  rw [List.flatten_cons, run_append]
  generalize run Cmd.exec (stage1 cfg jobno loop I ch) Table.empty = d1 at h1 h10 hm ⊢
  rcases cut_append ⟨rest, h⟩ with hq | ⟨q', rfl, hq'⟩
  · exact Or.inl (along_middle ht hi h1 q hq)
  · rw [List.append_assoc, List.append_cancel_left_eq] at h
    rw [List.flatten_append, flatten_steps, run_append]
    generalize run Cmd.exec (cmds (middle cfg jobno loop I ch)) d1 = d9 at h10 hm ⊢
    cases q' with
    | nil => exact Or.inl (.spanned hm)
    | cons b q' =>
        rw [List.cons_append, List.cons.injEq] at h
        obtain ⟨rfl, hlast⟩ := h
        rw [List.flatten_cons, run_append]
        cases q' with
        | nil => exact Or.inr (Or.inl ⟨hlast, h10.1⟩)
        | cons b' q' =>
            exact Or.inr (Or.inr (final_of_lastStage ht h10.1 h10.2 ⟨rest, hlast⟩
              (List.cons_ne_nil _ _)))

/-- **The end of an iteration**, from a database without nodes of its own. -/
theorem final_of_iteration : Final cfg jobno loop I
    (run Cmd.exec (cmds (iteration cfg jobno loop I ch)) Table.empty) := by
  have h0 : cfg.doDztrig 1 = [] := by simp [Config.doDztrig, Config.dztrig, ht]
  have h10 := replaced_of_steps ht jobno loop I ch
  have hrun : run Cmd.exec (cmds (iteration cfg jobno loop I ch)) Table.empty
      = run Cmd.exec (stage11 cfg jobno loop I) (run Cmd.exec (stage10 cfg jobno loop I)
        (run Cmd.exec (cmds (middle cfg jobno loop I ch))
          (run Cmd.exec (stage1 cfg jobno loop I ch) Table.empty))) := by
    rw [iteration_eq]
    simp only [cmds, List.flatMap_cons, List.flatMap_append, List.flatMap_nil, h0,
      List.nil_append, List.append_nil, run_append, lastStage]
  rw [hrun]
  refine final_of_replaced ht h10.1 h10.2 (List.prefix_refl _) ?_
  rw [stage11_eq cfg jobno loop I ht]
  exact List.cons_ne_nil _ _

end Cut

end YottaTest.Imptp
