/-
  File:      YottaTest/Go/Answer.lean
  Subject:   What threeenp1B1.go leaves when all goroutines of a line have finished.

  * `Prog.Inv`, `inv_of_reach` -- the invariants over a whole run of the program;
  * `Answer`, `threeenp1_answer` -- the sequential answer, whatever the goroutines' order.
-/
import YottaTest.Go.Walk

namespace YottaTest.Go

open Function YottaTest.Lib

/-! ## 1. All lines -/

/-- What holds at the head of the loop over the lines, and while a line runs. -/
def Prog.Inv : Prog → Prop
  | .ready db => db.Fresh
  | .running l r => 0 < l.endnum → Blocks l.endnum r.db.limits ∧ Numbers l r ∧
      ((∀ g < l.streams, r.pc g ≠ .panicked) → Claims l r)

theorem inv_of_step {p p' : Prog} (hp : p.Inv) (h : Step p p') : p'.Inv := by
  cases h with
  | line db l =>
      exact fun hend => ⟨launch_blocks l db hend, launch_numbers l hp, fun _ => launch_claims l db⟩
  | @act l r g hg hpanic _ =>
      intro hend
      obtain ⟨hb, hn, hc⟩ := hp hend
      refine ⟨?_, numbers_act hb hn hg, fun hpanic' => claims_act hb (hc hpanic) hg (hpanic' g hg)⟩
      rw [run_grows.limits]
      exact hb
  | reset => exact ⟨fun _ => rfl, rfl, rfl⟩

theorem inv_of_reach {p : Prog} (h : Reach p) : p.Inv := by
  induction h with
  | start db => exact ⟨fun _ => rfl, rfl, rfl⟩
  | step _ hs ih => exact inv_of_step ih hs

/-! ## 2. The answer -/

/-- What a line is to leave in the database. The way of a number ends with 1, so that of 1 itself
    has no step. -/
structure Answer (l : Line) (db : Db) : Prop where
  /-- `^step` is there for the numbers on the ways of 2 to `endnum`, 1 excepted, ... -/
  step_defined : ∀ u, (db.step u).isSome ↔
    2 ≤ u ∧ ∃ s, 2 ≤ s ∧ s ≤ l.endnum ∧ Visits collatz 1 s u
  /-- ... and is the number of steps up to 1. -/
  step_takes : ∀ u k, db.step u = some k → Takes collatz 1 k u
  result : ∃ k, db.result = some k ∧
    (∃ s, 1 ≤ s ∧ s ≤ l.endnum ∧ Takes collatz 1 k s) ∧
    ∀ s k', 1 ≤ s → s ≤ l.endnum → Takes collatz 1 k' s → k' ≤ k
  highest : ∃ v, db.highest = some v ∧
    (∃ s, 1 ≤ s ∧ s ≤ l.endnum ∧ s ≠ 1 ∧ Visits collatz 1 (collatz s) v) ∧
    ∀ s v', 1 ≤ s → s ≤ l.endnum → s ≠ 1 → Visits collatz 1 (collatz s) v' → v' ≤ v

/-- The goroutines of a line are through. -/
structure Through (l : Line) (r : Run) : Prop where
  two_le : 2 ≤ l.endnum
  finished : ∀ g < l.streams, r.pc g = .finished
  blocks : Blocks l.endnum r.db.limits
  numbers : Numbers l r
  claims : Claims l r

section Through

variable {l : Line} {r : Run}

theorem through_of_reach (h : Reach (.running l r)) (hend : 2 ≤ l.endnum)
    (hfin : ∀ g < l.streams, r.pc g = .finished) : Through l r := by
  obtain ⟨hb, hn, hc⟩ := inv_of_reach h (by omega)
  refine ⟨hend, hfin, hb, hn, hc fun g hg => ?_⟩
  rw [hfin g hg]
  nofun

/-- Every block has been done, by one goroutine. -/
theorem Through.processed (h : Through l r) {b : Nat} (hb : (r.db.limits b).isSome) :
    ∃ g < l.streams, (b, g) ∈ r.processed ∧ ∀ g', (b, g') ∈ r.processed → g' = g := by
  obtain ⟨m, hm⟩ := h.blocks.numbered
  have hpos := ((hm b).mp hb).1
  have hzero : (r.pc 0).Passed b := by
    rw [h.finished 0 l.streams_pos]
    trivial
  obtain ⟨g, hg, ho⟩ := h.claims.owned (h.claims.passed hpos hzero hb)
  have hdone : (b, g) ∈ r.processed := ho.resolve_left fun hblk => by
    rw [h.finished g hg] at hblk
    cases hblk
  exact ⟨g, hg, hdone, fun g' hg' => h.claims.unique (Or.inr hg') (Or.inr hdone)⟩

theorem Through.known (h : Through l r) {s : Nat} (hs : 2 ≤ s) (hle : s ≤ l.endnum) :
    r.db.Known s := by
  obtain ⟨b, e, hb, hstart, hse⟩ := h.blocks.cover (by omega) hle
  obtain ⟨g, _, hdone, _⟩ := h.processed (Option.isSome_of_eq_some hb)
  exact (h.numbers.done hdone e hb s hstart hse).resolve_left (by omega)

theorem Through.pending (h : Through l r) (g : Nat) : (r.pc g).pending = [] := by
  rcases Nat.lt_or_ge g l.streams with hg | hg
  · rw [h.finished g hg]
    rfl
  · rw [h.claims.outside g hg]
    rfl

theorem Through.step_defined (h : Through l r) (u : Nat) : (r.db.step u).isSome ↔
    2 ≤ u ∧ ∃ s, 2 ≤ s ∧ s ≤ l.endnum ∧ Visits collatz 1 s u := by
  constructor
  · intro hu
    obtain ⟨s, hs, hle, hv⟩ := h.numbers.onWay hu
    have hne := h.numbers.ne_one hu
    have hpos := hv.mem (p := fun u => 0 < u) (by omega) fun w hw => Or.inr (collatz_pos hw)
    exact ⟨by omega, s, hs, hle, hv⟩
  · rintro ⟨hu, s, hs, hle, hv⟩
    refine (hv.mem (p := r.db.Known) (h.known hs hle) fun w hw => ?_).resolve_left (by omega)
    refine (h.numbers.closed hw).imp_right fun hc => hc.resolve_right ?_
    rintro ⟨g, hg⟩
    rw [h.pending] at hg
    cases hg

theorem Through.takes_le (h : Through l r) {s k : Nat} (hs : 1 ≤ s) (hle : s ≤ l.endnum)
    (hk : Takes collatz 1 k s) : k ≤ r.db.result.getD 0 := by
  rcases Nat.lt_or_eq_of_le hs with hs | rfl
  · obtain ⟨k', hk'⟩ := Option.isSome_iff_exists.mp (h.known hs hle)
    rw [hk.unique (h.numbers.takes hk')]
    exact h.numbers.le_result hk'
  · rw [hk.unique .zero]
    exact Nat.zero_le _

theorem Through.seen_le (h : Through l r) {s v : Nat} (hs : 2 ≤ s) (hle : s ≤ l.endnum)
    (hv : Visits collatz 1 (collatz s) v) : v ≤ r.db.highest.getD 0 := by
  obtain ⟨g, hg, hvg⟩ := h.numbers.high (h.known hs hle) hv
  have hinv := h.numbers.inv g
  rw [h.finished g hg] at hinv
  exact Nat.le_trans hvg hinv

theorem Through.answer (h : Through l r) : Answer l r.db where
  step_defined := h.step_defined
  step_takes u k hk := h.numbers.takes hk
  result := by
    have hpos : 1 ≤ r.db.result.getD 0 :=
      h.takes_le (s := 2) (by omega) h.two_le (.succ (by decide) .zero)
    obtain ⟨s, hs, hle, hk⟩ := h.numbers.result.resolve_left (by omega)
    cases hres : r.db.result with
    | none =>
        rw [hres] at hpos
        cases hpos
    | some k =>
        have hget : r.db.result.getD 0 = k := by
          rw [hres]
          rfl
        rw [hget] at hk
        refine ⟨k, rfl, ⟨s, by omega, hle, hk⟩, fun s' k' hs' hle' hk' => ?_⟩
        rw [← hget]
        exact h.takes_le hs' hle' hk'
  highest := by
    have hpos : 1 ≤ r.db.highest.getD 0 := h.seen_le (s := 2) (by omega) h.two_le (.refl _)
    obtain ⟨s, hs, hle, hv⟩ := h.numbers.highest.resolve_left (by omega)
    cases hhigh : r.db.highest with
    | none =>
        rw [hhigh] at hpos
        cases hpos
    | some v =>
        have hget : r.db.highest.getD 0 = v := by
          rw [hhigh]
          rfl
        rw [hget] at hv
        refine ⟨v, rfl, ⟨s, by omega, hle, by omega, hv⟩, fun s' v' hs' hle' hne hv' => ?_⟩
        rw [← hget]
        exact h.seen_le (by omega) hle' hv'

end Through

/-- When all goroutines of a line have finished, in whatever order they went and after whatever
    lines, the database has the sequential answer, and every block was done once. -/
theorem threeenp1_answer {l : Line} {r : Run} (h : Reach (.running l r)) (hend : 2 ≤ l.endnum)
    (hfin : ∀ g < l.streams, r.pc g = .finished) :
    Answer l r.db ∧ r.processed.Nodup ∧ ∀ b, (r.db.limits b).isSome →
      ∃ g < l.streams, (b, g) ∈ r.processed ∧ ∀ g', (b, g') ∈ r.processed → g' = g := by
  have hthrough := through_of_reach h hend hfin
  exact ⟨hthrough.answer, hthrough.claims.nodup, fun b hb => hthrough.processed hb⟩

/-- Goroutines take turns, as long as none has panicked; one that has finished has no more turns. -/
def Run.turns (l : Line) (r : Run) : List Nat → Option Run
  | [] => some r
  | g :: gs =>
      if g < l.streams ∧ (∀ g' < l.streams, r.pc g' ≠ .panicked) ∧ r.pc g ≠ .finished then (r.act g).turns l gs
      else none

theorem reach_turns {l : Line} : ∀ {gs : List Nat} {r r' : Run}, Reach (.running l r) →
    r.turns l gs = some r' → Reach (.running l r')
  | [], _, _, h, hgo => Option.some.inj hgo ▸ h
  | g :: gs, r, r', h, hgo => by
      rw [Run.turns] at hgo
      split at hgo
      · rename_i hturn
        exact reach_turns (.step h (.act hturn.1 hturn.2.1 hturn.2.2)) hgo
      · cases hgo

/-- A database without nodes. -/
def emptyDb : Db := ⟨fun _ => none, fun _ => 0, fun _ => none, none, none, none, none⟩

/-- The line `3 2 1`: three blocks of one number for two goroutines. -/
def lineThree : Line := ⟨3, 2, 1, by decide⟩

/-- Its goroutines go one after the other until the second one has finished. -/
def turnsThree : List Nat := (List.replicate 13 [0, 1]).flatten ++ List.replicate 15 0

/-- Its run on an empty database. -/
def runThree : Run :=
  ((launch lineThree emptyDb.afresh).turns lineThree turnsThree).get (by decide +kernel)

theorem threeenp1_answer_three : runThree.processed = [(1, 0), (2, 1), (3, 0)] ∧
    Answer lineThree runThree.db ∧ runThree.processed.Nodup ∧ ∀ b, (runThree.db.limits b).isSome →
      ∃ g < lineThree.streams, (b, g) ∈ runThree.processed ∧
        ∀ g', (b, g') ∈ runThree.processed → g' = g :=
  ⟨by decide +kernel,
    threeenp1_answer (reach_turns (.step (.start emptyDb) (.line _ lineThree)) (Option.some_get _).symm)
      (by decide) (by decide +kernel)⟩

end YottaTest.Go
