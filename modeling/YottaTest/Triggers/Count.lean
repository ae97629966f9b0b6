/-
  File:      YottaTest/Triggers/Count.lean
  Subject:   `#TNCOUNT` against the number of triggers of a global.

  The creation of a first trigger for an xecute string increments `#TNCOUNT` and then overwrites it
  with `#SEQNUM`. The two agree as long as no number of the sequence is free.

  * `CountOk` -- the count is right, the global goes with its last trigger, names are unique;
  * **`tncount_exact_iff`** -- the count is right all along a file exactly if every line that
    creates a first trigger finds all numbers of the sequence in use;
  * `tncount_overwritten` -- four lines after which it is not.
-/
import YottaTest.Triggers.Gentrigload

namespace YottaTest.Triggers

open YottaTest.M YottaTest.Lib

/-- **The count of a global is right.** -/
structure CountOk (g : Gbl) : Prop where
  count : g.tncount = g.trigs.size
  /-- `hasht(gvn)` is there exactly as long as there is a trigger. -/
  dropped : g.seqnum = 0 ↔ g.trigs.size = 0
  /-- No two triggers have one name. -/
  names : ∀ x y i, (g.trigs.get (x, i)).isSome → (g.trigs.get (y, i)).isSome → x = y

theorem countOk_iff {g : Gbl} (h : g.WF) : CountOk g ↔ g.excess = 0 := by
  constructor
  · intro hok
    rw [Gbl.excess, hok.count, sub_self]
  · intro hz
    have hcount : g.tncount = g.trigs.size := by
      unfold Gbl.excess at hz
      omega
    refine ⟨hcount, ⟨fun hs => ?_, fun hs => ?_⟩, fun x y i hx hy => ?_⟩
    · have := h.size_le
      omega
    · exact h.dropped (by omega)
    · exact h.consistent.names x y i (Option.isSome_iff_ne_none.1 hx)
        (Option.isSome_iff_ne_none.1 hy)

/-- **When the count is right**: all along a file, exactly if each line that creates the first
    trigger of an xecute string finds as many triggers of its global as names have been given. -/
theorem tncount_exact_iff (lines : List Line) :
    (∀ pre st, pre <+: lines → gentrigload (pre.map Line.text) = some st →
      ∀ gvn, CountOk (st.gbl gvn)) ↔
    ∀ pre l st, pre ++ [l] <+: lines → gentrigload (pre.map Line.text) = some st →
      Creates (st.gbl l.gvn.1) l.fields →
        (st.gbl l.gvn.1).trigs.size = (st.gbl l.gvn.1).seqnum := by
  constructor
  · intro hok pre l st hpre hst hc
    obtain ⟨o, -, hline, hspec, -, hcreates, -⟩ := loadLine_spec (inv_of_gentrigload hst) l
    have hnew := hok (pre ++ [l]) _ hpre ((gentrigload_snoc hst l).trans hline) l.fields.gvn
    rw [gbl_record, if_pos rfl, countOk_iff hspec.wf, hcreates hc] at hnew
    have heq : l.fields.gvn = l.gvn.1 := rfl
    rw [heq] at hnew
    omega
  · intro hcond pre st hpre hst
    have hinv := inv_of_gentrigload hst
    refine fun gvn => (countOk_iff (hinv.wf gvn)).2 ?_
    -- the excess is 0 at the start, and no line of the file makes it another
    induction pre using List.reverseRecOn generalizing st gvn with
    | nil =>
        obtain rfl : State.start = st := Option.some.inj hst
        rfl
    | append_singleton pre l ih =>
        obtain ⟨st₁, hst₁, hinv₁⟩ := gentrigload_inv pre
        have ih := ih st₁ ((List.prefix_append pre [l]).trans hpre) hst₁ hinv₁
        obtain ⟨o, -, hline, -, -, hcreates, hother⟩ := loadLine_spec hinv₁ l
        rw [gentrigload_snoc hst₁ l, hline, Option.some.injEq] at hst
        rw [← hst, gbl_record]
        split
        · by_cases hc : Creates (st₁.gbl l.fields.gvn) l.fields
          · have hsize := hcond pre l st₁ hpre hst₁ hc
            rw [hcreates hc]
            have heq : l.fields.gvn = l.gvn.1 := rfl
            rw [heq, hsize, sub_self]
          · rw [hother hc]
            exact ih l.fields.gvn
        · exact ih gvn

/-- A line on `^a` for the command K. -/
def killLine (add : Bool) (entryref : Word) : Line where
  add := add
  gvn := ⟨lit "a", by decide⟩
  gvn_length := by decide
  cmds := [.k]
  cmds_ne_nil := by decide
  part := none
  entryref := entryref
  options := []

/-- Two triggers, the first one deleted, and a third one. -/
def overwritten : List Line :=
  [killLine true ⟨lit "^twork(66)", by decide⟩, killLine true ⟨lit "^twork(121266)", by decide⟩,
    killLine false ⟨lit "^twork(66)", by decide⟩, killLine true ⟨lit "^twork(34303)", by decide⟩]

/-- `#TNCOUNT` is 3, and there are two triggers. -/
theorem gentrigload_overwritten : (gentrigload (overwritten.map Line.text)).map (fun st =>
    ((st.gbl (lit "a")).tncount, (st.gbl (lit "a")).trigs.size)) = some (3, 2) := by
  decide

theorem tncount_overwritten : ¬ ∀ (lines : List Line) (st : State),
    gentrigload (lines.map Line.text) = some st → ∀ gvn, CountOk (st.gbl gvn) := by
  intro h
  obtain ⟨st, hst, hcount⟩ := Option.map_eq_some_iff.1 gentrigload_overwritten
  have hok := (h overwritten st hst (lit "a")).count
  rw [Prod.mk.injEq] at hcount
  rw [hcount.1, hcount.2] at hok
  exact absurd hok (by decide)

end YottaTest.Triggers
