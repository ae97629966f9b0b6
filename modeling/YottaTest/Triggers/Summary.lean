/-
  File:      YottaTest/Triggers/Summary.lean
  Subject:   What randomtriggers.m predicts for a trigger file: a well-formed table, and a summary
             that goes with it.

  * `XecuteOk` -- the triggers of an xecute string of a global;
  * **`gentrigload_wellFormed`** -- after every file, and so in every state in between, the table is
    well-formed; neither `halt` is reached;
  * `LineOk`, **`gentrigload_summary`** -- the counts of the summary, the select file and the
    messages agree.
-/
import YottaTest.Triggers.Gentrigload

namespace YottaTest.Triggers

open Function YottaTest.M YottaTest.Lib

/-! ## 1. The table -/

/-- **The triggers of an xecute string.** -/
structure XecuteOk (g : Gbl) (x : MStr) : Prop where
  /-- A trigger has a command. -/
  cmds : ∀ i t, g.trigs.get (x, i) = some t → t.cmds.Nonempty
  /-- Only the lowest one has others than `S`. -/
  lowest : ∀ i t, g.trigs.get (x, i) = some t →
    (∃ j < i, (g.trigs.get (x, j)).isSome) → t.cmds ⊆ {S}
  /-- No two with `S` share delim and pieces. -/
  distinct : ∀ i j t u, g.trigs.get (x, i) = some t → g.trigs.get (x, j) = some u →
    S ∈ t.cmds → S ∈ u.cmds → t.delim = u.delim → t.pieces = u.pieces → i = j
  /-- The index has those with `S`, under their delim and pieces. -/
  index : ∀ d p i, g.index.get (x, d, p) = some i ↔ ∃ t, g.trigs.get (x, i) = some t ∧
    S ∈ t.cmds ∧ t.delim = some d ∧ t.pieces = some p
  /-- Where there is something there is a trigger. -/
  data : g.data x = true → ∃ i t, g.trigs.get (x, i) = some t

theorem Gbl.WF.xecuteOk {g : Gbl} (h : g.WF) (x : MStr) : XecuteOk g x where
  cmds i t ht := h.consistent.cmds x i t ht
  lowest i t ht := by
    rintro ⟨j, hj, hsome⟩
    exact h.consistent.lowest x i j t ht (Option.isSome_iff_ne_none.1 hsome) hj
  distinct i j t u ht hu hs _ hd hp := h.consistent.index_inj ht hu hd.symm hp.symm hs
  index d p i := by
    rw [h.consistent.index]
    constructor
    · rintro ⟨t, ht, hd, hp⟩
      refine ⟨t, ht, ?_, hd, hp⟩
      rcases h.consistent.paired x i t ht with ⟨hs, -⟩ | ⟨-, hnone, -⟩
      · exact hs
      · rw [hd] at hnone
        cases hnone
    · rintro ⟨t, ht, -, hd, hp⟩
      exact ⟨t, ht, hd, hp⟩
  data hd := by
    obtain ⟨i, hi⟩ := h.data.1 hd
    exact ⟨i, Option.ne_none_iff_exists'.1 hi⟩

/-- **The table stays well-formed**, whatever the lines add and delete; no line reaches one of the
    branches that halt. -/
theorem gentrigload_wellFormed (lines : List Line) :
    ∃ st, gentrigload (lines.map Line.text) = some st ∧ ∀ gvn x, XecuteOk (st.gbl gvn) x := by
  obtain ⟨st, hst, hinv⟩ := gentrigload_inv lines
  exact ⟨st, hst, fun gvn x => (hinv.wf gvn).xecuteOk x⟩

/-! ## 2. The summary -/

/-- **A line**, the `i`th one: it is counted once, as an update exactly if it changes a trigger, and
    an update is written for it. -/
structure LineOk (st st' : State) (i : Nat) : Prop where
  counted : st'.upddb + st'.noupddb = st.upddb + st.noupddb + 1
  updated : st'.upddb = st.upddb + 1 ↔
    ∃ gvn x j, (st'.gbl gvn).trigs.get (x, j) ≠ (st.gbl gvn).trigs.get (x, j)
  /-- No message before has its number. -/
  fresh : ∀ e ∈ st.out, e.1 ≠ i
  written : st'.upddb = st.upddb + 1 → ∃ e ∈ st'.out, e.1 = i ∧ e.2.2.isUpdate = true

theorem lineOk {st : State} {n : Nat} (h : Inv st n) (l : Line) {o : Out}
    (hspec : Spec (st.gbl l.fields.gvn) o) :
    LineOk st (st.record (n + 1) l.fields.gvn o) (n + 1) := by
  have hupd : (st.record (n + 1) l.fields.gvn o).upddb = st.upddb + 1 ↔ o.upd = true := by
    unfold State.record
    cases o.upd <;> simp
  constructor
  case counted =>
    unfold State.record
    dsimp only
    split <;> omega
  case updated =>
    rw [hupd, hspec.changed]
    constructor
    · intro hne
      obtain ⟨⟨x, j⟩, hxj⟩ := Function.ne_iff.1 hne
      refine ⟨l.fields.gvn, x, j, ?_⟩
      rw [gbl_record, if_pos rfl]
      exact hxj
    · rintro ⟨gvn, x, j, hxj⟩
      rw [gbl_record] at hxj
      split at hxj
      · rename_i he
        rw [he] at hxj
        exact fun heq => hxj (congrFun heq (x, j))
      · exact absurd rfl hxj
  case fresh =>
    intro e he
    have := h.written e he
    omega
  case written =>
    intro hu
    obtain ⟨m, hm, hmu⟩ := hspec.reported (hupd.1 hu)
    exact ⟨(n + 1, l.fields.gvn, m), List.mem_append_right _ (List.mem_map_of_mem hm), rfl, hmu⟩

/-- **The summary goes with the table**: the triggers added less those deleted are those of the
    select file, the two counts of entries add up to the lines, and every line is counted as an
    update exactly if it is one. -/
theorem gentrigload_summary (lines : List Line) :
    ∃ st, gentrigload (lines.map Line.text) = some st ∧
      (st.added : Int) - st.deleted = (selected st).length ∧
      st.upddb + st.noupddb = lines.length ∧
      ∀ pre l, pre ++ [l] <+: lines → ∃ st₁ st₂, gentrigload (pre.map Line.text) = some st₁ ∧
        st₁.loadLine (pre.length + 1) l.text = some st₂ ∧ LineOk st₁ st₂ (pre.length + 1) := by
  obtain ⟨st, hst, hinv⟩ := gentrigload_inv lines
  refine ⟨st, hst, ?_, hinv.entries, fun pre l _ => ?_⟩
  · have := hinv.counted
    omega
  · obtain ⟨st₁, hst₁, hinv₁⟩ := gentrigload_inv pre
    obtain ⟨o, -, hline, hspec, -⟩ := loadLine_spec hinv₁ l
    exact ⟨st₁, _, hst₁, hline, lineOk hinv₁ l hspec⟩

end YottaTest.Triggers
