/-
  File:      YottaTest/Imptp/Verdict.lean
  Subject:   What checkdb's comparisons say about each state an iteration can be left in.

  * `Snap.congr`, `Final.congr` -- the states only speak of the iteration's own nodes;
  * `compiter_of_final` -- a finished iteration passes every comparison;
  * `crashIter_of_reached`, `crashIter_of_final` -- so does one cut short, except between stage 10
    and stage 11: there it passes exactly if `TargetOk`, `crashIter_of_replaced`.
-/
import YottaTest.Imptp.CheckDb
import YottaTest.Imptp.Outline

namespace YottaTest.Imptp

open YottaTest.Lib YottaTest.M

/-! ## 1. The states of an iteration in another database -/

section Congr

variable {cfg : Config} {jobno loop I : Nat} {d d' : Db}

theorem own_firstNodes (hI : I ≠ 0) :
    ∀ e ∈ firstNodes cfg loop I, Own cfg jobno loop I e.1 := by
  intro e he
  simp only [firstNodes, List.mem_cons, List.not_mem_nil, or_false] at he
  rcases he with rfl | rfl | rfl | rfl | rfl | rfl | rfl | rfl | rfl | rfl
  · exact own_subsMAX hI rfl []
  · exact own_subsMAX hI rfl []
  · exact own_subsMAX hI rfl []
  · exact own_subs hI rfl []
  · exact own_subs hI rfl []
  · exact own_subs hI rfl []
  · exact own_subs hI rfl []
  · exact own_subs hI rfl []
  · exact own_subs hI rfl []
  · exact own_index rfl _

theorem first_congr (hI : I ≠ 0) (h : Agree (Own cfg jobno loop I) d d')
    (hf : Holds (firstNodes cfg loop I) d) : Holds (firstNodes cfg loop I) d' := fun e he =>
  (h e.1 (own_firstNodes hI e he)).symm.trans (hf e he)

theorem third_congr (hI : I ≠ 0) (h : Agree (Own cfg jobno loop I) d d')
    (hf : Holds (thirdNodes cfg loop I) d) : Holds (thirdNodes cfg loop I) d' := by
  intro e he
  rw [← h e.1 ?_]
  · exact hf e he
  · simp only [thirdNodes, List.mem_cons, List.not_mem_nil, or_false] at he
    rcases he with rfl | rfl | rfl | rfl | rfl
    · exact own_subs hI rfl []
    · exact own_subs hI rfl []
    · exact own_subsMAX hI rfl []
    · exact own_subsMAX hI rfl []
    · exact own_subsMAX hI rfl []

theorem randoms_kind : ∀ g ∈ randoms, g.kind = .subs := by decide

theorem ntps_kind : ∀ g ∈ ntps, g.kind = .subs := by decide

theorem row_congr (hI : I ≠ 0) (h : Agree (Own cfg jobno loop I) d d') {r : Nat → Option MStr}
    (hr : Row cfg I r d) : Row cfg I r d' := fun g hg J =>
  (h _ (own_subs hI (randoms_kind g hg) [.num J])).symm.trans (hr g hg J)

theorem spans_congr (h : Agree (Own cfg jobno loop I) d d') {a e b : Option MStr}
    (hs : Spans I a e b d) : Spans I a e b d' :=
  ⟨(h _ (own_index rfl [])).symm.trans hs.aspan, (h _ (own_index rfl [])).symm.trans hs.espan,
    (h _ (own_index rfl [])).symm.trans hs.bspan⟩

/-- A snapshot of an iteration is about its own nodes. -/
theorem Snap.congr (hI : I ≠ 0) (h : Agree (Own cfg jobno loop I) d d') {third : Prop}
    {r : Nat → Option MStr} {a e b : Option MStr} (hs : Snap cfg jobno loop I third r a e b d) :
    Snap cfg jobno loop I third r a e b d' :=
  ⟨first_congr hI h hs.first, fun ht => third_congr hI h (hs.third ht), row_congr hI h hs.row,
    spans_congr h hs.spans, (h _ (own_job rfl [])).symm.trans hs.incomplete⟩

theorem Reached.congr (hI : I ≠ 0) (h : Agree (Own cfg jobno loop I) d d') :
    Reached cfg jobno loop I d → Reached cfg jobno loop I d'
  | .early m hm hs => .early m hm (hs.congr hI h)
  | .killed hs => .killed (hs.congr hI h)
  | .spanned hs => .spanned (hs.congr hI h)

/-- The state at the end is about the iteration's own nodes. -/
theorem Final.congr (hI : I ≠ 0) (h : Agree (Own cfg jobno loop I) d d')
    (hf : Final cfg jobno loop I d) : Final cfg jobno loop I d' where
  first := first_congr hI h hf.first
  third := third_congr hI h hf.third
  row := row_congr hI h hf.row
  spans := spans_congr h hf.spans
  cleared := ⟨(h _ (own_index rfl [])).symm.trans hf.cleared.jrandom,
    (h _ (own_index rfl _)).symm.trans hf.cleared.jrandom2, fun g hg =>
      (h _ (own_subs hI (ntps_kind g hg) [])).symm.trans (hf.cleared.ntp g hg)⟩
  complete := (h _ (own_job rfl [])).symm.trans hf.complete

/-- The iteration has no nodes deeper than the scans expect. -/
def Flat (cfg : Config) (jobno loop I : Nat) (d : Db) : Prop :=
  ∀ k, Own cfg jobno loop I k → ¬ Shallow k → d.get k = none

theorem Flat.congr (h : Agree (Own cfg jobno loop I) d d') (hf : Flat cfg jobno loop I d) :
    Flat cfg jobno loop I d' := fun k hk hs => (h k hk).symm.trans (hf k hk hs)

/-- However much of an iteration is done, its nodes are flat. -/
theorem flat_of_subset {ch : Chance} (ht : cfg.trigger = 0) {cs : List Cmd}
    (hcs : ∀ c ∈ cs, c ∈ cmds (iteration cfg jobno loop I ch)) :
    Flat cfg jobno loop I (run Cmd.exec cs Table.empty) := fun k _ hs =>
  get_eq_none (fun c hc h => hs (iteration_shallow cfg jobno loop I ch ht c (hcs c hc) k h)) rfl

end Congr

/-! ## 2. The comparisons one by one -/

section Compare

variable {cfg : Config} {jobno loop I : Nat} {d : Db}

theorem holds_of_get {n : GNode} {s : MStr} (h : d.get n = some (.str s)) :
    holds d n s = true := by
  simp [holds, DB.value, h, Val.toStr]

theorem holds_of_none {n : GNode} (h : d.get n = none) : holds d n [] = true := by
  simp [holds, DB.value, h, Val.toStr]

theorem toStr_of_get {n : GNode} {s : Option MStr} (h : d.get n = s.map .str) :
    (d.value n).toStr = s.getD [] := by
  cases s with
  | none => simp [DB.value, h, Val.toStr]
  | some s => simp [DB.value, h, Val.toStr]

theorem checkFirst_ok (h : Holds (firstNodes cfg loop I) d) :
    ∀ b ∈ checkFirst cfg d I loop ++ checkJrandom cfg d I loop, b = true := by
  have hmap : checkFirst cfg d I loop ++ checkJrandom cfg d I loop
      = (firstNodes cfg loop I).map fun e => holds d e.1 e.2 := rfl
  rw [hmap]
  intro b hb
  obtain ⟨e, he, rfl⟩ := List.mem_map.1 hb
  exact holds_of_get (h e he)

theorem checkNtp_ok (h : Holds (thirdNodes cfg loop I) d) :
    ∀ b ∈ checkNtp cfg d I loop, b = true := by
  have hmap : checkNtp cfg d I loop
      = (thirdNodes cfg loop I).map fun e => holds d e.1 e.2 := rfl
  rw [hmap]
  intro b hb
  obtain ⟨e, he, rfl⟩ := List.mem_map.1 hb
  exact holds_of_get (h e he)

theorem checkJrandomNull_ok (h : Cleared cfg I d) : ∀ b ∈ checkJrandomNull d I, b = true := by
  simp only [checkJrandomNull, List.forall_mem_cons, List.not_mem_nil, IsEmpty.forall_iff,
    implies_true, and_true]
  exact ⟨holds_of_none h.jrandom, holds_of_none h.jrandom2⟩

/-- A place of the row that holds what is expected passes. -/
theorem checkRow_ok {r : Nat → Option MStr} (h : Row cfg I r d) {J : Nat} {s : MStr}
    (hs : (r J).getD [] = s) : ∀ b ∈ checkRow cfg d I J s, b = true := by
  intro b hb
  obtain ⟨g, hg, rfl⟩ := List.mem_map.1 hb
  have hv := toStr_of_get (h g hg J)
  rw [hs] at hv
  simp [holds, hv]

/-- Nothing below a node of the iteration where nothing can be and itself is not. -/
theorem data_eq_false {n : GNode} (hf : Flat cfg jobno loop I d) (hn : Own cfg jobno loop I n)
    (hdeep : ∀ k, n.covers k = true → k ≠ n → ¬ Shallow k) (h : d.get n = none) :
    d.data n = false := by
  rw [DB.data_eq_false_iff]
  intro k hk
  by_cases hkn : k = n
  · rw [hkn, h]
  · exact hf k (own_covers hn hk) (hdeep k hk hkn)

/-- A node properly below another has more subscripts. -/
theorem length_lt_of_covers {n k : GNode} (hk : n.covers k = true) (hne : k ≠ n) :
    k.gvn = n.gvn ∧ n.subs.length < k.subs.length := by
  obtain ⟨g, s⟩ := n
  obtain ⟨g', s'⟩ := k
  obtain ⟨hg, hp⟩ := Node.covers_iff.1 hk
  obtain rfl : g = g' := hg
  refine ⟨rfl, lt_of_le_of_ne hp.length_le fun hl => hne ?_⟩
  rw [show s = s' from hp.eq_of_length hl]

theorem data_row_eq_false (hI : I ≠ 0) (hf : Flat cfg jobno loop I d) {g : Gvn}
    (hg : g ∈ randoms) {J : Nat} (h : d.get (strNumNode g (cfg.subs I) J) = none) :
    d.data (strNumNode g (cfg.subs I) J) = false := by
  refine data_eq_false hf (own_subs hI (randoms_kind g hg) _) (fun k hk hne hs => ?_) h
  obtain ⟨hgk, hlen⟩ := length_lt_of_covers hk hne
  have h2 := hs.1 (Or.inl (hgk ▸ hg))
  have h2' : (strNumNode g (cfg.subs I) J).subs.length = 2 := rfl
  omega

theorem checkNtpNull_ok (hI : I ≠ 0) (hf : Flat cfg jobno loop I d) (h : Cleared cfg I d) :
    ∀ b ∈ checkNtpNull cfg d I, b = true := by
  have hdata {g : Gvn} (hg : g ∈ ntps) : (!d.data (strNode g (cfg.subs I))) = true := by
    rw [Bool.not_eq_true']
    refine data_eq_false hf (own_subs hI (ntps_kind g hg) []) (fun k hk hne hs => ?_) (h.ntp g hg)
    obtain ⟨hgk, hlen⟩ := length_lt_of_covers hk hne
    have h1 := hs.2 (hgk ▸ hg)
    have h1' : (strNode g (cfg.subs I)).subs.length = 1 := rfl
    omega
  simp only [checkNtpNull, List.forall_mem_cons, List.not_mem_nil, IsEmpty.forall_iff,
    implies_true, and_true]
  exact ⟨hdata (by decide), hdata (by decide), hdata (by decide), hdata (by decide)⟩

theorem complete_eq_false (hf : Flat cfg jobno loop I d)
    (h : d.get (numNumNode .andxarr jobno loop) = none) : complete d jobno loop = false := by
  refine data_eq_false hf (own_job rfl []) (fun k hk hne hs => ?_) h
  obtain ⟨hgk, hlen⟩ := length_lt_of_covers hk hne
  have h2 := hs.1 (Or.inr hgk)
  have h2' : (numNumNode .andxarr jobno loop).subs.length = 2 := rfl
  omega

theorem complete_eq_true {v : Val} (h : d.get (numNumNode .andxarr jobno loop) = some v) :
    complete d jobno loop = true :=
  (DB.data_eq_true_iff d _).2 ⟨_, v, Node.covers_self _, h⟩

end Compare

/-! ## 3. A finished iteration -/

section Finished

variable {cfg : Config} {jobno loop I : Nat} {d : Db}

theorem piece_newPIECE (h0 : 0 < cfg.targetpiece loop) :
    piece bar (cfg.newPIECE loop) (cfg.targetpiece loop) = cfg.subpiece loop :=
  piece_setPiece (bar_notMem_blanksToX (notMem_piece bar _ _)) _ _ h0

/-- The place `J` of the row at the end is what the checks expect. -/
theorem rowEnd_getD {J : Nat} (h1 : 1 ≤ J) (hJ : J ≤ cfg.jobcnt) :
    (rowEnd cfg loop J).getD [] = if J = 1 then [] else cfg.valj loop J := by
  unfold rowEnd
  by_cases h : J = 1
  · rw [if_neg (by omega), if_pos h]
    rfl
  · rw [if_pos ⟨by omega, hJ⟩, if_neg h]
    rfl

/-- **A finished iteration passes.** -/
theorem compiter_of_final (hI : I ≠ 0) (hf : Flat cfg jobno loop I d)
    (h : Final cfg jobno loop I d) : compiter cfg d I loop = 0 := by
  have hrow : ∀ b ∈ (List.range cfg.jobcnt).flatMap fun j =>
      checkRow cfg d I (j + 1) (if j + 1 = 1 then [] else cfg.valj loop (j + 1)), b = true := by
    intro b hb
    obtain ⟨j, hj, hb⟩ := List.mem_flatMap.1 hb
    exact checkRow_ok h.row (rowEnd_getD (by omega) (List.mem_range.1 hj)) b hb
  have hspans : ∀ b ∈ [holds d (numNode .aspan I) (cfg.newPIECE loop),
      holds d (numNode .bspan I) (dropBlanks (cfg.newPIECE loop)),
      decide (piece bar (d.value (numNode .espan I)).toStr (cfg.targetpiece loop)
        = piece bar (cfg.newPIECE loop) (cfg.targetpiece loop))], b = true := by
    simp only [List.forall_mem_cons, List.not_mem_nil, IsEmpty.forall_iff, implies_true, and_true]
    refine ⟨holds_of_get h.spans.aspan, holds_of_get h.spans.bspan, decide_eq_true ?_⟩
    rw [toStr_of_get h.spans.espan]
    by_cases h0 : cfg.targetpiece loop = 0
    · rw [h0]
      rfl
    · have hpos : 0 < cfg.targetpiece loop := Nat.pos_of_ne_zero h0
      rw [if_neg h0, piece_newPIECE hpos]
      exact piece_setPiece (bar_notMem_blanksToX (notMem_piece bar _ _)) _ _ hpos
  have hfirst := checkFirst_ok h.first
  rw [List.forall_mem_append] at hfirst
  rw [compiter, fails_eq_zero]
  simp only [List.forall_mem_append]
  exact ⟨⟨⟨⟨⟨⟨hfirst.1, checkJrandomNull_ok h.cleared⟩, hfirst.2⟩, hrow⟩,
    checkNtpNull_ok hI hf h.cleared⟩, checkNtp_ok h.third⟩, hspans⟩

/-- **A finished iteration also passes after a crash.** -/
theorem crashIter_of_final (hI : I ≠ 0) (hf : Flat cfg jobno loop I d)
    (h : Final cfg jobno loop I d) : crashIter cfg d jobno I loop = 0 := by
  have hc := complete_eq_true h.complete
  have hj : jmax cfg d jobno I loop = cfg.jobcnt := by rw [jmax, hc, if_pos rfl]
  rw [crashIter, fails_eq_zero, hj, hc]
  simp only [if_true, List.append_nil, true_or, and_true, List.forall_mem_append]
  have hfirst := checkFirst_ok h.first
  rw [List.forall_mem_append] at hfirst
  refine ⟨⟨⟨⟨hfirst, checkJrandomNull_ok h.cleared⟩, fun b hb => ?_⟩,
    checkNtpNull_ok hI hf h.cleared⟩, checkNtp_ok h.third⟩
  obtain ⟨j, hj, hb⟩ := List.mem_flatMap.1 hb
  exact checkRow_ok h.row (rowEnd_getD (by omega) (List.mem_range.1 hj)) b hb

end Finished

/-! ## 4. An iteration cut short -/

section CutShort

variable {cfg : Config} {jobno loop I : Nat} {d : Db}

/-- The numbers below `subs` in a global of the row are the places of the row. -/
theorem nextNum_row (hI : I ≠ 0) (hf : Flat cfg jobno loop I d) {r : Nat → Option MStr}
    (hr : Row cfg I r d) {g : Gvn} (hg : g ∈ randoms) {m : GNode} {v : Val} {J : Nat}
    (hn : DB.nextNum (strNode g (cfg.subs I)) m = some J) (hv : d.get m = some v) :
    r J ≠ none := by
  unfold DB.nextNum at hn
  split at hn
  · rename_i hcov
    obtain ⟨g', s⟩ := m
    obtain ⟨hgg, t, ht⟩ := Node.covers_iff.1 hcov
    obtain rfl : g = g' := hgg
    obtain rfl : [Sub.str (cfg.subs I)] ++ t = s := ht
    cases t with
    | nil => cases hn
    | cons x t' =>
        cases x with
        | num J' =>
            obtain rfl : J' = J := Option.some.inj hn
            have ht' : t' = [] := by
              by_contra hne
              have hown : Own cfg jobno loop I ⟨g, [Sub.str (cfg.subs I)] ++ .num J' :: t'⟩ :=
                own_subs hI (randoms_kind g hg) _
              have hlen : 0 < t'.length := List.length_pos_of_ne_nil hne
              have hdeep : ¬ Shallow ⟨g, [Sub.str (cfg.subs I)] ++ .num J' :: t'⟩ := fun hs => by
                have h2 := hs.1 (Or.inl hg)
                simp only [List.cons_append, List.nil_append, List.length_cons] at h2
                omega
              rw [hf _ hown hdeep] at hv
              cases hv
            subst ht'
            intro hnone
            have hrow := hr g hg J'
            rw [hnone] at hrow
            have hv' : d.get (strNumNode g (cfg.subs I) J') = some v := hv
            rw [hrow] at hv'
            cases hv'
        | str _ => cases hn
  · cases hn

/-- **`$ZPREVIOUS` finds the last place of the row**, in each of the nine globals. -/
theorem lastJ_of_row (hI : I ≠ 0) (hf : Flat cfg jobno loop I d) {r : Nat → Option MStr}
    (hr : Row cfg I r d) {L : Nat} (hL : r L ≠ none) (hmax : ∀ J, r J ≠ none → J ≤ L) {g : Gvn}
    (hg : g ∈ randoms) : lastJ cfg d I g = some L := by
  obtain ⟨s, hs⟩ := Option.ne_none_iff_exists'.1 hL
  refine DB.zprevious_eq_some ⟨strNumNode g (cfg.subs I) L, .str s, ?_, ?_⟩
    fun m v J hn hv => hmax J (nextNum_row hI hf hr hg hn hv)
  · simp [DB.nextNum, strNode, strNumNode, Node.covers]
  · rw [hr g hg L, hs]
    rfl

theorem lastJ_of_empty (hI : I ≠ 0) (hf : Flat cfg jobno loop I d) {r : Nat → Option MStr}
    (hr : Row cfg I r d) (hnone : ∀ J, r J = none) {g : Gvn} (hg : g ∈ randoms) :
    lastJ cfg d I g = none := by
  refine DB.zprevious_eq_none fun m J hn => ?_
  cases hv : d.get m with
  | none => rfl
  | some v => exact absurd (hnone J) (nextNum_row hI hf hr hg hn hv)

/-- All nine globals have the same last place. -/
theorem partners_ok {L : Option Nat} (h : ∀ g ∈ randoms, lastJ cfg d I g = L) :
    ∀ b ∈ nine.tail.map fun g => decide (lastJ cfg d I .arandom = lastJ cfg d I g), b = true := by
  intro b hb
  obtain ⟨g, hg, rfl⟩ := List.mem_map.1 hb
  rw [h _ (by decide), h g (List.mem_of_mem_tail hg)]
  exact decide_eq_true rfl

/-- The places of the row up to the last one pass: a first place that is missing is expected
    to be empty. -/
theorem rows_ok (hI : I ≠ 0) (hf : Flat cfg jobno loop I d) {r : Nat → Option MStr}
    (hr : Row cfg I r d) {L : Nat} (h1 : r 1 = none ∨ r 1 = some (cfg.valj loop 1))
    (h : ∀ J, 2 ≤ J → J ≤ L → r J = some (cfg.valj loop J)) :
    ∀ b ∈ (List.range L).flatMap fun j => checkRow cfg d I (j + 1)
      (if j + 1 = 1 ∧ d.data (strNumNode .arandom (cfg.subs I) 1) = false then []
        else cfg.valj loop (j + 1)), b = true := by
  intro b hb
  obtain ⟨j, hj, hb⟩ := List.mem_flatMap.1 hb
  have hj := List.mem_range.1 hj
  refine checkRow_ok hr ?_ b hb
  cases j with
  | zero =>
      have ha := hr .arandom (by decide) 1
      rcases h1 with h1 | h1
      · rw [h1] at ha
        have hd := data_row_eq_false hI hf (by decide) ha
        rw [if_pos ⟨rfl, hd⟩, h1]
        rfl
      · rw [h1] at ha
        have hd : d.data (strNumNode .arandom (cfg.subs I) 1) = true :=
          (DB.data_eq_true_iff d _).2 ⟨_, _, Node.covers_self _, ha⟩
        rw [if_neg (by rw [hd]; simp), h1]
        rfl
  | succ j =>
      rw [if_neg (by omega), h (j + 1 + 1) (by omega) (by omega)]
      rfl

/-- **An unfinished iteration passes if its spanning nodes do.** -/
theorem crashIter_of_snap (hI : I ≠ 0) (hf : Flat cfg jobno loop I d) {third : Prop}
    {r : Nat → Option MStr} {a e b : Option MStr} (h : Snap cfg jobno loop I third r a e b d)
    {L : Nat} (hlast : ∀ g ∈ randoms, lastJ cfg d I g = if L = 0 then none else some L)
    (hthird : L ≠ 0 → third) (h1 : r 1 = none ∨ r 1 = some (cfg.valj loop 1))
    (hrow : ∀ J, 2 ≤ J → J ≤ L → r J = some (cfg.valj loop J)) :
    crashIter cfg d jobno I loop = 0 ↔
      spanOk (stageValues cfg loop) (a.getD []) (e.getD []) (b.getD []) = true := by
  have hc := complete_eq_false hf h.incomplete
  have hj : jmax cfg d jobno I loop = L := by
    rw [jmax, hc, if_neg (by decide), hlast _ (by decide)]
    by_cases hL : L = 0
    · rw [if_pos hL, hL]
      rfl
    · rw [if_neg hL]
      rfl
  have hntp : ∀ c ∈ if L ≠ 0 then checkNtp cfg d I loop else [], c = true := by
    split
    · rename_i hL
      exact checkNtp_ok (h.third (hthird hL))
    · exact fun c hm => absurd hm List.not_mem_nil
  have hfirst := checkFirst_ok h.first
  have hpart := partners_ok hlast
  have hrows := rows_ok hI hf h.row h1 hrow
  rw [crashIter, fails_eq_zero, hj, hc]
  simp only [Bool.false_eq_true, if_false, false_or, List.append_nil, List.forall_mem_append,
    List.forall_mem_cons, List.not_mem_nil, IsEmpty.forall_iff, implies_true, and_true,
    toStr_of_get h.spans.aspan, toStr_of_get h.spans.espan, toStr_of_get h.spans.bspan]
  rw [List.forall_mem_append] at hfirst
  exact ⟨fun h => h.2, fun h => ⟨⟨⟨⟨hfirst, hpart⟩, hrows⟩, hntp⟩, h⟩⟩

theorem rowTo_ne_none {m J : Nat} (h : rowTo cfg loop m J ≠ none) : 1 ≤ J ∧ J ≤ m := by
  by_contra hJ
  exact h (if_neg hJ)

theorem rowEnd_ne_none {J : Nat} (h : rowEnd cfg loop J ≠ none) : 2 ≤ J ∧ J ≤ cfg.jobcnt := by
  by_contra hJ
  exact h (if_neg hJ)

/-- While stage 4 is under way the last place is the number of places done. -/
theorem lastJ_rowTo (hI : I ≠ 0) (hf : Flat cfg jobno loop I d) {m : Nat}
    (hr : Row cfg I (rowTo cfg loop m) d) :
    ∀ g ∈ randoms, lastJ cfg d I g = if m = 0 then none else some m := by
  intro g hg
  by_cases hm : m = 0
  · rw [if_pos hm]
    exact lastJ_of_empty hI hf hr (fun J => if_neg (by omega)) hg
  · rw [if_neg hm]
    refine lastJ_of_row hI hf hr ?_ (fun J hJ => (rowTo_ne_none hJ).2) hg
    rw [rowTo, if_pos ⟨by omega, Nat.le_refl m⟩]
    exact Option.some_ne_none _

/-- From stage 5 on it is the number of jobs, and with one job there is none. -/
theorem lastJ_rowEnd (hI : I ≠ 0) (hf : Flat cfg jobno loop I d)
    (hr : Row cfg I (rowEnd cfg loop) d) : ∀ g ∈ randoms, lastJ cfg d I g =
      if (if cfg.jobcnt ≤ 1 then 0 else cfg.jobcnt) = 0 then none
      else some (if cfg.jobcnt ≤ 1 then 0 else cfg.jobcnt) := by
  intro g hg
  by_cases hm : cfg.jobcnt ≤ 1
  · rw [if_pos hm, if_pos rfl]
    exact lastJ_of_empty hI hf hr (fun J => if_neg (by omega)) hg
  · rw [if_neg hm, if_neg (by omega)]
    refine lastJ_of_row hI hf hr ?_ (fun J hJ => (rowEnd_ne_none hJ).2) hg
    rw [rowEnd, if_pos ⟨by omega, Nat.le_refl _⟩]
    exact Option.some_ne_none _

/-- An iteration that finished stage 5 passes if its spanning nodes do. -/
theorem crashIter_of_rowEnd (hI : I ≠ 0) (hf : Flat cfg jobno loop I d) {a e b : Option MStr}
    (h : Snap cfg jobno loop I True (rowEnd cfg loop) a e b d) :
    crashIter cfg d jobno I loop = 0 ↔
      spanOk (stageValues cfg loop) (a.getD []) (e.getD []) (b.getD []) = true := by
  refine crashIter_of_snap hI hf h (lastJ_rowEnd hI hf h.row) (fun _ => trivial)
    (Or.inl (if_neg (by omega))) fun J h2 hJ => if_pos ⟨h2, ?_⟩
  split at hJ
  · omega
  · exact hJ

theorem spanOk_nil (stage : StageValues) : spanOk stage [] [] [] = true := if_pos ⟨rfl, rfl, rfl⟩

/-- What stage 7 leaves is accepted. -/
theorem spanOk_stage7 (stage : StageValues) :
    spanOk stage stage.aspan7 stage.aspan7 stage.bspan7 = true := by
  unfold spanOk
  split
  · rfl
  · exact if_pos ⟨rfl, rfl, rfl⟩

/-- **Every state of an unfinished iteration passes**, the one after stage 10 apart. -/
theorem crashIter_of_reached (hI : I ≠ 0) (hf : Flat cfg jobno loop I d)
    (h : Reached cfg jobno loop I d) : crashIter cfg d jobno I loop = 0 := by
  cases h with
  | early m hm h =>
      refine (crashIter_of_snap hI hf h (lastJ_rowTo hI hf h.row) (fun h0 => by omega) ?_
        fun J h2 hJ => if_pos ⟨by omega, hJ⟩).2 (spanOk_nil _)
      by_cases h1 : 1 ≤ m
      · exact Or.inr (if_pos ⟨Nat.le_refl 1, h1⟩)
      · exact Or.inl (if_neg (by omega))
  | killed h => exact (crashIter_of_rowEnd hI hf h).2 (spanOk_nil _)
  | spanned h => exact (crashIter_of_rowEnd hI hf h).2 (spanOk_stage7 (stageValues cfg loop))

end CutShort

/-! ## 5. Between stage 10 and stage 11 -/

/-- The target piece lets checkdb tell stage 10 from stage 7: there is none, or it has a blank to
    turn into X, or it is an empty first piece. -/
def TargetOk (cfg : Config) (loop : Nat) : Prop :=
  cfg.targetpiece loop = 0 ∨ blank ∈ piece bar (cfg.valPIECE loop) (cfg.targetpiece loop) ∨
    (cfg.targetpiece loop = 1 ∧ piece bar (cfg.valPIECE loop) 1 = [])

instance (cfg : Config) (loop : Nat) : Decidable (TargetOk cfg loop) :=
  inferInstanceAs (Decidable (_ ∨ _ ∨ _))

section Replaced

variable {cfg : Config} {jobno loop I : Nat} {d : Db}

theorem targetpiece_lt : cfg.targetpiece loop < cfg.totalpieces loop :=
  Nat.mod_lt _ (Nat.succ_pos _)

/-- Without a blank in the target piece stage 10 leaves `^aspan` as it was … -/
theorem newPIECE_of_notMem (h : blank ∉ piece bar (cfg.valPIECE loop) (cfg.targetpiece loop)) :
    cfg.newPIECE loop = cfg.valPIECE loop := by
  rw [Config.newPIECE, Config.subpiece, blanksToX_eq_self.2 h]
  exact setPiece_piece bar _ _ (Nat.le_of_lt targetpiece_lt)

/-- … and with one it does not. -/
theorem newPIECE_ne (h : blank ∈ piece bar (cfg.valPIECE loop) (cfg.targetpiece loop)) :
    cfg.newPIECE loop ≠ cfg.valPIECE loop := by
  intro he
  have hpos : 0 < cfg.targetpiece loop := by
    rcases Nat.eq_zero_or_pos (cfg.targetpiece loop) with h0 | h0
    · rw [h0] at h
      exact absurd h List.not_mem_nil
    · exact h0
  have hp := piece_newPIECE hpos
  rw [he, Config.subpiece] at hp
  exact absurd h (blanksToX_eq_self.1 hp.symm)

theorem spanOk_stage10 (stage : StageValues) (h : stage.aspan10 ≠ stage.aspan7) :
    spanOk stage stage.aspan10 stage.espan10 stage.bspan10 = true := by
  unfold spanOk
  simp [h]

/-- With `^aspan` and `^bspan` as stage 7 leaves them, `^espan` is as there or missing. -/
theorem spanOk_aspan7 (stage : StageValues) (espan : MStr) :
    spanOk stage stage.aspan7 espan stage.bspan7 = true ↔ espan = [] ∨ espan = stage.aspan7 := by
  unfold spanOk
  constructor
  · intro h
    by_contra hne
    rw [not_or] at hne
    simp [hne.1, Ne.symm hne.2] at h
  · rintro (rfl | rfl)
    · simp
    · simp

/-- What stage 10 leaves in `^espan` has fewer pieces than `^aspan`, and is "" only as an empty
    first piece. -/
theorem espan10_eq (h0 : 0 < cfg.targetpiece loop) :
    ((stageValues cfg loop).espan10 = [] ∨
        (stageValues cfg loop).espan10 = (stageValues cfg loop).aspan7) ↔
      cfg.targetpiece loop = 1 ∧ cfg.subpiece loop = [] := by
  have hn : numPieces bar (stageValues cfg loop).espan10 = cfg.targetpiece loop :=
    numPieces_setPiece_nil (bar_notMem_blanksToX (notMem_piece bar _ _)) _ h0
  have hlt : cfg.targetpiece loop < numPieces bar (stageValues cfg loop).aspan7 := targetpiece_lt
  have hone (h1 : cfg.targetpiece loop = 1) :
      (stageValues cfg loop).espan10 = cfg.subpiece loop := by
    show setPiece bar [] (cfg.targetpiece loop) (cfg.subpiece loop) = cfg.subpiece loop
    rw [h1]
    exact List.append_nil _
  constructor
  · rintro (h | h)
    · have h1 : cfg.targetpiece loop = 1 := by
        rw [← hn, h]
        rfl
      exact ⟨h1, (hone h1).symm.trans h⟩
    · rw [h] at hn
      omega
  · exact fun h => Or.inl ((hone h.1).trans h.2)

/-- **After stage 10 checkdb accepts exactly if `TargetOk`**: else it takes the state for one
    that stage 7 cannot have left. -/
theorem crashIter_of_replaced (hI : I ≠ 0) (hf : Flat cfg jobno loop I d)
    (h : Replaced cfg jobno loop I d) :
    crashIter cfg d jobno I loop = 0 ↔ TargetOk cfg loop := by
  rw [crashIter_of_rowEnd hI hf h]
  by_cases hb : blank ∈ piece bar (cfg.valPIECE loop) (cfg.targetpiece loop)
  · have hpos : cfg.targetpiece loop ≠ 0 := fun h0 => by
      rw [h0] at hb
      exact absurd hb List.not_mem_nil
    rw [if_neg hpos]
    exact ⟨fun _ => Or.inr (Or.inl hb), fun _ => spanOk_stage10 (stageValues cfg loop)
      (newPIECE_ne hb)⟩
  · have hsub : cfg.subpiece loop = piece bar (cfg.valPIECE loop) (cfg.targetpiece loop) :=
      blanksToX_eq_self.2 hb
    rw [newPIECE_of_notMem hb]
    by_cases h0 : cfg.targetpiece loop = 0
    · rw [if_pos h0]
      exact ⟨fun _ => Or.inl h0,
        fun _ => (spanOk_aspan7 (stageValues cfg loop) []).2 (Or.inl rfl)⟩
    · rw [if_neg h0]
      have hiff := (spanOk_aspan7 (stageValues cfg loop) (stageValues cfg loop).espan10).trans
        (espan10_eq (Nat.pos_of_ne_zero h0))
      refine Iff.trans hiff ⟨fun hp => ?_, fun hp => ?_⟩
      · have hp2 := hp.2
        rw [hsub, hp.1] at hp2
        exact Or.inr (Or.inr ⟨hp.1, hp2⟩)
      · rcases hp with hp | hp | hp
        · exact absurd hp h0
        · exact absurd hp hb
        · refine ⟨hp.1, ?_⟩
          rw [hsub, hp.1]
          exact hp.2

end Replaced

end YottaTest.Imptp
