/-
  File:      YottaTest/Multisite/Sync.lean
  Subject:   SYNC ALL_LINKS.

  The script keeps the RCVFROM lines whose receiver it finds among the names of all SRCTO lines, puts
  a line after the one its source receives on, and synchronises each.

  * `all_srcs`, `sortrcvfromlink`, `loop_thro_all_sync` -- the functions; the sort has fuel;
  * `Live`, `Stray`, `Acyclic` -- a link its source is active for; one the search takes for such;
    no link is upstream of itself;
  * `index_all_srcs`, `rcvfromlink_pairs` -- what the search keeps;
  * `sort_orders` -- the sort ends, with no line before the one it depends on;
  * `sync_all_links_iff` -- **the links synchronised are the live ones, each once, exactly if no link
    is stray and none is upstream of itself.**
-/
import YottaTest.Lib.Exchange
import YottaTest.Multisite.Edits

namespace YottaTest.Multisite

open YottaTest.Lib YottaTest.Awk

/-! ## 1. The functions -/

/-- `all_srcs = $3" "all_srcs` over the SRCTO lines. -/
def all_srcs (rows : List Row) : Text := rows.foldl (fun all row =>
  if row.col1 = .srcto then row.col3 ++ ' ' :: all else all) []

/-- The lines `sortrcvfromlink` collects. -/
def rcvfromlink (rows : List Row) : List Row := rows.filter fun row =>
  row.col1 = .rcvfrom && index (all_srcs rows) row.col2 ≠ 0

/-- `linki[3] == linkj[2]`: the source of the one receives on the other. -/
def linkNeeds (linki linkj : Row) : Bool := linki.col3 = linkj.col2

/-- The sort, with the number of times its loop starts again; `none` where that is not enough. -/
def sortrcvfromlink (fuel : Nat) (rows : List Row) : Option (List Row) :=
  exchangeAll linkNeeds fuel (rcvfromlink rows)

/-- The links synchronised, source first. -/
def loop_thro_all_sync (fuel : Nat) (rows : List Row) : Option (List (Text × Text)) :=
  (sortrcvfromlink fuel rows).map fun links =>
    (links.filter fun link => index (all_srcs rows) link.col2 ≠ 0).map fun link => (link.col3, link.col2)

/-! ## 2. Links -/

/-- A link from its source to its receiver on both lines: the source is active for the receiver. -/
def Live (t : Links) (p : Instance × Instance) : Prop := p ∈ t.rcvfrom ∧ p ∈ t.srcto

/-- A RCVFROM link that is not live, with a receiver whose name begins one on some SRCTO line. -/
def Stray (t : Links) (p : Instance × Instance) : Prop :=
  p ∈ t.rcvfrom ∧ p ∉ t.srcto ∧ ∃ q ∈ t.srcto, p.2.text <+: q.2.text

/-- A live link is upstream of another one whose source is its receiver. -/
def Upstream (t : Links) (p q : Instance × Instance) : Prop :=
  Live t p ∧ Live t q ∧ p ≠ q ∧ q.1 = p.2

def Acyclic (t : Links) : Prop := ∀ p, ¬ Relation.TransGen (Upstream t) p p

/-! ## 3. What the search keeps -/

theorem infix_all_srcs (r : Instance) : ∀ (lines : List Line) (all : Text),
    r.text <:+: (lines.map Line.row).foldl (fun all row =>
      if row.col1 = .srcto then row.col3 ++ ' ' :: all else all) all ↔
    r.text <:+: all ∨ ∃ q ∈ lines.flatMap Line.srcto_links, r.text <+: q.2.text
  | [], all => by simp
  | .rcvfrom r' s' :: lines, all => infix_all_srcs r lines all
  | .srcto s rs :: lines, all => by
      have hstep := infix_all_srcs r lines (commas rs ++ ' ' :: all)
      have hblank : IsToken 'I' ' ' r.text := r.isToken (by decide) (by decide)
      have hcommas : r.text <:+: commas rs ↔ ∃ i ∈ rs, r.text <+: i.text := by
        rw [← not_iff_not, ← index_eq_zero r.text_ne_nil, index_commas]
        simp
      have hlinks : (∃ q ∈ (Line.srcto s rs :: lines).flatMap Line.srcto_links, r.text <+: q.2.text) ↔
          (∃ i ∈ rs, r.text <+: i.text) ∨
            ∃ q ∈ lines.flatMap Line.srcto_links, r.text <+: q.2.text := by
        rw [List.flatMap_cons]
        simp only [List.mem_append, or_and_right, exists_or, Line.srcto_links, List.mem_map]
        simp
      rw [hlinks, List.map_cons, List.foldl_cons]
      refine hstep.trans ?_
      rw [infix_append_sep r.text_ne_nil hblank.sep_notMem, hcommas, or_comm (a := ∃ i ∈ rs, _), or_assoc]

/-- **A receiver is found exactly if its name begins one on a SRCTO line.** -/
theorem index_all_srcs (t : Links) (r : Instance) :
    index (all_srcs t.rows) r.text ≠ 0 ↔ ∃ q ∈ t.srcto, r.text <+: q.2.text := by
  rw [Ne, index_eq_zero r.text_ne_nil, not_not]
  have h := infix_all_srcs r t.lines []
  rw [List.infix_nil, or_iff_right r.text_ne_nil] at h
  exact h

theorem rcvfromlink_pairs (t : Links) :
    (rcvfromlink t.rows).map (fun link => (link.col3, link.col2)) =
      (t.rcvfrom.filter fun p => index (all_srcs t.rows) p.2.text ≠ 0).map pairText := by
  have hrows : ∀ rows : List Row, (rows.filter fun row =>
      row.col1 = .rcvfrom && index (all_srcs t.rows) row.col2 ≠ 0).map (fun link =>
        (link.col3, link.col2)) =
      (rcvfromPairs rows).filter fun p => index (all_srcs t.rows) p.2 ≠ 0 := by
    intro rows
    induction rows with
    | nil => rfl
    | cons row rows ih =>
        by_cases hcol : row.col1 = .rcvfrom
        · by_cases hin : index (all_srcs t.rows) row.col2 = 0
          · simpa [rcvfromPairs, hcol, hin] using ih
          · simpa [rcvfromPairs, hcol, hin] using ih
        · simpa [rcvfromPairs, hcol] using ih
  unfold rcvfromlink
  rw [hrows, rcvfromPairs_rows, List.filter_map]
  rfl

/-- **The sort ends, with the same lines, and none stands before the one its source receives on**,
    whatever order they are in: lines with one source for each receiver that do not go round in a circle. -/
theorem sort_orders (links : List Row) (hsource : (links.map Row.col2).Nodup)
    (hacyclic : ∀ link, ¬ Relation.TransGen (Before linkNeeds links) link link) :
    ∃ (fuel : Nat) (sorted : List Row), (∀ n, fuel ≤ n → exchangeAll linkNeeds n links = some sorted) ∧
      sorted.Perm links ∧ ∀ (i j : Nat) (linki linkj : Row), i < j → sorted[i]? = some linki →
        sorted[j]? = some linkj → linki.col3 ≠ linkj.col2 := by
  obtain ⟨fuel, sorted, hsort⟩ := (exchangeAll_terminates_iff linkNeeds hsource.of_map).2 hacyclic
  refine ⟨fuel, sorted, fun n hn => exchangeAll_of_le linkNeeds hn hsort, exchangeAll_perm linkNeeds hsort,
    fun i j linki linkj hij hi hj => ?_⟩
  obtain ⟨hilt, rfl⟩ := List.getElem?_eq_some_iff.1 hi
  obtain ⟨hjlt, rfl⟩ := List.getElem?_eq_some_iff.1 hj
  have hno := List.pairwise_iff_getElem.1 (exchangeAll_sorted linkNeeds hsort) i j hilt hjlt hij
  exact of_decide_eq_false hno

/-- Three servers in a row, the last one first. -/
theorem sort_orders_three : ∃ (fuel : Nat) (sorted : List Row),
    (∀ n, fuel ≤ n → exchangeAll linkNeeds n
        [⟨.rcvfrom, inst3.text, inst2.text⟩, ⟨.rcvfrom, inst2.text, inst1.text⟩] = some sorted) ∧
      sorted.Perm [⟨.rcvfrom, inst3.text, inst2.text⟩, ⟨.rcvfrom, inst2.text, inst1.text⟩] ∧
      ∀ (i j : Nat) (linki linkj : Row), i < j → sorted[i]? = some linki → sorted[j]? = some linkj →
        linki.col3 ≠ linkj.col2 := by
  refine sort_orders _ (by decide) (acyclic_of_rank linkNeeds
    (fun link => if link.col2 = inst3.text then 1 else 0) fun y x h => ?_)
  obtain ⟨hy, hx, -, hneeds⟩ := h
  simp only [List.mem_cons, List.not_mem_nil, or_false] at hy hx
  rcases hy with rfl | rfl <;> rcases hx with rfl | rfl <;> revert hneeds <;> decide

/-- The line of a link. -/
def linkRow (p : Instance × Instance) : Row := (Line.rcvfrom p.2 p.1).row

theorem mem_rcvfromlink {t : Links} {row : Row} : row ∈ rcvfromlink t.rows ↔
    ∃ p ∈ t.rcvfrom, row = linkRow p ∧ ∃ q ∈ t.srcto, p.2.text <+: q.2.text := by
  unfold rcvfromlink
  rw [List.mem_filter]
  constructor
  · intro hmem
    obtain ⟨hrow, h⟩ := hmem
    obtain ⟨line, hline, rfl⟩ := List.mem_map.1 hrow
    simp only [Bool.and_eq_true, decide_eq_true_eq] at h
    cases line with
    | srcto s rs => cases h.1
    | rcvfrom r s => exact ⟨(s, r), mem_rcvfrom.2 hline, rfl, (index_all_srcs t r).1 h.2⟩
  · intro h
    obtain ⟨⟨s, r⟩, hp, heq, hq⟩ := h
    rw [heq]
    refine ⟨List.mem_map_of_mem (f := Line.row) (mem_rcvfrom.1 hp), ?_⟩
    exact Bool.and_eq_true_iff.2 ⟨rfl, decide_eq_true ((index_all_srcs t r).2 hq)⟩

theorem linkRow_inj {p q : Instance × Instance} (h : linkRow p = linkRow q) : p = q := by
  obtain ⟨-, h2, h3⟩ := Row.mk.inj h
  exact Prod.ext (Instance.ext_text h3) (Instance.ext_text h2)

theorem rcvfromlink_nodup (t : Links) : (rcvfromlink t.rows).Nodup := by
  have hsnd : (t.rcvfrom.map Prod.snd).Nodup := by
    rw [rcvfrom_map_snd]
    exact t.one_rcvfrom
  have hpairs : ((rcvfromlink t.rows).map fun link => (link.col3, link.col2)).Nodup := by
    rw [rcvfromlink_pairs]
    exact (hsnd.of_map.filter _).map fun _ _ h => pairText_inj.1 h
  exact hpairs.of_map

/-! ## 4. What is synchronised -/

theorem loop_thro_all_sync_perm {t : Links} {fuel : Nat} {out : List (Text × Text)}
    (h : loop_thro_all_sync fuel t.rows = some out) :
    out.Perm ((t.rcvfrom.filter fun p => index (all_srcs t.rows) p.2.text ≠ 0).map pairText) := by
  obtain ⟨links, hsort, rfl⟩ := Option.map_eq_some_iff.1 h
  have hperm := exchangeAll_perm linkNeeds hsort
  have hall : links.filter (fun link => index (all_srcs t.rows) link.col2 ≠ 0) = links := by
    refine List.filter_eq_self.2 fun link hlink => ?_
    have hmem := (List.mem_filter.1 (hperm.subset hlink)).2
    rw [Bool.and_eq_true] at hmem
    exact hmem.2
  rw [hall, ← rcvfromlink_pairs]
  exact hperm.map _

/-- Where no link is stray, the search keeps the live ones. -/
theorem kept_iff {t : Links} (hstray : ∀ p, ¬ Stray t p) {p : Instance × Instance}
    (hp : p ∈ t.rcvfrom) : index (all_srcs t.rows) p.2.text ≠ 0 ↔ p ∈ t.srcto := by
  rw [index_all_srcs]
  constructor
  · intro hq
    by_contra hnot
    exact hstray p ⟨hp, hnot, hq⟩
  · exact fun h => ⟨p, h, List.prefix_refl _⟩

/-- Upstream links are lines of which one needs the other. -/
theorem before_of_upstream {t : Links} {p q : Instance × Instance} (h : Upstream t p q) :
    Before linkNeeds (rcvfromlink t.rows) (linkRow p) (linkRow q) := by
  obtain ⟨hp, hq, hne, hneeds⟩ := h
  refine ⟨mem_rcvfromlink.2 ⟨p, hp.1, rfl, p, hp.2, List.prefix_refl _⟩,
    mem_rcvfromlink.2 ⟨q, hq.1, rfl, q, hq.2, List.prefix_refl _⟩, fun heq => hne (linkRow_inj heq), ?_⟩
  exact decide_eq_true (congrArg Instance.text hneeds)

theorem upstream_of_before {t : Links} (hstray : ∀ p, ¬ Stray t p) {y x : Row}
    (h : Before linkNeeds (rcvfromlink t.rows) y x) :
    ∃ p q, y = linkRow p ∧ x = linkRow q ∧ Upstream t p q := by
  obtain ⟨hy, hx, hne, hneeds⟩ := h
  obtain ⟨p, hp, rfl, hpq⟩ := mem_rcvfromlink.1 hy
  obtain ⟨q, hq, rfl, hqq⟩ := mem_rcvfromlink.1 hx
  refine ⟨p, q, rfl, rfl, ⟨hp, ?_⟩, ⟨hq, ?_⟩, fun heq => hne (heq ▸ rfl), ?_⟩
  · exact (kept_iff hstray hp).1 ((index_all_srcs t p.2).2 hpq)
  · exact (kept_iff hstray hq).1 ((index_all_srcs t q.2).2 hqq)
  · exact Instance.ext_text (of_decide_eq_true hneeds)

theorem acyclic_iff {t : Links} (hstray : ∀ p, ¬ Stray t p) :
    (∀ x, ¬ Relation.TransGen (Before linkNeeds (rcvfromlink t.rows)) x x) ↔ Acyclic t := by
  constructor
  · intro h p hp
    exact h (linkRow p) (hp.lift linkRow fun _ _ hpq => before_of_upstream hpq)
  · intro h x hx
    have hlift : ∀ {y z}, Relation.TransGen (Before linkNeeds (rcvfromlink t.rows)) y z →
        ∃ p q, y = linkRow p ∧ z = linkRow q ∧ Relation.TransGen (Upstream t) p q := by
      intro y z hyz
      induction hyz with
      | single hone =>
          obtain ⟨p, q, hp, hq, hup⟩ := upstream_of_before hstray hone
          exact ⟨p, q, hp, hq, .single hup⟩
      | tail _ hone ih =>
          obtain ⟨p, q, hp, rfl, hpq⟩ := ih
          obtain ⟨q', r, hq', hr, hup⟩ := upstream_of_before hstray hone
          obtain rfl := linkRow_inj hq'
          exact ⟨p, r, hp, hr, hpq.tail hup⟩
    obtain ⟨p, q, hp, hq, hpq⟩ := hlift hx
    rw [hp] at hq
    obtain rfl := linkRow_inj hq
    exact h p hpq

/-- Where the live links are synchronised, no link is stray. -/
theorem not_stray_of_sync {t : Links} {fuel : Nat} {out : List (Text × Text)}
    (hout : loop_thro_all_sync fuel t.rows = some out)
    (hperm : out.Perm ((t.rcvfrom.filter fun p => p ∈ t.srcto).map pairText)) :
    ∀ p, ¬ Stray t p := by
  intro p ⟨hp, hnot, hfound⟩
  have hkept : p ∈ t.rcvfrom.filter fun p => index (all_srcs t.rows) p.2.text ≠ 0 :=
    List.mem_filter.2 ⟨hp, decide_eq_true ((index_all_srcs t p.2).2 hfound)⟩
  have hin := (loop_thro_all_sync_perm hout).symm.trans hperm |>.subset
    (List.mem_map_of_mem (f := pairText) hkept)
  obtain ⟨q, hq, heq⟩ := List.mem_map.1 hin
  obtain rfl := pairText_inj.1 heq
  exact hnot (of_decide_eq_true (List.mem_filter.1 hq).2)

/-- **SYNC ALL_LINKS synchronises the live links, each once, exactly if** no link that is not live has a
    receiver whose name begins one on some SRCTO line, and no live link is upstream of itself. -/
theorem sync_all_links_iff (t : Links) :
    (∃ fuel out, loop_thro_all_sync fuel t.rows = some out ∧
      out.Perm ((t.rcvfrom.filter fun p => p ∈ t.srcto).map pairText)) ↔
    (∀ p, ¬ Stray t p) ∧ Acyclic t := by
  constructor
  · intro ⟨fuel, out, hout, hperm⟩
    have hstray := not_stray_of_sync hout hperm
    refine ⟨hstray, (acyclic_iff hstray).1 ?_⟩
    obtain ⟨links, hsort, -⟩ := Option.map_eq_some_iff.1 hout
    exact (exchangeAll_terminates_iff linkNeeds (rcvfromlink_nodup t)).1 ⟨fuel, links, hsort⟩
  · intro ⟨hstray, hacyclic⟩
    obtain ⟨fuel, links, hsort⟩ := (exchangeAll_terminates_iff linkNeeds (rcvfromlink_nodup t)).2
      ((acyclic_iff hstray).2 hacyclic)
    have hout : loop_thro_all_sync fuel t.rows = some _ := Option.map_eq_some_iff.2 ⟨links, hsort, rfl⟩
    refine ⟨fuel, _, hout, (loop_thro_all_sync_perm hout).trans ?_⟩
    have hsame : t.rcvfrom.filter (fun p => index (all_srcs t.rows) p.2.text ≠ 0) =
        t.rcvfrom.filter fun p => p ∈ t.srcto :=
      List.filter_congr fun p hp => decide_eq_decide.2 (kept_iff hstray hp)
    rw [hsame]

/-! ### One table -/

/-- INST1 has no active source; INST2 sends to INST10. -/
def strayLinks : Links where
  lines := [.rcvfrom inst1 inst3, .srcto inst2 [inst10], .rcvfrom inst10 inst2]
  receivers_ne := by
    intro s rs h
    have hrs : .srcto s rs = Line.srcto inst2 [inst10] := by simpa using h
    cases hrs
    exact List.cons_ne_nil _ _
  receivers_nodup := by
    intro s rs h
    have hrs : .srcto s rs = Line.srcto inst2 [inst10] := by simpa using h
    cases hrs
    exact List.nodup_singleton _
  one_srcto := by decide
  one_rcvfrom := by decide

/-- INST1 is synchronised although its source INST3 is not active. -/
theorem sync_of_stopped_source : ¬ ∀ t : Links, ∃ fuel out,
    loop_thro_all_sync fuel t.rows = some out ∧
      out.Perm ((t.rcvfrom.filter fun p => p ∈ t.srcto).map pairText) := by
  intro h
  obtain ⟨fuel, out, hout, hperm⟩ := h strayLinks
  exact not_stray_of_sync hout hperm (inst3, inst1)
    ⟨by decide, by decide, (inst2, inst10), by decide, by decide⟩

end YottaTest.Multisite
