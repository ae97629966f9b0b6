/-
  File:      YottaTest/Multisite/Local.lean
  Subject:   When the deletion of one link is local.

  * `DelLocal` -- a deletion takes the link away and nothing else, does nothing without it, and
    undoes an addition;
  * `unlink_absent`, `delLocal_of_add`, `blocked_add` -- the parts of it;
  * `update_links_del_local_iff` -- **it is local exactly if the link is removable on its sides.**
-/
import YottaTest.Multisite.Edits

namespace YottaTest.Multisite

open YottaTest.Awk

/-- The deletion of the link from `s` to `r` is local. -/
structure DelLocal (t : Links) (type : Sides) (s r : Instance) : Prop where
  /-- on the SRCTO lines the link is gone and every other pair is there -/
  srcto : (srctoPairs (update_links_del t.rows type s.text r.text)).Perm
    ((t.srcto.filter fun p => ¬ (type.hasSrc ∧ p = (s, r))).map pairText)
  /-- and on the RCVFROM lines -/
  rcvfrom : (rcvfromPairs (update_links_del t.rows type s.text r.text)).Perm
    ((t.rcvfrom.filter fun p => ¬ (type.hasRcv ∧ p = (s, r))).map pairText)
  /-- without the link nothing changes -/
  absent : (type.hasSrc = true → (s, r) ∉ t.srcto) → (type.hasRcv = true → (s, r) ∉ t.rcvfrom) →
    update_links_del t.rows type s.text r.text = t.rows
  /-- an addition of the link to a receiver without a source is undone -/
  undoes : (s, r) ∉ t.srcto → (∀ s', (s', r) ∉ t.rcvfrom) → ∃ rows,
    update_links_add t.rows s.text r.text type = some rows ∧
    (srctoPairs (update_links_del rows type s.text r.text)).Perm (srctoPairs t.rows) ∧
    (rcvfromPairs (update_links_del rows type s.text r.text)).Perm (rcvfromPairs t.rows)

/-! ## 1. A link that is not there -/

theorem unlink_absent {t : Links} {type : Sides} {s r : Instance}
    (hsrc : type.hasSrc = true → (s, r) ∉ t.srcto) (hrcv : type.hasRcv = true → (s, r) ∉ t.rcvfrom) :
    (t.unlink type s r).rows = t.rows := by
  have hline : ∀ line ∈ t.lines, line.unlink type s r = some line := by
    intro line hmem
    cases line with
    | rcvfrom r' s' =>
        refine if_neg fun ⟨htype, hr, hs⟩ => hrcv htype ?_
        rw [mem_rcvfrom, ← hr, ← hs]
        exact hmem
    | srcto s' rs =>
        rw [Line.unlink]
        split
        · rename_i h
          have hnot : r ∉ rs := fun hr => hsrc h.1 (mem_srcto.2 ⟨rs, h.2 ▸ hmem, hr⟩)
          have hall : rs.filter (fun i => i ≠ r) = rs :=
            List.filter_eq_self.2 fun i hi => decide_eq_true fun heq => hnot (heq ▸ hi)
          rw [hall, if_neg (t.receivers_ne s' rs hmem)]
        · rfl
  unfold Links.rows Links.unlink
  dsimp only
  rw [List.filterMap_congr hline, List.filterMap_some]

/-! ## 2. An addition undone -/

theorem rcvfrom_nodup (t : Links) : t.rcvfrom.Nodup := by
  have hsnd : (t.rcvfrom.map Prod.snd).Nodup := by
    rw [rcvfrom_map_snd]
    exact t.one_rcvfrom
  exact hsnd.of_map

/-- Where an addition gives a table that has the link besides, and the link is removable there. -/
theorem delLocal_of_add {t t' : Links} {type : Sides} {s r : Instance}
    (hadd : update_links_add t.rows s.text r.text type = some t'.rows)
    (hsrc : type.hasSrc = true → Removable s r (t'.receiversOf s))
    (hrcv : type.hasRcv = true → ∀ s', (s', r) ∈ t'.rcvfrom → s' = s)
    (hsrcto : ∀ p, p ∈ t'.srcto ∧ ¬ (type.hasSrc = true ∧ p = (s, r)) ↔ p ∈ t.srcto)
    (hrcvfrom : ∀ p, p ∈ t'.rcvfrom ∧ ¬ (type.hasRcv = true ∧ p = (s, r)) ↔ p ∈ t.rcvfrom) :
    ∃ rows, update_links_add t.rows s.text r.text type = some rows ∧
      (srctoPairs (update_links_del rows type s.text r.text)).Perm (srctoPairs t.rows) ∧
      (rcvfromPairs (update_links_del rows type s.text r.text)).Perm (rcvfromPairs t.rows) := by
  refine ⟨t'.rows, hadd, ?_, ?_⟩
  · rw [del_rows hsrc hrcv, srctoPairs_rows, srctoPairs_rows, srcto_unlink]
    refine List.Perm.map _ ((List.perm_ext_iff_of_nodup ((srcto_nodup t').filter _) (srcto_nodup t)).2 ?_)
    intro p
    rw [List.mem_filter, decide_eq_true_eq]
    exact hsrcto p
  · rw [del_rows hsrc hrcv, rcvfromPairs_rows, rcvfromPairs_rows, rcvfrom_unlink]
    refine List.Perm.map _
      ((List.perm_ext_iff_of_nodup ((rcvfrom_nodup t').filter _) (rcvfrom_nodup t)).2 ?_)
    intro p
    rw [List.mem_filter, decide_eq_true_eq]
    exact hrcvfrom p

theorem receiversOf_link_rcv (t : Links) (s r : Instance) :
    (t.link .rcv s r).lines = t.lines ++ t.newLines .rcv s r ∧
      (t.link .rcv s r).receiversOf s = t.receiversOf s := by
  have hid : ∀ line ∈ t.lines, Line.link .rcv s r line = line := by
    intro line _
    cases line with
    | rcvfrom r' s' => rfl
    | srcto s' rs => simp [Line.link, Sides.hasSrc]
  have hlines : (t.link .rcv s r).lines = t.lines ++ t.newLines .rcv s r := by
    have hmap := List.map_congr_left hid
    rw [List.map_id'] at hmap
    exact congrArg (· ++ t.newLines .rcv s r) hmap
  refine ⟨hlines, ?_⟩
  have hnew : (t.newLines .rcv s r).flatMap (atSource s id) = [] := by
    unfold Links.newLines
    rw [if_neg fun h => by cases h.1]
    split
    · rfl
    · rfl
  rw [receiversOf_eq, receiversOf_eq, hlines, List.flatMap_append, hnew, List.append_nil]

/-- The receivers of a source after a link is added to its line. -/
theorem receiversOf_link {t : Links} {type : Sides} (htype : type.hasSrc = true) {s r : Instance}
    (hr : (s, r) ∉ t.srcto) : (t.link type s r).receiversOf s = t.receiversOf s ++ [r] := by
  by_cases hs : s ∈ t.lines.filterMap Line.srcOf
  · obtain ⟨rs, hline⟩ := mem_srcOf.1 hs
    have hnot : r ∉ rs := fun h => hr (mem_srcto.2 ⟨rs, hline, h⟩)
    have hin := List.mem_map_of_mem (f := Line.link type s r) hline
    rw [Line.link, if_pos ⟨htype, rfl, hnot⟩] at hin
    rw [receiversOf_of_mem hline]
    exact receiversOf_of_mem (List.mem_append_left _ hin)
  · have hnil : t.receiversOf s = [] := by
      rw [receiversOf_eq]
      exact flatMap_atSource_nil id hs
    rw [hnil]
    exact receiversOf_of_mem (List.mem_append_right _ (Links.mem_newLines_srcto.2 ⟨⟨htype, hs⟩, rfl, rfl⟩))

/-- Where the line has a name that the receiver's begins, an addition leaves the SRCTO lines as they are. -/
theorem blocked_add {t : Links} {type : Sides} {s r i : Instance} (hi : i ∈ t.receiversOf s)
    (hpre : r.text <+: i.text) : t.rows.map (addRow s.text r.text type) = t.rows ∧
      s ∈ t.lines.filterMap Line.srcOf := by
  have hrow : ∀ row ∈ t.rows, addRow s.text r.text type row = row := by
    intro row hrow
    obtain ⟨line, hline, rfl⟩ := List.mem_map.1 hrow
    refine if_neg fun ⟨_, hcol, htext, hindex⟩ => ?_
    cases line with
    | rcvfrom r' s' => cases hcol
    | srcto s' rs =>
        have hs : s = s' := Instance.ext_text htext
        rw [hs, receiversOf_of_mem hline] at hi
        exact (index_commas rs r).1 hindex i hi hpre
  refine ⟨?_, ?_⟩
  · rw [List.map_congr_left hrow, List.map_id']
  · obtain ⟨rs, hline, -⟩ := mem_srcto.1 (mem_receiversOf.1 hi)
    exact mem_srcOf.2 ⟨rs, hline⟩

/-- A removable link that is not there can be added and is then removable again, or is blocked. -/
theorem removable_append {s r : Instance} {rs : List Instance} (h : Removable s r rs) (hr : r ∉ rs)
    (hadd : ∀ i ∈ rs, ¬ r.text <+: i.text) : Removable s r (rs ++ [r]) := by
  match rs, h, hr, hadd with
  | [], _, _, _ => exact rfl
  | [i], h, hr, _ =>
      have hi : i = r := h
      exact absurd (List.mem_singleton.2 hi.symm) hr
  | i :: j :: rs, h, hr, hadd =>
      rw [Removable] at h
      rw [List.cons_append, List.cons_append, Removable, if_neg (hadd i (by simp))]
      refine ⟨h.1, fun k hk => ?_⟩
      have hnone : (j :: rs).find? (fun k => decide (r.text <+: k.text)) = none := by
        rw [List.find?_eq_none]
        intro x hx
        simpa using hadd x (List.mem_cons_of_mem i hx)
      rw [← List.cons_append, List.find?_append, hnone] at hk
      simpa using hk.symm

theorem undoes_of_removable {t : Links} {type : Sides} {s r : Instance}
    (hsrc : type.hasSrc = true → Removable s r (t.receiversOf s)) (hnot : (s, r) ∉ t.srcto)
    (hfree : ∀ s', (s', r) ∉ t.rcvfrom) : ∃ rows,
    update_links_add t.rows s.text r.text type = some rows ∧
    (srctoPairs (update_links_del rows type s.text r.text)).Perm (srctoPairs t.rows) ∧
    (rcvfromPairs (update_links_del rows type s.text r.text)).Perm (rcvfromPairs t.rows) := by
  have hrcv : ∀ {sides : Sides}, sides.hasRcv = true → ∀ s', (s', r) ∈ t.rcvfrom → s' = s :=
    fun _ s' hmem => absurd hmem (hfree s')
  have hafter : ∀ {sides : Sides}, ∀ s', (s', r) ∈ (t.link sides s r).rcvfrom → s' = s := by
    intro sides s' hmem
    rcases (mem_rcvfrom_link hrcv).1 hmem with hold | hnew
    · exact absurd hold (hfree s')
    · exact hnew.2.1
  have hkeeps : ∀ {l l' : List (Instance × Instance)} {side : Bool}, (s, r) ∉ l →
      (∀ a b, (a, b) ∈ l' ↔ (a, b) ∈ l ∨ side = true ∧ a = s ∧ b = r) →
      ∀ p, p ∈ l' ∧ ¬ (side = true ∧ p = (s, r)) ↔ p ∈ l := by
    intro l l' side hl hmem p
    obtain ⟨a, b⟩ := p
    rw [hmem, Prod.mk.injEq]
    constructor
    · intro ⟨h, hne⟩
      exact h.resolve_right hne
    · intro h
      exact ⟨Or.inl h, fun heq => hl (heq.2.1 ▸ heq.2.2 ▸ h)⟩
  by_cases hblocked : type.hasSrc = true ∧ ∃ i ∈ t.receiversOf s, r.text <+: i.text
  · obtain ⟨htype, i, hi, hpre⟩ := hblocked
    obtain ⟨hrows, hs⟩ := @blocked_add t type s r i hi hpre
    cases type with
    | rcv => cases htype
    | src =>
        have hnew : t.newLines .src s r = [] := by
          unfold Links.newLines
          rw [if_neg fun h => h.2 hs, if_neg fun h => by cases h.1]
          rfl
        refine @delLocal_of_add t t .src s r ?_ hsrc (fun h => by cases h) (fun p => ?_) fun p => ?_
        · rw [add_some hrcv, hrows, hnew]
          exact congrArg some (List.append_nil _)
        · exact ⟨And.left, fun h => ⟨h, fun heq => hnot (heq.2 ▸ h)⟩⟩
        · exact ⟨And.left, fun h => ⟨h, fun heq => by cases heq.1⟩⟩
    | both =>
        have hnew : t.newLines .both s r = t.newLines .rcv s r := by
          have hboth : ¬ (Sides.both.hasSrc = true ∧ s ∉ t.lines.filterMap Line.srcOf) :=
            fun h => h.2 hs
          have hrcvOnly : ¬ (Sides.rcv.hasSrc = true ∧ s ∉ t.lines.filterMap Line.srcOf) :=
            fun h => by cases h.1
          unfold Links.newLines
          rw [if_neg hboth, if_neg hrcvOnly]
          rfl
        obtain ⟨hlines, hreceivers⟩ := receiversOf_link_rcv t s r
        refine @delLocal_of_add t (t.link .rcv s r) .both s r ?_ ?_ (fun _ => hafter) ?_ ?_
        · rw [add_some hrcv, hrows, hnew]
          unfold Links.rows
          rw [hlines, List.map_append]
        · rw [hreceivers]
          exact hsrc
        · intro p
          obtain ⟨a, b⟩ := p
          rw [mem_srcto_link]
          constructor
          · intro ⟨h, _⟩
            rcases h with h | ⟨h, -⟩
            · exact h
            · cases h
          · exact fun h => ⟨Or.inl h, fun heq => hnot (heq.2 ▸ h)⟩
        · exact hkeeps (hfree s) fun a b => mem_rcvfrom_link hrcv
  · have hfreeName : type.hasSrc = true → ∀ i ∈ t.receiversOf s, ¬ r.text <+: i.text :=
      fun htype i hi hpre => hblocked ⟨htype, i, hi, hpre⟩
    refine @delLocal_of_add t (t.link type s r) type s r ?_ (fun htype => ?_) (fun _ => hafter) ?_ ?_
    · exact add_rows (fun htype => Or.inr (hfreeName htype)) hrcv
    · rw [receiversOf_link htype hnot]
      exact removable_append (hsrc htype) (fun h => hnot (mem_receiversOf.1 h)) (hfreeName htype)
    · exact hkeeps hnot fun a b => mem_srcto_link
    · exact hkeeps (hfree s) fun a b => mem_rcvfrom_link hrcv

/-! ## 3. When a deletion is local -/

theorem receiversOf_nodup (t : Links) (s : Instance) : (t.receiversOf s).Nodup := by
  by_cases hs : s ∈ t.lines.filterMap Line.srcOf
  · obtain ⟨rs, hline⟩ := mem_srcOf.1 hs
    rw [receiversOf_of_mem hline]
    exact t.receivers_nodup s rs hline
  · have hnil : t.receiversOf s = [] := by
      rw [receiversOf_eq]
      exact flatMap_atSource_nil id hs
    rw [hnil]
    exact List.nodup_nil

/-- The other receivers of the source, read from the pairs. -/
theorem otherNames_eq (t : Links) {type : Sides} (htype : type.hasSrc = true) (s r : Instance) :
    ((((t.srcto.filter fun p => ¬ (type.hasSrc ∧ p = (s, r))).map pairText).filter
      fun p => p.1 = s.text).map Prod.snd) = otherNames r (t.receiversOf s) := by
  have hfilter : ((fun p : Text × Text => decide (p.1 = s.text)) ∘ pairText) =
      fun p => decide (p.1 = s) := by
    funext p
    simp [pairText, Instance.text_inj]
  unfold otherNames Links.receiversOf
  rw [List.filter_map, List.filter_map, hfilter, List.filter_filter, List.filter_filter, List.map_map,
    List.map_map]
  congr 1
  refine List.filter_congr fun p _ => ?_
  obtain ⟨a, b⟩ := p
  by_cases ha : a = s
  · simp [ha, htype]
  · simp [ha]

/-- **The deletion of a link is local exactly if the link is removable**: on the SRCTO side from its
    source's line, on the RCVFROM side if its receiver has no other source. -/
theorem update_links_del_local_iff (t : Links) (type : Sides) (s r : Instance) :
    DelLocal t type s r ↔
      (type.hasSrc = true → Removable s r (t.receiversOf s)) ∧
      (type.hasRcv = true → ∀ s', (s', r) ∈ t.rcvfrom → s' = s) := by
  constructor
  · intro h
    refine ⟨fun htype => ?_, fun htype s' hmem => ?_⟩
    · refine removable_of_perm (receiversOf_nodup t s) ?_
      rw [← receivers_del t htype, ← otherNames_eq t htype]
      exact (h.srcto.filter _).map _
    · by_contra hne
      have hkept : (s', r) ∈ t.rcvfrom.filter fun p => ¬ (type.hasRcv ∧ p = (s, r)) := by
        refine List.mem_filter.2 ⟨hmem, decide_eq_true fun heq => hne ?_⟩
        exact (Prod.mk.inj heq.2).1
      have hread := h.rcvfrom.symm.subset (List.mem_map_of_mem (f := pairText) hkept)
      exact rcvfromPairs_del t htype s r (List.mem_map_of_mem (f := Prod.snd) hread)
  · intro ⟨hsrc, hrcv⟩
    have hrows := del_rows hsrc hrcv
    refine ⟨?_, ?_, fun hs hr => hrows.trans (unlink_absent hs hr), undoes_of_removable hsrc⟩
    · rw [hrows, srctoPairs_rows, srcto_unlink]
    · rw [hrows, rcvfromPairs_rows, rcvfrom_unlink]

/-! ### One table -/

/-- INST3 sends to INST2, INST10 and INST1. -/
def linksOf3 : Links where
  lines := [.srcto inst3 [inst2, inst10, inst1]]
  receivers_ne := by
    intro s rs h
    cases List.mem_singleton.1 h
    exact List.cons_ne_nil _ _
  receivers_nodup := by
    intro s rs h
    cases List.mem_singleton.1 h
    decide
  one_srcto := by decide
  one_rcvfrom := by decide

/-- The deletion of INST1 makes INST20 of INST2 and INST10, and INST1 stays. -/
theorem del_cuts_longer_name : ¬ ∀ (t : Links) (type : Sides) (s r : Instance),
    DelLocal t type s r := by
  intro h
  have hperm := (h linksOf3 .src inst3 inst1).srcto
  have hlen : (srctoPairs (update_links_del linksOf3.rows .src inst3.text inst1.text)).contains
      (inst3.text, inst1.text) = true := by decide
  have hmem := hperm.subset (List.contains_iff_mem.1 hlen)
  revert hmem
  decide

end YottaTest.Multisite
