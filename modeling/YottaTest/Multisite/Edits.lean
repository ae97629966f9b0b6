/-
  File:      YottaTest/Multisite/Edits.lean
  Subject:   What the script's edits do to the links of a consistent table.

  * `afterDel`, `srctoPairs_del`, `rcvfromPairs_del` -- the pairs read after a deletion;
  * `Removable`, `afterDel_eq`, `removable_of_perm` -- **when the line of the source loses the receiver
    and nothing else**;
  * `Links.unlink`, `del_rows` -- the table without the link, and the deletion that gives it;
  * `Links.link`, `Addable`, `add_rows` -- the table with the link, and the addition that gives it.
-/
import YottaTest.Multisite.Lines

namespace YottaTest.Multisite

open YottaTest.Awk

/-! ## 1. The line of the source, after a deletion -/

/-- The names read from the line of `s` after the deletion of `r`; none where the line is deleted. -/
def afterDel (s r : Instance) : List Instance → List Text
  | [] => []
  | [_] => []
  | i :: j :: rs =>
      if s = r then []
      else if r.text <+: i.text then removeInner r.text ((i :: j :: rs).map Instance.text)
      else cutLater r.text ((i :: j :: rs).map Instance.text)

/-- The pairs a printed line is read as. -/
def rowPairs (row : Row) : List (Text × Text) :=
  if row.col1 = .srcto then (row.col3.splitOn ',').map fun r => (row.col2, r) else []

theorem index_comma (rs : List Instance) : index (commas rs) [','] = 0 ↔ rs.length ≤ 1 := by
  rw [index_eq_zero (List.cons_ne_nil _ _), List.singleton_infix_iff]
  match rs with
  | [] => simp [commas]
  | [i] => simpa [commas] using i.comma.sep_notMem
  | i :: j :: rs =>
      have hmem : ',' ∈ commas (i :: j :: rs) := sep_mem_intercalate _
      simp [hmem]

theorem splitOn_unplug (r i j : Instance) (rs : List Instance) :
    (unplug (commas (i :: j :: rs)) r.text).splitOn ',' =
      if r.text <+: i.text then removeInner r.text ((i :: j :: rs).map Instance.text)
      else cutLater r.text ((i :: j :: rs).map Instance.text) := by
  have htokens := isToken_texts (i :: j :: rs)
  have hseps : ∀ v ∈ (i :: j :: rs).map Instance.text, ',' ∉ v := fun v hv => (htokens v hv).sep_notMem
  have hfirst : index (commas (i :: j :: rs)) r.text = 1 ↔ r.text <+: i.text := by
    rw [index_eq_one r.text_ne_nil]
    exact prefix_intercalate r.comma i.text _
  unfold unplug
  by_cases hpre : r.text <+: i.text
  · rw [if_pos (hfirst.2 hpre), if_pos hpre, commas, sub_token_sep r.comma htokens]
    refine List.splitOn_intercalate ',' ?_ (removeInner_ne_nil _ _ _)
    exact fun v hv => hseps v (mem_of_mem_removeInner hv)
  · rw [if_neg fun h => hpre (hfirst.1 h), if_neg hpre, commas, sub_sep_token r.comma htokens]
    refine List.splitOn_intercalate ',' ?_ (cutLater_ne_nil _ _ _)
    exact fun v hv => notMem_of_mem_cutLater hseps hv

theorem delRow_source {type : Sides} (htype : type.hasSrc = true) (s r : Instance)
    (rs : List Instance) : delRow type s.text r.text (Line.srcto s rs).row =
      if rs.length ≤ 1 ∨ s = r then none
      else some ⟨.srcto, s.text, unplug (commas rs) r.text⟩ := by
  have hcol : ¬ (type.hasRcv = true ∧ (Line.srcto s rs).row.col1 = .rcvfrom ∧
      (Line.srcto s rs).row.col2 = r.text) := fun h => by cases h.2.1
  have hsrc : type.hasSrc = true ∧ (Line.srcto s rs).row.col1 = .srcto ∧
      (Line.srcto s rs).row.col2 = s.text := ⟨htype, rfl, rfl⟩
  have hempty : ¬ r.text = [] := r.text_ne_nil
  rw [delRow, if_neg hcol, if_pos hsrc]
  simp only [Line.row, index_comma, Instance.text_inj, hempty, or_false]

theorem delRow_srcto {type : Sides} (htype : type.hasSrc = true) (s r : Instance)
    {rs : List Instance} (hrs : rs ≠ []) :
    ((delRow type s.text r.text (Line.srcto s rs).row).toList.flatMap rowPairs) =
      (afterDel s r rs).map fun name => (s.text, name) := by
  rw [delRow_source htype]
  match rs with
  | [] => exact absurd rfl hrs
  | [i] => simp [afterDel]
  | i :: j :: rs =>
      by_cases hsr : s = r
      · simp [afterDel, hsr]
      · simp [afterDel, hsr, rowPairs, splitOn_unplug]

/-- A line that is not the source's, or of a deletion on the other side, is read as before. -/
theorem delRow_other {type : Sides} (s r s' : Instance) (rs : List Instance)
    (h : type.hasSrc = false ∨ s' ≠ s) :
    delRow type s.text r.text (Line.srcto s' rs).row = some (Line.srcto s' rs).row := by
  have hcol : ¬ (type.hasRcv = true ∧ (Line.srcto s' rs).row.col1 = .rcvfrom ∧
      (Line.srcto s' rs).row.col2 = r.text) := fun h => by cases h.2.1
  have hsrc : ¬ (type.hasSrc = true ∧ (Line.srcto s' rs).row.col1 = .srcto ∧
      (Line.srcto s' rs).row.col2 = s.text) := by
    intro ⟨htype, _, htext⟩
    rcases h with h | h
    · rw [htype] at h
      cases h
    · exact h (Instance.ext_text htext)
  rw [delRow, if_neg hcol, if_neg hsrc]

theorem delRow_rcvfrom {type : Sides} (s r r' s' : Instance) :
    delRow type s.text r.text (Line.rcvfrom r' s').row =
      if type.hasRcv = true ∧ r' = r then none else some (Line.rcvfrom r' s').row := by
  unfold delRow
  simp [Line.row, Instance.text_inj]

/-! ## 2. When it loses the receiver and nothing else -/

/-- The list the line of `s` holds is one from which `r` is removed without harm: it is empty, it is
    `r`, or it has more, `s` is not `r`, and either `r`'s name begins the first name and `r` is not
    the last, or it does not and the first name it begins, if any, is its own. -/
def Removable (s r : Instance) : List Instance → Prop
  | [] => True
  | [i] => i = r
  | i :: j :: rs => s ≠ r ∧
      if r.text <+: i.text then (j :: rs).getLast (List.cons_ne_nil j rs) ≠ r
      else ∀ k, (j :: rs).find? (fun k => r.text <+: k.text) = some k → k = r

/-- The names of the receivers other than `r`. -/
def otherNames (r : Instance) (rs : List Instance) : List Text :=
  (rs.filter fun i => i ≠ r).map Instance.text

theorem otherNames_of_notMem {r : Instance} {rs : List Instance} (h : r ∉ rs) :
    otherNames r rs = rs.map Instance.text := by
  have hall : rs.filter (fun i => i ≠ r) = rs := by
    refine List.filter_eq_self.2 fun i hi => ?_
    exact decide_eq_true fun heq => h (heq ▸ hi)
  rw [otherNames, hall]

theorem notMem_otherNames (r : Instance) (rs : List Instance) : r.text ∉ otherNames r rs := by
  unfold otherNames
  rw [mem_texts, List.mem_filter]
  simp

theorem removeInner_eq {r : Instance} : ∀ {rs : List Instance} (hne : rs ≠ []), rs.Nodup →
    rs.getLast hne ≠ r → removeInner r.text (rs.map Instance.text) = otherNames r rs
  | [], hne, _, _ => absurd rfl hne
  | [i], _, _, hlast => by
      have hi : r ∉ [i] := by
        intro h
        exact hlast (List.mem_singleton.1 h).symm
      rw [otherNames_of_notMem hi]
      rfl
  | i :: j :: rs, _, hnd, hlast => by
      obtain ⟨hi, htail⟩ := List.nodup_cons.1 hnd
      rw [List.getLast_cons (List.cons_ne_nil j rs)] at hlast
      have ih := removeInner_eq (List.cons_ne_nil j rs) htail hlast
      rw [List.map_cons, List.map_cons, removeInner]
      by_cases heq : i = r
      · rw [if_pos (by rw [heq]), ← List.map_cons, ← otherNames_of_notMem (heq ▸ hi)]
        simp [otherNames, heq]
      · rw [if_neg fun h => heq (Instance.ext_text h), ← List.map_cons, ih]
        simp [otherNames, heq]

/-- Where `r` is the last, it stays. -/
theorem mem_removeInner_last {r : Instance} : ∀ {rs : List Instance} (hne : rs ≠ []),
    rs.getLast hne = r → rs.Nodup → r.text ∈ removeInner r.text (rs.map Instance.text)
  | [], hne, _, _ => absurd rfl hne
  | [i], _, hlast, _ => by
      have hi : i = r := hlast
      rw [hi]
      exact List.mem_singleton.2 rfl
  | i :: j :: rs, _, hlast, hnd => by
      obtain ⟨hi, htail⟩ := List.nodup_cons.1 hnd
      rw [List.getLast_cons (List.cons_ne_nil j rs)] at hlast
      have hne : ¬ i = r := by
        intro heq
        rw [heq, ← hlast] at hi
        exact hi (List.getLast_mem _)
      have ih := mem_removeInner_last (List.cons_ne_nil j rs) hlast htail
      rw [List.map_cons, List.map_cons, removeInner, if_neg fun h => hne (Instance.ext_text h)]
      exact List.mem_cons_of_mem _ ih

theorem cutLater_eq {r : Instance} : ∀ {i : Instance} {rs : List Instance}, i ≠ r → rs.Nodup →
    (∀ k, rs.find? (fun k => r.text <+: k.text) = some k → k = r) →
    cutLater r.text ((i :: rs).map Instance.text) = otherNames r (i :: rs)
  | i, [], hi, _, _ => by simp [cutLater, otherNames, hi]
  | i, j :: rs, hi, hnd, hfind => by
      obtain ⟨hj, htail⟩ := List.nodup_cons.1 hnd
      rw [List.map_cons, List.map_cons, cutLater]
      by_cases hpre : r.text <+: j.text
      · have hjr : j = r := hfind j (by simp [hpre])
        have hrest := otherNames_of_notMem (hjr ▸ hj)
        rw [if_pos hpre, hjr, List.drop_length, List.append_nil, ← hrest]
        simp [otherNames, hi]
      · have hjr : j ≠ r := fun heq => hpre (heq ▸ List.prefix_refl _)
        have hrest : ∀ k, rs.find? (fun k => r.text <+: k.text) = some k → k = r := by
          intro k hk
          exact hfind k (by simpa [List.find?_cons, hpre] using hk)
        rw [if_neg hpre, ← List.map_cons, cutLater_eq hjr htail hrest]
        simp [otherNames, hi]

/-- Where another name is cut, there is one name less, and `r` stays where it was. -/
theorem cutLater_of_other {r k : Instance} : ∀ {i : Instance} {rs : List Instance},
    rs.find? (fun k => r.text <+: k.text) = some k → k ≠ r →
    (cutLater r.text ((i :: rs).map Instance.text)).length = rs.length ∧
      (r ∈ rs → r.text ∈ cutLater r.text ((i :: rs).map Instance.text))
  | i, [], hfind, _ => by cases hfind
  | i, j :: rs, hfind, hk => by
      rw [List.map_cons, List.map_cons, cutLater]
      by_cases hpre : r.text <+: j.text
      · have hjk : j = k := by simpa [List.find?_cons, hpre] using hfind
        rw [if_pos hpre]
        refine ⟨by simp, fun hr => ?_⟩
        have hrs : r ∈ rs := (List.mem_cons.1 hr).resolve_left fun heq => hk (hjk ▸ heq.symm)
        exact List.mem_cons_of_mem _ (mem_texts.2 hrs)
      · have hrest : rs.find? (fun k => r.text <+: k.text) = some k := by
          simpa [List.find?_cons, hpre] using hfind
        obtain ⟨hlen, hmem⟩ := @cutLater_of_other r k j rs hrest hk
        rw [List.map_cons] at hlen hmem
        rw [if_neg hpre]
        refine ⟨by rw [List.length_cons, hlen, List.length_cons], fun hr => ?_⟩
        have hrs : r ∈ rs := (List.mem_cons.1 hr).resolve_left
          fun heq => hpre (heq ▸ List.prefix_refl _)
        exact List.mem_cons_of_mem _ (hmem hrs)

theorem afterDel_eq {s r : Instance} {rs : List Instance} (hnd : rs.Nodup) (h : Removable s r rs) :
    afterDel s r rs = otherNames r rs := by
  match rs, hnd, h with
  | [], _, _ => rfl
  | [i], _, h =>
      have hi : i = r := h
      simp [afterDel, otherNames, hi]
  | i :: j :: rs, hnd, h =>
      rw [Removable] at h
      obtain ⟨hsr, h⟩ := h
      rw [afterDel, if_neg hsr]
      by_cases hpre : r.text <+: i.text
      · rw [if_pos hpre] at h ⊢
        rw [← List.getLast_cons (List.cons_ne_nil j rs)] at h
        exact removeInner_eq (List.cons_ne_nil i (j :: rs)) hnd h
      · rw [if_neg hpre] at h ⊢
        exact cutLater_eq (fun heq => hpre (heq ▸ List.prefix_refl _)) (List.nodup_cons.1 hnd).2 h

theorem removable_of_perm {s r : Instance} {rs : List Instance} (hnd : rs.Nodup)
    (hperm : (afterDel s r rs).Perm (otherNames r rs)) : Removable s r rs := by
  match rs, hnd, hperm with
  | [], _, _ => exact trivial
  | [i], _, hperm =>
      have hnil : otherNames r [i] = [] := List.nil_perm.1 hperm
      have hi : i = r := by simpa [otherNames] using hnil
      exact hi
  | i :: j :: rs, hnd, hperm =>
      have hi := (List.nodup_cons.1 hnd).1
      rw [afterDel] at hperm
      rw [Removable]
      by_cases hsr : s = r
      · rw [if_pos hsr] at hperm
        have hnil : otherNames r (i :: j :: rs) = [] := List.nil_perm.1 hperm
        have hall : ∀ k ∈ i :: j :: rs, k = r := by
          simpa [otherNames, List.filter_eq_nil_iff] using hnil
        have hij : i = j := (hall i (by simp)).trans (hall j (by simp)).symm
        exact absurd (hij ▸ List.mem_cons_self) hi
      · rw [if_neg hsr] at hperm
        refine ⟨hsr, ?_⟩
        by_cases hpre : r.text <+: i.text
        · rw [if_pos hpre] at hperm ⊢
          rw [← List.getLast_cons (List.cons_ne_nil j rs)]
          intro hlast
          have hmem := mem_removeInner_last (List.cons_ne_nil i (j :: rs)) hlast hnd
          exact notMem_otherNames r _ (hperm.subset hmem)
        · rw [if_neg hpre] at hperm ⊢
          intro k hk
          by_contra hkr
          obtain ⟨hlen, hmem⟩ := @cutLater_of_other r k i (j :: rs) hk hkr
          by_cases hr : r ∈ j :: rs
          · exact notMem_otherNames r _ (hperm.subset (hmem hr))
          · have hnot : r ∉ i :: j :: rs := by
              rw [List.mem_cons, not_or]
              exact ⟨fun heq => hpre (heq ▸ List.prefix_refl _), hr⟩
            have hlength := hperm.length_eq
            rw [hlen, otherNames_of_notMem hnot] at hlength
            simp at hlength

/-! ## 3. The table without a link -/

/-- The line without the link from `s` to `r`; `none` where nothing is left of it. -/
def Line.unlink (type : Sides) (s r : Instance) : Line → Option Line
  | .srcto s' rs =>
      if type.hasSrc ∧ s' = s then
        if rs.filter (fun i => i ≠ r) = [] then none else some (.srcto s' (rs.filter fun i => i ≠ r))
      else some (.srcto s' rs)
  | .rcvfrom r' s' => if type.hasRcv ∧ r' = r ∧ s' = s then none else some (.rcvfrom r' s')

theorem Line.srcto_of_unlink {type : Sides} {s r s' : Instance} {rs' : List Instance} {line : Line}
    (h : line.unlink type s r = some (.srcto s' rs')) : rs' ≠ [] ∨ line = .srcto s' rs' := by
  cases line with
  | rcvfrom r' s' =>
      rw [Line.unlink] at h
      split at h
      · cases h
      · cases h
  | srcto s'' rs =>
      rw [Line.unlink] at h
      split at h
      · split at h
        · cases h
        · rename_i hne
          cases h
          exact Or.inl hne
      · cases h
        exact Or.inr rfl

theorem Line.sublist_of_unlink {type : Sides} {s r s' : Instance} {rs' : List Instance} {line : Line}
    (h : line.unlink type s r = some (.srcto s' rs')) :
    ∃ rs, line = .srcto s' rs ∧ rs'.Sublist rs := by
  cases line with
  | rcvfrom r' s' =>
      rw [Line.unlink] at h
      split at h
      · cases h
      · cases h
  | srcto s'' rs =>
      rw [Line.unlink] at h
      split at h
      · split at h
        · cases h
        · cases h
          exact ⟨rs, rfl, List.filter_sublist⟩
      · cases h
        exact ⟨_, rfl, List.Sublist.refl _⟩

theorem filterMap_unlink_sublist {α : Type} (f : Line → Option α) (type : Sides) (s r : Instance)
    (hf : ∀ line line', line.unlink type s r = some line' → f line' = f line) (lines : List Line) :
    ((lines.filterMap (Line.unlink type s r)).filterMap f).Sublist (lines.filterMap f) := by
  induction lines with
  | nil => exact List.Sublist.refl _
  | cons line lines ih =>
      have hcons : ∀ {tail : List α}, tail.Sublist ((line :: lines).filterMap f) ∨
          tail.Sublist (lines.filterMap f) → tail.Sublist ((line :: lines).filterMap f) := by
        intro tail h
        rcases h with h | h
        · exact h
        · refine h.trans ?_
          cases hl : f line with
          | none => rw [List.filterMap_cons_none hl]
          | some x =>
              rw [List.filterMap_cons_some hl]
              exact List.sublist_cons_self _ _
      cases hu : line.unlink type s r with
      | none =>
          rw [List.filterMap_cons_none hu]
          exact hcons (Or.inr ih)
      | some line' =>
          rw [List.filterMap_cons_some hu]
          cases hl : f line with
          | none =>
              rw [List.filterMap_cons_none ((hf line line' hu).trans hl), List.filterMap_cons_none hl]
              exact ih
          | some x =>
              rw [List.filterMap_cons_some ((hf line line' hu).trans hl), List.filterMap_cons_some hl]
              exact ih.cons_cons x

theorem Line.unlink_keeps {type : Sides} {s r : Instance} {line line' : Line}
    (h : line.unlink type s r = some line') :
    line'.srcOf = line.srcOf ∧ line'.rcvOf = line.rcvOf := by
  cases line with
  | srcto s' rs =>
      rw [Line.unlink] at h
      split at h
      · split at h
        · cases h
        · cases h
          exact ⟨rfl, rfl⟩
      · cases h
        exact ⟨rfl, rfl⟩
  | rcvfrom r' s' =>
      rw [Line.unlink] at h
      split at h
      · cases h
      · cases h
        exact ⟨rfl, rfl⟩

/-- The table without the link from `s` to `r`, on the sides given. -/
def Links.unlink (t : Links) (type : Sides) (s r : Instance) : Links where
  lines := t.lines.filterMap (Line.unlink type s r)
  receivers_ne := by
    intro s' rs' h
    obtain ⟨line, hline, hu⟩ := List.mem_filterMap.1 h
    rcases Line.srcto_of_unlink hu with hne | rfl
    · exact hne
    · exact t.receivers_ne s' rs' hline
  receivers_nodup := by
    intro s' rs' h
    obtain ⟨line, hline, hu⟩ := List.mem_filterMap.1 h
    obtain ⟨rs, rfl, hsub⟩ := Line.sublist_of_unlink hu
    exact (t.receivers_nodup s' rs hline).sublist hsub
  one_srcto := t.one_srcto.sublist
    (filterMap_unlink_sublist Line.srcOf type s r (fun _ _ h => (Line.unlink_keeps h).1) t.lines)
  one_rcvfrom := t.one_rcvfrom.sublist
    (filterMap_unlink_sublist Line.rcvOf type s r (fun _ _ h => (Line.unlink_keeps h).2) t.lines)

/-- What is read from the lines, line by line. -/
theorem flatMap_unlink {β : Type} {type : Sides} {s r : Instance} {f : Line → List β} {p : β → Bool}
    (hf : ∀ line, (Line.unlink type s r line).toList.flatMap f = (f line).filter p)
    (lines : List Line) :
    (lines.filterMap (Line.unlink type s r)).flatMap f = (lines.flatMap f).filter p := by
  induction lines with
  | nil => rfl
  | cons line lines ih =>
      rw [List.flatMap_cons, List.filter_append, ← hf line, ← ih]
      cases hu : line.unlink type s r with
      | none => simp [List.filterMap_cons_none hu]
      | some line' => simp [List.filterMap_cons_some hu]

theorem srcto_unlink (t : Links) (type : Sides) (s r : Instance) :
    (t.unlink type s r).srcto = t.srcto.filter fun p => ¬ (type.hasSrc ∧ p = (s, r)) := by
  refine flatMap_unlink (fun line => ?_) t.lines
  cases line with
  | rcvfrom r' s' =>
      rw [Line.unlink]
      split
      · rfl
      · rfl
  | srcto s' rs =>
      rw [Line.srcto_links, List.filter_map]
      by_cases hs : type.hasSrc = true ∧ s' = s
      · have hfilter : ((fun p => decide (¬ (type.hasSrc = true ∧ p = (s, r)))) ∘ fun i => (s', i)) =
            fun i => decide (i ≠ r) := by
          funext i
          simp [hs.1, hs.2]
        rw [hfilter, Line.unlink, if_pos hs]
        split
        · rename_i hnil
          rw [hnil]
          rfl
        · simp [Line.srcto_links]
      · have hfilter : ((fun p => decide (¬ (type.hasSrc = true ∧ p = (s, r)))) ∘ fun i => (s', i)) =
            fun _ => true := by
          funext i
          refine decide_eq_true fun h => hs ⟨h.1, (Prod.mk.inj h.2).1⟩
        rw [hfilter, Line.unlink, if_neg hs, List.filter_true]
        simp [Line.srcto_links]

theorem rcvfrom_unlink (t : Links) (type : Sides) (s r : Instance) :
    (t.unlink type s r).rcvfrom = t.rcvfrom.filter fun p => ¬ (type.hasRcv ∧ p = (s, r)) := by
  refine flatMap_unlink (fun line => ?_) t.lines
  cases line with
  | srcto s' rs =>
      rw [Line.unlink]
      split
      · split
        · rfl
        · rfl
      · rfl
  | rcvfrom r' s' =>
      rw [Line.unlink]
      by_cases hp : type.hasRcv = true ∧ r' = r ∧ s' = s
      · simp [Line.rcvfrom_links, hp.1, hp.2.1, hp.2.2]
      · have hne : ¬ (type.hasRcv = true ∧ (s', r') = (s, r)) :=
          fun h => hp ⟨h.1, (Prod.mk.inj h.2).2, (Prod.mk.inj h.2).1⟩
        have hkeep : decide (¬ (type.hasRcv = true ∧ (s', r') = (s, r))) = true := decide_eq_true hne
        rw [if_neg hp, Line.rcvfrom_links, List.filter_cons, if_pos hkeep]
        rfl

/-- The line of the source, unplugged. -/
theorem unplug_eq {s r i j : Instance} {rs : List Instance} (hnd : (i :: j :: rs).Nodup)
    (h : Removable s r (i :: j :: rs)) :
    unplug (commas (i :: j :: rs)) r.text = commas ((i :: j :: rs).filter fun k => k ≠ r) := by
  have hafter := afterDel_eq hnd h
  rw [Removable] at h
  rw [afterDel, if_neg h.1, ← splitOn_unplug] at hafter
  rw [← @List.intercalate_splitOn _ (unplug (commas (i :: j :: rs)) r.text) _ _ ',', hafter]
  rfl

theorem delRow_eq {t : Links} {type : Sides} {s r : Instance}
    (hsrc : type.hasSrc = true → Removable s r (t.receiversOf s))
    (hrcv : type.hasRcv = true → ∀ s', (s', r) ∈ t.rcvfrom → s' = s) {line : Line}
    (hline : line ∈ t.lines) :
    delRow type s.text r.text line.row = (line.unlink type s r).map Line.row := by
  cases line with
  | rcvfrom r' s' =>
      rw [delRow_rcvfrom, Line.unlink]
      by_cases hr : type.hasRcv = true ∧ r' = r
      · have hs : s' = s := hrcv hr.1 s' (mem_rcvfrom.2 (hr.2 ▸ hline))
        rw [if_pos hr, if_pos ⟨hr.1, hr.2, hs⟩]
        rfl
      · rw [if_neg hr, if_neg fun h => hr ⟨h.1, h.2.1⟩]
        rfl
  | srcto s' rs =>
      by_cases hs : type.hasSrc = true ∧ s' = s
      · obtain ⟨htype, rfl⟩ := hs
        have hrem := hsrc htype
        rw [receiversOf_of_mem hline] at hrem
        have hnd := t.receivers_nodup s' rs hline
        have hhere : type.hasSrc = true ∧ s' = s' := ⟨htype, rfl⟩
        rw [delRow_source htype, Line.unlink, if_pos hhere]
        match rs, hline, hrem, hnd with
        | [], hline, _, _ => exact absurd rfl (t.receivers_ne s' [] hline)
        | [i], _, hrem, _ =>
            have hi : i = r := hrem
            simp [hi]
        | i :: j :: rs, _, hrem, hnd =>
            have hlen : ¬ ((i :: j :: rs).length ≤ 1 ∨ s' = r) := by
              rw [not_or]
              rw [Removable] at hrem
              exact ⟨by simp, hrem.1⟩
            have hne : ¬ (i :: j :: rs).filter (fun k => k ≠ r) = [] := by
              intro hnil
              rw [List.filter_eq_nil_iff] at hnil
              have hi : i = r := by simpa using hnil i (by simp)
              have hj : j = r := by simpa using hnil j (by simp)
              exact (List.nodup_cons.1 hnd).1 (hi.trans hj.symm ▸ List.mem_cons_self)
            rw [if_neg hlen, if_neg hne, unplug_eq hnd hrem]
            rfl
      · have hother : type.hasSrc = false ∨ s' ≠ s := by
          by_cases htype : type.hasSrc = true
          · exact Or.inr fun heq => hs ⟨htype, heq⟩
          · exact Or.inl (by simpa using htype)
        rw [delRow_other s r s' rs hother, Line.unlink, if_neg hs]
        rfl

/-- **A deletion of a removable link gives the table without it.** -/
theorem del_rows {t : Links} {type : Sides} {s r : Instance}
    (hsrc : type.hasSrc = true → Removable s r (t.receiversOf s))
    (hrcv : type.hasRcv = true → ∀ s', (s', r) ∈ t.rcvfrom → s' = s) :
    update_links_del t.rows type s.text r.text = (t.unlink type s r).rows := by
  unfold update_links_del Links.rows Links.unlink
  rw [List.filterMap_map, List.map_filterMap]
  exact List.filterMap_congr fun line hline => delRow_eq hsrc hrcv hline

/-! ### What a deletion leaves in any case -/

theorem receivers_del (t : Links) {type : Sides} (htype : type.hasSrc = true) (s r : Instance) :
    receivers (update_links_del t.rows type s.text r.text) s.text = afterDel s r (t.receiversOf s) := by
  have hline : ∀ line, line ∈ t.lines →
      (((delRow type s.text r.text line.row).toList.flatMap rowPairs).filter
        fun p => p.1 = s.text).map Prod.snd = atSource s (afterDel s r) line := by
    intro line hmem
    cases line with
    | rcvfrom r' s' =>
        rw [delRow_rcvfrom]
        split
        · rfl
        · rfl
    | srcto s' rs =>
        by_cases hs : s' = s
        · rw [hs] at hmem ⊢
          rw [delRow_srcto htype s r (t.receivers_ne s rs hmem), List.filter_map, List.map_map]
          simp [atSource, Function.comp_def]
        · rw [delRow_other s r s' rs (Or.inr hs)]
          have hne : ¬ s'.text = s.text := fun h => hs (Instance.ext_text h)
          simp [rowPairs, Line.row, atSource, hs, List.filter_map, Function.comp_def, hne]
  have hall : ∀ lines : List Line, (∀ line ∈ lines, line ∈ t.lines) →
      receivers (update_links_del (lines.map Line.row) type s.text r.text) s.text =
        lines.flatMap (atSource s (afterDel s r)) := by
    intro lines
    induction lines with
    | nil => exact fun _ => rfl
    | cons line lines ih =>
        intro hsub
        have hrest := ih fun l hl => hsub l (List.mem_cons_of_mem _ hl)
        rw [List.flatMap_cons, ← hrest, ← hline line (hsub line List.mem_cons_self)]
        have hpairs : ∀ rows, srctoPairs rows = rows.flatMap rowPairs := fun _ => rfl
        unfold receivers update_links_del
        rw [hpairs, hpairs, List.map_cons]
        cases hd : delRow type s.text r.text line.row with
        | none => simp [List.filterMap_cons_none hd]
        | some row => simp [List.filterMap_cons_some hd]
  have hsource : t.lines.flatMap (atSource s (afterDel s r)) =
      afterDel s r (t.lines.flatMap (atSource s id)) := flatMap_atSource rfl t.one_srcto
  rw [receiversOf_eq, ← hsource]
  exact hall t.lines fun _ h => h

theorem rcvfromPairs_del (t : Links) {type : Sides} (htype : type.hasRcv = true) (s r : Instance) :
    r.text ∉ (rcvfromPairs (update_links_del t.rows type s.text r.text)).map Prod.snd := by
  intro hmem
  obtain ⟨p, hp, hr⟩ := List.mem_map.1 hmem
  obtain ⟨row, hrow, hread⟩ := List.mem_filterMap.1 hp
  obtain ⟨row', -, hdel⟩ := List.mem_filterMap.1 hrow
  split at hread
  · rename_i hcol
    cases hread
    rw [delRow] at hdel
    split at hdel
    · cases hdel
    · rename_i hnot
      split at hdel
      · rename_i hsrc
        split at hdel
        · cases hdel
        · cases hdel
          rw [hsrc.2.1] at hcol
          cases hcol
      · cases hdel
        exact hnot ⟨htype, hcol, hr⟩
  · cases hread

/-! ## 4. The table with a link -/

def Line.link (type : Sides) (s r : Instance) : Line → Line
  | .srcto s' rs => if type.hasSrc ∧ s' = s ∧ r ∉ rs then .srcto s' (rs ++ [r]) else .srcto s' rs
  | .rcvfrom r' s' => .rcvfrom r' s'

/-- The lines a link adds where its source or its receiver has none. -/
def Links.newLines (t : Links) (type : Sides) (s r : Instance) : List Line :=
  (if type.hasSrc ∧ s ∉ t.lines.filterMap Line.srcOf then [Line.srcto s [r]] else []) ++
    if type.hasRcv ∧ r ∉ t.lines.filterMap Line.rcvOf then [Line.rcvfrom r s] else []

theorem Line.link_keeps (type : Sides) (s r : Instance) (line : Line) :
    (line.link type s r).srcOf = line.srcOf ∧ (line.link type s r).rcvOf = line.rcvOf := by
  cases line with
  | rcvfrom r' s' => exact ⟨rfl, rfl⟩
  | srcto s' rs =>
      rw [Line.link]
      split
      · exact ⟨rfl, rfl⟩
      · exact ⟨rfl, rfl⟩

theorem filterMap_link {α : Type} {f : Line → Option α} {type : Sides} {s r : Instance}
    (hf : ∀ line, f (line.link type s r) = f line) (lines : List Line) :
    (lines.map (Line.link type s r)).filterMap f = lines.filterMap f := by
  rw [List.filterMap_map]
  exact List.filterMap_congr fun line _ => hf line

theorem Links.mem_newLines_srcto {t : Links} {type : Sides} {s r s' : Instance} {rs : List Instance} :
    .srcto s' rs ∈ t.newLines type s r ↔
      (type.hasSrc = true ∧ s ∉ t.lines.filterMap Line.srcOf) ∧ s' = s ∧ rs = [r] := by
  unfold Links.newLines
  simp only [List.mem_append, List.mem_ite_nil_right, List.mem_singleton, Line.srcto.injEq,
    reduceCtorEq, and_false, or_false]

theorem srcto_mem_link {type : Sides} {s r s' : Instance} {rs : List Instance} {lines : List Line}
    (h : .srcto s' rs ∈ lines.map (Line.link type s r)) : ∃ rs', .srcto s' rs' ∈ lines ∧
      (rs = rs' ∨ rs = rs' ++ [r] ∧ r ∉ rs') := by
  obtain ⟨line, hline, heq⟩ := List.mem_map.1 h
  cases line with
  | rcvfrom r' s'' => cases heq
  | srcto s'' rs' =>
      rw [Line.link] at heq
      split at heq
      · rename_i hnew
        cases heq
        exact ⟨rs', hline, Or.inr ⟨rfl, hnew.2.2⟩⟩
      · cases heq
        exact ⟨_, hline, Or.inl rfl⟩

/-- The table with the link from `s` to `r`, on the sides given. -/
def Links.link (t : Links) (type : Sides) (s r : Instance) : Links where
  lines := t.lines.map (Line.link type s r) ++ t.newLines type s r
  receivers_ne := by
    intro s' rs h
    rcases List.mem_append.1 h with hold | hnew
    · obtain ⟨rs', hline, rfl | ⟨rfl, -⟩⟩ := srcto_mem_link hold
      · exact t.receivers_ne s' _ hline
      · simp
    · rw [(Links.mem_newLines_srcto.1 hnew).2.2]
      exact List.cons_ne_nil _ _
  receivers_nodup := by
    intro s' rs h
    rcases List.mem_append.1 h with hold | hnew
    · obtain ⟨rs', hline, rfl | ⟨rfl, hr⟩⟩ := srcto_mem_link hold
      · exact t.receivers_nodup s' _ hline
      · rw [← List.concat_eq_append]
        exact (t.receivers_nodup s' rs' hline).concat hr
    · rw [(Links.mem_newLines_srcto.1 hnew).2.2]
      exact List.nodup_singleton r
  one_srcto := by
    rw [List.filterMap_append, filterMap_link fun line => (Line.link_keeps type s r line).1]
    have hnew : (t.newLines type s r).filterMap Line.srcOf =
        if type.hasSrc ∧ s ∉ t.lines.filterMap Line.srcOf then [s] else [] := by
      unfold Links.newLines
      split
      · split
        · rfl
        · rfl
      · split
        · rfl
        · rfl
    rw [hnew]
    split
    · rename_i h
      rw [← List.concat_eq_append]
      exact t.one_srcto.concat h.2
    · rw [List.append_nil]
      exact t.one_srcto
  one_rcvfrom := by
    rw [List.filterMap_append, filterMap_link fun line => (Line.link_keeps type s r line).2]
    have hnew : (t.newLines type s r).filterMap Line.rcvOf =
        if type.hasRcv ∧ r ∉ t.lines.filterMap Line.rcvOf then [r] else [] := by
      unfold Links.newLines
      split
      · split
        · rfl
        · rfl
      · split
        · rfl
        · rfl
    rw [hnew]
    split
    · rename_i h
      rw [← List.concat_eq_append]
      exact t.one_rcvfrom.concat h.2
    · rw [List.append_nil]
      exact t.one_rcvfrom

theorem mem_srcOf {t : Links} {s : Instance} :
    s ∈ t.lines.filterMap Line.srcOf ↔ ∃ rs, .srcto s rs ∈ t.lines := by
  rw [List.mem_filterMap]
  constructor
  · intro ⟨line, hline, hs⟩
    cases line with
    | rcvfrom r' s' => cases hs
    | srcto s' rs =>
        cases hs
        exact ⟨rs, hline⟩
  · intro ⟨rs, hline⟩
    exact ⟨_, hline, rfl⟩

theorem mem_rcvOf {t : Links} {r : Instance} :
    r ∈ t.lines.filterMap Line.rcvOf ↔ ∃ s, (s, r) ∈ t.rcvfrom := by
  rw [List.mem_filterMap]
  constructor
  · intro ⟨line, hline, hr⟩
    cases line with
    | srcto s' rs => cases hr
    | rcvfrom r' s' =>
        cases hr
        exact ⟨s', mem_rcvfrom.2 hline⟩
  · intro ⟨s, hmem⟩
    exact ⟨_, mem_rcvfrom.1 hmem, rfl⟩

theorem mem_srcto_link {t : Links} {type : Sides} {s r a b : Instance} :
    (a, b) ∈ (t.link type s r).srcto ↔ (a, b) ∈ t.srcto ∨ type.hasSrc = true ∧ a = s ∧ b = r := by
  rw [mem_srcto, mem_srcto]
  constructor
  · intro ⟨rs, hline, hb⟩
    rcases List.mem_append.1 hline with hold | hnew
    · obtain ⟨line, hmem, heq⟩ := List.mem_map.1 hold
      cases line with
      | rcvfrom r' s' => cases heq
      | srcto s' rs' =>
          rw [Line.link] at heq
          split at heq
          · rename_i h
            cases heq
            rcases List.mem_append.1 hb with hb | hb
            · exact Or.inl ⟨rs', hmem, hb⟩
            · exact Or.inr ⟨h.1, h.2.1, List.mem_singleton.1 hb⟩
          · cases heq
            exact Or.inl ⟨rs, hmem, hb⟩
    · obtain ⟨⟨htype, -⟩, hs, rfl⟩ := Links.mem_newLines_srcto.1 hnew
      exact Or.inr ⟨htype, hs, List.mem_singleton.1 hb⟩
  · intro h
    rcases h with ⟨rs, hline, hb⟩ | ⟨htype, rfl, rfl⟩
    · have hin := List.mem_map_of_mem (f := Line.link type s r) hline
      rw [Line.link] at hin
      split at hin
      · exact ⟨rs ++ [r], List.mem_append_left _ hin, List.mem_append_left _ hb⟩
      · exact ⟨rs, List.mem_append_left _ hin, hb⟩
    · by_cases hsrc : a ∈ t.lines.filterMap Line.srcOf
      · obtain ⟨rs, hline⟩ := mem_srcOf.1 hsrc
        have hin := List.mem_map_of_mem (f := Line.link type a b) hline
        rw [Line.link] at hin
        split at hin
        · exact ⟨rs ++ [b], List.mem_append_left _ hin, by simp⟩
        · rename_i hnot
          have hb : b ∈ rs := by
            by_contra hb
            exact hnot ⟨htype, rfl, hb⟩
          exact ⟨rs, List.mem_append_left _ hin, hb⟩
      · refine ⟨[b], List.mem_append_right _ ?_, List.mem_singleton.2 rfl⟩
        exact Links.mem_newLines_srcto.2 ⟨⟨htype, hsrc⟩, rfl, rfl⟩

theorem mem_rcvfrom_link {t : Links} {type : Sides} {s r a b : Instance}
    (hrcv : type.hasRcv = true → ∀ s', (s', r) ∈ t.rcvfrom → s' = s) :
    (a, b) ∈ (t.link type s r).rcvfrom ↔
      (a, b) ∈ t.rcvfrom ∨ type.hasRcv = true ∧ a = s ∧ b = r := by
  have hnew : .rcvfrom b a ∈ t.newLines type s r ↔
      (type.hasRcv = true ∧ r ∉ t.lines.filterMap Line.rcvOf) ∧ b = r ∧ a = s := by
    unfold Links.newLines
    simp only [List.mem_append, List.mem_ite_nil_right, List.mem_singleton, Line.rcvfrom.injEq,
      reduceCtorEq, and_false, false_or]
  have hold : .rcvfrom b a ∈ t.lines.map (Line.link type s r) ↔ .rcvfrom b a ∈ t.lines := by
    rw [List.mem_map]
    constructor
    · intro ⟨line, hline, heq⟩
      cases line with
      | rcvfrom r' s' =>
          cases heq
          exact hline
      | srcto s' rs =>
          rw [Line.link] at heq
          split at heq
          · cases heq
          · cases heq
    · exact fun h => ⟨_, h, rfl⟩
  rw [mem_rcvfrom, mem_rcvfrom]
  have happ : .rcvfrom b a ∈ (t.link type s r).lines ↔
      .rcvfrom b a ∈ t.lines ∨ .rcvfrom b a ∈ t.newLines type s r := by
    rw [← hold]
    exact List.mem_append
  rw [happ, hnew]
  constructor
  · intro h
    rcases h with h | ⟨⟨htype, -⟩, hb, ha⟩
    · exact Or.inl h
    · exact Or.inr ⟨htype, ha, hb⟩
  · intro h
    rcases h with h | ⟨htype, ha, hb⟩
    · exact Or.inl h
    · by_cases hr : r ∈ t.lines.filterMap Line.rcvOf
      · obtain ⟨s', hs'⟩ := mem_rcvOf.1 hr
        rw [hrcv htype s' hs'] at hs'
        rw [ha, hb]
        exact Or.inl (mem_rcvfrom.1 hs')
      · exact Or.inr ⟨⟨htype, hr⟩, hb, ha⟩

/-- The receiver can be added to the source's line: it is there, or its name begins none of those there. -/
def Addable (t : Links) (s r : Instance) : Prop :=
  r ∈ t.receiversOf s ∨ ∀ i ∈ t.receiversOf s, ¬ r.text <+: i.text

theorem commas_append {r : Instance} : ∀ {rs : List Instance}, rs ≠ [] →
    commas (rs ++ [r]) = commas rs ++ ',' :: r.text
  | [], h => absurd rfl h
  | [i], _ => by simp [commas, List.intercalate_cons_cons]
  | i :: j :: rs, _ => by
      have ih := @commas_append r (j :: rs) (List.cons_ne_nil j rs)
      have hcons : ∀ k ks, commas (i :: k :: ks) = i.text ++ ',' :: commas (k :: ks) := by
        intro k ks
        simp [commas, List.intercalate_cons_cons]
      rw [List.cons_append, List.cons_append, hcons, hcons, ← List.cons_append, ih]
      simp

theorem any_srcto (t : Links) (s : Instance) :
    (t.rows.any fun row => row.col1 = .srcto && s.text = row.col2) = true ↔
      s ∈ t.lines.filterMap Line.srcOf := by
  rw [mem_srcOf, List.any_eq_true]
  constructor
  · intro h
    obtain ⟨row, hrow, hs⟩ := h
    obtain ⟨line, hline, rfl⟩ := List.mem_map.1 hrow
    cases line with
    | rcvfrom r' s' => simp [Line.row] at hs
    | srcto s' rs =>
        have heq : s = s' := by simpa [Line.row, Instance.text_inj] using hs
        exact ⟨rs, heq ▸ hline⟩
  · intro h
    obtain ⟨rs, hline⟩ := h
    exact ⟨_, List.mem_map_of_mem hline, by simp [Line.row]⟩

theorem mem_ofReceiver {t : Links} {type : Sides} {r : Instance} {row : Row} :
    (row ∈ t.rows.filter fun row => type.hasRcv && row.col1 = .rcvfrom && r.text = row.col2) ↔
      type.hasRcv = true ∧ ∃ s', (s', r) ∈ t.rcvfrom ∧ row = ⟨.rcvfrom, r.text, s'.text⟩ := by
  rw [List.mem_filter]
  constructor
  · intro ⟨hrow, h⟩
    obtain ⟨line, hline, rfl⟩ := List.mem_map.1 hrow
    simp only [Bool.and_eq_true, decide_eq_true_eq] at h
    obtain ⟨⟨htype, hcol⟩, hr⟩ := h
    cases line with
    | srcto s' rs => cases hcol
    | rcvfrom r' s' =>
        have heq : r = r' := Instance.ext_text hr
        rw [heq]
        exact ⟨htype, s', mem_rcvfrom.2 hline, rfl⟩
  · intro ⟨htype, s', hmem, heq⟩
    rw [heq]
    exact ⟨List.mem_map_of_mem (f := Line.row) (mem_rcvfrom.1 hmem), by simp [htype]⟩

/-- A receiver with another source is an error. -/
theorem add_none {t : Links} {type : Sides} {s s' r : Instance} (htype : type.hasRcv = true)
    (hmem : (s', r) ∈ t.rcvfrom) (hne : s' ≠ s) :
    update_links_add t.rows s.text r.text type = none := by
  have hany : ((t.rows.filter fun row =>
      type.hasRcv && row.col1 = .rcvfrom && r.text = row.col2).any fun row => s.text ≠ row.col3) =
        true := by
    refine List.any_eq_true.2 ⟨_, mem_ofReceiver.2 ⟨htype, s', hmem, rfl⟩, ?_⟩
    exact decide_eq_true fun h => hne (Instance.ext_text h).symm
  unfold update_links_add
  rw [if_pos hany]

theorem add_some {t : Links} {type : Sides} {s r : Instance}
    (hrcv : type.hasRcv = true → ∀ s', (s', r) ∈ t.rcvfrom → s' = s) :
    update_links_add t.rows s.text r.text type =
      some (t.rows.map (addRow s.text r.text type) ++ (t.newLines type s r).map Line.row) := by
  have hnone : ¬ ((t.rows.filter fun row =>
      type.hasRcv && row.col1 = .rcvfrom && r.text = row.col2).any fun row => s.text ≠ row.col3) =
        true := by
    intro h
    obtain ⟨row, hrow, hne⟩ := List.any_eq_true.1 h
    obtain ⟨htype, s', hmem, rfl⟩ := mem_ofReceiver.1 hrow
    rw [hrcv htype s' hmem] at hne
    simp at hne
  have hrcvfrom : type.hasRcv = true → (((t.rows.filter fun row =>
      type.hasRcv && row.col1 = .rcvfrom && r.text = row.col2).any fun row => s.text = row.col3) =
        false ↔ r ∉ t.lines.filterMap Line.rcvOf) := by
    intro htype
    rw [mem_rcvOf, List.any_eq_false]
    constructor
    · intro h ⟨s', hmem⟩
      have hno := h _ (mem_ofReceiver.2 ⟨htype, s', hmem, rfl⟩)
      rw [hrcv htype s' hmem] at hno
      simp at hno
    · intro h row hrow
      obtain ⟨-, s', hmem, -⟩ := mem_ofReceiver.1 hrow
      exact absurd ⟨s', hmem⟩ h
  have hsrcto : type.hasSrc = true → ((type.hasSrc && t.rows.any fun row =>
      row.col1 = .srcto && s.text = row.col2) = false ↔ s ∉ t.lines.filterMap Line.srcOf) := by
    intro htype
    rw [htype, Bool.true_and, ← any_srcto, Bool.not_eq_true]
  unfold update_links_add Links.newLines
  simp only [if_neg hnone, and_congr_right_iff.2 hsrcto, and_congr_right_iff.2 hrcvfrom]
  rw [List.map_append, List.append_assoc]
  congr 2
  congr 1
  · split
    · simp [Line.row, commas]
    · rfl
  · split
    · rfl
    · rfl

/-- **An addition of an addable link gives the table with it.** -/
theorem add_rows {t : Links} {type : Sides} {s r : Instance}
    (hsrc : type.hasSrc = true → Addable t s r)
    (hrcv : type.hasRcv = true → ∀ s', (s', r) ∈ t.rcvfrom → s' = s) :
    update_links_add t.rows s.text r.text type = some (t.link type s r).rows := by
  rw [add_some hrcv]
  unfold Links.rows Links.link
  rw [List.map_append, List.map_map, List.map_map]
  congr 2
  refine List.map_congr_left fun line hline => ?_
  cases line with
  | rcvfrom r' s' =>
      have hcol : ¬ (type.hasSrc = true ∧ (Line.rcvfrom r' s').row.col1 = .srcto ∧
          s.text = (Line.rcvfrom r' s').row.col2 ∧
          index (Line.rcvfrom r' s').row.col3 r.text = 0) := fun h => by cases h.2.1
      exact if_neg hcol
  | srcto s' rs =>
      have hiff : (type.hasSrc = true ∧ (Line.srcto s' rs).row.col1 = .srcto ∧
          s.text = (Line.srcto s' rs).row.col2 ∧ index (Line.srcto s' rs).row.col3 r.text = 0) ↔
          (type.hasSrc = true ∧ s' = s ∧ r ∉ rs) := by
        constructor
        · intro ⟨htype, _, htext, hindex⟩
          refine ⟨htype, (Instance.ext_text htext).symm, fun hr => ?_⟩
          exact (index_commas rs r).1 hindex r hr (List.prefix_refl _)
        · intro ⟨htype, hs, hr⟩
          have hadd := hsrc htype
          rw [Addable, ← hs, receiversOf_of_mem hline] at hadd
          exact ⟨htype, rfl, by rw [hs]; rfl, (index_commas rs r).2 (hadd.resolve_left hr)⟩
      rw [Function.comp_apply, Function.comp_apply, addRow, Line.link]
      by_cases h : type.hasSrc = true ∧ s' = s ∧ r ∉ rs
      · rw [if_pos (hiff.2 h), if_pos h]
        simp only [Line.row]
        rw [commas_append (t.receivers_ne s' rs hline)]
      · rw [if_neg fun h' => h (hiff.1 h'), if_neg h]

end YottaTest.Multisite
