/-
  File:      YottaTest/Multisite/Started.lean
  Subject:   The link table and the links that are running.

  * `Started`, `Started.step` -- which sides of which links were started and not since stopped;
  * `Exact` -- the table is read as these, each once, with one RCVFROM line for a receiver;
  * `Safe` -- the step conditions: an addable receiver, a removable one, a receiver of this source;
  * `exact_step`, `table_exact` -- **runs of safe actions keep the table exact.**
-/
import YottaTest.Multisite.Edits

namespace YottaTest.Multisite

open YottaTest.Awk

/-! ## 1. What is running -/

/-- The links, source first, whose source side is running, and those whose receiver side is. -/
structure Started where
  src : Instance → Instance → Prop
  rcv : Instance → Instance → Prop

namespace Started

def none : Started := ⟨fun _ _ => False, fun _ _ => False⟩

def add (st : Started) (type : Sides) (s r : Instance) : Started where
  src a b := st.src a b ∨ type.hasSrc = true ∧ a = s ∧ b = r
  rcv a b := st.rcv a b ∨ type.hasRcv = true ∧ a = s ∧ b = r

def remove (st : Started) (type : Sides) (s r : Instance) : Started where
  src a b := st.src a b ∧ ¬ (type.hasSrc = true ∧ a = s ∧ b = r)
  rcv a b := st.rcv a b ∧ ¬ (type.hasRcv = true ∧ a = s ∧ b = r)

/-- What an accepted action starts or stops. -/
def step (st : Started) : Action → Started
  | .start s r => st.add .both s r
  | .startsrc s r => st.add .src s r
  | .startrcv s r => st.add .rcv s r
  | .stopsrc s r => st.remove .src s r
  | .stoprcv s r => st.remove .rcv s r
  | .stop s r | .crash s r => st.remove .both s r
  | .stopInst i | .crashInst i => ⟨fun a b => st.src a b ∧ a ≠ i, fun a b => st.rcv a b ∧ b ≠ i⟩
  | .allLinks => none

end Started

/-- The action is accepted. -/
def accepted (rows : List Row) (act : Action × Bool) : Bool :=
  (do_multisite_action rows act.1).isSome && act.2

/-- What is running after a sequence of actions. -/
def startedFrom (rows : List Row) (st : Started) : List (Action × Bool) → Started
  | [] => st
  | act :: acts =>
      startedFrom (replic rows act) (if accepted rows act then st.step act.1 else st) acts

/-- The table is read as what is running. -/
structure Exact (rows : List Row) (st : Started) : Prop where
  src : ∀ s r : Instance, (s.text, r.text) ∈ srctoPairs rows ↔ st.src s r
  rcv : ∀ s r : Instance, (s.text, r.text) ∈ rcvfromPairs rows ↔ st.rcv s r
  names : ∀ p ∈ srctoPairs rows ++ rcvfromPairs rows, ∃ s r : Instance, p = (s.text, r.text)
  src_nodup : (srctoPairs rows).Nodup
  rcv_nodup : (rcvfromPairs rows).Nodup
  one_rcvfrom : ((rcvfromPairs rows).map Prod.snd).Nodup

theorem mem_map_pairText {l : List (Instance × Instance)} {s r : Instance} :
    (s.text, r.text) ∈ l.map pairText ↔ (s, r) ∈ l := by
  constructor
  · intro h
    obtain ⟨p, hp, heq⟩ := List.mem_map.1 h
    have hpair : pairText p = pairText (s, r) := heq
    rw [← pairText_inj.1 hpair]
    exact hp
  · exact fun h => List.mem_map_of_mem (f := pairText) h

theorem exact_rows {t : Links} {st : Started} (hsrc : ∀ s r, (s, r) ∈ t.srcto ↔ st.src s r)
    (hrcv : ∀ s r, (s, r) ∈ t.rcvfrom ↔ st.rcv s r) : Exact t.rows st where
  src s r := by rw [srctoPairs_rows, mem_map_pairText, hsrc]
  rcv s r := by rw [rcvfromPairs_rows, mem_map_pairText, hrcv]
  names := by
    intro p hp
    rw [srctoPairs_rows, rcvfromPairs_rows, ← List.map_append] at hp
    obtain ⟨q, -, rfl⟩ := List.mem_map.1 hp
    exact ⟨q.1, q.2, rfl⟩
  src_nodup := by
    rw [srctoPairs_rows]
    exact (srcto_nodup t).map fun _ _ h => pairText_inj.1 h
  rcv_nodup := by
    have hsnd : (t.rcvfrom.map Prod.snd).Nodup := by
      rw [rcvfrom_map_snd]
      exact t.one_rcvfrom
    rw [rcvfromPairs_rows]
    exact hsnd.of_map.map fun _ _ h => pairText_inj.1 h
  one_rcvfrom := by
    have hsnd : (t.rcvfrom.map pairText).map Prod.snd = (t.rcvfrom.map Prod.snd).map Instance.text := by
      rw [List.map_map, List.map_map]
      rfl
    rw [rcvfromPairs_rows, hsnd, rcvfrom_map_snd]
    exact t.one_rcvfrom.map fun _ _ h => Instance.ext_text h

theorem Exact.mem_srcto {t : Links} {st : Started} (h : Exact t.rows st) (s r : Instance) :
    (s, r) ∈ t.srcto ↔ st.src s r := by
  rw [← h.src, srctoPairs_rows, mem_map_pairText]

theorem Exact.mem_rcvfrom {t : Links} {st : Started} (h : Exact t.rows st) (s r : Instance) :
    (s, r) ∈ t.rcvfrom ↔ st.rcv s r := by
  rw [← h.rcv, rcvfromPairs_rows, mem_map_pairText]

/-! ## 2. One action -/

/-- The condition on an action, in the table before it. -/
def Safe (t : Links) : Action → Prop
  | .start s r | .startsrc s r => Addable t s r
  | .stopsrc s r => Removable s r (t.receiversOf s)
  | .stoprcv s r => ∀ s', (s', r) ∈ t.rcvfrom → s' = s
  | .stop s r | .crash s r =>
      Removable s r (t.receiversOf s) ∧ ∀ s', (s', r) ∈ t.rcvfrom → s' = s
  | .startrcv _ _ | .stopInst _ | .crashInst _ | .allLinks => True

theorem exact_add {t : Links} {st : Started} (h : Exact t.rows st) {type : Sides} {s r : Instance}
    (hsrc : type.hasSrc = true → Addable t s r) {rows : List Row}
    (hadd : update_links_add t.rows s.text r.text type = some rows) :
    (∃ t' : Links, t'.rows = rows) ∧ Exact rows (st.add type s r) := by
  have hrcv : type.hasRcv = true → ∀ s', (s', r) ∈ t.rcvfrom → s' = s := by
    intro htype s' hmem
    by_contra hne
    rw [add_none htype hmem hne] at hadd
    cases hadd
  rw [add_rows hsrc hrcv] at hadd
  obtain rfl := Option.some.inj hadd
  refine ⟨⟨_, rfl⟩, exact_rows (fun a b => ?_) fun a b => ?_⟩
  · rw [mem_srcto_link, h.mem_srcto]
    rfl
  · rw [mem_rcvfrom_link hrcv, h.mem_rcvfrom]
    rfl

theorem exact_del {t : Links} {st : Started} (h : Exact t.rows st) {type : Sides} {s r : Instance}
    (hsrc : type.hasSrc = true → Removable s r (t.receiversOf s))
    (hrcv : type.hasRcv = true → ∀ s', (s', r) ∈ t.rcvfrom → s' = s) :
    (∃ t' : Links, t'.rows = update_links_del t.rows type s.text r.text) ∧
      Exact (update_links_del t.rows type s.text r.text) (st.remove type s r) := by
  rw [del_rows hsrc hrcv]
  refine ⟨⟨_, rfl⟩, exact_rows (fun a b => ?_) fun a b => ?_⟩
  · rw [srcto_unlink, List.mem_filter, h.mem_srcto, decide_eq_true_eq, Prod.mk.injEq]
    rfl
  · rw [rcvfrom_unlink, List.mem_filter, h.mem_rcvfrom, decide_eq_true_eq, Prod.mk.injEq]
    rfl

/-- For the receiver's side the first name does not matter. -/
theorem del_rcv (rows : List Row) (a b r : Text) :
    update_links_del rows .rcv a r = update_links_del rows .rcv b r := rfl

/-! ### An instance -/

/-- The line is not the instance's own. -/
def Line.notOf (i : Instance) : Line → Bool
  | .srcto s _ => s ≠ i
  | .rcvfrom r _ => r ≠ i

/-- The table without the lines of an instance. -/
def Links.dropInst (t : Links) (i : Instance) : Links where
  lines := t.lines.filter (Line.notOf i)
  receivers_ne s rs h := t.receivers_ne s rs (List.mem_filter.1 h).1
  receivers_nodup s rs h := t.receivers_nodup s rs (List.mem_filter.1 h).1
  one_srcto := t.one_srcto.sublist (List.filter_sublist.filterMap _)
  one_rcvfrom := t.one_rcvfrom.sublist (List.filter_sublist.filterMap _)

theorem mem_srcto_dropInst {t : Links} {i s r : Instance} :
    (s, r) ∈ (t.dropInst i).srcto ↔ (s, r) ∈ t.srcto ∧ s ≠ i := by
  rw [mem_srcto, mem_srcto]
  constructor
  · intro ⟨rs, hline, hr⟩
    obtain ⟨hmem, hnot⟩ := List.mem_filter.1 hline
    exact ⟨⟨rs, hmem, hr⟩, by simpa [Line.notOf] using hnot⟩
  · intro ⟨⟨rs, hline, hr⟩, hne⟩
    exact ⟨rs, List.mem_filter.2 ⟨hline, decide_eq_true hne⟩, hr⟩

theorem mem_rcvfrom_dropInst {t : Links} {i s r : Instance} :
    (s, r) ∈ (t.dropInst i).rcvfrom ↔ (s, r) ∈ t.rcvfrom ∧ r ≠ i := by
  rw [mem_rcvfrom, mem_rcvfrom]
  constructor
  · intro hline
    obtain ⟨hmem, hnot⟩ := List.mem_filter.1 hline
    exact ⟨hmem, by simpa [Line.notOf] using hnot⟩
  · intro ⟨hline, hne⟩
    exact List.mem_filter.2 ⟨hline, decide_eq_true hne⟩

/-- A deletion of an instance with itself deletes its lines on the sides given; on a side that is not
    it has none. -/
theorem del_inst {t : Links} {type : Sides} {i : Instance}
    (hsrc : type.hasSrc = false → ∀ rs, .srcto i rs ∉ t.lines)
    (hrcv : type.hasRcv = false → ∀ s, .rcvfrom i s ∉ t.lines) :
    update_links_del t.rows type i.text i.text = (t.dropInst i).rows := by
  unfold update_links_del Links.rows Links.dropInst
  dsimp only
  rw [List.filterMap_map, ← List.filterMap_eq_filter, List.map_filterMap]
  refine List.filterMap_congr fun line hline => ?_
  rw [Function.comp_apply]
  cases line with
  | rcvfrom r s =>
      rw [delRow_rcvfrom]
      by_cases hr : r = i
      · have htype : type.hasRcv = true := by
          cases htype : type.hasRcv with
          | true => rfl
          | false => exact absurd (hr ▸ hline) (hrcv htype s)
        simp [htype, hr, Line.notOf, Option.guard]
      · simp [hr, Line.notOf, Option.guard]
  | srcto s rs =>
      by_cases hs : s = i
      · have htype : type.hasSrc = true := by
          cases htype : type.hasSrc with
          | true => rfl
          | false => exact absurd (hs ▸ hline) (hsrc htype rs)
        rw [hs, delRow_source htype, if_pos (Or.inr rfl)]
        simp [Line.notOf, Option.guard]
      · rw [delRow_other i i s rs (Or.inr hs)]
        simp [hs, Line.notOf, Option.guard]

/-- A SRCTO line of the instance shows in what `identify` finds. -/
theorem srcAt_mem_identify {t : Links} {i : Instance} {rs : List Instance}
    (h : .srcto i rs ∈ t.lines) : .srcAt ∈ identify t.rows i.text := by
  refine List.mem_filterMap.2 ⟨(Line.srcto i rs).row, List.mem_map_of_mem h, ?_⟩
  simp [Line.row]

theorem rcvrAt_mem_identify {t : Links} {i s : Instance}
    (h : .rcvfrom i s ∈ t.lines) : .rcvrAt ∈ identify t.rows i.text := by
  refine List.mem_filterMap.2 ⟨(Line.rcvfrom i s).row, List.mem_map_of_mem h, ?_⟩
  simp [Line.row]

theorem stop_or_crash_eq {t : Links} {i : Instance} {rows : List Row}
    (h : stop_or_crash_action t.rows i.text = some rows) : rows = (t.dropInst i).rows := by
  unfold stop_or_crash_action at h
  dsimp only at h
  split at h
  · cases h
  · rename_i hat
    split at h
    · cases h
      exact del_inst (fun h => by cases h) fun h => by cases h
    · rename_i hboth
      split at h
      · rename_i hrcvr
        cases h
        rw [hrcvr, Bool.true_and] at hboth
        refine del_inst (fun _ rs hline => hboth ?_) fun h => by cases h
        exact List.any_eq_true.2 ⟨_, srcAt_mem_identify hline, rfl⟩
      · rename_i hrcvr
        cases h
        refine del_inst (fun h => by cases h) fun _ s hline => hrcvr ?_
        exact List.any_eq_true.2 ⟨_, rcvrAt_mem_identify hline, rfl⟩

theorem exact_inst {t : Links} {st : Started} (h : Exact t.rows st) (i : Instance) :
    Exact (t.dropInst i).rows ⟨fun a b => st.src a b ∧ a ≠ i, fun a b => st.rcv a b ∧ b ≠ i⟩ := by
  refine exact_rows (fun a b => ?_) fun a b => ?_
  · rw [mem_srcto_dropInst, h.mem_srcto]
  · rw [mem_rcvfrom_dropInst, h.mem_rcvfrom]

/-- The empty table. -/
def Links.empty : Links where
  lines := []
  receivers_ne := fun _ _ h => absurd h List.not_mem_nil
  receivers_nodup := fun _ _ h => absurd h List.not_mem_nil
  one_srcto := List.nodup_nil
  one_rcvfrom := List.nodup_nil

theorem exact_empty : Exact [] Started.none :=
  @exact_rows Links.empty Started.none (fun _ _ => ⟨fun h => absurd h List.not_mem_nil, False.elim⟩)
    fun _ _ => ⟨fun h => absurd h List.not_mem_nil, False.elim⟩

/-- **A safe action keeps the table exact.** -/
theorem exact_action {t : Links} {st : Started} (h : Exact t.rows st) {action : Action}
    (hsafe : Safe t action) {rows : List Row} (hact : do_multisite_action t.rows action = some rows) :
    (∃ t' : Links, t'.rows = rows) ∧ Exact rows (st.step action) := by
  cases action with
  | start s r => exact exact_add h (fun _ => hsafe) hact
  | startsrc s r => exact exact_add h (fun _ => hsafe) hact
  | startrcv s r => exact exact_add h (fun htype => by cases htype) hact
  | stopsrc s r =>
      obtain rfl := Option.some.inj hact
      exact exact_del h (fun _ => hsafe) fun htype => by cases htype
  | stoprcv s r =>
      rw [do_multisite_action, del_rcv _ r.text s.text] at hact
      obtain rfl := Option.some.inj hact
      exact exact_del h (fun htype => by cases htype) fun _ => hsafe
  | stop s r =>
      obtain rfl := Option.some.inj hact
      exact exact_del h (fun _ => hsafe.1) fun _ => hsafe.2
  | crash s r =>
      obtain rfl := Option.some.inj hact
      exact exact_del h (fun _ => hsafe.1) fun _ => hsafe.2
  | stopInst i =>
      rw [stop_or_crash_eq hact]
      exact ⟨⟨_, rfl⟩, exact_inst h i⟩
  | crashInst i =>
      rw [stop_or_crash_eq hact]
      exact ⟨⟨_, rfl⟩, exact_inst h i⟩
  | allLinks =>
      obtain rfl := Option.some.inj hact
      exact ⟨⟨Links.empty, rfl⟩, exact_empty⟩

theorem exact_step {t : Links} {st : Started} (h : Exact t.rows st) {act : Action × Bool}
    (hsafe : Safe t act.1) : (∃ t' : Links, t'.rows = replic t.rows act) ∧
      Exact (replic t.rows act) (if accepted t.rows act then st.step act.1 else st) := by
  unfold replic accepted
  cases hact : do_multisite_action t.rows act.1 with
  | none => exact ⟨⟨t, rfl⟩, h⟩
  | some rows =>
      cases hok : act.2 with
      | false => exact ⟨⟨t, rfl⟩, h⟩
      | true => exact exact_action h hsafe hact

/-! ## 3. Runs -/

theorem exact_run : ∀ (acts : List (Action × Bool)) {t : Links} {st : Started}, Exact t.rows st →
    (∀ pre act, pre ++ [act] <+: acts → ∀ t' : Links, t'.rows = pre.foldl replic t.rows →
      Safe t' act.1) → Exact (acts.foldl replic t.rows) (startedFrom t.rows st acts)
  | [], _, _, h, _ => h
  | act :: acts, t, st, h, hsafe => by
      have hfirst : [] ++ [act] <+: act :: acts := by simp
      obtain ⟨⟨t', ht'⟩, hexact⟩ := exact_step h (hsafe [] act hfirst t rfl)
      rw [List.foldl_cons, startedFrom, ← ht']
      refine exact_run acts (ht' ▸ hexact) fun pre next hpre u hu => ?_
      refine hsafe (act :: pre) next ?_ u ?_
      · exact List.cons_prefix_cons.2 ⟨rfl, hpre⟩
      · rw [hu, ht', List.foldl_cons]

/-- **The link table is exact after every action of a run whose actions are all safe.** -/
theorem table_exact (acts : List (Action × Bool))
    (h : ∀ pre act, pre ++ [act] <+: acts → ∀ t : Links, t.rows = table pre → Safe t act.1) :
    ∀ pre, pre <+: acts → Exact (table pre) (startedFrom [] .none pre) := by
  intro pre hpre
  refine @exact_run pre Links.empty .none exact_empty fun pre' act hpre' t ht => ?_
  exact h pre' act (hpre'.trans hpre) t ht

/-- A link started and stopped. -/
theorem table_exact_once : Exact (table [(.start inst1 inst2, true), (.stop inst1 inst2, true)])
    (startedFrom [] .none [(.start inst1 inst2, true), (.stop inst1 inst2, true)]) := by
  refine table_exact [(.start inst1 inst2, true), (.stop inst1 inst2, true)] ?_ _ (List.prefix_refl _)
  intro pre act hpre t ht
  have hreceivers := receivers_rows t inst1
  rcases pre with _ | ⟨first, _ | ⟨second, pre⟩⟩
  · obtain rfl : act = (.start inst1 inst2, true) := by simpa using hpre
    rw [ht] at hreceivers
    have hnil : t.receiversOf inst1 = [] := List.map_eq_nil_iff.1 hreceivers.symm
    refine Or.inr fun i hi => ?_
    rw [hnil] at hi
    cases hi
  · obtain ⟨rfl, rfl⟩ : first = (.start inst1 inst2, true) ∧ act = (.stop inst1 inst2, true) := by
      simpa using hpre
    have hpairs : rcvfromPairs t.rows = [(inst1.text, inst2.text)] := by
      rw [ht]
      decide
    rw [ht] at hreceivers
    have hone : (t.receiversOf inst1).map Instance.text = [inst2].map Instance.text :=
      hreceivers.symm.trans (by decide)
    have hline := List.map_injective_iff.2 (fun _ _ => Instance.ext_text) hone
    refine ⟨by rw [hline]; rfl, fun s' hs' => ?_⟩
    rw [rcvfromPairs_rows] at hpairs
    have hmem := List.mem_map_of_mem (f := pairText) hs'
    rw [hpairs] at hmem
    exact Instance.ext_text (Prod.mk.inj (List.mem_singleton.1 hmem)).1
  · have hlen := hpre.length_le
    simp at hlen

/-- INST1 is not added to a line that has INST10. -/
theorem start_after_longer_name : ¬ ∀ acts pre : List (Action × Bool), pre <+: acts →
    Exact (table pre) (startedFrom [] .none pre) := by
  intro h
  have hexact := h _ [(.start inst3 inst10, true), (.start inst3 inst1, true)] (List.prefix_refl _)
  have hmem := (hexact.src inst3 inst1).2 (Or.inr ⟨rfl, rfl, rfl⟩)
  revert hmem
  decide

end YottaTest.Multisite
