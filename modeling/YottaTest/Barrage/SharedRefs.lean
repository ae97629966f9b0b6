/-
  File:      YottaTest/Barrage/SharedRefs.lean
  Subject:   The two views of shared routine objects are one relation.

  The analyzer stores a process's reference to a variant of a routine twice: under the variant
  (`RCTLSHM`) and under the process (`PROCSRTNREFS`). A link clears the old reference before it
  makes a new one, and a `$zroutines` change drops the process's link but not its reference.

  * `SameLinks` -- a step that touches neither view nor any record of a link;
  * `simulateLink_effect` -- what a link does to the two views and to the record, whatever the
    objects, search paths and cycles are;
  * `RefsOk` -- the views agree, and a record of a link is starred exactly while there is a
    reference, with one version and directory;
  * `Simulated` -- the states any sequence of simulated operations reaches;
  * **`sharedRefs_agree`** -- the views agree in all of them, and an action of a log leads from one to
    another (`simulated_replayAction`).
-/
import YottaTest.Barrage.Invariant

namespace YottaTest.Barrage

open YottaTest.Lib

variable {Pid Dir Name : Type} [DecidableEq Pid] [DecidableEq Dir] [DecidableEq Name]

/-! ## 1. What the operations do to the references -/

/-- The two views, and every process's record of its links, are as before. -/
structure SameLinks (s s' : State Pid Dir Name) : Prop where
  rctlshm : s'.rctlshm = s.rctlshm
  procsrtnrefs : s'.procsrtnrefs = s.procsrtnrefs
  rtns : ∀ q, (s'.procs q).rtns = (s.procs q).rtns

omit [DecidableEq Pid] in
theorem sameLinks_setSrc (s : State Pid Dir Name) (dir : Dir) (name : Name) (x : SrcNode) :
    SameLinks s (s.setSrc dir name x) :=
  ⟨rfl, rfl, fun _ => rfl⟩

omit [DecidableEq Pid] in
theorem sameLinks_setObj (s : State Pid Dir Name) (dir : Dir) (name : Name) (x : ObjNode Dir) :
    SameLinks s (s.setObj dir name x) :=
  ⟨rfl, rfl, fun _ => rfl⟩

theorem sameLinks_simulateZrupdate (s : State Pid Dir Name) (pid : Pid) (dir : Dir) (cause : Cause)
    (t : Target Name) : SameLinks s (simulateZrupdate s pid dir cause t) := by
  have hknow : ∀ s : State Pid Dir Name, SameLinks s (s.knowDir pid dir) := fun s =>
    ⟨rfl, rfl, fun q => by rw [State.knowDir, procs_setProc]; split <;> simp_all⟩
  cases t with
  | wildcard =>
      show SameLinks s (if s.held dir = [] then wildcardBump s pid dir cause
        else (wildcardBump s pid dir cause).knowDir pid dir)
      split
      · exact ⟨rfl, rfl, fun _ => rfl⟩
      · obtain ⟨h1, h2, h3⟩ := hknow (wildcardBump s pid dir cause)
        exact ⟨h1, h2, h3⟩
  | routine name =>
      obtain ⟨h1, h2, h3⟩ := hknow ((s.setObj dir name (s.obj dir name).bump).record
        (.bump pid dir name cause))
      exact ⟨h1, h2, h3⟩

/-- An update of the record of one routine by one process, and of cycles: the other records and
    both views stay, and so do the record's own `"*"`, `"dir"` and `"ver"`. -/
structure SameRefs (pid : Pid) (name : Name) (s s' : State Pid Dir Name) : Prop where
  rctlshm : s'.rctlshm = s.rctlshm
  procsrtnrefs : s'.procsrtnrefs = s.procsrtnrefs
  rtns : ∀ q n, ¬ (q = pid ∧ n = name) →
    (s'.procs q).rtns.get n = (s.procs q).rtns.get n

omit [DecidableEq Pid] [DecidableEq Dir] in
theorem SameRefs.trans {pid : Pid} {name : Name} {s s' s'' : State Pid Dir Name}
    (h : SameRefs pid name s s') (h' : SameRefs pid name s' s'') : SameRefs pid name s s'' :=
  ⟨h'.rctlshm.trans h.rctlshm, h'.procsrtnrefs.trans h.procsrtnrefs, fun q n hn =>
    (h'.rtns q n hn).trans (h.rtns q n hn)⟩

omit [DecidableEq Pid] [DecidableEq Dir] in
theorem SameLinks.sameRefs {s s' : State Pid Dir Name} (h : SameLinks s s') (pid : Pid)
    (name : Name) : SameRefs pid name s s' :=
  ⟨h.rctlshm, h.procsrtnrefs, fun q n _ => by rw [h.rtns q]⟩

omit [DecidableEq Dir] in
theorem sameRefs_setRtn (s : State Pid Dir Name) (pid : Pid) (name : Name) (r : Rtn Dir) :
    SameRefs pid name s (s.setRtn pid name r) :=
  ⟨rfl, rfl, fun q n hn => by rw [rtns_setRtn, if_neg hn]⟩

theorem sameRefs_recordCycles (pid : Pid) (name : Name) :
    ∀ (ds : List Dir) (s : State Pid Dir Name), SameRefs pid name s (recordCycles s pid name ds)
  | [], _ => ⟨rfl, rfl, fun _ _ _ => rfl⟩
  | d :: ds, s =>
      (((sameLinks_setObj s d name _).sameRefs pid name).trans (sameRefs_setRtn _ pid name _)).trans
        (sameRefs_recordCycles pid name ds _)

theorem sameRefs_startLink (s : State Pid Dir Name) (pid : Pid) (dir : Dir) (name : Name)
    (found : Search Dir) : SameRefs pid name s (startLink s pid dir name found) := by
  have herase : SameRefs pid name s
      ((s.record (.link pid name)).setProc pid
        { (s.record (.link pid name)).procs pid with
          rtns := ((s.record (.link pid name)).procs pid).rtns.erase name }) := by
    refine ⟨rfl, rfl, fun q n hn => ?_⟩
    rw [procs_setProc]
    by_cases hq : q = pid
    · have hne : n ≠ name := fun he => hn ⟨hq, he⟩
      simp [hq, Table.get_erase, hne, State.record]
    · simp [hq, State.record]
  unfold startLink
  refine SameRefs.trans ?_ (sameRefs_setRtn _ pid name _)
  split
  · exact herase.trans (sameRefs_recordCycles pid name found.dirs _)
  · exact herase

/-! ## 2. A link -/

/-- The record that a link leaves: found starred or not, in `dir`. -/
theorem rtn_startLink (s : State Pid Dir Name) (pid : Pid) (dir : Dir) (name : Name)
    (found : Search Dir) :
    ((startLink s pid dir name found).rtn pid name).starred = some (found.stop && found.starred) ∧
      ((startLink s pid dir name found).rtn pid name).dir = some dir := by
  unfold startLink
  rw [rtn_setRtn_self]
  exact ⟨rfl, rfl⟩

/-- A load changes neither view; of the record it changes a cycle. -/
theorem loadObject_effect {s s' : State Pid Dir Name} {pid : Pid} {dir : Dir} {name : Name}
    (h : loadObject s pid dir name = .ok s') :
    SameRefs pid name s s' ∧ (s'.rtn pid name).starred = (s.rtn pid name).starred ∧
      (s'.rtn pid name).dir = (s.rtn pid name).dir := by
  obtain ⟨c, -, h⟩ := bind_eq_ok.1 h
  cases h
  have hz := sameLinks_simulateZrupdate s pid dir .load (.routine name)
  generalize simulateZrupdate s pid dir .load (.routine name) = t at hz
  have hrtn : t.rtn pid name = s.rtn pid name := by rw [State.rtn, State.rtn, hz.rtns]
  rw [rtn_setRtn_self, hrtn]
  exact ⟨(hz.sameRefs pid name).trans (sameRefs_setRtn t pid name _), rfl, rfl⟩

/-- Sharing moves the process's reference to the variant, loaded or found. -/
theorem simulateObjectSharing_effect {s s' : State Pid Dir Name} {pid : Pid} {dir srcDir : Dir}
    {name : Name} {ver : Nat} (h : simulateObjectSharing s pid dir srcDir name ver = .ok s') :
    ∃ t, s' = setRoutineSharedRef (clearRoutineSharedRefs t pid name) pid name ⟨ver, dir, srcDir⟩ ∧
      SameRefs pid name s t ∧ (t.rtn pid name).starred = (s.rtn pid name).starred ∧
      (t.rtn pid name).dir = (s.rtn pid name).dir := by
  dsimp only [simulateObjectSharing] at h
  split at h
  · obtain ⟨t, ht, h⟩ := bind_eq_ok.1 h
    cases ht
    cases h
    exact ⟨s, rfl, ⟨rfl, rfl, fun _ _ _ => rfl⟩, rfl, rfl⟩
  · obtain ⟨t, ht, h⟩ := bind_eq_ok.1 h
    cases h
    exact ⟨t, rfl, loadObject_effect ht⟩

/-- The reference a link leaves its process with. -/
def linkRef (starred : Bool) (v : Variant Dir) : Option (Variant Dir) :=
  if starred then some v else none

/-- **What a link does**: the process's old reference is cleared, a starred link makes one to its
    variant, and the record of the link names the same version and directory. -/
structure Linked (pid : Pid) (name : Name) (s s' : State Pid Dir Name) (v : Variant Dir)
    (starred : Bool) : Prop where
  rctlshm : ∀ e, e ∈ s'.rctlshm ↔
    e ∈ (clearRoutineSharedRefs s pid name).rctlshm ∨ starred = true ∧ e = (name, v, pid)
  procsrtnrefs : ∀ q n, s'.procsrtnrefs q n =
    if q = pid ∧ n = name then linkRef starred v else s.procsrtnrefs q n
  rtns : ∀ q n, ¬ (q = pid ∧ n = name) →
    (s'.procs q).rtns.get n = (s.procs q).rtns.get n
  rtn : ∃ r, (s'.procs pid).rtns.get name = some r ∧ r.starred = some starred ∧
    r.dir = some v.dir ∧ r.ver = some v.ver

/-- The last update of a link, of the record, on a state whose references are as they shall be. -/
theorem linked_setRtn {s t : State Pid Dir Name} {pid : Pid} {name : Name} {r : Rtn Dir}
    {v : Variant Dir} {starred : Bool}
    (hshm : ∀ e, e ∈ t.rctlshm ↔
      e ∈ (clearRoutineSharedRefs s pid name).rctlshm ∨ starred = true ∧ e = (name, v, pid))
    (hrefs : ∀ q n, t.procsrtnrefs q n =
      if q = pid ∧ n = name then linkRef starred v else s.procsrtnrefs q n)
    (hrtns : ∀ q n, ¬ (q = pid ∧ n = name) → (t.procs q).rtns.get n = (s.procs q).rtns.get n)
    (hst : r.starred = some starred) (hdir : r.dir = some v.dir) (hver : r.ver = some v.ver) :
    Linked pid name s (t.setRtn pid name r) v starred where
  rctlshm := hshm
  procsrtnrefs := hrefs
  rtns := fun q n hn => by rw [rtns_setRtn, if_neg hn, hrtns q n hn]
  rtn := ⟨r, by rw [rtns_setRtn, if_pos ⟨rfl, rfl⟩], hst, hdir, hver⟩

theorem mem_clearRoutineSharedRefs (s : State Pid Dir Name) (pid : Pid) (name : Name)
    (e : Name × Variant Dir × Pid) :
    e ∈ (clearRoutineSharedRefs s pid name).rctlshm ↔
      e ∈ s.rctlshm ∧ ∀ v, s.procsrtnrefs pid name = some v → e ≠ (name, v, pid) := by
  unfold clearRoutineSharedRefs
  cases s.procsrtnrefs pid name with
  | none => simp
  | some v => simp

/-- **A link, whatever the objects, search paths and cycles are.** -/
theorem simulateLink_effect {s s' : State Pid Dir Name} {pid : Pid} {dir : Dir} {name : Name}
    (h : simulateLink s pid dir name = .ok s') : ∃ v starred, Linked pid name s s' v starred := by
  obtain ⟨ver, -, h⟩ := bind_eq_ok.1 h
  obtain ⟨n, -, h⟩ := bind_eq_ok.1 h
  obtain ⟨found, -, h⟩ := bind_eq_ok.1 h
  have h1 := sameRefs_startLink s pid dir name found
  obtain ⟨hst, hdir⟩ := rtn_startLink s pid dir name found
  dsimp only at h
  generalize startLink s pid dir name found = u at h1 hst hdir h
  split at h
  · rename_i hfound
    obtain ⟨srcDir, -, h⟩ := bind_eq_ok.1 h
    obtain ⟨t, ht, h⟩ := bind_eq_ok.1 h
    cases h
    obtain ⟨w, rfl, hw, hwst, hwdir⟩ := simulateObjectSharing_effect ht
    have hu := h1.trans hw
    refine ⟨⟨ver, dir, srcDir⟩, true, linked_setRtn (fun e => ?_) (fun q m => ?_) hu.rtns
      (hwst.trans ?_) (hwdir.trans hdir) rfl⟩
    · have hmem := mem_clearRoutineSharedRefs w pid name e
      rw [hu.rctlshm, hu.procsrtnrefs, ← mem_clearRoutineSharedRefs] at hmem
      simp only [setRoutineSharedRef, List.mem_append, List.mem_singleton, hmem, true_and]
    · simp only [setRoutineSharedRef, clearRoutineSharedRefs, linkRef, if_true, hu.procsrtnrefs]
      split <;> rfl
    · rw [hst, hfound]
  · rename_i hfound
    obtain ⟨t, ht, h⟩ := bind_eq_ok.1 h
    cases ht
    cases h
    -- the source directory of a link that shares nothing is not looked at
    refine ⟨⟨ver, dir, dir⟩, false, linked_setRtn (fun e => ?_) (fun q m => ?_) h1.rtns
      (hst.trans ?_) hdir rfl⟩
    · rw [mem_clearRoutineSharedRefs, h1.rctlshm, h1.procsrtnrefs, ← mem_clearRoutineSharedRefs]
      simp
    · simp [clearRoutineSharedRefs, linkRef, h1.procsrtnrefs]
    · simpa using hfound

/-! ## 3. The relation -/

/-- The two views agree, and the record of a link is starred exactly while its process holds a
    reference to the routine, both of one version and directory. -/
structure RefsOk (s : State Pid Dir Name) : Prop where
  shared : ∀ name v pid, (name, v, pid) ∈ s.rctlshm ↔ s.procsrtnrefs pid name = some v
  starred : ∀ pid name r, (s.procs pid).rtns.get name = some r →
    (r.starred = some true ↔ (s.procsrtnrefs pid name).isSome = true)
  same : ∀ pid name r v, (s.procs pid).rtns.get name = some r → s.procsrtnrefs pid name = some v →
    r.ver = some v.ver ∧ r.dir = some v.dir

omit [DecidableEq Pid] [DecidableEq Dir] in
theorem refsOk_init : RefsOk (State.init : State Pid Dir Name) where
  shared := fun name v pid => by simp [State.init]
  starred := fun pid name r h => by simp [State.init] at h
  same := fun pid name r v h => by simp [State.init] at h

omit [DecidableEq Pid] [DecidableEq Dir] in
/-- The records of links may also go. -/
theorem RefsOk.forget {s s' : State Pid Dir Name} (h : RefsOk s) (hshm : s'.rctlshm = s.rctlshm)
    (hrefs : s'.procsrtnrefs = s.procsrtnrefs)
    (hrtns : ∀ q n r, (s'.procs q).rtns.get n = some r → (s.procs q).rtns.get n = some r) :
    RefsOk s' where
  shared := fun name v pid => by rw [hshm, hrefs]; exact h.shared name v pid
  starred := fun pid name r hr => by rw [hrefs]; exact h.starred pid name r (hrtns pid name r hr)
  same := fun pid name r v hr hv => by
    rw [hrefs] at hv
    exact h.same pid name r v (hrtns pid name r hr) hv

omit [DecidableEq Pid] [DecidableEq Dir] in
theorem RefsOk.sameLinks {s s' : State Pid Dir Name} (h : RefsOk s) (hs : SameLinks s s') :
    RefsOk s' :=
  h.forget hs.rctlshm hs.procsrtnrefs fun q n r hr => by rwa [hs.rtns q] at hr

/-- A link keeps the relation: the one reference it removes is the one it knows of. -/
theorem RefsOk.linked {s s' : State Pid Dir Name} {pid : Pid} {name : Name} {v : Variant Dir}
    {starred : Bool} (h : RefsOk s) (hl : Linked pid name s s' v starred) : RefsOk s' where
  shared := fun m w q => by
    rw [hl.rctlshm, hl.procsrtnrefs, mem_clearRoutineSharedRefs, h.shared]
    by_cases hq : q = pid ∧ m = name
    · obtain ⟨rfl, rfl⟩ := hq
      have hgone : ¬ (s.procsrtnrefs q m = some w ∧
          ∀ x, s.procsrtnrefs q m = some x → (m, w, q) ≠ (m, x, q)) :=
        fun hc => hc.2 w hc.1 rfl
      rw [or_iff_right hgone, if_pos ⟨rfl, rfl⟩]
      cases starred with
      | false => simp [linkRef]
      | true => simp [linkRef, eq_comm]
    · have hother : ∀ x, (m, w, q) ≠ (name, x, pid) := fun x he => hq (by simp_all)
      simp [hq, hother]
  starred := fun q m r hr => by
    rw [hl.procsrtnrefs]
    by_cases hq : q = pid ∧ m = name
    · obtain ⟨rfl, rfl⟩ := hq
      obtain ⟨r', hr', hst, -⟩ := hl.rtn
      rw [hr] at hr'
      cases hr'
      cases starred with
      | false => simp [hst, linkRef]
      | true => simp [hst, linkRef]
    · rw [if_neg hq]
      rw [hl.rtns q m hq] at hr
      exact h.starred q m r hr
  same := fun q m r w hr hw => by
    rw [hl.procsrtnrefs] at hw
    by_cases hq : q = pid ∧ m = name
    · obtain ⟨rfl, rfl⟩ := hq
      obtain ⟨r', hr', -, hdir, hver⟩ := hl.rtn
      rw [hr] at hr'
      cases hr'
      cases starred with
      | false => simp [linkRef] at hw
      | true =>
          have hvw : v = w := by simpa [linkRef] using hw
          exact hvw ▸ ⟨hver, hdir⟩
    · rw [if_neg hq] at hw
      rw [hl.rtns q m hq] at hr
      exact h.same q m r w hr hw

/-! ## 4. Every state the operations reach -/

/-- The states that any sequence of simulated operations reaches, of any processes and with any
    arguments. Between them anything else may happen to sources, objects and search paths. -/
inductive Simulated : State Pid Dir Name → Prop where
  | init : Simulated State.init
  | setZroutines {s s' : State Pid Dir Name} (pid : Pid) (newZroutines : Zro Dir) :
      Simulated s → simulateSetZroutines s pid newZroutines = .ok s' → Simulated s'
  | link {s s' : State Pid Dir Name} (pid : Pid) (dir : Dir) (name : Name) :
      Simulated s → simulateLink s pid dir name = .ok s' → Simulated s'
  | zrupdate {s : State Pid Dir Name} (pid : Pid) (dir : Dir) (cause : Cause) (t : Target Name) :
      Simulated s → Simulated (simulateZrupdate s pid dir cause t)
  | exec {s s' : State Pid Dir Name} (pid : Pid) (time : Nat) (name : Name) :
      Simulated s → simulateExec s pid time name = .ok s' → Simulated s'
  | other {s s' : State Pid Dir Name} : Simulated s → SameLinks s s' → Simulated s'

theorem RefsOk.setZroutines {s s' : State Pid Dir Name} {pid : Pid} {z : Zro Dir} (h : RefsOk s)
    (hs : simulateSetZroutines s pid z = .ok s') : RefsOk s' := by
  dsimp only [simulateSetZroutines] at hs
  split at hs
  · obtain ⟨n, -, hs⟩ := bind_eq_ok.1 hs
    obtain ⟨dirs, -, hs⟩ := bind_eq_ok.1 hs
    cases hs
    refine h.forget rfl rfl fun q n r hr => ?_
    rw [procs_setProc] at hr
    by_cases hq : q = pid
    · -- a record that is kept is one the process had
      rw [if_pos hq, Table.get_filter] at hr
      rw [hq]
      exact (Option.filter_eq_some_iff.1 hr).1
    · rwa [if_neg hq] at hr
  · cases hs

/-- An execution is a link, of an object that it may have compiled first, or changes nothing. -/
theorem RefsOk.exec {s s' : State Pid Dir Name} {pid : Pid} {time : Nat} {name : Name}
    (h : RefsOk s) (hs : simulateExec s pid time name = .ok s') : RefsOk s' := by
  have hlink : ∀ (dir objDir : Dir) (x : ObjNode Dir),
      simulateLink (s.setObj dir name x) pid objDir name = .ok s' → RefsOk s' := by
    intro dir objDir x hl
    obtain ⟨v, starred, hv⟩ := simulateLink_effect hl
    exact (h.sameLinks (sameLinks_setObj s dir name x)).linked hv
  obtain ⟨link, -, hs⟩ := bind_eq_ok.1 hs
  split at hs
  · obtain ⟨n, -, hs⟩ := bind_eq_ok.1 hs
    obtain ⟨f, -, hs⟩ := bind_eq_ok.1 hs
    split at hs
    · obtain ⟨objDir, -, hs⟩ := bind_eq_ok.1 hs
      dsimp only at hs
      split at hs
      · obtain ⟨srcDir, -, hs⟩ := bind_eq_ok.1 hs
        exact hlink _ _ _ hs
      · obtain ⟨v, starred, hv⟩ := simulateLink_effect hs
        exact h.linked hv
    · split at hs
      · obtain ⟨objDir, -, hs⟩ := bind_eq_ok.1 hs
        obtain ⟨srcDir, -, hs⟩ := bind_eq_ok.1 hs
        exact hlink _ _ _ hs
      · cases hs
        exact h
  · cases hs
    exact h

theorem refsOk_of_simulated {s : State Pid Dir Name} (h : Simulated s) : RefsOk s := by
  induction h with
  | init => exact refsOk_init
  | setZroutines pid z _ hs ih => exact ih.setZroutines hs
  | link pid dir name _ hs ih =>
      obtain ⟨v, starred, hv⟩ := simulateLink_effect hs
      exact ih.linked hv
  | zrupdate pid dir cause t _ ih => exact ih.sameLinks (sameLinks_simulateZrupdate _ pid dir cause t)
  | exec pid time name _ hs ih => exact ih.exec hs
  | other _ hs ih => exact ih.sameLinks hs

/-- **The two views of shared routine objects are one relation**, in every state any sequence of
    operations reaches. -/
theorem sharedRefs_agree {s : State Pid Dir Name} (h : Simulated s) :
    (∀ name v pid, (name, v, pid) ∈ s.rctlshm ↔ s.procsrtnrefs pid name = some v) ∧
      (∀ name v w pid, (name, v, pid) ∈ s.rctlshm → (name, w, pid) ∈ s.rctlshm → v = w) ∧
      ∀ pid name r, (s.procs pid).rtns.get name = some r →
        (r.starred = some true ↔ (s.procsrtnrefs pid name).isSome = true) ∧
        ∀ v, s.procsrtnrefs pid name = some v → r.ver = some v.ver ∧ r.dir = some v.dir := by
  have ho := refsOk_of_simulated h
  refine ⟨ho.shared, fun name v w pid hv hw => ?_, fun pid name r hr =>
    ⟨ho.starred pid name r hr, fun v hv => ho.same pid name r v hr hv⟩⟩
  rw [ho.shared] at hv hw
  exact Option.some.inj (hv.symm.trans hw)

/-! ## 5. The states a log leads to -/

theorem simulated_foldlM {α : Type} {f : State Pid Dir Name → α → Except Fault (State Pid Dir Name)}
    (hstep : ∀ s a s', Simulated s → f s a = .ok s' → Simulated s') :
    ∀ (as : List α) (s s' : State Pid Dir Name), Simulated s → as.foldlM f s = .ok s' →
      Simulated s'
  | [], _, _, hs, h => by
      cases h
      exact hs
  | a :: as, s, s', hs, h => by
      rw [List.foldlM_cons] at h
      obtain ⟨t, ht, h⟩ := bind_eq_ok.1 h
      exact simulated_foldlM hstep as t s' (hstep s a t hs ht) h

/-- Every logged action is made of the operations. -/
theorem simulated_replayAction {s s' : State Pid Dir Name} (hs : Simulated s) {time : Nat}
    {pid : Pid} {a : Action Dir Name} (h : replayAction s time pid a = .ok s') :
    Simulated s' := by
  cases a with
  | setZroutines zro =>
      obtain ⟨t, ht, h⟩ := bind_eq_ok.1 h
      cases h
      have hz : Simulated { s with zroutines := s.zroutines.merge (Zro.ofLog zro) } :=
        hs.other ⟨rfl, rfl, fun _ => rfl⟩
      refine (hz.setZroutines pid _ ht).other ⟨rfl, rfl, fun q => ?_⟩
      dsimp only
      rw [procs_setProc]
      split
      · rename_i hq
        rw [hq]
      · rfl
  | writeSources items =>
      cases h
      exact foldl_keeps (P := Simulated) (fun s _ hs => hs.other (sameLinks_setSrc s _ _ _)) items s hs
  | deleteSources items =>
      cases h
      exact foldl_keeps (P := Simulated) (fun s _ hs => hs.other (sameLinks_setSrc s _ _ _)) items s hs
  | deleteObjects items =>
      cases h
      exact foldl_keeps (P := Simulated) (fun s _ hs => hs.other (sameLinks_setObj s _ _ _)) items s hs
  | compile items =>
      refine simulated_foldlM (fun s item s' hs h => ?_) items s s' hs h
      obtain ⟨ver, -, h⟩ := bind_eq_ok.1 h
      cases h
      exact hs.other (sameLinks_setObj s _ _ _)
  | link items =>
      exact simulated_foldlM (fun s item s' hs h => hs.link pid item.1 item.2 h) items s s' hs h
  | zrupdate items =>
      cases h
      exact foldl_keeps (P := Simulated) (fun s item hs => hs.zrupdate pid item.1 _ item.2) items s hs
  | execute name => exact hs.exec pid time name h

/-- A process links a routine starred and forgets the link with its next `$zroutines`; its
    reference stays. -/
theorem sharedRefs_agree_setZroutines : ∃ s : State Nat Nat Nat,
    (s.procs 7).rtns.get 3 = none ∧ s.procsrtnrefs 7 3 = some ⟨5, 0, 1⟩ ∧
      ((3, ⟨5, 0, 1⟩, 7) ∈ s.rctlshm ↔ s.procsrtnrefs 7 3 = some ⟨5, 0, 1⟩) := by
  obtain ⟨s1, h1⟩ : ∃ s : State Nat Nat Nat,
      replayAction State.init 1 7 (.setZroutines [⟨0, true, [1]⟩]) = .ok s := ⟨_, rfl⟩
  obtain ⟨s2, h2⟩ : ∃ s, replayAction s1 2 7 (.writeSources [(1, 3, 5)]) = .ok s := ⟨_, rfl⟩
  have hrun : ∃ s3 s4, replayAction s2 3 7 (.execute 3) = .ok s3 ∧
      replayAction s3 4 7 (.setZroutines [⟨2, false, []⟩]) = .ok s4 ∧
      (s4.procs 7).rtns.get 3 = none ∧ s4.procsrtnrefs 7 3 = some ⟨5, 0, 1⟩ := by
    cases h1
    cases h2
    exact ⟨_, _, rfl, rfl, rfl, rfl⟩
  obtain ⟨s3, s4, h3, h4, hrtn, href⟩ := hrun
  have hsim : Simulated s4 := simulated_replayAction (simulated_replayAction
    (simulated_replayAction (simulated_replayAction .init h1) h2) h3) h4
  exact ⟨s4, hrtn, href, (sharedRefs_agree hsim).1 3 ⟨5, 0, 1⟩ 7⟩

end YottaTest.Barrage
