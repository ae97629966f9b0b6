/-
  File:      YottaTest/Barrage/Frame.lean
  Subject:   What each operation of the analyzer leaves alone.

  A link of one routine by one process touches that process's record of that routine, and cycles.
  Everything the other processes hold must survive it, and what they hold about a cycle is: the
  recorded cycle plus the bumps since their own link is the directory's cycle.

  * `sinceLink`, `Event.Relinks`, `relinkBumps` -- the run's record, read from the point of view
    of one process and one routine: the bumps since its last link that are not its own loads;
  * `Tracks` -- a step that moves a directory's cycle by exactly the bumps it records;
  * `Frame` -- a step that, outside of one (process, routine) pair, only moves cycles so;
  * `frame_simulateZrupdate`, `frame_recordCycles`, `frame_simulateObjectSharing`, … -- every
    operation has its frame.
-/
import Mathlib.Data.List.Induction
import YottaTest.Barrage.Analyzer

namespace YottaTest.Barrage

open YottaTest.Lib

variable {Pid Dir Name : Type} [DecidableEq Pid] [DecidableEq Dir] [DecidableEq Name]

/-! ## 1. The run's record from one link's point of view -/

/-- The event is the start of a link of `n` by `p`. -/
def Event.isLink (p : Pid) (n : Name) : Event Pid Dir Name → Bool
  | .link q m => q = p ∧ m = n
  | .bump _ _ _ _ => false

/-- The event asks process `p` to relink `n` because of directory `d`: a bump of that cycle,
    unless it is a load that `p` performed itself. -/
def Event.relinks (p : Pid) (n : Name) (d : Dir) : Event Pid Dir Name → Bool
  | .link _ _ => false
  | .bump q e m cause => e = d ∧ m = n ∧ ¬ (cause = .load ∧ q = p)

/-- The events since the last link of `n` by `p`. -/
def sinceLink (p : Pid) (n : Name) (es : List (Event Pid Dir Name)) :
    List (Event Pid Dir Name) :=
  (es.reverse.takeWhile fun e => !e.isLink p n).reverse

omit [DecidableEq Dir] in
theorem sinceLink_append (p : Pid) (n : Name) (es : List (Event Pid Dir Name))
    (e : Event Pid Dir Name) :
    sinceLink p n (es ++ [e]) = if e.isLink p n then [] else sinceLink p n es ++ [e] := by
  unfold sinceLink
  rw [List.reverse_append, List.reverse_singleton, List.singleton_append, List.takeWhile_cons]
  cases h : e.isLink p n <;> simp

/-- How many events since the link ask for a relink because of `d`. -/
def relinkBumps (p : Pid) (n : Name) (d : Dir) (es : List (Event Pid Dir Name)) : Nat :=
  (sinceLink p n es).countP fun e => e.relinks p n d

theorem relinkBumps_append (p : Pid) (n : Name) (d : Dir) (es : List (Event Pid Dir Name))
    (e : Event Pid Dir Name) :
    relinkBumps p n d (es ++ [e]) =
      if e.isLink p n then 0 else relinkBumps p n d es + if e.relinks p n d then 1 else 0 := by
  unfold relinkBumps
  rw [sinceLink_append]
  cases e.isLink p n
  · simp [List.countP_append, List.countP_singleton]
  · simp

/-- A list of events none of which is a link adds its own relinking events. -/
theorem relinkBumps_append_bumps (p : Pid) (n : Name) (d : Dir) (es : List (Event Pid Dir Name)) :
    ∀ fs : List (Event Pid Dir Name), (∀ e ∈ fs, e.isLink p n = false) →
      relinkBumps p n d (es ++ fs) = relinkBumps p n d es + fs.countP fun e => e.relinks p n d := by
  intro fs
  induction fs using List.reverseRecOn with
  | nil => simp
  | append_singleton fs e ih =>
      intro h
      rw [← List.append_assoc, relinkBumps_append, h e (by simp),
        ih fun f hf => h f (by simp [hf]), List.countP_append, List.countP_singleton]
      simp [Nat.add_assoc]

/-! ## 2. Reads after updates -/

omit [DecidableEq Pid] in
theorem obj_setObj (s : State Pid Dir Name) (dir : Dir) (name : Name) (x : ObjNode Dir)
    (d : Dir) (n : Name) :
    (s.setObj dir name x).obj d n = if d = dir ∧ n = name then x else s.obj d n := by
  unfold State.obj State.setObj
  by_cases hd : d = dir
  · simp only [hd, if_true, true_and, Table.get_set]
    by_cases hn : n = name
    · simp [hn]
    · simp [hn]
  · simp [hd]

omit [DecidableEq Dir] in
@[simp] theorem obj_setProc (s : State Pid Dir Name) (pid : Pid) (p : Proc Dir Name) (d : Dir)
    (n : Name) : (s.setProc pid p).obj d n = s.obj d n := rfl

omit [DecidableEq Pid] [DecidableEq Dir] in
@[simp] theorem obj_record (s : State Pid Dir Name) (e : Event Pid Dir Name) (d : Dir) (n : Name) :
    (s.record e).obj d n = s.obj d n := rfl

omit [DecidableEq Dir] [DecidableEq Name] in
theorem procs_setProc (s : State Pid Dir Name) (pid : Pid) (p : Proc Dir Name) (q : Pid) :
    (s.setProc pid p).procs q = if q = pid then p else s.procs q := rfl

omit [DecidableEq Dir] in
theorem rtns_setRtn (s : State Pid Dir Name) (pid : Pid) (name : Name) (r : Rtn Dir) (q : Pid)
    (n : Name) : ((s.setRtn pid name r).procs q).rtns.get n =
      if q = pid ∧ n = name then some r else (s.procs q).rtns.get n := by
  unfold State.setRtn
  rw [procs_setProc]
  by_cases hq : q = pid
  · simp [hq, Table.get_set]
  · simp [hq]

omit [DecidableEq Dir] in
theorem rtn_setRtn_self (s : State Pid Dir Name) (pid : Pid) (name : Name) (r : Rtn Dir) :
    (s.setRtn pid name r).rtn pid name = r := by
  rw [State.rtn, rtns_setRtn, if_pos ⟨rfl, rfl⟩]
  rfl

omit [DecidableEq Dir] in
@[simp] theorem obj_setRtn (s : State Pid Dir Name) (pid : Pid) (name : Name) (r : Rtn Dir)
    (d : Dir) (n : Name) : (s.setRtn pid name r).obj d n = s.obj d n := rfl

omit [DecidableEq Pid] in
@[simp] theorem rtn_setObj (s : State Pid Dir Name) (dir : Dir) (name : Name) (x : ObjNode Dir)
    (q : Pid) (n : Name) : (s.setObj dir name x).rtn q n = s.rtn q n := rfl

/-! ## 3. Tracking and frames -/

/-- The step moves the cycles of `n` by the relinking bumps it records for `p`. -/
def Tracks (p : Pid) (n : Name) (s s' : State Pid Dir Name) : Prop :=
  ∀ d k, (s.obj d n).cycle = some (k + relinkBumps p n d s.events) →
    (s'.obj d n).cycle = some (k + relinkBumps p n d s'.events)

/-- The step keeps the objects and sources, the search paths, and the record of every routine but
    those of `E`; and for every process and routine but those of `E` it tracks the cycles. -/
structure Frame (E : Pid → Name → Prop) (s s' : State Pid Dir Name) : Prop where
  srcdirs : s'.srcdirs = s.srcdirs
  zroutines : s'.zroutines = s.zroutines
  lastZro : s'.lastZro = s.lastZro
  zro : ∀ q, (s'.procs q).zro = (s.procs q).zro
  rtns : ∀ q n, ¬ E q n → (s'.procs q).rtns.get n = (s.procs q).rtns.get n
  data : ∀ d n, (s'.obj d n).data = (s.obj d n).data
  ver : ∀ d n, (s'.obj d n).ver = (s.obj d n).ver
  time : ∀ d n, (s'.obj d n).time = (s.obj d n).time
  srcDir : ∀ d n, (s'.obj d n).srcDir = (s.obj d n).srcDir
  tracks : ∀ q n, ¬ E q n → Tracks q n s s'

/-- One process and one routine. -/
def Only (pid : Pid) (name : Name) (q : Pid) (n : Name) : Prop := q = pid ∧ n = name

/-- Nothing. -/
def Nowhere (_ : Pid) (_ : Name) : Prop := False

namespace Frame

variable {E : Pid → Name → Prop} {s s' s'' : State Pid Dir Name}

theorem refl (E : Pid → Name → Prop) (s : State Pid Dir Name) : Frame E s s :=
  ⟨rfl, rfl, rfl, fun _ => rfl, fun _ _ _ => rfl, fun _ _ => rfl, fun _ _ => rfl, fun _ _ => rfl,
    fun _ _ => rfl, fun _ _ _ _ _ h => h⟩

theorem trans (h : Frame E s s') (h' : Frame E s' s'') : Frame E s s'' where
  srcdirs := h'.srcdirs.trans h.srcdirs
  zroutines := h'.zroutines.trans h.zroutines
  lastZro := h'.lastZro.trans h.lastZro
  zro := fun q => (h'.zro q).trans (h.zro q)
  rtns := fun q n hE => (h'.rtns q n hE).trans (h.rtns q n hE)
  data := fun d n => (h'.data d n).trans (h.data d n)
  ver := fun d n => (h'.ver d n).trans (h.ver d n)
  time := fun d n => (h'.time d n).trans (h.time d n)
  srcDir := fun d n => (h'.srcDir d n).trans (h.srcDir d n)
  tracks := fun q n hE d k hk => h'.tracks q n hE d k (h.tracks q n hE d k hk)

/-- A step that spares more pairs is a step that spares fewer. -/
theorem mono {E' : Pid → Name → Prop} (hE : ∀ q n, E q n → E' q n) (h : Frame E s s') :
    Frame E' s s' :=
  { h with
    rtns := fun q n hn => h.rtns q n fun hq => hn (hE q n hq)
    tracks := fun q n hn => h.tracks q n fun hq => hn (hE q n hq) }

end Frame

/-! ## 4. The frames of the operations -/

/-- An update of the processes that keeps search paths and the routines outside of `E`. -/
theorem frame_procs {E : Pid → Name → Prop} (s : State Pid Dir Name) (f : Pid → Proc Dir Name)
    (hzro : ∀ q, (f q).zro = (s.procs q).zro)
    (hrtns : ∀ q n, ¬ E q n → (f q).rtns.get n = (s.procs q).rtns.get n) :
    Frame E s { s with procs := f } :=
  ⟨rfl, rfl, rfl, hzro, hrtns, fun _ _ => rfl, fun _ _ => rfl, fun _ _ => rfl, fun _ _ => rfl,
    fun _ _ _ _ _ h => h⟩

theorem frame_setRtn (s : State Pid Dir Name) (pid : Pid) (name : Name) (r : Rtn Dir) :
    Frame (Only pid name) s (s.setRtn pid name r) := by
  refine frame_procs s _ (fun q => ?_) (fun q n hE => ?_)
  · by_cases hq : q = pid
    · simp [hq]
    · simp [hq]
  · have := rtns_setRtn s pid name r q n
    rwa [if_neg (show ¬ (q = pid ∧ n = name) from hE)] at this

theorem frame_eraseRtn (s : State Pid Dir Name) (pid : Pid) (name : Name) :
    Frame (Only pid name) s
      (s.setProc pid { s.procs pid with rtns := (s.procs pid).rtns.erase name }) := by
  refine frame_procs s _ (fun q => ?_) (fun q n hE => ?_)
  · by_cases hq : q = pid
    · simp [hq]
    · simp [hq]
  · by_cases hq : q = pid
    · have hn : n ≠ name := fun hn => hE ⟨hq, hn⟩
      simp [hq, Table.get_erase, hn]
    · simp [hq]

theorem frame_knowDir (s : State Pid Dir Name) (pid : Pid) (dir : Dir) :
    Frame Nowhere s (s.knowDir pid dir) := by
  refine frame_procs s _ (fun q => ?_) (fun q n _ => ?_)
  · by_cases hq : q = pid
    · simp [hq]
    · simp [hq]
  · by_cases hq : q = pid
    · simp [hq]
    · simp [hq]

theorem frame_link (s : State Pid Dir Name) (pid : Pid) (name : Name) :
    Frame (Only pid name) s (s.record (.link pid name)) where
  srcdirs := rfl
  zroutines := rfl
  lastZro := rfl
  zro := fun _ => rfl
  rtns := fun _ _ _ => rfl
  data := fun _ _ => rfl
  ver := fun _ _ => rfl
  time := fun _ _ => rfl
  srcDir := fun _ _ => rfl
  tracks := fun q n hE d k h => by
    have hlink : (Event.link pid name : Event Pid Dir Name).isLink q n = false := by
      simp only [Event.isLink, decide_eq_false_iff_not]
      exact fun hq => hE ⟨hq.1.symm, hq.2.symm⟩
    have hsame : relinkBumps q n d (s.record (.link pid name)).events
        = relinkBumps q n d s.events := by
      simp only [State.record, relinkBumps_append, hlink, Event.relinks]
      rfl
    rw [hsame]
    exact h

/-- The reference bookkeeping is outside of every frame. -/
theorem frame_refs (E : Pid → Name → Prop) (s : State Pid Dir Name)
    (shm : List (Name × Variant Dir × Pid)) (refs : Pid → Name → Option (Variant Dir)) :
    Frame E s { s with rctlshm := shm, procsrtnrefs := refs } :=
  ⟨rfl, rfl, rfl, fun _ => rfl, fun _ _ _ => rfl, fun _ _ => rfl, fun _ _ => rfl, fun _ _ => rfl,
    fun _ _ => rfl, fun _ _ _ _ _ h => h⟩

/-- Writing a cycle where it already is, or where there was none. -/
theorem frame_initCycle (E : Pid → Name → Prop) (s : State Pid Dir Name) (d : Dir) (name : Name) :
    Frame E s
      (s.setObj d name { s.obj d name with cycle := some ((s.obj d name).cycle.getD 0) }) where
  srcdirs := rfl
  zroutines := rfl
  lastZro := rfl
  zro := fun _ => rfl
  rtns := fun _ _ _ => rfl
  data := fun d' n => by
    rw [obj_setObj]
    split
    · rename_i h; rw [h.1, h.2]
    · rfl
  ver := fun d' n => by
    rw [obj_setObj]
    split
    · rename_i h; rw [h.1, h.2]
    · rfl
  time := fun d' n => by
    rw [obj_setObj]
    split
    · rename_i h; rw [h.1, h.2]
    · rfl
  srcDir := fun d' n => by
    rw [obj_setObj]
    split
    · rename_i h; rw [h.1, h.2]
    · rfl
  tracks := fun q n _ d' k h => by
    rw [obj_setObj]
    split
    · rename_i he
      rw [he.1, he.2] at h
      simp only [h, he.1, he.2, Option.getD_some]
      rfl
    · exact h

/-- One bump with its record, seen by a pair for which it is not an own load. -/
theorem tracks_bump (s : State Pid Dir Name) (pid : Pid) (dir : Dir) (name : Name) (cause : Cause)
    {q : Pid} {n : Name} (hq : ¬ (cause = .load ∧ q = pid ∧ n = name)) :
    Tracks q n s ((s.setObj dir name (s.obj dir name).bump).record (.bump pid dir name cause)) := by
  intro d k h
  have hlink : (Event.bump pid dir name cause : Event Pid Dir Name).isLink q n = false := rfl
  rw [obj_record, obj_setObj, State.record, relinkBumps_append, hlink]
  by_cases hd : d = dir ∧ n = name
  · obtain ⟨rfl, rfl⟩ := hd
    have hrel : (Event.bump pid d n cause : Event Pid Dir Name).relinks q n d = true := by
      simp only [Event.relinks, decide_eq_true_eq, true_and]
      exact fun hc => hq ⟨hc.1, hc.2.symm, rfl⟩
    simp only [hrel, ObjNode.bump, h, and_self, if_true, Option.getD_some]
    rfl
  · have hrel : (Event.bump pid dir name cause : Event Pid Dir Name).relinks q n d = false := by
      simp only [Event.relinks, decide_eq_false_iff_not]
      exact fun hc => hd ⟨hc.1.symm, hc.2.1.symm⟩
    rw [if_neg hd, hrel]
    exact h

theorem frame_bump {E : Pid → Name → Prop} (s : State Pid Dir Name) (pid : Pid) (dir : Dir)
    (name : Name) (cause : Cause)
    (hE : ∀ q n, ¬ E q n → ¬ (cause = .load ∧ q = pid ∧ n = name)) :
    Frame E s ((s.setObj dir name (s.obj dir name).bump).record (.bump pid dir name cause)) where
  srcdirs := rfl
  zroutines := rfl
  lastZro := rfl
  zro := fun _ => rfl
  rtns := fun _ _ _ => rfl
  data := fun d' n => by
    rw [obj_record, obj_setObj]
    split
    · rename_i h; rw [h.1, h.2]; rfl
    · rfl
  ver := fun d' n => by
    rw [obj_record, obj_setObj]
    split
    · rename_i h; rw [h.1, h.2]; rfl
    · rfl
  time := fun d' n => by
    rw [obj_record, obj_setObj]
    split
    · rename_i h; rw [h.1, h.2]; rfl
    · rfl
  srcDir := fun d' n => by
    rw [obj_record, obj_setObj]
    split
    · rename_i h; rw [h.1, h.2]; rfl
    · rfl
  tracks := fun q n hq => tracks_bump s pid dir name cause (hE q n hq)

/-! ## 5. The wildcard -/

omit [DecidableEq Pid] [DecidableEq Dir] in
theorem mem_held (s : State Pid Dir Name) (dir : Dir) (n : Name) :
    n ∈ s.held dir ↔ (s.obj dir n).data = true := by
  have hmem : n ∈ s.held dir ↔ ∃ x, (s.objdirs dir).get n = some x ∧ x.data = true := by
    simp only [State.held, List.mem_map, Table.filter, List.mem_filter]
    constructor
    · rintro ⟨⟨m, x⟩, ⟨hx, hd⟩, rfl⟩
      exact ⟨x, (Table.mem_entries_iff _ _ _).1 hx, hd⟩
    · rintro ⟨x, hx, hd⟩
      exact ⟨(n, x), ⟨(Table.mem_entries_iff _ _ _).2 hx, hd⟩, rfl⟩
  rw [hmem, State.obj]
  cases (s.objdirs dir).get n with
  | none => simp [ObjNode.empty]
  | some x => simp

/-- A wildcard zrupdate, without the note that the directory is known. -/
def wildcardBump (s : State Pid Dir Name) (pid : Pid) (dir : Dir) (cause : Cause) :
    State Pid Dir Name :=
  { s with
    objdirs := fun d =>
      if d = dir then (s.objdirs d).map fun _ n => if n.data then n.bump else n
      else s.objdirs d
    events := s.events ++ (s.held dir).map fun r => .bump pid dir r cause }

omit [DecidableEq Pid] in
theorem obj_wildcardBump (s : State Pid Dir Name) (pid : Pid) (dir : Dir) (cause : Cause) (d : Dir)
    (n : Name) : (wildcardBump s pid dir cause).obj d n =
      if d = dir ∧ (s.obj d n).data then (s.obj d n).bump else s.obj d n := by
  unfold State.obj wildcardBump
  by_cases hd : d = dir
  · subst hd
    simp only [if_true, true_and, Table.get_map]
    cases (s.objdirs d).get n with
    | none => simp [ObjNode.empty]
    | some x => rfl
  · simp [hd]

/-- Among the bumps of a wildcard there is one for each held routine. -/
theorem relinkBumps_wildcard (s : State Pid Dir Name) (pid : Pid) (dir : Dir) {cause : Cause}
    (hc : cause ≠ .load) (q : Pid) (n : Name) (d : Dir) :
    relinkBumps q n d (wildcardBump s pid dir cause).events =
      relinkBumps q n d s.events + if d = dir ∧ (s.obj d n).data then 1 else 0 := by
  have hlink : ∀ e ∈ (s.held dir).map fun r => (Event.bump pid dir r cause : Event Pid Dir Name),
      e.isLink q n = false := by
    intro e he
    obtain ⟨r, -, rfl⟩ := List.mem_map.1 he
    rfl
  have hnodup : (s.held dir).Nodup := ((s.objdirs dir).filter fun _ (x : ObjNode Dir) => x.data).nodup
  have hcount : ((s.held dir).map fun r => (Event.bump pid dir r cause : Event Pid Dir Name)).countP
      (fun e => e.relinks q n d) = if d = dir ∧ (s.obj d n).data then 1 else 0 := by
    rw [List.countP_map]
    by_cases hd : d = dir
    · subst hd
      have hp : ((fun e : Event Pid Dir Name => e.relinks q n d) ∘
          fun r => Event.bump pid d r cause) = fun r => r == n := by
        funext r
        simp [Event.relinks, hc, beq_eq_decide]
      rw [hp, ← List.count_eq_countP, hnodup.count]
      simp only [mem_held, true_and]
    · have hp : ((fun e : Event Pid Dir Name => e.relinks q n d) ∘
          fun r => Event.bump pid dir r cause) = fun _ => false := by
        funext r
        simp only [Function.comp, Event.relinks, decide_eq_false_iff_not]
        exact fun h => hd h.1.symm
      rw [hp]
      simp [hd]
  rw [wildcardBump, relinkBumps_append_bumps q n d s.events _ hlink, hcount]

theorem frame_wildcardBump (s : State Pid Dir Name) (pid : Pid) (dir : Dir) {cause : Cause}
    (hc : cause ≠ .load) : Frame Nowhere s (wildcardBump s pid dir cause) where
  srcdirs := rfl
  zroutines := rfl
  lastZro := rfl
  zro := fun _ => rfl
  rtns := fun _ _ _ => rfl
  data := fun d n => by rw [obj_wildcardBump]; split <;> rfl
  ver := fun d n => by rw [obj_wildcardBump]; split <;> rfl
  time := fun d n => by rw [obj_wildcardBump]; split <;> rfl
  srcDir := fun d n => by rw [obj_wildcardBump]; split <;> rfl
  tracks := fun q n _ d k h => by
    rw [obj_wildcardBump, relinkBumps_wildcard s pid dir hc]
    split
    · simp only [ObjNode.bump, h, Option.getD_some]
      rfl
    · exact h

theorem frame_simulateZrupdate (s : State Pid Dir Name) (pid : Pid) (dir : Dir) {cause : Cause}
    (hc : cause ≠ .load) (t : Target Name) :
    Frame Nowhere s (simulateZrupdate s pid dir cause t) := by
  cases t with
  | wildcard =>
      have hw := frame_wildcardBump s pid dir hc
      show Frame Nowhere s (if s.held dir = [] then wildcardBump s pid dir cause
        else (wildcardBump s pid dir cause).knowDir pid dir)
      split
      · exact hw
      · exact hw.trans (frame_knowDir _ _ _)
  | routine name =>
      exact (frame_bump s pid dir name cause fun _ _ _ h => hc h.1).trans (frame_knowDir _ _ _)

/-! ## 6. Linking -/

theorem frame_clearRoutineSharedRefs (E : Pid → Name → Prop) (s : State Pid Dir Name) (pid : Pid)
    (name : Name) : Frame E s (clearRoutineSharedRefs s pid name) :=
  frame_refs E s _ _

theorem frame_recordCycles (pid : Pid) (name : Name) :
    ∀ (ds : List Dir) (s : State Pid Dir Name),
      Frame (Only pid name) s (recordCycles s pid name ds)
  | [], s => Frame.refl _ s
  | d :: ds, s =>
      ((frame_initCycle _ s d name).trans (frame_setRtn _ pid name _)).trans
        (frame_recordCycles pid name ds _)

/-- After the loop every directory of the list has a cycle, and the process has recorded it. -/
theorem recordCycles_recorded (pid : Pid) (name : Name) :
    ∀ (ds : List Dir) (s : State Pid Dir Name) (d : Dir),
      (d ∈ ds ∨ ∃ c, (s.rtn pid name).cycle d = some c ∧ (s.obj d name).cycle = some c) →
      ∃ c, ((recordCycles s pid name ds).rtn pid name).cycle d = some c ∧
        ((recordCycles s pid name ds).obj d name).cycle = some c
  | [], _, _, h => by simpa [recordCycles] using h
  | e :: ds, s, d, h => by
      refine recordCycles_recorded pid name ds _ d ?_
      by_cases hmem : d ∈ ds
      · exact Or.inl hmem
      · refine Or.inr ?_
        rw [rtn_setRtn_self, obj_setRtn, obj_setObj]
        by_cases hd : d = e
        · subst hd
          simp [Rtn.setCycle]
        · have h' : ∃ c, (s.rtn pid name).cycle d = some c ∧ (s.obj d name).cycle = some c := by
            rcases h with h | h
            · rcases List.mem_cons.1 h with h | h
              · exact absurd h hd
              · exact absurd h hmem
            · exact h
          simpa [Rtn.setCycle, hd] using h'

theorem events_recordCycles (pid : Pid) (name : Name) :
    ∀ (ds : List Dir) (s : State Pid Dir Name), (recordCycles s pid name ds).events = s.events
  | [], _ => rfl
  | _ :: ds, _ => (events_recordCycles pid name ds _).trans rfl

end YottaTest.Barrage
