/-
  File:      YottaTest/Barrage/Invariant.lean
  Subject:   The analyzer's invariant, and that it never trips over its own model.

  * `Zro.Lists` -- the first entries of an array are those of a logged `$zroutines`, whatever
    lies above them; a merge brings this about (`lists_merge`) and every loop over the array only
    sees the list (`searchZro_eq`, `compareCycles_eq`, `searchObjects_ok`);
  * `starredUpTo`, `linkedStarred` -- the starred directories a list names up to the one a
    routine was linked from, and whether that one is starred;
  * `LinkOk`, `Inv` -- what a process's record of a link promises: for a starred link every such
    directory has a cycle, and it is the recorded one plus the bumps since the link;
  * `Admissible`, `Reachable` -- the logs the analyzer is given, and the states it reaches;
  * **`replayAction_ok`** -- in a reachable state an admissible action meets no failed assert and
    no undefined node.
-/
import YottaTest.Barrage.Frame

namespace YottaTest.Barrage

open YottaTest.Lib

variable {Pid Dir Name : Type} [DecidableEq Pid] [DecidableEq Dir] [DecidableEq Name]

/-! ## 1. Arrays that list a logged $zroutines -/

/-- The nodes of an entry are those of a logged directory; source directories past its count are
    not spoken of. -/
structure ZroEntry.Is (z : ZroEntry Dir) (l : LogZro Dir) : Prop where
  dir : z.dir = some l.dir
  starred : z.starred = some l.starred
  count : z.count = some l.srcs.length
  src : ∀ j (h : j < l.srcs.length), z.src (j + 1) = some l.srcs[j]

/-- The entries from index `i` on are those of the list, for its length. -/
def Zro.ListsFrom (z : Zro Dir) (i : Nat) (log : List (LogZro Dir)) : Prop :=
  ∀ k (h : k < log.length), (z.entry (i + k)).Is log[k]

/-- The array holds the logged list in front of whatever else it holds. -/
structure Zro.Lists (z : Zro Dir) (log : List (LogZro Dir)) : Prop where
  count : z.count = some log.length
  entries : z.ListsFrom 1 log

omit [DecidableEq Dir] in
theorem Zro.ListsFrom.cons {z : Zro Dir} {i : Nat} {e : LogZro Dir} {l : List (LogZro Dir)}
    (h : z.ListsFrom i (e :: l)) : (z.entry i).Is e ∧ z.ListsFrom (i + 1) l := by
  refine ⟨h 0 (by simp), fun k hk => ?_⟩
  have := h (k + 1) (by simpa using hk)
  rwa [show i + (k + 1) = i + 1 + k by omega] at this

omit [DecidableEq Dir] in
/-- **A merge puts the merged list in front**: older entries only stay past its end. -/
theorem lists_merge (target : Zro Dir) {z : Zro Dir} {log : List (LogZro Dir)} (h : z.Lists log) :
    (target.merge z).Lists log where
  count := by rw [Zro.merge, h.count, Option.some_or]
  entries := fun k hk => by
    have he := h.entries k hk
    exact
      { dir := by simp only [Zro.merge, ZroEntry.merge, he.dir, Option.some_or]
        starred := by simp only [Zro.merge, ZroEntry.merge, he.starred, Option.some_or]
        count := by simp only [Zro.merge, ZroEntry.merge, he.count, Option.some_or]
        src := fun j hj => by
          simp only [Zro.merge, ZroEntry.merge, he.src j hj, Option.some_or] }

omit [DecidableEq Dir] in
theorem lists_ofLog (log : List (LogZro Dir)) : (Zro.ofLog log).Lists log where
  count := rfl
  entries := fun k hk => by
    have he : (Zro.ofLog log).entry (1 + k) = ZroEntry.ofLog log[k] := by
      rw [Nat.add_comm]
      simp only [Zro.ofLog, List.getElem?_eq_getElem hk, Option.map_some, Option.getD_some]
    rw [he]
    exact ⟨rfl, rfl, rfl, fun j hj => List.getElem?_eq_getElem hj⟩

/-! ## 2. Searching a list for a directory -/

/-- The first entry that names the directory is starred. -/
def linkedStarred (dir : Dir) : List (LogZro Dir) → Bool
  | [] => false
  | e :: l => if e.dir = dir then e.starred else linkedStarred dir l

/-- The starred directories of the list up to and including the first entry for `dir`. -/
def starredUpTo (dir : Dir) : List (LogZro Dir) → List Dir
  | [] => []
  | e :: l =>
      (if e.starred then [e.dir] else []) ++ (if e.dir = dir then [] else starredUpTo dir l)

/-- The search of `simulateLink`, on the list. -/
def searchLog (dir : Dir) : List (LogZro Dir) → Bool → List Dir → Search Dir
  | [], starred, dirs => ⟨false, starred, dirs⟩
  | e :: l, _, dirs =>
      let dirs := if e.starred then dirs.insert e.dir else dirs
      if e.dir = dir then ⟨true, e.starred, dirs⟩ else searchLog dir l e.starred dirs

theorem searchZro_eq (z : Zro Dir) (dir : Dir) :
    ∀ (log : List (LogZro Dir)) (i : Nat) (st : Bool) (dirs : List Dir), z.ListsFrom i log →
      searchZro z dir log.length i st dirs = .ok (searchLog dir log st dirs)
  | [], _, _, _, _ => rfl
  | e :: l, i, st, dirs, h => by
      obtain ⟨he, hl⟩ := h.cons
      have ih := searchZro_eq z dir l (i + 1) e.starred
        (if e.starred then dirs.insert e.dir else dirs) hl
      simp only [List.length_cons, searchZro, he.dir, he.starred, defined, bind, Except.bind,
        searchLog]
      split
      · rfl
      · exact ih

/-- The search ends on a starred entry for the directory exactly when the first one is. -/
theorem searchLog_starred (dir : Dir) :
    ∀ (log : List (LogZro Dir)) (st : Bool) (dirs : List Dir),
      ((searchLog dir log st dirs).stop && (searchLog dir log st dirs).starred)
        = linkedStarred dir log
  | [], _, _ => rfl
  | e :: l, _, dirs => by
      simp only [searchLog, linkedStarred]
      split
      · simp
      · exact searchLog_starred dir l _ _

/-- The directories the search collects. -/
theorem mem_searchLog_dirs (dir : Dir) :
    ∀ (log : List (LogZro Dir)) (st : Bool) (dirs : List Dir) (d : Dir),
      d ∈ (searchLog dir log st dirs).dirs ↔ d ∈ dirs ∨ d ∈ starredUpTo dir log
  | [], _, _, _ => by simp [searchLog, starredUpTo]
  | e :: l, st, dirs, d => by
      have hins : d ∈ (if e.starred then dirs.insert e.dir else dirs) ↔
          d ∈ dirs ∨ d ∈ (if e.starred then [e.dir] else []) := by
        cases e.starred
        · simp
        · simp [or_comm]
      simp only [searchLog, starredUpTo, List.mem_append]
      split
      · simpa using hins
      · rw [mem_searchLog_dirs dir l _ _ d, hins, or_assoc]

/-! ## 3. The invariant -/

/-- A starred link of `n` by `p` from `dir`: the directory is starred in the process's last
    `$zroutines`, and every starred directory up to it has a cycle, which is the process's
    recorded one plus the bumps since the link. -/
structure StarredOk (s : State Pid Dir Name) (p : Pid) (n : Name) (r : Rtn Dir) (dir : Dir)
    (log : List (LogZro Dir)) : Prop where
  last : s.lastZro p = some log
  linked : linkedStarred dir log = true
  cycle : ∀ d ∈ starredUpTo dir log, ∃ k, r.cycle d = some k ∧
    (s.obj d n).cycle = some (k + relinkBumps p n d s.events)

/-- A recorded link says where it is from and whether it is starred; if so it is in order. -/
def LinkOk (s : State Pid Dir Name) (p : Pid) (n : Name) (r : Rtn Dir) : Prop :=
  ∃ dir st, r.dir = some dir ∧ r.starred = some st ∧
    (st = true → ∃ log, StarredOk s p n r dir log)

/-- A source that exists has its version and time. -/
def SrcNode.Ok (x : SrcNode) : Prop :=
  x.exists = true → x.ver.isSome = true ∧ x.time.isSome = true

/-- An object that exists has its version, time and source directory. -/
def ObjNode.Ok (x : ObjNode Dir) : Prop :=
  x.data = true → x.ver.isSome = true ∧ x.time.isSome = true ∧ x.srcDir.isSome = true

/-- **The analyzer's invariant.** -/
structure Inv (s : State Pid Dir Name) : Prop where
  src : ∀ d n, (s.srcdirs d n).Ok
  obj : ∀ d n, (s.obj d n).Ok
  zro : ∀ p log, s.lastZro p = some log → (s.procs p).zro.Lists log
  rtn : ∀ p n r, (s.procs p).rtns.get n = some r → LinkOk s p n r

theorem inv_init : Inv (State.init : State Pid Dir Name) where
  src := fun _ _ h => by simp [State.init, SrcNode.exists, SrcNode.empty] at h
  obj := fun _ _ h => by simp [State.init, State.obj, ObjNode.empty] at h
  zro := fun _ _ h => by simp [State.init] at h
  rtn := fun _ _ _ h => by simp [State.init] at h

/-- A link that a frame spares stays in order. -/
theorem LinkOk.frame {E : Pid → Name → Prop} {s s' : State Pid Dir Name} {p : Pid} {n : Name}
    {r : Rtn Dir} (h : LinkOk s p n r) (hf : Frame E s s') (hE : ¬ E p n) : LinkOk s' p n r := by
  obtain ⟨dir, st, hdir, hst, hs⟩ := h
  refine ⟨dir, st, hdir, hst, fun he => ?_⟩
  obtain ⟨log, hlast, hlinked, hcyc⟩ := hs he
  refine ⟨log, by rw [hf.lastZro]; exact hlast, hlinked, fun d hd => ?_⟩
  obtain ⟨k, hk, hc⟩ := hcyc d hd
  exact ⟨k, hk, hf.tracks p n hE d k hc⟩

/-- **A framed step keeps the invariant**, once the pairs it works on are in order. -/
theorem Inv.frame {E : Pid → Name → Prop} {s s' : State Pid Dir Name} (h : Inv s)
    (hf : Frame E s s')
    (hE : ∀ p n r, E p n → (s'.procs p).rtns.get n = some r → LinkOk s' p n r) : Inv s' where
  src := by rw [hf.srcdirs]; exact h.src
  obj := fun d n => by
    have := h.obj d n
    unfold ObjNode.Ok at this ⊢
    rwa [hf.data, hf.ver, hf.time, hf.srcDir]
  zro := fun p log hl => by
    rw [hf.lastZro] at hl
    rw [hf.zro]
    exact h.zro p log hl
  rtn := fun p n r hr => by
    by_cases he : E p n
    · exact hE p n r he hr
    · rw [hf.rtns p n he] at hr
      exact (h.rtn p n r hr).frame hf he

/-! ## 4. Linking -/

/-- The process has recorded the directory's present cycle. -/
def Recorded (s : State Pid Dir Name) (p : Pid) (n : Name) (d : Dir) : Prop :=
  ∃ c, (s.rtn p n).cycle d = some c ∧ (s.obj d n).cycle = some c

theorem frame_setRoutineSharedRef (E : Pid → Name → Prop) (s : State Pid Dir Name) (pid : Pid)
    (name : Name) (v : Variant Dir) : Frame E s (setRoutineSharedRef s pid name v) :=
  frame_refs E s _ _

/-- **A load is recorded with the process that performs it**: the bump it causes in one directory
    leaves every cycle the process has recorded current. -/
theorem loadObject_ok (s : State Pid Dir Name) (pid : Pid) (dir : Dir) (name : Name) :
    ∃ s', loadObject s pid dir name = .ok s' ∧ Frame (Only pid name) s s' ∧
      s'.events = s.events ++ [Event.bump pid dir name .load] ∧
      (s'.rtn pid name).starred = (s.rtn pid name).starred ∧
      (s'.rtn pid name).dir = (s.rtn pid name).dir ∧
      ∀ d, Recorded s pid name d → Recorded s' pid name d := by
  let s1 := simulateZrupdate s pid dir .load (.routine name)
  have hobj : ∀ d, s1.obj d name =
      if d = dir ∧ name = name then (s.obj dir name).bump else s.obj d name :=
    fun d => obj_setObj s dir name _ d name
  have hcyc : (s1.obj dir name).cycle = some ((s.obj dir name).cycle.getD 0 + 1) := by
    rw [hobj, if_pos ⟨rfl, rfl⟩]
    rfl
  have hrtn : s1.rtn pid name = s.rtn pid name := by
    show ((if pid = pid then _ else _ : Proc Dir Name).rtns.get name).getD Rtn.empty = _
    rw [if_pos rfl]
    rfl
  have hf1 : Frame (Only pid name) s s1 :=
    (frame_bump s pid dir name .load fun q n hE h => hE h.2).trans
      ((frame_knowDir _ _ _).mono fun _ _ h => h.elim)
  refine ⟨s1.setRtn pid name
    ((s1.rtn pid name).setCycle dir ((s.obj dir name).cycle.getD 0 + 1)), ?_, ?_, rfl, ?_, ?_, ?_⟩
  · show (defined (s1.obj dir name).cycle).bind _ = _
    rw [hcyc]
    rfl
  · exact hf1.trans (frame_setRtn _ _ _ _)
  · rw [rtn_setRtn_self, hrtn]
    rfl
  · rw [rtn_setRtn_self, hrtn]
    rfl
  · rintro d ⟨c, hc, ho⟩
    unfold Recorded
    rw [rtn_setRtn_self, obj_setRtn, hrtn]
    by_cases hd : d = dir
    · subst hd
      exact ⟨_, if_pos rfl, hcyc⟩
    · refine ⟨c, (if_neg hd).trans hc, ?_⟩
      rw [hobj, if_neg fun h => hd h.1]
      exact ho

/-- What sharing does to the process's record: nothing but keep it current. -/
theorem simulateObjectSharing_ok (s : State Pid Dir Name) (pid : Pid) (dir srcDir : Dir)
    (name : Name) (ver : Nat) : ∃ s', simulateObjectSharing s pid dir srcDir name ver = .ok s' ∧
      Frame (Only pid name) s s' ∧
      (s'.events = s.events ∨ s'.events = s.events ++ [Event.bump pid dir name .load]) ∧
      (s'.rtn pid name).starred = (s.rtn pid name).starred ∧
      (s'.rtn pid name).dir = (s.rtn pid name).dir ∧
      ∀ d, Recorded s pid name d → Recorded s' pid name d := by
  have hrefs : ∀ s1 : State Pid Dir Name, Frame (Only pid name) s1
      (setRoutineSharedRef (clearRoutineSharedRefs s1 pid name) pid name ⟨ver, dir, srcDir⟩) :=
    fun s1 => (frame_clearRoutineSharedRefs _ s1 pid name).trans (frame_setRoutineSharedRef _ _ _ _ _)
  unfold simulateObjectSharing
  by_cases hsh : s.shared name ⟨ver, dir, srcDir⟩ = true
  · rw [if_pos hsh]
    exact ⟨_, rfl, hrefs s, Or.inl rfl, rfl, rfl, fun _ h => h⟩
  · rw [if_neg hsh]
    obtain ⟨s1, h1, hf, hev, hst, hdir, hrec⟩ := loadObject_ok s pid dir name
    rw [h1]
    exact ⟨_, rfl, hf.trans (hrefs s1), Or.inr hev, hst, hdir, hrec⟩

/-- After its own link, no bump asks the process to relink. -/
theorem relinkBumps_own_link (es : List (Event Pid Dir Name)) (p : Pid) (n : Name) (d dir : Dir)
    {es' : List (Event Pid Dir Name)}
    (h : es' = es ++ [Event.link p n] ∨ es' = es ++ [Event.link p n] ++ [Event.bump p dir n .load]) :
    relinkBumps p n d es' = 0 := by
  have hlink : relinkBumps p n d (es ++ [Event.link p n]) = 0 := by
    rw [relinkBumps_append, if_pos (by simp [Event.isLink])]
  rcases h with rfl | rfl
  · exact hlink
  · have hown : (Event.bump p dir n .load : Event Pid Dir Name).relinks p n d = false := by
      simp [Event.relinks]
    rw [relinkBumps_append, hlink, hown]
    rfl

theorem startLink_ok (s : State Pid Dir Name) (pid : Pid) (dir : Dir) (name : Name)
    (found : Search Dir) :
    Frame (Only pid name) s (startLink s pid dir name found) ∧
      (startLink s pid dir name found).events = s.events ++ [Event.link pid name] ∧
      ((startLink s pid dir name found).rtn pid name).starred
        = some (found.stop && found.starred) ∧
      ((startLink s pid dir name found).rtn pid name).dir = some dir ∧
      ((found.stop && found.starred) = true →
        ∀ d ∈ found.dirs, Recorded (startLink s pid dir name found) pid name d) := by
  let s1 := s.record (.link pid name)
  let s2 := s1.setProc pid { s1.procs pid with rtns := (s1.procs pid).rtns.erase name }
  have hf2 : Frame (Only pid name) s s2 :=
    (frame_link s pid name).trans (frame_eraseRtn s1 pid name)
  unfold startLink
  cases hst : found.stop && found.starred with
  | false =>
      refine ⟨hf2.trans (frame_setRtn s2 pid name _), rfl, ?_, ?_, fun h => absurd h (by simp)⟩
      all_goals
        simp only [rtn_setRtn_self]
  | true =>
      let s3 := recordCycles s2 pid name found.dirs
      have hev : s3.events = s.events ++ [Event.link pid name] := events_recordCycles pid name _ s2
      refine ⟨(hf2.trans (frame_recordCycles pid name _ s2)).trans (frame_setRtn s3 pid name _),
        hev, ?_, ?_, fun _ d hd => ?_⟩
      · simp only [rtn_setRtn_self]
      · simp only [rtn_setRtn_self]
      · obtain ⟨c, hc, ho⟩ := recordCycles_recorded pid name found.dirs s2 d (Or.inl hd)
        unfold Recorded
        simp only [if_true, rtn_setRtn_self]
        exact ⟨c, hc, ho⟩

/-- **A link of an object that exists, by a process with a `$zroutines`, trips over nothing**, and
    leaves a record that is in order. -/
theorem simulateLink_ok {s : State Pid Dir Name} {pid : Pid} {log : List (LogZro Dir)} {dir : Dir}
    {name : Name} (hlast : s.lastZro pid = some log) (hzro : (s.procs pid).zro.Lists log)
    (hver : (s.obj dir name).ver.isSome = true)
    (hsrc : (s.obj dir name).srcDir.isSome = true) :
    ∃ s', simulateLink s pid dir name = .ok s' ∧ Frame (Only pid name) s s' ∧
      ∀ r, (s'.procs pid).rtns.get name = some r → LinkOk s' pid name r := by
  obtain ⟨ver, hver⟩ := Option.isSome_iff_exists.1 hver
  obtain ⟨srcDir, hsrc⟩ := Option.isSome_iff_exists.1 hsrc
  have hsearch := searchZro_eq _ dir log 1 false [] hzro.entries
  generalize hfound : searchLog dir log false [] = found at hsearch
  have hboth : (found.stop && found.starred) = linkedStarred dir log := by
    rw [← hfound]
    exact searchLog_starred dir log false []
  have hdirs : ∀ d ∈ starredUpTo dir log, d ∈ found.dirs := by
    intro d hd
    rw [← hfound, mem_searchLog_dirs]
    exact Or.inr hd
  obtain ⟨hf1, hev1, hst1, hdir1, hrec1⟩ := startLink_ok s pid dir name found
  simp only [simulateLink, hver, hzro.count, hsearch, defined, bind, Except.bind]
  generalize startLink s pid dir name found = s1 at hf1 hev1 hst1 hdir1 hrec1 ⊢
  rw [hf1.srcDir, hsrc]
  cases hst : found.stop && found.starred with
  | false =>
      refine ⟨_, rfl, (hf1.trans (frame_clearRoutineSharedRefs _ s1 pid name)).trans
        (frame_setRtn _ pid name _), fun r hr => ?_⟩
      rw [rtns_setRtn, if_pos ⟨rfl, rfl⟩] at hr
      cases hr
      exact ⟨dir, false, hdir1, by rw [← hst]; exact hst1, fun h => absurd h (by simp)⟩
  | true =>
      obtain ⟨s2, h2, hf2, hev2, hst2, hdir2, hrec2⟩ :=
        simulateObjectSharing_ok s1 pid dir srcDir name ver
      refine ⟨s2.setRtn pid name { s2.rtn pid name with ver := some ver },
        by rw [if_pos rfl]; simp only [h2],
        (hf1.trans hf2).trans (frame_setRtn s2 pid name _), fun r hr => ?_⟩
      rw [rtns_setRtn, if_pos ⟨rfl, rfl⟩] at hr
      cases hr
      refine ⟨dir, true, hdir2.trans hdir1, by rw [← hst]; exact hst2.trans hst1, fun _ =>
        ⟨log, ?_, hboth ▸ hst, fun d hd => ?_⟩⟩
      · exact (hf1.trans hf2).lastZro ▸ hlast
      · obtain ⟨c, hc, ho⟩ := hrec2 d (hrec1 hst d (hdirs d hd))
        have hzero : relinkBumps pid name d s2.events = 0 := by
          refine relinkBumps_own_link s.events pid name d dir ?_
          rw [← hev1]
          exact hev2
        refine ⟨c, hc, ?_⟩
        show (s2.obj d name).cycle = some (c + relinkBumps pid name d s2.events)
        rw [hzero]
        exact ho

/-! ## 5. Executing -/

/-- **The cycle comparison, on the list**: with a link in order no assert fails and no node is
    undefined, and a relink is asked for when a starred directory up to the link's was bumped. -/
theorem compareCycles_eq (s : State Pid Dir Name) (pid : Pid) (name : Name) (dir : Dir)
    (hdir : (s.rtn pid name).dir = some dir) :
    ∀ (log : List (LogZro Dir)) (i : Nat), (s.procs pid).zro.ListsFrom i log →
      linkedStarred dir log = true →
      (∀ d ∈ starredUpTo dir log, ∃ k, (s.rtn pid name).cycle d = some k ∧
        (s.obj d name).cycle = some (k + relinkBumps pid name d s.events)) →
      compareCycles s pid name log.length i
        = .ok (decide (∃ d ∈ starredUpTo dir log, relinkBumps pid name d s.events ≠ 0))
  | [], _, _, h, _ => by simp [linkedStarred] at h
  | e :: l, i, hz, hlinked, hcyc => by
      obtain ⟨he, hl⟩ := hz.cons
      have ih := compareCycles_eq s pid name dir hdir l (i + 1) hl
      simp only [List.length_cons, compareCycles, he.starred, he.dir, hdir, defined, bind,
        Except.bind]
      simp only [linkedStarred] at hlinked
      cases hst : e.starred with
      | false =>
          have hne : e.dir ≠ dir := by
            intro hd
            rw [if_pos hd, hst] at hlinked
            exact absurd hlinked (by simp)
          have htail : starredUpTo dir (e :: l) = starredUpTo dir l := by
            simp [starredUpTo, hst, hne]
          rw [if_neg hne] at hlinked
          rw [htail] at hcyc ⊢
          exact ih hlinked hcyc
      | true =>
          have hhead : e.dir ∈ starredUpTo dir (e :: l) := by simp [starredUpTo, hst]
          obtain ⟨k, hk, hc⟩ := hcyc e.dir hhead
          simp only [if_true, hk, hc, assert, ne_eq, reduceCtorEq, not_false_eq_true,
            Nat.le_add_right, Nat.lt_add_right_iff_pos]
          by_cases hb : 0 < relinkBumps pid name e.dir s.events
          · have hex : ∃ d ∈ starredUpTo dir (e :: l), relinkBumps pid name d s.events ≠ 0 :=
              ⟨e.dir, hhead, by omega⟩
            rw [if_pos hb, decide_eq_true hex]
          · rw [if_neg hb]
            by_cases hd : e.dir = dir
            · have hnot : ¬ ∃ d ∈ starredUpTo dir (e :: l), relinkBumps pid name d s.events ≠ 0 := by
                rintro ⟨d, hmem, hne⟩
                simp only [starredUpTo, hst, hd, if_true, List.append_nil,
                  List.mem_singleton] at hmem
                subst hmem
                exact hne (by rw [hd] at hb; omega)
              rw [if_pos hd, decide_eq_false hnot]
            · have htail : starredUpTo dir (e :: l) = e.dir :: starredUpTo dir l := by
                simp [starredUpTo, hst, hd]
              rw [if_neg hd] at hlinked
              rw [if_neg hd, htail]
              rw [ih hlinked fun d hmem => hcyc d (by rw [htail]; exact List.mem_cons_of_mem _ hmem)]
              have hzero : relinkBumps pid name e.dir s.events = 0 := by omega
              simp [hzero]

/-- **The decision of an execution in a state that keeps the invariant.** -/
theorem needsLink_eq {s : State Pid Dir Name} (hs : Inv s) {pid : Pid}
    (name : Name) :
    ((s.procs pid).rtns.get name = none ∧ needsLink s pid name = .ok true) ∨
    (∃ r, (s.procs pid).rtns.get name = some r ∧ r.starred = some false ∧
      needsLink s pid name = .ok false) ∨
    ∃ r dir log, (s.procs pid).rtns.get name = some r ∧ r.starred = some true ∧
      r.dir = some dir ∧ s.lastZro pid = some log ∧
      needsLink s pid name
        = .ok (decide (∃ d ∈ starredUpTo dir log, relinkBumps pid name d s.events ≠ 0)) := by
  unfold needsLink
  cases hget : (s.procs pid).rtns.get name with
  | none => exact Or.inl ⟨rfl, rfl⟩
  | some r =>
      refine Or.inr ?_
      obtain ⟨dir, st, hdir, hst, hok⟩ := hs.rtn pid name r hget
      cases st with
      | false => exact Or.inl ⟨r, rfl, hst, by simp [hdir, hst, defined, bind, Except.bind]⟩
      | true =>
          obtain ⟨log, hlast, hlinked, hcyc⟩ := hok rfl
          have hz := hs.zro pid log hlast
          have hr : s.rtn pid name = r := by simp [State.rtn, hget]
          have hcmp := compareCycles_eq s pid name dir
            (by rw [hr]; exact hdir) log 1 hz.entries hlinked (by rw [hr]; exact hcyc)
          refine Or.inr ⟨r, dir, log, rfl, hst, hdir, hlast, ?_⟩
          simp only [hdir, hst, hz.count, defined, bind, Except.bind, if_true]
          exact hcmp

/-- What the search for an object or a source ends with: a version found is a version somewhere,
    and an object found is one the directory holds. -/
structure FoundOk (s : State Pid Dir Name) (name : Name) (f : Found Dir) : Prop where
  objDir : f.objVersion ≠ 0 ∨ f.srcVersion ≠ 0 → f.objDir.isSome = true
  data : f.objVersion ≠ 0 → ∀ d, f.objDir = some d → (s.obj d name).data = true
  srcDir : f.srcTime ≠ 0 ∨ f.srcVersion ≠ 0 → f.srcDir.isSome = true

theorem searchSources_ok {s : State Pid Dir Name} (hs : Inv s) (name : Name) (z : ZroEntry Dir) :
    ∀ (n j : Nat) (f : Found Dir), (∀ k < n, (z.src (j + k)).isSome = true) →
      (f.srcTime ≠ 0 ∨ f.srcVersion ≠ 0 → f.srcDir.isSome = true) →
      ∃ f', searchSources s name z n j f = .ok f' ∧
        (f'.srcTime ≠ 0 ∨ f'.srcVersion ≠ 0 → f'.srcDir.isSome = true) ∧
        f'.objDir = f.objDir ∧ f'.objVersion = f.objVersion ∧ f'.objTime = f.objTime
  | 0, _, f, _, hf => ⟨f, rfl, hf, rfl, rfl, rfl⟩
  | n + 1, j, f, hz, hf => by
      obtain ⟨srcDir, hsrc⟩ := Option.isSome_iff_exists.1 (hz 0 (by omega))
      rw [Nat.add_zero] at hsrc
      have hrest : ∀ k < n, (z.src (j + 1 + k)).isSome = true := fun k hk => by
        have := hz (k + 1) (by omega)
        rwa [show j + (k + 1) = j + 1 + k by omega] at this
      simp only [searchSources, hsrc, defined, bind, Except.bind]
      by_cases hex : (s.srcdirs srcDir name).exists = true
      · obtain ⟨hv, ht⟩ := hs.src srcDir name hex
        obtain ⟨ver, hv⟩ := Option.isSome_iff_exists.1 hv
        obtain ⟨time, ht⟩ := Option.isSome_iff_exists.1 ht
        simp only [hex, hv, ht, if_true, pure, Except.pure]
        split
        · exact ⟨_, rfl, fun _ => rfl, rfl, rfl, rfl⟩
        · exact searchSources_ok hs name z n (j + 1) _ hrest fun _ => rfl
      · simp only [hex, if_false, Bool.false_eq_true, pure, Except.pure]
        split
        · exact ⟨_, rfl, fun _ => rfl, rfl, rfl, rfl⟩
        · exact searchSources_ok hs name z n (j + 1) _ hrest fun _ => rfl

theorem searchObjects_ok {s : State Pid Dir Name} (hs : Inv s) (name : Name) (zro : Zro Dir) :
    ∀ (log : List (LogZro Dir)) (i : Nat) (f : Found Dir), zro.ListsFrom i log →
      f.objVersion = 0 → f.srcVersion = 0 → (f.srcTime ≠ 0 → f.srcDir.isSome = true) →
      ∃ f', searchObjects s zro name log.length i f = .ok f' ∧ FoundOk s name f'
  | [], _, f, _, hobj, hsrc, htime =>
      ⟨f, rfl, fun h => (h.elim (fun h => h hobj) fun h => h hsrc).elim, fun h => (h hobj).elim,
        fun h => h.elim htime fun h => (h hsrc).elim⟩
  | e :: l, i, f, hz, hobj, hsrc, htime => by
      obtain ⟨he, hl⟩ := hz.cons
      have hsrcs : ∀ k < e.srcs.length, ((zro.entry i).src (1 + k)).isSome = true := by
        intro k hk
        rw [Nat.add_comm, he.src k hk]
        rfl
      obtain ⟨f1, h1, hdir1, hobjDir1, hver1, -⟩ := searchSources_ok hs name (zro.entry i)
        e.srcs.length 1 { f with objDir := some e.dir } hsrcs
        fun h => h.elim htime fun h => (h hsrc).elim
      have hver1 : f1.objVersion = 0 := hver1.trans hobj
      simp only [List.length_cons, searchObjects, he.dir, he.count, defined, bind, Except.bind, h1]
      by_cases hdata : (s.obj e.dir name).data = true
      · obtain ⟨hv, ht, -⟩ := hs.obj e.dir name hdata
        obtain ⟨ver, hv⟩ := Option.isSome_iff_exists.1 hv
        obtain ⟨time, ht⟩ := Option.isSome_iff_exists.1 ht
        simp only [hdata, hv, ht, if_true, pure, Except.pure]
        split
        · refine ⟨_, rfl, fun _ => ?_, fun _ d hd => ?_, hdir1⟩
          · show f1.objDir.isSome = true
            rw [hobjDir1]
            rfl
          · have hd : some e.dir = some d := hobjDir1.symm.trans hd
            cases hd
            exact hdata
        · rename_i hnone
          rw [not_or, not_not, not_not] at hnone
          exact searchObjects_ok hs name zro l (i + 1) _ hl hnone.1 hnone.2 fun h =>
            hdir1 (Or.inl h)
      · simp only [hdata, if_false, Bool.false_eq_true, pure, Except.pure]
        split
        · refine ⟨f1, rfl, fun _ => ?_, fun h => (h hver1).elim, hdir1⟩
          rw [hobjDir1]
          rfl
        · rename_i hnone
          rw [not_or, not_not, not_not] at hnone
          exact searchObjects_ok hs name zro l (i + 1) _ hl hnone.1 hnone.2 fun h =>
            hdir1 (Or.inl h)

/-- Writing an object that is in order, with the cycle it has, keeps the invariant. -/
theorem inv_setObj {s : State Pid Dir Name} (hs : Inv s) (dir : Dir) (name : Name)
    {x : ObjNode Dir} (hx : x.Ok) (hcycle : x.cycle = (s.obj dir name).cycle) :
    Inv (s.setObj dir name x) where
  src := hs.src
  obj := fun d n => by
    rw [obj_setObj]
    split
    · exact hx
    · exact hs.obj d n
  zro := hs.zro
  rtn := fun p n r hr => by
    obtain ⟨dir', st, hdir, hst, hok⟩ := hs.rtn p n r hr
    refine ⟨dir', st, hdir, hst, fun h => ?_⟩
    obtain ⟨log, hlast, hlinked, hcyc⟩ := hok h
    refine ⟨log, hlast, hlinked, fun d hd => ?_⟩
    obtain ⟨k, hk, hc⟩ := hcyc d hd
    refine ⟨k, hk, ?_⟩
    rw [obj_setObj]
    split
    · rename_i he
      rw [hcycle, ← he.1, ← he.2]
      exact hc
    · exact hc

omit [DecidableEq Dir] in
theorem compile_ok (x : ObjNode Dir) (ver time : Nat) (srcDir : Dir) :
    (x.compile ver time srcDir).Ok := fun _ => ⟨rfl, rfl, rfl⟩

/-- Whether a process has set its search path, which a link or an execution needs. -/
def Started (s : State Pid Dir Name) (pid : Pid) : Prop := (s.lastZro pid).isSome = true

/-- A link keeps the invariant and the processes' search paths. -/
theorem simulateLink_inv {s : State Pid Dir Name} (hs : Inv s) {pid : Pid} (hp : Started s pid)
    (dir : Dir) (name : Name) (hver : (s.obj dir name).ver.isSome = true)
    (hsrc : (s.obj dir name).srcDir.isSome = true) :
    ∃ s', simulateLink s pid dir name = .ok s' ∧ Inv s' ∧ Started s' pid := by
  obtain ⟨log, hlast⟩ := Option.isSome_iff_exists.1 hp
  obtain ⟨s', hok, hf, hlink⟩ := simulateLink_ok hlast (hs.zro pid log hlast) hver hsrc
  refine ⟨s', hok, hs.frame hf fun p n r hE hr => ?_, ?_⟩
  · obtain ⟨rfl, rfl⟩ := hE
    exact hlink r hr
  · unfold Started
    rw [hf.lastZro]
    exact hp

/-- **The linking part of an execution trips over nothing.** -/
theorem relink_ok {s : State Pid Dir Name} (hs : Inv s) {pid : Pid} (hp : Started s pid)
    (time : Nat) (name : Name) : ∃ s', relink s pid time name = .ok s' ∧ Inv s' := by
  obtain ⟨log, hlast⟩ := Option.isSome_iff_exists.1 hp
  have hz := hs.zro pid log hlast
  obtain ⟨f, hfound, hf⟩ := searchObjects_ok hs name (s.procs pid).zro log 1
    ⟨0, 0, 0, 0, none, none⟩ hz.entries rfl rfl fun h => (h rfl).elim
  simp only [relink, hz.count, defined, bind, Except.bind, hfound]
  by_cases hov : 0 < f.objVersion
  · obtain ⟨objDir, hobj⟩ := Option.isSome_iff_exists.1 (hf.objDir (Or.inl (by omega)))
    have hdata := hf.data (by omega) objDir hobj
    obtain ⟨hver, -, hsrc⟩ := hs.obj objDir name hdata
    simp only [hov, if_true, hobj]
    by_cases hnew : f.srcTime > f.objTime
    · obtain ⟨srcDir, hsd⟩ := Option.isSome_iff_exists.1 (hf.srcDir (Or.inl (by omega)))
      simp only [hnew, if_true, hsd, pure, Except.pure]
      have hinv := inv_setObj hs objDir name
        (compile_ok (s.obj objDir name) f.srcVersion time srcDir) rfl
      obtain ⟨s', hok, hs', -⟩ := simulateLink_inv hinv hp objDir name
        (by rw [obj_setObj, if_pos ⟨rfl, rfl⟩]; rfl)
        (by rw [obj_setObj, if_pos ⟨rfl, rfl⟩]; rfl)
      exact ⟨s', hok, hs'⟩
    · simp only [hnew, if_false, pure, Except.pure]
      obtain ⟨s', hok, hs', -⟩ := simulateLink_inv hs hp objDir name hver hsrc
      exact ⟨s', hok, hs'⟩
  · by_cases hsv : 0 < f.srcVersion
    · obtain ⟨objDir, hobj⟩ := Option.isSome_iff_exists.1 (hf.objDir (Or.inr (by omega)))
      obtain ⟨srcDir, hsd⟩ := Option.isSome_iff_exists.1 (hf.srcDir (Or.inr (by omega)))
      simp only [hov, hsv, if_true, if_false, hobj, hsd]
      have hinv := inv_setObj hs objDir name
        (compile_ok { s.obj objDir name with data := true } f.srcVersion time srcDir) rfl
      obtain ⟨s', hok, hs', -⟩ := simulateLink_inv hinv hp objDir name
        (by rw [obj_setObj, if_pos ⟨rfl, rfl⟩]; rfl)
        (by rw [obj_setObj, if_pos ⟨rfl, rfl⟩]; rfl)
      exact ⟨s', hok, hs'⟩
    · simp only [hov, hsv, if_false]
      exact ⟨s, rfl, hs⟩

theorem simulateExec_ok {s : State Pid Dir Name} (hs : Inv s) {pid : Pid} (hp : Started s pid)
    (time : Nat) (name : Name) : ∃ s', simulateExec s pid time name = .ok s' ∧ Inv s' := by
  have hdec : ∃ b, needsLink s pid name = .ok b := by
    rcases needsLink_eq hs name with ⟨-, h⟩ | ⟨r, -, -, h⟩ | ⟨r, dir, log, -, -, -, -, h⟩
    all_goals exact ⟨_, h⟩
  obtain ⟨b, hb⟩ := hdec
  simp only [simulateExec, hb, bind, Except.bind]
  cases b with
  | false => exact ⟨s, rfl, hs⟩
  | true => exact relink_ok hs hp time name

/-! ## 6. The other actions -/

theorem knowStarredDirs_ok (z : Zro Dir) :
    ∀ (log : List (LogZro Dir)) (i : Nat) (dirs : Dir → Bool), z.ListsFrom i log →
      ∃ dirs', knowStarredDirs z log.length i dirs = .ok dirs'
  | [], _, dirs, _ => ⟨dirs, rfl⟩
  | e :: l, i, dirs, h => by
      obtain ⟨he, hl⟩ := h.cons
      simp only [List.length_cons, knowStarredDirs, he.starred, he.dir, defined, bind, Except.bind]
      cases e.starred with
      | false => exact knowStarredDirs_ok z l (i + 1) _ hl
      | true => exact knowStarredDirs_ok z l (i + 1) _ hl

/-- **Setting `$zroutines`** forgets the starred links, so no record depends on the old list. -/
theorem setZroutines_ok {s : State Pid Dir Name} (hs : Inv s) (pid : Pid)
    (log : List (LogZro Dir)) : ∃ s', setZroutines s pid log = .ok s' ∧ Inv s' := by
  have hmerged : (s.zroutines.merge (Zro.ofLog log)).Lists log := lists_merge _ (lists_ofLog log)
  obtain ⟨dirs, hdirs⟩ := knowStarredDirs_ok _ log 1 (s.procs pid).dirs hmerged.entries
  have hall : ((s.procs pid).rtns.entries.all fun e => e.2.starred.isSome) = true := by
    rw [List.all_eq_true]
    intro e he
    obtain ⟨_, st, -, hst, -⟩ := hs.rtn pid e.1 e.2 ((Table.mem_entries_iff _ _ _).1 he)
    rw [hst]
    rfl
  simp only [setZroutines, simulateSetZroutines, hall, if_true, hmerged.count, defined, bind,
    Except.bind, hdirs]
  refine ⟨_, rfl, hs.src, hs.obj, fun p log' hl => ?_, fun p n r hr => ?_⟩
  · simp only [procs_setProc] at hl ⊢
    by_cases hp : p = pid
    · rw [if_pos hp] at hl ⊢
      cases hl
      exact lists_merge _ hmerged
    · rw [if_neg hp] at hl
      simp only [hp, if_false]
      exact hs.zro p log' hl
  · simp only [procs_setProc] at hr
    by_cases hp : p = pid
    · subst hp
      simp only [if_true, Table.get_filter, Option.filter_eq_some_iff, decide_eq_true_eq] at hr
      obtain ⟨dir, st, hdir, hst, -⟩ := hs.rtn p n r hr.1
      refine ⟨dir, st, hdir, hst, fun h => ?_⟩
      rw [h] at hst
      exact (hr.2 hst).elim
    · simp only [hp, if_false] at hr
      obtain ⟨dir, st, hdir, hst, hok⟩ := hs.rtn p n r hr
      refine ⟨dir, st, hdir, hst, fun h => ?_⟩
      obtain ⟨log', hlast, hlinked, hcyc⟩ := hok h
      exact ⟨log', (if_neg hp).trans hlast, hlinked, hcyc⟩

theorem inv_setSrc {s : State Pid Dir Name} (hs : Inv s) (dir : Dir) (name : Name) {x : SrcNode}
    (hx : x.Ok) : Inv (s.setSrc dir name x) where
  src := fun d n => by
    show SrcNode.Ok (if d = dir ∧ n = name then x else s.srcdirs d n)
    split
    · exact hx
    · exact hs.src d n
  obj := hs.obj
  zro := hs.zro
  rtn := fun p n r hr => by
    obtain ⟨dir', st, hdir, hst, hok⟩ := hs.rtn p n r hr
    refine ⟨dir', st, hdir, hst, fun h => ?_⟩
    obtain ⟨log, hlast, hlinked, hcyc⟩ := hok h
    exact ⟨log, hlast, hlinked, hcyc⟩

theorem inv_deleteObject {s : State Pid Dir Name} (hs : Inv s) (dir : Dir) (name : Name) :
    Inv (s.setObj dir name { s.obj dir name with data := false }) :=
  inv_setObj hs dir name (fun h => absurd h (by simp)) rfl

theorem compileItem_ok {s : State Pid Dir Name} (hs : Inv s) (time : Nat)
    (item : Name × Dir × Dir) (h : (s.srcdirs item.2.1 item.1).exists = true) :
    ∃ s', compileItem s time item = .ok s' ∧ Inv s' := by
  obtain ⟨name, dir, dst⟩ := item
  obtain ⟨ver, hver⟩ := Option.isSome_iff_exists.1 (hs.src dir name h).1
  exact ⟨_, by simp only [compileItem, hver, defined, bind, Except.bind],
    inv_setObj hs dst name (compile_ok { s.obj dst name with data := true } ver time dir) rfl⟩

/-! ## 7. Runs -/

/-- Each item of an action's loop meets `ok` in the state the items before it lead to. -/
def AdmissibleItems {α : Type} (ok : State Pid Dir Name → α → Prop)
    (f : State Pid Dir Name → α → Except Fault (State Pid Dir Name)) :
    State Pid Dir Name → List α → Prop
  | _, [] => True
  | s, a :: as => ok s a ∧ ∀ s', f s a = .ok s' → AdmissibleItems ok f s' as

/-- What is promised of a logged action: a compile names a source and a link an object that the
    model holds at that point, and a process that links or executes has set its `$zroutines`. -/
def Admissible (s : State Pid Dir Name) (time : Nat) (pid : Pid) : Action Dir Name → Prop
  | .compile items => AdmissibleItems (fun s item => (s.srcdirs item.2.1 item.1).exists = true)
      (fun s item => compileItem s time item) s items
  | .link items => Started s pid ∧ AdmissibleItems (fun s item => (s.obj item.1 item.2).data = true)
      (fun s item => simulateLink s pid item.1 item.2) s items
  | .execute _ => Started s pid
  | _ => True

/-- The states the analyzer reaches on admissible logs. -/
inductive Reachable : State Pid Dir Name → Prop where
  | init : Reachable State.init
  | action {s s' : State Pid Dir Name} (time : Nat) (pid : Pid) (a : Action Dir Name) :
      Reachable s → Admissible s time pid a → replayAction s time pid a = .ok s' → Reachable s'

omit [DecidableEq Pid] [DecidableEq Dir] [DecidableEq Name] in
/-- A loop whose items keep a property trips over nothing and keeps it. -/
theorem foldlM_ok {α : Type} {P : State Pid Dir Name → Prop} {ok : State Pid Dir Name → α → Prop}
    {f : State Pid Dir Name → α → Except Fault (State Pid Dir Name)}
    (hstep : ∀ s a, P s → ok s a → ∃ s', f s a = .ok s' ∧ P s') :
    ∀ (as : List α) (s : State Pid Dir Name), P s → AdmissibleItems ok f s as →
      ∃ s', as.foldlM f s = .ok s' ∧ P s'
  | [], s, hs, _ => ⟨s, rfl, hs⟩
  | a :: as, s, hs, h => by
      obtain ⟨s1, h1, hs1⟩ := hstep s a hs h.1
      obtain ⟨s', h', hs'⟩ := foldlM_ok hstep as s1 hs1 (h.2 s1 h1)
      refine ⟨s', ?_, hs'⟩
      rw [List.foldlM_cons, h1]
      exact h'

omit [DecidableEq Pid] [DecidableEq Dir] [DecidableEq Name] in
theorem foldl_keeps {α : Type} {P : State Pid Dir Name → Prop}
    {f : State Pid Dir Name → α → State Pid Dir Name} (hstep : ∀ s a, P s → P (f s a)) :
    ∀ (as : List α) (s : State Pid Dir Name), P s → P (as.foldl f s)
  | [], _, hs => hs
  | a :: as, s, hs => foldl_keeps hstep as (f s a) (hstep s a hs)

/-- **One action keeps the invariant, and no assert of it fails and no read is undefined.** -/
theorem replayAction_inv {s : State Pid Dir Name} (hs : Inv s) {time : Nat} {pid : Pid}
    {a : Action Dir Name} (ha : Admissible s time pid a) :
    ∃ s', replayAction s time pid a = .ok s' ∧ Inv s' := by
  cases a with
  | setZroutines zro => exact setZroutines_ok hs pid zro
  | writeSources items =>
      exact ⟨_, rfl, foldl_keeps (P := Inv) (fun s item h => inv_setSrc h _ _ fun _ => ⟨rfl, rfl⟩) items s hs⟩
  | deleteSources items =>
      refine ⟨_, rfl, foldl_keeps (P := Inv) (fun s item h => inv_setSrc h _ _ fun hx => ?_) items s hs⟩
      simp [SrcNode.exists, SrcNode.empty] at hx
  | deleteObjects items =>
      exact ⟨_, rfl, foldl_keeps (P := Inv) (fun s item h => inv_deleteObject h _ _) items s hs⟩
  | compile items =>
      exact foldlM_ok (fun s item h hok => compileItem_ok h time item hok) items s hs ha
  | link items =>
      obtain ⟨s', hok, hs', -⟩ := foldlM_ok (P := fun s => Inv s ∧ Started s pid)
        (fun s item h hok => simulateLink_inv h.1 h.2 _ _ (h.1.obj _ _ hok).1 (h.1.obj _ _ hok).2.2)
        items s ⟨hs, ha.1⟩ ha.2
      exact ⟨s', hok, hs'⟩
  | zrupdate items =>
      refine ⟨_, rfl, foldl_keeps (P := Inv) (fun s item h => ?_) items s hs⟩
      have hc : item.2.cause ≠ .load := by
        cases item.2 with
        | wildcard => simp [Target.cause]
        | routine name => simp [Target.cause]
      exact h.frame (frame_simulateZrupdate s pid item.1 hc item.2) fun _ _ _ h => h.elim
  | execute name => exact simulateExec_ok hs ha time name

theorem Reachable.inv {s : State Pid Dir Name} (h : Reachable s) : Inv s := by
  induction h with
  | init => exact inv_init
  | action time pid a _ ha hok ih =>
      obtain ⟨s', hok', hs'⟩ := replayAction_inv ih ha
      rw [hok] at hok'
      cases hok'
      exact hs'

/-- **The analyzer never trips over its own model.** -/
theorem replayAction_ok {s : State Pid Dir Name} (h : Reachable s) (time : Nat) (pid : Pid)
    (a : Action Dir Name) (ha : Admissible s time pid a) :
    ∃ s', replayAction s time pid a = .ok s' := by
  obtain ⟨s', hok, -⟩ := replayAction_inv h.inv ha
  exact ⟨s', hok⟩

/-- The states along a log. -/
def replayLog (s : State Pid Dir Name) (log : List (Nat × Pid × Action Dir Name)) :
    Except Fault (State Pid Dir Name) :=
  log.foldlM (fun s e => replayAction s e.1 e.2.1 e.2.2) s

/-- An admissible log, action by action, leads from one reachable state to another. -/
theorem Reachable.replayLog : ∀ {log : List (Nat × Pid × Action Dir Name)} {s s' : State Pid Dir Name},
    Reachable s →
      AdmissibleItems (fun s e => Admissible s e.1 e.2.1 e.2.2) (fun s e => replayAction s e.1 e.2.1 e.2.2) s log →
        replayLog s log = .ok s' → Reachable s'
  | [], s, s', hs, _, h => by
      cases h
      exact hs
  | e :: log, s, s', hs, ha, h => by
      rw [Barrage.replayLog, List.foldlM_cons] at h
      obtain ⟨s1, h1, h⟩ := bind_eq_ok.1 h
      exact Reachable.replayLog (.action e.1 e.2.1 e.2.2 hs ha.1 h1) (ha.2 s1 h1) h

/-- Process 7 links routine 3 from a starred directory, and process 8 bumps its cycle there. -/
def linkedThenBumped : List (Nat × Nat × Action Nat Nat) :=
  [(1, 7, .setZroutines [⟨0, true, [1]⟩]), (2, 8, .setZroutines [⟨0, true, [1]⟩]),
    (3, 8, .writeSources [(1, 3, 5)]), (4, 7, .execute 3), (5, 8, .zrupdate [(0, .routine 3)])]

/-- Its process is there, with a starred link whose cycle has been left behind. -/
theorem reachable_linkedThenBumped : ∃ s : State Nat Nat Nat,
    replayLog State.init linkedThenBumped = .ok s ∧ Reachable s ∧ Started s 7 ∧
      (s.rtn 7 3).starred = some true ∧ (s.rtn 7 3).cycle 0 = some 1 ∧ (s.obj 0 3).cycle = some 2 := by
  have hrun : ∃ s : State Nat Nat Nat, replayLog State.init linkedThenBumped = .ok s ∧ Started s 7 ∧
      (s.rtn 7 3).starred = some true ∧ (s.rtn 7 3).cycle 0 = some 1 ∧ (s.obj 0 3).cycle = some 2 :=
    ⟨_, rfl, rfl, rfl, rfl, rfl⟩
  obtain ⟨s, hs, hfacts⟩ := hrun
  refine ⟨s, hs, Reachable.replayLog .init ?_ hs, hfacts⟩
  refine ⟨trivial, fun s1 h1 => ⟨trivial, fun s2 h2 => ⟨trivial, fun s3 h3 => ⟨?_, fun s4 _ =>
    ⟨trivial, fun _ _ => trivial⟩⟩⟩⟩⟩
  cases h1
  cases h2
  cases h3
  rfl

/-- The next execution meets the link that has been left behind. -/
theorem replayAction_ok_execute : ∃ s s' : State Nat Nat Nat,
    replayLog State.init linkedThenBumped = .ok s ∧
      (s.rtn 7 3).starred = some true ∧ (s.rtn 7 3).cycle 0 = some 1 ∧ (s.obj 0 3).cycle = some 2 ∧
      replayAction s 6 7 (.execute 3) = .ok s' := by
  obtain ⟨s, hs, hreach, hstarted, hstarred, hown, hcur⟩ := reachable_linkedThenBumped
  obtain ⟨s', hs'⟩ := replayAction_ok hreach 6 7 (.execute 3) hstarted
  exact ⟨s, s', hs, hstarred, hown, hcur, hs'⟩

end YottaTest.Barrage
