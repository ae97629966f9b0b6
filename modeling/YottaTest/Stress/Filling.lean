/-
  File:      YottaTest/Stress/Filling.lean
  Subject:   What the filling routine does to its nodes while others run.

  * `places`, `mem_places_root`, `nodup_places_root` -- the nodes it comes to: each index with each
    global, once;
  * `holds_fillingOf` -- the rule for the loops;
  * `Cfg.Rely` -- what the others may do to the nodes of a job in an iteration;
  * `holds_kill`, `holds_set`, `holds_ver` -- the three acts.
-/
import YottaTest.Stress.Randfill

namespace YottaTest.Stress

open Function YottaTest.Lib

/-! ## 1. The nodes the routine comes to -/

/-- Each index with each global, in the order of the loops. -/
def places (globs : List Glob) (prime root : Nat) : Nat → Nat → List (Nat × Glob)
  | 0, _ => []
  | turns + 1, ndx =>
      globs.map (fun g => (ndx, g)) ++ places globs prime root turns (ndx * root % prime)

theorem mem_places {globs : List Glob} {prime root turns ndx n : Nat} {g : Glob} :
    (n, g) ∈ places globs prime root turns ndx ↔
      g ∈ globs ∧ ∃ i < turns, n = (mulMod prime root)^[i] ndx := by
  induction turns generalizing ndx with
  | zero => simp [places]
  | succ turns ih =>
      rw [places, List.mem_append, ih]
      constructor
      · rintro (h | ⟨hg, i, hi, rfl⟩)
        · obtain ⟨g', hg, heq⟩ := List.mem_map.mp h
          obtain ⟨rfl, rfl⟩ := Prod.mk.inj heq
          exact ⟨hg, 0, Nat.succ_pos _, rfl⟩
        · exact ⟨hg, i + 1, Nat.succ_lt_succ hi, rfl⟩
      · rintro ⟨hg, i, hi, rfl⟩
        cases i with
        | zero => exact Or.inl (List.mem_map.mpr ⟨g, hg, rfl⟩)
        | succ i => exact Or.inr ⟨hg, i, Nat.lt_of_succ_lt_succ hi, rfl⟩

theorem nodup_places {globs : List Glob} (hglobs : globs.Nodup) {prime root turns ndx : Nat}
    (hinj : ∀ i < turns, ∀ j < turns,
      (mulMod prime root)^[i] ndx = (mulMod prime root)^[j] ndx → i = j) :
    (places globs prime root turns ndx).Nodup := by
  induction turns generalizing ndx with
  | zero => exact List.nodup_nil
  | succ turns ih =>
      rw [places, List.nodup_append]
      refine ⟨hglobs.map fun g g' h => (Prod.mk.inj h).2, ih fun i hi j hj h => ?_, ?_⟩
      · exact Nat.succ.inj (hinj (i + 1) (by omega) (j + 1) (by omega) h)
      · rintro ⟨n, g⟩ hn ⟨n', g'⟩ hn' heq
        obtain ⟨g'', _, heq'⟩ := List.mem_map.mp hn
        obtain ⟨_, i, hi, hni⟩ := mem_places.mp hn'
        have hzero : (mulMod prime root)^[i + 1] ndx = (mulMod prime root)^[0] ndx := by
          show (mulMod prime root)^[i] (ndx * root % prime) = ndx
          rw [← hni, ← (Prod.mk.inj heq).1, ← (Prod.mk.inj heq').1]
        exact absurd (hinj (i + 1) (by omega) 0 (by omega) hzero) (Nat.succ_ne_zero i)

section Root

variable {globs : List Glob} {prime root : Nat} (h : IsGenerator prime root)
include h

theorem iterate_root (i : Nat) : (mulMod prime root)^[i] 1 = root ^ i % prime := by
  rw [iterate_mulMod root h.prime.one_lt, Nat.one_mul]

/-- A root comes to every index. -/
theorem mem_places_root {n : Nat} {g : Glob} :
    (n, g) ∈ places globs prime root (prime - 1) 1 ↔ g ∈ globs ∧ 0 < n ∧ n < prime := by
  rw [mem_places]
  refine and_congr_right fun _ => ⟨?_, fun hn => ?_⟩
  · rintro ⟨i, _, rfl⟩
    rw [iterate_root h]
    exact ⟨h.pow_pos i, h.pow_lt i⟩
  · obtain ⟨i, hi, hn⟩ := h.exists_pow hn.1 hn.2
    exact ⟨i, hi, by rw [iterate_root h, hn]⟩

theorem nodup_places_root (hglobs : globs.Nodup) :
    (places globs prime root (prime - 1) 1).Nodup := by
  refine nodup_places hglobs fun i hi j hj heq => ?_
  rw [iterate_root h, iterate_root h] at heq
  exact h.pow_inj hi hj heq

end Root

/-! ## 2. The rule for the loops -/

section Loops

variable {rely : (Node → Option Nat) → (Node → Option Nat) → Prop} {may : Node → Prop}
  {all : List (Nat × Glob)} {J : List (Nat × Glob) → (Node → Option Nat) → Prop}
  {op : Nat → Glob → Nat → Prog Node Nat Report Nat}

/-- What is done at one place takes the assertion one place further, without an error. -/
structure Advances (rely : (Node → Option Nat) → (Node → Option Nat) → Prop) (may : Node → Prop)
    (all : List (Nat × Glob)) (J : List (Nat × Glob) → (Node → Option Nat) → Prop)
    (op : Nat → Glob → Nat → Prog Node Nat Report Nat) : Prop where
  isRely : IsRely rely
  stable : ∀ {done s s'}, J done s → rely s s' → J done s'
  place : ∀ {done ndx g rest s}, all = done ++ (ndx, g) :: rest → J done s →
    Holds rely may (op ndx g 0) (fun err t => err = 0 ∧ J (done ++ [(ndx, g)]) t) s

theorem Advances.forGlobs (h : Advances rely may all J op) {ndx : Nat} {globs : List Glob}
    {done rest : List (Nat × Glob)} {s : Node → Option Nat}
    (hall : all = done ++ (globs.map (fun g => (ndx, g)) ++ rest)) (hs : J done s) :
    Holds rely may (forGlobs (op ndx) globs 0)
      (fun err t => err = 0 ∧ J (done ++ globs.map (fun g => (ndx, g))) t) s := by
  induction globs generalizing done s with
  | nil =>
      rw [List.map_nil, List.append_nil]
      exact fun t ht => ⟨rfl, h.stable hs ht⟩
  | cons g globs ih =>
      refine Holds.bind h.isRely ((h.place hall hs).mono ?_)
      rintro _ t ⟨rfl, ht⟩
      have hall' : all = done ++ [(ndx, g)] ++ (globs.map (fun g => (ndx, g)) ++ rest) := by
        simpa using hall
      simpa using ih hall' ht

theorem Advances.forIndex (h : Advances rely may all J op) {globs : List Glob}
    {prime root turns ndx : Nat} {done : List (Nat × Glob)} {s : Node → Option Nat}
    (hall : all = done ++ places globs prime root turns ndx) (hs : J done s) :
    Holds rely may (forIndex prime root (fun ndx => Stress.forGlobs (op ndx) globs) turns ndx 0)
      (fun err t => err = 0 ∧ J all t) s := by
  induction turns generalizing ndx done s with
  | zero =>
      rw [places, List.append_nil] at hall
      exact fun t ht => ⟨rfl, hall ▸ h.stable hs ht⟩
  | succ turns ih =>
      refine Holds.bind h.isRely ((h.forGlobs hall hs).mono ?_)
      rintro _ t ⟨rfl, ht⟩
      exact ih (by rw [List.append_assoc]; exact hall) ht

/-- The rule for the routine. -/
theorem Advances.fillingOf {globs : List Glob} {c : Cfg} {jobno iter root : Nat} {act : Act}
    {s : Node → Option Nat}
    (h : Advances rely may (places globs c.table.prime root (c.table.prime - 1) 1) J
      (act.on c jobno iter)) (hs : J [] s) :
    Holds rely may (fillingOf globs c jobno act root iter)
      (fun _ t => J (places globs c.table.prime root (c.table.prime - 1) 1) t) s := by
  refine Holds.bind h.isRely ((h.forIndex (List.nil_append _).symm hs).mono ?_)
  rintro _ t ⟨rfl, ht⟩
  exact fun t' ht' => h.stable ht ht'

/-- A place where one node is written. -/
theorem holds_place {done : List (Nat × Glob)} {x : Nat × Glob} {n : Node} {v : Option Nat}
    {s : Node → Option Nat} (hstable : ∀ {done s s'}, J done s → rely s s' → J done s')
    (hn : may n) (hs : J done s) (hw : ∀ t, J done t → J (done ++ [x]) (update t n v)) :
    Holds rely may (.write n v (.ret 0) : Prog Node Nat Report Nat)
      (fun err t => err = 0 ∧ J (done ++ [x]) t) s :=
  ⟨hn, fun t ht _ ht' => ⟨rfl, hstable (hw t (hstable hs ht)) ht'⟩⟩

end Loops

/-! ## 3. The three acts -/

/-- What the others may do to the nodes of a job in an iteration: nothing to its own ones, and the
    other ones they may make right. -/
structure Cfg.Rely (c : Cfg) (jobno iter : Nat)
    (rely : (Node → Option Nat) → (Node → Option Nat) → Prop) : Prop extends IsRely rely where
  own : ∀ {s s' ndx g}, rely s s' → g.own = true →
    s' (c.node jobno iter ndx g) = s (c.node jobno iter ndx g)
  correct : ∀ {s s' ndx g}, rely s s' →
    s (c.node jobno iter ndx g) = some (c.correct ndx g) →
      s' (c.node jobno iter ndx g) = some (c.correct ndx g)

/-- The nodes of a job in an iteration. -/
def Cfg.May (c : Cfg) (jobno iter : Nat) (n : Node) : Prop :=
  ∃ ndx g, 0 < ndx ∧ ndx < c.table.prime ∧ n = c.node jobno iter ndx g

/-- All nodes of a job in an iteration are as the job is to find them. -/
def Cfg.Filled (c : Cfg) (jobno iter : Nat) (s : Node → Option Nat) : Prop :=
  ∀ ndx g, 0 < ndx → ndx < c.table.prime →
    s (c.node jobno iter ndx g) = some (c.correct ndx g)

section Acts

variable {c : Cfg} {jobno iter root : Nat}
  {rely : (Node → Option Nat) → (Node → Option Nat) → Prop} {impl : Impl}
  {s : Node → Option Nat}

theorem node_inj {ndx ndx' : Nat} {g g' : Glob}
    (h : c.node jobno iter ndx g = c.node jobno iter ndx' g') : (ndx, g) = (ndx', g') := by
  have := congrArg Node.ndx h
  have := congrArg Node.glob h
  simp_all [Cfg.node]

/-- The places of the routine. -/
abbrev Impl.places (impl : Impl) (c : Cfg) (root : Nat) : List (Nat × Glob) :=
  Stress.places impl.globs c.table.prime root (c.table.prime - 1) 1

theorem mem_impl_places (hroot : IsGenerator c.table.prime root) {ndx : Nat} {g : Glob} :
    (ndx, g) ∈ impl.places c root ↔ 0 < ndx ∧ ndx < c.table.prime := by
  rw [mem_places_root hroot]
  exact and_iff_right (impl.mem_globs g)

theorem may_of_split (hroot : IsGenerator c.table.prime root) {done rest : List (Nat × Glob)}
    {ndx : Nat} {g : Glob} (h : impl.places c root = done ++ (ndx, g) :: rest) :
    c.May jobno iter (c.node jobno iter ndx g) := by
  have hmem : (ndx, g) ∈ impl.places c root := by
    rw [h]
    simp
  have hndx := (mem_impl_places hroot).mp hmem
  exact ⟨ndx, g, hndx.1, hndx.2, rfl⟩

/-- After the kill none of the job's own nodes is left. -/
theorem holds_kill (hr : c.Rely jobno iter rely) (hroot : IsGenerator c.table.prime root) :
    Holds rely (c.May jobno iter) (impl.filling c jobno .kill root iter)
      (fun _ t => ∀ ndx g, 0 < ndx → ndx < c.table.prime → g.own = true →
        t (c.node jobno iter ndx g) = none) s := by
  let J (done : List (Nat × Glob)) (t : Node → Option Nat) : Prop :=
    ∀ ndx g, (ndx, g) ∈ done → g.own = true → t (c.node jobno iter ndx g) = none
  have hstable {done : List (Nat × Glob)} {t t' : Node → Option Nat} (ht : J done t)
      (htt' : rely t t') : J done t' := fun ndx g hmem hg => by
    rw [hr.own htt' hg]
    exact ht ndx g hmem hg
  have hadv : Advances rely (c.May jobno iter) (impl.places c root) J (Act.kill.on c jobno iter) :=
    ⟨hr.toIsRely, hstable, fun {done ndx g rest t} hall ht =>
      holds_place hstable (may_of_split hroot hall) ht fun t' ht' ndx' g' hmem hg' => by
        by_cases hx : c.node jobno iter ndx' g' = c.node jobno iter ndx g
        · rw [hx, update_self]
        · rw [update_of_ne hx]
          refine ht' ndx' g' ((List.mem_append.mp hmem).resolve_right fun h => hx ?_) hg'
          obtain ⟨rfl, rfl⟩ := Prod.mk.inj (List.mem_singleton.mp h)
          rfl⟩
  rw [impl.filling_eq]
  refine Holds.mono (hadv.fillingOf fun _ _ h => by cases h) fun _ t ht ndx g hpos hlt hg => ?_
  exact ht ndx g ((mem_impl_places hroot).mpr ⟨hpos, hlt⟩) hg

/-- The set makes every node right, if none of the job's own nodes was left. -/
theorem holds_set (hr : c.Rely jobno iter rely) (hroot : IsGenerator c.table.prime root)
    (hs : ∀ ndx g, 0 < ndx → ndx < c.table.prime → g.own = true →
      s (c.node jobno iter ndx g) = none) :
    Holds rely (c.May jobno iter) (impl.filling c jobno .set root iter)
      (fun _ t => c.Filled jobno iter t) s := by
  let all := impl.places c root
  -- the nodes done are right, and of the own ones to come none is there
  let J (done : List (Nat × Glob)) (t : Node → Option Nat) : Prop := ∀ ndx g, (ndx, g) ∈ all →
    ((ndx, g) ∈ done → t (c.node jobno iter ndx g) = some (c.correct ndx g)) ∧
      ((ndx, g) ∉ done → g.own = true → t (c.node jobno iter ndx g) = none)
  have hstable {done : List (Nat × Glob)} {t t' : Node → Option Nat} (ht : J done t)
      (htt' : rely t t') : J done t' := fun ndx g hmem =>
    ⟨fun hdone => hr.correct htt' ((ht ndx g hmem).1 hdone), fun hdone hg => by
      rw [hr.own htt' hg]
      exact (ht ndx g hmem).2 hdone hg⟩
  have hwrite {done : List (Nat × Glob)} {ndx : Nat} {g : Glob} {t : Node → Option Nat}
      (ht : J done t) : J (done ++ [(ndx, g)])
        (update t (c.node jobno iter ndx g) (some (c.correct ndx g))) := fun ndx' g' hmem => by
    by_cases hx : (ndx', g') = (ndx, g)
    · obtain ⟨rfl, rfl⟩ := Prod.mk.inj hx
      exact ⟨fun _ => update_self .., fun hno => absurd (by simp) hno⟩
    · rw [update_of_ne fun h => hx (node_inj h)]
      have := ht ndx' g' hmem
      simpa [hx] using this
  have hadv : Advances rely (c.May jobno iter) all J (Act.set.on c jobno iter) := by
    refine ⟨hr.toIsRely, hstable, fun {done ndx g rest t} hall ht => ?_⟩
    have hmay : c.May jobno iter (c.node jobno iter ndx g) := may_of_split hroot hall
    have hmem : (ndx, g) ∈ all := by
      rw [hall]
      simp
    have hnew : (ndx, g) ∉ done := fun hdone => by
      have hnodup : all.Nodup := nodup_places_root hroot impl.nodup_globs
      rw [hall, List.nodup_append] at hnodup
      exact hnodup.2.2 _ hdone _ List.mem_cons_self rfl
    cases hg : g.own with
    | false =>
        have hon : Act.set.on c jobno iter ndx g 0 =
            .write (c.node jobno iter ndx g) (some (c.correct ndx g)) (.ret 0) := by
          simp [Act.on, hg, Cfg.correct]
          rfl
        rw [hon]
        exact holds_place hstable hmay ht fun t' => hwrite
    | true =>
        have hon : Act.set.on c jobno iter ndx g 0 = .read (c.node jobno iter ndx g) fun v =>
            .write (c.node jobno iter ndx g) (some (v.getD 0 + c.table.prime)) (.ret 0) := by
          simp [Act.on, hg]
          rfl
        rw [hon]
        intro t' htt'
        have ht' := hstable ht htt'
        have hcorrect : c.correct ndx g = 0 + c.table.prime := by simp [Cfg.correct, hg]
        rw [(ht' ndx g hmem).2 hnew hg]
        dsimp only [Option.getD_none]
        rw [← hcorrect]
        exact holds_place hstable hmay ht' fun t' => hwrite
  have hstart : J [] s := fun ndx g hmem => by
    have hndx := (mem_impl_places hroot).mp hmem
    exact ⟨fun h => absurd h List.not_mem_nil, fun _ hg => hs ndx g hndx.1 hndx.2 hg⟩
  rw [impl.filling_eq]
  refine Holds.mono (hadv.fillingOf hstart) fun _ t ht ndx g hpos hlt => ?_
  have hmem : (ndx, g) ∈ all := (mem_impl_places hroot).mpr ⟨hpos, hlt⟩
  exact (ht ndx g hmem).1 hmem

theorem exam_eq (pos : Node) (vcorr err : Nat) : exam pos vcorr err =
    .read pos fun v => match v with
      | none => .stop (.gvundef pos)
      | some vcomp =>
          if vcorr = vcomp then .ret err else .tell (.exam pos vcorr vcomp) (.ret (err + 1)) := rfl

/-- The verification finds nothing, and changes nothing. -/
theorem holds_ver {may : Node → Prop} {P : (Node → Option Nat) → Prop}
    (hP : ∀ {t t'}, P t → rely t t' → P t') (hr : c.Rely jobno iter rely)
    (hroot : IsGenerator c.table.prime root) (hs : c.Filled jobno iter s) (hsP : P s) :
    Holds rely may (impl.filling c jobno .ver root iter)
      (fun _ t => c.Filled jobno iter t ∧ P t) s := by
  have hstable {t t' : Node → Option Nat} (ht : c.Filled jobno iter t ∧ P t) (htt' : rely t t') :
      c.Filled jobno iter t' ∧ P t' :=
    ⟨fun ndx g hpos hlt => hr.correct htt' (ht.1 ndx g hpos hlt), hP ht.2 htt'⟩
  have hadv : Advances rely may (impl.places c root)
      (fun _ t => c.Filled jobno iter t ∧ P t) (Act.ver.on c jobno iter) := by
    refine ⟨hr.toIsRely, hstable, fun {done ndx g rest t} hall ht => ?_⟩
    have hmem : (ndx, g) ∈ impl.places c root := by
      rw [hall]
      simp
    have hndx := (mem_impl_places hroot).mp hmem
    show Holds rely _ (exam _ _ 0) _ t
    rw [exam_eq]
    intro t' htt'
    have ht' := hstable ht htt'
    rw [ht'.1 ndx g hndx.1 hndx.2]
    dsimp only
    rw [if_pos rfl]
    exact fun t'' ht'' => ⟨rfl, hstable ht' ht''⟩
  rw [impl.filling_eq]
  exact hadv.fillingOf ⟨hs, hsP⟩

end Acts

end YottaTest.Stress
