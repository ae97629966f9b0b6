/-
  File:      YottaTest/Lib/Footprint.lean
  Subject:   Programs of updates to a keyed table, by what they read and what they write.

  An update is known by its footprint: the keys it writes, and the keys its result depends on.
  For a list of updates this gives, without looking at what any of them computes:

  * `run_frame` -- a key that no update writes keeps its value;
  * `run_last` -- a key's value is what the last update that writes it leaves;
  * `Covered`, `run_agree` -- two runs that agree on what is read before it is written agree, at
    the end, also on everything written: redoing a program over what is left of an interrupted
    run of it is harmless;
  * `run_slice` -- on a set of keys, a program does what its updates to that set do;
  * `run_const` -- a key that all its writers leave alike.
-/
import YottaTest.Lib.Table

namespace YottaTest.Lib

variable {K V : Type} [DecidableEq K]

/-- Two tables hold the same under the keys of `P`. -/
def Agree (P : K → Prop) (d d' : Table K V) : Prop := ∀ k, P k → d.get k = d'.get k

theorem Agree.refl (P : K → Prop) (d : Table K V) : Agree P d d := fun _ _ => rfl

theorem Agree.symm {P : K → Prop} {d d' : Table K V} (h : Agree P d d') : Agree P d' d :=
  fun k hk => (h k hk).symm

theorem Agree.trans {P : K → Prop} {d d' d'' : Table K V} (h : Agree P d d')
    (h' : Agree P d' d'') : Agree P d d'' := fun k hk => (h k hk).trans (h' k hk)

theorem Agree.mono {P Q : K → Prop} {d d' : Table K V} (hPQ : ∀ k, Q k → P k) (h : Agree P d d') :
    Agree Q d d' := fun k hk => h k (hPQ k hk)

/-- What an update of a table reads and writes. -/
structure Footprint (f : Table K V → Table K V) (reads writes : K → Prop) : Prop where
  frame : ∀ d k, ¬ writes k → (f d).get k = d.get k
  depends : ∀ d d', Agree reads d d' → Agree writes (f d) (f d')

/-- After an update two tables also agree on what it writes. -/
theorem Footprint.agree {f : Table K V → Table K V} {reads writes P : K → Prop}
    (hf : Footprint f reads writes) (hP : ∀ k, reads k → P k) {d d' : Table K V}
    (h : Agree P d d') : Agree (fun k => P k ∨ writes k) (f d) (f d') := by
  intro k hk
  by_cases hw : writes k
  · exact hf.depends d d' (h.mono hP) k hw
  · rw [hf.frame d k hw, hf.frame d' k hw]
    exact h k (hk.resolve_right hw)

section Programs

variable {C : Type} (exec : C → Table K V → Table K V)

/-- A list of updates, one after the other. -/
def run (cs : List C) (d : Table K V) : Table K V := cs.foldl (fun d c => exec c d) d

omit [DecidableEq K] in
@[simp] theorem run_nil (d : Table K V) : run exec [] d = d := rfl

omit [DecidableEq K] in
@[simp] theorem run_cons (c : C) (cs : List C) (d : Table K V) :
    run exec (c :: cs) d = run exec cs (exec c d) := rfl

omit [DecidableEq K] in
theorem run_append (as bs : List C) (d : Table K V) :
    run exec (as ++ bs) d = run exec bs (run exec as d) :=
  List.foldl_append

variable {exec} {reads writes : C → K → Prop}
  (hfp : ∀ c, Footprint (exec c) (reads c) (writes c))
include hfp

/-- **A key that no update writes keeps its value.** -/
theorem run_frame {k : K} : ∀ {cs : List C}, (∀ c ∈ cs, ¬ writes c k) → ∀ d : Table K V,
    (run exec cs d).get k = d.get k
  | [], _, _ => rfl
  | c :: cs, h, d => by
      rw [run_cons, run_frame (fun c' hc' => h c' (List.mem_cons_of_mem _ hc')),
        (hfp c).frame d k (h c List.mem_cons_self)]

/-- **The last update that writes a key decides its value.** -/
theorem run_last {k : K} (as : List C) (c : C) {bs : List C} (h : ∀ b ∈ bs, ¬ writes b k)
    (d : Table K V) :
    (run exec (as ++ c :: bs) d).get k = (exec c (run exec as d)).get k := by
  rw [run_append, run_cons, run_frame hfp h]

omit hfp in
/-- Every update only reads keys of `P` and keys written before it. -/
def Covered (reads writes : C → K → Prop) : (K → Prop) → List C → Prop
  | _, [] => True
  | P, c :: cs => (∀ k, reads c k → P k) ∧ Covered reads writes (fun k => P k ∨ writes c k) cs

omit [DecidableEq K] hfp in
theorem Covered.mono {reads writes : C → K → Prop} :
    ∀ {cs : List C} {P Q : K → Prop}, (∀ k, P k → Q k) → Covered reads writes P cs →
      Covered reads writes Q cs
  | [], _, _, _, _ => trivial
  | _ :: _, _, _, h, hc =>
      ⟨fun k hk => h k (hc.1 k hk), hc.2.mono fun k hk => hk.imp (h k) id⟩

omit [DecidableEq K] hfp in
/-- Covered in parts: the second part may read what the first has written. -/
theorem Covered.append {reads writes : C → K → Prop} : ∀ {as bs : List C} {P : K → Prop},
    Covered reads writes P as → Covered reads writes (fun k => P k ∨ ∃ a ∈ as, writes a k) bs →
      Covered reads writes P (as ++ bs)
  | [], _, _, _, hb => hb.mono fun k hk => hk.resolve_right fun ⟨_, ha, _⟩ => List.not_mem_nil ha
  | a :: as, bs, P, ha, hb => by
      refine ⟨ha.1, Covered.append ha.2 (hb.mono fun k hk => ?_)⟩
      rcases hk with hk | ⟨b, hm, hw⟩
      · exact Or.inl (Or.inl hk)
      · rcases List.mem_cons.1 hm with rfl | hm
        · exact Or.inl (Or.inr hw)
        · exact Or.inr ⟨b, hm, hw⟩

omit [DecidableEq K] hfp in
/-- Updates that read nothing are covered. -/
theorem covered_of_not_reads {reads writes : C → K → Prop} : ∀ {cs : List C} (P : K → Prop),
    (∀ c ∈ cs, ∀ k, ¬ reads c k) → Covered reads writes P cs
  | [], _, _ => trivial
  | c :: _, _, h => ⟨fun k hk => absurd hk (h c List.mem_cons_self k),
      covered_of_not_reads _ fun b hb => h b (List.mem_cons_of_mem _ hb)⟩

omit [DecidableEq K] hfp in
/-- Updates that only read keys of `P` are covered. -/
theorem covered_of_reads {reads writes : C → K → Prop} : ∀ {cs : List C} {P : K → Prop},
    (∀ c ∈ cs, ∀ k, reads c k → P k) → Covered reads writes P cs
  | [], _, _ => trivial
  | c :: _, _, h => ⟨h c List.mem_cons_self,
      covered_of_reads fun b hb k hk => Or.inl (h b (List.mem_cons_of_mem _ hb) k hk)⟩

/-- **Two runs of a program agree on all it writes**, if they agree on what it reads before it
    writes it. -/
theorem run_agree : ∀ {cs : List C} {P : K → Prop}, Covered reads writes P cs →
    ∀ {d d' : Table K V}, Agree P d d' →
      Agree (fun k => P k ∨ ∃ c ∈ cs, writes c k) (run exec cs d) (run exec cs d')
  | [], _, _, _, _, h => h.mono fun k hk => hk.resolve_right fun hc => by
      obtain ⟨c, hc, -⟩ := hc
      exact List.not_mem_nil hc
  | c :: cs, _, hc, d, d', h => by
      refine (run_agree hc.2 ((hfp c).agree hc.1 h)).mono fun k hk => ?_
      rcases hk with hk | ⟨b, hb, hw⟩
      · exact Or.inl (Or.inl hk)
      · rcases List.mem_cons.1 hb with rfl | hb
        · exact Or.inl (Or.inr hw)
        · exact Or.inr ⟨b, hb, hw⟩

/-- **What a program does to a set of keys is done by the updates of that set**: leaving out
    updates that write nothing there changes nothing there. -/
theorem run_slice {q : C → Bool} {Q : K → Prop} : ∀ {cs : List C},
    (∀ c ∈ cs, q c = false → ∀ k, writes c k → ¬ Q k) →
    (∀ c ∈ cs, q c = true → ∀ k, reads c k → Q k) →
    ∀ {d d' : Table K V}, Agree Q d d' → Agree Q (run exec cs d) (run exec (cs.filter q) d')
  | [], _, _, _, _, h => h
  | c :: cs, hout, hin, d, d', h => by
      have hout' : ∀ b ∈ cs, q b = false → ∀ k, writes b k → ¬ Q k :=
        fun b hb => hout b (List.mem_cons_of_mem _ hb)
      have hin' : ∀ b ∈ cs, q b = true → ∀ k, reads b k → Q k :=
        fun b hb => hin b (List.mem_cons_of_mem _ hb)
      cases hq : q c with
      | false =>
          rw [run_cons, List.filter_cons_of_neg (by rw [hq]; decide)]
          refine run_slice hout' hin' fun k hk => ?_
          rw [(hfp c).frame d k fun hw => hout c List.mem_cons_self hq k hw hk]
          exact h k hk
      | true =>
          rw [run_cons, List.filter_cons_of_pos hq, run_cons]
          exact run_slice hout' hin' (((hfp c).agree (hin c List.mem_cons_self hq) h).mono fun k hk => Or.inl hk)

/-- If every update that writes a key leaves the same there, and one does, the key holds that. -/
theorem run_const {k : K} {x : Option V} : ∀ {cs : List C},
    (∀ c ∈ cs, writes c k → ∀ d, (exec c d).get k = x) → (∃ c ∈ cs, writes c k) →
    ∀ d : Table K V, (run exec cs d).get k = x
  | [], _, h, _ => absurd h fun ⟨_, hc, _⟩ => List.not_mem_nil hc
  | c :: cs, hx, h, d => by
      by_cases hrest : ∃ b ∈ cs, writes b k
      · exact run_const (fun b hb => hx b (List.mem_cons_of_mem _ hb)) hrest _
      · have hno : ∀ b ∈ cs, ¬ writes b k := fun b hb hw => hrest ⟨b, hb, hw⟩
        obtain ⟨b, hb, hw⟩ := h
        rcases List.mem_cons.1 hb with rfl | hb
        · rw [run_cons, run_frame hfp hno]
          exact hx b List.mem_cons_self hw d
        · exact absurd hw (hno b hb)

end Programs

end YottaTest.Lib
