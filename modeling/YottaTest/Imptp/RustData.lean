/-
  File:      YottaTest/Imptp/RustData.lean
  Subject:   The database that the worker in Rust leaves, compared with that of the worker in M.

  The two differ in what they note about restarts, and in stage 2. Without triggers stage 8 kills all that
  stage 2 leaves out; with triggers `^antp` has already set what is set once more.

  * `Checked` -- the nodes that are no notes about restarts; `Same` -- states that agree on these;
  * `plain_turn`, `trigger_turn` -- after an iteration the states agree, without triggers and with them;
  * `rust_turns_agree` -- **so they do after every run.**
-/
import YottaTest.Imptp.Progress
import YottaTest.Imptp.RustWorker
import YottaTest.Imptp.Trigger

namespace YottaTest.Imptp.RustWorker

open YottaTest.Lib YottaTest.M

/-! ## 1. Nodes that are checked -/

/-- `^zdummy` and `^dummynoop` are notes that no one reads. -/
def Checked (n : GNode) : Prop := n.gvn ≠ .zdummy ∧ n.gvn ≠ .dummynoop

instance (n : GNode) : Decidable (Checked n) := inferInstanceAs (Decidable (_ ∧ _))

/-- The same in all nodes that are checked. -/
structure Same (s t : TrigState) : Prop where
  db : Agree Checked s.db t.db
  ztwormhole : s.ztwormhole = t.ztwormhole

/-- The globals that an iteration reads. -/
def isRead : Gvn → Bool
  | .fntp | .aspan | .bspan | .espan | .cntloop | .cntseq | .subpiece => true
  | _ => false

/-- A command that reads no others. -/
def ReadsOnly (c : Cmd) : Prop := ∀ n ∈ c.sources, isRead n.gvn = true

theorem checked_of_isRead {n : GNode} (h : isRead n.gvn = true) : Checked n := by
  constructor
  · intro hn
    rw [hn] at h
    cases h
  · intro hn
    rw [hn] at h
    cases h

theorem checked_of_gvn {n : GNode} {g : Gvn} (h : n.gvn = g) (hg : g ≠ .zdummy ∧ g ≠ .dummynoop) :
    Checked n := by
  rw [Checked, h]
  exact hg

/-- A note. -/
def IsNote (c : Cmd) : Prop := ∃ n v, c = .set n (.lit v) ∧ ¬ Checked n

section Lists

variable {cfg : Config} {jobno : Nat} {t : Turn} {ch : Chance}

theorem noop_notes (loop : Nat) : ∀ c ∈ noop jobno loop ch, IsNote c := by
  intro c hc
  obtain ⟨t, v, rfl⟩ := noop_gvn hc
  exact ⟨_, _, rfl, fun h => h.2 rfl⟩

theorem zdummy_note (n : Nat) : IsNote (setNum (numNode .zdummy n) jobno) :=
  ⟨_, _, rfl, fun h => h.1 rfl⟩

theorem restarted_notes : ∀ c ∈ restarted jobno t.loop t.ch, IsNote c := by
  intro c hc
  rcases List.mem_append.1 hc with hc | hc
  · split at hc
    · exact noop_notes _ c hc
    · cases hc
  · split at hc
    · obtain rfl := List.mem_singleton.1 hc
      exact zdummy_note _
    · cases hc

theorem rustRestarted_notes : ∀ c ∈ rustRestarted jobno t, IsNote c := by
  intro c hc
  unfold rustRestarted at hc
  split at hc
  · split at hc
    · exact noop_notes _ c hc
    · cases hc
  · split at hc
    · obtain rfl := List.mem_singleton.1 hc
      exact zdummy_note _
    · cases hc

theorem IsNote.readsOnly {c : Cmd} (h : IsNote c) : ReadsOnly c := by
  obtain ⟨n, v, rfl, -⟩ := h
  exact fun _ hm => absurd hm List.not_mem_nil

end Lists

/-! ## 2. The commands of an iteration -/

section ReadsOnly

variable {n : GNode}

@[simp] theorem readsOnly_setStr (v : MStr) : ReadsOnly (setStr n v) := fun _ hm => absurd hm List.not_mem_nil

@[simp] theorem readsOnly_setNum (v : Nat) : ReadsOnly (setNum n v) := fun _ hm => absurd hm List.not_mem_nil

@[simp] theorem readsOnly_lit (v : Val) : ReadsOnly (.set n (.lit v)) := fun _ hm => absurd hm List.not_mem_nil

@[simp] theorem readsOnly_kill : ReadsOnly (.kill n) := fun _ hm => absurd hm List.not_mem_nil

@[simp] theorem readsOnly_zkill : ReadsOnly (.zkill n) := fun _ hm => absurd hm List.not_mem_nil

@[simp] theorem readsOnly_ztrigger : ReadsOnly (.ztrigger n) := fun _ hm => absurd hm List.not_mem_nil

@[simp] theorem readsOnly_ztwormhole (v : Val) : ReadsOnly (.ztwormhole v) :=
  fun _ hm => absurd hm List.not_mem_nil

@[simp] theorem readsOnly_dztrig (k : Nat) : ReadsOnly (.dztrig k) := fun _ hm => absurd hm List.not_mem_nil

@[simp] theorem readsOnly_ztriggerItem (k : Nat) : ReadsOnly (.ztriggerItem k) :=
  fun _ hm => absurd hm List.not_mem_nil

theorem readsOnly_setPiece {k : Nat} {m : GNode} (hn : isRead n.gvn = true) (hm : isRead m.gvn = true) :
    ReadsOnly (.setPiece n k m) := by
  intro a ha
  rcases List.mem_cons.1 ha with rfl | ha
  · exact hn
  · exact List.mem_singleton.1 ha ▸ hm

theorem readsOnly_incr {k : Nat} (hn : isRead n.gvn = true) : ReadsOnly (.incr n k) :=
  fun _ ha => List.mem_singleton.1 ha ▸ hn

end ReadsOnly

section TurnCmds

variable (cfg : Config) (jobno : Nat) (t : Turn)

theorem noop_readsOnly : ∀ c ∈ noop jobno t.loop t.ch, ReadsOnly c := fun c hc => (noop_notes _ c hc).readsOnly

theorem doDztrig_readsOnly (k : Nat) : ∀ c ∈ cfg.doDztrig k, ReadsOnly c := by
  simp only [Config.doDztrig, forall_mem_ite, List.forall_mem_cons, readsOnly_dztrig, List.not_mem_nil,
    IsEmpty.forall_iff, implies_true, and_true]

theorem noTrigger_readsOnly {cs : List Cmd} (h : ∀ c ∈ cs, ReadsOnly c) :
    ∀ c ∈ cfg.noTrigger cs, ReadsOnly c := by
  simp only [Config.noTrigger, forall_mem_ite, List.not_mem_nil, IsEmpty.forall_iff, implies_true, and_true]
  exact fun _ => h

theorem stage1Rest_readsOnly : ∀ c ∈ stage1Rest cfg jobno t.loop t.I, ReadsOnly c := by
  simp only [stage1Rest, Config.noTrigger, ztwormstr, ztrcmd, List.forall_mem_append, List.forall_mem_cons,
    forall_mem_ite, List.not_mem_nil, IsEmpty.forall_iff, implies_true, and_true, readsOnly_setStr,
    readsOnly_setNum, readsOnly_ztrigger, readsOnly_ztwormhole]

theorem stage3_readsOnly : ∀ c ∈ stage3 cfg t.loop t.I, ReadsOnly c := by
  have hfntp : ReadsOnly (.set (strNode .fntp (cfg.subs t.I)) (.dropSuffix (strNode .fntp (cfg.subs t.I)))) :=
    fun m hm => List.mem_singleton.1 hm ▸ rfl
  simp only [stage3, Config.noTrigger, List.forall_mem_append, List.forall_mem_cons, forall_mem_ite,
    List.not_mem_nil, IsEmpty.forall_iff, implies_true, and_true, readsOnly_setStr, hfntp]
  exact doDztrig_readsOnly cfg 2

theorem stage4_readsOnly (j : Nat) : ∀ c ∈ stage4 cfg t.loop t.I j, ReadsOnly c := by
  simp only [stage4, List.forall_mem_append, List.forall_mem_cons, readsOnly_setStr, List.not_mem_nil,
    IsEmpty.forall_iff, implies_true, and_true, true_and]
  refine ⟨noTrigger_readsOnly cfg (List.forall_mem_map.2 fun g _ => ?_), doDztrig_readsOnly cfg 1⟩
  exact readsOnly_setStr _

theorem stage5_readsOnly : ∀ c ∈ stage5 cfg jobno t.loop t.I t.ch, ReadsOnly c := by
  simp only [stage5, List.forall_mem_append, List.forall_mem_cons, forall_mem_ite, readsOnly_kill,
    List.not_mem_nil, IsEmpty.forall_iff, implies_true, and_true]
  refine ⟨⟨⟨⟨doDztrig_readsOnly cfg 2, fun _ _ => noop_readsOnly jobno t⟩, ?_⟩, doDztrig_readsOnly cfg 1⟩,
    doDztrig_readsOnly cfg 2⟩
  exact noTrigger_readsOnly cfg (List.forall_mem_map.2 fun g _ => readsOnly_kill)

/-- Stages 7, 9 and 10 read what is `isRead`. -/
theorem stage7_readsOnly : ∀ c ∈ stage7 cfg t.loop t.I, ReadsOnly c := by
  have haspan : ∀ m ∈ [numNode .aspan t.I], isRead m.gvn = true := fun m hm => List.mem_singleton.1 hm ▸ rfl
  have hespan : ReadsOnly (.set (numNode .espan t.I) (.get (numNode .aspan t.I))) := haspan
  have hbspan : ReadsOnly (.set (numNode .bspan t.I) (.noBlanks (numNode .aspan t.I))) := haspan
  simp only [stage7, Config.noTrigger, List.forall_mem_append, List.forall_mem_cons, forall_mem_ite,
    List.not_mem_nil, IsEmpty.forall_iff, implies_true, and_true, readsOnly_setStr, hespan, hbspan]

theorem stage9_readsOnly : ∀ c ∈ stage9 cfg, ReadsOnly c := by
  simp only [stage9, List.forall_mem_cons, List.not_mem_nil, IsEmpty.forall_iff, implies_true, and_true]
  exact ⟨readsOnly_incr rfl, readsOnly_incr rfl⟩

theorem stage10_readsOnly : ∀ c ∈ stage10 cfg jobno t.loop t.I, ReadsOnly c := by
  have hsub (k : Nat) : ReadsOnly (.set (subpieceNode jobno t.loop) (.pieceX (numNode .aspan t.I) k)) :=
    fun m hm => List.mem_singleton.1 hm ▸ rfl
  have hpiece (g : Gvn) (hg : isRead g = true) (k : Nat) :
      ReadsOnly (.setPiece (numNode g t.I) k (subpieceNode jobno t.loop)) := readsOnly_setPiece hg rfl
  simp only [stage10, Config.noTrigger, List.forall_mem_append, List.forall_mem_cons, forall_mem_ite,
    List.not_mem_nil, IsEmpty.forall_iff, implies_true, and_true, readsOnly_zkill, hsub, hpiece .aspan rfl,
    hpiece .espan rfl, hpiece .bspan rfl]

theorem helper3_readsOnly : ∀ c ∈ helper3 cfg jobno t.loop t.I t.ch, ReadsOnly c := by
  have h6 : ∀ c ∈ stage6 cfg t.I, ReadsOnly c := by
    simp only [stage6, Config.noTrigger, List.forall_mem_append, List.forall_mem_cons, forall_mem_ite,
      List.not_mem_nil, IsEmpty.forall_iff, implies_true, and_true, readsOnly_zkill]
  have h8 : ∀ c ∈ stage8 cfg t.I t.ch, ReadsOnly c := by
    simp only [stage8, Config.noTrigger, List.forall_mem_append, List.forall_mem_cons, forall_mem_ite,
      List.not_mem_nil, IsEmpty.forall_iff, implies_true, and_true, readsOnly_kill, readsOnly_zkill,
      readsOnly_setStr]
  have h11 : ∀ c ∈ stage11 cfg jobno t.loop t.I, ReadsOnly c := by
    simp only [stage11, Config.noTrigger, List.forall_mem_append, List.forall_mem_cons, forall_mem_ite,
      List.forall_mem_map, List.not_mem_nil, IsEmpty.forall_iff, implies_true, and_true, readsOnly_setNum,
      readsOnly_ztwormhole, readsOnly_ztrigger]
    exact doDztrig_readsOnly cfg 1
  simp only [helper3, List.forall_mem_append, List.forall_mem_flatMap]
  exact ⟨⟨⟨⟨⟨⟨⟨fun j _ => stage4_readsOnly cfg t (j + 1), stage5_readsOnly cfg jobno t⟩, h6⟩,
    stage7_readsOnly cfg t⟩, h8⟩, stage9_readsOnly cfg⟩, stage10_readsOnly cfg jobno t⟩, h11⟩

theorem helper2_readsOnly : ∀ c ∈ helper2 cfg t.ch, ReadsOnly c := by
  simp only [helper2, List.forall_mem_cons, forall_mem_ite, List.not_mem_nil, IsEmpty.forall_iff, implies_true,
    and_true, readsOnly_ztriggerItem]

/-! The three parts of an iteration in which nothing differs. -/

def front : List Cmd := helper1 cfg ++ [setStr (strNode .arandom (cfg.subsMAX t.I)) (cfg.val t.loop)]

def middle : List Cmd := stage1Rest cfg jobno t.loop t.I ++ helper2 cfg t.ch

def rest : List Cmd := stage3 cfg t.loop t.I ++ helper3 cfg jobno t.loop t.I t.ch

theorem turnCmds_eq (restart sets : List Cmd) : turnCmds cfg jobno t restart sets =
    front cfg t ++ restart ++ middle cfg jobno t ++ sets ++ rest cfg jobno t := by
  simp only [turnCmds, front, middle, rest, List.append_assoc]

theorem front_readsOnly : ∀ c ∈ front cfg t, ReadsOnly c := by
  simp only [front, helper1, List.forall_mem_append, List.forall_mem_cons, readsOnly_setStr, List.not_mem_nil,
    IsEmpty.forall_iff, implies_true, and_true]
  exact doDztrig_readsOnly cfg 1

theorem middle_readsOnly : ∀ c ∈ middle cfg jobno t, ReadsOnly c :=
  List.forall_mem_append.2 ⟨stage1Rest_readsOnly cfg jobno t, helper2_readsOnly cfg t⟩

theorem rest_readsOnly : ∀ c ∈ rest cfg jobno t, ReadsOnly c :=
  List.forall_mem_append.2 ⟨stage3_readsOnly cfg t, helper3_readsOnly cfg jobno t⟩

/-- The updates of a restart in the two workers. -/
def rustRestart : List Cmd := if cfg.istp ≠ 0 ∧ cfg.crash ≠ 0 then rustRestarted jobno t else []

def mRestart : List Cmd := if cfg.istp = 1 ∧ cfg.crash ≠ 0 then restarted jobno t.loop t.ch else []

theorem rustRestart_notes : ∀ c ∈ rustRestart cfg jobno t, IsNote c :=
  forall_mem_ite.2 ⟨fun _ => rustRestarted_notes, fun _ _ hc => absurd hc List.not_mem_nil⟩

theorem mRestart_notes : ∀ c ∈ mRestart cfg jobno t, IsNote c :=
  forall_mem_ite.2 ⟨fun _ => restarted_notes, fun _ _ hc => absurd hc List.not_mem_nil⟩

theorem rustCmds_eq : rustCmds cfg jobno t = withoutDztrig (front cfg t ++ rustRestart cfg jobno t
    ++ middle cfg jobno t ++ rustStage2Sets cfg t ++ rest cfg jobno t) :=
  congrArg withoutDztrig (turnCmds_eq ..)

theorem mCmds_eq : cmds (iteration cfg jobno t.loop t.I t.ch) = front cfg t ++ mRestart cfg jobno t
    ++ middle cfg jobno t ++ stage2Sets cfg t.loop t.I (cfg.valALT t.loop) ++ rest cfg jobno t :=
  (cmds_iteration_eq ..).trans (turnCmds_eq ..)

end TurnCmds

/-! ## 3. Without triggers -/

theorem run_withoutDztrig (cs : List Cmd) : ∀ d, run Cmd.exec (withoutDztrig cs) d = run Cmd.exec cs d := by
  induction cs with
  | nil => exact fun _ => rfl
  | cons c cs ih =>
    intro d
    cases c with
    | dztrig k => exact ih d
    | _ => exact ih _

/-- Runs of one program from databases that agree, on what it reads among others. -/
theorem run_same {P : GNode → Prop} (hP : ∀ n : GNode, isRead n.gvn = true → P n) {cs : List Cmd}
    (hcs : ∀ c ∈ cs, ReadsOnly c) {d d' : Db} (h : Agree P d d') :
    Agree (fun k => P k ∨ ∃ c ∈ cs, c.writes k) (run Cmd.exec cs d) (run Cmd.exec cs d') :=
  run_agree cmd_footprint (covered_of_reads fun c hc k hk => hP k (hcs c hc k hk)) h

theorem run_checked {cs : List Cmd} (hcs : ∀ c ∈ cs, ReadsOnly c) {d d' : Db} (h : Agree Checked d d') :
    Agree Checked (run Cmd.exec cs d) (run Cmd.exec cs d') :=
  (run_same (fun _ => checked_of_isRead) hcs h).mono fun _ => .inl

theorem run_notes {cs : List Cmd} (hcs : ∀ c ∈ cs, IsNote c) (d : Db) :
    Agree Checked (run Cmd.exec cs d) d := by
  refine fun k hk => run_frame cmd_footprint (fun c hc hw => ?_) d
  obtain ⟨n, v, rfl, hn⟩ := hcs c hc
  obtain rfl : n = k := Option.some.inj hw
  exact hn hk

section Plain

variable {cfg : Config} (htr : cfg.trigger = 0) (jobno : Nat) (t : Turn)

/-- What the worker in Rust does not set in stage 2. -/
def unset (cfg : Config) (t : Turn) : List GNode :=
  [strNode .bntp (cfg.subs t.I), strNode .cntp (cfg.subs t.I), strNode .dntp (cfg.subs t.I)]

include htr

theorem stage2Sets_plain : stage2Sets cfg t.loop t.I (cfg.valALT t.loop) = rustStage2Sets cfg t ++
    [setStr (strNode .bntp (cfg.subs t.I)) (cfg.val t.loop), setStr (strNode .cntp (cfg.subs t.I)) (cfg.val t.loop),
      setStr (strNode .dntp (cfg.subs t.I)) (cfg.valALT t.loop)] := by
  simp [stage2Sets, rustStage2Sets, Config.noTrigger, htr]

/-- After stage 2 these nodes may differ. -/
theorem stage2_agree {d d' : Db} (h : Agree Checked d d') :
    Agree (fun k => Checked k ∧ k ∉ unset cfg t) (run Cmd.exec (rustStage2Sets cfg t) d)
      (run Cmd.exec (stage2Sets cfg t.loop t.I (cfg.valALT t.loop)) d') := by
  have hcs : ∀ c ∈ rustStage2Sets cfg t, ReadsOnly c := by simp [rustStage2Sets, htr]
  intro k hk
  rw [stage2Sets_plain htr, run_append, run_checked hcs h k hk.1]
  refine (run_frame cmd_footprint (fun c hc hw => hk.2 ?_) _).symm
  simp only [List.mem_cons, List.not_mem_nil, or_false] at hc
  rcases hc with rfl | rfl | rfl
  all_goals
    obtain rfl := Option.some.inj hw
    simp [unset]

/-- Stage 8 kills them. -/
theorem writes_unset : ∀ k ∈ unset cfg t, ∃ c ∈ rest cfg jobno t, c.writes k := by
  have hmem {c : Cmd} (hc : c ∈ stage8 cfg t.I t.ch) : c ∈ rest cfg jobno t := by
    simp [rest, helper3, hc]
  intro k hk
  simp only [unset, List.mem_cons, List.not_mem_nil, or_false] at hk
  rcases hk with rfl | rfl | rfl
  · exact ⟨.kill _, hmem (by simp [stage8, Config.noTrigger, htr]), Node.covers_self _⟩
  · exact ⟨.zkill _, hmem (by simp [stage8, Config.noTrigger, htr]), rfl⟩
  · exact ⟨.zkill _, hmem (by simp [stage8, Config.noTrigger, htr]), rfl⟩

omit htr in
theorem notMem_unset {n : GNode} (hn : isRead n.gvn = true) : n ∉ unset cfg t := by
  simp only [unset, List.mem_cons, List.not_mem_nil, or_false]
  rintro (rfl | rfl | rfl)
  all_goals cases hn

/-- **An iteration without triggers.** -/
theorem plain_turn {d d' : Db} (h : Agree Checked d d') :
    Agree Checked (run Cmd.exec (rustCmds cfg jobno t) d)
      (run Cmd.exec (cmds (iteration cfg jobno t.loop t.I t.ch)) d') := by
  rw [rustCmds_eq, run_withoutDztrig, mCmds_eq]
  simp only [run_append]
  have hrestart := (run_notes (rustRestart_notes cfg jobno t) _).trans
    ((run_checked (front_readsOnly cfg t) h).trans (run_notes (mRestart_notes cfg jobno t) _).symm)
  have hstage2 := stage2_agree htr t (run_checked (middle_readsOnly cfg jobno t) hrestart)
  have hrest := run_same (fun n hn => ⟨checked_of_isRead hn, notMem_unset t hn⟩)
    (rest_readsOnly cfg jobno t) hstage2
  refine hrest.mono fun k hk => ?_
  by_cases hu : k ∈ unset cfg t
  · exact .inr (writes_unset htr jobno t k hu)
  · exact .inl ⟨hk, hu⟩

end Plain

/-! ## 4. With triggers -/

section Act

variable {first : Bool} {s t : TrigState}

theorem Same.value (h : Same s t) {n : GNode} (hn : Checked n) : s.db.value n = t.db.value n :=
  value_congr (h.db n hn)

theorem Same.set (h : Same s t) (n : GNode) {v w : Val} (hv : Checked n → v = w) :
    Same { s with db := s.db.set n v } { t with db := t.db.set n w } := by
  refine ⟨fun k hk => ?_, h.ztwormhole⟩
  rw [Table.get_set, Table.get_set]
  split
  · rename_i hkn
    rw [hv (hkn ▸ hk)]
  · exact h.db k hk

/-- A node that is checked has only such descendants. -/
theorem Same.data (h : Same s t) {n : GNode} (hn : Checked n) : s.db.data n = t.db.data n := by
  rw [Bool.eq_iff_iff, DB.data_eq_true_iff, DB.data_eq_true_iff]
  refine exists_congr fun m => exists_congr fun v => and_congr_right fun hc => ?_
  have hm : Checked m := by
    rw [Checked, ← (Node.covers_iff.1 hc).1]
    exact hn
  rw [h.db m hm]

/-- A SET fires the same updates. -/
theorem onSet_same (h : Same s t) (n : GNode) {old old' : Val} (hold : Checked n → old = old') (v : Val) :
    onSet first n old v s = onSet first n old' v t := by
  have hespan (I : Sub) : s.db.value ⟨.espan, [I]⟩ = t.db.value ⟨.espan, [I]⟩ := h.value ⟨nofun, nofun⟩
  have hbspan (I : Sub) : s.db.value ⟨.bspan, [I]⟩ = t.db.value ⟨.bspan, [I]⟩ := h.value ⟨nofun, nofun⟩
  unfold onSet
  rw [h.ztwormhole]
  split
  case h_17 hg _ => rw [hold (checked_of_gvn hg (by decide))]
  case h_21 hg _ => rw [hold (checked_of_gvn hg (by decide)), hespan]
  case h_22 hg _ => rw [hold (checked_of_gvn hg (by decide)), hbspan]
  all_goals rfl

theorem store_same (h : Same s t) (n : GNode) {v w : Val} (hv : v = w) :
    (store first n v s).2 = (store first n w t).2 ∧ Same (store first n v s).1 (store first n w t).1 := by
  subst hv
  have hset := h.set n fun _ => rfl (a := v)
  exact ⟨onSet_same hset n (fun hn => h.value hn) v, hset⟩

/-! What a trigger issues reads nothing. -/

theorem onSet_readsOnly (n : GNode) (old v : Val) : ∀ c ∈ onSet first n old v s, ReadsOnly c := by
  unfold onSet
  split
  case h_16 | h_17 => split <;> simp
  all_goals simp

theorem onKill_readsOnly (n : GNode) : ∀ c ∈ onKill n, ReadsOnly c := by
  unfold onKill
  split
  all_goals simp

theorem onZkill_readsOnly (n : GNode) : ∀ c ∈ onZkill n, ReadsOnly c := by
  unfold onZkill
  split
  all_goals simp

theorem act_readsOnly (c : Cmd) : ∀ c' ∈ (c.act first s).2, ReadsOnly c' := by
  have hnil : ∀ c' ∈ ([] : List Cmd), ReadsOnly c' := fun c' hc' => absurd hc' List.not_mem_nil
  cases c with
  | set n e => exact onSet_readsOnly n _ _
  | setPiece n k source =>
    simp only [Cmd.act]
    split
    · exact hnil
    · exact onSet_readsOnly n _ _
  | incr n k => exact onSet_readsOnly n _ _
  | kill n => exact forall_mem_ite.2 ⟨fun _ => onKill_readsOnly n, fun _ => hnil⟩
  | zkill n => exact forall_mem_ite.2 ⟨fun _ => onZkill_readsOnly n, fun _ => hnil⟩
  | ztwormhole v => exact hnil
  | ztrigger n =>
    simp only [Cmd.act, onZtrigger]
    split
    all_goals simp
  | dztrig k => exact hnil
  | ztriggerItem r => exact hnil

/-! No trigger is on a note. -/

theorem onSet_eq_nil {n : GNode} (hn : ¬ Checked n) (old v : Val) : onSet first n old v s = [] := by
  unfold onSet
  split
  case h_23 => rfl
  all_goals exact absurd (checked_of_gvn ‹_› (by decide)) hn

theorem onKill_eq_nil {n : GNode} (hn : ¬ Checked n) : onKill n = [] := by
  unfold onKill
  split
  case h_8 => rfl
  all_goals exact absurd (checked_of_gvn ‹_› (by decide)) hn

theorem onZkill_eq_nil {n : GNode} (hn : ¬ Checked n) : onZkill n = [] := by
  unfold onZkill
  split
  case h_3 => rfl
  all_goals exact absurd (checked_of_gvn ‹_› (by decide)) hn

theorem kill_same (h : Same s t) (n : GNode) :
    Same { s with db := s.db.kill n } { t with db := t.db.kill n } := by
  refine ⟨fun k hk => ?_, h.ztwormhole⟩
  rw [DB.get_kill, DB.get_kill, h.db k hk]

theorem zkill_same (h : Same s t) (n : GNode) :
    Same { s with db := s.db.zkill n } { t with db := t.db.zkill n } := by
  refine ⟨fun k hk => ?_, h.ztwormhole⟩
  rw [DB.get_zkill, DB.get_zkill, h.db k hk]

/-- **A command on states that agree**: it fires the same updates, and they still agree. -/
theorem act_same {c : Cmd} (hc : ReadsOnly c) (h : Same s t) :
    (c.act first s).2 = (c.act first t).2 ∧ Same (c.act first s).1 (c.act first t).1 ∧
      ∀ c' ∈ (c.act first s).2, ReadsOnly c' := by
  refine and_assoc.1 ⟨?_, act_readsOnly c⟩
  cases c with
  | set n e =>
    refine store_same h n (expr_congr fun m hm => h.db m (checked_of_isRead (hc m hm)))
  | setPiece n k source =>
    have hn := h.value (checked_of_isRead (hc n List.mem_cons_self))
    have hsource := h.value (checked_of_isRead (hc source (List.mem_cons_of_mem _ List.mem_cons_self)))
    simp only [Cmd.act, hn, hsource]
    split
    · exact ⟨rfl, h⟩
    · exact store_same h n rfl
  | incr n k =>
    have hn := h.value (checked_of_isRead (hc n List.mem_cons_self))
    simp only [Cmd.act, hn]
    exact store_same h n rfl
  | kill n =>
    refine ⟨?_, kill_same h n⟩
    by_cases hn : Checked n
    · simp only [Cmd.act, h.data hn]
    · simp only [Cmd.act, onKill_eq_nil hn, ite_self]
  | zkill n =>
    refine ⟨?_, zkill_same h n⟩
    by_cases hn : Checked n
    · simp only [Cmd.act, h.db n hn]
    · simp only [Cmd.act, onZkill_eq_nil hn, ite_self]
  | ztwormhole v => exact ⟨rfl, h.db, rfl⟩
  | ztrigger n =>
    refine ⟨?_, h⟩
    simp only [Cmd.act, onZtrigger, h.ztwormhole]
  | dztrig k => exact ⟨rfl, h⟩
  | ztriggerItem r => exact ⟨rfl, h⟩

end Act

theorem runTriggers_append (first : Bool) (as bs : List Cmd) (s : TrigState) :
    runTriggers first (as ++ bs) s = (runTriggers first as s).bind fun s => runTriggers first bs s :=
  runCascade_append ..

theorem runTriggers_withoutDztrig (first : Bool) (cs : List Cmd) : ∀ s,
    runTriggers first (withoutDztrig cs) s = runTriggers first cs s := by
  induction cs with
  | nil => exact fun _ => rfl
  | cons c cs ih =>
    intro s
    have hcons (t : TrigState) : runCascade (Cmd.act first) ztlevelMax (withoutDztrig cs) t =
        runCascade (Cmd.act first) ztlevelMax cs t := ih t
    cases c with
    | dztrig k =>
      refine (ih s).trans ?_
      rw [runTriggers, runTriggers, runCascade_cons, cascade_of_nil rfl]
      rfl
    | _ =>
      change runCascade (Cmd.act first) ztlevelMax (_ :: withoutDztrig cs) s = _
      simp only [runTriggers, runCascade_cons, hcons]

section Runs

variable {first : Bool} {s s' t t' : TrigState}

theorem runTriggers_same {cs : List Cmd} (hcs : ∀ c ∈ cs, ReadsOnly c) (h : Same s t)
    (hs : runTriggers first cs s = some s') (ht : runTriggers first cs t = some t') : Same s' t' := by
  have hact : ∀ (c : Cmd) (s t : TrigState), ReadsOnly c → Same s t →
      (c.act first s).2 = (c.act first t).2 ∧ Same (c.act first s).1 (c.act first t).1 ∧
        ∀ c' ∈ (c.act first s).2, ReadsOnly c' := fun c s t hc h => act_same hc h
  exact runCascade_rel hact hcs h hs ht

/-- Notes fire nothing. -/
theorem runTriggers_notes : ∀ {cs : List Cmd} {s s' : TrigState}, (∀ c ∈ cs, IsNote c) →
    runTriggers first cs s = some s' → Same s' s := by
  intro cs
  induction cs with
  | nil =>
    intro s s' _ hs
    obtain rfl := Option.some.inj hs
    exact ⟨fun _ _ => rfl, rfl⟩
  | cons c cs ih =>
    intro s s' hcs hs
    obtain ⟨n, v, rfl, hn⟩ := hcs c List.mem_cons_self
    have hnil : (Cmd.act first (.set n (.lit v)) s).2 = [] := onSet_eq_nil hn _ _
    rw [runTriggers, runCascade_cons, cascade_of_nil hnil] at hs
    have hrest := ih (fun b hb => hcs b (List.mem_cons_of_mem _ hb)) hs
    refine ⟨fun k hk => (hrest.db k hk).trans ?_, hrest.ztwormhole⟩
    exact Table.get_set_of_ne _ _ fun h => hn (h ▸ hk)

/-! Stage 2. -/

section Stage2

variable {w : Sub} {v : Val}

/-- What the trigger on `^antp` and those on what it sets leave. -/
structure Set2 (w : Sub) (v : Val) (s : TrigState) : Prop where
  bntp : s.db.get ⟨.bntp, [w]⟩ = some v
  cntp : s.db.get ⟨.cntp, [w]⟩ = some v
  dntp : s.db.get ⟨.dntp, [w]⟩ = some somejunk
  ztwormhole : asSub s.ztwormhole = w

theorem cascade_cntp (depth : Nat) (s : TrigState) (c : Sub) :
    cascade (Cmd.act first) (depth + 1) (.set ⟨.cntp, [c]⟩ (.lit v)) s =
      some ⟨(s.db.set ⟨.cntp, [c]⟩ v).set ⟨.dntp, [asSub s.ztwormhole]⟩ somejunk, s.ztwormhole⟩ := by
  rw [cascade_succ]
  simp only [Cmd.act, store, onSet, Expr.eval, runCascade_cons, runCascade_nil]
  rw [cascade_of_nil rfl]
  rfl

theorem cascade_antp (depth : Nat) (s : TrigState) (c : Sub) :
    cascade (Cmd.act first) (depth + 3) (.set ⟨.antp, [c]⟩ (.lit v)) s =
      some ⟨(((s.db.set ⟨.antp, [c]⟩ v).set ⟨.bntp, [asSub s.ztwormhole]⟩ v).set
        ⟨.cntp, [asSub s.ztwormhole]⟩ v).set ⟨.dntp, [asSub s.ztwormhole]⟩ somejunk, s.ztwormhole⟩ := by
  rw [cascade_succ]
  simp only [Cmd.act, store, onSet, Expr.eval, runCascade_cons, runCascade_nil, cascade_bntp]
  rfl

theorem runTriggers_cons (c : Cmd) (cs : List Cmd) : runTriggers first (c :: cs) s =
    (cascade (Cmd.act first) ztlevelMax c s).bind fun s => runTriggers first cs s := runCascade_cons ..

theorem set2_antp {c : Sub} (hw : asSub s.ztwormhole = w)
    (hs : runTriggers first [.set ⟨.antp, [c]⟩ (.lit v)] s = some s') : Set2 w v s' := by
  rw [runTriggers_cons, show ztlevelMax = 124 + 3 from rfl, cascade_antp, hw] at hs
  obtain rfl := Option.some.inj hs
  have hdntp {g : Gvn} (hg : g ≠ .dntp) : (⟨g, [w]⟩ : GNode) ≠ ⟨.dntp, [w]⟩ := fun he => hg (congrArg Node.gvn he)
  refine ⟨?_, ?_, Table.get_set_self .., hw⟩
  · rw [Table.get_set_of_ne _ _ (hdntp (by decide)),
      Table.get_set_of_ne _ _ fun he => Gvn.noConfusion (congrArg Node.gvn he), Table.get_set_self]
  · rw [Table.get_set_of_ne _ _ (hdntp (by decide)), Table.get_set_self]

/-- To set a node once more changes nothing. -/
theorem get_set_eq {d : Db} {n : GNode} (h : d.get n = some v) (k : GNode) : (d.set n v).get k = d.get k := by
  rw [Table.get_set]
  split
  · rename_i hk
    rw [hk, h]
  · rfl

/-- **What the worker in Rust sets once more.** -/
theorem Set2.redo (h : Set2 w v s)
    (hs : runTriggers first [.set ⟨.bntp, [w]⟩ (.lit v), .set ⟨.cntp, [w]⟩ (.lit v)] s = some s') : Same s' s := by
  rw [runTriggers_cons, show ztlevelMax = 125 + 2 from rfl, cascade_bntp, h.ztwormhole, Option.bind_some,
    runTriggers_cons, show ztlevelMax = 126 + 1 from rfl, cascade_cntp, h.ztwormhole, Option.bind_some] at hs
  obtain rfl := Option.some.inj hs
  have hb := get_set_eq h.bntp
  have hc := get_set_eq (d := s.db.set ⟨.bntp, [w]⟩ v) ((hb _).trans h.cntp)
  have hd := get_set_eq (d := (s.db.set ⟨.bntp, [w]⟩ v).set ⟨.cntp, [w]⟩ v) (((hc _).trans (hb _)).trans h.dntp)
  have h₁ (k : GNode) := ((hd k).trans (hc k)).trans (hb k)
  have hc' := get_set_eq ((h₁ _).trans h.cntp)
  have hd' := get_set_eq (((hc' _).trans (h₁ _)).trans h.dntp)
  exact ⟨fun k _ => ((hd' k).trans (hc' k)).trans (h₁ k), rfl⟩

end Stage2

end Runs

section Triggers

variable {first : Bool} {cfg : Config} (htr : cfg.trigger ≠ 0) (jobno : Nat) (t : Turn) {s s' u u' : TrigState}
include htr

theorem stage2_same (h : Same s u) (hw : asSub s.ztwormhole = .str (cfg.subs t.I))
    (hs : runTriggers first (rustStage2Sets cfg t) s = some s')
    (hu : runTriggers first (stage2Sets cfg t.loop t.I (cfg.valALT t.loop)) u = some u') : Same s' u' := by
  have hrust : rustStage2Sets cfg t = [setStr (strNode .antp (cfg.subs t.I)) (cfg.val t.loop)]
      ++ ([setStr (strNode .bntp (cfg.subs t.I)) (cfg.val t.loop),
        setStr (strNode .cntp (cfg.subs t.I)) (cfg.val t.loop)]
      ++ [setStr (strNode .dntp (cfg.subs t.I)) (cfg.valALT t.loop)]) := by
    simp [rustStage2Sets, htr]
  have hm : stage2Sets cfg t.loop t.I (cfg.valALT t.loop) =
      [setStr (strNode .antp (cfg.subs t.I)) (cfg.val t.loop)]
        ++ [setStr (strNode .dntp (cfg.subs t.I)) (cfg.valALT t.loop)] := by
    simp [stage2Sets, Config.noTrigger, htr]
  rw [hrust, runTriggers_append] at hs
  rw [hm, runTriggers_append] at hu
  obtain ⟨s₁, hs₁, hs⟩ := Option.bind_eq_some_iff.1 hs
  obtain ⟨u₁, hu₁, hu⟩ := Option.bind_eq_some_iff.1 hu
  rw [runTriggers_append] at hs
  obtain ⟨s₂, hs₂, hs⟩ := Option.bind_eq_some_iff.1 hs
  have hone (g : Gvn) (x : MStr) : ∀ c ∈ [setStr (strNode g (cfg.subs t.I)) x], ReadsOnly c := by simp
  have h₁ := runTriggers_same (hone _ _) h hs₁ hu₁
  have h₂ := (set2_antp hw hs₁).redo hs₂
  refine runTriggers_same (hone _ _) ⟨h₂.db.trans h₁.db, h₂.ztwormhole.trans h₁.ztwormhole⟩ hs hu

omit htr in
/-- `$ztwormhole` is set before `^antp` is, and to nothing but `subs`. -/
theorem ztwormhole_subs (restart : List Cmd) (hr : ∀ c ∈ restart, IsNote c) (htr : cfg.trigger ≠ 0)
    (hs : runTriggers first (front cfg t ++ restart ++ middle cfg jobno t) s = some s') :
    s'.ztwormhole = .str (cfg.subs t.I) := by
  refine runTriggers_ztwormhole_of_mem (fun c hc v hv => ?_) ?_ hs
  · subst hv
    rcases List.mem_append.1 hc with hc | hc
    · rcases List.mem_append.1 hc with hc | hc
      · simp [front, helper1, Config.doDztrig, setStr] at hc
      · obtain ⟨n, x, he, -⟩ := hr _ hc
        cases he
    · simpa [middle, stage1Rest, helper2, ztwormstr, ztrcmd, Config.noTrigger, setStr, setNum, htr] using hc
  · simp [middle, stage1Rest, ztwormstr, htr]

/-- **An iteration with triggers.** -/
theorem trigger_turn (h : Same s u) (hs : runTriggers first (rustCmds cfg jobno t) s = some s')
    (hu : runTriggers first (cmds (iteration cfg jobno t.loop t.I t.ch)) u = some u') : Same s' u' := by
  rw [rustCmds_eq, runTriggers_withoutDztrig, runTriggers_append, runTriggers_append] at hs
  rw [mCmds_eq, runTriggers_append, runTriggers_append] at hu
  simp only [Option.bind_eq_some_iff] at hs hu
  obtain ⟨s₂, ⟨s₁, hs₁, hs₂⟩, hs⟩ := hs
  obtain ⟨u₂, ⟨u₁, hu₁, hu₂⟩, hu⟩ := hu
  have hw := ztwormhole_subs jobno t _ (rustRestart_notes cfg jobno t) htr hs₁
  have h₁ : Same s₁ u₁ := by
    simp only [runTriggers_append, Option.bind_eq_some_iff] at hs₁ hu₁
    obtain ⟨s₀, ⟨sf, hsf, hs₀⟩, hs₁⟩ := hs₁
    obtain ⟨u₀, ⟨uf, huf, hu₀⟩, hu₁⟩ := hu₁
    have hsn := runTriggers_notes (rustRestart_notes cfg jobno t) hs₀
    have hun := runTriggers_notes (mRestart_notes cfg jobno t) hu₀
    have hfront := runTriggers_same (front_readsOnly cfg t) h hsf huf
    refine runTriggers_same (middle_readsOnly cfg jobno t) ⟨?_, ?_⟩ hs₁ hu₁
    · exact hsn.db.trans (hfront.db.trans hun.db.symm)
    · exact hsn.ztwormhole.trans (hfront.ztwormhole.trans hun.ztwormhole.symm)
  have h₂ := stage2_same htr t h₁ (by rw [hw]; rfl) hs₂ hu₂
  exact runTriggers_same (rest_readsOnly cfg jobno t) h₂ hs hu

end Triggers

/-! ## 5. Runs -/

section Turns

variable (cfg : Config) (jobno : Nat)

theorem plain_turns (htr : cfg.trigger = 0) (ts : List Turn) : ∀ {d d' : Db}, Agree Checked d d' →
    Agree Checked (run Cmd.exec (ts.flatMap (rustCmds cfg jobno)) d)
      (run Cmd.exec (ts.flatMap fun t => cmds (iteration cfg jobno t.loop t.I t.ch)) d') := by
  induction ts with
  | nil => exact fun h => h
  | cons t ts ih =>
    intro d d' h
    rw [List.flatMap_cons, List.flatMap_cons, run_append, run_append]
    exact ih (plain_turn htr jobno t h)

theorem trigger_turns (htr : cfg.trigger ≠ 0) {first : Bool} (ts : List Turn) :
    ∀ {s s' u u' : TrigState}, Same s u →
      runTriggers first (ts.flatMap (rustCmds cfg jobno)) s = some s' →
      runTriggers first (ts.flatMap fun t => cmds (iteration cfg jobno t.loop t.I t.ch)) u = some u' →
      Same s' u' := by
  induction ts with
  | nil =>
    intro s s' u u' h hs hu
    obtain rfl := Option.some.inj hs
    obtain rfl := Option.some.inj hu
    exact h
  | cons t ts ih =>
    intro s s' u u' h hs hu
    rw [List.flatMap_cons, runTriggers_append] at hs hu
    obtain ⟨s₁, hs₁, hs⟩ := Option.bind_eq_some_iff.1 hs
    obtain ⟨u₁, hu₁, hu⟩ := Option.bind_eq_some_iff.1 hu
    exact ih (trigger_turn htr jobno t h hs₁ hu₁) hs hu

/-- The updates that the worker in Rust makes in a run of any iterations leave the database that those of
the worker in M leave, in all nodes that are no notes about restarts: without triggers and with the
triggers of the test, from any database, and whatever the tries of the transactions were. -/
theorem rust_turns_agree (ts : List Turn) :
    (∀ (fillid : MStr) (v : Vars), (Emit.run (ts.flatMap (turn cfg fillid jobno)) v).map Prod.fst =
      some (ts.flatMap fun t => (rustCmds cfg jobno t).map (Cmd.upd fillid t.fntpRead))) ∧
    (cfg.trigger = 0 → ∀ d : Db,
      Agree Checked (run Cmd.exec (ts.flatMap (rustCmds cfg jobno)) d)
        (run Cmd.exec (ts.flatMap fun t => cmds (iteration cfg jobno t.loop t.I t.ch)) d)) ∧
    (cfg.trigger ≠ 0 → ∀ (first : Bool) (s : TrigState), ∃ s' u',
      runTriggers first (ts.flatMap (rustCmds cfg jobno)) s = some s' ∧
      runTriggers first (ts.flatMap fun t => cmds (iteration cfg jobno t.loop t.I t.ch)) s = some u' ∧
      Same s' u') := by
  refine ⟨fun fillid v => ?_, fun htr d => plain_turns cfg jobno htr ts (Agree.refl _ d), fun htr first s => ?_⟩
  · exact (Emits.repeat_ fun t _ => emits_turn).calls_eq trivial
  · obtain ⟨s', hs⟩ := Option.isSome_iff_exists.1
      (runTriggers_isSome first (ts.flatMap (rustCmds cfg jobno)) s)
    obtain ⟨u', hu⟩ := Option.isSome_iff_exists.1 (runTriggers_isSome first
      (ts.flatMap fun t => cmds (iteration cfg jobno t.loop t.I t.ch)) s)
    exact ⟨s', u', hs, hu, trigger_turns cfg jobno htr ts ⟨Agree.refl _ s.db, rfl⟩ hs hu⟩

end Turns

end YottaTest.Imptp.RustWorker
