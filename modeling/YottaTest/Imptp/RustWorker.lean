/-
  File:      YottaTest/Imptp/RustWorker.lean
  Subject:   imptpjob.rs: the updates of the worker in Rust.

  The stages differ from those in M in what they do after restarts, and stage 2 in its condition: `^bntp`,
  `^cntp` and `^dntp` are set with triggers, not without. The variable `dztrig` is "true" or "false", so
  that for M it is always 0.

  * `tp_stage1`, `tp_stage3`, `turn` -- the code of a turn of the loop;
  * `rustCmds` -- its updates; `emits_turn` -- **those are the calls that it makes.**
-/
import YottaTest.Imptp.Helpers
import YottaTest.Lib.Emit

namespace YottaTest.Imptp.RustWorker

open YottaTest.Lib YottaTest.M

/-! ## 1. The code -/

/-- `Key`. -/
structure Key where
  variable_ : Gvn
  subscripts : List MStr

/-- The keys that are changed: `random` in stage 1, `ntp` in the others; and `j`. -/
structure Vars where
  key : Key
  j : Key

abbrev Code := List (Emit Vars Upd)

/-- `let mut random = Key::new(...)`. -/
def newKey (g : Gvn) (subscripts : List MStr) : Emit Vars Upd := .act fun v => { v with key := ⟨g, subscripts⟩ }

/-- `random.variable = ...`. -/
def setVariable (g : Gvn) : Emit Vars Upd := .act fun v => { v with key := { v.key with variable_ := g } }

/-- `random[1] = ...`. -/
def setSecond (s : MStr) : Emit Vars Upd :=
  .act fun v => { v with key := { v.key with subscripts := v.key.subscripts.set 1 s } }

/-- `random.set(...)`. -/
def setKey (val : MStr) : Emit Vars Upd := .call fun v => [.set v.key.variable_ v.key.subscripts val]

/-- `let mut j = Key::new(...)`. -/
def newJ (g : Gvn) (subscripts : List MStr) : Emit Vars Upd := .act fun v => { v with j := ⟨g, subscripts⟩ }

/-- `j.push(...)`. -/
def pushJ (s : Vars → MStr) : Emit Vars Upd :=
  .act fun v => { v with j := { v.j with subscripts := v.j.subscripts ++ [s v] } }

/-- `j.set(...)`. -/
def setJ (val : MStr) : Emit Vars Upd := .call fun v => [.set v.j.variable_ v.j.subscripts val]

/-- `Key::new(...).set(...)`. -/
def setNew (g : Gvn) (subscripts : List MStr) (val : MStr) : Emit Vars Upd :=
  .call fun _ => [.set g subscripts val]

/-- `do:dztrig ^imptpdztrig(...)`. -/
def isDztrig : Cmd → Bool
  | .dztrig _ => true
  | _ => false

/-- What an M routine does where `dztrig` is 0. -/
def withoutDztrig (cs : List Cmd) : List Cmd := cs.filter fun c => !isDztrig c

section WithoutDztrig

variable (cfg : Config)

@[simp] theorem withoutDztrig_append (cs ds : List Cmd) :
    withoutDztrig (cs ++ ds) = withoutDztrig cs ++ withoutDztrig ds := List.filter_append ..

@[simp] theorem withoutDztrig_nil : withoutDztrig [] = [] := rfl

@[simp] theorem withoutDztrig_cons_set (n : GNode) (e : Expr) (cs : List Cmd) :
    withoutDztrig (.set n e :: cs) = .set n e :: withoutDztrig cs := rfl

@[simp] theorem withoutDztrig_cons_setStr (n : GNode) (v : MStr) (cs : List Cmd) :
    withoutDztrig (setStr n v :: cs) = setStr n v :: withoutDztrig cs := rfl

@[simp] theorem withoutDztrig_cons_setNum (n : GNode) (v : Nat) (cs : List Cmd) :
    withoutDztrig (setNum n v :: cs) = setNum n v :: withoutDztrig cs := rfl

@[simp] theorem withoutDztrig_doDztrig (k : Nat) : withoutDztrig (cfg.doDztrig k) = [] := by
  unfold Config.doDztrig
  split
  · rfl
  · rfl

theorem withoutDztrig_ite (c : Prop) [Decidable c] (cs ds : List Cmd) :
    withoutDztrig (if c then cs else ds) = if c then withoutDztrig cs else withoutDztrig ds :=
  apply_ite withoutDztrig c cs ds

@[simp] theorem withoutDztrig_noTrigger (cs : List Cmd) :
    withoutDztrig (cfg.noTrigger cs) = cfg.noTrigger (withoutDztrig cs) := withoutDztrig_ite ..

@[simp] theorem withoutDztrig_imptpdztrig : withoutDztrig (imptpdztrig cfg) = [] := withoutDztrig_doDztrig cfg 2

@[simp] theorem withoutDztrig_ztwormstr (I : Nat) : withoutDztrig (ztwormstr cfg I) = ztwormstr cfg I := rfl

@[simp] theorem withoutDztrig_ztrcmd (jobno loop : Nat) :
    withoutDztrig (ztrcmd jobno loop) = ztrcmd jobno loop := rfl

end WithoutDztrig

section Code

variable (cfg : Config) (fillid : MStr) (jobno : Nat) (t : Turn)

def call (cs : List Cmd) : Emit Vars Upd := .call fun _ => (withoutDztrig cs).map (Cmd.upd fillid t.fntpRead)

def tp_stage1 : Code :=
  [setNew .arandom [fillid, cfg.subsMAX t.I] (cfg.val t.loop)]
    ++ (if cfg.istp ≠ 0 ∧ cfg.crash ≠ 0 then
          (if 2 < t.ch.trestart1 then
            (if t.ch.rndm1 = 1 then [call fillid t (noop jobno t.loop t.ch)] else [])
          else if t.ch.trestart1 ≠ 0 then [setNew .zdummy [natStr t.ch.trestart1] (natStr jobno)]
          else [])
        else [])
    ++ [newKey .brandomv [fillid, cfg.subsMAX t.I], setKey (cfg.valALT t.loop)]
    ++ (if cfg.trigger = 0 then [setVariable .crandomva, setKey (cfg.valALT t.loop)] else [])
    ++ [setVariable .drandomvariable, setSecond (cfg.subs t.I), setKey (cfg.valALT t.loop)]
    ++ (if cfg.trigger = 0 then
          [setVariable .erandomvariableimptp, setKey (cfg.valALT t.loop),
            setVariable .frandomvariableinimptp, setKey (cfg.valALT t.loop)]
        else [])
    ++ [setVariable .grandomvariableinimptpfill, setKey (cfg.val t.loop)]
    ++ (if cfg.trigger = 0 then
          [setVariable .hrandomvariableinimptpfilling, setKey (cfg.val t.loop),
            setVariable .irandomvariableinimptpfillprgrm, setKey (cfg.val t.loop)]
        else [call fillid t (ztwormstr cfg t.I)])
    ++ [newJ .jrandomvariableinimptpfillprogram [fillid, natStr t.I], setJ (cfg.val t.loop)]
    ++ (if cfg.trigger = 0 then
          [pushJ fun _ => natStr t.I, setJ (cfg.val t.loop), pushJ fun v => v.key.subscripts.getD 1 [],
            setJ (cfg.val t.loop)]
        else [])
    ++ (if cfg.istp ≠ 0 then
          (if cfg.ztr then [call fillid t (ztrcmd jobno t.loop)] else [])
          ++ [setNew .lasti [fillid, natStr jobno] (natStr t.loop)]
        else [])

/-- Stage 2. -/
def stage2 : Code :=
  [call fillid t (helper2 cfg t.ch), newKey .antp [fillid, cfg.subs t.I], setKey (cfg.val t.loop)]
    ++ (if cfg.trigger ≠ 0 then
          [setVariable .bntp, setKey (cfg.val t.loop), setVariable .cntp, setKey (cfg.val t.loop),
            setVariable .dntp, setKey (cfg.valALT t.loop)]
        else [])

/-- The end of the program, or a restart, where `^fntp` is less than 6 bytes long. -/
def tp_stage3 : Code :=
  (if cfg.dztrig then [call fillid t (imptpdztrig cfg)] else [])
    ++ [newKey .entp [fillid, cfg.subs t.I], setKey (cfg.val t.loop), setVariable .fntp]
    ++ (if cfg.trigger = 0 then [setKey (cfg.val t.loop)]
        else [.assert fun _ => 6 ≤ zlength cfg.chset t.fntpRead, setKey (cutSuffix cfg.chset t.fntpRead)])
    ++ [setVariable .gntp, setSecond (cfg.subsMAX t.I), setKey (cfg.valMAX t.loop)]
    ++ (if cfg.trigger = 0 then
          [setVariable .hntp, setKey (cfg.valMAX t.loop), setVariable .intp, setKey (cfg.valMAX t.loop),
            setVariable .bntp, setKey (cfg.valMAX t.loop)]
        else [])

/-- A turn of the loop. -/
def turn : Code :=
  [call fillid t (helper1 cfg)] ++ tp_stage1 cfg fillid jobno t ++ stage2 cfg fillid t
    ++ tp_stage3 cfg fillid t ++ [call fillid t (helper3 cfg jobno t.loop t.I t.ch)]

/-! ## 2. Its updates -/

/-- What a try of the transaction of stage 1 does more if it is not the first one. -/
def rustRestarted : List Cmd :=
  if 2 < t.ch.trestart1 then (if t.ch.rndm1 = 1 then noop jobno t.loop t.ch else [])
  else if t.ch.trestart1 ≠ 0 then [setNum (numNode .zdummy t.ch.trestart1) jobno]
  else []

/-- Stage 2 from `^antp` on. -/
def rustStage2Sets : List Cmd :=
  [setStr (strNode .antp (cfg.subs t.I)) (cfg.val t.loop)]
    ++ (if cfg.trigger ≠ 0 then
          [setStr (strNode .bntp (cfg.subs t.I)) (cfg.val t.loop),
            setStr (strNode .cntp (cfg.subs t.I)) (cfg.val t.loop),
            setStr (strNode .dntp (cfg.subs t.I)) (cfg.valALT t.loop)]
        else [])

/-- The updates of a turn. -/
def rustCmds : List Cmd :=
  withoutDztrig (turnCmds cfg jobno t (if cfg.istp ≠ 0 ∧ cfg.crash ≠ 0 then rustRestarted jobno t else [])
    (rustStage2Sets cfg t))

end Code

section Stages

variable {cfg : Config} {fillid : MStr} {jobno : Nat} {t : Turn} {x y : MStr}

/-- The key has these two subscripts. -/
def At (fillid x : MStr) (v : Vars) : Prop := v.key.subscripts = [fillid, x]

theorem emits_call {P : Vars → Prop} (cs : List Cmd) :
    Emits P [call fillid t cs] ((withoutDztrig cs).map (Cmd.upd fillid t.fntpRead)) P := .call fun _ _ => rfl

theorem emits_setNew {P : Vars → Prop} (g : Gvn) (subscripts : List MStr) (val : MStr) :
    Emits P [setNew g subscripts val] [.set g subscripts val] P := .call fun _ _ => rfl

theorem emits_newKey {P : Vars → Prop} (g : Gvn) (val : MStr) :
    Emits P [newKey g [fillid, x], setKey val] [.set g [fillid, x] val] (At fillid x) :=
  fun _ _ => ⟨_, rfl, rfl⟩

theorem emits_setVariable (g : Gvn) (val : MStr) :
    Emits (At fillid x) [setVariable g, setKey val] [.set g [fillid, x] val] (At fillid x) := by
  intro v hv
  refine ⟨{ v with key := ⟨g, [fillid, x]⟩ }, ?_, rfl⟩
  rw [← hv]
  rfl

theorem emits_setSecond (g : Gvn) (val : MStr) :
    Emits (At fillid x) [setVariable g, setSecond y, setKey val] [.set g [fillid, y] val] (At fillid y) := by
  intro v hv
  obtain ⟨⟨g', subscripts⟩, j⟩ := v
  obtain rfl : subscripts = [fillid, x] := hv
  exact ⟨_, rfl, rfl⟩

/-- The second key has two subscripts, and the third one is that of the first key. -/
theorem emits_j : Emits (At fillid x)
    [newJ .jrandomvariableinimptpfillprogram [fillid, natStr t.I], setJ (cfg.val t.loop)]
    [.set .jrandomvariableinimptpfillprogram [fillid, natStr t.I] (cfg.val t.loop)]
    fun v => At fillid x v ∧ v.j = ⟨.jrandomvariableinimptpfillprogram, [fillid, natStr t.I]⟩ :=
  fun _ hv => ⟨_, rfl, hv, rfl⟩

theorem emits_push :
    Emits (fun v => At fillid x v ∧ v.j = ⟨.jrandomvariableinimptpfillprogram, [fillid, natStr t.I]⟩)
      [pushJ fun _ => natStr t.I, setJ (cfg.val t.loop), pushJ fun v => v.key.subscripts.getD 1 [],
        setJ (cfg.val t.loop)]
      [.set .jrandomvariableinimptpfillprogram [fillid, natStr t.I, natStr t.I] (cfg.val t.loop),
        .set .jrandomvariableinimptpfillprogram [fillid, natStr t.I, natStr t.I, x] (cfg.val t.loop)]
      fun _ => True := by
  intro v hv
  obtain ⟨⟨g, subscripts⟩, j⟩ := v
  obtain ⟨hkey, rfl⟩ := hv
  obtain rfl : subscripts = [fillid, x] := hkey
  exact ⟨_, rfl, trivial⟩

theorem emits_stage1 : Emits (fun _ => True) (tp_stage1 cfg fillid jobno t)
    ((withoutDztrig ([setStr (strNode .arandom (cfg.subsMAX t.I)) (cfg.val t.loop)]
      ++ (if cfg.istp ≠ 0 ∧ cfg.crash ≠ 0 then rustRestarted jobno t else [])
      ++ stage1Rest cfg jobno t.loop t.I)).map (Cmd.upd fillid t.fntpRead)) (fun _ => True) := by
  unfold tp_stage1
  refine .congr (.append (.append (.append (.append (.append (.append (.append (.append (.append (.append
    (emits_setNew _ _ _)
    (.when fun _ => .branch (fun _ => .when fun _ => emits_call _) fun _ => .when fun _ => emits_setNew _ _ _))
    (emits_newKey _ _))
    (.when fun _ => emits_setVariable _ _))
    (emits_setSecond _ _))
    (.when fun _ => .append (p := [_, _]) (emits_setVariable _ _) (emits_setVariable _ _)))
    (emits_setVariable _ _))
    (.branch (fun _ => .append (p := [_, _]) (emits_setVariable _ _) (emits_setVariable _ _))
      fun _ => emits_call _))
    emits_j)
    (.branch (fun _ => emits_push) fun _ => .mono .nil (fun _ hv => hv) fun _ _ => trivial))
    (.when fun _ => .append (.when fun _ => emits_call _) (emits_setNew _ _ _))) ?_
  by_cases htr : cfg.trigger = 0 <;> by_cases hist : cfg.istp = 0 <;> by_cases hcr : cfg.crash = 0 <;>
    by_cases hz : cfg.ztr <;>
    simp [stage1Rest, rustRestarted, Config.noTrigger, apply_ite withoutDztrig, apply_ite (List.map _), htr, hist,
      hcr, hz]

theorem emits_stage2 : Emits (fun _ => True) (stage2 cfg fillid t)
    ((withoutDztrig (helper2 cfg t.ch ++ rustStage2Sets cfg t)).map (Cmd.upd fillid t.fntpRead))
    (At fillid (cfg.subs t.I)) := by
  unfold stage2
  refine .congr (.append (.cons (emits_call _) (emits_newKey _ _)) (.when fun _ =>
    .append (p := [_, _]) (emits_setVariable _ _)
      (.append (p := [_, _]) (emits_setVariable _ _) (emits_setVariable _ _)))) ?_
  by_cases htr : cfg.trigger = 0 <;> simp [rustStage2Sets, htr]

/-- Stage 3, `^entp`; then the key gets the name for the next SET. -/
theorem emits_entp {P : Vars → Prop} (val : MStr) :
    Emits P [newKey .entp [fillid, x], setKey val, setVariable .fntp] [.set .entp [fillid, x] val]
      fun v => At fillid x v ∧ v.key.variable_ = .fntp :=
  fun _ _ => ⟨_, rfl, rfl, rfl⟩

/-- `^fntp`. -/
theorem emits_fntp : Emits (fun v => At fillid x v ∧ v.key.variable_ = .fntp)
    (if cfg.trigger = 0 then [setKey (cfg.val t.loop)]
      else [.assert fun _ => 6 ≤ zlength cfg.chset t.fntpRead, setKey (cutSuffix cfg.chset t.fntpRead)])
    (if cfg.trigger = 0 then [.set .fntp [fillid, x] (cfg.val t.loop)] else [.set .fntp [fillid, x] t.fntp])
    (At fillid x) := by
  have hset (val : MStr) : Emits (fun v => At fillid x v ∧ v.key.variable_ = .fntp) [setKey val]
      [.set .fntp [fillid, x] val] (At fillid x) :=
    .mono (.call fun v hv => by rw [hv.2, hv.1]) (fun _ hv => hv) fun _ hv => hv.1
  refine .branch (fun _ => hset _) fun _ => ?_
  show Emits _ _ ([] ++ [_]) _
  refine .cons (.assert fun _ _ => ?_) ?_
  · exact decide_eq_true (t.six_le_fntpRead cfg.chset)
  · rw [t.cutSuffix_fntpRead]
    exact hset _

theorem emits_stage3 : Emits (fun _ => True) (tp_stage3 cfg fillid t)
    ((withoutDztrig (stage3 cfg t.loop t.I)).map (Cmd.upd fillid t.fntpRead)) (fun _ => True) := by
  unfold tp_stage3
  refine .congr (.append (.append (.append (.append
    (.when fun _ => emits_call _)
    (emits_entp _))
    emits_fntp)
    (emits_setSecond _ _))
    (.mono (.when fun _ => .append (p := [_, _]) (emits_setVariable _ _)
      (.append (p := [_, _]) (emits_setVariable _ _) (emits_setVariable _ _)))
      (fun _ hv => hv) fun _ _ => trivial)) ?_
  by_cases htr : cfg.trigger = 0 <;> by_cases hd : cfg.dztrig <;>
    simp [stage3, Config.noTrigger, imptpdztrig, htr, hd]

/-- **The calls of a turn.** -/
theorem emits_turn : Emits (fun _ => True) (turn cfg fillid jobno t)
    ((rustCmds cfg jobno t).map (Cmd.upd fillid t.fntpRead)) (fun _ => True) := by
  unfold turn rustCmds turnCmds
  refine .congr (.append (.append (.append (.append (emits_call _) emits_stage1) emits_stage2)
    (.mono emits_stage3 (fun _ _ => trivial) fun _ hv => hv)) (emits_call _)) ?_
  simp only [List.map_append, withoutDztrig_append]

end Stages

end YottaTest.Imptp.RustWorker
