/-
  File:      YottaTest/Imptp/Trigger.lean
  Subject:   imptp.trg and imptpztr.trg: the triggers that do part of an iteration's updates.

  A trigger fires inside the update that meets it: a SET trigger on every SET, a KILL trigger when
  there is something to kill, a ZKILL trigger when the node has a value. What its body sets fires
  further triggers.

  * `onSet`, `onKill`, `onZkill`, `onZtrigger` -- the bodies of the two files, as the updates they
    issue;
  * `Cmd.act`, `runTriggers` -- an update with the bodies it fires, carried out by the rules of
    Lib/Cascade.lean; `act_db`: apart from them it is the plain update;
  * `runTriggers_isSome` -- no run exceeds the nesting limit;
  * `trigger_modes_differ` -- **the two modes part at the end of stage 3**: the second trigger on
    `^gntp` sets `^bntp`, whose own trigger goes on to `^cntp` and `^dntp`.
-/
import YottaTest.Imptp.Own
import YottaTest.Lib.Cascade

namespace YottaTest.Imptp

open YottaTest.Lib YottaTest.M

/-! ## 1. The trigger files -/

/-- What updates and triggers work on: the database and `$ztwormhole`. -/
structure TrigState where
  db : Db
  ztwormhole : Val

/-- A value used as a subscript. -/
def asSub : Val → Sub
  | .num n => .num n
  | .str s => .str s

/-- A subscript used as a value. -/
def asVal : Sub → Val
  | .num n => .num n
  | .str s => .str s

/-- `$ZTUPDATE` for the delimiter "|": the pieces in which the values differ. -/
def ztupdate (old new : MStr) : List Nat :=
  ((List.range (max (numPieces bar old) (numPieces bar new))).map (· + 1)).filter fun k =>
    piece bar old k ≠ piece bar new k

/-- `for ztup=1:1:… set $piece(x,ztdelim,update)=$piece(new,ztdelim,update)`. -/
def copyPieces (x new : MStr) (updates : List Nat) : MStr :=
  updates.foldl (fun x update => setPiece bar x update (piece bar new update)) x

/-- The SET triggers, with `$ztoldvalue` and `$ztvalue`. `first` tells which of the two triggers
    on `^gntp` fires first. -/
def onSet (first : Bool) (n : GNode) (ztoldvalue ztvalue : Val) (st : TrigState) : List Cmd :=
  let ztworm := asSub st.ztwormhole
  let put (g : Gvn) (subs : List Sub) : Cmd := .set ⟨g, subs⟩ (.lit ztvalue)
  match n.gvn, n.subs with
  | .arandom, [subs, J] =>
      [put .brandomv [subs, J], put .hrandomvariableinimptpfilling [subs, J]]
  | .brandomv, [subs] => [put .crandomva [subs]]
  | .brandomv, [subs, J] =>
      [put .crandomva [subs, J], put .grandomvariableinimptpfill [subs, J]]
  | .crandomva, [subs, J] =>
      [put .drandomvariable [subs, J], put .frandomvariableinimptp [subs, J]]
  | .drandomvariable, [subs] =>
      [put .erandomvariableimptp [subs], put .frandomvariableinimptp [subs]]
  | .drandomvariable, [subs, J] => [put .erandomvariableimptp [subs, J]]
  | .grandomvariableinimptpfill, [subs] => [put .hrandomvariableinimptpfilling [subs]]
  | .hrandomvariableinimptpfilling, [subs] => [put .irandomvariableinimptpfillprgrm [subs]]
  | .hrandomvariableinimptpfilling, [subs, J] => [put .irandomvariableinimptpfillprgrm [subs, J]]
  | .jrandomvariableinimptpfillprogram, [I] => [put .jrandomvariableinimptpfillprogram [I, I]]
  | .jrandomvariableinimptpfillprogram, [I, J] =>
      [put .jrandomvariableinimptpfillprogram [I, J, ztworm]]
  | .antp, [_] => [put .bntp [ztworm]]
  | .bntp, [_] => [put .cntp [ztworm]]
  | .cntp, [_] => [.set ⟨.dntp, [ztworm]⟩ (.lit (.str (lit "somejunk")))]
  | .entp, [subs] => [.set ⟨.fntp, [subs]⟩ (.lit (.str (ztvalue.toStr ++ lit "suffix")))]
  | .gntp, [subs] =>
      if first then [put .hntp [subs], put .intp [subs]] ++ [put .bntp [subs]]
      else [put .bntp [subs]] ++ [put .hntp [subs], put .intp [subs]]
  | .andxarr, [jobno, loop] =>
      -- "avoid repeating SET done in imptpztr.trg"
      if ztoldvalue.toStr = ztvalue.toStr then []
      else [put .bndxarr [jobno, loop], put .cndxarr [jobno, loop], put .endxarr [jobno, loop],
        put .indxarr [jobno, loop]]
  | .cndxarr, [jobno, loop] => [put .dndxarr [jobno, loop]]
  | .endxarr, [jobno, loop] => [put .fndxarr [jobno, loop], put .hndxarr [jobno, loop]]
  | .fndxarr, [jobno, loop] => [put .gndxarr [jobno, loop]]
  | .aspan, [I] =>
      let espan := (st.db.value ⟨.espan, [I]⟩).toStr
      [.set ⟨.espan, [I]⟩ (.lit (.str
        (copyPieces espan ztvalue.toStr (ztupdate ztoldvalue.toStr ztvalue.toStr))))]
  | .espan, [I] =>
      let bspan := (st.db.value ⟨.bspan, [I]⟩).toStr
      let nopad := dropBlanks ztvalue.toStr
      [.set ⟨.bspan, [I]⟩ (.lit (.str
        (copyPieces bspan nopad (ztupdate ztoldvalue.toStr ztvalue.toStr))))]
  | _, _ => []

/-- The KILL triggers. -/
def onKill (n : GNode) : List Cmd :=
  match n.gvn, n.subs with
  | .arandom, [subs, .num 1] =>
      [.kill ⟨.brandomv, [subs, .num 1]⟩, .kill ⟨.irandomvariableinimptpfillprgrm, [subs, .num 1]⟩]
  | .brandomv, [subs, .num 1] =>
      [.kill ⟨.crandomva, [subs, .num 1]⟩, .kill ⟨.frandomvariableinimptp, [subs, .num 1]⟩,
        .kill ⟨.grandomvariableinimptpfill, [subs, .num 1]⟩]
  | .crandomva, [subs, .num 1] => [.kill ⟨.drandomvariable, [subs, .num 1]⟩]
  | .drandomvariable, [subs, .num 1] => [.kill ⟨.erandomvariableimptp, [subs, .num 1]⟩]
  | .grandomvariableinimptpfill, [subs, .num 1] =>
      [.kill ⟨.hrandomvariableinimptpfilling, [subs, .num 1]⟩]
  | .antp, [subs] => [.kill ⟨.bntp, [subs]⟩]
  | .bntp, [subs] => [.zkill ⟨.brandomv, [subs, .num 1]⟩, .zkill ⟨.cntp, [subs]⟩]
  | _, _ => []

/-- The ZKILL triggers. -/
def onZkill (n : GNode) : List Cmd :=
  match n.gvn, n.subs with
  | .jrandomvariableinimptpfillprogram, [I] => [.zkill ⟨.jrandomvariableinimptpfillprogram, [I, I]⟩]
  | .cntp, [subs] => [.zkill ⟨.dntp, [subs]⟩]
  | _, _ => []

/-- The ZTRIGGER triggers of imptpztr.trg. -/
def onZtrigger (n : GNode) (st : TrigState) : List Cmd :=
  match n.gvn, n.subs with
  | .lasti, [jobno, loop] => [.set ⟨.lasti, [jobno]⟩ (.lit (asVal loop))]
  | .andxarr, [jobno, loop] => [.set ⟨.andxarr, [jobno, loop]⟩ (.lit st.ztwormhole)]
  | _, _ => []

/-! ## 2. Updates with their triggers -/

/-- A value stored in a node, and the SET triggers that fires. -/
def store (first : Bool) (n : GNode) (v : Val) (st : TrigState) : TrigState × List Cmd :=
  let st' : TrigState := { st with db := st.db.set n v }
  (st', onSet first n (st.db.value n) v st')

/-- A command's own effect, and what the triggers it fires issue. -/
def Cmd.act (first : Bool) : Cmd → TrigState → TrigState × List Cmd
  | .set n e, st => store first n (e.eval st.db) st
  | .setPiece n k source, st =>
      if k = 0 then (st, [])
      else store first n
        (.str (Lib.setPiece bar (st.db.value n).toStr k (st.db.value source).toStr)) st
  | .incr n k, st => store first n (.num ((st.db.value n).toNat + k)) st
  | .kill n, st => ({ st with db := st.db.kill n }, if st.db.data n then onKill n else [])
  | .zkill n, st =>
      ({ st with db := st.db.zkill n }, if (st.db.get n).isSome then onZkill n else [])
  | .ztwormhole v, st => ({ st with ztwormhole := v }, [])
  | .ztrigger n, st => (st, onZtrigger n st)
  | .dztrig _, st | .ztriggerItem _, st => (st, [])

/-- The deepest `$ZTLEVEL`. -/
def ztlevelMax : Nat := 127

/-- The updates of a worker on a database with the triggers of both files. -/
def runTriggers (first : Bool) (cs : List Cmd) (st : TrigState) : Option TrigState :=
  runCascade (Cmd.act first) ztlevelMax cs st

/-- **Apart from the triggers it fires, an update is the plain one.** -/
theorem act_db (first : Bool) (c : Cmd) (st : TrigState) :
    (c.act first st).1.db = c.exec st.db := by
  cases c with
  | setPiece n k source =>
      simp only [Cmd.act, Cmd.exec]
      split
      · rfl
      · rfl
  | _ => rfl

/-! ### Nesting -/

/-- How deep the SET triggers of a global can go, by its number of subscripts below `fillid`. -/
def setRank : Gvn → List Sub → Nat
  | .arandom, _ => 5
  | .brandomv, _ => 4
  | .crandomva, _ => 3
  | .drandomvariable, _ => 2
  | .grandomvariableinimptpfill, _ => 2
  | .hrandomvariableinimptpfilling, _ => 1
  | .jrandomvariableinimptpfillprogram, subs => 3 - subs.length
  | .antp, _ => 4
  | .bntp, _ => 3
  | .cntp, _ => 2
  | .entp, _ => 1
  | .gntp, _ => 4
  | .andxarr, _ => 4
  | .cndxarr, _ => 1
  | .endxarr, _ => 3
  | .fndxarr, _ => 1
  | .aspan, _ => 2
  | .espan, _ => 1
  | _, _ => 0

/-- The same for ZKILL. -/
def zkillRank : Gvn → List Sub → Nat
  | .jrandomvariableinimptpfillprogram, subs => 3 - subs.length
  | .cntp, _ => 1
  | _, _ => 0

/-- No trigger fires itself: what a command's triggers issue has a lower rank. -/
def Cmd.rank : Cmd → Nat
  | .set n _ | .setPiece n _ _ | .incr n _ | .kill n => setRank n.gvn n.subs
  | .zkill n => zkillRank n.gvn n.subs
  | .ztrigger _ => 5
  | .ztwormhole _ | .dztrig _ | .ztriggerItem _ => 0

theorem onSet_rank (first : Bool) (n : GNode) (ztoldvalue ztvalue : Val) (st : TrigState) :
    ∀ c ∈ onSet first n ztoldvalue ztvalue st, c.rank < setRank n.gvn n.subs := by
  obtain ⟨g, subs⟩ := n
  unfold onSet
  split
  case h_16 | h_17 => split <;> simp_all [Cmd.rank, setRank]
  all_goals simp_all [Cmd.rank, setRank]

theorem onKill_rank (n : GNode) : ∀ c ∈ onKill n, c.rank < setRank n.gvn n.subs := by
  obtain ⟨g, subs⟩ := n
  unfold onKill
  split
  all_goals simp_all [Cmd.rank, setRank, zkillRank]

theorem onZkill_rank (n : GNode) : ∀ c ∈ onZkill n, c.rank < zkillRank n.gvn n.subs := by
  obtain ⟨g, subs⟩ := n
  unfold onZkill
  split
  all_goals simp_all [Cmd.rank, zkillRank]

theorem onZtrigger_rank (n : GNode) (st : TrigState) : ∀ c ∈ onZtrigger n st, c.rank < 5 := by
  obtain ⟨g, subs⟩ := n
  unfold onZtrigger
  split
  all_goals simp [Cmd.rank, setRank]

theorem act_rank (first : Bool) (c : Cmd) (st : TrigState) :
    ∀ c' ∈ (c.act first st).2, c'.rank < c.rank := by
  cases c with
  | set n e => exact onSet_rank first n _ _ _
  | setPiece n k source =>
      simp only [Cmd.act]
      split
      · exact fun c' hc' => absurd hc' List.not_mem_nil
      · exact onSet_rank first n _ _ _
  | incr n k => exact onSet_rank first n _ _ _
  | kill n =>
      simp only [Cmd.act]
      split
      · exact onKill_rank n
      · exact fun c' hc' => absurd hc' List.not_mem_nil
  | zkill n =>
      simp only [Cmd.act]
      split
      · exact onZkill_rank n
      · exact fun c' hc' => absurd hc' List.not_mem_nil
  | ztrigger n => exact onZtrigger_rank n st
  | ztwormhole v => exact fun c' hc' => absurd hc' List.not_mem_nil
  | dztrig k => exact fun c' hc' => absurd hc' List.not_mem_nil
  | ztriggerItem r => exact fun c' hc' => absurd hc' List.not_mem_nil

theorem rank_le (c : Cmd) : c.rank ≤ ztlevelMax := by
  have hset : ∀ g subs, setRank g subs ≤ 5 := by
    intro g subs
    unfold setRank
    split <;> omega
  have hzkill : ∀ g subs, zkillRank g subs ≤ 3 := by
    intro g subs
    unfold zkillRank
    split <;> omega
  unfold ztlevelMax
  cases c with
  | set n e | setPiece n k source | incr n k | kill n =>
      exact (hset n.gvn n.subs).trans (by decide)
  | zkill n => exact (hzkill n.gvn n.subs).trans (by decide)
  | ztrigger n => exact show 5 ≤ 127 by decide
  | ztwormhole v | dztrig k | ztriggerItem r => exact Nat.zero_le _

/-- **No run exceeds the nesting limit.** -/
theorem runTriggers_isSome (first : Bool) (cs : List Cmd) (st : TrigState) :
    (runTriggers first cs st).isSome = true :=
  runCascade_isSome (act_rank first) (fun c _ => rank_le c) st

/-! ### `$ztwormhole` -/

theorem onSet_ne_ztwormhole (first : Bool) (n : GNode) (ztoldvalue ztvalue : Val) (st : TrigState)
    (v : Val) : ∀ c ∈ onSet first n ztoldvalue ztvalue st, c ≠ .ztwormhole v := by
  obtain ⟨g, subs⟩ := n
  unfold onSet
  split
  case h_16 | h_17 => split <;> simp
  all_goals simp

theorem onKill_ne_ztwormhole (n : GNode) (v : Val) : ∀ c ∈ onKill n, c ≠ .ztwormhole v := by
  unfold onKill
  split
  all_goals simp

theorem onZkill_ne_ztwormhole (n : GNode) (v : Val) : ∀ c ∈ onZkill n, c ≠ .ztwormhole v := by
  unfold onZkill
  split
  all_goals simp

theorem onZtrigger_ne_ztwormhole (n : GNode) (st : TrigState) (v : Val) :
    ∀ c ∈ onZtrigger n st, c ≠ .ztwormhole v := by
  unfold onZtrigger
  split
  all_goals simp

/-- Only the worker's own command sets `$ztwormhole`. -/
theorem act_ztwormhole (first : Bool) (c : Cmd) (st : TrigState) (hc : ∀ v, c ≠ .ztwormhole v) :
    (c.act first st).1.ztwormhole = st.ztwormhole ∧
      ∀ c' ∈ (c.act first st).2, ∀ v, c' ≠ .ztwormhole v := by
  have hnil : ∀ c' ∈ ([] : List Cmd), ∀ v, c' ≠ .ztwormhole v :=
    fun c' hc' => absurd hc' List.not_mem_nil
  cases c with
  | set n e => exact ⟨rfl, fun c' hc' v => onSet_ne_ztwormhole first n _ _ _ v c' hc'⟩
  | setPiece n k source =>
      simp only [Cmd.act]
      split
      · exact ⟨rfl, hnil⟩
      · exact ⟨rfl, fun c' hc' v => onSet_ne_ztwormhole first n _ _ _ v c' hc'⟩
  | incr n k => exact ⟨rfl, fun c' hc' v => onSet_ne_ztwormhole first n _ _ _ v c' hc'⟩
  | kill n =>
      refine ⟨rfl, ?_⟩
      simp only [Cmd.act]
      split
      · exact fun c' hc' v => onKill_ne_ztwormhole n v c' hc'
      · exact hnil
  | zkill n =>
      refine ⟨rfl, ?_⟩
      simp only [Cmd.act]
      split
      · exact fun c' hc' v => onZkill_ne_ztwormhole n v c' hc'
      · exact hnil
  | ztrigger n => exact ⟨rfl, fun c' hc' v => onZtrigger_ne_ztwormhole n st v c' hc'⟩
  | ztwormhole v => exact absurd rfl (hc v)
  | dztrig k => exact ⟨rfl, hnil⟩
  | ztriggerItem r => exact ⟨rfl, hnil⟩

/-- **What the worker put into `$ztwormhole` stays there.** -/
theorem runTriggers_ztwormhole {first : Bool} {cs : List Cmd} (hcs : ∀ c ∈ cs, ∀ v, c ≠ .ztwormhole v)
    {st st' : TrigState} (h : runTriggers first cs st = some st') :
    st'.ztwormhole = st.ztwormhole :=
  runCascade_keeps (I := fun t => t.ztwormhole = st.ztwormhole)
    (Q := fun c => ∀ v, c ≠ .ztwormhole v)
    (fun c t hc ht =>
      ⟨(act_ztwormhole first c t hc).1.trans ht, (act_ztwormhole first c t hc).2⟩) hcs rfl h

/-! ## 3. Stage 3 in the two modes -/

/-- The globals the test is about: neither the worker's local variable nor the notes of restarts
    and of the stop. -/
def Gvn.application : Gvn → Bool
  | .subpiece | .zdummy | .dummy | .dummynoop | .endloop => false
  | _ => true

/-- Two databases with the same application globals. -/
def SameApplication (d d' : Db) : Prop :=
  ∀ n : GNode, n.gvn.application = true → d.get n = d'.get n

/-- The updates of an iteration up to a boundary: `k` parts, of which the first is the one before
    stage 1. -/
def boundaryCmds (cfg : Config) (jobno loop I : Nat) (ch : Chance) (k : Nat) : List Cmd :=
  cmds ((iteration cfg jobno loop I ch).take k)

def somejunk : Val := .str (lit "somejunk")

/-- The cascade of `^bntp`: on to `^cntp` and `^dntp`, at `$ztwormhole`. -/
theorem cascade_bntp (first : Bool) (depth : Nat) (s : Sub) (v : Val) (st : TrigState) :
    cascade (Cmd.act first) (depth + 2) (.set ⟨.bntp, [s]⟩ (.lit v)) st =
      some ⟨((st.db.set ⟨.bntp, [s]⟩ v).set ⟨.cntp, [asSub st.ztwormhole]⟩ v).set
        ⟨.dntp, [asSub st.ztwormhole]⟩ somejunk, st.ztwormhole⟩ := by
  rw [cascade_succ]
  simp only [Cmd.act, store, onSet, Expr.eval, runCascade_cons, runCascade_nil, cascade_succ]
  rw [cascade_of_nil rfl]
  rfl

/-- **A SET of `^gntp` ends with junk in `^dntp`**, in either order of its two triggers. -/
theorem get_dntp_of_gntp {first : Bool} {s v : MStr} {st st' : TrigState}
    (h : runTriggers first [setStr (strNode .gntp s) v] st = some st') :
    st'.db.get ⟨.dntp, [asSub st.ztwormhole]⟩ = some somejunk := by
  have hne : ∀ (g : Gvn) (subs subs' : List Sub), g ≠ .dntp →
      (⟨.dntp, subs⟩ : GNode) ≠ ⟨g, subs'⟩ := fun g subs subs' hg he => hg (congrArg Node.gvn he).symm
  -- neither trigger's other updates fire anything
  have hplain : ∀ (g : Gvn) (x : Val) (t : TrigState), g = .hntp ∨ g = .intp →
      cascade (Cmd.act first) (ztlevelMax - 1) (.set ⟨g, [.str s]⟩ (.lit x)) t =
        some { t with db := t.db.set ⟨g, [.str s]⟩ x } := by
    intro g x t hg
    rcases hg with rfl | rfl
    · exact cascade_of_nil rfl _
    · exact cascade_of_nil rfl _
  have hb := fun t => cascade_bntp first (ztlevelMax - 3) (.str s) (.str v) t
  rw [runTriggers, runCascade_cons, setStr, strNode] at h
  change Option.bind (runCascade (Cmd.act first) (ztlevelMax - 1) _ _) _ = _ at h
  cases first with
  | true =>
      simp only [Cmd.act, store, onSet, Expr.eval, if_true, List.cons_append, List.nil_append,
        runCascade_cons, runCascade_nil, hplain _ _ _ (Or.inl rfl), hplain _ _ _ (Or.inr rfl),
        Option.bind_some] at h
      rw [show ztlevelMax - 1 = ztlevelMax - 3 + 2 from rfl, hb] at h
      rw [← Option.some.inj h]
      exact Table.get_set_self _ _ _
  | false =>
      simp only [Cmd.act, store, onSet, Expr.eval, Bool.false_eq_true, if_false, List.cons_append,
        List.nil_append, runCascade_cons, runCascade_nil] at h
      rw [show ztlevelMax - 1 = ztlevelMax - 3 + 2 from rfl, hb] at h
      simp only [Option.bind_some] at h
      rw [show ztlevelMax - 3 + 2 = ztlevelMax - 1 from rfl] at h
      simp only [hplain _ _ _ (Or.inl rfl), hplain _ _ _ (Or.inr rfl), Option.bind_some] at h
      rw [← Option.some.inj h, Table.get_set_of_ne _ _ (hne _ _ _ (by decide)),
        Table.get_set_of_ne _ _ (hne _ _ _ (by decide))]
      exact Table.get_set_self _ _ _

/-- A list of updates that sets `$ztwormhole` to one value only leaves it there. -/
theorem runTriggers_ztwormhole_of_mem {first : Bool} {w : Val} : ∀ {cs : List Cmd},
    (∀ c ∈ cs, ∀ v, c = .ztwormhole v → v = w) → .ztwormhole w ∈ cs →
    ∀ {st st' : TrigState}, runTriggers first cs st = some st' → st'.ztwormhole = w
  | [], _, hmem, _, _, _ => absurd hmem List.not_mem_nil
  | c :: cs, hall, hmem, st, st', h => by
      rw [runTriggers, runCascade_cons] at h
      obtain ⟨t, ht, hrest⟩ := Option.bind_eq_some_iff.1 h
      have hall' : ∀ b ∈ cs, ∀ v, b = .ztwormhole v → v = w :=
        fun b hb => hall b (List.mem_cons_of_mem _ hb)
      by_cases hlater : .ztwormhole w ∈ cs
      · exact runTriggers_ztwormhole_of_mem hall' hlater hrest
      · obtain rfl : .ztwormhole w = c := (List.mem_cons.1 hmem).resolve_right hlater
        have hno : ∀ b ∈ cs, ∀ v, b ≠ .ztwormhole v := by
          intro b hb v hbv
          rw [hall' b hb v hbv] at hbv
          exact hlater (hbv ▸ hb)
        rw [cascade_of_nil rfl] at ht
        have hw : t.ztwormhole = w := by
          rw [← Option.some.inj ht]
          rfl
        exact (runTriggers_ztwormhole hno hrest).trans hw

section Modes

variable (cfg : Config) (jobno loop I : Nat) (ch : Chance)

theorem boundaryCmds_three : boundaryCmds cfg jobno loop I ch 4 =
    cfg.doDztrig 1 ++ stage1 cfg jobno loop I ch ++ stage2 cfg loop I ch ++ stage3 cfg loop I := by
  simp [boundaryCmds, iteration, cmds]

/-- With triggers, stage 3 ends with the SET of `^gntp`. -/
theorem stage3_trigger : stage3 { cfg with trigger := 1 } loop I =
    [setStr (strNode .entp (cfg.subs I)) (cfg.val loop),
      .set (strNode .fntp (cfg.subs I)) (.dropSuffix (strNode .fntp (cfg.subs I)))]
      ++ [setStr (strNode .gntp (cfg.subsMAX I)) (cfg.valMAX loop)] := rfl

/-- With triggers, `$ztwormhole` is set to `subs` and to nothing else. -/
theorem ztwormhole_stage1 : ∀ c ∈ stage1 { cfg with trigger := 1 } jobno loop I ch, ∀ v,
    c = .ztwormhole v → v = .str (cfg.subs I) := by
  intro c hc v hv
  subst hv
  simp [stage1, setStr, setNum, noop, Config.noTrigger, Config.ztr] at hc
  exact hc

theorem ztwormhole_mem_stage1 :
    .ztwormhole (.str (cfg.subs I)) ∈ stage1 { cfg with trigger := 1 } jobno loop I ch := by
  simp [stage1, Config.subs]

theorem ztwormhole_stage2 : ∀ c ∈ stage2 { cfg with trigger := 1 } loop I ch, ∀ v,
    c ≠ .ztwormhole v := by
  intro c hc v hv
  subst hv
  simp [stage2, setStr] at hc

/-- Without triggers, `^dntp` keeps to the end of stage 3 what stage 2 sets it to. -/
theorem get_dntp_plain (d : Db) :
    (run Cmd.exec (boundaryCmds { cfg with trigger := 0 } jobno loop I ch 4) d).get
      (strNode .dntp (cfg.subs I)) = some (.str (cfg.valALT loop)) := by
  have hsplit : boundaryCmds { cfg with trigger := 0 } jobno loop I ch 4 =
      (stage1 { cfg with trigger := 0 } jobno loop I ch
        ++ [setStr (strNode .antp (cfg.subs I)) (cfg.val loop),
          setStr (strNode .bntp (cfg.subs I)) (cfg.val loop),
          setStr (strNode .cntp (cfg.subs I)) (cfg.val loop)])
        ++ setStr (strNode .dntp (cfg.subs I)) (cfg.valALT loop)
          :: stage3 { cfg with trigger := 0 } loop I := by
    rw [boundaryCmds_three]
    simp [stage2, Config.doDztrig, Config.dztrig, Config.subs, Config.val, Config.valALT,
      Config.valMAX, Config.recpad]
  have hstage3 : ∀ b ∈ stage3 { cfg with trigger := 0 } loop I,
      ¬ b.writes (strNode .dntp (cfg.subs I)) := by
    simp [stage3, Config.doDztrig, Config.dztrig, Config.noTrigger, setStr, Cmd.writes, Cmd.target,
      strNode]
  rw [hsplit, run_last cmd_footprint _ _ hstage3]
  exact Table.get_set_self _ _ _

/-- With triggers, it ends as junk. -/
theorem get_dntp_trigger {first : Bool} {st st' : TrigState}
    (h : runTriggers first (boundaryCmds { cfg with trigger := 1 } jobno loop I ch 4) st =
      some st') :
    st'.db.get (strNode .dntp (cfg.subs I)) = some somejunk := by
  rw [boundaryCmds_three, stage3_trigger, ← List.append_assoc, runTriggers,
    runCascade_append] at h
  obtain ⟨t, ht, h⟩ := Option.bind_eq_some_iff.1 h
  have hworm : t.ztwormhole = .str (cfg.subs I) := by
    refine runTriggers_ztwormhole_of_mem (fun c hc v hv => ?_) ?_ ht
    · rcases List.mem_append.1 hc with hc | hc
      · rcases List.mem_append.1 hc with hc | hc
        · exact ztwormhole_stage1 cfg jobno loop I ch c hc v hv
        · exact absurd hv (ztwormhole_stage2 cfg loop I ch c hc v)
      · subst hv
        simp [setStr] at hc
    · exact List.mem_append_left _ (List.mem_append_left _ (ztwormhole_mem_stage1 cfg jobno loop I ch))
  have hget := get_dntp_of_gntp h
  rw [hworm] at hget
  exact hget

/-! ### The junk is no value -/

theorem headCode_justify (s : MStr) (n : Int) :
    headCode (justify s n) = headCode s ∨ headCode (justify s n) = 32 := by
  unfold justify
  cases (n - s.length).toNat with
  | zero => exact Or.inl rfl
  | succ k => exact Or.inr rfl

/-- No generated string begins with "s". -/
theorem headCode_ugenstr_ne (cs : Chset) (int : Nat) : headCode (ugenstr cs int) ≠ 115 := by
  by_cases hint : int = 0
  · subst hint
    cases cs <;> decide
  · have hrange := headCode_ugenstr cs hint
    cases cs with
    | m =>
        have hout : ∀ r : Fin 13, (headRange .m r).2 < 115 := by decide
        have hr : (headRange .m (residue .m int)).2 < 115 := hout ⟨_, residue_lt .m int⟩
        omega
    | utf8 =>
        by_cases h4 : int % 13 = 4
        · simp only [ugenstr, h4]
          have hpart := headCode_part_eq (int % 61) (natStr int)
          omega
        · have hout : ∀ r : Fin 13, r ≠ 4 → (headRange .utf8 r).2 < 115 ∨
              115 < (headRange .utf8 r).1 := by decide
          have hr : (headRange .utf8 (residue .utf8 int)).2 < 115 ∨
              115 < (headRange .utf8 (residue .utf8 int)).1 :=
            hout ⟨_, residue_lt .utf8 int⟩ fun h => h4 (Fin.mk.inj h)
          omega

theorem valALT_ne_somejunk : Val.str (cfg.valALT loop) ≠ somejunk := by
  intro h
  have hs : headCode (cfg.valALT loop) = 115 := by
    rw [Val.str.inj h]
    decide
  have hval : headCode (cfg.val loop) ≠ 115 := headCode_ugenstr_ne cfg.chset loop
  unfold Config.valALT Config.valMAX at hs
  split at hs
  · have hjust := headCode_justify (cfg.val loop) (cfg.recpad loop)
    omega
  · exact hval hs

/-! ### The modes -/

/-- **The two modes of the worker part.** Whatever two databases an iteration finds, with triggers
    it does not leave the same application globals as without at every boundary: at the end of
    stage 3 `^dntp(fillid,subs)` is junk in one mode only. -/
theorem trigger_modes_differ (first : Bool) (st : TrigState) (d : Db) :
    ¬ ∀ k ≤ (iteration cfg jobno loop I ch).length, ∀ st',
      runTriggers first (boundaryCmds { cfg with trigger := 1 } jobno loop I ch k) st = some st' →
        SameApplication st'.db
          (run Cmd.exec (boundaryCmds { cfg with trigger := 0 } jobno loop I ch k) d) := by
  intro hsame
  obtain ⟨st', hrun⟩ := Option.isSome_iff_exists.1
    (runTriggers_isSome first (boundaryCmds { cfg with trigger := 1 } jobno loop I ch 4) st)
  have hlen : 4 ≤ (iteration cfg jobno loop I ch).length := by
    simp [iteration]
  have hdntp := hsame 4 hlen st' hrun (strNode .dntp (cfg.subs I)) rfl
  rw [get_dntp_trigger cfg jobno loop I ch hrun, get_dntp_plain] at hdntp
  exact valALT_ne_somejunk cfg loop (Option.some.inj hdntp).symm

end Modes

/-- One iteration in M mode: job 1, loop 1, index 1, key size 4, record size 8. -/
def divergingRun : Config where
  jobcnt := 1
  istp := 1
  trigger := 1
  crash := 0
  gtcm := 0
  span := 1
  keysize := 4
  recsize := 8
  chset := .m

def divergingChance : Chance where
  rndm1 := 0
  trestart1 := 0
  rndm2 := 9
  item2 := 0
  rndm5 := 0
  trestart5 := 0
  flag := 0
  job := 1
  horolog := []
  cputim := 0

/-- On an empty database the two modes differ after stage 3. -/
theorem trigger_modes_differ_once :
    ¬ ∀ (cfg : Config) (jobno loop I : Nat) (ch : Chance) (first : Bool) (st : TrigState),
      ∀ k ≤ (iteration cfg jobno loop I ch).length, ∀ st',
        runTriggers first (boundaryCmds { cfg with trigger := 1 } jobno loop I ch k) st = some st' →
          SameApplication st'.db
            (run Cmd.exec (boundaryCmds { cfg with trigger := 0 } jobno loop I ch k) st.db) := by
  intro h
  have hrun : (runTriggers true (boundaryCmds divergingRun 1 1 1 divergingChance 4)
      ⟨Table.empty, .str []⟩).isSome = true := by decide
  obtain ⟨st', hst⟩ := Option.isSome_iff_exists.1 hrun
  have hsame := h divergingRun 1 1 1 divergingChance true ⟨Table.empty, .str []⟩ 4 (by decide) st' hst
    (strNode .dntp (divergingRun.subs 1)) rfl
  have htrig : (runTriggers true (boundaryCmds divergingRun 1 1 1 divergingChance 4)
      ⟨Table.empty, .str []⟩).map (fun st => st.db.get (strNode .dntp (divergingRun.subs 1))) =
        some (some somejunk) := by decide
  have hplain : (run Cmd.exec (boundaryCmds { divergingRun with trigger := 0 } 1 1 1
      divergingChance 4) Table.empty).get (strNode .dntp (divergingRun.subs 1)) ≠
        some somejunk := by decide
  rw [hst] at htrig
  exact hplain (hsame.symm.trans (Option.some.inj htrig))

end YottaTest.Imptp
