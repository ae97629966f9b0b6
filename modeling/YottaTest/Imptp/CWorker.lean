/-
  File:      YottaTest/Imptp/CWorker.lean
  Subject:   simpleapi_imptp.c: the updates of the worker in C.

  The subscripts of all calls are in one array, `subscr`, whose entries are filled only where they
  differ from the call before; `subscr[0]` has `fillid` from the first stage on. Buffers.lean has the
  sizes of the buffers, and a text that is too long for its buffer ends the program. The texts of an
  iteration are made by `helper1`.

  * `put`, `copyBuff`, `sprintf`, `ydb_set_s` -- the operations; `tpfn_stage1`, `tpfn_stage3`, `turn` -- the
    code of a turn of the loop;
  * `Filled` -- what the buffers hold once `helper1` has been called;
  * `emits_stage1`, `emits_stage2`, `emits_stage3` -- each stage makes the updates of the M worker;
  * `c_turns_eq_iff` -- **if the texts fit, all runs of the two workers agree iff `istp & crash` means what
    it does in M.**
-/
import YottaTest.Imptp.Buffers
import YottaTest.Imptp.Helpers
import YottaTest.Lib.Emit

namespace YottaTest.Imptp.CWorker

open YottaTest.Lib YottaTest.M

/-! ## 1. The code -/

scoped instance subscrSize : NeZero 8 := ⟨Nat.succ_ne_zero 7⟩

/-- What the buffers hold. -/
abbrev Bufs := Buffer → MStr

abbrev Code := List (Emit Bufs Upd)

/-- A text into a buffer, where it has to fit. -/
def put (cs : Chset) (dst : Buffer) (s : MStr) (b : Bufs) : Option Bufs :=
  if zlength cs s ≤ dst.len_alloc then some (Function.update b dst s) else none

/-- `ydb_set_s(&g, n, &subscr[first], &v)`, for the entries from `first` on. -/
def ydb_set_s (g : Gvn) (entries : List (Fin 8)) (v : Buffer) : Emit Bufs Upd :=
  .call fun b => [.set g (entries.map fun i => b (.subscr i)) (b v)]

section Code

variable (cfg : Config) (fillid : MStr) (jobno : Nat) (t : Turn)

/-- `YDB_COPY_BUFF_TO_BUFF(&src, &dst)`, which has to succeed. -/
def copyBuff (src dst : Buffer) : Emit Bufs Upd := .store fun b => put cfg.chset dst (b src) b

/-- `dst.len_used = sprintf(dst.buf_addr, ...)`, or a value that a call returns in `dst`. -/
def sprintf (dst : Buffer) (s : MStr) : Emit Bufs Upd := .store (put cfg.chset dst s)

/-- `ydb_cip(&..._cid)`: an M routine. -/
def ydb_cip (cs : List Cmd) : Emit Bufs Upd := .call fun _ => cs.map (Cmd.upd fillid t.fntpRead)

def tpfn_stage1 : Code :=
  [sprintf cfg (.subscr 0) fillid, copyBuff cfg .ybuff_subsMAX (.subscr 1), ydb_set_s .arandom [0, 1] .ybuff_val]
    ++ (if cfg.istp &&& cfg.crash ≠ 0 then
          [sprintf cfg .value (natStr t.ch.trestart1)]
          ++ (if 2 < t.ch.trestart1 then
                (if t.ch.rndm1 = 1 then [ydb_cip fillid t (noop jobno t.loop t.ch)] else [])
              else [])
          ++ (if t.ch.trestart1 ≠ 0 then
                [copyBuff cfg .value (.subscr 2), sprintf cfg .value (natStr jobno), ydb_set_s .zdummy [2] .value]
              else [])
        else [])
    ++ [ydb_set_s .brandomv [0, 1] .ybuff_valALT]
    ++ (if cfg.trigger = 0 then [ydb_set_s .crandomva [0, 1] .ybuff_valALT] else [])
    ++ [copyBuff cfg .ybuff_subs (.subscr 1), ydb_set_s .drandomvariable [0, 1] .ybuff_valALT]
    ++ (if cfg.trigger = 0 then
          [ydb_set_s .erandomvariableimptp [0, 1] .ybuff_valALT,
            ydb_set_s .frandomvariableinimptp [0, 1] .ybuff_valALT]
        else [])
    ++ [ydb_set_s .grandomvariableinimptpfill [0, 1] .ybuff_val]
    ++ (if cfg.trigger = 0 then
          [ydb_set_s .hrandomvariableinimptpfilling [0, 1] .ybuff_val,
            ydb_set_s .irandomvariableinimptpfillprgrm [0, 1] .ybuff_val]
        else [ydb_cip fillid t (ztwormstr cfg t.I)])
    ++ [copyBuff cfg .ybuff_I (.subscr 1), ydb_set_s .jrandomvariableinimptpfillprogram [0, 1] .ybuff_val]
    ++ (if cfg.trigger = 0 then
          [copyBuff cfg .ybuff_I (.subscr 2), ydb_set_s .jrandomvariableinimptpfillprogram [0, 1, 2] .ybuff_val,
            copyBuff cfg .ybuff_subs (.subscr 3),
            ydb_set_s .jrandomvariableinimptpfillprogram [0, 1, 2, 3] .ybuff_val]
        else [])
    ++ (if cfg.istp ≠ 0 then
          (if cfg.ztr then [ydb_cip fillid t (ztrcmd jobno t.loop)] else [])
          ++ [sprintf cfg (.subscr 1) (natStr jobno), sprintf cfg .value (natStr t.loop),
            ydb_set_s .lasti [0, 1] .value]
        else [])

/-- Stage 2. -/
def stage2 : Code :=
  [ydb_cip fillid t (helper2 cfg t.ch), copyBuff cfg .ybuff_subs (.subscr 1), ydb_set_s .antp [0, 1] .ybuff_val]
    ++ (if cfg.trigger = 0 then [ydb_set_s .bntp [0, 1] .ybuff_val, ydb_set_s .cntp [0, 1] .ybuff_val] else [])
    ++ [ydb_set_s .dntp [0, 1] .ybuff_valALT]

/-- With triggers `^fntp` is read, and is to be 6 bytes long at least; where it is not, the
transaction is restarted, or the program ends. -/
def tpfn_stage3 : Code :=
  (if cfg.dztrig then [ydb_cip fillid t (imptpdztrig cfg)] else [])
    ++ [copyBuff cfg .ybuff_subs (.subscr 1), ydb_set_s .entp [0, 1] .ybuff_val]
    ++ (if cfg.trigger = 0 then [ydb_set_s .fntp [0, 1] .ybuff_val]
        else
          [sprintf cfg .value t.fntpRead, .assert fun b => 6 ≤ zlength cfg.chset (b .value),
            .act fun b => Function.update b .value (cutSuffix cfg.chset (b .value)),
            ydb_set_s .fntp [0, 1] .value])
    ++ [copyBuff cfg .ybuff_subsMAX (.subscr 1), ydb_set_s .gntp [0, 1] .ybuff_valMAX]
    ++ (if cfg.trigger = 0 then
          [ydb_set_s .hntp [0, 1] .ybuff_valMAX, ydb_set_s .intp [0, 1] .ybuff_valMAX,
            ydb_set_s .bntp [0, 1] .ybuff_valMAX]
        else [])

/-- `ydb_get_s(&ylcl_..., 0, NULL, &value)` and the copy into a buffer of its own. -/
def relay (s : MStr) (b : Buffer) : Code := [sprintf cfg .value s, copyBuff cfg .value b]

/-- The start of a turn: `I` and `loop` for `helper1`, and the texts that it has made of them. -/
def fill : Code :=
  [sprintf cfg .value (natStr t.I), sprintf cfg .value (natStr t.loop), ydb_cip fillid t (helper1 cfg)]
    ++ relay cfg (cfg.subsMAX t.I) .ybuff_subsMAX ++ relay cfg (cfg.val t.loop) .ybuff_val
    ++ relay cfg (cfg.valALT t.loop) .ybuff_valALT ++ relay cfg (cfg.valMAX t.loop) .ybuff_valMAX
    ++ relay cfg (cfg.subs t.I) .ybuff_subs ++ relay cfg (natStr t.I) .ybuff_I

/-- A turn of the loop. -/
def turn : Code :=
  fill cfg fillid t ++ tpfn_stage1 cfg fillid jobno t ++ stage2 cfg fillid t ++ tpfn_stage3 cfg fillid t
    ++ [ydb_cip fillid t (helper3 cfg jobno t.loop t.I t.ch)]

end Code

/-! ## 2. What the buffers hold -/

/-- The buffers with the texts of the iteration. -/
structure Filled (cfg : Config) (t : Turn) (b : Bufs) : Prop where
  subsMAX : b .ybuff_subsMAX = cfg.subsMAX t.I
  val : b .ybuff_val = cfg.val t.loop
  valALT : b .ybuff_valALT = cfg.valALT t.loop
  valMAX : b .ybuff_valMAX = cfg.valMAX t.loop
  subs : b .ybuff_subs = cfg.subs t.I
  I : b .ybuff_I = natStr t.I

/-- And `fillid` in the first entry of the array. -/
structure Ready (cfg : Config) (fillid : MStr) (t : Turn) (b : Bufs) : Prop extends Filled cfg t b where
  fillid : b (.subscr 0) = fillid

/-- And the second subscript. -/
structure At (cfg : Config) (fillid : MStr) (t : Turn) (x : MStr) (b : Bufs) : Prop
    extends Ready cfg fillid t b where
  second : b (.subscr 1) = x

section Stages

variable {cfg : Config} {fillid : MStr} {jobno : Nat} {t : Turn} {x y : MStr} {b : Bufs}

/-- The texts of the iteration stay in their buffers. -/
theorem Filled.update (hb : Filled cfg t b) {dst : Buffer} (s : MStr)
    (hdst : dst = .value ∨ ∃ i, dst = .subscr i) : Filled cfg t (Function.update b dst s) := by
  obtain rfl | ⟨i, rfl⟩ := hdst
  all_goals exact ⟨hb.subsMAX, hb.val, hb.valALT, hb.valMAX, hb.subs, hb.I⟩

theorem Ready.update (hb : Ready cfg fillid t b) {dst : Buffer} (s : MStr)
    (hdst : dst = .value ∨ ∃ i, i ≠ 0 ∧ dst = .subscr i) : Ready cfg fillid t (Function.update b dst s) := by
  refine ⟨hb.toFilled.update s (hdst.imp_right fun ⟨i, _, hi⟩ => ⟨i, hi⟩), ?_⟩
  rw [Function.update_of_ne, hb.fillid]
  obtain rfl | ⟨i, hi, rfl⟩ := hdst
  · nofun
  · exact fun h => hi (Buffer.subscr.inj h).symm

theorem At.update (hb : At cfg fillid t x b) {dst : Buffer} (s : MStr)
    (hdst : dst = .value ∨ ∃ i, i ≠ 0 ∧ i ≠ 1 ∧ dst = .subscr i) :
    At cfg fillid t x (Function.update b dst s) := by
  refine ⟨hb.toReady.update s (hdst.imp_right fun ⟨i, hi, _, hd⟩ => ⟨i, hi, hd⟩), ?_⟩
  rw [Function.update_of_ne, hb.second]
  obtain rfl | ⟨i, _, hi, rfl⟩ := hdst
  · nofun
  · exact fun h => hi (Buffer.subscr.inj h).symm

/-! The rules for single operations. -/

theorem put_eq {cs : Chset} {dst : Buffer} {s : MStr} (h : zlength cs s ≤ dst.len_alloc) (b : Bufs) :
    put cs dst s b = some (Function.update b dst s) := if_pos h

/-- Every buffer has room for what is short, and `value` and the subscripts for all. -/
theorem room_of_small {s : MStr} {cs : Chset} (h : zlength cs s ≤ MAXVALUELEN) (dst : Buffer) :
    zlength cs s ≤ dst.len_alloc := Nat.le_trans h dst.len_alloc_bounds.1

theorem emits_cip {P : Bufs → Prop} (cs : List Cmd) :
    Emits P [ydb_cip fillid t cs] (cs.map (Cmd.upd fillid t.fntpRead)) P := .call fun _ _ => rfl

/-- The first subscript is filled. -/
theorem emits_first (hf : Fits cfg fillid jobno t) :
    Emits (Filled cfg t) [sprintf cfg (.subscr 0) fillid] [] (Ready cfg fillid t) :=
  .store fun b hb => ⟨_, put_eq (room_of_small hf.fillid _) b,
    ⟨hb.update _ (.inr ⟨0, rfl⟩), Function.update_self ..⟩⟩

/-- The second subscript is filled. -/
theorem emits_second {src : Buffer} (hsrc : ∀ b, Filled cfg t b → b src = x)
    (hx : zlength cfg.chset x ≤ BIGMAXVALUELEN) :
    Emits (Ready cfg fillid t) [copyBuff cfg src (.subscr 1)] [] (At cfg fillid t x) := by
  refine .store fun b hb => ?_
  rw [hsrc b hb.toFilled]
  exact ⟨_, put_eq hx b, hb.update _ (.inr ⟨1, by decide, rfl⟩), Function.update_self ..⟩

/-- And filled again. -/
theorem emits_other {src : Buffer} (hsrc : ∀ b, Filled cfg t b → b src = y)
    (hy : zlength cfg.chset y ≤ BIGMAXVALUELEN) :
    Emits (At cfg fillid t x) [copyBuff cfg src (.subscr 1)] [] (At cfg fillid t y) :=
  (emits_second hsrc hy).mono (fun _ => At.toReady) fun _ h => h

/-- A SET with two subscripts. -/
theorem emits_set (g : Gvn) {v : Buffer} (hv : ∀ b, Filled cfg t b → b v = y) :
    Emits (At cfg fillid t x) [ydb_set_s g [0, 1] v] [.set g [fillid, x] y] (At cfg fillid t x) := by
  refine .call fun b hb => ?_
  rw [← hb.fillid, ← hb.second, ← hv b hb.toFilled]
  rfl

/-! ## 3. The stages -/

theorem emits_fill (hf : Fits cfg fillid jobno t) :
    Emits (fun _ => True) (fill cfg fillid t) ((helper1 cfg).map (Cmd.upd fillid t.fntpRead)) (Filled cfg t) := by
  intro b _
  have hbig : ∀ {s : MStr}, zlength cfg.chset s ≤ MAXVALUELEN → zlength cfg.chset s ≤ BIGMAXVALUELEN :=
    fun h => Nat.le_trans h (by decide)
  have h₁ := hf.subsMAX
  have h₂ := hf.val
  have h₃ := hf.valALT
  have h₄ := hf.valMAX
  have h₅ := hf.subs
  have h₆ := hf.I
  have h₇ := hf.loop
  simp only [fill, relay, sprintf, copyBuff, put, ydb_cip, List.cons_append, List.nil_append, Emit.run,
    Option.map_some, List.append_nil, Option.some.injEq, Prod.mk.injEq, true_and, exists_eq_left',
    Buffer.len_alloc, Function.update_self, h₁, h₂, h₃, h₄, h₅, h₆, hbig h₂, hbig h₃, hbig h₅, hbig h₆, hbig h₇,
    if_true, Option.bind_some]
  exact ⟨rfl, rfl, rfl, rfl, rfl, rfl⟩

theorem emits_stage2 (hf : Fits cfg fillid jobno t) : Emits (Ready cfg fillid t) (stage2 cfg fillid t)
    ((helper2 cfg t.ch ++ stage2Sets cfg t.loop t.I (cfg.valALT t.loop)).map (Cmd.upd fillid t.fntpRead))
    (At cfg fillid t (cfg.subs t.I)) := by
  have hval : ∀ b, Filled cfg t b → b .ybuff_val = cfg.val t.loop := fun _ => Filled.val
  unfold stage2
  refine .congr (.append (.append
    (.cons (emits_cip _) (.cons (emits_second (fun _ => Filled.subs) hf.subs_big) (emits_set _ hval)))
    (.when fun _ => .cons (emits_set _ hval) (emits_set _ hval)))
    (emits_set _ fun _ => Filled.valALT)) ?_
  by_cases htr : cfg.trigger = 0 <;> simp [stage2Sets, Config.noTrigger, htr]

/-- Stage 1, a try of the transaction that is not the first: `$TRESTART` is in `value`. -/
theorem emits_zdummy (hf : Fits cfg fillid jobno t) {r : Nat} (hr : zlength cfg.chset (natStr r) ≤ MAXVALUELEN) :
    Emits (fun b => At cfg fillid t x b ∧ b .value = natStr r)
    (if r ≠ 0 then
      [copyBuff cfg .value (.subscr 2), sprintf cfg .value (natStr jobno), ydb_set_s .zdummy [2] .value] else [])
    (if r ≠ 0 then [.set .zdummy [natStr r] (natStr jobno)] else []) (At cfg fillid t x) := by
  refine .branch (fun _ b hb => ?_) fun _ => .mono .nil (fun _ hb => hb) fun _ hb => hb.1
  refine ⟨_, ?_, (hb.1.update (natStr r) (.inr ⟨2, by decide, by decide, rfl⟩)).update (natStr jobno) (.inl rfl)⟩
  simp only [Emit.run, copyBuff, sprintf, ydb_set_s, hb.2, put_eq (room_of_small hr _),
    put_eq (room_of_small hf.jobno _), Option.bind_some]
  rfl

theorem emits_restart (hf : Fits cfg fillid jobno t) : Emits (At cfg fillid t x)
    ([sprintf cfg .value (natStr t.ch.trestart1)]
      ++ (if 2 < t.ch.trestart1 then
            (if t.ch.rndm1 = 1 then [ydb_cip fillid t (noop jobno t.loop t.ch)] else [])
          else [])
      ++ (if t.ch.trestart1 ≠ 0 then
            [copyBuff cfg .value (.subscr 2), sprintf cfg .value (natStr jobno), ydb_set_s .zdummy [2] .value]
          else []))
    ((restarted jobno t.loop t.ch).map (Cmd.upd fillid t.fntpRead)) (At cfg fillid t x) := by
  refine .congr (.append (.append
    (.store fun b hb => ⟨_, put_eq (room_of_small hf.trestart1 _) b,
      hb.update _ (.inl rfl), Function.update_self ..⟩)
    (.when fun _ => .when fun _ => emits_cip _)) (emits_zdummy hf hf.trestart1)) ?_
  by_cases h2 : 2 < t.ch.trestart1 <;> by_cases h1 : t.ch.rndm1 = 1 <;> by_cases h0 : t.ch.trestart1 = 0 <;>
    simp [restarted, h0, h1, h2]

/-- Stage 1, the nodes with three and four subscripts. -/
theorem emits_nested (hf : Fits cfg fillid jobno t) : Emits (At cfg fillid t (natStr t.I))
    [copyBuff cfg .ybuff_I (.subscr 2), ydb_set_s .jrandomvariableinimptpfillprogram [0, 1, 2] .ybuff_val,
      copyBuff cfg .ybuff_subs (.subscr 3),
      ydb_set_s .jrandomvariableinimptpfillprogram [0, 1, 2, 3] .ybuff_val]
    [.set .jrandomvariableinimptpfillprogram [fillid, natStr t.I, natStr t.I] (cfg.val t.loop),
      .set .jrandomvariableinimptpfillprogram [fillid, natStr t.I, natStr t.I, cfg.subs t.I] (cfg.val t.loop)]
    (At cfg fillid t (natStr t.I)) := by
  intro b hb
  refine ⟨_, ?_, (hb.update (natStr t.I) (.inr ⟨2, by decide, by decide, rfl⟩)).update (cfg.subs t.I)
    (.inr ⟨3, by decide, by decide, rfl⟩)⟩
  have hI := put_eq (room_of_small hf.I (.subscr 2))
  have hsubs := put_eq (room_of_small hf.subs (.subscr 3))
  simp [Emit.run, copyBuff, ydb_set_s, hb.fillid, hb.second, hb.val, hb.I, hb.subs, hI, hsubs]

/-- Stage 1, `^lasti`. -/
theorem emits_lasti (hf : Fits cfg fillid jobno t) : Emits (At cfg fillid t x)
    ((if cfg.ztr then [ydb_cip fillid t (ztrcmd jobno t.loop)] else [])
      ++ [sprintf cfg (.subscr 1) (natStr jobno), sprintf cfg .value (natStr t.loop),
        ydb_set_s .lasti [0, 1] .value])
    ((if cfg.ztr then (ztrcmd jobno t.loop).map (Cmd.upd fillid t.fntpRead) else [])
      ++ [.set .lasti [fillid, natStr jobno] (natStr t.loop)]) (Ready cfg fillid t) := by
  refine .append (.when fun _ => emits_cip _) fun b hb => ?_
  refine ⟨_, ?_, (hb.toReady.update (natStr jobno) (.inr ⟨1, by decide, rfl⟩)).update (natStr t.loop) (.inl rfl)⟩
  have hjobno := put_eq (room_of_small hf.jobno (.subscr 1))
  have hloop := put_eq (room_of_small hf.loop .value)
  simp [Emit.run, sprintf, ydb_set_s, hb.fillid, hjobno, hloop]

theorem emits_stage1 (hf : Fits cfg fillid jobno t) : Emits (Filled cfg t) (tpfn_stage1 cfg fillid jobno t)
    (([setStr (strNode .arandom (cfg.subsMAX t.I)) (cfg.val t.loop)]
      ++ (if cfg.istp &&& cfg.crash ≠ 0 then restarted jobno t.loop t.ch else [])
      ++ stage1Rest cfg jobno t.loop t.I).map (Cmd.upd fillid t.fntpRead)) (Ready cfg fillid t) := by
  have hval : ∀ b, Filled cfg t b → b .ybuff_val = cfg.val t.loop := fun _ => Filled.val
  have hvalALT : ∀ b, Filled cfg t b → b .ybuff_valALT = cfg.valALT t.loop := fun _ => Filled.valALT
  unfold tpfn_stage1
  refine .congr (.append (.append (.append (.append (.append (.append (.append (.append (.append (.append
    (.cons (emits_first hf) (.cons (emits_second (fun _ => Filled.subsMAX) hf.subsMAX) (emits_set _ hval)))
    (.when fun _ => emits_restart hf))
    (emits_set _ hvalALT))
    (.when fun _ => emits_set _ hvalALT))
    (.cons (emits_other (fun _ => Filled.subs) hf.subs_big) (emits_set _ hvalALT)))
    (.when fun _ => .cons (emits_set _ hvalALT) (emits_set _ hvalALT)))
    (emits_set _ hval))
    (.branch (fun _ => .cons (emits_set _ hval) (emits_set _ hval)) fun _ => emits_cip _))
    (.cons (emits_other (fun _ => Filled.I) hf.I_big) (emits_set _ hval)))
    (.when fun _ => emits_nested hf))
    (.branch (fun _ => emits_lasti hf) fun _ => .mono .nil (fun _ hb => hb) fun _ => At.toReady)) ?_
  by_cases htr : cfg.trigger = 0 <;> by_cases hist : cfg.istp = 0 <;>
    by_cases hcr : cfg.istp &&& cfg.crash = 0 <;> by_cases hz : cfg.ztr <;>
    simp [stage1Rest, Config.noTrigger, ztwormstr, ztrcmd, htr, hist, hcr, hz]

/-- Stage 3. With triggers `^fntp` is read and written back without "suffix". -/
theorem emits_fntp (hf : Fits cfg fillid jobno t) : Emits (At cfg fillid t x)
    [sprintf cfg .value t.fntpRead, .assert fun b => 6 ≤ zlength cfg.chset (b .value),
      .act fun b => Function.update b .value (cutSuffix cfg.chset (b .value)), ydb_set_s .fntp [0, 1] .value]
    [.set .fntp [fillid, x] t.fntp] (At cfg fillid t x) := by
  intro b hb
  refine ⟨_, ?_, (hb.update t.fntpRead (.inl rfl)).update t.fntp (.inl rfl)⟩
  have hput := put_eq (show zlength cfg.chset t.fntpRead ≤ Buffer.value.len_alloc from hf.fntp)
  simp [Emit.run, sprintf, ydb_set_s, hput, t.six_le_fntpRead, hb.fillid, hb.second]

theorem emits_stage3 (hf : Fits cfg fillid jobno t) : Emits (Ready cfg fillid t) (tpfn_stage3 cfg fillid t)
    ((Imptp.stage3 cfg t.loop t.I).map (Cmd.upd fillid t.fntpRead)) (At cfg fillid t (cfg.subsMAX t.I)) := by
  have hval : ∀ b, Filled cfg t b → b .ybuff_val = cfg.val t.loop := fun _ => Filled.val
  have hvalMAX : ∀ b, Filled cfg t b → b .ybuff_valMAX = cfg.valMAX t.loop := fun _ => Filled.valMAX
  unfold tpfn_stage3
  refine .congr (.append (.append (.append (.append
    (.when fun _ => emits_cip _)
    (.cons (emits_second (fun _ => Filled.subs) hf.subs_big) (emits_set _ hval)))
    (.branch (fun _ => emits_set _ hval) fun _ => emits_fntp hf))
    (.cons (emits_other (fun _ => Filled.subsMAX) hf.subsMAX) (emits_set _ hvalMAX)))
    (.when fun _ => .cons (emits_set _ hvalMAX) (.cons (emits_set _ hvalMAX) (emits_set _ hvalMAX)))) ?_
  by_cases htr : cfg.trigger = 0 <;> by_cases hd : cfg.dztrig <;>
    simp [Imptp.stage3, Config.noTrigger, Config.doDztrig, imptpdztrig, htr, hd]

/-- **A turn**, from any contents of the buffers. -/
theorem emits_turn (hf : Fits cfg fillid jobno t) : Emits (fun _ => True) (turn cfg fillid jobno t)
    (turnUpdates cfg fillid jobno t (cfg.istp &&& cfg.crash ≠ 0) (cfg.valALT t.loop)) (fun _ => True) := by
  unfold turn turnUpdates turnCmds
  refine .mono (.congr (.append (.append (.append (.append (emits_fill hf) (emits_stage1 hf)) (emits_stage2 hf))
    (.mono (emits_stage3 hf) (fun _ => At.toReady) fun _ hb => hb)) (emits_cip _)) ?_) (fun _ hb => hb)
    fun _ _ => trivial
  simp only [List.map_append, decide_eq_true_eq]

end Stages

/-! ## 4. Runs -/

/-- If the sizes of keys and records fit the buffers, then for every run of the loop the worker in C makes
the updates of the worker in M, whatever is in its buffers and whatever the tries of the transactions
were, if and only if `istp & crash`, which are the bits the two have in common, is not 0 just where istp is
1 and crash is not 0. -/
theorem c_turns_eq_iff {cfg : Config} (hroom : cfg.Room) :
    (∀ (fillid : MStr) (jobno : Nat) (ts : List Turn) (b : Bufs), IsJob cfg.chset fillid jobno →
      (∀ t ∈ ts, t.IsInt cfg.chset) →
      (Emit.run (ts.flatMap (turn cfg fillid jobno)) b).map Prod.fst =
        some (ts.flatMap (updates cfg fillid jobno))) ↔
    (cfg.istp &&& cfg.crash ≠ 0 ↔ cfg.istp = 1 ∧ cfg.crash ≠ 0) := by
  constructor
  · intro h
    have hjob : IsJob cfg.chset [] 1 := ⟨by simp [zlength], by decide⟩
    have ht : (restartedTurn 1).IsInt cfg.chset := isInt_restartedTurn _ (by decide)
    have hrun := h [] 1 [restartedTurn 1] (fun _ => []) hjob fun t hmem => List.mem_singleton.1 hmem ▸ ht
    rw [List.flatMap_singleton, List.flatMap_singleton, (emits_turn (hroom.fits hjob ht)).calls_eq trivial,
      updates_eq] at hrun
    exact decide_eq_decide.1 (turnUpdates_inj cfg [] 1 _ (by decide) (Option.some.inj hrun)).1
  · intro h fillid jobno ts b hjob hint
    have hturn : ∀ t ∈ ts, Emits (fun _ => True) (turn cfg fillid jobno t) (updates cfg fillid jobno t)
        (fun _ => True) := by
      intro t ht
      rw [updates_eq, ← decide_eq_decide.2 h]
      exact emits_turn (hroom.fits hjob (hint t ht))
    exact (Emits.repeat_ hturn).calls_eq trivial

theorem c_turns_eq_iff_crashTest :
    (∀ (fillid : MStr) (jobno : Nat) (ts : List Turn) (b : Bufs), IsJob crashTest.chset fillid jobno →
      (∀ t ∈ ts, t.IsInt crashTest.chset) →
      (Emit.run (ts.flatMap (turn crashTest fillid jobno)) b).map Prod.fst =
        some (ts.flatMap (updates crashTest fillid jobno))) ↔
    (crashTest.istp &&& crashTest.crash ≠ 0 ↔ crashTest.istp = 1 ∧ crashTest.crash ≠ 0) :=
  c_turns_eq_iff room_crashTest

end YottaTest.Imptp.CWorker
