/-
  File:      YottaTest/Imptp/GoWorker.lean
  Subject:   impjobgo.go: the updates of the worker in Go.

  Every global has a key of its own, with its subscripts and how many of them are used. The first
  subscripts are filled before the loop; a turn fills the others, and changes the number of those that are
  used for one of the globals. A text that is too long for its buffer or subscript is an error, at which the
  worker ends.

  * `Key`, `newKeys` -- the keys, as they are when the loop begins; `Vars` -- with the buffers;
  * `tpfnStage1`, `tpfnStage3`, `turn` -- the code of a turn of the loop;
  * `Keyed` -- what all turns keep of the keys; `Ready` -- and what `helper1` has made;
  * `emits_stage1`, `emits_stage2`, `emits_stage3` -- each stage makes the updates of the M worker;
  * `go_turns_eq_iff` -- **if the texts fit, all runs of the two workers agree iff ZTP is not used in a crash
    test and no value is padded.**
-/
import YottaTest.Imptp.Helpers
import YottaTest.Lib.Emit
import Mathlib.Logic.Function.Basic

namespace YottaTest.Imptp.GoWorker

open YottaTest.Lib YottaTest.M

/-! ## 1. The code -/

/-- `yottadb.KeyT`: the subscripts, and `ElemUsed`. -/
structure Key where
  sub : Nat → MStr
  used : Nat

def Key.setSub (k : Key) (i : Nat) (s : MStr) : Key := { k with sub := Function.update k.sub i s }

@[simp] theorem Key.setSub_used (k : Key) (i : Nat) (s : MStr) : (k.setSub i s).used = k.used := rfl

@[simp] theorem Key.setSub_sub (k : Key) (i j : Nat) (s : MStr) :
    (k.setSub i s).sub j = if j = i then s else k.sub j := by
  simp [setSub, Function.update_apply]

/-- The keys of the globals, and the buffers of `shareStuff`. -/
structure Vars where
  keys : Gvn → Key
  bufI : MStr
  bufsubs : MStr
  bufsubsMAX : MStr
  bufval : MStr
  bufvalALT : MStr
  bufvalMAX : MStr
  bufvalue : MStr
  baryp : MStr
  barypsubs : MStr

abbrev Code := List (Emit Vars Upd)

/-- The keys when the loop begins. -/
def newKeys (fillid : MStr) (jobno : Nat) : Gvn → Key
  | .zdummy => ⟨fun _ => [], 1⟩
  | .endloop => (Key.mk (fun _ => []) 1).setSub 0 fillid
  | .jrandomvariableinimptpfillprogram => (Key.mk (fun _ => []) 4).setSub 0 fillid
  | .lasti => ((Key.mk (fun _ => []) 2).setSub 0 fillid).setSub 1 (natStr jobno)
  | _ => (Key.mk (fun _ => []) 2).setSub 0 fillid

def Vars.setSub (v : Vars) (g : Gvn) (i : Nat) (s : MStr) : Vars :=
  { v with keys := Function.update v.keys g ((v.keys g).setSub i s) }

/-- imp.go, the sizes of the buffers. -/
def MaxValueLen : Nat := 256

def BigMaxValueLen : Nat := MaxValueLen * 6

/-- The size of the subscripts in a key. -/
def elemLen : Gvn → Nat
  | .zdummy | .endloop | .lasti => MaxValueLen
  | _ => BigMaxValueLen

/-- A text into something of that size; where it is too long, `CheckErrorReturn` panics. -/
def store (cs : Chset) (size : Nat) (text : Vars → MStr) (f : MStr → Vars → Vars) : Emit Vars Upd :=
  .store fun v => if zlength cs (text v) ≤ size then some (f (text v) v) else none

/-- `Subary.SetElemUsed`. -/
def setElemUsed (g : Gvn) (n : Nat) : Emit Vars Upd :=
  .act fun v => { v with keys := Function.update v.keys g { v.keys g with used := n } }

/-- `baryp, err = buf.ValBAry(...)`. -/
def valBAry (buf : Vars → MStr) : Emit Vars Upd := .act fun v => { v with baryp := buf v }

/-- `SetValST(..., buf)`. -/
def setValST (g : Gvn) (buf : Vars → MStr) : Emit Vars Upd :=
  .call fun v => [.set g ((List.range (v.keys g).used).map (v.keys g).sub) (buf v)]

section Code

variable (cfg : Config) (fillid : MStr) (jobno : Nat) (t : Turn)

/-- `Subary.SetValBAry(..., i, text)`, or `SetValStr`. -/
def setSub (g : Gvn) (i : Nat) (text : Vars → MStr) : Emit Vars Upd :=
  store cfg.chset (elemLen g) text fun s v => v.setSub g i s

/-- `Subary.SetValBAry(..., i, baryp)`. -/
def setValBAry (g : Gvn) (i : Nat) : Emit Vars Upd := setSub cfg g i Vars.baryp

/-- A text into `bufvalue`. -/
def setValue (s : MStr) : Emit Vars Upd :=
  store cfg.chset BigMaxValueLen (fun _ => s) fun s v => { v with bufvalue := s }

/-- `CallMDescT`: an M routine. -/
def callMDescT (cs : List Cmd) : Emit Vars Upd := .call fun _ => cs.map (Cmd.upd fillid t.fntpRead)

def tpfnStage1 : Code :=
  [valBAry Vars.bufsubsMAX, setValBAry cfg .arandom 1, setValST .arandom Vars.bufval,
      setElemUsed .jrandomvariableinimptpfillprogram 2]
    ++ (if cfg.istp ≠ 0 ∧ cfg.crash ≠ 0 then
          [setValue cfg (natStr t.ch.trestart1)]
          ++ (if 2 < t.ch.trestart1 then
                (if t.ch.rndm1 = 1 then [callMDescT fillid t (noop jobno t.loop t.ch)] else [])
              else [])
          ++ (if t.ch.trestart1 ≠ 0 then
                [setSub cfg .zdummy 0 fun _ => natStr t.ch.trestart1, setValue cfg (natStr jobno),
                  setValST .zdummy Vars.bufvalue]
              else [])
        else [])
    ++ [setValBAry cfg .brandomv 1, setValST .brandomv Vars.bufvalALT]
    ++ (if cfg.trigger = 0 then [setValBAry cfg .crandomva 1, setValST .crandomva Vars.bufvalALT] else [])
    ++ [valBAry Vars.bufsubs, setValBAry cfg .drandomvariable 1, setValST .drandomvariable Vars.bufvalALT]
    ++ (if cfg.trigger = 0 then
          [setValBAry cfg .erandomvariableimptp 1, setValST .erandomvariableimptp Vars.bufvalALT,
            setValBAry cfg .frandomvariableinimptp 1, setValST .frandomvariableinimptp Vars.bufvalALT]
        else [])
    ++ [setValBAry cfg .grandomvariableinimptpfill 1, setValST .grandomvariableinimptpfill Vars.bufval]
    ++ (if cfg.trigger = 0 then
          [setValBAry cfg .hrandomvariableinimptpfilling 1, setValST .hrandomvariableinimptpfilling Vars.bufval,
            setValBAry cfg .irandomvariableinimptpfillprgrm 1,
            setValST .irandomvariableinimptpfillprgrm Vars.bufval]
        else [callMDescT fillid t (ztwormstr cfg t.I)])
    ++ [.act fun v => { v with barypsubs := v.baryp }, valBAry Vars.bufI,
        setValBAry cfg .jrandomvariableinimptpfillprogram 1,
        setValST .jrandomvariableinimptpfillprogram Vars.bufval]
    ++ (if cfg.trigger = 0 then
          [setValBAry cfg .jrandomvariableinimptpfillprogram 1, setValBAry cfg .jrandomvariableinimptpfillprogram 2,
            setElemUsed .jrandomvariableinimptpfillprogram 3,
            setValST .jrandomvariableinimptpfillprogram Vars.bufval,
            setSub cfg .jrandomvariableinimptpfillprogram 3 Vars.barypsubs,
            setElemUsed .jrandomvariableinimptpfillprogram 4,
            setValST .jrandomvariableinimptpfillprogram Vars.bufval]
        else [])
    ++ (if cfg.istp ≠ 0 then
          (if cfg.ztr then [callMDescT fillid t (ztrcmd jobno t.loop)] else [])
          ++ [setValue cfg (natStr t.loop), setValST .lasti Vars.bufvalue]
        else [])

/-- Stage 2. The value of `^dntp` is `val`, where it is `valALT` in M. -/
def stage2 : Code :=
  [callMDescT fillid t (helper2 cfg t.ch), valBAry Vars.bufsubs, setValBAry cfg .antp 1,
      setValST .antp Vars.bufval]
    ++ (if cfg.trigger = 0 then
          [setValBAry cfg .bntp 1, setValST .bntp Vars.bufval, setValBAry cfg .cntp 1, setValST .cntp Vars.bufval]
        else [])
    ++ [setValBAry cfg .dntp 1, setValST .dntp Vars.bufval]

def tpfnStage3 : Code :=
  (if cfg.dztrig then [callMDescT fillid t (imptpdztrig cfg)] else [])
    ++ [valBAry Vars.bufsubs, setValBAry cfg .entp 1, setValST .entp Vars.bufval]
    ++ [setValBAry cfg .fntp 1]
    ++ (if cfg.trigger = 0 then [setValST .fntp Vars.bufval]
        else
          [setValue cfg t.fntpRead, .assert fun v => 6 ≤ zlength cfg.chset v.bufvalue,
            .act fun v => { v with bufvalue := cutSuffix cfg.chset v.bufvalue },
            setValST .fntp Vars.bufvalue])
    ++ [valBAry Vars.bufsubsMAX, setValBAry cfg .gntp 1, setValST .gntp Vars.bufvalMAX]
    ++ (if cfg.trigger = 0 then
          [setValBAry cfg .hntp 1, setValST .hntp Vars.bufvalMAX, setValBAry cfg .intp 1,
            setValST .intp Vars.bufvalMAX, setValBAry cfg .bntp 1, setValST .bntp Vars.bufvalMAX]
        else [])

/-- `ValST(..., buf)`: a text that `helper1` has made. -/
def fetch (size : Nat) (s : MStr) (f : MStr → Vars → Vars) : Emit Vars Upd := store cfg.chset size (fun _ => s) f

/-- The start of a turn: `helper1`, and the texts that it has made. -/
def fill : Code :=
  [setValue cfg (natStr t.I), setValue cfg (natStr t.loop), callMDescT fillid t (helper1 cfg),
    fetch cfg MaxValueLen (natStr t.I) fun s v => { v with bufI := s },
    fetch cfg MaxValueLen (cfg.subs t.I) fun s v => { v with bufsubs := s },
    fetch cfg BigMaxValueLen (cfg.subsMAX t.I) fun s v => { v with bufsubsMAX := s },
    fetch cfg MaxValueLen (cfg.val t.loop) fun s v => { v with bufval := s },
    fetch cfg MaxValueLen (cfg.valALT t.loop) fun s v => { v with bufvalALT := s },
    fetch cfg BigMaxValueLen (cfg.valMAX t.loop) fun s v => { v with bufvalMAX := s }]

/-- A turn of the loop. -/
def turn : Code :=
  fill cfg fillid t ++ tpfnStage1 cfg fillid jobno t ++ stage2 cfg fillid t ++ tpfnStage3 cfg fillid t
    ++ [callMDescT fillid t (helper3 cfg jobno t.loop t.I t.ch)]

end Code

/-! ## 2. What the keys and buffers hold -/

/-- The globals whose key has the same two subscripts in use all the time. -/
def isPair : Gvn → Bool
  | .zdummy | .endloop | .jrandomvariableinimptpfillprogram | .lasti => false
  | _ => true

/-- What a turn keeps of the keys. The key of `^jrandomvariableinimptpfillprogram` has `n` subscripts in
use. -/
structure Keyed (fillid : MStr) (jobno n : Nat) (keys : Gvn → Key) : Prop where
  pair : ∀ g, isPair g = true → (keys g).sub 0 = fillid ∧ (keys g).used = 2
  zdummy : (keys .zdummy).used = 1
  lasti : (keys .lasti).sub 0 = fillid ∧ (keys .lasti).sub 1 = natStr jobno ∧ (keys .lasti).used = 2
  jrandom : (keys .jrandomvariableinimptpfillprogram).sub 0 = fillid ∧
    (keys .jrandomvariableinimptpfillprogram).used = n

/-- The buffers with the texts of the iteration. -/
structure Filled (cfg : Config) (t : Turn) (v : Vars) : Prop where
  I : v.bufI = natStr t.I
  subs : v.bufsubs = cfg.subs t.I
  subsMAX : v.bufsubsMAX = cfg.subsMAX t.I
  val : v.bufval = cfg.val t.loop
  valALT : v.bufvalALT = cfg.valALT t.loop
  valMAX : v.bufvalMAX = cfg.valMAX t.loop

structure Ready (cfg : Config) (fillid : MStr) (jobno : Nat) (t : Turn) (n : Nat) (v : Vars) : Prop where
  keyed : Keyed fillid jobno n v.keys
  filled : Filled cfg t v

/-- And the subscript that `baryp` points to. -/
structure At (cfg : Config) (fillid : MStr) (jobno : Nat) (t : Turn) (n : Nat) (x : MStr) (v : Vars) :
    Prop extends Ready cfg fillid jobno t n v where
  baryp : v.baryp = x

theorem keyed_newKeys (fillid : MStr) (jobno : Nat) : Keyed fillid jobno 4 (newKeys fillid jobno) where
  pair g hg := by
    cases g <;> first | exact ⟨rfl, rfl⟩ | cases hg
  zdummy := rfl
  lasti := ⟨rfl, rfl, rfl⟩
  jrandom := ⟨rfl, rfl⟩

section Keys

variable {fillid : MStr} {jobno n : Nat} {keys : Gvn → Key} {g : Gvn}

/-- A subscript of a global with two. -/
theorem Keyed.update_pair (h : Keyed fillid jobno n keys) (hg : isPair g = true) (s : MStr) :
    Keyed fillid jobno n (Function.update keys g ((keys g).setSub 1 s)) := by
  have hne {g' : Gvn} (hg' : isPair g' = false) : Function.update keys g ((keys g).setSub 1 s) g' = keys g' := by
    refine Function.update_of_ne ?_ ..
    rintro rfl
    rw [hg] at hg'
    cases hg'
  refine ⟨fun g' hg' => ?_, ?_, ?_, ?_⟩
  · by_cases he : g' = g
    · subst he
      rw [Function.update_self]
      simpa using h.pair g' hg'
    · rw [Function.update_of_ne he]
      exact h.pair g' hg'
  · rw [hne rfl]
    exact h.zdummy
  · rw [hne rfl]
    exact h.lasti
  · rw [hne rfl]
    exact h.jrandom

/-- The subscript of `^zdummy`. -/
theorem Keyed.update_zdummy (h : Keyed fillid jobno n keys) (s : MStr) :
    Keyed fillid jobno n (Function.update keys .zdummy ((keys .zdummy).setSub 0 s)) where
  pair g hg := by
    rw [Function.update_of_ne (by rintro rfl; cases hg)]
    exact h.pair g hg
  zdummy := h.zdummy
  lasti := h.lasti
  jrandom := h.jrandom

/-- The subscripts of `^jrandomvariableinimptpfillprogram` after the first, and how many are in use. -/
theorem Keyed.update_jrandom (h : Keyed fillid jobno n keys) {k : Key} {m : Nat} (h0 : k.sub 0 = fillid)
    (hm : k.used = m) :
    Keyed fillid jobno m (Function.update keys .jrandomvariableinimptpfillprogram k) where
  pair g hg := by
    rw [Function.update_of_ne (by rintro rfl; cases hg)]
    exact h.pair g hg
  zdummy := h.zdummy
  lasti := h.lasti
  jrandom := ⟨h0, hm⟩

end Keys

section Stages

variable {cfg : Config} {fillid : MStr} {jobno n : Nat} {t : Turn} {x y : MStr}

/-- Only `fill` changes the texts of the iteration. -/
theorem Filled.frame {v : Vars} (hv : Filled cfg t v) {keys : Gvn → Key} {value baryp barypsubs : MStr} :
    Filled cfg t { v with keys := keys, bufvalue := value, baryp := baryp, barypsubs := barypsubs } :=
  ⟨hv.I, hv.subs, hv.subsMAX, hv.val, hv.valALT, hv.valMAX⟩

/-! The rules for single operations. -/

theorem emits_m {P : Vars → Prop} (cs : List Cmd) :
    Emits P [callMDescT fillid t cs] (cs.map (Cmd.upd fillid t.fntpRead)) P := .call fun _ _ => rfl

theorem emits_valBAry {buf : Vars → MStr} (hbuf : ∀ v, Filled cfg t v → buf v = x) :
    Emits (Ready cfg fillid jobno t n) [valBAry buf] [] (At cfg fillid jobno t n x) :=
  .act fun v hv => ⟨⟨hv.keyed, hv.filled.frame⟩, hbuf v hv.filled⟩

/-- A text that fits. -/
theorem emits_store {P Q : Vars → Prop} {cs : Chset} {size : Nat} {text : Vars → MStr} {f : MStr → Vars → Vars}
    (h : ∀ v, P v → zlength cs (text v) ≤ size ∧ Q (f (text v) v)) : Emits P [store cs size text f] [] Q :=
  .store fun v hv => ⟨_, if_pos (h v hv).1, (h v hv).2⟩

theorem elemLen_pair {g : Gvn} (hg : isPair g = true) : elemLen g = BigMaxValueLen := by
  cases g <;> first | rfl | cases hg

/-- The second subscript of a global, to what `baryp` points to. -/
theorem emits_sub {g : Gvn} (hg : isPair g = true) (hx : zlength cfg.chset x ≤ BigMaxValueLen) :
    Emits (At cfg fillid jobno t n x) [setValBAry cfg g 1] []
      fun v => At cfg fillid jobno t n x v ∧ (v.keys g).sub 1 = x := by
  unfold setValBAry setSub
  refine emits_store fun v hv => ⟨?_, ⟨⟨hv.keyed.update_pair hg _, hv.filled.frame⟩, hv.baryp⟩, ?_⟩
  · rw [elemLen_pair hg, hv.baryp]
    exact hx
  · simp [Vars.setSub, hv.baryp]

theorem emits_setValST {g : Gvn} (hg : isPair g = true) {buf : Vars → MStr}
    (hbuf : ∀ v, Filled cfg t v → buf v = y) :
    Emits (fun v => At cfg fillid jobno t n x v ∧ (v.keys g).sub 1 = x) [setValST g buf]
      [.set g [fillid, x] y] (At cfg fillid jobno t n x) := by
  refine .mono (.call fun v hv => ?_) (fun _ hv => hv) fun _ hv => hv.1
  simp [hv.1.keyed.pair g hg, List.range_succ, hv.2, hbuf v hv.1.filled]

/-- A SET with two subscripts. -/
theorem emits_set {g : Gvn} (hg : isPair g = true) (hx : zlength cfg.chset x ≤ BigMaxValueLen)
    {buf : Vars → MStr} (hbuf : ∀ v, Filled cfg t v → buf v = y) :
    Emits (At cfg fillid jobno t n x) [setValBAry cfg g 1, setValST g buf] [.set g [fillid, x] y]
      (At cfg fillid jobno t n x) := .cons (emits_sub hg hx) (emits_setValST hg hbuf)

/-! ## 3. The stages -/

theorem emits_fill (hf : Fits cfg fillid jobno t) : Emits (fun v => Keyed fillid jobno n v.keys)
    (fill cfg fillid t) ((helper1 cfg).map (Cmd.upd fillid t.fntpRead)) (Ready cfg fillid jobno t n) := by
  intro v hv
  have hloop : zlength cfg.chset (natStr t.loop) ≤ BigMaxValueLen := Nat.le_trans hf.loop (by decide)
  have h₀ : zlength cfg.chset (natStr t.I) ≤ BigMaxValueLen := hf.I_big
  have h₁ : zlength cfg.chset (natStr t.I) ≤ MaxValueLen := hf.I
  have h₂ : zlength cfg.chset (cfg.subs t.I) ≤ MaxValueLen := hf.subs
  have h₃ : zlength cfg.chset (cfg.subsMAX t.I) ≤ BigMaxValueLen := hf.subsMAX
  have h₄ : zlength cfg.chset (cfg.val t.loop) ≤ MaxValueLen := hf.val
  have h₅ : zlength cfg.chset (cfg.valALT t.loop) ≤ MaxValueLen := hf.valALT
  have h₆ : zlength cfg.chset (cfg.valMAX t.loop) ≤ BigMaxValueLen := hf.valMAX
  simp only [fill, setValue, fetch, store, callMDescT, Emit.run, hloop, h₀, h₁, h₂, h₃, h₄, h₅, h₆, if_true,
    Option.bind_some, Option.map_some, List.append_nil, Option.some.injEq, Prod.mk.injEq, true_and,
    exists_eq_left']
  exact ⟨hv, rfl, rfl, rfl, rfl, rfl, rfl⟩

/-- What stage 2 sets. -/
theorem emits_stage2 (hf : Fits cfg fillid jobno t) : Emits (Ready cfg fillid jobno t n) (stage2 cfg fillid t)
    ((helper2 cfg t.ch ++ stage2Sets cfg t.loop t.I (cfg.val t.loop)).map (Cmd.upd fillid t.fntpRead))
    (At cfg fillid jobno t n (cfg.subs t.I)) := by
  have hval : ∀ v, Filled cfg t v → v.bufval = cfg.val t.loop := fun _ => Filled.val
  have hsubs := hf.subs_big
  unfold stage2
  refine .congr (.append (.append
    (.cons (emits_m _) (.cons (emits_valBAry fun _ => Filled.subs) (emits_set rfl hsubs hval)))
    (.when fun _ => .append (p := [_, _]) (emits_set rfl hsubs hval) (emits_set rfl hsubs hval)))
    (emits_set rfl hsubs hval)) ?_
  by_cases htr : cfg.trigger = 0 <;> simp [stage2Sets, Config.noTrigger, htr]

/-- Stage 1, the number of subscripts of `^jrandomvariableinimptpfillprogram`. -/
theorem emits_elemUsed (m : Nat) : Emits (At cfg fillid jobno t n x)
    [setElemUsed .jrandomvariableinimptpfillprogram m] [] (At cfg fillid jobno t m x) :=
  .act fun _ hv => ⟨⟨hv.keyed.update_jrandom hv.keyed.jrandom.1 rfl, hv.filled.frame⟩, hv.baryp⟩

theorem emits_setValue {s : MStr} (hs : zlength cfg.chset s ≤ MaxValueLen) :
    Emits (At cfg fillid jobno t n x) [setValue cfg s] [] (At cfg fillid jobno t n x) :=
  emits_store fun _ hv => ⟨Nat.le_trans hs (by decide), ⟨hv.keyed, hv.filled.frame⟩, hv.baryp⟩

/-- Stage 1, a try of the transaction that is not the first. -/
theorem emits_zdummy (hf : Fits cfg fillid jobno t) {r : Nat} (hr : zlength cfg.chset (natStr r) ≤ MaxValueLen) :
    Emits (At cfg fillid jobno t n x)
    [setSub cfg .zdummy 0 fun _ => natStr r, setValue cfg (natStr jobno), setValST .zdummy Vars.bufvalue]
    [.set .zdummy [natStr r] (natStr jobno)] (At cfg fillid jobno t n x) := by
  intro v hv
  let keys := Function.update v.keys .zdummy ((v.keys .zdummy).setSub 0 (natStr r))
  have hjobno : zlength cfg.chset (natStr jobno) ≤ BigMaxValueLen := Nat.le_trans hf.jobno (by decide)
  refine ⟨{ v with keys := keys, bufvalue := natStr jobno }, ?_,
    ⟨⟨hv.keyed.update_zdummy (natStr r), hv.filled.frame⟩, hv.baryp⟩⟩
  simp [Emit.run, setSub, store, elemLen, setValue, setValST, Vars.setSub, hv.keyed.zdummy, keys, hr, hjobno]

theorem emits_restart (hf : Fits cfg fillid jobno t) : Emits (At cfg fillid jobno t n x)
    ([setValue cfg (natStr t.ch.trestart1)]
      ++ (if 2 < t.ch.trestart1 then
            (if t.ch.rndm1 = 1 then [callMDescT fillid t (noop jobno t.loop t.ch)] else [])
          else [])
      ++ (if t.ch.trestart1 ≠ 0 then
            [setSub cfg .zdummy 0 fun _ => natStr t.ch.trestart1, setValue cfg (natStr jobno),
              setValST .zdummy Vars.bufvalue]
          else []))
    ((restarted jobno t.loop t.ch).map (Cmd.upd fillid t.fntpRead)) (At cfg fillid jobno t n x) := by
  refine .congr (.append (.append (emits_setValue hf.trestart1) (.when fun _ => .when fun _ => emits_m _))
    (.when fun _ => emits_zdummy hf hf.trestart1)) ?_
  by_cases h2 : 2 < t.ch.trestart1 <;> by_cases h1 : t.ch.rndm1 = 1 <;> by_cases h0 : t.ch.trestart1 = 0 <;>
    simp [restarted, h0, h1, h2]

/-- Stage 1, the node with two subscripts. The subscript for the fourth one is kept. -/
theorem emits_jrandom (hf : Fits cfg fillid jobno t) : Emits (At cfg fillid jobno t 2 x)
    [.act fun v => { v with barypsubs := v.baryp }, valBAry Vars.bufI,
      setValBAry cfg .jrandomvariableinimptpfillprogram 1,
      setValST .jrandomvariableinimptpfillprogram Vars.bufval]
    [.set .jrandomvariableinimptpfillprogram [fillid, natStr t.I] (cfg.val t.loop)]
    fun v => At cfg fillid jobno t 2 (natStr t.I) v ∧ v.barypsubs = x := by
  intro v hv
  let k := (v.keys .jrandomvariableinimptpfillprogram).setSub 1 v.bufI
  let keys := Function.update v.keys .jrandomvariableinimptpfillprogram k
  have hk : Keyed fillid jobno 2 keys :=
    hv.keyed.update_jrandom (by simp [k, hv.keyed.jrandom]) (by simp [k, hv.keyed.jrandom])
  have hI : zlength cfg.chset (natStr t.I) ≤ BigMaxValueLen := hf.I_big
  refine ⟨{ v with keys := keys, baryp := v.bufI, barypsubs := v.baryp }, ?_,
    ⟨⟨hk, hv.filled.frame⟩, hv.filled.I⟩, hv.baryp⟩
  simp [Emit.run, valBAry, setValBAry, setSub, store, elemLen, setValST, Vars.setSub, hv.keyed.jrandom,
    List.range_succ, hv.filled.I, hv.filled.val, keys, k, hI]

/-- Stage 1, the nodes with three and four subscripts. -/
theorem emits_nested (hf : Fits cfg fillid jobno t) (hx : zlength cfg.chset x ≤ BigMaxValueLen) :
    Emits (fun v => At cfg fillid jobno t 2 (natStr t.I) v ∧ v.barypsubs = x)
      [setValBAry cfg .jrandomvariableinimptpfillprogram 1, setValBAry cfg .jrandomvariableinimptpfillprogram 2,
        setElemUsed .jrandomvariableinimptpfillprogram 3,
        setValST .jrandomvariableinimptpfillprogram Vars.bufval,
        setSub cfg .jrandomvariableinimptpfillprogram 3 Vars.barypsubs,
        setElemUsed .jrandomvariableinimptpfillprogram 4,
        setValST .jrandomvariableinimptpfillprogram Vars.bufval]
      [.set .jrandomvariableinimptpfillprogram [fillid, natStr t.I, natStr t.I] (cfg.val t.loop),
        .set .jrandomvariableinimptpfillprogram [fillid, natStr t.I, natStr t.I, x] (cfg.val t.loop)]
      (At cfg fillid jobno t 4 (natStr t.I)) := by
  intro v hv
  obtain ⟨hv, hbaryp⟩ := hv
  have hk := ((hv.keyed.jrandom).1)
  have hI : zlength cfg.chset (natStr t.I) ≤ BigMaxValueLen := hf.I_big
  let k₂ := ((v.keys .jrandomvariableinimptpfillprogram).setSub 1 v.baryp).setSub 2 v.baryp
  let k₄ : Key := { k₂.setSub 3 v.barypsubs with used := 4 }
  refine ⟨{ v with keys := Function.update v.keys .jrandomvariableinimptpfillprogram k₄ }, ?_,
    ⟨⟨hv.keyed.update_jrandom (by simpa [k₄, k₂] using hk) rfl, hv.filled.frame⟩, hv.baryp⟩⟩
  simp [Emit.run, setValBAry, setSub, store, elemLen, setValST, setElemUsed, Vars.setSub, Key.setSub,
    List.range_succ, hk, hbaryp, hv.baryp, hv.filled.val, k₂, k₄, hI, hx]

/-- Stage 1, `^lasti`. -/
theorem emits_lasti (hf : Fits cfg fillid jobno t) : Emits (Ready cfg fillid jobno t n)
    ((if cfg.ztr then [callMDescT fillid t (ztrcmd jobno t.loop)] else [])
      ++ [setValue cfg (natStr t.loop), setValST .lasti Vars.bufvalue])
    ((if cfg.ztr then (ztrcmd jobno t.loop).map (Cmd.upd fillid t.fntpRead) else [])
      ++ [.set .lasti [fillid, natStr jobno] (natStr t.loop)]) (Ready cfg fillid jobno t n) := by
  refine .append (.when fun _ => emits_m _) fun v hv => ?_
  have hloop : zlength cfg.chset (natStr t.loop) ≤ BigMaxValueLen := Nat.le_trans hf.loop (by decide)
  refine ⟨{ v with bufvalue := natStr t.loop }, ?_, ⟨hv.keyed, hv.filled.frame⟩⟩
  simp [Emit.run, setValue, store, setValST, List.range_succ, hv.keyed.lasti, hloop]

theorem emits_stage1 (hf : Fits cfg fillid jobno t) : Emits (Ready cfg fillid jobno t n)
    (tpfnStage1 cfg fillid jobno t)
    (([setStr (strNode .arandom (cfg.subsMAX t.I)) (cfg.val t.loop)]
      ++ (if cfg.istp ≠ 0 ∧ cfg.crash ≠ 0 then restarted jobno t.loop t.ch else [])
      ++ stage1Rest cfg jobno t.loop t.I).map (Cmd.upd fillid t.fntpRead))
    fun v => ∃ m, Ready cfg fillid jobno t m v := by
  have hval : ∀ v, Filled cfg t v → v.bufval = cfg.val t.loop := fun _ => Filled.val
  have hvalALT : ∀ v, Filled cfg t v → v.bufvalALT = cfg.valALT t.loop := fun _ => Filled.valALT
  have hsubs := hf.subs_big
  have hsubsMAX := hf.subsMAX
  unfold tpfnStage1
  refine .congr (.append (.append (.append (.append (.append (.append (.append (.append (.append (.append
    (.cons (emits_valBAry fun _ => Filled.subsMAX)
      (.append (p := [_, _]) (emits_set rfl hsubsMAX hval) (emits_elemUsed 2)))
    (.when fun _ => emits_restart hf))
    (emits_set rfl hsubsMAX hvalALT))
    (.when fun _ => emits_set rfl hsubsMAX hvalALT))
    (.cons (.mono (emits_valBAry fun _ => Filled.subs) (fun _ => At.toReady) fun _ hv => hv)
      (emits_set rfl hsubs hvalALT)))
    (.when fun _ => .append (p := [_, _]) (emits_set rfl hsubs hvalALT) (emits_set rfl hsubs hvalALT)))
    (emits_set rfl hsubs hval))
    (.branch (fun _ => .append (p := [_, _]) (emits_set rfl hsubs hval) (emits_set rfl hsubs hval))
      fun _ => emits_m _))
    (emits_jrandom hf))
    (.branch (Q := fun v => ∃ m, Ready cfg fillid jobno t m v)
      (fun _ => .mono (emits_nested hf hsubs) (fun _ hv => hv) fun _ hv => ⟨4, hv.toReady⟩)
      fun _ => .mono .nil (fun _ hv => hv) fun _ hv => ⟨2, hv.1.toReady⟩))
    (.when fun _ => .exists_ fun m => .mono (emits_lasti hf) (fun _ hv => hv) fun _ hv => ⟨m, hv⟩)) ?_
  by_cases htr : cfg.trigger = 0 <;> by_cases hist : cfg.istp = 0 <;> by_cases hcr : cfg.crash = 0 <;>
    by_cases hz : cfg.ztr <;> simp [stage1Rest, Config.noTrigger, ztwormstr, ztrcmd, htr, hist, hcr, hz]

/-- Stage 3. With triggers `^fntp` is read and written back without "suffix". -/
theorem emits_fntp (hf : Fits cfg fillid jobno t) :
    Emits (fun v => At cfg fillid jobno t n x v ∧ (v.keys .fntp).sub 1 = x)
    [setValue cfg t.fntpRead, .assert fun v => 6 ≤ zlength cfg.chset v.bufvalue,
      .act fun v => { v with bufvalue := cutSuffix cfg.chset v.bufvalue }, setValST .fntp Vars.bufvalue]
    [.set .fntp [fillid, x] t.fntp] (At cfg fillid jobno t n x) := by
  intro v hv
  obtain ⟨hv, hx⟩ := hv
  have hfntp : zlength cfg.chset t.fntpRead ≤ BigMaxValueLen := hf.fntp
  refine ⟨{ v with bufvalue := t.fntp }, ?_, ⟨⟨hv.keyed, hv.filled.frame⟩, hv.baryp⟩⟩
  simp [Emit.run, setValue, store, setValST, t.six_le_fntpRead, hv.keyed.pair .fntp rfl, List.range_succ, hx,
    hfntp]

theorem emits_stage3 (hf : Fits cfg fillid jobno t) : Emits (Ready cfg fillid jobno t n)
    (tpfnStage3 cfg fillid t)
    ((stage3 cfg t.loop t.I).map (Cmd.upd fillid t.fntpRead))
    (At cfg fillid jobno t n (cfg.subsMAX t.I)) := by
  have hval : ∀ v, Filled cfg t v → v.bufval = cfg.val t.loop := fun _ => Filled.val
  have hvalMAX : ∀ v, Filled cfg t v → v.bufvalMAX = cfg.valMAX t.loop := fun _ => Filled.valMAX
  have hsubs := hf.subs_big
  have hsubsMAX := hf.subsMAX
  unfold tpfnStage3
  refine .congr (.append (.append (.append (.append (.append
    (.when fun _ => emits_m _)
    (.cons (emits_valBAry fun _ => Filled.subs) (emits_set rfl hsubs hval)))
    (emits_sub rfl hsubs))
    (.branch (fun _ => emits_setValST rfl hval) fun _ => emits_fntp hf))
    (.cons (.mono (emits_valBAry fun _ => Filled.subsMAX) (fun _ => At.toReady) fun _ hv => hv)
      (emits_set rfl hsubsMAX hvalMAX)))
    (.when fun _ => .append (p := [_, _]) (emits_set rfl hsubsMAX hvalMAX)
      (.append (p := [_, _]) (emits_set rfl hsubsMAX hvalMAX) (emits_set rfl hsubsMAX hvalMAX)))) ?_
  by_cases htr : cfg.trigger = 0 <;> by_cases hd : cfg.dztrig <;>
    simp [stage3, Config.noTrigger, Config.doDztrig, imptpdztrig, htr, hd]

/-- **A turn**, with the keys as a turn leaves them. -/
theorem emits_turn (hf : Fits cfg fillid jobno t) : Emits (fun v => ∃ n, Keyed fillid jobno n v.keys)
    (turn cfg fillid jobno t)
    (turnUpdates cfg fillid jobno t (cfg.istp ≠ 0 ∧ cfg.crash ≠ 0) (cfg.val t.loop))
    (fun v => ∃ n, Keyed fillid jobno n v.keys) := by
  refine .exists_ fun n => ?_
  unfold turn turnUpdates turnCmds
  refine .congr (.append (.append (.append (.append (emits_fill hf) (emits_stage1 hf))
    (.exists_ fun m => .mono (emits_stage2 hf) (fun _ hv => hv) fun _ hv => ⟨m, hv.toReady⟩))
    (.exists_ fun m => .mono (emits_stage3 hf) (fun _ hv => hv) fun _ hv => ⟨m, hv.keyed⟩)) (emits_m _)) ?_
  simp only [List.map_append, decide_eq_true_eq]

end Stages

/-! ## 4. Runs -/

/-- `valALT` is longer than `val` where M pads it. -/
theorem valALT_eq_val_iff (cfg : Config) (loop : Nat) :
    cfg.valALT loop = cfg.val loop ↔ (cfg.span ≤ 1 ∨ cfg.recpad loop ≤ (cfg.val loop).length) := by
  unfold Config.valALT
  split
  · rename_i hs
    rw [or_iff_right (Nat.not_le.2 hs)]
    constructor
    · intro h
      have hlen := congrArg List.length h
      simp only [Config.valMAX, justify, List.length_append, List.length_replicate] at hlen
      omega
    · intro h
      rw [Config.valMAX, justify, Int.toNat_eq_zero.2 (by omega)]
      rfl
  · rename_i hs
    exact iff_of_true rfl (.inl (Nat.not_lt.1 hs))

/-- Where the two workers treat a restarted transaction alike. -/
theorem restart_iff (istp crash : Nat) :
    (istp ≠ 0 ∧ crash ≠ 0 ↔ istp = 1 ∧ crash ≠ 0) ↔ istp ≤ 1 ∨ crash = 0 := by
  omega

/-- If the sizes of keys and records fit the buffers, then for every run of the loop the worker in Go makes
the updates of the worker in M, with the keys as they are made before it and any buffers, if and only if
there is no crash test with ZTP, and no value is padded in M: `^dntp` gets `val` in place of `valALT`. -/
theorem go_turns_eq_iff {cfg : Config} (hroom : cfg.Room) :
    (∀ (fillid : MStr) (jobno : Nat) (ts : List Turn) (v : Vars), IsJob cfg.chset fillid jobno →
      (∀ t ∈ ts, t.IsInt cfg.chset) → v.keys = newKeys fillid jobno →
      (Emit.run (ts.flatMap (turn cfg fillid jobno)) v).map Prod.fst =
        some (ts.flatMap (updates cfg fillid jobno))) ↔
    (cfg.istp ≤ 1 ∨ cfg.crash = 0) ∧
      (cfg.span ≤ 1 ∨ ∀ loop < 2 ^ 31, cfg.recpad loop ≤ (cfg.val loop).length) := by
  constructor
  · intro h
    have hjob : IsJob cfg.chset [] 1 := ⟨by simp [zlength], by decide⟩
    have hturn (loop : Nat) (hloop : loop < 2 ^ 31) :
        (cfg.istp ≠ 0 ∧ cfg.crash ≠ 0 ↔ cfg.istp = 1 ∧ cfg.crash ≠ 0) ∧ cfg.val loop = cfg.valALT loop := by
      have hint : (restartedTurn loop).IsInt cfg.chset := isInt_restartedTurn _ hloop
      have ht := h [] 1 [restartedTurn loop] ⟨newKeys [] 1, [], [], [], [], [], [], [], [], []⟩ hjob
        (fun t hmem => List.mem_singleton.1 hmem ▸ hint) rfl
      rw [List.flatMap_singleton, List.flatMap_singleton,
        (emits_turn (hroom.fits hjob hint)).calls_eq ⟨4, keyed_newKeys [] 1⟩, updates_eq] at ht
      have hinj := turnUpdates_inj cfg [] 1 _ Nat.one_ne_zero (Option.some.inj ht)
      exact ⟨decide_eq_decide.1 hinj.1, hinj.2⟩
    refine ⟨(restart_iff _ _).1 (hturn 0 (by decide)).1, ?_⟩
    by_cases hs : cfg.span ≤ 1
    · exact .inl hs
    · exact .inr fun loop hloop =>
        ((valALT_eq_val_iff cfg loop).1 (hturn loop hloop).2.symm).resolve_left hs
  · intro h fillid jobno ts v hjob hint hv
    obtain ⟨hrestart, hpad⟩ := h
    have hdntp (loop : Nat) (hloop : loop < 2 ^ 31) : cfg.valALT loop = cfg.val loop :=
      (valALT_eq_val_iff cfg loop).2 (hpad.imp_right fun h => h loop hloop)
    have hturn : ∀ t ∈ ts, Emits (fun v => ∃ n, Keyed fillid jobno n v.keys) (turn cfg fillid jobno t)
        (updates cfg fillid jobno t) (fun v => ∃ n, Keyed fillid jobno n v.keys) := by
      intro t ht
      rw [updates_eq, ← decide_eq_decide.2 ((restart_iff _ _).2 hrestart), hdntp _ (hint t ht).loop]
      exact emits_turn (hroom.fits hjob (hint t ht))
    exact (Emits.repeat_ hturn).calls_eq ⟨4, hv ▸ keyed_newKeys fillid jobno⟩

theorem go_turns_eq_iff_crashTest :
    (∀ (fillid : MStr) (jobno : Nat) (ts : List Turn) (v : Vars), IsJob crashTest.chset fillid jobno →
      (∀ t ∈ ts, t.IsInt crashTest.chset) → v.keys = newKeys fillid jobno →
      (Emit.run (ts.flatMap (turn crashTest fillid jobno)) v).map Prod.fst =
        some (ts.flatMap (updates crashTest fillid jobno))) ↔
    (crashTest.istp ≤ 1 ∨ crashTest.crash = 0) ∧
      (crashTest.span ≤ 1 ∨ ∀ loop < 2 ^ 31, crashTest.recpad loop ≤ (crashTest.val loop).length) :=
  go_turns_eq_iff room_crashTest

end YottaTest.Imptp.GoWorker
