/-
  File:      YottaTest/Imptp/Helpers.lean
  Subject:   The updates of an iteration as the database gets them, and the parts of an iteration that the
             workers in C, Go and Rust leave to M.

  A worker in another language passes texts: subscripts and values are filled into buffers, and the
  first subscript of most nodes is `fillid`. So what two workers do is compared as texts.

  * `Upd`, `Cmd.upd` -- an update with all its texts; commands that are not a plain SET stay as they are;
  * `helper1`, `helper2`, `helper3`, `imptpdztrig`, `ztwormstr`, `ztrcmd` -- imptpxc.m;
  * `Turn`, `turnCmds` -- an iteration with the updates of a restarted transaction and of stage 2 left open;
    `updates` -- an iteration of the M worker; `turnUpdates_inj`: where others make no such updates;
  * `takeBytes` -- the start of a value, counted in bytes, as it is cut in the other languages;
  * `Fits` -- what buffers of 256 and 1536 bytes need; `Config.Room.fits`: the sizes that give it.
-/
import YottaTest.Imptp.Buffers
import YottaTest.Imptp.Worker

namespace YottaTest.Imptp

open YottaTest.Lib YottaTest.M

/-! ## 1. Updates as texts -/

/-- An update as it reaches the database, or another command of an M routine. -/
inductive Upd where
  | set (g : Gvn) (subs : List MStr) (v : MStr)
  | m (c : Cmd)
  deriving DecidableEq

/-- A subscript as text. -/
def subText : Sub → MStr
  | .num n => natStr n
  | .str s => s

/-- All subscripts of a node: `fillid` in front, but for `^zdummy`. -/
def subTexts (fillid : MStr) (n : GNode) : List MStr :=
  (if n.gvn = .zdummy then [] else [fillid]) ++ n.subs.map subText

/-- `fntp` is the value of `^fntp(fillid,subs)` when stage 3 reads it. -/
def Cmd.upd (fillid fntp : MStr) : Cmd → Upd
  | .set n (.lit v) => .set n.gvn (subTexts fillid n) v.toStr
  | .set n (.dropSuffix _) => .set n.gvn (subTexts fillid n) (fntp.take (fntp.length - 6))
  | c => .m c

section Upd

variable {fillid fntp : MStr} {g : Gvn}

theorem upd_setStr (n : GNode) (v : MStr) :
    (setStr n v).upd fillid fntp = .set n.gvn (subTexts fillid n) v := rfl

theorem upd_setNum (n : GNode) (k : Nat) :
    (setNum n k).upd fillid fntp = .set n.gvn (subTexts fillid n) (natStr k) := rfl

theorem subTexts_of_ne {n : GNode} (hg : n.gvn ≠ .zdummy) : subTexts fillid n = fillid :: n.subs.map subText := by
  rw [subTexts, if_neg hg]
  rfl

@[simp] theorem upd_setStr_str (hg : g ≠ .zdummy) (s v : MStr) :
    (setStr (strNode g s) v).upd fillid fntp = .set g [fillid, s] v := by
  rw [upd_setStr, subTexts_of_ne hg]
  rfl

@[simp] theorem upd_setStr_num (hg : g ≠ .zdummy) (n : Nat) (v : MStr) :
    (setStr (numNode g n) v).upd fillid fntp = .set g [fillid, natStr n] v := by
  rw [upd_setStr, subTexts_of_ne hg]
  rfl

@[simp] theorem upd_setStr_numNum (hg : g ≠ .zdummy) (m n : Nat) (v : MStr) :
    (setStr (numNumNode g m n) v).upd fillid fntp = .set g [fillid, natStr m, natStr n] v := by
  rw [upd_setStr, subTexts_of_ne hg]
  rfl

@[simp] theorem upd_setStr_three (hg : g ≠ .zdummy) (m n : Nat) (s v : MStr) :
    (setStr ⟨g, [.num m, .num n, .str s]⟩ v).upd fillid fntp =
      .set g [fillid, natStr m, natStr n, s] v := by
  rw [upd_setStr, subTexts_of_ne hg]
  rfl

@[simp] theorem upd_setNum_num (hg : g ≠ .zdummy) (n k : Nat) :
    (setNum (numNode g n) k).upd fillid fntp = .set g [fillid, natStr n] (natStr k) := by
  rw [upd_setNum, subTexts_of_ne hg]
  rfl

@[simp] theorem upd_setNum_zdummy (n k : Nat) :
    (setNum (numNode .zdummy n) k).upd fillid fntp = .set .zdummy [natStr n] (natStr k) := rfl

@[simp] theorem upd_dropSuffix (s : MStr) (n : GNode) :
    (Cmd.set (strNode .fntp s) (.dropSuffix n)).upd fillid fntp =
      .set .fntp [fillid, s] (fntp.take (fntp.length - 6)) := rfl

end Upd

/-! ## 2. imptpxc.m -/

section Helpers

variable (cfg : Config) (jobno loop I : Nat) (ch : Chance)

/-- `do:dztrig ^imptpdztrig(2,istp<2)`. -/
def imptpdztrig : List Cmd := cfg.doDztrig 2

/-- `set $ztwormhole=subs`. -/
def ztwormstr : List Cmd := [.ztwormhole (.str (cfg.subs I))]

/-- `ztrigger ^lasti(fillid,jobno,loop)`. -/
def ztrcmd : List Cmd := [.ztrigger (numNumNode .lasti jobno loop)]

/-- The updates of `helper1`; it also makes subs, val, valMAX, valALT and subsMAX. -/
def helper1 : List Cmd := cfg.doDztrig 1

/-- Stage 2 up to `^antp`, outside of a transaction. -/
def helper2 : List Cmd := if ch.rndm2 < 5 ∧ cfg.trigger ≠ 0 then [.ztriggerItem ch.item2] else []

/-- Stages 4 to 11: the lines of imptp.m, without those for ZTP. -/
def helper3 : List Cmd :=
  ((List.range cfg.jobcnt).flatMap fun j => stage4 cfg loop I (j + 1))
    ++ stage5 cfg jobno loop I ch ++ stage6 cfg I ++ stage7 cfg loop I ++ stage8 cfg I ch ++ stage9 cfg
    ++ stage10 cfg jobno loop I ++ stage11 cfg jobno loop I

/-- Stage 2 from `^antp` on, with the value of `^dntp`. -/
def stage2Sets (dntp : MStr) : List Cmd :=
  [setStr (strNode .antp (cfg.subs I)) (cfg.val loop)]
    ++ cfg.noTrigger
        [setStr (strNode .bntp (cfg.subs I)) (cfg.val loop),
          setStr (strNode .cntp (cfg.subs I)) (cfg.val loop)]
    ++ [setStr (strNode .dntp (cfg.subs I)) dntp]

theorem stage2_eq :
    stage2 cfg loop I ch = helper2 cfg ch ++ stage2Sets cfg loop I (cfg.valALT loop) := by
  unfold stage2 helper2 stage2Sets Config.noTrigger
  by_cases h : cfg.trigger = 0
  · simp [h]
  · simp [h]

/-! ## 3. Iterations -/

/-- What a try of the transaction of stage 1 does more if it is not the first one. -/
def restarted : List Cmd :=
  (if ch.rndm1 = 1 ∧ ch.trestart1 > 2 then noop jobno loop ch else [])
    ++ (if ch.trestart1 ≠ 0 then [setNum (numNode .zdummy ch.trestart1) jobno] else [])

/-- Stage 1 from `^brandomv` on. -/
def stage1Rest : List Cmd :=
  [setStr (strNode .brandomv (cfg.subsMAX I)) (cfg.valALT loop)]
    ++ cfg.noTrigger [setStr (strNode .crandomva (cfg.subsMAX I)) (cfg.valALT loop)]
    ++ [setStr (strNode .drandomvariable (cfg.subs I)) (cfg.valALT loop)]
    ++ cfg.noTrigger
        [setStr (strNode .erandomvariableimptp (cfg.subs I)) (cfg.valALT loop),
          setStr (strNode .frandomvariableinimptp (cfg.subs I)) (cfg.valALT loop)]
    ++ [setStr (strNode .grandomvariableinimptpfill (cfg.subs I)) (cfg.val loop)]
    ++ cfg.noTrigger
        [setStr (strNode .hrandomvariableinimptpfilling (cfg.subs I)) (cfg.val loop),
          setStr (strNode .irandomvariableinimptpfillprgrm (cfg.subs I)) (cfg.val loop)]
    ++ (if cfg.trigger ≠ 0 then ztwormstr cfg I else [])
    ++ [setStr (numNode .jrandomvariableinimptpfillprogram I) (cfg.val loop)]
    ++ cfg.noTrigger
        [setStr (numNumNode .jrandomvariableinimptpfillprogram I I) (cfg.val loop),
          setStr ⟨.jrandomvariableinimptpfillprogram, [.num I, .num I, .str (cfg.subs I)]⟩
            (cfg.val loop)]
    ++ (if cfg.istp ≠ 0 then
          (if cfg.ztr then ztrcmd jobno loop else []) ++ [setNum (numNode .lasti jobno) loop]
        else [])

theorem stage1_eq : stage1 cfg jobno loop I ch =
    [setStr (strNode .arandom (cfg.subsMAX I)) (cfg.val loop)]
      ++ (if cfg.istp = 1 ∧ cfg.crash ≠ 0 then restarted jobno loop ch else [])
      ++ stage1Rest cfg jobno loop I := by
  simp only [stage1, restarted, stage1Rest, ztwormstr, ztrcmd, List.append_assoc]

end Helpers

/-- An iteration: what a run determines of it, and what it does not. -/
structure Turn where
  loop : Nat
  I : Nat
  ch : Chance
  /-- `^fntp(fillid,subs)` as the trigger on `^entp` sets it, up to "suffix". -/
  fntp : MStr

/-- `^fntp(fillid,subs)` when stage 3 reads it. -/
def Turn.fntpRead (t : Turn) : MStr := t.fntp ++ lit "suffix"

section Turns

variable (cfg : Config) (fillid : MStr) (jobno : Nat) (t : Turn)

/-- An iteration, cut where the other workers call M, with the updates of a restarted transaction and
those of stage 2. -/
def turnCmds (restart sets : List Cmd) : List Cmd :=
  helper1 cfg
    ++ ([setStr (strNode .arandom (cfg.subsMAX t.I)) (cfg.val t.loop)] ++ restart
      ++ stage1Rest cfg jobno t.loop t.I)
    ++ (helper2 cfg t.ch ++ sets) ++ stage3 cfg t.loop t.I ++ helper3 cfg jobno t.loop t.I t.ch

theorem cmds_iteration_eq : cmds (iteration cfg jobno t.loop t.I t.ch) = turnCmds cfg jobno t
    (if cfg.istp = 1 ∧ cfg.crash ≠ 0 then restarted jobno t.loop t.ch else [])
    (stage2Sets cfg t.loop t.I (cfg.valALT t.loop)) := by
  simp [turnCmds, cmds, iteration, ← stage2_eq, stage1_eq, helper1, helper3, List.flatMap_map]

/-- **The updates of an iteration of the M worker**: imptp.m, lines 245 to 441. -/
def updates : List Upd :=
  (cmds (iteration cfg jobno t.loop t.I t.ch)).map (Cmd.upd fillid t.fntpRead)

/-- The same with or without the updates of a restarted transaction, and with another value of `^dntp`. -/
def turnUpdates (restart : Bool) (dntp : MStr) : List Upd :=
  (turnCmds cfg jobno t (if restart then restarted jobno t.loop t.ch else [])
    (stage2Sets cfg t.loop t.I dntp)).map (Cmd.upd fillid t.fntpRead)

theorem updates_eq :
    updates cfg fillid jobno t =
      turnUpdates cfg fillid jobno t (cfg.istp = 1 ∧ cfg.crash ≠ 0) (cfg.valALT t.loop) := by
  simp only [updates, turnUpdates, cmds_iteration_eq, decide_eq_true_eq]

theorem turnUpdates_length (d : MStr) :
    (turnUpdates cfg fillid jobno t true d).length =
      (turnUpdates cfg fillid jobno t false d).length + (restarted jobno t.loop t.ch).length := by
  simp [turnUpdates, turnCmds]
  omega

/-- The value of `^dntp` can be seen. -/
theorem turnUpdates_dntp_inj {r : Bool} {d d' : MStr}
    (he : turnUpdates cfg fillid jobno t r d = turnUpdates cfg fillid jobno t r d') : d = d' := by
  simpa [turnUpdates, turnCmds, stage2Sets] using he

/-- So can the updates of a restarted transaction. -/
theorem turnUpdates_inj (h : t.ch.trestart1 ≠ 0) {r r' : Bool} {d d' : MStr}
    (he : turnUpdates cfg fillid jobno t r d = turnUpdates cfg fillid jobno t r' d') : r = r' ∧ d = d' := by
  have hpos : 0 < (restarted jobno t.loop t.ch).length := by simp [restarted, h]
  have hlen (b : Bool) : (turnUpdates cfg fillid jobno t b d).length =
      (turnUpdates cfg fillid jobno t b d').length := by simp [turnUpdates, turnCmds, stage2Sets]
  have hr : r = r' := by
    have hl := congrArg List.length he
    cases r <;> cases r'
    · rfl
    · rw [turnUpdates_length, hlen] at hl
      omega
    · rw [turnUpdates_length, hlen] at hl
      omega
    · rfl
  subst hr
  exact ⟨rfl, turnUpdates_dntp_inj cfg fillid jobno t he⟩

end Turns

/-! ## 4. Values in bytes -/

/-- The bytes of a character. -/
def bytesOf : Chset → MChar → List Nat
  | _, .byte b => [b]
  | .m, .chr c => [c]
  | .utf8, .chr c =>
      if c < 0x80 then [c]
      else if c < 0x800 then [0xC0 + c / 64, 0x80 + c % 64]
      else if c < 0x10000 then [0xE0 + c / 4096, 0x80 + c / 64 % 64, 0x80 + c % 64]
      else [0xF0 + c / 262144, 0x80 + c / 4096 % 64, 0x80 + c / 64 % 64, 0x80 + c % 64]

/-- The first `n` bytes of a text; of a character that is cut, its first bytes remain. -/
def takeBytes (cs : Chset) : Nat → MStr → MStr
  | _, [] => []
  | n, c :: s =>
      if c.size cs ≤ n then c :: takeBytes cs (n - c.size cs) s
      else ((bytesOf cs c).take n).map .byte

/-- `value.len_used -= 6`. -/
def cutSuffix (cs : Chset) (s : MStr) : MStr := takeBytes cs (zlength cs s - 6) s

theorem size_pos (cs : Chset) (c : MChar) : 0 < c.size cs := by
  cases cs with
  | m => exact Nat.one_pos
  | utf8 =>
    cases c with
    | byte b => exact Nat.one_pos
    | chr n =>
      simp only [MChar.size]
      repeat' split
      all_goals decide

theorem takeBytes_zero (cs : Chset) (s : MStr) : takeBytes cs 0 s = [] := by
  cases s with
  | nil => rfl
  | cons c s => rw [takeBytes, if_neg (Nat.not_le.2 (size_pos cs c)), List.take_zero, List.map_nil]

theorem takeBytes_append (cs : Chset) (s t : MStr) : takeBytes cs (zlength cs s) (s ++ t) = s := by
  induction s with
  | nil => exact takeBytes_zero cs t
  | cons c s ih =>
    have hle : c.size cs ≤ zlength cs (c :: s) := by simp [zlength]
    have hsub : zlength cs (c :: s) - c.size cs = zlength cs s := by simp [zlength]
    rw [List.cons_append, takeBytes, if_pos hle, hsub, ih]

theorem zlength_suffix (cs : Chset) : zlength cs (lit "suffix") = 6 := by
  cases cs <;> decide

/-- **The text "suffix" is cut off the same way in bytes and in characters.** -/
theorem cutSuffix_append (cs : Chset) (s : MStr) : cutSuffix cs (s ++ lit "suffix") = s := by
  rw [cutSuffix, zlength_append, zlength_suffix, Nat.add_sub_cancel]
  exact takeBytes_append cs s _

theorem take_suffix (s : MStr) : (s ++ lit "suffix").take ((s ++ lit "suffix").length - 6) = s := by
  have hlen : (lit "suffix").length = 6 := by decide
  rw [List.length_append, hlen, Nat.add_sub_cancel, List.take_left']
  rfl

section FntpRead

variable (t : Turn) (cs : Chset)

@[simp] theorem Turn.take_fntpRead : t.fntpRead.take (t.fntpRead.length - 6) = t.fntp := take_suffix t.fntp

@[simp] theorem Turn.cutSuffix_fntpRead : cutSuffix cs t.fntpRead = t.fntp := cutSuffix_append cs t.fntp

theorem Turn.six_le_fntpRead : 6 ≤ zlength cs t.fntpRead := by
  rw [Turn.fntpRead, zlength_append, zlength_suffix]
  exact Nat.le_add_left 6 _

end FntpRead

/-! ## 5. Buffers of fixed size -/

/-- The texts of an iteration fit their buffers: of `BIGMAXVALUELEN` bytes for what is padded and for what
is passed on, else of `MAXVALUELEN`. -/
structure Fits (cfg : Config) (fillid : MStr) (jobno : Nat) (t : Turn) : Prop where
  subsMAX : zlength cfg.chset (cfg.subsMAX t.I) ≤ BIGMAXVALUELEN
  val : zlength cfg.chset (cfg.val t.loop) ≤ MAXVALUELEN
  valALT : zlength cfg.chset (cfg.valALT t.loop) ≤ MAXVALUELEN
  valMAX : zlength cfg.chset (cfg.valMAX t.loop) ≤ BIGMAXVALUELEN
  subs : zlength cfg.chset (cfg.subs t.I) ≤ MAXVALUELEN
  I : zlength cfg.chset (natStr t.I) ≤ MAXVALUELEN
  loop : zlength cfg.chset (natStr t.loop) ≤ MAXVALUELEN
  trestart1 : zlength cfg.chset (natStr t.ch.trestart1) ≤ MAXVALUELEN
  fillid : zlength cfg.chset fillid ≤ MAXVALUELEN
  jobno : zlength cfg.chset (natStr jobno) ≤ MAXVALUELEN
  fntp : zlength cfg.chset t.fntpRead ≤ BIGMAXVALUELEN

namespace Fits

variable {cfg : Config} {fillid : MStr} {jobno : Nat} {t : Turn}

theorem subs_big (hf : Fits cfg fillid jobno t) : zlength cfg.chset (cfg.subs t.I) ≤ BIGMAXVALUELEN :=
  Nat.le_trans hf.subs (by decide)

theorem I_big (hf : Fits cfg fillid jobno t) : zlength cfg.chset (natStr t.I) ≤ BIGMAXVALUELEN :=
  Nat.le_trans hf.I (by decide)

end Fits

/-- The sizes of a run for which all texts fit. With spanning nodes `valALT` is padded too. -/
structure Config.Room (cfg : Config) : Prop where
  key : cfg.keysize ≤ BIGMAXVALUELEN
  record : cfg.recsize ≤ BIGMAXVALUELEN
  padded : 1 < cfg.span → cfg.recsize ≤ MAXVALUELEN

/-- The numbers of an iteration are `int`s, and `^fntp` is short. -/
structure Turn.IsInt (cs : Chset) (t : Turn) : Prop where
  loop : t.loop < 2 ^ 31
  I : t.I < 2 ^ 31
  trestart1 : t.ch.trestart1 < 2 ^ 31
  fntp : zlength cs t.fntp ≤ MAXVALUELEN

/-- A worker of a job number that is an `int`, with a short `fillid`. -/
structure IsJob (cs : Chset) (fillid : MStr) (jobno : Nat) : Prop where
  fillid : zlength cs fillid ≤ MAXVALUELEN
  jobno : jobno < 2 ^ 31

theorem zlength_justify (cs : Chset) (s : MStr) (n : Int) :
    zlength cs (justify s n) = (n - s.length).toNat + zlength cs s := by
  rw [justify, zlength_append, zlength_replicate_blank]

/-- A short text that is padded up to a size is no longer than that. -/
theorem zlength_padded {cs : Chset} {s : MStr} {n : Int} {size room : Nat} (hs : zlength cs s ≤ room)
    (hsize : size ≤ room) (hn : n ≤ size - (zlength cs s - s.length)) : zlength cs (justify s n) ≤ room := by
  have hle := length_le_zlength cs s
  rw [zlength_justify]
  omega

section Room

variable {cfg : Config} {t : Turn}

theorem recpad_le (cfg : Config) (loop : Nat) :
    cfg.recpad loop ≤ cfg.recsize - (zlength cfg.chset (cfg.val loop) - (cfg.val loop).length) := by
  unfold Config.recpad
  simp only
  split
  · omega
  · omega

theorem zlength_subsMAX (hroom : cfg.Room) (hsubs : zlength cfg.chset (cfg.subs t.I) ≤ MAXVALUELEN) :
    zlength cfg.chset (cfg.subsMAX t.I) ≤ BIGMAXVALUELEN := by
  have hle := length_le_zlength cfg.chset (cfg.subs t.I)
  have hkey := hroom.key
  unfold Config.subsMAX Config.keypad
  rw [zlength_justify]
  unfold MAXVALUELEN at hsubs
  unfold BIGMAXVALUELEN MAXVALUELEN at hkey ⊢
  split
  · omega
  · omega

/-- **With such sizes the texts of every iteration fit.** -/
theorem Config.Room.fits (hroom : cfg.Room) {fillid : MStr} {jobno : Nat} (hjob : IsJob cfg.chset fillid jobno)
    (ht : t.IsInt cfg.chset) : Fits cfg fillid jobno t := by
  have hnat : ∀ {n}, n < 2 ^ 31 → zlength cfg.chset (natStr n) ≤ MAXVALUELEN := fun hn =>
    Nat.le_trans (zlength_natStr _ hn) (by decide)
  have hval : zlength cfg.chset (cfg.val t.loop) ≤ MAXVALUELEN := zlength_ugenstr _ ht.loop
  have hsubs : zlength cfg.chset (cfg.subs t.I) ≤ MAXVALUELEN := zlength_ugenstr _ ht.I
  have hbig : MAXVALUELEN ≤ BIGMAXVALUELEN := by decide
  have hpad := recpad_le cfg t.loop
  have hvalALT : zlength cfg.chset (cfg.valALT t.loop) ≤ MAXVALUELEN := by
    unfold Config.valALT
    split
    · rename_i hspan
      exact zlength_padded hval (hroom.padded hspan) hpad
    · exact hval
  have hfntp := ht.fntp
  exact
    { subsMAX := zlength_subsMAX hroom hsubs
      val := hval
      valALT := hvalALT
      valMAX := zlength_padded (Nat.le_trans hval hbig) hroom.record hpad
      subs := hsubs
      I := hnat ht.I
      loop := hnat ht.loop
      trestart1 := hnat ht.trestart1
      fillid := hjob.fillid
      jobno := hnat hjob.jobno
      fntp := by
        rw [Turn.fntpRead, zlength_append, zlength_suffix]
        unfold MAXVALUELEN at hfntp
        unfold BIGMAXVALUELEN MAXVALUELEN
        omega }

end Room

/-- A turn whose transaction was restarted once. -/
def restartedTurn (loop : Nat) : Turn := ⟨loop, 1, ⟨0, 1, 0, 0, 0, 0, 0, 0, [], 0⟩, []⟩

theorem isInt_restartedTurn (cs : Chset) {loop : Nat} (h : loop < 2 ^ 31) : (restartedTurn loop).IsInt cs :=
  ⟨h, show 1 < 2 ^ 31 by decide, show 1 < 2 ^ 31 by decide, Nat.zero_le _⟩

/-- A crash test in transactions, with keys and records of 255 and 512 bytes. -/
def crashTest : Config where
  jobcnt := 2
  istp := 1
  trigger := 0
  crash := 1
  gtcm := 0
  span := 1
  keysize := 255
  recsize := 512
  chset := .m

theorem room_crashTest : crashTest.Room := ⟨by decide, by decide, by decide⟩

end YottaTest.Imptp
