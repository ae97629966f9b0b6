/-
  File:      YottaTest/Imptp/Values.lean
  Subject:   The set-up of an imptp run and the strings of one iteration.

  imptp and checkdb compute the same strings from the index `I` and the loop number, each in its
  own code; checkdb's copy is the same text, so both are modelled by the definitions here.

  * `Config` -- what `^%imptp(fillid,…)` and the environment set up;
  * `subs`, `subsMAX`, `val`, `valMAX`, `valALT` -- the subscripts and values, padded and not;
  * `valPIECE`, `totalpieces`, `targetpiece` -- the delimited value of the spanning nodes;
  * `strip_subsMAX` -- taking leading blanks off gives back the subscript, padded or not;
    `subs_inj` -- and that gives back the index.
-/
import YottaTest.Imptp.Gen

namespace YottaTest.Imptp

open YottaTest.Lib YottaTest.M

/-- The set-up of a run. `trigger` is 0, 1, or 1 with a second digit pair for `$ZTRIGGER`
    testing; `keysize`, `recsize` and `span` size the nodes. -/
structure Config where
  jobcnt : Nat
  istp : Nat
  trigger : Nat
  crash : Nat
  gtcm : Nat
  span : Nat
  keysize : Nat
  recsize : Nat
  chset : Chset
  deriving DecidableEq, Repr

namespace Config

variable (cfg : Config)

/-- `set subs=$$^ugenstr(I)`. -/
def subs (I : Nat) : MStr := ugenstr cfg.chset I

/-- `set val=$$^ugenstr(loop)`. -/
def val (loop : Nat) : MStr := ugenstr cfg.chset loop

/-- `set recpad=recsize-($$^dzlenproxy(val)-$length(val))`, for ZTP at most 800. -/
def recpad (loop : Nat) : Int :=
  let recpad : Int := cfg.recsize - (zlength cfg.chset (cfg.val loop) - (cfg.val loop).length)
  if cfg.istp = 2 ∧ recpad > 800 then 800 else recpad

/-- `set valMAX=$j(val,recpad)`. -/
def valMAX (loop : Nat) : MStr := justify (cfg.val loop) (cfg.recpad loop)

/-- `set valALT=$select(span>1:valMAX,1:val)`. -/
def valALT (loop : Nat) : MStr := if cfg.span > 1 then cfg.valMAX loop else cfg.val loop

/-- `set keypad=$select(istp=2:1,1:keysize-($$^dzlenproxy(subs)-$length(subs)))`. -/
def keypad (I : Nat) : Int :=
  if cfg.istp = 2 then 1
  else cfg.keysize - (zlength cfg.chset (cfg.subs I) - (cfg.subs I).length)

/-- `set subsMAX=$j(subs,keypad)`. -/
def subsMAX (I : Nat) : MStr := justify (cfg.subs I) (cfg.keypad I)

/-- `set valj=valALT_J`. -/
def valj (loop J : Nat) : MStr := cfg.valALT loop ++ natStr J

end Config

/-- `for i=1:1:totalpieces set:($extract(valPIECE,(piecesize*i))=" ")
    $extract(valPIECE,(piecesize*i))="|"`, with `totalpieces` the length over 7, plus 1. -/
def markPieces (s : MStr) : MStr :=
  (List.range (s.length / 7 + 1)).foldl
    (fun s i => if s[7 * (i + 1) - 1]? = some blank then s.set (7 * (i + 1) - 1) bar else s) s

namespace Config

variable (cfg : Config)

/-- `valMAX` with a delimiter at every 7th blank position. -/
def valPIECE (loop : Nat) : MStr := markPieces (cfg.valMAX loop)

/-- `set totalpieces=$length(valPIECE,"|")`. -/
def totalpieces (loop : Nat) : Nat := numPieces bar (cfg.valPIECE loop)

/-- `set targetpiece=(loop#(totalpieces))`. -/
def targetpiece (loop : Nat) : Nat := loop % cfg.totalpieces loop

end Config

/-! ## Subscripts and their index -/

/-- A subscript without leading blanks. -/
def strip (s : MStr) : MStr := s.dropWhile fun c => c = blank

section Strip

variable (cfg : Config) {I : Nat}

/-- **The padding comes off**: both subscripts of an iteration strip to the unpadded one. -/
theorem strip_subsMAX (hI : I ≠ 0) : strip (cfg.subsMAX I) = cfg.subs I :=
  dropWhile_blank_justify (head_ugenstr_ne_blank cfg.chset hI) _

theorem strip_subs (hI : I ≠ 0) : strip (cfg.subs I) = cfg.subs I := by
  have h := dropWhile_blank_justify (head_ugenstr_ne_blank cfg.chset hI) 0
  have hself : justify (ugenstr cfg.chset I) 0 = ugenstr cfg.chset I := by
    have h0 : ((0 : Int) - (ugenstr cfg.chset I).length).toNat = 0 := by omega
    rw [justify, h0]
    rfl
  rw [hself] at h
  exact h

theorem subs_inj {I' : Nat} (hI : I ≠ 0) (hI' : I' ≠ 0) (h : cfg.subs I = cfg.subs I') : I = I' :=
  ugenstr_inj hI hI' h

end Strip

end YottaTest.Imptp
