/-
  File:      YottaTest/Rollback/Resyncseqno.lean
  Subject:   getresyncseqno.m: the targets of successive online rollbacks, and the floor they keep to.

  The floor is raised half the way to each target, printed, and given to the next call as a text.

  * `Num`, `Num.text` -- a number with at most a half behind the point, and how it is printed;
  * `rollseqno`, `func`, `getresyncseqno` -- the target for a draw, the output of a call;
  * `trace` -- the floors a sequence of calls is given;
  * `Safe` -- what is promised of a call; `Wholes`: the draws that raise the floor by a whole number;
  * `safe_of_whole`, `not_safe_of_half` -- a whole floor is kept to, one with a half is lost;
  * `run_floor_iff` -- **when every call of a sequence keeps to the floor.**
-/
import YottaTest.Lib.Digits
import YottaTest.Lib.Pieces

namespace YottaTest.Rollback

open YottaTest.Lib

abbrev Text := List Char

/-! ## 1. The routine -/

/-- A number with at most a half behind the point: twice its value. -/
structure Num where
  twice : Int
  deriving DecidableEq, Repr

def Num.ofNat (n : Nat) : Num := ⟨2 * n⟩

/-- The text without the sign. -/
def absText (twice : Nat) : Text :=
  if twice % 2 = 0 then Nat.toDigits 10 (twice / 2)
  else (if twice / 2 = 0 then [] else Nat.toDigits 10 (twice / 2)) ++ ['.', '5']

/-- What `WRITE` prints. -/
def Num.text (x : Num) : Text :=
  (if x.twice < 0 then ['-'] else []) ++ absText x.twice.natAbs

/-- gtm_test_online_rollback_no_max_seqno and gtm_test_online_rollback_no_min_seqno -/
structure Environ where
  nomax : Bool
  nomin : Bool

/-- `$$rollseqno(seqno,floor)`, where `$random(20)` gives `mode`. -/
def rollseqno (env : Environ) (mode : Nat) (seqno floor : Int) : Int :=
  if env.nomax = false ∧ mode = 5 then floor + 2 * seqno
  else if env.nomin = false ∧ mode = 7 then floor + 1
  else
    let rolseqno := seqno - floor
    let seqno := rolseqno.tdiv 2 + 1
    let seqno := if mode = 2 then rolseqno.tdiv 4 + 1 else seqno
    let seqno := if mode % 3 = 0 then (2 * seqno).tdiv 3 + 1 else seqno
    let seqno := if mode % 4 = 0 then 3 * rolseqno.tdiv 4 + 1 else seqno
    floor + seqno

/-- What `$$getseqnos` finds in the instance file. -/
structure Seqnos where
  jnlseqno : Nat
  resyncseqnolist : List Nat
  deriving DecidableEq, Repr

/-- The lines printed; those in hexadecimal repeat the others. -/
structure Output where
  floor_seq : Option Num
  curr_jnl_seqno : Nat
  curr_resync_seqnos : List Nat
  roll_seqno : Int
  deriving DecidableEq, Repr

def jnl : Text := ['j', 'n', 'l']

/-- The sequence number the rollback starts from. -/
def current (whichseqno : Text) (s : Seqnos) : Nat :=
  if whichseqno ≠ jnl then s.resyncseqnolist.head?.getD 0 else s.jnlseqno

/-- `FUNC(whichseqno,floorseqno)` -/
def func (env : Environ) (mode : Nat) (whichseqno : Text) (floorseqno : Int) (s : Seqnos) : Output :=
  let rollseqno := rollseqno env mode (current whichseqno s) floorseqno
  -- raise the floor
  let floor : Num :=
    if 0 < floorseqno ∧ 0 < rollseqno then ⟨2 * floorseqno + (rollseqno - floorseqno)⟩
    else ⟨2 * floorseqno⟩
  { floor_seq := if floor.twice ≠ 0 then some floor else none
    curr_jnl_seqno := s.jnlseqno
    curr_resync_seqnos := s.resyncseqnolist
    roll_seqno := rollseqno }

/-- `floorseqno?1.N` -/
def digitsOnly (t : Text) : Bool := t ≠ [] && t.all Char.isDigit

/-- The floor on the command line: anything but a number without a point is 0. -/
def floorOf (t : Text) : Nat := if digitsOnly t then Nat.ofDigitChars 10 t 0 else 0

def whichOf (t : Text) : Text := if t.length = 0 then jnl else t

def getresyncseqno (env : Environ) (zcmdline : Text) (mode : Nat) (s : Seqnos) : Output :=
  func env mode (whichOf (piece ' ' zcmdline 2)) (floorOf (piece ' ' zcmdline 1)) s

/-! ## 2. Sequences of calls -/

/-- A call: what `$random(20)` gives, the second argument, and the instance file. -/
structure Call where
  mode : Fin 20
  method : Text
  seqnos : Seqnos
  deriving DecidableEq, Repr

/-- `jnl^getresyncseqno $floor $method` -/
def Call.line (c : Call) (floor : Num) : Text := floor.text ++ ' ' :: c.method

def Call.output (env : Environ) (c : Call) (floor : Num) : Output :=
  getresyncseqno env (c.line floor) c.mode c.seqnos

/-- The sequence number a call is given. -/
def Call.current (c : Call) (floor : Num) : Nat :=
  Rollback.current (whichOf (piece ' ' (c.line floor) 2)) c.seqnos

/-- The calls with the floor each is given, which is the one that was printed last. -/
def trace (env : Environ) : Num → List Call → List (Num × Call)
  | _, [] => []
  | floor, c :: calls => (floor, c) :: trace env ((c.output env floor).floor_seq.getD floor) calls

/-- The maximum mode, which goes beyond the current sequence number on purpose. -/
def Call.isMax (env : Environ) (c : Call) : Prop := env.nomax = false ∧ c.mode.val = 5

/-- Every call is given a sequence number above the floor, and none draws the maximum mode. -/
def Above (env : Environ) (floor : Num) (c : Call) : Prop :=
  floor.twice < 2 * (c.current floor : Int) ∧ ¬ c.isMax env

instance (env : Environ) (floor : Num) (c : Call) : Decidable (Above env floor c) :=
  inferInstanceAs (Decidable (_ ∧ ¬ (_ ∧ _)))

/-- What is promised of a call that is given this floor. -/
structure Safe (env : Environ) (floor : Num) (c : Call) : Prop where
  /-- the floor is taken for what it is, and not reset -/
  kept : 2 * (floorOf (piece ' ' (c.line floor) 1) : Int) = floor.twice
  above : floor.twice < 2 * (c.output env floor).roll_seqno
  atMost : (c.output env floor).roll_seqno ≤ c.current floor
  /-- the floor that is printed is not lower -/
  raised : ∃ floor', (c.output env floor).floor_seq = some floor' ∧ floor.twice ≤ floor'.twice

/-- The draws that raise the floor by a whole number, if the sequence number is `d` above it. -/
def Wholes (env : Environ) (mode d : Nat) : Prop :=
  if env.nomin = false ∧ mode = 7 then False
  else if mode % 4 = 0 then 4 ≤ d % 8
  else if mode % 3 = 0 then d % 6 = 2 ∨ d % 6 = 3
  else if mode = 2 then 4 ≤ d % 8
  else 2 ≤ d % 4

instance (env : Environ) (mode d : Nat) : Decidable (Wholes env mode d) := by
  unfold Wholes
  infer_instance

/-- The same for a call. -/
def Call.Wholes (env : Environ) (floor : Num) (c : Call) : Prop :=
  Rollback.Wholes env c.mode (c.current floor - floor.twice.toNat / 2)

instance (env : Environ) (floor : Num) (c : Call) : Decidable (c.Wholes env floor) :=
  inferInstanceAs (Decidable (Rollback.Wholes _ _ _))

/-! ## 3. One call -/

theorem tdiv_natCast (d k : Nat) : (d : Int).tdiv k = ((d / k : Nat) : Int) :=
  (Int.ofNat_tdiv d k).symm

/-- **The target** lies above the floor, and at most at the sequence number. -/
theorem rollseqno_eq (env : Environ) (n : Nat) {mode d : Nat} (hmax : ¬ (env.nomax = false ∧ mode = 5))
    (hd : 1 ≤ d) :
    ∃ g : Nat, rollseqno env mode ((n + d : Nat) : Int) n = ((n + g : Nat) : Int) ∧ 1 ≤ g ∧ g ≤ d ∧
      (g % 2 = 0 ↔ Wholes env mode d) := by
  have hsub : ((n + d : Nat) : Int) - n = (d : Int) := by omega
  have htwo : (d : Int).tdiv 2 = ((d / 2 : Nat) : Int) := tdiv_natCast d 2
  have hfour : (d : Int).tdiv 4 = ((d / 4 : Nat) : Int) := tdiv_natCast d 4
  have hthree : (2 * (((d / 2 : Nat) : Int) + 1)).tdiv 3 = ((2 * (d / 2 + 1) / 3 : Nat) : Int) :=
    tdiv_natCast (2 * (d / 2 + 1)) 3
  unfold rollseqno Wholes
  rw [if_neg hmax, hsub]
  dsimp only
  rw [htwo, hfour]
  by_cases hmin : env.nomin = false ∧ mode = 7
  · rw [if_pos hmin, if_pos hmin]
    exact ⟨1, by omega, by omega, hd, by simp⟩
  · rw [if_neg hmin, if_neg hmin]
    by_cases h4 : mode % 4 = 0
    · simp only [if_pos h4]
      exact ⟨3 * (d / 4) + 1, by omega, by omega, by omega, by omega⟩
    · simp only [if_neg h4]
      by_cases h3 : mode % 3 = 0
      · have h2 : mode ≠ 2 := by omega
        obtain ⟨q, hq⟩ : ∃ q, q = 2 * (d / 2 + 1) / 3 := ⟨_, rfl⟩
        simp only [if_pos h3, if_neg h2, hthree, ← hq]
        exact ⟨q + 1, by omega, by omega, by omega, by omega⟩
      · simp only [if_neg h3]
        by_cases h2 : mode = 2
        · simp only [if_pos h2]
          exact ⟨d / 4 + 1, by omega, by omega, by omega, by omega⟩
        · simp only [if_neg h2]
          exact ⟨d / 2 + 1, by omega, by omega, by omega, by omega⟩

theorem isDigit_toDigits (n : Nat) : (Nat.toDigits 10 n).all Char.isDigit = true :=
  List.all_eq_true.2 fun _ hc => Nat.isDigit_of_mem_toDigits (by decide) (by decide) hc

theorem floorOf_toDigits (n : Nat) : floorOf (Nat.toDigits 10 n) = n := by
  have hdigits : digitsOnly (Nat.toDigits 10 n) = true := by
    rw [digitsOnly, isDigit_toDigits, Bool.and_true]
    exact decide_eq_true Nat.toDigits_ne_nil
  rw [floorOf, if_pos hdigits]
  exact Nat.ofDigitChars_ten_toDigits

theorem text_ofNat (n : Nat) : (Num.ofNat n).text = Nat.toDigits 10 n := by
  have hsign : ¬ (2 * (n : Int)) < 0 := by omega
  have habs : (2 * (n : Int)).natAbs = 2 * n := by omega
  have heven : 2 * n % 2 = 0 := by omega
  have hhalf : 2 * n / 2 = n := by omega
  rw [Num.text, Num.ofNat, if_neg hsign, habs, absText, if_pos heven, hhalf]
  rfl

/-- The point is no digit. -/
theorem floorOf_half {x : Num} (h : x.twice % 2 = 1) : floorOf x.text = 0 := by
  have hodd : ¬ x.twice.natAbs % 2 = 0 := by omega
  have hpoint : '.' ∈ x.text := by
    rw [Num.text, absText, if_neg hodd]
    simp
  have hdigits : ¬ digitsOnly x.text = true := by
    intro hd
    rw [digitsOnly, Bool.and_eq_true] at hd
    exact absurd (List.all_eq_true.1 hd.2 _ hpoint) (by decide)
  rw [floorOf, if_neg hdigits]

theorem blank_notMem_text (x : Num) : ' ' ∉ x.text := by
  have hdigits : ∀ n, ' ' ∉ Nat.toDigits 10 n := notMem_toDigits (by decide)
  rw [Num.text, absText]
  split <;> split <;> simp [hdigits]

/-- The first argument is the floor as it was printed. -/
theorem piece_line (c : Call) (floor : Num) : piece ' ' (c.line floor) 1 = floor.text :=
  beforeFirst_append (blank_notMem_text floor) _

/-- **A call that is given a whole floor** keeps to it, and prints the next one. -/
theorem safe_of_whole {env : Environ} {n : Nat} (hn : 0 < n) {c : Call}
    (h : Above env (Num.ofNat n) c) :
    Safe env (Num.ofNat n) c ∧ ∃ floor', (c.output env (Num.ofNat n)).floor_seq = some floor' ∧
      0 < floor'.twice ∧ (floor'.twice % 2 = 0 ↔ c.Wholes env (Num.ofNat n)) := by
  obtain ⟨habove, hmax⟩ := h
  have hlt : n < c.current (Num.ofNat n) := by
    have htwice : (Num.ofNat n).twice = 2 * n := rfl
    omega
  have hfloor : floorOf (piece ' ' (c.line (Num.ofNat n)) 1) = n := by
    rw [piece_line, text_ofNat, floorOf_toDigits]
  have hd : 1 ≤ c.current (Num.ofNat n) - n := by omega
  obtain ⟨g, hroll, hone, hle, heven⟩ := rollseqno_eq env n hmax hd
  have hsum : n + (c.current (Num.ofNat n) - n) = c.current (Num.ofNat n) := by omega
  rw [hsum] at hroll
  have htarget : (c.output env (Num.ofNat n)).roll_seqno = ((n + g : Nat) : Int) := by
    rw [Call.output, getresyncseqno, hfloor]
    exact hroll
  have hprinted : (c.output env (Num.ofNat n)).floor_seq = some ⟨2 * n + g⟩ := by
    have hpos : (0 : Int) < n ∧ (0 : Int) < ((n + g : Nat) : Int) := by omega
    have hnext : (2 * (n : Int) + (((n + g : Nat) : Int) - n)) = 2 * n + g := by omega
    have hne : (2 * (n : Int) + g) ≠ 0 := by omega
    rw [Call.output, getresyncseqno, hfloor, func]
    have hr : rollseqno env c.mode (current (whichOf (piece ' ' (c.line (Num.ofNat n)) 2)) c.seqnos)
        n = ((n + g : Nat) : Int) := hroll
    simp only [hr, if_pos hpos, hnext]
    exact if_pos hne
  refine ⟨⟨?_, ?_, ?_, _, hprinted, ?_⟩, _, hprinted, ?_, ?_⟩
  · rw [hfloor]
    rfl
  · rw [htarget]
    show (2 * (n : Int)) < _
    omega
  · rw [htarget]
    omega
  · show (2 * (n : Int)) ≤ 2 * n + g
    omega
  · show (0 : Int) < 2 * n + g
    omega
  · have hhalf : (Num.ofNat n).twice.toNat / 2 = n := by
      show (2 * (n : Int)).toNat / 2 = n
      omega
    rw [Call.Wholes, hhalf, ← heven]
    show (2 * (n : Int) + g) % 2 = 0 ↔ _
    omega

/-- **A floor with a half behind the point is lost.** -/
theorem not_safe_of_half {env : Environ} {floor : Num} (h : floor.twice % 2 = 1) (c : Call) :
    ¬ Safe env floor c := by
  intro hsafe
  have hkept := hsafe.kept
  rw [piece_line, floorOf_half h] at hkept
  omega

/-! ## 4. Every sequence of calls -/

/-- **When every call keeps to the floor**: exactly when all calls but the last one raise it by a
    whole number. -/
theorem run_floor_iff (env : Environ) (calls : List Call) (n : Nat) (hn : 0 < n)
    (habove : ∀ at_ ∈ trace env (Num.ofNat n) calls, Above env at_.1 at_.2) :
    (∀ at_ ∈ trace env (Num.ofNat n) calls, Safe env at_.1 at_.2) ↔
      ∀ at_ ∈ (trace env (Num.ofNat n) calls).dropLast, at_.2.Wholes env at_.1 := by
  induction calls generalizing n with
  | nil => exact ⟨fun _ _ h => absurd h List.not_mem_nil, fun _ _ h => absurd h List.not_mem_nil⟩
  | cons c calls ih =>
      obtain ⟨hsafe, floor', hfloor', hpos, heven⟩ :=
        safe_of_whole hn (habove (Num.ofNat n, c) List.mem_cons_self)
      have htrace : trace env (Num.ofNat n) (c :: calls) = (Num.ofNat n, c) :: trace env floor' calls := by
        rw [trace, hfloor', Option.getD_some]
      rw [htrace] at habove ⊢
      cases calls with
      | nil =>
          refine ⟨fun _ _ h => absurd h List.not_mem_nil, fun _ at_ hat => ?_⟩
          rw [List.mem_singleton.1 hat]
          exact hsafe
      | cons c' calls =>
          have hcons : trace env floor' (c' :: calls) ≠ [] := List.cons_ne_nil _ _
          rw [List.dropLast_cons_of_ne_nil hcons, List.forall_mem_cons, List.forall_mem_cons]
          by_cases hwhole : floor'.twice % 2 = 0
          · -- the next floor is whole
            have hnat : floor' = Num.ofNat (floor'.twice.toNat / 2) := by
              have htwice : floor'.twice = 2 * ((floor'.twice.toNat / 2 : Nat) : Int) := by omega
              exact congrArg Num.mk htwice
            have hrest := ih (floor'.twice.toNat / 2) (by omega) fun at_ hat =>
              habove at_ (List.mem_cons_of_mem _ (hnat ▸ hat))
            rw [← hnat] at hrest
            rw [hrest]
            exact and_congr_left fun _ => ⟨fun _ => heven.1 hwhole, fun _ => hsafe⟩
          · refine ⟨fun h => ?_, fun h => absurd (heven.2 h.1) hwhole⟩
            have hhalf : floor'.twice % 2 = 1 := by omega
            exact absurd (h.2 (floor', c') List.mem_cons_self) (not_safe_of_half hhalf c')

/-- A call in a database whose journal is at a sequence number. -/
def callAt (mode : Fin 20) (jnlseqno : Nat) : Call := ⟨mode, jnl, ⟨jnlseqno, [jnlseqno]⟩⟩

/-- From 10, with the journal at 12, the floor becomes 11. -/
theorem run_floor_iff_whole :
    (trace ⟨false, false⟩ (Num.ofNat 10) [callAt 1 12, callAt 7 12]).length = 2 ∧
      ∀ at_ ∈ trace ⟨false, false⟩ (Num.ofNat 10) [callAt 1 12, callAt 7 12],
        Safe ⟨false, false⟩ at_.1 at_.2 :=
  ⟨by decide, (run_floor_iff ⟨false, false⟩ [callAt 1 12, callAt 7 12] 10 (by decide) (by decide)).2 (by decide)⟩

/-- With the journal at 11 it becomes 10.5, which the next call takes for 0. -/
theorem floor_lost :
    ¬ ∀ (env : Environ) (calls : List Call) (n : Nat), 0 < n →
      (∀ at_ ∈ trace env (Num.ofNat n) calls, Above env at_.1 at_.2) →
        ∀ at_ ∈ trace env (Num.ofNat n) calls, Safe env at_.1 at_.2 := by
  intro h
  have hsafe := h ⟨false, false⟩ [callAt 1 11, callAt 1 12] 10 (by decide) (by decide)
    (⟨21⟩, callAt 1 12) (by decide)
  exact not_safe_of_half (by decide) _ hsafe

end YottaTest.Rollback
