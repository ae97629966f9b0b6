/-
  File:      YottaTest/Bank/Accounts.lean
  Subject:   The multi-region bank: its database, mrtstbld and mrverify.

  * `Value`, `Db` -- the globals ^ACCT, ^JNL and ^ACNM;
  * `applied`, `BalancedAt`, `Balanced` -- the opening balance with the journal records added to it is
    the balance of the account;
  * `mrtstbld`, `balanced_mrtstbld` -- the accounts as they are made;
  * `mrverify`, `mrverify_of_balanced` -- **on balanced accounts it reports no error.**
-/
import Mathlib.Logic.Function.Basic

namespace YottaTest.Bank

open Function

/-! ## 1. The database -/

/-- What a node holds: an empty text or a number. -/
inductive Value where
  | empty
  | num (n : Int)
  deriving DecidableEq, Repr

/-- What a value counts as in a sum. -/
def Value.toInt : Value → Int
  | .empty => 0
  | .num n => n

/-- The globals; `none` where a node has no value. -/
structure Db where
  /-- `^ACCT(acct)`; `^ACCT(0)` is the number of accounts -/
  acct : Nat → Option Value
  /-- `^ACCT(acct,0)` -/
  opening : Nat → Option Value
  /-- `^JNL(acct,i)`; `^JNL(acct,0)` is the number of records -/
  jnl : Nat → Int → Option Value
  /-- `^ACNM(acct)` -/
  acnm : Nat → Option (List Char)

def Db.setAcct (db : Db) (acct : Nat) (v : Value) : Db := { db with acct := update db.acct acct (some v) }

def Db.setJnl (db : Db) (acct : Nat) (i : Int) (v : Value) : Db :=
  { db with jnl := update db.jnl acct (update (db.jnl acct) i (some v)) }

@[simp] theorem Db.setAcct_self (db : Db) (acct : Nat) (v : Value) :
    (db.setAcct acct v).acct acct = some v := update_self ..

@[simp] theorem Db.setAcct_of_ne {acct a : Nat} (h : a ≠ acct) (db : Db) (v : Value) :
    (db.setAcct acct v).acct a = db.acct a := update_of_ne h ..

@[simp] theorem Db.setAcct_jnl (db : Db) (acct : Nat) (v : Value) : (db.setAcct acct v).jnl = db.jnl := rfl

@[simp] theorem Db.setAcct_opening (db : Db) (acct : Nat) (v : Value) :
    (db.setAcct acct v).opening = db.opening := rfl

@[simp] theorem Db.setJnl_acct (db : Db) (acct : Nat) (i : Int) (v : Value) :
    (db.setJnl acct i v).acct = db.acct := rfl

@[simp] theorem Db.setJnl_opening (db : Db) (acct : Nat) (i : Int) (v : Value) :
    (db.setJnl acct i v).opening = db.opening := rfl

@[simp] theorem Db.setJnl_self (db : Db) (acct : Nat) (i : Int) (v : Value) :
    (db.setJnl acct i v).jnl acct i = some v := by
  simp [Db.setJnl]

theorem Db.setJnl_of_ne {acct a : Nat} {i k : Int} (h : a ≠ acct ∨ k ≠ i) (db : Db) (v : Value) :
    (db.setJnl acct i v).jnl a k = db.jnl a k := by
  show update db.jnl acct (update (db.jnl acct) i (some v)) a k = db.jnl a k
  by_cases ha : a = acct
  · subst ha
    rw [update_self, update_of_ne (h.resolve_left fun hne => hne rfl)]
  · rw [update_of_ne ha]

/-! ## 2. Balances -/

/-- `^ACCT(acct,0)` with the first records of `^JNL(acct)` added to it; none if one is missing. -/
def applied (db : Db) (acct : Nat) : Nat → Option Value
  | 0 => db.opening acct
  | i + 1 =>
      (applied db acct i).bind fun cbalance =>
        (db.jnl acct ((i + 1 : Nat) : Int)).map fun delta => .num (cbalance.toInt + delta.toInt)

/-- **The balance of an account is what its records make of the opening balance.** -/
def BalancedAt (db : Db) (acct : Nat) : Prop :=
  ∃ jnlrecs : Nat, db.jnl acct 0 = some (.num jnlrecs) ∧
    ∃ v, applied db acct jnlrecs = some v ∧ db.acct acct = some v

/-- `^ACCT(0)` is the number of accounts, and they are all balanced. -/
def Balanced (db : Db) : Prop :=
  ∃ accnts : Nat, db.acct 0 = some (.num accnts) ∧ ∀ acct, 1 ≤ acct → acct ≤ accnts → BalancedAt db acct

/-- The records that count are those from 1 to the number of them. -/
theorem applied_congr {db db' : Db} {acct : Nat} (hopening : db'.opening acct = db.opening acct) :
    ∀ {i : Nat}, (∀ k : Nat, 1 ≤ k → k ≤ i → db'.jnl acct k = db.jnl acct k) →
      applied db' acct i = applied db acct i
  | 0, _ => hopening
  | i + 1, h => by
      rw [applied, applied, h (i + 1) (Nat.succ_pos i) (Nat.le_refl _),
        applied_congr hopening fun k hk hki => h k hk (Nat.le_succ_of_le hki)]

/-- What is written about another account. -/
theorem BalancedAt.congr {db db' : Db} {acct : Nat} (h : BalancedAt db acct)
    (hacct : db'.acct acct = db.acct acct) (hopening : db'.opening acct = db.opening acct)
    (hjnl : db'.jnl acct = db.jnl acct) : BalancedAt db' acct := by
  obtain ⟨jnlrecs, hcount, v, happlied, hbalance⟩ := h
  refine ⟨jnlrecs, by rw [hjnl, hcount], v, ?_, by rw [hacct, hbalance]⟩
  rw [applied_congr hopening fun k _ _ => by rw [hjnl], happlied]

/-! ## 3. The accounts as they are made -/

/-- `mrtstbld` on a new database, with the name and the balance that it draws for each account. -/
def mrtstbld (acntcnt : Nat) (name : Nat → List Char) (balance : Nat → Nat) : Db where
  acct acct :=
    if acct = 0 then some (.num acntcnt)
    else if acct ≤ acntcnt then some (.num (balance acct)) else none
  opening acct := if 1 ≤ acct ∧ acct ≤ acntcnt then some (.num (balance acct)) else none
  jnl acct i := if (1 ≤ acct ∧ acct ≤ acntcnt) ∧ i = 0 then some (.num 0) else none
  acnm acct := if 1 ≤ acct ∧ acct ≤ acntcnt then some (name acct) else none

theorem balanced_mrtstbld (acntcnt : Nat) (name : Nat → List Char) (balance : Nat → Nat) :
    Balanced (mrtstbld acntcnt name balance) := by
  refine ⟨acntcnt, rfl, fun acct h1 hle => ⟨0, if_pos ⟨⟨h1, hle⟩, rfl⟩, .num (balance acct), ?_, ?_⟩⟩
  · exact if_pos ⟨h1, hle⟩
  · unfold mrtstbld
    dsimp only
    rw [if_neg (by omega), if_pos hle]

/-! ## 4. mrverify -/

/-- One turn of the loop: the error for an account that is not balanced; none where a node is missing and
    the routine goes to its error trap. -/
def verifyAccount (db : Db) (acct : Nat) : Option (List Nat) :=
  (db.opening acct).bind fun _ => (db.jnl acct 0).bind fun jnlrecs =>
    (applied db acct jnlrecs.toInt.toNat).bind fun cbalance => (db.acct acct).map fun balance =>
      if cbalance = balance then [] else [acct]

/-- The accounts that `mrverify` reports, the last one first. -/
def verifyUpTo (db : Db) : Nat → Option (List Nat)
  | 0 => some []
  | acct + 1 =>
      (verifyUpTo db acct).bind fun errors => (verifyAccount db (acct + 1)).map (· ++ errors)

def mrverify (db : Db) : Option (List Nat) :=
  (db.acct 0).bind fun accnts => verifyUpTo db accnts.toInt.toNat

/-- An account with an opening balance that was read. -/
theorem opening_of_applied {db : Db} {acct : Nat} : ∀ {i : Nat} {v : Value},
    applied db acct i = some v → ∃ v₀, db.opening acct = some v₀
  | 0, v, h => ⟨v, h⟩
  | i + 1, v, h => by
      rw [applied] at h
      obtain ⟨c, hc, -⟩ := Option.bind_eq_some_iff.1 h
      exact opening_of_applied hc

theorem verifyAccount_of_balancedAt {db : Db} {acct : Nat} (h : BalancedAt db acct) :
    verifyAccount db acct = some [] := by
  obtain ⟨jnlrecs, hcount, v, happlied, hbalance⟩ := h
  obtain ⟨v₀, hopening⟩ := opening_of_applied happlied
  unfold verifyAccount
  rw [hopening, hcount, Option.bind_some, Option.bind_some]
  show (applied db acct ((jnlrecs : Int)).toNat).bind _ = _
  rw [Int.toNat_natCast, happlied, hbalance, Option.bind_some, Option.map_some, if_pos rfl]

theorem verifyUpTo_of_balancedAt {db : Db} : ∀ {accnts : Nat},
    (∀ acct, 1 ≤ acct → acct ≤ accnts → BalancedAt db acct) → verifyUpTo db accnts = some []
  | 0, _ => rfl
  | accnts + 1, h => by
      rw [verifyUpTo, verifyUpTo_of_balancedAt fun acct h1 hle => h acct h1 (Nat.le_succ_of_le hle),
        verifyAccount_of_balancedAt (h (accnts + 1) (Nat.succ_pos _) (Nat.le_refl _))]
      rfl

/-- **On balanced accounts mrverify reports no error.** -/
theorem mrverify_of_balanced {db : Db} (h : Balanced db) : mrverify db = some [] := by
  obtain ⟨accnts, hcount, hall⟩ := h
  unfold mrverify
  rw [hcount, Option.bind_some]
  show verifyUpTo db ((accnts : Int)).toNat = _
  rw [Int.toNat_natCast]
  exact verifyUpTo_of_balancedAt hall

end YottaTest.Bank
