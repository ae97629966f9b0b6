/-
  File:      YottaTest/SimpleApi/PseudoBank.lean
  Subject:   pseudoBank.c: processes that post transfers between accounts, each in a transaction.

  * `accountLoad`, `accountSave`, `histSave`, `trnSave`, `postTransfer`, `initData`, `childThread`
    -- the program; `Sys`, `Step`, `Reach` -- its processes, in any interleaving of their
    transactions, with restarts;
  * `Represents` -- the database is what a list of transfers makes of it (`Lib/Ledger`);
    `represents_initData`, `represents_postTransfer`;
  * `References` -- where the reference numbers come from;
  * **`pseudoBank_balanced`** -- after every commit the books are balanced.
-/
import Mathlib.Data.Nat.Log
import Mathlib.Logic.Function.Basic
import Mathlib.Order.Interval.Finset.Basic
import Mathlib.Data.Int.ConditionallyCompleteOrder
import Mathlib.Data.Int.Interval
import YottaTest.Lib.Ledger
import YottaTest.SimpleApi.CText

namespace YottaTest.SimpleApi

open Function YottaTest.M YottaTest.Lib

/-! ## 1. The program -/

inductive Glob where
  | zacn
  | zhist
  | ztrnlog
  deriving DecidableEq, Repr

abbrev Db := DB Glob

/-- `TRAN_AMT`, `START_CID` and `ACC_NEEDED`. -/
def tranAmt : Int := 1
def startCid : Int := 100001
def accNeeded : Nat := 1000

structure ThreadArgs where
  guid : Int
  user : Int
  numRuns : Int

structure TpArgs where
  ref : Int
  fromCid : Int
  toCid : Int
  amt : Int
  user : Int

structure Account where
  cid : Int
  bal : Int
  histSeq : Int

structure HistRecord where
  cid : Int
  histSeq : Int
  comment : MStr
  amt : Int
  endBal : Int
  user : Int

/-- Its comment and its date are set and not saved. -/
structure TrnLog where
  guid : Int
  tSeq : Int
  cid : Int
  amt : Int
  endBal : Int
  user : Int

def accountSetAccountKey (cid : Int) : Node Glob := ⟨.zacn, [.str (sprintfD cid)]⟩

def histSetHistKey (cid histSeq : Int) : Node Glob :=
  ⟨.zhist, [.str (sprintfD cid), .str (sprintfD histSeq)]⟩

def trnSetTrnLogKey (guid tSeq : Int) : Node Glob :=
  ⟨.ztrnlog, [.str (sprintfD guid), .str (sprintfD tSeq)]⟩

/-- `Account_Load`; none where an assertion fails or a token is missing. -/
def accountLoad (db : Db) (cid : Int) : Option Account :=
  (db.get (accountSetAccountKey cid)).bind fun data =>
    (strtok data.toStr).bind fun histSeq =>
      (strtok histSeq.2).map fun bal => ⟨cid, atoi bal.1, atoi histSeq.1⟩

/-- `"%d|%d"` -/
def Account.text (a : Account) : MStr := sprintfD a.histSeq ++ bar :: sprintfD a.bal

def accountSave (db : Db) (a : Account) : Db :=
  db.set (accountSetAccountKey a.cid) (.str a.text)

/-- `"%s|%d|%d|%d"` -/
def HistRecord.text (h : HistRecord) : MStr :=
  h.comment ++ bar :: (sprintfD h.amt ++ bar :: (sprintfD h.endBal ++ bar :: sprintfD h.user))

def histSave (db : Db) (h : HistRecord) : Db :=
  db.set (histSetHistKey h.cid h.histSeq) (.str h.text)

/-- `"%d|%ld|%d|%d|%d|%d"`, with the time of the save -/
def TrnLog.text (t : TrnLog) (time : Int) : MStr :=
  sprintfD t.guid ++ bar :: (sprintfD time ++ bar :: (sprintfD t.cid ++ bar ::
    (sprintfD t.amt ++ bar :: (sprintfD t.endBal ++ bar :: sprintfD t.user))))

def trnSave (db : Db) (t : TrnLog) (time : Int) : Db :=
  db.set (trnSetTrnLogKey t.guid t.tSeq) (.str (t.text time))

/-- What `postTransfer` saves once it has the two accounts after the transfer, and `-amt`. -/
def saveTransfer (db : Db) (args : TpArgs) (accountFrom accountTo : Account) (debit : Int)
    (time₁ time₂ : Int) : Db :=
  let db := accountSave db accountFrom
  let db := accountSave db accountTo
  let db := histSave db ⟨args.fromCid, accountFrom.histSeq,
    lit "Transfer to " ++ sprintfD args.toCid, debit, accountFrom.bal, args.ref⟩
  let db := histSave db ⟨args.toCid, accountTo.histSeq,
    lit "Transfer from " ++ sprintfD args.fromCid, args.amt, accountTo.bal, args.ref⟩
  let db := trnSave db ⟨args.ref, 1, args.fromCid, debit, accountFrom.bal, args.user⟩ time₁
  trnSave db ⟨args.ref, 2, args.fromCid, args.amt, accountFrom.bal, args.user⟩ time₂

/-- The function of the transaction; none if an `int` overflows. -/
def postTransfer (db : Db) (args : TpArgs) (time₁ time₂ : Int) : Option Db := do
  let accountFrom ← accountLoad db args.fromCid
  let accountTo ← accountLoad db args.toCid
  let fromSeq ← int (accountFrom.histSeq + 1)
  let fromBal ← int (accountFrom.bal - args.amt)
  let toSeq ← int (accountTo.histSeq + 1)
  let toBal ← int (accountTo.bal + args.amt)
  let debit ← int (-args.amt)
  return saveTransfer db args { accountFrom with bal := fromBal, histSeq := fromSeq }
    { accountTo with bal := toBal, histSeq := toSeq } debit time₁ time₂

/-- One turn of the loop of `initData`. -/
def initAccount (db : Db) (i : Nat) : Db :=
  (db.set (accountSetAccountKey (startCid + i)) (.str (lit "1|10000000"))).set
    (histSetHistKey (startCid + i) 1) (.str (lit "Account Create||10000000"))

def initData (db : Db) : Db := (List.range accNeeded).foldl initAccount db

/-- `ceil(log10(NUM_THREADS))` -/
def idShift (numThreads : Nat) : Nat := Nat.clog 10 numThreads

/-- What `childThread` passes to the transaction, from two values of `rand()`. -/
def childThread (shift : Nat) (args : ThreadArgs) (rand₁ rand₂ : Nat) : Option TpArgs := do
  let ref ← int (args.guid + args.numRuns * 10 ^ shift)
  let fromCid := startCid + (rand₁ % accNeeded : Nat)
  let toCid := startCid + (rand₂ % (accNeeded - 1) : Nat)
  return ⟨ref, fromCid, if fromCid = toCid then toCid + 1 else toCid, tranAmt, args.user⟩

/-! ## 2. The processes -/

structure Sys where
  db : Db
  /-- What each process's loop carries. -/
  args : Nat → ThreadArgs
  /-- The transaction a process is in. -/
  toPass : Nat → Option TpArgs
  /-- Ghost: the transfers committed so far. -/
  committed : List TpArgs

def start (user : Int) : Sys := ⟨initData .empty, fun g => ⟨g, user, 0⟩, fun _ => none, []⟩

/-- One step of one of the processes. Transactions are serializable: one takes effect at its
    commit, on the database as it is then, and an attempt that is restarted has none. -/
inductive Step (numThreads : Nat) (s : Sys) : Sys → Prop
  | call {g : Nat} {p : TpArgs} (rand₁ rand₂ : Nat) (hg : g < numThreads)
      (hidle : s.toPass g = none)
      (h : childThread (idShift numThreads) (s.args g) rand₁ rand₂ = some p) :
      Step numThreads s { s with toPass := update s.toPass g (some p) }
  | restart {g : Nat} {p : TpArgs} (hg : g < numThreads) (hp : s.toPass g = some p) :
      Step numThreads s s
  | commit {g : Nat} {p : TpArgs} {db : Db} {numRuns : Int} (time₁ time₂ : Int)
      (hg : g < numThreads) (hp : s.toPass g = some p)
      (hdb : postTransfer s.db p time₁ time₂ = some db)
      (hruns : int ((s.args g).numRuns + 1) = some numRuns) :
      Step numThreads s
        { db := db
          args := update s.args g { s.args g with numRuns := numRuns }
          toPass := update s.toPass g none
          committed := s.committed ++ [p] }

inductive Reach (numThreads : Nat) (user : Int) : Sys → Prop
  | start : Reach numThreads user (start user)
  | step {s s' : Sys} (h : Reach numThreads user s) (hs : Step numThreads s s') :
      Reach numThreads user s'

/-- A process that is not in a transaction can make a whole one. -/
theorem Reach.transfer {numThreads : Nat} {user : Int} {s : Sys} (h : Reach numThreads user s)
    {g rand₁ rand₂ : Nat} {p : TpArgs} {db : Db} {time₁ time₂ numRuns : Int} (hg : g < numThreads)
    (hidle : s.toPass g = none)
    (hcall : childThread (idShift numThreads) (s.args g) rand₁ rand₂ = some p)
    (hdb : postTransfer s.db p time₁ time₂ = some db)
    (hruns : int ((s.args g).numRuns + 1) = some numRuns) :
    ∃ s', Reach numThreads user s' ∧ s'.committed = s.committed ++ [p] :=
  ⟨_, (h.step (.call rand₁ rand₂ hg hidle hcall)).step
    (.commit time₁ time₂ hg (update_self ..) hdb hruns), rfl⟩

/-! ## 3. What the database holds -/

/-- The accounts of `initData`. -/
def IsCid (cid : Int) : Prop := startCid ≤ cid ∧ cid < startCid + accNeeded

/-- The balance `initData` gives an account. -/
def opening : Int := 10000000

/-- A transfer as the books see it. -/
def TpArgs.transfer (p : TpArgs) : Transfer Int Int Int := ⟨p.fromCid, p.toCid, p.amt, p.ref⟩

/-- The record of the `j`th transfer of an account. -/
def recordOf (cid : Int) (ts : List (Transfer Int Int Int)) (j : Nat) (hj : j < ts.length) :
    HistRecord where
  cid := cid
  histSeq := j + 2
  comment := if ts[j].source = cid then lit "Transfer to " ++ sprintfD ts[j].target
    else lit "Transfer from " ++ sprintfD ts[j].source
  amt := ts[j].effect cid
  endBal := balance opening cid (ts.take (j + 1))
  user := ts[j].ref

/-- The account as the transfers leave it. -/
def accountOf (cid : Int) (ts : List (Transfer Int Int Int)) : Account where
  cid := cid
  bal := balance opening cid ts
  histSeq := (history cid ts).length + 1

@[simp] theorem accountOf_cid (cid : Int) (ts : List (Transfer Int Int Int)) :
    (accountOf cid ts).cid = cid := rfl

/-- **What the database holds for an account is what the transfers make of it.** -/
structure Represents (db : Db) (ts : List (Transfer Int Int Int)) (cid : Int) : Prop where
  account : db.get (accountSetAccountKey cid) = some (.str (accountOf cid ts).text)
  created : db.get (histSetHistKey cid 1) = some (.str (lit "Account Create||10000000"))
  posted : ∀ j (hj : j < (history cid ts).length),
    db.get (histSetHistKey cid (j + 2)) = some (.str (recordOf cid (history cid ts) j hj).text)
  bounded : ∀ x v, db.get ⟨.zhist, [.str (sprintfD cid), x]⟩ = some v →
    ∃ k : Int, 1 ≤ k ∧ k ≤ (accountOf cid ts).histSeq ∧ x = .str (sprintfD k)

@[simp] theorem accountSetAccountKey_inj {c d : Int} :
    accountSetAccountKey c = accountSetAccountKey d ↔ c = d := by
  simp [accountSetAccountKey, sprintfD_inj]

@[simp] theorem histSetHistKey_inj {c d k l : Int} :
    histSetHistKey c k = histSetHistKey d l ↔ c = d ∧ k = l := by
  simp [histSetHistKey, sprintfD_inj]

@[simp] theorem accountKey_ne_histKey (c d k : Int) :
    accountSetAccountKey c ≠ histSetHistKey d k := by
  simp [accountSetAccountKey, histSetHistKey]

/-- An account is loaded as it was saved. -/
theorem accountLoad_of_text {db : Db} {a : Account}
    (h : db.get (accountSetAccountKey a.cid) = some (.str a.text)) :
    accountLoad db a.cid = some a := by
  unfold accountLoad
  rw [h]
  simp only [Option.bind_some, Val.toStr, Account.text,
    strtok_append (bar_notMem_sprintfD _) (sprintfD_ne_nil _),
    strtok_last (bar_notMem_sprintfD _) (sprintfD_ne_nil _), Option.map_some, atoi_sprintfD]

theorem Represents.accountLoad {db : Db} {ts : List (Transfer Int Int Int)} {cid : Int}
    (h : Represents db ts cid) : accountLoad db cid = some (accountOf cid ts) :=
  accountLoad_of_text (a := accountOf cid ts) h.account

/-! ## 4. A transfer is posted -/

theorem postTransfer_eq {db db' : Db} {args : TpArgs} {time₁ time₂ : Int} {a b : Account}
    (ha : accountLoad db args.fromCid = some a) (hb : accountLoad db args.toCid = some b)
    (h : postTransfer db args time₁ time₂ = some db') :
    db' = saveTransfer db args { a with bal := a.bal - args.amt, histSeq := a.histSeq + 1 }
      { b with bal := b.bal + args.amt, histSeq := b.histSeq + 1 } (-args.amt) time₁ time₂ := by
  simp only [postTransfer, ha, hb, Option.bind_eq_bind, Option.bind_some,
    Option.bind_eq_some_iff, Option.pure_def, Option.some.injEq] at h
  obtain ⟨fromSeq, h1, fromBal, h2, toSeq, h3, toBal, h4, debit, h5, rfl⟩ := h
  rw [int_eq_some h1, int_eq_some h2, int_eq_some h3, int_eq_some h4, int_eq_some h5]

/-- Nothing overflows: the transfer is posted. -/
theorem postTransfer_of_int {db : Db} {a b : Account} (args : TpArgs) (time₁ time₂ : Int)
    (ha : accountLoad db args.fromCid = some a) (hb : accountLoad db args.toCid = some b)
    (h1 : int (a.histSeq + 1) = some (a.histSeq + 1))
    (h2 : int (a.bal - args.amt) = some (a.bal - args.amt))
    (h3 : int (b.histSeq + 1) = some (b.histSeq + 1))
    (h4 : int (b.bal + args.amt) = some (b.bal + args.amt))
    (h5 : int (-args.amt) = some (-args.amt)) :
    ∃ db', postTransfer db args time₁ time₂ = some db' := by
  simp only [postTransfer, ha, hb, Option.bind_eq_bind, Option.bind_some, h1, h2, h3, h4, h5]
  exact ⟨_, rfl⟩

variable {db : Db} {args : TpArgs} {a b : Account} {debit time₁ time₂ : Int}

theorem get_trnSave (db : Db) (t : TrnLog) (time : Int) {n : Node Glob} (hn : n.gvn ≠ .ztrnlog) :
    (trnSave db t time).get n = db.get n :=
  Table.get_set_of_ne _ _ fun h => hn (by rw [h]; rfl)

/-- The accounts after a transfer. -/
theorem saveTransfer_account (c : Int) :
    (saveTransfer db args a b debit time₁ time₂).get (accountSetAccountKey c) =
      if c = b.cid then some (.str b.text)
      else if c = a.cid then some (.str a.text) else db.get (accountSetAccountKey c) := by
  unfold saveTransfer
  rw [get_trnSave _ _ _ (by simp [accountSetAccountKey]),
    get_trnSave _ _ _ (by simp [accountSetAccountKey])]
  simp only [histSave, accountSave, Table.get_set, accountKey_ne_histKey, if_false,
    accountSetAccountKey_inj]

/-- The histories after a transfer: two entries are new. -/
theorem saveTransfer_hist (subs : List Sub) :
    (saveTransfer db args a b debit time₁ time₂).get ⟨.zhist, subs⟩ =
      if ⟨.zhist, subs⟩ = histSetHistKey args.toCid b.histSeq then
        some (.str (HistRecord.text ⟨args.toCid, b.histSeq,
          lit "Transfer from " ++ sprintfD args.fromCid, args.amt, b.bal, args.ref⟩))
      else if ⟨.zhist, subs⟩ = histSetHistKey args.fromCid a.histSeq then
        some (.str (HistRecord.text ⟨args.fromCid, a.histSeq,
          lit "Transfer to " ++ sprintfD args.toCid, debit, a.bal, args.ref⟩))
      else db.get ⟨.zhist, subs⟩ := by
  unfold saveTransfer
  rw [get_trnSave _ _ _ (by simp), get_trnSave _ _ _ (by simp)]
  have hacct : ∀ d : Int, (⟨.zhist, subs⟩ : Node Glob) ≠ accountSetAccountKey d := by
    simp [accountSetAccountKey]
  simp only [histSave, accountSave, Table.get_set, hacct, if_false]

theorem recordOf_append {cid : Int} {l : List (Transfer Int Int Int)} {t : Transfer Int Int Int}
    {j : Nat} (hj : j < l.length) (hj' : j < (l ++ [t]).length) :
    recordOf cid (l ++ [t]) j hj' = recordOf cid l j hj := by
  unfold recordOf
  simp only [List.getElem_append_left hj, List.take_append_of_le_length (Nat.succ_le_of_lt hj)]

theorem recordOf_last {cid : Int} {l : List (Transfer Int Int Int)} {t : Transfer Int Int Int}
    (hj : l.length < (l ++ [t]).length) :
    recordOf cid (l ++ [t]) l.length hj =
      ⟨cid, l.length + 2, if t.source = cid then lit "Transfer to " ++ sprintfD t.target
        else lit "Transfer from " ++ sprintfD t.source, t.effect cid,
        balance opening cid (l ++ [t]), t.ref⟩ := by
  unfold recordOf
  simp only [List.getElem_concat_length, List.take_of_length_le (show (l ++ [t]).length ≤ l.length + 1 by simp)]

section Post

variable {ts : List (Transfer Int Int Int)} {t : Transfer Int Int Int} {cid : Int}

theorem history_concat : history cid (ts ++ [t]) =
    if t.concerns cid then history cid ts ++ [t] else history cid ts := by
  unfold history
  rw [List.filter_append]
  cases h : t.concerns cid <;> simp [h]

/-- An account that a transfer concerns. -/
theorem accountOf_concat (h : t.concerns cid = true) : accountOf cid (ts ++ [t]) =
    ⟨cid, (accountOf cid ts).bal + t.effect cid, (accountOf cid ts).histSeq + 1⟩ := by
  simp [accountOf, history_concat, h, balance_concat]

/-- An account that it does not concern. -/
theorem accountOf_concat_of_not (h : t.concerns cid = false) :
    accountOf cid (ts ++ [t]) = accountOf cid ts := by
  simp [accountOf, history_concat, h, balance_concat, t.effect_eq_zero h]

/-- The record of its last transfer. -/
def lastRecord (cid : Int) (ts : List (Transfer Int Int Int)) (t : Transfer Int Int Int) :
    HistRecord :=
  ⟨cid, (accountOf cid (ts ++ [t])).histSeq,
    if t.source = cid then lit "Transfer to " ++ sprintfD t.target
      else lit "Transfer from " ++ sprintfD t.source,
    t.effect cid, (accountOf cid (ts ++ [t])).bal, t.ref⟩

/-- **An account that a transfer concerns**: its record is new, the others stay. -/
theorem Represents.post {db db' : Db} (h : Represents db ts cid) (ht : t.concerns cid = true)
    (haccount : db'.get (accountSetAccountKey cid) =
      some (.str (accountOf cid (ts ++ [t])).text))
    (hhist : ∀ x, db'.get ⟨.zhist, [.str (sprintfD cid), x]⟩ =
      if x = .str (sprintfD (lastRecord cid ts t).histSeq) then
        some (.str (lastRecord cid ts t).text)
      else db.get ⟨.zhist, [.str (sprintfD cid), x]⟩) : Represents db' (ts ++ [t]) cid := by
  have hseq : (lastRecord cid ts t).histSeq = (history cid ts).length + 2 := by
    show (accountOf cid (ts ++ [t])).histSeq = _
    rw [accountOf_concat ht]
    exact add_assoc _ 1 1
  have hold : ∀ k : Int, k < (history cid ts).length + 2 →
      db'.get (histSetHistKey cid k) = db.get (histSetHistKey cid k) := by
    intro k hk
    unfold histSetHistKey
    rw [hhist, if_neg]
    rw [hseq, Sub.str.injEq, sprintfD_inj]
    omega
  have hlist : history cid (ts ++ [t]) = history cid ts ++ [t] := by
    rw [history_concat, if_pos ht]
  refine ⟨haccount, ?_, ?_, ?_⟩
  · rw [hold 1 (by omega)]
    exact h.created
  · rw [hlist]
    intro j hj
    by_cases hlast : j < (history cid ts).length
    · rw [hold _ (by omega), recordOf_append hlast]
      exact h.posted j hlast
    · obtain rfl : j = (history cid ts).length := by
        simp only [List.length_append, List.length_singleton] at hj
        omega
      have hbal : balance opening cid (history cid ts ++ [t]) = (accountOf cid (ts ++ [t])).bal := by
        rw [← hlist, balance_history]
        rfl
      unfold histSetHistKey
      rw [hhist, if_pos (by rw [hseq]), recordOf_last, hbal, ← hseq]
      rfl
  · intro x v hx
    rw [hhist] at hx
    split at hx
    · rename_i he
      exact ⟨_, by rw [hseq]; omega, by rfl, he⟩
    · obtain ⟨k, h1, h2, he⟩ := h.bounded x v hx
      refine ⟨k, h1, ?_, he⟩
      rw [accountOf_concat ht]
      exact h2.trans (by simp)

/-- **An account that a transfer does not concern.** -/
theorem Represents.frame {db db' : Db} (h : Represents db ts cid) (ht : t.concerns cid = false)
    (haccount : db'.get (accountSetAccountKey cid) = db.get (accountSetAccountKey cid))
    (hhist : ∀ x, db'.get ⟨.zhist, [.str (sprintfD cid), x]⟩ =
      db.get ⟨.zhist, [.str (sprintfD cid), x]⟩) : Represents db' (ts ++ [t]) cid := by
  have hlist : history cid (ts ++ [t]) = history cid ts := by
    rw [history_concat, ht]
    rfl
  refine ⟨?_, ?_, ?_, ?_⟩
  · rw [haccount, accountOf_concat_of_not ht]
    exact h.account
  · unfold histSetHistKey
    rw [hhist]
    exact h.created
  · rw [hlist]
    intro j hj
    unfold histSetHistKey
    rw [hhist]
    exact h.posted j hj
  · intro x v hx
    rw [accountOf_concat_of_not ht]
    exact h.bounded x v ((hhist x).symm.trans hx)

end Post

/-- **A transfer posted is a transfer in the books.** -/
theorem represents_postTransfer {db db' : Db} {ts : List (Transfer Int Int Int)} {p : TpArgs}
    {time₁ time₂ : Int} (h : ∀ cid, IsCid cid → Represents db ts cid) (hfrom : IsCid p.fromCid)
    (hto : IsCid p.toCid) (hne : p.fromCid ≠ p.toCid)
    (hpost : postTransfer db p time₁ time₂ = some db') :
    ∀ cid, IsCid cid → Represents db' (ts ++ [p.transfer]) cid := by
  intro cid hcid
  have heffFrom : p.transfer.effect p.fromCid = -p.amt := by
    simp [Transfer.effect, TpArgs.transfer, hne.symm]
  have heffTo : p.transfer.effect p.toCid = p.amt := by
    simp [Transfer.effect, TpArgs.transfer, hne]
  rw [postTransfer_eq (h _ hfrom).accountLoad (h _ hto).accountLoad hpost]
  by_cases h1 : cid = p.fromCid
  · subst h1
    have ht : p.transfer.concerns p.fromCid = true := by simp [Transfer.concerns, TpArgs.transfer]
    refine (h _ hcid).post ht ?_ fun x => ?_
    · rw [saveTransfer_account, accountOf_concat ht, heffFrom]
      simp only [accountOf_cid, hne, if_false, if_true]
      rfl
    · rw [saveTransfer_hist]
      simp only [histSetHistKey, lastRecord, accountOf_concat ht, heffFrom, Node.mk.injEq, true_and,
        List.cons.injEq, Sub.str.injEq, sprintfD_inj, hne, false_and, if_false, and_true]
      simp only [TpArgs.transfer, if_true]
      rfl
  · by_cases h2 : cid = p.toCid
    · subst h2
      have ht : p.transfer.concerns p.toCid = true := by simp [Transfer.concerns, TpArgs.transfer]
      refine (h _ hcid).post ht ?_ fun x => ?_
      · rw [saveTransfer_account, accountOf_concat ht, heffTo]
        simp only [accountOf_cid, if_true]
      · rw [saveTransfer_hist]
        simp only [histSetHistKey, lastRecord, accountOf_concat ht, heffTo, Node.mk.injEq, true_and,
          List.cons.injEq, Sub.str.injEq, sprintfD_inj, h1, false_and, if_false, and_true]
        simp only [TpArgs.transfer, hne, if_false]
    · have ht : p.transfer.concerns cid = false := by
        simp [Transfer.concerns, TpArgs.transfer, Ne.symm h1, Ne.symm h2]
      refine (h _ hcid).frame ht ?_ fun x => ?_
      · rw [saveTransfer_account]
        simp only [accountOf_cid, h1, h2, if_false]
      · rw [saveTransfer_hist, if_neg, if_neg]
        · simp [histSetHistKey, sprintfD_inj, h1]
        · simp [histSetHistKey, sprintfD_inj, h2]


/-! ## 5. The opening of the accounts -/

theorem initAccounts_get (m : Nat) {i : Nat} (hi : i < m) :
    ((List.range m).foldl initAccount .empty).get (accountSetAccountKey (startCid + i)) =
        some (.str (lit "1|10000000")) ∧
      ((List.range m).foldl initAccount .empty).get (histSetHistKey (startCid + i) 1) =
        some (.str (lit "Account Create||10000000")) := by
  induction m with
  | zero => cases hi
  | succ m ih =>
      rw [List.range_succ, List.foldl_append, List.foldl_cons, List.foldl_nil]
      unfold initAccount
      by_cases him : i = m
      · subst him
        simp [Table.get_set]
      · have hlt : i < m := by omega
        have hne : ¬ startCid + (i : Int) = startCid + m := by omega
        simp only [Table.get_set, accountKey_ne_histKey, (accountKey_ne_histKey _ _ _).symm,
          accountSetAccountKey_inj, histSetHistKey_inj, hne, false_and, if_false]
        exact ih hlt

/-- The histories have their first entry only. -/
theorem initAccounts_hist (m : Nat) {subs : List Sub} {v : Val}
    (h : ((List.range m).foldl initAccount .empty).get ⟨.zhist, subs⟩ = some v) :
    ∃ i < m, (⟨.zhist, subs⟩ : Node Glob) = histSetHistKey (startCid + i) 1 := by
  induction m with
  | zero => cases h
  | succ m ih =>
      rw [List.range_succ, List.foldl_append, List.foldl_cons, List.foldl_nil] at h
      unfold initAccount at h
      rw [Table.get_set] at h
      split at h
      · exact ⟨m, m.lt_succ_self, ‹_›⟩
      · rw [Table.get_set_of_ne _ _ (by simp [accountSetAccountKey])] at h
        obtain ⟨i, hi, he⟩ := ih h
        exact ⟨i, by omega, he⟩

theorem represents_initData {cid : Int} (hcid : IsCid cid) :
    Represents (initData .empty) [] cid := by
  obtain ⟨i, hi, rfl⟩ : ∃ i : Nat, i < accNeeded ∧ cid = startCid + i :=
    ⟨(cid - startCid).toNat, by unfold IsCid at hcid; omega, by unfold IsCid at hcid; omega⟩
  obtain ⟨haccount, hhist⟩ := initAccounts_get accNeeded hi
  refine ⟨?_, hhist, ?_, ?_⟩
  · have htext : (accountOf (startCid + i) []).text = lit "1|10000000" := by
      unfold accountOf Account.text
      rw [balance_nil]
      show sprintfD 1 ++ bar :: sprintfD 10000000 = lit "1|10000000"
      decide
    rw [htext]
    exact haccount
  · intro j hj
    exact absurd hj (Nat.not_lt_zero j)
  · intro x v hx
    obtain ⟨j, hj, he⟩ := initAccounts_hist accNeeded hx
    simp only [histSetHistKey, Node.mk.injEq, true_and, List.cons.injEq, and_true] at he
    exact ⟨1, le_rfl, by simp [accountOf], he.2⟩

/-! ## 6. The reference numbers -/

/-- **Where the reference numbers come from.** -/
structure References (numThreads : Nat) (s : Sys) : Prop where
  guid : ∀ g, (s.args g).guid = g
  numRuns : ∀ g, 0 ≤ (s.args g).numRuns
  /-- A process in a transaction has the reference of its next run. -/
  pending : ∀ g p, s.toPass g = some p → g < numThreads ∧
    p.ref = g + (s.args g).numRuns * 10 ^ idShift numThreads
  /-- What is committed has the reference of an earlier run of its process. -/
  past : ∀ p ∈ s.committed, ∃ g : Nat, g < numThreads ∧ ∃ r : Int, 0 ≤ r ∧
    r < (s.args g).numRuns ∧ p.ref = g + r * 10 ^ idShift numThreads
  nodup : (s.committed.map TpArgs.ref).Nodup

/-- A reference gives back the process and the run. -/
theorem reference_inj {numThreads g g' : Nat} {r r' : Int} (hg : g < numThreads)
    (hg' : g' < numThreads)
    (h : (g : Int) + r * 10 ^ idShift numThreads = g' + r' * 10 ^ idShift numThreads) :
    g = g' ∧ r = r' := by
  have hle : numThreads ≤ 10 ^ idShift numThreads := Nat.le_pow_clog (by decide) _
  have hpos : (0 : Int) < 10 ^ idShift numThreads := by positivity
  have hcast : (numThreads : Int) ≤ 10 ^ idShift numThreads := by exact_mod_cast hle
  generalize (10 : Int) ^ idShift numThreads = shifted at h hpos hcast
  have hmod : (g : Int) = g' := by
    have := congrArg (· % shifted) h
    simpa [Int.emod_eq_of_lt (Int.natCast_nonneg g) (by omega : (g : Int) < shifted),
      Int.emod_eq_of_lt (Int.natCast_nonneg g') (by omega : (g' : Int) < shifted)] using this
  refine ⟨by omega, ?_⟩
  rw [hmod] at h
  exact Int.eq_of_mul_eq_mul_right hpos.ne' (by omega)

/-- A transaction is between two of the accounts. -/
def TpArgs.Between (p : TpArgs) : Prop :=
  IsCid p.fromCid ∧ IsCid p.toCid ∧ p.fromCid ≠ p.toCid

theorem childThread_between {shift : Nat} {args : ThreadArgs} {rand₁ rand₂ : Nat} {p : TpArgs}
    (h : childThread shift args rand₁ rand₂ = some p) :
    p.Between ∧ p.ref = args.guid + args.numRuns * 10 ^ shift := by
  simp only [childThread, Option.bind_eq_bind, Option.bind_eq_some_iff, Option.pure_def,
    Option.some.injEq] at h
  obtain ⟨ref, href, rfl⟩ := h
  have h1 : rand₁ % accNeeded < 1000 := Nat.mod_lt _ (by decide)
  have h2 : rand₂ % (accNeeded - 1) < 999 := Nat.mod_lt _ (by decide)
  refine ⟨⟨?_, ?_, ?_⟩, int_eq_some href⟩
  · unfold IsCid accNeeded at *
    dsimp only
    omega
  · unfold IsCid accNeeded at *
    dsimp only
    split <;> omega
  · dsimp only
    split <;> omega

theorem References.step {numThreads : Nat} {s s' : Sys} (h : References numThreads s)
    (hs : Step numThreads s s') : References numThreads s' := by
  cases hs with
  | @call g p rand₁ rand₂ hg hidle hcall =>
      have href := (childThread_between hcall).2
      rw [h.guid] at href
      refine ⟨h.guid, h.numRuns, ?_, h.past, h.nodup⟩
      intro g' p' hp'
      by_cases hgg : g' = g
      · subst hgg
        simp only [update_self, Option.some.injEq] at hp'
        subst hp'
        exact ⟨hg, href⟩
      · simp only [update_of_ne hgg] at hp'
        exact h.pending g' p' hp'
  | restart => exact h
  | @commit g p db numRuns time₁ time₂ hg hp hdb hruns =>
      have hrun := int_eq_some hruns
      have href := (h.pending g p hp).2
      have hargs : ∀ g', (update s.args g { s.args g with numRuns := numRuns } g').numRuns =
          if g' = g then (s.args g).numRuns + 1 else (s.args g').numRuns := by
        intro g'
        by_cases hgg : g' = g
        · subst hgg
          simp [hrun]
        · simp [hgg]
      refine ⟨?_, ?_, ?_, ?_, ?_⟩
      · intro g'
        by_cases hgg : g' = g
        · subst hgg
          simp [h.guid]
        · simp [hgg, h.guid]
      · intro g'
        have h0 := h.numRuns g
        have h1 := h.numRuns g'
        rw [hargs]
        split <;> omega
      · intro g' p' hp'
        by_cases hgg : g' = g
        · subst hgg
          simp at hp'
        · simp only [update_of_ne hgg] at hp' ⊢
          exact h.pending g' p' hp'
      · intro q hq
        rcases List.mem_append.1 hq with hq | hq
        · obtain ⟨g', hg', r, h0, h1, he⟩ := h.past q hq
          refine ⟨g', hg', r, h0, ?_, he⟩
          rw [hargs]
          split
          · subst g'
            omega
          · exact h1
        · obtain rfl := List.mem_singleton.1 hq
          refine ⟨g, hg, (s.args g).numRuns, h.numRuns g, ?_, href⟩
          rw [hargs, if_pos rfl]
          omega
      · -- the run of this commit is none of the runs before
        rw [List.map_append, List.map_singleton]
        refine List.nodup_append.2 ⟨h.nodup, List.nodup_singleton _, ?_⟩
        intro ref hr ref' hr' he
        obtain ⟨q, hq, rfl⟩ := List.mem_map.1 hr
        obtain rfl := List.mem_singleton.1 hr'
        obtain ⟨g', hg', r, -, hlt, hqref⟩ := h.past q hq
        rw [hqref, href] at he
        obtain ⟨rfl, rfl⟩ := reference_inj hg' hg he
        exact absurd hlt (lt_irrefl _)

/-! ## 7. The books -/

/-- **What holds after every step.** -/
structure Inv (numThreads : Nat) (s : Sys) : Prop where
  references : References numThreads s
  pending : ∀ g p, s.toPass g = some p → p.Between
  past : ∀ p ∈ s.committed, p.Between
  represents : ∀ cid, IsCid cid → Represents s.db (s.committed.map TpArgs.transfer) cid

theorem inv_of_opened (numThreads : Nat) (user : Int) {db : Db}
    (h : ∀ cid, IsCid cid → Represents db [] cid) :
    Inv numThreads ⟨db, fun g => ⟨g, user, 0⟩, fun _ => none, []⟩ where
  references :=
    { guid := fun _ => rfl
      numRuns := fun _ => le_rfl
      pending := fun _ _ h => (Option.some_ne_none _ h.symm).elim
      past := fun _ h => absurd h List.not_mem_nil
      nodup := List.nodup_nil }
  pending _ _ h := (Option.some_ne_none _ h.symm).elim
  past _ h := absurd h List.not_mem_nil
  represents := h

theorem inv_start (numThreads : Nat) (user : Int) : Inv numThreads (start user) :=
  inv_of_opened numThreads user fun _ hcid => represents_initData hcid

theorem inv_step {numThreads : Nat} {s s' : Sys} (h : Inv numThreads s)
    (hs : Step numThreads s s') : Inv numThreads s' := by
  have href := h.references.step hs
  cases hs with
  | @call g p rand₁ rand₂ hg hidle hcall =>
      refine ⟨href, ?_, h.past, h.represents⟩
      intro g' p' hp'
      by_cases hgg : g' = g
      · subst hgg
        simp only [update_self, Option.some.injEq] at hp'
        exact hp' ▸ (childThread_between hcall).1
      · simp only [update_of_ne hgg] at hp'
        exact h.pending g' p' hp'
  | restart => exact h
  | @commit g p db numRuns time₁ time₂ hg hp hdb hruns =>
      obtain ⟨hfrom, hto, hne⟩ := h.pending g p hp
      refine ⟨href, ?_, ?_, ?_⟩
      · intro g' p' hp'
        by_cases hgg : g' = g
        · subst hgg
          simp at hp'
        · simp only [update_of_ne hgg] at hp'
          exact h.pending g' p' hp'
      · intro q hq
        rcases List.mem_append.1 hq with hq | hq
        · exact h.past q hq
        · exact List.mem_singleton.1 hq ▸ ⟨hfrom, hto, hne⟩
      · simp only [List.map_append, List.map_singleton]
        exact represents_postTransfer h.represents hfrom hto hne hdb

theorem inv_of_reach {numThreads : Nat} {user : Int} {s : Sys} (h : Reach numThreads user s) :
    Inv numThreads s := by
  induction h with
  | start => exact inv_start _ _
  | step _ hs ih => exact inv_step ih hs

/-! ## 8. Reading the history -/

/-- A piece of an entry of `^ZHIST`. -/
def histPiece (db : Db) (cid k : Int) (m : Nat) : Option MStr :=
  (db.get (histSetHistKey cid k)).map fun v => piece bar v.toStr m

def histAmt (db : Db) (cid k : Int) : Option Int := (histPiece db cid k 2).map atoi
def histEndBal (db : Db) (cid k : Int) : Option Int := (histPiece db cid k 3).map atoi
def histRef (db : Db) (cid k : Int) : Option MStr := histPiece db cid k 4

/-- **The books are balanced**, with `acct` for what the accounts hold. -/
structure Balanced (db : Db) (acct : Int → Account) (committed : List TpArgs) : Prop where
  loaded : ∀ cid, IsCid cid → accountLoad db cid = some (acct cid)
  /-- No money is lost or made. -/
  total : ∑ cid ∈ Finset.Ico startCid (startCid + accNeeded), (acct cid).bal = accNeeded * opening
  /-- The entries of an account are those from 1 to `histSeq`. -/
  defined : ∀ cid, IsCid cid → ∀ x, (db.get ⟨.zhist, [.str (sprintfD cid), x]⟩).isSome ↔
    ∃ k : Int, 1 ≤ k ∧ k ≤ (acct cid).histSeq ∧ x = .str (sprintfD k)
  /-- Each entry's balance is the one before and its amount. -/
  chained : ∀ cid, IsCid cid → ∀ k, 2 ≤ k → k ≤ (acct cid).histSeq → ∃ endBal amt,
    histEndBal db cid (k - 1) = some endBal ∧ histAmt db cid k = some amt ∧
      histEndBal db cid k = some (endBal + amt)
  last : ∀ cid, IsCid cid → histEndBal db cid (acct cid).histSeq = some (acct cid).bal
  /-- No two transfers share a reference. -/
  refs : (committed.map TpArgs.ref).Nodup
  /-- A transfer has one entry with its sender, one with its receiver, and no other. -/
  once : ∀ p ∈ committed, ∃ kFrom kTo,
    (∀ cid, IsCid cid → ∀ k, histRef db cid k = some (sprintfD p.ref) ↔
      cid = p.fromCid ∧ k = kFrom ∨ cid = p.toCid ∧ k = kTo) ∧
    histAmt db p.fromCid kFrom = some (-p.amt) ∧ histAmt db p.toCid kTo = some p.amt

theorem HistRecord.piece_text (h : HistRecord) (hc : bar ∉ h.comment) :
    piece bar h.text 2 = sprintfD h.amt ∧ piece bar h.text 3 = sprintfD h.endBal ∧
      piece bar h.text 4 = sprintfD h.user := by
  have hamt := bar_notMem_sprintfD h.amt
  have hbal := bar_notMem_sprintfD h.endBal
  unfold HistRecord.text
  refine ⟨?_, ?_, ?_⟩
  · rw [piece_append hc]
    exact beforeFirst_append hamt _
  · rw [piece_append hc, piece_append hamt]
    exact beforeFirst_append hbal _
  · rw [piece_append hc, piece_append hamt, piece_append hbal]
    exact beforeFirst_of_notMem (bar_notMem_sprintfD _)

theorem bar_notMem_comment (cid : Int) (ts : List (Transfer Int Int Int)) (j : Nat)
    (hj : j < ts.length) : bar ∉ (recordOf cid ts j hj).comment := by
  unfold recordOf
  dsimp only
  split
  · rw [List.mem_append, not_or]
    exact ⟨by decide, bar_notMem_sprintfD _⟩
  · rw [List.mem_append, not_or]
    exact ⟨by decide, bar_notMem_sprintfD _⟩

section Read

variable {db : Db} {ts : List (Transfer Int Int Int)} {cid : Int}

/-- The entry of the `j`th transfer of an account. -/
theorem Represents.read (h : Represents db ts cid) {j : Nat} (hj : j < (history cid ts).length) :
    histAmt db cid (j + 2) = some ((history cid ts)[j].effect cid) ∧
      histEndBal db cid (j + 2) = some (balance opening cid ((history cid ts).take (j + 1))) ∧
      histRef db cid (j + 2) = some (sprintfD (history cid ts)[j].ref) := by
  obtain ⟨hamt, hbal, href⟩ :=
    (recordOf cid (history cid ts) j hj).piece_text (bar_notMem_comment _ _ _ _)
  unfold histAmt histEndBal histRef histPiece
  rw [h.posted j hj]
  simp only [Option.map_some, Val.toStr, hamt, hbal, href, atoi_sprintfD]
  exact ⟨rfl, rfl, rfl⟩

theorem Represents.read_one (h : Represents db ts cid) :
    histEndBal db cid 1 = some opening ∧ histRef db cid 1 = some [] := by
  unfold histEndBal histRef histPiece
  rw [h.created]
  simp only [Option.map_some, Val.toStr]
  exact ⟨by decide, by decide⟩

/-- The balance of an entry is that of the transfers up to it. -/
theorem Represents.endBal (h : Represents db ts cid) {j : Nat}
    (hj : j ≤ (history cid ts).length) :
    histEndBal db cid (j + 1) = some (balance opening cid ((history cid ts).take j)) := by
  cases j with
  | zero =>
      rw [List.take_zero, balance_nil]
      exact h.read_one.1
  | succ j =>
      have := (h.read hj).2.1
      rwa [show ((j + 1 : Nat) : Int) + 1 = j + 2 by omega]

/-- The entries of an account. -/
theorem Represents.defined (h : Represents db ts cid) (x : Sub) :
    (db.get ⟨.zhist, [.str (sprintfD cid), x]⟩).isSome ↔
      ∃ k : Int, 1 ≤ k ∧ k ≤ (accountOf cid ts).histSeq ∧ x = .str (sprintfD k) := by
  constructor
  · intro hx
    obtain ⟨v, hv⟩ := Option.isSome_iff_exists.1 hx
    exact h.bounded x v hv
  · rintro ⟨k, h1, h2, rfl⟩
    by_cases hk : k = 1
    · have := h.created
      unfold histSetHistKey at this
      rw [hk, this]
      rfl
    · have hlen : k ≤ (history cid ts).length + 1 := h2
      obtain ⟨j, rfl⟩ : ∃ j : Nat, k = j + 2 := ⟨(k - 2).toNat, by omega⟩
      have := h.posted j (by omega)
      unfold histSetHistKey at this
      rw [this]
      rfl

/-- An entry with a reference is that of a transfer with the reference. -/
theorem Represents.ref (h : Represents db ts cid) {k ref : Int}
    (href : histRef db cid k = some (sprintfD ref)) :
    ∃ j, ∃ hj : j < (history cid ts).length, k = j + 2 ∧ (history cid ts)[j].ref = ref := by
  have hsome : (db.get ⟨.zhist, [.str (sprintfD cid), .str (sprintfD k)]⟩).isSome := by
    unfold histRef histPiece histSetHistKey at href
    cases hd : db.get ⟨.zhist, [.str (sprintfD cid), .str (sprintfD k)]⟩ with
    | none => rw [hd] at href; cases href
    | some v => rfl
  obtain ⟨l, h1, h2, hl⟩ := (h.defined _).1 hsome
  rw [Sub.str.injEq, sprintfD_inj] at hl
  subst hl
  by_cases hk : k = 1
  · rw [hk, h.read_one.2, Option.some.injEq] at href
    exact absurd href.symm (sprintfD_ne_nil _)
  · have hlen : k ≤ (history cid ts).length + 1 := h2
    obtain ⟨j, rfl⟩ : ∃ j : Nat, k = j + 2 := ⟨(k - 2).toNat, by omega⟩
    have hj : j < (history cid ts).length := by omega
    rw [(h.read hj).2.2, Option.some.injEq, sprintfD_inj] at href
    exact ⟨j, hj, rfl, href⟩

/-- **A transfer has one entry in the history of an account it concerns.** -/
theorem Represents.once (h : Represents db ts cid) (hrefs : (ts.map Transfer.ref).Nodup)
    {t : Transfer Int Int Int} (ht : t ∈ ts) (hc : t.concerns cid = true) :
    ∃ kt : Int, (∀ k, histRef db cid k = some (sprintfD t.ref) ↔ k = kt) ∧
      histAmt db cid kt = some (t.effect cid) := by
  obtain ⟨j, hj, hjt, huniq⟩ := history_unique hrefs ht hc
  refine ⟨j + 2, fun k => ⟨fun hk => ?_, ?_⟩, ?_⟩
  · obtain ⟨i, hi, rfl, hit⟩ := h.ref hk
    rw [huniq i hi hit]
  · rintro rfl
    rw [(h.read hj).2.2, hjt]
  · rw [(h.read hj).1, hjt]

/-- It has none in that of another account. -/
theorem Represents.none (h : Represents db ts cid) (hrefs : (ts.map Transfer.ref).Nodup)
    {t : Transfer Int Int Int} (ht : t ∈ ts) (hc : t.concerns cid = false) (k : Int) :
    histRef db cid k ≠ some (sprintfD t.ref) := by
  intro hk
  obtain ⟨j, hj, -, hjt⟩ := h.ref hk
  obtain ⟨hmem, hjc⟩ := List.mem_filter.1 (List.getElem_mem hj)
  have heq : (history cid ts)[j] = t := List.inj_on_of_nodup_map hrefs hmem ht hjt
  rw [heq, hc] at hjc
  cases hjc

end Read

/-! ## 9. The result -/

theorem Inv.total {numThreads : Nat} {s : Sys} (h : Inv numThreads s) :
    ∑ cid ∈ Finset.Ico startCid (startCid + accNeeded),
      (accountOf cid (s.committed.map TpArgs.transfer)).bal = accNeeded * opening := by
  have hsum := sum_balance opening (Finset.Ico startCid (startCid + (accNeeded : Int)))
    (s.committed.map TpArgs.transfer) fun t ht => by
      obtain ⟨p, hp, rfl⟩ := List.mem_map.1 ht
      obtain ⟨hfrom, hto, -⟩ := h.past p hp
      exact ⟨Finset.mem_Ico.2 hfrom, Finset.mem_Ico.2 hto⟩
  rw [Int.card_Ico, add_sub_cancel_left, Int.toNat_natCast, nsmul_eq_mul] at hsum
  exact hsum

/-- The entries of a transfer of the run. -/
theorem Inv.once {numThreads : Nat} {s : Sys} (h : Inv numThreads s) {p : TpArgs}
    (hp : p ∈ s.committed) : ∃ kFrom kTo,
    (∀ cid, IsCid cid → ∀ k, histRef s.db cid k = some (sprintfD p.ref) ↔
      cid = p.fromCid ∧ k = kFrom ∨ cid = p.toCid ∧ k = kTo) ∧
    histAmt s.db p.fromCid kFrom = some (-p.amt) ∧ histAmt s.db p.toCid kTo = some p.amt := by
  obtain ⟨hfrom, hto, hne⟩ := h.past p hp
  have hrefs : ((s.committed.map TpArgs.transfer).map Transfer.ref).Nodup := by
    rw [List.map_map]
    exact h.references.nodup
  have hmem : p.transfer ∈ s.committed.map TpArgs.transfer := List.mem_map_of_mem hp
  obtain ⟨kFrom, hkFrom, hamtFrom⟩ := (h.represents _ hfrom).once hrefs hmem
    (by simp [Transfer.concerns, TpArgs.transfer])
  obtain ⟨kTo, hkTo, hamtTo⟩ := (h.represents _ hto).once hrefs hmem
    (by simp [Transfer.concerns, TpArgs.transfer])
  refine ⟨kFrom, kTo, fun cid hcid k => ?_, ?_, ?_⟩
  · by_cases h1 : cid = p.fromCid
    · subst h1
      exact (hkFrom k).trans (by simp [hne])
    · by_cases h2 : cid = p.toCid
      · subst h2
        exact (hkTo k).trans (by simp [h1])
      · have hc : p.transfer.concerns cid = false := by
          simp [Transfer.concerns, TpArgs.transfer, Ne.symm h1, Ne.symm h2]
        refine iff_of_false ((h.represents cid hcid).none hrefs hmem hc k) ?_
        simp [h1, h2]
  · rw [hamtFrom]
    simp [Transfer.effect, TpArgs.transfer, hne.symm]
  · rw [hamtTo]
    simp [Transfer.effect, TpArgs.transfer, hne]

/-- **pseudoBank keeps the books balanced**: in any interleaving of the transactions of any number
    of processes, after every step. -/
theorem pseudoBank_balanced {numThreads : Nat} {user : Int} {s : Sys}
    (h : Reach numThreads user s) : ∃ acct, Balanced s.db acct s.committed := by
  have hinv := inv_of_reach h
  refine ⟨fun cid => accountOf cid (s.committed.map TpArgs.transfer), ?_⟩
  constructor
  case loaded => exact fun cid hcid => (hinv.represents cid hcid).accountLoad
  case total => exact hinv.total
  case defined => exact fun cid hcid x => (hinv.represents cid hcid).defined x
  case chained =>
    intro cid hcid k h2 hk
    have hlen : k ≤ (history cid (s.committed.map TpArgs.transfer)).length + 1 := hk
    obtain ⟨j, rfl⟩ : ∃ j : Nat, k = j + 2 := ⟨(k - 2).toNat, by omega⟩
    have hj : j < (history cid (s.committed.map TpArgs.transfer)).length := by omega
    obtain ⟨hamt, hbal, -⟩ := (hinv.represents cid hcid).read hj
    have hbefore := (hinv.represents cid hcid).endBal hj.le
    rw [show (j : Int) + 1 = j + 2 - 1 by omega] at hbefore
    rw [balance_take_succ _ _ _ hj] at hbal
    exact ⟨_, _, hbefore, hamt, hbal⟩
  case last =>
    intro cid hcid
    have := (hinv.represents cid hcid).endBal le_rfl
    rwa [List.take_length, balance_history] at this
  case refs => exact hinv.references.nodup
  case once => exact fun p hp => hinv.once hp

/-- Ten processes, and a first transfer of 1 from account 100001 to account 100002. -/
theorem exists_once : ∃ s, Reach 10 7 s ∧ s.committed = [⟨3, 100001, 100002, 1, 7⟩] := by
  have hcall : childThread (idShift 10) ((start 7).args 3) 0 0 =
      some ⟨3, 100001, 100002, 1, 7⟩ := by
    rfl
  have hopened : ∀ cid, IsCid cid → accountLoad (start 7).db cid = some (accountOf cid []) :=
    fun cid hcid => ((inv_start 10 7).represents cid hcid).accountLoad
  obtain ⟨db, hdb⟩ := postTransfer_of_int ⟨3, 100001, 100002, 1, 7⟩ 0 0
    (hopened 100001 ⟨by decide, by decide⟩) (hopened 100002 ⟨by decide, by decide⟩)
    (by rfl) (by rfl) (by rfl) (by rfl) (by rfl)
  obtain ⟨s, hs, hcommitted⟩ := Reach.start.transfer (by decide) rfl hcall hdb (by rfl)
  exact ⟨s, hs, hcommitted⟩

theorem pseudoBank_balanced_once : ∃ s, Reach 10 7 s ∧ s.committed.length = 1 ∧
    ∃ acct, Balanced s.db acct s.committed := by
  obtain ⟨s, hs, hcommitted⟩ := exists_once
  exact ⟨s, hs, by rw [hcommitted]; rfl, pseudoBank_balanced hs⟩

end YottaTest.SimpleApi
