/-
  File:      YottaTest/SimpleApi/TrnLog.lean
  Subject:   pseudoBank.c and pseudoBank.go: the log of the transfers, read back.

  * `logPosting`, `histPosting`, `LogAgrees` -- account, amount and balance of a record of `^ZTRNLOG`
    and of an entry of `^ZHIST`;
  * `DataObject`, `postTranfer` -- the records of the Go version and its transaction;
  * `Logged`, `logged_of_reach` -- what is in the log for a committed transfer: **both records are the
    sender's**, with its balance;
  * `pseudoBank_log` -- the first record agrees with the history and the second never does; in Go both do.
-/
import YottaTest.SimpleApi.PseudoBank

namespace YottaTest.SimpleApi

open Function YottaTest.M YottaTest.Lib

/-! ## 1. Reading the log -/

/-- An account, an amount and a balance. -/
structure Posting where
  cid : Int
  amt : Int
  endBal : Int
  deriving DecidableEq, Repr

/-- A record of `^ZTRNLOG`: these are its third to fifth pieces, in C and in Go. -/
def logPosting (db : Db) (ref tSeq : Int) : Option Posting :=
  (db.get (trnSetTrnLogKey ref tSeq)).map fun v =>
    ⟨atoi (piece bar v.toStr 3), atoi (piece bar v.toStr 4), atoi (piece bar v.toStr 5)⟩

/-- An entry of `^ZHIST`, whose key has the account. -/
def histPosting (db : Db) (cid k : Int) : Option Posting :=
  (db.get (histSetHistKey cid k)).map fun v =>
    ⟨cid, atoi (piece bar v.toStr 2), atoi (piece bar v.toStr 3)⟩

/-- **A record of the log agrees with the history**: the entry of the transfer in the account's history
    has the same account, amount and balance. -/
def LogAgrees (db : Db) (ref tSeq cid : Int) : Prop :=
  ∃ k posting, histRef db cid k = some (sprintfD ref) ∧ histPosting db cid k = some posting ∧
    logPosting db ref tSeq = some posting

@[simp] theorem trnSetTrnLogKey_inj {r r' k k' : Int} :
    trnSetTrnLogKey r k = trnSetTrnLogKey r' k' ↔ r = r' ∧ k = k' := by
  simp [trnSetTrnLogKey, sprintfD_inj]

theorem TrnLog.piece_text (t : TrnLog) (time : Int) :
    piece bar (t.text time) 3 = sprintfD t.cid ∧ piece bar (t.text time) 4 = sprintfD t.amt ∧
      piece bar (t.text time) 5 = sprintfD t.endBal := by
  unfold TrnLog.text
  refine ⟨?_, ?_, ?_⟩
  · rw [piece_append (bar_notMem_sprintfD _), piece_append (bar_notMem_sprintfD _)]
    exact beforeFirst_append (bar_notMem_sprintfD _) _
  · rw [piece_append (bar_notMem_sprintfD _), piece_append (bar_notMem_sprintfD _),
      piece_append (bar_notMem_sprintfD _)]
    exact beforeFirst_append (bar_notMem_sprintfD _) _
  · rw [piece_append (bar_notMem_sprintfD _), piece_append (bar_notMem_sprintfD _),
      piece_append (bar_notMem_sprintfD _), piece_append (bar_notMem_sprintfD _)]
    exact beforeFirst_append (bar_notMem_sprintfD _) _

/-- A record that was saved, read back. -/
theorem logPosting_trnSave (db : Db) (t : TrnLog) (time ref tSeq : Int) :
    logPosting (trnSave db t time) ref tSeq =
      if ref = t.guid ∧ tSeq = t.tSeq then some ⟨t.cid, t.amt, t.endBal⟩
      else logPosting db ref tSeq := by
  obtain ⟨hcid, hamt, hbal⟩ := t.piece_text time
  unfold logPosting trnSave
  rw [Table.get_set]
  simp only [trnSetTrnLogKey_inj]
  split
  · simp only [Option.map_some, Val.toStr, hcid, hamt, hbal, atoi_sprintfD]
  · rfl

/-! ## 2. What a transfer saves -/

/-- The accounts and the histories after a transfer. -/
def saveBooks (db : Db) (args : TpArgs) (accountFrom accountTo : Account) (debit : Int) : Db :=
  histSave (histSave (accountSave (accountSave db accountFrom) accountTo)
    ⟨args.fromCid, accountFrom.histSeq, lit "Transfer to " ++ sprintfD args.toCid, debit,
      accountFrom.bal, args.ref⟩)
    ⟨args.toCid, accountTo.histSeq, lit "Transfer from " ++ sprintfD args.fromCid, args.amt,
      accountTo.bal, args.ref⟩

theorem saveTransfer_eq (db : Db) (args : TpArgs) (a b : Account) (debit time₁ time₂ : Int) :
    saveTransfer db args a b debit time₁ time₂ =
      trnSave (trnSave (saveBooks db args a b debit)
        ⟨args.ref, 1, args.fromCid, debit, a.bal, args.user⟩ time₁)
        ⟨args.ref, 2, args.fromCid, args.amt, a.bal, args.user⟩ time₂ := rfl

/-- Saving to other globals does not touch the log. -/
theorem logPosting_saveBooks (db : Db) (args : TpArgs) (a b : Account) (debit ref tSeq : Int) :
    logPosting (saveBooks db args a b debit) ref tSeq = logPosting db ref tSeq := by
  unfold logPosting saveBooks histSave accountSave
  rw [Table.get_set_of_ne _ _ (by simp [trnSetTrnLogKey, histSetHistKey]),
    Table.get_set_of_ne _ _ (by simp [trnSetTrnLogKey, histSetHistKey]),
    Table.get_set_of_ne _ _ (by simp [trnSetTrnLogKey, accountSetAccountKey]),
    Table.get_set_of_ne _ _ (by simp [trnSetTrnLogKey, accountSetAccountKey])]

/-- The entries of the histories after a transfer. -/
theorem get_saveBooks (db : Db) (args : TpArgs) (a b : Account) (debit cid k : Int) :
    (saveBooks db args a b debit).get (histSetHistKey cid k) =
      if cid = args.toCid ∧ k = b.histSeq then
        some (.str (HistRecord.text ⟨args.toCid, b.histSeq,
          lit "Transfer from " ++ sprintfD args.fromCid, args.amt, b.bal, args.ref⟩))
      else if cid = args.fromCid ∧ k = a.histSeq then
        some (.str (HistRecord.text ⟨args.fromCid, a.histSeq,
          lit "Transfer to " ++ sprintfD args.toCid, debit, a.bal, args.ref⟩))
      else db.get (histSetHistKey cid k) := by
  have hsave : (saveBooks db args a b debit).get (histSetHistKey cid k) =
      (saveTransfer db args a b debit 0 0).get (histSetHistKey cid k) := by
    rw [saveTransfer_eq, get_trnSave _ _ _ (by simp [histSetHistKey]),
      get_trnSave _ _ _ (by simp [histSetHistKey])]
  rw [hsave]
  refine (saveTransfer_hist _).trans ?_
  simp only [histSetHistKey, Node.mk.injEq, true_and, List.cons.injEq, Sub.str.injEq, sprintfD_inj,
    and_true]

/-- The two readings of an entry, from what the entry is. -/
theorem hist_of_get {db : Db} {cid k : Int} {h : HistRecord} (hc : bar ∉ h.comment)
    (hget : db.get (histSetHistKey cid k) = some (.str h.text)) :
    histRef db cid k = some (sprintfD h.user) ∧
      histPosting db cid k = some ⟨cid, h.amt, h.endBal⟩ := by
  obtain ⟨hamt, hbal, href⟩ := h.piece_text hc
  unfold histRef histPiece histPosting
  rw [hget]
  simp only [Option.map_some, Val.toStr, hamt, hbal, href, atoi_sprintfD, and_self]

theorem bar_notMem_transferTo (cid : Int) : bar ∉ lit "Transfer to " ++ sprintfD cid := by
  rw [List.mem_append, not_or]
  exact ⟨by decide, bar_notMem_sprintfD _⟩

theorem bar_notMem_transferFrom (cid : Int) : bar ∉ lit "Transfer from " ++ sprintfD cid := by
  rw [List.mem_append, not_or]
  exact ⟨by decide, bar_notMem_sprintfD _⟩

/-- The sender's entry and the receiver's. -/
theorem hist_saveBooks (db : Db) {args : TpArgs} (hne : args.fromCid ≠ args.toCid) (a b : Account)
    (debit : Int) :
    (histRef (saveBooks db args a b debit) args.fromCid a.histSeq = some (sprintfD args.ref) ∧
      histPosting (saveBooks db args a b debit) args.fromCid a.histSeq =
        some ⟨args.fromCid, debit, a.bal⟩) ∧
    (histRef (saveBooks db args a b debit) args.toCid b.histSeq = some (sprintfD args.ref) ∧
      histPosting (saveBooks db args a b debit) args.toCid b.histSeq =
        some ⟨args.toCid, args.amt, b.bal⟩) := by
  have hfrom : (saveBooks db args a b debit).get (histSetHistKey args.fromCid a.histSeq) =
      some (.str (HistRecord.text ⟨args.fromCid, a.histSeq,
        lit "Transfer to " ++ sprintfD args.toCid, debit, a.bal, args.ref⟩)) := by
    rw [get_saveBooks, if_neg fun h => hne h.1, if_pos ⟨rfl, rfl⟩]
  have hto : (saveBooks db args a b debit).get (histSetHistKey args.toCid b.histSeq) =
      some (.str (HistRecord.text ⟨args.toCid, b.histSeq,
        lit "Transfer from " ++ sprintfD args.fromCid, args.amt, b.bal, args.ref⟩)) := by
    rw [get_saveBooks, if_pos ⟨rfl, rfl⟩]
  exact ⟨hist_of_get (bar_notMem_transferTo _) hfrom, hist_of_get (bar_notMem_transferFrom _) hto⟩

/-! ## 3. The log of a run -/

/-- **What is in the log for a transfer**: two records of its sender, both with the balance of the
    sender's entry. -/
def Logged (db : Db) (p : TpArgs) : Prop :=
  ∃ k endBal, histRef db p.fromCid k = some (sprintfD p.ref) ∧
    histPosting db p.fromCid k = some ⟨p.fromCid, -p.amt, endBal⟩ ∧
    logPosting db p.ref 1 = some ⟨p.fromCid, -p.amt, endBal⟩ ∧
    logPosting db p.ref 2 = some ⟨p.fromCid, p.amt, endBal⟩

theorem Logged.agrees {db : Db} {p : TpArgs} (h : Logged db p) : LogAgrees db p.ref 1 p.fromCid := by
  obtain ⟨k, endBal, href, hhist, hlog, -⟩ := h
  exact ⟨k, _, href, hhist, hlog⟩

/-- The receiver's record is not there. -/
theorem Logged.disagrees {db : Db} {p : TpArgs} (h : Logged db p) (hne : p.fromCid ≠ p.toCid) :
    ¬ LogAgrees db p.ref 2 p.toCid := by
  intro hagrees
  obtain ⟨-, endBal, -, -, -, hlog⟩ := h
  obtain ⟨k, posting, -, hhist, hlog'⟩ := hagrees
  obtain rfl := Option.some.inj (hlog.symm.trans hlog')
  unfold histPosting at hhist
  obtain ⟨v, -, hv⟩ := Option.map_eq_some_iff.1 hhist
  exact hne (congrArg Posting.cid hv).symm

/-- A transfer that was just posted. -/
theorem logged_saveTransfer (db : Db) {args : TpArgs} (hne : args.fromCid ≠ args.toCid)
    (a b : Account) (time₁ time₂ : Int) :
    Logged (saveTransfer db args a b (-args.amt) time₁ time₂) args := by
  obtain ⟨⟨href, hhist⟩, -⟩ := hist_saveBooks db hne a b (-args.amt)
  refine ⟨a.histSeq, a.bal, ?_, ?_, ?_, ?_⟩
  · unfold histRef histPiece at href ⊢
    rw [saveTransfer_eq, get_trnSave _ _ _ (by simp [histSetHistKey]),
      get_trnSave _ _ _ (by simp [histSetHistKey])]
    exact href
  · unfold histPosting at hhist ⊢
    rw [saveTransfer_eq, get_trnSave _ _ _ (by simp [histSetHistKey]),
      get_trnSave _ _ _ (by simp [histSetHistKey])]
    exact hhist
  · rw [saveTransfer_eq, logPosting_trnSave, if_neg (by simp), logPosting_trnSave, if_pos ⟨rfl, rfl⟩]
  · rw [saveTransfer_eq, logPosting_trnSave, if_pos ⟨rfl, rfl⟩]

/-- A transfer posted before, while another is: the entries of an account are not written again, and
    the references differ. -/
theorem Logged.saveTransfer {db : Db} {p : TpArgs} (h : Logged db p) {args : TpArgs} {a b : Account}
    (hfrom : ∀ k v, db.get (histSetHistKey args.fromCid k) = some v → k < a.histSeq)
    (hto : ∀ k v, db.get (histSetHistKey args.toCid k) = some v → k < b.histSeq)
    (href : p.ref ≠ args.ref) (debit time₁ time₂ : Int) :
    Logged (saveTransfer db args a b debit time₁ time₂) p := by
  obtain ⟨k, endBal, hhref, hhist, hlog₁, hlog₂⟩ := h
  obtain ⟨v, hv, -⟩ := Option.map_eq_some_iff.1 hhist
  have hget : (SimpleApi.saveTransfer db args a b debit time₁ time₂).get (histSetHistKey p.fromCid k) =
      db.get (histSetHistKey p.fromCid k) := by
    rw [saveTransfer_eq, get_trnSave _ _ _ (by simp [histSetHistKey]),
      get_trnSave _ _ _ (by simp [histSetHistKey]), get_saveBooks, if_neg ?_, if_neg ?_]
    · intro h
      rw [h.1, h.2] at hv
      exact Int.lt_irrefl _ (hfrom _ v hv)
    · intro h
      rw [h.1, h.2] at hv
      exact Int.lt_irrefl _ (hto _ v hv)
  have hlog : ∀ tSeq, logPosting (SimpleApi.saveTransfer db args a b debit time₁ time₂) p.ref tSeq =
      logPosting db p.ref tSeq := by
    intro tSeq
    rw [saveTransfer_eq, logPosting_trnSave, if_neg fun h => href h.1, logPosting_trnSave,
      if_neg fun h => href h.1, logPosting_saveBooks]
  refine ⟨k, endBal, ?_, ?_, (hlog 1).trans hlog₁, (hlog 2).trans hlog₂⟩
  · unfold histRef histPiece at hhref ⊢
    rwa [hget]
  · unfold histPosting at hhist ⊢
    rwa [hget]

/-- The entries of an account are those up to its `histSeq`. -/
theorem Represents.lt_histSeq {db : Db} {ts : List (Transfer Int Int Int)} {cid : Int}
    (h : Represents db ts cid) {k : Int} {v : Val} (hv : db.get (histSetHistKey cid k) = some v) :
    k < (accountOf cid ts).histSeq + 1 := by
  obtain ⟨l, -, hl, heq⟩ := h.bounded _ v hv
  rw [Sub.str.injEq, sprintfD_inj] at heq
  omega

theorem logged_step {numThreads : Nat} {s s' : Sys} (hinv : Inv numThreads s)
    (h : ∀ p ∈ s.committed, Logged s.db p) (hs : Step numThreads s s') :
    ∀ p ∈ s'.committed, Logged s'.db p := by
  have hrefs := (hinv.references.step hs).nodup
  cases hs with
  | call => exact h
  | restart => exact h
  | @commit g p db numRuns time₁ time₂ hg hp hdb hruns =>
      obtain ⟨hfrom, hto, hne⟩ := hinv.pending g p hp
      have hrepFrom := hinv.represents _ hfrom
      have hrepTo := hinv.represents _ hto
      rw [postTransfer_eq hrepFrom.accountLoad hrepTo.accountLoad hdb]
      intro q hq
      rcases List.mem_append.1 hq with hq | hq
      · refine (h q hq).saveTransfer (fun k v => hrepFrom.lt_histSeq) (fun k v => hrepTo.lt_histSeq)
          ?_ _ _ _
        rw [List.map_append, List.map_singleton] at hrefs
        exact (List.nodup_append.1 hrefs).2.2 _ (List.mem_map_of_mem hq) _ (List.mem_singleton_self _)
      · obtain rfl := List.mem_singleton.1 hq
        exact logged_saveTransfer _ hne _ _ _ _

theorem logged_of_reach {numThreads : Nat} {user : Int} {s : Sys} (h : Reach numThreads user s) :
    ∀ p ∈ s.committed, Logged s.db p := by
  induction h with
  | start => exact fun _ hp => absurd hp List.not_mem_nil
  | step h hs ih => exact logged_step (inv_of_reach h) ih hs

/-! ## 4. The Go version -/

namespace DataObject

/-- What an `int` holds after an operation. -/
def int64 (n : Int) : Int := n.bmod (2 ^ 64)

/-- The digits of a number: `strconv.Atoi` takes no other text. -/
def isDigits (s : MStr) : Bool :=
  s ≠ [] ∧ s.all fun c => match c with
    | .chr c => 48 ≤ c ∧ c ≤ 57
    | .byte _ => false

/-- The nearest number that an `int` can hold. -/
def inRange (n : Int) : Int := max (-2 ^ 63) (min n (2 ^ 63 - 1))

/-- `strconv.Atoi`, with its error not looked at. -/
def Atoi (s : MStr) : Int :=
  match s with
  | .chr 45 :: ds => if isDigits ds then inRange (-(Val.str ds).toNat) else 0
  | .chr 43 :: ds => if isDigits ds then inRange (Val.str ds).toNat else 0
  | ds => if isDigits ds then inRange (Val.str ds).toNat else 0

/-- `Account.Load`; none where `values` is too short. -/
def accountLoad (db : Db) (cid : Int) : Option Account :=
  (db.get (accountSetAccountKey cid)).bind fun data =>
    let values := splitStr [bar] data.toStr
    values[0]?.bind fun histSeq => values[1]?.map fun bal => ⟨cid, Atoi bal, Atoi histSeq⟩

structure HistRecord where
  cid : Int
  histSeq : Int
  comment : MStr
  amt : Int
  endbal : Int
  user : MStr

def HistRecord.getTextData (h : HistRecord) : MStr :=
  h.comment ++ bar :: (sprintfD h.amt ++ bar :: (sprintfD h.endbal ++ bar :: h.user))

def HistRecord.save (db : Db) (h : HistRecord) : Db :=
  db.set (histSetHistKey h.cid h.histSeq) (.str h.getTextData)

/-- `tDateTime` is the date as `time.RFC3339` writes it. -/
structure TrnLog where
  guid : MStr
  tseq : Int
  comment : MStr
  tDateTime : MStr
  cid : Int
  amt : Int
  endbal : Int
  user : MStr

def TrnLog.getTextData (t : TrnLog) : MStr :=
  t.comment ++ bar :: (t.tDateTime ++ bar :: (sprintfD t.cid ++ bar ::
    (sprintfD t.amt ++ bar :: (sprintfD t.endbal ++ bar :: t.user))))

def setTrnLogKey (guid : MStr) (tseq : Int) : Node Glob := ⟨.ztrnlog, [.str guid, .str (sprintfD tseq)]⟩

def TrnLog.save (db : Db) (t : TrnLog) : Db := db.set (setTrnLogKey t.guid t.tseq) (.str t.getTextData)

/-- What the transaction saves once it has the two accounts after the transfer, and `-amt`. -/
def saveTransfer (db : Db) (guid : MStr) (source target amt : Int) (accountFrom accountTo : Account)
    (debit : Int) (user dt : MStr) : Db :=
  let db := accountSave db accountFrom
  let db := accountSave db accountTo
  let db := HistRecord.save db ⟨source, accountFrom.histSeq, lit "Transfer to " ++ sprintfD target,
    debit, accountFrom.bal, guid⟩
  let db := HistRecord.save db ⟨target, accountTo.histSeq, lit "Transfer from " ++ sprintfD source,
    amt, accountTo.bal, guid⟩
  let db := TrnLog.save db ⟨guid, 1, lit "Transfer to " ++ sprintfD target, dt, source, debit,
    accountFrom.bal, user⟩
  TrnLog.save db ⟨guid, 2, lit "Transfer from " ++ sprintfD source, dt, target, amt, accountTo.bal,
    user⟩

/-- The transaction. -/
def postTranfer (db : Db) (guid : MStr) (source target amt : Int) (user dt : MStr) : Option Db := do
  let accountFrom ← accountLoad db source
  let accountTo ← accountLoad db target
  return saveTransfer db guid source target amt
    { accountFrom with histSeq := int64 (accountFrom.histSeq + 1), bal := int64 (accountFrom.bal - amt) }
    { accountTo with histSeq := int64 (accountTo.histSeq + 1), bal := int64 (accountTo.bal + amt) }
    (int64 (-amt)) user dt

/-- What fits a C `int` fits a Go `int`. -/
theorem int64_eq {n : Int} (h : -4294967296 ≤ n) (h' : n ≤ 4294967296) : int64 n = n :=
  Int.bmod_eq_of_le (by omega) (by omega)

theorem isDigits_natStr (n : Nat) : isDigits (natStr n) = true := by
  obtain ⟨d, rest, -, hn⟩ := natStr_cons n
  refine decide_eq_true ⟨by simp [hn], List.all_eq_true.2 fun c hc => ?_⟩
  obtain ⟨d, hd, rfl⟩ := natStr_digit n c hc
  refine decide_eq_true ⟨?_, ?_⟩ <;> omega

theorem Atoi_sprintfD {n : Int} (h : -4294967296 ≤ n) (h' : n ≤ 4294967296) :
    Atoi (sprintfD n) = n := by
  obtain ⟨d, rest, hd, hn⟩ := natStr_cons n.natAbs
  have hdigits := isDigits_natStr n.natAbs
  unfold sprintfD Atoi
  by_cases hneg : n < 0
  · rw [if_pos hneg]
    simp only [hdigits, if_true, toNat_natStr, inRange]
    omega
  · rw [if_neg hneg]
    split
    · rename_i r he
      rw [hn] at he
      simp only [List.cons.injEq, MChar.chr.injEq] at he
      omega
    · rename_i r he
      rw [hn] at he
      simp only [List.cons.injEq, MChar.chr.injEq] at he
      omega
    · simp only [hdigits, if_true, toNat_natStr, inRange]
      omega

/-- An account is loaded as C saved it. -/
theorem accountLoad_of_text {db : Db} {a : Account}
    (h : db.get (accountSetAccountKey a.cid) = some (.str a.text))
    (hbal : -4294967296 ≤ a.bal ∧ a.bal ≤ 4294967296)
    (hseq : -4294967296 ≤ a.histSeq ∧ a.histSeq ≤ 4294967296) : accountLoad db a.cid = some a := by
  have hsplit : splitStr [bar] a.text = [sprintfD a.histSeq, sprintfD a.bal] :=
    splitStr_once (bar_notMem_sprintfD _) (bar_notMem_sprintfD _)
  unfold accountLoad
  rw [h, Option.bind_some]
  dsimp only [Val.toStr]
  rw [hsplit]
  simp only [List.getElem?_cons_zero, List.getElem?_cons_succ, Option.bind_some, Option.map_some,
    Atoi_sprintfD hbal.1 hbal.2, Atoi_sprintfD hseq.1 hseq.2]

theorem TrnLog.piece_text (t : TrnLog) (hcomment : bar ∉ t.comment) (hdt : bar ∉ t.tDateTime) :
    piece bar t.getTextData 3 = sprintfD t.cid ∧ piece bar t.getTextData 4 = sprintfD t.amt ∧
      piece bar t.getTextData 5 = sprintfD t.endbal := by
  unfold TrnLog.getTextData
  refine ⟨?_, ?_, ?_⟩
  · rw [piece_append hcomment, piece_append hdt]
    exact beforeFirst_append (bar_notMem_sprintfD _) _
  · rw [piece_append hcomment, piece_append hdt, piece_append (bar_notMem_sprintfD _)]
    exact beforeFirst_append (bar_notMem_sprintfD _) _
  · rw [piece_append hcomment, piece_append hdt, piece_append (bar_notMem_sprintfD _),
      piece_append (bar_notMem_sprintfD _)]
    exact beforeFirst_append (bar_notMem_sprintfD _) _

theorem logPosting_save (db : Db) {t : TrnLog} (hcomment : bar ∉ t.comment) (hdt : bar ∉ t.tDateTime)
    {guid : Int} (hguid : t.guid = sprintfD guid) (ref tSeq : Int) :
    logPosting (t.save db) ref tSeq =
      if ref = guid ∧ tSeq = t.tseq then some ⟨t.cid, t.amt, t.endbal⟩ else logPosting db ref tSeq := by
  obtain ⟨hcid, hamt, hbal⟩ := t.piece_text hcomment hdt
  have hkey : setTrnLogKey t.guid t.tseq = trnSetTrnLogKey guid t.tseq := by rw [hguid]; rfl
  unfold logPosting TrnLog.save
  rw [hkey, Table.get_set]
  simp only [trnSetTrnLogKey_inj]
  split
  · simp only [Option.map_some, Val.toStr, hcid, hamt, hbal, atoi_sprintfD]
  · rfl

/-- The histories after a transfer are those of C. -/
theorem get_saveTransfer (db : Db) (p : TpArgs) (a b : Account) (debit : Int) (user dt : MStr)
    (cid k : Int) :
    (saveTransfer db (sprintfD p.ref) p.fromCid p.toCid p.amt a b debit user dt).get
        (histSetHistKey cid k) = (saveBooks db p a b debit).get (histSetHistKey cid k) := by
  unfold saveTransfer TrnLog.save
  rw [Table.get_set_of_ne _ _ (by simp [setTrnLogKey, histSetHistKey]),
    Table.get_set_of_ne _ _ (by simp [setTrnLogKey, histSetHistKey])]
  rfl

section Saved

variable (db : Db) (p : TpArgs) (a b : Account) (debit : Int) (user : MStr) {dt : MStr}

theorem logPosting_one (hdt : bar ∉ dt) :
    logPosting (saveTransfer db (sprintfD p.ref) p.fromCid p.toCid p.amt a b debit user dt) p.ref 1 =
      some ⟨p.fromCid, debit, a.bal⟩ := by
  unfold saveTransfer
  rw [logPosting_save _ (bar_notMem_transferFrom _) hdt rfl, if_neg (by simp),
    logPosting_save _ (bar_notMem_transferTo _) hdt rfl, if_pos ⟨rfl, rfl⟩]

theorem logPosting_two (hdt : bar ∉ dt) :
    logPosting (saveTransfer db (sprintfD p.ref) p.fromCid p.toCid p.amt a b debit user dt) p.ref 2 =
      some ⟨p.toCid, p.amt, b.bal⟩ := by
  unfold saveTransfer
  rw [logPosting_save _ (bar_notMem_transferFrom _) hdt rfl, if_pos ⟨rfl, rfl⟩]

/-- **Both records agree with the history.** -/
theorem agrees_saveTransfer (hne : p.fromCid ≠ p.toCid) (hdt : bar ∉ dt) :
    LogAgrees (saveTransfer db (sprintfD p.ref) p.fromCid p.toCid p.amt a b debit user dt)
        p.ref 1 p.fromCid ∧
      LogAgrees (saveTransfer db (sprintfD p.ref) p.fromCid p.toCid p.amt a b debit user dt)
        p.ref 2 p.toCid := by
  obtain ⟨⟨hrefFrom, hfrom⟩, hrefTo, hto⟩ := hist_saveBooks db hne a b debit
  refine ⟨⟨a.histSeq, _, ?_, ?_, logPosting_one db p a b debit user hdt⟩,
    ⟨b.histSeq, _, ?_, ?_, logPosting_two db p a b debit user hdt⟩⟩
  · unfold histRef histPiece at hrefFrom ⊢
    rwa [get_saveTransfer]
  · unfold histPosting at hfrom ⊢
    rwa [get_saveTransfer]
  · unfold histRef histPiece at hrefTo ⊢
    rwa [get_saveTransfer]
  · unfold histPosting at hto ⊢
    rwa [get_saveTransfer]

end Saved

/-- **The transaction**, from the accounts as C has them and with numbers that C can hold. -/
theorem postTranfer_eq {db : Db} {p : TpArgs} {a b : Account} (user dt : MStr)
    (ha : accountLoad db p.fromCid = some a) (hb : accountLoad db p.toCid = some b)
    (h : ∀ n ∈ [a.histSeq + 1, a.bal - p.amt, b.histSeq + 1, b.bal + p.amt, -p.amt],
      -2147483648 ≤ n ∧ n ≤ 2147483647) :
    postTranfer db (sprintfD p.ref) p.fromCid p.toCid p.amt user dt =
      some (saveTransfer db (sprintfD p.ref) p.fromCid p.toCid p.amt
        { a with bal := a.bal - p.amt, histSeq := a.histSeq + 1 }
        { b with bal := b.bal + p.amt, histSeq := b.histSeq + 1 } (-p.amt) user dt) := by
  have hint : ∀ n ∈ [a.histSeq + 1, a.bal - p.amt, b.histSeq + 1, b.bal + p.amt, -p.amt], int64 n = n :=
    fun n hn => int64_eq (by have := h n hn; omega) (by have := h n hn; omega)
  simp only [List.forall_mem_cons, List.not_mem_nil, false_implies, implies_true, and_true] at hint
  obtain ⟨h1, h2, h3, h4, h5⟩ := hint
  simp only [postTranfer, ha, hb, Option.bind_eq_bind, Option.bind_some, h1, h2, h3, h4, h5,
    Option.pure_def]

end DataObject

/-! ## 5. The result -/

/-- The numbers of a transfer that C posts. -/
theorem postTransfer_ints {db db' : Db} {args : TpArgs} {time₁ time₂ : Int} {a b : Account}
    (ha : accountLoad db args.fromCid = some a) (hb : accountLoad db args.toCid = some b)
    (h : postTransfer db args time₁ time₂ = some db') :
    ∀ n ∈ [a.histSeq + 1, a.bal - args.amt, b.histSeq + 1, b.bal + args.amt, -args.amt],
      -2147483648 ≤ n ∧ n ≤ 2147483647 := by
  have hint : ∀ {n m : Int}, int n = some m → -2147483648 ≤ n ∧ n ≤ 2147483647 := by
    intro n m hn
    unfold int at hn
    split at hn
    · assumption
    · cases hn
  simp only [postTransfer, ha, hb, Option.bind_eq_bind, Option.bind_some,
    Option.bind_eq_some_iff, Option.pure_def, Option.some.injEq] at h
  obtain ⟨fromSeq, h1, fromBal, h2, toSeq, h3, toBal, h4, debit, h5, -⟩ := h
  simp only [List.forall_mem_cons, List.not_mem_nil, false_implies, implies_true, and_true]
  exact ⟨hint h1, hint h2, hint h3, hint h4, hint h5⟩

/-- **The two versions**, on the same transfer from the same state: the first records are the same and
    the second ones are not; those of Go agree with the history. -/
theorem postTranfer_logs {numThreads : Nat} {s : Sys} (h : Inv numThreads s) {p : TpArgs}
    (hp : p.Between) {time₁ time₂ : Int} {dbC : Db} (hC : postTransfer s.db p time₁ time₂ = some dbC)
    (user : MStr) {dt : MStr} (hdt : bar ∉ dt) :
    ∃ dbGo, DataObject.postTranfer s.db (sprintfD p.ref) p.fromCid p.toCid p.amt user dt = some dbGo ∧
      LogAgrees dbGo p.ref 1 p.fromCid ∧ LogAgrees dbGo p.ref 2 p.toCid ∧
      logPosting dbGo p.ref 1 = logPosting dbC p.ref 1 ∧
      logPosting dbGo p.ref 2 ≠ logPosting dbC p.ref 2 := by
  obtain ⟨hfrom, hto, hne⟩ := hp
  have hrepFrom := h.represents _ hfrom
  have hrepTo := h.represents _ hto
  have hints := postTransfer_ints hrepFrom.accountLoad hrepTo.accountLoad hC
  have heq := postTransfer_eq hrepFrom.accountLoad hrepTo.accountLoad hC
  generalize hts : s.committed.map TpArgs.transfer = ts at hrepFrom hrepTo hints heq
  obtain ⟨h1, h2, h3, h4, h5⟩ : _ ∧ _ ∧ _ ∧ _ ∧ _ := by
    simpa only [List.forall_mem_cons, List.not_mem_nil, false_implies, implies_true, and_true] using hints
  have hloadFrom := DataObject.accountLoad_of_text (a := accountOf p.fromCid ts) hrepFrom.account
    (by omega) (by omega)
  have hloadTo := DataObject.accountLoad_of_text (a := accountOf p.toCid ts) hrepTo.account
    (by omega) (by omega)
  have hgo := DataObject.postTranfer_eq user dt hloadFrom hloadTo hints
  have hC₁ : logPosting dbC p.ref 1 =
      some ⟨p.fromCid, -p.amt, (accountOf p.fromCid ts).bal - p.amt⟩ := by
    rw [heq, saveTransfer_eq, logPosting_trnSave, if_neg (by simp), logPosting_trnSave, if_pos ⟨rfl, rfl⟩]
  have hC₂ : logPosting dbC p.ref 2 =
      some ⟨p.fromCid, p.amt, (accountOf p.fromCid ts).bal - p.amt⟩ := by
    rw [heq, saveTransfer_eq, logPosting_trnSave, if_pos ⟨rfl, rfl⟩]
  obtain ⟨hagrees₁, hagrees₂⟩ := DataObject.agrees_saveTransfer s.db p
    ⟨p.fromCid, (accountOf p.fromCid ts).bal - p.amt, (accountOf p.fromCid ts).histSeq + 1⟩
    ⟨p.toCid, (accountOf p.toCid ts).bal + p.amt, (accountOf p.toCid ts).histSeq + 1⟩ (-p.amt) user hne hdt
  refine ⟨_, hgo, hagrees₁, hagrees₂, ?_, ?_⟩
  · exact (DataObject.logPosting_one _ _ _ _ _ _ hdt).trans hC₁.symm
  · intro hsame
    rw [hC₂] at hsame
    have htwo := (DataObject.logPosting_two _ _ _ _ _ _ hdt).symm.trans hsame
    exact hne (congrArg Posting.cid (Option.some.inj htwo)).symm

/-- **The log of pseudoBank.c never agrees with its history**: in every interleaving, for every
    transfer committed, the first record does and the second does not; and a transfer of the Go version
    from any state that is reached writes a second record that does. -/
theorem pseudoBank_log {numThreads : Nat} {user : Int} {s : Sys} (h : Reach numThreads user s) :
    (∀ p ∈ s.committed,
      LogAgrees s.db p.ref 1 p.fromCid ∧ ¬ LogAgrees s.db p.ref 2 p.toCid) ∧
    ∀ (p : TpArgs) (time₁ time₂ : Int) (dbC : Db) (user dt : MStr), p.Between → bar ∉ dt →
      postTransfer s.db p time₁ time₂ = some dbC →
      ∃ dbGo, DataObject.postTranfer s.db (sprintfD p.ref) p.fromCid p.toCid p.amt user dt = some dbGo ∧
        LogAgrees dbGo p.ref 1 p.fromCid ∧ LogAgrees dbGo p.ref 2 p.toCid ∧
        logPosting dbGo p.ref 1 = logPosting dbC p.ref 1 ∧
        logPosting dbGo p.ref 2 ≠ logPosting dbC p.ref 2 := by
  refine ⟨fun p hp => ?_, fun p time₁ time₂ dbC user dt hp hdt hC => ?_⟩
  · have hlogged := logged_of_reach h p hp
    exact ⟨hlogged.agrees, hlogged.disagrees ((inv_of_reach h).past p hp).2.2⟩
  · exact postTranfer_logs (inv_of_reach h) hp hC user hdt

/-- One transfer of 1 from account 100001 to account 100002, by the fourth of ten processes. -/
theorem pseudoBank_log_once : ∃ s, Reach 10 7 s ∧ s.committed = [⟨3, 100001, 100002, 1, 7⟩] ∧
    LogAgrees s.db 3 1 100001 ∧ ¬ LogAgrees s.db 3 2 100002 := by
  obtain ⟨s, hs, hcommitted⟩ := exists_once
  obtain ⟨h1, h2⟩ := (pseudoBank_log hs).1 ⟨3, 100001, 100002, 1, 7⟩ (by rw [hcommitted]; exact List.mem_cons_self)
  exact ⟨s, hs, hcommitted, h1, h2⟩

/-- The record of the receiver is not there. -/
theorem receiver_not_logged : ∃ s, Reach 10 7 s ∧ s.committed = [⟨3, 100001, 100002, 1, 7⟩] ∧
    ¬ ∀ p ∈ s.committed, LogAgrees s.db p.ref 1 p.fromCid ∧ LogAgrees s.db p.ref 2 p.toCid := by
  obtain ⟨s, hs, hcommitted⟩ := exists_once
  refine ⟨s, hs, hcommitted, fun h => ?_⟩
  have hmem : ⟨3, 100001, 100002, 1, 7⟩ ∈ s.committed := by
    rw [hcommitted]
    exact List.mem_cons_self
  exact (logged_of_reach hs _ hmem).disagrees (by decide) (h _ hmem).2

end YottaTest.SimpleApi
