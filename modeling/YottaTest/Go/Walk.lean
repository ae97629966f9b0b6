/-
  File:      YottaTest/Go/Walk.lean
  Subject:   The numbers of threeenp1B1.go: what a goroutine knows on its walk, and what holds of
             `^step`, `^result` and `^highest` whoever has done what.

  * `Pc.Inv`, `act_inv` -- the part of a way that a goroutine has in `currpath`;
  * `Numbers`, `numbers_act` -- `^step` holds right numbers only, its keys are closed under the next
    number, and no value behind a key is higher than what some goroutine has seen.
-/
import YottaTest.Go.Blocks

namespace YottaTest.Go

open Function YottaTest.Lib

/-! ## 1. What a goroutine knows -/

/-- `^step(n)` is there. -/
def Db.Known (db : Db) (n : Nat) : Prop := (db.step n).isSome

/-- The database goes on. -/
structure Db.Grows (db db' : Db) : Prop where
  limits : db'.limits = db.limits
  known : ∀ {n : Nat}, db.Known n → db'.Known n
  result : db.result.getD 0 ≤ db'.result.getD 0
  highest : db.highest.getD 0 ≤ db'.highest.getD 0

/-- The numbers of a block before the current one are done. -/
structure Work.Inv (db : Db) (w : Work) : Prop where
  blkend : db.limits w.index = some w.blkend
  start : blkstart db.limits w.index ≤ w.current
  done : ∀ {s : Nat}, blkstart db.limits w.index ≤ s → s < w.current → s = 1 ∨ db.Known s

/-- The first `n` numbers on the way of the current one have been passed. -/
structure Walked (highest : Nat) (w : Work) (n : Nat) : Prop where
  le : w.current ≤ w.blkend
  ne : ∀ j < n, collatz^[j] w.current ≠ 1
  high : ∀ j < n, collatz^[j + 1] w.current ≤ highest

/-- The numbers `k` to `k + n - 1` on the way of a number. -/
def pathFrom (u k n : Nat) : List Nat := (List.range' k n).map fun j => collatz^[j] u

/-- The walk is over: with the goal, or with a number that is known. -/
structure Ended (db : Db) (highest : Nat) (w : Work) (i n : Nat) : Prop extends
    Walked highest w n where
  pos : 0 < n
  stop : collatz^[n] w.current = 1 ∨ db.Known (collatz^[n] w.current)
  takes : Takes collatz 1 i w.current

/-- What a goroutine relies on at its next operation. -/
def Pc.Inv (db : Db) (highest : Nat) : Pc → Prop
  | .fetchStart index blkend => db.limits index = some blkend ∧ index ≠ 1
  | .probe w i n path =>
      w.Inv db ∧ Walked highest w i ∧ n = collatz^[i] w.current ∧ path = pathFrom w.current 0 i
  | .fetchStep w i n path =>
      w.Inv db ∧ Walked highest w i ∧ n = collatz^[i] w.current ∧ path = pathFrom w.current 0 i ∧
        0 < i ∧ n ≠ 1 ∧ db.Known n
  | .tally w i path =>
      w.Inv db ∧ ∃ n, Ended db highest w i n ∧ path = pathFrom w.current 0 n
  | .write w i k rest =>
      w.Inv db ∧ i ≤ db.result.getD 0 ∧ (∀ j < k, db.Known (collatz^[j] w.current)) ∧
        ∃ n, Ended db highest w i (k + n) ∧ rest = pathFrom w.current k n
  | .finished => highest ≤ db.highest.getD 0
  | _ => True

/-! ## 2. What an operation changes -/

section Act

variable (db : Db) (l : Local) (pc : Pc)

theorem act_step_of_ne {pc : Pc} (h : ∀ w i k n rest, pc ≠ .write w i k (n :: rest)) :
    (act db l pc).1.step = db.step := by
  unfold act
  repeat' split
  all_goals first | rfl | exact (h _ _ _ _ _ rfl).elim

theorem act_result_of_ne {pc : Pc} (h : ∀ w i path, pc ≠ .tally w i path) :
    (act db l pc).1.result = db.result := by
  unfold act
  repeat' split
  all_goals first | rfl | exact (h _ _ _ rfl).elim

theorem act_highest_of_ne {pc : Pc} (h : pc ≠ .final) :
    (act db l pc).1.highest = db.highest := by
  unfold act
  repeat' split
  all_goals first | rfl | exact absurd rfl h

theorem act_local_of_ne {pc : Pc} (h : ∀ w i n path, pc ≠ .probe w i n path) :
    (act db l pc).2.1.highest = l.highest := by
  unfold act
  repeat' split
  all_goals first | rfl | exact (h _ _ _ _ rfl).elim

/-- `^step` changes at the head of a `currpath` only. -/
theorem act_step {u k : Nat} (h : (act db l pc).1.step u = some k) :
    db.step u = some k ∨ ∃ w i j rest, pc = .write w i j (u :: rest) ∧ k = i - j := by
  by_cases hpc : ∃ w i j n rest, pc = .write w i j (n :: rest)
  · obtain ⟨w, i, j, n, rest, rfl⟩ := hpc
    by_cases hu : u = n
    · subst hu
      have : some (i - j) = some k := by simpa [act] using h
      exact Or.inr ⟨w, i, j, rest, rfl, (Option.some.inj this).symm⟩
    · exact Or.inl (by simpa [act, hu] using h)
  · rw [act_step_of_ne db l fun w i j n rest hw => hpc ⟨w, i, j, n, rest, hw⟩] at h
    exact Or.inl h

theorem act_known {n : Nat} (h : db.Known n) : (act db l pc).1.Known n := by
  by_cases hpc : ∃ w i j m rest, pc = .write w i j (m :: rest)
  · obtain ⟨w, i, j, m, rest, rfl⟩ := hpc
    unfold Db.Known at *
    by_cases hn : n = m
    · simp [act, hn]
    · simpa [act, hn] using h
  · unfold Db.Known
    rwa [act_step_of_ne db l fun w i j n rest hw => hpc ⟨w, i, j, n, rest, hw⟩]

theorem act_result : (act db l pc).1.result = db.result ∨
    ∃ w i path, pc = .tally w i path ∧ db.result.getD 0 < i ∧
      (act db l pc).1.result = some i := by
  by_cases hpc : ∃ w i path, pc = .tally w i path
  · obtain ⟨w, i, path, rfl⟩ := hpc
    by_cases hlt : db.result.getD 0 < i
    · exact Or.inr ⟨w, i, path, rfl, hlt, by simp [act, hlt]⟩
    · exact Or.inl (by simp [act, hlt])
  · exact Or.inl (act_result_of_ne db l fun w i path hw => hpc ⟨w, i, path, hw⟩)

theorem act_highest : (act db l pc).1.highest = db.highest ∨
    db.highest.getD 0 < l.highest ∧ (act db l pc).1.highest = some l.highest := by
  by_cases hpc : pc = .final
  · subst hpc
    by_cases hlt : db.highest.getD 0 < l.highest
    · exact Or.inr ⟨hlt, by simp [act, hlt]⟩
    · exact Or.inl (by simp [act, hlt])
  · exact Or.inl (act_highest_of_ne db l hpc)

theorem act_local : (act db l pc).2.1.highest = l.highest ∨
    ∃ w i n path, pc = .probe w i n path ∧ n ≠ 1 ∧ l.highest < collatz n ∧
      (act db l pc).2.1.highest = collatz n := by
  by_cases hpc : ∃ w i n path, pc = .probe w i n path
  · obtain ⟨w, i, n, path, rfl⟩ := hpc
    simp only [act]
    split
    · exact Or.inl rfl
    · split
      · exact Or.inl rfl
      · next hknown =>
          by_cases hlt : l.highest < collatz n
          · exact Or.inr ⟨w, i, n, path, rfl, fun h => hknown (Or.inr h), hlt, if_pos hlt⟩
          · exact Or.inl (if_neg hlt)
  · exact Or.inl (act_local_of_ne db l fun w i n path hw => hpc ⟨w, i, n, path, hw⟩)

theorem act_grows : db.Grows (act db l pc).1 where
  limits := act_limits db l pc
  known := act_known db l pc
  result := by
    rcases act_result db l pc with h | ⟨_, i, _, _, hlt, h⟩
    · exact Nat.le_of_eq (by rw [h])
    · rw [h]
      exact Nat.le_of_lt hlt
  highest := by
    rcases act_highest db l pc with h | ⟨hlt, h⟩
    · exact Nat.le_of_eq (by rw [h])
    · rw [h]
      exact Nat.le_of_lt hlt

theorem act_local_le : l.highest ≤ (act db l pc).2.1.highest := by
  rcases act_local db l pc with h | ⟨_, _, _, _, _, _, hlt, h⟩
  · exact Nat.le_of_eq h.symm
  · rw [h]
    exact Nat.le_of_lt hlt

end Act

/-! ## 3. What a goroutine knows stays true -/

section Grows

variable {db db' : Db} {highest highest' : Nat} {w : Work}

theorem Work.Inv.mono (h : w.Inv db) (hd : db.Grows db') : w.Inv db' where
  blkend := by
    rw [hd.limits]
    exact h.blkend
  start := by
    rw [hd.limits]
    exact h.start
  done {s} hs hlt := by
    rw [hd.limits] at hs
    exact (h.done hs hlt).imp_right hd.known

theorem Walked.mono {n : Nat} (h : Walked highest w n) (hh : highest ≤ highest') :
    Walked highest' w n where
  le := h.le
  ne := h.ne
  high j hj := Nat.le_trans (h.high j hj) hh

theorem Ended.mono {i n : Nat} (h : Ended db highest w i n) (hd : db.Grows db') :
    Ended db' highest w i n where
  toWalked := h.toWalked
  pos := h.pos
  stop := h.stop.imp_right hd.known
  takes := h.takes

/-- The others' operations do not disturb a goroutine. -/
theorem Pc.Inv.mono {pc : Pc} (h : pc.Inv db highest) (hd : db.Grows db') : pc.Inv db' highest := by
  cases pc with
  | fetchStart index blkend => exact ⟨by rw [hd.limits]; exact h.1, h.2⟩
  | probe w i n path => exact ⟨h.1.mono hd, h.2⟩
  | fetchStep w i n path =>
      obtain ⟨hw, hwalk, hn, hpath, hi, hne, hknown⟩ := h
      exact ⟨hw.mono hd, hwalk, hn, hpath, hi, hne, hd.known hknown⟩
  | tally w i path =>
      obtain ⟨hw, n, hend, hpath⟩ := h
      exact ⟨hw.mono hd, n, hend.mono hd, hpath⟩
  | write w i k rest =>
      obtain ⟨hw, hi, hknown, n, hend, hrest⟩ := h
      exact ⟨hw.mono hd, Nat.le_trans hi hd.result, fun j hj => hd.known (hknown j hj), n,
        hend.mono hd, hrest⟩
  | finished => exact Nat.le_trans h hd.highest
  | _ => trivial

end Grows

/-! ## 4. A goroutine's own operation -/

theorem blkstart_pos (limits : Nat → Option Nat) (index : Nat) : 0 < blkstart limits index := by
  unfold blkstart
  split
  · exact Nat.one_pos
  · exact Nat.succ_pos _

theorem Work.Inv.current_pos {db : Db} {w : Work} (h : w.Inv db) : 0 < w.current :=
  Nat.lt_of_lt_of_le (blkstart_pos _ _) h.start

theorem collatz_pos {n : Nat} (h : 0 < n) : 0 < collatz n := by
  unfold collatz
  split
  · omega
  · omega

theorem iterate_collatz_pos {u : Nat} (i : Nat) (h : 0 < u) : 0 < collatz^[i] u := by
  induction i generalizing u with
  | zero => exact h
  | succ i ih => exact ih (collatz_pos h)

theorem nextCurrent_inv {db : Db} {highest : Nat} {w : Work} (h : w.Inv db) :
    (nextCurrent w).Inv db highest := by
  unfold nextCurrent
  split
  · next hle => exact ⟨h, ⟨hle, fun j hj => absurd hj (Nat.not_lt_zero j),
      fun j hj => absurd hj (Nat.not_lt_zero j)⟩, rfl, rfl⟩
  · trivial

/-- The current number is done as well. -/
theorem Work.Inv.succ {db : Db} {w : Work} (h : w.Inv db)
    (hdone : w.current = 1 ∨ db.Known w.current) : w.succ.Inv db where
  blkend := h.blkend
  start := Nat.le_succ_of_le h.start
  done {s} hs hlt := by
    rcases Nat.lt_succ_iff_lt_or_eq.mp hlt with hlt | rfl
    · exact h.done hs hlt
    · exact hdone

theorem firstBlock_inv {db : Db} {blkend : Nat} (h : db.limits 1 = some blkend) :
    Work.Inv db ⟨1, blkend, 1⟩ where
  blkend := h
  start := Nat.le_refl 1
  done {s} hs hlt := by
    have := blkstart_pos db.limits 1
    dsimp only at hs hlt
    omega

theorem laterBlock_inv {db : Db} {index blkend e : Nat} (h : db.limits index = some blkend)
    (hne : index ≠ 1) (he : db.limits (index - 1) = some e) :
    Work.Inv db ⟨index, blkend, e + 1⟩ := by
  have hstart : blkstart db.limits index = e + 1 := by
    rw [blkstart, if_neg hne, he]
    rfl
  exact
    { blkend := h
      start := Nat.le_of_eq hstart
      done := fun {s} hs hlt => by
        dsimp only at hs hlt
        omega }

theorem pathFrom_succ (u k n : Nat) :
    pathFrom u k (n + 1) = collatz^[k] u :: pathFrom u (k + 1) n := rfl

theorem pathFrom_snoc (u n : Nat) :
    pathFrom u 0 n ++ [collatz^[n] u] = pathFrom u 0 (n + 1) := by
  unfold pathFrom
  rw [← List.range_eq_range', ← List.range_eq_range', List.range_succ, List.map_append]
  rfl

theorem Walked.snoc {highest : Nat} {w : Work} {i : Nat} (h : Walked highest w i)
    (hne : collatz^[i] w.current ≠ 1) (hhigh : collatz^[i + 1] w.current ≤ highest) :
    Walked highest w (i + 1) where
  le := h.le
  ne j hj := by
    rcases Nat.lt_succ_iff_lt_or_eq.mp hj with hj | rfl
    · exact h.ne j hj
    · exact hne
  high j hj := by
    rcases Nat.lt_succ_iff_lt_or_eq.mp hj with hj | rfl
    · exact h.high j hj
    · exact hhigh

theorem act_inv {db : Db} {l : Local} {pc : Pc} (h : pc.Inv db l.highest)
    (hsound : ∀ {u k : Nat}, db.step u = some k → Takes collatz 1 k u) :
    (act db l pc).2.2.Inv (act db l pc).1 (act db l pc).2.1.highest := by
  cases pc with
  | scan index =>
      simp only [act]
      split
      · trivial
      · trivial
  | claim index =>
      simp only [act]
      split
      · trivial
      · trivial
  | fetchEnd index =>
      cases hlim : db.limits index with
      | none =>
          simp only [act, hlim]
          trivial
      | some blkend =>
          simp only [act, hlim]
          split
          · next hone =>
              subst hone
              exact nextCurrent_inv (firstBlock_inv hlim)
          · next hne => exact ⟨hlim, hne⟩
  | fetchStart index blkend =>
      cases hlim : db.limits (index - 1) with
      | none =>
          simp only [act, hlim]
          trivial
      | some e =>
          simp only [act, hlim]
          exact nextCurrent_inv (laterBlock_inv h.1 h.2 hlim)
  | probe w i n path =>
      obtain ⟨hw, hwalk, rfl, rfl⟩ := h
      simp only [act]
      split
      · trivial
      · split
        · next hstop =>
            split
            · next hi =>
                subst hi
                exact nextCurrent_inv (hw.succ hstop.symm)
            · next hi =>
                split
                · next hgt =>
                    exact ⟨hw, hwalk, rfl, rfl, Nat.pos_of_ne_zero hi, by omega,
                      hstop.resolve_right (by omega)⟩
                · next hle =>
                    have hone : collatz^[i] w.current = 1 := by
                      have := iterate_collatz_pos i hw.current_pos
                      omega
                    refine ⟨hw, i, ⟨hwalk, Nat.pos_of_ne_zero hi, Or.inl hone, ?_⟩, rfl⟩
                    have := takes_iterate hwalk.ne (by rw [hone]; exact .zero)
                    rwa [Nat.zero_add] at this
        · next hgo =>
            rw [not_or] at hgo
            have hnext : collatz (collatz^[i] w.current) = collatz^[i + 1] w.current :=
              (iterate_succ_apply' collatz i w.current).symm
            rw [hnext]
            refine ⟨hw, (hwalk.mono ?_).snoc hgo.2 ?_, rfl, pathFrom_snoc w.current i⟩
            · dsimp only
              split
              · omega
              · exact Nat.le_refl _
            · dsimp only
              split
              · exact Nat.le_refl _
              · omega
  | fetchStep w i n path =>
      obtain ⟨hw, hwalk, rfl, rfl, hi, hne, hknown⟩ := h
      obtain ⟨stepval, hstep⟩ := Option.isSome_iff_exists.mp hknown
      simp only [act, hstep]
      refine ⟨hw, i, ⟨hwalk, hi, Or.inr hknown, ?_⟩, rfl⟩
      rw [Nat.add_comm]
      exact takes_iterate hwalk.ne (hsound hstep)
  | tally w i path =>
      obtain ⟨hw, n, hend, rfl⟩ := h
      have hgrows := act_grows db l (.tally w i (pathFrom w.current 0 n))
      refine ⟨hw.mono hgrows, ?_, fun j hj => absurd hj (Nat.not_lt_zero j), n, ?_, rfl⟩
      · simp only [act]
        split
        · exact Nat.le_refl i
        · next hge => exact Nat.le_of_not_lt hge
      · rw [Nat.zero_add]
        exact hend.mono hgrows
  | write w i k rest =>
      obtain ⟨hw, hi, hknown, n, hend, rfl⟩ := h
      cases n with
      | zero =>
          refine nextCurrent_inv (hw.succ (Or.inr (hknown 0 ?_)))
          exact hend.pos
      | succ n =>
          rw [pathFrom_succ]
          have hgrows := act_grows db l
            (.write w i k (collatz^[k] w.current :: pathFrom w.current (k + 1) n))
          refine ⟨hw.mono hgrows, hi, fun j hj => ?_, n, ?_, rfl⟩
          · rcases Nat.lt_succ_iff_lt_or_eq.mp hj with hj | rfl
            · exact hgrows.known (hknown j hj)
            · simp [act, Db.Known]
          · rw [show k + 1 + n = k + (n + 1) by omega]
            exact hend.mono hgrows
  | final =>
      simp only [act]
      split
      · exact Nat.le_refl l.highest
      · next hge => exact Nat.le_of_not_lt hge
  | finished => exact h
  | panicked => trivial

/-- All numbers of the block are done. -/
def BlockDone (db : Db) (b : Nat) : Prop :=
  ∀ e, db.limits b = some e → ∀ s, blkstart db.limits b ≤ s → s ≤ e → s = 1 ∨ db.Known s

theorem Db.Grows.blockDone {db db' : Db} (hd : db.Grows db') {b : Nat} (h : BlockDone db b) :
    BlockDone db' b := by
  intro e he s hs hle
  rw [hd.limits] at he hs
  exact (h e he s hs hle).imp_right hd.known

theorem nextCurrent_done {db : Db} {w : Work} {pc : Pc} {b : Nat} (h : w.Inv db)
    (hpc : pc.block = some w.index) (hb : completed pc (nextCurrent w) = some b) :
    BlockDone db b := by
  unfold nextCurrent at hb
  split at hb
  · cases hb
  · next hgt =>
      obtain rfl : w.index = b := Option.some.inj (hpc.symm.trans hb)
      intro e he s hs hle
      obtain rfl : w.blkend = e := Option.some.inj (h.blkend.symm.trans he)
      exact h.done hs (by omega)

theorem block_of_completed {pc pc' : Pc} {b : Nat} (h : completed pc pc' = some b) :
    pc.block = some b := by
  cases pc' with
  | scan => exact h
  | _ => cases h

/-- A goroutine that leaves a block leaves it done. -/
theorem act_done {db : Db} {l : Local} {pc : Pc} {b : Nat} (h : pc.Inv db l.highest)
    (hb : completed pc (act db l pc).2.2 = some b) : BlockDone (act db l pc).1 b := by
  cases pc with
  | fetchEnd index =>
      cases hlim : db.limits index with
      | none =>
          simp only [act, hlim] at hb
          cases hb
      | some blkend =>
          simp only [act, hlim] at hb ⊢
          split at hb
          · next hone =>
              subst hone
              exact nextCurrent_done (firstBlock_inv hlim) rfl hb
          · cases hb
  | fetchStart index blkend =>
      cases hlim : db.limits (index - 1) with
      | none =>
          simp only [act, hlim] at hb
          cases hb
      | some e =>
          simp only [act, hlim] at hb ⊢
          exact nextCurrent_done (laterBlock_inv h.1 h.2 hlim) rfl hb
  | probe w i n path =>
      obtain ⟨hw, hwalk, rfl, rfl⟩ := h
      simp only [act] at hb ⊢
      split at hb
      · cases hb
      · next hbig =>
          rw [if_neg hbig]
          split at hb
          · next hstop =>
              rw [if_pos hstop]
              split at hb
              · next hi =>
                  subst hi
                  exact nextCurrent_done (hw.succ hstop.symm) rfl hb
              · split at hb
                · cases hb
                · cases hb
          · cases hb
  | fetchStep w i n path =>
      simp only [act] at hb
      split at hb
      · cases hb
      · cases hb
  | write w i k rest =>
      obtain ⟨hw, hi, hknown, n, hend, rfl⟩ := h
      cases n with
      | zero => exact nextCurrent_done (hw.succ (Or.inr (hknown 0 hend.pos))) rfl hb
      | succ n => cases hb
  | tally w i path => cases hb
  | _ => cases block_of_completed hb

/-! ## 5. The database and all goroutines -/

/-- The second number is on the way of a start of the line. -/
def OnWay (l : Line) (u : Nat) : Prop := ∃ s, 2 ≤ s ∧ s ≤ l.endnum ∧ Visits collatz 1 s u

/-- A value reached from a start of the line after one step at least. -/
def Seen (l : Line) (v : Nat) : Prop :=
  ∃ s, 2 ≤ s ∧ s ≤ l.endnum ∧ Visits collatz 1 (collatz s) v

/-- What a goroutine has still to write. -/
def Pc.pending : Pc → List Nat
  | .write _ _ _ rest => rest
  | _ => []

structure Numbers (l : Line) (r : Run) : Prop where
  inv : ∀ g, (r.pc g).Inv r.db (r.loc g).highest
  takes : ∀ {u k : Nat}, r.db.step u = some k → Takes collatz 1 k u
  le_result : ∀ {u k : Nat}, r.db.step u = some k → k ≤ r.db.result.getD 0
  ne_one : ∀ {u : Nat}, r.db.Known u → u ≠ 1
  onWay : ∀ {u : Nat}, r.db.Known u → OnWay l u
  closed : ∀ {u : Nat}, r.db.Known u →
    collatz u = 1 ∨ r.db.Known (collatz u) ∨ ∃ g, collatz u ∈ (r.pc g).pending
  high : ∀ {u v : Nat}, r.db.Known u → Visits collatz 1 (collatz u) v →
    ∃ g < l.streams, v ≤ (r.loc g).highest
  result : r.db.result.getD 0 = 0 ∨
    ∃ s, 2 ≤ s ∧ s ≤ l.endnum ∧ Takes collatz 1 (r.db.result.getD 0) s
  seen : ∀ g, (r.loc g).highest = 0 ∨ Seen l (r.loc g).highest
  highest : r.db.highest.getD 0 = 0 ∨ Seen l (r.db.highest.getD 0)
  done : ∀ {b g : Nat}, (b, g) ∈ r.processed → BlockDone r.db b

/-- A database as the program has it before a line. -/
structure Db.Fresh (db : Db) : Prop where
  step : ∀ n, db.step n = none
  result : db.result.getD 0 = 0
  highest : db.highest.getD 0 = 0

theorem launch_numbers (l : Line) {db : Db} (h : db.Fresh) : Numbers l (launch l db) := by
  have hnone {u : Nat} : ¬ (launch l db).db.Known u := by
    simp [Db.Known, launch, h.step]
  exact
    { inv := fun _ => trivial
      takes := fun hk => absurd (Option.isSome_of_eq_some hk) hnone
      le_result := fun hk => absurd (Option.isSome_of_eq_some hk) hnone
      ne_one := fun hk => absurd hk hnone
      onWay := fun hk => absurd hk hnone
      closed := fun hk => absurd hk hnone
      high := fun hk => absurd hk hnone
      result := Or.inl h.result
      seen := fun _ => Or.inl rfl
      highest := Or.inl h.highest
      done := fun hm => by cases hm }

/-- A number that a goroutine passes comes from a start of the line. -/
theorem Walked.start {endnum highest n : Nat} {db : Db} {w : Work} (h : Walked highest w n)
    (hw : w.Inv db) (hn : 0 < n) (hb : Blocks endnum db.limits) :
    2 ≤ w.current ∧ w.current ≤ endnum := by
  have hne : w.current ≠ 1 := h.ne 0 hn
  have hpos := hw.current_pos
  have hle := hb.le hw.blkend
  have := h.le
  omega

/-- The rest of the way from a number of the path has been seen by the goroutine, or lies behind
    the number it stopped at. -/
theorem Ended.visits {db : Db} {highest i n j v : Nat} {w : Work} (h : Ended db highest w i n)
    (hj : j < n) (hv : Visits collatz 1 (collatz^[j + 1] w.current) v) :
    v ≤ highest ∨ db.Known (collatz^[n] w.current) ∧
      Visits collatz 1 (collatz (collatz^[n] w.current)) v := by
  have hhigh {m : Nat} (hm : 0 < m) (hle : m ≤ n) : collatz^[m] w.current ≤ highest := by
    obtain ⟨m, rfl⟩ := Nat.exists_eq_succ_of_ne_zero (Nat.ne_of_gt hm)
    exact h.high m hle
  rcases hv.split (n - (j + 1)) with ⟨m, hm, rfl⟩ | hv
  · rw [← iterate_add_apply]
    exact Or.inl (hhigh (by omega) (by omega))
  · rw [← iterate_add_apply, show n - (j + 1) + (j + 1) = n by omega] at hv
    have hend := hhigh h.pos (Nat.le_refl n)
    rcases h.stop with hone | hknown
    · rw [hone] at hv hend
      rw [hv.of_goal]
      exact Or.inl hend
    · cases hv with
      | refl => exact Or.inl hend
      | step _ hv => exact Or.inr ⟨hknown, hv⟩

/-- What a goroutine is about to write is written, or remains to be written. -/
theorem act_pending (db : Db) (l : Local) {pc : Pc} {u : Nat} (h : u ∈ pc.pending) :
    (act db l pc).1.Known u ∨ u ∈ (act db l pc).2.2.pending := by
  cases pc with
  | write w i k rest =>
      cases rest with
      | nil => cases h
      | cons n rest =>
          rcases List.mem_cons.mp h with rfl | h
          · exact Or.inl (by simp [act, Db.Known])
          · exact Or.inr h
  | _ => cases h

section Run

variable {l : Line} {r : Run} {g : Nat}

theorem act_db : (r.act g).db = (act r.db (r.loc g) (r.pc g)).1 := rfl

theorem act_loc_self :
    (r.act g).loc g = (act r.db (r.loc g) (r.pc g)).2.1 := update_self ..

theorem act_loc_of_ne {g' : Nat} (h : g' ≠ g) : (r.act g).loc g' = r.loc g' := update_of_ne h ..

theorem run_grows : r.db.Grows (r.act g).db := act_grows r.db (r.loc g) (r.pc g)

theorem loc_act_le (g' : Nat) : (r.loc g').highest ≤ ((r.act g).loc g').highest := by
  by_cases hg : g' = g
  · subst hg
    rw [act_loc_self]
    exact act_local_le r.db (r.loc g') (r.pc g')
  · exact Nat.le_of_eq (by rw [act_loc_of_ne hg])

/-- A number that is new in `^step`: where it stands on the way of the number its goroutine works
    on. -/
structure Written (r : Run) (g : Nat) (u k : Nat) (w : Work) (i j n : Nat) : Prop where
  pc : r.pc g = .write w i j (u :: pathFrom w.current (j + 1) n)
  inv : w.Inv r.db
  le_result : i ≤ r.db.result.getD 0
  ended : Ended r.db (r.loc g).highest w i (j + (n + 1))
  eq : u = collatz^[j] w.current
  value : k = i - j

theorem written_of_step (hr : Numbers l r) {u k : Nat} (h : (r.act g).db.step u = some k) :
    r.db.step u = some k ∨ ∃ w i j n, Written r g u k w i j n := by
  rcases act_step r.db (r.loc g) (r.pc g) h with h | ⟨w, i, j, rest, hpc, hk⟩
  · exact Or.inl h
  · have hinv := hr.inv g
    rw [hpc] at hinv
    obtain ⟨hw, hi, -, n, hend, hrest⟩ := hinv
    cases n with
    | zero => cases hrest
    | succ n =>
        rw [pathFrom_succ, List.cons.injEq] at hrest
        obtain ⟨hu, rfl⟩ := hrest
        exact Or.inr ⟨w, i, j, n, hpc, hw, hi, hend, hu, hk⟩

theorem known_act (hr : Numbers l r) {u : Nat} (h : (r.act g).db.Known u) :
    r.db.Known u ∨ ∃ k w i j n, Written r g u k w i j n := by
  obtain ⟨k, hk⟩ := Option.isSome_iff_exists.mp h
  rcases written_of_step hr hk with hk | ⟨w, i, j, n, hw⟩
  · exact Or.inl (Option.isSome_of_eq_some hk)
  · exact Or.inr ⟨k, w, i, j, n, hw⟩

/-- The next number after one that is written is known, or to be written. -/
theorem Written.next {u k i j n : Nat} {w : Work} (h : Written r g u k w i j n) :
    collatz u = 1 ∨ r.db.Known (collatz u) ∨ collatz u ∈ ((r.act g).pc g).pending := by
  have hnext : collatz u = collatz^[j + 1] w.current := by
    rw [h.eq, ← iterate_succ_apply' collatz]
  rw [hnext]
  cases n with
  | zero => exact h.ended.stop.imp_right Or.inl
  | succ n =>
      refine Or.inr (Or.inr ?_)
      rw [act_pc_self, h.pc]
      exact List.mem_cons_self

/-- A new highest value has been reached from the number in turn. -/
theorem seen_act (hb : Blocks l.endnum r.db.limits) (hr : Numbers l r) (g' : Nat) :
    ((r.act g).loc g').highest = 0 ∨ Seen l ((r.act g).loc g').highest := by
  by_cases hgg : g' = g
  · subst hgg
    rw [act_loc_self]
    rcases act_local r.db (r.loc g') (r.pc g') with h | ⟨w, i, n, path, hpc, hne, hlt, h⟩
    · rw [h]
      exact hr.seen g'
    · have hinv := hr.inv g'
      rw [hpc] at hinv
      obtain ⟨hw, hwalk, rfl, -⟩ := hinv
      have hnext := (hwalk.mono (Nat.le_of_lt hlt)).snoc hne
        (Nat.le_of_eq (iterate_succ_apply' collatz i w.current))
      have hs := hnext.start hw (Nat.succ_pos i) hb
      have hway : ∀ j < i, collatz^[j] (collatz w.current) ≠ 1 := fun j hj => by
        rw [← iterate_succ_apply]
        exact hnext.ne (j + 1) (by omega)
      rw [h, ← iterate_succ_apply' collatz, iterate_succ_apply]
      exact Or.inr ⟨w.current, hs.1, hs.2, visits_iterate hway⟩
  · rw [act_loc_of_ne hgg]
    exact hr.seen g'

theorem numbers_act (hb : Blocks l.endnum r.db.limits) (hr : Numbers l r) (hg : g < l.streams) :
    Numbers l (r.act g) := by
  have hgrows := run_grows (r := r) (g := g)
  have hstart {u k i j n : Nat} {w : Work} (hw : Written r g u k w i j n) :
      2 ≤ w.current ∧ w.current ≤ l.endnum :=
    hw.ended.toWalked.start hw.inv hw.ended.pos hb
  refine ⟨fun g' => ?_, fun {u k} hk => ?_, fun {u k} hk => ?_, fun {u} hu => ?_,
    fun {u} hu => ?_, fun {u} hu => ?_, fun {u v} hu hv => ?_, ?_, fun g' => ?_, ?_,
    fun {b g'} hm => ?_⟩
  · by_cases hgg : g' = g
    · subst hgg
      rw [act_pc_self, act_loc_self]
      exact act_inv (hr.inv g') hr.takes
    · rw [act_pc_of_ne hgg, act_loc_of_ne hgg]
      exact (hr.inv g').mono hgrows
  · rcases written_of_step hr hk with hk | ⟨w, i, j, n, hw⟩
    · exact hr.takes hk
    · rw [hw.eq, hw.value]
      exact (hw.ended.takes.iterate fun m hm => hw.ended.ne m (by omega)).2
  · rcases written_of_step hr hk with hk | ⟨w, i, j, n, hw⟩
    · exact Nat.le_trans (hr.le_result hk) hgrows.result
    · have := hw.le_result
      have := hgrows.result
      have := hw.value
      omega
  · rcases known_act hr hu with hu | ⟨k, w, i, j, n, hw⟩
    · exact hr.ne_one hu
    · rw [hw.eq]
      exact hw.ended.ne j (by omega)
  · rcases known_act hr hu with hu | ⟨k, w, i, j, n, hw⟩
    · exact hr.onWay hu
    · refine ⟨w.current, (hstart hw).1, (hstart hw).2, ?_⟩
      rw [hw.eq]
      exact visits_iterate fun m hm => hw.ended.ne m (by omega)
  · rcases known_act hr hu with hu | ⟨k, w, i, j, n, hw⟩
    · rcases hr.closed hu with hone | hknown | ⟨g', hp⟩
      · exact Or.inl hone
      · exact Or.inr (Or.inl (hgrows.known hknown))
      · by_cases hgg : g' = g
        · subst hgg
          rcases act_pending r.db (r.loc g') hp with hknown | hp
          · exact Or.inr (Or.inl hknown)
          · rw [← act_pc_self] at hp
            exact Or.inr (Or.inr ⟨g', hp⟩)
        · rw [← act_pc_of_ne hgg] at hp
          exact Or.inr (Or.inr ⟨g', hp⟩)
    · exact hw.next.imp_right fun h => h.imp hgrows.known fun hp => ⟨g, hp⟩
  · -- the goroutine that holds the maximum only ever raises it
    have hold {u v : Nat} (hu : r.db.Known u) (hv : Visits collatz 1 (collatz u) v) :
        ∃ g' < l.streams, v ≤ ((r.act g).loc g').highest := by
      obtain ⟨g', hg', hle⟩ := hr.high hu hv
      exact ⟨g', hg', Nat.le_trans hle (loc_act_le g')⟩
    rcases known_act hr hu with hu | ⟨k, w, i, j, n, hw⟩
    · exact hold hu hv
    · rw [hw.eq, ← iterate_succ_apply' collatz] at hv
      rcases hw.ended.visits (by omega) hv with hle | ⟨hknown, hv⟩
      · exact ⟨g, hg, Nat.le_trans hle (loc_act_le g)⟩
      · exact hold hknown hv
  · rcases act_result r.db (r.loc g) (r.pc g) with h | ⟨w, i, path, hpc, hlt, h⟩
    · rw [act_db, h]
      exact hr.result
    · have hinv := hr.inv g
      rw [hpc] at hinv
      obtain ⟨hw, n, hend, -⟩ := hinv
      have hs := hend.toWalked.start hw hend.pos hb
      rw [act_db, h]
      exact Or.inr ⟨w.current, hs.1, hs.2, hend.takes⟩
  · exact seen_act hb hr g'
  · rcases act_highest r.db (r.loc g) (r.pc g) with h | ⟨_, h⟩
    · rw [act_db, h]
      exact hr.highest
    · rw [act_db, h]
      exact hr.seen g
  · rcases mem_processed_act.mp hm with hm | ⟨rfl, hcomp⟩
    · exact hgrows.blockDone (hr.done hm)
    · rw [act_pc_self] at hcomp
      exact act_done (hr.inv g') hcomp

end Run

end YottaTest.Go
