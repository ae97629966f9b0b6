/-
  File:      YottaTest/Lib/Pieces.lean
  Subject:   Delimited strings: reading and replacing the pieces between delimiters.

  Over any alphabet with a delimiter `c`, pieces are counted from 1, and replacing a piece past
  the last one adds the delimiters it needs (M's `$PIECE` and `SET $PIECE`).

  * `piece`, `setPiece`, `numPieces` -- the operations; index 0 reads "" and writes nothing;
  * `piece_setPiece` -- a piece written is the piece read, if it holds no delimiter;
  * `notMem_piece` -- a piece never holds the delimiter;
  * `setPiece_piece` -- writing what a piece already is changes nothing;
  * `setPiece_split` -- where a piece behind the first is written;
  * `filter_setPiece` -- dropping characters other than the delimiter commutes with replacing a
    piece by one that loses nothing;
  * `piece_eq_splitOn`, `piece_intercalate` -- the pieces are those of `List.splitOn`, so that the
    pieces of a joined text are what was joined;
  * `secondPieceStr` -- the second piece for a delimiter of several characters;
  * `splitStr` -- all its pieces; `splitStr_once`, `splitStr_other`: in a text where the delimiter
    can begin in one place only.
-/
import Mathlib.Data.List.TakeWhile

namespace YottaTest.Lib

variable {α : Type} [DecidableEq α]

/-- What follows the first delimiter, if there is one. -/
def afterFirst (c : α) (s : List α) : List α := (s.dropWhile fun x => x ≠ c).tail

/-- What stands before the first delimiter. -/
def beforeFirst (c : α) (s : List α) : List α := s.takeWhile fun x => x ≠ c

/-- The `k`th piece, counted from 1; `[]` at 0 and past the end. -/
def piece (c : α) : List α → Nat → List α
  | _, 0 => []
  | s, 1 => beforeFirst c s
  | s, k + 2 => piece c (afterFirst c s) (k + 1)

/-- The string with its `k`th piece replaced; delimiters are added when there are too few. -/
def setPiece (c : α) : List α → Nat → List α → List α
  | s, 0, _ => s
  | s, 1, p => p ++ s.dropWhile fun x => x ≠ c
  | s, k + 2, p => beforeFirst c s ++ c :: setPiece c (afterFirst c s) (k + 1) p

/-- The number of pieces: one more than the delimiters. -/
def numPieces (c : α) (s : List α) : Nat := s.count c + 1

theorem notMem_beforeFirst (c : α) (s : List α) : c ∉ beforeFirst c s := by
  intro h
  have := List.mem_takeWhile_imp h
  simp at this

theorem notMem_piece (c : α) : ∀ (k : Nat) (s : List α), c ∉ piece c s k
  | 0, _ => List.not_mem_nil
  | 1, s => notMem_beforeFirst c s
  | k + 2, s => notMem_piece c (k + 1) (afterFirst c s)

/-- A string that begins with a delimiter-free part and a delimiter splits there. -/
theorem beforeFirst_append {c : α} {p : List α} (hp : c ∉ p) (s : List α) :
    beforeFirst c (p ++ c :: s) = p := by
  induction p with
  | nil => simp [beforeFirst]
  | cons x p ih =>
      have hx : x ≠ c := fun h => hp (h ▸ List.mem_cons_self)
      have ih := ih fun h => hp (List.mem_cons_of_mem _ h)
      unfold beforeFirst at ih ⊢
      rw [List.cons_append, List.takeWhile_cons, if_pos (by simpa using hx), ih]

theorem afterFirst_append {c : α} {p : List α} (hp : c ∉ p) (s : List α) :
    afterFirst c (p ++ c :: s) = s := by
  induction p with
  | nil => simp [afterFirst]
  | cons x p ih =>
      have hx : x ≠ c := fun h => hp (h ▸ List.mem_cons_self)
      have ih := ih fun h => hp (List.mem_cons_of_mem _ h)
      unfold afterFirst at ih ⊢
      rw [List.cons_append, List.dropWhile_cons, if_pos (by simpa using hx), ih]

theorem afterFirst_of_notMem {c : α} {s : List α} (h : c ∉ s) : afterFirst c s = [] := by
  have hdrop : (s.dropWhile fun x => x ≠ c) = [] := by
    rw [List.dropWhile_eq_nil_iff]
    intro x hx
    have hne : x ≠ c := fun he => h (he ▸ hx)
    simpa using hne
  rw [afterFirst, hdrop, List.tail_nil]

/-- The pieces after the first one. -/
theorem piece_append {c : α} {p : List α} (hp : c ∉ p) (s : List α) (k : Nat) :
    piece c (p ++ c :: s) (k + 2) = piece c s (k + 1) := by
  show piece c (afterFirst c (p ++ c :: s)) (k + 1) = _
  rw [afterFirst_append hp]

/-- The rest after the first piece is empty or begins with the delimiter. -/
theorem dropWhile_delimiter (c : α) (s : List α) :
    (s.dropWhile fun x => x ≠ c) = [] ∨ ∃ t, (s.dropWhile fun x => x ≠ c) = c :: t := by
  induction s with
  | nil => exact Or.inl rfl
  | cons x s ih =>
      rw [List.dropWhile_cons]
      by_cases hx : x = c
      · exact Or.inr ⟨s, by simp [hx]⟩
      · simpa [hx] using ih

theorem beforeFirst_of_notMem {c : α} {s : List α} (h : c ∉ s) : beforeFirst c s = s := by
  unfold beforeFirst
  rw [List.takeWhile_eq_self_iff]
  intro x hx
  have hne : x ≠ c := fun he => h (he ▸ hx)
  simpa using hne

/-- **A piece written is the piece read.** -/
theorem piece_setPiece {c : α} {p : List α} (hp : c ∉ p) :
    ∀ (k : Nat) (s : List α), 0 < k → piece c (setPiece c s k p) k = p
  | 1, s, _ => by
      unfold piece setPiece
      rcases dropWhile_delimiter c s with h | ⟨t, h⟩
      · rw [h, List.append_nil, beforeFirst_of_notMem hp]
      · rw [h, beforeFirst_append hp]
  | k + 2, s, _ => by
      unfold piece setPiece
      rw [afterFirst_append (notMem_beforeFirst c s)]
      exact piece_setPiece hp (k + 1) _ (Nat.succ_pos k)

theorem beforeFirst_afterFirst {c : α} {s : List α} (h : c ∈ s) :
    beforeFirst c s ++ c :: afterFirst c s = s := by
  have hne : (s.dropWhile fun x => x ≠ c) ≠ [] := fun hnil => by
    rw [List.dropWhile_eq_nil_iff] at hnil
    exact absurd rfl (of_decide_eq_true (hnil c h))
  obtain ⟨t, ht⟩ := (dropWhile_delimiter c s).resolve_left hne
  have hcons : c :: afterFirst c s = s.dropWhile fun x => x ≠ c := by
    rw [afterFirst, ht, List.tail_cons]
  rw [hcons, beforeFirst, List.takeWhile_append_dropWhile]

theorem numPieces_afterFirst {c : α} {s : List α} (h : c ∈ s) :
    numPieces c s = numPieces c (afterFirst c s) + 1 := by
  have hs : s.count c = (beforeFirst c s ++ c :: afterFirst c s).count c := by
    rw [beforeFirst_afterFirst h]
  rw [numPieces, numPieces, hs, List.count_append, List.count_cons_self,
    List.count_eq_zero_of_not_mem (notMem_beforeFirst c s), Nat.zero_add]

theorem afterFirst_append_dropWhile {c : α} {p : List α} (hp : c ∉ p) (s : List α) :
    afterFirst c (p ++ s.dropWhile fun x => x ≠ c) = afterFirst c s := by
  rcases dropWhile_delimiter c s with h | ⟨r, h⟩
  · rw [h, List.append_nil, afterFirst_of_notMem hp, afterFirst, h, List.tail_nil]
  · rw [h, afterFirst_append hp, afterFirst, h, List.tail_cons]

/-- The other pieces stay. -/
theorem piece_setPiece_of_ne {c : α} {p : List α} (hp : c ∉ p) : ∀ {j k : Nat} (s : List α), j ≠ k →
    piece c (setPiece c s k p) j = piece c s j
  | 0, _, _, _ => by rw [piece, piece]
  | _ + 1, 0, _, _ => rfl
  | 1, 1, _, hjk => absurd rfl hjk
  | j + 2, 1, s, _ => by rw [setPiece, piece, piece, afterFirst_append_dropWhile hp]
  | 1, k + 2, s, _ => by rw [setPiece, piece, piece, beforeFirst_append (notMem_beforeFirst c s)]
  | j + 2, k + 2, s, hjk => by
      rw [setPiece, piece_append (notMem_beforeFirst c s), piece]
      exact piece_setPiece_of_ne hp (afterFirst c s) fun h => hjk (by omega)

/-- The pieces before the one that is written stay, whatever is written. -/
theorem piece_setPiece_of_lt {c : α} (p : List α) : ∀ {j k : Nat} (s : List α), j < k →
    piece c (setPiece c s k p) j = piece c s j
  | 0, _, _, _ => by rw [piece, piece]
  | 1, k + 2, s, _ => by rw [setPiece, piece, piece, beforeFirst_append (notMem_beforeFirst c s)]
  | j + 2, k + 2, s, hjk => by
      rw [setPiece, piece_append (notMem_beforeFirst c s), piece]
      exact piece_setPiece_of_lt p (afterFirst c s) (by omega)

/-- A first piece stays where it is when a later one is written. -/
theorem setPiece_append {c : α} {w : List α} (hw : c ∉ w) (s : List α) (k : Nat) (p : List α) :
    setPiece c (w ++ c :: s) (k + 2) p = w ++ c :: setPiece c s (k + 1) p := by
  rw [setPiece, beforeFirst_append hw, afterFirst_append hw]

/-- **Where a piece behind the first is written**: in the place of an old one, or behind the text and
the delimiters it lacks. -/
theorem setPiece_split (c : α) (p : List α) : ∀ (k : Nat) (s : List α), ∃ pre post,
    setPiece c s (k + 2) p = pre ++ c :: (p ++ post) ∧
      ((∃ old, s = pre ++ c :: (old ++ post)) ∨ ∃ m, pre = s ++ List.replicate m c ∧ post = [])
  | 0, s => by
      refine ⟨beforeFirst c s, (afterFirst c s).dropWhile fun x => x ≠ c, rfl, ?_⟩
      by_cases hc : c ∈ s
      · refine Or.inl ⟨beforeFirst c (afterFirst c s), ?_⟩
        have hrest : beforeFirst c (afterFirst c s) ++ ((afterFirst c s).dropWhile fun x => x ≠ c)
            = afterFirst c s := List.takeWhile_append_dropWhile
        rw [hrest, beforeFirst_afterFirst hc]
      · rw [afterFirst_of_notMem hc, beforeFirst_of_notMem hc]
        exact Or.inr ⟨0, (List.append_nil s).symm, rfl⟩
  | k + 1, s => by
      obtain ⟨pre, post, hset, hcut⟩ := setPiece_split c p k (afterFirst c s)
      refine ⟨beforeFirst c s ++ c :: pre, post, ?_, ?_⟩
      · rw [setPiece, hset, List.append_assoc, List.cons_append]
      · by_cases hc : c ∈ s
        · have hs := beforeFirst_afterFirst hc
          rcases hcut with ⟨old, hold⟩ | ⟨m, hpre, hpost⟩
          · refine Or.inl ⟨old, ?_⟩
            rw [List.append_assoc, List.cons_append, ← hold, hs]
          · refine Or.inr ⟨m, ?_, hpost⟩
            rw [hpre, ← List.cons_append, ← List.append_assoc, hs]
        · rw [afterFirst_of_notMem hc] at hcut
          rw [beforeFirst_of_notMem hc]
          rcases hcut with ⟨old, hold⟩ | ⟨m, hpre, hpost⟩
          · exact absurd hold (by simp)
          · refine Or.inr ⟨m + 1, ?_, hpost⟩
            rw [hpre, List.nil_append, List.replicate_succ]

/-- **Writing a piece that is there already changes nothing.** -/
theorem setPiece_piece (c : α) : ∀ (k : Nat) (s : List α), k ≤ numPieces c s →
    setPiece c s k (piece c s k) = s
  | 0, s, _ => by cases s <;> rfl
  | 1, s, _ => by
      unfold setPiece piece beforeFirst
      exact List.takeWhile_append_dropWhile
  | k + 2, s, h => by
      have hc : c ∈ s := by
        by_contra hc
        rw [numPieces, List.count_eq_zero_of_not_mem hc] at h
        omega
      unfold setPiece piece
      rw [numPieces_afterFirst hc] at h
      rw [setPiece_piece c (k + 1) _ (by omega)]
      exact beforeFirst_afterFirst hc

/-- A piece written to nothing is the last one. -/
theorem numPieces_setPiece_nil {c : α} {p : List α} (hp : c ∉ p) : ∀ k : Nat, 0 < k →
    numPieces c (setPiece c [] k p) = k
  | 1, _ => by
      unfold setPiece numPieces
      rw [List.dropWhile_nil, List.append_nil, List.count_eq_zero_of_not_mem hp]
  | k + 2, _ => by
      have ih := numPieces_setPiece_nil hp (k + 1) (Nat.succ_pos k)
      have hafter : afterFirst c ([] : List α) = [] := rfl
      rw [numPieces] at ih
      unfold setPiece numPieces
      rw [hafter, beforeFirst, List.takeWhile_nil, List.nil_append, List.count_cons_self, ih]

/-- **Dropping characters commutes with replacing a piece**, if the delimiter and the new piece
    are kept. -/
theorem filter_setPiece {c : α} {f : α → Bool} (hc : f c = true) {p : List α}
    (hp : ∀ x ∈ p, f x = true) :
    ∀ (k : Nat) (s : List α), (setPiece c s k p).filter f = setPiece c (s.filter f) k p := by
  have hkeep : p.filter f = p := List.filter_eq_self.2 hp
  have htake : ∀ s : List α, (s.filter f).takeWhile (fun x => x ≠ c)
      = (s.takeWhile fun x => x ≠ c).filter f := by
    intro s
    induction s with
    | nil => rfl
    | cons x s ih =>
        by_cases hx : x = c
        · simp [hx, hc]
        · cases hf : f x <;> simp [hx, hf] <;> simpa using ih
  have hdrop : ∀ s : List α, (s.filter f).dropWhile (fun x => x ≠ c)
      = (s.dropWhile fun x => x ≠ c).filter f := by
    intro s
    induction s with
    | nil => rfl
    | cons x s ih =>
        by_cases hx : x = c
        · simp [hx, hc]
        · cases hf : f x <;> simp [hx, hf] <;> simpa using ih
  have htail : ∀ s : List α, (afterFirst c s).filter f = afterFirst c (s.filter f) := by
    intro s
    unfold afterFirst
    rw [hdrop]
    rcases dropWhile_delimiter c s with h | ⟨t, h⟩
    · rw [h]; rfl
    · rw [h, List.filter_cons_of_pos hc]; rfl
  intro k
  induction k with
  | zero => intro s; rfl
  | succ k ih =>
      intro s
      cases k with
      | zero =>
          unfold setPiece
          rw [List.filter_append, hkeep, hdrop]
      | succ k =>
          unfold setPiece
          rw [List.filter_append, List.filter_cons_of_pos hc, ih, htail]
          unfold beforeFirst
          rw [htake]

/-! ## Joined texts -/

theorem piece_nil (c : α) : ∀ k : Nat, piece c [] k = []
  | 0 => rfl
  | 1 => rfl
  | k + 2 => piece_nil c (k + 1)

/-- **The pieces are those of `List.splitOn`.** -/
theorem piece_eq_splitOn (c : α) : ∀ (k : Nat) (s : List α),
    piece c s (k + 1) = (s.splitOn c).getD k [] := by
  intro k s
  by_cases hc : c ∈ s
  · have hsplit : s.splitOn c = beforeFirst c s :: (afterFirst c s).splitOn c :=
      calc s.splitOn c = (beforeFirst c s ++ c :: afterFirst c s).splitOn c := by
            rw [beforeFirst_afterFirst hc]
        _ = beforeFirst c s :: (afterFirst c s).splitOn c :=
            List.splitOn_append_cons_self_of_not_mem (notMem_beforeFirst c s) _
    rw [hsplit]
    cases k with
    | zero => rfl
    | succ k => exact piece_eq_splitOn c k (afterFirst c s)
  · rw [List.splitOn_eq_singleton hc]
    cases k with
    | zero => exact beforeFirst_of_notMem hc
    | succ k =>
        show piece c (afterFirst c s) (k + 1) = _
        rw [afterFirst_of_notMem hc, piece_nil]
        rfl

/-- **The pieces of a joined text are what was joined.** -/
theorem piece_intercalate {c : α} {ws : List (List α)} (hws : ∀ w ∈ ws, c ∉ w) (hne : ws ≠ [])
    (k : Nat) : piece c ([c].intercalate ws) (k + 1) = ws.getD k [] := by
  rw [piece_eq_splitOn, List.splitOn_intercalate c hws hne]

theorem numPieces_intercalate {c : α} {ws : List (List α)} (hws : ∀ w ∈ ws, c ∉ w)
    (hne : ws ≠ []) : numPieces c ([c].intercalate ws) = ws.length := by
  induction ws with
  | nil => exact absurd rfl hne
  | cons w ws ih =>
      have hw : c ∉ w := hws w List.mem_cons_self
      cases ws with
      | nil => simp [numPieces, List.count_eq_zero_of_not_mem hw]
      | cons w' ws =>
          have ih := ih (fun v hv => hws v (List.mem_cons_of_mem _ hv)) (by simp)
          unfold numPieces at ih ⊢
          rw [List.intercalate_cons_cons, List.append_assoc, List.count_append,
            List.count_eq_zero_of_not_mem hw, List.singleton_append, List.count_cons_self, Nat.zero_add,
            ih]
          rfl

/-! ## Delimiters of several characters -/

/-- What follows the first occurrence of `d`, if there is one. -/
def afterStr (d : List α) : List α → List α
  | [] => []
  | x :: s => if d.isPrefixOf (x :: s) then (x :: s).drop d.length else afterStr d s

/-- What stands before the first occurrence of `d`. -/
def beforeStr (d : List α) : List α → List α
  | [] => []
  | x :: s => if d.isPrefixOf (x :: s) then [] else x :: beforeStr d s

/-- The second piece. -/
def secondPieceStr (d s : List α) : List α := beforeStr d (afterStr d s)

theorem beforeStr_of_notMem {c : α} {d : List α} : ∀ {s : List α}, c ∉ s →
    beforeStr (c :: d) s = s
  | [], _ => rfl
  | x :: s, h => by
      have hx : (c :: d).isPrefixOf (x :: s) = false := by
        have hne : c ≠ x := fun he => h (he ▸ List.mem_cons_self)
        show (c == x && d.isPrefixOf s) = false
        rw [beq_eq_false_iff_ne.2 hne, Bool.false_and]
      unfold beforeStr
      rw [hx, beforeStr_of_notMem fun hs => h (List.mem_cons_of_mem _ hs)]
      rfl

/-- A text after its delimiter, when the delimiter's first character is not in it. -/
theorem secondPieceStr_append {c : α} {d s : List α} (h : c ∉ s) :
    secondPieceStr (c :: d) (c :: d ++ s) = s := by
  have hafter : afterStr (c :: d) (c :: d ++ s) = s := by
    have hpre : (c :: d).isPrefixOf (c :: (d ++ s)) = true :=
      List.isPrefixOf_iff_prefix.2 ⟨s, rfl⟩
    show (if (c :: d).isPrefixOf (c :: (d ++ s)) then (c :: d ++ s).drop (c :: d).length
      else afterStr (c :: d) (d ++ s)) = s
    rw [if_pos hpre, List.drop_left]
  rw [secondPieceStr, hafter, beforeStr_of_notMem h]

/-- The pieces; `skip` characters of a delimiter are still to be passed over. -/
def splitFrom (d : List α) : Nat → List α → List (List α)
  | _, [] => [[]]
  | skip + 1, _ :: s => splitFrom d skip s
  | 0, x :: s =>
      if d.isPrefixOf (x :: s) then [] :: splitFrom d (d.length - 1) s
      else match splitFrom d 0 s with
        | [] => [[x]]
        | p :: ps => (x :: p) :: ps

/-- The pieces between the occurrences of a delimiter, from left to right. -/
def splitStr (d s : List α) : List (List α) := splitFrom d 0 s

/-- Two pieces are what stands before and after the one delimiter. -/
theorem exists_of_numPieces_eq_two {c : α} {s : List α} (h : numPieces c s = 2) :
    ∃ p q, s = p ++ c :: q ∧ c ∉ p ∧ c ∉ q := by
  have hcount : s.count c = 1 := Nat.succ.inj h
  have hmem : c ∈ s := List.count_pos_iff.1 (by omega)
  obtain ⟨p, q, rfl, hp⟩ := List.eq_append_cons_of_mem hmem
  refine ⟨p, q, rfl, hp, fun hq => ?_⟩
  have hpos := List.count_pos_iff.2 hq
  rw [List.count_append, List.count_cons_self] at hcount
  omega

theorem numPieces_eq_two {c : α} {p q : List α} (hp : c ∉ p) (hq : c ∉ q) : numPieces c (p ++ c :: q) = 2 := by
  rw [numPieces, List.count_append, List.count_cons_self, List.count_eq_zero_of_not_mem hp,
    List.count_eq_zero_of_not_mem hq]

/-- The first piece, of a text that goes on after its delimiter. -/
theorem beforeFirst_of_mem {c : α} {p : List α} (hp : c ∈ p) (s : List α) :
    beforeFirst c (p ++ s) = beforeFirst c p := by
  obtain ⟨u, v, rfl, hu⟩ := List.eq_append_cons_of_mem hp
  rw [List.append_assoc, List.cons_append, beforeFirst_append hu, beforeFirst_append hu]

theorem splitFrom_ne_nil (d : List α) : ∀ (skip : Nat) (s : List α), splitFrom d skip s ≠ []
  | _, [] => List.cons_ne_nil _ _
  | skip + 1, _ :: s => splitFrom_ne_nil d skip s
  | 0, x :: s => by
      rw [splitFrom]
      split
      · exact List.cons_ne_nil _ _
      · split <;> exact List.cons_ne_nil _ _

/-- Characters that do not begin a delimiter belong to the first piece. -/
theorem splitFrom_append {c : α} {d : List α} : ∀ {p : List α}, c ∉ p → ∀ s : List α,
    splitFrom (c :: d) 0 (p ++ s) = (splitFrom (c :: d) 0 s).modifyHead (p ++ ·)
  | [], _, s => by cases h : splitFrom (c :: d) 0 s <;> simp [h]
  | x :: p, hp, s => by
      have hx : (c :: d).isPrefixOf (x :: (p ++ s)) = false := by
        have hne : c ≠ x := fun he => hp (he ▸ List.mem_cons_self)
        show (c == x && d.isPrefixOf (p ++ s)) = false
        rw [beq_eq_false_iff_ne.2 hne, Bool.false_and]
      have ih := splitFrom_append (d := d) (fun h => hp (List.mem_cons_of_mem _ h)) s
      rw [List.cons_append, splitFrom, hx, if_neg Bool.false_ne_true, ih]
      cases h : splitFrom (c :: d) 0 s with
      | nil => exact absurd h (splitFrom_ne_nil _ _ _)
      | cons q qs => rfl

theorem splitFrom_of_notMem {c : α} {d s : List α} (hs : c ∉ s) : splitFrom (c :: d) 0 s = [s] := by
  have h := splitFrom_append (d := d) hs []
  rw [List.append_nil] at h
  rw [h]
  simp [splitFrom]

theorem splitFrom_skip (d s : List α) : ∀ p : List α, splitFrom d p.length (p ++ s) = splitFrom d 0 s
  | [] => rfl
  | _ :: p => splitFrom_skip d s p

/-- A delimiter that stands once. -/
theorem splitStr_once {c : α} {d p q : List α} (hp : c ∉ p) (hq : c ∉ q) :
    splitStr (c :: d) (p ++ c :: (d ++ q)) = [p, q] := by
  have hpre : (c :: d).isPrefixOf (c :: (d ++ q)) = true := List.isPrefixOf_iff_prefix.2 ⟨q, rfl⟩
  rw [splitStr, splitFrom_append hp, splitFrom, hpre, if_pos rfl, List.length_cons, Nat.add_sub_cancel,
    splitFrom_skip, splitFrom_of_notMem hq]
  simp

/-- Where the delimiter could begin, something else stands. -/
theorem splitStr_other {c : α} {d p q : List α} (hp : c ∉ p) (hq : c ∉ q) (hd : ¬ d <+: q) :
    splitStr (c :: d) (p ++ c :: q) = [p ++ c :: q] := by
  have hpre : (c :: d).isPrefixOf (c :: q) = false := by
    rw [Bool.eq_false_iff]
    intro h
    exact hd (List.prefix_cons_inj c |>.1 (List.isPrefixOf_iff_prefix.1 h))
  rw [splitStr, splitFrom_append hp, splitFrom, hpre, if_neg Bool.false_ne_true, splitFrom_of_notMem hq]
  rfl

end YottaTest.Lib
