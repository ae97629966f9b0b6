/-
  File:      YottaTest/Triggers/Lines.lean
  Subject:   The lines of a trigger file, and how `gentrigload` takes them apart.

      +^f -commands=S,K,ZK -pieces=2:20 -delim=";" -xecute="do ^twork(34306)" -options=I,NOC
      -^f -commands=K -xecute="do ^twork(121266)" -options=NOI,NOC

  * `parseLine` -- the `$piece`s of the code, on any text;
  * `Line`, `Line.text` -- the lines the code reads, and their texts;
  * **`parseLine_text`** -- the code finds in a line's text what the line says.
-/
import YottaTest.Triggers.Load

namespace YottaTest.Triggers

open YottaTest.M YottaTest.Lib

/-! ## 1. The code -/

/-- `$piece(s," ",k,k+1)` -/
def twoPieces (s : MStr) (k : Nat) : MStr :=
  if numPieces blank s ≤ k then piece blank s k
  else piece blank s k ++ blank :: piece blank s (k + 1)

/-- The comma. -/
def comma : MChar := .chr 44

/-- The variables of a line. -/
def parseLine (line : MStr) : Fields :=
  let gvn := piece blank line 1
  let cmds := secondPieceStr (lit "-commands=") (piece blank line 2)
  let withPieces := piece (.chr 61) (piece blank line 3) 1 = lit "-pieces"
  let pnum := if withPieces then 4 else 2
  let options := secondPieceStr (lit "-options=") (piece blank line (pnum + 3))
  { add := extract gvn 1 1 = lit "+"
    gvn := extract gvn 3 99
    cmds := (cmds.splitOn comma).toFinset
    pieces := if withPieces then piece blank line 3 else []
    delim := if withPieces then piece blank line 4 else []
    xecute := twoPieces line (pnum + 1)
    options := if options ≠ [] then (options.splitOn comma).toFinset else ∅ }

/-! ## 2. The grammar -/

inductive Cmd where
  | s
  | k
  | zk
  | ztr
  deriving DecidableEq, Repr

def Cmd.text : Cmd → MStr
  | .s => S
  | .k => lit "K"
  | .zk => lit "ZK"
  | .ztr => lit "ZTR"

inductive Opt where
  | c
  | noc
  | i
  | noi
  deriving DecidableEq, Repr

def Opt.text : Opt → MStr
  | .c => lit "C"
  | .noc => lit "NOC"
  | .i => lit "I"
  | .noi => lit "NOI"

/-- A text without blanks. -/
abbrev Word := { s : MStr // blank ∉ s }

/-- A line of a trigger file. -/
structure Line where
  add : Bool
  /-- The global's name, without the caret. -/
  gvn : Word
  gvn_length : gvn.1.length ≤ 97
  cmds : List Cmd
  cmds_ne_nil : cmds ≠ []
  /-- The values of `-pieces=` and `-delim=`, if the line has them. -/
  part : Option (Word × Word)
  /-- What the xecute string does: `-xecute="do <entryref>"`. -/
  entryref : Word
  options : List Opt

namespace Line

def xecute (l : Line) : MStr := lit "-xecute=\"do " ++ (l.entryref.1 ++ lit "\"")

def pieces (l : Line) : MStr :=
  match l.part with
  | none => []
  | some part => lit "-pieces=" ++ part.1.1

def delim (l : Line) : MStr :=
  match l.part with
  | none => []
  | some part => lit "-delim=" ++ part.2.1

/-- What is between the blanks of a line. -/
def words (l : Line) : List MStr :=
  [lit (if l.add then "+^" else "-^") ++ l.gvn.1,
    lit "-commands=" ++ [comma].intercalate (l.cmds.map Cmd.text)] ++
  (if l.part.isSome then [l.pieces, l.delim] else []) ++
  [lit "-xecute=\"do", l.entryref.1 ++ lit "\""] ++
  if l.options = [] then [] else [lit "-options=" ++ [comma].intercalate (l.options.map Opt.text)]

def text (l : Line) : MStr := [blank].intercalate l.words

/-- What the line says. -/
def fields (l : Line) : Fields where
  add := l.add
  gvn := l.gvn.1
  cmds := (l.cmds.map Cmd.text).toFinset
  pieces := l.pieces
  delim := l.delim
  xecute := l.xecute
  options := (l.options.map Opt.text).toFinset

end Line

/-! ## 3. The code reads the grammar -/

theorem cmd_text (c : Cmd) : comma ∉ c.text ∧ blank ∉ c.text ∧ MChar.chr 45 ∉ c.text := by
  cases c <;> decide

theorem opt_text (o : Opt) : comma ∉ o.text ∧ blank ∉ o.text ∧ MChar.chr 45 ∉ o.text ∧
    o.text ≠ [] := by
  cases o <;> decide

theorem notMem_intercalate {c d : MChar} (hd : c ≠ d) {ws : List MStr} (h : ∀ w ∈ ws, c ∉ w) :
    c ∉ [d].intercalate ws := by
  induction ws with
  | nil => simp
  | cons w ws ih =>
      have hw := h w List.mem_cons_self
      have ih := ih fun v hv => h v (List.mem_cons_of_mem _ hv)
      cases ws with
      | nil => simpa using hw
      | cons w' ws =>
          rw [List.intercalate_cons_cons, List.mem_append, List.mem_append, List.mem_singleton]
          rintro ((hc | hc) | hc)
          · exact hw hc
          · exact hd hc
          · exact ih hc

theorem map_text {α : Type} {text : α → MStr} {c : MChar} (h : ∀ a, c ∉ text a) (l : List α) :
    ∀ w ∈ l.map text, c ∉ w := by
  intro w hw
  obtain ⟨a, -, rfl⟩ := List.mem_map.1 hw
  exact h a

theorem blank_notMem_words (l : Line) : ∀ w ∈ l.words, blank ∉ w := by
  have hgvn := l.gvn.2
  have hentry := l.entryref.2
  have hcmds : blank ∉ [comma].intercalate (l.cmds.map Cmd.text) :=
    notMem_intercalate (by decide) (map_text (fun c => (cmd_text c).2.1) _)
  have hoptions : blank ∉ [comma].intercalate (l.options.map Opt.text) :=
    notMem_intercalate (by decide) (map_text (fun o => (opt_text o).2.1) _)
  have hsign : blank ∉ lit (if l.add then "+^" else "-^") := by
    cases l.add <;> decide
  have hpart : l.part.isSome = true → blank ∉ l.pieces ∧ blank ∉ l.delim := by
    unfold Line.pieces Line.delim
    cases l.part with
    | none => exact fun h => absurd h (by decide)
    | some part =>
        refine fun _ => ⟨?_, ?_⟩
        · exact fun h => (List.mem_append.1 h).elim (by decide) part.1.2
        · exact fun h => (List.mem_append.1 h).elim (by decide) part.2.2
  intro w hw hb
  unfold Line.words at hw
  simp only [List.mem_append, List.mem_cons, List.not_mem_nil, or_false] at hw
  rcases hw with (((rfl | rfl) | hw) | (rfl | rfl)) | hw
  · exact (List.mem_append.1 hb).elim hsign hgvn
  · exact (List.mem_append.1 hb).elim (by decide) hcmds
  · split at hw
    · rename_i hsome
      simp only [List.mem_cons, List.not_mem_nil, or_false] at hw
      rcases hw with rfl | rfl
      · exact (hpart hsome).1 hb
      · exact (hpart hsome).2 hb
    · cases hw
  · exact absurd hb (by decide)
  · exact (List.mem_append.1 hb).elim hentry (by decide)
  · split at hw
    · cases hw
    · obtain rfl := List.mem_singleton.1 hw
      exact (List.mem_append.1 hb).elim (by decide) hoptions

theorem words_ne_nil (l : Line) : l.words ≠ [] := by
  simp [Line.words]

/-- A blank-delimited piece of a line's text. -/
theorem piece_text (l : Line) (k : Nat) : piece blank l.text (k + 1) = l.words.getD k [] :=
  piece_intercalate (blank_notMem_words l) (words_ne_nil l) k

theorem first_word (l : Line) : extract (l.words.getD 0 []) 1 1 = lit (if l.add then "+" else "-") ∧
    extract (l.words.getD 0 []) 3 99 = l.gvn.1 := by
  have hword : l.words.getD 0 [] = lit (if l.add then "+^" else "-^") ++ l.gvn.1 := rfl
  have htake : l.gvn.1.take 97 = l.gvn.1 := List.take_of_length_le l.gvn_length
  rw [hword]
  cases l.add with
  | true => exact ⟨rfl, htake⟩
  | false => exact ⟨rfl, htake⟩

theorem commands_of_word (l : Line) : ((secondPieceStr (lit "-commands=") (l.words.getD 1 [])).splitOn
    comma).toFinset = (l.cmds.map Cmd.text).toFinset := by
  have hword : l.words.getD 1 [] =
      .chr 45 :: lit "commands=" ++ [comma].intercalate (l.cmds.map Cmd.text) := rfl
  have hlit : lit "-commands=" = .chr 45 :: lit "commands=" := rfl
  have hno : MChar.chr 45 ∉ [comma].intercalate (l.cmds.map Cmd.text) :=
    notMem_intercalate (by decide) (map_text (fun c => (cmd_text c).2.2) _)
  rw [hword, hlit, secondPieceStr_append hno, List.splitOn_intercalate comma
    (map_text (fun c => (cmd_text c).1) _) (by simpa using l.cmds_ne_nil)]

/-- The options, wherever the word stands. -/
theorem options_of_word {l : Line} {k : Nat} (hk : l.words.getD k [] = if l.options = [] then []
      else lit "-options=" ++ [comma].intercalate (l.options.map Opt.text)) :
    (if secondPieceStr (lit "-options=") (l.words.getD k []) ≠ [] then
      ((secondPieceStr (lit "-options=") (l.words.getD k [])).splitOn comma).toFinset else ∅) =
      (l.options.map Opt.text).toFinset := by
  rw [hk]
  by_cases ho : l.options = []
  · rw [if_pos ho, ho]
    rfl
  · have hlit : lit "-options=" = .chr 45 :: lit "options=" := rfl
    have hno : MChar.chr 45 ∉ [comma].intercalate (l.options.map Opt.text) :=
      notMem_intercalate (by decide) (map_text (fun o => (opt_text o).2.2.1) _)
    have hsplit := List.splitOn_intercalate comma
      (map_text (fun o => (opt_text o).1) l.options) (by simpa using ho)
    have hne : [comma].intercalate (l.options.map Opt.text) ≠ [] := by
      intro hnil
      rw [hnil, List.splitOn_nil] at hsplit
      obtain ⟨o, os, hos⟩ := List.exists_cons_of_ne_nil ho
      rw [hos, List.map_cons, List.cons.injEq] at hsplit
      exact (opt_text o).2.2.2 hsplit.1.symm
    rw [if_neg ho, hlit, secondPieceStr_append hno, if_pos hne, hsplit]

theorem twoPieces_text {l : Line} {k : Nat} (hk : k + 1 < l.words.length) :
    twoPieces l.text (k + 1) = l.words.getD k [] ++ blank :: l.words.getD (k + 1) [] := by
  unfold twoPieces Line.text
  rw [numPieces_intercalate (blank_notMem_words l) (words_ne_nil l), if_neg (by omega)]
  exact congrArg₂ (· ++ blank :: ·) (piece_text l k) (piece_text l (k + 1))

/-- **The code finds in a line's text what the line says.** -/
theorem parseLine_text (l : Line) : parseLine l.text = l.fields := by
  obtain ⟨hadd, hgvn⟩ := first_word l
  have hcmds := commands_of_word l
  have hsign : decide (lit (if l.add then "+" else "-") = lit "+") = l.add := by
    cases l.add <;> decide
  unfold parseLine
  simp only [piece_text l 0, piece_text l 1, piece_text l 2, piece_text l 3, hadd, hgvn, hcmds, hsign]
  cases hpart : l.part with
  | none =>
      have hwords : l.words.getD 2 [] = lit "-xecute=\"do" ∧
          l.words.getD 3 [] = l.entryref.1 ++ lit "\"" ∧
          l.words.getD 4 [] = (if l.options = [] then []
            else lit "-options=" ++ [comma].intercalate (l.options.map Opt.text)) ∧
          3 < l.words.length := by
        unfold Line.words
        rw [hpart]
        by_cases ho : l.options = [] <;> simp [ho]
      obtain ⟨h2, h3, h4, hlen⟩ := hwords
      have hno : piece (.chr 61) (lit "-xecute=\"do") 1 ≠ lit "-pieces" := by decide
      simp only [h2, hno, if_false, piece_text l 4, options_of_word h4]
      rw [twoPieces_text hlen, h2, h3]
      unfold Line.fields Line.pieces Line.delim
      rw [hpart]
      rfl
  | some part =>
      have hwords : l.words.getD 2 [] = lit "-pieces=" ++ part.1.1 ∧
          l.words.getD 3 [] = lit "-delim=" ++ part.2.1 ∧
          l.words.getD 4 [] = lit "-xecute=\"do" ∧
          l.words.getD 5 [] = l.entryref.1 ++ lit "\"" ∧
          l.words.getD 6 [] = (if l.options = [] then []
            else lit "-options=" ++ [comma].intercalate (l.options.map Opt.text)) ∧
          5 < l.words.length := by
        unfold Line.words Line.pieces Line.delim
        rw [hpart]
        by_cases ho : l.options = [] <;> simp [ho]
      obtain ⟨h2, h3, h4, h5, h6, hlen⟩ := hwords
      have hyes : piece (.chr 61) (lit "-pieces=" ++ part.1.1) 1 = lit "-pieces" :=
        beforeFirst_append (p := lit "-pieces") (by decide) part.1.1
      simp only [h2, h3, hyes, if_true, piece_text l 6, options_of_word h6]
      rw [twoPieces_text hlen, h4, h5]
      unfold Line.fields Line.pieces Line.delim
      rw [hpart]
      rfl

theorem Line.cmds_nonempty (l : Line) : l.fields.cmds.Nonempty := by
  obtain ⟨c, cs, hcs⟩ := List.exists_cons_of_ne_nil l.cmds_ne_nil
  exact ⟨c.text, List.mem_toFinset.2 (List.mem_map_of_mem (by simp [hcs]))⟩

end YottaTest.Triggers
