/-
  File:      YottaTest/Extfilter/Padding.lean
  Subject:   extfilterinflate.m and extfilterdeflate.m: the filters of a replication that make the
             value of a SET longer, and shorter again.

  Both read journal extract records line by line. A SET record with one `=` and one `="` in it has
  its value there; all others are echoed back. Strings have no greatest length here.

  * `middle`, `extfilterinflate`, `extfilterdeflate` -- the padding and the two programs, on one
    record; `filterLines` -- their loop over the lines of a stream;
  * `Sets` -- the records that are changed, with their two parts; `sets_of_modify`: the tests of
    the programs find them;
  * `deflate_inflate` -- one record; `filterLines_deflate_inflate` -- **a stream of records.**
-/
import YottaTest.M.Strings

namespace YottaTest.Extfilter

open YottaTest.Lib YottaTest.M

/-! ## 1. The two programs -/

def backslash : MChar := .chr 92
def equals : MChar := .chr 61
def quote : MChar := .chr 34
def dash : MChar := .chr 45

/-- `$C(10)`. -/
def EOL : MChar := .chr 10

/-- The record type of a SET. -/
def SET : MStr := [.chr 48, .chr 53]

/-- `"=""` before the value. -/
def delim : MStr := [equals, quote]

/-- `$translate($justify(" ",spaces)," ","-")`: one dash at least. -/
def middle (spaces : Int) : MStr := (justify [blank] spaces).map fun c => if c = blank then dash else c

/-- `$zpiece(s,d,first,last)`. -/
def zpiece (d s : MStr) (first last : Nat) : MStr :=
  d.intercalate (((splitStr d s).take last).drop (first - 1))

/-- The tests both programs make before they change a record. -/
def modify (extrRec : MStr) : Bool :=
  piece backslash extrRec 1 = SET ∧ (splitStr delim extrRec).length = 2 ∧ numPieces equals extrRec = 2

def extfilterinflate (spaces : Int) (extrRec : MStr) : MStr :=
  if modify extrRec then
    zpiece delim extrRec 1 1 ++ delim ++ middle spaces ++ zpiece delim extrRec 2 100
  else extrRec

def extfilterdeflate (spaces : Int) (extrRec : MStr) : MStr :=
  if modify extrRec then
    let piece1 := zpiece (delim ++ middle spaces) extrRec 1 1
    if piece1 = extrRec then extrRec
    else piece1 ++ delim ++ zpiece (delim ++ middle spaces) extrRec 2 100
  else extrRec

/-- `read extrRec` until `$zeof`. -/
def readLines (line : MStr) : MStr → List MStr
  | [] => []
  | c :: input => if c = EOL then line :: readLines [] input else readLines (line ++ [c]) input

/-- `write str,!` for every record. -/
def writeLines (lines : List MStr) : MStr := lines.flatMap fun line => line ++ [EOL]

/-- The loop of a filter. -/
def filterLines (filter : MStr → MStr) (input : MStr) : MStr :=
  writeLines ((readLines [] input).map filter)

/-! ## 2. The records that are changed -/

/-- A SET record: `p` before the value, and `q` after the quote the value begins with. -/
structure Sets (extrRec p q : MStr) : Prop where
  eq : extrRec = p ++ equals :: ([quote] ++ q)
  type : piece backslash p 1 = SET
  typed : backslash ∈ p
  before : equals ∉ p
  after : equals ∉ q

theorem quoted_after {q : MStr} (hq : equals ∉ q) : equals ∉ [quote] ++ q := by
  intro h
  rcases List.mem_cons.1 h with h | h
  · exact absurd h (by decide)
  · exact hq h

theorem zpiece_first {d s p q : MStr} (h : splitStr d s = [p, q]) : zpiece d s 1 1 = p := by
  rw [zpiece, h]
  exact List.intercalate_singleton

theorem zpiece_rest {d s p q : MStr} (h : splitStr d s = [p, q]) : zpiece d s 2 100 = q := by
  rw [zpiece, h]
  exact List.intercalate_singleton

namespace Sets

variable {extrRec p q : MStr}

theorem splitStr_delim (h : Sets extrRec p q) : splitStr delim extrRec = [p, q] := by
  rw [h.eq]
  exact splitStr_once h.before h.after

/-- Another value under the same node. -/
theorem value (h : Sets extrRec p q) {q' : MStr} (hq : equals ∉ q') :
    Sets (p ++ equals :: ([quote] ++ q')) p q' :=
  ⟨rfl, h.type, h.typed, h.before, hq⟩

theorem modify (h : Sets extrRec p q) : modify extrRec = true := by
  refine decide_eq_true ⟨?_, ?_, ?_⟩
  · rw [h.eq, ← h.type]
    exact beforeFirst_of_mem h.typed _
  · rw [h.splitStr_delim]
    rfl
  · rw [h.eq]
    exact numPieces_eq_two h.before (quoted_after h.after)

end Sets

/-- **The tests of the programs find the SET records with one value.** -/
theorem sets_of_modify {extrRec : MStr} (h : modify extrRec = true) : ∃ p q, Sets extrRec p q := by
  obtain ⟨htype, hdelim, hequals⟩ := of_decide_eq_true h
  obtain ⟨p, r, rfl, hp, hr⟩ := exists_of_numPieces_eq_two hequals
  have hquote : [quote] <+: r := by
    by_cases hpre : [quote] <+: r
    · exact hpre
    · rw [delim, splitStr_other hp hr hpre, List.length_singleton] at hdelim
      exact absurd hdelim (by decide)
  obtain ⟨q, rfl⟩ := hquote
  -- the record type ends before the value begins
  have htyped : backslash ∈ p := by
    by_cases hmem : backslash ∈ p
    · exact hmem
    · have hcut : piece backslash (p ++ equals :: ([quote] ++ q)) 1 =
          p ++ equals :: beforeFirst backslash ([quote] ++ q) := by
        show beforeFirst backslash _ = _
        unfold beforeFirst
        rw [List.takeWhile_append_of_pos, List.takeWhile_cons, if_pos (by decide)]
        intro c hc
        have hne : c ≠ backslash := fun he => hmem (he ▸ hc)
        simpa using hne
      rw [hcut] at htype
      have hin : equals ∈ SET := htype ▸ List.mem_append_right p List.mem_cons_self
      exact absurd hin (by decide)
  exact ⟨p, q, rfl, (beforeFirst_of_mem htyped _).symm.trans htype, htyped, hp,
    fun hq => hr (List.mem_append_right _ hq)⟩

/-! ## 3. The round trip -/

theorem eq_dash_of_mem_middle {spaces : Int} {c : MChar} (h : c ∈ middle spaces) : c = dash := by
  obtain ⟨b, hb, heq⟩ := List.mem_map.1 h
  have hblank : b = blank := by
    rcases List.mem_append.1 hb with hb | hb
    · exact List.eq_of_mem_replicate hb
    · exact List.mem_singleton.1 hb
  rw [if_pos hblank] at heq
  exact heq.symm

/-- The longer record has the padding in front of the old value. -/
theorem inflate_eq {extrRec p q : MStr} (h : Sets extrRec p q) (spaces : Int) :
    extfilterinflate spaces extrRec = p ++ equals :: ([quote] ++ (middle spaces ++ q)) := by
  rw [extfilterinflate, if_pos h.modify, zpiece_first h.splitStr_delim,
    zpiece_rest h.splitStr_delim]
  simp [delim]

/-- **Deflating an inflated record.** -/
theorem deflate_inflate (spaces : Int) (extrRec : MStr) :
    extfilterdeflate spaces (extfilterinflate spaces extrRec) = extrRec := by
  by_cases hmod : modify extrRec = true
  · obtain ⟨p, q, h⟩ := sets_of_modify hmod
    have hvalue : equals ∉ middle spaces ++ q := by
      intro hmem
      rcases List.mem_append.1 hmem with hmem | hmem
      · exact absurd (eq_dash_of_mem_middle hmem) (by decide)
      · exact h.after hmem
    have hsplit : splitStr (delim ++ middle spaces) (p ++ equals :: ([quote] ++ (middle spaces ++ q))) =
        [p, q] := by
      rw [← List.append_assoc]
      exact splitStr_once (d := [quote] ++ middle spaces) h.before h.after
    have hpiece1 : p ≠ p ++ equals :: ([quote] ++ (middle spaces ++ q)) := by
      intro heq
      have hlen := congrArg List.length heq
      rw [List.length_append, List.length_cons] at hlen
      omega
    rw [inflate_eq h, extfilterdeflate, if_pos (h.value hvalue).modify, zpiece_first hsplit,
      zpiece_rest hsplit, if_neg hpiece1, h.eq]
    simp [delim]
  · rw [extfilterinflate, if_neg hmod, extfilterdeflate, if_neg hmod]

/-- A value that begins like the padding. -/
example : extfilterinflate 2 (lit "05\\8\\^x=\"-a \"") = lit "05\\8\\^x=\"---a \"" ∧
    extfilterdeflate 2 (lit "05\\8\\^x=\"---a \"") = lit "05\\8\\^x=\"-a \"" := by decide

/-- A record has no end of line in it. -/
structure Record where
  line : MStr
  oneLine : EOL ∉ line

theorem readLines_append : ∀ {rest : MStr}, EOL ∉ rest → ∀ (line input : MStr),
    readLines line (rest ++ EOL :: input) = (line ++ rest) :: readLines [] input
  | [], _, line, input => by
      rw [List.nil_append, readLines, if_pos rfl, List.append_nil]
  | c :: rest, h, line, input => by
      have hc : c ≠ EOL := fun he => h (he ▸ List.mem_cons_self)
      rw [List.cons_append, readLines, if_neg hc,
        readLines_append (fun hr => h (List.mem_cons_of_mem c hr)) (line ++ [c]) input, List.append_assoc]
      rfl

/-- What was written line by line is read line by line. -/
theorem readLines_writeLines : ∀ {lines : List MStr}, (∀ line ∈ lines, EOL ∉ line) →
    readLines [] (writeLines lines) = lines
  | [], _ => rfl
  | line :: lines, h => by
      have ih := readLines_writeLines fun l hl => h l (List.mem_cons_of_mem line hl)
      have hread := readLines_append (h line List.mem_cons_self) [] (writeLines lines)
      rw [List.nil_append, ih] at hread
      have hwrite : writeLines (line :: lines) = line ++ EOL :: writeLines lines := by simp [writeLines]
      rw [hwrite, hread]

/-- A record made longer is still one line. -/
theorem oneLine_inflate (spaces : Int) {extrRec : MStr} (h : EOL ∉ extrRec) :
    EOL ∉ extfilterinflate spaces extrRec := by
  by_cases hmod : modify extrRec = true
  · obtain ⟨p, q, hsets⟩ := sets_of_modify hmod
    rw [hsets.eq] at h
    rw [inflate_eq hsets]
    intro hmem
    simp only [List.mem_append, List.mem_cons, List.not_mem_nil, or_false, not_or] at h hmem
    obtain ⟨hp, hequals, hquote, hq⟩ := h
    rcases hmem with hmem | hmem | hmem | hmem | hmem
    · exact hp hmem
    · exact hequals hmem
    · exact hquote hmem
    · exact absurd (eq_dash_of_mem_middle hmem) (by decide)
    · exact hq hmem
  · rw [extfilterinflate, if_neg hmod]
    exact h

/-- **Deflating an inflated stream gives the records back.** -/
theorem filterLines_deflate_inflate (spaces : Int) (records : List Record) :
    filterLines (extfilterdeflate spaces)
      (filterLines (extfilterinflate spaces) (writeLines (records.map Record.line))) =
    writeLines (records.map Record.line) := by
  have hlines : ∀ line ∈ records.map Record.line, EOL ∉ line := by
    intro line hline
    obtain ⟨record, -, rfl⟩ := List.mem_map.1 hline
    exact record.oneLine
  have hinflated : ∀ line ∈ (records.map Record.line).map (extfilterinflate spaces), EOL ∉ line := by
    intro line hline
    obtain ⟨extrRec, hrec, rfl⟩ := List.mem_map.1 hline
    exact oneLine_inflate spaces (hlines extrRec hrec)
  have hback : extfilterdeflate spaces ∘ extfilterinflate spaces = id :=
    funext fun extrRec => deflate_inflate spaces extrRec
  rw [filterLines, filterLines, readLines_writeLines hlines, readLines_writeLines hinflated, List.map_map,
    hback, List.map_id]

/-- A TSTART record, which stays as it is, and a SET record, whose value gets longer. -/
def twoRecords : List Record :=
  [⟨lit "08\\8\\9", by decide⟩, ⟨lit "05\\8\\^x=\"-a \"", by decide⟩]

theorem filterLines_deflate_inflate_two :
    filterLines (extfilterinflate 2) (writeLines (twoRecords.map Record.line)) =
      writeLines [lit "08\\8\\9", lit "05\\8\\^x=\"---a \""] ∧
    filterLines (extfilterdeflate 2)
      (filterLines (extfilterinflate 2) (writeLines (twoRecords.map Record.line))) =
      writeLines (twoRecords.map Record.line) :=
  ⟨by decide, filterLines_deflate_inflate 2 twoRecords⟩

end YottaTest.Extfilter
