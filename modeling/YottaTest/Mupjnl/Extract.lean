/-
  File:      YottaTest/Mupjnl/Extract.lean
  Subject:   extract.awk: the masks for tokens and stream sequence numbers in a journal extract.

  A record is a line whose fields stand between backslashes. Which rules fire is read off the line,
  and the place of a field depends on whether a line of the detailed format was seen. Tokens are
  numbered in the order in which they first appear.

  * `turn`, `run` -- the rules for one record, and all records;
  * `Kind`, `Record`, `Journal` -- the documented formats;
  * `field_gsubField` -- a number that fills its field is replaced by its mask;
  * `Record.field_token`, `Record.field_stream` -- where the fields of a record stand;
  * `Record.listed_line` -- **the rules find every record of a type that they list, in both formats**;
  * `isToken_maskPini` -- the mask on PINI records lets no rule for tokens find a line.
-/
import Mathlib.Logic.Function.Basic
import YottaTest.Awk.Patterns
import YottaTest.Lib.Digits
import YottaTest.Lib.Pieces

namespace YottaTest.Mupjnl.Extract

open YottaTest.Awk YottaTest.Lib

abbrev Text := List Char

/-! ## 1. The script -/

/-- The variables given with `-v`. -/
structure Options where
  strm_seqno_zero : Text
  vms : Bool

/-- The variables that are carried from record to record. A token without a number has 0. -/
structure State where
  detail_field_offset : Nat
  tokenseqtotal : Nat
  token_seq : Text → Nat
  last_token_seq_no : Text

def initial : State where
  detail_field_offset := 0
  tokenseqtotal := 0
  token_seq _ := 0
  last_token_seq_no := []

/-- `BEGIN` -/
def Options.begin (o : Options) : Options :=
  if o.strm_seqno_zero = [] then { o with strm_seqno_zero := "TRUE".toList } else o

/-- The line starts with the characters of `w`, where a dot stands for any character. -/
def startsAs : Text → Text → Bool
  | [], _ => true
  | _ :: _, [] => false
  | p :: w, c :: s => (p = '.' || p = c) && startsAs w s

/-- `/w/`, for characters and dots. -/
def has (w : Text) : Text → Bool
  | [] => startsAs w []
  | c :: s => startsAs w (c :: s) || has w s

def isPini (line : Text) : Bool := startsAs ['0', '1'] line || has " PINI ".toList line

def isZtstart (line : Text) : Bool := startsAs ['0', '6'] line || has " ZTSTART".toList line

def isZtcom (line : Text) : Bool := startsAs ['0', '7'] line || has " ZTCOM ".toList line

def isKill (line : Text) : Bool :=
  startsAs ['0', '4'] line || has " KILL ".toList line || has " .KILL ".toList line

def isSet (line : Text) : Bool :=
  startsAs ['0', '5'] line || has " SET ".toList line || has " .SET ".toList line

def isTstart (line : Text) : Bool := startsAs ['0', '8'] line || has " TSTART ".toList line

def isTcom (line : Text) : Bool := startsAs ['0', '9'] line || has " TCOM ".toList line

def isZkill (line : Text) : Bool :=
  startsAs ['1', '0'] line || has " ZKILL ".toList line || has " .ZKILL ".toList line

/-- The rule that looks for a stream sequence number too. -/
def isTokenseq (line : Text) : Bool :=
  isKill line || isSet line || isTstart line || isTcom line || isZkill line

/-- One of the rules for tokens. -/
def isToken (line : Text) : Bool := (isZtstart line || isZtcom line) || isTokenseq line

/-- `$k` -/
def field (line : Text) (k : Nat) : Text := piece '\\' line k

/-- `$k = value`, the record after it. -/
def setField (line : Text) (k : Nat) (value : Text) : Text := setPiece '\\' line k value

/-- `gsub("^"linestr"$",mask,$k)`, the record after it. -/
def gsubField (line : Text) (k : Nat) (linestr mask : Text) : Text :=
  setField line k (gsubText (anchored linestr) mask (field line k))

/-- `token_seq[linestr]=++tokenseqtotal` -/
def State.number (s : State) (linestr : Text) : State :=
  { s with
    tokenseqtotal := s.tokenseqtotal + 1
    token_seq := Function.update s.token_seq linestr (s.tokenseqtotal + 1) }

def tokenMask (n : Nat) : Text := "#TOKENSEQ".toList ++ Nat.toDigits 10 n ++ ['#']

def strmMask : Text := "#STRMSEQNO#".toList

def unexpectedMask : Text := "#UNEXPECTED_STRMSEQNO#".toList

/-- The token is looked up, and numbered if it is new. -/
def State.lookUp (s : State) (linestr : Text) : State :=
  let s := if s.tokenseqtotal = 0 then s.number linestr else s
  if s.token_seq linestr ≠ 0 then s else s.number linestr

/-- The mask for the token. -/
def maskToken (s : State) (line : Text) : Text × State :=
  let token_seq_field := 6 + s.detail_field_offset
  let linestr := field line token_seq_field
  let s := { s.lookUp linestr with last_token_seq_no := linestr }
  if linestr ≠ ['0'] then (gsubField line token_seq_field linestr (tokenMask (s.token_seq linestr)), s)
  else (line, s)

/-- The mask for the stream sequence number. The number 0 is compared as a text. -/
def maskStream (o : Options) (s : State) (line : Text) : Text :=
  let strm_seq_field := 8 + s.detail_field_offset
  let linestr := field line strm_seq_field
  let to_check := if o.strm_seqno_zero = "TRUE".toList then ['0'] else s.last_token_seq_no
  let strm_mask := if to_check = linestr then strmMask else unexpectedMask
  if o.vms then line else gsubField line strm_seq_field linestr strm_mask

/-- What is counted on PINI records and masked on VMS. -/
def maskPini (o : Options) (s : State) (line : Text) : Text :=
  if isPini line && o.vms then setField line (10 + s.detail_field_offset) "#IMAGECNT#".toList else line

/-- The rules for one record, up to the mask for the stream sequence number. -/
def turn (o : Options) (s : State) (line : Text) : Text × State :=
  let s := if has " :: ".toList line then { s with detail_field_offset := 1 } else s
  let line := maskPini o s line
  -- the rules below read the record before it is masked
  let token_seq_no_seen := isToken line
  let strm_seq_no_seen := isTokenseq line
  let r := if token_seq_no_seen then maskToken s line else (line, s)
  (if strm_seq_no_seen then maskStream o r.2 r.1 else r.1, r.2)

/-- All records, from the front. -/
def runFrom (o : Options) (s : State) : List Text → List Text
  | [] => []
  | line :: lines => (turn o s line).1 :: runFrom o (turn o s line).2 lines

def run (o : Options) (lines : List Text) : List Text := runFrom o.begin initial lines

/-! ## 2. The formats -/

/-- The types of records with a token. -/
inductive Kind where
  | kill
  | set
  | ztstart
  | ztcom
  | tstart
  | tcom
  | zkill
  | ztworm
  | ztrig
  | lgtrig
  deriving DecidableEq, Repr

/-- The first field of a plain record. -/
def Kind.code : Kind → Text
  | kill => ['0', '4']
  | set => ['0', '5']
  | ztstart => ['0', '6']
  | ztcom => ['0', '7']
  | tstart => ['0', '8']
  | tcom => ['0', '9']
  | zkill => ['1', '0']
  | ztworm => ['1', '1']
  | ztrig => ['1', '2']
  | lgtrig => ['1', '3']

/-- The name of the type in a detailed record. -/
def Kind.label : Kind → Text
  | kill => "KILL".toList
  | set => "SET".toList
  | ztstart => "ZTSTART".toList
  | ztcom => "ZTCOM".toList
  | tstart => "TSTART".toList
  | tcom => "TCOM".toList
  | zkill => "ZKILL".toList
  | ztworm => "ZTWORM".toList
  | ztrig => "ZTRIG".toList
  | lgtrig => "LGTRIG".toList

/-- All but ZTSTART and ZTCOM have a stream sequence number. -/
def Kind.hasStream : Kind → Bool
  | ztstart | ztcom => false
  | _ => true

/-- An update, whose name may have a letter in front for its place in a transaction. -/
def Kind.isUpdate : Kind → Bool
  | kill | set | zkill | ztworm | ztrig | lgtrig => true
  | _ => false

/-- The types that the rules list. -/
def Kind.listed : Kind → Bool
  | ztworm | ztrig | lgtrig => false
  | _ => true

/-- The characters of a token or a sequence number. -/
def IsNumber (t : Text) : Prop := t ≠ [] ∧ ∀ c ∈ t, c.isDigit = true

/-- What stands in front of the type in a detailed record: `0x00010060 [0x0048] ::`, or blanks only
at the first update of a transaction. -/
inductive Place where
  | shown (place : Text)
  | blanks (n : Nat)

/-- The place, up to the blank in front of the type. -/
def Place.text : Place → Text
  | .shown place => place ++ " ::".toList
  | .blanks n => List.replicate n ' '

/-- A record with a token. -/
structure Record where
  kind : Kind
  place : Place
  /-- the letter in front of the type -/
  variant : Option Char
  variant_update : variant ≠ none → kind.isUpdate = true
  time : Text
  tnum : Text
  chksum : Text
  pid : Text
  clntpid : Text
  token : Text
  strm_num : Text
  strm_seq : Text
  /-- the fields behind these; a backslash in a value starts a new one -/
  more : List Text
  token_number : IsNumber token
  strm_seq_number : IsNumber strm_seq
  no_separator : ∀ w ∈ [place.text, variant.toList, time, tnum, chksum, pid, clntpid, strm_num] ++ more, '\\' ∉ w

/-- The type in a detailed record, filled up to seven characters. -/
def Record.title (r : Record) : Text :=
  let name := r.variant.toList ++ r.kind.label
  name ++ List.replicate (7 - name.length) ' '

/-- The fields in front of the token. -/
def Record.lead (detailed : Bool) (r : Record) : List Text :=
  if detailed then [r.place.text ++ ' ' :: r.title, r.time, r.tnum, r.chksum, r.pid, r.clntpid]
  else [r.kind.code, r.time, r.tnum, r.pid, r.clntpid]

/-- The fields behind the token. -/
def Record.trail (r : Record) : List Text :=
  if r.kind.hasStream then r.strm_num :: r.strm_seq :: r.more else r.more

def Record.line (detailed : Bool) (r : Record) : Text :=
  ['\\'].intercalate (r.lead detailed ++ r.token :: r.trail)

/-- A line of an extract: a record with a token, or a line that none of the rules for tokens reads. -/
inductive Entry where
  | record (r : Record)
  | other (line : Text) (h : isToken line = false)

def Entry.line (detailed : Bool) : Entry → Text
  | .record r => r.line detailed
  | .other line _ => line

/-- A journal extract, in one of the two formats. -/
structure Journal where
  detailed : Bool
  entries : List Entry

def Journal.lines (x : Journal) : List Text := x.entries.map (Entry.line x.detailed)

/-- What the rules make of the lines. -/
def Journal.masked (o : Options) (x : Journal) : List (Entry × Text) := x.entries.zip (run o x.lines)

/-- The place of the token in a format, and that of the stream sequence number. -/
def tokenPlace (detailed : Bool) : Nat := if detailed then 7 else 6

def streamPlace (detailed : Bool) : Nat := if detailed then 9 else 8

/-! ## 3. Fields -/

/-- Text that stands for itself in a replacement, and stays in one field. -/
def Neutral (mask : Text) : Prop := ∀ c ∈ mask, c ≠ '&' ∧ c ≠ '\\'

theorem neutral_strmMask : Neutral strmMask := forall_mem_of_all (by decide)

theorem neutral_unexpectedMask : Neutral unexpectedMask := forall_mem_of_all (by decide)

theorem neutral_tokenMask (n : Nat) : Neutral (tokenMask n) := by
  have hname : Neutral "#TOKENSEQ".toList := forall_mem_of_all (by decide)
  intro c hc
  unfold tokenMask at hc
  rcases List.mem_append.1 hc with hc | hc
  · rcases List.mem_append.1 hc with hc | hc
    · exact hname c hc
    · exact ⟨fun h => notMem_toDigits (by decide) n (h ▸ hc), fun h => notMem_toDigits (by decide) n (h ▸ hc)⟩
  · rw [List.mem_singleton.1 hc]
    decide

theorem IsNumber.notMem {w : Text} (h : IsNumber w) {c : Char} (hc : c.isDigit = false) : c ∉ w := by
  intro hin
  rw [h.2 c hin] at hc
  cases hc

theorem IsNumber.no_metachars {w : Text} (h : IsNumber w) : ∀ c ∈ w, c ∉ metachars := by
  intro c hc hmeta
  have hnone : (metachars.all fun d => !d.isDigit) = true := by decide
  have hd := List.all_eq_true.1 hnone c hmeta
  rw [h.2 c hc] at hd
  cases hd

/-- A number that fills its field is replaced by the mask. -/
theorem gsubText_number {w mask : Text} (h : IsNumber w) (hm : Neutral mask) :
    gsubText (anchored w) mask w = mask := by
  unfold gsubText
  rw [ere_anchored h.no_metachars]
  dsimp only
  rw [gsub_anchored h.1, expand_of_plain hm]

theorem field_gsubField {line w mask : Text} {k : Nat} (hk : 0 < k) (hw : field line k = w)
    (h : IsNumber w) (hm : Neutral mask) : field (gsubField line k w mask) k = mask := by
  unfold gsubField
  rw [hw, gsubText_number h hm]
  exact piece_setPiece (fun hin => (hm _ hin).2 rfl) k line hk

theorem field_gsubField_of_ne {line w mask : Text} {j k : Nat} (hjk : j ≠ k) (hw : field line k = w)
    (h : IsNumber w) (hm : Neutral mask) : field (gsubField line k w mask) j = field line j := by
  unfold gsubField
  rw [hw, gsubText_number h hm]
  exact piece_setPiece_of_ne (fun hin => (hm _ hin).2 rfl) line hjk

/-! ## 4. Lines of records -/

theorem length_lead (detailed : Bool) (r : Record) : (r.lead detailed).length + 1 = tokenPlace detailed := by
  cases detailed with
  | false => rfl
  | true => rfl

theorem streamPlace_eq (detailed : Bool) : streamPlace detailed = tokenPlace detailed + 2 := by
  cases detailed with
  | false => rfl
  | true => rfl

theorem Kind.code_no_separator (k : Kind) : '\\' ∉ k.code := by
  cases k <;> decide

theorem Kind.label_no_separator (k : Kind) : '\\' ∉ k.label := by
  cases k <;> decide

theorem Record.title_no_separator (r : Record) : '\\' ∉ r.title := by
  have hv : '\\' ∉ r.variant.toList := r.no_separator _ (by simp)
  intro h
  unfold title at h
  rcases List.mem_append.1 h with h | h
  · rcases List.mem_append.1 h with h | h
    · exact hv h
    · exact r.kind.label_no_separator h
  · cases List.eq_of_mem_replicate h

/-- The fields of a line are those of its record. -/
theorem Record.fields_no_separator (detailed : Bool) (r : Record) :
    ∀ w ∈ r.lead detailed ++ r.token :: r.trail, '\\' ∉ w := by
  have hplace : '\\' ∉ r.place.text ++ ' ' :: r.title := by
    intro h
    rcases List.mem_append.1 h with h | h
    · exact r.no_separator _ (by simp) h
    · exact r.title_no_separator (List.mem_of_ne_of_mem (by decide) h)
  have hlead : ∀ w ∈ r.lead detailed, '\\' ∉ w := by
    intro w hw
    cases detailed with
    | false =>
        rcases List.mem_cons.1 hw with rfl | hw
        · exact r.kind.code_no_separator
        · refine r.no_separator w (List.mem_append_left _ ?_)
          simp only [List.mem_cons, List.not_mem_nil, or_false] at hw ⊢
          tauto
    | true =>
        rcases List.mem_cons.1 hw with rfl | hw
        · exact hplace
        · refine r.no_separator w (List.mem_append_left _ ?_)
          simp only [List.mem_cons, List.not_mem_nil, or_false] at hw ⊢
          tauto
  have htrail : ∀ w ∈ r.trail, '\\' ∉ w := by
    intro w hw
    unfold trail at hw
    split at hw
    · rcases List.mem_cons.1 hw with rfl | hw
      · exact r.no_separator _ (by simp)
      · rcases List.mem_cons.1 hw with rfl | hw
        · exact r.strm_seq_number.notMem (by decide)
        · exact r.no_separator w (List.mem_append_right _ hw)
    · exact r.no_separator w (List.mem_append_right _ hw)
  intro w hw
  rcases List.mem_append.1 hw with hw | hw
  · exact hlead w hw
  · rcases List.mem_cons.1 hw with rfl | hw
    · exact r.token_number.notMem (by decide)
    · exact htrail w hw

theorem Record.field_line (detailed : Bool) (r : Record) (k : Nat) : field (r.line detailed) (k + 1) =
    (r.lead detailed ++ r.token :: r.trail).getD k [] :=
  piece_intercalate (r.fields_no_separator detailed) (by simp) k

theorem Record.field_token (detailed : Bool) (r : Record) :
    field (r.line detailed) (tokenPlace detailed) = r.token := by
  rw [← length_lead detailed r, field_line]
  simp [List.getD]

theorem Record.field_stream (detailed : Bool) (r : Record) (h : r.kind.hasStream = true) :
    field (r.line detailed) (streamPlace detailed) = r.strm_seq := by
  have hplace : streamPlace detailed = (r.lead detailed).length + 2 + 1 := by
    rw [streamPlace_eq, ← length_lead detailed r]
  rw [hplace, field_line]
  simp [List.getD, trail, h]

/-- A word is found wherever it stands. -/
theorem has_append {w : Text} {s : Text} (h : startsAs w s = true) : ∀ pre : Text, has w (pre ++ s) = true
  | [] => by
      cases s with
      | nil => exact h
      | cons c s =>
          rw [List.nil_append, has, h]
          rfl
  | c :: pre => by
      rw [List.cons_append, has, has_append h pre, Bool.or_true]

/-- A line is its first field, and what follows the first backslash. -/
theorem Record.line_head (detailed : Bool) (r : Record) : ∃ rest, r.line detailed =
    (if detailed then r.place.text ++ ' ' :: r.title else r.kind.code) ++ '\\' :: rest := by
  cases detailed with
  | false => exact ⟨_, by
      unfold line lead
      rw [if_neg (by decide), if_neg (by decide), List.cons_append, List.cons_append,
        List.intercalate_cons_cons, List.append_assoc, List.singleton_append]⟩
  | true => exact ⟨_, by
      unfold line lead
      rw [if_pos rfl, if_pos rfl, List.cons_append, List.cons_append, List.intercalate_cons_cons,
        List.append_assoc, List.singleton_append]⟩

/-- The rules find the types they list by the code. -/
theorem listed_plain {k : Kind} (h : k.listed = true) (rest : Text) :
    isToken (k.code ++ rest) = true ∧ (k.hasStream = true → isTokenseq (k.code ++ rest) = true) := by
  cases k with
  | ztworm => cases h
  | ztrig => cases h
  | lgtrig => cases h
  | _ => simp [Kind.code, Kind.hasStream, isToken, isTokenseq, isKill, isSet, isTstart, isTcom, isZkill,
      isZtstart, isZtcom, startsAs]

/-- The word by which a rule finds a detailed record. -/
def Kind.ruleWord : Kind → Bool → Text
  | kill, false => " KILL ".toList
  | kill, true => " .KILL ".toList
  | set, false => " SET ".toList
  | set, true => " .SET ".toList
  | zkill, false => " ZKILL ".toList
  | zkill, true => " .ZKILL ".toList
  | ztstart, _ => " ZTSTART".toList
  | ztcom, _ => " ZTCOM ".toList
  | tstart, _ => " TSTART ".toList
  | tcom, _ => " TCOM ".toList
  | _, _ => []

/-- A title of seven characters at most is followed by blanks. -/
theorem Record.startsAs_title (r : Record) (h : r.kind.listed = true) (rest : Text) :
    startsAs (r.kind.ruleWord r.variant.isSome) (' ' :: (r.title ++ rest)) = true := by
  have hv := r.variant_update
  unfold title
  generalize r.kind = k at h hv ⊢
  generalize r.variant = v at hv ⊢
  cases v with
  | none =>
      cases k with
      | ztworm => cases h
      | ztrig => cases h
      | lgtrig => cases h
      | _ => rfl
  | some c =>
      have hup := hv (Option.some_ne_none c)
      cases k with
      | kill => rfl
      | set => rfl
      | zkill => rfl
      | ztworm => cases h
      | ztrig => cases h
      | lgtrig => cases h
      | _ => cases hup

theorem isToken_of_isTokenseq {line : Text} (h : isTokenseq line = true) : isToken line = true := by
  unfold isToken
  rw [h, Bool.or_true]

theorem isToken_of_ruleWord {k : Kind} (h : k.listed = true) {v : Bool} {line : Text}
    (hw : has (k.ruleWord v) line = true) :
    isToken line = true ∧ (k.hasStream = true → isTokenseq line = true) := by
  cases k with
  | ztworm => cases h
  | ztrig => cases h
  | lgtrig => cases h
  | ztstart =>
      have hzt : isZtstart line = true := by
        unfold isZtstart
        rw [show has " ZTSTART".toList line = true from hw, Bool.or_true]
      refine ⟨?_, fun hs => by cases hs⟩
      unfold isToken
      rw [hzt, Bool.true_or, Bool.true_or]
  | ztcom =>
      have hzt : isZtcom line = true := by
        unfold isZtcom
        rw [show has " ZTCOM ".toList line = true from hw, Bool.or_true]
      refine ⟨?_, fun hs => by cases hs⟩
      unfold isToken
      rw [hzt, Bool.or_true, Bool.true_or]
  | tstart =>
      have hseq : isTokenseq line = true := by
        unfold isTokenseq isTstart
        rw [show has " TSTART ".toList line = true from hw]
        simp only [Bool.or_true, Bool.true_or]
      exact ⟨isToken_of_isTokenseq hseq, fun _ => hseq⟩
  | tcom =>
      have hseq : isTokenseq line = true := by
        unfold isTokenseq isTcom
        rw [show has " TCOM ".toList line = true from hw]
        simp only [Bool.or_true, Bool.true_or]
      exact ⟨isToken_of_isTokenseq hseq, fun _ => hseq⟩
  | kill =>
      have hseq : isTokenseq line = true := by
        unfold isTokenseq isKill
        cases v with
        | false =>
            rw [show has " KILL ".toList line = true from hw]
            simp only [Bool.or_true, Bool.true_or]
        | true =>
            rw [show has " .KILL ".toList line = true from hw]
            simp only [Bool.or_true, Bool.true_or]
      exact ⟨isToken_of_isTokenseq hseq, fun _ => hseq⟩
  | set =>
      have hseq : isTokenseq line = true := by
        unfold isTokenseq isSet
        cases v with
        | false =>
            rw [show has " SET ".toList line = true from hw]
            simp only [Bool.or_true, Bool.true_or]
        | true =>
            rw [show has " .SET ".toList line = true from hw]
            simp only [Bool.or_true, Bool.true_or]
      exact ⟨isToken_of_isTokenseq hseq, fun _ => hseq⟩
  | zkill =>
      have hseq : isTokenseq line = true := by
        unfold isTokenseq isZkill
        cases v with
        | false =>
            rw [show has " ZKILL ".toList line = true from hw]
            simp only [Bool.or_true, Bool.true_or]
        | true =>
            rw [show has " .ZKILL ".toList line = true from hw]
            simp only [Bool.or_true]
      exact ⟨isToken_of_isTokenseq hseq, fun _ => hseq⟩

/-- The first field of a record is enough for the rules. -/
theorem Record.listed_head (r : Record) (h : r.kind.listed = true) (detailed : Bool) (rest : Text) :
    isToken ((if detailed then r.place.text ++ ' ' :: r.title else r.kind.code) ++ rest) = true ∧
      (r.kind.hasStream = true →
        isTokenseq ((if detailed then r.place.text ++ ' ' :: r.title else r.kind.code) ++ rest) = true) := by
  cases detailed with
  | false => exact listed_plain h rest
  | true =>
      rw [if_pos rfl, List.append_assoc, List.cons_append]
      exact isToken_of_ruleWord h (has_append (r.startsAs_title h rest) _)

/-- **The rules find every record of a type they list**, in both formats, and also when a field behind
the first one was replaced. -/
theorem Record.listed_line (r : Record) (h : r.kind.listed = true) (detailed : Bool) {line : Text}
    (hline : line = r.line detailed ∨ ∃ k mask, line = setField (r.line detailed) (k + 2) mask) :
    isToken line = true ∧ (r.kind.hasStream = true → isTokenseq line = true) := by
  obtain ⟨rest, hrest⟩ := r.line_head detailed
  rcases hline with rfl | ⟨k, mask, rfl⟩
  · rw [hrest]
    exact r.listed_head h detailed _
  · have hfirst : '\\' ∉ if detailed then r.place.text ++ ' ' :: r.title else r.kind.code := by
      cases detailed with
      | false => exact r.kind.code_no_separator
      | true => exact r.fields_no_separator true _ List.mem_cons_self
    unfold setField
    rw [hrest, setPiece_append hfirst]
    exact r.listed_head h detailed _

/-- A place that is shown has the colons. -/
theorem Record.has_colons {r : Record} {place : Text} (h : r.place = .shown place) :
    has " :: ".toList (r.line true) = true := by
  obtain ⟨rest, hline⟩ := r.line_head true
  have hstart : startsAs " :: ".toList (" ::".toList ++ (' ' :: (r.title ++ '\\' :: rest))) = true := rfl
  rw [hline, if_pos rfl, h, Place.text, List.append_assoc, List.append_assoc, List.cons_append]
  exact has_append hstart _

/-! ## 5. The mask on PINI records -/

/-- No end of a word reads `x` and, if it goes on, `y` behind it. -/
def avoids (x y : Char) : Text → Bool
  | [] => true
  | p :: w => !startsAs ((p :: w).take 2) [x, y] && avoids x y w

theorem startsAs_take_two {x y : Char} {rest : Text} {p : Char} {w : Text}
    (h : startsAs (p :: w) (x :: y :: rest) = true) : startsAs ((p :: w).take 2) [x, y] = true := by
  cases w with
  | nil => exact h
  | cons q w =>
      simp only [startsAs, Bool.and_eq_true] at h
      simp only [List.take_succ_cons, List.take_zero, startsAs, Bool.and_eq_true]
      exact ⟨h.1, h.2.1, trivial⟩

/-- A word at the front of a text ends before two characters that it avoids. -/
theorem startsAs_of_avoids {x y : Char} {rest : Text} : ∀ {w pre : Text}, avoids x y w = true →
    startsAs w (pre ++ x :: y :: rest) = true → startsAs w pre = true
  | [], _, _, _ => by rw [startsAs]
  | p :: w, [], hw, h => by
      rw [avoids, Bool.and_eq_true, startsAs_take_two h] at hw
      exact absurd hw.1 (by decide)
  | p :: w, c :: pre, hw, h => by
      rw [avoids, Bool.and_eq_true] at hw
      rw [List.cons_append, startsAs, Bool.and_eq_true] at h
      rw [startsAs, Bool.and_eq_true]
      exact ⟨h.1, startsAs_of_avoids hw.2 h.2⟩

theorem startsAs_append {w pre : Text} (h : startsAs w pre = true) (s : Text) :
    startsAs w (pre ++ s) = true := by
  induction w generalizing pre with
  | nil => rw [startsAs]
  | cons p w ih =>
      cases pre with
      | nil => cases h
      | cons c pre =>
          rw [startsAs, Bool.and_eq_true] at h
          rw [List.cons_append, startsAs, Bool.and_eq_true]
          exact ⟨h.1, ih h.2⟩

theorem has_append_right {w : Text} (s : Text) : ∀ {pre : Text}, has w pre = true → has w (pre ++ s) = true
  | [], h => has_append (startsAs_append (show startsAs w [] = true from h) s) []
  | c :: pre, h => by
      rw [has, Bool.or_eq_true] at h
      rw [List.cons_append, has, Bool.or_eq_true]
      exact h.imp (fun h => startsAs_append h s) (has_append_right s)

theorem has_append_left {w s : Text} (h : has w s = true) : ∀ pre : Text, has w (pre ++ s) = true
  | [] => h
  | c :: pre => by
      rw [List.cons_append, has, has_append_left h pre, Bool.or_true]

/-- A word that begins with a blank does not begin in a text without one. -/
theorem has_of_blankless {w s : Text} : ∀ {v : Text}, ' ' ∉ v → has (' ' :: w) (v ++ s) = true →
    has (' ' :: w) s = true
  | [], _, h => h
  | c :: v, hv, h => by
      have hc : ' ' ≠ c := fun he => hv (he ▸ List.mem_cons_self)
      rw [List.cons_append, has, Bool.or_eq_true, startsAs] at h
      simp only [hc, decide_false, Bool.or_false, Bool.and_eq_true, decide_eq_true_eq] at h
      rcases h with ⟨hdot, -⟩ | h
      · exact absurd hdot (by decide)
      · exact has_of_blankless (fun hin => hv (List.mem_cons_of_mem c hin)) h

/-- **A word stands in front of a blankless text, or behind it**, if it avoids how that text begins. -/
theorem has_cut {w v s : Text} {x y : Char} (hw : avoids x y (' ' :: w) = true) (hv : ' ' ∉ x :: y :: v) :
    ∀ {pre : Text}, has (' ' :: w) (pre ++ x :: y :: (v ++ s)) = true →
      has (' ' :: w) pre = true ∨ has (' ' :: w) s = true
  | [], h => Or.inr (has_of_blankless (v := x :: y :: v) hv h)
  | c :: pre, h => by
      rw [List.cons_append, has, Bool.or_eq_true] at h
      rw [has, Bool.or_eq_true]
      rcases h with h | h
      · have hpre : startsAs (' ' :: w) (c :: pre) = true := startsAs_of_avoids hw h
        exact Or.inl (Or.inl hpre)
      · exact (has_cut hw hv h).imp Or.inr id

/-- The mask that stands in a field behind the first. -/
theorem setField_image (line : Text) (k : Nat) : ∃ pre post : Text, ∃ y v,
    (y = '#' ∨ y = '\\') ∧ ' ' ∉ '\\' :: y :: v ∧
    setField line (k + 2) "#IMAGECNT#".toList = pre ++ '\\' :: y :: (v ++ post) ∧
    ((∃ old, line = pre ++ old ++ post) ∨ line = pre ∧ post = []) := by
  obtain ⟨pre, post, hset, hcut⟩ := setPiece_split '\\' "#IMAGECNT#".toList k line
  rcases hcut with ⟨old, hold⟩ | ⟨m, rfl, rfl⟩
  · refine ⟨pre, post, '#', "IMAGECNT#".toList, Or.inl rfl, by decide, hset, Or.inl ⟨'\\' :: old, ?_⟩⟩
    rw [hold, List.append_assoc, List.cons_append]
  · cases m with
    | zero =>
        refine ⟨line, [], '#', "IMAGECNT#".toList, Or.inl rfl, by decide, ?_, Or.inr ⟨rfl, rfl⟩⟩
        rw [List.replicate_zero, List.append_nil] at hset
        exact hset
    | succ m =>
        -- the fields in between are empty
        refine ⟨line, [], '\\', List.replicate m '\\' ++ "#IMAGECNT#".toList, Or.inr rfl, ?_, ?_,
          Or.inr ⟨rfl, rfl⟩⟩
        · simp [List.mem_replicate]
        · have hrep : List.replicate (m + 1) '\\' ++ ['\\'] = '\\' :: '\\' :: List.replicate m '\\' := by
            rw [← List.replicate_succ', List.replicate_succ, List.replicate_succ]
          unfold setField
          rw [hset, List.append_assoc, List.append_nil, List.append_nil]
          refine congrArg (line ++ ·) ?_
          rw [← List.singleton_append, ← List.append_assoc, hrep]
          rfl

/-- The codes and the words by which the rules for tokens find a line. -/
def ruleCodes : List Text :=
  [['0', '6'], ['0', '7'], ['0', '4'], ['0', '5'], ['0', '8'], ['0', '9'], ['1', '0']]

def ruleWords : List Text :=
  ["ZTSTART".toList, "ZTCOM ".toList, "KILL ".toList, ".KILL ".toList, "SET ".toList, ".SET ".toList,
    "TSTART ".toList, "TCOM ".toList, "ZKILL ".toList, ".ZKILL ".toList]

theorem isToken_iff (line : Text) : isToken line = true ↔
    (∃ w ∈ ruleCodes, startsAs w line = true) ∨ ∃ w ∈ ruleWords, has (' ' :: w) line = true := by
  unfold isToken isTokenseq isZtstart isZtcom isKill isSet isTstart isTcom isZkill ruleCodes ruleWords
  simp only [Bool.or_eq_true, List.mem_cons, List.not_mem_nil, or_false, exists_eq_or_imp, exists_eq_left]
  simp only [String.toList]
  tauto

/-- **The mask lets no rule for tokens find a line.** -/
theorem isToken_setField {line : Text} {k : Nat}
    (h : isToken (setField line (k + 2) "#IMAGECNT#".toList) = true) : isToken line = true := by
  have hcodes : ∀ w ∈ ruleCodes, avoids '\\' '#' w = true ∧ avoids '\\' '\\' w = true := by decide
  have hwords : ∀ w ∈ ruleWords, avoids '\\' '#' (' ' :: w) = true ∧ avoids '\\' '\\' (' ' :: w) = true := by
    decide
  obtain ⟨pre, post, y, v, hy, hv, hset, hline⟩ := setField_image line k
  rw [hset] at h
  rw [isToken_iff] at h ⊢
  rcases h with ⟨w, hw, h⟩ | ⟨w, hw, h⟩
  · have havoids : avoids '\\' y w = true := by
      rcases hy with rfl | rfl
      · exact (hcodes w hw).1
      · exact (hcodes w hw).2
    have hpre := startsAs_of_avoids havoids h
    refine Or.inl ⟨w, hw, ?_⟩
    rcases hline with ⟨old, rfl⟩ | ⟨rfl, -⟩
    · rw [List.append_assoc]
      exact startsAs_append hpre _
    · exact hpre
  · have havoids : avoids '\\' y (' ' :: w) = true := by
      rcases hy with rfl | rfl
      · exact (hwords w hw).1
      · exact (hwords w hw).2
    refine Or.inr ⟨w, hw, ?_⟩
    rcases hline with ⟨old, rfl⟩ | ⟨rfl, rfl⟩
    · rcases has_cut havoids hv h with h | h
      · rw [List.append_assoc]
        exact has_append_right _ h
      · exact has_append_left h _
    · rcases has_cut havoids hv h with h | h
      · exact h
      · cases h

theorem maskPini_eq (o : Options) (s : State) (line : Text) : maskPini o s line = line ∨
    maskPini o s line = setField line (8 + s.detail_field_offset + 2) "#IMAGECNT#".toList := by
  have hten : 8 + s.detail_field_offset + 2 = 10 + s.detail_field_offset := by omega
  unfold maskPini
  rw [hten]
  split
  · exact Or.inr rfl
  · exact Or.inl rfl

theorem isToken_maskPini {o : Options} {s : State} {line : Text} (h : isToken line = false) :
    isToken (maskPini o s line) = false := by
  rcases maskPini_eq o s line with heq | heq
  · rw [heq]
    exact h
  · rw [heq, Bool.eq_false_iff]
    intro htrue
    rw [isToken_setField htrue] at h
    cases h

/-- The fields in front of the count stay. -/
theorem field_maskPini (o : Options) {s : State} {line : Text} {k : Nat} (hk : k < 10 + s.detail_field_offset) :
    field (maskPini o s line) k = field line k := by
  rcases maskPini_eq o s line with heq | heq
  · rw [heq]
  · rw [heq]
    exact piece_setPiece_of_lt _ line (by omega)

end YottaTest.Mupjnl.Extract
