/-
  File:      YottaTest/Mupjnl/Masks.lean
  Subject:   extract.awk: the masks of a whole journal extract.

  A token gets the number of its first appearance, and keeps it; so the numbers at the end of the file
  say what every record shows.

  * `Numbered`, `Keeps`, `Numbered.lookUp` -- a token keeps the number it was given, and no other has it;
  * `turn_record` -- what the rules make of a record of a type that they list;
  * `run_entries` -- every record shows what the numbers at the end say;
  * `masks_consistent` -- **equal tokens, and no others, get equal masks; the stream sequence number is
    compared with 0 or with the token of its own record, and stays on a VMS system.**
-/
import YottaTest.Mupjnl.Extract

namespace YottaTest.Mupjnl.Extract

open YottaTest.Awk YottaTest.Lib

/-! ## 1. The numbers of tokens -/

/-- No two tokens have one number, and none has a number that was not given out. -/
structure Numbered (s : State) : Prop where
  le : ∀ t, s.token_seq t ≤ s.tokenseqtotal
  inj : ∀ t u, s.token_seq t = s.token_seq u → s.token_seq t ≠ 0 → t = u

/-- Every number given out before is kept. -/
def Keeps (s s' : State) : Prop := ∀ t, s.token_seq t ≠ 0 → s'.token_seq t = s.token_seq t

theorem numbered_initial : Numbered initial := ⟨fun _ => Nat.le_refl _, fun _ _ _ h => absurd rfl h⟩

theorem Keeps.refl (s : State) : Keeps s s := fun _ _ => rfl

theorem Keeps.trans {s s' s'' : State} (h : Keeps s s') (h' : Keeps s' s'') : Keeps s s'' := by
  intro t ht
  have hs := h t ht
  rw [h' t (by rw [hs]; exact ht), hs]

section Numbers

variable {s : State} {t : Text}

theorem number_self (s : State) (t : Text) : (s.number t).token_seq t = s.tokenseqtotal + 1 :=
  Function.update_self _ _ _

theorem number_other (s : State) {t u : Text} (h : u ≠ t) : (s.number t).token_seq u = s.token_seq u :=
  Function.update_of_ne h _ _

theorem Numbered.number (h : Numbered s) (t : Text) : Numbered (s.number t) where
  le u := by
    by_cases hu : u = t
    · rw [hu, number_self]
      exact Nat.le_refl _
    · rw [number_other s hu]
      exact Nat.le_succ_of_le (h.le u)
  inj u v := by
    intro heq hne
    have hu := h.le u
    have hv := h.le v
    by_cases hut : u = t
    · by_cases hvt : v = t
      · rw [hut, hvt]
      · rw [hut, number_self, number_other s hvt] at heq
        omega
    · by_cases hvt : v = t
      · rw [hvt, number_self, number_other s hut] at heq
        omega
      · rw [number_other s hut, number_other s hvt] at heq
        rw [number_other s hut] at hne
        exact h.inj u v heq hne

theorem keeps_number (ht : s.token_seq t = 0) : Keeps s (s.number t) := by
  intro u hu
  exact number_other s fun heq => hu (heq ▸ ht)

/-- A token that is looked up has a number then, and the others keep theirs. -/
theorem Numbered.lookUp (h : Numbered s) (t : Text) :
    Numbered (s.lookUp t) ∧ Keeps s (s.lookUp t) ∧ (s.lookUp t).token_seq t ≠ 0 := by
  unfold State.lookUp
  by_cases h0 : s.tokenseqtotal = 0
  · -- the first token of all
    have ht : s.token_seq t = 0 := Nat.le_zero.1 (h0 ▸ h.le t)
    have hself := number_self s t
    have hne : (s.number t).token_seq t ≠ 0 := by omega
    simp only [if_pos h0]
    rw [if_pos hne]
    exact ⟨h.number t, keeps_number ht, hne⟩
  · simp only [if_neg h0]
    by_cases ht : s.token_seq t ≠ 0
    · rw [if_pos ht]
      exact ⟨h, Keeps.refl s, ht⟩
    · rw [if_neg ht]
      have hself := number_self s t
      exact ⟨h.number t, keeps_number (Classical.not_not.1 ht), by omega⟩

end Numbers

theorem tokenMask_inj {m n : Nat} (h : tokenMask m = tokenMask n) : m = n := by
  unfold tokenMask at h
  rw [List.append_assoc, List.append_assoc] at h
  exact toDigits_inj (List.append_cancel_right (List.append_cancel_left h))

theorem tokenMask_ne_zero (n : Nat) : tokenMask n ≠ ['0'] := by
  unfold tokenMask
  intro h
  cases h

/-! ## 2. One record -/

/-- Whether 0 is expected as the stream sequence number. -/
def Options.zeroExpected (o : Options) : Bool := o.strm_seqno_zero = "TRUE".toList

/-- The stream sequence number is the expected one. -/
def StreamExpected (o : Options) (r : Record) : Prop :=
  if o.zeroExpected then r.strm_seq = ['0'] else r.strm_seq = r.token

instance (o : Options) (r : Record) : Decidable (StreamExpected o r) := by
  unfold StreamExpected
  exact inferInstance

theorem streamExpected_iff (o : Options) (r : Record) :
    StreamExpected o r ↔ (if o.zeroExpected then ['0'] else r.token) = r.strm_seq := by
  unfold StreamExpected
  by_cases hz : o.zeroExpected = true
  · simp only [hz, if_true]
    exact eq_comm
  · simp only [hz]
    exact eq_comm

/-- What a masked record shows, with the numbers that were given out. -/
structure Shows (o : Options) (detailed : Bool) (number : Text → Nat) (r : Record) (out : Text) : Prop where
  token : field out (tokenPlace detailed) = if r.token = ['0'] then ['0'] else tokenMask (number r.token)
  stream : r.kind.hasStream = true → field out (streamPlace detailed) =
    if o.vms then r.strm_seq else if StreamExpected o r then strmMask else unexpectedMask

/-- The variable says whether a line with colons was read. -/
def Placed (seen : Bool) (s : State) : Prop := s.detail_field_offset = if seen then 1 else 0

/-- The line has the colons of the detailed format. -/
def hasColons (line : Text) : Bool := has " :: ".toList line

section Turn

variable {o : Options} {s : State} {detailed seen : Bool}

/-- The variables when the rules for tokens are reached. -/
def State.reads (s : State) (line : Text) : State :=
  if hasColons line then { s with detail_field_offset := 1 } else s

theorem turn_eq (o : Options) (s : State) (line : Text) : turn o s line =
    let line' := maskPini o (s.reads line) line
    let r := if isToken line' then maskToken (s.reads line) line' else (line', s.reads line)
    (if isTokenseq line' then maskStream o r.2 r.1 else r.1, r.2) := rfl

theorem Placed.reads (hs : Placed seen s) (line : Text) : Placed (seen || hasColons line) (s.reads line) := by
  unfold State.reads
  cases hasColons line with
  | false =>
      rw [Bool.or_false]
      exact hs
  | true =>
      rw [Bool.or_true]
      rfl

@[simp] theorem reads_token_seq (s : State) (line : Text) : (s.reads line).token_seq = s.token_seq := by
  unfold State.reads
  split
  · rfl
  · rfl

@[simp] theorem reads_tokenseqtotal (s : State) (line : Text) :
    (s.reads line).tokenseqtotal = s.tokenseqtotal := by
  unfold State.reads
  split
  · rfl
  · rfl

/-- The numbers do not depend on the place of the fields. -/
theorem lookUp_reads (s : State) (line t : Text) :
    ((s.reads line).lookUp t).token_seq = (s.lookUp t).token_seq ∧
      ((s.reads line).lookUp t).tokenseqtotal = (s.lookUp t).tokenseqtotal := by
  unfold State.lookUp
  by_cases h0 : s.tokenseqtotal = 0
  · simp only [reads_tokenseqtotal, h0, if_true, State.number, reads_token_seq]
    split
    · exact ⟨rfl, rfl⟩
    · exact ⟨rfl, rfl⟩
  · simp only [reads_tokenseqtotal, h0, if_false, State.number, reads_token_seq]
    split
    · exact ⟨reads_token_seq s line, reads_tokenseqtotal s line⟩
    · exact ⟨rfl, rfl⟩

/-- A line without a token. -/
theorem turn_other {line : Text} (h : isToken line = false) : (turn o s line).2 = s.reads line := by
  rw [turn_eq]
  simp only [isToken_maskPini h, Bool.false_eq_true, if_false]

theorem maskToken_fields {line token : Text} (hd : 6 + s.detail_field_offset = tokenPlace detailed)
    (hline : field line (tokenPlace detailed) = token) (htoken : IsNumber token) :
    field (maskToken s line).1 (tokenPlace detailed) =
        (if token = ['0'] then ['0'] else tokenMask ((s.lookUp token).token_seq token)) ∧
      (∀ k, k ≠ tokenPlace detailed → field (maskToken s line).1 k = field line k) ∧
      (maskToken s line).2 = { s.lookUp token with last_token_seq_no := token } := by
  have hpos : 0 < tokenPlace detailed := by
    rw [← hd]
    omega
  unfold maskToken
  simp only [hd, hline]
  by_cases hzero : token = ['0']
  · rw [if_neg (not_not_intro hzero), if_pos hzero]
    exact ⟨hline.trans hzero, fun _ _ => rfl, rfl⟩
  · rw [if_pos hzero, if_neg hzero]
    exact ⟨field_gsubField hpos hline htoken (neutral_tokenMask _),
      fun k hk => field_gsubField_of_ne hk hline htoken (neutral_tokenMask _), rfl⟩

theorem offset_lookUp (s : State) (t : Text) : (s.lookUp t).detail_field_offset = s.detail_field_offset := by
  unfold State.lookUp
  split
  · simp only
    split
    · rfl
    · rfl
  · simp only
    split
    · rfl
    · rfl

theorem maskStream_field (o : Options) {line seq : Text}
    (hd : 8 + s.detail_field_offset = streamPlace detailed)
    (hline : field line (streamPlace detailed) = seq) (hseq : IsNumber seq) :
    field (maskStream o s line) (streamPlace detailed) = if o.vms then seq else
      if (if o.zeroExpected then ['0'] else s.last_token_seq_no) = seq then strmMask else unexpectedMask := by
  have hpos : 0 < streamPlace detailed := by
    rw [← hd]
    omega
  have hcheck : (if o.strm_seqno_zero = "TRUE".toList then (['0'] : Text) else s.last_token_seq_no)
      = if o.zeroExpected then ['0'] else s.last_token_seq_no := by
    unfold Options.zeroExpected
    simp only [decide_eq_true_eq]
  unfold maskStream
  simp only [hd, hline, hcheck]
  by_cases hvms : o.vms = true
  · rw [if_pos hvms, if_pos hvms]
    exact hline
  · rw [if_neg hvms, if_neg hvms]
    refine field_gsubField hpos hline hseq ?_
    generalize (if o.zeroExpected then (['0'] : Text) else s.last_token_seq_no) = check
    split
    · exact neutral_strmMask
    · exact neutral_unexpectedMask

/-- The fields in front of the stream sequence number stay. -/
theorem maskStream_before (o : Options) {line : Text} {k : Nat} (hk : k < 8 + s.detail_field_offset) :
    field (maskStream o s line) k = field line k := by
  unfold maskStream
  by_cases hv : o.vms = true
  · simp only [hv, if_true]
  · simp only [hv]
    exact piece_setPiece_of_lt _ line hk

/-- What the rules for tokens read of a record, on a VMS system too. -/
theorem maskPini_record (o : Options) {r : Record} (h : r.kind.listed = true)
    (hd : 6 + s.detail_field_offset = tokenPlace detailed) :
    isToken (maskPini o s (r.line detailed)) = true ∧
      (r.kind.hasStream = true → isTokenseq (maskPini o s (r.line detailed)) = true ∧
        field (maskPini o s (r.line detailed)) (streamPlace detailed) = r.strm_seq) ∧
      field (maskPini o s (r.line detailed)) (tokenPlace detailed) = r.token := by
  obtain ⟨htoken, hstream⟩ := r.listed_line h detailed
    ((maskPini_eq o s (r.line detailed)).imp id fun heq => ⟨_, _, heq⟩)
  refine ⟨htoken, fun hst => ⟨hstream hst, ?_⟩, ?_⟩
  · rw [field_maskPini o (by rw [streamPlace_eq]; omega)]
    exact r.field_stream detailed hst
  · rw [field_maskPini o (by omega)]
    exact r.field_token detailed

/-- **What the rules make of a record** of a type that they list, if the colons have been read exactly in
the detailed format. -/
theorem turn_record {r : Record} (h : r.kind.listed = true) (hs : Placed seen s)
    (hseen : (seen || hasColons (r.line detailed)) = detailed) :
    (turn o s (r.line detailed)).2.token_seq = (s.lookUp r.token).token_seq ∧
      (turn o s (r.line detailed)).2.tokenseqtotal = (s.lookUp r.token).tokenseqtotal ∧
      Placed detailed (turn o s (r.line detailed)).2 ∧
      Shows o detailed (s.lookUp r.token).token_seq r (turn o s (r.line detailed)).1 := by
  -- the offset that is in force for this line
  have hplaced := hs.reads (r.line detailed)
  rw [hseen] at hplaced
  obtain ⟨hseq, htotal⟩ := lookUp_reads s (r.line detailed) r.token
  rw [turn_eq]
  generalize s.reads (r.line detailed) = s' at hplaced hseq htotal
  have hoff : 6 + s'.detail_field_offset = tokenPlace detailed := by
    rw [hplaced]
    cases detailed with
    | false => rfl
    | true => rfl
  obtain ⟨htoken, hstream, hfield⟩ := maskPini_record o h hoff
  generalize maskPini o s' (r.line detailed) = line at htoken hstream hfield
  obtain ⟨hmasked, hother, hstate⟩ := maskToken_fields hoff hfield r.token_number
  have hoff' : (maskToken s' line).2.detail_field_offset = s'.detail_field_offset := by
    rw [hstate]
    exact offset_lookUp s' r.token
  have hlast : (maskToken s' line).2.last_token_seq_no = r.token := by rw [hstate]
  have h8 : 8 + (maskToken s' line).2.detail_field_offset = streamPlace detailed := by
    rw [hoff', streamPlace_eq]
    omega
  rw [hseq] at hmasked
  simp only [htoken, if_true]
  refine ⟨?_, ?_, ?_, ?_, fun hst => ?_⟩
  · rw [hstate]
    exact hseq
  · rw [hstate]
    exact htotal
  · exact hoff'.trans hplaced
  · by_cases hts : isTokenseq line = true
    · have hlt : tokenPlace detailed < 8 + (maskToken s' line).2.detail_field_offset := by
        rw [h8, streamPlace_eq]
        omega
      rw [if_pos hts, maskStream_before o hlt]
      exact hmasked
    · rw [if_neg hts]
      exact hmasked
  · have hne : streamPlace detailed ≠ tokenPlace detailed := by
      rw [streamPlace_eq]
      omega
    rw [if_pos (hstream hst).1, maskStream_field o h8 ((hother _ hne).trans (hstream hst).2) r.strm_seq_number,
      hlast]
    exact if_congr Iff.rfl rfl (if_congr (streamExpected_iff o r).symm rfl rfl)

end Turn

/-! ## 3. All records -/

/-- The variables behind the last record. -/
def after (o : Options) (s : State) : List Text → State
  | [] => s
  | line :: lines => after o (turn o s line).2 lines

/-- The rules can read these lines of a file, where `seen` says whether a line with colons stood before
them: the types of the records are listed, and the colons were read in the record or before it exactly
if the format is the detailed one. -/
structure Readable (detailed seen : Bool) (entries : List Entry) : Prop where
  listed : ∀ r, Entry.record r ∈ entries → r.kind.listed = true
  colons : ∀ pre r post, entries = pre ++ Entry.record r :: post →
    (seen || (pre ++ [Entry.record r]).any fun e => hasColons (e.line detailed)) = detailed

theorem Readable.tail {detailed seen : Bool} {e : Entry} {entries : List Entry}
    (h : Readable detailed seen (e :: entries)) :
    Readable detailed (seen || hasColons (e.line detailed)) entries where
  listed r hr := h.listed r (List.mem_cons_of_mem e hr)
  colons pre r post heq := by
    have hcolons := h.colons (e :: pre) r post (by rw [heq, List.cons_append])
    rw [List.cons_append, List.any_cons, ← Bool.or_assoc] at hcolons
    exact hcolons

theorem Readable.head {detailed seen : Bool} {r : Record} {entries : List Entry}
    (h : Readable detailed seen (.record r :: entries)) :
    r.kind.listed = true ∧ (seen || hasColons (r.line detailed)) = detailed := by
  have hcolons := h.colons [] r entries rfl
  rw [List.nil_append, List.any_cons, List.any_nil, Bool.or_false] at hcolons
  exact ⟨h.listed r List.mem_cons_self, hcolons⟩

theorem Numbered.congr {s s' : State} (h : Numbered s) (hseq : s'.token_seq = s.token_seq)
    (htotal : s'.tokenseqtotal = s.tokenseqtotal) : Numbered s' where
  le t := by
    rw [hseq, htotal]
    exact h.le t
  inj t u := by
    rw [hseq]
    exact h.inj t u

section Run

variable {o : Options} {detailed seen : Bool}

/-- What one entry does to the numbers, and what a record shows. -/
theorem turn_entry {e : Entry} {entries : List Entry} {s : State} (hn : Numbered s)
    (hs : Placed seen s) (hread : Readable detailed seen (e :: entries)) :
    Numbered (turn o s (e.line detailed)).2 ∧ Keeps s (turn o s (e.line detailed)).2 ∧
      Placed (seen || hasColons (e.line detailed)) (turn o s (e.line detailed)).2 ∧
      ∀ r, Entry.record r = e → (turn o s (e.line detailed)).2.token_seq r.token ≠ 0 ∧
        Shows o detailed (turn o s (e.line detailed)).2.token_seq r (turn o s (e.line detailed)).1 := by
  cases e with
  | other line h =>
      simp only [Entry.line]
      rw [turn_other h]
      exact ⟨hn.congr (reads_token_seq s line) (reads_tokenseqtotal s line),
        fun t _ => congrFun (reads_token_seq s line) t, hs.reads line, fun r hr => by cases hr⟩
  | record r =>
      obtain ⟨hnum, hkeep, hne⟩ := hn.lookUp r.token
      obtain ⟨hlisted, hseen⟩ := hread.head
      obtain ⟨hseq, htotal, hplaced, hshows⟩ := turn_record (o := o) hlisted hs hseen
      simp only [Entry.line]
      rw [hseen]
      refine ⟨hnum.congr hseq htotal, fun t ht => (congrFun hseq t).trans (hkeep t ht), hplaced, fun r' hr => ?_⟩
      obtain rfl := Entry.record.inj hr
      rw [hseq]
      exact ⟨hne, hshows⟩

/-- A record shows the same with the numbers of later. -/
theorem Shows.keep {s s' : State} (h : Keeps s s') {r : Record} {out : Text} (hne : s.token_seq r.token ≠ 0)
    (hshows : Shows o detailed s.token_seq r out) : Shows o detailed s'.token_seq r out where
  token := by rw [h r.token hne]; exact hshows.token
  stream := hshows.stream

/-- **Every record shows what the numbers at the end say.** -/
theorem run_entries : ∀ {entries : List Entry} {seen : Bool} {s : State}, Numbered s →
    Placed seen s → Readable detailed seen entries →
    Numbered (after o s (entries.map (Entry.line detailed))) ∧
      Keeps s (after o s (entries.map (Entry.line detailed))) ∧
      ∀ r out, (Entry.record r, out) ∈ entries.zip (runFrom o s (entries.map (Entry.line detailed))) →
        (after o s (entries.map (Entry.line detailed))).token_seq r.token ≠ 0 ∧
        Shows o detailed (after o s (entries.map (Entry.line detailed))).token_seq r out
  | [], _, s, hn, _, _ => ⟨hn, Keeps.refl s, fun _ _ h => absurd h List.not_mem_nil⟩
  | e :: entries, seen, s, hn, hs, hread => by
      obtain ⟨hn', hkeep, hs', hshows⟩ := turn_entry (o := o) hn hs hread
      obtain ⟨hnum, hkeep', hrest⟩ := run_entries hn' hs' hread.tail
      refine ⟨hnum, hkeep.trans hkeep', fun r out hmem => ?_⟩
      rw [List.map_cons, runFrom, List.zip_cons_cons] at hmem
      rcases List.mem_cons.1 hmem with heq | hmem
      · obtain ⟨he, hout⟩ := Prod.mk.inj heq
        obtain ⟨hne, hshow⟩ := hshows r he
        subst hout
        refine ⟨?_, hshow.keep hkeep' hne⟩
        rw [List.map_cons, after, hkeep' r.token hne]
        exact hne
      · exact hrest r out hmem

end Run

/-- The masks of a file are consistent. -/
structure Consistent (o : Options) (x : Journal) : Prop where
  /-- two tokens carry the same mask exactly if they are equal and not zero -/
  same_mask : ∀ r₁ out₁ r₂ out₂, (Entry.record r₁, out₁) ∈ x.masked o → (Entry.record r₂, out₂) ∈ x.masked o →
    ((∃ n, field out₁ (tokenPlace x.detailed) = tokenMask n ∧
        field out₂ (tokenPlace x.detailed) = tokenMask n) ↔ r₁.token = r₂.token ∧ r₁.token ≠ ['0'])
  zero : ∀ r out, (Entry.record r, out) ∈ x.masked o → r.token = ['0'] →
    field out (tokenPlace x.detailed) = ['0']
  stream : ∀ r out, (Entry.record r, out) ∈ x.masked o → r.kind.hasStream = true →
    field out (streamPlace x.detailed) =
      if o.vms then r.strm_seq else if StreamExpected o.begin r then strmMask else unexpectedMask

theorem begin_vms (o : Options) : o.begin.vms = o.vms := by
  unfold Options.begin
  split
  · rfl
  · rfl

/-- **Equal tokens, and no others, get equal masks**, and the stream sequence number is compared with 0
or with the token of its record; on a VMS system it stays. -/
theorem masks_consistent (o : Options) {x : Journal} (hread : Readable x.detailed false x.entries) :
    Consistent o x := by
  obtain ⟨hnum, -, hshows⟩ := run_entries (o := o.begin) numbered_initial
    (show Placed false initial from rfl) hread
  refine ⟨fun r₁ out₁ r₂ out₂ h₁ h₂ => ?_, fun r out h hzero => ?_, fun r out h hst => ?_⟩
  · obtain ⟨hne₁, hs₁⟩ := hshows r₁ out₁ h₁
    obtain ⟨hne₂, hs₂⟩ := hshows r₂ out₂ h₂
    rw [hs₁.token, hs₂.token]
    constructor
    · intro hmask
      obtain ⟨n, hm₁, hm₂⟩ := hmask
      by_cases hz₁ : r₁.token = ['0']
      · rw [if_pos hz₁] at hm₁
        exact absurd hm₁.symm (tokenMask_ne_zero n)
      · by_cases hz₂ : r₂.token = ['0']
        · rw [if_pos hz₂] at hm₂
          exact absurd hm₂.symm (tokenMask_ne_zero n)
        · rw [if_neg hz₁] at hm₁
          rw [if_neg hz₂] at hm₂
          have hnumber := (tokenMask_inj hm₁).trans (tokenMask_inj hm₂).symm
          exact ⟨hnum.inj _ _ hnumber hne₁, hz₁⟩
    · intro h
      have hz₂ : r₂.token ≠ ['0'] := h.1 ▸ h.2
      refine ⟨_, if_neg h.2, ?_⟩
      rw [if_neg hz₂, h.1]
  · rw [(hshows r out h).2.token, if_pos hzero]
  · rw [(hshows r out h).2.stream hst, begin_vms]

/-- A record with these values. -/
def sample (k : Kind) (place : Place) (v : Option Char) (hv : v ≠ none → k.isUpdate = true)
    (token strm_seq : Text) (ht : IsNumber token) (hs : IsNumber strm_seq)
    (hsep : '\\' ∉ place.text ∧ '\\' ∉ v.toList) : Record where
  kind := k
  place := place
  variant := v
  variant_update := hv
  time := "1,2".toList
  tnum := ['1']
  chksum := []
  pid := ['7']
  clntpid := ['0']
  token := token
  strm_num := ['0']
  strm_seq := strm_seq
  more := []
  token_number := ht
  strm_seq_number := hs
  no_separator := by simp [hsep]

/-- The digits of a number. -/
theorem isNumber_of_all {t : Text} (h : (t ≠ [] && t.all Char.isDigit) = true) : IsNumber t := by
  rw [Bool.and_eq_true, decide_eq_true_eq] at h
  exact ⟨h.1, List.all_eq_true.1 h.2⟩

/-- A record at a place in the file, and the first update of a transaction. -/
def shownFive (k : Kind) : Record :=
  sample k (.shown "0x00010060 [0x0050]".toList) none (absurd rfl) ['5'] ['0'] (isNumber_of_all (by decide))
    (isNumber_of_all (by decide)) (by decide)

def firstUpdate : Record :=
  sample .set (.blanks 21) (some 'T') (fun _ => rfl) ['5'] ['0'] (isNumber_of_all (by decide))
    (isNumber_of_all (by decide)) (by decide)

/-- A detailed extract that begins with a record with its place can be read. -/
theorem readable_of_shown {r : Record} {place : Text} {entries : List Entry} (hplace : r.place = .shown place)
    (hlisted : ∀ r', Entry.record r' ∈ .record r :: entries → r'.kind.listed = true) :
    Readable true false (.record r :: entries) where
  listed := hlisted
  colons pre r' post heq := by
    rw [Bool.false_or, List.any_eq_true]
    refine ⟨.record r, ?_, Record.has_colons hplace⟩
    cases pre with
    | nil => exact List.mem_singleton.2 (List.cons.inj heq).1
    | cons e pre => exact (List.cons.inj heq).1 ▸ List.mem_cons_self

/-- A transaction in a detailed extract, whose first update has blanks for its place. -/
theorem masks_consistent_transaction : Consistent ⟨"TRUE".toList, false⟩
    ⟨true, [.record (shownFive .tstart), .record firstUpdate, .record (shownFive .tcom)]⟩ := by
  refine masks_consistent _ (readable_of_shown rfl fun r hr => ?_)
  simp only [List.mem_cons, List.not_mem_nil, or_false, Entry.record.injEq] at hr
  rcases hr with rfl | rfl | rfl
  · rfl
  · rfl
  · rfl

/-- A token on a ZTWORM record is not masked. -/
theorem ztworm_not_masked : ¬ Consistent ⟨"TRUE".toList, false⟩
    ⟨false, [.record (shownFive .set), .record (shownFive .ztworm)]⟩ := by
  intro hx
  have hrun : run ⟨"TRUE".toList, false⟩ [(shownFive .set).line false, (shownFive .ztworm).line false]
      = ["05\\1,2\\1\\7\\0\\#TOKENSEQ1#\\0\\#STRMSEQNO#".toList, (shownFive .ztworm).line false] := by
    decide +kernel
  have hmasked : Journal.masked ⟨"TRUE".toList, false⟩
      ⟨false, [.record (shownFive .set), .record (shownFive .ztworm)]⟩
      = [(.record (shownFive .set), "05\\1,2\\1\\7\\0\\#TOKENSEQ1#\\0\\#STRMSEQNO#".toList),
        (.record (shownFive .ztworm), (shownFive .ztworm).line false)] := by
    unfold Journal.masked Journal.lines
    simp only [List.map_cons, List.map_nil, Entry.line]
    rw [hrun]
    rfl
  have hmask := (hx.same_mask (shownFive .set) _ (shownFive .ztworm) _ (by rw [hmasked]; exact List.mem_cons_self)
    (by rw [hmasked]; exact List.mem_cons_of_mem _ List.mem_cons_self)).2 ⟨rfl, by decide⟩
  obtain ⟨n, -, hn⟩ := hmask
  have hfive : field ((shownFive .ztworm).line false) (tokenPlace false) = ['5'] :=
    (shownFive .ztworm).field_token false
  rw [hfive] at hn
  unfold tokenMask at hn
  cases hn

end YottaTest.Mupjnl.Extract
