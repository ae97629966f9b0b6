/-
  File:      YottaTest/Com/ShowSort.lean
  Subject:   mupjnl_multireg_show_sort.awk: the regions of a journal SHOW in the order of their files.

  The script prints every line as it comes until the first line whose first field is SHOW. It then
  collects lines under the name of the file that was shown last, and at a %YDB- message prints all
  that it has, in the order of the names.

  * `turn`, `run` -- one line, and all lines;
  * `Block`, `Region.lines` -- what one region shows;
  * `Collecting` -- the arrays inside a block, with the finished blocks before it;
  * `run_blocks` -- **every line is stored under the file of its own block**;
  * `output_sorted` -- **the blocks are printed in the order of their files, whatever their order in
    the input**, as long as the lines behind the message start no block.
-/
import Mathlib.Data.List.Infix
import Mathlib.Data.List.Sort
import YottaTest.Lib.Digits

namespace YottaTest.Com.ShowSort

abbrev Text := List Char

/-! ## 1. The script -/

/-- The fields of a record: `FS` is a blank. -/
def fields (line : Text) : List Text :=
  (line.splitOnP fun c => c = ' ' || c = '\t').filter fun w => w ≠ []

/-- `$1` -/
def firstField (line : Text) : Text := (fields line).headD []

/-- `$NF` -/
def lastField (line : Text) : Text := (fields line).getLastD []

def showWord : Text := ['S', 'H', 'O', 'W']

def messageWord : Text := ['%', 'Y', 'D', 'B', '-']

/-- The variables. An array that is printed from is a function, with an empty text or 0 where
nothing was stored. -/
structure State where
  file : Text
  cnt : Nat
  /-- the indices of `files` -/
  files : List Text
  cntarr : Text → Nat
  /-- `out[file, cnt]` -/
  out : Text → Nat → Text

def initial : State where
  file := []
  cnt := 0
  files := []
  cntarr _ := 0
  out _ _ := []

/-- `out[file, cnt++] = line` -/
def State.store (s : State) (line : Text) : State :=
  { s with
    out := Function.update s.out s.file (Function.update (s.out s.file) s.cnt line)
    cnt := s.cnt + 1 }

/-- `cntarr[file] = cnt` -/
def State.saveCnt (s : State) : State := { s with cntarr := Function.update s.cntarr s.file s.cnt }

/-- `$1 == "SHOW"`: a block starts. -/
def onShow (line : Text) (s : State) : State :=
  let s := if s.file ≠ [] then s.saveCnt else s
  let file := lastField line
  { s with
    file := file
    cnt := 0
    files := if file ∈ s.files then s.files else s.files ++ [file] }

/-- The two lines behind the last block, which is then complete like the others. -/
def State.complete (s : State) : State :=
  if s.file ≠ [] then ((s.store []).store ((s.store []).out s.file 1)).saveCnt else s

/-- The loop over the sorted names. The last file is printed without its last two lines. -/
def printed (s : State) : List Text → List Text
  | [] => []
  | file :: names =>
      ((List.range (s.cntarr file)).filter fun i => names ≠ [] || i < s.cntarr file - 2).map
        (s.out file) ++ printed s names

/-- The order of two texts, character by character. -/
def notAfter : Text → Text → Bool
  | [], _ => true
  | _ :: _, [] => false
  | c :: s, d :: t => c.toNat < d.toNat || (c.toNat = d.toNat && notAfter s t)

/-- `n = asorti(files)`, the names. The array then has the indices 1 to n, in place of the names. -/
def asorti (files : List Text) : List Text := files.insertionSort fun a b => notAfter a b = true

def numerals (n : Nat) : List Text := (List.range n).map fun k => Nat.toDigits 10 (k + 1)

/-- `$1 ~ /%YDB-.*/`: what was collected is printed. -/
def onMessage (s : State) : List Text × State :=
  let s := s.complete
  (printed s (asorti s.files), { s with file := [], cnt := 0, files := numerals s.files.length })

/-- The rule for one record, with what it prints. -/
def turn (s : State) (line : Text) : List Text × State :=
  let s := if firstField line = showWord then onShow line s else s
  let r := if messageWord <:+: firstField line then onMessage s else ([], s)
  if r.2.file = [] then (r.1 ++ [line], r.2) else (r.1, r.2.store line)

/-- All records, with what they print and the variables at the end. -/
def run (s : State) : List Text → List Text × State
  | [] => ([], s)
  | line :: lines => ((turn s line).1 ++ (run (turn s line).2 lines).1, (run (turn s line).2 lines).2)

/-- What the script prints for a file. -/
def output (lines : List Text) : List Text := (run initial lines).1

theorem run_append (s : State) (l l' : List Text) :
    run s (l ++ l') = ((run s l).1 ++ (run (run s l).2 l').1, (run (run s l).2 l').2) := by
  induction l generalizing s with
  | nil => rfl
  | cons line l ih => rw [List.cons_append, run, ih, run, List.append_assoc]

/-! ## 2. Lines and blocks -/

/-- The line starts a block. -/
def StartsBlock (line : Text) : Prop := firstField line = showWord

/-- The line ends the collection. -/
def IsMessage (line : Text) : Prop := messageWord <:+: firstField line

def Plain (line : Text) : Prop := ¬ StartsBlock line ∧ ¬ IsMessage line

instance (line : Text) : Decidable (StartsBlock line) := decEq (firstField line) showWord

instance (line : Text) : Decidable (IsMessage line) :=
  inferInstanceAs (Decidable (messageWord <:+: firstField line))

instance (line : Text) : Decidable (Plain line) := inferInstanceAs (Decidable (_ ∧ _))

/-- A region: the line with SHOW, and what follows the dashes. -/
structure Block where
  head : Text
  body : List Text
  head_starts : StartsBlock head
  body_plain : ∀ line ∈ body, Plain line

/-- The file that is shown. -/
def Block.name (b : Block) : Text := lastField b.head

/-- The lines of a region. -/
def Block.lines (dashes : Text) (b : Block) : List Text := b.head :: dashes :: b.body

/-- Regions, with the blank line and the dashes between two of them. -/
def joined (dashes : Text) (bs : List Block) : List Text :=
  [[], dashes].intercalate (bs.map fun b => b.lines dashes)

def byName (a b : Block) : Prop := notAfter a.name b.name = true

instance : DecidableRel byName := fun a b => inferInstanceAs (Decidable (notAfter a.name b.name = true))

/-- The regions in the order of their files. -/
def sorted (bs : List Block) : List Block := bs.insertionSort byName

/-- What is stored under a file once its block is complete. -/
def Block.stored (dashes : Text) (b : Block) : List Text := b.lines dashes ++ [[], dashes]

theorem startsBlock_not_message {line : Text} (h : StartsBlock line) : ¬ IsMessage line := by
  unfold IsMessage
  rw [show firstField line = showWord from h]
  decide

theorem Block.name_ne_nil (b : Block) : b.name ≠ [] := by
  have hne : fields b.head ≠ [] := by
    intro h
    have hs : firstField b.head = showWord := b.head_starts
    rw [firstField, h] at hs
    exact absurd hs (by decide)
  have hmem : b.name ∈ fields b.head := by
    unfold name lastField
    rw [List.getLastD_eq_getLast?, List.getLast?_eq_some_getLast hne]
    exact List.getLast_mem hne
  simpa using (List.mem_filter.1 hmem).2

theorem plain_nil : Plain [] := by decide

/-! ## 3. What is stored -/

/-- The first lines under a file. -/
def State.texts (s : State) (file : Text) (n : Nat) : List Text := (List.range n).map (s.out file)

@[simp] theorem store_file (s : State) (line : Text) : (s.store line).file = s.file := rfl

@[simp] theorem store_cnt (s : State) (line : Text) : (s.store line).cnt = s.cnt + 1 := rfl

@[simp] theorem store_files (s : State) (line : Text) : (s.store line).files = s.files := rfl

@[simp] theorem store_cntarr (s : State) (line : Text) : (s.store line).cntarr = s.cntarr := rfl

theorem texts_store_self (s : State) (line : Text) :
    (s.store line).texts s.file (s.cnt + 1) = s.texts s.file s.cnt ++ [line] := by
  have hout : (s.store line).out s.file = Function.update (s.out s.file) s.cnt line :=
    Function.update_self _ _ _
  unfold State.texts
  rw [hout, List.range_succ, List.map_append, List.map_singleton, Function.update_self]
  congr 1
  refine List.map_congr_left fun i hi => Function.update_of_ne ?_ _ _
  exact (List.mem_range.1 hi).ne

theorem texts_store_other (s : State) (line : Text) {file : Text} (h : file ≠ s.file) (n : Nat) :
    (s.store line).texts file n = s.texts file n := by
  have hout : (s.store line).out file = s.out file := Function.update_of_ne h _ _
  unfold State.texts
  rw [hout]

theorem onShow_open {s : State} {line : Text} (hs : s.file ≠ []) (hn : lastField line ∉ s.files) :
    onShow line s
      = { s with file := lastField line, cnt := 0, files := s.files ++ [lastField line]
                 cntarr := Function.update s.cntarr s.file s.cnt } := by
  unfold onShow
  simp only [if_pos hs]
  rw [if_neg (show lastField line ∉ s.saveCnt.files from hn)]
  rfl

/-- Inside the block `b`, with the lines `ls` of it so far: the blocks in `done` are complete. -/
structure Collecting (dashes : Text) (done : List Block) (b : Block) (ls : List Text) (s : State) :
    Prop where
  file : s.file = b.name
  files : s.files = (done ++ [b]).map Block.name
  stored : ∀ d ∈ done, s.texts d.name (s.cntarr d.name) = d.stored dashes
  current : s.texts b.name s.cnt = ls
  untouched : ∀ file, file ∉ s.files → s.cntarr file = 0

section Steps

variable {dashes : Text} {done : List Block} {b b' : Block} {ls : List Text} {s : State}

/-- One more line of the block. -/
theorem Collecting.store (h : Collecting dashes done b ls s) (hb : b.name ∉ done.map Block.name)
    (line : Text) : Collecting dashes done b (ls ++ [line]) (s.store line) where
  file := h.file
  files := h.files
  stored d hd := by
    have hne : d.name ≠ s.file := by
      rw [h.file]
      exact fun heq => hb (heq ▸ List.mem_map_of_mem hd)
    rw [store_cntarr, texts_store_other s line hne, h.stored d hd]
  current := by
    rw [store_cnt, ← h.file, texts_store_self, h.file, h.current]
  untouched := h.untouched

/-- The next block starts where this one is complete. -/
theorem Collecting.next (h : Collecting dashes done b (b.stored dashes) s)
    (hb : b.name ∉ done.map Block.name) (hb' : b'.name ∉ (done ++ [b]).map Block.name) :
    Collecting dashes (done ++ [b]) b' [] (onShow b'.head s) := by
  have hfile : s.file ≠ [] := h.file ▸ b.name_ne_nil
  rw [onShow_open hfile (h.files ▸ hb' : lastField b'.head ∉ s.files), h.file]
  refine ⟨rfl, by rw [List.map_append, ← h.files]; rfl, fun d hd => ?_, rfl, fun file hf => ?_⟩
  rcases List.mem_append.1 hd with hd | hd
  · have hne : d.name ≠ b.name := fun heq => hb (heq ▸ List.mem_map_of_mem hd)
    simp only [Function.update_of_ne hne]
    exact h.stored d hd
  · rw [List.mem_singleton.1 hd]
    simp only [Function.update_self]
    exact h.current
  · have hold : file ∉ s.files := fun hin => hf (List.mem_append_left _ hin)
    have hne : file ≠ b.name := by
      intro heq
      rw [heq, h.files] at hold
      exact hold (List.mem_map_of_mem (List.mem_append_right _ List.mem_cons_self))
    simp only [Function.update_of_ne hne]
    exact h.untouched file hold

theorem collecting_first (b : Block) : Collecting dashes [] b [] (onShow b.head initial) where
  file := rfl
  files := rfl
  stored _ hd := absurd hd List.not_mem_nil
  current := rfl
  untouched _ _ := rfl

/-! ## 4. Records -/

theorem turn_plain {line : Text} (hp : Plain line) (hs : s.file ≠ []) :
    turn s line = ([], s.store line) := by
  have h₁ : ¬ firstField line = showWord := hp.1
  have h₂ : ¬ messageWord <:+: firstField line := hp.2
  unfold turn
  simp only [h₁, h₂, hs, if_false]

theorem turn_idle {line : Text} (hp : ¬ StartsBlock line) (hm : ¬ IsMessage line) (hs : s.file = []) :
    turn s line = ([line], s) := by
  have h₁ : ¬ firstField line = showWord := hp
  have h₂ : ¬ messageWord <:+: firstField line := hm
  unfold turn
  simp only [h₁, h₂, hs, if_false, if_true, List.nil_append]

theorem turn_head (s : State) (b : Block) : turn s b.head = ([], (onShow b.head s).store b.head) := by
  have h₁ : firstField b.head = showWord := b.head_starts
  have h₂ : ¬ messageWord <:+: firstField b.head := startsBlock_not_message b.head_starts
  have h₃ : ¬ (onShow b.head s).file = [] := b.name_ne_nil
  unfold turn
  simp only [h₂, if_false]
  rw [if_pos h₁, if_neg h₃]

theorem turn_message {line : Text} (hm : IsMessage line) (s : State) :
    turn s line = ((onMessage s).1 ++ [line], (onMessage s).2) := by
  have h₁ : ¬ firstField line = showWord := fun h => startsBlock_not_message h hm
  have h₂ : messageWord <:+: firstField line := hm
  unfold turn
  simp only [h₁, h₂, if_false, if_true]
  rfl

/-- Lines of the block that is open: they are stored, nothing is printed. -/
theorem Collecting.run_plain (hb : b.name ∉ done.map Block.name) : ∀ {lines ls : List Text} {s : State},
    Collecting dashes done b ls s → (∀ line ∈ lines, Plain line) →
    (run s lines).1 = [] ∧ Collecting dashes done b (ls ++ lines) (run s lines).2
  | [], ls, s, h, _ => ⟨rfl, by simpa [run] using h⟩
  | line :: lines, ls, s, h, hp => by
      have hs : s.file ≠ [] := h.file ▸ b.name_ne_nil
      have ih := (h.store hb line).run_plain hb fun l hl => hp l (List.mem_cons_of_mem line hl)
      rw [run, turn_plain (hp line List.mem_cons_self) hs]
      exact ⟨ih.1, by simpa using ih.2⟩

/-- The lines of a block, behind its SHOW. -/
theorem Collecting.run_block (hd : Plain dashes) (hb : b.name ∉ done.map Block.name)
    (h : Collecting dashes done b [] (onShow b.head s)) :
    (run s (b.lines dashes)).1 = [] ∧
      Collecting dashes done b (b.lines dashes) (run s (b.lines dashes)).2 := by
  have hp : ∀ line ∈ dashes :: b.body, Plain line := by
    intro line hl
    rcases List.mem_cons.1 hl with rfl | hl
    · exact hd
    · exact b.body_plain line hl
  unfold Block.lines
  rw [run, turn_head]
  exact (h.store hb b.head).run_plain hb hp

/-- Blocks in a row: nothing is printed, and the last one is still open behind them. -/
theorem run_blocks (hd : Plain dashes) : ∀ (bs : List Block) {done : List Block} {b : Block} {s : State},
    ((done ++ b :: bs).map Block.name).Nodup → Collecting dashes done b [] (onShow b.head s) →
    (run s (joined dashes (b :: bs))).1 = [] ∧
      ∃ done' last, done' ++ [last] = done ++ b :: bs ∧
        Collecting dashes done' last (last.lines dashes) (run s (joined dashes (b :: bs))).2
  | [], done, b, s, hn, h => by
      have hb : b.name ∉ done.map Block.name := by
        rw [List.map_append, List.nodup_append] at hn
        exact fun hin => hn.2.2 _ hin _ List.mem_cons_self rfl
      obtain ⟨hout, hc⟩ := h.run_block hd hb
      have hj : joined dashes [b] = b.lines dashes := List.intercalate_singleton
      rw [hj]
      exact ⟨hout, done, b, rfl, hc⟩
  | b' :: bs, done, b, s, hn, h => by
      have hn' : (((done ++ [b]) ++ b' :: bs).map Block.name).Nodup := by simpa using hn
      have hb : b.name ∉ done.map Block.name := by
        rw [List.map_append, List.nodup_append] at hn
        exact fun hin => hn.2.2 _ hin _ List.mem_cons_self rfl
      have hb' : b'.name ∉ (done ++ [b]).map Block.name := by
        rw [List.map_append, List.nodup_append] at hn'
        exact fun hin => hn'.2.2 _ hin _ List.mem_cons_self rfl
      obtain ⟨hout, hc⟩ := h.run_block hd hb
      have hp : ∀ line ∈ [[], dashes], Plain line := by
        intro line hl
        rcases List.mem_cons.1 hl with rfl | hl
        · exact plain_nil
        · exact List.mem_singleton.1 hl ▸ hd
      obtain ⟨hout₂, hc₂⟩ := hc.run_plain hb hp
      obtain ⟨hout₃, done', last, hlast, hc₃⟩ := run_blocks hd bs hn' (hc₂.next hb hb')
      have hj : joined dashes (b :: b' :: bs)
          = b.lines dashes ++ ([[], dashes] ++ joined dashes (b' :: bs)) := by
        simp [joined, List.intercalate_cons_cons]
      rw [hj, run_append, run_append, hout, hout₂, hout₃]
      exact ⟨rfl, done', last, by simpa using hlast, hc₃⟩

end Steps

/-! ## 5. The message -/

/-- Every block is stored with its separator, and no other file has a line. -/
structure Complete (dashes : Text) (bs : List Block) (s : State) : Prop where
  files : s.files = bs.map Block.name
  stored : ∀ d ∈ bs, s.texts d.name (s.cntarr d.name) = d.stored dashes
  untouched : ∀ file, file ∉ s.files → s.cntarr file = 0

section Message

variable {dashes : Text} {bs : List Block} {s : State}

theorem out_one {file line line' : Text} {lines : List Text} {n : Nat}
    (h : s.texts file n = line :: line' :: lines) : s.out file 1 = line' := by
  have h₁ : (s.texts file n)[1]? = some line' := by rw [h]; rfl
  unfold State.texts at h₁
  rw [List.getElem?_map] at h₁
  obtain ⟨k, hk, hout⟩ := Option.map_eq_some_iff.1 h₁
  have hk₁ : k = 1 := by
    obtain ⟨hlt, heq⟩ := List.getElem?_eq_some_iff.1 hk
    rw [List.getElem_range] at heq
    exact heq.symm
  rw [← hk₁, hout]

/-- The message puts a separator behind the last block too. -/
theorem Collecting.complete {done : List Block} {last : Block}
    (hn : ((done ++ [last]).map Block.name).Nodup)
    (h : Collecting dashes done last (last.lines dashes) s) :
    Complete dashes (done ++ [last]) s.complete := by
  have hb : last.name ∉ done.map Block.name := by
    rw [List.map_append, List.nodup_append] at hn
    exact fun hin => hn.2.2 _ hin _ List.mem_cons_self rfl
  have hdash : (s.store []).out s.file 1 = dashes := by
    rw [h.file]
    exact out_one (h.store hb []).current
  have hc := (h.store hb []).store hb dashes
  have heq : s.complete = ((s.store []).store dashes).saveCnt := by
    unfold State.complete
    rw [if_pos (h.file ▸ last.name_ne_nil : s.file ≠ []), hdash]
  rw [heq]
  refine ⟨h.files, fun d hd => ?_, fun file hf => ?_⟩
  · unfold State.saveCnt
    rcases List.mem_append.1 hd with hd | hd
    · have hne : d.name ≠ s.file := fun e => hb ((h.file ▸ e) ▸ List.mem_map_of_mem hd)
      simp only [store_file, Function.update_of_ne hne]
      exact hc.stored d hd
    · rw [List.mem_singleton.1 hd]
      simp only [store_file, h.file, Function.update_self]
      exact hc.current.trans (List.append_assoc _ _ _)
  · have hne : file ≠ s.file := by
      intro e
      rw [e, h.file] at hf
      exact hf (h.files ▸ List.mem_map_of_mem (List.mem_append_right _ List.mem_cons_self))
    unfold State.saveCnt
    simp only [store_file, Function.update_of_ne hne]
    exact h.untouched file hf

/-- Leaving the last two lines out. -/
theorem printed_last {file : Text} {lines : List Text} {x y : Text}
    (h : s.texts file (s.cntarr file) = lines ++ [x, y]) : printed s [file] = lines := by
  have hlen : s.cntarr file = lines.length + 2 := by
    have hl := congrArg List.length h
    simpa [State.texts] using hl
  rw [hlen] at h
  have hf : (List.range (lines.length + 2)).filter (fun i => i < lines.length)
      = List.range lines.length := by
    have hall : (List.range lines.length).filter (fun i => i < lines.length)
        = List.range lines.length :=
      List.filter_eq_self.2 fun i hi => decide_eq_true (List.mem_range.1 hi)
    rw [List.range_succ, List.range_succ, List.filter_append, List.filter_append, hall]
    simp
  have hr : (List.range lines.length).map (s.out file) = lines := by
    unfold State.texts at h
    rw [List.range_succ, List.range_succ, List.append_assoc, List.map_append] at h
    exact List.append_inj_left' h rfl
  unfold printed printed
  rw [hlen]
  simpa [hf] using hr

theorem Complete.printed_names (h : Complete dashes bs s) : ∀ {ds : List Block}, (∀ d ∈ ds, d ∈ bs) →
    printed s (ds.map Block.name) = joined dashes ds
  | [], _ => rfl
  | [d], hds => by
      rw [List.map_singleton, printed_last (h.stored d (hds d List.mem_cons_self))]
      exact List.intercalate_singleton.symm
  | d :: d' :: ds, hds => by
      have ih : printed s ((d' :: ds).map Block.name) = joined dashes (d' :: ds) :=
        h.printed_names fun x hx => hds x (List.mem_cons_of_mem d hx)
      have hd := h.stored d (hds d List.mem_cons_self)
      unfold State.texts at hd
      rw [List.map_cons, printed, ih]
      simp [hd, joined, Block.stored, List.intercalate_cons_cons]

/-- The sorted names are the names of the sorted blocks. -/
theorem Complete.asorti_files (h : Complete dashes bs s) :
    asorti s.files = (sorted bs).map Block.name := by
  rw [h.files]
  exact (List.map_insertionSort byName (fun a b : Text => notAfter a b = true) Block.name bs
    fun _ _ _ _ => Iff.rfl).symm

end Message

/-! ## 6. Around the blocks -/

/-- Between collections: a message finds only numerals among the files, with nothing under them. -/
structure Idle (s : State) : Prop where
  file : s.file = []
  files : s.files = numerals s.files.length
  empty : ∀ file ∈ s.files, s.cntarr file = 0

theorem printed_empty {s : State} : ∀ {names : List Text}, (∀ file ∈ names, s.cntarr file = 0) →
    printed s names = []
  | [], _ => rfl
  | file :: names, h => by
      rw [printed, h file List.mem_cons_self, printed_empty fun f hf => h f (List.mem_cons_of_mem _ hf)]
      rfl

theorem length_numerals (n : Nat) : (numerals n).length = n := by
  rw [numerals, List.length_map, List.length_range]

theorem Idle.onMessage {s : State} (h : Idle s) :
    (onMessage s).1 = [] ∧ Idle (onMessage s).2 := by
  have hc : s.complete = s := by
    unfold State.complete
    rw [if_neg (not_not_intro h.file)]
  have hnames : ∀ file ∈ asorti s.files, s.cntarr file = 0 := fun file hf =>
    h.empty file ((List.perm_insertionSort _ s.files).mem_iff.1 hf)
  unfold ShowSort.onMessage
  simp only [hc]
  refine ⟨printed_empty hnames, rfl, ?_, fun file hf => ?_⟩
  · simp only [length_numerals]
  · exact h.empty file (h.files ▸ hf)

/-- Lines that start no block are printed as they come, messages among them too. -/
theorem Idle.run {lines : List Text} (hl : ∀ line ∈ lines, ¬ StartsBlock line) : ∀ {s : State},
    Idle s → (run s lines).1 = lines := by
  induction lines with
  | nil => exact fun _ => rfl
  | cons line lines ih =>
      intro s h
      have hline := hl line List.mem_cons_self
      have ih' := fun {s : State} => ih (fun l hm => hl l (List.mem_cons_of_mem line hm)) (s := s)
      rw [ShowSort.run]
      by_cases hm : IsMessage line
      · rw [turn_message hm, h.onMessage.1, ih' h.onMessage.2]
        rfl
      · rw [turn_idle hline hm h.file, ih' h]
        rfl

/-- The same without messages, whatever was collected before. -/
theorem run_quiet {lines : List Text} (hl : ∀ line ∈ lines, ¬ StartsBlock line)
    (hm : ∀ line ∈ lines, ¬ IsMessage line) {s : State} (hs : s.file = []) :
    (run s lines).1 = lines := by
  induction lines with
  | nil => rfl
  | cons line lines ih =>
      have ih' := ih (fun l h => hl l (List.mem_cons_of_mem line h))
        fun l h => hm l (List.mem_cons_of_mem line h)
      rw [run, turn_idle (hl line List.mem_cons_self) (hm line List.mem_cons_self) hs, ih']
      rfl

theorem run_start {lines : List Text} (hl : ∀ line ∈ lines, ¬ StartsBlock line) :
    run initial lines = (lines, initial) := by
  induction lines with
  | nil => rfl
  | cons line lines ih =>
      have ih' := ih fun l h => hl l (List.mem_cons_of_mem line h)
      have hline := hl line List.mem_cons_self
      by_cases hm : IsMessage line
      · rw [run, turn_message hm, show (onMessage initial).2 = initial from rfl, ih']
        rfl
      · rw [run, turn_idle hline hm rfl, ih']
        rfl

/-- Behind the message nothing is open, and the files are numbered. -/
theorem Complete.idle {dashes : Text} {bs : List Block} {s : State} (h : Complete dashes bs s.complete)
    (hn : ∀ b ∈ bs, b.name ∉ numerals bs.length) : Idle (onMessage s).2 := by
  have hlen : s.complete.files.length = bs.length := by rw [h.files, List.length_map]
  unfold onMessage
  refine ⟨rfl, ?_, fun file hf => h.untouched file fun hin => ?_⟩
  · simp only [length_numerals]
  · simp only [hlen] at hf
    rw [h.files] at hin
    obtain ⟨b, hb, rfl⟩ := List.mem_map.1 hin
    exact hn b hb hf

/-! ## 7. The output -/

theorem notAfter_cons {c d : Char} {s t : Text} : notAfter (c :: s) (d :: t) = true ↔
    c.toNat < d.toNat ∨ c.toNat = d.toNat ∧ notAfter s t = true := by
  rw [notAfter, Bool.or_eq_true, Bool.and_eq_true, decide_eq_true_eq, decide_eq_true_eq]

theorem notAfter_total : ∀ s t : Text, notAfter s t = true ∨ notAfter t s = true
  | [], _ => Or.inl rfl
  | _ :: _, [] => Or.inr rfl
  | c :: s, d :: t => by
      rw [notAfter_cons, notAfter_cons]
      rcases Nat.lt_trichotomy c.toNat d.toNat with h | h | h
      · exact Or.inl (Or.inl h)
      · rcases notAfter_total s t with ih | ih
        · exact Or.inl (Or.inr ⟨h, ih⟩)
        · exact Or.inr (Or.inr ⟨h.symm, ih⟩)
      · exact Or.inr (Or.inl h)

theorem notAfter_trans : ∀ {s t u : Text}, notAfter s t = true → notAfter t u = true → notAfter s u = true
  | [], _, _, _, _ => rfl
  | _ :: _, [], _, h, _ => by cases h
  | _ :: _, _ :: _, [], _, h => by cases h
  | c :: s, d :: t, e :: u, h, h' => by
      rw [notAfter_cons] at h h' ⊢
      rcases h with h | ⟨h, hs⟩
      · rcases h' with h' | ⟨h', -⟩
        · exact Or.inl (Nat.lt_trans h h')
        · exact Or.inl (h' ▸ h)
      · rcases h' with h' | ⟨h', hs'⟩
        · exact Or.inl (h ▸ h')
        · exact Or.inr ⟨h.trans h', notAfter_trans hs hs'⟩

theorem notAfter_antisymm : ∀ {s t : Text}, notAfter s t = true → notAfter t s = true → s = t
  | [], [], _, _ => rfl
  | [], _ :: _, _, h => by cases h
  | _ :: _, [], h, _ => by cases h
  | c :: s, d :: t, h, h' => by
      rw [notAfter_cons] at h h'
      have heq : c.toNat = d.toNat := by omega
      have hs : notAfter s t = true := (h.resolve_left (by omega)).2
      have hs' : notAfter t s = true := (h'.resolve_left (by omega)).2
      rw [Char.toNat_inj.1 heq, notAfter_antisymm hs hs']

instance : Std.Total byName := ⟨fun a b => notAfter_total a.name b.name⟩

instance : IsTrans Block byName := ⟨fun _ _ _ h h' => notAfter_trans h h'⟩

/-- Blocks of different files have one order. -/
theorem sorted_perm {bs bs' : List Block} (hp : bs'.Perm bs) (hn : (bs.map Block.name).Nodup) :
    sorted bs' = sorted bs := by
  have hs := List.perm_insertionSort byName bs
  have hs' := List.perm_insertionSort byName bs'
  refine List.Perm.eq_of_pairwise (fun a b ha hb hab hba => ?_)
    (List.pairwise_insertionSort byName bs') (List.pairwise_insertionSort byName bs)
    (hs'.trans (hp.trans hs.symm))
  have ha' : a ∈ bs := hp.mem_iff.1 (hs'.mem_iff.1 ha)
  have hb' : b ∈ bs := hs.mem_iff.1 hb
  exact List.inj_on_of_nodup_map hn ha' hb' (notAfter_antisymm hab hba)

/-- From the beginning to the message. -/
theorem run_message {pre : List Text} {dashes message : Text} {bs : List Block}
    (hpre : ∀ line ∈ pre, ¬ StartsBlock line) (hd : Plain dashes) (hm : IsMessage message)
    (hne : bs ≠ []) (hn : (bs.map Block.name).Nodup) (tail : List Text) :
    ∃ s, Complete dashes bs s.complete ∧
      output (pre ++ joined dashes bs ++ message :: tail)
        = pre ++ joined dashes (sorted bs) ++ message :: (run (onMessage s).2 tail).1 := by
  obtain ⟨b, rest, rfl⟩ := List.exists_cons_of_ne_nil hne
  obtain ⟨hout, done, last, hlast, hc⟩ :=
    run_blocks hd rest (by simpa using hn) (collecting_first b)
  have hcomplete := hc.complete (by rw [hlast]; simpa using hn)
  rw [hlast, List.nil_append] at hcomplete
  refine ⟨_, hcomplete, ?_⟩
  have hprinted : (onMessage (run initial (joined dashes (b :: rest))).2).1
      = joined dashes (sorted (b :: rest)) := by
    unfold onMessage
    simp only
    rw [hcomplete.asorti_files, hcomplete.printed_names]
    exact fun d hd => (List.perm_insertionSort byName _).mem_iff.1 hd
  unfold output
  rw [run_append, run_append, run_start hpre]
  simp only [run, turn_message hm, hout, hprinted, List.append_nil, List.append_assoc,
    List.singleton_append]

/-- The blocks are printed in the order of their files, whatever their order in the input. -/
theorem output_sorted {pre tail : List Text} {dashes message : Text} {bs : List Block}
    (hpre : ∀ line ∈ pre, ¬ StartsBlock line) (hd : Plain dashes) (hm : IsMessage message)
    (hne : bs ≠ []) (hn : (bs.map Block.name).Nodup) (ht : ∀ line ∈ tail, ¬ StartsBlock line)
    (hagain : (∀ line ∈ tail, ¬ IsMessage line) ∨ ∀ b ∈ bs, b.name ∉ numerals bs.length) :
    ∀ bs', bs'.Perm bs → output (pre ++ joined dashes bs' ++ message :: tail)
      = pre ++ joined dashes (sorted bs) ++ message :: tail := by
  intro bs' hp
  have hne' : bs' ≠ [] := fun h => hne (List.nil_perm.1 (h ▸ hp))
  have hn' : (bs'.map Block.name).Nodup := ((hp.map Block.name).nodup_iff).2 hn
  obtain ⟨s, hc, hout⟩ := run_message hpre hd hm hne' hn' tail
  rw [hout, sorted_perm hp hn]
  rcases hagain with hquiet | hnum
  · rw [run_quiet ht hquiet rfl]
  · have hidle : Idle (onMessage s).2 :=
      hc.idle fun b hb => hp.length_eq ▸ hnum b (hp.mem_iff.1 hb)
    rw [hidle.run ht]

/-- The line with SHOW for a file. -/
def showLine (file : Text) : Text := showWord ++ ' ' :: file

/-- A region with nothing but its first two lines. -/
def emptyBlock (c : Char) (h : StartsBlock (showLine [c])) : Block := ⟨showLine [c], [], h, by simp⟩

/-- Two regions, in the order of the input that is not the order of the files. -/
theorem output_sorted_two :
    output (joined ['-'] [emptyBlock 'b' (by decide), emptyBlock 'a' (by decide)] ++ [messageWord])
      = joined ['-'] [emptyBlock 'a' (by decide), emptyBlock 'b' (by decide)] ++ [messageWord] := by
  have hnone : ∀ line ∈ ([] : List Text), ¬ StartsBlock line := fun _ h => absurd h List.not_mem_nil
  have hquiet : ∀ line ∈ ([] : List Text), ¬ IsMessage line := fun _ h => absurd h List.not_mem_nil
  exact output_sorted hnone (by decide : Plain ['-']) (by decide : IsMessage messageWord)
    (List.cons_ne_nil (emptyBlock 'b' (by decide)) [emptyBlock 'a' (by decide)]) (by decide) hnone
    (Or.inl hquiet) _ (List.Perm.refl _)

/-- A line with SHOW behind the message is not printed. -/
theorem output_tail_lost :
    ¬ ∀ (pre tail : List Text) (dashes message : Text) (bs : List Block),
      (∀ line ∈ pre, ¬ StartsBlock line) → Plain dashes → IsMessage message → bs ≠ [] →
      (bs.map Block.name).Nodup → ∀ bs', bs'.Perm bs →
        output (pre ++ joined dashes bs' ++ message :: tail)
          = pre ++ joined dashes (sorted bs) ++ message :: tail := by
  intro h
  have hrun := h [] [showLine ['b']] ['-'] messageWord [emptyBlock 'a' (by decide)] (by simp)
    (by decide) (by decide) (by simp) (by decide) _ (List.Perm.refl _)
  exact absurd hrun (by decide)

end YottaTest.Com.ShowSort
