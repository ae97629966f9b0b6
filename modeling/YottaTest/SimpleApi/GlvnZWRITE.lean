/-
  File:      YottaTest/SimpleApi/GlvnZWRITE.lean
  Subject:   glvnZWRITE.c: the nodes under a variable, printed by two traversals.

  `glvnZWRITEsubtree` goes through the tree of a variable by recursion with `ydb_subscript_next_s`, or by
  a loop with `ydb_node_next_s`. The calls of the first read and write buffers: each level of the recursion
  has three of its own, and all levels have one array of subscripts, which points to them. A byte is a
  character here.

  * `Tree` -- the nodes of a variable; `ydb_get_s`, `ydb_data_s`, `ydb_subscript_next_s`,
    `ydb_subscript_previous_s`, `ydb_node_next_s` -- the calls, on such a tree;
  * `Machine` -- the buffers, the array and what was printed; `turn`, `subtree` -- the recursion;
  * `nodeLoop` -- the loop over the nodes, with its two arrays;
  * `At`, `Frame` -- the array holds a path; what is below a level is left as it was;
  * `turn_next`, `turn_end` -- **one turn goes to the next child, and its check of the way back holds**;
  * `traversals_agree` -- **both print the nodes that have a value, once each and in order.**
-/
import Mathlib.Data.List.GetD
import YottaTest.Lib.Subtree
import YottaTest.Lib.Table

namespace YottaTest.SimpleApi.GlvnZWRITE

open YottaTest.Lib YottaTest.Lib.Collation

abbrev Text := List Char
abbrev Path := List Text

def BUFFALLOCLEN : Nat := 64
def YDB_MAX_SUBS : Nat := 31

/-! ## 1. The tree and the calls -/

/-- The nodes of a variable that have a value, by their subscripts. -/
structure Tree where
  order : Collation Text
  nodes : Table Path Text
  depth : ∀ p ∈ nodes.entries.map Prod.fst, p.length ≤ YDB_MAX_SUBS
  subscripts : ∀ p ∈ nodes.entries.map Prod.fst, ∀ s ∈ p, s ≠ [] ∧ s.length ≤ BUFFALLOCLEN
  values : ∀ p v, nodes.get p = some v → v.length ≤ BUFFALLOCLEN

def Tree.paths (t : Tree) : List Path := t.nodes.entries.map Prod.fst

inductive Status where
  | ok | nodeend | lvundef | gvundef | invstrlen | paraminsufsubs
  deriving DecidableEq

/-- A text for a buffer of `BUFFALLOCLEN` bytes. -/
def stored (text : Text) : Status × Text :=
  if text.length ≤ BUFFALLOCLEN then (.ok, text) else (.invstrlen, [])

/-- What stands beside a subscript, if anything does. -/
def neighbour : Option Text → Status × Text
  | some k => stored k
  | none => (.nodeend, [])

section Calls

variable (t : Tree)

def ydb_get_s (basevar : Text) (subs : Path) : Status × Text :=
  match t.nodes.get subs with
  | some value => stored value
  | none => (if basevar.head? = some '^' then .gvundef else .lvundef, [])

/-- 1 for a value, 10 for nodes below. -/
def ydb_data_s (subs : Path) : Nat :=
  (if subs ∈ t.paths then 1 else 0) + (if ∃ x ∈ t.paths, subs <+: x ∧ x ≠ subs then 10 else 0)

/-- From the last of the subscripts, among those under the others. -/
def ydb_subscript_next_s (subs : Path) : Status × Text :=
  neighbour (t.order.next (children t.paths subs.dropLast) (place (subs.getLast?.getD [])))

def ydb_subscript_previous_s (subs : Path) : Status × Text :=
  neighbour (t.order.flip.next (children t.paths subs.dropLast) (place (subs.getLast?.getD [])))

/-- The next node that has a value. -/
def ydb_node_next_s (subs : Path) (subs_used : Nat) : Status × Path :=
  match t.order.words.next t.paths (some subs) with
  | none => (.nodeend, [])
  | some x =>
      if subs_used < x.length then (.paraminsufsubs, [])
      else if ∃ s ∈ x, BUFFALLOCLEN < s.length then (.invstrlen, []) else (.ok, x)

end Calls

/-! ## 2. Printing -/

/-- Why a run stops: an assertion fails, a line does not fit its buffer, or there are no turns left. -/
inductive Stop where
  | assertion | overflow | turns

def YDB_ASSERT (p : Prop) [Decidable p] : Except Stop Unit := if p then .ok () else .error .assertion

section Printing

variable (t : Tree) (zwr : Text → Text) (basevar : Text)

/-- `ydb_str2zwr_s` into a buffer of 1024 bytes. -/
def ydb_str2zwr_s (text : Text) : Except Stop Text := do
  YDB_ASSERT ((zwr text).length ≤ 1024)
  return zwr text

/-- The subscripts with commas between them. -/
def subsText : Path → Except Stop Text
  | [] => return []
  | [s] => ydb_str2zwr_s zwr s
  | s :: subs => do
      let text ← ydb_str2zwr_s zwr s
      let rest ← subsText subs
      return text ++ ',' :: rest

/-- What `%s` prints of a buffer. -/
def cstring (text : Text) : Text := text.takeWhile fun c => c ≠ '\x00'

/-- `glvnPrintNodeIfExists`, with the lines that it prints. -/
def glvnPrintNodeIfExists (subs : Path) (node_must_exist : Bool) : Except Stop (List Text) := do
  let (status, retvalue) := ydb_get_s t basevar subs
  if basevar.head? ≠ some '^' ∧ status = .lvundef ∨ basevar.head? = some '^' ∧ status = .gvundef then do
    YDB_ASSERT (node_must_exist = false)
    return []
  else do
    YDB_ASSERT (status = .ok)
    let inner ← subsText zwr subs
    let value ← ydb_str2zwr_s zwr retvalue
    let strbuff := basevar ++ (if subs = [] then [] else '(' :: inner ++ [')']) ++ '=' :: value
    if strbuff.length < 1024 then return [cstring strbuff] else throw .overflow

end Printing

/-! ## 3. Memory -/

section Memory

variable {α : Type}

/-- The first places of an array. -/
def read (a : Nat → α) (n : Nat) : List α := (List.range n).map a

/-- An array with something written over its first places; what is behind stays. -/
def fill (a : Nat → α) (xs : List α) : Nat → α := fun i => xs.getD i (a i)

theorem length_read (a : Nat → α) (n : Nat) : (read a n).length = n := by
  rw [read, List.length_map, List.length_range]

theorem read_succ (a : Nat → α) (n : Nat) : read a (n + 1) = read a n ++ [a n] := by
  rw [read, List.range_succ, List.map_append]
  rfl

theorem read_congr {a b : Nat → α} {n : Nat} (h : ∀ i < n, a i = b i) : read a n = read b n :=
  List.map_congr_left fun i hi => h i (List.mem_range.1 hi)

theorem read_fill (a : Nat → α) (xs : List α) : read (fill a xs) xs.length = xs := by
  refine List.ext_getElem (length_read _ _) fun i hi hxs => ?_
  simp only [read, fill, List.getElem_map, List.getElem_range]
  exact List.getD_eq_getElem _ _ hxs

end Memory

/-! ## 4. The recursion -/

/-- The buffers that each level of the recursion has. -/
inductive Local where
  | subsbuff | retvaluebuff | tmpvaluebuff
  deriving DecidableEq

structure Addr where
  level : Nat
  which : Local
  deriving DecidableEq

/-- `ydb_buffer_t` -/
structure Buffer where
  buf_addr : Addr
  len_used : Nat

structure Machine where
  mem : Addr → Nat → Char
  subscr : Nat → Buffer
  out : List Text

namespace Machine

def content (m : Machine) (b : Buffer) : Text := read (m.mem b.buf_addr) b.len_used

def memcpy (m : Machine) (dst : Addr) (text : Text) : Machine :=
  { m with mem := fun a => if a = dst then fill (m.mem dst) text else m.mem a }

def setSubscr (m : Machine) (i : Nat) (b : Buffer) : Machine :=
  { m with subscr := fun j => if j = i then b else m.subscr j }

/-- The first subscripts of the array. -/
def subs (m : Machine) (n : Nat) : Path := read (fun i => m.content (m.subscr i)) n

/-- A call that gives a subscript into a buffer, with the assertion behind it. -/
def fetch (m : Machine) (b : Buffer) (call : Status × Text) : Except Stop (Machine × Buffer) := do
  YDB_ASSERT (call.1 = .ok ∨ call.1 = .nodeend)
  if call.1 = .nodeend then return (m, { b with len_used := 0 })
  else return (m.memcpy b.buf_addr call.2, { b with len_used := call.2.length })

end Machine

/-- The buffers of a level that the turns of its loop keep. -/
structure Locals where
  retvalue : Buffer
  tmpvalue : Buffer

/-- `if (!retvalue.len_used) break;`, and else the subscript that was found goes into the array. -/
def turnEnd (nsubs : Nat) (l : Locals) (m : Machine) : Bool × Locals × Machine :=
  if l.retvalue.len_used = 0 then (true, l, m)
  else
    let m := m.memcpy (m.subscr nsubs).buf_addr (m.content l.retvalue)
    (false, l, m.setSubscr nsubs { m.subscr nsubs with len_used := l.retvalue.len_used })

section Recursion

variable (t : Tree) (zwr : Text → Text) (basevar : Text)

/-- One turn of `for ( ; ; )`, up to the recursive call; `true` where it breaks. -/
def turn (nsubs : Nat) (l : Locals) (m : Machine) : Except Stop (Bool × Locals × Machine) := do
  let (m, retvalue) ← m.fetch l.retvalue (ydb_subscript_next_s t (m.subs (nsubs + 1)))
  let tmpvalue2 := m.subscr nsubs
  let m := m.setSubscr nsubs retvalue
  let (m, tmpvalue) ← m.fetch l.tmpvalue (ydb_subscript_previous_s t (m.subs (nsubs + 1)))
  YDB_ASSERT (tmpvalue.len_used = tmpvalue2.len_used)
  YDB_ASSERT (tmpvalue.len_used = 0 ∨ read (m.mem tmpvalue.buf_addr) tmpvalue2.len_used
    = read (m.mem tmpvalue2.buf_addr) tmpvalue2.len_used)
  return turnEnd nsubs ⟨retvalue, tmpvalue⟩ (m.setSubscr nsubs tmpvalue2)

/-- The loop, with the recursive call as `below` and a limit on its turns. -/
def loop (nsubs : Nat) (below : Machine → Except Stop Machine) :
    Nat → Locals → Machine → Except Stop Machine
  | 0, _, _ => throw .turns
  | turns + 1, l, m => do
      let (done, l, m) ← turn t nsubs l m
      if done then return m
      else do
        let m ← below m
        loop nsubs below turns l m

def printNode (m : Machine) (nsubs : Nat) : Except Stop Machine := do
  let lines ← glvnPrintNodeIfExists t zwr basevar (m.subs nsubs) false
  return { m with out := m.out ++ lines }

/-- `glvnZWRITEsubtree` with `ydb_subscript_next_s`, by the levels that are left below `nsubs`. -/
def subtree (turns : Nat) : Nat → Machine → Except Stop Machine
  | 0, m => printNode t zwr basevar m YDB_MAX_SUBS
  | levels + 1, m => do
      let nsubs := YDB_MAX_SUBS - (levels + 1)
      let m ← printNode t zwr basevar m nsubs
      let m := m.setSubscr nsubs ⟨⟨nsubs, .subsbuff⟩, 0⟩
      let m ← if ydb_data_s t (m.subs (nsubs + 1)) ≠ 0 then subtree turns levels m else pure m
      let m := m.setSubscr nsubs { m.subscr nsubs with len_used := 0 }
      loop t nsubs (subtree turns levels) turns
        ⟨⟨⟨nsubs, .retvaluebuff⟩, 0⟩, ⟨⟨nsubs, .tmpvaluebuff⟩, 0⟩⟩ m

end Recursion

/-! ## 5. The loop over the nodes -/

section Loop

variable (t : Tree) (zwr : Text → Text) (basevar : Text)

/-- The `do` loop: after each turn the two arrays change places. -/
def nodeLoop : Nat → (src dst : Nat → Text) → (src_used : Nat) → (node_must_exist : Bool) →
    (out : List Text) → Except Stop (List Text)
  | 0, _, _, _, _, _ => throw .turns
  | turns + 1, src, dst, src_used, node_must_exist, out => do
      let subs := read src src_used
      let lines ← glvnPrintNodeIfExists t zwr basevar subs node_must_exist
      let (status, x) := ydb_node_next_s t subs (YDB_MAX_SUBS + 1)
      if status = .nodeend then return out ++ lines
      else do
        YDB_ASSERT (status = .ok)
        nodeLoop turns (fill dst x) src x.length true (out ++ lines)

/-- Both sides of `glvnZWRITEsubtree`, for a variable. -/
def bySubscripts (turns : Nat) (m : Machine) : Except Stop (List Text) := do
  let m ← subtree t zwr basevar turns YDB_MAX_SUBS { m with out := [] }
  return m.out

def byNodes (turns : Nat) : Except Stop (List Text) :=
  nodeLoop t zwr basevar turns (fun _ => []) (fun _ => []) 0 false []

end Loop

/-! ## 6. The lines -/

theorem YDB_ASSERT_ok {p : Prop} [Decidable p] (h : p) : YDB_ASSERT p = .ok () := if_pos h

/-- The line for a node. -/
def line (zwr : Text → Text) (basevar : Text) (p : Path) (value : Text) : Text :=
  basevar ++ (if p = [] then [] else '(' :: [','].intercalate (p.map zwr) ++ [')']) ++ '=' :: zwr value

section Lines

variable {t : Tree} {zwr : Text → Text} {basevar : Text}

/-- Every line has room in its buffer. -/
def Fits (t : Tree) (zwr : Text → Text) (basevar : Text) : Prop :=
  ∀ p v, t.nodes.get p = some v → (line zwr basevar p v).length < 1024

/-- What is printed for a node. -/
def printed (t : Tree) (zwr : Text → Text) (basevar : Text) (p : Path) : Text :=
  cstring (line zwr basevar p ((t.nodes.get p).getD []))

theorem mem_paths {p : Path} : p ∈ t.paths ↔ ∃ v, t.nodes.get p = some v := by
  unfold Tree.paths
  simp only [List.mem_map, Prod.exists, exists_and_right, exists_eq_right, Table.mem_entries_iff]

theorem length_le_intercalate (c : Char) : ∀ {ts : List Text} {s : Text}, s ∈ ts →
    s.length ≤ ([c].intercalate ts).length
  | [t], s, h => by
      rw [List.mem_singleton.1 h]
      exact Nat.le_of_eq (congrArg List.length List.intercalate_singleton.symm)
  | t :: u :: ts, s, h => by
      rw [List.intercalate_cons_cons, List.length_append, List.length_append]
      rcases List.mem_cons.1 h with rfl | h
      · omega
      · have hle := length_le_intercalate c h
        omega

theorem ydb_str2zwr_s_ok {text : Text} (h : (zwr text).length ≤ 1024) :
    ydb_str2zwr_s zwr text = .ok (zwr text) := by
  unfold ydb_str2zwr_s
  rw [YDB_ASSERT_ok h]
  rfl

theorem subsText_ok : ∀ {subs : Path}, (∀ s ∈ subs, (zwr s).length ≤ 1024) →
    subsText zwr subs = .ok ([','].intercalate (subs.map zwr))
  | [], _ => rfl
  | [s], h => by
      rw [subsText, ydb_str2zwr_s_ok (h s List.mem_cons_self), List.map_singleton,
        List.intercalate_singleton]
  | s :: r :: subs, h => by
      obtain ⟨hs, hsubs⟩ := List.forall_mem_cons.1 h
      rw [subsText.eq_3 zwr s (r :: subs) (by simp), ydb_str2zwr_s_ok hs, subsText_ok hsubs]
      show Except.ok _ = Except.ok ([','].intercalate (zwr s :: zwr r :: subs.map zwr))
      rw [List.intercalate_cons_cons, List.append_assoc]
      rfl

theorem ydb_get_s_of_some {p : Path} {v : Text} (h : t.nodes.get p = some v) :
    ydb_get_s t basevar p = (.ok, v) := by
  unfold ydb_get_s
  rw [h]
  exact if_pos (t.values p v h)

/-- **The line of a node is printed.** -/
theorem print_node (hfit : Fits t zwr basevar) {p : Path} (hp : p ∈ t.paths) (must : Bool) :
    glvnPrintNodeIfExists t zwr basevar p must = .ok [printed t zwr basevar p] := by
  obtain ⟨v, hv⟩ := mem_paths.1 hp
  have hline := hfit p v hv
  have hvalue : (zwr v).length ≤ 1024 := by
    unfold line at hline
    rw [List.length_append, List.length_cons] at hline
    omega
  have hsubs : ∀ s ∈ p, (zwr s).length ≤ 1024 := by
    intro s hs
    have hle := length_le_intercalate ',' (List.mem_map_of_mem (f := zwr) hs)
    unfold line at hline
    rw [if_neg (List.ne_nil_of_mem hs)] at hline
    simp only [List.length_append, List.length_cons] at hline
    omega
  unfold glvnPrintNodeIfExists printed
  rw [ydb_get_s_of_some hv, hv, Option.getD_some]
  dsimp only
  rw [if_neg (by simp), YDB_ASSERT_ok rfl, subsText_ok hsubs, ydb_str2zwr_s_ok hvalue]
  exact if_pos hline

theorem print_here (hfit : Fits t zwr basevar) (p : Path) :
    glvnPrintNodeIfExists t zwr basevar p false = .ok ((here t.paths p).map (printed t zwr basevar)) := by
  unfold here
  by_cases hp : p ∈ t.paths
  · rw [if_pos hp]
    exact print_node hfit hp false
  · have hnone : t.nodes.get p = none := by
      cases hv : t.nodes.get p with
      | none => rfl
      | some v => exact absurd (mem_paths.2 ⟨v, hv⟩) hp
    rw [if_neg hp]
    unfold glvnPrintNodeIfExists ydb_get_s
    rw [hnone]
    dsimp only
    rw [if_pos (by by_cases hc : basevar.head? = some '^' <;> simp [hc]), YDB_ASSERT_ok rfl]
    rfl

end Lines

/-! ## 7. The array of subscripts -/

/-- The first subscripts of the array are a path, each in the buffer of its level. -/
structure At (m : Machine) (p : Path) : Prop where
  addr : ∀ i < p.length, (m.subscr i).buf_addr = ⟨i, .subsbuff⟩
  subs : m.subs p.length = p

/-- What a call leaves alone: the buffers below a level, and the subscripts there. -/
structure Frame (n : Nat) (m m' : Machine) : Prop where
  mem : ∀ a : Addr, a.level < n → m'.mem a = m.mem a
  subscr : ∀ i < n, m'.subscr i = m.subscr i

section Frames

variable {n k : Nat} {m m' m'' : Machine} {p : Path} {b : Buffer}

theorem Frame.refl (n : Nat) (m : Machine) : Frame n m m := ⟨fun _ _ => rfl, fun _ _ => rfl⟩

theorem Frame.trans (h : Frame n m m') (h' : Frame n m' m'') : Frame n m m'' where
  mem a ha := (h'.mem a ha).trans (h.mem a ha)
  subscr i hi := (h'.subscr i hi).trans (h.subscr i hi)

theorem Frame.mono (hk : k ≤ n) (h : Frame n m m') : Frame k m m' where
  mem a ha := h.mem a (Nat.lt_of_lt_of_le ha hk)
  subscr i hi := h.subscr i (Nat.lt_of_lt_of_le hi hk)

/-- A path stays where nothing below its end is written. -/
theorem At.frame (h : At m p) (hf : Frame p.length m m') : At m' p where
  addr i hi := by
    rw [hf.subscr i hi]
    exact h.addr i hi
  subs := by
    refine Eq.trans (read_congr fun i hi => ?_) h.subs
    unfold Machine.content
    rw [hf.subscr i hi, h.addr i hi, hf.mem _ hi]

theorem Machine.subs_succ (m : Machine) (n : Nat) :
    m.subs (n + 1) = m.subs n ++ [m.content (m.subscr n)] := read_succ _ n

theorem At.snoc (h : At m p) {s : Text} (haddr : (m.subscr p.length).buf_addr = ⟨p.length, .subsbuff⟩)
    (hs : m.content (m.subscr p.length) = s) : At m (p ++ [s]) where
  addr i hi := by
    rw [List.length_append, List.length_singleton] at hi
    rcases Nat.lt_succ_iff_lt_or_eq.1 hi with hlt | rfl
    · exact h.addr i hlt
    · exact haddr
  subs := by
    rw [List.length_append, List.length_singleton, Machine.subs_succ, h.subs, hs]

theorem At.init {s : Text} (h : At m (p ++ [s])) : At m p where
  addr i hi := h.addr i (by rw [List.length_append]; omega)
  subs := by
    have hsubs := h.subs
    rw [List.length_append, List.length_singleton, Machine.subs_succ] at hsubs
    exact (List.append_inj' hsubs rfl).1

theorem At.last {s : Text} (h : At m (p ++ [s])) :
    (m.subscr p.length).buf_addr = ⟨p.length, .subsbuff⟩ ∧ m.content (m.subscr p.length) = s := by
  refine ⟨h.addr p.length (by rw [List.length_append, List.length_singleton]; omega), ?_⟩
  have hsubs := h.subs
  rw [List.length_append, List.length_singleton, Machine.subs_succ] at hsubs
  exact List.singleton_inj.1 (List.append_inj' hsubs rfl).2

theorem Frame.setSubscr (n : Nat) (m : Machine) (b : Buffer) : Frame n m (m.setSubscr n b) where
  mem _ _ := rfl
  subscr _ hi := if_neg (Nat.ne_of_lt hi)

theorem Frame.memcpy {dst : Addr} (h : n ≤ dst.level) (m : Machine) (text : Text) :
    Frame n m (m.memcpy dst text) where
  mem a ha := if_neg fun heq => by
    rw [heq] at ha
    omega
  subscr _ _ := rfl

@[simp] theorem Machine.setSubscr_self (m : Machine) (n : Nat) (b : Buffer) :
    (m.setSubscr n b).subscr n = b := if_pos rfl

@[simp] theorem Machine.content_setSubscr (m : Machine) (n : Nat) (b c : Buffer) :
    (m.setSubscr n b).content c = m.content c := rfl

@[simp] theorem Machine.memcpy_subscr (m : Machine) (dst : Addr) (text : Text) :
    (m.memcpy dst text).subscr = m.subscr := rfl

theorem Machine.content_memcpy (m : Machine) (dst : Addr) (text : Text) :
    (m.memcpy dst text).content ⟨dst, text.length⟩ = text := by
  show read (if dst = dst then fill (m.mem dst) text else m.mem dst) text.length = text
  rw [if_pos rfl]
  exact read_fill _ text

theorem Machine.content_memcpy_of_ne (m : Machine) {dst : Addr} (text : Text) (h : b.buf_addr ≠ dst) :
    (m.memcpy dst text).content b = m.content b := by
  show read (if b.buf_addr = dst then _ else m.mem b.buf_addr) b.len_used = _
  rw [if_neg h]
  rfl

/-- What a call has put into a buffer. -/
structure Fetched (m : Machine) (b : Buffer) (text : Text) (r : Machine × Buffer) : Prop where
  addr : r.2.buf_addr = b.buf_addr
  len : r.2.len_used = text.length
  content : r.1.content r.2 = text
  other : ∀ c : Buffer, c.buf_addr ≠ b.buf_addr → r.1.content c = m.content c
  mem : ∀ a ≠ b.buf_addr, r.1.mem a = m.mem a
  subscr : r.1.subscr = m.subscr
  out : r.1.out = m.out

theorem Fetched.frame {text : Text} {r : Machine × Buffer} (h : Fetched m b text r)
    (hn : b.buf_addr.level = n) : Frame n m r.1 where
  mem a ha := h.mem a fun heq => by
    rw [heq, hn] at ha
    exact Nat.lt_irrefl n ha
  subscr i _ := congrFun h.subscr i

/-- **A call that finds a subscript, or none, passes its assertion.** -/
theorem fetch_ok {k : Option Text} (hk : ∀ x, k = some x → x.length ≤ BUFFALLOCLEN) (m : Machine)
    (b : Buffer) : ∃ r, m.fetch b (neighbour k) = .ok r ∧ Fetched m b (k.getD []) r := by
  unfold Machine.fetch
  cases k with
  | none =>
      have hcall : neighbour none = (.nodeend, []) := rfl
      refine ⟨(m, { b with len_used := 0 }), ?_, ?_⟩
      · rw [hcall, YDB_ASSERT_ok (Or.inr rfl)]
        rfl
      · exact ⟨rfl, rfl, rfl, fun _ _ => rfl, fun _ _ => rfl, rfl, rfl⟩
  | some x =>
      have hcall : neighbour (some x) = (.ok, x) := if_pos (hk x rfl)
      refine ⟨(m.memcpy b.buf_addr x, { b with len_used := x.length }), ?_, ?_⟩
      · rw [hcall, YDB_ASSERT_ok (Or.inl rfl)]
        rfl
      · exact ⟨rfl, rfl, m.content_memcpy b.buf_addr x, fun c hc => m.content_memcpy_of_ne x hc,
          fun a ha => if_neg ha, rfl, rfl⟩

end Frames

/-! ## 8. One turn -/

section Turn

variable {t : Tree} {p : Path}

theorem child_spec {k : Text} (h : k ∈ children t.paths p) :
    k ≠ [] ∧ k.length ≤ BUFFALLOCLEN ∧ p.length < YDB_MAX_SUBS := by
  obtain ⟨x, hx, s, rfl⟩ := mem_children.1 h
  have hk : k ∈ p ++ [k] ++ s := by simp
  have hdepth := t.depth _ hx
  rw [List.length_append, List.length_append, List.length_singleton] at hdepth
  exact ⟨(t.subscripts _ hx k hk).1, (t.subscripts _ hx k hk).2, by omega⟩

theorem place_getD {cur : Option Text} (h : ∀ k, cur = some k → k ≠ []) : place (cur.getD []) = cur := by
  cases cur with
  | none => rfl
  | some k =>
      cases k with
      | nil => exact absurd rfl (h [] rfl)
      | cons c s => rfl

theorem next_at {cur : Option Text} (h : ∀ k, cur = some k → k ≠ []) :
    ydb_subscript_next_s t (p ++ [cur.getD []]) = neighbour (t.order.next (children t.paths p) cur) := by
  unfold ydb_subscript_next_s
  rw [List.dropLast_concat, List.getLast?_concat, Option.getD_some, place_getD h]

theorem previous_at (cur : Option Text) (h : ∀ k, cur = some k → k ≠ []) :
    ydb_subscript_previous_s t (p ++ [cur.getD []])
      = neighbour (t.order.flip.next (children t.paths p) cur) := by
  unfold ydb_subscript_previous_s
  rw [List.dropLast_concat, List.getLast?_concat, Option.getD_some, place_getD h]

/-- The buffers of a level, for its loop. -/
structure Own (n : Nat) (l : Locals) : Prop where
  retvalue : l.retvalue.buf_addr = ⟨n, .retvaluebuff⟩
  tmpvalue : l.tmpvalue.buf_addr = ⟨n, .tmpvaluebuff⟩

theorem turnEnd_next {m : Machine} {l : Locals} {k : Text} (hat : At m p)
    (haddr : (m.subscr p.length).buf_addr = ⟨p.length, .subsbuff⟩) (hk : m.content l.retvalue = k)
    (hne : k ≠ []) :
    ∃ m', turnEnd p.length l m = (false, l, m') ∧ Frame p.length m m' ∧ m'.out = m.out ∧
      At m' (p ++ [k]) := by
  have hlen : l.retvalue.len_used = k.length := by rw [← hk, Machine.content, length_read]
  have hpos : l.retvalue.len_used ≠ 0 := by
    rw [hlen]
    exact fun h => hne (List.length_eq_zero_iff.1 h)
  have hlevel : p.length ≤ (⟨p.length, .subsbuff⟩ : Addr).level := Nat.le_refl _
  have hframe := (Frame.memcpy hlevel m k).trans (Frame.setSubscr p.length _ ⟨⟨p.length, .subsbuff⟩, k.length⟩)
  refine ⟨_, ?_, hframe, rfl, (hat.frame hframe).snoc ?_ ?_⟩
  · rw [turnEnd, if_neg hpos]
    dsimp only
    rw [haddr, hk, hlen, Machine.memcpy_subscr, haddr]
  · rw [Machine.setSubscr_self]
  · rw [Machine.setSubscr_self, Machine.content_setSubscr, Machine.content_memcpy]

/-- **A turn goes on to the next child, or ends behind the last one.** Its assertions hold: the way back
leads to where the turn began. -/
theorem turn_ok {m : Machine} {l : Locals} {cur : Option Text} (hat : At m (p ++ [cur.getD []]))
    (hcur : ∀ k, cur = some k → k ∈ children t.paths p) (hl : Own p.length l) :
    ∃ l' m', turn t p.length l m = .ok ((t.order.next (children t.paths p) cur).isNone, l', m') ∧
      Own p.length l' ∧ Frame p.length m m' ∧ m'.out = m.out ∧
      ∀ k, t.order.next (children t.paths p) cur = some k → At m' (p ++ [k]) := by
  have hne : ∀ k, cur = some k → k ≠ [] := fun k hk => (child_spec (hcur k hk)).1
  obtain ⟨haddr, hcontent⟩ := hat.last
  have hnextlen : ∀ k, t.order.next (children t.paths p) cur = some k →
      k ∈ children t.paths p := fun k hk => (next_spec hk).1
  -- the way back
  have hback : t.order.flip.next (children t.paths p) (t.order.next (children t.paths p) cur) = cur := by
    cases hn : t.order.next (children t.paths p) cur with
    | none => exact flip_next_of_end hcur hn
    | some k => exact flip_next_of_next hcur hn
  have hsubs : m.subs (p.length + 1) = p ++ [cur.getD []] := by
    have hall := hat.subs
    rwa [List.length_append, List.length_singleton] at hall
  have hcall₁ := next_at (t := t) (p := p) hne
  rw [← hsubs] at hcall₁
  generalize t.order.next (children t.paths p) cur = next at hnextlen hback hcall₁ ⊢
  -- the call of `ydb_subscript_next_s`
  have hlen₁ : ∀ k, next = some k → k.length ≤ BUFFALLOCLEN := fun k hk =>
    (child_spec (hnextlen k hk)).2.1
  obtain ⟨⟨m₁, retvalue⟩, hfetch₁, h₁⟩ := fetch_ok hlen₁ m l.retvalue
  have hframe₁ := h₁.frame (n := p.length) (by rw [hl.retvalue])
  -- the call of `ydb_subscript_previous_s`, with the subscript it gave in the array
  have hframe₂ := hframe₁.trans (Frame.setSubscr p.length m₁ retvalue)
  have hsubs₂ : (m₁.setSubscr p.length retvalue).subs (p.length + 1) = p ++ [next.getD []] := by
    rw [Machine.subs_succ, (hat.init.frame hframe₂).subs, Machine.setSubscr_self,
      Machine.content_setSubscr, h₁.content]
  have hcall₂ := previous_at (t := t) (p := p) next fun k hk => (child_spec (hnextlen k hk)).1
  rw [← hsubs₂, hback] at hcall₂
  have hlen₂ : ∀ k, cur = some k → k.length ≤ BUFFALLOCLEN := fun k hk => (child_spec (hcur k hk)).2.1
  obtain ⟨⟨m₃, tmpvalue⟩, hfetch₃, h₃⟩ := fetch_ok hlen₂ (m₁.setSubscr p.length retvalue) l.tmpvalue
  have hframe₃ := hframe₂.trans (h₃.frame (n := p.length) (by rw [hl.tmpvalue]))
  -- the subscript where the turn began is as it was
  have hkept : m₁.subscr p.length = m.subscr p.length := congrFun h₁.subscr p.length
  have hkept₃ : m₃.content (m.subscr p.length) = cur.getD [] := by
    rw [h₃.other _ (by rw [haddr, hl.tmpvalue]; simp), Machine.content_setSubscr,
      h₁.other _ (by rw [haddr, hl.retvalue]; simp), hcontent]
  have hlen : tmpvalue.len_used = (m.subscr p.length).len_used := by
    rw [h₃.len, ← hcontent, Machine.content, length_read]
  have hcmp : read (m₃.mem tmpvalue.buf_addr) (m.subscr p.length).len_used
      = read (m₃.mem (m.subscr p.length).buf_addr) (m.subscr p.length).len_used := by
    rw [← hlen]
    refine h₃.content.trans (hkept₃.symm.trans ?_)
    rw [Machine.content, hlen]
  have hframe₄ := hframe₃.trans (Frame.setSubscr p.length m₃ (m.subscr p.length))
  have hout : m₃.out = m.out := h₃.out.trans h₁.out
  have heval : turn t p.length l m = .ok (turnEnd p.length ⟨retvalue, tmpvalue⟩
      (m₃.setSubscr p.length (m.subscr p.length))) := by
    unfold turn
    rw [hcall₁, hfetch₁]
    dsimp only [bind, Except.bind]
    rw [hcall₂, hfetch₃]
    dsimp only
    rw [hkept, YDB_ASSERT_ok hlen]
    dsimp only
    rw [YDB_ASSERT_ok (Or.inr hcmp)]
    rfl
  have hown : Own p.length ⟨retvalue, tmpvalue⟩ := ⟨h₁.addr.trans hl.retvalue, h₃.addr.trans hl.tmpvalue⟩
  rw [heval]
  cases next with
  | none =>
      refine ⟨_, _, ?_, hown, hframe₄, hout, fun k hk => by cases hk⟩
      have hzero : retvalue.len_used = 0 := h₁.len
      rw [turnEnd, if_pos hzero]
      rfl
  | some k =>
      have hfound : (m₃.setSubscr p.length (m.subscr p.length)).content retvalue = k := by
        rw [Machine.content_setSubscr, h₃.other _ (by rw [h₁.addr, hl.retvalue, hl.tmpvalue]; simp),
          Machine.content_setSubscr, h₁.content, Option.getD_some]
      obtain ⟨m₆, hend, hframe₆, hout₆, hat₆⟩ := turnEnd_next (l := ⟨retvalue, tmpvalue⟩)
        (hat.init.frame hframe₄) (by rw [Machine.setSubscr_self, haddr]) hfound
        (child_spec (hnextlen k rfl)).1
      refine ⟨_, m₆, ?_, hown, hframe₄.trans hframe₆, hout₆.trans hout, fun k' hk' => ?_⟩
      · rw [hend]
        rfl
      · obtain rfl := Option.some.inj hk'
        exact hat₆

/-! ## 9. The recursion -/

/-- **The loop goes through all children**, if its recursive calls do what they are to. -/
theorem loop_ok {f : Path → Text} {levels : Nat} {below : Machine → Except Stop Machine}
    (hbelow : ∀ k m, At m (p ++ [k]) → k ∈ children t.paths p → ∃ m', below m = .ok m' ∧
      Frame (p ++ [k]).length m m' ∧ m'.out = m.out ++ (t.order.preorder t.paths levels (p ++ [k])).map f) :
    ∀ {turns : Nat} {cur : Option Text} {l : Locals} {m : Machine}, At m (p ++ [cur.getD []]) →
      (∀ k, cur = some k → k ∈ children t.paths p) → Own p.length l →
      ((children t.paths p).filter (t.order.behind cur)).length < turns →
      ∃ m', loop t p.length below turns l m = .ok m' ∧ Frame p.length m m' ∧
        m'.out = m.out ++ ((t.order.visit (children t.paths p) cur).flatMap fun k =>
          t.order.preorder t.paths levels (p ++ [k])).map f
  | 0, _, _, _, _, _, _, hturns => absurd hturns (Nat.not_lt_zero _)
  | turns + 1, cur, l, m, hat, hcur, hl, hturns => by
      obtain ⟨l', m₁, hturn, hl', hframe, hout, hnext⟩ := turn_ok hat hcur hl
      rw [loop, hturn]
      cases hn : t.order.next (children t.paths p) cur with
      | none =>
          refine ⟨m₁, rfl, hframe, ?_⟩
          rw [t.order.visit_of_none hn, hout, List.flatMap_nil, List.map_nil, List.append_nil]
      | some k =>
          have hk : k ∈ children t.paths p := (next_spec hn).1
          obtain ⟨m₂, hsub, hframe₂, hout₂⟩ := hbelow k m₁ (hnext k hn) hk
          have hat₂ : At m₂ (p ++ [(some k).getD []]) := (hnext k hn).frame hframe₂
          have hlevel : p.length ≤ (p ++ [k]).length := by
            rw [List.length_append]
            omega
          obtain ⟨m₃, hloop, hframe₃, hout₃⟩ := loop_ok hbelow hat₂
            (fun k' hk' => Option.some.inj hk' ▸ hk) hl'
            (Nat.lt_of_lt_of_le (next_fewer hn) (Nat.le_of_lt_succ hturns))
          refine ⟨m₃, ?_, (hframe.trans (hframe₂.mono hlevel)).trans hframe₃, ?_⟩
          · dsimp only [bind, Except.bind, Option.isNone_some]
            rw [if_neg Bool.false_ne_true, hsub]
            exact hloop
          · rw [hout₃, hout₂, hout, t.order.visit_of_some hn, List.flatMap_cons, List.map_append,
              List.append_assoc]

variable {zwr : Text → Text} {basevar : Text}

/-- A node has no empty subscript. -/
theorem ydb_data_s_empty : ydb_data_s t (p ++ [[]]) = 0 := by
  have hnone : ∀ x ∈ t.paths, ¬ p ++ [[]] <+: x := by
    intro x hx h
    exact (child_spec (mem_children.2 ⟨x, hx, h⟩)).1 rfl
  unfold ydb_data_s
  rw [if_neg fun h => hnone _ h List.prefix_rfl, if_neg]
  intro h
  obtain ⟨x, hx, hpre, -⟩ := h
  exact hnone x hx hpre

theorem printNode_ok (hfit : Fits t zwr basevar) {m : Machine} (hat : At m p) :
    printNode t zwr basevar m p.length
      = .ok { m with out := m.out ++ (here t.paths p).map (printed t zwr basevar) } := by
  unfold printNode
  rw [hat.subs, print_here hfit]
  rfl

/-- **The recursion prints the nodes below a path.** -/
theorem subtree_ok (hfit : Fits t zwr basevar) {turns : Nat} (hturns : t.paths.length < turns) :
    ∀ {levels : Nat} {p : Path} {m : Machine}, p.length + levels = YDB_MAX_SUBS → At m p →
      ∃ m', subtree t zwr basevar turns levels m = .ok m' ∧ Frame p.length m m' ∧
        m'.out = m.out ++ (t.order.preorder t.paths levels p).map (printed t zwr basevar)
  | 0, p, m, hlevels, hat => by
      rw [Nat.add_zero] at hlevels
      refine ⟨{ m with out := m.out ++ (here t.paths p).map (printed t zwr basevar) }, ?_,
        ⟨fun _ _ => rfl, fun _ _ => rfl⟩, by rw [preorder]⟩
      rw [subtree, ← hlevels, printNode_ok hfit hat]
  | levels + 1, p, m, hlevels, hat => by
      have hnsubs : YDB_MAX_SUBS - (levels + 1) = p.length := by omega
      rw [subtree, hnsubs, printNode_ok hfit hat]
      dsimp only [bind, Except.bind]
      generalize hm₁ : { m with out := m.out ++ (here t.paths p).map (printed t zwr basevar) } = m₁
      have hframe₁ : Frame p.length m m₁ := by
        rw [← hm₁]
        exact ⟨fun _ _ => rfl, fun _ _ => rfl⟩
      -- the empty subscript, twice
      have hempty : ∀ {m' : Machine}, Frame p.length m m' →
          At (m'.setSubscr p.length ⟨⟨p.length, .subsbuff⟩, 0⟩) (p ++ [[]]) := by
        intro m' hm'
        refine (hat.frame (hm'.trans (Frame.setSubscr p.length m' _))).snoc ?_ ?_
        · rw [Machine.setSubscr_self]
        · rw [Machine.setSubscr_self]
          rfl
      have hat₂ := hempty hframe₁
      have hframe₂ := hframe₁.trans (Frame.setSubscr p.length m₁ ⟨⟨p.length, .subsbuff⟩, 0⟩)
      have hsubs₂ := hat₂.subs
      rw [List.length_append, List.length_singleton] at hsubs₂
      rw [hsubs₂, ydb_data_s_empty, if_neg (fun h => h rfl)]
      dsimp only [pure, Except.pure]
      rw [Machine.setSubscr_self]
      have hframe₃ := hframe₂.trans (Frame.setSubscr p.length _ ⟨⟨p.length, .subsbuff⟩, 0⟩)
      have hcount : ((children t.paths p).filter (t.order.behind none)).length < turns :=
        Nat.lt_of_le_of_lt (Nat.le_trans (List.length_filter_le _ _) (List.length_filterMap_le _ _)) hturns
      have hbelow : ∀ k m, At m (p ++ [k]) → k ∈ children t.paths p →
          ∃ m', subtree t zwr basevar turns levels m = .ok m' ∧ Frame (p ++ [k]).length m m' ∧
            m'.out = m.out ++ (t.order.preorder t.paths levels (p ++ [k])).map (printed t zwr basevar) := by
        intro k m hk _
        refine subtree_ok hfit hturns ?_ hk
        rw [List.length_append, List.length_singleton]
        omega
      have hown : Own p.length ⟨⟨⟨p.length, .retvaluebuff⟩, 0⟩, ⟨⟨p.length, .tmpvaluebuff⟩, 0⟩⟩ := ⟨rfl, rfl⟩
      obtain ⟨m₄, hloop, hframe₄, hout₄⟩ := loop_ok hbelow (hempty hframe₂)
        (fun k (hk : none = some k) => by cases hk) hown hcount
      refine ⟨m₄, hloop, hframe₃.trans hframe₄, ?_⟩
      have hout : m₁.out = m.out ++ (here t.paths p).map (printed t zwr basevar) := by rw [← hm₁]
      rw [hout₄, preorder, List.map_append, ← List.append_assoc]
      rw [← hout]
      rfl

end Turn

/-! ## 10. The loop over the nodes -/

section Nodes

variable {t : Tree} {zwr : Text → Text} {basevar : Text}

theorem ydb_node_next_s_of_some {p x : Path} (h : t.order.words.next t.paths (some p) = some x) :
    ydb_node_next_s t p (YDB_MAX_SUBS + 1) = (.ok, x) := by
  have hx : x ∈ t.paths := (next_spec h).1
  have hdepth := t.depth x hx
  unfold ydb_node_next_s
  rw [h]
  dsimp only
  rw [if_neg (by omega), if_neg]
  intro hlong
  obtain ⟨s, hs, hlen⟩ := hlong
  exact absurd (t.subscripts x hx s hs).2 (Nat.not_le_of_lt hlen)

theorem print_must (hfit : Fits t zwr basevar) {p : Path} {must : Bool} (hp : must = true → p ∈ t.paths) :
    glvnPrintNodeIfExists t zwr basevar p must
      = .ok ((here t.paths p).map (printed t zwr basevar)) := by
  cases must with
  | false => exact print_here hfit p
  | true =>
      rw [print_node hfit (hp rfl), here, if_pos (hp rfl)]
      rfl

/-- **The loop prints the node that it has come to, and the nodes behind it.** -/
theorem nodeLoop_ok (hfit : Fits t zwr basevar) : ∀ {turns : Nat} {src dst : Nat → Text} {p : Path}
    {must : Bool} {out : List Text}, read src p.length = p → (must = true → p ∈ t.paths) →
    (t.paths.filter (t.order.words.behind (some p))).length < turns →
    nodeLoop t zwr basevar turns src dst p.length must out
      = .ok (out ++ (here t.paths p ++ t.order.words.visit t.paths (some p)).map (printed t zwr basevar))
  | 0, _, _, _, _, _, _, _, hturns => absurd hturns (Nat.not_lt_zero _)
  | turns + 1, src, dst, p, must, out, hsrc, hp, hturns => by
      rw [nodeLoop, hsrc]
      dsimp only
      rw [print_must hfit hp]
      dsimp only [bind, Except.bind]
      cases hn : t.order.words.next t.paths (some p) with
      | none =>
          have hend : ydb_node_next_s t p (YDB_MAX_SUBS + 1) = (.nodeend, []) := by
            unfold ydb_node_next_s
            rw [hn]
          rw [hend, t.order.words.visit_of_none hn, List.append_nil]
          rfl
      | some x =>
          have hx : x ∈ t.paths := (next_spec hn).1
          rw [ydb_node_next_s_of_some hn, t.order.words.visit_of_some hn]
          dsimp only
          rw [if_neg (by decide), YDB_ASSERT_ok rfl]
          dsimp only
          have hx' : here t.paths x = [x] := if_pos hx
          rw [nodeLoop_ok hfit (read_fill dst x) (fun _ => hx)
              (Nat.lt_of_lt_of_le (next_fewer hn) (Nat.le_of_lt_succ hturns)),
            hx', List.append_assoc, ← List.map_append]
          rfl

/-! ## 11. Both -/

/-- **The two traversals print the same**: a line for every node that has a value, once each and in the
order of the tree. Both end with no assertion failed. -/
theorem traversals_agree (t : Tree) (zwr : Text → Text) (basevar : Text) (hfit : Fits t zwr basevar)
    (m : Machine) {turns : Nat} (hturns : t.paths.length < turns) :
    ∃ nodes : List Path, nodes.Pairwise (fun x y => t.order.words.lt x y = true) ∧
      (∀ p, p ∈ nodes ↔ ∃ v, t.nodes.get p = some v) ∧
      bySubscripts t zwr basevar turns m = .ok (nodes.map (printed t zwr basevar)) ∧
      byNodes t zwr basevar turns = .ok (nodes.map (printed t zwr basevar)) := by
  refine ⟨t.order.words.visit t.paths none, t.order.words.visit_sorted _ _, fun p => ?_, ?_, ?_⟩
  · rw [t.order.words.mem_visit, mem_paths]
    exact and_iff_left rfl
  · have hat : At { m with out := [] } [] := ⟨fun i hi => absurd hi (Nat.not_lt_zero i), rfl⟩
    obtain ⟨m', hrun, -, hout⟩ := subtree_ok hfit hturns (Nat.zero_add _) hat
    have hdepth : ∀ x ∈ t.paths, x.length ≤ YDB_MAX_SUBS := t.depth
    rw [← t.order.preorder_eq_visit hdepth]
    unfold bySubscripts
    rw [hrun]
    exact congrArg Except.ok hout
  · have hstart : read (fun _ => ([] : Text)) ([] : Path).length = [] := rfl
    rw [← here_append_visit]
    exact nodeLoop_ok hfit hstart (fun h => by cases h)
      (Nat.lt_of_le_of_lt (List.length_filter_le _ _) hturns)

end Nodes

/-- Two nodes, of which one is below a node without a value. -/
def twoNodes : Table Path Text :=
  ⟨[(["b".toList], "1".toList), (["a".toList, "x".toList], "2".toList)], by decide⟩

theorem twoNodes_values : ∀ e ∈ twoNodes.entries, e.2.length ≤ BUFFALLOCLEN := by decide

def twoLevels : Tree where
  order := bytewise
  nodes := twoNodes
  depth := by decide
  subscripts := by decide
  values p v h := twoNodes_values (p, v) ((twoNodes.mem_entries_iff p v).2 h)

theorem twoNodes_lines : ∀ e ∈ twoNodes.entries, (line id "v".toList e.1 e.2).length < 1024 := by decide

/-- Memory with something in it. -/
def someMachine : Machine := ⟨fun _ _ => 'x', fun _ => ⟨⟨0, .subsbuff⟩, 5⟩, []⟩

theorem traversals_agree_two_levels : ∃ nodes : List Path,
    nodes.Pairwise (fun x y => twoLevels.order.words.lt x y = true) ∧
      (∀ p, p ∈ nodes ↔ ∃ v, twoLevels.nodes.get p = some v) ∧
      bySubscripts twoLevels id "v".toList 3 someMachine
        = .ok (nodes.map (printed twoLevels id "v".toList)) ∧
      byNodes twoLevels id "v".toList 3 = .ok (nodes.map (printed twoLevels id "v".toList)) :=
  traversals_agree twoLevels id "v".toList
    (fun p v h => twoNodes_lines (p, v) ((twoNodes.mem_entries_iff p v).2 h)) someMachine
    (Nat.lt_succ_self 2)

end YottaTest.SimpleApi.GlvnZWRITE
