/-
  File:      YottaTest/SimpleApi/Variables.lean
  Subject:   glvnZWRITE.c: all variables of a process or of the database, one after the other.

  `glvnZWRITE` goes from the name it starts with to the next name, and prints the nodes under each. After
  each call it goes back with `ydb_subscript_previous_s`, at the end from a name that no variable comes
  behind, and checks that it is where it was. A call that finds nothing leaves its buffer as it is.

  * `Vars` -- the variables; `glvnZWRITEsubtree`, `varLoop`, `glvnZWRITE` -- the code;
  * `Before` -- where the loop is: at a variable, or at the name it began with;
  * `back_next`, `back_end` -- the way back leads there, so that no check fails;
  * `glvnZWRITE_lists` -- **all nodes of all variables are printed, once each and in order.**
-/
import YottaTest.SimpleApi.GlvnZWRITE

namespace YottaTest.SimpleApi.GlvnZWRITE

open YottaTest.Lib YottaTest.Lib.Collation

/-! ## 1. The variables and the code -/

/-- The names of the variables that have nodes, and the nodes under each name. -/
structure Vars where
  names : List Text
  tree : Text → Tree
  defined : ∀ name, name ∈ names ↔ (tree name).paths ≠ []
  short : ∀ name ∈ names, name.length ≤ BUFFALLOCLEN

def LASTLVNAME : Text := List.replicate 31 'z'
def LASTGVNAME : Text := '^' :: List.replicate 30 'z'

/-- The name to go back from when the end is reached. -/
def lastName (basevar : Text) : Text := if basevar.head? = some '^' then LASTGVNAME else LASTLVNAME

/-- `tmpvalue` of `glvnZWRITE`. -/
structure Tmp where
  buf : Nat → Char
  len_used : Nat

/-- A call that fills it; the rest of the buffer, or all of it, stays as it was. -/
def Tmp.fetch (tmp : Tmp) (call : Status × Text) : Tmp :=
  if call.1 = .ok then ⟨fill tmp.buf call.2, call.2.length⟩ else tmp

section Code

variable (v : Vars) (zwr : Text → Text) (nodes : Bool) (turns : Nat)

/-- `ydb_subscript_next_s` and `ydb_subscript_previous_s` on a name. -/
def nextName (basevar : Text) : Status × Text := neighbour (bytewise.next v.names (some basevar))

def previousName (basevar : Text) : Status × Text := neighbour (bytewise.flip.next v.names (some basevar))

/-- `glvnZWRITEsubtree` on a variable; `nodes` is `rand_value`. -/
def glvnZWRITEsubtree (basevar : Text) (m : Machine) : Except Stop Machine :=
  if nodes then do
    let lines ← byNodes (v.tree basevar) zwr basevar turns
    return { m with out := m.out ++ lines }
  else subtree (v.tree basevar) zwr basevar turns YDB_MAX_SUBS m

/-- The loop, by the turns that are left; `first` stands for `0 == iters`. -/
def varLoop : Nat → (first : Bool) → (basevar : Text) → Tmp → Machine → Except Stop Machine
  | 0, _, _, _, _ => throw .turns
  | left + 1, first, basevar, tmp, m => do
      let (status, retvalue) := nextName v basevar
      YDB_ASSERT (status = .ok ∨ status = .nodeend)
      let back := previousName v (if status = .nodeend then lastName basevar else retvalue)
      YDB_ASSERT (back.1 = .ok ∨ back.1 = .nodeend)
      let tmp := tmp.fetch back
      YDB_ASSERT (tmp.len_used = basevar.length ∨ (tmp.len_used = 0 ∧ first = true) ∨ tmp.len_used = 0 ∨
        read tmp.buf basevar.length = basevar)
      if status = .nodeend then return m
      else do
        YDB_ASSERT (retvalue.length ≤ BUFFALLOCLEN)
        let m ← glvnZWRITEsubtree v zwr nodes turns retvalue m
        varLoop left false retvalue tmp m

/-- `glvnZWRITE`, with a buffer that holds anything. -/
def glvnZWRITE (startname : Text) (buf : Nat → Char) (m : Machine) : Except Stop Machine := do
  let m ← if ydb_data_s (v.tree startname) [] ≠ 0 then glvnZWRITEsubtree v zwr nodes turns startname m
    else pure m
  varLoop v zwr nodes turns turns true startname ⟨buf, 0⟩ m

end Code

/-! ## 2. One variable -/

/-- The nodes under a name that have a value, in order. -/
def Vars.nodesOf (v : Vars) (name : Text) : List Path :=
  (v.tree name).order.words.visit (v.tree name).paths none

/-- What is printed for a variable. -/
def Vars.linesOf (v : Vars) (zwr : Text → Text) (name : Text) : List Text :=
  (v.nodesOf name).map (printed (v.tree name) zwr name)

variable {v : Vars} {zwr : Text → Text} {turns : Nat}

/-- Either traversal. -/
theorem glvnZWRITEsubtree_ok (nodes : Bool) {name : Text} (hfit : Fits (v.tree name) zwr name)
    (hturns : (v.tree name).paths.length < turns) (m : Machine) :
    ∃ m', glvnZWRITEsubtree v zwr nodes turns name m = .ok m' ∧ m'.out = m.out ++ v.linesOf zwr name := by
  have hdepth : ∀ x ∈ (v.tree name).paths, x.length ≤ YDB_MAX_SUBS := (v.tree name).depth
  unfold glvnZWRITEsubtree
  cases nodes with
  | false =>
      have hat : At m [] := ⟨fun i hi => absurd hi (Nat.not_lt_zero i), rfl⟩
      obtain ⟨m', hrun, -, hout⟩ := subtree_ok hfit hturns (Nat.zero_add _) hat
      refine ⟨m', hrun, ?_⟩
      rw [hout, Vars.linesOf, Vars.nodesOf, (v.tree name).order.preorder_eq_visit hdepth]
  | true =>
      have hstart : read (fun _ => ([] : Text)) ([] : Path).length = [] := rfl
      have hloop : byNodes (v.tree name) zwr name turns = .ok (v.linesOf zwr name) := by
        rw [Vars.linesOf, Vars.nodesOf, ← here_append_visit]
        exact nodeLoop_ok hfit hstart (fun h : false = true => by cases h)
          (Nat.lt_of_le_of_lt (List.length_filter_le _ _) hturns)
      refine ⟨{ m with out := m.out ++ v.linesOf zwr name }, ?_, rfl⟩
      rw [if_pos rfl, hloop]
      rfl

/-! ## 3. The way from name to name -/

/-- What is assumed of the names: none comes before the one to start with, and none behind the one that
the way back begins with at the end. -/
structure Vars.From (v : Vars) (startname : Text) : Prop where
  first : ∀ name ∈ v.names, name = startname ∨ bytewise.lt startname name = true
  last : ∀ name ∈ v.names, bytewise.lt name (lastName name) = true

/-- Where the loop is: at a variable, or still at a name that no variable has. -/
def Before (v : Vars) (startname basevar : Text) (tmp : Tmp) : Prop :=
  basevar ∈ v.names ∨ basevar = startname ∧ startname ∉ v.names ∧ tmp.len_used = 0

section Names

variable {startname basevar : Text} {tmp : Tmp}

theorem Vars.From.behind (h : v.From startname) (hs : startname ∉ v.names) {name : Text}
    (hn : name ∈ v.names) : bytewise.lt startname name = true :=
  (h.first name hn).resolve_left fun he => hs (he ▸ hn)

theorem Vars.From.next_start (h : v.From startname) (hs : startname ∉ v.names) :
    bytewise.next v.names (some startname) = bytewise.next v.names none := by
  unfold Collation.next
  exact congrArg _ (List.filter_congr fun name hn => h.behind hs hn)

/-- What `ydb_subscript_previous_s` gives where the loop is: the name it is at, or nothing. -/
def came (v : Vars) (basevar : Text) : Option Text :=
  if v.names.contains basevar then some basevar else none

theorem came_of_mem (h : basevar ∈ v.names) : came v basevar = some basevar :=
  if_pos (List.contains_iff_mem.2 h)

theorem came_of_notMem (h : basevar ∉ v.names) : came v basevar = none :=
  if_neg fun hc => h (List.contains_iff_mem.1 hc)

/-- Back from the next name. -/
theorem back_next (h : v.From startname) (hb : Before v startname basevar tmp) {k : Text}
    (hk : bytewise.next v.names (some basevar) = some k) :
    bytewise.flip.next v.names (some k) = came v basevar := by
  rcases hb with hb | ⟨rfl, hs, _⟩
  · rw [came_of_mem hb]
    refine flip_next_of_next (fun p hp => ?_) hk
    exact Option.some.inj hp ▸ hb
  · rw [came_of_notMem hs]
    rw [h.next_start hs] at hk
    exact flip_next_of_next nofun hk

/-- Back from behind the last name. -/
theorem back_end (h : v.From startname) (hb : Before v startname basevar tmp)
    (hk : bytewise.next v.names (some basevar) = none) :
    bytewise.flip.next v.names (some (lastName basevar)) = came v basevar := by
  have hnone := next_eq_none.1 hk
  rcases hb with hb | ⟨rfl, hs, _⟩
  · rw [came_of_mem hb]
    refine next_eq_some hb (h.last basevar hb) fun x hx _ => ?_
    rcases bytewise.total x basevar with hlt | rfl | hlt
    · exact Or.inr hlt
    · exact Or.inl rfl
    · have hfalse : bytewise.lt basevar x = false := hnone x hx
      rw [hlt] at hfalse
      cases hfalse
  · rw [came_of_notMem hs]
    refine next_eq_none.2 fun x hx => ?_
    have hfalse : bytewise.lt basevar x = false := hnone x hx
    rw [h.behind hs hx] at hfalse
    cases hfalse

/-- The way back passes the checks. -/
theorem checks_pass (hb : Before v startname basevar tmp) :
    ((neighbour (came v basevar)).1 = .ok ∨ (neighbour (came v basevar)).1 = .nodeend) ∧
    ((tmp.fetch (neighbour (came v basevar))).len_used = basevar.length ∨
      (tmp.fetch (neighbour (came v basevar))).len_used = 0) := by
  by_cases hn : basevar ∈ v.names
  · have hstored : neighbour (some basevar) = (.ok, basevar) := if_pos (v.short basevar hn)
    rw [came_of_mem hn, hstored]
    exact ⟨Or.inl rfl, Or.inl rfl⟩
  · obtain ⟨_, _, hzero⟩ := hb.resolve_left hn
    rw [came_of_notMem hn]
    exact ⟨Or.inr rfl, Or.inr hzero⟩

theorem nextName_of_some {k : Text} (hk : bytewise.next v.names (some basevar) = some k) :
    nextName v basevar = (.ok, k) := by
  unfold nextName
  rw [hk]
  exact if_pos (v.short k (next_spec hk).1)

/-- **The loop prints the variables behind the name that it is at.** -/
theorem varLoop_ok (nodes : Bool) (h : v.From startname)
    (hfit : ∀ name ∈ v.names, Fits (v.tree name) zwr name)
    (hturns : ∀ name ∈ v.names, (v.tree name).paths.length < turns) :
    ∀ (left : Nat) (first : Bool) {basevar : Text} {tmp : Tmp} (m : Machine),
      Before v startname basevar tmp →
      (v.names.filter (bytewise.behind (some basevar))).length < left →
      ∃ m', varLoop v zwr nodes turns left first basevar tmp m = .ok m' ∧
        m'.out = m.out ++ (bytewise.visit v.names (some basevar)).flatMap (v.linesOf zwr)
  | 0, _, _, _, _, _, hleft => absurd hleft (Nat.not_lt_zero _)
  | left + 1, first, basevar, tmp, m, hb, hleft => by
      obtain ⟨hstatus, hlen⟩ := checks_pass hb
      have hcheck : (tmp.fetch (neighbour (came v basevar))).len_used = basevar.length ∨
          ((tmp.fetch (neighbour (came v basevar))).len_used = 0 ∧ first = true) ∨
          (tmp.fetch (neighbour (came v basevar))).len_used = 0 ∨
          read (tmp.fetch (neighbour (came v basevar))).buf basevar.length = basevar :=
        hlen.imp_right fun hzero => Or.inr (Or.inl hzero)
      rw [varLoop]
      cases hk : bytewise.next v.names (some basevar) with
      | none =>
          have hnext : nextName v basevar = (.nodeend, []) := by
            unfold nextName
            rw [hk]
            rfl
          have hback : previousName v (lastName basevar) = neighbour (came v basevar) :=
            congrArg neighbour (back_end h hb hk)
          refine ⟨m, ?_, by rw [bytewise.visit_of_none hk, List.flatMap_nil, List.append_nil]⟩
          rw [hnext]
          dsimp only
          rw [YDB_ASSERT_ok (Or.inr rfl), if_pos rfl, hback, YDB_ASSERT_ok hstatus, YDB_ASSERT_ok hcheck]
          rfl
      | some k =>
          have hmem : k ∈ v.names := (next_spec hk).1
          have hback : previousName v k = neighbour (came v basevar) :=
            congrArg neighbour (back_next h hb hk)
          obtain ⟨m₁, hrun, hout⟩ := glvnZWRITEsubtree_ok nodes (hfit k hmem) (hturns k hmem) m
          have hbefore : Before v startname k (tmp.fetch (neighbour (came v basevar))) := Or.inl hmem
          obtain ⟨m', hrest, hout'⟩ := varLoop_ok nodes h hfit hturns left false m₁ hbefore
            (Nat.lt_of_lt_of_le (next_fewer hk) (Nat.le_of_lt_succ hleft))
          refine ⟨m', ?_, ?_⟩
          · rw [nextName_of_some hk]
            dsimp only
            rw [YDB_ASSERT_ok (Or.inl rfl), if_neg (by decide), hback, YDB_ASSERT_ok hstatus,
              YDB_ASSERT_ok hcheck]
            dsimp only [bind, Except.bind]
            rw [if_neg (by decide), YDB_ASSERT_ok (v.short k hmem)]
            dsimp only
            rw [hrun]
            exact hrest
          · rw [hout', hout, bytewise.visit_of_some hk, List.flatMap_cons, List.append_assoc]

end Names

/-! ## 4. All variables -/

section All

variable {startname : Text}

theorem ydb_data_s_root {t : Tree} : ydb_data_s t [] ≠ 0 ↔ t.paths ≠ [] := by
  unfold ydb_data_s
  constructor
  · rintro h hnil
    simp [hnil] at h
  · intro h
    obtain ⟨x, hx⟩ := List.exists_mem_of_ne_nil t.paths h
    by_cases hroot : [] ∈ t.paths
    · simp [hroot]
    · have hne : x ≠ [] := fun he => hroot (he ▸ hx)
      have hbelow : ∃ y ∈ t.paths, ([] : Path) <+: y ∧ y ≠ [] := ⟨x, hx, List.nil_prefix, hne⟩
      simp only [hroot, if_false, if_pos hbelow]
      decide

/-- The names in order are the name to start with, if a variable has it, and those behind it. -/
theorem Vars.From.visit_start (h : v.From startname) :
    bytewise.visit v.names none =
      (if startname ∈ v.names then [startname] else []) ++ bytewise.visit v.names (some startname) := by
  split
  · next hs => exact bytewise.visit_of_some (next_eq_some hs rfl fun x hx _ => h.first x hx)
  · next hs =>
    rw [List.nil_append]
    cases hk : bytewise.next v.names none with
    | none => rw [bytewise.visit_of_none hk, bytewise.visit_of_none ((h.next_start hs).trans hk)]
    | some k => rw [bytewise.visit_of_some hk, bytewise.visit_of_some ((h.next_start hs).trans hk)]

theorem glvnZWRITE_ok (nodes : Bool) (h : v.From startname)
    (hfit : ∀ name ∈ v.names, Fits (v.tree name) zwr name)
    (hturns : ∀ name ∈ v.names, (v.tree name).paths.length < turns) (hnames : v.names.length < turns)
    (buf : Nat → Char) (m : Machine) :
    ∃ m', glvnZWRITE v zwr nodes turns startname buf m = .ok m' ∧
      m'.out = m.out ++ (bytewise.visit v.names none).flatMap (v.linesOf zwr) := by
  have hleft : (v.names.filter (bytewise.behind (some startname))).length < turns :=
    Nat.lt_of_le_of_lt (List.length_filter_le _ _) hnames
  unfold glvnZWRITE
  rw [h.visit_start, List.flatMap_append]
  by_cases hs : startname ∈ v.names
  · have hbefore : Before v startname startname ⟨buf, 0⟩ := Or.inl hs
    obtain ⟨m₁, hrun, hout⟩ := glvnZWRITEsubtree_ok nodes (hfit startname hs) (hturns startname hs) m
    obtain ⟨m', hrest, hout'⟩ := varLoop_ok nodes h hfit hturns turns true m₁ hbefore hleft
    refine ⟨m', ?_, ?_⟩
    · rw [if_pos (ydb_data_s_root.2 ((v.defined startname).1 hs)), hrun]
      exact hrest
    · rw [hout', hout, if_pos hs, List.flatMap_singleton, List.append_assoc]
  · have hbefore : Before v startname startname ⟨buf, 0⟩ := Or.inr ⟨rfl, hs, rfl⟩
    obtain ⟨m', hrest, hout'⟩ := varLoop_ok nodes h hfit hturns turns true m hbefore hleft
    refine ⟨m', ?_, ?_⟩
    · rw [if_neg fun hdata => hs ((v.defined startname).2 (ydb_data_s_root.1 hdata))]
      exact hrest
    · rw [hout', if_neg hs]
      rfl

/-- All nodes, with the names of their variables. -/
def Vars.allNodes (v : Vars) : List (Text × Path) :=
  (bytewise.visit v.names none).flatMap fun name => (v.nodesOf name).map fun p => (name, p)

theorem Vars.mem_allNodes {name : Text} {p : Path} :
    (name, p) ∈ v.allNodes ↔ ∃ value, (v.tree name).nodes.get p = some value := by
  have hnodes : p ∈ v.nodesOf name ↔ p ∈ (v.tree name).paths := by
    rw [Vars.nodesOf, mem_visit]
    exact and_iff_left rfl
  rw [← mem_paths, ← hnodes]
  unfold Vars.allNodes
  simp only [List.mem_flatMap, List.mem_map, Prod.mk.injEq]
  constructor
  · rintro ⟨_, _, _, hp, rfl, rfl⟩
    exact hp
  · intro hp
    have hmem : name ∈ v.names := (v.defined name).2 (List.ne_nil_of_mem (hnodes.1 hp))
    exact ⟨name, bytewise.mem_visit.2 ⟨hmem, rfl⟩, p, hp, rfl, rfl⟩

/-- In ZWRITE order: by the names, and under a name by the subscripts. -/
theorem Vars.allNodes_sorted : v.allNodes.Pairwise fun x y =>
    bytewise.lt x.1 y.1 = true ∨ x.1 = y.1 ∧ (v.tree x.1).order.words.lt x.2 y.2 = true := by
  unfold Vars.allNodes
  rw [List.pairwise_flatMap]
  constructor
  · intro name _
    rw [List.pairwise_map]
    exact ((v.tree name).order.words.visit_sorted _ _).imp fun hlt => Or.inr ⟨rfl, hlt⟩
  · refine (bytewise.visit_sorted v.names none).imp fun hlt x hx y hy => Or.inl ?_
    obtain ⟨_, _, rfl⟩ := List.mem_map.1 hx
    obtain ⟨_, _, rfl⟩ := List.mem_map.1 hy
    exact hlt

/-- With either traversal, from any buffers, `glvnZWRITE` prints a line for every node of every variable
that has a value, once each and in order, and no check on the way fails: if no name comes before the one to
start with, none behind the one to go back from, and all lines have room. -/
theorem glvnZWRITE_lists (v : Vars) (zwr : Text → Text) (nodes : Bool) (startname : Text)
    (h : v.From startname) (hfit : ∀ name ∈ v.names, Fits (v.tree name) zwr name) {turns : Nat}
    (hturns : ∀ name ∈ v.names, (v.tree name).paths.length < turns) (hnames : v.names.length < turns)
    (buf : Nat → Char) (m : Machine) :
    ∃ (all : List (Text × Path)) (m' : Machine),
      all.Pairwise (fun x y => bytewise.lt x.1 y.1 = true ∨
        x.1 = y.1 ∧ (v.tree x.1).order.words.lt x.2 y.2 = true) ∧
      (∀ name p, (name, p) ∈ all ↔ ∃ value, (v.tree name).nodes.get p = some value) ∧
      glvnZWRITE v zwr nodes turns startname buf m = .ok m' ∧
      m'.out = m.out ++ all.map fun x => printed (v.tree x.1) zwr x.1 x.2 := by
  obtain ⟨m', hrun, hout⟩ := glvnZWRITE_ok nodes h hfit hturns hnames buf m
  refine ⟨v.allNodes, m', Vars.allNodes_sorted, fun name p => Vars.mem_allNodes, hrun, ?_⟩
  rw [hout, Vars.allNodes, List.map_flatMap]
  simp only [List.map_map]
  rfl

end All

/-- A tree without nodes. -/
def noNodes : Tree where
  order := bytewise
  nodes := .empty
  depth := by decide
  subscripts := by decide
  values p v h := nomatch h

/-- Two local variables, with the nodes of `twoLevels` under each. -/
def twoVars : Vars where
  names := [['b'], ['a']]
  tree name := if name = ['b'] ∨ name = ['a'] then twoLevels else noNodes
  defined name := by
    rw [List.mem_pair]
    split
    · next hn => exact iff_of_true hn (by decide)
    · next hn => exact iff_of_false hn fun h => h rfl
  short := by decide

theorem twoVars_from : twoVars.From ['%'] := ⟨by decide, by decide⟩

theorem twoVars_lines : ∀ name ∈ twoVars.names, ∀ e ∈ (twoVars.tree name).nodes.entries,
    (line id name e.1 e.2).length < 1024 := by decide

/-- Level by level, and node by node. -/
theorem glvnZWRITE_lists_two :
    (∃ (all : List (Text × Path)) (m' : Machine),
      all.Pairwise (fun x y => bytewise.lt x.1 y.1 = true ∨
        x.1 = y.1 ∧ (twoVars.tree x.1).order.words.lt x.2 y.2 = true) ∧
      (∀ name p, (name, p) ∈ all ↔ ∃ value, (twoVars.tree name).nodes.get p = some value) ∧
      glvnZWRITE twoVars id false 3 ['%'] (fun _ => 'x') someMachine = .ok m' ∧
      m'.out = someMachine.out ++ all.map fun x => printed (twoVars.tree x.1) id x.1 x.2) ∧
    ∃ (all : List (Text × Path)) (m' : Machine),
      all.Pairwise (fun x y => bytewise.lt x.1 y.1 = true ∨
        x.1 = y.1 ∧ (twoVars.tree x.1).order.words.lt x.2 y.2 = true) ∧
      (∀ name p, (name, p) ∈ all ↔ ∃ value, (twoVars.tree name).nodes.get p = some value) ∧
      glvnZWRITE twoVars id true 3 ['%'] (fun _ => 'x') someMachine = .ok m' ∧
      m'.out = someMachine.out ++ all.map fun x => printed (twoVars.tree x.1) id x.1 x.2 := by
  have hfit : ∀ name ∈ twoVars.names, Fits (twoVars.tree name) id name := fun name hn p value hv =>
    twoVars_lines name hn (p, value) (((twoVars.tree name).nodes.mem_entries_iff p value).2 hv)
  have hboth := fun nodes => glvnZWRITE_lists twoVars id nodes ['%'] twoVars_from hfit
    (show ∀ name ∈ twoVars.names, (twoVars.tree name).paths.length < 3 by decide) (by decide) (fun _ => 'x')
    someMachine
  exact ⟨hboth false, hboth true⟩

end YottaTest.SimpleApi.GlvnZWRITE
