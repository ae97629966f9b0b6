/-
  File:      YottaTest/Relink/Envvars.lean
  Subject:   rctlupdate.m, expandEnvvars: the variables of a text, from left to right.

  After a value is put in, the search goes on at the index behind the name in the old text. Where
  the value is longer, its end is looked at again; where it is shorter, what follows is passed over.

  * `find`, `nameEnd`, `turn`, `loop` -- the routine, on the text and an index;
  * `expanded` -- each variable of the text replaced once; `envvars` -- the variables, each with
    what follows its name;
  * `scan`, `loop_eq_scan` -- the routine on the text that is left;
  * `Clean` -- no "$" in the part that is looked at again or passed over;
  * `expandEnvvars_iff` -- **then the routine is right, and where values do not begin with "$" only
    then.**
-/
import YottaTest.Relink.Validity

namespace YottaTest.Relink.Envvars

/-! ## 1. The routine -/

/-- `$find(string,"$",pos)`: the index behind the next "$", or 0. -/
def find (string : Text) (pos : Nat) : Nat :=
  match (string.drop (pos - 1)).findIdx? (fun c => c = '$') with
  | none => 0
  | some k => pos - 1 + k + 2

/-- `for i=pos:1:$length(string)+1 set char=$extract(string,i) quit:(""=char)!("/"=char)`. -/
def nameEnd (string : Text) (pos : Nat) : Nat :=
  pos + ((string.drop (pos - 1)).takeWhile fun c => c ≠ '/').length

structure State where
  string : Text
  pos : Nat
  deriving DecidableEq, Repr

section Routine

-- `$ztrnlnm(envvar)`
variable (ztrnlnm : Text → Text)

/-- One turn; none where nothing is found. -/
def turn (s : State) : Option State :=
  let pos := find s.string s.pos
  if pos = 0 then none
  else
    let i := nameEnd s.string pos
    let envvar := extract s.string pos (i - 1 : Nat)
    some
      { string := extract s.string 1 (pos - 2 : Nat) ++ ztrnlnm envvar ++
          extract s.string i s.string.length
        pos := i }

/-- The loop, in at most so many turns. -/
def loop : Nat → State → Option Text
  | 0, _ => none
  | turns + 1, s =>
      match turn ztrnlnm s with
      | none => some s.string
      | some s' => loop turns s'

/-- `expandEnvvars(string)` returns `r`. -/
def Returns (string r : Text) : Prop := ∃ turns, loop ztrnlnm turns ⟨string, 0⟩ = some r

/-! ## 2. What it is for -/

/-- The text with each variable replaced; inside a name, what has been read of it. -/
def expandFrom : Option Text → Text → Text
  | none, [] => []
  | some name, [] => ztrnlnm name
  | none, c :: s => if c = '$' then expandFrom (some []) s else c :: expandFrom none s
  | some name, c :: s =>
      if c = '/' then ztrnlnm name ++ c :: expandFrom none s else expandFrom (some (name ++ [c])) s

/-- Every "$name" replaced by the value of the name. -/
def expanded (string : Text) : Text := expandFrom ztrnlnm none string

end Routine

/-- A variable, and the text from the end of its name on. -/
structure Envvar where
  name : Text
  rest : Text
  deriving DecidableEq, Repr

def envvarsFrom : Option Text → Text → List Envvar
  | none, [] => []
  | some name, [] => [⟨name, []⟩]
  | none, c :: s => if c = '$' then envvarsFrom (some []) s else envvarsFrom none s
  | some name, c :: s =>
      if c = '/' then ⟨name, c :: s⟩ :: envvarsFrom none s else envvarsFrom (some (name ++ [c])) s

/-- The variables of a text. -/
def envvars (string : Text) : List Envvar := envvarsFrom none string

/-- The index behind the name, one past the "$" and the name, is the first to be looked at: what a
    longer value has there is no "$", nor is what a shorter value moves in front of it. -/
structure Envvar.Clean (ztrnlnm : Text → Text) (v : Envvar) : Prop where
  rescanned : '$' ∉ (ztrnlnm v.name).drop (v.name.length + 1)
  skipped : '$' ∉ v.rest.take (v.name.length + 1 - (ztrnlnm v.name).length)

/-- All variables of a text are in order. -/
def Clean (ztrnlnm : Text → Text) (string : Text) : Prop :=
  ∀ v ∈ envvars string, v.Clean ztrnlnm

/-! ## 3. One variable -/

/-- What follows a name: nothing, or a "/". -/
def Behind (s : Text) : Prop := s = [] ∨ ∃ t, s = '/' :: t

section Reading

variable {ztrnlnm : Text → Text}

theorem expanded_plain {s : Text} (h : '$' ∉ s) (t : Text) :
    expanded ztrnlnm (s ++ t) = s ++ expanded ztrnlnm t := by
  induction s with
  | nil => rfl
  | cons c s ih =>
      have hc : c ≠ '$' := fun hc => h (hc ▸ List.mem_cons_self)
      show expandFrom ztrnlnm none (c :: (s ++ t)) = _
      rw [expandFrom, if_neg hc]
      exact congrArg _ (ih fun hs => h (List.mem_cons_of_mem c hs))

theorem envvars_plain {s : Text} (h : '$' ∉ s) (t : Text) :
    envvars (s ++ t) = envvars t := by
  induction s with
  | nil => rfl
  | cons c s ih =>
      have hc : c ≠ '$' := fun hc => h (hc ▸ List.mem_cons_self)
      show envvarsFrom none (c :: (s ++ t)) = _
      rw [envvarsFrom, if_neg hc]
      exact ih fun hs => h (List.mem_cons_of_mem c hs)

theorem expandFrom_name {name t : Text} (h : '/' ∉ name) (ht : Behind t) (before : Text) :
    expandFrom ztrnlnm (some before) (name ++ t) =
      ztrnlnm (before ++ name) ++ expanded ztrnlnm t := by
  induction name generalizing before with
  | nil =>
      rw [List.append_nil, List.nil_append]
      rcases ht with rfl | ⟨t, rfl⟩
      · exact (List.append_nil _).symm
      · rw [expandFrom, if_pos rfl]
        rfl
  | cons c name ih =>
      have hc : c ≠ '/' := fun hc => h (hc ▸ List.mem_cons_self)
      rw [List.cons_append, expandFrom, if_neg hc, ih fun hn => h (List.mem_cons_of_mem c hn),
        List.append_assoc]
      rfl

theorem envvarsFrom_name {name t : Text} (h : '/' ∉ name) (ht : Behind t) (before : Text) :
    envvarsFrom (some before) (name ++ t) = ⟨before ++ name, t⟩ :: envvars t := by
  induction name generalizing before with
  | nil =>
      rw [List.append_nil, List.nil_append]
      rcases ht with rfl | ⟨t, rfl⟩
      · rfl
      · rw [envvarsFrom, if_pos rfl]
        rfl
  | cons c name ih =>
      have hc : c ≠ '/' := fun hc => h (hc ▸ List.mem_cons_self)
      rw [List.cons_append, envvarsFrom, if_neg hc, ih fun hn => h (List.mem_cons_of_mem c hn),
        List.append_assoc]
      rfl

theorem expanded_variable {name t : Text} (h : '/' ∉ name) (ht : Behind t) :
    expanded ztrnlnm ('$' :: (name ++ t)) = ztrnlnm name ++ expanded ztrnlnm t := by
  rw [expanded, expandFrom, if_pos rfl]
  exact expandFrom_name h ht []

theorem envvars_variable {name t : Text} (h : '/' ∉ name) (ht : Behind t) :
    envvars ('$' :: (name ++ t)) = ⟨name, t⟩ :: envvars t := by
  rw [envvars, envvarsFrom, if_pos rfl]
  exact envvarsFrom_name h ht []

end Reading

/-! ## 4. The routine on what is left -/

/-- The text in front of the first "$", the name behind it, and the rest. -/
def firstVariable (s : Text) : Option (Text × Envvar) :=
  match s.dropWhile fun c => c ≠ '$' with
  | [] => none
  | _ :: behind =>
      some (s.takeWhile fun c => c ≠ '$',
        { name := behind.takeWhile fun c => c ≠ '/', rest := behind.dropWhile fun c => c ≠ '/' })

theorem takeWhile_behind {name rest : Text} (hname : '/' ∉ name) (hrest : Behind rest) :
    (name ++ rest).takeWhile (fun c => c ≠ '/') = name ∧
      (name ++ rest).dropWhile (fun c => c ≠ '/') = rest := by
  have hall : ∀ c ∈ name, decide (c ≠ '/') = true := fun c hc =>
    decide_eq_true fun he => hname (he ▸ hc)
  rw [List.takeWhile_append_of_pos hall, List.dropWhile_append_of_pos hall]
  rcases hrest with rfl | ⟨t, rfl⟩
  · exact ⟨List.append_nil name, rfl⟩
  · exact ⟨List.append_nil name, rfl⟩

theorem firstVariable_variable {before name rest : Text} (hbefore : '$' ∉ before)
    (hname : '/' ∉ name) (hrest : Behind rest) :
    firstVariable (before ++ '$' :: (name ++ rest)) = some (before, ⟨name, rest⟩) := by
  have hall : ∀ c ∈ before, decide (c ≠ '$') = true := fun c hc =>
    decide_eq_true fun he => hbefore (he ▸ hc)
  have hdrop : (before ++ '$' :: (name ++ rest)).dropWhile (fun c => c ≠ '$') =
      '$' :: (name ++ rest) := List.dropWhile_append_of_pos hall
  have htake : (before ++ '$' :: (name ++ rest)).takeWhile (fun c => c ≠ '$') = before := by
    rw [List.takeWhile_append_of_pos hall]
    exact List.append_nil before
  obtain ⟨hn, hr⟩ := takeWhile_behind hname hrest
  rw [firstVariable, hdrop, htake]
  dsimp only
  rw [hn, hr]

theorem firstVariable_eq_none {s : Text} (h : '$' ∉ s) : firstVariable s = none := by
  have hdrop : s.dropWhile (fun c => c ≠ '$') = [] := by
    have hall : ∀ c ∈ s, decide (c ≠ '$') = true := fun c hc =>
      decide_eq_true fun he => h (he ▸ hc)
    have hnil : (s ++ []).dropWhile (fun c => c ≠ '$') = [] := List.dropWhile_append_of_pos hall
    rwa [List.append_nil] at hnil
  rw [firstVariable, hdrop]

/-- What follows a "$" is a name and the rest. -/
theorem exists_name (s : Text) : ∃ name rest, s = name ++ rest ∧ '/' ∉ name ∧ Behind rest := by
  by_cases hslash : '/' ∈ s
  · obtain ⟨name, rest, rfl, hname⟩ := List.eq_append_cons_of_mem hslash
    exact ⟨name, '/' :: rest, rfl, hname, Or.inr ⟨rest, rfl⟩⟩
  · exact ⟨s, [], (List.append_nil s).symm, hslash, Or.inl rfl⟩

/-- A text has no "$", or is what is in front of a variable, the variable and the rest. -/
theorem exists_variable (s : Text) : '$' ∉ s ∨ ∃ before name rest,
    s = before ++ '$' :: (name ++ rest) ∧ '$' ∉ before ∧ '/' ∉ name ∧ Behind rest := by
  by_cases h : '$' ∈ s
  · obtain ⟨before, behind, rfl, hbefore⟩ := List.eq_append_cons_of_mem h
    obtain ⟨name, rest, rfl, hname, hrest⟩ := exists_name behind
    exact Or.inr ⟨before, name, rest, rfl, hbefore, hname, hrest⟩
  · exact Or.inl h

section Scan

variable (ztrnlnm : Text → Text)

/-- The loop on the text from the index on. -/
def scan : Nat → Text → Option Text
  | 0, _ => none
  | turns + 1, s =>
      match firstVariable s with
      | none => some s
      | some (before, v) =>
          let text := ztrnlnm v.name ++ v.rest
          (scan turns (text.drop (v.name.length + 1))).map fun out =>
            before ++ text.take (v.name.length + 1) ++ out

/-- The text in front of the index, and the rest. -/
def At (before rest : Text) (s : State) : Prop :=
  s.string = before ++ rest ∧
    (before.length = s.pos - 1 ∨ rest = [] ∧ before.length ≤ s.pos - 1)

theorem drop_of_at {before rest : Text} {s : State} (h : At before rest s) :
    s.string.drop (s.pos - 1) = rest := by
  obtain ⟨hs, hp | ⟨rfl, hp⟩⟩ := h
  · rw [hs, ← hp, List.drop_left]
  · rw [hs, List.append_nil, List.drop_eq_nil_iff]
    exact hp

theorem findIdx?_dollar {before : Text} (h : '$' ∉ before) (behind : Text) :
    (before ++ '$' :: behind).findIdx? (fun c => decide (c = '$')) = some before.length := by
  rw [List.findIdx?_append, List.findIdx?_eq_none_iff.2]
  · simp [List.findIdx?_cons]
  · intro c hc
    exact decide_eq_false fun he => h (he ▸ hc)

/-- A turn does what `scan` does at the first variable. -/
theorem turn_variable {before front name rest : Text} {s : State}
    (h : At before (front ++ '$' :: (name ++ rest)) s) (hfront : '$' ∉ front)
    (hname : '/' ∉ name) (hrest : Behind rest) :
    ∃ s', turn ztrnlnm s = some s' ∧
      At (before ++ front ++ (ztrnlnm name ++ rest).take (name.length + 1))
        ((ztrnlnm name ++ rest).drop (name.length + 1)) s' := by
  have hplace : before.length = s.pos - 1 := by
    rcases h.2 with hp | ⟨hnil, -⟩
    · exact hp
    · simp at hnil
  have hfind : find s.string s.pos = before.length + front.length + 2 := by
    rw [find, drop_of_at h, findIdx?_dollar hfront, hplace]
  have hstring : s.string = (before ++ front) ++ '$' :: (name ++ rest) := by
    rw [List.append_assoc]
    exact h.1
  have hbehind : s.string.drop (before.length + front.length + 1) = name ++ rest := by
    rw [hstring, ← List.length_append, ← List.drop_drop, List.drop_left]
    rfl
  have hend : nameEnd s.string (before.length + front.length + 2) =
      before.length + front.length + 2 + name.length := by
    rw [nameEnd, Nat.add_sub_assoc (by decide), hbehind, (takeWhile_behind hname hrest).1]
  have henvvar : extract s.string (before.length + front.length + 2 : Nat)
      (before.length + front.length + 2 + name.length - 1 : Nat) = name := by
    rw [extract, Int.toNat_natCast, Int.toNat_natCast, List.drop_take,
      Nat.add_sub_assoc (show 1 ≤ 2 by decide), hbehind]
    have hlen : before.length + front.length + 2 + name.length - 1 -
        (before.length + front.length + (2 - 1)) = name.length := by omega
    rw [hlen, List.take_left]
  have hfrontpart : extract s.string 1 (before.length + front.length + 2 - 2 : Nat) =
      before ++ front := by
    rw [extract, Int.toNat_natCast, Nat.add_sub_cancel, ← List.length_append, hstring, List.take_left]
    rfl
  have hrestpart : extract s.string (before.length + front.length + 2 + name.length : Nat)
      s.string.length = rest := by
    rw [extract, Int.toNat_natCast, Int.toNat_natCast, List.take_length]
    have hlen : before.length + front.length + 2 + name.length - 1 =
        before.length + front.length + 1 + name.length := by omega
    rw [hlen, ← List.drop_drop, hbehind, List.drop_left]
  refine ⟨_, by rw [turn, hfind, if_neg (by omega)], ?_, ?_⟩
  · dsimp only
    rw [hend, henvvar, hfrontpart, hrestpart, List.append_assoc _ (List.take _ _),
      List.take_append_drop, List.append_assoc]
  · dsimp only
    rw [hend]
    simp only [List.length_append, List.length_take]
    by_cases hshort : (ztrnlnm name).length + rest.length < name.length + 1
    · refine Or.inr ⟨?_, by omega⟩
      rw [List.drop_eq_nil_iff, List.length_append]
      omega
    · refine Or.inl ?_
      omega

theorem turn_plain {before rest : Text} {s : State} (h : At before rest s) (hrest : '$' ∉ rest) :
    turn ztrnlnm s = none := by
  have hfind : find s.string s.pos = 0 := by
    have hnone : rest.findIdx? (fun c => decide (c = '$')) = none := by
      rw [List.findIdx?_eq_none_iff]
      exact fun c hc => decide_eq_false fun he => hrest (he ▸ hc)
    rw [find, drop_of_at h, hnone]
  rw [turn, hfind]
  rfl

/-- The loop from a place on is `scan` on the rest. -/
theorem loop_eq_scan (turns : Nat) : ∀ {before rest : Text} {s : State}, At before rest s →
    loop ztrnlnm turns s = (scan ztrnlnm turns rest).map fun out => before ++ out := by
  induction turns with
  | zero => exact fun _ => rfl
  | succ turns ih =>
      intro before rest s h
      rcases exists_variable rest with hplain | ⟨front, name, behind, rfl, hfront, hname, hbehind⟩
      · rw [loop, turn_plain ztrnlnm h hplain, scan, firstVariable_eq_none hplain]
        exact congrArg some h.1
      · obtain ⟨s', hturn, hs'⟩ := turn_variable ztrnlnm h hfront hname hbehind
        rw [loop, hturn, scan, firstVariable_variable hfront hname hbehind]
        dsimp only
        rw [ih hs', Option.map_map]
        refine congrFun (congrArg _ (funext fun out => ?_)) _
        simp only [Function.comp_apply, List.append_assoc]

theorem returns_iff_scan (string r : Text) :
    Returns ztrnlnm string r ↔ ∃ turns, scan ztrnlnm turns string = some r := by
  have hat : At [] string ⟨string, 0⟩ := ⟨rfl, Or.inl rfl⟩
  unfold Returns
  refine exists_congr fun turns => ?_
  rw [loop_eq_scan ztrnlnm turns hat]
  cases scan ztrnlnm turns string with
  | none => exact Iff.rfl
  | some out => exact Iff.rfl

/-- Text without a "$" is kept. -/
theorem scan_plain {s : Text} (h : '$' ∉ s) (t : Text) (turns : Nat) :
    scan ztrnlnm turns (s ++ t) = (scan ztrnlnm turns t).map fun out => s ++ out := by
  cases turns with
  | zero => rfl
  | succ turns =>
      rcases exists_variable t with hplain | ⟨before, name, rest, rfl, hbefore, hname, hrest⟩
      · have hboth : '$' ∉ s ++ t := fun hmem => (List.mem_append.1 hmem).elim h hplain
        rw [scan, scan, firstVariable_eq_none hboth, firstVariable_eq_none hplain]
        rfl
      · have hboth : '$' ∉ s ++ before := fun hmem => (List.mem_append.1 hmem).elim h hbefore
        rw [← List.append_assoc, scan, scan, firstVariable_variable hboth hname hrest,
          firstVariable_variable hbefore hname hrest]
        dsimp only
        rw [Option.map_map]
        refine congrFun (congrArg _ (funext fun out => ?_)) _
        simp only [Function.comp_apply, List.append_assoc]

end Scan

/-! ## 5. When it is right -/

section Result

variable (ztrnlnm : Text → Text)

theorem scan_variable {name rest : Text} (hname : '/' ∉ name) (hrest : Behind rest) (turns : Nat) :
    scan ztrnlnm (turns + 1) ('$' :: (name ++ rest)) =
      (scan ztrnlnm turns ((ztrnlnm name ++ rest).drop (name.length + 1))).map fun out =>
        (ztrnlnm name ++ rest).take (name.length + 1) ++ out := by
  rw [scan]
  have hfirst := firstVariable_variable List.not_mem_nil hname hrest
  rw [List.nil_append] at hfirst
  rw [hfirst]
  rfl

/-- One variable that is in order. -/
theorem scan_clean {name rest : Text} (hname : '/' ∉ name) (hrest : Behind rest)
    (hclean : Envvar.Clean ztrnlnm ⟨name, rest⟩) (turns : Nat) (out : Text) :
    scan ztrnlnm (turns + 1) ('$' :: (name ++ rest)) = some (ztrnlnm name ++ out) ↔
      scan ztrnlnm turns rest = some out := by
  obtain ⟨hagain, hskip⟩ := hclean
  dsimp only at hagain hskip
  rw [scan_variable ztrnlnm hname hrest, List.take_append, List.drop_append,
    scan_plain ztrnlnm hagain, Option.map_map]
  -- what is passed over is kept, as `scan` would keep it
  have hrest' : scan ztrnlnm turns rest =
      (scan ztrnlnm turns (rest.drop (name.length + 1 - (ztrnlnm name).length))).map fun out =>
        rest.take (name.length + 1 - (ztrnlnm name).length) ++ out := by
    rw [← scan_plain ztrnlnm hskip, List.take_append_drop]
  rw [hrest', Option.map_eq_some_iff, Option.map_eq_some_iff]
  refine exists_congr fun out' => and_congr_right fun _ => ?_
  have hparts : (ztrnlnm name).take (name.length + 1) ++
        rest.take (name.length + 1 - (ztrnlnm name).length) ++
          ((ztrnlnm name).drop (name.length + 1) ++ out') =
      ztrnlnm name ++ (rest.take (name.length + 1 - (ztrnlnm name).length) ++ out') := by
    rcases Nat.le_total (ztrnlnm name).length (name.length + 1) with hle | hle
    · rw [List.take_of_length_le hle, List.drop_of_length_le hle, List.nil_append, List.append_assoc]
    · rw [Nat.sub_eq_zero_of_le hle, List.take_zero, List.append_nil, List.nil_append,
        ← List.append_assoc, List.take_append_drop]
  rw [Function.comp_apply, hparts, List.append_right_inj]

/-- **Text and values without stray "$" are expanded as they should be.** -/
theorem scan_of_clean (turns : Nat) : ∀ {s : Text}, s.length ≤ turns → Clean ztrnlnm s →
    scan ztrnlnm (turns + 1) s = some (expanded ztrnlnm s) := by
  induction turns with
  | zero =>
      intro s hs _
      obtain rfl := List.length_eq_zero_iff.1 (Nat.le_zero.1 hs)
      rfl
  | succ turns ih =>
      intro s hs hclean
      rcases exists_variable s with hplain | ⟨before, name, rest, rfl, hbefore, hname, hrest⟩
      · have hself : expanded ztrnlnm (s ++ []) = s ++ expanded ztrnlnm [] := expanded_plain hplain []
        rw [List.append_nil] at hself
        rw [scan, firstVariable_eq_none hplain, hself]
        exact congrArg some (List.append_nil s).symm
      · have hmem := envvars_plain hbefore ('$' :: (name ++ rest))
        rw [envvars_variable hname hrest] at hmem
        unfold Clean at hclean
        rw [hmem] at hclean
        have hshort : rest.length ≤ turns := by
          simp only [List.length_append, List.length_cons] at hs
          omega
        have hrestclean := ih hshort fun v hv => hclean v (List.mem_cons_of_mem _ hv)
        have hv := (scan_clean ztrnlnm hname hrest (hclean _ List.mem_cons_self) (turns + 1) _).2
          hrestclean
        rw [scan_plain ztrnlnm hbefore, hv, expanded_plain hbefore, expanded_variable hname hrest]
        rfl

section Necessary

variable {ztrnlnm} (hvalue : ∀ name, (ztrnlnm name).head? ≠ some '$')
include hvalue

/-- Where a "$" is found, none comes out. -/
theorem head_scan {turns : Nat} {s out : Text} (h : scan ztrnlnm turns ('$' :: s) = some out) :
    out.head? ≠ some '$' := by
  obtain ⟨name, rest, rfl, hname, hrest⟩ := exists_name s
  cases turns with
  | zero => cases h
  | succ turns =>
      rw [scan_variable ztrnlnm hname hrest, Option.map_eq_some_iff] at h
      obtain ⟨out', hout', rfl⟩ := h
      have hv := hvalue name
      cases hval : ztrnlnm name with
      | cons c value =>
          rw [hval] at hv
          exact hv
      | nil =>
          rcases hrest with rfl | ⟨t, rfl⟩
          · rw [hval] at hout'
            cases turns with
            | zero => cases hout'
            | succ turns =>
                obtain rfl : [] = out' := Option.some.inj hout'
                simp
          · simp

theorem head_expanded (s : Text) : (expanded ztrnlnm ('$' :: s)).head? ≠ some '$' := by
  obtain ⟨name, rest, rfl, hname, hrest⟩ := exists_name s
  rw [expanded_variable hname hrest]
  have hv := hvalue name
  cases hval : ztrnlnm name with
  | cons c value =>
      rw [hval] at hv
      exact hv
  | nil =>
      rcases hrest with rfl | ⟨t, rfl⟩
      · simp [expanded, expandFrom]
      · simp [expanded, expandFrom]

/-- A variable that comes out right is in order. -/
theorem clean_of_variable {turns : Nat} {name rest : Text} (hname : '/' ∉ name) (hrest : Behind rest)
    (h : scan ztrnlnm (turns + 1) ('$' :: (name ++ rest)) =
      some (ztrnlnm name ++ expanded ztrnlnm rest)) : Envvar.Clean ztrnlnm ⟨name, rest⟩ := by
  rw [scan_variable ztrnlnm hname hrest, List.take_append, List.drop_append,
    Option.map_eq_some_iff] at h
  obtain ⟨out, hout, heq⟩ := h
  constructor
  · -- the end of the value would be looked at again
    intro hagain
    obtain ⟨front, behind, hdrop, hfront⟩ := List.eq_append_cons_of_mem hagain
    dsimp only at hdrop
    have hlong : name.length + 1 < (ztrnlnm name).length := by
      by_contra hle
      rw [List.drop_of_length_le (Nat.le_of_not_lt hle)] at hdrop
      simp at hdrop
    have hvalue' : ztrnlnm name = (ztrnlnm name).take (name.length + 1) ++ (front ++ '$' :: behind) := by
      rw [← hdrop, List.take_append_drop]
    rw [Nat.sub_eq_zero_of_le (Nat.le_of_lt hlong), List.take_zero, List.append_nil] at heq
    rw [Nat.sub_eq_zero_of_le (Nat.le_of_lt hlong), List.drop_zero, hdrop, List.append_assoc,
      scan_plain ztrnlnm hfront, Option.map_eq_some_iff] at hout
    obtain ⟨out', hout', rfl⟩ := hout
    have hsame : front ++ out' = front ++ ('$' :: behind ++ expanded ztrnlnm rest) := by
      refine (List.append_right_inj ((ztrnlnm name).take (name.length + 1))).1 ?_
      rw [heq]
      conv_lhs => rw [hvalue']
      simp only [List.append_assoc]
    have hhead := head_scan hvalue hout'
    rw [List.append_cancel_left hsame] at hhead
    exact hhead rfl
  · -- a variable would be passed over
    intro hover
    obtain ⟨front, behind, htake, hfront⟩ := List.eq_append_cons_of_mem hover
    dsimp only at htake
    have hshort : (ztrnlnm name).length ≤ name.length + 1 := by
      by_contra hlt
      rw [Nat.sub_eq_zero_of_le (Nat.le_of_lt (Nat.lt_of_not_le hlt)), List.take_zero] at htake
      simp at htake
    have hparts : rest = front ++ '$' ::
        (behind ++ rest.drop (name.length + 1 - (ztrnlnm name).length)) := by
      conv_lhs => rw [← List.take_append_drop (name.length + 1 - (ztrnlnm name).length) rest, htake]
      simp only [List.append_assoc, List.cons_append]
    have hexp : expanded ztrnlnm rest = front ++ expanded ztrnlnm ('$' ::
        (behind ++ rest.drop (name.length + 1 - (ztrnlnm name).length))) := by
      conv_lhs => rw [hparts, expanded_plain hfront]
    rw [List.take_of_length_le hshort, htake, hexp] at heq
    have hsame : '$' :: (behind ++ out) = expanded ztrnlnm ('$' ::
        (behind ++ rest.drop (name.length + 1 - (ztrnlnm name).length))) := by
      refine (List.append_right_inj (ztrnlnm name ++ front)).1 ?_
      simp only [List.append_assoc, List.cons_append] at heq ⊢
      exact heq
    have hhead := head_expanded hvalue (behind ++ rest.drop (name.length + 1 - (ztrnlnm name).length))
    rw [← hsame] at hhead
    exact hhead rfl

theorem clean_of_scan (turns : Nat) : ∀ {s : Text},
    scan ztrnlnm turns s = some (expanded ztrnlnm s) → Clean ztrnlnm s := by
  induction turns with
  | zero =>
      intro s h
      cases h
  | succ turns ih =>
      intro s h
      rcases exists_variable s with hplain | ⟨before, name, rest, rfl, hbefore, hname, hrest⟩
      · have hnone := envvars_plain hplain []
        rw [List.append_nil] at hnone
        unfold Clean
        rw [hnone]
        exact fun v hv => absurd hv List.not_mem_nil
      · rw [scan_plain ztrnlnm hbefore, expanded_plain hbefore, expanded_variable hname hrest,
          Option.map_eq_some_iff] at h
        obtain ⟨out, hout, heq⟩ := h
        obtain rfl := List.append_cancel_left heq
        have hv := clean_of_variable hvalue hname hrest hout
        have hrestclean := ih ((scan_clean ztrnlnm hname hrest hv turns _).1 hout)
        unfold Clean
        rw [envvars_plain hbefore, envvars_variable hname hrest]
        intro v hmem
        rcases List.mem_cons.1 hmem with rfl | hmem
        · exact hv
        · exact hrestclean v hmem

end Necessary

/-- **The routine expands what is in order, and where no value begins with "$" nothing else.** -/
theorem expandEnvvars_iff (string : Text) :
    (Clean ztrnlnm string → Returns ztrnlnm string (expanded ztrnlnm string)) ∧
      ((∀ name, (ztrnlnm name).head? ≠ some '$') →
        (Returns ztrnlnm string (expanded ztrnlnm string) ↔ Clean ztrnlnm string)) := by
  have hright : Clean ztrnlnm string → Returns ztrnlnm string (expanded ztrnlnm string) := fun h =>
    (returns_iff_scan ztrnlnm string _).2
      ⟨string.length + 1, scan_of_clean ztrnlnm string.length (Nat.le_refl _) h⟩
  refine ⟨hright, fun hvalue => ⟨fun h => ?_, hright⟩⟩
  obtain ⟨turns, hturns⟩ := (returns_iff_scan ztrnlnm string _).1 h
  exact clean_of_scan hvalue turns hturns

theorem loop_unique {turns turns' : Nat} {s : State} {r r' : Text}
    (h : loop ztrnlnm turns s = some r) (h' : loop ztrnlnm turns' s = some r') : r = r' := by
  induction turns generalizing turns' s with
  | zero => cases h
  | succ turns ih =>
      cases turns' with
      | zero => cases h'
      | succ turns' =>
          rw [loop] at h h'
          cases hturn : turn ztrnlnm s with
          | none =>
              rw [hturn] at h h'
              exact Option.some.inj (h.symm.trans h')
          | some s' =>
              rw [hturn] at h h'
              exact ih h h'

end Result

/-- `aa` is `x` and `b` is `y`: "$aa/$b" becomes "x/$b". -/
theorem variable_passed_over : ¬ ∀ (ztrnlnm : Text → Text) (string : Text),
    Returns ztrnlnm string (expanded ztrnlnm string) := by
  intro h
  let ztrnlnm : Text → Text := fun name => if name = ['a', 'a'] then ['x'] else ['y']
  let string : Text := ['$', 'a', 'a', '/', '$', 'b']
  obtain ⟨turns, hturns⟩ := h ztrnlnm string
  have hcode : loop ztrnlnm 2 ⟨string, 0⟩ = some ['x', '/', '$', 'b'] := by decide
  exact absurd (loop_unique ztrnlnm hcode hturns) (by decide)

end YottaTest.Relink.Envvars
