/-
  File:      YottaTest/Relink/Canonicalize.lean
  Subject:   rctlupdate.m, canonicalizePath: one reading of a path from left to right.

  The routine looks up to three characters ahead of a slash, and takes the index back by one where
  the last of them was a slash that begins the next component.

  * `removeLast`, `loop`, `canonicalizePath` -- the routine, on the characters that are left;
  * `resolve`, `canonical` -- the path by its components;
  * `loop_regular`, `loop_component` -- what the loop does with one component;
  * `canonicalizePath_absolute` -- **the two agree on absolute paths, and twice is the same as once.**
-/
import Mathlib.Data.List.Basic

namespace YottaTest.Relink

abbrev Text := List Char

/-! ## 1. The routine -/

/-- The search back for the last "/" that is not the last character of `newPath`, and what is left
    in front of it, with `needSlash`. -/
def removeLast (newPath : Text) : Text × Bool :=
  match newPath.dropLast.reverse.dropWhile (fun c => c ≠ '/') with
  | [] => ([], true)
  | _ :: before => (before.reverse, false)

/-- What the loop works on: the rest of the path, where `set i=i-1` leaves a character in. -/
structure State where
  rest : Text
  newPath : Text
  needSlash : Bool
  deriving DecidableEq, Repr

/-- One turn of `for  do  quit:stop`; `none` is `stop`. -/
def turn (s : State) : Option State :=
  match s.rest with
  | [] => none
  | char :: rest =>
      if char = '/' then
        match rest with
        | [] => none
        | char₁ :: rest₁ =>
            if char₁ = '/' then some { s with rest := char₁ :: rest₁, needSlash := true }
            else if char₁ = '.' then
              match rest₁ with
              | [] => none
              | char₂ :: rest₂ =>
                  if char₂ = '/' then some { s with rest := char₂ :: rest₂, needSlash := false }
                  else if char₂ = '.' then
                    match rest₂ with
                    | [] => some ⟨[], (removeLast s.newPath).1, (removeLast s.newPath).2⟩
                    | char₃ :: rest₃ =>
                        if char₃ = '/' then
                          some ⟨char₃ :: rest₃, (removeLast s.newPath).1, (removeLast s.newPath).2⟩
                        else some ⟨rest₃, s.newPath ++ ['/', '.', '.', char₃], false⟩
                  else some ⟨rest₂, s.newPath ++ ['/', '.', char₂], false⟩
            else some ⟨rest₁, s.newPath ++ ['/', char₁], false⟩
      else some ⟨rest, (if s.needSlash then s.newPath ++ ['/'] else s.newPath) ++ [char], false⟩

/-- Every turn takes a character. -/
theorem length_turn {s s' : State} (h : turn s = some s') : s'.rest.length < s.rest.length := by
  obtain ⟨rest, newPath, needSlash⟩ := s
  unfold turn at h
  dsimp only at h
  repeat' split at h
  all_goals first
    | simp only [Option.some.injEq] at h
      subst h
      simp only [List.length_cons, List.length_nil]
      omega
    | cases h

def loop (s : State) : Text :=
  match _h : turn s with
  | none => s.newPath
  | some s' => loop s'
termination_by s.rest.length
decreasing_by exact length_turn _h

def canonicalizePath (path : Text) : Text :=
  let newPath := loop ⟨path, [], false⟩
  if newPath = [] then ['/'] else newPath

theorem loop_some {s s' : State} (h : turn s = some s') : loop s = loop s' := by
  rw [loop]
  split
  · rename_i h'
    rw [h] at h'
    cases h'
  · rename_i h'
    rw [h] at h'
    rw [Option.some.inj h']

theorem loop_none {s : State} (h : turn s = none) : loop s = s.newPath := by
  rw [loop]
  split
  · rfl
  · rename_i h'
    rw [h] at h'
    cases h'

/-! ## 2. The path by its components -/

/-- What one component does to those kept so far. -/
def keep (kept : List Text) (component : Text) : List Text :=
  if component = [] ∨ component = ['.'] then kept
  else if component = ['.', '.'] then kept.dropLast
  else kept ++ [component]

/-- The components that are kept of a path. -/
def resolve (components : List Text) : List Text := components.foldl keep []

/-- "/" and the kept components with "/" between them. -/
def canonical (path : Text) : Text :=
  '/' :: ['/'].intercalate (resolve (path.splitOn '/'))

/-- What the routine has in `newPath` for the components kept so far. -/
def render (kept : List Text) : Text := kept.flatMap fun w => '/' :: w

/-- A component that can be kept. -/
structure Regular (w : Text) : Prop where
  slash : '/' ∉ w
  nonempty : w ≠ []
  dot : w ≠ ['.']
  dots : w ≠ ['.', '.']

theorem keep_regular {w : Text} (hw : Regular w) (kept : List Text) : keep kept w = kept ++ [w] := by
  rw [keep, if_neg (not_or.2 ⟨hw.nonempty, hw.dot⟩), if_neg hw.dots]

/-- Every component is dropped, goes one up, or is regular. -/
theorem component_cases {w : Text} (hslash : '/' ∉ w) :
    w = [] ∨ w = ['.'] ∨ w = ['.', '.'] ∨ Regular w := by
  by_cases h₁ : w = []
  · exact Or.inl h₁
  by_cases h₂ : w = ['.']
  · exact Or.inr (Or.inl h₂)
  by_cases h₃ : w = ['.', '.']
  · exact Or.inr (Or.inr (Or.inl h₃))
  exact Or.inr (Or.inr (Or.inr ⟨hslash, h₁, h₂, h₃⟩))

theorem keep_regulars {kept : List Text} (hkept : ∀ v ∈ kept, Regular v) {w : Text}
    (hslash : '/' ∉ w) : ∀ v ∈ keep kept w, Regular v := by
  rcases component_cases hslash with rfl | rfl | rfl | hw
  · exact hkept
  · exact hkept
  · exact fun v hv => hkept v (List.dropLast_subset kept hv)
  · rw [keep_regular hw]
    intro v hv
    rcases List.mem_append.1 hv with hv | hv
    · exact hkept v hv
    · rw [List.mem_singleton.1 hv]
      exact hw

theorem foldl_keep_regulars : ∀ {components : List Text}, (∀ w ∈ components, '/' ∉ w) →
    ∀ {kept : List Text}, (∀ v ∈ kept, Regular v) → ∀ v ∈ components.foldl keep kept, Regular v
  | [], _, _, hkept => hkept
  | _ :: _, h, _, hkept => by
      obtain ⟨hw, hrest⟩ := List.forall_mem_cons.1 h
      exact foldl_keep_regulars hrest (keep_regulars hkept hw)

/-- Regular components are all kept. -/
theorem foldl_keep_regular : ∀ {ws : List Text}, (∀ w ∈ ws, Regular w) → ∀ kept : List Text,
    ws.foldl keep kept = kept ++ ws
  | [], _, kept => (List.append_nil kept).symm
  | w :: ws, h, kept => by
      obtain ⟨hw, hws⟩ := List.forall_mem_cons.1 h
      rw [List.foldl_cons, keep_regular hw, foldl_keep_regular hws, List.append_assoc]
      rfl

/-! ## 3. One component -/

theorem render_concat (kept : List Text) (w : Text) : render (kept ++ [w]) = render kept ++ '/' :: w := by
  rw [render, List.flatMap_append]
  simp [render]

/-- **Going one up** takes the last component off. -/
theorem removeLast_render {kept : List Text} (hkept : ∀ v ∈ kept, Regular v) :
    (removeLast (render kept)).1 = render kept.dropLast := by
  rcases List.eq_nil_or_concat kept with rfl | ⟨front, w, rfl⟩
  · rfl
  · rw [List.concat_eq_append] at hkept ⊢
    have hw : Regular w := hkept w (by simp)
    obtain ⟨w', x, rfl⟩ : ∃ w' x, w = w' ++ [x] :=
      ⟨w.dropLast, w.getLast hw.nonempty, (List.dropLast_append_getLast hw.nonempty).symm⟩
    have hw' : ∀ c ∈ w'.reverse, decide (c ≠ '/') = true := by
      intro c hc
      have hmem : c ∈ w' ++ [x] := List.mem_append_left _ (List.mem_reverse.1 hc)
      exact decide_eq_true fun h => hw.slash (h ▸ hmem)
    have hfront : (render (front ++ [w' ++ [x]])).dropLast = render front ++ '/' :: w' := by
      rw [render_concat, ← List.cons_append, ← List.append_assoc, List.dropLast_concat]
    have hsearch : ((render (front ++ [w' ++ [x]])).dropLast.reverse).dropWhile (fun c => c ≠ '/') =
        '/' :: (render front).reverse := by
      rw [hfront, List.reverse_append, List.reverse_cons, List.append_assoc,
        List.dropWhile_append_of_pos hw']
      rfl
    unfold removeLast
    rw [hsearch, List.dropLast_concat]
    exact List.reverse_reverse _

/-- Characters other than a slash are copied. -/
theorem loop_copy : ∀ {w : Text}, '/' ∉ w → ∀ (rest newPath : Text),
    loop ⟨w ++ rest, newPath, false⟩ = loop ⟨rest, newPath ++ w, false⟩
  | [], _, rest, newPath => by rw [List.nil_append, List.append_nil]
  | c :: w, h, rest, newPath => by
      obtain ⟨hc, hw⟩ := not_or.1 fun h' => h (List.mem_cons.2 h')
      have hturn : turn ⟨c :: (w ++ rest), newPath, false⟩ = some ⟨w ++ rest, newPath ++ [c], false⟩ := by
        simp [turn, Ne.symm hc]
      rw [List.cons_append, loop_some hturn, loop_copy hw, List.append_assoc]
      rfl

/-- **A regular component is added**, with the slash in front of it. -/
theorem loop_regular {w : Text} (hw : Regular w) (rest newPath : Text) (needSlash : Bool) :
    loop ⟨'/' :: (w ++ rest), newPath, needSlash⟩ = loop ⟨rest, newPath ++ '/' :: w, false⟩ := by
  obtain ⟨hslash, hnil, hdot, hdots⟩ := hw
  -- up to two dots and another character go in one turn, the rest is copied
  obtain ⟨p, c, w', rfl, hp, hc⟩ : ∃ p c w', w = p ++ c :: w' ∧ (p = [] ∧ c ≠ '.' ∨
      p = ['.'] ∧ c ≠ '.' ∨ p = ['.', '.']) ∧ c ≠ '/' := by
    match w with
    | [] => exact absurd rfl hnil
    | c₁ :: w₁ =>
        by_cases hc₁ : c₁ = '.'
        · subst hc₁
          match w₁ with
          | [] => exact absurd rfl hdot
          | c₂ :: w₂ =>
              by_cases hc₂ : c₂ = '.'
              · subst hc₂
                match w₂ with
                | [] => exact absurd rfl hdots
                | c₃ :: w₃ =>
                    exact ⟨['.', '.'], c₃, w₃, rfl, Or.inr (Or.inr rfl), fun h => hslash (by simp [h])⟩
              · exact ⟨['.'], c₂, w₂, rfl, Or.inr (Or.inl ⟨rfl, hc₂⟩), fun h => hslash (by simp [h])⟩
        · exact ⟨[], c₁, w₁, rfl, Or.inl ⟨rfl, hc₁⟩, fun h => hslash (by simp [h])⟩
  have hw' : '/' ∉ w' := fun h => hslash (by simp [h])
  have hturn : turn ⟨'/' :: (p ++ c :: (w' ++ rest)), newPath, needSlash⟩ =
      some ⟨w' ++ rest, newPath ++ '/' :: (p ++ [c]), false⟩ := by
    rcases hp with ⟨rfl, hne⟩ | ⟨rfl, hne⟩ | rfl
    · simp [turn, hc, hne]
    · simp [turn, hc, hne]
    · simp [turn, hc]
  have hsplit : p ++ c :: w' ++ rest = p ++ c :: (w' ++ rest) := by simp
  rw [hsplit, loop_some hturn, loop_copy hw']
  simp

/-- The rest of a path at the end of a component. -/
def Boundary (rest : Text) : Prop := rest = [] ∨ ∃ r, rest = '/' :: r

/-- The components of such a rest. -/
def componentsOf : Text → List Text
  | [] => []
  | _ :: r => r.splitOn '/'

/-- A text up to its first slash, and what follows. -/
theorem exists_component (r : Text) :
    ∃ w rest, r = w ++ rest ∧ '/' ∉ w ∧ Boundary rest ∧ r.splitOn '/' = w :: componentsOf rest := by
  by_cases h : '/' ∈ r
  · obtain ⟨w, r', hr, hw⟩ := List.eq_append_cons_of_mem h
    refine ⟨w, '/' :: r', hr, hw, Or.inr ⟨r', rfl⟩, ?_⟩
    rw [hr, List.splitOn_append_cons_self_of_not_mem hw]
    rfl
  · exact ⟨r, [], (List.append_nil r).symm, h, Or.inl rfl, List.splitOn_eq_singleton h⟩

/-- At the end of the path the loop stops. -/
theorem loop_nil (newPath : Text) (needSlash : Bool) : loop ⟨[], newPath, needSlash⟩ = newPath :=
  loop_none rfl

/-- **One component**: what is in `newPath` after it is what `keep` makes of the components. -/
theorem loop_component {kept : List Text} (hkept : ∀ v ∈ kept, Regular v) {w rest : Text}
    (hw : '/' ∉ w) (hrest : Boundary rest) (needSlash : Bool) :
    ∃ needSlash',
      loop ⟨'/' :: (w ++ rest), render kept, needSlash⟩ =
        loop ⟨rest, render (keep kept w), needSlash'⟩ := by
  rcases component_cases hw with rfl | rfl | rfl | hreg
  · show ∃ needSlash', _ = loop ⟨rest, render kept, needSlash'⟩
    rcases hrest with rfl | ⟨r, rfl⟩
    · exact ⟨false, (loop_none rfl).trans (loop_nil _ _).symm⟩
    · exact ⟨true, loop_some rfl⟩
  · show ∃ needSlash', _ = loop ⟨rest, render kept, needSlash'⟩
    rcases hrest with rfl | ⟨r, rfl⟩
    · exact ⟨false, (loop_none rfl).trans (loop_nil _ _).symm⟩
    · exact ⟨false, loop_some rfl⟩
  · show ∃ needSlash', _ = loop ⟨rest, render kept.dropLast, needSlash'⟩
    rw [← removeLast_render hkept]
    refine ⟨(removeLast (render kept)).2, ?_⟩
    rcases hrest with rfl | ⟨r, rfl⟩
    · exact loop_some rfl
    · exact loop_some rfl
  · refine ⟨false, ?_⟩
    rw [loop_regular hreg, keep_regular hreg, render_concat]

/-! ## 4. The path as a whole -/

/-- No component has a slash in it. -/
theorem notMem_componentsOf (n : Nat) : ∀ {rest : Text}, rest.length ≤ n → Boundary rest →
    ∀ w ∈ componentsOf rest, '/' ∉ w := by
  induction n with
  | zero =>
      intro rest hn _ w hw
      obtain rfl := List.length_eq_zero_iff.1 (Nat.le_zero.1 hn)
      exact absurd hw List.not_mem_nil
  | succ n ih =>
      intro rest hn hrest w hw
      rcases hrest with rfl | ⟨r, rfl⟩
      · exact absurd hw List.not_mem_nil
      · obtain ⟨v, rest', rfl, hv, hrest', hsplit⟩ := exists_component r
        have hcomponents : componentsOf ('/' :: (v ++ rest')) = v :: componentsOf rest' := hsplit
        rw [hcomponents] at hw
        rcases List.mem_cons.1 hw with rfl | hw
        · exact hv
        · refine ih ?_ hrest' w hw
          rw [List.length_cons, List.length_append] at hn
          omega

/-- **The loop renders the components that are kept of the rest.** -/
theorem loop_render (n : Nat) : ∀ {rest : Text}, rest.length ≤ n → Boundary rest →
    ∀ {kept : List Text}, (∀ v ∈ kept, Regular v) → ∀ needSlash : Bool,
      loop ⟨rest, render kept, needSlash⟩ = render ((componentsOf rest).foldl keep kept) := by
  induction n with
  | zero =>
      intro rest hn _ kept _ needSlash
      obtain rfl := List.length_eq_zero_iff.1 (Nat.le_zero.1 hn)
      exact loop_nil _ _
  | succ n ih =>
      intro rest hn hrest kept hkept needSlash
      rcases hrest with rfl | ⟨r, rfl⟩
      · exact loop_nil _ _
      · obtain ⟨w, rest', rfl, hw, hrest', hsplit⟩ := exists_component r
        obtain ⟨needSlash', hloop⟩ := loop_component hkept hw hrest' needSlash
        have hlen : rest'.length ≤ n := by
          rw [List.length_cons, List.length_append] at hn
          omega
        have hcomponents : componentsOf ('/' :: (w ++ rest')) = w :: componentsOf rest' := hsplit
        rw [hloop, ih hlen hrest' (keep_regulars hkept hw), hcomponents, List.foldl_cons]

/-- The rendered components, with "/" for none of them. -/
theorem render_eq : ∀ {kept : List Text}, kept ≠ [] → render kept = '/' :: ['/'].intercalate kept
  | [], h => absurd rfl h
  | [w], _ => by simp [render]
  | w :: v :: kept, _ => by
      have ih : render (v :: kept) = '/' :: ['/'].intercalate (v :: kept) := render_eq (by simp)
      rw [List.intercalate_cons_cons, render, List.flatMap_cons]
      show '/' :: w ++ render (v :: kept) = _
      rw [ih]
      simp

/-- The components of an absolute path that are kept. -/
theorem resolve_absolute (r : Text) :
    resolve (('/' :: r).splitOn '/') = (componentsOf ('/' :: r)).foldl keep [] := by
  have hsplit : ('/' :: r).splitOn '/' = [] :: r.splitOn '/' :=
    List.splitOn_append_cons_self_of_not_mem List.not_mem_nil r
  rw [resolve, hsplit]
  rfl

theorem resolve_regular (r : Text) : ∀ v ∈ resolve (('/' :: r).splitOn '/'), Regular v := by
  rw [resolve_absolute]
  exact foldl_keep_regulars (notMem_componentsOf _ (Nat.le_refl _) (Or.inr ⟨r, rfl⟩))
    fun _ h => absurd h List.not_mem_nil

theorem canonicalizePath_eq (r : Text) : canonicalizePath ('/' :: r) = canonical ('/' :: r) := by
  have hloop : loop ⟨'/' :: r, [], false⟩ = render (resolve (('/' :: r).splitOn '/')) := by
    rw [resolve_absolute]
    exact loop_render _ (Nat.le_refl _) (Or.inr ⟨r, rfl⟩) (fun _ h => absurd h List.not_mem_nil) false
  unfold canonicalizePath canonical
  rw [hloop]
  by_cases h : resolve (('/' :: r).splitOn '/') = []
  · rw [h]
    rfl
  · rw [render_eq h]
    exact if_neg (List.cons_ne_nil _ _)

/-- A canonical path is its own. -/
theorem canonical_canonical (r : Text) : canonical (canonical ('/' :: r)) = canonical ('/' :: r) := by
  have hregular := resolve_regular r
  have hcanonical : canonical ('/' :: r) = '/' :: ['/'].intercalate (resolve (('/' :: r).splitOn '/')) :=
    rfl
  generalize resolve (('/' :: r).splitOn '/') = kept at hregular hcanonical
  rw [hcanonical, canonical, resolve_absolute]
  congr 2
  by_cases h : kept = []
  · subst h
    rfl
  · show (List.splitOn '/' (['/'].intercalate kept)).foldl keep [] = kept
    rw [List.splitOn_intercalate '/' (fun v hv => (hregular v hv).slash) h,
      foldl_keep_regular hregular, List.nil_append]

/-- **Every absolute path is canonicalised**, and a canonicalised one is left as it is. -/
theorem canonicalizePath_absolute (r : Text) :
    canonicalizePath ('/' :: r) = canonical ('/' :: r) ∧
      canonicalizePath (canonicalizePath ('/' :: r)) = canonicalizePath ('/' :: r) := by
  refine ⟨canonicalizePath_eq r, ?_⟩
  rw [canonicalizePath_eq, canonical, canonicalizePath_eq]
  exact canonical_canonical r

end YottaTest.Relink
