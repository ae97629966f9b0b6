/-
  File:      YottaTest/Sprgde/Ranges.lean
  Subject:   gensprgde.m: the names that map a global's nodes to regions, from one key to the next.

  * `firstCmds`, `lastCmds`, `betweenCmds`, `mapCmds` -- the `add -name` commands for the chosen keys,
    in their order;
  * `matchsubs_spec` -- the level at which a key and the next one part;
  * `mem_betweenCmds` -- between two keys exactly the spans of `Laid` are added;
  * `Zwr`, `lineOf`, `gensprgde` -- subscripts and their texts, the lines the keys are read from;
  * `MapsTo`, `maps_regions` -- **each node is sent to the region of the last key that is not after
    it, and no name is added twice.**
-/
import Mathlib.Data.List.Nodup
import YottaTest.Lib.Digits
import YottaTest.Lib.Paths
import YottaTest.Sprgde.Extractkey

namespace YottaTest.Sprgde

open YottaTest.Lib

/-! ## 1. The commands -/

/-- `add -name <gblname>(...) -region=<region>`. The range `(...,a:b)` is written with the lower bound
    as its last subscript. -/
structure Cmd (σ ρ : Type) where
  gblname : Text
  name : Span σ
  region : ρ
  deriving DecidableEq, Repr

/-- The global directory, and what is not to be mapped. -/
structure Env (ρ : Type) where
  /-- `$piece($view("REGION","^"_gblname),",",1)` -/
  view : Text → ρ
  /-- `^%sprgdeExcludeGbllist(gblname)` is there, or cannot be there -/
  excludegbl : Text → Bool
  excludereg : ρ → Bool

section Commands

variable {σ ρ : Type} [DecidableEq σ]

/-- Case (1): first subscripted global variable reference with this name. -/
def firstCmds (key : Key σ) (prevReg : ρ) : List (Cmd σ ρ) :=
  (List.range' 1 (key.subs.length - 1)).map fun j => ⟨key.gblname, .point (key.subs.take j), prevReg⟩

/-- Case (2): last subscripted global variable reference with this name. -/
def lastCmds (key : Key σ) (currReg : ρ) : List (Cmd σ ρ) :=
  (List.range' 1 key.subs.length).map fun j =>
    ⟨key.gblname, .range (key.subs.take j) none, currReg⟩

/-- `for j=1:1:minsubs quit:gvkey(i,j)'=gvkey(nexti,j)`, with so many values of `j` after this one. -/
def quitAt (subs nextsubs : List σ) : Nat → Nat → Nat
  | 0, j => j
  | left + 1, j =>
      if subs[j - 1]? ≠ nextsubs[j - 1]? then j else quitAt subs nextsubs left (j + 1)

def matchsubs (subs nextsubs : List σ) : Nat :=
  let minsubs := if subs.length < nextsubs.length then subs.length else nextsubs.length
  let j := quitAt subs nextsubs (minsubs - 1) 1
  if j < minsubs then j else if subs[j - 1]? ≠ nextsubs[j - 1]? then j else j + 1

/-- Case (3): not the last subscripted global variable reference with this name. -/
def betweenCmds (key next : Key σ) (currReg : ρ) : List (Cmd σ ρ) :=
  let nsubs := key.subs.length
  let nextnsubs := next.subs.length
  let m := matchsubs key.subs next.subs
  let pre := key.subs.take (m - 1)
  ((List.range' m (nsubs + 1 - m)).map fun j =>
      ⟨key.gblname, .range (key.subs.take j) (if j = m then next.subs[j - 1]? else none), currReg⟩) ++
    (if nsubs + 1 = m then [⟨key.gblname, .point pre, currReg⟩] else []) ++
    (List.range' m (nextnsubs - m)).map fun j =>
      ⟨key.gblname, .point (pre ++ (next.subs.take j).drop (m - 1)), currReg⟩

/-- The commands for a key, between the key before and the key after it. -/
def sectionCmds (env : Env ρ) (prev : Option (Key σ)) (key : Key σ) (currReg : ρ)
    (next : Option (Key σ)) : List (Cmd σ ρ) :=
  let prevReg := env.view key.gblname
  if key.subs = [] then []
  else if env.excludegbl key.gblname then []
  else if env.excludereg prevReg then []
  else
    (if prev.all fun prev => prev.gblname ≠ key.gblname then firstCmds key prevReg else []) ++
      match next with
      | none => lastCmds key currReg
      | some next =>
          if key.gblname ≠ next.gblname then lastCmds key currReg
          else betweenCmds key next currReg

/-- The keys in their order, each with the region chosen for it. -/
def mapCmds (env : Env ρ) : Option (Key σ) → List (Key σ × ρ) → List (Cmd σ ρ)
  | _, [] => []
  | prev, (key, currReg) :: rest =>
      sectionCmds env prev key currReg (rest.head?.map Prod.fst) ++ mapCmds env (some key) rest

end Commands

/-! ## 2. Where a key and the next one part -/

section Match

variable {σ : Type} [DecidableEq σ] {k x : List σ}

theorem quitAt_spec (k x : List σ) : ∀ left j : Nat,
    j ≤ quitAt k x left j ∧ quitAt k x left j ≤ j + left ∧
      (∀ t, j ≤ t → t < quitAt k x left j → k[t - 1]? = x[t - 1]?) ∧
      (quitAt k x left j < j + left →
        k[quitAt k x left j - 1]? ≠ x[quitAt k x left j - 1]?)
  | 0, j => ⟨Nat.le_refl j, Nat.le_refl j, fun t h h' => absurd h' (Nat.not_lt.2 h),
      fun h => absurd h (Nat.lt_irrefl j)⟩
  | left + 1, j => by
      rw [quitAt]
      split
      · rename_i hne
        exact ⟨Nat.le_refl j, by omega, fun t h h' => absurd h' (Nat.not_lt.2 h), fun _ => hne⟩
      · rename_i heq
        obtain ⟨hle, hle', hsame, hdiff⟩ := quitAt_spec k x left (j + 1)
        refine ⟨by omega, by omega, fun t ht ht' => ?_, fun h => hdiff (by omega)⟩
        rcases Nat.lt_or_eq_of_le ht with ht | rfl
        · exact hsame t ht ht'
        · exact Decidable.not_not.1 heq

/-- **The keys are the same before `matchsubs`, and not at it.** -/
theorem matchsubs_spec (hk : k ≠ []) (hx : x ≠ []) :
    1 ≤ matchsubs k x ∧ matchsubs k x ≤ k.length + 1 ∧ matchsubs k x ≤ x.length + 1 ∧
      k.take (matchsubs k x - 1) = x.take (matchsubs k x - 1) ∧
      ∀ t, matchsubs k x ≤ t → t ≤ k.length → k.take t ≠ x.take t := by
  have hkpos := List.length_pos_iff.2 hk
  have hxpos := List.length_pos_iff.2 hx
  obtain ⟨minsubs, hmin⟩ : ∃ minsubs,
      minsubs = if k.length < x.length then k.length else x.length := ⟨_, rfl⟩
  obtain ⟨hle, hle', hsame, hdiff⟩ := quitAt_spec k x (minsubs - 1) 1
  have hunfold : matchsubs k x = if quitAt k x (minsubs - 1) 1 < minsubs then
      quitAt k x (minsubs - 1) 1 else if k[quitAt k x (minsubs - 1) 1 - 1]? ≠
        x[quitAt k x (minsubs - 1) 1 - 1]? then quitAt k x (minsubs - 1) 1
      else quitAt k x (minsubs - 1) 1 + 1 := by
    rw [hmin]
    rfl
  rw [hunfold]
  generalize quitAt k x (minsubs - 1) 1 = j at *
  have hbound : minsubs ≤ k.length ∧ minsubs ≤ x.length ∧ 0 < minsubs := by
    rw [hmin]
    split <;> omega
  have hmins : minsubs = k.length ∨ minsubs = x.length := by
    rw [hmin]
    split <;> simp
  -- what the two cases say: the level `m` is past the common part, and the keys differ at it
  have key : ∀ m, 1 ≤ m → m ≤ minsubs + 1 → (∀ t, 1 ≤ t → t < m → k[t - 1]? = x[t - 1]?) →
      (m ≤ minsubs → k[m - 1]? ≠ x[m - 1]?) →
      1 ≤ m ∧ m ≤ k.length + 1 ∧ m ≤ x.length + 1 ∧ k.take (m - 1) = x.take (m - 1) ∧
        ∀ t, m ≤ t → t ≤ k.length → k.take t ≠ x.take t := by
    intro m hm hm' heq hne
    refine ⟨hm, by omega, by omega, ?_, fun t ht htk htake => ?_⟩
    · refine List.ext_getElem? fun t => ?_
      rw [List.getElem?_take, List.getElem?_take]
      split
      · exact heq (t + 1) (by omega) (by omega)
      · rfl
    · have hlen := congrArg List.length htake
      rw [List.length_take, List.length_take, Nat.min_eq_left htk] at hlen
      refine hne (by omega) ?_
      have hget := congrArg (fun l => l[m - 1]?) htake
      simpa [List.getElem?_take, show m - 1 < t by omega] using hget
  split
  · rename_i hlt
    exact key j hle (by omega) (fun t ht ht' => hsame t ht ht') fun _ => hdiff (by omega)
  · split
    · rename_i hne
      exact key j hle (by omega) (fun t ht ht' => hsame t ht ht') fun _ => hne
    · rename_i heq
      refine key (j + 1) (by omega) (by omega) (fun t ht ht' => ?_) fun h => by omega
      rcases Nat.lt_or_eq_of_le (Nat.le_of_lt_succ ht') with hlt | rfl
      · exact hsame t ht hlt
      · exact Decidable.not_not.1 heq

end Match

/-! ## 3. What is laid out between two keys -/

section Laid

variable {α ρ : Type} [LinearOrder α] {g : Text} {k x : List α} {r : ρ} {c : Cmd α ρ}

omit [LinearOrder α] in
theorem prefix_iff_take {s k : List α} : s <+: k ↔ ∃ j ≤ k.length, s = k.take j := by
  constructor
  · intro h
    exact ⟨s.length, h.length_le, List.prefix_iff_eq_take.1 h⟩
  · rintro ⟨j, -, rfl⟩
    exact List.take_prefix j k

/-- A beginning of the key is one of the next key, if it ends before `matchsubs`. -/
theorem take_prefix_iff (hk : k ≠ []) (hx : x ≠ []) {j : Nat} (hj : j ≤ k.length) :
    k.take j <+: x ↔ j < matchsubs k x := by
  obtain ⟨hm, hmk, hmx, hsame, hdiff⟩ := matchsubs_spec hk hx
  constructor
  · intro h
    by_contra hle
    refine hdiff j (Nat.le_of_not_lt hle) hj ?_
    have htake := List.prefix_iff_eq_take.1 h
    rwa [List.length_take, Nat.min_eq_left hj] at htake
  · intro h
    have hle : j ≤ matchsubs k x - 1 := by omega
    exact (List.take_prefix_take_left hle).trans (hsame ▸ List.take_prefix _ _)

/-- The ranges of case (3). -/
theorem laid_range (hk : k ≠ []) (hx : x ≠ []) {path : List α} {bound : Option α} :
    Laid k (some x) (.range path bound) ↔
      ∃ j, matchsubs k x ≤ j ∧ j ≤ k.length ∧ path = k.take j ∧
        bound = if j = matchsubs k x then x[j - 1]? else none := by
  obtain ⟨hm, -, -, -, -⟩ := matchsubs_spec hk hx
  have hbound : ∀ j, matchsubs k x ≤ j → j ≤ k.length →
      ((some x).bind fun x => if (k.take j).dropLast <+: x then x[(k.take j).length - 1]? else none) =
        if j = matchsubs k x then x[j - 1]? else none := by
    intro j hle hj
    rw [Option.bind_some, List.length_take, Nat.min_eq_left hj, List.dropLast_eq_take,
      List.length_take, Nat.min_eq_left hj, List.take_take, Nat.min_eq_left (Nat.sub_le j 1)]
    have hiff : k.take (j - 1) <+: x ↔ j = matchsubs k x := by
      rw [take_prefix_iff hk hx (by omega)]
      omega
    simp only [hiff]
  constructor
  · rintro ⟨hpath, hne, hnot, rfl⟩
    obtain ⟨j, hj, rfl⟩ := prefix_iff_take.1 hpath
    have hle : matchsubs k x ≤ j :=
      Nat.le_of_not_lt fun hlt => hnot x rfl ((take_prefix_iff hk hx hj).2 hlt)
    exact ⟨j, hle, hj, rfl, hbound j hle hj⟩
  · rintro ⟨j, hle, hj, rfl, rfl⟩
    refine ⟨List.take_prefix j k, fun hnil => ?_, fun y hy => ?_, (hbound j hle hj).symm⟩
    · rcases List.take_eq_nil_iff.1 hnil with h | h
      · omega
      · exact hk h
    · obtain rfl := Option.some.inj hy
      rw [take_prefix_iff hk hx hj]
      omega

/-- The points of case (3). -/
theorem laid_point (hk : k ≠ []) (hkx : k < x) {path : List α} :
    Laid k (some x) (.point path) ↔
      (k.length + 1 = matchsubs k x ∧ path = k.take (matchsubs k x - 1)) ∨
        ∃ j, matchsubs k x ≤ j ∧ j < x.length ∧
          path = k.take (matchsubs k x - 1) ++ (x.take j).drop (matchsubs k x - 1) := by
  have hx : x ≠ [] := by
    rintro rfl
    exact absurd hkx (not_lt.2 (nil_le_path k))
  obtain ⟨hm, hmk, -, hsame, hdiff⟩ := matchsubs_spec hk hx
  have hjoin : ∀ j, matchsubs k x ≤ j →
      k.take (matchsubs k x - 1) ++ (x.take j).drop (matchsubs k x - 1) = x.take j := by
    intro j hj
    have hbegin : x.take (matchsubs k x - 1) = (x.take j).take (matchsubs k x - 1) := by
      rw [List.take_take, Nat.min_eq_left (by omega)]
    rw [hsame, hbegin, List.take_append_drop]
  constructor
  · rintro ⟨y, hy, hpath, hne, hle⟩
    obtain rfl := Option.some.inj hy
    obtain ⟨j, hj, rfl⟩ := prefix_iff_take.1 hpath
    rcases Nat.lt_or_ge j (matchsubs k x) with hlt | hge
    · -- the beginning of the key itself: the next key continues it
      have hbegin : x.take j <+: k := by
        have hle : j ≤ matchsubs k x - 1 := by omega
        exact (List.take_prefix_take_left hle).trans (hsame ▸ List.take_prefix _ _)
      have heq : x.take j = k := le_antisymm (prefix_le hbegin) hle
      have hlen := congrArg List.length heq
      rw [List.length_take, Nat.min_eq_left hj] at hlen
      refine Or.inl ⟨by omega, ?_⟩
      rw [heq, List.take_of_length_le (by omega)]
    · refine Or.inr ⟨j, hge, Nat.lt_of_le_of_ne hj ?_, (hjoin j hge).symm⟩
      rintro rfl
      exact hne (List.take_length)
  · rintro (⟨hlast, rfl⟩ | ⟨j, hge, hj, rfl⟩)
    · have htake : k.take (matchsubs k x - 1) = k := List.take_of_length_le (by omega)
      rw [htake]
      refine ⟨x, rfl, ?_, ne_of_lt hkx, le_refl k⟩
      rw [← htake, hsame]
      exact List.take_prefix _ _
    · rw [hjoin j hge]
      refine ⟨x, rfl, List.take_prefix _ _, fun h => ?_, not_lt.1 fun hlt => ?_⟩
      · have hlen := congrArg List.length h
        rw [List.length_take] at hlen
        omega
      · -- else the key would go along with the next one as far as that
        have hbegin : x.take j <+: k :=
          prefix_between List.prefix_rfl (List.take_prefix _ _) (le_of_lt hlt) (le_of_lt hkx)
        have hlen := hbegin.length_le
        rw [List.length_take, Nat.min_eq_left (le_of_lt hj)] at hlen
        have heq := List.prefix_iff_eq_take.1 hbegin
        rw [List.length_take, Nat.min_eq_left (le_of_lt hj)] at heq
        exact hdiff j hge hlen heq.symm

/-- **Between two keys exactly the spans of `Laid` are added.** -/
theorem mem_betweenCmds (hk : k ≠ []) (hkx : k < x) :
    c ∈ betweenCmds ⟨g, k⟩ ⟨g, x⟩ r ↔ c.gblname = g ∧ c.region = r ∧ Laid k (some x) c.name := by
  have hx : x ≠ [] := by
    rintro rfl
    exact absurd hkx (not_lt.2 (nil_le_path k))
  obtain ⟨g', n, r'⟩ := c
  simp only [betweenCmds, List.mem_append, List.mem_map, List.mem_range'_1, Cmd.mk.injEq]
  constructor
  · rintro ((⟨j, hj, rfl, rfl, rfl⟩ | hpre) | ⟨j, hj, rfl, rfl, rfl⟩)
    · exact ⟨rfl, rfl, (laid_range hk hx).2 ⟨j, hj.1, by omega, rfl, rfl⟩⟩
    · split at hpre
      · rename_i hlen
        obtain ⟨rfl, rfl, rfl⟩ := Cmd.mk.inj (List.mem_singleton.1 hpre)
        exact ⟨rfl, rfl, (laid_point hk hkx).2 (Or.inl ⟨hlen, rfl⟩)⟩
      · cases hpre
    · exact ⟨rfl, rfl, (laid_point hk hkx).2 (Or.inr ⟨j, hj.1, by omega, rfl⟩)⟩
  · rintro ⟨rfl, rfl, hlaid⟩
    cases n with
    | point path =>
        rcases (laid_point hk hkx).1 hlaid with ⟨hlen, rfl⟩ | ⟨j, hle, hj, rfl⟩
        · refine Or.inl (Or.inr ?_)
          rw [if_pos hlen]
          exact List.mem_singleton_self _
        · exact Or.inr ⟨j, by omega, rfl, rfl, rfl⟩
    | range path bound =>
        obtain ⟨j, hle, hj, rfl, rfl⟩ := (laid_range hk hx).1 hlaid
        exact Or.inl (Or.inl ⟨j, by omega, rfl, rfl, rfl⟩)

/-- After the last key, ranges without an upper bound. -/
theorem mem_lastCmds (hk : k ≠ []) :
    c ∈ lastCmds ⟨g, k⟩ r ↔ c.gblname = g ∧ c.region = r ∧ Laid k none c.name := by
  obtain ⟨g', n, r'⟩ := c
  simp only [lastCmds, List.mem_map, List.mem_range'_1, Cmd.mk.injEq]
  constructor
  · rintro ⟨j, hj, rfl, rfl, rfl⟩
    refine ⟨rfl, rfl, List.take_prefix j k, fun hnil => ?_, fun y hy => absurd hy (by simp), rfl⟩
    rcases List.take_eq_nil_iff.1 hnil with h | h
    · omega
    · exact hk h
  · rintro ⟨rfl, rfl, hlaid⟩
    cases n with
    | point path =>
        obtain ⟨y, hy, -⟩ := hlaid
        cases hy
    | range path bound =>
        obtain ⟨hpath, hne, -, rfl⟩ := hlaid
        obtain ⟨j, hj, rfl⟩ := prefix_iff_take.1 hpath
        have hpos : j ≠ 0 := by
          rintro rfl
          exact hne List.take_zero
        exact ⟨j, by omega, rfl, rfl, rfl⟩

/-- Before the first key, its beginnings; the global's name itself is there already. -/
theorem mem_firstCmds (hk : k ≠ []) :
    c ∈ firstCmds ⟨g, k⟩ r ↔
      c.gblname = g ∧ c.region = r ∧ Laid [] (some k) c.name ∧ c.name ≠ .point [] := by
  have hpos := List.length_pos_iff.2 hk
  obtain ⟨g', n, r'⟩ := c
  simp only [firstCmds, List.mem_map, List.mem_range'_1, Cmd.mk.injEq]
  constructor
  · rintro ⟨j, hj, rfl, rfl, rfl⟩
    refine ⟨rfl, rfl, ⟨k, rfl, List.take_prefix j k, fun h => ?_, nil_le_path _⟩, fun h => ?_⟩
    · have hlen := congrArg List.length h
      rw [List.length_take] at hlen
      omega
    · rcases List.take_eq_nil_iff.1 (Span.point.inj h) with h | h
      · omega
      · exact hk h
  · rintro ⟨rfl, rfl, hlaid, hne⟩
    cases n with
    | point path =>
        obtain ⟨y, hy, hpath, hne', -⟩ := hlaid
        obtain rfl := Option.some.inj hy
        obtain ⟨j, hj, rfl⟩ := prefix_iff_take.1 hpath
        have h0 : j ≠ 0 := by
          rintro rfl
          exact hne (congrArg Span.point List.take_zero)
        have hlast : j ≠ k.length := by
          rintro rfl
          exact hne' List.take_length
        exact ⟨j, by omega, rfl, rfl, rfl⟩
    | range path bound => exact absurd (List.prefix_nil.1 hlaid.1) hlaid.2.1

/-! ### No name twice between two keys -/

omit [LinearOrder α] in
theorem nodup_of_level {f : Nat → Cmd α ρ} {a n : Nat}
    (h : ∀ j, a ≤ j → j < a + n → (f j).name.level = j) :
    (((List.range' a n).map f).map Cmd.name).Nodup := by
  refine List.Nodup.of_map Span.level ?_
  have hlevels : (((List.range' a n).map f).map Cmd.name).map Span.level = List.range' a n := by
    rw [List.map_map, List.map_map]
    refine (List.map_congr_left fun j hj => ?_).trans (List.map_id _)
    rw [List.mem_range'_1] at hj
    exact h j hj.1 hj.2
  rw [hlevels]
  exact List.nodup_range' 1 Nat.one_pos

omit [LinearOrder α] in
theorem nodup_firstCmds (key : Key α) (r : ρ) : ((firstCmds key r).map Cmd.name).Nodup := by
  refine nodup_of_level fun j hj hj' => ?_
  simp only [Span.level, List.length_take]
  omega

omit [LinearOrder α] in
theorem nodup_lastCmds (key : Key α) (r : ρ) : ((lastCmds key r).map Cmd.name).Nodup := by
  refine nodup_of_level fun j hj hj' => ?_
  simp only [Span.level, List.length_take]
  omega

theorem nodup_betweenCmds (hk : k ≠ []) (hx : x ≠ []) :
    ((betweenCmds ⟨g, k⟩ ⟨g, x⟩ r).map Cmd.name).Nodup := by
  obtain ⟨hm, hmk, -, hsame, -⟩ := matchsubs_spec hk hx
  simp only [betweenCmds, List.map_append]
  refine List.nodup_append.2 ⟨List.nodup_append.2 ⟨?_, ?_, ?_⟩, ?_, ?_⟩
  · refine nodup_of_level fun j hj hj' => ?_
    simp only [Span.level, List.length_take]
    omega
  · split
    · exact List.nodup_singleton _
    · exact List.nodup_nil
  · intro n hn n' hn' heq
    obtain ⟨c, hc, rfl⟩ := List.mem_map.1 hn
    obtain ⟨j, -, rfl⟩ := List.mem_map.1 hc
    split at hn'
    · rw [List.map_singleton, List.mem_singleton] at hn'
      rw [hn'] at heq
      cases heq
    · cases hn'
  · refine nodup_of_level fun j hj hj' => ?_
    simp only [Span.level, List.length_append, List.length_drop, List.length_take]
    omega
  · intro n hn n' hn' heq
    obtain ⟨c', hc', rfl⟩ := List.mem_map.1 hn'
    obtain ⟨j', hj', rfl⟩ := List.mem_map.1 hc'
    rcases List.mem_append.1 hn with hn | hn
    · obtain ⟨c, hc, rfl⟩ := List.mem_map.1 hn
      obtain ⟨j, -, rfl⟩ := List.mem_map.1 hc
      cases heq
    · rw [List.mem_range'_1] at hj'
      split at hn
      · rw [List.map_singleton, List.mem_singleton] at hn
        rw [hn] at heq
        have hlen := congrArg Span.level heq
        simp only [Span.level, List.length_append, List.length_drop, List.length_take] at hlen
        omega
      · cases hn

/-- The spans before a key are none of those from it on. -/
theorem not_laid_of_laid_nil {n : Span α} (next : Option (List α)) (h : Laid [] (some k) n) :
    ¬ Laid k next n := by
  intro h'
  cases n with
  | point path =>
      obtain ⟨y, hy, hpath, hne, -⟩ := h
      obtain rfl := Option.some.inj hy
      obtain ⟨-, -, -, -, hle⟩ := h'
      exact absurd hle (not_le.2 (prefix_lt hpath hne))
  | range path bound => exact absurd (List.prefix_nil.1 h.1) h.2.1

end Laid

/-! ## 4. One global -/

section Global

variable {α ρ : Type} [LinearOrder α] {env : Env ρ} {g : Text} {c : Cmd α ρ}

/-- The chosen keys of one global, with their regions. -/
def keysOf (g : Text) (secs : List (List α × ρ)) : List (Key α × ρ) :=
  secs.map fun s => (⟨g, s.1⟩, s.2)

variable (hgbl : env.excludegbl g = false) (hreg : env.excludereg (env.view g) = false)
include hgbl hreg

/-- The commands for a key of the global. -/
theorem mem_sectionCmds (prev : Option (Key α)) {k : List α} {r : ρ} {next : Option (List α)}
    (hk : k ≠ []) (hnext : ∀ x, next = some x → k < x) :
    c ∈ sectionCmds env prev ⟨g, k⟩ r (next.map (Key.mk g)) ↔
      ((prev.all fun prev => prev.gblname ≠ g) = true ∧ c ∈ firstCmds ⟨g, k⟩ (env.view g)) ∨
        (c.gblname = g ∧ c.region = r ∧ Laid k next c.name) := by
  have hrest : (c ∈ match next.map (Key.mk g) with
      | none => lastCmds ⟨g, k⟩ r
      | some next => if g ≠ next.gblname then lastCmds ⟨g, k⟩ r else betweenCmds ⟨g, k⟩ next r) ↔
      c.gblname = g ∧ c.region = r ∧ Laid k next c.name := by
    cases next with
    | none => exact mem_lastCmds hk
    | some x =>
        have hx := mem_betweenCmds (g := g) (r := r) (c := c) hk (hnext x rfl)
        simpa using hx
  unfold sectionCmds
  simp only [if_neg hk, hgbl, hreg, Bool.false_eq_true, if_false, List.mem_append, hrest]
  refine or_congr ?_ Iff.rfl
  split
  · rename_i hfirst
    exact ⟨fun h => ⟨hfirst, h⟩, And.right⟩
  · rename_i hfirst
    exact ⟨fun h => absurd h List.not_mem_nil, fun h => absurd h.1 hfirst⟩

omit hgbl hreg [LinearOrder α] in
theorem head_keysOf (secs : List (List α × ρ)) :
    (keysOf g secs).head?.map Prod.fst = (secs.map Prod.fst)[0]?.map (Key.mk g) := by
  cases secs <;> rfl

omit hgbl hreg in
theorem laidAt_succ {k : List α} {ks : List (List α)} {i : Nat} {n : Span α} :
    LaidAt (k :: ks) (i + 1) n ↔ LaidAt ks i n := by
  simp [LaidAt]

omit hgbl hreg in
theorem laidAt_zero {k : List α} {ks : List (List α)} {n : Span α} :
    LaidAt (k :: ks) 0 n ↔ Laid k ks[0]? n := by
  simp [LaidAt]

/-- Behind a key of the same global, the commands are those of `Laid`, in their order. -/
theorem mem_mapCmds_some : ∀ {secs : List (List α × ρ)} (k₀ : List α),
    (∀ s ∈ secs, s.1 ≠ []) → (secs.map Prod.fst).Pairwise (· < ·) →
      (c ∈ mapCmds env (some ⟨g, k₀⟩) (keysOf g secs) ↔
        c.gblname = g ∧ ∃ i, LaidAt (secs.map Prod.fst) i c.name ∧
          (secs.map Prod.snd)[i]? = some c.region)
  | [], _, _, _ => by simp [mapCmds, keysOf, LaidAt]
  | (k, r) :: secs, k₀, hne, hinc => by
      obtain ⟨hk, hne⟩ := List.forall_mem_cons.1 hne
      obtain ⟨hlt, hinc⟩ := List.pairwise_cons.1 hinc
      have hnext : ∀ x, (secs.map Prod.fst)[0]? = some x → k < x := fun x hx =>
        hlt x (List.mem_of_getElem? hx)
      have hhead := mem_sectionCmds (c := c) hgbl hreg (some ⟨g, k₀⟩) (r := r) hk hnext
      have htail := mem_mapCmds_some k hne hinc
      show c ∈ sectionCmds env (some ⟨g, k₀⟩) ⟨g, k⟩ r ((keysOf g secs).head?.map Prod.fst) ++
        mapCmds env (some ⟨g, k⟩) (keysOf g secs) ↔ _
      rw [List.mem_append, head_keysOf, hhead, htail]
      constructor
      · rintro ((⟨hprev, -⟩ | ⟨hg, hr, hlaid⟩) | ⟨hg, i, hlaid, hr⟩)
        · simp at hprev
        · exact ⟨hg, 0, laidAt_zero.2 hlaid, congrArg some hr.symm⟩
        · exact ⟨hg, i + 1, laidAt_succ.2 hlaid, hr⟩
      · rintro ⟨hg, i, hlaid, hr⟩
        cases i with
        | zero => exact Or.inl (Or.inr ⟨hg, (Option.some.inj hr).symm, laidAt_zero.1 hlaid⟩)
        | succ i => exact Or.inr ⟨hg, i, laidAt_succ.1 hlaid, hr⟩

/-- **The commands of a global are the spans laid out between its keys**, with the global's name, and
    the region it is mapped to, before the first one. -/
theorem mem_mapCmds {secs : List (List α × ρ)} (hne : ∀ s ∈ secs, s.1 ≠ [])
    (hinc : (secs.map Prod.fst).Pairwise (· < ·)) :
    c ∈ mapCmds env none (keysOf g secs) ↔
      c.gblname = g ∧ c.name ≠ .point [] ∧ ∃ i, LaidAt ([] :: secs.map Prod.fst) i c.name ∧
        (env.view g :: secs.map Prod.snd)[i]? = some c.region := by
  cases secs with
  | nil =>
      refine ⟨fun h => absurd h List.not_mem_nil, ?_⟩
      rintro ⟨-, hne, i, ⟨k, hk, hlaid⟩, -⟩
      exfalso
      cases i with
      | zero =>
          obtain rfl := Option.some.inj hk
          cases hn : c.name with
          | point path =>
              rw [hn] at hlaid
              obtain ⟨x, hx, -⟩ := hlaid
              cases hx
          | range path bound =>
              rw [hn] at hlaid
              exact hlaid.2.1 (List.prefix_nil.1 hlaid.1)
      | succ i => simp at hk
  | cons s secs =>
      obtain ⟨k, r⟩ := s
      obtain ⟨hk, hne'⟩ := List.forall_mem_cons.1 hne
      obtain ⟨hlt, hinc'⟩ := List.pairwise_cons.1 hinc
      have hnext : ∀ x, (secs.map Prod.fst)[0]? = some x → k < x := fun x hx =>
        hlt x (List.mem_of_getElem? hx)
      have hhead := mem_sectionCmds (c := c) hgbl hreg none (r := r) hk hnext
      have htail := mem_mapCmds_some (c := c) hgbl hreg k hne' hinc'
      -- no span after the first key is the name itself
      have hpoint : ∀ i, LaidAt (k :: secs.map Prod.fst) i c.name → c.name ≠ .point [] := by
        rintro i ⟨k', hk', hlaid⟩ hn
        rw [hn] at hlaid
        obtain ⟨x, -, -, -, hle⟩ := hlaid
        have hmem : k' ∈ ((k, r) :: secs).map Prod.fst := List.mem_of_getElem? hk'
        obtain ⟨s, hs, rfl⟩ := List.mem_map.1 hmem
        exact hne s hs (le_antisymm hle (nil_le_path _))
      show c ∈ sectionCmds env none ⟨g, k⟩ r ((keysOf g secs).head?.map Prod.fst) ++
        mapCmds env (some ⟨g, k⟩) (keysOf g secs) ↔ _
      rw [List.mem_append, head_keysOf, hhead, htail, mem_firstCmds hk]
      constructor
      · rintro ((⟨-, hg, hr, hlaid, hn⟩ | ⟨hg, hr, hlaid⟩) | ⟨hg, i, hlaid, hr⟩)
        · exact ⟨hg, hn, 0, laidAt_zero.2 hlaid, congrArg some hr.symm⟩
        · have hat : LaidAt (k :: secs.map Prod.fst) 0 c.name := laidAt_zero.2 hlaid
          exact ⟨hg, hpoint 0 hat, 1, laidAt_succ.2 hat, congrArg some hr.symm⟩
        · have hat : LaidAt (k :: secs.map Prod.fst) (i + 1) c.name := laidAt_succ.2 hlaid
          exact ⟨hg, hpoint _ hat, i + 2, laidAt_succ.2 hat, hr⟩
      · rintro ⟨hg, hn, i, hlaid, hr⟩
        match i with
        | 0 => exact Or.inl (Or.inl ⟨rfl, hg, (Option.some.inj hr).symm, laidAt_zero.1 hlaid, hn⟩)
        | 1 =>
            have hat := laidAt_zero.1 (laidAt_succ.1 hlaid)
            exact Or.inl (Or.inr ⟨hg, (Option.some.inj hr).symm, hat⟩)
        | i + 2 => exact Or.inr ⟨hg, i, laidAt_succ.1 (laidAt_succ.1 hlaid), hr⟩

theorem nodup_sectionCmds {prev : Option (Key α)} {k : List α} {r : ρ} {next : Option (List α)}
    (hk : k ≠ []) (hnext : ∀ x, next = some x → k < x) :
    ((sectionCmds env prev ⟨g, k⟩ r (next.map (Key.mk g))).map Cmd.name).Nodup := by
  unfold sectionCmds
  simp only [if_neg hk, hgbl, hreg, Bool.false_eq_true, if_false, List.map_append]
  refine List.nodup_append.2 ⟨?_, ?_, ?_⟩
  · split
    · exact nodup_firstCmds _ _
    · exact List.nodup_nil
  · cases next with
    | none => exact nodup_lastCmds _ _
    | some x =>
        have hx : x ≠ [] := by
          rintro rfl
          exact absurd (hnext [] rfl) (not_lt.2 (nil_le_path k))
        simpa using nodup_betweenCmds (g := g) (r := r) hk hx
  · intro n hn n' hn' heq
    subst heq
    split at hn
    · obtain ⟨c, hc, hname⟩ := List.mem_map.1 hn
      have hfirst := ((mem_firstCmds hk).1 hc).2.2.1
      rw [hname] at hfirst
      refine not_laid_of_laid_nil next hfirst ?_
      cases next with
      | none =>
          obtain ⟨c', hc', hname'⟩ := List.mem_map.1 hn'
          exact hname' ▸ ((mem_lastCmds hk).1 hc').2.2
      | some x =>
          obtain ⟨c', hc', hname'⟩ := List.mem_map.1 hn'
          have hc' : c' ∈ betweenCmds ⟨g, k⟩ ⟨g, x⟩ r := by simpa using hc'
          exact hname' ▸ ((mem_betweenCmds hk (hnext x rfl)).1 hc').2.2
    · cases hn

omit hgbl hreg in
/-- The keys of the global behind its name. -/
theorem pairwise_nil_cons {secs : List (List α × ρ)} (hne : ∀ s ∈ secs, s.1 ≠ [])
    (hinc : (secs.map Prod.fst).Pairwise (· < ·)) :
    ([] :: secs.map Prod.fst).Pairwise (· < ·) := by
  refine List.pairwise_cons.2 ⟨fun x hx => ?_, hinc⟩
  obtain ⟨s, hs, rfl⟩ := List.mem_map.1 hx
  exact lt_of_le_of_ne (nil_le_path s.1) (hne s hs).symm

/-- **No name is added twice.** -/
theorem nodup_mapCmds : ∀ {secs : List (List α × ρ)} (prev : Option (Key α)),
    (∀ s ∈ secs, s.1 ≠ []) → (secs.map Prod.fst).Pairwise (· < ·) →
      ((mapCmds env prev (keysOf g secs)).map Cmd.name).Nodup
  | [], _, _, _ => List.nodup_nil
  | (k, r) :: secs, prev, hne, hinc => by
      obtain ⟨hk, hne'⟩ := List.forall_mem_cons.1 hne
      obtain ⟨hlt, hinc'⟩ := List.pairwise_cons.1 hinc
      have hnext : ∀ x, (secs.map Prod.fst)[0]? = some x → k < x := fun x hx =>
        hlt x (List.mem_of_getElem? hx)
      show ((sectionCmds env prev ⟨g, k⟩ r ((keysOf g secs).head?.map Prod.fst) ++
        mapCmds env (some ⟨g, k⟩) (keysOf g secs)).map Cmd.name).Nodup
      rw [head_keysOf, List.map_append]
      refine List.nodup_append.2 ⟨nodup_sectionCmds hgbl hreg hk hnext, nodup_mapCmds _ hne' hinc', ?_⟩
      intro n hn n' hn' heq
      subst heq
      obtain ⟨c', hc', hname'⟩ := List.mem_map.1 hn'
      obtain ⟨c, hc, rfl⟩ := List.mem_map.1 hn
      obtain ⟨-, i, hat', -⟩ := (mem_mapCmds_some hgbl hreg k hne' hinc').1 hc'
      rw [hname'] at hat'
      have hat' : LaidAt ([] :: k :: secs.map Prod.fst) (i + 2) c.name :=
        laidAt_succ.2 (laidAt_succ.2 hat')
      have hkeys : ([] :: k :: secs.map Prod.fst).Pairwise (· < ·) := pairwise_nil_cons hne hinc
      rcases (mem_sectionCmds hgbl hreg prev hk hnext).1 hc with ⟨-, hc⟩ | ⟨-, -, hlaid⟩
      · have hat : LaidAt ([] :: k :: secs.map Prod.fst) 0 c.name :=
          laidAt_zero.2 ((mem_firstCmds hk).1 hc).2.2.1
        exact absurd (laidAt_unique hkeys hat hat') (by omega)
      · have hat : LaidAt ([] :: k :: secs.map Prod.fst) 1 c.name :=
          laidAt_succ.2 (laidAt_zero.2 hlaid)
        exact absurd (laidAt_unique hkeys hat hat') (by omega)

end Global

/-! ## 5. The lines of a global -/

/-- The subscripts with the text they have in ZWR format: distinct subscripts have distinct texts. -/
structure Zwr (α : Type) where
  text : α → Text
  inj : Function.Injective text
  subscript : ∀ a, Subscript (text a)

/-- The name of a global. -/
def GblName : Type := { g : Text // ∀ c ∈ g, c ∉ special }

/-- A chosen line: the key, the value in an extract, and the region chosen for it. -/
structure Chosen (α ρ : Type) where
  subs : List α
  value : Option Text
  region : ρ

def lineOf {α ρ : Type} (zwr : Zwr α) (g : GblName) (s : Chosen α ρ) : Text × ρ :=
  (lineText g.1 (s.subs.map zwr.text) s.value, s.region)

/-- From the chosen lines to the commands. -/
def gensprgde {ρ : Type} (env : Env ρ) (lines : List (Text × ρ)) : List (Cmd Text ρ) :=
  mapCmds env none (lines.map fun l => (extractkey l.1, l.2))

/-- The name of the command stands for spans of subscripts, and the node of the global lies in it. -/
def Cmd.Matches {α ρ : Type} [LinearOrder α] (zwr : Zwr α) (g : GblName) (c : Cmd Text ρ)
    (node : List α) : Prop :=
  c.gblname = g.1 ∧ ∃ n : Span α, n.map zwr.text = c.name ∧ n.covers node

/-- The node of the global is mapped to the region: every matching name that no other one beats is
    mapped to it; without a matching name, the global itself is. -/
structure MapsTo {α ρ : Type} [LinearOrder α] (zwr : Zwr α) (g : GblName) (cmds : List (Cmd Text ρ))
    (dflt : ρ) (node : List α) (region : ρ) : Prop where
  best : ∀ c ∈ cmds, c.Matches zwr g node →
    (∀ c' ∈ cmds, c'.Matches zwr g node → ¬ c'.name.Beats c.name) → c.region = region
  rest : (∀ c ∈ cmds, ¬ c.Matches zwr g node) → dflt = region

section Texts

variable {α β ρ : Type} [DecidableEq α] [DecidableEq β] {f : α → β}

def Cmd.map (f : α → β) (c : Cmd α ρ) : Cmd β ρ := ⟨c.gblname, c.name.map f, c.region⟩

def Key.map (f : α → β) (key : Key α) : Key β := ⟨key.gblname, key.subs.map f⟩

theorem quitAt_map (hf : Function.Injective f) (k x : List α) : ∀ left j : Nat,
    quitAt (k.map f) (x.map f) left j = quitAt k x left j
  | 0, _ => rfl
  | left + 1, j => by
      have hget : (k.map f)[j - 1]? ≠ (x.map f)[j - 1]? ↔ k[j - 1]? ≠ x[j - 1]? := by
        rw [List.getElem?_map, List.getElem?_map]
        exact (Option.map_injective hf).ne_iff
      rw [quitAt, quitAt, quitAt_map hf k x left (j + 1)]
      simp only [hget]

theorem matchsubs_map (hf : Function.Injective f) (k x : List α) :
    matchsubs (k.map f) (x.map f) = matchsubs k x := by
  have hget : ∀ t : Nat, (k.map f)[t]? ≠ (x.map f)[t]? ↔ k[t]? ≠ x[t]? := by
    intro t
    rw [List.getElem?_map, List.getElem?_map]
    exact (Option.map_injective hf).ne_iff
  simp only [matchsubs, List.length_map, quitAt_map hf, hget]

omit [DecidableEq α] [DecidableEq β] in
theorem firstCmds_map (key : Key α) (r : ρ) :
    firstCmds (key.map f) r = (firstCmds key r).map (Cmd.map f) := by
  simp [firstCmds, Key.map, Cmd.map, Span.map, List.map_take, Function.comp_def]

omit [DecidableEq α] [DecidableEq β] in
theorem lastCmds_map (key : Key α) (r : ρ) :
    lastCmds (key.map f) r = (lastCmds key r).map (Cmd.map f) := by
  simp [lastCmds, Key.map, Cmd.map, Span.map, List.map_take, Function.comp_def]

theorem betweenCmds_map (hf : Function.Injective f) (key next : Key α) (r : ρ) :
    betweenCmds (key.map f) (next.map f) r = (betweenCmds key next r).map (Cmd.map f) := by
  have hbound : ∀ j m : Nat, (if j = m then (next.subs.map f)[j - 1]? else none) =
      (if j = m then next.subs[j - 1]? else none).map f := by
    intro j m
    split
    · exact List.getElem?_map
    · rfl
  simp only [betweenCmds, Key.map, matchsubs_map hf, List.length_map, hbound, List.map_append,
    List.map_map, Function.comp_def, Cmd.map, Span.map, List.map_take, List.map_drop]
  congr 2
  split <;> simp [Cmd.map, Span.map, List.map_take]

theorem sectionCmds_map (hf : Function.Injective f) (env : Env ρ) (prev : Option (Key α))
    (key : Key α) (r : ρ) (next : Option (Key α)) :
    sectionCmds env (prev.map (Key.map f)) (key.map f) r (next.map (Key.map f)) =
      (sectionCmds env prev key r next).map (Cmd.map f) := by
  have hprev : ((prev.map (Key.map f)).all fun prev => prev.gblname ≠ key.gblname) =
      prev.all fun prev => prev.gblname ≠ key.gblname := by
    cases prev <;> rfl
  have hsubs : (key.map f).subs = [] ↔ key.subs = [] := List.map_eq_nil_iff
  have hrest : (match next.map (Key.map f) with
      | none => lastCmds (key.map f) r
      | some next =>
          if (key.map f).gblname ≠ next.gblname then lastCmds (key.map f) r
          else betweenCmds (key.map f) next r) =
      (match next with
        | none => lastCmds key r
        | some next =>
            if key.gblname ≠ next.gblname then lastCmds key r else betweenCmds key next r).map
          (Cmd.map f) := by
    cases next with
    | none => exact lastCmds_map key r
    | some next =>
        show (if key.gblname ≠ next.gblname then lastCmds (key.map f) r
          else betweenCmds (key.map f) (next.map f) r) = _
        rw [lastCmds_map, betweenCmds_map hf]
        exact (apply_ite (List.map (Cmd.map f)) _ _ _).symm
  show (if (key.map f).subs = [] then [] else if env.excludegbl key.gblname then [] else
    if env.excludereg (env.view key.gblname) then [] else
      (if (prev.map (Key.map f)).all fun prev => prev.gblname ≠ key.gblname then
        firstCmds (key.map f) (env.view key.gblname) else []) ++ _) = _
  rw [hprev, hrest, firstCmds_map]
  unfold sectionCmds
  simp only [hsubs]
  split
  · rfl
  · split
    · rfl
    · split
      · rfl
      · rw [List.map_append]
        congr 1
        split <;> rfl

/-- The commands only depend on which subscripts are the same. -/
theorem mapCmds_map (hf : Function.Injective f) (env : Env ρ) : ∀ (prev : Option (Key α))
    (secs : List (Key α × ρ)),
    mapCmds env (prev.map (Key.map f)) (secs.map fun s => (s.1.map f, s.2)) =
      (mapCmds env prev secs).map (Cmd.map f)
  | _, [] => rfl
  | prev, (key, r) :: rest => by
      have htail := mapCmds_map hf env (some key) rest
      have hhead : sectionCmds env (prev.map (Key.map f)) (key.map f) r
          ((rest.map fun s => (s.1.map f, s.2)).head?.map Prod.fst) =
            (sectionCmds env prev key r (rest.head?.map Prod.fst)).map (Cmd.map f) := by
        rw [← sectionCmds_map hf]
        cases rest <;> rfl
      show sectionCmds env (prev.map (Key.map f)) (key.map f) r
          ((rest.map fun s => (s.1.map f, s.2)).head?.map Prod.fst) ++
        mapCmds env (some (key.map f)) (rest.map fun s => (s.1.map f, s.2)) =
          (sectionCmds env prev key r (rest.head?.map Prod.fst) ++ mapCmds env (some key) rest).map _
      rw [hhead, List.map_append, ← htail]
      rfl

end Texts

section Maps

variable {α ρ : Type} [LinearOrder α] {zwr : Zwr α} {env : Env ρ} {g : GblName}

/-- The chosen keys with their regions. -/
def chosenKeys (sections : List (Chosen α ρ)) : List (List α × ρ) :=
  sections.map fun s => (s.subs, s.region)

theorem gensprgde_lines (sections : List (Chosen α ρ)) (hne : ∀ s ∈ sections, s.subs ≠ []) :
    gensprgde env (sections.map (lineOf zwr g)) =
      (mapCmds env none (keysOf g.1 (chosenKeys sections))).map (Cmd.map zwr.text) := by
  have hread : (sections.map (lineOf zwr g)).map (fun l => (extractkey l.1, l.2)) =
      (keysOf g.1 (chosenKeys sections)).map fun s => (s.1.map zwr.text, s.2) := by
    rw [keysOf, chosenKeys, List.map_map, List.map_map, List.map_map]
    refine List.map_congr_left fun s hs => ?_
    have hkey : extractkey (lineText g.1 (s.subs.map zwr.text) s.value) =
        ⟨g.1, s.subs.map zwr.text⟩ := extractkey_line s.value g.2
      (List.forall_mem_map.2 fun a _ => zwr.subscript a)
      (fun h => hne s hs (List.map_eq_nil_iff.1 h))
    exact Prod.ext hkey rfl
  rw [gensprgde, hread]
  exact mapCmds_map zwr.inj env none _

theorem matches_map {c : Cmd α ρ} {node : List α} :
    (c.map zwr.text).Matches zwr g node ↔ c.gblname = g.1 ∧ c.name.covers node := by
  refine and_congr_right fun _ => ⟨?_, fun h => ⟨c.name, rfl, h⟩⟩
  rintro ⟨n, hn, hcov⟩
  exact Span.map_injective zwr.inj hn ▸ hcov

variable {secs : List (List α × ρ)} (hgbl : env.excludegbl g.1 = false)
  (hreg : env.excludereg (env.view g.1) = false) (hne : ∀ s ∈ secs, s.1 ≠ [])
  (hinc : (secs.map Prod.fst).Pairwise (· < ·))
include hgbl hreg hne hinc

/-- The node is mapped to the region of the last key that is not after it, the global's name taken as
    a key without subscripts. -/
theorem mapsTo_of_last {i : Nat} {k node : List α} {r : ρ}
    (hi : ([] :: secs.map Prod.fst)[i]? = some k)
    (hr : (env.view g.1 :: secs.map Prod.snd)[i]? = some r) (hle : k ≤ node)
    (hnext : ∀ x, ([] :: secs.map Prod.fst)[i + 1]? = some x → node < x) :
    MapsTo zwr g ((mapCmds env none (keysOf g.1 secs)).map (Cmd.map zwr.text)) (env.view g.1) node r := by
  have hkeys := pairwise_nil_cons hne hinc
  -- a span that is laid out is the name of a command, unless it is the global's name
  have hcmd : ∀ l n, LaidAt ([] :: secs.map Prod.fst) l n → n ≠ .point [] → n.covers node →
      ∃ c ∈ (mapCmds env none (keysOf g.1 secs)).map (Cmd.map zwr.text),
        c.Matches zwr g node ∧ c.name = n.map zwr.text := by
    intro l n hlaid hn hcov
    obtain ⟨x, hx, -⟩ := id hlaid
    have hlen : l < (env.view g.1 :: secs.map Prod.snd).length := by
      obtain ⟨hl, -⟩ := List.getElem?_eq_some_iff.1 hx
      simpa using hl
    have hmem := (mem_mapCmds (c := ⟨g.1, n, (env.view g.1 :: secs.map Prod.snd)[l]⟩) hgbl hreg hne
      hinc).2 ⟨rfl, hn, l, hlaid, List.getElem?_eq_getElem hlen⟩
    exact ⟨_, List.mem_map_of_mem hmem, matches_map.2 ⟨rfl, hcov⟩, rfl⟩
  constructor
  · intro c' hc' hmatch hbest
    obtain ⟨c, hc, rfl⟩ := List.mem_map.1 hc'
    have hcov := (matches_map.1 hmatch).2
    obtain ⟨-, -, l, hlaid, hregion⟩ := (mem_mapCmds hgbl hreg hne hinc).1 hc
    have hl : l = i := by
      refine best_of_last hkeys hi hle hnext hlaid hcov fun l' n' hlaid' hcov' hbeats => ?_
      by_cases hn' : n' = .point []
      · subst hn'
        rcases hbeats with hlt | ⟨hlevel, -, hrange⟩
        · exact Nat.not_lt_zero _ hlt
        · cases hname : c.name with
          | point path =>
              rw [hname] at hrange
              cases hrange
          | range path bound =>
              rw [hname] at hlevel hlaid
              obtain ⟨x, hx, hlaid⟩ := hlaid
              exact hlaid.2.1 (List.length_eq_zero_iff.1 hlevel)
      · obtain ⟨c', hc', hmatch', hname⟩ := hcmd l' n' hlaid' hn' hcov'
        refine hbest c' hc' hmatch' ?_
        rw [hname]
        exact Span.beats_map.2 hbeats
    subst hl
    exact Option.some.inj (hregion.symm.trans hr)
  · intro hnone
    cases i with
    | zero => exact Option.some.inj hr
    | succ i =>
        exfalso
        have hk : k ≠ [] := by
          have hmem : k ∈ secs.map Prod.fst := List.mem_of_getElem? hi
          obtain ⟨s, hs, rfl⟩ := List.mem_map.1 hmem
          exact hne s hs
        obtain ⟨n, hlaid, hcov, hlevel⟩ := exists_laid hle hnext (Or.inl hk)
        have hn : n ≠ .point [] := by
          rintro rfl
          exact hk (le_antisymm hlevel (nil_le_path k))
        obtain ⟨c, hc, hmatch, -⟩ := hcmd _ n ⟨k, hi, hlaid⟩ hn hcov
        exact hnone c hc hmatch

end Maps

/-- **The ranges tile the nodes of the global.** A node before the first key is mapped to the region
    of the global, any other to the region chosen for the last key that is not after it; and no name
    is added twice. -/
theorem maps_regions {α ρ : Type} [LinearOrder α] (zwr : Zwr α) (env : Env ρ) (g : GblName)
    (hgbl : env.excludegbl g.1 = false) (hreg : env.excludereg (env.view g.1) = false)
    (sections : List (Chosen α ρ)) (hne : ∀ s ∈ sections, s.subs ≠ [])
    (hinc : (sections.map Chosen.subs).Pairwise (· < ·)) :
    (∀ node, (∀ s, sections[0]? = some s → node < s.subs) →
      MapsTo zwr g (gensprgde env (sections.map (lineOf zwr g))) (env.view g.1) node
        (env.view g.1)) ∧
      (∀ i s node, sections[i]? = some s → s.subs ≤ node →
        (∀ t, sections[i + 1]? = some t → node < t.subs) →
          MapsTo zwr g (gensprgde env (sections.map (lineOf zwr g))) (env.view g.1) node s.region) ∧
      ((gensprgde env (sections.map (lineOf zwr g))).map Cmd.name).Nodup := by
  have hfst : (chosenKeys sections).map Prod.fst = sections.map Chosen.subs := by
    rw [chosenKeys, List.map_map]
    rfl
  have hsnd : (chosenKeys sections).map Prod.snd = sections.map Chosen.region := by
    rw [chosenKeys, List.map_map]
    rfl
  have hne' : ∀ s ∈ chosenKeys sections, s.1 ≠ [] := List.forall_mem_map.2 hne
  have hinc' : ((chosenKeys sections).map Prod.fst).Pairwise (· < ·) := hfst ▸ hinc
  have hnext : ∀ (i : Nat) (node : List α), (∀ t, sections[i]? = some t → node < t.subs) →
      ∀ x, ([] :: (chosenKeys sections).map Prod.fst)[i + 1]? = some x → node < x := by
    intro i node hnext x hx
    rw [List.getElem?_cons_succ, hfst, List.getElem?_map, Option.map_eq_some_iff] at hx
    obtain ⟨t, ht, rfl⟩ := hx
    exact hnext t ht
  rw [gensprgde_lines sections hne]
  refine ⟨fun node hbefore => ?_, fun i s node hi hle hafter => ?_, ?_⟩
  · exact mapsTo_of_last hgbl hreg hne' hinc' (i := 0) rfl rfl (nil_le_path node) (hnext 0 node hbefore)
  · refine mapsTo_of_last hgbl hreg hne' hinc' (i := i + 1) ?_ ?_ hle (hnext (i + 1) node hafter)
    · rw [List.getElem?_cons_succ, hfst, List.getElem?_map, hi]
      rfl
    · rw [List.getElem?_cons_succ, hsnd, List.getElem?_map, hi]
      rfl
  · have hnodup := nodup_mapCmds hgbl hreg none hne' hinc'
    have hnames : ((mapCmds env none (keysOf g.1 (chosenKeys sections))).map
        (Cmd.map zwr.text)).map Cmd.name =
          ((mapCmds env none (keysOf g.1 (chosenKeys sections))).map Cmd.name).map
            (Span.map zwr.text) := by
      rw [List.map_map, List.map_map]
      rfl
    rw [hnames]
    exact hnodup.map (Span.map_injective zwr.inj)

/-- Subscripts that are numbers without sign and fraction. -/
def zwrNat : Zwr Nat where
  text := Nat.toDigits 10
  inj _ _ := toDigits_inj
  subscript n := by
    refine subscript_of_plain fun c hc hspecial => ?_
    have hdigit : c.isDigit = false := by
      simp only [special, List.mem_cons, List.not_mem_nil, or_false] at hspecial
      rcases hspecial with rfl | rfl | rfl | rfl | rfl <;> rfl
    exact notMem_toDigits hdigit n hc

def gblX : GblName := ⟨['x'], by simp [special]⟩

/-- The keys `^x(1)` and `^x(1,2)`, mapped to regions 1 and 2: the node `^x(1,1)` goes to region 1. -/
theorem maps_regions_below : MapsTo zwrNat gblX
    (gensprgde ⟨fun _ => 0, fun _ => false, fun _ => false⟩
      ([⟨[1], none, 1⟩, ⟨[1, 2], some ['7'], 2⟩].map (lineOf zwrNat gblX)))
    0 [1, 1] 1 := by
  have hmaps := (maps_regions zwrNat ⟨fun _ => 0, fun _ => false, fun _ => false⟩ gblX
    rfl rfl [⟨[1], none, 1⟩, ⟨[1, 2], some ['7'], 2⟩] (by simp) (by simp)).2.1
  refine hmaps 0 _ [1, 1] rfl (prefix_le ⟨[1], rfl⟩) fun t ht => ?_
  obtain rfl := Option.some.inj ht
  exact cons_lt_path.2 (Or.inr ⟨rfl, cons_lt_path.2 (Or.inl (by decide))⟩)

end YottaTest.Sprgde
