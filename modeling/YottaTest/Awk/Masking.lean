/-
  File:      YottaTest/Awk/Masking.lean
  Subject:   Texts in which flags stand for values: masking a value, and putting it back.

  * `Item`, `spell`, `value` -- a text with flags, as it is written and as what it stands for;
  * `Clean`, `cover`, `gsub_cover` -- a gsub that puts a flag for a value and nothing else keeps what the
    text stands for;
  * `Alone`, `uncover`, `gsub_uncover` -- a gsub that finds a flag only where one was put takes it back.
-/
import YottaTest.Awk.Marked

namespace YottaTest.Awk

/-! ## 1. Texts with flags -/

inductive Item where
  | chr (c : Char)
  | flag (text : List Char) (h : text ≠ [])
  deriving DecidableEq

def Item.spell : Item → List Char
  | .chr c => [c]
  | .flag text _ => text

/-- What an item stands for, if `v` says what flags do. -/
def Item.value (v : List Char → List Char) : Item → List Char
  | .chr c => [c]
  | .flag text _ => v text

def spell (items : List Item) : List Char := items.flatMap Item.spell

def value (v : List Char → List Char) (items : List Item) : List Char := items.flatMap (Item.value v)

theorem Item.spell_ne_nil (item : Item) : item.spell ≠ [] := by
  cases item with
  | chr c => exact List.cons_ne_nil _ _
  | flag text h => exact h

@[simp] theorem spell_nil : spell [] = [] := rfl

@[simp] theorem spell_cons (item : Item) (items : List Item) :
    spell (item :: items) = item.spell ++ spell items := rfl

@[simp] theorem spell_append (pre post : List Item) : spell (pre ++ post) = spell pre ++ spell post :=
  List.flatMap_append

@[simp] theorem value_cons (v : List Char → List Char) (item : Item) (items : List Item) :
    value v (item :: items) = item.value v ++ value v items := rfl

@[simp] theorem value_append (v : List Char → List Char) (pre post : List Item) :
    value v (pre ++ post) = value v pre ++ value v post := List.flatMap_append

@[simp] theorem spell_chars (w : List Char) : spell (w.map .chr) = w := by
  induction w with
  | nil => rfl
  | cons c w ih => exact congrArg (c :: ·) ih

@[simp] theorem value_chars (v : List Char → List Char) (w : List Char) : value v (w.map .chr) = w := by
  induction w with
  | nil => rfl
  | cons c w ih => exact congrArg (c :: ·) ih

theorem spell_eq_nil {items : List Item} (h : spell items = []) : items = [] := by
  cases items with
  | nil => rfl
  | cons item items => exact absurd (List.append_eq_nil_iff.1 h).1 item.spell_ne_nil

theorem getLast_spell_chr (pre : List Item) (c : Char) : (spell (pre ++ [Item.chr c])).getLast? = some c := by
  simp [Item.spell]

theorem getLast_spell_flag (pre : List Item) {t : List Char} (ht : t ≠ []) :
    (spell (pre ++ [Item.flag t ht])).getLast? = t.getLast? := by
  cases hend : t.getLast? with
  | none => exact absurd (List.getLast?_eq_none_iff.1 hend) ht
  | some e => simp [Item.spell, List.getLast?_append, hend]

/-- **A place that is not past an item is before it**: items are not divided. -/
theorem align {pre rest pre' rest' : List Item} {item : Item} {u : List Char}
    (h : pre ++ item :: rest = pre' ++ rest') (hspell : spell pre' = spell pre ++ u)
    (hu : u.length < item.spell.length) : pre' = pre := by
  rcases List.append_eq_append_iff.1 h with ⟨a, rfl, ha⟩ | ⟨a, rfl, -⟩
  · cases a with
    | nil => exact List.append_nil pre
    | cons first a =>
        obtain ⟨rfl, -⟩ := List.cons.inj ha
        rw [spell_append, List.append_cancel_left_eq, spell_cons] at hspell
        rw [← hspell, List.length_append] at hu
        exact absurd hu (Nat.not_lt.2 (Nat.le_add_right _ _))
  · rw [spell_append, List.append_assoc] at hspell
    have hnil : spell a ++ u = [] := by
      have hlen := congrArg List.length hspell
      rw [List.length_append] at hlen
      exact List.length_eq_zero_iff.1 (by omega)
    rw [spell_eq_nil (List.append_eq_nil_iff.1 hnil).1, List.append_nil]

/-! ## 2. Masking a value -/

/-- Whatever the expression matches is the value, outside the flags. -/
def Clean (r : Regex) (w : List Char) (items : List Item) : Prop :=
  ∀ before s p, spell items = before ++ s → longest r ⟨before.getLast?, s⟩ = some p →
    w ≠ [] ∧ ∃ pre post, items = pre ++ (w.map .chr ++ post) ∧ before = spell pre ∧ p.rest = spell post

/-- The items with a flag for each match; `skip` characters belong to a match already replaced. -/
def cover (r : Regex) (text : List Char) (h : text ≠ []) : Nat → Option Char → List Item → List Item
  | _, _, [] => []
  | skip + 1, _, .chr c :: items => cover r text h skip (some c) items
  | 0, before, .chr c :: items =>
      match longest r ⟨before, c :: spell items⟩ with
      | none => .chr c :: cover r text h 0 (some c) items
      | some p => .flag text h :: cover r text h ((spell items).length - p.rest.length) (some c) items
  | _, _, .flag t ht :: items => .flag t ht :: cover r text h 0 t.getLast? items

/-- Where nothing is matched, nothing is replaced. -/
theorem gsubFrom_pass (r : Regex) (new : List Char) : ∀ (t : List Char) (touched : Bool)
    (before : Option Char) (s : List Char), t ≠ [] →
    (∀ u v, t = u ++ v → v ≠ [] → longest r ⟨u.getLast?.or before, v ++ s⟩ = none) →
    gsubFrom r new 0 touched before (t ++ s) = t ++ gsubFrom r new 0 false t.getLast? s
  | [c], touched, before, s, _, h => by
      have hnone : longest r ⟨before, c :: s⟩ = none := h [] [c] rfl (List.cons_ne_nil _ _)
      rw [List.singleton_append, gsubFrom, hnone]
      rfl
  | c :: d :: t, touched, before, s, _, h => by
      have hnone : longest r ⟨before, c :: (d :: t ++ s)⟩ = none :=
        h [] (c :: d :: t) rfl (List.cons_ne_nil _ _)
      have ih := gsubFrom_pass r new (d :: t) false (some c) s (List.cons_ne_nil _ _) fun u v huv hv => by
        have hat := h (c :: u) v (by rw [huv]; rfl) hv
        have hlast : ((c :: u).getLast?).or before = (u.getLast?).or (some c) := by
          cases hu : u.getLast? with
          | none => simp [List.getLast?_eq_none_iff.1 hu]
          | some e => simp [List.getLast?_cons, hu]
        rw [hlast] at hat
        exact hat
      rw [List.cons_append, gsubFrom, hnone]
      dsimp only
      rw [ih]
      rfl

section Cover

variable {r : Regex} {w text : List Char} {h : text ≠ []} {all : List Item}

/-- No match ends the text, and none begins in a flag. -/
theorem Clean.nil (hclean : Clean r w all) : longest r ⟨(spell all).getLast?, []⟩ = none := by
  cases hp : longest r ⟨(spell all).getLast?, []⟩ with
  | none => rfl
  | some p =>
      obtain ⟨hw, pre, post, hall, hpre, -⟩ := hclean (spell all) [] p (List.append_nil _).symm hp
      have hlen := congrArg List.length hpre
      rw [hall] at hlen
      simp at hlen
      exact absurd hlen.1 hw

theorem Clean.flag {t : List Char} {ht : t ≠ []} {pre items : List Item} (hclean : Clean r w all)
    (hall : all = pre ++ Item.flag t ht :: items) {u v : List Char} (htext : t = u ++ v) (hv : v ≠ []) :
    longest r ⟨u.getLast?.or (spell pre).getLast?, v ++ spell items⟩ = none := by
  cases hp : longest r ⟨u.getLast?.or (spell pre).getLast?, v ++ spell items⟩ with
  | none => rfl
  | some p =>
      rw [← List.getLast?_append] at hp
      have hspell : spell all = (spell pre ++ u) ++ (v ++ spell items) := by
        rw [hall, spell_append, spell_cons, Item.spell, htext]
        simp
      obtain ⟨hw, pre', post, hall', hpre', -⟩ := hclean _ _ p hspell hp
      have hshort : u.length < (Item.flag t ht).spell.length := by
        rw [Item.spell, htext, List.length_append]
        exact Nat.lt_add_of_pos_right (List.length_pos_iff.2 hv)
      have heq := align (hall ▸ hall') hpre'.symm hshort
      rw [hall, heq] at hall'
      obtain ⟨c, w', rfl⟩ := List.exists_cons_of_ne_nil hw
      cases (List.cons.inj (List.append_cancel_left hall')).1

/-- A match that begins at a character is the value. -/
theorem Clean.chr {c : Char} {pre items : List Item} (hclean : Clean r w all)
    (hall : all = pre ++ .chr c :: items) {p : Place}
    (hp : longest r ⟨(spell pre).getLast?, c :: spell items⟩ = some p) :
    ∃ w' post, w = c :: w' ∧ items = w'.map .chr ++ post ∧ p.rest = spell post := by
  have hspell : spell all = spell pre ++ (c :: spell items) := by
    rw [hall, spell_append, spell_cons]
    rfl
  obtain ⟨hw, pre', post, hall', hpre', hrest⟩ := hclean _ _ p hspell hp
  have heq := align (u := []) (hall ▸ hall') (by rw [List.append_nil]; exact hpre'.symm) (by simp [Item.spell])
  rw [hall, heq] at hall'
  obtain ⟨d, w', rfl⟩ := List.exists_cons_of_ne_nil hw
  obtain ⟨hd, hitems⟩ := List.cons.inj (List.append_cancel_left hall')
  obtain rfl := Item.chr.inj hd
  exact ⟨w', post, rfl, hitems, hrest⟩

theorem gsubFrom_cover (hclean : Clean r w all) (hnew : ∀ matched, expand text matched = text) :
    ∀ (items : List Item) (u : List Char) (pre : List Item) (touched : Bool),
    all = pre ++ (u.map .chr ++ items) →
    gsubFrom r text u.length touched (spell pre).getLast? (u ++ spell items) =
      spell (cover r text h u.length (spell pre).getLast? (u.map .chr ++ items))
  | items, c :: u, pre, touched, hall => by
      have hnext : all = (pre ++ [Item.chr c]) ++ (u.map .chr ++ items) := by
        rw [hall]
        simp
      have hlast := getLast_spell_chr pre c
      have ih := gsubFrom_cover hclean hnew items u (pre ++ [Item.chr c]) (u.length = 0) hnext
      rw [hlast] at ih
      rw [List.length_cons, List.cons_append, gsubFrom, ih]
      rfl
  | [], [], pre, touched, hall => by
      have hnil := hclean.nil
      rw [hall] at hnil
      simp only [List.map_nil, List.append_nil] at hnil
      simp [gsubFrom, cover, hnil]
  | .flag t ht :: items, [], pre, touched, hall => by
      have hnext : all = (pre ++ [Item.flag t ht]) ++ (([] : List Char).map .chr ++ items) := by
        rw [hall]
        simp
      have hlast := getLast_spell_flag pre ht
      have ih := gsubFrom_cover hclean hnew items [] (pre ++ [Item.flag t ht]) false hnext
      rw [hlast] at ih
      have hpass := gsubFrom_pass r text t touched (spell pre).getLast? (spell items) ht
        fun u v htext hv => hclean.flag hall htext hv
      rw [List.length_nil, List.nil_append] at ih ⊢
      rw [spell_cons, Item.spell, hpass, ih]
      simp [cover, Item.spell]
  | .chr c :: items, [], pre, touched, hall => by
      have hstep : all = (pre ++ [Item.chr c]) ++ items := by
        rw [hall]
        simp
      have hlast := getLast_spell_chr pre c
      rw [List.length_nil, List.nil_append, List.map_nil, List.nil_append, spell_cons, Item.spell,
        List.singleton_append, gsubFrom, cover]
      cases hp : longest r ⟨(spell pre).getLast?, c :: spell items⟩ with
      | none =>
          have ih := gsubFrom_cover hclean hnew items [] (pre ++ [Item.chr c]) false hstep
          rw [hlast] at ih
          exact congrArg (c :: ·) ih
      | some p =>
          obtain ⟨w', post, -, hitems, hrest⟩ := hclean.chr hall hp
          have hcount : (c :: spell items).length - p.rest.length = w'.length + 1 := by
            rw [hitems, hrest, List.length_cons, spell_append, spell_chars, List.length_append]
            omega
          have hskip : (spell items).length - p.rest.length = w'.length := by
            rw [List.length_cons] at hcount
            omega
          have hlen : post.length + w'.length < items.length + 1 := by
            rw [hitems, List.length_append, List.length_map]
            omega
          have ih := gsubFrom_cover hclean hnew post w' (pre ++ [Item.chr c]) (w'.length + 1 = 1)
            (by rw [hstep, hitems])
          rw [hlast, ← spell_chars w', ← spell_append, ← hitems, spell_chars] at ih
          dsimp only
          rw [hcount, hskip, if_neg (Nat.succ_ne_zero _), hnew, Nat.add_sub_cancel, ih, ← hitems]
          rfl
termination_by items u => items.length + u.length
decreasing_by all_goals (simp only [List.length_cons, List.length_nil]; omega)

/-- What the covered items stand for. -/
theorem value_cover (hclean : Clean r w all) (v : List Char → List Char) (hv : v text = w) :
    ∀ (items : List Item) (u : List Char) (pre : List Item), all = pre ++ (u.map .chr ++ items) →
    value v (cover r text h u.length (spell pre).getLast? (u.map .chr ++ items)) = value v items
  | items, c :: u, pre, hall => by
      have hnext : all = (pre ++ [Item.chr c]) ++ (u.map .chr ++ items) := by
        rw [hall]
        simp
      have hlast := getLast_spell_chr pre c
      have ih := value_cover hclean v hv items u (pre ++ [Item.chr c]) hnext
      rw [hlast] at ih
      exact ih
  | [], [], pre, _ => rfl
  | .flag t ht :: items, [], pre, hall => by
      have hnext : all = (pre ++ [Item.flag t ht]) ++ (([] : List Char).map .chr ++ items) := by
        rw [hall]
        simp
      have ih := value_cover hclean v hv items [] (pre ++ [Item.flag t ht]) hnext
      have hlast := getLast_spell_flag pre ht
      rw [hlast] at ih
      exact congrArg (v t ++ ·) ih
  | .chr c :: items, [], pre, hall => by
      have hstep : all = (pre ++ [Item.chr c]) ++ items := by
        rw [hall]
        simp
      have hlast := getLast_spell_chr pre c
      rw [List.length_nil, List.map_nil, List.nil_append, cover]
      cases hp : longest r ⟨(spell pre).getLast?, c :: spell items⟩ with
      | none =>
          have ih := value_cover hclean v hv items [] (pre ++ [Item.chr c]) hstep
          rw [hlast] at ih
          exact congrArg (c :: ·) ih
      | some p =>
          obtain ⟨w', post, hw, hitems, hrest⟩ := hclean.chr hall hp
          have hskip : (spell items).length - p.rest.length = w'.length := by
            rw [hitems, hrest, spell_append, spell_chars, List.length_append]
            omega
          have hlen : post.length + w'.length < items.length + 1 := by
            rw [hitems, List.length_append, List.length_map]
            omega
          have ih := value_cover hclean v hv post w' (pre ++ [Item.chr c]) (by rw [hstep, hitems])
          rw [hlast, ← hitems] at ih
          dsimp only
          rw [hskip, value_cons, ih, Item.value, hv, hw, value_cons, hitems, value_append, value_chars]
          rfl
termination_by items u => items.length + u.length
decreasing_by all_goals (simp only [List.length_cons, List.length_nil]; omega)

theorem mem_cover {t : List Char} {ht : t ≠ []} : ∀ {items : List Item} {skip : Nat} {before : Option Char},
    .flag t ht ∈ cover r text h skip before items → t = text ∨ .flag t ht ∈ items
  | [], skip, before, hmem => by
      rw [cover] at hmem
      exact Or.inr hmem
  | .flag t' ht' :: items, skip, before, hmem => by
      have hcover : cover r text h skip before (.flag t' ht' :: items) =
          .flag t' ht' :: cover r text h 0 t'.getLast? items := by
        cases skip with
        | zero => rfl
        | succ skip => rfl
      rw [hcover] at hmem
      rcases List.mem_cons.1 hmem with heq | hmem
      · rw [heq]
        exact Or.inr List.mem_cons_self
      · exact (mem_cover hmem).imp_right (List.mem_cons_of_mem _)
  | .chr c :: items, skip + 1, before, hmem =>
      (mem_cover (show .flag t ht ∈ cover r text h skip (some c) items from hmem)).imp_right
        (List.mem_cons_of_mem _)
  | .chr c :: items, 0, before, hmem => by
      rw [cover] at hmem
      split at hmem
      · rcases List.mem_cons.1 hmem with heq | hmem
        · cases heq
        · exact (mem_cover hmem).imp_right (List.mem_cons_of_mem _)
      · rcases List.mem_cons.1 hmem with heq | hmem
        · exact Or.inl (Item.flag.inj heq)
        · exact (mem_cover hmem).imp_right (List.mem_cons_of_mem _)

end Cover

/-- The items after a gsub that puts in a flag. -/
def mask (r : Regex) (text : List Char) (items : List Item) : List Item :=
  if h : text ≠ [] then cover r text h 0 none items else items

section Mask

variable {r : Regex} {w text : List Char} {items : List Item}

/-- **A clean gsub puts flags in.** -/
theorem gsub_mask (hclean : Clean r w items) (h : text ≠ []) (hnew : ∀ matched, expand text matched = text) :
    gsub r text (spell items) = spell (mask r text items) := by
  rw [mask, dif_pos h]
  exact gsubFrom_cover hclean hnew items [] [] false rfl

/-- **What the text stands for is the same.** -/
theorem value_mask (hclean : Clean r w items) (v : List Char → List Char) (hv : v text = w) :
    value v (mask r text items) = value v items := by
  unfold mask
  split
  · rename_i h
    exact @value_cover r w text h items hclean v hv items [] [] rfl
  · rfl

theorem mem_mask {t : List Char} {ht : t ≠ []} (hmem : .flag t ht ∈ mask r text items) :
    t = text ∨ .flag t ht ∈ items := by
  unfold mask at hmem
  split at hmem
  · exact mem_cover hmem
  · exact Or.inr hmem

/-- A value that is empty is nowhere masked. -/
theorem mask_of_empty (hclean : Clean r [] items) : mask r text items = items := by
  have hnone : ∀ before s, spell items = before ++ s → longest r ⟨before.getLast?, s⟩ = none := by
    intro before s hspell
    cases hp : longest r ⟨before.getLast?, s⟩ with
    | none => rfl
    | some p => exact absurd rfl (hclean before s p hspell hp).1
  have hcover : ∀ (h : text ≠ []) (rest pre : List Item), items = pre ++ rest →
      cover r text h 0 (spell pre).getLast? rest = rest := by
    intro h rest
    induction rest with
    | nil => exact fun _ _ => rfl
    | cons item rest ih =>
        intro pre hitems
        have hnext : items = (pre ++ [item]) ++ rest := by
          rw [hitems]
          simp
        have hrest := ih (pre ++ [item]) hnext
        cases item with
        | chr c =>
            have hat := hnone (spell pre) (c :: spell rest) (by rw [hitems]; simp [Item.spell])
            have hlast := getLast_spell_chr pre c
            rw [hlast] at hrest
            rw [cover, hat]
            exact congrArg (Item.chr c :: ·) hrest
        | flag t ht =>
            have hlast := getLast_spell_flag pre ht
            rw [hlast] at hrest
            exact congrArg (Item.flag t ht :: ·) hrest
  unfold mask
  split
  · rename_i h
    exact hcover h items [] rfl
  · rfl

end Mask

/-- An expression that matches nowhere is clean. -/
theorem clean_of_absent {r : Regex} {items : List Item} (habsent : matchesText r (spell items) = false)
    (w : List Char) : Clean r w items := by
  have hnone : ∀ (s before : List Char), matchesFrom r before.getLast? s = false →
      ∀ u v, s = u ++ v → longest r ⟨(before ++ u).getLast?, v⟩ = none := by
    intro s
    induction s with
    | nil =>
        intro before h u v huv
        obtain ⟨rfl, rfl⟩ := List.append_eq_nil_iff.1 huv.symm
        rw [matchesFrom, Option.isSome_eq_false_iff, Option.isNone_iff_eq_none] at h
        rw [List.append_nil]
        exact h
    | cons c s ih =>
        intro before h u v huv
        rw [matchesFrom, Bool.or_eq_false_iff, Option.isSome_eq_false_iff, Option.isNone_iff_eq_none] at h
        cases u with
        | nil =>
            obtain rfl : c :: s = v := huv
            rw [List.append_nil]
            exact h.1
        | cons d u =>
            obtain ⟨rfl, htail⟩ := List.cons.inj huv
            have hlast : (before ++ [c]).getLast? = some c := by simp
            rw [← hlast] at h
            have hat := ih (before ++ [c]) h.2 u v htail
            rw [List.append_assoc, List.singleton_append] at hat
            exact hat
  intro before s p hspell hp
  have hat := hnone (spell items) [] habsent before s hspell
  rw [List.nil_append, hp] at hat
  cases hat

/-- In a text without flags, an expression is clean if it matches the value only. -/
theorem clean_chars {r : Regex} {w line : List Char} (hw : w ≠ [])
    (h : ∀ before s p, line = before ++ s → longest r ⟨before.getLast?, s⟩ = some p → s = w ++ p.rest) :
    Clean r w (line.map .chr) := by
  intro before s p hspell hp
  rw [spell_chars] at hspell
  have hs := h before s p hspell hp
  refine ⟨hw, before.map .chr, p.rest.map .chr, ?_, (spell_chars before).symm, (spell_chars p.rest).symm⟩
  rw [hspell, hs]
  simp

theorem clean_word {w : List Char} (hw : w ≠ []) (line : List Char) : Clean (word w) w (line.map .chr) := by
  refine clean_chars hw fun before s p _ hp => ?_
  rw [longest_word] at hp
  split at hp
  · rename_i hpre
    obtain ⟨t, rfl⟩ := hpre
    rw [← Option.some.inj hp, List.drop_left]
  · cases hp

/-! ## 3. Putting a value back -/

/-- The flag is found only where it is one. -/
def Alone (text : List Char) (items : List Item) : Prop :=
  ∀ before s, spell items = before ++ (text ++ s) →
    ∃ pre h post, items = pre ++ Item.flag text h :: post ∧ before = spell pre

/-- The items with the value in the place of the flag. -/
def unmask (text new : List Char) (items : List Item) : List Item :=
  items.flatMap fun item => match item with
    | .chr c => [Item.chr c]
    | .flag t h => if t = text then new.map .chr else [.flag t h]

section Uncover

variable {text new : List Char} {all : List Item}

theorem unmask_cons_flag {t : List Char} (ht : t ≠ []) (items : List Item) :
    unmask text new (.flag t ht :: items) =
      (if t = text then new.map .chr else [Item.flag t ht]) ++ unmask text new items := rfl

theorem value_unmask (v : List Char → List Char) (hv : v text = new) : ∀ items : List Item,
    value v (unmask text new items) = value v items
  | [] => rfl
  | .chr c :: items => congrArg (c :: ·) (value_unmask v hv items)
  | .flag t ht :: items => by
      have ih := value_unmask v hv items
      rw [unmask_cons_flag, value_append, ih, value_cons, Item.value]
      by_cases heq : t = text
      · rw [if_pos heq, value_chars, heq, hv]
      · rw [if_neg heq]
        simp [value, Item.value]

theorem mem_unmask {t : List Char} {ht : t ≠ []} {items : List Item}
    (h : .flag t ht ∈ unmask text new items) : t ≠ text ∧ .flag t ht ∈ items := by
  obtain ⟨item, hitem, hin⟩ := List.mem_flatMap.1 h
  cases item with
  | chr c => simp at hin
  | flag t' ht' =>
      dsimp only at hin
      split at hin
      · simp at hin
      · rename_i hne
        obtain rfl := Item.flag.inj (List.mem_singleton.1 hin)
        exact ⟨hne, hitem⟩

/-- Text in which no flag begins is passed over. -/
theorem replaceFrom_pass (w new : List Char) : ∀ (t s : List Char),
    (∀ u v, t = u ++ v → v ≠ [] → ¬ w <+: v ++ s) →
    replaceFrom w new 0 (t ++ s) = t ++ replaceFrom w new 0 s
  | [], _, _ => rfl
  | c :: t, s, h => by
      have hpre : ¬ w <+: c :: (t ++ s) := h [] (c :: t) rfl (List.cons_ne_nil _ _)
      have ih := replaceFrom_pass w new t s fun u v huv hv => h (c :: u) v (congrArg (c :: ·) huv) hv
      rw [List.cons_append, replaceFrom, if_neg hpre, ih]
      rfl

theorem replaceFrom_unmask (halone : Alone text all) : ∀ (items pre : List Item), all = pre ++ items →
    replaceFrom text new 0 (spell items) = spell (unmask text new items)
  | [], _, _ => rfl
  | item :: items, pre, hall => by
      have hnext : all = (pre ++ [item]) ++ items := by
        rw [hall]
        simp
      have ih := replaceFrom_unmask halone items (pre ++ [item]) hnext
      -- a flag that begins in an item is that item
      have hat : ∀ u v, item.spell = u ++ v → v ≠ [] → text <+: v ++ spell items →
          ∃ h, item = .flag text h := by
        intro u v huv hv hpre
        obtain ⟨s, hs⟩ := hpre
        have hspell : spell all = (spell pre ++ u) ++ (text ++ s) := by
          rw [hs, hall, spell_append, spell_cons, huv]
          simp
        obtain ⟨pre', h, post, hall', hpre'⟩ := halone _ _ hspell
        have hshort : u.length < item.spell.length := by
          rw [huv, List.length_append]
          exact Nat.lt_add_of_pos_right (List.length_pos_iff.2 hv)
        have heq := align (hall ▸ hall') hpre'.symm hshort
        rw [hall, heq] at hall'
        exact ⟨h, (List.cons.inj (List.append_cancel_left hall')).1⟩
      cases item with
      | chr c =>
          have hpass := replaceFrom_pass text new [c] (spell items) fun u v huv hv hpre => by
            obtain ⟨h, heq⟩ := hat u v huv hv hpre
            cases heq
          rw [spell_cons, Item.spell, hpass, ih]
          rfl
      | flag t ht =>
          rw [spell_cons, Item.spell, unmask_cons_flag, spell_append, ← ih]
          by_cases heq : t = text
          · obtain ⟨c, t', rfl⟩ := List.exists_cons_of_ne_nil ht
            have hpre : text <+: c :: (t' ++ spell items) := by
              rw [← heq]
              exact ⟨spell items, rfl⟩
            have hskip : text.length - 1 = t'.length := by
              rw [← heq]
              rfl
            rw [if_pos heq, spell_chars, List.cons_append, replaceFrom, if_pos hpre, hskip, replaceFrom_skip]
          · have hpass := replaceFrom_pass text new t (spell items) fun u v huv hv hpre => by
              obtain ⟨h, heq'⟩ := hat u v huv hv hpre
              exact heq (Item.flag.inj heq')
            rw [if_neg heq, hpass]
            simp [Item.spell]

end Uncover

theorem alone_of_absent {text : List Char} {items : List Item} (h : ¬ text <:+: spell items) :
    Alone text items := by
  intro before s hspell
  exact absurd ⟨before, s, by rw [hspell, List.append_assoc]⟩ h

theorem alone_singleton {text : List Char} (h : text ≠ []) : Alone text [.flag text h] := by
  intro before s hspell
  have hlen := congrArg List.length hspell
  simp [spell, Item.spell] at hlen
  exact ⟨[], h, [], rfl, List.length_eq_zero_iff.1 (by omega)⟩

theorem unmask_of_absent {text new : List Char} : ∀ {items : List Item},
    (∀ h, .flag text h ∉ items) → unmask text new items = items
  | [], _ => rfl
  | .chr c :: _, h => congrArg (Item.chr c :: ·) (unmask_of_absent fun ht hmem => h ht (List.mem_cons_of_mem _ hmem))
  | .flag t ht :: items, h => by
      have hne : t ≠ text := by
        rintro rfl
        exact h ht List.mem_cons_self
      have ih := @unmask_of_absent text new items fun ht hmem => h ht (List.mem_cons_of_mem _ hmem)
      rw [unmask_cons_flag, if_neg hne, ih]
      rfl

/-- **A gsub of a flag that stands alone puts the value back.** -/
theorem gsub_unmask {text new : List Char} {items : List Item} (halone : Alone text items)
    (hne : text ≠ []) (hnew : ∀ h, .flag text h ∈ items → expand new text = new) :
    gsub (word text) new (spell items) = spell (unmask text new items) := by
  rw [gsub_eq hne (matchesOnly_word text _)]
  by_cases hin : ∃ h, .flag text h ∈ items
  · obtain ⟨h, hmem⟩ := hin
    rw [hnew h hmem]
    exact replaceFrom_unmask halone items [] rfl
  · have hout : ¬ text <:+: spell items := by
      intro ⟨before, s, hs⟩
      obtain ⟨pre, h, post, hitems, -⟩ := halone before s (by rw [← hs, List.append_assoc])
      exact hin ⟨h, by rw [hitems]; simp⟩
    rw [unmask_of_absent fun h hmem => hin ⟨h, hmem⟩]
    exact replaceFrom_of_absent _ _ _ hout

theorem spell_eq_value {v : List Char → List Char} : ∀ {items : List Item},
    (∀ t ht, .flag t ht ∉ items) → spell items = value v items
  | [], _ => rfl
  | .chr c :: _, h =>
      congrArg (c :: ·) (spell_eq_value fun t ht hmem => h t ht (List.mem_cons_of_mem _ hmem))
  | .flag t ht :: _, h => absurd List.mem_cons_self (h t ht)

end YottaTest.Awk
