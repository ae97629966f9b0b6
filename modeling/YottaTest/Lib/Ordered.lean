/-
  File:      YottaTest/Lib/Ordered.lean
  Subject:   Going through an ordered set of keys with "the next key after this one".

  * `Collation` -- a strict order of the keys, with its laws as fields; `flip` turns it around;
  * `next` -- the first key behind a place, `none` at the end; `flip_next_of_next`,
    `flip_next_of_end` -- and back again;
  * `visit` -- the loop that asks for the next key until there is none;
  * `mem_visit`, `visit_sorted` -- **it comes to every key behind its start once, in order**;
  * `natural`, `along`, `either`, `words` -- the order of numbers; orders made from orders.
-/
import Mathlib.Data.List.Basic

namespace YottaTest.Lib

/-- A strict total order of keys. -/
structure Collation (K : Type) where
  lt : K → K → Bool
  irrefl : ∀ a, lt a a = false
  trans : ∀ {a b c}, lt a b = true → lt b c = true → lt a c = true
  total : ∀ a b, lt a b = true ∨ a = b ∨ lt b a = true

namespace Collation

variable {K : Type} (c : Collation K)

/-- The order from the other end. -/
def flip : Collation K where
  lt a b := c.lt b a
  irrefl := c.irrefl
  trans h h' := c.trans h' h
  total a b := (c.total b a).imp_right fun h => h.imp_left Eq.symm

theorem asymm {a b : K} (h : c.lt a b = true) : c.lt b a = false := by
  cases hba : c.lt b a with
  | false => rfl
  | true =>
      have haa := c.trans h hba
      rw [c.irrefl] at haa
      cases haa

/-- Keys in order are determined by which they are. -/
theorem sorted_unique {ks ls : List K} (hks : ks.Pairwise fun a b => c.lt a b = true)
    (hls : ls.Pairwise fun a b => c.lt a b = true) (h : ∀ k, k ∈ ks ↔ k ∈ ls) : ks = ls := by
  have hne : ∀ {a b : K}, c.lt a b = true → a ≠ b := by
    intro a b hab heq
    rw [heq, c.irrefl] at hab
    cases hab
  have hperm : ks.Perm ls := (List.perm_ext_iff_of_nodup (hks.imp hne) (hls.imp hne)).2 h
  refine List.Perm.eq_of_pairwise (fun a b _ _ hab hba => ?_) hks hls hperm
  rw [c.asymm hab] at hba
  cases hba

/-- A text as a place: the empty one stands before all others. -/
def place {α : Type} : List α → Option (List α)
  | [] => none
  | a :: s => some (a :: s)

/-! ## 1. The next key -/

/-- The key lies behind the place; `none` is the place before all keys. -/
def behind (place : Option K) (k : K) : Bool :=
  match place with
  | some p => c.lt p k
  | none => true

/-- The first of some keys. -/
def least : List K → Option K
  | [] => none
  | k :: ks => match least ks with
    | none => some k
    | some m => if c.lt m k then some m else some k

/-- The first key behind a place. -/
def next (keys : List K) (place : Option K) : Option K := c.least (keys.filter (c.behind place))

theorem least_eq_none {ks : List K} : c.least ks = none ↔ ks = [] := by
  cases ks with
  | nil => exact iff_of_true rfl rfl
  | cons k ks =>
      refine iff_of_false (fun h => ?_) (List.cons_ne_nil k ks)
      rw [least] at h
      split at h
      · cases h
      · split at h
        · cases h
        · cases h

theorem least_spec : ∀ {ks : List K} {m : K}, c.least ks = some m →
    m ∈ ks ∧ ∀ k ∈ ks, k = m ∨ c.lt m k = true
  | k :: ks, m, h => by
      rw [least] at h
      split at h
      · rename_i hnone
        obtain rfl := Option.some.inj h
        rw [c.least_eq_none.1 hnone]
        exact ⟨List.mem_cons_self, fun k hk => Or.inl (List.mem_singleton.1 hk)⟩
      · rename_i n hn
        obtain ⟨hmem, hle⟩ := least_spec hn
        by_cases hlt : c.lt n k = true
        · rw [if_pos hlt] at h
          obtain rfl := Option.some.inj h
          refine ⟨List.mem_cons_of_mem k hmem, fun x hx => ?_⟩
          rcases List.mem_cons.1 hx with rfl | hx
          · exact Or.inr hlt
          · exact hle x hx
        · rw [if_neg hlt] at h
          obtain rfl := Option.some.inj h
          have hkn : k = n ∨ c.lt k n = true := (c.total n k).resolve_left hlt |>.imp_left Eq.symm
          refine ⟨List.mem_cons_self, fun x hx => ?_⟩
          rcases List.mem_cons.1 hx with rfl | hx
          · exact Or.inl rfl
          · rcases hkn with rfl | hkn
            · exact hle x hx
            · rcases hle x hx with rfl | hnx
              · exact Or.inr hkn
              · exact Or.inr (c.trans hkn hnx)

section Next

variable {c} {keys : List K} {place : Option K} {k : K}

theorem next_eq_none : c.next keys place = none ↔ ∀ k ∈ keys, c.behind place k = false := by
  unfold next
  rw [least_eq_none, List.filter_eq_nil_iff]
  simp only [Bool.not_eq_true]

/-- The next key is one of them, lies behind the place, and no key lies between. -/
theorem next_spec (h : c.next keys place = some k) :
    k ∈ keys ∧ c.behind place k = true ∧
      ∀ x ∈ keys, c.behind place x = true → x = k ∨ c.lt k x = true := by
  obtain ⟨hmem, hle⟩ := c.least_spec h
  obtain ⟨hk, hbehind⟩ := List.mem_filter.1 hmem
  exact ⟨hk, hbehind, fun x hx hb => hle x (List.mem_filter.2 ⟨hx, hb⟩)⟩

theorem next_eq_some (hk : k ∈ keys) (hb : c.behind place k = true)
    (hle : ∀ x ∈ keys, c.behind place x = true → x = k ∨ c.lt k x = true) :
    c.next keys place = some k := by
  cases hn : c.next keys place with
  | none =>
      have hnone := next_eq_none.1 hn k hk
      rw [hb] at hnone
      cases hnone
  | some m =>
      obtain ⟨hm, hbm, hlem⟩ := next_spec hn
      rcases hle m hm hbm with rfl | hkm
      · rfl
      · rcases hlem k hk hb with rfl | hmk
        · rfl
        · rw [c.asymm hkm] at hmk
          cases hmk

/-- Back from the next key. -/
theorem flip_next_of_next (hp : ∀ p, place = some p → p ∈ keys) (h : c.next keys place = some k) :
    c.flip.next keys (some k) = place := by
  obtain ⟨-, hb, hle⟩ := next_spec h
  have hnot : ∀ x ∈ keys, c.behind place x = true → c.lt x k = false := by
    intro x hx hbx
    rcases hle x hx hbx with rfl | hkx
    · exact c.irrefl x
    · exact c.asymm hkx
  cases place with
  | none => exact next_eq_none.2 fun x hx => hnot x hx rfl
  | some p =>
      refine next_eq_some (hp p rfl) hb fun x hx hxk => ?_
      rcases c.total x p with hxp | rfl | hpx
      · exact Or.inr hxp
      · exact Or.inl rfl
      · have hfalse : c.lt x k = false := hnot x hx hpx
        rw [show c.lt x k = true from hxk] at hfalse
        cases hfalse

/-- Back from the end. -/
theorem flip_next_of_end (hp : ∀ p, place = some p → p ∈ keys) (h : c.next keys place = none) :
    c.flip.next keys none = place := by
  have hnone := next_eq_none.1 h
  cases place with
  | none => exact next_eq_none.2 hnone
  | some p =>
      refine next_eq_some (hp p rfl) rfl fun x hx _ => ?_
      rcases c.total x p with hxp | rfl | hpx
      · exact Or.inr hxp
      · exact Or.inl rfl
      · have hfalse : c.lt p x = false := hnone x hx
        rw [hpx] at hfalse
        cases hfalse

theorem behind_of_lt {x : K} (h : c.behind place k = true) (hlt : c.lt k x = true) :
    c.behind place x = true := by
  cases place with
  | none => rfl
  | some p => exact c.trans h hlt

/-- Fewer keys lie behind the next one. -/
theorem next_fewer (h : c.next keys place = some k) :
    (keys.filter (c.behind (some k))).length < (keys.filter (c.behind place)).length := by
  obtain ⟨hk, hbehind, -⟩ := next_spec h
  have hsub : (keys.filter (c.behind (some k))).Sublist (keys.filter (c.behind place)) :=
    List.monotone_filter_right keys fun x hx => behind_of_lt hbehind hx
  refine Nat.lt_of_le_of_ne hsub.length_le fun heq => ?_
  have hmem : k ∈ keys.filter (c.behind (some k)) := by
    rw [hsub.eq_of_length heq]
    exact List.mem_filter.2 ⟨hk, hbehind⟩
  have hlt : c.lt k k = true := (List.mem_filter.1 hmem).2
  rw [c.irrefl] at hlt
  cases hlt

end Next

/-! ## 2. The loop -/

/-- The keys that the loop comes to from a place on. -/
def visit (keys : List K) (place : Option K) : List K :=
  match _h : c.next keys place with
  | none => []
  | some k => k :: visit keys (some k)
termination_by (keys.filter (c.behind place)).length
decreasing_by exact next_fewer _h

theorem visit_of_none {keys : List K} {place : Option K} (h : c.next keys place = none) :
    c.visit keys place = [] := by
  rw [visit]
  split
  · rfl
  · rename_i hk
    rw [h] at hk
    cases hk

theorem visit_of_some {keys : List K} {place : Option K} {k : K} (h : c.next keys place = some k) :
    c.visit keys place = k :: c.visit keys (some k) := by
  conv_lhs => rw [visit]
  split
  · rename_i hnone
    rw [h] at hnone
    cases hnone
  · rename_i hk
    rw [h] at hk
    rw [Option.some.inj hk]

theorem mem_visit {keys : List K} {place : Option K} {x : K} :
    x ∈ c.visit keys place ↔ x ∈ keys ∧ c.behind place x = true := by
  rw [visit]
  split
  · rename_i hnone
    refine iff_of_false List.not_mem_nil fun h => ?_
    rw [next_eq_none.1 hnone x h.1] at h
    cases h.2
  · rename_i k hk
    obtain ⟨hmem, hbehind, hleast⟩ := next_spec hk
    rw [List.mem_cons, mem_visit]
    constructor
    · intro h
      rcases h with rfl | ⟨hx, hlt⟩
      · exact ⟨hmem, hbehind⟩
      · exact ⟨hx, behind_of_lt hbehind hlt⟩
    · intro h
      exact (hleast x h.1 h.2).imp_right fun hlt => ⟨h.1, hlt⟩
termination_by (keys.filter (c.behind place)).length
decreasing_by exact next_fewer ‹_›

/-- **The keys come in order**, so each of them once. -/
theorem visit_sorted (keys : List K) (place : Option K) :
    (c.visit keys place).Pairwise fun a b => c.lt a b = true := by
  rw [visit]
  split
  · exact List.Pairwise.nil
  · rename_i k hk
    exact List.Pairwise.cons (fun x hx => ((c.mem_visit).1 hx).2) (visit_sorted keys (some k))
termination_by (keys.filter (c.behind place)).length
decreasing_by exact next_fewer ‹_›

end Collation

/-! ## 3. Orders from orders -/

namespace Collation

/-- The order of numbers. -/
def natural : Collation Nat where
  lt m n := decide (m < n)
  irrefl n := decide_eq_false (Nat.lt_irrefl n)
  trans h h' := decide_eq_true (Nat.lt_trans (of_decide_eq_true h) (of_decide_eq_true h'))
  total m n := (Nat.lt_trichotomy m n).imp decide_eq_true fun h => h.imp_right decide_eq_true

section

variable {K L : Type} (c : Collation K) (d : Collation L)

/-- The order of what stands for each key. -/
def along (f : L → K) (hf : ∀ a b, f a = f b → a = b) : Collation L where
  lt a b := c.lt (f a) (f b)
  irrefl a := c.irrefl (f a)
  trans h h' := c.trans h h'
  total a b := (c.total (f a) (f b)).imp_right fun h => h.imp_left (hf a b)

def ltEither : K ⊕ L → K ⊕ L → Bool
  | .inl a, .inl b => c.lt a b
  | .inl _, .inr _ => true
  | .inr _, .inl _ => false
  | .inr a, .inr b => d.lt a b

theorem ltEither_trans : ∀ {x y z : K ⊕ L}, ltEither c d x y = true → ltEither c d y z = true →
    ltEither c d x z = true
  | .inl _, .inl _, .inl _, h, h' => c.trans h h'
  | .inl _, _, .inr _, _, _ => rfl
  | .inr _, .inr _, .inr _, h, h' => d.trans h h'
  | .inr _, .inl _, _, h, _ => by cases h
  | _, .inr _, .inl _, _, h' => by cases h'

/-- The keys of one order in front of those of another. -/
def either : Collation (K ⊕ L) where
  lt := ltEither c d
  irrefl
    | .inl a => c.irrefl a
    | .inr a => d.irrefl a
  trans := ltEither_trans c d
  total
    | .inl a, .inl b => (c.total a b).imp_right fun h => h.imp_left (congrArg Sum.inl)
    | .inl _, .inr _ => Or.inl rfl
    | .inr _, .inl _ => Or.inr (Or.inr rfl)
    | .inr a, .inr b => (d.total a b).imp_right fun h => h.imp_left (congrArg Sum.inr)

/-- Key by key. -/
def ltWords : List K → List K → Bool
  | _, [] => false
  | [], _ :: _ => true
  | a :: s, b :: t => c.lt a b || (!c.lt b a && ltWords s t)

theorem ltWords_cons {a b : K} {s t : List K} : c.ltWords (a :: s) (b :: t) = true ↔
    c.lt a b = true ∨ a = b ∧ c.ltWords s t = true := by
  rw [ltWords, Bool.or_eq_true, Bool.and_eq_true, Bool.not_eq_true']
  constructor
  · intro h
    rcases h with h | ⟨hba, hst⟩
    · exact Or.inl h
    · rcases c.total a b with hab | hab | hab
      · exact Or.inl hab
      · exact Or.inr ⟨hab, hst⟩
      · rw [hba] at hab
        cases hab
  · intro h
    rcases h with h | ⟨rfl, hst⟩
    · exact Or.inl h
    · exact Or.inr ⟨c.irrefl a, hst⟩

theorem ltWords_irrefl : ∀ s : List K, c.ltWords s s = false
  | [] => rfl
  | a :: s => by
      rw [ltWords, c.irrefl, ltWords_irrefl s]
      rfl

theorem ltWords_trans : ∀ {s t u : List K}, c.ltWords s t = true → c.ltWords t u = true →
    c.ltWords s u = true
  | _, [], _, h, _ => by rw [ltWords] at h; cases h
  | _, _ :: _, [], _, h => by cases h
  | [], _ :: _, _ :: _, _, _ => rfl
  | a :: s, b :: t, e :: u, h, h' => by
      rw [ltWords_cons] at h h' ⊢
      rcases h with h | ⟨rfl, hst⟩
      · rcases h' with h' | ⟨rfl, -⟩
        · exact Or.inl (c.trans h h')
        · exact Or.inl h
      · exact h'.imp_right fun h' => ⟨h'.1, ltWords_trans hst h'.2⟩

theorem ltWords_total : ∀ s t : List K, c.ltWords s t = true ∨ s = t ∨ c.ltWords t s = true
  | [], [] => Or.inr (Or.inl rfl)
  | [], _ :: _ => Or.inl rfl
  | _ :: _, [] => Or.inr (Or.inr rfl)
  | a :: s, b :: t => by
      rw [ltWords_cons, ltWords_cons]
      rcases c.total a b with h | rfl | h
      · exact Or.inl (Or.inl h)
      · rcases ltWords_total s t with h | rfl | h
        · exact Or.inl (Or.inr ⟨rfl, h⟩)
        · exact Or.inr (Or.inl rfl)
        · exact Or.inr (Or.inr (Or.inr ⟨rfl, h⟩))
      · exact Or.inr (Or.inr (Or.inl h))

/-- A common beginning does not matter. -/
theorem ltWords_append : ∀ p s t : List K, c.ltWords (p ++ s) (p ++ t) = c.ltWords s t
  | [], _, _ => rfl
  | a :: p, s, t => by
      rw [List.cons_append, List.cons_append, ltWords, c.irrefl, ltWords_append p s t]
      rfl

/-- The order of a dictionary. -/
def words : Collation (List K) where
  lt := c.ltWords
  irrefl := c.ltWords_irrefl
  trans := c.ltWords_trans
  total := c.ltWords_total

end

/-- Texts in the order of their characters' codes. -/
def bytewise : Collation (List Char) := (natural.along Char.toNat fun _ _ => Char.toNat_inj.1).words

end Collation

end YottaTest.Lib
