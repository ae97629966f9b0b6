/-
  File:      YottaTest/Convbase/Octal.lean
  Subject:   gtm9115.m: the conversions of octal digits to decimal and to hexadecimal.

  A short text is made a number first, `+o`, and the canonical text of that number is read digit by
  digit. Higher digits, 8 and 9, end the octal ones on both ways, but a power of ten behind them moves
  the point.

  * `OctalReading`, `Unmoved` -- what M reads off octal digits with other characters behind them, and
    when its exponent leaves the octal digits alone;
  * `readLoop_kept`, `lt_readLoop_moved`, `readLoop_lost_lt` -- the octal digits stay, get zeros behind
    them, or lose some; `readLoop_text_iff` -- the number that is read from the canonical text;
  * `octtodec_iff`, `octtohex_iff` -- when each conversion gives the numeral;
  * `conversions_iff` -- **with the hexadecimal conversion: the three agree with the number denoted by
    the leading digits under these conditions, and under no others.**
-/
import YottaTest.Convbase.Shortcut

namespace YottaTest.Convbase

open YottaTest.Lib YottaTest.M

/-! ## 1. Octal digits, as M reads them -/

/-- The canonical numeral in base 10 is the text that a number has. -/
theorem numeral_ten (n : Nat) : numeral 10 n = Nat.toDigits 10 n := by
  have hdigit : ∀ j < 10, d j = Nat.digitChar j := by decide
  induction n using Nat.strongRecOn with
  | ind n ih =>
      by_cases hn : n < 10
      · rw [numeral_eq base_ten, digitsOf, Nat.toDigits_of_lt_base hn, Nat.mod_eq_of_lt hn,
          Nat.div_eq_of_lt hn, Nat.digits_zero, ← hdigit n hn]
        rfl
      · have hpos : n / 10 ≠ 0 := by omega
        rw [Nat.toDigits_of_base_le (by decide) (by omega), ← ih (n / 10) (by omega),
          numeral_eq base_ten n, digitsOf, List.map_cons, List.reverse_cons,
          hdigit _ (Nat.mod_lt n (by decide)), numeral, if_neg hpos]

/-- Octal digits are zeros, or zeros in front of another digit. -/
theorem zeros_or_leading {p : Text} :
    p = List.replicate p.length '0' ∨ ∃ z x t, p = List.replicate z '0' ++ x :: t ∧ x ≠ '0' := by
  induction p with
  | nil => exact Or.inl rfl
  | cons ch p ih =>
      by_cases hch : ch = '0'
      · subst hch
        rcases ih with h | ⟨z, x, t, h, hx⟩
        · refine Or.inl ?_
          rw [List.length_cons, List.replicate_succ, ← h]
        · exact Or.inr ⟨z + 1, x, t, by rw [List.replicate_succ, List.cons_append, ← h], hx⟩
      · exact Or.inr ⟨0, ch, p, rfl, hch⟩

/-- What is read off octal digits with other characters behind them: `p` are the octal digits, and the
    others, in front of the point and behind it, are 8 and 9. -/
structure OctalReading (p : Text) (r : Reading) : Prop where
  unsigned : r.neg = false
  octal : ∀ ch ∈ p, ch ∈ valbasechar 8
  whole : ∃ q, r.whole = p ++ q ∧ ∀ ch ∈ q ++ r.frac, ch.isDigit = true ∧ ch ∉ valbasechar 8
  short : r.whole.length ≤ 18

/-- The exponent neither moves octal digits behind the point nor puts zeros behind them. -/
def Unmoved (p : Text) (r : Reading) : Prop :=
  denoted 8 p = 0 ∨ r.exp = 0 ∨ (0 < r.exp ∧ r.whole ++ r.frac ≠ p) ∨
    (r.exp < 0 ∧ (p.length : Int) ≤ r.whole.length + r.exp)

theorem isDigit_of_octal {ch : Char} (h : ch ∈ valbasechar 8) : ch.isDigit = true := by
  have hall : ((valbasechar 8).all Char.isDigit) = true := by decide
  exact List.all_eq_true.1 hall ch h

section Octal

variable (P : Precision) {p : Text} {r : Reading}

/-- The digits of the reading when `p` has a digit other than 0: without the zeros in front of it. -/
theorem OctalReading.digits_eq (h : OctalReading p r) {z : Nat} {x : Char} {t q : Text}
    (hp : p = List.replicate z '0' ++ x :: t) (hx : x ≠ '0') (hq : r.whole = p ++ q)
    (hhigh : ∀ ch ∈ q ++ r.frac, ch.isDigit = true) : r.digits = (x :: t) ++ (q ++ r.frac) := by
  have hall : r.whole ++ r.frac = List.replicate z '0' ++ x :: (t ++ (q ++ r.frac)) := by
    rw [hq, hp]
    simp
  have hoctal : ∀ ch ∈ x :: t, ch.isDigit = true := fun ch hch =>
    isDigit_of_octal (h.octal ch (by rw [hp]; exact List.mem_append_right _ hch))
  obtain ⟨hdigit, ht⟩ := List.forall_mem_cons.1 hoctal
  rw [Reading.digits, Reading.mant, hall, toDigits_zeros z hdigit hx]
  · rfl
  · intro ch hch
    rcases List.mem_append.1 hch with hch | hch
    · exact ht ch hch
    · exact hhigh ch hch

/-- When `p` is zeros, the digits of a reading other than 0 begin with an 8 or a 9. -/
theorem OctalReading.digits_zeros (h : OctalReading p r) (hp : denoted 8 p = 0) (hmant : r.mant ≠ 0) :
    ∃ y s, r.digits = y :: s ∧ y ∉ valbasechar 8 := by
  obtain ⟨q, hq, hhigh⟩ := h.whole
  have hzeros : p = List.replicate p.length '0' := by
    rcases zeros_or_leading (p := p) with hz | ⟨z, x, t, hz, hx⟩
    · exact hz
    · have hmem := h.octal x (by rw [hz]; simp)
      have hpow : 1 ≤ 8 ^ t.length := Nat.pow_pos (by decide)
      have hidx : digitChars.idxOf x ≠ 0 := fun h0 =>
        hx ((idxOf_eq_zero_iff (List.mem_of_mem_take hmem)).1 h0)
      have hle := Nat.le_mul_of_pos_right (digitChars.idxOf x) hpow
      rw [hz, denoted_zeros, denoted_cons] at hp
      omega
  have hmant' : r.mant = Nat.ofDigitChars 10 (List.replicate p.length '0' ++ (q ++ r.frac)) 0 := by
    rw [Reading.mant, hq, ← hzeros, List.append_assoc]
  cases hys : q ++ r.frac with
  | nil =>
      rw [hys, List.append_nil, Nat.ofDigitChars_replicate_zero] at hmant'
      exact absurd (by simpa using hmant') hmant
  | cons y s =>
      rw [hys] at hmant' hhigh
      obtain ⟨hy, hs⟩ := List.forall_mem_cons.1 hhigh
      refine ⟨y, s, ?_, hy.2⟩
      have hne : y ≠ '0' := fun h0 => hy.2 (by rw [h0]; decide)
      rw [Reading.digits, hmant', toDigits_zeros _ hy.1 hne fun ch hch => (hs ch hch).1]

/-- The value of the canonical text is that of its digits in front of the point. -/
theorem readLoop_text (hmant : r.mant ≠ 0) (hover : r.overflows = false) (hunder : ¬ r.point < -42)
    (hneg : r.neg = false) :
    ∃ t, r.text = some t ∧ readLoop P 8 t 0 = readLoop P 8 r.parts.1 0 := by
  refine ⟨r.parts.1 ++ if r.parts.2 = [] then [] else '.' :: r.parts.2, ?_, ?_⟩
  · simp [Reading.text, hmant, hover, hunder, hneg]
  · refine readLoop_append_stop P ?_ _ _
    intro ch hch
    split at hch
    · exact absurd hch (by simp)
    · rw [← Option.some.inj hch]
      decide

theorem readLoop_text_zero : readLoop P 8 ['0'] 0 = 0 := by
  have hmem : ∀ ch ∈ ['0'], ch ∈ valbasechar 8 := by
    intro ch hch
    rw [List.mem_singleton.1 hch]
    decide
  rw [readLoop_zero P (by decide) hmem (by decide)]
  rfl

/-- Whatever the exponent, a text of octal zeros with higher digits behind them begins with no octal
    digit but 0. -/
theorem readLoop_text_zeros (h : OctalReading p r) (hp : denoted 8 p = 0) (hover : r.overflows = false) :
    ∃ t, r.text = some t ∧ readLoop P 8 t 0 = 0 := by
  have hzero := readLoop_text_zero P
  by_cases hmant : r.mant = 0
  · exact ⟨['0'], by rw [Reading.text, if_pos hmant], hzero⟩
  by_cases hunder : r.point < -42
  · exact ⟨['0'], by rw [Reading.text, if_neg hmant, hover, if_neg (by decide), if_pos hunder], hzero⟩
  obtain ⟨t, ht, hread⟩ := readLoop_text P hmant hover hunder h.unsigned
  refine ⟨t, ht, ?_⟩
  obtain ⟨y, s, hdigits, hy⟩ := h.digits_zeros hp hmant
  rw [hread, Reading.parts, hdigits]
  by_cases hpoint : r.point ≤ 0
  · rw [if_pos hpoint]
    rfl
  · obtain ⟨k, hk⟩ : ∃ k, r.point.toNat = k + 1 := ⟨r.point.toNat - 1, by omega⟩
    rw [if_neg hpoint, hk]
    refine readLoop_stop P (fun ch hch => ?_) 0
    rw [List.take_succ_cons, List.cons_append, List.head?_cons] at hch
    rwa [← Option.some.inj hch]

/-! ### Octal digits other than zeros -/

section Leading

variable {x : Char} {t q : Text} (hoctal : ∀ ch ∈ x :: t, ch ∈ valbasechar 8)
  (hshort : (x :: t).length ≤ 18) (hhigh : ∀ ch ∈ q ++ r.frac, ch.isDigit = true ∧ ch ∉ valbasechar 8)
  (hdigits : r.digits = (x :: t) ++ (q ++ r.frac))

include hoctal hshort in
theorem readLoop_leading {k : Nat} :
    readLoop P 8 ((x :: t).take k) 0 = denoted 8 ((x :: t).take k) := by
  have hlen : ((x :: t).take k).length ≤ 18 := Nat.le_trans (List.length_take_le' k _) hshort
  refine readLoop_zero P (by decide) (fun ch hch => hoctal ch (List.mem_of_mem_take hch)) ?_
  calc 8 ^ ((x :: t).take k).length ≤ 8 ^ 18 := Nat.pow_le_pow_right (by decide) hlen
    _ ≤ 10 ^ 18 := by decide

include hdigits in
theorem point_eq : r.point = t.length + 1 + q.length + r.exp := by
  have hlen : r.digits.length = t.length + 1 + (q.length + r.frac.length) := by
    rw [hdigits, List.length_append, List.length_append, List.length_cons]
  rw [Reading.point, Reading.scale, hlen]
  omega

include hdigits in
/-- In front of the point: the octal digits, with the higher digits that the exponent leaves there. -/
theorem parts_kept (hle : (t.length : Int) + 1 ≤ r.point) :
    r.parts.1 = (x :: t) ++ ((q ++ r.frac).take (r.point.toNat - (x :: t).length) ++
      List.replicate r.scale.toNat '0') := by
  have hnat : (x :: t).length ≤ r.point.toNat := by
    rw [List.length_cons]
    omega
  rw [Reading.parts, if_neg (by omega), hdigits, List.take_append, List.take_of_length_le hnat,
    List.append_assoc]

include hoctal hshort hhigh hdigits in
/-- **The octal digits stay in front of the point** and nothing but higher digits comes behind them. -/
theorem readLoop_kept (hle : (t.length : Int) + 1 ≤ r.point)
    (hrest : r.scale ≤ 0 ∨ (q ++ r.frac ≠ [] ∧ (t.length : Int) + 1 < r.point)) :
    readLoop P 8 r.parts.1 0 = denoted 8 (x :: t) := by
  have hread : readLoop P 8 (x :: t) 0 = denoted 8 (x :: t) := by
    have := readLoop_leading P hoctal hshort (k := (x :: t).length)
    rwa [List.take_length] at this
  rw [parts_kept hdigits hle, readLoop_append P hoctal, hread]
  refine readLoop_stop P (fun ch hch => ?_) _
  match hys : q ++ r.frac with
  | [] =>
      have hscale : r.scale.toNat = 0 := by
        rcases hrest with h | h
        · omega
        · exact absurd hys h.1
      rw [hys, hscale, List.take_nil] at hch
      exact absurd hch (by simp)
  | y :: s =>
      rw [hys] at hch hhigh
      have hy := (hhigh y List.mem_cons_self).2
      by_cases hcut : r.point.toNat - (x :: t).length = 0
      · have hscale : r.scale.toNat = 0 := by
          rcases hrest with h | h
          · omega
          · have := h.2
            rw [List.length_cons] at hcut
            omega
        rw [hcut, hscale, List.take_zero] at hch
        exact absurd hch (by simp)
      · obtain ⟨k, hk⟩ := Nat.exists_eq_succ_of_ne_zero hcut
        rw [hk, List.take_succ_cons, List.cons_append, List.head?_cons] at hch
        rwa [← Option.some.inj hch]

include hoctal in
theorem leading_pos (hx : x ≠ '0') : 0 < denoted 8 (x :: t) := by
  have hidx : digitChars.idxOf x ≠ 0 := fun h0 =>
    hx ((idxOf_eq_zero_iff (List.mem_of_mem_take (hoctal x List.mem_cons_self))).1 h0)
  have hpow : 1 ≤ 8 ^ t.length := Nat.pow_pos (by decide)
  have hle := Nat.le_mul_of_pos_right (digitChars.idxOf x) hpow
  rw [denoted_cons]
  omega

include hoctal hshort hdigits in
/-- **Zeros behind the octal digits** make the number larger. -/
theorem lt_readLoop_moved (hx : x ≠ '0') (hnil : q ++ r.frac = []) (hexp : 0 < r.exp) :
    denoted 8 (x :: t) < readLoop P 8 r.parts.1 0 := by
  obtain ⟨hq, hfrac⟩ := List.append_eq_nil_iff.1 hnil
  have hpoint := point_eq hdigits
  have hscale : r.scale = r.exp := by
    rw [Reading.scale, hfrac, List.length_nil]
    omega
  obtain ⟨k, hk⟩ : ∃ k, r.scale.toNat = k + 1 := ⟨r.scale.toNat - 1, by omega⟩
  have hlt : denoted 8 (x :: t) < 10 ^ 18 :=
    calc denoted 8 (x :: t) < 8 ^ (x :: t).length := denoted_lt hoctal
      _ ≤ 8 ^ 18 := Nat.pow_le_pow_right (by decide) hshort
      _ ≤ 10 ^ 18 := by decide
  have hread : readLoop P 8 (x :: t) 0 = denoted 8 (x :: t) := by
    have := readLoop_leading P hoctal hshort (k := (x :: t).length)
    rwa [List.take_length] at this
  rw [parts_kept hdigits (by omega), hnil, List.take_nil, List.nil_append, hk,
    readLoop_append P hoctal, hread]
  exact lt_readLoop_zeros P (leading_pos hoctal hx) hlt k _ (Nat.le_refl _)

include hoctal hshort hdigits in
/-- **Octal digits behind the point** are lost. -/
theorem readLoop_lost_lt (hx : x ≠ '0') (hlt : r.point < (t.length : Int) + 1) :
    readLoop P 8 r.parts.1 0 < denoted 8 (x :: t) := by
  have hpos := leading_pos hoctal hx
  by_cases hpoint : r.point ≤ 0
  · rw [Reading.parts, if_pos hpoint]
    exact hpos
  · have hdiglen : (x :: t).length ≤ r.digits.length := by
      rw [hdigits, List.length_append]
      omega
    have hscale : r.scale.toNat = 0 := by
      have : r.point = r.digits.length + r.scale := rfl
      rw [List.length_cons] at hdiglen
      omega
    have hk : r.point.toNat < (x :: t).length := by
      rw [List.length_cons]
      omega
    rw [Reading.parts, if_neg hpoint, hscale, List.replicate_zero, List.append_nil, hdigits,
      List.take_append_of_le_length (Nat.le_of_lt hk), readLoop_leading P hoctal hshort]
    have hsplit := denoted_append 8 ((x :: t).take r.point.toNat) ((x :: t).drop r.point.toNat)
    obtain ⟨m, hm⟩ : ∃ m, ((x :: t).drop r.point.toNat).length = m + 1 :=
      ⟨(x :: t).length - r.point.toNat - 1, by rw [List.length_drop]; omega⟩
    rw [List.take_append_drop, hm, pow_succ] at hsplit
    have hpow : 1 ≤ 8 ^ m := Nat.pow_pos (by decide)
    have hle := Nat.le_mul_of_pos_right (denoted 8 ((x :: t).take r.point.toNat)) hpow
    rw [← Nat.mul_assoc] at hsplit
    omega

include hoctal hshort hhigh hdigits in
/-- **Octal digits in front of a leading one**: the exponent is 0, or it leaves a higher digit behind
    them, or it moves no more than the higher digits. -/
theorem readLoop_text_leading (hx : x ≠ '0') (hneg : r.neg = false) (hover : r.overflows = false) :
    (∃ u, r.text = some u ∧ readLoop P 8 u 0 = denoted 8 (x :: t)) ↔
      r.exp = 0 ∨ (0 < r.exp ∧ q ++ r.frac ≠ []) ∨
        (r.exp < 0 ∧ (t.length : Int) + 1 ≤ r.point) := by
  have hpoint := point_eq hdigits
  have hscale : r.scale = r.exp - r.frac.length := rfl
  have hmant : r.mant ≠ 0 := by
    intro h0
    have hd := hdigits
    rw [Reading.digits, h0] at hd
    exact hx (List.cons.inj hd).1.symm
  have hread : ¬ r.point < -42 → ((∃ u, r.text = some u ∧ readLoop P 8 u 0 = denoted 8 (x :: t)) ↔
      readLoop P 8 r.parts.1 0 = denoted 8 (x :: t)) := by
    intro hunder
    obtain ⟨u, hu, heq⟩ := readLoop_text P hmant hover hunder hneg
    rw [hu, ← heq]
    simp
  rcases lt_trichotomy r.exp 0 with hexp | hexp | hexp
  · by_cases hle : (t.length : Int) + 1 ≤ r.point
    · rw [hread (by omega)]
      exact iff_of_true (readLoop_kept P hoctal hshort hhigh hdigits hle (Or.inl (by omega)))
        (Or.inr (Or.inr ⟨hexp, hle⟩))
    · refine iff_of_false ?_ (by omega)
      by_cases hunder : r.point < -42
      · have htext : r.text = some ['0'] := by
          rw [Reading.text, if_neg hmant, hover, if_neg (by decide), if_pos hunder]
        intro hex
        obtain ⟨u, hu, heq⟩ := hex
        rw [htext] at hu
        rw [← Option.some.inj hu, readLoop_text_zero] at heq
        exact absurd heq.symm (Nat.ne_of_gt (leading_pos hoctal hx))
      · rw [hread hunder]
        exact Nat.ne_of_lt (readLoop_lost_lt P hoctal hshort hdigits hx (by omega))
  · rw [hread (by omega)]
    exact iff_of_true (readLoop_kept P hoctal hshort hhigh hdigits (by omega) (Or.inl (by omega)))
      (Or.inl hexp)
  · rw [hread (by omega)]
    by_cases hnil : q ++ r.frac = []
    · have hmoved := lt_readLoop_moved P hoctal hshort hdigits hx hnil hexp
      refine iff_of_false (Nat.ne_of_gt hmoved) fun h => ?_
      rcases h with h | h | h
      · omega
      · exact h.2 hnil
      · omega
    · have hlt : (t.length : Int) + 1 < r.point := by omega
      exact iff_of_true (readLoop_kept P hoctal hshort hhigh hdigits (by omega) (Or.inr ⟨hnil, hlt⟩))
        (Or.inr (Or.inl ⟨hexp, hnil⟩))

end Leading

/-- **The number that is read in M arithmetic is that of the octal digits, exactly when it is in range and
    its exponent leaves them where they are.** -/
theorem readLoop_text_iff (h : OctalReading p r) :
    (∃ t, r.text = some t ∧ readLoop P 8 t 0 = denoted 8 p) ↔ r.overflows = false ∧ Unmoved p r := by
  by_cases hover : r.overflows = true
  · have hmant : r.mant ≠ 0 := by
      have hboth := hover
      simp only [Reading.overflows, Bool.decide_and, Bool.and_eq_true] at hboth
      exact of_decide_eq_true hboth.1
    have hnone : r.text = none := by rw [Reading.text, if_neg hmant, if_pos hover]
    rw [hnone, hover]
    simp
  have hover : r.overflows = false := by simpa using hover
  rw [and_iff_right hover]
  rcases Nat.eq_zero_or_pos (denoted 8 p) with hp | hp
  · rw [hp]
    exact iff_of_true (readLoop_text_zeros P h hp hover) (Or.inl hp)
  obtain ⟨q, hq, hhigh⟩ := h.whole
  obtain ⟨z, x, t, rfl, hx⟩ : ∃ z x t, p = List.replicate z '0' ++ x :: t ∧ x ≠ '0' := by
    refine zeros_or_leading.resolve_left fun hz => ?_
    have hzero := denoted_zeros 8 p.length []
    rw [List.append_nil, ← hz] at hzero
    rw [hzero] at hp
    exact absurd hp (by decide)
  have hoctal : ∀ ch ∈ x :: t, ch ∈ valbasechar 8 := fun ch hch =>
    h.octal ch (List.mem_append_right _ hch)
  have hlen : r.whole.length = (List.replicate z '0' ++ x :: t).length + q.length := by
    rw [hq, List.length_append]
  have hplen : (List.replicate z '0' ++ x :: t).length = z + (t.length + 1) := by simp
  have hshort : (x :: t).length ≤ 18 := by
    have := h.short
    rw [List.length_cons]
    omega
  have hdigits := h.digits_eq rfl hx hq fun ch hch => (hhigh ch hch).1
  have hpoint := point_eq hdigits
  have hwhole : r.whole ++ r.frac ≠ List.replicate z '0' ++ x :: t ↔ q ++ r.frac ≠ [] := by
    rw [hq, List.append_assoc]
    exact not_congr List.append_right_eq_self
  have hlast : (t.length : Int) + 1 ≤ r.point ↔
      ((List.replicate z '0' ++ x :: t).length : Int) ≤ r.whole.length + r.exp := by omega
  unfold Unmoved
  rw [or_iff_right (Nat.ne_of_gt hp), denoted_zeros,
    readLoop_text_leading P hoctal hshort hhigh hdigits hx h.unsigned hover, hwhole, hlast]

/-- Without an exponent the number is in range. -/
theorem OctalReading.overflows_of_exp (h : OctalReading p r) (hexp : r.exp = 0) :
    r.overflows = false := by
  obtain ⟨q, hq, hhigh⟩ := h.whole
  have hall : ∀ ch ∈ r.whole ++ r.frac, ch.isDigit = true := by
    intro ch hch
    rw [hq, List.append_assoc] at hch
    rcases List.mem_append.1 hch with hch | hch
    · exact isDigit_of_octal (h.octal ch hch)
    · exact (hhigh ch hch).1
  have hlt := ofDigitChars_lt hall 0
  rw [Nat.zero_add, Nat.one_mul] at hlt
  have hlen : r.digits.length ≤ max 1 (r.whole ++ r.frac).length :=
    Nat.toDigits_length 10 r.mant _ (by omega)
      (Nat.lt_of_lt_of_le hlt (Nat.pow_le_pow_right (by decide) (Nat.le_max_right _ _)))
  have hshort := h.short
  have hpoint : r.point = r.digits.length + (r.exp - r.frac.length) := rfl
  rw [List.length_append] at hlen
  have hle : ¬ 47 < r.point := by omega
  simp [Reading.overflows, hle]

end Octal

theorem mem_readFrac {t : Text} {ch : Char} (h : ch ∈ (readFrac t).1) :
    ch ∈ t ∧ ch.isDigit = true := by
  unfold readFrac at h
  split at h
  · exact ⟨List.mem_cons_of_mem _ ((List.takeWhile_sublist _).subset h), List.mem_takeWhile_imp h⟩
  · exact absurd h List.not_mem_nil

/-- What M reads off an octal input of at most 18 characters. -/
theorem Input.octal_reading (o : Input isOctal) (hlen : o.text.length < 19) :
    OctalReading o.digits (readNumber o.text) := by
  have hmem : ∀ ch ∈ o.digits, ch ∈ valbasechar 8 := fun ch hch => by
    have := o.isDigit_digits ch hch
    simpa [isOctal] using this
  have hnot : ∀ ch ∈ o.tail, ch ∉ valbasechar 8 := fun ch hch => by
    have := o.isDigit_tail ch hch
    simpa [isOctal] using this
  have hdigit : ∀ ch ∈ o.digits, ch.isDigit = true := fun ch hch => isDigit_of_octal (hmem ch hch)
  have hhead : ∀ ch, o.text.head? = some ch → isSign ch = false := by
    intro ch hch
    have hoct := o.head_text hch
    exact isSign_of_isDigit (isDigit_of_octal (by simpa [isOctal] using hoct))
  have htake : o.text.takeWhile Char.isDigit = o.digits ++ o.tail.takeWhile Char.isDigit :=
    List.takeWhile_append_of_pos hdigit
  have hdrop : o.text.dropWhile Char.isDigit = o.tail.dropWhile Char.isDigit :=
    List.dropWhile_append_of_pos hdigit
  rw [readNumber_unsigned hhead]
  refine ⟨rfl, hmem, ⟨o.tail.takeWhile Char.isDigit, htake, ?_⟩, ?_⟩
  · intro ch hch
    rcases List.mem_append.1 hch with hch | hch
    · exact ⟨List.mem_takeWhile_imp hch, hnot ch ((List.takeWhile_sublist _).subset hch)⟩
    · have hfrac : ch ∈ (readFrac (o.tail.dropWhile Char.isDigit)).1 := by rwa [← hdrop]
      obtain ⟨hin, hisDigit⟩ := mem_readFrac hfrac
      exact ⟨hisDigit, hnot ch ((List.dropWhile_sublist _).subset hin)⟩
  · show (o.text.takeWhile Char.isDigit).length ≤ 18
    have := (List.takeWhile_sublist Char.isDigit (l := o.text)).length_le
    omega

/-! ## 2. Octal to decimal -/

/-- **Octal to decimal**: right digit by digit, and in M arithmetic as long as an exponent does no
    harm. -/
theorem octtodec_iff (P : Precision) (o : Input isOctal) :
    funcprevocttodec P o.text = some (numeral 10 (denoted 8 o.digits)) ↔
      19 ≤ o.text.length ∨
        ((readNumber o.text).overflows = false ∧ Unmoved o.digits (readNumber o.text)) := by
  have hminus : o.text.take 1 ≠ ['-'] := by
    intro h
    have hhead : o.text.head? = some '-' := by
      cases htext : o.text with
      | nil => rw [htext] at h; exact absurd h (by decide)
      | cons ch t => rw [htext] at h; exact congrArg some (List.cons.inj h).1
    exact absurd (o.head_text hhead) (by decide)
  unfold funcprevocttodec
  rw [if_neg hminus]
  by_cases hlen : o.text.length < 19
  · rw [if_pos hlen, or_iff_right (by omega), ← readLoop_text_iff P (o.octal_reading hlen),
      funcprevocttodecfm, numeral_ten]
    cases (readNumber o.text).text with
    | none => simp
    | some t =>
        show some (Nat.toDigits 10 (readLoop P 8 t 0)) = _ ↔ _
        constructor
        · intro h
          exact ⟨t, rfl, toDigits_inj (Option.some.inj h)⟩
        · intro h
          obtain ⟨u, hu, heq⟩ := h
          rw [Option.some.inj hu, heq]
  · have hmem : ∀ ch ∈ o.digits, ch ∈ valbasechar 8 := fun ch hch =>
      of_decide_eq_true (o.isDigit_digits ch hch)
    have hstop : ∀ ch, o.tail.head? = some ch → ch ∉ valbasechar 8 := fun ch hch =>
      of_decide_eq_false (o.isDigit_tail ch (List.mem_of_head? hch))
    rw [if_neg hlen, Input.text, prevconvertbase_append (by decide) (by decide) hmem hstop]
    exact iff_of_true rfl (Or.inl (Nat.not_lt.1 hlen))

/-! ## 3. Octal to hexadecimal -/

/-- A text of octal digits, in M arithmetic. -/
theorem readLoop_octal (P : Precision) {o : Text} (h : ∀ ch ∈ o, ch ∈ valbasechar 8)
    (hlen : o.length < 19) : ∃ t, (readNumber o).text = some t ∧ readLoop P 8 t 0 = denoted 8 o := by
  have hdigit : ∀ ch ∈ o, ch.isDigit = true := fun ch hch => isDigit_of_octal (h ch hch)
  have hhead : ∀ ch, o.head? = some ch → isSign ch = false := fun ch hch =>
    isSign_of_isDigit (hdigit ch (List.mem_of_head? hch))
  have hread : readNumber o = { neg := false, whole := o, frac := [], exp := 0 } := by
    rw [readNumber_unsigned hhead, readUnsigned_digits false hdigit]
  have hoctal : OctalReading o (readNumber o) := by
    rw [hread]
    exact ⟨rfl, h, ⟨[], (List.append_nil o).symm, fun _ hch => absurd hch List.not_mem_nil⟩, by
      show o.length ≤ 18
      omega⟩
  have hexp : (readNumber o).exp = 0 := by rw [hread]
  exact (readLoop_text_iff P hoctal).2 ⟨hoctal.overflows_of_exp hexp, Or.inr (Or.inl hexp)⟩

/-- **Octal to hexadecimal**: right unless all digits are zeros, more than one and fewer than 19 of
    them. -/
theorem octtohex_iff (P : Precision) {o : Text} (h : ∀ ch ∈ o, ch ∈ valbasechar 8) :
    funcprevocttohex P o = some (numeral 16 (denoted 8 o)) ↔
      denoted 8 o ≠ 0 ∨ o.length = 1 ∨ 19 ≤ o.length := by
  by_cases hnil : o = []
  · have hempty : funcprevocttohex P [] = some [] := rfl
    rw [hnil, hempty]
    exact iff_of_false (by decide) (by decide)
  unfold funcprevocttohex
  by_cases hone : o = ['0']
  · subst hone
    exact iff_of_true rfl (Or.inr (Or.inl rfl))
  rw [if_neg hone]
  have hminus : o.take 1 ≠ ['-'] := by
    intro hm
    have hmem : '-' ∈ o := List.mem_of_mem_take (i := 1) (by rw [hm]; exact List.mem_cons_self)
    exact absurd (h _ hmem) (by decide)
  have hpattern : ¬ ¬ (o ≠ [] ∧ o.all Char.isDigit = true) := fun hn =>
    hn ⟨hnil, List.all_eq_true.2 fun ch hch => isDigit_of_octal (h ch hch)⟩
  have hhigh : ¬ ('8' ∈ o ∨ '9' ∈ o) := by
    intro hm
    rcases hm with hm | hm
    · exact absurd (h _ hm) (by decide)
    · exact absurd (h _ hm) (by decide)
  rw [if_neg hminus, if_neg hpattern, if_neg hhigh]
  by_cases hlen : o.length < 19
  · obtain ⟨t, ht, hread⟩ := readLoop_octal P h hlen
    have hfm : funcprevocttohexfm P o =
        some (quotientLoop 16 (by decide) (fun i => [d i]) (denoted 8 o) []) := by
      rw [funcprevocttohexfm, ht, ← hread]
      rfl
    rw [if_pos hlen, hfm, quotientLoop_numeral (by decide) fun _ _ => rfl, List.append_nil]
    by_cases hzero : denoted 8 o = 0
    · rw [hzero]
      refine iff_of_false (by decide) fun hr => ?_
      rcases hr with hr | hr | hr
      · exact hr rfl
      · obtain ⟨ch, rfl⟩ := List.length_eq_one_iff.1 hr
        have hidx : digitChars.idxOf ch = 0 := by simpa [denoted] using hzero
        rw [(idxOf_eq_zero_iff (List.mem_of_mem_take (h ch List.mem_cons_self))).1 hidx] at hone
        exact hone rfl
      · omega
    · rw [numeral, if_neg hzero]
      exact iff_of_true rfl (Or.inl hzero)
  · rw [if_neg hlen, prevconvertbase_digits (by decide) (by decide) h]
    exact iff_of_true rfl (Or.inr (Or.inr (Nat.not_lt.1 hlen)))

/-! ## 4. The three conversions -/

/-- A text of octal digits. -/
abbrev OctalText := { o : Text // ∀ ch ∈ o, ch ∈ valbasechar 8 }

/-- **Each conversion gives the numeral of the number that the leading digits denote, under the
    conditions here and no others**: no number of 10^47 or more in front, and no digit in lower case in a
    text of 15 characters or more; no exponent that moves the octal digits in one of 18 or fewer; no row of 2 to 18 zeros. -/
theorem conversions_iff (P : Precision) (h : Input isHex) (o : Input isOctal) (z : OctalText) :
    (funcprevhextooct P h.text = some (numeral 8 (denoted 16 (upper h.digits))) ↔
      (leading h.text).overflows = false ∧
        (h.text.length < 15 ∨ ∀ ch ∈ h.digits, isLower ch = false)) ∧
    (funcprevocttodec P o.text = some (numeral 10 (denoted 8 o.digits)) ↔
      19 ≤ o.text.length ∨
        ((readNumber o.text).overflows = false ∧ Unmoved o.digits (readNumber o.text))) ∧
    (funcprevocttohex P z.1 = some (numeral 16 (denoted 8 z.1)) ↔
      denoted 8 z.1 ≠ 0 ∨ z.1.length = 1 ∨ 19 ≤ z.1.length) :=
  ⟨hextooct_iff P h, octtodec_iff P o, octtohex_iff P z.2⟩

/-- Fourteen zeros and a digit in lower case. -/
def lowerInput : Input isHex where
  digits := List.replicate 14 '0' ++ ['a']
  tail := []
  ne_nil := by decide
  isDigit_digits := List.all_eq_true.1 (by decide)
  isDigit_tail := fun _ h => absurd h List.not_mem_nil

/-- A lower-case digit in 15 characters, an exponent, and two zeros: 0 instead of 12, 16777216 instead of
    1, and nothing instead of 0. -/
theorem shortcuts_differ :
    ¬ funcprevhextooct .unrounded lowerInput.text =
      some (numeral 8 (denoted 16 (upper lowerInput.digits))) ∧
    ¬ funcprevocttodec .unrounded ['1', 'E', '8'] = some (numeral 10 (denoted 8 ['1'])) ∧
    ¬ funcprevocttohex .unrounded ['0', '0'] = some (numeral 16 (denoted 8 ['0', '0'])) :=
  ⟨fun h => ((hextooct_iff .unrounded lowerInput).1 h).2.elim (by decide) fun hlower =>
      absurd (hlower 'a' (by decide)) (by decide),
    by decide +kernel, by decide +kernel⟩

end YottaTest.Convbase
