/-
  File:      YottaTest/Lib/Cycle.lean
  Subject:   Multiplicative generators modulo a prime, as a program steps through them.

  A program that visits the residues 1..p-1 in a scattered order keeps one number `x` and
  repeats `x := (x * g) % p`. This file is about such loops and the powers they stand for:

  * `mulMod`, `iterate_mulMod` -- the loop of `n` steps holds `x * g ^ n % p`;
  * `powMod`, `powMod_eq` -- square and multiply, so that a concrete power can be evaluated;
  * `IsGenerator` -- `p` is prime and the powers of `g` run through a cycle of length `p - 1`;
    `isGenerator_of_factors` decides it from the prime factors of `p - 1`;
  * `IsGenerator.pow_inj`, `IsGenerator.pow_pos`, `IsGenerator.pow_cycle` -- below the cycle
    length no two exponents meet, no power is 0, and at the cycle length the powers restart;
  * `IsGenerator.exists_pow` -- every residue but 0 is a power;
  * `isGenerator_of_prod` -- the test from a factorisation of `p - 1`.
-/
import Mathlib.NumberTheory.LucasPrimality
import Mathlib.GroupTheory.OrderOfElement

namespace YottaTest.Lib

/-! ## 1. The loop and the power it holds -/

/-- One step of the loop: the index times the stride, reduced. -/
def mulMod (p g x : Nat) : Nat := x * g % p

/-- **`n` steps of the loop hold `x * g ^ n`**, for a start that is already reduced. -/
theorem iterate_mulMod {p x : Nat} (g : Nat) (hx : x < p) :
    ∀ n : Nat, (mulMod p g)^[n] x = x * g ^ n % p
  | 0 => by simp [Nat.mod_eq_of_lt hx]
  | n + 1 => by
      rw [Function.iterate_succ_apply', iterate_mulMod g hx n]
      unfold mulMod
      rw [Nat.mod_mul_mod, Nat.mul_assoc, ← pow_succ]

/-- A stride that is itself only known modulo `p` gives the same loop. -/
theorem mulMod_stride (p g x : Nat) : mulMod p (g % p) x = mulMod p g x := by
  unfold mulMod
  rw [Nat.mul_mod_mod]

/-! ## 2. Evaluating a power -/

/-- `acc * a ^ n % p` by square and multiply over the low `bits` bits of `n`. -/
def powMod (p : Nat) : Nat → Nat → Nat → Nat → Nat
  | 0, _, _, acc => acc % p
  | bits + 1, a, n, acc =>
      powMod p bits (a * a % p) (n / 2) (if n % 2 = 1 then acc * a % p else acc)

theorem powMod_eq (p : Nat) : ∀ (bits a n acc : Nat), n < 2 ^ bits →
    powMod p bits a n acc = acc * a ^ n % p
  | 0, a, n, acc, h => by
      have hn : n = 0 := by simpa using h
      simp [powMod, hn]
  | bits + 1, a, n, acc, h => by
      have hlt : n / 2 < 2 ^ bits := by rw [pow_succ] at h; omega
      have hsq : (a * a % p) ^ (n / 2) ≡ a ^ (2 * (n / 2)) [MOD p] := by
        rw [pow_mul, sq]
        exact (Nat.mod_modEq _ _).pow _
      have hacc : (if n % 2 = 1 then acc * a % p else acc) ≡ acc * a ^ (n % 2) [MOD p] := by
        rcases Nat.mod_two_eq_zero_or_one n with h2 | h2
        · simp only [h2, Nat.zero_ne_one, if_false, pow_zero, mul_one]
          exact Nat.ModEq.refl _
        · simp only [h2, if_true, pow_one]
          exact Nat.mod_modEq _ _
      calc powMod p (bits + 1) a n acc
          = (if n % 2 = 1 then acc * a % p else acc) * (a * a % p) ^ (n / 2) % p :=
            powMod_eq p bits _ _ _ hlt
        _ = acc * a ^ (n % 2) * a ^ (2 * (n / 2)) % p := hacc.mul hsq
        _ = acc * a ^ n % p := by
            rw [Nat.mul_assoc, ← pow_add, Nat.mod_add_div]

/-! ## 3. Generators -/

/-- `g` generates the residues modulo the prime `p`: its powers first return to 1 after
    `p - 1` steps. -/
structure IsGenerator (p g : Nat) : Prop where
  prime : p.Prime
  order : orderOf (g : ZMod p) = p - 1

/-- A power in `ZMod p` is 1 exactly when its residue is. -/
theorem zmod_pow_eq_one {p : Nat} (hp : 2 ≤ p) (g n : Nat) :
    (g : ZMod p) ^ n = 1 ↔ g ^ n % p = 1 := by
  rw [← Nat.cast_pow, ← Nat.cast_one, ZMod.natCast_eq_natCast_iff', Nat.mod_eq_of_lt hp]

/-- **Lucas's test, with the order it yields**: if `g ^ (p - 1)` is 1 and no `g ^ ((p - 1) / q)`
    is, for the prime factors `q` of `p - 1`, then `p` is prime and `g` generates. -/
theorem isGenerator_of_factors {p g : Nat} (hp : 2 ≤ p) (qs : List Nat)
    (hqs : ∀ q, q.Prime → q ∣ p - 1 → q ∈ qs) (hone : g ^ (p - 1) % p = 1)
    (hne : ∀ q ∈ qs, g ^ ((p - 1) / q) % p ≠ 1) : IsGenerator p g := by
  have h1 : (g : ZMod p) ^ (p - 1) = 1 := (zmod_pow_eq_one hp g _).2 hone
  have h2 : ∀ q, q.Prime → q ∣ p - 1 → (g : ZMod p) ^ ((p - 1) / q) ≠ 1 := by
    intro q hq hd he
    exact hne q (hqs q hq hd) ((zmod_pow_eq_one hp g _).1 he)
  exact ⟨lucas_primality p g h1 h2,
    orderOf_eq_of_pow_and_pow_div_prime (by omega) h1 h2⟩

namespace IsGenerator

variable {p g : Nat}

/-- The generator is a unit: no power of it is 0. -/
theorem pow_pos (h : IsGenerator p g) (n : Nat) : 0 < g ^ n % p := by
  have hp := h.prime
  have hp2 := hp.two_le
  have : Fact p.Prime := ⟨hp⟩
  have hone : (g : ZMod p) ^ (p - 1) = 1 := by rw [← h.order]; exact pow_orderOf_eq_one _
  have hg : (g : ZMod p) ≠ 0 := by
    intro h0
    rw [h0, zero_pow (by omega)] at hone
    exact zero_ne_one hone
  have hn : ((g ^ n : Nat) : ZMod p) ≠ 0 := by
    rw [Nat.cast_pow]
    exact pow_ne_zero n hg
  rw [Ne, ZMod.natCast_eq_zero_iff] at hn
  exact Nat.pos_of_ne_zero fun h0 => hn (Nat.dvd_of_mod_eq_zero h0)

theorem pow_lt (h : IsGenerator p g) (n : Nat) : g ^ n % p < p :=
  Nat.mod_lt _ h.prime.pos

/-- **Below the cycle length the powers are distinct.** -/
theorem pow_inj (h : IsGenerator p g) {a b : Nat} (ha : a < p - 1) (hb : b < p - 1)
    (hab : g ^ a % p = g ^ b % p) : a = b := by
  have hz : (g : ZMod p) ^ a = (g : ZMod p) ^ b := by
    rw [← Nat.cast_pow, ← Nat.cast_pow, ZMod.natCast_eq_natCast_iff']
    exact hab
  refine pow_injOn_Iio_orderOf ?_ ?_ hz
  · rw [h.order]; exact ha
  · rw [h.order]; exact hb

/-- At the cycle length the powers start over. -/
theorem pow_cycle (h : IsGenerator p g) (n : Nat) : g ^ (n + (p - 1)) % p = g ^ n % p := by
  have hone : (g : ZMod p) ^ (p - 1) = 1 := by rw [← h.order]; exact pow_orderOf_eq_one _
  have h1 : g ^ (p - 1) ≡ 1 [MOD p] := by
    have := (zmod_pow_eq_one h.prime.two_le g (p - 1)).1 hone
    rw [Nat.ModEq, this, Nat.mod_eq_of_lt h.prime.one_lt]
  have := (Nat.ModEq.refl (g ^ n) : g ^ n ≡ g ^ n [MOD p]).mul h1
  rwa [← pow_add, Nat.mul_one] at this

/-- **The powers below the cycle length are all residues but 0.** -/
theorem exists_pow (h : IsGenerator p g) {m : Nat} (hpos : 0 < m) (hlt : m < p) :
    ∃ n < p - 1, g ^ n % p = m := by
  have hmaps : ∀ n ∈ Finset.range (p - 1), g ^ n % p ∈ Finset.Ico 1 p := fun n _ =>
    Finset.mem_Ico.mpr ⟨h.pow_pos n, h.pow_lt n⟩
  have hinj : ∀ a ∈ Finset.range (p - 1), ∀ b ∈ Finset.range (p - 1),
      g ^ a % p = g ^ b % p → a = b := fun a ha b hb =>
    h.pow_inj (Finset.mem_range.mp ha) (Finset.mem_range.mp hb)
  have hcard : (Finset.Ico 1 p).card ≤ (Finset.range (p - 1)).card := by simp
  obtain ⟨n, hn, hm⟩ := Finset.surj_on_of_inj_on_of_card_le (fun n _ => g ^ n % p) hmaps
    (fun a b ha hb => hinj a ha b hb) hcard m (Finset.mem_Ico.mpr ⟨hpos, hlt⟩)
  exact ⟨n, Finset.mem_range.mp hn, hm.symm⟩

end IsGenerator

/-- Lucas's test from a factorisation of `p - 1`, with powers that evaluate. -/
theorem isGenerator_of_prod {p g : Nat} (bits : Nat) (qs : List Nat) (hp : 2 ≤ p)
    (hbits : p ≤ 2 ^ bits) (hprime : ∀ q ∈ qs, q.Prime) (hprod : qs.prod = p - 1)
    (hone : powMod p bits g (p - 1) 1 = 1)
    (hne : ∀ q ∈ qs, powMod p bits g ((p - 1) / q) 1 ≠ 1) : IsGenerator p g := by
  have hpow {n : Nat} (hn : n < p) : powMod p bits g n 1 = g ^ n % p := by
    rw [powMod_eq p bits g n 1 (Nat.lt_of_lt_of_le hn hbits), Nat.one_mul]
  refine isGenerator_of_factors hp qs (fun q hq hdvd => ?_) ?_ fun q hq => ?_
  · rw [← hprod] at hdvd
    obtain ⟨q', hq', hdvd⟩ := (Nat.Prime.prime hq).dvd_prod_iff.mp hdvd
    rwa [(Nat.prime_dvd_prime_iff_eq hq (hprime q' hq')).mp hdvd]
  · rw [← hpow (by omega)]
    exact hone
  · rw [← hpow (Nat.lt_of_le_of_lt (Nat.div_le_self _ _) (by omega))]
    exact hne q hq

end YottaTest.Lib
