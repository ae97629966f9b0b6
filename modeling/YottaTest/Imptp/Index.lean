/-
  File:      YottaTest/Imptp/Index.lean
  Subject:   The subscript `I` of imptp: which node an iteration of a job works on.

  Job `jobno` of `jobcnt` jobs starts at `root^(jobno-1)` modulo `prime` and multiplies by
  `nroot = root^jobcnt` after each iteration; a restart at `^lasti` recomputes the index with
  loops of its own, and checkdb recomputes it once more. The same computation stands in the M,
  C, Go and Rust workers with different integer types.

  * `nroot`, `firstI`, `restartI`, `nextI`, `usedI` -- the M worker's loops, over `Nat`;
  * `usedI_eq` -- iteration `loop` of job `jobno` uses `root ^ exponent jobcnt jobno loop`;
  * `restartI_eq_usedI` -- a restart lands on the index the uninterrupted run would use;
  * `usedI_inj` -- indices are distinct while the exponents stay below the cycle length, and
    `indexMap_injective_iff` -- over 1..top that is so except for 1 job or `prime` jobs;
  * `IndexWorker`, `IndexRun`, `indexRun_eq` -- the four workers with their products checked
    against the type they are formed in: none wraps, and all agree with checkdb.
-/
import Mathlib.Tactic.NormNum.Prime
import YottaTest.Lib.Cycle

namespace YottaTest.Imptp

open YottaTest.Lib

/-! ## 1. The M worker's index -/

/-- `^%imptp(fillid,"prime")`. -/
def prime : Nat := 50000017

/-- `^%imptp(fillid,"root")`. -/
def root : Nat := 5

/-- `set nroot=1  for J=1:1:jobcnt set nroot=(nroot*root)#prime`. -/
def nroot (jobcnt : Nat) : Nat := (mulMod prime root)^[jobcnt] 1

/-- `set I=1  for J=2:1:jobno  set I=(I*root)#prime`. -/
def firstI (jobno : Nat) : Nat := (mulMod prime root)^[jobno - 1] 1

/-- `for J=1:1:lasti  set I=(I*nroot)#prime`: the index a job started at `lasti` begins with. -/
def restartI (jobcnt jobno lasti : Nat) : Nat :=
  (mulMod prime (nroot jobcnt))^[lasti] (firstI jobno)

/-- `set I=(I*nroot)#prime` at the end of an iteration. -/
def nextI (jobcnt I : Nat) : Nat := mulMod prime (nroot jobcnt) I

/-- The index iteration `loop` uses in a run that starts at `lasti = 0` and is never stopped. -/
def usedI (jobcnt jobno loop : Nat) : Nat := (nextI jobcnt)^[loop - 1] (restartI jobcnt jobno 0)

/-- `set top=+$GET(^%imptp(fillid,"top"))  if top=0 set top=prime\jobcnt`. -/
def top (preset jobcnt : Nat) : Nat := if preset = 0 then prime / jobcnt else preset

/-- checkdb: `ival` starts at 1 and is multiplied by `root` after each job. -/
def checkdbIval (jobno : Nat) : Nat := (mulMod prime root)^[jobno - 1] 1

/-- checkdb: `I` starts at `ival` and is multiplied by `nroot` after each loop. -/
def checkdbI (jobcnt jobno loop : Nat) : Nat :=
  (mulMod prime (nroot jobcnt))^[loop - 1] (checkdbIval jobno)

/-! ## 2. The index as a power of the root -/

/-- The power of `root` that iteration `loop` of job `jobno` stands on. -/
def exponent (jobcnt jobno loop : Nat) : Nat := (jobno - 1) + jobcnt * (loop - 1)

theorem one_lt_prime : 1 < prime := by decide

theorem nroot_eq (jobcnt : Nat) : nroot jobcnt = root ^ jobcnt % prime := by
  rw [nroot, iterate_mulMod root one_lt_prime, Nat.one_mul]

theorem firstI_eq (jobno : Nat) : firstI jobno = root ^ (jobno - 1) % prime := by
  rw [firstI, iterate_mulMod root one_lt_prime, Nat.one_mul]

/-- Any number of strides from the job's first index. -/
theorem iterate_nroot_firstI (jobcnt jobno n : Nat) :
    (mulMod prime (nroot jobcnt))^[n] (firstI jobno)
      = root ^ ((jobno - 1) + jobcnt * n) % prime := by
  have hstride : mulMod prime (nroot jobcnt) = mulMod prime (root ^ jobcnt) := by
    funext x
    rw [nroot_eq, mulMod_stride]
  have hlt : firstI jobno < prime := by
    rw [firstI_eq]
    exact Nat.mod_lt _ (by decide)
  rw [hstride, iterate_mulMod _ hlt, firstI_eq, Nat.mod_mul_mod, ← pow_mul, ← pow_add]

/-- **Iteration `loop` works on a known power of the root.** -/
theorem usedI_eq (jobcnt jobno loop : Nat) :
    usedI jobcnt jobno loop = root ^ exponent jobcnt jobno loop % prime :=
  iterate_nroot_firstI jobcnt jobno (loop - 1)

/-- **A restart at `lasti` begins with the index of iteration `lasti + 1`.** -/
theorem restartI_eq_usedI (jobcnt jobno lasti : Nat) :
    restartI jobcnt jobno lasti = usedI jobcnt jobno (lasti + 1) := by
  rw [usedI_eq, restartI, iterate_nroot_firstI]
  rfl

theorem nextI_usedI (jobcnt jobno : Nat) {loop : Nat} (h : 1 ≤ loop) :
    nextI jobcnt (usedI jobcnt jobno loop) = usedI jobcnt jobno (loop + 1) := by
  obtain ⟨n, rfl⟩ := Nat.exists_eq_add_of_le' h
  simp only [usedI, Nat.add_sub_cancel]
  exact (Function.iterate_succ_apply' (nextI jobcnt) n _).symm

theorem checkdbI_eq_usedI (jobcnt jobno loop : Nat) :
    checkdbI jobcnt jobno loop = usedI jobcnt jobno loop := rfl

/-! ## 3. The root is primitive -/

/-- The prime factors of `prime - 1`. -/
theorem prime_factors_of_pred {q : Nat} (hq : q.Prime) (hd : q ∣ prime - 1) :
    q ∈ [2, 3, 11, 281, 337] := by
  have hfac : prime - 1 = 2 ^ 4 * (3 * (11 * (281 * 337))) := by decide
  rw [hfac] at hd
  have h3 : Nat.Prime 3 := by norm_num
  have h11 : Nat.Prime 11 := by norm_num
  have h281 : Nat.Prime 281 := by norm_num
  have h337 : Nat.Prime 337 := by norm_num
  simp only [List.mem_cons, List.not_mem_nil, or_false]
  rcases (Nat.Prime.dvd_mul hq).1 hd with h | h
  · exact Or.inl ((Nat.prime_dvd_prime_iff_eq hq Nat.prime_two).1 (hq.dvd_of_dvd_pow h))
  · rcases (Nat.Prime.dvd_mul hq).1 h with h | h
    · exact Or.inr (Or.inl ((Nat.prime_dvd_prime_iff_eq hq h3).1 h))
    · rcases (Nat.Prime.dvd_mul hq).1 h with h | h
      · exact Or.inr (Or.inr (Or.inl ((Nat.prime_dvd_prime_iff_eq hq h11).1 h)))
      · rcases (Nat.Prime.dvd_mul hq).1 h with h | h
        · exact Or.inr (Or.inr (Or.inr (Or.inl ((Nat.prime_dvd_prime_iff_eq hq h281).1 h))))
        · exact Or.inr (Or.inr (Or.inr (Or.inr ((Nat.prime_dvd_prime_iff_eq hq h337).1 h))))

/-- **5 is a primitive root modulo 50000017**, the set-up's "precalculated" pair. -/
theorem root_isGenerator : IsGenerator prime root := by
  have hpow : ∀ n, n < 2 ^ 26 → root ^ n % prime = powMod prime 26 root n 1 := by
    intro n hn
    rw [powMod_eq prime 26 root n 1 hn, Nat.one_mul]
  refine isGenerator_of_factors (by decide) [2, 3, 11, 281, 337]
    (fun q hq hd => prime_factors_of_pred hq hd) ?_ ?_
  · rw [hpow _ (by decide)]
    decide
  · intro q hq
    rw [hpow _ (lt_of_le_of_lt (Nat.div_le_self _ _) (by decide))]
    revert q
    decide

/-! ## 4. Distinct iterations, distinct indices -/

/-- A job number and a loop number can be read off the exponent. -/
theorem exponent_inj {jobcnt j l j' l' : Nat} (hj : 1 ≤ j ∧ j ≤ jobcnt) (hl : 1 ≤ l)
    (hj' : 1 ≤ j' ∧ j' ≤ jobcnt) (hl' : 1 ≤ l')
    (h : exponent jobcnt j l = exponent jobcnt j' l') : j = j' ∧ l = l' := by
  obtain ⟨a, rfl⟩ := Nat.exists_eq_add_of_le' hj.1
  obtain ⟨b, rfl⟩ := Nat.exists_eq_add_of_le' hl
  obtain ⟨a', rfl⟩ := Nat.exists_eq_add_of_le' hj'.1
  obtain ⟨b', rfl⟩ := Nat.exists_eq_add_of_le' hl'
  simp only [exponent, Nat.add_sub_cancel] at h
  have hmod : (a + jobcnt * b) % jobcnt = (a' + jobcnt * b') % jobcnt := by rw [h]
  rw [Nat.add_mul_mod_self_left, Nat.add_mul_mod_self_left, Nat.mod_eq_of_lt (by omega),
    Nat.mod_eq_of_lt (by omega)] at hmod
  subst hmod
  have hb : b = b' := Nat.eq_of_mul_eq_mul_left (by omega) (Nat.add_left_cancel h)
  exact ⟨rfl, by rw [hb]⟩

/-- **Two iterations below the cycle length work on different indices.** -/
theorem usedI_inj {jobcnt j l j' l' : Nat} (hj : 1 ≤ j ∧ j ≤ jobcnt) (hl : 1 ≤ l)
    (hj' : 1 ≤ j' ∧ j' ≤ jobcnt) (hl' : 1 ≤ l')
    (hlt : exponent jobcnt j l < prime - 1) (hlt' : exponent jobcnt j' l' < prime - 1)
    (h : usedI jobcnt j l = usedI jobcnt j' l') : j = j' ∧ l = l' := by
  rw [usedI_eq, usedI_eq] at h
  exact exponent_inj hj hl hj' hl' (root_isGenerator.pow_inj hlt hlt' h)

theorem usedI_pos (jobcnt jobno loop : Nat) : 0 < usedI jobcnt jobno loop := by
  rw [usedI_eq]
  exact root_isGenerator.pow_pos _

theorem usedI_lt (jobcnt jobno loop : Nat) : usedI jobcnt jobno loop < prime := by
  rw [usedI_eq]
  exact root_isGenerator.pow_lt _

/-- The last iteration of the last job stands on exponent `jobcnt * top - 1`. -/
theorem exponent_lt_mul_top {jobcnt j l : Nat} (hj : 1 ≤ j ∧ j ≤ jobcnt)
    (hl : 1 ≤ l ∧ l ≤ top 0 jobcnt) : exponent jobcnt j l < jobcnt * top 0 jobcnt := by
  have h1 : exponent jobcnt j l < jobcnt * l := by
    obtain ⟨b, rfl⟩ := Nat.exists_eq_add_of_le' hl.1
    simp only [exponent, Nat.add_sub_cancel, Nat.mul_add, Nat.mul_one]
    omega
  exact lt_of_lt_of_le h1 (Nat.mul_le_mul_left _ hl.2)

/-- Unless `jobcnt` divides the prime, the jobs together stay below the cycle length. -/
theorem mul_top_le {jobcnt : Nat} (h1 : jobcnt ≠ 1) (hp : jobcnt ≠ prime) :
    jobcnt * top 0 jobcnt ≤ prime - 1 := by
  have hle : jobcnt * top 0 jobcnt ≤ prime := by
    rw [top, if_pos rfl]
    exact Nat.mul_div_le _ _
  have hne : jobcnt * top 0 jobcnt ≠ prime := by
    intro he
    rcases (Nat.dvd_prime root_isGenerator.prime).1 (Dvd.intro _ he) with h | h
    · exact h1 h
    · exact hp h
  omega

/-- What is asked of the index over the iterations 1..top of the jobs 1..jobcnt: no two pairs
    share one, and each lies in 1..prime-1. -/
structure IndexMapInjective (jobcnt : Nat) : Prop where
  inj : ∀ j l j' l', (1 ≤ j ∧ j ≤ jobcnt) → (1 ≤ l ∧ l ≤ top 0 jobcnt) →
    (1 ≤ j' ∧ j' ≤ jobcnt) → (1 ≤ l' ∧ l' ≤ top 0 jobcnt) →
    usedI jobcnt j l = usedI jobcnt j' l' → j = j' ∧ l = l'
  range : ∀ j l, (1 ≤ j ∧ j ≤ jobcnt) → (1 ≤ l ∧ l ≤ top 0 jobcnt) →
    1 ≤ usedI jobcnt j l ∧ usedI jobcnt j l ≤ prime - 1

/-- Two iterations a whole cycle apart use one index. -/
theorem usedI_cycle {jobcnt j l j' l' : Nat}
    (h : exponent jobcnt j' l' = exponent jobcnt j l + (prime - 1)) :
    usedI jobcnt j' l' = usedI jobcnt j l := by
  rw [usedI_eq, usedI_eq, h, root_isGenerator.pow_cycle]

/-- **The index map is injective exactly when `jobcnt` does not divide the prime.** With one job
    `top` is `prime`, one more than the cycle has elements; with `prime` jobs the last job starts
    where the first did. -/
theorem indexMap_injective_iff (jobcnt : Nat) :
    IndexMapInjective jobcnt ↔ jobcnt ≠ 1 ∧ jobcnt ≠ prime := by
  constructor
  · intro h
    constructor
    · rintro rfl
      have htop : prime ≤ top 0 1 := by decide
      have := h.inj 1 prime 1 1 (by decide) ⟨by decide, htop⟩ (by decide) (by decide)
        (usedI_cycle (by decide))
      exact absurd this.2 (by decide)
    · rintro rfl
      have := h.inj prime 1 1 1 (by decide) (by decide) (by decide) (by decide)
        (usedI_cycle (by decide))
      exact absurd this.1 (by decide)
  · rintro ⟨h1, hp⟩
    have hle := mul_top_le h1 hp
    refine ⟨fun j l j' l' hj hl hj' hl' h => ?_, fun j l _ _ => ?_⟩
    · exact usedI_inj hj hl.1 hj' hl'.1 (lt_of_lt_of_le (exponent_lt_mul_top hj hl) hle)
        (lt_of_lt_of_le (exponent_lt_mul_top hj' hl') hle) h
    · exact ⟨usedI_pos jobcnt j l, Nat.le_sub_one_of_lt (usedI_lt jobcnt j l)⟩

/-- One job reuses the index of its first iteration in its last one, number `prime`. -/
theorem indexMap_not_injective_single :
    usedI 1 1 prime = usedI 1 1 1 ∧ prime ≤ top 0 1 ∧ ¬ IndexMapInjective 1 := by
  refine ⟨usedI_cycle (by decide), by decide, fun h => ?_⟩
  have := h.inj 1 prime 1 1 (by decide) ⟨by decide, by decide⟩ (by decide) (by decide)
    (usedI_cycle (by decide))
  exact absurd this.2 (by decide)

/-! ## 5. The four workers and their integer types -/

/-- The numbers an integer type of a worker holds exactly. -/
structure IntType where
  lo : Int
  hi : Int

/-- A number stored in a type: `none` when it would wrap (or, in M, lose digits). -/
def IntType.fit (t : IntType) (x : Int) : Option Int :=
  if t.lo ≤ x ∧ x ≤ t.hi then some x else none

theorem IntType.fit_eq {t : IntType} {x : Int} (hlo : t.lo ≤ x) (hhi : x ≤ t.hi) :
    t.fit x = some x := by
  rw [IntType.fit, if_pos ⟨hlo, hhi⟩]

/-- `int` in C, `int32` in Go. -/
def int32 : IntType := ⟨-2 ^ 31, 2 ^ 31 - 1⟩

/-- `int64` in Go, `i64` in Rust. -/
def int64 : IntType := ⟨-2 ^ 63, 2 ^ 63 - 1⟩

/-- `unsigned long long` in C. -/
def uint64 : IntType := ⟨0, 2 ^ 64 - 1⟩

/-- M arithmetic is exact on 18 decimal digits. -/
def mNumber : IntType := ⟨-(10 ^ 18 - 1), 10 ^ 18 - 1⟩

/-- What a worker's index arithmetic depends on: the remainder operator, the type the products
    for `nroot` and for `I` are formed in, and the type the result is stored in. -/
structure IndexWorker where
  rem : Int → Int → Int
  nrootType : IntType
  productType : IntType
  store : IntType

/-- `imptp.m`: `#` takes the sign of the divisor. checkdb computes in the same arithmetic. -/
def mWorker : IndexWorker := ⟨Int.fmod, mNumber, mNumber, mNumber⟩

/-- `simpleapi_imptp.c`: `nroot = (nroot * root) % prime` and
    `I = ((unsigned long long)I * nroot) % prime`, all variables `int`. -/
def cWorker : IndexWorker := ⟨Int.tmod, int32, uint64, int32⟩

/-- `impjobgo.go`: `nroot = (nroot * root) % prime` and
    `shr.I = int32((int64(shr.I) * int64(nroot)) % int64(prime))`. -/
def goWorker : IndexWorker := ⟨Int.tmod, int32, int64, int32⟩

/-- `imptpjob.rs`: everything is `i64`. -/
def rustWorker : IndexWorker := ⟨Int.tmod, int64, int64, int64⟩

def workers : List IndexWorker := [mWorker, cWorker, goWorker, rustWorker]

namespace IndexWorker

/-- `(x * y) % prime`: operands and product in the type `t`, the result stored. -/
def mulRem (w : IndexWorker) (t : IntType) (x y : Int) : Option Int := do
  let a ← t.fit x
  let b ← t.fit y
  let c ← t.fit (a * b)
  w.store.fit (w.rem c prime)

def nroot (w : IndexWorker) (jobcnt : Nat) : Option Int :=
  (fun n => n.bind fun n => w.mulRem w.nrootType n root)^[jobcnt] (some 1)

def firstI (w : IndexWorker) (jobno : Nat) : Option Int :=
  (fun I => I.bind fun I => w.mulRem w.productType I root)^[jobno - 1] (some 1)

/-- One stride of the index: `I` times `nroot`. -/
def nextI (w : IndexWorker) (jobcnt : Nat) (I : Option Int) : Option Int := do
  let n ← w.nroot jobcnt
  let I ← I
  w.mulRem w.productType I n

def restartI (w : IndexWorker) (jobcnt jobno lasti : Nat) : Option Int :=
  (w.nextI jobcnt)^[lasti] (w.firstI jobno)

end IndexWorker

/-- The index a worker's job holds before iteration `loop`, over a life of the job in which it
    is stopped or crashes any number of times and is restarted at whatever `^lasti` then is. -/
inductive IndexRun (w : IndexWorker) (jobcnt jobno : Nat) : Nat → Option Int → Prop where
  | start : IndexRun w jobcnt jobno 1 (w.restartI jobcnt jobno 0)
  | next {loop I} : IndexRun w jobcnt jobno loop I →
      IndexRun w jobcnt jobno (loop + 1) (w.nextI jobcnt I)
  | restart {loop I} (lasti : Nat) : IndexRun w jobcnt jobno loop I →
      IndexRun w jobcnt jobno (lasti + 1) (w.restartI jobcnt jobno lasti)

/-- The types of a worker hold every number its index arithmetic forms. -/
structure IndexWorker.Wide (w : IndexWorker) : Prop where
  rem_eq : ∀ c : Nat, w.rem c prime = ((c % prime : Nat) : Int)
  nroot_lo : w.nrootType.lo ≤ 0
  nroot_hi : (prime * root : Int) ≤ w.nrootType.hi
  product_lo : w.productType.lo ≤ 0
  product_hi : (prime * prime : Int) ≤ w.productType.hi
  store_lo : w.store.lo ≤ 0
  store_hi : (prime : Int) ≤ w.store.hi

theorem workers_wide : ∀ w ∈ workers, w.Wide := by
  have hf : ∀ c : Nat, Int.fmod c prime = ((c % prime : Nat) : Int) := fun c =>
    Int.fmod_eq_emod_of_nonneg _ (by decide)
  have ht : ∀ c : Nat, Int.tmod c prime = ((c % prime : Nat) : Int) := fun c =>
    Int.tmod_eq_emod_of_nonneg (Int.natCast_nonneg c)
  intro w hw
  simp only [workers, List.mem_cons, List.not_mem_nil, or_false] at hw
  rcases hw with rfl | rfl | rfl | rfl
  · exact ⟨hf, by decide, by decide, by decide, by decide, by decide, by decide⟩
  all_goals exact ⟨ht, by decide, by decide, by decide, by decide, by decide, by decide⟩

section Wide

variable {w : IndexWorker}

/-- In a wide enough type a reduced number times a factor is the M worker's step. -/
theorem mulRem_eq (hw : w.Wide) {t : IntType} {x y b : Nat} (hlo : t.lo ≤ 0)
    (hhi : (prime * b : Int) ≤ t.hi) (hb : 1 ≤ b) (hx : x < prime) (hy : y ≤ b)
    (hyp : y ≤ prime) : w.mulRem t x y = some ((mulMod prime y x : Nat) : Int) := by
  have hxy : x * y ≤ prime * b := Nat.mul_le_mul hx.le hy
  have hprime : prime ≤ prime * b := Nat.le_mul_of_pos_right _ hb
  have hmod : x * y % prime < prime := Nat.mod_lt _ (by decide)
  have hhi' : ((prime * b : Nat) : Int) ≤ t.hi := by exact_mod_cast hhi
  have fit : ∀ n : Nat, n ≤ prime * b → t.fit n = some (n : Int) := fun n hn =>
    IntType.fit_eq (le_trans hlo (Int.natCast_nonneg n))
      (le_trans (Int.ofNat_le.2 hn) hhi')
  have hc : t.fit ((x : Int) * (y : Int)) = some ((x * y : Nat) : Int) := by
    rw [← Int.natCast_mul]
    exact fit _ hxy
  simp only [IndexWorker.mulRem, fit x (hx.le.trans hprime), fit y (hyp.trans hprime),
    Option.bind_eq_bind, Option.bind_some, hc, hw.rem_eq]
  exact IntType.fit_eq (le_trans hw.store_lo (Int.natCast_nonneg _))
    (le_trans (Int.ofNat_le.2 hmod.le) hw.store_hi)

/-- A loop of steps that never leave the residues stays inside the type all along. -/
theorem iterate_bind_eq {f : Int → Option Int} {g : Nat}
    (hf : ∀ x : Nat, x < prime → f x = some ((mulMod prime g x : Nat) : Int))
    {x : Nat} (hx : x < prime) :
    ∀ n : Nat, (fun I : Option Int => I.bind f)^[n] (some (x : Int))
      = some (((mulMod prime g)^[n] x : Nat) : Int)
  | 0 => rfl
  | n + 1 => by
      have hlt : (mulMod prime g)^[n] x < prime := by
        rw [iterate_mulMod g hx n]
        exact Nat.mod_lt _ (by decide)
      rw [Function.iterate_succ_apply', Function.iterate_succ_apply',
        iterate_bind_eq hf hx n, Option.bind_some, hf _ hlt]

theorem nroot_lt (jobcnt : Nat) : nroot jobcnt < prime := by
  rw [nroot_eq]
  exact Nat.mod_lt _ (by decide)

theorem worker_nroot_eq (hw : w.Wide) (jobcnt : Nat) :
    w.nroot jobcnt = some (nroot jobcnt : Int) :=
  iterate_bind_eq (fun _ hx => mulRem_eq hw hw.nroot_lo hw.nroot_hi (by decide) hx
    (Nat.le_refl root) (by decide)) one_lt_prime jobcnt

theorem worker_firstI_eq (hw : w.Wide) (jobno : Nat) :
    w.firstI jobno = some (firstI jobno : Int) :=
  iterate_bind_eq (fun _ hx => mulRem_eq hw hw.product_lo hw.product_hi (by decide) hx
    (by decide) (by decide)) one_lt_prime (jobno - 1)

theorem worker_nextI_fun (hw : w.Wide) (jobcnt : Nat) :
    w.nextI jobcnt = fun I : Option Int =>
      I.bind fun I => w.mulRem w.productType I (nroot jobcnt) := by
  funext I
  simp only [IndexWorker.nextI, worker_nroot_eq hw, Option.bind_eq_bind, Option.bind_some]

theorem worker_step_eq (hw : w.Wide) (jobcnt x : Nat) (hx : x < prime) :
    w.mulRem w.productType x (nroot jobcnt) = some ((nextI jobcnt x : Nat) : Int) :=
  mulRem_eq hw hw.product_lo hw.product_hi (by decide) hx (nroot_lt jobcnt).le
    (nroot_lt jobcnt).le

theorem worker_nextI_eq (hw : w.Wide) (jobcnt x : Nat) (hx : x < prime) :
    w.nextI jobcnt (some (x : Int)) = some ((nextI jobcnt x : Nat) : Int) := by
  rw [worker_nextI_fun hw]
  exact worker_step_eq hw jobcnt x hx

theorem worker_restartI_eq (hw : w.Wide) (jobcnt jobno lasti : Nat) :
    w.restartI jobcnt jobno lasti = some ((usedI jobcnt jobno (lasti + 1) : Nat) : Int) := by
  have hlt : firstI jobno < prime := by
    rw [firstI_eq]
    exact Nat.mod_lt _ (by decide)
  rw [IndexWorker.restartI, worker_firstI_eq hw, worker_nextI_fun hw,
    iterate_bind_eq (worker_step_eq hw jobcnt) hlt, ← restartI_eq_usedI]
  rfl

end Wide

theorem indexRun_loop_pos {w : IndexWorker} {jobcnt jobno loop : Nat} {I : Option Int}
    (h : IndexRun w jobcnt jobno loop I) : 1 ≤ loop := by
  cases h <;> omega

/-- **Every worker, restarted any number of times, uses the same index in iteration `loop`**: the
    one of the uninterrupted M run and of checkdb, with no product leaving its type. -/
theorem indexRun_eq (w : IndexWorker) (hw : w ∈ workers) (jobcnt jobno loop : Nat)
    (I : Option Int) (h : IndexRun w jobcnt jobno loop I) :
    I = some (usedI jobcnt jobno loop : Int) ∧
      checkdbI jobcnt jobno loop = usedI jobcnt jobno loop := by
  have hwide := workers_wide w hw
  refine ⟨?_, checkdbI_eq_usedI jobcnt jobno loop⟩
  induction h with
  | start => exact worker_restartI_eq hwide jobcnt jobno 0
  | next hrun ih =>
      rw [ih, worker_nextI_eq hwide jobcnt _ (usedI_lt _ _ _),
        nextI_usedI jobcnt jobno (indexRun_loop_pos hrun)]
  | restart lasti _ _ => exact worker_restartI_eq hwide jobcnt jobno lasti

/-- The C worker, stopped after iteration 1 and restarted at `^lasti = 6`, runs iteration 7 of
    job 2 of 5. -/
theorem indexRun_eq_c : (cWorker.restartI 5 2 6) = some (usedI 5 2 7 : Int) ∧
    checkdbI 5 2 7 = usedI 5 2 7 :=
  indexRun_eq cWorker (by simp [workers]) 5 2 7 _ (.restart 6 (.next .start))

end YottaTest.Imptp
