/-
  File:      YottaTest/Lib/Emit.lean
  Subject:   Programs that fill variables of their own and make calls with what these hold.

  Only the calls can be seen from outside. A program in one language is the same as a program in another
  one when it makes the same calls, whatever it uses its variables for in between.

  * `Emit` -- a step: an assignment, which may fail, an assertion, or calls; `run` -- the calls of a program, and its
    variables at the end;
  * `Emits P p out Q` -- from variables with `P` the program makes exactly the calls `out` and leaves
    them with `Q`;
  * `Emits.append`, `Emits.branch`, `Emits.mono` -- its rules, and `Emits.repeat_` for a loop whose turns
    keep an invariant.
-/
namespace YottaTest.Lib

variable {σ ω ι : Type}

/-- A step of a program with variables `σ`; its calls are `ω`. -/
inductive Emit (σ ω : Type) where
  | act (f : σ → σ)
  /-- An assignment that ends the program where there is no room for it. -/
  | store (f : σ → Option σ)
  /-- The program goes no further where `c` fails. -/
  | assert (c : σ → Bool)
  | call (f : σ → List ω)

namespace Emit

def run : List (Emit σ ω) → σ → Option (List ω × σ)
  | [], s => some ([], s)
  | .act f :: p, s => run p (f s)
  | .store f :: p, s => (f s).bind (run p)
  | .assert c :: p, s => if c s then run p s else none
  | .call f :: p, s => (run p s).map fun r => (f s ++ r.1, r.2)

theorem run_append (p q : List (Emit σ ω)) (s : σ) :
    run (p ++ q) s = (run p s).bind fun r => (run q r.2).map fun r' => (r.1 ++ r'.1, r'.2) := by
  induction p generalizing s with
  | nil => simp [run]
  | cons step p ih =>
    cases step with
    | act f => exact ih (f s)
    | store f =>
      simp only [List.cons_append, run, Option.bind_assoc]
      exact congrArg _ (funext ih)
    | assert c =>
      simp only [List.cons_append, run]
      split
      · exact ih s
      · rfl
    | call f =>
      simp only [List.cons_append, run, ih]
      cases run p s with
      | none => rfl
      | some r => simp [Function.comp_def]

end Emit

/-- **The calls of a program**, and what it makes of its variables. -/
def Emits (P : σ → Prop) (p : List (Emit σ ω)) (out : List ω) (Q : σ → Prop) : Prop :=
  ∀ s, P s → ∃ s', Emit.run p s = some (out, s') ∧ Q s'

namespace Emits

variable {P Q R : σ → Prop} {p q : List (Emit σ ω)} {out out' : List ω}

theorem nil : Emits P ([] : List (Emit σ ω)) [] P := fun s hs => ⟨s, rfl, hs⟩

theorem append (hp : Emits P p out Q) (hq : Emits Q q out' R) : Emits P (p ++ q) (out ++ out') R := by
  intro s hs
  obtain ⟨s₁, h₁, hs₁⟩ := hp s hs
  obtain ⟨s₂, h₂, hs₂⟩ := hq s₁ hs₁
  refine ⟨s₂, ?_, hs₂⟩
  rw [Emit.run_append, h₁, Option.bind_some, h₂]
  rfl

theorem mono {P' Q' : σ → Prop} (hp : Emits P p out Q) (hP : ∀ s, P' s → P s) (hQ : ∀ s, Q s → Q' s) :
    Emits P' p out Q' := by
  intro s hs
  obtain ⟨s', h, hs'⟩ := hp s (hP s hs)
  exact ⟨s', h, hQ s' hs'⟩

theorem cons {step : Emit σ ω} (hp : Emits P [step] out Q) (hq : Emits Q p out' R) :
    Emits P (step :: p) (out ++ out') R := append hp hq

theorem act {f : σ → σ} (hf : ∀ s, P s → Q (f s)) : Emits P ([.act f] : List (Emit σ ω)) [] Q :=
  fun s hs => ⟨f s, rfl, hf s hs⟩

theorem store {f : σ → Option σ} (hf : ∀ s, P s → ∃ s', f s = some s' ∧ Q s') :
    Emits P ([.store f] : List (Emit σ ω)) [] Q := by
  intro s hs
  obtain ⟨s', h, hs'⟩ := hf s hs
  refine ⟨s', ?_, hs'⟩
  rw [Emit.run, h]
  rfl

theorem assert {c : σ → Bool} (hc : ∀ s, P s → c s = true) :
    Emits P ([.assert c] : List (Emit σ ω)) [] P := by
  intro s hs
  refine ⟨s, ?_, hs⟩
  rw [Emit.run, if_pos (hc s hs)]
  rfl

theorem call {f : σ → List ω} (hf : ∀ s, P s → f s = out) : Emits P [.call f] out P := by
  intro s hs
  refine ⟨s, ?_, hs⟩
  rw [Emit.run, hf s hs]
  simp [Emit.run]

theorem congr (hp : Emits P p out Q) (h : out = out') : Emits P p out' Q := h ▸ hp

/-- A branch on something that the program knows from the start. -/
theorem branch {c : Prop} [Decidable c] (hp : c → Emits P p out Q) (hq : ¬ c → Emits P q out' Q) :
    Emits P (if c then p else q) (if c then out else out') Q := by
  split
  · exact hp ‹_›
  · exact hq ‹_›

/-- A part that is only there under a condition. -/
theorem when {c : Prop} [Decidable c] (hp : c → Emits P p out P) :
    Emits P (if c then p else []) (if c then out else []) P :=
  branch hp fun _ => nil

/-- What is not fixed before the program need not be known. -/
theorem exists_ {P : ι → σ → Prop} (hp : ∀ i, Emits (P i) p out Q) : Emits (fun s => ∃ i, P i s) p out Q := by
  intro s hs
  obtain ⟨i, hs⟩ := hs
  exact hp i s hs

/-- **The rule for a loop.** -/
theorem repeat_ {turn : ι → List (Emit σ ω)} {outs : ι → List ω} {is : List ι}
    (hturn : ∀ i ∈ is, Emits P (turn i) (outs i) P) : Emits P (is.flatMap turn) (is.flatMap outs) P := by
  induction is with
  | nil => exact nil
  | cons i is ih =>
    rw [List.flatMap_cons, List.flatMap_cons]
    exact append (hturn i List.mem_cons_self) (ih fun j hj => hturn j (List.mem_cons_of_mem i hj))

/-- What a program calls does not depend on which triple it is read off. -/
theorem calls_eq (hp : Emits P p out Q) {s : σ} (hs : P s) : (Emit.run p s).map Prod.fst = some out := by
  obtain ⟨s', h, -⟩ := hp s hs
  rw [h]
  rfl

end Emits

end YottaTest.Lib
