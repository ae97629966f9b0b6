/-
  File:      YottaTest/Port/Leftover.lean
  Subject:   portno_acquire.csh: the reservation files that a call leaves behind.

  A call is followed from the point where the script is sourced to its end, while the other processes do
  what they like.

  * `sourced`, `Mine`, `Clean` -- the call; a file with its line first; it leaves the file of the port
    it was given and no other;
  * `Right`, `StepsRight` -- a step that recognises its own line, and not at the upper limit;
  * `step_other` -- what others do is nothing to the files of a process;
  * `Within`, `InCall`, `Lost` -- what right steps keep, and what remains after another one;
  * `call_clean_iff` -- **a call is clean exactly if its steps are right.**
-/
import YottaTest.Port.Acquire

namespace YottaTest.Port

open Function YottaTest.Lib YottaTest.Awk

/-! ## 1. What a call should leave -/

/-- The variables before the loop; `draw` is `int(rand()*10)`. -/
def sourced (port_start port_max : Nat) (draw : Fin 10) (tst_working_dir test_subtest_name : Text) : Call :=
  ⟨port_start + draw, port_start, port_max, tst_working_dir, test_subtest_name, false⟩

/-- The reservation file has a line of the process first. -/
def Mine (pid : Nat) (files : Log Nat Text) (portno : Nat) : Prop :=
  ∃ l, files.first portno = some l ∧ Marked pid l

/-- **Nothing is left behind**, from the state before a call to the one after it: the call fails and the
    process has the files it had, or it is given a port and has the file of that one, too. -/
def Clean (pid port_start : Nat) (s t : State Nat) : Prop :=
  (t.held pid = s.held pid ∧ ∀ n, Mine pid t.files n ↔ Mine pid s.files n) ∨
  ∃ portno, t.held pid = update (s.held pid) portno true ∧ port_start < portno ∧
    portno < port_upperlimit ∧ ¬ Mine pid s.files portno ∧
    ∀ n, Mine pid t.files n ↔ Mine pid s.files n ∨ n = portno

def Event.by : Event Nat → Nat
  | .source pid _ | .next pid _ | .release pid _ => pid

/-- During a call the process only goes on with it. -/
def Event.During (pid : Nat) (e : Event Nat) : Prop := e.by = pid → ∃ used, e = .next pid used

section Script

variable (dirMatch : Text → Text → Bool)

/-- Where the process looks at the first line of the file, and it is its own: grep finds it, and the
    port that it found unused is not the last one. -/
def Right (pid : Nat) (s : State Nat) : Prop :=
  match s.pc pid with
  | .inUse c => Mine pid s.files c.portno → grepFirst dirMatch pid c s.files = true
  | .unused c => Mine pid s.files c.portno →
      grepFirst dirMatch pid c s.files = true ∧ c.portno < port_upperlimit
  | _ => True

/-- All steps of the process are right. -/
def StepsRight (pid : Nat) : State Nat → List (Event Nat) → Prop
  | _, [] => True
  | s, e :: events =>
      (e.by = pid → Right dirMatch pid s) ∧ StepsRight pid (step id dirMatch s e) events

end Script

/-! ## 2. The files of a process -/

variable {pid q n m : Nat} {files : Log Nat Text}

/-- The process ids tell whose a line is. -/
def byPid (dirMatch : Text → Text → Bool) : Signs Nat id dirMatch where
  dir _ _ := True
  written _ := True
  own pid l := Marked pid l
  written_line _ := trivial
  own_of_grep _ _ hgrep := marked_of_grep hgrep
  unique hp hq := hp.unique hq

theorem inv_step {dirMatch : Text → Text → Bool} {s : State Nat} (h : Inv (byPid dirMatch) s)
    (e : Event Nat) : Inv (byPid dirMatch) (step id dirMatch s e) :=
  h.step fun _ _ _ => trivial

theorem mine_of_grepFirst {dirMatch : Text → Text → Bool} {c : Call}
    (h : grepFirst dirMatch pid c files = true) : Mine pid files c.portno := by
  obtain ⟨l, hl, hgrep⟩ := grep_of_grepFirst h
  exact ⟨l, hl, marked_of_grep hgrep⟩

theorem not_mine_of_none (h : files n = none) : ¬ Mine pid files n := by
  intro hmine
  obtain ⟨l, hl, -⟩ := hmine
  rw [Log.first, h] at hl
  cases hl

theorem mine_reserve_of_ne (h : q ≠ pid) (n : Nat) (c : Call) :
    Mine pid (files.reserve n (line q c)) m ↔ Mine pid files m := by
  refine ⟨fun hmine => ?_, fun hmine => ?_⟩
  · obtain ⟨l, hl, hmarked⟩ := hmine
    by_cases hmn : m = n
    · subst hmn
      rcases Log.first_reserve_cases hl with hl | rfl
      · exact ⟨l, hl, hmarked⟩
      · exact absurd (Marked.unique (marked_line q c) hmarked) h
    · exact ⟨l, by rwa [Log.first_reserve_of_ne hmn] at hl, hmarked⟩
  · obtain ⟨l, hl, hmarked⟩ := hmine
    exact ⟨l, Log.first_reserve hl n _, hmarked⟩

theorem mine_reserve (h : Mine pid files m) (n : Nat) (l : Text) : Mine pid (files.reserve n l) m := by
  obtain ⟨l', hl', hmarked⟩ := h
  exact ⟨l', Log.first_reserve hl' n l, hmarked⟩

theorem mine_of_reserve {l : Text} (hmn : m ≠ n) (h : Mine pid (files.reserve n l) m) : Mine pid files m := by
  obtain ⟨l', hl', hmarked⟩ := h
  exact ⟨l', by rwa [Log.first_reserve_of_ne hmn] at hl', hmarked⟩

theorem not_mine_drop (pid : Nat) (files : Log Nat Text) (n : Nat) : ¬ Mine pid (files.drop n) n := by
  intro h
  obtain ⟨l, hl, -⟩ := h
  rw [Log.first_drop_self] at hl
  cases hl

theorem mine_drop_of_ne (hmn : m ≠ n) : Mine pid (files.drop n) m ↔ Mine pid files m := by
  unfold Mine
  rw [Log.first_drop_of_ne hmn]

/-- A file that another process owns is not among them. -/
theorem mine_drop_of_owns {dirMatch : Text → Text → Bool} {s : State Nat} (h : Inv (byPid dirMatch) s)
    (howns : Owns s q n) (hq : q ≠ pid) :
    Mine pid (s.files.drop n) m ↔ Mine pid s.files m := by
  by_cases hmn : m = n
  · subst hmn
    refine iff_of_false (not_mine_drop _ _ _) fun hmine => ?_
    obtain ⟨l, hl, hmarked⟩ := hmine
    obtain ⟨l', hl', hmarked'⟩ := h.first q m howns
    rw [hl, Option.some.injEq] at hl'
    subst hl'
    exact hq (hmarked'.unique hmarked)
  · exact mine_drop_of_ne hmn

/-- A process is where it was, with the ports and the files it had. -/
structure Same (pid : Nat) (s t : State Nat) : Prop where
  pc : t.pc pid = s.pc pid
  held : t.held pid = s.held pid
  mine : ∀ n, Mine pid t.files n ↔ Mine pid s.files n

theorem same_goto {s : State Nat} (hq : q ≠ pid) (pc : Pc) : Same pid s (s.goto q pc) :=
  ⟨State.goto_of_ne hq.symm s pc, rfl, fun _ => Iff.rfl⟩

section Other

variable {dirMatch : Text → Text → Bool} {s : State Nat}

/-- **What other processes do** is nothing to a process and its files. -/
theorem step_other (h : Inv (byPid dirMatch) s) {e : Event Nat} (he : e.by ≠ pid) :
    Same pid s (step id dirMatch s e) := by
  cases e with
  | source q c =>
      unfold step source
      dsimp only
      split
      · exact same_goto he _
      · exact ⟨rfl, rfl, fun _ => Iff.rfl⟩
  | release q n =>
      unfold step
      dsimp only
      split
      · rename_i hheld
        refine ⟨rfl, update_of_ne (Ne.symm he) .., fun m => ?_⟩
        exact mine_drop_of_owns h (Or.inl hheld) he
      · exact ⟨rfl, rfl, fun _ => Iff.rfl⟩
  | next q used =>
      have hq : q ≠ pid := he
      unfold step acquire
      dsimp only
      cases hpc : s.pc q with
      | idle => exact ⟨rfl, rfl, fun _ => Iff.rfl⟩
      | loop c =>
          dsimp only
          split
          · split
            · exact same_goto hq _
            · exact same_goto hq _
          · exact same_goto hq _
      | echo c => exact ⟨State.goto_of_ne hq.symm s _, rfl, fun m => mine_reserve_of_ne hq _ c⟩
      | reserved c => exact same_goto hq _
      | inUse c => exact same_goto hq _
      | rm c =>
          refine ⟨State.goto_of_ne hq.symm s _, rfl, fun m => ?_⟩
          exact mine_drop_of_owns h (Or.inr ⟨c, hpc, rfl⟩) hq
      | unused c =>
          dsimp only
          split
          · split
            · exact ⟨State.goto_of_ne hq.symm s _, update_of_ne hq.symm .., fun _ => Iff.rfl⟩
            · exact same_goto hq _
          · exact same_goto hq _

end Other

/-! ## 3. What right steps keep -/

/-- The variables of a call that began at `port_start`. -/
def Call.From (port_start : Nat) (c : Call) : Prop := c.port_start = port_start ∧ port_start ≤ c.portno

theorem Call.From.next {port_start : Nat} {c : Call} (h : c.From port_start) : c.next.From port_start := by
  obtain ⟨hstart, hle⟩ := h
  unfold Call.next
  split
  · exact ⟨hstart, hstart ▸ Nat.le_refl _⟩
  · exact ⟨hstart, hle⟩

theorem Call.From.increment {port_start : Nat} {c : Call} (h : c.From port_start) :
    Call.From port_start { c with portno := c.portno + increment } ∧ port_start < c.portno + increment := by
  obtain ⟨hstart, hle⟩ := h
  unfold Port.increment
  exact ⟨⟨hstart, by dsimp only; omega⟩, by omega⟩

/-- **Within a call**: the process has the files it had, and at most that of the port it is at. -/
structure Within (pid port_start : Nat) (s t : State Nat) : Prop where
  held : t.held pid = s.held pid
  kept : ∀ n, Mine pid s.files n → Mine pid t.files n
  new : ∀ n, Mine pid t.files n → Mine pid s.files n ∨ (t.pc pid).port = some n
  fresh : ∀ n, (t.pc pid).port = some n → ¬ Mine pid s.files n ∧ port_start < n
  call : ∀ c, (t.pc pid).call = some c → c.From port_start

/-- Within a call, or after it. -/
def InCall (pid port_start : Nat) (s t : State Nat) : Prop :=
  Within pid port_start s t ∨ t.pc pid = .idle ∧ Clean pid port_start s t

section Steps

variable {dirMatch : Text → Text → Bool} {port_start : Nat} {s t t' : State Nat}

theorem Within.same (h : Within pid port_start s t) (hsame : Same pid t t') :
    Within pid port_start s t' where
  held := hsame.held.trans h.held
  kept n hn := (hsame.mine n).2 (h.kept n hn)
  new n hn := hsame.pc ▸ h.new n ((hsame.mine n).1 hn)
  fresh n hn := h.fresh n (hsame.pc ▸ hn)
  call c hc := h.call c (hsame.pc ▸ hc)

theorem Clean.same (h : Clean pid port_start s t) (hsame : Same pid t t') : Clean pid port_start s t' := by
  rcases h with ⟨hheld, hmine⟩ | ⟨n, hheld, hlt, hlimit, hfresh, hmine⟩
  · exact Or.inl ⟨hsame.held.trans hheld, fun m => (hsame.mine m).trans (hmine m)⟩
  · exact Or.inr ⟨n, hsame.held.trans hheld, hlt, hlimit, hfresh, fun m => (hsame.mine m).trans (hmine m)⟩

theorem InCall.same (h : InCall pid port_start s t) (hsame : Same pid t t') :
    InCall pid port_start s t' := by
  rcases h with h | ⟨hidle, h⟩
  · exact Or.inl (h.same hsame)
  · exact Or.inr ⟨hsame.pc.trans hidle, h.same hsame⟩

/-- At the end of the call nothing is left. -/
theorem Within.clean (h : Within pid port_start s t) (hidle : t.pc pid = .idle) :
    Clean pid port_start s t := by
  refine Or.inl ⟨h.held, fun n => ⟨fun hn => ?_, h.kept n⟩⟩
  rcases h.new n hn with hold | hport
  · exact hold
  · rw [hidle] at hport
    cases hport

theorem InCall.clean (h : InCall pid port_start s t) (hidle : t.pc pid = .idle) :
    Clean pid port_start s t := by
  rcases h with h | ⟨-, h⟩
  · exact h.clean hidle
  · exact h

/-- A place with the same port, of the same call. -/
theorem Within.move (h : Within pid port_start s t) {pc : Pc} (hport : pc.port = (t.pc pid).port)
    (hcall : pc.call = (t.pc pid).call) : Within pid port_start s (t.goto pid pc) where
  held := h.held
  kept := h.kept
  new n hn := by
    rw [t.goto_self, hport]
    exact h.new n hn
  fresh n hn := by
    rw [t.goto_self, hport] at hn
    exact h.fresh n hn
  call c hc := by
    rw [t.goto_self, hcall] at hc
    exact h.call c hc

/-- A place without a port: only where the file is not its own. -/
theorem Within.leave (h : Within pid port_start s t) {pc : Pc} (hport : pc.port = none)
    (hmine : ∀ n, (t.pc pid).port = some n → ¬ Mine pid t.files n)
    (hcall : ∀ c, pc.call = some c → c.From port_start) : Within pid port_start s (t.goto pid pc) where
  held := h.held
  kept := h.kept
  new n hn := by
    rcases h.new n hn with hold | hat
    · exact Or.inl hold
    · exact absurd hn (hmine n hat)
  fresh n hn := by
    rw [t.goto_self, hport] at hn
    cases hn
  call c hc := by
    rw [t.goto_self] at hc
    exact hcall c hc

/-- A place further on, at a port whose file is missing. -/
theorem Within.enter (h : Within pid port_start s t) {pc : Pc} (hport : pc.port = some n)
    (hnone : (t.pc pid).port = none) (hmissing : ¬ Mine pid t.files n) (hlt : port_start < n)
    (hcall : ∀ c, pc.call = some c → c.From port_start) : Within pid port_start s (t.goto pid pc) where
  held := h.held
  kept := h.kept
  new m hm := by
    refine Or.inl ((h.new m hm).resolve_right fun hat => ?_)
    rw [hnone] at hat
    cases hat
  fresh m hm := by
    rw [t.goto_self, hport] at hm
    obtain rfl := Option.some.inj hm
    exact ⟨fun hold => hmissing (h.kept n hold), hlt⟩
  call c hc := by
    rw [t.goto_self] at hc
    exact hcall c hc

/-- A line is appended to the file of the port it is at. -/
theorem Within.reserve (h : Within pid port_start s t) (hport : (t.pc pid).port = some n) (l : Text) :
    Within pid port_start s { t with files := t.files.reserve n l } where
  held := h.held
  kept m hm := mine_reserve (h.kept m hm) n l
  new m hm := by
    by_cases hmn : m = n
    · exact Or.inr (hmn ▸ hport)
    · exact h.new m (mine_of_reserve hmn hm)
  fresh := h.fresh
  call := h.call

/-- The file of the port it is at is removed. -/
theorem Within.drop (h : Within pid port_start s t) {c : Call} (hpc : t.pc pid = .rm c) :
    Within pid port_start s { t.goto pid (.loop c) with files := t.files.drop c.portno } where
  held := h.held
  kept n hn := by
    have hne : n ≠ c.portno := by
      intro he
      subst he
      exact (h.fresh c.portno (by rw [hpc]; rfl)).1 hn
    exact (mine_drop_of_ne hne).2 (h.kept n hn)
  new n hn := by
    have hne : n ≠ c.portno := by
      intro he
      subst he
      exact not_mine_drop _ _ _ hn
    refine Or.inl ((h.new n ((mine_drop_of_ne hne).1 hn)).resolve_right fun hat => ?_)
    rw [hpc] at hat
    exact hne (Option.some.inj hat).symm
  fresh n hn := by
    rw [show (t.goto pid (.loop c)).pc pid = .loop c from t.goto_self pid _] at hn
    cases hn
  call c' hc' := by
    rw [show (t.goto pid (.loop c)).pc pid = .loop c from t.goto_self pid _] at hc'
    exact h.call c' (by rw [hpc]; exact hc')

/-- The port it is at is given to it, with its file. -/
theorem Within.give (h : Within pid port_start s t) (hport : (t.pc pid).port = some n)
    (hmine : Mine pid t.files n) (hlimit : n < port_upperlimit) :
    Clean pid port_start s
      { t.goto pid .idle with held := update t.held pid (update (t.held pid) n true) } := by
  obtain ⟨hfresh, hlt⟩ := h.fresh n hport
  refine Or.inr ⟨n, ?_, hlt, hlimit, hfresh, fun m => ⟨fun hm => ?_, fun hm => ?_⟩⟩
  · show update t.held pid (update (t.held pid) n true) pid = _
    rw [update_self, h.held]
  · rcases h.new m hm with hold | hat
    · exact Or.inl hold
    · rw [hport] at hat
      exact Or.inr (Option.some.inj hat).symm
  · rcases hm with hold | rfl
    · exact h.kept m hold
    · exact hmine

/-- **A right step.** -/
theorem Within.acquire (h : Within pid port_start s t) (hright : Right dirMatch pid t) (used : Bool) :
    InCall pid port_start s (acquire id dirMatch pid used t) := by
  unfold Port.acquire
  unfold Right at hright
  cases hpc : t.pc pid with
  | idle => exact Or.inl h
  | loop c =>
      have hcall := h.call c (by rw [hpc]; rfl)
      have hnone : (t.pc pid).port = none := by rw [hpc]; rfl
      have hmine : ∀ n, (t.pc pid).port = some n → ¬ Mine pid t.files n := by
        intro n hn
        rw [hnone] at hn
        cases hn
      dsimp only
      split
      · split
        · refine Or.inl (h.leave rfl hmine fun c' hc' => ?_)
          obtain rfl := Option.some.inj hc'
          exact hcall.increment.1.next
        · rename_i hfile
          refine Or.inl (h.enter rfl hnone (not_mine_of_none (by simpa using hfile)) hcall.increment.2
            fun c' hc' => ?_)
          obtain rfl := Option.some.inj hc'
          exact hcall.increment.1
      · exact Or.inl (h.leave rfl hmine fun c' hc' => by cases hc')
  | echo c =>
      have hmove : Within pid port_start s (t.goto pid (.reserved c)) :=
        h.move (by rw [hpc]; rfl) (by rw [hpc]; rfl)
      exact Or.inl (hmove.reserve (by rw [t.goto_self]; rfl) _)
  | reserved c =>
      dsimp only
      split
      · exact Or.inl (h.move (by rw [hpc]; rfl) (by rw [hpc]; rfl))
      · exact Or.inl (h.move (by rw [hpc]; rfl) (by rw [hpc]; rfl))
  | inUse c =>
      rw [hpc] at hright
      dsimp only at hright ⊢
      split
      · exact Or.inl (h.move (by rw [hpc]; rfl) (by rw [hpc]; rfl))
      · rename_i hgrep
        refine Or.inl (h.leave rfl (fun n hn => ?_) fun c' hc' => h.call c' (by rw [hpc]; exact hc'))
        rw [hpc] at hn
        obtain rfl := Option.some.inj hn
        exact fun hmine => hgrep (hright hmine)
  | rm c => exact Or.inl (h.drop hpc)
  | unused c =>
      rw [hpc] at hright
      dsimp only at hright ⊢
      split
      · rename_i hgrep
        have hmine : Mine pid t.files c.portno := mine_of_grepFirst hgrep
        have hlimit := (hright hmine).2
        rw [if_pos hlimit]
        exact Or.inr ⟨t.goto_self pid _, h.give (by rw [hpc]; rfl) hmine hlimit⟩
      · rename_i hgrep
        refine Or.inl (h.leave rfl (fun n hn => ?_) fun c' hc' => h.call c' (by rw [hpc]; exact hc'))
        rw [hpc] at hn
        obtain rfl := Option.some.inj hn
        exact fun hmine => hgrep (hright hmine).1

/-! ## 4. What another step leaves -/

/-- A new file of the process, at a port that it was not given and is no longer at. -/
def Lost (pid : Nat) (s t : State Nat) : Prop :=
  ∃ n, Mine pid t.files n ∧ ¬ Mine pid s.files n ∧ (t.pc pid).port ≠ some n ∧ t.held pid n = false

theorem Lost.same (h : Lost pid s t) (hsame : Same pid t t') : Lost pid s t' := by
  obtain ⟨n, hmine, hnew, hport, hheld⟩ := h
  exact ⟨n, (hsame.mine n).2 hmine, hnew, by rwa [hsame.pc], by rwa [hsame.held]⟩

theorem Lost.not_clean (h : Lost pid s t) : ¬ Clean pid port_start s t := by
  intro hclean
  obtain ⟨n, hmine, hnew, -, hheld⟩ := h
  rcases hclean with ⟨-, hsame⟩ | ⟨m, hgiven, -, -, -, hsame⟩
  · exact hnew ((hsame n).1 hmine)
  · rcases (hsame n).1 hmine with hold | rfl
    · exact hnew hold
    · rw [hgiven, update_self] at hheld
      cases hheld

theorem Lost.goto (h : Lost pid s t) {pc : Pc}
    (hport : ∀ n, pc.port = some n → (t.pc pid).port = some n ∨ t.files n = none) :
    Lost pid s (t.goto pid pc) := by
  obtain ⟨n, hmine, hnew, hat, hheld⟩ := h
  refine ⟨n, hmine, hnew, ?_, hheld⟩
  rw [t.goto_self]
  intro hn
  rcases hport n hn with hbefore | hnone
  · exact hat hbefore
  · exact not_mine_of_none hnone hmine

/-- What is lost stays. -/
theorem Lost.acquire (h : Lost pid s t) (used : Bool) : Lost pid s (acquire id dirMatch pid used t) := by
  unfold Port.acquire
  cases hpc : t.pc pid with
  | idle => exact h
  | loop c =>
      dsimp only
      split
      · split
        · exact h.goto fun n hn => by cases hn
        · rename_i hfile
          refine h.goto fun n hn => Or.inr ?_
          obtain rfl := Option.some.inj hn
          simpa using hfile
      · exact h.goto fun n hn => by cases hn
  | echo c =>
      have hgoto : Lost pid s (t.goto pid (.reserved c)) := h.goto fun n hn => Or.inl (hpc ▸ hn)
      obtain ⟨n, hmine, hnew, hat, hheld⟩ := hgoto
      exact ⟨n, mine_reserve hmine _ _, hnew, hat, hheld⟩
  | reserved c =>
      dsimp only
      split
      · exact h.goto fun n hn => Or.inl (hpc ▸ hn)
      · exact h.goto fun n hn => Or.inl (hpc ▸ hn)
  | inUse c =>
      dsimp only
      split
      · exact h.goto fun n hn => Or.inl (hpc ▸ hn)
      · exact h.goto fun n hn => by cases hn
  | rm c =>
      obtain ⟨n, hmine, hnew, hat, hheld⟩ := h
      have hne : n ≠ c.portno := by
        intro he
        exact hat (by rw [hpc, he]; rfl)
      refine ⟨n, (mine_drop_of_ne hne).2 hmine, hnew, ?_, hheld⟩
      show ((t.goto pid (.loop c)).pc pid).port ≠ some n
      rw [t.goto_self]
      exact fun hn => by cases hn
  | unused c =>
      dsimp only
      split
      · split
        · obtain ⟨n, hmine, hnew, hat, hheld⟩ := h
          have hne : n ≠ c.portno := by
            intro he
            exact hat (by rw [hpc, he]; rfl)
          refine ⟨n, hmine, hnew, ?_, ?_⟩
          · show ((t.goto pid .idle).pc pid).port ≠ some n
            rw [t.goto_self]
            exact fun hn => by cases hn
          · show update t.held pid (update (t.held pid) c.portno true) pid n = false
            rw [update_self, update_of_ne hne]
            exact hheld
        · exact h.goto fun n hn => by cases hn
      · exact h.goto fun n hn => by cases hn

/-- **A step that is not right loses a file.** -/
theorem Within.lost (h : Within pid port_start s t) (hinv : Inv (byPid dirMatch) t)
    (hwrong : ¬ Right dirMatch pid t)
    (used : Bool) : Lost pid s (Port.acquire id dirMatch pid used t) := by
  -- the process goes away from the file of the port it is at
  have haway : ∀ {n : Nat} {pc : Pc}, (t.pc pid).port = some n → Mine pid t.files n → pc.port = none →
      Lost pid s (t.goto pid pc) := by
    intro n pc hat hmine hpc
    refine ⟨n, hmine, (h.fresh n hat).1, ?_, ?_⟩
    · rw [t.goto_self, hpc]
      exact fun hn => by cases hn
    · rw [Bool.eq_false_iff]
      exact fun hheld => hinv.away pid n hheld hat
  unfold Right at hwrong
  unfold Port.acquire
  cases hpc : t.pc pid with
  | inUse c =>
      rw [hpc] at hwrong
      dsimp only [id_eq] at hwrong ⊢
      rw [Classical.not_imp] at hwrong
      rw [if_neg hwrong.2]
      exact haway (by rw [hpc]; rfl) hwrong.1 rfl
  | unused c =>
      rw [hpc] at hwrong
      dsimp only at hwrong ⊢
      rw [Classical.not_imp, not_and] at hwrong
      split
      · rename_i hgrep
        rw [if_neg (hwrong.2 hgrep)]
        exact haway (by rw [hpc]; rfl) hwrong.1 rfl
      · exact haway (by rw [hpc]; rfl) hwrong.1 rfl
  | idle => rw [hpc] at hwrong; exact absurd trivial hwrong
  | loop c => rw [hpc] at hwrong; exact absurd trivial hwrong
  | echo c => rw [hpc] at hwrong; exact absurd trivial hwrong
  | reserved c => rw [hpc] at hwrong; exact absurd trivial hwrong
  | rm c => rw [hpc] at hwrong; exact absurd trivial hwrong

/-! ## 5. A whole call -/

theorem run_lost : ∀ {events : List (Event Nat)} {t : State Nat}, (∀ e ∈ events, e.During pid) →
    Inv (byPid dirMatch) t → Lost pid s t →
    Lost pid s (run id dirMatch t events)
  | [], _, _, _, h => h
  | e :: events, t, hduring, hinv, h => by
      obtain ⟨he, hevents⟩ := List.forall_mem_cons.1 hduring
      have hinv' : Inv (byPid dirMatch) (step id dirMatch t e) := inv_step hinv e
      show Lost pid s (run id dirMatch (step id dirMatch t e) events)
      refine run_lost hevents hinv' ?_
      by_cases hby : e.by = pid
      · obtain ⟨used, rfl⟩ := he hby
        exact h.acquire used
      · exact h.same (step_other hinv hby)

theorem run_inCall : ∀ {events : List (Event Nat)} {t : State Nat}, (∀ e ∈ events, e.During pid) →
    Inv (byPid dirMatch) t → InCall pid port_start s t →
    (run id dirMatch t events).pc pid = .idle →
    (Clean pid port_start s (run id dirMatch t events) ↔ StepsRight dirMatch pid t events)
  | [], _, _, _, h, hidle => iff_of_true (h.clean hidle) trivial
  | e :: events, t, hduring, hinv, h, hidle => by
      obtain ⟨he, hevents⟩ := List.forall_mem_cons.1 hduring
      unfold StepsRight
      by_cases hby : e.by = pid
      · obtain ⟨used, rfl⟩ := he hby
        by_cases hright : Right dirMatch pid t
        · have hstep : InCall pid port_start s (step id dirMatch t (.next pid used)) := by
            rcases h with h | ⟨hpc, hclean⟩
            · exact h.acquire hright used
            · have hstay : step id dirMatch t (.next pid used) = t := by
                show Port.acquire id dirMatch pid used t = t
                unfold Port.acquire
                rw [hpc]
              rw [hstay]
              exact Or.inr ⟨hpc, hclean⟩
          refine (run_inCall hevents (inv_step hinv _) hstep hidle).trans ?_
          exact ⟨fun hrest => ⟨fun _ => hright, hrest⟩, fun hall => hall.2⟩
        · refine iff_of_false ?_ fun hall => hright (hall.1 hby)
          have hlost : Lost pid s (step id dirMatch t (.next pid used)) := by
            rcases h with h | ⟨hpc, -⟩
            · exact h.lost hinv hright used
            · unfold Right at hright
              rw [hpc] at hright
              exact absurd trivial hright
          exact (run_lost hevents (inv_step hinv _) hlost).not_clean
      · refine (run_inCall hevents (inv_step hinv e) (h.same (step_other hinv hby)) hidle).trans ?_
        exact ⟨fun hrest => ⟨fun h => absurd h hby, hrest⟩, fun hall => hall.2⟩

end Steps

/-- The script is sourced. -/
theorem within_sourced {s : State Nat} {port_start port_max : Nat} {draw : Fin 10} {dir subtest : Text}
    (hidle : s.pc pid = .idle) :
    Within pid port_start s (source pid (sourced port_start port_max draw dir subtest) s) := by
  unfold source
  rw [hidle]
  dsimp only
  have hport : ∀ n, (s.pc pid).port ≠ some n := by
    intro n hn
    rw [hidle] at hn
    cases hn
  refine ⟨rfl, fun n hn => hn, fun n hn => Or.inl hn, fun n hn => ?_, fun c hc => ?_⟩
  · rw [s.goto_self] at hn
    cases hn
  · rw [s.goto_self] at hc
    obtain rfl := Option.some.inj hc
    exact ⟨rfl, Nat.le_add_right _ _⟩

/-- **A call leaves nothing behind exactly if its steps are right**: whatever files there are and were
    made before it, whatever is_port_in_use.csh answers, and whatever the other processes do. -/
theorem call_clean_iff (dirMatch : Text → Text → Bool) (files : Log Nat Text) (before during : List (Event Nat))
    (pid port_start port_max : Nat) (draw : Fin 10) (dir subtest : Text)
    (hidle : (run id dirMatch (start files) before).pc pid = .idle) (hduring : ∀ e ∈ during, e.During pid)
    (hend : (run id dirMatch (start files) (before ++
      .source pid (sourced port_start port_max draw dir subtest) :: during)).pc pid = .idle) :
    Clean pid port_start (run id dirMatch (start files) before) (run id dirMatch (start files) (before ++
      .source pid (sourced port_start port_max draw dir subtest) :: during)) ↔
    StepsRight dirMatch pid (source pid (sourced port_start port_max draw dir subtest)
      (run id dirMatch (start files) before)) during := by
  have hinv : Inv (byPid dirMatch) (run id dirMatch (start files) before) :=
    inv_run before (inv_start files) fun _ _ _ => trivial
  have hrun : run id dirMatch (start files) (before ++
      .source pid (sourced port_start port_max draw dir subtest) :: during) =
      run id dirMatch (source pid (sourced port_start port_max draw dir subtest)
        (run id dirMatch (start files) before)) during := by
    unfold run
    rw [List.foldl_append, List.foldl_cons]
    rfl
  have hsourced : Inv (byPid dirMatch) (step id dirMatch (run id dirMatch (start files) before)
      (.source pid (sourced port_start port_max draw dir subtest))) := inv_step hinv _
  rw [hrun] at hend ⊢
  exact run_inCall hduring hsourced (Or.inl (within_sourced hidle)) hend

/-- No file is there, and port 36001 is free. -/
theorem call_clean_first :
    Clean 12 36000 (run id List.isPrefixOf (start fun _ => none) [])
      (run id List.isPrefixOf (start fun _ => none) ([] ++
        .source 12 (sourced 36000 36128 0 ['/', 't'] ['s']) :: List.replicate 4 (.next 12 false))) ↔
    StepsRight List.isPrefixOf 12 (source 12 (sourced 36000 36128 0 ['/', 't'] ['s'])
      (run id List.isPrefixOf (start fun _ => none) [])) (List.replicate 4 (.next 12 false)) := by
  refine call_clean_iff List.isPrefixOf (fun _ => none) [] (List.replicate 4 (.next 12 false)) 12 36000 36128
    0 ['/', 't'] ['s'] rfl (fun e he _ => ?_) rfl
  exact ⟨false, List.eq_of_mem_replicate he⟩

/-- Others have the ports up to 48999. -/
def reservedFiles : Log Nat Text := fun n => if 48928 < n ∧ n < 49000 then some [['7', ' ', '/', 'u']] else none

/-- The script finds port 49000 free, exits with an error and leaves its file. -/
theorem last_port_left :
    (run id List.isPrefixOf (start reservedFiles) (.source 12 (sourced 48928 49056 9 ['/', 't'] ['s']) ::
      List.replicate 66 (.next 12 false))).pc 12 = .idle ∧
    ¬ Clean 12 48928 (start reservedFiles) (run id List.isPrefixOf (start reservedFiles)
      (.source 12 (sourced 48928 49056 9 ['/', 't'] ['s']) :: List.replicate 66 (.next 12 false))) := by
  refine ⟨rfl, fun hclean => ?_⟩
  have hfirst : (run id List.isPrefixOf (start reservedFiles) (.source 12 (sourced 48928 49056 9 ['/', 't'] ['s']) ::
      List.replicate 66 (.next 12 false))).files.first 49000 = some ['1', '2', ' ', '/', 't', ' ', 's'] := rfl
  have hmine : Mine 12 (run id List.isPrefixOf (start reservedFiles)
      (.source 12 (sourced 48928 49056 9 ['/', 't'] ['s']) :: List.replicate 66 (.next 12 false))).files 49000 :=
    ⟨_, hfirst, ['/', 't', ' ', 's'], rfl⟩
  have hnew : ¬ Mine 12 reservedFiles 49000 := not_mine_of_none rfl
  rcases hclean with ⟨-, hsame⟩ | ⟨portno, -, -, hlimit, -, hsame⟩
  · exact hnew ((hsame 49000).1 hmine)
  · rcases (hsame 49000).1 hmine with hold | rfl
    · exact hnew hold
    · exact Nat.lt_irrefl _ hlimit

end YottaTest.Port
