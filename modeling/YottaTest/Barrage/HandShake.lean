/-
  File:      YottaTest/Barrage/HandShake.lean
  Subject:   The hand-shake of a replay: the parent delegates actions to its children one by one.

  The parent stores an action in `^ACTION(pid)`, sends the child a signal and polls a flag that its
  own interrupt sets; the child polls a flag that the parent's signal sets, performs the action,
  kills `^ACTION(pid)`, clears its flag and sends a signal back. A signal that has been sent is
  delivered at any later time; two of one kind that are pending are one.

  * `Sys`, `parentStep`, `childStep`, `Step` -- the processes statement by statement, and the
    deliveries;
  * `Setup.program` -- the delegated actions in the log's order and the orders to terminate;
  * `Resting`, `Waiting`, `Inv` -- where a child is that is not addressed, how far the exchange
    with the addressed one has come, and all of it;
  * **`handShake_exactlyOnce`** -- in every reachable state the actions performed are those whose
    wait has returned, and at most the one being waited for: once each and in order;
  * **`wait_returns`** -- a wait can always come to its end: no signal is lost.
-/
import YottaTest.Lib.Run

namespace YottaTest.Barrage.Replay

open Function Relation YottaTest.Lib

/-! ## 1. Orders -/

/-- The value of `^ACTION(pid)`. -/
inductive Code where
  | setZroutines
  | compile
  | link
  | zrupdate
  | execute
  | rctlDump
  | term
  deriving DecidableEq, Repr

/-- What the parent orders a child to do. -/
inductive Order where
  | setZroutines (object : String)
  | compile (object : String)
  | link (object : String)
  | zrupdate (object : String)
  | execute (object : String) (choice : Nat)
  | rctlDump
  | term
  deriving DecidableEq, Repr

namespace Order

def action : Order → Code
  | setZroutines _ => .setZroutines
  | compile _ => .compile
  | link _ => .link
  | zrupdate _ => .zrupdate
  | execute _ _ => .execute
  | rctlDump => .rctlDump
  | term => .term

def object : Order → String
  | setZroutines object => object
  | compile object => object
  | link object => object
  | zrupdate object => object
  | execute object _ => object
  | rctlDump => ""
  | term => ""

def choice : Order → Option Nat
  | execute _ choice => some choice
  | _ => none

/-- What a child does with `action`, `object` and `choice` as it has read them. -/
def ofLocals (action : Code) (object : String) (choice : Nat) : Order :=
  match action with
  | .setZroutines => setZroutines object
  | .compile => compile object
  | .link => link object
  | .zrupdate => zrupdate object
  | .execute => execute object choice
  | .rctlDump => rctlDump
  | .term => term

end Order

/-- `^ACTION(pid)`, `^ACTION(pid,"object")` and `^ACTION(pid,"choice")`. -/
structure Slot where
  action : Option Code
  object : Option String
  choice : Option Nat
  deriving DecidableEq, Repr

def Slot.empty : Slot := ⟨none, none, none⟩

/-- `$data(^ACTION(pid))`. -/
def Slot.exists (s : Slot) : Bool := s.action.isSome || s.object.isSome || s.choice.isSome

def Slot.of (o : Order) : Slot := ⟨some o.action, some o.object, o.choice⟩

/-! ## 2. The processes -/

/-- The next statement of the parent. -/
inductive Parent (Pid : Type) where
  /-- `job @jobCmd` for the remaining children. -/
  | launch (todo : List Pid)
  /-- `quit:(0=^JOBS)  hang 1` -/
  | await
  /-- the next order: `set ^ACTION(curPid)=action` -/
  | ready
  /-- `set ^ACTION(curPid,"object")=…` -/
  | storeObject (c : Pid) (o : Order)
  /-- `set ^ACTION(curPid,"choice")=choice` -/
  | storeChoice (c : Pid) (o : Order)
  /-- `set proceed=0` -/
  | clear (c : Pid) (o : Order)
  /-- `$zsigproc(pid,SIGUSR1)` -/
  | signal (c : Pid) (o : Order)
  /-- `quit:proceed  hang TIMESTAMPTIME` -/
  | wait (c : Pid) (o : Order)

/-- The next statement of a child. -/
inductive Pc where
  | off
  /-- `set $zinterrupt="set interrupt=1"` -/
  | handler
  /-- `set interrupt=0`, of the start-up -/
  | boot
  /-- `$increment(^JOBS,-1)` -/
  | decr
  /-- `do:interrupt  hang TIMESTAMPTIME` -/
  | poll
  /-- `quit:('$data(^ACTION($job)))` -/
  | check
  | readAction
  | readObject (action : Code)
  | readChoice (action : Code) (object : String)
  | perform (o : Order)
  /-- `kill ^ACTION($job)` -/
  | kill
  /-- `set interrupt=0` -/
  | reset
  /-- `$zsigproc(parentPid,SIGUSR1)` -/
  | ack
  /-- `$zsigproc(parentPid,SIGUSR1)` of the order to terminate -/
  | ackTerm
  /-- `zhalt 0` -/
  | halt
  | halted
  /-- a read of an undefined node -/
  | fault
  deriving DecidableEq

/-- A child with its slot: `pending` is a signal sent to it and not yet delivered. -/
structure Child where
  pc : Pc
  slot : Slot
  pending : Bool
  interrupt : Bool

structure Sys (Pid : Type) where
  /-- `^JOBS` -/
  jobs : Int
  parent : Parent Pid
  /-- A signal sent to the parent and not yet delivered. -/
  pending : Bool
  proceed : Bool
  child : Pid → Child
  /-- The orders still to be given. -/
  queue : List (Pid × Order)
  /-- Ghost: the orders performed so far, oldest first. -/
  performed : List (Pid × Order)
  /-- Ghost: the orders whose `issueSignalAndWait` has returned. -/
  returned : List (Pid × Order)

variable {Pid : Type} [DecidableEq Pid]

def Sys.setChild (s : Sys Pid) (c : Pid) (l : Child) : Sys Pid :=
  { s with child := update s.child c l }

/-- The statement of the parent; `none` while it polls in vain, and at its end. -/
def parentStep (s : Sys Pid) : Option (Sys Pid) :=
  match s.parent with
  | .launch [] => some { s with parent := .await }
  | .launch (c :: todo) =>
      some { s.setChild c { s.child c with pc := .handler } with parent := .launch todo }
  | .await => if s.jobs = 0 then some { s with parent := .ready } else none
  | .ready =>
      match s.queue with
      | [] => none
      | (c, o) :: queue =>
          let l := s.child c
          some { s.setChild c { l with slot := { l.slot with action := some o.action } } with
            parent := .storeObject c o
            queue := queue }
  | .storeObject c o =>
      let l := s.child c
      some { s.setChild c { l with slot := { l.slot with object := some o.object } } with
        parent := if o.choice.isSome then .storeChoice c o else .clear c o }
  | .storeChoice c o =>
      let l := s.child c
      some { s.setChild c { l with slot := { l.slot with choice := o.choice } } with
        parent := .clear c o }
  | .clear c o => some { s with proceed := false, parent := .signal c o }
  | .signal c o =>
      some { s.setChild c { s.child c with pending := true } with parent := .wait c o }
  | .wait c o =>
      if s.proceed then
        some { s with parent := .ready, returned := s.returned ++ [(c, o)] }
      else none

/-- The statement of a child; `none` while it polls in vain, and when it is not there. -/
def childStep (s : Sys Pid) (c : Pid) : Option (Sys Pid) :=
  let l := s.child c
  let goto := fun pc => s.setChild c { l with pc := pc }
  match l.pc with
  | .off => none
  | .handler => some (goto .boot)
  | .boot => some (s.setChild c { l with pc := .decr, interrupt := false })
  | .decr => some { goto .poll with jobs := s.jobs - 1 }
  | .poll => if l.interrupt then some (goto .check) else none
  | .check => some (goto (if l.slot.exists then .readAction else .poll))
  | .readAction =>
      match l.slot.action with
      | some action => some (goto (.readObject action))
      | none => some (goto .fault)
  | .readObject action =>
      match l.slot.object with
      | some object =>
          some (goto (if action = .execute then .readChoice action object
            else .perform (.ofLocals action object 0)))
      | none => some (goto .fault)
  | .readChoice action object =>
      match l.slot.choice with
      | some choice => some (goto (.perform (.ofLocals action object choice)))
      | none => some (goto .fault)
  | .perform o =>
      some { goto (if o = .term then .ackTerm else .kill) with
        performed := s.performed ++ [(c, o)] }
  | .kill => some (s.setChild c { l with pc := .reset, slot := .empty })
  | .reset => some (s.setChild c { l with pc := .ack, interrupt := false })
  | .ack => some { goto .poll with pending := true }
  | .ackTerm => some { goto .halt with pending := true }
  | .halt => some (goto .halted)
  | .halted => none
  | .fault => none

/-- One step of any process, or a delivery. -/
inductive Step : Sys Pid → Sys Pid → Prop where
  | parent {s s' : Sys Pid} : parentStep s = some s' → Step s s'
  | child {s s' : Sys Pid} (c : Pid) : childStep s c = some s' → Step s s'
  /-- `set proceed=TRUE` -/
  | interruptParent {s : Sys Pid} : s.pending = true →
      Step s { s with pending := false, proceed := true }
  /-- `set interrupt=1` -/
  | interruptChild {s : Sys Pid} (c : Pid) : (s.child c).pending = true →
      Step s (s.setChild c { s.child c with pending := false, interrupt := true })

/-- The children of a replay and the orders for them, in the log's order. -/
structure Setup (Pid : Type) where
  children : List Pid
  nodup : children.Nodup
  orders : List (Pid × Order)
  known : ∀ x ∈ orders, x.1 ∈ children
  noTerm : ∀ x ∈ orders, x.2 ≠ .term

/-- Everything the parent delegates: the log's actions, and `terminateJobs`. -/
def Setup.program (p : Setup Pid) : List (Pid × Order) :=
  p.orders ++ p.children.map fun c => (c, .term)

/-- The parent has set its interrupt handler and `^JOBS`. -/
def Setup.start (p : Setup Pid) : Sys Pid where
  jobs := p.children.length
  parent := .launch p.children
  pending := false
  proceed := false
  child := fun _ => ⟨.off, .empty, false, false⟩
  queue := p.program
  performed := []
  returned := []

/-- The states of a replay. -/
def Reach (p : Setup Pid) (s : Sys Pid) : Prop := ReflTransGen Step p.start s

/-! ## 3. The program -/

omit [DecidableEq Pid] in
/-- No order follows the order to terminate its child. -/
theorem Setup.program_pairwise (p : Setup Pid) :
    p.program.Pairwise fun x y => x.2 = .term → y.1 ≠ x.1 := by
  refine List.pairwise_append.2 ⟨?_, ?_, fun x hx y _ ht => absurd ht (p.noTerm x hx)⟩
  · exact List.pairwise_of_forall_mem_list fun x hx y _ ht => absurd ht (p.noTerm x hx)
  · exact List.pairwise_map.2 (p.nodup.imp fun hne _ => hne.symm)

omit [DecidableEq Pid] in
theorem Setup.program_split (p : Setup Pid) {before after : List (Pid × Order)} {c : Pid}
    {o : Order} (h : p.program = before ++ (c, o) :: after) :
    c ∈ p.children ∧ (c, .term) ∉ before := by
  constructor
  · have hmem : (c, o) ∈ p.program := by rw [h]; simp
    rcases List.mem_append.1 hmem with hm | hm
    · exact p.known _ hm
    · obtain ⟨d, hd, he⟩ := List.mem_map.1 hm
      cases he
      exact hd
  · intro hterm
    have hpair := p.program_pairwise
    rw [h] at hpair
    exact (List.pairwise_append.1 hpair).2.2 _ hterm (c, o) (by simp) rfl rfl

/-! ## 4. The invariant -/

/-- The start-up of a child, before it has counted itself. -/
def Pc.booting : Pc → Bool
  | .off | .handler | .boot | .decr => true
  | _ => false

/-- A child that has started and is not addressed; `dismissed` if it was ordered to terminate. -/
inductive Idle (dismissed : Prop) : Child → Prop where
  | poll : ¬ dismissed → Idle dismissed ⟨.poll, .empty, false, false⟩
  | gone {pc : Pc} {slot : Slot} {interrupt : Bool} : pc = .halt ∨ pc = .halted → dismissed →
      Idle dismissed ⟨pc, slot, false, interrupt⟩

/-- A child that is not addressed. -/
inductive Resting (dismissed : Prop) : Child → Prop where
  | boots {pc : Pc} : pc.booting = true → ¬ dismissed →
      Resting dismissed ⟨pc, .empty, false, false⟩
  | idle {l : Child} : Idle dismissed l → Resting dismissed l

/-- Where a child can be that has been signalled and has not yet performed the order. -/
inductive Reads (o : Order) : Pc → Prop where
  | poll : Reads o .poll
  | check : Reads o .check
  | readAction : Reads o .readAction
  | readObject : Reads o (.readObject o.action)
  | readChoice : o.choice.isSome = true → Reads o (.readChoice o.action o.object)
  | perform : Reads o (.perform o)

/-- How far the exchange about an order has come: the parent, a signal pending to it, its flag,
    the child, and whether the order has been performed. -/
inductive Exchange (c : Pid) (o : Order) : Parent Pid → Bool → Bool → Child → Bool → Prop where
  | storeObject {proceed : Bool} : Exchange c o (.storeObject c o) false proceed
      ⟨.poll, ⟨some o.action, none, none⟩, false, false⟩ false
  | storeChoice {proceed : Bool} : Exchange c o (.storeChoice c o) false proceed
      ⟨.poll, ⟨some o.action, some o.object, none⟩, false, false⟩ false
  | clear {proceed : Bool} : Exchange c o (.clear c o) false proceed
      ⟨.poll, .of o, false, false⟩ false
  | signal : Exchange c o (.signal c o) false false ⟨.poll, .of o, false, false⟩ false
  | sent : Exchange c o (.wait c o) false false ⟨.poll, .of o, true, false⟩ false
  | reads {pc : Pc} : Reads o pc → Exchange c o (.wait c o) false false ⟨pc, .of o, false, true⟩ false
  | kill : o ≠ .term → Exchange c o (.wait c o) false false ⟨.kill, .of o, false, true⟩ true
  | reset : o ≠ .term → Exchange c o (.wait c o) false false ⟨.reset, .empty, false, true⟩ true
  | ack : o ≠ .term → Exchange c o (.wait c o) false false ⟨.ack, .empty, false, false⟩ true
  | ackTerm : o = .term → Exchange c o (.wait c o) false false ⟨.ackTerm, .of o, false, true⟩ true
  | acked {l : Child} : Idle (o = .term) l → Exchange c o (.wait c o) true false l true
  | proceed {l : Child} : Idle (o = .term) l → Exchange c o (.wait c o) false true l true

/-- The order in exchange. -/
def Parent.current : Parent Pid → List (Pid × Order)
  | .storeObject c o | .storeChoice c o | .clear c o | .signal c o | .wait c o => [(c, o)]
  | _ => []

/-- The parent is still starting the children or waiting for them. -/
structure Starting (p : Setup Pid) (s : Sys Pid) (todo : List Pid) : Prop where
  nodup : todo.Nodup
  known : ∀ c ∈ todo, c ∈ p.children
  off : ∀ c ∈ todo, (s.child c).pc = .off
  jobs : s.jobs = (p.children.countP fun c => (s.child c).pc.booting : Nat)
  pending : s.pending = false
  performed : s.performed = s.returned

/-- Where the parent is, with all that follows from it. -/
inductive Front (p : Setup Pid) (s : Sys Pid) : Prop where
  | launch (todo : List Pid) : s.parent = .launch todo → Starting p s todo → Front p s
  | await : s.parent = .await → Starting p s [] → Front p s
  | ready : s.parent = .ready → (∀ c ∈ p.children, (s.child c).pc.booting = false) →
      s.pending = false → s.performed = s.returned → Front p s
  | exchange (c : Pid) (o : Order) (done : Bool) : s.parent.current = [(c, o)] →
      (∀ c ∈ p.children, (s.child c).pc.booting = false) →
      Exchange c o s.parent s.pending s.proceed (s.child c) done →
      s.performed = s.returned ++ (if done then [(c, o)] else []) → Front p s

/-- The invariant of a replay. -/
structure Inv (p : Setup Pid) (s : Sys Pid) : Prop where
  plan : s.returned ++ (s.parent.current ++ s.queue) = p.program
  others : ∀ c, c ∉ s.parent.current.map Prod.fst →
    Resting ((c, .term) ∈ s.returned) (s.child c)
  stray : ∀ c, c ∉ p.children → (s.child c).pc = .off
  front : Front p s

omit [DecidableEq Pid] in
theorem inv_start (p : Setup Pid) : Inv p p.start where
  plan := rfl
  others := fun c _ => .boots rfl (by simp [Setup.start])
  stray := fun _ _ => rfl
  front := .launch p.children rfl
    { nodup := p.nodup
      known := fun _ h => h
      off := fun _ _ => rfl
      jobs := by simp [Setup.start, Pc.booting]
      pending := rfl
      performed := rfl }

/-! ## 5. Updates of one child -/

theorem setChild_self (s : Sys Pid) (c : Pid) (l : Child) : (s.setChild c l).child c = l := by
  simp [Sys.setChild]

theorem setChild_of_ne (s : Sys Pid) {c d : Pid} (l : Child) (h : d ≠ c) :
    (s.setChild c l).child d = s.child d := by
  simp [Sys.setChild, h]

theorem Idle.not_booting {d : Prop} {l : Child} (h : Idle d l) : l.pc.booting = false := by
  cases h with
  | poll => rfl
  | gone hpc =>
      rcases hpc with rfl | rfl
      · rfl
      · rfl

omit [DecidableEq Pid] in
theorem Exchange.not_booting {c : Pid} {o : Order} {par : Parent Pid} {pending proceed done : Bool}
    {l : Child} (h : Exchange c o par pending proceed l done) : l.pc.booting = false := by
  cases h with
  | reads h => cases h <;> rfl
  | acked h => exact h.not_booting
  | proceed h => exact h.not_booting
  | _ => rfl

/-- A step within an exchange: of the parent, the addressed child, or a delivery between them. -/
theorem Inv.exchange {p : Setup Pid} {s s' : Sys Pid} {c : Pid} {o : Order} {done : Bool}
    (h : Inv p s) (hcur : s.parent.current = [(c, o)])
    (hstarted : ∀ c ∈ p.children, (s.child c).pc.booting = false) (hc : c ∈ p.children)
    (hcur' : s'.parent.current = [(c, o)]) (hqueue : s'.queue = s.queue)
    (hret : s'.returned = s.returned) (hother : ∀ d, d ≠ c → s'.child d = s.child d)
    (hx : Exchange c o s'.parent s'.pending s'.proceed (s'.child c) done)
    (hperf : s'.performed = s.returned ++ (if done then [(c, o)] else [])) : Inv p s' where
  plan := by rw [hret, hcur', hqueue, ← hcur]; exact h.plan
  others := fun d hd => by
    have hne : d ≠ c := fun he => hd (by simp [hcur', he])
    rw [hret, hother d hne]
    exact h.others d (by simpa [hcur] using hne)
  stray := fun d hd => by
    have hne : d ≠ c := fun he => hd (he ▸ hc)
    rw [hother d hne]
    exact h.stray d hd
  front := by
    refine .exchange c o done hcur' (fun d hd => ?_) hx (by rw [hperf, hret])
    by_cases hne : d = c
    · rw [hne]
      exact hx.not_booting
    · rw [hother d hne]
      exact hstarted d hd

omit [DecidableEq Pid] in
/-- The addressed child is one of the setup's, and has not been ordered to terminate. -/
theorem Inv.current_known {p : Setup Pid} {s : Sys Pid} {c : Pid} {o : Order} (h : Inv p s)
    (hcur : s.parent.current = [(c, o)]) : c ∈ p.children ∧ (c, .term) ∉ s.returned := by
  have hplan := h.plan
  rw [hcur] at hplan
  exact p.program_split hplan.symm

/-! ## 6. The parent -/

omit [DecidableEq Pid] in
theorem Starting.started {p : Setup Pid} {s : Sys Pid} {todo : List Pid} (h : Starting p s todo)
    (hjobs : s.jobs = 0) : ∀ c ∈ p.children, (s.child c).pc.booting = false := by
  have hzero : (p.children.countP fun c => (s.child c).pc.booting) = 0 := by
    have := h.jobs
    omega
  intro c hc
  have := List.countP_eq_zero.1 hzero c hc
  simpa using this

theorem inv_parent_launch {p : Setup Pid} {s : Sys Pid} {c : Pid} {todo : List Pid} (h : Inv p s)
    (hp : s.parent = .launch (c :: todo)) (hst : Starting p s (c :: todo)) :
    Inv p { s.setChild c { s.child c with pc := .handler } with parent := .launch todo } := by
  have hnodup := List.nodup_cons.1 hst.nodup
  have hoff := hst.off c (by simp)
  have hcur : s.parent.current = [] := by rw [hp]; rfl
  have hplan := h.plan
  rw [hcur] at hplan
  refine ⟨hplan, fun d _ => ?_, fun d hd => ?_, .launch todo rfl ⟨hnodup.2, ?_, ?_, ?_, ?_, ?_⟩⟩
  · show Resting _ ((s.setChild c _).child d)
    by_cases hd : d = c
    · subst hd
      rw [setChild_self]
      cases hr : s.child d with
      | mk pc slot pending interrupt =>
          have hrest := h.others d (by simp [hcur])
          rw [hr] at hrest hoff
          cases hoff
          cases hrest with
          | boots _ hn => exact .boots rfl hn
          | idle hi => exact absurd hi.not_booting (by simp [Pc.booting])
    · rw [setChild_of_ne s _ hd]
      exact h.others d (by simp [hcur])
  · have hne : d ≠ c := fun he => hd (he ▸ hst.known c (by simp))
    exact (congrArg Child.pc (setChild_of_ne s _ hne)).trans (h.stray d hd)
  · exact fun d hd => hst.known d (by simp [hd])
  · intro d hd
    have hne : d ≠ c := fun he => hnodup.1 (he ▸ hd)
    exact (congrArg Child.pc (setChild_of_ne s _ hne)).trans (hst.off d (by simp [hd]))
  · have hcount := countP_update (fun l => l.pc.booting) s.child c
      { s.child c with pc := .handler } p.children p.nodup (hst.known c (by simp))
    rw [hoff] at hcount
    have hjobs := hst.jobs
    simp only [show Pc.off.booting = true from rfl, show Pc.handler.booting = true from rfl,
      if_true] at hcount
    simp only [Sys.setChild]
    omega
  · exact hst.pending
  · exact hst.performed

/-- The next order is taken: its child has started and polls. -/
theorem inv_parent_take {p : Setup Pid} {s : Sys Pid} {c : Pid} {o : Order}
    {queue : List (Pid × Order)} (h : Inv p s) (hp : s.parent = .ready)
    (hstarted : ∀ c ∈ p.children, (s.child c).pc.booting = false) (hpend : s.pending = false)
    (hperf : s.performed = s.returned) (hq : s.queue = (c, o) :: queue) :
    Inv p { s.setChild c { s.child c with
        slot := { (s.child c).slot with action := some o.action } } with
      parent := .storeObject c o
      queue := queue } := by
  have hcur : s.parent.current = [] := by rw [hp]; rfl
  have hplan := h.plan
  rw [hcur, hq] at hplan
  obtain ⟨hc, hterm⟩ := p.program_split hplan.symm
  -- not booting and not dismissed: the child polls
  have hidle : s.child c = ⟨.poll, .empty, false, false⟩ := by
    have hrest := h.others c (by simp [hcur])
    have hboot := hstarted c hc
    generalize s.child c = l at hrest hboot
    cases hrest with
    | boots hb _ => exact absurd hb (by rw [hboot]; simp)
    | idle hi =>
        cases hi with
        | poll => rfl
        | gone _ hd => exact absurd hd hterm
  have hself : (s.setChild c { s.child c with
      slot := { (s.child c).slot with action := some o.action } }).child c =
      ⟨.poll, ⟨some o.action, none, none⟩, false, false⟩ := by
    rw [setChild_self, hidle]
    rfl
  refine ⟨hplan, fun d hd => ?_, fun d hd => ?_, .exchange c o false rfl (fun d hd => ?_) ?_ ?_⟩
  · have hne : d ≠ c := fun he => hd (by simp [Parent.current, he])
    have := h.others d (by simp [hcur])
    rwa [← setChild_of_ne s _ hne] at this
  · have hne : d ≠ c := fun he => hd (he ▸ hc)
    exact (congrArg Child.pc (setChild_of_ne s _ hne)).trans (h.stray d hd)
  · by_cases hne : d = c
    · rw [hne]
      exact congrArg (fun l => l.pc.booting) hself
    · exact (congrArg (fun l => l.pc.booting) (setChild_of_ne s _ hne)).trans (hstarted d hd)
  · show Exchange c o (.storeObject c o) s.pending s.proceed _ false
    rw [hpend]
    exact hself ▸ .storeObject
  · exact hperf.trans (List.append_nil _).symm

/-- The wait is over. -/
theorem inv_parent_return {p : Setup Pid} {s : Sys Pid} {c : Pid} {o : Order} (h : Inv p s)
    (hp : s.parent = .wait c o)
    (hstarted : ∀ c ∈ p.children, (s.child c).pc.booting = false) (hpend : s.pending = false)
    (hidle : Idle (o = .term) (s.child c)) (hperf : s.performed = s.returned ++ [(c, o)]) :
    Inv p { s with parent := .ready, returned := s.returned ++ [(c, o)] } := by
  have hcur : s.parent.current = [(c, o)] := by rw [hp]; rfl
  obtain ⟨hc, hterm⟩ := h.current_known hcur
  have hplan := h.plan
  rw [hcur] at hplan
  refine ⟨by simpa [Parent.current] using hplan, fun d _ => ?_, h.stray, .ready rfl hstarted hpend hperf⟩
  by_cases hd : d = c
  · subst hd
    have hiff : (d, Order.term) ∈ s.returned ++ [(d, o)] ↔ o = .term := by
      simp [hterm, eq_comm]
    exact .idle (by rw [hiff]; exact hidle)
  · have hiff : (d, Order.term) ∈ s.returned ++ [(c, o)] ↔ (d, .term) ∈ s.returned := by
      simp [hd]
    rw [hiff]
    exact h.others d (by simpa [hcur] using hd)

theorem inv_parent {p : Setup Pid} {s s' : Sys Pid} (h : Inv p s) (hs : parentStep s = some s') :
    Inv p s' := by
  cases h.front with
  | launch todo hp hst =>
      cases todo with
      | nil =>
          simp only [parentStep, hp, Option.some.injEq] at hs
          subst hs
          have hplan := h.plan
          rw [hp] at hplan
          exact ⟨hplan, fun c _ => h.others c (by simp [hp, Parent.current]), h.stray,
            .await rfl ⟨hst.nodup, hst.known, hst.off, hst.jobs, hst.pending, hst.performed⟩⟩
      | cons c todo =>
          simp only [parentStep, hp, Option.some.injEq] at hs
          subst hs
          exact inv_parent_launch h hp hst
  | await hp hst =>
      simp only [parentStep, hp] at hs
      split at hs
      · rename_i hjobs
        cases hs
        have hplan := h.plan
        rw [hp] at hplan
        exact ⟨hplan, fun c _ => h.others c (by simp [hp, Parent.current]), h.stray,
          .ready rfl (hst.started hjobs) hst.pending hst.performed⟩
      · cases hs
  | ready hp hstarted hpend hperf =>
      simp only [parentStep, hp] at hs
      cases hq : s.queue with
      | nil => simp [hq] at hs
      | cons x queue =>
          obtain ⟨c, o⟩ := x
          simp only [hq, Option.some.injEq] at hs
          subst hs
          exact inv_parent_take h hp hstarted hpend hperf hq
  | exchange c o done hcur hstarted hx hperf =>
      have hc := (h.current_known hcur).1
      generalize hpar : s.parent = par at hx
      generalize hpend : s.pending = pending at hx
      generalize hproc : s.proceed = proceed at hx
      generalize hl : s.child c = l at hx
      cases hx with
      | storeObject =>
          simp only [parentStep, hpar, Option.some.injEq, hl] at hs
          subst hs
          refine h.exchange hcur hstarted hc ?_ rfl rfl
            (fun d hd => setChild_of_ne s _ hd) ?_ hperf
          · dsimp only
            split <;> rfl
          · show Exchange c o _ s.pending s.proceed ((s.setChild c _).child c) false
            rw [setChild_self, hpend]
            cases hch : o.choice with
            | none =>
                have hof : (⟨some o.action, some o.object, none⟩ : Slot) = .of o := by
                  rw [Slot.of, hch]
                rw [Option.isSome_none, if_neg (by simp), hof]
                exact .clear
            | some n =>
                rw [Option.isSome_some, if_pos rfl]
                exact .storeChoice
      | storeChoice =>
          simp only [parentStep, hpar, Option.some.injEq, hl] at hs
          subst hs
          refine h.exchange hcur hstarted hc rfl rfl rfl
            (fun d hd => setChild_of_ne s _ hd) ?_ hperf
          show Exchange c o _ s.pending s.proceed ((s.setChild c _).child c) false
          rw [setChild_self, hpend]
          exact .clear
      | clear =>
          simp only [parentStep, hpar, Option.some.injEq] at hs
          subst hs
          refine h.exchange hcur hstarted hc rfl rfl rfl (fun _ _ => rfl) ?_ hperf
          show Exchange c o _ s.pending false (s.child c) false
          rw [hl, hpend]
          exact .signal
      | signal =>
          simp only [parentStep, hpar, Option.some.injEq, hl] at hs
          subst hs
          refine h.exchange hcur hstarted hc rfl rfl rfl
            (fun d hd => setChild_of_ne s _ hd) ?_ hperf
          show Exchange c o _ s.pending s.proceed ((s.setChild c _).child c) false
          rw [setChild_self, hpend, hproc]
          exact .sent
      | sent => simp [parentStep, hpar, hproc] at hs
      | reads hr => simp [parentStep, hpar, hproc] at hs
      | kill => simp [parentStep, hpar, hproc] at hs
      | reset => simp [parentStep, hpar, hproc] at hs
      | ack => simp [parentStep, hpar, hproc] at hs
      | ackTerm => simp [parentStep, hpar, hproc] at hs
      | acked hi => simp [parentStep, hpar, hproc] at hs
      | proceed hi =>
          unfold parentStep at hs
          rw [hpar] at hs
          dsimp only at hs
          rw [if_pos hproc] at hs
          cases hs
          exact inv_parent_return h hpar hstarted hpend (hl ▸ hi) (by simpa using hperf)

/-! ## 7. The children and the deliveries -/

/-- The child in exchange. -/
theorem inv_child_current {p : Setup Pid} {s s' : Sys Pid} {c : Pid} {o : Order} {done : Bool}
    (h : Inv p s) (hcur : s.parent.current = [(c, o)])
    (hstarted : ∀ c ∈ p.children, (s.child c).pc.booting = false)
    (hx : Exchange c o s.parent s.pending s.proceed (s.child c) done)
    (hperf : s.performed = s.returned ++ (if done then [(c, o)] else []))
    (hs : childStep s c = some s') : Inv p s' := by
  have hc := (h.current_known hcur).1
  -- the parent's side stays; the child's is as `l`
  have hnext : ∀ (l : Child) (done' pending' : Bool) (performed' : List (Pid × Order)),
      s' = { s.setChild c l with pending := pending', performed := performed' } →
      Exchange c o s.parent pending' s.proceed l done' →
      performed' = s.returned ++ (if done' then [(c, o)] else []) → Inv p s' := by
    rintro l done' pending' performed' rfl hx' hperf'
    refine h.exchange hcur hstarted hc hcur rfl rfl (fun d hd => setChild_of_ne s l hd) ?_ hperf'
    show Exchange c o s.parent pending' s.proceed ((s.setChild c l).child c) done'
    rwa [setChild_self]
  generalize hpar : s.parent = par at hx hnext
  generalize hpend : s.pending = pending at hx hnext
  generalize hproc : s.proceed = proceed at hx hnext
  generalize hl : s.child c = l at hx
  unfold childStep at hs
  rw [hl] at hs
  cases hx with
  | storeObject => simp at hs
  | storeChoice => simp at hs
  | clear => simp at hs
  | signal => simp at hs
  | sent => simp at hs
  | reads hr =>
      cases hr with
      | poll =>
          cases hs
          exact hnext _ false false s.performed (by rw [← hpend]; rfl) (.reads .check) hperf
      | check =>
          cases hs
          exact hnext _ false false s.performed (by rw [← hpend]; rfl) (.reads .readAction) hperf
      | readAction =>
          cases hs
          exact hnext _ false false s.performed (by rw [← hpend]; rfl) (.reads .readObject) hperf
      | readObject =>
          cases hs
          refine hnext _ false false s.performed (by rw [← hpend]; rfl) (.reads ?_) hperf
          cases o with
          | execute object choice => exact .readChoice rfl
          | _ => exact .perform
      | readChoice hch =>
          cases o with
          | execute object choice =>
              cases hs
              exact hnext _ false false s.performed (by rw [← hpend]; rfl) (.reads .perform) hperf
          | _ => simp [Order.choice] at hch
      | perform =>
          cases hs
          refine hnext ⟨if o = .term then .ackTerm else .kill, .of o, false, true⟩ true false
            (s.performed ++ [(c, o)]) (by rw [← hpend]; rfl) ?_ (by rw [hperf]; simp)
          by_cases ho : o = .term
          · rw [if_pos ho]
            exact .ackTerm ho
          · rw [if_neg ho]
            exact .kill ho
  | kill ho =>
      cases hs
      exact hnext _ true false s.performed (by rw [← hpend]; rfl) (.reset ho) hperf
  | reset ho =>
      cases hs
      exact hnext _ true false s.performed (by rw [← hpend]; rfl) (.ack ho) hperf
  | ack ho =>
      cases hs
      exact hnext _ true true s.performed rfl (.acked (.poll ho)) hperf
  | ackTerm ho =>
      cases hs
      exact hnext _ true true s.performed rfl (.acked (.gone (.inl rfl) ho)) hperf
  | acked hi =>
      cases hi with
      | poll => simp at hs
      | gone hpc hd =>
          rcases hpc with rfl | rfl
          · cases hs
            exact hnext _ true true s.performed (by rw [← hpend]; rfl)
              (.acked (.gone (.inr rfl) hd)) hperf
          · cases hs
  | proceed hi =>
      cases hi with
      | poll => simp at hs
      | gone hpc hd =>
          rcases hpc with rfl | rfl
          · cases hs
            exact hnext _ true false s.performed (by rw [← hpend]; rfl)
              (.proceed (.gone (.inr rfl) hd)) hperf
          · cases hs

/-- A child that is not addressed boots, or halts. -/
theorem inv_child_other {p : Setup Pid} {s s' : Sys Pid} {c : Pid} (h : Inv p s)
    (hc : c ∉ s.parent.current.map Prod.fst) (hs : childStep s c = some s') : Inv p s' := by
  have hrest := h.others c hc
  -- what such a step may do to the child, and to the count
  have hstep : ∃ l, s' = { s.setChild c l with
        jobs := s.jobs - (if (s.child c).pc.booting && !l.pc.booting then 1 else 0) } ∧
      Resting ((c, .term) ∈ s.returned) l ∧ (s.child c).pc ≠ .off ∧
      (l.pc.booting = true → (s.child c).pc.booting = true) := by
    unfold childStep at hs
    generalize s.child c = l at hrest hs
    cases hrest with
    | @boots pc hb hd =>
        cases pc with
        | handler =>
            cases hs
            exact ⟨⟨.boot, .empty, false, false⟩, by simp [Pc.booting, Sys.setChild], .boots rfl hd,
              by simp, fun _ => rfl⟩
        | boot =>
            cases hs
            exact ⟨⟨.decr, .empty, false, false⟩, by simp [Pc.booting, Sys.setChild], .boots rfl hd,
              by simp, fun _ => rfl⟩
        | decr =>
            cases hs
            exact ⟨⟨.poll, .empty, false, false⟩, by simp [Pc.booting, Sys.setChild],
              .idle (.poll hd), by simp, fun _ => rfl⟩
        | off => cases hs
        | _ => simp [Pc.booting] at hb
    | idle hi =>
        cases hi with
        | poll => simp at hs
        | @gone pc slot interrupt hpc hd =>
            rcases hpc with rfl | rfl
            · cases hs
              exact ⟨⟨.halted, slot, false, interrupt⟩, by simp [Pc.booting, Sys.setChild],
                .idle (.gone (.inr rfl) hd), by simp, fun hb => hb⟩
            · cases hs
  obtain ⟨l, rfl, hl, hoff, hboot⟩ := hstep
  have hknown : c ∈ p.children := Classical.byContradiction fun hn => hoff (h.stray c hn)
  have hothers : ∀ d, d ∉ s.parent.current.map Prod.fst →
      Resting ((d, .term) ∈ s.returned) ((s.setChild c l).child d) := fun d hd => by
    by_cases hdc : d = c
    · rw [hdc, setChild_self]
      exact hl
    · rw [setChild_of_ne s l hdc]
      exact h.others d hd
  have hstray : ∀ d, d ∉ p.children → ((s.setChild c l).child d).pc = .off := fun d hd => by
    have hdc : d ≠ c := fun he => hd (he ▸ hknown)
    rw [setChild_of_ne s l hdc]
    exact h.stray d hd
  have hstarted : (∀ d ∈ p.children, (s.child d).pc.booting = false) →
      ∀ d ∈ p.children, ((s.setChild c l).child d).pc.booting = false := fun hst d hd => by
    by_cases hdc : d = c
    · rw [hdc, setChild_self]
      have := hst c hknown
      cases hb : l.pc.booting with
      | false => rfl
      | true => rw [hboot hb] at this; cases this
    · rw [setChild_of_ne s l hdc]
      exact hst d hd
  have hstarting : ∀ todo, Starting p s todo → Starting p { s.setChild c l with
      jobs := s.jobs - (if (s.child c).pc.booting && !l.pc.booting then 1 else 0) } todo := by
    intro todo hst
    refine ⟨hst.nodup, hst.known, fun d hd => ?_, ?_, hst.pending, hst.performed⟩
    · have hdc : d ≠ c := fun he => hoff (he ▸ hst.off d hd)
      exact (congrArg Child.pc (setChild_of_ne s l hdc)).trans (hst.off d hd)
    · have hcount := countP_update (fun l => l.pc.booting) s.child c l p.children p.nodup hknown
      have hjobs := hst.jobs
      simp only [Sys.setChild]
      cases hb : l.pc.booting with
      | false =>
          cases hb' : (s.child c).pc.booting with
          | false => simp [hb, hb'] at hcount ⊢; omega
          | true => simp [hb, hb'] at hcount ⊢; omega
      | true => simp [hb, hboot hb] at hcount ⊢; omega
  refine ⟨h.plan, hothers, hstray, ?_⟩
  cases h.front with
  | launch todo hp hst => exact .launch todo hp (hstarting todo hst)
  | await hp hst => exact .await hp (hstarting [] hst)
  | ready hp hst hpend hperf => exact .ready hp (hstarted hst) hpend hperf
  | exchange d o done hcur hst hx hperf =>
      have hdc : d ≠ c := fun he => hc (by simp [hcur, he])
      refine .exchange d o done hcur (hstarted hst) ?_ hperf
      rwa [← setChild_of_ne s l hdc] at hx

theorem inv_child {p : Setup Pid} {s s' : Sys Pid} {c : Pid} (h : Inv p s)
    (hs : childStep s c = some s') : Inv p s' := by
  by_cases hc : c ∈ s.parent.current.map Prod.fst
  · cases h.front with
    | launch todo hp _ => simp [hp, Parent.current] at hc
    | await hp _ => simp [hp, Parent.current] at hc
    | ready hp _ _ _ => simp [hp, Parent.current] at hc
    | exchange d o done hcur hst hx hperf =>
        have hdc : c = d := by simpa [hcur] using hc
        subst hdc
        exact inv_child_current h hcur hst hx hperf hs
  · exact inv_child_other h hc hs

/-- A delivery to the parent: only the child in exchange sends it a signal, and only when it is
    done. -/
theorem inv_interruptParent {p : Setup Pid} {s : Sys Pid} (h : Inv p s) (hs : s.pending = true) :
    Inv p { s with pending := false, proceed := true } := by
  cases h.front with
  | launch todo _ hst => rw [hst.pending] at hs; cases hs
  | await _ hst => rw [hst.pending] at hs; cases hs
  | ready _ _ hpend _ => rw [hpend] at hs; cases hs
  | exchange c o done hcur hstarted hx hperf =>
      have hc := (h.current_known hcur).1
      refine h.exchange hcur hstarted hc hcur rfl rfl (fun _ _ => rfl) ?_ hperf
      show Exchange c o s.parent false true (s.child c) done
      rw [hs] at hx
      generalize s.parent = par at hx ⊢
      generalize s.proceed = proceed at hx
      cases hx with
      | acked hi => exact .proceed hi

theorem Idle.not_pending {d : Prop} {l : Child} (h : Idle d l) : l.pending = false := by
  cases h <;> rfl

/-- A delivery to a child: only the child in exchange is sent a signal. -/
theorem inv_interruptChild {p : Setup Pid} {s : Sys Pid} {c : Pid} (h : Inv p s)
    (hs : (s.child c).pending = true) :
    Inv p (s.setChild c { s.child c with pending := false, interrupt := true }) := by
  by_cases hc : c ∈ s.parent.current.map Prod.fst
  · cases h.front with
    | launch todo hp _ => simp [hp, Parent.current] at hc
    | await hp _ => simp [hp, Parent.current] at hc
    | ready hp _ _ _ => simp [hp, Parent.current] at hc
    | exchange d o done hcur hstarted hx hperf =>
        have hcd : c = d := by simpa [hcur] using hc
        subst hcd
        refine h.exchange hcur hstarted (h.current_known hcur).1 hcur rfl rfl
          (fun d hd => setChild_of_ne s _ hd) ?_ hperf
        show Exchange c o s.parent s.pending s.proceed ((s.setChild c _).child c) done
        rw [setChild_self]
        generalize s.parent = par at hx ⊢
        generalize s.pending = pending at hx ⊢
        generalize s.proceed = proceed at hx ⊢
        generalize s.child c = l at hx hs ⊢
        cases hx with
        | sent => exact .reads .poll
        | acked hi => rw [hi.not_pending] at hs; cases hs
        | proceed hi => rw [hi.not_pending] at hs; cases hs
        | _ => cases hs
  · have hrest := h.others c hc
    generalize s.child c = l at hrest hs
    cases hrest with
    | boots _ _ => cases hs
    | idle hi => rw [hi.not_pending] at hs; cases hs

theorem inv_step {p : Setup Pid} {s s' : Sys Pid} (h : Inv p s) (hs : Step s s') : Inv p s' := by
  cases hs with
  | parent hs => exact inv_parent h hs
  | child c hs => exact inv_child h hs
  | interruptParent hs => exact inv_interruptParent h hs
  | interruptChild c hs => exact inv_interruptChild h hs

theorem inv_of_reach {p : Setup Pid} {s : Sys Pid} (h : Reach p s) : Inv p s :=
  run_keeps (I := Inv p) (fun _ _ hI hs => inv_step hI hs) h (inv_start p)

/-! ## 8. A wait comes to its end -/

/-- How many steps the exchange is from the end of its wait, at most. -/
def distance (pending proceed : Bool) (l : Child) : Nat :=
  if proceed then 0
  else if pending then 1
  else if l.pending then 12
  else match l.pc with
    | .poll => 11
    | .check => 10
    | .readAction => 9
    | .readObject _ => 8
    | .readChoice _ _ => 7
    | .perform _ => 6
    | .kill => 5
    | .reset => 4
    | _ => 3

/-- **Until its flag is set some process is bound to bring the parent's wait closer to its end.** -/
theorem exchange_advances {p : Setup Pid} {s : Sys Pid} {c : Pid} {o : Order} (h : Inv p s)
    (hp : s.parent = .wait c o) (hproc : s.proceed = false) :
    ∃ s', Step s s' ∧ s'.parent = .wait c o ∧ s'.returned = s.returned ∧
      distance s'.pending s'.proceed (s'.child c) < distance s.pending s.proceed (s.child c) := by
  -- a step of the child, or a delivery to it
  have hstay : ∀ l : Child, Step s (s.setChild c l) →
      distance s.pending false l < distance s.pending false (s.child c) →
      ∃ s', Step s s' ∧ s'.parent = .wait c o ∧ s'.returned = s.returned ∧
        distance s'.pending s'.proceed (s'.child c) < distance s.pending s.proceed (s.child c) := by
    intro l hstep hlt
    refine ⟨_, hstep, hp, rfl, ?_⟩
    show distance s.pending s.proceed ((s.setChild c l).child c) < _
    rwa [setChild_self, hproc]
  -- a step of the child that does more
  have hmore : ∀ (pending' : Bool) (l : Child) (performed' : List (Pid × Order)),
      Step s { s.setChild c l with pending := pending', performed := performed' } →
      distance pending' false l < distance s.pending false (s.child c) →
      ∃ s', Step s s' ∧ s'.parent = .wait c o ∧ s'.returned = s.returned ∧
        distance s'.pending s'.proceed (s'.child c) < distance s.pending s.proceed (s.child c) := by
    intro pending' l performed' hstep hlt
    refine ⟨_, hstep, hp, rfl, ?_⟩
    show distance pending' s.proceed ((s.setChild c l).child c) < _
    rwa [setChild_self, hproc]
  cases h.front with
  | launch todo hp' _ => rw [hp] at hp'; cases hp'
  | await hp' _ => rw [hp] at hp'; cases hp'
  | ready hp' _ _ _ => rw [hp] at hp'; cases hp'
  | exchange d o' done hcur hstarted hx hperf =>
      rw [hp] at hcur hx
      obtain ⟨rfl, rfl⟩ : c = d ∧ o = o' := by simpa [Parent.current] using hcur
      rw [hproc] at hx
      have hdeliver : (s.child c).pending = true →
          Step s (s.setChild c { s.child c with pending := false, interrupt := true }) :=
        .interruptChild c
      generalize hpend : s.pending = pending at hx hstay hmore
      generalize hl : s.child c = l at hx hstay hmore hdeliver
      cases hx with
      | sent => exact hstay ⟨.poll, .of o, false, true⟩ (hdeliver rfl) (by simp [distance])
      | reads hr =>
          cases hr with
          | poll =>
              exact hstay ⟨.check, .of o, false, true⟩
                (.child c (by unfold childStep; rw [hl]; rfl)) (by simp [distance])
          | check =>
              exact hstay ⟨.readAction, .of o, false, true⟩
                (.child c (by unfold childStep; rw [hl]; rfl)) (by simp [distance])
          | readAction =>
              exact hstay ⟨.readObject o.action, .of o, false, true⟩
                (.child c (by unfold childStep; rw [hl]; rfl)) (by simp [distance])
          | readObject =>
              refine hstay ⟨if o.action = .execute then .readChoice o.action o.object
                else .perform (.ofLocals o.action o.object 0), .of o, false, true⟩
                (.child c (by unfold childStep; rw [hl]; rfl)) ?_
              split <;> simp [distance]
          | readChoice hch =>
              obtain ⟨n, hn⟩ := Option.isSome_iff_exists.1 hch
              refine hstay ⟨.perform (.ofLocals o.action o.object n), .of o, false, true⟩
                (.child c ?_) (by simp [distance])
              unfold childStep
              rw [hl]
              simp only [Slot.of, hn]
          | perform =>
              refine hmore s.pending ⟨if o = .term then .ackTerm else .kill, .of o, false, true⟩
                (s.performed ++ [(c, o)]) (.child c (by unfold childStep; rw [hl]; rfl)) ?_
              rw [hpend]
              split <;> simp [distance]
      | kill ho =>
          exact hstay ⟨.reset, .empty, false, true⟩
            (.child c (by unfold childStep; rw [hl])) (by simp [distance])
      | reset ho =>
          exact hstay ⟨.ack, .empty, false, false⟩
            (.child c (by unfold childStep; rw [hl])) (by simp [distance])
      | ack ho =>
          exact hmore true ⟨.poll, .empty, false, false⟩ s.performed
            (.child c (by unfold childStep; rw [hl]; rfl)) (by simp [distance])
      | ackTerm ho =>
          exact hmore true ⟨.halt, .of o, false, true⟩ s.performed
            (.child c (by unfold childStep; rw [hl]; rfl)) (by simp [distance])
      | acked hi =>
          exact ⟨_, .interruptParent hpend, hp, rfl, by simp [distance, hproc]⟩

/-- The wait the parent is in, or its end. -/
def InWait (p : Setup Pid) (c : Pid) (o : Order) (before : List (Pid × Order)) (s : Sys Pid) :
    Prop :=
  Inv p s ∧ s.parent = .wait c o ∧ s.returned = before

/-- **No signal is lost**: from every state in which the parent waits a run leads to the end of
    this wait. -/
theorem wait_returns {p : Setup Pid} {s : Sys Pid} (h : Reach p s) {c : Pid} {o : Order}
    (hp : s.parent = .wait c o) :
    ∃ s', ReflTransGen Step s s' ∧ s'.parent = .ready ∧ s'.returned = s.returned ++ [(c, o)] := by
  obtain ⟨t, hrun, ht, hproc⟩ := run_of_measure (InWait p c o s.returned)
    (fun t => t.proceed = true) (fun t => distance t.pending t.proceed (t.child c))
    (fun t ht hg => by
      obtain ⟨t', hstep, hp', hret, hlt⟩ := exchange_advances ht.1 ht.2.1 (by simpa using hg)
      exact ⟨t', hstep, ⟨inv_step ht.1 hstep, hp', hret.trans ht.2.2⟩, hlt⟩)
    _ s (Nat.le_refl _) ⟨inv_of_reach h, hp, rfl⟩
  refine ⟨{ t with parent := .ready, returned := t.returned ++ [(c, o)] },
    hrun.tail (.parent ?_), rfl, by rw [ht.2.2]⟩
  simp [parentStep, ht.2.1, hproc]

/-! ## 9. The hand-shake -/

theorem Reads.ne_fault {o : Order} {pc : Pc} (h : Reads o pc) : pc ≠ .fault := by
  cases h <;> simp

theorem Idle.ne_fault {d : Prop} {l : Child} (h : Idle d l) : l.pc ≠ .fault := by
  cases h with
  | poll => simp
  | gone hpc => rcases hpc with rfl | rfl <;> simp

theorem Inv.no_fault {p : Setup Pid} {s : Sys Pid} (h : Inv p s) (c : Pid) :
    (s.child c).pc ≠ .fault := by
  by_cases hc : c ∈ s.parent.current.map Prod.fst
  · cases h.front with
    | launch todo hp _ => simp [hp, Parent.current] at hc
    | await hp _ => simp [hp, Parent.current] at hc
    | ready hp _ _ _ => simp [hp, Parent.current] at hc
    | exchange d o done hcur _ hx _ =>
        have hcd : c = d := by simpa [hcur] using hc
        subst hcd
        generalize s.parent = par at hx
        generalize s.pending = pending at hx
        generalize s.proceed = proceed at hx
        generalize s.child c = l at hx
        cases hx with
        | reads hr => exact hr.ne_fault
        | acked hi => exact hi.ne_fault
        | proceed hi => exact hi.ne_fault
        | _ => simp
  · have hrest := h.others c hc
    generalize s.child c = l at hrest
    cases hrest with
    | @boots pc hb _ =>
        rintro rfl
        cases hb
    | idle hi => exact hi.ne_fault

omit [DecidableEq Pid] in
theorem Exchange.waits {c : Pid} {o : Order} {par : Parent Pid} {pending proceed done : Bool}
    {l : Child} (h : Exchange c o par pending proceed l done) (hd : done = true) :
    par = .wait c o := by
  cases h with
  | storeObject => cases hd
  | storeChoice => cases hd
  | clear => cases hd
  | signal => cases hd
  | _ => rfl

omit [DecidableEq Pid] in
theorem Exchange.performed_of_proceed {c : Pid} {o : Order} {pending done : Bool} {l : Child}
    (h : Exchange c o (.wait c o) pending true l done) : done = true := by
  cases h
  rfl

omit [DecidableEq Pid] in
/-- What has been performed, from where the parent is. -/
theorem Inv.performed_eq {p : Setup Pid} {s : Sys Pid} (h : Inv p s) :
    s.performed = s.returned ∨
      ∃ c o, s.parent = .wait c o ∧ s.performed = s.returned ++ [(c, o)] := by
  cases h.front with
  | launch _ _ hst => exact .inl hst.performed
  | await _ hst => exact .inl hst.performed
  | ready _ _ _ hperf => exact .inl hperf
  | exchange c o done _ _ hx hperf =>
      cases done with
      | false => exact .inl (by simpa using hperf)
      | true => exact .inr ⟨c, o, hx.waits rfl, hperf⟩

/-- **The hand-shake performs every order exactly once and in order.** In every reachable state:
    the orders performed are a beginning of the program; they are those whose wait has returned,
    and at most the one the parent waits for; when the parent's flag is set its order has been
    performed; no signal is lost; and no child reads an undefined node. -/
theorem handShake_exactlyOnce {p : Setup Pid} {s : Sys Pid} (h : Reach p s) :
    s.performed <+: p.program ∧
      (s.performed = s.returned ∨
        ∃ c o, s.parent = .wait c o ∧ s.performed = s.returned ++ [(c, o)]) ∧
      (∀ c o, s.parent = .wait c o → s.proceed = true →
        s.performed = s.returned ++ [(c, o)]) ∧
      (∀ c o, s.parent = .wait c o → ∃ s', ReflTransGen Step s s' ∧ s'.parent = .ready ∧
        s'.returned = s.returned ++ [(c, o)]) ∧
      (s.parent = .ready → s.queue = [] → s.performed = p.program) ∧
      ∀ c, (s.child c).pc ≠ .fault := by
  have hi := inv_of_reach h
  refine ⟨?_, hi.performed_eq, fun c o hp hproc => ?_, fun c o hp => wait_returns h hp,
    fun hp hq => ?_, hi.no_fault⟩
  · rw [← hi.plan]
    rcases hi.performed_eq with hperf | ⟨c, o, hp, hperf⟩
    · rw [hperf]
      exact List.prefix_append _ _
    · rw [hperf, hp, ← List.append_assoc]
      exact List.prefix_append _ _
  · cases hi.front with
    | launch _ hp' _ => rw [hp] at hp'; cases hp'
    | await hp' _ => rw [hp] at hp'; cases hp'
    | ready hp' _ _ _ => rw [hp] at hp'; cases hp'
    | exchange d o' done hcur _ hx hperf =>
        rw [hp] at hcur hx
        obtain ⟨rfl, rfl⟩ : c = d ∧ o = o' := by simpa [Parent.current] using hcur
        rw [hproc] at hx
        rw [hperf, hx.performed_of_proceed, if_pos rfl]
  · have hplan := hi.plan
    rw [hp, hq] at hplan
    rcases hi.performed_eq with hperf | ⟨c, o, hp', -⟩
    · rw [hperf]
      simpa [Parent.current] using hplan
    · rw [hp] at hp'
      cases hp'

/-- A child and one order, up to the parent's wait for it. -/
theorem handShake_exactlyOnce_wait : ∃ (p : Setup Nat) (s : Sys Nat),
    p.program = [(1, .link "a.o"), (1, .term)] ∧ s.parent = .wait 1 (.link "a.o") ∧
      ∃ s', ReflTransGen Step s s' ∧ s'.parent = .ready ∧
        s'.returned = s.returned ++ [(1, .link "a.o")] := by
  let p : Setup Nat := ⟨[1], by simp, [(1, .link "a.o")], by simp, by simp⟩
  have hrun : ∃ s, Reach p s ∧ s.parent = .wait 1 (.link "a.o") := by
    refine ⟨_, ReflTransGen.refl.tail (.parent rfl) |>.tail (.parent rfl) |>.tail (.child 1 rfl)
      |>.tail (.child 1 rfl) |>.tail (.child 1 rfl) |>.tail (.parent rfl) |>.tail (.parent rfl)
      |>.tail (.parent rfl) |>.tail (.parent rfl) |>.tail (.parent rfl), rfl⟩
  obtain ⟨s, hs, hp⟩ := hrun
  exact ⟨p, s, rfl, hp, (handShake_exactlyOnce hs).2.2.2.1 1 (.link "a.o") hp⟩

end YottaTest.Barrage.Replay
