import Scriptlet.Proofs.Ends
import Scriptlet.Run.Exec

/-!
# Single steps of a run

How the steps that expressions and statements are made of end.
-/

namespace Scriptlet.Run

variable {α : Type} {s : State} {ok : α → State → Prop} {bad : Failure → State → Prop}

@[simp] theorem ends_lift (span : Span) (x : Except Fault α) :
    Ends (lift span x) s ok bad ↔
      match x with
      | .ok a => ok a s
      | .error fault => bad ⟨fault, span⟩ s := by
  cases x <;> rfl

@[simp] theorem ends_fail (fault : Fault) (span : Span) :
    Ends (fail fault span : Run α) s ok bad ↔ bad ⟨fault, span⟩ s := Iff.rfl

@[simp] theorem ends_between (enter leave : State → State) (p : Run α) :
    Ends (between enter leave p) s ok bad ↔
      Ends p (enter s) (fun a s' => ok a (leave s')) (fun e s' => bad e (leave s')) := by
  simp only [Ends, between]
  cases p (enter s) <;> rfl

section

variable {b : Bounds}

-- At a state, a computation that branches is the branch it takes there.
theorem tick_spent {span : Span} {s : State} (h : b.limits.stepBudget ≤ s.steps) :
    tick b span s = .error ⟨.stepBudget b.limits.stepBudget, span⟩ s :=
  congrFun (if_pos h) s

theorem tick_late {span : Span} {s : State} (h : s.steps < b.limits.stepBudget)
    (hclock : (s.steps + 1) % clockInterval = 0 ∧ b.clock.expired (s.steps + 1) = true) :
    tick b span s = .error ⟨.deadline b.limits.timeoutMs, span⟩ { s with steps := s.steps + 1 } :=
  (congrFun (if_neg (Nat.not_le_of_lt h)) s).trans (congrFun (if_pos hclock) _)

theorem tick_step {span : Span} {s : State} (h : s.steps < b.limits.stepBudget)
    (hclock : ¬ ((s.steps + 1) % clockInterval = 0 ∧ b.clock.expired (s.steps + 1) = true)) :
    tick b span s = .ok () { s with steps := s.steps + 1 } :=
  (congrFun (if_neg (Nat.not_le_of_lt h)) s).trans (congrFun (if_neg hclock) _)

end

/-- Taking a step changes the number of steps only, and fails only for want of steps or time. -/
theorem tick_ends (b : Bounds) (span : Span) (s : State) :
    Ends (tick b span) s (fun _ s' => s' = { s with steps := s.steps + 1 })
      (fun e _ => e.fault.code = .timeout) := by
  simp only [tick, ends_bind, ends_get, ends_ite, ends_set, ends_pure, ends_fail]
  split
  · rfl
  · split <;> trivial

/-- A variable is read if there is one of that name. -/
theorem ends_load {ok : Value → State → Prop} (name : Ident) :
    Ends (load name) s ok bad ↔
      match s.binding? name.name with
      | some b => ok b.value s
      | none => bad ⟨.undefined name.name, name.span⟩ s := by
  simp only [load, ends_bind, ends_get]
  cases s.binding? name.name <;> rfl

/-- What is stored is the value fitted to the variable, which must be there. -/
theorem ends_store {ok : Value → State → Prop} (name : Ident) (value : Value) :
    Ends (store name value) s ok bad ↔
      match s.binding? name.name with
      | some b =>
        match coerce b.declared name.name value with
        | .ok value => ok value (s.replace name.name { b with value })
        | .error fault => bad ⟨fault, name.span⟩ s
      | none => bad ⟨.undefined name.name, name.span⟩ s := by
  simp only [store, ends_bind, ends_get]
  cases s.binding? name.name with
  | none => rfl
  | some b =>
    simp only [ends_bind, ends_lift]
    cases coerce b.declared name.name value <;> rfl

theorem ends_declare {ok : Unit → State → Prop} (name : Ident) (declared : Option Ty) (value : Value) :
    Ends (declare name declared value) s ok bad ↔
      match coerce declared name.name value with
      | .ok value => ok () (s.mapFrame (·.declare name.name ⟨value, declared, name.span⟩))
      | .error fault => bad ⟨fault, name.span⟩ s := by
  simp only [declare, ends_bind, ends_lift]
  cases coerce declared name.name value <;> rfl

theorem ends_printLine {ok : Unit → State → Prop} (line : String) (span : Span) :
    Ends (printLine line span) s ok bad ↔
      match s.sink.writeLine line with
      | .ok sink => ok () { s with sink }
      | .error fault => bad ⟨fault, span⟩ s := by
  simp only [printLine, ends_bind, ends_get, ends_lift]
  cases s.sink.writeLine line <;> rfl

/-! ### Results of single steps -/

section

variable {name : Ident} {binding : Binding} {line : String} {span : Span}

theorem get_bind_apply (f : State → Run α) (s : State) : ((get : Run State) >>= f) s = f s s := rfl

theorem load_of_binding (h : s.binding? name.name = some binding) : load name s = .ok binding.value s := by
  rw [load, get_bind_apply, h]
  rfl

theorem load_undefined (h : s.binding? name.name = none) :
    load name s = .error ⟨.undefined name.name, name.span⟩ s := by
  rw [load, get_bind_apply, h]
  rfl

theorem store_of_ok {value fitted : Value} (h : s.binding? name.name = some binding)
    (hfit : coerce binding.declared name.name value = .ok fitted) :
    store name value s = .ok fitted (s.replace name.name { binding with value := fitted }) := by
  rw [store, get_bind_apply, h]
  simp only [hfit]
  rfl

theorem store_of_error {value : Value} {fault : Fault} (h : s.binding? name.name = some binding)
    (hfit : coerce binding.declared name.name value = .error fault) :
    store name value s = .error ⟨fault, name.span⟩ s := by
  rw [store, get_bind_apply, h]
  simp only [hfit]
  rfl

theorem store_undefined {value : Value} (h : s.binding? name.name = none) :
    store name value s = .error ⟨.undefined name.name, name.span⟩ s := by
  rw [store, get_bind_apply, h]
  rfl

theorem printLine_of_ok {sink : Sink} (h : s.sink.writeLine line = .ok sink) :
    printLine line span s = .ok () { s with sink } := by
  rw [printLine, get_bind_apply, h]
  rfl

theorem printLine_of_error {fault : Fault} (h : s.sink.writeLine line = .error fault) :
    printLine line span s = .error ⟨fault, span⟩ s := by
  rw [printLine, get_bind_apply, h]
  rfl

end

/-! ### Ends of computations -/

section

variable {β : Type}

/-- The state in which a computation ended. -/
def endState : EStateM.Result Failure State α → State
  | .ok _ s | .error _ s => s

/-- Going on with `f` from where a computation has ended. -/
def andThen (f : α → Run β) : EStateM.Result Failure State α → EStateM.Result Failure State β
  | .ok a s => f a s
  | .error e s => .error e s

theorem bind_apply (p : Run α) (f : α → Run β) (s : State) : (p >>= f) s = andThen f (p s) := by
  simp only [bind, EStateM.bind, andThen]
  cases p s <;> rfl

/-- The same end, in another state. -/
def atEnd (f : State → State) : EStateM.Result Failure State α → EStateM.Result Failure State α
  | .ok a s => .ok a (f s)
  | .error e s => .error e (f s)

theorem endState_atEnd (f : State → State) (r : EStateM.Result Failure State α) :
    endState (atEnd f r) = f (endState r) := by
  cases r <;> rfl

theorem between_apply (enter leave : State → State) (p : Run α) (s : State) :
    between enter leave p s = atEnd leave (p (enter s)) := by
  unfold between
  cases p (enter s) <;> rfl

end

/-! ### Invariants -/

/-- A computation that keeps `I`, gives a result that satisfies `P`, and fails only as `bad` says. -/
def Preserves (I : State → Prop) (bad : Failure → Prop) (P : α → Prop) (p : Run α) : Prop :=
  ∀ s, I s → Ends p s (fun a s' => P a ∧ I s') fun failure _ => bad failure

namespace Preserves

variable {β : Type} {I : State → Prop} {bad : Failure → Prop} {P : α → Prop} {Q : β → Prop}
  {p : Run α} {f : α → Run β}

theorem pure {a : α} (h : P a) : Preserves I bad P (pure a : Run α) := fun _ hs => ⟨h, hs⟩

theorem get : Preserves I bad (fun _ => True) (get : Run State) := fun _ hs => ⟨trivial, hs⟩

theorem bind (hp : Preserves I bad P p) (hf : ∀ a, P a → Preserves I bad Q (f a)) :
    Preserves I bad Q (p >>= f) := by
  intro s hs
  rw [ends_bind]
  exact (hp s hs).mono_ok fun a s' h => hf a h.1 s' h.2

/-- A loop ends normally, or with what its body returns. -/
theorem loop {b : Bounds} {span : Span} {cond : Run Bool} {body : Run Signal} {P P' : Signal → Prop}
    (htick : Preserves I bad (fun _ => True) (tick b span))
    (hcond : Preserves I bad (fun _ => True) cond) (hbody : Preserves I bad P body) (hnormal : P' .normal)
    (hreturned : ∀ value, P (.returned value) → P' (.returned value)) (rounds : Nat) :
    Preserves I bad P' (iterate b span cond body rounds) := by
  induction rounds with
  | zero => exact .bind htick fun _ _ => .pure hnormal
  | succ rounds ih =>
    refine .bind htick fun _ _ => .bind hcond fun again _ => ?_
    cases again with
    | false => exact .pure hnormal
    | true =>
      refine .bind hbody fun signal hsignal => ?_
      cases signal with
      | normal | continued => exact ih
      | broke => exact .pure hnormal
      | returned value => exact .pure (hreturned value hsignal)

theorem iterate {b : Bounds} {span : Span} {cond : Run Bool} {body : Run Signal} {P : Signal → Prop}
    (htick : Preserves I bad (fun _ => True) (tick b span))
    (hcond : Preserves I bad (fun _ => True) cond) (hbody : Preserves I bad P body) (hnormal : P .normal)
    (rounds : Nat) : Preserves I bad P (iterate b span cond body rounds) :=
  loop htick hcond hbody hnormal (fun _ hvalue => hvalue) rounds

end Preserves

end Scriptlet.Run
