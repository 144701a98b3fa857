import Mathlib.Data.Prod.Lex
import Mathlib.Order.WellFounded
import Scriptlet.Proofs.Reaches
import Scriptlet.Proofs.RunInvariant

/-!
# A run makes progress

In the course of a run the steps that are left become fewer and the output becomes longer, by whole
lines, within the bounds, and a call has ended when its value is there (`Gauge.Later`). So a run cannot go
on forever: a step into a part of what is run takes one of the steps that are left, or comes to something
smaller (`step_wellFounded`). For the same reason it does not matter that the rounds of a loop are counted
(`iterate_more`).
-/

namespace Scriptlet

/-- The text is made up of lines that have ended. -/
def WholeLines (text : String) : Prop :=
  ∃ lines : List String, text = String.join (lines.map (· ++ "\n"))

theorem WholeLines.nil : WholeLines "" := ⟨[], rfl⟩

theorem WholeLines.line (line : String) : WholeLines (line ++ "\n") := ⟨[line], by simp⟩

theorem WholeLines.append {s t : String} (hs : WholeLines s) (ht : WholeLines t) : WholeLines (s ++ t) := by
  obtain ⟨lines, rfl⟩ := hs
  obtain ⟨lines', rfl⟩ := ht
  exact ⟨lines ++ lines', by simp⟩

namespace Run

variable {b : Bounds}

/-! ### Later gauges -/

/-- What the gauge can have come to be after `g`. -/
structure Gauge.Later (b : Bounds) (g g' : Gauge) : Prop where
  steps : g.steps ≤ g'.steps
  budget : g.steps ≤ b.limits.stepBudget → g'.steps ≤ b.limits.stepBudget
  limit : g'.sink.limit = g.sink.limit
  output : ∃ more, WholeLines more ∧ g'.sink.text = g.sink.text ++ more
  room : g.sink.text.utf8ByteSize ≤ g.sink.limit → g'.sink.text.utf8ByteSize ≤ g'.sink.limit
  frames : g'.frames = g.frames

namespace Gauge.Later

variable {g g₁ g₂ g₃ : Gauge}

theorem refl (g : Gauge) : g.Later b g :=
  ⟨Nat.le_refl _, id, rfl, ⟨"", .nil, (String.append_empty).symm⟩, id, rfl⟩

theorem trans (h : g₁.Later b g₂) (h' : g₂.Later b g₃) : g₁.Later b g₃ where
  steps := h.steps.trans h'.steps
  budget hb := h'.budget (h.budget hb)
  limit := h'.limit.trans h.limit
  output := by
    obtain ⟨more, hmore, htext⟩ := h.output
    obtain ⟨more', hmore', htext'⟩ := h'.output
    exact ⟨more ++ more', hmore.append hmore', by rw [htext', htext, String.append_assoc]⟩
  room hroom := h'.room (h.room hroom)
  frames := h'.frames.trans h.frames

theorem step (h : g.steps < b.limits.stepBudget) : g.Later b { g with steps := g.steps + 1 } :=
  { refl (b := b) g with steps := Nat.le_succ _, budget := fun _ => h }

theorem print {line : String} {sink : Sink} (h : g.sink.writeLine line = .ok sink) :
    g.Later b { g with sink } := by
  unfold Sink.writeLine at h
  split at h <;> cases h
  next hroom =>
    refine { refl (b := b) g with
      limit := rfl, output := ⟨line ++ "\n", .line line, ?_⟩, room := fun _ => ?_ }
    · rw [String.append_assoc]
    · have hline : "\n".utf8ByteSize = 1 := rfl
      simp only [String.utf8ByteSize_append, hline]
      omega

/-- The number of calls is the same, wherever it is counted from. -/
theorem shift (h : g₁.Later b g₂) (n : Nat) : Gauge.Later b { g₁ with frames := n } { g₂ with frames := n } :=
  { h with frames := rfl }

theorem call (h : Gauge.Later b { g₁ with frames := g₁.frames + 1 } g₂) :
    g₁.Later b { g₂ with frames := g₂.frames - 1 } := by
  have hframes : g₂.frames - 1 = g₁.frames := by
    rw [h.frames]
    rfl
  rw [hframes]
  exact h.shift g₁.frames

end Gauge.Later

/-- A run makes progress. If it fails for want of steps, there are none left. -/
def progress (b : Bounds) : GaugeLaw b where
  Moves := Gauge.Later b
  Fails g e g' := g.Later b g' ∧ ∀ n, e.fault = .stepBudget n → b.limits.stepBudget ≤ g'.steps
  refl := .refl
  trans := .trans
  failAfter h h' := ⟨h.trans h'.1, h'.2⟩
  fault h := ⟨.refl _, fun _ hn => absurd (hn ▸ rfl) h⟩
  step hsteps _ := .step hsteps
  spent hsteps := ⟨.refl _, fun _ _ => hsteps⟩
  late hsteps _ := ⟨.step hsteps, nofun⟩
  print := .print
  call := .call
  callFail h := ⟨h.1.call, h.2⟩

/-- Every value will do. -/
def anyValue (b : Bounds) : ValueLaw b where
  Holds _ := True
  nil := trivial
  bool _ := trivial
  float _ := trivial
  strict _ := trivial
  unary _ := trivial
  body _ _ _ := trivial

/-! ### Points -/

/-- The values that a part of a program brings in. -/
def Task.constants : Task → List Value
  | .expr e => e.constants
  | .args es => Expr.constantsAll es
  | .load _ | .store _ | .initial _ => []
  | .stmt path s | .branch path s => Stmt.constants path s
  | .stmts path ss => Stmt.constantsAll path ss
  | .rounds path cond body _ _ => cond.constants ++ Stmt.constants path body

/-- A law of values holds of what is run, and of all variables. -/
structure Point.Held (V : ValueLaw b) (p : Point) : Prop where
  constants : ∀ v ∈ p.task.constants, V.Holds v
  vars : p.state.Held V.Holds

/-- The gauge at a point. The calls that may still nest are counted with those that are active. -/
def Point.gauge (p : Point) : Gauge := { p.state.gauge with frames := p.depth + p.state.gauge.frames }

theorem tick_ok {span : Span} {s s' : State} (h : tick b span s = .ok () s') :
    s.steps < b.limits.stepBudget ∧ s' = { s with steps := s.steps + 1 } := by
  rcases Nat.lt_or_ge s.steps b.limits.stepBudget with hleft | hspent
  · by_cases hclock : (s.steps + 1) % clockInterval = 0 ∧ b.clock.expired (s.steps + 1) = true
    · rw [tick_late hleft hclock] at h
      cases h
    · rw [tick_step hleft hclock] at h
      cases h
      exact ⟨hleft, rfl⟩
  · rw [tick_spent hspent] at h
    cases h

/-- What holds of a state that follows another when as many calls may nest. -/
structure Carries (V : ValueLaw b) (s s' : State) : Prop where
  vars : s'.Held V.Holds
  later : s.gauge.Later b s'.gauge

namespace Carries

variable {V : ValueLaw b} {s s₁ s₂ : State}

theorem refl (h : s.Held V.Holds) : Carries V s s := ⟨h, .refl _⟩

theorem trans (h : Carries V s s₁) (h' : Carries V s₁ s₂) : Carries V s s₂ :=
  ⟨h'.vars, h.later.trans h'.later⟩

theorem of_ok {α : Type} {P : α → Prop} {p : Run α} {a : α} (h : Follows V (progress b) P p)
    (hs : s.Held V.Holds) (hp : p s = .ok a s₁) : Carries V s s₁ :=
  have hok := h.of_ok hs hp
  ⟨hok.2.1, hok.2.2⟩

theorem tick {span : Span} (hs : s.Held V.Holds) (h : tick b span s = .ok () s₁) : Carries V s s₁ :=
  of_ok (.tick span) hs h

theorem push (hs : s.Held V.Holds) : Carries V s (s.mapFrame Frame.pushBlock) :=
  ⟨hs.mapFrame fun _ => .pushBlock, by rw [State.gauge_mapFrame]; exact .refl _⟩

variable {d : Nat}

theorem eval {e : Expr} {v : Value} (he : ∀ v ∈ e.constants, V.Holds v) (hs : s.Held V.Holds)
    (h : eval b (invoke b d) e s = .ok v s₁) : Carries V s s₁ :=
  of_ok (eval_follows (invoke_follows V (progress b) d) e he) hs h

theorem evalArgs {es : List Expr} {values : List (Value × Span)} (hes : ∀ v ∈ Expr.constantsAll es, V.Holds v)
    (hs : s.Held V.Holds) (h : evalArgs b (invoke b d) es s = .ok values s₁) : Carries V s s₁ :=
  of_ok (evalArgs_follows (invoke_follows V (progress b) d) es hes) hs h

theorem evalOption {e : Option Expr} {v : Value} (he : ∀ v ∈ Expr.constantsOption e, V.Holds v)
    (hs : s.Held V.Holds) (h : evalOption b (invoke b d) e s = .ok v s₁) : Carries V s s₁ :=
  of_ok (evalOption_follows (invoke_follows V (progress b) d) e he) hs h

theorem evalCondition {cond : Expr} {holds : Bool} (hcond : ∀ v ∈ cond.constants, V.Holds v)
    (hs : s.Held V.Holds) (h : evalCondition b (invoke b d) cond s = .ok holds s₁) : Carries V s s₁ :=
  of_ok (evalCondition_follows (invoke_follows V (progress b) d) hcond) hs h

theorem exec {path : TreePath} {stmt : Stmt} {signal : Signal} (hstmt : ∀ v ∈ Stmt.constants path stmt, V.Holds v)
    (hs : s.Held V.Holds) (h : exec b (invoke b d) path stmt s = .ok signal s₁) : Carries V s s₁ :=
  of_ok (exec_follows (invoke_follows V (progress b) d) path stmt hstmt) hs h

theorem branch {path : TreePath} {stmt : Stmt} {signal : Signal}
    (hstmt : ∀ v ∈ Stmt.constants path stmt, V.Holds v) (hs : s.Held V.Holds)
    (h : asBranch b stmt (Run.exec b (invoke b d) path stmt) s = .ok signal s₁) : Carries V s s₁ :=
  of_ok (asBranch_follows (exec_follows (invoke_follows V (progress b) d) path stmt hstmt)) hs h

/-- The point that comes next when as many calls may nest. -/
theorem point {task task' : Task} (h : Carries V s s₁) (htask : ∀ v ∈ task'.constants, V.Holds v) :
    (Point.mk d task' s₁).Held V ∧ (Point.mk d task s).gauge.Later b (Point.mk d task' s₁).gauge := by
  refine ⟨⟨htask, h.vars⟩, ?_⟩
  have hframes : s₁.gauge.frames = s.gauge.frames := h.later.frames
  unfold Point.gauge
  rw [hframes]
  exact h.later.shift _

end Carries

/-- A step into a part of what is run keeps a law of values and makes progress. -/
theorem Step.follows {V : ValueLaw b} {p q : Point} (h : Step b p q) (hp : p.Held V) :
    q.Held V ∧ p.gauge.Later b q.gauge := by
  obtain ⟨htask, hs⟩ := hp
  cases h with
  | ident => exact Carries.point (.refl hs) (List.forall_mem_nil _)
  | assignValue | operand | exprStmt | print | returned | init => exact Carries.point (.refl hs) htask
  | @assignStore d s s' target value span v hvalue =>
    have hconstants : ∀ v ∈ value.constants, V.Holds v := htask
    exact Carries.point (.eval hconstants hs hvalue) (List.forall_mem_nil _)
  | left =>
    obtain ⟨hlhs, -⟩ := List.forall_mem_append.1 htask
    exact Carries.point (.refl hs) hlhs
  | right hleft =>
    obtain ⟨hlhs, hrhs⟩ := List.forall_mem_append.1 htask
    exact Carries.point (.eval hlhs hs hleft) hrhs
  | callee htick =>
    obtain ⟨hcallee, -⟩ := List.forall_mem_append.1 htask
    exact Carries.point (.tick hs htick) hcallee
  | callArgs htick hcallee =>
    obtain ⟨hconstants, hargs⟩ := List.forall_mem_append.1 htask
    have h₁ := Carries.tick hs htick
    exact Carries.point (h₁.trans (.eval hconstants h₁.vars hcallee)) hargs
  | @callBody d _ s₁ s₂ s₃ callee args _ f values params htick hcallee hargs harity hparams =>
    obtain ⟨hconstants, hconstants'⟩ := List.forall_mem_append.1 htask
    have hcalls := invoke_follows V (progress b) (d + 1)
    have h₁ := Carries.tick hs htick
    have h₂ := h₁.trans (.eval hconstants h₁.vars hcallee)
    have h₃ := h₂.trans (.evalArgs hconstants' h₂.vars hargs)
    have hf := ((eval_follows hcalls callee hconstants).of_ok h₁.vars hcallee).1
    have hvalues := ((evalArgs_follows hcalls args hconstants').of_ok h₂.vars hargs).1
    refine ⟨⟨V.body hf, h₃.vars.enter (V.bindParams hvalues .empty hparams)⟩, ?_⟩
    -- one call fewer may nest, and one more is active
    have hframes : d + (s₃.enter params).gauge.frames = d + 1 + s₃.gauge.frames := by
      simp only [State.gauge, State.enter, List.length_cons]
      omega
    unfold Point.gauge
    rw [hframes, h₃.later.frames]
    exact h₃.later.shift _
  | arg =>
    obtain ⟨he, -⟩ := List.forall_mem_append.1 htask
    exact Carries.point (.refl hs) he
  | moreArgs hfirst =>
    obtain ⟨he, hes⟩ := List.forall_mem_append.1 htask
    exact Carries.point (.eval he hs hfirst) hes
  | initial hinit htop => exact Carries.point (.evalOption htask hs hinit) (List.forall_mem_nil _)
  | block => exact Carries.point (.push hs) htask
  | @cond d _ s cond thenStmt elseStmt span =>
    cases elseStmt <;>
    · obtain ⟨hcond, -⟩ := List.forall_mem_append.1 htask
      exact Carries.point (.refl hs) hcond
  | @thenBranch d _ s s' cond thenStmt elseStmt span hcond =>
    cases elseStmt with
    | none =>
      obtain ⟨hconstants, hthen⟩ := List.forall_mem_append.1 htask
      exact Carries.point (.evalCondition hconstants hs hcond) hthen
    | some elseStmt =>
      obtain ⟨hconstants, hbranches⟩ := List.forall_mem_append.1 htask
      exact Carries.point (.evalCondition hconstants hs hcond) (List.forall_mem_append.1 hbranches).1
  | elseBranch hcond =>
    obtain ⟨hconstants, hbranches⟩ := List.forall_mem_append.1 htask
    exact Carries.point (.evalCondition hconstants hs hcond) (List.forall_mem_append.1 hbranches).2
  | loop => exact Carries.point (.refl hs) htask
  | roundCond htick =>
    obtain ⟨hcond, -⟩ := List.forall_mem_append.1 htask
    exact Carries.point (.tick hs htick) hcond
  | roundBody htick hcond =>
    obtain ⟨hconstants, hbody⟩ := List.forall_mem_append.1 htask
    have h₁ := Carries.tick hs htick
    exact Carries.point (h₁.trans (.evalCondition hconstants h₁.vars hcond)) hbody
  | nextRound htick hcond hround hsignal =>
    obtain ⟨hconstants, hbody⟩ := List.forall_mem_append.1 htask
    have h₁ := Carries.tick hs htick
    have h₂ := h₁.trans (.evalCondition hconstants h₁.vars hcond)
    exact Carries.point (h₂.trans (.branch hbody h₂.vars hround)) htask
  | braced => exact Carries.point (.refl hs) htask
  | unbraced hstmt htick =>
    have h₁ := Carries.push hs
    exact Carries.point (h₁.trans (.tick h₁.vars htick)) htask
  | first htick =>
    obtain ⟨hstmt, -⟩ := List.forall_mem_append.1 htask
    exact Carries.point (.tick hs htick) hstmt
  | rest htick hfirst =>
    obtain ⟨hstmt, hstmts⟩ := List.forall_mem_append.1 htask
    have h₁ := Carries.tick hs htick
    exact Carries.point (h₁.trans (.exec hstmt h₁.vars hfirst)) hstmts

/-- Wherever a run arrives, the law of values has been kept and progress has been made. -/
theorem Reaches.follows {V : ValueLaw b} {p q : Point} (h : Reaches b p q) (hp : p.Held V) :
    q.Held V ∧ p.gauge.Later b q.gauge := by
  refine h.invariant (I := fun q => q.Held V ∧ p.gauge.Later b q.gauge) ?_ ⟨hp, .refl _⟩
  rintro q r hstep ⟨hq, hlater⟩
  have hr := hstep.follows hq
  exact ⟨hr.1, hlater.trans hr.2⟩

/-- The function that is called follows the law of values. -/
theorem Calls.held {V : ValueLaw b} {p : Point} {f : Func} {values : List (Value × Span)} {span : Span}
    {s : State} (h : Calls b p f values span s) (hp : p.Held V) : V.Holds (.function f) := by
  obtain ⟨htask, hs⟩ := hp
  cases h with
  | @intro d _ _ _ _ callee _ _ _ _ htick hcallee =>
    obtain ⟨hconstants, -⟩ := List.forall_mem_append.1 htask
    have h₁ := Carries.tick hs htick
    exact ((eval_follows (invoke_follows V (progress b) d) callee hconstants).of_ok h₁.vars hcallee).1

/-! ### Runs end -/

/-- The size of what is run. The rounds that a loop may go are not part of it. -/
noncomputable def Task.size : Task → Nat
  | .load _ | .store _ | .initial _ => 0
  | .expr e => sizeOf e
  | .args es => sizeOf es
  | .stmt _ s => 2 * sizeOf s
  | .branch _ s => 2 * sizeOf s + 1
  | .stmts _ ss => 2 * sizeOf ss
  | .rounds _ cond body _ _ => sizeOf cond + 2 * sizeOf body + 1

theorem any_held (s : State) : s.Held (anyValue b).Holds := by
  have hframe (f : Frame) : f.All ((anyValue b).Holds ·.value) :=
    ⟨fun _ _ _ => trivial, fun _ _ _ _ _ => trivial⟩
  exact ⟨hframe _, fun f _ => hframe f⟩

/-- A step into a part of what is run takes one of the steps that are left, or comes to something
smaller. -/
theorem Step.decreases {p q : Point} (h : Step b p q) :
    p.state.steps < b.limits.stepBudget ∧ p.state.steps < q.state.steps ∨
      p.state.steps ≤ q.state.steps ∧ q.task.size < p.task.size := by
  have hany (values : List Value) : ∀ v ∈ values, (anyValue b).Holds v := fun _ _ => trivial
  have hsteps : p.state.steps ≤ q.state.steps := (h.follows ⟨hany _, any_held _⟩).2.steps
  -- a step has been taken, and what came after it took none back
  have htaken {s s₁ s₂ : State} {span : Span} (htick : tick b span s = .ok () s₁)
      (hlater : s₁.steps ≤ s₂.steps) :
      s.steps < b.limits.stepBudget ∧ s.steps < s₂.steps := by
    obtain ⟨hleft, rfl⟩ := tick_ok htick
    exact ⟨hleft, hlater⟩
  cases h with
  | callee htick | roundCond htick | first htick => exact .inl (htaken htick (Nat.le_refl _))
  | callArgs htick hcallee =>
    exact .inl (htaken htick (Carries.eval (hany _) (any_held _) hcallee).later.steps)
  | callBody htick hcallee hargs =>
    have h₁ := Carries.eval (hany _) (any_held _) hcallee
    have h₂ := h₁.trans (.evalArgs (hany _) (any_held _) hargs)
    exact .inl (htaken htick h₂.later.steps)
  | roundBody htick hcond =>
    exact .inl (htaken htick (Carries.evalCondition (hany _) (any_held _) hcond).later.steps)
  | nextRound htick hcond hround =>
    have h₁ := Carries.evalCondition (hany _) (any_held _) hcond
    have h₂ := h₁.trans (.branch (hany _) (any_held _) hround)
    exact .inl (htaken htick h₂.later.steps)
  | @unbraced d _ s s' stmt hstmt htick =>
    have hpush : (s.mapFrame Frame.pushBlock).steps = s.steps := congrArg Gauge.steps (s.gauge_mapFrame _)
    have htaken' := htaken htick (Nat.le_refl _)
    rw [hpush] at htaken'
    exact .inl htaken'
  | rest htick hfirst =>
    exact .inl (htaken htick (Carries.exec (hany _) (any_held _) hfirst).later.steps)
  | _ =>
    refine .inr ⟨hsteps, ?_⟩
    simp only [Task.size, Expr.ident.sizeOf_spec, Expr.assign.sizeOf_spec, Expr.binary.sizeOf_spec,
      Expr.unary.sizeOf_spec, Stmt.varDecl.sizeOf_spec, Stmt.expr.sizeOf_spec, Stmt.print.sizeOf_spec,
      Stmt.returnWith.sizeOf_spec, Stmt.block.sizeOf_spec, Stmt.branch.sizeOf_spec, Stmt.loop.sizeOf_spec,
      List.cons.sizeOf_spec, Option.some.sizeOf_spec]
    omega

/-- No run goes on forever. -/
theorem step_wellFounded (b : Bounds) : WellFounded fun q p : Point => Step b p q := by
  let measure (p : Point) : Nat ×ₗ Nat := toLex (b.limits.stepBudget - p.state.steps, p.task.size)
  refine (InvImage.wf measure wellFounded_lt).mono fun q p h => ?_
  show toLex _ < toLex _
  rw [Prod.Lex.toLex_lt_toLex]
  rcases h.decreases with ⟨hleft, hsteps⟩ | ⟨hsteps, hsize⟩
  · exact .inl (by simp only; omega)
  · rcases Nat.lt_or_eq_of_le (Nat.sub_le_sub_left hsteps b.limits.stepBudget) with hlt | heq
    · exact .inl hlt
    · exact .inr ⟨heq, hsize⟩

theorem iterate_spent {span : Span} {s : State} (h : b.limits.stepBudget ≤ s.steps) (cond : Run Bool)
    (body : Run Signal) (n : Nat) :
    iterate b span cond body n s = .error ⟨.stepBudget b.limits.stepBudget, span⟩ s := by
  cases n <;> simp only [iterate, bind, EStateM.bind, tick_spent h]

/-- To allow more rounds than there are steps left makes no difference to a loop. -/
theorem iterate_more {span : Span} {cond : Run Bool} {body : Run Signal} {n m : Nat} {s : State}
    (hcond : ∀ {s s' again}, cond s = .ok again s' → s.steps ≤ s'.steps)
    (hbody : ∀ {s s' signal}, body s = .ok signal s' → s.steps ≤ s'.steps)
    (hleft : b.limits.stepBudget ≤ s.steps + n) (hm : n ≤ m) :
    iterate b span cond body m s = iterate b span cond body n s := by
  induction n generalizing m s with
  | zero => rw [iterate_spent hleft, iterate_spent hleft]
  | succ n ih =>
    obtain ⟨m, rfl⟩ := Nat.exists_eq_add_one_of_ne_zero (Nat.ne_of_gt (Nat.lt_of_lt_of_le n.succ_pos hm))
    unfold iterate
    refine bind_congr_ok fun _ s₁ htick => bind_congr_ok fun again s₂ hagain => ?_
    obtain ⟨-, rfl⟩ := tick_ok htick
    have h₂ := hcond hagain
    cases again with
    | false => rfl
    | true =>
      refine bind_congr_ok fun signal s₃ hsignal => ?_
      have h₃ := hbody hsignal
      simp only at h₂
      cases signal with
      | normal | continued => exact ih (by omega) (by omega)
      | broke | returned => rfl

/-- A loop that is reached may go round at least as often as there are steps left. -/
def Point.Ample (b : Bounds) (p : Point) : Prop :=
  ∀ path cond body span n, p.task = .rounds path cond body span n → b.limits.stepBudget ≤ p.state.steps + n

theorem Step.ample {p q : Point} (h : Step b p q) (hp : p.Ample b) : q.Ample b := by
  have hdecreases := h.decreases
  cases h with
  | loop =>
    rintro _ _ _ _ _ ⟨⟩
    exact Nat.sub_le_iff_le_add'.1 (Nat.le_refl _)
  | nextRound htick hcond hround =>
    rintro _ _ _ _ _ ⟨⟩
    have hleft := hp _ _ _ _ _ rfl
    rcases hdecreases with ⟨-, hsteps⟩ | ⟨-, hsize⟩
    · simp only at hsteps hleft ⊢
      omega
    · exact absurd hsize (Nat.lt_irrefl _)
  | _ => nofun

end Run

end Scriptlet
