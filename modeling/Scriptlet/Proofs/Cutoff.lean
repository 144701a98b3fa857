import Scriptlet.Proofs.Progress

/-!
# Limits only cut runs short

Two runs of a program, the first one within tighter bounds, are in step until a bound of the first one
is passed. `Truncates b b' k p q` says this of two computations: `p` under the bounds `b` does what `q`
does under `b'`, or it fails with a fault that tells the bounds apart (`Bounds.Cut`), and then `q` goes
on from there. That a clock which has expired from the start ends a run at its 256th step, unless it has
ended before, is the law `expiring`.
-/

namespace Scriptlet

open Run

/-- The limits `l` allow no more than `l'`, apart from the time limit. -/
structure Limits.AtMost (l l' : Limits) : Prop where
  stepBudget : l.stepBudget ≤ l'.stepBudget
  maxCallDepth : l.maxCallDepth ≤ l'.maxCallDepth
  maxOutputBytes : l.maxOutputBytes ≤ l'.maxOutputBytes
  maxValueBytes : l.maxValueBytes ≤ l'.maxValueBytes

namespace Bounds

/-- The bounds `b` allow no more than `b'`. Where the time limit of `b'` has passed, so has that of `b`,
and it is the same. -/
structure Tighter (b b' : Bounds) : Prop where
  limits : b.limits.AtMost b'.limits
  clock {n : Nat} (h : b'.clock.expired n = true) :
    b.clock.expired n = true ∧ b.limits.timeoutMs = b'.limits.timeoutMs

/-- The faults that end a run under `b` where it could go on under `b'`. -/
inductive Cut (b b' : Bounds) : Fault → Prop
  | stepBudget {n : Nat} (h : b.limits.stepBudget < b'.limits.stepBudget) : Cut b b' (.stepBudget n)
  | stackOverflow {n : Nat} (h : b.limits.maxCallDepth < b'.limits.maxCallDepth) :
      Cut b b' (.stackOverflow n)
  | outputLimit {n : Nat} (h : b.limits.maxOutputBytes < b'.limits.maxOutputBytes) :
      Cut b b' (.outputLimit n)
  | valueTooLarge {n : Nat} (h : b.limits.maxValueBytes < b'.limits.maxValueBytes) :
      Cut b b' (.valueTooLarge n)
  | deadline {n ms : Nat} (h : b.clock.expired n = true) (h' : b'.clock.expired n = false) :
      Cut b b' (.deadline ms)

end Bounds

namespace Run

variable {α β : Type} {b b' : Bounds} {k : Nat}

/-! ### Related states and results -/

/-- The state with the room for output that `b` gives. -/
def State.under (b : Bounds) (s : State) : State :=
  { s with sink := { s.sink with limit := b.limits.maxOutputBytes } }

namespace State

theorem mapFrame_under (s : State) (f : Frame → Frame) : (s.under b).mapFrame f = (s.mapFrame f).under b := by
  obtain ⟨steps, sink, globals, calls⟩ := s
  cases calls <;> rfl

theorem replace_under (s : State) (name : String) (binding : Binding) :
    (s.under b).replace name binding = (s.replace name binding).under b := by
  obtain ⟨steps, sink, globals, calls⟩ := s
  cases calls with
  | nil => rfl
  | cons frame rest =>
    simp only [replace, under]
    split <;> rfl

end State

/-- At `t` at least as many steps have been taken as at `s`, and what had been printed at `s` is the
beginning of what has been printed at `t`. -/
structure State.Before (s t : State) : Prop where
  steps : s.steps ≤ t.steps
  output : ∃ more, t.sink.text = s.sink.text ++ more

namespace State.Before

variable {s s₁ s₂ : State}

theorem trans (h : s.Before s₁) (h' : s₁.Before s₂) : s.Before s₂ := by
  obtain ⟨more, hmore⟩ := h.output
  obtain ⟨more', hmore'⟩ := h'.output
  exact ⟨h.steps.trans h'.steps, more ++ more', by rw [hmore', hmore, String.append_assoc]⟩

theorem of_later (h : s.gauge.Later b s₁.gauge) : s.Before s₁ := by
  obtain ⟨more, -, hmore⟩ := h.output
  exact ⟨h.steps, more, hmore⟩

theorem of_under (h : (s.under b).Before s₁) : s.Before s₁ := ⟨h.steps, h.output⟩

end State.Before

/-- Between the beginning and the end of the computation there is progress. -/
abbrev Grows (b : Bounds) (p : Run α) : Prop := Follows (anyValue b) (progress b) (fun _ => True) p

theorem Grows.before {p : Run α} (h : Grows b p) (s : State) : s.Before (endState (p s)) := by
  cases hp : p s with
  | ok a s' => exact .of_later (h.of_ok (any_held s) hp).2.2
  | error e s' => exact .of_later (h.of_error (any_held s) hp).2.1

/-- The end of a computation under `b` and that of the same computation under `b'`: the same, or the
first was cut short and the second came at least as far. -/
inductive Short (b b' : Bounds) : EStateM.Result Failure State α → EStateM.Result Failure State α → Prop
  | ok {a : α} {s : State} (hs : s.sink.limit = b.limits.maxOutputBytes) :
      Short b b' (.ok a s) (.ok a (s.under b'))
  | error {e : Failure} {s : State} : Short b b' (.error e s) (.error e (s.under b'))
  | cut {e : Failure} {s : State} {r : EStateM.Result Failure State α} (he : b.Cut b' e.fault)
      (hr : s.Before (endState r)) : Short b b' (.error e s) r

theorem Short.andThen {r r' : EStateM.Result Failure State α} {f g : α → Run β} (h : Short b b' r r')
    (hf : ∀ a s, r = .ok a s → s.sink.limit = b.limits.maxOutputBytes →
      Short b b' (f a s) (g a (s.under b')))
    (hg : ∀ a, Grows b' (g a)) : Short b b' (andThen f r) (andThen g r') := by
  cases h with
  | ok hs => exact hf _ _ rfl hs
  | error => exact .error
  | cut he hr =>
    cases r' with
    | ok a t => exact .cut he (hr.trans ((hg a).before t))
    | error e t => exact .cut he hr

/-- From any state with at least `k` steps, `p` under `b` is `q` under `b'`, perhaps cut short. -/
structure Truncates (b b' : Bounds) (k : Nat) (p q : Run α) : Prop where
  grows : Grows b' q
  short {s : State} (hs : s.sink.limit = b.limits.maxOutputBytes) (hk : k ≤ s.steps) :
    Short b b' (p s) (q (s.under b'))

namespace Truncates

variable {p q : Run α} {f g : α → Run β}

theorem mono {k' : Nat} (h : Truncates b b' k p q) (hk : k ≤ k') : Truncates b b' k' p q :=
  ⟨h.grows, fun hs hk' => h.short hs (hk.trans hk')⟩

theorem pure (a : α) : Truncates b b' k (pure a : Run α) (pure a) :=
  ⟨.pure trivial, fun hs _ => .ok hs⟩

theorem bind (hp : Truncates b b' k p q) (hf : ∀ a, Truncates b b' k (f a) (g a)) :
    Truncates b b' k (p >>= f) (q >>= g) where
  grows := .bind hp.grows fun a _ => (hf a).grows
  short {s} hs hk := by
    have hshort := hp.short hs hk
    rw [bind_apply, bind_apply]
    refine hshort.andThen (fun a s₁ hend hs₁ => (hf a).short hs₁ ?_) fun a => (hf a).grows
    -- the second computation has not been cut short, so it shows that no step has been taken back
    have hsteps := (hp.grows.before (s.under b')).steps
    rw [hend] at hshort
    generalize q (s.under b') = r at hshort hsteps
    cases hshort
    exact hk.trans hsteps

/-- A computation that reads the state, but not how much may be printed. -/
theorem get_bind {f g : State → Run β} (hg : ∀ s : State, g (s.under b') = g s)
    (h : ∀ s : State, Truncates b b' s.steps (f s) (g s)) : Truncates b b' k (get >>= f) (get >>= g) where
  grows := .get_bind fun s => (h s).grows
  short {s} hs _ := by
    show Short b b' (f s s) (g (s.under b') (s.under b'))
    rw [hg]
    exact (h s).short hs (Nat.le_refl _)

/-- A computation to which no bound matters. -/
theorem same {p : Run α} (hp : Grows b' p)
    (h : ∀ s : State, p (s.under b') = match p s with
      | .ok a s' => .ok a (s'.under b')
      | .error e s' => .error e (s'.under b')) : Truncates b b' k p p where
  grows := hp
  short {s} hs _ := by
    rw [h s]
    cases hend : p s with
    | ok a s' => exact .ok ((hp.of_ok (any_held s) hend).2.2.limit.trans hs)
    | error e s' => exact .error

theorem fail {fault : Fault} (span : Span) (hfault : fault.code ≠ .timeout) :
    Truncates b b' k (fail fault span : Run α) (fail fault span) :=
  same (.fail hfault) fun _ => rfl

/-- Failing where `q` would go on. -/
theorem stop {fault : Fault} {span : Span} (hcut : b.Cut b' fault) (hq : Grows b' q) :
    Truncates b b' k (Run.fail fault span) q :=
  ⟨hq, fun {s} _ _ => .cut hcut (hq.before (s.under b')).of_under⟩

theorem truth (span : Span) (value : Value) :
    Truncates b b' k (truth span value) (truth span value) := by
  cases value with
  | bool holds => exact pure holds
  | _ => exact fail span nofun

theorem load (name : Ident) : Truncates b b' k (load name) (load name) := by
  refine same (.load name) fun s => ?_
  have hbinding : (s.under b').binding? name.name = s.binding? name.name := rfl
  simp only [Run.load, get_bind_apply, hbinding]
  cases s.binding? name.name <;> rfl

theorem store (name : Ident) (value : Value) :
    Truncates b b' k (store name value) (store name value) := by
  refine same (.store name trivial) fun s => ?_
  have hbinding : (s.under b').binding? name.name = s.binding? name.name := rfl
  simp only [Run.store, get_bind_apply, hbinding]
  cases s.binding? name.name with
  | none => rfl
  | some old =>
    dsimp only
    cases coerce old.declared name.name value with
    | error fault => rfl
    | ok fitted => exact congrArg (EStateM.Result.ok fitted) (s.replace_under _ _)

theorem declare (name : Ident) (declared : Option Ty) (value : Value) :
    Truncates b b' k (declare name declared value) (declare name declared value) := by
  refine same (.declare name declared trivial) fun s => ?_
  simp only [Run.declare, Bind.bind, EStateM.bind]
  cases coerce declared name.name value with
  | error fault => rfl
  | ok fitted => exact congrArg (EStateM.Result.ok ()) (s.mapFrame_under _)

theorem unary (span : Span) (op : UnaryOp) (operand : Value) :
    Truncates b b' k (lift span (applyUnary op operand)) (lift span (applyUnary op operand)) := by
  refine same (.unary span op operand) fun s => ?_
  cases applyUnary op operand <;> rfl

/-- Only a sum of two texts can be too long under one bound and not under the other. -/
theorem strict (h : b.Tighter b') (span : Span) (op : BinaryOp) (strict : StrictOp) (lhs rhs : Value) :
    Truncates b b' k (lift span (applyStrict b.limits.maxValueBytes op strict lhs rhs))
      (lift span (applyStrict b'.limits.maxValueBytes op strict lhs rhs)) := by
  have hgrows : Grows b' (lift span (applyStrict b'.limits.maxValueBytes op strict lhs rhs)) :=
    .strict span op strict lhs rhs
  rcases applyStrict_cases op strict lhs rhs with ⟨x, y, hconcat⟩ | ⟨result, -, hresult⟩
  · rw [hconcat] at hgrows ⊢
    rw [hconcat]
    unfold concat at hgrows ⊢
    split
    · next hlong =>
      rcases Nat.lt_or_eq_of_le h.limits.maxValueBytes with hlt | heq
      · exact stop (.valueTooLarge hlt) hgrows
      · rw [← heq, if_pos hlong]
        exact fail span nofun
    · next hroom =>
      have hroom' : ¬ b'.limits.maxValueBytes < x.utf8ByteSize + y.utf8ByteSize := by
        have hle := h.limits.maxValueBytes
        omega
      rw [if_neg hroom']
      exact pure _
  · rw [hresult] at hgrows ⊢
    rw [hresult]
    refine same hgrows fun s => ?_
    cases result <;> rfl

theorem tick (h : b.Tighter b') (span : Span) : Truncates b b' k (tick b span) (tick b' span) where
  grows := .tick span
  short {s} hs _ := by
    have hgrows : Grows b' (Run.tick b' span) := .tick span
    rcases Nat.lt_or_ge s.steps b.limits.stepBudget with hleft | hspent
    · have hleft' : s.steps < b'.limits.stepBudget := Nat.lt_of_lt_of_le hleft h.limits.stepBudget
      by_cases hlate : (s.steps + 1) % clockInterval = 0 ∧ b.clock.expired (s.steps + 1) = true
      · rw [tick_late hleft hlate]
        cases hclock : b'.clock.expired (s.steps + 1) with
        | true =>
          rw [tick_late (s := s.under b') hleft' ⟨hlate.1, hclock⟩, (h.clock hclock).2]
          exact .error
        | false =>
          rw [tick_step (s := s.under b') hleft' fun hlate' => absurd (hclock.symm.trans hlate'.2) nofun]
          exact .cut (.deadline hlate.2 hclock) ⟨Nat.le_refl _, "", String.append_empty.symm⟩
      · have hgoes := fun hlate' => hlate ⟨And.left hlate', (h.clock hlate'.2).1⟩
        rw [tick_step hleft hlate, tick_step (s := s.under b') hleft' hgoes]
        exact .ok hs
    · rw [tick_spent hspent]
      rcases Nat.lt_or_eq_of_le h.limits.stepBudget with hlt | heq
      · exact .cut (.stepBudget hlt) (hgrows.before (s.under b')).of_under
      · rw [tick_spent (s := s.under b') (heq ▸ hspent), heq]
        exact .error

/-- After a step there is one more. -/
theorem tick_bind (h : b.Tighter b') (span : Span) (hp : Truncates b b' (k + 1) p q) :
    Truncates b b' k (do Run.tick b span; p) (do Run.tick b' span; q) where
  grows := .bind (.tick span) fun _ _ => hp.grows
  short {s} hs hk := by
    rw [bind_apply, bind_apply]
    refine ((tick h span).short hs hk).andThen (fun _ s₁ htick hs₁ => hp.short hs₁ ?_) fun _ => hp.grows
    obtain ⟨-, rfl⟩ := tick_ok htick
    exact Nat.succ_le_succ hk

theorem printLine (h : b.Tighter b') (line : String) (span : Span) :
    Truncates b b' k (printLine line span) (printLine line span) where
  grows := .printLine line span
  short {s} hs _ := by
    have hgrows : Grows b' (Run.printLine line span) := .printLine line span
    have hwrite : (s.under b').sink.writeLine line =
        if b'.limits.maxOutputBytes < s.sink.text.utf8ByteSize + line.utf8ByteSize + 1 then
          .error (.outputLimit b'.limits.maxOutputBytes)
        else .ok ⟨b'.limits.maxOutputBytes, s.sink.text ++ line ++ "\n"⟩ := rfl
    by_cases hfull : b.limits.maxOutputBytes < s.sink.text.utf8ByteSize + line.utf8ByteSize + 1
    · have herror : s.sink.writeLine line = .error (.outputLimit b.limits.maxOutputBytes) := by
        rw [Sink.writeLine, hs, if_pos hfull]
      rw [printLine_of_error herror]
      rcases Nat.lt_or_eq_of_le h.limits.maxOutputBytes with hlt | heq
      · exact .cut (.outputLimit hlt) (hgrows.before (s.under b')).of_under
      · rw [← heq, if_pos hfull] at hwrite
        rw [printLine_of_error hwrite]
        exact .error
    · have hroom : ¬ b'.limits.maxOutputBytes < s.sink.text.utf8ByteSize + line.utf8ByteSize + 1 := by
        have hle := h.limits.maxOutputBytes
        omega
      have hok : s.sink.writeLine line = .ok ⟨b.limits.maxOutputBytes, s.sink.text ++ line ++ "\n"⟩ := by
        rw [Sink.writeLine, hs, if_neg hfull]
      rw [if_neg hroom] at hwrite
      rw [printLine_of_ok hok, printLine_of_ok hwrite]
      exact .ok rfl

/-- A change of the state to which no bound matters, and which leaves steps and output alone. -/
structure Apart (f : State → State) : Prop where
  gauge (s : State) : (f s).steps = s.steps ∧ (f s).sink = s.sink
  under (b : Bounds) (s : State) : f (s.under b) = (f s).under b

theorem Apart.before {f : State → State} (hf : Apart f) {s t : State} (h : s.Before t) :
    (f s).Before (f t) := by
  constructor
  · rw [(hf.gauge s).1, (hf.gauge t).1]
    exact h.steps
  · rw [(hf.gauge s).2, (hf.gauge t).2]
    exact h.output

theorem Apart.mapFrame (f : Frame → Frame) : Apart (·.mapFrame f) where
  gauge s := ⟨congrArg Gauge.steps (s.gauge_mapFrame f), congrArg Gauge.sink (s.gauge_mapFrame f)⟩
  under _ s := s.mapFrame_under f

theorem Apart.enter (params : Vars) : Apart fun s => { s with calls := { base := params } :: s.calls } :=
  ⟨fun _ => ⟨rfl, rfl⟩, fun _ _ => rfl⟩

theorem Apart.leave : Apart fun s => { s with calls := s.calls.tail } :=
  ⟨fun _ => ⟨rfl, rfl⟩, fun _ _ => rfl⟩

theorem between {enter leave : State → State} (henter : Apart enter) (hleave : Apart leave)
    (hgrows : Grows b' (between enter leave q)) (h : Truncates b b' k p q) :
    Truncates b b' k (between enter leave p) (between enter leave q) where
  grows := hgrows
  short {s} hs hk := by
    obtain ⟨hsteps, hsink⟩ := henter.gauge s
    have hshort := h.short (s := enter s) (hsink ▸ hs) (hsteps ▸ hk)
    unfold Run.between
    rw [henter.under]
    generalize p (enter s) = r at hshort
    generalize q ((enter s).under b') = r' at hshort
    cases hshort with
    | @ok a t ht =>
      show Short b b' (.ok a (leave t)) (.ok a (leave (t.under b')))
      rw [hleave.under]
      exact .ok ((hleave.gauge t).2 ▸ ht)
    | @error e t =>
      show Short b b' (.error e (leave t)) (.error e (leave (t.under b')))
      rw [hleave.under]
      exact .error
    | cut he hr =>
      refine .cut he ?_
      cases r' <;> exact hleave.before hr

theorem inBlock (h : Truncates b b' k p q) : Truncates b b' k (inBlock p) (inBlock q) :=
  between (.mapFrame _) (.mapFrame _) (.inBlock h.grows) h

theorem inCall (params : Vars) (h : Truncates b b' k p q) :
    Truncates b b' k (inCall params p) (inCall params q) :=
  between (.enter params) .leave (.inCall (fun _ _ _ => trivial) h.grows) h

/-- The loop under the tighter bounds may go fewer rounds, but has no steps for more. -/
theorem iterate (h : b.Tighter b') (span : Span) {cond cond' : Run Bool} {body body' : Run Signal}
    {n m : Nat}
    (hcond : Truncates b b' 0 cond cond') (hbody : Truncates b b' 0 body body')
    (hn : b.limits.stepBudget ≤ k + n) (hm : n ≤ m) :
    Truncates b b' k (iterate b span cond body n) (iterate b' span cond' body' m) := by
  induction n generalizing k m with
  | zero =>
    have hgrows : Grows b' (Run.iterate b' span cond' body' m) := .iterate hcond.grows hbody.grows trivial m
    refine ⟨hgrows, fun {s} hs hk => ?_⟩
    have hspent : b.limits.stepBudget ≤ s.steps := hn.trans hk
    rw [iterate_spent hspent]
    rcases Nat.lt_or_eq_of_le h.limits.stepBudget with hlt | heq
    · exact .cut (.stepBudget hlt) (hgrows.before (s.under b')).of_under
    · rw [iterate_spent (s := s.under b') (heq ▸ hspent), heq]
      exact .error
  | succ n ih =>
    obtain ⟨m, rfl⟩ := Nat.exists_eq_add_one_of_ne_zero (Nat.ne_of_gt (Nat.lt_of_lt_of_le n.succ_pos hm))
    unfold Run.iterate
    refine tick_bind h span (bind (hcond.mono (Nat.zero_le _)) fun again => ?_)
    cases again with
    | false => exact pure _
    | true =>
      refine bind (hbody.mono (Nat.zero_le _)) fun signal => ?_
      cases signal with
      | normal | continued => exact ih (by omega) (by omega)
      | broke | returned => exact pure _

end Truncates

/-! ### Runs -/

/-- Calls under `b` are those under `b'`, perhaps cut short. -/
def Caller.Truncates (b b' : Bounds) (call call' : Caller) : Prop :=
  ∀ f args span, Run.Truncates b b' 0 (call f args span) (call' f args span)

section

variable {call call' : Caller}

mutual

theorem eval_truncates (h : b.Tighter b') (hcall : Caller.Truncates b b' call call') :
    ∀ e : Expr, Truncates b b' 0 (eval b call e) (eval b' call' e)
  | .literal _ _ => .pure _
  | .ident name => .load name
  | .assign target value _ => .bind (eval_truncates h hcall value) fun _ => .store target _
  | .binary op lhs rhs span => by
    unfold eval
    split
    · refine .bind (eval_truncates h hcall lhs) fun _ => .bind (.truth _ _) fun left => ?_
      split
      · exact .pure _
      · exact .bind (eval_truncates h hcall rhs) fun _ => .bind (.truth _ _) fun _ => .pure _
    · exact .bind (eval_truncates h hcall lhs) fun _ => .bind (eval_truncates h hcall rhs) fun _ =>
        .strict h _ _ _ _ _
  | .unary op operand span => .bind (eval_truncates h hcall operand) fun _ => .unary _ _ _
  | .call callee args span => by
    unfold eval
    refine .bind (.tick h span) fun _ => .bind (eval_truncates h hcall callee) fun value => ?_
    split
    · refine .bind (evalArgs_truncates h hcall args) fun values => ?_
      split
      · exact hcall _ _ _
      · exact .fail _ nofun
    · exact .fail _ nofun

theorem evalArgs_truncates (h : b.Tighter b') (hcall : Caller.Truncates b b' call call') :
    ∀ es : List Expr, Truncates b b' 0 (evalArgs b call es) (evalArgs b' call' es)
  | [] => .pure _
  | e :: es =>
    .bind (eval_truncates h hcall e) fun _ => .bind (evalArgs_truncates h hcall es) fun _ => .pure _

end

theorem evalOption_truncates (h : b.Tighter b') (hcall : Caller.Truncates b b' call call') :
    ∀ e : Option Expr, Truncates b b' 0 (evalOption b call e) (evalOption b' call' e)
  | none => .pure _
  | some e => eval_truncates h hcall e

theorem evalCondition_truncates (h : b.Tighter b') (hcall : Caller.Truncates b b' call call') (cond : Expr) :
    Truncates b b' 0 (evalCondition b call cond) (evalCondition b' call' cond) :=
  .bind (eval_truncates h hcall cond) fun _ => .truth _ _

theorem asBranch_truncates (h : b.Tighter b') (stmt : Stmt) {body body' : Run Signal}
    (hbody : Truncates b b' 0 body body') :
    Truncates b b' 0 (asBranch b stmt body) (asBranch b' stmt body') := by
  unfold asBranch
  split
  · exact hbody
  · exact .inBlock (.bind (.tick h _) fun _ => hbody)

mutual

theorem exec_truncates (h : b.Tighter b') (hcall : Caller.Truncates b b' call call') :
    ∀ (path : TreePath) (stmt : Stmt), Truncates b b' 0 (exec b call path stmt) (exec b' call' path stmt)
  | _, .varDecl name type init _ => by
    unfold exec
    refine .bind (evalOption_truncates h hcall init) fun value => .get_bind (fun _ => rfl) fun s => ?_
    split
    · exact .bind (.store name _) fun _ => .pure _
    · exact .bind (.declare name _ _) fun _ => .pure _
  | _, .expr e _ => .bind (eval_truncates h hcall e) fun _ => .pure _
  | _, .print e _ => .bind (eval_truncates h hcall e) fun _ => .bind (.printLine h _ _) fun _ => .pure _
  | _, .block body _ => .inBlock (execAll_truncates h hcall _ body)
  | _, .branch cond thenStmt elseStmt _ => by
    unfold exec
    refine .bind (evalCondition_truncates h hcall cond) fun holds => ?_
    split
    · exact asBranch_truncates h _ (exec_truncates h hcall _ thenStmt)
    · cases elseStmt with
      | none => exact .pure _
      | some elseStmt => exact asBranch_truncates h _ (exec_truncates h hcall _ elseStmt)
  | path, .loop cond body span => by
    unfold exec
    have hbody := asBranch_truncates h body (exec_truncates h hcall path.inside body)
    have hle := h.limits.stepBudget
    exact .get_bind (fun _ => rfl) fun s =>
      .iterate h span (evalCondition_truncates h hcall cond) hbody (by omega) (by omega)
  | _, .function name params body _ _ => by
    unfold exec
    refine .get_bind (fun _ => rfl) fun s => ?_
    split
    · exact .bind (.declare name none _) fun _ => .pure _
    · exact .pure _
  | _, .returnWith value _ => .bind (evalOption_truncates h hcall value) fun _ => .pure _
  | _, .breakLoop _ | _, .continueLoop _ => .pure _

theorem execAll_truncates (h : b.Tighter b') (hcall : Caller.Truncates b b' call call') :
    ∀ (path : TreePath) (stmts : List Stmt),
      Truncates b b' 0 (execAll b call path stmts) (execAll b' call' path stmts)
  | _, [] => .pure _
  | path, stmt :: stmts => by
    unfold execAll
    refine .bind (.tick h stmt.span) fun _ => .bind (exec_truncates h hcall path stmt) fun signal => ?_
    split
    · exact execAll_truncates h hcall path.next stmts
    · exact .pure _

end

end

/-- Under the tighter bounds, as many calls fewer may nest as the bounds differ by. -/
theorem invoke_truncates (h : b.Tighter b') {d d' : Nat}
    (hd : d' = d + (b'.limits.maxCallDepth - b.limits.maxCallDepth)) :
    Caller.Truncates b b' (invoke b d) (invoke b' d') := by
  induction d generalizing d' with
  | zero =>
    intro f args span
    rcases Nat.lt_or_eq_of_le h.limits.maxCallDepth with hlt | heq
    · have hcalls := invoke_follows (anyValue b') (progress b') d'
      exact .stop (.stackOverflow hlt) (hcalls f args span trivial fun _ _ => trivial)
    · obtain rfl : d' = 0 := by omega
      unfold invoke
      rw [heq]
      exact .fail span (by simp [Fault.code])
  | succ d ih =>
    intro f args span
    obtain ⟨d', rfl⟩ : ∃ n, d' = n + 1 := ⟨d + (b'.limits.maxCallDepth - b.limits.maxCallDepth), by omega⟩
    have hcall : Caller.Truncates b b' (invoke b d) (invoke b' d') := ih (by omega)
    unfold invoke
    cases hparams : bindParams f.params args .empty with
    | error failure => exact .fail failure.span (bindParams_code hparams)
    | ok params => exact .bind (.inCall params (execAll_truncates h hcall _ f.body)) fun _ => .pure _

/-! ### A clock that has expired from the start -/

/-- The clock is first read at the step `clockInterval`. A run that has not come to an end before is
ended there. -/
def expiring (limits : Limits) : GaugeLaw ⟨limits, .always⟩ where
  Moves g g' := g.steps < clockInterval → g'.steps < clockInterval
  Fails g e g' := g.steps < clockInterval → (g'.steps < clockInterval ∧ ∀ ms, e.fault ≠ .deadline ms) ∨
    (g'.steps = clockInterval ∧ e.fault = .deadline limits.timeoutMs)
  refl _ := id
  trans h h' hg := h' (h hg)
  failAfter h h' hg := h' (h hg)
  fault h hg := .inl ⟨hg, fun _ hms => h (hms ▸ rfl)⟩
  step {g} _ hclock hg := by
    have hnext : g.steps + 1 ≠ clockInterval := fun heq => hclock ⟨heq ▸ Nat.mod_self _, rfl⟩
    show g.steps + 1 < clockInterval
    omega
  spent _ hg := .inl ⟨hg, nofun⟩
  late {g} _ _ hclock hg := by
    have hle : clockInterval ≤ g.steps + 1 :=
      Nat.le_of_dvd (Nat.succ_pos _) (Nat.dvd_of_mod_eq_zero hclock.1)
    exact .inr ⟨Nat.le_antisymm hg hle, rfl⟩
  print _ := id
  call h := h
  callFail h := h

/-- Whether the fault says that one of the limits has been reached, the time limit apart. -/
def Fault.isLimit : Fault → Bool
  | stepBudget _ | stackOverflow _ | outputLimit _ | valueTooLarge _ => true
  | _ => false

end Run

theorem Bounds.Cut.isLimit {b b' : Bounds} {fault : Fault} (h : b.Cut b' fault)
    (hclock : b.clock = b'.clock) : fault.isLimit = true := by
  cases h with
  | deadline h h' =>
    rw [hclock, h'] at h
    cases h
  | _ => rfl

/-- Where the limits are the same, only the clock can tell. -/
theorem Bounds.Cut.deadline_of_atMost {b b' : Bounds} {fault : Fault} (h : b.Cut b' fault)
    (hlimits : b'.limits.AtMost b.limits) : ∃ ms, fault = .deadline ms := by
  cases h with
  | stepBudget h => exact absurd hlimits.stepBudget (Nat.not_le_of_lt h)
  | stackOverflow h => exact absurd hlimits.maxCallDepth (Nat.not_le_of_lt h)
  | outputLimit h => exact absurd hlimits.maxOutputBytes (Nat.not_le_of_lt h)
  | valueTooLarge h => exact absurd hlimits.maxValueBytes (Nat.not_le_of_lt h)
  | deadline => exact ⟨_, rfl⟩

namespace Program

variable {b b' : Bounds} {p : Program}

/-- How the run of the program ends. -/
def ending (b : Bounds) (p : Program) : EStateM.Result Failure State Signal :=
  execAll b (invoke b b.limits.maxCallDepth) .first p.items (initial b p.items)

theorem execute_of_ok {signal : Signal} {s : State} (h : p.ending b = .ok signal s) :
    p.execute b = ⟨.ok, s.sink.text, [], s.steps⟩ := by
  unfold ending at h
  rw [execute, h]

theorem execute_of_error {failure : Failure} {s : State} (h : p.ending b = .error failure s) :
    p.execute b = ⟨failure.status, s.sink.text, [failure.diagnostic], s.steps⟩ := by
  unfold ending at h
  rw [execute, h]

theorem execute_endState (b : Bounds) (p : Program) : (p.execute b).steps = (endState (p.ending b)).steps ∧
    (p.execute b).output = (endState (p.ending b)).sink.text := by
  cases h : p.ending b with
  | ok signal s => rw [execute_of_ok h]; exact ⟨rfl, rfl⟩
  | error failure s => rw [execute_of_error h]; exact ⟨rfl, rfl⟩

theorem ending_short (h : b.Tighter b') (p : Program) : Short b b' (p.ending b) (p.ending b') := by
  have hdepth := h.limits.maxCallDepth
  have hcalls : Caller.Truncates b b' (invoke b b.limits.maxCallDepth) (invoke b' b'.limits.maxCallDepth) :=
    invoke_truncates h (by omega)
  exact (execAll_truncates h hcalls .first p.items).short (s := initial b p.items) rfl (Nat.zero_le _)

/-- The two runs come to the same, or the first one is cut short. -/
theorem execute_eq_or_cut (h : b.Tighter b') (p : Program) : p.execute b = p.execute b' ∨
    ∃ failure s, p.ending b = .error failure s ∧ b.Cut b' failure.fault ∧
      s.Before (endState (p.ending b')) := by
  have hshort := ending_short h p
  generalize hend : p.ending b = r at hshort
  generalize hend' : p.ending b' = r' at hshort
  cases hshort with
  | ok _ =>
    rw [execute_of_ok hend, execute_of_ok hend']
    exact .inl rfl
  | error =>
    rw [execute_of_error hend, execute_of_error hend']
    exact .inl rfl
  | cut he hr => exact .inr ⟨_, _, rfl, he, hr⟩

/-- Under the tighter bounds the run does not come further. -/
theorem execute_before (h : b.Tighter b') (p : Program) :
    (∃ more, (p.execute b').output = (p.execute b).output ++ more) ∧
      (p.execute b).steps ≤ (p.execute b').steps := by
  rcases execute_eq_or_cut h p with heq | ⟨failure, s, hend, -, hbefore⟩
  · rw [heq]
    exact ⟨⟨"", String.append_empty.symm⟩, Nat.le_refl _⟩
  · obtain ⟨hsteps, houtput⟩ := execute_endState b' p
    rw [execute_of_error hend, hsteps, houtput]
    exact ⟨hbefore.output, hbefore.steps⟩

/-- A run that none of the limits ended is the same under wider bounds with the same clock. -/
theorem execute_eq_of_quiet (h : b.Tighter b') (hclock : b.clock = b'.clock)
    (hquiet : ∀ failure : Failure, failure.diagnostic ∈ (p.execute b).diagnostics →
      failure.fault.isLimit = false) : p.execute b = p.execute b' := by
  rcases execute_eq_or_cut h p with heq | ⟨failure, s, hend, hcut, -⟩
  · exact heq
  · have hreported : failure.diagnostic ∈ (p.execute b).diagnostics := by
      rw [execute_of_error hend]
      exact List.mem_singleton_self _
    have hlimit := hcut.isLimit hclock
    rw [hquiet failure hreported] at hlimit
    cases hlimit

/-- A run that was not late is the same under the same limits with another clock. -/
theorem execute_eq_of_inTime (h : b.Tighter b') (hlimits : b'.limits.AtMost b.limits)
    (hinTime : ∀ failure s, p.ending b = .error failure s → ∀ ms, failure.fault ≠ .deadline ms) :
    p.execute b = p.execute b' := by
  rcases execute_eq_or_cut h p with heq | ⟨failure, s, hend, hcut, -⟩
  · exact heq
  · obtain ⟨ms, hms⟩ := hcut.deadline_of_atMost hlimits
    exact absurd hms (hinTime failure s hend ms)

/-- A run whose time is over from the start ends before the clock is read, or when it is. -/
theorem execute_expired (limits : Limits) (p : Program) :
    let outcome := p.execute ⟨limits, .always⟩
    (outcome.steps < clockInterval ∧ ∀ failure s, p.ending ⟨limits, .always⟩ = .error failure s →
      ∀ ms, failure.fault ≠ .deadline ms) ∨
    outcome.steps = clockInterval ∧ outcome.status = .timeout ∧
      ∃ span, outcome.diagnostics = [(⟨.deadline limits.timeoutMs, span⟩ : Failure).diagnostic] := by
  have hcalls := invoke_follows (anyValue ⟨limits, .always⟩) (expiring limits) limits.maxCallDepth
  have hfollows := execAll_follows hcalls .first p.items fun _ _ => trivial
  have hstart : (initial ⟨limits, .always⟩ p.items).gauge.steps < clockInterval :=
    show 0 < clockInterval by decide
  cases hend : p.ending ⟨limits, .always⟩ with
  | ok signal s =>
    have hmoves := (hfollows.of_ok (any_held _) hend).2.2 hstart
    rw [execute_of_ok hend]
    refine .inl ⟨hmoves, fun _ _ hfails => ?_⟩
    cases hfails
  | error failure s =>
    rw [execute_of_error hend]
    rcases (hfollows.of_error (any_held _) hend).2 hstart with ⟨hsteps, hfault⟩ | ⟨hsteps, hfault⟩
    · refine .inl ⟨hsteps, fun _ _ heq => ?_⟩
      cases heq
      exact hfault
    · obtain ⟨fault, span⟩ := failure
      cases hfault
      exact .inr ⟨hsteps, rfl, span, rfl⟩

/-- Limits only cut runs short. Of two runs with the same time limit and clock, the first one under limits
that allow no more, the first takes no more steps and what it prints is the beginning of what the second
prints; and unless it ends for one of the other limits, the two come to the same. A run whose time is over
from the start comes to the same as a run to which the clock does not matter, if that takes fewer than 256
steps; if not, it ends with its 256th step because of the time limit, and has printed the beginning of what
the other prints. -/
theorem limits_cut_short (p : Program) :
    (∀ b b' : Bounds, b.limits.AtMost b'.limits → b.limits.timeoutMs = b'.limits.timeoutMs →
      b.clock = b'.clock →
      let outcome := p.execute b
      let outcome' := p.execute b'
      (∃ more, outcome'.output = outcome.output ++ more) ∧ outcome.steps ≤ outcome'.steps ∧
      ((∀ failure : Failure, failure.diagnostic ∈ outcome.diagnostics → failure.fault.isLimit = false) →
        outcome = outcome')) ∧
    ∀ (limits : Limits) (timeoutMs : Nat),
      let expired := p.execute ⟨{ limits with timeoutMs := 0 }, .always⟩
      let free := p.execute ⟨{ limits with timeoutMs }, .never⟩
      (free.steps < 256 → expired = free) ∧
      (256 ≤ free.steps → expired.steps = 256 ∧ expired.status = .timeout ∧
        (∃ span, expired.diagnostics = [(⟨.deadline 0, span⟩ : Failure).diagnostic]) ∧
        ∃ more, free.output = expired.output ++ more) := by
  constructor
  · intro b b' hlimits htimeout hclock
    have htighter : b.Tighter b' := ⟨hlimits, fun h => ⟨hclock ▸ h, htimeout⟩⟩
    obtain ⟨houtput, hsteps⟩ := execute_before htighter p
    exact ⟨houtput, hsteps, execute_eq_of_quiet htighter hclock⟩
  · intro limits timeoutMs expired free
    have hlimits (ms ms' : Nat) :
        Limits.AtMost { limits with timeoutMs := ms } { limits with timeoutMs := ms' } :=
      ⟨Nat.le_refl _, Nat.le_refl _, Nat.le_refl _, Nat.le_refl _⟩
    have htighter : Bounds.Tighter ⟨{ limits with timeoutMs := 0 }, .always⟩
        ⟨{ limits with timeoutMs }, .never⟩ := ⟨hlimits 0 timeoutMs, nofun⟩
    obtain ⟨houtput, hsteps⟩ := execute_before htighter p
    rcases execute_expired { limits with timeoutMs := 0 } p with ⟨hearly, hfault⟩ | ⟨hlast, hstopped⟩
    · -- the clock has not been read, so it has not cut the run short
      have heq : expired = free := execute_eq_of_inTime htighter (hlimits timeoutMs 0) hfault
      have hfew : free.steps < 256 := heq ▸ hearly
      exact ⟨fun _ => heq, fun hlong => absurd hfew (Nat.not_lt_of_le hlong)⟩
    · have hlong : 256 ≤ free.steps := Nat.le_trans (Nat.le_of_eq hlast.symm) hsteps
      exact ⟨fun hfew => absurd hlong (Nat.not_le_of_lt hfew),
        fun _ => ⟨hlast, hstopped.1, hstopped.2, houtput⟩⟩

/-- A program that prints a line and then another one, again and again. -/
def endless : Program where
  items := [.print (.literal (.str "a") default) default,
    .loop (.literal (.bool true) default) (.print (.literal (.str "b") default) default) default]
  span := default

theorem limits_cut_short_endless :
    let tight : Bounds := ⟨{ stepBudget := 300, maxOutputBytes := 5 }, .never⟩
    let wide : Bounds := ⟨{ stepBudget := 300 }, .never⟩
    let late : Bounds := ⟨{ stepBudget := 300, timeoutMs := 0 }, .always⟩
    (tight.limits.AtMost wide.limits ∧ (endless.execute tight).output = "a\nb\n" ∧
      (∃ more, (endless.execute wide).output = "a\nb\n" ++ more) ∧
      (endless.execute tight).steps ≤ (endless.execute wide).steps) ∧
    (256 ≤ (endless.execute wide).steps ∧ (endless.execute late).steps = 256 ∧
      (endless.execute late).status = .timeout ∧
      ∃ more, (endless.execute wide).output = (endless.execute late).output ++ more) := by
  intro tight wide late
  have hlimits : tight.limits.AtMost wide.limits := ⟨by decide, by decide, by decide, by decide⟩
  have houtput : (endless.execute tight).output = "a\nb\n" := by decide +kernel
  have hlong : 256 ≤ (endless.execute wide).steps := by decide +kernel
  obtain ⟨hcut, hexpired⟩ := limits_cut_short endless
  obtain ⟨hmore, hsteps, -⟩ := hcut tight wide hlimits rfl rfl
  obtain ⟨-, hlate⟩ := hexpired { stepBudget := 300 } 2000
  obtain ⟨hlast, hstatus, -, hmore'⟩ := hlate hlong
  exact ⟨⟨hlimits, houtput, houtput ▸ hmore, hsteps⟩, hlong, hlast, hstatus, hmore'⟩

end Program

end Scriptlet
