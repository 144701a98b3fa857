import Scriptlet.Proofs.Bounded
import Scriptlet.Proofs.RunClosed

/-!
# Calls are isolated from their callers

While a call is active, the run neither sees nor changes the frames of the calls below it, nor the blocks
that are open at the top level. So with other frames and other blocks there (`State.atop`), a computation
inside a call does the same and leaves them alone (`Isolated`). A call starts with a frame of its own, so
this holds of calls wherever they are made (`invoke_separate`), and what a call comes to depends on nothing
that belongs to its caller (`Program.calls_isolated`).
-/

namespace Scriptlet

namespace Run

variable {α β : Type} {b : Bounds}

/-! ### Other frames below -/

/-- The state with `outer` below the active calls, and the open blocks `blocks` at the top level. -/
def State.atop (outer : List Frame) (blocks : List Vars) (s : State) : State :=
  { s with globals := { s.globals with blocks }, calls := s.calls ++ outer }

namespace State

variable {outer : List Frame} {blocks : List Vars} {s : State}

theorem binding?_atop (h : s.calls ≠ []) (name : String) :
    (s.atop outer blocks).binding? name = s.binding? name := by
  obtain ⟨steps, sink, globals, _ | ⟨frame, rest⟩⟩ := s
  · exact absurd rfl h
  · rfl

theorem mapFrame_atop (h : s.calls ≠ []) (f : Frame → Frame) :
    (s.atop outer blocks).mapFrame f = (s.mapFrame f).atop outer blocks := by
  obtain ⟨steps, sink, globals, _ | ⟨frame, rest⟩⟩ := s
  · exact absurd rfl h
  · rfl

theorem replace_atop (h : s.calls ≠ []) (name : String) (binding : Binding) :
    (s.atop outer blocks).replace name binding = (s.replace name binding).atop outer blocks := by
  obtain ⟨steps, sink, globals, _ | ⟨frame, rest⟩⟩ := s
  · exact absurd rfl h
  · simp only [atop, replace, List.cons_append]
    split <;> rfl

theorem atTopLevel_atop (h : s.calls ≠ []) : (s.atop outer blocks).atTopLevel = s.atTopLevel := by
  obtain ⟨steps, sink, globals, _ | ⟨frame, rest⟩⟩ := s
  · exact absurd rfl h
  · rfl

theorem length_mapFrame (s : State) (f : Frame → Frame) : (s.mapFrame f).calls.length = s.calls.length :=
  congrArg Gauge.frames (s.gauge_mapFrame f)

theorem length_replace (s : State) (name : String) (binding : Binding) :
    (s.replace name binding).calls.length = s.calls.length :=
  congrArg Gauge.frames (s.gauge_replace name binding)

theorem calls_ne_nil {s' : State} (h : s.calls ≠ []) (hlength : s'.calls.length = s.calls.length) :
    s'.calls ≠ [] := by
  rw [← List.length_pos_iff, hlength, List.length_pos_iff]
  exact h

end State

theorem atEnd_atEnd (f g : State → State) (r : EStateM.Result Failure State α) :
    atEnd f (atEnd g r) = atEnd (fun s => f (g s)) r := by
  cases r <;> rfl

theorem atEnd_congr {f g : State → State} {r : EStateM.Result Failure State α}
    (h : f (endState r) = g (endState r)) : atEnd f r = atEnd g r := by
  cases r with
  | ok a s => exact congrArg (EStateM.Result.ok a) h
  | error e s => exact congrArg (EStateM.Result.error e) h

/-- From the state `s`, the computation does the same whatever frames and open blocks there are below, and
leaves them as they are. -/
structure Separate (p : Run α) (s : State) : Prop where
  length : (endState (p s)).calls.length = s.calls.length
  atop (outer : List Frame) (blocks : List Vars) :
    p (s.atop outer blocks) = atEnd (State.atop outer blocks) (p s)

/-- Inside a call, the computation is separate from what lies below. -/
def Isolated (p : Run α) : Prop := ∀ s : State, s.calls ≠ [] → Separate p s

namespace Separate

variable {p : Run α} {f : α → Run β} {s : State}

theorem pure (a : α) : Separate (pure a : Run α) s := ⟨rfl, fun _ _ => rfl⟩

theorem throw (e : Failure) : Separate (throw e : Run α) s := ⟨rfl, fun _ _ => rfl⟩

theorem bind (hp : Separate p s) (hf : ∀ a s', p s = .ok a s' → Separate (f a) s') :
    Separate (p >>= f) s := by
  obtain ⟨hlength, hsame⟩ := hp
  cases hend : p s with
  | error e s₁ =>
    rw [hend] at hlength hsame
    refine ⟨?_, fun outer blocks => ?_⟩
    · rw [bind_apply, hend]
      exact hlength
    · rw [bind_apply, bind_apply, hsame, hend]
      rfl
  | ok a s₁ =>
    rw [hend] at hlength hsame
    have hnext := hf a s₁ hend
    refine ⟨?_, fun outer blocks => ?_⟩
    · rw [bind_apply, hend]
      exact hnext.length.trans hlength
    · rw [bind_apply, bind_apply, hsame, hend]
      exact hnext.atop outer blocks

end Separate

namespace Isolated

variable {p : Run α} {f : α → Run β}

theorem pure (a : α) : Isolated (pure a : Run α) := fun _ _ => .pure a

theorem fail (fault : Fault) (span : Span) : Isolated (fail fault span : Run α) := fun _ _ => .throw _

theorem lift (span : Span) (x : Except Fault α) : Isolated (lift span x) := by
  cases x with
  | ok a => exact pure a
  | error fault => exact fail fault span

theorem bind (hp : Isolated p) (hf : ∀ a, Isolated (f a)) : Isolated (p >>= f) := by
  intro s hs
  refine (hp s hs).bind fun a s' hend => hf a s' (State.calls_ne_nil hs ?_)
  have hlength := (hp s hs).length
  rwa [hend] at hlength

/-- A computation that reads the state, but nothing of it that lies below. -/
theorem get_bind {f : State → Run β}
    (hsame : ∀ s : State, s.calls ≠ [] → ∀ outer blocks, f (s.atop outer blocks) = f s)
    (h : ∀ s, Isolated (f s)) : Isolated (get >>= f) := by
  intro s hs
  refine ⟨(h s s hs).length, fun outer blocks => ?_⟩
  show f (s.atop outer blocks) (s.atop outer blocks) = atEnd _ (f s s)
  rw [hsame s hs]
  exact (h s s hs).atop outer blocks

theorem tick (span : Span) : Isolated (tick b span) := by
  intro s _
  -- whether a step can be taken depends on the number of steps only
  have hcase {r : State → EStateM.Result Failure State Unit}
      (hlength : (endState (r s)).calls.length = s.calls.length)
      (hsame : ∀ outer blocks, r (s.atop outer blocks) = atEnd (State.atop outer blocks) (r s))
      (hr : ∀ t : State, t.steps = s.steps → Run.tick b span t = r t) : Separate (Run.tick b span) s := by
    refine ⟨?_, fun outer blocks => ?_⟩
    · rw [hr s rfl]
      exact hlength
    · rw [hr s rfl, hr (s.atop outer blocks) rfl]
      exact hsame outer blocks
  rcases Nat.lt_or_ge s.steps b.limits.stepBudget with hleft | hspent
  · by_cases hlate : (s.steps + 1) % clockInterval = 0 ∧ b.clock.expired (s.steps + 1) = true
    · exact hcase rfl (fun _ _ => rfl) fun t ht => tick_late (ht ▸ hleft) (ht ▸ hlate)
    · exact hcase rfl (fun _ _ => rfl) fun t ht => tick_step (ht ▸ hleft) (ht ▸ hlate)
  · exact hcase rfl (fun _ _ => rfl) fun t ht => tick_spent (ht ▸ hspent)

theorem load (name : Ident) : Isolated (load name) :=
  get_bind (fun s hs _ _ => by simp only [State.binding?_atop hs]) fun s => by
    split
    · exact pure _
    · exact fail _ _

/-- A change of the state that is the same whatever lies below. -/
theorem modify {f : State → State} (hlength : ∀ s, (f s).calls.length = s.calls.length)
    (h : ∀ s : State, s.calls ≠ [] → ∀ outer blocks, f (s.atop outer blocks) = (f s).atop outer blocks) :
    Isolated (modify f : Run Unit) :=
  fun s hs => ⟨hlength s, fun outer blocks => congrArg (EStateM.Result.ok ()) (h s hs outer blocks)⟩

theorem store (name : Ident) (value : Value) : Isolated (store name value) :=
  get_bind (fun s hs _ _ => by simp only [State.binding?_atop hs]) fun s => by
    split
    · refine bind (lift _ _) fun fitted => bind (modify (fun s => s.length_replace _ _) ?_) fun _ => pure _
      exact fun s hs _ _ => s.replace_atop hs _ _
    · exact fail _ _

theorem declare {p q : Run α} (name : Ident) (declared : Option Ty) (value : Value) (hp : Isolated p)
    (hq : Isolated q) : Isolated (do if (← get).atTopLevel then p else declare name declared value; q) := by
  refine get_bind (fun s hs _ _ => by simp only [State.atTopLevel_atop hs]) fun s => ?_
  split
  · exact hp
  · refine bind (bind (lift _ _) fun _ => modify (fun s => s.length_mapFrame _) ?_) fun _ => hq
    exact fun s hs _ _ => s.mapFrame_atop hs _

theorem printLine (line : String) (span : Span) : Isolated (printLine line span) :=
  get_bind (fun _ _ _ _ => rfl) fun _ =>
    bind (lift _ _) fun _ => modify (fun _ => rfl) fun _ _ _ _ => rfl

theorem inBlock (h : Isolated p) : Isolated (inBlock p) := by
  intro s hs
  have hpush := s.length_mapFrame Frame.pushBlock
  obtain ⟨hlength, hsame⟩ := h _ (State.calls_ne_nil hs hpush)
  have hopen := State.calls_ne_nil hs (hlength.trans hpush)
  refine ⟨?_, fun outer blocks => ?_⟩
  · rw [Run.inBlock, between_apply, endState_atEnd, State.length_mapFrame, hlength, hpush]
  · rw [Run.inBlock, between_apply, between_apply, State.mapFrame_atop hs, hsame, atEnd_atEnd, atEnd_atEnd]
    exact atEnd_congr (State.mapFrame_atop hopen _)

/-- A call has a frame of its own, so it is separate from what lies below wherever it is made. -/
theorem inCall (params : Vars) (h : Isolated p) (s : State) : Separate (inCall params p) s := by
  obtain ⟨hlength, hsame⟩ := h (s.enter params) (List.cons_ne_nil _ _)
  refine ⟨?_, fun outer blocks => ?_⟩
  · rw [Run.inCall, between_apply, endState_atEnd]
    exact List.length_tail.trans (congrArg Nat.pred hlength)
  · have hopen : (endState (p (s.enter params))).calls ≠ [] := by
      rw [← List.length_pos_iff, hlength]
      exact Nat.zero_lt_succ _
    rw [Run.inCall, between_apply, between_apply]
    show atEnd _ (p ((s.enter params).atop outer blocks)) = atEnd _ (atEnd _ (p (s.enter params)))
    rw [hsame, atEnd_atEnd, atEnd_atEnd]
    refine atEnd_congr ?_
    simp only [State.atop, List.tail_append_of_ne_nil hopen]

theorem closed (b : Bounds) : RunClosed b fun _ p => Isolated p where
  pure := pure
  bind := bind
  throw _ _ _ := .throw _
  tick := tick
  load := load
  store := store
  declare := declare
  printLine := printLine
  steps hf := get_bind (fun _ _ _ _ => rfl) fun s => hf s.steps
  inBlock := inBlock
  inCall _ hp s _ := inCall _ hp s

end Isolated

/-! ### Runs -/

theorem eval_isolated (b : Bounds) (d : Nat) (e : Expr) : Isolated (eval b (invoke b d) e) :=
  eval_closed (Isolated.closed b) (invoke_closed (Isolated.closed b) d) e

theorem evalArgs_isolated (b : Bounds) (d : Nat) (es : List Expr) : Isolated (evalArgs b (invoke b d) es) :=
  evalArgs_closed (Isolated.closed b) (invoke_closed (Isolated.closed b) d) es

theorem exec_isolated (b : Bounds) (d : Nat) (path : TreePath) (stmt : Stmt) :
    Isolated (exec b (invoke b d) path stmt) :=
  exec_closed (Isolated.closed b) (invoke_closed (Isolated.closed b) d) path stmt

theorem execAll_isolated (b : Bounds) (d : Nat) (path : TreePath) (stmts : List Stmt) :
    Isolated (execAll b (invoke b d) path stmts) :=
  execAll_closed (Isolated.closed b) (invoke_closed (Isolated.closed b) d) path stmts

/-- Calls are separate from what lies below, wherever they are made. -/
def Caller.Separate (call : Caller) : Prop :=
  ∀ f args span s, Run.Separate (call f args span) s

theorem invoke_separate (b : Bounds) (d : Nat) : (invoke b d).Separate := by
  intro f args span s
  cases d with
  | zero => exact .throw _
  | succ d =>
    unfold invoke
    split
    · exact .throw _
    · next params _ => exact .bind (Isolated.inCall params (execAll_isolated b d _ f.body) s) fun _ _ _ => .pure _

/-! ### While a call is active -/

/-- Beneath the frames of active calls lie those of `outer`, and at the top level the blocks `blocks` are
open. -/
structure Beneath (outer : List Frame) (blocks : List Vars) (s : State) : Prop where
  calls : ∃ own, own ≠ [] ∧ s.calls = own ++ outer
  blocks : s.globals.blocks = blocks

section

variable {outer : List Frame} {blocks : List Vars} {s s' : State}

theorem Beneath.atop (h : s.calls ≠ []) : Beneath outer blocks (s.atop outer blocks) := ⟨⟨s.calls, h, rfl⟩, rfl⟩

theorem Beneath.exists_atop (h : Beneath outer blocks s) :
    ∃ own : State, own.calls ≠ [] ∧ own.atop outer blocks = s := by
  obtain ⟨⟨own, hown, hcalls⟩, rfl⟩ := h
  refine ⟨{ s with calls := own }, hown, ?_⟩
  rw [State.atop, ← hcalls]

theorem Leaves.endState_eq {p : Run α} (h : Leaves p s s') : endState (p s) = s' := by
  obtain ⟨a, hend⟩ | ⟨e, hend⟩ := h <;> rw [hend] <;> rfl

theorem Isolated.leaves {p : Run α} (h : Isolated p) (hs : Beneath outer blocks s) (hend : Leaves p s s') :
    Beneath outer blocks s' := by
  obtain ⟨own, hown, rfl⟩ := hs.exists_atop
  rw [← hend.endState_eq, (h own hown).atop, endState_atEnd]
  exact .atop (State.calls_ne_nil hown (h own hown).length)

theorem Isolated.ok {p : Run α} {a : α} (h : Isolated p) (hs : Beneath outer blocks s)
    (hend : p s = .ok a s') : Beneath outer blocks s' :=
  h.leaves hs (.inl ⟨a, hend⟩)

theorem After.beneath {p : Point} (h : After b p s) (hp : Beneath outer blocks p.state) :
    Beneath outer blocks s := by
  induction h with
  | start => exact hp
  | tick _ htick ih => exact (Isolated.tick _).ok ih htick
  | expr _ _ hend ih => exact (eval_isolated b _ _).ok ih hend
  | args _ _ hend ih => exact (evalArgs_isolated b _ _).ok ih hend
  | stmt _ _ hend ih => exact (exec_isolated b _ _ _).ok ih hend
  | branch _ _ hend ih =>
    exact ((Isolated.closed b).asBranch _ (exec_isolated b _ _ _)).ok ih hend
  | push _ ih =>
    obtain ⟨own, hown, rfl⟩ := ih.exists_atop
    rw [State.mapFrame_atop hown]
    exact .atop (State.calls_ne_nil hown (own.length_mapFrame _))
  | enter _ _ ih =>
    obtain ⟨⟨own, -, hcalls⟩, hblocks⟩ := ih
    exact ⟨⟨_ :: own, List.cons_ne_nil _ _, congrArg (List.cons _) hcalls⟩, hblocks⟩

theorem Occurs.beneath {p : Point} (h : Occurs b p s) (hp : Beneath outer blocks p.state) :
    Beneath outer blocks s := by
  have hreaches {q : Point} (hq : Reaches b p q) : Beneath outer blocks q.state :=
    hq.invariant (I := fun q => Beneath outer blocks q.state) (fun _ _ hstep => hstep.after.beneath) hp
  cases h with
  | before hq => exact hreaches hq
  | afterExpr hq hend => exact (eval_isolated b _ _).leaves (hreaches hq) hend
  | afterStmt hq hend => exact (exec_isolated b _ _ _).leaves (hreaches hq) hend
  | afterStmts hq hend => exact (execAll_isolated b _ _ _).leaves (hreaches hq) hend

end

/-- The states that occur while a call is active: when its frame has been pushed, and until it is
popped. -/
inductive During (b : Bounds) : Nat → Func → List (Value × Span) → State → State → Prop
  | intro {d : Nat} {f : Func} {values : List (Value × Span)} {params : Vars} {s t : State}
      (hparams : bindParams f.params values .empty = .ok params)
      (h : Occurs b ⟨d, .stmts f.path.inside f.body, s.enter params⟩ t) : During b (d + 1) f values s t

theorem During.beneath {d : Nat} {f : Func} {values : List (Value × Span)} {s t : State}
    (h : During b d f values s t) : Beneath s.calls s.globals.blocks t := by
  cases h with
  | intro hparams h => exact h.beneath ⟨⟨[_], List.cons_ne_nil _ _, rfl⟩, rfl⟩

/-! ### What a call depends on -/

/-- The state without any frame or open block. -/
def State.bare (s : State) : State := { s with globals := { base := s.globals.base }, calls := [] }

theorem State.atop_bare (s : State) : s.bare.atop s.calls s.globals.blocks = s := rfl

/-- The two states have the same variables at the top level, the same output and the same steps. -/
structure State.Alike (s t : State) : Prop where
  steps : t.steps = s.steps
  sink : t.sink = s.sink
  base : t.globals.base = s.globals.base

theorem State.Alike.bare_eq {s t : State} (h : s.Alike t) : t.bare = s.bare := by
  rw [bare, bare, h.steps, h.sink, h.base]

/-- The same result in states that are alike, or failures that are related by `E`. -/
inductive SameEnd (E : Failure → Failure → Prop) :
    EStateM.Result Failure State α → EStateM.Result Failure State α → Prop
  | ok {a : α} {s t : State} (h : s.Alike t) : SameEnd E (.ok a s) (.ok a t)
  | error {e e' : Failure} {s t : State} (he : E e e') (h : s.Alike t) : SameEnd E (.error e s) (.error e' t)

namespace SameEnd

variable {E : Failure → Failure → Prop} {r r' : EStateM.Result Failure State α}

theorem refl (hE : ∀ e, E e e) (r : EStateM.Result Failure State α) : SameEnd E r r := by
  cases r with
  | ok a s => exact .ok ⟨rfl, rfl, rfl⟩
  | error e s => exact .error (hE e) ⟨rfl, rfl, rfl⟩

/-- What lies below makes no difference. -/
theorem atop {outer outer' : List Frame} {blocks blocks' : List Vars} (h : SameEnd E r r') :
    SameEnd E (atEnd (State.atop outer blocks) r) (atEnd (State.atop outer' blocks') r') := by
  cases h with
  | ok h => exact .ok ⟨h.steps, h.sink, h.base⟩
  | error he h => exact .error he ⟨h.steps, h.sink, h.base⟩

end SameEnd

/-- Where the arguments stand shows only in a report that one of them does not fit. -/
theorem bindParams_values {values values' : List (Value × Span)}
    (h : values'.map Prod.fst = values.map Prod.fst) (params : List Param) (vars : Vars) :
    (bindParams params values' vars).mapError Failure.fault =
      (bindParams params values vars).mapError Failure.fault := by
  induction params generalizing values values' vars with
  | nil => rfl
  | cons param params ih =>
    match values, values', h with
    | [], [], _ => rfl
    | (value, span) :: values, (value', span') :: values', h =>
      simp only [List.map_cons, List.cons.injEq] at h
      obtain ⟨rfl, h⟩ := h
      simp only [bindParams]
      split
      · exact ih h _
      · rfl

section

variable {d : Nat} {f : Func} {values values' : List (Value × Span)} {span span' : Span}

/-- Failures for the same reason, and of the same call also at the same place. -/
def SameFault (values values' : List (Value × Span)) (span span' : Span) (e e' : Failure) : Prop :=
  e'.fault = e.fault ∧ (values' = values → span' = span → e' = e)

theorem invoke_values (h : values'.map Prod.fst = values.map Prod.fst) (s : State) :
    SameEnd (SameFault values values' span span') (invoke b d f values span s)
      (invoke b d f values' span' s) := by
  cases d with
  | zero =>
    refine .error ⟨rfl, ?_⟩ ⟨rfl, rfl, rfl⟩
    rintro - rfl
    rfl
  | succ d =>
    have hparams := bindParams_values h f.params .empty
    unfold invoke
    cases hleft : bindParams f.params values .empty with
    | ok params =>
      cases hright : bindParams f.params values' .empty with
      | ok params' =>
        rw [hleft, hright] at hparams
        cases hparams
        exact .refl (fun _ => ⟨rfl, fun _ _ => rfl⟩) _
      | error e' =>
        rw [hleft, hright] at hparams
        cases hparams
    | error e =>
      cases hright : bindParams f.params values' .empty with
      | ok params' =>
        rw [hleft, hright] at hparams
        cases hparams
      | error e' =>
        rw [hleft, hright] at hparams
        refine .error ⟨Except.error.inj hparams, ?_⟩ ⟨rfl, rfl, rfl⟩
        rintro rfl -
        exact Except.error.inj (hright.symm.trans hleft)

/-- A call depends on nothing that belongs to its caller. -/
theorem invoke_alike {s t : State} (h : s.Alike t) (hvalues : values'.map Prod.fst = values.map Prod.fst) :
    SameEnd (SameFault values values' span span') (invoke b d f values span s)
      (invoke b d f values' span' t) := by
  have hs := (invoke_separate b d f values span s.bare).atop s.calls s.globals.blocks
  have ht := (invoke_separate b d f values' span' t.bare).atop t.calls t.globals.blocks
  rw [State.atop_bare] at hs ht
  rw [hs, ht, h.bare_eq]
  exact (invoke_values hvalues s.bare).atop

/-- When a call has ended, its caller has the frames and blocks that it had before. -/
theorem invoke_leaves {s t : State} (h : Leaves (invoke b d f values span) s t) :
    t.calls = s.calls ∧ t.globals.blocks = s.globals.blocks := by
  obtain ⟨hlength, hsame⟩ := invoke_separate b d f values span s.bare
  have hcalls : (endState (invoke b d f values span s.bare)).calls = [] := List.eq_nil_of_length_eq_zero hlength
  have hend := hsame s.calls s.globals.blocks
  rw [State.atop_bare] at hend
  rw [← h.endState_eq, hend, endState_atEnd]
  exact ⟨by rw [State.atop, hcalls]; rfl, rfl⟩

end

/-- Up to the call, no frame has come or gone. -/
theorem Calls.frames {p : Point} {f : Func} {values : List (Value × Span)} {span : Span} {s : State}
    (h : Calls b p f values span s) : s.calls.length = p.state.calls.length := by
  have hany (values : List Value) : ∀ v ∈ values, (anyValue b).Holds v := fun _ _ => trivial
  cases h with
  | intro htick hcallee hargs =>
    have h₁ := Carries.tick (V := anyValue b) (any_held _) htick
    have h₂ := h₁.trans (.eval (hany _) (any_held _) hcallee)
    exact (h₂.trans (.evalArgs (hany _) (any_held _) hargs)).later.frames

end Run

open Run

/-- Calls are isolated from their callers. When the run of a program, which need not have passed any check,
comes to a call, then as long as the call is active all frames of the calls below it and all blocks that are
open at the top level stay as they are; and when it has ended, with a result or with a failure, they are
just these again. Whoever calls the function with the same values, from any state with the same variables
at the top level, the same output, as many steps and as many frames: the call comes to the same result or
the same fault, and leaves the same variables at the top level, the same output and as many steps. -/
theorem Program.calls_isolated (b : Bounds) (p : Program) {d : Nat} {e : Expr} {s₀ s : State} {f : Func}
    {values : List (Value × Span)} {span : Span} (hreaches : Reaches b (p.start b) ⟨d, .expr e, s₀⟩)
    (hcall : Calls b ⟨d, .expr e, s₀⟩ f values span s) :
    let depth (s : State) := b.limits.maxCallDepth - s.calls.length
    eval b (invoke b d) e s₀ = invoke b (depth s) f values span s ∧
      (∀ t, During b (depth s) f values s t →
        (∃ own, own ≠ [] ∧ t.calls = own ++ s.calls) ∧ t.globals.blocks = s.globals.blocks) ∧
      (∀ t, Leaves (invoke b (depth s) f values span) s t →
        t.calls = s.calls ∧ t.globals.blocks = s.globals.blocks) ∧
      ∀ t values' span', s.Alike t → t.calls.length = s.calls.length →
        values'.map Prod.fst = values.map Prod.fst →
          SameEnd (SameFault values values' span span') (invoke b (depth s) f values span s)
            (invoke b (depth t) f values' span' t) := by
  intro depth
  have hframes : d + s₀.calls.length = b.limits.maxCallDepth := (reaches_follows hreaches).2.frames
  have hdepth : depth s = d := by
    simp only [depth, hcall.frames]
    omega
  refine ⟨?_, fun t ht => ?_, fun t => invoke_leaves, fun t values' span' halike hlength hvalues => ?_⟩
  · rw [hdepth]
    exact hcall.eval_eq
  · obtain ⟨hcalls, hblocks⟩ := ht.beneath
    exact ⟨hcalls, hblocks⟩
  · have hsame : depth t = depth s := congrArg (b.limits.maxCallDepth - ·) hlength
    rw [hsame]
    exact invoke_alike halike hvalues

/-- A function is called in a call that is made in a block of the top level. -/
def nestedCalls : Program :=
  let call (name : String) : Stmt := .expr (.call (.ident ⟨name, default⟩) [] default) default
  ⟨[.function ⟨"g", default⟩ [] [.print (.literal (.str "g") default) default] default default,
    .function ⟨"f", default⟩ [] [call "g"] default default,
    .block [call "f"] default], default⟩

theorem Program.calls_isolated_nestedCalls : ∃ d e s₀ f s,
    Reaches {} (nestedCalls.start {}) ⟨d, .expr e, s₀⟩ ∧ Calls {} ⟨d, .expr e, s₀⟩ f [] default s ∧
      s.calls.length = 1 ∧ s.globals.blocks.length = 1 ∧
      let depth (s : State) := ({} : Bounds).limits.maxCallDepth - s.calls.length
      eval {} (invoke {} d) e s₀ = invoke {} (depth s) f [] default s ∧
        (∀ t, During {} (depth s) f [] s t →
          (∃ own, own ≠ [] ∧ t.calls = own ++ s.calls) ∧ t.globals.blocks = s.globals.blocks) ∧
        (∀ t, Leaves (invoke {} (depth s) f [] default) s t →
          t.calls = s.calls ∧ t.globals.blocks = s.globals.blocks) ∧
        ∀ t values' span', s.Alike t → t.calls.length = s.calls.length →
          values'.map Prod.fst = [] →
            SameEnd (SameFault [] values' default span') (invoke {} (depth s) f [] default s)
              (invoke {} (depth t) f values' span' t) := by
  have hreaches : Reaches {} (nestedCalls.start {}) ⟨_, .expr _, _⟩ :=
    .head (.rest rfl rfl) (.head (.rest rfl rfl) (.head (.first rfl) (.head .block (.head (.first rfl)
      (.head .exprStmt (.head (.callBody rfl rfl rfl rfl rfl) (.head (.first rfl) (.single .exprStmt))))))))
  exact ⟨_, _, _, _, _, hreaches, .intro rfl rfl rfl rfl, rfl, rfl,
    Program.calls_isolated {} nestedCalls hreaches (.intro rfl rfl rfl rfl)⟩

end Scriptlet
