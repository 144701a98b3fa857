import Scriptlet.Proofs.RunClosed
import Scriptlet.Proofs.RunSteps

/-!
# Runs that mirror each other

A program can be changed in ways that its run does not show: the statements of blocks and functions can be exchanged
for others with the same effect, and there can be further variables at the top level, as long as the run does not look
for one that it has not declared. A `Mirror` says how to change a program, and with it the values and the states of its
runs. Then expressions (`eval_mirrored`), statements (`exec_mirrored`) and calls (`invoke_mirrored`) of the two programs
go the same way.
-/

namespace Scriptlet

/-- The statement with `body stmts` for the statements `stmts` of each block and each function in it that stands in
no other one. -/
def Stmt.withBodies (body : List Stmt → List Stmt) : Stmt → Stmt
  | .block stmts span => .block (body stmts) span
  | .branch cond thenStmt none span => .branch cond (thenStmt.withBodies body) none span
  | .branch cond thenStmt (some elseStmt) span =>
    .branch cond (thenStmt.withBodies body) (some (elseStmt.withBodies body)) span
  | .loop cond stmt span => .loop cond (stmt.withBodies body) span
  | .function name params stmts braces span => .function name params (body stmts) braces span
  | .varDecl name type init span => .varDecl name type init span
  | .expr e span => .expr e span
  | .print e span => .print e span
  | .returnWith value span => .returnWith value span
  | .breakLoop span => .breakLoop span
  | .continueLoop span => .continueLoop span

theorem Stmt.span_withBodies (body : List Stmt → List Stmt) (stmt : Stmt) :
    (stmt.withBodies body).span = stmt.span := by
  cases stmt with
  | branch cond thenStmt elseStmt span => cases elseStmt <;> rfl
  | _ => rfl

namespace Run

/-- How a run is mirrored: by which statements those of a body are exchanged, with the same effect, and which
variables are added at the top level. -/
structure Mirror where
  body : List Stmt → List Stmt
  extra : List (String × Binding)
  execAll_body (b : Bounds) (call : Caller) (path : TreePath) (stmts : List Stmt) :
    execAll b call path (body stmts) = execAll b call path (stmts.map (Stmt.withBodies body))

namespace Mirror

variable (M : Mirror)

/-! ### Values and states -/

/-- The same function with another body: it stands where it stood. -/
def func (f : Func) : Func := { f with body := M.body f.body }

def value : Value → Value
  | .function f => .function (M.func f)
  | .int n => .int n
  | .float x => .float x
  | .bool holds => .bool holds
  | .str text => .str text
  | .nil => .nil

def argument (arg : Value × Span) : Value × Span := (M.value arg.1, arg.2)

def signal : Signal → Signal
  | .returned value => .returned (M.value value)
  | .normal => .normal
  | .broke => .broke
  | .continued => .continued

def binding (x : Binding) : Binding := { x with value := M.value x.value }

/-- The variables of a scope, and `extra` after them. -/
def vars (extra : List (String × Binding)) (scope : Vars) : Vars :=
  ⟨scope.entries.map (fun entry => (entry.1, M.binding entry.2)) ++ extra⟩

def frame (extra : List (String × Binding)) (f : Frame) : Frame :=
  ⟨f.blocks.map (M.vars []), M.vars extra f.base⟩

def state (s : State) : State :=
  { s with globals := M.frame M.extra s.globals, calls := s.calls.map (M.frame []) }

theorem text_value (v : Value) : (M.value v).text = v.text := by
  cases v <;> rfl

theorem result_signal (signal : Signal) : (M.signal signal).result = M.value signal.result := by
  cases signal <;> rfl

theorem value_ofLiteral (l : Literal) : M.value (.ofLiteral l) = .ofLiteral l := by
  cases l <;> rfl

/-! ### Operators -/

theorem map_inRange (symbol : String) (n : Option Int64) :
    (inRange symbol n).map M.value = inRange symbol n := by
  cases n <;> rfl

theorem map_onInts (op : Arithmetic) (symbol : String) (m n : Int64) :
    (op.onInts symbol m n).map M.value = op.onInts symbol m n := by
  cases op with
  | add | sub | mul => exact M.map_inRange symbol _
  | div | rem =>
    simp only [Arithmetic.onInts]
    split
    · rfl
    · exact M.map_inRange symbol _

theorem map_onFloats (op : Arithmetic) (x y : Float) : (op.onFloats x y).map M.value = op.onFloats x y := by
  cases op with
  | add | sub | mul => rfl
  | div | rem =>
    simp only [Arithmetic.onFloats]
    split <;> rfl

theorem map_concat (maxBytes : Nat) (s t : String) : (concat maxBytes s t).map M.value = concat maxBytes s t := by
  unfold concat
  split <;> rfl

/-- A function is no operand, but for equality, which looks at where functions stand. -/
theorem applyStrict_value (maxBytes : Nat) (op : BinaryOp) (strict : StrictOp) (l r : Value) :
    applyStrict maxBytes op strict (M.value l) (M.value r) = (applyStrict maxBytes op strict l r).map M.value := by
  cases strict with
  | equality negated => cases l <;> cases r <;> rfl
  | comparison c => cases l <;> cases r <;> rfl
  | arithmetic a =>
    cases l <;> cases r <;> try rfl
    case int.int m n => exact (M.map_onInts a _ m n).symm
    case str.str s t =>
      simp only [applyStrict, value]
      split
      · exact (M.map_concat maxBytes s t).symm
      · rfl
    all_goals exact (M.map_onFloats a _ _).symm

theorem applyUnary_value (op : UnaryOp) (v : Value) :
    applyUnary op (M.value v) = (applyUnary op v).map M.value := by
  cases op <;> cases v <;> try rfl
  exact (M.map_inRange _ _).symm

theorem coerce_value (declared : Option Ty) (name : String) (v : Value) :
    coerce declared name (M.value v) = (coerce declared name v).map M.value := by
  cases declared with
  | none => rfl
  | some type => cases type <;> cases v <;> rfl

/-! ### Variables -/

theorem lookup_map (entries : List (String × Binding)) (extra : List (String × Binding)) (name : String) :
    Table.lookup name (entries.map (fun entry => (entry.1, M.binding entry.2)) ++ extra) =
      ((Table.lookup name entries).map M.binding).or (Table.lookup name extra) := by
  induction entries with
  | nil => rfl
  | cons entry rest ih =>
    simp only [List.map_cons, List.cons_append, Table.lookup]
    split
    · rfl
    · exact ih

theorem put_map {name : String} {x : Binding} {entries : List (String × Binding)} (extra : List (String × Binding))
    (h : extra = [] ∨ (Table.lookup name entries).isSome = true) :
    Table.put name (M.binding x) (entries.map (fun entry => (entry.1, M.binding entry.2)) ++ extra) =
      (Table.put name x entries).map (fun entry => (entry.1, M.binding entry.2)) ++ extra := by
  induction entries with
  | nil =>
    rcases h with rfl | h
    · rfl
    · cases h
  | cons entry rest ih =>
    simp only [Table.lookup] at h
    simp only [List.map_cons, List.cons_append, Table.put]
    by_cases hkey : entry.1 = name
    · simp only [if_pos hkey, List.map_cons, List.cons_append]
    · rw [if_neg hkey] at h ⊢
      rw [if_neg hkey, ih h]
      rfl

theorem get?_vars (extra : List (String × Binding)) (scope : Vars) (name : String) :
    (M.vars extra scope).get? name = ((scope.get? name).map M.binding).or (Table.lookup name extra) :=
  M.lookup_map scope.entries extra name

theorem contains_vars (scope : Vars) (name : String) : (M.vars [] scope).contains name = scope.contains name := by
  unfold Table.contains
  rw [M.get?_vars]
  cases scope.get? name <;> rfl

/-- What replaces a variable of a scope has its mirror image there. -/
theorem insert_vars {extra : List (String × Binding)} {scope : Vars} {name : String} (x : Binding)
    (h : extra = [] ∨ (scope.get? name).isSome = true) :
    (M.vars extra scope).insert name (M.binding x) = M.vars extra (scope.insert name x) :=
  congrArg Table.mk (M.put_map extra h)

theorem binding?_frame (extra : List (String × Binding)) (f : Frame) (name : String) :
    (M.frame extra f).binding? name = ((f.binding? name).map M.binding).or (Table.lookup name extra) := by
  obtain ⟨blocks, base⟩ := f
  show ((blocks.map (M.vars [])).findSome? (·.get? name)).or ((M.vars extra base).get? name) =
    (((blocks.findSome? (·.get? name)).or (base.get? name)).map M.binding).or (Table.lookup name extra)
  rw [M.get?_vars]
  induction blocks with
  | nil => rfl
  | cons scope rest ih =>
    simp only [List.map_cons, List.findSome?_cons, M.get?_vars]
    cases scope.get? name with
    | none => exact ih
    | some x => rfl

theorem binding?_state (s : State) (name : String) :
    (M.state s).binding? name = ((s.binding? name).map M.binding).or (Table.lookup name M.extra) := by
  obtain ⟨steps, sink, globals, _ | ⟨frame, rest⟩⟩ := s
  · exact M.binding?_frame M.extra globals name
  · show ((M.frame [] frame).binding? name).or ((M.vars M.extra globals.base).get? name) =
      (((frame.binding? name).or (globals.base.get? name)).map M.binding).or (Table.lookup name M.extra)
    rw [M.binding?_frame, M.get?_vars]
    cases frame.binding? name <;> rfl

theorem replaceIn_vars (name : String) (x : Binding) (blocks : List Vars) :
    Frame.replaceIn name (M.binding x) (blocks.map (M.vars [])) = (Frame.replaceIn name x blocks).map (M.vars []) := by
  induction blocks with
  | nil => rfl
  | cons scope rest ih =>
    simp only [List.map_cons, Frame.replaceIn, M.contains_vars]
    split
    · rw [M.insert_vars x (.inl rfl)]
      rfl
    · rw [ih]
      rfl

theorem replace_frame {extra : List (String × Binding)} {f : Frame} {name : String} (x : Binding)
    (h : extra = [] ∨ (f.binding? name).isSome = true) :
    (M.frame extra f).replace name (M.binding x) = M.frame extra (f.replace name x) := by
  obtain ⟨blocks, base⟩ := f
  have hany : (blocks.map (M.vars [])).any (·.contains name) = blocks.any (·.contains name) := by
    rw [List.any_map]
    exact congrArg blocks.any (funext fun scope => M.contains_vars scope name)
  simp only [frame, Frame.replace, hany]
  split
  · rw [M.replaceIn_vars]
  · next hblocks =>
    -- no open block has the variable, so the base has it
    have hbase : extra = [] ∨ (base.get? name).isSome = true := by
      refine h.imp_right fun h => ?_
      have hnone : blocks.findSome? (·.get? name) = none := by
        rw [List.findSome?_eq_none_iff]
        intro scope hscope
        cases hget : scope.get? name with
        | none => rfl
        | some y => exact absurd (List.any_eq_true.2 ⟨scope, hscope, congrArg Option.isSome hget⟩) hblocks
      simpa [Frame.binding?, hnone] using h
    rw [M.insert_vars x hbase]

theorem replace_state {s : State} {name : String} (x : Binding) (h : (s.binding? name).isSome = true) :
    (M.state s).replace name (M.binding x) = M.state (s.replace name x) := by
  obtain ⟨steps, sink, globals, _ | ⟨frame, rest⟩⟩ := s
  · simp only [state, State.replace, List.map_nil]
    rw [M.replace_frame x (.inr h)]
  · have hframe : ((M.frame [] frame).binding? name).isSome = (frame.binding? name).isSome := by
      rw [M.binding?_frame]
      cases frame.binding? name <;> rfl
    simp only [state, State.replace, List.map_cons, hframe]
    split
    · rw [M.replace_frame x (.inl rfl)]
      rfl
    · next hnone =>
      have hbase : (globals.base.get? name).isSome = true := by
        simpa [State.binding?, hnone, Option.isSome_or] using h
      simp only [Mirror.frame, M.insert_vars x (.inr hbase)]
      rfl

theorem atTopLevel_state (s : State) : (M.state s).atTopLevel = s.atTopLevel := by
  obtain ⟨steps, sink, ⟨blocks, base⟩, calls⟩ := s
  cases calls <;> cases blocks <;> rfl

/-- A declaration is mirrored, unless it adds to the base of the top level. -/
theorem declare_state {s : State} {name : String} (x : Binding) (h : ¬ s.atTopLevel = true) :
    (M.state s).mapFrame (·.declare name (M.binding x)) = M.state (s.mapFrame (·.declare name x)) := by
  obtain ⟨steps, sink, ⟨blocks, base⟩, calls⟩ := s
  cases calls with
  | nil =>
    cases blocks with
    | nil => exact absurd rfl h
    | cons scope rest =>
      simp only [state, frame, State.mapFrame, Frame.declare, List.map_cons, List.map_nil,
        M.insert_vars x (.inl rfl)]
  | cons frame rest =>
    obtain ⟨_ | ⟨scope, blocks⟩, base⟩ := frame <;>
      simp only [state, Mirror.frame, State.mapFrame, Frame.declare, List.map_cons, List.map_nil,
        M.insert_vars x (.inl rfl)]

theorem pushBlock_state (s : State) : (M.state s).mapFrame .pushBlock = M.state (s.mapFrame .pushBlock) := by
  obtain ⟨steps, sink, globals, calls⟩ := s
  cases calls <;> rfl

theorem popBlock_state (s : State) : (M.state s).mapFrame .popBlock = M.state (s.mapFrame .popBlock) := by
  obtain ⟨steps, sink, ⟨blocks, base⟩, calls⟩ := s
  cases calls with
  | nil => cases blocks <;> rfl
  | cons frame rest =>
    obtain ⟨_ | ⟨scope, blocks⟩, base⟩ := frame <;> rfl

theorem bindParams_vars (params : List Param) (args : List (Value × Span)) (scope : Vars) :
    bindParams params (args.map M.argument) (M.vars [] scope) = (bindParams params args scope).map (M.vars []) := by
  induction params generalizing args scope with
  | nil => rfl
  | cons param params ih =>
    cases args with
    | nil => rfl
    | cons arg args =>
      simp only [List.map_cons, bindParams, argument, M.coerce_value]
      cases coerce (param.type.map Ty.ofTypeName) param.name.name arg.1 with
      | error fault => rfl
      | ok fitted => exact (congrArg _ (M.insert_vars ⟨fitted, _, _⟩ (.inl rfl))).trans (ih args _)

end Mirror

/-! ### Computations -/

variable {α β γ δ : Type} {b : Bounds} {M : Mirror} {φ : α → γ} {ψ : β → δ}

/-- The end of a computation and that of the other one: the same, as the mirror shows it, or the first one did not
find a variable, which may be one of those that are added. -/
inductive Reflects (M : Mirror) (φ : α → γ) :
    EStateM.Result Failure State α → EStateM.Result Failure State γ → Prop
  | ok {a : α} {s : State} : Reflects M φ (.ok a s) (.ok (φ a) (M.state s))
  | error {e : Failure} {s : State} : Reflects M φ (.error e s) (.error e (M.state s))
  | escaped {name : String} {span : Span} {s : State} {r : EStateM.Result Failure State γ} (h : M.extra ≠ []) :
      Reflects M φ (.error ⟨.undefined name, span⟩ s) r

/-- The end of `p` is reflected by that of `q` from the mirrored state. -/
def Mirrored (M : Mirror) (φ : α → γ) (p : Run α) (q : Run γ) : Prop :=
  ∀ s, Reflects M φ (p s) (q (M.state s))

theorem Reflects.andThen {r : EStateM.Result Failure State α} {r' : EStateM.Result Failure State γ} {f : α → Run β}
    {g : γ → Run δ} (h : Reflects M φ r r') (hf : ∀ a s, Reflects M ψ (f a s) (g (φ a) (M.state s))) :
    Reflects M ψ (andThen f r) (andThen g r') := by
  cases h with
  | ok => exact hf _ _
  | error => exact .error
  | escaped h => exact .escaped h

namespace Mirrored

variable {p : Run α} {q : Run γ} {f : α → Run β} {g : γ → Run δ}

theorem pure (a : α) : Mirrored M φ (pure a) (pure (φ a)) := fun _ => .ok

theorem throw (failure : Failure) : Mirrored M φ (throw failure) (throw failure) := fun _ => .error

theorem fail (fault : Fault) (span : Span) : Mirrored M φ (fail fault span) (fail fault span) := fun _ => .error

theorem bind (hp : Mirrored M φ p q) (hf : ∀ a, Mirrored M ψ (f a) (g (φ a))) :
    Mirrored M ψ (p >>= f) (q >>= g) := by
  intro s
  rw [bind_apply, bind_apply]
  exact (hp s).andThen hf

theorem lift (span : Span) (x : Except Fault α) : Mirrored M φ (lift span x) (lift span (x.map φ)) := by
  cases x with
  | ok a => exact .pure a
  | error fault => exact .throw _

theorem tick (span : Span) : Mirrored M id (tick b span) (tick b span) := by
  intro s
  by_cases hspent : b.limits.stepBudget ≤ s.steps
  · rw [tick_spent hspent, tick_spent (s := M.state s) hspent]
    exact .error
  · have hleft := Nat.lt_of_not_le hspent
    by_cases hclock : (s.steps + 1) % clockInterval = 0 ∧ b.clock.expired (s.steps + 1) = true
    · rw [tick_late hleft hclock, tick_late (s := M.state s) hleft hclock]
      exact .error
    · rw [tick_step hleft hclock, tick_step (s := M.state s) hleft hclock]
      exact .ok

/-- A variable that is there is also there in the mirror. -/
theorem binding_mirrored {s : State} {name : String} {x : Binding} (h : s.binding? name = some x) :
    (M.state s).binding? name = some (M.binding x) := by
  rw [M.binding?_state, h]
  rfl

/-- A variable that is not there is not there in the mirror either, unless one has been added. -/
theorem binding_missing {s : State} {name : String} (h : s.binding? name = none) :
    (M.state s).binding? name = none ∨ M.extra ≠ [] := by
  cases hextra : M.extra with
  | nil =>
    left
    rw [M.binding?_state, h, hextra]
    rfl
  | cons => exact .inr (List.cons_ne_nil _ _)

theorem load (name : Ident) : Mirrored M M.value (load name) (load name) := by
  intro s
  cases h : s.binding? name.name with
  | some x =>
    rw [load_of_binding h, load_of_binding (binding_mirrored h)]
    exact .ok
  | none =>
    rw [load_undefined h]
    rcases binding_missing (M := M) h with hnone | hextra
    · rw [load_undefined hnone]
      exact .error
    · exact .escaped hextra

theorem store (name : Ident) (value : Value) :
    Mirrored M M.value (store name value) (store name (M.value value)) := by
  intro s
  cases h : s.binding? name.name with
  | some x =>
    have hfit' := M.coerce_value x.declared name.name value
    cases hfit : coerce x.declared name.name value with
    | ok fitted =>
      rw [hfit] at hfit'
      rw [store_of_ok h hfit, store_of_ok (binding_mirrored h) hfit']
      show Reflects M M.value _ (.ok _ ((M.state s).replace name.name (M.binding { x with value := fitted })))
      rw [M.replace_state _ (Option.isSome_iff_exists.2 ⟨x, h⟩)]
      exact .ok
    | error fault =>
      rw [hfit] at hfit'
      rw [store_of_error h hfit, store_of_error (binding_mirrored h) hfit']
      exact .error
  | none =>
    rw [store_undefined h]
    rcases binding_missing (M := M) h with hnone | hextra
    · rw [store_undefined hnone]
      exact .error
    · exact .escaped hextra

theorem declare {s : State} (h : ¬ s.atTopLevel = true) (name : Ident) (declared : Option Ty) (value : Value) :
    Reflects M id (declare name declared value s) (declare name declared (M.value value) (M.state s)) := by
  unfold Run.declare
  rw [M.coerce_value]
  cases coerce declared name.name value with
  | error fault => exact .error
  | ok fitted =>
    show Reflects M id (.ok () (s.mapFrame (·.declare name.name ⟨fitted, declared, name.span⟩)))
      (.ok () ((M.state s).mapFrame (·.declare name.name (M.binding ⟨fitted, declared, name.span⟩))))
    rw [M.declare_state _ h]
    exact .ok

theorem printLine (line : String) (span : Span) : Mirrored M id (printLine line span) (printLine line span) := by
  intro s
  cases h : s.sink.writeLine line with
  | ok sink =>
    rw [printLine_of_ok h, printLine_of_ok (s := M.state s) h]
    exact .ok
  | error fault =>
    rw [printLine_of_error h, printLine_of_error (s := M.state s) h]
    exact .error

theorem between {enter enter' leave : State → State} (henter : ∀ s, enter' (M.state s) = M.state (enter s))
    (hleave : ∀ s, leave (M.state s) = M.state (leave s)) (hp : Mirrored M φ p q) :
    Mirrored M φ (between enter leave p) (between enter' leave q) := by
  intro s
  have hs := hp (enter s)
  unfold Run.between
  rw [henter]
  generalize p (enter s) = r at hs ⊢
  generalize q (M.state (enter s)) = r' at hs ⊢
  cases hs with
  | @ok a t =>
    show Reflects M φ (.ok a (leave t)) (.ok (φ a) (leave (M.state t)))
    rw [hleave]
    exact .ok
  | @error e t =>
    show Reflects M φ (.error e (leave t)) (.error e (leave (M.state t)))
    rw [hleave]
    exact .error
  | escaped h => exact .escaped h

theorem inBlock (hp : Mirrored M φ p q) : Mirrored M φ (inBlock p) (inBlock q) :=
  between M.pushBlock_state M.popBlock_state hp

theorem inCall (params : Vars) (hp : Mirrored M φ p q) :
    Mirrored M φ (inCall params p) (inCall (M.vars [] params) q) := by
  unfold Run.inCall
  refine between (fun s => rfl) (fun s => ?_) hp
  obtain ⟨steps, sink, globals, calls⟩ := s
  cases calls <;> rfl

theorem truth (span : Span) (value : Value) : Mirrored M id (truth span value) (truth span (M.value value)) := by
  cases value with
  | bool holds => exact .pure holds
  | _ => exact .fail _ span

theorem iterate {span : Span} {cond cond' : Run Bool} {body body' : Run Signal} (hcond : Mirrored M id cond cond')
    (hbody : Mirrored M M.signal body body') (rounds : Nat) :
    Mirrored M M.signal (iterate b span cond body rounds) (iterate b span cond' body' rounds) := by
  induction rounds with
  | zero => exact .bind (.tick span) fun _ => .pure _
  | succ rounds ih =>
    refine .bind (.tick span) fun _ => .bind hcond fun again => ?_
    cases again with
    | false => exact .pure _
    | true =>
      refine .bind hbody fun signal => ?_
      cases signal with
      | normal | continued => exact ih
      | broke | returned => exact .pure _

/-- A block stays a block, and any other statement keeps its place, so that the step it counts as is the same. -/
theorem asBranch {stmt : Stmt} {body body' : Run Signal} (hbody : Mirrored M M.signal body body') :
    Mirrored M M.signal (asBranch b stmt body) (asBranch b (stmt.withBodies M.body) body') := by
  have hstep : Mirrored M M.signal (Run.inBlock do Run.tick b stmt.span; body)
      (Run.inBlock do Run.tick b (stmt.withBodies M.body).span; body') := by
    rw [Stmt.span_withBodies]
    exact .inBlock (.bind (.tick _) fun _ => hbody)
  cases stmt with
  | block => exact hbody
  | branch cond thenStmt elseStmt span => cases elseStmt <;> exact hstep
  | _ => exact hstep

/-- What stands behind a declaration, which is made unless the run is at the top level. -/
theorem unlessAtTop {p p' q q' : Run Signal} (name : Ident) (declared : Option Ty) (value : Value)
    (hp : Mirrored M M.signal p p') (hq : Mirrored M M.signal q q') :
    Mirrored M M.signal (do if (← get).atTopLevel then p else Run.declare name declared value; q)
      (do if (← get).atTopLevel then p' else Run.declare name declared (M.value value); q') := by
  intro s
  rw [get_bind_apply, get_bind_apply, M.atTopLevel_state]
  split
  · exact hp s
  · next h =>
    rw [bind_apply, bind_apply]
    exact (declare h name declared value).andThen fun _ => hq

end Mirrored

/-! ### Runs -/

/-- What the calls of the two runs do. -/
def Mirror.Calls (M : Mirror) (call call' : Caller) : Prop :=
  ∀ f args span, Mirrored M M.value (call f args span) (call' (M.func f) (args.map M.argument) span)

variable {call call' : Caller}

mutual

theorem eval_mirrored (hcall : M.Calls call call') :
    ∀ e : Expr, Mirrored M M.value (eval b call e) (eval b call' e)
  | .literal l _ => by
    have h : Mirrored M M.value (pure (.ofLiteral l)) (pure (M.value (.ofLiteral l))) := .pure _
    rw [M.value_ofLiteral] at h
    exact h
  | .ident name => .load name
  | .assign target value _ => .bind (eval_mirrored hcall value) fun _ => .store target _
  | .binary op lhs rhs span => by
    have hlhs := eval_mirrored hcall lhs
    have hrhs := eval_mirrored hcall rhs
    unfold eval
    split
    · refine .bind hlhs fun _ => .bind (.truth _ _) fun left => ?_
      simp only [id]
      split
      · exact .pure _
      · exact .bind hrhs fun _ => .bind (.truth _ _) fun right => .pure _
    · refine .bind hlhs fun left => .bind hrhs fun right => ?_
      rw [M.applyStrict_value]
      exact .lift _ _
  | .unary op operand span => by
    unfold eval
    refine .bind (eval_mirrored hcall operand) fun value => ?_
    rw [M.applyUnary_value]
    exact .lift _ _
  | .call callee args span => by
    unfold eval
    refine .bind (.tick span) fun _ => .bind (eval_mirrored hcall callee) fun value => ?_
    cases value with
    | function f =>
      refine .bind (evalArgs_mirrored hcall args) fun values => ?_
      show Mirrored M M.value (if values.length = f.params.length then _ else _)
        (if (values.map M.argument).length = f.params.length then _ else _)
      rw [List.length_map]
      split
      · exact hcall f values span
      · exact .fail _ _
    | _ => exact .fail _ _

theorem evalArgs_mirrored (hcall : M.Calls call call') :
    ∀ es : List Expr, Mirrored M (List.map M.argument) (evalArgs b call es) (evalArgs b call' es)
  | [] => .pure _
  | e :: es =>
    .bind (eval_mirrored hcall e) fun _ => .bind (evalArgs_mirrored hcall es) fun _ => .pure _

end

theorem evalOption_mirrored (hcall : M.Calls call call') :
    ∀ e : Option Expr, Mirrored M M.value (evalOption b call e) (evalOption b call' e)
  | none => .pure _
  | some e => eval_mirrored hcall e

theorem evalCondition_mirrored (hcall : M.Calls call call') (cond : Expr) :
    Mirrored M id (evalCondition b call cond) (evalCondition b call' cond) :=
  .bind (eval_mirrored hcall cond) fun _ => .truth _ _

mutual

theorem exec_mirrored (hcall : M.Calls call call') :
    ∀ (path : TreePath) (stmt : Stmt),
      Mirrored M M.signal (exec b call path stmt) (exec b call' path (stmt.withBodies M.body))
  | _, .varDecl name type init _ => by
    simp only [Stmt.withBodies, exec]
    refine .bind (evalOption_mirrored hcall init) fun value => .unlessAtTop name _ value ?_ (.pure _)
    exact .bind (.store name value) fun _ => .pure _
  | _, .expr e _ => .bind (eval_mirrored hcall e) fun _ => .pure _
  | _, .print e span => by
    simp only [Stmt.withBodies, exec]
    refine .bind (eval_mirrored hcall e) fun value => ?_
    rw [M.text_value]
    exact .bind (.printLine _ span) fun _ => .pure _
  | _, .block body _ => by
    simp only [Stmt.withBodies, exec]
    rw [M.execAll_body]
    exact .inBlock (execAll_mirrored hcall _ body)
  | path, .branch cond thenStmt elseStmt _ => by
    have hthen := exec_mirrored hcall path.inside thenStmt
    cases elseStmt with
    | none =>
      simp only [Stmt.withBodies, exec]
      refine .bind (evalCondition_mirrored hcall cond) fun holds => ?_
      cases holds with
      | true => exact .asBranch hthen
      | false => exact .pure _
    | some elseStmt =>
      have helse := exec_mirrored hcall path.inside.next elseStmt
      simp only [Stmt.withBodies, exec]
      refine .bind (evalCondition_mirrored hcall cond) fun holds => ?_
      cases holds with
      | true => exact .asBranch hthen
      | false => exact .asBranch helse
  | path, .loop cond body span => by
    have hbody := exec_mirrored hcall path.inside body
    simp only [Stmt.withBodies, exec]
    intro s
    rw [get_bind_apply, get_bind_apply]
    -- as many steps are left in the mirror, so the loops go round equally often
    exact Mirrored.iterate (evalCondition_mirrored hcall cond) (.asBranch hbody) _ s
  | path, .function name params body _ _ => by
    simp only [Stmt.withBodies]
    rw [exec_function, exec_function]
    exact .unlessAtTop name none (.function ⟨⟨name, params, body⟩, path⟩) (.pure _) (.pure _)
  | _, .returnWith value _ => .bind (evalOption_mirrored hcall value) fun value => .pure _
  | _, .breakLoop _ | _, .continueLoop _ => .pure _

theorem execAll_mirrored (hcall : M.Calls call call') :
    ∀ (path : TreePath) (stmts : List Stmt), Mirrored M M.signal (execAll b call path stmts)
      (execAll b call' path (stmts.map (Stmt.withBodies M.body)))
  | _, [] => .pure _
  | path, stmt :: stmts => by
    have hstmt := exec_mirrored hcall path stmt
    have hrest := execAll_mirrored hcall path.next stmts
    simp only [List.map_cons, execAll, Stmt.span_withBodies]
    refine .bind (.tick stmt.span) fun _ => .bind hstmt fun signal => ?_
    cases signal with
    | normal => exact hrest
    | broke | continued | returned => exact .pure _

end

/-- Calls are mirrored, since the bodies of functions are. -/
theorem invoke_mirrored (b : Bounds) (M : Mirror) (depth : Nat) : M.Calls (invoke b depth) (invoke b depth) := by
  induction depth with
  | zero => exact fun _ _ _ => .fail _ _
  | succ depth ih =>
    intro f args span
    have hparams : bindParams (M.func f).params (args.map M.argument) .empty =
        (bindParams f.params args .empty).map (M.vars []) := M.bindParams_vars f.params args .empty
    simp only [invoke]
    rw [hparams]
    cases bindParams f.params args .empty with
    | error failure => exact .throw failure
    | ok params =>
      show Mirrored M M.value (do return (← inCall params (execAll b (invoke b depth) f.path.inside f.body)).result)
        (do return (← inCall (M.vars [] params)
          (execAll b (invoke b depth) f.path.inside (M.body f.body))).result)
      rw [M.execAll_body]
      refine .bind (.inCall params (execAll_mirrored ih _ f.body)) fun signal => ?_
      rw [M.result_signal]
      exact .pure _

/-- The functions that are bound before the run have the exchanged bodies. -/
theorem hoist_withBodies (M : Mirror) (path : TreePath) (items : List Stmt) (scope : Vars) :
    hoist path (items.map (Stmt.withBodies M.body)) (M.vars [] scope) = M.vars [] (hoist path items scope) := by
  induction items generalizing path scope with
  | nil => rfl
  | cons item items ih =>
    cases item with
    | varDecl name type init span => exact (congrArg _ (M.insert_vars ⟨.nil, _, _⟩ (.inl rfl))).trans (ih _ _)
    | function name params body braces span =>
      exact (congrArg _ (M.insert_vars ⟨.function ⟨⟨name, params, body⟩, path⟩, _, _⟩ (.inl rfl))).trans (ih _ _)
    | branch cond thenStmt elseStmt span => cases elseStmt <;> exact ih _ scope
    | _ => exact ih _ scope

/-- Where the variables of the top level are mirrored, so is the state before the first statement. -/
theorem initial_mirrored (M : Mirror) {items items' : List Stmt}
    (h : hoist .first items' .empty = M.vars M.extra (hoist .first items .empty)) (b : Bounds) :
    initial b items' = M.state (initial b items) := by
  rw [initial, h]
  rfl

end Run

end Scriptlet
