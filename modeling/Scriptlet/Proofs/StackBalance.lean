import Scriptlet.Proofs.Layout
import Scriptlet.Proofs.Reaches
import Scriptlet.Proofs.RunClosed

/-!
# The stack of scopes is balanced

The scopes of a state are a stack of frames, each a stack of scopes (`State.stack`). A block opens a scope on top of
the innermost frame and closes whatever scope is there when it ends; a call does the same with a frame. That this is
the scope or the frame that was opened, however the block or the call ends, is because all that runs in between
leaves as many frames, and as many scopes in each, as it has found (`Balanced`). So no frame ever loses its last
scope, and a declaration always finds one to go to.

An operator is applied to two values only if there is such an operation on values. `BinaryOp.onValues?` says which ones
there are, and `Run.stack_balanced` that no run asks for another.
-/

namespace Scriptlet

namespace Run

variable {α β : Type} {s s' : State}

/-! ### Stacks of scopes -/

/-- The scopes of all frames: those of the innermost call first, those of the top level last, and in each frame the
innermost scope first. -/
def State.stack (s : State) : List (List Vars) := (s.calls ++ [s.globals]).map Frame.scopes

/-- The number of scopes of each frame. -/
def State.heights (s : State) : List Nat := s.stack.map List.length

theorem Frame.length_scopes (f : Frame) : f.scopes.length = f.blocks.length + 1 := by simp [scopes]

namespace State

theorem stack_ne_nil (s : State) : ∀ frame ∈ s.stack, frame ≠ [] := by
  intro frame hframe
  obtain ⟨f, -, rfl⟩ := List.mem_map.1 hframe
  simp [Frame.scopes]

/-- There is an innermost frame, and it has a scope. -/
theorem exists_heights (s : State) : ∃ n rest, s.heights = (n + 1) :: rest := by
  obtain ⟨steps, sink, globals, _ | ⟨frame, rest⟩⟩ := s
  · exact ⟨globals.blocks.length, [], by simp [heights, stack, Frame.scopes]⟩
  · exact ⟨frame.blocks.length, _, by simp [heights, stack, Frame.scopes]; rfl⟩

theorem exists_stack (s : State) : ∃ scope scopes rest, s.stack = (scope :: scopes) :: rest := by
  obtain ⟨n, heights, hheights⟩ := s.exists_heights
  obtain ⟨frame, rest, hstack, hframe, -⟩ := List.map_eq_cons_iff.1 hheights
  obtain ⟨scope, scopes, rfl⟩ := List.exists_cons_of_length_eq_add_one hframe
  exact ⟨scope, scopes, rest, hstack⟩

/-- What is done to the innermost frame. -/
theorem stack_mapFrame {f : Frame → Frame} {g : List Vars → List Vars}
    (h : ∀ frame : Frame, (f frame).scopes = g frame.scopes) (s : State) :
    (s.mapFrame f).stack = s.stack.modifyHead g := by
  obtain ⟨steps, sink, globals, _ | ⟨frame, rest⟩⟩ := s <;> simp [mapFrame, stack, h]

theorem stack_pushBlock (s : State) : (s.mapFrame Frame.pushBlock).stack = s.stack.modifyHead (.empty :: ·) :=
  stack_mapFrame (fun _ => rfl) s

theorem stack_declare (s : State) (name : String) (binding : Binding) :
    (s.mapFrame (·.declare name binding)).stack = s.stack.modifyHead (List.modifyHead (·.insert name binding)) := by
  refine stack_mapFrame (fun frame => ?_) s
  obtain ⟨_ | ⟨block, blocks⟩, base⟩ := frame <;> rfl

/-- Where a block is open, its scope is the one that is closed. -/
theorem stack_popBlock {n : Nat} {rest : List Nat} (h : s.heights = (n + 2) :: rest) :
    (s.mapFrame Frame.popBlock).stack = s.stack.modifyHead List.tail := by
  have hframe {f : Frame} (hf : f.scopes.length = n + 2) : f.popBlock.scopes = f.scopes.tail := by
    obtain ⟨_ | ⟨block, blocks⟩, base⟩ := f
    · simp [Frame.scopes] at hf
    · rfl
  obtain ⟨steps, sink, globals, _ | ⟨frame, frames⟩⟩ := s
  · have hheight : globals.scopes.length = n + 2 := by simpa [heights, stack] using (List.cons.inj h).1
    simp [mapFrame, stack, hframe hheight]
  · have hheight : frame.scopes.length = n + 2 := (List.cons.inj h).1
    simp [mapFrame, stack, hframe hheight]

/-- Where a call is active, its frame is the one that is left. -/
theorem stack_leave {n m : Nat} {rest : List Nat} (h : s.heights = n :: m :: rest) :
    State.stack { s with calls := s.calls.tail } = s.stack.tail := by
  obtain ⟨steps, sink, globals, _ | ⟨frame, frames⟩⟩ := s
  · simp [heights, stack] at h
  · rfl

theorem heights_pushBlock {n : Nat} {rest : List Nat} (h : s.heights = n :: rest) :
    (s.mapFrame Frame.pushBlock).heights = (n + 1) :: rest := by
  obtain ⟨frame, frames, hstack, rfl, rfl⟩ := List.map_eq_cons_iff.1 h
  simp [heights, stack_pushBlock, hstack]

theorem heights_popBlock {n : Nat} {rest : List Nat} (h : s.heights = (n + 2) :: rest) :
    (s.mapFrame Frame.popBlock).heights = (n + 1) :: rest := by
  obtain ⟨frame, frames, hstack, hframe, rfl⟩ := List.map_eq_cons_iff.1 h
  simp [heights, stack_popBlock h, hstack, hframe]

theorem heights_enter (s : State) (params : Vars) : (s.enter params).heights = 1 :: s.heights := rfl

theorem heights_leave {n m : Nat} {rest : List Nat} (h : s.heights = n :: m :: rest) :
    State.heights { s with calls := s.calls.tail } = m :: rest := by
  rw [heights, stack_leave h, List.map_tail]
  exact congrArg List.tail h

theorem heights_declare (s : State) (name : String) (binding : Binding) :
    (s.mapFrame (·.declare name binding)).heights = s.heights := by
  obtain ⟨scope, scopes, rest, hstack⟩ := s.exists_stack
  simp [heights, stack_declare, hstack]

theorem length_replaceIn (name : String) (binding : Binding) (scopes : List Vars) :
    (Frame.replaceIn name binding scopes).length = scopes.length := by
  induction scopes with
  | nil => rfl
  | cons scope rest ih =>
    unfold Frame.replaceIn
    split <;> simp [ih]

theorem length_scopes_replace (f : Frame) (name : String) (binding : Binding) :
    (f.replace name binding).scopes.length = f.scopes.length := by
  rw [Frame.length_scopes, Frame.length_scopes, Frame.replace]
  split
  · rw [length_replaceIn]
  · rfl

theorem heights_replace (s : State) (name : String) (binding : Binding) :
    (s.replace name binding).heights = s.heights := by
  obtain ⟨steps, sink, globals, _ | ⟨frame, rest⟩⟩ := s
  · simp [replace, heights, stack, length_scopes_replace]
  · simp only [replace]
    split
    · simp [heights, stack, length_scopes_replace]
    · simp [heights, stack, Frame.length_scopes]

end State

/-! ### Balanced computations -/

/-- However the computation ends, there are as many frames as before, with as many scopes in each. -/
def Balanced (p : Run α) : Prop := ∀ s, (endState (p s)).heights = s.heights

namespace Balanced

variable {b : Bounds} {p : Run α} {f : α → Run β}

theorem of_ends (h : ∀ s, Ends p s (fun _ s' => s'.heights = s.heights) fun _ s' => s'.heights = s.heights) :
    Balanced p := by
  intro s
  have hs := h s
  unfold Ends at hs
  cases hp : p s <;> rw [hp] at hs <;> exact hs

theorem bind (hp : Balanced p) (hf : ∀ a, Balanced (f a)) : Balanced (p >>= f) := by
  intro s
  have hs := hp s
  rw [bind_apply]
  cases hend : p s with
  | ok a s₁ =>
    rw [hend] at hs
    exact (hf a s₁).trans hs
  | error e s₁ =>
    rw [hend] at hs
    exact hs

theorem tick (span : Span) : Balanced (tick b span) := by
  refine of_ends fun s => ?_
  simp only [Run.tick, ends_bind, ends_get, ends_ite, ends_set, ends_pure, ends_fail]
  split
  · trivial
  · split <;> rfl

theorem load (name : Ident) : Balanced (load name) := by
  refine of_ends fun s => ?_
  rw [ends_load]
  cases s.binding? name.name <;> rfl

theorem store (name : Ident) (value : Value) : Balanced (store name value) := by
  refine of_ends fun s => ?_
  rw [ends_store]
  cases s.binding? name.name with
  | none => rfl
  | some binding =>
    dsimp only
    cases coerce binding.declared name.name value with
    | error fault => rfl
    | ok fitted => exact s.heights_replace _ _

theorem declare (name : Ident) (declared : Option Ty) (value : Value) :
    Balanced (declare name declared value) := by
  refine of_ends fun s => ?_
  rw [ends_declare]
  cases coerce declared name.name value with
  | error fault => rfl
  | ok fitted => exact s.heights_declare _ _

theorem printLine (line : String) (span : Span) : Balanced (printLine line span) := by
  refine of_ends fun s => ?_
  rw [ends_printLine]
  cases s.sink.writeLine line <;> rfl

theorem inBlock (h : Balanced p) : Balanced (inBlock p) := by
  intro s
  obtain ⟨n, rest, hs⟩ := s.exists_heights
  rw [Run.inBlock, between_apply, endState_atEnd, hs]
  exact State.heights_popBlock ((h _).trans (State.heights_pushBlock hs))

theorem inCall (params : Vars) (h : Balanced p) : Balanced (inCall params p) := by
  intro s
  obtain ⟨n, rest, hs⟩ := s.exists_heights
  have hbody : (endState (p (s.enter params))).heights = 1 :: (n + 1) :: rest :=
    (h _).trans ((s.heights_enter params).trans (congrArg (List.cons 1) hs))
  rw [Run.inCall, between_apply, endState_atEnd, hs]
  exact State.heights_leave hbody

theorem closed (b : Bounds) : RunClosed b fun _ p => Balanced p where
  pure _ _ := rfl
  bind := bind
  throw _ _ := rfl
  tick := tick
  load := load
  store := store
  declare {_ p q} name declared value hp hq s := by
    show (endState ((if s.atTopLevel = true then p else Run.declare name declared value >>= fun _ => q) s)).heights = _
    split
    · exact hp s
    · exact bind (declare name declared value) (fun _ => hq) s
  printLine := printLine
  steps hf s := hf s.steps s
  inBlock := inBlock
  inCall _ h := inCall _ h

end Balanced

variable {b : Bounds}

theorem eval_balanced (d : Nat) (e : Expr) : Balanced (eval b (invoke b d) e) :=
  eval_closed (Balanced.closed b) (invoke_closed (Balanced.closed b) d) e

theorem exec_balanced (d : Nat) (path : TreePath) (stmt : Stmt) : Balanced (exec b (invoke b d) path stmt) :=
  exec_closed (Balanced.closed b) (invoke_closed (Balanced.closed b) d) path stmt

theorem execAll_balanced (d : Nat) (path : TreePath) (stmts : List Stmt) :
    Balanced (execAll b (invoke b d) path stmts) :=
  execAll_closed (Balanced.closed b) (invoke_closed (Balanced.closed b) d) path stmts

/-! ### What is closed is what was opened -/

/-- When a block ends, the scope that it closes is the one that it has opened. -/
theorem Balanced.closes_block {p : Run α} (h : Balanced p) (s : State) :
    let s' := endState (p (s.mapFrame Frame.pushBlock))
    ∃ scope scopes rest, s'.stack = (scope :: scopes) :: rest ∧ scopes ≠ [] ∧
      (s'.mapFrame Frame.popBlock).stack = scopes :: rest ∧
      (scopes :: rest).map List.length = s.heights := by
  intro s'
  obtain ⟨n, heights, hs⟩ := s.exists_heights
  have hs' : s'.heights = (n + 2) :: heights := (h _).trans (State.heights_pushBlock hs)
  obtain ⟨frame, rest, hstack, hframe, hrest⟩ := List.map_eq_cons_iff.1 hs'
  obtain ⟨scope, scopes, rfl⟩ := List.exists_cons_of_length_eq_add_one hframe
  have hscopes : scopes.length = n + 1 := Nat.succ.inj hframe
  refine ⟨scope, scopes, rest, hstack, List.ne_nil_of_length_eq_add_one hscopes, ?_, ?_⟩
  · rw [State.stack_popBlock hs', hstack]
    rfl
  · rw [List.map_cons, hscopes, hrest, hs]

/-- When a call ends, the frame that it leaves is its own, and the frames below it are there. -/
theorem Balanced.leaves_call {p : Run α} (h : Balanced p) (params : Vars) (s : State) :
    let s' := endState (p (s.enter params))
    ∃ scope rest, s'.stack = [scope] :: rest ∧ rest.map List.length = s.heights ∧
      State.stack { s' with calls := s'.calls.tail } = rest := by
  intro s'
  obtain ⟨n, heights, hs⟩ := s.exists_heights
  have hs' : s'.heights = 1 :: s.heights := (h _).trans (s.heights_enter params)
  obtain ⟨frame, rest, hstack, hframe, hrest⟩ := List.map_eq_cons_iff.1 hs'
  obtain ⟨scope, rfl⟩ := List.length_eq_one_iff.1 hframe
  rw [hs] at hs'
  exact ⟨scope, rest, hstack, hrest, by rw [State.stack_leave hs', hstack]; rfl⟩

/-- A declaration puts its variable into the innermost scope, which is there. -/
theorem declare_stack {name : Ident} {declared : Option Ty} {value : Value}
    (h : declare name declared value s = .ok () s') :
    ∃ fitted scope scopes rest, coerce declared name.name value = .ok fitted ∧
      s.stack = (scope :: scopes) :: rest ∧
      s'.stack = (scope.insert name.name ⟨fitted, declared, name.span⟩ :: scopes) :: rest := by
  obtain ⟨fitted, s₁, hlift, hmodify⟩ := of_bind_ok h
  obtain ⟨scope, scopes, rest, hstack⟩ := s.exists_stack
  cases hfitted : coerce declared name.name value with
  | error fault =>
    rw [hfitted] at hlift
    cases hlift
  | ok fitted =>
    rw [hfitted] at hlift
    cases hlift
    cases hmodify
    exact ⟨_, scope, scopes, rest, rfl, hstack, by rw [State.stack_declare, hstack]; rfl⟩

end Run

/-! ### Operators -/

namespace BinaryOp

open Run

/-- An operator on two ints, if it is one. -/
def onInts? (op : BinaryOp) (m n : Int64) : Option (Except Fault Value) :=
  match op with
  | add => some (Arithmetic.add.onInts op.symbol m n)
  | sub => some (Arithmetic.sub.onInts op.symbol m n)
  | mul => some (Arithmetic.mul.onInts op.symbol m n)
  | div => some (Arithmetic.div.onInts op.symbol m n)
  | rem => some (Arithmetic.rem.onInts op.symbol m n)
  | lt => some (.ok (.bool (m < n)))
  | le => some (.ok (.bool (m ≤ n)))
  | gt => some (.ok (.bool (n < m)))
  | ge => some (.ok (.bool (n ≤ m)))
  | eq | ne | and | or => none

/-- An operator on two floats, if it is one. -/
def onFloats? (op : BinaryOp) (x y : Float) : Option (Except Fault Value) :=
  match op with
  | add => some (Arithmetic.add.onFloats x y)
  | sub => some (Arithmetic.sub.onFloats x y)
  | mul => some (Arithmetic.mul.onFloats x y)
  | div => some (Arithmetic.div.onFloats x y)
  | rem => some (Arithmetic.rem.onFloats x y)
  | lt => some (.ok (.bool (x < y)))
  | le => some (.ok (.bool (x ≤ y)))
  | gt => some (.ok (.bool (y < x)))
  | ge => some (.ok (.bool (y ≤ x)))
  | eq | ne | and | or => none

/-- An operator on two texts. -/
def onTexts (maxBytes : Nat) (op : BinaryOp) (s t : String) : Except Fault Value :=
  match op with
  | add => concat maxBytes s t
  | lt => .ok (.bool (Comparison.lt.onTexts s t))
  | le => .ok (.bool (Comparison.le.onTexts s t))
  | gt => .ok (.bool (Comparison.gt.onTexts s t))
  | ge => .ok (.bool (Comparison.ge.onTexts s t))
  | _ => .error (.operands op .str .str)

/-- An operator on two values, if it is one. Values of any kind can be compared for being equal; what else an
operator does depends on the values that it is given. -/
def onValues? (maxBytes : Nat) (op : BinaryOp) (lhs rhs : Value) : Option (Except Fault Value) :=
  match op, lhs, rhs with
  | eq, lhs, rhs => some (.ok (.bool (lhs.equals rhs)))
  | ne, lhs, rhs => some (.ok (.bool (!lhs.equals rhs)))
  | op, .int m, .int n => op.onInts? m n
  | op, .str s, .str t => some (op.onTexts maxBytes s t)
  | op, lhs, rhs =>
    match lhs.asFloat?, rhs.asFloat? with
    | some x, some y => op.onFloats? x y
    | _, _ => some (.error (.operands op lhs.type rhs.type))

theorem onValues?_of_strict {op : BinaryOp} {strict : StrictOp} (h : OpForm.of op = .strict strict) (maxBytes : Nat)
    (lhs rhs : Value) : op.onValues? maxBytes lhs rhs = some (applyStrict maxBytes op strict lhs rhs) := by
  cases strict with
  | equality negated => cases op <;> cases h <;> simp [onValues?, applyStrict]
  | arithmetic a => cases op <;> cases h <;> cases lhs <;> cases rhs <;> rfl
  | comparison c => cases op <;> cases h <;> cases lhs <;> cases rhs <;> rfl

end BinaryOp

namespace Run

variable {b : Bounds} {call : Caller} {op : BinaryOp} {s : State}

theorem OpForm.exists_strict (hand : op ≠ .and) (hor : op ≠ .or) : ∃ strict, OpForm.of op = .strict strict := by
  cases op with
  | and => exact absurd rfl hand
  | or => exact absurd rfl hor
  | _ => exact ⟨_, rfl⟩

/-- When both sides of an operator have been computed, there is such an operation on their values. -/
theorem eval_strict {lhs rhs : Expr} {v₁ v₂ : Value} {s₁ s₂ : State} (hand : op ≠ .and) (hor : op ≠ .or)
    (hlhs : eval b call lhs s = .ok v₁ s₁) (hrhs : eval b call rhs s₁ = .ok v₂ s₂) (span : Span) :
    ∃ result, op.onValues? b.limits.maxValueBytes v₁ v₂ = some result ∧
      eval b call (.binary op lhs rhs span) s = lift span result s₂ := by
  obtain ⟨strict, hstrict⟩ := OpForm.exists_strict hand hor
  refine ⟨_, BinaryOp.onValues?_of_strict hstrict _ v₁ v₂, ?_⟩
  unfold eval
  rw [hstrict]
  exact (bind_of_ok hlhs).trans (bind_of_ok hrhs)

/-- The sides of a logical operator are conditions, and no operation on their values takes place. -/
theorem eval_logical (h : op = .and ∨ op = .or) (lhs rhs : Expr) (span : Span) :
    eval b call (.binary op lhs rhs span) = do
      let left ← evalCondition b call lhs
      if left = decide (op = .or) then return .bool left
      else return .bool (← evalCondition b call rhs) := by
  funext s
  unfold eval evalCondition
  rcases h with rfl | rfl <;> simp [OpForm.of]

/-- The stack of scopes is balanced, and no run asks for what there is not. In any state, whether a program has passed
the check or not: an expression, a statement and a row of statements leave as many frames, and as many scopes in
each, as they have found, with whatever value, signal or failure they end. When a block ends, the scope that it
closes is the one on top that it has opened, and its frame keeps another one; when a call ends, the frame that it
leaves is its own. So each frame has a scope at all times, and a declaration that succeeds has put its variable into
the innermost one. If both sides of an operator other than `&&` and `||` have been computed, there is such an
operation on their values; and these two do not compute with values of other kinds. -/
theorem stack_balanced (b : Bounds) (d : Nat) (s : State) :
    let call := invoke b d
    (∀ e, (endState (eval b call e s)).heights = s.heights) ∧
    (∀ path stmt, (endState (exec b call path stmt s)).heights = s.heights) ∧
    (∀ path stmts, (endState (execAll b call path stmts s)).heights = s.heights) ∧
    (∀ path body, let s' := endState (execAll b call path body (s.mapFrame Frame.pushBlock))
      ∃ scope scopes rest, s'.stack = (scope :: scopes) :: rest ∧ scopes ≠ [] ∧
        (s'.mapFrame Frame.popBlock).stack = scopes :: rest ∧ (scopes :: rest).map List.length = s.heights) ∧
    (∀ params path body, let s' := endState (execAll b call path body (s.enter params))
      ∃ scope rest, s'.stack = [scope] :: rest ∧ rest.map List.length = s.heights ∧
        State.stack { s' with calls := s'.calls.tail } = rest) ∧
    (∀ frame ∈ s.stack, frame ≠ []) ∧
    (∀ name declared value s', declare name declared value s = .ok () s' →
      ∃ fitted scope scopes rest, coerce declared name.name value = .ok fitted ∧
        s.stack = (scope :: scopes) :: rest ∧
        s'.stack = (scope.insert name.name ⟨fitted, declared, name.span⟩ :: scopes) :: rest) ∧
    (∀ op lhs rhs v₁ v₂ s₁ s₂ span, op ≠ .and → op ≠ .or → eval b call lhs s = .ok v₁ s₁ →
      eval b call rhs s₁ = .ok v₂ s₂ → ∃ result, op.onValues? b.limits.maxValueBytes v₁ v₂ = some result ∧
        eval b call (.binary op lhs rhs span) s = lift span result s₂) ∧
    ∀ op lhs rhs span, op = .and ∨ op = .or →
      eval b call (.binary op lhs rhs span) = do
        let left ← evalCondition b call lhs
        if left = decide (op = .or) then return .bool left
        else return .bool (← evalCondition b call rhs) :=
  ⟨fun e => eval_balanced d e s, fun path stmt => exec_balanced d path stmt s,
    fun path stmts => execAll_balanced d path stmts s,
    fun path body => (execAll_balanced d path body).closes_block s,
    fun params path body => (execAll_balanced d path body).leaves_call params s, s.stack_ne_nil,
    fun _ _ _ _ => declare_stack, fun _ _ _ _ _ _ _ span hand hor hlhs hrhs => eval_strict hand hor hlhs hrhs span,
    fun _ lhs rhs span h => eval_logical h lhs rhs span⟩

/-- In a call that was made in a block, and in a block of the call. -/
def openBlocks : State where
  sink := ⟨10, ""⟩
  globals := { blocks := [.empty] }
  calls := [{ blocks := [.empty] }]

/-- A block that declares a function and a variable, opens another block and fails there. -/
def brokenOff : Stmt :=
  .block [.function ⟨"f", default⟩ [] [] default default,
    .varDecl ⟨"x", default⟩ none (some (.literal (.int 1) default)) default,
    .block [.print (.binary .add (.ident ⟨"x", default⟩) (.literal .nil default) default) default] default] default

theorem stack_balanced_brokenOff :
    openBlocks.heights = [2, 2] ∧
    (∃ s', exec {} (invoke {} 3) .first brokenOff openBlocks = .error ⟨.operands .add .int .nil, default⟩ s' ∧
      s'.heights = [2, 2]) ∧
    (∃ s', declare ⟨"x", default⟩ (some .float) (.int 1) openBlocks = .ok () s' ∧
      ∃ fitted scope scopes rest, coerce (some .float) "x" (.int 1) = .ok fitted ∧
        openBlocks.stack = (scope :: scopes) :: rest ∧
        s'.stack = (scope.insert "x" ⟨fitted, some .float, default⟩ :: scopes) :: rest) ∧
    ∃ result, BinaryOp.add.onValues? 10 (.int 1) .nil = some result ∧
      eval { limits := { maxValueBytes := 10 } } (invoke { limits := { maxValueBytes := 10 } } 3)
        (.binary .add (.literal (.int 1) default) (.literal .nil default) default) openBlocks =
        lift default result openBlocks := by
  obtain ⟨-, hexec, -, -, -, -, hdeclare, -⟩ := stack_balanced {} 3 openBlocks
  obtain ⟨-, -, -, -, -, -, -, hoperator, -⟩ :=
    stack_balanced { limits := { maxValueBytes := 10 } } 3 openBlocks
  exact ⟨rfl, ⟨_, rfl, hexec .first brokenOff⟩, ⟨_, rfl, hdeclare ⟨"x", default⟩ (some .float) (.int 1) _ rfl⟩,
    hoperator .add _ _ (.int 1) .nil openBlocks openBlocks default nofun nofun rfl rfl⟩

end Run

end Scriptlet
