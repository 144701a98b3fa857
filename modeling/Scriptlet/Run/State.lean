import Scriptlet.Run.Limits
import Scriptlet.Run.Operators
import Scriptlet.Run.Sink
import Scriptlet.Table

/-!
# The state of a run

Variables live in frames: one for the top level and one for each call that has not returned. A frame is
a base scope with the scopes of its open blocks on top. A call sees its own frame and then the base
scope of the top level; top-level code sees its own frame only.
-/

namespace Scriptlet.Run

/-- A variable: its value, the type that every value stored in it must have, and where the name that
declares it stands. -/
structure Binding where
  value : Value
  declared : Option Ty
  declaredAt : Span

abbrev Vars := Table Binding

structure Frame where
  /-- the scopes of the open blocks, innermost first -/
  blocks : List Vars := []
  base : Vars := .empty

namespace Frame

def binding? (f : Frame) (name : String) : Option Binding :=
  (f.blocks.findSome? (·.get? name)).or (f.base.get? name)

def declare (f : Frame) (name : String) (b : Binding) : Frame :=
  match f.blocks with
  | [] => { f with base := f.base.insert name b }
  | scope :: rest => { f with blocks := scope.insert name b :: rest }

def pushBlock (f : Frame) : Frame :=
  { f with blocks := .empty :: f.blocks }

def popBlock (f : Frame) : Frame :=
  { f with blocks := f.blocks.tail }

def replaceIn (name : String) (b : Binding) : List Vars → List Vars
  | [] => []
  | scope :: rest =>
    if scope.contains name then scope.insert name b :: rest else scope :: replaceIn name b rest

def replace (f : Frame) (name : String) (b : Binding) : Frame :=
  if f.blocks.any (·.contains name) then { f with blocks := replaceIn name b f.blocks }
  else { f with base := f.base.insert name b }

end Frame

structure State where
  steps : Nat := 0
  sink : Sink
  /-- the frame of the top level -/
  globals : Frame := {}
  /-- the frames of the active calls, innermost first -/
  calls : List Frame := []

namespace State

def atTopLevel (s : State) : Bool :=
  s.calls.isEmpty && s.globals.blocks.isEmpty

def mapFrame (s : State) (f : Frame → Frame) : State :=
  match s.calls with
  | [] => { s with globals := f s.globals }
  | frame :: rest => { s with calls := f frame :: rest }

def binding? (s : State) (name : String) : Option Binding :=
  match s.calls with
  | [] => s.globals.binding? name
  | frame :: _ => (frame.binding? name).or (s.globals.base.get? name)

def replace (s : State) (name : String) (b : Binding) : State :=
  match s.calls with
  | [] => { s with globals := s.globals.replace name b }
  | frame :: rest =>
    if (frame.binding? name).isSome then { s with calls := frame.replace name b :: rest }
    else { s with globals := { s.globals with base := s.globals.base.insert name b } }

end State

end Run

/-- A step of a run: it changes the state and gives a result, or fails. The state is kept either way. -/
abbrev Run (α : Type) := EStateM Run.Failure Run.State α

namespace Run

variable {α : Type}

/-- A result without effect on the state; a fault is placed at `span`. -/
def lift (span : Span) : Except Fault α → Run α
  | .ok a => pure a
  | .error fault => throw ⟨fault, span⟩

def fail (fault : Fault) (span : Span) : Run α :=
  throw ⟨fault, span⟩

/-- Takes one step, if the budget allows it, and looks at the clock when it is time to. -/
def tick (b : Bounds) (span : Span) : Run Unit := do
  let s ← get
  if b.limits.stepBudget ≤ s.steps then
    fail (.stepBudget b.limits.stepBudget) span
  else
    let steps := s.steps + 1
    set { s with steps }
    if steps % clockInterval = 0 ∧ b.clock.expired steps then
      fail (.deadline b.limits.timeoutMs) span

def load (name : Ident) : Run Value := do
  match (← get).binding? name.name with
  | some b => return b.value
  | none => fail (.undefined name.name) name.span

/-- Gives a variable a new value, fitted to its type, and returns that value. -/
def store (name : Ident) (value : Value) : Run Value := do
  match (← get).binding? name.name with
  | some b =>
    let value ← lift name.span (coerce b.declared name.name value)
    modify (·.replace name.name { b with value })
    return value
  | none => fail (.undefined name.name) name.span

def declare (name : Ident) (declared : Option Ty) (value : Value) : Run Unit := do
  let value ← lift name.span (coerce declared name.name value)
  modify (·.mapFrame (·.declare name.name ⟨value, declared, name.span⟩))

def printLine (line : String) (span : Span) : Run Unit := do
  let sink ← lift span ((← get).sink.writeLine line)
  modify fun s => { s with sink }

/-- Runs `p` between a change of the state and its reversal, whether it succeeds or fails. -/
def between (enter leave : State → State) (p : Run α) : Run α := fun s =>
  match p (enter s) with
  | .ok a s => .ok a (leave s)
  | .error e s => .error e (leave s)

def inBlock (p : Run α) : Run α :=
  between (·.mapFrame Frame.pushBlock) (·.mapFrame Frame.popBlock) p

def inCall (params : Vars) (p : Run α) : Run α :=
  between (fun s => { s with calls := { base := params } :: s.calls })
    (fun s => { s with calls := s.calls.tail }) p

end Scriptlet.Run
