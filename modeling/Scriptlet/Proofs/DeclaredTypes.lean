import Scriptlet.Piece
import Scriptlet.Proofs.Bounded
import Scriptlet.Proofs.Layout
import Scriptlet.Proofs.RunClosed
import Scriptlet.Tree.OfTokens

/-!
# Variables hold what they are declared to hold

A property of states that each change of the state keeps (`StateLaw`) holds in every state that occurs in a
run (`StateLaw.occurs`), where the run succeeds and where it fails. Variables are written in five places:
before the run, when a variable of the top level is initialized, when a name is declared or assigned, and when
arguments are passed. In each of them the value is fitted to the type of the variable first. So a variable
with a type holds nil or a value of that type, and the top level has the same variables, with the same types,
from the start of the run to its end (`Program.variables_typed`).
-/

namespace Scriptlet

namespace Run

/-- A property of states that is kept by each change that a run makes. What is stored or declared has been
fitted to the type of its variable, and nothing is declared at the top level itself. -/
structure StateLaw (I : State → Prop) : Prop where
  steps {s : State} (n : Nat) (h : I s) : I { s with steps := n }
  sink {s : State} (sink : Sink) (h : I s) : I { s with sink }
  store {s : State} {name : String} {binding : Binding} {value fitted : Value} (h : I s)
    (hbinding : s.binding? name = some binding) (hfitted : coerce binding.declared name value = .ok fitted) :
    I (s.replace name { binding with value := fitted })
  declare {s : State} {name : String} {declared : Option Ty} {value fitted : Value} {span : Span} (h : I s)
    (htop : s.atTopLevel = false) (hfitted : coerce declared name value = .ok fitted) :
    I (s.mapFrame (·.declare name ⟨fitted, declared, span⟩))
  push {s : State} (h : I s) : I (s.mapFrame Frame.pushBlock)
  pop {s : State} (h : I s) : I (s.mapFrame Frame.popBlock)
  enter {s : State} {params : List Param} {values : List (Value × Span)} {vars : Vars} (h : I s)
    (hparams : bindParams params values .empty = .ok vars) : I (s.enter vars)
  leave {s : State} (h : I s) : I { s with calls := s.calls.tail }

/-- A computation after which `I` holds if it held before, also if the computation fails. -/
def Upholds {α : Type} (I : State → Prop) (p : Run α) : Prop :=
  ∀ s, I s → Ends p s (fun _ s' => I s') fun _ s' => I s'

theorem leaves_endState {α : Type} (p : Run α) (s : State) : Leaves p s (endState (p s)) := by
  cases hend : p s with
  | ok a s' => exact .inl ⟨a, hend⟩
  | error e s' => exact .inr ⟨e, hend⟩

/-! ### Steps -/

namespace Upholds

variable {α β : Type} {b : Bounds} {I : State → Prop} {p : Run α} {f : α → Run β}

theorem leaves (h : Upholds I p) {s s' : State} (hs : I s) (hend : Leaves p s s') : I s' := by
  rcases hend with ⟨a, hok⟩ | ⟨e, herror⟩
  · exact (ends_of_ok hok).1 (h s hs)
  · exact (ends_of_error herror).1 (h s hs)

theorem pure (a : α) : Upholds I (pure a : Run α) := fun _ hs => hs

theorem bind (hp : Upholds I p) (hf : ∀ a, Upholds I (f a)) : Upholds I (p >>= f) := by
  intro s hs
  rw [ends_bind]
  exact (hp s hs).mono_ok fun a s' hs' => hf a s' hs'

theorem load (name : Ident) : Upholds I (load name) := by
  intro s hs
  rw [ends_load]
  cases s.binding? name.name <;> exact hs

section

variable (hI : StateLaw I)

include hI

theorem tick (span : Span) : Upholds I (tick b span) := by
  intro s hs
  simp only [Run.tick, ends_bind, ends_get, ends_ite, ends_set, ends_pure, ends_fail]
  split
  · exact hs
  · split <;> exact hI.steps _ hs

theorem printLine (line : String) (span : Span) : Upholds I (printLine line span) := by
  intro s hs
  rw [ends_printLine]
  cases s.sink.writeLine line with
  | ok sink => exact hI.sink sink hs
  | error fault => exact hs

theorem store (name : Ident) (value : Value) : Upholds I (store name value) := by
  intro s hs
  rw [ends_store]
  cases hbinding : s.binding? name.name with
  | none => exact hs
  | some binding =>
    dsimp only
    cases hfitted : coerce binding.declared name.name value with
    | ok fitted => exact hI.store hs hbinding hfitted
    | error fault => exact hs

/-- A declaration in a block or in a call, and what stands behind it. -/
theorem declare {p q : Run α} (name : Ident) (declared : Option Ty) (value : Value) (hp : Upholds I p)
    (hq : Upholds I q) : Upholds I (do if (← get).atTopLevel then p else declare name declared value; q) := by
  intro s hs
  rw [ends_bind, ends_get]
  split
  · exact hp s hs
  · next htop =>
    rw [ends_bind, ends_declare]
    cases hfitted : coerce declared name.name value with
    | ok fitted => exact hq _ (hI.declare hs (Bool.eq_false_iff.2 htop) hfitted)
    | error fault => exact hs

theorem inBlock (h : Upholds I p) : Upholds I (inBlock p) := by
  intro s hs
  rw [Run.inBlock, ends_between]
  exact (h _ (hI.push hs)).mono (fun _ _ hs' => hI.pop hs') fun _ _ hs' => hI.pop hs'

theorem inCall {params : List Param} {values : List (Value × Span)} {vars : Vars}
    (hparams : bindParams params values .empty = .ok vars) (h : Upholds I p) : Upholds I (inCall vars p) := by
  intro s hs
  rw [Run.inCall, ends_between]
  exact (h _ (hI.enter hs hparams)).mono (fun _ _ hs' => hI.leave hs') fun _ _ hs' => hI.leave hs'

end

/-- What each change of the state keeps is kept by every run. -/
theorem closed (hI : StateLaw I) : RunClosed b fun _ p => Upholds I p where
  pure := pure
  bind := bind
  throw _ _ hs := hs
  tick := tick hI
  load := load
  store := store hI
  declare := declare hI
  printLine := printLine hI
  steps hf s hs := hf s.steps s hs
  inBlock := inBlock hI
  inCall := inCall hI

end Upholds

variable {b : Bounds} {I : State → Prop}

namespace StateLaw

variable {p : Point} {s : State}

theorem after (hI : StateLaw I) (h : After b p s) (hp : I p.state) : I s := by
  have hclosed := Upholds.closed (b := b) hI
  have hcalls (d : Nat) := invoke_closed hclosed d
  induction h with
  | start => exact hp
  | tick _ htick ih => exact (hclosed.tick _).leaves ih (.inl ⟨_, htick⟩)
  | expr _ _ hend ih => exact (eval_closed hclosed (hcalls _) _).leaves ih (.inl ⟨_, hend⟩)
  | args _ _ hend ih => exact (evalArgs_closed hclosed (hcalls _) _).leaves ih (.inl ⟨_, hend⟩)
  | stmt _ _ hend ih => exact (exec_closed hclosed (hcalls _) _ _).leaves ih (.inl ⟨_, hend⟩)
  | branch _ _ hend ih =>
    exact (hclosed.asBranch _ (exec_closed hclosed (hcalls _) _ _)).leaves ih (.inl ⟨_, hend⟩)
  | push _ ih => exact hI.push ih
  | enter _ hparams ih => exact hI.enter ih hparams

/-- What holds where a run begins, and is kept by each change, holds in every state that occurs. -/
theorem occurs (hI : StateLaw I) (h : Occurs b p s) (hp : I p.state) : I s := by
  have hclosed := Upholds.closed (b := b) hI
  have hcalls (d : Nat) := invoke_closed hclosed d
  have hreaches {q : Point} (hq : Reaches b p q) : I q.state :=
    hq.invariant (I := fun q => I q.state) (fun _ _ hstep hq => hI.after hstep.after hq) hp
  cases h with
  | before hq => exact hreaches hq
  | afterExpr hq hend => exact (eval_closed hclosed (hcalls _) _).leaves (hreaches hq) hend
  | afterStmt hq hend => exact (exec_closed hclosed (hcalls _) _ _).leaves (hreaches hq) hend
  | afterStmts hq hend => exact (execAll_closed hclosed (hcalls _) _ _).leaves (hreaches hq) hend

end StateLaw

/-! ### Types of variables -/

/-- The variable holds nil or a value of its type, if it has one. -/
def Binding.Typed (binding : Binding) : Prop :=
  ∀ type, binding.declared = some type → binding.value = .nil ∨ binding.value.type = type

/-- A value that has been fitted to a type is nil or has that type. -/
theorem coerce_type {type : Ty} {name : String} {value fitted : Value}
    (h : coerce (some type) name value = .ok fitted) : fitted = .nil ∨ fitted.type = type := by
  unfold coerce at h
  split at h
  · next hdeclared => cases hdeclared
  · next hdeclared =>
    cases hdeclared
    cases h
    exact .inr rfl
  · cases h
    exact .inl rfl
  · next hdeclared _ _ =>
    cases hdeclared
    split at h
    · next htype =>
      cases h
      exact .inr htype
    · cases h

theorem Binding.typed_of_coerce {declared : Option Ty} {name : String} {value fitted : Value} {span : Span}
    (h : coerce declared name value = .ok fitted) : Binding.Typed ⟨fitted, declared, span⟩ := by
  rintro type rfl
  exact coerce_type h

theorem bindParams_typed {params : List Param} {values : List (Value × Span)} {vars vars' : Vars}
    (hvars : VarsAll Binding.Typed vars) (h : bindParams params values vars = .ok vars') :
    VarsAll Binding.Typed vars' := by
  fun_induction bindParams params values vars with
  | case1 _ _ _ _ _ _ _ _ hfitted ih => exact ih (hvars.insert (Binding.typed_of_coerce hfitted)) h
  | case2 => cases h
  | case3 =>
    cases h
    exact hvars

theorem hoist_typed {path : TreePath} {items : List Stmt} {vars : Vars} (hvars : VarsAll Binding.Typed vars) :
    VarsAll Binding.Typed (hoist path items vars) := by
  induction items generalizing path vars with
  | nil => exact hvars
  | cons item items ih =>
    refine ih ?_
    cases item with
    | function name params body braces span => exact hvars.insert nofun
    | varDecl name type init span => exact hvars.insert fun _ _ => .inl rfl
    | _ => exact hvars

/-- Every write fits the value to the type of its variable. -/
theorem typed_law : StateLaw (State.All Binding.Typed) where
  steps _ h := ⟨h.globals, h.calls⟩
  sink _ h := ⟨h.globals, h.calls⟩
  store h _ hfitted := h.replace (Binding.typed_of_coerce hfitted)
  declare h _ hfitted := h.mapFrame fun _ hf => hf.declare (Binding.typed_of_coerce hfitted)
  push h := h.mapFrame fun _ => .pushBlock
  pop h := h.mapFrame fun _ => .popBlock
  enter h hparams := h.enter (bindParams_typed .empty hparams)
  leave h := h.leave

/-- The variables of the top level, and their types, do not change. -/
theorem slots_law (slots : Slots) : StateLaw fun s => slotsOf s.globals.base = slots where
  steps _ h := h
  sink _ h := h
  store {s name binding _ fitted} h hbinding _ := by
    have hlayout : (s.replace name { binding with value := fitted }).layout = s.layout :=
      State.replace_layout hbinding rfl
    exact (congrArg Layout.base hlayout).trans h
  declare h htop _ := by rwa [State.base_declare htop]
  push h := by rwa [State.base_push]
  pop h := by rwa [State.base_pop]
  enter h _ := h
  leave h := h

end Run

open Run

namespace Program

/-- In every state that occurs in a run, of whatever program and under whatever bounds, each variable that has
a type holds nil or a value of just that type, in all scopes of all active calls and of the top level. And the
top level has the variables that it had before the first statement was run, with the types that they had. -/
theorem variables_typed (b : Bounds) (p : Program) {s : State} (h : Occurs b (p.start b) s) :
    (s.All fun binding =>
      ∀ type, binding.declared = some type → binding.value = .nil ∨ binding.value.type = type) ∧
    ∀ name, (s.globals.base.get? name).map (·.declared) =
      ((p.start b).state.globals.base.get? name).map (·.declared) := by
  have hstart : (p.start b).state.All Binding.Typed := ⟨⟨hoist_typed .empty, nofun⟩, nofun⟩
  refine ⟨typed_law.occurs h hstart, fun name => ?_⟩
  have hslots := (slots_law _).occurs h rfl
  have hname := congrArg (Option.map Slot.declared) (congrFun hslots name)
  rwa [slotsOf, slotsOf, Option.map_map, Option.map_map] at hname

/-- Whole numbers go into variables, a parameter and a block that are to hold fractions. -/
def widened : String :=
  "float half = 1; func f(float x) \x7b float y = x; half = 2; return y; \x7d int n = f(3);"

theorem variables_typed_widened :
    let p := (ofTokens (Tokens.ofText widened).tokens).program
    let s := endState (execAll {} (invoke {} 200) .first p.items (p.start {}).state)
    ["half", "n"].map (fun name => (s.globals.base.get? name).map fun v => (v.declared, v.value.type)) =
        [some (some .float, .float), some (some .int, .nil)] ∧
      (s.All fun binding =>
        ∀ type, binding.declared = some type → binding.value = .nil ∨ binding.value.type = type) ∧
      ∀ name, (s.globals.base.get? name).map (·.declared) =
        ((p.start {}).state.globals.base.get? name).map (·.declared) := by
  refine ⟨by decide +kernel, ?_⟩
  exact variables_typed {} _ (.afterStmts .refl (leaves_endState _ _))

end Program

end Scriptlet
