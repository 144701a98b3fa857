import Scriptlet.Proofs.RunSteps

/-!
# The layout of a state

Which variables there are in which scope, without their values. An expression leaves the layout alone,
calls included; a statement adds at most one variable to the innermost scope (`exec_layout`), and what
a block or a call has added is gone when it ends.
-/

namespace Scriptlet

/-- What there is under each name. -/
abbrev Names (β : Type) := String → Option β

namespace Names

variable {β : Type}

def none : Names β := fun _ => .none

def add (names : Names β) (name : String) (b : β) : Names β :=
  fun other => if other = name then some b else names other

theorem get?_insert (table : Table β) (name : String) (b : β) :
    (table.insert name b).get? = add table.get? name b :=
  funext fun _ => Table.get?_insert ..

end Names

namespace Run

/-- A variable without its value. -/
structure Slot where
  declared : Option Ty
  declaredAt : Span

def Binding.slot (b : Binding) : Slot := ⟨b.declared, b.declaredAt⟩

/-- The variables of a scope, by name. -/
abbrev Slots := Names Slot

def slotsOf (vars : Vars) : Slots := fun name => (vars.get? name).map Binding.slot

structure Layout where
  /-- the variables of the top level -/
  base : Slots
  /-- the blocks open at the top level, innermost first -/
  blocks : List Slots
  /-- the active calls, innermost first, each with its scopes -/
  calls : List (List Slots)

namespace Layout

/-- The scopes of the innermost call, or the open blocks of the top level. -/
def inner (l : Layout) : List Slots := l.calls.headD l.blocks

/-- The scopes that a name is looked up in. -/
def visible (l : Layout) : List Slots := l.inner ++ [l.base]

/-- Whether the top level itself is the innermost scope. -/
def atTop (l : Layout) : Bool := l.inner.isEmpty

def mapInner (l : Layout) (f : List Slots → List Slots) : Layout :=
  match l.calls with
  | [] => { l with blocks := f l.blocks }
  | scopes :: rest => { l with calls := f scopes :: rest }

/-- Opens a block. -/
def push (l : Layout) : Layout := l.mapInner (.none :: ·)

/-- Enters a call with the given parameters. -/
def enter (l : Layout) (params : Slots) : Layout := { l with calls := [params] :: l.calls }

/-- The layout without its innermost scope. -/
def close (l : Layout) : Layout := l.mapInner List.tail

/-- Adds a variable to the innermost scope, which is not that of the top level. -/
def declare (l : Layout) (name : String) (slot : Slot) : Layout :=
  l.mapInner (List.modifyHead (·.add name slot))

variable {l : Layout} {f g : List Slots → List Slots}

@[simp] theorem inner_mapInner : (l.mapInner f).inner = f l.inner := by
  obtain ⟨base, blocks, _ | ⟨scopes, rest⟩⟩ := l <;> rfl

@[simp] theorem base_mapInner : (l.mapInner f).base = l.base := by
  obtain ⟨base, blocks, _ | ⟨scopes, rest⟩⟩ := l <;> rfl

@[simp] theorem mapInner_mapInner : (l.mapInner f).mapInner g = l.mapInner (g ∘ f) := by
  obtain ⟨base, blocks, _ | ⟨scopes, rest⟩⟩ := l <;> rfl

@[simp] theorem base_push : l.push.base = l.base := base_mapInner

@[simp] theorem base_declare (name : String) (slot : Slot) : (l.declare name slot).base = l.base :=
  base_mapInner

@[simp] theorem close_push : l.push.close = l := by
  obtain ⟨base, blocks, _ | ⟨scopes, rest⟩⟩ := l <;> rfl

@[simp] theorem close_declare (name : String) (slot : Slot) :
    (l.declare name slot).close = l.close := by
  simp only [close, declare, mapInner_mapInner]
  congr 1
  funext scopes
  cases scopes <;> rfl

end Layout

/-- The scopes of a frame, innermost first. -/
def Frame.scopes (f : Frame) : List Vars := f.blocks ++ [f.base]

def Frame.layout (f : Frame) : List Slots := f.scopes.map slotsOf

def State.layout (s : State) : Layout :=
  ⟨slotsOf s.globals.base, s.globals.blocks.map slotsOf, s.calls.map Frame.layout⟩

/-! ### Changes of the state -/

theorem slotsOf_insert (vars : Vars) (name : String) (b : Binding) :
    slotsOf (vars.insert name b) = (slotsOf vars).add name b.slot := by
  funext other
  simp only [slotsOf, Names.add, Table.get?_insert]
  split <;> rfl

theorem slotsOf_replace {vars : Vars} {name : String} {b b' : Binding} (h : vars.get? name = some b)
    (hslot : b'.slot = b.slot) : slotsOf (vars.insert name b') = slotsOf vars := by
  funext other
  simp only [slotsOf, Table.get?_insert]
  split
  · next heq => rw [heq, h]; simp [hslot]
  · rfl

namespace Frame

variable {f : Frame} {name : String} {b b' : Binding}

theorem replaceIn_layout {scopes : List Vars} (h : scopes.findSome? (·.get? name) = some b)
    (hslot : b'.slot = b.slot) : (replaceIn name b' scopes).map slotsOf = scopes.map slotsOf := by
  induction scopes with
  | nil => rfl
  | cons scope rest ih =>
    simp only [replaceIn]
    cases hscope : scope.get? name with
    | none =>
      have hrest : rest.findSome? (·.get? name) = some b := by simpa [hscope] using h
      simp [Table.contains, hscope, ih hrest]
    | some found =>
      have hfound : found = b := by simpa [hscope] using h
      simp [Table.contains, hscope, slotsOf_replace hscope (hfound ▸ hslot)]

theorem any_contains (scopes : List Vars) :
    scopes.any (·.contains name) = (scopes.findSome? (·.get? name)).isSome :=
  List.isSome_findSome?.symm

theorem replaceIn_append (name : String) (b : Binding) (l l' : List Vars) :
    replaceIn name b (l ++ l') =
      if l.any (·.contains name) then replaceIn name b l ++ l' else l ++ replaceIn name b l' := by
  induction l with
  | nil => rfl
  | cons vars l ih =>
    rw [List.cons_append, replaceIn, replaceIn, List.any_cons, ih]
    by_cases hvars : vars.contains name = true
    · simp [hvars]
    · simp only [hvars, Bool.false_or, Bool.false_eq_true, if_false]
      split <;> rfl

theorem findSome_scopes (f : Frame) (name : String) :
    f.scopes.findSome? (·.get? name) = f.binding? name := by
  simp [scopes, List.findSome?_append, binding?]

theorem scopes_replace (h : f.binding? name = some b) (b' : Binding) :
    (f.replace name b').scopes = replaceIn name b' f.scopes := by
  rw [scopes, scopes, replaceIn_append, replace]
  split
  · rfl
  · next hblocks =>
    have hnone : f.blocks.findSome? (·.get? name) = none := by simpa [any_contains] using hblocks
    have hbase : f.base.get? name = some b := by simpa [binding?, hnone] using h
    simp [replaceIn, Table.contains, hbase]

theorem replace_layout (h : f.binding? name = some b) (hslot : b'.slot = b.slot) :
    (f.replace name b').layout = f.layout := by
  rw [layout, layout, scopes_replace h, replaceIn_layout ((f.findSome_scopes name).trans h) hslot]

theorem findSome_slotsOf (scopes : List Vars) :
    (scopes.map slotsOf).findSome? (· name) =
      (scopes.findSome? (·.get? name)).map Binding.slot := by
  induction scopes with
  | nil => rfl
  | cons scope rest ih => cases h : scope.get? name <;> simp_all [slotsOf]

theorem slot_binding? (f : Frame) (name : String) :
    (f.binding? name).map Binding.slot = f.layout.findSome? (· name) := by
  rw [layout, findSome_slotsOf, findSome_scopes]

theorem layout_popBlock {scope : Slots} {scopes : List Slots} (h : f.layout = scope :: scopes)
    (hne : scopes ≠ []) : f.popBlock.layout = scopes := by
  obtain ⟨_ | ⟨block, blocks⟩, base⟩ := f
  · exact absurd (List.cons.inj h).2.symm hne
  · exact (List.cons.inj h).2

theorem layout_declare (f : Frame) (name : String) (b : Binding) :
    (f.declare name b).layout = f.layout.modifyHead (·.add name b.slot) := by
  obtain ⟨_ | ⟨block, blocks⟩, base⟩ := f <;> simp [declare, layout, scopes, slotsOf_insert]

theorem layout_inj {g : Frame} (h : f.layout = g.layout) :
    f.blocks.map slotsOf = g.blocks.map slotsOf ∧ slotsOf f.base = slotsOf g.base := by
  simpa [layout, scopes] using h

theorem layout_ne_nil (f : Frame) : f.layout ≠ [] := by
  simp [layout, scopes]

end Frame

namespace State

variable {s s' : State} {name : String}

@[simp] theorem atTop_layout (s : State) : s.layout.atTop = s.atTopLevel := by
  obtain ⟨steps, sink, globals, _ | ⟨frame, rest⟩⟩ := s
  · simp [Layout.atTop, Layout.inner, atTopLevel, layout]
  · simp [Layout.atTop, Layout.inner, atTopLevel, layout, Frame.layout_ne_nil]

/-- A name means the first variable of that name in the scopes that are visible. -/
theorem slot_binding? (s : State) (name : String) :
    (s.binding? name).map Binding.slot = s.layout.visible.findSome? (· name) := by
  obtain ⟨steps, sink, globals, _ | ⟨frame, rest⟩⟩ := s
  · simpa [binding?, Layout.visible, Layout.inner, layout, Frame.layout, Frame.scopes] using
      globals.slot_binding? name
  · have hframe := frame.slot_binding? name
    simp only [binding?, Layout.visible, Layout.inner, layout, List.findSome?_append]
    simp [← hframe, slotsOf, Option.map_or]

theorem replace_layout {b b' : Binding} (h : s.binding? name = some b) (hslot : b'.slot = b.slot) :
    (s.replace name b').layout = s.layout := by
  obtain ⟨steps, sink, globals, _ | ⟨frame, rest⟩⟩ := s
  · have hframe := Frame.layout_inj (Frame.replace_layout (f := globals) h hslot)
    simp [replace, layout, hframe]
  · cases hframe : frame.binding? name with
    | some found =>
      have hfound : found = b := by simpa [binding?, hframe] using h
      simp [replace, hframe, layout, Frame.replace_layout hframe (hfound ▸ hslot)]
    | none =>
      have hbase : globals.base.get? name = some b := by simpa [binding?, hframe] using h
      simp [replace, hframe, layout, slotsOf_replace hbase hslot]

theorem layout_pushBlock (s : State) : (s.mapFrame Frame.pushBlock).layout = s.layout.push := by
  obtain ⟨steps, sink, globals, _ | ⟨frame, rest⟩⟩ := s <;> rfl

/-- A block that has added to its own scope only leaves nothing behind. -/
theorem layout_popBlock (h : s'.layout.close = s.layout) :
    (s'.mapFrame Frame.popBlock).layout = s.layout := by
  obtain ⟨steps, sink, globals, _ | ⟨frame, rest⟩⟩ := s'
  · rw [← h]
    simp [mapFrame, layout, Layout.close, Layout.mapInner, Frame.popBlock]
  · obtain ⟨_, _, globals', _ | ⟨frame', rest'⟩⟩ := s
    · simp [layout, Layout.close, Layout.mapInner] at h
    · simp only [layout, Layout.close, Layout.mapInner, List.map_cons, Layout.mk.injEq,
        List.cons.injEq] at h
      obtain ⟨hbase, hblocks, hframe, hrest⟩ := h
      obtain ⟨scope, scopes, hscopes⟩ := List.exists_cons_of_ne_nil frame.layout_ne_nil
      have hpop : frame.popBlock.layout = frame'.layout := by
        have hopen : frame.layout = scope :: frame'.layout := by
          rw [← hframe, hscopes]
          rfl
        exact Frame.layout_popBlock hopen frame'.layout_ne_nil
      simp [mapFrame, layout, hbase, hblocks, hrest, hpop]

theorem layout_declare {b : Binding} (h : s.atTopLevel = false) :
    (s.mapFrame (·.declare name b)).layout = s.layout.declare name b.slot := by
  obtain ⟨steps, sink, ⟨blocks, base⟩, _ | ⟨frame, rest⟩⟩ := s
  · cases blocks with
    | nil => simp [atTopLevel] at h
    | cons block blocks =>
      simp [mapFrame, layout, Layout.declare, Layout.mapInner, Frame.declare, slotsOf_insert]
  · simp [mapFrame, layout, Layout.declare, Layout.mapInner, Frame.layout_declare]

end State

/-! ### What a run does to the layout -/

/-- A computation that leaves the layout as it was. -/
def Keeps {α : Type} (p : Run α) : Prop :=
  ∀ s, Ends p s (fun _ s' => s'.layout = s.layout) (fun _ _ => True)

/-- A computation that changes at most the innermost scope. -/
def StaysInside {α : Type} (p : Run α) : Prop :=
  ∀ s, Ends p s (fun _ s' => s'.layout.close = s.layout.close) (fun _ _ => True)

namespace Keeps

variable {α β : Type} {p : Run α} {f : α → Run β}

theorem layout_eq (h : Keeps p) {a : α} {s s' : State} (hp : p s = .ok a s') :
    s'.layout = s.layout :=
  (ends_of_ok hp).1 (h s)

theorem pure (a : α) : Keeps (pure a : Run α) := fun _ => rfl

theorem fail (fault : Fault) (span : Span) : Keeps (fail fault span : Run α) := fun _ => trivial

theorem bind (hp : Keeps p) (hf : ∀ a, Keeps (f a)) : Keeps (p >>= f) := by
  intro s
  rw [ends_bind]
  refine (hp s).mono_ok fun a s' hs' => ?_
  exact (hf a s').mono_ok fun _ s'' hs'' => hs''.trans hs'

theorem lift (span : Span) (x : Except Fault α) : Keeps (lift span x) := by
  intro s
  rw [ends_lift]
  cases x <;> trivial

theorem tick (b : Bounds) (span : Span) : Keeps (tick b span) := fun s =>
  (tick_ends b span s).mono (fun _ _ h => by rw [h]; rfl) fun _ _ _ => trivial

theorem load (name : Ident) : Keeps (load name) := by
  intro s
  rw [ends_load]
  cases s.binding? name.name <;> trivial

theorem store (name : Ident) (value : Value) : Keeps (store name value) := by
  intro s
  rw [ends_store]
  cases h : s.binding? name.name with
  | none => trivial
  | some b =>
    dsimp only
    cases coerce b.declared name.name value with
    | error fault => trivial
    | ok value => exact State.replace_layout h rfl

theorem preserves {l : Layout} (h : Keeps p) :
    Preserves (fun s => s.layout = l) (fun _ => True) (fun _ => True) p := fun s hs =>
  (h s).mono_ok fun _ _ hs' => ⟨trivial, hs'.trans hs⟩

theorem printLine (line : String) (span : Span) : Keeps (printLine line span) := by
  intro s
  rw [ends_printLine]
  cases s.sink.writeLine line <;> trivial

end Keeps

namespace StaysInside

variable {α : Type} {p : Run α}

theorem inBlock (h : StaysInside p) : Keeps (inBlock p) := by
  intro s
  simp only [Run.inBlock, ends_between]
  refine (h _).mono_ok fun _ s' hs' => State.layout_popBlock ?_
  rw [hs', State.layout_pushBlock, Layout.close_push]

theorem inCall (params : Vars) (h : StaysInside p) : Keeps (inCall params p) := by
  intro s
  simp only [Run.inCall, ends_between]
  refine (h _).mono_ok fun _ s' hs' => ?_
  obtain ⟨steps, sink, globals, _ | ⟨frame, rest⟩⟩ := s'
  · simp [State.layout, Layout.close, Layout.mapInner] at hs'
  · simp only [State.layout, Layout.close, Layout.mapInner, List.map_cons, Layout.mk.injEq,
      List.cons.injEq] at hs'
    obtain ⟨hbase, hblocks, -, hrest⟩ := hs'
    simp [State.layout, hbase, hblocks, hrest]

end StaysInside

/-- What a statement adds to the layout. -/
def extend : Stmt → Layout → Layout
  | .varDecl name type _ _, l =>
    if l.atTop then l else l.declare name.name ⟨type.map Ty.ofTypeName, name.span⟩
  | .function name _ _ _ _, l => if l.atTop then l else l.declare name.name ⟨none, name.span⟩
  | _, l => l

@[simp] theorem base_extend (stmt : Stmt) (l : Layout) : (extend stmt l).base = l.base := by
  unfold extend
  split
  · split <;> simp
  · split <;> simp
  · rfl

@[simp] theorem close_extend (stmt : Stmt) (l : Layout) : (extend stmt l).close = l.close := by
  unfold extend
  split
  · split <;> simp
  · split <;> simp
  · rfl

/-- What a call does leaves the layout alone. -/
def Caller.Keeps (call : Caller) : Prop :=
  ∀ f args span, Run.Keeps (call f args span)

section

variable {b : Bounds} {call : Caller}

theorem truth_keeps (span : Span) (value : Value) : Keeps (truth span value) := by
  cases value with
  | bool holds => exact .pure holds
  | _ => exact .fail _ _

mutual

theorem eval_keeps (hcall : call.Keeps) : ∀ e : Expr, Keeps (eval b call e)
  | .literal .. => .pure _
  | .ident name => .load name
  | .assign target value _ => .bind (eval_keeps hcall value) fun _ => .store target _
  | .binary op lhs rhs span => by
    unfold eval
    split
    · refine .bind (eval_keeps hcall lhs) fun left => .bind (truth_keeps _ _) fun left => ?_
      split
      · exact .pure _
      · exact .bind (eval_keeps hcall rhs) fun _ => .bind (truth_keeps _ _) fun _ => .pure _
    · exact .bind (eval_keeps hcall lhs) fun _ => .bind (eval_keeps hcall rhs) fun _ => .lift _ _
  | .unary _ operand _ => .bind (eval_keeps hcall operand) fun _ => .lift _ _
  | .call callee args span => by
    unfold eval
    refine .bind (.tick b span) fun _ => .bind (eval_keeps hcall callee) fun value => ?_
    split
    · refine .bind (evalArgs_keeps hcall args) fun values => ?_
      split
      · exact hcall _ _ _
      · exact .fail _ _
    · exact .fail _ _

theorem evalArgs_keeps (hcall : call.Keeps) : ∀ es : List Expr, Keeps (evalArgs b call es)
  | [] => .pure _
  | e :: es => .bind (eval_keeps hcall e) fun _ => .bind (evalArgs_keeps hcall es) fun _ => .pure _

end

theorem evalOption_keeps (hcall : call.Keeps) : ∀ e : Option Expr, Keeps (evalOption b call e)
  | none => .pure _
  | some e => eval_keeps hcall e

theorem evalCondition_keeps (hcall : call.Keeps) (cond : Expr) : Keeps (evalCondition b call cond) :=
  .bind (eval_keeps hcall cond) fun _ => truth_keeps _ _

theorem iterate_keeps {span : Span} {cond : Run Bool} {body : Run Signal} (hcond : Keeps cond)
    (hbody : Keeps body) (rounds : Nat) : Keeps (iterate b span cond body rounds) := by
  intro s
  have hrounds : Preserves (fun s' => s'.layout = s.layout) (fun _ => True) (fun _ => True)
      (iterate b span cond body rounds) :=
    .iterate (Keeps.tick b span).preserves hcond.preserves hbody.preserves trivial rounds
  exact (hrounds s rfl).mono_ok fun _ _ h => h.2

theorem declare_layout {s : State} (h : s.atTopLevel = false) (name : Ident) (declared : Option Ty)
    (value : Value) :
    Ends (declare name declared value) s
      (fun _ s' => s'.layout = s.layout.declare name.name ⟨declared, name.span⟩) fun _ _ => True := by
  rw [ends_declare]
  cases coerce declared name.name value with
  | error fault => trivial
  | ok value => exact State.layout_declare h

theorem asBranch_keeps {stmt : Stmt} {body : Run Signal}
    (h : ∀ s, Ends body s (fun _ s' => s'.layout = extend stmt s.layout) fun _ _ => True) :
    Keeps (asBranch b stmt body) := by
  unfold asBranch
  split
  · exact h
  · refine StaysInside.inBlock fun s => ?_
    rw [ends_bind]
    refine (Keeps.tick b stmt.span s).mono_ok fun _ s' hs' => (h s').mono_ok fun _ s'' hs'' => ?_
    rw [hs'', close_extend, hs']

mutual

/-- A statement adds to the layout what it declares, however it ends. -/
theorem exec_layout (hcall : call.Keeps) : ∀ (path : TreePath) (stmt : Stmt) (s : State),
    Ends (exec b call path stmt) s (fun _ s' => s'.layout = extend stmt s.layout) fun _ _ => True
  | _, .varDecl name type init _, s => by
    simp only [exec, ends_bind, ends_get]
    refine (evalOption_keeps hcall init s).mono_ok fun value s' hs' => ?_
    rw [← hs']
    simp only [extend, State.atTop_layout, ends_ite, ends_bind, ends_pure]
    split
    · exact Keeps.store name value s'
    · next htop => exact declare_layout (by simpa using htop) name _ value
  | _, .expr e _, s => Keeps.bind (eval_keeps hcall e) (fun _ => .pure _) s
  | _, .print e _, s =>
    Keeps.bind (eval_keeps hcall e) (fun _ => .bind (.printLine _ _) fun _ => .pure _) s
  | _, .block body _, s => (execAll_staysInside hcall _ body).inBlock s
  | _, .branch cond thenStmt elseStmt _, s => by
    unfold exec
    refine Keeps.bind (evalCondition_keeps hcall cond) (fun holds => ?_) s
    split
    · exact asBranch_keeps (exec_layout hcall _ thenStmt)
    · match elseStmt with
      | none => exact .pure _
      | some elseStmt => exact asBranch_keeps (exec_layout hcall _ elseStmt)
  | _, .loop cond body span, s =>
    iterate_keeps (evalCondition_keeps hcall cond) (asBranch_keeps (exec_layout hcall _ body)) _ s
  | _, .function name params body _ _, s => by
    simp only [exec, ends_bind, ends_get, ends_ite, ends_pure, extend, State.atTop_layout]
    cases htop : s.atTopLevel with
    | true => rfl
    | false => exact declare_layout htop name none _
  | _, .returnWith value _, s => Keeps.bind (evalOption_keeps hcall value) (fun _ => .pure _) s
  | _, .breakLoop _, _ | _, .continueLoop _, _ => rfl

theorem execAll_staysInside (hcall : call.Keeps) : ∀ (path : TreePath) (stmts : List Stmt),
    StaysInside (execAll b call path stmts)
  | _, [] => fun _ => rfl
  | path, stmt :: stmts => by
    intro s
    simp only [execAll, ends_bind]
    refine (Keeps.tick b stmt.span s).mono_ok fun _ s₁ h₁ => ?_
    refine (exec_layout hcall path stmt s₁).mono_ok fun signal s₂ h₂ => ?_
    have hclose : s₂.layout.close = s.layout.close := by rw [h₂, close_extend, h₁]
    split
    · exact (execAll_staysInside hcall path.next stmts s₂).mono_ok fun _ _ h₃ => h₃.trans hclose
    · exact hclose

end

end

theorem invoke_keeps (b : Bounds) (depth : Nat) : (invoke b depth).Keeps := by
  induction depth with
  | zero => exact fun _ _ _ => .fail _ _
  | succ depth ih =>
    intro f args span
    unfold invoke
    split
    · exact fun _ => trivial
    · exact .bind (StaysInside.inCall _ (execAll_staysInside ih _ f.body)) fun _ => .pure _

end Run

end Scriptlet
