import Scriptlet.Proofs.Bounded
import Scriptlet.Proofs.Resolution

/-!
# Functions that are called by name

The check refuses assignments to functions, so in the run of a program that has passed it the functions of
the top level are never replaced (`Kept`). A name that the check has found to be a function is not hidden in
the run either, so a call of it calls that function, with as many arguments as it has parameters
(`Program.direct_calls_safe`).
-/

namespace Scriptlet

open Check Run

namespace Run

/-! ### What a law says of all states -/

namespace PointLaw

variable {b : Bounds} {L : PointLaw b} {p : Point} {s s' : State}

theorem of_ok {α : Type} {r : Run α} {a : α} (h : L.Runs r s) (hs : L.Inv s.globals.base)
    (hend : r s = .ok a s') : L.Inv s'.globals.base :=
  (ends_of_ok hend).1 (h hs)

theorem of_leaves {α : Type} {r : Run α} (h : L.Runs r s) (hs : L.Inv s.globals.base)
    (hend : Leaves r s s') : L.Inv s'.globals.base := by
  obtain ⟨a, hok⟩ | ⟨e, herror⟩ := hend
  · exact of_ok h hs hok
  · exact ((ends_of_error herror).1 (h hs)).2

theorem after (hp : L.Holds p) (hinv : L.Inv p.state.globals.base) (h : After b p s) :
    L.Inv s.globals.base := by
  induction h with
  | start => exact hinv
  | tick _ htick ih => exact of_ok (.tick _) ih htick
  | expr _ hstep hend ih => exact of_ok (eval_runs (L.bodies _) _ _ (L.step hstep hp)) ih hend
  | args _ hstep hend ih => exact of_ok (evalArgs_runs (L.bodies _) _ _ (L.step hstep hp)) ih hend
  | stmt _ hstep hend ih => exact of_ok (exec_runs (L.bodies _) _ _ _ (L.step hstep hp)) ih hend
  | branch _ hstep hend ih =>
    exact of_ok (asBranch_runs (exec_runs (L.bodies _) _ _) (L.step hstep hp)) ih hend
  | push _ ih => rwa [State.base_push]
  | enter _ _ ih => exact ih

theorem reaches {q : Point} (h : Reaches b p q) (hp : L.Holds p) (hinv : L.Inv p.state.globals.base) :
    L.Holds q ∧ L.Inv q.state.globals.base := by
  refine h.invariant (I := fun q => L.Holds q ∧ L.Inv q.state.globals.base) ?_ ⟨hp, hinv⟩
  rintro q r hstep ⟨hq, hinv⟩
  exact ⟨L.step hstep hq, after hq hinv hstep.after⟩

/-- What is kept of the variables of the top level holds in every state that occurs. -/
theorem occurs (h : Occurs b p s) (hp : L.Holds p) (hinv : L.Inv p.state.globals.base) :
    L.Inv s.globals.base := by
  cases h with
  | before h => exact (reaches h hp hinv).2
  | afterExpr h hend =>
    obtain ⟨hq, hinv⟩ := reaches h hp hinv
    exact of_leaves (eval_runs (L.bodies _) _ _ hq) hinv hend
  | afterStmt h hend =>
    obtain ⟨hq, hinv⟩ := reaches h hp hinv
    exact of_leaves (exec_runs (L.bodies _) _ _ _ hq) hinv hend
  | afterStmts h hend =>
    obtain ⟨hq, hinv⟩ := reaches h hp hinv
    exact of_leaves (execAll_runs (L.bodies _) _ _ _ hq) hinv hend

end PointLaw

/-! ### Where a name is found -/

namespace State

variable {s : State} {name : String}

/-- A name that no inner scope has means a variable of the top level. -/
theorem binding?_of_inner (h : s.layout.inner.findSome? (· name) = none) :
    s.binding? name = s.globals.base.get? name := by
  obtain ⟨steps, sink, globals, _ | ⟨frame, rest⟩⟩ := s
  · have hblocks : globals.blocks.findSome? (·.get? name) = none := by
      simpa [layout, Layout.inner, Frame.findSome_slotsOf] using h
    simp [binding?, Frame.binding?, hblocks]
  · have hframe : frame.binding? name = none := by
      rw [← Option.map_eq_none_iff (f := Binding.slot), frame.slot_binding? name]
      exact h
    simp [binding?, hframe]

/-- To assign to a variable of an inner scope leaves those of the top level alone. -/
theorem base_replace_of_inner (h : (s.layout.inner.findSome? (· name)).isSome) (binding : Binding) :
    (s.replace name binding).globals.base = s.globals.base := by
  obtain ⟨steps, sink, globals, _ | ⟨frame, rest⟩⟩ := s
  · have hblocks : globals.blocks.any (·.contains name) = true := by
      simpa [layout, Layout.inner, Frame.findSome_slotsOf, Frame.any_contains] using h
    simp [replace, Frame.replace, hblocks]
  · have hframe : (frame.binding? name).isSome = true := by
      rw [← Option.isSome_map, frame.slot_binding? name]
      exact h
    simp [replace, hframe]

/-- To assign to a name leaves the other names of the top level alone. -/
theorem base_replace_of_ne {other : String} (h : other ≠ name) (binding : Binding) :
    (s.replace name binding).globals.base.get? other = s.globals.base.get? other := by
  obtain ⟨steps, sink, globals, _ | ⟨frame, rest⟩⟩ := s
  · simp only [replace, Frame.replace]
    split
    · rfl
    · exact Table.get?_insert_of_ne h _ _
  · simp only [replace]
    split
    · rfl
    · exact Table.get?_insert_of_ne h _ _

end State

end Run

/-! ### Functions of the top level -/

/-- The functions that were made for the top level are there. -/
def Kept (globals base : Vars) : Prop :=
  ∀ name made f, globals.get? name = some made → made.value = .function f → base.get? name = some made

variable {log : List (Ident × Lookup)} {globals : Vars} {b : Bounds} {s : State}

namespace Kept

/-- A variable of the top level may be assigned. -/
theorem replace {name : String} {made binding : Binding} (h : Kept globals s.globals.base)
    (hmade : globals.get? name = some made) (hnil : made.value = .nil) :
    Kept globals (s.replace name binding).globals.base := by
  intro other made' f hmade' hvalue
  have hne : other ≠ name := by
    rintro rfl
    obtain rfl := Option.some.inj (hmade.symm.trans hmade')
    rw [hnil] at hvalue
    cases hvalue
  rw [State.base_replace_of_ne hne]
  exact h other made' f hmade' hvalue

theorem replace_inner {name : String} {binding : Binding} (h : Kept globals s.globals.base)
    (hinner : (s.layout.inner.findSome? (· name)).isSome) :
    Kept globals (s.replace name binding).globals.base := by
  rw [State.base_replace_of_inner hinner]
  exact h

end Kept

/-- In a program that has passed the check, no function of the top level is ever replaced. -/
def keeping (log : List (Ident × Lookup)) (globals : Vars) (b : Bounds) : PointLaw b where
  Holds := Sound log globals
  Inv := Kept globals
  Bad _ := True
  step hstep h := h.step hstep
  fault _ := trivial
  missing _ _ _ := trivial
  assigned {p name binding value} h htask _ hkept := by
    obtain hstore | hinitial := htask
    · obtain ⟨symbol, site, -, hsame, hsite, hkind⟩ := h.site (.inr hstore)
      obtain ⟨slot, -, hinner⟩ | ⟨made, rfl, -, hmade⟩ := Layout.find_sites hsite
      · exact hkept.replace_inner (Option.isSome_of_eq_some hinner)
      · exact hkept.replace hmade (hsame.2.eq_nil (hkind hstore))
    · have hlocated := h.located
      rw [hinitial] at hlocated
      obtain ⟨-, made, hmade, -, hnil⟩ := hlocated
      exact hkept.replace hmade hnil

/-! ### Calls -/

theorem evalArgs_length {call : Caller} {es : List Expr} {values : List (Value × Span)} {s' : State}
    (h : evalArgs b call es s = .ok values s') : values.length = es.length := by
  induction es generalizing s values s' with
  | nil =>
    cases h
    rfl
  | cons e es ih =>
    rw [evalArgs] at h
    obtain ⟨value, s₁, -, h⟩ := of_bind_ok h
    obtain ⟨rest, s₂, hrest, h⟩ := of_bind_ok h
    cases h
    exact congrArg Nat.succ (ih hrest)

/-- A call of a function by a name that means it, with an argument for each parameter. -/
theorem eval_direct {call : Caller} {name : Ident} {args : List Expr} {span : Span} {binding : Binding}
    {f : Func} (hbinding : s.binding? name.name = some binding) (hvalue : binding.value = .function f)
    (harity : f.params.length = args.length) :
    eval b call (.call (.ident name) args span) s =
      (do
        tick b span
        let values ← evalArgs b call args
        call f values span : Run Value) s := by
  unfold eval
  refine bind_congr_ok fun _ s₁ htick => ?_
  obtain ⟨-, rfl⟩ := tick_ok htick
  have hload : load name { s with steps := s.steps + 1 } =
      .ok (.function f) { s with steps := s.steps + 1 } := hvalue ▸ load_of_binding hbinding
  refine (bind_of_ok hload).trans ?_
  refine bind_congr_ok fun values s₂ hvalues => ?_
  rw [if_pos ((evalArgs_length hvalues).trans harity.symm)]

/-- A call by a name that the check has found to be a function is a call of that function, and it has an
argument for each parameter. -/
theorem Sound.direct {d : Nat} {name : Ident} {args : List Expr} {span : Span}
    (h : Sound log globals ⟨d, .expr (.call (.ident name) args span), s⟩)
    (hkept : Kept globals s.globals.base) :
    ∃ symbol, (name, .found symbol) ∈ log ∧ (symbol.kind.isFunction = true →
      ∃ made f, globals.get? name.name = some made ∧ made.value = .function f ∧
        made.declaredAt = symbol.declaredAt ∧ f.params.length = args.length ∧
        s.binding? name.name = some made) := by
  obtain ⟨v, hpasses, hmatches⟩ := h.located
  obtain ⟨symbol, hlookup, hlog, hvalue⟩ := symbol_passes (ident_passes (call_passes hpasses).1)
  refine ⟨symbol, hlog, fun hfunction => ?_⟩
  obtain ⟨params, hkind⟩ : ∃ params, symbol.kind = .function params := by
    cases hkind : symbol.kind with
    | function params => exact ⟨params, rfl⟩
    | var | param =>
      rw [hkind] at hfunction
      cases hfunction
  have hargs := known_passes hpasses hvalue hkind
  obtain ⟨site, hsite, hsame⟩ := hmatches.lookup hlookup
  obtain ⟨slot, rfl, -⟩ | ⟨made, rfl, hinner, hmade⟩ := Layout.find_sites hsite
  · -- no function is declared in an inner scope
    rw [hsame.2] at hfunction
    cases hfunction
  · obtain ⟨hat, hmakes⟩ := hsame
    rw [hkind] at hmakes
    obtain ⟨f, hf, harity⟩ := hmakes
    refine ⟨made, f, hmade, hf, hat, harity.trans hargs, ?_⟩
    rw [State.binding?_of_inner hinner]
    exact hkept name.name made f hmade hf

/-- What is made for the top level comes from a declaration. -/
theorem hoist_declares {path : TreePath} {items : List Stmt} {vars : Vars} {name : String} {made : Binding}
    (h : (hoist path items vars).get? name = some made) :
    vars.get? name = some made ∨ ∃ i item, items[i]? = some item ∧
      ∃ symbol, Declares (path.skip i) item symbol made ∧ symbol.name = name := by
  induction items generalizing path vars with
  | nil => exact .inl h
  | cons item items ih =>
    obtain ⟨symbol, b, hdeclares, -, -, hrun⟩ | ⟨-, -, hrun⟩ := declareItems_cons path item items
    · rw [hrun] at h
      obtain hvars | ⟨i, item', hitem, hdeclared⟩ := ih h
      · rw [Table.get?_insert] at hvars
        split at hvars
        · next hname =>
          cases hvars
          exact .inr ⟨0, item, rfl, symbol, hdeclares, hname.symm⟩
        · exact .inl hvars
      · exact .inr ⟨i + 1, item', hitem, path.next_skip i ▸ hdeclared⟩
    · rw [hrun] at h
      obtain hvars | ⟨i, item', hitem, hdeclared⟩ := ih h
      · exact .inl hvars
      · exact .inr ⟨i + 1, item', hitem, path.next_skip i ▸ hdeclared⟩

namespace Program

/-- Functions stand at the top level only, whatever the tokens are. -/
theorem ofTokens_flat {tokens : List Token} (hquiet : (ofTokens tokens).diagnostics = []) :
    ∀ item ∈ (ofTokens tokens).program.items, item.Flat := by
  rw [ofTokens_cut] at hquiet ⊢
  have hrest : ∀ t ∈ (Reader.State.ofTokens tokens).cut.rest, t.kind ≠ .eof := fun t ht =>
    of_decide_eq_true (List.all_eq_true.1 List.all_takeWhile t ht)
  have heof := Reader.unseen_cut.eof (s := .ofTokens tokens) (Reader.State.missingEnd_kind tokens)
  exact (items_sound heof hrest (Array.toList_inj.1 hquiet)).flat

/-- Functions that are called by name are there. When tokens are read without a report and the program is
checked without an error, each function of the top level is bound to its name in every state that occurs in
a run. Where the run comes to a call by a name that the check has found to be a function, the name means
that function, and there is an argument for each of its parameters: the call is a step, the arguments and
what the function does, so neither the callee nor the number of arguments can be at fault. Names of a text
have been looked up once, so what the check has found for them is one symbol. -/
theorem direct_calls_safe (tokens : List Token) (hquiet : (ofTokens tokens).diagnostics = [])
    (hclean : ∀ d ∈ (ofTokens tokens).program.check.diagnostics, d.severity ≠ .error) (b : Bounds) :
    let p := (ofTokens tokens).program
    (∀ s, Occurs b (p.start b) s → ∀ i name params body braces span,
      p.items[i]? = some (.function name params body braces span) →
        s.globals.base.get? name.name =
          some ⟨.function ⟨⟨name, params, body⟩, TreePath.first.skip i⟩, none, name.span⟩) ∧
      ∀ d name args span s, Reaches b (p.start b) ⟨d, .expr (.call (.ident name) args span), s⟩ →
        ∃ symbol, (name, .found symbol) ∈ p.check.lookups ∧
          (∀ source, tokens = (Tokens.ofText source).tokens →
            ∀ found, (name, found) ∈ p.check.lookups → found = .found symbol) ∧
          (symbol.kind.isFunction = true → ∃ f i braces whole,
            p.items[i]? = some (.function f.name f.params f.body braces whole) ∧ f.path = TreePath.first.skip i ∧
            f.name.name = name.name ∧ f.name.span = symbol.declaredAt ∧ f.params.length = args.length ∧
            eval b (invoke b d) (.call (.ident name) args span) s =
              (do
                tick b span
                let values ← evalArgs b (invoke b d) args
                invoke b d f values span : Run Value) s) := by
  intro p
  have hsound : Sound p.check.lookups (hoist .first p.items .empty) (p.start b) :=
    start_sound (ofTokens_flat hquiet) hclean b
  have hkept : Kept (hoist .first p.items .empty) (hoist .first p.items .empty) := fun _ _ _ hmade _ => hmade
  let law := keeping p.check.lookups (hoist .first p.items .empty) b
  refine ⟨fun s hs i name params body braces span hitem => ?_, fun d name args span s hreaches => ?_⟩
  · have hmade := (hoisted_of_clean hclean).own i _ hitem _ _ (.function name params body braces span)
    exact PointLaw.occurs (L := law) hs hsound hkept name.name _ _ hmade rfl
  · obtain ⟨hhere, hkept⟩ := PointLaw.reaches (L := law) hreaches hsound hkept
    obtain ⟨symbol, hlog, hdirect⟩ := hhere.direct hkept
    refine ⟨symbol, hlog, ?_, fun hfunction => ?_⟩
    · rintro source rfl found hfound
      exact lookups_unique (ofTokens_sound (Tokens.ofText_ended source) hquiet) hfound hlog
    · obtain ⟨made, f, hmade, hf, hat, harity, hbinding⟩ := hdirect hfunction
      obtain hnone | ⟨i, item, hitem, symbol', hdeclares, hname⟩ := hoist_declares hmade
      · cases hnone
      · cases hdeclares with
        | var => cases hf
        | function fname params body braces whole =>
          cases hf
          exact ⟨_, i, braces, whole, hitem, rfl, hname, hat, harity, eval_direct hbinding rfl harity⟩

/-- A function that calls itself, and a parameter that hides its name elsewhere. -/
def hiddenFunction : String :=
  "func f(n) \x7b return f(n - 1); \x7d func g(f) \x7b f = 0; return f; \x7d f(g(1));"

theorem direct_calls_safe_hiddenFunction :
    let tokens := (Tokens.ofText hiddenFunction).tokens
    let p := (ofTokens tokens).program
    ((ofTokens tokens).diagnostics = [] ∧ p.check.diagnostics = []) ∧
      (∀ s, Occurs {} (p.start {}) s → ∀ i name params body braces span,
        p.items[i]? = some (.function name params body braces span) →
          s.globals.base.get? name.name =
            some ⟨.function ⟨⟨name, params, body⟩, TreePath.first.skip i⟩, none, name.span⟩) ∧
        ∀ d name args span s, Reaches {} (p.start {}) ⟨d, .expr (.call (.ident name) args span), s⟩ →
          ∃ symbol, (name, .found symbol) ∈ p.check.lookups ∧
            (∀ source, tokens = (Tokens.ofText source).tokens →
              ∀ found, (name, found) ∈ p.check.lookups → found = .found symbol) ∧
            (symbol.kind.isFunction = true → ∃ f i braces whole,
              p.items[i]? = some (.function f.name f.params f.body braces whole) ∧ f.path = TreePath.first.skip i ∧
              f.name.name = name.name ∧ f.name.span = symbol.declaredAt ∧ f.params.length = args.length ∧
              eval {} (invoke {} d) (.call (.ident name) args span) s =
                (do
                  tick {} span
                  let values ← evalArgs {} (invoke {} d) args
                  invoke {} d f values span : Run Value) s) := by
  have hquiet : (ofTokens (Tokens.ofText hiddenFunction).tokens).diagnostics = [] ∧
      (ofTokens (Tokens.ofText hiddenFunction).tokens).program.check.diagnostics = [] := by
    decide +kernel
  exact ⟨hquiet, direct_calls_safe _ hquiet.1 (by rw [hquiet.2]; exact List.forall_mem_nil _) {}⟩

end Program

end Scriptlet
