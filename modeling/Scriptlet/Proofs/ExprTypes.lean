import Scriptlet.Proofs.OperatorTypes
import Scriptlet.Proofs.Passes

/-!
# The types that expressions have when they are run

To the check, `x = e` has the type of `e`. To the run, it is the value as it has been stored, and an int
that is stored in a float variable has become a float. `Expr.runType` follows the run. The type that the
check finds is the same, or it is int where the run has a float (`checkExpr_widens`). It is the same unless a
float variable is assigned an int within the expression (`checkExpr_exact`). An int variable does not take a float
for an int: `Program.narrowed` lists the names to which one is given.
-/

namespace Scriptlet

open Run

/-! ### Programs that leave nothing open -/

/-- Whether an expression calls nothing and has no nil in it. -/
def Expr.explicit : Expr → Bool
  | .literal .nil _ => false
  | .literal .. | .ident _ => true
  | .assign _ value _ => value.explicit
  | .binary _ lhs rhs _ => lhs.explicit && rhs.explicit
  | .unary _ operand _ => operand.explicit
  | .call .. => false

mutual

/-- Whether every variable that is declared has a type and an initial value, and every expression is
explicit. -/
def Stmt.explicit : Stmt → Bool
  | .varDecl _ (some _) (some init) _ => init.explicit
  | .varDecl .. => false
  | .expr e _ | .print e _ => e.explicit
  | .block body _ => Stmt.explicitAll body
  | .branch cond thenStmt none _ => cond.explicit && thenStmt.explicit
  | .branch cond thenStmt (some elseStmt) _ =>
    cond.explicit && thenStmt.explicit && elseStmt.explicit
  | .loop cond body _ => cond.explicit && body.explicit
  | .function _ _ body _ _ => Stmt.explicitAll body
  | .returnWith none _ => true
  | .returnWith (some e) _ => e.explicit
  | .breakLoop _ | .continueLoop _ => true

def Stmt.explicitAll : List Stmt → Bool
  | [] => true
  | stmt :: stmts => stmt.explicit && Stmt.explicitAll stmts

end

/-! ### Types at run time -/

/-- The type of what is stored when a variable of type `slot` is given a value of type `value`. -/
def storedType (slot value : Ty) : Ty :=
  if slot = .float ∧ value = .int then .float else value

/-- The type of the value of an expression, if names stand for variables of the given types. -/
def Expr.runType (types : Ident → Ty) : Expr → Ty
  | .literal value _ => value.type
  | .ident name => types name
  | .assign target value _ => storedType (types target) (value.runType types)
  | .binary op lhs rhs _ =>
    match OpForm.of op with
    | .logical _ => .bool
    | .strict strict => (strict.type? (lhs.runType types) (rhs.runType types)).getD .unknown
  | .unary op operand _ => (unaryType? op (operand.runType types)).getD .unknown
  | .call .. => .unknown

/-- The name `target`, if it stands for an int variable and `value` is a float. -/
def narrowing (slot value : Ty) (target : Ident) : List Ident :=
  if slot = .int ∧ value = .float then [target] else []

/-- The int variables that are assigned a float. -/
def Expr.narrowed (types : Ident → Ty) : Expr → List Ident
  | .literal .. | .ident _ | .call .. => []
  | .assign target value _ =>
    value.narrowed types ++ narrowing (types target) (value.runType types) target
  | .binary _ lhs rhs _ => lhs.narrowed types ++ rhs.narrowed types
  | .unary _ operand _ => operand.narrowed types

/-- The float variables that are assigned an int. -/
def Expr.widened (types : Ident → Ty) : Expr → List Ident
  | .literal .. | .ident _ | .call .. => []
  | .assign target value _ =>
    value.widened types ++ if types target = .float ∧ value.runType types = .int then [target] else []
  | .binary _ lhs rhs _ => lhs.widened types ++ rhs.widened types
  | .unary _ operand _ => operand.widened types

mutual

/-- The int variables that are assigned a float, or are declared with one, outside of functions. -/
def Stmt.narrowed (types : Ident → Ty) : Stmt → List Ident
  | .varDecl name (some type) (some init) _ =>
    init.narrowed types ++ narrowing (.ofTypeName type) (init.runType types) name
  | .expr e _ | .print e _ => e.narrowed types
  | .block body _ => Stmt.narrowedAll types body
  | .branch cond thenStmt none _ => cond.narrowed types ++ thenStmt.narrowed types
  | .branch cond thenStmt (some elseStmt) _ =>
    cond.narrowed types ++ (thenStmt.narrowed types ++ elseStmt.narrowed types)
  | .loop cond body _ => cond.narrowed types ++ body.narrowed types
  | .varDecl .. | .function .. | .returnWith .. | .breakLoop _ | .continueLoop _ => []

def Stmt.narrowedAll (types : Ident → Ty) : List Stmt → List Ident
  | [] => []
  | stmt :: stmts => stmt.narrowed types ++ Stmt.narrowedAll types stmts

end

/-- The type of the symbol that a name was found to mean. -/
def typeIn (log : List (Ident × Lookup)) (name : Ident) : Ty :=
  match log.lookup name with
  | some (.found symbol) => symbol.type
  | _ => .unknown

def Program.narrowed (p : Program) : List Ident :=
  Stmt.narrowedAll (typeIn p.check.lookups) p.items

/-! ### What the check knows of them -/

/-- A type that says what a value is. -/
def Ty.Definite (t : Ty) : Prop :=
  t ≠ .unknown ∧ t ≠ .nil

/-- The run has the type that the check has found, or a float for an int. -/
def Widens (found actual : Ty) : Prop :=
  actual = found ∨ found = .int ∧ actual = .float

section Operators

variable {l r t a c : Ty}

theorem Widens.refl (t : Ty) : Widens t t := .inl rfl

theorem Widens.eq (h : Widens t a) (ht : t ≠ .int) : a = t :=
  h.resolve_right fun hint => ht hint.1

/-- The check knows what an operator makes of operands that it knows. -/
theorem type?_of_result? {op : BinaryOp} {strict : StrictOp} (hl : l.Definite) (hr : r.Definite)
    (hop : OpForm.of op = .strict strict) (h : op.result? l r = some t) : strict.type? l r = some t := by
  cases op <;> grind [OpForm.of, BinaryOp.result?, Ty.sum?, Ty.arithmetic?, StrictOp.type?, Ty.isNumeric,
    Ty.isNumericOrUnknown, Ty.isTextOrUnknown, Ty.Definite]

theorem bool_of_result? {op : BinaryOp} {decisive : Bool} (hl : l.Definite) (hr : r.Definite)
    (hop : OpForm.of op = .logical decisive) (h : op.result? l r = some t) :
    l = .bool ∧ r = .bool ∧ t = .bool := by
  cases op <;> grind [OpForm.of, BinaryOp.result?, Ty.isBoolOrUnknown, Ty.Definite]

theorem unaryType?_of_result? {op : UnaryOp} (hl : l.Definite) (h : op.result? l = some t) :
    unaryType? op l = some t := by
  cases op <;> grind [UnaryOp.result?, unaryType?, Ty.isNumericOrUnknown, Ty.isBoolOrUnknown,
    Ty.Definite]

theorem definite_of_type? {strict : StrictOp} (h : strict.type? l r = some t) : t.Definite := by
  cases strict <;> grind [StrictOp.type?, Ty.Definite]

theorem definite_of_unaryType? {op : UnaryOp} (h : unaryType? op l = some t) : t.Definite := by
  cases op <;> grind [unaryType?, Ty.isNumeric, Ty.Definite]

/-- An operator that takes an int takes a float. -/
theorem Widens.type? {strict : StrictOp} (ha : Widens l a) (hc : Widens r c)
    (h : strict.type? l r = some t) : ∃ t', strict.type? a c = some t' ∧ Widens t t' := by
  obtain rfl | ⟨rfl, rfl⟩ := ha <;> obtain rfl | ⟨rfl, rfl⟩ := hc
  · exact ⟨t, h, .refl t⟩
  all_goals
    cases strict with
    | equality negated => exact ⟨t, h, .refl t⟩
    | arithmetic op =>
      refine ⟨.float, ?_, ?_⟩ <;> grind [StrictOp.type?, Ty.isNumeric, Widens]
    | comparison op =>
      refine ⟨.bool, ?_, ?_⟩ <;> grind [StrictOp.type?, Ty.isNumeric, Widens]

theorem Widens.unaryType? {op : UnaryOp} (ha : Widens l a) (h : unaryType? op l = some t) :
    ∃ t', Run.unaryType? op a = some t' ∧ Widens t t' := by
  obtain rfl | ⟨rfl, rfl⟩ := ha
  · exact ⟨t, h, .refl t⟩
  · cases op with
    | neg =>
      cases h
      exact ⟨.float, rfl, .inr ⟨rfl, rfl⟩⟩
    | not => cases h

theorem coerce_of_type {value : Value} (name : String) (h : value.type = t) :
    coerce (some t) name value = .ok value := by
  subst h
  cases value <;> rfl

/-- A value that the check has allowed to be stored is stored with the type of the variable, unless it is
a float for an int. -/
theorem coerce_widens {value : Value} (name : String) (ht : t ≠ .unknown) (hl : l.Definite)
    (haccepts : t.accepts l = true) (hvalue : Widens l value.type) :
    (∃ stored, coerce (some t) name value = .ok stored ∧ stored.type = t ∧
      storedType t value.type = t) ∨
    (coerce (some t) name value = .error (.storeMismatch name .int .float) ∧ t = .int ∧
      value.type = .float) := by
  have hslot : t = l ∨ t = .float ∧ l = .int := by grind [Ty.accepts, Ty.Definite]
  obtain rfl | ⟨rfl, rfl⟩ := hslot <;> obtain hv | ⟨hint, hv⟩ := hvalue
  · exact .inl ⟨value, coerce_of_type name hv, hv, by grind [storedType]⟩
  · refine .inr ⟨?_, hint, hv⟩
    subst hint
    cases value <;> cases hv
    rfl
  · cases value <;> cases hv
    exact .inl ⟨_, rfl, rfl, rfl⟩
  · exact .inl ⟨value, coerce_of_type name hv, hv, by grind [storedType]⟩

end Operators

/-! ### Expressions -/

section Expressions

open Check

variable {types : Ident → Ty} {log : List (Ident × Lookup)} {v : View}

/-- What is known of the names that a check finds: what they are, and that only names of the top level
can be without a value. -/
def Known (v : View) : Prop :=
  ∀ name symbol, v.tree.lookup v.scope name = .found symbol →
    symbol.type.Definite ∧ (symbol.initialized = false → symbol.depth = 0)

/-- The types of names are those of the symbols that they were found to mean. -/
def TypesFrom (log : List (Ident × Lookup)) (types : Ident → Ty) : Prop :=
  ∀ name symbol, (name, .found symbol) ∈ log → types name = symbol.type

theorem ident_found {name : Ident} (houtside : v.inFunction = false) (hknown : Known v)
    (h : (checkExpr v (.ident name)).Passes true log) :
    ∃ symbol, v.tree.lookup v.scope name.name = .found symbol ∧ (name, .found symbol) ∈ log ∧
      symbol.initialized = true ∧ (checkExpr v (.ident name)).value = symbol.type := by
  simp only [checkExpr, Checked.passes_bind] at h
  obtain ⟨symbol, hlookup, hlog, hread, hvalue⟩ := readSymbol_passes houtside h.1
  have hinit : symbol.initialized = true := by
    cases hinit : symbol.initialized with
    | true => rfl
    | false => exact absurd ((hknown name.name symbol hlookup).2 hinit) (hread hinit)
  refine ⟨symbol, hlookup, hlog, hinit, ?_⟩
  simp [checkExpr, hvalue, readType, hinit]

/-- The check knows the type of an explicit expression, up to floats that it takes for ints. -/
theorem checkExpr_widens (hlog : TypesFrom log types) (houtside : v.inFunction = false)
    (hknown : Known v) : ∀ e : Expr, e.explicit = true → (checkExpr v e).Passes true log →
      (checkExpr v e).value.Definite ∧ Widens (checkExpr v e).value (e.runType types)
  | .literal value span, hexplicit, _ => by
    refine ⟨?_, .refl _⟩
    cases value with
    | nil => cases hexplicit
    | _ => exact ⟨nofun, nofun⟩
  | .ident name, _, hpasses => by
    obtain ⟨symbol, hlookup, hfound, -, hvalue⟩ := ident_found houtside hknown hpasses
    rw [hvalue, Expr.runType, hlog name symbol hfound]
    exact ⟨(hknown _ _ hlookup).1, .refl _⟩
  | .assign target value span, hexplicit, hpasses => by
    have hvalue := checkExpr_widens hlog houtside hknown value hexplicit (assign_passes hpasses).1
    refine ⟨hvalue.1, ?_⟩
    -- storing widens at most, and the value may have been widened before
    show Widens (checkExpr v value).value (storedType _ _)
    unfold storedType
    split
    · next hfloat =>
      obtain heq | ⟨-, heq⟩ := hvalue.2
      · exact .inr ⟨heq.symm.trans hfloat.2, rfl⟩
      · rw [heq] at hfloat
        cases hfloat.2
    · exact hvalue.2
  | .binary op lhs rhs span, hexplicit, hpasses => by
    simp only [Expr.explicit, Bool.and_eq_true] at hexplicit
    obtain ⟨hlhs, hrhs⟩ := binary_passes hpasses
    have hl := checkExpr_widens hlog houtside hknown lhs hexplicit.1 hlhs
    have hr := checkExpr_widens hlog houtside hknown rhs hexplicit.2 hrhs
    have hresult := binary_result hpasses
    simp only [Expr.runType]
    cases hop : OpForm.of op with
    | logical decisive =>
      obtain ⟨-, -, hbool⟩ := bool_of_result? hl.1 hr.1 hop hresult
      rw [hbool]
      exact ⟨⟨nofun, nofun⟩, .refl _⟩
    | strict strict =>
      have htype := type?_of_result? hl.1 hr.1 hop hresult
      obtain ⟨t, ht, hwidens⟩ := hl.2.type? hr.2 htype
      refine ⟨definite_of_type? htype, ?_⟩
      simpa [ht] using hwidens
  | .unary op operand span, hexplicit, hpasses => by
    have hoperand := checkExpr_widens hlog houtside hknown operand hexplicit (unary_passes hpasses)
    have htype := unaryType?_of_result? hoperand.1 (unary_result hpasses)
    obtain ⟨t, ht, hwidens⟩ := hoperand.2.unaryType? htype
    refine ⟨definite_of_unaryType? htype, ?_⟩
    simpa [Expr.runType, ht] using hwidens

/-- The type that the check finds is that of the value, if no float variable is assigned an int on the way. -/
theorem checkExpr_exact (hlog : TypesFrom log types) (houtside : v.inFunction = false) (hknown : Known v) :
    ∀ e : Expr, e.explicit = true → (checkExpr v e).Passes true log → e.widened types = [] →
      (checkExpr v e).value = e.runType types
  | .literal .., _, _, _ => rfl
  | .ident name, _, hpasses, _ => by
    obtain ⟨symbol, -, hfound, -, hvalue⟩ := ident_found houtside hknown hpasses
    rw [hvalue, Expr.runType, hlog name symbol hfound]
  | .assign target value span, hexplicit, hpasses, hwidened => by
    obtain ⟨hinside, hhere⟩ := List.append_eq_nil_iff.1 hwidened
    have hvalue := checkExpr_exact hlog houtside hknown value hexplicit (assign_passes hpasses).1 hinside
    have hkept : ¬ (types target = .float ∧ value.runType types = .int) := fun h => by
      rw [if_pos h] at hhere
      cases hhere
    rw [Expr.runType, storedType, if_neg hkept]
    exact hvalue
  | .binary op lhs rhs span, hexplicit, hpasses, hwidened => by
    simp only [Expr.explicit, Bool.and_eq_true] at hexplicit
    obtain ⟨hleft, hright⟩ := List.append_eq_nil_iff.1 hwidened
    obtain ⟨hlhs, hrhs⟩ := binary_passes hpasses
    have hl := (checkExpr_widens hlog houtside hknown lhs hexplicit.1 hlhs).1
    have hr := (checkExpr_widens hlog houtside hknown rhs hexplicit.2 hrhs).1
    have hresult := binary_result hpasses
    simp only [Expr.runType]
    cases hop : OpForm.of op with
    | logical decisive => exact (bool_of_result? hl hr hop hresult).2.2
    | strict strict =>
      have htype := type?_of_result? hl hr hop hresult
      rw [checkExpr_exact hlog houtside hknown lhs hexplicit.1 hlhs hleft,
        checkExpr_exact hlog houtside hknown rhs hexplicit.2 hrhs hright] at htype
      simp only [htype, Option.getD_some]
  | .unary op operand span, hexplicit, hpasses, hwidened => by
    have hoperand := (checkExpr_widens hlog houtside hknown operand hexplicit (unary_passes hpasses)).1
    have htype := unaryType?_of_result? hoperand (unary_result hpasses)
    rw [checkExpr_exact hlog houtside hknown operand hexplicit (unary_passes hpasses) hwidened] at htype
    simp only [Expr.runType, htype, Option.getD_some]

end Expressions

end Scriptlet
