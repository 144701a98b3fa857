import Scriptlet.Proofs.GlobalTypes
import Scriptlet.Proofs.Occurrences
import Scriptlet.Proofs.Passes

/-!
# One misspelt name, one error

If a program is checked without an error and one of the names that it uses is replaced by a name that is
declared nowhere, then checking reports just that name (`Program.misspelling_reported`): no error about types,
arguments or calls follows from it.

The misspelt name has the type `unknown`, and from there `unknown` spreads to expressions and variables. So
two checks are compared in which the types of the second are those of the first or `unknown` (`Ty.Blurs`).
Every rule that takes an operand, an argument or a value takes it if its type is not known. `Slips` compares
two checks step by step; it says nothing about a first check that reports an error.
-/

namespace Scriptlet

open Check

/-! ### Replacing names -/

/-- The name with another spelling, if `yes`. -/
def Ident.respell (new : String) (yes : Bool) (name : Ident) : Ident :=
  if yes then { name with name := new } else name

mutual

/-- The expression with the spelling `new` for those of its names whose numbers are in `which`. The names are
numbered from `n` in the order of `Expr.uses`. -/
def Expr.respell (new : String) (which : Nat → Bool) (n : Nat) : Expr → Expr
  | .literal value span => .literal value span
  | .ident name => .ident (name.respell new (which n))
  | .assign target value span =>
    .assign (target.respell new (which n)) (value.respell new which (n + 1)) span
  | .binary op lhs rhs span =>
    .binary op (lhs.respell new which n) (rhs.respell new which (n + lhs.uses.length)) span
  | .unary op operand span => .unary op (operand.respell new which n) span
  | .call callee args span =>
    .call (callee.respell new which n) (Expr.respellAll new which (n + callee.uses.length) args) span

def Expr.respellAll (new : String) (which : Nat → Bool) (n : Nat) : List Expr → List Expr
  | [] => []
  | e :: es => e.respell new which n :: Expr.respellAll new which (n + e.uses.length) es

end

mutual

def Stmt.respell (new : String) (which : Nat → Bool) (n : Nat) : Stmt → Stmt
  | .varDecl name type init span => .varDecl name type (init.map (Expr.respell new which n)) span
  | .expr e span => .expr (e.respell new which n) span
  | .print e span => .print (e.respell new which n) span
  | .block body span => .block (Stmt.respellAll new which n body) span
  | .branch cond thenStmt none span =>
    .branch (cond.respell new which n) (thenStmt.respell new which (n + cond.uses.length)) none span
  | .branch cond thenStmt (some elseStmt) span =>
    .branch (cond.respell new which n) (thenStmt.respell new which (n + cond.uses.length))
      (some (elseStmt.respell new which (n + cond.uses.length + thenStmt.uses.length))) span
  | .loop cond body span =>
    .loop (cond.respell new which n) (body.respell new which (n + cond.uses.length)) span
  | .function name params body braces span =>
    .function name params (Stmt.respellAll new which n body) braces span
  | .returnWith value span => .returnWith (value.map (Expr.respell new which n)) span
  | .breakLoop span => .breakLoop span
  | .continueLoop span => .continueLoop span

def Stmt.respellAll (new : String) (which : Nat → Bool) (n : Nat) : List Stmt → List Stmt
  | [] => []
  | s :: ss => s.respell new which n :: Stmt.respellAll new which (n + s.uses.length) ss

end

/-- The program with the spelling `new` for the name with number `k` in `Stmt.usesAll`. -/
def Program.respell (p : Program) (k : Nat) (new : String) : Program :=
  { p with items := Stmt.respellAll new (· == k) 0 p.items }

mutual

/-- The names that are declared somewhere in a statement. -/
def Stmt.declarations : Stmt → List String
  | .varDecl name _ _ _ => [name.name]
  | .block body _ => Stmt.declarationsAll body
  | .branch _ thenStmt none _ => thenStmt.declarations
  | .branch _ thenStmt (some elseStmt) _ => thenStmt.declarations ++ elseStmt.declarations
  | .loop _ body _ => body.declarations
  | .function name params body _ _ =>
    name.name :: (params.map (·.name.name) ++ Stmt.declarationsAll body)
  | .expr .. | .print .. | .returnWith .. | .breakLoop _ | .continueLoop _ => []

def Stmt.declarationsAll : List Stmt → List String
  | [] => []
  | s :: ss => s.declarations ++ Stmt.declarationsAll ss

end

theorem Ident.span_respell (new : String) (yes : Bool) (name : Ident) :
    (name.respell new yes).span = name.span := by
  unfold respell
  split <;> rfl

theorem Expr.span_respell (new : String) (which : Nat → Bool) (n : Nat) (e : Expr) :
    (e.respell new which n).span = e.span := by
  cases e with
  | ident name => exact name.span_respell new _
  | _ => rfl

theorem Expr.respell_ne_ident {new : String} {which : Nat → Bool} {n : Nat} {e : Expr}
    (h : ∀ name, e ≠ .ident name) (name : Ident) : e.respell new which n ≠ .ident name := by
  cases e with
  | ident other => exact absurd rfl (h other)
  | _ => nofun

namespace Stmt

variable (new : String) (which : Nat → Bool)

theorem declared?_respell (n : Nat) (s : Stmt) : (s.respell new which n).declared? = s.declared? := by
  cases s with
  | branch cond thenStmt elseStmt span => cases elseStmt <;> rfl
  | _ => rfl

theorem diverges_respell (n : Nat) (s : Stmt) : (s.respell new which n).diverges = s.diverges := by
  cases s with
  | branch cond thenStmt elseStmt span => cases elseStmt <;> rfl
  | _ => rfl

theorem needsScope_respell (n : Nat) (s : Stmt) : needsScope (s.respell new which n) = needsScope s := by
  cases s with
  | branch cond thenStmt elseStmt span => cases elseStmt <;> rfl
  | _ => rfl

theorem announce_respellAll (scope n : Nat) (body : List Stmt) (tree : ScopeTree) :
    announce scope (respellAll new which n body) tree = announce scope body tree := by
  induction body generalizing n tree with
  | nil => rfl
  | cons s body ih => rw [respellAll, announce_cons, announce_cons, declared?_respell, ih]

theorem mem_declarations {s : Stmt} {name : Ident} (h : s.declared? = some name) :
    name.name ∈ s.declarations := by
  cases s <;> cases h <;> exact List.mem_cons_self

theorem mem_declarationsAll {name : String} {body : List Stmt} :
    name ∈ declarationsAll body ↔ ∃ s ∈ body, name ∈ s.declarations := by
  induction body with
  | nil => simp [declarationsAll]
  | cons s body ih => simp [declarationsAll, ih]

end Stmt

/-! ### Types that are less well known -/

namespace Ty

/-- The second type is the first, or it is not known. -/
def Blurs (t t' : Ty) : Prop := t' = t ∨ t' = .unknown

variable {l r l' r' t t' : Ty}

theorem Blurs.refl (t : Ty) : t.Blurs t := .inl rfl

theorem Blurs.inferred (h : t.Blurs t') : t.inferred.Blurs t'.inferred := by
  rcases h with rfl | rfl
  · exact .refl _
  · exact .inr rfl

theorem Blurs.isBoolOrUnknown (h : t.Blurs t') (hbool : t.isBoolOrUnknown = true) :
    t'.isBoolOrUnknown = true := by
  rcases h with rfl | rfl
  · exact hbool
  · rfl

theorem Blurs.isNumericOrUnknown (h : t.Blurs t') (hnumeric : t.isNumericOrUnknown = true) :
    t'.isNumericOrUnknown = true := by
  rcases h with rfl | rfl
  · exact hnumeric
  · rfl

theorem Blurs.isTextOrUnknown (h : t.Blurs t') (htext : t.isTextOrUnknown = true) :
    t'.isTextOrUnknown = true := by
  rcases h with rfl | rfl
  · exact htext
  · rfl

/-- A slot takes a value of which less is known, and so does a slot of which less is known. -/
theorem Blurs.accepts (hl : l.Blurs l') (hr : r.Blurs r') (h : l.accepts r = true) :
    l'.accepts r' = true := by
  rcases hl with rfl | rfl
  · rcases hr with rfl | rfl
    · exact h
    · simp [Ty.accepts]
  · simp [Ty.accepts]

theorem numericOrUnknown_of_arithmetic? (h : arithmetic? l r = some t) :
    l.isNumericOrUnknown = true ∧ r.isNumericOrUnknown = true := by
  cases l <;> cases r <;> simp_all [arithmetic?, isNumeric, isNumericOrUnknown]

/-- Arithmetic with an operand of unknown type. -/
theorem arithmetic?_unknown (h : l = .unknown ∨ r = .unknown) (hl : l.isNumericOrUnknown = true)
    (hr : r.isNumericOrUnknown = true) : arithmetic? l r = some .unknown := by
  cases l <;> cases r <;> simp_all [arithmetic?, isNumeric, isNumericOrUnknown]

theorem Blurs.arithmetic? (hl : l.Blurs l') (hr : r.Blurs r') (h : arithmetic? l r = some t) :
    ∃ t', arithmetic? l' r' = some t' ∧ t.Blurs t' := by
  obtain ⟨hnl, hnr⟩ := numericOrUnknown_of_arithmetic? h
  by_cases hunknown : l' = .unknown ∨ r' = .unknown
  · exact ⟨_, arithmetic?_unknown hunknown (hl.isNumericOrUnknown hnl) (hr.isNumericOrUnknown hnr), .inr rfl⟩
  · rw [not_or] at hunknown
    rw [hl.resolve_right hunknown.1, hr.resolve_right hunknown.2]
    exact ⟨t, h, .refl t⟩

theorem operands_of_sum? (h : sum? l r = some t) : l.isTextOrUnknown = true ∧ r.isTextOrUnknown = true ∨
    l.isNumericOrUnknown = true ∧ r.isNumericOrUnknown = true := by
  cases l <;> cases r <;>
    simp_all [sum?, arithmetic?, isNumeric, isNumericOrUnknown, isTextOrUnknown]

/-- A sum with an operand of unknown type. -/
theorem sum?_unknown (h : l = .unknown ∨ r = .unknown)
    (hoperands : l.isTextOrUnknown = true ∧ r.isTextOrUnknown = true ∨
      l.isNumericOrUnknown = true ∧ r.isNumericOrUnknown = true) : sum? l r = some .unknown := by
  cases l <;> cases r <;>
    simp_all [sum?, arithmetic?, isNumeric, isNumericOrUnknown, isTextOrUnknown]

theorem Blurs.sum? (hl : l.Blurs l') (hr : r.Blurs r') (h : sum? l r = some t) :
    ∃ t', sum? l' r' = some t' ∧ t.Blurs t' := by
  by_cases hunknown : l' = .unknown ∨ r' = .unknown
  · refine ⟨_, sum?_unknown hunknown ((operands_of_sum? h).imp ?_ ?_), .inr rfl⟩
    · exact fun htext => ⟨hl.isTextOrUnknown htext.1, hr.isTextOrUnknown htext.2⟩
    · exact fun hnumeric => ⟨hl.isNumericOrUnknown hnumeric.1, hr.isNumericOrUnknown hnumeric.2⟩
  · rw [not_or] at hunknown
    rw [hl.resolve_right hunknown.1, hr.resolve_right hunknown.2]
    exact ⟨t, h, .refl t⟩

/-- An operator takes operands of which less is known. -/
theorem Blurs.binary {op : BinaryOp} (hl : l.Blurs l') (hr : r.Blurs r') (h : op.result? l r = some t) :
    ∃ t', op.result? l' r' = some t' ∧ t.Blurs t' := by
  -- an operator that gives a bool whatever it takes
  have hbool {c c' : Prop} [Decidable c] [Decidable c'] (hc : c → c')
      (h : (if c then some Ty.bool else none) = some t) :
      ∃ t', (if c' then some Ty.bool else none) = some t' ∧ t.Blurs t' := by
    split at h
    · next hyes =>
      cases h
      exact ⟨.bool, if_pos (hc hyes), .refl _⟩
    · cases h
  cases op with
  | add => exact hl.sum? hr h
  | sub | mul | div | rem => exact hl.arithmetic? hr h
  | lt | le | gt | ge =>
    refine hbool (fun hc => hc.imp ?_ ?_) h
    · exact fun hc => ⟨hl.isNumericOrUnknown hc.1, hr.isNumericOrUnknown hc.2⟩
    · exact fun hc => ⟨hl.isTextOrUnknown hc.1, hr.isTextOrUnknown hc.2⟩
  | eq | ne =>
    refine hbool (fun hc => ?_) h
    rcases hl with rfl | rfl
    · rcases hr with rfl | rfl
      · exact hc
      · exact .inr (.inr (.inl rfl))
    · exact .inr (.inl rfl)
  | and | or => exact hbool (fun hc => ⟨hl.isBoolOrUnknown hc.1, hr.isBoolOrUnknown hc.2⟩) h

theorem Blurs.unary {op : UnaryOp} (h : t.Blurs t') {result : Ty} (hresult : op.result? t = some result) :
    ∃ result', op.result? t' = some result' ∧ result.Blurs result' := by
  rcases h with rfl | rfl
  · exact ⟨result, hresult, .refl _⟩
  · cases op with
    | neg => exact ⟨.unknown, rfl, .inr rfl⟩
    | not =>
      refine ⟨.bool, rfl, ?_⟩
      simp only [UnaryOp.result?] at hresult
      split at hresult
      · cases hresult
        exact .refl _
      · cases hresult

end Ty

/-- The same symbol, with a type that is less well known. -/
structure Symbol.Blurs (symbol symbol' : Symbol) : Prop where
  same : symbol' = { symbol with type := symbol'.type }
  type : symbol.type.Blurs symbol'.type

/-! ### Two checks, of which the second knows less -/

namespace Checked

variable {α β : Type} {faults more : List Diagnostic} {P : α → α → Prop} {Q : β → β → Prop}
  {x x' : Checked α}

/-- If the first check reports no error, the result of the second is related by `P` to that of the first, and
its errors are the given ones. -/
def Slips (faults : List Diagnostic) (P : α → α → Prop) (x x' : Checked α) : Prop :=
  x.errors = [] → P x.value x'.value ∧ x'.errors.Perm faults

/-- A warning does not matter. -/
theorem value_warned (c : Prop) [Decidable c] (f : Fault) (span : Span) (a : α) :
    (if c then report f span >>= fun _ => pure a else pure a : Checked α).value = a := by
  split <;> rfl

theorem errors_warned (c : Prop) [Decidable c] {f : Fault} (hcode : f.code.isWarning = true) (span : Span)
    (a : α) : (if c then report f span >>= fun _ => pure a else pure a : Checked α).errors = [] := by
  split
  · rw [errors_bind, errors_report, if_pos hcode]
    rfl
  · rfl

namespace Slips

theorem pure {a a' : α} (h : P a a') : Slips [] P (pure a) (pure a') := fun _ => ⟨h, .nil⟩

theorem perm (h : Slips faults P x x') (hperm : faults.Perm more) : Slips more P x x' :=
  fun hclean => ⟨(h hclean).1, (h hclean).2.trans hperm⟩

theorem bind {f f' : α → Checked β} (hx : Slips faults P x x')
    (hf : ∀ a a', P a a' → Slips more Q (f a) (f' a')) : Slips (faults ++ more) Q (x >>= f) (x' >>= f') := by
  intro hclean
  rw [errors_bind, List.append_eq_nil_iff] at hclean
  obtain ⟨hvalue, hfaults⟩ := hx hclean.1
  obtain ⟨hvalue', hmore⟩ := hf _ _ hvalue hclean.2
  exact ⟨hvalue', by rw [errors_bind]; exact hfaults.append hmore⟩

/-- The errors of the second step, listed before those of the first. -/
theorem bind_swap {f f' : α → Checked β} (hx : Slips faults P x x')
    (hf : ∀ a a', P a a' → Slips more Q (f a) (f' a')) : Slips (more ++ faults) Q (x >>= f) (x' >>= f') :=
  (hx.bind hf).perm List.perm_append_comm

/-- A second step with no errors of its own. -/
theorem bind_quiet {f f' : α → Checked β} (hx : Slips faults P x x')
    (hf : ∀ a a', P a a' → Slips [] Q (f a) (f' a')) : Slips faults Q (x >>= f) (x' >>= f') :=
  (hx.bind hf).perm (.of_eq (List.append_nil faults))

/-- A first step with no errors of its own. -/
theorem quiet_bind {f f' : α → Checked β} (hx : Slips [] P x x')
    (hf : ∀ a a', P a a' → Slips more Q (f a) (f' a')) : Slips more Q (x >>= f) (x' >>= f') := hx.bind hf

/-- Nothing is said of a first check that reports an error. -/
theorem fault {f : Fault} {span : Span} {g : Unit → Checked α} (hcode : f.code.isWarning = false) :
    Slips faults P (report f span >>= g) x' := by
  intro hclean
  simp [errors_report, hcode] at hclean

theorem fault_last {f : Fault} {span : Span} {P : Unit → Unit → Prop} {x' : Checked Unit}
    (hcode : f.code.isWarning = false) : Slips faults P (report f span) x' := by
  intro hclean
  simp [errors_report, hcode] at hclean

/-- Two checks with no errors. -/
theorem quiet (hP : P x.value x'.value) (hquiet : x'.errors = []) : Slips [] P x x' :=
  fun _ => ⟨hP, .of_eq hquiet⟩

end Slips

end Checked

namespace Check

open Checked (Slips)

/-- The second check has the symbols of the first, with types that are less well known, and no scope that
knows the name `new`. -/
structure Blurred (new : String) (tree tree' : ScopeTree) : Prop where
  alike : tree.Alike (fun _ => Symbol.Blurs) tree'
  lacks : tree'.Lacks new

/-- A symbol that has been found, and which the second check has found too or has missed. -/
def Found (symbol symbol' : Option Symbol) : Prop :=
  ∃ s, symbol = some s ∧ ∀ s', symbol' = some s' → s.Blurs s'

/-- The errors for the names whose numbers are in `which`, if they are spelt `new`. -/
def misses (new : String) (which : Nat → Bool) : Nat → List Ident → List Diagnostic
  | _, [] => []
  | n, name :: names =>
    (if which n then [(Fault.undeclared new).diagnostic name.span] else []) ++ misses new which (n + 1) names

theorem misses_append (new : String) (which : Nat → Bool) (n : Nat) (xs ys : List Ident) :
    misses new which n (xs ++ ys) = misses new which n xs ++ misses new which (n + xs.length) ys := by
  induction xs generalizing n with
  | nil => rfl
  | cons x xs ih =>
    have hlength : n + 1 + xs.length = n + (x :: xs).length := by rw [List.length_cons]; omega
    simp only [List.cons_append, misses, ih, List.append_assoc, hlength]

theorem misses_cons (new : String) (which : Nat → Bool) (n : Nat) (name : Ident) (names : List Ident) :
    misses new which n (name :: names) = misses new which n [name] ++ misses new which (n + 1) names :=
  misses_append new which n [name] names

variable {new : String} {which : Nat → Bool} {tree tree' : ScopeTree} {scope : Nat} {inFunction : Bool}

theorem symbol_slips (h : Blurred new tree tree') (name : Ident) (n : Nat) :
    Slips (misses new which n [name]) Found (View.symbol ⟨tree, scope, inFunction⟩ name)
      (View.symbol ⟨tree', scope, inFunction⟩ (name.respell new (which n))) := by
  intro hclean
  simp only [View.symbol, Checked.errors_bind, Checked.errors_record, List.nil_append,
    Checked.value_bind] at hclean ⊢
  have hlookup := h.alike.lookup scope name.name
  generalize tree.lookup scope name.name = found at hclean hlookup ⊢
  cases found with
  | found symbol =>
    cases hwhich : which n with
    | false =>
      simp only [misses, hwhich, Ident.respell, Bool.false_eq_true, if_false]
      generalize tree'.lookup scope name.name = found' at hlookup ⊢
      cases hlookup with
      | found hblurs => exact ⟨⟨symbol, rfl, fun _ h => Option.some.inj h ▸ hblurs⟩, .nil⟩
    | true =>
      simp only [misses, hwhich, Ident.respell, if_true, h.lacks.lookup]
      exact ⟨⟨symbol, rfl, by rintro _ ⟨⟩⟩, by simp [Checked.errors_report, Fault.code, Code.isWarning]⟩
  | notYetDeclared | missing => simp [Checked.errors_report, Fault.code, Code.isWarning] at hclean

theorem readSymbol_slips (h : Blurred new tree tree') (name : Ident) (n : Nat) :
    Slips (misses new which n [name]) Found (View.readSymbol ⟨tree, scope, inFunction⟩ name)
      (View.readSymbol ⟨tree', scope, inFunction⟩ (name.respell new (which n))) := by
  refine (symbol_slips h name n).bind_quiet fun symbol symbol' hfound => ?_
  obtain ⟨s, rfl, hblurs⟩ := hfound
  cases symbol' with
  | none => exact .quiet ⟨s, Checked.value_warned .., hblurs⟩ rfl
  | some s' =>
    refine .quiet ⟨s, Checked.value_warned .., fun s'' hs'' => hblurs s'' ?_⟩ (Checked.errors_warned _ rfl ..)
    exact (Checked.value_warned ..).symm.trans hs''

theorem readType_blurs {symbol symbol' : Option Symbol} (h : Found symbol symbol') :
    (readType symbol).Blurs (readType symbol') := by
  obtain ⟨s, rfl, hblurs⟩ := h
  cases symbol' with
  | none => exact .inr rfl
  | some s' =>
    obtain ⟨hsame, htype⟩ := hblurs s' rfl
    have hinit : s'.initialized = s.initialized := by rw [hsame]
    simp only [readType, hinit]
    split
    · exact htype
    · exact .refl _

theorem checkAssign_slips {symbol symbol' : Option Symbol} {found found' : Ty} (target target' : Ident)
    (span : Span) (h : Found symbol symbol') (hfound : found.Blurs found') :
    Slips [] (fun _ _ => True) (checkAssign target symbol found span)
      (checkAssign target' symbol' found' span) := by
  obtain ⟨s, rfl, hblurs⟩ := h
  cases symbol' with
  | none => exact .quiet trivial rfl
  | some s' =>
    obtain ⟨hsame, htype⟩ := hblurs s' rfl
    have hkind : s'.kind = s.kind := by rw [hsame]
    simp only [checkAssign, hkind]
    split
    · exact .fault_last rfl
    · split
      · next haccepts => rw [if_pos (htype.accepts hfound haccepts)]; exact .pure trivial
      · exact .fault_last rfl

theorem checkCallable_slips {type type' : Ty} (name name' : String) (span : Span) (h : type.Blurs type') :
    Slips [] (fun _ _ => True) (checkCallable name type span) (checkCallable name' type' span) := by
  unfold checkCallable
  split
  · next hcallable =>
    have hcallable' : type' = .function ∨ type' = .unknown := by
      rcases h with rfl | rfl
      · exact hcallable
      · exact .inr rfl
    rw [if_pos hcallable']
    exact .pure trivial
  · exact .fault_last rfl

/-- The arguments of a call, of whose types less is known. -/
abbrev ArgsBlur : List (Ty × Span) → List (Ty × Span) → Prop :=
  List.Forall₂ fun arg arg' => arg.1.Blurs arg'.1

theorem checkArgTypes_slips (name name' : String) (index : Nat) (params : List Ty) {args args' : List (Ty × Span)}
    (h : ArgsBlur args args') : Slips [] (fun _ _ => True) (checkArgTypes name index params args)
      (checkArgTypes name' index params args') := by
  induction params generalizing index args args' with
  | nil => exact .pure trivial
  | cons expected params ih =>
    cases h with
    | nil => exact .pure trivial
    | @cons arg arg' args args' harg hargs =>
      simp only [checkArgTypes]
      cases haccepts : expected.accepts arg.1 with
      | true =>
        rw [(Ty.Blurs.refl expected).accepts harg haccepts]
        exact ih (index + 1) hargs
      | false => exact .fault rfl

theorem checkKnownCall_slips (name name' : String) (params : List Ty) {args args' : List (Ty × Span)}
    (span : Span) (h : ArgsBlur args args') : Slips [] (fun _ _ => True)
      (checkKnownCall name params args span) (checkKnownCall name' params args' span) := by
  unfold checkKnownCall
  rw [← h.length_eq]
  split
  · exact checkArgTypes_slips name name' 1 params h
  · exact .fault_last rfl

theorem checkNamedCall_slips {symbol symbol' : Option Symbol} {args args' : List (Ty × Span)}
    (name name' : Ident) (span : Span) (hspan : name'.span = name.span) (h : Found symbol symbol')
    (hargs : ArgsBlur args args') :
    Slips [] Ty.Blurs (checkNamedCall name symbol args span) (checkNamedCall name' symbol' args' span) := by
  obtain ⟨s, rfl, hblurs⟩ := h
  cases symbol' with
  | none => exact .quiet (.inr rfl) rfl
  | some s' =>
    obtain ⟨hsame, htype⟩ := hblurs s' rfl
    have hkind : s'.kind = s.kind := by rw [hsame]
    have hinit : s'.initialized = s.initialized := by rw [hsame]
    simp only [checkNamedCall, hkind, hinit, hspan]
    have hcallable := (checkCallable_slips name.name name'.name name.span htype).quiet_bind
      fun _ _ _ => Slips.pure (Ty.Blurs.refl .unknown)
    cases s.kind with
    | function params =>
      exact (checkKnownCall_slips _ _ params span hargs).quiet_bind fun _ _ _ => .pure (.refl _)
    | var | param =>
      cases s.initialized with
      | true => exact hcallable
      | false => exact .pure (.refl _)

mutual

/-- Where a name is misspelt, it is reported, and nothing else is. -/
theorem checkExpr_slips (h : Blurred new tree tree') : ∀ (e : Expr) (n : Nat),
    Slips (misses new which n e.uses) Ty.Blurs (checkExpr ⟨tree, scope, inFunction⟩ e)
      (checkExpr ⟨tree', scope, inFunction⟩ (e.respell new which n))
  | .literal .., n => .pure (.refl _)
  | .ident name, n => by
    simp only [checkExpr, Expr.respell, Expr.uses]
    exact (readSymbol_slips h name n).bind_quiet fun _ _ hfound => .pure (readType_blurs hfound)
  | .assign target value span, n => by
    have hvalue := checkExpr_slips h value (n + 1)
    simp only [checkExpr, Expr.respell, Expr.uses, Expr.span_respell]
    rw [misses_cons]
    refine hvalue.bind_swap fun found found' hfound => ?_
    refine (symbol_slips h target n).bind_quiet fun symbol symbol' hsymbol => ?_
    exact (checkAssign_slips _ _ _ hsymbol hfound).quiet_bind fun _ _ _ => .pure hfound
  | .binary op lhs rhs span, n => by
    have hlhs := checkExpr_slips h lhs n
    have hrhs := checkExpr_slips h rhs (n + lhs.uses.length)
    simp only [checkExpr, Expr.respell, Expr.uses, misses_append]
    refine hlhs.bind fun l l' hl => hrhs.bind_quiet fun r r' hr => ?_
    cases hresult : op.result? l r with
    | none => exact .fault rfl
    | some type =>
      obtain ⟨type', hresult', htype⟩ := hl.binary hr hresult
      rw [hresult']
      exact .pure htype
  | .unary op operand span, n => by
    have hoperand := checkExpr_slips h operand n
    simp only [checkExpr, Expr.respell, Expr.uses]
    refine hoperand.bind_quiet fun t t' ht => ?_
    cases hresult : op.result? t with
    | none => exact .fault rfl
    | some type =>
      obtain ⟨type', hresult', htype⟩ := ht.unary hresult
      rw [hresult']
      exact .pure htype
  | .call callee args span, n => by
    have hcallee := checkExpr_slips h callee n
    have hargs := checkArgs_slips h args (n + callee.uses.length)
    rw [Expr.respell, Expr.uses, misses_append]
    by_cases hident : ∃ name, callee = .ident name
    · obtain ⟨name, rfl⟩ := hident
      rw [Expr.respell, checkExpr_call_ident, checkExpr_call_ident]
      refine hargs.bind_swap fun found found' hfound => ?_
      refine (readSymbol_slips h name n).bind_quiet fun symbol symbol' hsymbol => ?_
      exact checkNamedCall_slips name _ span (Ident.span_respell ..) hsymbol hfound
    · have hne : ∀ name, callee ≠ .ident name := fun name heq => hident ⟨name, heq⟩
      rw [checkExpr_call_of_ne_ident hne, checkExpr_call_of_ne_ident (Expr.respell_ne_ident hne),
        Expr.span_respell]
      refine hargs.bind_swap fun _ _ _ => ?_
      refine hcallee.bind_quiet fun t t' ht => ?_
      exact (checkCallable_slips _ _ _ ht).quiet_bind fun _ _ _ => .pure (.refl _)

theorem checkArgs_slips (h : Blurred new tree tree') : ∀ (es : List Expr) (n : Nat),
    Slips (misses new which n (Expr.usesAll es)) ArgsBlur (checkArgs ⟨tree, scope, inFunction⟩ es)
      (checkArgs ⟨tree', scope, inFunction⟩ (Expr.respellAll new which n es))
  | [], n => .pure .nil
  | e :: es, n => by
    have he := checkExpr_slips h e n
    have hes := checkArgs_slips h es (n + e.uses.length)
    simp only [checkArgs, Expr.respellAll, Expr.usesAll, misses_append]
    exact he.bind fun _ _ htype => hes.bind_quiet fun _ _ htypes => .pure (.cons htype htypes)

end

theorem checkOption_slips (h : Blurred new tree tree') (e : Option Expr) (n : Nat) :
    Slips (misses new which n (Expr.usesOption e)) (Option.Rel Ty.Blurs)
      (checkOption ⟨tree, scope, inFunction⟩ e)
      (checkOption ⟨tree', scope, inFunction⟩ (e.map (Expr.respell new which n))) := by
  cases e with
  | none => exact .pure .none
  | some e => exact (checkExpr_slips h e n).bind_quiet fun _ _ htype => .pure (.some htype)

theorem checkInit_slips (h : Blurred new tree tree') (name : Ident) (type : Option TypeName) (init : Option Expr)
    (n : Nat) : Slips (misses new which n (Expr.usesOption init)) Ty.Blurs
      (checkInit ⟨tree, scope, inFunction⟩ name type init)
      (checkInit ⟨tree', scope, inFunction⟩ name type (init.map (Expr.respell new which n))) := by
  refine (checkOption_slips h init n).bind_quiet fun found found' hfound => ?_
  cases hfound with
  | none => cases type <;> exact .pure (.refl _)
  | @some type₁ type₂ htype =>
    cases type with
    | none => exact .pure htype.inferred
    | some expected =>
      cases init with
      | none => exact .pure (.refl _)
      | some init =>
        simp only [Option.map_some]
        cases haccepts : (Ty.ofTypeName expected).accepts type₁ with
        | true =>
          rw [(Ty.Blurs.refl _).accepts htype haccepts]
          exact .pure (.refl _)
        | false => exact .fault rfl

theorem checkCondition_slips (h : Blurred new tree tree') (word : String) (cond : Expr) (n : Nat) :
    Slips (misses new which n cond.uses) (fun _ _ => True)
      (checkCondition ⟨tree, scope, inFunction⟩ word cond)
      (checkCondition ⟨tree', scope, inFunction⟩ word (cond.respell new which n)) := by
  refine (checkExpr_slips h cond n).bind_quiet fun type type' htype => ?_
  cases hbool : type.isBoolOrUnknown with
  | true =>
    rw [htype.isBoolOrUnknown hbool]
    exact .pure trivial
  | false => exact .fault_last rfl

theorem declare_slips {symbol symbol' : Symbol} (h : Blurred new tree tree') (hblurs : symbol.Blurs symbol')
    (hfresh : new ≠ symbol.name) :
    Slips [] (Blurred new) (declare tree scope symbol) (declare tree' scope symbol') := by
  have hname : symbol'.name = symbol.name := by rw [hblurs.same]
  unfold declare
  rcases h.alike.declare scope hname.symm with ⟨existing, existing', htaken, -⟩ | ⟨hfree, hfree'⟩
  · rw [htaken]
    exact .fault rfl
  · rw [hfree, hfree']
    exact .pure ⟨h.alike.addSymbol scope hname.symm hblurs, h.lacks.addSymbol (by rwa [hname])⟩

theorem declareVariable_slips {name : Ident} {type type' : Ty} (h : Blurred new tree tree')
    (htype : type.Blurs type') (hfresh : new ≠ name.name) :
    Slips [] (Blurred new) (declareVariable tree scope name type) (declareVariable tree' scope name type') := by
  unfold declareVariable
  split
  · refine .pure ⟨h.alike.updateLocal 0 fun symbol symbol' _ hblurs => ?_, h.lacks.updateLocal⟩
    rw [hblurs.same]
    dsimp only
    split
    · exact ⟨rfl, htype⟩
    · exact ⟨rfl, hblurs.type⟩
  · rw [h.alike.depth]
    exact declare_slips h ⟨rfl, htype⟩ hfresh

theorem declareParams_slips {params : List Param} (h : Blurred new tree tree')
    (hfresh : new ∉ params.map (·.name.name)) :
    Slips [] (Blurred new) (declareParams scope params tree) (declareParams scope params tree') := by
  induction params generalizing tree tree' with
  | nil => exact .pure h
  | cons param params ih =>
    rw [List.map_cons, List.mem_cons, not_or] at hfresh
    simp only [declareParams, h.alike.depth]
    exact (declare_slips h ⟨rfl, .refl _⟩ hfresh.1).quiet_bind fun _ _ hnext => ih hnext hfresh.2

theorem checkReachable_slips (diverged : Bool) (stmts stmts' : List Stmt) :
    Slips [] (fun _ _ => True) (checkReachable diverged stmts) (checkReachable diverged stmts') := by
  refine .quiet trivial ?_
  cases stmts' with
  | nil => rfl
  | cons stmt stmts =>
    cases diverged with
    | false => rfl
    | true => exact Checked.errors_report ..

theorem Blurred.push (h : Blurred new tree tree') {parent : Nat} :
    Blurred new (tree.push parent) (tree'.push parent) := ⟨h.alike.push parent, h.lacks.push⟩

theorem lacks_announce {body : List Stmt} (h : tree.Lacks new)
    (hfresh : ∀ s ∈ body, ∀ name, s.declared? = some name → new ≠ name.name) :
    (announce scope body tree).Lacks new := by
  induction body generalizing tree with
  | nil => exact h
  | cons s body ih =>
    rw [announce_cons]
    refine ih ?_ fun s hs => hfresh s (List.mem_cons_of_mem _ hs)
    cases hname : s.declared? with
    | none => exact h
    | some name => exact h.announce (hfresh s List.mem_cons_self name hname)

theorem Blurred.announce (h : Blurred new tree tree') {body : List Stmt} (n : Nat)
    (hfresh : new ∉ Stmt.declarationsAll body) :
    Blurred new (announce scope body tree) (announce scope (Stmt.respellAll new which n body) tree') := by
  rw [Stmt.announce_respellAll]
  refine ⟨announce_alike h.alike (List.forall₂_same.2 fun _ _ => rfl), lacks_announce h.lacks ?_⟩
  rintro s hs name hname rfl
  exact hfresh (Stmt.mem_declarationsAll.2 ⟨s, hs, Stmt.mem_declarations hname⟩)

theorem Blurred.branch (h : Blurred new tree tree') (c : Context) (which : Nat → Bool) (n : Nat) (s : Stmt) :
    branchContext c tree' (s.respell new which n) = branchContext c tree s ∧
      Blurred new (branchTree c tree s) (branchTree c tree' (s.respell new which n)) := by
  unfold branchContext branchTree
  rw [Stmt.needsScope_respell, h.alike.size]
  split
  · exact ⟨rfl, h.alike.push _, h.lacks.push⟩
  · exact ⟨rfl, h⟩

mutual

theorem checkStmt_slips : ∀ (s : Stmt) (n : Nat) {c : Context} {tree tree' : ScopeTree},
    Blurred new tree tree' → new ∉ s.declarations →
    Slips (misses new which n s.uses) (Blurred new) (checkStmt c tree s)
      (checkStmt c tree' (s.respell new which n))
  | .varDecl name type init _, n, c, tree, tree', h, hfresh => by
    have hne : new ≠ name.name := by simpa [Stmt.declarations] using hfresh
    exact (checkInit_slips h name type init n).bind_quiet fun _ _ htype => declareVariable_slips h htype hne
  | .expr e _, n, c, tree, tree', h, hfresh | .print e _, n, c, tree, tree', h, hfresh =>
    (checkExpr_slips h e n).bind_quiet fun _ _ _ => .pure h
  | .block body _, n, c, tree, tree', h, hfresh => by
    simp only [checkStmt, Stmt.respell, Stmt.uses, ← h.alike.size]
    exact (checkStmts_slips body n (h.push.announce n hfresh) hfresh).bind_quiet fun _ _ _ => .pure h
  | .branch cond thenStmt none _, n, c, tree, tree', h, hfresh => by
    obtain ⟨hcontext, hthen⟩ := h.branch c which (n + cond.uses.length) thenStmt
    simp only [checkStmt, Stmt.respell, Stmt.uses, misses_append, hcontext]
    refine (checkCondition_slips h "if" cond n).bind fun _ _ _ => ?_
    exact (checkStmt_slips thenStmt _ hthen hfresh).bind_quiet fun _ _ _ => .pure h
  | .branch cond thenStmt (some elseStmt) _, n, c, tree, tree', h, hfresh => by
    rw [Stmt.declarations, List.mem_append, not_or] at hfresh
    obtain ⟨hcontext, hthen⟩ := h.branch c which (n + cond.uses.length) thenStmt
    obtain ⟨hcontext', helse⟩ := h.branch c which (n + cond.uses.length + thenStmt.uses.length) elseStmt
    simp only [checkStmt, Stmt.respell, Stmt.uses, misses_append, hcontext, hcontext']
    refine (checkCondition_slips h "if" cond n).bind fun _ _ _ => ?_
    refine (checkStmt_slips thenStmt _ hthen hfresh.1).bind fun _ _ _ => ?_
    exact (checkStmt_slips elseStmt _ helse hfresh.2).bind_quiet fun _ _ _ => .pure h
  | .loop cond body _, n, c, tree, tree', h, hfresh => by
    obtain ⟨hcontext, hbody⟩ := h.branch { c with inLoop := true } which (n + cond.uses.length) body
    simp only [checkStmt, Stmt.respell, Stmt.uses, misses_append, hcontext]
    refine (checkCondition_slips h "while" cond n).bind fun _ _ _ => ?_
    exact (checkStmt_slips body _ hbody hfresh).bind_quiet fun _ _ _ => .pure h
  | .function name params body _ _, n, c, tree, tree', h, hfresh => by
    simp only [Stmt.declarations, List.mem_cons, List.mem_append, not_or] at hfresh
    obtain ⟨hname, hparams, hbody⟩ := hfresh
    -- the body, once the name of the function is declared
    have hrest (tree tree' : ScopeTree) (h : Blurred new tree tree') :
        Slips (misses new which n (Stmt.usesAll body)) (Blurred new)
          (do
            let opened ← declareParams tree.size params (tree.push c.scope)
            let _ ← checkStmts ⟨tree.size, true, false⟩ (announce tree.size body opened) false body
            return tree)
          (do
            let body' := Stmt.respellAll new which n body
            let opened ← declareParams tree'.size params (tree'.push c.scope)
            let _ ← checkStmts ⟨tree'.size, true, false⟩ (announce tree'.size body' opened) false body'
            return tree') := by
      rw [← h.alike.size]
      refine (declareParams_slips h.push hparams).quiet_bind fun _ _ hopened => ?_
      exact (checkStmts_slips body n (hopened.announce n hbody) hbody).bind_quiet fun _ _ _ => .pure h
    simp only [checkStmt, Stmt.respell, Stmt.uses]
    split
    · exact hrest tree tree' h
    · rw [h.alike.depth]
      exact (declare_slips h ⟨rfl, .refl _⟩ hname).quiet_bind hrest
  | .returnWith value _, n, c, tree, tree', h, hfresh => by
    simp only [checkStmt, Stmt.respell, Stmt.uses]
    cases c.inFunction with
    | true => exact (checkOption_slips h value n).bind_quiet fun _ _ _ => .pure h
    | false => exact .fault rfl
  | .breakLoop _, n, c, tree, tree', h, hfresh | .continueLoop _, n, c, tree, tree', h, hfresh => by
    simp only [checkStmt, Stmt.respell, Stmt.uses]
    cases c.inLoop with
    | true => exact .pure h
    | false => exact .fault rfl

theorem checkStmts_slips : ∀ (body : List Stmt) (n : Nat) {c : Context} {tree tree' : ScopeTree} {warned : Bool},
    Blurred new tree tree' → new ∉ Stmt.declarationsAll body →
    Slips (misses new which n (Stmt.usesAll body)) (Blurred new) (checkStmts c tree warned body)
      (checkStmts c tree' warned (Stmt.respellAll new which n body))
  | [], n, c, tree, tree', warned, h, hfresh => .pure h
  | s :: body, n, c, tree, tree', warned, h, hfresh => by
    rw [Stmt.declarationsAll, List.mem_append, not_or] at hfresh
    simp only [checkStmts, Stmt.respellAll, Stmt.usesAll, misses_append, Stmt.diverges_respell]
    refine (checkStmt_slips s n h hfresh.1).bind fun tree tree' hnext => ?_
    refine (checkReachable_slips _ _ _).quiet_bind fun _ _ _ => ?_
    exact checkStmts_slips body _ hnext hfresh.2

end

/-! ### The types that are inferred ahead -/

/-- The type of an expression that passes, from less that is known of the names. -/
theorem exprType_blurs {v : View} {read : String → Ty} {strict : Bool} {log : List (Ident × Lookup)}
    (hread : ∀ y, (readAt v y).Blurs (read y)) (hnew : read new = .unknown) : ∀ (e : Expr) (n : Nat),
    (checkExpr v e).Passes strict log →
      (exprType (readAt v) e).Blurs (exprType read (e.respell new which n))
  | .literal .., n, h => .refl _
  | .ident name, n, h => by
    simp only [exprType, Expr.respell, Ident.respell]
    split
    · exact .inr hnew
    · exact hread _
  | .assign _ value _, n, h => exprType_blurs hread hnew value (n + 1) (assign_passes h).1
  | .binary op lhs rhs span, n, h => by
    have hlhs := exprType_blurs hread hnew lhs n (binary_passes h).1
    have hrhs := exprType_blurs hread hnew rhs (n + lhs.uses.length) (binary_passes h).2
    have hresult := binary_result h
    rw [value_checkExpr, value_checkExpr] at hresult
    obtain ⟨type', hresult', htype⟩ := hlhs.binary hrhs hresult
    simp only [exprType, Expr.respell, hresult, hresult']
    exact htype
  | .unary op operand span, n, h => by
    have hoperand := exprType_blurs hread hnew operand n (unary_passes h)
    have hresult := unary_result h
    rw [value_checkExpr] at hresult
    obtain ⟨type', hresult', htype⟩ := hoperand.unary hresult
    simp only [exprType, Expr.respell, hresult, hresult']
    exact htype
  | .call .., n, h => .refl _

theorem readAhead_blurs (h : Blurred new tree tree') (decl : Span) (y : String) :
    (readAhead tree decl y).Blurs (readAhead tree' decl y) := by
  have hlocal := h.alike.lookupLocal 0 y
  unfold readAhead
  generalize tree.lookupLocal 0 y = symbol at hlocal ⊢
  generalize tree'.lookupLocal 0 y = symbol' at hlocal ⊢
  cases hlocal with
  | none => exact .refl _
  | some hblurs =>
    rw [hblurs.same]
    dsimp only
    split
    · exact hblurs.type
    · exact .refl _

/-- What is inferred ahead for one item. -/
theorem inferItem_blurs {items pre rest : List Stmt} {x : Stmt} (hitems : items = pre ++ x :: rest)
    (hordered : Stmt.Ordered items) (hseen : Seen items (x :: rest) tree) {strict : Bool}
    {log : List (Ident × Lookup)} (hclean : (checkStmt .top tree x).Passes strict log) {ahead' : ScopeTree}
    (h : Blurred new (ahead items pre) ahead') (which : Nat → Bool) (n : Nat) :
    Blurred new (ahead items (pre ++ [x])) (inferItems [x.respell new which n] ahead') := by
  subst hitems
  rw [ahead_append]
  cases x with
  | varDecl name type init span =>
    cases type with
    | some => exact h
    | none =>
      cases init with
      | none => exact h
      | some init =>
        have htype : (initializerType (ahead (pre ++ .varDecl name none (some init) span :: rest) pre)
            name.span init).Blurs (initializerType ahead' name.span (init.respell new which n)) := by
          have hagrees := hseen.read_agrees hordered (rfl : Stmt.var? (.varDecl name none (some init) span) = _)
          rw [initializerType_eq, initializerType_eq, ← funext hagrees]
          simp only [checkStmt, Checked.passes_bind] at hclean
          refine exprType_blurs (fun y => ?_) ?_ init n (init_passes hclean.1)
          · rw [hagrees]
            exact readAhead_blurs h _ _
          · rw [readAhead, h.lacks.lookupLocal]
        refine ⟨h.alike.updateLocal 0 fun symbol symbol' _ hblurs => ?_, h.lacks.updateLocal⟩
        rw [hblurs.same]
        dsimp only
        split
        · exact ⟨rfl, htype.inferred⟩
        · exact ⟨rfl, hblurs.type⟩
  | branch cond thenStmt elseStmt span => cases elseStmt <;> exact h
  | _ => exact h

/-- The types that are inferred ahead are those of the program before, or not known. The types of the second
pass, which has no errors there, are the same (`Seen.read_agrees`); so no operator is applied to
operands that it does not take, where less would be known before than after. -/
theorem inferItems_blurs {items pre rest : List Stmt} (hitems : items = pre ++ rest)
    (hordered : Stmt.Ordered items) (hseen : Seen items rest tree) {strict warned : Bool}
    {log : List (Ident × Lookup)} (hclean : (checkStmts .top tree warned rest).Passes strict log)
    {ahead' : ScopeTree} (h : Blurred new (ahead items pre) ahead') (which : Nat → Bool) (n : Nat) :
    Blurred new (ahead items items) (inferItems (Stmt.respellAll new which n rest) ahead') := by
  induction rest generalizing pre tree ahead' warned n with
  | nil =>
    rw [List.append_nil] at hitems
    rw [← hitems] at h
    exact h
  | cons x rest ih =>
    obtain ⟨hx, hrest⟩ := stmts_passes hclean
    have hstep := inferItem_blurs hitems hordered hseen hx h which n
    have hseen' : Seen items rest (checkStmt .top tree x).value := by
      subst hitems
      exact hseen.step hordered
    have hitems' : items = pre ++ [x] ++ rest := by rw [hitems, List.append_assoc, List.singleton_append]
    exact ih hitems' hseen' hrest hstep _

theorem symbol?_respell (new : String) (which : Nat → Bool) (n : Nat) (s : Stmt) :
    symbol? (s.respell new which n) = symbol? s := by
  cases s with
  | branch cond thenStmt elseStmt span => cases elseStmt <;> rfl
  | _ => rfl

theorem declareItems_respellAll (n : Nat) (items : List Stmt) (tree : ScopeTree) :
    declareItems (Stmt.respellAll new which n items) tree = declareItems items tree := by
  induction items generalizing n tree with
  | nil => rfl
  | cons item items ih =>
    have hrespell := symbol?_respell new which n item
    rw [Stmt.respellAll]
    cases hsymbol : symbol? item with
    | none =>
      rw [declareItems_cons_of_none (hrespell.trans hsymbol), declareItems_cons_of_none hsymbol, ih]
    | some symbol =>
      rw [declareItems_cons_of_some (hrespell.trans hsymbol), declareItems_cons_of_some hsymbol, funext (ih _)]

theorem lacks_declareItems {items : List Stmt} (h : tree.Lacks new)
    (hfresh : new ∉ Stmt.declarationsAll items) : (declareItems items tree).value.Lacks new := by
  induction items generalizing tree with
  | nil => exact h
  | cons item items ih =>
    rw [Stmt.declarationsAll, List.mem_append, not_or] at hfresh
    cases hsymbol : symbol? item with
    | none =>
      rw [declareItems_cons_of_none hsymbol]
      exact ih h hfresh.2
    | some symbol =>
      have hne : new ≠ symbol.name := by
        rintro rfl
        exact hfresh.1 (Stmt.mem_declarations (declared?_of_symbol? hsymbol))
      rw [declareItems_cons_of_some hsymbol]
      refine ih ?_ hfresh.2
      unfold declare ScopeTree.declare
      cases tree.lookupLocal 0 symbol.name with
      | none => exact h.addSymbol hne
      | some existing => exact h

/-- The top level of the two programs. -/
theorem declareGlobals_slips {items : List Stmt} (hordered : Stmt.Ordered items) {warned : Bool}
    (hclean : (checkStmts .top (ahead items items) warned items).errors = [])
    (hfresh : new ∉ Stmt.declarationsAll items) (which : Nat → Bool) (n : Nat) :
    Slips [] (Blurred new) (declareGlobals items) (declareGlobals (Stmt.respellAll new which n items)) := by
  unfold declareGlobals
  rw [declareItems_respellAll]
  intro hdeclared
  rw [Checked.errors_bind, List.append_eq_nil_iff] at hdeclared
  have hstart : Blurred new (ahead items []) (ahead items []) :=
    ⟨.refl (fun _ symbol => ⟨rfl, .refl _⟩) _, lacks_declareItems .new hfresh⟩
  refine ⟨?_, .of_eq ?_⟩
  · exact inferItems_blurs (List.nil_append items).symm hordered (.start items)
      (Checked.passes_of_errors hclean) hstart which n
  · rw [Checked.errors_bind, hdeclared.1]
    rfl

theorem misses_single (new : String) (k n : Nat) (names : List Ident) : misses new (· == k) n names =
    if n ≤ k then (names[k - n]?).toList.map fun name => (Fault.undeclared new).diagnostic name.span
    else [] := by
  induction names generalizing n with
  | nil => simp [misses]
  | cons name names ih =>
    rw [misses, ih]
    rcases Nat.lt_trichotomy n k with hlt | rfl | hgt
    · have hindex : k - n = (k - (n + 1)) + 1 := by omega
      simp [Nat.ne_of_lt hlt, Nat.le_of_lt hlt, Nat.succ_le_of_lt hlt, hindex]
    · simp
    · simp [Nat.ne_of_gt hgt, Nat.not_le_of_gt hgt, Nat.not_le_of_gt (Nat.lt_succ_of_lt hgt)]

theorem Fault.message_undeclared (name : String) :
    (Fault.undeclared name).message = s!"undeclared identifier '{name}'" := by
  have hopen : "undeclared identifier " ++ "'" = "undeclared identifier '" := rfl
  simp only [Fault.message, Fault.quoting, toString, hopen, String.append_empty]

end Check

/-- The name `a` is declared last but stands first. So ahead of the check the type of `x`, which is declared with it,
is not known; but once `a` is misspelt there, it is known to be `bool`. -/
def Program.outOfOrder : Program :=
  let place (n : Nat) : Span := ⟨⟨1, .ofNat n + 1, n⟩, n + 1⟩
  ⟨[.function ⟨"f", place 1⟩ []
      [.expr (.assign ⟨"x", place 2⟩ (.literal (.int 1) (place 3)) (place 2)) (place 2)] (place 1) (place 1),
    .varDecl ⟨"x", place 4⟩ none
      (some (.binary .and (.ident ⟨"a", place 5⟩) (.literal (.bool true) (place 6)) (place 5))) (place 4),
    .varDecl ⟨"a", place 0⟩ (some .int) (some (.literal (.int 1) (place 7))) (place 0)], place 0⟩

end Scriptlet
