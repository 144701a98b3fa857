import Scriptlet.Proofs.Acceptance
import Scriptlet.Proofs.Occurrences
import Scriptlet.Proofs.RunSteps
import Scriptlet.Proofs.TypedState

/-!
# Programs that pass do not go wrong, but for floats given to ints

A program is explicit if its variables have types and initial values, and it has neither calls nor nil.
While an explicit program is run that the check has nothing to say about, each variable holds what the
check takes it to hold (`Typed`). So its expressions have the types foreseen in `Expr.runType`, and no
operator, condition or assignment meets a value that it does not take, except that an int variable may
be given a float (`Program.type_faults_narrow`), and this does happen (`Program.widenedInit_fails`).
-/

namespace Scriptlet

open Check Run

/-! ### Expressions -/

/-- Not for a wrong type, or because one of the int variables `names` was given a float. -/
def Run.Failure.Allowed (names : List Ident) (failure : Failure) : Prop :=
  failure.fault.code = .runtimeType →
    ∃ name ∈ names, failure = ⟨.storeMismatch name.name .int .float, name.span⟩

theorem Run.Failure.allowed_of_narrowing {target : Ident} {slot value : Ty} (hslot : slot = .int)
    (hvalue : value = .float) :
    Failure.Allowed (narrowing slot value target)
      ⟨.storeMismatch target.name .int .float, target.span⟩ :=
  fun _ => ⟨target, by simp [narrowing, hslot, hvalue], rfl⟩

theorem Run.Failure.Allowed.mono {names names' : List Ident} {failure : Failure}
    (h : failure.Allowed names) (hsubset : names ⊆ names') : failure.Allowed names' := by
  intro hcode
  obtain ⟨name, hmem, hfailure⟩ := h hcode
  exact ⟨name, hsubset hmem, hfailure⟩

/-- A computation that keeps the variables as the check takes them, gives a result that satisfies `P`,
and fails for a wrong type only at `names`. -/
def Behaves {α : Type} (globals : Slots) (scope : Nat) (tree : ScopeTree) (names : List Ident)
    (P : α → Prop) (p : Run α) : Prop :=
  Preserves (Typed globals scope tree) (Failure.Allowed names) P p

namespace Behaves

variable {α β : Type} {globals : Slots} {scope : Nat} {tree : ScopeTree} {names names' : List Ident}
  {P : α → Prop} {Q : β → Prop} {p : Run α} {f : α → Run β}

theorem mono (h : Behaves globals scope tree names P p) (hsubset : names ⊆ names') :
    Behaves globals scope tree names' P p := fun s hs =>
  (h s hs).mono (fun _ _ h => h) fun _ _ hfailure => hfailure.mono hsubset

theorem typed {s : State} (h : Behaves globals scope tree names P p) (hs : Typed globals scope tree s) :
    Ends p s (fun _ s' => Typed globals scope tree s') fun failure _ => failure.Allowed names :=
  (h s hs).mono_ok fun _ _ h => h.2

theorem pure {a : α} (h : P a) : Behaves globals scope tree names P (pure a : Run α) := Preserves.pure h

theorem bind (hp : Behaves globals scope tree names P p)
    (hf : ∀ a, P a → Behaves globals scope tree names Q (f a)) :
    Behaves globals scope tree names Q (p >>= f) := Preserves.bind hp hf

theorem tick (b : Bounds) (span : Span) :
    Behaves globals scope tree names (fun _ => True) (tick b span) := fun s hs =>
  (tick_ends b span s).mono (fun _ _ h => ⟨trivial, h ▸ hs.tick⟩)
    fun _ _ h hcode => absurd (h.symm.trans hcode) (by decide)

theorem printLine (line : String) (span : Span) :
    Behaves globals scope tree names (fun _ => True) (printLine line span) := by
  intro s hs
  rw [ends_printLine, Sink.writeLine]
  split
  · next hsink =>
    split at hsink
    · cases hsink
    · exact ⟨trivial, hs.calls, hs.base, hs.agree⟩
  · next fault hfault =>
    split at hfault
    · cases hfault
      exact nofun
    · cases hfault

/-- An operator whose operands have the right types. -/
theorem lift {result : Except Run.Fault Value} {t : Ty} (span : Span) (h : Yields (some t) result) :
    Behaves globals scope tree names (fun v => v.type = t) (lift span result) := by
  intro s hs
  rw [ends_lift]
  cases result with
  | ok v => exact ⟨(Option.some.inj h).symm, hs⟩
  | error fault => exact fun hcode => nomatch h.1.1 hcode

theorem truth {value : Value} (span : Span) (h : value.type = .bool) :
    Behaves globals scope tree names (fun _ => True) (truth span value) := by
  cases value <;> cases h
  exact .pure trivial

/-- Storing a value that the check has allowed. -/
theorem store {target : Ident} {value : Value} {symbol : Symbol} {found : Ty}
    (hlookup : tree.lookup scope target.name = .found symbol)
    (hkind : symbol.kind.isFunction = false) (haccepts : symbol.type.accepts found = true)
    (hfound : found.Definite) (hvalue : Widens found value.type) :
    Behaves globals scope tree (narrowing symbol.type value.type target)
      (fun stored => stored.type = storedType symbol.type value.type) (store target value) := by
  intro s hs
  obtain ⟨b, hb, hholds⟩ := hs.lookup hlookup
  have hdeclared := hholds.declared_eq hkind
  rw [ends_store, hb]
  dsimp only
  rw [hdeclared]
  obtain ⟨stored, hcoerce, htype, hstored⟩ | ⟨hcoerce, hint, hfloat⟩ :=
    coerce_widens target.name hholds.definite.1 hfound haccepts hvalue
  · rw [hcoerce]
    exact ⟨htype.trans hstored.symm, hdeclared ▸ hs.replace hb hdeclared htype⟩
  · rw [hcoerce]
    exact Failure.allowed_of_narrowing hint hfloat

end Behaves

section Expressions

variable {types : Ident → Ty} {log : List (Ident × Lookup)} {globals : Slots} {v : View} {b : Bounds}
  {call : Caller}

/-- An explicit expression that passes behaves, and its value has the type foreseen. -/
theorem eval_behaves (hlog : TypesFrom log types) (houtside : v.inFunction = false) :
    ∀ e : Expr, e.explicit = true → (checkExpr v e).Passes true log →
        Behaves globals v.scope v.tree (e.narrowed types) (fun value => value.type = e.runType types)
          (eval b call e)
  | .literal value _, _, _ => .pure (by cases value <;> rfl)
  | .ident name, _, hpasses => by
    intro s hs
    obtain ⟨symbol, hlookup, hfound, hinit, -⟩ := ident_found houtside (hs.known _) hpasses
    obtain ⟨b, hb, hholds⟩ := hs.lookup hlookup
    rw [eval, ends_load, hb]
    exact ⟨(hholds.value_type hinit).trans (hlog name symbol hfound).symm, hs⟩
  | .assign target value span, hexplicit, hpasses => by
    intro s hs
    obtain ⟨hvalue, htarget⟩ := assign_passes hpasses
    obtain ⟨symbol, hlookup, hfound, hsymbol⟩ := symbol_passes htarget
    obtain ⟨hkind, haccepts⟩ := assign_accepts hpasses hsymbol
    obtain ⟨hdefinite, hwidens⟩ := checkExpr_widens hlog houtside (hs.known _) value hexplicit hvalue
    simp only [eval, Expr.runType, Expr.narrowed, hlog target symbol hfound]
    refine Behaves.bind ((eval_behaves hlog houtside value hexplicit hvalue).mono
      (List.subset_append_left _ _)) (fun x hx => ?_) s hs
    rw [← hx] at hwidens ⊢
    exact (Behaves.store hlookup hkind haccepts hdefinite hwidens).mono (List.subset_append_right _ _)
  | .binary op lhs rhs span, hexplicit, hpasses => by
    intro s hs
    simp only [Expr.explicit, Bool.and_eq_true] at hexplicit
    obtain ⟨hlhs, hrhs⟩ := binary_passes hpasses
    have hl := checkExpr_widens hlog houtside (hs.known _) lhs hexplicit.1 hlhs
    have hr := checkExpr_widens hlog houtside (hs.known _) rhs hexplicit.2 hrhs
    have hresult := binary_result hpasses
    have hleft := (eval_behaves hlog houtside lhs hexplicit.1 hlhs).mono
      (List.subset_append_left _ (rhs.narrowed types))
    have hright := (eval_behaves hlog houtside rhs hexplicit.2 hrhs).mono
      (List.subset_append_right (lhs.narrowed types) _)
    simp only [eval, Expr.runType, Expr.narrowed]
    cases hop : OpForm.of op with
    | logical decisive =>
      obtain ⟨hlbool, hrbool, -⟩ := bool_of_result? hl.1 hr.1 hop hresult
      have hltype : lhs.runType types = .bool := (hl.2.eq (by simp [hlbool])).trans hlbool
      have hrtype : rhs.runType types = .bool := (hr.2.eq (by simp [hrbool])).trans hrbool
      refine Behaves.bind hleft (fun x hx => .bind (.truth _ (hx.trans hltype)) fun left _ => ?_) s hs
      dsimp only
      split
      · exact .pure rfl
      · exact .bind hright fun y hy => .bind (.truth _ (hy.trans hrtype)) fun _ _ => .pure rfl
    | strict strict =>
      obtain ⟨t, ht, -⟩ := hl.2.type? hr.2 (type?_of_result? hl.1 hr.1 hop hresult)
      refine Behaves.bind hleft (fun x hx => .bind hright fun y hy => ?_) s hs
      rw [← hx, ← hy] at ht ⊢
      have hyields := applyStrict_yields b.limits.maxValueBytes op strict x y
      simp only [ht, Option.getD_some] at hyields ⊢
      exact .lift span hyields
  | .unary op operand span, hexplicit, hpasses => by
    intro s hs
    have hoperand := unary_passes hpasses
    obtain ⟨hdefinite, hwidens⟩ := checkExpr_widens hlog houtside (hs.known _) operand hexplicit hoperand
    obtain ⟨t, ht, -⟩ := hwidens.unaryType? (unaryType?_of_result? hdefinite (unary_result hpasses))
    refine Behaves.bind (eval_behaves hlog houtside operand hexplicit hoperand) (fun x hx => ?_) s hs
    have hyields := applyUnary_yields op x
    simp only [Expr.runType, ← hx] at ht ⊢
    simp only [ht, Option.getD_some] at hyields ⊢
    exact .lift span hyields

theorem evalCondition_behaves (hlog : TypesFrom log types) (houtside : v.inFunction = false)
    {word : String} {cond : Expr} (hexplicit : cond.explicit = true)
    (hpasses : (checkCondition v word cond).Passes true log) :
    Behaves globals v.scope v.tree (cond.narrowed types) (fun _ => True) (evalCondition b call cond) := by
  intro s hs
  have hcond := condition_passes hpasses
  obtain ⟨hdefinite, hwidens⟩ := checkExpr_widens hlog houtside (hs.known _) cond hexplicit hcond
  have hbool : (checkExpr v cond).value = .bool := by
    grind [condition_isBool hpasses, Ty.isBoolOrUnknown, Ty.Definite]
  have htype : cond.runType types = .bool := (hwidens.eq (by simp [hbool])).trans hbool
  exact Behaves.bind (eval_behaves hlog houtside cond hexplicit hcond)
    (fun value hvalue => .truth _ (hvalue.trans htype)) s hs

end Expressions

/-! ### Statements -/

section Statements

variable {types : Ident → Ty} {log : List (Ident × Lookup)} {globals : Slots} {b : Bounds}
  {call : Caller} {c : Context} {tree : ScopeTree}

theorem tail_chain_announceAll {scope : Nat} (stmts : List Stmt) (h : scope < tree.size) :
    ((announce scope stmts tree).chain scope).tail = (tree.chain scope).tail := by
  induction stmts generalizing tree with
  | nil => rfl
  | cons stmt stmts ih =>
    cases stmt with
    | varDecl | function =>
      exact (ih (by simpa using h)).trans (ScopeTree.tail_chain_announce _ _ h)
    | _ => exact ih h

/-- A statement declares in the innermost scope. -/
theorem tail_chain_checkStmt {strict : Bool} {stmt : Stmt} (h : c.scope < tree.size)
    (hpasses : (checkStmt c tree stmt).Passes strict log) :
    ((checkStmt c tree stmt).value.chain c.scope).tail = (tree.chain c.scope).tail := by
  cases stmt with
  | varDecl name type init span =>
    simp only [checkStmt, Checked.passes_bind, Checked.value_bind, declareVariable] at hpasses ⊢
    split
    · next hscope =>
      rw [hscope] at h ⊢
      exact ScopeTree.tail_chain_updateLocal _ _ h
    · next hscope =>
      rw [if_neg hscope] at hpasses
      rw [(declare_passes hpasses.2).2]
      exact ScopeTree.tail_chain_addSymbol _ h
  | function name params body braces span =>
    simp only [checkStmt] at hpasses ⊢
    split
    · rfl
    · next hscope =>
      rw [if_neg hscope, Checked.passes_bind] at hpasses
      simp only [Checked.value_bind, Checked.value_pure]
      rw [(declare_passes hpasses.1).2]
      exact ScopeTree.tail_chain_addSymbol _ h
  | branch cond thenStmt elseStmt span => cases elseStmt <;> rfl
  | expr | print | block | loop => rfl
  | returnWith | breakLoop | continueLoop =>
    simp only [checkStmt]
    split <;> rfl

/-- A branch behaves, if it does in the scope in which it was checked. -/
theorem asBranch_behaves {stmt : Stmt} {names : List Ident} {body : Run Signal}
    (hpasses : (checkStmt (branchContext c tree stmt) (branchTree c tree stmt) stmt).Passes true log)
    (hbody : ∀ s, Typed globals (branchContext c tree stmt).scope (branchTree c tree stmt) s →
      Ends body s
        (fun _ s' => Typed globals (branchContext c tree stmt).scope
          (checkStmt (branchContext c tree stmt) (branchTree c tree stmt) stmt).value s')
        fun failure _ => failure.Allowed names) :
    Behaves globals c.scope tree names (fun _ => True) (asBranch b stmt body) := by
  intro s hs
  unfold asBranch
  split
  · exact (hbody s hs).mono_ok fun _ _ hs' => ⟨trivial, hs'⟩
  · next hstmt =>
    have hscope : needsScope stmt = true := by
      cases stmt with
      | block body span => exact absurd rfl (hstmt body span)
      | _ => rfl
    rw [branchContext, branchTree, if_pos hscope, if_pos hscope] at hpasses hbody
    rw [inBlock, ends_between, ends_bind]
    refine (Behaves.tick b _ _ hs.push).mono_ok fun _ s₁ h₁ => ?_
    refine (hbody s₁ h₁.2).mono_ok fun _ s₂ h₂ => ⟨trivial, hs.pop h₂ ?_⟩
    rw [tail_chain_checkStmt h₁.2.agree.inside hpasses, ScopeTree.chain_push hs.agree.inside]
    rfl

theorem checkInit_annotated {v : View} {name : Ident} {type : TypeName} {init : Expr} :
    (checkInit v name (some type) (some init)).value = .ofTypeName type := by
  simp only [checkInit, checkOption, Option.map_some, Checked.value_bind, Checked.value_pure]
  split <;> rfl

/-- A variable is declared with a value that the check has allowed. -/
theorem declareVariable_typed {scope : Nat} {s : State} {name : Ident} {type : TypeName} {found : Ty}
    {value : Value} (hs : Typed globals scope tree s)
    (hplaced : scope = 0 → globals name.name = some ⟨some (.ofTypeName type), name.span⟩)
    (hpasses : (declareVariable tree scope name (.ofTypeName type)).Passes true log)
    (haccepts : (Ty.ofTypeName type).accepts found = true) (hfound : found.Definite)
    (hvalue : Widens found value.type) :
    Ends (if s.atTopLevel then store name value >>= fun _ => pure Signal.normal
        else declare name (some (.ofTypeName type)) value >>= fun _ => pure Signal.normal) s
      (fun _ s' => Typed globals scope (declareVariable tree scope name (.ofTypeName type)).value s')
      fun failure _ => failure.Allowed (narrowing (.ofTypeName type) value.type name) := by
  have htype : Ty.ofTypeName type ≠ .unknown := by cases type <;> nofun
  have hcoerce := coerce_widens name.name htype hfound haccepts hvalue
  simp only [declareVariable] at hpasses ⊢
  split
  · next htop =>
    obtain rfl := hs.atTopLevel_iff.1 htop
    obtain ⟨b, hb, hslot⟩ : ∃ b, s.globals.base.get? name.name = some b ∧ b.slot = _ :=
      Option.map_eq_some_iff.1 ((congrFun hs.base name.name).trans (hplaced rfl))
    have hdeclared : b.declared = some (.ofTypeName type) := congrArg Slot.declared hslot
    rw [ends_bind, ends_store, hs.binding?_top, hb, if_pos rfl]
    dsimp only
    rw [hdeclared]
    obtain ⟨stored, hcoerce, htype, -⟩ | ⟨hcoerce, hint, hfloat⟩ := hcoerce
    · rw [hcoerce]
      exact hdeclared ▸ hs.initial hb hdeclared htype
    · rw [hcoerce]
      exact Failure.allowed_of_narrowing hint hfloat
  · next htop =>
    have hscope : scope ≠ 0 := mt hs.atTopLevel_iff.2 htop
    rw [if_neg hscope] at hpasses ⊢
    rw [ends_bind, ends_declare]
    obtain ⟨stored, hcoerce, htype, -⟩ | ⟨hcoerce, hint, hfloat⟩ := hcoerce
    · rw [hcoerce]
      exact hs.declare hscope hpasses (.var type rfl rfl nofun rfl fun _ => htype)
    · rw [hcoerce]
      exact Failure.allowed_of_narrowing hint hfloat

/-- A branch is not at the top level, unless it is a block. -/
theorem placed_branch (hsize : tree.size ≠ 0) (stmt : Stmt) :
    Placed globals (branchContext c tree stmt).scope stmt := by
  cases stmt with
  | block => trivial
  | _ => exact placed_of_ne_zero hsize _

mutual

/-- A statement leaves the variables as the check takes them after it. -/
theorem exec_typed (hlog : TypesFrom log types) :
    ∀ (path : TreePath) (stmt : Stmt) {c : Context} {tree : ScopeTree} {s : State}, stmt.explicit = true →
      Placed globals c.scope stmt → c.inFunction = false → (checkStmt c tree stmt).Passes true log →
        Typed globals c.scope tree s →
          Ends (exec b call path stmt) s
            (fun _ s' => Typed globals c.scope (checkStmt c tree stmt).value s')
            fun failure _ => failure.Allowed (stmt.narrowed types)
  | _, .varDecl name (some type) (some init) _, c, tree, s, hexplicit, hplaced, houtside, hpasses, hs => by
    simp only [checkStmt, Checked.passes_bind, Checked.value_bind, checkInit_annotated] at hpasses ⊢
    have hinit := init_passes hpasses.1
    obtain ⟨hdefinite, hwidens⟩ := checkExpr_widens hlog houtside (hs.known _) init hexplicit hinit
    simp only [exec, evalOption, ends_bind, ends_get, Stmt.narrowed]
    refine (eval_behaves (v := c.view tree) hlog houtside init hexplicit hinit s hs).mono ?_
      fun _ _ hfailure => hfailure.mono (List.subset_append_left _ _)
    intro value s' hs'
    rw [← hs'.1] at hwidens ⊢
    have hdeclared := declareVariable_typed hs'.2 hplaced hpasses.2 (init_accepts hpasses.1) hdefinite
      hwidens
    exact hdeclared.mono (fun _ _ h => h) fun _ _ hfailure => hfailure.mono (List.subset_append_right _ _)
  | _, .expr e _, c, tree, s, hexplicit, _, houtside, hpasses, hs => by
    simp only [checkStmt, Checked.passes_bind] at hpasses
    exact (Behaves.bind (eval_behaves (v := c.view tree) hlog houtside e hexplicit hpasses.1)
      fun _ _ => .pure (P := fun _ => True) trivial).typed hs
  | _, .print e span, c, tree, s, hexplicit, _, houtside, hpasses, hs => by
    simp only [checkStmt, Checked.passes_bind] at hpasses
    exact (Behaves.bind (eval_behaves (v := c.view tree) hlog houtside e hexplicit hpasses.1)
      fun _ _ => .bind (.printLine _ span) fun _ _ => .pure (P := fun _ => True) trivial).typed hs
  | _, .block body _, c, tree, s, hexplicit, _, houtside, hpasses, hs => by
    simp only [checkStmt, Checked.passes_bind] at hpasses
    have hopened : Typed globals tree.size (announce tree.size body (tree.push c.scope))
        (s.mapFrame Frame.pushBlock) :=
      ⟨hs.push.calls, hs.push.base, hs.push.agree.announce body⟩
    have hplaced : ∀ stmt ∈ body, Placed globals tree.size stmt := fun stmt _ =>
      placed_of_ne_zero hs.agree.size_ne_zero stmt
    rw [exec, inBlock, ends_between]
    refine (execAll_typed (c := { c with scope := tree.size }) hlog _ body hexplicit hplaced
      houtside hpasses.1 hopened).mono_ok ?_
    rintro _ s' ⟨tree', htail, hs'⟩
    refine hs.pop hs' ?_
    rw [htail, tail_chain_announceAll body hs.push.agree.inside, ScopeTree.chain_push hs.agree.inside]
    rfl
  | _, .branch cond thenStmt none _, c, tree, s, hexplicit, _, houtside, hpasses, hs => by
    simp only [Stmt.explicit, Bool.and_eq_true] at hexplicit
    obtain ⟨hcond, hthen, -⟩ := branch_passes hpasses
    unfold exec
    refine (Behaves.bind (Q := fun _ => True) ((evalCondition_behaves hlog houtside hexplicit.1 hcond).mono
      (List.subset_append_left _ (thenStmt.narrowed types))) fun holds _ => ?_).typed hs
    split
    · exact (branch_behaves hlog _ thenStmt hexplicit.2 houtside hthen).mono (List.subset_append_right _ _)
    · exact .pure trivial
  | _, .branch cond thenStmt (some elseStmt) _, c, tree, s, hexplicit, _, houtside, hpasses, hs => by
    simp only [Stmt.explicit, Bool.and_eq_true] at hexplicit
    obtain ⟨hcond, hthen, helse⟩ := branch_passes hpasses
    unfold exec
    refine (Behaves.bind (Q := fun _ => True)
      ((evalCondition_behaves hlog houtside hexplicit.1.1 hcond).mono (List.subset_append_left _
        (thenStmt.narrowed types ++ elseStmt.narrowed types))) fun holds _ => ?_).typed hs
    split
    · exact (branch_behaves hlog _ thenStmt hexplicit.1.2 houtside hthen).mono fun _ hname =>
        List.mem_append_right _ (List.mem_append_left _ hname)
    · exact (branch_behaves hlog _ elseStmt hexplicit.2 houtside (helse _ rfl)).mono fun _ hname =>
        List.mem_append_right _ (List.mem_append_right _ hname)
  | path, .loop cond body span, c, tree, s, hexplicit, _, houtside, hpasses, hs => by
    simp only [Stmt.explicit, Bool.and_eq_true] at hexplicit
    simp only [checkStmt, Checked.passes_bind] at hpasses
    have hcond : Behaves globals c.scope tree (cond.narrowed types ++ body.narrowed types) (fun _ => True)
        (evalCondition b call cond) :=
      (evalCondition_behaves (v := c.view tree) hlog houtside hexplicit.1 hpasses.1).mono
        (List.subset_append_left _ _)
    have hbody : Behaves globals c.scope tree (cond.narrowed types ++ body.narrowed types) (fun _ => True)
        (asBranch b body (exec b call path.inside body)) :=
      (branch_behaves (c := { c with inLoop := true }) hlog _ body hexplicit.2 houtside hpasses.2.1).mono
        (List.subset_append_right _ _)
    rw [exec, ends_bind, ends_get]
    exact Behaves.typed (Preserves.iterate (Behaves.tick b span) hcond hbody trivial _) hs
  | _, .function name params body _ _, c, tree, s, _, _, _, hpasses, hs => by
    simp only [checkStmt] at hpasses ⊢
    simp only [exec, ends_bind, ends_get, ends_ite, ends_pure]
    by_cases hscope : c.scope = 0
    · rw [hs.atTopLevel_iff.2 hscope, if_pos hscope]
      exact hs
    · rw [if_neg hscope, Checked.passes_bind] at hpasses
      rw [Bool.eq_false_iff.2 (mt hs.atTopLevel_iff.1 hscope), if_neg hscope]
      simp only [Bool.not_false, if_true, ends_declare, coerce]
      exact hs.declare hscope hpasses.1 (.function rfl rfl rfl rfl rfl)
  | _, .returnWith value span, c, tree, s, _, _, houtside, hpasses, hs => by
    -- outside of functions this is reported
    simp [checkStmt, houtside, Check.Fault.code, Code.isWarning] at hpasses
  | _, .breakLoop _, c, tree, s, _, _, _, hpasses, hs => by
    simp only [checkStmt]
    split <;> exact hs
  | _, .continueLoop _, c, tree, s, _, _, _, hpasses, hs => by
    simp only [checkStmt]
    split <;> exact hs

theorem branch_behaves (hlog : TypesFrom log types) (path : TreePath) (stmt : Stmt) {c : Context} {tree : ScopeTree}
    (hexplicit : stmt.explicit = true) (houtside : c.inFunction = false)
    (hpasses : (checkStmt (branchContext c tree stmt) (branchTree c tree stmt) stmt).Passes true log) :
    Behaves globals c.scope tree (stmt.narrowed types) (fun _ => True)
      (asBranch b stmt (exec b call path stmt)) := by
  intro s hs
  exact asBranch_behaves hpasses (fun _ hs' => exec_typed hlog path stmt hexplicit
    (placed_branch hs.agree.size_ne_zero stmt) (by simpa using houtside) hpasses hs') s hs

theorem execAll_typed (hlog : TypesFrom log types) :
    ∀ (path : TreePath) (stmts : List Stmt) {c : Context} {tree : ScopeTree} {warned : Bool} {s : State},
      Stmt.explicitAll stmts = true → (∀ stmt ∈ stmts, Placed globals c.scope stmt) →
        c.inFunction = false → (checkStmts c tree warned stmts).Passes true log →
          Typed globals c.scope tree s →
            Ends (execAll b call path stmts) s
              (fun _ s' => ∃ tree', (tree'.chain c.scope).tail = (tree.chain c.scope).tail ∧
                Typed globals c.scope tree' s')
              fun failure _ => failure.Allowed (Stmt.narrowedAll types stmts)
  | _, [], c, tree, warned, s, _, _, _, _, hs => ⟨tree, rfl, hs⟩
  | path, stmt :: stmts, c, tree, warned, s, hexplicit, hplaced, houtside, hpasses, hs => by
    simp only [Stmt.explicitAll, Bool.and_eq_true] at hexplicit
    obtain ⟨hplace, hplaced⟩ := List.forall_mem_cons.1 hplaced
    obtain ⟨hstmt, hstmts⟩ := stmts_passes hpasses
    simp only [execAll, ends_bind, Stmt.narrowedAll]
    refine (Behaves.tick b stmt.span s hs).mono_ok fun _ s₁ h₁ => ?_
    refine (exec_typed hlog path stmt hexplicit.1 hplace houtside hstmt h₁.2).mono ?_
      fun _ _ hfailure => hfailure.mono (List.subset_append_left _ _)
    intro signal s₂ h₂
    -- whatever the statements declare is declared in the innermost scope
    have htail := tail_chain_checkStmt hs.agree.inside hstmt
    split
    · refine (execAll_typed hlog path.next stmts hexplicit.2 hplaced houtside hstmts h₂).mono ?_
        fun _ _ hfailure => hfailure.mono (List.subset_append_right _ _)
      exact fun _ s₃ ⟨tree', htail', h₃⟩ => ⟨tree', htail'.trans htail, h₃⟩
    · exact ⟨_, htail, h₂⟩

end

end Statements

/-! ### Programs -/

theorem typesFrom_typeIn {log : List (Ident × Lookup)}
    (hunique : ∀ name found found', (name, found) ∈ log → (name, found') ∈ log → found = found') :
    TypesFrom log (typeIn log) := by
  intro name symbol hmem
  cases hlookup : log.lookup name with
  | none =>
    have hne := List.lookup_eq_none_iff.1 hlookup _ hmem
    simp at hne
  | some found =>
    obtain ⟨before, after, hlog, -⟩ := List.lookup_eq_some_iff.1 hlookup
    have hfound : (name, found) ∈ log := by simp [hlog]
    obtain rfl := hunique name found (.found symbol) hfound hmem
    rw [typeIn, hlookup]

theorem explicit_of_mem {stmts : List Stmt} (h : Stmt.explicitAll stmts = true) :
    ∀ stmt ∈ stmts, stmt.explicit = true := by
  induction stmts with
  | nil => nofun
  | cons stmt stmts ih =>
    simp only [Stmt.explicitAll, Bool.and_eq_true] at h
    exact List.forall_mem_cons.2 ⟨h.1, ih h.2⟩

/-- The variables of an explicit program are as the check takes them when the run begins. -/
theorem initial_typed {items : List Stmt} {strict : Bool} {log : List (Ident × Lookup)}
    (hexplicit : Stmt.explicitAll items = true) (hpasses : (declareGlobals items).Passes strict log)
    (b : Bounds) :
    Typed (slotsOf (hoist .first items .empty)) 0 (declareGlobals items).value (initial b items) ∧
      ∀ item ∈ items, Placed (slotsOf (hoist .first items .empty)) 0 item := by
  have hitems := explicit_of_mem hexplicit
  have hholds : ∀ item ∈ items, ∀ path symbol binding,
      Declares path item symbol binding → Holds symbol binding := by
    intro item hmem path symbol binding hdeclares
    cases hdeclares with
    | function => exact .function rfl rfl rfl rfl rfl
    | var name type init span =>
      cases type with
      | none => cases hitems _ hmem
      | some t => exact .var t rfl rfl (fun _ => rfl) rfl nofun
  obtain ⟨hagree, hplaced⟩ := declareGlobals_agree hpasses hholds
    fun _ _ _ hmem => nomatch hitems _ hmem
  exact ⟨⟨rfl, rfl, hagree⟩, hplaced⟩

namespace Program

/-- Explicit programs that pass go wrong in one way only. In a text that is read without a report and
checked without an error or a warning, let every variable have a type and an initial value, and let there
be no call and no nil. If a run of it fails for a wrong type, within whatever bounds, then because a float
is stored in an int variable, at one of the names that can be told beforehand (`narrowed`). The check has taken
the float for an int, and it does so only if a float variable is assigned an int within the value
(`checkExpr_exact`). If there is no such name, no run fails for a wrong type. -/
theorem type_faults_narrow (source : String)
    (hquiet : (ofTokens (Tokens.ofText source).tokens).diagnostics = [])
    (hexplicit : Stmt.explicitAll (ofTokens (Tokens.ofText source).tokens).program.items = true)
    (hclean : (ofTokens (Tokens.ofText source).tokens).program.check.diagnostics = []) (b : Bounds) :
    let p := (ofTokens (Tokens.ofText source).tokens).program
    ∀ d ∈ (p.execute b).diagnostics, d.code = .runtimeType →
      ∃ name ∈ p.narrowed,
        d = Failure.diagnostic ⟨.storeMismatch name.name .int .float, name.span⟩ := by
  intro p
  have hderives := ofTokens_sound (Tokens.ofText_ended source) hquiet
  have hlog : TypesFrom p.check.lookups (typeIn p.check.lookups) :=
    typesFrom_typeIn fun _ _ _ => lookups_unique hderives
  have hpasses : (declareGlobals p.items >>= fun tree => checkStmts .top tree false p.items).Passes
      true p.check.lookups :=
    ⟨fun d hd => absurd (hclean ▸ hd : d ∈ []) (List.not_mem_nil), fun _ h => h⟩
  rw [Checked.passes_bind] at hpasses
  obtain ⟨htyped, hplaced⟩ := initial_typed hexplicit hpasses.1 b
  have hends : Ends (execAll b (invoke b b.limits.maxCallDepth) .first p.items) (initial b p.items) _ _ :=
    execAll_typed (c := .top) hlog .first p.items hexplicit hplaced rfl hpasses.2 htyped
  intro d hd hcode
  unfold execute at hd
  split at hd
  · cases hd
  · next failure s' herror =>
    obtain rfl := List.mem_singleton.1 hd
    obtain ⟨name, hname, hfailure⟩ := (ends_of_error herror).1 hends hcode
    exact ⟨name, hname, congrArg Failure.diagnostic hfailure⟩

/-- An assignment to a float variable gives a float to an int variable, at the end of a loop. -/
def lateNarrowing : String :=
  "float f = 1; int n = 0; while (n < 2) \x7b n = n + 1; if (n == 2) \x7b int i = f = n; \x7d \x7d"

theorem type_faults_narrow_lateNarrowing :
    let p := (ofTokens (Tokens.ofText lateNarrowing).tokens).program
    ((ofTokens (Tokens.ofText lateNarrowing).tokens).diagnostics = [] ∧
        Stmt.explicitAll p.items = true ∧ p.check.diagnostics = [] ∧
        p.narrowed.map Ident.name = ["i"]) ∧
      ∀ d ∈ (p.execute {}).diagnostics, d.code = .runtimeType →
        ∃ name ∈ p.narrowed,
          d = Failure.diagnostic ⟨.storeMismatch name.name .int .float, name.span⟩ := by
  have h : (ofTokens (Tokens.ofText lateNarrowing).tokens).diagnostics = [] ∧
      Stmt.explicitAll (ofTokens (Tokens.ofText lateNarrowing).tokens).program.items = true ∧
      (ofTokens (Tokens.ofText lateNarrowing).tokens).program.check.diagnostics = [] ∧
      (ofTokens (Tokens.ofText lateNarrowing).tokens).program.narrowed.map Ident.name = ["i"] := by
    decide +kernel
  exact ⟨h, type_faults_narrow lateNarrowing h.1 h.2.1 h.2.2.1 {}⟩

/-- An int variable that is declared with the value of an assignment to a float variable. -/
def widenedInit : String := "float f = 1; int i = f = 2;"

theorem widenedInit_fails :
    let p := (ofTokens (Tokens.ofText widenedInit).tokens).program
    ((Tokens.ofText widenedInit).diagnostics = [] ∧
        (ofTokens (Tokens.ofText widenedInit).tokens).diagnostics = [] ∧
        Stmt.explicitAll p.items = true ∧ p.check.diagnostics = []) ∧
      (p.execute {}).diagnostics.map Diagnostic.code = [.runtimeType] := by
  decide +kernel

end Program

end Scriptlet
