import Mathlib.Data.List.Nodup
import Mathlib.Data.String.Basic
import Scriptlet.Proofs.Formatting
import Scriptlet.Proofs.Literals

/-!
# What an outline tells of a tree

The outline of a tree is compared with another as a JSON value (`Json.Same`): an object is a map from names to
values, and the order in which its fields are listed does not count. Outlines list their fields in ascending order
of the names (`Json.Ordered`), and between values of that kind the same is equal (`Json.Ordered.same_iff`).

Two trees with equal outlines are equal but for their spans (`Program.erase_eq_of_outline`). The exception is a
float literal that is not finite: its outline is null, as that of `nil` is.
-/

namespace Scriptlet

/-! ### JSON values as maps -/

namespace Json

/-- The same JSON value. Floats are the same if their bits are: this is not the equality of numbers with which libraries
compare JSON values, under which `0.0` and `-0.0` are equal. Objects have the same value, or none, under each name. -/
inductive Same : Json → Json → Prop
  | null : Same null null
  | bool (b : Bool) : Same (bool b) (bool b)
  | int (n : Int) : Same (int n) (int n)
  | float {x y : Float} (h : x.toBits = y.toBits) : Same (float x) (float y)
  | str (s : String) : Same (str s) (str s)
  | arr {xs ys : List Json} (h : List.Forall₂ Same xs ys) : Same (arr xs) (arr ys)
  | obj {fs gs : List (String × Json)} (h : ∀ name, Option.Rel Same (fs.lookup name) (gs.lookup name)) :
    Same (obj fs) (obj gs)

/-- Every object lists its fields in ascending order of their names. -/
inductive Ordered : Json → Prop
  | null : Ordered null
  | bool (b : Bool) : Ordered (bool b)
  | int (n : Int) : Ordered (int n)
  | float (x : Float) : Ordered (float x)
  | str (s : String) : Ordered (str s)
  | arr {items : List Json} (h : ∀ j ∈ items, Ordered j) : Ordered (arr items)
  | obj {fields : List (String × Json)} (hnames : (fields.map Prod.fst).Pairwise (· < ·))
    (h : ∀ f ∈ fields, Ordered f.2) : Ordered (obj fields)

attribute [simp] Ordered.null Ordered.bool Ordered.int Ordered.float Ordered.str

@[simp] theorem ordered_arr {items : List Json} : Ordered (arr items) ↔ ∀ j ∈ items, Ordered j :=
  ⟨fun h => by cases h; assumption, .arr⟩

/-- The names are compared as lists of characters, which `simp` can do. -/
@[simp] theorem ordered_obj {fields : List (String × Json)} :
    Ordered (obj fields) ↔ (fields.map fun f => f.1.toList).Pairwise (· < ·) ∧ ∀ f ∈ fields, Ordered f.2 := by
  have hnames : (fields.map fun f => f.1.toList).Pairwise (· < ·) ↔ (fields.map Prod.fst).Pairwise (· < ·) := by
    simp only [List.pairwise_map, String.lt_iff_toList_lt]
  rw [hnames]
  exact ⟨fun h => by cases h; exact ⟨‹_›, ‹_›⟩, fun h => .obj h.1 h.2⟩

variable {i j : Json} {name : String} {fields fs gs : List (String × Json)}

theorem obj_cons_inj : obj ((name, i) :: fs) = obj ((name, j) :: gs) ↔ i = j ∧ obj fs = obj gs := by
  simp only [obj.injEq, List.cons.injEq, Prod.mk.injEq, true_and]

theorem mem_of_lookup (h : fields.lookup name = some j) : (name, j) ∈ fields := by
  obtain ⟨before, after, rfl, -⟩ := List.lookup_eq_some_iff.1 h
  simp

/-- Where no name stands twice, a field is found under its name. -/
theorem lookup_eq_some_iff_mem (hnames : (fields.map Prod.fst).Nodup) :
    fields.lookup name = some j ↔ (name, j) ∈ fields := by
  refine ⟨mem_of_lookup, fun hmem => ?_⟩
  obtain ⟨before, after, rfl⟩ := List.append_of_mem hmem
  refine List.lookup_eq_some_iff.2 ⟨before, after, rfl, fun p hp => ?_⟩
  rw [List.map_append, List.nodup_append] at hnames
  have hne := hnames.2.2 p.1 (List.mem_map_of_mem hp) name (by simp)
  simpa using hne.symm

/-- Two lists of fields in ascending order are equal if they have the same values under all names. -/
theorem fields_ext (hfs : (fs.map Prod.fst).Pairwise (· < ·)) (hgs : (gs.map Prod.fst).Pairwise (· < ·))
    (h : ∀ name, fs.lookup name = gs.lookup name) : fs = gs := by
  have hnodup {l : List (String × Json)} (hl : (l.map Prod.fst).Pairwise (· < ·)) : (l.map Prod.fst).Nodup :=
    hl.imp fun hlt => hlt.ne
  have hperm : fs.Perm gs := by
    refine (List.perm_ext_iff_of_nodup (hnodup hfs).of_map (hnodup hgs).of_map).2 fun ⟨name, j⟩ => ?_
    rw [← lookup_eq_some_iff_mem (hnodup hfs), ← lookup_eq_some_iff_mem (hnodup hgs), h]
  exact hperm.eq_of_pairwise (fun f g _ _ hlt hgt => absurd hgt hlt.asymm) (List.pairwise_map.1 hfs)
    (List.pairwise_map.1 hgs)

theorem float_eq_of_toBits {x y : Float} (h : x.toBits = y.toBits) : x = y := by
  obtain ⟨⟨bits, _⟩⟩ := x
  obtain ⟨⟨bits', _⟩⟩ := y
  obtain rfl : bits = bits' := h
  rfl

namespace Ordered

theorem eq_of_same (hi : Ordered i) (hj : Ordered j) (h : Same i j) : i = j := by
  induction hi generalizing j with
  | null | bool | int | str => cases h; rfl
  | float => cases h with | float h => rw [float_eq_of_toBits h]
  | @arr xs hxs ih =>
    cases h with | arr h =>
    cases hj with | arr hys =>
    refine congrArg Json.arr ?_
    clear hxs
    induction h with
    | nil => rfl
    | cons hsame _ ihs =>
      rw [List.forall_mem_cons] at ih hys
      rw [ih.1 hys.1 hsame, ihs ih.2 hys.2]
  | @obj fs hfs _ ih =>
    cases h with | @obj _ gs h =>
    cases hj with | obj hgs hvalues =>
    refine congrArg Json.obj (fields_ext hfs hgs fun name => ?_)
    have hrel := h name
    generalize hf : fs.lookup name = v, hg : gs.lookup name = w at hrel
    cases hrel with
    | none => rfl
    | some hsame => exact congrArg some (ih _ (mem_of_lookup hf) (hvalues _ (mem_of_lookup hg)) hsame)

theorem same_self (h : Ordered j) : Same j j := by
  induction h with
  | null => exact .null
  | bool b => exact .bool b
  | int n => exact .int n
  | float x => exact .float rfl
  | str s => exact .str s
  | arr _ ih => exact .arr (List.forall₂_same.2 ih)
  | @obj fields _ _ ih =>
    refine .obj fun name => ?_
    cases hj : fields.lookup name with
    | none => exact .none
    | some j => exact .some (ih _ (mem_of_lookup hj))

/-- Values whose fields are in order are the same only if they are equal. -/
theorem same_iff (hi : Ordered i) (hj : Ordered j) : Same i j ↔ i = j :=
  ⟨eq_of_same hi hj, fun h => h ▸ same_self hi⟩

end Ordered

end Json

/-! ### Outlines are in order -/

/-- The outline of an `if`, with or without an `else`. -/
theorem Stmt.outline_branch (cond : Expr) (thenStmt : Stmt) (elseStmt : Option Stmt) (span : Span) :
    (branch cond thenStmt elseStmt span).outline =
      .obj [("cond", cond.outline), ("else", Json.option outline elseStmt), ("node", .str "IfStmt"),
        ("then", thenStmt.outline)] := by
  cases elseStmt <;> rw [outline] <;> rfl

attribute [local simp] List.cons_lt_cons_iff Stmt.outline_branch

theorem Literal.outline_ordered (v : Literal) : v.outline.Ordered := by
  cases v with
  | float x => rw [outline]; split <;> simp
  | _ => simp [outline]

theorem TypeName.outline_ordered (type : Option TypeName) : (outline type).Ordered := by
  cases type <;> simp [outline, Json.option]

theorem Param.outline_ordered (p : Param) : p.outline.Ordered := by
  simp [outline, TypeName.outline_ordered]

mutual

theorem Expr.outline_ordered : ∀ e : Expr, e.outline.Ordered
  | .literal v _ => by simp [outline, v.outline_ordered]
  | .ident _ => by simp [outline]
  | .assign _ value _ => by simp [outline, Expr.outline_ordered value]
  | .binary _ lhs rhs _ => by simp [outline, Expr.outline_ordered lhs, Expr.outline_ordered rhs]
  | .unary _ operand _ => by simp [outline, Expr.outline_ordered operand]
  | .call callee args _ => by
    have hargs := Expr.outlines_ordered args
    simpa [outline, Expr.outline_ordered callee] using hargs

theorem Expr.outlines_ordered : ∀ es : List Expr, ∀ j ∈ Expr.outlines es, j.Ordered
  | [] => by simp [outlines]
  | e :: es => by
    rw [outlines, List.forall_mem_cons]
    exact ⟨Expr.outline_ordered e, Expr.outlines_ordered es⟩

end

theorem Expr.outlineOption_ordered (e : Option Expr) : (outlineOption e).Ordered := by
  cases e with
  | none => exact .null
  | some e => exact e.outline_ordered

mutual

theorem Stmt.outline_ordered : ∀ s : Stmt, s.outline.Ordered
  | .varDecl _ type init _ => by
    simp [outline, Expr.outlineOption_ordered init, TypeName.outline_ordered type]
  | .expr e _ | .print e _ => by simp [outline, e.outline_ordered]
  | .block body _ => by simpa [outline] using Stmt.outlines_ordered body
  | .branch cond thenStmt none _ => by
    simp [outline, cond.outline_ordered, Stmt.outline_ordered thenStmt]
  | .branch cond thenStmt (some elseStmt) _ => by
    simp [outline, cond.outline_ordered, Stmt.outline_ordered thenStmt, Stmt.outline_ordered elseStmt]
  | .loop cond body _ => by simp [outline, cond.outline_ordered, Stmt.outline_ordered body]
  | .function _ params body _ _ => by
    have hbody := Stmt.outlines_ordered body
    simpa [outline, Json.list, Param.outline_ordered] using hbody
  | .returnWith value _ => by simp [outline, Expr.outlineOption_ordered value]
  | .breakLoop _ | .continueLoop _ => by simp [outline]

theorem Stmt.outlines_ordered : ∀ ss : List Stmt, ∀ j ∈ Stmt.outlines ss, j.Ordered
  | [] => by simp [outlines]
  | s :: ss => by
    rw [outlines, List.forall_mem_cons]
    exact ⟨Stmt.outline_ordered s, Stmt.outlines_ordered ss⟩

end

theorem Program.outline_ordered (p : Program) : p.outline.Ordered := by
  simpa [outline] using Stmt.outlines_ordered p.items

/-! ### Trees with equal outlines -/

/-- A literal that is a float is a finite one. -/
def Literal.IsFinite : Literal → Prop
  | float x => x.isFinite = true
  | _ => True

theorem BinaryOp.symbol_injective : Function.Injective symbol := by
  intro op op' h
  cases op <;> cases op' <;> first | rfl | exact absurd h (by decide)

theorem UnaryOp.symbol_injective : Function.Injective symbol := by
  intro op op' h
  cases op <;> cases op' <;> first | rfl | exact absurd h (by decide)

theorem TypeName.outline_injective : Function.Injective outline := by
  intro type type' h
  rcases type with _ | type <;> rcases type' with _ | type'
  · rfl
  · cases h
  · cases h
  · have hname : type.name = type'.name := Json.str.inj h
    cases type <;> cases type' <;> first | rfl | exact absurd hname (by decide)

theorem Literal.eq_of_outline {v w : Literal} (hv : v.IsFinite) (hw : w.IsFinite) (h : v.outline = w.outline) :
    v = w := by
  cases v <;> cases w <;> simp_all [outline, IsFinite, Int64.toInt_inj]

theorem Param.erase_eq_of_outline {p q : Param} (h : p.outline = q.outline) : p.erase = q.erase := by
  obtain ⟨⟨name, _⟩, type⟩ := p
  obtain ⟨⟨name', _⟩, type'⟩ := q
  simp only [outline, Json.obj_cons_inj, Json.str.injEq, and_true] at h
  obtain ⟨rfl, htype⟩ := h
  obtain rfl := TypeName.outline_injective htype
  rfl

theorem Param.map_erase_eq_of_outline {ps qs : List Param} (h : ps.map outline = qs.map outline) :
    ps.map erase = qs.map erase := by
  have hfactor : Function.FactorsThrough erase outline := fun _ _ => erase_eq_of_outline
  have : Nonempty Param := ⟨⟨⟨"", default⟩, none⟩⟩
  obtain ⟨restore, hrestore⟩ := (Function.factorsThrough_iff erase).1 hfactor
  rw [hrestore, ← List.map_map, h, List.map_map]

theorem Expr.outline_ne_null (e : Expr) : e.outline ≠ .null := by
  cases e <;> simp [outline]

theorem Stmt.outline_ne_null (s : Stmt) : s.outline ≠ .null := by
  cases s <;> simp [outline]

mutual

-- The kinds of two expressions with equal outlines are equal, as each kind writes its own name under `node`; what
-- is left of the cases are pairs of the same kind, part by part.
theorem Expr.erase_eq_of_outline : ∀ e e' : Expr, (∀ v ∈ e.literals, v.IsFinite) →
    (∀ v ∈ e'.literals, v.IsFinite) → e.outline = e'.outline → e.erase = e'.erase
  | .literal v _, e', hfin, hfin', h => by
    cases e' with
    | literal w _ =>
      have hvalue : v.outline = w.outline := by simpa [outline] using h
      rw [erase, erase, Literal.eq_of_outline (hfin v (by simp [literals])) (hfin' w (by simp [literals])) hvalue]
    | _ => simp [outline] at h
  | .ident name, e', _, _, h => by
    cases e' with
    | ident name' =>
      have hname : name.name = name'.name := by simpa [outline] using h
      rw [erase, erase, Ident.erase, Ident.erase, hname]
    | _ => simp [outline] at h
  | .assign target value _, e', hfin, hfin', h => by
    cases e' with
    | assign target' value' _ =>
      simp only [outline, Json.obj_cons_inj, Json.str.injEq, true_and, and_true] at h
      obtain ⟨htarget, hvalue⟩ := h
      rw [literals] at hfin hfin'
      rw [erase, erase, Ident.erase, Ident.erase, htarget, Expr.erase_eq_of_outline value value' hfin hfin' hvalue]
    | _ => simp [outline] at h
  | .binary op lhs rhs _, e', hfin, hfin', h => by
    cases e' with
    | binary op' lhs' rhs' _ =>
      simp only [outline, Json.obj_cons_inj, Json.str.injEq, true_and, and_true] at h
      obtain ⟨hlhs, hop, hrhs⟩ := h
      rw [literals, List.forall_mem_append] at hfin hfin'
      rw [erase, erase, BinaryOp.symbol_injective hop, Expr.erase_eq_of_outline lhs lhs' hfin.1 hfin'.1 hlhs,
        Expr.erase_eq_of_outline rhs rhs' hfin.2 hfin'.2 hrhs]
    | _ => simp [outline] at h
  | .unary op operand _, e', hfin, hfin', h => by
    cases e' with
    | unary op' operand' _ =>
      simp only [outline, Json.obj_cons_inj, Json.str.injEq, true_and, and_true] at h
      obtain ⟨hop, hoperand⟩ := h
      rw [literals] at hfin hfin'
      rw [erase, erase, UnaryOp.symbol_injective hop,
        Expr.erase_eq_of_outline operand operand' hfin hfin' hoperand]
    | _ => simp [outline] at h
  | .call callee args _, e', hfin, hfin', h => by
    cases e' with
    | call callee' args' _ =>
      simp only [outline, Json.obj_cons_inj, Json.arr.injEq, and_true] at h
      obtain ⟨hargs, hcallee⟩ := h
      rw [literals, List.forall_mem_append] at hfin hfin'
      rw [erase, erase, Expr.erase_eq_of_outline callee callee' hfin.1 hfin'.1 hcallee,
        Expr.eraseAll_eq_of_outlines args args' hfin.2 hfin'.2 hargs]
    | _ => simp [outline] at h

theorem Expr.eraseAll_eq_of_outlines : ∀ es es' : List Expr, (∀ v ∈ Expr.literalsAll es, v.IsFinite) →
    (∀ v ∈ Expr.literalsAll es', v.IsFinite) → Expr.outlines es = Expr.outlines es' →
    Expr.eraseAll es = Expr.eraseAll es'
  | [], [], _, _, _ => rfl
  | [], _ :: _, _, _, h | _ :: _, [], _, _, h => by simp [outlines] at h
  | e :: es, e' :: es', hfin, hfin', h => by
    rw [outlines, outlines, List.cons.injEq] at h
    rw [literalsAll, List.forall_mem_append] at hfin hfin'
    rw [eraseAll, eraseAll, Expr.erase_eq_of_outline e e' hfin.1 hfin'.1 h.1,
      Expr.eraseAll_eq_of_outlines es es' hfin.2 hfin'.2 h.2]

end

theorem Expr.map_erase_eq_of_outlineOption (e e' : Option Expr) (hfin : ∀ v ∈ literalsOption e, v.IsFinite)
    (hfin' : ∀ v ∈ literalsOption e', v.IsFinite) (h : outlineOption e = outlineOption e') :
    e.map erase = e'.map erase := by
  rcases e with _ | e <;> rcases e' with _ | e'
  · rfl
  · exact absurd h.symm e'.outline_ne_null
  · exact absurd h e.outline_ne_null
  · exact congrArg some (erase_eq_of_outline e e' hfin hfin' h)

mutual

theorem Stmt.erase_eq_of_outline : ∀ s s' : Stmt, (∀ v ∈ s.literals, v.IsFinite) →
    (∀ v ∈ s'.literals, v.IsFinite) → s.outline = s'.outline → s.erase = s'.erase
  | .varDecl name type init _, s', hfin, hfin', h => by
    cases s' with
    | varDecl name' type' init' _ =>
      simp only [outline, Json.obj_cons_inj, Json.str.injEq, true_and, and_true] at h
      obtain ⟨hinit, hname, htype⟩ := h
      rw [literals] at hfin hfin'
      rw [erase, erase, Ident.erase, Ident.erase, hname, TypeName.outline_injective htype,
        Expr.map_erase_eq_of_outlineOption init init' hfin hfin' hinit]
    | _ => simp [outline] at h
  | .expr e _, s', hfin, hfin', h => by
    cases s' with
    | expr e' _ =>
      have hexpr : e.outline = e'.outline := by simpa [outline] using h
      rw [literals] at hfin hfin'
      rw [erase, erase, Expr.erase_eq_of_outline e e' hfin hfin' hexpr]
    | _ => simp [outline] at h
  | .print e _, s', hfin, hfin', h => by
    cases s' with
    | print e' _ =>
      have hexpr : e.outline = e'.outline := by simpa [outline] using h
      rw [literals] at hfin hfin'
      rw [erase, erase, Expr.erase_eq_of_outline e e' hfin hfin' hexpr]
    | _ => simp [outline] at h
  | .block body _, s', hfin, hfin', h => by
    cases s' with
    | block body' _ =>
      have hbody : outlines body = outlines body' := by simpa [outline] using h
      rw [literals] at hfin hfin'
      rw [erase, erase, Stmt.eraseAll_eq_of_outlines body body' hfin hfin' hbody]
    | _ => simp [outline] at h
  | .branch cond thenStmt none _, s', hfin, hfin', h => by
    cases s' with
    | branch cond' thenStmt' elseStmt' _ =>
      cases elseStmt' with
      | none =>
        simp only [outline, Json.obj_cons_inj, true_and, and_true] at h
        rw [literals, List.forall_mem_append] at hfin hfin'
        rw [erase, erase, Expr.erase_eq_of_outline cond cond' hfin.1 hfin'.1 h.1,
          Stmt.erase_eq_of_outline thenStmt thenStmt' hfin.2 hfin'.2 h.2]
      | some elseStmt' => simp [outline, elseStmt'.outline_ne_null.symm] at h
    | _ => simp [outline] at h
  | .branch cond thenStmt (some elseStmt) _, s', hfin, hfin', h => by
    cases s' with
    | branch cond' thenStmt' elseStmt' _ =>
      cases elseStmt' with
      | none => simp [outline, elseStmt.outline_ne_null] at h
      | some elseStmt' =>
        simp only [outline, Json.obj_cons_inj, true_and, and_true] at h
        obtain ⟨hcond, helse, hthen⟩ := h
        rw [literals, List.forall_mem_append, List.forall_mem_append] at hfin hfin'
        rw [erase, erase, Expr.erase_eq_of_outline cond cond' hfin.1 hfin'.1 hcond,
          Stmt.erase_eq_of_outline thenStmt thenStmt' hfin.2.1 hfin'.2.1 hthen,
          Stmt.erase_eq_of_outline elseStmt elseStmt' hfin.2.2 hfin'.2.2 helse]
    | _ => simp [outline] at h
  | .loop cond body _, s', hfin, hfin', h => by
    cases s' with
    | loop cond' body' _ =>
      simp only [outline, Json.obj_cons_inj, and_true] at h
      obtain ⟨hbody, hcond⟩ := h
      rw [literals, List.forall_mem_append] at hfin hfin'
      rw [erase, erase, Expr.erase_eq_of_outline cond cond' hfin.1 hfin'.1 hcond,
        Stmt.erase_eq_of_outline body body' hfin.2 hfin'.2 hbody]
    | _ => simp [outline] at h
  | .function name params body _ _, s', hfin, hfin', h => by
    cases s' with
    | function name' params' body' _ _ =>
      simp only [outline, Json.list, Json.obj_cons_inj, Json.str.injEq, Json.arr.injEq, true_and, and_true] at h
      obtain ⟨hbody, hname, hparams⟩ := h
      rw [literals] at hfin hfin'
      rw [erase, erase, Ident.erase, Ident.erase, hname, Param.map_erase_eq_of_outline hparams,
        Stmt.eraseAll_eq_of_outlines body body' hfin hfin' hbody]
    | _ => simp [outline] at h
  | .returnWith value _, s', hfin, hfin', h => by
    cases s' with
    | returnWith value' _ =>
      have hvalue : Expr.outlineOption value = Expr.outlineOption value' := by simpa [outline] using h
      rw [literals] at hfin hfin'
      rw [erase, erase, Expr.map_erase_eq_of_outlineOption value value' hfin hfin' hvalue]
    | _ => simp [outline] at h
  | .breakLoop _, s', _, _, h | .continueLoop _, s', _, _, h => by
    cases s' with
    | breakLoop _ | continueLoop _ => first | rfl | simp [outline] at h
    | _ => simp [outline] at h

theorem Stmt.eraseAll_eq_of_outlines : ∀ ss ss' : List Stmt, (∀ v ∈ Stmt.literalsAll ss, v.IsFinite) →
    (∀ v ∈ Stmt.literalsAll ss', v.IsFinite) → Stmt.outlines ss = Stmt.outlines ss' →
    Stmt.eraseAll ss = Stmt.eraseAll ss'
  | [], [], _, _, _ => rfl
  | [], _ :: _, _, _, h | _ :: _, [], _, _, h => by simp [outlines] at h
  | s :: ss, s' :: ss', hfin, hfin', h => by
    rw [outlines, outlines, List.cons.injEq] at h
    rw [literalsAll, List.forall_mem_append] at hfin hfin'
    rw [eraseAll, eraseAll, Stmt.erase_eq_of_outline s s' hfin.1 hfin'.1 h.1,
      Stmt.eraseAll_eq_of_outlines ss ss' hfin.2 hfin'.2 h.2]

end

namespace Program

theorem erase_eq_of_outline {p q : Program} (hp : ∀ v ∈ p.literals, v.IsFinite) (hq : ∀ v ∈ q.literals, v.IsFinite)
    (h : p.outline = q.outline) : p.erase = q.erase := by
  have hitems : Stmt.outlines p.items = Stmt.outlines q.items := by simpa [outline] using h
  rw [erase, erase, Stmt.eraseAll_eq_of_outlines p.items q.items hp hq hitems]

/-- Outlines are faithful. Two trees whose float literals are finite have the same outline, as a JSON value, if and
only if they are equal but for their spans. Equal floats are floats with equal bits. -/
theorem outline_same_iff (p q : Program) (hp : ∀ v ∈ p.literals, v.IsFinite) (hq : ∀ v ∈ q.literals, v.IsFinite) :
    Json.Same p.outline q.outline ↔ p.erase = q.erase := by
  rw [p.outline_ordered.same_iff q.outline_ordered]
  refine ⟨erase_eq_of_outline hp hq, fun h => ?_⟩
  rw [← p.outline_erase, h, q.outline_erase]

/-- The program that is one `return` with a literal or without a value, all of it at one span. -/
def returning (value : Option Literal) (span : Span) : Program :=
  ⟨[.returnWith (value.map (.literal · span)) span], span⟩

theorem literals_returning (value : Option Literal) (span : Span) : (returning value span).literals = value.toList := by
  cases value <;> rfl

/-- Spans do not show in outlines, but a value is not taken for its absence, nor an integer for a float. -/
theorem outline_same_iff_returning :
    Json.Same (returning (some (.float 0.5)) default).outline
        (returning (some (.float 0.5)) ⟨⟨1, 2, 1⟩, 12⟩).outline ∧
      ¬ Json.Same (returning (some .nil) default).outline (returning none default).outline ∧
      ¬ Json.Same (returning (some (.float 1.0)) default).outline (returning (some (.int 1)) default).outline := by
  have hfin {value : Option Literal} (span : Span) (h : ∀ v ∈ value.toList, v.IsFinite) :
      ∀ v ∈ (returning value span).literals, v.IsFinite := by
    rwa [literals_returning]
  have hhalf : ∀ v ∈ (some (Literal.float 0.5)).toList, v.IsFinite := by
    simp only [Option.toList, List.forall_mem_singleton, Literal.IsFinite]; decide +kernel
  have hone : ∀ v ∈ (some (Literal.float 1.0)).toList, v.IsFinite := by
    simp only [Option.toList, List.forall_mem_singleton, Literal.IsFinite]; decide +kernel
  refine ⟨(outline_same_iff _ _ (hfin _ hhalf) (hfin _ hhalf)).2 rfl, fun h => ?_, fun h => ?_⟩
  · have herase := (outline_same_iff _ _ (hfin _ (by simp [Literal.IsFinite])) (hfin _ (by simp))).1 h
    simp [returning, erase, Stmt.eraseAll, Stmt.erase] at herase
  · have herase := (outline_same_iff _ _ (hfin _ hone) (hfin _ (by simp [Literal.IsFinite]))).1 h
    simp [returning, erase, Stmt.eraseAll, Stmt.erase, Expr.erase] at herase

end Program

end Scriptlet
