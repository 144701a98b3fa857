import Mathlib.Tactic.Ring
import Scriptlet.Piece
import Scriptlet.Proofs.Acceptance.Stmt

/-!
# How tall trees get

`height` counts the nodes on the longest way from the root of a tree to a leaf. Every level of nesting
that the reader counts makes the tree at most one node taller, but the count goes back when an operand in
parentheses, an operand of a sign or an argument has been read, and the operators and calls that follow
count from there again. So the height is not bounded by `maxNesting` but by half its square
(`Program.height_le`).

`Spends room p Q` follows the count through a reader `p`: `room` levels are left before it, and `Q` is told
how many are left after it. The invariant of a chain of operators or calls is that the height reached so far
and the levels left do not add up to more than they did before the first operator: each further operator
adds one to the height and takes one of the levels.
-/

namespace Scriptlet

/-! ### Heights -/

mutual

/-- The number of nodes on the longest way down to a leaf. -/
def Expr.height : Expr → Nat
  | .literal .. | .ident _ => 1
  | .assign _ value _ => 1 + value.height
  | .binary _ lhs rhs _ => 1 + max lhs.height rhs.height
  | .unary _ operand _ => 1 + operand.height
  | .call callee args _ => 1 + max callee.height (Expr.heightAll args)

def Expr.heightAll : List Expr → Nat
  | [] => 0
  | e :: es => max e.height (Expr.heightAll es)

end

def Expr.heightOption : Option Expr → Nat
  | none => 0
  | some e => e.height

mutual

def Stmt.height : Stmt → Nat
  | .varDecl _ _ init _ => 1 + Expr.heightOption init
  | .expr e _ | .print e _ => 1 + e.height
  | .block body _ => 1 + Stmt.heightAll body
  | .branch cond thenStmt none _ => 1 + max cond.height thenStmt.height
  | .branch cond thenStmt (some elseStmt) _ =>
    1 + max cond.height (max thenStmt.height elseStmt.height)
  | .loop cond body _ => 1 + max cond.height body.height
  | .function _ _ body _ _ => 1 + Stmt.heightAll body
  | .returnWith value _ => 1 + Expr.heightOption value
  | .breakLoop _ | .continueLoop _ => 1

def Stmt.heightAll : List Stmt → Nat
  | [] => 0
  | s :: ss => max s.height (Stmt.heightAll ss)

end

/-- The number of statements and expressions on the longest way from the top of a program to a leaf. -/
def Program.height (p : Program) : Nat := Stmt.heightAll p.items

theorem Expr.heightAll_le {es : List Expr} {h : Nat} (hes : ∀ e ∈ es, e.height ≤ h) :
    Expr.heightAll es ≤ h := by
  induction es with
  | nil => exact Nat.zero_le h
  | cons e es ih =>
    rcases List.forall_mem_cons.1 hes with ⟨he, hes⟩
    exact Nat.max_le.2 ⟨he, ih hes⟩

theorem Stmt.heightAll_le {ss : List Stmt} {h : Nat} (hss : ∀ s ∈ ss, s.height ≤ h) :
    Stmt.heightAll ss ≤ h := by
  induction ss with
  | nil => exact Nat.zero_le h
  | cons s ss ih =>
    rcases List.forall_mem_cons.1 hss with ⟨hs, hss⟩
    exact Nat.max_le.2 ⟨hs, ih hss⟩

namespace Reader

/-! ### Levels that are left -/

variable {α β : Type} {room : Nat} {p : Reader α} {Q : α → Nat → Prop}

/-- Run with `room` levels of nesting left, `p` gives up, or its result and the levels left after it
satisfy `Q`. -/
def Spends (room : Nat) (p : Reader α) (Q : α → Nat → Prop) : Prop :=
  ∀ s : State, s.depth + room = maxNesting →
    Ends p s (fun a s' => ∃ left, s'.depth + left = maxNesting ∧ Q a left) fun _ _ => True

namespace Spends

theorem pure {a : α} (h : Q a room) : Spends room (pure a : Reader α) Q :=
  fun _ hs => ⟨room, hs, h⟩

theorem mono {Q' : α → Nat → Prop} (h : Spends room p Q) (hQ : ∀ a left, Q a left → Q' a left) :
    Spends room p Q' :=
  fun s hs => Ends.mono_ok (h s hs) fun a _ ⟨left, hleft, ha⟩ => ⟨left, hleft, hQ a left ha⟩

theorem bind {f : α → Reader β} {Q' : β → Nat → Prop} (hp : Spends room p Q)
    (hf : ∀ a left, Q a left → Spends left (f a) Q') : Spends room (p >>= f) Q' := by
  intro s hs
  rw [ends_bind]
  exact Ends.mono_ok (hp s hs) fun a s' ⟨left, hleft, ha⟩ => hf a left ha s' hleft

/-- A first step that leaves the level as it is. -/
theorem step_bind {f : α → Reader β} {Q' : β → Nat → Prop} (hf : ∀ a, Spends room (f a) Q')
    (hp : ∀ s, Level s p := by intro s; simp [Level, State.report]) : Spends room (p >>= f) Q' := by
  refine bind (Q := fun _ left => left = room) ?_ fun a left hleft => hleft ▸ hf a
  intro s hs
  refine Ends.mono (hp s) (fun _ s' hd => ⟨room, ?_, rfl⟩) fun _ _ _ => trivial
  rw [hd, hs]

theorem giveUp {f : Fault} {span : Span} : Spends room (giveUp f span : Reader α) Q := fun _ _ => trivial

theorem giveUpHere {f : Token → Fault} : Spends room (giveUpHere f : Reader α) Q := fun _ _ => trivial

theorem tooDeep : Spends room (tooDeep : Reader α) Q := fun _ _ => trivial

theorem deepen_bind {f : Unit → Reader α} (h : ∀ left, room = left + 1 → Spends left (f ()) Q) :
    Spends room (deepen >>= f) Q := by
  intro s hs
  rw [ends_bind, ends_deepen]
  split
  · trivial
  · next hdepth =>
    exact h (room - 1) (by omega) { s with depth := s.depth + 1 }
      (show s.depth + 1 + (room - 1) = maxNesting by omega)

theorem nested (h : ∀ left, room = left + 1 → Spends left p fun a _ => Q a room) :
    Spends room (nested p) Q := by
  intro s hs
  rw [ends_nested]
  split
  · trivial
  · next hdepth =>
    have hp := h (room - 1) (by omega) { s with depth := s.depth + 1 }
      (show s.depth + 1 + (room - 1) = maxNesting by omega)
    exact Ends.mono_ok hp fun a _ ⟨_, _, ha⟩ => ⟨room, hs, ha⟩

variable {P : α → Prop}

theorem commaList (h : Spends room p fun a left => left = room ∧ P a) (more : Nat) :
    Spends room (commaList p more) fun as left => left = room ∧ ∀ a ∈ as, P a := by
  induction more with
  | zero =>
    refine h.bind fun a left hitem => .pure ⟨hitem.1, ?_⟩
    simpa using hitem.2
  | succ more ih =>
    refine h.bind fun a left hitem => ?_
    obtain ⟨rfl, ha⟩ := hitem
    refine .step_bind fun yes => ?_
    split
    · exact ih.bind fun as left hitems => .pure ⟨hitems.1, List.forall_mem_cons.2 ⟨ha, hitems.2⟩⟩
    · exact .pure ⟨rfl, by simpa using ha⟩

theorem commaListUntilParen (h : Spends room p fun a left => left = room ∧ P a) :
    Spends room (commaListUntilParen p) fun as left => left = room ∧ ∀ a ∈ as, P a := by
  refine .step_bind fun yes => ?_
  split
  · exact .pure ⟨rfl, List.forall_mem_nil _⟩
  · exact .step_bind fun s => h.commaList s.rest.length

/-- What is read one after the other with recovery. -/
theorem many (stop : Token.Kind → Bool) (h : Spends room p fun a left => left = room ∧ P a)
    (hlevel : ∀ s, Level s p) (most : Nat) (s : State) (hs : s.depth + room = maxNesting) :
    ∀ a ∈ (many stop p most s).1, P a := by
  induction most generalizing s with
  | zero => exact List.forall_mem_nil _
  | succ most ih =>
    unfold Reader.many
    split
    · exact List.forall_mem_nil _
    · have hrest := ih (recovering p s).2 (by rw [recovering_depth (hlevel s), hs])
      refine List.forall_mem_append.2 ⟨?_, hrest⟩
      -- a reader that gives up adds nothing to the list
      have hfirst := h s hs
      unfold recovering
      unfold Ends at hfirst
      cases hp : p s with
      | ok a s' =>
        rw [hp] at hfirst
        rcases hfirst with ⟨left, _, _, ha⟩
        simpa using ha
      | error e s' => exact List.forall_mem_nil _

theorem manyUntil (stop : Token.Kind → Bool) (h : Spends room p fun a left => left = room ∧ P a)
    (hlevel : ∀ s, Level s p) :
    Spends room (modifyGet (manyUntil stop p)) fun as left => left = room ∧ ∀ a ∈ as, P a := by
  intro s hs
  refine ⟨room, ?_, rfl, h.many stop hlevel s.rest.length s hs⟩
  show (Reader.many stop p s.rest.length s).2.depth + room = maxNesting
  rw [many_depth stop hlevel, hs]

end Spends

end Reader

open Reader

/-! ### Expressions -/

/-- The height that an expression can have if `room` levels are left where it is read. -/
def tallest (room : Nat) : Nat := room * room / 2 + 1

theorem tallest_mono {a b : Nat} (h : a ≤ b) : tallest a ≤ tallest b :=
  Nat.succ_le_succ (Nat.div_le_div_right (Nat.mul_le_mul h h))

theorem one_le_tallest (n : Nat) : 1 ≤ tallest n := Nat.succ_le_succ (Nat.zero_le _)

/-- A chain of operators or calls, one for each level. -/
theorem tallest_chain (n : Nat) : tallest n + n ≤ tallest (n + 1) := by
  have : (n + 1) * (n + 1) = n * n + 2 * n + 1 := by ring
  unfold tallest
  omega

/-- A sign before a chain of calls, and then a chain of operators. -/
theorem tallest_sign (n : Nat) : tallest n + n + 1 + (n + 1) ≤ tallest (n + 1 + 1) := by
  have : (n + 1 + 1) * (n + 1 + 1) = n * n + 4 * n + 4 := by ring
  unfold tallest
  omega

theorem tallest_succ {n : Nat} (h : 0 < n) : tallest n + 1 ≤ tallest (n + 1) := by
  have := tallest_chain n
  omega

namespace Expr

mutual

theorem read_height (n room : Nat) :
    Spends room (read n) fun e left => left = room ∧ 0 < room ∧ e.height ≤ tallest room := by
  cases n with
  | zero =>
    rw [read]
    exact .tooDeep
  | succ n =>
    rw [read]
    refine .nested fun left hroom => ?_
    subst hroom
    exact (readAssignment_height n left).mono fun e _ he => ⟨rfl, Nat.succ_pos _, he⟩
termination_by (n, 0)

theorem readAssignment_height (n room : Nat) :
    Spends room (readAssignment n) fun e _ => e.height ≤ tallest (room + 1) := by
  rw [readAssignment]
  refine (readBinary_height n 1 room).bind fun target left ⟨hleft, htarget⟩ => .step_bind fun yes => ?_
  split
  · refine .step_bind fun equal => (read_height n left).bind fun value _ ⟨_, hpos, hvalue⟩ => ?_
    cases target with
    | ident name =>
      refine .pure ?_
      have hsucc := tallest_succ hpos
      have hmono := tallest_mono (show left + 1 ≤ room + 1 by omega)
      simp only [height]
      omega
    | _ => exact .giveUp
  · exact .pure (by omega)
termination_by (n, 6)

theorem readBinary_height (n least room : Nat) :
    Spends room (readBinary n least) fun e left =>
      left ≤ room ∧ e.height + left ≤ tallest (room + 1) := by
  rw [readBinary]
  refine (readUnary_height n room).bind fun lhs left ⟨hleft, _, hlhs⟩ => ?_
  refine (readBinaryRest_height n least lhs hlhs (tallest_mono (Nat.succ_le_succ hleft))).mono ?_
  exact fun e rest ⟨hrest, he⟩ => ⟨Nat.le_trans hrest hleft, he⟩
termination_by (n, 5)

/-- The height and the levels left stay below `most`, whatever operators follow. -/
theorem readBinaryRest_height (n least : Nat) (lhs : Expr) {room most : Nat}
    (hlhs : lhs.height + room ≤ most) (hmost : tallest (room + 1) ≤ most) :
    Spends room (readBinaryRest n least lhs) fun e left => left ≤ room ∧ e.height + left ≤ most := by
  rw [readBinaryRest]
  refine .step_bind fun k => ?_
  split
  · exact .pure ⟨Nat.le_refl _, hlhs⟩
  · next op hop =>
    split
    · exact .pure ⟨Nat.le_refl _, hlhs⟩
    · refine .step_bind fun _ => .deepen_bind fun inner hroom => ?_
      subst hroom
      cases n with
      | zero => exact .tooDeep
      | succ n =>
        refine (readBinary_height n _ inner).bind fun rhs left ⟨hleft, hrhs⟩ => ?_
        have hsucc := tallest_succ (show 0 < inner + 1 by omega)
        have hmono := tallest_mono (show left + 1 ≤ inner + 1 + 1 by omega)
        have hboth : (binary op lhs rhs (lhs.span.join rhs.span)).height + left ≤ most := by
          simp only [height]
          omega
        refine (readBinaryRest_height n least _ hboth (by omega)).mono fun e rest ⟨hrest, he⟩ => ?_
        exact ⟨by omega, he⟩
termination_by (n, 4)

/-- The first bound is for a sign in front, which gives back the levels that the calls in its operand
took; the second is for the operators that follow. -/
theorem readUnary_height (n room : Nat) :
    Spends room (readUnary n) fun e left =>
      left ≤ room ∧ e.height ≤ tallest room + room ∧ e.height + left ≤ tallest (room + 1) := by
  rw [readUnary.eq_def]
  refine .step_bind fun k => ?_
  split
  · refine (readCall_height n room).mono fun e left ⟨hleft, he⟩ => ?_
    have := tallest_chain room
    exact ⟨hleft, by omega, by omega⟩
  · refine .step_bind fun start => ?_
    refine Spends.bind (Q := fun e left => left = room ∧ ∃ inner, room = inner + 1 ∧
      e.height ≤ tallest inner + inner) ?_ fun operand left hoperand => ?_
    · refine .nested fun inner hroom => ?_
      cases n with
      | zero => exact .tooDeep
      | succ n =>
        exact (readUnary_height n inner).mono fun e _ ⟨_, he, _⟩ => ⟨rfl, inner, hroom, he⟩
    · rcases hoperand with ⟨rfl, inner, rfl, hoperand⟩
      refine .pure ?_
      have hsign := tallest_sign inner
      have hmono := tallest_mono (show inner ≤ inner + 1 by omega)
      simp only [height]
      exact ⟨Nat.le_refl _, by omega, by omega⟩
termination_by (n, 3)

theorem readCall_height (n room : Nat) :
    Spends room (readCall n) fun e left => left ≤ room ∧ e.height + left ≤ tallest room + room := by
  rw [readCall]
  refine (readPrimary_height n room).bind fun callee left ⟨hleft, hcallee⟩ => ?_
  subst hleft
  exact readCallRest_height n callee (by omega) (Nat.le_refl _)
termination_by (n, 2)

theorem readCallRest_height (n : Nat) (callee : Expr) {room most : Nat}
    (hcallee : callee.height + room ≤ most) (hmost : tallest room + room ≤ most) :
    Spends room (readCallRest n callee) fun e left => left ≤ room ∧ e.height + left ≤ most := by
  rw [readCallRest]
  refine .step_bind fun yes => ?_
  split
  · refine .deepen_bind fun inner hroom => .step_bind fun opening => ?_
    subst hroom
    cases n with
    | zero => exact .tooDeep
    | succ n =>
      have harg : Spends inner (read n) fun e left => left = inner ∧ e.height ≤ tallest inner :=
        (read_height n inner).mono fun e _ ⟨hleft, _, he⟩ => ⟨hleft, he⟩
      refine harg.commaListUntilParen.bind fun args left ⟨hleft, hargs⟩ => .step_bind fun closing => ?_
      subst hleft
      have hall := heightAll_le hargs
      have hmono := tallest_mono (show left ≤ left + 1 by omega)
      have hcall : (call callee args (callee.span.join closing.span)).height + left ≤ most := by
        simp only [height]
        omega
      refine (readCallRest_height n _ hcall (by omega)).mono fun e rest ⟨hrest, he⟩ => ?_
      exact ⟨by omega, he⟩
  · exact .pure ⟨Nat.le_refl _, hcallee⟩
termination_by (n, 1)

theorem readPrimary_height (n room : Nat) :
    Spends room (readPrimary n) fun e left => left = room ∧ e.height ≤ tallest room := by
  have hone := one_le_tallest room
  rw [readPrimary]
  refine .step_bind fun token => ?_
  split
  · exact .step_bind fun _ => .pure ⟨rfl, by simpa only [height] using hone⟩
  · split
    · exact .step_bind fun _ => .pure ⟨rfl, by simpa only [height] using hone⟩
    · split
      · refine .step_bind fun opening => (read_height n room).bind fun inner left ⟨hleft, _, hinner⟩ => ?_
        exact .step_bind fun _ => .pure ⟨hleft, hinner⟩
      · exact .giveUpHere
termination_by (n, 1)

end

end Expr

/-! ### Statements -/

namespace Stmt

/-- An expression or a statement of height `h` can stand inside a statement in which `room` levels are
left. Without a level left there is none. -/
structure Fits (room h : Nat) : Prop where
  pos : 0 < room
  le : h ≤ tallest room

/-- The height of a statement in which `room` levels are left. -/
def most (room : Nat) : Nat := if room = 0 then 1 else tallest room + 1

theorem one_le_most (room : Nat) : 1 ≤ most room := by
  unfold most
  split <;> omega

theorem Fits.one_add {room h : Nat} (hh : Fits room h) : 1 + h ≤ most room := by
  have hpos := hh.pos
  have hle := hh.le
  unfold most
  split <;> omega

theorem Fits.of_most {room h : Nat} (hh : h ≤ most room) : Fits (room + 1) h := by
  refine ⟨Nat.succ_pos room, Nat.le_trans hh ?_⟩
  unfold most
  split
  · exact one_le_tallest _
  · exact tallest_succ (by omega)

theorem Fits.max {room h h' : Nat} (hh : Fits room h) (hh' : Fits room h') : Fits room (max h h') :=
  ⟨hh.pos, Nat.max_le.2 ⟨hh.le, hh'.le⟩⟩

theorem expr_fits (n room : Nat) :
    Spends room (Expr.read n) fun e left => left = room ∧ Fits room e.height :=
  (Expr.read_height n room).mono fun _ _ ⟨hleft, hpos, he⟩ => ⟨hleft, hpos, he⟩

theorem readCondition_fits (n room : Nat) (word : String) :
    Spends room (readCondition n word) fun e left => left = room ∧ Fits room e.height := by
  refine .step_bind fun opening => (expr_fits n room).bind fun cond left ⟨hleft, hcond⟩ => ?_
  exact .step_bind fun _ => .pure ⟨hleft, hcond⟩

variable {n room : Nat} {start : Span}

theorem readVarDecl_height (type : Option TypeName) :
    Spends room (readVarDecl n start type) fun s _ => s.height ≤ most room := by
  refine .step_bind (fun name => .step_bind fun yes => ?_) fun s => ?_
  · have hend (init : Option Expr) (hinit : 1 + Expr.heightOption init ≤ most room) : Spends room
        (do let _ ← expectSemicolon "after variable declaration"
            return Stmt.varDecl name type init ((← get).spanFrom start))
        fun s _ => s.height ≤ most room :=
      .step_bind fun _ => .step_bind fun _ => .pure (by simpa only [height] using hinit)
    split
    · rw [bind_map_left]
      refine (expr_fits n room).bind fun e left ⟨hleft, he⟩ => ?_
      subst hleft
      exact hend (some e) he.one_add
    · exact hend none (one_le_most room)
  · unfold Ident.read
    simp [Level, State.report]

theorem readReturn_height :
    Spends room (readReturn n start) fun s _ => s.height ≤ most room := by
  refine .step_bind fun _ => .step_bind fun yes => ?_
  have hend (value : Option Expr) (hvalue : 1 + Expr.heightOption value ≤ most room) : Spends room
      (do let _ ← expectSemicolon "after return value"
          return Stmt.returnWith value ((← get).spanFrom start))
      fun s _ => s.height ≤ most room :=
    .step_bind fun _ => .step_bind fun _ => .pure (by simpa only [height] using hvalue)
  split
  · exact hend none (one_le_most room)
  · rw [bind_map_left]
    refine (expr_fits n room).bind fun e left ⟨hleft, he⟩ => ?_
    subst hleft
    exact hend (some e) he.one_add

theorem readPrint_height : Spends room (readPrint n start) fun s _ => s.height ≤ most room := by
  refine .step_bind fun _ => (readCondition_fits n room _).bind fun e left ⟨hleft, he⟩ => ?_
  subst hleft
  exact .step_bind fun _ => .step_bind fun _ => .pure (by simpa only [height] using he.one_add)

theorem readExpr_height : Spends room (readExpr n start) fun s _ => s.height ≤ most room := by
  refine (expr_fits n room).bind fun e left ⟨hleft, he⟩ => ?_
  subst hleft
  exact .step_bind fun _ => .step_bind fun _ => .pure (by simpa only [height] using he.one_add)

/-- The statements of a block, if it has any, fit. -/
theorem one_add_heightAll {body : List Stmt} (h : ∀ s ∈ body, Fits room s.height) :
    1 + heightAll body ≤ most room := by
  cases body with
  | nil => exact one_le_most room
  | cons s body =>
    have hpos := (h s List.mem_cons_self).pos
    exact Fits.one_add ⟨hpos, heightAll_le fun s hs => (h s hs).le⟩

variable {stmt : Reader Stmt} (hstmt : Spends room stmt fun s left => left = room ∧ Fits room s.height)
  (hlevel : ∀ s, Level s stmt)

include hstmt hlevel

theorem readBlock_height :
    Spends room (readBlock stmt) fun block left => left = room ∧ 1 + heightAll block.1 ≤ most room := by
  refine .step_bind fun opening => (hstmt.manyUntil endsBlock hlevel).bind fun body left ⟨hleft, hbody⟩ => ?_
  subst hleft
  have hheight := one_add_heightAll hbody
  refine .step_bind fun yes => ?_
  split
  · exact .step_bind fun closing => .pure ⟨rfl, hheight⟩
  · exact .step_bind fun _ => .step_bind fun _ => .pure ⟨rfl, hheight⟩

theorem readFunction_height : Spends room (readFunction stmt) fun s _ => s.height ≤ most room := by
  refine .step_bind fun start => .step_bind (fun name => .step_bind fun opening => ?_) fun s => ?_
  · refine .step_bind (fun params => .step_bind fun _ => ?_) (level_commaListUntilParen Param.level_read)
    refine (readBlock_height hstmt hlevel).bind fun ⟨body, braces⟩ left ⟨_, hbody⟩ => ?_
    refine .step_bind fun s => ?_
    have hend : (function name params body braces (start.span.join braces)).height ≤ most room := by
      simpa only [height] using hbody
    split
    · exact .step_bind fun _ => .pure hend
    · exact .pure hend
  · unfold Ident.read
    simp [Level, State.report]

omit hstmt hlevel

mutual

theorem read_height (n room : Nat) :
    Spends room (read n) fun s left => left = room ∧ Fits room s.height := by
  cases n with
  | zero =>
    rw [read]
    exact .tooDeep
  | succ n =>
    rw [read]
    refine .nested fun left hroom => ?_
    subst hroom
    exact (readInner_height n left).mono fun s _ hs => ⟨rfl, .of_most hs⟩
termination_by (n, 0)

theorem readInner_height (n room : Nat) : Spends room (readInner n) fun s _ => s.height ≤ most room := by
  have hend (s : Stmt) (hs : s.height = 1) : s.height ≤ most room := hs ▸ one_le_most room
  rw [readInner]
  refine .step_bind fun token => .step_bind fun k => ?_
  split
  · exact .step_bind fun _ => readVarDecl_height none
  · exact .step_bind fun _ => readVarDecl_height _
  · exact .step_bind fun _ => readVarDecl_height _
  · exact .step_bind fun _ => readVarDecl_height _
  · exact .step_bind fun _ => readVarDecl_height _
  · exact readFunction_height (read_height n room) (level_read n)
  · exact readBranch_height n room _
  · refine .step_bind fun _ => (readCondition_fits n room _).bind fun cond left ⟨hleft, hcond⟩ => ?_
    subst hleft
    refine (read_height n left).bind fun body _ ⟨_, hbody⟩ => .step_bind fun _ => .pure ?_
    simpa only [height] using (hcond.max hbody).one_add
  · refine (readBlock_height (read_height n room) (level_read n)).bind fun ⟨body, span⟩ _ ⟨_, hbody⟩ => ?_
    exact .pure (by simpa only [height] using hbody)
  · exact readReturn_height
  · exact readPrint_height
  · exact .step_bind fun _ => .step_bind fun _ => .step_bind fun _ => .pure (hend _ (by simp only [height]))
  · exact .step_bind fun _ => .step_bind fun _ => .step_bind fun _ => .pure (hend _ (by simp only [height]))
  · exact .giveUpHere
  · exact readExpr_height
termination_by (n, 2)

theorem readBranch_height (n room : Nat) (start : Span) :
    Spends room (readBranch n start) fun s _ => s.height ≤ most room := by
  rw [readBranch]
  refine .step_bind fun _ => (readCondition_fits n room _).bind fun cond left ⟨hleft, hcond⟩ => ?_
  subst hleft
  refine (read_height n left).bind fun thenStmt left ⟨hleft, hthen⟩ => .step_bind fun yes => ?_
  subst hleft
  have hend (elseStmt : Option Stmt) (helse : ∀ s, elseStmt = some s → Fits left s.height) : Spends left
      (do return Stmt.branch cond thenStmt elseStmt ((← get).spanFrom start))
      fun s _ => s.height ≤ most left := by
    refine .step_bind fun _ => .pure ?_
    cases elseStmt with
    | none => simpa only [height] using (hcond.max hthen).one_add
    | some s => simpa only [height] using (hcond.max (hthen.max (helse s rfl))).one_add
  split
  · rw [bind_map_left]
    refine (read_height n left).bind fun elseStmt _ ⟨hleft, helse⟩ => ?_
    subst hleft
    exact hend (some elseStmt) fun s hs => Option.some.inj hs ▸ helse
  · exact hend none nofun
termination_by (n, 1)

end

end Stmt

theorem Program.height_le (tokens : List Token) :
    (ofTokens tokens).program.height ≤ Stmt.most (maxNesting - 1) := by
  have hread : Spends maxNesting (Stmt.read maxNesting)
      fun s left => left = maxNesting ∧ s.height ≤ Stmt.most (maxNesting - 1) := by
    rw [show maxNesting = 127 + 1 from rfl, Stmt.read]
    refine .nested fun left hleft => ?_
    obtain rfl : left = 127 := by omega
    exact (Stmt.readInner_height 127 127).mono fun s _ hs => ⟨rfl, hs⟩
  let start := State.ofTokens tokens
  exact Stmt.heightAll_le (hread.many (· = .eof) (Stmt.level_read maxNesting) start.rest.length start rfl)

end Scriptlet
