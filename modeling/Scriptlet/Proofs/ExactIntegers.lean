import Mathlib.Algebra.Group.Int.Defs
import Scriptlet.Proofs.RunSteps

/-!
# Integers are computed exactly

An expression of integers has an exact value, and so has each of its parts (`Expr.exact`). The operators at its
nodes are applied one after the other, from left to right (`Expr.operations`), each to the exact values of its
operands. As long as every operator has a result within 64 bits the run computes just these values; at the first
one that has none the run fails, at the place of that node (`Run.eval_integral`).
-/

namespace Scriptlet

namespace Run

/-! ### Integers of 64 bits -/

/-- Whether 64 bits are enough for an integer. -/
def IsInt64 (n : Int) : Prop := -2 ^ 63 ≤ n ∧ n < 2 ^ 63

instance (n : Int) : Decidable (IsInt64 n) := inferInstanceAs (Decidable (_ ∧ _))

theorem isInt64_toInt (n : Int64) : IsInt64 n.toInt := ⟨n.le_toInt, n.toInt_lt⟩

theorem IsInt64.toInt_ofInt {n : Int} (h : IsInt64 n) : (Int64.ofInt n).toInt = n :=
  Int64.toInt_ofInt_of_le h.1 h.2

theorem int64OfInt?_eq (n : Int) : int64OfInt? n = if IsInt64 n then some (.ofInt n) else none := by
  have hmin : Int64.minValue.toInt = -2 ^ 63 := by decide
  have hmax : Int64.maxValue.toInt = 2 ^ 63 - 1 := by decide
  have hrange : (Int64.minValue.toInt ≤ n ∧ n ≤ Int64.maxValue.toInt) ↔ IsInt64 n := by
    rw [hmin, hmax, IsInt64]
    omega
  simp only [int64OfInt?, hrange]

/-- A quotient is out of range in one case only. -/
theorem isInt64_tdiv_iff {a b : Int} (ha : IsInt64 a) (hb : b ≠ 0) :
    IsInt64 (a.tdiv b) ↔ ¬ (a = -2 ^ 63 ∧ b = -1) := by
  unfold IsInt64 at ha ⊢
  by_cases hone : b.natAbs = 1
  · rcases (by omega : b = 1 ∨ b = -1) with rfl | rfl
    · rw [Int.tdiv_one]
      omega
    · rw [Int.tdiv_neg, Int.tdiv_one]
      omega
  · -- by any other divisor the quotient is at most half of what is divided
    have habs : (a.tdiv b).natAbs = a.natAbs / b.natAbs := Int.natAbs_tdiv a b
    have hhalf : a.natAbs / b.natAbs ≤ a.natAbs / 2 := Nat.div_le_div_left (by omega) (by decide)
    omega

/-! ### Operations -/

namespace Arithmetic

/-- The operator that is written for an operation. -/
def operator : Arithmetic → BinaryOp
  | add => .add
  | sub => .sub
  | mul => .mul
  | div => .div
  | rem => .rem

/-- The result among all integers. A quotient is rounded toward zero, and a remainder has the sign of what is
divided. -/
def exact : Arithmetic → Int → Int → Int
  | add, a, b => a + b
  | sub, a, b => a - b
  | mul, a, b => a * b
  | div, a, b => a.tdiv b
  | rem, a, b => a.tmod b

theorem of_operator (op : Arithmetic) : OpForm.of op.operator = .strict (.arithmetic op) := by
  cases op <;> rfl

end Arithmetic

/-- An operator at a node of an expression, with the integers that it is applied to. -/
inductive Operation where
  | negation (a : Int) (span : Span)
  | binary (op : Arithmetic) (a b : Int) (span : Span)

namespace Operation

def span : Operation → Span
  | negation _ span | binary _ _ _ span => span

def symbol : Operation → String
  | negation .. => UnaryOp.neg.symbol
  | binary op .. => op.operator.symbol

def result : Operation → Int
  | negation a _ => -a
  | binary op a b _ => op.exact a b

/-- A division, or the remainder of one, by zero. -/
def ByZero : Operation → Prop
  | binary .div _ b _ | binary .rem _ b _ => b = 0
  | _ => False

instance : DecidablePred ByZero := fun
  | binary .div _ b _ | binary .rem _ b _ => inferInstanceAs (Decidable (b = 0))
  | binary .add .. | binary .sub .. | binary .mul .. | negation .. => inferInstanceAs (Decidable False)

/-- The remainder of the one division whose quotient is out of range. -/
def Overflows : Operation → Prop
  | binary .rem a b _ => a = -2 ^ 63 ∧ b = -1
  | _ => False

instance : DecidablePred Overflows := fun
  | binary .rem a b _ => inferInstanceAs (Decidable (a = -2 ^ 63 ∧ b = -1))
  | binary .add .. | binary .sub .. | binary .mul .. | binary .div .. | negation .. =>
    inferInstanceAs (Decidable False)

/-- The divisor is not zero, and the result is within 64 bits. The remainder counts as out of range where
the quotient is. -/
structure Sound (o : Operation) : Prop where
  nonzero : ¬ o.ByZero
  inRange : IsInt64 o.result
  quotient : ¬ o.Overflows

instance : DecidablePred Sound := fun o =>
  decidable_of_iff (¬ o.ByZero ∧ IsInt64 o.result ∧ ¬ o.Overflows)
    ⟨fun h => ⟨h.1, h.2.1, h.2.2⟩, fun h => ⟨h.nonzero, h.inRange, h.quotient⟩⟩

def zeroFault : Operation → Fault
  | binary .rem .. => .moduloByZero
  | _ => .divisionByZero

/-- What is wrong with an operation that is not sound. -/
def fault (o : Operation) : Fault :=
  if o.ByZero then o.zeroFault else .integerOverflow o.symbol

theorem fault_code (o : Operation) :
    o.fault.code = if o.ByZero then .divisionByZero else .integerOverflow := by
  unfold fault
  split
  · unfold zeroFault
    split <;> rfl
  · rfl

/-- What comes of an operation. -/
def outcome (o : Operation) : Except Fault Value :=
  if o.Sound then .ok (.int (.ofInt o.result)) else .error o.fault

theorem outcome_of_range {o : Operation} (hzero : ¬ o.ByZero) (hquotient : ¬ o.Overflows) :
    inRange o.symbol (int64OfInt? o.result) = o.outcome := by
  rw [int64OfInt?_eq, outcome]
  by_cases hrange : IsInt64 o.result
  · rw [if_pos hrange, if_pos ⟨hzero, hrange, hquotient⟩]
    rfl
  · rw [if_neg hrange, if_neg fun h => hrange h.inRange, fault, if_neg hzero]
    rfl

theorem outcome_of_zero {o : Operation} (h : o.ByZero) : o.outcome = .error o.zeroFault := by
  rw [outcome, if_neg fun hsound => hsound.nonzero h, fault, if_pos h]

end Operation

theorem applyUnary_exact (n : Int64) (span : Span) :
    applyUnary .neg (.int n) = (Operation.negation n.toInt span).outcome :=
  Operation.outcome_of_range (o := .negation n.toInt span) id id

theorem remainder?_eq {a b : Int} (ha : IsInt64 a) (hb : b ≠ 0) :
    remainder? a b = if a = -2 ^ 63 ∧ b = -1 then none else int64OfInt? (a.tmod b) := by
  rw [remainder?, int64OfInt?_eq (a.tdiv b)]
  by_cases hmin : a = -2 ^ 63 ∧ b = -1
  · rw [if_pos hmin, if_neg (mt (isInt64_tdiv_iff ha hb).1 (not_not_intro hmin))]
    rfl
  · rw [if_neg hmin, if_pos ((isInt64_tdiv_iff ha hb).2 hmin)]
    rfl

/-- An operator on two integers of 64 bits does to them what it does to integers. -/
theorem onInts_exact (op : Arithmetic) (m n : Int64) (span : Span) :
    op.onInts op.operator.symbol m n = (Operation.binary op m.toInt n.toInt span).outcome := by
  have hzero : n = 0 ↔ n.toInt = 0 := (Int64.toInt_inj (y := 0)).symm
  cases op with
  | add => exact Operation.outcome_of_range (o := .binary .add _ _ span) id id
  | sub => exact Operation.outcome_of_range (o := .binary .sub _ _ span) id id
  | mul => exact Operation.outcome_of_range (o := .binary .mul _ _ span) id id
  | div =>
    by_cases hn : n = 0
    · rw [Arithmetic.onInts, if_pos hn]
      exact (Operation.outcome_of_zero (o := .binary .div _ _ span) (hzero.1 hn)).symm
    · rw [Arithmetic.onInts, if_neg hn]
      exact Operation.outcome_of_range (o := .binary .div _ _ span) (mt hzero.2 hn) id
  | rem =>
    by_cases hn : n = 0
    · rw [Arithmetic.onInts, if_pos hn]
      exact (Operation.outcome_of_zero (o := .binary .rem _ _ span) (hzero.1 hn)).symm
    · have hne : ¬ (Operation.binary .rem m.toInt n.toInt span).ByZero := mt hzero.2 hn
      rw [Arithmetic.onInts, if_neg hn, remainder?_eq (isInt64_toInt m) hne]
      by_cases hmin : m.toInt = -2 ^ 63 ∧ n.toInt = -1
      · rw [if_pos hmin, Operation.outcome, if_neg fun h => h.quotient hmin, Operation.fault, if_neg hne]
        rfl
      · rw [if_neg hmin]
        exact Operation.outcome_of_range (o := .binary .rem _ _ span) hne hmin

/-- The integer that a name stands for, and 0 if it does not stand for one. -/
def State.intAt (s : State) (name : String) : Int :=
  match s.binding? name with
  | some ⟨.int n, _, _⟩ => n.toInt
  | _ => 0

end Run

open Run

/-! ### Expressions -/

namespace Expr

/-- Expressions that are made up of integer literals, names of integer variables, signs and the operators
`+`, `-`, `*`, `/` and `%`. -/
inductive Integral (s : State) : Expr → Prop
  | literal (n : Int64) (span : Span) : Integral s (.literal (.int n) span)
  | ident {name : Ident} {n : Int64} {declared : Option Ty} {declaredAt : Span}
      (h : s.binding? name.name = some ⟨.int n, declared, declaredAt⟩) : Integral s (.ident name)
  | negation {operand : Expr} (h : Integral s operand) (span : Span) : Integral s (.unary .neg operand span)
  | binary (op : Arithmetic) {lhs rhs : Expr} (hlhs : Integral s lhs) (hrhs : Integral s rhs) (span : Span) :
      Integral s (.binary op.operator lhs rhs span)

/-- The value of an expression of integers, among all integers. -/
def exact (s : State) : Expr → Int
  | .literal (.int n) _ => n.toInt
  | .ident name => s.intAt name.name
  | .unary .neg operand _ => -exact s operand
  | .binary op lhs rhs _ =>
    match OpForm.of op with
    | .strict (.arithmetic a) => a.exact (exact s lhs) (exact s rhs)
    | _ => 0
  | _ => 0

/-- The operations of an expression of integers in the order in which they are carried out. -/
def operations (s : State) : Expr → List Operation
  | .unary .neg operand span => operations s operand ++ [.negation (operand.exact s) span]
  | .binary op lhs rhs span =>
    match OpForm.of op with
    | .strict (.arithmetic a) =>
      operations s lhs ++ operations s rhs ++ [.binary a (lhs.exact s) (rhs.exact s) span]
    | _ => []
  | _ => []

variable {s : State}

@[simp] theorem exact_negation (operand : Expr) (span : Span) :
    (Expr.unary .neg operand span).exact s = -operand.exact s := by
  rw [exact]

@[simp] theorem operations_negation (operand : Expr) (span : Span) :
    (Expr.unary .neg operand span).operations s = operand.operations s ++ [.negation (operand.exact s) span] := by
  rw [operations]

@[simp] theorem exact_binary (op : Arithmetic) (lhs rhs : Expr) (span : Span) :
    (Expr.binary op.operator lhs rhs span).exact s = op.exact (lhs.exact s) (rhs.exact s) := by
  rw [exact, op.of_operator]

@[simp] theorem operations_binary (op : Arithmetic) (lhs rhs : Expr) (span : Span) :
    (Expr.binary op.operator lhs rhs span).operations s =
      lhs.operations s ++ rhs.operations s ++ [.binary op (lhs.exact s) (rhs.exact s) span] := by
  rw [operations, op.of_operator]

/-- The first operation that is not sound. -/
def offence? (s : State) (e : Expr) : Option Operation :=
  (e.operations s).find? fun o => !decide o.Sound

end Expr

namespace Run

variable {s : State} {e : Expr} {b : Bounds} {call : Caller}

/-- How the value of an expression of integers is computed: exactly, or not further than to the operation `o`
that is not sound. -/
inductive Computed (b : Bounds) (call : Caller) (s : State) (e : Expr) : Option Operation → Prop
  | exact {n : Int64} (hn : n.toInt = e.exact s) (h : eval b call e s = .ok (.int n) s) : Computed b call s e none
  | fault {o : Operation} (h : eval b call e s = .error ⟨o.fault, o.span⟩ s) : Computed b call s e (some o)

/-- After its operands have been computed, an operation is carried out. -/
theorem Operation.computed {o : Operation} (heval : eval b call e s = lift o.span o.outcome s)
    (hresult : o.result = e.exact s) : Computed b call s e ([o].find? fun o => !decide o.Sound) := by
  by_cases hsound : o.Sound
  · rw [outcome, if_pos hsound] at heval
    have hvalue : (Int64.ofInt o.result).toInt = e.exact s := hsound.inRange.toInt_ofInt.trans hresult
    simpa [hsound] using Computed.exact hvalue heval
  · rw [outcome, if_neg hsound] at heval
    simpa [hsound] using Computed.fault heval

/-- What is computed is exact up to the first operation that is not sound. -/
theorem eval_computed (b : Bounds) (call : Caller) (h : e.Integral s) :
    Computed b call s e (e.offence? s) := by
  induction h with
  | literal n span =>
    refine .exact (n := n) ?_ ?_
    · rw [Expr.exact]
    · unfold eval
      rfl
  | @ident name n declared declaredAt hbinding =>
    refine .exact (n := n) ?_ ?_
    · rw [Expr.exact, State.intAt, hbinding]
    · unfold eval
      exact load_of_binding hbinding
  | @negation operand _ span ih =>
    rw [Expr.offence?, Expr.operations_negation, List.find?_append]
    generalize hoffence : operand.offence? s = offence at ih
    rw [Expr.offence?] at hoffence
    rw [hoffence]
    cases ih with
    | fault hfault => exact .fault (by unfold eval; exact bind_of_error hfault)
    | @exact n hn hvalue =>
      refine Operation.computed (o := .negation (operand.exact s) span) ?_ (Expr.exact_negation ..).symm
      rw [← hn, ← applyUnary_exact]
      unfold eval
      exact bind_of_ok hvalue
  | @binary op lhs rhs _ _ span ihl ihr =>
    rw [Expr.offence?, Expr.operations_binary, List.find?_append, List.find?_append]
    generalize hleft : lhs.offence? s = left at ihl
    generalize hright : rhs.offence? s = right at ihr
    rw [Expr.offence?] at hleft hright
    rw [hleft, hright]
    cases ihl with
    | fault hfault =>
      refine .fault ?_
      unfold eval
      rw [op.of_operator]
      exact bind_of_error hfault
    | @exact m hm hlhs =>
      cases ihr with
      | fault hfault =>
        refine .fault ?_
        unfold eval
        rw [op.of_operator]
        exact (bind_of_ok hlhs).trans (bind_of_error hfault)
      | @exact n hn hrhs =>
        refine Operation.computed (o := .binary op (lhs.exact s) (rhs.exact s) span) ?_ (Expr.exact_binary ..).symm
        rw [← hm, ← hn, ← onInts_exact]
        unfold eval
        rw [op.of_operator]
        exact (bind_of_ok hlhs).trans (bind_of_ok hrhs)

/-- Integers are computed exactly, or the run fails at the right place. An expression of integer literals, integer
variables, signs and the operators `+`, `-`, `*`, `/` and `%`, in any state, has its exact value exactly if all its
operations are sound: none divides by zero, and all have a result within 64 bits, where the remainder of the least
integer by -1 counts as out of range. If not, it fails with the fault of the first operation that is not sound,
from left to right, at the place of that operation: a division by zero if that is what it is, and an overflow
otherwise. The state stays as it was. -/
theorem eval_integral (b : Bounds) (call : Caller) (s : State) (e : Expr) (h : e.Integral s) :
    ((∀ o ∈ e.operations s, o.Sound) ↔ ∃ n, n.toInt = e.exact s ∧ eval b call e s = .ok (.int n) s) ∧
    ((¬ ∀ o ∈ e.operations s, o.Sound) → ∃ before o after, e.operations s = before ++ o :: after ∧
      (∀ o' ∈ before, o'.Sound) ∧ ¬ o.Sound ∧
      o.fault.code = (if o.ByZero then .divisionByZero else .integerOverflow) ∧
      eval b call e s = .error ⟨o.fault, o.span⟩ s) := by
  have hcomputed := eval_computed b call h
  cases hoffence : e.offence? s with
  | none =>
    have hsound : ∀ o ∈ e.operations s, o.Sound := by simpa [Expr.offence?] using hoffence
    rw [hoffence] at hcomputed
    cases hcomputed with
    | exact hn hvalue => exact ⟨iff_of_true hsound ⟨_, hn, hvalue⟩, fun hnot => absurd hsound hnot⟩
  | some o =>
    rw [hoffence] at hcomputed
    obtain ⟨ho, before, after, hsplit, hbefore⟩ := List.find?_eq_some_iff_append.1 hoffence
    have hunsound : ¬ o.Sound := by simpa using ho
    cases hcomputed with
    | fault hfault =>
      refine ⟨iff_of_false (fun hsound => hunsound (hsound o (by simp [hsplit]))) ?_, fun _ => ?_⟩
      · rintro ⟨n, -, hok⟩
        rw [hfault] at hok
        cases hok
      · exact ⟨before, o, after, hsplit, by simpa using hbefore, hunsound, o.fault_code, hfault⟩

/-- The least integer in a variable. -/
def withLeast : State where
  sink := ⟨0, ""⟩
  globals := { base := Table.empty.insert "least" ⟨.int Int64.minValue, none, default⟩ }

/-- `5 - least % -1 * (7 / 0)`, where the remainder is computed before the quotient. -/
def twoFaults (remainderAt : Span) : Expr :=
  .binary .sub (.literal (.int 5) default)
    (.binary .mul
      (.binary .rem (.ident ⟨"least", default⟩) (.unary .neg (.literal (.int 1) default) default) remainderAt)
      (.binary .div (.literal (.int 7) default) (.literal (.int 0) default) default) default) default

theorem eval_integral_twoFaults :
    let place : Span := ⟨⟨1, 5, 4⟩, 14⟩
    (twoFaults place).Integral withLeast ∧
      eval {} (invoke {} 200) (twoFaults place) withLeast =
        .error ⟨.integerOverflow "%", place⟩ withLeast := by
  intro place
  have hintegral : (twoFaults place).Integral withLeast :=
    .binary .sub (.literal _ _) (.binary .mul
      (.binary .rem (.ident rfl) (.negation (.literal _ _) _) _)
      (.binary .div (.literal _ _) (.literal _ _) _) _) _
  have hremainder : ¬ (Operation.binary .rem (-2 ^ 63) (-1) place).Sound := by decide
  have hsign : (Operation.negation 1 default).Sound := by decide
  obtain ⟨-, hfails⟩ := eval_integral {} (invoke {} 200) withLeast _ hintegral
  obtain ⟨before, o, after, hsplit, hbefore, ho, -, heval⟩ := hfails fun hsound =>
    hremainder (hsound _ (List.mem_cons_of_mem _ List.mem_cons_self))
  refine ⟨hintegral, ?_⟩
  -- the sign comes first, and is sound
  match before, hsplit with
  | [], hsplit =>
    obtain ⟨rfl, -⟩ := List.cons.inj hsplit
    exact absurd hsign ho
  | [_], hsplit =>
    obtain ⟨-, hrest⟩ := List.cons.inj hsplit
    obtain ⟨rfl, -⟩ := List.cons.inj hrest
    exact heval
  | _ :: o' :: _, hsplit =>
    obtain ⟨-, hrest⟩ := List.cons.inj hsplit
    obtain ⟨rfl, -⟩ := List.cons.inj hrest
    exact absurd (hbefore _ (List.mem_cons_of_mem _ List.mem_cons_self)) hremainder

end Run

end Scriptlet
