import Mathlib.Tactic.SplitIfs
import Scriptlet.Run.Operators

/-!
# The types of results

The type of what an operator gives depends on the types of its operands only, and it is their types that
are at fault exactly if there is no such type.
-/

namespace Scriptlet.Run

/-- The type of the result of an operator on values of the given types. -/
def StrictOp.type? (op : StrictOp) (lhs rhs : Ty) : Option Ty :=
  match op with
  | .equality _ => some .bool
  | .arithmetic a =>
    if lhs = .int ∧ rhs = .int then some .int
    else if lhs = .str ∧ rhs = .str then if a = .add then some .str else none
    else if lhs.isNumeric ∧ rhs.isNumeric then some .float
    else none
  | .comparison _ =>
    if lhs.isNumeric ∧ rhs.isNumeric ∨ lhs = .str ∧ rhs = .str then some .bool else none

def unaryType? (op : UnaryOp) (operand : Ty) : Option Ty :=
  match op with
  | .neg => if operand.isNumeric then some operand else none
  | .not => if operand = .bool then some .bool else none

theorem StrictOp.type?_ne_function (op : StrictOp) (lhs rhs : Ty) :
    op.type? lhs rhs ≠ some .function := by
  unfold type?
  split
  · nofun
  · split_ifs <;> nofun
  · split_ifs <;> nofun

theorem unaryType?_ne_function (op : UnaryOp) (operand : Ty) :
    unaryType? op operand ≠ some .function := by
  cases operand <;> cases op <;> decide

/-- What comes of an operator whose result, if it has one, has the type `type`. -/
def Yields (type : Option Ty) : Except Fault Value → Prop
  | .ok v => type = some v.type
  | .error fault => (fault.code = .runtimeType ↔ type = none) ∧ ∀ name, fault ≠ .undefined name

theorem Yields.eq_some {type : Option Ty} {result : Except Fault Value} {v : Value}
    (h : Yields type result) (hok : result = .ok v) : type = some v.type := by
  subst hok
  exact h

theorem Yields.ne_undefined {type : Option Ty} {result : Except Fault Value} {fault : Fault}
    (h : Yields type result) (herror : result = .error fault) (name : String) :
    fault ≠ .undefined name := by
  subst herror
  exact h.2 name

/-- The operands have the right types, but there is no result for their values. -/
theorem yields_error {fault : Fault} (h : fault.code ≠ .runtimeType) (type : Ty) :
    Yields (some type) (.error fault) := by
  refine ⟨iff_of_false h nofun, ?_⟩
  rintro name rfl
  exact h rfl

theorem yields_mismatch {fault : Fault} (h : fault.code = .runtimeType)
    (hname : ∀ name, fault ≠ .undefined name) : Yields none (.error fault) :=
  ⟨iff_of_true h rfl, hname⟩

theorem inRange_yields (symbol : String) (n : Option Int64) : Yields (some .int) (inRange symbol n) := by
  cases n with
  | none => exact yields_error (by nofun) _
  | some n => rfl

theorem onInts_yields (op : Arithmetic) (symbol : String) (m n : Int64) :
    Yields (some .int) (op.onInts symbol m n) := by
  cases op with
  | add | sub | mul => exact inRange_yields _ _
  | div =>
    simp only [Arithmetic.onInts]
    split
    · exact yields_error (by nofun) _
    · exact inRange_yields _ _
  | rem =>
    simp only [Arithmetic.onInts]
    split
    · exact yields_error (by nofun) _
    · exact inRange_yields _ _

theorem onFloats_yields (op : Arithmetic) (x y : Float) : Yields (some .float) (op.onFloats x y) := by
  cases op with
  | add | sub | mul => rfl
  | div =>
    simp only [Arithmetic.onFloats]
    split
    · exact yields_error (by nofun) _
    · rfl
  | rem =>
    simp only [Arithmetic.onFloats]
    split
    · exact yields_error (by nofun) _
    · rfl

theorem concat_yields (maxBytes : Nat) (s t : String) : Yields (some .str) (concat maxBytes s t) := by
  unfold concat
  split
  · exact yields_error (by nofun) _
  · rfl

theorem applyStrict_yields (maxBytes : Nat) (op : BinaryOp) (strict : StrictOp) (lhs rhs : Value) :
    Yields (strict.type? lhs.type rhs.type) (applyStrict maxBytes op strict lhs rhs) := by
  cases strict with
  | equality negated => rfl
  | arithmetic a =>
    cases lhs with
    | int m =>
      cases rhs with
      | int n => exact onInts_yields a _ m n
      | float y => exact onFloats_yields a _ y
      | _ => exact yields_mismatch rfl nofun
    | float x =>
      cases rhs with
      | int _ | float _ => exact onFloats_yields a x _
      | _ => exact yields_mismatch rfl nofun
    | str s =>
      cases rhs with
      | str t =>
        cases a with
        | add => exact concat_yields maxBytes s t
        | _ => exact yields_mismatch rfl nofun
      | _ => exact yields_mismatch rfl nofun
    | _ => exact yields_mismatch rfl nofun
  | comparison c =>
    cases lhs with
    | int _ | float _ =>
      cases rhs with
      | int _ | float _ => rfl
      | _ => exact yields_mismatch rfl nofun
    | str s =>
      cases rhs with
      | str t => rfl
      | _ => exact yields_mismatch rfl nofun
    | _ => exact yields_mismatch rfl nofun

theorem applyUnary_yields (op : UnaryOp) (value : Value) :
    Yields (unaryType? op value.type) (applyUnary op value) := by
  cases op with
  | neg =>
    cases value with
    | int n => exact inRange_yields _ _
    | float x => rfl
    | _ => exact yields_mismatch rfl nofun
  | not =>
    cases value with
    | bool holds => rfl
    | _ => exact yields_mismatch rfl nofun

/-! ### What an operator can give -/

/-- A number or a truth value, or a fault that is not one of the limits of a run. -/
def Plain : Except Fault Value → Prop
  | .ok v => v.type = .int ∨ v.type = .float ∨ v.type = .bool
  | .error fault => fault.code = .runtimeType ∨ fault.code = .divisionByZero ∨ fault.code = .integerOverflow

theorem inRange_plain (symbol : String) (n : Option Int64) : Plain (inRange symbol n) := by
  cases n with
  | none => exact .inr (.inr rfl)
  | some n => exact .inl rfl

theorem onInts_plain (op : Arithmetic) (symbol : String) (m n : Int64) : Plain (op.onInts symbol m n) := by
  cases op with
  | add | sub | mul => exact inRange_plain _ _
  | div | rem =>
    simp only [Arithmetic.onInts]
    split
    · exact .inr (.inl rfl)
    · exact inRange_plain _ _

theorem onFloats_plain (op : Arithmetic) (x y : Float) : Plain (op.onFloats x y) := by
  cases op with
  | add | sub | mul => exact .inr (.inl rfl)
  | div | rem =>
    simp only [Arithmetic.onFloats]
    split
    · exact .inr (.inl rfl)
    · exact .inr (.inl rfl)

/-- Only the sum of two texts can be too long; any other result is the same whatever the limit is. -/
theorem applyStrict_cases (op : BinaryOp) (strict : StrictOp) (lhs rhs : Value) :
    (∃ s t, ∀ maxBytes, applyStrict maxBytes op strict lhs rhs = concat maxBytes s t) ∨
      ∃ result, Plain result ∧ ∀ maxBytes, applyStrict maxBytes op strict lhs rhs = result := by
  have hmismatch : Plain (.error (.operands op lhs.type rhs.type)) := .inl rfl
  have hbool (holds : Bool) : Plain (.ok (.bool holds)) := .inr (.inr rfl)
  cases strict with
  | equality negated => exact .inr ⟨_, hbool _, fun _ => rfl⟩
  | arithmetic a =>
    cases lhs with
    | int m =>
      cases rhs with
      | int n => exact .inr ⟨_, onInts_plain a op.symbol m n, fun _ => rfl⟩
      | float y => exact .inr ⟨_, onFloats_plain a _ y, fun _ => rfl⟩
      | _ => exact .inr ⟨_, hmismatch, fun _ => rfl⟩
    | float x =>
      cases rhs with
      | int _ | float _ => exact .inr ⟨_, onFloats_plain a x _, fun _ => rfl⟩
      | _ => exact .inr ⟨_, hmismatch, fun _ => rfl⟩
    | str s =>
      cases rhs with
      | str t =>
        cases a with
        | add => exact .inl ⟨s, t, fun _ => rfl⟩
        | _ => exact .inr ⟨_, hmismatch, fun _ => rfl⟩
      | _ => exact .inr ⟨_, hmismatch, fun _ => rfl⟩
    | _ => exact .inr ⟨_, hmismatch, fun _ => rfl⟩
  | comparison c =>
    cases lhs with
    | int _ | float _ =>
      cases rhs with
      | int _ | float _ => exact .inr ⟨_, hbool _, fun _ => rfl⟩
      | _ => exact .inr ⟨_, hmismatch, fun _ => rfl⟩
    | str s =>
      cases rhs with
      | str t => exact .inr ⟨_, hbool _, fun _ => rfl⟩
      | _ => exact .inr ⟨_, hmismatch, fun _ => rfl⟩
    | _ => exact .inr ⟨_, hmismatch, fun _ => rfl⟩

theorem applyUnary_plain (op : UnaryOp) (value : Value) : Plain (applyUnary op value) := by
  have hmismatch : Plain (.error (.operand op value.type)) := .inl rfl
  cases op with
  | neg =>
    cases value with
    | int n => exact inRange_plain _ _
    | float x => exact .inr (.inl rfl)
    | _ => exact hmismatch
  | not =>
    cases value with
    | bool holds => exact .inr (.inr rfl)
    | _ => exact hmismatch

/-- What is fitted into a slot is kept, or it is an int that becomes a float. -/
theorem coerce_cases (declared : Option Ty) (name : String) (value : Value) :
    coerce declared name value = .ok value ∨ (∃ x, coerce declared name value = .ok (.float x)) ∨
      ∃ type, coerce declared name value = .error (.storeMismatch name type value.type) := by
  unfold coerce
  split
  · exact .inl rfl
  · exact .inr (.inl ⟨_, rfl⟩)
  · exact .inl rfl
  · split
    · exact .inl rfl
    · exact .inr (.inr ⟨_, rfl⟩)

end Scriptlet.Run
