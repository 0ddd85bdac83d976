import Unpack.PrimitiveExpressions
import Unpack.Lib.Fallible

/-! The purity analysis on expressions over primitive values, against their evaluation. Comment
positions and the functions marked as pure are read for calls only, which are not among them. -/

namespace Unpack

open Ecma

inductive PrimitiveKind where
  | bigInt
  | nonBigInt
  | mixed
  deriving DecidableEq

variable {N : Type}

def bigintLiteral : Expr N → Option BigIntLiteral
  | .lit (.bigInt value) => some value
  | .paren expr => bigintLiteral expr
  | _ => none

def bigintLiteralIsNonzero (expr : Expr N) : Bool :=
  (bigintLiteral expr).any fun value => value.text ≠ "0"

def mergePrimitiveKinds (left right : PrimitiveKind) : Option PrimitiveKind :=
  some (if left = right then left else .mixed)

/-- The operands come with their kinds; of the right one the expression is read too. -/
def binaryResultKind (op : BinaryOp) (left right : Option PrimitiveKind) (rightExpr : Expr N) :
    Option PrimitiveKind := do
  let left ← left
  let right ← right
  if op ∈ [.eqEq, .notEq] ∨ op ∈ [.lt, .ltEq, .gt, .gtEq] then some .nonBigInt
  else if left = .mixed ∨ right = .mixed ∨ (left == .bigInt) ≠ (right == .bigInt) then none
  else if left = .bigInt then
    match op with
    | .div => if bigintLiteralIsNonzero rightExpr then some left else none
    | .mod => none
    | .exp => if (bigintLiteral rightExpr).isNone then none else some left
    | .zeroFillRShift => none
    | _ => some left
  else some left

mutual

def primitiveKind : Expr N → Option PrimitiveKind
  | .lit literal =>
      match literal with
      | .bigInt _ => some .bigInt
      | _ => some .nonBigInt
  | .tpl _ exprs => if allKnownPrimitive exprs then some .nonBigInt else none
  | .unary op arg =>
      match op with
      | .typeOf | .void | .bang => some .nonBigInt
      | .minus | .tilde => primitiveKind arg
      | .plus =>
          match primitiveKind arg with
          | some .nonBigInt => some .nonBigInt
          | some .bigInt | some .mixed | none => none
      | .delete => none
  | .bin op left right =>
      match op with
      | .eqEq | .notEq | .eqEqEq | .notEqEq | .lt | .ltEq | .gt | .gtEq => some .nonBigInt
      | .logicalOr | .logicalAnd | .nullishCoalescing => do
          mergePrimitiveKinds (← primitiveKind left) (← primitiveKind right)
      | .in | .instanceOf => none
      | op => binaryResultKind op (primitiveKind left) (primitiveKind right) right
  | .cond _ cons alt => do mergePrimitiveKinds (← primitiveKind cons) (← primitiveKind alt)
  | .seq exprs => lastKind exprs
  | .paren expr => primitiveKind expr

def allKnownPrimitive : List (Expr N) → Bool
  | [] => true
  | expr :: exprs => (primitiveKind expr).isSome && allKnownPrimitive exprs

/-- The kind of the last of a sequence. -/
def lastKind : List (Expr N) → Option PrimitiveKind
  | [] => none
  | [expr] => primitiveKind expr
  | _ :: exprs => lastKind exprs

end

def expressionIsKnownPrimitive (expr : Expr N) : Bool := (primitiveKind expr).isSome

def binaryOperandsAreSafe (op : BinaryOp) (left right : Expr N) : Bool :=
  (binaryResultKind op (primitiveKind left) (primitiveKind right) right).isSome

mutual

def expressionIsPure : Expr N → Bool
  | .lit _ => true
  | .unary op arg =>
      match op with
      | .typeOf | .void | .bang => expressionIsPure arg
      | .minus | .plus | .tilde => expressionIsKnownPrimitive arg && expressionIsPure arg
      | .delete => false
  | .bin op left right =>
      match op with
      | .eqEqEq | .notEqEq => expressionIsPure left && expressionIsPure right
      | .logicalOr | .logicalAnd | .nullishCoalescing =>
          expressionIsPure left && expressionIsPure right
      | .in | .instanceOf => false
      | op =>
          binaryOperandsAreSafe op left right && expressionIsPure left && expressionIsPure right
  | .cond test cons alt => expressionIsPure test && expressionIsPure cons && expressionIsPure alt
  | .seq exprs => allPure exprs
  | .tpl _ exprs => allPure exprs
  | .paren expr => expressionIsPure expr

def allPure : List (Expr N) → Bool
  | [] => true
  | expr :: exprs => expressionIsPure expr && allPure exprs

end

def PrimitiveKind.Has : PrimitiveKind → Value N → Prop
  | .bigInt, value => ∃ integer, value = .bigint integer
  | .nonBigInt, value => ∀ integer, value ≠ .bigint integer
  | .mixed, _ => True

variable (numbers : Numbers N)

mutual

/-- The evaluation comes to a unary plus of a BigInt or to the division of one by a literal zero. -/
inductive MeetsBigInt : Expr N → Prop where
  | plus {arg : Expr N} {integer : Int} (harg : eval numbers arg = .ok (.bigint integer)) :
      MeetsBigInt (.unary .plus arg)
  | zero {left right : Expr N} {integer : Int} {literal : BigIntLiteral}
      (hleft : eval numbers left = .ok (.bigint integer)) (hright : bigintLiteral right = some literal)
      (hzero : literal.value = 0) : MeetsBigInt (.bin .div left right)
  | tpl {quasis : List JsString} {exprs : List (Expr N)} (h : MeetsBigIntIn exprs) :
      MeetsBigInt (.tpl quasis exprs)
  | paren {expr : Expr N} (h : MeetsBigInt expr) : MeetsBigInt (.paren expr)
  | unary {op : UnaryOp} {arg : Expr N} (h : MeetsBigInt arg) : MeetsBigInt (.unary op arg)
  | left {op : BinaryOp} {left right : Expr N} (h : MeetsBigInt left) :
      MeetsBigInt (.bin op left right)
  | right {op : BinaryOp} {left right : Expr N} {value : Value N} (hleft : eval numbers left = .ok value)
      (hgoes : shortCircuit numbers value op = false) (h : MeetsBigInt right) :
      MeetsBigInt (.bin op left right)
  | test {test cons alt : Expr N} (h : MeetsBigInt test) : MeetsBigInt (.cond test cons alt)
  | cons {test cons alt : Expr N} {value : Value N} (htest : eval numbers test = .ok value)
      (htrue : value.toBoolean numbers = true) (h : MeetsBigInt cons) :
      MeetsBigInt (.cond test cons alt)
  | alt {test cons alt : Expr N} {value : Value N} (htest : eval numbers test = .ok value)
      (hfalse : value.toBoolean numbers = false) (h : MeetsBigInt alt) :
      MeetsBigInt (.cond test cons alt)
  | seq {exprs : List (Expr N)} (h : MeetsBigIntIn exprs) : MeetsBigInt (.seq exprs)

/-- One of them does, after those before it were evaluated. -/
inductive MeetsBigIntIn : List (Expr N) → Prop where
  | head {expr : Expr N} {exprs : List (Expr N)} (h : MeetsBigInt expr) : MeetsBigIntIn (expr :: exprs)
  | tail {expr : Expr N} {exprs : List (Expr N)} {value : Value N}
      (hhead : eval numbers expr = .ok value) (h : MeetsBigIntIn exprs) : MeetsBigIntIn (expr :: exprs)

end

namespace Ecma.BinaryOp

def comparisons : List BinaryOp := [.eqEq, .notEq, .eqEqEq, .notEqEq, .lt, .ltEq, .gt, .gtEq]

def logicals : List BinaryOp := [.logicalOr, .logicalAnd, .nullishCoalescing]

def numerics : List BinaryOp :=
  [.lShift, .rShift, .zeroFillRShift, .add, .sub, .mul, .div, .mod, .bitOr, .bitXor, .bitAnd, .exp]

theorem class_cases (op : BinaryOp) : op ∈ comparisons ∨ op ∈ logicals ∨ op ∈ numerics ∨
    op = .in ∨ op = .instanceOf := by
  cases op <;> decide

end Ecma.BinaryOp

open Ecma.BinaryOp

variable {numbers} {op : BinaryOp} {left right : Value N}

theorem toNumeric_eq_inl {value : Value N} {integer : Int} :
    value.toNumeric numbers = .inl integer ↔ value = .bigint integer := by
  cases value <;> simp [Value.toNumeric]

theorem nonBigInt_iff (numbers : Numbers N) {value : Value N} :
    PrimitiveKind.nonBigInt.Has value ↔ ∃ number, value.toNumeric numbers = .inr number := by
  cases value <;> simp [PrimitiveKind.Has, Value.toNumeric]

theorem shortCircuit_eq_false (hop : op ∉ logicals) (value : Value N) :
    shortCircuit numbers value op = false := by
  cases op <;> first | rfl | exact absurd (by decide) hop

theorem evalBinary_comparison (numbers : Numbers N) (hop : op ∈ comparisons) (left right : Value N) :
    ∃ answer, evalBinary numbers left right op = .ok (.boolean answer) := by
  cases op <;> first | exact ⟨_, rfl⟩ | exact absurd hop (by decide)

theorem evalBinary_logical (hop : op ∈ logicals) (left right : Value N) :
    evalBinary numbers left right op = .ok right := by
  cases op <;> first | rfl | exact absurd hop (by decide)

/-- Numbers and strings have every numeric operator. -/
theorem evalBinary_nonBigInt (numbers : Numbers N) (hop : op ∈ numerics) (hleft : PrimitiveKind.nonBigInt.Has left)
    (hright : PrimitiveKind.nonBigInt.Has right) :
    ∃ value, evalBinary numbers left right op = .ok value ∧ PrimitiveKind.nonBigInt.Has value := by
  obtain ⟨leftNumber, hleftNumber⟩ := (nonBigInt_iff numbers).mp hleft
  obtain ⟨rightNumber, hrightNumber⟩ := (nonBigInt_iff numbers).mp hright
  have hnumeric : ∀ op, numericBinary numbers op left right =
      .ok (.number (numbers.binary op leftNumber rightNumber)) := by
    intro op
    rw [numericBinary, hleftNumber, hrightNumber]
  have hnumber : ∀ op, ∃ value, numericBinary numbers op left right = .ok value ∧
      PrimitiveKind.nonBigInt.Has value := fun op => ⟨_, hnumeric op, nofun⟩
  cases op with
  | add =>
      rw [evalBinary]
      split_ifs
      · exact ⟨_, rfl, nofun⟩
      · exact hnumber .add
  | lShift | rShift | zeroFillRShift | sub | mul | div | mod | bitOr | bitXor | bitAnd | exp =>
      exact hnumber _
  | _ => exact absurd hop (by decide)

/-- BigInts have the numeric operators that their operation has. -/
theorem evalBinary_bigInt (hop : op ∈ numerics) (left right : Int) :
    evalBinary numbers (.bigint left) (.bigint right) op = (bigintBinary left right op).map .bigint := by
  cases op <;> first | rfl | exact absurd hop (by decide)

/-- What the kind of a numeric operation says: both operands have it, and a BigInt one cannot fail but
by a literal zero. -/
theorem binaryResultKind_numeric (hop : op ∈ numerics) {leftKind rightKind : Option PrimitiveKind}
    {rightExpr : Expr N} {kind : PrimitiveKind}
    (h : binaryResultKind op leftKind rightKind rightExpr = some kind) :
    leftKind = some kind ∧ rightKind = some kind ∧ (kind = .nonBigInt ∨ kind = .bigInt ∧
      op ≠ .mod ∧ op ≠ .zeroFillRShift ∧
        (op = .div ∨ op = .exp → (bigintLiteral rightExpr).isSome)) := by
  obtain ⟨left, rfl, hleft⟩ := Option.bind_eq_some_iff.mp h
  obtain ⟨right, rfl, hresult⟩ := Option.bind_eq_some_iff.mp hleft
  clear h hleft
  have hcompare : ¬ (op ∈ [eqEq, notEq] ∨ op ∈ [lt, ltEq, gt, gtEq]) := by
    revert hop
    cases op <;> decide
  rw [if_neg hcompare] at hresult
  by_cases hmixed : left = .mixed ∨ right = .mixed ∨ (left == .bigInt) ≠ (right == .bigInt)
  · rw [if_pos hmixed] at hresult
    cases hresult
  rw [if_neg hmixed] at hresult
  by_cases hbig : left = .bigInt
  · rw [if_pos hbig] at hresult
    subst hbig
    obtain rfl : right = .bigInt := by
      revert hmixed
      cases right <;> decide
    cases op with
    | div =>
        cases hliteral : bigintLiteral rightExpr with
        | none =>
            simp only [bigintLiteralIsNonzero, hliteral] at hresult
            cases hresult
        | some literal =>
            simp only at hresult
            split_ifs at hresult
            cases hresult
            exact ⟨rfl, rfl, Or.inr ⟨rfl, nofun, nofun, fun _ => rfl⟩⟩
    | exp =>
        cases hliteral : bigintLiteral rightExpr with
        | none =>
            simp only [hliteral] at hresult
            cases hresult
        | some literal =>
            simp only [hliteral] at hresult
            cases hresult
            exact ⟨rfl, rfl, Or.inr ⟨rfl, nofun, nofun, fun _ => rfl⟩⟩
    | mod | zeroFillRShift => cases hresult
    | _ =>
        cases hresult
        exact ⟨rfl, rfl, Or.inr ⟨rfl, nofun, nofun, by rintro (h | h) <;> cases h⟩⟩
  · rw [if_neg hbig] at hresult
    cases hresult
    have hnon : kind = .nonBigInt ∧ right = .nonBigInt := by
      revert hmixed hbig
      cases kind <;> cases right <;> decide
    rw [hnon.1, hnon.2]
    exact ⟨rfl, rfl, Or.inl rfl⟩

theorem primitiveKind_comparison (hop : op ∈ comparisons) (left right : Expr N) :
    primitiveKind (.bin op left right) = some .nonBigInt := by
  cases op <;> first | exact absurd hop (by decide) | rw [primitiveKind]

theorem primitiveKind_logical (hop : op ∈ logicals) {left right : Expr N} {kind : PrimitiveKind}
    (h : primitiveKind (.bin op left right) = some kind) : ∃ leftKind rightKind,
      primitiveKind left = some leftKind ∧ primitiveKind right = some rightKind ∧
        mergePrimitiveKinds leftKind rightKind = some kind := by
  have hmerge : (do mergePrimitiveKinds (← primitiveKind left) (← primitiveKind right)) =
      some kind := by
    cases op <;> first | exact absurd hop (by decide) | (rw [primitiveKind] at h; exact h)
  obtain ⟨leftKind, hleft, hrest⟩ := Option.bind_eq_some_iff.mp hmerge
  obtain ⟨rightKind, hright, hmerged⟩ := Option.bind_eq_some_iff.mp hrest
  exact ⟨leftKind, rightKind, hleft, hright, hmerged⟩

theorem primitiveKind_numeric (hop : op ∈ numerics) (left right : Expr N) :
    primitiveKind (.bin op left right) =
      binaryResultKind op (primitiveKind left) (primitiveKind right) right := by
  cases op <;> first | exact absurd hop (by decide) | (rw [primitiveKind] <;> nofun)

/-- A merged kind has what either side has. -/
theorem has_merge {leftKind rightKind kind : PrimitiveKind} {value : Value N}
    (h : mergePrimitiveKinds leftKind rightKind = some kind)
    (hvalue : leftKind.Has value ∨ rightKind.Has value) : kind.Has value := by
  have hkind := Option.some.inj h
  split_ifs at hkind with hsame
  · subst hkind
    subst hsame
    exact hvalue.elim id id
  · subst hkind
    trivial

theorem has_evalUnary {kind : PrimitiveKind} {op : UnaryOp} (hop : op = .minus ∨ op = .tilde)
    {arg value : Value N} (harg : kind.Has arg) (h : evalUnary numbers arg op = .ok value) :
    kind.Has value := by
  cases hnumeric : arg.toNumeric numbers with
  | inl integer =>
      obtain rfl := toNumeric_eq_inl.mp hnumeric
      have hbig : ∃ result, value = .bigint result := by
        rcases hop with rfl | rfl <;>
        · cases h
          exact ⟨_, rfl⟩
      cases kind with
      | bigInt => exact hbig
      | nonBigInt => exact absurd rfl (harg integer)
      | mixed => trivial
  | inr number =>
      have hvalue : ∃ result, value = .number result := by
        rcases hop with rfl | rfl <;>
        · rw [evalUnary, hnumeric] at h
          cases h
          exact ⟨_, rfl⟩
      cases kind with
      | bigInt =>
          obtain ⟨integer, rfl⟩ := harg
          cases hnumeric
      | nonBigInt =>
          obtain ⟨result, rfl⟩ := hvalue
          exact nofun
      | mixed => trivial

mutual

/-- A value has the kind that is claimed for its expression. -/
theorem has_of_primitiveKind : ∀ (expr : Expr N) {kind : PrimitiveKind} {value : Value N},
    primitiveKind expr = some kind → eval numbers expr = .ok value → kind.Has value
  | .lit literal, kind, value, hkind, heval => by
      rw [eval] at heval
      cases heval
      cases literal with
      | bigInt literal =>
          rw [primitiveKind] at hkind
          cases hkind
          exact ⟨_, rfl⟩
      | _ =>
          rw [primitiveKind] at hkind
          · cases hkind
            exact nofun
          · nofun
  | .tpl quasis exprs, kind, value, hkind, heval => by
      rw [primitiveKind] at hkind
      rw [eval] at heval
      obtain ⟨values, -, heval⟩ := Fallible.of_bind_ok heval
      cases heval
      split_ifs at hkind
      cases hkind
      exact nofun
  | .paren expr, kind, value, hkind, heval => by
      rw [primitiveKind] at hkind
      rw [eval] at heval
      exact has_of_primitiveKind expr hkind heval
  | .unary op arg, kind, value, hkind, heval => by
      rw [eval] at heval
      obtain ⟨argValue, harg, heval⟩ := Fallible.of_bind_ok heval
      cases op with
      | typeOf | void | bang =>
          rw [primitiveKind] at hkind
          cases hkind
          cases heval
          exact nofun
      | minus =>
          rw [primitiveKind] at hkind
          exact has_evalUnary (Or.inl rfl) (has_of_primitiveKind arg hkind harg) heval
      | tilde =>
          rw [primitiveKind] at hkind
          exact has_evalUnary (Or.inr rfl) (has_of_primitiveKind arg hkind harg) heval
      | plus =>
          rw [primitiveKind] at hkind
          split at hkind
          · cases hkind
            rw [evalUnary] at heval
            split at heval
            · cases heval
            · cases heval
              exact nofun
          all_goals cases hkind
      | delete =>
          rw [primitiveKind] at hkind
          cases hkind
  | .bin op left right, kind, value, hkind, heval => by
      rw [eval] at heval
      obtain ⟨leftValue, hleft, heval⟩ := Fallible.of_bind_ok heval
      rcases op.class_cases with hop | hop | hop | rfl | rfl
      · rw [primitiveKind_comparison hop] at hkind
        cases hkind
        rw [shortCircuit_eq_false (by revert hop; cases op <;> decide)] at heval
        obtain ⟨rightValue, -, heval⟩ := Fallible.of_bind_ok heval
        obtain ⟨answer, hanswer⟩ := evalBinary_comparison numbers hop leftValue rightValue
        rw [hanswer] at heval
        cases heval
        exact nofun
      · obtain ⟨leftKind, rightKind, hleftKind, hrightKind, hmerge⟩ := primitiveKind_logical hop hkind
        split_ifs at heval
        · cases heval
          exact has_merge hmerge (Or.inl (has_of_primitiveKind left hleftKind hleft))
        · obtain ⟨rightValue, hright, heval⟩ := Fallible.of_bind_ok heval
          rw [evalBinary_logical hop] at heval
          cases heval
          exact has_merge hmerge (Or.inr (has_of_primitiveKind right hrightKind hright))
      · rw [primitiveKind_numeric hop] at hkind
        obtain ⟨hleftKind, hrightKind, hkinds⟩ := binaryResultKind_numeric hop hkind
        rw [shortCircuit_eq_false (by revert hop; cases op <;> decide)] at heval
        obtain ⟨rightValue, hright, heval⟩ := Fallible.of_bind_ok heval
        have hleftHas := has_of_primitiveKind left hleftKind hleft
        have hrightHas := has_of_primitiveKind right hrightKind hright
        rcases hkinds with rfl | ⟨rfl, -⟩
        · obtain ⟨result, hresult, hhas⟩ :=
            evalBinary_nonBigInt numbers hop hleftHas hrightHas
          rw [hresult] at heval
          cases heval
          exact hhas
        · obtain ⟨leftInteger, rfl⟩ := hleftHas
          obtain ⟨rightInteger, rfl⟩ := hrightHas
          rw [evalBinary_bigInt hop] at heval
          obtain ⟨result, -, rfl⟩ := Fallible.of_map_ok heval
          exact ⟨result, rfl⟩
      · rw [primitiveKind] at hkind
        cases hkind
      · rw [primitiveKind] at hkind
        cases hkind
  | .cond test cons alt, kind, value, hkind, heval => by
      rw [primitiveKind] at hkind
      obtain ⟨consKind, hcons, hkind⟩ := Option.bind_eq_some_iff.mp hkind
      obtain ⟨altKind, halt, hkind⟩ := Option.bind_eq_some_iff.mp hkind
      rw [eval] at heval
      obtain ⟨testValue, -, heval⟩ := Fallible.of_bind_ok heval
      split_ifs at heval
      · exact has_merge hkind (Or.inl (has_of_primitiveKind cons hcons heval))
      · exact has_merge hkind (Or.inr (has_of_primitiveKind alt halt heval))
  | .seq exprs, kind, value, hkind, heval => by
      rw [primitiveKind] at hkind
      rw [eval] at heval
      obtain ⟨values, hvalues, heval⟩ := Fallible.of_bind_ok heval
      cases heval
      exact has_of_lastKind exprs hkind hvalues

theorem has_of_lastKind : ∀ (exprs : List (Expr N)) {kind : PrimitiveKind} {values : List (Value N)},
    lastKind exprs = some kind → evalAll numbers exprs = .ok values →
      kind.Has (values.getLast?.getD .undefined)
  | [], kind, values, hkind, _ => by
      rw [lastKind] at hkind
      cases hkind
  | [expr], kind, values, hkind, heval => by
      rw [lastKind] at hkind
      rw [evalAll] at heval
      obtain ⟨value, hvalue, heval⟩ := Fallible.of_bind_ok heval
      cases heval
      exact has_of_primitiveKind expr hkind hvalue
  | _ :: next :: exprs, kind, values, hkind, heval => by
      rw [evalAll] at heval
      obtain ⟨value, -, heval⟩ := Fallible.of_bind_ok heval
      obtain ⟨rest, hrest, heval⟩ := Fallible.of_bind_ok heval
      cases heval
      have hlast := has_of_lastKind (next :: exprs) hkind hrest
      rw [evalAll] at hrest
      obtain ⟨first, -, hrest⟩ := Fallible.of_bind_ok hrest
      obtain ⟨others, -, hrest⟩ := Fallible.of_bind_ok hrest
      cases hrest
      rwa [List.getLast?_cons_cons]

end

theorem bigintBinary_ok (hop : op ∈ numerics) (hmod : op ≠ .mod) (hshift : op ≠ .zeroFillRShift)
    {left right : Int} (hdiv : op = .div → right ≠ 0) (hexp : op = .exp → 0 ≤ right) :
    ∃ result, bigintBinary left right op = .ok result := by
  cases op with
  | div =>
      rw [bigintBinary, if_neg (hdiv rfl)]
      exact ⟨_, rfl⟩
  | exp =>
      rw [bigintBinary, if_neg (Int.not_lt.mpr (hexp rfl))]
      exact ⟨_, rfl⟩
  | mod => exact absurd rfl hmod
  | zeroFillRShift => exact absurd rfl hshift
  | lShift | rShift | add | sub | mul | bitOr | bitXor | bitAnd => exact ⟨_, rfl⟩
  | _ => exact absurd hop (by decide)

theorem eval_of_bigintLiteral (numbers : Numbers N) : ∀ {expr : Expr N} {literal : BigIntLiteral},
    bigintLiteral expr = some literal → eval numbers expr = .ok (.bigint literal.value)
  | .lit (.bigInt value), literal, h => by
      rw [bigintLiteral] at h
      cases h
      rw [eval]
      rfl
  | .paren expr, literal, h => by
      rw [bigintLiteral] at h
      rw [eval]
      exact eval_of_bigintLiteral numbers h

/-- An evaluation that gives a value and does not meet what fails, or throws and does. -/
def Settles {α : Type} (result : Except Exception α) (meets : Prop) : Prop :=
  (∃ value, result = .ok value ∧ ¬ meets) ∨ ∃ exception, result = .error exception ∧ meets

/-- A BigInt divided by a literal zero. -/
def DividesByZero (numbers : Numbers N) (op : BinaryOp) (left right : Expr N) : Prop :=
  op = .div ∧ ∃ integer literal, eval numbers left = .ok (.bigint integer) ∧
    bigintLiteral right = some literal ∧ literal.value = 0

theorem meetsBigInt_bin {leftExpr rightExpr : Expr N} :
    MeetsBigInt numbers (.bin op leftExpr rightExpr) ↔ MeetsBigInt numbers leftExpr ∨
      (∃ value, eval numbers leftExpr = .ok value ∧ shortCircuit numbers value op = false ∧
        MeetsBigInt numbers rightExpr) ∨ DividesByZero numbers op leftExpr rightExpr := by
  constructor
  · intro hmeets
    cases hmeets with
    | left h => exact Or.inl h
    | right hleft hgoes h => exact Or.inr (Or.inl ⟨_, hleft, hgoes, h⟩)
    | zero hleft hright hzero => exact Or.inr (Or.inr ⟨rfl, _, _, hleft, hright, hzero⟩)
  · rintro (h | ⟨value, hleft, hgoes, h⟩ | ⟨rfl, integer, literal, hleft, hright, hzero⟩)
    · exact .left h
    · exact .right hleft hgoes h
    · exact .zero hleft hright hzero

theorem eval_bin {leftExpr rightExpr : Expr N} (hleft : eval numbers leftExpr = .ok left) :
    eval numbers (.bin op leftExpr rightExpr) =
      if shortCircuit numbers left op = true then .ok left
      else (eval numbers rightExpr).bind fun right => evalBinary numbers left right op := by
  rw [eval, hleft]
  rfl

/-- An operator settles when its operands do and its application does. -/
theorem settles_bin {leftExpr rightExpr : Expr N}
    (hleft : Settles (eval numbers leftExpr) (MeetsBigInt numbers leftExpr))
    (hright : Settles (eval numbers rightExpr) (MeetsBigInt numbers rightExpr))
    (happly : ∀ left right, eval numbers leftExpr = .ok left → eval numbers rightExpr = .ok right →
      Settles (evalBinary numbers left right op) (DividesByZero numbers op leftExpr rightExpr)) :
    Settles (eval numbers (.bin op leftExpr rightExpr))
      (MeetsBigInt numbers (.bin op leftExpr rightExpr)) := by
  rw [meetsBigInt_bin]
  rcases hleft with ⟨left, hleft, hleftMeets⟩ | ⟨exception, hleft, hleftMeets⟩
  · rw [eval_bin hleft]
    cases hgoes : shortCircuit numbers left op with
    | true =>
        refine Or.inl ⟨left, if_pos rfl, ?_⟩
        rintro (h | ⟨value, hvalue, hfalse, -⟩ | ⟨rfl, -⟩)
        · exact hleftMeets h
        · obtain rfl : left = value := Except.ok.inj (hleft.symm.trans hvalue)
          rw [hgoes] at hfalse
          cases hfalse
        · cases hgoes
    | false =>
        rw [if_neg Bool.false_ne_true]
        rcases hright with ⟨right, hright, hrightMeets⟩ | ⟨exception, hright, hrightMeets⟩
        · rw [hright]
          rcases happly left right hleft hright with ⟨value, hvalue, hzero⟩ | ⟨exception, hvalue, hzero⟩
          · refine Or.inl ⟨value, hvalue, ?_⟩
            rintro (h | ⟨_, _, _, h⟩ | h)
            · exact hleftMeets h
            · exact hrightMeets h
            · exact hzero h
          · exact Or.inr ⟨exception, hvalue, Or.inr (Or.inr hzero)⟩
        · rw [hright]
          exact Or.inr ⟨exception, rfl, Or.inr (Or.inl ⟨left, hleft, hgoes, hrightMeets⟩)⟩
  · refine Or.inr ⟨exception, ?_, Or.inl hleftMeets⟩
    rw [eval, hleft]
    rfl

/-- Safe operands settle a numeric operator. -/
theorem settles_numeric (hop : op ∈ numerics) {leftExpr rightExpr : Expr N}
    (hsafe : binaryOperandsAreSafe op leftExpr rightExpr = true)
    (hleft : eval numbers leftExpr = .ok left) (hright : eval numbers rightExpr = .ok right) :
    Settles (evalBinary numbers left right op) (DividesByZero numbers op leftExpr rightExpr) := by
  obtain ⟨kind, hkind⟩ := Option.isSome_iff_exists.mp hsafe
  obtain ⟨hleftKind, hrightKind, hkinds⟩ := binaryResultKind_numeric hop hkind
  have hleftHas := has_of_primitiveKind leftExpr hleftKind hleft
  have hrightHas := has_of_primitiveKind rightExpr hrightKind hright
  rcases hkinds with rfl | ⟨rfl, hmod, hshift, hliteral⟩
  · obtain ⟨value, hvalue, -⟩ := evalBinary_nonBigInt numbers hop hleftHas hrightHas
    refine Or.inl ⟨value, hvalue, ?_⟩
    rintro ⟨-, integer, _, hinteger, -⟩
    exact hleftHas integer (Except.ok.inj (hleft.symm.trans hinteger))
  · obtain ⟨leftInteger, rfl⟩ := hleftHas
    obtain ⟨rightInteger, rfl⟩ := hrightHas
    rw [evalBinary_bigInt hop]
    -- a divisor and an exponent are literals, so the integer is that of the literal
    have hinteger : ∀ literal, bigintLiteral rightExpr = some literal → rightInteger = literal.value := by
      intro literal hfound
      have heval := eval_of_bigintLiteral numbers hfound
      rw [hright] at heval
      cases heval
      rfl
    by_cases hzero : DividesByZero numbers op leftExpr rightExpr
    · have hexception := hzero
      obtain ⟨rfl, _, literal, -, hfound, hvalue⟩ := hzero
      refine Or.inr ⟨.rangeError, ?_, hexception⟩
      rw [hinteger literal hfound, hvalue]
      rfl
    · have hdiv : op = .div → rightInteger ≠ 0 := by
        intro hdiv heq
        obtain ⟨literal, hfound⟩ := Option.isSome_iff_exists.mp (hliteral (Or.inl hdiv))
        refine hzero ⟨hdiv, leftInteger, literal, hleft, hfound, ?_⟩
        exact Int.ofNat_eq_zero.mp ((hinteger literal hfound).symm.trans heq)
      have hexp : op = .exp → 0 ≤ rightInteger := by
        intro hexp
        obtain ⟨literal, hfound⟩ := Option.isSome_iff_exists.mp (hliteral (Or.inr hexp))
        rw [hinteger literal hfound]
        exact Int.natCast_nonneg _
      obtain ⟨result, hresult⟩ : ∃ result, bigintBinary leftInteger rightInteger op = .ok result :=
        bigintBinary_ok hop hmod hshift hdiv hexp
      exact Or.inl ⟨.bigint result, by rw [hresult]; rfl, hzero⟩

theorem settles_comparison (hop : op ∈ comparisons) {leftExpr rightExpr : Expr N}
    (left right : Value N) :
    Settles (evalBinary numbers left right op) (DividesByZero numbers op leftExpr rightExpr) := by
  obtain ⟨answer, hanswer⟩ := evalBinary_comparison numbers hop left right
  refine Or.inl ⟨_, hanswer, ?_⟩
  rintro ⟨rfl, -⟩
  exact absurd hop (by decide)

theorem settles_logical (hop : op ∈ logicals) {leftExpr rightExpr : Expr N} (left right : Value N) :
    Settles (evalBinary numbers left right op) (DividesByZero numbers op leftExpr rightExpr) := by
  refine Or.inl ⟨right, evalBinary_logical hop left right, ?_⟩
  rintro ⟨rfl, -⟩
  exact absurd hop (by decide)

/-- What purity of an operator asks of its operands. -/
theorem pure_bin {leftExpr rightExpr : Expr N}
    (h : expressionIsPure (.bin op leftExpr rightExpr) = true) :
    expressionIsPure leftExpr = true ∧ expressionIsPure rightExpr = true ∧
      (op ∈ numerics → binaryOperandsAreSafe op leftExpr rightExpr = true) ∧
      op ≠ .in ∧ op ≠ .instanceOf := by
  cases op <;> simp [expressionIsPure, numerics] at h ⊢ <;> tauto

theorem settles_unary {op : UnaryOp} {argExpr : Expr N}
    (harg : Settles (eval numbers argExpr) (MeetsBigInt numbers argExpr)) :
    Settles (eval numbers (.unary op argExpr)) (MeetsBigInt numbers (.unary op argExpr)) := by
  rcases harg with ⟨arg, harg, hmeets⟩ | ⟨exception, harg, hmeets⟩
  · have heval : eval numbers (.unary op argExpr) = evalUnary numbers arg op := by
      rw [eval, harg]
      rfl
    rw [heval]
    by_cases hplus : op = .plus
    · subst hplus
      cases hnumeric : arg.toNumeric numbers with
      | inl integer =>
          refine Or.inr ⟨.typeError, by rw [evalUnary, hnumeric], ?_⟩
          exact .plus (harg.trans (congrArg _ (toNumeric_eq_inl.mp hnumeric)))
      | inr number =>
          refine Or.inl ⟨.number number, by rw [evalUnary, hnumeric], fun h => ?_⟩
          cases h with
          | plus hbig =>
              obtain rfl := Except.ok.inj (harg.symm.trans hbig)
              cases hnumeric
          | unary h => exact hmeets h
    · have hvalue : ∃ value, evalUnary numbers arg op = .ok value := by
        cases op with
        | plus => exact absurd rfl hplus
        | minus | tilde =>
            rw [evalUnary]
            cases arg.toNumeric numbers <;> exact ⟨_, rfl⟩
        | bang | typeOf | void | delete => exact ⟨_, rfl⟩
      obtain ⟨value, hvalue⟩ := hvalue
      refine Or.inl ⟨value, hvalue, fun h => ?_⟩
      cases h with
      | plus => exact hplus rfl
      | unary h => exact hmeets h
  · refine Or.inr ⟨exception, ?_, .unary hmeets⟩
    rw [eval, harg]
    rfl

mutual

/-- A pure expression gives a value, unless its evaluation meets a BigInt where there must be none. -/
theorem settles_of_pure : ∀ expr : Expr N, expressionIsPure expr = true →
    Settles (eval numbers expr) (MeetsBigInt numbers expr)
  | .lit literal, _ => by
      rw [eval]
      exact Or.inl ⟨_, rfl, nofun⟩
  | .paren expr, hpure => by
      rw [expressionIsPure] at hpure
      rw [eval]
      rcases settles_of_pure expr hpure with ⟨value, hvalue, hmeets⟩ | ⟨exception, hthrows, hmeets⟩
      · refine Or.inl ⟨value, hvalue, fun h => ?_⟩
        cases h with
        | paren h => exact hmeets h
      · exact Or.inr ⟨exception, hthrows, .paren hmeets⟩
  | .unary op arg, hpure => by
      have harg : expressionIsPure arg = true := by
        cases op <;> simp [expressionIsPure] at hpure <;> tauto
      exact settles_unary (settles_of_pure arg harg)
  | .bin op left right, hpure => by
      obtain ⟨hleft, hright, hsafe, hin, hinstance⟩ := pure_bin hpure
      refine settles_bin (settles_of_pure left hleft) (settles_of_pure right hright)
        fun leftValue rightValue hleftValue hrightValue => ?_
      rcases op.class_cases with hop | hop | hop | hop | hop
      · exact settles_comparison hop leftValue rightValue
      · exact settles_logical hop leftValue rightValue
      · exact settles_numeric hop (hsafe hop) hleftValue hrightValue
      · exact absurd hop hin
      · exact absurd hop hinstance
  | .cond test cons alt, hpure => by
      rw [expressionIsPure, Bool.and_eq_true, Bool.and_eq_true] at hpure
      obtain ⟨⟨htest, hcons⟩, halt⟩ := hpure
      rcases settles_of_pure test htest with ⟨value, hvalue, hmeets⟩ | ⟨exception, hthrows, hmeets⟩
      · have heval : eval numbers (.cond test cons alt) =
            if value.toBoolean numbers = true then eval numbers cons else eval numbers alt := by
          rw [eval, hvalue]
          rfl
        rw [heval]
        cases htruth : value.toBoolean numbers with
        | true =>
            rw [if_pos rfl]
            rcases settles_of_pure cons hcons with ⟨result, hresult, hrest⟩ | ⟨exception, hresult, hrest⟩
            · refine Or.inl ⟨result, hresult, fun h => ?_⟩
              cases h with
              | test h => exact hmeets h
              | cons _ _ h => exact hrest h
              | alt hother hfalse _ =>
                  obtain rfl := Except.ok.inj (hvalue.symm.trans hother)
                  rw [htruth] at hfalse
                  cases hfalse
            · exact Or.inr ⟨exception, hresult, .cons hvalue htruth hrest⟩
        | false =>
            rw [if_neg Bool.false_ne_true]
            rcases settles_of_pure alt halt with ⟨result, hresult, hrest⟩ | ⟨exception, hresult, hrest⟩
            · refine Or.inl ⟨result, hresult, fun h => ?_⟩
              cases h with
              | test h => exact hmeets h
              | alt _ _ h => exact hrest h
              | cons hother htrue _ =>
                  obtain rfl := Except.ok.inj (hvalue.symm.trans hother)
                  rw [htruth] at htrue
                  cases htrue
            · exact Or.inr ⟨exception, hresult, .alt hvalue htruth hrest⟩
      · refine Or.inr ⟨exception, ?_, .test hmeets⟩
        rw [eval, hthrows]
        rfl
  | .tpl quasis exprs, hpure => by
      rw [expressionIsPure] at hpure
      rcases settlesAll_of_pure exprs hpure with ⟨values, hvalues, hmeets⟩ | ⟨exception, hthrows, hmeets⟩
      · refine Or.inl ⟨_, by rw [eval, hvalues]; rfl, fun h => ?_⟩
        cases h with
        | tpl h => exact hmeets h
      · exact Or.inr ⟨exception, by rw [eval, hthrows]; rfl, .tpl hmeets⟩
  | .seq exprs, hpure => by
      rw [expressionIsPure] at hpure
      rcases settlesAll_of_pure exprs hpure with ⟨values, hvalues, hmeets⟩ | ⟨exception, hthrows, hmeets⟩
      · refine Or.inl ⟨_, by rw [eval, hvalues]; rfl, fun h => ?_⟩
        cases h with
        | seq h => exact hmeets h
      · exact Or.inr ⟨exception, by rw [eval, hthrows]; rfl, .seq hmeets⟩

theorem settlesAll_of_pure : ∀ exprs : List (Expr N), allPure exprs = true →
    Settles (evalAll numbers exprs) (MeetsBigIntIn numbers exprs)
  | [], _ => by
      rw [evalAll]
      exact Or.inl ⟨[], rfl, nofun⟩
  | expr :: exprs, hpure => by
      rw [allPure, Bool.and_eq_true] at hpure
      rcases settles_of_pure expr hpure.1 with ⟨value, hvalue, hmeets⟩ | ⟨exception, hthrows, hmeets⟩
      · rcases settlesAll_of_pure exprs hpure.2 with
          ⟨values, hvalues, hrest⟩ | ⟨exception, hthrows, hrest⟩
        · refine Or.inl ⟨value :: values, by rw [evalAll, hvalue, hvalues]; rfl, fun h => ?_⟩
          cases h with
          | head h => exact hmeets h
          | tail _ h => exact hrest h
        · exact Or.inr ⟨exception, by rw [evalAll, hvalue, hthrows]; rfl, .tail hvalue hrest⟩
      · exact Or.inr ⟨exception, by rw [evalAll, hthrows]; rfl, .head hmeets⟩

end

/-- Kinds are right for every expression; a pure one gives a value exactly when its evaluation does not
meet a BigInt at a unary plus or divide one by a literal zero. -/
theorem expressionIsPure_completes (numbers : Numbers N) (expr : Expr N) :
    (∀ kind value, primitiveKind expr = some kind → eval numbers expr = .ok value →
      kind.Has value) ∧
    (expressionIsPure expr = true →
      ((∃ value, eval numbers expr = .ok value) ↔ ¬ MeetsBigInt numbers expr)) := by
  refine ⟨fun kind value hkind hvalue => has_of_primitiveKind expr hkind hvalue, fun hpure => ?_⟩
  have hsettles : Settles (eval numbers expr) (MeetsBigInt numbers expr) := settles_of_pure expr hpure
  rcases hsettles with ⟨value, hvalue, hmeets⟩ | ⟨exception, hthrows, hmeets⟩
  · exact iff_of_true ⟨value, hvalue⟩ hmeets
  · refine iff_of_false ?_ (not_not_intro hmeets)
    rintro ⟨value, hvalue⟩
    cases hthrows.symm.trans hvalue

/-- Integers for numbers, enough to evaluate an expression on. -/
def integerNumbers : Numbers Int where
  nan := 0
  ofBool value := if value then 1 else 0
  ofString _ := 0
  toText value := ascii (toString value)
  truthy value := value ≠ 0
  neg value := -value
  bitNot value := -value - 1
  binary op left right := ((bigintBinary left right op).toOption).getD 0
  equal left right := left == right
  less left right := some (decide (left < right))
  compareInt left right := some (compare left right)
  parseBigInt _ := none

/-- `+1n` throws, and counts as pure. -/
theorem plusBigInt_not_completes :
    ¬ ∀ (N : Type) (numbers : Numbers N) (expr : Expr N),
      (expressionIsPure expr = true → ∃ value, eval numbers expr = .ok value) ∧
      ∀ kind value, primitiveKind expr = some kind → eval numbers expr = .ok value → kind.Has value := by
  intro h
  have hpure : expressionIsPure (.unary .plus (.lit (.bigInt ⟨1, "1"⟩)) : Expr Int) = true := rfl
  obtain ⟨value, hvalue⟩ := (h Int integerNumbers _).1 hpure
  cases hvalue

end Unpack
