import Mathlib.Data.Int.Bitwise
import Mathlib.Data.List.Basic

/-! Expressions over primitive values and what the language makes of them: literals, templates,
parentheses, unary, binary, logical, conditional and sequence operators. BigInts are integers. Numbers
are a parameter with their operations: nothing here depends on what those compute. -/

namespace Unpack.Ecma

/-- UTF-16 code units. -/
abbrev JsString := List UInt16

/-- A BigInt literal: its number, and the text of it that the parser keeps. -/
structure BigIntLiteral where
  value : Nat
  text : String
  deriving DecidableEq

inductive Lit (N : Type) where
  | str (value : JsString)
  | bool (value : Bool)
  | null
  | num (value : N)
  | bigInt (value : BigIntLiteral)

inductive UnaryOp where
  | minus | plus | bang | tilde | typeOf | void | delete
  deriving DecidableEq

inductive BinaryOp where
  | eqEq | notEq | eqEqEq | notEqEq
  | lt | ltEq | gt | gtEq
  | lShift | rShift | zeroFillRShift
  | add | sub | mul | div | mod
  | bitOr | bitXor | bitAnd
  | logicalOr | logicalAnd
  | in | instanceOf
  | exp | nullishCoalescing
  deriving DecidableEq

inductive Expr (N : Type) where
  | lit (value : Lit N)
  | tpl (quasis : List JsString) (exprs : List (Expr N))
  | paren (expr : Expr N)
  | unary (op : UnaryOp) (arg : Expr N)
  | bin (op : BinaryOp) (left right : Expr N)
  | cond (test cons alt : Expr N)
  | seq (exprs : List (Expr N))

inductive Value (N : Type) where
  | undefined
  | null
  | boolean (value : Bool)
  | number (value : N)
  | string (value : JsString)
  | bigint (value : Int)

inductive Exception where
  | typeError
  | rangeError
  deriving DecidableEq

/-- The numbers of the language, with the conversions from and to strings. `compareInt` is the order of
an integer and a number by their mathematical values. -/
structure Numbers (N : Type) where
  nan : N
  ofBool : Bool → N
  ofString : JsString → N
  toText : N → JsString
  truthy : N → Bool
  neg : N → N
  bitNot : N → N
  binary : BinaryOp → N → N → N
  equal : N → N → Bool
  less : N → N → Option Bool
  compareInt : Int → N → Option Ordering
  parseBigInt : JsString → Option Int

variable {N : Type} (numbers : Numbers N)

def ascii (text : String) : JsString := text.toList.map fun character => character.toNat.toUInt16

def Lit.toValue : Lit N → Value N
  | .str value => .string value
  | .bool value => .boolean value
  | .null => .null
  | .num value => .number value
  | .bigInt literal => .bigint literal.value

namespace Value

def toBoolean : Value N → Bool
  | undefined | null => false
  | boolean value => value
  | number value => numbers.truthy value
  | string value => !value.isEmpty
  | bigint value => value ≠ 0

def toText : Value N → JsString
  | undefined => ascii "undefined"
  | null => ascii "null"
  | boolean value => ascii (if value then "true" else "false")
  | number value => numbers.toText value
  | string value => value
  | bigint value => ascii (toString value)

def typeOf : Value N → JsString
  | undefined => ascii "undefined"
  | null => ascii "object"
  | boolean _ => ascii "boolean"
  | number _ => ascii "number"
  | string _ => ascii "string"
  | bigint _ => ascii "bigint"

def isNullish : Value N → Bool
  | undefined | null => true
  | _ => false

def isString : Value N → Bool
  | string _ => true
  | _ => false

/-- `ToNumeric`: an integer or a number. -/
def toNumeric : Value N → Int ⊕ N
  | undefined => .inr numbers.nan
  | null => .inr (numbers.ofBool false)
  | boolean value => .inr (numbers.ofBool value)
  | number value => .inr value
  | string value => .inr (numbers.ofString value)
  | bigint value => .inl value

def strictlyEqual : Value N → Value N → Bool
  | undefined, undefined | null, null => true
  | boolean left, boolean right => left == right
  | number left, number right => numbers.equal left right
  | string left, string right => left == right
  | bigint left, bigint right => left == right
  | _, _ => false

def booleanToNumber : Value N → Value N
  | boolean value => number (numbers.ofBool value)
  | value => value

def looselyEqual (left right : Value N) : Bool :=
  if left.isNullish || right.isNullish then left.isNullish && right.isNullish
  else
    match left, right with
    | boolean left, boolean right => left == right
    | left, right =>
        match left.booleanToNumber numbers, right.booleanToNumber numbers with
        | number left, string right => numbers.equal left (numbers.ofString right)
        | string left, number right => numbers.equal (numbers.ofString left) right
        | bigint left, string right => numbers.parseBigInt right == some left
        | string left, bigint right => numbers.parseBigInt left == some right
        | bigint left, number right => numbers.compareInt left right == some .eq
        | number left, bigint right => numbers.compareInt right left == some .eq
        | left, right => left.strictlyEqual numbers right

/-- `IsLessThan`; there is no answer when a side is not a number. -/
def lessThan : Value N → Value N → Option Bool
  | string left, string right => some (decide (left < right))
  | bigint left, string right => (numbers.parseBigInt right).map fun right => decide (left < right)
  | string left, bigint right => (numbers.parseBigInt left).map fun left => decide (left < right)
  | left, right =>
      match left.toNumeric numbers, right.toNumeric numbers with
      | .inl left, .inl right => some (decide (left < right))
      | .inr left, .inr right => numbers.less left right
      | .inl left, .inr right => (numbers.compareInt left right).map (· == .lt)
      | .inr left, .inl right => (numbers.compareInt right left).map (· == .gt)

end Value

/-- A shift to the left, to the right when the distance is negative. -/
def shiftLeft (value distance : Int) : Int :=
  if 0 ≤ distance then value * 2 ^ distance.toNat else value.fdiv (2 ^ (-distance).toNat)

/-- The BigInt operation of a numeric operator; the other operators have none. -/
def bigintBinary (left right : Int) : BinaryOp → Except Exception Int
  | .add => .ok (left + right)
  | .sub => .ok (left - right)
  | .mul => .ok (left * right)
  | .div => if right = 0 then .error .rangeError else .ok (left.tdiv right)
  | .mod => if right = 0 then .error .rangeError else .ok (left.tmod right)
  | .exp => if right < 0 then .error .rangeError else .ok (left ^ right.toNat)
  | .lShift => .ok (shiftLeft left right)
  | .rShift => .ok (shiftLeft left (-right))
  | .bitAnd => .ok (Int.land left right)
  | .bitOr => .ok (Int.lor left right)
  | .bitXor => .ok (Int.xor left right)
  | _ => .error .typeError

/-- Both operands integers, or both numbers. -/
def numericBinary (op : BinaryOp) (left right : Value N) : Except Exception (Value N) :=
  match left.toNumeric numbers, right.toNumeric numbers with
  | .inl left, .inl right => (bigintBinary left right op).map .bigint
  | .inr left, .inr right => .ok (.number (numbers.binary op left right))
  | _, _ => .error .typeError

/-- Operators that evaluate both operands. The right side of `in` and `instanceof` is no object. -/
def evalBinary (left right : Value N) : BinaryOp → Except Exception (Value N)
  | .eqEq => .ok (.boolean (left.looselyEqual numbers right))
  | .notEq => .ok (.boolean !(left.looselyEqual numbers right))
  | .eqEqEq => .ok (.boolean (left.strictlyEqual numbers right))
  | .notEqEq => .ok (.boolean !(left.strictlyEqual numbers right))
  | .lt => .ok (.boolean ((left.lessThan numbers right).getD false))
  | .gt => .ok (.boolean ((right.lessThan numbers left).getD false))
  | .ltEq => .ok (.boolean (right.lessThan numbers left == some false))
  | .gtEq => .ok (.boolean (left.lessThan numbers right == some false))
  | .in | .instanceOf => .error .typeError
  | .logicalOr | .logicalAnd | .nullishCoalescing => .ok right
  | .add =>
      if left.isString || right.isString then
        .ok (.string (left.toText numbers ++ right.toText numbers))
      else numericBinary numbers .add left right
  | op => numericBinary numbers op left right

/-- What a logical operator gives without its right operand. -/
def shortCircuit (left : Value N) : BinaryOp → Bool
  | .logicalOr => left.toBoolean numbers
  | .logicalAnd => !left.toBoolean numbers
  | .nullishCoalescing => !left.isNullish
  | _ => false

/-- `delete` of what is no reference only evaluates it. -/
def evalUnary (arg : Value N) : UnaryOp → Except Exception (Value N)
  | .typeOf => .ok (.string arg.typeOf)
  | .void => .ok .undefined
  | .bang => .ok (.boolean !(arg.toBoolean numbers))
  | .delete => .ok (.boolean true)
  | .plus =>
      match arg.toNumeric numbers with
      | .inl _ => .error .typeError
      | .inr value => .ok (.number value)
  | .minus =>
      match arg.toNumeric numbers with
      | .inl value => .ok (.bigint (-value))
      | .inr value => .ok (.number (numbers.neg value))
  | .tilde =>
      match arg.toNumeric numbers with
      | .inl value => .ok (.bigint (-value - 1))
      | .inr value => .ok (.number (numbers.bitNot value))

/-- The strings of a template in their order. -/
def interleave : List JsString → List JsString → JsString
  | quasi :: quasis, text :: texts => quasi ++ text ++ interleave quasis texts
  | quasis, [] => quasis.flatten
  | [], texts => texts.flatten

mutual

def eval : Expr N → Except Exception (Value N)
  | .lit value => .ok value.toValue
  | .tpl quasis exprs => do
      let values ← evalAll exprs
      return .string (interleave quasis (values.map (Value.toText numbers)))
  | .paren expr => eval expr
  | .unary op arg => do
      let arg ← eval arg
      evalUnary numbers arg op
  | .bin op left right => do
      let left ← eval left
      if shortCircuit numbers left op then return left
      else do
        let right ← eval right
        evalBinary numbers left right op
  | .cond test cons alt => do
      let test ← eval test
      if test.toBoolean numbers then eval cons else eval alt
  | .seq exprs => do
      let values ← evalAll exprs
      return values.getLast?.getD .undefined

/-- One after the other, as far as none throws. -/
def evalAll : List (Expr N) → Except Exception (List (Value N))
  | [] => .ok []
  | expr :: exprs => do
      let value ← eval expr
      let values ← evalAll exprs
      return value :: values

end

end Unpack.Ecma
