import ScriptCore.Fault
import ScriptCore.Number.Arithmetic
import ScriptCore.Number.Integer

/-!
# Operators on values

`BinOp.apply` and `UnOp.apply` give the result of an operator where its operands decide it:
`none` leaves the decision to a handler. `finish` brings the first result of a handler into the
operator's form, and `missing` says what happens where neither operand has a handler.
-/

namespace ScriptCore

/-- An integer operation on integers, else a float operation on numbers. -/
def arithmetic (onInt : Int64 → Int64 → Int64) (onFloat : Double → Double → Double) :
    Val → Val → Option Val
  | .int a, .int b => some (.int (onInt a b))
  | lhs, rhs => do return .float (onFloat (← lhs.toFloat?) (← rhs.toFloat?))

/-- A float operation on numbers. -/
def floatArithmetic (f : Double → Double → Double) (lhs rhs : Val) : Option Val := do
  return .float (f (← lhs.toFloat?) (← rhs.toFloat?))

/-- An operation on the integers that two numbers stand for. -/
def bitwise (f : Int64 → Int64 → Int64) (lhs rhs : Val) : Except Fault (Option Val) :=
  if lhs.isNumber && rhs.isNumber then
    match lhs.toInt?, rhs.toInt? with
    | some a, some b => .ok (some (.int (f a b)))
    | _, _ => .error (.arithmetic .notInteger)
  else .ok none

/-- The order of two numbers or two strings; a not-a-number comes after everything. -/
def ordering : Val → Val → Option Ordering
  | .int a, .int b => some (compare a b)
  | .str a, .str b => some (if a < b then .lt else if a = b then .eq else .gt)
  | lhs, rhs => do
    let a ← lhs.toFloat?
    let b ← rhs.toFloat?
    return if a.lt b then .lt else if a.eq b then .eq else .gt

namespace BinOp

/-- The result of an operator that needs no handler. -/
def apply (op : BinOp) (lhs rhs : Val) : Except Fault (Option Val) :=
  match op with
  | .add => .ok (arithmetic (· + ·) Double.add lhs rhs)
  | .sub => .ok (arithmetic (· - ·) Double.sub lhs rhs)
  | .mul => .ok (arithmetic (· * ·) Double.mul lhs rhs)
  | .div => .ok (floatArithmetic Double.div lhs rhs)
  | .pow => .ok (floatArithmetic Double.pow lhs rhs)
  | .mod =>
    match lhs, rhs with
    | .int a, .int b =>
      if b = 0 then .error (.arithmetic .modZero) else .ok (some (.int (Integer.floorMod a b)))
    | _, _ => .ok (floatArithmetic Double.mod lhs rhs)
  | .idiv =>
    match lhs, rhs with
    | .int a, .int b =>
      if b = 0 then .error (.arithmetic .divZero) else .ok (some (.int (Integer.floorDiv a b)))
    | _, _ => .ok (floatArithmetic Double.floorDiv lhs rhs)
  | .band => bitwise (· &&& ·) lhs rhs
  | .bor => bitwise (· ||| ·) lhs rhs
  | .bxor => bitwise (· ^^^ ·) lhs rhs
  | .shl => bitwise Integer.shiftLeft lhs rhs
  | .shr => bitwise Integer.shiftRight lhs rhs
  | .concat => .ok do return .str ((← lhs.plainText?) ++ (← rhs.plainText?))
  | .eq =>
    .ok (if lhs.rawEq rhs then some (.bool true)
      else if lhs.isTable && rhs.isTable then none else some (.bool false))
  | .ne =>
    .ok (if lhs.rawEq rhs then some (.bool false)
      else if lhs.isTable && rhs.isTable then none else some (.bool true))
  | .lt => .ok ((ordering lhs rhs).map fun o => .bool (o == .lt))
  | .le => .ok ((ordering lhs rhs).map fun o => .bool (o != .gt))

/-- The operator's form of the first result of a handler. -/
def finish (op : BinOp) (raw : Val) : Val :=
  match op with
  | .eq | .lt | .le => .bool raw.truthy
  | .ne => .bool !raw.truthy
  | _ => raw

/-- What an operator gives where neither operand has a handler. -/
def missing (op : BinOp) (lhs rhs : Val) : Except Fault Val :=
  match op with
  | .eq => .ok (.bool false)
  | .ne => .ok (.bool true)
  | .lt | .le => .error (.compare lhs.kind rhs.kind)
  | .concat =>
    .error (.operand .concatenate (if lhs.plainText?.isSome then rhs else lhs).kind)
  | _ =>
    .error (.operand (if op.isBitwise then .bitwise else .arithmetic)
      (if lhs.isNumber then rhs else lhs).kind)

end BinOp

namespace UnOp

/-- The result of an operator that needs no handler. A table's length is left to its handler. -/
def apply (op : UnOp) (v : Val) : Except Fault (Option Val) :=
  match op, v with
  | .not, v => .ok (some (.bool !v.truthy))
  | .neg, .int n => .ok (some (.int (-n)))
  | .neg, .float x => .ok (some (.float x.neg))
  | .neg, _ => .ok none
  | .bnot, v =>
    if v.isNumber then
      match v.toInt? with
      | some n => .ok (some (.int (~~~n)))
      | none => .error (.arithmetic .notInteger)
    else .ok none
  | .len, .str s => .ok (some (Val.ofNat s.utf8ByteSize))
  | .len, _ => .ok none

/-- What an operator gives where the operand has no handler; `border` is the length of a
table. -/
def missing (op : UnOp) (border : TableId → Nat) (v : Val) : Except Fault Val :=
  match op, v with
  | .len, .table t => .ok (Val.ofNat (border t))
  | .len, v => .error (.operand .measure v.kind)
  | .bnot, v => .error (.operand .bitwise v.kind)
  | _, v => .error (.operand .arithmetic v.kind)

end UnOp

end ScriptCore
