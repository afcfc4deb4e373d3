import KernelIR.Decimal.Binary64

/-!
# Scalar types, constants and operators

The vocabulary of a statement that does not refer to other statements, each with its written form.
-/

namespace KernelIR

/-! ## Types -/

/-- The type of the value that a statement produces. -/
inductive ScalarType where
  | void
  | i1
  | i32
  | i64
  | f32
  | f64
deriving DecidableEq, Repr, Inhabited

namespace ScalarType

def text : ScalarType → String
  | .void => "void"
  | .i1 => "i1"
  | .i32 => "i32"
  | .i64 => "i64"
  | .f32 => "f32"
  | .f64 => "f64"

instance : ToString ScalarType := ⟨text⟩

def isFloat : ScalarType → Bool
  | .f32 | .f64 => true
  | _ => false

end ScalarType

/-! ## Constants -/

/-- A constant. Floating constants are bit patterns, so that constants compare exactly: a pattern
that is not a number equals itself, and the two zeros differ. -/
inductive Constant where
  | bool (value : Bool)
  | int (value : Int64)
  | float (bits : UInt64)
deriving DecidableEq, Repr

namespace Constant

def text : Constant → String
  | .bool b => if b then "true" else "false"
  | .int n => toString n.toInt
  | .float bits => (Binary64.ofBits bits).text

instance : ToString Constant := ⟨text⟩

end Constant

/-! ## Operators -/

inductive UnaryOp where
  | neg
  | not
  | sqrt
  | cast (target : ScalarType)
deriving DecidableEq, Repr

namespace UnaryOp

def text : UnaryOp → String
  | .neg => "neg"
  | .not => "not"
  | .sqrt => "sqrt"
  | .cast ty => "cast<" ++ ty.text ++ ">"

instance : ToString UnaryOp := ⟨text⟩

end UnaryOp

inductive BinaryOp where
  | add
  | sub
  | mul
  | div
  | mod
  | max
  | min
  | bitAnd
  | bitOr
  | lt
  | le
  | gt
  | ge
  | eq
  | ne
deriving DecidableEq, Repr

namespace BinaryOp

def text : BinaryOp → String
  | .add => "add"
  | .sub => "sub"
  | .mul => "mul"
  | .div => "div"
  | .mod => "mod"
  | .max => "max"
  | .min => "min"
  | .bitAnd => "bit_and"
  | .bitOr => "bit_or"
  | .lt => "cmp_lt"
  | .le => "cmp_le"
  | .gt => "cmp_gt"
  | .ge => "cmp_ge"
  | .eq => "cmp_eq"
  | .ne => "cmp_ne"

instance : ToString BinaryOp := ⟨text⟩

/-- Comparisons produce an `i1`, whatever they compare. -/
def isComparison : BinaryOp → Bool
  | .lt | .le | .gt | .ge | .eq | .ne => true
  | _ => false

end BinaryOp

end KernelIR
