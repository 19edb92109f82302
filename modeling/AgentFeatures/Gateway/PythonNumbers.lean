import AgentFeatures.Library.FloatRange

/-! The arithmetic of Python's floats and complex numbers, and the errors it raises. -/

namespace AgentFeatures

open Library.FloatRange

/-- Exceptions, with their text where a handler reads it. -/
inductive PyException
  | syntaxError (text : String)
  | valueError (text : String)
  | zeroDivisionError (text : String)
  | overflowError
  | typeError
  | recursionError
  | keyError
  | attributeError
  | other

/-- A complex number. -/
structure PyComplex where
  real : Float
  imag : Float

/-- A number that arithmetic on floats comes to. -/
inductive PyNumber
  | float (x : Float)
  | complex (z : PyComplex)

/-- How a power of complex numbers fails. -/
inductive PowerFailure
  | zeroDivision
  | overflow

/-- The powers of the C library. -/
structure Powers where
  /-- The power of a positive number other than one to an exponent other than zero, both finite;
  `none` where it is out of range.
  -/
  pow : Float → Float → Option Float
  /-- A power in range is finite. -/
  isFinite_pow : ∀ x y z, pow x y = some z → z.isFinite
  complexPow : PyComplex → PyComplex → Except PowerFailure PyComplex

/-- The number as a complex one. -/
def PyNumber.toComplex : PyNumber → PyComplex
  | float x => ⟨x, 0⟩
  | complex z => z

/-- The number is a finite real. -/
def PyNumber.IsReal : PyNumber → Prop
  | float x => x.isFinite
  | complex _ => False

-----------------------------------------------------------------------------------------
-- Complex numbers
-----------------------------------------------------------------------------------------

namespace PyComplex

def add (z w : PyComplex) : PyComplex := ⟨z.real + w.real, z.imag + w.imag⟩

def sub (z w : PyComplex) : PyComplex := ⟨z.real - w.real, z.imag - w.imag⟩

def neg (z : PyComplex) : PyComplex := ⟨-z.real, -z.imag⟩

def mul (z w : PyComplex) : PyComplex :=
  ⟨z.real * w.real - z.imag * w.imag, z.real * w.imag + z.imag * w.real⟩

/-- The quotient, by the larger part of the divisor; `none` for a divisor of zero. -/
def quot? (z w : PyComplex) : Option PyComplex :=
  if w.imag.abs ≤ w.real.abs then
    if w.real.abs == 0 then none
    else
      let ratio := w.imag / w.real
      let denom := w.real + w.imag * ratio
      some ⟨(z.real + z.imag * ratio) / denom, (z.imag - z.real * ratio) / denom⟩
  else if w.real.abs ≤ w.imag.abs then
    let ratio := w.real / w.imag
    let denom := w.real * ratio + w.imag
    some ⟨(z.real * ratio + z.imag) / denom, (z.imag * ratio - z.real) / denom⟩
  else some ⟨0 / 0, 0 / 0⟩

end PyComplex

-----------------------------------------------------------------------------------------
-- Powers
-----------------------------------------------------------------------------------------

/-- A finite float without a fraction. -/
def isInteger (x : Float) : Bool :=
  match x.toModel.unpack with
  | .zero _ => true
  | .finite _ mantissa exponent _ => mantissa % 2 ^ (-exponent).toNat == 0
  | _ => false

/-- A finite float without a fraction that is odd. -/
def isOddInteger (x : Float) : Bool :=
  match x.toModel.unpack with
  | .finite _ mantissa exponent _ =>
      let unit := 2 ^ (-exponent).toNat
      decide (exponent ≤ 0) && mantissa % unit == 0 && mantissa / unit % 2 == 1
  | _ => false

/-- The special cases of `x ** y`, and what is left to the C library. -/
inductive PowerCase
  | special (z : Float)
  | zeroDivision
  | complex
  | regular (base : Float) (negate : Bool)

/-- The cases of `float.__pow__`, in its order. -/
def powerCase (x y : Float) : PowerCase :=
  if y == 0 then .special 1
  else if x.isNaN then .special x
  else if y.isNaN then .special (if x == 1 then 1 else y)
  else if y.isInf then
    if x.abs == 1 then .special 1
    else if 0 < y ↔ 1 < x.abs then .special y.abs
    else .special 0
  else if x.isInf then
    if 0 < y then .special (if isOddInteger y then x else x.abs)
    else .special (if isOddInteger y ∧ x < 0 then -0 else 0)
  else if x == 0 then
    if y < 0 then .zeroDivision else .special (if isOddInteger y then x else 0)
  else if x < 0 ∧ ¬ isInteger y then .complex
  else
    let negate := decide (x < 0) && isOddInteger y
    if x.abs == 1 then .special (if negate then -1 else 1) else .regular x.abs negate

-----------------------------------------------------------------------------------------
-- Operators
-----------------------------------------------------------------------------------------

/-- An operator on floats, and on complex numbers as soon as one operand is complex. -/
def coerced (real : Float → Float → Except PyException PyNumber)
    (complex : PyComplex → PyComplex → Except PyException PyNumber)
    : PyNumber → PyNumber → Except PyException PyNumber
  | .float x, .float y => real x y
  | x, y => complex x.toComplex y.toComplex

/-- `op.add`. -/
def opAdd : PyNumber → PyNumber → Except PyException PyNumber :=
  coerced (fun x y => .ok (.float (x + y))) fun z w => .ok (.complex (z.add w))

/-- `op.sub`. -/
def opSub : PyNumber → PyNumber → Except PyException PyNumber :=
  coerced (fun x y => .ok (.float (x - y))) fun z w => .ok (.complex (z.sub w))

/-- `op.mul`. -/
def opMul : PyNumber → PyNumber → Except PyException PyNumber :=
  coerced (fun x y => .ok (.float (x * y))) fun z w => .ok (.complex (z.mul w))

/-- `op.truediv`. -/
def opTruediv : PyNumber → PyNumber → Except PyException PyNumber :=
  coerced
    (fun x y =>
      if y == 0 then .error (.zeroDivisionError "float division by zero")
      else .ok (.float (x / y)))
    fun z w =>
      match z.quot? w with
      | none => .error (.zeroDivisionError "complex division by zero")
      | some quotient => .ok (.complex quotient)

/-- `op.mod`. -/
def opMod : PyNumber → PyNumber → Except PyException PyNumber :=
  coerced
    (fun x y =>
      if y == 0 then .error (.zeroDivisionError "float modulo")
      else .ok (.float (mod x y)))
    fun _ _ => .error .typeError

/-- `complex.__pow__`. -/
def complexPower (powers : Powers) (z w : PyComplex) : Except PyException PyNumber :=
  match powers.complexPow z w with
  | .ok power => .ok (.complex power)
  | .error .zeroDivision =>
      .error (.zeroDivisionError "0.0 to a negative or complex power")
  | .error .overflow => .error .overflowError

/-- `float.__pow__`. -/
def floatPower (powers : Powers) (x y : Float) : Except PyException PyNumber :=
  match powerCase x y with
  | .special z => .ok (.float z)
  | .zeroDivision =>
      .error (.zeroDivisionError "0.0 cannot be raised to a negative power")
  | .complex => complexPower powers ⟨x, 0⟩ ⟨y, 0⟩
  | .regular base negate =>
      match powers.pow base y with
      | none => .error .overflowError
      | some z => .ok (.float (if negate then -z else z))

/-- `op.pow`. -/
def opPow (powers : Powers) : PyNumber → PyNumber → Except PyException PyNumber :=
  coerced (floatPower powers) (complexPower powers)

/-- `op.neg`. -/
def opNeg : PyNumber → PyNumber
  | .float x => .float (-x)
  | .complex z => .complex z.neg

/-- `op.pos`. -/
def opPos : PyNumber → PyNumber := id

end AgentFeatures
