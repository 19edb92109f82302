import AgentFeatures.Gateway.PythonNumbers

/-! The calculator's evaluation of expression trees, and where it leaves the finite reals. -/

namespace AgentFeatures

open Library.FloatRange

namespace Calculator

/-- The operators of `ast.BinOp`. -/
inductive BinaryOperator
  | add
  | sub
  | mult
  | div
  | pow
  | mod
  | floorDiv
  | matMult
  | lShift
  | rShift
  | bitOr
  | bitXor
  | bitAnd
deriving DecidableEq

/-- The operators of `ast.UnaryOp`. -/
inductive UnaryOperator
  | uSub
  | uAdd
  | not
  | invert
deriving DecidableEq

/-- The value of an `ast.Constant`. -/
inductive Constant
  | int (value : Int)
  | bool (value : Bool)
  | float (value : Float)
  | other

/-- A tree of `ast.parse(…, mode="eval")`. -/
inductive Node
  | expression (body : Node)
  | constant (value : Constant)
  | binOp (left : Node) (op : BinaryOperator) (right : Node)
  | unaryOp (op : UnaryOperator) (operand : Node)
  | other

variable (powers : Powers)

/-- `_OPERATORS`, for two operands. -/
def binaryOperator?
    : BinaryOperator → Option (PyNumber → PyNumber → Except PyException PyNumber)
  | .add => some opAdd
  | .sub => some opSub
  | .mult => some opMul
  | .div => some opTruediv
  | .pow => some (opPow powers)
  | .mod => some opMod
  | _ => none

/-- `_OPERATORS`, for one operand. -/
def unaryOperator? : UnaryOperator → Option (PyNumber → PyNumber)
  | .uSub => some opNeg
  | .uAdd => some opPos
  | _ => none

def unsupported : Except PyException PyNumber := .error (.valueError "unsupported expression")

/-- `float(value)` of an integer. -/
def floatOfInt (value : Int) : Except PyException Float :=
  let x := ofInt value
  if x.isFinite then .ok x else .error .overflowError

/-- `float(value)` of a truth value. -/
def floatOfBool (value : Bool) : Float := if value then 1 else 0

/-- `_safe_eval`, with the frames that are left on the stack. -/
def safeEval : Node → Nat → Except PyException PyNumber
  | _, 0 => .error .recursionError
  | .expression body, frames + 1 => safeEval body frames
  | .constant value, _ + 1 =>
      match value with
      | .int value => (floatOfInt value).map .float
      | .bool value => .ok (.float (floatOfBool value))
      | .float value => .ok (.float value)
      | .other => unsupported
  | .binOp left op right, frames + 1 =>
      match binaryOperator? powers op with
      | none => unsupported
      | some apply => do
          let x ← safeEval left frames
          let y ← safeEval right frames
          apply x y
  | .unaryOp op operand, frames + 1 =>
      match unaryOperator? op with
      | none => unsupported
      | some apply => (safeEval operand frames).map apply
  | .other, _ + 1 => unsupported

/-- The text of what `except (ValueError, SyntaxError, ZeroDivisionError)` catches. -/
def caughtText? : PyException → Option String
  | .syntaxError text => some text
  | .valueError text => some text
  | .zeroDivisionError text => some text
  | _ => none

-----------------------------------------------------------------------------------------
-- What the operators come to
-----------------------------------------------------------------------------------------

/-- A number is returned, but no finite real one. -/
def Unreal (result : Except PyException PyNumber) : Prop := ∃ v, result = .ok v ∧ ¬ v.IsReal

/-- An exception is raised that the calculator does not catch. -/
def Uncaught (result : Except PyException PyNumber) : Prop :=
  ∃ raised, result = .error raised ∧ caughtText? raised = none

@[simp]
theorem unreal_float (x : Float) : Unreal (.ok (.float x)) ↔ ¬ x.isFinite := by
  simp [Unreal, PyNumber.IsReal]

@[simp]
theorem unreal_complex (z : PyComplex) : Unreal (.ok (.complex z)) ↔ True := by
  simp [Unreal, PyNumber.IsReal]

@[simp]
theorem unreal_error (raised : PyException) : Unreal (.error raised) ↔ False := by
  simp [Unreal]

@[simp]
theorem uncaught_ok (v : PyNumber) : Uncaught (.ok v) ↔ False := by
  simp [Uncaught]

@[simp]
theorem uncaught_error (raised : PyException)
    : Uncaught (.error raised) ↔ caughtText? raised = none := by
  simp [Uncaught]

/-- A relation of floats, and one of complex numbers as soon as one number is complex. -/
def OnNumbers (real : Float → Float → Prop) (complex : PyComplex → PyComplex → Prop)
    : PyNumber → PyNumber → Prop
  | .float x, .float y => real x y
  | x, y => complex x.toComplex y.toComplex

/-- What is known of both parts of a coerced operator is known of all its results. -/
theorem coerced_iff {P : Except PyException PyNumber → Prop}
    {real : Float → Float → Except PyException PyNumber}
    {complex : PyComplex → PyComplex → Except PyException PyNumber}
    {onFloats : Float → Float → Prop} {onComplex : PyComplex → PyComplex → Prop}
    (floats : ∀ x y, P (real x y) ↔ onFloats x y)
    (complexes : ∀ z w, P (complex z w) ↔ onComplex z w) (x y : PyNumber)
    : P (coerced real complex x y) ↔ OnNumbers onFloats onComplex x y := by
  cases x <;> cases y <;> first | exact floats _ _ | exact complexes _ _

/-- The operator returns a number for these operands that is no finite real: an operand is none
already, the exact result is out of range, or it is not real.
-/
def LeavesReals : BinaryOperator → PyNumber → PyNumber → Prop
  | .add =>
      OnNumbers
        (fun x y => ¬ (x.isFinite ∧ y.isFinite ∧ |value x + value y| < overflowBound))
        fun _ _ => True
  | .sub =>
      OnNumbers
        (fun x y => ¬ (x.isFinite ∧ y.isFinite ∧ |value x - value y| < overflowBound))
        fun _ _ => True
  | .mult =>
      OnNumbers
        (fun x y => ¬ (x.isFinite ∧ y.isFinite ∧ |value x * value y| < overflowBound))
        fun _ _ => True
  | .div =>
      OnNumbers
        (fun x y =>
          (y == 0) = false
          ∧ ¬ (x.isFinite
              ∧ (y.isInf ∨ y.isFinite ∧ |value x / value y| < overflowBound)))
        fun z w => (z.quot? w).isSome
  | .pow =>
      OnNumbers
        (fun x y =>
          match powerCase x y with
          | .special z => ¬ z.isFinite
          | .complex => (powers.complexPow ⟨x, 0⟩ ⟨y, 0⟩).isOk
          | _ => False)
        fun z w => (powers.complexPow z w).isOk
  | .mod =>
      OnNumbers
        (fun x y =>
          (y == 0) = false
          ∧ ¬ (x.isFinite
              ∧ (y.isFinite ∨ y.isInf ∧ ((x == 0) = true ∨ (0 < x ↔ 0 < y)))))
        fun _ _ => False
  | _ => fun _ _ => False

/-- The operator raises an exception for these operands that the calculator does not catch: a
power is out of range, or a remainder is asked of a complex number.
-/
def Breaks : BinaryOperator → PyNumber → PyNumber → Prop
  | .pow =>
      OnNumbers
        (fun x y =>
          match powerCase x y with
          | .complex => powers.complexPow ⟨x, 0⟩ ⟨y, 0⟩ = .error .overflow
          | .regular base _ => powers.pow base y = none
          | _ => False)
        fun z w => powers.complexPow z w = .error .overflow
  | .mod => OnNumbers (fun _ _ => False) fun _ _ => True
  | _ => fun _ _ => False

variable {powers}

theorem unreal_complexPower (z w : PyComplex)
    : Unreal (complexPower powers z w) ↔ (powers.complexPow z w).isOk := by
  unfold complexPower
  split
  · next found => simp [found, Except.isOk, Except.toBool]
  · next failed => simp [failed, Except.isOk, Except.toBool]
  · next failed => simp [failed, Except.isOk, Except.toBool]

theorem uncaught_complexPower (z w : PyComplex)
    : Uncaught (complexPower powers z w) ↔ powers.complexPow z w = .error .overflow := by
  unfold complexPower
  split
  · next found => simp [found]
  · next failed => simp [failed, caughtText?]
  · next failed => simp [failed, caughtText?]

theorem unreal_floatPower (x y : Float)
    : Unreal (floatPower powers x y)
      ↔ match powerCase x y with
        | .special z => ¬ z.isFinite
        | .complex => (powers.complexPow ⟨x, 0⟩ ⟨y, 0⟩).isOk
        | _ => False := by
  unfold floatPower
  cases powerCase x y with
  | special z => exact unreal_float z
  | zeroDivision => exact unreal_error _
  | complex => exact unreal_complexPower _ _
  | regular base negate =>
      dsimp only
      cases found : powers.pow base y with
      | none => exact unreal_error _
      | some z =>
          have finite := powers.isFinite_pow base y z found
          cases negate with
          | true => simp [isFinite_neg_iff, finite]
          | false => simp [finite]

theorem uncaught_floatPower (x y : Float)
    : Uncaught (floatPower powers x y)
      ↔ match powerCase x y with
        | .complex => powers.complexPow ⟨x, 0⟩ ⟨y, 0⟩ = .error .overflow
        | .regular base _ => powers.pow base y = none
        | _ => False := by
  unfold floatPower
  cases powerCase x y with
  | special z => exact uncaught_ok _
  | zeroDivision => simp [caughtText?]
  | complex => exact uncaught_complexPower _ _
  | regular base negate =>
      cases found : powers.pow base y with
      | none => simp [found, caughtText?]
      | some z => simp [found]

/-- An operator's result is no finite real exactly for operands where it leaves them. -/
theorem unreal_iff_leavesReals {op : BinaryOperator}
    {apply : PyNumber → PyNumber → Except PyException PyNumber}
    (supported : binaryOperator? powers op = some apply) (x y : PyNumber)
    : Unreal (apply x y) ↔ LeavesReals powers op x y := by
  cases op with
  | add =>
      cases supported
      exact coerced_iff (fun x y => (unreal_float _).trans (isFinite_add_iff x y).not)
        (fun z w => unreal_complex _) x y
  | sub =>
      cases supported
      exact coerced_iff (fun x y => (unreal_float _).trans (isFinite_sub_iff x y).not)
        (fun z w => unreal_complex _) x y
  | mult =>
      cases supported
      exact coerced_iff (fun x y => (unreal_float _).trans (isFinite_mul_iff x y).not)
        (fun z w => unreal_complex _) x y
  | div =>
      cases supported
      unfold opTruediv LeavesReals
      refine coerced_iff (P := Unreal) (fun x y => ?_) (fun z w => ?_) x y
      · cases zero : y == 0 with
        | true => simp
        | false => simp [isFinite_div_iff zero]
      · cases z.quot? w <;> simp
  | pow =>
      cases supported
      exact coerced_iff unreal_floatPower unreal_complexPower x y
  | mod =>
      cases supported
      refine coerced_iff (P := Unreal) (fun x y => ?_) (fun z w => unreal_error _) x y
      cases zero : y == 0 with
      | true => simp
      | false => simp [isFinite_mod_iff zero]
  | _ => cases supported

/-- The operators for one operand keep the finite reals and leave all others. -/
theorem isReal_unaryOperator {op : UnaryOperator} {apply : PyNumber → PyNumber}
    (supported : unaryOperator? op = some apply) (v : PyNumber)
    : (apply v).IsReal ↔ v.IsReal := by
  cases op with
  | uSub =>
      cases supported
      cases v with
      | float x => exact isFinite_neg_iff x
      | complex z => exact Iff.rfl
  | uAdd =>
      cases supported
      exact Iff.rfl
  | _ => cases supported

/-- An operator raises what is not caught exactly for operands where it breaks. -/
theorem uncaught_iff_breaks {op : BinaryOperator}
    {apply : PyNumber → PyNumber → Except PyException PyNumber}
    (supported : binaryOperator? powers op = some apply) (x y : PyNumber)
    : Uncaught (apply x y) ↔ Breaks powers op x y := by
  cases op with
  | add | sub | mult =>
      cases supported
      cases x <;> cases y <;> exact uncaught_ok _
  | div =>
      cases supported
      have never : Uncaught (opTruediv x y)
          ↔ OnNumbers (fun _ _ => False) (fun _ _ => False) x y := by
        refine coerced_iff (P := Uncaught) (fun x y => ?_) (fun z w => ?_) x y
        · cases y == 0 <;> simp [caughtText?]
        · cases z.quot? w <;> simp [caughtText?]
      refine never.trans ?_
      cases x <;> cases y <;> exact Iff.rfl
  | pow =>
      cases supported
      exact coerced_iff uncaught_floatPower uncaught_complexPower x y
  | mod =>
      cases supported
      unfold opMod Breaks
      refine coerced_iff (P := Uncaught) (fun x y => ?_) (fun z w => ?_) x y
      · cases y == 0 <;> simp [caughtText?]
      · simp [caughtText?]
  | _ => cases supported

-----------------------------------------------------------------------------------------
-- Values of trees
-----------------------------------------------------------------------------------------

/-- How deep the calls for a tree go. -/
def Node.depth : Node → Nat
  | .expression body => body.depth + 1
  | .constant _ => 1
  | .binOp left _ right => max left.depth right.depth + 1
  | .unaryOp _ operand => operand.depth + 1
  | .other => 1

variable (powers)

/-- The tree has the value. -/
inductive Evaluates : Node → PyNumber → Prop
  | expression {body : Node} {v : PyNumber} (evaluated : Evaluates body v)
    : Evaluates (.expression body) v
  | int {value : Int} (inRange : |(value : Rat)| < overflowBound)
    : Evaluates (.constant (.int value)) (.float (ofInt value))
  | bool (value : Bool) : Evaluates (.constant (.bool value)) (.float (floatOfBool value))
  | float (value : Float) : Evaluates (.constant (.float value)) (.float value)
  | binOp {left right : Node} {op : BinaryOperator} {x y v : PyNumber}
    {apply : PyNumber → PyNumber → Except PyException PyNumber}
    (supported : binaryOperator? powers op = some apply) (atLeft : Evaluates left x)
    (atRight : Evaluates right y) (applied : apply x y = .ok v)
    : Evaluates (.binOp left op right) v
  | unaryOp {operand : Node} {op : UnaryOperator} {v : PyNumber} {apply : PyNumber → PyNumber}
    (supported : unaryOperator? op = some apply) (evaluated : Evaluates operand v)
    : Evaluates (.unaryOp op operand) (apply v)

/-- The tree has a value, but no finite real one: its last operation leaves them. -/
inductive EndsUnreal : Node → Prop
  | expression {body : Node} (unreal : EndsUnreal body) : EndsUnreal (.expression body)
  | float {value : Float} (infinite : ¬ value.isFinite) : EndsUnreal (.constant (.float value))
  | binOp {left right : Node} {op : BinaryOperator} {x y : PyNumber}
    (atLeft : Evaluates powers left x) (atRight : Evaluates powers right y)
    (leaves : LeavesReals powers op x y)
    : EndsUnreal (.binOp left op right)
  | unaryOp {operand : Node} {op : UnaryOperator} (supported : (unaryOperator? op).isSome)
    (unreal : EndsUnreal operand)
    : EndsUnreal (.unaryOp op operand)

/-- With so many frames the evaluation of the tree comes to something that the calculator does
not catch: no frame is left, an integer is out of range, or an operator breaks.
-/
inductive Escapes : Node → Nat → Prop
  | tooDeep (node : Node) : Escapes node 0
  | expression {body : Node} {frames : Nat} (escapes : Escapes body frames)
    : Escapes (.expression body) (frames + 1)
  | int {value : Int} (outOfRange : overflowBound ≤ |(value : Rat)|) (frames : Nat)
    : Escapes (.constant (.int value)) (frames + 1)
  | left {left right : Node} {op : BinaryOperator} {frames : Nat}
    (supported : (binaryOperator? powers op).isSome) (escapes : Escapes left frames)
    : Escapes (.binOp left op right) (frames + 1)
  | right {left right : Node} {op : BinaryOperator} {frames : Nat} {x : PyNumber}
    (supported : (binaryOperator? powers op).isSome) (atLeft : Evaluates powers left x)
    (shallow : left.depth ≤ frames) (escapes : Escapes right frames)
    : Escapes (.binOp left op right) (frames + 1)
  | binOp {left right : Node} {op : BinaryOperator} {frames : Nat} {x y : PyNumber}
    (atLeft : Evaluates powers left x) (atRight : Evaluates powers right y)
    (shallow : max left.depth right.depth ≤ frames) (breaks : Breaks powers op x y)
    : Escapes (.binOp left op right) (frames + 1)
  | operand {operand : Node} {op : UnaryOperator} {frames : Nat}
    (supported : (unaryOperator? op).isSome) (escapes : Escapes operand frames)
    : Escapes (.unaryOp op operand) (frames + 1)

variable {powers}

theorem floatOfInt_of_inRange {value : Int} (inRange : |(value : Rat)| < overflowBound)
    : floatOfInt value = .ok (ofInt value) := by
  rw [floatOfInt]
  exact if_pos ((isFinite_ofInt_iff value).mpr inRange)

theorem floatOfInt_of_outOfRange {value : Int} (outOfRange : overflowBound ≤ |(value : Rat)|)
    : floatOfInt value = .error .overflowError := by
  rw [floatOfInt]
  exact if_neg ((isFinite_ofInt_iff value).not.mpr (not_lt.mpr outOfRange))

theorem safeEval_binOp {left right : Node} {op : BinaryOperator}
    {apply : PyNumber → PyNumber → Except PyException PyNumber}
    (supported : binaryOperator? powers op = some apply) (frames : Nat)
    : safeEval powers (.binOp left op right) (frames + 1)
      = (safeEval powers left frames >>= fun x =>
          safeEval powers right frames >>= fun y => apply x y) := by
  rw [safeEval, supported]

theorem safeEval_unaryOp {operand : Node} {op : UnaryOperator} {apply : PyNumber → PyNumber}
    (supported : unaryOperator? op = some apply) (frames : Nat)
    : safeEval powers (.unaryOp op operand) (frames + 1)
      = (safeEval powers operand frames).map apply := by
  rw [safeEval, supported]

theorem safeEval_zero (node : Node) : safeEval powers node 0 = .error .recursionError := by
  cases node <;> rfl

theorem depth_pos (node : Node) : 0 < node.depth := by
  cases node <;> exact Nat.succ_pos _

theorem bind_eq_ok_iff {ε α β : Type} {result : Except ε α} {next : α → Except ε β} {b : β}
    : (result >>= next) = .ok b ↔ ∃ a, result = .ok a ∧ next a = .ok b := by
  cases result with
  | error raised => exact iff_of_false (fun same => nomatch same) (by simp)
  | ok a => simp [bind, Except.bind]

theorem map_eq_ok_iff {ε α β : Type} {result : Except ε α} {f : α → β} {b : β}
    : result.map f = .ok b ↔ ∃ a, result = .ok a ∧ f a = b := by
  cases result <;> simp [Except.map]

theorem evaluates_expression_iff {body : Node} {v : PyNumber}
    : Evaluates powers (.expression body) v ↔ Evaluates powers body v := by
  refine ⟨fun evaluates => ?_, .expression⟩
  cases evaluates with
  | expression evaluated => exact evaluated

/-- A constant has the value that the evaluation returns for it. -/
theorem evaluates_constant_iff {value : Constant} {v : PyNumber} (frames : Nat)
    : Evaluates powers (.constant value) v
      ↔ safeEval powers (.constant value) (frames + 1) = .ok v := by
  constructor
  · intro evaluates
    cases evaluates with
    | int inRange =>
        rw [safeEval, floatOfInt_of_inRange inRange]
        rfl
    | bool value => rfl
    | float value => rfl
  · intro returned
    cases value with
    | int value =>
        by_cases inRange : |(value : Rat)| < overflowBound
        · rw [safeEval, floatOfInt_of_inRange inRange] at returned
          cases returned
          exact .int inRange
        · rw [safeEval, floatOfInt_of_outOfRange (not_lt.mp inRange)] at returned
          cases returned
    | bool value =>
        cases returned
        exact .bool value
    | float value =>
        cases returned
        exact .float value
    | other => cases returned

theorem evaluates_binOp_iff {left right : Node} {op : BinaryOperator} {v : PyNumber}
    : Evaluates powers (.binOp left op right) v
      ↔ ∃ apply,
          binaryOperator? powers op = some apply
          ∧ ∃ x, Evaluates powers left x ∧ ∃ y, Evaluates powers right y ∧ apply x y = .ok v := by
  constructor
  · intro evaluates
    cases evaluates with
    | binOp supported atLeft atRight applied =>
        exact ⟨_, supported, _, atLeft, _, atRight, applied⟩
  · rintro ⟨apply, supported, x, atLeft, y, atRight, applied⟩
    exact .binOp supported atLeft atRight applied

theorem evaluates_unaryOp_iff {operand : Node} {op : UnaryOperator} {v : PyNumber}
    : Evaluates powers (.unaryOp op operand) v
      ↔ ∃ apply,
          unaryOperator? op = some apply ∧ ∃ x, Evaluates powers operand x ∧ apply x = v := by
  constructor
  · intro evaluates
    cases evaluates with
    | unaryOp supported evaluated => exact ⟨_, supported, _, evaluated, rfl⟩
  · rintro ⟨apply, supported, x, evaluated, rfl⟩
    exact .unaryOp supported evaluated

/-- The evaluation returns the value of the tree, in as many frames as the tree is deep, by
induction on the frames.
-/
theorem safeEval_eq_ok_iff {node : Node} {frames : Nat} {v : PyNumber}
    : safeEval powers node frames = .ok v ↔ Evaluates powers node v ∧ node.depth ≤ frames := by
  induction frames generalizing node v with
  | zero =>
      rw [safeEval_zero]
      exact iff_of_false nofun fun both => absurd both.2 (Nat.not_le.mpr (depth_pos node))
  | succ frames ih =>
      cases node with
      | expression body =>
          rw [evaluates_expression_iff, Node.depth, Nat.add_le_add_iff_right]
          exact ih
      | constant value =>
          rw [← evaluates_constant_iff frames, Node.depth]
          exact (and_iff_left (Nat.le_add_left 1 frames)).symm
      | binOp left op right =>
          rw [evaluates_binOp_iff, Node.depth, Nat.add_le_add_iff_right, Nat.max_le]
          cases supported : binaryOperator? powers op with
          | none =>
              rw [safeEval, supported]
              simp [unsupported]
          | some apply =>
              rw [safeEval_binOp supported]
              simp only [bind_eq_ok_iff, ih, Option.some.injEq, exists_eq_left']
              constructor
              · rintro ⟨x, ⟨atLeft, shallowLeft⟩, y, ⟨atRight, shallowRight⟩, applied⟩
                exact ⟨⟨x, atLeft, y, atRight, applied⟩, shallowLeft, shallowRight⟩
              · rintro ⟨⟨x, atLeft, y, atRight, applied⟩, shallowLeft, shallowRight⟩
                exact ⟨x, ⟨atLeft, shallowLeft⟩, y, ⟨atRight, shallowRight⟩, applied⟩
      | unaryOp op operand =>
          rw [evaluates_unaryOp_iff, Node.depth, Nat.add_le_add_iff_right]
          cases supported : unaryOperator? op with
          | none =>
              rw [safeEval, supported]
              simp [unsupported]
          | some apply =>
              rw [safeEval_unaryOp supported]
              simp only [map_eq_ok_iff, ih, Option.some.injEq, exists_eq_left']
              constructor
              · rintro ⟨x, ⟨evaluated, shallow⟩, same⟩
                exact ⟨⟨x, evaluated, same⟩, shallow⟩
              · rintro ⟨⟨x, evaluated, same⟩, shallow⟩
                exact ⟨x, ⟨evaluated, shallow⟩, same⟩
      | other => exact iff_of_false nofun fun both => nomatch both.1

/-- A tree that is deeper than the frames runs out of them, if nothing else would stop it. -/
theorem Evaluates.safeEval_of_deep {node : Node} {v : PyNumber}
    (evaluates : Evaluates powers node v) {frames : Nat} (deep : frames < node.depth)
    : safeEval powers node frames = .error .recursionError := by
  induction evaluates generalizing frames with
  | expression _ ih =>
      cases frames with
      | zero => rfl
      | succ frames => exact ih (Nat.lt_of_succ_lt_succ deep)
  | binOp supported left right applied atLeft atRight =>
      cases frames with
      | zero => rfl
      | succ frames =>
          rw [safeEval_binOp supported]
          rcases lt_max_iff.mp (Nat.lt_of_succ_lt_succ deep) with deepLeft | deepRight
          · rw [atLeft deepLeft]
            rfl
          · rcases Nat.lt_or_ge frames _ with deepLeft | shallow
            · rw [atLeft deepLeft]
              rfl
            · rw [safeEval_eq_ok_iff.mpr ⟨left, shallow⟩, atRight deepRight]
              rfl
  | unaryOp supported _ ih =>
      cases frames with
      | zero => rfl
      | succ frames =>
          rw [safeEval_unaryOp supported, ih (Nat.lt_of_succ_lt_succ deep)]
          rfl
  | _ =>
      cases frames with
      | zero => rfl
      | succ frames => exact absurd (Nat.lt_of_succ_lt_succ deep) (Nat.not_lt_zero frames)

theorem uncaught_bind_iff {result : Except PyException PyNumber}
    {next : PyNumber → Except PyException PyNumber}
    : Uncaught (result >>= next)
      ↔ Uncaught result ∨ ∃ x, result = .ok x ∧ Uncaught (next x) := by
  cases result with
  | error raised =>
      change Uncaught (.error raised) ↔ _
      simp
  | ok x => simp [bind, Except.bind]

theorem uncaught_map_iff {result : Except PyException PyNumber} {f : PyNumber → PyNumber}
    : Uncaught (result.map f) ↔ Uncaught result := by
  cases result <;> simp [Except.map]

theorem supported_of_breaks {op : BinaryOperator} {x y : PyNumber} (breaks : Breaks powers op x y)
    : ∃ apply, binaryOperator? powers op = some apply := by
  cases op with
  | pow | mod => exact ⟨_, rfl⟩
  | _ => cases breaks

theorem supported_of_leavesReals {op : BinaryOperator} {x y : PyNumber}
    (leaves : LeavesReals powers op x y)
    : ∃ apply, binaryOperator? powers op = some apply := by
  cases op with
  | add | sub | mult | div | pow | mod => exact ⟨_, rfl⟩
  | _ => cases leaves

theorem escapes_expression_iff {body : Node} {frames : Nat}
    : Escapes powers (.expression body) (frames + 1) ↔ Escapes powers body frames := by
  refine ⟨fun escapes => ?_, .expression⟩
  cases escapes with
  | expression escapes => exact escapes

/-- A constant escapes where its evaluation raises what is not caught. -/
theorem escapes_constant_iff {value : Constant} {frames : Nat}
    : Escapes powers (.constant value) (frames + 1)
      ↔ Uncaught (safeEval powers (.constant value) (frames + 1)) := by
  cases value with
  | int value =>
      by_cases inRange : |(value : Rat)| < overflowBound
      · rw [safeEval, floatOfInt_of_inRange inRange]
        refine iff_of_false (fun escapes => ?_) (uncaught_ok _).mp
        cases escapes with
        | int outOfRange => exact absurd inRange (not_lt.mpr outOfRange)
      · rw [safeEval, floatOfInt_of_outOfRange (not_lt.mp inRange)]
        exact iff_of_true (.int (not_lt.mp inRange) frames) ⟨_, rfl, rfl⟩
  | bool value => exact iff_of_false nofun (uncaught_ok _).mp
  | float value => exact iff_of_false nofun (uncaught_ok _).mp
  | other =>
      refine iff_of_false nofun ?_
      simp [safeEval, unsupported, caughtText?]

theorem escapes_binOp_iff {left right : Node} {op : BinaryOperator} {frames : Nat}
    : Escapes powers (.binOp left op right) (frames + 1)
      ↔ (binaryOperator? powers op).isSome
        ∧ (Escapes powers left frames
          ∨ ∃ x, (Evaluates powers left x ∧ left.depth ≤ frames)
            ∧ (Escapes powers right frames
              ∨ ∃ y, (Evaluates powers right y ∧ right.depth ≤ frames)
                ∧ Breaks powers op x y)) := by
  constructor
  · intro escapes
    cases escapes with
    | left supported escapes => exact ⟨supported, .inl escapes⟩
    | right supported atLeft shallow escapes =>
        exact ⟨supported, .inr ⟨_, ⟨atLeft, shallow⟩, .inl escapes⟩⟩
    | binOp atLeft atRight shallow breaks =>
        obtain ⟨shallowLeft, shallowRight⟩ := max_le_iff.mp shallow
        obtain ⟨apply, supported⟩ := supported_of_breaks breaks
        refine ⟨by simp [supported], .inr ⟨_, ⟨atLeft, shallowLeft⟩, .inr ?_⟩⟩
        exact ⟨_, ⟨atRight, shallowRight⟩, breaks⟩
  · rintro ⟨supported, inLeft | ⟨x, ⟨atLeft, shallowLeft⟩, inRight | ⟨y, atRight, breaks⟩⟩⟩
    · exact .left supported inLeft
    · exact .right supported atLeft shallowLeft inRight
    · exact .binOp atLeft atRight.1 (max_le shallowLeft atRight.2) breaks

theorem escapes_unaryOp_iff {operand : Node} {op : UnaryOperator} {frames : Nat}
    : Escapes powers (.unaryOp op operand) (frames + 1)
      ↔ (unaryOperator? op).isSome ∧ Escapes powers operand frames := by
  constructor
  · intro escapes
    cases escapes with
    | operand supported escapes => exact ⟨supported, escapes⟩
  · exact fun both => .operand both.1 both.2

/-- The evaluation raises what is not caught exactly where it escapes, by induction on the
frames.
-/
theorem uncaught_safeEval_iff {node : Node} {frames : Nat}
    : Uncaught (safeEval powers node frames) ↔ Escapes powers node frames := by
  induction frames generalizing node with
  | zero =>
      rw [safeEval_zero]
      exact iff_of_true ⟨_, rfl, rfl⟩ (.tooDeep node)
  | succ frames ih =>
      cases node with
      | expression body =>
          rw [escapes_expression_iff]
          exact ih
      | constant value => exact escapes_constant_iff.symm
      | binOp left op right =>
          rw [escapes_binOp_iff]
          cases supported : binaryOperator? powers op with
          | none =>
              rw [safeEval, supported]
              simp [unsupported, caughtText?]
          | some apply =>
              rw [safeEval_binOp supported, Option.isSome_some, and_iff_right rfl]
              simp only [uncaught_bind_iff, ih, safeEval_eq_ok_iff, uncaught_iff_breaks supported]
      | unaryOp op operand =>
          rw [escapes_unaryOp_iff]
          cases supported : unaryOperator? op with
          | none =>
              rw [safeEval, supported]
              simp [unsupported, caughtText?]
          | some apply =>
              rw [safeEval_unaryOp supported, uncaught_map_iff, ih]
              simp
      | other =>
          refine iff_of_false ?_ nofun
          simp [safeEval, unsupported, caughtText?]

/-- A tree ends outside the finite reals exactly when its value is none of them, by induction on
the tree.
-/
theorem endsUnreal_iff {node : Node}
    : EndsUnreal powers node ↔ ∃ v, Evaluates powers node v ∧ ¬ v.IsReal := by
  constructor
  · intro unreal
    induction unreal with
    | expression _ ih =>
        obtain ⟨v, evaluates, unreal⟩ := ih
        exact ⟨v, .expression evaluates, unreal⟩
    | float infinite => exact ⟨_, .float _, infinite⟩
    | binOp left right leaves =>
        obtain ⟨apply, supported⟩ := supported_of_leavesReals leaves
        obtain ⟨v, applied, unreal⟩ := (unreal_iff_leavesReals supported _ _).mpr leaves
        exact ⟨v, .binOp supported left right applied, unreal⟩
    | unaryOp known _ ih =>
        obtain ⟨v, evaluates, unreal⟩ := ih
        obtain ⟨apply, supported⟩ := Option.isSome_iff_exists.mp known
        have kept := (isReal_unaryOperator supported v).not.mpr unreal
        exact ⟨apply v, .unaryOp supported evaluates, kept⟩
  · intro ends
    obtain ⟨v, evaluates, unreal⟩ := ends
    induction evaluates with
    | expression _ ih => exact .expression (ih unreal)
    | int inRange => exact absurd ((isFinite_ofInt_iff _).mpr inRange) unreal
    | bool value =>
        have finite : (floatOfBool value).isFinite := by cases value <;> decide +kernel
        exact absurd finite unreal
    | float value => exact .float unreal
    | binOp supported left right applied =>
        exact .binOp left right ((unreal_iff_leavesReals supported _ _).mp ⟨_, applied, unreal⟩)
    | unaryOp supported _ ih =>
        refine .unaryOp (by simp [supported]) (ih ?_)
        exact (isReal_unaryOperator supported _).not.mp unreal

/-- The evaluation comes to a finite real or to an error that is caught exactly for the trees that
neither escape nor end outside the finite reals. Witness: a tree with a value either returns it
or is too deep for the frames, which is not caught.
-/
theorem safeEval_settles_iff {node : Node} {frames : Nat}
    : (∃ v, safeEval powers node frames = .ok v ∧ v.IsReal)
        ∨ (∃ raised, safeEval powers node frames = .error raised ∧ (caughtText? raised).isSome)
      ↔ ¬ Escapes powers node frames ∧ ¬ EndsUnreal powers node := by
  rw [← uncaught_safeEval_iff, endsUnreal_iff]
  cases result : safeEval powers node frames with
  | ok v =>
      obtain ⟨evaluates, shallow⟩ := safeEval_eq_ok_iff.mp result
      have only (v' : PyNumber) : Evaluates powers node v' ↔ v' = v := by
        refine ⟨fun other => ?_, fun same => same ▸ evaluates⟩
        have again := safeEval_eq_ok_iff.mpr ⟨other, shallow⟩
        exact Except.ok.inj (again.symm.trans result)
      simp [only]
  | error raised =>
      have unvalued (caught : caughtText? raised ≠ none) (v : PyNumber)
          : ¬ Evaluates powers node v := by
        intro evaluates
        rcases Nat.lt_or_ge frames node.depth with deep | shallow
        · cases (evaluates.safeEval_of_deep deep).symm.trans result
          exact caught rfl
        · cases (safeEval_eq_ok_iff.mpr ⟨evaluates, shallow⟩).symm.trans result
      cases caught : caughtText? raised with
      | none => simp [caught]
      | some text => simp [caught, unvalued (by simp [caught])]

end Calculator

end AgentFeatures
