import ImportCensus.Text

/-!
# Faults

What is wrong with data that should have a given shape, and where in the data.  All faults are
told, in the order in which the shape lists its parts.
-/

namespace ImportCensus

/-- One step into data: to the field of a name, or to the item at an index. -/
inductive PathStep where
  | field (name : Text)
  | item (index : Nat)
  deriving DecidableEq, Repr

/-- What is wrong with a piece of data. -/
inductive FaultCause where
  | missing
  | notText
  | notList
  | notMap
  /-- The data should be an object of the named shape. -/
  | notObject (shape : String)
  | notInteger
  | unreadableInteger
  | fractionalInteger
  | notBoolean
  | unreadableBoolean
  | belowOne
  | emptyList
  /-- A usage count differs from the number of files listed with it. -/
  | usageMismatch (usage : Int) (filepaths : Nat)
  deriving DecidableEq, Repr

namespace FaultCause

/-- The name of a cause for programs. -/
def code : FaultCause → String
  | missing => "missing"
  | notText => "string_type"
  | notList => "list_type"
  | notMap => "dict_type"
  | notObject _ => "model_type"
  | notInteger => "int_type"
  | unreadableInteger => "int_parsing"
  | fractionalInteger => "int_from_float"
  | notBoolean => "bool_type"
  | unreadableBoolean => "bool_parsing"
  | belowOne => "greater_than_equal"
  | emptyList => "too_short"
  | usageMismatch _ _ => "value_error"

/-- The wording of a cause for people. -/
def message : FaultCause → String
  | missing => "Field required"
  | notText => "Input should be a valid string"
  | notList => "Input should be a valid list"
  | notMap => "Input should be a valid dictionary"
  | notObject shape => "Input should be a valid dictionary or instance of " ++ shape
  | notInteger => "Input should be a valid integer"
  | unreadableInteger => "Input should be a valid integer, unable to parse string as an integer"
  | fractionalInteger => "Input should be a valid integer, got a number with a fractional part"
  | notBoolean => "Input should be a valid boolean"
  | unreadableBoolean => "Input should be a valid boolean, unable to interpret input"
  | belowOne => "Input should be greater than or equal to 1"
  | emptyList => "List should have at least 1 item after validation, not 0"
  | usageMismatch usage filepaths =>
    "Value error, usage " ++ toString usage ++ " does not match " ++ toString filepaths
      ++ " filepaths"

end FaultCause

/-- A fault and the way to it, from outside in. -/
structure Fault where
  path : List PathStep
  cause : FaultCause
  deriving DecidableEq, Repr

/-- A fault as seen from one step further out. -/
def Fault.within (step : PathStep) (f : Fault) : Fault :=
  { f with path := step :: f.path }

/-- A value read from data, or the faults of the data. -/
abbrev Checked (α : Type) := Except (List Fault) α

namespace Checked

variable {α β : Type}

/-- Data with a single fault. -/
def fault (cause : FaultCause) : Checked α := .error [⟨[], cause⟩]

/-- Faults as seen from one step further out. -/
def within (step : PathStep) : Checked α → Checked α
  | .ok a => .ok a
  | .error faults => .error (faults.map (Fault.within step))

/-- Two values read from the same data; the faults of both are told. -/
def both : Checked α → Checked β → Checked (α × β)
  | .ok a, .ok b => .ok (a, b)
  | .ok _, .error faults => .error faults
  | .error faults, .ok _ => .error faults
  | .error faults, .error others => .error (faults ++ others)

theorem both_eq_ok_iff {x : Checked α} {y : Checked β} {a : α} {b : β} :
  both x y = .ok (a, b) ↔ x = .ok a ∧ y = .ok b
  := by
  cases x <;> cases y <;> simp [both]

end Checked

end ImportCensus
