import FormulaSheet.Decimal.Layout
import FormulaSheet.Value.Coerce

/-!
# Inputs

An input describes the control that gives a cell its value from outside, such as a stepper or a
selector, by its kind and its properties.
-/

namespace FormulaSheet

/-- A control: its kind, and properties such as bounds, options and the value it starts with. -/
structure Input where
  kind : String
  props : Fields Value

/-- Why an input does not take a value. -/
inductive InputFault where
  | notNumber (kind : Kind)
  | belowMinimum (value minimum : Float)
  | aboveMaximum (value maximum : Float)
  | notText (kind : Kind)
  | notAnOption (text : String)
  | noInput (id : String)

def InputFault.message : InputFault → String
  | notNumber kind => "expected a number, got " ++ kind.label
  | belowMinimum value minimum =>
    Decimal.cellText value ++ " is below the minimum " ++ Decimal.plainText minimum
  | aboveMaximum value maximum =>
    Decimal.cellText value ++ " is above the maximum " ++ Decimal.plainText maximum
  | notText kind => "expected text, got " ++ kind.label
  | notAnOption text => "'" ++ text ++ "' is not one of the options"
  | noInput id => "cell " ++ id ++ " has no input"

namespace Input

def numberKind : String := "number"

def selectKind : String := "select"

/-- The property that holds the value an input starts with. -/
def defaultProp : String := "defaultValue"

def withProp (i : Input) (name : String) (v : Value) : Input :=
  ⟨i.kind, Fields.insert i.props name v⟩

def number (min max step start : Float) : Input :=
  ⟨numberKind, Fields.ofList [("min", .number min), ("max", .number max), ("step", .number step),
    (defaultProp, .number start)]⟩

def select (options : List String) (start? : Option String) : Input :=
  let i : Input := ⟨selectKind, Fields.ofList [("options", .array (options.map .text)),
    ("placeholder", .text "Select an option")]⟩
  match start? with
  | some s => i.withProp defaultProp (.text s)
  | none => i

def withLabel (i : Input) (label : String) : Input := i.withProp "label" (.text label)

def startValue (i : Input) : Value := (Fields.get? i.props defaultProp).getD .absent

/-- The input starting with another value; an absent one takes the property away. -/
def withStart (i : Input) (v : Value) : Input :=
  if v.isAbsent then ⟨i.kind, Fields.erase i.props defaultProp⟩ else i.withProp defaultProp v

def numberProp? (i : Input) (name : String) : Option Float :=
  (Fields.get? i.props name).bind Value.asNumber?

/-- Why a stepper does not take a value, if it does not: bounds hold where they are numbers. -/
def numberFault? (i : Input) (v : Value) : Option InputFault :=
  match v with
  | .number x =>
    match (i.numberProp? "min").filter (x < ·), (i.numberProp? "max").filter (· < x) with
    | some least, _ => some (.belowMinimum x least)
    | none, some most => some (.aboveMaximum x most)
    | none, none => none
  | v => some (.notNumber v.kind)

/-- Why a selector does not take a value, if it does not: the options count where they are a
list. -/
def selectFault? (i : Input) (v : Value) : Option InputFault :=
  match v with
  | .text s =>
    match Fields.get? i.props "options" with
    | some (.array options) =>
      if options.any fun o => o.asText? = some s then none else some (.notAnOption s)
    | _ => none
  | v => some (.notText v.kind)

/-- Why the input does not take a value, if it does not. Kinds other than steppers and selectors
take everything. -/
def fault? (i : Input) (v : Value) : Option InputFault :=
  if i.kind = numberKind then i.numberFault? v
  else if i.kind = selectKind then i.selectFault? v
  else none

end Input

end FormulaSheet
