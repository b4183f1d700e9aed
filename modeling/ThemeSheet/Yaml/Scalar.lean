import ThemeSheet.Tree.Listed
import ThemeSheet.Yaml.Node
import ThemeSheet.Yaml.Plain

/-!
# The values of YAML scalars

A scalar without a tag means what it looks like; a scalar with a tag means what the tag says, if it
looks like it.

## Main definitions

* `Node.meaning`, `Node.scalarValue`, `Node.textualValue`;
* `Node.key`, the key that a node is, if it is a scalar.
-/

namespace ThemeSheet.Yaml.Node

/-- The tag of a kind of scalars. -/
def scalarTagOf (kind : String) : String := "tag:yaml.org,2002:" ++ kind

/-- What a scalar with a tag means, by the tag alone. -/
def meaningOfTag? (tag text : String) : Option Meaning :=
  if tag = scalarTagOf "str" then some .text
  else if tag = scalarTagOf "null" then some .null
  else if tag = scalarTagOf "int" then
    if Plain.isInt text.toList then some .int else none
  else if tag = scalarTagOf "float" then
    if Plain.isFloat text.toList || Plain.isWhole (Plain.unsigned text.toList) then some .float
    else none
  else if tag = scalarTagOf "bool" then
    let small := String.ofList (Text.lowerAscii text.toList)
    if Plain.trueWords.contains small then some (.bool true)
    else if Plain.falseWords.contains small then some (.bool false)
    else none
  else if tag = scalarTagOf "timestamp" then (writtenMoment? text.toList).map .moment
  else if tag = scalarTagOf "merge" then some .merge
  else if tag = scalarTagOf "value" then some .self
  else none

/-- What a scalar means. -/
def meaning (tag : Option String) (text : String) : Except Error Meaning :=
  match tag with
  | none => .ok (Plain.meaning text)
  | some t => match meaningOfTag? t text with
    | some m => .ok m
    | none => .error (.malformed .unknownTag)

/-- The moment that is written, or a mishap. -/
def momentOf (written : WrittenMoment) : Except Error Moment :=
  match written.value with
  | .ok m => .ok m
  | .error fault => .error (.unprepared (.noMoment fault))

/-- The integer that is written, or a mishap. -/
def intOf (text : String) : Except Error Int :=
  match Plain.int text with
  | .ok n => .ok n
  | .error mishap => .error (.unprepared mishap)

/-- The floating-point number that is written, or a mishap. -/
def floatOf (text : String) : Except Error Binary64 :=
  match Plain.float text with
  | .ok x => .ok x
  | .error mishap => .error (.unprepared mishap)

/-- The value of a scalar that is no mark. -/
def scalarValue (tag : Option String) (text : String) : Except Error Value := do
  match ← meaning tag text with
  | .null => return .null
  | .bool b => return .bool b
  | .int => return .int (← intOf text)
  | .float => return .float (← floatOf text)
  | .moment written => return .moment (← momentOf written)
  | .text => return .text text
  | .merge => throw (.malformed .unknownTag)
  | .self => throw (.malformed .unknownTag)

/-- The value of a scalar where the mark of the value itself is a text. -/
def textualValue (tag : Option String) (text : String) : Except Error Value := do
  match ← meaning tag text with
  | .self => return .text text
  | _ => scalarValue tag text

/-- The key of a value, or a fault. -/
def asKey (v : Value) : Except Error Key :=
  match v.key? with
  | some key => .ok key
  | none => .error (.malformed .keyNotScalar)

/-- The key that a node is. The mark of the value itself is a text. -/
def key : Node → Except Error Key
  | .scalar tag text _ => do asKey (← textualValue tag text)
  | _ => .error (.malformed .keyNotScalar)

end ThemeSheet.Yaml.Node
