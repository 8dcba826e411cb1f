import Microprocessor.Word.Hexadecimal

/-! # JSON

    Documents are written on one line, or over many with an indentation of
    two blanks for each level.  Numbers are kept as they are to be written.

      * `Json.compact` and `Json.pretty` are the two ways of writing;
      * `JsonForm` says what the values of other types are written as. -/

namespace Microprocessor

/-- A JSON value. -/
inductive Json
  | null
  | bool (value : Bool)
  | number (text : String)
  | string (value : String)
  | array (items : List Json)
  | object (members : List (String × Json))

namespace Json

/-- A whole number. -/
def ofNat (n : Nat) : Json :=
  .number (toString n)

/-- A whole number with a sign. -/
def ofInt (n : Int) : Json :=
  .number (toString n)

/-- A value that may be missing, which is then null. -/
def ofOption {α : Type} (f : α → Json) : Option α → Json
  | some value => f value
  | none => .null

/-- A value under the name of its case. -/
def tagged (name : String) (value : Json) : Json :=
  .object [(name, value)]

/-- The fields of a value under the name of its case. -/
def variant (name : String) (fields : List (String × Json)) : Json :=
  tagged name (.object fields)

/-- A character of a string. -/
def escaped (c : Char) : String :=
  match c with
  | '"' => "\\\""
  | '\\' => "\\\\"
  | '\n' => "\\n"
  | '\r' => "\\r"
  | '\t' => "\\t"
  | c =>
    if c.toNat = 8 then "\\b"
    else if c.toNat = 12 then "\\f"
    else if c.toNat < 32 then "\\u" ++ (hex 4 c.toNat).toLower
    else c.toString

/-- A string between quotation marks. -/
def quoted (text : String) : String :=
  "\"" ++ String.join (text.toList.map escaped) ++ "\""

/-- The text of the values that have no parts. -/
def scalarText : Json → String
  | .null => "null"
  | .bool true => "true"
  | .bool false => "false"
  | .number text => text
  | .string value => quoted value
  | .array _ => "[]"
  | .object _ => "\x7b\x7d"

mutual

/-- The value on one line. -/
def compact : Json → String
  | .array items => "[" ++ ",".intercalate (compactItems items) ++ "]"
  | .object members => "\x7b" ++ ",".intercalate (compactMembers members) ++ "\x7d"
  | scalar => scalar.scalarText

/-- The items of an array, each on one line. -/
def compactItems : List Json → List String
  | [] => []
  | item :: rest => compact item :: compactItems rest

/-- The members of an object, each on one line. -/
def compactMembers : List (String × Json) → List String
  | [] => []
  | (name, value) :: rest => (quoted name ++ ":" ++ compact value) :: compactMembers rest

end

/-- Lines of parts between brackets, at a level of indentation. -/
def block (level : Nat) (opening closing : String) (parts : List String) : String :=
  let indentation (level : Nat) : String := "".pushn ' ' (2 * level)
  if parts.isEmpty then opening ++ closing
  else
    opening ++ "\n"
      ++ ",\n".intercalate (parts.map fun part => indentation (level + 1) ++ part)
      ++ "\n" ++ indentation level ++ closing

mutual

/-- The value over many lines, at a level of indentation. -/
def prettyAt (level : Nat) : Json → String
  | .array items => block level "[" "]" (prettyItems (level + 1) items)
  | .object members => block level "\x7b" "\x7d" (prettyMembers (level + 1) members)
  | scalar => scalar.scalarText

/-- The items of an array, at a level of indentation. -/
def prettyItems (level : Nat) : List Json → List String
  | [] => []
  | item :: rest => prettyAt level item :: prettyItems level rest

/-- The members of an object, at a level of indentation. -/
def prettyMembers (level : Nat) : List (String × Json) → List String
  | [] => []
  | (name, value) :: rest =>
    (quoted name ++ ": " ++ prettyAt level value) :: prettyMembers level rest

end

/-- The value over many lines. -/
def pretty (value : Json) : String :=
  value.prettyAt 0

end Json

/-! ## Values of other types -/

/-- Types whose values are written as JSON. -/
class JsonForm (α : Type) where
  /-- The value as JSON. -/
  form : α → Json

/-- A value may stand where its form is wanted. -/
instance {α : Type} [JsonForm α] : CoeHead α Json := ⟨JsonForm.form⟩

instance : JsonForm Json := ⟨id⟩

instance : JsonForm Bool := ⟨.bool⟩

instance : JsonForm Nat := ⟨.ofNat⟩

instance : JsonForm Int := ⟨.ofInt⟩

instance : JsonForm UInt8 := ⟨fun n => .ofNat n.toNat⟩

instance : JsonForm UInt16 := ⟨fun n => .ofNat n.toNat⟩

instance : JsonForm UInt32 := ⟨fun n => .ofNat n.toNat⟩

instance : JsonForm UInt64 := ⟨fun n => .ofNat n.toNat⟩

instance : JsonForm String := ⟨.string⟩

instance {α : Type} [JsonForm α] : JsonForm (Option α) := ⟨.ofOption JsonForm.form⟩

instance {α : Type} [JsonForm α] : JsonForm (List α) where
  form items := .array (items.map JsonForm.form)

end Microprocessor
