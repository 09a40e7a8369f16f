import EventSourcing.Json.Basic
import EventSourcing.Decimal.Layout

/-!
Values as text, without blanks or laid out over lines.
Inside a string only the quote, the backslash and the controls are escaped.
-/
namespace EventSourcing.Json

def escapeChar (c : Char) : String :=
  if c = '\"' then "\\\""
  else if c = '\\' then "\\\\"
  else if c = '\n' then "\\n"
  else if c = '\r' then "\\r"
  else if c = '\t' then "\\t"
  else if c = '\x08' then "\\b"
  else if c = '\x0c' then "\\f"
  else if c.toNat < 0x20 then
    let ds := Nat.toDigits 16 c.toNat
    "\\u" ++ Decimal.zeros (4 - ds.length) ++ String.ofList ds
  else String.singleton c

def stringText (s : String) : String :=
  "\"" ++ String.join (s.toList.map escapeChar) ++ "\""

mutual

def text : Json → String
  | .null => "null"
  | .bool b => if b then "true" else "false"
  | .int n => toString n
  | .float x => Decimal.fileLayout.float x
  | .str s => stringText s
  | .arr items => "[" ++ ",".intercalate (itemTexts items) ++ "]"
  | .obj fields => "\x7b" ++ ",".intercalate (fieldTexts fields) ++ "\x7d"

def itemTexts : List Json → List String
  | [] => []
  | j :: rest => text j :: itemTexts rest

def fieldTexts : List (String × Json) → List String
  | [] => []
  | (k, v) :: rest => (stringText k ++ ":" ++ text v) :: fieldTexts rest

end

/-- A line break and the blanks of a level. -/
def newline (level : Nat) : String := "\n" ++ String.ofList (List.replicate (2 * level) ' ')

/-- Parts between marks, each on a line of its own; without parts the marks stand together. -/
def layOut (opening closing : String) (level : Nat) (parts : List String) : String :=
  if parts.isEmpty then opening ++ closing
  else opening ++ ",".intercalate (parts.map (newline (level + 1) ++ ·)) ++ newline level ++ closing

mutual

def pretty (level : Nat) : Json → String
  | .arr items => layOut "[" "]" level (prettyItems (level + 1) items)
  | .obj fields => layOut "\x7b" "\x7d" level (prettyFields (level + 1) fields)
  | .null => "null"
  | .bool b => if b then "true" else "false"
  | .int n => toString n
  | .float x => Decimal.fileLayout.float x
  | .str s => stringText s

def prettyItems (level : Nat) : List Json → List String
  | [] => []
  | j :: rest => pretty level j :: prettyItems level rest

def prettyFields (level : Nat) : List (String × Json) → List String
  | [] => []
  | (k, v) :: rest => (stringText k ++ ": " ++ pretty level v) :: prettyFields level rest

end

end EventSourcing.Json
