import Transact.Value

/-! # Values as JSON

Two layouts: `compact` on one line, and `pretty` with one item to a line and two spaces for each
level. In a string only quotes, backslashes and control characters are escaped, the five common
control characters by a letter. -/

namespace Transact.Value

/-! ## Strings -/

/-- The letter that escapes a control character, if it has one. -/
def escapeLetter : Char → Option Char
  | '\x08' => some 'b'
  | '\t' => some 't'
  | '\n' => some 'n'
  | '\x0c' => some 'f'
  | '\r' => some 'r'
  | _ => none

/-- A character as it is written between quotes. -/
def escapeChar (c : Char) : List Char :=
  if c = '"' ∨ c = '\\' then ['\\', c]
  else match escapeLetter c with
    | some letter => ['\\', letter]
    | none =>
      if c.toNat < 0x20 then
        ['\\', 'u', '0', '0', Nat.digitChar (c.toNat / 16), Nat.digitChar (c.toNat % 16)]
      else [c]

/-- A text between quotes. -/
def quote (s : String) : String := .ofList ('"' :: s.toList.flatMap escapeChar ++ ['"'])

/-! ## Values -/

/-- Writes the parts of a list or record between brackets. Without a depth everything stands on one
line; with one, each part stands on a line of its own. -/
def bracket (depth : Option Nat) (left right : String) (parts : List String) : String :=
  match parts, depth with
  | [], _ => left ++ right
  | _, none => left ++ ",".intercalate parts ++ right
  | _, some d =>
    let margin (n : Nat) : String := .ofList ('\n' :: List.replicate (2 * n) ' ')
    left ++ margin (d + 1) ++ ("," ++ margin (d + 1)).intercalate parts ++ margin d ++ right

mutual

/-- Writes a value at a depth of nesting, or on one line if there is none. -/
def render (depth : Option Nat) : Value → String
  | null => "null"
  | bool b => if b then "true" else "false"
  | number n => n.text
  | text s => quote s
  | list items => bracket depth "[" "]" (renderItems (depth.map (· + 1)) items)
  | record fields => bracket depth "\x7b" "\x7d" (renderFields (depth.map (· + 1)) fields)

/-- The items of a list, each as it is written. -/
def renderItems (depth : Option Nat) : List Value → List String
  | [] => []
  | v :: rest => render depth v :: renderItems depth rest

/-- The fields of a record, each as it is written. -/
def renderFields (depth : Option Nat) : List (String × Value) → List String
  | [] => []
  | (key, v) :: rest =>
    (quote key ++ (if depth.isSome then ": " else ":") ++ render depth v) ::
      renderFields depth rest

end

/-- A value on one line. -/
def compact (v : Value) : String := v.render none

/-- A value on several lines, indented. -/
def pretty (v : Value) : String := v.render (some 0)

end Transact.Value
