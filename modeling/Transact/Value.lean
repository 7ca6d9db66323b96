import Transact.Number.Text

/-! # Plain values

The values that foreign code may raise in place of a failure, or give to a completion. -/

namespace Transact

/-- A plain value, as it comes from outside. -/
inductive Value where
  | null
  | bool (b : Bool)
  | number (n : Number)
  | text (s : String)
  | list (items : List Value)
  | record (fields : List (String × Value))
deriving Inhabited

namespace Value

/-- The field in which a record keeps how it is turned into text. Plain values do not hold code, so that
a record with such a field has no text. -/
def textField : String := "toString"

mutual

/-- A value as message text, if it has one. A list is the texts of its items joined by commas, where an
absent item leaves nothing; the fields of a record are not shown. -/
def toText? : Value → Option String
  | null => some "null"
  | bool b => some (if b then "true" else "false")
  | number n => some n.text
  | text s => some s
  | list items => (itemTexts? items).map (",".intercalate ·)
  | record fields => if fields.any (·.1 = textField) then none else some "[object Object]"

/-- The texts of the items of a list, if all of them have one. -/
def itemTexts? : List Value → Option (List String)
  | [] => some []
  | null :: rest => (itemTexts? rest).map ("" :: ·)
  | v :: rest => return (← toText? v) :: (← itemTexts? rest)

end

end Value

end Transact
