import Whereabouts.Argument

/-!
# Keys

The values of a function that is evaluated once are kept by its arguments. Two lists of arguments
have the same key if they are equal one by one: numbers and truth values by their exact value, texts by
their characters. Lists and records are no part of a key.
-/

namespace Whereabouts.Once

inductive KeyPart where
  | none
  | number (value : Rat)
  | infinite (negative : Bool)
  | text (s : String)
deriving DecidableEq, Repr

/-- The part of a key that an argument gives; its type's name if it gives none. -/
def keyPart : Argument → Except String KeyPart
  | .none => .ok .none
  | .bool b => .ok (.number (if b then 1 else 0))
  | .whole n => .ok (.number n)
  | .real (.finite negative m e) => .ok (.number (Binary64.exact negative m e))
  | .real (.infinite negative) => .ok (.infinite negative)
  | .text s => .ok (.text s)
  | a => .error a.typeName

/-- The key of a list of arguments, or the type of the first one that cannot be part of a key. -/
def keyOf : List Argument → Except String (List KeyPart)
  | [] => .ok []
  | a :: as => do pure ((← keyPart a) :: (← keyOf as))

end Whereabouts.Once
