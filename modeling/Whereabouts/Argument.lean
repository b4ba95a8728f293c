import Whereabouts.Number.Shortest
import Whereabouts.Text.Quoted

/-!
# Arguments

The values that calls and messages take. `text` is how a value stands in a message, `literal` how it
stands inside a list: there texts are quoted.
-/

namespace Whereabouts

inductive Argument where
  | none
  | bool (b : Bool)
  | whole (n : Int)
  | real (x : Binary64)
  | text (s : String)
  | list (items : List Argument)
  | record (fields : List (String × Argument))
deriving Repr, Inhabited

namespace Argument

def realText : Binary64 → String
  | .finite negative m e =>
    String.ofList ((if negative then ['-'] else []) ++ Binary64.plainText m e)
  | .infinite negative => if negative then "-inf" else "inf"

mutual

/-- The value as it stands inside a list. -/
def literal : Argument → String
  | none => "None"
  | bool b => if b then "True" else "False"
  | whole n => toString n
  | real x => realText x
  | text s => quoted s
  | list items => "[" ++ String.intercalate ", " (literals items) ++ "]"
  | record fields => "\x7b" ++ String.intercalate ", " (fieldLiterals fields) ++ "\x7d"

def literals : List Argument → List String
  | [] => []
  | a :: as => literal a :: literals as

def fieldLiterals : List (String × Argument) → List String
  | [] => []
  | f :: fs => (quoted f.1 ++ ": " ++ literal f.2) :: fieldLiterals fs

end

/-- The value as it stands in a message. -/
def message : Argument → String
  | text s => s
  | a => literal a

def typeName : Argument → String
  | none => "NoneType"
  | bool _ => "bool"
  | whole _ => "int"
  | real _ => "float"
  | text _ => "str"
  | list _ => "list"
  | record _ => "dict"

/-- The whole number that a value is; truth values are zero and one. -/
def whole? : Argument → Option Int
  | bool b => some (if b then 1 else 0)
  | whole n => some n
  | _ => Option.none

/-- The number of sixty-four bits nearest to a numeric value. -/
def real? : Argument → Option Binary64
  | real x => some x
  | a => a.whole?.map fun n => Binary64.ofDecimal (n < 0) n.natAbs 0

end Argument

end Whereabouts
