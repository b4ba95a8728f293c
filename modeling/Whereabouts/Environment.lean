/-!
# Environments and accounts

What a program reads of its user: the variables and the entries of the account database.
`Environment.value?` treats a variable that is empty like one that is not set. Texts consist of
Unicode scalar values, here and everywhere: bytes that do not decode, for which the system would give
lone surrogates, are not represented.
-/

namespace Whereabouts

structure Accounts where
  own : Option String := none
  named : List (String × String) := []
deriving Repr

structure Environment where
  vars : List (String × String) := []
deriving Repr

namespace Environment

def get? (env : Environment) (name : String) : Option String := env.vars.lookup name

def set (env : Environment) (name value : String) : Environment :=
  ⟨(name, value) :: env.vars.filter (·.1 ≠ name)⟩

def unset (env : Environment) (name : String) : Environment := ⟨env.vars.filter (·.1 ≠ name)⟩

/-- The value of a variable that is set and not empty. -/
def value? (env : Environment) (name : String) : Option String :=
  (env.get? name).filter (· ≠ "")

def withoutEmpty (env : Environment) : Environment := ⟨env.vars.filter (·.2 ≠ "")⟩

end Environment

end Whereabouts
