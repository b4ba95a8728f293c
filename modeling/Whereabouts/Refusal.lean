/-!
# Refusals

The reasons for which the system refuses a call, with their numbers and texts. A path that holds
the zero character is refused before it reaches the system and has no number.
-/

namespace Whereabouts

inductive Refusal where
  | noEntry
  | denied
  | exist
  | notDirectory
  | isDirectory
  | invalid
  | nameTooLong
  | tooManyLinks
  | zeroByte
deriving DecidableEq, Repr

namespace Refusal

def number : Refusal → Nat
  | noEntry => 2
  | denied => 13
  | exist => 17
  | notDirectory => 20
  | isDirectory => 21
  | invalid => 22
  | nameTooLong => 36
  | tooManyLinks => 40
  | zeroByte => 0

def text : Refusal → String
  | noEntry => "No such file or directory"
  | denied => "Permission denied"
  | exist => "File exists"
  | notDirectory => "Not a directory"
  | isDirectory => "Is a directory"
  | invalid => "Invalid argument"
  | nameTooLong => "File name too long"
  | tooManyLinks => "Too many levels of symbolic links"
  | zeroByte => "embedded null byte"

end Refusal

end Whereabouts
