import Whereabouts.Text.Affix

/-!
# What is handed over for printing

The program does not print itself: it hands markup to one library and messages to another. `Markup`
is what it builds, and a `Console` is what the two libraries make of texts. `Console.standard` knows
tags and nothing else: it leaves emoji codes, control characters and every backslash before no tag as
they are, and writes messages as they are, as to a terminal.
-/

namespace Whereabouts.Cli

structure Console where
  /-- The text, changed so that nothing in it is taken for a tag. -/
  escape : String → String
  /-- What is to be read of a text with markup, wherever its lines are broken. -/
  shown : String → String
  /-- Messages go to a terminal, and not to a file or another program. -/
  terminal : Bool
  /-- What is written for a message. -/
  echo : String → String

inductive Markup where
  | text (s : String)
  | escaped (s : String)
  /-- A message, escaped, behind a red mark. -/
  | error (message : String)
deriving DecidableEq, Repr

namespace Markup

def errorMark : String := "[red]Error:[/red] "

/-- The text that the console gets. -/
def given (console : Console) : Markup → String
  | text s => s
  | escaped s => console.escape s
  | error message => errorMark ++ console.escape message

def shown (console : Console) (m : Markup) : String := console.shown (m.given console)

end Markup

/-- The messages of a run, in their order. -/
structure Echoed where
  messages : List String := []
deriving DecidableEq, Repr

def Echoed.written (console : Console) (output : Echoed) : String :=
  String.join (output.messages.map console.echo)

/-! ## Tags -/

def beginsTagName (c : Char) : Bool := ('a' ≤ c && c ≤ 'z') || c = '#' || c = '/' || c = '@'

/-- A closing bracket comes before any other opening one. -/
def closesTag : List Char → Bool
  | [] => false
  | c :: cs => c = ']' || (c ≠ '[' && closesTag cs)

/-- What stands behind an opening bracket makes it a tag. -/
def continuesTag : List Char → Bool
  | [] => false
  | c :: cs => beginsTagName c && closesTag cs

/-- The text with a backslash before each tag and one more for each backslash there, where so many
stand right before the text. -/
def escapeTags : Nat → List Char → List Char
  | _, [] => []
  | slashes, c :: cs =>
    if c = '\\' then c :: escapeTags (slashes + 1) cs
    else if c = '[' ∧ continuesTag cs then List.replicate (slashes + 1) '\\' ++ c :: escapeTags 0 cs
    else c :: escapeTags 0 cs

/-- The text without its tags. The state is the number of backslashes that stand right before the
text, or nothing within a tag. An odd number of backslashes keeps a tag from being one. -/
def readTags : Option Nat → List Char → List Char
  | none, [] => []
  | none, c :: cs => if c = ']' then readTags (some 0) cs else readTags none cs
  | some slashes, [] => List.replicate slashes '\\'
  | some slashes, c :: cs =>
    if c = '\\' then readTags (some (slashes + 1)) cs
    else if c = '[' ∧ continuesTag cs then
      if slashes % 2 = 1 then List.replicate (slashes / 2) '\\' ++ c :: readTags (some 0) cs
      else List.replicate (slashes / 2) '\\' ++ readTags none cs
    else List.replicate slashes '\\' ++ c :: readTags (some 0) cs

def Console.standard : Console where
  escape s := String.ofList (escapeTags 0 s.toList)
  shown s := String.ofList (readTags (some 0) s.toList)
  terminal := true
  echo s := s ++ "\n"

/-- Where a text is wanted, markup is what the console shows for it. -/
instance : Coe Markup String := ⟨Markup.shown .standard⟩

instance : Coe Echoed String := ⟨Echoed.written .standard⟩

end Whereabouts.Cli
