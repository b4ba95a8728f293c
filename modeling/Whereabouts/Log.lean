import Whereabouts.Text.Affix
import Whereabouts.Text.Pieces
import Whereabouts.Text.Template

/-!
# Log records

A record is written as its tag in brackets and its message. The tag is the logger's name without the
name of the toolchain in front; the message is a template with its arguments.
-/

namespace Whereabouts

/-- What the names of the toolchain's loggers begin with. -/
def loggerRoot : String := "jankenv."

def tagFor (logger : String) : String :=
  if beginsWith logger loggerRoot then String.ofList (logger.toList.drop loggerRoot.length)
  else logger

inductive Level where
  | debug
  | info
  | warning
  | error
deriving DecidableEq, Repr

/-- A message of this level is written by a program that is verbose or not. -/
def Level.isShown (verbose : Bool) : Level → Bool
  | .debug | .info => verbose
  | .warning | .error => true

/-- The toolchain's logger. Each handler writes every record that is shown; one that propagates hands
them to the handlers of others, too. -/
structure Logger where
  isSetUp : Bool := false
  verbose : Bool := false
  handlers : Nat := 0
  propagates : Bool := true
deriving DecidableEq, Repr

namespace Logger

/-- Only the first time adds a handler. Later ones can still make the logger verbose. -/
def setUp (l : Logger) (verbose : Bool) : Logger where
  isSetUp := true
  verbose := (l.isSetUp && l.verbose) || verbose
  handlers := if l.isSetUp then l.handlers else l.handlers + 1
  propagates := l.isSetUp && l.propagates

/-- What is written for a record that is shown. -/
def written (l : Logger) (text : String) : List String :=
  (List.replicate l.handlers (cut '\n' text)).flatten

end Logger

def formatRecord (logger template : String) (args : List Argument) :
    Except TemplateFault String :=
  (fillTemplate template args).map fun message => s!"[{tagFor logger}] {message}"

end Whereabouts
