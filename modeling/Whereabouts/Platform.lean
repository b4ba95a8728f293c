import Whereabouts.Text.Affix

/-!
# Platforms

A profile holds the conventions of one family of operating systems: which variables name the home,
whether the account database may be asked for it, and how a program learns its own path.
`profileFor` picks the profile by the platform's name.
-/

namespace Whereabouts

inductive Introspection where
  | proc
  | darwin
  | win32
  | unsupported
deriving DecidableEq, Repr

structure Profile where
  name : String
  homeVars : List String
  introspection : Introspection
  homeDriveVars : Option (String × String) := none
  usesAccounts : Bool := false
  programLink : Option String := none
  needsSysroot : Bool := false
deriving DecidableEq, Repr

namespace Profile

def linux : Profile :=
  { name := "linux", homeVars := ["HOME"], introspection := .proc, usesAccounts := true,
    programLink := some "/proc/self/exe" }

def bsd : Profile :=
  { name := "bsd", homeVars := ["HOME"], introspection := .proc, usesAccounts := true,
    programLink := some "/proc/curproc/file" }

def macos : Profile :=
  { name := "macos", homeVars := ["HOME"], introspection := .darwin, usesAccounts := true,
    needsSysroot := true }

def windows : Profile :=
  { name := "windows", homeVars := ["USERPROFILE"], introspection := .win32,
    homeDriveVars := some ("HOMEDRIVE", "HOMEPATH") }

def posix : Profile :=
  { name := "posix", homeVars := ["HOME"], introspection := .unsupported, usesAccounts := true }

end Profile

def profileFor (platform : String) : Profile :=
  if beginsWith platform "linux" then .linux
  else if platform = "darwin" then .macos
  else if platform = "win32" ∨ platform = "cygwin" then .windows
  else if occursIn "bsd".toList platform.toList || beginsWith platform "dragonfly" then .bsd
  else .posix

end Whereabouts
