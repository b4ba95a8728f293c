import Whereabouts.Session.State
import Whereabouts.Text.Blank

/-!
# System flags

The compiler flags that the platform requires: the root of the SDK on platforms that need one. The
SDK's path is that of the override, or what the SDK tool prints.
-/

namespace Whereabouts

def signalNames : List (Nat × String) :=
  [(1, "SIGHUP"), (2, "SIGINT"), (3, "SIGQUIT"), (4, "SIGILL"), (5, "SIGTRAP"), (6, "SIGABRT"),
   (7, "SIGBUS"), (8, "SIGFPE"), (9, "SIGKILL"), (10, "SIGUSR1"), (11, "SIGSEGV"),
   (12, "SIGUSR2"), (13, "SIGPIPE"), (14, "SIGALRM"), (15, "SIGTERM"), (16, "SIGSTKFLT"),
   (17, "SIGCHLD"), (18, "SIGCONT"), (19, "SIGSTOP"), (20, "SIGTSTP"), (21, "SIGTTIN"),
   (22, "SIGTTOU"), (23, "SIGURG"), (24, "SIGXCPU"), (25, "SIGXFSZ"), (26, "SIGVTALRM"),
   (27, "SIGPROF"), (28, "SIGWINCH"), (29, "SIGIO"), (30, "SIGPWR"), (31, "SIGSYS"),
   (34, "SIGRTMIN"), (64, "SIGRTMAX")]

def sdkCommand : String := "Command '" ++ quotedList ["xcrun", "--show-sdk-path"] ++ "'"

def SdkTool.output : SdkTool → Except String String
  | .notInstalled => .error (SystemError.message { why := .noEntry, path := some "xcrun" })
  | .timedOut => .error s!"{sdkCommand} timed out after 30 seconds"
  | .exited (.ofNat 0) output => .ok output
  | .exited (.ofNat (n + 1)) _ =>
    .error s!"{sdkCommand} returned non-zero exit status {n + 1}."
  | .exited (.negSucc n) _ =>
    match signalNames.lookup (n + 1) with
    | some name => .error s!"{sdkCommand} died with <Signals.{name}: {n + 1}>."
    | none => .error s!"{sdkCommand} died with unknown signal {n + 1}."

def sdkPathOf (output : String) : Option String :=
  match strip output.toList with
  | [] => none
  | cs => some (String.ofList cs)

def sdkPath (host : Host) : Action (Option String) := once .sdkPath do
  match (← get).env.value? "SDKROOT" with
  | some path => pure (some path)
  | none =>
    modify fun s => { s with sdkRuns := s.sdkRuns + 1 }
    match host.sdkTool.output with
    | .ok output => pure (sdkPathOf output)
    | .error why =>
      debug "flags" s!"xcrun failed: {why}"
      pure none

def systemFlags (host : Host) : Action (List String) := do
  if host.profile.needsSysroot then
    match ← sdkPath host with
    | some path => pure ["-isysroot", path]
    | none =>
      warn "flags" "No macOS SDK found; set SDKROOT or install the Xcode command line tools"
      pure []
  else pure []

def addSystemFlags (host : Host) (args : List String) : Action (List String) := do
  pure (args ++ (← systemFlags host))

end Whereabouts
