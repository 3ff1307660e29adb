import AgenticFirewall.Mcp.Stdio

/-!
# The session of the stdio upstream

Everything `start` enters is left again, in the reverse order and once,
whether `start` fails halfway or `stop` ends the session; and the server is
spoken to only while its session is open.
-/

namespace AgenticFirewall

open Py Transition

namespace StdioMCPUpstream

variable {σ : Type} {session : Session σ} {u u' : Upstream σ} {as : List Use} {o : List Effect}

/-! ## Open contexts -/

/-- The contexts that are open after these entries and exits, the last one
entered first; `none` if one is left that is not the last. -/
def replay : List (Nat × Context) → List ContextEvent → Option (List (Nat × Context))
  | opened, [] => some opened
  | opened, .enter stack context :: es => replay ((stack, context) :: opened) es
  | [], .exit _ _ :: _ => none
  | last :: opened, .exit stack context :: es =>
      if last = (stack, context) then replay opened es else none

/-- The contexts of a stack, the last one entered first. -/
def frames (stack : Nat) (contexts : List Context) : List (Nat × Context) :=
  contexts.reverse.map fun context => (stack, context)

/-- The contexts of the session that is held. -/
def Connection.opened (c : Connection) : List (Nat × Context) :=
  match c.held with
  | none => []
  | some stack => frames stack StartEnd.started.entered

/-- No session is started over another one; the application starts its
upstream once, and stops it once. -/
def Fresh (u : Upstream σ) (a : Use) : Prop :=
  ∀ ending, a = .start ending → u.connection.held = none

end StdioMCPUpstream

end AgenticFirewall
