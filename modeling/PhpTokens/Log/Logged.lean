import PhpTokens.Log.Event

/-!
# Results with what was reported on the way

A function that reports events returns them, in order, beside its value. Who
receives them, and which of them, is decided elsewhere.
-/

namespace PhpTokens.Log

/-- A value, and the events reported while it was computed. -/
structure Logged (α : Type) where
  value : α
  events : List Event

namespace Logged

instance : Monad Logged where
  pure a := ⟨a, []⟩
  bind x f := ⟨(f x.value).value, x.events ++ (f x.value).events⟩

/-- Report one event. -/
def report (e : Event) : Logged Unit := ⟨(), [e]⟩

end Logged

end PhpTokens.Log
