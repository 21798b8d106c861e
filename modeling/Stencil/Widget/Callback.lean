import Stencil.Data.Fields
import Stencil.Text.Distance
import Stencil.Text.Quoted
import Stencil.Widget.Fault

/-!
# Callbacks

A widget is given a callback as a handler, by the name of a registered handler, or not at all. A name
is only ever looked up; where it is not registered, names spelt alike are suggested.
-/

namespace Stencil

/-- What to do at an event. -/
inductive Callback (Handler : Type) where
  | handler (h : Handler)
  | named (name : String)
  | disabled

namespace Callback

variable {Handler : Type}

/-- A callback is off unless one is given. -/
def default : Callback Handler := disabled

/-- Handlers have no text of their own. -/
def describe : Callback Handler → String
  | handler _ => "Callback::Handler(..)"
  | named name => "Callback::Named(" ++ Text.quote name ++ ")"
  | disabled => "Callback::Disabled"

end Callback

/-- Handlers by name. -/
structure CallbackRegistry (Handler : Type) where
  handlers : Fields Handler

namespace CallbackRegistry

variable {Handler : Type}

/-- No handlers. -/
def empty : CallbackRegistry Handler := ⟨[]⟩

/-- Puts a handler in, in place of one of the same name. -/
def register (r : CallbackRegistry Handler) (name : String) (h : Handler) :
    CallbackRegistry Handler := ⟨r.handlers.insert name h⟩

/-- Whether there is a handler of a name. -/
def contains (r : CallbackRegistry Handler) (name : String) : Bool := r.handlers.contains name

/-- The greatest edit distance at which a name is still suggested. -/
def suggestionDistance : Nat := 3

/-- How many names are suggested at most. -/
def suggestionCount : Nat := 3

/-- The order of names with their distances: the closest first, and those equally close in order. -/
def precedes (p q : Nat × String) : Bool := decide (p.1 < q.1 ∨ (p.1 = q.1 ∧ p.2 ≤ q.2))

/-- The names close to `name` among those `known`, which may come in any order. -/
def ranked (known : List String) (name : String) : List String :=
  let scored := known.map fun other => (Text.distance name.toList other.toList, other)
  ((scored.filter fun p => decide (p.1 ≤ suggestionDistance)).mergeSort precedes).map Prod.snd

/-- The first few of the names that are close. -/
def closest (known : List String) (name : String) : List String :=
  (ranked known name).take suggestionCount

/-- The registered names closest to a name. -/
def suggestions (r : CallbackRegistry Handler) (name : String) : List String :=
  closest r.handlers.keys name

/-- The handler that an invocation runs, if it runs one. -/
def invoke (r : CallbackRegistry Handler) : Callback Handler → Except WidgetFault (Option Handler)
  | .handler h => .ok (some h)
  | .named name =>
    match r.handlers.get? name with
    | some h => .ok (some h)
    | none => .error (.unknownCallback name (r.suggestions name))
  | .disabled => .ok none

/-- Runs the handler of an invocation, and answers whether there was one to run. -/
def perform {m : Type → Type} [Monad m] (r : CallbackRegistry (m Unit)) (c : Callback (m Unit)) :
    m (Except WidgetFault Bool) :=
  match r.invoke c with
  | .ok (some handler) => do
    handler
    return .ok true
  | .ok none => return .ok false
  | .error fault => return .error fault

/-- A registry as it is printed: the names, but not the handlers. -/
def describe (r : CallbackRegistry Handler) : String :=
  "CallbackRegistry \x7b handlers: [" ++
    String.intercalate ", " (r.handlers.keys.map Text.quote) ++ "] \x7d"

end CallbackRegistry

end Stencil
