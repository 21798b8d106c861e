/-!
# Widget faults

Why a widget's request is refused: it names a callback or a class that nobody registered.
-/

namespace Stencil

/-- Why a widget does not do what it is asked for. -/
inductive WidgetFault where
  /-- `suggestions` are registered names that are spelt alike. -/
  | unknownCallback (name : String) (suggestions : List String)
  | unknownClass (role : String)
  deriving DecidableEq

namespace WidgetFault

/-- What is said of a fault. -/
def message : WidgetFault → String
  | unknownCallback name _ => "Callback '" ++ name ++ "' is not registered"
  | unknownClass role => "No class registered for '" ++ role ++ "'"

end WidgetFault

end Stencil
