/-!
# Exceptions

What a widget raises to its caller: a name that all of them have, a slug that tells the widget, and a
message.
-/

namespace Stencil

/-- A failure that a widget reports. -/
structure WidgetException where
  name : String
  slug : String
  message : String
  deriving DecidableEq

namespace WidgetException

/-- The name that all failures have. -/
def commonName : String := "UXRocket"

/-- The slug of a failure that has no slug of its own. -/
def genericSlug : String := "Generic"

/-- A failure with a message. -/
def new (message : String) : WidgetException := ⟨commonName, genericSlug, message⟩

/-- The failure with a slug of its own. -/
def withSlug (e : WidgetException) (slug : String) : WidgetException := { e with slug := slug }

/-- A failure as it is printed. -/
def text (e : WidgetException) : String := e.name ++ " (" ++ e.slug ++ "): " ++ e.message

end WidgetException

end Stencil
