/-
  What can be wrong with a message type or an envelope.
-/
import Mathlib.Tactic.Common

namespace SisaMessaging.Core

/-- A message type, an envelope or one of its CloudEvents attributes that isn't valid. -/
inductive EnvelopeError where
  /-- The message type, and which rule it breaks. -/
  | invalidMessageType (value reason : String)
  /-- The attribute's or extension's name, and what is wrong with it. -/
  | invalidAttribute (name reason : String)
  /-- A required attribute is missing. -/
  | missingAttribute (name : String)
  deriving DecidableEq, Repr

/-- `Display`, with `debug` as the `Debug` of a string. -/
def EnvelopeError.toText (debug : String → String) : EnvelopeError → String
  | invalidMessageType value reason => "invalid message type " ++ debug value ++ ": " ++ reason
  | invalidAttribute name reason =>
    "invalid CloudEvents attribute `" ++ name ++ "`: " ++ reason
  | missingAttribute name => "missing CloudEvents attribute `" ++ name ++ "`"

/-- `EnvelopeError::invalid`. -/
def EnvelopeError.invalid (name reason : String) : EnvelopeError := .invalidAttribute name reason

end SisaMessaging.Core
