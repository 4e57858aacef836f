/-
  The transport contracts' data: what can go wrong, and what a transport knows of an endpoint.
-/
import SisaMessaging.Core.Message

namespace SisaMessaging.Core

/-- Why a transport couldn't do what was asked. -/
inductive TransportError where
  | closed
  /-- The broker refused: what the transport was doing, and the client's error as text. -/
  | broker (context source : String)
  deriving DecidableEq

/-- `Display`. -/
def TransportError.toText : TransportError → String
  | closed => "the transport is closed"
  | broker context source => context ++ ": " ++ source

/-- What a transport needs to know about an endpoint to subscribe it. -/
structure EndpointSpec where
  name : String
  messageTypes : List MessageType

end SisaMessaging.Core
