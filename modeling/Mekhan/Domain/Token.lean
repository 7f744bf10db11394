import Mekhan.Infra.HashMap
import Mekhan.Infra.Json

/-!
# Identifiers and tokens

`domain/src/ids.rs` and `domain/src/token.rs`.
-/

namespace Mekhan

open Infra

abbrev Uuid := BitVec 128

/-- `DateTime<Utc>`, in nanoseconds since the epoch. -/
structure DateTime where
  nanos : Int
  deriving DecidableEq

structure PlaceId where
  name : String
  deriving DecidableEq

structure TransitionId where
  name : String
  deriving DecidableEq

structure TokenId where
  uuid : Uuid
  deriving DecidableEq

structure ArcId where
  uuid : Uuid
  deriving DecidableEq

/-- Full address for routing a reply token back to the requester net. -/
structure BridgeReplyAddress where
  netId : String
  placeName : String
  deriving DecidableEq

/-- Reply routing context attached to tokens of a request-reply exchange. -/
structure ReplyRouting where
  replyTo : Option BridgeReplyAddress
  replyChannels : Option (HashMap String BridgeReplyAddress)
  deriving DecidableEq

/-- A routing without the order in which its channels are iterated. -/
def ReplyRouting.view (r : ReplyRouting) :
    Option BridgeReplyAddress × Option (MapOf String BridgeReplyAddress) :=
  (r.replyTo, r.replyChannels.map (·.toFinmap))

inductive TokenColor where
  | unit
  | integer (value : Int)
  | data (value : Json)
  deriving DecidableEq

structure Token where
  id : TokenId
  color : TokenColor
  createdAt : DateTime
  createdByEvent : Option Nat
  replyRouting : Option ReplyRouting
  deriving DecidableEq

/-- `Token::new`, at the id and the time the environment hands out. -/
def Token.new (id : TokenId) (now : DateTime) (color : TokenColor) : Token where
  id := id
  color := color
  createdAt := now
  createdByEvent := none
  replyRouting := none

def Token.withReplyRouting (t : Token) (routing : ReplyRouting) : Token :=
  { t with replyRouting := some routing }

end Mekhan
