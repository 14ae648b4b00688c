/-!
# The wire protocol (`server/internal/wsproto/wsproto.go`, `web/src/protocol.ts`)

| here | there |
| --- | --- |
| `Handle`      | the ids the server draws with `randID` (`ids.go:30`): member, room and handshake ids and invite tokens, compared only for equality |
| `ClientMsg`   | `ClientMsg` (`wsproto.go:112`, the union of `protocol.ts:16`); a frame of any other type is `unknown` |
| `ServerMsg`   | `ServerMsg` (`wsproto.go:141`, `protocol.ts:36`); a field left out of the JSON is `none` |

The payload type `D` stands for the strings the relay passes on without looking inside: `body`,
`data` and `keyId`. The relay reads only their length.
-/

namespace E2EAnon

abbrev Handle := Nat

inductive Role
  | owner | member
deriving DecidableEq, Repr

/-- Reasons for room closure and errors (`wsproto.go:94-107`). -/
inductive Reason
  | ownerLeft | roomFull | roomMissing | badRequest | serverStop | idle | badInvite | rateLimited
  | notOwner | kicked | inRoom | fileRejected
deriving DecidableEq, Repr

inductive ServerType
  | welcome | presence | chat | roomClosed | error | inviteCreated | inviteRedeemed | redeemOk
  | pake | keyDeliver | memberKey | rekey | roster | fileStart | fileChunk | fileEnd | fileAbort
deriving DecidableEq, Repr

structure MemberInfo where
  id   : Handle
  nick : String
  role : Role
deriving DecidableEq, Repr

/-- A message sent to a client. -/
structure ServerMsg (D : Type) where
  type      : ServerType
  room      : Option Handle := none
  memberId  : Option Handle := none
  role      : Option Role := none
  members   : Option (List MemberInfo) := none
  fromId    : Option Handle := none
  nick      : Option String := none
  body      : Option D := none
  ts        : Option Int := none
  reason    : Option Reason := none
  error     : Option String := none
  token     : Option Handle := none
  handshake : Option Handle := none
  data      : Option D := none
  transfer  : Option String := none
  keyId     : Option D := none
  index     : Option Int := none
deriving DecidableEq

/-- A message received from a client, with the fields its type carries. -/
inductive ClientMsg (D : Type)
  | create (nick session : String)
  | redeem (token : Handle) (nick session : String)
  | msg (body : D)
  | leave
  | invite
  | pake (handshake : Handle) (data : D)
  | keyDeliver (handshake : Handle) (data : D)
  | memberKey (handshake : Handle) (data : D)
  | enter (handshake : Handle)
  | rekey (target : Handle) (data : D)
  | transfer (target : Handle)
  | kick (target : Handle)
  | roster (data : D)
  | fileStart (transfer : String) (keyId data : D)
  | fileChunk (transfer : String) (index : Int) (data : D)
  | fileEnd (transfer : String)
  | fileAbort (transfer : String)
  | unknown
deriving DecidableEq

/-- What the relay reads of a payload: `len(m.Data)`. -/
class Payload (D : Type) where
  len : D → Nat

instance : Payload String where
  len d := d.utf8ByteSize

end E2EAnon
