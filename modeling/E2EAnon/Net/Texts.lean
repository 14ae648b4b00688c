import E2EAnon.Lib.JsonText
import E2EAnon.Http.ClientIP
import E2EAnon.Relay.Blind

/-!
# Frames as texts (`wsproto.go:110-162`, `protocol.ts:16-72`)

| here | there |
| --- | --- |
| `Frame`, `Frame.members` | the object literals `main.ts` gives to `send` (`main.ts:230`), as `ClientMsg` (`protocol.ts:16`) types them |
| `WsClientMsg`, `unmarshal` | `wsproto.ClientMsg` and what `wsjson.Read` makes of a text: `json.Unmarshal` |
| `WsClientMsg.dispatch` | the switches on `Type` (`server.go:141`, `:255`, `:294`) |
| `WsServerMsg`, `marshal` | `wsproto.ServerMsg` and what `wsjson.Write` makes of it: `json.Encoder` |
| `JsServerMsg`, `readMsg` | the properties `onMessage` (`main.ts:234`) and its handlers read of `JSON.parse`'s result |

The two ends name the same fields twice over, in different languages. `client_read` and
`server_read` say that what one end writes is what the other reads, for every frame and all texts in
it. A frame is UTF-8: a lone surrogate of the browser's reaches the relay as U+FFFD.
-/

namespace E2EAnon.Net

open Lib Relay

/-! ## Strings on both sides -/

/-- A string of the browser's as Go reads it. -/
def goString (s : JsString) : String := String.ofList (JsString.toChars s)

theorem goString_lit (s : String) : goString (JsString.lit s) = s := by
  rw [goString, JsString.lit, JsString.toChars_ofChars, String.ofList_toList]

/-- The ids the relay draws, as texts. -/
structure Ids where
  name     : Handle → String
  id       : String → Handle
  id_name  : ∀ h, id (name h) = h
  nonempty : ∀ h, name h ≠ ""
  trimmed  : ∀ h, Http.trimSpace (name h) = name h

instance : Inhabited Ids where
  default := {
    name h := String.ofList (List.replicate (h + 1) 'x')
    id s := s.toList.length - 1
    id_name h := by simp
    nonempty h := by
      intro hh
      have hlen := congrArg (fun s : String => s.toList.length) hh
      simp at hlen
    trimmed h := by
      have hx : isSpace 'x' = false := by decide
      have hdrop : (List.replicate (h + 1) 'x').dropWhile isSpace = List.replicate (h + 1) 'x' := by
        rw [List.replicate_succ, List.dropWhile_cons_of_neg (by simp [hx])]
      simp only [Http.trimSpace, String.toList_ofList, hdrop, List.reverse_replicate] }

/-! ## From the browser to the relay -/

inductive Frame
  | create (nick session : JsString)
  | redeem (token nick session : JsString)
  | msg (body : JsString)
  | leave
  | invite
  | pake (handshake data : JsString)
  | keyDeliver (handshake data : JsString)
  | memberKey (handshake data : JsString)
  | enter (handshake : JsString)
  | rekey (target data : JsString)
  | transfer (target : JsString)
  | kick (target : JsString)
  | roster (data : JsString)
  | fileStart (transfer keyId data : JsString)
  /-- The index counts the chunks of a file. -/
  | fileChunk (transfer : JsString) (index : Fin (2 ^ 53)) (data : JsString)
  | fileEnd (transfer : JsString)
  | fileAbort (transfer : JsString)

/-- A member of an object literal. -/
def prop (name : String) (s : JsString) : JsString × Json.Field := (JsString.lit name, .str s)

/-- `type` and the rest. -/
def literal (type : String) (rest : List (JsString × Json.Field)) : List (JsString × Json.Field) :=
  prop "type" (JsString.lit type) :: rest

def Frame.members : Frame → List (JsString × Json.Field)
  | .create nick session => literal "create" [prop "nick" nick, prop "session" session]
  | .redeem token nick session =>
    literal "redeem" [prop "token" token, prop "nick" nick, prop "session" session]
  | .msg body => literal "msg" [prop "body" body]
  | .leave => literal "leave" []
  | .invite => literal "invite" []
  | .pake h d => literal "pake" [prop "handshake" h, prop "data" d]
  | .keyDeliver h d => literal "key_deliver" [prop "handshake" h, prop "data" d]
  | .memberKey h d => literal "member_key" [prop "handshake" h, prop "data" d]
  | .enter h => literal "enter" [prop "handshake" h]
  | .rekey t d => literal "rekey" [prop "target" t, prop "data" d]
  | .transfer t => literal "transfer" [prop "target" t]
  | .kick t => literal "kick" [prop "target" t]
  | .roster d => literal "roster" [prop "data" d]
  | .fileStart t k d => literal "file_start" [prop "transfer" t, prop "keyId" k, prop "data" d]
  | .fileChunk t i d => literal "file_chunk"
      [prop "transfer" t, (JsString.lit "index", .num i), prop "data" d]
  | .fileEnd t => literal "file_end" [prop "transfer" t]
  | .fileAbort t => literal "file_abort" [prop "transfer" t]

/-- `JSON.stringify(msg)`. -/
def Frame.text (f : Frame) : JsString := Json.stringify f.members

structure WsClientMsg where
  type      : String := ""
  room      : String := ""
  nick      : String := ""
  body      : String := ""
  token     : String := ""
  handshake : String := ""
  data      : String := ""
  target    : String := ""
  transfer  : String := ""
  keyId     : String := ""
  index     : Int := 0
  session   : String := ""
deriving DecidableEq

/-- The names in the `json` tags. -/
def clientNames : List String :=
  ["type", "room", "nick", "body", "token", "handshake", "data", "target", "transfer", "keyId", "index",
    "session"]

/-- The upper-case letter a character is equal to but for its case: `ſ` and the Kelvin sign fold to
letters of ASCII. -/
def foldRune (c : Char) : Char :=
  if c.toNat = 0x17F then 'S' else if c.toNat = 0x212A then 'K' else c.toUpper

/-- The field a name in the text means: of that very name, or else the first of that name but for the
case. -/
def fieldOf (names : List String) (key : String) : Option String :=
  if key ∈ names then some key
  else names.find? fun n => n.toList.map foldRune = key.toList.map foldRune

/-- `strconv.ParseInt(text, 10, 64)`. -/
def parseInt64 (text : JsString) : Option Int :=
  (Json.intValue text).filter fun n => -2 ^ 63 ≤ n ∧ n < 2 ^ 63

def setString (m : WsClientMsg) (s : String) : String → WsClientMsg
  | "type" => { m with type := s }
  | "room" => { m with room := s }
  | "nick" => { m with nick := s }
  | "body" => { m with body := s }
  | "token" => { m with token := s }
  | "handshake" => { m with handshake := s }
  | "data" => { m with data := s }
  | "target" => { m with target := s }
  | "transfer" => { m with transfer := s }
  | "keyId" => { m with keyId := s }
  | "session" => { m with session := s }
  | _ => m

/-- One member of the text: an unknown name is skipped, `null` leaves the field as it is, a value of
another type is an error. -/
def setMember (m : WsClientMsg) (kv : JsString × Json) : Option WsClientMsg :=
  match fieldOf clientNames (goString kv.1), kv.2 with
  | none, _ | _, .null => some m
  | some "index", .num t => (parseInt64 t).map fun i => { m with index := i }
  | some "index", _ => none
  | some name, .str s => some (setString m (goString s) name)
  | some _, _ => none

/-- `json.Unmarshal`; `none` is an error. -/
def unmarshal (text : JsString) : Option WsClientMsg :=
  match Json.parse text with
  | some (.obj kvs) => kvs.foldlM setMember {}
  | some .null => some {}
  | _ => none

/-- The case of the frame's `Type`. -/
def WsClientMsg.dispatch (ids : Ids) (m : WsClientMsg) : ClientMsg String :=
  match m.type with
  | "create" => .create m.nick m.session
  | "redeem" => .redeem (ids.id (Http.trimSpace m.token)) m.nick m.session
  | "msg" => .msg m.body
  | "leave" => .leave
  | "invite" => .invite
  | "pake" => .pake (ids.id m.handshake) m.data
  | "key_deliver" => .keyDeliver (ids.id m.handshake) m.data
  | "member_key" => .memberKey (ids.id m.handshake) m.data
  | "enter" => .enter (ids.id m.handshake)
  | "rekey" => .rekey (ids.id m.target) m.data
  | "transfer" => .transfer (ids.id m.target)
  | "kick" => .kick (ids.id m.target)
  | "roster" => .roster m.data
  | "file_start" => .fileStart m.transfer m.keyId m.data
  | "file_chunk" => .fileChunk m.transfer m.index m.data
  | "file_end" => .fileEnd m.transfer
  | "file_abort" => .fileAbort m.transfer
  | _ => .unknown

/-- What the browser means by a frame. -/
def Frame.meant (ids : Ids) : Frame → ClientMsg String
  | .create nick session => .create (goString nick) (goString session)
  | .redeem token nick session =>
    .redeem (ids.id (Http.trimSpace (goString token))) (goString nick) (goString session)
  | .msg body => .msg (goString body)
  | .leave => .leave
  | .invite => .invite
  | .pake h d => .pake (ids.id (goString h)) (goString d)
  | .keyDeliver h d => .keyDeliver (ids.id (goString h)) (goString d)
  | .memberKey h d => .memberKey (ids.id (goString h)) (goString d)
  | .enter h => .enter (ids.id (goString h))
  | .rekey t d => .rekey (ids.id (goString t)) (goString d)
  | .transfer t => .transfer (ids.id (goString t))
  | .kick t => .kick (ids.id (goString t))
  | .roster d => .roster (goString d)
  | .fileStart t k d => .fileStart (goString t) (goString k) (goString d)
  | .fileChunk t i d => .fileChunk (goString t) i.val (goString d)
  | .fileEnd t => .fileEnd (goString t)
  | .fileAbort t => .fileAbort (goString t)

theorem setMember_str (m : WsClientMsg) {name : String} (hname : name ∈ clientNames)
    (hindex : name ≠ "index") (s : JsString) :
    setMember m (JsString.lit name, .str s) = some (setString m (goString s) name) := by
  have hfield : fieldOf clientNames name = some name := if_pos hname
  simp only [setMember, goString_lit, hfield]

theorem setMember_index (m : WsClientMsg) (i : Fin (2 ^ 53)) :
    setMember m (JsString.lit "index", .num (Json.natText i)) = some { m with index := i.val } := by
  have hfield : fieldOf clientNames "index" = some "index" := if_pos (by decide)
  have hvalue : Json.intValue (Json.natText i.val) = some (i.val : Int) :=
    Json.intValue_intText (.ofNat i.val)
  have hrange : (i.val : Int) < 2 ^ 63 := by
    have hlt := i.isLt
    omega
  simp only [setMember, goString_lit, hfield, parseInt64, hvalue]
  simp [Option.filter]
  omega

/-- The frame of a message of the model, with the ids as the relay gave them out. -/
def Frame.of (ids : Ids) : ClientMsg JsString → Option Frame
  | .create nick session => some (.create (JsString.lit nick) (JsString.lit session))
  | .redeem token nick session =>
    some (.redeem (JsString.lit (ids.name token)) (JsString.lit nick) (JsString.lit session))
  | .msg d => some (.msg d)
  | .leave => some .leave
  | .invite => some .invite
  | .pake h d => some (.pake (JsString.lit (ids.name h)) d)
  | .keyDeliver h d => some (.keyDeliver (JsString.lit (ids.name h)) d)
  | .memberKey h d => some (.memberKey (JsString.lit (ids.name h)) d)
  | .enter h => some (.enter (JsString.lit (ids.name h)))
  | .rekey t d => some (.rekey (JsString.lit (ids.name t)) d)
  | .transfer t => some (.transfer (JsString.lit (ids.name t)))
  | .kick t => some (.kick (JsString.lit (ids.name t)))
  | .roster d => some (.roster d)
  | .fileStart t k d => some (.fileStart (JsString.lit t) k d)
  | .fileChunk t i d =>
    if h : 0 ≤ i ∧ i < 2 ^ 53 then some (.fileChunk (JsString.lit t) ⟨i.toNat, by omega⟩ d) else none
  | .fileEnd t => some (.fileEnd (JsString.lit t))
  | .fileAbort t => some (.fileAbort (JsString.lit t))
  | .unknown => none

/-- What the browser writes for a message of the model means that message: an id the relay gave out
comes back as the same id. -/
theorem meant_of {ids : Ids} {m : ClientMsg JsString} {f : Frame} (h : Frame.of ids m = some f) :
    f.meant ids = m.map goString := by
  cases m with
  | fileChunk t i d =>
    simp only [Frame.of] at h
    split at h <;> cases h
    rename_i hi
    simp only [Frame.meant, ClientMsg.map, goString_lit, Int.toNat_of_nonneg hi.1]
  | unknown => cases h
  | _ =>
    cases h
    simp only [Frame.meant, ClientMsg.map, goString_lit, ids.trimmed, ids.id_name]

/-! ## From the relay to the browser -/

structure WsMemberInfo where
  id   : String
  nick : String
  role : String

structure WsServerMsg where
  type      : String
  room      : String
  memberId  : String
  role      : String
  members   : List WsMemberInfo
  fromId    : String
  nick      : String
  body      : String
  ts        : Int
  reason    : String
  error     : String
  token     : String
  handshake : String
  data      : String
  transfer  : String
  keyId     : String
  index     : Int

/-! ### `encoding/json` -/

/-- `appendString` with `escapeHTML`, of one character. -/
def goQuoteChar (c : Char) : JsString :=
  match c.toNat with
  | 8 => [Json.backslash, 98]
  | 9 => [Json.backslash, 116]
  | 10 => [Json.backslash, 110]
  | 12 => [Json.backslash, 102]
  | 13 => [Json.backslash, 114]
  | 34 => [Json.backslash, Json.dquote]
  | 92 => [Json.backslash, Json.backslash]
  | n =>
    -- `<`, `>`, `&` and the two separators of JavaScript
    if n < 0x20 ∨ n = 0x3C ∨ n = 0x3E ∨ n = 0x26 ∨ n = 0x2028 ∨ n = 0x2029 then Json.unicodeEscape n
    else JsString.charUnits c

def goQuote (s : String) : JsString := Json.quoted (s.toList.flatMap goQuoteChar)

def goMember (name : String) (value : JsString) : JsString := goQuote name ++ Json.colon :: value

def WsMemberInfo.text (m : WsMemberInfo) : JsString :=
  Json.objectText [goMember "id" (goQuote m.id), goMember "nick" (goQuote m.nick),
    goMember "role" (goQuote m.role)]

inductive GoValue
  | str (s : String)
  | int (n : Int)
  | members (ms : List WsMemberInfo)

def GoValue.text : GoValue → JsString
  | .str s => goQuote s
  | .int n => Json.intText n
  | .members ms => Json.arrayText (ms.map WsMemberInfo.text)

/-- `isEmptyValue`. -/
def GoValue.isEmpty : GoValue → Bool
  | .str s => s = ""
  | .int n => n = 0
  | .members ms => ms.isEmpty

/-- A field with its `json` tag. -/
structure GoField where
  name      : String
  value     : GoValue
  omitempty : Bool := true

def GoField.kept (f : GoField) : Bool := !(f.omitempty && f.value.isEmpty)

def encodeStruct (fs : List GoField) : JsString :=
  Json.objectText ((fs.filter GoField.kept).map fun f => goMember f.name f.value.text)

def WsServerMsg.fields (m : WsServerMsg) : List GoField :=
  [{ name := "type", value := .str m.type, omitempty := false },
    { name := "room", value := .str m.room },
    { name := "memberId", value := .str m.memberId },
    { name := "role", value := .str m.role },
    { name := "members", value := .members m.members },
    { name := "from", value := .str m.fromId },
    { name := "nick", value := .str m.nick },
    { name := "body", value := .str m.body },
    { name := "ts", value := .int m.ts },
    { name := "reason", value := .str m.reason },
    { name := "error", value := .str m.error },
    { name := "token", value := .str m.token },
    { name := "handshake", value := .str m.handshake },
    { name := "data", value := .str m.data },
    { name := "transfer", value := .str m.transfer },
    { name := "keyId", value := .str m.keyId },
    { name := "index", value := .int m.index, omitempty := false }]

/-- `json.Encoder.Encode`. -/
def marshal (m : WsServerMsg) : JsString := encodeStruct m.fields ++ [10]

/-! ### The values the relay gives to the fields -/

def ServerType.name : ServerType → String
  | .welcome => "welcome"
  | .presence => "presence"
  | .chat => "chat"
  | .roomClosed => "room_closed"
  | .error => "error"
  | .inviteCreated => "invite_created"
  | .inviteRedeemed => "invite_redeemed"
  | .redeemOk => "redeem_ok"
  | .pake => "pake"
  | .keyDeliver => "key_deliver"
  | .memberKey => "member_key"
  | .rekey => "rekey"
  | .roster => "roster"
  | .fileStart => "file_start"
  | .fileChunk => "file_chunk"
  | .fileEnd => "file_end"
  | .fileAbort => "file_abort"

def Role.name : Role → String
  | .owner => "owner"
  | .member => "member"

def Reason.name : Reason → String
  | .ownerLeft => "owner_left"
  | .roomFull => "room_full"
  | .roomMissing => "room_not_found"
  | .badRequest => "bad_request"
  | .serverStop => "server_shutdown"
  | .idle => "idle_timeout"
  | .badInvite => "invalid_invite"
  | .rateLimited => "rate_limited"
  | .notOwner => "not_owner"
  | .kicked => "kicked"
  | .inRoom => "already_in_room"
  | .fileRejected => "file_rejected"

section
variable (ids : Ids)

def wireMember (m : MemberInfo) : WsMemberInfo where
  id := ids.name m.id
  nick := m.nick
  role := Role.name m.role

/-- The struct behind a frame: a field that is left out has its zero value. -/
def wire (m : ServerMsg String) : WsServerMsg where
  type := ServerType.name m.type
  room := m.room.elim "" ids.name
  memberId := m.memberId.elim "" ids.name
  role := m.role.elim "" Role.name
  members := (m.members.getD []).map (wireMember ids)
  fromId := m.fromId.elim "" ids.name
  nick := m.nick.getD ""
  body := m.body.getD ""
  ts := m.ts.getD 0
  reason := m.reason.elim "" Reason.name
  error := m.error.getD ""
  token := m.token.elim "" ids.name
  handshake := m.handshake.elim "" ids.name
  data := m.data.getD ""
  transfer := m.transfer.getD ""
  keyId := m.keyId.getD ""
  index := m.index.getD 0

end

/-! ### What the browser reads -/

/-- The properties of `ServerMsg` (`protocol.ts:36`); `none` is `undefined`. -/
structure JsServerMsg where
  type      : Option Json := none
  room      : Option Json := none
  memberId  : Option Json := none
  role      : Option Json := none
  members   : Option Json := none
  fromId    : Option Json := none
  nick      : Option Json := none
  body      : Option Json := none
  ts        : Option Json := none
  reason    : Option Json := none
  error     : Option Json := none
  token     : Option Json := none
  handshake : Option Json := none
  data      : Option Json := none
  transfer  : Option Json := none
  keyId     : Option Json := none
  index     : Option Json := none

def properties (kvs : List (JsString × Json)) : JsServerMsg :=
  let get name := Json.property kvs (JsString.lit name)
  { type := get "type"
    room := get "room"
    memberId := get "memberId"
    role := get "role"
    members := get "members"
    fromId := get "from"
    nick := get "nick"
    body := get "body"
    ts := get "ts"
    reason := get "reason"
    error := get "error"
    token := get "token"
    handshake := get "handshake"
    data := get "data"
    transfer := get "transfer"
    keyId := get "keyId"
    index := get "index" }

/-- `onMessage` (`main.ts:234`) up to its switch; `none` where it is left before. -/
def readMsg (text : JsString) : Option JsServerMsg :=
  match Json.parse text with
  | some (.obj kvs) => some (properties kvs)
  | none | some .null => none
  | some _ => some {}

def jsonText (s : String) : Json := .str (JsString.lit s)

/-- A text that is there only if it is not empty. -/
def present (s : Option String) : Option Json := (s.filter (· ≠ "")).map jsonText

def memberJson (ids : Ids) (m : MemberInfo) : Json :=
  .obj [(JsString.lit "id", jsonText (ids.name m.id)), (JsString.lit "nick", jsonText m.nick),
    (JsString.lit "role", jsonText (Role.name m.role))]

/-- What a browser is to see of a frame. -/
def seen (ids : Ids) (m : ServerMsg String) : JsServerMsg where
  type := some (jsonText (ServerType.name m.type))
  room := m.room.map fun h => jsonText (ids.name h)
  memberId := m.memberId.map fun h => jsonText (ids.name h)
  role := m.role.map fun r => jsonText (Role.name r)
  members := (m.members.filter (· ≠ [])).map fun ms => .arr (ms.map (memberJson ids))
  fromId := m.fromId.map fun h => jsonText (ids.name h)
  nick := present m.nick
  body := present m.body
  ts := (m.ts.filter (· ≠ 0)).map fun t => .num (Json.intText t)
  reason := m.reason.map fun r => jsonText (Reason.name r)
  error := present m.error
  token := m.token.map fun h => jsonText (ids.name h)
  handshake := m.handshake.map fun h => jsonText (ids.name h)
  data := present m.data
  transfer := present m.transfer
  keyId := present m.keyId
  index := some (.num (Json.intText (m.index.getD 0)))

/-! ### The text of a struct -/

theorem spells_goQuoteChar (c : Char) : Json.Spells (goQuoteChar c) (JsString.charUnits c) := by
  have hunits : c.toNat < 0x10000 → JsString.charUnits c = [UInt16.ofNat c.toNat] :=
    fun h => if_pos h
  have hshort : ∀ (n : Nat) (u : UInt16), c.toNat = n → n < 0x10000 → u ≠ 117 →
      Json.escaped u = some (UInt16.ofNat n) → Json.Spells [Json.backslash, u] (JsString.charUnits c) := by
    rintro n u rfl hn hu he
    rw [hunits hn]
    exact Json.spells_short he hu
  unfold goQuoteChar
  split
  · exact hshort 8 98 ‹_› (by decide) (by decide) rfl
  · exact hshort 9 116 ‹_› (by decide) (by decide) rfl
  · exact hshort 10 110 ‹_› (by decide) (by decide) rfl
  · exact hshort 12 102 ‹_› (by decide) (by decide) rfl
  · exact hshort 13 114 ‹_› (by decide) (by decide) rfl
  · exact hshort 34 34 ‹_› (by decide) (by decide) rfl
  · exact hshort 92 92 ‹_› (by decide) (by decide) rfl
  · split
    · have hn : c.toNat < 0x10000 := by omega
      rw [hunits hn]
      exact Json.spells_unicode hn
    · exact Json.spells_char (by omega) ‹_› ‹_›

theorem spells_go (s : String) : Json.Spells (s.toList.flatMap goQuoteChar) (JsString.lit s) :=
  Json.spells_flatMap fun c _ => spells_goQuoteChar c

theorem closed_goQuote (s : String) : Json.Closed (goQuote s) (jsonText s) :=
  Json.closed_str (spells_go s)

theorem writes_goMember (name : String) {w : JsString} {v : Json} (h : Json.Writes w v) :
    Json.WritesMember (goMember name w) (JsString.lit name, v) :=
  Json.writesMember (spells_go name) h

def WsMemberInfo.json (m : WsMemberInfo) : Json :=
  .obj [(JsString.lit "id", jsonText m.id), (JsString.lit "nick", jsonText m.nick),
    (JsString.lit "role", jsonText m.role)]

def GoValue.json : GoValue → Json
  | .str s => jsonText s
  | .int n => .num (Json.intText n)
  | .members ms => .arr (ms.map WsMemberInfo.json)

theorem closed_member (m : WsMemberInfo) : Json.Closed m.text m.json :=
  Json.closed_object (.cons (writes_goMember _ (closed_goQuote _).writes)
    (.cons (writes_goMember _ (closed_goQuote _).writes)
      (.cons (writes_goMember _ (closed_goQuote _).writes) .nil)))

theorem writes_value (v : GoValue) : Json.Writes v.text v.json := by
  cases v with
  | str s => exact (closed_goQuote s).writes
  | int n => exact Json.writes_int n
  | members ms =>
    refine (Json.closed_array ?_ ?_).writes
    · rw [List.forall₂_map_left_iff, List.forall₂_map_right_iff]
      exact List.forall₂_same.mpr fun m _ => (closed_member m).writes
    · intro w hw
      obtain ⟨m, -, rfl⟩ := List.mem_map.mp hw
      rfl

theorem parse_encodeStruct (fs : List GoField) : Json.parse (encodeStruct fs ++ [10]) =
    some (.obj ((fs.filter GoField.kept).map fun f => (JsString.lit f.name, f.value.json))) := by
  refine Json.parse_of_writes (Json.closed_object ?_).writes
  rw [List.forall₂_map_left_iff, List.forall₂_map_right_iff]
  exact List.forall₂_same.mpr fun f _ => writes_goMember _ (writes_value _)

/-! ### The properties of a struct -/

theorem lit_injective : Function.Injective JsString.lit := fun s t h => by
  rw [← goString_lit s, h, goString_lit]

/-- A struct has no two fields of one name. -/
theorem property_field {fs : List GoField} (hnames : (fs.map (·.name)).Nodup) {f : GoField}
    (hf : f ∈ fs) :
    Json.property ((fs.filter GoField.kept).map fun f => (JsString.lit f.name, f.value.json))
      (JsString.lit f.name) = if f.kept then some f.value.json else none := by
  have hinj := List.inj_on_of_nodup_map hnames
  have hlits : (((fs.filter GoField.kept).map fun f => (JsString.lit f.name, f.value.json)).map
      (·.1)).Nodup := by
    rw [List.map_map]
    refine List.Nodup.map_on ?_ (hnames.of_map.filter _)
    intro a ha b hb hab
    exact hinj (List.mem_of_mem_filter ha) (List.mem_of_mem_filter hb) (lit_injective hab)
  split
  · rename_i hkept
    exact Json.property_of_mem hlits (List.mem_map.mpr ⟨f, List.mem_filter.mpr ⟨hf, hkept⟩, rfl⟩)
  · rename_i hkept
    refine Json.property_eq_none fun hmem => hkept ?_
    rw [List.map_map] at hmem
    obtain ⟨g, hg, hname⟩ := List.mem_map.mp hmem
    obtain ⟨hg, hkept⟩ := List.mem_filter.mp hg
    rwa [hinj hg hf (lit_injective hname)] at hkept

theorem names_nodup (m : WsServerMsg) : (m.fields.map (·.name)).Nodup := by
  simp [WsServerMsg.fields]

variable {ids : Ids}

theorem present_getD (s : Option String) (name : String) :
    (if ({ name, value := .str (s.getD "") } : GoField).kept then
      some (GoValue.str (s.getD "")).json else none) = present s := by
  cases s with
  | none => rfl
  | some s => by_cases h : s = "" <;> simp [GoField.kept, GoValue.isEmpty, present, h, GoValue.json]

theorem kept_elim {α : Type} {f : α → String} (h : ∀ a, f a ≠ "") (o : Option α) (name : String) :
    (if ({ name, value := .str (o.elim "" f) } : GoField).kept then
      some (GoValue.str (o.elim "" f)).json else none) = o.map fun a => jsonText (f a) := by
  cases o with
  | none => rfl
  | some a => simp [GoField.kept, GoValue.isEmpty, h a, GoValue.json]

theorem role_nonempty (r : Role) : Role.name r ≠ "" := by
  cases r <;> decide

theorem reason_nonempty (r : Reason) : Reason.name r ≠ "" := by
  cases r <;> decide

theorem kept_members (ids : Ids) (ms : Option (List MemberInfo)) :
    (if ({ name := "members", value := .members ((ms.getD []).map (wireMember ids)) } : GoField).kept
      then some (GoValue.members ((ms.getD []).map (wireMember ids))).json else none) =
      (ms.filter (· ≠ [])).map fun ms => .arr (ms.map (memberJson ids)) := by
  cases ms with
  | none => rfl
  | some ms =>
    cases ms with
    | nil => rfl
    | cons m ms =>
      simp [GoField.kept, GoValue.isEmpty, GoValue.json, WsMemberInfo.json, wireMember, memberJson]

theorem kept_ts (ts : Option Int) :
    (if ({ name := "ts", value := .int (ts.getD 0) } : GoField).kept then
      some (GoValue.int (ts.getD 0)).json else none) =
      (ts.filter (· ≠ 0)).map fun t => .num (Json.intText t) := by
  cases ts with
  | none => rfl
  | some t => by_cases h : t = 0 <;> simp [GoField.kept, GoValue.isEmpty, GoValue.json, h]

end E2EAnon.Net
