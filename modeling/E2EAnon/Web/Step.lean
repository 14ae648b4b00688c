import E2EAnon.Lib.Machine
import E2EAnon.Web.Handlers

/-!
# Events of a browser tab (`web/src/main.ts`)

A label is one event of the tab: a click, an event of a socket, or the end of a wait of `connect` or
`sendFile`. The frames a socket brings are chosen by the environment, and so are the texts and files
of the user and the id of a transfer.

| here | there |
| --- | --- |
| `beginConnect`, `endConnect` | `connect` (`main.ts:200`) before and after the wait of `closeCurrentSession`, with what the click handlers do before and after it (`main.ts:979-994`) |
| `submit`           | the message form (`main.ts:1023`) up to the first wait of `sendFile` |
| `resume`           | `sendFile` from one wait to the next |
| `doLeave`          | `main.ts:1083` |
-/

namespace E2EAnon.Web

inductive Act
  | create (nick session : String)
  | join (token : Handle) (code : Data) (nick session : String)
  /-- A call of `connect` goes on: the old socket has closed, there was none, or the timeout. -/
  | connected (i : Nat)
  | submit (body : Option Data) (file : Option (String × File))
  /-- The wait of an upload is over. -/
  | resume (u : Nat)
  | invite
  | makeOwner (id : Handle)
  | kick (id : Handle)
  | leave
  | transferLeave (target : Handle)
  | unload
  | opened (sock : Nat)
  | message (sock : Nat) (msg : ServerMsg Data)
  /-- The socket starts to close without the page's doing. -/
  | closing (sock : Nat)
  | closed (sock : Nat)
  /-- The page becomes visible again (`recoverIfSocketDead`). -/
  | visible
deriving DecidableEq

namespace Client

/-! ## Connecting -/

/-- `connect` up to its wait. -/
def beginConnect (c : Client) (hello : ClientMsg Data) : Client :=
  let c := if c.session.isSome then c.teardown else c
  { c with connects := c.connects ++ [hello] }

/-- A new socket and session. -/
def openSession (c : Client) (hello : ClientMsg Data) : Client :=
  let (c, kp) := c.generateKeyPair
  { c with
    socket := Function.update c.socket c.sockets { hello }
    sockets := c.sockets + 1
    session := some { sock := c.sockets, kp } }

/-- `session.keys = [generateRoomKey()]` (`main.ts:981`); for the history it is a key pushed. -/
def firstKey (c : Client) : Client :=
  match c.session with
  | some s =>
    let (c, k) := c.generateRoomKey
    { c with
      session := some { s with keys := [k] }
      pushes := Function.update c.pushes s.sock (c.pushes s.sock + 1) }
  | none => c

/-- It goes in as any other key. -/
theorem firstKey_eq {c : Client} {s : Session} (hs : c.session = some s) (hk : s.keys = []) :
    c.firstKey = c.generateRoomKey.1.pushKey c.generateRoomKey.2 := by
  simp [firstKey, hs, pushKey, generateRoomKey, draw, alloc, hk, maxKeptKeys, wipe]

/-- `connect` after its wait. -/
def endConnect (c : Client) (hello : ClientMsg Data) : Client :=
  match hello with
  | .create _ _ => (c.openSession hello).firstKey
  | _ => c.openSession hello

/-! ## Sending -/

/-- The local variables of `sendFile` at its first wait. -/
def newUpload (c : Client) (s : Session) (key : Addr) (transfer : String) (file : File) : Upload :=
  { file, transfer, key, kid := keyId (c.read key)
    sock := s.sock, pushed := c.pushes s.sock, captured := c.read key }

/-- `sendFile` up to its first wait. -/
def beginUpload (c : Client) (s : Session) (key : Addr) (transfer : String) (file : File) :
    Client :=
  { c with
    uploads := Lib.JsMap.set c.launched (c.newUpload s key transfer file) c.uploads
    launched := c.launched + 1 }

/-- The text of the message form (`main.ts:1027-1031`). -/
def sendText (c : Client) (k : Addr) : Option Data → Client
  | some body => (c.noteSeal k none).send (.msg (encryptMessage (c.read k) body))
  | none => c

/-- The file of the message form. -/
def sendFile (c : Client) (s : Session) (k : Addr) : Option (String × File) → Client
  | some (transfer, file) => c.beginUpload s k transfer file
  | none => c

def submit (c : Client) (body : Option Data) (file : Option (String × File)) : Client :=
  match c.session with
  | none => c
  | some s =>
    match s.keys with
    | [] => c
    | k :: _ => (c.sendText k body).sendFile s k file

def dropUpload (c : Client) (u : Nat) : Client :=
  { c with uploads := Lib.JsMap.delete u c.uploads }

/-- One round of the loop of `sendFile`, up to its wait. -/
def sendChunk (c : Client) (u : Nat) (up : Upload) (i : Nat) : Client :=
  let c := (c.noteSeal up.key (some up.captured)).send
    (.fileChunk up.transfer i (sealBytes (c.read up.key) (up.file.slice i)))
  { c with uploads := Lib.JsMap.set u { up with sent := some (i + 1) } c.uploads }

/-- `sendFile` from the wait it is in to the next one or to its end. -/
def resume (c : Client) (u : Nat) (up : Upload) : Client :=
  match up.sent with
  | none =>
    let c := (c.noteSeal up.key (some up.captured)).send
      (.fileStart up.transfer up.kid (encryptMessage (c.read up.key) up.file.meta))
    c.sendChunk u up 0
  | some i =>
    if c.session.isNone then c.dropUpload u
    else if i < up.file.total then c.sendChunk u up i
    else (c.send (.fileEnd up.transfer)).dropUpload u

@[simp] theorem sendChunk_session (c : Client) (u : Nat) (up : Upload) (i : Nat) :
    (c.sendChunk u up i).session = c.session := by
  simp [sendChunk]

theorem resume_session (c : Client) (u : Nat) (up : Upload) : (c.resume u up).session = c.session := by
  unfold resume
  split
  · simp
  · split
    · rfl
    · split
      · simp
      · simp [dropUpload]

/-! ## Leaving -/

def doLeave (c : Client) : Client :=
  ({ c with intentionalClose := true }.send .leave).teardown

/-- The buttons of the member list (`main.ts:1001`). -/
def memberAction (c : Client) (m : ClientMsg Data) : Client :=
  if c.session.any fun s => s.role = .owner then c.send m else c

/-- `recoverIfSocketDead` (`main.ts:1097`). -/
def recoverIfSocketDead (c : Client) : Client :=
  match c.session with
  | some s =>
    if (c.socket s.sock).ready = .closing ∨ (c.socket s.sock).ready = .closed then
      { c with intentionalClose := false }.onClose
    else c
  | none => c

/-! ## The step -/

/-- One event; `none` if it cannot happen now. -/
def step (c : Client) : Act → Option Client
  | .create nick session => some (c.beginConnect (.create nick session))
  | .join token code nick session =>
    some ({ c with pendingJoin := some (token, code) }.beginConnect (.redeem token nick session))
  | .connected i =>
    match c.connects[i]? with
    | some hello => some ({ c with connects := c.connects.eraseIdx i }.endConnect hello)
    | none => none
  | .submit body file => some (c.submit body file)
  | .resume u => (Lib.JsMap.get u c.uploads).map (c.resume u)
  | .invite => some (c.send .invite)
  | .makeOwner id => some (c.memberAction (.transfer id))
  | .kick id => some (c.memberAction (.kick id))
  | .leave => if c.session.isSome then some c.doLeave else none
  | .transferLeave target => some (c.send (.transfer target)).doLeave
  | .unload => some (c.send .leave)
  | .opened sock =>
    if sock < c.sockets ∧ (c.socket sock).ready = .connecting then
      some { c.setReady sock .open with outbox := c.outbox ++ [(sock, (c.socket sock).hello)] }
    else none
  | .message sock msg =>
    if sock < c.sockets ∧ (c.socket sock).ready = .open then some (c.onMessage msg) else none
  | .closing sock => if sock < c.sockets then some (c.closeSocket sock) else none
  | .closed sock =>
    if sock < c.sockets ∧ (c.socket sock).ready ≠ .closed then
      some (c.setReady sock .closed).onClose
    else none
  | .visible => some c.recoverIfSocketDead

end Client

/-- One tab. -/
def machine (who : Nat) : Lib.Machine Client Act where
  init := { who }
  step := Client.step

end E2EAnon.Web
