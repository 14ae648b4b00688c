import E2EAnon.Web.Step

/-!
# What a tab makes of the envelopes it opens (`web/src/main.ts`)

`Receiver` adds to a tab the transfers it is receiving (`session.incoming`) and, as a history, the
envelopes it has acted on: a text shown, a roster merged, a transfer begun, a chunk stored.

| here | there |
| --- | --- |
| `Incoming`         | `Incoming` (`main.ts:46`), without what only the display reads |
| `onChat`, `onRoster` | the `chat` case of `onMessage` (`main.ts:247`) and `applyRoster` (`:473`): whether they act |
| `onFileStart`, `onFileChunk` | `main.ts:723`, `:747` |
| `dropTransfer`     | `onFileEnd` (`main.ts:765`), the `file_abort` case (`:286`), a rejected file (`:546`) |
-/

namespace E2EAnon.Web

open Lib (JsMap)

/-- What an envelope under a room key may hold. -/
inductive Kind
  | chat | roster | fileStart | fileChunk
deriving DecidableEq, Repr

structure Incoming where
  key      : Addr
  /-- `meta.chunks`; `none` if it is not a number, so that every comparison with it is false. -/
  chunks   : Option Nat
  parts    : JsMap Nat Data := []
  received : Nat := 0
deriving DecidableEq

/-- History: an envelope acted on, and what the key that opened it held. -/
structure Acted where
  kind     : Kind
  key      : Data
  envelope : Data
deriving DecidableEq

structure Receiver where
  client   : Client
  incoming : JsMap String Incoming := []
  acted    : List Acted := []

/-- `meta.chunks`; `none` if it is undefined, as it is of an array. -/
def chunksOf (es : List (Handle × Data)) : Option Data := JsMap.get 4 es

def chunkCount : Data → Option Nat
  | .const (.num n) => some n
  | _ => none

/-- The check of `onFileStart` (`main.ts:736`). -/
def chunksValid (v : Data) : Bool := ∀ n ∈ chunkCount v, 1 ≤ n ∧ n ≤ 100000

/-- `new Array` of something that is no number has it for its first element. -/
def newIncoming (key : Addr) (v : Data) : Incoming where
  key := key
  chunks := chunkCount v
  parts := if (chunkCount v).isSome then [] else [(0, v)]

/-- The plaintext passes for one of the kind. -/
def reads : Kind → Data → Bool
  | .roster, m => (jsonEntries m).isSome
  | .fileStart, m => ((jsonEntries m).bind chunksOf).any chunksValid
  | .chat, _ | .fileChunk, _ => true

/-- An index of a chunk that is due (`main.ts:751`). -/
def Incoming.due (inc : Incoming) (i : Int) : Bool :=
  0 ≤ i ∧ (∀ n ∈ inc.chunks, i < n) ∧ JsMap.get i.toNat inc.parts = none

namespace Client

/-- The key under which `decryptAny` opens. -/
def keyFor (c : Client) (body : Data) : Option Addr :=
  c.session.bind fun s => s.keys.find? fun k => (decryptMessage (c.read k) body).isSome

/-- `findKeyById` (`main.ts:685`). -/
def findKeyById (c : Client) (id : Data) : Option Addr :=
  c.session.bind fun s => s.keys.find? fun k => keyId (c.read k) = id

end Client

namespace Receiver

def note (r : Receiver) (kind : Kind) (k : Addr) (envelope : Data) : Receiver :=
  { r with acted := ⟨kind, r.client.read k, envelope⟩ :: r.acted }

def onChat (r : Receiver) (msg : ServerMsg Data) : Receiver :=
  match msg.body with
  | some body =>
    match r.client.keyFor body with
    | some k => r.note .chat k body
    | none => r
  | none => r

def onRoster (r : Receiver) (msg : ServerMsg Data) : Receiver :=
  match msg.data with
  | some data =>
    match r.client.keyFor data, (r.client.decryptAny data).bind jsonEntries with
    | some k, some _ => r.note .roster k data
    | _, _ => r
  | none => r

def onFileStart (r : Receiver) (msg : ServerMsg Data) : Receiver :=
  match msg.transfer, msg.keyId, msg.data with
  | some transfer, some id, some data =>
    if transfer = "" then r
    else match r.client.findKeyById id with
    | none => r
    | some key =>
      match ((decryptMessage (r.client.read key) data).bind jsonEntries).bind chunksOf with
      | none => r
      | some v =>
        if chunksValid v then
          { r with incoming := JsMap.set transfer (newIncoming key v) r.incoming }.note
            .fileStart key data
        else r
  | _, _, _ => r

def onFileChunk (r : Receiver) (msg : ServerMsg Data) : Receiver :=
  let transfer := msg.transfer.getD ""
  match JsMap.get transfer r.incoming, msg.data with
  | some inc, some data =>
    let i := msg.index.getD (-1)
    if inc.due i then
      match openBytes (r.client.read inc.key) data with
      | none => r
      | some chunk =>
        let inc := { inc with parts := JsMap.set i.toNat chunk inc.parts
                              received := inc.received + 1 }
        let incoming := if some inc.received = inc.chunks then JsMap.delete transfer r.incoming
          else JsMap.set transfer inc r.incoming
        { r with incoming }.note .fileChunk inc.key data
    else r
  | _, _ => r

def dropTransfer (r : Receiver) (msg : ServerMsg Data) : Receiver :=
  match msg.transfer with
  | some transfer =>
    if transfer = "" then r else { r with incoming := JsMap.delete transfer r.incoming }
  | none => r

/-- What `onMessage` does besides the handlers of `Client.onMessage`. -/
def onMessage (r : Receiver) (msg : ServerMsg Data) : Receiver :=
  match msg.type with
  | .chat => r.onChat msg
  | .roster => r.onRoster msg
  | .fileStart => r.onFileStart msg
  | .fileChunk => r.onFileChunk msg
  | .fileEnd | .fileAbort => r.dropTransfer msg
  | .error => if msg.reason = some .fileRejected then r.dropTransfer msg else r
  | _ => r

/-- One event. A session that ends takes its transfers with it; sessions differ in their socket. -/
def step (r : Receiver) (a : Act) : Option Receiver :=
  (r.client.step a).map fun client =>
    let r' := match a with
      | .message _ msg => r.onMessage msg
      | _ => r
    { r' with
      client
      incoming := if client.session.map (·.sock) = r.client.session.map (·.sock) then r'.incoming
        else [] }

end Receiver

variable {r : Receiver} {msg : ServerMsg Data}

/-! ## What is acted on -/

/-- The envelope of a frame and what it is taken for. -/
def taken (msg : ServerMsg Data) : Option (Kind × Data) :=
  match msg.type with
  | .chat => msg.body.map (.chat, ·)
  | .roster => msg.data.map (.roster, ·)
  | .fileStart => msg.data.map (.fileStart, ·)
  | .fileChunk => msg.data.map (.fileChunk, ·)
  | _ => none

theorem keyFor_opens {c : Client} {k : Addr} {d : Data} (h : c.keyFor d = some k) :
    (∃ s, c.session = some s ∧ k ∈ s.keys) ∧ ∃ m, d = .enc (c.read k) m := by
  obtain ⟨s, hs, hk⟩ := Option.bind_eq_some_iff.mp h
  have hopen := List.find?_some (p := fun k => (decryptMessage (c.read k) d).isSome) hk
  obtain ⟨m, hm⟩ := Option.isSome_iff_exists.mp hopen
  exact ⟨⟨s, hs, List.mem_of_find?_eq_some hk⟩, m, openBytes_eq_some.mp hm⟩

/-- The transfer to which the frame brings a chunk that is due. -/
def Receiver.awaits (r : Receiver) (msg : ServerMsg Data) (inc : Incoming) : Prop :=
  JsMap.get (msg.transfer.getD "") r.incoming = some inc ∧ inc.due (msg.index.getD (-1)) = true

/-- The key that the tab tries: one of its session's, or for a chunk that of the transfer. -/
def Receiver.tries (r : Receiver) (msg : ServerMsg Data) (k : Addr) : Kind → Prop
  | .fileChunk => ∃ inc, r.awaits msg inc ∧ inc.key = k
  | _ => ∃ s, r.client.session = some s ∧ k ∈ s.keys

/-- The frame makes the tab act on its own envelope, as what it is taken for and passes for, under the
key that opens it. -/
def ActedOn (r : Receiver) (msg : ServerMsg Data) (e : Acted) : Prop :=
  taken msg = some (e.kind, e.envelope) ∧ ∃ k m, r.tries msg k e.kind ∧ e.key = r.client.read k ∧
    e.envelope = .enc (r.client.read k) m ∧ reads e.kind m = true

theorem acted_of_note {x : Receiver} {kind : Kind} {k : Addr} {d m : Data} {e : Acted}
    (hr : x.acted = r.acted) (hc : x.client = r.client) (htaken : taken msg = some (kind, d))
    (hk : r.tries msg k kind) (hd : d = .enc (r.client.read k) m) (hm : reads kind m = true)
    (he : e ∈ (x.note kind k d).acted) : e ∈ r.acted ∨ ActedOn r msg e := by
  obtain rfl | he := List.mem_cons.mp he
  · exact .inr ⟨htaken, k, m, hk, congrArg (Client.read · k) hc, hd, hm⟩
  · exact .inl (hr ▸ he)

theorem acted_of_drop {e : Acted} (he : e ∈ (r.dropTransfer msg).acted) : e ∈ r.acted := by
  unfold Receiver.dropTransfer at he
  split at he
  · split at he <;> exact he
  · exact he

theorem acted_of_message {e : Acted} (he : e ∈ (r.onMessage msg).acted) :
    e ∈ r.acted ∨ ActedOn r msg e := by
  unfold Receiver.onMessage at he
  split at he
  · rename_i ht
    unfold Receiver.onChat at he
    split at he
    · rename_i body hbody
      split at he
      · rename_i k hk
        obtain ⟨hheld, m, hm⟩ := keyFor_opens hk
        have htries : r.tries msg k .chat := hheld
        exact acted_of_note rfl rfl (by simp [taken, ht, hbody]) htries hm rfl he
      · exact .inl he
    · exact .inl he
  · rename_i ht
    unfold Receiver.onRoster at he
    split at he
    · rename_i data hdata
      split at he
      · rename_i k es hk hes
        obtain ⟨json, hjson, hes⟩ := Option.bind_eq_some_iff.mp hes
        obtain ⟨hheld, m, hm⟩ := keyFor_opens hk
        have hjm : json = m := by
          obtain ⟨s, hs, hjson⟩ := Option.bind_eq_some_iff.mp hjson
          obtain ⟨k', -, hopen⟩ := List.exists_of_findSome?_eq_some hjson
          have henc := openBytes_eq_some.mp hopen
          rw [hm] at henc
          injection henc with _ he
          exact he.symm
        have htries : r.tries msg k .roster := hheld
        exact acted_of_note rfl rfl (by simp [taken, ht, hdata]) htries hm
          (by simp [reads, ← hjm, hes]) he
      · exact .inl he
    · exact .inl he
  · rename_i ht
    unfold Receiver.onFileStart at he
    split at he
    · rename_i transfer id data _ _ hdata
      split at he
      · exact .inl he
      · split at he
        · exact .inl he
        · rename_i key hkey
          have htries : r.tries msg key .fileStart := by
            obtain ⟨s, hs, hfind⟩ := Option.bind_eq_some_iff.mp hkey
            exact ⟨s, hs, List.mem_of_find?_eq_some hfind⟩
          split at he
          · exact .inl he
          · rename_i v hv
            obtain ⟨es, hes, hv⟩ := Option.bind_eq_some_iff.mp hv
            obtain ⟨m, hm, hes⟩ := Option.bind_eq_some_iff.mp hes
            split at he
            · rename_i hvalid
              refine acted_of_note (x := { r with incoming := _ }) rfl rfl ?_ htries
                (openBytes_eq_some.mp hm) ?_ he
              · simp [taken, ht, hdata]
              · simp [reads, hes, hv, hvalid]
            · exact .inl he
    · exact .inl he
  · rename_i ht
    unfold Receiver.onFileChunk at he
    dsimp only at he
    split at he
    · rename_i inc data hinc hdata
      split at he
      · rename_i hdue
        split at he
        · exact .inl he
        · rename_i m hm
          have htries : r.tries msg inc.key .fileChunk := ⟨inc, ⟨hinc, hdue⟩, rfl⟩
          refine acted_of_note (x := { r with incoming := _ }) rfl rfl ?_ htries
            (openBytes_eq_some.mp hm) rfl he
          simp [taken, ht, hdata]
      · exact .inl he
    · exact .inl he
  · exact .inl (acted_of_drop he)
  · exact .inl (acted_of_drop he)
  · split at he
    · exact .inl (acted_of_drop he)
    · exact .inl he
  · exact .inl he

theorem acted_of_step {r' : Receiver} {a : Act} (h : r.step a = some r') {e : Acted}
    (he : e ∈ r'.acted) : e ∈ r.acted ∨ ∃ sock msg, a = .message sock msg ∧ ActedOn r msg e := by
  obtain ⟨c, -, rfl⟩ := Option.map_eq_some_iff.mp h
  cases a with
  | message sock msg => exact (acted_of_message he).imp_right fun h => ⟨sock, msg, rfl, h⟩
  | _ => exact .inl he

end E2EAnon.Web
