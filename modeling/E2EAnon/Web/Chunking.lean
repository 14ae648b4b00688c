import Mathlib.Data.List.Range
import E2EAnon.Web.Download

/-!
# A file in chunks and back (`web/src/main.ts`)

`sendFile_frames` is the sending half: an upload that runs alone posts exactly `sendFile`.
`chunking_round_trip` is the receiving half: from the `file_start` on, whatever else happens to the
tab, the chunks finish the transfer when all of them have come, once, and with the bytes sent.

| here | there |
| --- | --- |
| `chunkSize`, `subarray` | `CHUNK_SIZE` (`main.ts:36`), `Uint8Array.subarray` |
| `File.ofBuffer`, `sendFile` | `sendFile` (`main.ts:694`): the file it reads and the frames it makes under one key |
| `blob`             | `new Blob(inc.parts)` (`main.ts:778`) |
-/

namespace E2EAnon.Web

open Lib (JsMap Machine)

/-! ## Bytes -/

def chunkSize : Nat := 64 * 1024

def bytesData : List UInt8 → Data
  | [] => .const .nil
  | b :: bs => .pair (.const (.num b.toNat)) (bytesData bs)

def dataBytes : Data → Option (List UInt8)
  | .const .nil => some []
  | .pair (.const (.num n)) d => (dataBytes d).map (UInt8.ofNat n :: ·)
  | _ => none

def subarray (buf : List UInt8) (start stop : Nat) : List UInt8 := (buf.take stop).drop start

/-- `buf.length / CHUNK_SIZE`, rounded up. -/
def File.ofBuffer (name type : Data) (buf : List UInt8) : File where
  name := name
  type := type
  size := buf.length
  slices := (List.range ((buf.length + (chunkSize - 1)) / chunkSize)).map fun i =>
    bytesData (subarray buf (i * chunkSize) ((i + 1) * chunkSize))

def blob : List (Option Data) → Option (List UInt8)
  | [] => some []
  | p :: ps => (p.bind dataBytes).bind fun b => (blob ps).map (b ++ ·)

@[simp] theorem dataBytes_bytesData (bs : List UInt8) : dataBytes (bytesData bs) = some bs := by
  induction bs with
  | nil => rfl
  | cons b bs ih => simp [bytesData, dataBytes, ih]

theorem blob_bytesData (g : Nat → List UInt8) (is : List Nat) :
    blob (is.map fun i => some (bytesData (g i))) = some (is.flatMap g) := by
  induction is with
  | nil => rfl
  | cons i is ih => simp [blob, ih]

/-- The subarrays of one size, put together again. -/
theorem flatMap_subarray (buf : List UInt8) (c n : Nat) :
    (List.range n).flatMap (fun i => subarray buf (i * c) ((i + 1) * c)) = buf.take (n * c) := by
  induction n with
  | zero => simp
  | succ n ih =>
    have hle : n * c ≤ (n + 1) * c := Nat.mul_le_mul_right c (Nat.le_succ n)
    have htake : buf.take (n * c) = (buf.take ((n + 1) * c)).take (n * c) := by
      rw [List.take_take, Nat.min_eq_left hle]
    rw [List.range_succ, List.flatMap_append, ih, List.flatMap_singleton, subarray, htake,
      List.take_append_drop]

variable {name type : Data} {buf : List UInt8}

theorem ofBuffer_slice (name type : Data) (buf : List UInt8) (i : Nat) :
    (File.ofBuffer name type buf).slice i =
      bytesData (subarray buf (i * chunkSize) ((i + 1) * chunkSize)) := by
  unfold File.slice File.ofBuffer
  by_cases hi : i < (buf.length + (chunkSize - 1)) / chunkSize
  · simp [List.getD, hi]
  · have hlen : buf.length ≤ i * chunkSize := by
      unfold chunkSize at hi ⊢
      omega
    have hnil : subarray buf (i * chunkSize) ((i + 1) * chunkSize) = [] := by
      simp only [subarray, List.drop_eq_nil_iff, List.length_take]
      omega
    simp [List.getD, hi, hnil, bytesData]

theorem length_le_total (name type : Data) (buf : List UInt8) :
    buf.length ≤ (File.ofBuffer name type buf).total * chunkSize := by
  simp only [File.total, File.ofBuffer, List.length_map, List.length_range, chunkSize]
  omega

/-- The pieces of a file, put together, are its bytes. -/
theorem blob_pieces (name type : Data) (buf : List UInt8) :
    blob ((File.ofBuffer name type buf).pieces.map some) = some buf := by
  have hpieces : (File.ofBuffer name type buf).pieces.map some =
      (List.range (File.ofBuffer name type buf).total).map fun i =>
        some (bytesData (subarray buf (i * chunkSize) ((i + 1) * chunkSize))) := by
    rw [File.pieces, List.map_map]
    exact List.map_congr_left fun i _ => congrArg some (ofBuffer_slice name type buf i)
  rw [hpieces, blob_bytesData, flatMap_subarray,
    List.take_of_length_le (length_le_total name type buf)]

/-! ## What `sendFile` sends -/

def chunkFrame (key : Data) (transfer : String) (f : File) (i : Nat) : ClientMsg Data :=
  .fileChunk transfer i (sealBytes key (f.slice i))

/-- All frames of a transfer. -/
def sendFile (key : Data) (transfer : String) (f : File) : List (ClientMsg Data) :=
  .fileStart transfer (keyId key) (encryptMessage key f.meta) ::
    (List.range f.total).map (chunkFrame key transfer f) ++ [.fileEnd transfer]

/-- The upload `u`, in its session, while the tab has posted `posted` in all. -/
structure Sending (s : Session) (u : Nat) (k : Data) (up : Upload)
    (posted : List (Nat × ClientMsg Data)) (c : Client) : Prop where
  session : c.session = some s
  ready   : (c.socket s.sock).ready = .open
  upload  : JsMap.get u c.uploads = some up
  key     : c.read up.key = k
  outbox  : c.outbox = posted

variable {c : Client} {s : Session} {u i n : Nat} {up : Upload} {k : Data}
  {posted : List (Nat × ClientMsg Data)}

theorem send_open (hs : c.session = some s) (hr : (c.socket s.sock).ready = .open)
    (m : ClientMsg Data) : c.send m = { c with outbox := c.outbox ++ [(s.sock, m)] } := by
  simp [Client.send, hs, hr]

/-- A round of the loop. -/
theorem Sending.chunk (h : Sending s u k up posted c) (i : Nat) :
    Sending s u k { up with sent := some (i + 1) }
      (posted ++ [(s.sock, chunkFrame k up.transfer up.file i)]) (c.sendChunk u up i) := by
  have hsend := send_open (c := c.noteSeal up.key (some up.captured)) (by simp [h.session]) h.ready
    (.fileChunk up.transfer i (sealBytes (c.read up.key) (up.file.slice i)))
  unfold Client.sendChunk
  dsimp only
  rw [hsend]
  exact {
    session := h.session
    ready := h.ready
    upload := by simp
    key := h.key
    outbox := by simp [Client.noteSeal, h.outbox, h.key, chunkFrame] }

/-- All rounds but the first. -/
theorem Sending.chunks (h : Sending s u k up posted c) (hsent : up.sent = some i)
    (hn : i + n ≤ up.file.total) :
    ∃ c', (List.replicate n (.resume u)).foldlM Client.step c = some c' ∧
      Sending s u k { up with sent := some (i + n) }
        (posted ++ (List.range' i n).map fun j => (s.sock, chunkFrame k up.transfer up.file j)) c' := by
  induction n generalizing c up posted i with
  | zero =>
    refine ⟨c, rfl, ?_⟩
    have hup : { up with sent := some i } = up := by rw [← hsent]
    simp [hup, h]
  | succ n ih =>
    have hstep : c.step (.resume u) = some (c.sendChunk u up i) := by
      have hlt : i < up.file.total := by omega
      simp [Client.step, h.upload, Client.resume, hsent, h.session, hlt]
    obtain ⟨c', hfold, hc'⟩ := ih (h.chunk i) rfl (by simpa using (by omega : i + 1 + n ≤ up.file.total))
    refine ⟨c', ?_, ?_⟩
    · simp [List.replicate_succ, hstep, hfold]
    · have he : i + 1 + n = i + (n + 1) := by omega
      simpa [List.range'_succ, he] using hc'

/-- An upload with nothing else going on posts the frames of `sendFile`, one wait after another. -/
theorem sendFile_frames (h : Sending s u k up posted c) (hnew : up.sent = none)
    (hkid : up.kid = keyId k) :
    ∃ c', (List.replicate (up.file.total + 1) (.resume u)).foldlM Client.step c = some c' ∧
      c'.outbox = posted ++ (sendFile k up.transfer up.file).map (s.sock, ·) := by
  obtain ⟨n, hn⟩ : ∃ n, up.file.total = n + 1 := ⟨up.file.total - 1, by unfold File.total; omega⟩
  -- the first wait brings the metadata and chunk 0
  have hstart : Sending s u k up
      (posted ++ [(s.sock, .fileStart up.transfer up.kid (encryptMessage k up.file.meta))])
      ((c.noteSeal up.key (some up.captured)).send
        (.fileStart up.transfer up.kid (encryptMessage (c.read up.key) up.file.meta))) := by
    rw [send_open (c := c.noteSeal up.key (some up.captured)) (by simp [h.session]) h.ready]
    exact {
      session := h.session
      ready := h.ready
      upload := h.upload
      key := h.key
      outbox := by simp [Client.noteSeal, h.outbox, h.key] }
  have hfirst := hstart.chunk 0
  have hstep : c.step (.resume u) = some (((c.noteSeal up.key (some up.captured)).send
      (.fileStart up.transfer up.kid (encryptMessage (c.read up.key) up.file.meta))).sendChunk u up 0) := by
    simp [Client.step, h.upload, Client.resume, hnew, Client.read, Client.noteSeal]
  obtain ⟨c₁, hrounds, h₁⟩ := hfirst.chunks (n := n) rfl (by simp [hn]; omega)
  -- the last wait brings the end
  have hlast : c₁.step (.resume u) = some ((c₁.send (.fileEnd up.transfer)).dropUpload u) := by
    have hge : ¬ 0 + 1 + n < up.file.total := by omega
    simp [Client.step, h₁.upload, Client.resume, h₁.session, hge]
  refine ⟨(c₁.send (.fileEnd up.transfer)).dropUpload u, ?_, ?_⟩
  · have hrep : List.replicate (up.file.total + 1) (Act.resume u) =
        .resume u :: (List.replicate n (.resume u) ++ [.resume u]) := by
      rw [hn, List.replicate_succ, List.replicate_succ']
    simp [hrep, hstep, hrounds, hlast]
  · simp [send_open h₁.session h₁.ready, Client.dropUpload, h₁.outbox, sendFile, hkid, hn,
      List.range_succ_eq_map, List.range'_eq_map_range, Nat.add_comm]

/-! ## A transfer being received -/

/-- The frame is what the relay makes of the file frame `m`. -/
def Relays : ClientMsg Data → ServerMsg Data → Prop
  | .fileStart transfer kid d, msg => msg.type = .fileStart ∧ msg.transfer = some transfer ∧
      msg.keyId = some kid ∧ msg.data = some d
  | .fileChunk transfer i d, msg => msg.type = .fileChunk ∧ msg.transfer = some transfer ∧
      msg.index = some i ∧ msg.data = some d
  | .fileEnd transfer, msg => msg.type = .fileEnd ∧ msg.transfer = some transfer
  | _, _ => False

instance Relays.decidable : (m : ClientMsg Data) → (msg : ServerMsg Data) → Decidable (Relays m msg)
  | .fileStart _ _ _, _ | .fileChunk _ _ _, _ | .fileEnd _, _ => inferInstanceAs (Decidable (_ ∧ _))
  | .create _ _, _ | .redeem _ _ _, _ | .msg _, _ | .leave, _ | .invite, _ | .pake _ _, _
  | .keyDeliver _ _, _ | .memberKey _ _, _ | .enter _, _ | .rekey _ _, _ | .transfer _, _
  | .kick _, _ | .roster _, _ | .fileAbort _, _ | .unknown, _ => inferInstanceAs (Decidable False)

/-- The frame, if any, that the event brings for the transfer. -/
def frameOf (transfer : String) : Act → Option (ServerMsg Data)
  | .message _ msg => if msg.transfer = some transfer then some msg else none
  | _ => none

/-- The event brings `file_end` for the transfer. -/
def isEnd (transfer : String) (a : Act) : Bool :=
  (frameOf transfer a).any fun msg => msg.type = .fileEnd

def ended (transfer : String) (as : List Act) : Bool := as.any (isEnd transfer)

/-- The events before the first `file_end` of the transfer. -/
def untilEnd (transfer : String) (as : List Act) : List Act := as.takeWhile (!isEnd transfer ·)

/-- The indices of the chunks that have come before it. -/
def arrived (transfer : String) (as : List Act) : List Nat :=
  (untilEnd transfer as).filterMap fun a =>
    (frameOf transfer a).bind fun msg => msg.index.map Int.toNat

/-- Every index has arrived. -/
def Arrived (transfer : String) (f : File) (as : List Act) : Prop :=
  ∀ i < f.total, i ∈ arrived transfer as

instance Arrived.decidable (transfer : String) (f : File) (as : List Act) :
    Decidable (Arrived transfer f as) :=
  inferInstanceAs (Decidable (∀ i < f.total, i ∈ arrived transfer as))

/-- A tab from some state on. -/
def Viewer.from (v : Viewer) : Machine Viewer Act where
  init := v
  step := Viewer.step

abbrev Viewed := Machine.Transition Viewer Act

/-- What the frames of the transfer finish. -/
def finished (transfer : String) (l : List Viewed) : List (Option Data × List (Option Data)) :=
  l.flatMap fun t => match frameOf transfer t.label with
    | some _ => t.after.files.take (t.after.files.length - t.before.files.length)
    | none => []

/-- The step leaves the session and the captured key alone, and what it brings of the transfer is one
of its chunks or its end. -/
structure Calm (k : Data) (transfer : String) (f : File) (key : Addr) (t : Viewed) : Prop where
  session : t.after.receiver.client.session.map (·.sock) =
    t.before.receiver.client.session.map (·.sock)
  intact  : t.before.receiver.client.read key = k
  frames  : ∀ msg ∈ frameOf transfer t.label, ∃ m ∈ (sendFile k transfer f).tail, Relays m msg

instance Calm.decidable (k : Data) (transfer : String) (f : File) (key : Addr) (t : Viewed) :
    Decidable (Calm k transfer f key t) :=
  decidable_of_iff (t.after.receiver.client.session.map (·.sock) =
      t.before.receiver.client.session.map (·.sock) ∧ t.before.receiver.client.read key = k ∧
      ∀ msg ∈ frameOf transfer t.label, ∃ m ∈ (sendFile k transfer f).tail, Relays m msg)
    ⟨fun h => ⟨h.1, h.2.1, h.2.2⟩, fun h => ⟨h.session, h.intact, h.frames⟩⟩

variable {transfer : String} {f : File} {as : List Act} {a : Act} {msg : ServerMsg Data}

theorem untilEnd_snoc (transfer : String) (as : List Act) (a : Act) :
    untilEnd transfer (as ++ [a]) =
      if ended transfer as || isEnd transfer a then untilEnd transfer as
      else untilEnd transfer as ++ [a] := by
  induction as with
  | nil => cases h : isEnd transfer a <;> simp [untilEnd, ended, h]
  | cons b as ih =>
    unfold untilEnd ended at ih
    cases h : isEnd transfer b
    · simp only [untilEnd, ended, List.cons_append, List.takeWhile_cons, h, Bool.not_false, if_true,
        List.any_cons, Bool.false_or, ih]
      split <;> simp
    · simp [untilEnd, ended, h]

theorem ended_snoc (transfer : String) (as : List Act) (a : Act) :
    ended transfer (as ++ [a]) = (ended transfer as || isEnd transfer a) := by
  simp [ended]

/-- An event that is no frame of the transfer. -/
theorem arrived_other (as : List Act) (h : frameOf transfer a = none) :
    arrived transfer (as ++ [a]) = arrived transfer as ∧
      ended transfer (as ++ [a]) = ended transfer as := by
  have hend : isEnd transfer a = false := by simp [isEnd, h]
  refine ⟨?_, by simp [ended_snoc, hend]⟩
  unfold arrived
  rw [untilEnd_snoc]
  split
  · rfl
  · simp [h]

theorem arrived_congr {as' : List Act} (f : File) (h : arrived transfer as' = arrived transfer as) :
    Arrived transfer f as' ↔ Arrived transfer f as := by
  unfold Arrived
  rw [h]

theorem arrived_chunk (as : List Act) (h : frameOf transfer a = some msg)
    (ht : msg.type ≠ .fileEnd) (hi : msg.index = some (i : Int)) :
    arrived transfer (as ++ [a]) =
        (if ended transfer as then arrived transfer as else arrived transfer as ++ [i]) ∧
      ended transfer (as ++ [a]) = ended transfer as := by
  have hend : isEnd transfer a = false := by simp [isEnd, h, ht]
  refine ⟨?_, by simp [ended_snoc, hend]⟩
  unfold arrived
  rw [untilEnd_snoc, hend, Bool.or_false]
  split
  · rfl
  · simp [h, hi]

theorem arrived_end (as : List Act) (h : frameOf transfer a = some msg)
    (ht : msg.type = .fileEnd) :
    arrived transfer (as ++ [a]) = arrived transfer as ∧ ended transfer (as ++ [a]) = true := by
  have hend : isEnd transfer a = true := by simp [isEnd, h, ht]
  refine ⟨?_, by simp [ended_snoc, hend]⟩
  simp [arrived, untilEnd_snoc, hend]

/-! ## What one event does to the transfer -/

variable {v v' v₀ v₁ : Viewer} {key : Addr} {is : List Nat} {sock : Nat}

/-- The chunks of `is` have come, and not all of them. -/
structure Receiving (transfer : String) (f : File) (key : Addr) (is : List Nat) (v : Viewer) :
    Prop where
  incoming : ∃ inc, JsMap.get transfer v.receiver.incoming = some inc ∧ inc.key = key ∧
    inc.chunks = some f.total ∧
    (∀ i, JsMap.get i inc.parts = if i ∈ is then some (f.slice i) else none) ∧
    inc.received = (JsMap.filled f.total inc.parts).card
  fileMeta : JsMap.get transfer v.metas = some f.meta

theorem frameOf_eq_some : frameOf transfer a = some msg ↔
    ∃ sock, a = .message sock msg ∧ msg.transfer = some transfer := by
  cases a with
  | message sock m =>
    simp only [frameOf, Option.ite_none_right_eq_some, Option.some.injEq, Act.message.injEq]
    constructor
    · rintro ⟨h, rfl⟩
      exact ⟨sock, ⟨rfl, rfl⟩, h⟩
    · rintro ⟨_, ⟨-, rfl⟩, h⟩
      exact ⟨h, rfl⟩
  | _ => simp [frameOf]

/-- The transfers of other frames are other entries of `incoming`. -/
theorem onMessage_other (hne : transfer ≠ "") (hmsg : msg.transfer ≠ some transfer) (r : Receiver) :
    JsMap.get transfer (r.onMessage msg).incoming = JsMap.get transfer r.incoming := by
  have hgetD : msg.transfer.getD "" ≠ transfer := by
    intro he
    cases h : msg.transfer with
    | none => exact hne (by simpa [h] using he.symm)
    | some x => exact hmsg (by simpa [h] using he)
  have hdrop : JsMap.get transfer (r.dropTransfer msg).incoming = JsMap.get transfer r.incoming := by
    unfold Receiver.dropTransfer
    split
    · rename_i x hx
      have hxt : x ≠ transfer := fun he => hmsg (he ▸ hx)
      split <;> simp [hxt]
    · rfl
  unfold Receiver.onMessage
  split
  · unfold Receiver.onChat
    split
    · split <;> rfl
    · rfl
  · unfold Receiver.onRoster
    split
    · split <;> rfl
    · rfl
  · obtain ⟨-, hsame⟩ | ⟨x, _, _, _, -, -, hx, -, -, hset⟩ := onFileStart_spec r msg
    · rw [hsame]
    · have hxt : x ≠ transfer := fun he => hmsg (he ▸ hx)
      simp [hset, hxt]
  · obtain ⟨-, hsame⟩ | ⟨_, _, _, -, -, -, -, -, -, hset⟩ := onFileChunk_spec r msg
    · rw [hsame]
    · rw [hset]
      split <;> simp [hgetD]
  · exact hdrop
  · exact hdrop
  · split
    · exact hdrop
    · rfl
  · rfl

theorem startOf_transfer {r : Receiver} {x : String × Data} (h : r.startOf msg = some x) :
    msg.transfer = some x.1 := by
  obtain ⟨hnone, -⟩ | ⟨transfer, _, _, _, hsome, -, ht, -⟩ := onFileStart_spec r msg
  · rw [hnone] at h
    cases h
  · rw [hsome] at h
    cases h
    exact ht

/-- An event that is no frame of the transfer. -/
theorem step_other (hne : transfer ≠ "") (hstep : v.step a = some v')
    (hsock : v'.receiver.client.session.map (·.sock) = v.receiver.client.session.map (·.sock))
    (ha : frameOf transfer a = none) :
    JsMap.get transfer v'.receiver.incoming = JsMap.get transfer v.receiver.incoming ∧
      JsMap.get transfer v'.metas = JsMap.get transfer v.metas := by
  obtain ⟨receiver, hr, rfl⟩ := Option.map_eq_some_iff.mp hstep
  obtain ⟨client, hc, rfl⟩ := Option.map_eq_some_iff.mp hr
  cases a with
  | message sock msg =>
    have hmsg : msg.transfer ≠ some transfer := by simpa [frameOf] using ha
    refine ⟨?_, ?_⟩
    · dsimp only at hsock ⊢
      rw [if_pos hsock, onMessage_other hne hmsg]
    · dsimp only
      split
      · unfold Viewer.onFileStart
        split
        · rename_i x fileMeta hx
          have hxt : x ≠ transfer := fun he => hmsg (he ▸ startOf_transfer hx)
          simp [hxt]
        · rfl
      · unfold Viewer.onFileChunk
        split
        · split <;> rfl
        · rfl
      · rfl
  | _ =>
    dsimp only at hsock ⊢
    rw [if_pos hsock]
    exact ⟨rfl, rfl⟩

/-- A file frame, handled within the session. -/
theorem step_frame (hstep : v.step (.message sock msg) = some v')
    (hsock : v'.receiver.client.session.map (·.sock) = v.receiver.client.session.map (·.sock)) :
    v'.receiver.incoming = (v.receiver.onMessage msg).incoming ∧
      (msg.type = .fileStart → v'.metas = (v.onFileStart msg).metas ∧ v'.files = v.files) ∧
      (msg.type = .fileChunk → v'.metas = v.metas ∧ v'.files = (v.onFileChunk msg).files) ∧
      (msg.type = .fileEnd → v'.metas = v.metas ∧ v'.files = v.files) := by
  obtain ⟨receiver, hr, rfl⟩ := Option.map_eq_some_iff.mp hstep
  obtain ⟨client, hc, rfl⟩ := Option.map_eq_some_iff.mp hr
  dsimp only at hsock ⊢
  refine ⟨if_pos hsock, fun ht => ?_, fun ht => ?_, fun ht => ?_⟩
  · simp only [ht]
    refine ⟨trivial, ?_⟩
    unfold Viewer.onFileStart
    split <;> rfl
  · simp only [ht]
    refine ⟨?_, trivial⟩
    unfold Viewer.onFileChunk
    split
    · split <;> rfl
    · rfl
  · simp [ht]

theorem findKeyById_read {id : Data} (h : c.findKeyById id = some key) :
    keyId (c.read key) = id := by
  obtain ⟨s, -, hfind⟩ := Option.bind_eq_some_iff.mp h
  simpa using List.find?_some hfind

/-- The metadata that `sendFile` made, under a key the tab holds. -/
theorem step_start (hne : transfer ≠ "") (htotal : f.total ≤ 100000)
    (hkey : v₀.receiver.client.findKeyById (keyId k) = some key)
    (hmsg : Relays (.fileStart transfer (keyId k) (encryptMessage k f.meta)) msg)
    (hstep : v₀.step (.message sock msg) = some v₁) : Receiving transfer f key [] v₁ := by
  obtain ⟨ht, htr, hid, hd⟩ := hmsg
  have hread : v₀.receiver.client.read key = k := by simpa [keyId] using findKeyById_read hkey
  have hpos : 1 ≤ f.total := le_max_left _ _
  have hvalid : chunksValid (.const (.num f.total)) = true := by
    simp [chunksValid, chunkCount, hpos, htotal]
  have hmeta := chunksOf_meta f
  have hsock : v₁.receiver.client.session.map (·.sock) = v₀.receiver.client.session.map (·.sock) := by
    obtain ⟨receiver, hr, rfl⟩ := Option.map_eq_some_iff.mp hstep
    obtain ⟨client, hc, rfl⟩ := Option.map_eq_some_iff.mp hr
    simp only [Client.step] at hc
    split at hc <;> simp only [reduceCtorEq, Option.some.injEq] at hc
    subst hc
    simp [Client.onMessage, ht]
  obtain ⟨hin, hstart, -, -⟩ := step_frame hstep hsock
  obtain ⟨hmetas, -⟩ := hstart ht
  have hstartOf : v₀.receiver.startOf msg = some (transfer, f.meta) := by
    simp [Receiver.startOf, htr, hid, hd, hne, hkey, hread, encryptMessage, decryptMessage,
      sealBytes, openBytes, hmeta, hvalid]
  obtain ⟨hnone, -⟩ | ⟨transfer', key', fileMeta, count, hsome, ⟨id, hkey'⟩, -, hdata, hcount, hset⟩ :=
    onFileStart_spec v₀.receiver msg
  · rw [hnone] at hstartOf
    cases hstartOf
  · cases hsome.symm.trans hstartOf
    obtain ⟨hk, -⟩ := Lib.Term.enc.inj (Option.some.inj (hd.symm.trans hdata))
    have hid' := findKeyById_read hkey'
    rw [← hk] at hid'
    obtain rfl := Option.some.inj (hkey'.symm.trans (hid' ▸ hkey))
    cases hcount.symm.trans hmeta
    have hin' : v₁.receiver.incoming = JsMap.set transfer
        (newIncoming key' (.const (.num f.total))) v₀.receiver.incoming := by
      rw [hin, ← hset]
      simp [Receiver.onMessage, ht]
    refine ⟨⟨newIncoming key' (.const (.num f.total)), by simp [hin'], rfl, rfl, fun i => ?_, ?_⟩, ?_⟩
    · simp [newIncoming, chunkCount]
    · simp [newIncoming, chunkCount, JsMap.filled_nil]
    · simp [hmetas, Viewer.onFileStart, hstartOf]

theorem filled_eq {m : JsMap Nat Data} (h : ∀ i, JsMap.get i m = if i ∈ is then some (f.slice i) else none) :
    JsMap.filled n m = (Finset.range n).filter (· ∈ is) := by
  refine Finset.filter_congr fun i _ => ?_
  rw [h i]
  split <;> simp [*]

/-- The counter reaches the total when every index has come, and not before. -/
theorem card_filled_eq {m : JsMap Nat Data}
    (h : ∀ i, JsMap.get i m = if i ∈ is then some (f.slice i) else none) :
    (JsMap.filled n m).card = n ↔ ∀ i < n, i ∈ is := by
  have hcard := Finset.card_filter_eq_iff (s := Finset.range n) (p := (· ∈ is))
  rw [Finset.card_range] at hcard
  rw [filled_eq h, hcard]
  simp

/-- A chunk of the transfer while it is being received. -/
theorem step_chunk (h : Receiving transfer f key is v) (hnot : ¬ ∀ j < f.total, j ∈ is)
    (hread : v.receiver.client.read key = k) (hi : i < f.total)
    (hmsg : Relays (chunkFrame k transfer f i) msg) (hstep : v.step (.message sock msg) = some v')
    (hsock : v'.receiver.client.session.map (·.sock) = v.receiver.client.session.map (·.sock)) :
    ((∀ j < f.total, j ∈ is ++ [i]) ∧ JsMap.get transfer v'.receiver.incoming = none ∧
      v'.files = (some f.meta, f.pieces.map some) :: v.files) ∨
    ((¬ ∀ j < f.total, j ∈ is ++ [i]) ∧ Receiving transfer f key (is ++ [i]) v' ∧
      v'.files = v.files) := by
  obtain ⟨ht, htr, hix, hd⟩ := hmsg
  obtain ⟨hin, -, hchunk, -⟩ := step_frame hstep hsock
  obtain ⟨hmetas, hfiles⟩ := hchunk ht
  obtain ⟨⟨inc, hget, rfl, hchunks, hparts, hrec⟩, hmeta⟩ := h
  have hin' : v'.receiver.incoming = (v.receiver.onFileChunk msg).incoming := by
    rw [hin]
    simp [Receiver.onMessage, ht]
  by_cases hdup : i ∈ is
  · -- a chunk that is there already
    have hno : v.receiver.chunkOf msg = none := by
      simp [Receiver.chunkOf, htr, hget, hd, hix, Incoming.due, hparts, hdup]
    have hsame : ∀ j, j ∈ is ++ [i] ↔ j ∈ is := by
      intro j
      simp only [List.mem_append, List.mem_singleton, or_iff_left_iff_imp]
      rintro rfl
      exact hdup
    obtain ⟨-, hstay⟩ | ⟨_, _, _, hsome, -⟩ := onFileChunk_spec v.receiver msg
    · refine .inr ⟨by simpa only [hsame] using hnot, ⟨⟨inc, ?_, rfl, hchunks, ?_, hrec⟩, ?_⟩, ?_⟩
      · rw [hin', hstay, hget]
      · simpa only [hsame] using hparts
      · rw [hmetas, hmeta]
      · simp [hfiles, Viewer.onFileChunk, hno]
    · rw [hno] at hsome
      cases hsome
  · -- a new one
    have hsome : v.receiver.chunkOf msg = some (inc, i, f.slice i) := by
      simp [Receiver.chunkOf, htr, hget, hd, hix, Incoming.due, hparts, hdup, hchunks, hi, hread,
        sealBytes, openBytes]
    have hset : ∀ j, JsMap.get j (JsMap.set i (f.slice i) inc.parts) =
        if j ∈ is ++ [i] then some (f.slice j) else none := by
      intro j
      rw [JsMap.get_set, hparts]
      by_cases hj : i = j
      · subst hj
        simp
      · simp [hj, Ne.symm hj]
    have hcount : inc.received + 1 = (JsMap.filled f.total (JsMap.set i (f.slice i) inc.parts)).card := by
      rw [JsMap.card_filled_set hi (by simp [hparts, hdup]), hrec]
    obtain ⟨hnone, -⟩ | ⟨inc', i', chunk', hsome', hget', -, -, -, -, hnew⟩ :=
      onFileChunk_spec v.receiver msg
    · rw [hnone] at hsome
      cases hsome
    · cases hsome'.symm.trans hsome
      rw [htr, Option.getD_some] at hnew
      by_cases hdone : some (inc.received + 1) = inc.chunks
      · have hall : inc.received + 1 = f.total := Option.some.inj (hdone.trans hchunks)
        refine .inl ⟨(card_filled_eq hset).mp (hcount.symm.trans hall), ?_, ?_⟩
        · simp [hin', hnew, hdone]
        · have hpieces := JsMap.assemble_eq (hcount.symm.trans hall) fun j x hx => by
            rw [hset] at hx
            split at hx
            · exact (Option.some.inj hx).symm
            · cases hx
          rw [hfiles]
          simp only [Viewer.onFileChunk, hsome, if_pos hdone, htr, Option.getD_some, hmeta]
          rw [hall, hpieces, File.pieces, List.map_map]
          rfl
      · have hlt : inc.received + 1 ≠ f.total := fun he => hdone (by rw [he, hchunks])
        let inc' := { inc with parts := JsMap.set i (f.slice i) inc.parts, received := inc.received + 1 }
        have hget' : JsMap.get transfer v'.receiver.incoming = some inc' := by
          simp [hin', hnew, hdone, inc']
        refine .inr ⟨fun hall => hlt (hcount.trans ((card_filled_eq hset).mpr hall)),
          ⟨⟨inc', hget', rfl, hchunks, hset, hcount⟩, ?_⟩, ?_⟩
        · rw [hmetas, hmeta]
        · simp [hfiles, Viewer.onFileChunk, hsome, hdone]

/-- A chunk of a transfer that is finished or dropped. -/
theorem step_late (hgone : JsMap.get transfer v.receiver.incoming = none)
    (hmsg : Relays (chunkFrame k transfer f i) msg) (hstep : v.step (.message sock msg) = some v')
    (hsock : v'.receiver.client.session.map (·.sock) = v.receiver.client.session.map (·.sock)) :
    JsMap.get transfer v'.receiver.incoming = none ∧ v'.files = v.files := by
  obtain ⟨ht, htr, -, -⟩ := hmsg
  obtain ⟨hin, -, hchunk, -⟩ := step_frame hstep hsock
  obtain ⟨-, hfiles⟩ := hchunk ht
  have hno : v.receiver.chunkOf msg = none := by simp [Receiver.chunkOf, htr, hgone]
  obtain ⟨-, hstay⟩ | ⟨_, _, _, hsome, -⟩ := onFileChunk_spec v.receiver msg
  · refine ⟨?_, by simp [hfiles, Viewer.onFileChunk, hno]⟩
    rw [hin, ← hgone, ← hstay]
    simp [Receiver.onMessage, ht]
  · rw [hno] at hsome
    cases hsome

/-- The end of the transfer. -/
theorem step_end (hne : transfer ≠ "") (hmsg : Relays (.fileEnd transfer) msg)
    (hstep : v.step (.message sock msg) = some v')
    (hsock : v'.receiver.client.session.map (·.sock) = v.receiver.client.session.map (·.sock)) :
    JsMap.get transfer v'.receiver.incoming = none ∧ v'.files = v.files := by
  obtain ⟨ht, htr⟩ := hmsg
  obtain ⟨hin, -, -, hend⟩ := step_frame hstep hsock
  refine ⟨?_, (hend ht).2⟩
  simp [hin, Receiver.onMessage, ht, Receiver.dropTransfer, htr, hne]

/-! ## The round trip -/

/-- What a run makes of a transfer, from the frame that started it. -/
def Outcome (transfer : String) (f : File) (key : Addr) (l : List Viewed) (v : Viewer) : Prop :=
  finished transfer l = (if Arrived transfer f (l.map (·.label)) then
    [(some f.meta, f.pieces.map some)] else []) ∧
  if Arrived transfer f (l.map (·.label)) ∨ ended transfer (l.map (·.label)) = true then
    JsMap.get transfer v.receiver.incoming = none
  else Receiving transfer f key (arrived transfer (l.map (·.label))) v

variable {l : List Viewed}

theorem finished_snoc (l : List Viewed) (t : Viewed) :
    finished transfer (l ++ [t]) = finished transfer l ++ finished transfer [t] := by
  simp [finished]

/-- A step whose frame, if it is one of the transfer, finishes nothing. -/
theorem finished_keep (h : v'.files = v.files) : finished transfer [⟨v, a, v'⟩] = [] := by
  cases ha : frameOf transfer a <;> simp [finished, ha, h]

theorem finished_other (ha : frameOf transfer a = none) : finished transfer [⟨v, a, v'⟩] = [] := by
  simp [finished, ha]

theorem mem_tail {m : ClientMsg Data} (hm : m ∈ (sendFile k transfer f).tail) :
    (∃ i < f.total, m = chunkFrame k transfer f i) ∨ m = .fileEnd transfer := by
  simp only [sendFile, List.cons_append, List.tail_cons, List.mem_append, List.mem_map,
    List.mem_range, List.mem_singleton] at hm
  exact hm.imp_left fun ⟨i, hi, he⟩ => ⟨i, hi, he.symm⟩

/-- The induction over the run: as long as a chunk is missing the transfer is `Receiving`. -/
theorem outcome_of_trace (hne : transfer ≠ "") (hstart : Receiving transfer f key [] v₁)
    (hl : (v₁.from).Trace l v) (hcalm : ∀ t ∈ l, Calm k transfer f key t) :
    Outcome transfer f key l v := by
  induction hl with
  | nil =>
    have hpos : 0 < f.total := lt_of_lt_of_le Nat.one_pos (le_max_left _ _)
    have hnot : ¬ Arrived transfer f [] := fun h => by simpa [arrived, untilEnd] using h 0 hpos
    refine ⟨by simp [finished, hnot], ?_⟩
    simp only [List.map_nil, hnot, ended, List.any_nil, Bool.false_eq_true, or_self, if_false]
    exact hstart
  | @snoc l v v' a hl hstep ih =>
    obtain ⟨hfin, hst⟩ := ih fun t ht => hcalm t (List.mem_append_left _ ht)
    obtain ⟨hsock, hread, hframes⟩ := hcalm ⟨v, a, v'⟩ (by simp)
    dsimp only at hsock hread hframes
    unfold Outcome
    rw [finished_snoc, List.map_append, List.map_singleton]
    generalize hlab : l.map (·.label) = as at hfin hst ⊢
    cases ha : frameOf transfer a with
    | none =>
      obtain ⟨harr, hend⟩ := arrived_other as ha
      obtain ⟨hget, hmeta⟩ := step_other hne hstep hsock ha
      have hsame := arrived_congr f harr
      rw [finished_other ha, List.append_nil]
      simp only [hsame, hend, harr]
      refine ⟨hfin, ?_⟩
      split at hst
      · rw [if_pos ‹_›, hget, hst]
      · rw [if_neg ‹_›]
        exact ⟨by rw [hget]; exact hst.incoming, hmeta.trans hst.fileMeta⟩
    | some msg =>
      obtain ⟨sock, rfl, htr⟩ := frameOf_eq_some.mp ha
      obtain ⟨m, hm, hrel⟩ := hframes msg ha
      obtain ⟨i, hi, rfl⟩ | rfl := mem_tail hm
      · obtain ⟨harr, hend⟩ := arrived_chunk as ha (by simp [hrel.1]) hrel.2.2.1
        by_cases hdone : Arrived transfer f as ∨ ended transfer as = true
        · -- it is over already
          rw [if_pos hdone] at hst
          obtain ⟨hgone, hfiles⟩ := step_late hst hrel hstep hsock
          have hsame : Arrived transfer f (as ++ [.message sock msg]) ↔ Arrived transfer f as := by
            unfold Arrived
            rw [harr]
            split
            · exact Iff.rfl
            · obtain hall | he := hdone
              · exact iff_of_true (fun j hj => List.mem_append_left _ (hall j hj)) hall
              · contradiction
          rw [finished_keep hfiles, List.append_nil, hend]
          simp only [hsame]
          exact ⟨hfin, by rw [if_pos hdone]; exact hgone⟩
        · obtain ⟨hnot, hopen⟩ := not_or.mp hdone
          rw [if_neg hdone] at hst
          rw [if_neg hnot] at hfin
          rw [if_neg hopen] at harr
          have hiff : Arrived transfer f (as ++ [.message sock msg]) ↔
              ∀ j < f.total, j ∈ arrived transfer as ++ [i] := by
            unfold Arrived
            rw [harr]
          obtain ⟨hall, hgone, hfiles⟩ | ⟨hmissing, hrec, hfiles⟩ :=
            step_chunk hst hnot hread hi hrel hstep hsock
          · rw [if_pos (hiff.mpr hall), if_pos (.inl (hiff.mpr hall)), hfin]
            refine ⟨?_, hgone⟩
            simp [finished, ha, hfiles]
          · have hno := mt hiff.mp hmissing
            rw [if_neg hno, if_neg (not_or.mpr ⟨hno, hend ▸ hopen⟩), finished_keep hfiles, hfin, harr]
            exact ⟨rfl, hrec⟩
      · obtain ⟨harr, hend⟩ := arrived_end as ha hrel.1
        obtain ⟨hgone, hfiles⟩ := step_end hne hrel hstep hsock
        have hsame := arrived_congr f harr
        rw [finished_keep hfiles, List.append_nil]
        simp only [hsame, hend]
        exact ⟨hfin, by simp [hgone]⟩

/-- From the frame that starts the transfer on, whatever frames of other transfers and other events
come between: the transfer is finished when every index has arrived and before its end, it is finished
once and with the bytes sent, and after its end nothing is left of it. -/
theorem chunking_round_trip (htotal : (File.ofBuffer name type buf).total ≤ 100000)
    (hne : transfer ≠ "") (hkey : v₀.receiver.client.findKeyById (keyId k) = some key)
    (hmsg : ∃ m ∈ (sendFile k transfer (File.ofBuffer name type buf)).head?, Relays m msg)
    (hstep : v₀.step (.message sock msg) = some v₁) (hl : (v₁.from).Trace l v)
    (hcalm : ∀ t ∈ l, Calm k transfer (File.ofBuffer name type buf) key t) :
    (finished transfer l = if Arrived transfer (File.ofBuffer name type buf) (l.map (·.label)) then
      [(some (File.ofBuffer name type buf).meta, (File.ofBuffer name type buf).pieces.map some)]
      else []) ∧
    blob ((File.ofBuffer name type buf).pieces.map some) = some buf ∧
    (ended transfer (l.map (·.label)) = true → JsMap.get transfer v.receiver.incoming = none) := by
  obtain ⟨m, hm, hrel⟩ := hmsg
  cases hm
  obtain ⟨hfin, hst⟩ := outcome_of_trace hne (step_start hne htotal hkey hrel hstep) hl hcalm
  refine ⟨hfin, blob_pieces name type buf, fun hend => ?_⟩
  rwa [if_pos (.inr hend)] at hst

/-- A tab that holds the key of tab 1 which `sampleFrames` are sealed under. -/
def sampleViewer : Viewer where
  receiver.client := {
    who := 2
    heap := fun _ => { bytes := .name (Name.mk 1 4) }
    brk := 1
    session := some { sock := 0, keys := [0], kp := { pub := .pub (Name.mk 2 1), priv := 0 } }
    socket := fun _ => { ready := .open }
    sockets := 1 }

/-- A full chunk and one byte more. -/
def sampleBuffer : List UInt8 := List.replicate chunkSize 7 ++ [9]

def sampleBytes : File := File.ofBuffer (.const (.text 1)) (.const (.text 2)) sampleBuffer

theorem sampleBytes_total : sampleBytes.total = 2 := by
  have hlen : sampleBuffer.length = 65537 := by
    rw [sampleBuffer, List.length_append, List.length_replicate]
    rfl
  rw [File.total, sampleBytes, File.ofBuffer, List.length_map, List.length_range, hlen]
  rfl

def sampleStart : ServerMsg Data where
  type := .fileStart
  transfer := some "f"
  keyId := some (keyId (.name (Name.mk 1 4)))
  data := some (encryptMessage (.name (Name.mk 1 4)) sampleBytes.meta)

def sampleChunk (i : Nat) : ServerMsg Data where
  type := .fileChunk
  transfer := some "f"
  index := some (i : Int)
  data := some (sealBytes (.name (Name.mk 1 4)) (sampleBytes.slice i))

/-- The chunks come in the wrong order and the second one twice, then the end, and a chunk again. -/
def sampleFrames : List Act :=
  [.message 0 (sampleChunk 1), .message 0 (sampleChunk 1), .message 0 (sampleChunk 0),
    .message 0 { type := .fileEnd, transfer := some "f" }, .message 0 (sampleChunk 0)]

theorem sampleStart_some : (sampleViewer.step (.message 0 sampleStart)).isSome = true := by
  decide +kernel

def sampleStarted : Viewer := (sampleViewer.step (.message 0 sampleStart)).get sampleStart_some

theorem sampleFrames_some :
    (sampleStarted.from.stepsFrom sampleStarted.from.init sampleFrames).isSome = true := by
  decide +kernel

theorem sampleFrames_relayed : ∀ a ∈ sampleFrames, ∀ msg ∈ frameOf "f" a,
    ∃ m ∈ (sendFile (.name (Name.mk 1 4)) "f" sampleBytes).tail, Relays m msg := by
  have hchunk : ∀ i < 2, ∃ m ∈ (sendFile (.name (Name.mk 1 4)) "f" sampleBytes).tail,
      Relays m (sampleChunk i) := by
    intro i hi
    refine ⟨chunkFrame (.name (Name.mk 1 4)) "f" sampleBytes i, ?_, ⟨rfl, rfl, rfl, rfl⟩⟩
    simp only [sendFile, sampleBytes_total, List.cons_append, List.tail_cons, List.mem_append,
      List.mem_map, List.mem_range]
    exact .inl ⟨i, hi, rfl⟩
  have hframe : ∀ i, frameOf "f" (.message 0 (sampleChunk i)) = some (sampleChunk i) := by
    simp [frameOf, sampleChunk]
  have hend : ∃ m ∈ (sendFile (.name (Name.mk 1 4)) "f" sampleBytes).tail,
      Relays m { type := .fileEnd, transfer := some "f" } :=
    ⟨.fileEnd "f", by simp [sendFile], ⟨rfl, rfl⟩⟩
  have hlast : frameOf "f" (.message 0 { type := .fileEnd, transfer := some "f" }) =
      some { type := .fileEnd, transfer := some "f" } := by simp [frameOf]
  simp only [sampleFrames, List.forall_mem_cons, hframe, hlast, Option.mem_some_iff, forall_eq',
    List.not_mem_nil, false_imp_iff, implies_true, and_true]
  exact ⟨hchunk 1 (by decide), hchunk 1 (by decide), hchunk 0 (by decide), hend, hchunk 0 (by decide)⟩

/-- The file is shown once, when its first chunk has come. -/
theorem chunking_round_trip_sample :
    let r := (sampleStarted.from.stepsFrom sampleStarted.from.init sampleFrames).get sampleFrames_some
    finished "f" r.1 = [(some sampleBytes.meta, sampleBytes.pieces.map some)] ∧
      blob (sampleBytes.pieces.map some) = some sampleBuffer := by
  intro r
  have hkey : sampleViewer.receiver.client.findKeyById (keyId (.name (Name.mk 1 4))) = some 0 := by
    decide +kernel
  have hmsg : Relays (.fileStart "f" (keyId (.name (Name.mk 1 4)))
      (encryptMessage (.name (Name.mk 1 4)) sampleBytes.meta)) sampleStart := ⟨rfl, rfl, rfl, rfl⟩
  have hlabels : ∀ t ∈ r.1, t.label ∈ sampleFrames := by
    rw [← Machine.labels_stepsFrom (Option.some_get sampleFrames_some).symm]
    exact fun t ht => List.mem_map_of_mem ht
  have hstill : ∀ t ∈ r.1, t.after.receiver.client.session.map (·.sock) =
      t.before.receiver.client.session.map (·.sock) ∧
      t.before.receiver.client.read 0 = .name (Name.mk 1 4) := by decide +kernel
  have hcalm : ∀ t ∈ r.1, Calm (.name (Name.mk 1 4)) "f" sampleBytes 0 t := fun t ht =>
    ⟨(hstill t ht).1, (hstill t ht).2, sampleFrames_relayed t.label (hlabels t ht)⟩
  have hall : Arrived "f" sampleBytes (r.1.map (·.label)) := by
    unfold Arrived
    rw [sampleBytes_total]
    decide +kernel
  have htotal : (File.ofBuffer (.const (.text 1)) (.const (.text 2)) sampleBuffer).total ≤ 100000 :=
    sampleBytes_total.trans_le (by decide)
  obtain ⟨hfin, hblob, -⟩ := chunking_round_trip htotal (by decide) hkey ⟨_, rfl, hmsg⟩ (Option.some_get sampleStart_some).symm (Machine.trace_get sampleFrames_some) hcalm
  exact ⟨hfin.trans (if_pos hall), hblob⟩

end E2EAnon.Web
