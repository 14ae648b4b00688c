import E2EAnon.Lib.Slots
import E2EAnon.Web.Posts
import E2EAnon.Web.Receive

/-!
# From the file that is sent to the file that is shown

`Viewer` adds to a `Receiver` the metadata of the transfers (`Incoming.meta`) and, as a history, the
files that were finished. A chunk is authenticated by itself: its transfer and its index are whatever
the frame says. `Sends` and `Shows`: as long as the frames that are accepted are frames that were
sent, what is shown under a transfer id is the file sent under it.

| here | there |
| --- | --- |
| `startOf`, `chunkOf` | the frames `onFileStart` and `onFileChunk` accept (`main.ts:723`, `:747`) |
| `Viewer.onFileStart`, `Viewer.onFileChunk` | what they do with `inc.meta`, and `finishIncoming` (`:774`) |
-/

namespace E2EAnon.Web

open Lib (JsMap)

/-- The slices `sendFile` sends, in order. -/
def File.pieces (f : File) : List Data := (List.range f.total).map f.slice

namespace Receiver

/-- The transfer and the metadata of a `file_start` that is accepted. -/
def startOf (r : Receiver) (msg : ServerMsg Data) : Option (String × Data) :=
  match msg.transfer, msg.keyId, msg.data with
  | some transfer, some id, some data =>
    if transfer = "" then none
    else match r.client.findKeyById id with
    | none => none
    | some key =>
      match decryptMessage (r.client.read key) data with
      | none => none
      | some fileMeta =>
        if ((jsonEntries fileMeta).bind chunksOf).any chunksValid then some (transfer, fileMeta) else none
  | _, _, _ => none

/-- The transfer, the index and the bytes of a `file_chunk` that is accepted. -/
def chunkOf (r : Receiver) (msg : ServerMsg Data) : Option (Incoming × Nat × Data) :=
  match JsMap.get (msg.transfer.getD "") r.incoming, msg.data with
  | some inc, some data =>
    if inc.due (msg.index.getD (-1)) then
      (openBytes (r.client.read inc.key) data).map fun chunk =>
        (inc, (msg.index.getD (-1)).toNat, chunk)
    else none
  | _, _ => none

end Receiver

structure Viewer where
  receiver : Receiver
  /-- `incoming.get(..).meta` -/
  metas    : JsMap String Data := []
  /-- The metadata and the parts of the files that were finished. -/
  files    : List (Option Data × List (Option Data)) := []

namespace Viewer

def onFileStart (v : Viewer) (msg : ServerMsg Data) : Viewer :=
  match v.receiver.startOf msg with
  | some (transfer, fileMeta) => { v with metas := JsMap.set transfer fileMeta v.metas }
  | none => v

def onFileChunk (v : Viewer) (msg : ServerMsg Data) : Viewer :=
  match v.receiver.chunkOf msg with
  | some (inc, i, chunk) =>
    if some (inc.received + 1) = inc.chunks then
      { v with files := (JsMap.get (msg.transfer.getD "") v.metas,
          JsMap.assemble (inc.received + 1) (JsMap.set i chunk inc.parts)) :: v.files }
    else v
  | none => v

def step (v : Viewer) (a : Act) : Option Viewer :=
  (v.receiver.step a).map fun receiver =>
    let v' := match a with
      | .message _ msg =>
        match msg.type with
        | .fileStart => v.onFileStart msg
        | .fileChunk => v.onFileChunk msg
        | _ => v
      | _ => v
    { v' with receiver }

end Viewer

variable {r : Receiver} {msg : ServerMsg Data} {P : String → File → Prop}

/-! ## What is accepted -/

theorem onFileStart_spec (r : Receiver) (msg : ServerMsg Data) :
    (r.startOf msg = none ∧ (r.onFileStart msg).incoming = r.incoming) ∨
      ∃ transfer key fileMeta v, r.startOf msg = some (transfer, fileMeta) ∧
        (∃ id, r.client.findKeyById id = some key) ∧
        msg.transfer = some transfer ∧ msg.data = some (.enc (r.client.read key) fileMeta) ∧
        (jsonEntries fileMeta).bind chunksOf = some v ∧
        (r.onFileStart msg).incoming = JsMap.set transfer (newIncoming key v) r.incoming := by
  unfold Receiver.onFileStart Receiver.startOf
  cases ht : msg.transfer with
  | none => exact .inl ⟨rfl, rfl⟩
  | some transfer =>
    cases hid : msg.keyId with
    | none => exact .inl ⟨rfl, rfl⟩
    | some id =>
      cases hd : msg.data with
      | none => exact .inl ⟨rfl, rfl⟩
      | some data =>
        by_cases hempty : transfer = ""
        · simp [hempty]
        cases hkey : r.client.findKeyById id with
        | none => simp [hempty, hkey]
        | some key =>
          cases hopen : decryptMessage (r.client.read key) data with
          | none => simp [hempty, hkey, hopen]
          | some fileMeta =>
            cases hv : (jsonEntries fileMeta).bind chunksOf with
            | none => simp [hempty, hkey, hopen, hv]
            | some v =>
              by_cases hvalid : chunksValid v = true
              · refine .inr ⟨transfer, key, fileMeta, v, ?_, ⟨id, hkey⟩, rfl, ?_, hv, ?_⟩
                · simp [hempty, hkey, hopen, hv, hvalid]
                · rw [openBytes_eq_some.mp hopen]
                · simp [hempty, hkey, hopen, hv, hvalid, Receiver.note]
              · simp [hempty, hkey, hopen, hv, hvalid]

theorem onFileChunk_spec (r : Receiver) (msg : ServerMsg Data) :
    (r.chunkOf msg = none ∧ (r.onFileChunk msg).incoming = r.incoming) ∨
      ∃ inc i chunk, r.chunkOf msg = some (inc, i, chunk) ∧
        JsMap.get (msg.transfer.getD "") r.incoming = some inc ∧ msg.index = some (i : Int) ∧
        msg.data = some (.enc (r.client.read inc.key) chunk) ∧ (∀ n ∈ inc.chunks, i < n) ∧
        JsMap.get i inc.parts = none ∧
        (r.onFileChunk msg).incoming = if some (inc.received + 1) = inc.chunks then
          JsMap.delete (msg.transfer.getD "") r.incoming
        else JsMap.set (msg.transfer.getD "")
          { inc with parts := JsMap.set i chunk inc.parts, received := inc.received + 1 }
          r.incoming := by
  unfold Receiver.onFileChunk Receiver.chunkOf
  dsimp only
  cases hinc : JsMap.get (msg.transfer.getD "") r.incoming with
  | none => exact .inl ⟨rfl, rfl⟩
  | some inc =>
    cases hd : msg.data with
    | none => exact .inl ⟨rfl, rfl⟩
    | some data =>
      by_cases hdue : inc.due (msg.index.getD (-1)) = true
      · cases hopen : openBytes (r.client.read inc.key) data with
        | none => simp [hdue, hopen]
        | some chunk =>
          have hdue' := hdue
          simp only [Incoming.due, decide_eq_true_eq] at hdue'
          obtain ⟨hpos, hlt, hfree⟩ := hdue'
          obtain ⟨i, hi⟩ := Int.eq_ofNat_of_zero_le hpos
          have hindex : msg.index = some (i : Int) := by
            cases hix : msg.index with
            | none => simp [hix] at hpos
            | some j =>
              rw [hix] at hi
              exact congrArg some hi
          rw [hi] at hdue hlt hfree ⊢
          refine .inr ⟨inc, i, chunk, ?_, rfl, hindex, ?_, fun n hn => ?_, hfree, ?_⟩
          · simp [hdue, hopen]
          · rw [openBytes_eq_some.mp hopen]
          · exact Int.ofNat_lt.mp (hlt n hn)
          · simp [hdue, hopen, Receiver.note]
      · simp [hdue]

/-! ## What is sent -/

/-- A file frame is a piece of a file that `P` knows under its transfer id. -/
def Genuine (P : String → File → Prop) : ClientMsg Data → Prop
  | .fileStart transfer _ d => ∃ f k, P transfer f ∧ d = .enc k f.meta
  | .fileChunk transfer i d =>
    ∃ f k, ∃ n : Nat, P transfer f ∧ i = n ∧ d = .enc k (f.slice n)
  | _ => True

theorem genuine_plain {m : ClientMsg Data} (h : plain m) : Genuine P m := by
  cases m <;> trivial

/-- Every upload and every file frame sent so far is of a file that `P` knows. -/
structure Sends (P : String → File → Prop) (c : Client) : Prop where
  hellos  : Hellos c
  uploads : ∀ u up, JsMap.get u c.uploads = some up → P up.transfer up.file
  outbox  : ∀ m ∈ c.outbox, Genuine P m.2

variable {a : Act} {c₀ c c' : Client}

theorem Posted.genuine {m : ClientMsg Data} (h : Posted a c₀ c m) (hs : Sends P c) : Genuine P m := by
  cases h with
  | plain h => exact genuine_plain h
  | hello sock => exact hs.hellos.all trivial (fun _ => genuine_plain) sock
  | key k pub d hs' hk hnew hd hm =>
    obtain ⟨id, rfl | rfl⟩ := hm <;> trivial
  | fileStart u up hu => exact ⟨up.file, _, hs.uploads u up hu, rfl⟩
  | fileChunk u up i hu => exact ⟨up.file, _, i, hs.uploads u up hu, rfl, rfl⟩
  | _ => trivial

/-- `sendFile` returns at its first line or starts an upload. -/
theorem submit_launches (c : Client) (body : Option Data) (transfer : String) (f : File) :
    c.submit body (some (transfer, f)) = c ∨
      (c.submit body (some (transfer, f))).launched = c.launched + 1 := by
  have hsend (x : Client) (m : ClientMsg Data) : (x.send m).launched = x.launched := by
    unfold Client.send
    split
    · split <;> rfl
    · rfl
  unfold Client.submit
  split
  · exact .inl rfl
  · split
    · exact .inl rfl
    · refine .inr ?_
      cases body with
      | none => rfl
      | some body => exact congrArg (· + 1) (hsend (c.noteSeal _ none) _)

theorem Sends.step (h : Sends P c) (hstep : c.step a = some c')
    (hP : ∀ body transfer f, a = .submit body (some (transfer, f)) →
      c'.launched = c.launched + 1 → P transfer f) : Sends P c' := by
  by_cases ha : ∃ body transfer f, a = .submit body (some (transfer, f)) ∧ ¬ P transfer f
  · obtain ⟨body, transfer, f, rfl, hno⟩ := ha
    cases hstep
    obtain he | hlaunch := submit_launches c body transfer f
    · exact he.symm ▸ h
    · exact absurd (hP body transfer f rfl hlaunch) hno
  refine (step_effects hstep).invariant (fun x x' hx he =>
    ⟨hx.hellos.effect he, fun u up hu => ?_, fun m hm => ?_⟩) h
  · obtain ⟨up₀, hu₀, ht, hf⟩ | ⟨body, hsubmit⟩ := he.upload hu
    · rw [ht, hf]
      exact hx.uploads u up₀ hu₀
    · exact by_contra fun hno => ha ⟨body, _, _, hsubmit, hno⟩
  · obtain hold | hp := he.posted hm
    · exact hx.outbox m hold
    · exact hp.genuine hx

theorem Sends.mono {Q : String → File → Prop} (h : Sends P c) (hPQ : ∀ transfer f, P transfer f → Q transfer f) :
    Sends Q c where
  hellos := h.hellos
  uploads u up hu := hPQ _ _ (h.uploads u up hu)
  outbox m hm := by
    have hg := h.outbox m hm
    obtain ⟨sock, m⟩ := m
    cases m with
    | fileStart transfer kid d =>
      obtain ⟨f, k, hf, he⟩ := hg
      exact ⟨f, k, hPQ _ _ hf, he⟩
    | fileChunk transfer i d =>
      obtain ⟨f, k, n, hf, hrest⟩ := hg
      exact ⟨f, k, n, hPQ _ _ hf, hrest⟩
    | _ => trivial

/-! ## What is shown -/

theorem chunksOf_meta (f : File) :
    (jsonEntries f.meta).bind chunksOf = some (.const (.num f.total)) := by
  have hkeys : ∀ key ∈ [1, 2, 3, 4], arrayIndex key = none := by decide
  simp only [List.forall_mem_cons] at hkeys
  simp [File.meta, chunksOf, jsonOf, objectOf, JsMap.ownProperties, hkeys, JsMap.set, JsMap.get]

/-- What is being received, and what has been shown, is of files that `P` knows. -/
structure Shows (P : String → File → Prop) (v : Viewer) : Prop where
  incoming : ∀ transfer inc, JsMap.get transfer v.receiver.incoming = some inc →
    ∃ f, P transfer f ∧ JsMap.get transfer v.metas = some f.meta ∧ inc.chunks = some f.total ∧
      (∀ i chunk, JsMap.get i inc.parts = some chunk → chunk = f.slice i) ∧
      inc.received = (JsMap.filled f.total inc.parts).card
  files : ∀ x ∈ v.files, ∃ transfer f, P transfer f ∧ x = (some f.meta, f.pieces.map some)

variable {v v' : Viewer}

theorem Shows.mono {Q : String → File → Prop} (h : Shows P v) (hPQ : ∀ transfer f, P transfer f → Q transfer f) :
    Shows Q v where
  incoming transfer inc hinc :=
    let ⟨f, hf, hrest⟩ := h.incoming transfer inc hinc
    ⟨f, hPQ _ _ hf, hrest⟩
  files x hx :=
    let ⟨transfer, f, hf, he⟩ := h.files x hx
    ⟨transfer, f, hPQ _ _ hf, he⟩

/-- A transfer that is left alone. -/
theorem Shows.sub (h : Shows P v) (hmetas : v'.metas = v.metas) (hfiles : v'.files = v.files)
    (hsub : ∀ transfer inc, JsMap.get transfer v'.receiver.incoming = some inc →
      JsMap.get transfer v.receiver.incoming = some inc) : Shows P v' where
  incoming transfer inc hinc := hmetas ▸ h.incoming transfer inc (hsub transfer inc hinc)
  files := hfiles ▸ h.files

theorem Shows.start (h : Shows P v) {msg : ServerMsg Data} {receiver : Receiver}
    (hin : receiver.incoming = (v.receiver.onFileStart msg).incoming)
    (hacc : ∀ transfer fileMeta d, v.receiver.startOf msg = some (transfer, fileMeta) →
      msg.data = some d → ∃ f k, P transfer f ∧ d = .enc k f.meta) :
    Shows P { v.onFileStart msg with receiver } := by
  obtain ⟨hnone, hsame⟩ | ⟨transfer, key, fileMeta, count, hsome, -, -, hdata, hcount, hset⟩ :=
    onFileStart_spec v.receiver msg
  · simp only [Viewer.onFileStart, hnone]
    exact h.sub rfl rfl fun transfer inc hinc => by rwa [hin, hsame] at hinc
  · obtain ⟨f, k, hf, he⟩ := hacc transfer fileMeta _ hsome hdata
    obtain ⟨rfl, rfl⟩ := Lib.Term.enc.inj he
    rw [chunksOf_meta] at hcount
    cases hcount
    simp only [Viewer.onFileStart, hsome]
    refine ⟨fun transfer' inc hinc => ?_, h.files⟩
    rw [hin, hset, JsMap.get_set] at hinc
    split at hinc
    · rename_i he'
      subst he'
      cases hinc
      refine ⟨f, hf, by simp, rfl, fun i chunk hi => ?_, ?_⟩
      · simp [newIncoming, chunkCount] at hi
      · simp [newIncoming, chunkCount, JsMap.filled_nil]
    · rename_i hne
      obtain ⟨f', hf', hmeta, hrest⟩ := h.incoming transfer' inc hinc
      exact ⟨f', hf', by simp [hne, hmeta], hrest⟩

theorem Shows.chunk (h : Shows P v) {msg : ServerMsg Data} {receiver : Receiver}
    (hin : receiver.incoming = (v.receiver.onFileChunk msg).incoming)
    (hP : ∀ transfer f f', P transfer f → P transfer f' → f = f')
    (hacc : ∀ inc i chunk d, v.receiver.chunkOf msg = some (inc, i, chunk) → msg.data = some d →
      ∃ f k, P (msg.transfer.getD "") f ∧ d = .enc k (f.slice i)) :
    Shows P { v.onFileChunk msg with receiver } := by
  obtain ⟨hnone, hsame⟩ | ⟨inc, i, chunk, hsome, hget, -, hdata, hlt, hfree, hset⟩ :=
    onFileChunk_spec v.receiver msg
  · simp only [Viewer.onFileChunk, hnone]
    exact h.sub rfl rfl fun transfer inc hinc => by rwa [hin, hsame] at hinc
  obtain ⟨f, hf, hmeta, hchunks, hparts, hcount⟩ := h.incoming _ inc hget
  obtain ⟨f', k, hf', he⟩ := hacc inc i chunk _ hsome hdata
  obtain rfl := hP _ _ _ hf hf'
  obtain ⟨-, rfl⟩ := Lib.Term.enc.inj he
  have hi : i < f.total := hlt f.total hchunks
  have hparts' : ∀ j c, JsMap.get j (JsMap.set i (f.slice i) inc.parts) = some c → c = f.slice j := by
    intro j c hc
    rw [JsMap.get_set] at hc
    split at hc
    · rename_i hj
      subst hj
      cases hc
      rfl
    · exact hparts j c hc
  have hcount' : inc.received + 1 =
      (JsMap.filled f.total (JsMap.set i (f.slice i) inc.parts)).card := by
    rw [JsMap.card_filled_set hi hfree, hcount]
  simp only [Viewer.onFileChunk, hsome]
  by_cases hdone : some (inc.received + 1) = inc.chunks
  · -- the last chunk: all of them are there
    have hall : inc.received + 1 = f.total := Option.some.inj (hdone.trans hchunks)
    rw [if_pos hdone]
    refine ⟨fun transfer inc' hinc => ?_, List.forall_mem_cons.mpr ⟨⟨_, f, hf, ?_⟩, h.files⟩⟩
    · rw [hin, hset, if_pos hdone, JsMap.get_delete] at hinc
      split at hinc
      · cases hinc
      · exact h.incoming transfer inc' hinc
    · rw [hmeta, hall, JsMap.assemble_eq (hcount'.symm.trans hall) hparts', File.pieces, List.map_map]
      rfl
  · rw [if_neg hdone]
    refine ⟨fun transfer inc' hinc => ?_, h.files⟩
    rw [hin, hset, if_neg hdone, JsMap.get_set] at hinc
    split at hinc
    · rename_i he'
      subst he'
      cases hinc
      exact ⟨f, hf, hmeta, hchunks, hparts', hcount'⟩
    · exact h.incoming transfer inc' hinc

theorem drop_sub {transfer : String} {inc : Incoming} (r : Receiver) (msg : ServerMsg Data)
    (h : JsMap.get transfer (r.dropTransfer msg).incoming = some inc) :
    JsMap.get transfer r.incoming = some inc := by
  unfold Receiver.dropTransfer at h
  split at h
  · split at h
    · exact h
    · rw [JsMap.get_delete] at h
      split at h
      · cases h
      · exact h
  · exact h

theorem note_sub {transfer : String} {inc : Incoming} (r : Receiver) (msg : ServerMsg Data)
    (hstart : msg.type ≠ .fileStart) (hchunk : msg.type ≠ .fileChunk)
    (h : JsMap.get transfer (r.onMessage msg).incoming = some inc) :
    JsMap.get transfer r.incoming = some inc := by
  unfold Receiver.onMessage at h
  split at h
  · unfold Receiver.onChat at h
    split at h
    · split at h <;> exact h
    · exact h
  · unfold Receiver.onRoster at h
    split at h
    · split at h <;> exact h
    · exact h
  · rename_i ht
    exact absurd ht hstart
  · rename_i ht
    exact absurd ht hchunk
  · exact drop_sub r msg h
  · exact drop_sub r msg h
  · split at h
    · exact drop_sub r msg h
    · exact h
  · exact h

/-- One event, if the file frames that are accepted are pieces of files that `P` knows. -/
theorem Shows.step (h : Shows P v) (hstep : v.step a = some v')
    (hP : ∀ transfer f f', P transfer f → P transfer f' → f = f')
    (hstart : ∀ sock msg transfer fileMeta d, a = .message sock msg → msg.type = .fileStart →
      v.receiver.startOf msg = some (transfer, fileMeta) → msg.data = some d →
        ∃ f k, P transfer f ∧ d = .enc k f.meta)
    (hchunk : ∀ sock msg inc i chunk d, a = .message sock msg → msg.type = .fileChunk →
      v.receiver.chunkOf msg = some (inc, i, chunk) → msg.data = some d →
        ∃ f k, P (msg.transfer.getD "") f ∧ d = .enc k (f.slice i)) : Shows P v' := by
  obtain ⟨receiver, hr, rfl⟩ := Option.map_eq_some_iff.mp hstep
  obtain ⟨client, hc, rfl⟩ := Option.map_eq_some_iff.mp hr
  have hkeep {x : JsMap String Incoming} (hx : ∀ transfer inc, JsMap.get transfer x = some inc →
      JsMap.get transfer v.receiver.incoming = some inc) {transfer : String} {inc : Incoming}
      (hinc : JsMap.get transfer (if client.session.map (·.sock) =
        v.receiver.client.session.map (·.sock) then x else []) = some inc) :
      JsMap.get transfer v.receiver.incoming = some inc := by
    split at hinc
    · exact hx transfer inc hinc
    · cases hinc
  cases a with
  | message sock msg =>
    have hclient (ht : msg.type = .fileStart ∨ msg.type = .fileChunk) : client = v.receiver.client := by
      simp only [Client.step] at hc
      split at hc <;> simp only [reduceCtorEq, Option.some.injEq] at hc
      subst hc
      obtain ht | ht := ht <;> simp [Client.onMessage, ht]
    by_cases hs : msg.type = .fileStart
    · obtain rfl := hclient (.inl hs)
      simp only [hs]
      refine h.start ?_ fun transfer fileMeta d => hstart sock msg transfer fileMeta d rfl hs
      simp [Receiver.onMessage, hs]
    · by_cases hk : msg.type = .fileChunk
      · obtain rfl := hclient (.inr hk)
        simp only [hk]
        refine h.chunk ?_ hP fun inc i chunk d => hchunk sock msg inc i chunk d rfl hk
        simp [Receiver.onMessage, hk]
      · refine h.sub ?_ ?_ fun transfer inc => hkeep fun transfer inc => note_sub _ _ hs hk
        all_goals
          dsimp only
          split <;> simp_all
  | _ => exact h.sub rfl rfl fun transfer inc => hkeep fun _ _ hi => hi

end E2EAnon.Web
