import E2EAnon.Net.Kinds
import E2EAnon.Web.Download

/-!
# Files against the relay

The relay brings what it can build without a client's secret (`Carried`), as often and in any order.
Transfer ids do not repeat. `Placed`: a chunk or metadata that some client has sealed is accepted only
under the transfer id and the index it was sent with, and so is anything that opens under zeros. Then
every file that is shown is one that somebody has sent (`files_intact`). The source does not check
this, since a chunk is sealed without its index and its transfer: two chunks that change places make a
file that nobody has sent (`chunks_swapped`).
-/

namespace E2EAnon.Net

open Web
open Lib (JsMap Machine)

abbrev Viewers := Nat → Viewer

def viewers : Machine Viewers (Nat × Web.Act) where
  init i := { receiver := { client := { who := i + 1 } } }
  step v l := ((v l.1).step l.2).map (Function.update v l.1)

def Viewers.tabs (v : Viewers) : Tabs := fun i => (v i).receiver.client

abbrev ViewerStep := Machine.Transition Viewers (Nat × Web.Act)

/-- The transfer id that a submission draws. -/
def transferId : Web.Act → Option String
  | .submit _ (some (transfer, _)) => some transfer
  | _ => none

/-- In the run a tab has begun to send the file under the id. -/
def Uploaded (l : List ViewerStep) (transfer : String) (f : File) : Prop :=
  ∃ u ∈ l, ∃ body, u.label.2 = .submit body (some (transfer, f)) ∧
    (u.after.tabs u.label.1).launched = (u.before.tabs u.label.1).launched + 1

/-- No transfer id is drawn twice. -/
def FreshIds (l : List ViewerStep) : Prop := (l.filterMap fun u => transferId u.label.2).Nodup

namespace Tabs

/-- The frame with this payload has been sent as metadata of the transfer. -/
def sentStart (t : Tabs) (transfer : String) (d : Data) : Prop :=
  ∃ i kid, ∃ m ∈ (t i).outbox, m.2 = .fileStart transfer kid d

/-- The frame with this payload has been sent as this chunk of the transfer. -/
def sentChunk (t : Tabs) (transfer : String) (index : Int) (d : Data) : Prop :=
  ∃ i, ∃ m ∈ (t i).outbox, m.2 = .fileChunk transfer index d

end Tabs

/-- What a client has sealed, or what opens under zeros, is accepted in its place only. -/
def Placed (v : Viewers) (l : Nat × Web.Act) : Prop :=
  match l.2 with
  | .message _ msg => ∀ d ∈ msg.data,
      (msg.type = .fileStart → ∀ x, (v l.1).receiver.startOf msg = some x →
        (∃ kind, v.tabs.sealedAs kind d) → v.tabs.sentStart x.1 d) ∧
      (msg.type = .fileChunk → ∀ x, (v l.1).receiver.chunkOf msg = some x →
        (∃ kind, v.tabs.sealedAs kind d) ∨ (v.tabs l.1).read x.1.key = zeros →
          v.tabs.sentChunk (msg.transfer.getD "") x.2.1 d)
  | _ => True

/-- Every file shown, its metadata and its bytes, is one that a member has sent. -/
def Intact (l : List ViewerStep) (v : Viewers) : Prop :=
  ∀ i, ∀ x ∈ (v i).files, ∃ transfer f, Uploaded l transfer f ∧
    x = (some f.meta, f.pieces.map some)

variable {v v' : Viewers} {l : List ViewerStep} {i : Nat} {a : Web.Act} {transfer : String} {f f' : File}
  {ok : Tabs → Nat × Web.Act → Prop}

/-! ## The tabs of a run -/

theorem step_viewers (h : viewers.step v (i, a) = some v') :
    ∃ x, (v i).step a = some x ∧ v' = Function.update v i x := by
  obtain ⟨x, hx, rfl⟩ := Option.map_eq_some_iff.mp h
  exact ⟨x, hx, rfl⟩

theorem step_client {x x' : Viewer} (h : x.step a = some x') :
    x.receiver.client.step a = some x'.receiver.client := by
  obtain ⟨r, hr, rfl⟩ := Option.map_eq_some_iff.mp h
  obtain ⟨c, hc, rfl⟩ := Option.map_eq_some_iff.mp hr
  exact hc

theorem step_tabs_of_viewers (h : viewers.step v (i, a) = some v') :
    Net.tabs.step v.tabs (i, a) = some v'.tabs := by
  obtain ⟨x, hx, rfl⟩ := step_viewers h
  refine Option.map_eq_some_iff.mpr ⟨x.receiver.client, step_client hx, ?_⟩
  funext j
  by_cases hj : j = i
  · subst hj
    simp [Viewers.tabs]
  · simp [Viewers.tabs, hj]

theorem tabs_of_trace (hl : viewers.Trace l v) (hok : ∀ u ∈ l, ok u.before.tabs u.label) :
    Net.tabs.Reach ok v.tabs := by
  induction hl with
  | nil => exact .init
  | @snoc l v v' b hl hs ih =>
    exact (ih fun u hu => hok u (List.mem_append_left _ hu)).step (hok ⟨v, b, v'⟩ (by simp))
      (step_tabs_of_viewers hs)

/-! ## One file for each id -/

theorem uploaded_unique (hfresh : FreshIds l) (h : Uploaded l transfer f)
    (h' : Uploaded l transfer f') : f = f' := by
  obtain ⟨u, hu, body, he, -⟩ := h
  obtain ⟨u', hu', body', he', -⟩ := h'
  by_cases hne : u = u'
  · subst hne
    cases he.symm.trans he'
    rfl
  · have hsymm : Std.Symm fun u u' : ViewerStep => ∀ b, transferId u.label.2 = some b →
        ∀ b', transferId u'.label.2 = some b' → b ≠ b' :=
      ⟨fun u u' h b hb b' hb' => (h b' hb' b hb).symm⟩
    have hpair := List.pairwise_filterMap.mp hfresh
    exact absurd rfl (hpair.forall hu hu' hne transfer (by rw [he]; rfl) transfer (by rw [he']; rfl))

theorem uploaded_mono (l' : List ViewerStep) (h : Uploaded l transfer f) :
    Uploaded (l ++ l') transfer f :=
  let ⟨u, hu, hrest⟩ := h
  ⟨u, List.mem_append_left _ hu, hrest⟩

/-! ## What is accepted has been sent -/

/-- Metadata that a tab accepts has been sealed by a client. -/
theorem start_sealed {t : Tabs} {r : Receiver} {msg : ServerMsg Data} {x : String × Data}
    (ht : tabs.Reach Carried t) (hr : r.client = t i) {sock : Nat}
    (hc : Carried t (i, .message sock msg)) {d : Data} (hd : msg.data = some d)
    (hx : r.startOf msg = some x) : ∃ kind, t.sealedAs kind d := by
  obtain ⟨hnone, -⟩ | ⟨transfer, key, fileMeta, v, -, ⟨id, hkey⟩, -, hdata, -⟩ := onFileStart_spec r msg
  · rw [hnone] at hx
    cases hx
  · obtain ⟨s, hs, hfind⟩ := Option.bind_eq_some_iff.mp hkey
    have hmem : key ∈ s.buffers := by simp [Session.buffers, List.mem_of_find?_eq_some hfind]
    rw [hr] at hs hdata
    obtain rfl := Option.some.inj (hd.symm.trans hdata)
    have hkept := kept_of_carried ht
    exact sealedAs_of_arrives hkept ((hkept i).buffer (keysOk_tab ht i) hs hmem)
      (hc _ (by simp [Relay.payloads, hd]))

/-- So has a chunk, unless it opens under zeros. -/
theorem chunk_sealed {t : Tabs} {r : Receiver} {msg : ServerMsg Data} {x : Incoming × Nat × Data}
    (ht : tabs.Reach Carried t) (hr : r.client = t i) {sock : Nat}
    (hc : Carried t (i, .message sock msg)) {d : Data} (hd : msg.data = some d)
    (hx : r.chunkOf msg = some x) : (∃ kind, t.sealedAs kind d) ∨ (t i).read x.1.key = zeros := by
  obtain ⟨hnone, -⟩ | ⟨inc, j, chunk, hsome, -, -, hdata, -⟩ := onFileChunk_spec r msg
  · rw [hnone] at hx
    cases hx
  · cases hsome.symm.trans hx
    rw [hr] at hdata
    obtain rfl := Option.some.inj (hd.symm.trans hdata)
    have hkept := kept_of_carried ht
    obtain hzero | hmat := (hkept i).content inc.key
    · exact .inr hzero
    · exact .inl (sealedAs_of_arrives hkept hmat (hc _ (by simp [Relay.payloads, hd])))

/-! ## Every file that is shown -/

/-- Every tab sends and shows what has been submitted. -/
theorem shows_of_trace (hl : viewers.Trace l v) (hfresh : FreshIds l)
    (hok : ∀ u ∈ l, Carried u.before.tabs u.label ∧ Placed u.before u.label) (i : Nat) :
    Sends (Uploaded l) (v i).receiver.client ∧ Shows (Uploaded l) (v i) := by
  induction hl generalizing i with
  | nil =>
    refine ⟨⟨Hellos.init (i + 1), ?_, ?_⟩, ?_, ?_⟩
    all_goals simp [viewers]
  | @snoc l v v' b hl hstep ih =>
    obtain ⟨j, a⟩ := b
    have hfront : FreshIds l := hfresh.sublist ((List.sublist_append_left l _).filterMap _)
    have ih' := ih hfront fun u hu => hok u (List.mem_append_left _ hu)
    have hmono (transfer : String) (f : File) (h : Uploaded l transfer f) :=
      uploaded_mono [⟨v, (j, a), v'⟩] h
    obtain ⟨hcarried, hplaced⟩ := hok ⟨v, (j, a), v'⟩ (by simp)
    have ht : tabs.Reach Carried v.tabs :=
      tabs_of_trace hl fun u hu => (hok u (List.mem_append_left _ hu)).1
    obtain ⟨x, hx, rfl⟩ := step_viewers hstep
    by_cases hi : i = j
    · subst hi
      rw [Function.update_self]
      refine ⟨(ih' i).1.mono hmono |>.step (step_client hx) fun body transfer f ha hlaunch => ?_,
        ((ih' i).2.mono hmono).step hx (fun _ _ _ => uploaded_unique hfresh) ?_ ?_⟩
      · refine ⟨⟨v, (i, a), Function.update v i x⟩, by simp, body, ha, ?_⟩
        simpa [Viewers.tabs] using hlaunch
      · rintro sock msg transfer fileMeta d rfl htype hacc hd
        obtain ⟨n, kid, m, hm, he⟩ := (hplaced d hd).1 htype _ hacc
          (start_sealed ht rfl hcarried hd hacc)
        have hg := ((ih' n).1.mono hmono).outbox m hm
        rw [he] at hg
        exact hg
      · rintro sock msg inc k chunk d rfl htype hacc hd
        obtain ⟨n, m, hm, he⟩ := (hplaced d hd).2 htype _ hacc
          (chunk_sealed ht rfl hcarried hd hacc)
        have hg := ((ih' n).1.mono hmono).outbox m hm
        rw [he] at hg
        obtain ⟨f, key, k', hf, hk, he'⟩ := hg
        obtain rfl := Int.ofNat_inj.mp hk
        exact ⟨f, key, hf, he'⟩
    · rw [Function.update_of_ne hi]
      exact ⟨(ih' i).1.mono hmono, (ih' i).2.mono hmono⟩

/-- Against a relay that builds what it can, drops, repeats and mixes frames, but has no piece of a
file accepted out of its place. -/
theorem files_intact (hl : viewers.Trace l v) (hfresh : FreshIds l)
    (hok : ∀ u ∈ l, Carried u.before.tabs u.label ∧ Placed u.before u.label) : Intact l v :=
  fun i x hx => (shows_of_trace hl hfresh hok i).2.files x hx

/-! ## Two chunks that change places -/

/-- One of the first two tabs has sent what is accepted, as it is accepted. -/
def inPlace (v : Viewers) (l : Nat × Web.Act) : Bool :=
  match l.2 with
  | .message _ msg => msg.data.all fun d =>
    (msg.type ≠ .fileStart || ((v l.1).receiver.startOf msg).all fun x => [0, 1].any fun j =>
      (v.tabs j).outbox.any fun m => match m.2 with
        | .fileStart transfer _ d' => transfer = x.1 ∧ d' = d
        | _ => false) &&
    (msg.type ≠ .fileChunk || ((v l.1).receiver.chunkOf msg).all fun x => [0, 1].any fun j =>
      (v.tabs j).outbox.any fun m => m.2 = .fileChunk (msg.transfer.getD "") x.2.1 d)
  | _ => true

theorem placed_of_inPlace {b : Nat × Web.Act} (h : inPlace v b = true) : Placed v b := by
  obtain ⟨i, a⟩ := b
  cases a with
  | message sock msg =>
    intro d hd
    simp only [inPlace, Option.mem_def.mp hd, Option.all_some, Bool.and_eq_true, Bool.or_eq_true,
      decide_eq_true_eq] at h
    obtain ⟨hs, hk⟩ := h
    refine ⟨fun ht x hx _ => ?_, fun ht x hx _ => ?_⟩
    · simp only [hx, Option.all_some, List.any_eq_true] at hs
      obtain ⟨j, -, m, hm, he⟩ := hs.resolve_left (not_not_intro ht)
      split at he
      · rename_i transfer kid d' heq
        obtain ⟨rfl, rfl⟩ := of_decide_eq_true he
        exact ⟨j, kid, m, hm, heq⟩
      · cases he
    · simp only [hx, Option.all_some, List.any_eq_true] at hk
      obtain ⟨j, -, m, hm, he⟩ := hk.resolve_left (not_not_intro ht)
      exact ⟨j, m, hm, of_decide_eq_true he⟩
  | _ => trivial

/-- Tab 0 sends a file of two slices; the relay brings tab 1 the chunks `i` and `j` as 0 and 1. -/
def sampleFile (i j : Nat) : List (Nat × Web.Act) :=
  let key : Data := .name (Name.mk 1 4)
  let chunk (index n : Nat) : Nat × Web.Act :=
    (1, .message 0 { type := .fileChunk, transfer := some "f", index := some index
                     data := some (sealBytes key (twoSlices.slice n)) })
  sampleJoin ++
    [(0, .submit none (some ("f", twoSlices))), (0, .resume 0), (0, .resume 0), (0, .resume 0),
      (1, .message 0 { type := .fileStart, transfer := some "f", keyId := some (keyId key)
                       data := some (encryptMessage key twoSlices.meta) }), chunk 0 i, chunk 1 j]

theorem sampleFile_some : (viewers.stepsFrom viewers.init (sampleFile 0 1)).isSome = true := by
  decide +kernel

theorem freshIds_sampleFile :
    FreshIds ((viewers.stepsFrom viewers.init (sampleFile 0 1)).get sampleFile_some).1 := by
  unfold FreshIds
  decide +kernel

theorem files_intact_sample :
    let r := (viewers.stepsFrom viewers.init (sampleFile 0 1)).get sampleFile_some
    Intact r.1 r.2 ∧ (some twoSlices.meta, twoSlices.pieces.map some) ∈ (r.2 1).files := by
  have hok : (((viewers.stepsFrom viewers.init (sampleFile 0 1)).get sampleFile_some).1.all fun u =>
      decide (Forwards u.before.tabs u.label) && inPlace u.before u.label) = true := by
    decide +kernel
  refine ⟨files_intact (Machine.trace_get sampleFile_some) freshIds_sampleFile fun u hu => ?_, ?_⟩
  · have h := List.all_eq_true.mp hok u hu
    rw [Bool.and_eq_true, decide_eq_true_eq] at h
    exact ⟨carried_of_forwards h.1, placed_of_inPlace h.2⟩
  · decide +kernel

/-- The file of a submission. -/
def submitted : Web.Act → Option File
  | .submit _ (some (_, f)) => some f
  | _ => none

theorem sampleSwap_some : (viewers.stepsFrom viewers.init (sampleFile 1 0)).isSome = true := by
  decide +kernel

theorem freshIds_sampleSwap :
    FreshIds ((viewers.stepsFrom viewers.init (sampleFile 1 0)).get sampleSwap_some).1 := by
  unfold FreshIds
  decide +kernel

/-- What tab 1 shows under the metadata of the file is its two halves the wrong way round. -/
theorem chunks_swapped : ∃ l v, viewers.Trace l v ∧ FreshIds l ∧
    (∀ u ∈ l, Carried u.before.tabs u.label) ∧ ¬ Intact l v := by
  have hok : (((viewers.stepsFrom viewers.init (sampleFile 1 0)).get sampleSwap_some).1.all fun u =>
      decide (Forwards u.before.tabs u.label)) = true := by decide +kernel
  have hfiles : (some twoSlices.meta, [some (twoSlices.slice 1), some (twoSlices.slice 0)]) ∈
      (((viewers.stepsFrom viewers.init (sampleFile 1 0)).get sampleSwap_some).2 1).files := by
    decide +kernel
  have honly : (((viewers.stepsFrom viewers.init (sampleFile 1 0)).get sampleSwap_some).1.all fun u =>
      (submitted u.label.2).all fun f => decide (f = twoSlices)) = true := by decide +kernel
  have hfresh := freshIds_sampleSwap
  have hl := Machine.trace_get sampleSwap_some
  generalize ((viewers.stepsFrom viewers.init (sampleFile 1 0)).get sampleSwap_some).2 = v at hl hfiles
  generalize ((viewers.stepsFrom viewers.init (sampleFile 1 0)).get sampleSwap_some).1 = l
    at hl hfresh hok honly
  refine ⟨l, v, hl, hfresh, fun u hu => ?_, fun h => ?_⟩
  · exact carried_of_forwards (of_decide_eq_true (List.all_eq_true.mp hok u hu))
  · obtain ⟨transfer, f, ⟨u, hu, body, hlabel, -⟩, he⟩ := h 1 _ hfiles
    have hf := List.all_eq_true.mp honly u hu
    rw [hlabel] at hf
    obtain rfl := of_decide_eq_true hf
    exact absurd (Prod.mk.inj he).2 (by decide)

end E2EAnon.Net
