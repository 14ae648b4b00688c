import E2EAnon.Web.Effect

/-!
# The key buffers of a tab

`KeysOk`: the buffers a live session holds are distinct and none has been wiped; a running upload
holds a buffer of its own session's list, as far down as that session has pushed keys since, until
`pushKey` drops it from the list or `teardown` ends the session. It is kept by every effect, so by
every event (`KeysOk.step`).

The upload's own reads are outside that protection: `sendFile` keeps the reference across its waits
(`main.ts:698`), and `pushKey` and `teardown` zero the buffer in place.
-/

namespace E2EAnon.Web

variable {a : Act} {c₀ c c' : Client} {s : Session} {q : Prop}

/-- The seal read a key that had not been wiped, for a file the one its upload began with. -/
def Sealing.Good (e : Sealing) : Prop := e.wiped = false ∧ ∀ b, e.captured = some b → e.bytes = b

instance (e : Sealing) : Decidable e.Good :=
  inferInstanceAs (Decidable (_ ∧ ∀ b, e.captured = some b → e.bytes = b))

/-- Since the upload began, its session has not been torn down and has pushed fewer keys than it
keeps. -/
def Upload.Intact (up : Upload) (c : Client) : Prop :=
  up.sock ∉ c.torn ∧ c.pushes up.sock < up.pushed + maxKeptKeys

/-- The upload's next step seals something. -/
def Upload.Seals (up : Upload) (c : Client) : Prop :=
  match up.sent with
  | none => True
  | some i => c.session.isSome ∧ i < up.file.total

/-- What it seals then. -/
def Upload.pieces (up : Upload) : List Data :=
  match up.sent with
  | none => [up.file.meta, up.file.slice 0]
  | some i => [up.file.slice i]

instance (up : Upload) (c : Client) : Decidable (up.Seals c) := by
  unfold Upload.Seals
  split <;> infer_instance

instance (up : Upload) (c : Client) : Decidable (up.Intact c) := inferInstanceAs (Decidable (_ ∧ _))

structure KeysOk (q : Prop) (c : Client) : Prop where
  below : ∀ s, c.session = some s → ∀ a ∈ s.buffers, a < c.brk
  live : ∀ s, c.session = some s → ∀ a ∈ s.buffers, (c.heap a).wiped = false
  nodup : ∀ s, c.session = some s → s.buffers.Nodup
  sock : ∀ s, c.session = some s → s.sock < c.sockets ∧ s.sock ∉ c.torn
  torn : ∀ k ∈ c.torn, k < c.sockets
  up_below : ∀ u up, Lib.JsMap.get u c.uploads = some up → up.key < c.brk ∧ up.sock < c.sockets
  up_held : ∀ u up s, Lib.JsMap.get u c.uploads = some up → c.session = some s → up.sock = s.sock →
    up.pushed ≤ c.pushes s.sock ∧
      (up.Intact c → s.keys[c.pushes s.sock - up.pushed]? = some up.key)
  up_other : ∀ u up s, Lib.JsMap.get u c.uploads = some up → c.session = some s → up.sock ≠ s.sock →
    up.key ∉ s.buffers
  up_intact : ∀ u up, Lib.JsMap.get u c.uploads = some up → up.Intact c →
    c.heap up.key = { bytes := up.captured }
  up_wiped : ∀ u up, Lib.JsMap.get u c.uploads = some up → ¬ up.Intact c →
    (c.heap up.key).wiped = true
  /-- Under `q`, every seal so far was a good one. -/
  seals : q → ∀ e ∈ c.seals, e.Good

/-! ## Changes that touch no buffer -/

/-- The heap, the uploads and the history are the same; the session may hold fewer buffers. -/
structure Narrow (c c' : Client) : Prop where
  heap : c'.heap = c.heap
  brk : c'.brk = c.brk
  sockets : c'.sockets = c.sockets
  torn : c'.torn = c.torn
  pushes : c'.pushes = c.pushes
  uploads : c'.uploads = c.uploads
  seals : c'.seals = c.seals
  session : ∀ s', c'.session = some s' → ∃ s, c.session = some s ∧ s'.sock = s.sock ∧
    s'.keys = s.keys ∧ List.Subperm s'.buffers s.buffers

namespace Narrow

theorem of_session (h : c' = { c with
    who := c'.who, draws := c'.draws, pendingJoin := c'.pendingJoin, outbox := c'.outbox
    intentionalClose := c'.intentionalClose, connects := c'.connects, socket := c'.socket
    launched := c'.launched }) : Narrow c c' := by
  rw [h]
  exact ⟨rfl, rfl, rfl, rfl, rfl, rfl, rfl, fun s hs => ⟨s, hs, rfl, rfl, .refl _⟩⟩

theorem trans {c'' : Client} (h : Narrow c c') (h' : Narrow c' c'') : Narrow c c'' where
  heap := h'.heap.trans h.heap
  brk := h'.brk.trans h.brk
  sockets := h'.sockets.trans h.sockets
  torn := h'.torn.trans h.torn
  pushes := h'.pushes.trans h.pushes
  uploads := h'.uploads.trans h.uploads
  seals := h'.seals.trans h.seals
  session s'' hs'' := by
    obtain ⟨s', hs', h1, h2, h3⟩ := h'.session s'' hs''
    obtain ⟨s, hs, h4, h5, h6⟩ := h.session s' hs'
    exact ⟨s, hs, h1.trans h4, h2.trans h5, h3.trans h6⟩

theorem modify (f : Session → Session) (hf : ∀ s, c.session = some s → (f s).sock = s.sock ∧
    (f s).keys = s.keys ∧ List.Subperm (f s).buffers s.buffers) : Narrow c (c.modify f) where
  heap := rfl
  brk := rfl
  sockets := rfl
  torn := rfl
  pushes := rfl
  uploads := rfl
  seals := rfl
  session s' hs' := by
    obtain ⟨s, hs, rfl⟩ := Option.map_eq_some_iff.mp hs'
    exact ⟨s, hs, hf s hs⟩

theorem send (m : ClientMsg Data) : Narrow c (c.send m) := by
  apply of_session
  unfold Client.send
  split
  · split <;> rfl
  · rfl

theorem draw : Narrow c c.draw.1 := of_session rfl

theorem core (h : c'.core = c.core) : Narrow c c' := by
  simp only [Client.core, Client.mk.injEq] at h
  obtain ⟨-, -, h1, h2, h3, -, -, -, -, h4, h5, -, -, h6, h7, h8⟩ := h
  refine ⟨h1, h2, h4, h7, h6, h5, h8, fun s' hs' => ?_⟩
  rw [hs', Option.map_some] at h3
  obtain ⟨s, hs, hss⟩ := Option.map_eq_some_iff.mp h3.symm
  simp only [Session.core, Session.mk.injEq] at hss
  refine ⟨s, hs, hss.1.symm, hss.2.2.2.2.2.1.symm, ?_⟩
  simp only [Session.buffers, hss]
  exact .refl _

end Narrow

namespace KeysOk

theorem narrow (h : KeysOk q c) (hn : Narrow c c') : KeysOk q c' := by
  have hi (up : Upload) : up.Intact c' ↔ up.Intact c := by
    simp [Upload.Intact, hn.torn, hn.pushes]
  refine ⟨?_, ?_, ?_, ?_, ?_, ?_, ?_, ?_, ?_, ?_, ?_⟩
  · intro s' hs' a ha
    obtain ⟨s, hs, -, -, hsub⟩ := hn.session s' hs'
    exact hn.brk ▸ h.below s hs a (hsub.subset ha)
  · intro s' hs' a ha
    obtain ⟨s, hs, -, -, hsub⟩ := hn.session s' hs'
    exact hn.heap ▸ h.live s hs a (hsub.subset ha)
  · intro s' hs'
    obtain ⟨s, hs, -, -, hsub⟩ := hn.session s' hs'
    obtain ⟨l, hp, hl⟩ := hsub
    exact hp.nodup_iff.mp ((h.nodup s hs).sublist hl)
  · intro s' hs'
    obtain ⟨s, hs, hk, -, -⟩ := hn.session s' hs'
    rw [hk, hn.sockets, hn.torn]
    exact h.sock s hs
  · rw [hn.torn, hn.sockets]
    exact h.torn
  · rw [hn.uploads, hn.brk, hn.sockets]
    exact h.up_below
  · intro u up s' hu hs' hk
    obtain ⟨s, hs, hsock, hkeys, -⟩ := hn.session s' hs'
    rw [hn.uploads] at hu
    rw [hi, hsock, hkeys, hn.pushes]
    exact h.up_held u up s hu hs (hk.trans hsock)
  · intro u up s' hu hs' hk ha
    obtain ⟨s, hs, hsock, -, hsub⟩ := hn.session s' hs'
    rw [hn.uploads] at hu
    exact h.up_other u up s hu hs (fun hc => hk (hc.trans hsock.symm)) (hsub.subset ha)
  · intro u up hu
    rw [hn.uploads] at hu
    rw [hi, hn.heap]
    exact h.up_intact u up hu
  · intro u up hu
    rw [hn.uploads] at hu
    rw [hi, hn.heap]
    exact h.up_wiped u up hu
  · rw [hn.seals]
    exact h.seals

/-! ## Changes to the buffers -/

/-- The record of a handshake gets a buffer that nobody refers to. -/
theorem confirmed (h : KeysOk q c) (hs : c.session = some s) (hsId : Handle) (r : HsRecord)
    (b : Data) :
    KeysOk q ((c.alloc b).1.modify (·.setHandshake hsId { r with ke := some (c.alloc b).2 })) := by
  have hbuf : List.Subperm (s.setHandshake hsId { r with ke := some c.brk }).buffers
      (c.brk :: s.buffers) := by
    have h1 := Lib.JsMap.filterMap_set_subperm (f := fun e : Handle × HsRecord => e.2.ke)
      (k := hsId) (v := { r with ke := some c.brk }) (m := s.handshakes)
    simp only [Option.toList_some, List.singleton_append] at h1
    exact ((List.subperm_append_left (s.kp.priv :: s.keys)).mpr h1).trans
      List.perm_middle.subperm
  have hfresh : c.brk ∉ s.buffers := fun hb => Nat.lt_irrefl _ (h.below s hs _ hb)
  have hheap {x : Addr} (hx : x < c.brk) :
      Function.update c.heap c.brk { bytes := b } x = c.heap x := by
    simp [Nat.ne_of_lt hx]
  have hsub {x : Addr} (hx : x ∈ (s.setHandshake hsId { r with ke := some c.brk }).buffers) :
      x = c.brk ∨ x ∈ s.buffers := List.mem_cons.mp (hbuf.subset hx)
  have hs' : ∀ s', ((c.alloc b).1.modify
      (·.setHandshake hsId { r with ke := some (c.alloc b).2 })).session = some s' →
      s.setHandshake hsId { r with ke := some c.brk } = s' := by
    simp [Client.alloc, hs]
  constructor
  case below =>
    intro s' h' x hx
    obtain rfl := hs' s' h'
    rcases hsub hx with rfl | hx
    · exact Nat.lt_succ_self _
    · exact Nat.lt_succ_of_lt (h.below s hs x hx)
  case live =>
    intro s' h' x hx
    obtain rfl := hs' s' h'
    rcases hsub hx with rfl | hx
    · simp [Client.alloc, Client.modify]
    · exact (congrArg Buffer.wiped (hheap (h.below s hs x hx))).trans (h.live s hs x hx)
  case nodup =>
    intro s' h'
    obtain rfl := hs' s' h'
    obtain ⟨l, hp, hl⟩ := hbuf
    exact hp.nodup_iff.mp ((List.nodup_cons.mpr ⟨hfresh, h.nodup s hs⟩).sublist hl)
  case sock =>
    intro s' h'
    obtain rfl := hs' s' h'
    exact h.sock s hs
  case torn => exact h.torn
  case up_below =>
    intro u up hu
    exact (h.up_below u up hu).imp_left Nat.lt_succ_of_lt
  case up_held =>
    intro u up s' hu h' hk
    obtain rfl := hs' s' h'
    exact h.up_held u up s hu hs hk
  case up_other =>
    intro u up s' hu h' hk hx
    obtain rfl := hs' s' h'
    rcases hsub hx with hx | hx
    · exact Nat.ne_of_lt (h.up_below u up hu).1 hx
    · exact h.up_other u up s hu hs hk hx
  case up_intact =>
    intro u up hu hin
    exact (hheap (h.up_below u up hu).1).trans (h.up_intact u up hu hin)
  case up_wiped =>
    intro u up hu hin
    exact (congrArg Buffer.wiped (hheap (h.up_below u up hu).1)).trans (h.up_wiped u up hu hin)
  case seals => exact h.seals

/-- `pushKey` of a buffer that nobody refers to: the key that falls out of the list is wiped, and so
are the uploads that began five keys ago. -/
theorem pushNew (h : KeysOk q c) (hs : c.session = some s) (b : Data) :
    KeysOk q ((c.alloc b).1.pushKey (c.alloc b).2) := by
  have hfresh : c.brk ∉ s.buffers := fun hb => Nat.lt_irrefl _ (h.below s hs _ hb)
  have hmem {x : Addr} (hx : x ∈ s.keys) : x ∈ s.buffers := by simp [Session.buffers, hx]
  have hfall : c.brk ∉ (c.brk :: s.keys).drop maxKeptKeys := fun hb =>
    hfresh (hmem (List.mem_of_mem_drop (i := 4) hb))
  generalize hc' : (c.alloc b).1.pushKey (c.alloc b).2 = c'
  generalize hs0 : { s with keys := (c.brk :: s.keys).take maxKeptKeys } = s0
  have hsession : c'.session = some s0 := by
    rw [← hc', ← hs0]
    exact Client.pushKey_session (c := (c.alloc b).1) hs _
  have hheap (x : Addr) : c'.heap x = if x ∈ (c.brk :: s.keys).drop maxKeptKeys then
      { bytes := zeros, wiped := true } else if x = c.brk then { bytes := b } else c.heap x := by
    simp [← hc', Client.pushKey, Client.alloc, Client.wipe, hs, Function.update_apply]
  have hpushes : c'.pushes = Function.update c.pushes s.sock (c.pushes s.sock + 1) := by
    simp [← hc', Client.pushKey, Client.alloc, Client.wipe, hs]
  have hrest : c'.brk = c.brk + 1 ∧ c'.sockets = c.sockets ∧ c'.torn = c.torn ∧
      c'.uploads = c.uploads ∧ c'.seals = c.seals := by
    simp [← hc', Client.pushKey, Client.alloc, Client.wipe, hs]
  obtain ⟨hbrk, hsockets, htorn, huploads, hseals⟩ := hrest
  have hs' (s' : Session) (h' : c'.session = some s') : s0 = s' :=
    Option.some.inj (hsession.symm.trans h')
  have hbuf : List.Subperm s0.buffers (c.brk :: s.buffers) := by
    rw [← hs0]
    refine List.Subperm.trans ?_ (@List.perm_middle _ _ [s.kp.priv] _).subperm
    exact List.Sublist.subperm (((List.take_sublist _ _).append_right _).cons_cons _)
  have hsub {x : Addr} (hx : x ∈ s0.buffers) : x = c.brk ∨ x ∈ s.buffers :=
    List.mem_cons.mp (hbuf.subset hx)
  -- what is kept is not among what is wiped
  have hkept {x : Addr} (hx : x ∈ s0.buffers) : x ∉ (c.brk :: s.keys).drop maxKeptKeys := by
    have hnodup : ([s.kp.priv] ++ (c.brk :: s.keys) ++ s.handshakes.filterMap (·.2.ke)).Nodup :=
      (@List.perm_middle _ _ [s.kp.priv] _).nodup_iff.mpr
        (List.nodup_cons.mpr ⟨hfresh, h.nodup s hs⟩)
    rw [← List.take_append_drop maxKeptKeys (c.brk :: s.keys)] at hnodup
    rw [← hs0] at hx
    simp only [Session.buffers, List.nodup_append, List.mem_append, List.mem_cons] at hnodup hx
    grind
  have hheapKept {x : Addr} (hx : x ∈ s0.buffers) (hb : x ≠ c.brk) : c'.heap x = c.heap x := by
    simp [hheap, hkept hx, hb]
  -- an upload of this session moves one place down its list
  have hsame (u : Nat) (up : Upload) (hu : Lib.JsMap.get u c.uploads = some up)
      (hk : up.sock = s.sock) (hin : up.Intact c') :
      up.Intact c ∧ s0.keys[c'.pushes s.sock - up.pushed]? = some up.key := by
    obtain ⟨ht, hp⟩ := hin
    rw [hpushes, hk, Function.update_self] at hp
    rw [htorn] at ht
    have hin' : up.Intact c := ⟨ht, by rw [hk]; omega⟩
    obtain ⟨hle, hget⟩ := h.up_held u up s hu hs hk
    have hidx : c'.pushes s.sock - up.pushed = c.pushes s.sock - up.pushed + 1 := by
      rw [hpushes, Function.update_self]
      omega
    refine ⟨hin', ?_⟩
    rw [hidx, ← hs0, List.getElem?_take_of_lt (by omega), List.getElem?_cons_succ]
    exact hget hin'
  have hother (up : Upload) (hk : up.sock ≠ s.sock) : up.Intact c' ↔ up.Intact c := by
    rw [Upload.Intact, Upload.Intact, htorn, hpushes, Function.update_of_ne hk]
  constructor
  case below =>
    intro s' h' x hx
    obtain rfl := hs' s' h'
    rw [hbrk]
    rcases hsub hx with rfl | hx
    · exact Nat.lt_succ_self _
    · exact Nat.lt_succ_of_lt (h.below s hs x hx)
  case live =>
    intro s' h' x hx
    obtain rfl := hs' s' h'
    rcases hsub hx with rfl | hx'
    · simp [hheap, hkept hx]
    · have hb : x ≠ c.brk := fun hb => hfresh (hb ▸ hx')
      rw [hheapKept hx hb]
      exact h.live s hs x hx'
  case nodup =>
    intro s' h'
    obtain rfl := hs' s' h'
    obtain ⟨l, hp, hl⟩ := hbuf
    exact hp.nodup_iff.mp ((List.nodup_cons.mpr ⟨hfresh, h.nodup s hs⟩).sublist hl)
  case sock =>
    intro s' h'
    obtain rfl := hs' s' h'
    rw [← hs0, hsockets, htorn]
    exact h.sock s hs
  case torn =>
    rw [htorn, hsockets]
    exact h.torn
  case up_below =>
    intro u up hu
    rw [huploads] at hu
    rw [hbrk, hsockets]
    exact (h.up_below u up hu).imp_left Nat.lt_succ_of_lt
  case up_held =>
    intro u up s' hu h' hk
    obtain rfl := hs' s' h'
    rw [huploads] at hu
    have hk' : up.sock = s.sock := by rw [hk, ← hs0]
    have hsock : s0.sock = s.sock := by rw [← hs0]
    rw [hsock]
    refine ⟨?_, fun hin => (hsame u up hu hk' hin).2⟩
    have := (h.up_held u up s hu hs hk').1
    simp only [hpushes, Function.update_self]
    omega
  case up_other =>
    intro u up s' hu h' hk hx
    obtain rfl := hs' s' h'
    rw [huploads] at hu
    have hk' : up.sock ≠ s.sock := by rwa [← hs0] at hk
    rcases hsub hx with hx | hx
    · exact Nat.ne_of_lt (h.up_below u up hu).1 hx
    · exact h.up_other u up s hu hs hk' hx
  case up_intact =>
    intro u up hu hin
    rw [huploads] at hu
    have hb : up.key ≠ c.brk := Nat.ne_of_lt (h.up_below u up hu).1
    by_cases hk : up.sock = s.sock
    · obtain ⟨hin', hget⟩ := hsame u up hu hk hin
      have hx : up.key ∈ s0.buffers := by
        simp [Session.buffers, List.mem_of_getElem? hget]
      rw [hheapKept hx hb]
      exact h.up_intact u up hu hin'
    · have hx : up.key ∉ (c.brk :: s.keys).drop maxKeptKeys := fun hx =>
        h.up_other u up s hu hs hk (hmem (List.mem_of_mem_drop (i := 4) hx))
      simp only [hheap, hx, hb, if_false]
      exact h.up_intact u up hu ((hother up hk).mp hin)
  case up_wiped =>
    intro u up hu hin
    rw [huploads] at hu
    have hb : up.key ≠ c.brk := Nat.ne_of_lt (h.up_below u up hu).1
    -- wiped before, or the key that falls out of the list now
    have hcase : ¬ up.Intact c ∨ up.key ∈ (c.brk :: s.keys).drop maxKeptKeys := by
      by_cases hk : up.sock = s.sock
      · by_cases hin' : up.Intact c
        · obtain ⟨hle, hget⟩ := h.up_held u up s hu hs hk
          have hlast : c.pushes s.sock - up.pushed = 4 := by
            have h1 := hin'.2
            have h2 : ¬ c.pushes s.sock + 1 < up.pushed + maxKeptKeys := fun hlt =>
              hin ⟨htorn ▸ hin'.1, by rw [hpushes, hk, Function.update_self]; exact hlt⟩
            rw [hk] at h1
            simp only [maxKeptKeys] at h1 h2
            omega
          have hget4 := hget hin'
          rw [hlast] at hget4
          refine .inr (List.mem_of_getElem? (i := 0) ?_)
          rw [List.getElem?_drop]
          exact hget4
        · exact .inl hin'
      · exact .inl fun hin' => hin ((hother up hk).mpr hin')
    by_cases hx : up.key ∈ (c.brk :: s.keys).drop maxKeptKeys
    · simp only [hheap, hx, if_true]
    · simp only [hheap, hx, hb, if_false]
      exact h.up_wiped u up hu (hcase.resolve_right hx)
  case seals =>
    rw [hseals]
    exact h.seals

/-- A handshake record goes and its buffer is wiped. -/
theorem wipeKe (h : KeysOk q c) (hs : c.session = some s) {hsId : Handle} {r : HsRecord}
    (hr : Lib.JsMap.get hsId s.handshakes = some r) :
    KeysOk q ((c.wipe r.ke.toList).modify (·.deleteHandshake hsId)) := by
  generalize hc' : (c.wipe r.ke.toList).modify (·.deleteHandshake hsId) = c'
  have hbuf : (s.deleteHandshake hsId).buffers.Sublist s.buffers :=
    Lib.JsMap.filterMap_delete_sublist.append_left (s.kp.priv :: s.keys)
  -- the wiped buffer belongs to the record only
  have hkept {x : Addr} (hx : x ∈ (s.deleteHandshake hsId).buffers) : x ∉ r.ke.toList := by
    intro hke
    have hke' : r.ke = some x := by simpa using hke
    have hn := h.nodup s hs
    simp only [Session.buffers, Session.deleteHandshake_kp, Session.deleteHandshake_keys,
      Session.deleteHandshake_handshakes, List.mem_append] at hx hn
    have hmem : x ∈ s.handshakes.filterMap (·.2.ke) :=
      List.mem_filterMap.mpr ⟨_, Lib.JsMap.mem_of_get hr, hke'⟩
    rcases hx with hx | hx
    · exact (List.disjoint_of_nodup_append hn) hx hmem
    · exact Lib.JsMap.not_mem_filterMap_delete (List.nodup_append.mp hn).2.1 hr hke' hx
  have hin {x : Addr} (hx : x ∈ r.ke.toList) : x ∈ s.buffers := by
    refine List.mem_append_right _ (List.mem_filterMap.mpr ⟨_, Lib.JsMap.mem_of_get hr, ?_⟩)
    simpa using hx
  have hheap (x : Addr) : c'.heap x =
      if x ∈ r.ke.toList then { bytes := zeros, wiped := true } else c.heap x := by
    simp [← hc', Client.wipe, Client.modify]
  have hs' (s' : Session) (h' : c'.session = some s') : s.deleteHandshake hsId = s' := by
    simpa [← hc', Client.wipe, hs] using h'
  have hrest : c'.brk = c.brk ∧ c'.sockets = c.sockets ∧ c'.torn = c.torn ∧
      c'.pushes = c.pushes ∧ c'.uploads = c.uploads ∧ c'.seals = c.seals := by
    simp [← hc', Client.wipe, Client.modify]
  obtain ⟨hbrk, hsockets, htorn, hpushes, huploads, hseals⟩ := hrest
  have hi (up : Upload) : up.Intact c' ↔ up.Intact c := by
    rw [Upload.Intact, Upload.Intact, htorn, hpushes]
  -- an intact upload's key is a room key of this session, or no buffer of it at all
  have hup (u : Nat) (up : Upload) (hu : Lib.JsMap.get u c.uploads = some up) (hin' : up.Intact c) :
      up.key ∉ r.ke.toList := by
    by_cases hk : up.sock = s.sock
    · have hget := (h.up_held u up s hu hs hk).2 hin'
      exact hkept (by simp [Session.buffers, List.mem_of_getElem? hget])
    · exact fun hx => h.up_other u up s hu hs hk (hin hx)
  constructor
  case below =>
    intro s' h' x hx
    obtain rfl := hs' s' h'
    rw [hbrk]
    exact h.below s hs x (hbuf.subset hx)
  case live =>
    intro s' h' x hx
    obtain rfl := hs' s' h'
    simp only [hheap, hkept hx, if_false]
    exact h.live s hs x (hbuf.subset hx)
  case nodup =>
    intro s' h'
    obtain rfl := hs' s' h'
    exact (h.nodup s hs).sublist hbuf
  case sock =>
    intro s' h'
    obtain rfl := hs' s' h'
    rw [hsockets, htorn]
    exact h.sock s hs
  case torn =>
    rw [htorn, hsockets]
    exact h.torn
  case up_below =>
    rw [huploads, hbrk, hsockets]
    exact h.up_below
  case up_held =>
    intro u up s' hu h' hk
    obtain rfl := hs' s' h'
    rw [huploads] at hu
    rw [hi, hpushes]
    exact h.up_held u up s hu hs hk
  case up_other =>
    intro u up s' hu h' hk hx
    obtain rfl := hs' s' h'
    rw [huploads] at hu
    exact h.up_other u up s hu hs hk (hbuf.subset hx)
  case up_intact =>
    intro u up hu hin'
    rw [huploads] at hu
    rw [hi] at hin'
    simp only [hheap, hup u up hu hin', if_false]
    exact h.up_intact u up hu hin'
  case up_wiped =>
    intro u up hu hin'
    rw [huploads] at hu
    rw [hi] at hin'
    rw [hheap]
    split
    · rfl
    · exact h.up_wiped u up hu hin'
  case seals =>
    rw [hseals]
    exact h.seals

/-- After `teardown` no session is left, and every upload of the old one has lost its key. -/
theorem teardown (h : KeysOk q c) : KeysOk q c.teardown := by
  cases hs : c.session with
  | none => exact h.narrow (.of_session (by simp [Client.teardown, hs]))
  | some s =>
    generalize hc' : c.teardown = c'
    have hheap (x : Addr) : c'.heap x =
        if x ∈ s.buffers then { bytes := zeros, wiped := true } else c.heap x := by
      simp only [← hc', Client.teardown, hs, Client.closeSocket]
      split <;> rfl
    have hrest : c'.session = none ∧ c'.brk = c.brk ∧ c'.sockets = c.sockets ∧
        c'.torn = s.sock :: c.torn ∧ c'.pushes = c.pushes ∧ c'.uploads = c.uploads ∧
        c'.seals = c.seals := by
      simp only [← hc', Client.teardown, hs, Client.closeSocket]
      split <;> simp [Client.wipe, Client.setReady]
    obtain ⟨hnone, hbrk, hsockets, htorn, hpushes, huploads, hseals⟩ := hrest
    have hi (up : Upload) : up.Intact c' ↔ up.sock ≠ s.sock ∧ up.Intact c := by
      simp [Upload.Intact, htorn, hpushes, and_assoc]
    constructor
    case torn =>
      rw [htorn, hsockets]
      exact List.forall_mem_cons.mpr ⟨(h.sock s hs).1, h.torn⟩
    case up_below =>
      rw [huploads, hbrk, hsockets]
      exact h.up_below
    case up_intact =>
      intro u up hu hin
      rw [huploads] at hu
      obtain ⟨hk, hin⟩ := (hi up).mp hin
      simp only [hheap, h.up_other u up s hu hs hk, if_false]
      exact h.up_intact u up hu hin
    case up_wiped =>
      intro u up hu hin
      rw [huploads] at hu
      rw [hi, not_and_or, not_not] at hin
      by_cases hin' : up.Intact c
      · have hk : up.sock = s.sock := hin.resolve_right fun hn => hn hin'
        have hget := (h.up_held u up s hu hs hk).2 hin'
        have hx : up.key ∈ s.buffers := by simp [Session.buffers, List.mem_of_getElem? hget]
        simp only [hheap, hx, if_true]
      · rw [hheap]
        split
        · rfl
        · exact h.up_wiped u up hu hin'
    case seals =>
      rw [hseals]
      exact h.seals
    all_goals simp [hnone]

theorem openSession (h : KeysOk q c) (hello : ClientMsg Data) :
    KeysOk q (c.openSession hello) := by
  have hheap {x : Addr} (hx : x < c.brk) : (c.openSession hello).heap x = c.heap x := by
    simp [Client.openSession, Client.generateKeyPair, Client.draw, Client.alloc, Nat.ne_of_lt hx]
  have hsession : (c.openSession hello).session = some
      { sock := c.sockets, kp := { pub := .pub (Name.mk c.who c.draws), priv := c.brk } } := rfl
  constructor
  case below =>
    intro s' hs' x hx
    obtain rfl := Option.some.inj (hsession.symm.trans hs')
    simp only [Session.buffers, List.filterMap_nil, List.append_nil, List.mem_cons, List.not_mem_nil,
      or_false] at hx
    exact hx ▸ Nat.lt_succ_self _
  case live =>
    intro s' hs' x hx
    obtain rfl := Option.some.inj (hsession.symm.trans hs')
    simp only [Session.buffers, List.filterMap_nil, List.append_nil, List.mem_cons, List.not_mem_nil,
      or_false] at hx
    simp [hx, Client.openSession, Client.generateKeyPair, Client.draw, Client.alloc]
  case nodup =>
    intro s' hs'
    obtain rfl := Option.some.inj (hsession.symm.trans hs')
    simp [Session.buffers]
  case sock =>
    intro s' hs'
    obtain rfl := Option.some.inj (hsession.symm.trans hs')
    exact ⟨Nat.lt_succ_self _, fun hk => Nat.lt_irrefl _ (h.torn _ hk)⟩
  case torn => exact fun k hk => Nat.lt_succ_of_lt (h.torn k hk)
  case up_below =>
    exact fun u up hu => (h.up_below u up hu).imp Nat.lt_succ_of_lt Nat.lt_succ_of_lt
  case up_held =>
    intro u up s' hu hs' hk
    obtain rfl := Option.some.inj (hsession.symm.trans hs')
    exact absurd hk (Nat.ne_of_lt (h.up_below u up hu).2)
  case up_other =>
    intro u up s' hu hs' _ hx
    obtain rfl := Option.some.inj (hsession.symm.trans hs')
    simp only [Session.buffers, List.filterMap_nil, List.append_nil, List.mem_cons, List.not_mem_nil,
      or_false] at hx
    exact Nat.ne_of_lt (h.up_below u up hu).1 hx
  case up_intact =>
    intro u up hu hin
    exact (hheap (h.up_below u up hu).1).trans (h.up_intact u up hu hin)
  case up_wiped =>
    intro u up hu hin
    exact (congrArg Buffer.wiped (hheap (h.up_below u up hu).1)).trans (h.up_wiped u up hu hin)
  case seals => exact h.seals

theorem rotate (h : KeysOk q c) (hs : c.session = some s) :
    KeysOk q (c.generateRoomKey.1.pushKey c.generateRoomKey.2) :=
  (h.narrow .draw).pushNew hs _

theorem firstKey (h : KeysOk q c) (hs : c.session = some s) (hk : s.keys = []) :
    KeysOk q c.firstKey :=
  Client.firstKey_eq hs hk ▸ h.rotate hs

/-! ## Uploads and seals -/

theorem noteSeal (h : KeysOk q c) (k : Addr) (cap : Option Data)
    (hg : q → Sealing.Good ⟨c.read k, (c.heap k).wiped, cap⟩) : KeysOk q (c.noteSeal k cap) :=
  { h with
    seals := fun hq => List.forall_mem_cons.mpr ⟨hg hq, h.seals hq⟩ }

theorem seal_live (h : KeysOk q c) (hs : c.session = some s) {k : Addr}
    (hk : s.keys.head? = some k) : Sealing.Good ⟨c.read k, (c.heap k).wiped, none⟩ :=
  ⟨h.live s hs k (by simp [Session.buffers, List.mem_of_head? hk]), by simp⟩

/-- An upload seals under the value it began with exactly if it is intact. -/
theorem seal_upload (h : KeysOk q c) {u : Nat} {up : Upload}
    (hu : Lib.JsMap.get u c.uploads = some up) :
    Sealing.Good ⟨c.read up.key, (c.heap up.key).wiped, some up.captured⟩ ↔ up.Intact c := by
  constructor
  · intro hg
    by_contra hin
    exact Bool.false_ne_true (hg.1.symm.trans (h.up_wiped u up hu hin))
  · intro hin
    simp [Sealing.Good, Client.read, h.up_intact u up hu hin]

theorem beginUpload (h : KeysOk q c) (hs : c.session = some s) {k : Addr}
    (hk : s.keys.head? = some k) (transfer : String) (file : File) :
    KeysOk q (c.beginUpload s k transfer file) := by
  have hmem : k ∈ s.buffers := by simp [Session.buffers, List.mem_of_head? hk]
  have hnew {u : Nat} {up : Upload}
      (hu : Lib.JsMap.get u (c.beginUpload s k transfer file).uploads = some up) :
      up = c.newUpload s k transfer file ∨ Lib.JsMap.get u c.uploads = some up := by
    simp only [Client.beginUpload, Lib.JsMap.get_set] at hu
    split at hu
    · exact .inl (Option.some.inj hu).symm
    · exact .inr hu
  constructor
  case below => exact h.below
  case live => exact h.live
  case nodup => exact h.nodup
  case sock => exact h.sock
  case torn => exact h.torn
  case up_below =>
    intro u up hu
    rcases hnew hu with rfl | hu
    · exact ⟨h.below s hs k hmem, (h.sock s hs).1⟩
    · exact h.up_below u up hu
  case up_held =>
    intro u up s' hu hs' hk'
    rcases hnew hu with rfl | hu
    · obtain rfl := Option.some.inj (hs.symm.trans hs')
      refine ⟨le_rfl, fun _ => ?_⟩
      simpa [Client.beginUpload, Client.newUpload, List.head?_eq_getElem?] using hk
    · exact h.up_held u up s' hu hs' hk'
  case up_other =>
    intro u up s' hu hs' hk'
    rcases hnew hu with rfl | hu
    · exact absurd (congrArg Session.sock (Option.some.inj (hs.symm.trans hs'))) hk'
    · exact h.up_other u up s' hu hs' hk'
  case up_intact =>
    intro u up hu hin
    rcases hnew hu with rfl | hu
    · show c.heap k = { bytes := (c.heap k).bytes }
      rw [← h.live s hs k hmem]
    · exact h.up_intact u up hu hin
  case up_wiped =>
    intro u up hu hin
    rcases hnew hu with rfl | hu
    · exact absurd ⟨(h.sock s hs).2, Nat.lt_add_of_pos_right (by decide)⟩ hin
    · exact h.up_wiped u up hu hin
  case seals => exact h.seals

/-- The uploads are those of before, further on. -/
theorem advance (h : KeysOk q c) (m : Lib.JsMap Nat Upload)
    (hm : ∀ u up, Lib.JsMap.get u m = some up →
      ∃ up₀, Lib.JsMap.get u c.uploads = some up₀ ∧ up = { up₀ with sent := up.sent }) :
    KeysOk q { c with uploads := m } := by
  constructor
  case below => exact h.below
  case live => exact h.live
  case nodup => exact h.nodup
  case sock => exact h.sock
  case torn => exact h.torn
  case seals => exact h.seals
  all_goals
    intro u up
    first
      | intro s hu
        obtain ⟨up₀, hu₀, he⟩ := hm u up hu
        rw [he]
        first | exact h.up_held u up₀ s hu₀ | exact h.up_other u up₀ s hu₀
      | intro hu
        obtain ⟨up₀, hu₀, he⟩ := hm u up hu
        rw [he]
        first
          | exact h.up_below u up₀ hu₀
          | exact h.up_intact u up₀ hu₀
          | exact h.up_wiped u up₀ hu₀

theorem sendChunk (h : KeysOk q c) {u : Nat} {up : Upload} (i : Nat)
    (hu : Lib.JsMap.get u c.uploads = some up) (hq : q → up.Intact c) :
    KeysOk q (c.sendChunk u up i) := by
  have h1 := (h.noteSeal up.key (some up.captured) fun hq' => (h.seal_upload hu).mpr (hq hq')).narrow
    (.send (.fileChunk up.transfer i (sealBytes (c.read up.key) (up.file.slice i))))
  refine h1.advance _ fun u' up' hu' => ?_
  simp only [Lib.JsMap.get_set] at hu'
  split at hu'
  · rename_i he
    subst he
    exact ⟨up, by simpa using hu, by cases hu'; rfl⟩
  · exact ⟨up', by simpa using hu', rfl⟩

theorem dropUpload (h : KeysOk q c) (u : Nat) : KeysOk q (c.dropUpload u) := by
  refine h.advance _ fun u' up' hu' => ⟨up', ?_, rfl⟩
  simp only [Lib.JsMap.get_delete] at hu'
  split at hu'
  · simp at hu'
  · exact hu'

/-! ## Every effect -/

/-- Keeping `f e` or dropping the entry leaves no more buffers than before. -/
theorem subperm_handshakes {l l' : List Addr} (s : Session) (h : List.Subperm l l') :
    List.Subperm (s.kp.priv :: s.keys ++ l) (s.kp.priv :: s.keys ++ l') :=
  (List.subperm_append_left _).mpr h

/-- A handshake that begins has no buffer yet. -/
theorem beginHandshake (h : KeysOk q c) (pr : PakeRole) (role : HsRole) (code : Data)
    (hsId joinerId : Handle) : KeysOk q (c.beginHandshake pr role code hsId joinerId) := by
  refine h.narrow (.trans (.trans .draw (.send _)) (.modify _ fun s _ => ⟨rfl, rfl, ?_⟩))
  exact subperm_handshakes s Lib.JsMap.filterMap_set_subperm

/-- A record that keeps its buffer. -/
theorem updateRecord (h : KeysOk q c) (hs : c.session = some s) {hsId : Handle} {r r' : HsRecord}
    (hr : Lib.JsMap.get hsId s.handshakes = some r) (hke : r'.ke = r.ke) :
    KeysOk q (c.modify (·.setHandshake hsId r')) := by
  refine h.narrow (.modify _ fun s' hs' => ⟨rfl, rfl, ?_⟩)
  obtain rfl := Option.some.inj (hs.symm.trans hs')
  refine subperm_handshakes s (List.Perm.subperm (.of_eq ?_))
  exact Lib.JsMap.filterMap_set_same hr hke

theorem effect (h : KeysOk q c) (he : Effect a c₀ c c') (hq : q → ∀ u, a ≠ .resume u) :
    KeysOk q c' := by
  cases he with
  | idle he => exact h.narrow (.core he)
  | sendPlain m _ => exact h.narrow (.send m)
  | opened sock => exact h.narrow (.of_session rfl)
  | dropJoin => exact h.narrow (.of_session rfl)
  | submitInvite => exact h.narrow (.of_session rfl)
  | beginConnect hello _ => exact h.narrow (.of_session rfl)
  | openSession i hello _ =>
    have h1 : KeysOk q { c with connects := c.connects.eraseIdx i } := h.narrow (.of_session rfl)
    exact h1.openSession hello
  | firstKey hs hk => exact h.firstKey hs hk
  | teardown => exact h.teardown
  | invite token hs =>
    exact h.narrow (.trans .draw (.modify _ fun _ _ => ⟨rfl, rfl, .refl _⟩))
  | offer token hsId memberId code hs hcode ha =>
    refine KeysOk.beginHandshake (h.narrow (.modify _ ?_)) _ _ _ _ _
    exact fun _ _ => ⟨rfl, rfl, .refl _⟩
  | accept token hsId code hs hcode ha =>
    have h1 : KeysOk q { c with pendingJoin := none } := h.narrow (.of_session rfl)
    exact h1.beginHandshake _ _ _ _ _
  | pake hsId r d hs hr hd => exact h.updateRecord hs hr rfl
  | sendConfirm hsId r res hs hr hres => exact h.narrow (.send _)
  | confirmed hsId r res hs hr hres => exact h.confirmed hs hsId r res.ke
  | sendMemberKey hsId r res hs hr hres => exact h.narrow (.send _)
  | endHandshake hsId =>
    refine h.narrow (.modify _ fun s _ => ⟨rfl, rfl, subperm_handshakes s ?_⟩)
    exact Lib.JsMap.filterMap_delete_sublist.subperm
  | park hsId r d hs hr hd => exact h.updateRecord hs hr rfl
  | wipeKe hsId r hs hr => exact h.wipeKe hs hr
  | learnJoiner hsId r ke d pub hs hr hke hd hpub ho id =>
    exact h.narrow (.modify _ fun _ _ => ⟨rfl, rfl, .refl _⟩)
  | learnOwner hsId r ke d pub hs hr hke hd hpub ho =>
    exact h.narrow (.modify _ fun _ _ => ⟨rfl, rfl, .refl _⟩)
  | seedOwner id pub hs hpub => exact h.narrow (.modify _ fun _ _ => ⟨rfl, rfl, .refl _⟩)
  | mergeRoster k d json es hs hk hd ht hjson hes =>
    exact h.narrow (.modify _ fun _ _ => ⟨rfl, rfl, .refl _⟩)
  | forget ids => exact h.narrow (.modify _ fun _ _ => ⟨rfl, rfl, .refl _⟩)
  | rotate hs => exact h.rotate hs
  | takeKey pub d key hs hpub hd hkey => exact h.pushNew hs key
  | sendKey k pub d m hs hk hpub hd hm => exact h.narrow (.send m)
  | sendRoster k hs hk =>
    exact (h.noteSeal k none fun _ => h.seal_live hs hk).narrow (.send _)
  | chat k body file hs hk ha =>
    exact (h.noteSeal k none fun _ => h.seal_live hs hk).narrow (.send _)
  | beginUpload k transfer body file hs hk ha => exact h.beginUpload hs hk transfer file
  | sendFileStart u up ha hu =>
    exact (h.noteSeal up.key (some up.captured) fun hq' => absurd ha (hq hq' u)).narrow (.send _)
  | sendChunk u up i ha hu => exact h.sendChunk i hu fun hq' => absurd ha (hq hq' u)
  | endUpload u => exact h.dropUpload u

/-- An upload goes on; under `q` it seals only with the key it began with. -/
theorem resume (h : KeysOk q c) {u : Nat} {up : Upload}
    (hu : Lib.JsMap.get u c.uploads = some up) (hq : q → up.Seals c → up.Intact c) :
    KeysOk q (c.resume u up) := by
  unfold Client.resume
  split
  · rename_i hsent
    have hin (hq' : q) : up.Intact c := hq hq' (by simp [Upload.Seals, hsent])
    have h1 := h.noteSeal up.key (some up.captured) fun hq' => (h.seal_upload hu).mpr (hin hq')
    have hn := Narrow.send (c := c.noteSeal up.key (some up.captured))
      (.fileStart up.transfer up.kid (encryptMessage (c.read up.key) up.file.meta))
    refine (h1.narrow hn).sendChunk 0 (by simpa using hu) fun hq' => ?_
    rw [Upload.Intact, hn.torn, hn.pushes]
    exact hin hq'
  · rename_i i hsent
    split
    · exact h.dropUpload u
    · rename_i hsession
      split
      · rename_i hi
        refine h.sendChunk _ hu fun hq' => hq hq' ?_
        simpa [Upload.Seals, hsent, hi, Option.isSome_iff_ne_none] using hsession
      · exact (h.narrow (.send _)).dropUpload u

end KeysOk

/-! ## Runs -/

/-- Not an upload that seals after its session was torn down or has pushed five keys since it
began. -/
def Sheltered (c : Client) : Act → Prop
  | .resume u => ∀ up ∈ Lib.JsMap.get u c.uploads, up.Seals c → up.Intact c
  | _ => True

instance (c : Client) (a : Act) : Decidable (Sheltered c a) := by
  unfold Sheltered
  split <;> infer_instance

theorem KeysOk.step (h : KeysOk q c) (hstep : c.step a = some c') (hq : q → Sheltered c a) :
    KeysOk q c' := by
  by_cases ha : ∃ u, a = .resume u
  · obtain ⟨u, rfl⟩ := ha
    obtain ⟨up, hu, rfl⟩ := Option.map_eq_some_iff.mp hstep
    exact h.resume hu fun hq' => hq hq' up hu
  · exact (step_effects hstep).invariant (fun c c' hc he =>
      hc.effect he fun _ u hu => ha ⟨u, hu⟩) h

theorem keysOk_init (who : Nat) : KeysOk q { who } := by
  constructor <;> simp

theorem keysOk_of_sheltered {who : Nat} (h : (machine who).Reach Sheltered c) : KeysOk True c :=
  h.invariant (keysOk_init who) fun _ _ _ _ hc ha hs => hc.step hs fun _ => ha

theorem keysOk_of_reach {who : Nat} {ok : Client → Act → Prop} (h : (machine who).Reach ok c) :
    KeysOk False c :=
  h.invariant (keysOk_init who) fun _ _ _ _ hc _ hs => hc.step hs False.elim

/-- What an upload seals next is on record. -/
theorem seal_recorded {u : Nat} {up : Upload} (hs : up.Seals c) :
    ∃ e ∈ (c.resume u up).seals, e = ⟨c.read up.key, (c.heap up.key).wiped, some up.captured⟩ := by
  have hmem (m : ClientMsg Data) : (⟨c.read up.key, (c.heap up.key).wiped, some up.captured⟩ : Sealing)
      ∈ ((c.noteSeal up.key (some up.captured)).send m).seals := by
    rw [(Narrow.send m).seals]
    exact List.mem_cons_self
  refine ⟨_, ?_, rfl⟩
  unfold Upload.Seals at hs
  unfold Client.resume
  cases hsent : up.sent with
  | none =>
    simp only [Client.sendChunk, (Narrow.send _).seals]
    exact List.mem_cons_of_mem _ (by rw [(Narrow.send _).seals]; exact List.mem_cons_self)
  | some i =>
    simp only [hsent] at hs
    have hsome : c.session.isNone = false := by simpa [Option.isSome_iff_ne_none] using hs.1
    simp only [hsome, hs.2, if_true, Bool.false_eq_true, if_false]
    exact hmem _

/-- In a run without such events every seal is under a buffer that has not been wiped, and a file's
under the value its upload began with. Every such event breaks this. -/
theorem seals_good (who : Nat) :
    (∀ c, (machine who).Reach Sheltered c → ∀ e ∈ c.seals, e.Good) ∧
      ∀ c a c', (machine who).Reach Lib.Machine.Any c → (machine who).step c a = some c' →
        ¬ Sheltered c a → ∃ e ∈ c'.seals, ¬ e.Good := by
  refine ⟨fun c h => (keysOk_of_sheltered h).seals trivial, fun c a c' h hstep ha => ?_⟩
  cases a with
  | resume u =>
    simp only [Sheltered, not_forall] at ha
    obtain ⟨up, hu, hs, hin⟩ := ha
    rw [Option.mem_def] at hu
    have hc' : c.resume u up = c' := by
      have := hstep
      simp only [machine, Client.step, hu, Option.map_some, Option.some.injEq] at this
      exact this
    obtain ⟨e, he, rfl⟩ := seal_recorded (c := c) (u := u) hs
    exact ⟨_, hc' ▸ he, fun hg => hin (((keysOk_of_reach h).seal_upload hu).mp hg)⟩
  | _ => exact absurd trivial ha

/-! ## Examples -/

/-- A tab that has created a room, in which it has the id 1. -/
def opening : List Act :=
  [.create "ann" "", .connected 0, .opened 0,
    .message 0 { type := .welcome, room := some 9, memberId := some 1
                 members := some [⟨1, "ann", .owner⟩] }]

/-- A member comes and goes: the owner rotates. -/
def visit : List Act :=
  [.message 0 { type := .presence, members := some [⟨1, "ann", .owner⟩, ⟨2, "bob", .member⟩] },
    .message 0 { type := .presence, members := some [⟨1, "ann", .owner⟩] }]

def twoSlices : File :=
  { name := .const (.text 0)
    type := .const (.text 1)
    size := 2
    slices := [.const (.text 2), .const (.text 3)] }

/-- A file goes out in two chunks with one rotation in between. -/
def slowUpload : List Act :=
  opening ++ [.submit (some (.const (.text 4))) (some ("f", twoSlices)), .resume 0] ++ visit ++
    [.resume 0, .resume 0]

theorem seals_good_sample :
    ∀ e ∈ (((machine 1).runFrom Sheltered (machine 1).init slowUpload).get (by decide +kernel)).seals,
      e.Good :=
  (seals_good 1).1 _ (Lib.Machine.reach_get (by decide +kernel))

/-- Five rotations between two chunks: the second goes out sealed under 32 zero bytes. -/
theorem chunk_under_zeros :
    ∃ c, (machine 1).Reach Lib.Machine.Any c ∧
      (0, .fileChunk "f" 1 (sealBytes zeros (.const (.text 3)))) ∈ c.outbox ∧
      ∃ e ∈ c.seals, e.wiped = true := by
  have h : ∃ c, (machine 1).run (opening ++ [.submit none (some ("f", twoSlices)), .resume 0] ++
      visit ++ visit ++ visit ++ visit ++ visit ++ [.resume 0]) = some c ∧
      (0, .fileChunk "f" 1 (sealBytes zeros (.const (.text 3)))) ∈ c.outbox ∧
      ∃ e ∈ c.seals, e.wiped = true := by
    refine ⟨_, (Option.some_get (by decide +kernel)).symm, ?_⟩
    decide +kernel
  obtain ⟨c, hrun, hc⟩ := h
  exact ⟨c, Lib.Machine.reach_of_run hrun, hc⟩

end E2EAnon.Web
