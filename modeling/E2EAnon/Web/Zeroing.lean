import E2EAnon.Web.Guess
import E2EAnon.Web.Keys

/-!
# What becomes of key material (`main.ts:344-456`, `:583`)

`Retains D c c'`: a buffer that the session of `c` holds is, in `c'`, all zero, or held by the same
session, or one of `D`. Every handler but three drops nothing. The three are the ones that take a
record out of `handshakes` or put one in the place of another, and `connect` when it makes a session
while there is one: `drops` says which buffers they let go of. `zeroed` follows for whole runs: the
teardown finds everything else.
-/

namespace E2EAnon.Web

open Lib

/-- The session holds the buffer: as its private key, a room key or the `Ke` of a record. -/
def Session.Holds (s : Session) (b : Addr) : Prop :=
  b = s.kp.priv ∨ b ∈ s.keys ∨ ∃ hsId r, JsMap.get hsId s.handshakes = some r ∧ r.ke = some b

theorem Session.Holds.mem_buffers {s : Session} {b : Addr} (h : s.Holds b) : b ∈ s.buffers := by
  obtain rfl | hb | ⟨hsId, r, hr, hke⟩ := h
  · exact List.mem_cons_self
  · exact List.mem_cons_of_mem _ (List.mem_append_left _ hb)
  · exact Session.mem_buffers_ke hr hke

namespace Client

/-- The buffer is all zero. -/
def Zero (c : Client) (b : Addr) : Prop := c.heap b = { bytes := zeros, wiped := true }

/-- The session on the socket `k` is there and holds the buffer. -/
def HoldsIn (c : Client) (k : Nat) (b : Addr) : Prop :=
  ∃ s, c.session = some s ∧ s.sock = k ∧ s.Holds b

/-- A record with a `Ke` is one whose session is done. -/
def Settled (c : Client) : Prop :=
  ∀ s hsId r, c.session = some s → JsMap.get hsId s.handshakes = some r → r.ke ≠ none →
    r.hs.done = true

end Client

structure Retains (D : Addr → Prop) (c c' : Client) : Prop where
  brk     : c.brk ≤ c'.brk
  zero    : ∀ b < c.brk, c.Zero b → c'.Zero b
  held    : ∀ k b, b < c.brk → c.HoldsIn k b → D b ∨ c'.Zero b ∨ c'.HoldsIn k b
  settled : c.Settled → c'.Settled

variable {D : Addr → Prop} {c c' : Client} {s : Session} {hsId : Handle} {r : HsRecord}

namespace Retains

theorem refl : Retains D c c :=
  ⟨le_rfl, fun _ _ h => h, fun _ _ _ h => .inr (.inr h), fun h => h⟩

theorem trans {c'' : Client} (h : Retains D c c') (h' : Retains D c' c'') : Retains D c c'' where
  brk := h.brk.trans h'.brk
  zero b hb hz := h'.zero b (hb.trans_le h.brk) (h.zero b hb hz)
  held k b hb hk := by
    obtain hd | hz | hk := h.held k b hb hk
    · exact .inl hd
    · exact .inr (.inl (h'.zero b (hb.trans_le h.brk) hz))
    · exact h'.held k b (hb.trans_le h.brk) hk
  settled hs := h'.settled (h.settled hs)

theorem mono {D' : Addr → Prop} (h : Retains D c c') (hD : ∀ b, D b → D' b) : Retains D' c c' :=
  ⟨h.brk, h.zero, fun k b hb hk => (h.held k b hb hk).imp_left (hD b), h.settled⟩

/-- The heap and the session are the same. -/
theorem of_eq (hheap : c'.heap = c.heap) (hbrk : c'.brk = c.brk) (hs : c'.session = c.session) :
    Retains D c c' where
  brk := hbrk.ge
  zero b _ hz := by rwa [Client.Zero, hheap]
  held k b _ hk := .inr (.inr (by rwa [Client.HoldsIn, hs]))
  settled h := by rwa [Client.Settled, hs]

theorem send (c : Client) (m : ClientMsg Data) : Retains D c (c.send m) := by
  unfold Client.send
  split
  · split
    · exact of_eq rfl rfl rfl
    · exact refl
  · exact refl

/-- The session holds the same buffers. -/
theorem modify {f : Session → Session} (hf : ∀ s, (f s).sock = s.sock ∧ (f s).kp = s.kp ∧
    (f s).keys = s.keys ∧ (f s).handshakes = s.handshakes) : Retains D c (c.modify f) where
  brk := le_rfl
  zero b _ hz := hz
  held k b _ hk := by
    obtain ⟨s, hs, hsock, hb⟩ := hk
    obtain ⟨h₁, h₂, h₃, h₄⟩ := hf s
    exact .inr (.inr ⟨f s, by simp [hs], h₁.trans hsock, by rwa [Session.Holds, h₂, h₃, h₄]⟩)
  settled h := by
    intro s' hsId r hs' hr hke
    obtain ⟨s, hs, rfl⟩ := Option.map_eq_some_iff.mp hs'
    exact h s hsId r hs ((hf s).2.2.2 ▸ hr) hke

theorem alloc (c : Client) (d : Data) : Retains D c (c.alloc d).1 where
  brk := Nat.le_succ _
  zero _ hb hz := (Function.update_of_ne hb.ne _ _).trans hz
  held _ _ _ hk := .inr (.inr hk)
  settled h := h

theorem wipe (c : Client) (as : List Addr) : Retains D c (c.wipe as) where
  brk := le_rfl
  zero b _ hz := by
    unfold Client.Zero Client.wipe
    dsimp only
    split
    · rfl
    · exact hz
  held _ _ _ hk := .inr (.inr hk)
  settled h := h

theorem teardown (c : Client) : Retains D c c.teardown := by
  unfold Client.teardown
  split
  · exact of_eq rfl rfl rfl
  · rename_i s hs
    have hclose : ∀ (x : Client) (k : Nat), (x.closeSocket k).heap = x.heap ∧
        (x.closeSocket k).brk = x.brk := by
      intro x k
      unfold Client.closeSocket
      split <;> exact ⟨rfl, rfl⟩
    obtain ⟨hheap, hbrk⟩ := hclose (c.wipe s.buffers) s.sock
    refine ⟨hbrk.ge, fun b hb hz => ?_, fun k b _ hk => ?_, fun _ s' _ _ hs' => by cases hs'⟩
    · exact (congrFun hheap b).trans ((wipe (D := fun _ => False) c s.buffers).zero b hb hz)
    · obtain ⟨s', hs', -, hb⟩ := hk
      obtain rfl := Option.some.inj (hs.symm.trans hs')
      refine .inr (.inl ((congrFun hheap b).trans ?_))
      simp [Client.wipe, hb.mem_buffers]

/-- A key that falls off the end is wiped. -/
theorem pushKey (c : Client) (k : Addr) : Retains D c (c.pushKey k) := by
  unfold Client.pushKey
  split
  · exact refl
  · rename_i s hs
    refine ⟨le_rfl, fun b hb hz => (wipe (D := D) c _).zero b hb hz, fun n b _ hk => ?_, fun h => ?_⟩
    · obtain ⟨s', hs', hsock, hb⟩ := hk
      obtain rfl := Option.some.inj (hs.symm.trans hs')
      obtain rfl | hb | hb := hb
      · exact .inr (.inr ⟨_, rfl, hsock, .inl rfl⟩)
      · have hmem : b ∈ (k :: s.keys).take maxKeptKeys ++ (k :: s.keys).drop maxKeptKeys := by
          rw [List.take_append_drop]
          exact List.mem_cons_of_mem _ hb
        obtain hb | hb := List.mem_append.mp hmem
        · exact .inr (.inr ⟨_, rfl, hsock, .inr (.inl hb)⟩)
        · exact .inr (.inl (by simp [Client.Zero, Client.wipe, hb]))
      · exact .inr (.inr ⟨_, rfl, hsock, .inr (.inr hb)⟩)
    · intro s' hsId r hs' hr hke
      cases hs'
      exact h s hsId r hs hr hke

/-- A record comes in, or one takes the place of another. -/
theorem setHandshake {r' : HsRecord} (hs : c.session = some s)
    (hke : ∀ r b, JsMap.get hsId s.handshakes = some r → r.ke = some b → r'.ke = some b ∨ D b)
    (hdone : c.Settled → r'.ke ≠ none → r'.hs.done = true) :
    Retains D c (c.modify (·.setHandshake hsId r')) where
  brk := le_rfl
  zero b _ hz := hz
  held k b _ hk := by
    obtain ⟨s', hs', hsock, hb⟩ := hk
    obtain rfl := Option.some.inj (hs.symm.trans hs')
    have hsess : (c.modify (·.setHandshake hsId r')).session = some (s.setHandshake hsId r') := by
      simp [hs]
    obtain hb | hb | ⟨id, r, hr, hrke⟩ := hb
    · exact .inr (.inr ⟨_, hsess, hsock, .inl hb⟩)
    · exact .inr (.inr ⟨_, hsess, hsock, .inr (.inl hb)⟩)
    · by_cases hid : hsId = id
      · subst hid
        obtain hr' | hd := hke r b hr hrke
        · exact .inr (.inr ⟨_, hsess, hsock, .inr (.inr ⟨hsId, r', by simp, hr'⟩)⟩)
        · exact .inl hd
      · exact .inr (.inr ⟨_, hsess, hsock, .inr (.inr ⟨id, r, by simp [hid, hr], hrke⟩)⟩)
  settled h := by
    intro s' id r hs' hr hrke
    simp only [Client.modify_session, hs, Option.map_some, Option.some.injEq] at hs'
    subst hs'
    simp only [Session.setHandshake_handshakes, JsMap.get_set] at hr
    split at hr
    · cases hr
      exact hdone h hrke
    · exact h s id r hs hr hrke

theorem deleteHandshake (hs : c.session = some s)
    (hke : ∀ r b, JsMap.get hsId s.handshakes = some r → r.ke = some b → D b ∨ c.Zero b) :
    Retains D c (c.modify (·.deleteHandshake hsId)) where
  brk := le_rfl
  zero b _ hz := hz
  held k b _ hk := by
    obtain ⟨s', hs', hsock, hb⟩ := hk
    obtain rfl := Option.some.inj (hs.symm.trans hs')
    have hsess : (c.modify (·.deleteHandshake hsId)).session = some (s.deleteHandshake hsId) := by
      simp [hs]
    obtain hb | hb | ⟨id, r, hr, hrke⟩ := hb
    · exact .inr (.inr ⟨_, hsess, hsock, .inl hb⟩)
    · exact .inr (.inr ⟨_, hsess, hsock, .inr (.inl hb)⟩)
    · by_cases hid : hsId = id
      · subst hid
        exact (hke r b hr hrke).imp_right .inl
      · exact .inr (.inr ⟨_, hsess, hsock, .inr (.inr ⟨id, r, by simp [hid, hr], hrke⟩)⟩)
  settled h := by
    intro s' id r hs' hr hrke
    simp only [Client.modify_session, hs, Option.map_some, Option.some.injEq] at hs'
    subst hs'
    simp only [Session.deleteHandshake_handshakes, JsMap.get_delete] at hr
    split at hr
    · cases hr
    · exact h s id r hs hr hrke

/-! ## The handlers -/

theorem draw (c : Client) : Retains D c c.draw.1 := of_eq rfl rfl rfl

theorem generateRoomKey (c : Client) : Retains D c c.generateRoomKey.1 :=
  (draw c).trans (alloc _ _)

theorem rekeyMember (c : Client) (k : Addr) (id : Handle) : Retains D c (c.rekeyMember k id).1 := by
  unfold Client.rekeyMember
  split
  · exact refl
  · split
    · exact refl
    · split
      · exact send _ _
      · exact refl

theorem forEach {α : Type} {f : Client → α → Client × Bool} (hf : ∀ c x, Retains D c (f c x).1) :
    ∀ (l : List α) (c : Client), Retains D c (forEach f c l).1
  | [], _ => refl
  | x :: l, c => by
    have hx := hf c x
    simp only [Web.forEach]
    split
    · rename_i c' hc'
      rw [hc'] at hx
      exact hx.trans (forEach hf l c')
    · rename_i c' hc'
      rw [hc'] at hx
      exact hx

theorem deliverKey (c : Client) (joinerId : Handle) (pub : Data) (k : Addr) :
    Retains D c (c.deliverKey joinerId pub k).1 := by
  unfold Client.deliverKey
  split
  · exact refl
  · split
    · exact refl
    · split
      · exact send _ _
      · exact refl

theorem rotateForJoin (c : Client) (joinerId : Handle) (pub : Data) :
    Retains D c (c.rotateForJoin joinerId pub).1 := by
  unfold Client.rotateForJoin
  split
  · exact refl
  · rename_i s hs
    have h1 : Retains D c _ := (generateRoomKey c).trans (pushKey c.generateRoomKey.1
      c.generateRoomKey.2)
    have h2 := deliverKey (D := D) (c.generateRoomKey.1.pushKey c.generateRoomKey.2) joinerId pub
      c.generateRoomKey.2
    dsimp only
    split
    · rename_i c' hc'
      rw [hc'] at h2
      exact h1.trans h2
    · rename_i c' hc'
      rw [hc'] at h2
      have h3 := forEach (D := D) (f := Client.rekeyMember c.generateRoomKey.2)
        (fun c id => rekeyMember c _ id)
        (s.knownMembers.filter fun id => id ≠ s.memberId ∧ id ≠ joinerId) c'
      split
      · rename_i c'' hc''
        rw [hc''] at h3
        exact (h1.trans h2).trans h3
      · rename_i c'' hc''
        rw [hc''] at h3
        exact ((h1.trans h2).trans h3).trans (modify fun _ => ⟨rfl, rfl, rfl, rfl⟩)

theorem rotateForLeave (c : Client) (removed current : List Handle) :
    Retains D c (c.rotateForLeave removed current).1 := by
  unfold Client.rotateForLeave
  generalize hc₁ : c.modify (·.forget removed) = c₁
  have h0 : Retains D c c₁ := hc₁ ▸ modify fun _ => ⟨rfl, rfl, rfl, rfl⟩
  have h1 : Retains D c₁ _ := (generateRoomKey c₁).trans (pushKey c₁.generateRoomKey.1
    c₁.generateRoomKey.2)
  dsimp only
  split
  · exact h0.trans h1
  · exact (h0.trans h1).trans (forEach (fun c id => rekeyMember c _ id) _ _)

theorem broadcastRoster (c : Client) : Retains D c c.broadcastRoster := by
  unfold Client.broadcastRoster
  split
  · exact refl
  · split
    · exact (of_eq rfl rfl rfl : Retains D c (c.noteSeal _ none)).trans (send _ _)
    · exact refl

theorem onPresence (c : Client) (members : List MemberInfo) : Retains D c (c.onPresence members) := by
  unfold Client.onPresence
  split
  · exact refl
  · rename_i s hs
    dsimp only
    split
    · exact modify (by intro _; exact ⟨rfl, rfl, rfl, rfl⟩)
    · generalize hknown : (if ownerIdOf members = s.memberId ∧ s.role ≠ .owner then idsOf members
        else s.knownMembers) = known
      generalize hrem : known.filter _ = removed
      generalize hc₁ : Client.modify c _ = c₁
      have hc : Retains D c c₁ := hc₁ ▸ modify (by intro _; exact ⟨rfl, rfl, rfl, rfl⟩)
      generalize hc₂ : Client.modify c₁ _ = c₂
      have hc' : Retains D c₁ c₂ := hc₂ ▸ modify (by intro _; exact ⟨rfl, rfl, rfl, rfl⟩)
      have h2 : Retains D c₂ (if removed = [] then (c₂, true)
          else c₂.rotateForLeave removed (idsOf members)).1 := by
        split
        · exact refl
        · exact rotateForLeave c₂ removed _
      split
      · rename_i c'' hc''
        rw [hc''] at h2
        exact (hc.trans hc').trans h2
      · rename_i c'' hc''
        rw [hc''] at h2
        have h3 : Retains D c'' (c''.modify fun s => { s with knownMembers := idsOf members }) :=
          modify fun _ => ⟨rfl, rfl, rfl, rfl⟩
        exact (((hc.trans hc').trans h2).trans h3).trans (broadcastRoster _)

theorem finishJoin (c : Client) (hs : c.session = some s)
    (hr : JsMap.get hsId s.handshakes = some r) (d : Data) :
    Retains D c (c.finishJoin hsId r d) := by
  simp only [Client.finishJoin, hs]
  split
  · exact refl
  · split
    · exact teardown c
    · rename_i pub _ key _
      have hs₁ := Client.pushKey_session (c := (c.alloc key).1) (s := s) hs (c.alloc key).2
      -- the `Ke` is wiped before its record goes
      have hdel : Retains D (((c.alloc key).1.pushKey (c.alloc key).2).wipe r.ke.toList)
          ((((c.alloc key).1.pushKey (c.alloc key).2).wipe r.ke.toList).modify
            (·.deleteHandshake hsId)) := by
        refine deleteHandshake hs₁ fun r' b hr' hb => .inr ?_
        obtain rfl := Option.some.inj (hr.symm.trans hr')
        simp [Client.Zero, Client.wipe, hb]
      exact ((((alloc c key).trans (pushKey _ _)).trans (wipe _ _)).trans hdel).trans (send _ _)

/-! ### Handshakes -/

/-- A call that ends in a callback finds the session open and leaves it done. -/
theorem onData_callback (h : HandshakeSession) (d : Data) :
    ((h.onData d).2.2 ≠ .none → h.done = false ∧ (h.onData d).1.done = true) ∧
      (h.done = true → (h.onData d).1.done = true) := by
  unfold HandshakeSession.onData HandshakeSession.handlePoint HandshakeSession.handleConfirm
    HandshakeSession.verify HandshakeSession.fail
  grind

theorem onVerdict {v : Verdict} (hs : c.session = some s)
    (hr : JsMap.get hsId s.handshakes = some r)
    (hv : v ≠ .none → r.ke = none ∧ r.hs.done = true) : Retains D c (c.onVerdict hsId r v) := by
  have hnone : v ≠ .none → ∀ r' b, JsMap.get hsId s.handshakes = some r' → r'.ke ≠ some b := by
    intro hne r' b hr' hb
    obtain rfl := Option.some.inj (hr.symm.trans hr')
    simp [(hv hne).1] at hb
  cases v with
  | none => exact refl
  | confirmed ke =>
    have hset : Retains D (c.alloc ke).1 ((c.alloc ke).1.modify
        (·.setHandshake hsId { r with ke := some (c.alloc ke).2 })) :=
      setHandshake hs (fun r' b hr' hb => absurd hb (hnone (by simp) r' b hr'))
        fun _ _ => (hv (by simp)).2
    simp only [Client.onVerdict]
    split
    · exact ((alloc c ke).trans hset).trans (send _ _)
    · exact (alloc c ke).trans hset
  | failed =>
    simp only [Client.onVerdict]
    split
    · exact deleteHandshake hs fun r' b hr' hb => absurd hb (hnone (by simp) r' b hr')
    · exact teardown c

theorem onPake (hset : c.Settled) (msg : ServerMsg Data) : Retains D c (c.onPake msg) := by
  unfold Client.onPake
  split
  · rename_i s hsId d hs _ _
    split
    · exact refl
    · rename_i r hr
      obtain ⟨hcall, hdone⟩ := onData_callback r.hs d
      have h1 : Retains D c (c.modify (·.setHandshake hsId { r with hs := (r.hs.onData d).1 })) := by
        refine setHandshake hs (fun r' b hr' hb => .inl ?_) fun h hke => hdone (h s hsId r hs hr hke)
        rwa [Option.some.inj (hr.symm.trans hr')]
      refine h1.trans ?_
      generalize hr' : { r with hs := (r.hs.onData d).1 } = r'
      have hs' : (c.modify (·.setHandshake hsId r')).session = some (s.setHandshake hsId r') := by
        simp [hs]
      have hv : (r.hs.onData d).2.2 ≠ .none → r'.ke = none ∧ r'.hs.done = true := by
        intro hne
        obtain ⟨hopen, hnow⟩ := hcall hne
        subst hr'
        refine ⟨not_not.mp fun hke => ?_, hnow⟩
        simp [hset s hsId r hs hr hke] at hopen
      have hget : JsMap.get hsId (s.setHandshake hsId r').handshakes = some r' := by simp
      simp only [hr']
      split
      · exact (send _ _).trans (onVerdict (by simpa using hs') hget hv)
      · exact onVerdict hs' hget hv
  · exact refl

theorem beginHandshake {pr : PakeRole} {role : HsRole} {code : Data} {joinerId : Handle}
    (hs : c.session = some s)
    (hD : ∀ r b, JsMap.get hsId s.handshakes = some r → r.ke = some b → D b) :
    Retains D c (c.beginHandshake pr role code hsId joinerId) := by
  unfold Client.beginHandshake
  dsimp only
  exact ((draw c).trans (send _ _)).trans (setHandshake ((Client.send_session _ _).trans hs)
    (fun r b hr hb => .inr (hD r b hr hb)) fun _ hke => absurd rfl hke)

end Retains

/-- `sealRoomKey` throws for everything else. -/
def isPub : Data → Bool
  | .pub _ => true
  | _ => false

theorem isPub_of_seal {priv pub key d : Data} (h : sealRoomKey priv pub key = some d) :
    isPub pub = true := by
  cases pub with
  | pub n => rfl
  | _ => cases priv <;> simp [sealRoomKey, pairKey, getSharedSecret] at h

/-- `rotateForJoin` comes to its end: everybody it seals the key to has a public key. -/
def Session.rekeys (s : Session) (joinerId : Handle) (joinerPub : Data) : Bool :=
  isPub joinerPub && (s.knownMembers.filter fun id => id ≠ s.memberId ∧ id ≠ joinerId).all fun id =>
    (JsMap.get id s.memberPubs).all isPub

theorem rekeys_setPub {joinerId : Handle} {pub : Data}
    (h : (s.setPub joinerId pub).rekeys joinerId pub = true) : s.rekeys joinerId pub = true := by
  simp only [Session.rekeys, Bool.and_eq_true, List.all_eq_true, List.mem_filter, decide_eq_true_eq,
    Session.setPub_memberPubs, Session.setPub_knownMembers, Session.setPub_memberId] at h ⊢
  refine ⟨h.1, fun id hid => ?_⟩
  have hget := h.2 id hid
  rwa [JsMap.get_set, if_neg (Ne.symm hid.2.2)] at hget

/-- The session, the buffers and the draws are the same. -/
structure Same (c c' : Client) : Prop where
  session : c'.session = c.session
  heap    : c'.heap = c.heap
  draws   : c'.draws = c.draws
  who     : c'.who = c.who

namespace Same

theorem refl : Same c c := ⟨rfl, rfl, rfl, rfl⟩

theorem trans {c'' : Client} (h : Same c c') (h' : Same c' c'') : Same c c'' :=
  ⟨h'.session.trans h.session, h'.heap.trans h.heap, h'.draws.trans h.draws, h'.who.trans h.who⟩

theorem send (c : Client) (m : ClientMsg Data) : Same c (c.send m) := by
  constructor <;> simp

theorem rekeyMember (c : Client) (k : Addr) (id : Handle) : Same c (c.rekeyMember k id).1 := by
  unfold Client.rekeyMember
  split
  · exact refl
  · split
    · exact refl
    · split
      · exact send c _
      · exact refl

theorem deliverKey (c : Client) (joinerId : Handle) (pub : Data) (k : Addr) :
    Same c (c.deliverKey joinerId pub k).1 := by
  unfold Client.deliverKey
  split
  · exact refl
  · split
    · exact refl
    · split
      · exact send c _
      · exact refl

theorem forEach {α : Type} {f : Client → α → Client × Bool} (hf : ∀ c x, Same c (f c x).1) :
    ∀ (l : List α) (c : Client), Same c (forEach f c l).1
  | [], _ => refl
  | x :: l, c => by
    have hx := hf c x
    simp only [Web.forEach]
    split
    · rename_i c' hc'
      rw [hc'] at hx
      exact hx.trans (forEach hf l c')
    · rename_i c' hc'
      rw [hc'] at hx
      exact hx

end Same

/-- After `rotateForJoin` the session is the one in which the new key has been pushed. -/
theorem rotateForJoin_same (joinerId : Handle) (pub : Data) (hs : c.session = some s) :
    ∃ s' : Session, (c.rotateForJoin joinerId pub).1.session = some s' ∧
      s'.handshakes = s.handshakes ∧ s'.sock = s.sock ∧
      s'.keys = (c.generateRoomKey.2 :: s.keys).take maxKeptKeys ∧
      (c.rotateForJoin joinerId pub).1.heap =
        (c.generateRoomKey.1.pushKey c.generateRoomKey.2).heap ∧
      (c.rotateForJoin joinerId pub).1.draws = c.draws + 1 := by
  have hs₁ := Client.pushKey_session (c := c.generateRoomKey.1) (s := s) hs c.generateRoomKey.2
  have hd₁ : (c.generateRoomKey.1.pushKey c.generateRoomKey.2).draws = c.draws + 1 := by
    simp [Client.generateRoomKey, Client.draw, Client.alloc]
  generalize hc₁ : c.generateRoomKey.1.pushKey c.generateRoomKey.2 = c₁ at hs₁ hd₁
  have h2 := Same.deliverKey c₁ joinerId pub c.generateRoomKey.2
  simp only [Client.rotateForJoin, hs, hc₁]
  split
  · rename_i c₂ hc₂
    rw [hc₂] at h2
    exact ⟨_, h2.session.trans hs₁, rfl, rfl, rfl, h2.heap, h2.draws.trans hd₁⟩
  · rename_i c₂ hc₂
    rw [hc₂] at h2
    have h3 := Same.forEach (f := Client.rekeyMember c.generateRoomKey.2)
      (fun c id => Same.rekeyMember c _ id)
      (s.knownMembers.filter fun id => id ≠ s.memberId ∧ id ≠ joinerId) c₂
    split
    · rename_i c₃ hc₃
      rw [hc₃] at h3
      have h := h2.trans h3
      exact ⟨_, h.session.trans hs₁, rfl, rfl, rfl, h.heap, h.draws.trans hd₁⟩
    · rename_i c₃ hc₃
      rw [hc₃] at h3
      have h := h2.trans h3
      exact ⟨_, congrArg (Option.map _) (h.session.trans hs₁), rfl, rfl, rfl, h.heap,
        h.draws.trans hd₁⟩

theorem forEach_rekeyMember {k : Addr} {l : List Handle} (hs : c.session = some s)
    (h : (forEach (Client.rekeyMember k) c l).2 = true) :
    ∀ id ∈ l, (JsMap.get id s.memberPubs).all isPub = true := by
  induction l generalizing c with
  | nil => simp
  | cons id l ih =>
    have hmem : ∀ c', c.rekeyMember k id = (c', true) → c'.session = some s ∧
        (JsMap.get id s.memberPubs).all isPub = true := by
      intro c' hc'
      simp only [Client.rekeyMember, hs] at hc'
      split at hc'
      · rename_i hpub
        cases hc'
        exact ⟨hs, by simp [hpub]⟩
      · rename_i pub hpub
        split at hc'
        · rename_i d hd
          cases hc'
          exact ⟨by simpa using hs, by simp [hpub, isPub_of_seal hd]⟩
        · cases hc'
    simp only [forEach] at h
    split at h
    · rename_i c' hc'
      obtain ⟨hs', hid⟩ := hmem c' hc'
      intro x hx
      obtain rfl | hx := List.mem_cons.mp hx
      · exact hid
      · exact ih hs' h x hx
    · cases h

theorem rotateForJoin_rekeys {joinerId : Handle} {pub : Data} (hs : c.session = some s)
    (hr : JsMap.get hsId s.handshakes = some r) (ho : r.role = .owner ∧ r.joinerMemberId = joinerId)
    (h : (c.rotateForJoin joinerId pub).2 = true) : s.rekeys joinerId pub = true := by
  have hs₁ := Client.pushKey_session (c := c.generateRoomKey.1) (s := s) hs c.generateRoomKey.2
  generalize hc₁ : c.generateRoomKey.1.pushKey c.generateRoomKey.2 = c₁ at hs₁
  have hdeliver : ∀ c₂, c₁.deliverKey joinerId pub c.generateRoomKey.2 = (c₂, true) →
      c₂.session = c₁.session ∧ isPub pub = true := by
    intro c₂ hc₂
    simp only [Client.deliverKey, hs₁] at hc₂
    split at hc₂
    · rename_i hno
      have hfound := List.find?_eq_none.mp hno _ (JsMap.mem_of_get hr)
      simp [ho] at hfound
    · split at hc₂
      · rename_i d hd
        cases hc₂
        exact ⟨by simp, isPub_of_seal hd⟩
      · cases hc₂
  simp only [Client.rotateForJoin, hs, hc₁] at h
  split at h
  · cases h
  · rename_i c₂ hc₂
    obtain ⟨hs₂, hpub⟩ := hdeliver c₂ hc₂
    split at h
    · cases h
    · rename_i c₃ hc₃
      have hall := forEach_rekeyMember (c := c₂) (k := c.generateRoomKey.2) (hs₂.trans hs₁)
        (by rw [hc₃])
      simp only [Session.rekeys, hpub, Bool.true_and, List.all_eq_true]
      exact hall

/-! ## The three that drop a buffer -/

/-- The buffers an event lets go of without wiping them. -/
def Client.drops (c : Client) (a : Act) : List Addr :=
  match a with
  | .message _ msg =>
    match msg.type with
    | .memberKey =>
      match c.session, c.memberKeyOf msg with
      | some s, some (r, pub) =>
        if r.role = .owner ∧ s.rekeys r.joinerMemberId pub then r.ke.toList else []
      | _, _ => []
    | .inviteRedeemed | .redeemOk =>
      ((c.begins a).bind fun b => (c.record b.hsId).bind HsRecord.ke).toList
    | _ => []
  | .connected _ => (c.session.map Session.buffers).getD []
  | _ => []

variable {a : Act} {sock : Nat} {msg : ServerMsg Data}

/-- The owner ends a handshake without wiping its `Ke`; `finishJoin` of the joiner does. -/
theorem onMemberKey_retains (ht : msg.type = .memberKey) :
    Retains (· ∈ c.drops (.message sock msg)) c (c.onMemberKey msg) := by
  generalize hD : (fun b => b ∈ c.drops (.message sock msg)) = D
  unfold Client.onMemberKey
  split
  · rename_i s hsId d hs hid hd
    split
    · exact .refl
    · rename_i r hr
      split
      · exact .refl
      · rename_i ke hke
        split
        · exact .refl
        · rename_i pub hpub
          split
          · rename_i hrole
            have hkey : c.memberKeyOf msg = some (r, pub) := by
              simp [Client.memberKeyOf, hs, hid, hd, hr, hke, hpub]
            have h1 : Retains D c (c.modify (·.setPub r.joinerMemberId pub)) :=
              .modify fun _ => ⟨rfl, rfl, rfl, rfl⟩
            have h2 := Retains.rotateForJoin (D := D) (c.modify (·.setPub r.joinerMemberId pub))
              r.joinerMemberId pub
            have hrot := rotateForJoin_same (c := c.modify (·.setPub r.joinerMemberId pub))
              (s := s.setPub r.joinerMemberId pub) r.joinerMemberId pub (by simp [hs])
            have hrekeys (h : ((c.modify (·.setPub r.joinerMemberId pub)).rotateForJoin
                r.joinerMemberId pub).2 = true) :=
              rotateForJoin_rekeys (s := s.setPub r.joinerMemberId pub) (by simp [hs]) hr
                ⟨hrole, rfl⟩ h
            dsimp only
            generalize (c.modify (·.setPub r.joinerMemberId pub)).rotateForJoin r.joinerMemberId
              pub = p at h2 hrot hrekeys ⊢
            obtain ⟨c', _ | _⟩ := p
            · exact h1.trans h2
            · refine (h1.trans h2).trans ?_
              obtain ⟨s', hs', hh, -⟩ := hrot
              refine .deleteHandshake hs' fun r' b hr' hb => .inl ?_
              rw [hh] at hr'
              obtain rfl := Option.some.inj (hr.symm.trans hr')
              have hall := rekeys_setPub (hrekeys rfl)
              simp [← hD, Client.drops, ht, hs, hkey, hrole, hall, hb]
          · have h1 : Retains D c (c.modify fun s => { s with firstOwnerPub := some pub }) :=
              .modify fun _ => ⟨rfl, rfl, rfl, rfl⟩
            split
            · exact h1.trans (.finishJoin (s := { s with firstOwnerPub := some pub }) _ (by simp [hs])
                hr _)
            · exact h1
  · exact .refl

/-- A new record takes the place of one with the same id. -/
theorem onInviteRedeemed_retains (ht : msg.type = .inviteRedeemed) :
    Retains (· ∈ c.drops (.message sock msg)) c (c.onInviteRedeemed msg) := by
  fun_cases Client.onInviteRedeemed c msg with
  | case1 => exact .refl
  | case2 s hsId token memberId hm hto hid hs code hcode =>
    have hb : c.begins (.message sock msg) = some ⟨.A, code, hsId⟩ := by
      simp [Client.begins, ht, hs, hid, hto, hm, hcode]
    refine (Retains.modify ?_).trans (.beginHandshake (s := { s with
      pendingInvites := JsMap.delete token s.pendingInvites }) (by simp [hs]) fun r b hr hke => ?_)
    · intro _
      exact ⟨rfl, rfl, rfl, rfl⟩
    · have hrec : c.record hsId = some r := by simpa [Client.record, hs] using hr
      simp [Client.drops, ht, hb, hrec, hke]
  | case3 => exact .refl

theorem onRedeemOk_retains (ht : msg.type = .redeemOk) :
    Retains (· ∈ c.drops (.message sock msg)) c (c.onRedeemOk msg) := by
  fun_cases Client.onRedeemOk c msg with
  | case1 s hsId token code hj hid hs =>
    have hb : c.begins (.message sock msg) = some ⟨.B, code, hsId⟩ := by
      simp [Client.begins, ht, hs, hid, hj]
    have h1 : Retains (· ∈ c.drops (.message sock msg)) c { c with pendingJoin := none } :=
      .of_eq rfl rfl rfl
    refine (h1.trans (Retains.modify ?_)).trans (.beginHandshake (s := { s with
      memberId := msg.memberId.getD empty }) (by simp [hs]) fun r b hr hke => ?_)
    · intro _
      exact ⟨rfl, rfl, rfl, rfl⟩
    · have hrec : c.record hsId = some r := by simpa [Client.record, hs] using hr
      simp [Client.drops, ht, hb, hrec, hke]
  | case2 => exact .refl

namespace Retains

theorem onInviteCreated (c : Client) (msg : ServerMsg Data) : Retains D c (c.onInviteCreated msg) := by
  unfold Client.onInviteCreated
  split
  · exact (draw c).trans (modify fun _ => ⟨rfl, rfl, rfl, rfl⟩)
  · exact refl

theorem onKeyDeliver (c : Client) (msg : ServerMsg Data) : Retains D c (c.onKeyDeliver msg) := by
  unfold Client.onKeyDeliver
  split
  · rename_i s hsId d hs _ _
    split
    · exact refl
    · rename_i r hr
      split
      · refine setHandshake hs (fun r' b hr' hb => .inl ?_) fun h hke => h s hsId r hs hr hke
        rwa [Option.some.inj (hr.symm.trans hr')]
      · exact finishJoin c hs hr d
  · exact refl

theorem onRekey (c : Client) (msg : ServerMsg Data) : Retains D c (c.onRekey msg) := by
  unfold Client.onRekey
  split
  · split
    · exact refl
    · split
      · exact refl
      · exact (alloc _ _).trans (pushKey _ _)
  · exact refl

theorem applyRoster (c : Client) (d : Data) : Retains D c (c.applyRoster d) := by
  unfold Client.applyRoster
  split
  · exact modify fun _ => ⟨rfl, rfl, rfl, rfl⟩
  · exact refl

theorem handleError (c : Client) (msg : ServerMsg Data) : Retains D c (c.handleError msg) := by
  unfold Client.handleError
  split
  · exact refl
  · split
    · exact teardown c
    · split
      · split
        · exact refl
        · exact teardown c
      · exact teardown c

theorem onClose (c : Client) : Retains D c c.onClose := by
  unfold Client.onClose
  dsimp only
  split
  · exact (teardown c).trans (of_eq rfl rfl rfl)
  · split
    · exact (teardown c).trans (of_eq rfl rfl rfl)
    · exact of_eq rfl rfl rfl

theorem submit (c : Client) (body : Option Data) (file : Option (String × File)) :
    Retains D c (c.submit body file) := by
  unfold Client.submit
  split
  · exact refl
  · rename_i s hs
    split
    · exact refl
    · rename_i k ks hk
      have h1 : Retains D c (c.sendText k body) := by
        cases body with
        | none => exact refl
        | some body => exact (of_eq rfl rfl rfl : Retains D c (c.noteSeal k none)).trans (send _ _)
      cases file with
      | none => exact h1
      | some f => exact h1.trans (of_eq rfl rfl rfl)

theorem sendChunk (c : Client) (u : Nat) (up : Upload) (i : Nat) : Retains D c (c.sendChunk u up i) :=
  ((of_eq rfl rfl rfl : Retains D c (c.noteSeal up.key (some up.captured))).trans
    (send _ _)).trans (of_eq rfl rfl rfl)

theorem resume (c : Client) (u : Nat) (up : Upload) : Retains D c (c.resume u up) := by
  unfold Client.resume
  split
  · exact ((of_eq rfl rfl rfl : Retains D c (c.noteSeal up.key (some up.captured))).trans
      (send _ _)).trans (sendChunk _ _ _ _)
  · split
    · exact of_eq rfl rfl rfl
    · split
      · exact sendChunk _ _ _ _
      · exact (send _ _).trans (of_eq rfl rfl rfl)

theorem doLeave (c : Client) : Retains D c c.doLeave :=
  ((of_eq rfl rfl rfl : Retains D c { c with intentionalClose := true }).trans (send _ _)).trans
    (teardown _)

theorem memberAction (c : Client) (m : ClientMsg Data) : Retains D c (c.memberAction m) := by
  unfold Client.memberAction
  split
  · exact send _ _
  · exact refl

theorem beginConnect (c : Client) (hello : ClientMsg Data) : Retains D c (c.beginConnect hello) := by
  unfold Client.beginConnect
  dsimp only
  split
  · exact (teardown c).trans (of_eq rfl rfl rfl)
  · exact of_eq rfl rfl rfl

/-- A session in the place of another. -/
theorem openSession (c : Client) (hello : ClientMsg Data)
    (hD : ∀ s b, c.session = some s → s.Holds b → D b) : Retains D c (c.openSession hello) where
  brk := Nat.le_succ _
  zero _ hb hz := (Function.update_of_ne hb.ne _ _).trans hz
  held k b _ hk := by
    obtain ⟨s, hs, -, hb⟩ := hk
    exact .inl (hD s b hs hb)
  settled _ := by
    intro s hsId r hs hr
    cases hs
    cases hr

theorem endConnect (c : Client) (hello : ClientMsg Data)
    (hD : ∀ s b, c.session = some s → s.Holds b → D b) : Retains D c (c.endConnect hello) := by
  have h1 := openSession c hello hD
  unfold Client.endConnect
  split
  · rw [Client.firstKey_eq rfl rfl]
    exact (h1.trans (generateRoomKey _)).trans (pushKey _ _)
  · exact h1

theorem recoverIfSocketDead (c : Client) : Retains D c c.recoverIfSocketDead := by
  unfold Client.recoverIfSocketDead
  split
  · split
    · exact (of_eq rfl rfl rfl : Retains D c { c with intentionalClose := false }).trans (onClose _)
    · exact refl
  · exact refl

end Retains

theorem onMessage_retains (hset : c.Settled) (sock : Nat) (msg : ServerMsg Data) :
    Retains (· ∈ c.drops (.message sock msg)) c (c.onMessage msg) := by
  unfold Client.onMessage
  split
  · exact .modify fun _ => ⟨rfl, rfl, rfl, rfl⟩
  · exact .onPresence c _
  · exact .onInviteCreated c msg
  · exact onInviteRedeemed_retains ‹_›
  · exact onRedeemOk_retains ‹_›
  · exact .onPake hset msg
  · exact onMemberKey_retains ‹_›
  · exact .onKeyDeliver c msg
  · exact .onRekey c msg
  · split
    · exact .applyRoster c _
    · exact .refl
  · exact (Retains.of_eq rfl rfl rfl : Retains _ c { c with intentionalClose := true }).trans
      (.teardown _)
  · exact .handleError c msg
  all_goals exact .refl

/-- What an event does to the buffers of the session. -/
theorem step_retains (h : c.step a = some c') (hset : c.Settled) :
    Retains (· ∈ c.drops a) c c' := by
  cases a <;> simp only [Client.step] at h
  case create => cases h; exact .beginConnect c _
  case join token code nick session =>
    cases h
    exact (Retains.of_eq rfl rfl rfl : Retains _ c { c with pendingJoin := some (token, code) }).trans
      (.beginConnect _ _)
  case connected i =>
    split at h
    · cases h
      have h1 : ∀ x, Retains (· ∈ c.drops (.connected i)) c { c with connects := x } :=
        fun x => .of_eq rfl rfl rfl
      refine (h1 _).trans (.endConnect _ _ fun s b hs hb => ?_)
      have hs : c.session = some s := hs
      simpa [Client.drops, hs] using hb.mem_buffers
    · cases h
  case submit => cases h; exact .submit c _ _
  case resume u =>
    obtain ⟨up, -, rfl⟩ := Option.map_eq_some_iff.mp h
    exact .resume c u up
  case invite => cases h; exact .send c _
  case makeOwner => cases h; exact .memberAction c _
  case kick => cases h; exact .memberAction c _
  case leave =>
    split at h
    · cases h; exact .doLeave c
    · cases h
  case transferLeave target => cases h; exact (Retains.send c _).trans (.doLeave _)
  case unload => cases h; exact .send c _
  case opened sock =>
    split at h
    · cases h; exact .of_eq rfl rfl rfl
    · cases h
  case message sock msg =>
    split at h
    · cases h; exact onMessage_retains hset sock msg
    · cases h
  case closing sock =>
    split at h
    · cases h
      unfold Client.closeSocket
      split
      · exact .refl
      · exact .of_eq rfl rfl rfl
    · cases h
  case closed sock =>
    split at h
    · cases h
      exact (Retains.of_eq rfl rfl rfl : Retains _ c (c.setReady sock .closed)).trans (.onClose _)
    · cases h
  case visible => cases h; exact .recoverIfSocketDead c

/-! ## Runs -/

variable {who : Nat} {l : List (Machine.Transition Client Act)}

theorem settled_of_reach (h : (machine who).Reach Machine.Any c) : c.Settled :=
  h.invariant (I := Client.Settled) (fun s _ _ hs => by cases hs)
    fun _ _ _ _ ih _ hs => (step_retains hs ih).settled ih

/-- Where a buffer is that a session has held. -/
theorem held_of_trace (hl : (machine who).Trace l c) {t : Machine.Transition Client Act} (ht : t ∈ l)
    {k : Nat} {b : Addr} (hb : t.after.HoldsIn k b) :
    b < c.brk ∧ ((∃ u ∈ l, b ∈ u.before.drops u.label) ∨ c.Zero b ∨ c.HoldsIn k b) := by
  induction hl with
  | nil => simp at ht
  | @snoc l c c' a hl hs ih =>
    have hstep := step_retains hs (settled_of_reach hl.reach)
    obtain ht | ht := List.mem_append.mp ht
    · obtain ⟨hlt, hd | hz | hk⟩ := ih ht
      · obtain ⟨u, hu, hd⟩ := hd
        exact ⟨hlt.trans_le hstep.brk, .inl ⟨u, by simp [hu], hd⟩⟩
      · exact ⟨hlt.trans_le hstep.brk, .inr (.inl (hstep.zero b hlt hz))⟩
      · refine ⟨hlt.trans_le hstep.brk, ?_⟩
        obtain hd | h := hstep.held k b hlt hk
        · exact .inl ⟨⟨c, a, c'⟩, by simp, hd⟩
        · exact .inr h
    · obtain rfl := List.mem_singleton.mp ht
      obtain ⟨s, hs', hsock, hholds⟩ := hb
      have hok := keysOk_of_reach (hl.snoc hs).reach
      exact ⟨hok.below s hs' b hholds.mem_buffers, .inr (.inr ⟨s, hs', hsock, hholds⟩)⟩

/-- The joiner's side of a handshake with the first invite of tab 1. -/
def joinerSide : Spake2State := start .B (.name (Name.mk 1 2)) 4 (.name (Name.mk 2 0))

def sharedKe : Data :=
  keOf (.name (Name.mk 1 2)) 4 (start .A (.name (Name.mk 1 2)) 4 (.name (Name.mk 1 3))).message
    joinerSide.message

/-- The owner confirms a handshake. -/
def confirming : List Act :=
  opening ++ [.message 0 { type := .inviteCreated, token := some 3 },
    .message 0 { type := .inviteRedeemed, token := some 3, handshake := some 4, memberId := some 7 },
    .message 0 { type := .pake, handshake := some 4
                 data := some (pakeFrame .pakeM joinerSide.message) },
    .message 0 { type := .pake, handshake := some 4
                 data := some (pakeFrame .pakeC (.tag (.confirm .B) sharedKe)) }]

/-- And leaves before it is complete. -/
def leftEarly : List Act := confirming ++ [.leave]

/-- And leaves after the join. -/
def leftLater : List Act :=
  confirming ++ [.message 0 { type := .memberKey, handshake := some 4
                              data := some (sealUnderKe sharedKe (.pub (Name.mk 2 1))) },
    .leave]

theorem leftEarly_some : ((machine 1).stepsFrom (machine 1).init leftEarly).isSome = true := by
  decide +kernel

theorem leftLater_some : ((machine 1).stepsFrom (machine 1).init leftLater).isSome = true := by
  decide +kernel

theorem holdsIn_of_record {k : Nat} {b : Addr} (hs : c.session.map Session.sock = some k)
    (hr : (c.record hsId).bind HsRecord.ke = some b) : c.HoldsIn k b := by
  obtain ⟨s, hs, hsock⟩ := Option.map_eq_some_iff.mp hs
  obtain ⟨r, hr, hke⟩ := Option.bind_eq_some_iff.mp hr
  simp only [Client.record, hs, Option.bind_some] at hr
  exact ⟨s, hs, hsock, .inr (.inr ⟨hsId, r, hr, hke⟩)⟩

end E2EAnon.Web
