import E2EAnon.Net.Secrecy
import E2EAnon.Web.Receive

/-!
# Envelopes of four kinds under one key

A text, a roster, a file's metadata and a chunk are sealed under the same key and in the same
format. `Carried`: the relay brings any envelope it has carried, in a frame of any type, and whatever
it can make without a client's secret. `Unrelabelled`: it takes an envelope for something it passes
for only if it came as that; then whatever a tab acts on, a client has sealed as what it is taken
for. The source does not check this, and a text that reads as a roster is merged as one
(`forged_roster`).
-/

namespace E2EAnon.Net

open Web
open Relay (clientPayloads payloads)
open Lib (JsMap)

abbrev Receivers := Nat → Receiver

def receivers : Lib.Machine Receivers (Nat × Web.Act) where
  init i := { client := { who := i + 1 } }
  step r l := ((r l.1).step l.2).map (Function.update r l.1)

def Receivers.tabs (r : Receivers) : Tabs := fun i => (r i).client

/-- What an envelope is sealed as. -/
def sealedKind : ClientMsg Data → Option (Kind × Data)
  | .msg d => some (.chat, d)
  | .roster d => some (.roster, d)
  | .fileStart _ _ d => some (.fileStart, d)
  | .fileChunk _ _ d => some (.fileChunk, d)
  | _ => none

namespace Tabs

/-- A client has sealed and sent `d` as a `kind`. -/
def sealedAs (t : Tabs) (kind : Kind) (d : Data) : Prop :=
  ∃ i, ∃ m ∈ (t i).outbox, sealedKind m.2 = some (kind, d)

/-- It has been sent, or it can be made without a client's secret. -/
def Arrives (t : Tabs) (d : Data) : Prop := d ∈ t.sent ∨ ∀ k m, d = .enc k m → ¬ Secret k

/-- A public key from a roster made by `broadcastRoster` or from a frame sealed under `Ke`. -/
def Sourced (t : Tabs) (pub : Data) : Prop :=
  (∃ i s k id, ∃ m ∈ (t i).outbox, m.2 = .roster (encryptMessage k (jsonOf (rosterOf s))) ∧
      (id, bytesToB64url pub) ∈ rosterOf s) ∨
    ∃ i hsId ke, ∃ m ∈ (t i).outbox, m.2 = .memberKey hsId (sealUnderKe ke pub)

end Tabs

/-- Frames bring what arrives, and a code that is typed in is secret. -/
def Carried (t : Tabs) (l : Nat × Web.Act) : Prop :=
  match l.2 with
  | .message _ msg => ∀ d ∈ payloads msg, t.Arrives d
  | .join _ code _ _ => Secret code
  | _ => True

/-- An envelope that a client has sealed is taken for something it passes for only if that is what a
client has sealed it as. -/
def Unrelabelled (t : Tabs) (l : Nat × Web.Act) : Prop :=
  match l.2 with
  | .message _ msg => ∀ kind k m, taken msg = some (kind, .enc k m) → reads kind m = true →
      ∀ kind', t.sealedAs kind' (.enc k m) → t.sealedAs kind (.enc k m)
  | _ => True

/-- A chunk that is due under a key that has been zeroed is one that a client has sealed. -/
def Unforged (r : Receivers) (l : Nat × Web.Act) : Prop :=
  match l.2 with
  | .message _ msg => ∀ inc m, (r l.1).awaits msg inc → (r l.1).client.read inc.key = zeros →
      taken msg = some (.fileChunk, .enc zeros m) → r.tabs.sealedAs .fileChunk (.enc zeros m)
  | _ => True

variable {r r' : Receivers} {t t' : Tabs} {i : Nat} {a : Web.Act} {c₀ c c' : Client} {s : Session}
  {ok : Tabs → Nat × Web.Act → Prop}

/-! ## The tabs of a run -/

theorem step_receivers (h : receivers.step r (i, a) = some r') :
    ∃ x, (r i).step a = some x ∧ r' = Function.update r i x := by
  obtain ⟨x, hx, rfl⟩ := Option.map_eq_some_iff.mp h
  exact ⟨x, hx, rfl⟩

/-- What is received changes nothing else. -/
theorem step_tabs_of_receivers (h : receivers.step r (i, a) = some r') :
    tabs.step r.tabs (i, a) = some r'.tabs := by
  obtain ⟨x, hx, rfl⟩ := step_receivers h
  obtain ⟨c', hc', rfl⟩ := Option.map_eq_some_iff.mp hx
  refine Option.map_eq_some_iff.mpr ⟨c', hc', ?_⟩
  funext j
  by_cases hj : j = i
  · subst hj
    simp [Receivers.tabs]
  · simp [Receivers.tabs, hj]

theorem tabs_of_reach (h : receivers.Reach (fun r l => ok r.tabs l) r) : tabs.Reach ok r.tabs := by
  induction h with
  | init => exact .init
  | step _ ha hs ih => exact ih.step ha (step_tabs_of_receivers hs)

theorem sealedAs_mono (h : tabs.step t (i, a) = some t') {kind : Kind} {d : Data}
    (hd : t.sealedAs kind d) : t'.sealedAs kind d := by
  obtain ⟨j, m, hm, hk⟩ := hd
  exact ⟨j, m, outbox_mono h j hm, hk⟩

theorem sourced_mono (h : tabs.step t (i, a) = some t') {pub : Data} (hp : t.Sourced pub) :
    t'.Sourced pub := by
  obtain ⟨j, s, k, id, m, hm, hk⟩ | ⟨j, hsId, ke, m, hm, hk⟩ := hp
  · exact .inl ⟨j, s, k, id, m, outbox_mono h j hm, hk⟩
  · exact .inr ⟨j, hsId, ke, m, outbox_mono h j hm, hk⟩

/-! ## Envelopes under secret keys come from clients -/

/-- Under a pair key there is only key material. -/
def Fit (d : Data) : Prop := ∀ k m, d = .enc k m → Secret k → Shape k m

theorem fit_channel : Channel Fit where
  shape k m h hk := h k m rfl hk
  tag _ _ := nofun
  pake _ _ _ := nofun

theorem fit_of_outgoing {d : Data} (h : Outgoing Fit d) : Fit d := by
  obtain h | ⟨k, m, rfl, -, hshape⟩ := h
  · exact h
  · rintro k' m' he -
    cases he
    exact hshape

/-- What arrives is fit, since under a secret key there is only what the clients have sent. -/
theorem fit_of_carried (h : ∀ i, Kept Fit (t i)) (hc : Carried t (i, a)) {d : Data}
    (hd : a.payload = some d) : Fit d := by
  cases a <;> simp only [Web.Act.payload, reduceCtorEq] at hd
  obtain ⟨j, m, hm, hdm⟩ | hfree := hc d (by simp [payloads, hd])
  · exact fit_of_outgoing (((h j).outbox m hm).2 d hdm)
  · exact fun k m he hk => absurd hk (hfree k m he)

theorem code_of_carried (hc : Carried t (i, a)) (token : Handle) (code : Data) (nick session : String)
    (ha : a = .join token code nick session) : Secret code := by
  subst ha
  exact hc

theorem kept_of_carried (h : tabs.Reach Carried t) (i : Nat) : Kept Fit (t i) := by
  refine h.invariant (I := fun t => ∀ i, Kept Fit (t i)) (fun i => kept_init i) ?_ i
  rintro t ⟨j, a⟩ t' hr ih hcarried hstep i
  obtain ⟨c', hc', rfl⟩ := step_tabs hstep
  by_cases hi : i = j
  · subst hi
    rw [Function.update_self]
    refine (ih i).step fit_channel (keysOk_tab hr i) hc' (fun d => fit_of_carried ih hcarried)
      (code_of_carried hcarried) ?_
    rintro u up - - - - d - k m he hk
    cases he
    exact hk.elim
  · rw [Function.update_of_ne hi]
    exact ih i

/-- Under key material there are only texts, rosters and files. -/
theorem kind_of_formed {m : ClientMsg Data} (hm : Formed m) {key x : Data} (hkey : Material key)
    (hd : .enc key x ∈ clientPayloads m) : ∃ kind, sealedKind m = some (kind, .enc key x) := by
  cases m with
  | msg d | roster d | fileChunk transfer index d =>
    obtain rfl := List.mem_singleton.mp hd
    exact ⟨_, rfl⟩
  | fileStart transfer kid d =>
    obtain ⟨⟨k, rfl⟩, -⟩ := hm
    obtain he | hd := List.mem_cons.mp hd
    · cases he
    · obtain rfl := List.mem_singleton.mp hd
      exact ⟨_, rfl⟩
  | pake hsId d =>
    obtain ⟨t, x, rfl⟩ := hm
    cases List.mem_singleton.mp hd
  | memberKey hsId d =>
    obtain ⟨ke, v, -, rfl⟩ := hm
    cases List.mem_singleton.mp hd
    exact absurd rfl (hkey.keyx ke)
  | keyDeliver hsId d | rekey target d =>
    obtain ⟨a, m, rfl⟩ := hm
    cases List.mem_singleton.mp hd
    exact absurd rfl (hkey.rekey a)
  | _ => cases hd

theorem not_content_keyx {ke : Data} : ¬ Content (.kdf .keyx ke) :=
  fun h => h.elim nofun fun h => h.keyx ke rfl

/-- Under the key derived from a `Ke` there are only public keys. -/
theorem memberKey_of_formed {m : ClientMsg Data} (hm : Formed m) {ke pub : Data}
    (hd : sealUnderKe ke pub ∈ clientPayloads m) : ∃ hsId, m = .memberKey hsId (sealUnderKe ke pub) := by
  cases m with
  | memberKey hsId d =>
    obtain rfl := List.mem_singleton.mp hd
    exact ⟨hsId, rfl⟩
  | msg d | fileChunk transfer index d =>
    obtain ⟨k, m, hk, rfl⟩ := hm
    cases List.mem_singleton.mp hd
    exact absurd hk not_content_keyx
  | roster d =>
    obtain ⟨k, s, -, rfl⟩ := hm
    cases List.mem_singleton.mp hd
  | fileStart transfer kid d =>
    obtain ⟨⟨k, rfl⟩, k', f, -, rfl⟩ := hm
    obtain he | hd := List.mem_cons.mp hd
    · cases he
    · cases List.mem_singleton.mp hd
  | pake hsId d =>
    obtain ⟨t, x, rfl⟩ := hm
    cases List.mem_singleton.mp hd
  | keyDeliver hsId d | rekey target d =>
    obtain ⟨a, m, rfl⟩ := hm
    cases List.mem_singleton.mp hd
  | _ => cases hd

/-- An envelope under key material that arrives has been sealed as some kind by a client. -/
theorem sealedAs_of_arrives (h : ∀ i, Kept Fit (t i)) {key x : Data} (hkey : Material key)
    (ha : t.Arrives (.enc key x)) : ∃ kind, t.sealedAs kind (.enc key x) := by
  obtain ⟨i, m, hm, hd⟩ | hfree := ha
  · obtain ⟨kind, hkind⟩ := kind_of_formed ((h i).outbox m hm).1 hkey hd
    exact ⟨kind, i, m, hm, hkind⟩
  · exact absurd hkey.secret (hfree key x rfl)

/-- A public key that is opened under a client's `Ke` has been sent under it. -/
theorem sourced_of_opened (h : ∀ i, Kept Fit (t i)) {ke d pub : Data} (hke : Material ke)
    (ha : t.Arrives d) (hopen : openUnderKe ke d = some pub) : t.Sourced pub := by
  obtain rfl := openUnderKe_eq_some.mp hopen
  obtain ⟨i, m, hm, hd⟩ | hfree := ha
  · obtain ⟨hsId, hf⟩ := memberKey_of_formed ((h i).outbox m hm).1 hd
    exact .inr ⟨i, hsId, ke, m, hm, hf⟩
  · exact absurd (show Secret (.kdf .keyx ke) from hke.secret) (hfree _ _ rfl)

/-- What was sealed as a roster was made by `broadcastRoster`. -/
theorem roster_of_sealedAs (h : ∀ i, Kept Fit (t i)) {d : Data} (hd : t.sealedAs .roster d) :
    ∃ i s k, ∃ m ∈ (t i).outbox, m.2 = .roster d ∧ d = encryptMessage k (jsonOf (rosterOf s)) := by
  obtain ⟨i, m, hm, hkind⟩ := hd
  have hform := ((h i).outbox m hm).1
  obtain ⟨sock, m⟩ := m
  cases m with
  | roster d' =>
    cases hkind
    obtain ⟨k, s, -, rfl⟩ := hform
    exact ⟨i, s, k, _, hm, rfl, rfl⟩
  | _ => cases hkind

/-! ## Public keys -/

/-- Every public key a tab holds has a source. -/
def Known (t : Tabs) (c : Client) : Prop := ∀ s, c.session = some s →
  (∀ e ∈ s.memberPubs, t.Sourced e.2) ∧ ∀ pub, s.firstOwnerPub = some pub → t.Sourced pub

theorem mem_mergeRoster {pubs : JsMap Handle Data} {es : List (Handle × Data)} {e : Handle × Data}
    (h : e ∈ mergeRoster pubs es) : e ∈ pubs ∨ (e.1, bytesToB64url e.2) ∈ es := by
  induction es generalizing pubs with
  | nil => exact .inl h
  | cons e' es ih =>
    obtain ⟨id, v⟩ := e'
    simp only [mergeRoster] at h
    split at h
    · rename_i b hb
      obtain h | h := ih h
      · obtain rfl | h := JsMap.mem_set h
        · exact .inr (by simp [b64urlToBytes_eq_some.mp hb])
        · exact .inl h
      · exact .inr (List.mem_cons_of_mem _ h)
    · exact .inl h

namespace Known

theorem modify (h : Known t c) (f : Session → Session) (hf : ∀ s, c.session = some s →
    (∀ e ∈ (f s).memberPubs, e ∈ s.memberPubs ∨ t.Sourced e.2) ∧
      ∀ pub, (f s).firstOwnerPub = some pub → s.firstOwnerPub = some pub ∨ t.Sourced pub) :
    Known t (c.modify f) := by
  intro s' hs'
  obtain ⟨s, hs, rfl⟩ := Option.map_eq_some_iff.mp hs'
  refine ⟨fun e he => ((hf s hs).1 e he).elim ((h s hs).1 e) id, fun pub hp => ?_⟩
  exact ((hf s hs).2 pub hp).elim ((h s hs).2 pub) id

/-- The session's public keys are the same or the session is over. -/
theorem of_session (h : Known t c) (hs : ∀ s', c'.session = some s' → ∃ s, c.session = some s ∧
    s'.memberPubs = s.memberPubs ∧ s'.firstOwnerPub = s.firstOwnerPub) : Known t c' := by
  intro s' hs'
  obtain ⟨s, hs, hpubs, hfirst⟩ := hs s' hs'
  rw [hpubs, hfirst]
  exact h s hs

theorem send (h : Known t c) (m : ClientMsg Data) : Known t (c.send m) := by
  rw [Known, Client.send_session]
  exact h

theorem pushKey (h : Known t c) (k : Addr) : Known t (c.pushKey k) := by
  cases hs : c.session with
  | none => simp [Known, Client.pushKey, hs]
  | some s =>
    refine h.of_session fun s' hs' => ⟨s, hs, ?_⟩
    rw [Client.pushKey_session hs] at hs'
    cases hs'
    exact ⟨rfl, rfl⟩

theorem modifySame (h : Known t c) (f : Session → Session)
    (hf : ∀ s, (f s).memberPubs = s.memberPubs ∧ (f s).firstOwnerPub = s.firstOwnerPub) :
    Known t (c.modify f) :=
  h.modify f fun s _ => by
    rw [(hf s).1, (hf s).2]
    exact ⟨fun _ => .inl, fun _ => .inl⟩

theorem beginHandshake (h : Known t c) (pr : PakeRole) (role : HsRole) (code : Data)
    (hsId joinerId : Handle) : Known t (c.beginHandshake pr role code hsId joinerId) :=
  modifySame (send (c := c.draw.1) h _) _ fun _ => ⟨rfl, rfl⟩

/-- One effect of a tab of `t`; what arrives as a roster and reads as one has been sealed as one if it
has been sealed at all. -/
theorem effect (h : Known t c) (hkept : ∀ i, Kept Fit (t i)) (hc : Kept Fit c) (hk : KeysOk False c)
    (he : Effect a c₀ c c') (hd : ∀ d, a.payload = some d → t.Arrives d)
    (hroster : ∀ k m, a.payload = some (.enc k m) → a.type = some .roster → reads .roster m = true →
      ∀ kind, t.sealedAs kind (.enc k m) → t.sealedAs .roster (.enc k m)) : Known t c' := by
  cases he with
  | idle he =>
    refine h.of_session fun s' hs' => ?_
    have hses : c'.session.map Session.core = c.session.map Session.core := congrArg Client.session he
    rw [hs', Option.map_some] at hses
    obtain ⟨s, hs, hss⟩ := Option.map_eq_some_iff.mp hses.symm
    exact ⟨s, hs, (congrArg Session.memberPubs hss).symm, (congrArg Session.firstOwnerPub hss).symm⟩
  | sendPlain m | sendConfirm _ _ res | sendMemberKey _ _ res | sendKey _ _ _ m => exact h.send _
  | openSession i hello hi =>
    intro s hs
    cases hs
    exact ⟨nofun, nofun⟩
  | firstKey hs hkeys =>
    rw [Client.firstKey_eq hs hkeys]
    exact pushKey (c := c.generateRoomKey.1) h _
  | teardown => simp [Known, Client.teardown_session]
  | invite token hs =>
    exact modify (c := c.draw.1) h _ fun _ _ => ⟨fun _ => .inl, fun _ => .inl⟩
  | learnJoiner hsId r ke d pub hs hrec hke hd' hpub ho id =>
    have hmem : ke ∈ Session.buffers _ :=
      Session.mem_buffers_ke hrec hke
    have hsrc := sourced_of_opened hkept (hc.buffer hk hs hmem) (hd d hd') hpub
    refine h.modify _ fun s _ => ⟨fun e he => ?_, fun _ => .inl⟩
    obtain rfl | he := JsMap.mem_set he
    · exact .inr hsrc
    · exact .inl he
  | learnOwner hsId r ke d pub hs hrec hke hd' hpub ho =>
    have hmem : ke ∈ Session.buffers _ :=
      Session.mem_buffers_ke hrec hke
    have hsrc := sourced_of_opened hkept (hc.buffer hk hs hmem) (hd d hd') hpub
    refine h.modify _ fun s _ => ⟨fun _ => .inl, fun p hp => ?_⟩
    cases hp
    exact .inr hsrc
  | seedOwner id pub hs hpub =>
    have hsrc := (h _ hs).2 pub hpub
    refine h.modify _ fun s _ => ⟨fun e he => ?_, fun _ => .inl⟩
    obtain rfl | he := JsMap.mem_set he
    · exact .inr hsrc
    · exact .inl he
  | mergeRoster k d json es hs hmem hd' ht hjson hes =>
    have hkey := hc.buffer hk hs (x := k) (by simp [Session.buffers, hmem])
    obtain rfl := openBytes_eq_some.mp hjson
    obtain ⟨kind, hkind⟩ := sealedAs_of_arrives hkept hkey (hd _ hd')
    obtain ⟨j, s', k', m, hm, hm', he⟩ := roster_of_sealedAs hkept
      (hroster _ _ hd' ht (by simp [reads, hes]) kind hkind)
    obtain rfl : json = jsonOf (rosterOf s') := by
      injection he
    refine h.modify _ fun s _ => ⟨fun e he' => ?_, fun _ => .inl⟩
    refine (mem_mergeRoster he').imp_right fun hmem' =>
      .inl ⟨j, s', k', e.1, m, hm, ?_, mem_of_jsonOf hes hmem'⟩
    rw [hm', he]
  | forget ids =>
    exact h.modify _ fun s _ => ⟨fun e he => .inl (List.mem_of_mem_filter he), fun _ => .inl⟩
  | rotate hs => exact pushKey (c := c.generateRoomKey.1) h _
  | takeKey pub d key => exact pushKey (c := (c.alloc key).1) h _
  | sendRoster k | chat k => exact send (c := c.noteSeal k none) h _
  | sendFileStart u up | sendChunk u up =>
    exact send (c := c.noteSeal up.key (some up.captured)) h _
  | offer token hsId memberId code hs hcode ha =>
    refine beginHandshake ?_ _ _ _ _ _
    exact h.modifySame _ fun _ => ⟨rfl, rfl⟩
  | accept token hsId code hs hcode ha =>
    exact beginHandshake (c := { c with pendingJoin := none }) h _ _ _ _ _
  | _ => first | exact h | exact h.modifySame _ fun _ => ⟨rfl, rfl⟩

end Known

theorem known_of_reach (h : tabs.Reach (fun t l => Carried t l ∧ Unrelabelled t l) t) (i : Nat) :
    Known t (t i) := by
  have hinit (i : Nat) : Known (tabs.init) (tabs.init i) := by
    intro s hs
    cases hs
  refine h.invariant (I := fun t => ∀ i, Known t (t i)) hinit ?_ i
  rintro t ⟨j, a⟩ t' hr ih ⟨hcarried, hlabel⟩ hstep i
  have hkept := kept_of_carried (hr.mono fun _ _ h => h.1)
  have hmono {c : Client} (hc : Known t c) : Known t' c := fun s hs =>
    ⟨fun e he => sourced_mono hstep ((hc s hs).1 e he),
      fun pub hp => sourced_mono hstep ((hc s hs).2 pub hp)⟩
  obtain ⟨c', hc', rfl⟩ := step_tabs hstep
  refine hmono ?_
  by_cases hi : i = j
  · subst hi
    rw [Function.update_self]
    have harrive (d : Data) (hd : a.payload = some d) : t.Arrives d := by
      cases a <;> simp only [Web.Act.payload, reduceCtorEq] at hd
      exact hcarried d (by simp [payloads, hd])
    have hroster (k m : Data) (hd : a.payload = some (.enc k m)) (ht : a.type = some .roster)
        (hm : reads .roster m = true) (kind : Kind) (hkind : t.sealedAs kind (.enc k m)) :
        t.sealedAs .roster (.enc k m) := by
      cases a <;> simp only [Web.Act.payload, reduceCtorEq] at hd
      refine hlabel .roster k m ?_ hm kind hkind
      simp [taken, Option.some.inj ht, hd]
    by_cases ha : ∃ u, a = .resume u
    · obtain ⟨u, rfl⟩ := ha
      obtain ⟨up, -, rfl⟩ := Option.map_eq_some_iff.mp hc'
      rw [Known, Client.resume_session]
      exact ih i
    · have hne (u : Nat) : a ≠ .resume u := fun hu => ha ⟨u, hu⟩
      have hinv := (step_effects hc').invariant
        (I := fun c => KeysOk False c ∧ Kept Fit c ∧ Known t c)
        (fun c c' hc he => ⟨hc.1.effect he False.elim,
          hc.2.1.effect fit_channel hc.1 he (fun d => fit_of_carried hkept hcarried)
            (code_of_carried hcarried) hne,
          hc.2.2.effect hkept hc.2.1 hc.1 he harrive hroster⟩) ⟨keysOk_tab hr i, hkept i, ih i⟩
      exact hinv.2.2
  · rw [Function.update_of_ne hi]
    exact ih i

/-! ## What is acted on -/

theorem payload_of_taken {msg : ServerMsg Data} {kind : Kind} {d : Data}
    (h : taken msg = some (kind, d)) : d ∈ payloads msg := by
  unfold taken at h
  split at h <;> simp_all [payloads]

/-- The key a tab tries holds key material, unless it is that of a transfer and has been zeroed. -/
theorem material_of_tries (htabs : tabs.Reach Carried r.tabs) {msg : ServerMsg Data} {k : Addr}
    {kind : Kind} (hk : (r i).tries msg k kind) : Material ((r i).client.read k) ∨
      kind = .fileChunk ∧ (∃ inc, (r i).awaits msg inc ∧ inc.key = k) ∧ (r i).client.read k = zeros := by
  have hkept := kept_of_carried htabs i
  have hheld (h : ∃ s, (r i).client.session = some s ∧ k ∈ s.keys) : Material ((r i).client.read k) := by
    obtain ⟨s, hs, hmem⟩ := h
    exact hkept.buffer (keysOk_tab htabs i) hs (x := k) (by simp [Session.buffers, hmem])
  cases kind with
  | fileChunk => exact (hkept.content k).symm.imp_right fun hz => ⟨rfl, hk, hz⟩
  | chat | roster | fileStart => exact .inl (hheld hk)

/-- Whatever a tab acts on, a client has sealed as what it is taken for; and every public key a tab
holds comes from a roster of `broadcastRoster` or was opened under a `Ke`. -/
theorem kinds_separate (h : receivers.Reach
    (fun r l => Carried r.tabs l ∧ Unrelabelled r.tabs l ∧ Unforged r l) r) :
    (∀ i, ∀ e ∈ (r i).acted, r.tabs.sealedAs e.kind e.envelope) ∧
      ∀ i s id pub, (r i).client.session = some s → JsMap.get id s.memberPubs = some pub →
        r.tabs.Sourced pub := by
  refine ⟨?_, fun i s id pub hs hpub => ?_⟩
  · refine h.invariant (I := fun r => ∀ i, ∀ e ∈ (r i).acted, r.tabs.sealedAs e.kind e.envelope)
      (fun i => nofun) ?_
    rintro r ⟨j, a⟩ r' hr ih ⟨hcarried, hlabel, hforged⟩ hstep i e he
    have hmono : r.tabs.sealedAs e.kind e.envelope → r'.tabs.sealedAs e.kind e.envelope :=
      sealedAs_mono (step_tabs_of_receivers hstep)
    have htabs : tabs.Reach Carried r.tabs := tabs_of_reach (hr.mono fun _ _ h => h.1)
    obtain ⟨x, hx, rfl⟩ := step_receivers hstep
    by_cases hi : i = j
    · subst hi
      rw [Function.update_self] at he
      obtain he | ⟨sock, msg, rfl, htaken, k, m, hk, -, henv, hm⟩ := acted_of_step hx he
      · exact hmono (ih i e he)
      · rw [henv] at htaken
        refine hmono (henv ▸ ?_)
        obtain hmat | ⟨hkind, ⟨inc, hinc, rfl⟩, hzero⟩ := material_of_tries htabs hk
        · -- the key held secret material, so only a client can have sealed the envelope
          obtain ⟨kind, hkind⟩ := sealedAs_of_arrives (kept_of_carried htabs) hmat
            (hcarried _ (payload_of_taken htaken))
          exact hlabel e.kind _ m htaken hm kind hkind
        · rw [hkind, hzero] at htaken ⊢
          exact hforged inc m hinc hzero htaken
    · rw [Function.update_of_ne hi] at he
      exact hmono (ih i e he)
  · have hknown := known_of_reach (tabs_of_reach (h.mono fun _ _ h => ⟨h.1, h.2.1⟩)) i
    exact (hknown s hs).1 _ (JsMap.mem_of_get hpub)

/-! ## A relay that leaves the types as they are -/

/-- One of the first two tabs has sealed and sent it as this kind. -/
def labelled (t : Tabs) (x : Kind × Data) : Prop :=
  ∃ i ∈ [0, 1], ∃ m ∈ (t i).outbox, sealedKind m.2 = some x

instance labelledDecidable (t : Tabs) (x : Kind × Data) : Decidable (labelled t x) :=
  have (i : Nat) : Decidable (∃ m ∈ (t i).outbox, sealedKind m.2 = some x) := inferInstance
  inferInstanceAs (Decidable (∃ i ∈ [0, 1], ∃ m ∈ (t i).outbox, sealedKind m.2 = some x))

/-- What the event takes an envelope for. -/
def takenBy : Web.Act → Option (Kind × Data)
  | .message _ msg => taken msg
  | _ => none

def Typed (t : Tabs) (l : Nat × Web.Act) : Prop :=
  match takenBy l.2 with
  | some x => labelled t x
  | none => True

instance typedDecidable (t : Tabs) (l : Nat × Web.Act) : Decidable (Typed t l) := by
  unfold Typed
  split
  · exact labelledDecidable _ _
  · exact instDecidableTrue

theorem carried_of_forwards {l : Nat × Web.Act} (h : Forwards t l) : Carried t l := by
  obtain ⟨i, a⟩ := l
  cases a with
  | message sock msg =>
    intro d hd
    obtain ⟨j, -, m, hm, hdm⟩ := h d hd
    exact .inl ⟨j, m, hm, hdm⟩
  | join token code nick session => exact h
  | _ => trivial

theorem unrelabelled_of_forwards {l : Nat × Web.Act} (h : Typed t l) : Unrelabelled t l := by
  obtain ⟨i, a⟩ := l
  cases a with
  | message sock msg =>
    rintro kind k x htaken - - -
    simp only [Typed, takenBy, htaken] at h
    obtain ⟨j, -, m, hm, hk⟩ := h
    exact ⟨j, m, hm, hk⟩
  | _ => trivial

theorem unforged_of_forwards {l : Nat × Web.Act} (h : Typed r.tabs l) : Unforged r l := by
  obtain ⟨i, a⟩ := l
  cases a with
  | message sock msg =>
    rintro inc m - - htaken
    simp only [Typed, takenBy, htaken] at h
    obtain ⟨j, -, m', hm, hk⟩ := h
    exact ⟨j, m', hm, hk⟩
  | _ => trivial

/-- Tab 1 shows the text that tab 0 has written. -/
def sampleChat : List (Nat × Web.Act) :=
  sampleJoin ++ [(1, .message 0 { type := .chat, nick := some "ann"
                                  body := some (encryptMessage (.name (Name.mk 1 4)) (.name (Name.mk 1 99))) })]

theorem kinds_separate_sample :
    let r := (receivers.runFrom (fun r l => Forwards r.tabs l ∧ Typed r.tabs l) receivers.init
      sampleChat).get (by decide +kernel)
    ∀ e ∈ (r 1).acted, r.tabs.sealedAs e.kind e.envelope :=
  (kinds_separate ((Lib.Machine.reach_get (by decide +kernel)).mono fun _ _ h =>
    ⟨carried_of_forwards h.1, unrelabelled_of_forwards h.2, unforged_of_forwards h.2⟩)).1 1

/-! ## A text that is taken for a roster -/

/-- Tab 0 writes a text that reads as a roster, in which the member 9 has somebody else's key, and the
relay hands it to tab 1 as one. -/
def relabelledText : List (Nat × Web.Act) :=
  let text := jsonOf [(9, bytesToB64url (.pub (Name.mk 0 5)))]
  sampleJoin ++ [(0, .submit (some text) none),
    (1, .message 0 { type := .roster, data := some (encryptMessage (.name (Name.mk 1 4)) text) })]

/-- Tabs that have done nothing are as they were. -/
theorem untouched {okr : Receivers → Nat × Web.Act → Prop} [∀ r l, Decidable (okr r l)]
    {as : List (Nat × Web.Act)} (h : receivers.runFrom okr r as = some r') (hi : ∀ l ∈ as, l.1 ≠ i) :
    r' i = r i := by
  induction as generalizing r with
  | nil =>
    cases h
    rfl
  | cons l as ih =>
    simp only [Lib.Machine.runFrom] at h
    split at h
    · obtain ⟨r₁, hr₁, h⟩ := Option.bind_eq_some_iff.mp h
      obtain ⟨x, -, rfl⟩ := step_receivers hr₁
      rw [ih h fun l hl => hi l (List.mem_cons_of_mem _ hl)]
      exact Function.update_of_ne (hi l List.mem_cons_self).symm _ _
    · simp at h

/-- The frame is a roster, or brings `pub` under a `Ke`. -/
def brings (pub : Data) : ClientMsg Data → Bool
  | .roster _ => true
  | .memberKey _ (.enc _ d) => d = bytesToB64url pub
  | _ => false

theorem brings_of_sourced {pub : Data} (h : t.Sourced pub) :
    ∃ i, ∃ m ∈ (t i).outbox, brings pub m.2 = true := by
  obtain ⟨i, s, k, id, m, hm, he, -⟩ | ⟨i, hsId, ke, m, hm, he⟩ := h
  · exact ⟨i, m, hm, by rw [he]; rfl⟩
  · exact ⟨i, m, hm, by rw [he]; simp [brings, sealUnderKe, encryptMessage, sealBytes]⟩

/-- The text is merged as a roster, though nobody has sealed it as one, and tab 1 holds a public key
that no roster and no member has brought. -/
theorem forged_roster : ∃ r, receivers.Reach (fun r l => Carried r.tabs l) r ∧
    (∃ i, ∃ e ∈ (r i).acted, e.key ≠ zeros ∧ ¬ r.tabs.sealedAs e.kind e.envelope) ∧
      ∃ i s id pub, (r i).client.session = some s ∧ JsMap.get id s.memberPubs = some pub ∧
        ¬ r.tabs.Sourced pub := by
  let d : Data := encryptMessage (.name (Name.mk 1 4)) (jsonOf [(9, bytesToB64url (.pub (Name.mk 0 5)))])
  have h : ∃ r, receivers.runFrom (fun r l => Forwards r.tabs l) receivers.init relabelledText = some r ∧
      ⟨.roster, .name (Name.mk 1 4), d⟩ ∈ (r 1).acted ∧
      (∀ m ∈ (r 0).client.outbox ++ (r 1).client.outbox, sealedKind m.2 ≠ some (.roster, d) ∧
        brings (.pub (Name.mk 0 5)) m.2 = false) ∧
      ((r 1).client.session.bind fun s => JsMap.get 9 s.memberPubs) = some (.pub (Name.mk 0 5)) := by
    refine ⟨_, (Option.some_get (by decide +kernel)).symm, ?_⟩
    decide +kernel
  obtain ⟨r, hrun, hacted, hout, hpub⟩ := h
  have hreach := (Lib.Machine.reach_of_runFrom .init hrun).mono fun _ _ => carried_of_forwards
  have hall (i : Nat) (m : Nat × ClientMsg Data) (hm : m ∈ (r i).client.outbox) :
      sealedKind m.2 ≠ some (.roster, d) ∧ brings (.pub (Name.mk 0 5)) m.2 = false := by
    match i with
    | 0 => exact hout m (List.mem_append_left _ hm)
    | 1 => exact hout m (List.mem_append_right _ hm)
    | i + 2 =>
      have hlabels : ∀ l ∈ relabelledText, l.1 < 2 := by decide +kernel
      rw [untouched hrun fun l hl he => absurd (hlabels l hl) (by omega)] at hm
      cases hm
  obtain ⟨s, hs, hget⟩ := Option.bind_eq_some_iff.mp hpub
  refine ⟨r, hreach, ⟨1, _, hacted, by decide, ?_⟩, 1, s, 9, _, hs, hget, fun hsrc => ?_⟩
  · rintro ⟨i, m, hm, hk⟩
    exact (hall i m hm).1 hk
  · obtain ⟨i, m, hm, hb⟩ := brings_of_sourced hsrc
    exact Bool.false_ne_true ((hall i m hm).2.symm.trans hb)

end E2EAnon.Net
