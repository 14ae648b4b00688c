import E2EAnon.Web.Effect
import E2EAnon.Web.Exchange

/-!
# One guess for each code (`main.ts:332-395`)

`begins` is the `HandshakeSession` that an event starts: the owner's takes its code out of
`pendingInvites`, the joiner's takes the invite out of `pendingJoin`. `one_guess` puts that together
with what a session can do in its life (`Exchange.one_shot`), for every sequence of events and
frames.
-/

namespace E2EAnon.Web

open Lib

/-- A `HandshakeSession` that has been started. -/
structure Begun where
  role : PakeRole
  code : Data
  hsId : Handle
deriving DecidableEq

/-- The session an event starts. -/
def Client.begins (c : Client) : Act → Option Begun
  | .message _ msg =>
    match msg.type with
    | .inviteRedeemed =>
      match c.session, given msg.handshake, given msg.token, given msg.memberId with
      | some s, some hsId, some token, some _ =>
        (JsMap.get token s.pendingInvites).map fun code => ⟨.A, code, hsId⟩
      | _, _, _, _ => none
    | .redeemOk =>
      match c.session, given msg.handshake, c.pendingJoin with
      | some _, some hsId, some (_, code) => some ⟨.B, code, hsId⟩
      | _, _, _ => none
    | _ => none
  | _ => none

/-- The user submits an invite. -/
def Act.isJoin : Act → Bool
  | .join _ _ _ _ => true
  | _ => false

/-- The sessions a run starts, the first one first. -/
def begun (l : List (Machine.Transition Client Act)) : List Begun :=
  l.filterMap fun t => t.before.begins t.label

/-- The code stands in `pendingInvites` under the token. -/
def Client.Pends (c : Client) (token : Handle) (code : Data) : Prop :=
  ∃ s, c.session = some s ∧ JsMap.get token s.pendingInvites = some code

/-- The codes of the owner's sessions. -/
def ownerCodes (bs : List Begun) : List Data :=
  bs.filterMap fun b => if b.role = .A then some b.code else none

/-- The joiner's sessions. -/
def joinerSessions (bs : List Begun) : List Begun := bs.filter fun b => b.role = .B

variable {a : Act} {c₀ c c' : Client}

/-! ## The maps of a session under the effects -/

theorem session_of_core {c c' : Client} (h : c'.core = c.core) {s' : Session}
    (hs' : c'.session = some s') : ∃ s, c.session = some s ∧
      s'.pendingInvites = s.pendingInvites ∧ s'.handshakes = s.handshakes := by
  have hcore : c'.session.map Session.core = c.session.map Session.core :=
    congrArg Client.session h
  rw [hs', Option.map_some] at hcore
  obtain ⟨s, hs, he⟩ := Option.map_eq_some_iff.mp hcore.symm
  exact ⟨s, hs, (congrArg Session.pendingInvites he).symm, (congrArg Session.handshakes he).symm⟩

theorem pushKey_maps {k : Addr} {s' : Session} (hs' : (c.pushKey k).session = some s') :
    ∃ s, c.session = some s ∧ s'.pendingInvites = s.pendingInvites ∧
      s'.handshakes = s.handshakes := by
  cases hs : c.session with
  | none => simp [Client.pushKey, hs] at hs'
  | some s =>
    rw [Client.pushKey_session hs] at hs'
    cases hs'
    exact ⟨s, rfl, rfl, rfl⟩

theorem beginHandshake_session (c : Client) (pr : PakeRole) (role : HsRole) (code : Data)
    (hsId joinerId : Handle) : (c.beginHandshake pr role code hsId joinerId).session =
      c.session.map (·.setHandshake hsId
        { hs := HandshakeSession.new pr code hsId c.draw.2, role, joinerMemberId := joinerId }) := by
  simp [Client.beginHandshake, Client.draw]

@[simp] theorem Client.send_pendingJoin (c : Client) (m : ClientMsg Data) :
    (c.send m).pendingJoin = c.pendingJoin := by
  unfold send
  split
  · split <;> rfl
  · rfl

@[simp] theorem Client.teardown_pendingJoin (c : Client) : c.teardown.pendingJoin = none := by
  unfold teardown
  split <;> rfl

@[simp] theorem Client.pushKey_pendingJoin (c : Client) (k : Addr) :
    (c.pushKey k).pendingJoin = c.pendingJoin := by
  unfold pushKey
  split <;> rfl

/-- The invites and the handshakes of a session are those of the session before. -/
def SameMaps (c c' : Client) : Prop :=
  ∀ s', c'.session = some s' → ∃ s, c.session = some s ∧
    s'.pendingInvites = s.pendingInvites ∧ s'.handshakes = s.handshakes

theorem sameMaps_modify {f : Session → Session} (hp : ∀ s, (f s).pendingInvites = s.pendingInvites)
    (hh : ∀ s, (f s).handshakes = s.handshakes) : SameMaps c (c.modify f) := by
  intro s' hs'
  obtain ⟨s, hs, rfl⟩ := Option.map_eq_some_iff.mp hs'
  exact ⟨s, hs, hp s, hh s⟩

theorem sameMaps_of_eq (h : c'.session = c.session) : SameMaps c c' :=
  fun s' hs' => ⟨s', h ▸ hs', rfl, rfl⟩

/-- What an effect does to the two maps, if it starts no session. -/
inductive MapStep (c c' : Client) : Prop
  | same (h : SameMaps c c')
  | gone (h : ∀ s', c'.session = some s' → s'.pendingInvites = [] ∧ s'.handshakes = [])
  | invited (token : Handle) (hd : c.draws < c'.draws)
      (h : c'.session = c.session.map fun s => { s with
        pendingInvites := JsMap.set token (.name (Name.mk c.who c.draws)) s.pendingInvites })
  | fed (hsId : Handle) (r r' : HsRecord) (s : Session) (hs : c.session = some s)
      (hr : JsMap.get hsId s.handshakes = some r)
      (hr' : r'.hs = r.hs ∨ ∃ d, r'.hs = (r.hs.onData d).1)
      (h : c'.session = some (s.setHandshake hsId r'))
  | ended (hsId : Handle) (h : c'.session = c.session.map (·.deleteHandshake hsId))

/-- The event is one that can start a session. -/
def Act.starts (a : Act) : Prop :=
  a.type = some .inviteRedeemed ∨ a.type = some .redeemOk

theorem Effect.maps (h : Effect a c₀ c c') (ha : ¬ a.starts) : MapStep c c' := by
  cases h with
  | idle h => exact .same fun s' hs' => session_of_core h hs'
  | sendPlain m | sendConfirm _ _ res | sendMemberKey _ _ res | sendKey _ _ _ m =>
    exact .same (sameMaps_of_eq (by simp))
  | openSession i hello h =>
    refine .gone fun s' hs' => ?_
    simp only [Client.openSession, Client.generateKeyPair, Client.draw, Client.alloc,
      Option.some.injEq] at hs'
    simp [← hs']
  | firstKey hs hk =>
    rw [Client.firstKey_eq hs hk]
    exact .same fun s' hs' => pushKey_maps (c := c.generateRoomKey.1) hs'
  | teardown => exact .gone fun s' hs' => by simp at hs'
  | invite token hs => exact .invited token (by simp [Client.modify, Client.draw]) rfl
  | offer token hsId memberId code hs hc hmsg =>
    obtain ⟨sock, msg, rfl, ht, -⟩ := hmsg
    exact absurd (.inl (congrArg some ht)) ha
  | accept token hsId code hs hj hmsg =>
    obtain ⟨sock, msg, rfl, ht, -⟩ := hmsg
    exact absurd (.inr (congrArg some ht)) ha
  | pake hsId r d hs hr hd =>
    exact .fed hsId r { r with hs := (r.hs.onData d).1 } _ hs hr (.inr ⟨d, rfl⟩) (by simp [hs])
  | confirmed hsId r res hs hr hres =>
    exact .fed hsId r { r with ke := some c.brk } _ hs hr (.inl rfl)
      (by simp [Client.modify, Client.alloc, hs])
  | endHandshake hsId => exact .ended hsId rfl
  | park hsId r d hs hr hd =>
    exact .fed hsId r { r with pendingKeyDeliver := some d } _ hs hr (.inl rfl) (by simp [hs])
  | wipeKe hsId r hs hr => exact .ended hsId rfl
  | learnJoiner | learnOwner | seedOwner | mergeRoster | forget =>
    exact .same (sameMaps_modify (fun _ => rfl) fun _ => rfl)
  | rotate hs => exact .same fun s' hs' => pushKey_maps (c := c.generateRoomKey.1) hs'
  | takeKey pub d key hs => exact .same fun s' hs' => pushKey_maps (c := (c.alloc key).1) hs'
  | sendRoster | chat | sendFileStart => exact .same (sameMaps_of_eq (by simp))
  | sendChunk u up i h hu => exact .same (sameMaps_of_eq (Client.sendChunk_session c u up i))
  | opened | beginConnect | dropJoin | submitInvite | beginUpload | endUpload =>
    exact .same (sameMaps_of_eq rfl)

/-! ## The start of a session -/

/-- What an event does that starts the session `b`. -/
inductive Starts (b : Begun) (c c' : Client) : Prop
  | owner (s : Session) (token memberId : Handle) (hs : c.session = some s) (hb : b.role = .A)
      (hcode : JsMap.get token s.pendingInvites = some b.code)
      (h : c'.session = some { s with
        pendingInvites := JsMap.delete token s.pendingInvites
        handshakes := JsMap.set b.hsId
          { hs := HandshakeSession.new .A b.code b.hsId c.draw.2, role := .owner
            joinerMemberId := memberId } s.handshakes })
  | joiner (s : Session) (token memberId : Handle) (hs : c.session = some s) (hb : b.role = .B)
      (hcode : c.pendingJoin = some (token, b.code)) (hjoin : c'.pendingJoin = none)
      (h : c'.session = some { s with
        memberId
        handshakes := JsMap.set b.hsId
          { hs := HandshakeSession.new .B b.code b.hsId c.draw.2, role := .joiner } s.handshakes })

theorem onInviteRedeemed_starts (sock : Nat) {msg : ServerMsg Data}
    (ht : msg.type = .inviteRedeemed) :
    (c.begins (.message sock msg) = none ∧ c.onInviteRedeemed msg = c) ∨
      ∃ b, c.begins (.message sock msg) = some b ∧ Starts b c (c.onInviteRedeemed msg) := by
  simp only [Client.begins, ht]
  fun_cases Client.onInviteRedeemed c msg with
  | case1 s hsId token memberId h₁ h₂ h₃ hs hcode =>
    exact .inl ⟨by simp [hs, h₁, h₂, h₃, hcode], rfl⟩
  | case2 s hsId token memberId h₁ h₂ h₃ hs code hcode =>
    refine .inr ⟨⟨.A, code, hsId⟩, by simp [hs, h₁, h₂, h₃, hcode],
      .owner s token memberId hs rfl hcode ?_⟩
    simp [beginHandshake_session, hs, Client.draw, Client.modify, Session.setHandshake]
  | case3 hno =>
    refine .inl ⟨?_, rfl⟩
    split
    · rename_i s hsId token memberId h₁ h₂ h₃ h₄
      exact absurd h₄ (hno s hsId token memberId h₁ h₂ h₃)
    · rfl

theorem onRedeemOk_starts (sock : Nat) {msg : ServerMsg Data} (ht : msg.type = .redeemOk) :
    (c.begins (.message sock msg) = none ∧ c.onRedeemOk msg = c) ∨
      ∃ b, c.begins (.message sock msg) = some b ∧ Starts b c (c.onRedeemOk msg) := by
  simp only [Client.begins, ht]
  fun_cases Client.onRedeemOk c msg with
  | case1 s hsId token code hj h₁ hs =>
    refine .inr ⟨⟨.B, code, hsId⟩, by simp [hs, h₁, hj],
      .joiner s token (msg.memberId.getD empty) hs rfl hj ?_ ?_⟩
    · simp [Client.beginHandshake, Client.draw, Client.modify]
    · simp [beginHandshake_session, hs, Client.draw, Client.modify, Session.setHandshake]
  | case2 hno =>
    refine .inl ⟨?_, rfl⟩
    split
    · rename_i s hsId token code h₁ h₂ h₃
      exact absurd h₃ (hno s hsId token code h₁ h₂)
    · rfl

theorem begins_eq_none (ha : ¬ a.starts) : c.begins a = none := by
  unfold Client.begins
  split
  · rename_i sock msg
    split
    · rename_i ht
      exact absurd (.inl (congrArg some ht)) ha
    · rename_i ht
      exact absurd (.inr (congrArg some ht)) ha
    · rfl
  · rfl

/-- An effect that starts no session. -/
def Quiet (c c' : Client) : Prop := MapStep c c' ∧ c.draws ≤ c'.draws ∧ c'.who = c.who

theorem step_starts (h : c.step a = some c') :
    (c.begins a = none ∧ Relation.ReflTransGen Quiet c c') ∨
      ∃ b, c.begins a = some b ∧ Starts b c c' := by
  by_cases ha : a.starts
  · obtain ⟨sock, msg, rfl⟩ : ∃ sock msg, a = .message sock msg := by
      cases a with
      | message sock msg => exact ⟨sock, msg, rfl⟩
      | _ => simp [Act.starts, Act.type] at ha
    simp only [Client.step] at h
    split at h
    · cases h
      simp only [Act.starts, Act.type, Option.some.injEq] at ha
      rcases ha with ht | ht <;> simp only [Client.onMessage, ht]
      · obtain ⟨hb, he⟩ | hb := onInviteRedeemed_starts (c := c) sock ht
        · exact .inl ⟨hb, by rw [he]⟩
        · exact .inr hb
      · obtain ⟨hb, he⟩ | hb := onRedeemOk_starts (c := c) sock ht
        · exact .inl ⟨hb, by rw [he]⟩
        · exact .inr hb
    · cases h
  · exact .inl ⟨begins_eq_none ha, Relation.ReflTransGen.mono
      (fun _ _ he => ⟨he.maps ha, he.draws⟩) _ _ (step_effects h)⟩

/-! ## Codes -/

theorem MapStep.pends (h : MapStep c c') : ∃ token, ∀ t code, c'.Pends t code →
    c.Pends t code ∨ (c.draws < c'.draws ∧ t = token ∧ code = .name (Name.mk c.who c.draws)) := by
  cases h with
  | same h =>
    refine ⟨empty, fun t code hp => .inl ?_⟩
    obtain ⟨s', hs', hcode⟩ := hp
    obtain ⟨s, hs, hpi, -⟩ := h s' hs'
    exact ⟨s, hs, hpi ▸ hcode⟩
  | gone h =>
    refine ⟨empty, fun t code hp => ?_⟩
    obtain ⟨s', hs', hcode⟩ := hp
    simp [(h s' hs').1] at hcode
  | invited token hd h =>
    refine ⟨token, fun t code hp => ?_⟩
    obtain ⟨s', hs', hcode⟩ := hp
    obtain ⟨s, hs, rfl⟩ := Option.map_eq_some_iff.mp (h ▸ hs')
    simp only [JsMap.get_set] at hcode
    split at hcode
    · rename_i ht
      cases hcode
      exact .inr ⟨hd, ht.symm, rfl⟩
    · exact .inl ⟨s, hs, hcode⟩
  | fed hsId r r' s hs hr hr' h =>
    refine ⟨empty, fun t code hp => .inl ?_⟩
    obtain ⟨s', hs', hcode⟩ := hp
    cases h.symm.trans hs'
    exact ⟨s, hs, hcode⟩
  | ended hsId h =>
    refine ⟨empty, fun t code hp => .inl ?_⟩
    obtain ⟨s', hs', hcode⟩ := hp
    obtain ⟨s, hs, rfl⟩ := Option.map_eq_some_iff.mp (h ▸ hs')
    exact ⟨s, hs, hcode⟩

/-- The value is one of the tab's draws. -/
def Client.Drew (c : Client) (v : Data) : Prop := ∃ i < c.draws, v = .name (Name.mk c.who i)

theorem Client.Drew.mono {v : Data} (h : c.Drew v) (hd : c.draws ≤ c'.draws) (hw : c'.who = c.who) :
    c'.Drew v := by
  obtain ⟨i, hi, rfl⟩ := h
  exact ⟨i, hi.trans_le hd, by rw [hw]⟩

theorem Client.not_drew_next (c : Client) : ¬ c.Drew (.name (Name.mk c.who c.draws)) := by
  rintro ⟨i, hi, he⟩
  have hidx : c.draws = i := congrArg Name.idx (Term.name.inj he)
  omega

/-- The codes of the sessions `bs` are spent: no two are the same, and none is pending. -/
structure Spent (bs : List Begun) (c : Client) : Prop where
  drawn : ∀ token code, c.Pends token code → c.Drew code
  one : ∀ token token' code, c.Pends token code → c.Pends token' code → token = token'
  spent : ∀ code ∈ ownerCodes bs, c.Drew code ∧ ∀ token, ¬ c.Pends token code
  nodup : (ownerCodes bs).Nodup

theorem Spent.quiet {bs : List Begun} (h : Spent bs c) (hq : Quiet c c') : Spent bs c' := by
  obtain ⟨hstep, hd, hw⟩ := hq
  obtain ⟨token, hp⟩ := hstep.pends
  have hnew : ∀ {t code}, c'.Pends t code → c.Drew code → c.Pends t code := by
    intro t code ht hcode
    obtain ht | ⟨-, -, rfl⟩ := hp t code ht
    · exact ht
    · exact absurd hcode c.not_drew_next
  refine ⟨fun t code ht => ?_, fun t t' code ht ht' => ?_, fun code hcode => ?_, h.nodup⟩
  · obtain ht | ⟨hlt, -, rfl⟩ := hp t code ht
    · exact (h.drawn t code ht).mono hd hw
    · exact ⟨c.draws, hlt, by rw [hw]⟩
  · obtain hold | ⟨hlt, rfl, rfl⟩ := hp t code ht
    · exact h.one t t' code hold (hnew ht' (h.drawn t code hold))
    · obtain hold' | ⟨-, rfl, -⟩ := hp t' _ ht'
      · exact absurd (h.drawn t' _ hold') c.not_drew_next
      · rfl
  · obtain ⟨hdrew, hno⟩ := h.spent code hcode
    exact ⟨hdrew.mono hd hw, fun t ht => hno t (hnew ht hdrew)⟩

theorem ownerCodes_append (bs : List Begun) (b : Begun) :
    ownerCodes (bs ++ [b]) = ownerCodes bs ++ if b.role = .A then [b.code] else [] := by
  unfold ownerCodes
  split <;> simp [*]

theorem Spent.starts {bs : List Begun} {b : Begun} (h : Spent bs c) (hs : Starts b c c')
    (hd : c.draws ≤ c'.draws) (hw : c'.who = c.who) : Spent (bs ++ [b]) c' := by
  cases hs with
  | owner s token memberId hs hb hcode h' =>
    have hpend : c.Pends token b.code := ⟨s, hs, hcode⟩
    -- the entry of the code is gone, the others are as before
    have hp : ∀ {t code}, c'.Pends t code → c.Pends t code ∧ t ≠ token := by
      rintro t code ⟨s', hs', ht⟩
      cases h'.symm.trans hs'
      simp only [JsMap.get_delete] at ht
      split at ht
      · cases ht
      · rename_i hne
        exact ⟨⟨s, hs, ht⟩, fun he => hne he.symm⟩
    have hgone : ∀ t, ¬ c'.Pends t b.code := fun t ht =>
      (hp ht).2 (h.one t token b.code (hp ht).1 hpend)
    refine ⟨fun t code ht => (h.drawn t code (hp ht).1).mono hd hw,
      fun t t' code ht ht' => h.one t t' code (hp ht).1 (hp ht').1, fun code hcode => ?_, ?_⟩
    · simp only [ownerCodes_append, hb, if_true, List.mem_append, List.mem_singleton] at hcode
      obtain hcode | rfl := hcode
      · obtain ⟨hdrew, hno⟩ := h.spent code hcode
        exact ⟨hdrew.mono hd hw, fun t ht => hno t (hp ht).1⟩
      · exact ⟨(h.drawn token b.code hpend).mono hd hw, hgone⟩
    · simp only [ownerCodes_append, hb, if_true]
      refine List.nodup_append.mpr ⟨h.nodup, List.nodup_singleton _, ?_⟩
      rintro x hx y hy rfl
      obtain rfl := List.mem_singleton.mp hy
      exact (h.spent b.code hx).2 token hpend
  | joiner s token memberId hs hb hcode hjoin h' =>
    have hp : ∀ {t code}, c'.Pends t code → c.Pends t code := by
      rintro t code ⟨s', hs', ht⟩
      cases h'.symm.trans hs'
      exact ⟨s, hs, ht⟩
    have hcodes : ownerCodes (bs ++ [b]) = ownerCodes bs := by simp [ownerCodes_append, hb]
    refine ⟨fun t code ht => (h.drawn t code (hp ht)).mono hd hw,
      fun t t' code ht ht' => h.one t t' code (hp ht) (hp ht'), fun code hcode => ?_,
      hcodes ▸ h.nodup⟩
    obtain ⟨hdrew, hno⟩ := h.spent code (hcodes ▸ hcode)
    exact ⟨hdrew.mono hd hw, fun t ht => hno t (hp ht)⟩

/-! ## The life of a session -/

/-- The record of a handshake. -/
def Client.record (c : Client) (hsId : Handle) : Option HsRecord :=
  c.session.bind fun s => JsMap.get hsId s.handshakes

/-- Every session of `c'` was one of `c`, and has been called since. -/
def Continues (c c' : Client) : Prop := ∀ hsId r', c'.record hsId = some r' →
  ∃ r ds, c.record hsId = some r ∧ r'.hs = r.hs.feed ds

theorem Continues.trans {c'' : Client} (h : Continues c c') (h' : Continues c' c'') :
    Continues c c'' := by
  intro hsId r'' hr''
  obtain ⟨r', ds', hr', he'⟩ := h' hsId r'' hr''
  obtain ⟨r, ds, hr, he⟩ := h hsId r' hr'
  exact ⟨r, ds ++ ds', hr, by rw [he', he, HandshakeSession.feed_append]⟩

theorem MapStep.continues (h : MapStep c c') : Continues c c' := by
  intro hsId r' hr'
  obtain ⟨s', hs', hr'⟩ := Option.bind_eq_some_iff.mp hr'
  cases h with
  | same h =>
    obtain ⟨s, hs, -, hhs⟩ := h s' hs'
    exact ⟨r', [], by simp [Client.record, hs, ← hhs, hr'], rfl⟩
  | gone h => simp [(h s' hs').2] at hr'
  | invited token hd h =>
    obtain ⟨s, hs, rfl⟩ := Option.map_eq_some_iff.mp (h ▸ hs')
    exact ⟨r', [], by simpa [Client.record, hs] using hr', rfl⟩
  | fed hsId' r r₁ s hs hr hr₁ h =>
    cases h.symm.trans hs'
    simp only [Session.setHandshake_handshakes, JsMap.get_set] at hr'
    split at hr'
    · rename_i he
      cases he
      cases hr'
      obtain hsame | ⟨d, hfed⟩ := hr₁
      · exact ⟨r, [], by simpa [Client.record, hs] using hr, hsame⟩
      · exact ⟨r, [d], by simpa [Client.record, hs] using hr, hfed⟩
    · exact ⟨r', [], by simpa [Client.record, hs] using hr', rfl⟩
  | ended hsId' h =>
    obtain ⟨s, hs, rfl⟩ := Option.map_eq_some_iff.mp (h ▸ hs')
    simp only [Session.deleteHandshake_handshakes, JsMap.get_delete] at hr'
    split at hr'
    · cases hr'
    · exact ⟨r', [], by simpa [Client.record, hs] using hr', rfl⟩

theorem continues_quiet (h : Relation.ReflTransGen Quiet c c') : Continues c c' := by
  induction h with
  | refl => exact fun hsId r hr => ⟨r, [], hr, rfl⟩
  | tail _ hq ih => exact ih.trans hq.1.continues

/-- The object of the session that was started. -/
def Begun.object (b : Begun) (x : Data) : HandshakeSession :=
  HandshakeSession.new b.role b.code b.hsId x

/-- Between two states an object is called, or it is the one that was just made. -/
def Lives (a : Act) (c c' : Client) : Prop := ∀ hsId r', c'.record hsId = some r' →
  (∃ r ds, c.record hsId = some r ∧ r'.hs = r.hs.feed ds) ∨
    ∃ b, c.begins a = some b ∧ b.hsId = hsId ∧ r'.hs = b.object c.draw.2

theorem Starts.record {b : Begun} (h : Starts b c c') (hsId : Handle) :
    (b.hsId ≠ hsId ∧ c'.record hsId = c.record hsId) ∨
      ∃ r', b.hsId = hsId ∧ c'.record hsId = some r' ∧ r'.hs = b.object c.draw.2 := by
  by_cases hid : b.hsId = hsId
  · refine .inr ?_
    cases h with
    | owner s token memberId hs hb hcode h' =>
      exact ⟨_, hid, by simp [Client.record, h', hid]; rfl, by rw [Begun.object, hb, hid]⟩
    | joiner s token memberId hs hb hcode hjoin h' =>
      exact ⟨_, hid, by simp [Client.record, h', hid]; rfl, by rw [Begun.object, hb, hid]⟩
  · refine .inl ⟨hid, ?_⟩
    cases h with
    | owner s token memberId hs hb hcode h' => simp [Client.record, h', hs, hid]
    | joiner s token memberId hs hb hcode hjoin h' => simp [Client.record, h', hs, hid]

theorem step_lives (h : c.step a = some c') : Lives a c c' := by
  intro hsId r' hr'
  obtain ⟨-, hq⟩ | ⟨b, hb, hs⟩ := step_starts h
  · exact .inl (continues_quiet hq hsId r' hr')
  · obtain ⟨-, he⟩ | ⟨r, hid, hr, ho⟩ := hs.record hsId
    · exact .inl ⟨r', [], he ▸ hr', rfl⟩
    · cases hr.symm.trans hr'
      exact .inr ⟨b, hb, hid, ho⟩

/-! ## The invite of the user -/

theorem Effect.pendingJoin (h : Effect a c₀ c c') (ha : a.isJoin = false) :
    c'.pendingJoin = none ∨ c'.pendingJoin = c.pendingJoin := by
  cases h with
  | idle h =>
    have hcore : c'.core.pendingJoin = c.core.pendingJoin := congrArg Client.pendingJoin h
    exact .inr hcore
  | dropJoin => exact .inl rfl
  | submitInvite token code nick session he => simp [he, Act.isJoin] at ha
  | teardown => exact .inl c.teardown_pendingJoin
  | accept => exact .inl (by simp [Client.beginHandshake, Client.draw, Client.modify])
  | offer => exact .inr (by simp [Client.beginHandshake, Client.draw, Client.modify])
  | firstKey hs hk =>
    exact .inr (by simp [Client.firstKey_eq hs hk, Client.generateRoomKey, Client.draw, Client.alloc])
  | rotate | takeKey => exact .inr (by simp [Client.generateRoomKey, Client.draw, Client.alloc])
  | sendPlain | sendConfirm | sendMemberKey | sendKey | sendRoster | chat | sendFileStart | sendChunk =>
    exact .inr (by simp [Client.sendChunk, Client.noteSeal])
  | _ => exact .inr rfl

theorem step_pendingJoin (h : c.step a = some c') (ha : a.isJoin = false) :
    c'.pendingJoin = none ∨ c'.pendingJoin = c.pendingJoin :=
  (step_effects h).invariant
    (I := fun x => x.pendingJoin = none ∨ x.pendingJoin = c.pendingJoin)
    (fun _ _ hx he => (he.pendingJoin ha).elim .inl fun hsame => hsame ▸ hx) (.inr rfl)

/-- What has become of the submission `j`: it waits, it is void, or it has been used. -/
def Submission (j : Option (Handle × Data)) (bs : List Begun) (c : Client) : Prop :=
  (bs = [] ∧ (c.pendingJoin = none ∨ c.pendingJoin = j)) ∨
    ∃ token code hsId, j = some (token, code) ∧ bs = [⟨.B, code, hsId⟩] ∧ c.pendingJoin = none

theorem joinerSessions_append (bs : List Begun) (o : Option Begun) :
    joinerSessions (bs ++ o.toList) = joinerSessions bs ++ joinerSessions o.toList := by
  simp [joinerSessions]

theorem Submission.step {j : Option (Handle × Data)} {bs : List Begun}
    (h : Submission j (joinerSessions bs) c) (hc : c.step a = some c') (ha : a.isJoin = false) :
    Submission j (joinerSessions (bs ++ (c.begins a).toList)) c' := by
  have hkeep : joinerSessions (c.begins a).toList = [] →
      Submission j (joinerSessions (bs ++ (c.begins a).toList)) c' := by
    intro hnone
    rw [joinerSessions_append, hnone, List.append_nil]
    obtain ⟨hbs, hj⟩ | ⟨token, code, hsId, hj, hbs, hnone⟩ := h
    · refine .inl ⟨hbs, ?_⟩
      obtain hc' | hc' := step_pendingJoin hc ha
      · exact .inl hc'
      · exact hc' ▸ hj
    · refine .inr ⟨token, code, hsId, hj, hbs, ?_⟩
      obtain hc' | hc' := step_pendingJoin hc ha
      · exact hc'
      · exact hc'.trans hnone
  obtain ⟨hb, -⟩ | ⟨b, hb, hs⟩ := step_starts hc
  · exact hkeep (by simp [hb, joinerSessions])
  · cases hs with
    | owner s token memberId hs hrole => exact hkeep (by simp [hb, joinerSessions, hrole])
    | joiner s token memberId hs hrole hcode hnone =>
      obtain ⟨hbs, hj⟩ | ⟨_, _, _, -, -, hj⟩ := h
      · obtain hj | hj := hj
        · simp [hj] at hcode
        · refine .inr ⟨token, b.code, b.hsId, hj ▸ hcode, ?_, hnone⟩
          obtain ⟨role, code, hsId⟩ := b
          cases hrole
          rw [joinerSessions_append, hbs, hb]
          rfl
      · simp [hj] at hcode

/-! ## Runs -/

theorem begun_concat (l : List (Machine.Transition Client Act)) (t : Machine.Transition Client Act) :
    begun (l ++ [t]) = begun l ++ (t.before.begins t.label).toList := by
  cases h : t.before.begins t.label <;> simp [begun, h]

variable {who : Nat} {l : List (Machine.Transition Client Act)}

theorem spent_of_trace (h : (machine who).Trace l c) : Spent (begun l) c := by
  induction h with
  | nil =>
    have hno : ∀ token code, ¬ (machine who).init.Pends token code := by
      rintro token code ⟨s, hs, -⟩
      cases hs
    exact ⟨fun t code h => absurd h (hno t code), fun t _ code h => absurd h (hno t code),
      by simp [begun, ownerCodes], by simp [begun, ownerCodes]⟩
  | snoc hl hc ih =>
    rw [begun_concat]
    obtain ⟨hb, hq⟩ | ⟨b, hb, hs⟩ := step_starts hc
    · simp only [hb, Option.toList_none, List.append_nil]
      clear hc
      induction hq with
      | refl => exact ih
      | tail _ hq ihq => exact ihq.quiet hq
    · simp only [hb, Option.toList_some]
      exact ih.starts hs (step_draws hc).1 (step_draws hc).2

theorem record_of_trace (h : (machine who).Trace l c) {hsId : Handle} {r : HsRecord}
    (hr : c.record hsId = some r) :
    ∃ b ∈ begun l, ∃ x ds, b.hsId = hsId ∧ r.hs = (b.object x).feed ds := by
  induction h generalizing r with
  | nil => cases hr
  | snoc hl hc ih =>
    rw [begun_concat]
    obtain ⟨r₀, ds', hr₀, he⟩ | ⟨b, hb, hid, ho⟩ := step_lives hc hsId r hr
    · obtain ⟨b, hb, x, ds, hid, he₀⟩ := ih hr₀
      exact ⟨b, List.mem_append_left _ hb, x, ds ++ ds', hid, by
        rw [he, he₀, HandshakeSession.feed_append]⟩
    · exact ⟨b, List.mem_append_right _ (by simp [hb]), _, [], hid, ho⟩

/-- After a submission and up to the next one; with `l₁` empty, before the first. -/
theorem submission_of_trace (h : (machine who).Trace l c) {l₁ l₂ : List (Machine.Transition Client Act)}
    {j : Option (Handle × Data)} (hl : l = l₁ ++ l₂) (hno : ∀ t ∈ l₂, t.label.isJoin = false)
    (h₁ : ∀ c₁, (machine who).Trace l₁ c₁ → c₁.pendingJoin = none ∨ c₁.pendingJoin = j) :
    Submission j (joinerSessions (begun l₂)) c := by
  induction h generalizing l₂ with
  | nil =>
    obtain ⟨rfl, rfl⟩ := List.append_eq_nil_iff.mp hl.symm
    exact .inl ⟨rfl, h₁ _ .nil⟩
  | @snoc l s s' a htr hc ih =>
    obtain rfl | ⟨l₃, t, rfl⟩ := List.eq_nil_or_concat' l₂
    · rw [List.append_nil] at hl
      exact .inl ⟨rfl, h₁ _ (hl ▸ htr.snoc hc)⟩
    · rw [← List.append_assoc] at hl
      obtain ⟨hl', ht⟩ := List.append_inj' hl rfl
      obtain rfl := List.singleton_inj.mp ht
      rw [begun_concat]
      exact (ih hl' fun t ht => hno t (List.mem_append_left _ ht)).step hc
        (hno ⟨s, a, s'⟩ (by simp))

/-- How often a code can be guessed at through one tab. -/
structure OneGuess (l : List (Machine.Transition Client Act)) (c : Client) : Prop where
  /-- No two sessions of the owner have the same code. A code is a value drawn for it alone. -/
  codes : (ownerCodes (begun l)).Nodup
  drawn : ∀ code ∈ ownerCodes (begun l), c.Drew code
  /-- From one submission to the next, at most one session of the joiner. -/
  submission : ∀ l₁ t l₂ l₃ token code nick session, l = l₁ ++ t :: (l₂ ++ l₃) →
    t.label = .join token code nick session → (∀ t ∈ l₂, t.label.isJoin = false) →
      joinerSessions (begun l₂) = [] ∨ ∃ hsId, joinerSessions (begun l₂) = [⟨.B, code, hsId⟩]
  unasked : ∀ l₁ l₂, l = l₁ ++ l₂ → (∀ t ∈ l₁, t.label.isJoin = false) →
    joinerSessions (begun l₁) = []
  /-- The objects the tab keeps are the ones it has started, and it never sets one back. -/
  lives : ∀ t ∈ l, Lives t.label t.before t.after
  life : ∀ hsId r, c.record hsId = some r →
    ∃ b ∈ begun l, ∃ x ds, b.hsId = hsId ∧ r.hs = (b.object x).feed ds
  /-- Each of them guesses once. -/
  shot : ∀ b ∈ begun l, ∀ (x : Data) (ds : List Data), (b.object x).exchange.OneShot (ds.map parsePake)

theorem step_join {token : Handle} {code : Data} {nick session : String}
    (h : c.step (.join token code nick session) = some c') :
    c'.pendingJoin = none ∨ c'.pendingJoin = some (token, code) := by
  simp only [Client.step, Option.some.injEq] at h
  subst h
  unfold Client.beginConnect
  dsimp only
  split
  · exact .inl (by simp)
  · exact .inr rfl

/-- **One online guess for each code.** -/
theorem one_guess (hl : (machine who).Trace l c) : OneGuess l c := by
  obtain ⟨-, -, hspent, hcodes⟩ := spent_of_trace hl
  refine ⟨hcodes, fun code hcode => (hspent code hcode).1, ?_, ?_,
    fun t ht => step_lives (hl.mem ht).2, fun hsId r hr => record_of_trace hl hr,
    fun b _ x ds => Exchange.one_shot _ _⟩
  · rintro l₁ t l₂ l₃ token code nick session rfl ht hno
    have hfront : (machine who).Trace ((l₁ ++ t :: l₂) ++ l₃) c := by simpa using hl
    obtain ⟨c₂, hc₂⟩ := hfront.front
    have hjoin : ∀ c₁, (machine who).Trace (l₁ ++ [t]) c₁ →
        c₁.pendingJoin = none ∨ c₁.pendingJoin = some (token, code) := by
      intro c₁ hc₁
      obtain ⟨-, hstep, rfl⟩ := hc₁.last
      exact step_join (ht ▸ hstep)
    obtain ⟨hbs, -⟩ | ⟨_, _, hsId, hj, hbs, -⟩ := submission_of_trace hc₂ (by simp) hno hjoin
    · exact .inl hbs
    · cases hj
      exact .inr ⟨hsId, hbs⟩
  · rintro l₁ l₂ rfl hno
    obtain ⟨c₁, hc₁⟩ := hl.front
    have hinit : ∀ c₀, (machine who).Trace [] c₀ → c₀.pendingJoin = none ∨ c₀.pendingJoin = none :=
      fun c₀ hc₀ => .inl (hc₀.of_nil ▸ rfl)
    obtain ⟨hbs, -⟩ | ⟨_, _, _, hj, -⟩ := submission_of_trace hc₁ rfl hno hinit
    · exact hbs
    · cases hj

/-- The relay redeems one token twice, and later accepts one invite twice. -/
def doubled : List Act :=
  [.create "ann" "", .connected 0, .opened 0,
    .message 0 { type := .inviteCreated, token := some 3 },
    .message 0 { type := .inviteRedeemed, token := some 3, handshake := some 4, memberId := some 7 },
    .message 0 { type := .inviteRedeemed, token := some 3, handshake := some 5, memberId := some 8 },
    .message 0 { type := .pake, handshake := some 4
                 data := some (pakeFrame .pakeM (.tag .point zeros)) },
    .leave, .closed 0, .join 6 zeros "ann" "", .connected 0, .opened 1,
    .message 1 { type := .redeemOk, handshake := some 8 },
    .message 1 { type := .redeemOk, handshake := some 9 }]

theorem doubled_some : ((machine 1).stepsFrom (machine 1).init doubled).isSome = true := by
  decide +kernel

theorem one_guess_sample :
    let p := ((machine 1).stepsFrom (machine 1).init doubled).get doubled_some
    (begun p.1).length = 2 ∧ OneGuess p.1 p.2 :=
  ⟨by decide +kernel, one_guess (Machine.trace_get doubled_some)⟩

end E2EAnon.Web
