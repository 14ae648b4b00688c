import E2EAnon.Relay.Authority
import E2EAnon.Relay.Cleanup
import E2EAnon.Relay.Nicks
import E2EAnon.Relay.Order

/-!
# Changes of a room and the frames that announce them (`server.go:153-276`, `room.go:83-151`)

`Add` and `SetOwner` change a room in one section, and the handler announces the change in a later
one, by a welcome or a presence frame. `Pc.announces` says that a goroutine has such a frame still to
send; `news` says what a step tells the members of a room for which none is.
-/

namespace E2EAnon.Relay

variable {D : Type} {cfg : Config}

/-- The member list of a frame that shows one. -/
def shown (m : ServerMsg D) : Option (List MemberInfo) :=
  match m.type with
  | .welcome | .presence => some (m.members.getD [])
  | _ => none

/-- The operations that lead up to such a frame. -/
def RoomOp.announces : RoomOp D → Bool
  | .snapshotMembers _ | .broadcastPresence => true
  | .send _ m => m.type = .welcome
  | _ => false

/-- The operations that lead up to a welcome. -/
def RoomOp.greets : RoomOp D → Bool
  | .snapshotMembers _ => true
  | .send _ m => m.type = .welcome
  | _ => false

/-- A handler for a member of `r` has its client still to welcome. -/
def Pc.greets (r : RoomId) : Pc D → Bool
  | .member r' todo => decide (r' = r) && todo.any RoomOp.greets
  | _ => false

/-- A handler for a member of `r` has a change still to announce. -/
def Pc.announces (r : RoomId) : Pc D → Bool
  | .member r' todo => decide (r' = r) && todo.any RoomOp.announces
  | _ => false

/-- What is left of `runOwner` before its loop. -/
inductive Opens (c : ClientId) : List (RoomOp D) → Prop
  | claim : Opens c [.setSessionRoom, .snapshotMembers .owner]
  | snapshot : Opens c [.snapshotMembers .owner]
  | welcome (m : ServerMsg D) (hm : m.type = .welcome) (hid : m.memberId = some c) :
      Opens c [.send c m]

/-- What is left of `enter` or of `handleTransfer`. -/
inductive Enters (c : ClientId) : List (RoomOp D) → Prop
  | ended (h : Handle) : Enters c
      [.endHandshake h, .snapshotMembers .member, .broadcastPresence, .setSessionRoom]
  | snapshot : Enters c [.snapshotMembers .member, .broadcastPresence, .setSessionRoom]
  | welcome (m : ServerMsg D) (hm : m.type = .welcome) (hid : m.memberId = some c) :
      Enters c [.send c m, .broadcastPresence, .setSessionRoom]
  | presence (k : List (RoomOp D)) (hk : k.any RoomOp.announces = false) :
      Enters c (.broadcastPresence :: k)

/-- `r` is known to nobody but `c`, and there is no invite to it. -/
structure Alone (f : Floor D) (c : ClientId) (r : RoomId) : Prop where
  member : ∀ d ∈ (f.room r).members, d = c
  phase : ∀ d, d ≠ c → (f.phase d).room? ≠ some r
  invite : ∀ t inv, f.invites t = some inv → inv.room ≠ r

structure Owing (s : State D) : Prop where
  todo : ∀ c r todo, (s.conns c).pc = .member r todo → todo.any RoomOp.announces = true →
    Opens c todo ∨ Enters c todo
  alone : ∀ c r todo, (s.conns c).pc = .member r todo → Opens c todo → Alone s.floor c r
  fresh : ∀ c r m, (s.conns c).pc = .member r [.send c m] → m.type = .welcome →
    c ∈ (s.room r).members → m.members = some (s.membersInfo r)
  relayed : ∀ c r h dst m, (s.conns c).pc = .hsSend r h dst m → m.type ≠ .welcome

/-! ## Announcements in hand -/

theorem Opens.announces {c : ClientId} {todo : List (RoomOp D)} (h : Opens c todo) :
    todo.any RoomOp.announces = true := by
  cases h with
  | claim | snapshot => rfl
  | welcome m hm hid => simp [RoomOp.announces, hm]

theorem Opens.phase {c : ClientId} {r : RoomId} {todo : List (RoomOp D)} (h : Opens c todo) :
    headPhase r todo = .member r := by
  cases h <;> rfl

theorem memberFrame_announces {c : ClientId} {m : ClientMsg D} {todo : List (RoomOp D)}
    (h : memberFrame c m = some todo) : todo.any RoomOp.announces = false := by
  cases m <;> simp only [memberFrame, Option.some.injEq, reduceCtorEq] at h <;> subst h
  case fileStart | fileChunk | fileEnd | fileAbort => split <;> rfl
  all_goals rfl

theorem readFrame_announces {c : ClientId} {m : ClientMsg D} {pc : Pc D} {r : RoomId}
    {todo : List (RoomOp D)} (h : readFrame c m pc = some (.member r todo)) :
    todo.any RoomOp.announces = false := by
  unfold readFrame at h
  split at h
  · cases m <;> simp only [joinerFrame, Option.some.injEq, reduceCtorEq] at h
    split at h <;> simp at h
  · split at h <;> cases h
    exact memberFrame_announces ‹_›
  · simp at h

theorem readFails_announces {pc : Pc D} {r : RoomId} {todo : List (RoomOp D)} :
    readFails pc ≠ some (.member r todo) := by
  unfold readFails
  split <;> simp

theorem helloPc_announces {hello : ClientMsg D} {r : RoomId} {todo : List (RoomOp D)} :
    helloPc hello ≠ .member r todo := by
  cases hello <;> simp [helloPc]

section
variable [Payload D] {s : State D} {c : ClientId} {r : RoomId} {draw : Handle}

/-- Only a transfer makes an announcement where there was none. -/
theorem Expands.announces {past : Handle → Handshake → Prop} {op : RoomOp D}
    {new : List (RoomOp D)} (h : Expands s c r draw op new) (hfit : op.fit past c)
    (hop : op.announces = false) :
    new.any RoomOp.announces = false ∨ (∃ t, op = .owned (.transfer t)) ∧
      new = [.broadcastPresence] := by
  cases h with
  | welcome role => simp [RoomOp.announces] at hop
  | transferred t hopen hm => exact .inr ⟨⟨t, rfl⟩, rfl⟩
  | refused q m hm =>
    cases q <;> simp only [refusal, Option.some.injEq, reduceCtorEq] at hm <;> subst hm <;>
      exact .inl rfl
  | peer type x d hs p hh hp =>
    refine .inl ?_
    cases type <;> simp [RoomOp.fit, handshakeType, RoomOp.announces] at hfit ⊢
  | _ => exact .inl rfl

/-- How a goroutine comes to an announcement, and how it goes on from one. -/
theorem PcNext.announces {past : Handle → Handshake → Prop} {pc : Pc D} {todo : List (RoomOp D)}
    (h : PcNext s c draw pc (.member r todo)) (hfit : pc.fit past c)
    (hany : todo.any RoomOp.announces = true)
    (hold : ∀ todo, pc = .member r todo → todo.any RoomOp.announces = true →
      Opens c todo ∨ Enters c todo) :
    (Opens c todo ∧ (pc = .addOwner r ∨ ∃ todo', pc = .member r todo' ∧ Opens c todo')) ∨
      Enters c todo := by
  cases h with
  | addOwner => exact .inl ⟨.claim, .inl rfl⟩
  | hsEnter r h => exact .inr (.ended h)
  | member _ op new k h =>
    cases hop : (op :: k).any RoomOp.announces with
    | true =>
      obtain hopens | henters := hold _ rfl hop
      · have hopens' := hopens
        cases hopens with
        | claim =>
          cases h
          exact .inl ⟨.snapshot, .inr ⟨_, rfl, hopens'⟩⟩
        | snapshot =>
          cases h with
          | done _ _ hw => exact absurd rfl (hw .owner)
          | welcome => exact .inl ⟨.welcome _ rfl rfl, .inr ⟨_, rfl, hopens'⟩⟩
        | welcome m hm hid =>
          cases h
          simp at hany
      · cases henters with
        | ended =>
          cases h
          exact .inr .snapshot
        | snapshot =>
          cases h with
          | done _ _ hw => exact absurd rfl (hw .member)
          | welcome => exact .inr (.welcome _ rfl rfl)
        | welcome m hm hid =>
          cases h
          exact .inr (.presence _ rfl)
        | presence _ hk =>
          cases h
          simp only [List.nil_append] at hany
          simp [hany] at hk
    | false =>
      simp only [List.any_cons, Bool.or_eq_false_iff] at hop
      obtain hnew | ⟨-, rfl⟩ := h.announces (hfit op (by simp)) hop.1
      · simp [List.any_append, hnew, hop.2] at hany
      · exact .inr (.presence k hop.2)

/-- The welcome of a creator is made of a snapshot. -/
theorem PcNext.welcomed {past : Handle → Handshake → Prop} {pc : Pc D} {m : ServerMsg D}
    (h : PcNext s c draw pc (.member r [.send c m])) (hfit : pc.fit past c)
    (hm : m.type = .welcome)
    (hold : ∀ todo, pc = .member r todo → todo.any RoomOp.announces = true →
      Opens c todo ∨ Enters c todo) :
    pc = .member r [.snapshotMembers .owner] ∧ m = welcomeMsg s r c .owner := by
  obtain ⟨-, rfl | ⟨todo, rfl, hopens⟩⟩ | henters :=
    h.announces hfit (by simp [RoomOp.announces, hm]) hold
  · cases h
  · cases hopens with
    | claim =>
      generalize htodo : [RoomOp.send c m] = todo at h
      cases h with
      | member _ _ new k hnew =>
        cases hnew
        simp at htodo
    | snapshot =>
      generalize htodo : [RoomOp.send c m] = todo at h
      cases h with
      | member _ _ new k hnew =>
        cases hnew with
        | done _ _ hw => exact absurd rfl (hw .owner)
        | welcome => simpa using htodo
    | welcome m' hm' hid =>
      generalize htodo : [RoomOp.send c m] = todo at h
      cases h with
      | member _ _ new k hnew =>
        cases hnew
        simp at htodo
  · cases henters

end

/-! ## A room that is being opened -/

/-- A creator stays alone until it has read a frame. -/
theorem alone_move {may : May} {f f' : Floor D} {c : ClientId} {r : RoomId} (hi : Inv cfg f)
    (hc : f.phase c = .opening r ∨ f.phase c = .member r) (h : Alone f c r)
    (hm : Move cfg may f f') : Alone f' c r := by
  obtain ⟨hmem, hphase, hinv⟩ := h
  have hdrawn : r ∈ f.drawn := hi.room_ref c r (by obtain hc | hc := hc <;> rw [hc] <;> rfl)
  have href := hi.invite_ref
  refine ⟨?_, ?_, ?_⟩
  · cases hm <;> first | exact hmem | skip
    all_goals
      simp only [Floor.goto, Floor.setRoom, Floor.note, Floor.close, Floor.addRoom, Floor.dropRoom,
        Floor.closeRoom, Function.update_apply]
      grind -ring -linarith [Phase.room?]
  · cases hm <;> first | exact hphase | skip
    all_goals
      simp only [Floor.goto, Floor.setRoom, Floor.note, Floor.close, Function.update_apply]
      grind -ring -linarith [Phase.room?]
  · cases hm <;> first | exact hinv | skip
    all_goals
      simp only [Floor.goto, Floor.note, Function.update_apply, Option.filter_eq_some_iff]
      grind -ring -linarith [Phase.room?]

theorem alone_of_opening {f : Floor D} {c : ClientId} {r : RoomId} (hi : Inv cfg f)
    (hc : f.phase c = .opening r) : Alone f c r := by
  obtain ⟨hmem, hphase, hinv⟩ := hi.opening c r hc
  exact ⟨fun d hd => by simp [hmem] at hd, hphase, hinv⟩

section
variable {s s' : State D} {c : ClientId} {r : RoomId} {a : Act D}

theorem membersInfo_congr (hmem : (s'.room r).members = (s.room r).members)
    (ho : (s'.room r).ownerID = (s.room r).ownerID)
    (hnick : ∀ c ∈ (s.room r).members, (s'.conns c).nick = (s.conns c).nick) :
    s'.membersInfo r = s.membersInfo r := by
  simp only [State.membersInfo, hmem, ho]
  refine List.map_congr_left fun c hc => ?_
  rw [hnick c hc]

/-- A room with members is live. -/
theorem live_of_mem (hs : Sound cfg s) (hc : c ∈ (s.room r).members) :
    (s.room r).closed = false := by
  cases hcl : (s.room r).closed with
  | false => rfl
  | true =>
    have hnil : (s.room r).members = [] := (hs.inv.closed_empty r hcl).1
    simp [hnil] at hc

theorem drawn_of_mem (hs : Sound cfg s) (hc : c ∈ (s.room r).members) : c ∈ s.drawn := by
  by_contra hd
  have habs := hs.inv.drawn c hd
  have := (hs.inv.mem r c hc).1
  simp [habs, Phase.joining] at this

variable [Payload D]

theorem nick_of_mem (hs : Sound cfg s) (h : step cfg s a = some s') :
    ∀ c ∈ (s.room r).members, (s'.conns c).nick = (s.conns c).nick := by
  intro c hc
  refine Sound.step_named h ?_
  rintro hello rfl
  simp only [step, State.drawId] at h
  split at h
  · simp at h
  · exact absurd (drawn_of_mem hs hc) ‹_›

/-- The member list of a room that no one but `c` knows changes only by `c`. -/
theorem alone_info (hs : Sound cfg s) (hal : Alone s.floor c r) (h : step cfg s a = some s')
    (ha : ∀ draw allow, a ≠ .run c draw allow) (hc : c ∈ (s'.room r).members) :
    c ∈ (s.room r).members ∧ s'.membersInfo r = s.membersInfo r := by
  have hnick := nick_of_mem (r := r) hs h
  -- another goroutine at work in `r`
  have other : ∀ {d draw allow}, a = .run d draw allow → (s.conns d).pc.phase.room? ≠ some r := by
    intro d draw allow he
    refine hal.phase d ?_
    rintro rfl
    exact ha draw allow he
  have kept : (s'.room r).members = (s.room r).members →
      (s'.room r).ownerID = (s.room r).ownerID →
      c ∈ (s.room r).members ∧ s'.membersInfo r = s.membersInfo r :=
    fun hm ho => ⟨hm ▸ hc, membersInfo_congr hm ho hnick⟩
  generalize hrm : s'.room r = rm at hc kept
  cases hrm ▸ hs.step_room h r with
  | same | touched | closing => exact kept rfl rfl
  | created | destroyed | reaped => simp [Floor.closeRoom] at hc
  | added d draw allow t he hpc hopen hcap =>
    obtain hpc | ⟨x, hpc⟩ := hpc <;> exact absurd (by rw [hpc]; rfl) (other he)
  | transferred d draw allow t k now he hpc hopen hm =>
    exact absurd (by rw [hpc]; rfl) (other he)
  | kicked d draw allow v k t he hpc hopen hm hv => exact absurd (by rw [hpc]; rfl) (other he)
  | left d draw allow t he hpc hopen hm ho => exact absurd (by rw [hpc]; rfl) (other he)

variable {l : List (Lib.Machine.Transition (State D) (Act D))}

/-- Where a goroutine that has an announcement to make has come from. -/
theorem owing_todo (hl : (relay cfg).Trace l s) (how : Owing s) (h : step cfg s a = some s')
    {todo : List (RoomOp D)} (hpc : (s'.conns c).pc = .member r todo)
    (hany : todo.any RoomOp.announces = true) :
    (Opens c todo ∧ ((s.conns c).pc = .addOwner r ∨
      ∃ todo', (s.conns c).pc = .member r todo' ∧ Opens c todo')) ∨ Enters c todo := by
  generalize hpc' : (s'.conns c).pc = pc at hpc
  cases hpc' ▸ Sound.step_pc h c with
  | same ha =>
    obtain hopens | henters := how.todo c r todo hpc hany
    · exact .inl ⟨hopens, .inr ⟨todo, hpc, hopens⟩⟩
    · exact .inr henters
  | connected hello ha hd => exact absurd hpc helloPc_announces
  | read m _ ha hread =>
    subst hpc
    simp [readFrame_announces hread] at hany
  | readErr _ ha hread =>
    subst hpc
    exact absurd hread readFails_announces
  | ran draw allow _ ha hnext =>
    subst hpc
    exact hnext.announces (fit_of_trace hl c) hany (how.todo c r)

theorem owing_step (hl : (relay cfg).Trace l s) (how : Owing s) (h : step cfg s a = some s') :
    Owing s' := by
  have hs := sound_of_reach hl.reach
  refine ⟨fun c r todo hpc hany => (owing_todo hl how h hpc hany).imp_left And.left,
    fun c r todo hpc hopens => ?_, fun c r m hpc hm hc => ?_, fun c r x dst m hpc => ?_⟩
  · have hmove := hs.step_move h
    obtain ⟨-, hold | ⟨todo', hold, hopens'⟩⟩ | henters := owing_todo hl how h hpc hopens.announces
    · have hph : s.floor.phase c = .opening r := by simp only [State.floor, hold, Pc.phase]
      exact alone_move hs.inv (.inl hph) (alone_of_opening hs.inv hph) hmove
    · have hph : s.floor.phase c = .member r := by
        simp only [State.floor, hold, Pc.phase, hopens'.phase]
      exact alone_move hs.inv (.inr hph) (how.alone c r todo' hold hopens') hmove
    · cases hopens <;> cases henters
  · -- the welcome has just been made, or another goroutine has taken the step
    have hopens : Opens c [RoomOp.send c m] := by
      obtain ⟨hopens, -⟩ | henters := owing_todo hl how h hpc (by simp [RoomOp.announces, hm])
      · exact hopens
      · cases henters
    generalize hpc' : (s'.conns c).pc = pc at hpc
    cases hpc' ▸ Sound.step_pc h c with
    | same ha =>
      obtain ⟨hc', hinfo⟩ := alone_info hs (how.alone c r _ hpc hopens) h ha hc
      rw [hinfo]
      exact how.fresh c r m hpc hm hc'
    | connected hello ha hd => exact absurd hpc helloPc_announces
    | read m' _ ha hread =>
      subst hpc
      have := readFrame_announces hread
      simp [RoomOp.announces, hm] at this
    | readErr _ ha hread =>
      subst hpc
      exact absurd hread readFails_announces
    | ran draw allow _ ha hnext =>
      subst hpc
      obtain ⟨hold, rfl⟩ := hnext.welcomed (fit_of_trace hl c) hm (how.todo c r)
      have hroom : s'.room = s.room := by
        subst ha
        simp only [step, hold, runPc, runOp, Option.some.injEq] at h
        rw [← h]
        rfl
      rw [membersInfo_congr (by rw [hroom]) (by rw [hroom]) (nick_of_mem hs h)]
      rfl
  · have hfit := fit_of_trace hl c
    generalize hpc' : (s'.conns c).pc = pc at hpc
    cases hpc' ▸ Sound.step_pc h c with
    | same ha => exact how.relayed c r x dst m hpc
    | connected hello ha hd => cases hello <;> simp [helloPc] at hpc
    | read m' _ ha hread =>
      have := readFrame_afterRead hread
      simp [hpc, Pc.afterRead] at this
    | readErr _ ha hread =>
      have := readFails_afterRead hread
      simp [hpc, Pc.afterRead] at this
    | ran draw allow _ ha hnext =>
      subst hpc
      generalize (s.conns c).pc = pc at hnext hfit
      cases hnext with
      | hsRelay r x type x' d hs p hh hp =>
        cases type <;> simp [Pc.fit, handshakeType] at hfit ⊢

theorem owing_of_trace (hl : (relay cfg).Trace l s) : Owing s := by
  induction hl with
  | nil => exact ⟨fun c r todo h => by simp [relay] at h, fun c r todo h => by simp [relay] at h,
      fun c r m h => by simp [relay] at h, fun c r x dst m h => by simp [relay] at h⟩
  | snoc hl hs ih => exact owing_step hl ih hs

/-! ## What a step announces -/

/-- A member of `r` has a change still to announce. -/
def State.Pending (s : State D) (r : RoomId) : Prop :=
  ∃ d ∈ (s.room r).members, (s.conns d).pc.announces r = true

omit [Payload D] in
theorem announces_iff {pc : Pc D} : pc.announces r = true ↔
    ∃ todo, pc = .member r todo ∧ todo.any RoomOp.announces = true := by
  cases pc <;> simp [Pc.announces]

omit [Payload D] in
theorem shown_type {m : ServerMsg D} {ms : List MemberInfo} (h : shown m = some ms) :
    m.type = .welcome ∨ m.type = .presence := by
  unfold shown at h
  split at h <;> simp_all

/-- A presence frame shows the room as the step leaves it. -/
theorem shown_broadcast (hl : (relay cfg).Trace l s) (h : step cfg s a = some s') {b : Broadcast D}
    (hb : s.broadcast a = some b) {ms : List MemberInfo} (hms : shown b.frame = some ms) :
    ms = s'.membersInfo b.room ∧ ∀ d ∈ (s'.room b.room).members, d ∈ b.dests := by
  have hs := sound_of_reach hl.reach
  have hdests := (broadcast_spec h hb).1
  obtain ⟨c, draw, allow, rfl, hsite⟩ := broadcast_cases hb
  cases hsite with
  | presence r k hpc hopen =>
    refine ⟨?_, fun d hd => (hdests d).mpr ⟨hd, by simp [State.presence]⟩⟩
    have hroom : s'.room = s.room := by
      simp only [step, hpc, runPc, runOp, State.broadcastPresence, hopen, Bool.false_eq_true,
        if_false, Option.some.injEq] at h
      rw [← h]
      rfl
    have hinfo : s'.membersInfo r = s.membersInfo r :=
      membersInfo_congr (by rw [hroom]) (by rw [hroom]) (nick_of_mem hs h)
    simp only [State.presence, State.presenceMsg, shown, Option.getD_some,
      Option.some.injEq] at hms ⊢
    rw [← hms, hinfo]
  | kick r t k s₁ hpc hrun =>
    refine ⟨?_, fun d hd => (hdests d).mpr ⟨hd, by simp [State.presence]⟩⟩
    have hinfo : s'.membersInfo r = s₁.membersInfo r := by
      simp only [step, hpc, runPc, runOp, runOwned, hrun, Option.some.injEq] at h
      rw [← h]
      exact membersInfo_congr rfl rfl fun d _ => State.named_setConn (s := s₁) rfl d
    simp only [State.presence, State.presenceMsg, shown, Option.getD_some,
      Option.some.injEq] at hms ⊢
    rw [← hms, hinfo]
  | leave r hpc hm hopen ho =>
    refine ⟨?_, fun d hd => (hdests d).mpr ⟨hd, by simp [State.presence]⟩⟩
    have ho' : ¬ some c = (s.room r).ownerID := fun he => ho he.symm
    have hinfo : s'.membersInfo r = (s.dropMember r c).membersInfo r := by
      simp only [step, hpc, runPc, hm, hopen, ho', Bool.false_eq_true, not_true_eq_false,
        or_self, if_false, Option.some.injEq] at h
      rw [← h]
      exact membersInfo_congr rfl rfl fun d _ =>
        State.named_setConn (s := s.dropMember r c) rfl d
    simp only [State.presence, State.presenceMsg, shown, Option.getD_some,
      Option.some.injEq] at hms ⊢
    rw [← hms, hinfo]
  | relay | roster =>
    obtain ht | ht := shown_type hms <;> simp [State.others, State.chatMsg] at ht
  | file r m k hpc _ =>
    have hft := (fit_of_broadcast (fit_of_trace hl c) hpc).1
    obtain ht | ht := shown_type hms <;>
      · simp only [State.others] at ht
        simp [ht, fileType] at hft

omit [Payload D] in
theorem any_announces {todo : List (RoomOp D)} (h : todo.any RoomOp.greets = true) :
    todo.any RoomOp.announces = true := by
  simp only [List.any_eq_true] at h ⊢
  obtain ⟨op, hop, hg⟩ := h
  refine ⟨op, hop, ?_⟩
  cases op <;> simp [RoomOp.greets, RoomOp.announces] at hg ⊢
  exact hg

omit [Payload D] in
theorem announces_of_greets {pc : Pc D} (h : pc.greets r = true) : pc.announces r = true := by
  cases pc with
  | member r' todo =>
    simp only [Pc.greets, Pc.announces, Bool.and_eq_true] at h ⊢
    exact h.imp_right any_announces
  | _ => simp [Pc.greets] at h

/-- Who has just entered a room is still to be welcomed. -/
theorem entered_greets (hs : Sound cfg s) (h : step cfg s a = some s')
    (hc : c ∈ (s'.room r).members) (hno : c ∉ (s.room r).members) :
    (s'.conns c).pc.greets r = true := by
  generalize hrm : s'.room r = rm at hc
  cases hrm ▸ hs.step_room h r with
  | same | touched | transferred | closing => exact absurd hc hno
  | created | destroyed | reaped => simp [Floor.closeRoom] at hc
  | kicked | left =>
    simp only [Floor.dropRoom, List.mem_filter] at hc
    exact absurd hc.1 hno
  | added d draw allow t ha hpc hopen hcap =>
    have hd : c = d := by
      simp only [Floor.addRoom] at hc
      split at hc
      · exact absurd hc hno
      · simpa [hno] using hc
    subst hd ha
    have hadd : ∃ s₁, s.add cfg r c = some s₁ := by
      simp [State.add, hopen, Nat.not_le.mpr hcap]
    obtain ⟨s₁, h₁⟩ := hadd
    obtain hpc | ⟨x, hpc⟩ := hpc <;>
      · simp only [step, hpc, runPc, h₁, Option.some.injEq] at h
        rw [← h]
        simp [State.goto, State.setConn, Pc.greets, RoomOp.greets]

/-- A member with an announcement to make does its next operation; it does not panic. -/
theorem announcing_next (hl : (relay cfg).Trace l s) (h : step cfg s a = some s')
    (hc : c ∈ (s.room r).members) {todo : List (RoomOp D)} (hpc : (s.conns c).pc = .member r todo)
    (hany : todo.any RoomOp.announces = true) : (s'.conns c).pc = .member r todo ∨
      ∃ draw allow op new k, a = .run c draw allow ∧ todo = op :: k ∧ Expands s c r draw op new ∧
        (s'.conns c).pc = .member r (new ++ k) := by
  have hs := sound_of_reach hl.reach
  have how := owing_of_trace hl
  have hopen := hs.open_of_mem c hc
  generalize hpc' : (s'.conns c).pc = pc'
  cases hpc' ▸ Sound.step_pc h c with
  | same ha => exact .inl hpc
  | connected hello ha hd => exact absurd (drawn_of_mem hs hc) hd
  | read m _ ha hread =>
    rw [hpc] at hread
    cases todo with
    | nil => simp at hany
    | cons op k => simp [readFrame] at hread
  | readErr _ ha hread =>
    rw [hpc] at hread
    cases todo with
    | nil => simp at hany
    | cons op k => simp [readFails] at hread
  | ran draw allow _ ha hnext =>
    rw [hpc] at hnext
    cases hnext with
    | fail _ hph =>
      have hlate : ((s.conns c).pc.phase).joining = false := (hs.inv.mem r c hc).1
      rw [hpc] at hlate
      obtain hph | hph | ⟨r', hph⟩ := hph <;> simp [hph, Phase.joining] at hlate
    | panic pc dst hdst hd =>
      -- before its announcement it sends to its own client only
      cases todo with
      | nil => simp at hany
      | cons op k =>
        have hdst' : op.sends = some dst := hdst
        have hcd : c = dst := by
          obtain ho | he := how.todo c r _ hpc hany
          · cases ho with
            | welcome => exact Option.some.inj hdst'
            | claim | snapshot => simp [RoomOp.sends] at hdst'
          · cases he with
            | welcome => exact Option.some.inj hdst'
            | ended | snapshot | presence => simp [RoomOp.sends] at hdst'
        simp [← hcd, hopen] at hd
    | member _ op new k hex => exact .inr ⟨draw, allow, op, new, k, ha, rfl, hex, rfl⟩

omit [Payload D] in
/-- What a send of `c` to its own client posts. -/
theorem posts_send {draw : Handle} {allow : Bool} {m : ServerMsg D} {k : List (RoomOp D)}
    (hpc : (s.conns c).pc = .member r (.send c m :: k)) (hopen : (s.conns c).outClosed = false) :
    s.posts (.run c draw allow) c = some m := by
  simp [State.posts, State.posts.named, State.broadcast, State.direct, hpc, Pc.broadcast,
    RoomOp.broadcast, Pc.direct, RoomOp.direct, hopen]

/-- A member stays to be welcomed until its welcome is sent. -/
theorem greeted (hl : (relay cfg).Trace l s) (h : step cfg s a = some s')
    (hc : c ∈ (s.room r).members) (hp : (s.conns c).pc.greets r = true)
    (hp' : (s'.conns c).pc.greets r = false) :
    ∃ m, s.posts a c = some m ∧ m.type = .welcome := by
  have hopen := (sound_of_reach hl.reach).open_of_mem c hc
  obtain ⟨todo, hpc, hany⟩ := announces_iff.mp (announces_of_greets hp)
  rw [hpc] at hp
  obtain hpc' | ⟨draw, allow, op, new, k, rfl, rfl, hex, hpc'⟩ := announcing_next hl h hc hpc hany <;>
    rw [hpc'] at hp'
  · simp [hp] at hp'
  · obtain ho | he := (owing_of_trace hl).todo c r _ hpc hany
    · cases ho with
      | claim =>
        cases hex
        simp [Pc.greets, RoomOp.greets] at hp'
      | snapshot =>
        cases hex with
        | done _ _ hw => exact absurd rfl (hw .owner)
        | welcome => simp [Pc.greets, RoomOp.greets, welcomeMsg] at hp'
      | welcome m hm hid => exact ⟨m, posts_send hpc hopen, hm⟩
    · cases he with
      | ended =>
        cases hex
        simp [Pc.greets, RoomOp.greets] at hp'
      | snapshot =>
        cases hex with
        | done _ _ hw => exact absurd rfl (hw .member)
        | welcome => simp [Pc.greets, RoomOp.greets, welcomeMsg] at hp'
      | welcome m hm hid => exact ⟨m, posts_send hpc hopen, hm⟩
      | presence _ hk =>
        simp only [Pc.greets, List.any_cons, RoomOp.greets, Bool.false_or, decide_true,
          Bool.true_and, List.any_eq_true] at hp
        obtain ⟨op, hop, hg⟩ := hp
        have hop' := List.any_eq_false.mp hk op hop
        cases op <;> simp only [RoomOp.announces, reduceCtorEq, not_true_eq_false] at hg hop'
        exact absurd hg hop'

/-- A member's announcement ends in a presence broadcast or, for a creator, in its welcome. -/
theorem announced (hl : (relay cfg).Trace l s) (h : step cfg s a = some s')
    (hc : c ∈ (s.room r).members) (hp : (s.conns c).pc.announces r = true)
    (hp' : (s'.conns c).pc.announces r = false) :
    (∃ b, s.broadcast a = some b ∧ b.room = r ∧ shown b.frame ≠ none) ∨
      (∀ d ∈ (s.room r).members, d = c) ∧
        ∃ m, s.posts a c = some m ∧ shown m = some (s.membersInfo r) := by
  have hs := sound_of_reach hl.reach
  have how := owing_of_trace hl
  obtain ⟨todo, hpc, hany⟩ := announces_iff.mp hp
  rw [hpc] at hp
  obtain hpc' | ⟨draw, allow, op, new, k, rfl, rfl, hex, hpc'⟩ := announcing_next hl h hc hpc hany <;>
    rw [hpc'] at hp'
  · simp [hp] at hp'
  · obtain ho | he := how.todo c r _ hpc hany
    · have hal := how.alone c r _ hpc ho
      cases ho with
      | claim =>
        cases hex
        simp [Pc.announces, RoomOp.announces] at hp'
      | snapshot =>
        cases hex with
        | done _ _ hw => exact absurd rfl (hw .owner)
        | welcome => simp [Pc.announces, RoomOp.announces, welcomeMsg] at hp'
      | welcome m hm hid =>
        exact .inr ⟨hal.member, m, posts_send hpc (hs.open_of_mem c hc),
          by simp [shown, hm, how.fresh c r m hpc hm hc]⟩
    · cases he with
      | ended =>
        cases hex
        simp [Pc.announces, RoomOp.announces] at hp'
      | snapshot =>
        cases hex with
        | done _ _ hw => exact absurd rfl (hw .member)
        | welcome => simp [Pc.announces, RoomOp.announces] at hp'
      | welcome m hm hid =>
        cases hex
        simp [Pc.announces, RoomOp.announces] at hp'
      | presence _ hk =>
        refine .inl ⟨s.presence r, ?_, rfl, by simp [State.presence, State.presenceMsg, shown]⟩
        simp [State.broadcast, hpc, Pc.broadcast, RoomOp.broadcast, live_of_mem hs hc]

/-- A welcome goes to the member whose goroutine sends it. -/
theorem direct_welcome (hl : (relay cfg).Trace l s) {m : ServerMsg D}
    (hd : s.direct a = some (c, m)) (hm : m.type = .welcome) :
    m.memberId = some c ∧ ∃ draw allow r k, a = .run c draw allow ∧
      (s.conns c).pc = .member r (.send c m :: k) := by
  have how := owing_of_trace hl
  cases send_cases hd with
  | closing | redeemOk | inviteRedeemed | full | rekey | kick => simp [errorMsg] at hm
  | fail _ _ _ _ hpc =>
    have hfit := fit_of_trace hl c
    rw [hpc] at hfit
    simp [hfit.2] at hm
  | relayed _ d _ _ r x _ hpc => exact absurd hm (how.relayed d r x _ _ hpc)
  | sent m d draw allow r k ha hpc =>
    obtain ho | he := how.todo d r _ hpc (by simp [RoomOp.announces, hm])
    · cases ho with
      | welcome _ _ hid => exact ⟨hid, draw, allow, r, [], ha, hpc⟩
    · cases he with
      | welcome _ _ hid => exact ⟨hid, draw, allow, r, _, ha, hpc⟩

/-- A step after which nobody has a change to announce, and that broadcasts no presence, leaves the
members and the owner. -/
theorem same_of_silent (hs : Sound cfg s) (h : step cfg s a = some s')
    (hc : c ∈ (s'.room r).members) (hp' : ¬ s'.Pending r)
    (hb : ¬ ∃ b, s.broadcast a = some b ∧ b.room = r ∧ shown b.frame ≠ none) :
    (s'.room r).members = (s.room r).members ∧ (s'.room r).ownerID = (s.room r).ownerID := by
  generalize hrm : s'.room r = rm at hc ⊢
  cases hrm ▸ hs.step_room h r with
  | same | touched | closing => exact ⟨rfl, rfl⟩
  | created | destroyed | reaped => simp [Floor.closeRoom] at hc
  | added d draw allow t ha hpc hopen hcap =>
    have hno : d ∉ (s.room r).members := by
      intro hd
      have hlate : ((s.conns d).pc.phase).joining = false := (hs.inv.mem r d hd).1
      obtain hpc | ⟨x, hpc⟩ := hpc <;> simp [hpc, Pc.phase, Phase.joining] at hlate
    have hd : d ∈ (s'.room r).members := by simp [hrm, Floor.addRoom, hno]
    exact absurd ⟨d, hd, announces_of_greets (entered_greets hs h hd hno)⟩ hp'
  | transferred d draw allow t k now ha hpc hopen hm =>
    have hd : d ∈ (s.room r).members := hs.inv.owner_mem r d (owner_of_owned hs hpc hopen)
    subst ha
    refine absurd ⟨d, by simpa [hrm] using hd, ?_⟩ hp'
    have hset : ∃ s₁, s.setOwner r t = some s₁ := by simp [State.setOwner, hopen, hm]
    obtain ⟨s₁, h₁⟩ := hset
    simp only [step, hpc, runPc, runOp, runOwned, h₁, Option.some.injEq] at h
    rw [← h]
    simp [State.goto, State.setConn, Pc.announces, RoomOp.announces]
  | kicked d draw allow v k t ha hpc hopen hm hv =>
    subst ha
    have hrun : ∃ s₁, s.removeMember r v .kicked = some s₁ := by
      simp [State.removeMember, hopen, hm, Ne.symm hv]
    obtain ⟨s₁, h₁⟩ := hrun
    exact absurd ⟨s₁.presence r, by simp [State.broadcast, hpc, Pc.broadcast, RoomOp.broadcast, h₁],
      rfl, by simp [State.presence, State.presenceMsg, shown]⟩ hb
  | left d draw allow t ha hpc hopen hm ho =>
    subst ha
    exact absurd ⟨(s.dropMember r d).presence r,
      by simp [State.broadcast, hpc, Pc.broadcast, hopen, hm, Ne.symm ho],
      rfl, by simp [State.presence, State.presenceMsg, shown]⟩ hb

/-- A member's handler works for the room the member is in. -/
theorem member_room (hl : (relay cfg).Trace l s) (hc : c ∈ (s.room r).members) {r' : RoomId}
    {todo : List (RoomOp D)} (hpc : (s.conns c).pc = .member r' todo) : r' = r := by
  have hhead : (headPhase r' todo).ended = false ∧ ((headPhase r' todo).serves r → r' = r) := by
    unfold headPhase
    split <;> simp [Phase.ended, Phase.serves]
  have hserves : ((s.conns c).pc.phase).serves r := by
    refine ((sound_of_reach hl.reach).inv.mem r c hc).2 (Bool.eq_false_of_not_eq_true fun hpan => ?_)
    have hended := ended_of_panicked hl.reach c hpan
    rw [hpc, Pc.phase, hhead.1] at hended
    simp at hended
  rw [hpc] at hserves
  exact hhead.2 hserves

/-- **What a step tells the members.** A member of a room in which no member has a change left to
announce was a member before; and the step puts the room's member list into its queue, or the list
was announced before and the step neither changes it nor shows the member another one. -/
theorem news (hl : (relay cfg).Trace l s) (h : step cfg s a = some s')
    (hc : c ∈ (s'.room r).members) (hp' : ¬ s'.Pending r) : c ∈ (s.room r).members ∧
      ((∃ m, s.posts a c = some m ∧ shown m = some (s'.membersInfo r)) ∨
        (¬ s.Pending r ∧ s'.membersInfo r = s.membersInfo r ∧
          ∀ m, s.posts a c = some m → shown m = none)) := by
  have hs := sound_of_reach hl.reach
  have hs' := sound_of_reach (hl.snoc h).reach
  have before : ∀ d ∈ (s'.room r).members, d ∈ (s.room r).members := by
    intro d hd
    by_contra hno
    exact hp' ⟨d, hd, announces_of_greets (entered_greets hs h hd hno)⟩
  refine ⟨before c hc, ?_⟩
  by_cases hb : ∃ b, s.broadcast a = some b ∧ b.room = r ∧ shown b.frame ≠ none
  · obtain ⟨b, hb, rfl, hne⟩ := hb
    obtain ⟨ms, hms⟩ := Option.ne_none_iff_exists'.mp hne
    obtain ⟨rfl, hdests⟩ := shown_broadcast hl h hb hms
    exact .inl ⟨b.frame, by simp [State.posts, hb, hdests c hc], hms⟩
  obtain ⟨hmem, ho⟩ := same_of_silent hs h hc hp' hb
  have hinfo : s'.membersInfo r = s.membersInfo r :=
    membersInfo_congr hmem ho (nick_of_mem hs h)
  by_cases hp : s.Pending r
  · -- a creator's welcome
    obtain ⟨d, hd, hpd⟩ := hp
    have hpd' : (s'.conns d).pc.announces r = false := by
      by_contra hpd'
      exact hp' ⟨d, hmem ▸ hd, by simpa using hpd'⟩
    obtain hbd | ⟨hal, m, hm, hms⟩ := announced hl h hd hpd hpd'
    · exact absurd hbd hb
    · obtain rfl := hal c (before c hc)
      exact .inl ⟨m, hm, hinfo ▸ hms⟩
  · refine .inr ⟨hp, hinfo, fun m hm => ?_⟩
    by_contra hne
    obtain ⟨ms, hms⟩ := Option.ne_none_iff_exists'.mp hne
    obtain ⟨b, hbc, hd, rfl⟩ | ⟨hdir, -⟩ := posts_cases hm
    · have hroom := hs'.inv.mem_unique b.room r c (((broadcast_spec h hbc).1 c).mp hd).1 hc
      exact hb ⟨b, hbc, hroom, hne⟩
    · obtain ht | ht := shown_type hms
      · obtain ⟨-, draw, allow, r', k, rfl, hpc⟩ := direct_welcome hl hdir ht
        obtain rfl := member_room hl (before c hc) hpc
        exact hp ⟨c, before c hc, announces_iff.mpr ⟨_, hpc, by simp [RoomOp.announces, ht]⟩⟩
      · have := broadcastType_direct hl hdir
        simp [ht, broadcastType] at this

end

end E2EAnon.Relay
