import E2EAnon.Relay.Backlog
import E2EAnon.Relay.Frames

/-!
# Why a member is disconnected (`room.go:136-151`, `:199-255`, `hub.go:213-236`)

The relay takes a member out of its room in four ways, and has a reason for each: `Removes`. It puts
the reason into a `room_closed` frame, offers it to the member's channel and closes that. `told_why` is about
every run: no such frame names a reason that is not the true one, no client is offered two of them, and
no channel is closed before one was offered, unless by the client's own goroutine. A channel that is
full drops the frame and is closed all the same (`room.go:144`, `:250`).

`Close("")` of a room that the last member has left (`room.go:222-224`) would tell nobody. It never
runs: who leaves without being the owner leaves the owner behind (`ownersClose_of_reach`).
-/

namespace E2EAnon.Relay

variable {D : Type} {cfg : Config}

def closedMsg (reason : Reason) : ServerMsg D := { type := .roomClosed, reason := some reason }

/-- The step takes `d` out of its room, for the reason given. -/
inductive Removes (s : State D) (a : Act D) (d : ClientId) : Reason → Prop
  /-- The room's owner kicks `d`. -/
  | kicked (o : ClientId) (draw : Handle) (allow : Bool) (r : RoomId) (k : List (RoomOp D))
      (ha : a = .run o draw allow) (hpc : (s.conns o).pc = .member r (.owned (.kick d) :: k))
      (ho : (s.room r).ownerID = some o) (hm : d ∈ (s.room r).members) : Removes s a d .kicked
  /-- The owner of `d`'s room, perhaps `d` itself, leaves. -/
  | ownerLeft (o : ClientId) (draw : Handle) (allow : Bool) (r : RoomId)
      (ha : a = .run o draw allow) (hpc : (s.conns o).pc = .leaveClose r (some .ownerLeft))
      (ho : (s.room r).ownerID = some o) (hm : d ∈ (s.room r).members) : Removes s a d .ownerLeft
  /-- The janitor has found the room empty and idle. -/
  | idle (pick : RoomId) (now : Int) (r : RoomId) (todo : List RoomId) (ha : a = .janitor pick)
      (hj : s.janitor = .close now r todo) (hm : d ∈ (s.room r).members) : Removes s a d .idle
  /-- The server shuts down. -/
  | serverStop (r : RoomId) (todo : List RoomId) (ha : a = .shutdown r)
      (hj : s.shutdown = .run todo) (hr : r ∈ todo) (hm : d ∈ (s.room r).members) :
      Removes s a d .serverStop

/-! ## How a `Close` goes on -/

/-- The reason it was called with. -/
def Closing.reason : Closing → Option Reason
  | .removeRoom reason _ | .dropInvites reason _ | .next reason _ | .closeOut reason _ _ => reason
  | .notice re _ _ => some re
  | .no | .done => none

/-- The progress of `r`'s `Close` after a step. -/
inductive ClosingChange (s : State D) (a : Act D) (r : RoomId) : Closing → Prop
  | same : ClosingChange s a r (s.room r).closing
  | begun (re : Reason) (hno : (s.room r).closing = .no)
      (h : ∀ d ∈ (s.room r).members, Removes s a d re) :
      ClosingChange s a r (.removeRoom (some re) (s.room r).members)
  /-- The maps of the hub are cleaned, or the loop has ended. -/
  | quiet (pick : ClientId) (k : Closing) (ha : a = .closing r pick)
      (hp : k.pending = (s.room r).closing.pending)
      (hr : k.pending ≠ [] → k.reason = (s.room r).closing.reason)
      (hk : ∀ reason d ms, k ≠ .closeOut reason d ms)
      (hk' : ∀ reason d ms, (s.room r).closing ≠ .closeOut reason d ms) : ClosingChange s a r k
  /-- The loop comes to a member. -/
  | next (pick : ClientId) (re : Reason) (ms : List ClientId) (ha : a = .closing r pick)
      (h : (s.room r).closing = .next (some re) ms) (hm : pick ∈ ms) :
      ClosingChange s a r (.notice re pick (ms.filter (· ≠ pick)))
  | silent (pick : ClientId) (ms : List ClientId) (ha : a = .closing r pick)
      (h : (s.room r).closing = .next none ms) (hm : pick ∈ ms) :
      ClosingChange s a r (.closeOut none pick (ms.filter (· ≠ pick)))
  | noticed (pick : ClientId) (re : Reason) (d : ClientId) (ms : List ClientId)
      (ha : a = .closing r pick) (h : (s.room r).closing = .notice re d ms) :
      ClosingChange s a r (.closeOut (some re) d ms)
  | shut (pick : ClientId) (reason : Option Reason) (d : ClientId) (ms : List ClientId)
      (ha : a = .closing r pick) (h : (s.room r).closing = .closeOut reason d ms) :
      ClosingChange s a r (.next reason ms)

variable {s s' : State D} {a : Act D} {d : ClientId} {r : RoomId}

theorem runClosing_change {pick : ClientId} (h : runClosing s r pick (s.room r).closing = some s') :
    ClosingChange s (.closing r pick) r (s'.room r).closing := by
  have hset : ∀ (s₁ : State D) (k : Closing), ((s₁.setClosing r k).room r).closing = k := by
    intro s₁ k
    simp [State.setClosing, State.setRoom]
  cases hk : (s.room r).closing with
  | no | done => simp [hk, runClosing] at h
  | removeRoom reason ms | dropInvites reason ms =>
    rw [hk] at h
    cases h
    rw [hset]
    exact .quiet pick _ rfl (by rw [hk]; rfl) (fun _ => by rw [hk]; rfl) (by simp) (by simp [hk])
  | next reason ms =>
    rw [hk] at h
    cases ms with
    | nil =>
      cases h
      rw [hset]
      exact .quiet pick _ rfl (by rw [hk]; rfl) (fun hne => absurd rfl hne) (by simp) (by simp [hk])
    | cons m ms =>
      simp only [runClosing] at h
      split at h <;> cases h
      rename_i hm
      rw [hset]
      cases reason with
      | some re => exact .next pick re (m :: ms) rfl hk hm
      | none => exact .silent pick (m :: ms) rfl hk hm
  | notice re c ms =>
    rw [hk] at h
    cases h
    rw [hset]
    exact .noticed pick re c ms rfl hk
  | closeOut reason c ms =>
    rw [hk] at h
    cases h
    rw [hset]
    exact .shut pick reason c ms rfl hk

/-- The janitor closes the room it has found idle. -/
theorem runJanitor_closes {pick : RoomId} (h : runJanitor cfg s pick s.janitor = some s')
    (hopen : (s.room r).closed = false) (hcl : (s'.room r).closed = true) :
    (∃ now todo, s.janitor = .close now r todo) ∧
      s'.room r = Floor.closeRoom (s.room r) (some .idle) := by
  -- the other steps of the janitor write no room
  have hsame : s'.room ≠ s.room := by
    intro he
    rw [he, hopen] at hcl
    cases hcl
  cases hj : s.janitor <;> rw [hj] at h
  case close now r' todo =>
    simp only [runJanitor] at h
    split at h <;> cases h
    · rename_i h₁
      obtain ⟨-, rfl⟩ := State.closeBegin_eq_some h₁
      by_cases hr : r = r'
      · subst hr
        exact ⟨⟨now, todo, rfl⟩, by simp [State.note, State.setRoom]⟩
      · simp [State.note, State.setRoom, hr, hopen] at hcl
    · exact absurd rfl hsame
  case idle | wait =>
    simp only [runJanitor] at h
    split at h <;> cases h
    exact absurd rfl hsame
  case scan now todo =>
    cases todo with
    | nil =>
      cases h
      exact absurd rfl hsame
    | cons r' rs =>
      simp only [runJanitor] at h
      split at h <;> cases h
      exact absurd rfl hsame
  case idleFor | gcInvites =>
    cases h
    exact absurd rfl hsame

/-- `Shutdown` closes the room it comes to. -/
theorem runShutdown_closes {pick : RoomId} (h : runShutdown s pick s.shutdown = some s')
    (hopen : (s.room r).closed = false) (hcl : (s'.room r).closed = true) :
    pick = r ∧ (∃ todo, s.shutdown = .run todo ∧ r ∈ todo) ∧
      s'.room r = Floor.closeRoom (s.room r) (some .serverStop) := by
  have hsame : s'.room ≠ s.room := by
    intro he
    rw [he, hopen] at hcl
    cases hcl
  cases hj : s.shutdown <;> rw [hj] at h
  case idle =>
    cases h
    exact absurd rfl hsame
  case run todo =>
    cases todo with
    | nil => simp [runShutdown] at h
    | cons r₁ rs =>
      simp only [runShutdown] at h
      split at h
      · rename_i hm
        split at h <;> cases h
        · rename_i h₁
          obtain ⟨-, rfl⟩ := State.closeBegin_eq_some h₁
          by_cases hr : r = pick
          · subst hr
            exact ⟨rfl, ⟨_, rfl, hm⟩, by simp [State.note, State.setRoom]⟩
          · simp [State.note, State.setRoom, hr, hopen] at hcl
        · exact absurd rfl hsame
      · simp at h
  case wait r₁ todo =>
    simp only [runShutdown] at h
    split at h <;> cases h
    exact absurd rfl hsame

/-- A leaving member closes its room as its owner. -/
def OwnersClose (s : State D) : Prop :=
  ∀ c r reason, (s.conns c).pc = .leaveClose r reason → reason = some .ownerLeft

namespace Sound

variable [Payload D]

theorem leaveClose_step (hs : Sound cfg s) (h : step cfg s a = some s') (ho : OwnersClose s) :
    OwnersClose s' := by
  intro c r reason hpc
  have hchange := step_pc h c
  generalize hpc' : (s'.conns c).pc = pc at hchange hpc
  have hread : pc.afterRead = true → reason = some .ownerLeft := by
    rw [hpc]
    simp [Pc.afterRead]
  cases hchange with
  | same _ => exact ho c r reason hpc
  | connected hello _ _ => cases hello <;> cases hpc
  | read m _ ha h => exact hread (readFrame_afterRead h)
  | readErr _ ha h => exact hread (readFails_afterRead h)
  | ran draw allow _ ha hnext =>
    subst ha hpc
    generalize hp : (s.conns c).pc = p at hnext
    cases hnext
    -- at `Leave`
    have hgoto : ∀ (s₁ : State D) (pc : Pc D), s₁.goto c pc = s' → pc = .leaveClose r reason := by
      rintro s₁ pc rfl
      simpa [State.goto, State.setConn] using hpc'
    simp only [step, hp, runPc] at h
    split at h
    · cases hgoto _ _ (Option.some.inj h)
    · rename_i hin
      push Not at hin
      split at h
      · cases hgoto _ _ (Option.some.inj h)
        rfl
      · rename_i howner
        have hleft := hgoto _ _ (Option.some.inj h)
        have hothers : (s.room r).members.filter (· ≠ c) ≠ [] :=
          hs.inv.others hin.1 fun he => howner he.symm
        have hmembers : ((s.dropMember r c).room r).members = (s.room r).members.filter (· ≠ c) := by
          have hroom := congrArg Floor.room (State.floor_dropMember hs.open_of_mem hin.1)
          change ((s.dropMember r c).floor.room r).members = _
          rw [hroom]
          simp [Floor.setRoom, Floor.dropRoom, Floor.close, State.floor]
        rw [hmembers, if_neg hothers] at hleft
        cases hleft

theorem step_closing (hs : Sound cfg s) (ho : OwnersClose s) (h : step cfg s a = some s')
    (r : RoomId) : ClosingChange s a r (s'.room r).closing := by
  generalize hrm : s'.room r = rm
  have hchange := hrm ▸ hs.step_room h r
  cases hchange with
  | same | touched | added | transferred | kicked | left => exact .same
  | created c allow t ha hpc hr =>
    have hno : (s.room r).closing = .no := (hs.inv.room_drawn r hr).2.2
    rw [show ({ lastActivity := t } : Room).closing = (s.room r).closing by rw [hno]]
    exact .same
  | destroyed c draw allow reason ha hpc hopen =>
    obtain rfl := ho c r reason hpc
    have howner : (s.room r).ownerID = some c := by
      have hphase : s.floor.phase c = .closing r := congrArg Pc.phase hpc
      exact (hs.inv.closing c r hphase).resolve_left (by rw [show (s.floor.room r).closed = false from hopen]; simp)
    exact .begun .ownerLeft (hs.inv.open_idle r hopen) fun d hm => .ownerLeft c draw allow r ha hpc howner hm
  | reaped pick reason ha hopen =>
    have hcl : (s'.room r).closed = true := by rw [hrm]; rfl
    obtain rfl | rfl := ha
    · obtain ⟨⟨now, todo, hj⟩, hroom⟩ := runJanitor_closes h hopen hcl
      rw [← hrm, hroom]
      exact .begun .idle (hs.inv.open_idle r hopen) fun d hm => .idle pick now r todo rfl hj hm
    · obtain ⟨rfl, ⟨todo, hj, hr⟩, hroom⟩ := runShutdown_closes h hopen hcl
      rw [← hrm, hroom]
      exact .begun .serverStop (hs.inv.open_idle _ hopen) fun d hm => .serverStop pick todo rfl hj hr hm
  | closing pick k ha hclosed =>
    subst ha
    have hstep := runClosing_change h
    rwa [hrm] at hstep

end Sound

variable [Payload D]

theorem ownersClose_of_reach {ok : State D → Act D → Prop} (hr : (relay (D := D) cfg).Reach ok s) :
    OwnersClose s :=
  hr.invariant (fun _ _ _ h => by cases h) fun _ _ _ hr ho _ h =>
    (sound_of_reach hr).leaveClose_step h ho

/-! ## Closing a channel -/

/-- The step closes `d`'s channel. -/
inductive Shuts (s : State D) (a : Act D) (d : ClientId) : Prop
  /-- `Leave`, or `CloseOut` of a client that was never in a room. -/
  | self (draw : Handle) (allow : Bool) (ha : a = .run d draw allow)
  | kicked (o : ClientId) (draw : Handle) (allow : Bool) (r : RoomId) (k : List (RoomOp D))
      (ha : a = .run o draw allow) (hpc : (s.conns o).pc = .member r (.owned (.kick d) :: k))
      (hopen : (s.room r).closed = false) (hm : d ∈ (s.room r).members)
      (hd : (s.room r).ownerID ≠ some d)
  | closed (r : RoomId) (pick : ClientId) (reason : Option Reason) (ms : List ClientId)
      (ha : a = .closing r pick) (h : (s.room r).closing = .closeOut reason d ms)

/-- Where on the floor a channel is closed. -/
inductive ShutOn (f f' : Floor D) (d : ClientId) : Prop
  | member (r : RoomId) (hm : d ∈ (f.room r).members) (hm' : d ∉ (f'.room r).members)
      (hopen : (f'.room r).closed = false)
  | closing (r : RoomId) (reason : Option Reason) (ms : List ClientId)
      (h : (f.room r).closing = .closeOut reason d ms) (h' : (f'.room r).closing = .next reason ms)
  | turned (h : f.phase d = .turned) (h' : f'.phase d = .left)

omit [Payload D] in
theorem Move.shutOn {may : May} {f f' : Floor D} (hm : Move cfg may f f') (h : f.shut d = false)
    (h' : f'.shut d = true) : ShutOn f f' d := by
  -- the channel that is closed is `d`'s
  have hd : ∀ {c : ClientId}, Function.update f.shut c true d = true → d = c := by
    intro c hc
    by_contra hne
    rw [Function.update_of_ne hne, h] at hc
    cases hc
  cases hm <;> first | exact absurd (h.symm.trans h') (by simp) | skip
  case connect c _ _ _ _ =>
    by_cases hdc : d = c
    · subst hdc
      simp at h'
    · simp [hdc, h] at h'
  case kick c r v t hc hopen hm hv =>
    obtain rfl := hd h'
    exact .member r hm (by simp [Floor.note, Floor.setRoom, Floor.dropRoom])
      (by simpa [Floor.note, Floor.setRoom, Floor.dropRoom] using hopen)
  case leaveMember c r t p hc hopen hm ho hp =>
    obtain rfl := hd h'
    exact .member r hm (by simp [Floor.setRoom, Floor.dropRoom])
      (by simpa [Floor.setRoom, Floor.dropRoom] using hopen)
  case closeMember r reason ms c hr =>
    obtain rfl := hd h'
    exact .closing r reason ms hr (by simp [Floor.setRoom])
  case closeOut c hc =>
    obtain rfl := hd h'
    exact .turned hc (by simp [Floor.close, Floor.goto])

omit [Payload D] in
theorem afterRead_phase {pc : Pc D} (h : pc.afterRead = true) : pc.phase ≠ .left := by
  cases pc <;> simp only [Pc.afterRead, Bool.false_eq_true] at h
  case member r todo =>
    simp only [Pc.phase]
    unfold headPhase
    split <;> simp
  all_goals simp [Pc.phase]

theorem Sound.step_shuts (hs : Sound cfg s) (h : step cfg s a = some s')
    (hopen : (s.conns d).outClosed = false) (hshut : (s'.conns d).outClosed = true) : Shuts s a d := by
  cases (hs.step_move h).shutOn (d := d) hopen hshut with
  | member r hm hm' hcl =>
    change d ∈ (s.room r).members at hm
    change d ∉ (s'.room r).members at hm'
    change (s'.room r).closed = false at hcl
    generalize hrm : s'.room r = rm at hm' hcl
    have hchange := hrm ▸ hs.step_room h r
    cases hchange with
    | same | touched | transferred => exact absurd hm hm'
    | created _ _ _ _ _ hr =>
      rw [show (s.room r).members = [] from (hs.inv.room_drawn r hr).1] at hm
      cases hm
    | added c draw allow t ha hpc hopen hcap =>
      refine absurd ?_ hm'
      simp only [Floor.addRoom]
      split
      · exact hm
      · exact List.mem_append_left _ hm
    | kicked o draw allow v k t ha hpc hopen hv ho =>
      obtain rfl : d = v := by
        by_contra hne
        exact hm' (by simp [Floor.dropRoom, hm, hne])
      exact .kicked o draw allow r k ha hpc hopen hm ho
    | left c draw allow t ha hpc hopen hc ho =>
      obtain rfl : d = c := by
        by_contra hne
        exact hm' (by simp [Floor.dropRoom, hm, hne])
      exact .self draw allow ha
    | destroyed | reaped => cases hcl
    | closing pick k ha hclosed =>
      rw [show (s.room r).members = [] from (hs.inv.closed_empty r hclosed).1] at hm
      cases hm
  | closing r reason ms hk hk' =>
    change (s.room r).closing = _ at hk
    change (s'.room r).closing = _ at hk'
    have hopen : (s.room r).closed ≠ false := by
      intro hopen
      rw [show (s.room r).closing = .no from hs.inv.open_idle r hopen] at hk
      cases hk
    generalize hrm : s'.room r = rm at hk'
    have hchange := hrm ▸ hs.step_room h r
    cases hchange with
    | same | touched => rw [hk] at hk'; cases hk'
    | created _ _ _ _ _ hr =>
      rw [show (s.room r).closing = .no from (hs.inv.room_drawn r hr).2.2] at hk
      cases hk
    | closing pick k ha hclosed => exact .closed r pick reason ms ha hk
    | added | transferred | kicked | left | destroyed | reaped => exact absurd ‹_› hopen
  | turned ht hl =>
    change (s.conns d).pc.phase = .turned at ht
    change (s'.conns d).pc.phase = .left at hl
    generalize hpc : (s'.conns d).pc = pc at hl
    have hchange := hpc ▸ step_pc h d
    cases hchange with
    | same => rw [ht] at hl; cases hl
    | connected hello ha hd =>
      rw [show (s.conns d).pc.phase = .absent from hs.inv.drawn d hd] at ht
      cases ht
    | read m _ ha hread => exact absurd hl (afterRead_phase (readFrame_afterRead hread))
    | readErr _ ha hread => exact absurd hl (afterRead_phase (readFails_afterRead hread))
    | ran draw allow _ ha hnext => exact .self draw allow ha

/-! ## The frames -/

/-- Where a `room_closed` frame is queued. -/
inductive NoticeSite (s : State D) (a : Act D) (d : ClientId) : Reason → Prop
  | kicked (o : ClientId) (draw : Handle) (allow : Bool) (r : RoomId) (k : List (RoomOp D))
      (ha : a = .run o draw allow) (hpc : (s.conns o).pc = .member r (.owned (.kick d) :: k))
      (hopen : (s.room r).closed = false) (hm : d ∈ (s.room r).members)
      (hd : (s.room r).ownerID ≠ some d) : NoticeSite s a d .kicked
  | closed (r : RoomId) (pick : ClientId) (re : Reason) (ms : List ClientId)
      (ha : a = .closing r pick) (h : (s.room r).closing = .notice re d ms) : NoticeSite s a d re

omit [Payload D] in
theorem Fits.not_closed {past : Handle → Handshake → Prop} {c : ClientId} {m : ServerMsg D}
    (h : Fits past c d m) : m.type ≠ .roomClosed := by
  intro ht
  cases h with
  | own _ _ h => simp [ht] at h
  | peer type _ _ _ _ _ _ h =>
    rw [show type = .roomClosed from ht] at h
    cases h

theorem posts_closed {l : List (Lib.Machine.Transition (State D) (Act D))}
    (hl : (relay (D := D) cfg).Trace l s) {m : ServerMsg D} (hm : s.posts a d = some m)
    (ht : m.type = .roomClosed) : ∃ re, m = closedMsg re ∧ NoticeSite s a d re ∧
      (s.conns d).outClosed = false := by
  have hfit := fit_of_trace hl
  obtain ⟨b, hb, -, rfl⟩ | ⟨hdir, hopen⟩ := posts_cases hm
  · have hbroad := broadcastType_site hl hb
    rw [ht] at hbroad
    cases hbroad
  · cases send_cases hdir with
    | closing r pick re ms ha hk => exact ⟨re, rfl, .closed r pick re ms ha hk, hopen⟩
    | redeemOk | inviteRedeemed | full | rekey => cases ht
    | fail _ _ _ _ hpc =>
      have hd := hfit d
      rw [hpc] at hd
      rw [hd.2] at ht
      cases ht
    | relayed _ c _ _ _ _ _ hpc => exact absurd ht (fits_of_relayed (hfit c) hpc).not_closed
    | sent _ c _ _ _ _ _ hpc => exact absurd ht (fits_of_sent (hfit c) hpc).not_closed
    | kick c draw allow r k s₁ ha hpc hrun =>
      obtain ⟨hroom, hmem, hd, -⟩ :=
        State.removeMember_eq_some (sound_of_reach hl.reach).open_of_mem hrun
      exact ⟨_, rfl, .kicked c draw allow r k ha hpc hroom hmem hd, hopen⟩

/-! ## Over a whole run -/

/-- What a run has done about those a `Close` has still to reach, and about those it has told. -/
structure Accounted (l : List (Lib.Machine.Transition (State D) (Act D))) (s : State D) : Prop where
  pending : ∀ r d, d ∈ (s.room r).closing.pending → ∃ re, (s.room r).closing.reason = some re ∧
    ∃ t ∈ l, Removes t.before t.label d re
  told : ∀ r reason d ms, (s.room r).closing = .closeOut reason d ms →
    ∃ re, ∃ t ∈ l, t.before.posts t.label d = some (closedMsg re)
  once : ∀ t ∈ l, ∀ d re, t.before.posts t.label d = some (closedMsg re) →
    (s.conns d).outClosed = true ∨ ∃ r reason ms, (s.room r).closing = .closeOut reason d ms

section
variable {l : List (Lib.Machine.Transition (State D) (Act D))}

theorem shut_of_closeOut (cfg : Config) {pick : ClientId} {reason : Option Reason} {ms : List ClientId}
    (hk : (s.room r).closing = .closeOut reason d ms) (h : step cfg s (.closing r pick) = some s') :
    (s'.conns d).outClosed = true := by
  simp only [step, hk, runClosing, Option.some.injEq] at h
  subst h
  change ((s.closeChan d).conns d).outClosed = true
  unfold State.closeChan
  split
  · assumption
  · simp [State.setConn]

omit [Payload D] in
theorem removeMember_isSome (hopen : (s.room r).closed = false) (hm : d ∈ (s.room r).members)
    (hd : (s.room r).ownerID ≠ some d) (reason : Reason) :
    ∃ s₁, s.removeMember r d reason = some s₁ := by
  have hdo : ¬ some d = (s.room r).ownerID := fun he => hd he.symm
  exact Option.isSome_iff_exists.mp (by simp [State.removeMember, hm, hopen, hdo])

theorem shut_of_kick {o : ClientId} {draw : Handle} {allow : Bool} {k : List (RoomOp D)}
    (hpc : (s.conns o).pc = .member r (.owned (.kick d) :: k)) (hopen : (s.room r).closed = false)
    (hm : d ∈ (s.room r).members) (hd : (s.room r).ownerID ≠ some d)
    (h : step cfg s (.run o draw allow) = some s') : (s'.conns d).outClosed = true := by
  simp only [step, hpc, runPc, runOp, runOwned] at h
  split at h <;> cases h
  · rename_i s₁ hrun
    obtain rfl := State.removeMember_eq hrun
    exact (congrArg Prod.snd (State.ends_goto _)).trans (State.shut_dropMember _ r d)
  · rename_i hnone
    obtain ⟨s₁, hsome⟩ := removeMember_isSome hopen hm hd .kicked
    rw [hnone] at hsome
    cases hsome

/-- Who is told is about to have its channel closed. -/
theorem told_next (h : step cfg s a = some s') {re : Reason}
    (hsite : NoticeSite s a d re) :
    (s'.conns d).outClosed = true ∨ ∃ r reason ms, (s'.room r).closing = .closeOut reason d ms := by
  cases hsite with
  | kicked o draw allow r k ha hpc hopen hm hd =>
    subst ha
    exact .inl (shut_of_kick hpc hopen hm hd h)
  | closed r pick re ms ha hk =>
    subst ha
    simp only [step, hk, runClosing, Option.some.injEq] at h
    subst h
    exact .inr ⟨r, some re, ms, by simp [State.setClosing, State.setRoom]⟩

omit [Payload D] in
theorem posts_kicked {o : ClientId} {draw : Handle} {allow : Bool} {k : List (RoomOp D)}
    (ha : a = .run o draw allow) (hpc : (s.conns o).pc = .member r (.owned (.kick d) :: k))
    (hopen : (s.conns d).outClosed = false) (hroom : (s.room r).closed = false)
    (hm : d ∈ (s.room r).members) (hd : (s.room r).ownerID ≠ some d) :
    s.posts a d = some (closedMsg .kicked) := by
  obtain ⟨s₁, hrun⟩ := removeMember_isSome hroom hm hd .kicked
  have hb : s.broadcast a = some (s₁.presence r) := by
    simp [ha, State.broadcast, hpc, Pc.broadcast, RoomOp.broadcast, hrun]
  have hdest : d ∉ (s₁.presence r).dests := by
    obtain rfl := State.removeMember_eq hrun
    rw [State.note_presence]
    exact State.not_mem_dropMember_dests _ r d
  have hdir : s.direct a = some (d, closedMsg .kicked) := by
    simp [ha, State.direct, hpc, Pc.direct, RoomOp.direct, hrun, closedMsg]
  simp [State.posts, hb, hdest, State.posts.named, hdir, hopen]

omit [Payload D] in
/-- A client that is told has not been told before. -/
theorem Accounted.fresh (hs : Sound cfg s) (ha : Accounted l s) {re re' : Reason}
    (hopen : (s.conns d).outClosed = false) (hsite : NoticeSite s a d re)
    {t : Lib.Machine.Transition (State D) (Act D)} (ht : t ∈ l) :
    t.before.posts t.label d ≠ some (closedMsg re') := by
  intro hpost
  obtain hshut | ⟨r, reason, ms, hk⟩ := ha.once t ht d re' hpost
  · rw [hopen] at hshut
    cases hshut
  have hpend : d ∈ (s.room r).closing.pending := by simp [hk, Closing.pending]
  cases hsite with
  | kicked o draw allow r' k _ _ _ hm _ => exact (hs.inv.pend r d hpend).2.2 r' hm
  | closed r' pick re ms' _ hk' =>
    have hpend' : d ∈ (s.room r').closing.pending := by simp [hk', Closing.pending]
    obtain rfl := hs.inv.pend_unique r r' d hpend hpend'
    rw [hk] at hk'
    cases hk'

theorem accounted_of_trace (hl : (relay (D := D) cfg).Trace l s) : Accounted l s := by
  induction hl with
  | nil => exact ⟨by simp [relay, Closing.pending], by simp [relay], by simp⟩
  | @snoc l s s' a hl h ih =>
    have hs := sound_of_reach hl.reach
    have hchange := hs.step_closing (ownersClose_of_reach hl.reach) h
    have hold : ∀ {d re}, (∃ t ∈ l, Removes t.before t.label d re) →
        ∃ t ∈ l ++ [⟨s, a, s'⟩], Removes t.before t.label d re := by
      rintro d re ⟨t, ht, hrem⟩
      exact ⟨t, by simp [ht], hrem⟩
    -- a `Close` that would tell nobody has nobody to tell
    have hsilent : ∀ r d ms, (s.room r).closing = .next none ms → d ∉ ms := by
      intro r d ms hk hd
      obtain ⟨re, hre, -⟩ := ih.pending r d (by rw [hk]; exact hd)
      rw [hk] at hre
      cases hre
    refine ⟨fun r d hd => ?_, fun r reason d ms hk => ?_, fun t ht d re hpost => ?_⟩
    · generalize hk : (s'.room r).closing = k at hd
      cases hk ▸ hchange r with
      | same =>
        obtain ⟨re, hre, hrem⟩ := ih.pending r d hd
        exact ⟨re, hre, hold hrem⟩
      | begun re hno hrem => exact ⟨re, rfl, ⟨s, a, s'⟩, by simp, hrem d hd⟩
      | quiet pick k ha hp hr =>
        obtain ⟨re, hre, hrem⟩ := ih.pending r d (hp ▸ hd)
        exact ⟨re, (hr (List.ne_nil_of_mem hd)).trans hre, hold hrem⟩
      | next pick re ms ha hbefore hm =>
        have hms : d ∈ ms := by
          obtain rfl | hd := List.mem_cons.mp hd
          · exact hm
          · exact List.mem_of_mem_filter hd
        obtain ⟨re', hre, hrem⟩ := ih.pending r d (by rw [hbefore]; exact hms)
        rw [hbefore] at hre
        exact ⟨re', hre, hold hrem⟩
      | silent pick ms ha hbefore hm => exact absurd hm (hsilent r pick ms hbefore)
      | noticed pick re d' ms ha hbefore =>
        obtain ⟨re', hre, hrem⟩ := ih.pending r d (by rw [hbefore]; exact hd)
        rw [hbefore] at hre
        exact ⟨re', hre, hold hrem⟩
      | shut pick reason d' ms ha hbefore =>
        obtain ⟨re', hre, hrem⟩ := ih.pending r d (by rw [hbefore]; exact List.mem_cons_of_mem _ hd)
        rw [hbefore] at hre
        exact ⟨re', hre, hold hrem⟩
    · generalize hk' : (s'.room r).closing = k at hk
      cases hk' ▸ hchange r with
      | same =>
        obtain ⟨re, t, ht, hpost⟩ := ih.told r reason d ms hk
        exact ⟨re, t, by simp [ht], hpost⟩
      | begun | next | shut => cases hk
      | quiet pick k ha hp hr hno => exact absurd hk (hno _ _ _)
      | silent pick ms ha hbefore hm => exact absurd hm (hsilent r pick ms hbefore)
      | noticed pick re d' ms' ha hbefore =>
        cases hk
        have hopen : (s.conns d).outClosed = false :=
          (hs.inv.pend r d (by rw [show (s.floor.room r).closing = _ from hbefore]; simp [Closing.pending])).1
        refine ⟨re, ⟨s, a, s'⟩, by simp, ?_⟩
        subst ha
        simp [State.posts, State.posts.named, State.broadcast, State.direct, hbefore, Closing.direct,
          hopen, closedMsg]
    · obtain ht | ht := List.mem_append.mp ht
      · obtain hshut | ⟨r, reason, ms, hk⟩ := ih.once t ht d re hpost
        · exact .inl (shut_step hs h hshut)
        · generalize hk' : (s'.room r).closing = k
          cases hk' ▸ hchange r with
          | same => exact .inr ⟨r, reason, ms, hk'.trans hk⟩
          | begun re hno _ =>
            rw [hk] at hno
            cases hno
          | quiet pick k ha hp hr hno hno' => exact absurd hk (hno' _ _ _)
          | next _ _ _ _ hbefore | silent _ _ _ hbefore | noticed _ _ _ _ _ hbefore =>
            rw [hk] at hbefore
            cases hbefore
          | shut pick reason' d' ms' ha hbefore =>
            subst ha
            exact .inl (shut_of_closeOut cfg hk h)
      · obtain rfl := List.mem_singleton.mp ht
        obtain ⟨re', he, hsite, -⟩ := posts_closed hl hpost rfl
        exact told_next h hsite

/-- **A member that is disconnected is told why.** In every run: a `room_closed` frame names the
reason for which a step up to then has taken its receiver out of a room, and is the only one the
client is offered; and a channel is closed by the client's own goroutine or after such a frame has
been offered to it (a full channel does not take it). -/
theorem told_why (hl : (relay (D := D) cfg).Trace l s) {n : Nat}
    {t : Lib.Machine.Transition (State D) (Act D)} (ht : l[n]? = some t) (d : ClientId) :
    (∀ m, t.before.posts t.label d = some m → m.type = .roomClosed →
      ∃ re, m = closedMsg re ∧ (∃ t' ∈ l.take (n + 1), Removes t'.before t'.label d re) ∧
        ∀ t' ∈ l.take n, ∀ re', t'.before.posts t'.label d ≠ some (closedMsg re')) ∧
    ((t.before.conns d).outClosed = false → (t.after.conns d).outClosed = true →
      (∃ draw allow, t.label = .run d draw allow) ∨
        ∃ re, ∃ t' ∈ l.take (n + 1), t'.before.posts t'.label d = some (closedMsg re)) := by
  obtain ⟨hbefore, hafter, hstep⟩ := hl.at ht
  have hs := sound_of_reach hbefore.reach
  have hacc := accounted_of_trace hbefore
  have htake : l.take (n + 1) = l.take n ++ [t] := by rw [List.take_add_one, ht]; rfl
  have hold : ∀ t' ∈ l.take n, t' ∈ l.take (n + 1) := fun t' h => htake ▸ List.mem_append_left _ h
  have hnow : t ∈ l.take (n + 1) := by simp [htake]
  refine ⟨fun m hm hty => ?_, fun hopen hshut => ?_⟩
  · obtain ⟨re, rfl, hsite, hopen⟩ := posts_closed hbefore hm hty
    refine ⟨re, rfl, ?_, fun t' ht' re' => hacc.fresh hs hopen hsite ht'⟩
    cases hsite with
    | kicked o draw allow r k ha hpc hroom hmem hd =>
      have hacting : t.before.floor.phase o = .acting r (.kick d) := congrArg Pc.phase hpc
      have howner : (t.before.room r).ownerID = some o :=
        (hs.inv.acting o r _ hacting).resolve_left (by
          rw [show (t.before.floor.room r).closed = false from hroom]
          simp)
      exact ⟨t, hnow, .kicked o draw allow r k ha hpc howner hmem⟩
    | closed r pick re ms ha hk =>
      obtain ⟨re', hre, t', ht', hrem⟩ := hacc.pending r d (by rw [hk]; simp [Closing.pending])
      rw [hk] at hre
      cases hre
      exact ⟨t', hold t' ht', hrem⟩
  · cases hs.step_shuts hstep hopen hshut with
    | self draw allow ha => exact .inl ⟨draw, allow, ha⟩
    | kicked o draw allow r k ha hpc hroom hmem hd =>
      exact .inr ⟨.kicked, t, hnow, posts_kicked ha hpc hopen hroom hmem hd⟩
    | closed r pick reason ms ha hk =>
      obtain ⟨re, t', ht', hpost⟩ := hacc.told r reason d ms hk
      exact .inr ⟨re, t', hold t' ht', hpost⟩

end

/-- The owner of the room kicks client 2. -/
def sampleKick : List (Act String) := sampleEntered ++ .frame 1 (.kick 2) :: ops 1 2

theorem sampleKick_some :
    ((relay sampleConfig).stepsFrom (relay sampleConfig).init sampleKick).isSome = true := by
  decide +kernel

theorem told_why_sample :
    let l := (((relay sampleConfig).stepsFrom (relay sampleConfig).init sampleKick).get
      sampleKick_some).1
    ∃ t, l[31]? = some t ∧ t.before.posts t.label 2 = some (closedMsg .kicked) ∧
      ∀ t' ∈ l.take 31, ∀ re, t'.before.posts t'.label 2 ≠ some (closedMsg re) := by
  intro l
  obtain ⟨t, ht⟩ := Option.isSome_iff_exists.mp (show l[31]?.isSome = true by decide +kernel)
  have hpost : l[31]?.bind (fun t => t.before.posts t.label 2) = some (closedMsg .kicked) := by
    decide +kernel
  rw [ht] at hpost
  have htold := told_why (Lib.Machine.trace_get sampleKick_some) ht 2
  obtain ⟨re, he, -, honce⟩ := htold.1 _ hpost rfl
  exact ⟨t, ht, hpost, honce⟩

end E2EAnon.Relay
