import E2EAnon.Relay.Rooms

/-!
# The janitor and the rooms in use (`hub.go:197-229`)

For each room of its snapshot the janitor reads `MemberCount` and `idleFor` and calls `Close`, in three
sections. The owner of a room is in it until it is closed, so the one open room without members that
a goroutine can get at is the room whose creator is still to be added (`Known`). Only the creator can
enter a room that the janitor has found empty; `janitor_spares` is about the runs in which it does not
do so once the idle check has passed.
-/

namespace E2EAnon.Relay

open Lib

variable {D : Type} {cfg : Config}

/-- The room on which `Close`, called by the janitor, takes effect. -/
def destroys (t : Machine.Transition (State D) (Act D)) : Option RoomId :=
  match t.label, t.before.janitor with
  | .janitor _, .close _ r _ => if (t.before.room r).closed then none else some r
  | _, _ => none

/-- No room that has members is destroyed by the janitor. -/
def Spares (l : List (Machine.Transition (State D) (Act D))) : Prop :=
  ∀ t ∈ l, ∀ r, destroys t = some r → (t.before.room r).members = []

/-- The idle check passes on a room that has been entered since its members were counted (which takes
a clock that goes back), or the creator enters between the check and `Close`. -/
def overtaken (cfg : Config) (s : State D) : Act D → Bool
  | .janitor _ =>
    match s.janitor with
    | .idleFor now r _ =>
      now - (s.room r).lastActivity ≥ cfg.roomIdleTimeout && (s.room r).members ≠ []
    | _ => false
  | .run c _ _ =>
    match (s.conns c).pc, s.janitor with
    | .addOwner r, .close _ r' _ => r = r'
    | _, _ => false
  | _ => false

/-! ## Rooms without members -/

/-- A room that a goroutine or an invite refers to has members, unless it is closed or its creator is
still to be added. -/
structure Known (f : Floor D) : Prop where
  phase   : ∀ c r, (f.phase c).room? = some r →
    f.phase c = .opening r ∨ (f.room r).closed = true ∨ (f.room r).members ≠ []
  invites : ∀ t inv, f.invites t = some inv →
    (f.room inv.room).closed = true ∨ (f.room inv.room).members ≠ []

namespace Known

variable {may : May} {f f' : Floor D}

theorem phase_move (h : Known f) (hi : Inv cfg f) (hm : Move cfg may f f') :
    ∀ c r, (f'.phase c).room? = some r →
      f'.phase c = .opening r ∨ (f'.room r).closed = true ∨ (f'.room r).members ≠ [] := by
  have phase := h.phase
  have invites := h.invites
  have opening := hi.opening
  have room_ref := hi.room_ref
  have others := @hi.others
  have hsize := cfg.maxRoomSize_pos
  cases hm <;> first | exact phase | skip
  all_goals
    intro c r hc
    simp only [Floor.goto, Floor.setRoom, Floor.note, Floor.close, Floor.addRoom, Floor.dropRoom,
      Floor.closeRoom, Function.update_apply] at hc ⊢
    grind -ring -linarith [Phase.room?, List.append_eq_nil_iff]

theorem invites_move (h : Known f) (hi : Inv cfg f) (hm : Move cfg may f f') :
    ∀ t inv, f'.invites t = some inv →
      (f'.room inv.room).closed = true ∨ (f'.room inv.room).members ≠ [] := by
  have acting : ∀ c r q, f.phase c = .acting r q →
      (f.room r).closed = true ∨ (f.room r).members ≠ [] := fun c r q hc => by
    simpa [hc] using h.phase c r (by rw [hc]; rfl)
  have invites := h.invites
  have invite_ref := hi.invite_ref
  have others := @hi.others
  cases hm <;> first | exact invites | skip
  all_goals
    intro t inv ht
    simp only [Floor.goto, Floor.setRoom, Floor.note, Floor.close, Floor.addRoom, Floor.dropRoom,
      Floor.closeRoom, Function.update_apply] at ht ⊢
    grind -ring -linarith [List.append_eq_nil_iff, Option.filter_eq_some_iff]

theorem init : Known ({} : State D).floor := by
  constructor <;> simp [State.floor, Pc.phase, Phase.room?]

end Known

/-! ## Only the janitor's goroutine moves the janitor -/

theorem clearSession_janitor (s : State D) (sid : String) (c : ClientId) :
    (s.clearSession sid c).janitor = s.janitor := by
  obtain ⟨m, hm, -⟩ := s.clearSession_eq sid c
  rw [hm]

theorem clearSessionByClient_janitor (s : State D) (c : ClientId) :
    (s.clearSessionByClient c).janitor = s.janitor := by
  obtain ⟨m, hm, -⟩ := s.clearSessionByClient_eq "" c
  rw [hm]

theorem setSessionRoom_janitor (s : State D) (sid : String) (r : RoomId) :
    (s.setSessionRoom sid r).janitor = s.janitor := by
  obtain he | ⟨sc, -, he⟩ := s.setSessionRoom_eq sid r <;> rw [he]

theorem clientSend_janitor (s : State D) (c dst : ClientId) (m : ServerMsg D) (pc : Pc D) :
    (s.clientSend c dst m pc).janitor = s.janitor := by
  unfold State.clientSend
  split <;> rfl

variable [Payload D] {s s' : State D} {ok : State D → Act D → Prop}

variable {c : ClientId} {r : RoomId}

theorem runOp_janitor {draw : Handle} {k : List (RoomOp D)} {op : RoomOp D}
    (h : runOp cfg s c draw r k op = some s') : s'.janitor = s.janitor := by
  cases op with
  | setSessionRoom => cases h; exact setSessionRoom_janitor s _ r
  | broadcastPresence =>
    cases h
    exact (State.Quiet.broadcastPresence (s := s)).janitor
  | send dst m => cases h; exact clientSend_janitor s c dst m _
  | relay body => cases h; exact (State.Quiet.relay (s := s) body).janitor
  | ownerCheck q =>
    have hq := (State.Quiet.noteCheck (s := s) c r q).janitor
    simp only [runOp] at h
    split at h
    · cases h; exact hq
    · split at h <;> cases h <;> exact hq
  | owned q =>
    simp only [runOp] at h
    cases q with
    | invite =>
      simp only [runOwned, State.drawId] at h
      split at h
      · cases h
      · cases h; rfl
    | rekey t d => cases h; exact (State.Quiet.sendTo (s := s) _).janitor
    | transfer t =>
      simp only [runOwned] at h
      split at h <;> cases h
      · rename_i hset
        exact (State.Quiet.setOwner hset).janitor
      · rfl
    | kick t =>
      simp only [runOwned] at h
      split at h <;> cases h
      · rename_i hrem
        exact (State.Quiet.removeMember hrem).janitor
      · rfl
    | roster d => cases h; exact (State.Quiet.broadcastExcept (s := s) _).janitor
  | clearSessionByClient v => cases h; exact clearSessionByClient_janitor s v
  | getHandshake | release =>
    simp only [runOp] at h
    split at h <;> cases h <;> rfl
  | fileChunk t i d =>
    simp only [runOp] at h
    split at h
    · cases h; rfl
    · split at h <;> cases h <;> rfl
  | addInflight =>
    simp only [runOp] at h
    split at h <;> cases h <;> rfl
  | broadcastFile m => cases h; exact (State.Quiet.broadcastExcept (s := s) m).janitor
  | _ => cases h; rfl

theorem runPc_janitor {draw : Handle} {allow : Bool} {pc : Pc D}
    (h : runPc cfg s c draw allow pc = some s') : s'.janitor = s.janitor := by
  cases pc with
  | absent | hsLoop | exited => cases h
  | claimCreate | claimRedeem =>
    simp only [runPc] at h
    split at h <;> cases h
    · rename_i hclaim
      obtain ⟨-, rfl⟩ := State.tryClaimSession_eq_some hclaim
      rfl
    · rfl
  | createRoom | newHandshake =>
    simp only [runPc, State.drawId] at h
    split at h
    · cases h
    · cases h; rfl
  | addOwner r | hsEnter r h' =>
    simp only [runPc] at h
    split at h <;> cases h
    · rename_i hadd
      exact (State.Quiet.add hadd).janitor
    · rfl
  | redeemInvite tok =>
    simp only [runPc, State.redeemInvite] at h
    split at h
    · rename_i hred
      cases h
      split at hred
      · cases hred
      · split at hred <;> cases hred
        rfl
    · rename_i hred
      cases h
      split at hred
      · cases hred; rfl
      · split at hred <;> cases hred
        rfl
  | ownerClient | hsRelay =>
    simp only [runPc] at h
    split at h <;> cases h <;> rfl
  | sendRedeemOk | sendInviteRedeemed | hsSend | hsFull | fail =>
    cases h
    exact clientSend_janitor s _ _ _ _
  | closeOut =>
    cases h
    exact (State.Quiet.closeChan (s := s)).janitor
  | member r todo =>
    cases todo with
    | nil => cases h
    | cons op k => exact runOp_janitor h
  | leave r =>
    simp only [runPc] at h
    split at h
    · cases h; rfl
    · split at h <;> cases h
      · rfl
      · exact (State.Quiet.dropMember (s := s) (r := r)).janitor
  | leaveClose r reason =>
    simp only [runPc] at h
    split at h <;> cases h
    · rename_i hclose
      exact (State.Quiet.closeBegin hclose).janitor
    · rfl
  | leaveWait | awaitDone =>
    simp only [runPc] at h
    split at h <;> cases h
    rfl
  | clearSession | deferSession =>
    cases h
    exact clearSession_janitor s _ c
  | deferBytes rest => cases rest <;> cases h <;> rfl
  | _ => cases h; rfl

theorem janitor_step {a : Act D} (h : step cfg s a = some s') (ha : ∀ pick, a ≠ .janitor pick) :
    s'.janitor = s.janitor := by
  cases a with
  | janitor pick => exact absurd rfl (ha pick)
  | run c draw allow => exact runPc_janitor h
  | connect c hello =>
    simp only [step, State.drawId] at h
    split at h
    · cases h
    · cases h; rfl
  | frame c m =>
    simp only [step] at h
    split at h
    · cases h
    · obtain ⟨pc', -, rfl⟩ := Option.map_eq_some_iff.mp h
      rfl
  | readErr c =>
    obtain ⟨pc', -, rfl⟩ := Option.map_eq_some_iff.mp h
    rfl
  | pump c =>
    simp only [step] at h
    split at h
    · cases h
    · split at h <;> cases h
      rfl
  | pumpExit c =>
    simp only [step] at h
    split at h <;> cases h
    rfl
  | drop c | clock t => cases h; rfl
  | closing r pick =>
    simp only [step] at h
    generalize (s.room r).closing = k at h
    cases k with
    | no | done => cases h
    | removeRoom | dropInvites => cases h; rfl
    | next reason ms =>
      cases ms with
      | nil => cases h; rfl
      | cons m ms =>
        simp only [runClosing] at h
        split at h <;> cases h
        exact clearSessionByClient_janitor s pick
    | notice re c ms => cases h; exact (State.Quiet.sendLocked (s := s) _).janitor
    | closeOut reason c ms => cases h; exact (State.Quiet.closeChan (s := s)).janitor
  | shutdown pick =>
    simp only [step] at h
    generalize s.shutdown = k at h
    cases k with
    | idle => cases h; rfl
    | run todo =>
      cases todo with
      | nil => cases h
      | cons r rs =>
        simp only [runShutdown] at h
        split at h
        · split at h <;> cases h
          · rename_i hclose
            exact (State.Quiet.closeBegin hclose).janitor
          · rfl
        · cases h
    | wait r todo =>
      simp only [runShutdown] at h
      split at h <;> cases h
      rfl

/-! ## Runs -/

theorem known_of_reach (hr : (relay (D := D) cfg).Reach ok s) : Known s.floor :=
  hr.invariant (I := fun s => Known s.floor) Known.init fun _ _ _ hr' h _ hstep =>
    ⟨h.phase_move (sound_of_reach hr').inv ((sound_of_reach hr').step_move hstep),
      h.invites_move (sound_of_reach hr').inv ((sound_of_reach hr').step_move hstep)⟩

/-- Nobody enters a room without members but its creator. -/
theorem empty_step {a : Act D} (hr : (relay cfg).Reach ok s) (h : step cfg s a = some s')
    (hempty : (s.room r).members = [])
    (hadd : ∀ c draw allow, a = .run c draw allow → (s.conns c).pc ≠ .addOwner r) :
    (s'.room r).members = [] := by
  have hs := sound_of_reach hr
  generalize hrm : s'.room r = rm
  cases hrm ▸ hs.step_room h r with
  | same | touched | closing => exact hempty
  | created | destroyed | reaped => rfl
  | added c draw allow t ha hpc hopen =>
    obtain hpc | ⟨h', hpc⟩ := hpc
    · exact absurd hpc (hadd c draw allow ha)
    · -- a joiner knows the room
      have hphase : s.floor.phase c = .joiner r := by simp [State.floor, hpc, Pc.phase]
      obtain he | he | he := (known_of_reach hr).phase c r (by rw [hphase]; rfl)
      · rw [hphase] at he
        cases he
      · exact absurd he (by simp [State.floor, hopen])
      · exact absurd hempty he
  | transferred c draw allow target k t ha hpc hopen hm =>
    rw [hempty] at hm
    cases hm
  | kicked | left => simp [Floor.dropRoom, hempty]

/-- The room the janitor is about to close has no members. -/
def Decided (s : State D) : Prop :=
  ∀ now r todo, s.janitor = .close now r todo → (s.room r).members = []

theorem Decided.step {a : Act D} (hr : (relay cfg).Reach ok s) (h : step cfg s a = some s')
    (hd : Decided s) (hok : overtaken cfg s a = false) : Decided s' := by
  intro now r todo hj
  by_cases ha : ∃ pick, a = .janitor pick
  · obtain ⟨pick, rfl⟩ := ha
    simp only [Relay.step] at h
    generalize hfrom : s.janitor = k at h
    cases k with
    | idle =>
      simp only [runJanitor] at h
      split at h <;> cases h
      cases hj
    | scan now' todo' =>
      cases todo' with
      | nil => cases h; cases hj
      | cons r' rs =>
        simp only [runJanitor] at h
        split at h <;> cases h
        dsimp only at hj
        split at hj <;> cases hj
    | idleFor now' r' todo' =>
      cases h
      dsimp only at hj
      split at hj <;> cases hj
      rename_i hidle
      simpa [overtaken, hfrom, hidle] using hok
    | close now' r' todo' =>
      simp only [runJanitor] at h
      split at h <;> cases h <;> cases hj
    | wait now' r' todo' =>
      simp only [runJanitor] at h
      split at h <;> cases h
      cases hj
    | gcInvites now' => cases h; cases hj
  · have hothers : ∀ pick, a ≠ .janitor pick := fun pick he => ha ⟨pick, he⟩
    rw [janitor_step h hothers] at hj
    refine empty_step hr h (hd now r todo hj) fun c draw allow he hpc => ?_
    simp [overtaken, he, hpc, hj] at hok

theorem decided_of_reach (hr : (relay cfg).Reach (fun s a => overtaken cfg s a = false) s) :
    Decided s :=
  hr.invariant (I := Decided) (fun _ _ _ hj => by cases hj) fun _ _ _ hr' hd hok hstep =>
    hd.step hr' hstep hok

/-- In every run in which no idle check is overtaken, the janitor destroys no room that has members. -/
theorem janitor_spares {l : List (Machine.Transition (State D) (Act D))} (hl : (relay cfg).Trace l s)
    (hok : ∀ t ∈ l, overtaken cfg t.before t.label = false) : Spares l := by
  intro t ht r hr
  obtain ⟨n, hn⟩ := List.mem_iff_getElem?.mp ht
  have hbefore : (relay cfg).Reach (fun s a => overtaken cfg s a = false) t.before :=
    (hl.at hn).1.reach_steps fun u hu => hok u (List.mem_of_mem_take hu)
  unfold destroys at hr
  split at hr
  · rename_i now r' todo hlabel hj
    split at hr
    · cases hr
    · cases Option.some.inj hr
      exact decided_of_reach hbefore now r todo hj
  · cases hr

/-! ## A creator held up between `CreateRoom` and `Add` -/

/-- Client 1 creates room 100, and the idle check of the janitor passes on it; then come `Add` and
`Close`, in the order `rest` says. -/
def sampleHeldUp (rest : List (Act String)) : List (Act String) :=
  .connect 1 (.create "ann" "s1") :: ops 1 2 ++ .run 1 100 true ::
    [.clock 200, .janitor 0, .janitor 100, .janitor 100] ++ rest

theorem closedFirst_some : ((relay sampleConfig).stepsFrom (relay sampleConfig).init
    (sampleHeldUp [.janitor 100, .run 1 0 true])).isSome = true := by decide +kernel

theorem janitor_spares_sample :
    let r := ((relay sampleConfig).stepsFrom (relay sampleConfig).init
      (sampleHeldUp [.janitor 100, .run 1 0 true])).get closedFirst_some
    r.1.filterMap destroys = [100] ∧ Spares r.1 := by
  have hok : (((relay sampleConfig).stepsFrom (relay sampleConfig).init
      (sampleHeldUp [.janitor 100, .run 1 0 true])).get closedFirst_some).1.all
        (fun t => !overtaken sampleConfig t.before t.label) = true := by decide +kernel
  refine ⟨by decide +kernel, janitor_spares (Machine.trace_get closedFirst_some) fun t ht => ?_⟩
  exact Bool.eq_false_of_not_eq_true' (List.all_eq_true.mp hok t ht)

theorem addedFirst_some : ((relay sampleConfig).stepsFrom (relay sampleConfig).init
    (sampleHeldUp [.run 1 0 true, .janitor 100])).isSome = true := by decide +kernel

/-- The creator is added after the idle check, and the janitor closes the room it is in. -/
theorem closed_in_use : ∃ l s, (relay (D := String) sampleConfig).Trace l s ∧ ¬ Spares l := by
  have hlast : ((((relay sampleConfig).stepsFrom (relay sampleConfig).init
      (sampleHeldUp [.run 1 0 true, .janitor 100])).get addedFirst_some).1.getLast?).any (fun t =>
        destroys t = some 100 && (t.before.room 100).members = [1]) = true := by decide +kernel
  refine ⟨_, _, Machine.trace_get addedFirst_some, fun h => ?_⟩
  obtain ⟨t, ht, hdestroys⟩ := (Option.any_eq_true _ _).mp hlast
  rw [Bool.and_eq_true, decide_eq_true_eq, decide_eq_true_eq] at hdestroys
  have hnone := h t (List.mem_of_getLast? ht) 100 hdestroys.1
  rw [hdestroys.2] at hnone
  cases hnone

end E2EAnon.Relay
