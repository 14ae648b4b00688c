import E2EAnon.Relay.Cleanup
import E2EAnon.Relay.Notice
import E2EAnon.Relay.Settle

/-!
# Winding down (`hub.go:184`, `:232-236`, `main.go:108-117`)

| here | there |
| --- | --- |
| `Shutdown.ahead` | what is left of the snapshot `Shutdown` loops over (`hub.go:233`) |
| `Listed`         | `hub.rooms`: the rooms created and not yet taken out by `Close` |
| `Act.winds`      | what goes on after the signal: reads fail, pumps exit, goroutines and `Shutdown` run |

`shutdown_closes`: at the end of its loop `Shutdown` has left no room open that it could have found.
A room created after the snapshot it does not see. `winds_down`: every reachable state can be wound
down to an empty hub; a member whose handler has panicked, whom nothing else takes out of its room,
is taken out by `Shutdown`.
-/

namespace E2EAnon.Relay

open Lib

variable {D : Type} {cfg : Config} {s s' : State D} {c : ClientId} {r : RoomId}

/-! ## Only its own goroutine moves `Shutdown` -/

theorem clearSession_shutdown (s : State D) (sid : String) (c : ClientId) :
    (s.clearSession sid c).shutdown = s.shutdown := by
  obtain ⟨m, hm, -⟩ := s.clearSession_eq sid c
  rw [hm]

theorem clearSessionByClient_shutdown (s : State D) (c : ClientId) :
    (s.clearSessionByClient c).shutdown = s.shutdown := by
  obtain ⟨m, hm, -⟩ := s.clearSessionByClient_eq "" c
  rw [hm]

theorem setSessionRoom_shutdown (s : State D) (sid : String) (r : RoomId) :
    (s.setSessionRoom sid r).shutdown = s.shutdown := by
  obtain he | ⟨sc, -, he⟩ := s.setSessionRoom_eq sid r <;> rw [he]

theorem clientSend_shutdown (s : State D) (c dst : ClientId) (m : ServerMsg D) (pc : Pc D) :
    (s.clientSend c dst m pc).shutdown = s.shutdown := by
  unfold State.clientSend
  split <;> rfl

theorem redeemInvite_shutdown {tok : Handle} {o : Option RoomId} (h : s.redeemInvite tok = (s', o)) :
    s'.shutdown = s.shutdown := by
  unfold State.redeemInvite at h
  split at h <;> cases h <;> rfl

variable [Payload D]

theorem runOp_shutdown {draw : Handle} {k : List (RoomOp D)} {op : RoomOp D}
    (h : runOp cfg s c draw r k op = some s') : s'.shutdown = s.shutdown := by
  cases op with
  | setSessionRoom => cases h; exact setSessionRoom_shutdown s _ r
  | clearSessionByClient v => cases h; exact clearSessionByClient_shutdown s v
  | send dst m => cases h; exact clientSend_shutdown s c dst m _
  | broadcastPresence => cases h; exact (State.Quiet.broadcastPresence (s := s)).shutdown
  | relay body => cases h; exact (State.Quiet.relay (s := s) body).shutdown
  | broadcastFile m => cases h; exact (State.Quiet.broadcastExcept (s := s) m).shutdown
  | owned q =>
    cases q with
    | rekey t d => cases h; exact (State.Quiet.sendTo (s := s) _).shutdown
    | roster d => cases h; exact (State.Quiet.broadcastExcept (s := s) _).shutdown
    | invite =>
      simp only [runOp, runOwned, State.drawId] at h
      split at h <;> cases h
      rfl
    | transfer t =>
      simp only [runOp, runOwned] at h
      split at h <;> cases h
      · rename_i hset
        exact (State.Quiet.setOwner hset).shutdown
      · rfl
    | kick t =>
      simp only [runOp, runOwned] at h
      split at h <;> cases h
      · rename_i hrem
        exact (State.Quiet.removeMember hrem).shutdown
      · rfl
  | ownerCheck q =>
    have hq := (State.Quiet.noteCheck (s := s) c r q).shutdown
    simp only [runOp] at h
    repeat' split at h
    all_goals cases h; exact hq
  | _ =>
    simp only [runOp] at h
    repeat' split at h
    all_goals (cases h; rfl)

theorem runPc_shutdown {draw : Handle} {allow : Bool} {pc : Pc D}
    (h : runPc cfg s c draw allow pc = some s') : s'.shutdown = s.shutdown := by
  cases pc with
  | member r todo =>
    cases todo with
    | nil => cases h
    | cons op k => exact runOp_shutdown h
  | claimCreate | claimRedeem =>
    simp only [runPc] at h
    split at h <;> cases h
    · rename_i hclaim
      obtain ⟨-, rfl⟩ := State.tryClaimSession_eq_some hclaim
      rfl
    · rfl
  | addOwner r | hsEnter r h' =>
    simp only [runPc] at h
    split at h <;> cases h
    · rename_i hadd
      exact (State.Quiet.add hadd).shutdown
    · rfl
  | redeemInvite tok =>
    simp only [runPc] at h
    split at h <;> cases h
    all_goals
      rename_i hred
      have hkept := redeemInvite_shutdown hred
      exact hkept
  | sendRedeemOk | sendInviteRedeemed | hsSend | hsFull | fail =>
    cases h
    exact clientSend_shutdown s _ _ _ _
  | closeOut => cases h; exact (State.Quiet.closeChan (s := s)).shutdown
  | leave r =>
    have hdrop := (State.Quiet.dropMember (s := s) (r := r) (c := c)).shutdown
    simp only [runPc] at h
    repeat' split at h
    all_goals cases h; first | rfl | exact hdrop
  | leaveClose r reason =>
    simp only [runPc] at h
    split at h <;> cases h
    · rename_i hclose
      exact (State.Quiet.closeBegin hclose).shutdown
    · rfl
  | clearSession | deferSession => cases h; exact clearSession_shutdown s _ c
  | deferBytes rest => cases rest <;> cases h <;> rfl
  | _ =>
    simp only [runPc, State.drawId, reduceCtorEq] at h
    repeat' split at h
    all_goals cases h <;> rfl

omit [Payload D] in
theorem runJanitor_shutdown {pick : RoomId} {j : Janitor} (h : runJanitor cfg s pick j = some s') :
    s'.shutdown = s.shutdown := by
  cases j with
  | close now r todo =>
    simp only [runJanitor] at h
    split at h <;> cases h
    · rename_i hclose
      exact (State.Quiet.closeBegin hclose).shutdown
    · rfl
  | scan now todo =>
    cases todo <;> simp only [runJanitor] at h
    · cases h; rfl
    · split at h <;> cases h
      rfl
  | _ =>
    simp only [runJanitor] at h
    repeat' split at h
    all_goals cases h <;> rfl

omit [Payload D] in
theorem runClosing_shutdown {pick : ClientId} {k : Closing} (h : runClosing s r pick k = some s') :
    s'.shutdown = s.shutdown := by
  cases k with
  | no | done => cases h
  | removeRoom | dropInvites => cases h; rfl
  | next reason ms =>
    cases ms with
    | nil => cases h; rfl
    | cons m ms =>
      simp only [runClosing] at h
      split at h <;> cases h
      exact clearSessionByClient_shutdown s pick
  | notice re c ms => cases h; exact (State.Quiet.sendLocked (s := s) _).shutdown
  | closeOut reason c ms => cases h; exact (State.Quiet.closeChan (s := s)).shutdown

theorem shutdown_step {a : Act D} (h : step cfg s a = some s') (ha : ∀ pick, a ≠ .shutdown pick) :
    s'.shutdown = s.shutdown := by
  cases a with
  | shutdown pick => exact absurd rfl (ha pick)
  | run c draw allow => exact runPc_shutdown h
  | closing r pick => exact runClosing_shutdown h
  | janitor pick => exact runJanitor_shutdown h
  | frame c m | readErr c =>
    simp only [step] at h
    repeat' split at h
    all_goals first | cases h | (obtain ⟨pc', -, rfl⟩ := Option.map_eq_some_iff.mp h; rfl)
  | connect c hello =>
    simp only [step, State.drawId] at h
    split at h <;> cases h
    rfl
  | _ =>
    simp only [step] at h
    repeat' split at h
    all_goals cases h <;> rfl

/-! ## What the hub lists -/

/-- A room that was created and that `Close` has not yet taken out of the hub. -/
def Registered (f : Floor D) (r : RoomId) : Prop :=
  (∃ c, .created c r ∈ f.log) ∧
    ((f.room r).closing = .no ∨ ∃ reason ms, (f.room r).closing = .removeRoom reason ms)

structure Listed (f : Floor D) : Prop where
  nodup : f.rooms.Nodup
  drawn : ∀ c r, .created c r ∈ f.log → r ∈ f.drawn
  only  : ∀ r ∈ f.rooms, Registered f r
  all   : ∀ c r, .created c r ∈ f.log → (f.room r).closed = false → r ∈ f.rooms

section
omit [Payload D]
variable {may : May} {f f' : Floor D}

theorem Listed.drawn_move (h : Listed f) (hm : Move cfg may f f') :
    ∀ c r, .created c r ∈ f'.log → r ∈ f'.drawn := by
  have drawn := h.drawn
  cases hm <;> first | exact drawn | skip
  all_goals
    intro c r hc
    simp only [Floor.goto, Floor.setRoom, Floor.note, Floor.close] at hc ⊢
    grind -ring -linarith

theorem Listed.only_move (h : Listed f) (hi : Inv cfg f) (hm : Move cfg may f f') :
    ∀ r ∈ f'.rooms, Registered f' r := by
  have only := h.only
  have drawn := h.drawn
  have open_idle := hi.open_idle
  cases hm <;> first | exact only | skip
  all_goals
    intro r hr
    simp only [Registered, Floor.goto, Floor.setRoom, Floor.note, Floor.close, Floor.addRoom,
      Floor.dropRoom, Floor.closeRoom, Function.update_apply] at only hr ⊢
    grind -ring -linarith

theorem Listed.all_move (h : Listed f) (hi : Inv cfg f) (hm : Move cfg may f f') :
    ∀ c r, .created c r ∈ f'.log → (f'.room r).closed = false → r ∈ f'.rooms := by
  have all := h.all
  have open_idle := hi.open_idle
  cases hm <;> first | exact all | skip
  all_goals
    intro c r hc hopen
    simp only [Floor.goto, Floor.setRoom, Floor.note, Floor.close, Floor.addRoom,
      Floor.dropRoom, Floor.closeRoom, Function.update_apply] at hc hopen ⊢
    grind -ring -linarith

theorem Listed.nodup_move (h : Listed f) (hm : Move cfg may f f') : f'.rooms.Nodup := by
  have nodup := h.nodup
  cases hm <;> first | exact nodup | skip
  case createRoom c r t hc hr =>
    refine List.nodup_cons.mpr ⟨fun hmem => ?_, nodup⟩
    obtain ⟨⟨d, hd⟩, -⟩ := h.only r hmem
    exact hr (h.drawn d r hd)
  case removeRoom => exact nodup.filter _

end

theorem listed_of_reach (hr : (relay (D := D) cfg).Reach Machine.Any s) :
    Listed s.floor :=
  hr.invariant (I := fun s => Listed s.floor) (by constructor <;> simp [State.floor, relay])
    fun _ _ _ hr' h _ hstep =>
      have hi := (sound_of_reach hr').inv
      have hm := (sound_of_reach hr').step_move hstep
      ⟨h.nodup_move hm, h.drawn_move hm, h.only_move hi hm, h.all_move hi hm⟩

/-! ## The rooms it closes -/

/-- The rooms `Shutdown` has still to come to. -/
def Shutdown.ahead : Shutdown → List RoomId
  | .idle => []
  | .run todo | .wait _ todo => todo

omit [Payload D] in
theorem runShutdown_ahead {pick : RoomId} (h : runShutdown s pick s.shutdown = some s')
    (hrun : s.shutdown ≠ .idle) :
    s'.shutdown ≠ .idle ∧ ∀ r ∈ s.shutdown.ahead, r ∈ s'.shutdown.ahead ∨ (s'.room r).closed = true := by
  generalize hk : s.shutdown = k at h hrun
  cases k with
  | idle => exact absurd rfl hrun
  | wait r₁ todo =>
    simp only [runShutdown] at h
    split at h <;> cases h
    exact ⟨by simp, fun r hr => .inl hr⟩
  | run todo =>
    cases todo with
    | nil => cases h
    | cons r₁ rs =>
      simp only [runShutdown] at h
      split at h
      · rename_i hpick
        have hrest : ∀ r ∈ r₁ :: rs, r ≠ pick → r ∈ (r₁ :: rs).filter (· ≠ pick) :=
          fun r hr hne => List.mem_filter.mpr ⟨hr, by simpa using hne⟩
        split at h <;> cases h
        · rename_i hclose
          obtain ⟨-, rfl⟩ := State.closeBegin_eq_some hclose
          refine ⟨by simp, fun r hr => ?_⟩
          by_cases hne : r = pick
          · subst hne
            exact .inr (by simp [State.note, State.setRoom, Floor.closeRoom])
          · exact .inl (hrest r hr hne)
        · rename_i hclose
          refine ⟨by simp, fun r hr => ?_⟩
          by_cases hne : r = pick
          · subst hne
            have hclosed := State.closeBegin_eq_none hclose
            exact .inr hclosed
          · exact .inl (hrest r hr hne)
      · cases h

/-- A `Shutdown` under way loses sight of a room only when it is closed. -/
theorem Sound.step_ahead (hs : Sound cfg s) {a : Act D} (h : step cfg s a = some s')
    (hrun : s.shutdown ≠ .idle) : s'.shutdown ≠ .idle ∧
      ∀ r, r ∈ s.shutdown.ahead ∨ (s.room r).closed = true →
        r ∈ s'.shutdown.ahead ∨ (s'.room r).closed = true := by
  by_cases ha : ∃ pick, a = .shutdown pick
  · obtain ⟨pick, rfl⟩ := ha
    obtain ⟨hrun', hahead⟩ := runShutdown_ahead h hrun
    exact ⟨hrun', fun r hr => hr.elim (hahead r) fun hcl => .inr (closed_step hs h hcl)⟩
  · push Not at ha
    have hsame := shutdown_step h ha
    rw [hsame]
    exact ⟨hrun, fun r hr => hr.imp_right (closed_step hs h)⟩

/-! ## The members it finds -/

/-- `d` is a member of `r`, or is no longer and is, or will be, without a channel. -/
def State.Seated (s : State D) (r : RoomId) (d : ClientId) : Prop :=
  d ∈ (s.room r).members ∨ d ∈ (s.room r).closing.pending ∨ (s.conns d).outClosed = true

theorem shut_of_leave {d : ClientId} {draw : Handle} {allow : Bool} (hpc : (s.conns d).pc = .leave r)
    (hopen : (s.room r).closed = false) (hm : d ∈ (s.room r).members)
    (ho : (s.room r).ownerID ≠ some d) (h : step cfg s (.run d draw allow) = some s') :
    (s'.conns d).outClosed = true := by
  have hin : ¬ (d ∉ (s.room r).members ∨ (s.room r).closed = true) := by simp [hm, hopen]
  have hno : ¬ some d = (s.room r).ownerID := fun he => ho he.symm
  simp only [step, hpc, runPc, if_neg hin, if_neg hno, Option.some.injEq] at h
  subst h
  exact (congrArg Prod.snd (State.ends_goto _)).trans (State.shut_dropMember s r d)

theorem Sound.step_seated (hs : Sound cfg s) (ho : OwnersClose s) {a : Act D}
    (h : step cfg s a = some s') {d : ClientId} (hd : s.Seated r d) : s'.Seated r d := by
  obtain hd | hd | hd := hd
  · generalize hrm : s'.room r = rm
    unfold State.Seated
    rw [hrm]
    cases hrm ▸ hs.step_room h r with
    | same | touched | transferred => exact .inl hd
    | added => exact .inl (by simp only [Floor.addRoom]; split <;> simp [hd])
    | created _ _ _ _ _ hr =>
      rw [show (s.room r).members = [] from (hs.inv.room_drawn r hr).1] at hd
      cases hd
    | kicked c draw allow v k t ha hpc hopen hm hv =>
      by_cases hdv : d = v
      · subst hdv ha
        exact .inr (.inr (shut_of_kick hpc hopen hm hv h))
      · exact .inl (by simp [Floor.dropRoom, hd, hdv])
    | left c draw allow t ha hpc hopen hm hno =>
      by_cases hdc : d = c
      · subst hdc ha
        exact .inr (.inr (shut_of_leave hpc hopen hm hno h))
      · exact .inl (by simp [Floor.dropRoom, hd, hdc])
    | destroyed | reaped => exact .inr (.inl hd)
    | closing _ _ _ hclosed =>
      rw [show (s.room r).members = [] from (hs.inv.closed_empty r hclosed).1] at hd
      cases hd
  · generalize hk : (s'.room r).closing = k
    unfold State.Seated
    rw [hk]
    refine .inr ?_
    cases hk ▸ hs.step_closing ho h r with
    | same => exact .inl hd
    | begun re hno _ =>
      rw [hno] at hd
      cases hd
    | quiet pick k ha hp => exact .inl (hp ▸ hd)
    | next pick re ms ha hbefore _ | silent pick ms ha hbefore _ =>
      rw [hbefore] at hd
      by_cases hdp : d = pick
      · exact .inl (by simp [Closing.pending, hdp])
      · exact .inl (List.mem_cons_of_mem _ (List.mem_filter.mpr ⟨hd, by simpa using hdp⟩))
    | noticed pick re d' ms ha hbefore =>
      rw [hbefore] at hd
      exact .inl hd
    | shut pick reason d' ms ha hbefore =>
      subst ha
      rw [hbefore] at hd
      obtain rfl | hd := List.mem_cons.mp hd
      · exact .inr (shut_of_closeOut cfg hbefore h)
      · exact .inl hd
  · exact .inr (.inr (shut_step hs h hd))

/-- **Shutdown leaves no room open.** When its loop has ended, every room created before it began is
closed and empty, and whoever was ever in it has no channel any more, unless another goroutine's
`Close` of the room is still to come to him. -/
theorem shutdown_closes {l : List (Machine.Transition (State D) (Act D))}
    (hl : (relay (D := D) cfg).Trace l s) {t : Machine.Transition (State D) (Act D)} (ht : t ∈ l)
    (hbefore : t.before.shutdown = .idle) (hafter : t.after.shutdown ≠ .idle)
    (hend : s.shutdown = .run []) (hc : .created c r ∈ t.before.log) :
    (s.room r).closed = true ∧ (s.room r).members = [] ∧
      ∀ t' ∈ l, ∀ d ∈ (t'.after.room r).members,
        (s.conns d).outClosed = true ∨ d ∈ (s.room r).closing.pending := by
  obtain ⟨hreach, hstep⟩ := hl.mem ht
  obtain ⟨pick, hlabel⟩ : ∃ pick, t.label = .shutdown pick := by
    by_contra hno
    push Not at hno
    exact hafter ((shutdown_step hstep hno).trans hbefore)
  have hsnapshot : t.after = { t.before with shutdown := .run t.before.rooms } := by
    rw [hlabel] at hstep
    simp only [relay, step, hbefore, runShutdown, Option.some.injEq] at hstep
    exact hstep.symm
  have hfound : r ∈ t.after.shutdown.ahead ∨ (t.after.room r).closed = true := by
    rw [hsnapshot]
    by_cases hopen : (t.before.room r).closed = true
    · exact .inr hopen
    · exact .inl ((listed_of_reach hreach).all c r hc (Bool.eq_false_of_not_eq_true hopen))
  have hswept := Machine.Trace.persists
    (P := fun s => s.shutdown ≠ .idle ∧ (r ∈ s.shutdown.ahead ∨ (s.room r).closed = true))
    (fun _ _ _ hr hP h => ((sound_of_reach hr).step_ahead h hP.1).imp_right fun hkept => hkept r hP.2)
    hl ht ⟨hafter, hfound⟩
  have hclosed : (s.room r).closed = true := by simpa [hend, Shutdown.ahead] using hswept.2
  have hempty : (s.room r).members = [] :=
    ((sound_of_reach hl.reach).inv.closed_empty r hclosed).1
  refine ⟨hclosed, hempty, fun t' ht' d hd => ?_⟩
  have hseated : s.Seated r d := Machine.Trace.persists (P := fun s => s.Seated r d)
    (fun _ _ _ hr hP h => (sound_of_reach hr).step_seated (ownersClose_of_reach hr) h hP)
    hl ht' (.inl hd)
  obtain hmem | hpend | hshut := hseated
  · rw [hempty] at hmem
    cases hmem
  · exact .inr hpend
  · exact .inl hshut

/-- `Shutdown` comes upon the sample room with its two members. -/
def sampleShutdown : List (Act String) :=
  sampleEntered ++ [.shutdown 0, .shutdown 100] ++ List.replicate 5 (.closing 100 1) ++
    List.replicate 4 (.closing 100 2) ++ [.shutdown 0]

theorem sampleShutdown_some :
    ((relay sampleConfig).stepsFrom (relay sampleConfig).init sampleShutdown).isSome = true := by
  decide +kernel

theorem shutdown_closes_sample :
    let s := (((relay sampleConfig).stepsFrom (relay sampleConfig).init sampleShutdown).get
      sampleShutdown_some).2
    (s.room 100).closed = true ∧ (s.room 100).members = [] := by
  have hfind : (((relay sampleConfig).stepsFrom (relay sampleConfig).init sampleShutdown).get
      sampleShutdown_some).1.any (fun t => t.before.shutdown = .idle ∧ t.after.shutdown ≠ .idle ∧
        .created 1 100 ∈ t.before.log) = true := by decide +kernel
  obtain ⟨t, ht, hbegin⟩ := List.any_eq_true.mp hfind
  obtain ⟨hbefore, hafter, hcreated⟩ := of_decide_eq_true hbegin
  have hclosed := shutdown_closes (Machine.trace_get sampleShutdown_some) ht hbefore hafter
    (by decide +kernel) hcreated
  exact ⟨hclosed.1, hclosed.2.1⟩

/-! ## Winding down -/

/-- What still happens when nobody connects or sends any more, `Shutdown` aside. -/
def Act.ends : Act D → Bool
  | .run _ _ _ | .closing _ _ | .readErr _ | .pumpExit _ => true
  | _ => false

/-- The same with `Shutdown`. -/
def Act.winds : Act D → Bool
  | .shutdown _ => true
  | a => a.ends

omit [Payload D] in
theorem winds_of_ends {a : Act D} (h : a.ends = true) : a.winds = true := by
  cases a <;> first | exact h | rfl

/-- What can still hold a goroutine up: a read and the write pump, or the write pump alone. -/
def Pc.rank : Pc D → Nat
  | .absent | .deferHandshakes | .deferSession | .deferBytes _ | .exited => 0
  | .fail _ | .hsFull _ | .endHandshake _ | .closeOut | .leave _ | .leaveClose _ _ | .leaveWait _
  | .clearSession | .awaitDone => 1
  | _ => 2

theorem PcNext.rank_le {draw : Handle} {pc pc' : Pc D} (h : PcNext s c draw pc pc') :
    pc'.rank ≤ pc.rank := by
  cases h with
  | fail pc hpc =>
    obtain hpc | hpc | ⟨r, hpc⟩ := hpc <;> cases pc <;>
      simp only [Pc.phase, reduceCtorEq] at hpc <;> simp [Pc.rank]
  | panic => exact Nat.zero_le _
  | _ => simp [Pc.rank]

omit [Payload D] in
theorem readFails_rank {pc pc' : Pc D} (h : readFails pc = some pc') : pc.rank = 2 ∧ pc'.rank = 1 := by
  unfold readFails at h
  split at h <;> cases h <;> exact ⟨rfl, rfl⟩

/-- Nothing that still happens holds a goroutine up again. -/
theorem rank_step {a : Act D} (h : step cfg s a = some s') (ha : a.winds = true) (d : ClientId) :
    (s'.conns d).pc.rank ≤ (s.conns d).pc.rank := by
  generalize hpc : (s'.conns d).pc = pc
  cases hpc ▸ Sound.step_pc h d with
  | same => exact Nat.le_refl _
  | connected _ ha' | read _ _ ha' =>
    subst ha'
    cases ha
  | readErr _ _ hread =>
    obtain ⟨hold, hnew⟩ := readFails_rank hread
    omega
  | ran draw allow _ _ hnext => exact hnext.rank_le

/-- Nothing that still happens wakes a goroutine that never was or has ended. -/
theorem unwoken_step {a : Act D} (h : step cfg s a = some s') (ha : a.winds = true) {d : ClientId}
    (hd : (s.conns d).pc = .absent ∨ (s.conns d).pc = .exited) :
    (s'.conns d).pc = (s.conns d).pc := by
  generalize hpc : (s'.conns d).pc = pc
  cases hpc ▸ Sound.step_pc h d with
  | same => rfl
  | connected _ ha' | read _ _ ha' =>
    subst ha'
    cases ha
  | readErr _ _ hread => obtain hd | hd := hd <;> rw [hd] at hread <;> cases hread
  | ran draw allow _ _ hnext =>
    generalize (s.conns d).pc = pc₀ at hd hnext
    cases hnext with
    | fail _ hphase => obtain rfl | rfl := hd <;> simp [Pc.phase] at hphase
    | panic _ _ hsend => obtain rfl | rfl := hd <;> simp [Pc.sends] at hsend
    | _ => simp at hd

/-- `t` can come of `s` without a client's doing. -/
abbrev EndsIn (cfg : Config) (s t : State D) : Prop :=
  (relay cfg).Leads (fun a => a.ends = true) s t

theorem endsIn_of_step {a : Act D} (ha : a.ends = true) (h : (relay cfg).step s a = some s') :
    EndsIn cfg s s' := Machine.Leads.single ha h

/-- Of the goroutines that wait, one with something ahead of it can be brought on. -/
theorem cut (hw : s.waits c = true) (hc : (s.conns c).pc.rank ≠ 0) :
    ∃ t, EndsIn cfg s t ∧ (t.conns c).pc.rank < (s.conns c).pc.rank := by
  have hread : ∀ pc, readFails (s.conns c).pc = some pc →
      ∃ t, EndsIn cfg s t ∧ (t.conns c).pc.rank < (s.conns c).pc.rank := by
    intro pc hpc
    have hstep : (relay cfg).step s (.readErr c) =
        some (s.setConn c fun k => { k with pc, sockClosed := true }) := by
      simp [relay, step, hpc]
    obtain ⟨hold, hnew⟩ := readFails_rank hpc
    exact ⟨_, endsIn_of_step rfl hstep, by simp [State.setConn, hold, hnew]⟩
  unfold State.waits at hw
  split at hw
  case h_1 hpc | h_4 hpc => simp [hpc, Pc.rank] at hc
  case h_2 r h hpc => exact hread _ (by rw [hpc]; rfl)
  case h_3 r hpc => exact hread _ (by rw [hpc]; rfl)
  case h_5 hpc =>
    have hpump : (s.conns c).pumpDone = false := by simpa using hw
    have hexit : (relay cfg).step s (.pumpExit c) =
        some (s.setConn c fun k => { k with pumpDone := true, sockClosed := true }) := by
      simp [relay, step, hpump]
    have hrun : (relay cfg).step
        (s.setConn c fun k => { k with pumpDone := true, sockClosed := true }) (.run c 0 true) = some ((s.setConn c fun k =>
          { k with pumpDone := true, sockClosed := true }).goto c .deferHandshakes) := by
      simp [relay, step, State.setConn, hpc, runPc]
    refine ⟨_, (endsIn_of_step rfl hexit).trans (endsIn_of_step rfl hrun), ?_⟩
    simp [State.goto, State.setConn, hpc, Pc.rank]
  case h_6 => cases hw

theorem endsIn_rank {t : State D} (h : EndsIn cfg s t) (hr : (relay cfg).Reach Machine.Any s)
    (d : ClientId) : (t.conns d).pc.rank ≤ (s.conns d).pc.rank :=
  h.keeps (P := fun t => (t.conns d).pc.rank ≤ (s.conns d).pc.rank) hr
    (fun _ _ _ _ ha hle hstep => (rank_step hstep (winds_of_ends ha) d).trans hle) (Nat.le_refl _)

theorem endsIn_absent {t : State D} (h : EndsIn cfg s t) (hr : (relay cfg).Reach Machine.Any s)
    {d : ClientId} (hd : (s.conns d).pc = .absent) : (t.conns d).pc = .absent :=
  h.keeps (P := fun t => (t.conns d).pc = .absent) hr
    (fun _ _ _ _ ha hd hstep => (unwoken_step hstep (winds_of_ends ha) (.inl hd)).trans hd) hd

/-- At rest, with no goroutine held up: they have all ended. -/
structure State.Ended (s : State D) : Prop where
  gone   : ∀ c, (s.conns c).pc = .absent ∨ (s.conns c).pc = .exited
  closed : ∀ r, (s.room r).closing = .no ∨ (s.room r).closing = .done

omit [Payload D] in
theorem State.AtRest.ended (h : s.AtRest) (hc : ∀ c, (s.conns c).pc.rank = 0) : s.Ended where
  closed := h.closed
  gone c := by
    have hwaits := h.waits c
    have hrank := hc c
    unfold State.waits at hwaits
    split at hwaits <;> rename_i hpc <;> simp_all [Pc.rank]

theorem exists_rest (hr : (relay cfg).Reach Machine.Any s) : ∃ t, EndsIn cfg s t ∧ t.AtRest := by
  obtain ⟨as, t, has, ht, hrest⟩ := (account cfg).exists_rest hr
  have hends : ∀ a : Act D, a.works = true → a.ends = true := by
    intro a ha
    cases a <;> first | rfl | cases ha
  exact ⟨t, ⟨as, fun a ha => hends a (has a ha), ht⟩,
    (atRest_iff (Machine.reach_of_foldlM hr ht)).mp hrest⟩

/-- Without a client's doing every goroutine comes to its end. -/
theorem exists_ended (hr : (relay cfg).Reach Machine.Any s) : ∃ t, EndsIn cfg s t ∧ t.Ended := by
  have habs : ∀ c, c ∉ s.drawn.toFinset → (s.conns c).pc = .absent := by
    intro c hc
    have hphase : (s.conns c).pc.phase = .absent :=
      (sound_of_reach hr).inv.drawn c fun hd => hc (List.mem_toFinset.mpr hd)
    generalize (s.conns c).pc = pc at hphase
    cases pc <;> simp only [Pc.phase, reduceCtorEq] at hphase
    case absent => rfl
    case member r todo =>
      unfold headPhase at hphase
      split at hphase <;> cases hphase
  generalize s.drawn.toFinset = S at habs
  -- the goroutines that were there, by what can still hold them up
  induction hn : ∑ c ∈ S, (s.conns c).pc.rank using Nat.strongRecOn generalizing s with
  | ind n ih =>
    subst hn
    obtain ⟨s₁, h₁, hrest⟩ := exists_rest hr
    by_cases hzero : ∀ c, (s₁.conns c).pc.rank = 0
    · exact ⟨s₁, h₁, hrest.ended hzero⟩
    · push Not at hzero
      obtain ⟨c, hc⟩ := hzero
      have hrank₁ := endsIn_rank h₁ hr
      have hcut : ∃ t, EndsIn cfg s₁ t ∧ (t.conns c).pc.rank < (s₁.conns c).pc.rank :=
        cut (hrest.waits c) hc
      obtain ⟨s₂, h₂, hlt⟩ := hcut
      have h₁₂ : EndsIn cfg s s₂ := h₁.trans h₂
      have hrank₂ := endsIn_rank h₁₂ hr
      have hmem : c ∈ S := by
        by_contra hno
        rw [endsIn_absent h₁ hr (habs c hno)] at hc
        exact hc rfl
      have hsum : ∑ d ∈ S, (s₂.conns d).pc.rank < ∑ d ∈ S, (s.conns d).pc.rank :=
        Finset.sum_lt_sum (fun d _ => hrank₂ d) ⟨c, hmem, hlt.trans_le (hrank₁ c)⟩
      have habs₂ : ∀ d, d ∉ S → (s₂.conns d).pc = .absent :=
        fun d hd => endsIn_absent h₁₂ hr (habs d hd)
      obtain ⟨t, ht, hended⟩ := ih _ hsum (h₁₂.reach hr) habs₂ rfl
      exact ⟨t, h₁₂.trans ht, hended⟩

/-! ## The loop of `Shutdown` ends -/

abbrev WindsTo (cfg : Config) (s t : State D) : Prop :=
  (relay cfg).Leads (fun a => a.winds = true) s t

theorem windsTo_of_step {a : Act D} (ha : a.winds = true) (h : (relay cfg).step s a = some s') :
    WindsTo cfg s s' := Machine.Leads.single ha h

theorem EndsIn.winds {t : State D} (h : EndsIn cfg s t) : WindsTo cfg s t :=
  h.mono fun _ => winds_of_ends

theorem endsIn_shutdown {t : State D} (h : EndsIn cfg s t) (hr : (relay cfg).Reach Machine.Any s) :
    t.shutdown = s.shutdown := by
  refine h.keeps (P := fun t => t.shutdown = s.shutdown) hr ?_ rfl
  intro s₁ a s₂ _ ha hP hstep
  refine (shutdown_step hstep fun pick he => ?_).trans hP
  subst he
  cases ha

/-- One room of the snapshot, with nobody else at work. -/
theorem exists_round (hr : (relay cfg).Reach Machine.Any s) (hrest : s.AtRest) {todo : List RoomId}
    (hrun : s.shutdown = .run (r :: todo)) : ∃ t, WindsTo cfg s t ∧ t.AtRest ∧
      t.shutdown = .run ((r :: todo).filter (· ≠ r)) := by
  cases hclose : s.closeBegin r (some .serverStop) with
  | none =>
    have hstep : (relay cfg).step s (.shutdown r) =
        some { s with shutdown := .run ((r :: todo).filter (· ≠ r)) } := by
      simp [relay, step, hrun, runShutdown, hclose]
    exact ⟨_, windsTo_of_step rfl hstep, ⟨hrest.waits, hrest.closed⟩, rfl⟩
  | some s₁ =>
    have hstep : (relay cfg).step s (.shutdown r) = some { (s₁.note (.reaped r)) with
        shutdown := .wait r ((r :: todo).filter (· ≠ r)) } := by
      simp [relay, step, hrun, runShutdown, hclose]
    have hreach := hr.step trivial hstep
    obtain ⟨s₂, h₂, hrest₂⟩ := exists_rest hreach
    have hwait := endsIn_shutdown h₂ hreach
    -- the `Close` that `Shutdown` waits for has come to its end
    have hclosed : (s₂.room r).closed = true := by
      refine h₂.keeps (P := fun t => (t.room r).closed = true) hreach
        (fun _ _ _ hr' _ hP h => closed_step (sound_of_reach hr') h hP) ?_
      obtain ⟨-, rfl⟩ := State.closeBegin_eq_some hclose
      simp [State.note, State.setRoom, Floor.closeRoom]
    have hreach₂ := h₂.reach hreach
    have hdone : (s₂.room r).closing = .done :=
      (hrest₂.closed r).resolve_left (closing_of_closed hreach₂ r hclosed)
    have hstep₂ : (relay cfg).step s₂ (.shutdown r) =
        some { s₂ with shutdown := .run ((r :: todo).filter (· ≠ r)) } := by
      simp [relay, step, hwait, runShutdown, hdone]
    exact ⟨_, (windsTo_of_step rfl hstep).trans (h₂.winds.trans (windsTo_of_step rfl hstep₂)),
      ⟨hrest₂.waits, hrest₂.closed⟩, rfl⟩

theorem exists_swept (hr : (relay cfg).Reach Machine.Any s) (hrest : s.AtRest) {todo : List RoomId}
    (hrun : s.shutdown = .run todo) :
    ∃ t, WindsTo cfg s t ∧ t.AtRest ∧ t.shutdown = .run [] := by
  induction hn : todo.length using Nat.strongRecOn generalizing s todo with
  | ind n ih =>
    cases todo with
    | nil => exact ⟨s, .refl s, hrest, hrun⟩
    | cons r rs =>
      obtain ⟨s₁, h₁, hrest₁, hrun₁⟩ := exists_round hr hrest hrun
      have hshorter : ((r :: rs).filter (· ≠ r)).length < n := by
        subst hn
        simpa using (List.length_filter_le _ rs).trans_lt (Nat.lt_succ_self _)
      obtain ⟨t, ht, hswept⟩ := ih _ hshorter (h₁.reach hr) hrest₁ hrun₁ rfl
      exact ⟨t, h₁.trans ht, hswept⟩

/-! ## Nothing is left -/

omit [Payload D] in
theorem Move.rooms_subset {may : May} {f f' : Floor D} (hm : Move cfg may f f')
    (hc : ∀ c, f.phase c ≠ .creating) : ∀ r ∈ f'.rooms, r ∈ f.rooms := by
  cases hm <;> first | exact fun _ h => h | skip
  case createRoom c _ _ hph _ => exact absurd hph (hc c)
  case removeRoom => exact fun r hr => List.mem_of_mem_filter hr

/-- `Shutdown` begins when every goroutine has ended: no room is added to its snapshot. -/
structure Winding (s : State D) : Prop where
  gone  : ∀ c, (s.conns c).pc = .absent ∨ (s.conns c).pc = .exited
  begun : s.shutdown ≠ .idle
  ahead : ∀ r ∈ s.rooms, r ∈ s.shutdown.ahead ∨ (s.room r).closed = true

theorem Winding.step (hw : Winding s) (hs : Sound cfg s) {a : Act D} (ha : a.winds = true)
    (h : step cfg s a = some s') : Winding s' where
  gone c := by rw [unwoken_step h ha (hw.gone c)]; exact hw.gone c
  begun := (hs.step_ahead h hw.begun).1
  ahead r hr := by
    have hcreating : ∀ c, s.floor.phase c ≠ .creating := by
      intro c hph
      change (s.conns c).pc.phase = .creating at hph
      obtain hpc | hpc := hw.gone c <;> rw [hpc] at hph <;> cases hph
    have hold := (hs.step_move h).rooms_subset hcreating r hr
    exact (hs.step_ahead h hw.begun).2 r (hw.ahead r hold)

/-- The joiner of a handshake has not come to the deferred `EndHandshakesFor`. -/
def Floor.Joins (f : Floor D) : Prop :=
  ∀ h hs, f.handshakes h = some hs → f.phase hs.joiner ≠ .absent ∧ (f.phase hs.joiner).parting = false

omit [Payload D] in
theorem joins_move {may : May} {f f' : Floor D} (h : f.Joins) (hm : Move cfg may f f') : f'.Joins := by
  unfold Floor.Joins at h ⊢
  cases hm <;> first | exact h | skip
  all_goals
    intro x hs hx
    simp only [Floor.goto, Floor.setRoom, Floor.note, Floor.close, Function.update_apply] at hx ⊢
    grind -ring -linarith [Phase.parting, Option.filter_eq_some_iff]

/-- **The server can be wound down from wherever it is.** With no client doing anything but go, from
every reachable state every goroutine comes to its end, the loop of `Shutdown` to its, and then
there is no room, no claim, no handshake and no `Close` under way. -/
theorem winds_down (hr : (relay (D := D) cfg).Reach Machine.Any s) (hidle : s.shutdown = .idle) :
    ∃ (as : List (Act D)) (t : State D), (∀ a ∈ as, a.winds = true) ∧
      as.foldlM (step cfg) s = some t ∧ t.Ended ∧ t.shutdown = .run [] ∧ t.rooms = [] ∧
      (∀ sid, t.sessions.lookup sid = none) ∧ ∀ h, t.handshakes h = none := by
  obtain ⟨s₁, h₁, hended⟩ := exists_ended hr
  have hr₁ := h₁.reach hr
  have hidle₁ : s₁.shutdown = .idle := (endsIn_shutdown h₁ hr).trans hidle
  have hbegin : (relay cfg).step s₁ (.shutdown 0) = some { s₁ with shutdown := .run s₁.rooms } := by
    simp [relay, step, hidle₁, runShutdown]
  have hrest : ({ s₁ with shutdown := .run s₁.rooms } : State D).AtRest := by
    refine ⟨fun c => ?_, hended.closed⟩
    change s₁.waits c = true
    unfold State.waits
    obtain hpc | hpc := hended.gone c <;> simp [hpc]
  have hr₂ := hr₁.step trivial hbegin
  obtain ⟨t, ht, hrest', hswept⟩ := exists_swept hr₂ hrest rfl
  have hrt := ht.reach hr₂
  have hs := sound_of_reach hrt
  have hw : Winding t := ht.keeps (P := Winding) hr₂
    (fun _ _ _ hr' ha hw h => hw.step (sound_of_reach hr') ha h)
    ⟨hended.gone, by simp, fun r hr' => .inl hr'⟩
  obtain ⟨as, has, hrun⟩ := h₁.winds.trans ((windsTo_of_step rfl hbegin).trans ht)
  refine ⟨as, t, has, hrun, ⟨hw.gone, hrest'.closed⟩, hswept, ?_, fun sid => ?_, fun x => ?_⟩
  · refine List.eq_nil_iff_forall_not_mem.mpr fun r hmem => ?_
    have hclosed : (t.room r).closed = true := by simpa [hswept, Shutdown.ahead] using hw.ahead r hmem
    have hdone := (hrest'.closed r).resolve_left (closing_of_closed hrt r hclosed)
    obtain hno | ⟨reason, ms, hno⟩ := ((listed_of_reach hrt).only r hmem).2
    · exact absurd (hdone.symm.trans hno) (by simp)
    · exact absurd (hdone.symm.trans hno) (by simp)
  · by_contra hsome
    obtain ⟨sc, hsc⟩ := Option.ne_none_iff_exists'.mp hsome
    have hclaim : (t.conns sc.client).pc.phase.claiming = true :=
      ((claims_of_reach hrt).keyed sid sc hsc).2.2
    obtain hpc | hpc := hw.gone sc.client <;> rw [hpc] at hclaim <;> cases hclaim
  · by_contra hsome
    obtain ⟨hs', hx⟩ := Option.ne_none_iff_exists'.mp hsome
    have hjoins : t.floor.Joins := hrt.invariant (I := fun s : State D => s.floor.Joins)
      (by simp [relay, State.floor, Floor.Joins])
      fun _ _ _ hr' hI _ h => joins_move hI ((sound_of_reach hr').step_move h)
    obtain ⟨hpresent, hparting⟩ := hjoins x hs' hx
    change (t.conns hs'.joiner).pc.phase ≠ .absent at hpresent
    change (t.conns hs'.joiner).pc.phase.parting = false at hparting
    obtain hpc | hpc := hw.gone hs'.joiner
    · exact hpresent (by rw [hpc]; rfl)
    · rw [hpc] at hparting
      cases hparting

theorem winds_down_sample : ∃ (as : List (Act String)) (t : State String),
    (∀ a ∈ as, a.winds = true) ∧ as.foldlM (step sampleConfig)
      (((relay sampleConfig).stepsFrom (relay sampleConfig).init sampleEntered).get entered_some).2 =
        some t ∧ t.Ended ∧ t.shutdown = .run [] ∧ t.rooms = [] ∧
      (∀ sid, t.sessions.lookup sid = none) ∧ ∀ h, t.handshakes h = none :=
  winds_down (Machine.trace_get entered_some).reach (by decide +kernel)

end E2EAnon.Relay
