import Mathlib.Data.List.TakeWhile
import E2EAnon.Relay.Channels
import E2EAnon.Relay.Isolation

/-!
# The order of broadcasts (`room.go:73-225`, `287-298`, `client.go:79-88`)

`broadcastLocked` runs under the room's lock and appends to one queue after another, so every member
sees the broadcasts of its room in the order the room performed them. A run is a list of steps, and
so are the histories compared here: `broadcasts m` of a step are the broadcast frames it puts into
`m`'s queue, `performed r m` is the broadcast that room `r` performs in it for `m` to see.
-/

namespace E2EAnon.Relay

open Lib

variable {D : Type} {cfg : Config}

/-- Presence, chat, roster and file frames. -/
def broadcastType : ServerType → Bool
  | .presence | .chat | .roster | .fileStart | .fileChunk | .fileEnd | .fileAbort => true
  | _ => false

/-- The frames a step puts into `m`'s queue. -/
def queued (m : ClientId) (t : Machine.Transition (State D) (Act D)) : List (ServerMsg D) :=
  (t.after.conns m).out.drop (t.before.conns m).out.length

/-- The frames put into `m`'s queue in a run. -/
def received (m : ClientId) (l : List (Machine.Transition (State D) (Act D))) : List (ServerMsg D) :=
  l.flatMap (queued m)

theorem received_snoc (m : ClientId) (l : List (Machine.Transition (State D) (Act D)))
    (t : Machine.Transition (State D) (Act D)) :
    received m (l ++ [t]) = received m l ++ queued m t := by
  simp [received]

def broadcasts (m : ClientId) (t : Machine.Transition (State D) (Act D)) : List (ServerMsg D) :=
  (queued m t).filter fun x => broadcastType x.type

/-- The step finds `m`'s queue full. -/
def overflows (m : ClientId) (t : Machine.Transition (State D) (Act D)) : Bool :=
  (t.before.posts t.label m).isSome && decide (outboundBuffer ≤ (t.before.conns m).out.length)

/-- `m` is a member of `r` before and after the step. -/
def stays (r : RoomId) (m : ClientId) (t : Machine.Transition (State D) (Act D)) : Bool :=
  decide (m ∈ (t.before.room r).members) && decide (m ∈ (t.after.room r).members)

/-- The broadcast of `r` in the step, unless it is `m`'s own chat, roster or file frame. -/
def performed (r : RoomId) (m : ClientId) (t : Machine.Transition (State D) (Act D)) :
    Option (ServerMsg D) :=
  match t.before.broadcast t.label with
  | some b => if b.room = r ∧ b.author ≠ some m then some b.frame else none
  | none => none

/-- The steps in which `m` is in `r`, up to the first that finds its queue full. -/
def upToOverflow (r : RoomId) (m : ClientId) (l : List (Machine.Transition (State D) (Act D))) :
    List (Machine.Transition (State D) (Act D)) :=
  (l.filter (stays r m)).takeWhile fun t => !overflows m t

/-- The steps that put a broadcast into both queues. -/
def shared (m m' : ClientId) (l : List (Machine.Transition (State D) (Act D))) :
    List (Machine.Transition (State D) (Act D)) :=
  l.filter fun t => !(broadcasts m t).isEmpty && !(broadcasts m' t).isEmpty

/-! ## One broadcast -/

section
variable {s s' : State D} {b : Broadcast D} {c d : ClientId} {r : RoomId}

/-- What a receiver of a broadcast gets depends on its own queue only. -/
def Receives (s s' : State D) (b : Broadcast D) (d : ClientId) : Prop :=
  s'.conns d = { (s.conns d).deliver b.frame with pc := (s'.conns d).pc }

theorem receives_goto {s₁ : State D} {pc : Pc D}
    (h : s₁.conns d = (s.conns d).deliver b.frame) : Receives s (s₁.goto c pc) b d := by
  by_cases hd : d = c
  · subst hd
    simp [Receives, State.goto, State.setConn, h]
  · simp [Receives, State.goto, State.setConn, hd, h]

theorem broadcastLocked_conns {m : ServerMsg D} {ex : Option ClientId}
    (hd : d ∈ s.receivers r ex) : (s.broadcastLocked r m ex).conns d = (s.conns d).deliver m := by
  simp [State.broadcastLocked, hd]

theorem mem_presence_dests : d ∈ (s.presence r).dests ↔ d ∈ (s.room r).members := by
  simp [State.presence, State.receivers]

theorem mem_others_dests {m : ServerMsg D} :
    d ∈ (s.others r c m).dests ↔ d ∈ (s.room r).members ∧ some c ≠ some d := by
  simp only [State.others, State.receivers, List.mem_filter, decide_eq_true_eq]
  exact and_congr_right fun _ => ne_comm

theorem dropMember_conns (hd : d ∈ ((s.dropMember r c).presence r).dests) :
    (s.dropMember r c).conns d = (s.conns d).deliver ((s.dropMember r c).presence r).frame := by
  have hdc : d ≠ c := by
    rintro rfl
    exact State.not_mem_dropMember_dests s r d hd
  have hclose : (s.closeChan c).conns d = s.conns d := by
    unfold State.closeChan
    split
    · rfl
    · simp [State.setConn, hdc]
  simp only [State.dropMember, State.broadcastLocked_presence] at hd ⊢
  rw [broadcastLocked_conns hd]
  simp only [State.setRoom, hclose]
  rfl

theorem removeMember_conns {reason : Reason} {s₁ : State D}
    (h : s.removeMember r c reason = some s₁) (hd : d ∈ (s₁.presence r).dests) :
    s₁.conns d = (s.conns d).deliver (s₁.presence r).frame := by
  simp only [State.removeMember] at h
  split at h
  · simp at h
  · cases h
    rw [State.note_presence] at hd ⊢
    have hdc : d ≠ c := by
      rintro rfl
      exact State.not_mem_dropMember_dests _ r d hd
    have hsend : (s.sendLocked c { type := .roomClosed, reason := some reason }).conns d =
        s.conns d := by
      unfold State.sendLocked
      split
      · rfl
      · simp [State.setConn, hdc]
    rw [← hsend]
    exact dropMember_conns hd

end

variable [Payload D] {s s' : State D} {a : Act D} {b : Broadcast D} {c : ClientId} {draw : Handle}
  {allow : Bool}

/-- **A broadcast goes to the members of its room, its author apart**, and each gets it by itself. -/
theorem site_spec (h : step cfg s (.run c draw allow) = some s')
    (hsite : CallSite s c b) :
    (∀ d, d ∈ b.dests ↔ d ∈ (s'.room b.room).members ∧ b.author ≠ some d) ∧
      ∀ d ∈ b.dests, Receives s s' b d := by
  cases hsite with
  | presence r k hpc hopen =>
    simp only [step, hpc, runPc, runOp, State.broadcastPresence, hopen, Bool.false_eq_true,
      if_false, Option.some.injEq] at h
    subst h
    refine ⟨fun d => ?_, fun d hd => receives_goto (broadcastLocked_conns hd)⟩
    rw [mem_presence_dests]
    simp [State.presence, State.goto, State.setConn, State.broadcastLocked]
  | relay r body k hpc hopen hm =>
    simp only [step, hpc, runPc, runOp, State.relay, hopen, hm, Bool.false_eq_true, not_true_eq_false,
      or_self, if_false, Option.some.injEq] at h
    subst h
    refine ⟨fun d => ?_, fun d hd => receives_goto ?_⟩
    · rw [mem_others_dests]
      simp [State.others, State.goto, State.setConn, State.broadcastLocked, State.setRoom]
    · refine broadcastLocked_conns (s := s.setRoom r _) ?_
      simpa [State.others, State.receivers, State.setRoom] using hd
  | roster r x k hpc hopen =>
    simp only [step, hpc, runPc, runOp, runOwned, State.broadcastExcept, hopen, Bool.false_eq_true,
      if_false, Option.some.injEq] at h
    subst h
    refine ⟨fun d => ?_, fun d hd => receives_goto (broadcastLocked_conns hd)⟩
    rw [mem_others_dests]
    simp [State.others, State.goto, State.setConn, State.broadcastLocked]
  | file r m k hpc hopen =>
    simp only [step, hpc, runPc, runOp, State.broadcastExcept, hopen, Bool.false_eq_true,
      if_false, Option.some.injEq] at h
    subst h
    refine ⟨fun d => ?_, fun d hd => receives_goto (broadcastLocked_conns hd)⟩
    rw [mem_others_dests]
    simp [State.others, State.goto, State.setConn, State.broadcastLocked]
  | kick r t k s₁ hpc hrun =>
    simp only [step, hpc, runPc, runOp, runOwned, hrun, Option.some.injEq] at h
    subst h
    refine ⟨fun d => ?_, fun d hd => receives_goto (removeMember_conns hrun hd)⟩
    rw [mem_presence_dests]
    simp [State.presence, State.goto, State.setConn]
  | leave r hpc hm hopen ho =>
    have ho' : ¬ some c = (s.room r).ownerID := fun he => ho he.symm
    simp only [step, hpc, runPc, hm, hopen, ho', Bool.false_eq_true, not_true_eq_false,
      or_self, if_false, Option.some.injEq] at h
    subst h
    refine ⟨fun d => ?_, fun d hd => receives_goto (dropMember_conns hd)⟩
    rw [mem_presence_dests]
    simp [State.presence, State.goto, State.setConn]

theorem broadcast_spec (h : step cfg s a = some s')
    (hb : s.broadcast a = some b) :
    (∀ d, d ∈ b.dests ↔ d ∈ (s'.room b.room).members ∧ b.author ≠ some d) ∧
      ∀ d ∈ b.dests, Receives s s' b d := by
  obtain ⟨c, draw, allow, rfl, hsite⟩ := broadcast_cases hb
  exact site_spec h hsite

/-- The receivers of a broadcast are members when it begins. -/
theorem member_of_dest (hs : Sound cfg s) (h : step cfg s a = some s') {c : ClientId}
    (hb : s.broadcast a = some b) (hc : c ∈ b.dests) : c ∈ (s.room b.room).members := by
  have hc' := (((broadcast_spec h hb).1 c).mp hc).1
  generalize hrm : s'.room b.room = rm at hc'
  cases hrm ▸ hs.step_room h b.room with
  | same | touched | transferred | closing => exact hc'
  | created | destroyed | reaped => simp [Floor.closeRoom] at hc'
  | kicked | left =>
    simp only [Floor.dropRoom, List.mem_filter] at hc'
    exact hc'.1
  | added d draw allow t ha hpc hopen hcap =>
    subst ha
    obtain hpc | ⟨x, hpc⟩ := hpc <;> simp [State.broadcast, hpc, Pc.broadcast] at hb

/-! ## One step of a member -/

variable {l : List (Machine.Transition (State D) (Act D))}

/-- What is broadcast are broadcast frames, and nothing else is. -/
theorem broadcastType_site (hl : (relay cfg).Trace l s) (hb : s.broadcast a = some b) :
    broadcastType b.frame.type = true := by
  obtain ⟨c, draw, allow, rfl, hsite⟩ := broadcast_cases hb
  cases hsite with
  | file r m k hpc _ =>
    have hft := (fit_of_broadcast (fit_of_trace hl c) hpc).1
    simp only [State.others]
    cases hty : m.type <;> simp [hty, fileType, broadcastType] at hft ⊢
  | _ => rfl

theorem broadcastType_direct (hl : (relay cfg).Trace l s) {d : ClientId} {m : ServerMsg D}
    (h : s.direct a = some (d, m)) : broadcastType m.type = false := by
  cases direct_cases (fit_of_trace hl) h with
  | own _ _ ht => cases hty : m.type <;> simp [hty, relayType, broadcastType] at ht ⊢
  | peer _ _ _ type _ _ _ _ _ _ ht => cases type <;> simp [handshakeType, broadcastType] at ht ⊢
  | _ => rfl

/-- What a step puts into a queue is the frame posted to it, if it has room. -/
theorem queued_eq (hs : Sound cfg s) (h : step cfg s a = some s') (m : ClientId) :
    queued m ⟨s, a, s'⟩ =
      if (s.conns m).out.length < outboundBuffer then (s.posts a m).toList else [] := by
  have hout := hs.step_out h m
  -- a label that posts nothing
  have hstill : s.posts a m = none → (s'.conns m).out.length ≤ (s.conns m).out.length →
      queued m ⟨s, a, s'⟩ =
        if (s.conns m).out.length < outboundBuffer then (s.posts a m).toList else [] := by
    intro hp hlen
    simp [hp, queued, List.drop_eq_nil_of_le hlen]
  have hgrow : (s'.conns m).out = enqueue (s.conns m).out (s.posts a m) →
      queued m ⟨s, a, s'⟩ =
        if (s.conns m).out.length < outboundBuffer then (s.posts a m).toList else [] := by
    intro he
    cases hp : s.posts a m with
    | none => simp [queued, he, hp, enqueue]
    | some x =>
      simp only [queued, he, hp, enqueue, Option.toList_some]
      split <;> simp
  cases a with
  | connect c hello =>
    refine hstill rfl ?_
    simp only [State.nextOut] at hout
    split at hout <;> simp [hout]
  | pump c =>
    refine hstill rfl ?_
    simp only [State.nextOut] at hout
    split at hout <;> simp [hout]
  | _ => exact hgrow hout

/-- The broadcasts put into a queue are the broadcast posted to it, if it has room. -/
theorem broadcasts_eq (hs : Sound cfg s) (h : step cfg s a = some s') (m : ClientId) :
    broadcasts m ⟨s, a, s'⟩ = if (s.conns m).out.length < outboundBuffer then
      ((s.posts a m).filter fun x => broadcastType x.type).toList else [] := by
  rw [broadcasts, queued_eq hs h m]
  cases hp : s.posts a m with
  | none => simp
  | some x =>
    split
    · cases hx : broadcastType x.type <;> simp [hx, Option.filter_some]
    · rfl

/-- A broadcast frame that a step posts is the step's broadcast. -/
theorem posts_broadcast (hl : (relay cfg).Trace l s) {m : ClientId} {x : ServerMsg D}
    (hx : broadcastType x.type = true) :
    s.posts a m = some x ↔ ∃ b, s.broadcast a = some b ∧ m ∈ b.dests ∧ b.frame = x := by
  constructor
  · intro hp
    obtain h | ⟨hdir, -⟩ := posts_cases hp
    · exact h
    · simp [broadcastType_direct hl hdir] at hx
  · rintro ⟨b, hb, hd, rfl⟩
    simp [State.posts, hb, hd]

/-- **One step.** A member whose queue is not full gets what its room broadcasts, once, unless it is
the author, and no other broadcast. -/
theorem broadcasts_step (hl : (relay cfg).Trace l s) (h : step cfg s a = some s') {r : RoomId}
    {m : ClientId} (hm : stays r m ⟨s, a, s'⟩ = true) (hfull : overflows m ⟨s, a, s'⟩ = false) :
    broadcasts m ⟨s, a, s'⟩ = (performed r m ⟨s, a, s'⟩).toList := by
  have hs' := sound_of_reach (hl.snoc h).reach
  simp only [stays, Bool.and_eq_true, decide_eq_true_eq] at hm
  have hdests : ∀ b, s.broadcast a = some b →
      (m ∈ b.dests ↔ b.room = r ∧ b.author ≠ some m) := by
    intro b hb
    rw [(broadcast_spec h hb).1 m]
    constructor
    · rintro ⟨hd, hauth⟩
      exact ⟨hs'.inv.mem_unique b.room r m hd hm.2, hauth⟩
    · rintro ⟨rfl, hauth⟩
      exact ⟨hm.2, hauth⟩
  have hperf : performed r m ⟨s, a, s'⟩ = (s.posts a m).filter fun x => broadcastType x.type := by
    apply Option.ext
    intro x
    rw [Option.filter_eq_some_iff]
    cases hb : s.broadcast a with
    | none =>
      have hno : ¬ (s.posts a m = some x ∧ broadcastType x.type = true) := by
        rintro ⟨hp, hx⟩
        obtain ⟨b, hb', -⟩ := (posts_broadcast hl hx).mp hp
        simp [hb] at hb'
      simp [performed, hb, hno]
    | some b =>
      have hty := broadcastType_site hl hb
      by_cases hd : m ∈ b.dests
      · simp only [performed, hb, if_pos ((hdests b hb).mp hd), Option.some.injEq]
        constructor
        · rintro rfl
          exact ⟨(posts_broadcast hl hty).mpr ⟨b, hb, hd, rfl⟩, hty⟩
        · rintro ⟨hp, hx⟩
          obtain ⟨b', hb', -, rfl⟩ := (posts_broadcast hl hx).mp hp
          rw [Option.some.inj (hb.symm.trans hb')]
      · have hno : ¬ (s.posts a m = some x ∧ broadcastType x.type = true) := by
          rintro ⟨hp, hx⟩
          obtain ⟨b', hb', hd', -⟩ := (posts_broadcast hl hx).mp hp
          exact hd (Option.some.inj (hb.symm.trans hb') ▸ hd')
        have hno' : ¬ (b.room = r ∧ b.author ≠ some m) := fun hc => hd ((hdests b hb).mpr hc)
        simp [performed, hb, if_neg hno', hno]
  rw [broadcasts_eq (sound_of_reach hl.reach) h, hperf]
  split
  · rfl
  · rename_i hlen
    have hnone : s.posts a m = none := by
      simpa [overflows, Nat.not_lt.mp hlen] using hfull
    simp [hnone]

theorem adds_iff {c : ClientId} {log : List Event} :
    adds c log = true ↔ ∃ r, .added c r ∈ log := by
  induction log with
  | nil => simp [adds]
  | cons e log ih =>
    cases e with
    | added d r => simp [adds, ih, exists_or, @eq_comm _ d c]
    | _ => simp [adds, ih]

/-- Who has been in a room and is not in `r` is never added to it. -/
theorem gone_step (hr : (relay cfg).Reach Machine.Any s) (h : step cfg s a = some s') {r : RoomId}
    {m : ClientId} (hadds : adds m s.log = true) (hm : m ∉ (s.room r).members) :
    adds m s'.log = true ∧ m ∉ (s'.room r).members := by
  have hs := sound_of_reach hr
  refine ⟨?_, ?_⟩
  · obtain ⟨r', hr'⟩ := adds_iff.mp hadds
    exact adds_iff.mpr ⟨r', (hs.step_move h).log_mono hr'⟩
  · have hlate : (s.conns m).pc.phase.joining = false := (channels_of_reach hr).added m hadds
    generalize hrm : s'.room r = rm
    cases hrm ▸ hs.step_room h r with
    | added c draw allow t ha hpc hopen hcap =>
      have hmc : m ≠ c := by
        rintro rfl
        obtain hpc | ⟨x, hpc⟩ := hpc <;> simp [hpc, Pc.phase, Phase.joining] at hlate
      simp only [Floor.addRoom]
      split
      · exact hm
      · simp [hm, hmc]
    | same | touched | transferred | closing => exact hm
    | kicked | left => simp [Floor.dropRoom, hm]
    | created | destroyed | reaped => simp [Floor.closeRoom]

/-! ## A whole run -/

/-- A step that puts broadcasts into two queues puts the same one into both. -/
theorem same_broadcast (hl : (relay cfg).Trace l s) (h : step cfg s a = some s') {m m' : ClientId}
    (hm : broadcasts m ⟨s, a, s'⟩ ≠ []) (hm' : broadcasts m' ⟨s, a, s'⟩ ≠ []) :
    broadcasts m ⟨s, a, s'⟩ = broadcasts m' ⟨s, a, s'⟩ := by
  have only : ∀ {m}, broadcasts m ⟨s, a, s'⟩ ≠ [] →
      ∃ b, s.broadcast a = some b ∧ broadcasts m ⟨s, a, s'⟩ = [b.frame] := by
    intro m hne
    rw [broadcasts_eq (sound_of_reach hl.reach) h] at hne ⊢
    split at hne
    · rename_i hlen
      cases hp : (s.posts a m).filter fun x => broadcastType x.type with
      | none => simp [hp] at hne
      | some x =>
        obtain ⟨hp', hx⟩ := Option.filter_eq_some_iff.mp hp
        obtain ⟨b, hb, -, rfl⟩ := (posts_broadcast hl hx).mp hp'
        exact ⟨b, hb, by simp [hlen]⟩
    · simp at hne
  obtain ⟨b, hb, he⟩ := only hm
  obtain ⟨b', hb', he'⟩ := only hm'
  rw [he, he', Option.some.inj (hb.symm.trans hb')]

/-! ## A whole run -/

/-- **Total order.** In every run: while `m` is in `r` and up to the first step that finds its queue
full, the broadcasts put into `m`'s queue are those `r` performed, less `m`'s own, each once and in
the same order; who has gone out of a room does not come back, so that is one stretch of the run;
two clients get the broadcasts that both get in the same order; and what one receiver gets of a
broadcast does not depend on the queue of another. -/
theorem total_order (hl : (relay cfg).Trace l s) :
    (∀ r m, (upToOverflow r m l).flatMap (broadcasts m) =
      (upToOverflow r m l).filterMap (performed r m)) ∧
    (∀ r m, ∀ t ∈ l, m ∈ (t.before.room r).members → m ∉ (t.after.room r).members →
      m ∉ (s.room r).members) ∧
    (∀ m m', (shared m m' l).flatMap (broadcasts m) = (shared m m' l).flatMap (broadcasts m')) ∧
    (∀ t ∈ l, ∀ b, t.before.broadcast t.label = some b → ∀ d ∈ b.dests,
      Receives t.before t.after b d) := by
  refine ⟨fun r m => ?_, fun r m t ht hmem hgone => ?_, fun m m' => ?_, fun t ht b hb => ?_⟩
  · rw [List.filterMap_eq_flatMap_toList]
    refine List.flatMap_congr fun t ht => ?_
    have hcalm : overflows m t = false := by simpa using List.mem_takeWhile_imp ht
    obtain ⟨htl, hstays⟩ := List.mem_filter.mp ((List.takeWhile_prefix _).subset ht)
    obtain ⟨hr, hstep⟩ := hl.mem htl
    obtain ⟨l', hl'⟩ := hr.trace
    exact broadcasts_step hl' hstep hstays hcalm
  · obtain ⟨hr, hstep⟩ := hl.mem ht
    have hadds : adds m t.after.log = true := by
      obtain ⟨r', hr'⟩ := adds_iff.mp ((channels_of_reach hr).member r m hmem)
      exact adds_iff.mpr ⟨r', ((sound_of_reach hr).step_move hstep).log_mono hr'⟩
    exact (hl.persists (P := fun s => adds m s.log = true ∧ m ∉ (s.room r).members)
      (fun _ _ _ hr' h hs => gone_step hr' hs h.1 h.2) ht ⟨hadds, hgone⟩).2
  · refine List.flatMap_congr fun t ht => ?_
    obtain ⟨htl, hboth⟩ := List.mem_filter.mp ht
    simp only [Bool.and_eq_true, Bool.not_eq_true', List.isEmpty_eq_false_iff] at hboth
    obtain ⟨hr, hstep⟩ := hl.mem htl
    obtain ⟨l', hl'⟩ := hr.trace
    exact same_broadcast hl' hstep hboth.1 hboth.2
  · exact (broadcast_spec (hl.mem ht).2 hb).2

/-- Client 1 sends a chat message after client 2 has entered. -/
def talking : List (Act String) := sampleEntered ++ .frame 1 (.msg "hi") :: ops 1 1

theorem talking_some : ((relay sampleConfig).stepsFrom {} talking).isSome = true := by
  decide +kernel

theorem total_order_sample :
    (upToOverflow 100 2 (((relay sampleConfig).stepsFrom {} talking).get talking_some).1).flatMap
      (broadcasts 2) =
    (upToOverflow 100 2 (((relay sampleConfig).stepsFrom {} talking).get talking_some).1).filterMap
      (performed 100 2) :=
  (total_order (Machine.trace_get talking_some)).1 100 2

end E2EAnon.Relay
