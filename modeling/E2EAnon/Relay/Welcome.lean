import E2EAnon.Relay.Announce

/-!
# The welcome and the frames of the room (`server.go:153-176`, `259-276`, `room.go:73-115`)

`Add` makes a client a member in one section; its handler takes the snapshot and sends the welcome
in later ones. In between, every other handler of the room may broadcast, and the owner's may rekey
the new member. `runOwner` ignores the error of `Add`, which "cannot fail" on a fresh room unless
`Shutdown` or the janitor has closed it.

`timely` is a step that falls into neither gap; `welcome_first` is about the runs of such steps.
-/

namespace E2EAnon.Relay

open Lib

variable {D : Type} {cfg : Config}

/-- Presence, chat, roster, rekey and file frames. -/
def roomType (t : ServerType) : Bool := t = .rekey || broadcastType t

/-- A handler has its client still to welcome. -/
def Pc.welcoming : Pc D → Bool
  | .member _ todo => todo.any RoomOp.greets
  | _ => false

/-- Nothing is sent to a member of a room before its own handler has welcomed it: no broadcast, and
no rekey. A room is not closed before its creator is in it, and a welcome finds room in the queue. -/
def timely (s : State D) (a : Act D) : Bool :=
  (match s.broadcast a with
    | some b => b.dests.all fun c => !(s.conns c).pc.welcoming
    | none => true) &&
  (match a with
    | .run c _ _ =>
      match (s.conns c).pc with
      | .member r (.owned (.rekey t _) :: _) =>
        decide (t ∉ (s.room r).members) || !(s.conns t).pc.welcoming
      | .member _ (.send _ m :: _) =>
        decide (m.type ≠ .welcome) || decide ((s.conns c).out.length < outboundBuffer)
      | .addOwner r => !(s.room r).closed
      | _ => true
    | _ => true)

/-- The frames put into `c`'s queue, the first one first. -/
def history (c : ClientId) (l : List (Machine.Transition (State D) (Act D))) :
    List (ServerMsg D) :=
  l.flatMap (queued c)

/-- Every frame of the room comes after a welcome. -/
def WelcomeFirst (h : List (ServerMsg D)) : Prop :=
  ∀ h₁ m h₂, h = h₁ ++ m :: h₂ → roomType m.type = true → ∃ w ∈ h₁, w.type = .welcome

theorem WelcomeFirst.nil : WelcomeFirst ([] : List (ServerMsg D)) := by
  intro h₁ m h₂ h
  simp at h

theorem WelcomeFirst.snoc {h : List (ServerMsg D)} {m : ServerMsg D} (hw : WelcomeFirst h)
    (hm : roomType m.type = true → ∃ w ∈ h, w.type = .welcome) : WelcomeFirst (h ++ [m]) := by
  intro h₁ m' h₂ he hm'
  obtain rfl | ⟨h₂, x, rfl⟩ := List.eq_nil_or_concat h₂
  · obtain ⟨rfl, he⟩ := List.append_inj' he rfl
    obtain rfl : m = m' := by simpa using he
    exact hm hm'
  · rw [List.concat_eq_append, ← List.cons_append, ← List.append_assoc] at he
    exact hw h₁ m' h₂ (List.append_inj' he rfl).1 hm'

theorem greets_welcoming {r : RoomId} {pc : Pc D} (h : pc.greets r = true) : pc.welcoming = true := by
  cases pc <;> simp_all [Pc.greets, Pc.welcoming]

section
variable [Payload D] {s s' : State D} {a : Act D} {c : ClientId} {r : RoomId}
  {l : List (Machine.Transition (State D) (Act D))}

/-- A member whose handler has it still to welcome is welcomed to its room. -/
theorem greets_of_member (hl : (relay cfg).Trace l s) (hc : c ∈ (s.room r).members)
    (hw : (s.conns c).pc.welcoming = true) : (s.conns c).pc.greets r = true := by
  cases hpc : (s.conns c).pc <;> rw [hpc] at hw <;> simp only [Pc.welcoming, Bool.false_eq_true] at hw
  case member r' todo =>
    obtain rfl := member_room hl hc hpc
    simp [Pc.greets, hw]

/-- A handler comes to a welcome by an `Add`. -/
theorem welcoming_from (hl : (relay cfg).Trace l s) (h : step cfg s a = some s')
    (hw : (s'.conns c).pc.welcoming = true) : (s.conns c).pc.welcoming = true ∨
      ∃ draw allow, a = .run c draw allow ∧ ((∃ r, (s.conns c).pc = .addOwner r) ∨
        ∃ r x k, (s.conns c).pc = .hsEnter r x ∧ (s'.conns c).pc = .member r k) := by
  generalize hpc' : (s'.conns c).pc = pc' at hw ⊢
  cases hpc' ▸ Sound.step_pc h c with
  | same _ => exact .inl hw
  | connected hello _ _ => cases hello <;> simp [helloPc, Pc.welcoming] at hw
  | read m _ ha hread =>
    cases hpc : pc' <;> rw [hpc] at hw hread <;> simp only [Pc.welcoming, Bool.false_eq_true] at hw
    have hno := readFrame_announces hread
    simp [any_announces hw] at hno
  | readErr _ ha hread =>
    cases hpc : pc' <;> rw [hpc] at hw hread <;> simp only [Pc.welcoming, Bool.false_eq_true] at hw
    exact absurd hread readFails_announces
  | ran draw allow _ ha hnext =>
    have hfit := fit_of_trace hl c
    generalize (s.conns c).pc = pc at hnext hfit ⊢
    cases hnext <;> try simp only [Pc.welcoming, Bool.false_eq_true] at hw
    case addOwner r => exact .inr ⟨draw, allow, ha, .inl ⟨r, rfl⟩⟩
    case hsEnter r x => exact .inr ⟨draw, allow, ha, .inr ⟨r, x, _, rfl, rfl⟩⟩
    case member r op new k hex =>
      refine .inl ?_
      by_contra hno
      simp only [Pc.welcoming, List.any_cons, Bool.or_eq_true, not_or] at hno
      have hnew : new.any RoomOp.greets = true := by simpa [hno.2] using hw
      cases hop : op.announces with
      | false =>
        obtain hany | ⟨-, rfl⟩ := hex.announces (hfit op (by simp)) hop
        · simp [any_announces hnew] at hany
        · simp [RoomOp.greets] at hnew
      | true =>
        cases op <;> simp only [RoomOp.announces, RoomOp.greets, Bool.false_eq_true,
          not_true_eq_false, false_and] at hop hno
        case broadcastPresence =>
          cases hex
          simp at hnew
        case send dst m => exact hno.1 hop

/-- An `Add` that takes place: on a room nobody has closed, or on the way into `memberLoop`. -/
theorem welcoming_added (hl : (relay cfg).Trace l s) (h : step cfg s a = some s')
    (ha : timely s a = true) (hadded : (s.conns c).pc.welcoming = true → ∃ r, .added c r ∈ s.log)
    (hw : (s'.conns c).pc.welcoming = true) : ∃ r, .added c r ∈ s'.log := by
  have hs := sound_of_reach hl.reach
  obtain hold | ⟨draw, allow, rfl, ⟨r, hpc⟩ | ⟨r, x, k, hpc, hpc'⟩⟩ := welcoming_from hl h hw
  · obtain ⟨r, hr⟩ := hadded hold
    exact ⟨r, Move.log_mono (hs.step_move h) hr⟩
  · -- a fresh room has no members, so `Add` refuses only if it is closed
    have hopen : (s.room r).closed = false := by
      simpa [timely, hpc, State.broadcast, Pc.broadcast] using ha
    have hnil : (s.room r).members = [] :=
      (hs.inv.opening c r (by simp only [State.floor, hpc, Pc.phase])).1
    have hcap := cfg.maxRoomSize_pos
    have hadd : ¬ cfg.maxRoomSize ≤ 0 := by omega
    simp only [step, hpc, runPc, State.add, hopen, hnil, Bool.false_eq_true, if_false,
      List.length_nil, ge_iff_le, hadd, Option.some.injEq] at h
    exact ⟨r, by simp [← h, State.goto, State.setConn, State.note]⟩
  · simp only [step, hpc, runPc] at h
    split at h <;> cases h
    · rename_i s₁ h₁
      simp only [State.add] at h₁
      split at h₁
      · simp at h₁
      · split at h₁ <;> cases h₁
        exact ⟨r, by simp [State.goto, State.setConn, State.note]⟩
    · simp [State.goto, State.setConn] at hpc'

/-- A frame of the room goes to members only, and only the owner's rekey is not a broadcast. -/
theorem roomType_posts (hl : (relay cfg).Trace l s) {m : ServerMsg D} (hp : s.posts a c = some m)
    (hm : roomType m.type = true) : (∃ b, s.broadcast a = some b ∧ c ∈ b.dests) ∨
      ∃ d draw allow r x k, a = .run d draw allow ∧
        (s.conns d).pc = .member r (.owned (.rekey c x) :: k) ∧ c ∈ (s.room r).members := by
  obtain ⟨b, hb, hd, -⟩ | ⟨hdir, -⟩ := posts_cases hp
  · exact .inl ⟨b, hb, hd⟩
  · have hno := broadcastType_direct hl hdir
    cases direct_cases (fit_of_trace hl) hdir with
    | own _ _ ht => cases hty : m.type <;> simp [hty, relayType, roomType, broadcastType] at ht hm
    | rekey d draw allow r x k ha hpc hopen hmem =>
      exact .inr ⟨d, draw, allow, r, x, k, ha, hpc, hmem⟩
    | peer _ _ _ type _ _ _ _ _ _ ht =>
      cases type <;> simp [handshakeType, roomType, broadcastType] at ht hm
    | _ => simp [roomType, broadcastType] at hm

/-- What holds between the rooms, the handlers and the queues in a timely run. -/
structure Welcomed (l : List (Machine.Transition (State D) (Act D))) (s : State D) : Prop where
  first : ∀ c, WelcomeFirst (history c l)
  member : ∀ c r, c ∈ (s.room r).members →
    (s.conns c).pc.welcoming = true ∨ ∃ w ∈ history c l, w.type = .welcome
  added : ∀ c, (s.conns c).pc.welcoming = true → ∃ r, .added c r ∈ s.log
  welcome : ∀ c w, w ∈ history c l → w.type = .welcome → ∃ r, .added c r ∈ s.log

variable {m : ServerMsg D}

/-- In a timely step, a frame of the room goes to members that have been welcomed. -/
theorem greeted_of_roomType (hl : (relay cfg).Trace l s) (h : step cfg s a = some s')
    (ha : timely s a = true) (hp : s.posts a c = some m) (hm : roomType m.type = true) :
    (s.conns c).pc.welcoming = false ∧ ∃ r, c ∈ (s.room r).members := by
  simp only [timely, Bool.and_eq_true] at ha
  obtain ⟨b, hb, hd⟩ | ⟨d, draw, allow, r, x, k, rfl, hpc, hmem⟩ := roomType_posts hl hp hm
  · have hall := ha.1
    simp only [hb, List.all_eq_true, Bool.not_eq_true'] at hall
    exact ⟨hall c hd, b.room, member_of_dest (sound_of_reach hl.reach) h hb hd⟩
  · have hrekey := ha.2
    simp only [hpc, Bool.or_eq_true, decide_eq_true_eq, Bool.not_eq_true'] at hrekey
    exact ⟨hrekey.resolve_left fun hno => hno hmem, r, hmem⟩

/-- A welcome is sent by the handler of its receiver, which has it to welcome. -/
theorem posts_welcome (hl : (relay cfg).Trace l s) (hp : s.posts a c = some m)
    (hm : m.type = .welcome) : ∃ draw allow r k, a = .run c draw allow ∧
      (s.conns c).pc = .member r (.send c m :: k) := by
  obtain ⟨b, hb, -, rfl⟩ | ⟨hdir, -⟩ := posts_cases hp
  · have hty := broadcastType_site hl hb
    simp [hm, broadcastType] at hty
  · exact (direct_welcome hl hdir hm).2

theorem Welcomed.step (hl : (relay cfg).Trace l s) (hw : Welcomed l s)
    (h : step cfg s a = some s') (ha : timely s a = true) :
    Welcomed (l ++ [⟨s, a, s'⟩]) s' := by
  have hs := sound_of_reach hl.reach
  have hq : ∀ c, history c (l ++ [⟨s, a, s'⟩]) = history c l ++
      if (s.conns c).out.length < outboundBuffer then (s.posts a c).toList else [] := by
    intro c
    simp [history, List.flatMap_append, queued_eq hs h c]
  have hlog : ∀ e, e ∈ s.log → e ∈ s'.log := fun e he => Move.log_mono (hs.step_move h) he
  refine ⟨fun c => ?_, fun c r hc => ?_, fun c hp => welcoming_added hl h ha (hw.added c) hp,
    fun c w hmem hty => ?_⟩
  · -- a frame of the room finds its receiver welcomed
    rw [hq]
    split
    · cases hp : s.posts a c with
      | none => simpa using hw.first c
      | some m =>
        refine (hw.first c).snoc fun hm => ?_
        obtain ⟨hno, r, hc⟩ := greeted_of_roomType hl h ha hp hm
        simpa [hno] using hw.member c r hc
    · simpa using hw.first c
  · by_cases hold : c ∈ (s.room r).members
    · obtain hp | ⟨w, hmem, hty⟩ := hw.member c r hold
      · cases hp' : (s'.conns c).pc.welcoming with
        | true => exact .inl rfl
        | false =>
          have hg' : (s'.conns c).pc.greets r = false := by
            by_contra hg
            simp [greets_welcoming (Bool.eq_true_of_not_eq_false hg)] at hp'
          obtain ⟨m, hpost, hty⟩ := greeted hl h hold (greets_of_member hl hold hp) hg'
          obtain ⟨draw, allow, r', k, rfl, hpc⟩ := posts_welcome hl hpost hty
          have hroom : (s.conns c).out.length < outboundBuffer := by
            simpa [timely, State.broadcast, hpc, Pc.broadcast, RoomOp.broadcast, hty] using ha
          exact .inr ⟨m, by simp [hq, hroom, hpost], hty⟩
      · exact .inr ⟨w, by simp [hq, hmem], hty⟩
    · exact .inl (greets_welcoming (entered_greets hs h hc hold))
  · rw [hq, List.mem_append] at hmem
    obtain hmem | hmem := hmem
    · obtain ⟨r, hr⟩ := hw.welcome c w hmem hty
      exact ⟨r, hlog _ hr⟩
    · have hpost : s.posts a c = some w := by
        split at hmem
        · simpa using hmem
        · simp at hmem
      obtain ⟨draw, allow, r, k, rfl, hpc⟩ := posts_welcome hl hpost hty
      obtain ⟨r, hr⟩ := hw.added c (by simp [hpc, Pc.welcoming, RoomOp.greets, hty])
      exact ⟨r, hlog _ hr⟩

/-- **Welcome first.** In every run of timely steps, no frame of a room is queued to a client before
its welcome, and a welcome is queued only to a client that was added. -/
theorem welcome_first (hl : (relay cfg).Trace l s)
    (hok : ∀ t ∈ l, timely t.before t.label = true) (c : ClientId) :
    WelcomeFirst (history c l) ∧
      ∀ w ∈ history c l, w.type = .welcome → ∃ r, .added c r ∈ s.log := by
  have hw : Welcomed l s := by
    induction hl with
    | nil =>
      exact ⟨fun c => .nil, fun c r hc => by simp [relay] at hc,
        fun c hp => by simp [relay, Pc.welcoming] at hp, fun c w hmem => by simp [history] at hmem⟩
    | snoc hl hs ih =>
      exact (ih fun t ht => hok t (by simp [ht])).step hl hs
        (hok _ (List.mem_append_right _ (List.mem_singleton_self _)))
  exact ⟨hw.first c, hw.welcome c⟩

end

theorem entering_some : ((relay sampleConfig).stepsFrom {}
    (sampleOpen ++ sampleInvite ++ sampleRedeem ++ sampleEnter)).isSome = true := by decide +kernel

theorem welcome_first_sample :
    WelcomeFirst (history 2 (((relay sampleConfig).stepsFrom {}
      (sampleOpen ++ sampleInvite ++ sampleRedeem ++ sampleEnter)).get entering_some).1) :=
  (welcome_first (Machine.trace_get entering_some) (by decide +kernel) 2).1

/-- Client 2 is in the room, and client 1 rekeys it before its handler comes to the welcome. -/
def rekeyedEarly : List (Act String) :=
  sampleOpen ++ sampleInvite ++ sampleRedeem ++ .frame 2 (.enter 300) :: ops 2 1 ++
    .frame 1 (.rekey 2 "k") :: ops 1 2 ++ ops 2 5

theorem rekeyedEarly_some : ((relay sampleConfig).stepsFrom {} rekeyedEarly).isSome = true := by
  decide +kernel

/-- `Shutdown` closes room 100 between its creation and the creator's `Add`. -/
def stoppedEarly : List (Act String) :=
  .connect 1 (.create "ann" "s1") :: ops 1 2 ++ .run 1 100 true :: .shutdown 0 :: .shutdown 100 ::
    ops 1 4

theorem stoppedEarly_some : ((relay sampleConfig).stepsFrom {} stoppedEarly).isSome = true := by
  decide +kernel

theorem not_welcomeFirst {h : List (ServerMsg D)} {x y : ServerMsg D} (hh : h.take 2 = [x, y])
    (hx : x.type ≠ .welcome) (hy : roomType y.type = true) : ¬ WelcomeFirst h := by
  intro hw
  obtain ⟨w, hmem, hty⟩ := hw [x] y (h.drop 2)
    ((List.take_append_drop 2 h).symm.trans (by rw [hh]; rfl)) hy
  obtain rfl := List.mem_singleton.mp hmem
  exact hx hty

theorem welcome_late :
    (∃ l s, (relay (D := String) sampleConfig).Trace l s ∧ ¬ WelcomeFirst (history 2 l)) ∧
    ∃ l s, (relay (D := String) sampleConfig).Trace l s ∧ (∃ w ∈ history 1 l, w.type = .welcome) ∧
      ∀ r, Event.added 1 r ∉ s.log := by
  refine ⟨⟨_, _, Machine.trace_get rekeyedEarly_some, ?_⟩,
    ⟨_, _, Machine.trace_get stoppedEarly_some, by decide +kernel, fun r hr => ?_⟩⟩
  · have htake : (history 2 (((relay sampleConfig).stepsFrom {} rekeyedEarly).get
        rekeyedEarly_some).1).take 2 =
        [{ type := .redeemOk, handshake := some 300, memberId := some 2 },
          { type := .rekey, data := some "k" }] := by decide +kernel
    exact not_welcomeFirst htake (by decide) rfl
  · have hlog : ∀ e ∈ (((relay sampleConfig).stepsFrom (relay sampleConfig).init stoppedEarly).get
        stoppedEarly_some).2.log, e = .reaped 100 ∨ e = .created 1 100 := by decide +kernel
    obtain he | he := hlog _ hr <;> cases he

end E2EAnon.Relay
