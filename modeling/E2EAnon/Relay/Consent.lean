import E2EAnon.Relay.Origins
import E2EAnon.Relay.Announce
import E2EAnon.Relay.Inflight

/-!
# Who is let into a room (`server.go:250-283`, `435-448`)

`handshakeLoop` adds a joiner on its `enter`, whatever has passed between it and the owner before: that
the handshake has succeeded is for the joiner's client to see. A `key_deliver` for a handshake comes to
the joiner's queue only from the owner's side (`delivered_of_received`), so a joiner that waits for it
is let in with the owner's consent (`enters_by_consent`).
-/

namespace E2EAnon.Relay

open Lib

variable {D : Type} {cfg : Config}

/-- `o` has sent a `key_deliver` for the handshake. -/
def Delivered (l : List (Machine.Transition (State D) (Act D))) (o : ClientId) (x : Handle) : Prop :=
  ∃ t ∈ l, ∃ d, t.label = .frame o (.keyDeliver x d)

/-- The owner's side of a handshake of `c` has sent a `key_deliver` for it. -/
def Consented (l : List (Machine.Transition (State D) (Act D))) (s : State D) (c : ClientId) : Prop :=
  ∃ x r o, Made l s x ⟨r, c, o⟩ ∧ Delivered l o x

/-- The client that the step adds to a room, and its handshake. -/
def enters (t : Machine.Transition (State D) (Act D)) : Option (ClientId × Handle) :=
  match t.label with
  | .run c _ _ =>
    match (t.before.conns c).pc with
    | .hsEnter r x => if c ∈ (t.after.room r).members then some (c, x) else none
    | _ => none
  | _ => none

/-- The hello of `c` was a `redeem`. -/
def Joins (l : List (Machine.Transition (State D) (Act D))) (c : ClientId) : Prop :=
  ∃ t ∈ l, ∃ tok nick session, t.label = .connect c (.redeem tok nick session)

/-- A joiner is added only after the owner's `key_deliver` for its handshake, and one without it is in
no room and has been sent no member list. -/
structure ByConsent (l : List (Machine.Transition (State D) (Act D))) (s : State D) : Prop where
  entered : ∀ l₁ t l₂, l = l₁ ++ t :: l₂ → ∀ c x, enters t = some (c, x) →
    ∃ r o, Made l₁ t.before x ⟨r, c, o⟩ ∧ Delivered l₁ o x
  outside : ∀ c, Joins l c → ¬ Consented l s c →
    (∀ r, c ∉ (s.room r).members) ∧ ∀ m ∈ received c l, shown m = none

/-- A `key_deliver` for the handshake has been queued to `c`. -/
def heard (c : ClientId) (x : Handle) (l : List (Machine.Transition (State D) (Act D))) : Bool :=
  (received c l).any fun m => m.type = .keyDeliver && m.handshake = some x

/-- A joiner asks to be let in before it has been sent a `key_deliver`. -/
def hastes (past : List (Machine.Transition (State D) (Act D)))
    (t : Machine.Transition (State D) (Act D)) : Bool :=
  match t.label with
  | .frame c (.enter x) =>
    match (t.before.conns c).pc with
    | .hsLoop _ x' => x = x' && !heard c x past
    | _ => false
  | _ => false

def Patient (l : List (Machine.Transition (State D) (Act D))) : Prop :=
  ∀ l₁ t l₂, l = l₁ ++ t :: l₂ → hastes l₁ t = false

variable {l : List (Machine.Transition (State D) (Act D))} {t : Machine.Transition (State D) (Act D)}
  {c o : ClientId} {r : RoomId} {x : Handle} {m : ServerMsg D}

theorem Delivered.snoc (h : Delivered l o x) : Delivered (l ++ [t]) o x := by
  obtain ⟨u, hu, h⟩ := h
  exact ⟨u, List.mem_append_left _ hu, h⟩

theorem Consented.snoc {s s' : State D} {a : Act D} (h : Consented l s c) :
    Consented (l ++ [⟨s, a, s'⟩]) s' c := by
  obtain ⟨x, r, o, hmade, hdel⟩ := h
  exact ⟨x, r, o, hmade.snoc, hdel.snoc⟩

theorem Patient.init (h : Patient (l ++ [t])) : Patient l := by
  rintro l₁ u l₂ rfl
  exact h l₁ u (l₂ ++ [t]) (by simp)

theorem heard_snoc (h : heard c x l = true) : heard c x (l ++ [t]) = true := by
  unfold heard at h ⊢
  rw [received_snoc, List.any_append, h, Bool.true_or]

/-! ## Where a `key_deliver` comes from -/

section
variable [Payload D] {s s' : State D} {a : Act D}

theorem delivered_of_posted (hl : (relay cfg).Trace l s) (h : s.posts a c = some m)
    (ht : m.type = .keyDeliver) (hx : m.handshake = some x) :
    ∃ hs o, Made l s x hs ∧ hs.peer o = some c ∧ Delivered l o x := by
  obtain ⟨b, hb, -, rfl⟩ | ⟨hdir, -⟩ := posts_cases h
  · have hbroad := broadcastType_site hl hb
    rw [ht] at hbroad
    cases hbroad
  · cases direct_cases (fit_of_trace hl) hdir with
    | own _ _ hty => simp [ht, relayType] at hty
    | redeemOk | inviteRedeemed | rekey => cases ht
    | peer d draw allow type y z hs ha hmade hpeer =>
      cases ht
      obtain rfl : y = x := Option.some.inj hx
      obtain ⟨d', draw', allow', ha', hgist⟩ := direct_gist hdir (x := (.keyDeliver, some y, z)) rfl
      cases ha.symm.trans ha'
      obtain ⟨t, ht, f, hf, hfg⟩ := gist_of_trace hl hgist
      refine ⟨hs, d, hmade, hpeer, t, ht, z, ?_⟩
      cases f <;> cases hfg
      exact hf

/-- What a joiner has been sent as the key of its handshake, the owner's side has sent. -/
theorem delivered_of_received (hl : (relay cfg).Trace l s) (h : heard c x l = true) :
    ∃ hs o, Made l s x hs ∧ hs.peer o = some c ∧ Delivered l o x := by
  induction hl with
  | nil => cases h
  | @snoc l s s' a hl hstep ih =>
    unfold heard at h
    rw [received_snoc, List.any_append, Bool.or_eq_true] at h
    obtain h | h := h
    · obtain ⟨hs, o, hmade, hpeer, hdel⟩ := ih h
      exact ⟨hs, o, hmade.snoc, hpeer, hdel.snoc⟩
    · obtain ⟨m, hm, hkey⟩ := List.any_eq_true.mp h
      rw [Bool.and_eq_true, decide_eq_true_eq, decide_eq_true_eq] at hkey
      rw [queued_eq (sound_of_reach hl.reach) hstep c] at hm
      split at hm
      · obtain ⟨hs, o, hmade, hpeer, hdel⟩ :=
          delivered_of_posted hl (Option.mem_toList.mp hm) hkey.1 hkey.2
        exact ⟨hs, o, hmade.snoc, hpeer, hdel.snoc⟩
      · cases hm

/-! ## The joiner's loop -/

/-- The handshake of `handshakeLoop` has been made for its client. -/
def Pc.shakes (past : Handle → Handshake → Prop) (c : ClientId) : Pc D → Prop
  | .hsLoop r x | .hsRelay r x _ _ _ | .hsSend r x _ _ | .hsEnter r x => ∃ o, past x ⟨r, c, o⟩
  | _ => True

omit [Payload D] in
theorem Pc.shakes_mono {past past' : Handle → Handshake → Prop}
    (h : ∀ x hs, past x hs → past' x hs) {pc : Pc D} (hpc : pc.shakes past c) :
    pc.shakes past' c := by
  cases pc <;> first | trivial | exact hpc.imp fun o => h _ _

omit [Payload D] in
theorem readFrame_shakes {past : Handle → Handshake → Prop} {m : ClientMsg D} {pc pc' : Pc D}
    (h : readFrame c m pc = some pc') (hpc : pc.shakes past c) : pc'.shakes past c := by
  unfold readFrame at h
  split at h
  · cases h
    cases m <;> simp only [joinerFrame] <;> first | exact hpc | trivial | skip
    split <;> exact hpc
  · split at h <;> cases h <;> trivial
  · cases h

theorem shakes_of_trace (hl : (relay cfg).Trace l s) (c : ClientId) :
    (s.conns c).pc.shakes (Made l s) c := by
  induction hl with
  | nil => trivial
  | @snoc l s s' a hl hstep ih =>
    have hmade : ∀ x hs, Made l s x hs → Made (l ++ [⟨s, a, s'⟩]) s' x hs := fun _ _ => Made.snoc
    have hold := Pc.shakes_mono hmade ih
    have hann := Pc.announced_mono hmade (announced_of_trace hl c)
    generalize hpc : (s'.conns c).pc = pc
    cases hpc ▸ Sound.step_pc hstep c with
    | same _ => exact hold
    | connected hello ha hd => cases hello <;> trivial
    | read m _ ha hread => exact readFrame_shakes hread hold
    | readErr _ ha hread =>
      unfold readFails at hread
      split at hread <;> cases hread <;> trivial
    | ran draw allow _ ha hnext =>
      generalize (s.conns c).pc = pc₀ at hnext hold hann
      cases hnext with
      | sendInviteRedeemed tok r o x => exact ⟨o, hann⟩
      | hsRelay | hsRelayNone | hsSend => exact hold
      | _ => trivial

/-- A patient joiner that is about to be added has been sent the key. -/
theorem heard_of_enters (hl : (relay cfg).Trace l s) (hp : Patient l)
    (hpc : (s.conns c).pc = .hsEnter r x) : heard c x l = true := by
  induction hl with
  | nil => cases hpc
  | @snoc l s s' a hl hstep ih =>
    generalize hpc' : (s'.conns c).pc = pc at hpc
    cases hpc' ▸ Sound.step_pc hstep c with
    | same _ => exact heard_snoc (ih hp.init hpc)
    | connected hello ha hd => cases hello <;> cases hpc
    | read m _ ha hread =>
      subst ha hpc
      have hpatient := hp l ⟨s, .frame c m, s'⟩ [] rfl
      generalize hfrom : (s.conns c).pc = pc₀ at hread
      unfold readFrame at hread
      split at hread
      · cases m <;> simp only [joinerFrame, Option.some.injEq, reduceCtorEq] at hread
        rename_i r' y z
        split at hread
        · rename_i hz
          cases hread
          subst hz
          refine heard_snoc ?_
          simpa [hastes, hfrom] using hpatient
        · cases hread
      · split at hread <;> cases hread
      · cases hread
    | readErr _ ha hread =>
      subst hpc
      unfold readFails at hread
      split at hread <;> cases hread
    | ran draw allow _ ha hnext =>
      subst hpc
      generalize (s.conns c).pc = pc₀ at hnext
      cases hnext

/-- A joiner that is about to be added has the owner's consent. -/
theorem consented_of_enters (hl : (relay cfg).Trace l s) (hp : Patient l)
    (hpc : (s.conns c).pc = .hsEnter r x) : ∃ o, Made l s x ⟨r, c, o⟩ ∧ Delivered l o x := by
  obtain ⟨hs, d, hmade, hpeer, hdel⟩ := delivered_of_received hl (heard_of_enters hl hp hpc)
  have hshakes := shakes_of_trace hl c
  rw [hpc] at hshakes
  obtain ⟨o, ho⟩ := hshakes
  obtain rfl := (parties_of_trace hl).unique x _ _ hmade ho
  refine ⟨o, ho, ?_⟩
  -- the other party of the handshake is the owner's side
  simp only [Handshake.peer] at hpeer
  split at hpeer
  · rename_i hd
    exact Option.some.inj hpeer ▸ hd ▸ hdel
  · split at hpeer
    · rename_i hd
      exact hd ▸ hdel
    · cases hpeer

/-! ## Members and what they are shown -/

/-- The hello of `c` was a `create`. -/
def Creates (l : List (Machine.Transition (State D) (Act D))) (c : ClientId) : Prop :=
  ∃ t ∈ l, ∃ nick session, t.label = .connect c (.create nick session)

/-- On the way to its own room. -/
def Pc.creating : Pc D → Bool
  | .allowCreate | .claimCreate | .createRoom | .addOwner _ => true
  | _ => false

omit [Payload D] in
theorem Creates.snoc (h : Creates l c) : Creates (l ++ [t]) c := by
  obtain ⟨u, hu, h⟩ := h
  exact ⟨u, List.mem_append_left _ hu, h⟩

theorem creates_of_creating (hl : (relay cfg).Trace l s) (hpc : (s.conns c).pc.creating = true) :
    Creates l c := by
  induction hl with
  | nil => cases hpc
  | @snoc l s s' a hl hstep ih =>
    generalize hpc' : (s'.conns c).pc = pc at hpc
    cases hpc' ▸ Sound.step_pc hstep c with
    | same _ => exact (ih hpc).snoc
    | connected hello ha hd =>
      cases hello <;> simp only [helloPc, Pc.creating, Bool.false_eq_true] at hpc
      exact ⟨⟨s, a, s'⟩, by simp, _, _, ha⟩
    | read m _ ha hread =>
      have hafter := readFrame_afterRead hread
      cases pc <;> cases hpc <;> cases hafter
    | readErr _ ha hread =>
      have hafter := readFails_afterRead hread
      cases pc <;> cases hpc <;> cases hafter
    | ran draw allow _ ha hnext =>
      refine (ih ?_).snoc
      generalize (s.conns c).pc = pc₀ at hnext
      cases hnext <;> first | rfl | cases hpc

/-- A connection that has opened its own room, or one that the owner of another has let in. -/
def Entitled (l : List (Machine.Transition (State D) (Act D))) (s : State D) (c : ClientId) : Prop :=
  Creates l c ∨ Consented l s c

omit [Payload D] in
theorem Entitled.snoc (h : Entitled l s c) : Entitled (l ++ [⟨s, a, s'⟩]) s' c :=
  h.imp Creates.snoc Consented.snoc

theorem entitled_of_added (hl : (relay cfg).Trace l s) (hp : Patient l)
    (hpc : (s.conns c).pc = .addOwner r ∨ ∃ x, (s.conns c).pc = .hsEnter r x) :
    Entitled l s c := by
  obtain hpc | ⟨x, hpc⟩ := hpc
  · exact .inl (creates_of_creating hl (by rw [hpc]; rfl))
  · obtain ⟨o, hmade, hdel⟩ := consented_of_enters hl hp hpc
    exact .inr ⟨x, r, o, hmade, hdel⟩

/-- Handlers of members are run for the entitled, rooms have no other members, and no others are
shown member lists. -/
structure Guarded (l : List (Machine.Transition (State D) (Act D))) (s : State D) : Prop where
  serves : ∀ c r todo, (s.conns c).pc = .member r todo → Entitled l s c
  member : ∀ c r, c ∈ (s.room r).members → Entitled l s c
  shown  : ∀ c, ∀ m ∈ received c l, Relay.shown m ≠ none → Entitled l s c

theorem Guarded.serves_step (hl : (relay cfg).Trace l s) (hstep : step cfg s a = some s')
    (hp : Patient l) (hg : Guarded l s) {todo : List (RoomOp D)}
    (hpc : (s'.conns c).pc = .member r todo) : Entitled (l ++ [⟨s, a, s'⟩]) s' c := by
  refine Entitled.snoc ?_
  generalize hpc' : (s'.conns c).pc = pc at hpc
  cases hpc' ▸ Sound.step_pc hstep c with
  | same _ => exact hg.serves c r todo hpc
  | connected hello ha hd => cases hello <;> cases hpc
  | read m _ ha hread =>
    subst hpc
    generalize hfrom : (s.conns c).pc = pc₀ at hread
    unfold readFrame at hread
    split at hread
    · cases m <;> simp only [joinerFrame, Option.some.injEq, reduceCtorEq] at hread
      split at hread <;> cases hread
    · exact hg.serves c _ _ hfrom
    · cases hread
  | readErr _ ha hread =>
    subst hpc
    unfold readFails at hread
    split at hread <;> cases hread
  | ran draw allow _ ha hnext =>
    subst hpc
    generalize hfrom : (s.conns c).pc = pc₀ at hnext
    cases hnext with
    | addOwner => exact entitled_of_added hl hp (.inl hfrom)
    | hsEnter _ x => exact entitled_of_added hl hp (.inr ⟨x, hfrom⟩)
    | member => exact hg.serves c _ _ hfrom

theorem Guarded.member_step (hl : (relay cfg).Trace l s) (hstep : step cfg s a = some s')
    (hp : Patient l) (hg : Guarded l s) (hc : c ∈ (s'.room r).members) :
    Entitled (l ++ [⟨s, a, s'⟩]) s' c := by
  refine Entitled.snoc ?_
  generalize hrm : s'.room r = rm at hc
  cases hrm ▸ (sound_of_reach hl.reach).step_room hstep r with
  | same | touched | transferred | closing => exact hg.member c r hc
  | created | destroyed | reaped => cases hc
  | kicked | left => exact hg.member c r (List.mem_of_mem_filter hc)
  | added d draw allow t ha hpc =>
    simp only [Floor.addRoom] at hc
    split at hc
    · exact hg.member c r hc
    · obtain hc | hc := List.mem_append.mp hc
      · exact hg.member c r hc
      · obtain rfl := List.mem_singleton.mp hc
        exact entitled_of_added hl hp hpc

theorem Guarded.shown_step (hl : (relay cfg).Trace l s) (hstep : step cfg s a = some s')
    (hp : Patient l) (hg : Guarded l s) (hm : m ∈ received c (l ++ [⟨s, a, s'⟩]))
    (hshown : Relay.shown m ≠ none) : Entitled (l ++ [⟨s, a, s'⟩]) s' c := by
  rw [received_snoc] at hm
  obtain hm | hm := List.mem_append.mp hm
  · exact (hg.shown c m hm hshown).snoc
  rw [queued_eq (sound_of_reach hl.reach) hstep c] at hm
  split at hm
  · obtain ⟨b, hb, hd, -⟩ | ⟨hdir, -⟩ := posts_cases (Option.mem_toList.mp hm)
    · exact hg.member_step hl hstep hp (((broadcast_spec hstep hb).1 c).mp hd).1
    · obtain ⟨ms, hms⟩ := Option.ne_none_iff_exists'.mp hshown
      obtain hty | hty := shown_type hms
      · obtain ⟨-, draw, allow, r, k, -, hpc⟩ := direct_welcome hl hdir hty
        exact (hg.serves c r _ hpc).snoc
      · have hbroad := broadcastType_direct hl hdir
        rw [hty] at hbroad
        cases hbroad
  · cases hm

theorem guarded_of_trace (hl : (relay cfg).Trace l s) (hp : Patient l) : Guarded l s := by
  induction hl with
  | nil =>
    refine ⟨fun c r todo hpc => ?_, fun c r hc => ?_, fun c m hm => ?_⟩
    · cases hpc
    · cases hc
    · cases hm
  | @snoc l s s' a hl hstep ih =>
    have hg := ih hp.init
    exact ⟨fun c r todo hpc => hg.serves_step hl hstep hp.init hpc,
      fun c r hc => hg.member_step hl hstep hp.init hc,
      fun c m hm hshown => hg.shown_step hl hstep hp.init hm hshown⟩

theorem drawn_of_hello (hl : (relay cfg).Trace l s) (ht : t ∈ l) {f : ClientMsg D}
    (hf : t.label = .connect c f) : c ∈ s.drawn := by
  refine hl.persists (P := fun s => c ∈ s.drawn) (fun s a s' hr hc hstep => ?_) ht ?_
  · exact ((sound_of_reach hr).step_move hstep).drawn_mono hc
  · obtain ⟨-, hstep⟩ := hl.mem ht
    have hcon : step cfg t.before (.connect c f) = some t.after := hf ▸ hstep
    rw [(connect_connects hcon).drawn]
    exact List.mem_cons_self

/-- A connection says hello once. -/
theorem hello_once (hl : (relay cfg).Trace l s) {t u : Machine.Transition (State D) (Act D)}
    (ht : t ∈ l) (hu : u ∈ l) {f g : ClientMsg D} (hf : t.label = .connect c f)
    (hg : u.label = .connect c g) : f = g := by
  induction hl with
  | nil => cases ht
  | @snoc l s s' a hl hstep ih =>
    obtain ht' | ht' := List.mem_append.mp ht <;> obtain hu' | hu' := List.mem_append.mp hu
    · exact ih ht' hu'
    · obtain rfl := List.mem_singleton.mp hu'
      subst hg
      have hcon : step cfg s (.connect c g) = some s' := hstep
      exact absurd (drawn_of_hello hl ht' hf) (connect_connects hcon).fresh
    · obtain rfl := List.mem_singleton.mp ht'
      subst hf
      have hcon : step cfg s (.connect c f) = some s' := hstep
      exact absurd (drawn_of_hello hl hu' hg) (connect_connects hcon).fresh
    · obtain rfl := List.mem_singleton.mp ht'
      obtain rfl := List.mem_singleton.mp hu'
      cases hf.symm.trans hg
      rfl

theorem joiner_consented (hl : (relay cfg).Trace l s) (hj : Joins l c) (h : Entitled l s c) :
    Consented l s c := by
  refine h.resolve_left ?_
  rintro ⟨u, hu, nick', session', hcreate⟩
  obtain ⟨t, ht, tok, nick, session, hredeem⟩ := hj
  cases hello_once hl ht hu hredeem hcreate

/-- In every run in which no joiner asks to be let in before it has been sent the key of its handshake,
those let in have the owner's consent, and the others are outside. -/
theorem enters_by_consent (hl : (relay cfg).Trace l s) (hp : Patient l) : ByConsent l s where
  entered := by
    rintro l₁ t l₂ rfl c x hx
    have hwhole : (relay cfg).Trace ((l₁ ++ [t]) ++ l₂) s := by simpa using hl
    obtain ⟨s₁, hl₁⟩ := hwhole.front
    obtain ⟨hbefore, -, -⟩ := hl₁.last
    have hpatient : Patient l₁ := fun k u k' hk => hp k u (k' ++ t :: l₂) (by simp [hk])
    unfold enters at hx
    split at hx
    · split at hx
      · rename_i r y hpc
        split at hx
        · cases hx
          obtain ⟨o, hmade, hdel⟩ := consented_of_enters hbefore hpatient hpc
          exact ⟨r, o, hmade, hdel⟩
        · cases hx
      · cases hx
    · cases hx
  outside c hj hno := by
    have hg := guarded_of_trace hl hp
    refine ⟨fun r hc => hno (joiner_consented hl hj (hg.member c r hc)), fun m hm => ?_⟩
    by_contra hshown
    exact hno (joiner_consented hl hj (hg.shown c m hm hshown))

end

/-! ## A joiner without the code -/

/-- The owner sends the key of the handshake, and client 2 is let in. -/
def sampleDelivered : List (Act String) :=
  sampleOpen ++ sampleInvite ++ sampleRedeem ++ .frame 1 (.keyDeliver 300 "key") :: ops 1 2 ++
    sampleEnter

theorem sampleDelivered_some : ((relay sampleConfig).stepsFrom (relay sampleConfig).init
    sampleDelivered).isSome = true := by decide +kernel

theorem enters_by_consent_sample :
    let r := ((relay sampleConfig).stepsFrom (relay sampleConfig).init sampleDelivered).get
      sampleDelivered_some
    r.1.filterMap enters = [(2, 300)] ∧ ByConsent r.1 r.2 := by
  have hpatient : (List.range (((relay sampleConfig).stepsFrom (relay sampleConfig).init
      sampleDelivered).get sampleDelivered_some).1.length).all (fun n =>
        ((((relay sampleConfig).stepsFrom (relay sampleConfig).init sampleDelivered).get
          sampleDelivered_some).1[n]?).all fun t => !hastes ((((relay sampleConfig).stepsFrom
            (relay sampleConfig).init sampleDelivered).get sampleDelivered_some).1.take n) t) =
        true := by decide +kernel
  refine ⟨by decide +kernel, enters_by_consent (Machine.trace_get sampleDelivered_some) ?_⟩
  intro l₁ t l₂ he
  rw [he] at hpatient
  have h := List.all_eq_true.mp hpatient l₁.length (by simp)
  simpa using h

theorem uninvited_some : ((relay sampleConfig).stepsFrom (relay sampleConfig).init
    (sampleOpen ++ sampleInvite ++ sampleRedeem ++ sampleEnter)).isSome = true := by decide +kernel

def Act.keys : Act D → Bool
  | .frame _ (.keyDeliver _ _) => true
  | _ => false

/-- Client 2 enters at once. The owner has sent nothing, and client 2 is in the room. -/
theorem let_in_without_key : ∃ l s, (relay (D := String) sampleConfig).Trace l s ∧
    ¬ ByConsent l s := by
  have hjoins : (((relay sampleConfig).stepsFrom (relay sampleConfig).init (sampleOpen ++
      sampleInvite ++ sampleRedeem ++ sampleEnter)).get uninvited_some).1.any (fun t =>
        t.label = .connect 2 (.redeem 200 "bob" "s2")) = true := by decide +kernel
  have hmember : 2 ∈ ((((relay sampleConfig).stepsFrom (relay sampleConfig).init (sampleOpen ++
      sampleInvite ++ sampleRedeem ++ sampleEnter)).get uninvited_some).2.room 100).members := by
    decide +kernel
  have hnokey : (((relay sampleConfig).stepsFrom (relay sampleConfig).init (sampleOpen ++
      sampleInvite ++ sampleRedeem ++ sampleEnter)).get uninvited_some).1.all (fun t =>
        !t.label.keys) = true := by decide +kernel
  refine ⟨_, _, Machine.trace_get uninvited_some, fun h => ?_⟩
  obtain ⟨t, ht, hlabel⟩ := List.any_eq_true.mp hjoins
  refine (h.outside 2 ⟨t, ht, 200, "bob", "s2", of_decide_eq_true hlabel⟩ ?_).1 100 hmember
  rintro ⟨x, r, o, -, u, hu, d, hkey⟩
  have hno := List.all_eq_true.mp hnokey u hu
  rw [hkey] at hno
  cases hno

end E2EAnon.Relay
