import E2EAnon.Net.Network
import E2EAnon.Relay.Announce

/-!
# The members' views of their room (`room.go:97-151`, `main.ts:303-318`, `main.ts:495-507`)

A member's view is what the last welcome or presence frame told it. `Seen` says that this frame, on
its way or already read, shows the room as it is, unless a handler has a change still to announce;
a welcome made of an old snapshot is followed by its handler's own presence broadcast.
-/

namespace E2EAnon.Net

open Web (View)

variable {cfg : Relay.Config} {n n' : World} {a : Act} {r : Relay.RoomId} {c : Relay.ClientId}

/-- The member list that a client will hold once it has read the frames `q`. -/
def latest (q : List (ServerMsg Web.Data)) : Option (List MemberInfo) :=
  (q.filterMap Relay.shown).getLast?

/-- The step finds no member of `r` with a full queue. -/
def Roomy (r : Relay.RoomId) (n : World) (a : Act) : Prop :=
  ∀ b ∈ a.relayAct n, ∀ c ∈ (n.relay.room r).members, (n.relay.posts b c).isSome = true →
    (n.relay.conns c).out.length < Relay.outboundBuffer

instance roomyDecidable (r : Relay.RoomId) (n : World) (a : Act) : Decidable (Roomy r n a) :=
  inferInstanceAs (Decidable (∀ b ∈ a.relayAct n, _))

/-- No handler is between a change of `r` and the frame that announces it. -/
def Settled (r : Relay.RoomId) (n : World) : Prop :=
  ∀ c, (n.relay.conns c).pc.announces r = false

/-- The room as a member's view should have it. -/
structure Shows (n : World) (r : Relay.RoomId) (c : Relay.ClientId) (v : View) : Prop where
  memberId : v.memberId = c
  members  : ∀ i, i ∈ v.lastMembers ↔ i ∈ n.relay.membersInfo r
  ownerId  : (n.relay.room r).ownerID = some v.ownerId
  role     : v.role = .owner ↔ (n.relay.room r).ownerID = some c

/-! ## What a step does to a client and the frames on their way to it -/

theorem latest_append (q q' : List (ServerMsg Web.Data)) :
    latest (q ++ q') = (latest q').or (latest q) := by
  simp only [latest, List.filterMap_append, List.getLast?_append]

theorem latest_singleton (m : ServerMsg Web.Data) : latest [m] = Relay.shown m := by
  cases h : Relay.shown m <;> simp [latest, h]

theorem latest_eq_none {q : List (ServerMsg Web.Data)} :
    latest q = none ↔ ∀ m ∈ q, Relay.shown m = none := by
  simp [latest]

section
variable [Payload Web.Data]

theorem step_inbound (h : step cfg n a = some n') {b : Relay.Act Web.Data}
    (hb : a.relayAct n = some b) (hs : Relay.Sound cfg n.relay) (hc : ∀ hello, b ≠ .connect c hello) :
    n'.inbound c = n.down c ++ Relay.enqueue (n.relay.conns c).out (n.relay.posts b c) ∧
      (n'.clients c).view = (n.clients c).view := by
  cases a with
  | tab | deliver => simp [Act.relayAct] at hb
  | join d w =>
    simp only [step] at h
    split at h
    · simp at h
    · simp only [Option.bind_eq_bind, Option.bind_eq_some_iff] at h
      obtain ⟨⟨k, hello⟩, hk, relay, hr, h⟩ := h
      cases h
      simp only [Act.relayAct, hk, Option.map_some, Option.some.injEq] at hb
      subst hb
      have hd : c ≠ d := by
        rintro rfl
        exact hc hello rfl
      have hout := hs.step_out hr c
      simp only [Relay.State.nextOut, if_neg hd] at hout
      refine ⟨?_, by simp [World.setClient, hd]⟩
      simp [World.inbound, World.setClient, hout, Relay.State.posts, Relay.State.posts.named,
        Relay.State.broadcast, Relay.State.direct, Relay.enqueue]
  | read d =>
    simp only [step] at h
    split at h
    · simp at h
    · rename_i sock m rest ho
      obtain ⟨relay, hr, rfl⟩ := Option.map_eq_some_iff.mp h
      simp only [Act.relayAct, ho, List.head?_cons, Option.map_some, Option.some.injEq] at hb
      subst hb
      have hout := hs.step_out hr c
      refine ⟨?_, ?_⟩
      · rw [World.inbound]
        exact congrArg (n.down c ++ ·) hout
      · by_cases hd : c = d
        · subst hd
          simp [World.setClient, Web.Client.view]
        · simp [World.setClient, hd]
  | pump d =>
    simp only [step] at h
    split at h
    · simp at h
    · rename_i m rest ho
      obtain ⟨relay, hr, rfl⟩ := Option.map_eq_some_iff.mp h
      simp only [Act.relayAct, Option.some.injEq] at hb
      subst hb
      have hout := hs.step_out hr c
      refine ⟨?_, rfl⟩
      by_cases hd : c = d
      · subst hd
        simp only [Relay.State.nextOut, if_true, ho, List.tail_cons] at hout
        simp [World.inbound, World.setDown, hout, ho, Relay.State.posts, Relay.State.posts.named,
          Relay.State.broadcast, Relay.State.direct, Relay.enqueue]
      · simp only [Relay.State.nextOut, if_neg hd] at hout
        simp [World.inbound, World.setDown, hout, hd, Relay.State.posts, Relay.State.posts.named,
          Relay.State.broadcast, Relay.State.direct, Relay.enqueue]
  | relay b' =>
    simp only [step] at h
    split at h
    · rename_i hint
      obtain ⟨relay, hr, rfl⟩ := Option.map_eq_some_iff.mp h
      simp only [Act.relayAct, Option.some.injEq] at hb
      subst hb
      have hout := hs.step_out hr c
      refine ⟨?_, rfl⟩
      rw [World.inbound]
      refine congrArg (n.down c ++ ·) ?_
      cases b' <;> first | exact hout | simp [internal] at hint
    · simp at h

/-- A tab that connects has no frames of the relay waiting. -/
theorem join_inbound (h : step cfg n a = some n') {hello : ClientMsg Web.Data}
    (hb : a.relayAct n = some (.connect c hello)) (hs : Relay.Sound cfg n.relay) :
    n'.inbound c = n.down c := by
  cases a with
  | tab | deliver | pump => simp [Act.relayAct] at hb
  | read d =>
    simp only [Act.relayAct, Option.map_eq_some_iff] at hb
    obtain ⟨_, -, hb⟩ := hb
    cases hb
  | relay b =>
    simp only [Act.relayAct, Option.some.injEq] at hb
    subst hb
    simp [step, internal] at h
  | join d w =>
    simp only [step] at h
    split at h
    · simp at h
    · simp only [Option.bind_eq_bind, Option.bind_eq_some_iff] at h
      obtain ⟨⟨k, hello'⟩, hk, relay, hr, h⟩ := h
      cases h
      simp only [Act.relayAct, hk, Option.map_some, Option.some.injEq] at hb
      cases hb
      have hout := hs.step_out hr c
      simp only [Relay.State.nextOut, if_true] at hout
      simp [World.inbound, World.setClient, hout]

/-- An event of a tab and the delivery of a frame. -/
theorem step_tab (h : step cfg n a = some n') (ha : a.relayAct n = none) : n'.relay = n.relay ∧
    ((n'.inbound c = n.inbound c ∧
        ((n'.clients c).view = none ∨ (n'.clients c).view = (n.clients c).view)) ∨
      ∃ m, n.inbound c = m :: n'.inbound c ∧
        n'.clients c = (n.clients c).onMessage m) := by
  cases a with
  | join d w =>
    simp only [step] at h
    split at h
    · simp at h
    · simp only [Option.bind_eq_bind, Option.bind_eq_some_iff] at h
      obtain ⟨⟨k, hello⟩, hk, -⟩ := h
      simp [Act.relayAct, hk] at ha
  | read d =>
    simp only [step] at h
    split at h
    · simp at h
    · rename_i ho
      simp [Act.relayAct, ho] at ha
  | pump | relay => simp [Act.relayAct] at ha
  | tab d w =>
    simp only [step] at h
    split at h
    · rename_i hw
      obtain ⟨k, hk, rfl⟩ := Option.map_eq_some_iff.mp h
      refine ⟨rfl, .inl ⟨rfl, ?_⟩⟩
      by_cases hd : c = d
      · subst hd
        have hkeeps := Web.Client.step_keeps hk (by rintro sock msg rfl; simp [local?] at hw)
          (by rintro i rfl; simp [local?] at hw)
        simpa [World.setClient, Web.Client.Keeps] using hkeeps
      · simp [World.setClient, hd]
    · simp at h
  | deliver d =>
    simp only [step] at h
    split at h
    · simp at h
    · rename_i m rest hq
      obtain ⟨k, hk, rfl⟩ := Option.map_eq_some_iff.mp h
      refine ⟨rfl, ?_⟩
      by_cases hd : c = d
      · subst hd
        simp only [Web.Client.step] at hk
        split at hk <;> cases hk
        exact .inr ⟨m, by simp [World.inbound, World.setDown, World.setClient, hq],
          by simp [World.setDown, World.setClient]⟩
      · exact .inl (by simp [World.inbound, World.setDown, World.setClient, hd])

/-! ## Frames that tell a client its id -/

/-- Every welcome and every `redeem_ok` on its way to `c` names `c`. -/
def Addressed (n : World) : Prop :=
  ∀ c, ∀ m ∈ n.inbound c, m.type = .welcome ∨ m.type = .redeemOk → m.memberId = some c

omit [Payload Web.Data] in
theorem mem_enqueue {q : List (ServerMsg Web.Data)} {x : Option (ServerMsg Web.Data)}
    {m : ServerMsg Web.Data} (h : m ∈ Relay.enqueue q x) : m ∈ q ∨ x = some m := by
  unfold Relay.enqueue at h
  split at h
  · split at h
    · simpa [or_comm, eq_comm] using h
    · exact .inl h
  · exact .inl h

omit [Payload Web.Data] in
theorem subset_enqueue {q : List (ServerMsg Web.Data)} {x : Option (ServerMsg Web.Data)} :
    ∀ m ∈ q, m ∈ Relay.enqueue q x := by
  intro m hm
  unfold Relay.enqueue
  split
  · split
    · exact List.mem_append_left _ hm
    · exact hm
  · exact hm

theorem posts_addressed {l : List (Lib.Machine.Transition (Relay.State Web.Data) _)}
    {s : Relay.State Web.Data} (hl : (Relay.relay cfg).Trace l s) {b : Relay.Act Web.Data}
    {m : ServerMsg Web.Data} (h : s.posts b c = some m)
    (hm : m.type = .welcome ∨ m.type = .redeemOk) : m.memberId = some c := by
  obtain ⟨bc, hbc, -, rfl⟩ | ⟨hdir, -⟩ := Relay.posts_cases h
  · have hty := Relay.broadcastType_site hl hbc
    obtain hm | hm := hm <;> simp [hm, Relay.broadcastType] at hty
  · obtain hm | hm := hm
    · exact (Relay.direct_welcome hl hdir hm).1
    · cases Relay.direct_cases (Relay.fit_of_trace hl) hdir with
      | own _ _ ht => simp [hm, Relay.relayType] at ht
      | redeemOk => rfl
      | peer _ _ _ type _ _ _ _ _ _ ht =>
        cases hm
        simp [Relay.handshakeType] at ht
      | inviteRedeemed | rekey => cases hm

theorem addressed_of_reach {ok : World → Act → Prop} (hr : (network cfg).Reach ok n) :
    Addressed n := by
  refine hr.invariant (I := Addressed) (by simp [Addressed, network, World.inbound]) ?_
  intro n a n' hr h _ hstep c m hm hty
  obtain ⟨l, hl⟩ := (reach_relay hr).trace
  have hs := Relay.sound_of_reach hl.reach
  obtain ⟨hnone, -⟩ | ⟨b, hb, -⟩ := step_relay hstep
  · obtain ⟨-, ⟨hin, -⟩ | ⟨m', hin, -⟩⟩ := step_tab (c := c) hstep hnone
    · exact h c m (hin ▸ hm) hty
    · exact h c m (by simp [hin, hm]) hty
  · by_cases hc : ∃ hello, b = .connect c hello
    · obtain ⟨hello, rfl⟩ := hc
      rw [join_inbound hstep hb hs] at hm
      exact h c m (List.mem_append_left _ hm) hty
    · push Not at hc
      rw [(step_inbound hstep hb hs hc).1] at hm
      obtain hm | hm := List.mem_append.mp hm
      · exact h c m (List.mem_append_left _ hm) hty
      · obtain hm | hm := mem_enqueue hm
        · exact h c m (List.mem_append_right _ hm) hty
        · exact posts_addressed hl hm hty

/-! ## What a member has been told -/

/-- The view of a client that has been shown `ms`. -/
def told (c : Relay.ClientId) (ms : List MemberInfo) : View where
  memberId := c
  ownerId := Web.ownerIdOf ms
  role := if Web.ownerIdOf ms = c then .owner else .member
  lastMembers := ms

structure Seen (n : World) (r : Relay.RoomId) (c : Relay.ClientId) : Prop where
  greeted : ∀ v, (n.clients c).view = some v → (n.relay.conns c).pc.greets r = true ∨
    (∃ m ∈ n.inbound c, m.type = .welcome) ∨ v.memberId = c
  last : ¬ n.relay.Pending r → ∀ v, (n.clients c).view = some v →
    latest (n.inbound c) = some (n.relay.membersInfo r) ∨
      latest (n.inbound c) = none ∧ v = told c (n.relay.membersInfo r)

theorem seen_relay {ok : World → Act → Prop} (hr : (network cfg).Reach ok n)
    (hseen : ∀ c ∈ (n.relay.room r).members, Seen n r c) (hroomy : Roomy r n a)
    (h : step cfg n a = some n') {b : Relay.Act Web.Data} (hb : a.relayAct n = some b)
    (hstep : Relay.step cfg n.relay b = some n'.relay) (hc : c ∈ (n'.relay.room r).members) :
    Seen n' r c := by
  obtain ⟨l, hl⟩ := (reach_relay hr).trace
  have hs := Relay.sound_of_reach hl.reach
  have hs' := Relay.sound_of_reach ((reach_relay hr).step trivial hstep)
  have hnew : ∀ hello, b ≠ .connect c hello := by
    rintro hello rfl
    have hlate := (hs'.inv.mem r c hc).1
    have hpc : (n'.relay.conns c).pc = Relay.helloPc hello := by
      simp only [Relay.step, Relay.State.drawId] at hstep
      split at hstep
      · simp at hstep
      · simp only [Option.bind_eq_bind, Option.bind_some, Option.some.injEq] at hstep
        rw [← hstep]
        simp [Relay.State.setConn]
    simp only [Relay.State.floor, hpc] at hlate
    cases hello <;> simp [Relay.helloPc, Relay.Pc.phase, Relay.Phase.joining] at hlate
  obtain ⟨hin, hview⟩ := step_inbound h hb hs hnew
  -- what is posted to a member finds room
  have posted : ∀ m, c ∈ (n.relay.room r).members → n.relay.posts b c = some m →
      n'.inbound c = n.inbound c ++ [m] := by
    intro m hmem hm
    have hlen := hroomy b hb c hmem (by simp [hm])
    rw [hin, hm]
    simp [Relay.enqueue, hlen, World.inbound]
  refine ⟨fun v hv => ?_, fun hp v hv => ?_⟩
  · by_cases hmem : c ∈ (n.relay.room r).members
    · obtain hg | ⟨m, hm, hty⟩ | hid := (hseen c hmem).greeted v (hview ▸ hv)
      · by_cases hg' : (n'.relay.conns c).pc.greets r = true
        · exact .inl hg'
        · obtain ⟨m, hm, hty⟩ := Relay.greeted hl hstep hmem hg (by simpa using hg')
          exact .inr (.inl ⟨m, by simp [posted m hmem hm], hty⟩)
      · refine .inr (.inl ⟨m, ?_, hty⟩)
        rw [hin]
        obtain hm | hm := List.mem_append.mp hm
        · exact List.mem_append_left _ hm
        · exact List.mem_append_right _ (subset_enqueue m hm)
      · exact .inr (.inr hid)
    · exact .inl (Relay.entered_greets hs hstep hc hmem)
  · obtain ⟨hmem, ⟨m, hm, hms⟩ | ⟨hp0, hinfo, hsilent⟩⟩ := Relay.news hl hstep hc hp
    · refine .inl ?_
      rw [posted m hmem hm, latest_append, latest_singleton, hms]
      rfl
    · have hlast : latest (n'.inbound c) = latest (n.inbound c) := by
        cases hm : n.relay.posts b c with
        | none => rw [hin, hm]; rfl
        | some m =>
          rw [posted m hmem hm, latest_append, latest_singleton, hsilent m hm]
          rfl
      rw [hlast, hinfo]
      exact (hseen c hmem).last hp0 v (hview ▸ hv)

omit [Payload Web.Data] in
/-- What reading a frame does to a member's view. -/
theorem seen_deliver (ha : Addressed n) (hseen : Seen n r c) (hc : c ∈ (n.relay.room r).members)
    (hrelay : n'.relay = n.relay) {m : ServerMsg Web.Data} (hin : n.inbound c = m :: n'.inbound c)
    (hk : n'.clients c = (n.clients c).onMessage m) : Seen n' r c := by
  have hid := ha c m (by simp [hin])
  -- the view before and after
  have hview : ∀ v', (n'.clients c).view = some v' → ∃ v, (n.clients c).view = some v ∧
      (v' = v.after m ∨ m.type = .redeemOk ∧ v' = v) := by
    intro v' hv'
    rw [hk] at hv'
    obtain he | he | ⟨hty, he⟩ := Web.Client.onMessage_view (c := n.clients c) m <;> rw [he] at hv'
    · simp at hv'
    · obtain ⟨v, hv, rfl⟩ := Option.map_eq_some_iff.mp hv'
      exact ⟨v, hv, .inl rfl⟩
    · exact ⟨v', hv', .inr ⟨hty, rfl⟩⟩
  -- a client that knows its id keeps it
  have keep : ∀ v : View, v.memberId = c → (v.after m).memberId = c := by
    intro v hv
    unfold View.after
    split
    · simp [View.present, hid (.inl ‹_›)]
    · exact hv
    · simp [hid (.inr ‹_›)]
    · exact hv
  refine ⟨fun v' hv' => ?_, fun hp v' hv' => ?_⟩
  · obtain ⟨v, hv, hv'⟩ := hview v' hv'
    obtain hg | ⟨w, hw, hty⟩ | hvid := hseen.greeted v hv
    · exact .inl (hrelay ▸ hg)
    · rw [hin] at hw
      obtain rfl | hw := List.mem_cons.mp hw
      · obtain rfl | ⟨hty', -⟩ := hv'
        · right; right
          simp [View.after, hty, View.present, hid (.inl hty)]
        · simp [hty] at hty'
      · exact .inr (.inl ⟨w, hw, hty⟩)
    · obtain rfl | ⟨-, rfl⟩ := hv'
      · exact .inr (.inr (keep v hvid))
      · exact .inr (.inr hvid)
  · rw [hrelay] at hp ⊢
    obtain ⟨v, hv, hv'⟩ := hview v' hv'
    have hlast := hseen.last hp v hv
    rw [hin, ← List.singleton_append, latest_append, latest_singleton] at hlast
    cases hq : latest (n'.inbound c) with
    | some ms =>
      simp only [hq, Option.some_or, reduceCtorEq, false_and, or_false] at hlast
      exact .inl hlast
    | none =>
      refine .inr ⟨rfl, ?_⟩
      simp only [hq, Option.none_or] at hlast
      obtain hm | ⟨hm, hold⟩ := hlast
      · -- the last frame that shows the room
        obtain hty | hty := Relay.shown_type hm
        · obtain rfl | ⟨hty', -⟩ := hv'
          · simp only [Relay.shown, hty, Option.some.injEq] at hm
            simp [View.after, hty, View.present, told, hid (.inl hty), hm]
          · simp [hty] at hty'
        · obtain rfl | ⟨hty', -⟩ := hv'
          · have hvid : v.memberId = c := by
              obtain hg | ⟨w, hw, hwty⟩ | hvid := hseen.greeted v hv
              · exact absurd ⟨c, hc, Relay.announces_of_greets hg⟩ hp
              · rw [hin] at hw
                obtain rfl | hw := List.mem_cons.mp hw
                · simp [hty] at hwty
                · have := latest_eq_none.mp hq w hw
                  simp [Relay.shown, hwty] at this
              · exact hvid
            simp only [Relay.shown, hty, Option.some.injEq] at hm
            simp [View.after, hty, View.present, told, hvid, hm]
          · simp [hty] at hty'
      · obtain rfl | ⟨-, rfl⟩ := hv'
        · rw [hold]
          unfold View.after
          split
          · simp [Relay.shown, *] at hm
          · simp [Relay.shown, *] at hm
          · simp [told, hid (.inr ‹_›)]
          · rfl
        · exact hold

theorem seen_of_reach (hr : (network cfg).Reach (Roomy r) n) :
    ∀ c ∈ (n.relay.room r).members, Seen n r c := by
  refine hr.invariant (I := fun n => ∀ c ∈ (n.relay.room r).members, Seen n r c)
    (by simp [network]) ?_
  intro n a n' hr hseen hroomy hstep c hc
  obtain ⟨hnone, hrelay⟩ | ⟨b, hb, hrelay⟩ := step_relay hstep
  · rw [hrelay] at hc
    obtain ⟨-, ⟨hin, hview⟩ | ⟨m, hin, hk⟩⟩ := step_tab (c := c) hstep hnone
    · obtain ⟨hgreeted, hlast⟩ := hseen c hc
      have hold : ∀ v, (n'.clients c).view = some v → (n.clients c).view = some v := by
        intro v hv
        obtain hview | hview := hview <;> rw [hview] at hv
        · simp at hv
        · exact hv
      refine ⟨fun v hv => ?_, fun hp v hv => ?_⟩
      · rw [hrelay, hin]
        exact hgreeted v (hold v hv)
      · rw [hrelay] at hp ⊢
        rw [hin]
        exact hlast hp v (hold v hv)
    · exact seen_deliver (addressed_of_reach hr) (hseen c hc) hc hrelay hin hk
  · exact seen_relay hr hseen hroomy hstep hb hrelay hc

/-! ## Convergence -/

omit [Payload Web.Data] in
theorem ownerIdOf_membersInfo {s : Relay.State Web.Data} (hs : Relay.Sound cfg s)
    {o : Relay.ClientId} (ho : (s.room r).ownerID = some o) :
    Web.ownerIdOf (s.membersInfo r) = o := by
  have h := Relay.owner_listed hs ho
  have hfind : (s.membersInfo r).find? (fun m => m.role = .owner) =
      some { id := o, nick := (s.conns o).nick, role := .owner } := by
    rw [← List.head?_filter, h]
    rfl
  simp [Web.ownerIdOf, hfind]

/-- **Presence converges.** In every run in which no member of `r` finds its queue full: in every
state in which no handler has a change of `r` still to announce, a member to which no frame is on
its way has the room in view as it is; and if that goes for all members and none has left its page,
exactly one of them believes that it is the owner. -/
theorem presence_converges (hr : (network cfg).Reach (Roomy r) n) (hsettled : Settled r n) :
    (∀ c ∈ (n.relay.room r).members, n.inbound c = [] →
      ∀ v, (n.clients c).view = some v → Shows n r c v) ∧
    ((n.relay.room r).members ≠ [] →
      (∀ c ∈ (n.relay.room r).members, n.inbound c = [] ∧ (n.clients c).view ≠ none) →
      ∃! c, c ∈ (n.relay.room r).members ∧ ∃ v, (n.clients c).view = some v ∧ v.role = .owner) := by
  have hs := Relay.sound_of_reach (reach_relay hr)
  have hp : ¬ n.relay.Pending r := by
    rintro ⟨d, -, hd⟩
    simp [hsettled d] at hd
  have shows : ∀ c ∈ (n.relay.room r).members, n.inbound c = [] →
      ∀ v, (n.clients c).view = some v → Shows n r c v := by
    intro c hc hin v hv
    obtain ⟨o, ho⟩ := Option.ne_none_iff_exists'.mp
      (hs.inv.owner_some r (List.ne_nil_of_mem hc))
    have ho' : (n.relay.room r).ownerID = some o := ho
    have hown := ownerIdOf_membersInfo hs ho'
    obtain hl | ⟨-, rfl⟩ := (seen_of_reach hr c hc).last hp v hv
    · simp [hin, latest] at hl
    · refine ⟨rfl, fun i => Iff.rfl, by simp [told, hown, ho'], ?_⟩
      by_cases hoc : o = c <;> simp [told, hown, ho', hoc]
  refine ⟨shows, fun hne hall => ?_⟩
  obtain ⟨o, ho⟩ := Option.ne_none_iff_exists'.mp (hs.inv.owner_some r hne)
  have ho' : (n.relay.room r).ownerID = some o := ho
  have hmem : o ∈ (n.relay.room r).members := hs.inv.owner_mem r o ho
  obtain ⟨hin, hview⟩ := hall o hmem
  obtain ⟨v, hv⟩ := Option.ne_none_iff_exists'.mp hview
  refine ⟨o, ⟨hmem, v, hv, (shows o hmem hin v hv).role.mpr ho'⟩, ?_⟩
  rintro c ⟨hc, w, hw, hrole⟩
  have := (shows c hc (hall c hc).1 w hw).role.mp hrole
  exact (Option.some.inj (ho'.symm.trans this)).symm

end

theorem settled_of_started (hs : Relay.Sound cfg n.relay)
    (h : ∀ c ∈ n.relay.drawn, (n.relay.conns c).pc.announces r = false) : Settled r n := by
  intro c
  by_cases hc : c ∈ n.relay.drawn
  · exact h c hc
  · have habs : (n.relay.conns c).pc.phase = .absent := hs.inv.drawn c hc
    cases hpc : (n.relay.conns c).pc with
    | member r' todo =>
      rw [hpc] at habs
      simp only [Relay.Pc.phase] at habs
      unfold Relay.headPhase at habs
      split at habs <;> simp at habs
    | _ => rfl

/-- Payloads without length. -/
local instance sampleLen : Payload Web.Data := ⟨fun _ => 0⟩

/-- Client 1 makes client 2 the owner, and both read the new list. -/
def sampleTransferred : List Act :=
  sampleJoined ++ passes 1 2 ++ [.tab 1 (.makeOwner 2), .read 1] ++ ops 1 3 ++ takes 1 ++ takes 2

theorem transferred_some :
    ((network Relay.sampleConfig).runFrom (Roomy 100) {} sampleTransferred).isSome = true := by
  decide +kernel

theorem presence_converges_sample :
    let n := ((network Relay.sampleConfig).runFrom (Roomy 100) {} sampleTransferred).get transferred_some
    (∀ c ∈ (n.relay.room 100).members, ∀ v, (n.clients c).view = some v → Shows n 100 c v) ∧
      ((n.clients 1).view.map (·.role), (n.clients 2).view.map (·.role)) = (some .member, some .owner) ∧
      ∃! c, c ∈ (n.relay.room 100).members ∧ ∃ v, (n.clients c).view = some v ∧ v.role = .owner := by
  intro n
  have hr : (network Relay.sampleConfig).Reach (Roomy 100) n := Lib.Machine.reach_get transferred_some
  have hread : ∀ c ∈ (n.relay.room 100).members, n.inbound c = [] ∧ (n.clients c).view ≠ none := by
    decide +kernel
  have h := presence_converges hr
    (settled_of_started (Relay.sound_of_reach (reach_relay hr)) (by decide +kernel))
  exact ⟨fun c hc => h.1 c hc (hread c hc).1, by decide +kernel, h.2 (by decide +kernel) hread⟩

end E2EAnon.Net
