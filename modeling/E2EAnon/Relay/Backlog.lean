import E2EAnon.Relay.Order

/-!
# Full queues (`client.go:12-15`, `66-88`, `room.go:165-174`, `287-298`)

A queue that is full refuses the frame. `broadcastLocked` looks at the answer of `trySend` and
closes the connection of a receiver that is full; `RemoveMember` closes the receiver's channel
whatever the answer was. `Client.Send` and `SendTo` drop it, and the frame with it: the receiver
stays connected and never sees it.
-/

namespace E2EAnon.Relay

variable {D : Type} {cfg : Config}

/-- `m` is queued for `d`, or the relay has closed `d`'s connection or channel. -/
def NoGap (s s' : State D) (d : ClientId) (m : ServerMsg D) : Prop :=
  (s'.conns d).out = (s.conns d).out ++ [m] ∨ (s'.conns d).sockClosed = true ∨
    (s'.conns d).outClosed = true

instance instDecidableNoGap [DecidableEq D] (s s' : State D) (d : ClientId) (m : ServerMsg D) :
    Decidable (NoGap s s' d m) :=
  inferInstanceAs (Decidable (_ ∨ _ ∨ _))

namespace State

variable {s : State D} {c d : ClientId} {r : RoomId}

/-- The two ends of a connection: its socket and its channel. -/
def ends (s : State D) (d : ClientId) : Bool × Bool :=
  ((s.conns d).sockClosed, (s.conns d).outClosed)

theorem ends_setConn {f : Conn D → Conn D}
    (h : ∀ k, ((f k).sockClosed, (f k).outClosed) = (k.sockClosed, k.outClosed)) :
    (s.setConn c f).ends d = s.ends d := by
  by_cases hd : d = c
  · subst hd
    simpa [ends, setConn] using h (s.conns d)
  · simp [ends, setConn, hd]

theorem ends_trySend (m : ServerMsg D) : (s.setConn c (·.trySend m)).ends d = s.ends d :=
  ends_setConn fun k => by unfold Conn.trySend; split <;> rfl

@[simp] theorem ends_goto (pc : Pc D) : (s.goto c pc).ends d = s.ends d :=
  ends_setConn fun _ => rfl

theorem ends_sendLocked (m : ServerMsg D) : (s.sendLocked c m).ends d = s.ends d := by
  unfold sendLocked
  split
  · rfl
  · exact ends_trySend m

theorem ends_clientSend {dst : ClientId} (m : ServerMsg D) (pc : Pc D) :
    (s.clientSend c dst m pc).ends d = s.ends d := by
  unfold clientSend
  split
  · exact ends_setConn (s := s.note _) fun _ => rfl
  · exact (ends_goto pc).trans (ends_trySend m)

theorem ends_sendTo {t : ClientId} (m : ServerMsg D) : (s.sendTo r t m).ends d = s.ends d := by
  unfold sendTo
  split
  · rfl
  · split
    · exact ends_sendLocked m
    · rfl

theorem shut_dropMember (s : State D) (r : RoomId) (c : ClientId) :
    ((s.dropMember r c).conns c).outClosed = true := by
  have hshut : ((s.closeChan c).conns c).outClosed = true := by
    unfold closeChan
    split
    · assumption
    · simp [setConn]
  simp only [dropMember, broadcastLocked]
  split
  · exact (deliver_same _ _).2.2.1.trans hshut
  · exact hshut

theorem removeMember_eq {s' : State D} {reason : Reason}
    (hrun : s.removeMember r c reason = some s') : s' = ((s.sendLocked c
      { type := .roomClosed, reason := some reason }).dropMember r c).note (.kicked c r) := by
  simp only [removeMember] at hrun
  split at hrun
  · simp at hrun
  · exact (Option.some.inj hrun).symm

end State

namespace Sound

variable [Payload D] {s s' : State D} {a : Act D} {d : ClientId} {m : ServerMsg D}

/-- A frame sent by name in a section that does not broadcast changes neither end. -/
theorem ends_named (hb : s.broadcast a = none) (hdir : s.direct a = some (d, m))
    (h : step cfg s a = some s') : s'.ends d = s.ends d := by
  cases send_cases hdir with
  | closing r pick re ms ha hk =>
    subst ha
    simp only [step, hk] at h
    cases h
    exact State.ends_sendLocked _
  | redeemOk _ _ _ _ _ _ ha hpc | inviteRedeemed _ _ _ _ _ _ ha hpc | full _ _ _ ha hpc
  | fail _ _ _ ha hpc | relayed _ _ _ _ _ _ ha hpc | sent _ _ _ _ _ _ ha hpc =>
    subst ha
    simp only [step, hpc] at h
    cases h
    exact State.ends_clientSend _ _
  | rekey c draw allow r x k ha hpc =>
    subst ha
    simp only [step, hpc] at h
    cases h
    exact (State.ends_goto _).trans (State.ends_sendTo _)
  | kick c draw allow r k s₁ ha hpc hrun =>
    simp [ha, State.broadcast, hpc, Pc.broadcast, RoomOp.broadcast, hrun] at hb

/-- A receiver that is full when a section broadcasts is disconnected. -/
theorem sock_broadcast {b : Broadcast D} (hb : s.broadcast a = some b) (hd : d ∈ b.dests)
    (hopen : (s.conns d).outClosed = false) (hfull : ¬ (s.conns d).out.length < outboundBuffer)
    (h : step cfg s a = some s') : (s'.conns d).sockClosed = true := by
  have hrec : Receives s s' b d := (broadcast_spec h hb).2 d hd
  rw [hrec]
  simp [Conn.deliver, hopen, hfull]

/-- The target of a kick has its channel closed. -/
theorem shut_kicked {b : Broadcast D} (hb : s.broadcast a = some b) (hdir : s.direct a = some (d, m))
    (h : step cfg s a = some s') : (s'.conns d).outClosed = true := by
  have hshut : ∀ {s₁ : State D} {c : ClientId} {pc : Pc D}, (s₁.conns d).outClosed = true →
      ((s₁.goto c pc).conns d).outClosed = true :=
    fun {s₁ c pc} h₁ => (congrArg Prod.snd (State.ends_goto (s := s₁) pc)).trans h₁
  obtain ⟨c, draw, allow, rfl, hsite⟩ := broadcast_cases hb
  simp only [step] at h
  simp only [State.direct] at hdir
  cases hsite with
  | kick r t k s₁ hpc hrun =>
    rw [hpc] at h hdir
    simp only [runPc, runOp, runOwned, hrun] at h
    simp only [Pc.direct, RoomOp.direct, hrun, Option.map_some, Option.some.injEq,
      Prod.mk.injEq] at hdir
    cases h
    obtain ⟨rfl, -⟩ := hdir
    obtain rfl := State.removeMember_eq hrun
    exact hshut (State.shut_dropMember _ r t)
  | presence _ _ hpc | relay _ _ _ hpc | roster _ _ _ hpc | file _ _ _ hpc | leave _ hpc =>
    simp [hpc, Pc.direct, RoomOp.direct] at hdir

/-- What a step does to the queue of a receiver: it queues the frame or leaves the queue as it is. -/
theorem out_posted (hs : Sound cfg s) (hm : s.posts a d = some m) (h : step cfg s a = some s') :
    (s'.conns d).out = enqueue (s.conns d).out (some m) := by
  rw [hs.step_out h d, ← hm]
  cases a with
  | connect c hello => simp [State.posts, State.posts.named, State.broadcast, State.direct] at hm
  | pump c => simp [State.posts, State.posts.named, State.broadcast, State.direct] at hm
  | _ => rfl

end Sound

section
variable [Payload D] {s s' : State D} {a : Act D} {d : ClientId} {m : ServerMsg D}

/-- **When no gap is left.** A frame for a member is queued, or the member is disconnected, exactly
if its queue has room, the frame goes out in a section that broadcasts, or the connection is closed
already. -/
theorem no_gap_iff (hr : (relay (D := D) cfg).Reach Lib.Machine.Any s)
    (hstep : step cfg s a = some s') (hd : ∃ r, d ∈ (s.room r).members)
    (hm : s.posts a d = some m) :
    NoGap s s' d m ↔ (s.conns d).out.length < outboundBuffer ∨ (s.broadcast a).isSome = true ∨
      (s.conns d).sockClosed = true := by
  have hs := sound_of_reach hr
  obtain ⟨r, hdr⟩ := hd
  have hopen := hs.open_of_mem d hdr
  have hout := hs.out_posted hm hstep
  by_cases hroom : (s.conns d).out.length < outboundBuffer
  · simp only [hroom, true_or, iff_true]
    exact .inl (by simpa [enqueue, hroom] using hout)
  have hsame : (s'.conns d).out = (s.conns d).out := by simpa [enqueue, hroom] using hout
  simp only [hroom, false_or]
  obtain ⟨b, hb, hdb, -⟩ | ⟨hdir, -⟩ := posts_cases hm
  · simp only [hb, Option.isSome_some, true_or, iff_true]
    exact .inr (.inl (Sound.sock_broadcast hb hdb hopen hroom hstep))
  cases hb : s.broadcast a with
  | some b =>
    simp only [Option.isSome_some, true_or, iff_true]
    exact .inr (.inr (Sound.shut_kicked hb hdir hstep))
  | none =>
    have hends := Sound.ends_named hb hdir hstep
    simp only [State.ends, Prod.mk.injEq] at hends
    simp [NoGap, hsame, hends.1, hends.2, hopen]

end

/-- Client 1 says the same thing `n` times; client 2's pump is stuck in a write. -/
def chatter (n : Nat) : List (Act String) :=
  (List.replicate n (.frame 1 (.msg "x") :: ops 1 1)).flatten

/-- Client 2's queue is full, and client 1 is about to send it a rekey. -/
def crowded : State String :=
  ((relay sampleConfig).run (sampleOpen ++ sampleInvite ++ sampleRedeem ++ sampleEnter ++
    chatter 29 ++ [.frame 1 (.rekey 2 "k")] ++ ops 1 1)).get (by decide +kernel)

theorem crowded_reach : (relay sampleConfig).Reach Lib.Machine.Any crowded :=
  Lib.Machine.reach_of_run (Option.some_get _).symm

/-- The rekey is lost, and client 2 stays. -/
theorem rekey_gap : (relay sampleConfig).Reach Lib.Machine.Any crowded ∧
    2 ∈ (crowded.room 100).members ∧
    crowded.posts (.run 1 0 true) 2 = some { type := .rekey, data := some "k" } ∧
    ∃ s', step sampleConfig crowded (.run 1 0 true) = some s' ∧
      ¬ NoGap crowded s' 2 { type := .rekey, data := some "k" } ∧ 2 ∈ (s'.room 100).members :=
  ⟨crowded_reach, by decide +kernel, by decide +kernel,
    (step sampleConfig crowded (.run 1 0 true)).get (by decide +kernel), (Option.some_get _).symm,
    by decide +kernel, by decide +kernel⟩

theorem no_gap_iff_crowded : ∃ s' m, step sampleConfig crowded (.run 1 0 true) = some s' ∧
    (NoGap crowded s' 2 m ↔ (crowded.conns 2).out.length < outboundBuffer ∨
      (crowded.broadcast (.run 1 0 true)).isSome = true ∨
      (crowded.conns 2).sockClosed = true) :=
  ⟨(step sampleConfig crowded (.run 1 0 true)).get (by decide +kernel),
    { type := .rekey, data := some "k" }, (Option.some_get _).symm,
    no_gap_iff crowded_reach (Option.some_get _).symm ⟨100, by decide +kernel⟩
      (by decide +kernel)⟩

end E2EAnon.Relay
