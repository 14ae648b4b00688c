import E2EAnon.Relay.Outbox

/-!
# Nicks (`server.go:141-150`)

A connection keeps the nick of its hello. No section writes it; the lemmas follow the calls of
`Ops.lean` and `Step.lean`.
-/

namespace E2EAnon.Relay

variable {D : Type} {cfg : Config}

namespace State

/-- Nobody's nick is another. -/
def Named (s s' : State D) : Prop := ∀ c, (s'.conns c).nick = (s.conns c).nick

variable {s s' s'' : State D} {c d : ClientId} {r : RoomId}

theorem Named.trans (h : Named s s') (h' : Named s' s'') : Named s s'' :=
  fun c => (h' c).trans (h c)

theorem named_of_conns (h : s'.conns = s.conns) : Named s s' := fun c => by rw [h]

theorem named_setConn {f : Conn D → Conn D} (h : (f (s.conns c)).nick = (s.conns c).nick) :
    Named s (s.setConn c f) := by
  intro d
  by_cases hd : d = c
  · subst hd
    simp [setConn, h]
  · simp [setConn, hd]

theorem Named.goto (h : Named s s') (c : ClientId) (pc : Pc D) : Named s (s'.goto c pc) :=
  h.trans (named_setConn rfl)

theorem trySend_nick (k : Conn D) (m : ServerMsg D) : (k.trySend m).nick = k.nick := by
  unfold Conn.trySend
  split <;> rfl

theorem deliver_nick (k : Conn D) (m : ServerMsg D) : (k.deliver m).nick = k.nick := by
  unfold Conn.deliver
  split
  · rfl
  · split <;> rfl

theorem named_sendLocked (m : ServerMsg D) : Named s (s.sendLocked c m) := by
  unfold sendLocked
  split
  · exact named_of_conns rfl
  · exact named_setConn (trySend_nick _ m)

theorem named_closeChan : Named s (s.closeChan c) := by
  unfold closeChan
  split
  · exact named_of_conns rfl
  · exact named_setConn rfl

theorem named_broadcastLocked (m : ServerMsg D) (ex : Option ClientId) :
    Named s (s.broadcastLocked r m ex) := by
  intro d
  simp only [broadcastLocked]
  split
  · exact deliver_nick _ m
  · rfl

theorem named_broadcastPresence : Named s (s.broadcastPresence r) := by
  unfold broadcastPresence
  split
  · exact named_of_conns rfl
  · exact named_broadcastLocked _ _

theorem named_broadcastExcept (m : ServerMsg D) : Named s (s.broadcastExcept r c m) := by
  unfold broadcastExcept
  split
  · exact named_of_conns rfl
  · exact named_broadcastLocked _ _

theorem named_sendTo (m : ServerMsg D) : Named s (s.sendTo r c m) := by
  unfold sendTo
  split
  · exact named_of_conns rfl
  · split
    · exact named_sendLocked m
    · exact named_of_conns rfl

theorem named_relay (body : D) : Named s (s.relay r c body) := by
  unfold relay
  split
  · exact named_of_conns rfl
  · exact named_broadcastLocked (s := s.setRoom r _) _ _

theorem named_dropMember : Named s (s.dropMember r c) := by
  have h : Named s ((s.closeChan c).setRoom r { (s.closeChan c).room r with
      members := ((s.closeChan c).room r).members.filter (· ≠ c)
      lastActivity := (s.closeChan c).now }) := named_closeChan (s := s)
  exact h.trans (named_broadcastLocked _ _)

theorem named_removeMember {reason : Reason} (h : s.removeMember r c reason = some s') :
    Named s s' := by
  simp only [removeMember] at h
  split at h
  · simp at h
  · cases h
    exact (named_sendLocked _).trans named_dropMember

theorem named_clientSend (dst : ClientId) (m : ServerMsg D) (pc : Pc D) :
    Named s (s.clientSend c dst m pc) := by
  unfold clientSend
  split
  · exact named_setConn (s := s.note (.sendClosed dst)) rfl
  · exact (named_setConn (trySend_nick _ m)).goto c pc

theorem named_setSessionRoom (sid : String) : Named s (s.setSessionRoom sid r) := by
  obtain he | ⟨sc, -, he⟩ := s.setSessionRoom_eq sid r <;> rw [he] <;> exact named_of_conns rfl

theorem named_clearSession (sid : String) : Named s (s.clearSession sid c) := by
  obtain ⟨m, hm, -⟩ := s.clearSession_eq sid c
  exact named_of_conns (by rw [hm])

theorem named_clearSessionByClient : Named s (s.clearSessionByClient c) := by
  obtain ⟨m, hm, -⟩ := s.clearSessionByClient_eq (s.conns c).session c
  exact named_of_conns (by rw [hm])

theorem named_noteCheck (q : OwnerReq D) : Named s (s.noteCheck c r q) := by
  unfold noteCheck
  split <;> exact named_of_conns rfl

end State

namespace Sound

variable {s s' : State D} {c d : ClientId} {r : RoomId} {k : List (RoomOp D)} {draw : Handle}
  {allow : Bool}

theorem runOwned_named {q : OwnerReq D} (h : runOwned cfg s c draw r k q = some s') :
    s.Named s' := by
  cases q with
  | invite =>
    simp only [runOwned, State.drawId] at h
    split at h
    · simp at h
    · cases h
      exact (State.named_of_conns rfl).goto c _
  | rekey t d =>
    cases h
    exact (State.named_sendTo _).goto c _
  | transfer t =>
    simp only [runOwned] at h
    split at h
    · rename_i s₁ h₁
      obtain ⟨-, -, rfl⟩ := State.setOwner_eq_some h₁
      cases h
      exact (State.named_of_conns rfl).goto c _
    · cases h
      exact (State.named_of_conns rfl).goto c _
  | kick v =>
    simp only [runOwned] at h
    split at h
    · rename_i s₁ h₁
      cases h
      exact (State.named_removeMember h₁).goto c _
    · cases h
      exact (State.named_of_conns rfl).goto c _
  | roster d =>
    cases h
    exact (State.named_broadcastExcept _).goto c _

theorem runClosing_named {pick : ClientId} {k : Closing} (h : runClosing s r pick k = some s') :
    s.Named s' := by
  cases k with
  | no | done => simp [runClosing] at h
  | removeRoom reason ms | dropInvites reason ms =>
    cases h
    exact State.named_of_conns rfl
  | next reason ms =>
    cases ms with
    | nil =>
      cases h
      exact State.named_of_conns rfl
    | cons m ms =>
      simp only [runClosing] at h
      split at h
      · cases h
        exact State.named_clearSessionByClient (s := s)
      · simp at h
  | notice re c ms =>
    cases h
    exact State.named_sendLocked (s := s) _
  | closeOut reason c ms =>
    cases h
    exact State.named_closeChan (s := s)

variable [Payload D]

theorem runOp_named {op : RoomOp D} (h : runOp cfg s c draw r k op = some s') : s.Named s' := by
  have stay : ∀ pc, s.Named (s.goto c pc) := (State.named_of_conns rfl).goto c
  cases op with
  | owned q => exact runOwned_named h
  | setSessionRoom =>
    cases h
    exact (State.named_setSessionRoom _).goto c _
  | broadcastPresence =>
    cases h
    exact State.named_broadcastPresence.goto c _
  | send dst m =>
    cases h
    exact State.named_clientSend dst m _
  | relay body =>
    cases h
    exact (State.named_relay body).goto c _
  | ownerCheck q =>
    simp only [runOp] at h
    split at h
    · cases h
      exact (State.named_noteCheck q).goto c _
    · split at h <;> cases h <;> exact (State.named_noteCheck q).goto c _
  | clearSessionByClient v =>
    cases h
    exact State.named_clearSessionByClient.goto c _
  | broadcastFile m =>
    cases h
    exact (State.named_broadcastExcept m).goto c _
  | snapshotMembers =>
    cases h
    exact stay _
  | endHandshake | rollback =>
    cases h
    exact (State.named_of_conns rfl).goto c _
  | fileStart | accept | forget =>
    cases h
    exact (State.named_setConn (by rfl)).goto c _
  | getHandshake =>
    simp only [runOp] at h
    split at h <;> cases h <;> exact stay _
  | release =>
    simp only [runOp] at h
    split at h <;> cases h <;> exact (State.named_of_conns rfl).goto c _
  | fileChunk t i body =>
    simp only [runOp] at h
    split at h
    · cases h
      exact stay _
    · split at h <;> cases h <;> exact stay _
  | addInflight t cur i body =>
    simp only [runOp] at h
    split at h <;> cases h <;> exact (State.named_of_conns rfl).goto c _

theorem runPc_named {pc : Pc D} (h : runPc cfg s c draw allow pc = some s') : s.Named s' := by
  have stay : ∀ pc, s.Named (s.goto c pc) := (State.named_of_conns rfl).goto c
  cases pc
  case absent | hsLoop | exited => simp [runPc] at h
  case allowCreate | allowRedeem | getRoom | hasCapacity =>
    cases h
    exact stay _
  case deferHandshakes | endHandshake =>
    cases h
    exact (State.named_of_conns rfl).goto c _
  case claimCreate | claimRedeem =>
    simp only [runPc] at h
    split at h
    · rename_i s₁ h₁
      obtain ⟨-, rfl⟩ := State.tryClaimSession_eq_some h₁
      cases h
      exact (State.named_of_conns rfl).goto c _
    · cases h
      exact stay _
  case createRoom | newHandshake =>
    simp only [runPc, State.drawId] at h
    split at h
    · simp at h
    · cases h
      exact (State.named_of_conns rfl).goto c _
  case addOwner | hsEnter =>
    simp only [runPc] at h
    split at h
    · rename_i s₁ h₁
      obtain ⟨-, -, rfl⟩ := State.add_eq_some h₁
      cases h
      exact (State.named_of_conns rfl).goto c _
    · cases h
      exact stay _
  case redeemInvite tok =>
    simp only [runPc, State.redeemInvite] at h
    cases hinv : s.invites tok with
    | none =>
      rw [hinv] at h
      cases h
      exact stay _
    | some inv =>
      rw [hinv] at h
      by_cases hexp : s.now > inv.expiresAt
      · simp only [if_pos hexp, Option.some.injEq] at h
        rw [← h]
        exact (State.named_of_conns rfl).goto c _
      · simp only [if_neg hexp, Option.some.injEq] at h
        rw [← h]
        exact (State.named_of_conns rfl).goto c _
  case ownerClient | hsRelay =>
    simp only [runPc] at h
    split at h <;> cases h <;> exact stay _
  case sendRedeemOk | sendInviteRedeemed | hsSend | hsFull | fail =>
    cases h
    exact State.named_clientSend _ _ _
  case closeOut =>
    cases h
    exact State.named_closeChan.goto c _
  case member r todo =>
    cases todo with
    | nil => simp [runPc] at h
    | cons op k => exact runOp_named h
  case leave r =>
    simp only [runPc] at h
    split at h
    · cases h
      exact stay _
    · split at h <;> cases h
      · exact stay _
      · exact State.named_dropMember.goto c _
  case leaveClose r reason =>
    simp only [runPc] at h
    split at h
    · rename_i s₁ h₁
      obtain ⟨-, rfl⟩ := State.closeBegin_eq_some h₁
      cases h
      exact (State.named_of_conns rfl).goto c _
    · cases h
      exact stay _
  case leaveWait | awaitDone =>
    simp only [runPc] at h
    split at h
    · cases h
      exact stay _
    · simp at h
  case clearSession | deferSession =>
    cases h
    exact (State.named_clearSession _).goto c _
  case deferBytes rest =>
    cases rest <;> cases h <;> exact (State.named_of_conns rfl).goto c _

/-- A connection keeps the nick of its hello. -/
theorem step_named {a : Act D} (h : step cfg s a = some s') (ha : ∀ hello, a ≠ .connect c hello) :
    (s'.conns c).nick = (s.conns c).nick := by
  cases a with
  | connect d hello =>
    have hd : c ≠ d := by
      rintro rfl
      exact ha hello rfl
    simp only [step, State.drawId] at h
    split at h
    · simp at h
    · cases h
      simp [State.setConn, hd]
  | frame d m =>
    simp only [step] at h
    split at h
    · simp at h
    · obtain ⟨pc', -, rfl⟩ := Option.map_eq_some_iff.mp h
      exact State.named_setConn (s := s) rfl c
  | readErr d =>
    obtain ⟨pc', -, rfl⟩ := Option.map_eq_some_iff.mp h
    exact State.named_setConn (s := s) (by rfl) c
  | run d draw allow => exact runPc_named h c
  | pump d =>
    simp only [step] at h
    split at h
    · simp at h
    · split at h
      · simp at h
      · cases h
        exact State.named_setConn (s := s) (by rfl) c
  | pumpExit d =>
    simp only [step] at h
    split at h
    · simp at h
    · cases h
      exact State.named_setConn (s := s) (by rfl) c
  | drop d =>
    cases h
    exact State.named_setConn (s := s) (by rfl) c
  | clock t =>
    cases h
    rfl
  | closing r pick => exact runClosing_named h c
  | janitor pick => rw [(runJanitor_reaps h).1]
  | shutdown pick => rw [(runShutdown_reaps h).1]

end Sound
end E2EAnon.Relay
