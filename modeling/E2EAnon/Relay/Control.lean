import E2EAnon.Relay.Outbox

/-!
# Where a goroutine goes on to (`server.go:114-448`)

`Expands` and `PcNext` list, with their guards, the moves of a connection's goroutine that `runOp`
and `runPc` make; `step_pc` says that a step moves no other goroutine.
-/

namespace E2EAnon.Relay

variable {D : Type} {cfg : Config}

def welcomeMsg (s : State D) (r : RoomId) (c : ClientId) (role : Role) : ServerMsg D :=
  { type := .welcome, room := some r, memberId := some c, role := some role,
    members := some (s.membersInfo r) }

/-- The operations that take the place of one a member's handler has run. -/
inductive Expands [Payload D] (s : State D) (c : ClientId) (r : RoomId) (draw : Handle) :
    RoomOp D → List (RoomOp D) → Prop
  | done (op : RoomOp D) (h : ∀ t, op = .owned (.transfer t) → s.setOwner r t = none)
      (hw : ∀ role, op ≠ .snapshotMembers role) : Expands s c r draw op []
  | welcome (role : Role) :
      Expands s c r draw (.snapshotMembers role) [.send c (welcomeMsg s r c role)]
  | checked (q : OwnerReq D) (ho : s.ownerClient r = some c) :
      Expands s c r draw (.ownerCheck q) [.owned q]
  | refused (q : OwnerReq D) (m : ServerMsg D) (hm : refusal q = some m) :
      Expands s c r draw (.ownerCheck q) [.send c m]
  | invited (exp : Int) (hd : draw ∉ s.drawn) : Expands s c r draw (.owned .invite)
      [.send c { type := .inviteCreated, token := some draw, ts := some exp }]
  | transferred (t : Handle) (hopen : (s.room r).closed = false) (hm : t ∈ (s.room r).members) :
      Expands s c r draw (.owned (.transfer t)) [.broadcastPresence]
  | kicked (t : Handle) : Expands s c r draw (.owned (.kick t)) [.clearSessionByClient t]
  | peer (type : ServerType) (h : Handle) (d : D) (hs : Handshake) (p : ClientId)
      (hh : s.handshakes h = some hs) (hp : hs.peer c = some p) :
      Expands s c r draw (.getHandshake type h d)
        [.send p { type, handshake := some h, data := some d }]
  | fileStart (t : String) (kid d : D) : Expands s c r draw (.fileStart t kid d)
      [.broadcastFile { (fileMsg .fileStart t c) with
        keyId := some kid, data := some d, nick := some (s.conns c).nick }]
  | tooLarge (t : String) (i : Int) (d : D) :
      Expands s c r draw (.fileChunk t i d) (abortFile c t "file too large")
  | counted (t : String) (i : Int) (d : D) (cur : Int64) :
      Expands s c r draw (.fileChunk t i d) [.addInflight t cur i d]
  | busy (t : String) (cur : Int64) (i : Int) (d : D) : Expands s c r draw (.addInflight t cur i d)
      (.rollback (chunkSize d) :: abortFile c t "server busy, too many transfers")
  | accepted (t : String) (cur : Int64) (i : Int) (d : D) :
      Expands s c r draw (.addInflight t cur i d) [.accept t cur i d]
  | chunk (t : String) (cur : Int64) (i : Int) (d : D) : Expands s c r draw (.accept t cur i d)
      [.broadcastFile { (fileMsg .fileChunk t c) with index := some i, data := some d }]
  | released (t : String) : Expands s c r draw (.release t) [.forget t]

/-- `c`'s goroutine moves on. -/
inductive PcNext [Payload D] (s : State D) (c : ClientId) (draw : Handle) : Pc D → Pc D → Prop
  | allowCreate : PcNext s c draw .allowCreate .claimCreate
  | claimCreate : PcNext s c draw .claimCreate .createRoom
  | createRoom (hd : draw ∉ s.drawn) : PcNext s c draw .createRoom (.addOwner draw)
  | addOwner (r : RoomId) :
      PcNext s c draw (.addOwner r) (.member r [.setSessionRoom, .snapshotMembers .owner])
  | allowRedeem (tok : Handle) : PcNext s c draw (.allowRedeem tok) (.claimRedeem tok)
  | claimRedeem (tok : Handle) : PcNext s c draw (.claimRedeem tok) (.redeemInvite tok)
  | redeemInvite (tok : Handle) (inv : Invite) (h : s.invites tok = some inv) :
      PcNext s c draw (.redeemInvite tok) (.getRoom tok inv.room)
  | getRoom (tok : Handle) (r : RoomId) : PcNext s c draw (.getRoom tok r) (.hasCapacity tok r)
  | hasCapacity (tok : Handle) (r : RoomId) :
      PcNext s c draw (.hasCapacity tok r) (.ownerClient tok r)
  | ownerClient (tok : Handle) (r : RoomId) (o : ClientId) (ho : s.ownerClient r = some o) :
      PcNext s c draw (.ownerClient tok r) (.newHandshake tok r o)
  | newHandshake (tok : Handle) (r : RoomId) (o : ClientId) (hd : draw ∉ s.drawn) :
      PcNext s c draw (.newHandshake tok r o) (.sendRedeemOk tok r o draw)
  | sendRedeemOk (tok : Handle) (r : RoomId) (o : ClientId) (h : Handle) :
      PcNext s c draw (.sendRedeemOk tok r o h) (.sendInviteRedeemed tok r o h)
  | sendInviteRedeemed (tok : Handle) (r : RoomId) (o : ClientId) (h : Handle) :
      PcNext s c draw (.sendInviteRedeemed tok r o h) (.hsLoop r h)
  | hsRelay (r : RoomId) (h : Handle) (type : ServerType) (h' : Handle) (d : D) (hs : Handshake)
      (p : ClientId) (hh : s.handshakes h' = some hs) (hp : hs.peer c = some p) :
      PcNext s c draw (.hsRelay r h type h' d)
        (.hsSend r h p { type, handshake := some h', data := some d })
  | hsRelayNone (r : RoomId) (h : Handle) (type : ServerType) (h' : Handle) (d : D) :
      PcNext s c draw (.hsRelay r h type h' d) (.hsLoop r h)
  | hsSend (r : RoomId) (h : Handle) (dst : ClientId) (m : ServerMsg D) :
      PcNext s c draw (.hsSend r h dst m) (.hsLoop r h)
  | hsEnter (r : RoomId) (h : Handle) : PcNext s c draw (.hsEnter r h)
      (.member r [.endHandshake h, .snapshotMembers .member, .broadcastPresence, .setSessionRoom])
  | hsEnterFull (r : RoomId) (h : Handle) : PcNext s c draw (.hsEnter r h) (.hsFull h)
  | hsFull (h : Handle) : PcNext s c draw (.hsFull h) (.endHandshake h)
  | endHandshake (h : Handle) : PcNext s c draw (.endHandshake h) .closeOut
  /-- A refusal on the way into a room. -/
  | fail (pc : Pc D) (hpc : pc.phase = .hello ∨ pc.phase = .redeeming ∨
      ∃ r, pc.phase = .joiner r) (text : String) (reason : Reason) :
      PcNext s c draw pc (.fail (errorMsg text reason))
  | failed (m : ServerMsg D) : PcNext s c draw (.fail m) .closeOut
  | closeOut : PcNext s c draw .closeOut .awaitDone
  | member (r : RoomId) (op : RoomOp D) (new k : List (RoomOp D)) (h : Expands s c r draw op new) :
      PcNext s c draw (.member r (op :: k)) (.member r (new ++ k))
  | leave (r : RoomId) : PcNext s c draw (.leave r) .clearSession
  | leaveClose (r : RoomId) (reason : Option Reason) :
      PcNext s c draw (.leave r) (.leaveClose r reason)
  | leaveWait (r : RoomId) (reason : Option Reason) :
      PcNext s c draw (.leaveClose r reason) (.leaveWait r)
  | leaveSkip (r : RoomId) (reason : Option Reason) :
      PcNext s c draw (.leaveClose r reason) .clearSession
  | leaveWaited (r : RoomId) : PcNext s c draw (.leaveWait r) .clearSession
  | clearSession : PcNext s c draw .clearSession .awaitDone
  | awaitDone : PcNext s c draw .awaitDone .deferHandshakes
  | deferHandshakes : PcNext s c draw .deferHandshakes .deferSession
  | deferSession (bs : List Int64) : PcNext s c draw .deferSession (.deferBytes bs)
  | deferBytes (b : Int64) (bs : List Int64) : PcNext s c draw (.deferBytes (b :: bs)) (.deferBytes bs)
  | exited : PcNext s c draw (.deferBytes []) .exited
  /-- A panic. -/
  | panic (pc : Pc D) (dst : ClientId) (h : pc.sends c = some dst)
      (hd : (s.conns dst).outClosed = true) : PcNext s c draw pc .deferHandshakes

/-- `d`'s goroutine after a step with label `a`. -/
inductive PcChange [Payload D] (s : State D) (a : Act D) (d : ClientId) : Pc D → Prop
  | same (h : ∀ draw allow, a ≠ .run d draw allow) : PcChange s a d (s.conns d).pc
  | connected (hello : ClientMsg D) (ha : a = .connect d hello) (hd : d ∉ s.drawn) :
      PcChange s a d (helloPc hello)
  | read (m : ClientMsg D) (pc : Pc D) (ha : a = .frame d m)
      (h : readFrame d m (s.conns d).pc = some pc) : PcChange s a d pc
  | readErr (pc : Pc D) (ha : a = .readErr d) (h : readFails (s.conns d).pc = some pc) :
      PcChange s a d pc
  | ran (draw : Handle) (allow : Bool) (pc : Pc D) (ha : a = .run d draw allow)
      (h : PcNext s d draw (s.conns d).pc pc) : PcChange s a d pc

theorem member_drawn {cfg : Config} {s : State D} {c : ClientId} {r : RoomId}
    (hs : Sound cfg s) {todo : List (RoomOp D)} (hpc : (s.conns c).pc = .member r todo) : c ∈ s.drawn := by
  by_contra hc
  have habsent : (s.conns c).pc.phase = .absent := hs.inv.drawn c hc
  rw [hpc, Pc.phase] at habsent
  unfold headPhase at habsent
  split at habsent <;> cases habsent

/-- Where a read loop goes on to. -/
def Pc.afterRead : Pc D → Bool
  | .hsLoop _ _ | .hsRelay _ _ _ _ _ | .hsEnter _ _ | .endHandshake _ | .member _ _ | .leave _ => true
  | _ => false

theorem readFrame_afterRead {c : ClientId} {m : ClientMsg D} {pc pc' : Pc D}
    (h : readFrame c m pc = some pc') : pc'.afterRead = true := by
  unfold readFrame at h
  split at h
  · cases h
    cases m <;> try rfl
    simp only [joinerFrame]
    split <;> rfl
  · split at h <;> cases h <;> rfl
  · simp at h

theorem readFails_afterRead {pc pc' : Pc D} (h : readFails pc = some pc') :
    pc'.afterRead = true := by
  unfold readFails at h
  split at h <;> cases h <;> rfl

namespace Sound

variable {s s' : State D} {c : ClientId} {r : RoomId} {k : List (RoomOp D)}
  {draw : Handle} {allow : Bool}

theorem goto_pc {s₁ : State D} (h : ∀ d, (s₁.conns d).pc = (s.conns d).pc) (pc : Pc D)
    (d : ClientId) : ((s₁.goto c pc).conns d).pc = if d = c then pc else (s.conns d).pc := by
  by_cases hd : d = c
  · subst hd
    simp [State.goto, State.setConn]
  · simp [State.goto, State.setConn, hd, h]

theorem setConn_pc {f : Conn D → Conn D} (h : (f (s.conns c)).pc = (s.conns c).pc) (d : ClientId) :
    ((s.setConn c f).conns d).pc = (s.conns d).pc := by
  by_cases hd : d = c
  · subst hd
    simp [State.setConn, h]
  · simp [State.setConn, hd]

/-- `Close` moves no goroutine; its caller waits. -/
theorem runClosing_pc {pick : ClientId} (h : runClosing s r pick (s.room r).closing = some s')
    (d : ClientId) : (s'.conns d).pc = (s.conns d).pc := by
  cases hk : (s.room r).closing with
  | no | done => simp [hk, runClosing] at h
  | removeRoom reason ms | dropInvites reason ms =>
    rw [hk] at h
    cases h
    rfl
  | next reason ms =>
    rw [hk] at h
    cases ms with
    | nil =>
      cases h
      rfl
    | cons m ms =>
      simp only [runClosing] at h
      split at h
      · cases h
        obtain ⟨mm, hm, -⟩ := s.clearSessionByClient_eq (s.conns pick).session pick
        rw [hm]
        rfl
      · simp at h
  | notice re c ms =>
    rw [hk] at h
    cases h
    exact (State.Quiet.sendLocked _).pc d
  | closeOut reason c ms =>
    rw [hk] at h
    cases h
    exact State.Quiet.closeChan.pc d

variable [Payload D]

/-- `c`'s goroutine has gone on to `pc`, and no other has moved. -/
def Moves (s s' : State D) (c : ClientId) (draw : Handle) : Prop :=
  (∀ d, d ≠ c → (s'.conns d).pc = (s.conns d).pc) ∧
    PcNext s c draw (s.conns c).pc (s'.conns c).pc

theorem moves_goto {s₁ : State D} {pc : Pc D} (h : ∀ d, (s₁.conns d).pc = (s.conns d).pc)
    (hn : PcNext s c draw (s.conns c).pc pc) : Moves s (s₁.goto c pc) c draw :=
  ⟨fun d hd => by rw [goto_pc h, if_neg hd], by rw [goto_pc h, if_pos rfl]; exact hn⟩

theorem moves_send {dst : ClientId} {m : ServerMsg D} {pc : Pc D}
    (hdst : (s.conns c).pc.sends c = some dst) (hn : PcNext s c draw (s.conns c).pc pc) :
    Moves s (s.clientSend c dst m pc) c draw := by
  unfold State.clientSend
  split
  · rename_i hcl
    refine ⟨fun d hd => ?_, ?_⟩
    · simp [State.panic, State.setConn, State.note, hd]
    · simpa [State.panic, State.setConn, State.note] using PcNext.panic _ dst hdst hcl
  · exact moves_goto (State.Quiet.trySend m).pc hn

theorem runOwned_pc {q : OwnerReq D} (hpc : (s.conns c).pc = .member r (.owned q :: k))
    (h : runOwned cfg s c draw r k q = some s') : Moves s s' c draw := by
  have next : ∀ {new : List (RoomOp D)}, Expands s c r draw (.owned q) new →
      PcNext s c draw (s.conns c).pc (.member r (new ++ k)) := by
    intro new hnew
    rw [hpc]
    exact .member r _ new k hnew
  cases q with
  | invite =>
    simp only [runOwned, State.drawId] at h
    split at h
    · simp at h
    · rename_i hd
      cases h
      exact moves_goto (fun _ => rfl) (next (.invited _ hd))
  | rekey t d =>
    cases h
    exact moves_goto (State.Quiet.sendTo _).pc (next (.done _ (by simp) (by simp)))
  | transfer t =>
    simp only [runOwned] at h
    split at h
    · rename_i s₁ h₁
      obtain ⟨hopen, hm, -⟩ := State.setOwner_eq_some h₁
      cases h
      exact moves_goto (State.Quiet.setOwner h₁).pc (next (.transferred t hopen hm))
    · rename_i h₁
      cases h
      refine moves_goto (fun _ => rfl) (next (.done _ ?_ (by simp)))
      intro t' he
      cases he
      exact h₁
  | kick v =>
    simp only [runOwned] at h
    split at h
    · rename_i s₁ h₁
      cases h
      exact moves_goto (State.Quiet.removeMember h₁).pc (next (.kicked v))
    · cases h
      exact moves_goto (fun _ => rfl) (next (.done _ (by simp) (by simp)))
  | roster d =>
    cases h
    exact moves_goto (State.Quiet.broadcastExcept _).pc (next (.done _ (by simp) (by simp)))

theorem runOp_pc {op : RoomOp D} (hpc : (s.conns c).pc = .member r (op :: k))
    (h : runOp cfg s c draw r k op = some s') : Moves s s' c draw := by
  have next : ∀ {new : List (RoomOp D)}, Expands s c r draw op new →
      PcNext s c draw (s.conns c).pc (.member r (new ++ k)) := by
    intro new hnew
    rw [hpc]
    exact .member r _ new k hnew
  -- an operation that nothing takes the place of
  have done : ∀ {s₁ : State D}, (∀ t, op ≠ .owned (.transfer t)) →
      (∀ role, op ≠ .snapshotMembers role) → (∀ d, (s₁.conns d).pc = (s.conns d).pc) →
      Moves s (s₁.goto c (.member r k)) c draw :=
    fun ht hw h₁ => moves_goto h₁ (next (.done _ (fun t he => absurd he (ht t)) hw))
  cases op with
  | owned q => exact runOwned_pc hpc h
  | setSessionRoom =>
    cases h
    refine done (by simp) (by simp) ?_
    obtain he | ⟨sc, -, he⟩ := s.setSessionRoom_eq (s.conns c).session r <;> rw [he] <;> simp
  | snapshotMembers role =>
    cases h
    exact moves_goto (fun _ => rfl) (next (.welcome role))
  | endHandshake | rollback =>
    cases h
    exact done (by simp) (by simp) fun _ => rfl
  | broadcastPresence =>
    cases h
    exact done (by simp) (by simp) State.Quiet.broadcastPresence.pc
  | send dst m =>
    cases h
    exact moves_send (by rw [hpc]; rfl) (next (.done _ (by simp) (by simp)))
  | relay body =>
    cases h
    exact done (by simp) (by simp) (State.Quiet.relay body).pc
  | ownerCheck q =>
    simp only [runOp] at h
    split at h
    · rename_i ho
      cases h
      exact moves_goto (State.Quiet.noteCheck c r q).pc (next (.checked q ho))
    · split at h <;> cases h
      · rename_i m hm
        exact moves_goto (State.Quiet.noteCheck c r q).pc (next (.refused q m hm))
      · exact done (by simp) (by simp) (State.Quiet.noteCheck c r q).pc
  | clearSessionByClient v =>
    cases h
    refine done (by simp) (by simp) ?_
    obtain ⟨m, hm, -⟩ := s.clearSessionByClient_eq (s.conns v).session v
    rw [hm]
    exact fun _ => rfl
  | getHandshake type hid d =>
    simp only [runOp] at h
    split at h <;> cases h
    · rename_i p hp
      obtain ⟨hs, hh, hp⟩ := Option.bind_eq_some_iff.mp hp
      exact moves_goto (fun _ => rfl) (next (.peer type hid d hs p hh hp))
    · exact done (by simp) (by simp) fun _ => rfl
  | fileStart t kid d =>
    cases h
    exact moves_goto (setConn_pc rfl) (next (.fileStart t kid d))
  | fileChunk t i d =>
    simp only [runOp] at h
    split at h
    · cases h
      exact done (by simp) (by simp) fun _ => rfl
    · rename_i cur hcur
      split at h <;> cases h
      · exact moves_goto (fun _ => rfl) (next (.tooLarge t i d))
      · exact moves_goto (fun _ => rfl) (next (.counted t i d cur))
  | addInflight t cur i d =>
    simp only [runOp] at h
    split at h <;> cases h
    · exact moves_goto (fun _ => rfl) (next (.busy t cur i d))
    · exact moves_goto (fun _ => rfl) (next (.accepted t cur i d))
  | accept t cur i d =>
    cases h
    exact moves_goto (setConn_pc rfl) (next (.chunk t cur i d))
  | release t =>
    simp only [runOp] at h
    split at h <;> cases h
    · exact moves_goto (fun _ => rfl) (next (.released t))
    · exact done (by simp) (by simp) fun _ => rfl
  | forget t =>
    cases h
    exact done (by simp) (by simp) (setConn_pc rfl)
  | broadcastFile m =>
    cases h
    exact done (by simp) (by simp) (State.Quiet.broadcastExcept m).pc

theorem runPc_pc (h : runPc cfg s c draw allow (s.conns c).pc = some s') :
    Moves s s' c draw := by
  have stay : ∀ {pc : Pc D}, PcNext s c draw (s.conns c).pc pc → Moves s (s.goto c pc) c draw :=
    fun hn => moves_goto (fun _ => rfl) hn
  cases hpc : (s.conns c).pc <;> rw [hpc] at h stay
  case absent | hsLoop | exited => simp [runPc] at h
  case allowCreate =>
    cases h
    cases allow
    · exact stay (.fail _ (.inl rfl) _ _)
    · exact stay .allowCreate
  case claimCreate =>
    simp only [runPc] at h
    split at h
    · rename_i s₁ h₁
      obtain ⟨-, rfl⟩ := State.tryClaimSession_eq_some h₁
      cases h
      exact moves_goto (fun _ => rfl) (hpc ▸ .claimCreate)
    · cases h
      exact stay (.fail _ (.inl rfl) _ _)
  case createRoom =>
    simp only [runPc, State.drawId] at h
    split at h
    · simp at h
    · rename_i hd
      cases h
      exact moves_goto (fun _ => rfl) (hpc ▸ .createRoom hd)
  case addOwner r =>
    simp only [runPc] at h
    split at h
    · rename_i s₁ h₁
      cases h
      exact moves_goto (State.Quiet.add h₁).pc (hpc ▸ .addOwner r)
    · cases h
      exact stay (.addOwner r)
  case allowRedeem tok =>
    cases h
    cases allow
    · exact stay (.fail _ (.inl rfl) _ _)
    · exact stay (.allowRedeem tok)
  case claimRedeem tok =>
    simp only [runPc] at h
    split at h
    · rename_i s₁ h₁
      obtain ⟨-, rfl⟩ := State.tryClaimSession_eq_some h₁
      cases h
      exact moves_goto (fun _ => rfl) (hpc ▸ .claimRedeem tok)
    · cases h
      exact stay (.fail _ (.inl rfl) _ _)
  case redeemInvite tok =>
    simp only [runPc, State.redeemInvite] at h
    cases hinv : s.invites tok with
    | none =>
      rw [hinv] at h
      cases h
      exact stay (.fail _ (.inr (.inl rfl)) _ _)
    | some inv =>
      rw [hinv] at h
      by_cases hexp : s.now > inv.expiresAt
      · simp only [if_pos hexp, Option.some.injEq] at h
        rw [← h]
        exact moves_goto (fun _ => rfl) (hpc ▸ .fail _ (.inr (.inl rfl)) _ _)
      · simp only [if_neg hexp, Option.some.injEq] at h
        rw [← h]
        exact moves_goto (fun _ => rfl) (hpc ▸ .redeemInvite tok inv hinv)
  case getRoom tok r =>
    cases h
    split
    · exact stay (.getRoom tok r)
    · exact stay (.fail _ (.inr (.inr ⟨r, rfl⟩)) _ _)
  case hasCapacity tok r =>
    cases h
    split
    · exact stay (.hasCapacity tok r)
    · exact stay (.fail _ (.inr (.inr ⟨r, rfl⟩)) _ _)
  case ownerClient tok r =>
    simp only [runPc] at h
    split at h <;> cases h
    · rename_i o ho
      exact stay (.ownerClient tok r o ho)
    · exact stay (.fail _ (.inr (.inr ⟨r, rfl⟩)) _ _)
  case newHandshake tok r o =>
    simp only [runPc, State.drawId] at h
    split at h
    · simp at h
    · rename_i hd
      cases h
      exact moves_goto (fun _ => rfl) (hpc ▸ .newHandshake tok r o hd)
  case sendRedeemOk tok r o hid =>
    cases h
    exact moves_send (by rw [hpc]; rfl) (hpc ▸ .sendRedeemOk tok r o hid)
  case sendInviteRedeemed tok r o hid =>
    cases h
    exact moves_send (by rw [hpc]; rfl) (hpc ▸ .sendInviteRedeemed tok r o hid)
  case hsRelay r hid type hid' d =>
    simp only [runPc] at h
    split at h <;> cases h
    · rename_i p hp
      obtain ⟨hs, hh, hp⟩ := Option.bind_eq_some_iff.mp hp
      exact stay (.hsRelay r hid type hid' d hs p hh hp)
    · exact stay (.hsRelayNone r hid type hid' d)
  case hsSend r hid dst m =>
    cases h
    exact moves_send (by rw [hpc]; rfl) (hpc ▸ .hsSend r hid dst m)
  case hsEnter r hid =>
    simp only [runPc] at h
    split at h
    · rename_i s₁ h₁
      cases h
      exact moves_goto (State.Quiet.add h₁).pc (hpc ▸ .hsEnter r hid)
    · cases h
      exact stay (.hsEnterFull r hid)
  case hsFull hid =>
    cases h
    exact moves_send (by rw [hpc]; rfl) (hpc ▸ .hsFull hid)
  case endHandshake hid =>
    cases h
    exact moves_goto (fun _ => rfl) (hpc ▸ .endHandshake hid)
  case fail m =>
    cases h
    exact moves_send (by rw [hpc]; rfl) (hpc ▸ .failed m)
  case closeOut =>
    cases h
    exact moves_goto State.Quiet.closeChan.pc (hpc ▸ .closeOut)
  case member r todo =>
    cases todo with
    | nil => simp [runPc] at h
    | cons op k => exact runOp_pc hpc h
  case leave r =>
    simp only [runPc] at h
    split at h
    · cases h
      exact stay (.leave r)
    · split at h
      · cases h
        exact stay (.leaveClose r _)
      · cases h
        refine moves_goto State.Quiet.dropMember.pc ?_
        rw [hpc]
        split
        · exact .leaveClose r none
        · exact .leave r
  case leaveClose r reason =>
    simp only [runPc] at h
    split at h
    · rename_i s₁ h₁
      cases h
      exact moves_goto (State.Quiet.closeBegin h₁).pc (hpc ▸ .leaveWait r reason)
    · cases h
      exact stay (.leaveSkip r reason)
  case leaveWait r =>
    simp only [runPc] at h
    split at h
    · cases h
      exact stay (.leaveWaited r)
    · simp at h
  case clearSession =>
    cases h
    obtain ⟨m, hm, -⟩ := s.clearSession_eq (s.conns c).session c
    exact moves_goto (by rw [hm]; exact fun _ => rfl) (hpc ▸ .clearSession)
  case awaitDone =>
    simp only [runPc] at h
    split at h
    · cases h
      exact stay .awaitDone
    · simp at h
  case deferHandshakes =>
    cases h
    exact moves_goto (fun _ => rfl) (hpc ▸ .deferHandshakes)
  case deferSession =>
    cases h
    obtain ⟨m, hm, -⟩ := s.clearSession_eq (s.conns c).session c
    exact moves_goto (by rw [hm]; exact fun _ => rfl) (hpc ▸ .deferSession _)
  case deferBytes rest =>
    cases rest with
    | nil =>
      cases h
      exact stay .exited
    | cons b bs =>
      cases h
      exact moves_goto (fun _ => rfl) (hpc ▸ .deferBytes b bs)

/-- **What a step does to the goroutines.** -/
theorem step_pc {a : Act D} (h : step cfg s a = some s') (d : ClientId) :
    PcChange s a d (s'.conns d).pc := by
  -- a label under which no goroutine moves
  have still : (∀ draw allow, a ≠ .run d draw allow) → (s'.conns d).pc = (s.conns d).pc →
      PcChange s a d (s'.conns d).pc := by
    intro ha hpc
    rw [hpc]
    exact .same ha
  cases a with
  | connect c hello =>
    simp only [step, State.drawId] at h
    split at h
    · simp at h
    · rename_i hfresh
      cases h
      by_cases hd : d = c
      · subst hd
        simpa [State.setConn] using PcChange.connected (s := s) hello rfl hfresh
      · exact still (by simp) (by simp [State.setConn, hd])
  | frame c m =>
    simp only [step] at h
    split at h
    · simp at h
    · obtain ⟨pc', hread, rfl⟩ := Option.map_eq_some_iff.mp h
      by_cases hd : d = c
      · subst hd
        rw [goto_pc (fun _ => rfl), if_pos rfl]
        exact .read m pc' rfl hread
      · exact still (by simp) (by rw [goto_pc (fun _ => rfl), if_neg hd])
  | readErr c =>
    obtain ⟨pc', hread, rfl⟩ := Option.map_eq_some_iff.mp h
    by_cases hd : d = c
    · subst hd
      simpa [State.setConn] using PcChange.readErr (s := s) pc' rfl hread
    · exact still (by simp) (by simp [State.setConn, hd])
  | run c draw allow =>
    obtain ⟨hothers, hnext⟩ := runPc_pc h
    by_cases hd : d = c
    · subst hd
      exact .ran draw allow _ rfl hnext
    · refine still ?_ (hothers d hd)
      intro draw' allow' he
      cases he
      exact hd rfl
  | pump c =>
    simp only [step] at h
    split at h
    · simp at h
    · split at h
      · simp at h
      · cases h
        exact still (by simp) (setConn_pc rfl d)
  | pumpExit c =>
    simp only [step] at h
    split at h
    · simp at h
    · cases h
      exact still (by simp) (setConn_pc rfl d)
  | drop c =>
    cases h
    exact still (by simp) (setConn_pc rfl d)
  | closing r pick => exact still (by simp) (runClosing_pc h d)
  | janitor pick => exact still (by simp) (by rw [(runJanitor_reaps h).1])
  | shutdown pick => exact still (by simp) (by rw [(runShutdown_reaps h).1])
  | clock t =>
    cases h
    exact still (by simp) rfl

end Sound

end E2EAnon.Relay
