import E2EAnon.Relay.Refine

/-!
# What is queued to whom (`client.go:66-88`, `room.go:83-298`)

A section sends to one client (`State.direct`) or to a room (`State.broadcast`); `RemoveMember` does
both. `SendSite` and `CallSite` list the places. `step_out` says that no step changes a queue in any
other way, except that a new connection starts with an empty one and the write pump takes the first
frame off.
-/

namespace E2EAnon.Relay

variable {D : Type} {cfg : Config}

/-- A call of `broadcastLocked`. -/
structure Broadcast (D : Type) where
  room   : RoomId
  frame  : ServerMsg D
  /-- `exceptID`. -/
  author : Option ClientId
  /-- The members it goes to. -/
  dests  : List ClientId

/-- The presence broadcast of a section that leaves `s`. -/
def State.presence (s : State D) (r : RoomId) : Broadcast D :=
  ⟨r, s.presenceMsg r, none, s.receivers r none⟩

/-- A broadcast of `c` to the others. -/
def State.others (s : State D) (r : RoomId) (c : ClientId) (m : ServerMsg D) : Broadcast D :=
  ⟨r, m, some c, s.receivers r (some c)⟩

/-- The chat frame of `Relay`. -/
def State.chatMsg (s : State D) (c : ClientId) (body : D) : ServerMsg D :=
  { type := .chat, fromId := some c, nick := some (s.conns c).nick, body := some body,
    ts := some s.now }

def RoomOp.broadcast (s : State D) (c : ClientId) (r : RoomId) : RoomOp D → Option (Broadcast D)
  | .broadcastPresence => if (s.room r).closed then none else some (s.presence r)
  | .relay body =>
    if (s.room r).closed ∨ c ∉ (s.room r).members then none
    else some (s.others r c (s.chatMsg c body))
  | .owned (.roster d) =>
    if (s.room r).closed then none
    else some (s.others r c { type := .roster, data := some d })
  | .owned (.kick t) => (s.removeMember r t .kicked).map (·.presence r)
  | .broadcastFile m => if (s.room r).closed then none else some (s.others r c m)
  | _ => none

def Pc.broadcast (s : State D) (c : ClientId) : Pc D → Option (Broadcast D)
  | .member r (op :: _) => op.broadcast s c r
  | .leave r =>
    if c ∉ (s.room r).members ∨ (s.room r).closed ∨ some c = (s.room r).ownerID then none
    else some ((s.dropMember r c).presence r)
  | _ => none

/-- The broadcast a step performs. -/
def State.broadcast (s : State D) : Act D → Option (Broadcast D)
  | .run c _ _ => (s.conns c).pc.broadcast s c
  | _ => none

def RoomOp.direct (s : State D) (r : RoomId) : RoomOp D → Option (ClientId × ServerMsg D)
  | .send dst m => some (dst, m)
  | .owned (.rekey t d) =>
    if (s.room r).closed = false ∧ t ∈ (s.room r).members then
      some (t, { type := .rekey, data := some d })
    else none
  | .owned (.kick t) =>
    (s.removeMember r t .kicked).map fun _ =>
      (t, { type := .roomClosed, reason := some .kicked })
  | _ => none

def Pc.direct (s : State D) (c : ClientId) : Pc D → Option (ClientId × ServerMsg D)
  | .sendRedeemOk _ _ _ h =>
    some (c, { type := .redeemOk, handshake := some h, memberId := some c })
  | .sendInviteRedeemed tok _ o h =>
    some (o, { type := .inviteRedeemed, handshake := some h, nick := some (s.conns c).nick,
               token := some tok, memberId := some c })
  | .hsSend _ _ dst m => some (dst, m)
  | .hsFull _ => some (c, errorMsg "room is full" .roomFull)
  | .fail m => some (c, m)
  | .member r (op :: _) => op.direct s r
  | _ => none

def Closing.direct : Closing → Option (ClientId × ServerMsg D)
  | .notice re c _ => some (c, { type := .roomClosed, reason := some re })
  | _ => none

/-- The client a step sends to by name, and the frame. -/
def State.direct (s : State D) : Act D → Option (ClientId × ServerMsg D)
  | .run c _ _ => (s.conns c).pc.direct s c
  | .closing r _ => (s.room r).closing.direct
  | _ => none

/-- The frame a step puts into `d`'s queue if that has room. -/
def State.posts (s : State D) (a : Act D) (d : ClientId) : Option (ServerMsg D) :=
  match s.broadcast a with
  | some b => if d ∈ b.dests then some b.frame else named
  | none => named
where
  named : Option (ServerMsg D) :=
    (s.direct a).bind fun x => if x.1 = d ∧ (s.conns d).outClosed = false then some x.2 else none

/-- `trySend` on a queue. -/
def enqueue (q : List (ServerMsg D)) : Option (ServerMsg D) → List (ServerMsg D)
  | some m => if q.length < outboundBuffer then q ++ [m] else q
  | none => q

/-- `d`'s queue after a step. -/
def State.nextOut (s : State D) (a : Act D) (d : ClientId) : List (ServerMsg D) :=
  match a with
  | .connect c _ => if d = c then [] else (s.conns d).out
  | .pump c => if d = c then (s.conns d).out.tail else (s.conns d).out
  | a => enqueue (s.conns d).out (s.posts a d)

/-! ## The call sites -/

/-- Where `c`'s goroutine calls `broadcastLocked`. -/
inductive CallSite (s : State D) (c : ClientId) : Broadcast D → Prop
  | presence (r : RoomId) (k : List (RoomOp D))
      (hpc : (s.conns c).pc = .member r (.broadcastPresence :: k))
      (hopen : (s.room r).closed = false) : CallSite s c (s.presence r)
  | relay (r : RoomId) (body : D) (k : List (RoomOp D))
      (hpc : (s.conns c).pc = .member r (.relay body :: k)) (hopen : (s.room r).closed = false)
      (hm : c ∈ (s.room r).members) : CallSite s c (s.others r c (s.chatMsg c body))
  | roster (r : RoomId) (d : D) (k : List (RoomOp D))
      (hpc : (s.conns c).pc = .member r (.owned (.roster d) :: k))
      (hopen : (s.room r).closed = false) :
      CallSite s c (s.others r c { type := .roster, data := some d })
  | file (r : RoomId) (m : ServerMsg D) (k : List (RoomOp D))
      (hpc : (s.conns c).pc = .member r (.broadcastFile m :: k))
      (hopen : (s.room r).closed = false) : CallSite s c (s.others r c m)
  | kick (r : RoomId) (t : ClientId) (k : List (RoomOp D)) (s' : State D)
      (hpc : (s.conns c).pc = .member r (.owned (.kick t) :: k))
      (hrun : s.removeMember r t .kicked = some s') : CallSite s c (s'.presence r)
  | leave (r : RoomId) (hpc : (s.conns c).pc = .leave r) (hm : c ∈ (s.room r).members)
      (hopen : (s.room r).closed = false) (ho : (s.room r).ownerID ≠ some c) :
      CallSite s c ((s.dropMember r c).presence r)

theorem broadcast_cases {s : State D} {a : Act D} {b : Broadcast D} (h : s.broadcast a = some b) :
    ∃ c draw allow, a = .run c draw allow ∧ CallSite s c b := by
  cases a <;> simp only [State.broadcast, reduceCtorEq] at h
  case run c draw allow =>
    refine ⟨c, draw, allow, rfl, ?_⟩
    cases hpc : (s.conns c).pc <;> rw [hpc] at h <;> simp only [Pc.broadcast, reduceCtorEq] at h
    case member r todo =>
      cases todo with
      | nil => simp at h
      | cons op k =>
        cases op <;> simp only [RoomOp.broadcast, reduceCtorEq] at h
        case broadcastPresence =>
          split at h <;> cases h
          exact .presence r k hpc (Bool.eq_false_of_not_eq_true ‹_›)
        case relay body =>
          split at h <;> cases h
          rename_i hno
          push Not at hno
          exact .relay r body k hpc (by simpa using hno.1) hno.2
        case broadcastFile m =>
          split at h <;> cases h
          exact .file r m k hpc (Bool.eq_false_of_not_eq_true ‹_›)
        case owned q =>
          cases q <;> simp only [reduceCtorEq] at h
          case roster d =>
            split at h <;> cases h
            exact .roster r d k hpc (Bool.eq_false_of_not_eq_true ‹_›)
          case kick t =>
            obtain ⟨s', hrun, rfl⟩ := Option.map_eq_some_iff.mp h
            exact .kick r t k s' hpc hrun
    case leave r =>
      split at h <;> cases h
      rename_i hno
      push Not at hno
      exact .leave r hpc hno.1 (by simpa using hno.2.1) fun he => hno.2.2 he.symm

/-- Where a step sends to `d` by name: in `Close`, in `runJoiner`, in `handshakeLoop` and in a
member's handlers. -/
inductive SendSite (s : State D) (a : Act D) (d : ClientId) : ServerMsg D → Prop
  | closing (r : RoomId) (pick : ClientId) (re : Reason) (ms : List ClientId)
      (ha : a = .closing r pick) (hk : (s.room r).closing = .notice re d ms) :
      SendSite s a d { type := .roomClosed, reason := some re }
  | redeemOk (draw : Handle) (allow : Bool) (tok : Handle) (r : RoomId) (o : ClientId) (h : Handle)
      (ha : a = .run d draw allow) (hpc : (s.conns d).pc = .sendRedeemOk tok r o h) :
      SendSite s a d { type := .redeemOk, handshake := some h, memberId := some d }
  | inviteRedeemed (c : ClientId) (draw : Handle) (allow : Bool) (tok : Handle) (r : RoomId)
      (h : Handle) (ha : a = .run c draw allow)
      (hpc : (s.conns c).pc = .sendInviteRedeemed tok r d h) :
      SendSite s a d
        { type := .inviteRedeemed, handshake := some h, nick := some (s.conns c).nick,
          token := some tok, memberId := some c }
  | full (draw : Handle) (allow : Bool) (h : Handle) (ha : a = .run d draw allow)
      (hpc : (s.conns d).pc = .hsFull h) : SendSite s a d (errorMsg "room is full" .roomFull)
  | fail (m : ServerMsg D) (draw : Handle) (allow : Bool) (ha : a = .run d draw allow)
      (hpc : (s.conns d).pc = .fail m) : SendSite s a d m
  | relayed (m : ServerMsg D) (c : ClientId) (draw : Handle) (allow : Bool) (r : RoomId) (h : Handle)
      (ha : a = .run c draw allow) (hpc : (s.conns c).pc = .hsSend r h d m) : SendSite s a d m
  | sent (m : ServerMsg D) (c : ClientId) (draw : Handle) (allow : Bool) (r : RoomId)
      (k : List (RoomOp D)) (ha : a = .run c draw allow)
      (hpc : (s.conns c).pc = .member r (.send d m :: k)) : SendSite s a d m
  | rekey (c : ClientId) (draw : Handle) (allow : Bool) (r : RoomId) (x : D)
      (k : List (RoomOp D)) (ha : a = .run c draw allow)
      (hpc : (s.conns c).pc = .member r (.owned (.rekey d x) :: k))
      (hopen : (s.room r).closed = false) (hm : d ∈ (s.room r).members) :
      SendSite s a d { type := .rekey, data := some x }
  | kick (c : ClientId) (draw : Handle) (allow : Bool) (r : RoomId) (k : List (RoomOp D))
      (s' : State D) (ha : a = .run c draw allow)
      (hpc : (s.conns c).pc = .member r (.owned (.kick d) :: k))
      (hrun : s.removeMember r d .kicked = some s') :
      SendSite s a d { type := .roomClosed, reason := some .kicked }

theorem send_cases {s : State D} {a : Act D} {d : ClientId} {m : ServerMsg D}
    (h : s.direct a = some (d, m)) : SendSite s a d m := by
  cases a <;> simp only [State.direct, reduceCtorEq] at h
  case closing r pick =>
    cases hk : (s.room r).closing <;>
      simp only [hk, Closing.direct, reduceCtorEq, Option.some.injEq, Prod.mk.injEq] at h
    obtain ⟨rfl, rfl⟩ := h
    exact .closing r pick _ _ rfl hk
  case run c draw allow =>
    cases hpc : (s.conns c).pc <;> rw [hpc] at h <;>
      simp only [Pc.direct, reduceCtorEq, Option.some.injEq, Prod.mk.injEq] at h
    case sendRedeemOk tok r o x =>
      obtain ⟨rfl, rfl⟩ := h
      exact .redeemOk draw allow tok r o x rfl hpc
    case sendInviteRedeemed tok r o x =>
      obtain ⟨rfl, rfl⟩ := h
      exact .inviteRedeemed c draw allow tok r x rfl hpc
    case hsFull x =>
      obtain ⟨rfl, rfl⟩ := h
      exact .full draw allow x rfl hpc
    case fail m' =>
      obtain ⟨rfl, rfl⟩ := h
      exact .fail m' draw allow rfl hpc
    case hsSend r x dst m' =>
      obtain ⟨rfl, rfl⟩ := h
      exact .relayed m' c draw allow r x rfl hpc
    case member r todo =>
      cases todo with
      | nil => simp at h
      | cons op k =>
        cases op <;> simp only [RoomOp.direct, reduceCtorEq, Option.some.injEq, Prod.mk.injEq] at h
        case send dst m' =>
          obtain ⟨rfl, rfl⟩ := h
          exact .sent m' c draw allow r k rfl hpc
        case owned q =>
          cases q <;> simp only [reduceCtorEq] at h
          case rekey t x =>
            split at h <;> cases h
            rename_i hm
            exact .rekey c draw allow r x k rfl hpc hm.1 hm.2
          case kick t =>
            obtain ⟨s', hrun, he⟩ := Option.map_eq_some_iff.mp h
            cases he
            exact .kick c draw allow r k s' rfl hpc hrun

/-- A frame a step queues is broadcast or sent by name. -/
theorem posts_cases {s : State D} {a : Act D} {d : ClientId} {m : ServerMsg D}
    (h : s.posts a d = some m) : (∃ b, s.broadcast a = some b ∧ d ∈ b.dests ∧ b.frame = m) ∨
      s.direct a = some (d, m) ∧ (s.conns d).outClosed = false := by
  have named : State.posts.named s a d = some m →
      s.direct a = some (d, m) ∧ (s.conns d).outClosed = false := by
    intro hn
    obtain ⟨⟨dst, m'⟩, hd, hm⟩ := Option.bind_eq_some_iff.mp hn
    split at hm
    · rename_i hdst
      cases hm
      obtain ⟨rfl, hopen⟩ := hdst
      exact ⟨hd, hopen⟩
    · simp at hm
  unfold State.posts at h
  split at h
  · rename_i b hb
    split at h
    · rename_i hd
      exact .inl ⟨b, hb, hd, Option.some.inj h⟩
    · exact .inr (named h)
  · exact .inr (named h)

namespace State

/-! ## The queues after each operation -/

variable {s : State D} {c d : ClientId} {r : RoomId}

theorem setConn_out {f : Conn D → Conn D} (h : (f (s.conns c)).out = (s.conns c).out) :
    ((s.setConn c f).conns d).out = (s.conns d).out := by
  by_cases hd : d = c
  · subst hd
    simp [setConn, h]
  · simp [setConn, hd]

@[simp] theorem goto_out (s : State D) (c d : ClientId) (pc : Pc D) :
    ((s.goto c pc).conns d).out = (s.conns d).out :=
  setConn_out rfl

theorem trySend_out (m : ServerMsg D) :
    ((s.setConn c (·.trySend m)).conns d).out =
      enqueue (s.conns d).out (if c = d then some m else none) := by
  by_cases hd : c = d
  · subst hd
    simp only [setConn, Function.update_self, Conn.trySend, if_true, enqueue]
    split <;> rfl
  · simp [setConn, Function.update_of_ne (Ne.symm hd), hd, enqueue]

theorem sendLocked_out (h : (s.conns c).outClosed = false) (m : ServerMsg D) :
    ((s.sendLocked c m).conns d).out =
      enqueue (s.conns d).out (if c = d then some m else none) := by
  simp only [sendLocked, h, Bool.false_eq_true, if_false, trySend_out]

theorem clientSend_out (m : ServerMsg D) (pc : Pc D) :
    ((s.clientSend c r m pc).conns d).out = enqueue (s.conns d).out
      (if r = d ∧ (s.conns d).outClosed = false then some m else none) := by
  unfold clientSend
  split
  · rename_i hcl
    have hno : ¬ (r = d ∧ (s.conns d).outClosed = false) := by
      rintro ⟨rfl, h⟩
      simp [hcl] at h
    rw [if_neg hno]
    exact setConn_out rfl
  · rename_i hcl
    rw [goto_out, trySend_out]
    by_cases hd : r = d
    · subst hd
      simp [hcl]
    · simp [hd]

theorem closeChan_out : ((s.closeChan c).conns d).out = (s.conns d).out := by
  unfold closeChan
  split
  · rfl
  · exact setConn_out rfl

theorem broadcastLocked_out {ex : Option ClientId}
    (h : ∀ c ∈ (s.room r).members, (s.conns c).outClosed = false) (m : ServerMsg D) :
    ((s.broadcastLocked r m ex).conns d).out =
      enqueue (s.conns d).out (if d ∈ s.receivers r ex then some m else none) := by
  simp only [broadcastLocked]
  by_cases hd : d ∈ s.receivers r ex
  · have hopen := h d (List.mem_of_mem_filter hd)
    simp only [hd, if_true, Conn.deliver, hopen, Bool.false_eq_true, if_false, enqueue]
    split <;> rfl
  · simp [hd, enqueue]

theorem dropMember_receivers (s : State D) (r : RoomId) (c : ClientId) (ex : Option ClientId) :
    (s.dropMember r c).receivers r ex = (s.receivers r ex).filter (· ≠ c) := by
  have hroom : (s.closeChan c).room = s.room := by
    unfold closeChan
    split <;> rfl
  simp only [receivers, dropMember, broadcastLocked, setRoom, hroom, Function.update_self,
    List.filter_filter]
  congr 1
  funext x
  exact Bool.and_comm _ _

/-- A broadcast changes nobody's nick and no room. -/
theorem broadcastLocked_presence (s : State D) (r r' : RoomId) (m : ServerMsg D)
    (ex : Option ClientId) : (s.broadcastLocked r m ex).presence r' = s.presence r' := by
  have hnick : ∀ c, ((s.broadcastLocked r m ex).conns c).nick = (s.conns c).nick := by
    intro c
    simp only [broadcastLocked, Conn.deliver]
    split
    · split
      · rfl
      · split <;> rfl
    · rfl
  have hroom : (s.broadcastLocked r m ex).room = s.room := rfl
  simp only [presence, presenceMsg, membersInfo, receivers, hnick, hroom]

theorem dropMember_out (h : ∀ d ∈ (s.room r).members, (s.conns d).outClosed = false)
    (hc : c ∈ (s.room r).members) : ((s.dropMember r c).conns d).out = enqueue (s.conns d).out
      (if d ∈ ((s.dropMember r c).presence r).dests then some ((s.dropMember r c).presence r).frame
       else none) := by
  have hroom : (s.closeChan c).room = s.room := by
    simp [closeChan, h c hc, setConn]
  simp only [dropMember, broadcastLocked_presence]
  rw [broadcastLocked_out]
  · rw [show ∀ rm, (((s.closeChan c).setRoom r rm).conns d).out = ((s.closeChan c).conns d).out
      from fun _ => rfl, closeChan_out]
    rfl
  · intro d hd
    have hd' : d ∈ (s.room r).members ∧ d ≠ c := by simpa [setRoom, hroom] using hd
    simpa [setRoom, closeChan, h c hc, setConn, hd'.2] using h d hd'.1

theorem note_presence (s : State D) (e : Event) (r : RoomId) :
    (s.note e).presence r = s.presence r := rfl

theorem not_mem_dropMember_dests (s : State D) (r : RoomId) (c : ClientId) :
    c ∉ ((s.dropMember r c).presence r).dests := by
  simp [presence, dropMember_receivers]

theorem removeMember_out {s' : State D} {reason : Reason}
    (h : ∀ d ∈ (s.room r).members, (s.conns d).outClosed = false)
    (hrun : s.removeMember r c reason = some s') : (s'.conns d).out = enqueue (s.conns d).out
      (if d ∈ (s'.presence r).dests then some (s'.presence r).frame
       else if c = d then some { type := .roomClosed, reason := some reason } else none) := by
  simp only [removeMember] at hrun
  split at hrun
  · simp at hrun
  · rename_i hno
    push Not at hno
    cases hrun
    set s₁ := s.sendLocked c { type := .roomClosed, reason := some reason } with h₁
    have hroom : s₁.room = s.room := by simp [h₁, sendLocked, h c hno.1, setConn]
    have hsame : ∀ d, (s₁.conns d).outClosed = (s.conns d).outClosed :=
      fun d => congrFun (congrArg Floor.shut (floor_sendLocked (h c hno.1) _)) d
    rw [note_presence]
    have hout : (((s₁.dropMember r c).note (.kicked c r)).conns d).out =
        ((s₁.dropMember r c).conns d).out := rfl
    rw [hout, dropMember_out (fun d hd => (hsame d).trans (h d (hroom ▸ hd))) (hroom ▸ hno.1),
      h₁, sendLocked_out (h c hno.1), ← h₁]
    by_cases hd : c = d
    · subst hd
      have hgone := not_mem_dropMember_dests s₁ r c
      simp [hgone, enqueue]
    · simp only [hd, if_false]
      rfl

theorem broadcastPresence_out (h : ∀ d ∈ (s.room r).members, (s.conns d).outClosed = false) :
    ((s.broadcastPresence r).conns d).out = enqueue (s.conns d).out
      (if (s.room r).closed = false ∧ d ∈ (s.presence r).dests then some (s.presenceMsg r)
       else none) := by
  unfold broadcastPresence
  split
  · rename_i hcl
    simp [hcl, enqueue]
  · rename_i hcl
    rw [broadcastLocked_out h]
    simp [hcl, presence]

theorem broadcastExcept_out (h : ∀ d ∈ (s.room r).members, (s.conns d).outClosed = false)
    (m : ServerMsg D) : ((s.broadcastExcept r c m).conns d).out = enqueue (s.conns d).out
      (if (s.room r).closed = false ∧ d ∈ s.receivers r (some c) then some m else none) := by
  unfold broadcastExcept
  split
  · rename_i hcl
    simp [hcl, enqueue]
  · rename_i hcl
    rw [broadcastLocked_out h]
    simp [hcl]

theorem sendTo_out (h : ∀ d ∈ (s.room r).members, (s.conns d).outClosed = false)
    (m : ServerMsg D) : ((s.sendTo r c m).conns d).out = enqueue (s.conns d).out
      (if ((s.room r).closed = false ∧ c ∈ (s.room r).members) ∧ c = d then some m else none) := by
  unfold sendTo
  split
  · rename_i hcl
    simp [hcl, enqueue]
  · rename_i hcl
    split
    · rename_i hm
      rw [sendLocked_out (h c hm)]
      simp [hcl, hm]
    · rename_i hm
      simp [hm, enqueue]

end State

/-! ## The queues after a step -/

namespace Sound

variable {s s' : State D} {c : ClientId} {r : RoomId} {k : List (RoomOp D)}
  {draw : Handle} {allow : Bool}

/-- Nothing is sent. -/
theorem out_same {a : Act D} {d : ClientId} (hb : s.broadcast a = none) (hd : s.direct a = none)
    (h : (s'.conns d).out = (s.conns d).out) :
    (s'.conns d).out = enqueue (s.conns d).out (s.posts a d) := by
  simp [h, State.posts, State.posts.named, hb, hd, enqueue]

/-- One frame is sent, without a lock. -/
theorem out_sent {a : Act D} {dst : ClientId} {m : ServerMsg D} {pc : Pc D}
    (hb : s.broadcast a = none) (hd : s.direct a = some (dst, m)) (d : ClientId) :
    ((s.clientSend c dst m pc).conns d).out = enqueue (s.conns d).out (s.posts a d) := by
  simp only [State.clientSend_out, State.posts, State.posts.named, hb, hd, Option.bind_some]

theorem runOwned_out [Payload D] (hs : Sound cfg s) {q : OwnerReq D}
    (hpc : (s.conns c).pc = .member r (.owned q :: k)) (h : runOwned cfg s c draw r k q = some s')
    (d : ClientId) :
    (s'.conns d).out = enqueue (s.conns d).out (s.posts (.run c draw allow) d) := by
  have hopen := hs.open_of_mem (r := r)
  have hb : s.broadcast (.run c draw allow) = (RoomOp.owned q).broadcast s c r := by
    simp only [State.broadcast, hpc, Pc.broadcast]
  have hd : s.direct (.run c draw allow) = (RoomOp.owned q).direct s r := by
    simp only [State.direct, hpc, Pc.direct]
  cases q with
  | invite =>
    simp only [runOwned, State.drawId] at h
    split at h
    · simp at h
    · cases h
      exact out_same hb hd (State.goto_out _ _ _ _)
  | rekey t body =>
    cases h
    simp only [State.goto_out, State.sendTo_out hopen, State.posts, State.posts.named, hb, hd,
      RoomOp.broadcast, RoomOp.direct]
    split
    · rename_i hm
      obtain ⟨hm, rfl⟩ := hm
      simp [hm, hopen t hm.2]
    · rename_i hm
      by_cases hm' : (s.room r).closed = false ∧ t ∈ (s.room r).members
      · have ht : ¬ t = d := fun he => hm ⟨hm', he⟩
        simp [hm', ht]
      · simp [hm']
  | transfer t =>
    simp only [runOwned] at h
    split at h
    · rename_i s₁ h₁
      obtain ⟨-, -, rfl⟩ := State.setOwner_eq_some h₁
      cases h
      exact out_same hb hd (State.goto_out _ _ _ _)
    · cases h
      exact out_same hb hd (State.goto_out _ _ _ _)
  | kick v =>
    simp only [runOwned] at h
    split at h
    · rename_i s₁ h₁
      cases h
      have hv := (State.removeMember_eq_some hopen h₁).2.1
      simp only [State.goto_out, State.removeMember_out hopen h₁, State.posts, State.posts.named,
        hb, hd, RoomOp.broadcast, RoomOp.direct, h₁, Option.map_some, Option.bind_some]
      split
      · rfl
      · by_cases hvd : v = d
        · subst hvd
          simp [hopen v hv]
        · simp [hvd]
    · rename_i h₁
      cases h
      refine out_same ?_ ?_ (State.goto_out _ _ _ _)
      · simp [hb, RoomOp.broadcast, h₁]
      · simp [hd, RoomOp.direct, h₁]
  | roster body =>
    cases h
    simp only [State.goto_out, State.broadcastExcept_out hopen, State.posts, State.posts.named, hb,
      hd, RoomOp.broadcast, RoomOp.direct]
    cases (s.room r).closed <;> simp [State.others]

theorem runOp_out [Payload D] (hs : Sound cfg s) {op : RoomOp D}
    (hpc : (s.conns c).pc = .member r (op :: k)) (h : runOp cfg s c draw r k op = some s')
    (d : ClientId) :
    (s'.conns d).out = enqueue (s.conns d).out (s.posts (.run c draw allow) d) := by
  have hopen := hs.open_of_mem (r := r)
  have hb : s.broadcast (.run c draw allow) = op.broadcast s c r := by
    simp only [State.broadcast, hpc, Pc.broadcast]
  have hd : s.direct (.run c draw allow) = op.direct s r := by
    simp only [State.direct, hpc, Pc.direct]
  cases op with
  | owned q => exact hs.runOwned_out hpc h d
  | send dst m =>
    cases h
    exact out_sent hb hd d
  | broadcastPresence =>
    cases h
    simp only [State.goto_out, State.broadcastPresence_out hopen, State.posts, State.posts.named,
      hb, hd, RoomOp.broadcast, RoomOp.direct]
    cases (s.room r).closed <;> simp [State.presence]
  | relay body =>
    cases h
    simp only [State.goto_out, State.relay, State.posts, State.posts.named, hb, hd,
      RoomOp.broadcast, RoomOp.direct]
    split
    · simp [enqueue]
    · rw [State.broadcastLocked_out]
      · simp [State.others, State.receivers, State.setRoom, State.chatMsg]
      · simpa [State.setRoom] using hopen
  | broadcastFile m =>
    cases h
    simp only [State.goto_out, State.broadcastExcept_out hopen, State.posts, State.posts.named, hb,
      hd, RoomOp.broadcast, RoomOp.direct]
    cases (s.room r).closed <;> simp [State.others]
  | setSessionRoom =>
    cases h
    refine out_same hb hd ?_
    obtain he | ⟨sc, -, he⟩ := s.setSessionRoom_eq (s.conns c).session r <;> rw [he] <;> simp
  | clearSessionByClient v =>
    cases h
    refine out_same hb hd ?_
    obtain ⟨m, hm, -⟩ := s.clearSessionByClient_eq (s.conns v).session v
    rw [hm]
    simp
  | ownerCheck q =>
    refine out_same hb hd ?_
    have hnote : (s.noteCheck c r q).conns = s.conns := by
      unfold State.noteCheck
      split <;> rfl
    simp only [runOp] at h
    split at h
    · cases h
      simp [hnote]
    · split at h <;> cases h <;> simp [hnote]
  | snapshotMembers | endHandshake | rollback =>
    cases h
    exact out_same hb hd (State.goto_out _ _ _ _)
  | getHandshake | release =>
    simp only [runOp] at h
    split at h <;> cases h <;> exact out_same hb hd (State.goto_out _ _ _ _)
  | fileStart | accept | forget =>
    cases h
    exact out_same hb hd ((State.goto_out _ _ _ _).trans (State.setConn_out rfl))
  | fileChunk t i body =>
    simp only [runOp] at h
    split at h
    · cases h
      exact out_same hb hd (State.goto_out _ _ _ _)
    · split at h <;> cases h <;> exact out_same hb hd (State.goto_out _ _ _ _)
  | addInflight t cur i body =>
    simp only [runOp] at h
    split at h <;> cases h <;> exact out_same hb hd (State.goto_out _ _ _ _)

theorem runPc_out [Payload D] (hs : Sound cfg s)
    (h : runPc cfg s c draw allow (s.conns c).pc = some s') (d : ClientId) :
    (s'.conns d).out = enqueue (s.conns d).out (s.posts (.run c draw allow) d) := by
  have hb : s.broadcast (.run c draw allow) = (s.conns c).pc.broadcast s c := rfl
  have hd : s.direct (.run c draw allow) = (s.conns c).pc.direct s c := rfl
  -- an operation that sends nothing and only moves on
  have stay : ∀ {s₁ : State D} {pc : Pc D}, (s.conns c).pc.broadcast s c = none →
      (s.conns c).pc.direct s c = none → s₁.conns = s.conns →
      ((s₁.goto c pc).conns d).out = enqueue (s.conns d).out (s.posts (.run c draw allow) d) := by
    intro s₁ pc hb' hd' h₁
    exact out_same (hb.trans hb') (hd.trans hd') (by rw [State.goto_out, h₁])
  cases hpc : (s.conns c).pc <;> rw [hpc] at h hb hd stay
  case absent | hsLoop | exited => simp [runPc] at h
  case allowCreate | allowRedeem | deferHandshakes | endHandshake =>
    cases h
    exact stay rfl rfl rfl
  case claimCreate | claimRedeem =>
    simp only [runPc] at h
    split at h
    · rename_i s₁ h₁
      obtain ⟨-, rfl⟩ := State.tryClaimSession_eq_some h₁
      cases h
      exact stay rfl rfl rfl
    · cases h
      exact stay rfl rfl rfl
  case createRoom =>
    simp only [runPc, State.drawId] at h
    split at h
    · simp at h
    · cases h
      exact stay rfl rfl rfl
  case newHandshake =>
    simp only [runPc, State.drawId] at h
    split at h
    · simp at h
    · cases h
      exact stay rfl rfl rfl
  case addOwner r' | hsEnter r' _ =>
    simp only [runPc] at h
    split at h
    · rename_i s₁ h₁
      obtain ⟨-, -, rfl⟩ := State.add_eq_some h₁
      cases h
      exact stay rfl rfl rfl
    · cases h
      exact stay rfl rfl rfl
  case redeemInvite tok =>
    simp only [runPc, State.redeemInvite] at h
    cases hinv : s.invites tok with
    | none =>
      rw [hinv] at h
      cases h
      exact stay rfl rfl rfl
    | some inv =>
      rw [hinv] at h
      by_cases hexp : s.now > inv.expiresAt
      · simp only [if_pos hexp, Option.some.injEq] at h
        rw [← h]
        exact stay rfl rfl rfl
      · simp only [if_neg hexp, Option.some.injEq] at h
        rw [← h]
        exact stay rfl rfl rfl
  case getRoom | hasCapacity =>
    cases h
    exact stay rfl rfl rfl
  case ownerClient =>
    simp only [runPc] at h
    split at h <;> cases h <;> exact stay rfl rfl rfl
  case sendRedeemOk | sendInviteRedeemed | hsSend | hsFull | fail =>
    cases h
    exact out_sent hb hd d
  case hsRelay =>
    simp only [runPc] at h
    split at h <;> cases h <;> exact stay rfl rfl rfl
  case closeOut =>
    cases h
    exact out_same hb hd (by rw [State.goto_out, State.closeChan_out])
  case member r' todo =>
    cases todo with
    | nil => simp [runPc] at h
    | cons op k => exact hs.runOp_out hpc h d
  case leave r' =>
    simp only [runPc] at h
    split at h
    · rename_i hno
      cases h
      refine stay ?_ rfl rfl
      simp only [Pc.broadcast, ite_eq_left_iff]
      tauto
    · rename_i hin
      push Not at hin
      split at h
      · rename_i ho
        cases h
        exact stay (by simp [Pc.broadcast, ho]) rfl rfl
      · rename_i ho
        cases h
        rw [State.goto_out, State.dropMember_out hs.open_of_mem hin.1]
        simp [State.posts, State.posts.named, hb, hd, Pc.broadcast, Pc.direct, hin, ho]
  case leaveClose r' reason =>
    simp only [runPc] at h
    split at h
    · rename_i s₁ h₁
      obtain ⟨-, rfl⟩ := State.closeBegin_eq_some h₁
      cases h
      exact stay rfl rfl rfl
    · cases h
      exact stay rfl rfl rfl
  case leaveWait | awaitDone =>
    simp only [runPc] at h
    split at h
    · cases h
      exact stay rfl rfl rfl
    · simp at h
  case clearSession | deferSession =>
    cases h
    obtain ⟨m, hm, -⟩ := s.clearSession_eq (s.conns c).session c
    exact stay rfl rfl (by rw [hm])
  case deferBytes rest =>
    cases rest <;> cases h <;> exact stay rfl rfl rfl

theorem runClosing_out (hs : Sound cfg s) {pick : ClientId}
    (h : runClosing s r pick (s.room r).closing = some s') (d : ClientId) :
    (s'.conns d).out = enqueue (s.conns d).out (s.posts (.closing r pick) d) := by
  have hb : s.broadcast (.closing r pick) = none := rfl
  have hd : s.direct (.closing r pick) = (s.room r).closing.direct := rfl
  cases hk : (s.room r).closing with
  | no | done => simp [hk, runClosing] at h
  | removeRoom reason ms | dropInvites reason ms =>
    rw [hk] at h hd
    cases h
    exact out_same hb hd rfl
  | next reason ms =>
    rw [hk] at h hd
    cases ms with
    | nil =>
      cases h
      exact out_same hb hd rfl
    | cons m ms =>
      simp only [runClosing] at h
      split at h
      · cases h
        obtain ⟨mm, hm, -⟩ := s.clearSessionByClient_eq (s.conns pick).session pick
        exact out_same hb hd (by rw [hm]; rfl)
      · simp at h
  | notice re c ms =>
    rw [hk] at h hd
    cases h
    have hopen := (hs.inv.pend r c (by simp [State.floor, hk, Closing.pending])).1
    have hout : ∀ s₁ : State D, ∀ k, ((s₁.setClosing r k).conns d).out = (s₁.conns d).out :=
      fun _ _ => rfl
    rw [hout, State.sendLocked_out hopen]
    simp only [State.posts, State.posts.named, hb, hd, Closing.direct, Option.bind_some]
    by_cases hcd : c = d
    · subst hcd
      have hopen' : (s.conns c).outClosed = false := hopen
      simp [hopen']
    · simp [hcd]
  | closeOut reason c ms =>
    rw [hk] at h hd
    cases h
    exact out_same hb hd State.closeChan_out

/-- What the janitor and `Shutdown` do to the rest of the relay: at most they begin to close a live
room. -/
def Reaps (s s' : State D) : Prop :=
  s'.conns = s.conns ∧ s'.handshakes = s.handshakes ∧
    (s'.room = s.room ∨ ∃ r reason, (s.room r).closed = false ∧
      s'.room = Function.update s.room r (Floor.closeRoom (s.room r) reason))

theorem runJanitor_reaps {pick : RoomId} (h : runJanitor cfg s pick s.janitor = some s') :
    Reaps s s' := by
  cases hj : s.janitor <;> rw [hj] at h
  case idle =>
    simp only [runJanitor] at h
    split at h
    · simp at h
    · cases h
      exact ⟨rfl, rfl, .inl rfl⟩
  case scan now todo =>
    cases todo with
    | nil =>
      cases h
      exact ⟨rfl, rfl, .inl rfl⟩
    | cons r rs =>
      simp only [runJanitor] at h
      split at h
      · cases h
        exact ⟨rfl, rfl, .inl rfl⟩
      · simp at h
  case idleFor now r todo =>
    cases h
    exact ⟨rfl, rfl, .inl rfl⟩
  case close now r todo =>
    simp only [runJanitor] at h
    split at h <;> cases h
    · rename_i h₁
      obtain ⟨hopen, rfl⟩ := State.closeBegin_eq_some h₁
      exact ⟨rfl, rfl, .inr ⟨r, some .idle, hopen, rfl⟩⟩
    · exact ⟨rfl, rfl, .inl rfl⟩
  case wait now r todo =>
    simp only [runJanitor] at h
    split at h
    · cases h
      exact ⟨rfl, rfl, .inl rfl⟩
    · simp at h
  case gcInvites now =>
    cases h
    exact ⟨rfl, rfl, .inl rfl⟩

theorem runShutdown_reaps {pick : RoomId} (h : runShutdown s pick s.shutdown = some s') :
    Reaps s s' := by
  cases hj : s.shutdown <;> rw [hj] at h
  case idle =>
    cases h
    exact ⟨rfl, rfl, .inl rfl⟩
  case run todo =>
    cases todo with
    | nil => simp [runShutdown] at h
    | cons r rs =>
      simp only [runShutdown] at h
      split at h
      · split at h <;> cases h
        · rename_i h₁
          obtain ⟨hopen, rfl⟩ := State.closeBegin_eq_some h₁
          exact ⟨rfl, rfl, .inr ⟨pick, some .serverStop, hopen, rfl⟩⟩
        · exact ⟨rfl, rfl, .inl rfl⟩
      · simp at h
  case wait r todo =>
    simp only [runShutdown] at h
    split at h
    · cases h
      exact ⟨rfl, rfl, .inl rfl⟩
    · simp at h

/-- **What a step does to the queues.** -/
theorem step_out [Payload D] (hs : Sound cfg s) {a : Act D} (h : step cfg s a = some s')
    (d : ClientId) : (s'.conns d).out = s.nextOut a d := by
  -- the labels that send nothing
  have still : ∀ a : Act D, s.broadcast a = none → s.direct a = none →
      (s'.conns d).out = (s.conns d).out → (s'.conns d).out = enqueue (s.conns d).out (s.posts a d) :=
    fun a hb hd => out_same hb hd
  cases a with
  | connect c hello =>
    simp only [step, State.drawId] at h
    split at h
    · simp at h
    · cases h
      by_cases hd : d = c
      · subst hd
        simp [State.setConn, State.nextOut]
      · simp [State.setConn, State.nextOut, hd]
  | frame c m =>
    simp only [step] at h
    split at h
    · simp at h
    · obtain ⟨pc', -, rfl⟩ := Option.map_eq_some_iff.mp h
      exact still (.frame c m) rfl rfl (State.goto_out s c d pc')
  | readErr c =>
    obtain ⟨pc', -, rfl⟩ := Option.map_eq_some_iff.mp h
    exact still (.readErr c) rfl rfl (State.setConn_out rfl)
  | run c draw allow => exact hs.runPc_out h d
  | pump c =>
    simp only [step] at h
    split at h
    · simp at h
    · split at h
      · simp at h
      · rename_i m rest hout
        cases h
        by_cases hd : d = c
        · subst hd
          simp [State.setConn, State.nextOut, hout]
        · simp [State.setConn, State.nextOut, hd]
  | pumpExit c =>
    simp only [step] at h
    split at h
    · simp at h
    · cases h
      exact still (.pumpExit c) rfl rfl (State.setConn_out rfl)
  | drop c =>
    cases h
    exact still (.drop c) rfl rfl (State.setConn_out rfl)
  | closing r pick => exact hs.runClosing_out h d
  | janitor pick => exact still (.janitor pick) rfl rfl (by rw [(runJanitor_reaps h).1])
  | shutdown pick => exact still (.shutdown pick) rfl rfl (by rw [(runShutdown_reaps h).1])
  | clock t =>
    cases h
    exact still (.clock t) rfl rfl rfl

/-- Only a frame the step posts goes into a queue, and only into one with room. -/
theorem posts_of_queued [Payload D] (hs : Sound cfg s) {a : Act D} (h : step cfg s a = some s')
    {d : ClientId} {m : ServerMsg D} (hq : (s'.conns d).out = (s.conns d).out ++ [m]) :
    s.posts a d = some m ∧ (s.conns d).out.length < outboundBuffer := by
  have hlen := congrArg List.length hq
  rw [hs.step_out h d] at hq hlen
  have hput : enqueue (s.conns d).out (s.posts a d) = (s.conns d).out ++ [m] →
      s.posts a d = some m ∧ (s.conns d).out.length < outboundBuffer := by
    intro he
    unfold enqueue at he
    split at he
    · split at he
      · rename_i m' hm hroom
        have : m' = m := by simpa using he
        exact ⟨this ▸ hm, hroom⟩
      · simp at he
    · simp at he
  cases a with
  | connect c hello =>
    simp only [State.nextOut] at hlen
    split at hlen <;> simp at hlen
  | pump c =>
    simp only [State.nextOut] at hlen
    split at hlen
    · simp only [List.length_tail, List.length_append, List.length_singleton] at hlen
      omega
    · simp at hlen
  | _ => exact hput hq

end Sound

end E2EAnon.Relay
