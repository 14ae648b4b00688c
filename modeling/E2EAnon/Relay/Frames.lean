import E2EAnon.Relay.Control

/-!
# Where frames come from (`server.go:248-448`)

`payloads` are the strings a frame carries for its author. A goroutine holds no payload but those of
frames it has read (`sent_of_trace`), and sends a frame only to its own client or, with a handshake's
id on it, to the other party of that handshake (`fit_of_trace`).
-/

namespace E2EAnon.Relay

variable {D : Type} {cfg : Config}

/-! ## Payloads -/

/-- What a client has put into a frame to others. -/
def payloads (m : ServerMsg D) : List D := m.body.toList ++ m.data.toList ++ m.keyId.toList

def clientPayloads : ClientMsg D → List D
  | .msg d | .pake _ d | .keyDeliver _ d | .memberKey _ d | .rekey _ d | .roster d
  | .fileChunk _ _ d => [d]
  | .fileStart _ k d => [k, d]
  | _ => []

def OwnerReq.payloads : OwnerReq D → List D
  | .rekey _ d | .roster d => [d]
  | _ => []

def RoomOp.payloads : RoomOp D → List D
  | .relay d | .getHandshake _ _ d | .fileChunk _ _ d | .addInflight _ _ _ d | .accept _ _ _ d =>
    [d]
  | .send _ m | .broadcastFile m => Relay.payloads m
  | .ownerCheck q | .owned q => q.payloads
  | .fileStart _ k d => [k, d]
  | _ => []

def Pc.payloads : Pc D → List D
  | .hsRelay _ _ _ _ d => [d]
  | .hsSend _ _ _ m | .fail m => Relay.payloads m
  | .member _ todo => todo.flatMap RoomOp.payloads
  | _ => []

theorem refusal_payloads {q : OwnerReq D} {m : ServerMsg D} (h : refusal q = some m) :
    payloads m = [] := by
  cases q <;> simp only [refusal, Option.some.injEq, reduceCtorEq] at h <;> subst h <;> rfl

theorem abortFile_payloads (c : ClientId) (t text : String) :
    (abortFile (D := D) c t text).flatMap RoomOp.payloads = [] := rfl

theorem helloPc_payloads (m : ClientMsg D) : (helloPc m).payloads = [] := by
  cases m <;> rfl

theorem memberFrame_payloads {c : ClientId} {m : ClientMsg D} {todo : List (RoomOp D)}
    (h : memberFrame c m = some todo) {x : D} (hx : x ∈ todo.flatMap RoomOp.payloads) :
    x ∈ clientPayloads m := by
  cases m <;> simp only [memberFrame, Option.some.injEq, reduceCtorEq] at h <;> subst h
  case fileStart | fileChunk | fileEnd | fileAbort =>
    split at hx <;> simp_all [RoomOp.payloads, clientPayloads, payloads, fileMsg]
  all_goals simp_all [RoomOp.payloads, OwnerReq.payloads, clientPayloads]

theorem readFrame_payloads {c : ClientId} {m : ClientMsg D} {pc pc' : Pc D}
    (h : readFrame c m pc = some pc') {x : D} (hx : x ∈ pc'.payloads) : x ∈ clientPayloads m := by
  unfold readFrame at h
  split at h
  · cases h
    cases m with
    | pake h' d | memberKey h' d => simpa [joinerFrame, Pc.payloads, clientPayloads] using hx
    | enter h' =>
      simp only [joinerFrame] at hx
      split at hx <;> simp [Pc.payloads] at hx
    | _ => simp [joinerFrame, Pc.payloads] at hx
  · split at h <;> cases h
    · exact memberFrame_payloads ‹_› hx
    · simp [Pc.payloads] at hx
  · simp at h

theorem readFails_payloads {pc pc' : Pc D} (h : readFails pc = some pc') : pc'.payloads = [] := by
  unfold readFails at h
  split at h <;> cases h <;> rfl

/-! ## Addressees -/

/-- The frames `relayHandshake` relays. -/
def handshakeType : ServerType → Bool
  | .pake | .keyDeliver | .memberKey => true
  | _ => false

def fileType : ServerType → Bool
  | .fileStart | .fileChunk | .fileEnd | .fileAbort => true
  | _ => false

/-- `c` may send `m` to the client: it is `c`'s own, or a frame of a handshake `c` has had with it.
`past h hs` says that `h` has been the handshake `hs`. -/
inductive Fits (past : Handle → Handshake → Prop) (c : ClientId) : ClientId → ServerMsg D → Prop
  | own (m : ServerMsg D) (hp : payloads m = [])
      (ht : m.type = .error ∨ m.type = .inviteCreated ∨ m.type = .welcome) : Fits past c c m
  | peer (type : ServerType) (h : Handle) (d : D) (hs : Handshake) (dst : ClientId)
      (hh : past h hs) (hp : hs.peer c = some dst) (ht : handshakeType type = true) :
      Fits past c dst { type, handshake := some h, data := some d }

def RoomOp.fit (past : Handle → Handshake → Prop) (c : ClientId) : RoomOp D → Prop
  | .send dst m => Fits past c dst m
  | .getHandshake type _ _ => handshakeType type = true
  | .broadcastFile m => fileType m.type = true ∧ m.fromId = some c
  | _ => True

def Pc.fit (past : Handle → Handshake → Prop) (c : ClientId) : Pc D → Prop
  | .hsRelay _ _ type _ _ => handshakeType type = true
  | .hsSend _ _ dst m => Fits past c dst m
  | .fail m => Relay.payloads m = [] ∧ m.type = .error
  | .member _ todo => ∀ op ∈ todo, op.fit past c
  | _ => True

section
variable {past past' : Handle → Handshake → Prop} {c dst : ClientId}

theorem Fits.mono (h : ∀ x hs, past x hs → past' x hs) {m : ServerMsg D} (hm : Fits past c dst m) :
    Fits past' c dst m := by
  cases hm with
  | own m hp ht => exact .own m hp ht
  | peer type x d hs dst hh hp ht => exact .peer type x d hs dst (h x hs hh) hp ht

theorem RoomOp.fit_mono (h : ∀ x hs, past x hs → past' x hs) {op : RoomOp D}
    (hop : op.fit past c) : op.fit past' c := by
  cases op <;> first | exact hop | exact Fits.mono h hop

theorem Pc.fit_mono (h : ∀ x hs, past x hs → past' x hs) {pc : Pc D} (hpc : pc.fit past c) :
    pc.fit past' c := by
  cases pc with
  | hsSend => exact Fits.mono h hpc
  | member r todo => exact fun op hop => RoomOp.fit_mono h (hpc op hop)
  | _ => exact hpc

theorem helloPc_fit (m : ClientMsg D) : (helloPc m).fit past c := by
  cases m <;> simp [helloPc, Pc.fit, errorMsg, payloads]

theorem refusal_fit {q : OwnerReq D} {m : ServerMsg D} (h : refusal q = some m) :
    Fits past c c m := by
  refine .own m (refusal_payloads h) (.inl ?_)
  cases q <;> simp only [refusal, Option.some.injEq, reduceCtorEq] at h <;> subst h <;> rfl

theorem abortFile_fit {t text : String} : ∀ op ∈ abortFile (D := D) c t text, op.fit past c := by
  intro op hop
  simp only [abortFile, List.mem_cons, List.not_mem_nil, or_false] at hop
  obtain rfl | rfl | rfl := hop
  · trivial
  · exact .own _ rfl (.inl rfl)
  · exact ⟨rfl, rfl⟩

theorem memberFrame_fit {m : ClientMsg D} {todo : List (RoomOp D)}
    (h : memberFrame c m = some todo) : ∀ op ∈ todo, op.fit past c := by
  cases m <;> simp only [memberFrame, Option.some.injEq, reduceCtorEq] at h <;> subst h
  case fileStart | fileChunk | fileEnd | fileAbort =>
    split <;> simp [RoomOp.fit, fileMsg, fileType]
  all_goals simp [RoomOp.fit, handshakeType]

theorem readFrame_fit {m : ClientMsg D} {pc pc' : Pc D} (h : readFrame c m pc = some pc') :
    pc'.fit past c := by
  unfold readFrame at h
  split at h
  · cases h
    cases m with
    | pake h' d | memberKey h' d => rfl
    | enter h' =>
      simp only [joinerFrame]
      split <;> trivial
    | _ => trivial
  · split at h <;> cases h
    · exact memberFrame_fit ‹_›
    · trivial
  · simp at h

theorem readFails_fit {pc pc' : Pc D} (h : readFails pc = some pc') : pc'.fit past c := by
  unfold readFails at h
  split at h <;> cases h <;> trivial

end

/-! ## Sends by name -/

section
variable {past : Handle → Handshake → Prop} {s : State D} {c d : ClientId} {r : RoomId}
  {m : ServerMsg D} {k : List (RoomOp D)}

theorem fits_of_relayed {h : Handle} (hfit : (s.conns c).pc.fit past c)
    (hpc : (s.conns c).pc = .hsSend r h d m) : Fits past c d m := by
  rw [hpc] at hfit
  exact hfit

theorem fits_of_sent (hfit : (s.conns c).pc.fit past c)
    (hpc : (s.conns c).pc = .member r (.send d m :: k)) : Fits past c d m := by
  rw [hpc] at hfit
  exact hfit (.send d m) List.mem_cons_self

theorem fit_of_broadcast (hfit : (s.conns c).pc.fit past c)
    (hpc : (s.conns c).pc = .member r (.broadcastFile m :: k)) :
    fileType m.type = true ∧ m.fromId = some c := by
  rw [hpc] at hfit
  exact hfit (.broadcastFile m) List.mem_cons_self

end

/-- Replies and notices of the relay to one client. -/
def relayType : ServerType → Bool
  | .welcome | .roomClosed | .error | .inviteCreated => true
  | _ => false

/-- The frames a step sends to one client by name. -/
inductive DirectSite (past : Handle → Handshake → Prop) (s : State D) (a : Act D) (d : ClientId) :
    ServerMsg D → Prop
  | own (m : ServerMsg D) (hp : payloads m = []) (ht : relayType m.type = true) :
      DirectSite past s a d m
  | redeemOk (draw : Handle) (allow : Bool) (tok : Handle) (r : RoomId) (o : ClientId) (h : Handle)
      (ha : a = .run d draw allow) (hpc : (s.conns d).pc = .sendRedeemOk tok r o h) :
      DirectSite past s a d { type := .redeemOk, handshake := some h, memberId := some d }
  | inviteRedeemed (c : ClientId) (draw : Handle) (allow : Bool) (tok : Handle) (r : RoomId)
      (h : Handle) (ha : a = .run c draw allow)
      (hpc : (s.conns c).pc = .sendInviteRedeemed tok r d h) :
      DirectSite past s a d
        { type := .inviteRedeemed, handshake := some h, nick := some (s.conns c).nick,
          token := some tok, memberId := some c }
  | rekey (c : ClientId) (draw : Handle) (allow : Bool) (r : RoomId) (x : D)
      (k : List (RoomOp D)) (ha : a = .run c draw allow)
      (hpc : (s.conns c).pc = .member r (.owned (.rekey d x) :: k))
      (hopen : (s.room r).closed = false) (hm : d ∈ (s.room r).members) :
      DirectSite past s a d { type := .rekey, data := some x }
  | peer (c : ClientId) (draw : Handle) (allow : Bool) (type : ServerType) (h : Handle) (x : D)
      (hs : Handshake) (ha : a = .run c draw allow) (hh : past h hs) (hp : hs.peer c = some d)
      (ht : handshakeType type = true) (hx : x ∈ (s.conns c).pc.payloads) :
      DirectSite past s a d { type, handshake := some h, data := some x }

theorem direct_cases {past : Handle → Handshake → Prop} {s : State D} {a : Act D} {d : ClientId}
    {m : ServerMsg D} (hfit : ∀ c, (s.conns c).pc.fit past c) (h : s.direct a = some (d, m)) :
    DirectSite past s a d m := by
  -- a frame the goroutine carries
  have carried : ∀ {c : ClientId} {draw : Handle} {allow : Bool}, a = .run c draw allow →
      Fits past c d m → (∀ x ∈ payloads m, x ∈ (s.conns c).pc.payloads) →
      DirectSite past s a d m := by
    intro c draw allow ha hm hx
    cases hm with
    | own _ hp ht => exact .own m hp (by obtain ht | ht | ht := ht <;> simp [ht, relayType])
    | peer type y x hs _ hh hp ht =>
      exact .peer c draw allow type y x hs ha hh hp ht (hx x (by simp [payloads]))
  cases send_cases h with
  | closing => exact .own _ rfl rfl
  | redeemOk draw allow tok r o x ha hpc => exact .redeemOk draw allow tok r o x ha hpc
  | inviteRedeemed c draw allow tok r x ha hpc =>
    exact .inviteRedeemed c draw allow tok r x ha hpc
  | full => exact .own _ rfl rfl
  | fail _ draw allow ha hpc =>
    have hd := hfit d
    rw [hpc] at hd
    exact .own _ hd.1 (by simp [hd.2, relayType])
  | relayed _ c draw allow r y ha hpc =>
    exact carried ha (fits_of_relayed (hfit c) hpc) fun x hx => by
      simpa [hpc, Pc.payloads] using hx
  | sent _ c draw allow r k ha hpc =>
    exact carried ha (fits_of_sent (hfit c) hpc) fun x hx => by
      simp [hpc, Pc.payloads, RoomOp.payloads, hx]
  | rekey c draw allow r x k ha hpc hopen hm => exact .rekey c draw allow r x k ha hpc hopen hm
  | kick => exact .own _ rfl rfl

/-! ## What a run keeps -/

variable [Payload D] {s s' : State D} {c : ClientId} {r : RoomId} {draw : Handle}

theorem Expands.payloads {op : RoomOp D} {new : List (RoomOp D)}
    (h : Expands s c r draw op new) {x : D} (hx : x ∈ new.flatMap RoomOp.payloads) :
    x ∈ op.payloads := by
  cases h with
  | refused q m hm => simp [RoomOp.payloads, refusal_payloads hm] at hx
  | busy => simp [abortFile_payloads, RoomOp.payloads] at hx
  | tooLarge => simp [abortFile_payloads] at hx
  | _ => simp_all [RoomOp.payloads, OwnerReq.payloads, Relay.payloads, fileMsg, welcomeMsg, or_comm]

theorem PcNext.payloads {pc pc' : Pc D} (h : PcNext s c draw pc pc') {x : D}
    (hx : x ∈ pc'.payloads) : x ∈ pc.payloads := by
  cases h with
  | member r op new k h =>
    simp only [Pc.payloads, List.flatMap_append, List.mem_append, List.flatMap_cons] at hx ⊢
    exact hx.imp_left h.payloads
  | _ => simp_all [Pc.payloads, RoomOp.payloads, Relay.payloads, errorMsg]

theorem Expands.fit {past : Handle → Handshake → Prop}
    (hpast : ∀ x hs, s.handshakes x = some hs → past x hs) {op : RoomOp D}
    {new : List (RoomOp D)} (h : Expands s c r draw op new) (hop : op.fit past c) :
    ∀ o ∈ new, o.fit past c := by
  cases h with
  | refused q m hm => simpa [RoomOp.fit] using refusal_fit hm
  | welcome role => simpa [RoomOp.fit] using Fits.own _ rfl (.inr (.inr rfl))
  | invited exp hd => simpa [RoomOp.fit] using Fits.own _ rfl (.inr (.inl rfl))
  | peer type x d hs p hh hp =>
    simpa [RoomOp.fit] using Fits.peer type x d hs p (hpast x hs hh) hp hop
  | tooLarge => exact abortFile_fit
  | busy =>
    intro o ho
    obtain rfl | ho := List.mem_cons.mp ho
    · trivial
    · exact abortFile_fit o ho
  | _ => simp [RoomOp.fit, fileMsg, fileType]

theorem PcNext.fit {past : Handle → Handshake → Prop}
    (hpast : ∀ x hs, s.handshakes x = some hs → past x hs) {pc pc' : Pc D}
    (h : PcNext s c draw pc pc') (hpc : pc.fit past c) : pc'.fit past c := by
  cases h with
  | member r op new k h =>
    intro o ho
    obtain ho | ho := List.mem_append.mp ho
    · exact h.fit hpast (hpc op (by simp)) o ho
    · exact hpc o (by simp [ho])
  | hsRelay r x type x' d hs p hh hp => exact .peer type x' d hs p (hpast x' hs hh) hp hpc
  | fail => exact ⟨rfl, rfl⟩
  | addOwner | hsEnter => simp [Pc.fit, RoomOp.fit]
  | _ => trivial

/-- `x` has been the handshake `hs`. -/
def Made (l : List (Lib.Machine.Transition (State D) (Act D))) (s : State D) (x : Handle)
    (hs : Handshake) : Prop :=
  s.handshakes x = some hs ∨ ∃ t ∈ l, t.before.handshakes x = some hs

omit [Payload D] in
theorem Made.snoc {l : List (Lib.Machine.Transition (State D) (Act D))} {a : Act D} {x : Handle}
    {hs : Handshake} (h : Made l s x hs) : Made (l ++ [⟨s, a, s'⟩]) s' x hs := by
  obtain h | ⟨t, ht, h⟩ := h
  · exact .inr ⟨⟨s, a, s'⟩, by simp, h⟩
  · exact .inr ⟨t, by simp [ht], h⟩

/-- **A goroutine sends to its own client and to those it has had a handshake with.** -/
theorem fit_of_trace {l : List (Lib.Machine.Transition (State D) (Act D))}
    (hl : (relay cfg).Trace l s) (c : ClientId) : (s.conns c).pc.fit (Made l s) c := by
  induction hl with
  | nil => trivial
  | @snoc l s s' a hl hs ih =>
    have hmade : ∀ x hs, Made l s x hs → Made (l ++ [⟨s, a, s'⟩]) s' x hs := fun _ _ h => h.snoc
    generalize hpc : (s'.conns c).pc = pc
    cases hpc ▸ Sound.step_pc hs c with
    | same h => exact Pc.fit_mono hmade ih
    | connected hello ha hd => exact helloPc_fit hello
    | read m _ ha h => exact readFrame_fit h
    | readErr _ ha h => exact readFails_fit h
    | ran draw allow _ ha h => exact Pc.fit_mono hmade (h.fit (fun _ _ => .inl) ih)

/-- **A goroutine holds what its client has sent.** -/
theorem sent_of_trace {l : List (Lib.Machine.Transition (State D) (Act D))}
    (hl : (relay cfg).Trace l s) {c : ClientId} {x : D} (hx : x ∈ (s.conns c).pc.payloads) :
    ∃ t ∈ l, ∃ m, t.label = .frame c m ∧ x ∈ clientPayloads m := by
  induction hl with
  | nil => simp [relay, Pc.payloads] at hx
  | @snoc l s s' a hl hs ih =>
    -- already held, or in the frame just read
    have hold : x ∈ (s.conns c).pc.payloads ∨ ∃ m, a = .frame c m ∧ x ∈ clientPayloads m := by
      generalize hpc : (s'.conns c).pc = pc at hx
      cases hpc ▸ Sound.step_pc hs c with
      | same h => exact .inl hx
      | connected hello ha hd => simp [helloPc_payloads] at hx
      | read m _ ha h => exact .inr ⟨m, ha, readFrame_payloads h hx⟩
      | readErr _ ha h => simp [readFails_payloads h] at hx
      | ran draw allow _ ha h => exact .inl (h.payloads hx)
    obtain h | ⟨m, ha, hm⟩ := hold
    · obtain ⟨t, ht, h⟩ := ih h
      exact ⟨t, by simp [ht], h⟩
    · exact ⟨⟨s, a, s'⟩, by simp, m, ha, hm⟩

end E2EAnon.Relay
