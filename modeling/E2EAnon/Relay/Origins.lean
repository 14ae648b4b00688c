import E2EAnon.Relay.Authority
import E2EAnon.Relay.Isolation

/-!
# What a frame to a client is made of (`server.go:234-284`, `383-448`)

The relay passes a frame on as the same type, with the same handshake and the same payload: what a
goroutine has in hand to pass on, its client has sent as that (`gist_of_trace`). The handshake that
a joiner's goroutine announces has been made for it (`announced_of_trace`).
-/

namespace E2EAnon.Relay

open Lib

variable {D : Type} {cfg : Config}

/-- A frame's type, its handshake and what it carries. -/
abbrev Gist (D : Type) := ServerType × Option Handle × D

/-- What a client's frame is passed on as. -/
def clientGist : ClientMsg D → Option (Gist D)
  | .msg d => some (.chat, none, d)
  | .pake h d => some (.pake, some h, d)
  | .keyDeliver h d => some (.keyDeliver, some h, d)
  | .memberKey h d => some (.memberKey, some h, d)
  | .rekey _ d => some (.rekey, none, d)
  | .roster d => some (.roster, none, d)
  | .fileStart _ _ d => some (.fileStart, none, d)
  | .fileChunk _ _ d => some (.fileChunk, none, d)
  | _ => none

def gist (m : ServerMsg D) : Option (Gist D) :=
  (m.data.or m.body).map fun d => (m.type, m.handshake, d)

def OwnerReq.gists : OwnerReq D → List (Gist D)
  | .rekey _ d => [(.rekey, none, d)]
  | .roster d => [(.roster, none, d)]
  | _ => []

def RoomOp.gists : RoomOp D → List (Gist D)
  | .relay d => [(.chat, none, d)]
  | .getHandshake type h d => [(type, some h, d)]
  | .send _ m | .broadcastFile m => (gist m).toList
  | .ownerCheck q | .owned q => q.gists
  | .fileStart _ _ d => [(.fileStart, none, d)]
  | .fileChunk _ _ d | .addInflight _ _ _ d | .accept _ _ _ d => [(.fileChunk, none, d)]
  | _ => []

/-- What a goroutine has in hand to pass on. -/
def Pc.gists : Pc D → List (Gist D)
  | .hsRelay _ _ type h d => [(type, some h, d)]
  | .hsSend _ _ _ m | .fail m => (gist m).toList
  | .member _ todo => todo.flatMap RoomOp.gists
  | _ => []

theorem gist_of_payloads {m : ServerMsg D} (h : payloads m = []) : gist m = none := by
  simp only [payloads, List.append_eq_nil_iff, Option.toList_eq_nil_iff] at h
  simp [gist, h]

/-! ## In hand -/

theorem memberFrame_gists {c : ClientId} {m : ClientMsg D} {todo : List (RoomOp D)}
    (h : memberFrame c m = some todo) {x : Gist D} (hx : x ∈ todo.flatMap RoomOp.gists) :
    clientGist m = some x := by
  cases m <;> simp only [memberFrame, Option.some.injEq, reduceCtorEq] at h <;> subst h
  case fileStart | fileChunk | fileEnd | fileAbort =>
    split at hx <;> simp_all [RoomOp.gists, clientGist, gist, fileMsg]
  all_goals simp_all [RoomOp.gists, OwnerReq.gists, clientGist]

theorem readFrame_gists {c : ClientId} {m : ClientMsg D} {pc pc' : Pc D}
    (h : readFrame c m pc = some pc') {x : Gist D} (hx : x ∈ pc'.gists) : clientGist m = some x := by
  unfold readFrame at h
  split at h
  · cases h
    cases m with
    | pake h' d | memberKey h' d => simpa [joinerFrame, Pc.gists, clientGist, eq_comm] using hx
    | enter h' =>
      simp only [joinerFrame] at hx
      split at hx <;> simp [Pc.gists] at hx
    | _ => simp [joinerFrame, Pc.gists] at hx
  · split at h <;> cases h
    · exact memberFrame_gists ‹_› hx
    · simp [Pc.gists] at hx
  · simp at h

theorem readFails_gists {pc pc' : Pc D} (h : readFails pc = some pc') : pc'.gists = [] := by
  unfold readFails at h
  split at h <;> cases h <;> rfl

theorem helloPc_gists (m : ClientMsg D) : (helloPc m).gists = [] := by
  cases m <;> rfl

variable [Payload D] {s s' : State D} {a : Act D} {c d : ClientId} {r : RoomId} {draw : Handle}
  {m : ServerMsg D} {l : List (Machine.Transition (State D) (Act D))}

theorem Expands.gists {op : RoomOp D} {new : List (RoomOp D)} (h : Expands s c r draw op new)
    {x : Gist D} (hx : x ∈ new.flatMap RoomOp.gists) : x ∈ op.gists := by
  cases h with
  | refused q m hm => simp [RoomOp.gists, gist_of_payloads (refusal_payloads hm)] at hx
  | _ => simp_all [RoomOp.gists, OwnerReq.gists, gist, fileMsg, welcomeMsg, abortFile, errorMsg]

theorem PcNext.gists {pc pc' : Pc D} (h : PcNext s c draw pc pc') {x : Gist D}
    (hx : x ∈ pc'.gists) : x ∈ pc.gists := by
  cases h with
  | member r op new k h =>
    simp only [Pc.gists, List.flatMap_append, List.mem_append, List.flatMap_cons] at hx ⊢
    exact hx.imp_left h.gists
  | _ => simp_all [Pc.gists, RoomOp.gists, gist, errorMsg]

/-- **What a goroutine passes on, its client has sent as that.** -/
theorem gist_of_trace (hl : (relay cfg).Trace l s) {x : Gist D} (hx : x ∈ (s.conns c).pc.gists) :
    ∃ t ∈ l, ∃ f, t.label = .frame c f ∧ clientGist f = some x := by
  induction hl with
  | nil => simp [relay, Pc.gists] at hx
  | @snoc l s s' a hl hs ih =>
    have hold : x ∈ (s.conns c).pc.gists ∨ ∃ f, a = .frame c f ∧ clientGist f = some x := by
      generalize hpc : (s'.conns c).pc = pc at hx
      cases hpc ▸ Sound.step_pc hs c with
      | same h => exact .inl hx
      | connected hello ha hd => simp [helloPc_gists] at hx
      | read m _ ha h => exact .inr ⟨m, ha, readFrame_gists h hx⟩
      | readErr _ ha h => simp [readFails_gists h] at hx
      | ran draw allow _ ha h => exact .inl (h.gists hx)
    obtain h | ⟨f, ha, hf⟩ := hold
    · obtain ⟨t, ht, h⟩ := ih h
      exact ⟨t, by simp [ht], h⟩
    · exact ⟨⟨s, a, s'⟩, by simp, f, ha, hf⟩

/-! ## Sent -/

omit [Payload D] in
theorem direct_gist {x : Gist D} (h : s.direct a = some (d, m)) (hx : gist m = some x) :
    ∃ c draw allow, a = .run c draw allow ∧ x ∈ (s.conns c).pc.gists := by
  cases send_cases h with
  | closing | redeemOk | inviteRedeemed | full | kick => simp [gist, errorMsg] at hx
  | fail _ draw allow ha hpc => exact ⟨d, draw, allow, ha, by simp [hpc, Pc.gists, hx]⟩
  | relayed _ c draw allow _ _ ha hpc => exact ⟨c, draw, allow, ha, by simp [hpc, Pc.gists, hx]⟩
  | sent _ c draw allow _ _ ha hpc =>
    exact ⟨c, draw, allow, ha, by simp [hpc, Pc.gists, RoomOp.gists, hx]⟩
  | rekey c draw allow _ _ _ ha hpc =>
    cases hx
    exact ⟨c, draw, allow, ha, by simp [hpc, Pc.gists, RoomOp.gists, OwnerReq.gists]⟩

/-! ## Handshakes -/

/-- The handshake that `runJoiner` announces has been made. -/
def Pc.announced (past : Handle → Handshake → Prop) (c : ClientId) : Pc D → Prop
  | .sendRedeemOk _ r o h | .sendInviteRedeemed _ r o h => past h ⟨r, c, o⟩
  | _ => True

omit [Payload D] in
theorem Pc.announced_of_afterRead {past : Handle → Handshake → Prop} {pc : Pc D}
    (h : pc.afterRead = true) : pc.announced past c := by
  cases pc <;> trivial

omit [Payload D] in
theorem Pc.announced_mono {past past' : Handle → Handshake → Prop}
    (h : ∀ x hs, past x hs → past' x hs) {pc : Pc D} (hpc : pc.announced past c) :
    pc.announced past' c := by
  cases pc <;> first | trivial | exact h _ _ hpc

theorem announced_of_trace (hl : (relay cfg).Trace l s) (c : ClientId) :
    (s.conns c).pc.announced (Made l s) c := by
  induction hl with
  | nil => trivial
  | @snoc l s s' a hl hs ih =>
    have hmade : ∀ x hs, Made l s x hs → Made (l ++ [⟨s, a, s'⟩]) s' x hs := fun _ _ => Made.snoc
    have hold := Pc.announced_mono hmade ih
    generalize hpc : (s'.conns c).pc = pc
    cases hpc ▸ Sound.step_pc hs c with
    | same h => exact hold
    | connected hello ha hd => cases hello <;> trivial
    | read m _ ha h => exact Pc.announced_of_afterRead (readFrame_afterRead h)
    | readErr _ ha h => exact Pc.announced_of_afterRead (readFails_afterRead h)
    | ran draw allow _ ha h =>
      generalize hpc₀ : (s.conns c).pc = pc₀ at h hold
      cases h with
      | newHandshake tok r o hd =>
        obtain ⟨c', draw', allow', tok', r', o', ha', hpc', -, -, he⟩ | hkeep :=
          step_handshakes (sound_of_reach hl.reach) hs
        · cases ha.symm.trans ha'
          cases hpc₀.symm.trans hpc'
          exact .inl (by simp [he])
        · refine .inl ?_
          subst ha
          simp only [relay, step, hpc₀, runPc, State.drawId, if_neg hd, Option.bind_eq_bind,
            Option.bind_some, Option.some.injEq] at hs
          rw [← hs]
          simp [State.newHandshake, State.goto, State.setConn]
      | sendRedeemOk tok r o x => exact hold
      | _ => trivial

end E2EAnon.Relay
