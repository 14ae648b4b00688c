import E2EAnon.Web.Guess

/-!
# Events of sockets that are no longer the session's (`main.ts:171-228`, `:569-609`)

The listeners of a socket do not look whether it is still the session's: `onMessage` and `onClose`
work on the session there is now. `Unhurt` says that a step does no harm to a newer attempt:

- an event of another socket leaves the session and the invite as they are;
- the teardown of the earlier session by a new submission keeps the invite just submitted;
- while an invite waits for its connection, nothing takes it away.

`Orderly` is what has to hold before a step for that. `closed_iff` and `join_iff` show that it is
exact for the close event, which comes late after every leave, and for a second submission.
-/

namespace E2EAnon.Web

open Lib

variable {a : Act} {c c' : Client} {who : Nat} {l : List (Machine.Transition Client Act)}

/-- The socket an event comes from. -/
def Act.socket : Act → Option Nat
  | .opened sock | .message sock _ | .closing sock | .closed sock => some sock
  | _ => none

/-- The event comes from a socket that is not the session's. -/
def Client.Stale (c : Client) (a : Act) : Prop := ∃ sock ∈ a.socket, ∀ s ∈ c.session, s.sock ≠ sock

/-- The token a hello redeems. -/
def redeems : ClientMsg Data → Option Handle
  | .redeem token _ _ => some token
  | _ => none

/-- The invite that was submitted waits for its connection. -/
def Client.Waiting (c : Client) : Prop :=
  ∃ hello ∈ c.connects, ∃ j ∈ c.pendingJoin, redeems hello = some j.1

/-- A message that ends an attempt. -/
def endsAttempt (msg : ServerMsg Data) : Prop :=
  msg.type = .roomClosed ∨ (msg.type = .error ∧ msg.reason ≠ some .fileRejected)

/-- The tab is in a room and expects a socket to close. -/
def Client.Closing (c : Client) : Prop :=
  (c.session.any fun s => s.room ≠ empty) ∧ c.intentionalClose

/-- The tab takes nothing from the event. -/
def Client.Passes (c : Client) : Act → Prop
  | .message _ msg =>
    msg.type = .chat ∨ (c.session = none ∧ (c.pendingJoin = none ∨ ¬ endsAttempt msg))
  | .closed _ => c.Closing ∨ (c.session = none ∧ c.pendingJoin = none)
  | _ => True

/-- The click on "transfer and leave". -/
def Act.isTransferLeave : Act → Bool
  | .transferLeave _ => true
  | _ => false

structure Orderly (c : Client) (a : Act) : Prop where
  stale   : c.Stale a → c.Passes a
  join    : a.isJoin = true → c.session = none
  waiting : c.Waiting → c.session = none ∧ a.isTransferLeave = false

structure Unhurt (c : Client) (a : Act) (c' : Client) : Prop where
  stale   : c.Stale a → c'.session = c.session ∧ c'.pendingJoin = c.pendingJoin
  join    : ∀ token code nick session, a = .join token code nick session →
    c'.pendingJoin = some (token, code)
  waiting : c.Waiting → a.isJoin = false → c'.pendingJoin = c.pendingJoin

section
variable (c : Client) (a : Act)

instance staleDecidable : Decidable (c.Stale a) :=
  inferInstanceAs (Decidable (∃ sock ∈ a.socket, ∀ s ∈ c.session, s.sock ≠ sock))

instance waitingDecidable : Decidable c.Waiting :=
  inferInstanceAs (Decidable (∃ hello ∈ c.connects, ∃ j ∈ c.pendingJoin, redeems hello = some j.1))

instance endsAttemptDecidable (msg : ServerMsg Data) : Decidable (endsAttempt msg) :=
  inferInstanceAs (Decidable (_ ∨ _))

instance closingDecidable : Decidable c.Closing := inferInstanceAs (Decidable (_ ∧ _))

instance passesDecidable : Decidable (c.Passes a) :=
  match a with
  | .message _ _ => inferInstanceAs (Decidable (_ ∨ _))
  | .closed _ => inferInstanceAs (Decidable (_ ∨ _))
  | .create _ _ | .join _ _ _ _ | .connected _ | .submit _ _ | .resume _ | .invite | .makeOwner _
  | .kick _ | .leave | .transferLeave _ | .unload | .opened _ | .closing _ | .visible =>
    .isTrue trivial

instance orderlyDecidable : Decidable (Orderly c a) :=
  decidable_of_iff ((c.Stale a → c.Passes a) ∧ (a.isJoin = true → c.session = none) ∧
    (c.Waiting → c.session = none ∧ a.isTransferLeave = false))
    ⟨fun h => ⟨h.1, h.2.1, h.2.2⟩, fun h => ⟨h.stale, h.join, h.waiting⟩⟩

end

/-! ## One event -/

/-- `onClose` keeps the attempt if and only if it is none, or the tab expects a close. -/
theorem onClose_iff : (c.onClose.session = c.session ∧ c.onClose.pendingJoin = c.pendingJoin) ↔
    c.Closing ∨ (c.session = none ∧ c.pendingJoin = none) := by
  unfold Client.onClose Client.Closing
  cases hs : c.session with
  | none => cases c.pendingJoin <;> simp
  | some s =>
    by_cases hr : s.room = empty
    · simp [hr]
    · cases c.intentionalClose <;> simp [hr, hs]

theorem closed_iff {sock : Nat} (h : c.step (.closed sock) = some c') :
    (c'.session = c.session ∧ c'.pendingJoin = c.pendingJoin) ↔ c.Passes (.closed sock) := by
  simp only [Client.step] at h
  split at h
  · cases h
    exact onClose_iff (c := c.setReady sock .closed)
  · cases h

theorem join_iff {token : Handle} {code : Data} {nick session : String}
    (h : c.step (.join token code nick session) = some c') :
    c'.pendingJoin = some (token, code) ↔ c.session = none := by
  simp only [Client.step, Option.some.injEq] at h
  subst h
  cases c.session <;> simp [Client.beginConnect]

/-- Without a session a message is dropped, but for those that end an attempt. -/
theorem onMessage_none (hs : c.session = none) (msg : ServerMsg Data) :
    (c.onMessage msg).session = none ∧
      ((c.onMessage msg).pendingJoin = c.pendingJoin ∨
        (endsAttempt msg ∧ (c.onMessage msg).pendingJoin = none)) := by
  unfold Client.onMessage
  split
  case h_1 => simp [Client.onWelcome, Client.modify, hs]
  case h_2 => simp [Client.onPresence, hs]
  case h_3 => simp [Client.onInviteCreated, hs]
  case h_4 => simp [Client.onInviteRedeemed, hs]
  case h_5 => simp [Client.onRedeemOk, hs]
  case h_6 => simp [Client.onPake, hs]
  case h_7 => simp [Client.onMemberKey, hs]
  case h_8 => simp [Client.onKeyDeliver, hs]
  case h_9 => simp [Client.onRekey, hs]
  case h_10 => split <;> simp [Client.applyRoster, Client.decryptAny, hs]
  case h_11 ht => exact ⟨by simp, .inr ⟨.inl ht, by simp⟩⟩
  case h_12 ht =>
    by_cases hr : msg.reason = some .fileRejected
    · simp [Client.handleError, hr, hs]
    · have he : c.handleError msg = c.teardown := by
        simp only [Client.handleError, hr, if_false, hs]
        split <;> rfl
      exact ⟨by simp [he], .inr ⟨.inr ⟨ht, hr⟩, by simp [he]⟩⟩
  all_goals exact ⟨hs, .inl rfl⟩

theorem step_stale (h : c.step a = some c') (hp : c.Passes a) (hs : c.Stale a) :
    c'.session = c.session ∧ c'.pendingJoin = c.pendingJoin := by
  cases a with
  | opened sock =>
    simp only [Client.step] at h
    split at h
    · cases h
      exact ⟨rfl, rfl⟩
    · cases h
  | message sock msg =>
    simp only [Client.step] at h
    split at h
    · cases h
      obtain ht | ⟨hnone, hj⟩ := hp
      · simp [Client.onMessage, ht]
      · obtain ⟨hsess, hjoin⟩ := onMessage_none hnone msg
        refine ⟨hsess.trans hnone.symm, hjoin.elim id fun hends => ?_⟩
        obtain hj | hj := hj
        · exact hends.2.trans hj.symm
        · exact absurd hends.1 hj
    · cases h
  | closing sock =>
    simp only [Client.step] at h
    split at h
    · cases h
      unfold Client.closeSocket
      split <;> exact ⟨rfl, rfl⟩
    · cases h
  | closed sock => exact (closed_iff h).mpr hp
  | _ => simp [Client.Stale, Act.socket] at hs

@[simp] theorem Client.resume_pendingJoin (c : Client) (u : Nat) (up : Upload) :
    (c.resume u up).pendingJoin = c.pendingJoin := by
  unfold Client.resume
  split
  · simp [Client.sendChunk, Client.noteSeal]
  · split
    · rfl
    · split <;> simp [Client.sendChunk, Client.noteSeal, Client.dropUpload]

/-- What happens to an invite that waits, when there is no session. -/
theorem step_waiting (h : c.step a = some c') (ho : Orderly c a) (hw : c.Waiting)
    (hj : a.isJoin = false) : c'.pendingJoin = c.pendingJoin := by
  obtain ⟨hs, ht⟩ := ho.waiting hw
  have hstale : ∀ sock, a.socket = some sock → c'.pendingJoin = c.pendingJoin := by
    intro sock hsock
    have hst : c.Stale a := ⟨sock, hsock, fun s hs' => by simp [hs] at hs'⟩
    exact (step_stale h (ho.stale hst) hst).2
  cases a with
  | opened sock => exact hstale sock rfl
  | message sock msg => exact hstale sock rfl
  | closing sock => exact hstale sock rfl
  | closed sock => exact hstale sock rfl
  | join => cases hj
  | transferLeave => cases ht
  | create nick session =>
    cases h
    simp [Client.beginConnect, hs]
  | connected i =>
    simp only [Client.step] at h
    split at h
    · cases h
      unfold Client.endConnect
      split
      · simp [Client.firstKey, Client.openSession, Client.generateKeyPair, Client.draw, Client.alloc,
          Client.generateRoomKey]
      · rfl
    · cases h
  | submit body file =>
    cases h
    simp [Client.submit, hs]
  | resume u =>
    obtain ⟨up, -, rfl⟩ := Option.map_eq_some_iff.mp h
    simp
  | invite =>
    cases h
    simp
  | makeOwner id =>
    cases h
    simp [Client.memberAction, hs]
  | kick id =>
    cases h
    simp [Client.memberAction, hs]
  | leave => simp [Client.step, hs] at h
  | unload =>
    cases h
    simp
  | visible =>
    cases h
    simp [Client.recoverIfSocketDead, hs]

theorem unhurt_of_orderly (h : c.step a = some c') (ho : Orderly c a) : Unhurt c a c' := by
  refine ⟨fun hs => step_stale h (ho.stale hs) hs, fun token code nick session ha => ?_,
    fun hw hj => step_waiting h ho hw hj⟩
  subst ha
  exact (join_iff h).mpr (ho.join rfl)

/-! ## Runs -/

/-- No harm in a whole run. -/
structure Unharmed (l : List (Machine.Transition Client Act)) (c : Client) : Prop where
  steps : ∀ t ∈ l, Unhurt t.before t.label t.after
  /-- However many late events come. -/
  late : ∀ l₁ t l₂, l = l₁ ++ t :: l₂ → (∀ u ∈ t :: l₂, u.before.Stale u.label) →
    c.session = t.before.session ∧ c.pendingJoin = t.before.pendingJoin
  /-- An invite that has been submitted is there when its connection is made. -/
  kept : ∀ l₁ t l₂ token code nick session, l = l₁ ++ t :: l₂ →
    t.label = .join token code nick session →
      (∀ u ∈ l₂, u.before.Waiting ∧ u.label.isJoin = false) → c.pendingJoin = some (token, code)

/-- **Stale sockets do not hurt a newer attempt**, in a run whose steps are orderly. -/
theorem stale_harmless (hl : (machine who).Trace l c)
    (ho : ∀ t ∈ l, Orderly t.before t.label) : Unharmed l c := by
  have hsteps : ∀ t ∈ l, Unhurt t.before t.label t.after := fun t ht =>
    unhurt_of_orderly (hl.mem ht).2 (ho t ht)
  clear ho
  refine ⟨hsteps, fun l₁ t l₂ he hs => ?_, fun l₁ t l₂ token code nick session he ht hw => ?_⟩
  · induction l₂ using List.reverseRecOn generalizing l c with
    | nil =>
      obtain ⟨-, -, rfl⟩ := Machine.Trace.last (he ▸ hl)
      exact (hsteps t (by simp [he])).stale (hs t (by simp))
    | append_singleton l₂ u ih =>
      have he' : l = (l₁ ++ t :: l₂) ++ [u] := by simp [he]
      obtain ⟨hfront, -, rfl⟩ := Machine.Trace.last (he' ▸ hl)
      obtain ⟨hsess, hjoin⟩ := ih hfront (fun t' ht' => hsteps t' (he' ▸ List.mem_append_left _ ht')) rfl
        fun t' ht' => hs t' (by simpa using Or.imp_right Or.inl (List.mem_cons.mp ht'))
      obtain ⟨hsess', hjoin'⟩ := (hsteps u (by simp [he'])).stale (hs u (by simp))
      exact ⟨hsess'.trans hsess, hjoin'.trans hjoin⟩
  · induction l₂ using List.reverseRecOn generalizing l c with
    | nil =>
      obtain ⟨-, -, rfl⟩ := Machine.Trace.last (he ▸ hl)
      exact (hsteps t (by simp [he])).join token code nick session ht
    | append_singleton l₂ u ih =>
      have he' : l = (l₁ ++ t :: l₂) ++ [u] := by simp [he]
      obtain ⟨hfront, -, rfl⟩ := Machine.Trace.last (he' ▸ hl)
      have hjoin := ih hfront (fun t' ht' => hsteps t' (he' ▸ List.mem_append_left _ ht')) rfl
        fun t' ht' => hw t' (by simp [ht'])
      obtain ⟨hwait, hno⟩ := hw u (by simp)
      exact ((hsteps u (by simp [he'])).waiting hwait hno).trans hjoin

/-! ## Examples -/

/-- A tab leaves its room and joins another one after the old socket has closed. -/
def joinedAfterClose : List Act :=
  [.create "ann" "", .connected 0, .opened 0,
    .message 0 { type := .welcome, room := some 9, memberId := some 1
                 members := some [⟨1, "ann", .owner⟩] },
    .leave, .closed 0, .join 6 zeros "ann" "", .connected 0, .opened 1]

theorem joinedAfterClose_some :
    ((machine 1).stepsFrom (machine 1).init joinedAfterClose).isSome = true := by
  decide +kernel

theorem stale_harmless_sample :
    let p := ((machine 1).stepsFrom (machine 1).init joinedAfterClose).get joinedAfterClose_some
    p.2.pendingJoin = some (6, zeros) ∧ Unharmed p.1 p.2 :=
  ⟨by decide +kernel, stale_harmless (Machine.trace_get joinedAfterClose_some) (by decide +kernel)⟩

/-- It does so before the close event of the old socket. -/
def joinedBeforeClose : List Act :=
  [.create "ann" "", .connected 0, .opened 0,
    .message 0 { type := .welcome, room := some 9, memberId := some 1
                 members := some [⟨1, "ann", .owner⟩] },
    .leave, .join 6 zeros "ann" "", .connected 0, .closed 0]

theorem joinedBeforeClose_some :
    ((machine 1).stepsFrom (machine 1).init joinedBeforeClose).isSome = true := by
  decide +kernel

/-- It submits the invite twice. -/
def joinedTwice : List Act := [.join 6 zeros "ann" "", .connected 0, .join 6 zeros "ann" ""]

theorem joinedTwice_some : ((machine 1).stepsFrom (machine 1).init joinedTwice).isSome = true := by
  decide +kernel

/-- The late close event of the room that was left ends the new session and takes its invite away,
and so does the teardown by a second submission. -/
theorem late_close_ends_new_session :
    (∃ l c, (machine 1).Trace l c ∧ ∃ t ∈ l, t.before.Stale t.label ∧
      t.before.session.isSome = true ∧ t.before.pendingJoin = some (6, zeros) ∧
      t.after.session = none ∧ t.after.pendingJoin = none) ∧
    ∃ l c, (machine 1).Trace l c ∧ ∃ t ∈ l, t.label = .join 6 zeros "ann" "" ∧
      t.after.pendingJoin = none := by
  refine ⟨⟨_, _, Machine.trace_get joinedBeforeClose_some, ?_⟩,
    ⟨_, _, Machine.trace_get joinedTwice_some, ?_⟩⟩
  · have hlast : ∃ t, (((machine 1).stepsFrom (machine 1).init joinedBeforeClose).get
        joinedBeforeClose_some).1[7]? = some t ∧ t.label = .closed 0 ∧
        t.before.session.map Session.sock = some 1 ∧ t.before.pendingJoin = some (6, zeros) ∧
        t.after.session = none ∧ t.after.pendingJoin = none :=
      ⟨_, (Option.some_get (by decide +kernel)).symm, by decide +kernel⟩
    obtain ⟨t, ht, hlabel, hsock, hjoin, hafter⟩ := hlast
    obtain ⟨s, hs, hsock⟩ := Option.map_eq_some_iff.mp hsock
    refine ⟨t, List.mem_of_getElem? ht, ⟨0, by rw [hlabel]; rfl, fun s' hs' => ?_⟩, by simp [hs],
      hjoin, hafter⟩
    cases hs.symm.trans hs'
    simp [hsock]
  · have hlast : ∃ t, (((machine 1).stepsFrom (machine 1).init joinedTwice).get
        joinedTwice_some).1[2]? = some t ∧ t.label = .join 6 zeros "ann" "" ∧
        t.after.pendingJoin = none :=
      ⟨_, (Option.some_get (by decide +kernel)).symm, by decide +kernel⟩
    obtain ⟨t, ht, hafter⟩ := hlast
    exact ⟨t, List.mem_of_getElem? ht, hafter⟩

end E2EAnon.Web
