import E2EAnon.Web.Step

/-!
# A tab's view of its room (`onWelcome`, `onPresence`)

`View` is what a session knows of its room: who it is itself, the members and the owner. Only the
welcome and presence frames rewrite it, and `redeem_ok` its first field; every other event leaves
it as it is or ends the session.
-/

namespace E2EAnon.Web

structure View where
  memberId    : Handle
  ownerId     : Handle
  role        : Role
  lastMembers : List MemberInfo
deriving DecidableEq

def Session.view (s : Session) : View := ⟨s.memberId, s.ownerId, s.role, s.lastMembers⟩

/-- The view of the session, if there is one. -/
def Client.view (c : Client) : Option View := c.session.map Session.view

/-- What `onPresence` makes of a view. -/
def View.present (v : View) (members : List MemberInfo) : View where
  memberId := v.memberId
  ownerId := ownerIdOf members
  role := if ownerIdOf members = v.memberId then .owner else .member
  lastMembers := members

namespace Client

variable {c c' : Client} {a : Addr} {k : Addr}

/-! ## The view after each operation -/

theorem modify_view {f : Session → Session} (hf : ∀ s, (f s).view = s.view) :
    (c.modify f).view = c.view := by
  unfold view modify
  cases c.session <;> simp [hf]

@[simp] theorem send_view (m : ClientMsg Data) : (c.send m).view = c.view := by
  simp [view]

@[simp] theorem alloc_view (b : Data) : (c.alloc b).1.view = c.view := rfl

@[simp] theorem draw_view : c.draw.1.view = c.view := rfl

@[simp] theorem wipe_view (as : List Addr) : (c.wipe as).view = c.view := rfl

@[simp] theorem noteSeal_view (d : Option Data) : (c.noteSeal a d).view = c.view := rfl

@[simp] theorem closeSocket_view (sock : Nat) : (c.closeSocket sock).view = c.view := by
  unfold closeSocket
  split <;> rfl

@[simp] theorem pushKey_view : (c.pushKey k).view = c.view := by
  unfold pushKey
  cases hs : c.session with
  | none => simp
  | some s => simp [view, hs, Session.view]

@[simp] theorem teardown_view : c.teardown.view = none := by
  unfold teardown
  cases c.session <;> simp [view]

@[simp] theorem deleteHandshake_view (hsId : Handle) :
    (c.modify (·.deleteHandshake hsId)).view = c.view :=
  modify_view fun _ => rfl

@[simp] theorem setHandshake_view (hsId : Handle) (r : HsRecord) :
    (c.modify (·.setHandshake hsId r)).view = c.view :=
  modify_view fun _ => rfl

@[simp] theorem setPub_view (id : Handle) (pub : Data) :
    (c.modify (·.setPub id pub)).view = c.view :=
  modify_view fun _ => rfl

theorem setKnown_view (g : Session → List Handle) :
    (c.modify fun s => { s with knownMembers := g s }).view = c.view :=
  modify_view fun _ => rfl

@[simp] theorem forget_view (ids : List Handle) : (c.modify (·.forget ids)).view = c.view :=
  modify_view fun _ => rfl

theorem forEach_view {α : Type} {f : Client → α → Client × Bool}
    (hf : ∀ c x, (f c x).1.view = c.view) (l : List α) (c : Client) :
    (forEach f c l).1.view = c.view := by
  induction l generalizing c with
  | nil => rfl
  | cons x l ih =>
    have hx := hf c x
    unfold forEach
    split
    · rename_i c' hc'
      rw [ih, ← hx, hc']
    · rename_i c' hc'
      rw [← hx, hc']

@[simp] theorem rekeyMember_view (id : Handle) : (c.rekeyMember k id).1.view = c.view := by
  unfold rekeyMember
  split
  · rfl
  · split
    · rfl
    · split <;> simp

@[simp] theorem deliverKey_view (joinerId : Handle) (pub : Data) :
    (c.deliverKey joinerId pub k).1.view = c.view := by
  unfold deliverKey
  split
  · rfl
  · split
    · rfl
    · split <;> simp

@[simp] theorem beginHandshake_view (pr : PakeRole) (role : HsRole) (code : Data)
    (hsId joinerId : Handle) : (c.beginHandshake pr role code hsId joinerId).view = c.view := by
  simp [beginHandshake]

/-! ## The handlers that end a session or leave its view -/

/-- The view is as it was, or the session has ended. -/
def Keeps (c c' : Client) : Prop := c'.view = none ∨ c'.view = c.view

theorem Keeps.rfl : Keeps c c := .inr (.refl _)

theorem Keeps.trans {c'' : Client} (h : Keeps c c') (h' : Keeps c' c'') : Keeps c c'' := by
  obtain h' | h' := h'
  · exact .inl h'
  · rw [Keeps, h']
    exact h

theorem onInviteCreated_view (msg : ServerMsg Data) : (c.onInviteCreated msg).view = c.view := by
  unfold onInviteCreated
  split
  · exact modify_view fun _ => rfl
  · rfl

theorem onInviteRedeemed_view (msg : ServerMsg Data) : (c.onInviteRedeemed msg).view = c.view := by
  unfold onInviteRedeemed
  split
  · split
    · rfl
    · rw [beginHandshake_view]
      exact modify_view fun _ => rfl
  · rfl

theorem onVerdict_keeps (hsId : Handle) (r : HsRecord) (v : Verdict) :
    Keeps c (c.onVerdict hsId r v) := by
  cases v with
  | none => exact .rfl
  | confirmed ke =>
    refine .inr ?_
    simp only [onVerdict]
    split <;> simp
  | failed =>
    simp only [onVerdict]
    split
    · exact .inr (by simp)
    · exact .inl (by simp)

theorem onPake_keeps (msg : ServerMsg Data) : Keeps c (c.onPake msg) := by
  unfold onPake
  split
  · split
    · exact .rfl
    · dsimp only
      refine Keeps.trans (.inr ?_) (onVerdict_keeps _ _ _)
      split <;> simp
  · exact .rfl

theorem finishJoin_keeps (hsId : Handle) (r : HsRecord) (d : Data) :
    Keeps c (c.finishJoin hsId r d) := by
  unfold finishJoin
  split
  · exact .rfl
  · split
    · exact .rfl
    · split
      · exact .inl (by simp)
      · exact .inr (by simp)

theorem rotateForJoin_view (joinerId : Handle) (pub : Data) :
    (c.rotateForJoin joinerId pub).1.view = c.view := by
  unfold rotateForJoin
  split
  · rfl
  · rename_i s hs
    dsimp only
    have h1 := deliverKey_view (c := c.generateRoomKey.1.pushKey c.generateRoomKey.2)
      (k := c.generateRoomKey.2) joinerId pub
    rw [pushKey_view] at h1
    split
    · rename_i c' hc'
      rw [hc'] at h1
      exact h1
    · rename_i c' hc'
      rw [hc'] at h1
      have h2 := forEach_view (f := rekeyMember c.generateRoomKey.2) (fun c id => rekeyMember_view id)
        (s.knownMembers.filter fun id => id ≠ s.memberId ∧ id ≠ joinerId) c'
      split
      · rename_i c'' hc''
        rw [hc''] at h2
        exact h2.trans h1
      · rename_i c'' hc''
        rw [hc''] at h2
        exact ((setKnown_view _).trans h2).trans h1

theorem onMemberKey_keeps (msg : ServerMsg Data) : Keeps c (c.onMemberKey msg) := by
  unfold onMemberKey
  split
  · rename_i hsId _ _ _ _
    split
    · exact .rfl
    · rename_i r _
      split
      · exact .rfl
      · split
        · exact .rfl
        · rename_i pub _
          split
          · have h := rotateForJoin_view (c := c.modify (·.setPub r.joinerMemberId pub))
              r.joinerMemberId pub
            rw [setPub_view] at h
            dsimp only
            split
            · rename_i c' hc'
              rw [hc'] at h
              exact .inr (by simpa using h)
            · rename_i c' hc'
              rw [hc'] at h
              exact .inr h
          · have h : Keeps c (c.modify fun s => { s with firstOwnerPub := some pub }) :=
              .inr (modify_view fun _ => rfl)
            split
            · exact h.trans (finishJoin_keeps _ _ _)
            · exact h
  · exact .rfl

theorem onKeyDeliver_keeps (msg : ServerMsg Data) : Keeps c (c.onKeyDeliver msg) := by
  unfold onKeyDeliver
  split
  · split
    · exact .rfl
    · split
      · exact .inr (by simp)
      · exact finishJoin_keeps _ _ _
  · exact .rfl

theorem onRekey_view (msg : ServerMsg Data) : (c.onRekey msg).view = c.view := by
  unfold onRekey
  split
  · split
    · rfl
    · split
      · rfl
      · simp
  · rfl

theorem applyRoster_view (d : Data) : (c.applyRoster d).view = c.view := by
  unfold applyRoster
  split
  · exact modify_view fun _ => rfl
  · rfl

theorem broadcastRoster_view : c.broadcastRoster.view = c.view := by
  unfold broadcastRoster
  split
  · rfl
  · split
    · simp
    · rfl

theorem handleError_keeps (msg : ServerMsg Data) : Keeps c (c.handleError msg) := by
  have gone : Keeps c c.teardown := .inl teardown_view
  unfold handleError
  split
  · exact .rfl
  · split
    · exact gone
    · split
      · split
        · exact .rfl
        · exact gone
      · exact gone

theorem onClose_keeps : Keeps c c.onClose := by
  have gone : Keeps c { c.teardown with intentionalClose := false } := .inl teardown_view
  unfold onClose
  dsimp only
  split
  · exact gone
  · split
    · exact gone
    · exact .rfl

/-! ## The frames that rewrite it -/

theorem onWelcome_view (msg : ServerMsg Data) : (c.onWelcome msg).view = c.view.map fun v =>
    View.present { v with memberId := msg.memberId.getD v.memberId } (msg.members.getD []) := by
  unfold onWelcome view modify
  cases c.session <;> rfl

theorem rotateForLeave_view (removed current : List Handle) :
    (c.rotateForLeave removed current).1.view = c.view := by
  have h : ((c.modify (·.forget removed)).generateRoomKey.1.pushKey
      (c.modify (·.forget removed)).generateRoomKey.2).view = c.view := by
    rw [pushKey_view]
    exact forget_view removed
  unfold rotateForLeave
  dsimp only
  split
  · exact h
  · exact (forEach_view (fun c id => rekeyMember_view id) _ _).trans h

theorem onPresence_view (members : List MemberInfo) :
    (c.onPresence members).view = c.view.map (·.present members) := by
  unfold onPresence
  cases hs : c.session with
  | none => simp [view, hs]
  | some s =>
    dsimp only
    -- the ids, the role and the list come first; what the owner does next leaves them
    have h1 : (c.modify fun s => { s with
        ownerId := ownerIdOf members
        role := if ownerIdOf members = s.memberId then .owner else .member
        lastMembers := members }).view = c.view.map (·.present members) := by
      simp [view, modify, hs, Session.view, View.present]
    split
    · exact h1
    · have h2 : ∀ known, ((c.modify fun s => { s with
          ownerId := ownerIdOf members
          role := if ownerIdOf members = s.memberId then .owner else .member
          lastMembers := members }).modify fun s => { s with knownMembers := known }).view =
          c.view.map (·.present members) :=
        fun known => (setKnown_view fun _ => known).trans h1
      generalize (if ownerIdOf members = s.memberId ∧ s.role ≠ .owner then idsOf members
        else s.knownMembers) = known
      specialize h2 known
      generalize Client.modify (Client.modify c _) _ = c' at h2 ⊢
      generalize known.filter _ = removed
      have h3 : (if removed = [] then (c', true)
          else c'.rotateForLeave removed (idsOf members)).1.view = c'.view := by
        split
        · rfl
        · exact rotateForLeave_view _ _
      split
      · rename_i c'' hc''
        rw [hc''] at h3
        exact h3.trans h2
      · rename_i c'' hc''
        rw [hc''] at h3
        rw [broadcastRoster_view, setKnown_view fun _ => idsOf members]
        exact h3.trans h2

theorem onRedeemOk_view (msg : ServerMsg Data) : (c.onRedeemOk msg).view = c.view ∨
    (c.onRedeemOk msg).view = c.view.map fun v => { v with memberId := msg.memberId.getD empty } := by
  unfold onRedeemOk
  split
  · rename_i s _ _ _ hs _ _
    right
    rw [beginHandshake_view]
    simp [view, modify, hs, Session.view]
  · exact .inl rfl

end Client

/-- A view after a frame, if the frame is acted on. -/
def View.after (msg : ServerMsg Data) (v : View) : View :=
  match msg.type with
  | .welcome => View.present { v with memberId := msg.memberId.getD v.memberId } (msg.members.getD [])
  | .presence => v.present (msg.members.getD [])
  | .redeemOk => { v with memberId := msg.memberId.getD empty }
  | _ => v

namespace Client

variable {c c' : Client}

theorem onMessage_view (msg : ServerMsg Data) : (c.onMessage msg).view = none ∨
    (c.onMessage msg).view = c.view.map (·.after msg) ∨
    (msg.type = .redeemOk ∧ (c.onMessage msg).view = c.view) := by
  -- the frames that leave the view alone
  have other : (∀ v : View, v.after msg = v) → Keeps c (c.onMessage msg) →
      (c.onMessage msg).view = none ∨ (c.onMessage msg).view = c.view.map (·.after msg) ∨
      (msg.type = .redeemOk ∧ (c.onMessage msg).view = c.view) := by
    intro hv h
    obtain h | h := h
    · exact .inl h
    · refine .inr (.inl ?_)
      rw [h]
      cases c.view <;> simp [hv]
  cases hty : msg.type with
  | welcome =>
    right; left
    simpa only [onMessage, hty, View.after] using onWelcome_view msg
  | presence =>
    right; left
    simpa only [onMessage, hty, View.after] using onPresence_view (msg.members.getD [])
  | redeemOk =>
    obtain h | h := onRedeemOk_view (c := c) msg
    · right; right
      exact ⟨rfl, by simpa only [onMessage, hty] using h⟩
    · right; left
      simpa only [onMessage, hty, View.after] using h
  | inviteCreated =>
    exact hty ▸ other (by simp [View.after, hty])
      (by simpa only [onMessage, hty] using .inr (onInviteCreated_view msg))
  | inviteRedeemed =>
    exact hty ▸ other (by simp [View.after, hty])
      (by simpa only [onMessage, hty] using .inr (onInviteRedeemed_view msg))
  | pake =>
    exact hty ▸ other (by simp [View.after, hty])
      (by simpa only [onMessage, hty] using onPake_keeps msg)
  | memberKey =>
    exact hty ▸ other (by simp [View.after, hty])
      (by simpa only [onMessage, hty] using onMemberKey_keeps msg)
  | keyDeliver =>
    exact hty ▸ other (by simp [View.after, hty])
      (by simpa only [onMessage, hty] using onKeyDeliver_keeps msg)
  | rekey =>
    exact hty ▸ other (by simp [View.after, hty])
      (by simpa only [onMessage, hty] using .inr (onRekey_view msg))
  | roster =>
    refine hty ▸ other (by simp [View.after, hty]) (.inr ?_)
    simp only [onMessage, hty]
    split
    · exact applyRoster_view _
    · rfl
  | roomClosed =>
    exact hty ▸ other (by simp [View.after, hty])
      (by simpa only [onMessage, hty] using .inl teardown_view)
  | error =>
    exact hty ▸ other (by simp [View.after, hty])
      (by simpa only [onMessage, hty] using handleError_keeps msg)
  | chat | fileStart | fileChunk | fileEnd | fileAbort =>
    exact hty ▸ other (by simp [View.after, hty])
      (by simpa only [onMessage, hty] using .rfl)

/-! ## The user, the sockets and the tasks -/

theorem submit_view (body : Option Data) (file : Option (String × File)) :
    (c.submit body file).view = c.view := by
  unfold submit
  split
  · rfl
  · split
    · rfl
    · cases body <;> cases file <;> simp [sendText, sendFile, beginUpload, view]

theorem resume_view (u : Nat) (up : Upload) : (c.resume u up).view = c.view := by
  rw [view, resume_session, view]

theorem beginConnect_keeps (hello : ClientMsg Data) : Keeps c (c.beginConnect hello) := by
  unfold beginConnect
  dsimp only
  split
  · exact .inl teardown_view
  · exact .rfl

theorem doLeave_view : c.doLeave.view = none := by
  simp [doLeave]

theorem memberAction_view (m : ClientMsg Data) : (c.memberAction m).view = c.view := by
  unfold memberAction
  split <;> simp

theorem recoverIfSocketDead_keeps : Keeps c c.recoverIfSocketDead := by
  unfold recoverIfSocketDead
  split
  · split
    · exact onClose_keeps (c := { c with intentionalClose := false })
    · exact .rfl
  · exact .rfl

/-- An event that neither brings a frame nor starts a session leaves the view or ends the session. -/
theorem step_keeps {a : Act} (h : c.step a = some c') (hm : ∀ sock msg, a ≠ .message sock msg)
    (hc : ∀ i, a ≠ .connected i) : Keeps c c' := by
  cases a <;> simp only [step] at h
  case create =>
    cases h
    exact beginConnect_keeps _
  case join token code nick session =>
    cases h
    exact beginConnect_keeps (c := { c with pendingJoin := some (token, code) }) _
  case connected i => exact absurd rfl (hc i)
  case submit =>
    cases h
    exact .inr (submit_view _ _)
  case resume u =>
    obtain ⟨up, -, rfl⟩ := Option.map_eq_some_iff.mp h
    exact .inr (resume_view u up)
  case invite | unload =>
    cases h
    exact .inr (send_view _)
  case makeOwner | kick =>
    cases h
    exact .inr (memberAction_view _)
  case leave =>
    split at h
    · cases h
      exact .inl doLeave_view
    · simp at h
  case transferLeave =>
    cases h
    exact .inl doLeave_view
  case opened =>
    split at h
    · cases h
      exact .rfl
    · simp at h
  case message sock msg => exact absurd rfl (hm sock msg)
  case closing =>
    split at h
    · cases h
      exact .inr (closeSocket_view _)
    · simp at h
  case closed sock =>
    split at h
    · cases h
      exact onClose_keeps (c := c.setReady sock .closed)
    · simp at h
  case visible =>
    cases h
    exact recoverIfSocketDead_keeps

end Client
end E2EAnon.Web
