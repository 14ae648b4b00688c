import E2EAnon.Relay.Refine

/-!
# One room per session (`hub.go:78-133`)

A claim is taken before a client creates or joins, and is released from four places, some of which
run in another client's goroutine. `Claims` ties the two together: a claim is filed under the
session id of its client, from the claim's section to the deferred `ClearSession`; a client on its
way into a room, or in one, holds the claim of its session. So a client never has two claims, which
is what `ClearSessionByClient` takes for granted when it deletes the first one it meets.
-/

namespace E2EAnon.Relay

variable {D : Type} {cfg : Config}

theorem lookup_insert_ite {α β : Type*} [DecidableEq α] (k k' : α) (v : β)
    (m : AList (fun _ : α => β)) :
    (m.insert k v).lookup k' = if k' = k then some v else m.lookup k' := by
  split
  · subst_vars
    exact AList.lookup_insert m
  · exact AList.lookup_insert_ne ‹_›

/-! ## Releases -/

section
variable {sid : String} {c : ClientId} {m m' : AList (fun _ : String => SessionClaim)}

/-- A release keeps the claims of other clients. -/
theorem State.ClearsFor.keeps (h : State.ClearsFor sid c m m') {k : String} {sc : SessionClaim}
    (hk : m.lookup k = some sc) (hc : sc.client ≠ c) : m'.lookup k = some sc := by
  obtain ⟨rfl, -⟩ | ⟨k', sc', hk', hc', rfl⟩ := h
  · exact hk
  · have hne : k ≠ k' := by
      rintro rfl
      rw [hk] at hk'
      cases hk'
      exact hc hc'
    rwa [AList.lookup_erase_ne hne]

/-- A release makes no claim. -/
theorem State.ClearsFor.subset (h : State.ClearsFor sid c m m') {k : String} {sc : SessionClaim}
    (hk : m'.lookup k = some sc) : m.lookup k = some sc := by
  obtain ⟨rfl, -⟩ | ⟨k', sc', hk', hc', rfl⟩ := h
  · exact hk
  · by_cases hne : k = k'
    · subst hne
      simp at hk
    · rwa [AList.lookup_erase_ne hne] at hk

/-- After a release the client's session has no claim of it. -/
theorem State.ClearsFor.gone (h : State.ClearsFor sid c m m') (hsid : sid ≠ "")
    (huniq : ∀ k sc, m.lookup k = some sc → sc.client = c → k = sid) {sc : SessionClaim}
    (hk : m'.lookup sid = some sc) : sc.client ≠ c := by
  obtain ⟨rfl, hno⟩ | ⟨k', sc', hk', hc', rfl⟩ := h
  · exact hno sc hk hsid
  · rw [huniq k' sc' hk' hc'] at hk
    simp at hk

end

/-! ## The invariant -/

/-- Between the claim and `Add`. -/
def Phase.entering : Phase D → Bool
  | .creating | .opening _ | .redeeming | .joiner _ => true
  | _ => false

theorem Phase.joining_of_entering {p : Phase D} (h : p.entering = true) : p.joining = true := by
  cases p <;> simp_all [entering, joining]

/-- From the claim to the deferred `ClearSession`. -/
def Phase.claiming : Phase D → Bool
  | .absent | .hello | .over => false
  | _ => true

/-- `c` holds the claim of its session. -/
def Floor.Holds (f : Floor D) (c : ClientId) : Prop :=
  f.session c ≠ "" → ∃ sc, f.sessions.lookup (f.session c) = some sc ∧ sc.client = c

structure Claims (f : Floor D) : Prop where
  keyed : ∀ k sc, f.sessions.lookup k = some sc →
    k = f.session sc.client ∧ k ≠ "" ∧ (f.phase sc.client).claiming = true
  entering : ∀ c, (f.phase c).entering = true → f.Holds c
  member : ∀ r c, c ∈ (f.room r).members → f.panicked c = false → f.Holds c

namespace Claims

variable {may : May} {f f' : Floor D}

theorem keyed_move (h : Claims f) (hi : Inv cfg f) (hm : Move cfg may f f') :
    ∀ k sc, f'.sessions.lookup k = some sc →
      k = f'.session sc.client ∧ k ≠ "" ∧ (f'.phase sc.client).claiming = true := by
  have keyed := h.keyed
  have drawn := hi.drawn
  cases hm <;> first | exact keyed | skip
  all_goals
    intro k sc hk
    simp only [Floor.goto, Floor.setRoom, Floor.note, Floor.close, Function.update_apply] at hk ⊢
    grind -ring -linarith [Phase.claiming, lookup_insert_ite, → State.ClearsFor.subset, → State.ClearsFor.gone]

theorem entering_move (h : Claims f) (hi : Inv cfg f) (hm : Move cfg may f f') :
    ∀ c, (f'.phase c).entering = true → f'.Holds c := by
  have keyed := h.keyed
  have entering := h.entering
  have clearing := hi.clearing
  have pend := hi.pend
  cases hm <;> first | exact entering | skip
  case claim c p hc hp hfree =>
    intro d hd hne
    by_cases hdc : d = c
    · subst hdc
      have hne' : f.session d ≠ "" := hne
      exact ⟨{ client := d }, by simp [Floor.goto, hne', AList.lookup_insert], rfl⟩
    · obtain ⟨sc, hsc, hd'⟩ := entering d (by simpa [Floor.goto, hdc] using hd) hne
      refine ⟨sc, ?_, hd'⟩
      by_cases hs : f.session c = ""
      · simpa [Floor.goto, hs] using hsc
      · -- the session of `c` has no claim yet
        have : f.session d ≠ f.session c := fun he => by
          rw [he, hfree hs] at hsc
          simp at hsc
        simpa [Floor.goto, hs, lookup_insert_ite, this] using hsc
  all_goals
    intro c hc
    simp only [Floor.Holds, Floor.goto, Floor.setRoom, Floor.note, Floor.close,
      Function.update_apply] at hc entering ⊢
    grind -ring -linarith [Phase.entering, → Phase.joining_of_entering, lookup_insert_ite, → State.ClearsFor.keeps,
      Closing.pending]

theorem member_move (h : Claims f) (hi : Inv cfg f) (hm : Move cfg may f f') :
    ∀ r c, c ∈ (f'.room r).members → f'.panicked c = false → f'.Holds c := by
  have keyed := h.keyed
  have entering := h.entering
  have member := h.member
  have mem := hi.mem
  have drawn := hi.drawn
  have clearing := hi.clearing
  have pend := hi.pend
  cases hm <;> first | exact member | skip
  all_goals
    intro r c hc hp
    simp only [Floor.Holds, Floor.goto, Floor.setRoom, Floor.note, Floor.close, Floor.addRoom,
      Floor.dropRoom, Floor.closeRoom, Function.update_apply] at hc hp entering member ⊢
    grind -ring -linarith [Phase.entering, Phase.joining, Phase.serves, lookup_insert_ite, → State.ClearsFor.keeps,
      Closing.pending]

theorem move (h : Claims f) (hi : Inv cfg f) (hm : Move cfg may f f') : Claims f' :=
  ⟨h.keyed_move hi hm, h.entering_move hi hm, h.member_move hi hm⟩

theorem init : Claims ({} : State D).floor := by
  constructor <;> simp [State.floor, Pc.phase, Phase.entering]

end Claims

section
variable [Payload D] {ok : State D → Act D → Prop} {s s' : State D}

theorem claims_of_reach (hr : (relay (D := D) cfg).Reach ok s) : Claims s.floor :=
  hr.invariant (I := fun s => Claims s.floor) Claims.init fun _ _ _ hr' h _ hstep =>
    h.move (sound_of_reach hr').inv ((sound_of_reach hr').step_move hstep)

end

/-! ## What a step takes away -/

/-- Every claim of `s` is still filed for its client in `s'`, unless `a` releases for that client. -/
def Kept (s : State D) (a : Act D) (s' : State D) : Prop :=
  ∀ k sc, s.sessions.lookup k = some sc →
    (∃ sc', s'.sessions.lookup k = some sc' ∧ sc'.client = sc.client) ∨
      s.releases a = some sc.client

theorem Move.keeps_claims {may : May} {f f' : Floor D} (hm : Move cfg may f f') {k : String}
    {sc : SessionClaim} (hk : f.sessions.lookup k = some sc) :
    (∃ sc', f'.sessions.lookup k = some sc' ∧ sc'.client = sc.client) ∨ may.release sc.client := by
  -- a release on behalf of `c` keeps the claims of the others
  have released : ∀ {sid : String} {c : ClientId} {m : AList (fun _ : String => SessionClaim)},
      State.ClearsFor sid c f.sessions m → may.release c →
      (∃ sc', m.lookup k = some sc' ∧ sc'.client = sc.client) ∨ may.release sc.client := by
    intro sid c m h hmay
    by_cases hc : sc.client = c
    · exact .inr (hc ▸ hmay)
    · exact .inl ⟨sc, h.keeps hk hc, rfl⟩
  cases hm <;> try exact .inl ⟨sc, hk, rfl⟩
  case claim c p hc hp hfree =>
    refine .inl ⟨sc, ?_, rfl⟩
    by_cases hs : f.session c = ""
    · simpa [Floor.goto, hs] using hk
    · have hne : k ≠ f.session c := fun he => by
        rw [he, hfree hs] at hk
        simp at hk
      simpa [Floor.goto, hs, lookup_insert_ite, hne] using hk
  case setSessionRoom sid sc' r hsc =>
    refine .inl ?_
    by_cases hks : k = sid
    · subst hks
      rw [hsc] at hk
      cases hk
      exact ⟨{ sc with room := some r }, AList.lookup_insert f.sessions, rfl⟩
    · exact ⟨sc, by simpa [lookup_insert_ite, hks] using hk, rfl⟩
  case kickCleared hclr hmay => exact released hclr hmay
  case closeNext hclr hmay => exact released hclr hmay
  case clearSession hclr hmay => exact released hclr hmay
  case deferSession hclr hmay => exact released hclr hmay

section
variable [Payload D] {s s' : State D}

/-- **One room per session.** As long as no handler panics, a session id is carried by at most one
member, that member holds its claim, nobody holds two claims, and a step takes a claim away only
from the client it releases for. -/
theorem one_room_per_session (hr : (relay (D := D) cfg).Reach Lib.Machine.Any s) (hs : s.Calm) :
    (∀ sid, sid ≠ "" → ∀ c r, (s.conns c).session = sid → c ∈ (s.room r).members →
      (∃ sc, s.sessions.lookup sid = some sc ∧ sc.client = c) ∧
      ∀ c' r', (s.conns c').session = sid → c' ∈ (s.room r').members → c' = c ∧ r' = r) ∧
    (∀ k k' sc sc', s.sessions.lookup k = some sc → s.sessions.lookup k' = some sc' →
      sc.client = sc'.client → k = k') ∧
    ∀ a s', (relay cfg).step s a = some s' → Kept s a s' := by
  have hcl := claims_of_reach hr
  have hinv := (sound_of_reach hr).inv
  have held : ∀ c r, c ∈ (s.room r).members → (s.conns c).session ≠ "" →
      ∃ sc, s.sessions.lookup (s.conns c).session = some sc ∧ sc.client = c :=
    fun c r hc => hcl.member r c hc (not_panicked_of_calm hr hs c)
  refine ⟨?_, ?_, fun a s' h k sc hk => ((sound_of_reach hr).step_move h).keeps_claims hk⟩
  · rintro sid hsid c r rfl hc
    obtain ⟨sc, hsc, hscc⟩ := held c r hc hsid
    refine ⟨⟨sc, hsc, hscc⟩, fun c' r' hs' hc' => ?_⟩
    obtain ⟨sc', hsc', hscc'⟩ := held c' r' hc' (hs' ▸ hsid)
    rw [hs', hsc] at hsc'
    cases hsc'
    obtain rfl : c' = c := hscc'.symm.trans hscc
    exact ⟨rfl, hinv.mem_unique r' r c' hc' hc⟩
  · intro k k' sc sc' hk hk' he
    rw [(hcl.keyed k sc hk).1, (hcl.keyed k' sc' hk').1, he]

end

theorem one_room_per_session_sample :
    ∃ sc, sample.sessions.lookup "s1" = some sc ∧ sc.client = 1 :=
  ((one_room_per_session sample_reach (by decide +kernel)).1 "s1" (by decide) 1 100
    (by decide +kernel) (by decide +kernel)).1

end E2EAnon.Relay
