import E2EAnon.Relay.Admission
import E2EAnon.Relay.Inflight
import E2EAnon.Relay.Order
import E2EAnon.Relay.Refusal

/-!
# The partner of a handshake (`server.go:206-231`, `383-411`, `invites.go:11-41`)

The client that asked for an invite is the only one that holds its code, but an invite records only
its room: `runJoiner` pairs the joiner with whoever owns the room when the token is redeemed. After a
transfer that is another client, which has no code for the token (`stale_token`); and the owner may
be one whose session is over and whose goroutine has yet to leave the room. `issuerServes` is the
condition under which the partner is the issuer, can run the handshake and is told so. Then a token
whose issuer's session is over is refused (`refused_of_trace`).
-/

namespace E2EAnon.Relay

open Lib

variable {D : Type} {cfg : Config}

/-- The event of `o`'s own request for `tok`. -/
def Event.issues (o : ClientId) (r : RoomId) (tok : Handle) : Event → Bool
  | .inviteCreated c r' tok' _ => c = o ∧ r' = r ∧ tok' = tok
  | _ => false

/-- The event of `c`'s redeem of `tok`. -/
def Event.redeems (c : ClientId) (r : RoomId) (tok : Handle) : Event → Bool
  | .redeemed d r' tok' _ => d = c ∧ r' = r ∧ tok' = tok
  | _ => false

/-- `c` redeemed `tok` for `r`, which `o` had asked for. -/
def Redeems (log : List Event) (c : ClientId) (r : RoomId) (tok : Handle) : Prop :=
  log.any (·.redeems c r tok) = true

def Issues (log : List Event) (o : ClientId) (r : RoomId) (tok : Handle) : Prop :=
  log.any (·.issues o r tok) = true

instance decidableRedeems (log : List Event) (c : ClientId) (r : RoomId) (tok : Handle) :
    Decidable (Redeems log c r tok) := inferInstanceAs (Decidable (_ = true))

instance decidableIssues (log : List Event) (o : ClientId) (r : RoomId) (tok : Handle) :
    Decidable (Issues log o r tok) := inferInstanceAs (Decidable (_ = true))

/-- In `memberLoop`. -/
def Phase.inLoop : Phase D → Bool
  | .member _ | .acting _ _ | .clearing _ _ => true
  | _ => false

/-- `o` can run a handshake: it is in `memberLoop`, with its channel and its socket open. -/
def State.attends (s : State D) (o : ClientId) : Bool :=
  (s.conns o).pc.phase.inLoop && !(s.conns o).outClosed && !(s.conns o).sockClosed

def Pc.issuerServes (s : State D) : Pc D → Bool
  | .ownerClient tok r =>
    (s.ownerClient r).all fun o => s.log.any (·.issues o r tok) && s.attends o
  | .newHandshake _ _ o | .sendRedeemOk _ _ o _ => s.attends o
  | .sendInviteRedeemed _ _ o _ =>
    s.attends o && decide ((s.conns o).out.length < outboundBuffer)
  | _ => true

/-- When a redeem looks up the room's owner, that is the client that asked for the token; from then
until it is told it can run the handshake; and its queue has room for the frame that tells it. -/
def State.issuerServes (s : State D) : Act D → Bool
  | .run c _ _ => (s.conns c).pc.issuerServes s
  | _ => true

/-- `m` has been queued to `d`. -/
def Queued (l : List (Machine.Transition (State D) (Act D))) (d : ClientId) (m : ServerMsg D) :
    Prop :=
  ∃ t ∈ l, (t.after.conns d).out = (t.before.conns d).out ++ [m]

theorem Queued.snoc {l : List (Machine.Transition (State D) (Act D))} {d : ClientId}
    {m : ServerMsg D} (h : Queued l d m) (t : Machine.Transition (State D) (Act D)) :
    Queued (l ++ [t]) d m := by
  obtain ⟨u, hu, h⟩ := h
  exact ⟨u, by simp [hu], h⟩

/-- The owner has been told that `c` has redeemed `tok`. -/
def Told (l : List (Machine.Transition (State D) (Act D))) (o c : ClientId) (tok h : Handle) :
    Prop :=
  ∃ m, Queued l o m ∧ m.type = .inviteRedeemed ∧ m.handshake = some h ∧ m.token = some tok ∧
    m.memberId = some c

/-! ## Who asked for a token -/

theorem issues_cons {log : List Event} {e : Event} {o : ClientId} {r : RoomId} {tok : Handle} :
    Issues (e :: log) o r tok ↔ (∃ exp, e = .inviteCreated o r tok exp) ∨ Issues log o r tok := by
  simp only [Issues, List.any_cons, Bool.or_eq_true]
  refine or_congr_left ?_
  cases e <;> simp [Event.issues]

structure Tokens (f : Floor D) : Prop where
  drawn : ∀ o r tok, Issues f.log o r tok → tok ∈ f.drawn
  unique : ∀ o r tok o' r', Issues f.log o r tok → Issues f.log o' r' tok → o = o' ∧ r = r'

theorem Tokens.move {may : May} {f f' : Floor D} (h : Tokens f) (hm : Move cfg may f f') :
    Tokens f' := by
  obtain ⟨drawn, unique⟩ := h
  cases hm <;> first | exact ⟨drawn, unique⟩ | skip
  all_goals
    refine ⟨?_, ?_⟩ <;>
      simp only [Floor.goto, Floor.setRoom, Floor.note, issues_cons, reduceCtorEq,
        exists_false, false_or, Event.inviteCreated.injEq] <;>
      grind -ring -linarith

variable [Payload D] {s s' : State D} {l : List (Machine.Transition (State D) (Act D))}

theorem tokens_of_reach {ok : State D → Act D → Prop} (hr : (relay cfg).Reach ok s) :
    Tokens s.floor :=
  hr.invariant (I := fun s => Tokens s.floor) (by constructor <;> simp [State.floor, relay, Issues])
    fun _ _ _ hr' h _ hstep => h.move ((sound_of_reach hr').step_move hstep)

/-- A client redeems one token. -/
theorem redeems_iff (hr : (relay cfg).Reach Machine.Any s) {c : ClientId} {r : RoomId}
    {tok : Handle} (h : Redeems s.log c r tok) (tok' : Handle) (r' : RoomId) :
    Redeems s.log c r' tok' ↔ tok' = tok ∧ r' = r := by
  have mem : ∀ {r tok}, Redeems s.log c r tok → ∃ now, .redeemed c r tok now ∈ s.log := by
    intro r tok h
    obtain ⟨e, he, hred⟩ := List.any_eq_true.mp h
    cases e <;> simp [Event.redeems] at hred
    obtain ⟨rfl, rfl, rfl⟩ := hred
    exact ⟨_, he⟩
  constructor
  · intro h'
    obtain ⟨now, hn⟩ := mem h
    obtain ⟨now', hn'⟩ := mem h'
    obtain rfl := (admission_of_reach hr).single c r' tok' now' r tok now hn' hn
    exact ⟨rfl, ((admission_of_reach hr).once c r' tok' now' c r now hn' hn).2⟩
  · rintro ⟨rfl, rfl⟩
    exact h

theorem issues_iff (hr : (relay cfg).Reach Machine.Any s) {o : ClientId} {r : RoomId}
    {tok : Handle} (h : Issues s.log o r tok) (o' : ClientId) (r' : RoomId) :
    Issues s.log o' r' tok ↔ o' = o ∧ r' = r := by
  constructor
  · exact fun h' => (tokens_of_reach hr).unique o' r' tok o r h' h
  · rintro ⟨rfl, rfl⟩
    exact h

/-! ## From the redeem to the partner -/

/-- What `runJoiner` knows at each point. -/
def Pc.knows (log : List Event) (c : ClientId) : Pc D → Prop
  | .getRoom tok r | .hasCapacity tok r | .ownerClient tok r => Redeems log c r tok
  | .newHandshake tok r o | .sendRedeemOk tok r o _ | .sendInviteRedeemed tok r o _ =>
    Redeems log c r tok ∧ Issues log o r tok
  | _ => True

omit [Payload D] in
theorem Pc.knows_mono {log log' : List Event} (h : ∀ e ∈ log, e ∈ log') {c : ClientId} {pc : Pc D}
    (hk : pc.knows log c) : pc.knows log' c := by
  have grow : ∀ p : Event → Bool, log.any p = true → log'.any p = true := by
    intro p hp
    obtain ⟨e, he, hpe⟩ := List.any_eq_true.mp hp
    exact List.any_eq_true.mpr ⟨e, h e he, hpe⟩
  cases pc <;> first | exact trivial | exact grow _ hk | exact ⟨grow _ hk.1, grow _ hk.2⟩

omit [Payload D] in
theorem Pc.knows_of_afterRead {log : List Event} {c : ClientId} {pc : Pc D}
    (h : pc.afterRead = true) : pc.knows log c := by
  cases pc <;> trivial

/-- A redeem is on record. -/
theorem redeem_logged {c : ClientId} {draw : Handle} {allow : Bool} {tok tok' : Handle} {r : RoomId}
    (h : step cfg s (.run c draw allow) = some s') (hpc : (s.conns c).pc = .redeemInvite tok)
    (hpc' : (s'.conns c).pc = .getRoom tok' r) : Redeems s'.log c r tok' := by
  simp only [step, hpc, runPc, State.redeemInvite] at h
  cases hinv : s.invites tok with
  | none =>
    rw [hinv] at h
    cases h
    simp [State.goto, State.setConn] at hpc'
  | some inv =>
    rw [hinv] at h
    by_cases hexp : s.now > inv.expiresAt
    · simp only [if_pos hexp, Option.some.injEq] at h
      subst h
      simp [State.goto, State.setConn] at hpc'
    · simp only [if_neg hexp, Option.some.injEq] at h
      subst h
      simp only [State.goto, State.setConn, State.note, Function.update_self, Pc.getRoom.injEq] at hpc'
      simp [Redeems, Event.redeems, State.goto, State.setConn, State.note, hpc']

theorem knows_step (hs : Sound cfg s) {a : Act D} (h : step cfg s a = some s')
    (hok : s.issuerServes a = true) (ih : ∀ c, (s.conns c).pc.knows s.log c) (c : ClientId) :
    (s'.conns c).pc.knows s'.log c := by
  have hlog : ∀ e ∈ s.log, e ∈ s'.log := fun e he => (hs.step_move h).log_mono he
  have hkeep := Pc.knows_mono hlog (ih c)
  generalize hpc : (s'.conns c).pc = pc
  cases hpc ▸ Sound.step_pc h c with
  | same _ => exact hkeep
  | connected hello ha hd => cases hello <;> trivial
  | read m _ ha hr => exact Pc.knows_of_afterRead (readFrame_afterRead hr)
  | readErr _ ha hr => exact Pc.knows_of_afterRead (readFails_afterRead hr)
  | ran draw allow _ ha hn =>
    subst ha
    generalize hpc₀ : (s.conns c).pc = pc₀ at hn hkeep
    cases hn with
    | redeemInvite tok inv hinv => exact redeem_logged h hpc₀ hpc
    | ownerClient tok r o ho =>
      -- the look-up found the issuer
      simp only [State.issuerServes, hpc₀, Pc.issuerServes, ho, Option.all_some] at hok
      refine ⟨hkeep, ?_⟩
      obtain ⟨e, he, hi⟩ := List.any_eq_true.mp ((Bool.and_eq_true _ _).mp hok).1
      exact List.any_eq_true.mpr ⟨e, hlog e he, hi⟩
    | getRoom | hasCapacity | newHandshake | sendRedeemOk => exact hkeep
    | _ => trivial

/-- The relay's answers and handshakes so far are for the issuers of their tokens. -/
structure Paired (l : List (Machine.Transition (State D) (Act D))) (s : State D) : Prop where
  knows : ∀ c, (s.conns c).pc.knows s.log c
  made : ∀ x hs, Made l s x hs →
    ∃ tok, Redeems s.log hs.joiner hs.room tok ∧ Issues s.log hs.owner hs.room tok
  answered : ∀ c m h, Queued l c m → m.type = .redeemOk → m.handshake = some h →
    ∃ tok r o, Redeems s.log c r tok ∧ Issues s.log o r tok ∧
      ((s.conns c).pc = .sendInviteRedeemed tok r o h ∨ Told l o c tok h)

/-- The issuer is told in the next section of the joiner's goroutine. -/
theorem told_step (hs : Sound cfg s) {a : Act D} (h : step cfg s a = some s')
    (hok : s.issuerServes a = true) {c : ClientId} {tok : Handle} {r : RoomId} {o : ClientId}
    {x : Handle} (hpc : (s.conns c).pc = .sendInviteRedeemed tok r o x) :
    (s'.conns c).pc = .sendInviteRedeemed tok r o x ∨ Told (l ++ [⟨s, a, s'⟩]) o c tok x := by
  generalize hpc' : (s'.conns c).pc = pc
  cases hpc' ▸ Sound.step_pc h c with
  | same _ => exact .inl hpc
  | connected hello ha hd =>
    have := hs.inv.drawn c hd
    simp [State.floor, hpc, Pc.phase] at this
  | read m _ ha hr => simp [hpc, readFrame] at hr
  | readErr _ ha hr => simp [hpc, readFails] at hr
  | ran draw allow _ ha hn =>
    subst ha
    simp only [State.issuerServes, hpc, Pc.issuerServes, State.attends, Bool.and_eq_true,
      Bool.not_eq_true', decide_eq_true_eq] at hok
    have hout := hs.step_out h o
    have hp : s.posts (.run c draw allow) o = some
        { type := .inviteRedeemed, handshake := some x, nick := some (s.conns c).nick,
          token := some tok, memberId := some c } := by
      simp [State.posts, State.posts.named, State.broadcast, State.direct, hpc, Pc.broadcast,
        Pc.direct, hok.1.1.2]
    simp only [State.nextOut, hp, enqueue, if_pos hok.2] at hout
    exact .inr ⟨_, ⟨⟨s, .run c draw allow, s'⟩, by simp, hout⟩, rfl, rfl, rfl, rfl⟩

/-- A `redeem_ok` is queued on the way to `sendInviteRedeemed`. -/
theorem redeemOk_step (hl : (relay cfg).Trace l s) {a : Act D} (h : step cfg s a = some s')
    {c : ClientId} {m : ServerMsg D} (hq : (s'.conns c).out = (s.conns c).out ++ [m])
    (hm : m.type = .redeemOk) : ∃ tok r o x, (s.conns c).pc = .sendRedeemOk tok r o x ∧
      (s'.conns c).pc = .sendInviteRedeemed tok r o x ∧ m.handshake = some x := by
  have hs := sound_of_reach hl.reach
  obtain ⟨hp, -⟩ := hs.posts_of_queued h hq
  obtain ⟨b, hb, -, rfl⟩ | ⟨hdir, hopen⟩ := posts_cases hp
  · have hbroad := broadcastType_site hl hb
    rw [hm] at hbroad
    cases hbroad
  · cases direct_cases (fit_of_trace hl) hdir with
    | own _ _ ht => simp [hm, relayType] at ht
    | rekey => simp at hm
    | inviteRedeemed => simp at hm
    | peer _ _ _ type _ _ _ _ _ _ ht =>
      simp only at hm
      simp [hm, handshakeType] at ht
    | redeemOk draw allow tok r o x ha hpc =>
      subst ha
      refine ⟨tok, r, o, x, hpc, ?_, rfl⟩
      simp only [step, hpc, runPc, State.clientSend, hopen, Bool.false_eq_true, if_false,
        Option.some.injEq] at h
      subst h
      simp [State.goto, State.setConn]

theorem paired_of_trace (hl : (relay cfg).Trace l s)
    (hok : ∀ t ∈ l, t.before.issuerServes t.label = true) : Paired l s := by
  induction hl with
  | nil => constructor <;> simp [relay, Made, Queued, Pc.knows]
  | @snoc l s s' a hl hstep ih =>
    have ih := ih fun t ht => hok t (by simp [ht])
    have hok' : s.issuerServes a = true := hok ⟨s, a, s'⟩ (by simp)
    have hs := sound_of_reach hl.reach
    have grow : ∀ p : Event → Bool, s.log.any p = true → s'.log.any p = true := by
      intro p hp
      obtain ⟨e, he, hpe⟩ := List.any_eq_true.mp hp
      exact List.any_eq_true.mpr ⟨e, (hs.step_move hstep).log_mono he, hpe⟩
    refine ⟨knows_step hs hstep hok' ih.knows, fun x y hm => ?_, fun c m x hq hm hx => ?_⟩
    · obtain hm | ⟨c, _, _, tok, r, o, _, hpc, _, _, rfl⟩ := made_step hs hstep hm
      · obtain ⟨tok, hr, hi⟩ := ih.made x y hm
        exact ⟨tok, grow _ hr, grow _ hi⟩
      · have hk := ih.knows c
        rw [hpc] at hk
        exact ⟨tok, grow _ hk.1, grow _ hk.2⟩
    · obtain ⟨t, ht, hq⟩ := hq
      obtain ht | ht := List.mem_append.mp ht
      · obtain ⟨tok, r, o, hr, hi, hpc | htold⟩ := ih.answered c m x ⟨t, ht, hq⟩ hm hx
        · exact ⟨tok, r, o, grow _ hr, grow _ hi, told_step hs hstep hok' hpc⟩
        · obtain ⟨m', hq', h'⟩ := htold
          exact ⟨tok, r, o, grow _ hr, grow _ hi, .inr ⟨m', hq'.snoc _, h'⟩⟩
      · obtain rfl := List.mem_singleton.mp ht
        obtain ⟨tok, r, o, y, hpc, hpc', hy⟩ := redeemOk_step hl hstep hq hm
        obtain rfl : x = y := Option.some.inj (hx.symm.trans hy)
        have hk := ih.knows c
        rw [hpc] at hk
        exact ⟨tok, r, o, grow _ hk.1, grow _ hk.2, .inl hpc'⟩

/-! ## An issuer whose session is over -/

section
variable {may : May} {f f' : Floor D} {c : ClientId}

omit [Payload D] in
/-- Who has asked for an invite is past its way into a room. -/
theorem joined_move (h : ∀ o r tok, Issues f.log o r tok → (f.phase o).joining = false)
    (hi : Inv cfg f) (hm : Move cfg may f f') :
    ∀ o r tok, Issues f'.log o r tok → (f'.phase o).joining = false := by
  have drawn := hi.drawn
  cases hm <;> first | exact h | skip
  all_goals
    intro o r tok
    have hold := h o r tok
    simp only [Floor.goto, Floor.setRoom, Floor.note, Floor.close, Function.update_apply,
      issues_cons, reduceCtorEq, exists_false, false_or, Event.inviteCreated.injEq]
    grind -ring -linarith [Phase.joining]

omit [Payload D] in
/-- Nobody comes back to `memberLoop`. -/
theorem inLoop_move (hm : Move cfg may f f') (hj : (f.phase c).joining = false)
    (hi : Inv cfg f) (h : (f'.phase c).inLoop = true) : (f.phase c).inLoop = true := by
  have drawn := hi.drawn
  cases hm <;> first | exact h | skip
  all_goals
    simp only [Floor.goto, Floor.setRoom, Floor.note, Floor.close, Function.update_apply] at h
    grind -ring -linarith [Phase.joining, Phase.inLoop]

end

theorem joined_of_reach {ok : State D → Act D → Prop} (hr : (relay cfg).Reach ok s) {o : ClientId}
    {r : RoomId} {tok : Handle} (h : Issues s.log o r tok) :
    (s.conns o).pc.phase.joining = false :=
  hr.invariant (I := fun s => ∀ o r tok, Issues s.floor.log o r tok →
      (s.floor.phase o).joining = false) (by simp [State.floor, relay, Issues])
    (fun _ _ _ hr' h _ hstep =>
      joined_move h (sound_of_reach hr').inv ((sound_of_reach hr').step_move hstep)) o r tok h

/-- An issuer whose session is over does not come back. -/
theorem attends_back (hs : Sound cfg s) {a : Act D} (h : step cfg s a = some s') {o : ClientId}
    (hj : (s.conns o).pc.phase.joining = false) (ho : s'.attends o = true) :
    s.attends o = true := by
  have hdrawn : o ∈ s.drawn := by
    by_contra hno
    have habsent : (s.conns o).pc.phase = .absent := hs.inv.drawn o hno
    rw [habsent] at hj
    cases hj
  simp only [State.attends, Bool.and_eq_true, Bool.not_eq_true'] at ho ⊢
  obtain ⟨⟨hloop, hout⟩, hsock⟩ := ho
  refine ⟨⟨inLoop_move (hs.step_move h) hj hs.inv hloop, ?_⟩, ?_⟩
  · refine Bool.eq_false_of_not_eq_true fun hcl => ?_
    rw [shut_step hs h hcl] at hout
    cases hout
  · refine Bool.eq_false_of_not_eq_true fun hcl => ?_
    rw [sock_step hs h hdrawn hcl] at hsock
    cases hsock

/-! ### Before a handshake is made -/

/-- The goroutine looks for a room to join, and no handshake has been made for it. -/
def Pc.unpaired : Pc D → Bool
  | .absent | .allowCreate | .claimCreate | .allowRedeem _ | .claimRedeem _ | .redeemInvite _
  | .getRoom _ _ | .hasCapacity _ _ | .ownerClient _ _ | .newHandshake _ _ _ | .fail _ => true
  | _ => false

omit [Payload D] in
theorem Pc.joining_of_unpaired {pc : Pc D} (h : pc.unpaired = true) : pc.phase.joining = true := by
  cases pc <;> first | rfl | cases h

omit [Payload D] in
theorem Pc.unpaired_of_afterRead {pc : Pc D} (h : pc.afterRead = true) : pc.unpaired = false := by
  cases pc <;> first | rfl | cases h

omit [Payload D] in
theorem Refuses.unpaired {c : ClientId} {m : ServerMsg D} (h : Refuses cfg s c m) :
    (s.conns c).pc.unpaired = true := by
  cases h <;> simp [*, Pc.unpaired]

theorem unpaired_back (hs : Sound cfg s) {a : Act D} (h : step cfg s a = some s') {c : ClientId}
    (hc : (s'.conns c).pc.unpaired = true) : (s.conns c).pc.unpaired = true := by
  generalize hpc : (s'.conns c).pc = pc at hc
  cases hpc ▸ Sound.step_pc h c with
  | same _ => exact hc
  | connected hello ha hd => rw [absent_of_phase (hs.inv.drawn c hd)]; rfl
  | read m _ ha hr => rw [Pc.unpaired_of_afterRead (readFrame_afterRead hr)] at hc; cases hc
  | readErr _ ha hr => rw [Pc.unpaired_of_afterRead (readFails_afterRead hr)] at hc; cases hc
  | ran draw allow _ ha hn =>
    subst ha
    generalize hpc₀ : (s.conns c).pc = pc₀ at hn
    cases hn with
    | fail => exact hpc₀ ▸ (refuses_of_fail h hpc).unpaired
    | _ => first | rfl | cases hc

/-- What is known of a client for which no handshake has been made. -/
structure Unheard (l : List (Machine.Transition (State D) (Act D))) (s : State D) (c : ClientId) :
    Prop where
  out    : (s.conns c).out = []
  queued : ∀ m, ¬ Queued l c m
  joiner : ∀ x hs, Made l s x hs → hs.joiner ≠ c

/-- Nobody posts to a client for which no handshake has been made but its own goroutine. -/
theorem posts_unpaired (hl : (relay cfg).Trace l s) (hp : Paired l s) {a : Act D}
    (h : step cfg s a = some s') {c : ClientId} (hc : (s.conns c).pc.unpaired = true)
    (hjoin : ∀ x hs, Made l s x hs → hs.joiner ≠ c) {m : ServerMsg D} (hm : s.posts a c = some m) :
    (s.conns c).pc = .fail m ∧ ∃ draw allow, a = .run c draw allow := by
  have hs := sound_of_reach hl.reach
  have hj : (s.conns c).pc.phase.joining = true := Pc.joining_of_unpaired hc
  have hmem : ∀ r, c ∉ (s.room r).members := by
    intro r hin
    have := (hs.inv.mem r c hin).1
    rw [State.floor, hj] at this
    cases this
  -- frames a goroutine passes on
  have fits : ∀ {d : ClientId}, Fits (Made l s) d c m → d = c := by
    intro d hf
    cases hf with
    | own => rfl
    | peer type x y y' _ hh hpeer ht =>
      simp only [Handshake.peer] at hpeer
      split at hpeer
      · obtain rfl := Option.some.inj hpeer
        obtain ⟨tok, -, hi⟩ := hp.made x y' hh
        rw [joined_of_reach hl.reach hi] at hj
        cases hj
      · split at hpeer
        · exact absurd (Option.some.inj hpeer) (hjoin x y' hh)
        · cases hpeer
  obtain ⟨b, hb, hd, -⟩ | ⟨hd, -⟩ := posts_cases hm
  · exact absurd (member_of_dest hs h hb hd) (hmem _)
  · cases send_cases hd with
    | closing r pick re ms ha hk =>
      have hpend := (hs.inv.pend r c (by simp [State.floor, hk, Closing.pending])).2.1
      rw [State.floor, hj] at hpend
      cases hpend
    | redeemOk _ _ _ _ _ _ _ hpc | full _ _ _ _ hpc =>
      rw [hpc] at hc
      cases hc
    | inviteRedeemed d _ _ tok r x _ hpc =>
      have hknows := hp.knows d
      rw [hpc] at hknows
      rw [joined_of_reach hl.reach hknows.2] at hj
      cases hj
    | fail _ draw allow ha hpc => exact ⟨hpc, draw, allow, ha⟩
    | relayed _ d _ _ _ _ _ hpc =>
      obtain rfl := fits (fits_of_relayed (fit_of_trace hl d) hpc)
      rw [hpc] at hc
      cases hc
    | sent _ d _ _ _ _ _ hpc =>
      obtain rfl := fits (fits_of_sent (fit_of_trace hl d) hpc)
      rw [hpc] at hc
      cases hc
    | rekey _ _ _ r _ _ _ _ _ hin => exact absurd hin (hmem r)
    | kick _ _ _ r _ _ _ _ hrun =>
      exact absurd (State.removeMember_eq_some hs.open_of_mem hrun).2.1 (hmem r)

theorem unheard_of_trace (hl : (relay cfg).Trace l s)
    (hok : ∀ t ∈ l, t.before.issuerServes t.label = true) {c : ClientId}
    (hc : (s.conns c).pc.unpaired = true) : Unheard l s c := by
  induction hl with
  | nil => constructor <;> simp [relay, Made, Queued]
  | @snoc l s s' a hl h ih =>
    have hok₀ : ∀ t ∈ l, t.before.issuerServes t.label = true := fun t ht => hok t (by simp [ht])
    have hs := sound_of_reach hl.reach
    have hc₀ := unpaired_back hs h hc
    have ih := ih hok₀ hc₀
    replace h : step cfg s a = some s' := h
    -- its own goroutine would be through
    have hpost : s.posts a c = none := by
      refine Option.eq_none_iff_forall_ne_some.mpr fun m hm => ?_
      obtain ⟨hpc, draw, allow, rfl⟩ :=
        posts_unpaired hl (paired_of_trace hl hok₀) h hc₀ ih.joiner hm
      simp only [step, hpc, runPc, Option.some.injEq] at h
      subst h
      obtain hpc' | hpc' := clientSend_pc_self s c c m .closeOut <;> rw [hpc'] at hc <;> cases hc
    have hout : (s'.conns c).out = [] := by
      rw [hs.step_out h c]
      cases a <;> simp only [State.nextOut, hpost, enqueue, ih.out]
      · split <;> rfl
      · split <;> rfl
    refine ⟨hout, fun m hq => ?_, fun x y hm => ?_⟩
    · obtain ⟨t, ht, hq⟩ := hq
      obtain ht | ht := List.mem_append.mp ht
      · exact ih.queued m ⟨t, ht, hq⟩
      · obtain rfl := List.mem_singleton.mp ht
        simp [hout] at hq
    · obtain hm | ⟨d, draw, allow, tok, r, o, ha, hpc, hd, hd', rfl⟩ := made_step hs h hm
      · exact ih.joiner x y hm
      · rintro rfl
        subst ha
        simp only [step, hpc, runPc, State.drawId] at h
        split at h
        · cases h
        · cases h
          rw [goto_pc_self] at hc
          cases hc

/-! ### A redeem that is refused -/

/-- The goroutine is on its way to the owner look-up of a redeem of `tok`. -/
def Pc.redeems (tok : Handle) : Pc D → Bool
  | .allowRedeem t | .claimRedeem t | .redeemInvite t | .getRoom t _ | .hasCapacity t _
  | .ownerClient t _ => t = tok
  | _ => false

/-- The goroutine has been refused and told so. -/
def Pc.refused : Pc D → Bool
  | .closeOut | .awaitDone | .deferHandshakes | .deferSession | .deferBytes _ | .exited => true
  | _ => false

/-- `c`'s redeem of `tok` has come to no handshake, and is being refused or has been. -/
structure Refused (l : List (Machine.Transition (State D) (Act D))) (s : State D) (c : ClientId)
    (tok : Handle) : Prop where
  unanswered : ∀ m, Queued l c m → m.type ≠ .redeemOk
  unpaired   : ∀ x hs, Made l s x hs → hs.joiner ≠ c
  told       : (s.conns c).pc.redeems tok = true ∨ (∃ m, (s.conns c).pc = .fail m ∧ m.type = .error) ∨
    (s.conns c).pc.refused = true ∧ ∃ m, Queued l c m ∧ m.type = .error

omit [Payload D] in
theorem Pc.unpaired_of_redeems {tok : Handle} {pc : Pc D} (h : pc.redeems tok = true) :
    pc.unpaired = true := by
  cases pc <;> first | rfl | cases h

theorem redeems_step (hl : (relay cfg).Trace l s) {a : Act D} (h : step cfg s a = some s')
    (hok : s.issuerServes a = true) {c o : ClientId} {tok : Handle} {r : RoomId}
    (hc : (s.conns c).pc.redeems tok = true) (hi : Issues s.log o r tok)
    (ho : s.attends o = false) :
    (s'.conns c).pc.redeems tok = true ∨ ∃ m, (s'.conns c).pc = .fail m ∧ m.type = .error := by
  have hs := sound_of_reach hl.reach
  generalize hpc : (s'.conns c).pc = pc
  cases hpc ▸ Sound.step_pc h c with
  | same _ => exact .inl hc
  | connected hello ha hd =>
    rw [absent_of_phase (hs.inv.drawn c hd)] at hc
    cases hc
  | read m _ ha hr =>
    generalize (s.conns c).pc = pc₀ at hr hc
    cases pc₀ <;> first | cases hc | cases hr
  | readErr _ ha hr =>
    generalize (s.conns c).pc = pc₀ at hr hc
    cases pc₀ <;> first | cases hc | cases hr
  | ran draw allow _ ha hn =>
    subst ha
    generalize hpc₀ : (s.conns c).pc = pc₀ at hn hc
    cases hn with
    | fail _ _ text reason => exact .inr ⟨_, rfl, rfl⟩
    | ownerClient tok' r' o' hfound =>
      -- the owner found is the issuer, and attends
      simp only [State.issuerServes, hpc₀, Pc.issuerServes, hfound, Option.all_some,
        Bool.and_eq_true] at hok
      obtain rfl : tok' = tok := by simpa [Pc.redeems] using hc
      obtain ⟨rfl, rfl⟩ := (issues_iff hl.reach hi o' r').mp hok.1
      rw [ho] at hok
      cases hok.2
    | panic _ dst hsend =>
      cases pc₀ <;> first | cases hc | cases hsend
    | allowRedeem | claimRedeem | redeemInvite | getRoom | hasCapacity => exact .inl hc
    | _ => cases hc

theorem refused_next {a : Act D} (hs : Sound cfg s) (h : step cfg s a = some s') {c : ClientId}
    (hc : (s.conns c).pc.refused = true) : (s'.conns c).pc.refused = true := by
  generalize hpc : (s'.conns c).pc = pc
  cases hpc ▸ Sound.step_pc h c with
  | same _ => exact hc
  | connected hello ha hd =>
    rw [absent_of_phase (hs.inv.drawn c hd)] at hc
    cases hc
  | read m _ ha hr =>
    generalize (s.conns c).pc = pc₀ at hr hc
    cases pc₀ <;> simp_all [Pc.refused, readFrame]
  | readErr _ ha hr =>
    generalize (s.conns c).pc = pc₀ at hr hc
    cases pc₀ <;> simp_all [Pc.refused, readFails]
  | ran draw allow _ ha hn =>
    generalize (s.conns c).pc = pc₀ at hn hc
    cases hn with
    | fail _ hphase =>
      cases pc₀ <;> simp_all [Pc.refused, Pc.phase]
    | _ => first | rfl | cases hc

/-- Who is refused is told, in the next step of its goroutine. -/
theorem told_refusal (hs : Sound cfg s) {a : Act D} (h : step cfg s a = some s') {c : ClientId}
    {m : ServerMsg D} (hpc : (s.conns c).pc = .fail m) (hout : (s.conns c).out = []) :
    (s'.conns c).pc = .fail m ∨
      (s'.conns c).pc.refused = true ∧ Queued (l ++ [⟨s, a, s'⟩]) c m := by
  generalize hpc' : (s'.conns c).pc = pc
  cases hpc' ▸ Sound.step_pc h c with
  | same _ => exact .inl hpc
  | connected hello ha hd =>
    rw [absent_of_phase (hs.inv.drawn c hd)] at hpc
    cases hpc
  | read _ _ ha hr => simp [hpc, readFrame] at hr
  | readErr _ ha hr => simp [hpc, readFails] at hr
  | ran draw allow _ ha hn =>
    subst ha
    have hp : s.posts (.run c draw allow) c = some m := posts_refusal hs (.inl hpc)
    have hq := hs.step_out h c
    simp only [State.nextOut, hp, enqueue, hout, List.length_nil, outboundBuffer,
      Nat.zero_lt_succ, if_true] at hq
    refine .inr ⟨?_, ⟨⟨s, .run c draw allow, s'⟩, by simp, by rw [hq, hout]⟩⟩
    rw [hpc] at hn
    cases hn with
    | fail _ hphase => simp [Pc.phase] at hphase
    | _ => rfl

theorem Refused.step (hl : (relay cfg).Trace l s)
    (hok : ∀ t ∈ l, t.before.issuerServes t.label = true) {a : Act D}
    (h : step cfg s a = some s') (hok' : s.issuerServes a = true) {c o : ClientId} {tok : Handle}
    {r : RoomId} (hi : Issues s.log o r tok) (ho : s.attends o = false) (hr : Refused l s c tok) :
    Refused (l ++ [⟨s, a, s'⟩]) s' c tok := by
  have hs := sound_of_reach hl.reach
  refine ⟨fun m hq hm => ?_, fun x y hmade => ?_, ?_⟩
  · obtain ⟨t, ht, hq⟩ := hq
    obtain ht | ht := List.mem_append.mp ht
    · exact hr.unanswered m ⟨t, ht, hq⟩ hm
    · obtain rfl := List.mem_singleton.mp ht
      obtain ⟨tok', r', o', x, hpc, -⟩ := redeemOk_step hl h hq hm
      have htold := hr.told
      simp [hpc, Pc.redeems, Pc.refused] at htold
  · obtain hmade | ⟨d, draw, allow, tok', r', o', ha, hpc, hd, hd', rfl⟩ := made_step hs h hmade
    · exact hr.unpaired x y hmade
    · rintro rfl
      have htold := hr.told
      simp [hpc, Pc.redeems, Pc.refused] at htold
  · obtain hred | ⟨m, hpc, hm⟩ | ⟨hpc, m, hq, hm⟩ := hr.told
    · obtain hred | hfail := redeems_step hl h hok' hred hi ho
      · exact .inl hred
      · exact .inr (.inl hfail)
    · have hun : Unheard l s c := unheard_of_trace hl hok (by rw [hpc]; rfl)
      obtain hpc' | ⟨hpc', hq⟩ := told_refusal (l := l) hs h hpc hun.out
      · exact .inr (.inl ⟨m, hpc', hm⟩)
      · exact .inr (.inr ⟨hpc', m, hq, hm⟩)
    · exact .inr (.inr ⟨refused_next hs h hpc, m, hq.snoc _, hm⟩)

/-- **A token whose issuer's session is over is refused**, whenever its redeem gets to the relay
after that. -/
theorem refused_of_trace (hl : (relay cfg).Trace l s)
    (hok : ∀ t ∈ l, t.before.issuerServes t.label = true)
    {t : Machine.Transition (State D) (Act D)} (ht : t ∈ l) {c o : ClientId} {tok : Handle}
    {r : RoomId} (hc : (t.before.conns c).pc.redeems tok = true) (hi : Issues t.before.log o r tok)
    (ho : t.before.attends o = false) :
    Refused l s c tok ∧ Issues s.log o r tok ∧ s.attends o = false := by
  induction hl with
  | nil => cases ht
  | @snoc l s s' a hl h ih =>
    have hok₀ : ∀ t ∈ l, t.before.issuerServes t.label = true := fun t ht => hok t (by simp [ht])
    have hok' : s.issuerServes a = true := hok ⟨s, a, s'⟩ (by simp)
    have hs := sound_of_reach hl.reach
    obtain ⟨hr, hi, ho⟩ : Refused l s c tok ∧ Issues s.log o r tok ∧ s.attends o = false := by
      obtain ht | ht := List.mem_append.mp ht
      · exact ih hok₀ ht
      · obtain rfl := List.mem_singleton.mp ht
        have hun := unheard_of_trace hl hok₀ (Pc.unpaired_of_redeems hc)
        exact ⟨⟨fun m hq => absurd hq (hun.queued m), hun.joiner, .inl hc⟩, hi, ho⟩
    refine ⟨hr.step hl hok₀ h hok' hi ho, ?_, ?_⟩
    · obtain ⟨e, he, hie⟩ := List.any_eq_true.mp hi
      exact List.any_eq_true.mpr ⟨e, (hs.step_move h).log_mono he, hie⟩
    · refine Bool.eq_false_of_not_eq_true fun hatt => ?_
      rw [attends_back hs h (joined_of_reach hl.reach hi) hatt] at ho
      cases ho

/-- **The partner of a handshake is the issuer of its token**, in every run in which each look-up of
a redeem finds the issuer as the owner and the issuer attends until it is told: whoever is sent a
`redeem_ok` has redeemed one token, which one client has asked for, and that client has been sent
the matching `invite_redeemed` or will be in the next section of the redeemer's goroutine; every
handshake ever made is between the redeemer of a token and the client that asked for it; and a token
whose issuer's session is over when its redeem comes to the look-ups is refused, with an error, and
no handshake is made for its redeemer. -/
theorem partner_is_issuer (hl : (relay cfg).Trace l s)
    (hok : ∀ t ∈ l, t.before.issuerServes t.label = true) :
    (∀ c m x, Queued l c m → m.type = .redeemOk → m.handshake = some x → ∃ tok r o,
      (∀ tok' r', Redeems s.log c r' tok' ↔ tok' = tok ∧ r' = r) ∧
      (∀ o' r', Issues s.log o' r' tok ↔ o' = o ∧ r' = r) ∧
      ((s.conns c).pc = .sendInviteRedeemed tok r o x ∨ Told l o c tok x)) ∧
    (∀ x hs, Made l s x hs → ∃ tok,
      (∀ tok' r', Redeems s.log hs.joiner r' tok' ↔ tok' = tok ∧ r' = hs.room) ∧
      ∀ o' r', Issues s.log o' r' tok ↔ o' = hs.owner ∧ r' = hs.room) ∧
    (∀ t ∈ l, ∀ c o r tok, (t.before.conns c).pc.redeems tok = true →
      Issues t.before.log o r tok → t.before.attends o = false → Refused l s c tok) := by
  have h := paired_of_trace hl hok
  refine ⟨fun c m x hq hm hx => ?_, fun x hs hmade => ?_, fun t ht c o r tok hc hi ho =>
    (refused_of_trace hl hok ht hc hi ho).1⟩
  · obtain ⟨tok, r, o, hr, hi, htold⟩ := h.answered c m x hq hm hx
    exact ⟨tok, r, o, redeems_iff hl.reach hr, issues_iff hl.reach hi, htold⟩
  · obtain ⟨tok, hr, hi⟩ := h.made x hs hmade
    exact ⟨tok, redeems_iff hl.reach hr, issues_iff hl.reach hi⟩

theorem redeemed_some : ((relay sampleConfig).stepsFrom {}
    (sampleOpen ++ sampleInvite ++ sampleRedeem)).isSome = true := by decide +kernel

/-- Client 2 redeems the token 200; client 1, which has asked for it, leaves before the look-ups. -/
def sampleSpurned : List (Act String) :=
  sampleOpen ++ sampleInvite ++ .connect 2 (.redeem 200 "bob" "s2") :: ops 2 3 ++
    .frame 1 .leave :: ops 1 2 ++ ops 2 3

theorem spurned_some : ((relay sampleConfig).stepsFrom {} sampleSpurned).isSome = true := by
  decide +kernel

theorem partner_is_issuer_sample : (∃ tok, ∀ o' r',
    Issues (((relay sampleConfig).stepsFrom {}
      (sampleOpen ++ sampleInvite ++ sampleRedeem)).get redeemed_some).2.log o' r' tok ↔
      o' = 1 ∧ r' = 100) ∧
    Refused (((relay sampleConfig).stepsFrom {} sampleSpurned).get spurned_some).1
      (((relay sampleConfig).stepsFrom {} sampleSpurned).get spurned_some).2 2 200 := by
  constructor
  · obtain ⟨tok, -, h⟩ := (partner_is_issuer (Machine.trace_get redeemed_some)
      (by decide +kernel)).2.1 300 ⟨100, 2, 1⟩ (.inl (by decide +kernel))
    exact ⟨tok, h⟩
  · -- the step that looks the room up
    have hlate : (((relay sampleConfig).stepsFrom {} sampleSpurned).get spurned_some).1.any
        (fun t => (t.before.conns 2).pc.redeems 200 && t.before.log.any (·.issues 1 100 200) &&
          !t.before.attends 1) = true := by decide +kernel
    obtain ⟨t, ht, hlate⟩ := List.any_eq_true.mp hlate
    simp only [Bool.and_eq_true, Bool.not_eq_true'] at hlate
    exact (partner_is_issuer (Machine.trace_get spurned_some) (by decide +kernel)).2.2 t ht 2 1 100
      200 hlate.1.1 hlate.1.2 hlate.2

/-- Client 1 asks for the invite 201, then makes client 2 the owner; client 3 redeems 201. -/
def staleToken : List (Act String) :=
  sampleEntered ++ .frame 1 .invite :: ops 1 1 ++ .run 1 201 true :: ops 1 1 ++
    .frame 1 (.transfer 2) :: ops 1 3 ++
    .connect 3 (.redeem 201 "cid" "s3") :: ops 3 6 ++ .run 3 301 true :: ops 3 2

theorem staleToken_some : ((relay sampleConfig).stepsFrom {} staleToken).isSome = true := by
  decide +kernel

/-- Client 3 is answered and waits for its handshake; client 1 asked for its token, but client 2 is
told. -/
theorem stale_token : ∃ l s, (relay (D := String) sampleConfig).Trace l s ∧
    Queued l 3 { type := .redeemOk, handshake := some 301, memberId := some 3 } ∧
    (s.conns 3).pc = .hsLoop 100 301 ∧ Redeems s.log 3 100 201 ∧ Issues s.log 1 100 201 ∧
    Made l s 301 ⟨100, 3, 2⟩ ∧ Told l 2 3 201 301 ∧ ¬ Told l 1 3 201 301 := by
  refine ⟨_, _, Machine.trace_get staleToken_some, ?_, by decide +kernel, by decide +kernel,
    by decide +kernel, .inl (by decide +kernel),
    ⟨{ type := .inviteRedeemed, handshake := some 301, nick := some "cid", token := some 201,
       memberId := some 3 }, ?_, rfl, rfl, rfl, rfl⟩, ?_⟩
  · unfold Queued
    decide +kernel
  · unfold Queued
    decide +kernel
  · rintro ⟨m, ⟨t, ht, hq⟩, hty, -, htok, -⟩
    have hnone : ∀ t ∈ (((relay sampleConfig).stepsFrom {} staleToken).get staleToken_some).1,
        ∀ m ∈ (t.after.conns 1).out, m.token = some 201 → m.type ≠ .inviteRedeemed := by
      decide +kernel
    exact hnone t ht m (by simp [hq]) htok hty

end E2EAnon.Relay
