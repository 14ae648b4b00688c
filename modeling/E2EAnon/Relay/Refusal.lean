import E2EAnon.Relay.Order

/-!
# Why a joiner is turned away (`server.go:153-224`, `259-266`)

`Refuses` lists the refusals of `runOwner` and `runJoiner`, each with the state it was made in. Two
look-ups for a place refuse a room that is closed as they refuse one that is full (`HasCapacity`,
`Add`), and `RedeemInvite` knows no token that `Close` has swept.

A goroutine tells its refusal in its next step, so each error queued for a client is traced back to
the last step of its own goroutine (`lastMove`). `truthful_refusal`: the refusals of a run are
truthful exactly if no goroutine goes on from one of these three look-ups of a closed room.
-/

namespace E2EAnon.Relay

open Lib

variable {D : Type} {cfg : Config}

/-- The `room_full` error. -/
def isFull (m : ServerMsg D) : Bool := m.type = .error && m.reason = some .roomFull

/-- `c`'s goroutine, in `runOwner` or `runJoiner`, is turned away with the error `m`. -/
inductive Refuses (cfg : Config) (s : State D) (c : ClientId) : ServerMsg D → Prop
  | allowCreate (hpc : (s.conns c).pc = .allowCreate) :
      Refuses cfg s c (errorMsg "too many rooms; slow down" .rateLimited)
  | claimCreate (hpc : (s.conns c).pc = .claimCreate) :
      Refuses cfg s c (errorMsg "you are already in a room" .inRoom)
  | allowRedeem (tok : Handle) (hpc : (s.conns c).pc = .allowRedeem tok) :
      Refuses cfg s c (errorMsg "too many attempts; slow down" .rateLimited)
  | claimRedeem (tok : Handle) (hpc : (s.conns c).pc = .claimRedeem tok) :
      Refuses cfg s c (errorMsg "you are already in a room" .inRoom)
  | redeemInvite (tok : Handle) (hpc : (s.conns c).pc = .redeemInvite tok)
      (hno : (s.redeemInvite tok).2 = none) :
      Refuses cfg s c (errorMsg "invalid or expired invite" .badInvite)
  | getRoom (tok : Handle) (r : RoomId) (hpc : (s.conns c).pc = .getRoom tok r)
      (hno : r ∉ s.rooms) : Refuses cfg s c (errorMsg "room no longer exists" .roomMissing)
  | hasCapacity (tok : Handle) (r : RoomId) (hpc : (s.conns c).pc = .hasCapacity tok r)
      (hno : s.hasCapacity cfg r = false) : Refuses cfg s c (errorMsg "room is full" .roomFull)
  | ownerClient (tok : Handle) (r : RoomId) (hpc : (s.conns c).pc = .ownerClient tok r)
      (hno : s.ownerClient r = none) : Refuses cfg s c (errorMsg "room unavailable" .roomMissing)

/-- `HasCapacity`, or the `Add` of `handshakeLoop`, finds no place for `c` in `r`. -/
inductive NoPlace (cfg : Config) (s : State D) (c : ClientId) (r : RoomId) : Prop
  | hasCapacity (tok : Handle) (hpc : (s.conns c).pc = .hasCapacity tok r)
      (hno : s.hasCapacity cfg r = false)
  | add (h : Handle) (hpc : (s.conns c).pc = .hsEnter r h) (hno : s.add cfg r c = none)

/-- The event of a request for `tok` by a member of `r`. -/
def Event.offers (r : RoomId) (tok : Handle) : Event → Bool
  | .inviteCreated _ r' tok' _ => r' = r ∧ tok' = tok
  | _ => false

/-- `c`'s goroutine is at a look-up of `r`, or redeems a token for it. -/
def State.seeks (s : State D) (c : ClientId) (r : RoomId) : Bool :=
  match (s.conns c).pc with
  | .redeemInvite tok => s.log.any (·.offers r tok)
  | .getRoom _ r' | .hasCapacity _ r' | .ownerClient _ r' | .hsEnter r' _ => r' = r
  | _ => false

/-- The event of a request for `tok` by a member of a room that is closed now. -/
def State.swept (s : State D) (tok : Handle) : Event → Bool
  | .inviteCreated _ r tok' _ => tok' = tok ∧ (s.room r).closed = true
  | _ => false

/-- The step looks for a place in a closed room, or redeems a token for one that is not known any
more or has expired. -/
def State.misleads (s : State D) : Act D → Bool
  | .run c _ _ =>
    match (s.conns c).pc with
    | .redeemInvite tok => (s.redeemInvite tok).2.isNone && s.log.any (s.swept tok)
    | .hasCapacity _ r | .hsEnter r _ => (s.room r).closed
    | _ => false
  | _ => false

/-! ## The steps of one goroutine -/

/-- The step is one of `c`'s goroutine. -/
def Act.moves (c : ClientId) : Act D → Bool
  | .connect d _ | .frame d _ | .readErr d | .run d _ _ => d = c
  | _ => false

/-- The last step of `c`'s goroutine. -/
def lastMove (l : List (Machine.Transition (State D) (Act D))) (c : ClientId) :
    Option (Machine.Transition (State D) (Act D)) :=
  l.reverse.find? fun t => t.label.moves c

theorem lastMove_snoc (l : List (Machine.Transition (State D) (Act D)))
    (t : Machine.Transition (State D) (Act D)) (c : ClientId) :
    lastMove (l ++ [t]) c = if t.label.moves c = true then some t else lastMove l c := by
  rw [lastMove, List.reverse_append, List.reverse_singleton, List.singleton_append,
    List.find?_cons]
  split <;> simp_all [lastMove]

theorem lastMove_mem {l : List (Machine.Transition (State D) (Act D))} {c : ClientId}
    {t : Machine.Transition (State D) (Act D)} (h : lastMove l c = some t) :
    t ∈ l ∧ t.label.moves c = true :=
  ⟨List.mem_reverse.mp (List.mem_of_find?_eq_some h), by simpa using List.find?_some h⟩

theorem absent_of_phase {pc : Pc D} (h : pc.phase = .absent) : pc = .absent := by
  cases pc <;> simp only [Pc.phase, reduceCtorEq] at h
  · rfl
  · unfold headPhase at h
    split at h <;> cases h

/-! ## Where a `room_full` comes from -/

/-- The goroutine has been turned away with a `room_full`. -/
def Pc.tellsFull : Pc D → Bool
  | .fail m => isFull m
  | .hsFull _ => true
  | _ => false

def RoomOp.tellsFull : RoomOp D → Bool
  | .send _ m => isFull m
  | _ => false

/-- No frame that the goroutine passes on, or that a member's handlers send, is a `room_full`. -/
def Pc.mild : Pc D → Bool
  | .hsSend _ _ _ m => !isFull m
  | .member _ todo => !todo.any RoomOp.tellsFull
  | _ => true

theorem helloPc_tellsFull (m : ClientMsg D) : (helloPc m).tellsFull = false := by
  cases m <;> rfl

theorem memberFrame_tellsFull {c : ClientId} {m : ClientMsg D} {todo : List (RoomOp D)}
    (h : memberFrame c m = some todo) : todo.any RoomOp.tellsFull = false := by
  cases m <;> simp only [memberFrame, Option.some.injEq, reduceCtorEq] at h <;> subst h
  case fileStart | fileChunk | fileEnd | fileAbort => split <;> simp [RoomOp.tellsFull]
  all_goals simp [RoomOp.tellsFull]

theorem joinerFrame_mild (r : RoomId) (h : Handle) (m : ClientMsg D) :
    (joinerFrame r h m).mild = true ∧ (joinerFrame r h m).tellsFull = false := by
  cases m with
  | enter h' =>
    simp only [joinerFrame]
    split <;> exact ⟨rfl, rfl⟩
  | _ => exact ⟨rfl, rfl⟩

theorem readFrame_mild {c : ClientId} {m : ClientMsg D} {pc pc' : Pc D}
    (h : readFrame c m pc = some pc') : pc'.mild = true ∧ pc'.tellsFull = false := by
  unfold readFrame at h
  split at h
  · cases h
    exact joinerFrame_mild _ _ m
  · split at h <;> cases h
    · exact ⟨by simp [Pc.mild, memberFrame_tellsFull ‹_›], rfl⟩
    · exact ⟨rfl, rfl⟩
  · cases h

theorem readFails_mild {pc pc' : Pc D} (h : readFails pc = some pc') :
    pc'.mild = true ∧ pc'.tellsFull = false := by
  unfold readFails at h
  split at h <;> cases h <;> exact ⟨rfl, rfl⟩

variable [Payload D] {s s' : State D} {c : ClientId} {r : RoomId} {draw : Handle} {allow : Bool}
  {l : List (Machine.Transition (State D) (Act D))} {t : Machine.Transition (State D) (Act D)}

theorem Expands.tellsFull {op : RoomOp D} {new : List (RoomOp D)} (h : Expands s c r draw op new) :
    new.any RoomOp.tellsFull = false := by
  cases h with
  | refused q m hm =>
    cases q <;> simp only [refusal, Option.some.injEq, reduceCtorEq] at hm <;> subst hm <;> rfl
  | peer type h d hs p hh hp => simp [RoomOp.tellsFull, isFull]
  | _ => rfl

theorem mild_of_trace (hl : (relay cfg).Trace l s) (c : ClientId) : (s.conns c).pc.mild = true := by
  induction hl with
  | nil => rfl
  | @snoc l s s' a hl hs ih =>
    generalize hpc : (s'.conns c).pc = pc
    cases hpc ▸ Sound.step_pc hs c with
    | same _ => exact ih
    | connected hello ha hd => cases hello <;> rfl
    | read m _ ha h => exact (readFrame_mild h).1
    | readErr _ ha h => exact (readFails_mild h).1
    | ran draw allow _ ha h =>
      generalize (s.conns c).pc = pc₀ at h ih
      cases h with
      | hsRelay => simp [Pc.mild, isFull]
      | member r op new k h =>
        simp only [Pc.mild, List.any_cons, Bool.not_or, Bool.and_eq_true, Bool.not_eq_eq_eq_not,
          Bool.not_true] at ih
        simp [Pc.mild, List.any_append, h.tellsFull, ih.2]
      | addOwner | hsEnter => simp [Pc.mild, RoomOp.tellsFull]
      | _ => rfl

omit [Payload D] in
theorem goto_pc_self (s : State D) (c : ClientId) (pc : Pc D) : ((s.goto c pc).conns c).pc = pc := by
  simp [State.goto, State.setConn]

omit [Payload D] in
theorem clientSend_pc_self (s : State D) (c dst : ClientId) (m : ServerMsg D) (pc : Pc D) :
    ((s.clientSend c dst m pc).conns c).pc = pc ∨
      ((s.clientSend c dst m pc).conns c).pc = .deferHandshakes := by
  unfold State.clientSend
  split
  · exact .inr (by simp [State.panic, State.setConn])
  · exact .inl (goto_pc_self _ c pc)

/-! ## The refusals -/

/-- **A goroutine that is to tell a refusal** was turned away in the step that brought it there. -/
theorem refuses_of_fail (hs : step cfg s (.run c draw allow) = some s') {m : ServerMsg D}
    (hpc' : (s'.conns c).pc = .fail m) : Refuses cfg s c m := by
  have hphase : (s.conns c).pc.phase = .hello ∨ (s.conns c).pc.phase = .redeeming ∨
      ∃ r, (s.conns c).pc.phase = .joiner r := by
    generalize hfail : (s'.conns c).pc = pc' at hpc'
    generalize hpc : (s.conns c).pc = pc
    cases hfail ▸ Sound.step_pc hs c with
    | same h => exact absurd rfl (h draw allow)
    | connected _ ha => cases ha
    | read _ _ ha => cases ha
    | readErr _ ha => cases ha
    | ran draw' allow' _ ha h =>
      rw [hpc] at h
      cases h with
      | fail _ hphase => exact hphase
      | _ => cases hpc'
  -- a step to another place, and one to the refusal `m'`
  have other : ∀ {s₁ : State D} {pc : Pc D}, some (s₁.goto c pc) = some s' → pc = .fail m := by
    intro s₁ pc hgoto
    obtain rfl := Option.some.inj hgoto
    rwa [goto_pc_self] at hpc'
  have sent : ∀ {dst : ClientId} {m' : ServerMsg D} {pc : Pc D},
      some (s.clientSend c dst m' pc) = some s' → pc = .fail m := by
    intro dst m' pc hsend
    obtain rfl := Option.some.inj hsend
    obtain h | h := clientSend_pc_self s c dst m' pc <;> rw [h] at hpc'
    · exact hpc'
    · cases hpc'
  simp only [step] at hs
  cases hpc : (s.conns c).pc <;> rw [hpc] at hs hphase <;>
    simp only [Pc.phase, reduceCtorEq, exists_const, or_self, or_false, false_or] at hphase <;>
    simp only [runPc] at hs
  case allowCreate =>
    cases allow <;> cases other hs
    exact .allowCreate hpc
  case allowRedeem tok =>
    cases allow <;> cases other hs
    exact .allowRedeem tok hpc
  case claimCreate =>
    split at hs <;> cases other hs
    exact .claimCreate hpc
  case claimRedeem tok =>
    split at hs <;> cases other hs
    exact .claimRedeem tok hpc
  case redeemInvite tok =>
    split at hs <;> rename_i hinv <;> cases other hs
    exact .redeemInvite tok hpc (by rw [hinv])
  case getRoom tok r =>
    by_cases hr : r ∈ s.rooms <;> simp only [hr, if_true, if_false] at hs <;> cases other hs
    exact .getRoom tok r hpc hr
  case hasCapacity tok r =>
    cases hcap : s.hasCapacity cfg r <;> rw [hcap] at hs <;> cases other hs
    exact .hasCapacity tok r hpc hcap
  case ownerClient tok r =>
    split at hs <;> rename_i ho <;> cases other hs
    exact .ownerClient tok r hpc ho
  case newHandshake tok r o =>
    simp only [State.drawId] at hs
    split at hs
    · cases hs
    · cases other hs
  case hsRelay =>
    split at hs <;> cases other hs
  case sendRedeemOk | sendInviteRedeemed | hsSend => cases sent hs
  case hsLoop r h => cases hs
  case hsEnter r h => split at hs <;> cases other hs
  case member r todo =>
    unfold headPhase at hphase
    split at hphase <;> simp at hphase

/-- A failed `Add` of a joiner. -/
theorem noPlace_of_hsFull (hs : step cfg s (.run c draw allow) = some s') {r : RoomId} {h : Handle}
    (hpc : (s.conns c).pc = .hsEnter r h) (hpc' : (s'.conns c).pc = .hsFull h) :
    NoPlace cfg s c r := by
  simp only [step, hpc, runPc] at hs
  split at hs
  · cases hs
    rw [goto_pc_self] at hpc'
    cases hpc'
  · rename_i hadd
    exact .add h hpc hadd

/-- A step that leaves a goroutine with a `room_full` to tell. -/
theorem noPlace_of_tellsFull (hs : step cfg s (.run c draw allow) = some s')
    (ht : (s'.conns c).pc.tellsFull = true) : ∃ r, NoPlace cfg s c r := by
  generalize hpc' : (s'.conns c).pc = pc' at ht
  generalize hpc : (s.conns c).pc = pc
  cases hpc' ▸ Sound.step_pc hs c with
  | same h => exact absurd rfl (h draw allow)
  | connected _ ha => cases ha
  | read _ _ ha => cases ha
  | readErr _ ha => cases ha
  | ran draw' allow' _ ha h =>
    rw [hpc] at h
    cases h with
    | hsEnterFull r h => exact ⟨r, noPlace_of_hsFull hs hpc hpc'⟩
    | fail _ _ text reason =>
      cases refuses_of_fail hs hpc' with
      | hasCapacity tok r hpc hno => exact ⟨r, .hasCapacity tok hpc hno⟩
      | _ => simp [Pc.tellsFull, isFull, errorMsg] at ht
    | _ => simp [Pc.tellsFull] at ht

/-! ## Between two steps of a goroutine -/

/-- A goroutine moves in its own steps. -/
theorem pc_still {a : Act D} (hs : step cfg s a = some s') (ha : a.moves c = false) :
    (s'.conns c).pc = (s.conns c).pc := by
  generalize hpc : (s'.conns c).pc = pc
  cases hpc ▸ Sound.step_pc hs c with
  | same _ => rfl
  | _ => simp_all [Act.moves]

theorem pc_of_lastMove (hl : (relay cfg).Trace l s) (h : lastMove l c = some t) :
    (s.conns c).pc = (t.after.conns c).pc := by
  induction hl with
  | nil => cases h
  | @snoc l s s' a hl hs ih =>
    rw [lastMove_snoc] at h
    cases ha : a.moves c with
    | true =>
      simp only [ha, if_true, Option.some.injEq] at h
      rw [← h]
    | false =>
      simp only [ha, Bool.false_eq_true, if_false] at h
      rw [pc_still hs ha, ih h]

/-- A hello or a frame turns nobody away with a `room_full`. -/
theorem tellsFull_read {a : Act D} (hs : step cfg s a = some s') (ha : a.moves c = true)
    (hrun : ∀ draw allow, a ≠ .run c draw allow) : (s'.conns c).pc.tellsFull = false := by
  cases a with
  | connect d hello =>
    obtain rfl : d = c := by simpa [Act.moves] using ha
    simp only [step, State.drawId] at hs
    split at hs <;> cases hs
    simpa [State.setConn] using helloPc_tellsFull hello
  | frame d m =>
    obtain rfl : d = c := by simpa [Act.moves] using ha
    simp only [step] at hs
    split at hs
    · cases hs
    · obtain ⟨pc, hread, rfl⟩ := Option.map_eq_some_iff.mp hs
      rw [goto_pc_self]
      exact (readFrame_mild hread).2
  | readErr d =>
    obtain rfl : d = c := by simpa [Act.moves] using ha
    obtain ⟨pc, hread, rfl⟩ := Option.map_eq_some_iff.mp hs
    simpa [State.setConn] using (readFails_mild hread).2
  | run d draw allow =>
    obtain rfl : d = c := by simpa [Act.moves] using ha
    exact absurd rfl (hrun draw allow)
  | _ => cases ha

/-- Who has been turned away with a `room_full` found no place in its last step. -/
theorem noPlace_of_trace (hl : (relay cfg).Trace l s) (h : (s.conns c).pc.tellsFull = true) :
    ∃ t r, lastMove l c = some t ∧ (∃ draw allow, t.label = .run c draw allow) ∧
      NoPlace cfg t.before c r := by
  induction hl with
  | nil => cases h
  | @snoc l s s' a hl hs ih =>
    cases ha : a.moves c with
    | false =>
      rw [pc_still hs ha] at h
      obtain ⟨t, r, ht, hno⟩ := ih h
      exact ⟨t, r, by simpa [lastMove_snoc, ha] using ht, hno⟩
    | true =>
      by_cases hrun : ∃ draw allow, a = .run c draw allow
      · obtain ⟨draw, allow, rfl⟩ := hrun
        obtain ⟨r, hno⟩ := noPlace_of_tellsFull hs h
        exact ⟨⟨s, .run c draw allow, s'⟩, r, by rw [lastMove_snoc, if_pos ha],
          ⟨draw, allow, rfl⟩, hno⟩
      · push Not at hrun
        rw [tellsFull_read hs ha hrun] at h
        cases h

/-! ## What a joiner is told -/

omit [Payload D] in
theorem Fits.error {past : Handle → Handshake → Prop} {dst : ClientId} {m : ServerMsg D}
    (h : Fits past c dst m) (hm : m.type = .error) : dst = c := by
  cases h with
  | own => rfl
  | peer _ _ _ _ _ _ _ ht => cases hm; cases ht

/-- An error is sent by the goroutine of the client it is for. -/
theorem posts_error (hl : (relay cfg).Trace l t.before) {m : ServerMsg D}
    (hp : t.before.posts t.label c = some m) (hm : m.type = .error) :
    (∃ draw allow, t.label = .run c draw allow) ∧
      (t.before.conns c).pc.direct t.before c = some (c, m) := by
  obtain ⟨b, hb, -, rfl⟩ | ⟨hd, -⟩ := posts_cases hp
  · have hbroad := broadcastType_site hl hb
    rw [hm] at hbroad
    cases hbroad
  · obtain ⟨draw, allow, ha⟩ : ∃ draw allow, t.label = .run c draw allow := by
      cases send_cases hd with
      | closing | redeemOk | inviteRedeemed | rekey | kick => cases hm
      | full draw allow _ ha | fail _ draw allow ha => exact ⟨draw, allow, ha⟩
      | relayed _ c' draw allow _ _ ha hpc =>
        obtain rfl := (fits_of_relayed (fit_of_trace hl c') hpc).error hm
        exact ⟨draw, allow, ha⟩
      | sent _ c' draw allow _ _ ha hpc =>
        obtain rfl := (fits_of_sent (fit_of_trace hl c') hpc).error hm
        exact ⟨draw, allow, ha⟩
    rw [ha] at hd
    exact ⟨⟨draw, allow, ha⟩, hd⟩

/-- A `room_full` is told by a goroutine that has been turned away with it. -/
theorem posts_isFull (hl : (relay cfg).Trace l t.before) {m : ServerMsg D}
    (hp : t.before.posts t.label c = some m) (hm : isFull m = true) :
    (t.before.conns c).pc.tellsFull = true := by
  have hfull : m.type = .error ∧ m.reason = some .roomFull := by simpa [isFull] using hm
  obtain ⟨⟨draw, allow, -⟩, hd⟩ := posts_error hl hp hfull.1
  have hmild := mild_of_trace hl c
  have hd : t.before.direct (.run c draw allow) = some (c, m) := hd
  cases send_cases hd with
  | closing | redeemOk | inviteRedeemed | rekey | kick => cases hm
  | full _ _ _ _ hpc => rw [hpc]; rfl
  | fail _ _ _ _ hpc => rw [hpc]; exact hm
  | relayed _ _ _ _ _ _ ha hpc =>
    cases ha
    simp [hpc, Pc.mild, hm] at hmild
  | sent _ _ _ _ _ _ ha hpc =>
    cases ha
    simp [hpc, Pc.mild, RoomOp.tellsFull, hm] at hmild

/-- The refusals of a run are truthful. Who is told `room_full` found, in the last step of its
goroutine, the room live and with as many members as it may have; and an error told to a joiner
whose goroutine has just looked up a destroyed room says that the room no longer exists. -/
structure Truthful (cfg : Config) (l : List (Machine.Transition (State D) (Act D))) : Prop where
  full : ∀ n t, l[n]? = some t → ∀ c m, t.before.posts t.label c = some m → isFull m = true →
    ∃ t' r, lastMove (l.take n) c = some t' ∧ NoPlace cfg t'.before c r ∧
      (t'.before.room r).closed = false ∧ (t'.before.room r).members.length = cfg.maxRoomSize
  gone : ∀ n t, l[n]? = some t → ∀ c m, t.before.posts t.label c = some m → m.type = .error →
    ∀ t' r, lastMove (l.take n) c = some t' → t'.before.seeks c r = true →
      (t'.before.room r).closed = true → m.reason = some .roomMissing

omit [Payload D] in
/-- A look-up for a place in a live room that fails: there is none. -/
theorem NoPlace.full (hs : Sound cfg s) (h : NoPlace cfg s c r)
    (hopen : (s.room r).closed = false) : (s.room r).members.length = cfg.maxRoomSize := by
  have hsize : (s.room r).members.length ≤ cfg.maxRoomSize := hs.inv.size r
  refine hsize.antisymm ?_
  cases h with
  | hasCapacity tok hpc hno => simpa [State.hasCapacity, hopen] using hno
  | add x hpc hno => simpa [hopen] using State.add_eq_none hno

omit [Payload D] in
theorem NoPlace.misleads (h : NoPlace cfg s c r) (hclosed : (s.room r).closed = true) :
    s.misleads (.run c draw allow) = true := by
  cases h with
  | hasCapacity tok hpc => simpa [State.misleads, hpc] using hclosed
  | add x hpc => simpa [State.misleads, hpc] using hclosed

/-- Where a goroutine neither reads nor has been accepted yet, its steps are operations. -/
theorem run_of_moves {a : Act D} (hsound : Sound cfg s) (hs : step cfg s a = some s')
    (ha : a.moves c = true) (habs : (s.conns c).pc ≠ .absent)
    (hread : ∀ m, readFrame c m (s.conns c).pc = none) (hfail : readFails (s.conns c).pc = none) :
    ∃ draw allow, a = .run c draw allow := by
  cases a with
  | connect d hello =>
    obtain rfl : d = c := by simpa [Act.moves] using ha
    simp only [step, State.drawId] at hs
    split at hs
    · cases hs
    · exact absurd (absent_of_phase (hsound.inv.drawn d ‹_›)) habs
  | frame d m =>
    obtain rfl : d = c := by simpa [Act.moves] using ha
    simp [step, hread] at hs
  | readErr d =>
    obtain rfl : d = c := by simpa [Act.moves] using ha
    simp [step, hfail] at hs
  | run d draw allow =>
    obtain rfl : d = c := by simpa [Act.moves] using ha
    exact ⟨draw, allow, rfl⟩
  | _ => cases ha

/-- After a look-up of a closed room that does not mislead, an error says that the room is gone. -/
theorem missing_of_seeks (hs : step cfg s (.run c draw allow) = some s')
    (hseeks : s.seeks c r = true) (hclosed : (s.room r).closed = true)
    (hok : s.misleads (.run c draw allow) = false) {s₁ : State D} {m : ServerMsg D}
    (hd : (s'.conns c).pc.direct s₁ c = some (c, m)) : m.reason = some .roomMissing := by
  -- a look-up that goes on sends nothing next
  have other : ∀ {s₂ : State D} {pc : Pc D}, some (s₂.goto c pc) = some s' →
      pc.direct s₁ c = some (c, m) := by
    intro s₂ pc hgoto
    obtain rfl := Option.some.inj hgoto
    rwa [goto_pc_self] at hd
  simp only [State.seeks] at hseeks
  simp only [State.misleads] at hok
  simp only [step] at hs
  cases hpc : (s.conns c).pc <;> simp only [hpc, Bool.false_eq_true] at hseeks hok <;>
    simp only [hpc, runPc] at hs
  case redeemInvite tok =>
    split at hs <;> rename_i hinv
    · cases other hs
    · -- the token was one for `r`
      have hswept : s.log.any (s.swept tok) = true := by
        obtain ⟨e, he, hoff⟩ := List.any_eq_true.mp hseeks
        refine List.any_eq_true.mpr ⟨e, he, ?_⟩
        cases e <;> simp_all [Event.offers, State.swept]
      simp [hinv, hswept] at hok
  case getRoom tok r' =>
    have hfail := other hs
    split at hfail <;> cases hfail
    rfl
  case hasCapacity tok r' | hsEnter r' h =>
    obtain rfl : r' = r := by simpa using hseeks
    rw [hclosed] at hok
    cases hok
  case ownerClient tok r' =>
    split at hs <;> cases other hs
    rfl

omit [Payload D] in
theorem seeks_of_misleads (h : s.misleads (.run c draw allow) = true) :
    ∃ r, s.seeks c r = true ∧ (s.room r).closed = true := by
  simp only [State.misleads] at h
  cases hpc : (s.conns c).pc <;> simp only [hpc, Bool.false_eq_true] at h
  case redeemInvite tok =>
    obtain ⟨e, he, hswept⟩ := List.any_eq_true.mp ((Bool.and_eq_true _ _).mp h).2
    cases e <;> simp only [State.swept, Bool.false_eq_true, decide_eq_true_eq] at hswept
    case inviteCreated d r tok' exp =>
      refine ⟨r, ?_, hswept.2⟩
      simp only [State.seeks, hpc]
      exact List.any_eq_true.mpr ⟨_, he, by simp [Event.offers, hswept.1]⟩
  case hasCapacity tok r => exact ⟨r, by simp [State.seeks, hpc], h⟩
  case hsEnter r x => exact ⟨r, by simp [State.seeks, hpc], h⟩

/-- After a look-up that misleads, the goroutine is to tell something else. -/
theorem refused_of_misleads (hs : step cfg s (.run c draw allow) = some s')
    (h : s.misleads (.run c draw allow) = true) :
    ∃ m, m.type = .error ∧ m.reason ≠ some .roomMissing ∧
      ((s'.conns c).pc = .fail m ∨ ∃ x, (s'.conns c).pc = .hsFull x ∧
        m = errorMsg "room is full" .roomFull) := by
  simp only [State.misleads] at h
  simp only [step] at hs
  cases hpc : (s.conns c).pc <;> simp only [hpc, Bool.false_eq_true] at h <;>
    simp only [hpc, runPc] at hs
  case redeemInvite tok =>
    have hnone : (s.redeemInvite tok).2 = none := by
      simpa using ((Bool.and_eq_true _ _).mp h).1
    split at hs <;> rename_i hinv
    · simp [hinv] at hnone
    · cases hs
      exact ⟨_, rfl, by simp [errorMsg], .inl (goto_pc_self _ c _)⟩
  case hasCapacity tok r =>
    simp only [State.hasCapacity, h, Bool.not_true, Bool.false_and, Bool.false_eq_true, if_false,
      Option.some.injEq] at hs
    subst hs
    exact ⟨_, rfl, by simp [errorMsg], .inl (goto_pc_self _ c _)⟩
  case hsEnter r x =>
    simp only [State.add, h, if_true, Option.some.injEq] at hs
    subst hs
    exact ⟨_, rfl, by simp [errorMsg], .inr ⟨x, goto_pc_self _ c _, rfl⟩⟩

omit [Payload D] in
/-- The channel of a client that is turned away is open, and it is told. -/
theorem posts_refusal (hs : Sound cfg s) {m : ServerMsg D}
    (hpc : (s.conns c).pc = .fail m ∨ ∃ x, (s.conns c).pc = .hsFull x ∧
      m = errorMsg "room is full" .roomFull) : s.posts (.run c draw allow) c = some m := by
  have hopen : (s.conns c).outClosed = false := by
    refine hs.inv.joining_open c ?_
    change (s.conns c).pc.phase.joining = true
    obtain hpc | ⟨x, hpc, -⟩ := hpc <;> rw [hpc] <;> rfl
  obtain hpc | ⟨x, hpc, rfl⟩ := hpc <;>
    simp [State.posts, State.posts.named, State.broadcast, State.direct, hpc, Pc.broadcast,
      Pc.direct, hopen]

/-- **A run's refusals are truthful exactly if no goroutine goes on from a look-up that misleads**:
from a redeem of a token for a room that has been closed since, where the token is not known any
more or has expired, or from a `HasCapacity` or an `Add` that looks for a place in a closed room. -/
theorem truthful_refusal (hl : (relay cfg).Trace l s) :
    Truthful cfg l ↔ ∀ n t c t', l[n]? = some t → t.label.moves c = true →
      lastMove (l.take n) c = some t' → t'.before.misleads t'.label = false := by
  constructor
  · intro h n t c t' ht hmoves hlast
    refine Bool.eq_false_of_not_eq_true fun hmis => ?_
    obtain ⟨hbefore, -, hstep⟩ := hl.at ht
    obtain ⟨hmem, hmoves'⟩ := lastMove_mem hlast
    obtain ⟨draw, allow, ha⟩ : ∃ draw allow, t'.label = .run c draw allow := by
      cases ha : t'.label with
      | run d draw allow =>
        obtain rfl : d = c := by simpa [ha, Act.moves] using hmoves'
        exact ⟨draw, allow, rfl⟩
      | _ => simp [ha, State.misleads] at hmis
    have hstep' := (hbefore.mem hmem).2
    rw [ha] at hstep' hmis
    obtain ⟨m, htype, hreason, hpc⟩ := refused_of_misleads hstep' hmis
    rw [← pc_of_lastMove hbefore hlast] at hpc
    have hsound := sound_of_reach hbefore.reach
    obtain ⟨draw', allow', ha'⟩ : ∃ draw allow, t.label = .run c draw allow := by
      refine run_of_moves hsound hstep hmoves ?_ ?_ ?_ <;>
        obtain hpc | ⟨x, hpc, -⟩ := hpc <;> simp [hpc, readFrame, readFails]
    obtain ⟨r, hseeks, hclosed⟩ := seeks_of_misleads hmis
    exact hreason (h.gone n t ht c m (by rw [ha']; exact posts_refusal hsound hpc) htype t' r hlast
      hseeks hclosed)
  · intro h
    refine ⟨fun n t ht c m hp hm => ?_, fun n t ht c m hp hm t' r hlast hseeks hclosed => ?_⟩
    · obtain ⟨hbefore, -, -⟩ := hl.at ht
      have hfull : m.type = .error ∧ m.reason = some .roomFull := by simpa [isFull] using hm
      obtain ⟨⟨draw, allow, ha⟩, -⟩ := posts_error hbefore hp hfull.1
      obtain ⟨t', r, hlast, ⟨draw', allow', ha'⟩, hno⟩ :=
        noPlace_of_trace hbefore (posts_isFull hbefore hp hm)
      have hmis := h n t c t' ht (by simp [ha, Act.moves]) hlast
      have hopen : (t'.before.room r).closed = false := by
        refine Bool.eq_false_of_not_eq_true fun hclosed => ?_
        rw [ha', hno.misleads hclosed] at hmis
        cases hmis
      exact ⟨t', r, hlast, hno, hopen,
        hno.full (sound_of_reach (hbefore.mem (lastMove_mem hlast).1).1) hopen⟩
    · obtain ⟨hbefore, -, -⟩ := hl.at ht
      obtain ⟨⟨draw, allow, ha⟩, hd⟩ := posts_error hbefore hp hm
      have hmis := h n t c t' ht (by simp [ha, Act.moves]) hlast
      obtain ⟨hmem, hmoves'⟩ := lastMove_mem hlast
      obtain ⟨hreach, hstep'⟩ := hbefore.mem hmem
      obtain ⟨draw', allow', ha'⟩ : ∃ draw allow, t'.label = .run c draw allow := by
        refine run_of_moves (sound_of_reach hreach) hstep' hmoves' ?_ ?_ ?_ <;>
          simp only [State.seeks] at hseeks <;> split at hseeks <;>
          simp_all [readFrame, readFails]
      rw [ha'] at hstep' hmis
      rw [pc_of_lastMove hbefore hlast] at hd
      exact missing_of_seeks hstep' hseeks hclosed hmis hd

/-- A relay whose rooms hold one member. -/
def tightConfig : Config := { sampleConfig with maxRoomSize := 1, maxRoomSize_pos := by decide }

/-- Client 2 redeems its invite, and client 1 is alone in a room for one. -/
def sampleFull : List (Act String) :=
  sampleOpen ++ sampleInvite ++ .connect 2 (.redeem 200 "bob" "s2") :: ops 2 6

theorem sampleFull_some : ((relay tightConfig).stepsFrom (relay tightConfig).init
    sampleFull).isSome = true := by decide +kernel

theorem truthful_refusal_sample :
    let r := ((relay tightConfig).stepsFrom (relay tightConfig).init sampleFull).get sampleFull_some
    (r.2.conns 2).out = [errorMsg "room is full" .roomFull] ∧ Truthful tightConfig r.1 := by
  have hok : (((relay tightConfig).stepsFrom (relay tightConfig).init sampleFull).get
      sampleFull_some).1.all (fun t => !t.before.misleads t.label) = true := by decide +kernel
  refine ⟨by decide +kernel, (truthful_refusal (Machine.trace_get sampleFull_some)).mpr
    fun n t c t' _ _ hlast => ?_⟩
  have hmem := List.mem_of_mem_take (lastMove_mem hlast).1
  exact Bool.eq_false_of_not_eq_true' (List.all_eq_true.mp hok t' hmem)

/-- The owner leaves during the handshake of client 2, which then enters. -/
def sampleGone : List (Act String) :=
  sampleOpen ++ sampleInvite ++ sampleRedeem ++ .frame 1 .leave :: ops 1 2 ++
    .frame 2 (.enter 300) :: ops 2 2

theorem sampleGone_some : ((relay sampleConfig).stepsFrom (relay sampleConfig).init
    sampleGone).isSome = true := by decide +kernel

/-- A joiner whose room has been destroyed is told that it is full. -/
theorem full_of_closed : ∃ l s, (relay (D := String) sampleConfig).Trace l s ∧
    (s.room 100).closed = true ∧ errorMsg "room is full" .roomFull ∈ (s.conns 2).out ∧
      ¬ Truthful sampleConfig l := by
  -- the last step of the run tells what the `Add` before it has found
  have hlate : ((((relay sampleConfig).stepsFrom (relay sampleConfig).init sampleGone).get
      sampleGone_some).1[sampleGone.length - 1]?.any fun t => t.label.moves 2 &&
        (lastMove ((((relay sampleConfig).stepsFrom (relay sampleConfig).init sampleGone).get
          sampleGone_some).1.take (sampleGone.length - 1)) 2).any fun t' =>
            t'.before.misleads t'.label) = true := by decide +kernel
  refine ⟨_, _, Machine.trace_get sampleGone_some, by decide +kernel, by decide +kernel,
    fun h => ?_⟩
  obtain ⟨t, ht, hlate⟩ := (Option.any_eq_true _ _).mp hlate
  obtain ⟨hmoves, hlate⟩ := (Bool.and_eq_true _ _).mp hlate
  obtain ⟨t', hlast, hmis⟩ := (Option.any_eq_true _ _).mp hlate
  rw [(truthful_refusal (Machine.trace_get sampleGone_some)).mp h _ t 2 t' ht hmoves hlast] at hmis
  cases hmis

end E2EAnon.Relay
