import E2EAnon.Relay.Floor

/-!
# Rooms, channels and ownership: the invariant of the floor

`Inv` says where a connection can be. One that has not entered a room yet has an open channel and
is in no room. A member is in one room, its goroutine is in that room's `memberLoop` or `Leave`
(unless it panicked), and its channel is open. A member `Close` has detached keeps an open channel
until the loop of `Close` reaches it. So the three paths that close a channel (`RemoveMember` and
`Leave`, `Close`, `CloseOut`) exclude each other.

Ownership: between the check of a request and the request (`acting`), and between the two sections
of a leaving owner (`closing`), nobody else can move the ownership, because only the owner's own
goroutine does. This is what the split critical sections of `server.go:395-433` rest on.
-/

namespace E2EAnon.Relay

variable {D : Type} {cfg : Config} {may : May} {f f' : Floor D}

/-- Not yet in a room. -/
def Phase.joining : Phase D → Bool
  | .absent | .hello | .turned | .creating | .opening _ | .redeeming | .joiner _ => true
  | _ => false

/-- In the member handlers of `r`, up to the end of `Leave`. -/
def Phase.serves (r : RoomId) : Phase D → Prop
  | .member r' | .acting r' _ | .clearing r' _ | .leaving r' | .closing r' => r' = r
  | _ => False

/-- The room a connection's handlers work on. -/
def Phase.room? : Phase D → Option RoomId
  | .opening r | .joiner r | .member r | .acting r _ | .clearing r _ | .leaving r | .closing r =>
    some r
  | _ => none

structure Inv (cfg : Config) (f : Floor D) : Prop where
  drawn : ∀ c, c ∉ f.drawn → f.phase c = .absent
  room_drawn : ∀ r, r ∉ f.drawn →
    (f.room r).members = [] ∧ (f.room r).closed = false ∧ (f.room r).closing = .no
  closed_empty : ∀ r, (f.room r).closed = true →
    (f.room r).members = [] ∧ (f.room r).ownerID = none
  open_idle : ∀ r, (f.room r).closed = false → (f.room r).closing = .no
  mem : ∀ r c, c ∈ (f.room r).members →
    (f.phase c).joining = false ∧ (f.panicked c = false → (f.phase c).serves r)
  mem_open : ∀ r c, c ∈ (f.room r).members → f.shut c = false
  mem_unique : ∀ r r' c, c ∈ (f.room r).members → c ∈ (f.room r').members → r = r'
  joining_open : ∀ c, (f.phase c).joining = true → f.shut c = false
  pend : ∀ r c, c ∈ (f.room r).closing.pending →
    f.shut c = false ∧ (f.phase c).joining = false ∧ ∀ r', c ∉ (f.room r').members
  pend_unique : ∀ r r' c, c ∈ (f.room r).closing.pending →
    c ∈ (f.room r').closing.pending → r = r'
  nodup : ∀ r, (f.room r).members.Nodup ∧ (f.room r).closing.pending.Nodup
  size : ∀ r, (f.room r).members.length ≤ cfg.maxRoomSize
  owner_mem : ∀ r o, (f.room r).ownerID = some o → o ∈ (f.room r).members
  owner_some : ∀ r, (f.room r).members ≠ [] → (f.room r).ownerID ≠ none
  acting : ∀ c r q, f.phase c = .acting r q →
    (f.room r).closed = true ∨ (f.room r).ownerID = some c
  closing : ∀ c r, f.phase c = .closing r →
    (f.room r).closed = true ∨ (f.room r).ownerID = some c
  clearing : ∀ c r v, f.phase c = .clearing r v →
    (f.phase v).joining = false ∧ ∀ r', v ∉ (f.room r').members
  room_ref : ∀ c r, (f.phase c).room? = some r → r ∈ f.drawn
  invite_ref : ∀ t inv, f.invites t = some inv → inv.room ∈ f.drawn
  /-- A room being opened is known to its creator only. -/
  opening : ∀ c r, f.phase c = .opening r →
    (f.room r).members = [] ∧ (∀ d, d ≠ c → (f.phase d).room? ≠ some r) ∧
      ∀ t inv, f.invites t = some inv → inv.room ≠ r

namespace Inv

/-- When a member other than the owner goes, the owner is still there. -/
theorem others (h : Inv cfg f) {r : RoomId} {c : ClientId} (hc : c ∈ (f.room r).members)
    (ho : (f.room r).ownerID ≠ some c) : (f.room r).members.filter (· ≠ c) ≠ [] := by
  obtain ⟨o, hr⟩ := Option.ne_none_iff_exists'.mp (h.owner_some r (List.ne_nil_of_mem hc))
  have hmem := h.owner_mem r o hr
  intro hnil
  have := List.filter_eq_nil_iff.mp hnil o hmem
  simp only [ne_eq, decide_not, Bool.not_eq_eq_eq_not, Bool.not_true, decide_eq_false_iff_not,
    Decidable.not_not] at this
  exact ho (this ▸ hr)

/-! ## Each clause is kept by every move -/

theorem drawn_move (h : Inv cfg f) (hm : Move cfg may f f') :
    ∀ c, c ∉ f'.drawn → f'.phase c = .absent := by
  have drawn := h.drawn
  cases hm <;> first | exact drawn | skip
  all_goals
    intro c hc
    simp only [Floor.goto, Floor.setRoom, Floor.note, Floor.close, Function.update_apply] at hc ⊢
    grind -ring -linarith

theorem room_drawn_move (h : Inv cfg f) (hm : Move cfg may f f') :
    ∀ r, r ∉ f'.drawn →
      (f'.room r).members = [] ∧ (f'.room r).closed = false ∧ (f'.room r).closing = .no := by
  have room_drawn := h.room_drawn
  have drawn := h.drawn
  have room_ref := h.room_ref
  cases hm <;> first | exact room_drawn | skip
  all_goals
    intro r hr
    simp only [Floor.goto, Floor.setRoom, Floor.note, Floor.close, Floor.addRoom, Floor.dropRoom,
      Floor.closeRoom, Function.update_apply] at hr ⊢
    grind -ring -linarith [Phase.room?]

theorem closed_empty_move (h : Inv cfg f) (hm : Move cfg may f f') :
    ∀ r, (f'.room r).closed = true →
      (f'.room r).members = [] ∧ (f'.room r).ownerID = none := by
  have closed_empty := h.closed_empty
  cases hm <;> first | exact closed_empty | skip
  all_goals
    intro r hr
    simp only [Floor.goto, Floor.setRoom, Floor.note, Floor.close, Floor.addRoom, Floor.dropRoom,
      Floor.closeRoom, Function.update_apply] at hr ⊢
    grind -ring -linarith

theorem open_idle_move (h : Inv cfg f) (hm : Move cfg may f f') :
    ∀ r, (f'.room r).closed = false → (f'.room r).closing = .no := by
  have open_idle := h.open_idle
  cases hm <;> first | exact open_idle | skip
  all_goals
    intro r hr
    simp only [Floor.goto, Floor.setRoom, Floor.note, Floor.close, Floor.addRoom, Floor.dropRoom,
      Floor.closeRoom, Function.update_apply] at hr ⊢
    grind -ring -linarith

theorem mem_move (h : Inv cfg f) (hm : Move cfg may f f') :
    ∀ r c, c ∈ (f'.room r).members →
      (f'.phase c).joining = false ∧ (f'.panicked c = false → (f'.phase c).serves r) := by
  have mem := h.mem
  have closed_empty := h.closed_empty
  have drawn := h.drawn
  -- `leave`, `leaveOwner` stay in `serves`; the moves out of it find `c` gone or the room closed
  cases hm <;> first | exact mem | skip
  all_goals
    intro r c hc
    simp only [Floor.goto, Floor.setRoom, Floor.note, Floor.close, Floor.addRoom, Floor.dropRoom,
      Floor.closeRoom, Function.update_apply] at hc ⊢
    grind -ring -linarith [Phase.joining, Phase.serves]

theorem mem_open_move (h : Inv cfg f) (hm : Move cfg may f f') :
    ∀ r c, c ∈ (f'.room r).members → f'.shut c = false := by
  have mem_open := h.mem_open
  have mem := h.mem
  have joining_open := h.joining_open
  have mem_unique := h.mem_unique
  have pend := h.pend
  -- a channel is closed for a member just dropped, a detached one, or one still joining
  cases hm <;> first | exact mem_open | skip
  all_goals
    intro r c hc
    simp only [Floor.goto, Floor.setRoom, Floor.note, Floor.close, Floor.addRoom, Floor.dropRoom,
      Floor.closeRoom, Function.update_apply] at hc ⊢
    grind -ring -linarith [Phase.joining, Phase.serves, Closing.pending]

theorem mem_unique_move (h : Inv cfg f) (hm : Move cfg may f f') :
    ∀ r r' c, c ∈ (f'.room r).members → c ∈ (f'.room r').members → r = r' := by
  have mem_unique := h.mem_unique
  have mem := h.mem
  cases hm <;> first | exact mem_unique | skip
  all_goals
    intro r r' c hc hc'
    simp only [Floor.goto, Floor.setRoom, Floor.note, Floor.close, Floor.addRoom, Floor.dropRoom,
      Floor.closeRoom, Function.update_apply] at hc hc' ⊢
    grind -ring -linarith [Phase.joining, Phase.serves]

theorem joining_open_move (h : Inv cfg f) (hm : Move cfg may f f') :
    ∀ c, (f'.phase c).joining = true → f'.shut c = false := by
  have joining_open := h.joining_open
  have mem := h.mem
  have pend := h.pend
  cases hm <;> first | exact joining_open | skip
  all_goals
    intro c hc
    simp only [Floor.goto, Floor.setRoom, Floor.note, Floor.close, Floor.addRoom, Floor.dropRoom,
      Floor.closeRoom, Function.update_apply] at hc ⊢
    grind -ring -linarith [Phase.joining, Phase.serves, Closing.pending]

theorem pend_open_move (h : Inv cfg f) (hm : Move cfg may f f') :
    ∀ r c, c ∈ (f'.room r).closing.pending → f'.shut c = false := by
  have pend := h.pend
  have mem_open := h.mem_open
  have pend_unique := h.pend_unique
  have nodup := h.nodup
  have open_idle := h.open_idle
  cases hm <;> first | exact fun r c hc => (pend r c hc).1 | skip
  all_goals
    intro r c hc
    simp only [Floor.goto, Floor.setRoom, Floor.note, Floor.close, Floor.addRoom, Floor.dropRoom,
      Floor.closeRoom, Function.update_apply] at hc ⊢
    grind -ring -linarith [Phase.joining, Closing.pending]

theorem pend_joining_move (h : Inv cfg f) (hm : Move cfg may f f') :
    ∀ r c, c ∈ (f'.room r).closing.pending → (f'.phase c).joining = false := by
  have pend := h.pend
  have mem := h.mem
  have drawn := h.drawn
  cases hm <;> first | exact fun r c hc => (pend r c hc).2.1 | skip
  all_goals
    intro r c hc
    simp only [Floor.goto, Floor.setRoom, Floor.note, Floor.close, Floor.addRoom, Floor.dropRoom,
      Floor.closeRoom, Function.update_apply] at hc ⊢
    grind -ring -linarith [Phase.joining, Closing.pending]

theorem pend_members_move (h : Inv cfg f) (hm : Move cfg may f f') :
    ∀ r c, c ∈ (f'.room r).closing.pending → ∀ r', c ∉ (f'.room r').members := by
  have pend := h.pend
  have mem_unique := h.mem_unique
  -- `closeBegin` and `closeExternal` turn members into detached ones
  cases hm <;> first | exact fun r c hc => (pend r c hc).2.2 | skip
  all_goals
    intro r c hc r'
    simp only [Floor.goto, Floor.setRoom, Floor.note, Floor.close, Floor.addRoom, Floor.dropRoom,
      Floor.closeRoom, Function.update_apply] at hc ⊢
    grind -ring -linarith [Phase.joining, Closing.pending]

theorem pend_unique_move (h : Inv cfg f) (hm : Move cfg may f f') :
    ∀ r r' c, c ∈ (f'.room r).closing.pending →
      c ∈ (f'.room r').closing.pending → r = r' := by
  have pend_unique := h.pend_unique
  have pend := h.pend
  have mem_unique := h.mem_unique
  have open_idle := h.open_idle
  cases hm <;> first | exact pend_unique | skip
  all_goals
    intro r r' c hc hc'
    simp only [Floor.goto, Floor.setRoom, Floor.note, Floor.close, Floor.addRoom, Floor.dropRoom,
      Floor.closeRoom, Function.update_apply] at hc hc' ⊢
    grind -ring -linarith [Phase.joining, Phase.serves, Closing.pending]

theorem nodup_move (h : Inv cfg f) (hm : Move cfg may f f') :
    ∀ r, (f'.room r).members.Nodup ∧ (f'.room r).closing.pending.Nodup := by
  have nodup := h.nodup
  have open_idle := h.open_idle
  cases hm <;> first | exact nodup | skip
  all_goals
    intro r
    simp only [Floor.goto, Floor.setRoom, Floor.note, Floor.close, Floor.addRoom, Floor.dropRoom,
      Floor.closeRoom, Function.update_apply] at ⊢
    grind -ring -linarith [Phase.joining, Phase.serves, Closing.pending]

theorem size_move (h : Inv cfg f) (hm : Move cfg may f f') :
    ∀ r, (f'.room r).members.length ≤ cfg.maxRoomSize := by
  have size := h.size
  cases hm <;> first | exact size | skip
  all_goals
    intro r
    simp only [Floor.goto, Floor.setRoom, Floor.note, Floor.close, Floor.addRoom, Floor.dropRoom,
      Floor.closeRoom, Function.update_apply] at ⊢
    grind -ring -linarith

theorem owner_mem_move (h : Inv cfg f) (hm : Move cfg may f f') :
    ∀ r o, (f'.room r).ownerID = some o → o ∈ (f'.room r).members := by
  have owner_mem := h.owner_mem
  cases hm <;> first | exact owner_mem | skip
  all_goals
    intro r o ho
    simp only [Floor.goto, Floor.setRoom, Floor.note, Floor.close, Floor.addRoom, Floor.dropRoom,
      Floor.closeRoom, Function.update_apply] at ho ⊢
    grind -ring -linarith

theorem owner_some_move (h : Inv cfg f) (hm : Move cfg may f f') :
    ∀ r, (f'.room r).members ≠ [] → (f'.room r).ownerID ≠ none := by
  have owner_some := h.owner_some
  cases hm <;> first | exact owner_some | skip
  all_goals
    intro r hr
    simp only [Floor.goto, Floor.setRoom, Floor.note, Floor.close, Floor.addRoom, Floor.dropRoom,
      Floor.closeRoom, Function.update_apply] at hr ⊢
    grind -ring -linarith

theorem acting_move (h : Inv cfg f) (hm : Move cfg may f f') :
    ∀ c r q, f'.phase c = .acting r q →
      (f'.room r).closed = true ∨ (f'.room r).ownerID = some c := by
  have acting := h.acting
  have owner_mem := h.owner_mem
  have room_ref := h.room_ref
  -- another client's `setOwner` would need that client to be the owner too
  cases hm <;> first | exact acting | skip
  all_goals
    intro c r q hc
    simp only [Floor.goto, Floor.setRoom, Floor.note, Floor.close, Floor.addRoom, Floor.dropRoom,
      Floor.closeRoom, Function.update_apply] at hc ⊢
    grind -ring -linarith [Floor.ownerClient_eq_some, Phase.room?]

theorem closing_move (h : Inv cfg f) (hm : Move cfg may f f') :
    ∀ c r, f'.phase c = .closing r →
      (f'.room r).closed = true ∨ (f'.room r).ownerID = some c := by
  have closing := h.closing
  have acting := h.acting
  have owner_mem := h.owner_mem
  have room_ref := h.room_ref
  have others := @h.others
  -- `leaveMember` never empties a room: its owner is another client
  cases hm <;> first | exact closing | skip
  all_goals
    intro c r hc
    simp only [Floor.goto, Floor.setRoom, Floor.note, Floor.close, Floor.addRoom, Floor.dropRoom,
      Floor.closeRoom, Function.update_apply] at hc ⊢
    grind -ring -linarith [Phase.room?]

theorem clearing_move (h : Inv cfg f) (hm : Move cfg may f f') :
    ∀ c r v, f'.phase c = .clearing r v →
      (f'.phase v).joining = false ∧ ∀ r', v ∉ (f'.room r').members := by
  have clearing := h.clearing
  have mem := h.mem
  have mem_unique := h.mem_unique
  have drawn := h.drawn
  cases hm <;> first | exact clearing | skip
  all_goals
    intro c r v hc
    simp only [Floor.goto, Floor.setRoom, Floor.note, Floor.close, Floor.addRoom, Floor.dropRoom,
      Floor.closeRoom, Function.update_apply] at hc ⊢
    grind -ring -linarith [Phase.joining, Phase.serves]

theorem room_ref_move (h : Inv cfg f) (hm : Move cfg may f f') :
    ∀ c r, (f'.phase c).room? = some r → r ∈ f'.drawn := by
  have room_ref := h.room_ref
  have invite_ref := h.invite_ref
  cases hm <;> first | exact room_ref | skip
  all_goals
    intro c r hc
    simp only [Floor.goto, Floor.setRoom, Floor.note, Floor.close, Function.update_apply] at hc ⊢
    grind -ring -linarith [Phase.room?]

theorem invite_ref_move (h : Inv cfg f) (hm : Move cfg may f f') :
    ∀ t inv, f'.invites t = some inv → inv.room ∈ f'.drawn := by
  have invite_ref := h.invite_ref
  have room_ref := h.room_ref
  cases hm <;> first | exact invite_ref | skip
  all_goals
    intro t inv ht
    simp only [Floor.goto, Floor.setRoom, Floor.note, Function.update_apply] at ht ⊢
    grind -ring -linarith [Phase.room?, Option.filter_eq_some_iff]

theorem opening_move (h : Inv cfg f) (hm : Move cfg may f f') :
    ∀ c r, f'.phase c = .opening r →
      (f'.room r).members = [] ∧ (∀ d, d ≠ c → (f'.phase d).room? ≠ some r) ∧
        ∀ t inv, f'.invites t = some inv → inv.room ≠ r := by
  have opening := h.opening
  have room_ref := h.room_ref
  have invite_ref := h.invite_ref
  have room_drawn := h.room_drawn
  cases hm <;> first | exact opening | skip
  all_goals
    intro c r hc
    simp only [Floor.goto, Floor.setRoom, Floor.note, Floor.close, Floor.addRoom, Floor.dropRoom,
      Floor.closeRoom, Function.update_apply] at hc ⊢
    grind -ring -linarith [Phase.room?, Option.filter_eq_some_iff]

theorem move (h : Inv cfg f) (hm : Move cfg may f f') : Inv cfg f' where
  drawn := h.drawn_move hm
  room_drawn := h.room_drawn_move hm
  closed_empty := h.closed_empty_move hm
  open_idle := h.open_idle_move hm
  mem := h.mem_move hm
  mem_open := h.mem_open_move hm
  mem_unique := h.mem_unique_move hm
  joining_open := h.joining_open_move hm
  pend r c hc :=
    ⟨h.pend_open_move hm r c hc, h.pend_joining_move hm r c hc, h.pend_members_move hm r c hc⟩
  pend_unique := h.pend_unique_move hm
  nodup := h.nodup_move hm
  size := h.size_move hm
  owner_mem := h.owner_mem_move hm
  owner_some := h.owner_some_move hm
  acting := h.acting_move hm
  closing := h.closing_move hm
  clearing := h.clearing_move hm
  room_ref := h.room_ref_move hm
  invite_ref := h.invite_ref_move hm
  opening := h.opening_move hm

theorem init : Inv cfg ({} : State D).floor := by
  constructor <;> simp [State.floor, Pc.phase, Phase.room?, Closing.pending, Phase.joining]

end Inv

/-! ## Panics are on record -/

theorem panicked_move (h : ∀ c, f.panicked c = true → ∃ d, .sendClosed d ∈ f.log)
    (hm : Move cfg may f f') : ∀ c, f'.panicked c = true → ∃ d, .sendClosed d ∈ f'.log := by
  cases hm <;> first | exact h | skip
  all_goals
    intro c hc
    simp only [Floor.goto, Floor.setRoom, Floor.note, Floor.close, Function.update_apply] at hc ⊢
    grind -ring -linarith

end E2EAnon.Relay
