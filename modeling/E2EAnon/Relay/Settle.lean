import Mathlib.Data.Fintype.EquivFin
import E2EAnon.Lib.Account
import E2EAnon.Relay.Inflight
import E2EAnon.Relay.Refusal
import E2EAnon.Relay.Rooms

/-!
# The relay comes to rest (`server.go:114-448`, `room.go:197-255`)

A read brings its goroutine a bounded number of operations: `cost` is how many are left until the
goroutine waits, a member of a room stands for the three operations `Close` has for it, and an open
transfer for its release. So whatever the order in which the goroutines run, they do at most
13 operations for a connection and 9 for a frame (`bounded_work`), and left to themselves they come
to a state where each waits for a frame, for its write pump, or has ended (`comes_to_rest`).

The janitor and `Shutdown` are not counted; what they have `Close` do is.
-/

namespace E2EAnon.Relay

open Lib (Machine)

variable {D : Type} {cfg : Config}

/-! ## Operations left -/

def OwnerReq.cost : OwnerReq D → Nat
  | .invite | .transfer _ | .kick _ => 2
  | .rekey _ _ | .roster _ => 1

theorem OwnerReq.one_le_cost (q : OwnerReq D) : 1 ≤ q.cost := by
  cases q <;> simp [cost]

/-- The operations of a handler, with those that may take their place. -/
def RoomOp.cost : RoomOp D → Nat
  | .setSessionRoom | .endHandshake _ | .broadcastPresence | .send _ _ | .relay _
  | .clearSessionByClient _ | .rollback _ | .forget _ | .broadcastFile _ => 1
  | .snapshotMembers _ | .getHandshake _ _ _ | .release _ => 2
  | .owned q => q.cost
  | .ownerCheck _ => 3
  | .fileStart _ _ _ | .accept _ _ _ _ => 3
  | .addInflight _ _ _ _ => 6
  | .fileChunk _ _ _ => 7

/-- The operations of a goroutine until it waits or ends. At a read it keeps 3 for the deferred
calls, which a panic brings on. -/
def Pc.cost : Pc D → Nat
  | .absent | .exited => 0
  | .allowCreate => 13
  | .claimCreate => 12
  | .createRoom => 11
  | .addOwner _ => 10
  | .allowRedeem _ => 12
  | .claimRedeem _ => 11
  | .redeemInvite _ => 10
  | .getRoom _ _ => 9
  | .hasCapacity _ _ => 8
  | .ownerClient _ _ => 7
  | .newHandshake _ _ _ => 6
  | .sendRedeemOk _ _ _ _ => 5
  | .sendInviteRedeemed _ _ _ _ => 4
  | .hsLoop _ _ => 3
  | .hsRelay _ _ _ _ _ => 5
  | .hsSend _ _ _ _ => 4
  | .hsEnter _ _ => 12
  | .hsFull _ => 7
  | .endHandshake _ => 6
  | .fail _ => 6
  | .closeOut => 5
  | .member _ todo => 3 + (todo.map RoomOp.cost).sum
  | .leave _ => 11
  | .leaveClose _ _ => 10
  | .leaveWait _ => 6
  | .clearSession => 5
  | .awaitDone => 4
  | .deferHandshakes => 3
  | .deferSession => 2
  | .deferBytes rest => 1 + rest.length

/-- The transfers whose bytes the deferred call has still to release. -/
def Pc.holds (ft : AList (fun _ : String => Int64)) : Pc D → Nat
  | .absent | .exited | .deferBytes _ => 0
  | _ => ft.entries.length

def Conn.load (k : Conn D) : Nat := k.pc.cost + k.pc.holds k.fileTransfers

/-- The operations of `Close` after its first section. -/
def Closing.load : Closing → Nat
  | .no | .done => 0
  | .removeRoom _ ms => 3 + 3 * ms.length
  | .dropInvites _ ms => 2 + 3 * ms.length
  | .next _ ms => 1 + 3 * ms.length
  | .notice _ _ ms => 3 + 3 * ms.length
  | .closeOut _ _ ms => 2 + 3 * ms.length

def Room.load (rm : Room) : Nat := 3 * rm.members.length + rm.closing.load

/-- The work left in a state. -/
def State.load (s : State D) : Nat :=
  ∑ x ∈ s.drawn.toFinset, (s.conns x).load + ∑ x ∈ s.drawn.toFinset, (s.room x).load

/-- An operation of a connection's goroutine or of a running `Close`. -/
def Act.works : Act D → Bool
  | .run _ _ _ | .closing _ _ => true
  | _ => false

/-- The janitor or `Shutdown` begins to close a room. -/
def State.reaps (s : State D) : Act D → Bool
  | .janitor _ =>
    match s.janitor with
    | .close _ r _ => !(s.room r).closed
    | _ => false
  | .shutdown pick =>
    match s.shutdown with
    | .run _ => !(s.room pick).closed
    | _ => false
  | _ => false

/-- The operations a step makes room for. -/
def State.grant (s : State D) : Act D → Nat
  | .connect _ _ => 13
  | .frame _ _ => 9
  | .readErr _ => 8
  | a => if s.reaps a then 3 else 0

/-! ## One goroutine -/

/-- What an operation may leave to others: a new member's share of `Close`, or the rest of
`Close`. -/
def Pc.bonus : Pc D → Nat
  | .addOwner _ | .hsEnter _ _ | .leaveClose _ _ => 3
  | _ => 0

/-- The operation may open a transfer. -/
def RoomOp.opens : RoomOp D → Nat
  | .fileStart _ _ _ | .accept _ _ _ _ => 1
  | _ => 0

def Pc.opens : Pc D → Nat
  | .member _ (op :: _) => op.opens
  | _ => 0

section
variable {s s' : State D} {c : ClientId} {r : RoomId} {draw : Handle} {allow : Bool}

theorem sends_cost {pc : Pc D} {dst : ClientId} (h : pc.sends c = some dst) :
    4 ≤ pc.cost ∧ pc.bonus = 0 ∧ pc.opens = 0 := by
  cases pc <;> simp only [Pc.sends, reduceCtorEq] at h
  case member r todo =>
    cases todo with
    | nil => simp at h
    | cons op k =>
      cases op <;> simp only [RoomOp.sends, reduceCtorEq] at h
      simp only [Pc.cost, RoomOp.cost, List.map_cons, List.sum_cons, Pc.bonus, Pc.opens,
        RoomOp.opens, and_self, and_true]
      omega
  all_goals simp [Pc.cost, Pc.bonus, Pc.opens]

variable [Payload D]

theorem Expands.cost {op : RoomOp D} {new : List (RoomOp D)} (h : Expands s c r draw op new) :
    (new.map RoomOp.cost).sum + 1 + op.opens ≤ op.cost := by
  cases h with
  | done op =>
    cases op <;> simp [RoomOp.cost, RoomOp.opens]
    case owned => simp [OwnerReq.one_le_cost]
  | checked q => cases q <;> simp [RoomOp.cost, OwnerReq.cost, RoomOp.opens]
  | _ => simp [RoomOp.cost, OwnerReq.cost, RoomOp.opens, abortFile]

/-- The operation is one of those after which `runOwner` and `runJoiner` may turn away. -/
def Pc.mayFail : Pc D → Bool
  | .allowCreate | .claimCreate | .allowRedeem _ | .claimRedeem _ | .redeemInvite _ | .getRoom _ _
  | .hasCapacity _ _ | .ownerClient _ _ => true
  | _ => false

/-- A goroutine on its way in that is past those is not turned away with an error. -/
theorem mayFail_of_fail (h : runPc cfg s c draw allow (s.conns c).pc = some s')
    (hphase : (s.conns c).pc.phase = .hello ∨ (s.conns c).pc.phase = .redeeming ∨
      ∃ r, (s.conns c).pc.phase = .joiner r)
    {m : ServerMsg D} (hm : (s'.conns c).pc = .fail m) : (s.conns c).pc.mayFail = true := by
  have other : ∀ {s₁ : State D} {pc : Pc D}, some (s₁.goto c pc) = some s' →
      pc ≠ .fail m → (s.conns c).pc.mayFail = true := by
    intro s₁ pc hgoto hno
    obtain rfl := Option.some.inj hgoto
    exact absurd ((goto_pc_self s₁ c pc).symm.trans hm) hno
  have sent : ∀ {dst : ClientId} {m' : ServerMsg D} {pc : Pc D},
      some (s.clientSend c dst m' pc) = some s' → pc ≠ .fail m → (s.conns c).pc.mayFail = true := by
    intro dst m' pc hsend hno
    obtain rfl := Option.some.inj hsend
    obtain h | h := clientSend_pc_self s c dst m' pc
    · exact absurd (h.symm.trans hm) hno
    · exact absurd (h.symm.trans hm) (by simp)
  cases hpc : (s.conns c).pc <;> rw [hpc] at h hphase other sent <;>
    simp only [Pc.phase, reduceCtorEq, exists_const, or_self, or_false, false_or] at hphase <;>
    simp only [runPc, reduceCtorEq] at h
  case newHandshake tok r o =>
    obtain ⟨s₁, -, h⟩ := Option.bind_eq_some_iff.mp h
    exact other h (by simp)
  case sendRedeemOk | sendInviteRedeemed | hsSend => exact sent h (by simp)
  case hsRelay => split at h <;> exact other h (by simp)
  case hsEnter => split at h <;> exact other h (by simp)
  case member r todo =>
    unfold headPhase at hphase
    split at hphase <;> simp at hphase
  all_goals rfl

/-- An operation of a goroutine is one off its cost. -/
theorem run_cost (h : runPc cfg s c draw allow (s.conns c).pc = some s')
    (hd : (s.conns c).pc ≠ .deferSession) :
    (s'.conns c).pc.cost + 1 + (s.conns c).pc.bonus + (s.conns c).pc.opens ≤
      (s.conns c).pc.cost := by
  have hnext := (Sound.runPc_pc h).2
  generalize hpc : (s.conns c).pc = pc at hnext hd
  generalize hpc' : (s'.conns c).pc = pc' at hnext
  cases hnext with
  | member r op new k hexp =>
    have hcost := hexp.cost
    simp only [Pc.cost, Pc.bonus, Pc.opens, List.map_append, List.sum_append, List.map_cons,
      List.sum_cons]
    omega
  | deferSession => exact absurd rfl hd
  | panic pc dst hsend hclosed =>
    obtain ⟨hcost, hbonus, hopens⟩ := sends_cost hsend
    have hdefer : (Pc.deferHandshakes (D := D)).cost = 3 := rfl
    omega
  | fail pc hphase text reason =>
    have hmay := mayFail_of_fail h (hpc ▸ hphase) hpc'
    rw [hpc] at hmay
    cases pc <;> simp only [Pc.mayFail, Bool.false_eq_true] at hmay <;>
      simp [Pc.cost, Pc.bonus, Pc.opens]
  | deferBytes b bs =>
    simp only [Pc.cost, Pc.bonus, Pc.opens, List.length_cons]
    omega
  | _ => simp [Pc.cost, Pc.bonus, Pc.opens, RoomOp.cost]

/-- A step of a goroutine opens at most the transfer it is about to open. -/
theorem Books.length_le {pc pc' : Pc D} {ft ft' : AList (fun _ : String => Int64)} {n n' : Int64}
    (h : Books cfg pc ft n pc' ft' n') : ft'.entries.length ≤ ft.entries.length + pc.opens := by
  have insert : ∀ (t : String) (b : Int64),
      (ft.insert t b).entries.length ≤ ft.entries.length + 1 := by
    intro t b
    rw [AList.entries_insert]
    exact Nat.succ_le_succ (List.Sublist.length_le (List.kerase_sublist t ft.entries))
  cases h with
  | reset => exact insert _ _
  | accept => exact insert _ _
  | forget =>
    refine Nat.le_add_right_of_le ?_
    exact List.Sublist.length_le (List.kerase_sublist _ ft.entries)
  | _ => exact Nat.le_add_right _ _

omit [Payload D] in
theorem Pc.holds_le {pc pc' : Pc D} {ft ft' : AList (fun _ : String => Int64)}
    (h : pc.holds ft = ft.entries.length) {n : Nat} (hlen : ft'.entries.length ≤ ft.entries.length + n) :
    pc'.holds ft' ≤ pc.holds ft + n := by
  rw [h]
  cases pc' <;> simp only [Pc.holds] <;> omega

/-- An operation of a goroutine takes one off the load of its connection. -/
theorem run_load (ht : s.Tidy) (h : runPc cfg s c draw allow (s.conns c).pc = some s') :
    (s'.conns c).load + 1 + (s.conns c).pc.bonus ≤ (s.conns c).load := by
  have hbooks := (runPc_moves (ht.1 c) h).books
  have hlen := hbooks.length_le
  cases hpc : (s.conns c).pc with
  | deferSession =>
    have hpc' : (s'.conns c).pc = .deferBytes ((s.conns c).fileTransfers.entries.map Sigma.snd) := by
      rw [hpc] at h
      simp only [runPc, Option.some.injEq] at h
      rw [← h, goto_pc_self]
    simp only [Conn.load, hpc, hpc', Pc.cost, Pc.holds, Pc.bonus, List.length_map]
    omega
  | deferBytes rest =>
    have hcost := run_cost h (by simp [hpc])
    have hnext := (Sound.runPc_pc h).2
    rw [hpc] at hnext
    have hzero : (s'.conns c).pc.holds (s'.conns c).fileTransfers = 0 := by
      generalize (s'.conns c).pc = pc' at hnext
      cases hnext with
      | fail pc hphase => simp [Pc.phase] at hphase
      | panic pc dst hsend => simp [Pc.sends] at hsend
      | _ => rfl
    simp only [Conn.load, hzero, hpc]
    rw [hpc] at hcost
    omega
  | absent | exited => simp [hpc, runPc] at h
  | _ =>
    have hcost := run_cost h (by simp [hpc])
    have hheld : (s.conns c).pc.holds (s.conns c).fileTransfers =
        (s.conns c).fileTransfers.entries.length := by
      rw [hpc]
      rfl
    have hholds : (s'.conns c).pc.holds (s'.conns c).fileTransfers ≤
        (s.conns c).pc.holds (s.conns c).fileTransfers + (s.conns c).pc.opens :=
      Pc.holds_le hheld hlen
    simp only [Conn.load]
    rw [← hpc]
    omega

/-! ## Rooms -/

omit [Payload D] in
/-- The room an operation has a bonus for. -/
def Pc.bonusRoom : Pc D → Option RoomId
  | .addOwner r | .hsEnter r _ | .leaveClose r _ => some r
  | _ => none

omit [Payload D] in
theorem closeRoom_load {rm : Room} (h : rm.closing = .no) (reason : Option Reason) :
    (Floor.closeRoom rm reason).load = rm.load + 3 := by
  simp [Room.load, Floor.closeRoom, Closing.load, h]
  omega

omit [Payload D] in
theorem dropRoom_load (rm : Room) (c : ClientId) (t : Int) :
    (Floor.dropRoom rm c t).load ≤ rm.load := by
  have hlen := List.length_filter_le (fun d => decide (d ≠ c)) rm.members
  simp only [Room.load, Floor.dropRoom]
  omega

omit [Payload D] in
/-- A room a goroutine's operation changes has no more work than the operation leaves it. -/
theorem room_load (hs : Sound cfg s) {rm : Room}
    (h : RoomChange cfg s (.run c draw allow) r rm) : rm.load ≤ (s.room r).load +
      (if (s.conns c).pc.bonusRoom = some r then (s.conns c).pc.bonus else 0) := by
  cases h with
  | same | touched | transferred => exact Nat.le_add_right _ _
  | created => exact Nat.zero_le _
  | kicked d _ _ v k t ha | left d _ _ t ha => exact Nat.le_add_right_of_le (dropRoom_load _ _ _)
  | added d _ _ t ha hpc =>
    cases ha
    have hbonus : (s.conns c).pc.bonusRoom = some r ∧ (s.conns c).pc.bonus = 3 := by
      obtain hpc | ⟨h, hpc⟩ := hpc <;> rw [hpc] <;> exact ⟨rfl, rfl⟩
    simp only [hbonus.1, hbonus.2, if_true, Room.load, Floor.addRoom]
    split
    · omega
    · simp only [List.length_append, List.length_singleton]
      omega
  | destroyed d _ _ reason ha hpc hopen =>
    cases ha
    have hidle : (s.room r).closing = .no := hs.inv.open_idle r hopen
    rw [closeRoom_load hidle, hpc]
    simp [Pc.bonusRoom, Pc.bonus]
  | reaped pick reason ha => obtain ha | ha := ha <;> cases ha
  | closing pick k ha => cases ha

omit [Payload D] in
/-- An operation of `Close` is one off its load. -/
theorem closing_load {pick : ClientId} (h : runClosing s r pick (s.room r).closing = some s') :
    (s'.room r).load + 1 ≤ (s.room r).load ∧ (s'.room r).closing ≠ .no ∧
      ∀ r', r' ≠ r → s'.room r' = s.room r' := by
  have set : ∀ {s₁ : State D} {k : Closing}, some (s₁.setClosing r k) = some s' →
      s₁.room = s.room → k ≠ .no → k.load + 1 ≤ (s.room r).closing.load →
      (s'.room r).load + 1 ≤ (s.room r).load ∧ (s'.room r).closing ≠ .no ∧
        ∀ r', r' ≠ r → s'.room r' = s.room r' := by
    intro s₁ k he hroom hno hk
    obtain rfl := Option.some.inj he
    refine ⟨?_, by simpa [State.setClosing, State.setRoom] using hno,
      fun r' hr' => by simp [State.setClosing, State.setRoom, hroom, hr']⟩
    simp only [State.setClosing, State.setRoom, Function.update_self, hroom, Room.load]
    omega
  cases hk : (s.room r).closing <;> rw [hk] at h set <;> simp only [runClosing, reduceCtorEq] at h
  case removeRoom reason ms => exact set h rfl (by simp) (by simp only [Closing.load]; omega)
  case dropInvites reason ms => exact set h rfl (by simp) (by simp only [Closing.load]; omega)
  case next reason ms =>
    cases ms with
    | nil => exact set h rfl (by simp) (by simp [Closing.load])
    | cons m ms =>
      simp only at h
      split at h
      · rename_i hpick
        obtain ⟨mm, hm, -⟩ := s.clearSessionByClient_eq "" pick
        refine set h (by rw [hm]) (by cases reason <;> simp) ?_
        have hlen : ((m :: ms).filter (· ≠ pick)).length < (m :: ms).length :=
          List.length_filter_lt_length_iff_exists.mpr ⟨pick, hpick, by simp⟩
        simp only [List.length_cons] at hlen
        cases reason <;> simp only [Closing.load, List.length_cons] <;> omega
      · simp at h
  case notice re c ms =>
    refine set h ?_ (by simp) (by simp only [Closing.load]; omega)
    unfold State.sendLocked
    split <;> rfl
  case closeOut reason c ms =>
    refine set h ?_ (by simp) (by simp only [Closing.load]; omega)
    unfold State.closeChan
    split <;> rfl

/-! ## The account -/

omit [Payload D] in
/-- Ids not drawn stand for nobody and for no room. -/
theorem load_undrawn (hs : Sound cfg s) {x : Handle} (hx : x ∉ s.drawn) :
    (s.conns x).load = 0 ∧ (s.room x).load = 0 := by
  have hpc : (s.conns x).pc = .absent := absent_of_phase (hs.inv.drawn x hx)
  have hroom : (s.room x).members = [] ∧ (s.room x).closed = false ∧ (s.room x).closing = .no :=
    hs.inv.room_drawn x hx
  simp [Conn.load, Room.load, hpc, hroom.1, hroom.2.2, Pc.cost, Pc.holds, Closing.load]

omit [Payload D] in
/-- The load of a state, summed over more ids. -/
theorem load_eq (hs : Sound cfg s) {ids : List Handle} (h : s.drawn ⊆ ids) :
    s.load = ∑ x ∈ ids.toFinset, (s.conns x).load + ∑ x ∈ ids.toFinset, (s.room x).load := by
  have hsub : s.drawn.toFinset ⊆ ids.toFinset := fun x hx => by
    rw [List.mem_toFinset] at hx ⊢
    exact h hx
  have hconn : ∑ x ∈ s.drawn.toFinset, (s.conns x).load = ∑ x ∈ ids.toFinset, (s.conns x).load :=
    Finset.sum_subset hsub fun x _ hx => (load_undrawn hs (by simpa using hx)).1
  have hroom : ∑ x ∈ s.drawn.toFinset, (s.room x).load = ∑ x ∈ ids.toFinset, (s.room x).load :=
    Finset.sum_subset hsub fun x _ hx => (load_undrawn hs (by simpa using hx)).2
  rw [State.load, hconn, hroom]

omit [Payload D] in
theorem load_of_own (h : s'.own c = s.own c) : (s'.conns c).load = (s.conns c).load := by
  obtain ⟨hpc, hft⟩ := own_eq h
  rw [Conn.load, hpc, hft, Conn.load]

omit [Payload D] in
/-- A step that changes one connection and one room. -/
theorem load_change (hs : Sound cfg s) {m n k : Nat} (hc : c ∈ s'.drawn)
    (hdrawn : s.drawn ⊆ s'.drawn) (hown : ∀ d, d ≠ c → s'.own d = s.own d)
    (hconn : (s'.conns c).load + m ≤ (s.conns c).load + n)
    (hrooms : ∑ x ∈ s'.drawn.toFinset, (s'.room x).load ≤
      ∑ x ∈ s'.drawn.toFinset, (s.room x).load + k) : s'.load + m ≤ s.load + (n + k) := by
  have hconns : ∑ x ∈ s'.drawn.toFinset, (s'.conns x).load + m ≤
      ∑ x ∈ s'.drawn.toFinset, (s.conns x).load + n :=
    Machine.sum_change (List.mem_toFinset.mpr hc) (fun x hx => load_of_own (hown x hx)) hconn
  rw [load_eq hs hdrawn, State.load]
  omega

omit [Payload D] in
/-- A step that changes no connection's work. -/
theorem load_rooms (hs : Sound cfg s) {m n : Nat} (hdrawn : s.drawn ⊆ s'.drawn)
    (hown : ∀ d, (s'.conns d).load = (s.conns d).load)
    (hrooms : ∑ x ∈ s'.drawn.toFinset, (s'.room x).load + m ≤
      ∑ x ∈ s'.drawn.toFinset, (s.room x).load + n) : s'.load + m ≤ s.load + n := by
  have hconns : ∑ x ∈ s'.drawn.toFinset, (s'.conns x).load =
      ∑ x ∈ s'.drawn.toFinset, (s.conns x).load := Finset.sum_congr rfl fun x _ => hown x
  rw [load_eq hs hdrawn, State.load, hconns]
  omega

omit [Payload D] in
theorem helloPc_cost (hello : ClientMsg D) : (helloPc hello).cost ≤ 13 := by
  cases hello <;> simp [helloPc, Pc.cost]

omit [Payload D] in
theorem readFrame_cost {m : ClientMsg D} {pc pc' : Pc D} (h : readFrame c m pc = some pc') :
    pc'.cost ≤ pc.cost + 9 ∧ ∀ ft, pc'.holds ft = pc.holds ft := by
  unfold readFrame at h
  split at h
  · cases h
    cases m <;> simp only [joinerFrame] <;> (try split) <;> simp [Pc.cost, Pc.holds]
  · split at h
    · rename_i todo hm
      cases h
      cases m <;> simp only [memberFrame, Option.some.injEq, reduceCtorEq] at hm <;> subst hm <;>
        (try split) <;> simp [Pc.cost, Pc.holds, RoomOp.cost]
    · cases h
      simp [Pc.cost, Pc.holds]
  · cases h

omit [Payload D] in
theorem readFrame_ne {m : ClientMsg D} {pc pc' : Pc D} (h : readFrame c m pc = some pc') :
    pc' ≠ .absent := by
  rintro rfl
  exact absurd (readFrame_afterRead h) (by simp [Pc.afterRead])

omit [Payload D] in
theorem readFails_ne {pc pc' : Pc D} (h : readFails pc = some pc') : pc' ≠ .absent := by
  rintro rfl
  exact absurd (readFails_afterRead h) (by simp [Pc.afterRead])

omit [Payload D] in
theorem readFails_cost {pc pc' : Pc D} (h : readFails pc = some pc') :
    pc'.cost ≤ pc.cost + 8 ∧ ∀ ft, pc'.holds ft = pc.holds ft := by
  unfold readFails at h
  split at h <;> cases h <;> simp [Pc.cost, Pc.holds]

omit [Payload D] in
theorem closeBegin_closed {r : RoomId} {reason : Option Reason}
    (hclosed : (s.room r).closed = true) : s.closeBegin r reason = none := by
  simp [State.closeBegin, hclosed]

/-- The janitor changes a room only where it begins to close it. -/
theorem janitor_room {pick : RoomId} (h : step cfg s (.janitor pick) = some s')
    (hno : s.reaps (.janitor pick) = false) : s'.room = s.room := by
  cases hj : s.janitor <;> simp only [step, hj, runJanitor] at h
  case close now r todo =>
    simp only [State.reaps, hj, Bool.not_eq_eq_eq_not, Bool.not_false] at hno
    simp only [closeBegin_closed hno, Option.some.injEq] at h
    rw [← h]
  case scan now todo =>
    cases todo with
    | nil => cases h; rfl
    | cons r rs =>
      simp only at h
      split at h <;> cases h
      rfl
  case idle | wait => split at h <;> cases h; rfl
  case idleFor | gcInvites => cases h; rfl

theorem shutdown_room {pick : RoomId} (h : step cfg s (.shutdown pick) = some s')
    (hno : s.reaps (.shutdown pick) = false) : s'.room = s.room := by
  cases hj : s.shutdown with
  | run todo =>
    simp only [State.reaps, hj, Bool.not_eq_eq_eq_not, Bool.not_false] at hno
    cases todo with
    | nil => simp [step, hj, runShutdown] at h
    | cons r rs =>
      simp only [step, hj, runShutdown, closeBegin_closed hno] at h
      split at h <;> cases h
      rfl
  | idle => cases (by simpa [step, hj, runShutdown] using h : _ = s'); rfl
  | wait r todo =>
    simp only [step, hj, runShutdown] at h
    split at h <;> cases h
    rfl

omit [Payload D] in
theorem drawn_of_present (hs : Sound cfg s) (h : (s.conns c).pc ≠ .absent) : c ∈ s.drawn := by
  by_contra hno
  exact h (absent_of_phase (hs.inv.drawn c hno))

omit [Payload D] in
/-- A socket that closes, or a frame taken off a queue. -/
theorem load_setConn (hs : Sound cfg s) {f : Conn D → Conn D}
    (hf : (f (s.conns c)).load = (s.conns c).load) : (s.setConn c f).load ≤ s.load := by
  refine load_rooms (m := 0) (n := 0) hs (List.Subset.refl _) (fun d => ?_) le_rfl
  by_cases hd : d = c
  · subst hd
    simpa [State.setConn] using hf
  · simp [State.setConn, hd]

/-- A hello. -/
theorem connect_load (hs : Sound cfg s) {hello : ClientMsg D}
    (h : step cfg s (.connect c hello) = some s') : s'.load ≤ s.load + 13 := by
  have hc := connect_connects h
  have hpc : (s'.conns c).pc = helloPc hello ∧ s'.room = s.room := by
    simp only [step, State.drawId, hc.fresh, if_false] at h
    cases h
    simp [State.setConn]
  have hload : (s'.conns c).load ≤ 13 := by
    have hholds : (helloPc hello).holds (∅ : AList fun _ : String => Int64) = 0 := by
      cases hello <;> rfl
    rw [Conn.load, hpc.1, hc.empty, hholds]
    exact helloPc_cost hello
  have hdrawn : s.drawn ⊆ s'.drawn := hc.drawn ▸ List.subset_cons_self c s.drawn
  refine load_change (m := 0) (n := 13) (k := 0) hs (hc.drawn ▸ List.mem_cons_self) hdrawn
    hc.others (by omega) ?_
  rw [hpc.2]
  exact le_rfl

/-- An operation of a goroutine. -/
theorem operation_load (hs : Sound cfg s) (h : step cfg s (.run c draw allow) = some s') :
    s'.load + 1 ≤ s.load := by
  have hm := runPc_moves (hs.tidy.1 c) h
  have hload := run_load hs.tidy h
  have hc : c ∈ s.drawn :=
    drawn_of_present hs fun habsent => by simp [step, habsent, runPc] at h
  have hrooms : ∑ x ∈ s'.drawn.toFinset, (s'.room x).load ≤
      ∑ x ∈ s'.drawn.toFinset, (s.room x).load + (s.conns c).pc.bonus := by
    cases hb : (s.conns c).pc.bonusRoom with
    | none =>
      refine Nat.le_add_right_of_le (Finset.sum_le_sum fun x _ => ?_)
      simpa [hb] using room_load hs (hs.step_room h x)
    | some r =>
      refine Machine.sum_grow (i := r) (fun x hx => ?_) ?_
      · simpa [hb, Ne.symm hx] using room_load hs (hs.step_room h x)
      · simpa [hb] using room_load hs (hs.step_room h r)
  have hchange := load_change (m := 1 + (s.conns c).pc.bonus) (n := 0) hs (hm.drawn hc) hm.drawn
    hm.others (by omega) hrooms
  omega

omit [Payload D] in
/-- A section of the janitor or of `Shutdown`. -/
theorem reaps_load (hs : Sound cfg s) {a : Act D} (hr : Sound.Reaps s s')
    (hdrawn : s.drawn ⊆ s'.drawn) (hno : s.reaps a = false → s'.room = s.room) :
    s'.load ≤ s.load + if s.reaps a then 3 else 0 := by
  obtain ⟨hconns, -, hr⟩ := hr
  refine load_rooms (m := 0) hs hdrawn (fun d => by rw [hconns]) ?_
  cases hreaps : s.reaps a with
  | false =>
    rw [hno hreaps]
    exact Nat.le_add_right _ _
  | true =>
    obtain hr | ⟨r, reason, hopen, hr⟩ := hr
    · rw [hr]
      exact Nat.le_add_right _ _
    · have hidle : (s.room r).closing = .no := hs.inv.open_idle r hopen
      have hgrow : ∑ x ∈ s'.drawn.toFinset, (s'.room x).load ≤
          ∑ x ∈ s'.drawn.toFinset, (s.room x).load + 3 := by
        refine Machine.sum_grow (i := r) (fun x hx => by simp [hr, hx]) ?_
        rw [hr, Function.update_self, closeRoom_load hidle]
      exact hgrow

/-- What one step does to the work left: an operation takes one away, a step of another kind adds
what it grants. -/
theorem step_load (hs : Sound cfg s) (hs' : Sound cfg s') {a : Act D}
    (h : step cfg s a = some s') :
    s'.load + (if a.works = true then 1 else 0) ≤ s.load + s.grant a := by
  cases a with
  | connect c hello => exact connect_load hs h
  | frame c m =>
    simp only [step] at h
    split at h
    · simp at h
    · obtain ⟨pc, hread, rfl⟩ := Option.map_eq_some_iff.mp h
      obtain ⟨hcost, hholds⟩ := readFrame_cost hread
      have hm : Moves cfg c s (s.goto c pc) := readFrame_moves hread
      have hc : c ∈ (s.goto c pc).drawn :=
        drawn_of_present hs' (by rw [goto_pc_self]; exact readFrame_ne hread)
      refine load_change (m := 0) (k := 0) hs hc hm.drawn hm.others ?_ le_rfl
      simp only [Conn.load, State.goto, State.setConn, Function.update_self, hholds]
      omega
  | readErr c =>
    obtain ⟨pc, hread, rfl⟩ := Option.map_eq_some_iff.mp h
    obtain ⟨hcost, hholds⟩ := readFails_cost hread
    have hm : Moves cfg c s (s.setConn c fun k => { k with pc, sockClosed := true }) :=
      readFails_moves hread
    have hc : c ∈ (s.setConn c fun k => { k with pc, sockClosed := true }).drawn :=
      drawn_of_present hs' (by simpa [State.setConn] using readFails_ne hread)
    refine load_change (m := 0) (k := 0) hs hc hm.drawn hm.others ?_ le_rfl
    simp only [Conn.load, State.setConn, Function.update_self, hholds]
    omega
  | run c draw allow => exact operation_load hs h
  | pump c =>
    simp only [step] at h
    split at h
    · simp at h
    · split at h <;> cases h
      exact load_setConn hs rfl
  | pumpExit c =>
    simp only [step] at h
    split at h <;> cases h
    exact load_setConn hs rfl
  | drop c =>
    cases h
    exact load_setConn hs rfl
  | closing r pick =>
    obtain ⟨hload, -, hother⟩ := closing_load h
    have hf := runClosing_frame h
    have hr : r ∈ s'.drawn := by
      refine hf.drawn ?_
      by_contra hno
      have hidle : (s.room r).closing = .no := (hs.inv.room_drawn r hno).2.2
      simp [step, hidle, runClosing] at h
    refine load_rooms hs hf.drawn (fun d => load_of_own (congrFun hf.own d)) ?_
    refine Machine.sum_change (List.mem_toFinset.mpr hr) (fun x hx => by rw [hother x hx]) ?_
    simpa [Act.works, State.grant, State.reaps] using hload
  | janitor pick =>
    exact reaps_load hs (Sound.runJanitor_reaps h) (runJanitor_frame h).drawn (janitor_room h)
  | shutdown pick =>
    exact reaps_load hs (Sound.runShutdown_reaps h) (runShutdown_frame h).drawn (shutdown_room h)
  | clock t =>
    cases h
    exact le_rfl

/-- What the relay's goroutines are paid for. -/
def account (cfg : Config) : (relay (D := D) cfg).Account where
  load := State.load
  grant := State.grant
  works := Act.works
  free _ a ha := by cases a <;> first | rfl | cases ha
  paid _ _ _ hr hs := step_load (sound_of_reach hr) (sound_of_reach (hr.step trivial hs)) hs

/-- **A bounded number of operations for each frame.** In every run, whatever the order in which the
goroutines run, they and the calls of `Close` perform at most 13 operations for a connection
accepted, 9 for a frame read, 8 for a read that fails and 3 for a room the janitor or `Shutdown`
begins to close. -/
theorem bounded_work {l : List (Machine.Transition (State D) (Act D))}
    (hl : (relay cfg).Trace l s) :
    l.countP (fun t => t.label.works) ≤ (l.map fun t => t.before.grant t.label).sum := by
  have hwork := (account cfg).work_le hl
  have hzero : (account (D := D) cfg).load (relay cfg).init = 0 := rfl
  rw [hzero, Nat.zero_add] at hwork
  exact (Nat.le_add_right _ _).trans hwork

/-! ## At rest -/

omit [Payload D] in
/-- `c`'s goroutine waits for a frame or for its write pump, or has ended. -/
def State.waits (s : State D) (c : ClientId) : Bool :=
  match (s.conns c).pc with
  | .absent | .hsLoop _ _ | .member _ [] | .exited => true
  | .awaitDone => !(s.conns c).pumpDone
  | _ => false

omit [Payload D] in
structure State.AtRest (s : State D) : Prop where
  waits  : ∀ c, s.waits c = true
  closed : ∀ r, (s.room r).closing = .no ∨ (s.room r).closing = .done

theorem closing_of_closed (hr : (relay cfg).Reach Machine.Any s) :
    ∀ r, (s.room r).closed = true → (s.room r).closing ≠ .no := by
  refine hr.invariant (I := fun s => ∀ r, (s.room r).closed = true → (s.room r).closing ≠ .no)
    (by simp [relay]) ?_
  intro s a s' hr hi _ h r
  generalize hrm : s'.room r = rm
  cases hrm ▸ (sound_of_reach hr).step_room h r with
  | same | touched => exact hi r
  | created => exact fun hc => by cases hc
  | added _ _ _ _ _ _ hopen | transferred _ _ _ _ _ _ _ _ hopen | kicked _ _ _ _ _ _ _ _ hopen
  | left _ _ _ _ _ _ hopen =>
    intro hc
    simp [Floor.addRoom, Floor.dropRoom, hopen] at hc
  | destroyed | reaped => exact fun _ => by simp [Floor.closeRoom]
  | closing pick k ha =>
    subst ha
    have hno := (closing_load h).2.1
    rw [hrm] at hno
    exact fun _ => hno

theorem closed_of_waiting (hr : (relay cfg).Reach Machine.Any s) :
    ∀ c r, (s.conns c).pc = .leaveWait r → (s.room r).closed = true := by
  refine hr.invariant
    (I := fun s => ∀ c r, (s.conns c).pc = .leaveWait r → (s.room r).closed = true)
    (by simp [relay]) ?_
  intro s a s' hr hi _ h c r hpc
  have hs := sound_of_reach hr
  generalize hpc' : (s'.conns c).pc = pc' at hpc
  cases hpc' ▸ Sound.step_pc h c with
  | same => exact closed_step hs h (hi c r hpc)
  | connected hello => cases hello <;> cases hpc
  | read m _ ha hread =>
    subst hpc
    unfold readFrame at hread
    split at hread
    · cases m <;> simp only [joinerFrame] at hread <;> (try split at hread) <;> cases hread
    · split at hread <;> cases hread
    · cases hread
  | readErr _ ha hread =>
    subst hpc
    unfold readFails at hread
    split at hread <;> cases hread
  | ran draw allow _ ha hnext =>
    subst ha hpc
    generalize hold : (s.conns c).pc = pc at hnext
    cases hnext with
    | leaveWait _ reason =>
      simp only [relay, step, hold, runPc] at h
      split at h
      · rename_i s₁ h₁
        obtain ⟨-, rfl⟩ := State.closeBegin_eq_some h₁
        cases h
        simp [State.goto, State.setConn, State.setRoom, Floor.closeRoom]
      · cases h
        rw [goto_pc_self] at hpc'
        cases hpc'

omit [Payload D] in
theorem exists_undrawn (s : State D) : ∃ h, h ∉ s.drawn := by
  obtain ⟨h, hh⟩ := Infinite.exists_notMem_finset s.drawn.toFinset
  exact ⟨h, by simpa using hh⟩

/-- A goroutine that does not wait can go on. -/
theorem runs_of_not_waits (hr : (relay cfg).Reach Machine.Any s) (hw : s.waits c = false)
    (hrest : ∀ r, (s.room r).closing = .no ∨ (s.room r).closing = .done) :
    ∃ draw allow, (runPc cfg s c draw allow (s.conns c).pc).isSome = true := by
  obtain ⟨draw, hdraw⟩ := exists_undrawn s
  refine ⟨draw, true, ?_⟩
  unfold State.waits at hw
  cases hpc : (s.conns c).pc <;> rw [hpc] at hw
  case absent | hsLoop | exited => cases hw
  case leaveWait r =>
    have hno := closing_of_closed hr r (closed_of_waiting hr c r hpc)
    have hdone : (s.room r).closing = .done := (hrest r).resolve_left hno
    simp [runPc, hdone]
  case awaitDone =>
    have hdone : (s.conns c).pumpDone = true := by simpa using hw
    simp [runPc, hdone]
  case member r todo =>
    cases todo with
    | nil => simp at hw
    | cons op k =>
      cases op <;> simp only [runPc, runOp, Option.isSome_some]
      case owned q =>
        cases q <;> simp only [runOwned, State.drawId, hdraw, if_false, Option.bind_eq_bind,
          Option.bind_some, Option.isSome_some] <;> split <;> rfl
      all_goals (repeat' split) <;> rfl
  case deferBytes rest => cases rest <;> rfl
  all_goals
    simp only [runPc, State.drawId, hdraw, if_false, Option.bind_eq_bind, Option.bind_some,
      Option.isSome_some]
  all_goals (repeat' split) <;> rfl

omit [Payload D] in
theorem closes (hk : (s.room r).closing ≠ .no) (hd : (s.room r).closing ≠ .done) :
    ∃ pick, (runClosing s r pick (s.room r).closing).isSome = true := by
  cases hcl : (s.room r).closing with
  | no => exact absurd hcl hk
  | done => exact absurd hcl hd
  | next reason ms =>
    cases ms with
    | nil => exact ⟨0, rfl⟩
    | cons m ms => exact ⟨m, by simp [runClosing]⟩
  | _ => exact ⟨0, rfl⟩

/-- Nobody can go on exactly if everybody waits and no `Close` is running. -/
theorem atRest_iff (hr : (relay cfg).Reach Machine.Any s) :
    (∀ a : Act D, a.works = true → step cfg s a = none) ↔ s.AtRest := by
  constructor
  · intro hstop
    have hclosed : ∀ r, (s.room r).closing = .no ∨ (s.room r).closing = .done := by
      intro r
      by_contra hno
      push Not at hno
      obtain ⟨pick, hpick⟩ := closes hno.1 hno.2
      exact absurd (hstop (.closing r pick) rfl) (Option.isSome_iff_ne_none.mp hpick)
    refine ⟨fun c => ?_, hclosed⟩
    by_contra hw
    obtain ⟨draw, allow, hrun⟩ := runs_of_not_waits hr (Bool.eq_false_of_not_eq_true hw) hclosed
    exact absurd (hstop (.run c draw allow) rfl) (Option.isSome_iff_ne_none.mp hrun)
  · intro hrest a ha
    cases a with
    | run c draw allow =>
      have hw := hrest.waits c
      unfold State.waits at hw
      split at hw <;> rename_i hpc <;> simp only [step, hpc, runPc]
      · simpa using hw
      · cases hw
    | closing r pick =>
      obtain h | h := hrest.closed r <;> simp [step, h, runClosing]
    | _ => cases ha

/-- **The relay comes to rest.** From every reachable state, whatever the order in which the
goroutines and the calls of `Close` go on, they stop after at most `load` operations; they stop
exactly where every goroutine waits for a frame or for its write pump or has ended, and no `Close`
is left half done; and such a state is reached. -/
theorem comes_to_rest (hr : (relay (D := D) cfg).Reach Machine.Any s) :
    (∀ (as : List (Act D)) (t : State D), (∀ a ∈ as, a.works = true) →
      as.foldlM (step cfg) s = some t →
      as.length ≤ s.load ∧ ((∀ a : Act D, a.works = true → step cfg t a = none) ↔ t.AtRest)) ∧
    ∃ (as : List (Act D)) (t : State D), (∀ a ∈ as, a.works = true) ∧
      as.foldlM (step cfg) s = some t ∧ t.AtRest := by
  constructor
  · intro as t has ht
    have hlen := (account cfg).length_le hr has ht
    exact ⟨(Nat.le_add_right _ _).trans hlen, atRest_iff (Machine.reach_of_foldlM hr ht)⟩
  · obtain ⟨as, t, has, ht, hrest⟩ := (account cfg).exists_rest hr
    exact ⟨as, t, has, ht, (atRest_iff (Machine.reach_of_foldlM hr ht)).mp hrest⟩

end

/-- Client 1 has opened its room and leaves; client 2 is in its handshake. -/
def sampleLeaving : List (Act String) :=
  sampleOpen ++ sampleInvite ++ sampleRedeem ++ [.frame 1 .leave]

theorem leaving_some : ((relay sampleConfig).stepsFrom {} sampleLeaving).isSome = true := by
  decide +kernel

/-- `Shutdown` closes the room before its owner gets to it. -/
def sampleStopped : List (Act String) := sampleLeaving ++ [.shutdown 0, .shutdown 100]

theorem stopped_some : ((relay sampleConfig).stepsFrom {} sampleStopped).isSome = true := by
  decide +kernel

theorem bounded_work_sample :
    (((relay sampleConfig).stepsFrom {} sampleStopped).get stopped_some).1.countP
      (fun t => t.label.works) ≤ 13 + 9 + 13 + 9 + 3 :=
  (bounded_work (Machine.trace_get stopped_some)).trans (by decide +kernel)

theorem comes_to_rest_sample : ∃ (as : List (Act String)) (t : State String),
    (∀ a ∈ as, a.works = true) ∧ as.foldlM (step sampleConfig)
      (((relay sampleConfig).stepsFrom {} sampleLeaving).get leaving_some).2 = some t ∧
    t.AtRest :=
  (comes_to_rest (Machine.trace_get leaving_some).reach).2

end E2EAnon.Relay
