import Mathlib.Algebra.BigOperators.Group.Finset.Basic
import E2EAnon.Lib.Counter
import E2EAnon.Relay.Refine

/-!
# The byte count of transfers (`hub.go:46-51`, `server.go:132-139`, `321-381`)

The bytes of open transfers are counted twice: per connection in `FileTransfers`, and for the whole
relay in `hub.inflight`. `owed` is what a connection has on the global counter. It is the total of
its map, except between the two halves of an operation that changes both sides. `Ledger` says that
the counter is the sum of what the connections owe.

The exception is a second `file_start` for a transfer that is still open: it sets the entry to 0 and
leaves the counter alone (`server.go:334`), so the bytes counted so far are never released.
`inflight_balanced` is about the runs without such a frame.
-/

namespace E2EAnon.Relay

open Lib

variable {D : Type} {cfg : Config}

/-- The bytes counted for `t`; 0 if it is not open. -/
def count (ft : AList (fun _ : String => Int64)) (t : String) : Int64 := (ft.lookup t).getD 0

/-- The connections, as far as their goroutines write them, and the counter are the same. -/
structure Frame (s s₁ : State D) : Prop where
  own : s₁.own = s.own
  started : s₁.started = s.started
  drawn : s.drawn ⊆ s₁.drawn
  inflight : s₁.inflight = s.inflight
  sock : ∀ d, (s.conns d).sockClosed = true → (s₁.conns d).sockClosed = true

theorem State.Quiet.frame {s s₁ : State D} (h : State.Quiet s s₁) : Frame s s₁ :=
  ⟨h.own, h.started, h.drawn ▸ List.Subset.refl _, h.inflight, h.sock⟩

theorem own_eq {s s' : State D} {c : ClientId} (h : s'.own c = s.own c) :
    (s'.conns c).pc = (s.conns c).pc ∧ (s'.conns c).fileTransfers = (s.conns c).fileTransfers := by
  simp only [State.own, Prod.mk.injEq] at h
  exact ⟨h.1, h.2.2.2⟩

/-- What the operation in hand takes for granted about its connection's transfers. -/
def Ready (ft : AList (fun _ : String => Int64)) : Pc D → Prop
  | .member _ (.fileStart t _ _ :: _) => count ft t = 0
  | .member _ (.addInflight t cur _ _ :: _) | .member _ (.accept t cur _ _ :: _) =>
    ft.lookup t = some cur
  | .deferBytes rest => ft = ∅ → rest = []
  | _ => True

/-- Nothing in hand that is between its two halves, and no transfer about to be opened. -/
def Pc.settled : Pc D → Bool
  | .member _ (.fileStart _ _ _ :: _) | .member _ (.addInflight _ _ _ _ :: _)
  | .member _ (.accept _ _ _ _ :: _) | .member _ (.rollback _ :: _) | .member _ (.forget _ :: _)
  | .deferBytes _ | .exited => false
  | _ => true

theorem ready_settled {pc : Pc D} (h : pc.settled = true) (ft : AList (fun _ : String => Int64)) :
    Ready ft pc := by
  unfold Pc.settled at h
  unfold Ready
  split at h <;> simp_all

theorem settled_waits {r : RoomId} {k : List (RoomOp D)} (hk : ∀ op ∈ k, op.waits = true) :
    (Pc.member r k).settled = true := by
  cases k with
  | nil => rfl
  | cons op k =>
    have hop := hk op (by simp)
    cases op <;> first | rfl | simp [RoomOp.waits] at hop

theorem opened_by {c : ClientId} {m : ClientMsg D} {pc : Pc D} {r : RoomId} {t : String} {kid d : D}
    {k : List (RoomOp D)}
    (h : readFrame c m pc = some (.member r (.fileStart t kid d :: k))) :
    m = .fileStart t kid d := by
  unfold readFrame at h
  split at h
  · cases m <;> simp only [joinerFrame] at h <;> (try split at h) <;> simp at h
  · split at h
    · rename_i todo hm
      cases m <;> simp only [memberFrame, Option.some.injEq, reduceCtorEq] at hm <;>
        subst hm <;> simp only [Option.some.injEq, Pc.member.injEq] at h <;>
        (try split at h) <;> simp_all
    · simp at h
  · simp at h

theorem runClosing_frame {s s' : State D} {r : RoomId} {pick : ClientId}
    (h : runClosing s r pick (s.room r).closing = some s') :
    Frame s s' := by
  cases hcl : (s.room r).closing <;> rw [hcl] at h
  case no | done => simp [runClosing] at h
  case removeRoom | dropInvites => cases h; exact ⟨rfl, rfl, List.Subset.refl _, rfl, fun _ h => h⟩
  case next reason ms =>
    cases ms with
    | nil => cases h; exact ⟨rfl, rfl, List.Subset.refl _, rfl, fun _ h => h⟩
    | cons m ms =>
      simp only [runClosing] at h
      split at h
      · cases h
        obtain ⟨m', hm, -⟩ := s.clearSessionByClient_eq "" pick
        rw [hm]
        exact ⟨rfl, rfl, List.Subset.refl _, rfl, fun _ h => h⟩
      · simp at h
  case notice => cases h; exact ((State.Quiet.sendLocked _).trans (.setRoom _)).frame
  case closeOut => cases h; exact (State.Quiet.closeChan.trans (.setRoom _)).frame

theorem runJanitor_frame {s s' : State D} {pick : RoomId}
    (h : runJanitor cfg s pick s.janitor = some s') : Frame s s' := by
  cases hj : s.janitor <;> simp only [hj, runJanitor] at h
  case scan now todo =>
    cases todo with
    | nil => cases h; exact ⟨rfl, rfl, List.Subset.refl _, rfl, fun _ h => h⟩
    | cons r rs =>
      simp only at h
      split at h
      · cases h; exact ⟨rfl, rfl, List.Subset.refl _, rfl, fun _ h => h⟩
      · simp at h
  case close now r todo =>
    split at h <;> (rename_i h₁; cases h)
    · have hq := (State.Quiet.closeBegin h₁).frame
      exact ⟨hq.own, hq.started, hq.drawn, hq.inflight, hq.sock⟩
    · exact ⟨rfl, rfl, List.Subset.refl _, rfl, fun _ h => h⟩
  case idle =>
    split at h
    · simp at h
    · cases h; exact ⟨rfl, rfl, List.Subset.refl _, rfl, fun _ h => h⟩
  case wait =>
    split at h
    · cases h; exact ⟨rfl, rfl, List.Subset.refl _, rfl, fun _ h => h⟩
    · simp at h
  case idleFor | gcInvites => cases h; exact ⟨rfl, rfl, List.Subset.refl _, rfl, fun _ h => h⟩

theorem runShutdown_frame {s s' : State D} {pick : RoomId}
    (h : runShutdown s pick s.shutdown = some s') : Frame s s' := by
  cases hj : s.shutdown <;> simp only [hj, runShutdown] at h
  case idle => cases h; exact ⟨rfl, rfl, List.Subset.refl _, rfl, fun _ h => h⟩
  case run todo =>
    cases todo with
    | nil => simp at h
    | cons r rs =>
      simp only at h
      split at h
      · split at h <;> (rename_i h₁; cases h)
        · have hq := (State.Quiet.closeBegin h₁).frame
          exact ⟨hq.own, hq.started, hq.drawn, hq.inflight, hq.sock⟩
        · exact ⟨rfl, rfl, List.Subset.refl _, rfl, fun _ h => h⟩
      · simp at h
  case wait =>
    split at h
    · cases h; exact ⟨rfl, rfl, List.Subset.refl _, rfl, fun _ h => h⟩
    · simp at h

section
variable [Payload D]

/-- What a connection at `pc` with transfers `ft` has on the counter. -/
def owed (ft : AList (fun _ : String => Int64)) : Pc D → Int64
  | .member _ (.accept _ _ _ d :: _) => total ft + chunkSize d
  | .member _ (.rollback size :: _) => total ft + size
  | .member _ (.forget t :: _) => total ft - count ft t
  | .deferBytes rest => rest.sum
  | .exited => 0
  | _ => total ft

structure Ledger (s : State D) : Prop where
  drawn : ∀ c ∈ s.started, c ∈ s.drawn
  started : ∀ c, (s.conns c).pc ≠ .absent → c ∈ s.started
  balance : s.inflight = ∑ c ∈ s.started, owed (s.conns c).fileTransfers (s.conns c).pc
  ready : ∀ c, Ready (s.conns c).fileTransfers (s.conns c).pc

/-! ## Steps of one connection -/

/-- What a step of a connection does to its books: from `pc`, the transfers `ft` and the counter
`n` to the ones that follow. -/
inductive Books (cfg : Config) : Pc D → AList (fun _ : String => Int64) → Int64 →
    Pc D → AList (fun _ : String => Int64) → Int64 → Prop
  | quiet {pc pc' : Pc D} {ft : AList (fun _ : String => Int64)} {n : Int64} :
      pc.settled = true → pc'.settled = true → Books cfg pc ft n pc' ft n
  /-- A `file_start` is read. -/
  | start {r : RoomId} {t : String} {kid d : D} {ft : AList (fun _ : String => Int64)} {n : Int64} :
      Books cfg (.member r []) ft n (.member r [.fileStart t kid d]) ft n
  | reset {r : RoomId} {t : String} {kid d : D} {k : List (RoomOp D)} {pc' : Pc D}
      {ft : AList (fun _ : String => Int64)} {n : Int64} : pc'.settled = true →
      Books cfg (.member r (.fileStart t kid d :: k)) ft n pc' (ft.insert t 0) n
  | check {r : RoomId} {t : String} {i : Int} {d : D} {cur : Int64} {k : List (RoomOp D)}
      {ft : AList (fun _ : String => Int64)} {n : Int64} : ft.lookup t = some cur →
      ¬ cur + chunkSize d > cfg.maxFileBytes →
      Books cfg (.member r (.fileChunk t i d :: k)) ft n (.member r (.addInflight t cur i d :: k))
        ft n
  | passed {r : RoomId} {t : String} {i : Int} {d : D} {cur : Int64} {k : List (RoomOp D)}
      {ft : AList (fun _ : String => Int64)} {n : Int64} :
      ¬ n + chunkSize d > cfg.maxInflightBytes →
      Books cfg (.member r (.addInflight t cur i d :: k)) ft n (.member r (.accept t cur i d :: k))
        ft (n + chunkSize d)
  | refuse {r : RoomId} {t : String} {i : Int} {d : D} {cur : Int64} {k k' : List (RoomOp D)}
      {ft : AList (fun _ : String => Int64)} {n : Int64} :
      Books cfg (.member r (.addInflight t cur i d :: k)) ft n
        (.member r (.rollback (chunkSize d) :: k')) ft (n + chunkSize d)
  | accept {r : RoomId} {t : String} {i : Int} {d : D} {cur : Int64} {k : List (RoomOp D)}
      {pc' : Pc D} {ft : AList (fun _ : String => Int64)} {n : Int64} : pc'.settled = true →
      Books cfg (.member r (.accept t cur i d :: k)) ft n pc' (ft.insert t (cur + chunkSize d)) n
  | rollback {r : RoomId} {size : Int64} {k : List (RoomOp D)} {pc' : Pc D}
      {ft : AList (fun _ : String => Int64)} {n : Int64} : pc'.settled = true →
      Books cfg (.member r (.rollback size :: k)) ft n pc' ft (n + -size)
  | release {r : RoomId} {t : String} {b : Int64} {k : List (RoomOp D)}
      {ft : AList (fun _ : String => Int64)} {n : Int64} : ft.lookup t = some b →
      Books cfg (.member r (.release t :: k)) ft n (.member r (.forget t :: k)) ft (n + -b)
  | forget {r : RoomId} {t : String} {k : List (RoomOp D)} {pc' : Pc D}
      {ft : AList (fun _ : String => Int64)} {n : Int64} : pc'.settled = true →
      Books cfg (.member r (.forget t :: k)) ft n pc' (ft.erase t) n
  /-- The deferred release takes the map. -/
  | take {ft : AList (fun _ : String => Int64)} {n : Int64} :
      Books cfg .deferSession ft n (.deferBytes (ft.entries.map Sigma.snd)) ft n
  | give {b : Int64} {rest : List Int64} {ft : AList (fun _ : String => Int64)} {n : Int64} :
      Books cfg (.deferBytes (b :: rest)) ft n (.deferBytes rest) ft (n + -b)
  | exit {ft : AList (fun _ : String => Int64)} {n : Int64} :
      Books cfg (.deferBytes []) ft n .exited ft n

theorem owed_settled {pc : Pc D} (h : pc.settled = true) (ft : AList (fun _ : String => Int64)) :
    owed ft pc = total ft := by
  unfold Pc.settled at h
  unfold owed
  split at h <;> simp_all

/-- Only `c` moves, as its books allow. -/
structure Moves (cfg : Config) (c : ClientId) (s s' : State D) : Prop where
  others : ∀ d, d ≠ c → s'.own d = s.own d
  started : s'.started = s.started
  drawn : s.drawn ⊆ s'.drawn
  books : Books cfg (s.conns c).pc (s.conns c).fileTransfers s.inflight
    (s'.conns c).pc (s'.conns c).fileTransfers s'.inflight
  sock : ∀ d, (s.conns d).sockClosed = true → (s'.conns d).sockClosed = true

/-- Only `c` moves, and the counter moves with what `c` owes. -/
structure Local (c : ClientId) (s s' : State D) : Prop where
  others : ∀ d, d ≠ c → s'.own d = s.own d
  started : s'.started = s.started
  drawn : s.drawn ⊆ s'.drawn
  inflight : s'.inflight - owed (s'.conns c).fileTransfers (s'.conns c).pc =
    s.inflight - owed (s.conns c).fileTransfers (s.conns c).pc
  ready : Ready (s'.conns c).fileTransfers (s'.conns c).pc

variable {s s₁ s' : State D} {c : ClientId} {r : RoomId} {k : List (RoomOp D)} {draw : Handle}

namespace Ledger

/-- A step of one accepted connection keeps the ledger. -/
theorem local_step (h : Ledger s) (hc : c ∈ s.started) (hl : Local c s s') : Ledger s' where
  drawn d hd := hl.drawn (h.drawn d (hl.started ▸ hd))
  started d hd := by
    rw [hl.started]
    by_cases hdc : d = c
    · exact hdc ▸ hc
    · exact h.started d ((own_eq (hl.others d hdc)).1 ▸ hd)
  balance := by
    rw [hl.started, ← Finset.add_sum_erase _ _ hc]
    have hrest : ∑ d ∈ s.started.erase c, owed (s'.conns d).fileTransfers (s'.conns d).pc =
        ∑ d ∈ s.started.erase c, owed (s.conns d).fileTransfers (s.conns d).pc := by
      refine Finset.sum_congr rfl fun d hd => ?_
      obtain ⟨hpc, hft⟩ := own_eq (hl.others d (Finset.ne_of_mem_erase hd))
      rw [hpc, hft]
    have hold := h.balance
    rw [← Finset.add_sum_erase _ _ hc] at hold
    rw [hrest, ← sub_eq_iff_eq_add', hl.inflight, hold]
    abel
  ready d := by
    by_cases hdc : d = c
    · exact hdc ▸ hl.ready
    · obtain ⟨hpc, hft⟩ := own_eq (hl.others d hdc)
      rw [hpc, hft]
      exact h.ready d

/-- A step that leaves connections and counter alone keeps the ledger. -/
theorem frame (h : Ledger s) (hf : Frame s s') : Ledger s' where
  drawn d hd := hf.drawn (h.drawn d (hf.started ▸ hd))
  started d hd := by
    rw [hf.started]
    exact h.started d ((own_eq (congrFun hf.own d)).1 ▸ hd)
  balance := by
    rw [hf.inflight, hf.started, h.balance]
    refine Finset.sum_congr rfl fun d _ => ?_
    obtain ⟨hpc, hft⟩ := own_eq (congrFun hf.own d)
    rw [hpc, hft]
  ready d := by
    obtain ⟨hpc, hft⟩ := own_eq (congrFun hf.own d)
    rw [hpc, hft]
    exact h.ready d

end Ledger

theorem Books.reads {pc pc' : Pc D} {ft ft' : AList (fun _ : String => Int64)} {n n' : Int64}
    (hb : Books cfg pc ft n pc' ft' n') {t : String} {kid d : D}
    (h : pc' = .member r (.fileStart t kid d :: k)) : pc = .member r [] := by
  cases hb <;> simp_all [Pc.settled]

/-- What a connection owes moves with the counter, and what its next operation takes for granted
holds, unless that operation opens a transfer. -/
theorem Books.balanced {pc pc' : Pc D} {ft ft' : AList (fun _ : String => Int64)} {n n' : Int64}
    (hb : Books cfg pc ft n pc' ft' n') (hready : Ready ft pc)
    (hstart : ∀ r t kid d k, pc' = .member r (.fileStart t kid d :: k) → count ft t = 0) :
    n' - owed ft' pc' = n - owed ft pc ∧ Ready ft' pc' := by
  cases hb with
  | quiet h h' => exact ⟨by rw [owed_settled h, owed_settled h'], ready_settled h' _⟩
  | start => exact ⟨rfl, hstart _ _ _ _ _ rfl⟩
  | reset h' =>
    refine ⟨?_, ready_settled h' _⟩
    have hzero : count ft _ = 0 := hready
    rw [owed_settled h', total_insert_eq, ← count, hzero]
    simp [owed]
  | check hcur _ => exact ⟨rfl, hcur⟩
  | passed _ => exact ⟨by simp only [owed]; abel, hready⟩
  | refuse => exact ⟨by simp only [owed]; abel, trivial⟩
  | accept h' =>
    refine ⟨?_, ready_settled h' _⟩
    have hcur : ft.lookup _ = some _ := hready
    rw [owed_settled h', total_insert_eq, hcur, Option.getD_some]
    simp only [owed]
    abel
  | rollback h' =>
    refine ⟨?_, ready_settled h' _⟩
    rw [owed_settled h']
    simp only [owed]
    abel
  | release hb =>
    refine ⟨?_, trivial⟩
    simp only [owed, count, hb, Option.getD_some]
    abel
  | forget h' =>
    refine ⟨?_, ready_settled h' _⟩
    rw [owed_settled h', owed, total_erase _ ft, count]
    abel
  | take =>
    refine ⟨rfl, fun hnil => ?_⟩
    rw [hnil]
    rfl
  | give =>
    refine ⟨?_, fun hnil => absurd (hready hnil) (by simp)⟩
    simp only [owed, List.sum_cons]
    abel
  | exit => exact ⟨rfl, trivial⟩

namespace Moves

/-- `c` goes from `s₁`, which has the connections of `s`, to `f (s₁.conns c)`. -/
theorem setConn {f : Conn D → Conn D} (hf : Frame s s₁)
    (hsock : ∀ k : Conn D, k.sockClosed = true → (f k).sockClosed = true)
    (hft : (f (s₁.conns c)).fileTransfers = (s₁.conns c).fileTransfers)
    (hb : Books cfg (s.conns c).pc (s.conns c).fileTransfers s.inflight (f (s₁.conns c)).pc
      (s.conns c).fileTransfers s.inflight) : Moves cfg c s (s₁.setConn c f) where
  others d hd := by
    rw [← hf.own]
    simp [State.own, State.setConn, hd]
  started := hf.started
  drawn := hf.drawn
  books := by
    have h := (own_eq (congrFun hf.own c)).2
    simpa only [State.setConn, Function.update_self, hft, h, hf.inflight] using hb
  sock d hd := by
    by_cases hdc : d = c
    · subst hdc
      simpa [State.setConn] using hsock _ (hf.sock d hd)
    · simpa [State.setConn, hdc] using hf.sock d hd

theorem goto {pc : Pc D} (hf : Frame s s₁)
    (hb : Books cfg (s.conns c).pc (s.conns c).fileTransfers s.inflight pc
      (s.conns c).fileTransfers s.inflight) : Moves cfg c s (s₁.goto c pc) :=
  setConn hf (fun _ h => h) rfl hb

/-- `c` replaces its transfers and goes on. -/
theorem put {g : AList (fun _ : String => Int64) → AList (fun _ : String => Int64)} {pc : Pc D}
    (hb : Books cfg (s.conns c).pc (s.conns c).fileTransfers s.inflight pc
      (g (s.conns c).fileTransfers) s.inflight) :
    Moves cfg c s
      ((s.setConn c fun n => { n with fileTransfers := g n.fileTransfers }).goto c pc) where
  others d hd := by simp [State.own, State.goto, State.setConn, hd]
  started := rfl
  drawn := List.Subset.refl _
  books := by simpa [State.goto, State.setConn] using hb
  sock d hd := by
    by_cases hdc : d = c
    · subst hdc
      simpa [State.goto, State.setConn] using hd
    · simpa [State.goto, State.setConn, hdc] using hd

/-- The counter moves by `x`. -/
theorem goto_add {pc : Pc D} {x : Int64}
    (hb : Books cfg (s.conns c).pc (s.conns c).fileTransfers s.inflight pc
      (s.conns c).fileTransfers (s.inflight + x)) :
    Moves cfg c s ((s.addInflight x).goto c pc) where
  others d hd := by simp [State.own, State.goto, State.setConn, State.addInflight, hd]
  started := rfl
  drawn := List.Subset.refl _
  books := by simpa [State.goto, State.setConn, State.addInflight] using hb
  sock d hd := by
    by_cases hdc : d = c
    · subst hdc
      simpa [State.goto, State.setConn, State.addInflight] using hd
    · simpa [State.goto, State.setConn, State.addInflight, hdc] using hd

theorem clientSend {dst : ClientId} {m : ServerMsg D} {pc : Pc D}
    (h : (s.conns c).pc.settled = true) (hpc : pc.settled = true) :
    Moves cfg c s (s.clientSend c dst m pc) := by
  unfold State.clientSend
  split
  · exact setConn (State.Quiet.note _).frame (fun _ h => h) rfl (.quiet h rfl)
  · exact goto (State.Quiet.trySend m).frame (.quiet h hpc)

end Moves

/-! ## The operations of the relay -/

theorem runOp_moves {op : RoomOp D} (hpc : (s.conns c).pc = .member r (op :: k))
    (hk : ∀ op ∈ k, op.waits = true) (h : runOp cfg s c draw r k op = some s') :
    Moves cfg c s s' := by
  have hset := settled_waits (r := r) hk
  -- an operation that leaves the map and the counter alone
  have stay : ∀ {s₁ : State D} {pc : Pc D}, Frame s s₁ →
      (Pc.member r (op :: k)).settled = true → pc.settled = true → Moves cfg c s (s₁.goto c pc) :=
    fun hf h₁ h₂ => .goto hf (hpc ▸ .quiet h₁ h₂)
  cases op with
  | setSessionRoom =>
    cases h
    obtain he | ⟨sc, -, he⟩ := s.setSessionRoom_eq (s.conns c).session r <;> rw [he]
    · exact stay State.Quiet.rfl.frame rfl hset
    · exact stay ⟨rfl, rfl, List.Subset.refl _, rfl, fun _ h => h⟩ rfl hset
  | snapshotMembers role => cases h; exact stay State.Quiet.rfl.frame rfl rfl
  | endHandshake h' => cases h; exact stay ⟨rfl, rfl, List.Subset.refl _, rfl, fun _ h => h⟩ rfl hset
  | broadcastPresence => cases h; exact stay State.Quiet.broadcastPresence.frame rfl hset
  | send dst m => cases h; exact .clientSend (by rw [hpc]; rfl) hset
  | relay body => cases h; exact stay (State.Quiet.relay body).frame rfl hset
  | ownerCheck q =>
    have hq := (State.Quiet.noteCheck (s := s) c r q).frame
    simp only [runOp] at h
    split at h
    · cases h; exact stay hq rfl rfl
    · split at h <;> cases h
      · exact stay hq rfl rfl
      · exact stay hq rfl hset
  | owned q =>
    cases q with
    | invite =>
      simp only [runOp, runOwned, State.drawId] at h
      split at h
      · simp at h
      · cases h
        exact stay ⟨rfl, rfl, List.subset_cons_self _ _, rfl, fun _ h => h⟩ rfl rfl
    | rekey t d => cases h; exact stay (State.Quiet.sendTo _).frame rfl hset
    | transfer t =>
      simp only [runOp, runOwned] at h
      split at h <;> cases h
      · rename_i h₁
        exact stay (State.Quiet.setOwner h₁).frame rfl rfl
      · exact stay State.Quiet.rfl.frame rfl hset
    | kick t =>
      simp only [runOp, runOwned] at h
      split at h <;> cases h
      · rename_i h₁
        exact stay (State.Quiet.removeMember h₁).frame rfl rfl
      · exact stay State.Quiet.rfl.frame rfl hset
    | roster d => cases h; exact stay (State.Quiet.broadcastExcept _).frame rfl hset
  | clearSessionByClient v =>
    cases h
    obtain ⟨m, hm, -⟩ := s.clearSessionByClient_eq "" v
    rw [hm]
    exact stay ⟨rfl, rfl, List.Subset.refl _, rfl, fun _ h => h⟩ rfl hset
  | getHandshake type h' d =>
    simp only [runOp] at h
    split at h <;> cases h
    · exact stay State.Quiet.rfl.frame rfl rfl
    · exact stay State.Quiet.rfl.frame rfl hset
  | fileStart t kid d => cases h; exact .put (g := (·.insert t 0)) (hpc ▸ .reset rfl)
  | fileChunk t i d =>
    simp only [runOp] at h
    split at h
    · cases h; exact stay State.Quiet.rfl.frame rfl hset
    · rename_i cur hcur
      split at h <;> cases h
      · exact stay State.Quiet.rfl.frame rfl rfl
      · rename_i hle
        exact .goto State.Quiet.rfl.frame (hpc ▸ .check hcur hle)
  | addInflight t cur i d =>
    simp only [runOp] at h
    split at h <;> cases h
    · exact .goto_add (hpc ▸ .refuse)
    · rename_i hle
      exact .goto_add (hpc ▸ .passed hle)
  | accept t cur i d =>
    cases h
    exact .put (g := (·.insert t (cur + chunkSize d))) (hpc ▸ .accept rfl)
  | rollback size => cases h; exact .goto_add (hpc ▸ .rollback hset)
  | release t =>
    simp only [runOp] at h
    split at h <;> cases h
    · rename_i b hb
      exact .goto_add (hpc ▸ .release hb)
    · exact stay State.Quiet.rfl.frame rfl hset
  | forget t => cases h; exact .put (g := (·.erase t)) (hpc ▸ .forget hset)
  | broadcastFile m => cases h; exact stay (State.Quiet.broadcastExcept m).frame rfl hset

theorem runPc_moves {allow : Bool} (htidy : (s.conns c).pc.tidy)
    (h : runPc cfg s c draw allow (s.conns c).pc = some s') : Moves cfg c s s' := by
  -- an operation that leaves the map and the counter alone
  have stay : ∀ {s₁ : State D} {pc : Pc D}, Frame s s₁ → (s.conns c).pc.settled = true →
      pc.settled = true → Moves cfg c s (s₁.goto c pc) := fun hf h₁ h₂ => .goto hf (.quiet h₁ h₂)
  cases hpc : (s.conns c).pc <;> rw [hpc] at h stay
  case absent | hsLoop | exited => simp [runPc] at h
  case allowCreate | allowRedeem =>
    cases h
    cases allow <;> exact stay State.Quiet.rfl.frame rfl rfl
  case claimCreate | claimRedeem =>
    simp only [runPc] at h
    split at h <;> cases h
    · rename_i h₁
      obtain ⟨-, rfl⟩ := State.tryClaimSession_eq_some h₁
      exact stay ⟨rfl, rfl, List.Subset.refl _, rfl, fun _ h => h⟩ rfl rfl
    · exact stay State.Quiet.rfl.frame rfl rfl
  case createRoom | newHandshake =>
    simp only [runPc, State.drawId] at h
    split at h
    · simp at h
    · cases h
      exact stay ⟨rfl, rfl, List.subset_cons_self _ _, rfl, fun _ h => h⟩ rfl rfl
  case addOwner | hsEnter =>
    simp only [runPc] at h
    split at h <;> cases h
    · rename_i h₁
      exact stay (State.Quiet.add h₁).frame rfl rfl
    · exact stay State.Quiet.rfl.frame rfl rfl
  case redeemInvite tok =>
    simp only [runPc] at h
    have hf : Frame s (s.redeemInvite tok).1 := by
      unfold State.redeemInvite
      split <;> exact ⟨rfl, rfl, List.Subset.refl _, rfl, fun _ h => h⟩
    split at h <;> rename_i heq <;> cases h <;> rw [heq] at hf
    · exact stay ⟨hf.own, hf.started, hf.drawn, hf.inflight, hf.sock⟩ rfl rfl
    · exact stay hf rfl rfl
  case getRoom | hasCapacity =>
    cases h
    split <;> exact stay State.Quiet.rfl.frame rfl rfl
  case ownerClient | hsRelay =>
    simp only [runPc] at h
    split at h <;> cases h <;> exact stay State.Quiet.rfl.frame rfl rfl
  case sendRedeemOk | sendInviteRedeemed | hsSend | hsFull | fail =>
    cases h
    exact .clientSend (by rw [hpc]; rfl) rfl
  case endHandshake => cases h; exact stay ⟨rfl, rfl, List.Subset.refl _, rfl, fun _ h => h⟩ rfl rfl
  case closeOut => cases h; exact stay State.Quiet.closeChan.frame rfl rfl
  case member r todo =>
    cases todo with
    | nil => simp [runPc] at h
    | cons op k => exact runOp_moves hpc (htidy r _ hpc) h
  case leave r =>
    simp only [runPc] at h
    split at h
    · cases h; exact stay State.Quiet.rfl.frame rfl rfl
    · split at h <;> cases h
      · exact stay State.Quiet.rfl.frame rfl rfl
      · split <;> exact stay State.Quiet.dropMember.frame rfl rfl
  case leaveClose r reason =>
    simp only [runPc] at h
    split at h <;> cases h
    · rename_i h₁
      exact stay (State.Quiet.closeBegin h₁).frame rfl rfl
    · exact stay State.Quiet.rfl.frame rfl rfl
  case leaveWait | awaitDone =>
    simp only [runPc] at h
    split at h
    · cases h; exact stay State.Quiet.rfl.frame rfl rfl
    · simp at h
  case clearSession =>
    cases h
    obtain ⟨m, hm, -⟩ := s.clearSession_eq (s.conns c).session c
    rw [hm]
    exact stay ⟨rfl, rfl, List.Subset.refl _, rfl, fun _ h => h⟩ rfl rfl
  case deferHandshakes => cases h; exact stay ⟨rfl, rfl, List.Subset.refl _, rfl, fun _ h => h⟩ rfl rfl
  case deferSession =>
    cases h
    obtain ⟨m, hm, -⟩ := s.clearSession_eq (s.conns c).session c
    rw [hm]
    exact .goto ⟨rfl, rfl, List.Subset.refl _, rfl, fun _ h => h⟩ (hpc ▸ .take)
  case deferBytes rest =>
    cases rest with
    | nil => cases h; exact .goto State.Quiet.rfl.frame (hpc ▸ .exit)
    | cons b rest => cases h; exact .goto_add (hpc ▸ .give)

theorem readFrame_moves {m : ClientMsg D} {pc : Pc D}
    (h : readFrame c m (s.conns c).pc = some pc) : Moves cfg c s (s.goto c pc) := by
  refine .goto State.Quiet.rfl.frame ?_
  cases hpc : (s.conns c).pc <;> rw [hpc] at h <;> simp only [readFrame, reduceCtorEq] at h
  case hsLoop r h' =>
    cases h
    refine .quiet rfl ?_
    cases m <;> simp only [joinerFrame] <;> (try split) <;> rfl
  case member r todo =>
    cases todo with
    | cons op k => simp at h
    | nil =>
      simp only at h
      split at h <;> cases h
      · rename_i todo hm
        cases m <;> simp only [memberFrame, Option.some.injEq, reduceCtorEq] at hm <;>
          subst hm <;> (try split) <;> first | exact .start | exact .quiet rfl rfl
      · exact .quiet rfl rfl

theorem readFails_moves {pc : Pc D} (h : readFails (s.conns c).pc = some pc) :
    Moves cfg c s (s.setConn c fun k => { k with pc, sockClosed := true }) := by
  refine .setConn State.Quiet.rfl.frame (fun _ _ => rfl) rfl ?_
  cases hpc : (s.conns c).pc <;> rw [hpc] at h <;> simp only [readFails, reduceCtorEq] at h
  case hsLoop r h' => cases h; exact .quiet rfl rfl
  case member r todo =>
    cases todo with
    | cons op k => simp at h
    | nil => cases h; exact .quiet rfl rfl

/-- A connection is accepted; it has no transfers. -/
structure Connects (c : ClientId) (s s' : State D) : Prop where
  fresh : c ∉ s.drawn
  others : ∀ d, d ≠ c → s'.own d = s.own d
  started : s'.started = insert c s.started
  drawn : s'.drawn = c :: s.drawn
  inflight : s'.inflight = s.inflight
  settled : (s'.conns c).pc.settled = true
  empty : (s'.conns c).fileTransfers = ∅
  sock : ∀ d, d ≠ c → (s.conns d).sockClosed = true → (s'.conns d).sockClosed = true

theorem connect_connects {hello : ClientMsg D} (h : step cfg s (.connect c hello) = some s') :
    Connects c s s' := by
  simp only [step, State.drawId] at h
  split at h
  · simp at h
  · rename_i hc
    cases h
    have hset : (helloPc hello).settled = true := by cases hello <;> rfl
    refine ⟨hc, fun d hd => ?_, rfl, rfl, rfl, ?_, ?_, fun d hd hd' => ?_⟩
    · simp [State.own, State.setConn, hd]
    · simpa [State.setConn] using hset
    · simp [State.setConn]
    · simpa [State.setConn, hd] using hd'

/-- **What a step does to the byte count.** It accepts a connection, or it leaves transfers and
counter alone, or it moves one connection as its books allow. A transfer is about to be opened only
right after its `file_start` was read. -/
theorem step_moves (hs : Sound cfg s) {a : Act D} (h : step cfg s a = some s') :
    (∃ c, Connects c s s') ∨ Frame s s' ∨
      ∃ c, (s.conns c).pc ≠ .absent ∧ Moves cfg c s s' ∧
        ∀ r t kid d k, (s'.conns c).pc = .member r (.fileStart t kid d :: k) →
          ∃ m, a = .frame c m ∧ readFrame c m (s.conns c).pc = some (s'.conns c).pc := by
  cases a with
  | connect c hello => exact .inl ⟨c, connect_connects h⟩
  | frame c m =>
    simp only [step] at h
    split at h
    · simp at h
    · obtain ⟨pc', hread, rfl⟩ := Option.map_eq_some_iff.mp h
      refine .inr (.inr ⟨c, fun hpc => ?_, readFrame_moves hread, fun _ _ _ _ _ _ => ?_⟩)
      · simp [hpc, readFrame] at hread
      · exact ⟨m, rfl, by simpa [State.goto, State.setConn] using hread⟩
  | readErr c =>
    obtain ⟨pc', hread, rfl⟩ := Option.map_eq_some_iff.mp h
    refine .inr (.inr ⟨c, fun hpc => ?_, readFails_moves hread, fun r t kid d k hpc' => ?_⟩)
    · simp [hpc, readFails] at hread
    · simp only [State.setConn, Function.update_self] at hpc'
      rw [hpc'] at hread
      unfold readFails at hread
      split at hread <;> simp at hread
  | run c draw allow =>
    have hm := runPc_moves (hs.tidy.1 c) h
    refine .inr (.inr ⟨c, fun hpc => ?_, hm, fun r t kid d k hpc' => ?_⟩)
    · simp [step, hpc, runPc] at h
    · -- only a read brings a `file_start` to the front
      have hnil := hm.books.reads hpc'
      simp [step, hnil, runPc] at h
  | pump c =>
    simp only [step] at h
    split at h
    · simp at h
    · split at h
      · simp at h
      · cases h
        refine .inr (.inl (State.Quiet.frame ?_))
        exact .setConn _ (fun _ => rfl) fun _ h => h
  | pumpExit c =>
    simp only [step] at h
    split at h
    · simp at h
    · cases h
      refine .inr (.inl (State.Quiet.frame ?_))
      exact .setConn _ (fun _ => rfl) fun _ _ => rfl
  | drop c =>
    cases h
    refine .inr (.inl (State.Quiet.frame ?_))
    exact .setConn _ (fun _ => rfl) fun _ _ => rfl
  | closing r pick => exact .inr (.inl (runClosing_frame h))
  | janitor pick => exact .inr (.inl (runJanitor_frame h))
  | shutdown pick => exact .inr (.inl (runShutdown_frame h))
  | clock t => cases h; exact .inr (.inl ⟨rfl, rfl, List.Subset.refl _, rfl, fun _ h => h⟩)

/-- No step opens a socket again. -/
theorem sock_step (hs : Sound cfg s) {a : Act D} (h : step cfg s a = some s') {d : ClientId}
    (hd : d ∈ s.drawn) (hcl : (s.conns d).sockClosed = true) : (s'.conns d).sockClosed = true := by
  obtain ⟨c, hc⟩ | hf | ⟨c, -, hm, -⟩ := step_moves hs h
  · exact hc.sock d (fun he => hc.fresh (he ▸ hd)) hcl
  · exact hf.sock d hcl
  · exact hm.sock d hcl

/-! ## Runs -/

/-- A `file_start` for a transfer that has bytes counted already. -/
def restarts (s : State D) : Act D → Bool
  | .frame c (.fileStart t _ _) => count (s.conns c).fileTransfers t ≠ 0
  | _ => false

namespace Ledger

/-- A new connection owes nothing. -/
theorem connect (h : Ledger s) (hc : Connects c s s') : Ledger s' := by
  have hns : c ∉ s.started := fun hm => hc.fresh (h.drawn c hm)
  have hown : ∀ d, d ≠ c → (s'.conns d).pc = (s.conns d).pc ∧
      (s'.conns d).fileTransfers = (s.conns d).fileTransfers := fun d hd => own_eq (hc.others d hd)
  refine ⟨fun d hd => ?_, fun d hd => ?_, ?_, fun d => ?_⟩
  · rw [hc.drawn]
    obtain rfl | hd := Finset.mem_insert.mp (hc.started ▸ hd)
    · exact List.mem_cons_self
    · exact List.mem_cons_of_mem c (h.drawn d hd)
  · rw [hc.started]
    by_cases hdc : d = c
    · exact hdc ▸ Finset.mem_insert_self c s.started
    · exact Finset.mem_insert_of_mem (h.started d ((hown d hdc).1 ▸ hd))
  · rw [hc.started, Finset.sum_insert hns, owed_settled hc.settled, hc.empty, total_empty, zero_add,
      hc.inflight, h.balance]
    refine Finset.sum_congr rfl fun d hd => ?_
    obtain ⟨hpc, hft⟩ := hown d (ne_of_mem_of_not_mem hd hns)
    rw [hpc, hft]
  · by_cases hdc : d = c
    · exact hdc ▸ ready_settled hc.settled _
    · obtain ⟨hpc, hft⟩ := hown d hdc
      rw [hpc, hft]
      exact h.ready d

theorem step (hs : Sound cfg s) (h : Ledger s) {a : Act D} (hok : restarts s a = false)
    (hstep : step cfg s a = some s') : Ledger s' := by
  obtain ⟨c, hc⟩ | hf | ⟨c, hpc, hm, hread⟩ := step_moves hs hstep
  · exact h.connect hc
  · exact h.frame hf
  · have hb := hm.books.balanced (h.ready c) fun r t kid d k hpc' => ?_
    · exact h.local_step (h.started c hpc) ⟨hm.others, hm.started, hm.drawn, hb.1, hb.2⟩
    · obtain ⟨m, rfl, hm'⟩ := hread r t kid d k hpc'
      obtain rfl := opened_by (hpc' ▸ hm')
      simpa [restarts] using hok

theorem init : Ledger ({} : State D) := by
  constructor <;> simp [Ready]

end Ledger

/-- The bytes a connection's map holds; those its deferred release has still to give back while it
runs; none once the session has ended. -/
def held (k : Conn D) : Int64 :=
  match k.pc with
  | .deferBytes rest => rest.sum
  | .exited => 0
  | _ => total k.fileTransfers

/-- In the middle of a frame. -/
def Pc.midFrame : Pc D → Bool
  | .member _ (_ :: _) => true
  | _ => false

/-- **The counter is the sum of the maps.** In every run without a `file_start` for a transfer that
has bytes counted: whenever no handler is in the middle of a frame, the counter is the sum of what
the connections hold, and 0 if no transfer is open. -/
theorem inflight_balanced (hr : (relay (D := D) cfg).Reach (fun s a => restarts s a = false) s)
    (hidle : ∀ c ∈ s.started, (s.conns c).pc.midFrame = false) :
    s.inflight = ∑ c ∈ s.started, held (s.conns c) ∧
      ((∀ c ∈ s.started, (s.conns c).fileTransfers.entries = [] ∨ (s.conns c).pc = .exited) →
        s.inflight = 0) := by
  have h : Ledger s := hr.invariant Ledger.init
    fun _ _ _ hr' h hok hstep => h.step (sound_of_reach hr') hok hstep
  have hheld : ∀ c ∈ s.started, owed (s.conns c).fileTransfers (s.conns c).pc =
      held (s.conns c) := by
    intro c hc
    have hmid := hidle c hc
    unfold held
    cases hpc : (s.conns c).pc <;> try rfl
    case member r todo =>
      cases todo with
      | nil => rfl
      | cons op k => simp [hpc, Pc.midFrame] at hmid
  have hsum := h.balance.trans (Finset.sum_congr rfl hheld)
  refine ⟨hsum, fun hopen => hsum.trans (Finset.sum_eq_zero fun c hc => ?_)⟩
  have hready := h.ready c
  unfold held
  obtain hnil | hex := hopen c hc
  · have hft : (s.conns c).fileTransfers = ∅ := AList.ext hnil
    cases hpc : (s.conns c).pc <;> simp only [hft, total_empty]
    case deferBytes rest =>
      rw [hpc] at hready
      simp [hready hft]
  · simp [hex]

end

def sampleChunk : List (Act String) :=
  .frame 1 (.fileStart "f" "" "") :: ops 1 2 ++ .frame 1 (.fileChunk "f" 0 "abc") :: ops 1 4

theorem uploading_some : ((relay sampleConfig).runFrom (fun s a => restarts s a = false) {}
    (sampleOpen ++ sampleChunk)).isSome = true := by decide +kernel

/-- Client 1 has sent 3 bytes of "f". -/
def uploading : State String :=
  ((relay sampleConfig).runFrom (fun s a => restarts s a = false) {}
    (sampleOpen ++ sampleChunk)).get uploading_some

theorem inflight_balanced_sample :
    uploading.inflight = ∑ c ∈ uploading.started, held (uploading.conns c) :=
  (inflight_balanced (Machine.reach_get uploading_some) (by decide +kernel)).1

/-- Client 1 starts "f" twice with 3 bytes in between, and ends it. -/
def restarted : State String :=
  ((relay sampleConfig).run (sampleOpen ++ sampleChunk ++
    .frame 1 (.fileStart "f" "" "") :: ops 1 2 ++ .frame 1 (.fileEnd "f") :: ops 1 3)).get
    (by decide +kernel)

theorem inflight_leaks : (relay sampleConfig).Reach Machine.Any restarted ∧
    (∀ c ∈ restarted.started, (restarted.conns c).pc.midFrame = false) ∧
    (∀ c ∈ restarted.started, (restarted.conns c).fileTransfers.entries = []) ∧
    restarted.inflight = 3 ∧ ∑ c ∈ restarted.started, held (restarted.conns c) = 0 :=
  ⟨Machine.reach_of_run (Option.some_get _).symm, by decide +kernel, by decide +kernel,
    by decide +kernel, by decide +kernel⟩

end E2EAnon.Relay
