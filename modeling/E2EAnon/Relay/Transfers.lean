import E2EAnon.Relay.Inflight
import E2EAnon.Relay.Order

/-!
# How a transfer ends for its receivers (`server.go:126-139`, `323-381`)

`file_end`, `file_abort` and the caps tell the others that a transfer is over. The other exits, a
`leave` frame, a failed read (which is also how a kick ends) and a panic, go to the deferred calls of
`session`, which give back the bytes and tell nobody. `LeftOpen c t` of the frames a member has got is
a start of `c`'s transfer `t` without an end after it; while it holds, the transfer is in
`FileTransfers` or its end is still to be broadcast (`Unfinished`). So whoever goes with nothing
`Unfinished` leaves nothing open (`transfers_ended`).
-/

namespace E2EAnon.Relay

open Lib

variable {D : Type} {cfg : Config}

def starts (c : ClientId) (t : String) (x : ServerMsg D) : Bool :=
  x.type = .fileStart ∧ x.transfer = some t ∧ x.fromId = some c

def ends (c : ClientId) (t : String) (x : ServerMsg D) : Bool :=
  (x.type = .fileEnd ∨ x.type = .fileAbort) ∧ x.transfer = some t ∧ x.fromId = some c

/-- A start of the transfer and no end after it. -/
def LeftOpen (c : ClientId) (t : String) (xs : List (ServerMsg D)) : Prop :=
  ∃ ys x zs, xs = ys ++ x :: zs ∧ starts c t x = true ∧ ∀ z ∈ zs, ends c t z = false

/-- A session that has ended has left no member of a room with one of its transfers open. -/
def AllEnded (l : List (Machine.Transition (State D) (Act D))) (s : State D) : Prop :=
  ∀ c, (s.conns c).pc = .exited → ∀ r, ∀ m ∈ (s.room r).members, ∀ t,
    ¬ LeftOpen c t (received m l)

/-- The operation broadcasts an end of one of `c`'s transfers. -/
def RoomOp.tellsEnd (c : ClientId) (t : String) : RoomOp D → Bool
  | .broadcastFile x => ends c t x
  | _ => false

def Conn.busy (k : Conn D) (rest : List (RoomOp D)) : Bool :=
  k.fileTransfers.entries ≠ [] || rest.any fun
    | .broadcastFile _ => true
    | _ => false

/-- A goroutine leaves its member loop with a transfer open, or with a file frame to be broadcast. -/
def abandons (s : State D) : Act D → Bool
  | .frame c .leave | .readErr c =>
    match (s.conns c).pc with
    | .member _ [] => (s.conns c).busy []
    | _ => false
  | .run c _ _ =>
    match (s.conns c).pc with
    | .member _ (.send dst _ :: k) => (s.conns dst).outClosed && (s.conns c).busy k
    | _ => false
  | _ => false

/-! ## Frames in a queue -/

theorem leftOpen_append {c : ClientId} {t : String} {xs ys : List (ServerMsg D)}
    (h : LeftOpen c t (xs ++ ys)) :
    (LeftOpen c t xs ∧ ∀ z ∈ ys, ends c t z = false) ∨ ∃ x ∈ ys, starts c t x = true := by
  obtain ⟨as, x, bs, he, hx, hbs⟩ := h
  obtain ⟨cs, rfl, hys⟩ | ⟨cs, rfl, hcs⟩ := List.append_eq_append_iff.mp he
  · exact .inr ⟨x, by simp [hys], hx⟩
  · cases cs with
    | nil =>
      have hys : ys = x :: bs := by simpa using hcs.symm
      exact .inr ⟨x, by simp [hys], hx⟩
    | cons z cs =>
      obtain ⟨rfl, rfl⟩ := List.cons.inj hcs
      exact .inl ⟨⟨as, x, cs, rfl, hx, fun z hz => hbs z (by simp [hz])⟩,
        fun z hz => hbs z (by simp [hz])⟩

theorem leftOpen_of_getElem {c : ClientId} {t : String} {xs : List (ServerMsg D)} {n : Nat}
    (h : (xs[n]?).any (starts c t) = true) (hno : (xs.drop (n + 1)).any (ends c t) = false) :
    LeftOpen c t xs := by
  obtain ⟨x, hx, hstart⟩ := (Option.any_eq_true _ _).mp h
  obtain ⟨hlt, rfl⟩ := List.getElem?_eq_some_iff.mp hx
  refine ⟨xs.take n, _, xs.drop (n + 1), ?_, hstart, fun z hz => ?_⟩
  · rw [List.getElem_cons_drop, List.take_append_drop]
  · exact Bool.eq_false_of_not_eq_true (List.any_eq_false.mp hno z hz)

/-! ## What a handler has still to do -/

/-- Where a transfer is given back, its end is broadcast afterwards. -/
def Closes (c : ClientId) : List (RoomOp D) → Prop
  | [] => True
  | op :: k => (∀ t, op = .release t ∨ op = .forget t → k.any (·.tellsEnd c t) = true) ∧ Closes c k

/-- Only the first operation may broadcast a start, and then the transfer is in the map. -/
structure Orderly (c : ClientId) (ft : AList (fun _ : String => Int64)) (todo : List (RoomOp D)) :
    Prop where
  closes : Closes c todo
  later  : ∀ x, .broadcastFile x ∈ todo.tail → x.type ≠ .fileStart
  first  : ∀ x t, todo.head? = some (.broadcastFile x) → starts c t x = true → t ∈ ft

theorem ends_fileMsg {c : ClientId} {t : String} {type : ServerType}
    (h : type = .fileEnd ∨ type = .fileAbort) : ends c t (fileMsg (D := D) type t c) = true := by
  obtain rfl | rfl := h <;> simp [ends, fileMsg]

theorem orderly_memberFrame {c : ClientId} {m : ClientMsg D} {todo : List (RoomOp D)}
    {ft : AList (fun _ : String => Int64)} (h : memberFrame c m = some todo) : Orderly c ft todo := by
  cases m <;> simp only [memberFrame, Option.some.injEq, reduceCtorEq] at h <;> subst h
  case fileStart | fileChunk =>
    split <;> exact ⟨by simp [Closes], by simp, by simp⟩
  case fileEnd | fileAbort =>
    split
    · exact ⟨trivial, by simp, by simp⟩
    · exact ⟨by simp [Closes, RoomOp.tellsEnd, ends_fileMsg], by simp [fileMsg], by simp⟩
  all_goals exact ⟨by simp [Closes], by simp, by simp⟩

theorem Orderly.tail {c : ClientId} {op : RoomOp D} {k : List (RoomOp D)}
    {ft ft' : AList (fun _ : String => Int64)} (h : Orderly c ft (op :: k)) : Orderly c ft' k where
  closes := h.closes.2
  later x hx := h.later x (List.mem_of_mem_tail hx)
  first x t hx hs := by
    refine absurd ?_ (h.later x (List.mem_of_head? hx))
    simp only [starts, decide_eq_true_eq] at hs
    exact hs.1

theorem orderly_abortFile {c : ClientId} {k : List (RoomOp D)}
    {ft : AList (fun _ : String => Int64)} (t text : String) (hk : Orderly c ft k)
    (hno : ∀ x, .broadcastFile x ∈ k → x.type ≠ .fileStart) : Orderly c ft (abortFile c t text ++ k) where
  closes := by simp [abortFile, Closes, RoomOp.tellsEnd, ends_fileMsg, hk.closes]
  later x hx := by
    simp only [abortFile, List.cons_append, List.nil_append, List.tail_cons, List.mem_cons,
      reduceCtorEq, RoomOp.broadcastFile.injEq, false_or] at hx
    obtain rfl | hx := hx
    · simp [fileMsg]
    · exact hno x hx
  first := by simp [abortFile]

theorem busy_of_unfinished {c : ClientId} {k : Conn D} {t : String} {rest : List (RoomOp D)}
    (h : t ∈ k.fileTransfers ∨ rest.any (·.tellsEnd c t) = true) : k.busy rest = true := by
  unfold Conn.busy
  rw [Bool.or_eq_true]
  obtain h | h := h
  · refine .inl (decide_eq_true fun hnil => ?_)
    have hempty : k.fileTransfers = ∅ := AList.ext hnil
    simp [hempty] at h
  · refine .inr ?_
    obtain ⟨op, hop, ht⟩ := List.any_eq_true.mp h
    refine List.any_eq_true.mpr ⟨op, hop, ?_⟩
    unfold RoomOp.tellsEnd at ht
    split at ht
    · rfl
    · cases ht

section
variable [Payload D] {s s' : State D} {c : ClientId} {r : RoomId} {draw : Handle}

/-- The operations that take the place of one are in order, once a transfer that is opened is in the
map. -/
theorem Expands.orderly {op : RoomOp D} {new k : List (RoomOp D)}
    {ft ft' : AList (fun _ : String => Int64)} (h : Expands s c r draw op new)
    (ho : Orderly c ft (op :: k)) (hstart : ∀ t kid d, op = .fileStart t kid d → t ∈ ft') :
    Orderly c ft' (new ++ k) := by
  have hk : Orderly c ft' k := ho.tail
  have hno : ∀ x, .broadcastFile x ∈ k → x.type ≠ .fileStart := ho.later
  cases h with
  | done => exact hk
  | fileStart t kid d =>
    refine ⟨by simp [Closes, hk.closes], hno, fun x t' hx hs => ?_⟩
    cases hx
    simp only [starts, fileMsg, decide_eq_true_eq, Option.some.injEq] at hs
    exact hs.2.1 ▸ hstart t kid d rfl
  | tooLarge t i d => exact orderly_abortFile t _ hk hno
  | busy t cur i d =>
    obtain ⟨hcloses, hlater, -⟩ := orderly_abortFile t "server busy, too many transfers" hk hno
    refine ⟨⟨by simp, hcloses⟩, fun x hx => ?_, by simp⟩
    obtain hx | hx := List.mem_cons.mp hx
    · cases hx
    · exact hlater x hx
  | released t =>
    refine ⟨⟨fun t' ht' => ?_, hk.closes⟩, hno, by simp⟩
    obtain ht' | ht' := ht' <;> cases ht'
    exact ho.closes.1 t (.inl rfl)
  | chunk t cur i d =>
    refine ⟨by simp [Closes, hk.closes], hno, fun x t' hx hs => ?_⟩
    cases hx
    simp [starts, fileMsg] at hs
  | _ => exact ⟨by simp [Closes, hk.closes], hno, by simp⟩

/-! ## The map of transfers -/

theorem Books.keeps {pc pc' : Pc D} {ft ft' : AList (fun _ : String => Int64)} {n n' : Int64}
    (h : Books cfg pc ft n pc' ft' n') {t : String} (ht : t ∈ ft) :
    t ∈ ft' ∨ ∃ r k, pc = .member r (.forget t :: k) := by
  cases h with
  | reset | accept => exact .inl (AList.mem_insert _ |>.mpr (.inr ht))
  | @forget r t' k pc' ft n hp =>
    by_cases he : t = t'
    · subst he
      exact .inr ⟨r, k, rfl⟩
    · exact .inl (AList.mem_erase.mpr ⟨he, ht⟩)
  | _ => exact .inl ht

theorem Books.opens {pc pc' : Pc D} {ft ft' : AList (fun _ : String => Int64)} {n n' : Int64}
    (h : Books cfg pc ft n pc' ft' n') {t : String} {kid d : D} {k : List (RoomOp D)}
    (hpc : pc = .member r (.fileStart t kid d :: k)) : t ∈ ft' := by
  cases h with
  | reset =>
    cases hpc
    exact AList.mem_insert _ |>.mpr (.inl rfl)
  | quiet hp =>
    rw [hpc] at hp
    cases hp
  | _ => cases hpc

/-- Only its own goroutine touches the map of a connection. -/
theorem transfers_still {a : Act D} (hs : Sound cfg s) (h : step cfg s a = some s')
    {r : RoomId} {todo : List (RoomOp D)} (hpc : (s.conns c).pc = .member r todo) (ha : ∀ draw allow, a ≠ .run c draw allow) :
    (s'.conns c).fileTransfers = (s.conns c).fileTransfers := by
  have hset (s : State D) (d : ClientId) (f : Conn D → Conn D)
      (hf : ∀ k, (f k).fileTransfers = k.fileTransfers) :
      ((s.setConn d f).conns c).fileTransfers = (s.conns c).fileTransfers := by
    by_cases hd : c = d
    · subst hd
      simp [State.setConn, hf]
    · simp [State.setConn, hd]
  cases a with
  | run d draw allow =>
    have hd : c ≠ d := fun he => ha draw allow (he ▸ rfl)
    exact (own_eq ((runPc_moves (hs.tidy.1 d) h).others c hd)).2
  | connect d hello =>
    have hcon := connect_connects h
    have hd : c ≠ d := by
      rintro rfl
      exact hcon.fresh (member_drawn hs hpc)
    exact (own_eq (hcon.others c hd)).2
  | frame d m =>
    simp only [step] at h
    split at h
    · cases h
    · obtain ⟨pc', -, rfl⟩ := Option.map_eq_some_iff.mp h
      exact hset s d _ fun _ => rfl
  | readErr d =>
    obtain ⟨pc', -, rfl⟩ := Option.map_eq_some_iff.mp h
    exact hset s d _ fun _ => rfl
  | pump d =>
    simp only [step] at h
    split at h
    · cases h
    · split at h <;> cases h
      exact hset s d _ fun _ => rfl
  | pumpExit d =>
    simp only [step] at h
    split at h <;> cases h
    exact hset s d _ fun _ => rfl
  | drop d =>
    cases h
    exact hset s d _ fun _ => rfl
  | closing r pick => exact (own_eq (congrFun (runClosing_frame h).own c)).2
  | janitor pick => exact (own_eq (congrFun (runJanitor_frame h).own c)).2
  | shutdown pick => exact (own_eq (congrFun (runShutdown_frame h).own c)).2
  | clock t => cases h; rfl

theorem orderly_step {a : Act D} (hs : Sound cfg s) (h : step cfg s a = some s')
    (hord : ∀ todo, (s.conns c).pc = .member r todo → Orderly c (s.conns c).fileTransfers todo)
    {todo : List (RoomOp D)} (hpc : (s'.conns c).pc = .member r todo) :
    Orderly c (s'.conns c).fileTransfers todo := by
  generalize hpc' : (s'.conns c).pc = pc at hpc
  cases hpc' ▸ Sound.step_pc h c with
  | same ha =>
    rw [transfers_still hs h hpc ha]
    exact hord todo hpc
  | connected hello => cases hello <;> cases hpc
  | read m _ ha hread =>
    subst hpc
    unfold readFrame at hread
    split at hread
    · cases m <;> simp only [joinerFrame, Option.some.injEq, reduceCtorEq] at hread
      split at hread <;> cases hread
    · split at hread <;> cases hread
      exact orderly_memberFrame ‹_›
    · cases hread
  | readErr _ ha hread =>
    subst hpc
    unfold readFails at hread
    split at hread <;> cases hread
  | ran draw allow _ ha hnext =>
    subst hpc ha
    have hbooks := (runPc_moves (hs.tidy.1 c) h).books
    generalize hfrom : (s.conns c).pc = pc at hnext hbooks
    cases hnext with
    | addOwner | hsEnter => exact ⟨by simp [Closes], by simp, by simp⟩
    | member r op new k hexp =>
      exact hexp.orderly (hord _ hfrom) fun t kid d hop => hbooks.opens (by rw [hop])

/-! ## A transfer under way -/

/-- `c` serves `r` with the transfer in its map or its end still to be broadcast. -/
def Unfinished (r : RoomId) (c : ClientId) (t : String) (s : State D) : Prop :=
  ∃ todo, (s.conns c).pc = .member r todo ∧
    (t ∈ (s.conns c).fileTransfers ∨ todo.any (·.tellsEnd c t) = true)

/-- It stays so until the end is broadcast, unless the goroutine abandons it. -/
theorem unfinished_step {a : Act D} {t : String} (hs : Sound cfg s) (h : step cfg s a = some s')
    (hord : ∀ todo, (s.conns c).pc = .member r todo → Orderly c (s.conns c).fileTransfers todo)
    (hab : abandons s a = false) (hu : Unfinished r c t s)
    (hend : ∀ draw allow x k, a = .run c draw allow →
      (s.conns c).pc = .member r (.broadcastFile x :: k) → ends c t x = false) :
    Unfinished r c t s' := by
  obtain ⟨todo, hpc, hopen⟩ := hu
  generalize hpc' : (s'.conns c).pc = pc
  cases hpc' ▸ Sound.step_pc h c with
  | same ha => exact ⟨todo, hpc'.trans hpc, by rwa [transfers_still hs h hpc ha]⟩
  | connected hello ha hd => exact absurd (member_drawn hs hpc) hd
  | read m _ ha hread =>
    subst ha
    rw [hpc] at hread
    cases todo with
    | cons op k => cases hread
    | nil =>
      have hleave : m ≠ .leave := by
        rintro rfl
        simp [abandons, hpc, busy_of_unfinished hopen] at hab
      simp only [readFrame] at hread
      split at hread
      · cases hread
        refine ⟨_, hpc', .inl ?_⟩
        rw [transfers_still hs h hpc (by simp)]
        simpa using hopen
      · rename_i hnone
        cases m <;> simp only [memberFrame, reduceCtorEq] at hnone
        exact absurd rfl hleave
  | readErr _ ha hread =>
    subst ha
    rw [hpc] at hread
    cases todo with
    | cons op k => cases hread
    | nil => simp [abandons, hpc, busy_of_unfinished hopen] at hab
  | ran draw allow _ ha hnext =>
    subst ha
    have hbooks := (runPc_moves (hs.tidy.1 c) h).books
    rw [hpc] at hnext hbooks
    cases hnext with
    | member _ op new k hexp =>
      refine ⟨new ++ k, hpc', ?_⟩
      rw [List.any_append, Bool.or_eq_true]
      obtain hmap | htold := hopen
      · obtain hkept | ⟨r', k', he⟩ := hbooks.keeps hmap
        · exact .inl hkept
        · -- the transfer goes out of the map; what is left to do tells its end
          cases he
          exact .inr (.inr ((hord _ hpc).closes.1 t (.inr rfl)))
      · rw [List.any_cons, Bool.or_eq_true] at htold
        obtain hop | hk := htold
        · unfold RoomOp.tellsEnd at hop
          split at hop
          · rw [hend draw allow _ k rfl hpc] at hop
            cases hop
          · cases hop
        · exact .inr (.inr hk)
    | fail _ hphase =>
      simp only [Pc.phase] at hphase
      unfold headPhase at hphase
      split at hphase <;> simp at hphase
    | panic _ dst hsends hclosed =>
      cases todo with
      | nil => cases hsends
      | cons op k =>
        simp only [Pc.sends] at hsends
        unfold RoomOp.sends at hsends
        split at hsends
        · cases hsends
          have hk : t ∈ (s.conns c).fileTransfers ∨ k.any (·.tellsEnd c t) = true := by
            simpa [RoomOp.tellsEnd] using hopen
          simp [abandons, hpc, hclosed, busy_of_unfinished hk] at hab
        · cases hsends

/-! ## What is queued -/

variable {l : List (Machine.Transition (State D) (Act D))} {a : Act D} {m : ClientId}
  {x : ServerMsg D}

/-- A start is queued by the broadcast of its author, to another member. -/
theorem queued_start (hl : (relay cfg).Trace l s) (h : step cfg s a = some s')
    (hx : x ∈ queued m ⟨s, a, s'⟩) (ht : x.type = .fileStart) :
    ∃ c draw allow r k, a = .run c draw allow ∧ (s.conns c).pc = .member r (.broadcastFile x :: k) ∧
      x.fromId = some c ∧ m ∈ (s'.room r).members ∧ m ≠ c := by
  have hs := sound_of_reach hl.reach
  have hposts : s.posts a m = some x := by
    rw [queued_eq hs h m] at hx
    split at hx
    · exact Option.mem_toList.mp hx
    · cases hx
  obtain ⟨b, hb, hd, rfl⟩ := (posts_broadcast hl (by rw [ht]; rfl)).mp hposts
  obtain ⟨hmem, hauthor⟩ := ((broadcast_spec h hb).1 m).mp hd
  obtain ⟨c, draw, allow, rfl, hsite⟩ := broadcast_cases hb
  cases hsite with
  | file r x k hpc hopen =>
    have hauthored := (fit_of_broadcast (fit_of_trace hl c) hpc).2
    refine ⟨c, draw, allow, r, k, rfl, hpc, hauthored, hmem, ?_⟩
    rintro rfl
    exact hauthor rfl
  | _ => cases ht

/-- A file frame that `c` broadcasts is queued to every other member. -/
theorem queued_file (hl : (relay cfg).Trace l s) {draw : Handle} {allow : Bool} {k : List (RoomOp D)}
    (h : step cfg s (.run c draw allow) = some s')
    (hpc : (s.conns c).pc = .member r (.broadcastFile x :: k)) (hm : m ∈ (s.room r).members)
    (hm' : m ∈ (s'.room r).members) (hne : m ≠ c)
    (hfull : overflows m ⟨s, .run c draw allow, s'⟩ = false) :
    x ∈ queued m ⟨s, .run c draw allow, s'⟩ := by
  have hs := sound_of_reach hl.reach
  have hopen : (s.room r).closed = false := by
    by_contra hclosed
    have hempty : (s.room r).members = [] :=
      (hs.inv.closed_empty r (Bool.eq_true_of_not_eq_false hclosed)).1
    rw [hempty] at hm
    cases hm
  have hb : s.broadcast (.run c draw allow) = some (s.others r c x) := by
    simp [State.broadcast, hpc, Pc.broadcast, RoomOp.broadcast, hopen]
  have hperf : performed r m ⟨s, .run c draw allow, s'⟩ = some x := by
    have hauthor : (s.others r c x).author ≠ some m := fun he => hne (Option.some.inj he).symm
    simp only [performed, hb]
    exact if_pos ⟨rfl, hauthor⟩
  have hstay : stays r m ⟨s, .run c draw allow, s'⟩ = true := by simp [stays, hm, hm']
  have hbroad := broadcasts_step hl h hstay hfull
  have hmem : x ∈ broadcasts m ⟨s, .run c draw allow, s'⟩ := by
    rw [hbroad, hperf]
    simp
  exact List.mem_of_mem_filter hmem

/-! ## Runs -/

theorem started_of_reach (hr : (relay cfg).Reach Machine.Any s) (hpc : (s.conns c).pc ≠ .absent) :
    c ∈ s.started := by
  induction hr with
  | init => exact absurd rfl hpc
  | @step s s' a hr _ h ih =>
    obtain ⟨d, hcon⟩ | hf | ⟨d, hd, hm, -⟩ := step_moves (sound_of_reach hr) h
    · by_cases hc : c = d
      · exact hcon.started ▸ hc ▸ Finset.mem_insert_self d s.started
      · rw [(own_eq (hcon.others c hc)).1] at hpc
        exact hcon.started ▸ Finset.mem_insert_of_mem (ih hpc)
    · rw [(own_eq (congrFun hf.own c)).1] at hpc
      exact hf.started ▸ ih hpc
    · rw [hm.started]
      by_cases hc : c = d
      · exact ih (hc ▸ hd)
      · exact ih ((own_eq (hm.others c hc)).1 ▸ hpc)

/-- What a run keeps about the transfers relayed in it. -/
structure Tells (l : List (Machine.Transition (State D) (Act D))) (s : State D) : Prop where
  orderly    : ∀ c r todo, (s.conns c).pc = .member r todo →
    Orderly c (s.conns c).fileTransfers todo
  /-- Starts are queued to those who have been added, and not to their author. -/
  begun      : ∀ m, ∀ x ∈ received m l, x.type = .fileStart →
    adds m s.log = true ∧ x.fromId ≠ some m
  unfinished : ∀ r m, m ∈ (s.room r).members → ∀ c t, LeftOpen c t (received m l) →
    Unfinished r c t s

theorem Tells.step (hl : (relay cfg).Trace l s) (h : step cfg s a = some s') (ht : Tells l s)
    (hfull : ∀ m ∈ s.started, overflows m ⟨s, a, s'⟩ = false) (hab : abandons s a = false) :
    Tells (l ++ [⟨s, a, s'⟩]) s' := by
  have hs := sound_of_reach hl.reach
  have hs' := sound_of_reach (hl.snoc h).reach
  have hbegun : ∀ m, ∀ x ∈ received m (l ++ [⟨s, a, s'⟩]), x.type = .fileStart →
      adds m s'.log = true ∧ x.fromId ≠ some m := by
    intro m x hx hty
    rw [received_snoc] at hx
    obtain hx | hx := List.mem_append.mp hx
    · obtain ⟨hadds, hne⟩ := ht.begun m x hx hty
      obtain ⟨r, hr⟩ := adds_iff.mp hadds
      exact ⟨adds_iff.mpr ⟨r, (hs.step_move h).log_mono hr⟩, hne⟩
    · obtain ⟨c, draw, allow, r, k, -, -, hfrom, hm, hne⟩ := queued_start hl h hx hty
      refine ⟨(channels_of_reach (hl.snoc h).reach).member r m hm, fun he => hne ?_⟩
      exact Option.some.inj (he.symm.trans hfrom)
  refine ⟨fun c r todo hpc => orderly_step hs h (ht.orderly c r) hpc, hbegun, ?_⟩
  intro r m hm c t hopen
  rw [received_snoc] at hopen
  obtain ⟨hold, hnone⟩ | ⟨x, hx, hstart⟩ := leftOpen_append hopen
  · -- open before, and the step has queued no end
    have hfirst := hold
    obtain ⟨ys, x, zs, he, hstart, -⟩ := hfirst
    simp only [starts, decide_eq_true_eq] at hstart
    obtain ⟨hadds, hfrom⟩ := ht.begun m x (by simp [he]) hstart.1
    have hne : m ≠ c := fun hmc => hfrom (hmc ▸ hstart.2.2)
    have hmem : m ∈ (s.room r).members := by
      by_contra hgone
      exact (gone_step hl.reach h hadds hgone).2 hm
    have hunf := ht.unfinished r m hmem c t hold
    refine unfinished_step hs h (ht.orderly c r) hab hunf fun draw allow y k ha hpc => ?_
    subst ha
    have hstarted : m ∈ s.started := by
      refine started_of_reach hl.reach fun habsent => ?_
      have hjoin := (hs.inv.mem r m hmem).1
      simp [State.floor, habsent, Pc.phase, Phase.joining] at hjoin
    exact hnone y (queued_file hl h hpc hmem hm hne (hfull m hstarted))
  · -- opened by the step
    simp only [starts, decide_eq_true_eq] at hstart
    obtain ⟨d, draw, allow, r', k, rfl, hpc, hfrom, hm', -⟩ := queued_start hl h hx hstart.1
    obtain rfl : d = c := Option.some.inj (hfrom.symm.trans hstart.2.2)
    obtain rfl := hs'.inv.mem_unique r' r m hm' hm
    have hmap : t ∈ (s.conns d).fileTransfers :=
      (ht.orderly d r' _ hpc).first x t rfl (by simpa [starts] using hstart)
    refine unfinished_step hs h (ht.orderly d r') hab ⟨_, hpc, .inl hmap⟩ fun _ _ y k' _ hpc' => ?_
    cases hpc.symm.trans hpc'
    simp [ends, hstart.1]

/-- In a run without overflow in which nobody leaves a transfer unfinished, every member left behind
by a session has got an end for each of its transfers. -/
theorem transfers_ended (hl : (relay cfg).Trace l s)
    (hok : ∀ t ∈ l, (∀ m ∈ t.before.started, overflows m t = false) ∧
      abandons t.before t.label = false) : AllEnded l s := by
  have htells : Tells l s := by
    induction hl with
    | nil =>
      refine ⟨fun c r todo hpc => ?_, by simp [received], fun r m hm => ?_⟩
      · cases hpc
      · cases hm
    | @snoc l s s' a hl h ih =>
      obtain ⟨hfull, hab⟩ := hok ⟨s, a, s'⟩ (by simp)
      exact (ih fun t ht => hok t (List.mem_append_left _ ht)).step hl h hfull hab
  intro c hc r m hm t hopen
  obtain ⟨todo, hpc, -⟩ := htells.unfinished r m hm c t hopen
  rw [hc] at hpc
  cases hpc

end

/-! ## A sender who goes -/

/-- Client 2 starts a transfer to client 1, then does `rest` and runs to its end in `n` operations. -/
def sampleShare (rest : List (Act String)) (n : Nat) : List (Act String) :=
  sampleOpen ++ sampleInvite ++ sampleRedeem ++ sampleEnter ++
    (.frame 2 (.fileStart "f" "" "") :: ops 2 2) ++ rest ++ ops 2 2 ++ (.pumpExit 2 :: ops 2 n)

/-- It ends the transfer and leaves. -/
def sampleShared : List (Act String) :=
  sampleShare (.frame 2 (.fileEnd "f") :: ops 2 3 ++ [.frame 2 .leave]) 4

theorem sampleShared_some :
    ((relay sampleConfig).stepsFrom (relay sampleConfig).init sampleShared).isSome = true := by
  decide +kernel

theorem transfers_ended_sample :
    let r := ((relay sampleConfig).stepsFrom (relay sampleConfig).init sampleShared).get
      sampleShared_some
    (r.2.conns 2).pc = .exited ∧ (r.2.room 100).members = [1] ∧ AllEnded r.1 r.2 := by
  have hok : (((relay sampleConfig).stepsFrom (relay sampleConfig).init sampleShared).get
      sampleShared_some).1.all (fun t => decide (∀ m ∈ t.before.started, overflows m t = false) &&
        !abandons t.before t.label) = true := by decide +kernel
  refine ⟨by decide +kernel, by decide +kernel, ?_⟩
  refine transfers_ended (Machine.trace_get sampleShared_some) fun t ht => ?_
  have h := List.all_eq_true.mp hok t ht
  rw [Bool.and_eq_true, decide_eq_true_eq, Bool.not_eq_true'] at h
  exact h

theorem sampleLost_some : ((relay sampleConfig).stepsFrom (relay sampleConfig).init
    (sampleShare [.readErr 2] 5)).isSome = true := by decide +kernel

/-- The connection of client 2 is lost, its goroutine comes to its end and nothing overflows; client
1 stays with a start and gets no end. -/
theorem started_never_ended : ∃ l s, (relay (D := String) sampleConfig).Trace l s ∧
    (∀ t ∈ l, ∀ m ∈ t.before.started, overflows m t = false) ∧ ¬ AllEnded l s := by
  have hfull : (((relay sampleConfig).stepsFrom (relay sampleConfig).init
      (sampleShare [.readErr 2] 5)).get sampleLost_some).1.all
        (fun t => decide (∀ m ∈ t.before.started, overflows m t = false)) = true := by
    decide +kernel
  have hexited : ((((relay sampleConfig).stepsFrom (relay sampleConfig).init
      (sampleShare [.readErr 2] 5)).get sampleLost_some).2.conns 2).pc = .exited := by
    decide +kernel
  have hstays : 1 ∈ ((((relay sampleConfig).stepsFrom (relay sampleConfig).init
      (sampleShare [.readErr 2] 5)).get sampleLost_some).2.room 100).members := by
    decide +kernel
  have hopen : LeftOpen 2 "f" (received 1 (((relay sampleConfig).stepsFrom
      (relay sampleConfig).init (sampleShare [.readErr 2] 5)).get sampleLost_some).1) :=
    leftOpen_of_getElem (n := 4) (by decide +kernel) (by decide +kernel)
  refine ⟨_, _, Machine.trace_get sampleLost_some, fun t ht => ?_, fun h => ?_⟩
  · exact of_decide_eq_true (List.all_eq_true.mp hfull t ht)
  · exact h 2 hexited 100 1 hstays "f" hopen

end E2EAnon.Relay
