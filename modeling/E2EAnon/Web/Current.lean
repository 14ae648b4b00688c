import E2EAnon.Web.Posts
import E2EAnon.Web.Zeroing

/-!
# The key a tab encrypts with (`main.ts:417-468`, `:531`)

`Current` is what `keys[0]` holds. `takes` is the envelope that an event makes the tab open and the
room key in it, whatever that key is: nothing in an envelope says when it was sealed. `step_turn`:
the key changes only when the tab draws a new one or takes one.
-/

namespace E2EAnon.Web

open Lib

/-- The session on the socket `k` encrypts with `key`. -/
def Client.Current (c : Client) (k : Nat) (key : Data) : Prop :=
  ∃ s x, c.session = some s ∧ s.sock = k ∧ s.keys.head? = some x ∧ c.read x = key

/-- The envelope an event makes the tab open, and the key in it. -/
def Client.takes (c : Client) (a : Act) : Option (Data × Data) :=
  match a with
  | .message _ msg =>
    match msg.type with
    | .rekey => do
      let s ← c.session
      let d ← msg.data
      let ownerPub ← JsMap.get s.ownerId s.memberPubs
      let key ← openRoomKey (c.read s.kp.priv) ownerPub d
      some (d, key)
    | .keyDeliver => do
      let s ← c.session
      let hsId ← given msg.handshake
      let d ← msg.data
      let _ ← JsMap.get hsId s.handshakes
      let ownerPub ← s.firstOwnerPub
      let key ← openRoomKey (c.read s.kp.priv) ownerPub d
      some (d, key)
    | .memberKey => do
      let s ← c.session
      let (r, pub) ← c.memberKeyOf msg
      let d ← r.parked.filter fun _ => r.role = .joiner
      let key ← openRoomKey (c.read s.kp.priv) pub d
      some (d, key)
    | _ => none
  | _ => none

variable {a : Act} {c₀ c c' : Client} {s : Session} {hsId : Handle} {r : HsRecord} {pub d : Data}
  {k : Nat} {key : Data} {q : Prop}

/-! ## Pushing a key -/

theorem current_of_keys (hs : ∀ s', c'.session = some s' → ∃ s, c.session = some s ∧
    s.sock = s'.sock ∧ s.keys = s'.keys)
    (hheap : ∀ s x, c.session = some s → x ∈ s.keys → c'.read x = c.read x)
    (h : c'.Current k key) : c.Current k key := by
  obtain ⟨s', x, hs', hk, hx, hread⟩ := h
  obtain ⟨s, hs, hsock, hkeys⟩ := hs s' hs'
  rw [← hkeys] at hx
  exact ⟨s, x, hs, hsock.trans hk, hx, (hheap s x hs (List.mem_of_head? hx)).symm.trans hread⟩

/-- A key that nobody refers to yet is the current one once it is pushed. -/
theorem pushNew_current (hok : KeysOk q c) (hs : c.session = some s) (b : Data) :
    ((c.alloc b).1.pushKey (c.alloc b).2).Current k key ↔ s.sock = k ∧ b = key := by
  have hs' := Client.pushKey_session (c := (c.alloc b).1) (s := s) hs (c.alloc b).2
  have hread : ((c.alloc b).1.pushKey (c.alloc b).2).read c.brk = b := by
    have hfall : c.brk ∉ s.keys.drop 4 := fun hb =>
      Nat.lt_irrefl _ (hok.below s hs _ (by simp [Session.buffers, List.mem_of_mem_drop hb]))
    simp [Client.read, Client.pushKey, Client.alloc, Client.wipe, hs, maxKeptKeys, hfall]
  constructor
  · rintro ⟨s₁, x, hs₁, hk, hx, hkey⟩
    cases hs'.symm.trans hs₁
    cases hx
    exact ⟨hk, hread.symm.trans hkey⟩
  · rintro ⟨rfl, rfl⟩
    exact ⟨_, c.brk, hs', rfl, rfl, hread⟩

/-- The `Ke` of a record is no room key. -/
theorem wipeKe_current (hok : KeysOk q c) (hs : c.session = some s)
    (hr : JsMap.get hsId s.handshakes = some r) :
    ((c.wipe r.ke.toList).modify (·.deleteHandshake hsId)).Current k key ↔ c.Current k key := by
  have hne {x : Addr} (hx : x ∈ s.keys) : r.ke ≠ some x := by
    intro hke
    have hmem : x ∈ s.handshakes.filterMap (·.2.ke) :=
      List.mem_filterMap.mpr ⟨_, JsMap.mem_of_get hr, hke⟩
    have hnodup := hok.nodup s hs
    rw [Session.buffers] at hnodup
    exact (List.nodup_append.mp hnodup).2.2 x (List.mem_cons_of_mem _ hx) x hmem rfl
  have hread {x : Addr} (hx : x ∈ s.keys) :
      ((c.wipe r.ke.toList).modify (·.deleteHandshake hsId)).read x = c.read x := by
    simp [Client.read, Client.modify, Client.wipe, hne hx]
  have hs' : ((c.wipe r.ke.toList).modify (·.deleteHandshake hsId)).session =
      some (s.deleteHandshake hsId) := congrArg (Option.map _) hs
  constructor
  · rintro ⟨s₁, x, hs₁, hk, hx, hkey⟩
    cases hs'.symm.trans hs₁
    exact ⟨s, x, hs, hk, hx, (hread (List.mem_of_head? hx)).symm.trans hkey⟩
  · rintro ⟨s₁, x, hs₁, hk, hx, hkey⟩
    cases hs.symm.trans hs₁
    exact ⟨_, x, hs', hk, hx, (hread (List.mem_of_head? hx)).trans hkey⟩

theorem Same.current (h : Same c c') : c'.Current k key ↔ c.Current k key := by
  unfold Client.Current Client.read
  rw [h.session, h.heap]

/-! ## What draws no key and takes none -/

/-- The value has been drawn between `c` and `c'`. -/
def DrawnBetween (c c' : Client) (key : Data) : Prop :=
  ∃ i, c.draws ≤ i ∧ i < c'.draws ∧ key = .name (Name.mk c.who i)

theorem DrawnBetween.mono {c'' : Client} (h : DrawnBetween c c' key) (hd : c'.draws ≤ c''.draws) :
    DrawnBetween c c'' key :=
  let ⟨i, hi, hi', he⟩ := h
  ⟨i, hi, hi'.trans_le hd, he⟩

/-- The current key of `c'` is that of `c`, or one drawn since. -/
def Turns (c c' : Client) : Prop :=
  ∀ k key, c'.Current k key → c.Current k key ∨ DrawnBetween c c' key

theorem turns_of_same (hs : ∀ s', c'.session = some s' → ∃ s, c.session = some s ∧
    s.sock = s'.sock ∧ s.keys = s'.keys)
    (hheap : ∀ s x, c.session = some s → x ∈ s.keys → c'.read x = c.read x) : Turns c c' :=
  fun _ _ h => .inl (current_of_keys hs hheap h)

theorem Turns.trans {c'' : Client} (h : Turns c c') (h' : Turns c' c'')
    (hd : c.draws ≤ c'.draws ∧ c'.who = c.who) (hd' : c'.draws ≤ c''.draws) : Turns c c'' := by
  intro k key hk
  obtain hk | ⟨i, hi, hi', rfl⟩ := h' k key hk
  · exact (h k key hk).imp_right fun hkey => hkey.mono hd'
  · exact .inr ⟨i, hd.1.trans hi, hi', by rw [hd.2]⟩

/-- The keys of the session are the same, and so is the heap. -/
structure SameKeys (c c' : Client) : Prop where
  session : ∀ s', c'.session = some s' → ∃ s, c.session = some s ∧ s.sock = s'.sock ∧ s.keys = s'.keys
  heap    : c'.heap = c.heap

namespace SameKeys

theorem of_eq (hs : c'.session = c.session) (hheap : c'.heap = c.heap) : SameKeys c c' :=
  ⟨fun s' hs' => ⟨s', hs ▸ hs', rfl, rfl⟩, hheap⟩

theorem trans {c'' : Client} (h : SameKeys c c') (h' : SameKeys c' c'') : SameKeys c c'' := by
  refine ⟨fun s'' hs'' => ?_, h'.heap.trans h.heap⟩
  obtain ⟨s', hs', hsock', hkeys'⟩ := h'.session s'' hs''
  obtain ⟨s, hs, hsock, hkeys⟩ := h.session s' hs'
  exact ⟨s, hs, hsock.trans hsock', hkeys.trans hkeys'⟩

theorem modify {f : Session → Session} (hf : ∀ s, s.sock = (f s).sock ∧ s.keys = (f s).keys) :
    SameKeys c (c.modify f) := by
  refine ⟨fun s' hs' => ?_, rfl⟩
  obtain ⟨s, hs, rfl⟩ := Option.map_eq_some_iff.mp hs'
  exact ⟨s, hs, hf s⟩

theorem send (c : Client) (m : ClientMsg Data) : SameKeys c (c.send m) := of_eq (by simp) (by simp)

theorem beginHandshake (c : Client) (pr : PakeRole) (role : HsRole) (code : Data)
    (hsId joinerId : Handle) : SameKeys c (c.beginHandshake pr role code hsId joinerId) :=
  ((of_eq rfl rfl : SameKeys c c.draw.1).trans (send _ _)).trans (modify fun _ => ⟨rfl, rfl⟩)

theorem current (h : SameKeys c c') (hc : c'.Current k key) : c.Current k key :=
  current_of_keys h.session (fun _ x _ _ => congrArg (fun heap => (heap x).bytes) h.heap) hc

theorem turns (h : SameKeys c c') : Turns c c' := fun _ _ hc => .inl (h.current hc)

end SameKeys

theorem turns_rotate (hok : KeysOk q c) (hs : c.session = some s) :
    Turns c (c.generateRoomKey.1.pushKey c.generateRoomKey.2) := by
  intro k key h
  obtain ⟨-, rfl⟩ := (pushNew_current (c := c.draw.1) (hok.narrow .draw) hs c.draw.2).mp h
  exact .inr ⟨c.draws, le_rfl, by simp [Client.generateRoomKey, Client.draw, Client.alloc], rfl⟩

/-- The events that bring a key of somebody else. -/
def Act.bringsKey (a : Act) : Prop :=
  a.type = some .rekey ∨ a.type = some .keyDeliver ∨ a.type = some .memberKey

theorem Effect.turns (hok : KeysOk q c) (he : Effect a c₀ c c') (ha : ¬ a.bringsKey) :
    Turns c c' := by
  cases he with
  | idle h =>
    have hheap : c'.core.heap = c.core.heap := congrArg Client.heap h
    have hcore : c'.session.map Session.core = c.session.map Session.core :=
      congrArg Client.session h
    refine SameKeys.turns ⟨fun s' hs' => ?_, hheap⟩
    rw [hs', Option.map_some] at hcore
    obtain ⟨s, hs, hcs⟩ := Option.map_eq_some_iff.mp hcore.symm
    have hsock : s.core.sock = s'.core.sock := congrArg Session.sock hcs
    have hkeys : s.core.keys = s'.core.keys := congrArg Session.keys hcs
    exact ⟨s, hs, hsock, hkeys⟩
  | sendPlain | sendConfirm | sendMemberKey | sendKey => exact (SameKeys.send c _).turns
  | openSession i hello h =>
    rintro k key ⟨s, x, hs, -, hx, -⟩
    cases hs
    cases hx
  | firstKey hs hk =>
    rw [Client.firstKey_eq hs hk]
    exact turns_rotate hok hs
  | teardown =>
    rintro k key ⟨s, x, hs, -⟩
    simp at hs
  | offer token hsId memberId code hs hcode hmsg =>
    have h1 : SameKeys c (c.modify fun s => { s with
        pendingInvites := JsMap.delete token s.pendingInvites }) := .modify fun _ => ⟨rfl, rfl⟩
    exact (h1.trans (.beginHandshake _ _ _ _ _ _)).turns
  | accept token hsId code hs hj hmsg =>
    have h1 : SameKeys c { c with pendingJoin := none } := .of_eq rfl rfl
    exact (h1.trans (.beginHandshake _ _ _ _ _ _)).turns
  | confirmed hsId r res hs hr hres =>
    refine turns_of_same (fun s' hs' => ?_) fun s x hs hx => ?_
    · obtain ⟨s, hs, rfl⟩ := Option.map_eq_some_iff.mp hs'
      exact ⟨s, hs, rfl, rfl⟩
    · have hlt : x < c.brk := hok.below s hs x (by simp [Session.buffers, hx])
      simp [Client.read, Client.modify, Client.alloc, Function.update_of_ne hlt.ne]
  | wipeKe hsId r hs hr => exact fun _ _ h => .inl ((wipeKe_current hok hs hr).mp h)
  | rotate hs => exact turns_rotate hok hs
  | takeKey pub d key hs hpub hd hkey ht => exact absurd ht ha
  | invite =>
    have h1 : SameKeys c c.draw.1 := .of_eq rfl rfl
    exact (h1.trans (.modify (by intro _; exact ⟨rfl, rfl⟩))).turns
  | pake | endHandshake | park | learnJoiner | learnOwner | seedOwner | mergeRoster | forget =>
    exact (SameKeys.modify (by intro _; exact ⟨rfl, rfl⟩)).turns
  | sendRoster k | chat k =>
    have h1 : SameKeys c (c.noteSeal k none) := .of_eq rfl rfl
    exact (h1.trans (.send _ _)).turns
  | sendFileStart u up =>
    have h1 : SameKeys c (c.noteSeal up.key (some up.captured)) := .of_eq rfl rfl
    exact (h1.trans (.send _ _)).turns
  | sendChunk u up i =>
    have h1 : SameKeys c (c.noteSeal up.key (some up.captured)) := .of_eq rfl rfl
    exact ((h1.trans (.send _ _)).trans (.of_eq rfl rfl)).turns
  | _ => exact SameKeys.turns (.of_eq rfl rfl)

/-! ## What takes a key -/

/-- The key of a `key_deliver` is the current one if the envelope can be opened. -/
theorem finishJoin_current (hok : KeysOk q c) (hs : c.session = some s)
    (hr : JsMap.get hsId s.handshakes = some r) (hpub : s.firstOwnerPub = some pub) (d : Data) :
    (c.finishJoin hsId r d).Current k key ↔
      s.sock = k ∧ openRoomKey (c.read s.kp.priv) pub d = some key := by
  simp only [Client.finishJoin, hs, hpub]
  split
  · rename_i hopen
    simp [Client.Current, hopen]
  · rename_i b hopen
    have hs' := Client.pushKey_session (c := (c.alloc b).1) (s := s) hs (c.alloc b).2
    rw [Same.current (.send _ _), wipeKe_current (hok.pushNew hs b) hs' hr, pushNew_current hok hs,
      hopen, Option.some.injEq]

/-- Where the tab opens an envelope, the key in it becomes the current one. -/
theorem onRekey_current {sock : Nat} {msg : ServerMsg Data} (hok : KeysOk q c) (ht : msg.type = .rekey)
    (h : (c.onRekey msg).Current k key) : c.Current k key ∨
      ∃ s d, c.session = some s ∧ s.sock = k ∧ c.takes (.message sock msg) = some (d, key) := by
  unfold Client.onRekey at h
  split at h
  · rename_i s d hs hd
    split at h
    · exact .inl h
    · rename_i pub hpub
      split at h
      · exact .inl h
      · rename_i b hopen
        obtain ⟨rfl, rfl⟩ := (pushNew_current hok hs b).mp h
        exact .inr ⟨s, d, hs, rfl, by simp [Client.takes, ht, hs, hd, hpub, hopen]⟩
  · exact .inl h

theorem onKeyDeliver_current {sock : Nat} {msg : ServerMsg Data} (hok : KeysOk q c)
    (ht : msg.type = .keyDeliver) (h : (c.onKeyDeliver msg).Current k key) : c.Current k key ∨
      ∃ s d, c.session = some s ∧ s.sock = k ∧ c.takes (.message sock msg) = some (d, key) := by
  unfold Client.onKeyDeliver at h
  split at h
  · rename_i s hsId d hs hid hd
    split at h
    · exact .inl h
    · rename_i r hr
      split at h
      · exact .inl ((SameKeys.modify (by intro _; exact ⟨rfl, rfl⟩)).current h)
      · rename_i pub hpub
        obtain ⟨rfl, hopen⟩ := (finishJoin_current hok hs hr hpub d).mp h
        exact .inr ⟨s, d, hs, rfl, by simp [Client.takes, ht, hs, hid, hd, hr, hpub, hopen]⟩
  · exact .inl h

/-- The client that admits a joiner encrypts with the key it has drawn for it. -/
theorem rotateForJoin_current (hok : KeysOk q c) (hs : c.session = some s) (joinerId : Handle)
    (pub : Data) (h : (c.rotateForJoin joinerId pub).1.Current k key) :
    c.draws < (c.rotateForJoin joinerId pub).1.draws ∧ key = .name (Name.mk c.who c.draws) := by
  obtain ⟨s', hs', -, hsock, hkeys, hheap, hdraws⟩ := rotateForJoin_same joinerId pub hs
  obtain ⟨s₁, x, hs₁, hk, hx, hread⟩ := h
  cases hs'.symm.trans hs₁
  have hpush := Client.pushKey_session (c := c.generateRoomKey.1) (s := s) hs c.generateRoomKey.2
  rw [hkeys] at hx
  have hread' : (c.generateRoomKey.1.pushKey c.generateRoomKey.2).read x = key :=
    (congrArg (fun heap => (heap x).bytes) hheap).symm.trans hread
  obtain ⟨-, rfl⟩ := (pushNew_current (c := c.draw.1) (hok.narrow .draw) hs c.draw.2).mp
    ⟨_, x, hpush, hsock.symm.trans hk, hx, hread'⟩
  exact ⟨hdraws ▸ Nat.lt_succ_self _, rfl⟩

theorem onMemberKey_current {sock : Nat} {msg : ServerMsg Data} (hok : KeysOk q c)
    (ht : msg.type = .memberKey) (h : (c.onMemberKey msg).Current k key) :
    c.Current k key ∨
      DrawnBetween c (c.onMemberKey msg) key ∨
      ∃ s d, c.session = some s ∧ s.sock = k ∧ c.takes (.message sock msg) = some (d, key) := by
  unfold Client.onMemberKey at h ⊢
  split at h <;> try exact .inl h
  rename_i s hsId d hs hid hd
  split at h <;> try exact .inl h
  rename_i r hr
  split at h <;> try exact .inl h
  rename_i ke hke
  split at h <;> try exact .inl h
  rename_i pub hpub
  have hof : c.memberKeyOf msg = some (r, pub) := by
    simp [Client.memberKeyOf, hs, hid, hd, hr, hke, hpub]
  split at h
  · rename_i hrole
    have hok₁ : KeysOk q (c.modify (·.setPub r.joinerMemberId pub)) :=
      hok.narrow (.modify _ fun _ _ => ⟨rfl, rfl, .refl _⟩)
    have hrot (h' : ((c.modify (·.setPub r.joinerMemberId pub)).rotateForJoin
        r.joinerMemberId pub).1.Current k key) :=
      rotateForJoin_current (s := s.setPub r.joinerMemberId pub) hok₁ (by simp [hs]) _ _ h'
    dsimp only at h ⊢
    generalize (c.modify (·.setPub r.joinerMemberId pub)).rotateForJoin r.joinerMemberId pub = p
      at h hrot ⊢
    obtain ⟨c', _ | _⟩ := p
    · obtain ⟨hlt, hkey⟩ := hrot h
      exact .inr (.inl ⟨_, le_rfl, hlt, hkey⟩)
    · obtain ⟨hlt, hkey⟩ := hrot ((SameKeys.modify (by intro _; exact ⟨rfl, rfl⟩)).current h)
      exact .inr (.inl ⟨_, le_rfl, hlt, hkey⟩)
  · rename_i hrole
    generalize hc₁ : c.modify (fun s => { s with firstOwnerPub := some pub }) = c₁ at h
    have hs₁ : c₁.session = some { s with firstOwnerPub := some pub } := by simp [← hc₁, hs]
    have hok₁ : KeysOk q c₁ := hc₁ ▸ hok.narrow (.modify _ fun _ _ => ⟨rfl, rfl, .refl _⟩)
    dsimp only at h
    split at h
    · rename_i d' hd'
      obtain ⟨rfl, hopen⟩ := (finishJoin_current hok₁ hs₁ hr rfl d').mp h
      rw [← hc₁] at hopen
      have hopen' : openRoomKey (c.read s.kp.priv) pub d' = some key := hopen
      refine .inr (.inr ⟨s, d', hs, rfl, ?_⟩)
      simp [Client.takes, ht, hs, hof, hrole, hd', Option.filter_some, hopen']
    · exact .inl ((SameKeys.modify (by intro _; exact ⟨rfl, rfl⟩)).current (hc₁ ▸ h))

/-! ## A step -/

/-- The current key after a step is that of before, or one the step drew, or one it took. -/
theorem step_current (hok : KeysOk False c) (hstep : c.step a = some c') (h : c'.Current k key) :
    c.Current k key ∨
      DrawnBetween c c' key ∨
      ∃ s d, c.session = some s ∧ s.sock = k ∧ c.takes a = some (d, key) := by
  by_cases ha : a.bringsKey
  · cases a <;> simp only [Act.bringsKey, Act.type, reduceCtorEq, or_self, Option.some.injEq] at ha
    rename_i sock msg
    simp only [Client.step] at hstep
    split at hstep <;> simp only [reduceCtorEq, Option.some.injEq] at hstep
    subst hstep
    obtain ht | ht | ht := ha
    · simp only [Client.onMessage, ht] at h
      exact (onRekey_current hok ht h).imp_right .inr
    · simp only [Client.onMessage, ht] at h
      exact (onKeyDeliver_current hok ht h).imp_right .inr
    · simp only [Client.onMessage, ht] at h ⊢
      exact onMemberKey_current hok ht h
  · have hinv := (step_effects hstep).invariant
      (I := fun x => KeysOk False x ∧ (c.draws ≤ x.draws ∧ x.who = c.who) ∧ Turns c x)
      (fun x x' hx he => ⟨hx.1.effect he False.elim,
        ⟨hx.2.1.1.trans he.draws.1, he.draws.2.trans hx.2.1.2⟩,
        hx.2.2.trans (he.turns hx.1 ha) hx.2.1 he.draws.1⟩)
      ⟨hok, ⟨le_rfl, rfl⟩, fun _ _ h => .inl h⟩
    exact (hinv.2.2 k key h).imp_right .inl

/-- An envelope that is opened decides the current key. -/
theorem takes_current (hok : KeysOk False c) (hstep : c.step a = some c') (hs : c.session = some s)
    (h : c.takes a = some (d, key)) : c'.Current s.sock key := by
  cases a <;> simp only [Client.takes, reduceCtorEq] at h
  rename_i sock msg
  simp only [Client.step] at hstep
  split at hstep <;> simp only [reduceCtorEq, Option.some.injEq] at hstep
  subst hstep
  split at h
  · rename_i ht
    simp only [hs, Option.bind_eq_bind, Option.bind_some, Option.bind_eq_some_iff,
      Option.some.injEq, Prod.mk.injEq] at h
    obtain ⟨d', hd, pub, hpub, b, hopen, rfl, rfl⟩ := h
    simp only [Client.onMessage, ht, Client.onRekey, hs, hd, hpub, hopen]
    exact (pushNew_current hok hs b).mpr ⟨rfl, rfl⟩
  · rename_i ht
    simp only [hs, Option.bind_eq_bind, Option.bind_some, Option.bind_eq_some_iff,
      Option.some.injEq, Prod.mk.injEq] at h
    obtain ⟨hsId, hid, d', hd, r, hr, pub, hpub, b, hopen, rfl, rfl⟩ := h
    simp only [Client.onMessage, ht, Client.onKeyDeliver, hs, hid, hd, hr, hpub]
    exact (finishJoin_current hok hs hr hpub d').mpr ⟨rfl, hopen⟩
  · rename_i ht
    simp only [hs, Option.bind_eq_bind, Option.bind_some, Option.bind_eq_some_iff,
      Option.filter_eq_some_iff, decide_eq_true_eq, Option.some.injEq, Prod.mk.injEq] at h
    obtain ⟨⟨r, pub⟩, hof, d', ⟨hd, hrole⟩, b, hopen, rfl, rfl⟩ := h
    simp only [Client.memberKeyOf, hs, Option.bind_eq_bind, Option.bind_some,
      Option.bind_eq_some_iff, Option.some.injEq, Prod.mk.injEq] at hof
    obtain ⟨hsId, hid, r', hr, ke, hke, d₀, hd₀, pub', hpub, rfl, rfl⟩ := hof
    dsimp only at hrole hd
    simp only [Client.onMessage, ht, Client.onMemberKey, hs, hid, hd₀, hr, hke, hpub, hrole, hd]
    generalize hc₁ : c.modify (fun s => { s with firstOwnerPub := some pub' }) = c₁
    have hs₁ : c₁.session = some { s with firstOwnerPub := some pub' } := by simp [← hc₁, hs]
    have hok₁ : KeysOk False c₁ := hc₁ ▸ hok.narrow (.modify _ fun _ _ => ⟨rfl, rfl, .refl _⟩)
    refine (finishJoin_current hok₁ hs₁ hr rfl d').mpr ⟨rfl, ?_⟩
    rw [← hc₁]
    exact hopen
  · simp at h

/-! ## Envelopes -/

/-- The envelope of a room key in a frame. -/
def envelope : ClientMsg Data → Option Data
  | .rekey _ d | .keyDeliver _ d => some d
  | _ => none

/-- The envelope waits in a handshake record. -/
def Client.Parked (c : Client) (d : Data) : Prop :=
  ∃ s hsId r, c.session = some s ∧ JsMap.get hsId s.handshakes = some r ∧ r.pendingKeyDeliver = some d

/-- The envelope holds a value that has been drawn between `c` and `c'`. -/
def SealedBetween (c c' : Client) (d : Data) : Prop :=
  ∃ k key, DrawnBetween c c' key ∧ d = .enc k (keyToString key)

/-- Nothing but envelopes of fresh keys has been sent since `c₀`, and nothing parked but the
envelope the event `a` has brought. -/
structure Traffic (a : Act) (c₀ c : Client) : Prop where
  outbox : ∀ m ∈ c.outbox, ∀ d, envelope m.2 = some d → m ∈ c₀.outbox ∨ SealedBetween c₀ c d
  parked : ∀ d, c.Parked d → c₀.Parked d ∨ a.type = some .keyDeliver ∧ a.payload = some d

theorem envelope_plain {m : ClientMsg Data} (h : plain m) : envelope m = none := by
  cases m <;> first | rfl | simp [plain] at h

/-- A frame with an envelope seals the key that has just been drawn. -/
theorem Posted.sealed {m : ClientMsg Data} (h : Posted a c₀ c m) (hok : KeysOk q c) (hh : Hellos c)
    (hw : c.who = c₀.who) (hd : envelope m = some d) : SealedBetween c₀ c d := by
  cases h with
  | plain h => simp [envelope_plain h] at hd
  | hello sock =>
    have hnone := hh.all (P := fun m => envelope m = none) rfl (fun _ => envelope_plain) sock
    simp [hnone] at hd
  | key k pub d' hs hk hnew hd' hm =>
    have hlive := hok.live _ hs k (by simp [Session.buffers, List.mem_of_head? hk])
    obtain ⟨i, ⟨hi, hi'⟩, hread | hwiped⟩ := hnew
    · obtain ⟨k', -, rfl⟩ := Option.map_eq_some_iff.mp hd'
      refine ⟨k', _, ⟨i, hi, hi', rfl⟩, ?_⟩
      obtain ⟨id, rfl | rfl⟩ := hm
      all_goals
        obtain rfl := Option.some.inj hd
        rw [hread, hw]
        rfl
    · simp [hlive] at hwiped
  | _ => cases hd

theorem parked_modify {f : Session → Session} (hf : ∀ s, c.session = some s → ∀ hsId r,
    JsMap.get hsId (f s).handshakes = some r → r.pendingKeyDeliver = some d →
      c.Parked d) (h : (c.modify f).Parked d) : c.Parked d := by
  obtain ⟨s', hsId, r, hs', hr, hd⟩ := h
  obtain ⟨s, hs, rfl⟩ := Option.map_eq_some_iff.mp hs'
  exact hf s hs hsId r hr hd

theorem parked_of_session (hs : c'.session = c.session) (h : c'.Parked d) : c.Parked d := by
  rwa [Client.Parked, hs] at h

theorem parked_pushNew (hs : c.session = some s) (b : Data)
    (h : ((c.alloc b).1.pushKey (c.alloc b).2).Parked d) : c.Parked d := by
  have hs' := Client.pushKey_session (c := (c.alloc b).1) (s := s) hs (c.alloc b).2
  obtain ⟨s₁, hsId, r, hs₁, hr, hd⟩ := h
  cases hs'.symm.trans hs₁
  exact ⟨s, hsId, r, hs, hr, hd⟩

/-- A record comes in or takes the place of another. -/
theorem parked_setHandshake {r' : HsRecord} (h : (c.modify (·.setHandshake hsId r')).Parked d) :
    c.Parked d ∨ r'.pendingKeyDeliver = some d := by
  obtain ⟨s', id, r, hs', hr, hd⟩ := h
  obtain ⟨s, hs, rfl⟩ := Option.map_eq_some_iff.mp hs'
  simp only [Session.setHandshake_handshakes, JsMap.get_set] at hr
  split at hr
  · cases hr
    exact .inr hd
  · exact .inl ⟨s, id, r, hs, hr, hd⟩

theorem parked_deleteHandshake (h : (c.modify (·.deleteHandshake hsId)).Parked d) : c.Parked d := by
  refine parked_modify (fun s hs id r hr hd => ?_) h
  simp only [Session.deleteHandshake_handshakes, JsMap.get_delete] at hr
  split at hr
  · simp at hr
  · exact ⟨s, id, r, hs, hr, hd⟩

theorem parked_beginHandshake {pr : PakeRole} {role : HsRole} {code : Data} {joinerId : Handle}
    (h : (c.beginHandshake pr role code hsId joinerId).Parked d) : c.Parked d := by
  obtain h | h := parked_setHandshake h
  · exact parked_of_session (Client.send_session c.draw.1 _) h
  · cases h

theorem Effect.parked (he : Effect a c₀ c c') (h : c'.Parked d) :
    c.Parked d ∨ a.type = some .keyDeliver ∧ a.payload = some d := by
  cases he with
  | idle he =>
    obtain ⟨s', hsId, r, hs', hr, hd⟩ := h
    have hcore : c'.session.map Session.core = c.session.map Session.core :=
      congrArg Client.session he
    rw [hs', Option.map_some] at hcore
    obtain ⟨s, hs, hss⟩ := Option.map_eq_some_iff.mp hcore.symm
    have hhs : s.core.handshakes = s'.core.handshakes := congrArg Session.handshakes hss
    exact .inl ⟨s, hsId, r, hs, (congrArg (JsMap.get hsId) hhs).trans hr, hd⟩
  | openSession i hello hi =>
    obtain ⟨s, hsId, r, hs, hr, -⟩ := h
    cases hs
    simp at hr
  | firstKey hs hk =>
    rw [Client.firstKey_eq hs hk] at h
    exact .inl (parked_pushNew (c := c.draw.1) hs _ h)
  | teardown =>
    obtain ⟨s, hsId, r, hs, -⟩ := h
    simp at hs
  | rotate hs => exact .inl (parked_pushNew (c := c.draw.1) hs _ h)
  | takeKey pub d key hs => exact .inl (parked_pushNew hs key h)
  | offer token hsId memberId code hs hcode hmsg =>
    have h1 := parked_beginHandshake h
    exact .inl (parked_modify (by intro s hs hsId r hr hd; exact ⟨s, hsId, r, hs, hr, hd⟩) h1)
  | accept token hsId code hs hj hmsg =>
    exact .inl (parked_beginHandshake (c := { c with pendingJoin := none }) h)
  | @pake s hsId r d hs hr hd =>
    obtain h | hd' := parked_setHandshake h
    · exact .inl h
    · exact .inl ⟨s, hsId, r, hs, hr, hd'⟩
  | @confirmed s hsId r res hs hr hres =>
    obtain h | hd' := parked_setHandshake (c := (c.alloc res.ke).1) h
    · exact .inl h
    · exact .inl ⟨s, hsId, r, hs, hr, hd'⟩
  | park hsId r d' hs hr hd ht =>
    obtain h | hd' := parked_setHandshake h
    · exact .inl h
    · cases hd'
      exact .inr ⟨ht, hd⟩
  | endHandshake | wipeKe => exact .inl (parked_deleteHandshake h)
  | invite | learnJoiner | learnOwner | seedOwner | mergeRoster | forget =>
    exact .inl (parked_modify (by intro s hs hsId r hr hd; exact ⟨s, hsId, r, hs, hr, hd⟩) h)
  | sendPlain | sendConfirm | sendMemberKey | sendKey =>
    exact .inl (parked_of_session (Client.send_session c _) h)
  | sendRoster k | chat k =>
    exact .inl (parked_of_session (Client.send_session (c.noteSeal k none) _) h)
  | sendFileStart u up =>
    exact .inl (parked_of_session (Client.send_session (c.noteSeal up.key (some up.captured)) _) h)
  | sendChunk u up i =>
    exact .inl (parked_of_session (Client.sendChunk_session _ _ _ _) h)
  | _ => exact .inl h

theorem step_traffic (hok : KeysOk False c) (hh : Hellos c) (hstep : c.step a = some c') :
    Traffic a c c' := by
  have hinv := (step_effects hstep).invariant
    (I := fun x => (KeysOk False x ∧ Hellos x ∧ x.who = c.who) ∧ Traffic a c x)
    (fun x x' hx he => ⟨⟨hx.1.1.effect he False.elim, hx.1.2.1.effect he,
        he.draws.2.trans hx.1.2.2⟩, fun m hm d hd => ?_, fun d hp => ?_⟩)
    ⟨⟨hok, hh, rfl⟩, fun _ hm _ _ => .inl hm, fun _ hp => .inl hp⟩
  · exact hinv.2
  · have hmono (h : SealedBetween c x d) : SealedBetween c x' d :=
      let ⟨k, key, hkey, hd⟩ := h
      ⟨k, key, hkey.mono he.draws.1, hd⟩
    obtain hold | hp := he.posted hm
    · exact (hx.2.outbox m hold d hd).imp_right hmono
    · exact .inr (hmono (hp.sealed hx.1.1 hx.1.2.1 hx.1.2.2 hd))
  · obtain hp | harr := he.parked hp
    · exact hx.2.parked d hp
    · exact .inr harr

/-- The envelope that is opened is parked, or the event brings it. -/
theorem takes_spec (h : c.takes a = some (d, key)) :
    (∃ s, c.session = some s) ∧ (∃ k, d = .enc k (keyToString key)) ∧
      (c.Parked d ∨ (a.type = some .rekey ∨ a.type = some .keyDeliver) ∧ a.payload = some d) := by
  have hform {priv pub d key : Data} (hopen : openRoomKey priv pub d = some key) :
      ∃ k, d = .enc k (keyToString key) := by
    obtain ⟨-, k, -, he⟩ := openRoomKey_eq_some.mp hopen
    exact ⟨k, he⟩
  cases a <;> simp only [Client.takes, reduceCtorEq] at h
  rename_i sock msg
  split at h
  · rename_i ht
    simp only [Option.bind_eq_bind, Option.bind_eq_some_iff, Option.some.injEq, Prod.mk.injEq] at h
    obtain ⟨s, hs, d', hd, pub, hpub, b, hopen, rfl, rfl⟩ := h
    exact ⟨⟨s, hs⟩, hform hopen, .inr ⟨.inl (congrArg some ht), hd⟩⟩
  · rename_i ht
    simp only [Option.bind_eq_bind, Option.bind_eq_some_iff, Option.some.injEq, Prod.mk.injEq] at h
    obtain ⟨s, hs, hsId, hid, d', hd, r, hr, pub, hpub, b, hopen, rfl, rfl⟩ := h
    exact ⟨⟨s, hs⟩, hform hopen, .inr ⟨.inr (congrArg some ht), hd⟩⟩
  · rename_i ht
    simp only [Client.memberKeyOf, Option.bind_eq_bind, Option.bind_eq_some_iff,
      Option.filter_eq_some_iff, Option.some.injEq, Prod.mk.injEq] at h
    obtain ⟨s, hs, ⟨r, pub⟩, ⟨s', hs', hsId, hid, r', hr, -, -, -, -, pub', -, rfl, rfl⟩, d', ⟨hd, -⟩,
      b, hopen, rfl, rfl⟩ := h
    obtain rfl := Option.some.inj (hs.symm.trans hs')
    exact ⟨⟨s, hs⟩, hform hopen, .inl ⟨s, hsId, _, hs, hr, (HsRecord.parked_eq_some.mp hd).1⟩⟩
  · simp at h

/-! ## One key a step -/

namespace Client

theorem beginHandshake_draws (c : Client) (pr : PakeRole) (role : HsRole) (code : Data)
    (hsId joinerId : Handle) :
    (c.beginHandshake pr role code hsId joinerId).draws = c.draws + 1 := by
  simp [beginHandshake, draw, modify]

theorem finishJoin_draws (c : Client) (hsId : Handle) (r : HsRecord) (d : Data) :
    (c.finishJoin hsId r d).draws = c.draws := by
  unfold finishJoin
  split
  · rfl
  · split
    · rfl
    · split
      · simp
      · simp [modify, wipe, alloc]

theorem onVerdict_draws (c : Client) (hsId : Handle) (r : HsRecord) (v : Verdict) :
    (c.onVerdict hsId r v).draws = c.draws := by
  unfold onVerdict
  split
  · rfl
  · dsimp only
    split <;> simp [modify, alloc]
  · split
    · rfl
    · simp

theorem onPake_draws (c : Client) (msg : ServerMsg Data) : (c.onPake msg).draws = c.draws := by
  unfold onPake
  split
  · split
    · rfl
    · rw [onVerdict_draws]
      split <;> simp [modify]
  · rfl

theorem broadcastRoster_draws (c : Client) : c.broadcastRoster.draws = c.draws := by
  unfold broadcastRoster
  split
  · rfl
  · split
    · simp [noteSeal]
    · rfl

theorem rotateForLeave_draws (c : Client) (removed current : List Handle) :
    (c.rotateForLeave removed current).1.draws = c.draws + 1 := by
  unfold rotateForLeave
  generalize hc₁ : c.modify (·.forget removed) = c₁
  have hd₁ : c₁.draws = c.draws := by rw [← hc₁]; rfl
  have hd₂ : (c₁.generateRoomKey.1.pushKey c₁.generateRoomKey.2).draws = c.draws + 1 := by
    simp [generateRoomKey, draw, alloc, hd₁]
  dsimp only
  split
  · exact hd₂
  · exact (Same.forEach (fun c id => Same.rekeyMember c _ id) _ _).draws.trans hd₂

theorem rotateForJoin_draws (c : Client) (joinerId : Handle) (pub : Data) :
    (c.rotateForJoin joinerId pub).1.draws ≤ c.draws + 1 := by
  cases hs : c.session with
  | none =>
    simp [rotateForJoin, hs]
  | some s =>
    obtain ⟨-, -, -, -, -, -, hd⟩ := rotateForJoin_same joinerId pub hs
    exact hd.le

theorem onPresence_draws (c : Client) (members : List MemberInfo) :
    (c.onPresence members).draws ≤ c.draws + 1 := by
  unfold onPresence
  split
  · exact Nat.le_succ _
  · rename_i s hs
    dsimp only
    split
    · exact Nat.le_succ _
    · generalize hknown : (if ownerIdOf members = s.memberId ∧ s.role ≠ .owner then idsOf members
        else s.knownMembers) = known
      generalize hrem : known.filter _ = removed
      generalize hc₁ : Client.modify _ _ = c₁
      have hd₁ : c₁.draws = c.draws := by rw [← hc₁]; rfl
      have hd₂ : (if removed = [] then (c₁, true)
          else c₁.rotateForLeave removed (idsOf members)).1.draws ≤ c.draws + 1 := by
        split
        · exact hd₁.le.trans (Nat.le_succ _)
        · rw [rotateForLeave_draws, hd₁]
      split
      · rename_i c₂ hc₂
        rw [hc₂] at hd₂
        exact hd₂
      · rename_i c₂ hc₂
        rw [hc₂] at hd₂
        rw [broadcastRoster_draws]
        exact hd₂

theorem onMemberKey_draws (c : Client) (msg : ServerMsg Data) :
    (c.onMemberKey msg).draws ≤ c.draws + 1 := by
  unfold onMemberKey
  split <;> try exact Nat.le_succ _
  split <;> try exact Nat.le_succ _
  rename_i r hr
  split <;> try exact Nat.le_succ _
  split <;> try exact Nat.le_succ _
  rename_i pub hpub
  split
  · have hrot := (c.modify (·.setPub r.joinerMemberId pub)).rotateForJoin_draws r.joinerMemberId pub
    dsimp only
    generalize (c.modify (·.setPub r.joinerMemberId pub)).rotateForJoin r.joinerMemberId pub = p
      at hrot ⊢
    obtain ⟨c', _ | _⟩ := p
    · exact hrot
    · exact hrot
  · dsimp only
    split
    · rw [finishJoin_draws]
      exact Nat.le_succ _
    · exact Nat.le_succ _

theorem handleError_draws (c : Client) (msg : ServerMsg Data) : (c.handleError msg).draws = c.draws := by
  unfold handleError
  split
  · rfl
  · split
    · simp
    · split
      · split
        · rfl
        · simp
      · simp

theorem onClose_draws (c : Client) : c.onClose.draws = c.draws := by
  unfold onClose
  dsimp only
  split
  · simp
  · split
    · simp
    · rfl

theorem onMessage_draws (c : Client) (msg : ServerMsg Data) :
    (c.onMessage msg).draws ≤ c.draws + 1 := by
  unfold onMessage
  split
  · exact Nat.le_succ _
  · exact onPresence_draws c _
  · unfold onInviteCreated
    split
    · exact le_rfl
    · exact Nat.le_succ _
  · unfold onInviteRedeemed
    split
    · split
      · exact Nat.le_succ _
      · exact (beginHandshake_draws _ _ _ _ _ _).le
    · exact Nat.le_succ _
  · unfold onRedeemOk
    split
    · exact (beginHandshake_draws _ _ _ _ _ _).le
    · exact Nat.le_succ _
  · exact (onPake_draws c msg).le.trans (Nat.le_succ _)
  · exact onMemberKey_draws c msg
  · unfold onKeyDeliver
    split
    · split
      · exact Nat.le_succ _
      · split
        · exact Nat.le_succ _
        · rw [finishJoin_draws]
          exact Nat.le_succ _
    · exact Nat.le_succ _
  · unfold onRekey
    split
    · split
      · exact Nat.le_succ _
      · split
        · exact Nat.le_succ _
        · simp [alloc]
    · exact Nat.le_succ _
  · split
    · unfold applyRoster
      split <;> exact Nat.le_succ _
    · exact Nat.le_succ _
  · simp
  · exact (handleError_draws c msg).le.trans (Nat.le_succ _)
  all_goals exact Nat.le_succ _

end Client

/-- Apart from `connect`, which makes a key pair as well, an event draws at most one value. -/
theorem step_draws_le (hstep : c.step a = some c') (ha : ∀ i, a ≠ .connected i) :
    c'.draws ≤ c.draws + 1 := by
  have hsend (x : Client) (m : ClientMsg Data) : (x.send m).draws = x.draws := by simp
  have hleave (x : Client) : x.doLeave.draws = x.draws := by simp [Client.doLeave]
  have hconnect (x : Client) (m : ClientMsg Data) : (x.beginConnect m).draws = x.draws := by
    unfold Client.beginConnect
    dsimp only
    split <;> simp
  have hresume (u : Nat) (up : Upload) : (c.resume u up).draws = c.draws := by
    unfold Client.resume
    split
    · simp [Client.sendChunk, Client.noteSeal]
    · split
      · rfl
      · split <;> simp [Client.sendChunk, Client.noteSeal, Client.dropUpload]
  have haction (m : ClientMsg Data) : (c.memberAction m).draws = c.draws := by
    unfold Client.memberAction
    split <;> simp
  have hsubmit (body : Option Data) (file : Option (String × File)) :
      (c.submit body file).draws = c.draws := by
    unfold Client.submit
    split
    · rfl
    · split
      · rfl
      · cases body <;> cases file <;>
          simp [Client.sendText, Client.sendFile, Client.noteSeal, Client.beginUpload]
  cases a <;> simp only [Client.step] at hstep
  case connected i => exact absurd rfl (ha i)
  case message =>
    split at hstep <;> simp only [reduceCtorEq, Option.some.injEq] at hstep
    subst hstep
    exact c.onMessage_draws _
  case create => cases hstep; exact (hconnect _ _).le.trans (Nat.le_succ _)
  case join => cases hstep; exact (hconnect _ _).le.trans (Nat.le_succ _)
  case submit => cases hstep; exact (hsubmit _ _).le.trans (Nat.le_succ _)
  case resume u =>
    obtain ⟨up, -, rfl⟩ := Option.map_eq_some_iff.mp hstep
    exact (hresume u up).le.trans (Nat.le_succ _)
  case invite => cases hstep; exact (hsend _ _).le.trans (Nat.le_succ _)
  case unload => cases hstep; exact (hsend _ _).le.trans (Nat.le_succ _)
  case makeOwner => cases hstep; exact (haction _).le.trans (Nat.le_succ _)
  case kick => cases hstep; exact (haction _).le.trans (Nat.le_succ _)
  case transferLeave => cases hstep; simp [hleave]
  case leave =>
    split at hstep <;> simp only [reduceCtorEq, Option.some.injEq] at hstep
    subst hstep
    simp [hleave]
  case opened sock =>
    split at hstep <;> simp only [reduceCtorEq, Option.some.injEq] at hstep
    subst hstep
    exact Nat.le_succ _
  case closing sock =>
    split at hstep <;> simp only [reduceCtorEq, Option.some.injEq] at hstep
    subst hstep
    unfold Client.closeSocket
    split <;> exact Nat.le_succ _
  case closed sock =>
    split at hstep <;> simp only [reduceCtorEq, Option.some.injEq] at hstep
    subst hstep
    rw [Client.onClose_draws]
    exact Nat.le_succ _
  case visible =>
    cases hstep
    unfold Client.recoverIfSocketDead
    split
    · split
      · rw [Client.onClose_draws]
        exact Nat.le_succ _
      · exact Nat.le_succ _
    · exact Nat.le_succ _

/-- Under `connect` no frame goes out. -/
theorem endConnect_outbox (c : Client) (hello : ClientMsg Data) :
    (c.endConnect hello).outbox = c.outbox := by
  have h1 : (c.openSession hello).outbox = c.outbox := rfl
  unfold Client.endConnect
  split
  · rw [Client.firstKey_eq rfl rfl]
    simp [Client.generateRoomKey, Client.draw, Client.alloc, h1]
  · exact h1

/-- A key of this step: drawn in it, and then encrypted with or sealed. -/
def Makes (c c' : Client) (key : Data) : Prop :=
  DrawnBetween c c' key ∧ ((∃ k, c'.Current k key) ∨
    ∃ m ∈ c'.outbox, m ∉ c.outbox ∧ ∃ k, envelope m.2 = some (.enc k (keyToString key)))

theorem makes_unique {key' : Data} (hstep : c.step a = some c') (h : Makes c c' key)
    (h' : Makes c c' key') : key = key' := by
  obtain ⟨⟨i, hi, hi', rfl⟩, hmade⟩ := h
  obtain ⟨⟨j, hj, hj', rfl⟩, hmade'⟩ := h'
  by_cases ha : ∃ n, a = .connected n
  · -- a key pair and a room key are drawn, and no frame goes out
    obtain ⟨n, rfl⟩ := ha
    have hout : c'.outbox = c.outbox := by
      simp only [Client.step] at hstep
      split at hstep <;> simp only [reduceCtorEq, Option.some.injEq] at hstep
      subst hstep
      exact endConnect_outbox _ _
    rw [hout] at hmade hmade'
    obtain ⟨k, s, x, hs, -, hx, hread⟩ | ⟨m, hm, hm', -⟩ := hmade
    · obtain ⟨k', s', x', hs', -, hx', hread'⟩ | ⟨m, hm, hm', -⟩ := hmade'
      · obtain rfl := Option.some.inj (hs.symm.trans hs')
        obtain rfl := Option.some.inj (hx.symm.trans hx')
        exact hread.symm.trans hread'
      · exact absurd hm hm'
    · exact absurd hm hm'
  · have hle := step_draws_le hstep fun n hn => ha ⟨n, hn⟩
    obtain rfl : i = j := by omega
    rfl

end E2EAnon.Web
