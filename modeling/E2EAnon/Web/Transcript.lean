import E2EAnon.Web.Spake2

/-!
# What a transcript binds (`spake2.ts:86-144`)

`TT` is a concatenation of length-prefixed fields, so it can be read back (`transcript_inj`). A
confirmation is a MAC over it: as far as HMAC has no collisions, `verifyPeer` accepts the
confirmation of the other role only over the same identities, messages, shared element and `w`. An
identity is bytes: ids that differ only in lone surrogates have the same ones, and sessions made with
two of them confirm each other (`lone_surrogates_confirm`).
-/

namespace E2EAnon.Web

open Lib

/-! ## Encodings -/

theorem length_littleEndian (n k : Nat) : (littleEndian n k).length = k := by
  induction k generalizing n with
  | zero => rfl
  | succ k ih => simp [littleEndian, ih]

/-- The bytes of a number that they have room for. -/
theorem littleEndian_inj {k n n' : Nat} (hn : n < 256 ^ k) (hn' : n' < 256 ^ k)
    (h : littleEndian n k = littleEndian n' k) : n = n' := by
  induction k generalizing n n' with
  | zero =>
    simp only [pow_zero, Nat.lt_one_iff] at hn hn'
    rw [hn, hn']
  | succ k ih =>
    simp only [littleEndian, List.cons.injEq] at h
    obtain ⟨hlow, hhigh⟩ := h
    have hroom : ∀ m : Nat, m < 256 ^ (k + 1) → m >>> 8 < 256 ^ k := by
      intro m hm
      rw [Nat.shiftRight_eq_div_pow, Nat.div_lt_iff_lt_mul (by decide)]
      exact pow_succ 256 k ▸ hm
    have hdiv : n / 256 = n' / 256 := by
      simpa [Nat.shiftRight_eq_div_pow] using ih (hroom n hn) (hroom n' hn') hhigh
    have hmod : n % 256 = n' % 256 := by
      have hand : ∀ m : Nat, m &&& 0xff = m % 256 := fun m => Nat.and_two_pow_sub_one_eq_mod m 8
      simpa [hand] using congrArg UInt8.toNat hlow
    omega

theorem bigToBytesBE_inj {k n n' : Nat} (hn : n < 256 ^ k) (hn' : n' < 256 ^ k)
    (h : bigToBytesBE n k = bigToBytesBE n' k) : n = n' :=
  littleEndian_inj hn hn' (List.reverse_injective h)

/-- Its length fits into 8 bytes. -/
def Short (b : Bytes) : Prop := b.length < 2 ^ 64

instance shortDecidable (b : Bytes) : Decidable (Short b) :=
  inferInstanceAs (Decidable (b.length < 2 ^ 64))

/-- A length-prefixed field is read off what it is followed by. -/
theorem lv_append_inj {a b x y : Bytes} (ha : Short a) (hb : Short b)
    (h : lv a ++ x = lv b ++ y) : a = b ∧ x = y := by
  simp only [lv, List.append_assoc] at h
  obtain ⟨hlen, h⟩ := List.append_inj h (by simp [length_littleEndian])
  have heq : a.length = b.length := by
    refine littleEndian_inj ?_ ?_ hlen
    · exact ha.trans_eq (by decide)
    · exact hb.trans_eq (by decide)
  exact List.append_inj h heq

namespace Noble

variable {G : Type}

theorem transcript_inj {idA idB pA pB K idA' idB' pA' pB' K' : Bytes} {w w' : Nat}
    (hA : Short idA) (hB : Short idB) (hpA : Short pA) (hpB : Short pB) (hK : Short K)
    (hA' : Short idA') (hB' : Short idB') (hpA' : Short pA') (hpB' : Short pB') (hK' : Short K')
    (hw : w < 2 ^ 256) (hw' : w' < 2 ^ 256)
    (h : transcript idA idB pA pB K w = transcript idA' idB' pA' pB' K' w') :
    idA = idA' ∧ idB = idB' ∧ pA = pA' ∧ pB = pB' ∧ K = K' ∧ w = w' := by
  simp only [transcript, List.append_assoc] at h
  obtain ⟨heqA, h⟩ := lv_append_inj hA hA' h
  obtain ⟨heqB, h⟩ := lv_append_inj hB hB' h
  obtain ⟨heqpA, h⟩ := lv_append_inj hpA hpA' h
  obtain ⟨heqpB, h⟩ := lv_append_inj hpB hpB' h
  obtain ⟨heqK, h⟩ := lv_append_inj hK hK' h
  -- the last field has nothing behind it
  have hshort : ∀ n, Short (bigToBytesBE n scalarBytes) := by
    intro n
    simp [Short, bigToBytesBE, length_littleEndian, scalarBytes]
  obtain ⟨hbytes, -⟩ := lv_append_inj (hshort w) (hshort w') (congrArg (· ++ []) h)
  exact ⟨heqA, heqB, heqpA, heqpB, heqK,
    bigToBytesBE_inj (hw.trans_eq (by decide)) (hw'.trans_eq (by decide)) hbytes⟩

/-! ## What a call of `finish` works on -/

variable [AddCommGroup G] (C : Noble G)

def State.pA (st : State) (peerMessage : Bytes) : Bytes :=
  match st.role with
  | .A => st.own
  | .B => peerMessage

def State.pB (st : State) (peerMessage : Bytes) : Bytes :=
  match st.role with
  | .A => peerMessage
  | .B => st.own

/-- `K` (`spake2.ts:95`). -/
def sharedElement (st : State) (peerMessage : Bytes) : Option G := do
  let peer ← C.fromBytes peerMessage
  let wSeed ← C.mul (C.seed st.role.other) st.w
  C.multiply (peer - wSeed) st.scalar

variable {C}

theorem finish_eq_some {st : State} {peerMessage : Bytes} {r : Result} :
    C.finish st peerMessage = some r ↔ ∃ K KBytes, C.sharedElement st peerMessage = some K ∧
      C.toBytes K = some KBytes ∧ r = C.keySchedule st.role st.aad
        (transcript st.idA st.idB (st.pA peerMessage) (st.pB peerMessage) KBytes st.w) := by
  obtain ⟨role, scalar, w, own, idA, idB, aad⟩ := st
  simp only [finish, sharedElement, Option.bind_eq_bind, Option.bind_eq_some_iff]
  constructor
  · rintro ⟨peer, hpeer, wSeed, hw, K, hK, KBytes, hb, h⟩
    cases h
    exact ⟨K, KBytes, ⟨peer, hpeer, wSeed, hw, hK⟩, hb, by cases role <;> rfl⟩
  · rintro ⟨K, KBytes, ⟨peer, hpeer, wSeed, hw, hK⟩, hb, rfl⟩
    exact ⟨peer, hpeer, wSeed, hw, K, hK, KBytes, hb, by cases role <;> rfl⟩

omit [AddCommGroup G] in
@[simp] theorem keySchedule_transcript (role : PakeRole) (aad TT : Bytes) :
    (C.keySchedule role aad TT).transcript = TT := by
  cases role <;> rfl

/-! ## Binding -/

/-- What the primitives promise about sizes. -/
structure Sized (C : Noble G) : Prop where
  order   : C.ORDER ≤ 2 ^ 256
  toBytes : ∀ g b, C.toBytes g = some b → Short b

/-- No two messages have the same MAC. -/
structure CollisionFree (C : Noble G) : Prop where
  hmac : ∀ key m key' m', C.hmac key m = C.hmac key' m' → m = m'

/-- The fields of a call of `finish` fit their encodings. -/
structure Bounded (st : State) (peerMessage : Bytes) : Prop where
  idA  : Short st.idA
  idB  : Short st.idB
  own  : Short st.own
  peer : Short peerMessage
  w    : st.w < 2 ^ 256

/-- Two calls of `finish` have everything in common that a transcript is made of. -/
structure Bound (C : Noble G) (st : State) (peer : Bytes) (st' : State) (peer' : Bytes) : Prop where
  idA      : st.idA = st'.idA
  idB      : st.idB = st'.idB
  pA       : st.pA peer = st'.pA peer'
  pB       : st.pB peer = st'.pB peer'
  encoding : (C.sharedElement st peer).bind C.toBytes = (C.sharedElement st' peer').bind C.toBytes
  element  : C.sharedElement st peer = C.sharedElement st' peer'
  w        : st.w = st'.w

theorem Bounded.points {st : State} {peer : Bytes} (h : Bounded st peer) :
    Short (st.pA peer) ∧ Short (st.pB peer) := by
  cases hr : st.role <;> simp [State.pA, State.pB, hr, h.own, h.peer]

/-- A transcript determines what it was made of. -/
theorem bound_of_transcript (hC : C.Lawful) (hS : C.Sized) {st st' : State} {peer peer' : Bytes}
    {r r' : Result} (hb : Bounded st peer) (hb' : Bounded st' peer')
    (hr : C.finish st peer = some r) (hr' : C.finish st' peer' = some r')
    (h : r.transcript = r'.transcript) : C.Bound st peer st' peer' := by
  obtain ⟨K, KBytes, hK, hKb, rfl⟩ := finish_eq_some.mp hr
  obtain ⟨K', KBytes', hK', hKb', rfl⟩ := finish_eq_some.mp hr'
  rw [keySchedule_transcript, keySchedule_transcript] at h
  obtain ⟨hidA, hidB, hpA, hpB, hbytes, hw⟩ := transcript_inj hb.idA hb.idB hb.points.1 hb.points.2
    (hS.toBytes K _ hKb) hb'.idA hb'.idB hb'.points.1 hb'.points.2 (hS.toBytes K' _ hKb') hb.w hb'.w h
  have hKK : K = K' := by
    have hread := hC.fromBytes K _ hKb
    rw [hbytes, hC.fromBytes K' _ hKb'] at hread
    exact (Option.some.inj hread).symm
  exact ⟨hidA, hidB, hpA, hpB, by simp [hK, hK', hKK], by rw [hK, hK', hKK], hw⟩

/-- A confirmation of the other role is accepted over one transcript only. -/
theorem transcript_of_verifyPeer (hfree : C.CollisionFree) {st st' : State} {peer peer' : Bytes}
    {r r' : Result} (hr : C.finish st peer = some r) (hr' : C.finish st' peer' = some r')
    (hrole : st'.role = st.role.other) (h : r.verifyPeer r'.confirm = true) :
    r.transcript = r'.transcript := by
  obtain ⟨K, KBytes, -, -, rfl⟩ := finish_eq_some.mp hr
  obtain ⟨K', KBytes', -, -, rfl⟩ := finish_eq_some.mp hr'
  have hmac := timingSafeEqual_iff.mp h
  rw [keySchedule_transcript, keySchedule_transcript]
  cases hA : st.role <;> rw [hrole, hA] at hmac <;>
    exact (hfree.hmac _ _ _ _ hmac).symm

end Noble

/-! ## Sessions -/

namespace Exchange

variable {P : Pake} {h : Exchange P} {f : Option (PakeFrame P)}

/-- The confirmation a call checks, if it checks one. -/
def checks (h : Exchange P) : Option (PakeFrame P) → Option P.Mac
  | some (.c d) => some d
  | some (.m _) => h.pendingPeerConfirm
  | none => none

/-- Given `fs` and then `f`, the session confirms on the confirmation `d`. -/
def ConfirmsOn (h : Exchange P) (fs : List (Option (PakeFrame P))) (f : Option (PakeFrame P))
    (d : P.Mac) : Prop :=
  (∃ ke, ((h.feed fs).onData f).2.2 = .confirmed ke) ∧ (h.feed fs).checks f = some d

/-- A call leaves the state of the PAKE, and its result is that of a point it was given. -/
theorem onData_finish (h : Exchange P) (f : Option (PakeFrame P)) :
    (h.onData f).1.state = h.state ∧ ∀ r, (h.onData f).1.result = some r →
      h.result = some r ∨ ∃ p, f = some (.m p) ∧ P.finish h.state p = some r := by
  unfold onData handlePoint handleConfirm verify fail
  grind

theorem verify_confirmed {pc : P.Mac} {ke : P.Key} (hc : (h.verify pc).2 = .confirmed ke) :
    ∃ r, (h.verify pc).1.result = some r ∧ P.verifyPeer r pc = true := by
  cases hr : h.result with
  | none => simp [verify, hr] at hc
  | some r =>
    simp only [verify, hr] at hc ⊢
    split at hc
    · rename_i hv
      exact ⟨r, by simp [hv], hv⟩
    · unfold fail at hc
      split at hc <;> cases hc

/-- A call that confirms has checked a confirmation against the result. -/
theorem onData_confirmed {ke : P.Key} (hc : (h.onData f).2.2 = .confirmed ke) :
    ∃ r d, (h.onData f).1.result = some r ∧ h.checks f = some d ∧ P.verifyPeer r d = true := by
  cases hd : h.done with
  | true => simp [onData, hd] at hc
  | false =>
    cases f with
    | none => simp [onData, hd] at hc
    | some frame =>
      cases frame with
      | c d =>
        cases hr : h.result with
        | none => simp [onData, hd, handleConfirm, hr] at hc
        | some r =>
          simp only [onData, hd, handleConfirm, hr, Bool.false_eq_true, if_false] at hc ⊢
          obtain ⟨r', hr', hv⟩ := verify_confirmed hc
          exact ⟨r', d, hr', rfl, hv⟩
      | m p =>
        cases hr : h.result with
        | some r => simp [onData, hd, handlePoint, hr] at hc
        | none =>
          cases hfin : P.finish h.state p with
          | none => simp [onData, hd, handlePoint, hr, hfin, fail] at hc
          | some r =>
            cases hpc : h.pendingPeerConfirm with
            | none => simp [onData, hd, handlePoint, hr, hfin, hpc] at hc
            | some d =>
              simp only [onData, hd, handlePoint, hr, hfin, hpc, Bool.false_eq_true, if_false]
                at hc ⊢
              obtain ⟨r', hr', hv⟩ := verify_confirmed hc
              exact ⟨r', d, hr', hpc, hv⟩

/-- The result of a session is that of a point it was given. -/
theorem feed_finish (h : Exchange P) (fs : List (Option (PakeFrame P))) :
    (h.feed fs).state = h.state ∧ ∀ r, (h.feed fs).result = some r →
      h.result = some r ∨ ∃ p, some (.m p) ∈ fs ∧ P.finish h.state p = some r := by
  induction fs generalizing h with
  | nil => exact ⟨rfl, fun r hr => .inl hr⟩
  | cons f fs ih =>
    obtain ⟨hst, hres⟩ := ih (h.onData f).1
    obtain ⟨hst1, hres1⟩ := onData_finish h f
    refine ⟨hst.trans hst1, fun r hr => ?_⟩
    obtain hold | ⟨p, hp, hfin⟩ := hres r hr
    · obtain hold | ⟨p, rfl, hfin⟩ := hres1 r hold
      · exact .inl hold
      · exact .inr ⟨p, List.mem_cons_self, hfin⟩
    · exact .inr ⟨p, List.mem_cons_of_mem _ hp, hst1 ▸ hfin⟩

theorem feed_point {st : P.State} {p : P.Point} {r : P.Result} (hfin : P.finish st p = some r) :
    ({ state := st } : Exchange P).feed [some (.m p)] = { state := st, result := some r } := by
  simp [feed, onData, handlePoint, hfin]

/-- A session that is given a point it finishes with, and then the confirmation it expects. -/
theorem confirmsOn_of_finish {st : P.State} {p : P.Point} {pc : P.Mac} {r : P.Result}
    (hfin : P.finish st p = some r) (hv : P.verifyPeer r pc = true) :
    ({ state := st } : Exchange P).ConfirmsOn [some (.m p)] (some (.c pc)) pc := by
  refine ⟨⟨P.ke r, ?_⟩, rfl⟩
  rw [feed_point hfin]
  simp [onData, handleConfirm, verify, hv]

end Exchange

namespace Noble

variable {G : Type} [AddCommGroup G] {C : Noble G}

/-- The identities made of a handshake id. -/
def ShortId (handshakeId : JsString) : Prop := Short (idA handshakeId) ∧ Short (idB handshakeId)

instance shortIdDecidable (handshakeId : JsString) : Decidable (ShortId handshakeId) :=
  inferInstanceAs (Decidable (_ ∧ _))

/-- An identity determines the bytes of the id it is made of, and so the id, lone surrogates apart. -/
theorem idA_inj {handshakeId handshakeId' : JsString} (h : idA handshakeId = idA handshakeId') :
    utf8 handshakeId = utf8 handshakeId' := by
  have hascii : JsString.IsAscii (JsString.lit "anonchat-owner:") := by decide +kernel
  simp only [idA, utf8, JsString.encode_ascii_append hascii, List.append_cancel_left_eq] at h
  exact h

def ShortPoints (fs : List (Option (PakeFrame C.pake))) : Prop :=
  ∀ p : Bytes, some (.m p) ∈ fs → Short p

theorem handshakeSession_eq_some {role : PakeRole} {code handshakeId : JsString} {random : Bytes}
    {side : Side C.pake} (h : C.handshakeSession role code handshakeId random = some side) :
    ∃ st : State, side.session = { state := st } ∧ st.role = role ∧
      st.w = C.deriveW code (utf8 handshakeId) ∧ st.idA = idA handshakeId ∧
      st.idB = idB handshakeId ∧ ∃ g, C.toBytes g = some st.own := by
  simp only [handshakeSession, start, Option.bind_eq_bind, Option.bind_eq_some_iff,
    Option.some.injEq] at h
  obtain ⟨⟨st, message⟩, ⟨X, -, wSeed, -, m, hm, hst⟩, rfl⟩ := h
  cases hst
  exact ⟨_, rfl, rfl, rfl, rfl, rfl, _, hm⟩

/-- A session confirms only on the confirmation of a session with the bytes of its handshake id and
its `w`. -/
theorem session_binding (hC : C.Lawful) (hS : C.Sized) (hfree : C.CollisionFree) {role : PakeRole}
    {code code' handshakeId handshakeId' : JsString} {random random' : Bytes} {side side' : Side C.pake}
    (hside : C.handshakeSession role code handshakeId random = some side)
    (hside' : C.handshakeSession role.other code' handshakeId' random' = some side')
    (hid : ShortId handshakeId) (hid' : ShortId handshakeId')
    {fs fs' : List (Option (PakeFrame C.pake))} {f : Option (PakeFrame C.pake)}
    (hfs : ShortPoints (fs ++ [f])) (hfs' : ShortPoints fs')
    {r' : Result} (hr' : (side'.session.feed fs').result = some r')
    (hc : side.session.ConfirmsOn fs f r'.confirm) :
    utf8 handshakeId = utf8 handshakeId' ∧
      C.deriveW code (utf8 handshakeId) = C.deriveW code' (utf8 handshakeId') := by
  obtain ⟨st, hst, hrole, hw, hidA, hidB, g, hown⟩ := handshakeSession_eq_some hside
  obtain ⟨st', hst', hrole', hw', hidA', hidB', g', hown'⟩ := handshakeSession_eq_some hside'
  have hlt : ∀ code salt, C.deriveW code salt < 2 ^ 256 := fun code salt =>
    (deriveW_lt hC code salt).trans_le hS.order
  obtain ⟨⟨ke, hc⟩, hd⟩ := hc
  obtain ⟨r, d, hr, hd', hv⟩ := Exchange.onData_confirmed hc
  obtain rfl := Option.some.inj (hd.symm.trans hd')
  -- both results are those of points the sessions were given
  have hfeed : ((side.session.feed fs).onData f).1 = side.session.feed (fs ++ [f]) := by
    simp [Exchange.feed]
  rw [hfeed, hst] at hr
  rw [hst'] at hr'
  obtain hno | ⟨p, hp, hfin⟩ :=
    (Exchange.feed_finish ({ state := st } : Exchange C.pake) _).2 r hr
  · cases hno
  obtain hno | ⟨p', hp', hfin'⟩ :=
    (Exchange.feed_finish ({ state := st' } : Exchange C.pake) _).2 r' hr'
  · cases hno
  have hb : Bounded st p :=
    ⟨hidA ▸ hid.1, hidB ▸ hid.2, hS.toBytes g _ hown, hfs p hp, hw ▸ hlt _ _⟩
  have hb' : Bounded st' p' :=
    ⟨hidA' ▸ hid'.1, hidB' ▸ hid'.2, hS.toBytes g' _ hown', hfs' p' hp', hw' ▸ hlt _ _⟩
  have hTT := transcript_of_verifyPeer hfree hfin hfin' (by rw [hrole, hrole']) hv
  have hbound := bound_of_transcript hC hS hb hb' hfin hfin' hTT
  exact ⟨idA_inj (hidA.symm.trans (hbound.idA.trans hidA')), by rw [← hw, ← hw', hbound.w]⟩

/-- **Transcript binding.** Sessions are bound to the bytes of their handshake ids, which are those of no
other well-formed id. -/
theorem transcript_binding (hC : C.Lawful) (hS : C.Sized) (hfree : C.CollisionFree) :
    (∀ st peer st' peer' r r', Bounded st peer → Bounded st' peer' →
      C.finish st peer = some r → C.finish st' peer' = some r' →
        (r.transcript = r'.transcript → C.Bound st peer st' peer') ∧
        (st'.role = st.role.other → r.verifyPeer r'.confirm = true →
          C.Bound st peer st' peer')) ∧
    ∀ role code code' handshakeId handshakeId' random random' side side',
      C.handshakeSession role code handshakeId random = some side →
      C.handshakeSession role.other code' handshakeId' random' = some side' →
      ShortId handshakeId → ShortId handshakeId' →
      ∀ fs f fs' (r' : Result), C.ShortPoints (fs ++ [f]) → C.ShortPoints fs' →
        (side'.session.feed fs').result = some r' →
        side.session.ConfirmsOn fs f r'.confirm →
          utf8 handshakeId = utf8 handshakeId' ∧
            (JsString.isWellFormed handshakeId = true → JsString.isWellFormed handshakeId' = true →
              handshakeId = handshakeId') ∧
            C.deriveW code (utf8 handshakeId) = C.deriveW code' (utf8 handshakeId') := by
  refine ⟨fun st peer st' peer' r r' hb hb' hr hr' => ⟨fun hTT => ?_, fun hrole hv => ?_⟩, ?_⟩
  · exact bound_of_transcript hC hS hb hb' hr hr' hTT
  · exact bound_of_transcript hC hS hb hb' hr hr' (transcript_of_verifyPeer hfree hr hr' hrole hv)
  · intro role code code' handshakeId handshakeId' random random' side side' hside hside' hid hid'
      fs f fs' r' hfs hfs' hr' hc
    obtain ⟨hbytes, hw⟩ := session_binding hC hS hfree hside hside' hid hid' hfs hfs' hr' hc
    exact ⟨hbytes, fun hwf hwf' => JsString.encode_inj hwf hwf' hbytes, hw⟩

/-- A MAC that can be read back. -/
def tag (key b : Bytes) : Bytes := key.flatMap (fun x => [1, x]) ++ 0 :: b

def tagged : Noble (ZMod 11) := { small with hmac := tag }

theorem tag_inj {key b key' b' : Bytes} (h : tag key b = tag key' b') : b = b' := by
  induction key generalizing key' with
  | nil =>
    cases key' with
    | nil => simpa [tag] using h
    | cons x key' => simp [tag] at h
  | cons x key ih =>
    cases key' with
    | nil => simp [tag] at h
    | cons x' key' =>
      simp only [tag, List.flatMap_cons, List.cons_append, List.nil_append, List.cons.injEq,
        true_and] at h
      exact ih h.2

theorem tagged_lawful : tagged.Lawful :=
  ⟨small_lawful.order, small_lawful.toBytes, small_lawful.fromBytes⟩

theorem tagged_sized : tagged.Sized where
  order := by decide
  toBytes g b h := by
    simp only [tagged, small, Option.ite_none_left_eq_some, Option.some.injEq] at h
    simp [Short, ← h.2]

theorem tagged_free : tagged.CollisionFree := ⟨fun _ _ _ _ => tag_inj⟩

theorem transcript_binding_sample : ∃ A mA B mB rA rB,
    tagged.start .A 4 [1] [2] [] 4 = some (A, mA) ∧ tagged.start .B 4 [1] [2] [] 5 = some (B, mB) ∧
      tagged.finish A mB = some rA ∧ tagged.finish B mA = some rB ∧ tagged.Bound A mB B mA := by
  have h := (transcript_binding tagged_lawful tagged_sized tagged_free).1
  refine ⟨_, _, _, _, _, _, rfl, rfl, rfl, rfl, (h _ _ _ _ _ _ ?_ ?_ rfl rfl).2 rfl ?_⟩
  · exact ⟨by decide, by decide, by decide, by decide, by decide⟩
  · exact ⟨by decide, by decide, by decide, by decide, by decide⟩
  · decide +kernel

/-! ## Lone surrogates -/

/-- A session knows its handshake id by the bytes. -/
theorem handshakeSession_congr {handshakeId handshakeId' : JsString}
    (h : utf8 handshakeId = utf8 handshakeId') (role : PakeRole) (code : JsString) (random : Bytes) :
    C.handshakeSession role code handshakeId random = C.handshakeSession role code handshakeId' random := by
  have howner : JsString.IsAscii (JsString.lit "anonchat-owner:") := by decide +kernel
  have hjoiner : JsString.IsAscii (JsString.lit "anonchat-joiner:") := by decide +kernel
  unfold utf8 at h
  simp only [handshakeSession, idA, idB, utf8, JsString.encode_ascii_append howner,
    JsString.encode_ascii_append hjoiner, h]

/-- Sessions with one code and ids of the same bytes confirm each other. -/
theorem confirms_of_bytes (hC : C.Lawful) (hS : C.Sized) (code : JsString)
    {handshakeId handshakeId' : JsString} (hid : utf8 handshakeId = utf8 handshakeId')
    (random : PakeRole → Bytes)
    (h : C.NoIdentity (C.deriveW code (utf8 handshakeId)) fun r => C.randomScalar (random r)) :
    ∃ (A B : Side C.pake) (pA pB : Bytes) (rB : Result),
      C.handshakeSession .A code handshakeId (random .A) = some A ∧
      C.handshakeSession .B code handshakeId' (random .B) = some B ∧ Short pA ∧ Short pB ∧
      (B.session.feed [some (.m pA)]).result = some rB ∧
      A.session.ConfirmsOn [some (.m pB)] (some (.c rB.confirm)) rB.confirm := by
  obtain ⟨own, state, result, hown, hstart, hm⟩ := session_matched hC code handshakeId random h
  have hshort : ∀ r, Short (own r) := fun r => (hown r).elim fun g hg => hS.toBytes g _ hg
  have hstartB : C.handshakeSession .B code handshakeId' (random .B) =
      some (Side.new (state .B) (own .B)) := by
    rw [← handshakeSession_congr hid]
    exact hstart .B
  exact ⟨_, _, own .A, own .B, result .B, hstart .A, hstartB, hshort .A, hshort .B,
    congrArg Exchange.result (Exchange.feed_point (hm.finish .B)),
    Exchange.confirmsOn_of_finish (hm.finish .A) (hm.verify .A)⟩

/-- Two ids that differ in a lone surrogate: a session made with one confirms on the confirmation of a
session made with the other. -/
theorem lone_surrogates_confirm :
    let handshakeId : JsString := [0x61, 0xD800]
    let handshakeId' : JsString := [0x61, 0xD801]
    tagged.Lawful ∧ tagged.Sized ∧ tagged.CollisionFree ∧ ShortId handshakeId ∧ ShortId handshakeId' ∧
    handshakeId ≠ handshakeId' ∧
    ∃ (A B : Side tagged.pake) (pA pB : Bytes) (rB : Result),
      tagged.handshakeSession .A (JsString.lit "ABCDE12345") handshakeId [4] = some A ∧
      tagged.handshakeSession .B (JsString.lit "ABCDE12345") handshakeId' [5] = some B ∧
      Short pA ∧ Short pB ∧ (B.session.feed [some (.m pA)]).result = some rB ∧
      A.session.ConfirmsOn [some (.m pB)] (some (.c rB.confirm)) rB.confirm := by
  refine ⟨tagged_lawful, tagged_sized, tagged_free, by decide +kernel, by decide +kernel,
    by decide +kernel, ?_⟩
  exact confirms_of_bytes tagged_lawful tagged_sized _ (by decide +kernel) (fun r => [if r = .A then 4 else 5])
    ⟨fun r => by cases r <;> decide +kernel, by decide +kernel⟩

end Noble
end E2EAnon.Web
