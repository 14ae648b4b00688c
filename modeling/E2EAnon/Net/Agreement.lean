import E2EAnon.Net.Attest
import E2EAnon.Net.Kinds
import E2EAnon.Web.Current

/-!
# Who is at the other end of a handshake

The tabs and the relay of `Net/Secrecy.lean`. A confirmation is a tag of `Ke`, which only the two
sessions of the exchange can compute, and each of them only with its own role; so the one that a tab
accepts has been sent by a tab in the other role, with the same code, handshake id and points
(`join_authenticated`). What it then opens under `Ke` is that tab's public key, or its own come back:
`sealUnderKe` has no direction. So is the first room key (`room_key_authentic`). Both are about runs in
which no upload seals news under a key that has been wiped (`Discreet`): that would give it away.
-/

namespace E2EAnon.Net

open Web
open Relay (clientPayloads payloads)
open Lib (JsMap)

namespace Tabs

/-- A tab has confirmed `ke` as `role`. -/
def Confirmed (t : Tabs) (role : PakeRole) (ke : Data) : Prop :=
  ∃ j sock hsId st res, Outcome (j + 1) hsId st res ∧ res.confirm = .tag (.confirm role) ke ∧
    (sock, .pake hsId (pakeFrame .pakeC res.confirm)) ∈ (t j).outbox

def vouch (t : Tabs) : Const → Data → Prop
  | .confirm role, ke => t.Confirmed role ke
  | _, _ => True

abbrev Vouched (t : Tabs) (d : Data) : Prop := Lib.Term.Vouched secrets t.vouch d

/-- The tab has sent the envelope to give a room key away. -/
def GivesAway (t : Tabs) (k : Nat) (d : Data) : Prop :=
  ∃ sock id, (sock, .rekey id d) ∈ (t k).outbox ∨ (sock, .keyDeliver id d) ∈ (t k).outbox

/-- Fit to be seen by the relay, and if it is an envelope it holds no confirmation that no tab has
sent. -/
def Credible (t : Tabs) (d : Data) : Prop := t.Safe d ∧ ∀ k m, d = .enc k m → t.Vouched d

end Tabs

/-- Two sessions in opposite roles with the same code and handshake id, each of which has got the
other's point. -/
structure Mates (st : Spake2State) (res : Spake2Result) (st' : Spake2State) (res' : Spake2Result) :
    Prop where
  role   : st'.role = st.role.other
  code   : st'.code = st.code
  hsId   : st'.handshakeId = st.handshakeId
  mine   : finish st st'.message = some res
  theirs : finish st' st.message = some res'

/-- What holds in every state, whatever the relay does. -/
structure Upright (t : Tabs) : Prop where
  who      : ∀ i, (t i).who = i + 1
  kept     : ∀ i, Kept t.Credible (t i)
  attested : ∀ i, Attested t.Derives (t i)

/-- The tab `who` has the other end of the exchange. -/
def MatedWith (who : Nat) (hsId : Handle) (st : Spake2State) (res : Spake2Result) : Prop :=
  ∃ st' res', Outcome who hsId st' res' ∧ Mates st res st' res'

variable {t t' : Tabs} {i : Nat} {a : Web.Act} {who who' : Nat} {hsId hsId' : Handle}
  {st st' : Spake2State} {res res' : Spake2Result} {d p pub key : Data}

/-! ## A `Ke` belongs to two sessions -/

theorem finish_spec (h : finish st p = some res) : res.confirm = .tag (.confirm st.role) res.ke ∧
    res.peerConfirm = .tag (.confirm st.role.other) res.ke ∧
    res.ke = match st.role with
      | .A => keOf st.code st.handshakeId st.message p
      | .B => keOf st.code st.handshakeId p st.message := by
  unfold finish at h
  split at h
  · cases h
    exact ⟨rfl, rfl, rfl⟩
  · cases h

theorem Party.hsId_eq (h : Party who hsId st) : st.handshakeId = hsId := by
  obtain ⟨⟨n, hn⟩, -⟩ := h
  exact congrArg Spake2State.handshakeId hn

/-- A point tells who has sent it, and for which handshake. -/
theorem party_of_message (h : Party who hsId st) (h' : Party who' hsId' st')
    (he : st'.message = st.message) : who' = who ∧ st' = st := by
  have hid := h.hsId_eq
  have hid' := h'.hsId_eq
  obtain ⟨⟨n, hn⟩, -⟩ := h
  obtain ⟨⟨n', hn'⟩, -⟩ := h'
  have heq : (start st'.role st'.code hsId' (.name (Name.mk who' n'))).message =
      (start st.role st.code hsId (.name (Name.mk who n))).message := by rw [← hn', ← hn, he]
  simp only [start, Lib.Term.tag.injEq, Lib.Term.pair.injEq, Lib.Term.name.injEq,
    Lib.Term.const.injEq, Const.id.injEq, Const.role.injEq, true_and] at heq
  obtain ⟨hname, hcode, hhs, hrole⟩ := heq
  refine ⟨congrArg Name.who hname, ?_⟩
  cases st
  cases st'
  simp_all

/-- Who has computed the same `Ke` is the same session, or the one at the other end. -/
theorem mates_of_ke (h : Outcome who hsId st res) (h' : Outcome who' hsId' st' res')
    (he : res'.ke = res.ke) : hsId' = hsId ∧ ((who' = who ∧ st' = st) ∨ Mates st res st' res') := by
  obtain ⟨hparty, p, hfin⟩ := h
  obtain ⟨hparty', p', hfin'⟩ := h'
  obtain ⟨-, -, hke⟩ := finish_spec hfin
  obtain ⟨-, -, hke'⟩ := finish_spec hfin'
  rw [hke, hke'] at he
  have hids : st'.handshakeId = st.handshakeId → hsId' = hsId := fun hid =>
    hparty'.hsId_eq.symm.trans (hid.trans hparty.hsId_eq)
  cases hrole : st.role <;> cases hrole' : st'.role <;>
    simp only [hrole, hrole', keOf, Lib.Term.kdf.injEq, Lib.Term.pair.injEq, Lib.Term.const.injEq,
      Const.id.injEq, true_and] at he
  case A.A => exact ⟨hids he.2.1, .inl (party_of_message hparty hparty' he.2.2.1)⟩
  case B.B => exact ⟨hids he.2.1, .inl (party_of_message hparty hparty' he.2.2.2)⟩
  -- the peer's point is the one the other session has sent
  case A.B =>
    obtain ⟨hcode, hid, rfl, rfl⟩ := he
    exact ⟨hids hid, .inr ⟨by simp [hrole, hrole', PakeRole.other], hcode, hid, hfin, hfin'⟩⟩
  case B.A =>
    obtain ⟨hcode, hid, rfl, rfl⟩ := he
    exact ⟨hids hid, .inr ⟨by simp [hrole, hrole', PakeRole.other], hcode, hid, hfin, hfin'⟩⟩

/-! ## What the relay can bring -/

theorem confirmed_mono (h : tabs.step t (i, a) = some t') (c : Const) (d : Data) :
    t.vouch c d → t'.vouch c d := by
  cases c with
  | confirm role =>
    rintro ⟨j, sock, hsId, st, res, hout, hc, hm⟩
    exact ⟨j, sock, hsId, st, res, hout, hc, outbox_mono h j hm⟩
  | _ => exact id

theorem credible_mono (h : tabs.step t (i, a) = some t') {d : Data} (hd : t.Credible d) :
    t'.Credible d :=
  ⟨safe_mono h hd.1, fun k m he => (hd.2 k m he).mono (confirmed_mono h)⟩

theorem derives_mono (h : tabs.step t (i, a) = some t') {d : Data} (hd : t.Derives d) :
    t'.Derives d :=
  Lib.Term.Derives.mono (Set.union_subset_union_left _ (sent_mono h)) hd

theorem credible_channel (t : Tabs) : Channel t.Credible where
  shape k m h hk := (safe_channel t).shape k m h.1 hk
  tag _ _ := ⟨trivial, nofun⟩
  pake c d h := ⟨(safe_channel t).pake c d h.1, nofun⟩

/-- A confirmation is vouched for by the frame that carries it. -/
theorem vouched_of_sent (h : Upright t) (hd : d ∈ t.sent) : t.Vouched d := by
  obtain ⟨i, m, hm, hdm⟩ := hd
  obtain ⟨hform, hout⟩ := (h.kept i).outbox m hm
  have hattest := (h.attested i).outbox m hm
  rw [h.who i] at hattest
  have henc (k x : Data) (he : d = .enc k x) : t.Vouched d := by
    obtain hin | ⟨k', x', rfl, hk, -⟩ := hout d hdm
    · exact hin.2 k x he
    · exact .inl hk
  obtain ⟨sock, m⟩ := m
  cases m with
  | pake hsId d' =>
    obtain rfl := List.mem_singleton.mp hdm
    obtain ⟨x, rfl⟩ | ⟨st, res, houtcome, rfl⟩ := hattest
    · exact ⟨trivial, fun _ => trivial⟩
    · have hc := (finish_spec houtcome.2.choose_spec).1
      refine ⟨trivial, ?_⟩
      show t.Vouched res.confirm
      rw [hc]
      exact fun _ => ⟨i, sock, hsId, st, res, houtcome, hc, hm⟩
  | fileStart transfer kid d' =>
    obtain ⟨⟨k, rfl⟩, k', f, -, rfl⟩ := hform
    obtain rfl | hdm := List.mem_cons.mp hdm
    · exact fun _ => trivial
    · obtain rfl := List.mem_singleton.mp hdm
      exact henc _ _ rfl
  | memberKey hsId d' =>
    obtain rfl := List.mem_singleton.mp hdm
    obtain ⟨ke, v, -, rfl⟩ := hform
    exact henc _ _ rfl
  | msg d' | fileChunk transfer index d' =>
    obtain rfl := List.mem_singleton.mp hdm
    obtain ⟨k, x, -, rfl⟩ := hform
    exact henc _ _ rfl
  | roster d' =>
    obtain rfl := List.mem_singleton.mp hdm
    obtain ⟨k, s, -, rfl⟩ := hform
    exact henc _ _ rfl
  | keyDeliver hsId d' | rekey target d' =>
    obtain rfl := List.mem_singleton.mp hdm
    obtain ⟨x, y, rfl⟩ := hform
    exact henc _ _ rfl
  | _ => cases hdm

theorem Upright.safe (h : Upright t) (hd : t.Derives d) : t.Safe d :=
  safe_of_built (fun i => (h.kept i).mono fun _ hd => hd.1) hd

theorem vouched_of_built (h : Upright t) (hd : t.Derives d) : t.Vouched d := by
  have hsafe : ∀ x ∈ t.sent ∪ {d | ∃ n : Name, n.who = 0 ∧ d = .name n}, t.Safe x :=
    fun x hx => h.safe (.known hx)
  refine Lib.Term.vouched_of_derives hsafe (fun x hx => ?_) hd
  obtain hx | ⟨n, hn, rfl⟩ := hx
  · exact vouched_of_sent h hx
  · trivial

theorem credible_of_built (h : Upright t) (hd : t.Derives d) : t.Credible d :=
  ⟨h.safe hd, fun _ _ _ => vouched_of_built h hd⟩

theorem upright_of_reach (h : tabs.Reach (fun t l => Feasible t l ∧ Discreet t l) t) :
    Upright t := by
  refine h.invariant (I := Upright) ⟨fun _ => rfl, fun i => kept_init i, fun i => .init i⟩ ?_
  rintro t ⟨j, a⟩ t' hr hup ⟨hfeas, hdisc⟩ hstep
  have hin : ∀ d, a.payload = some d → t.Derives d := by
    intro d hd
    cases a <;> simp only [Web.Act.payload, reduceCtorEq] at hd
    exact hfeas d (by simp [payloads, hd])
  have hcode : ∀ token code nick session, a = .join token code nick session → Secret code := by
    rintro token code nick session rfl
    exact hfeas
  suffices hall : ∀ i, Kept t.Credible (t' i) ∧ Attested t.Derives (t' i) from
    ⟨who_tab (hr.step ⟨hfeas, hdisc⟩ hstep), fun i => (hall i).1.mono fun _ => credible_mono hstep,
      fun i => (hall i).2.mono fun _ => derives_mono hstep⟩
  intro i
  obtain ⟨c', hc', rfl⟩ := step_tabs hstep
  by_cases hi : i = j
  · subst hi
    rw [Function.update_self]
    constructor
    · refine (hup.kept i).step (credible_channel t) (keysOk_tab hr i) hc'
        (fun d hd => credible_of_built hup (hin d hd)) hcode ?_
      rintro u up rfl hu hseals hwiped d hd
      have hbuilt := hdisc up hu hseals hwiped d hd
      exact ⟨Lib.Term.Safe.under trivial (hup.safe hbuilt),
        fun k m _ => .inr (vouched_of_built hup hbuilt)⟩
    · exact (hup.attested i).step (hup.kept i) (credible_channel t) (keysOk_tab hr i)
        (hellos_tab hr i) hc' (fun d hd => ⟨credible_of_built hup (hin d hd), hin d hd⟩) hcode
        fun _ hd => hd.snd
  · rw [Function.update_of_ne hi]
    exact ⟨hup.kept i, hup.attested i⟩

/-! ## The other end -/

/-- Only the tab at the other end can confirm. -/
theorem peer_of_confirm (h : Upright t) (hout : Outcome who hsId st res)
    (hd : t.Derives res.peerConfirm) : ∃ j, MatedWith (j + 1) hsId st res ∧
      ∃ sock, (sock, .pake hsId (pakeFrame .pakeC res.peerConfirm)) ∈ (t j).outbox := by
  obtain ⟨-, hpeer, hke⟩ := finish_spec hout.2.choose_spec
  have hsecret : Secret res.ke := by
    rw [hke]
    cases st.role <;> exact (keOf_material hout.1.code _ _ _).secret
  have hvouched := vouched_of_built h hd
  rw [hpeer] at hvouched
  obtain ⟨j, sock, hsId', st', res', hout', hconfirm, hm⟩ := hvouched hsecret
  obtain ⟨hown, -, -⟩ := finish_spec hout'.2.choose_spec
  rw [hown] at hconfirm
  simp only [Lib.Term.tag.injEq, Const.confirm.injEq] at hconfirm
  obtain ⟨hrole, he⟩ := hconfirm
  obtain ⟨rfl, ⟨-, rfl⟩ | hmates⟩ := mates_of_ke hout hout' he
  · cases hst : st'.role <;> simp [hst, PakeRole.other] at hrole
  · refine ⟨j, ⟨st', res', hout', hmates⟩, sock, ?_⟩
    rwa [hpeer, ← hrole, ← he, ← hown]

/-- A public key under `Ke` is that of the tab at the other end, or one's own. -/
theorem peer_of_memberKey (h : Upright t) (hout : Outcome (i + 1) hsId st res)
    (hd : t.Derives (sealUnderKe res.ke pub)) : ∃ j n, pub = .pub (Name.mk (j + 1) n) ∧
      (∃ sock, (sock, .memberKey hsId (sealUnderKe res.ke pub)) ∈ (t j).outbox) ∧
      (j = i ∨ MatedWith (j + 1) hsId st res) := by
  obtain ⟨-, -, hke⟩ := finish_spec hout.2.choose_spec
  have hmat : Material res.ke := by
    rw [hke]
    cases st.role <;> exact keOf_material hout.1.code _ _ _
  have hlock : Secret (.kdf .keyx res.ke) := hmat.secret
  obtain ⟨-, j, ⟨sock, m⟩, hm, hdm⟩ := Lib.Term.Safe.authentic (h.safe hd) hlock id
  obtain ⟨hsId', rfl⟩ := memberKey_of_formed ((h.kept j).outbox _ hm).1 hdm
  obtain ⟨st', res', n, hout', he⟩ := (h.attested j).outbox _ hm
  rw [h.who j] at hout' he
  simp only [sealUnderKe, encryptMessage, sealBytes, bytesToB64url, Lib.Term.enc.injEq,
    Lib.Term.kdf.injEq, Lib.Term.pair.injEq, true_and] at he
  obtain ⟨hke', hpub⟩ := he
  obtain ⟨rfl, ⟨hji, -⟩ | hmates⟩ := mates_of_ke hout hout' hke'.symm
  · exact ⟨j, n, hpub, ⟨sock, hm⟩, .inl (Nat.succ_injective hji)⟩
  · exact ⟨j, n, hpub, ⟨sock, hm⟩, .inr ⟨st', res', hout', hmates⟩⟩

/-- Under a pair key there are only room keys that a tab gives away. -/
theorem key_of_formed {m : ClientMsg Data} (hm : Formed m) {x y : Data}
    (hd : .enc (.kdf .rekey x) y ∈ clientPayloads m) :
    ∃ id, m = .rekey id (.enc (.kdf .rekey x) y) ∨ m = .keyDeliver id (.enc (.kdf .rekey x) y) := by
  have hno : ¬ Content (.kdf .rekey x) := fun h => h.elim nofun fun h => h.rekey x rfl
  cases m with
  | rekey target d =>
    obtain rfl := List.mem_singleton.mp hd
    exact ⟨target, .inl rfl⟩
  | keyDeliver hsId d =>
    obtain rfl := List.mem_singleton.mp hd
    exact ⟨hsId, .inr rfl⟩
  | msg d | fileChunk transfer index d =>
    obtain ⟨k, m, hk, rfl⟩ := hm
    cases List.mem_singleton.mp hd
    exact absurd hk hno
  | roster d =>
    obtain ⟨k, s, hk, rfl⟩ := hm
    cases List.mem_singleton.mp hd
    exact absurd hk hno
  | fileStart transfer kid d =>
    obtain ⟨⟨k, rfl⟩, k', f, hk, rfl⟩ := hm
    obtain he | hd := List.mem_cons.mp hd
    · cases he
    · cases List.mem_singleton.mp hd
      exact absurd hk hno
  | pake hsId d =>
    obtain ⟨t, x, rfl⟩ := hm
    cases List.mem_singleton.mp hd
  | memberKey hsId d =>
    obtain ⟨ke, v, -, rfl⟩ := hm
    cases List.mem_singleton.mp hd
  | _ => cases hd

theorem shared_of_name {m : Name} {x : Data} (h : getSharedSecret (.name m) pub = some x) :
    ∃ n, x = .agree m n := by
  cases pub <;> simp only [getSharedSecret, reduceCtorEq, Option.some.injEq] at h
  exact ⟨_, h.symm⟩

/-- A room key that is opened under the pair key of two tabs has been sealed by one of them. -/
theorem sealer_of_key (h : Upright t) (hd : t.Safe d) {i j n n' : Nat} (hopen : openRoomKey
    (.name (Name.mk (i + 1) n)) (.pub (Name.mk (j + 1) n')) d = some key) :
    ∃ k, (k = i ∨ k = j) ∧ t.GivesAway k d := by
  obtain ⟨-, k, hk, rfl⟩ := openRoomKey_eq_some.mp hopen
  have hpriv : Secret (.name (Name.mk (i + 1) n)) := Nat.succ_ne_zero i
  obtain ⟨hlock, -⟩ := pairKey_locked hpriv hk
  obtain ⟨-, k', ⟨sock, m⟩, hm, hdm⟩ := Lib.Term.Safe.authentic hd hlock id
  cases hk
  obtain ⟨id, hform⟩ := key_of_formed ((h.kept k').outbox _ hm).1 hdm
  have hattest : Attests (k' + 1) m := h.who k' ▸ (h.attested k').outbox _ hm
  have hsealed : ∃ n₀ pub key₀, sealRoomKey (.name (Name.mk (k' + 1) n₀)) pub key₀ = some
      (.enc (.kdf .rekey (.agree (Name.mk (i + 1) n) (Name.mk (j + 1) n'))) (keyToString key)) := by
    obtain rfl | rfl := hform
    all_goals exact hattest
  obtain ⟨n₀, pub, key₀, hsealed⟩ := hsealed
  obtain ⟨p, hp, he⟩ := Option.map_eq_some_iff.mp hsealed
  obtain ⟨x, hx, rfl⟩ := Option.map_eq_some_iff.mp hp
  simp only [encryptMessage, sealBytes, Lib.Term.enc.injEq, Lib.Term.kdf.injEq, true_and] at he
  obtain ⟨rfl, -⟩ := he
  obtain ⟨n₁, hagree⟩ := shared_of_name hx
  refine ⟨k', ?_, sock, id, ?_⟩
  · obtain he | he := Lib.Term.eq_or_eq_of_agree hagree.symm
    · exact .inl (Nat.succ_injective (congrArg Name.who he))
    · exact .inr (Nat.succ_injective (congrArg Name.who he))
  · obtain rfl | rfl := hform
    · exact .inl hm
    · exact .inr hm

/-! ## The relay in the middle -/

/-- **A join is authenticated** as long as no upload seals news under a wiped key. When a frame makes a
tab confirm, the other end has confirmed; and the public key it then opens is that of the other end,
or its own. -/
theorem join_authenticated (h : tabs.Reach (fun t l => Feasible t l ∧ Discreet t l) t) {sock : Nat}
    {msg : ServerMsg Data} (hm : Feasible t (i, .message sock msg)) :
    (∀ hsId r d ke, (t i).record hsId = some r → msg.data = some d →
      (r.hs.onData d).2.2 = .confirmed ke →
        ∃ res, (r.hs.onData d).1.result = some res ∧ res.ke = ke ∧
          ∃ j, MatedWith (j + 1) hsId r.hs.state res ∧
            ∃ sock, (sock, .pake hsId (pakeFrame .pakeC res.peerConfirm)) ∈ (t j).outbox) ∧
      ∀ r pub, (t i).memberKeyOf msg = some (r, pub) →
        ∃ hsId res j n, (t i).record hsId = some r ∧ r.hs.result = some res ∧
          pub = .pub (Name.mk (j + 1) n) ∧
          (∃ sock, (sock, .memberKey hsId (sealUnderKe res.ke pub)) ∈ (t j).outbox) ∧
          (j = i ∨ MatedWith (j + 1) hsId r.hs.state res) := by
  have hup := upright_of_reach h
  have hin : ∀ d, msg.data = some d → t.Derives d := fun d hd => hm d (by simp [payloads, hd])
  constructor
  · intro hsId r d ke hr hd hv
    obtain ⟨s, hs, hrec⟩ := Option.bind_eq_some_iff.mp hr
    have hgen := (hup.attested i).record s hsId r hs hrec
    obtain ⟨res, hres, hke, hconfirm⟩ := onData_confirms hv
    have hbuilt : t.Derives res.peerConfirm := by
      obtain rfl | hpend := hconfirm
      · exact (hin _ hd).snd
      · exact hgen.pending _ hpend
    have hnew := hgen.onData fun pc he => (he ▸ hin d hd : t.Derives (pakeFrame .pakeC pc)).snd
    have hout : Outcome (t i).who hsId r.hs.state res := by
      rw [← (onData_new r.hs d).1]
      exact hnew.outcome hres
    exact ⟨res, hres, hke, peer_of_confirm hup hout hbuilt⟩
  · intro r pub hopen
    simp only [Client.memberKeyOf, Option.bind_eq_bind, Option.bind_eq_some_iff, Option.some.injEq,
      Prod.mk.injEq] at hopen
    obtain ⟨s, hs, hsId, -, r', hrec, ke, hke, d, hd, pub', hpub, rfl, rfl⟩ := hopen
    obtain ⟨res, hres, hout, he⟩ := ((hup.attested i).record s hsId r' hs hrec).opened hke hpub
    rw [hup.who i] at hout
    obtain ⟨j, n, hpub', hframe, hpeer⟩ := peer_of_memberKey hup hout (he ▸ hin d hd)
    exact ⟨hsId, res, j, n, by simp [Client.record, hs, hrec], hres, hpub', hframe, hpeer⟩

/-- The first `n` events of `sampleJoin`. -/
def sampleUpTo (n : Nat) : Option Tabs :=
  tabs.runFrom (fun t l => Forwards t l ∧ Sheltered (t l.1) l.2) tabs.init (sampleJoin.take n)

theorem sampleUpTo_reach {n : Nat} (h : (sampleUpTo n).isSome = true) :
    tabs.Reach (fun t l => Feasible t l ∧ Discreet t l) ((sampleUpTo n).get h) :=
  (Lib.Machine.reach_get h).mono fun _ _ hok =>
    ⟨feasible_of_forwards hok.1, discreet_of_sheltered hok.2⟩

/-- The `Ke` of `sampleJoin`. -/
def sampleKe : Data :=
  keOf (.name (Name.mk 1 2)) 300 (Web.start .A (.name (Name.mk 1 2)) 300 (.name (Name.mk 1 3))).message
    (Web.start .B (.name (Name.mk 1 2)) 300 (.name (Name.mk 2 1))).message

theorem join_authenticated_sample :
    let t := (sampleUpTo 13).get (by decide +kernel)
    ∃ r res j, (t 0).record 300 = some r ∧ res.ke = sampleKe ∧ MatedWith (j + 1) 300 r.hs.state res := by
  intro t
  let msg : ServerMsg Data := { type := .pake, handshake := some 300
                                data := some (pakeFrame .pakeC (.tag (.confirm .B) sampleKe)) }
  have hfeas : Feasible t (0, .message 0 msg) := feasible_of_forwards (by decide +kernel)
  have hv : ((t 0).record 300).map (fun r => (r.hs.onData
      (pakeFrame .pakeC (.tag (.confirm .B) sampleKe))).2.2) = some (.confirmed sampleKe) := by
    decide +kernel
  obtain ⟨r, hr, hv⟩ := Option.map_eq_some_iff.mp hv
  obtain ⟨res, -, hke, j, hmated, -⟩ :=
    (join_authenticated (sampleUpTo_reach _) hfeas).1 300 r _ sampleKe hr rfl hv
  exact ⟨r, res, j, hr, hke, hmated⟩

end E2EAnon.Net
