import E2EAnon.Web.Effect

/-!
# The frames a tab sends

`Effect.posted`: an effect sends one of a few kinds of frames, each made from what the tab holds just
then. `Hellos`: the first frame of a connection carries no payload.
-/

namespace E2EAnon.Web

/-- A frame an effect may send from `c`. -/
inductive Posted (a : Act) (c₀ c : Client) : ClientMsg Data → Prop
  | plain {m : ClientMsg Data} (h : plain m) : Posted a c₀ c m
  | hello (sock : Nat) : Posted a c₀ c (c.socket sock).hello
  | pake (hsId : Handle) (d : Data) : Posted a c₀ c (.pake hsId d)
  | memberKey (hsId : Handle) (d : Data) : Posted a c₀ c (.memberKey hsId d)
  | key {s : Session} {m : ClientMsg Data} (k : Addr) (pub d : Data) (hs : c.session = some s)
      (hk : s.keys.head? = some k)
      (hnew : ∃ i, (c₀.draws ≤ i ∧ i < c.draws) ∧
        (c.read k = .name (Name.mk c.who i) ∨ (c.heap k).wiped = true))
      (hd : sealRoomKey (c.read s.kp.priv) pub (c.read k) = some d)
      (hm : ∃ id, m = .rekey id d ∨ m = .keyDeliver id d) : Posted a c₀ c m
  | roster (d : Data) : Posted a c₀ c (.roster d)
  | msg (d : Data) : Posted a c₀ c (.msg d)
  | fileStart (u : Nat) (up : Upload) (hu : Lib.JsMap.get u c.uploads = some up) :
      Posted a c₀ c (.fileStart up.transfer up.kid (encryptMessage (c.read up.key) up.file.meta))
  | fileChunk (u : Nat) (up : Upload) (i : Nat) (hu : Lib.JsMap.get u c.uploads = some up) :
      Posted a c₀ c (.fileChunk up.transfer i (sealBytes (c.read up.key) (up.file.slice i)))

variable {a : Act} {c₀ c c' : Client} {m : Nat × ClientMsg Data}

theorem Client.mem_send {m' : ClientMsg Data} (h : m ∈ (c.send m').outbox) :
    m ∈ c.outbox ∨ m.2 = m' := by
  unfold Client.send at h
  split at h
  · split at h
    · obtain h | h := List.mem_append.mp h
      · exact .inl h
      · exact .inr (congrArg Prod.snd (List.mem_singleton.mp h))
    · exact .inl h
  · exact .inl h

theorem Effect.posted (he : Effect a c₀ c c') (hm : m ∈ c'.outbox) :
    m ∈ c.outbox ∨ Posted a c₀ c m.2 := by
  have hsend {x : Client} {m' : ClientMsg Data} (hx : x.outbox = c.outbox) (h : m ∈ (x.send m').outbox)
      (hp : Posted a c₀ c m') : m ∈ c.outbox ∨ Posted a c₀ c m.2 := by
    obtain hold | he := Client.mem_send h
    · exact .inl (hx ▸ hold)
    · exact .inr (he ▸ hp)
  cases he with
  | idle h =>
    have hout : c'.core.outbox = c.core.outbox := congrArg Client.outbox h
    have hmem : m ∈ c'.core.outbox := hm
    rw [hout] at hmem
    exact .inl hmem
  | sendPlain m' hp => exact hsend rfl hm (.plain hp)
  | opened sock =>
    obtain hm | hm := List.mem_append.mp hm
    · exact .inl hm
    · obtain rfl := List.mem_singleton.mp hm
      exact .inr (.hello sock)
  | firstKey hs hk =>
    simp [Client.firstKey_eq hs hk, Client.generateRoomKey, Client.draw, Client.alloc] at hm
    exact .inl hm
  | teardown =>
    rw [Client.teardown_outbox] at hm
    exact .inl hm
  | offer token hsId memberId code hs hc =>
    exact hsend (x := (c.modify fun s => { s with
      pendingInvites := Lib.JsMap.delete token s.pendingInvites }).draw.1) rfl hm (.pake _ _)
  | accept token hsId code hs hc =>
    exact hsend (x := (Client.draw { c with pendingJoin := none }).1) rfl hm (.pake _ _)
  | sendConfirm => exact hsend rfl hm (.pake _ _)
  | sendMemberKey => exact hsend rfl hm (.memberKey _ _)
  | rotate hs =>
    rw [Client.pushKey_outbox] at hm
    exact .inl hm
  | takeKey pub d key =>
    rw [Client.pushKey_outbox] at hm
    exact .inl hm
  | sendKey k pub d m' hs hk hpub hnew hd hm' => exact hsend rfl hm (.key k pub d hs hk hnew hd hm')
  | sendRoster k hs hk => exact hsend (x := c.noteSeal k none) rfl hm (.roster _)
  | chat k => exact hsend (x := c.noteSeal k none) rfl hm (.msg _)
  | sendFileStart u up h hu =>
    exact hsend (x := c.noteSeal up.key (some up.captured)) rfl hm (.fileStart u up hu)
  | sendChunk u up i h hu =>
    exact hsend (x := c.noteSeal up.key (some up.captured)) rfl hm (.fileChunk u up i hu)
  | _ => exact .inl hm

/-! ## Hellos -/

/-- The first frame on a socket: none yet, or one without a payload. -/
structure Hellos (c : Client) : Prop where
  hello    : ∀ sock, (c.socket sock).hello = .unknown ∨ plain (c.socket sock).hello
  connects : ∀ h ∈ c.connects, plain h

theorem Hellos.of_eq (h : Hellos c) (hsock : ∀ sock, (c'.socket sock).hello = (c.socket sock).hello)
    (hcon : c'.connects = c.connects) : Hellos c' :=
  ⟨fun sock => hsock sock ▸ h.hello sock, hcon ▸ h.connects⟩

theorem Hellos.core (h : Hellos c) (he : c'.core = c.core) : Hellos c' := by
  simp only [Client.core, Client.mk.injEq] at he
  obtain ⟨-, -, -, -, -, -, -, hcon, hsock, -⟩ := he
  exact h.of_eq (fun sock => (Socket.mk.inj (congrFun hsock sock)).1) hcon

theorem Hellos.send (h : Hellos c) (m : ClientMsg Data) : Hellos (c.send m) := by
  unfold Client.send
  split
  · split <;> exact h.of_eq (fun _ => rfl) rfl
  · exact h

theorem Hellos.pushKey (h : Hellos c) (k : Addr) : Hellos (c.pushKey k) := by
  unfold Client.pushKey
  split <;> exact h.of_eq (fun _ => rfl) rfl

theorem Hellos.teardown (h : Hellos c) : Hellos c.teardown := by
  unfold Client.teardown
  split
  · exact h.of_eq (fun _ => rfl) rfl
  · rename_i s hs
    have h1 : Hellos ((c.wipe s.buffers).closeSocket s.sock) := by
      unfold Client.closeSocket
      split
      · exact h.of_eq (fun _ => rfl) rfl
      · exact (h.of_eq (fun _ => rfl) rfl : Hellos (c.wipe s.buffers)).core
          (Client.core_setReady s.sock .closing)
    exact h1.of_eq (fun _ => rfl) rfl

theorem Hellos.effect (h : Hellos c) (he : Effect a c₀ c c') : Hellos c' := by
  cases he with
  | idle he => exact h.core he
  | beginConnect hello hp =>
    refine ⟨h.hello, fun m hm => ?_⟩
    obtain hm | hm := List.mem_append.mp hm
    · exact h.connects m hm
    · obtain rfl := List.mem_singleton.mp hm
      exact hp
  | openSession i hello hi =>
    refine ⟨fun sock => ?_, fun m hm => h.connects m (List.mem_of_mem_eraseIdx hm)⟩
    simp only [Client.openSession, Function.update_apply]
    split
    · exact .inr (h.connects hello (List.mem_of_getElem? hi))
    · exact h.hello sock
  | firstKey hs hk =>
    rw [Client.firstKey_eq hs hk]
    exact Hellos.pushKey (c := c.generateRoomKey.1) (h.of_eq (fun _ => rfl) rfl) _
  | teardown => exact h.teardown
  | rotate hs => exact Hellos.pushKey (c := c.generateRoomKey.1) (h.of_eq (fun _ => rfl) rfl) _
  | takeKey pub d key =>
    exact Hellos.pushKey (c := (c.alloc key).1) (h.of_eq (fun _ => rfl) rfl) _
  | offer token hsId memberId code hs hc =>
    have h1 : Hellos (c.modify fun s => { s with
        pendingInvites := Lib.JsMap.delete token s.pendingInvites }).draw.1 :=
      h.of_eq (fun _ => rfl) rfl
    exact (h1.send _).of_eq (fun _ => rfl) rfl
  | accept token hsId code hs hc =>
    have h1 : Hellos (Client.draw { c with pendingJoin := none }).1 := h.of_eq (fun _ => rfl) rfl
    exact (h1.send _).of_eq (fun _ => rfl) rfl
  | sendPlain | sendConfirm | sendMemberKey | sendKey => exact h.send _
  | sendRoster k | chat k =>
    exact (h.of_eq (fun _ => rfl) rfl : Hellos (c.noteSeal k none)).send _
  | sendFileStart u up =>
    exact (h.of_eq (fun _ => rfl) rfl : Hellos (c.noteSeal up.key (some up.captured))).send _
  | sendChunk u up =>
    have h1 : Hellos (c.noteSeal up.key (some up.captured)) := h.of_eq (fun _ => rfl) rfl
    exact (h1.send _).of_eq (fun _ => rfl) rfl
  | _ => exact h.of_eq (fun _ => rfl) rfl

theorem Hellos.init (who : Nat) : Hellos { who } := ⟨fun _ => .inl rfl, fun _ hm => by cases hm⟩

theorem Hellos.step (h : Hellos c) (hstep : c.step a = some c') : Hellos c' :=
  (step_effects hstep).invariant (fun _ _ hc he => hc.effect he) h

/-- What a predicate of frames says of the plain ones it says of hellos. -/
theorem Hellos.all {P : ClientMsg Data → Prop} (h : Hellos c) (h0 : P .unknown)
    (hplain : ∀ m, plain m → P m) (sock : Nat) : P (c.socket sock).hello := by
  obtain he | hp := h.hello sock
  · exact he ▸ h0
  · exact hplain _ hp

/-! ## Uploads -/

/-- An upload goes on, or the event begins it. -/
theorem Effect.upload {u : Nat} {up : Upload} (he : Effect a c₀ c c')
    (hu : Lib.JsMap.get u c'.uploads = some up) :
    (∃ up₀, Lib.JsMap.get u c.uploads = some up₀ ∧ up.transfer = up₀.transfer ∧ up.file = up₀.file) ∨
      ∃ body, a = .submit body (some (up.transfer, up.file)) := by
  have hsame (h : c'.uploads = c.uploads) : (∃ up₀, Lib.JsMap.get u c.uploads = some up₀ ∧
      up.transfer = up₀.transfer ∧ up.file = up₀.file) := ⟨up, h ▸ hu, rfl, rfl⟩
  have hpush (x : Client) (k : Addr) : (x.pushKey k).uploads = x.uploads := by
    unfold Client.pushKey
    split <;> rfl
  cases he with
  | idle h =>
    have hup : c'.core.uploads = c.core.uploads := congrArg Client.uploads h
    exact .inl (hsame hup)
  | beginUpload k transfer body file hs hk h =>
    simp only [Client.beginUpload, Lib.JsMap.get_set] at hu
    split at hu
    · cases hu
      exact .inr ⟨body, h⟩
    · exact .inl ⟨up, hu, rfl, rfl⟩
  | sendChunk u' up' i h hu' =>
    simp only [Client.sendChunk, Lib.JsMap.get_set] at hu
    split at hu
    · rename_i he
      subst he
      cases hu
      exact .inl ⟨up', hu', rfl, rfl⟩
    · exact .inl ⟨up, by simpa using hu, rfl, rfl⟩
  | endUpload u' =>
    simp only [Client.dropUpload, Lib.JsMap.get_delete] at hu
    split at hu
    · cases hu
    · exact .inl ⟨up, hu, rfl, rfl⟩
  | sendPlain | sendConfirm | sendMemberKey | sendKey => exact .inl (hsame (by simp))
  | sendRoster | chat | sendFileStart => exact .inl (hsame (by simp))
  | firstKey hs hk =>
    refine .inl (hsame ?_)
    rw [Client.firstKey_eq hs hk]
    exact hpush _ _
  | teardown =>
    refine .inl (hsame ?_)
    unfold Client.teardown Client.closeSocket
    split
    · rfl
    · split <;> rfl
  | offer | accept => exact .inl (hsame (by simp [Client.beginHandshake, Client.modify, Client.draw]))
  | rotate | takeKey => exact .inl (hsame (hpush _ _))
  | _ => exact .inl (hsame rfl)

end E2EAnon.Web
