import Mathlib.Data.Finset.Card
import E2EAnon.Lib.Hom
import E2EAnon.Http.ClientIP
import E2EAnon.Relay.Isolation
import E2EAnon.Relay.Shutdown

/-!
# The server (`server.go`): sockets, limiters and relay together

| here | there |
| --- | --- |
| `Server`         | `Server` (`server.go:41`) with its `Hub` and the sockets `handleWS` serves |
| `accept`, `hello`, `noHello`, `returns` | `handleWS` (`server.go:86`) and `session` (`server.go:114`) up to the hello, and their return |
| `run`            | an operation of a session; at `Allow` (`server.go:154`, `:194`) the limiter answers |
| `handleStats`    | `handleStats` (`server.go:69`) |

`Relay.step` lets the environment answer for the limiters; here they answer for themselves, to the
source `clientIP` gives the connection, by a clock that never goes back. What is proved of the relay
holds inside (`hub_reach`). `admissions_limited` counts what a source gets in, `stats_exact` what
the lobby is shown.
-/

namespace E2EAnon.Http

open Lib Relay

variable {D : Type}

abbrev SocketId := Nat

inductive Socket
  | absent
  /-- `session` waits for the hello. -/
  | waiting (ip : String)
  | session (c : ClientId)
  /-- `handleWS` has returned. -/
  | returned
deriving DecidableEq

/-- `handleWS` runs. -/
def Socket.live : Socket → Bool
  | .waiting _ | .session _ => true
  | .absent | .returned => false

structure ServerConfig where
  relay      : Relay.Config
  trustProxy : Bool
  /-- `RateLimitCreatePerMin`, `RateLimitRedeemPerMin`. -/
  perMin     : Hello → Int

/-- A call of `Allow`. -/
structure Asked where
  conn    : ClientId
  hello   : Hello
  source  : String
  now     : Int
  allowed : Bool
deriving DecidableEq

def Asked.answer (g : Asked) : Answer String := { key := g.source, now := g.now, allowed := g.allowed }

structure Server (D : Type) where
  hub      : State D := {}
  lims     : Limits String
  accepted : Finset SocketId := ∅
  socket   : SocketId → Socket := fun _ => .absent
  /-- `ip` of a session. -/
  source   : ClientId → String := fun _ => ""
  online   : Int64 := 0
  now      : Int := 0
  /-- History: the calls of `Allow`, the first one first. -/
  asked    : List Asked := []

inductive ServerAct (D : Type)
  | accept (k : SocketId) (r : Request)
  /-- The read of the hello fails or times out. -/
  | noHello (k : SocketId)
  | hello (k : SocketId) (c : ClientId) (m : ClientMsg D)
  /-- The next operation of `c`'s session. -/
  | run (c : ClientId) (draw : Handle)
  | returns (k : SocketId)
  | tick (d : Nat)
  /-- Anything else that happens in the relay. -/
  | other (a : Act D)

/-- The labels of the relay that `ServerAct` has no other name for. -/
def passes : Act D → Bool
  | .connect _ _ | .run _ _ _ | .clock _ => false
  | _ => true

/-- A session about to call `Allow`. -/
def asks : Pc D → Option Hello
  | .allowCreate => some .create
  | .allowRedeem _ => some .redeem
  | _ => none

def setSocket (s : Server D) (k : SocketId) (v : Socket) : Server D :=
  { s with socket := Function.update s.socket k v }

/-- `c`'s session calls `Allow`. -/
def ask (s : Server D) (c : ClientId) (h : Hello) : Asked :=
  let allowed := ((s.lims h).allow s.now (s.source c)).2
  { conn := c, hello := h, source := s.source c, now := s.now, allowed }

variable [Payload D]

def serverStep (cfg : ServerConfig) (s : Server D) : ServerAct D → Option (Server D)
  | .accept k r =>
    if k ∈ s.accepted then none
    else some { setSocket s k (.waiting (clientIP r cfg.trustProxy)) with
      accepted := insert k s.accepted, online := s.online + 1 }
  | .noHello k =>
    match s.socket k with
    | .waiting _ => some { setSocket s k .returned with online := s.online - 1 }
    | _ => none
  | .hello k c m =>
    match s.socket k with
    | .waiting ip => (step cfg.relay s.hub (.connect c m)).map fun hub =>
      { setSocket s k (.session c) with hub, source := Function.update s.source c ip }
    | _ => none
  | .run c draw =>
    match asks (s.hub.conns c).pc with
    | some h => (step cfg.relay s.hub (.run c draw (ask s c h).allowed)).map fun hub => { s with
      hub, lims := Function.update s.lims h ((s.lims h).allow s.now (s.source c)).1
      asked := s.asked ++ [ask s c h] }
    | none => (step cfg.relay s.hub (.run c draw true)).map fun hub => { s with hub }
  | .returns k =>
    match s.socket k with
    | .session c =>
      match (s.hub.conns c).pc with
      | .exited => some { setSocket s k .returned with online := s.online - 1 }
      | _ => none
    | _ => none
  | .tick d =>
    (step cfg.relay s.hub (.clock (s.now + d))).map fun hub => { s with hub, now := s.now + d }
  | .other a =>
    if passes a then (step cfg.relay s.hub a).map fun hub => { s with hub } else none

/-- The server after `NewServer`. -/
def server (cfg : ServerConfig) : Machine (Server D) (ServerAct D) where
  init := { lims := .new cfg.perMin }
  step := serverStep cfg

/-- The live connections and the rooms. -/
def handleStats (s : Server D) : Int64 × Nat := (s.online, s.hub.rooms.length)

/-! ## What a step does -/

/-- A step is one of the sockets, one of the relay, or a call of `Allow` with the step that follows
its answer. -/
inductive Effect (cfg : ServerConfig) (s s' : Server D) : Prop
  | sockets (hub : s'.hub = s.hub) (lims : s'.lims = s.lims) (source : s'.source = s.source)
      (now : s'.now = s.now) (asked : s'.asked = s.asked)
  | relayed (a : Act D) (ha : ∀ c draw allow, a = .run c draw allow → asks (s.hub.conns c).pc = none)
      (hub : step cfg.relay s.hub a = some s'.hub) (lims : s'.lims = s.lims)
      (source : ∀ c ∈ s.hub.drawn, s'.source c = s.source c) (now : s.now ≤ s'.now)
      (asked : s'.asked = s.asked)
  | asked (c : ClientId) (draw : Handle) (h : Hello) (hpc : asks (s.hub.conns c).pc = some h)
      (hub : step cfg.relay s.hub (.run c draw (ask s c h).allowed) = some s'.hub)
      (lims : s'.lims = Function.update s.lims h ((s.lims h).allow s.now (s.source c)).1)
      (source : s'.source = s.source) (now : s'.now = s.now)
      (asked : s'.asked = s.asked ++ [ask s c h])

variable {cfg : ServerConfig} {s s' : Server D}

theorem serverStep_effect {a : ServerAct D} (h : serverStep cfg s a = some s') :
    Effect cfg s s' := by
  cases a with
  | accept k r =>
    simp only [serverStep] at h
    split at h
    · simp at h
    · cases h
      exact .sockets rfl rfl rfl rfl rfl
  | noHello k =>
    simp only [serverStep] at h
    split at h
    · cases h
      exact .sockets rfl rfl rfl rfl rfl
    · simp at h
  | hello k c m =>
    simp only [serverStep] at h
    split at h
    · obtain ⟨hub, hstep, rfl⟩ := Option.map_eq_some_iff.mp h
      refine .relayed _ (by simp) hstep rfl (fun d hd => ?_) le_rfl rfl
      have hfresh : d ≠ c := by
        rintro rfl
        simp [step, State.drawId, hd] at hstep
      exact Function.update_of_ne hfresh _ _
    · simp at h
  | run c draw =>
    simp only [serverStep] at h
    split at h
    · rename_i h' hpc
      obtain ⟨hub, hstep, rfl⟩ := Option.map_eq_some_iff.mp h
      exact .asked c draw h' hpc hstep rfl rfl rfl rfl
    · rename_i hpc
      obtain ⟨hub, hstep, rfl⟩ := Option.map_eq_some_iff.mp h
      refine .relayed _ ?_ hstep rfl (fun _ _ => rfl) le_rfl rfl
      rintro c' draw' allow' he
      cases he
      exact hpc
  | returns k =>
    simp only [serverStep] at h
    split at h
    · split at h
      · cases h
        exact .sockets rfl rfl rfl rfl rfl
      · simp at h
    · simp at h
  | tick d =>
    simp only [serverStep] at h
    obtain ⟨hub, hstep, rfl⟩ := Option.map_eq_some_iff.mp h
    exact .relayed _ (by simp) hstep rfl (fun _ _ => rfl) (by simp) rfl
  | other a =>
    simp only [serverStep] at h
    split at h
    · rename_i ha
      obtain ⟨hub, hstep, rfl⟩ := Option.map_eq_some_iff.mp h
      refine .relayed a ?_ hstep rfl (fun _ _ => rfl) le_rfl rfl
      rintro c draw allow rfl
      simp [passes] at ha
    · simp at h

theorem hub_embeds (cfg : ServerConfig) :
    (server (D := D) cfg).Embeds (relay cfg.relay) Server.hub where
  init := rfl
  step s a s' h := by
    cases serverStep_effect h with
    | sockets hub => exact .inl hub
    | relayed a _ hub => exact .inr ⟨a, hub⟩
    | asked c draw h _ hub => exact .inr ⟨.run c draw (ask s c h).allowed, hub⟩

/-- **The relay inside.** Every state of the server holds a state the relay can reach. -/
theorem hub_reach {ok : Server D → ServerAct D → Prop} (hr : (server cfg).Reach ok s) :
    (relay cfg.relay).Reach Machine.Any s.hub :=
  (hub_embeds cfg).reach hr

/-! ## Who gets in -/

/-- `c` has created a room or redeemed a token. -/
def enters (c : ClientId) : Event → Bool
  | .created d _ | .redeemed d _ _ _ => d = c
  | _ => false

/-- The request an event of `c`'s belongs to. -/
def request (c : ClientId) : Event → Option Hello
  | .created d _ => if d = c then some .create else none
  | .redeemed d _ _ _ => if d = c then some .redeem else none
  | _ => none

/-- Not yet past `CreateRoom` or `RedeemInvite`. -/
def outside : Phase D → Bool
  | .absent | .hello | .creating | .redeeming => true
  | _ => false

/-- Allowed, and not yet past `CreateRoom` or `RedeemInvite`. -/
def cleared : Pc D → Option Hello
  | .claimCreate | .createRoom => some .create
  | .claimRedeem _ | .redeemInvite _ => some .redeem
  | _ => none

/-- A connection gets in once. -/
structure Once (f : Floor D) : Prop where
  le   : ∀ c, f.log.countP (enters c) ≤ 1
  zero : ∀ c, outside (f.phase c) = true → f.log.countP (enters c) = 0

section
omit [Payload D]
variable {cfg : Relay.Config} {may : May} {f f' : Floor D}

theorem Once.zero_move (h : Once f) (hi : Inv cfg f) (hm : Move cfg may f f') :
    ∀ c, outside (f'.phase c) = true → f'.log.countP (enters c) = 0 := by
  have zero := h.zero
  have drawn := hi.drawn
  cases hm <;> first | exact zero | skip
  all_goals
    intro c hc
    simp only [Floor.goto, Floor.setRoom, Floor.note, Floor.close, Function.update_apply,
      List.countP_cons] at hc ⊢
    grind -ring -linarith [outside, enters]

theorem Once.le_move (h : Once f) (hm : Move cfg may f f') :
    ∀ c, f'.log.countP (enters c) ≤ 1 := by
  have le := h.le
  have zero := h.zero
  cases hm <;> first | exact le | skip
  all_goals
    intro c
    simp only [Floor.goto, Floor.setRoom, Floor.note, List.countP_cons]
    grind -ring -linarith [outside, enters]

/-- Who creates a room or redeems a token is about to. -/
theorem entry_of_move (hm : Move cfg may f f') {e : Event} {c : ClientId} {h : Hello}
    (he : e ∈ f'.log) (hreq : request c e = some h) : e ∈ f.log ∨
      (h = .create ∧ f.phase c = .creating) ∨ (h = .redeem ∧ f.phase c = .redeeming) := by
  cases hm <;> first | exact .inl he | skip
  all_goals
    simp only [Floor.goto, Floor.setRoom, Floor.note, Floor.close, List.mem_cons] at he
    grind -ring -linarith [request]

theorem cleared_of_phase {pc : Pc D} {h : Hello}
    (hp : (h = .create ∧ pc.phase = .creating) ∨ (h = .redeem ∧ pc.phase = .redeeming)) :
    cleared pc = some h := by
  cases pc with
  | member r todo =>
    simp only [Pc.phase, headPhase] at hp
    split at hp <;> simp at hp
  | createRoom => simpa [Pc.phase, cleared, eq_comm] using hp
  | redeemInvite tok => simpa [Pc.phase, cleared, eq_comm] using hp
  | _ => simp [Pc.phase] at hp

end

theorem once_of_reach {cfg : Relay.Config} {s : State D} (hr : (relay cfg).Reach Machine.Any s) :
    Once s.floor :=
  hr.invariant (I := fun s => Once s.floor)
    ⟨fun c => by simp [State.floor, relay], fun c _ => by simp [State.floor, relay]⟩
    fun _ _ _ hr' h _ hstep =>
      have hm := (sound_of_reach hr').step_move hstep
      ⟨h.le_move hm, h.zero_move (sound_of_reach hr').inv hm⟩

/-- A refused connection does not go on. -/
theorem refused_step {cfg : Relay.Config} {s s' : State D} {c : ClientId} {draw : Handle}
    (h : step cfg s (.run c draw false) = some s') {k : Hello}
    (hpc : asks (s.conns c).pc = some k) : cleared (s'.conns c).pc = none := by
  cases hc : (s.conns c).pc <;> simp only [hc, asks, reduceCtorEq] at hpc
  all_goals
    simp only [step, hc, runPc] at h
    cases h
    simp [State.goto, State.setConn, cleared]

/-- Only an answer clears the way. -/
theorem cleared_step {cfg : Relay.Config} {s s' : State D} {a : Act D} (h : step cfg s a = some s')
    {c : ClientId} {k : Hello} (hc : cleared (s'.conns c).pc = some k) :
    cleared (s.conns c).pc = some k ∨
      ∃ draw, a = .run c draw true ∧ asks (s.conns c).pc = some k := by
  have hpc := Sound.step_pc h c
  generalize hpc' : (s'.conns c).pc = pc' at hpc hc
  cases hpc with
  | same => exact .inl hc
  | connected hello => cases hello <;> simp [helloPc, cleared] at hc
  | read m _ _ hread =>
    have hafter := readFrame_afterRead hread
    cases pc' <;> simp [Pc.afterRead, cleared] at hafter hc
  | readErr _ _ hread =>
    have hafter := readFails_afterRead hread
    cases pc' <;> simp [Pc.afterRead, cleared] at hafter hc
  | ran draw allow _ ha hnext =>
    subst ha
    -- the moves that end in a cleared point begin in one, or at the limiter
    have hfrom : cleared (s.conns c).pc = some k ∨ asks (s.conns c).pc = some k := by
      generalize (s.conns c).pc = pc at hnext
      cases hnext <;> simp_all [cleared, asks]
    refine hfrom.imp_right fun hask => ⟨draw, ?_, hask⟩
    cases allow with
    | true => rfl
    | false =>
      have hno := refused_step h hask
      rw [hpc', hc] at hno
      cases hno

/-! ## What the limiters have been asked -/

/-- The answers `Allow` gave to `key` about requests of the kind `h`. -/
def answersTo (l : List Asked) (h : Hello) (key : String) : List (Answer String) :=
  (l.filter fun g => g.hello = h ∧ g.source = key).map Asked.answer

def Granted (s : Server D) (c : ClientId) (h : Hello) : Prop :=
  ∃ g ∈ s.asked, g.conn = c ∧ g.hello = h ∧ g.allowed = true

structure Guarded (cfg : ServerConfig) (s : Server D) : Prop where
  config   : ∀ h, (s.lims h).limit = cfg.perMin h ∧ (s.lims h).window = minute
  past     : ∀ g ∈ s.asked, g.now ≤ s.now ∧ g.conn ∈ s.hub.drawn ∧ g.source = s.source g.conn
  windowed : ∀ h, 0 < cfg.perMin h → ∀ key, Windowed (s.lims h) key (answersTo s.asked h key)
  cleared  : ∀ c h, cleared (s.hub.conns c).pc = some h → Granted s c h
  entered  : ∀ e ∈ s.hub.log, ∀ c h, request c e = some h → Granted s c h

theorem Windowed.congr {K : Type} [DecidableEq K] {l l' : Limiter K} {key : K}
    {past : List (Answer K)} (h : Windowed l key past)
    (hconfig : l'.limit = l.limit ∧ l'.window = l.window)
    (hb : l'.buckets key = l.buckets key) : Windowed l' key past := by
  unfold Windowed
  rw [hb, hconfig.1, hconfig.2]
  exact h

namespace Guarded

theorem step_config (hg : Guarded cfg s) (he : Effect cfg s s') :
    ∀ h, (s'.lims h).limit = cfg.perMin h ∧ (s'.lims h).window = minute := by
  intro k
  cases he with
  | sockets _ lims | relayed _ _ _ lims => exact lims ▸ hg.config k
  | asked c draw h hpc hub lims =>
    rw [lims]
    by_cases hk : k = h
    · subst hk
      rw [Function.update_self, (Limiter.allow_config _ _ _).1, (Limiter.allow_config _ _ _).2]
      exact hg.config k
    · rw [Function.update_of_ne hk]
      exact hg.config k

theorem answersTo_append (l l' : List Asked) (h : Hello) (key : String) :
    answersTo (l ++ l') h key = answersTo l h key ++ answersTo l' h key := by
  simp [answersTo]

theorem step_windowed (hg : Guarded cfg s) (he : Effect cfg s s') :
    ∀ h, 0 < cfg.perMin h → ∀ key, Windowed (s'.lims h) key (answersTo s'.asked h key) := by
  intro k hk key
  have hold := hg.windowed k hk key
  cases he with
  | sockets _ lims _ _ asked | relayed _ _ _ lims _ _ asked =>
    rw [lims, asked]
    exact hold
  | asked c draw h hpc hub lims source now asked =>
    rw [lims, asked, answersTo_append]
    by_cases hkh : k = h
    · subst hkh
      rw [Function.update_self]
      by_cases hkey : s.source c = key
      · subst hkey
        have hlim := hg.config k
        have hpast : ∀ e ∈ answersTo s.asked k (s.source c), e.now ≤ s.now := by
          intro e he
          obtain ⟨g, hgm, rfl⟩ := List.mem_map.mp he
          exact (hg.past g (List.mem_filter.mp hgm).1).1
        have hwin : 0 < (s.lims k).window := hlim.2 ▸ (by decide : 0 < minute)
        simpa [answersTo, ask, Asked.answer] using
          (hold.allow (hlim.1 ▸ hk) hwin hpast).1
      · -- another source's bucket
        have hnone : answersTo [ask s c k] k key = [] := by simp [answersTo, ask, hkey]
        rw [hnone, List.append_nil]
        exact hold.congr (Limiter.allow_config _ _ _) (Limiter.allow_other (Ne.symm hkey))
    · have hnone : answersTo [ask s c h] k key = [] := by simp [answersTo, ask, Ne.symm hkh]
      rw [Function.update_of_ne hkh, hnone, List.append_nil]
      exact hold

omit [Payload D] in
/-- Who asks has been drawn. -/
theorem asks_drawn {cfg : Relay.Config} {s : State D} (hs : Sound cfg s) {c : ClientId} {k : Hello}
    (h : asks (s.conns c).pc = some k) : c ∈ s.drawn := by
  by_contra hc
  have habsent : (s.conns c).pc.phase = .absent := hs.inv.drawn c hc
  cases hpc : (s.conns c).pc <;> rw [hpc] at h habsent <;> simp [asks, Pc.phase] at h habsent

theorem step_past (hg : Guarded cfg s) (hs : Sound cfg.relay s.hub) (he : Effect cfg s s') :
    ∀ g ∈ s'.asked, g.now ≤ s'.now ∧ g.conn ∈ s'.hub.drawn ∧ g.source = s'.source g.conn := by
  intro g hgm
  cases he with
  | sockets hub _ source now asked =>
    rw [hub, source, now]
    exact hg.past g (asked ▸ hgm)
  | relayed a _ hub _ source now asked =>
    obtain ⟨hnow, hdrawn, hsrc⟩ := hg.past g (asked ▸ hgm)
    exact ⟨hnow.trans now, (hs.step_move hub).drawn_mono hdrawn, (source _ hdrawn).symm ▸ hsrc⟩
  | asked c draw h hpc hub lims source now asked =>
    rw [source, now]
    rw [asked] at hgm
    have hmono : ∀ x ∈ s.hub.drawn, x ∈ s'.hub.drawn := fun _ hx =>
      (hs.step_move hub).drawn_mono hx
    obtain hgm | hgm := List.mem_append.mp hgm
    · obtain ⟨hnow, hdrawn, hsrc⟩ := hg.past g hgm
      exact ⟨hnow, hmono _ hdrawn, hsrc⟩
    · obtain rfl := List.mem_singleton.mp hgm
      exact ⟨le_rfl, hmono _ (asks_drawn hs hpc), rfl⟩

omit [Payload D] in
theorem granted_mono {c : ClientId} {h : Hello} (hc : Granted s c h)
    (hsub : ∀ g ∈ s.asked, g ∈ s'.asked) : Granted s' c h := by
  obtain ⟨g, hg, hrest⟩ := hc
  exact ⟨g, hsub g hg, hrest⟩

theorem asked_mono (he : Effect cfg s s') : ∀ g ∈ s.asked, g ∈ s'.asked := by
  intro g hg
  cases he with
  | sockets _ _ _ _ asked | relayed _ _ _ _ _ _ asked => exact asked ▸ hg
  | asked c draw h hpc hub lims source now asked =>
    rw [asked]
    exact List.mem_append_left _ hg

theorem step_cleared (hg : Guarded cfg s) (he : Effect cfg s s') :
    ∀ c h, Http.cleared (s'.hub.conns c).pc = some h → Granted s' c h := by
  intro c k hc
  have hmono := asked_mono he
  cases he with
  | sockets hub => exact granted_mono (hg.cleared c k (hub ▸ hc)) hmono
  | relayed a ha hub =>
    obtain hc | ⟨draw, rfl, hask⟩ := cleared_step hub hc
    · exact granted_mono (hg.cleared c k hc) hmono
    · rw [ha c draw true rfl] at hask
      cases hask
  | asked d draw h hpc hub lims source now asked =>
    obtain hc | ⟨draw', heq, hask⟩ := cleared_step hub hc
    · exact granted_mono (hg.cleared c k hc) hmono
    · obtain ⟨rfl, -, hok⟩ := Act.run.inj heq
      obtain rfl := Option.some.inj (hpc.symm.trans hask)
      exact ⟨ask s d h, by simp [asked], rfl, rfl, hok⟩

theorem step_entered (hg : Guarded cfg s) (hs : Sound cfg.relay s.hub) (he : Effect cfg s s') :
    ∀ e ∈ s'.hub.log, ∀ c h, request c e = some h → Granted s' c h := by
  intro e hem c k hreq
  have hmono := asked_mono he
  -- an event of the step before was due to a cleared connection
  have hnew : ∀ a, step cfg.relay s.hub a = some s'.hub → Granted s' c k := by
    intro a hub
    obtain hold | hphase := entry_of_move (hs.step_move hub) hem hreq
    · exact granted_mono (hg.entered e hold c k hreq) hmono
    · exact granted_mono (hg.cleared c k (cleared_of_phase hphase)) hmono
  cases he with
  | sockets hub => exact granted_mono (hg.entered e (hub ▸ hem) c k hreq) hmono
  | relayed a _ hub => exact hnew a hub
  | asked d draw h _ hub => exact hnew _ hub

end Guarded

theorem guarded_of_reach {ok : Server D → ServerAct D → Prop} (hr : (server cfg).Reach ok s) :
    Guarded cfg s := by
  refine hr.invariant (I := Guarded cfg) ⟨fun h => ⟨rfl, rfl⟩, ?_, ?_, ?_, ?_⟩ ?_
  · simp [server]
  · intro h _ key
    rfl
  · simp [server, cleared]
  · simp [server]
  · intro s a s' hr' hg _ hstep
    have he := serverStep_effect hstep
    have hs := sound_of_reach (hub_reach hr')
    exact ⟨hg.step_config he, hg.step_past hs he, hg.step_windowed he, hg.step_cleared he,
      hg.step_entered hs he⟩

/-! ## What a source gets in -/

/-- The event is the entry of a connection from `key` whose request was allowed from `a` to `b`. -/
def entersFrom (s : Server D) (h : Hello) (key : String) (a b : Int) (e : Event) : Bool :=
  s.asked.any fun g => (g.hello = h ∧ g.source = key ∧ g.allowed ∧ a ≤ g.now ∧ g.now ≤ b : Bool) &&
    (request g.conn e = some h : Bool)

section
variable {α β : Type}

theorem countP_or_le (p q : α → Bool) (l : List α) :
    l.countP (fun x => p x || q x) ≤ l.countP p + l.countP q := by
  induction l with
  | nil => simp
  | cons x l ih =>
    simp only [List.countP_cons]
    cases p x <;> cases q x <;> simp <;> omega

/-- The union bound, where each of `gs` accounts for one element at most. -/
theorem countP_any_le {l : List α} {p : β → Bool} {R : β → α → Bool} (gs : List β)
    (h : ∀ g, l.countP (R g) ≤ 1) :
    l.countP (fun x => gs.any fun g => p g && R g x) ≤ gs.countP p := by
  induction gs with
  | nil => simp
  | cons g gs ih =>
    have hg : l.countP (fun x => p g && R g x) ≤ if p g then 1 else 0 := by
      cases p g
      · simp
      · simpa using h g
    have hor := countP_or_le (fun x => p g && R g x) (fun x => gs.any fun g => p g && R g x) l
    simp only [List.any_cons, List.countP_cons]
    omega

end

theorem request_enters {c : ClientId} {e : Event} {h : Hello} (hr : request c e = some h) :
    enters c e = true := by
  cases e <;> simp_all [request, enters]

theorem allowedIn_answersTo (l : List Asked) (h : Hello) (key : String) (a b : Int) :
    allowedIn key a b (answersTo l h key) = l.countP fun g =>
      g.hello = h ∧ g.source = key ∧ g.allowed = true ∧ a ≤ g.now ∧ g.now ≤ b := by
  simp only [allowedIn, answersTo, List.countP_map, List.countP_filter]
  refine List.countP_congr fun g _ => ?_
  simp only [Asked.answer, Function.comp_apply, Bool.and_eq_true, decide_eq_true_eq]
  constructor
  · rintro ⟨hin, hh, -⟩
    exact ⟨hh, of_decide_eq_true hin⟩
  · rintro ⟨hh, hin⟩
    exact ⟨decide_eq_true hin, hh, hin.1⟩

def sampleServerConfig : ServerConfig where
  relay := sampleConfig
  trustProxy := true
  perMin _ := 1

def sampleRequest : Request where
  headers := {}
  remoteAddr := "10.0.0.2:4711"

def sampleServe : List (ServerAct String) :=
  [.tick (2 * 10 ^ 9), .accept 0 sampleRequest, .accept 1 sampleRequest,
    .hello 0 1 (.create "ann" "s1"), .run 1 0, .run 1 0, .run 1 100, .run 1 0, .noHello 1]

theorem sampleServe_some : ((server sampleServerConfig).run sampleServe).isSome = true := by
  decide +kernel

def sampleServed : Server String := ((server sampleServerConfig).run sampleServe).get sampleServe_some

theorem sampleServed_reach : (server sampleServerConfig).Reach Machine.Any sampleServed :=
  Machine.reach_of_run (Option.some_get _).symm

example : sampleServed.hub.log.countP (entersFrom sampleServed .create "10.0.0.2" 0 minute) = 1 := by
  decide +kernel

/-! ## The lobby's counts -/

/-- What a step does to the sockets and their count. -/
inductive SocketStep (s s' : Server D) : Prop
  | same (accepted : s'.accepted = s.accepted) (live : ∀ k, (s'.socket k).live = (s.socket k).live)
      (online : s'.online = s.online)
  | opened (k : SocketId) (hk : k ∉ s.accepted) (accepted : s'.accepted = insert k s.accepted)
      (live : ∀ j, (s'.socket j).live = if j = k then true else (s.socket j).live)
      (online : s'.online = s.online + 1)
  | closed (k : SocketId) (hk : (s.socket k).live = true) (accepted : s'.accepted = s.accepted)
      (live : ∀ j, (s'.socket j).live = if j = k then false else (s.socket j).live)
      (online : s'.online = s.online - 1)

omit [Payload D] in
theorem setSocket_live (s : Server D) (k : SocketId) (v : Socket) (j : SocketId) :
    ((setSocket s k v).socket j).live = if j = k then v.live else (s.socket j).live := by
  by_cases hj : j = k
  · subst hj
    simp [setSocket]
  · simp [setSocket, hj]

theorem serverStep_sockets {a : ServerAct D} (h : serverStep cfg s a = some s') :
    SocketStep s s' := by
  cases a with
  | accept k r =>
    simp only [serverStep] at h
    split at h
    · simp at h
    · rename_i hk
      cases h
      exact .opened k hk rfl (setSocket_live s k _) rfl
  | noHello k =>
    simp only [serverStep] at h
    split at h
    · rename_i ip hw
      cases h
      exact .closed k (by rw [hw]; rfl) rfl (setSocket_live s k _) rfl
    · simp at h
  | hello k c m =>
    simp only [serverStep] at h
    split at h
    · rename_i ip hw
      obtain ⟨hub, hstep, rfl⟩ := Option.map_eq_some_iff.mp h
      refine .same rfl (fun j => (setSocket_live s k _ j).trans ?_) rfl
      split
      · rename_i hj
        rw [hj, hw]
        rfl
      · rfl
    · simp at h
  | run c draw =>
    simp only [serverStep] at h
    split at h <;> obtain ⟨hub, hstep, rfl⟩ := Option.map_eq_some_iff.mp h
    · exact .same rfl (fun _ => rfl) rfl
    · exact .same rfl (fun _ => rfl) rfl
  | returns k =>
    simp only [serverStep] at h
    split at h
    · rename_i c hw
      split at h
      · cases h
        exact .closed k (by rw [hw]; rfl) rfl (setSocket_live s k _) rfl
      · simp at h
    · simp at h
  | tick d =>
    simp only [serverStep] at h
    obtain ⟨hub, hstep, rfl⟩ := Option.map_eq_some_iff.mp h
    exact .same rfl (fun _ => rfl) rfl
  | other a =>
    simp only [serverStep] at h
    split at h
    · obtain ⟨hub, hstep, rfl⟩ := Option.map_eq_some_iff.mp h
      exact .same rfl (fun _ => rfl) rfl
    · simp at h

/-- The sockets whose `handleWS` runs. -/
def liveSockets (s : Server D) : Finset SocketId := s.accepted.filter fun k => (s.socket k).live

structure Counted (s : Server D) : Prop where
  unseen : ∀ k, k ∉ s.accepted → (s.socket k).live = false
  online : s.online = Int64.ofNat (liveSockets s).card

omit [Payload D] in
theorem Counted.step (h : Counted s) (hs : SocketStep s s') : Counted s' := by
  cases hs with
  | same accepted live online =>
    have hlive : liveSockets s' = liveSockets s := by
      ext k
      simp [liveSockets, accepted, live]
    exact ⟨fun k hk => (live k).trans (h.unseen k (accepted ▸ hk)), by rw [online, h.online, hlive]⟩
  | opened k hk accepted live online =>
    have hnot : k ∉ liveSockets s := by simp [liveSockets, hk]
    have hlive : liveSockets s' = insert k (liveSockets s) := by
      ext j
      by_cases hj : j = k <;> simp [liveSockets, accepted, live, hj]
    refine ⟨fun j hj => ?_, ?_⟩
    · rw [accepted, Finset.mem_insert, not_or] at hj
      rw [live, if_neg hj.1]
      exact h.unseen j hj.2
    · rw [online, h.online, hlive, Finset.card_insert_of_notMem hnot, Int64.ofNat_add]
      rfl
  | closed k hk accepted live online =>
    have hmem : k ∈ liveSockets s := by
      by_contra hno
      simp only [liveSockets, Finset.mem_filter, hk, and_true] at hno
      rw [h.unseen k hno] at hk
      cases hk
    have hlive : liveSockets s' = (liveSockets s).erase k := by
      ext j
      by_cases hj : j = k <;> simp [liveSockets, accepted, live, hj]
    refine ⟨fun j hj => ?_, ?_⟩
    · rw [live]
      split
      · rfl
      · exact h.unseen j (accepted ▸ hj)
    · have hcard := Finset.card_erase_add_one hmem
      rw [online, h.online, hlive, ← hcard, Int64.ofNat_add]
      simp

/-- **The lobby's counts are exact.** `online` counts the sockets whose handler runs; `rooms` counts,
once each, rooms that were created and not yet taken out by `Close`, and every live room is counted. -/
theorem stats_exact (hr : (server cfg).Reach Machine.Any s) :
    (handleStats s).1 = Int64.ofNat (liveSockets s).card ∧
    ∃ rooms : List RoomId, (handleStats s).2 = rooms.length ∧ rooms.Nodup ∧
      (∀ r ∈ rooms, Registered s.hub.floor r) ∧
      ∀ c r, .created c r ∈ s.hub.log → (s.hub.room r).closed = false → r ∈ rooms := by
  have hlisted := listed_of_reach (hub_reach hr)
  refine ⟨Counted.online ?_, s.hub.rooms, rfl, hlisted.nodup, hlisted.only, hlisted.all⟩
  refine hr.invariant (I := Counted) ⟨?_, ?_⟩ fun _ _ _ _ h _ hstep =>
    h.step (serverStep_sockets hstep)
  · simp [server, Socket.live]
  · rfl

theorem stats_exact_sample :
    (handleStats sampleServed).1 = Int64.ofNat (liveSockets sampleServed).card :=
  (stats_exact sampleServed_reach).1

end E2EAnon.Http
