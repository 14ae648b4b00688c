import E2EAnon.Relay.Step
import E2EAnon.Web.View

/-!
# Clients and relay together

The relay of `Relay/Step.lean` with a tab of `Web/Step.lean` on the other end of each connection.
A client is named by the id the relay gives its connection. Frames go both ways in order: what a tab
has sent waits in its `outbox` for the connection's read loop, and what the write pump has taken off
the relay's queue waits in `down` for the tab.

A tab's sessions follow one another, each on a socket of its own (`connect`, `main.ts:200`), so a
tab that connects again is another client here. A drawn id is never the empty string.
-/

namespace E2EAnon.Net

open Web (Data)

variable [Payload Data]

structure World where
  relay   : Relay.State Data := {}
  clients : Relay.ClientId → Web.Client := fun c => { who := c }
  /-- The oldest first. -/
  down    : Relay.ClientId → List (ServerMsg Data) := fun _ => []

inductive Act
  /-- A tab connects as `c`, for the click `a`; its hello is read. -/
  | join (c : Relay.ClientId) (a : Web.Act)
  /-- An event of `c`'s tab that brings no frame. -/
  | tab (c : Relay.ClientId) (a : Web.Act)
  /-- `c`'s tab handles the next frame on its way. -/
  | deliver (c : Relay.ClientId)
  /-- `c`'s read loop takes the next frame the tab has sent. -/
  | read (c : Relay.ClientId)
  /-- `c`'s write pump takes a frame off the queue. -/
  | pump (c : Relay.ClientId)
  /-- Any other operation of the relay. -/
  | relay (a : Relay.Act Data)
deriving DecidableEq

/-- The events of a tab that bring no frame and start no session. -/
def local? : Web.Act → Bool
  | .connected _ | .opened _ | .message _ _ => false
  | _ => true

/-- The relay's operations that move no frame to or from a tab; ids drawn are not empty. -/
def internal : Relay.Act Data → Bool
  | .connect _ _ | .frame _ _ | .pump _ => false
  | .run _ draw _ => draw ≠ Web.empty
  | _ => true

/-- A tab that has just opened its first socket for the click `a`, and the hello it has sent. -/
def freshTab (c : Relay.ClientId) (a : Web.Act) : Option (Web.Client × ClientMsg Data) := do
  let k ← ({ who := c } : Web.Client).step a
  let k ← k.step (.connected 0)
  let k ← k.step (.opened 0)
  match k.outbox with
  | (_, hello) :: rest => some ({ k with outbox := rest }, hello)
  | [] => none

namespace World

def setClient (n : World) (c : Relay.ClientId) (k : Web.Client) : World :=
  { n with clients := Function.update n.clients c k }

def setDown (n : World) (c : Relay.ClientId) (q : List (ServerMsg Data)) : World :=
  { n with down := Function.update n.down c q }

end World

def step (cfg : Relay.Config) (n : World) : Act → Option World
  | .join c a =>
    if c = Web.empty then none
    else do
      let (k, hello) ← freshTab c a
      let relay ← Relay.step cfg n.relay (.connect c hello)
      some ({ n with relay } |>.setClient c k)
  | .tab c a =>
    if c ∈ n.relay.started ∧ local? a then ((n.clients c).step a).map (n.setClient c) else none
  | .deliver c =>
    match n.down c with
    | [] => none
    | m :: rest => ((n.clients c).step (.message 0 m)).map fun k => (n.setClient c k).setDown c rest
  | .read c =>
    match (n.clients c).outbox with
    | [] => none
    | (_, m) :: rest => (Relay.step cfg n.relay (.frame c m)).map fun relay =>
        { n with relay }.setClient c { n.clients c with outbox := rest }
  | .pump c =>
    match (n.relay.conns c).out with
    | [] => none
    | m :: _ => (Relay.step cfg n.relay (.pump c)).map fun relay =>
        { n with relay }.setDown c (n.down c ++ [m])
  | .relay a =>
    if internal a then (Relay.step cfg n.relay a).map fun relay => { n with relay } else none

/-- Clients and relay. -/
def network (cfg : Relay.Config) : Lib.Machine World Act where
  init := {}
  step := step cfg

/-- The frames on their way to `c`'s tab, the oldest first. -/
def World.inbound (n : World) (c : Relay.ClientId) : List (ServerMsg Data) :=
  n.down c ++ (n.relay.conns c).out

/-- The relay's part of a step. -/
def Act.relayAct (n : World) : Act → Option (Relay.Act Data)
  | .join c a => (freshTab c a).map fun x => .connect c x.2
  | .read c => (n.clients c).outbox.head?.map fun x => .frame c x.2
  | .pump c => some (.pump c)
  | .relay a => some a
  | .tab _ _ | .deliver _ => none

variable {cfg : Relay.Config} {n n' : World}

/-- A step of the network is a step of the relay or leaves the relay alone. -/
theorem step_relay {a : Act} (h : step cfg n a = some n') :
    (a.relayAct n = none ∧ n'.relay = n.relay) ∨
      ∃ b, a.relayAct n = some b ∧ Relay.step cfg n.relay b = some n'.relay := by
  cases a with
  | join c a =>
    simp only [step] at h
    split at h
    · simp at h
    · simp only [Option.bind_eq_bind, Option.bind_eq_some_iff] at h
      obtain ⟨⟨k, hello⟩, hk, relay, hr, h⟩ := h
      cases h
      exact .inr ⟨_, by simp [Act.relayAct, hk], hr⟩
  | tab c a =>
    simp only [step] at h
    split at h
    · obtain ⟨k, -, rfl⟩ := Option.map_eq_some_iff.mp h
      exact .inl ⟨rfl, rfl⟩
    · simp at h
  | deliver c =>
    simp only [step] at h
    split at h
    · simp at h
    · obtain ⟨k, -, rfl⟩ := Option.map_eq_some_iff.mp h
      exact .inl ⟨rfl, rfl⟩
  | read c =>
    simp only [step] at h
    split at h
    · simp at h
    · rename_i sock m rest ho
      obtain ⟨relay, hr, rfl⟩ := Option.map_eq_some_iff.mp h
      exact .inr ⟨_, by simp [Act.relayAct, ho], hr⟩
  | pump c =>
    simp only [step] at h
    split at h
    · simp at h
    · obtain ⟨relay, hr, rfl⟩ := Option.map_eq_some_iff.mp h
      exact .inr ⟨_, rfl, hr⟩
  | relay a =>
    simp only [step] at h
    split at h
    · obtain ⟨relay, hr, rfl⟩ := Option.map_eq_some_iff.mp h
      exact .inr ⟨a, rfl, hr⟩
    · simp at h

/-- A run of the network is a run of the relay. -/
theorem reach_relay {ok : World → Act → Prop} (h : (network cfg).Reach ok n) :
    (Relay.relay cfg).Reach Lib.Machine.Any n.relay := by
  induction h with
  | init => exact .init
  | step _ _ hs ih =>
    obtain ⟨-, he⟩ | ⟨b, -, hb⟩ := step_relay hs
    · exact he ▸ ih
    · exact ih.step trivial hb

/-! ## A sample schedule

Client 1 opens room 100 and draws the invite 200; client 2 redeems it under handshake 300, is handed
the room key and enters. -/

/-- `n` operations of `c`'s goroutine. -/
def ops (c : Relay.ClientId) (n : Nat) : List Act := List.replicate n (.relay (.run c 1000 true))

/-- An operation of `c`'s goroutine that draws `id`. -/
def draws (c : Relay.ClientId) (id : Handle) : List Act := [.relay (.run c id true)]

/-- The next frame for `c` is written and handled. -/
def takes (c : Relay.ClientId) : List Act := [.pump c, .deliver c]

/-- A frame of `c` is relayed to `d`, which handles it. -/
def passes (c d : Relay.ClientId) : List Act := .read c :: ops c 2 ++ takes d

def sampleOpen : List Act :=
  .join 1 (.create "ann" "s1") :: ops 1 2 ++ draws 1 100 ++ ops 1 4 ++ takes 1

def sampleInvite : List Act :=
  [.tab 1 .invite, .read 1] ++ ops 1 1 ++ draws 1 200 ++ ops 1 1 ++ takes 1

/-- The code of the invite is client 1's third random value. -/
def sampleRedeem : List Act :=
  .join 2 (.join 200 (.name (Web.Name.mk 1 2)) "bob" "s2") :: ops 2 6 ++ draws 2 300 ++ ops 2 2 ++
    takes 2 ++ takes 1

/-- Messages, confirmations, public keys, and the room key. -/
def sampleHandshake : List Act :=
  passes 2 1 ++ passes 1 2 ++ passes 2 1 ++ passes 1 2 ++ passes 2 1 ++ passes 1 2 ++ passes 1 2

def sampleEnter : List Act := .read 2 :: ops 2 6 ++ takes 2 ++ takes 2 ++ takes 1

def sampleJoined : List Act :=
  sampleOpen ++ sampleInvite ++ sampleRedeem ++ sampleHandshake ++ sampleEnter

end E2EAnon.Net
