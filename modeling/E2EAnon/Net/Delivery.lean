import E2EAnon.Net.Network
import E2EAnon.Relay.Delivery
import E2EAnon.Web.Effect

/-!
# From one tab to another

What a tab sends waits in its `outbox`, passes through the relay as `Relay/Delivery.lean` has it, and
waits in `down` for the other tab. A step of the network moves each of these queues or is a step of
the relay (`step_carries`), so a run of the network has in it a run of the relay between what tabs
send and what they handle (`relay_run`).
-/

namespace E2EAnon.Net

open Web (Data)
open Lib Machine
open scoped List

/-- What `c`'s tab sends in a step; the hello of a tab that joins is read at once. -/
def sent (c : Relay.ClientId) (t : Transition World Act) : List (ClientMsg Data) :=
  match t.label with
  | .join d _ => if d = c then (t.after.clients c).outbox.map Prod.snd else []
  | _ => ((t.after.clients c).outbox.drop (t.before.clients c).outbox.length).map Prod.snd

/-- What `m`'s tab handles in a step. -/
def delivered (m : Relay.ClientId) (t : Transition World Act) : List (ServerMsg Data) :=
  match t.label with
  | .deliver d => if d = m then (t.before.down m).take 1 else []
  | _ => []

/-- What `c` says with the frames its tab has sent and the relay has not read. -/
def World.unread (n : World) (c : Relay.ClientId) : List (ServerMsg Data) :=
  ((n.clients c).outbox.map Prod.snd).filterMap (Relay.uttered c)

section
variable [Payload Data] {cfg : Relay.Config} {n n' : World} {a : Act} {c m : Relay.ClientId}
  {l : List (Transition World Act)}

/-- The steps `tr` of the relay carry what a step of the network carries. -/
structure Carries (cfg : Relay.Config) (c m : Relay.ClientId) (t : Transition World Act)
    (tr : List (Transition (Relay.State Data) (Relay.Act Data))) : Prop where
  trace : ∀ lr, (Relay.relay cfg).Trace lr t.before.relay →
    (Relay.relay cfg).Trace (lr ++ tr) t.after.relay
  down  : delivered m t ++ t.after.down m = t.before.down m ++ tr.flatMap (Relay.written m)
  up    : tr.filterMap (Relay.utters c) ++ t.after.unread c <+
    t.before.unread c ++ (sent c t).filterMap (Relay.uttered c)

omit [Payload Data] in
/-- What a tab sends goes behind what it has sent. -/
theorem unread_grows (h : (n.clients c).outbox <+: (n'.clients c).outbox) :
    n'.unread c = n.unread c ++
      (((n'.clients c).outbox.drop (n.clients c).outbox.length).map Prod.snd).filterMap
        (Relay.uttered c) := by
  obtain ⟨new, h⟩ := h
  simp [World.unread, ← h]

omit [Payload Data] in
theorem outbox_setClient {d : Relay.ClientId} {k : Web.Client}
    (h : (n.clients d).outbox <+: k.outbox) :
    (n.clients c).outbox <+: ((n.setClient d k).clients c).outbox := by
  by_cases hc : c = d
  · subst hc
    simpa [World.setClient] using h
  · simp [World.setClient, hc]

/-- An event of a tab that is connected is nothing to the relay. -/
theorem carries_tab (hrelay : n'.relay = n.relay)
    (hdown : delivered m ⟨n, a, n'⟩ ++ n'.down m = n.down m)
    (hout : (n.clients c).outbox <+: (n'.clients c).outbox) (ha : ∀ d w, a ≠ .join d w) :
    Carries cfg c m ⟨n, a, n'⟩ [] := by
  have hsent : sent c ⟨n, a, n'⟩ =
      ((n'.clients c).outbox.drop (n.clients c).outbox.length).map Prod.snd := by
    cases a with
    | join d w => exact absurd rfl (ha d w)
    | _ => rfl
  constructor
  case trace =>
    intro lr hlr
    rw [List.append_nil]
    exact hrelay ▸ hlr
  case down => simpa using hdown
  case up =>
    rw [hsent, List.filterMap_nil, List.nil_append, unread_grows hout]

theorem step_carries (h : step cfg n a = some n') (c m : Relay.ClientId) :
    ∃ tr, Carries cfg c m ⟨n, a, n'⟩ tr := by
  cases a with
  | join d w =>
    simp only [step] at h
    split at h
    · cases h
    · simp only [Option.bind_eq_bind, Option.bind_eq_some_iff] at h
      obtain ⟨⟨k, hello⟩, -, relay, hr, h⟩ := h
      cases h
      refine ⟨[⟨n.relay, .connect d hello, relay⟩], fun lr hlr => hlr.snoc hr, ?_, ?_⟩
      · simp [delivered, World.setClient, Relay.written]
      · by_cases hd : d = c
        · subst hd
          simp [sent, World.unread, World.setClient, Relay.utters]
        · simp [sent, World.unread, World.setClient, Relay.utters, hd, Ne.symm hd]
  | tab d w =>
    simp only [step] at h
    split at h
    · obtain ⟨k, hk, rfl⟩ := Option.map_eq_some_iff.mp h
      have hdown : delivered m ⟨n, .tab d w, n.setClient d k⟩ ++ (n.setClient d k).down m =
          n.down m := by
        simp [delivered, World.setClient]
      exact ⟨[], carries_tab rfl hdown (outbox_setClient (Web.step_outbox hk)) (by simp)⟩
    · cases h
  | deliver d =>
    simp only [step] at h
    split at h
    · cases h
    · rename_i x rest hd
      obtain ⟨k, hk, rfl⟩ := Option.map_eq_some_iff.mp h
      refine ⟨[], carries_tab rfl ?_ (outbox_setClient (k := k) (Web.step_outbox hk)) (by simp)⟩
      by_cases hm : d = m
      · subst hm
        simp [delivered, World.setDown, hd]
      · simp [delivered, World.setDown, World.setClient, hm, Ne.symm hm]
  | read d =>
    simp only [step] at h
    split at h
    · cases h
    · rename_i sock x rest ho
      obtain ⟨relay, hr, rfl⟩ := Option.map_eq_some_iff.mp h
      refine ⟨[⟨n.relay, .frame d x, relay⟩], fun lr hlr => hlr.snoc hr, ?_, ?_⟩
      · simp [delivered, World.setClient, Relay.written]
      · by_cases hd : d = c
        · subst hd
          cases hx : Relay.uttered d x <;>
            simp [sent, World.unread, World.setClient, Relay.utters, ho, hx]
        · simp [sent, World.unread, World.setClient, Relay.utters, hd, Ne.symm hd]
  | pump d =>
    simp only [step] at h
    split at h
    · cases h
    · rename_i x rest ho
      obtain ⟨relay, hr, rfl⟩ := Option.map_eq_some_iff.mp h
      refine ⟨[⟨n.relay, .pump d, relay⟩], fun lr hlr => hlr.snoc hr, ?_, ?_⟩
      · by_cases hm : d = m
        · subst hm
          simp [delivered, World.setDown, Relay.written, ho]
        · simp [delivered, World.setDown, Relay.written, hm, Ne.symm hm]
      · simp [sent, World.unread, World.setDown, Relay.utters]
  | relay b =>
    simp only [step] at h
    split at h
    · rename_i hint
      obtain ⟨relay, hr, rfl⟩ := Option.map_eq_some_iff.mp h
      -- it is neither a frame read nor one written
      have hw : Relay.written m ⟨n.relay, b, relay⟩ = [] := by
        cases b <;> first | rfl | simp [internal] at hint
      have hu : Relay.utters c ⟨n.relay, b, relay⟩ = none := by
        cases b <;> first | rfl | simp [internal] at hint
      refine ⟨[⟨n.relay, b, relay⟩], fun lr hlr => hlr.snoc hr, ?_, ?_⟩
      · simp [delivered, hw]
      · simp [sent, World.unread, hu]
    · cases h

/-- A run of the network has a run of the relay in it, between what tabs send and what they handle. -/
theorem relay_run (hl : (network cfg).Trace l n) (c m : Relay.ClientId) :
    ∃ lr, (Relay.relay cfg).Trace lr n.relay ∧
      l.flatMap (delivered m) ++ n.down m = lr.flatMap (Relay.written m) ∧
      lr.filterMap (Relay.utters c) ++ n.unread c <+
        (l.flatMap (sent c)).filterMap (Relay.uttered c) := by
  induction hl with
  | nil => exact ⟨[], .nil, rfl, List.nil_sublist _⟩
  | @snoc l n n' a hl h ih =>
    obtain ⟨lr, hlr, hdown, hup⟩ := ih
    obtain ⟨tr, htr⟩ := step_carries h c m
    refine ⟨lr ++ tr, htr.trace lr hlr, ?_, ?_⟩
    · rw [List.flatMap_append, List.flatMap_append, List.flatMap_singleton, ← hdown,
        List.append_assoc, List.append_assoc, htr.down]
    · rw [List.filterMap_append, List.flatMap_append, List.flatMap_singleton, List.filterMap_append,
        List.append_assoc]
      calc lr.filterMap (Relay.utters c) ++ (tr.filterMap (Relay.utters c) ++ n'.unread c)
        _ <+ lr.filterMap (Relay.utters c) ++
            (n.unread c ++ (sent c ⟨n, a, n'⟩).filterMap (Relay.uttered c)) :=
          htr.up.append_left _
        _ <+ (l.flatMap (sent c)).filterMap (Relay.uttered c) ++
            (sent c ⟨n, a, n'⟩).filterMap (Relay.uttered c) := by
          rw [← List.append_assoc]
          exact hup.append_right _

/-- **Messages arrive in order.** In every run, what `m`'s tab handles of `c`'s texts and pieces of
files are frames that `c`'s tab has sent, each at most once and in the order in which it has sent
them; and no tab handles its own. -/
theorem messages_in_order (hl : (network cfg).Trace l n) (c m : Relay.ClientId) :
    (l.flatMap (delivered m)).filterMap (Relay.heardFrom c) <+
        (l.flatMap (sent c)).filterMap (Relay.uttered c) ∧
      (l.flatMap (delivered c)).filterMap (Relay.heardFrom c) = [] := by
  constructor
  · obtain ⟨lr, hlr, hdown, hup⟩ := relay_run hl c m
    have hread : lr.filterMap (Relay.utters c) <+ (l.flatMap (sent c)).filterMap (Relay.uttered c) :=
      (List.sublist_append_left _ _).trans hup
    have hhandled : l.flatMap (delivered m) <+ lr.flatMap (Relay.written m) :=
      hdown ▸ List.sublist_append_left _ _
    exact (hhandled.filterMap _).trans ((Relay.delivered_in_order hlr c m).1.trans hread)
  · obtain ⟨lr, hlr, hdown, -⟩ := relay_run hl c c
    have hhandled : l.flatMap (delivered c) <+ lr.flatMap (Relay.written c) :=
      hdown ▸ List.sublist_append_left _ _
    exact List.sublist_nil.mp ((Relay.delivered_in_order hlr c c).2 ▸ hhandled.filterMap _)

end

/-- Payloads without length. -/
local instance textLen : Payload Data := ⟨fun _ => 0⟩

/-- Client 1 sends a text and client 2 handles it. -/
def sampleText (n : Nat) : List Act :=
  [.tab 1 (.submit (some (.const (.text n))) none), .read 1] ++ ops 1 1 ++ takes 2

/-- The roster goes first. -/
def sampleTexts : List Act := sampleJoined ++ passes 1 2 ++ sampleText 1 ++ sampleText 2

theorem texts_some : ((network Relay.sampleConfig).stepsFrom {} sampleTexts).isSome = true := by
  decide +kernel

theorem messages_in_order_sample :
    let l := (((network Relay.sampleConfig).stepsFrom {} sampleTexts).get texts_some).1
    ((l.flatMap (delivered 2)).filterMap (Relay.heardFrom 1)).length = 2 ∧
      (l.flatMap (delivered 2)).filterMap (Relay.heardFrom 1) <+
        (l.flatMap (sent 1)).filterMap (Relay.uttered 1) :=
  ⟨by decide +kernel, (messages_in_order (trace_get texts_some) 1 2).1⟩

end E2EAnon.Net
