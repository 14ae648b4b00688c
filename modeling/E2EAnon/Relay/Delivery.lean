import E2EAnon.Relay.Order

/-!
# From one client to another (`server.go:287-367`, `room.go:154-195`, `client.go:94`)

A text or a piece of a file passes through three queues on its way: the frames of its author's
socket, which the read loop takes one after another; what is still to do for the frame in hand; and
the channel of the receiver. `Pc.toSay` is the second of them. Each step moves a frame on or drops it
(`step_delivers`), so what a client is given of another is a subsequence of what the other has sent
(`delivered_in_order`): the relay makes nothing up, doubles nothing and changes no order.

`file_abort` is left out. The relay sends it in the author's name when a cap refuses a chunk.
-/

namespace E2EAnon.Relay

open Lib
open scoped List

variable {D : Type} {cfg : Config}

/-! ## The frames of an author -/

/-- What `c` says with a frame, as the others get it; the relay adds the nickname and the time. -/
def uttered (c : ClientId) : ClientMsg D → Option (ServerMsg D)
  | .msg body => some { type := .chat, fromId := some c, body := some body }
  | .fileStart t kid d => some { (fileMsg .fileStart t c) with keyId := some kid, data := some d }
  | .fileChunk t i d => some { (fileMsg .fileChunk t c) with index := some i, data := some d }
  | .fileEnd t => some (fileMsg .fileEnd t c)
  | _ => none

/-- The frames of `uttered`. -/
def speech : ServerType → Bool
  | .chat | .fileStart | .fileChunk | .fileEnd => true
  | _ => false

/-- What a receiver gets of `c`, without what the relay has added. -/
def heardFrom (c : ClientId) (x : ServerMsg D) : Option (ServerMsg D) :=
  if speech x.type = true ∧ x.fromId = some c then some { x with nick := none, ts := none }
  else none

/-- What `c` has still to say by an operation. -/
def RoomOp.toSay (c : ClientId) : RoomOp D → Option (ServerMsg D)
  | .relay body => uttered c (.msg body)
  | .fileStart t kid d => uttered c (.fileStart t kid d)
  | .fileChunk t i d | .addInflight t _ i d | .accept t _ i d => uttered c (.fileChunk t i d)
  | .broadcastFile x => heardFrom c x
  | _ => none

def Pc.toSay (c : ClientId) : Pc D → List (ServerMsg D)
  | .member _ todo => todo.filterMap (RoomOp.toSay c)
  | _ => []

/-- What `c`'s read loop takes in a step. -/
def utters (c : ClientId) (t : Machine.Transition (State D) (Act D)) : Option (ServerMsg D) :=
  match t.label with
  | .frame d m => if d = c then uttered c m else none
  | _ => none

/-- What `m`'s write pump writes in a step. -/
def written (m : ClientId) (t : Machine.Transition (State D) (Act D)) : List (ServerMsg D) :=
  match t.label with
  | .pump d => if d = m then (t.before.conns m).out.take 1 else []
  | _ => []

theorem broadcastType_of_speech {type : ServerType} (h : speech type = true) :
    broadcastType type = true := by
  cases type <;> first | rfl | cases h

theorem heardFrom_eq_some {c : ClientId} {x y : ServerMsg D} (h : heardFrom c x = some y) :
    speech x.type = true ∧ x.fromId = some c := by
  unfold heardFrom at h
  split at h
  · assumption
  · cases h

/-! ## Reading -/

section
variable {c : ClientId}

theorem memberFrame_toSay {m : ClientMsg D} {todo : List (RoomOp D)}
    (h : memberFrame c m = some todo) :
    todo.filterMap (RoomOp.toSay c) <+ (uttered c m).toList := by
  cases m <;> simp only [memberFrame, Option.some.injEq, reduceCtorEq] at h <;> subst h
  case fileStart | fileChunk | fileEnd | fileAbort =>
    split <;> simp [List.filterMap_cons, RoomOp.toSay, uttered, heardFrom, speech, fileMsg]
  all_goals simp [RoomOp.toSay, uttered]

theorem readFrame_toSay {m : ClientMsg D} {pc pc' : Pc D} (h : readFrame c m pc = some pc') :
    pc'.toSay c <+ (uttered c m).toList := by
  unfold readFrame at h
  split at h
  · cases h
    cases m with
    | enter h' =>
      simp only [joinerFrame]
      split <;> exact List.nil_sublist _
    | _ => exact List.nil_sublist _
  · split at h <;> cases h
    · exact memberFrame_toSay ‹_›
    · exact List.nil_sublist _
  · cases h

theorem readFails_toSay {pc pc' : Pc D} (h : readFails pc = some pc') : pc'.toSay c = [] := by
  unfold readFails at h
  split at h <;> cases h <;> rfl

theorem helloPc_toSay (hello : ClientMsg D) : (helloPc hello).toSay c = [] := by
  cases hello <;> rfl

end

/-! ## Going on -/

theorem toSay_cons (c : ClientId) (r : RoomId) (op : RoomOp D) (k : List (RoomOp D)) :
    (Pc.member r (op :: k)).toSay c = (op.toSay c).toList ++ (Pc.member r k).toSay c := by
  cases h : op.toSay c <;> simp [Pc.toSay, h]

section
variable [Payload D] {s s' : State D} {a : Act D} {c m : ClientId} {r : RoomId} {draw : Handle}
  {pc pc' : Pc D} {l : List (Machine.Transition (State D) (Act D))}

/-- What takes the place of an operation says what it says, or nothing. -/
theorem Expands.toSay {op : RoomOp D} {new : List (RoomOp D)} (h : Expands s c r draw op new) :
    new.filterMap (RoomOp.toSay c) <+ (op.toSay c).toList := by
  cases h <;> simp [RoomOp.toSay, abortFile, uttered, heardFrom, speech, fileMsg]

theorem PcNext.toSay (h : PcNext s c draw pc pc') : pc'.toSay c <+ pc.toSay c := by
  cases h with
  | member r op new k h =>
    rw [toSay_cons]
    simp only [Pc.toSay, List.filterMap_append]
    exact h.toSay.append_right _
  | _ => exact List.nil_sublist _

/-- What a step puts into a queue of what comes from `c` is said by `c`'s goroutine in that step,
with an operation that is then done, and the queue is not its own. -/
theorem heardFrom_queued (hl : (relay cfg).Trace l s) (h : step cfg s a = some s') :
    (queued m ⟨s, a, s'⟩).filterMap (heardFrom c) = [] ∨
      m ≠ c ∧ ∃ draw allow r op k,
        a = .run c draw allow ∧ (s.conns c).pc = .member r (op :: k) ∧
        (queued m ⟨s, a, s'⟩).filterMap (heardFrom c) = (op.toSay c).toList ∧
        ∀ new, Expands s c r draw op new → new = [] := by
  rw [queued_eq (sound_of_reach hl.reach) h m]
  split
  · cases hp : s.posts a m with
    | none => exact .inl rfl
    | some x =>
      cases hx : heardFrom c x with
      | none => exact .inl (by simp [hx])
      | some y =>
        obtain ⟨htype, hfrom⟩ := heardFrom_eq_some hx
        obtain ⟨b, hb, hd, rfl⟩ := (posts_broadcast hl (broadcastType_of_speech htype)).mp hp
        have hne := ((broadcast_spec h hb).1 m).mp hd
        obtain ⟨c', draw, allow, rfl, hsite⟩ := broadcast_cases hb
        cases hsite with
        | relay r body k hpc _ _ =>
          obtain rfl : c' = c := Option.some.inj hfrom
          refine .inr ⟨fun he => hne.2 (he ▸ rfl), draw, allow, r, _, k, rfl, hpc, ?_, ?_⟩
          · simp [State.others, State.chatMsg, heardFrom, speech, RoomOp.toSay, uttered]
          · rintro new ⟨⟩
            rfl
        | file r x k hpc _ =>
          have hauthor : x.fromId = some c' := (fit_of_broadcast (fit_of_trace hl c') hpc).2
          obtain rfl : c' = c := Option.some.inj (hauthor.symm.trans hfrom)
          refine .inr ⟨fun he => hne.2 (he ▸ rfl), draw, allow, r, _, k, rfl, hpc, ?_, ?_⟩
          · have hx' : heardFrom c' x = some y := hx
            simp [State.others, RoomOp.toSay, hx']
          · rintro new ⟨⟩
            rfl
        | _ => cases hfrom
  · exact .inl rfl

/-- **One step.** What `m` gets of `c`, and what `c` has then still to say, it had to say before or
has read in the step. -/
theorem step_delivers (hl : (relay cfg).Trace l s) (h : step cfg s a = some s') (c m : ClientId) :
    (queued m ⟨s, a, s'⟩).filterMap (heardFrom c) ++ (s'.conns c).pc.toSay c <+
      (s.conns c).pc.toSay c ++ (utters c ⟨s, a, s'⟩).toList := by
  have hpc := Sound.step_pc h c
  generalize (s'.conns c).pc = pc at hpc ⊢
  obtain hq | ⟨-, draw, allow, r, op, k, rfl, hop, hq, hdone⟩ :=
    heardFrom_queued (c := c) (m := m) hl h
  · rw [hq, List.nil_append]
    cases hpc with
    | same ha => exact List.sublist_append_left _ _
    | connected hello ha hd => exact helloPc_toSay (c := c) hello ▸ List.nil_sublist _
    | read x pc ha hread =>
      subst ha
      have hu : utters c ⟨s, .frame c x, s'⟩ = uttered c x := by simp [utters]
      rw [hu]
      exact (readFrame_toSay hread).trans (List.sublist_append_right _ _)
    | readErr pc ha hread => exact readFails_toSay (c := c) hread ▸ List.nil_sublist _
    | ran draw allow pc ha hnext => exact hnext.toSay.trans (List.sublist_append_left _ _)
  · -- the operation has been carried out; what follows it is still to be said
    rw [hq, hop, toSay_cons, List.append_assoc]
    refine List.Sublist.append_left (List.Sublist.trans ?_ (List.sublist_append_left _ _)) _
    cases hpc with
    | same ha => exact absurd rfl (ha draw allow)
    | connected hello ha | read x pc ha | readErr pc ha => cases ha
    | ran draw allow pc ha hnext =>
      cases ha
      rw [hop] at hnext
      cases hnext with
      | member r op new k hnew =>
        rw [hdone new hnew]
        exact List.Sublist.refl _
      | _ => exact List.nil_sublist _

/-! ## A whole run -/

theorem spoken (hl : (relay cfg).Trace l s) (c m : ClientId) :
    (received m l).filterMap (heardFrom c) ++ (s.conns c).pc.toSay c <+ l.filterMap (utters c) := by
  induction hl with
  | nil => exact List.nil_sublist _
  | @snoc l s s' a hl h ih =>
    have hlast : [(⟨s, a, s'⟩ : Machine.Transition (State D) (Act D))].filterMap (utters c) =
        (utters c ⟨s, a, s'⟩).toList := by
      cases hu : utters c ⟨s, a, s'⟩ <;> simp [hu]
    rw [received_snoc, List.filterMap_append, List.filterMap_append, hlast, List.append_assoc]
    calc (received m l).filterMap (heardFrom c) ++
          ((queued m ⟨s, a, s'⟩).filterMap (heardFrom c) ++ (s'.conns c).pc.toSay c)
      _ <+ (received m l).filterMap (heardFrom c) ++
          ((s.conns c).pc.toSay c ++ (utters c ⟨s, a, s'⟩).toList) :=
        (step_delivers hl h c m).append_left _
      _ <+ l.filterMap (utters c) ++ (utters c ⟨s, a, s'⟩).toList := by
        rw [← List.append_assoc]
        exact ih.append_right _

theorem no_echo (hl : (relay cfg).Trace l s) (c : ClientId) :
    (received c l).filterMap (heardFrom c) = [] := by
  induction hl with
  | nil => rfl
  | @snoc l s s' a hl h ih =>
    obtain hq | ⟨hne, -⟩ := heardFrom_queued (c := c) (m := c) hl h
    · rw [received_snoc, List.filterMap_append, ih, hq, List.append_nil]
    · exact absurd rfl hne

/-- The write pump takes a channel's frames off in the order they were put in. -/
theorem step_written (hs : Sound cfg s) (h : step cfg s a = some s') (m : ClientId) :
    written m ⟨s, a, s'⟩ ++ (s'.conns m).out <+ (s.conns m).out ++ queued m ⟨s, a, s'⟩ := by
  have hout := hs.step_out h m
  have hgrow (p : Option (ServerMsg D)) : enqueue (s.conns m).out p =
      (s.conns m).out ++ if (s.conns m).out.length < outboundBuffer then p.toList else [] := by
    cases p <;> simp only [enqueue, Option.toList_none, Option.toList_some] <;> split <;> simp
  cases a with
  | connect c hello =>
    simp only [written, hout, State.nextOut, List.nil_append]
    split
    · exact List.nil_sublist _
    · exact List.sublist_append_left _ _
  | pump c =>
    refine List.Sublist.trans ?_ (List.sublist_append_left _ _)
    simp only [written, hout, State.nextOut]
    by_cases hc : m = c
    · simp [hc, ← List.drop_one, List.take_append_drop]
    · simp [hc, Ne.symm hc]
  | _ =>
    rw [queued_eq hs h m, hout]
    exact (hgrow _).symm ▸ List.Sublist.refl _

theorem written_received (hl : (relay cfg).Trace l s) (m : ClientId) :
    l.flatMap (written m) ++ (s.conns m).out <+ received m l := by
  induction hl with
  | nil => exact List.nil_sublist _
  | @snoc l s s' a hl h ih =>
    rw [List.flatMap_append, List.flatMap_singleton, received_snoc, List.append_assoc]
    calc l.flatMap (written m) ++ (written m ⟨s, a, s'⟩ ++ (s'.conns m).out)
      _ <+ l.flatMap (written m) ++ ((s.conns m).out ++ queued m ⟨s, a, s'⟩) :=
        (step_written (sound_of_reach hl.reach) h m).append_left _
      _ <+ received m l ++ queued m ⟨s, a, s'⟩ := by
        rw [← List.append_assoc]
        exact ih.append_right _

/-- **Delivered in order.** In every run, the texts and pieces of files that are written to `m`'s
socket as coming from `c` are among those `c`'s read loop has taken, each at most once and in the same
order; and nobody gets its own. -/
theorem delivered_in_order (hl : (relay cfg).Trace l s) (c m : ClientId) :
    (l.flatMap (written m)).filterMap (heardFrom c) <+ l.filterMap (utters c) ∧
      (l.flatMap (written c)).filterMap (heardFrom c) = [] := by
  have hreceived (d : ClientId) :
      (l.flatMap (written d)).filterMap (heardFrom c) <+ (received d l).filterMap (heardFrom c) :=
    ((List.sublist_append_left _ _).trans (written_received hl d)).filterMap _
  refine ⟨(hreceived m).trans ((List.sublist_append_left _ _).trans (spoken hl c m)), ?_⟩
  exact List.sublist_nil.mp (no_echo hl c ▸ hreceived c)

end

end E2EAnon.Relay
