import E2EAnon.Lib.History
import E2EAnon.Relay.Refine

/-!
# Invite-only, single-use admission (`invites.go`, `server.go:153-284`, `383-393`)

The right to enter goes through four stores: the invites map, the joiner loop's local room, its
handshake and the room itself. `Admission` follows it through the history: an invite in the map was
issued on a request whose check found its author to be the owner; a joiner has redeemed a token for
the room it is on its way to; a redeemed token is out of the map and is never drawn again.
-/

namespace E2EAnon.Relay

open Lib

variable {D : Type} {cfg : Config}

/-- The events of `o`'s requests for invites. -/
def Event.invites (o : ClientId) : Event → Bool
  | .inviteChecked c _ _ | .inviteCreated c _ _ _ => c = o
  | _ => false

/-- `tok` was issued for `r`, with expiry `exp`, to a client whom the check of that very request
found to be the owner of `r`. -/
def Issued (log : List Event) (tok : Handle) (r : RoomId) (exp : Int) : Prop :=
  ∃ o l, Past log (.inviteCreated o r tok exp) l ∧
    l.find? (·.invites o) = some (.inviteChecked o r o)

theorem Issued.cons {log : List Event} {tok : Handle} {r : RoomId} {exp : Int}
    (h : Issued log tok r exp) (e : Event) : Issued (e :: log) tok r exp := by
  obtain ⟨o, l, hl, hf⟩ := h
  exact ⟨o, l, hl.cons e, hf⟩

/-- An invite just created, after its check. -/
theorem Issued.head {log : List Event} {o : ClientId} {r : RoomId}
    (h : log.find? (·.invites o) = some (.inviteChecked o r o)) (tok : Handle) (exp : Int) :
    Issued (.inviteCreated o r tok exp :: log) tok r exp :=
  ⟨o, log, by simp, h⟩

/-- Before the claim, or on the way to create a room, or at `RedeemInvite`. -/
def Phase.early : Phase D → Bool
  | .absent | .hello | .creating | .opening _ | .redeeming => true
  | _ => false

structure Admission (f : Floor D) : Prop where
  member : ∀ r c, c ∈ (f.room r).members → .added c r ∈ f.log
  added : ∀ c r l, Past f.log (.added c r) l →
    .created c r ∈ l ∨ ∃ tok now, .redeemed c r tok now ∈ l
  opening : ∀ c r, f.phase c = .opening r → .created c r ∈ f.log
  joiner : ∀ c r, f.phase c = .joiner r → ∃ tok now, .redeemed c r tok now ∈ f.log
  redeemed : ∀ c r tok now l, Past f.log (.redeemed c r tok now) l →
    ∃ exp, now ≤ exp ∧ Issued l tok r exp
  invites : ∀ tok inv, f.invites tok = some inv →
    tok ∈ f.drawn ∧ Issued f.log tok inv.room inv.expiresAt
  spent : ∀ c r tok now, .redeemed c r tok now ∈ f.log → f.invites tok = none ∧ tok ∈ f.drawn
  once : ∀ c r tok now c' r' now', .redeemed c r tok now ∈ f.log →
    .redeemed c' r' tok now' ∈ f.log → c = c' ∧ r = r'
  single : ∀ c r tok now r' tok' now', .redeemed c r tok now ∈ f.log →
    .redeemed c r' tok' now' ∈ f.log → tok = tok'
  late : ∀ c r tok now, .redeemed c r tok now ∈ f.log → (f.phase c).early = false
  checked : ∀ c r, f.phase c = .acting r .invite →
    f.log.find? (·.invites c) = some (.inviteChecked c r c)

namespace Admission

variable {may : May} {f f' : Floor D}

theorem member_move (h : Admission f) (hm : Move cfg may f f') :
    ∀ r c, c ∈ (f'.room r).members → .added c r ∈ f'.log := by
  have member := h.member
  cases hm <;> first | exact member | skip
  all_goals
    intro r c hc
    simp only [Floor.goto, Floor.setRoom, Floor.note, Floor.close, Floor.addRoom, Floor.dropRoom,
      Floor.closeRoom, Function.update_apply] at hc ⊢
    grind -ring -linarith

theorem added_move (h : Admission f) (hm : Move cfg may f f') :
    ∀ c r l, Past f'.log (.added c r) l →
      .created c r ∈ l ∨ ∃ tok now, .redeemed c r tok now ∈ l := by
  have added := h.added
  have opening := h.opening
  have joiner := h.joiner
  cases hm <;> first | exact added | skip
  all_goals
    intro c r l hl
    simp only [Floor.goto, Floor.setRoom, Floor.note, Floor.close, past_cons] at hl ⊢
    grind -ring -linarith

theorem opening_move (h : Admission f) (hm : Move cfg may f f') :
    ∀ c r, f'.phase c = .opening r → .created c r ∈ f'.log := by
  have opening := h.opening
  cases hm <;> first | exact opening | skip
  all_goals
    intro c r hc
    simp only [Floor.goto, Floor.setRoom, Floor.note, Floor.close, Function.update_apply] at hc ⊢
    grind -ring -linarith

theorem joiner_move (h : Admission f) (hm : Move cfg may f f') :
    ∀ c r, f'.phase c = .joiner r → ∃ tok now, .redeemed c r tok now ∈ f'.log := by
  have joiner := h.joiner
  cases hm <;> first | exact joiner | skip
  all_goals
    intro c r hc
    simp only [Floor.goto, Floor.setRoom, Floor.note, Floor.close, Function.update_apply] at hc ⊢
    grind -ring -linarith

theorem redeemed_move (h : Admission f) (hm : Move cfg may f f') :
    ∀ c r tok now l, Past f'.log (.redeemed c r tok now) l →
      ∃ exp, now ≤ exp ∧ Issued l tok r exp := by
  have redeemed := h.redeemed
  have invites := h.invites
  cases hm <;> first | exact redeemed | skip
  all_goals
    intro c r tok now l hl
    simp only [Floor.goto, Floor.setRoom, Floor.note, Floor.close, past_cons] at hl ⊢
    grind -ring -linarith

theorem invites_move (h : Admission f) (hm : Move cfg may f f') :
    ∀ tok inv, f'.invites tok = some inv →
      tok ∈ f'.drawn ∧ Issued f'.log tok inv.room inv.expiresAt := by
  have invites := h.invites
  have checked := h.checked
  cases hm <;> first | exact invites | skip
  all_goals
    intro tok inv ht
    simp only [Floor.goto, Floor.setRoom, Floor.note, Floor.close, Function.update_apply] at ht ⊢
    grind -ring -linarith [← Issued.cons, ← Issued.head, Option.filter_eq_some_iff]

theorem spent_move (h : Admission f) (hm : Move cfg may f f') :
    ∀ c r tok now, .redeemed c r tok now ∈ f'.log → f'.invites tok = none ∧ tok ∈ f'.drawn := by
  have spent := h.spent
  have invites := h.invites
  cases hm <;> first | exact spent | skip
  all_goals
    intro c r tok now hl
    simp only [Floor.goto, Floor.setRoom, Floor.note, Floor.close, Function.update_apply] at hl ⊢
    grind -ring -linarith

theorem once_move (h : Admission f) (hm : Move cfg may f f') :
    ∀ c r tok now c' r' now', .redeemed c r tok now ∈ f'.log →
      .redeemed c' r' tok now' ∈ f'.log → c = c' ∧ r = r' := by
  have once := h.once
  have spent := h.spent
  cases hm <;> first | exact once | skip
  all_goals
    intro c r tok now c' r' now' hl hl'
    simp only [Floor.goto, Floor.setRoom, Floor.note, Floor.close] at hl hl' ⊢
    grind -ring -linarith

theorem single_move (h : Admission f) (hm : Move cfg may f f') :
    ∀ c r tok now r' tok' now', .redeemed c r tok now ∈ f'.log →
      .redeemed c r' tok' now' ∈ f'.log → tok = tok' := by
  have single := h.single
  have late := h.late
  cases hm <;> first | exact single | skip
  all_goals
    intro c r tok now r' tok' now' hl hl'
    simp only [Floor.goto, Floor.setRoom, Floor.note, Floor.close] at hl hl' ⊢
    grind -ring -linarith [Phase.early]

theorem late_move (h : Admission f) (hi : Inv cfg f) (hm : Move cfg may f f') :
    ∀ c r tok now, .redeemed c r tok now ∈ f'.log → (f'.phase c).early = false := by
  have late := h.late
  have drawn := hi.drawn
  cases hm <;> first | exact late | skip
  all_goals
    intro c r tok now hl
    simp only [Floor.goto, Floor.setRoom, Floor.note, Floor.close, Function.update_apply] at hl ⊢
    grind -ring -linarith [Phase.early]

theorem checked_move (h : Admission f) (hm : Move cfg may f f') :
    ∀ c r, f'.phase c = .acting r .invite →
      f'.log.find? (·.invites c) = some (.inviteChecked c r c) := by
  have checked := h.checked
  cases hm <;> first | exact checked | skip
  all_goals
    intro c r hc
    simp only [Floor.goto, Floor.setRoom, Floor.note, Floor.close, Function.update_apply,
      List.find?_cons] at hc ⊢
    grind -ring -linarith [Event.invites]

theorem move (h : Admission f) (hi : Inv cfg f) (hm : Move cfg may f f') : Admission f' where
  member := h.member_move hm
  added := h.added_move hm
  opening := h.opening_move hm
  joiner := h.joiner_move hm
  redeemed := h.redeemed_move hm
  invites := h.invites_move hm
  spent := h.spent_move hm
  once := h.once_move hm
  single := h.single_move hm
  late := h.late_move hi hm
  checked := h.checked_move hm

theorem init : Admission ({} : State D).floor := by
  constructor <;> simp [State.floor, Pc.phase]

end Admission

variable [Payload D] {ok : State D → Act D → Prop} {s : State D}

theorem admission_of_reach (hr : (relay (D := D) cfg).Reach ok s) : Admission s.floor :=
  hr.invariant (I := fun s => Admission s.floor) Admission.init fun _ _ _ hr' h _ hstep =>
    h.move (sound_of_reach hr').inv ((sound_of_reach hr').step_move hstep)

/-- **Invite-only, single-use admission.** Whoever was added to a room had created it, or had
redeemed, no later than its expiry, a token issued for that room on a request of its owner; a token
is redeemed by one client and for one room, and a client redeems one token. -/
theorem invite_only_admission (hr : (relay (D := D) cfg).Reach Machine.Any s) :
    (∀ r c, c ∈ (s.room r).members → .added c r ∈ s.log) ∧
    (∀ c r l, Past s.log (.added c r) l → .created c r ∈ l ∨
      ∃ tok now l', Past l (.redeemed c r tok now) l' ∧
        ∃ exp, now ≤ exp ∧ Issued l' tok r exp) ∧
    (∀ c r tok now c' r' tok' now', .redeemed c r tok now ∈ s.log →
      .redeemed c' r' tok' now' ∈ s.log → (c = c' ↔ tok = tok') ∧ (tok = tok' → r = r')) := by
  have h := admission_of_reach hr
  refine ⟨h.member, fun c r l hl => ?_, fun c r tok now c' r' tok' now' h₁ h₂ => ⟨⟨?_, ?_⟩, ?_⟩⟩
  · refine (h.added c r l hl).imp_right fun ⟨tok, now, hred⟩ => ?_
    obtain ⟨l', hl'⟩ := exists_past_of_mem hred
    exact ⟨tok, now, l', hl', h.redeemed c r tok now l' (hl.trans hl')⟩
  · rintro rfl
    exact h.single c r tok now r' tok' now' h₁ h₂
  · rintro rfl
    exact (h.once c r tok now c' r' now' h₁ h₂).1
  · rintro rfl
    exact (h.once c r tok now c' r' now' h₁ h₂).2

/-- Client 2 has been let in on a token that client 1 had asked for. -/
theorem invite_only_admission_sample :
    let s := (((relay sampleConfig).stepsFrom {} sampleEntered).get entered_some).2
    ∃ l tok now l', Past s.log (.added 2 100) l ∧ Past l (.redeemed 2 100 tok now) l' ∧
      ∃ exp, now ≤ exp ∧ Issued l' tok 100 exp := by
  have h := invite_only_admission (Machine.trace_get entered_some).reach
  obtain ⟨l, hl⟩ := exists_past_of_mem (h.1 100 2 (by decide +kernel))
  have hno : .created 2 100 ∉
      (((relay sampleConfig).stepsFrom {} sampleEntered).get entered_some).2.log := by
    decide +kernel
  have hpast := (h.2.1 2 100 l hl).resolve_left fun hc =>
    hno (List.IsSuffix.subset hl (List.mem_cons_of_mem _ hc))
  obtain ⟨tok, now, l', hl', hexp⟩ := hpast
  exact ⟨l, tok, now, l', hl, hl', hexp⟩

end E2EAnon.Relay
