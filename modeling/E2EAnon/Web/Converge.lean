import Mathlib.Logic.Function.Basic
import E2EAnon.Lib.Machine
import E2EAnon.Web.Exchange

/-!
# The two sides of a handshake

`pair` is two sessions and the frames they have emitted. A label takes any frame that one side has
emitted at any time to the other side: frames are late, overtake each other and come twice.

`Matched` is what a PAKE promises for the two states it was started with: each finishes with the
other's message, and the two results belong together. Then where a side stands depends on nothing
but which of the two frames of its peer it has seen (`OnTrack`), and `converged` follows.
-/

namespace E2EAnon.Web

open Lib

variable {P : Pake}

def PakeFrame.isPoint : PakeFrame P → Bool
  | .m _ => true
  | .c _ => false

def PakeFrame.isConfirm : PakeFrame P → Bool
  | .m _ => false
  | .c _ => true

/-- The callbacks a call has made. -/
def Callback.made : Callback P → List (Callback P)
  | .none => []
  | v => [v]

/-- A session with the frames it has emitted, those it was given, and the callbacks it made. -/
structure Side (P : Pake) where
  session : Exchange P
  sent    : List (PakeFrame P)
  got     : List (PakeFrame P) := []
  calls   : List (Callback P) := []

namespace Side

/-- After the constructor. -/
def new (st : P.State) (message : P.Point) : Side P :=
  { session := { state := st }, sent := [.m message] }

def onData (s : Side P) (f : PakeFrame P) : Side P :=
  let (h, confirm, v) := s.session.onData (some f)
  { session := h
    sent := s.sent ++ confirm.toList.map .c
    got := s.got ++ [f]
    calls := s.calls ++ v.made }

/-- It has seen the peer's point. -/
def seenPoint (s : Side P) : Bool := s.got.any PakeFrame.isPoint

/-- It has seen the peer's confirmation. -/
def seenConfirm (s : Side P) : Bool := s.got.any PakeFrame.isConfirm

end Side

/-- Deliver to a side the `i`-th frame the other one has emitted. -/
abbrev Delivery := PakeRole × Nat

def pair (sides : PakeRole → Side P) : Machine (PakeRole → Side P) Delivery where
  init := sides
  step s d := (s d.1.other).sent[d.2]?.map fun f => Function.update s d.1 ((s d.1).onData f)

/-- The two states finish with each other's messages, and the results belong together. -/
structure Matched (state : PakeRole → P.State) (message : PakeRole → P.Point)
    (result : PakeRole → P.Result) : Prop where
  finish : ∀ r, P.finish (state r) (message r.other) = some (result r)
  verify : ∀ r, P.verifyPeer (result r) (P.confirm (result r.other)) = true
  ke     : P.ke (result .B) = P.ke (result .A)

/-- What a side has done once it has emitted its point. -/
structure Converged (ke : P.Key) (s : Side P) : Prop where
  never_fails    : .failed ∉ s.calls
  confirms_once  : s.calls.length ≤ 1
  one_confirm    : s.sent.countP PakeFrame.isConfirm = if s.seenPoint then 1 else 0
  complete       : s.seenPoint = true → s.seenConfirm = true → s.calls = [.confirmed ke]
  same_ke        : ∀ k, .confirmed k ∈ s.calls → k = ke

section
variable {state : PakeRole → P.State} {message : PakeRole → P.Point} {result : PakeRole → P.Result}
  {r : PakeRole} {s : Side P}

/-- Where the side `r` stands, by what it has seen. -/
structure OnTrack (state : PakeRole → P.State) (message : PakeRole → P.Point)
    (result : PakeRole → P.Result) (r : PakeRole) (s : Side P) : Prop where
  session : s.session = {
    state := state r
    result := if s.seenPoint then some (result r) else none
    pendingPeerConfirm := if s.seenConfirm && !s.seenPoint then some (P.confirm (result r.other))
      else none
    done := s.seenPoint && s.seenConfirm }
  sent : s.sent = .m (message r) :: if s.seenPoint then [.c (P.confirm (result r))] else []
  calls : s.calls = if s.seenPoint && s.seenConfirm then [.confirmed (P.ke (result r))] else []

theorem onTrack_new : OnTrack state message result r (.new (state r) (message r)) :=
  ⟨rfl, rfl, rfl⟩

@[simp] theorem Side.seenPoint_onData (f : PakeFrame P) :
    (s.onData f).seenPoint = (s.seenPoint || f.isPoint) := by
  simp [Side.onData, Side.seenPoint]

@[simp] theorem Side.seenConfirm_onData (f : PakeFrame P) :
    (s.onData f).seenConfirm = (s.seenConfirm || f.isConfirm) := by
  simp [Side.onData, Side.seenConfirm]

theorem Side.session_onData (f : PakeFrame P) :
    (s.onData f).session = (s.session.onData (some f)).1 := rfl

theorem Side.sent_onData (f : PakeFrame P) :
    (s.onData f).sent = s.sent ++ (s.session.onData (some f)).2.1.toList.map .c := rfl

theorem Side.calls_onData (f : PakeFrame P) :
    (s.onData f).calls = s.calls ++ (s.session.onData (some f)).2.2.made := rfl

/-- What a call does to a side is what it does to the session. -/
theorem OnTrack.call {f : PakeFrame P} (h : OnTrack state message result r s) {x : Exchange P}
    {confirm : Option P.Mac} {v : Callback P} (hcall : s.session.onData (some f) = (x, confirm, v))
    (hx : x = {
      state := state r
      result := if s.seenPoint || f.isPoint then some (result r) else none
      pendingPeerConfirm := if (s.seenConfirm || f.isConfirm) && !(s.seenPoint || f.isPoint) then
        some (P.confirm (result r.other)) else none
      done := (s.seenPoint || f.isPoint) && (s.seenConfirm || f.isConfirm) })
    (hconfirm : confirm = if !s.seenPoint && f.isPoint then some (P.confirm (result r)) else none)
    (hv : v = if (s.seenPoint || f.isPoint) && (s.seenConfirm || f.isConfirm) &&
      !(s.seenPoint && s.seenConfirm) then .confirmed (P.ke (result r)) else .none) :
    OnTrack state message result r (s.onData f) := by
  obtain ⟨-, hsent, hcalls⟩ := h
  refine ⟨?_, ?_, ?_⟩
  · rw [Side.session_onData, hcall, hx, Side.seenPoint_onData, Side.seenConfirm_onData]
  · rw [Side.sent_onData, hcall, hsent, hconfirm, Side.seenPoint_onData]
    cases s.seenPoint <;> cases f.isPoint <;> rfl
  · rw [Side.calls_onData, hcall, hcalls, hv, Side.seenPoint_onData, Side.seenConfirm_onData]
    cases s.seenPoint <;> cases s.seenConfirm <;> cases f.isPoint <;> cases f.isConfirm <;> rfl

/-- The peer's point: the first one is computed with, and a parked confirmation is verified. -/
theorem OnTrack.point (hm : Matched state message result) (h : OnTrack state message result r s) :
    OnTrack state message result r (s.onData (.m (message r.other))) := by
  have hsession := h.session
  have hfin := hm.finish r
  have hver := hm.verify r
  refine h.call (f := .m (message r.other)) (by rw [hsession]) ?_ ?_ ?_ <;>
    cases s.seenPoint <;> cases s.seenConfirm <;>
      simp [PakeFrame.isPoint, PakeFrame.isConfirm, Exchange.onData, Exchange.handlePoint,
        Exchange.verify, hfin, hver]

/-- Its confirmation: before the point it is parked, after it verified. -/
theorem OnTrack.confirm (hm : Matched state message result) (h : OnTrack state message result r s) :
    OnTrack state message result r (s.onData (.c (P.confirm (result r.other)))) := by
  have hsession := h.session
  have hver := hm.verify r
  refine h.call (f := .c (P.confirm (result r.other))) (by rw [hsession]) ?_ ?_ ?_ <;>
    cases s.seenPoint <;> cases s.seenConfirm <;>
      simp [PakeFrame.isPoint, PakeFrame.isConfirm, Exchange.onData, Exchange.handleConfirm,
        Exchange.verify, hver]

/-- Every frame a side has emitted is its point or its confirmation. -/
theorem OnTrack.mem_sent (h : OnTrack state message result r s) {f : PakeFrame P}
    (hf : f ∈ s.sent) : f = .m (message r) ∨ f = .c (P.confirm (result r)) := by
  rw [h.sent] at hf
  cases hp : s.seenPoint <;> simp_all

theorem OnTrack.converged (hm : Matched state message result)
    (h : OnTrack state message result r s) : Converged (P.ke (result .A)) s := by
  have hke : P.ke (result r) = P.ke (result .A) := by
    cases r with
    | A => rfl
    | B => exact hm.ke
  have hcalls := h.calls
  rw [hke] at hcalls
  refine ⟨?_, ?_, ?_, fun hp hc => by simpa [hp, hc] using hcalls, fun k hk => ?_⟩
  · rw [hcalls]
    split <;> simp
  · rw [hcalls]
    split <;> simp
  · rw [h.sent]
    split <;> simp [PakeFrame.isConfirm]
  · rw [hcalls] at hk
    split at hk
    · simpa using hk
    · simp at hk

/-- Whatever is delivered, in whatever order and however often. -/
theorem onTrack_of_reach (hm : Matched state message result) {sides : PakeRole → Side P}
    (h : (pair fun r => .new (state r) (message r)).Reach Machine.Any sides) (r : PakeRole) :
    OnTrack state message result r (sides r) := by
  refine h.invariant (I := fun sides => ∀ r, OnTrack state message result r (sides r))
    (fun r => onTrack_new) (fun s d s' _ ih _ hstep => ?_) r
  obtain ⟨f, hf, rfl⟩ := Option.map_eq_some_iff.mp hstep
  have hnext : OnTrack state message result d.1 ((s d.1).onData f) := by
    obtain rfl | rfl := (ih d.1.other).mem_sent (List.mem_of_getElem? hf)
    · exact (ih d.1).point hm
    · exact (ih d.1).confirm hm
  intro r
  by_cases hr : r = d.1
  · subst hr
    simpa using hnext
  · simpa [Function.update_of_ne hr] using ih r

end

end E2EAnon.Web
