import Mathlib.Data.List.Basic
import E2EAnon.Web.Crypto

/-!
# A handshake session over any PAKE (`web/src/handshake.ts`)

`Pake` is what `HandshakeSession` uses of `spake2.ts`; `Exchange` is the class over it. An object is
driven by its constructor and by `onData` alone, so what it does in its life is a list of calls
(`calls`). `one_shot`: whatever the peer sends, in any order, `finish` succeeds at most once and
`verifyPeer` is evaluated at most once; that evaluation ends in one callback, and no call after it
sends anything or calls back.

`HandshakeSession.exchange` is the session of `Crypto.lean` as such an object.
-/

namespace E2EAnon.Web

/-- What `handshake.ts` takes from `spake2.ts`; `finish` is `none` where it throws. -/
structure Pake where
  State      : Type
  Result     : Type
  Point      : Type
  Mac        : Type
  Key        : Type
  finish     : State → Point → Option Result
  confirm    : Result → Mac
  verifyPeer : Result → Mac → Bool
  ke         : Result → Key

/-- A `pake` payload: `t` is "m" or "c". -/
inductive PakeFrame (P : Pake)
  | m (d : P.Point)
  | c (d : P.Mac)

/-- The callback a call ends in. -/
inductive Callback (P : Pake)
  | none
  | confirmed (ke : P.Key)
  | failed

/-- `HandshakeSession`. -/
structure Exchange (P : Pake) where
  state              : P.State
  result             : Option P.Result := none
  pendingPeerConfirm : Option P.Mac := none
  done               : Bool := false

namespace Exchange

variable {P : Pake}

def fail (h : Exchange P) : Exchange P × Callback P :=
  if h.done then (h, .none) else ({ h with done := true }, .failed)

def verify (h : Exchange P) (peerConfirm : P.Mac) : Exchange P × Callback P :=
  match h.result with
  | none => (h, .none)
  | some r =>
    if P.verifyPeer r peerConfirm then ({ h with done := true }, .confirmed (P.ke r)) else h.fail

def handleConfirm (h : Exchange P) (peerConfirm : P.Mac) : Exchange P × Callback P :=
  match h.result with
  | none => ({ h with pendingPeerConfirm := some peerConfirm }, .none)
  | some _ => h.verify peerConfirm

/-- The new state, the confirmation sent, the callback. -/
def handlePoint (h : Exchange P) (peerPoint : P.Point) : Exchange P × Option P.Mac × Callback P :=
  match h.result with
  | some _ => (h, none, .none)
  | none =>
    match P.finish h.state peerPoint with
    | none => let (h, v) := h.fail; (h, none, v)
    | some r =>
      let h := { h with result := some r }
      match h.pendingPeerConfirm with
      | none => (h, some (P.confirm r), .none)
      | some pc =>
        let (h, v) := { h with pendingPeerConfirm := none }.verify pc
        (h, some (P.confirm r), v)

/-- `onData`; a payload that does not parse is `none`. -/
def onData (h : Exchange P) (f : Option (PakeFrame P)) : Exchange P × Option P.Mac × Callback P :=
  if h.done then (h, none, .none)
  else match f with
    | some (.m d) => h.handlePoint d
    | some (.c d) => let (h, v) := h.handleConfirm d; (h, none, v)
    | none => (h, none, .none)

/-! ## What a call computes -/

/-- The call computes `finish`, and it does not throw. -/
def finishes (h : Exchange P) : Option (PakeFrame P) → Bool
  | some (.m d) => !h.done && h.result.isNone && (P.finish h.state d).isSome
  | _ => false

/-- The call evaluates `verifyPeer`. -/
def verifies (h : Exchange P) : Option (PakeFrame P) → Bool
  | some (.m d) => h.finishes (some (.m d)) && h.pendingPeerConfirm.isSome
  | some (.c _) => !h.done && h.result.isSome
  | none => false

/-- The state after the calls. -/
def feed (h : Exchange P) (fs : List (Option (PakeFrame P))) : Exchange P :=
  fs.foldl (fun h f => (h.onData f).1) h

/-- The calls, each with the state it finds. -/
def calls : Exchange P → List (Option (PakeFrame P)) →
    List (Exchange P × Option (PakeFrame P))
  | _, [] => []
  | h, f :: fs => (h, f) :: calls (h.onData f).1 fs

variable {h : Exchange P} {f : Option (PakeFrame P)}

theorem onData_done (hd : h.done = true) : h.onData f = (h, none, .none) := by
  simp [onData, hd]

theorem feed_done (hd : h.done = true) (fs : List (Option (PakeFrame P))) : h.feed fs = h := by
  induction fs with
  | nil => rfl
  | cons f fs ih => simpa [feed, onData_done hd] using ih

/-- A result stays. -/
theorem onData_result (hr : h.result.isSome = true) : ((h.onData f).1).result = h.result := by
  obtain ⟨r, hr⟩ := Option.isSome_iff_exists.mp hr
  unfold onData
  split
  · rfl
  · split
    · simp [handlePoint, hr]
    · simp only [handleConfirm, hr, verify, fail]
      repeat' split
      all_goals rfl
    · rfl

theorem onData_finishes (hf : h.finishes f = true) : ((h.onData f).1).result.isSome = true := by
  unfold finishes at hf
  split at hf
  · rename_i d
    simp only [Bool.and_eq_true, Bool.not_eq_true', Option.isNone_iff_eq_none] at hf
    obtain ⟨⟨hd, hr⟩, hfin⟩ := hf
    obtain ⟨r, hfin⟩ := Option.isSome_iff_exists.mp hfin
    simp only [onData, hd, Bool.false_eq_true, if_false, handlePoint, hr, hfin]
    split
    · rfl
    · simp only [verify, fail]
      split
      · rfl
      · split <;> rfl
  · simp at hf

/-- `verifyPeer` is evaluated on a session that is not done, and the call ends in a callback. -/
theorem onData_verifies (hv : h.verifies f = true) :
    h.done = false ∧ (h.onData f).1.done = true ∧ (h.onData f).2.2 ≠ .none := by
  have hverify : ∀ (h : Exchange P) (r : P.Result) (pc : P.Mac), h.done = false →
      h.result = some r → (h.verify pc).1.done = true ∧ (h.verify pc).2 ≠ .none := by
    intro h r pc hd hr
    simp only [verify, hr]
    split
    · simp
    · simp [fail, hd]
  unfold verifies at hv
  split at hv
  · rename_i d
    simp only [finishes, Bool.and_eq_true, Bool.not_eq_true', Option.isNone_iff_eq_none] at hv
    obtain ⟨⟨⟨hd, hr⟩, hfin⟩, hpc⟩ := hv
    obtain ⟨r, hfin⟩ := Option.isSome_iff_exists.mp hfin
    obtain ⟨pc, hpc⟩ := Option.isSome_iff_exists.mp hpc
    refine ⟨hd, ?_⟩
    simp only [onData, hd, Bool.false_eq_true, if_false, handlePoint, hr, hfin, hpc]
    exact hverify _ r pc rfl rfl
  · simp only [Bool.and_eq_true, Bool.not_eq_true'] at hv
    obtain ⟨r, hr⟩ := Option.isSome_iff_exists.mp hv.2
    refine ⟨hv.1, ?_⟩
    simp only [onData, hv.1, Bool.false_eq_true, if_false, handleConfirm, hr]
    exact hverify h r _ hv.1 hr
  · simp at hv

/-! ## A life -/

theorem calls_finishes (fs : List (Option (PakeFrame P))) :
    ∀ h : Exchange P, (h.result.isSome = true → (h.calls fs).countP (fun p => p.1.finishes p.2) = 0) ∧
      (h.calls fs).countP (fun p => p.1.finishes p.2) ≤ 1 := by
  induction fs with
  | nil => simp [calls]
  | cons f fs ih =>
    intro h
    obtain ⟨hzero, hone⟩ := ih (h.onData f).1
    simp only [calls, List.countP_cons]
    refine ⟨fun hr => ?_, ?_⟩
    · have hno : h.finishes f = false := by
        unfold finishes
        split
        · cases hres : h.result <;> simp_all
        · rfl
      simp [hno, hzero (by rw [onData_result hr]; exact hr)]
    · cases hf : h.finishes f with
      | false => simpa [hf] using hone
      | true => simp [hzero (onData_finishes hf)]

theorem calls_verifies (fs : List (Option (PakeFrame P))) :
    ∀ h : Exchange P, (h.done = true → (h.calls fs).countP (fun p => p.1.verifies p.2) = 0) ∧
      (h.calls fs).countP (fun p => p.1.verifies p.2) ≤ 1 := by
  induction fs with
  | nil => simp [calls]
  | cons f fs ih =>
    intro h
    obtain ⟨hzero, hone⟩ := ih (h.onData f).1
    simp only [calls, List.countP_cons]
    cases hv : h.verifies f with
    | false =>
      refine ⟨fun hd => ?_, by simpa using hone⟩
      simpa using hzero (by rw [onData_done hd]; exact hd)
    | true =>
      obtain ⟨hd, hdone, -⟩ := onData_verifies hv
      simp [hd, hzero hdone]

/-- What an object does in its life, whatever it is sent. -/
structure OneShot (h : Exchange P) (fs : List (Option (PakeFrame P))) : Prop where
  finish : (h.calls fs).countP (fun p => p.1.finishes p.2) ≤ 1
  verify : (h.calls fs).countP (fun p => p.1.verifies p.2) ≤ 1
  /-- The evaluation ends in a callback; the calls after it do nothing. -/
  silent : ∀ fs₁ f fs₂ f', fs = fs₁ ++ f :: (fs₂ ++ [f']) → (h.feed fs₁).verifies f = true →
    ((h.feed fs₁).onData f).2.2 ≠ .none ∧
      ((h.feed (fs₁ ++ f :: fs₂)).onData f').2 = (none, .none)

/-- **One guess for each session.** -/
theorem one_shot (h : Exchange P) (fs : List (Option (PakeFrame P))) : h.OneShot fs := by
  refine ⟨(calls_finishes fs h).2, (calls_verifies fs h).2, ?_⟩
  rintro fs₁ f fs₂ f' - hv
  obtain ⟨-, hdone, hcall⟩ := onData_verifies hv
  have hfeed : h.feed (fs₁ ++ f :: fs₂) = ((h.feed fs₁).onData f).1 := by
    simp only [feed, List.foldl_append, List.foldl_cons]
    exact feed_done hdone fs₂
  exact ⟨hcall, by rw [hfeed, onData_done hdone]⟩

end Exchange

/-! ## The symbolic session -/

/-- `spake2.ts` as `Crypto.lean` idealises it. -/
def symbolicPake : Pake where
  State := Spake2State
  Result := Spake2Result
  Point := Data
  Mac := Data
  Key := Data
  finish := finish
  confirm := Spake2Result.confirm
  verifyPeer r pc := pc = r.peerConfirm
  ke := Spake2Result.ke

def parsePake : Data → Option (PakeFrame symbolicPake)
  | .pair (.const .pakeM) d => some (.m d)
  | .pair (.const .pakeC) d => some (.c d)
  | _ => none

def Verdict.callback : Verdict → Callback symbolicPake
  | .none => .none
  | .confirmed ke => .confirmed ke
  | .failed => .failed

namespace HandshakeSession

def exchange (h : HandshakeSession) : Exchange symbolicPake :=
  { state := h.state, result := h.result, pendingPeerConfirm := h.pendingPeerConfirm, done := h.done }

def feed (h : HandshakeSession) (ds : List Data) : HandshakeSession :=
  ds.foldl (fun h d => (h.onData d).1) h

theorem feed_append (h : HandshakeSession) (ds ds' : List Data) :
    h.feed (ds ++ ds') = (h.feed ds).feed ds' := List.foldl_append

theorem exchange_fail (h : HandshakeSession) :
    h.exchange.fail = (h.fail.1.exchange, h.fail.2.callback) := by
  cases hd : h.done <;> simp [Exchange.fail, fail, exchange, hd, Verdict.callback]

theorem exchange_verify (h : HandshakeSession) (pc : Data) :
    h.exchange.verify pc = ((h.verify pc).1.exchange, (h.verify pc).2.callback) := by
  cases hr : h.result with
  | none => simp [Exchange.verify, verify, exchange, hr, Verdict.callback]
  | some r =>
    have hx : h.exchange.result = some r := hr
    have hv : symbolicPake.verifyPeer r pc = decide (pc = r.peerConfirm) := rfl
    simp only [Exchange.verify, hx, hv, verify, hr, decide_eq_true_eq]
    split
    · rfl
    · exact exchange_fail h

theorem exchange_handleConfirm (h : HandshakeSession) (pc : Data) : h.exchange.handleConfirm pc =
    ((h.handleConfirm pc).1.exchange, (h.handleConfirm pc).2.callback) := by
  cases hr : h.result with
  | none =>
    have hx : h.exchange.result = none := hr
    simp only [Exchange.handleConfirm, hx, handleConfirm, hr]
    rfl
  | some r =>
    have hx : h.exchange.result = some r := hr
    simp only [Exchange.handleConfirm, hx, handleConfirm, hr]
    exact exchange_verify h pc

theorem exchange_handlePoint (h : HandshakeSession) (p : Data) : h.exchange.handlePoint p =
    ((h.handlePoint p).1.exchange, (h.handlePoint p).2.1, (h.handlePoint p).2.2.callback) := by
  have hfin : symbolicPake.finish h.exchange.state p = finish h.state p := rfl
  cases hr : h.result with
  | some r =>
    have hx : h.exchange.result = some r := hr
    simp only [Exchange.handlePoint, hx, handlePoint, hr]
    rfl
  | none =>
    have hx : h.exchange.result = none := hr
    simp only [Exchange.handlePoint, hx, hfin, handlePoint, hr]
    cases finish h.state p with
    | none => exact congrArg (fun x => (x.1, none, x.2)) (exchange_fail h)
    | some r =>
      cases hpc : h.pendingPeerConfirm with
      | none =>
        have hy : h.exchange.pendingPeerConfirm = none := hpc
        simp only [hy]
        rfl
      | some pc =>
        have hy : h.exchange.pendingPeerConfirm = some pc := hpc
        have hv := exchange_verify { h with result := some r, pendingPeerConfirm := none } pc
        simp only [hy]
        exact congrArg (fun x => (x.1, some r.confirm, x.2)) hv

/-- `onData` of the symbolic session is `onData` over its PAKE. -/
theorem exchange_onData (h : HandshakeSession) (d : Data) : h.exchange.onData (parsePake d) =
    ((h.onData d).1.exchange, (h.onData d).2.1, (h.onData d).2.2.callback) := by
  cases hd : h.done with
  | true =>
    have hx : h.exchange.done = true := hd
    simp only [onData, Exchange.onData, hd, hx, if_true]
    rfl
  | false =>
    have hx : h.exchange.done = false := hd
    simp only [Exchange.onData, hx, Bool.false_eq_true, if_false]
    fun_cases parsePake d with
    | case1 p =>
      simp only [onData, hd, Bool.false_eq_true, if_false]
      exact exchange_handlePoint h p
    | case2 pc =>
      simp only [onData, hd, Bool.false_eq_true, if_false]
      exact congrArg (fun x => (x.1, none, x.2)) (exchange_handleConfirm h pc)
    | case3 _ hm hc =>
      have hnone : h.onData d = (h, none, .none) := by
        unfold onData
        simp only [hd, Bool.false_eq_true, if_false]
      rw [hnone]
      rfl

theorem exchange_feed (h : HandshakeSession) (ds : List Data) :
    (h.feed ds).exchange = h.exchange.feed (ds.map parsePake) := by
  induction ds generalizing h with
  | nil => rfl
  | cons d ds ih =>
    have hstep := ih (h.onData d).1
    simpa [feed, Exchange.feed, exchange_onData h d] using hstep

end HandshakeSession
end E2EAnon.Web
