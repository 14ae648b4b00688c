import E2EAnon.Lib.Json
import E2EAnon.Web.Codec

/-!
# `HandshakeSession.onData` on any text (`web/src/handshake.ts:42-111`)

| here | there |
| --- | --- |
| `field`      | `f.t`, `f.d`: throws on `null`, `none` inside is `undefined` |
| `domString`  | what `atob` makes of its argument |
| `payload`    | the call `onData` makes for a text (`handshake.ts:45-52`) |
| `onDataStr`  | `onData` |

`none` is an exception that leaves `onData`. Only `JSON.parse` and `finish` stand in a `try`: a text
that is `null`, or that says it is a point or a confirmation and has no base64 in `d`, throws
(`onData_settles`). `String` of a number is a parameter.
-/

namespace E2EAnon.Web

open Lib

variable (numberText : JsString → JsString)

/-! ## A payload -/

def field (f : Json) (name : String) : Option (Option Json) :=
  match f with
  | .null => none
  | .obj kvs => some (Json.property kvs (JsString.lit name))
  | _ => some none

def domString : Option Json → Option JsString
  | none => some (JsString.lit "undefined")
  | some v => v.toText numberText

/-- `handshake.ts:106`. -/
def unb64 (s : Option Json) : Option Bytes := (domString numberText s).bind Ciphers.b64ToBytes

/-- `v === name`. -/
def isText (name : String) : Option Json → Bool
  | some (.str s) => s = JsString.lit name
  | _ => false

/-- `handshake.ts:96`. -/
def frame (t : String) (b : Bytes) : Option JsString := do
  let d ← Ciphers.bytesToB64 b
  some (Json.stringify [(JsString.lit "t", .str (JsString.lit t)), (JsString.lit "d", .str d)])

namespace Noble

variable {G : Type} [AddCommGroup G] (C : Noble G)

/-- `some none` where no handler is called. -/
def payload (dataStr : JsString) : Option (Option (PakeFrame C.pake)) :=
  match Json.parse dataStr with
  | none => some none
  | some f => do
    let t ← field f "t"
    if isText "m" t then
      let d ← unb64 numberText (← field f "d")
      some (some (.m d))
    else if isText "c" t then
      let d ← unb64 numberText (← field f "d")
      some (some (.c d))
    else some none

def onDataStr (h : Exchange C.pake) (dataStr : JsString) :
    Option (Exchange C.pake × Option C.pake.Mac × Callback C.pake) :=
  if h.done then some (h, none, .none) else (C.payload numberText dataStr).map h.onData

/-- The session after the texts `ds`; an exception leaves it as it was. -/
def after (h : Exchange C.pake) (ds : List JsString) : Exchange C.pake :=
  ds.foldl (fun h d => ((C.onDataStr numberText h d).map (·.1)).getD h) h

/-- The callbacks on the way. -/
def callbacks : Exchange C.pake → List JsString → List (Callback C.pake)
  | _, [] => []
  | h, d :: ds =>
    match C.onDataStr numberText h d with
    | none => callbacks h ds
    | some (h, _, v) => v.made ++ callbacks h ds

/-! ## Outcomes -/

/-- What a call that returns has done: the session after it, the confirmation it sent, and the
callback it made. -/
inductive Settled (h : Exchange C.pake) :
    Exchange C.pake × Option C.pake.Mac × Callback C.pake → Prop
  | unchanged : Settled h (h, none, .none)
  | recorded (d : Bytes) (r : Result) : h.result = none → h.pendingPeerConfirm = none →
      C.finish h.state d = some r → Settled h ({ h with result := some r }, some r.confirm, .none)
  | parked (pc : Bytes) : h.result = none →
      Settled h ({ h with pendingPeerConfirm := some pc }, none, .none)
  | confirmed (h' : Exchange C.pake) (c : Option Bytes) (r : Result) (pc : Bytes) :
      h.done = false → h'.done = true → h'.result = some r → r.verifyPeer pc = true →
        Settled h (h', c, .confirmed r.ke)
  | failed (h' : Exchange C.pake) (c : Option Bytes) : h.done = false → h'.done = true →
      Settled h (h', c, .failed)

variable {C} {numberText} {h h' : Exchange C.pake}

theorem settled_verify {r : Result} (hd : h.done = false) (hd' : h'.done = false)
    (hr : h'.result = some r) (c : Option Bytes) (pc : Bytes) :
    C.Settled h ((h'.verify pc).1, c, (h'.verify pc).2) := by
  obtain ⟨st, res, pend, done⟩ := h'
  obtain rfl : done = false := hd'
  obtain rfl : res = some r := hr
  cases hv : C.pake.verifyPeer r pc with
  | true =>
    simp only [Exchange.verify, hv, if_true]
    exact .confirmed _ c r pc hd rfl rfl hv
  | false =>
    simp only [Exchange.verify, hv, Bool.false_eq_true, if_false, Exchange.fail]
    exact .failed _ c hd rfl

theorem settled_handlePoint (hd : h.done = false) (d : Bytes) : C.Settled h (h.handlePoint d) := by
  obtain ⟨st, res, pend, done⟩ := h
  obtain rfl : done = false := hd
  cases res with
  | some r => exact .unchanged
  | none =>
    cases hfin : C.pake.finish st d with
    | none =>
      simp only [Exchange.handlePoint, hfin, Exchange.fail]
      exact .failed _ none rfl rfl
    | some r =>
      simp only [Exchange.handlePoint, hfin]
      cases pend with
      | none => exact .recorded d r rfl rfl hfin
      | some pc => exact settled_verify rfl rfl rfl (some r.confirm) pc

theorem settled_handleConfirm (hd : h.done = false) (pc : Bytes) :
    C.Settled h ((h.handleConfirm pc).1, none, (h.handleConfirm pc).2) := by
  obtain ⟨st, res, pend, done⟩ := h
  obtain rfl : done = false := hd
  cases res with
  | some r => exact settled_verify rfl rfl rfl none pc
  | none => exact .parked pc rfl

theorem settled_onData (h : Exchange C.pake) (f : Option (PakeFrame C.pake)) :
    C.Settled h (h.onData f) := by
  cases hd : h.done with
  | true =>
    rw [Exchange.onData_done hd]
    exact .unchanged
  | false =>
    simp only [Exchange.onData, hd, Bool.false_eq_true, if_false]
    cases f with
    | none => exact .unchanged
    | some f =>
      cases f with
      | m d => exact settled_handlePoint hd d
      | c pc => exact settled_handleConfirm hd pc

/-- A call that calls back is the last that does anything. -/
theorem Settled.made {out : Exchange C.pake × Option C.pake.Mac × Callback C.pake} (hs : C.Settled h out) :
    out.2.2.made = [] ∨ out.2.2.made.length = 1 ∧ h.done = false ∧ out.1.done = true := by
  cases hs with
  | unchanged => exact Or.inl rfl
  | recorded => exact Or.inl rfl
  | parked => exact Or.inl rfl
  | confirmed h' c r pc hd hd' => exact Or.inr ⟨rfl, hd, hd'⟩
  | failed h' c hd hd' => exact Or.inr ⟨rfl, hd, hd'⟩

theorem onDataStr_settled {dataStr : JsString}
    {out : Exchange C.pake × Option C.pake.Mac × Callback C.pake}
    (ho : C.onDataStr numberText h dataStr = some out) : C.Settled h out := by
  unfold onDataStr at ho
  split at ho
  · cases ho
    exact .unchanged
  · obtain ⟨f, -, rfl⟩ := Option.map_eq_some_iff.mp ho
    exact settled_onData h f

theorem callbacks_length (ds : List JsString) (h : Exchange C.pake) :
    (h.done = true → C.callbacks numberText h ds = []) ∧ (C.callbacks numberText h ds).length ≤ 1 := by
  induction ds generalizing h with
  | nil => exact ⟨fun _ => rfl, Nat.zero_le 1⟩
  | cons d ds ih =>
    unfold callbacks
    split
    · exact ih h
    · rename_i h' c v ho
      obtain ⟨hsilent, hone⟩ := ih h'
      have hdone : h.done = true → h' = h ∧ v = .none := by
        intro hd
        rw [onDataStr, if_pos hd] at ho
        cases ho
        exact ⟨rfl, rfl⟩
      refine ⟨fun hd => ?_, ?_⟩
      · obtain ⟨rfl, rfl⟩ := hdone hd
        exact hsilent hd
      · obtain hnone | ⟨hlen, -, hd'⟩ := (onDataStr_settled ho).made
        · rw [hnone]
          exact hone
        · rw [hsilent hd', List.append_nil, hlen]

/-! ## What is taken -/

/-- Either it is no JSON, or it is not `null` and has base64 in `d` if it is a point or a
confirmation. -/
def Readable (numberText : JsString → JsString) (dataStr : JsString) : Prop :=
  ∀ f, Json.parse dataStr = some f → ∃ t d, field f "t" = some t ∧ field f "d" = some d ∧
    ((isText "m" t = true ∨ isText "c" t = true) → (unb64 numberText d).isSome = true)

theorem field_isSome (f : Json) (name name' : String) :
    (field f name).isSome = (field f name').isSome := by
  cases f <;> rfl

theorem payload_isSome {dataStr : JsString} :
    (C.payload numberText dataStr).isSome = true ↔ Readable numberText dataStr := by
  unfold payload Readable
  cases hp : Json.parse dataStr with
  | none => simp
  | some f =>
    cases ht : field f "t" with
    | none => simp [ht]
    | some t =>
      have hd := field_isSome f "d" "t"
      rw [ht, Option.isSome_some] at hd
      obtain ⟨d, hd⟩ := Option.isSome_iff_exists.mp hd
      cases hu : unb64 numberText d <;> cases hm : isText "m" t <;> cases hc : isText "c" t <;>
        simp [ht, hd, hu, hm, hc]

/-- **What `onData` does with any text, in any state of a session**: it returns and settles exactly
if the session is done or the text can be read, and in its life the session calls back at most
once. -/
theorem onData_settles (st : State) (ds : List JsString) (dataStr : JsString) :
    ((∃ out, C.onDataStr numberText (C.after numberText { state := st } ds) dataStr = some out ∧
        C.Settled (C.after numberText { state := st } ds) out) ↔
      (C.after numberText { state := st } ds).done = true ∨ Readable numberText dataStr) ∧
    (C.callbacks numberText { state := st } (ds ++ [dataStr])).length ≤ 1 := by
  refine ⟨?_, (callbacks_length _ _).2⟩
  generalize C.after numberText { state := st } ds = h
  constructor
  · rintro ⟨out, ho, -⟩
    unfold onDataStr at ho
    split at ho
    · exact Or.inl ‹_›
    · obtain ⟨f, hf, -⟩ := Option.map_eq_some_iff.mp ho
      exact Or.inr (payload_isSome.mp (Option.isSome_of_eq_some hf))
  · intro hr
    obtain ⟨out, ho⟩ : ∃ out, C.onDataStr numberText h dataStr = some out := by
      unfold onDataStr
      split
      · exact ⟨_, rfl⟩
      · rename_i hd
        obtain ⟨f, hf⟩ := Option.isSome_iff_exists.mp
          (payload_isSome (C := C).mpr (hr.resolve_left hd))
        exact ⟨h.onData f, by rw [hf, Option.map_some]⟩
    exact ⟨out, ho, onDataStr_settled ho⟩

def sampleState : State :=
  { role := .A, scalar := 4, w := 4, own := [1], idA := [1], idB := [2], aad := [] }

def sampleSession : Exchange small.pake := { state := sampleState }

/-- A `null`, and a point without a `d`, on a new session. -/
theorem onData_throws :
    onDataStr id small sampleSession (JsString.lit "null") = none ∧
    onDataStr id small sampleSession (JsString.lit "\x7b\"t\":\"m\"\x7d") = none :=
  ⟨rfl, rfl⟩

/-- The frames of a session can be read. -/
theorem payload_frame (b : Bytes) : ∃ m c, frame "m" b = some m ∧ frame "c" b = some c ∧
    C.payload numberText m = some (some (.m b)) ∧ C.payload numberText c = some (some (.c b)) := by
  have hb := Ciphers.bytesToB64_eq b
  have hparse : ∀ t : String, Json.parse (Json.stringify [(JsString.lit "t", .str (JsString.lit t)),
      (JsString.lit "d", .str (Base64.encode b))]) =
        some (.obj [(JsString.lit "t", .str (JsString.lit t)),
          (JsString.lit "d", .str (Base64.encode b))]) := fun t =>
    Json.parse_stringify [(JsString.lit "t", JsString.lit t), (JsString.lit "d", Base64.encode b)]
  have hne : JsString.lit "d" ≠ JsString.lit "t" := by decide +kernel
  have hcm : JsString.lit "c" ≠ JsString.lit "m" := by decide +kernel
  have hd : unb64 numberText (some (.str (Base64.encode b))) = some b := by
    rw [unb64, domString, Json.toText, Option.bind_some, Ciphers.b64ToBytes_encode]
  refine ⟨_, _, by rw [frame, hb]; rfl, by rw [frame, hb]; rfl, ?_, ?_⟩
  · simp [payload, hparse, field, Json.property, hne, isText, hd]
  · simp [payload, hparse, field, Json.property, hne, isText, hd, hcm]

end Noble
end E2EAnon.Web
