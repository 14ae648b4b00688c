import Mathlib.Data.List.Count
import Mathlib.Logic.Function.Basic
import Mathlib.Tactic.Linarith

/-!
# The rate limiter (`server/internal/ratelimit/ratelimit.go`)

| here | there |
| --- | --- |
| `Bucket`, `Limiter` | `bucket` (`ratelimit.go:20`), `Limiter` (`ratelimit.go:11`); a call is given its clock reading |
| `allow`, `cleanup` | `Allow` (`ratelimit.go:37`), `Cleanup` (`ratelimit.go:57`) |
| `answers`          | what a sequence of calls is answered, the first call first |

Windows start at the first event of a key, so events of one key fall into three generations: those
of the current window, those of the window before it, and older ones. `Windowed` keeps the three
apart; every interval of the length of a window misses one of them.
-/

namespace E2EAnon.Http

variable {K : Type} [DecidableEq K]

structure Bucket where
  count : Nat
  reset : Int
deriving DecidableEq, Repr

structure Limiter (K : Type) where
  limit   : Int
  window  : Int
  buckets : K → Option Bucket := fun _ => none

namespace Limiter

/-- `New`. -/
def new (perWindow window : Int) : Limiter K := { limit := perWindow, window }

def setBucket (l : Limiter K) (key : K) (b : Bucket) : Limiter K :=
  { l with buckets := Function.update l.buckets key (some b) }

def allow (l : Limiter K) (now : Int) (key : K) : Limiter K × Bool :=
  if l.limit ≤ 0 then (l, true)
  else match l.buckets key with
    | none => (l.setBucket key { count := 1, reset := now + l.window }, true)
    | some b =>
      if now > b.reset then (l.setBucket key { count := 1, reset := now + l.window }, true)
      else if b.count ≥ l.limit then (l, false)
      else (l.setBucket key { b with count := b.count + 1 }, true)

def cleanup (l : Limiter K) (now : Int) : Limiter K :=
  { l with buckets := fun key => (l.buckets key).filter fun b => ¬ now > b.reset }

end Limiter

inductive Op (K : Type)
  | allow (key : K)
  | cleanup
deriving DecidableEq

/-- A call and the clock reading it takes. -/
structure Call (K : Type) where
  now : Int
  op  : Op K
deriving DecidableEq

structure Answer (K : Type) where
  key     : K
  now     : Int
  allowed : Bool
deriving DecidableEq

def answers : Limiter K → List (Call K) → List (Answer K)
  | _, [] => []
  | l, ⟨now, .allow key⟩ :: cs =>
    { key, now, allowed := (l.allow now key).2 } :: answers (l.allow now key).1 cs
  | l, ⟨now, .cleanup⟩ :: cs => answers (l.cleanup now) cs

/-- The clock never goes back. -/
def InOrder (calls : List (Call K)) : Prop := calls.Pairwise fun c d => c.now ≤ d.now

def Call.isAllow (c : Call K) : Bool := c.op ≠ .cleanup

def Call.isFor (key : K) (c : Call K) : Bool := c.op = .allow key

/-- The events of `key` allowed from `a` to `b`. -/
def allowedIn (key : K) (a b : Int) (l : List (Answer K)) : Nat :=
  l.countP fun e => e.key = key ∧ e.allowed = true ∧ a ≤ e.now ∧ e.now ≤ b

/-! ## Calls of `Cleanup` -/

/-- The bucket, unless its window is over at `now`. -/
def live (now : Int) (b : Option Bucket) : Option Bucket := b.filter fun b => ¬ now > b.reset

theorem live_eq_some {now : Int} {b : Option Bucket} {b' : Bucket} :
    live now b = some b' ↔ b = some b' ∧ now ≤ b'.reset := by
  simp [live, Option.filter_eq_some_iff]

theorem live_mono {now t : Int} {b b' : Option Bucket} (h : live now b = live now b')
    (ht : now ≤ t) : live t b = live t b' := by
  have hfilter : ∀ b, live t b = live t (live now b) := by
    intro b
    ext b'
    simp only [live_eq_some]
    constructor
    · rintro ⟨rfl, hle⟩
      exact ⟨⟨rfl, ht.trans hle⟩, hle⟩
    · rintro ⟨⟨rfl, -⟩, hle⟩
      exact ⟨rfl, hle⟩
  rw [hfilter b, h, ← hfilter b']

namespace Limiter

/-- The two differ in windows that are over at `now`. -/
structure Agree (now : Int) (l l' : Limiter K) : Prop where
  limit   : l.limit = l'.limit
  window  : l.window = l'.window
  buckets : ∀ key, live now (l.buckets key) = live now (l'.buckets key)

omit [DecidableEq K] in
theorem Agree.mono {now t : Int} {l l' : Limiter K} (h : Agree now l l') (ht : now ≤ t) :
    Agree t l l' :=
  ⟨h.limit, h.window, fun key => live_mono (h.buckets key) ht⟩

omit [DecidableEq K] in
theorem Agree.cleanup {now : Int} {l l' : Limiter K} (h : Agree now l l') :
    Agree now (l.cleanup now) l' := by
  refine ⟨h.limit, h.window, fun key => ?_⟩
  rw [← h.buckets key]
  simp [Limiter.cleanup, live, Option.filter_filter]

/-- `Allow` in terms of what is live: the bucket the key is left with, and the answer. -/
theorem allow_eq {l : Limiter K} (now : Int) (key : K) (hl : 0 < l.limit) : l.allow now key =
    match live now (l.buckets key) with
    | none => (l.setBucket key { count := 1, reset := now + l.window }, true)
    | some b =>
      if b.count ≥ l.limit then (l, false)
      else (l.setBucket key { b with count := b.count + 1 }, true) := by
  have hl' : ¬ l.limit ≤ 0 := by omega
  simp only [allow, if_neg hl']
  cases hb : l.buckets key with
  | none => rfl
  | some b =>
    by_cases hnow : now > b.reset
    · have hlive : live now (some b) = none := by simp [live, Option.filter, hnow]
      simp only [hlive, if_pos hnow]
    · have hlive : live now (some b) = some b := by simp [live, Option.filter, hnow]
      simp only [hlive, if_neg hnow]

theorem Agree.allow {now : Int} {l l' : Limiter K} (h : Agree now l l') (key : K) :
    (l.allow now key).2 = (l'.allow now key).2 ∧
      Agree now (l.allow now key).1 (l'.allow now key).1 := by
  by_cases hl : 0 < l.limit
  · have set (b : Bucket) : Agree now (l.setBucket key b) (l'.setBucket key b) := by
      refine ⟨h.limit, h.window, fun k => ?_⟩
      by_cases hk : k = key <;> simp [setBucket, hk, h.buckets]
    rw [allow_eq now key hl, allow_eq now key (h.limit ▸ hl), ← h.buckets key, ← h.limit, ← h.window]
    cases live now (l.buckets key) with
    | none => exact ⟨rfl, set _⟩
    | some b =>
      by_cases hc : b.count ≥ l.limit
      · simpa [hc] using h
      · simpa [hc] using set _
  · have hl' : l'.limit ≤ 0 := by
      have := h.limit
      omega
    simpa [Limiter.allow, not_lt.mp hl, hl'] using h

end Limiter

/-- Calls of `Cleanup` change no answer. -/
theorem answers_isAllow {now : Int} {l l' : Limiter K} (h : l.Agree now l') {calls : List (Call K)}
    (hc : InOrder calls) (hnow : ∀ c ∈ calls, now ≤ c.now) :
    answers l calls = answers l' (calls.filter Call.isAllow) := by
  induction calls generalizing now l l' with
  | nil => rfl
  | cons c calls ih =>
    obtain ⟨hle, hcs⟩ := List.pairwise_cons.mp hc
    have h := h.mono (hnow c (by simp))
    obtain ⟨t, op⟩ := c
    cases op with
    | allow key =>
      obtain ⟨hok, hagree⟩ := h.allow key
      simp only [Call.isAllow, List.filter_cons, ne_eq, reduceCtorEq, not_false_eq_true, decide_true,
        if_true, answers, hok]
      exact congrArg _ (ih hagree hcs hle)
    | cleanup => exact ih h.cleanup hcs hle

/-! ## One key at a time -/

namespace Limiter

variable {l l' : Limiter K} {now : Int} {key : K}

theorem allow_config (l : Limiter K) (now : Int) (key : K) :
    (l.allow now key).1.limit = l.limit ∧ (l.allow now key).1.window = l.window := by
  unfold allow
  split
  · exact ⟨rfl, rfl⟩
  · split
    · exact ⟨rfl, rfl⟩
    · split
      · exact ⟨rfl, rfl⟩
      · split <;> exact ⟨rfl, rfl⟩

theorem allow_other {k : K} (h : k ≠ key) : (l.allow now key).1.buckets k = l.buckets k := by
  unfold allow
  split
  · rfl
  · split
    · simp [setBucket, h]
    · split
      · simp [setBucket, h]
      · split
        · rfl
        · simp [setBucket, h]

/-- What a key is answered depends on its bucket. -/
theorem allow_same {key' : K} (now : Int) (hlim : l.limit = l'.limit) (hwin : l.window = l'.window)
    (hb : l.buckets key = l'.buckets key') : (l.allow now key).2 = (l'.allow now key').2 ∧
      (l.allow now key).1.buckets key = (l'.allow now key').1.buckets key' := by
  simp only [allow, hlim, hwin, hb]
  split
  · exact ⟨rfl, hb⟩
  · split
    · simp [setBucket]
    · split
      · simp [setBucket]
      · split
        · exact ⟨rfl, hb⟩
        · simp [setBucket]

end Limiter

/-- The answers for a key depend on the calls for it alone. -/
theorem answers_isFor {l l' : Limiter K} (hlim : l.limit = l'.limit) (hwin : l.window = l'.window)
    {key : K} (hb : l.buckets key = l'.buckets key) {calls : List (Call K)}
    (hc : ∀ c ∈ calls, c.isAllow = true) :
    (answers l calls).filter (·.key = key) = answers l' (calls.filter (Call.isFor key)) := by
  induction calls generalizing l l' with
  | nil => rfl
  | cons c calls ih =>
    obtain ⟨hc1, hcs⟩ := List.forall_mem_cons.mp hc
    obtain ⟨t, op⟩ := c
    cases op with
    | cleanup => simp [Call.isAllow] at hc1
    | allow k =>
      obtain ⟨hlim1, hwin1⟩ := l.allow_config t k
      by_cases hk : k = key
      · subst hk
        obtain ⟨hlim2, hwin2⟩ := l'.allow_config t k
        obtain ⟨hok, hb'⟩ := Limiter.allow_same t hlim hwin hb
        simp only [answers, List.filter_cons, decide_true, if_true, Call.isFor, hok]
        refine congrArg _ (ih ?_ ?_ hb' hcs)
        · rw [hlim1, hlim2, hlim]
        · rw [hwin1, hwin2, hwin]
      · have hother : (l.allow t k).1.buckets key = l'.buckets key := by
          rw [Limiter.allow_other (Ne.symm hk), hb]
        simp only [answers, List.filter_cons, hk, decide_false, Bool.false_eq_true, if_false,
          Call.isFor, Op.allow.injEq]
        exact ih (hlim1.trans hlim) (hwin1.trans hwin) hother hcs

/-! ## The windows of a key -/

section
variable {key : K} {a b : Int} {past : List (Answer K)} {e : Answer K}

theorem allowedIn_append (past past' : List (Answer K)) :
    allowedIn key a b (past ++ past') = allowedIn key a b past + allowedIn key a b past' :=
  List.countP_append

theorem allowedIn_refused (h : e.allowed = false) : allowedIn key a b [e] = 0 := by
  simp [allowedIn, h]

theorem allowedIn_eq_zero (h : ∀ e ∈ past, e.now < a ∨ b < e.now) : allowedIn key a b past = 0 := by
  refine List.countP_eq_zero.mpr fun e he hin => ?_
  simp only [decide_eq_true_eq] at hin
  obtain hlt | hlt := h e he
  · exact absurd hlt (not_lt.mpr hin.2.2.1)
  · exact absurd hlt (not_lt.mpr hin.2.2.2)

/-- Events that all fall into another interval too. -/
theorem allowedIn_le {a' b' : Int} (h : ∀ e ∈ past, a' ≤ e.now ∧ e.now ≤ b') :
    allowedIn key a b past ≤ allowedIn key a' b' past := by
  refine List.countP_mono_left fun e he hin => ?_
  simp only [decide_eq_true_eq] at hin ⊢
  exact ⟨hin.1, hin.2.1, h e he⟩

end

/-- The events of a key whose bucket is `b`: `cur` are those of the current window. -/
structure Windows (limit window : Int) (key : K) (b : Bucket) (old cur : List (Answer K)) :
    Prop where
  start  : ∃ e ∈ cur, e.now = b.reset - window
  within : ∀ e ∈ cur, b.reset - window ≤ e.now ∧ e.now ≤ b.reset
  count  : allowedIn key (b.reset - window) b.reset cur = b.count
  full   : b.count ≤ limit
  before : ∀ e ∈ old, e.now < b.reset - window
  last   : ∀ a, b.reset - window ≤ a + window → allowedIn key a (a + window) old ≤ limit
  older  : ∀ a, allowedIn key a (a + window) old ≤ 2 * limit

/-- The bucket of a key and the events before. -/
def Windowed (l : Limiter K) (key : K) (past : List (Answer K)) : Prop :=
  match l.buckets key with
  | none => past = []
  | some b => ∃ old cur, past = old ++ cur ∧ Windows l.limit l.window key b old cur

section
variable {limit window : Int} {key : K} {b : Bucket} {old cur : List (Answer K)}

theorem Windows.bound (h : Windows limit window key b old cur) (a : Int) :
    allowedIn key a (a + window) (old ++ cur) ≤ 2 * limit := by
  have hcur : allowedIn key a (a + window) cur ≤ b.count :=
    h.count ▸ allowedIn_le h.within
  have hfull := h.full
  rw [allowedIn_append]
  by_cases ha : b.reset - window ≤ a + window
  · have hlast := h.last a ha
    push_cast
    omega
  · -- the interval ends before the window begins
    have hnone : allowedIn key a (a + window) cur = 0 :=
      allowedIn_eq_zero fun e he => .inr (by have := (h.within e he).1; omega)
    have holder := h.older a
    rw [hnone]
    simpa using holder

/-- The first event of the next window. -/
theorem Windows.next (h : Windows limit window key b old cur) (hl : 0 < limit) (hw : 0 < window)
    {now : Int} (hnow : b.reset < now) :
    Windows limit window key { count := 1, reset := now + window }
      (old ++ cur) [{ key, now, allowed := true }] where
  start := ⟨_, List.mem_singleton_self _, by simp⟩
  within := by
    intro e he
    obtain rfl := List.mem_singleton.mp he
    dsimp only
    omega
  count := by simp [allowedIn, hw.le]
  full := by
    dsimp only
    omega
  before := by
    intro e he
    dsimp only
    obtain he | he := List.mem_append.mp he
    · have hlt := h.before e he
      omega
    · have hle := (h.within e he).2
      omega
  last := by
    intro a ha
    -- an interval that reaches the new window misses what was before the last one
    have hold : allowedIn key a (a + window) old = 0 :=
      allowedIn_eq_zero fun e he => .inl (by
        have hlt := h.before e he
        dsimp only at ha
        omega)
    have hcur : allowedIn key a (a + window) cur ≤ b.count := h.count ▸ allowedIn_le h.within
    have hfull := h.full
    rw [allowedIn_append, hold]
    push_cast
    omega
  older := h.bound

/-- One more event in the same window. -/
theorem Windows.allowed (h : Windows limit window key b old cur) {now : Int}
    (hin : b.reset - window ≤ now ∧ now ≤ b.reset) (hc : b.count < limit) :
    Windows limit window key { b with count := b.count + 1 } old
      (cur ++ [{ key, now, allowed := true }]) where
  start := by
    obtain ⟨e, he, ht⟩ := h.start
    exact ⟨e, List.mem_append_left _ he, ht⟩
  within := by
    intro e he
    obtain he | he := List.mem_append.mp he
    · exact h.within e he
    · obtain rfl := List.mem_singleton.mp he
      exact hin
  count := by
    have hend : b.reset ≤ now + window := by omega
    rw [allowedIn_append, h.count]
    simp [allowedIn, hin, hend]
  full := by
    dsimp only
    omega
  before := h.before
  last := h.last
  older := h.older

theorem Windows.refused (h : Windows limit window key b old cur) {now : Int}
    (hin : b.reset - window ≤ now ∧ now ≤ b.reset) :
    Windows limit window key b old (cur ++ [{ key, now, allowed := false }]) where
  start := by
    obtain ⟨e, he, ht⟩ := h.start
    exact ⟨e, List.mem_append_left _ he, ht⟩
  within := by
    intro e he
    obtain he | he := List.mem_append.mp he
    · exact h.within e he
    · obtain rfl := List.mem_singleton.mp he
      exact hin
  count := by rw [allowedIn_append, h.count, allowedIn_refused rfl, Nat.add_zero]
  full := h.full
  before := h.before
  last := h.last
  older := h.older

end

section
variable {l : Limiter K} {key : K} {past : List (Answer K)} {now : Int}

theorem Windowed.bound (h : Windowed l key past) (hl : 0 < l.limit) (a : Int) :
    allowedIn key a (a + l.window) past ≤ 2 * l.limit := by
  unfold Windowed at h
  split at h
  · subst h
    simp [allowedIn, hl.le]
  · obtain ⟨old, cur, rfl, hw⟩ := h
    exact hw.bound a

/-- One call of `Allow`. -/
theorem Windowed.allow (h : Windowed l key past) (hl : 0 < l.limit) (hw : 0 < l.window)
    (hpast : ∀ e ∈ past, e.now ≤ now) :
    Windowed (l.allow now key).1 key (past ++ [{ key, now, allowed := (l.allow now key).2 }]) ∧
      ((l.allow now key).2 = false → l.limit ≤ allowedIn key (now - l.window) now past) := by
  have hl' : ¬ l.limit ≤ 0 := by omega
  unfold Windowed at h
  unfold Limiter.allow
  rw [if_neg hl']
  cases hb : l.buckets key with
  | none =>
    rw [hb] at h
    subst h
    refine ⟨?_, by simp⟩
    simp only [Windowed, Limiter.setBucket, Function.update_self]
    refine ⟨[], _, rfl, ⟨_, List.mem_singleton_self _, by simp⟩, ?_, ?_, ?_, by simp, ?_, ?_⟩
    · intro e he
      obtain rfl := List.mem_singleton.mp he
      dsimp only
      omega
    · simp [allowedIn, hw.le]
    · dsimp only
      omega
    · simp [allowedIn, hl.le]
    · simp [allowedIn, hl.le]
  | some b =>
    rw [hb] at h
    obtain ⟨old, cur, rfl, hwin⟩ := h
    dsimp only
    split
    · rename_i hnow
      refine ⟨?_, by simp⟩
      simp only [Windowed, Limiter.setBucket, Function.update_self]
      exact ⟨_, _, rfl, hwin.next hl hw hnow⟩
    · rename_i hnow
      have hin : b.reset - l.window ≤ now ∧ now ≤ b.reset := by
        obtain ⟨e, he, ht⟩ := hwin.start
        have hle := hpast e (List.mem_append_right _ he)
        omega
      split
      · rename_i hfull
        refine ⟨?_, fun _ => ?_⟩
        · simp only [Windowed, hb]
          exact ⟨old, _, by simp, hwin.refused hin⟩
        · -- the events of this window are all within the window before now
          have hcur : allowedIn key (b.reset - l.window) b.reset cur ≤
              allowedIn key (now - l.window) now cur :=
            allowedIn_le fun e he => by
              have hle := hpast e (List.mem_append_right _ he)
              have hge := (hwin.within e he).1
              omega
          rw [allowedIn_append]
          have hcount := hwin.count
          push_cast
          omega
      · rename_i hfull
        refine ⟨?_, by simp⟩
        simp only [Windowed, Limiter.setBucket, Function.update_self]
        exact ⟨old, _, by simp, hwin.allowed hin (by omega)⟩

/-- A sequence of calls for one key. -/
theorem Windowed.answers (h : Windowed l key past) (hl : 0 < l.limit) (hw : 0 < l.window)
    {calls : List (Call K)} (hc : InOrder calls) (hkey : ∀ c ∈ calls, c.op = .allow key)
    (hpast : ∀ e ∈ past, ∀ c ∈ calls, e.now ≤ c.now) :
    (∀ a, allowedIn key a (a + l.window) (past ++ answers l calls) ≤ 2 * l.limit) ∧
      ∀ mid e rest, answers l calls = mid ++ e :: rest → e.allowed = false →
        l.limit ≤ allowedIn key (e.now - l.window) e.now (past ++ mid) := by
  induction calls generalizing l past with
  | nil => exact ⟨fun a => by simpa [Http.answers] using h.bound hl a, by simp [Http.answers]⟩
  | cons c calls ih =>
    obtain ⟨hle, hcs⟩ := List.pairwise_cons.mp hc
    obtain ⟨t, op⟩ := c
    obtain rfl : op = .allow key := hkey _ List.mem_cons_self
    obtain ⟨hlim, hwin⟩ := l.allow_config t key
    obtain ⟨hnext, hrefused⟩ := h.allow hl hw fun e he => hpast e he _ List.mem_cons_self
    obtain ⟨hbound, hrest⟩ := ih hnext (hlim ▸ hl) (hwin ▸ hw) hcs
      (fun c hc => hkey c (by simp [hc])) (by
        intro e he c hc
        obtain he | he := List.mem_append.mp he
        · exact hpast e he c (by simp [hc])
        · obtain rfl := List.mem_singleton.mp he
          exact hle c hc)
    rw [hlim] at hbound hrest
    rw [hwin] at hbound hrest
    refine ⟨fun a => by simpa [Http.answers] using hbound a, fun mid e rest he hno => ?_⟩
    cases mid with
    | nil =>
      obtain ⟨rfl, -⟩ := List.cons.inj he
      simpa using hrefused hno
    | cons e' mid =>
      obtain ⟨rfl, htail⟩ := List.cons.inj he
      simpa using hrest mid e rest htail hno

end

/-! ## The limiter -/

omit [DecidableEq K] in
theorem InOrder.filter {calls : List (Call K)} (hc : InOrder calls) (p : Call K → Bool) :
    InOrder (calls.filter p) :=
  List.Pairwise.filter p hc

theorem answers_cleanup (l : Limiter K) {calls : List (Call K)} (hc : InOrder calls) :
    answers l calls = answers l (calls.filter Call.isAllow) := by
  cases calls with
  | nil => rfl
  | cons c cs =>
    have hagree : Limiter.Agree c.now l l := ⟨rfl, rfl, fun _ => rfl⟩
    refine answers_isAllow hagree hc fun d hd => ?_
    obtain rfl | hd := List.mem_cons.mp hd
    · exact le_rfl
    · exact (List.pairwise_cons.mp hc).1 d hd

theorem isFor_isAllow (key : K) (calls : List (Call K)) :
    (calls.filter Call.isAllow).filter (Call.isFor key) = calls.filter (Call.isFor key) := by
  rw [List.filter_filter]
  refine List.filter_congr fun c _ => ?_
  cases h : c.op <;> simp [Call.isAllow, Call.isFor, h]

/-- The answers for a key are those of a limiter that gets the calls for this key alone. -/
theorem answers_key (l : Limiter K) {calls : List (Call K)} (hc : InOrder calls) (key : K) :
    (answers l calls).filter (·.key = key) = answers l (calls.filter (Call.isFor key)) := by
  rw [answers_cleanup l hc, answers_isFor rfl rfl rfl fun c hc => (List.mem_filter.mp hc).2,
    isFor_isAllow]

theorem allowedIn_key (key : K) (a b : Int) (past : List (Answer K)) :
    allowedIn key a b (past.filter (·.key = key)) = allowedIn key a b past := by
  simp only [allowedIn, List.countP_filter]
  refine List.countP_congr fun e _ => ?_
  simp only [Bool.and_eq_true, decide_eq_true_eq]
  tauto

/-- **Rate limiter bound**, for a clock that never goes back. -/
theorem rate_limited {limit window : Int} (hl : 0 < limit) (hw : 0 < window)
    {calls : List (Call K)} (hc : InOrder calls) :
    (∀ key a, allowedIn key a (a + window) (answers (.new limit window) calls) ≤ 2 * limit) ∧
    (∀ past e rest, answers (.new limit window) calls = past ++ e :: rest → e.allowed = false →
      limit ≤ allowedIn e.key (e.now - window) e.now past) ∧
    (∀ key (calls' : List (Call K)), InOrder calls' →
      calls'.filter (Call.isFor key) = calls.filter (Call.isFor key) →
      (answers (.new limit window) calls').filter (·.key = key) =
        (answers (.new limit window) calls).filter (·.key = key)) ∧
    ∀ calls' : List (Call K), InOrder calls' →
      calls'.filter Call.isAllow = calls.filter Call.isAllow →
      answers (.new limit window) calls' = answers (.new limit window) calls := by
  generalize hl0 : (Limiter.new limit window : Limiter K) = l
  have hlim : l.limit = limit := by rw [← hl0]; rfl
  have hwin : l.window = window := by rw [← hl0]; rfl
  have hempty : ∀ key, Windowed l key [] := by
    intro key
    rw [← hl0]
    rfl
  -- what is known of the answers for one key
  have hkey : ∀ key, _ := fun key => (hempty key).answers (hlim ▸ hl) (hwin ▸ hw)
    (hc.filter (Call.isFor key))
    (fun c hc => by simpa [Call.isFor] using (List.mem_filter.mp hc).2) (by simp)
  simp only [← answers_key l hc, hlim, hwin, List.nil_append] at hkey
  refine ⟨fun key a => ?_, fun past e rest he hno => ?_, fun key calls' hc' h => ?_,
    fun calls' hc' h => ?_⟩
  · simpa only [allowedIn_key] using (hkey key).1 a
  · have hsplit : (answers l calls).filter (·.key = e.key) =
        past.filter (·.key = e.key) ++ e :: rest.filter (·.key = e.key) := by
      simp [he]
    simpa only [allowedIn_key] using (hkey e.key).2 _ e _ hsplit hno
  · rw [answers_key l hc', answers_key l hc, h]
  · rw [answers_cleanup l hc', answers_cleanup l hc, h]

/-- Three events fall on one window, the fourth and fifth on the next. -/
def sampleCalls : List (Call Nat) :=
  [⟨0, .allow 7⟩, ⟨3, .allow 7⟩, ⟨4, .allow 8⟩, ⟨9, .allow 7⟩, ⟨11, .cleanup⟩, ⟨11, .allow 7⟩,
    ⟨12, .allow 7⟩]

theorem sampleCalls_answers : answers (.new 2 10) sampleCalls =
    [⟨7, 0, true⟩, ⟨7, 3, true⟩, ⟨8, 4, true⟩, ⟨7, 9, false⟩, ⟨7, 11, true⟩, ⟨7, 12, true⟩] := by
  decide

theorem sampleCalls_inOrder : InOrder sampleCalls := by
  unfold InOrder
  decide

theorem rate_limited_sample :
    allowedIn 7 3 (3 + 10) (answers (.new 2 10) sampleCalls) ≤ (2 * 2 : Int) ∧
      (2 : Int) ≤ allowedIn 7 (9 - 10) 9 [⟨7, 0, true⟩, ⟨7, 3, true⟩, ⟨8, 4, true⟩] :=
  have hl : (0 : Int) < 2 := by decide
  have hw : (0 : Int) < 10 := by decide
  have h := rate_limited hl hw sampleCalls_inOrder
  ⟨h.1 7 3, h.2.1 _ ⟨7, 9, false⟩ _ sampleCalls_answers rfl⟩

end E2EAnon.Http
