import E2EAnon.Http.RateLimit
import E2EAnon.Relay.Step

/-!
# The source of a request (`clientIP`, `server.go:482`) and what the limiters make of it

| here | there |
| --- | --- |
| `Headers`, `Request` | what `clientIP` reads of an `http.Request`; a header is the list of its values |
| `splitHostPort`    | the host of `net.SplitHostPort` |
| `Address.proxied`  | a request as the trusted proxy passes it on: `httputil.ReverseProxy` joins the values of `X-Forwarded-For` and appends the address of its peer |
| `decisions`        | the checks of `createLim` and `redeemLim` (`server.go:155`, `:196`) on a sequence of requests |

`Twin` is a request of two runs that differ in the headers the client supplies.
-/

namespace E2EAnon.Http

open Relay (isSpace)

/-- `strings.TrimSpace`. -/
def trimSpace (s : String) : String :=
  String.ofList ((s.toList.dropWhile isSpace).reverse.dropWhile isSpace).reverse

/-- The text before the first comma. -/
def upToComma (s : String) : String := String.ofList (s.toList.takeWhile (· ≠ ','))

/-- `none` where it returns an error. -/
def splitHostPort (hostport : String) : Option String :=
  let cs := hostport.toList
  -- the last colon
  let i := cs.length - 1 - cs.reverse.idxOf ':'
  -- the first closing bracket
  let stop := cs.idxOf ']'
  if ':' ∉ cs then none
  else if cs.head? = some '[' then
    if ']' ∈ cs ∧ stop + 1 = i ∧ '[' ∉ cs.drop 1 ∧ ']' ∉ cs.drop (stop + 1) then
      some (String.ofList ((cs.take stop).drop 1))
    else none
  else if ':' ∈ cs.take i ∨ '[' ∈ cs ∨ ']' ∈ cs then none
  else some (String.ofList (cs.take i))

example : ["10.0.0.2:80", "[fe80::1]:80", "fe80::1", "10.0.0.2"].map splitHostPort =
    [some "10.0.0.2", some "fe80::1", none, none] := by
  decide +kernel

structure Headers where
  xForwardedFor : List String := []
  xRealIP       : List String := []
deriving DecidableEq

structure Request where
  headers    : Headers
  remoteAddr : String
deriving DecidableEq

/-- `r.Header.Get`. -/
def get (values : List String) : String := values.headD ""

def clientIP (r : Request) (trustProxy : Bool) : String :=
  let remote := (splitHostPort r.remoteAddr).getD r.remoteAddr
  if trustProxy then
    let xff := get r.headers.xForwardedFor
    if xff ≠ "" then
      if ',' ∈ xff.toList then trimSpace (upToComma xff) else trimSpace xff
    else
      let xrip := trimSpace (get r.headers.xRealIP)
      if xrip ≠ "" then xrip else remote
  else remote

/-! ## Behind the proxy -/

/-- An IP address in text. -/
structure Address where
  text     : String
  nonempty : text ≠ ""
  trimmed  : trimSpace text = text
  comma    : ',' ∉ text.toList

/-- What reaches the server of a request from `peer` with the headers `h`. -/
def Address.proxied (peer : Address) (proxyAddr : String) (h : Headers) : Request where
  headers := { h with xForwardedFor := [", ".intercalate (h.xForwardedFor ++ [peer.text])] }
  remoteAddr := proxyAddr

/-- The source a request from `peer` names: the first entry of its own `X-Forwarded-For`, or else
the peer. -/
def Headers.names (h : Headers) (peer : Address) : String :=
  match h.xForwardedFor with
  | [] => peer.text
  | v :: _ => trimSpace (upToComma v)

/-- The client chooses its source. -/
theorem clientIP_proxied (peer : Address) (proxyAddr : String) (h : Headers) :
    clientIP (peer.proxied proxyAddr h) true = h.names peer := by
  cases hv : h.xForwardedFor with
  | nil =>
    simp [clientIP, Address.proxied, get, hv, peer.nonempty, peer.comma, peer.trimmed,
      Headers.names]
  | cons v vs =>
    -- the value the server sees begins with `v` and a comma
    obtain ⟨rest, hrest⟩ : ∃ rest, (", ".intercalate (v :: vs ++ [peer.text])).toList =
        v.toList ++ ',' :: rest := by
      have hne : vs ++ [peer.text] ≠ [] := by simp
      rw [List.cons_append, String.intercalate_cons_of_ne_nil hne]
      exact ⟨' ' :: (", ".intercalate (vs ++ [peer.text])).toList, by simp⟩
    generalize hx : ", ".intercalate (v :: vs ++ [peer.text]) = x at hrest
    have hne : x ≠ "" := by
      rintro rfl
      simp at hrest
    have hcomma : ',' ∈ x.toList := by simp [hrest]
    have hcut : upToComma x = upToComma v := by
      unfold upToComma
      rw [hrest, List.takeWhile_append]
      split
      · rename_i hlen
        rw [(List.takeWhile_prefix _).eq_of_length hlen]
        simp
      · rfl
    simp only [clientIP, Address.proxied, get, hv, hx, List.headD_cons, if_true, if_pos hne,
      if_pos hcomma, hcut, Headers.names]

/-! ## The limiters -/

inductive Hello
  | create | redeem
deriving DecidableEq, Repr

/-- `time.Minute`. -/
def minute : Int := 60 * 10 ^ 9

/-- `createLim` and `redeemLim`. -/
abbrev Limits (K : Type) := Hello → Limiter K

def Limits.new {K : Type} (perMin : Hello → Int) : Limits K := fun h => .new (perMin h) minute

structure Attempt (K : Type) where
  now    : Int
  hello  : Hello
  source : K
deriving DecidableEq

variable {K : Type} [DecidableEq K]

def decisions : Limits K → List (Attempt K) → List Bool
  | _, [] => []
  | lims, a :: as =>
    let (l, ok) := (lims a.hello).allow a.now a.source
    ok :: decisions (Function.update lims a.hello l) as

/-- A request in two runs that differ in the headers the client supplies. -/
structure Twin where
  hello  : Hello
  first  : Headers
  second : Headers
deriving DecidableEq

/-- The request of the run `which`, at the clock reading `now`. -/
def Twin.attempt (peer : Address) (proxyAddr : String) (which : Twin → Headers) (now : Int)
    (t : Twin) : Attempt String :=
  { now, hello := t.hello, source := clientIP (peer.proxied proxyAddr (which t)) true }

/-- Both runs get the same decisions, whatever the limits and the clock. -/
def Alike (peer : Address) (proxyAddr : String) (l : List Twin) : Prop :=
  ∀ (perMin : Hello → Int) (clock : List Int), clock.Pairwise (· ≤ ·) → clock.length = l.length →
    decisions (.new perMin) (List.zipWith (Twin.attempt peer proxyAddr Twin.first) clock l) =
      decisions (.new perMin) (List.zipWith (Twin.attempt peer proxyAddr Twin.second) clock l)

/-- Two requests of a kind name the same source in one run if and only if they do in the other. -/
def SameSources (peer : Address) (l : List Twin) : Prop :=
  ∀ x ∈ l, ∀ y ∈ l, x.hello = y.hello →
    (x.first.names peer = y.first.names peer ↔ x.second.names peer = y.second.names peer)

/-! ## The pattern of the sources decides -/

/-- A run with other sources in which the same pairs are equal. -/
theorem decisions_rename {l : List (Attempt K × K)} {lims lims' : Limits K}
    (hlim : ∀ h, (lims h).limit = (lims' h).limit)
    (hwin : ∀ h, (lims h).window = (lims' h).window)
    (hb : ∀ x ∈ l, (lims x.1.hello).buckets x.1.source = (lims' x.1.hello).buckets x.2)
    (hl : ∀ x ∈ l, ∀ y ∈ l, x.1.hello = y.1.hello → (x.1.source = y.1.source ↔ x.2 = y.2)) :
    decisions lims (l.map (·.1)) = decisions lims' (l.map fun x => { x.1 with source := x.2 }) := by
  induction l generalizing lims lims' with
  | nil => rfl
  | cons x l ih =>
    obtain ⟨hok, hbucket⟩ := Limiter.allow_same x.1.now (hlim x.1.hello) (hwin x.1.hello)
      (hb x List.mem_cons_self)
    simp only [List.map_cons, decisions, hok]
    refine congrArg _ (ih ?_ ?_ ?_ fun y hy z hz => hl y (by simp [hy]) z (by simp [hz]))
    · intro h
      by_cases hh : h = x.1.hello
      · subst hh
        simp [Limiter.allow_config, hlim]
      · simp [hh, hlim]
    · intro h
      by_cases hh : h = x.1.hello
      · subst hh
        simp [Limiter.allow_config, hwin]
      · simp [hh, hwin]
    · intro y hy
      by_cases hh : y.1.hello = x.1.hello
      · have hpat := hl y (by simp [hy]) x List.mem_cons_self hh
        simp only [hh, Function.update_self]
        by_cases hsrc : y.1.source = x.1.source
        · rw [hsrc, hpat.mp hsrc, hbucket]
        · rw [Limiter.allow_other hsrc, Limiter.allow_other (fun he => hsrc (hpat.mpr he)), ← hh]
          exact hb y (by simp [hy])
      · simp only [Function.update_of_ne hh]
        exact hb y (by simp [hy])

/-- Limiters that differ in windows that are over. -/
theorem decisions_agree {lims lims' : Limits K} {now : Int}
    (h : ∀ k, (lims k).Agree now (lims' k)) {l : List (Attempt K)}
    (hl : l.Pairwise fun a b => a.now ≤ b.now) (hnow : ∀ a ∈ l, now ≤ a.now) :
    decisions lims l = decisions lims' l := by
  induction l generalizing lims lims' now with
  | nil => rfl
  | cons a l ih =>
    obtain ⟨hle, hs⟩ := List.pairwise_cons.mp hl
    have h := fun k => (h k).mono (hnow a List.mem_cons_self)
    obtain ⟨hok, hagree⟩ := (h a.hello).allow a.source
    simp only [decisions, hok]
    refine congrArg _ (ih (fun k => ?_) hs hle)
    by_cases hk : k = a.hello
    · subst hk
      simpa using hagree
    · simpa [hk] using h k

/-- At the time `t`, of limits of one, those of `seen` are used up. -/
structure Spent (t : Int) (seen : List (Hello × K)) (lims : Limits K) : Prop where
  limit   : ∀ h, (lims h).limit = 1
  window  : ∀ h, 0 < (lims h).window
  buckets : ∀ h k, live t ((lims h).buckets k) =
    if (h, k) ∈ seen then some { count := 1, reset := t + (lims h).window } else none

theorem Spent.step {t : Int} {seen : List (Hello × K)} {lims : Limits K} (hs : Spent t seen lims)
    (h : Hello) (k : K) : ((lims h).allow t k).2 = decide ((h, k) ∉ seen) ∧
      Spent t ((h, k) :: seen) (Function.update lims h ((lims h).allow t k).1) := by
  have hlim : 0 < (lims h).limit := by simp [hs.limit]
  rw [Limiter.allow_eq t k hlim, hs.buckets h k]
  by_cases hseen : (h, k) ∈ seen
  · have hfull : (1 : Int) ≥ (lims h).limit := by simp [hs.limit]
    simp only [hseen, if_true, Nat.cast_one, if_pos hfull, not_true_eq_false, decide_false, true_and,
      Function.update_eq_self]
    refine ⟨hs.limit, hs.window, fun h' k' => ?_⟩
    by_cases he : (h', k') = (h, k)
    · cases he
      simp [hs.buckets, hseen]
    · simp [hs.buckets, he]
  · simp only [hseen, if_false, not_false_eq_true, decide_true, true_and]
    refine ⟨fun h' => ?_, fun h' => ?_, fun h' k' => ?_⟩
    · by_cases hh : h' = h
      · subst hh
        simpa [Limiter.setBucket] using hs.limit h'
      · simpa [hh] using hs.limit h'
    · by_cases hh : h' = h
      · subst hh
        simpa [Limiter.setBucket] using hs.window h'
      · simpa [hh] using hs.window h'
    · by_cases hh : h' = h
      · subst hh
        by_cases hk : k' = k
        · subst hk
          have hlive : ¬ t + (lims h').window < t := by
            have hw := hs.window h'
            omega
          simp [Limiter.setBucket, live, Option.filter, hlive]
        · simpa [Limiter.setBucket, hk] using hs.buckets h' k'
      · simpa [hh] using hs.buckets h' k'

/-- With everything at the time `t`, a request is allowed if nobody has asked for its source yet. -/
theorem Spent.decision {t : Int} {seen : List (Hello × K)} {lims : Limits K}
    (hs : Spent t seen lims) (as bs : List (Attempt K)) (a : Attempt K)
    (ht : ∀ x ∈ as, x.now = t) (ha : a.now = t) :
    (decisions lims (as ++ a :: bs))[as.length]? =
      some (decide ((a.hello, a.source) ∉ seen ∧ ∀ x ∈ as, (a.hello, a.source) ≠ (x.hello, x.source))) := by
  induction as generalizing seen lims with
  | nil =>
    obtain ⟨hok, -⟩ := hs.step a.hello a.source
    simp [decisions, ha, hok]
  | cons x as ih =>
    obtain ⟨-, hnext⟩ := hs.step x.hello x.source
    have hx := ht x List.mem_cons_self
    have hrest := ih hnext fun y hy => ht y (by simp [hy])
    simp only [List.cons_append, decisions, List.length_cons, List.getElem?_cons_succ, hx, hrest]
    congr 2
    rw [List.forall_mem_cons, List.mem_cons, not_or, eq_iff_iff]
    tauto

theorem spent_new : Spent 0 [] (Limits.new (K := K) fun _ => 1) where
  limit _ := rfl
  window _ := (by decide : 0 < minute)
  buckets _ _ := rfl

/-! ## Sources that come out of the headers -/

/-- Two runs with the sources `x.2.1` and `x.2.2`. -/
def AlikeOn (l : List (Hello × K × K)) : Prop :=
  ∀ (perMin : Hello → Int) (clock : List Int), clock.Pairwise (· ≤ ·) → clock.length = l.length →
    decisions (.new perMin) (List.zipWith (fun now x => ⟨now, x.1, x.2.1⟩) clock l) =
      decisions (.new perMin) (List.zipWith (fun now x => ⟨now, x.1, x.2.2⟩) clock l)

section
omit [DecidableEq K]
variable {A : Type} {f : Int → A → Attempt K}

theorem now_of_mem (hf : ∀ t x, (f t x).now = t) {clock : List Int} {l : List A} {a : Attempt K}
    (h : a ∈ List.zipWith f clock l) : a.now ∈ clock := by
  rw [← List.map_uncurry_zip_eq_zipWith] at h
  obtain ⟨⟨t, x⟩, hx, rfl⟩ := List.mem_map.mp h
  have ht : (f t x).now ∈ clock := (hf t x).symm ▸ (List.of_mem_zip hx).1
  exact ht

theorem attempts_inOrder (hf : ∀ t x, (f t x).now = t) {clock : List Int}
    (hclock : clock.Pairwise (· ≤ ·)) (l : List A) :
    (List.zipWith f clock l).Pairwise fun a b => a.now ≤ b.now := by
  induction clock generalizing l with
  | nil => simp
  | cons t clock ih =>
    obtain ⟨hle, hs⟩ := List.pairwise_cons.mp hclock
    cases l with
    | nil => simp
    | cons x l =>
      refine List.pairwise_cons.mpr ⟨fun a ha => ?_, ih hs l⟩
      rw [hf]
      exact hle _ (now_of_mem hf ha)

end

/-- After more than a minute a first request is forgotten. -/
theorem agree_after (perMin : Hello → Int) (a : Attempt K) {now : Int}
    (hnow : a.now + minute < now) (h : Hello) :
    (Function.update (Limits.new perMin) a.hello
      ((Limits.new perMin a.hello).allow a.now a.source).1 h).Agree now (Limits.new perMin h) := by
  by_cases hh : h = a.hello
  · subst hh
    obtain ⟨hlim, hwin⟩ := (Limits.new perMin a.hello).allow_config a.now a.source
    refine ⟨by simp [hlim], by simp [hwin], fun k => ?_⟩
    rw [Function.update_self]
    by_cases hk : k = a.source
    · subst hk
      unfold Limiter.allow
      split
      · rfl
      · simp [Limits.new, Limiter.new, Limiter.setBucket, live, Option.filter, hnow]
    · rw [Limiter.allow_other hk]
  · rw [Function.update_of_ne hh]
    exact ⟨rfl, rfl, fun _ => rfl⟩

theorem AlikeOn.tail {x : Hello × K × K} {l : List (Hello × K × K)} (h : AlikeOn (x :: l)) :
    AlikeOn l := by
  intro perMin clock hclock hlen
  cases clock with
  | nil => rfl
  | cons t clock =>
    obtain ⟨hle, -⟩ := List.pairwise_cons.mp hclock
    have hall : ∀ t' ∈ t :: clock, t ≤ t' := by
      intro t' ht'
      obtain rfl | ht' := List.mem_cons.mp ht'
      · exact le_rfl
      · exact hle t' ht'
    -- the first request comes long before the others
    have hfirst : ((t - minute - 1) :: t :: clock).Pairwise (· ≤ ·) := by
      refine List.pairwise_cons.mpr ⟨fun t' ht' => ?_, hclock⟩
      have hge := hall t' ht'
      have hmin : 0 < minute := by decide
      omega
    have heq := h perMin _ hfirst (by simpa using hlen)
    simp only [List.zipWith_cons_cons, decisions, List.cons.injEq] at heq
    have forget (g : Hello × K × K → K) :
        decisions (Function.update (Limits.new perMin) x.1
            ((Limits.new perMin x.1).allow (t - minute - 1) (g x)).1)
          (List.zipWith (fun now y => ⟨now, y.1, g y⟩) (t :: clock) l) =
        decisions (Limits.new perMin) (List.zipWith (fun now y => ⟨now, y.1, g y⟩) (t :: clock) l) :=
      decisions_agree (agree_after perMin ⟨t - minute - 1, x.1, g x⟩ (by dsimp only; omega))
        (attempts_inOrder (fun _ _ => rfl) hclock l)
        fun a ha => hall _ (now_of_mem (fun _ _ => rfl) ha)
    rw [← forget fun y => y.2.1, ← forget fun y => y.2.2]
    exact heq.2

/-- The decision on `y` when all requests come at once, under limits of one. -/
theorem decision_at_once {A : Type} (g : A → Hello × K) (as bs : List A) (y : A) :
    (decisions (Limits.new fun _ => 1) (List.zipWith (fun now x => ⟨now, (g x).1, (g x).2⟩)
      (List.replicate (as ++ y :: bs).length 0) (as ++ y :: bs)))[as.length]? =
        some (decide (∀ x ∈ as, g y ≠ g x)) := by
  have hzip : ∀ l : List A, List.zipWith (fun now x => (⟨now, (g x).1, (g x).2⟩ : Attempt K))
      (List.replicate l.length 0) l = l.map fun x => ⟨0, (g x).1, (g x).2⟩ := by
    intro l
    induction l with
    | nil => rfl
    | cons x l ih => simpa [List.replicate_succ] using ih
  have h := spent_new.decision (as.map fun x => ⟨0, (g x).1, (g x).2⟩)
    (bs.map fun x => ⟨0, (g x).1, (g x).2⟩) ⟨0, (g y).1, (g y).2⟩ (by simp) rfl
  rw [hzip, List.map_append, List.map_cons]
  rw [List.length_map] at h
  rw [h]
  simp

theorem AlikeOn.pattern {l : List (Hello × K × K)} (h : AlikeOn l) :
    ∀ x ∈ l, ∀ y ∈ l, x.1 = y.1 → (x.2.1 = y.2.1 ↔ x.2.2 = y.2.2) := by
  induction l with
  | nil => simp
  | cons x l ih =>
    have hl := ih h.tail
    have hx : ∀ y ∈ l, x.1 = y.1 → (x.2.1 = y.2.1 ↔ x.2.2 = y.2.2) := by
      -- the first request that goes with `x` in one of the runs only
      cases hfind : l.find? fun y => x.1 = y.1 ∧ ¬ (x.2.1 = y.2.1 ↔ x.2.2 = y.2.2) with
      | none =>
        intro y hy hk
        simpa [hk] using List.find?_eq_none.mp hfind y hy
      | some y =>
        obtain ⟨hbad, mid, post, rfl, hmid⟩ := List.find?_eq_some_iff_append.mp hfind
        have heq := congrArg (·[(x :: mid).length]?) (h (fun _ => 1) (List.replicate _ 0)
          (List.pairwise_replicate.mpr (by simp)) List.length_replicate)
        have h1 := decision_at_once (fun z : Hello × K × K => (z.1, z.2.1)) (x :: mid) post y
        have h2 := decision_at_once (fun z : Hello × K × K => (z.1, z.2.2)) (x :: mid) post y
        simp only [List.cons_append] at h1 h2
        simp only [h1, h2, Option.some.injEq, decide_eq_decide, List.forall_mem_cons, ne_eq,
          Prod.mk.injEq] at heq
        simp only [decide_eq_true_eq] at hbad
        -- nobody between the two goes with `x` in one run only, nor with `y`
        have hxm : ∀ m ∈ mid, x.1 = m.1 → (x.2.1 = m.2.1 ↔ x.2.2 = m.2.2) := by
          intro m hm hk
          simpa [hk] using hmid m hm
        have hym : ∀ m ∈ mid, y.1 = m.1 → (y.2.1 = m.2.1 ↔ y.2.2 = m.2.2) := fun m hm =>
          hl y (by simp) m (by simp [hm])
        grind
    intro y hy z hz hk
    obtain rfl | hyl := List.mem_cons.mp hy
    · obtain rfl | hzl := List.mem_cons.mp hz
      · simp
      · exact hx z hzl hk
    · obtain rfl | hzl := List.mem_cons.mp hz
      · rw [eq_comm, hx y hyl hk.symm, eq_comm]
      · exact hl y hyl z hzl hk

/-- **The rate-limit identity.** Behind the proxy, requests from one peer get the same decisions
whatever the client puts into its headers if and only if it names the same sources. -/
theorem alike_iff (peer : Address) (proxyAddr : String) (l : List Twin) :
    Alike peer proxyAddr l ↔ SameSources peer l := by
  have hsource (which : Twin → Headers) : Twin.attempt peer proxyAddr which =
      fun now t => ⟨now, t.hello, (which t).names peer⟩ := by
    funext now t
    simp [Twin.attempt, clientIP_proxied]
  constructor
  · intro h x hx y hy hk
    have hon : AlikeOn (l.map fun t => (t.hello, t.first.names peer, t.second.names peer)) := by
      intro perMin clock hclock hlen
      have heq := h perMin clock hclock (by simpa using hlen)
      rw [hsource, hsource] at heq
      simpa [List.zipWith_map_right] using heq
    exact hon.pattern _ (List.mem_map_of_mem hx) _ (List.mem_map_of_mem hy) hk
  · intro h perMin clock _ _
    let both : Int → Twin → Attempt String × String := fun now t =>
      (⟨now, t.hello, t.first.names peer⟩, t.second.names peer)
    have hboth : ∀ p ∈ List.zipWith both clock l, ∃ now, ∃ t ∈ l, p = both now t := by
      intro p hp
      rw [← List.map_uncurry_zip_eq_zipWith] at hp
      obtain ⟨⟨now, t⟩, ht, rfl⟩ := List.mem_map.mp hp
      exact ⟨now, t, (List.of_mem_zip ht).2, rfl⟩
    have hsame : ∀ p ∈ List.zipWith both clock l, ∀ q ∈ List.zipWith both clock l,
        p.1.hello = q.1.hello → (p.1.source = q.1.source ↔ p.2 = q.2) := by
      intro p hp q hq hk
      obtain ⟨_, x, hx, rfl⟩ := hboth p hp
      obtain ⟨_, y, hy, rfl⟩ := hboth q hq
      exact h x hx y hy hk
    have heq : decisions (.new perMin) _ = decisions (.new perMin) _ :=
      decisions_rename (fun _ => rfl) (fun _ => rfl) (fun _ _ => rfl) hsame
    rw [hsource, hsource]
    simpa [List.map_zipWith, both] using heq

/-- Two redemptions of one peer: in the first run it names no source, in the second a new one each
time. -/
def sampleTwins : List Twin :=
  [⟨.redeem, {}, { xForwardedFor := ["10.0.0.1"] }⟩,
    ⟨.redeem, {}, { xForwardedFor := [" 10.0.0.2, 10.0.0.1"] }⟩]

def samplePeer : Address where
  text := "203.0.113.7"
  nonempty := by decide
  trimmed := by decide +kernel
  comma := by decide

/-- With one redemption for each minute, the second run gets two. -/
theorem source_chosen : ¬ Alike samplePeer "10.1.1.1:443" sampleTwins := by
  intro h
  have heq := h (fun _ => 1) [0, 0] (by simp) rfl
  revert heq
  decide +kernel

end E2EAnon.Http
