import Mathlib.Algebra.Order.BigOperators.Group.Finset
import E2EAnon.Relay.Inflight

/-!
# The caps on transfers (`server.go:338-355`, `363-381`)

A chunk is admitted in three sections: the per-file cap against the connection's own map, the
addition to `hub.inflight` with the comparison of its result, and the map update; a refused chunk is
subtracted again. `due` is what a connection has on the counter at each point of this, as an
integer; `taken` leaves out the chunk that was added and refused. The counter is at least the total
of what is due, so a chunk that passes the comparison leaves the total of what is taken under the
cap.

A second `file_start` sets an open entry to 0 without a subtraction (`server.go:334`); it only
widens the gap.
-/

namespace E2EAnon.Relay

open Lib

variable {D : Type} {cfg : Config}

/-- The bytes of open transfers that neither `finishFile` nor the deferred release has subtracted
yet. -/
def unreleased (ft : AList (fun _ : String => Int64)) : Pc D → Int
  | .member _ (.forget t :: _) => bytes (ft.erase t)
  | .deferBytes rest => (rest.map Int64.toInt).sum
  | .exited => 0
  | _ => bytes ft

section
variable [Payload D]

/-- What a connection has on the counter, but for a refused chunk. -/
def taken (ft : AList (fun _ : String => Int64)) : Pc D → Int
  | .member _ (.accept _ _ _ d :: _) => bytes ft + (chunkSize d).toInt
  | pc => unreleased ft pc

def due (ft : AList (fun _ : String => Int64)) : Pc D → Int
  | .member _ (.rollback size :: _) => bytes ft + size.toInt
  | pc => taken ft pc

/-- The addition that the next operation makes stays in the range of an `int64`. -/
def fits (ft : AList (fun _ : String => Int64)) (n : Int64) : Pc D → Bool
  | .member _ (.fileChunk t _ d :: _) => (count ft t).toInt + Payload.len d < 2 ^ 63
  | .member _ (.addInflight _ _ _ d :: _) => n.toInt + Payload.len d < 2 ^ 63
  | _ => true

/-- The chunk in hand has passed the per-file cap. -/
def Checked (cfg : Config) (ft : AList (fun _ : String => Int64)) : Pc D → Prop
  | .member _ (.addInflight t cur _ d :: _) | .member _ (.accept t cur _ d :: _) =>
    ft.lookup t = some cur ∧ cur + chunkSize d ≤ cfg.maxFileBytes ∧ 0 ≤ (chunkSize d).toInt ∧
      (cur + chunkSize d).toInt = cur.toInt + (chunkSize d).toInt
  | .member _ (.rollback size :: _) => 0 ≤ size.toInt
  | .deferBytes rest => ∀ b ∈ rest, 0 ≤ b.toInt
  | _ => True

/-- The entries of a connection are within the per-file cap. -/
structure Capped (cfg : Config) (ft : AList (fun _ : String => Int64)) (pc : Pc D) : Prop where
  entry : ∀ t n, ft.lookup t = some n → 0 ≤ n.toInt ∧ n ≤ cfg.maxFileBytes
  checked : Checked cfg ft pc

variable {s s' : State D} {ft ft' : AList (fun _ : String => Int64)} {pc pc' : Pc D}
  {n n' : Int64}

theorem due_settled (h : pc.settled = true) (ft : AList (fun _ : String => Int64)) :
    due ft pc = bytes ft ∧ taken ft pc = bytes ft := by
  unfold Pc.settled at h
  unfold due taken unreleased
  split at h <;> simp_all

theorem checked_settled (h : pc.settled = true) (ft : AList (fun _ : String => Int64)) :
    Checked cfg ft pc := by
  unfold Pc.settled at h
  unfold Checked
  split at h <;> simp_all

theorem taken_le_due (h : Checked cfg ft pc) : taken ft pc ≤ due ft pc := by
  unfold due
  split
  · have hsize : 0 ≤ Int64.toInt _ := h
    simp only [taken, unreleased]
    omega
  · exact le_rfl

theorem unreleased_le_taken (h : Checked cfg ft pc) : unreleased ft pc ≤ taken ft pc := by
  unfold taken
  split
  · have hsize := h.2.2.1
    simp only [unreleased]
    omega
  · exact le_rfl

theorem unreleased_nonneg (h : Capped cfg ft pc) : 0 ≤ unreleased ft pc := by
  have hft : 0 ≤ bytes ft := bytes_nonneg fun t n hn => (h.entry t n hn).1
  unfold unreleased
  split
  · rename_i t _
    refine bytes_nonneg fun t' n hn => ?_
    obtain rfl | ht := eq_or_ne t' t
    · simp at hn
    · exact (h.entry t' n (by rwa [AList.lookup_erase_ne ht] at hn)).1
  · refine List.sum_nonneg fun x hx => ?_
    obtain ⟨b, hb, rfl⟩ := List.mem_map.mp hx
    exact h.checked b hb
  · exact le_rfl
  · exact hft

theorem due_nonneg (h : Capped cfg ft pc) : 0 ≤ due ft pc :=
  (unreleased_nonneg h).trans ((unreleased_le_taken h.checked).trans (taken_le_due h.checked))

theorem chunkSize_fits {d : D} {x : Int64} (hx : 0 ≤ x.toInt)
    (h : x.toInt + Payload.len d < 2 ^ 63) : 0 ≤ (chunkSize d).toInt ∧
      (x + chunkSize d).toInt = x.toInt + (chunkSize d).toInt := by
  have hsize : (chunkSize d).toInt = Payload.len d := Int64.toInt_ofNat_of_lt (by omega)
  have hpos : 0 ≤ (chunkSize d).toInt := by omega
  exact ⟨hpos, toInt_add_of_lt hx hpos (by omega)⟩

/-! ## Steps -/

theorem Capped.insert (h : Capped cfg ft pc) {t : String} {v : Int64} (h0 : 0 ≤ v.toInt)
    (hv : v ≤ cfg.maxFileBytes) (hpc : pc'.settled = true) : Capped cfg (ft.insert t v) pc' := by
  refine ⟨fun t' n hn => ?_, checked_settled hpc _⟩
  obtain rfl | ht := eq_or_ne t' t
  · rw [AList.lookup_insert] at hn
    cases hn
    exact ⟨h0, hv⟩
  · exact h.entry t' n (by rwa [AList.lookup_insert_ne ht] at hn)

theorem bytes_drop (h : Capped cfg ft pc) (t : String) : bytes (ft.erase t) ≤ bytes ft := by
  rw [bytes_erase t ft]
  cases ht : ft.lookup t with
  | none => simp
  | some v =>
    have hv := (h.entry t v ht).1
    simpa using hv

/-- The counter moves at least as far as what is due, and a chunk is taken under the cap. -/
theorem Books.capped (hfile : 0 ≤ cfg.maxFileBytes) (hb : Books cfg pc ft n pc' ft' n')
    (h : Capped cfg ft pc) (hfit : fits ft n pc = true) (hn : due ft pc ≤ n.toInt) :
    Capped cfg ft' pc' ∧ due ft' pc' - due ft pc ≤ n'.toInt - n.toInt ∧
      (taken ft' pc' ≤ taken ft pc ∨ n' ≤ cfg.maxInflightBytes) := by
  have hdue := due_nonneg h
  cases hb with
  | quiet hp hp' =>
    obtain ⟨hd, ht⟩ := due_settled hp ft
    obtain ⟨hd', ht'⟩ := due_settled hp' ft
    exact ⟨⟨h.entry, checked_settled hp' ft⟩, by omega, .inl (by omega)⟩
  | start => exact ⟨⟨h.entry, trivial⟩, by simp [due, taken, unreleased], .inl le_rfl⟩
  | @reset r t kid d k pc' ft n hp' =>
    obtain ⟨hd', ht'⟩ := due_settled hp' (ft.insert t 0)
    have hbytes : bytes (ft.insert t 0) ≤ bytes ft := by
      rw [bytes_insert]
      simpa using bytes_drop h t
    refine ⟨h.insert (by simp) hfile hp', ?_, .inl ?_⟩
    · rw [hd']
      simp only [due, taken, unreleased]
      omega
    · rw [ht']
      exact hbytes
  | @check r t i d cur k ft n hcur hle =>
    have hentry := h.entry t cur hcur
    obtain ⟨hpos, hadd⟩ := chunkSize_fits (d := d) hentry.1
      (by simpa [fits, count, hcur] using hfit)
    refine ⟨⟨h.entry, hcur, Int64.not_lt.mp hle, hpos, hadd⟩, ?_, .inl le_rfl⟩
    simp [due, taken, unreleased]
  | @passed r t i d cur k ft n hle =>
    obtain ⟨hpos, hadd⟩ := chunkSize_fits (d := d) (hdue.trans hn) (by simpa [fits] using hfit)
    refine ⟨⟨h.entry, h.checked⟩, ?_, .inr (Int64.not_lt.mp hle)⟩
    simp only [due, taken, unreleased]
    omega
  | @refuse r t i d cur k k' ft n =>
    obtain ⟨hpos, hadd⟩ := chunkSize_fits (d := d) (hdue.trans hn) (by simpa [fits] using hfit)
    refine ⟨⟨h.entry, hpos⟩, ?_, .inl le_rfl⟩
    simp only [due, taken, unreleased]
    omega
  | @accept r t i d cur k pc' ft n hp' =>
    obtain ⟨hcur, hle, hpos, hadd⟩ := h.checked
    have hentry := (h.entry t cur hcur).1
    obtain ⟨hd', ht'⟩ := due_settled hp' (ft.insert t (cur + chunkSize d))
    have hbytes : bytes (ft.insert t (cur + chunkSize d)) = bytes ft + (chunkSize d).toInt := by
      rw [bytes_insert, bytes_erase t ft, hcur, hadd]
      simp only [Option.elim_some]
      omega
    refine ⟨h.insert (by omega) hle hp', ?_, .inl ?_⟩
    · rw [hd']
      simp only [due, taken]
      omega
    · rw [ht']
      simp only [taken]
      omega
  | @rollback r size k pc' ft n hp' =>
    have hsize : 0 ≤ size.toInt := h.checked
    have hft : 0 ≤ unreleased ft (.closeOut : Pc D) := unreleased_nonneg ⟨h.entry, trivial⟩
    obtain ⟨hd', ht'⟩ := due_settled hp' ft
    simp only [due, unreleased] at hn hft
    have hsub := toInt_add_neg_of_le (n := n) hsize (by omega)
    refine ⟨⟨h.entry, checked_settled hp' ft⟩, ?_, .inl ?_⟩
    · rw [hd']
      simp only [due]
      omega
    · rw [ht']
      exact le_rfl
  | @release r t b k ft n hlk =>
    have hb := (h.entry t b hlk).1
    have hft : 0 ≤ unreleased ft (.member r (.forget t :: k)) :=
      unreleased_nonneg ⟨h.entry, trivial⟩
    have hsum := bytes_erase t ft
    rw [hlk] at hsum
    simp only [Option.elim_some] at hsum
    simp only [due, taken, unreleased] at hn hft
    have hsub := toInt_add_neg_of_le (n := n) hb (by omega)
    refine ⟨⟨h.entry, trivial⟩, ?_, .inl ?_⟩
    · simp only [due, taken, unreleased]
      omega
    · simp only [taken, unreleased]
      omega
  | @forget r t k pc' ft n hp' =>
    obtain ⟨hd', ht'⟩ := due_settled hp' (ft.erase t)
    refine ⟨⟨fun t' v hv => ?_, checked_settled hp' _⟩, ?_, .inl ?_⟩
    · obtain rfl | ht := eq_or_ne t' t
      · simp at hv
      · exact h.entry t' v (by rwa [AList.lookup_erase_ne ht] at hv)
    · rw [hd']
      simp [due, taken, unreleased]
    · rw [ht']
      exact le_rfl
  | @take ft n =>
    refine ⟨⟨h.entry, fun b hb => ?_⟩, ?_, .inl ?_⟩
    · obtain ⟨⟨t, v⟩, he, rfl⟩ := List.mem_map.mp hb
      exact (h.entry t v (AList.mem_lookup_iff.mpr he)).1
    · simp [due, taken, unreleased, bytes, Function.comp_def]
    · simp [taken, unreleased, bytes, Function.comp_def]
  | @give b rest ft n =>
    have hpos : 0 ≤ b.toInt := h.checked b (by simp)
    have hrest : 0 ≤ unreleased ft (.deferBytes rest : Pc D) :=
      unreleased_nonneg ⟨h.entry, fun x hx => h.checked x (List.mem_cons_of_mem b hx)⟩
    simp only [due, taken, unreleased, List.map_cons, List.sum_cons] at hn hrest
    have hsub := toInt_add_neg_of_le (n := n) hpos (by omega)
    refine ⟨⟨h.entry, fun x hx => h.checked x (List.mem_cons_of_mem b hx)⟩, ?_, .inl ?_⟩
    · simp only [due, taken, unreleased, List.map_cons, List.sum_cons]
      omega
    · simp only [taken, unreleased, List.map_cons, List.sum_cons]
      omega
  | exit => exact ⟨⟨h.entry, trivial⟩, by simp [due, taken, unreleased], .inl le_rfl⟩

/-! ## Runs -/

/-- The books of the whole relay. -/
structure Solvent (cfg : Config) (s : State D) : Prop where
  drawn : ∀ c ∈ s.started, c ∈ s.drawn
  started : ∀ c, (s.conns c).pc ≠ .absent → c ∈ s.started
  capped : ∀ c, Capped cfg (s.conns c).fileTransfers (s.conns c).pc
  counted : ∑ c ∈ s.started, due (s.conns c).fileTransfers (s.conns c).pc ≤ s.inflight.toInt
  under : ∑ c ∈ s.started, taken (s.conns c).fileTransfers (s.conns c).pc ≤
    cfg.maxInflightBytes.toInt

namespace Solvent

variable {c : ClientId} {a : Act D}

theorem init (hcap : 0 ≤ cfg.maxInflightBytes) : Solvent cfg ({} : State D) where
  drawn := by simp
  started := by simp
  capped c := ⟨by simp, trivial⟩
  counted := by simp
  under := by simpa using Int64.le_iff_toInt_le.mp hcap

/-- A step that leaves transfers and counter alone. -/
theorem frame (h : Solvent cfg s) (hf : Frame s s') : Solvent cfg s' := by
  have hown : ∀ d, (s'.conns d).pc = (s.conns d).pc ∧
      (s'.conns d).fileTransfers = (s.conns d).fileTransfers := fun d => own_eq (congrFun hf.own d)
  refine ⟨fun d hd => hf.drawn (h.drawn d (hf.started ▸ hd)), fun d hd => ?_, fun d => ?_, ?_, ?_⟩
  · exact hf.started ▸ h.started d ((hown d).1 ▸ hd)
  · rw [(hown d).1, (hown d).2]
    exact h.capped d
  · simpa only [hf.inflight, hf.started, hown] using h.counted
  · simpa only [hf.started, hown] using h.under

/-- A new connection has no transfers. -/
theorem connect (h : Solvent cfg s) (hc : Connects c s s') : Solvent cfg s' := by
  have hns : c ∉ s.started := fun hm => hc.fresh (h.drawn c hm)
  have hown : ∀ d, d ≠ c → (s'.conns d).pc = (s.conns d).pc ∧
      (s'.conns d).fileTransfers = (s.conns d).fileTransfers := fun d hd => own_eq (hc.others d hd)
  obtain ⟨hdue, htaken⟩ := due_settled hc.settled (s'.conns c).fileTransfers
  have hsum : ∀ (f : AList (fun _ : String => Int64) → Pc D → Int),
      f (s'.conns c).fileTransfers (s'.conns c).pc = bytes (s'.conns c).fileTransfers →
      ∑ d ∈ s'.started, f (s'.conns d).fileTransfers (s'.conns d).pc =
        ∑ d ∈ s.started, f (s.conns d).fileTransfers (s.conns d).pc := by
    intro f hf
    rw [hc.started, Finset.sum_insert hns, hf, hc.empty, bytes_empty, zero_add]
    refine Finset.sum_congr rfl fun d hd => ?_
    obtain ⟨hpc, hft⟩ := hown d (ne_of_mem_of_not_mem hd hns)
    rw [hpc, hft]
  refine ⟨fun d hd => ?_, fun d hd => ?_, fun d => ?_, ?_, ?_⟩
  · rw [hc.drawn]
    obtain rfl | hd := Finset.mem_insert.mp (hc.started ▸ hd)
    · exact List.mem_cons_self
    · exact List.mem_cons_of_mem c (h.drawn d hd)
  · rw [hc.started]
    by_cases hdc : d = c
    · exact hdc ▸ Finset.mem_insert_self c s.started
    · exact Finset.mem_insert_of_mem (h.started d ((hown d hdc).1 ▸ hd))
  · by_cases hdc : d = c
    · subst hdc
      exact ⟨by simp [hc.empty], checked_settled hc.settled _⟩
    · obtain ⟨hpc, hft⟩ := hown d hdc
      rw [hpc, hft]
      exact h.capped d
  · rw [hsum due hdue, hc.inflight]
    exact h.counted
  · rw [hsum taken htaken]
    exact h.under

/-- One connection moves. -/
theorem moves (hfile : 0 ≤ cfg.maxFileBytes) (h : Solvent cfg s) (hc : c ∈ s.started)
    (hfit : fits (s.conns c).fileTransfers s.inflight (s.conns c).pc = true)
    (hm : Moves cfg c s s') : Solvent cfg s' := by
  have hown : ∀ d, d ≠ c → (s'.conns d).pc = (s.conns d).pc ∧
      (s'.conns d).fileTransfers = (s.conns d).fileTransfers := fun d hd => own_eq (hm.others d hd)
  have hrest : ∀ (f : AList (fun _ : String => Int64) → Pc D → Int),
      ∑ d ∈ s.started.erase c, f (s'.conns d).fileTransfers (s'.conns d).pc =
        ∑ d ∈ s.started.erase c, f (s.conns d).fileTransfers (s.conns d).pc := by
    intro f
    refine Finset.sum_congr rfl fun d hd => ?_
    obtain ⟨hpc, hft⟩ := hown d (Finset.ne_of_mem_erase hd)
    rw [hpc, hft]
  have hnonneg : 0 ≤ ∑ d ∈ s.started.erase c, due (s.conns d).fileTransfers (s.conns d).pc :=
    Finset.sum_nonneg fun d _ => due_nonneg (h.capped d)
  have hcounted := h.counted
  have hunder := h.under
  rw [← Finset.add_sum_erase _ _ hc] at hcounted hunder
  obtain ⟨hcapped, hdue, htaken⟩ := hm.books.capped hfile (h.capped c) hfit (by omega)
  have hcapped' : ∀ d, Capped cfg (s'.conns d).fileTransfers (s'.conns d).pc := by
    intro d
    by_cases hdc : d = c
    · exact hdc ▸ hcapped
    · obtain ⟨hpc, hft⟩ := hown d hdc
      rw [hpc, hft]
      exact h.capped d
  have hcounted' : ∑ d ∈ s'.started, due (s'.conns d).fileTransfers (s'.conns d).pc ≤
      s'.inflight.toInt := by
    rw [hm.started, ← Finset.add_sum_erase _ _ hc, hrest due]
    omega
  refine ⟨fun d hd => hm.drawn (h.drawn d (hm.started ▸ hd)), fun d hd => ?_, hcapped',
    hcounted', ?_⟩
  · rw [hm.started]
    by_cases hdc : d = c
    · exact hdc ▸ hc
    · exact h.started d ((hown d hdc).1 ▸ hd)
  · obtain htaken | hcap := htaken
    · rw [hm.started, ← Finset.add_sum_erase _ _ hc, hrest taken]
      omega
    · -- the chunk was compared after its addition, when everything due was on the counter
      have hle : ∑ d ∈ s'.started, taken (s'.conns d).fileTransfers (s'.conns d).pc ≤
          ∑ d ∈ s'.started, due (s'.conns d).fileTransfers (s'.conns d).pc :=
        Finset.sum_le_sum fun d _ => taken_le_due (hcapped' d).checked
      exact hle.trans (hcounted'.trans (Int64.le_iff_toInt_le.mp hcap))

theorem step (hs : Sound cfg s) (hfile : 0 ≤ cfg.maxFileBytes) (h : Solvent cfg s)
    (hfit : ∀ c ∈ s.started, fits (s.conns c).fileTransfers s.inflight (s.conns c).pc = true)
    (hstep : step cfg s a = some s') : Solvent cfg s' := by
  obtain ⟨c, hc⟩ | hf | ⟨c, hpc, hm, -⟩ := step_moves hs hstep
  · exact h.connect hc
  · exact h.frame hf
  · exact h.moves hfile (h.started c hpc) (hfit c (h.started c hpc)) hm

end Solvent

/-- No counter is about to leave the range of an `int64`. -/
def InRange (s : State D) (_ : Act D) : Prop :=
  ∀ c ∈ s.started, fits (s.conns c).fileTransfers s.inflight (s.conns c).pc = true

instance instDecidableInRange (s : State D) (a : Act D) : Decidable (InRange s a) :=
  inferInstanceAs (Decidable (∀ c ∈ s.started, _))

/-- **The caps hold.** In every run in which no addition leaves the range of an `int64`: every entry
of a connection's map is at most `MaxFileBytes`, the counter is at least the total of the bytes not
yet released, and that total is at most `MaxInflightBytes`. -/
theorem transfer_caps (hfile : 0 ≤ cfg.maxFileBytes) (hcap : 0 ≤ cfg.maxInflightBytes)
    (hr : (relay (D := D) cfg).Reach InRange s) :
    (∀ c t n, (s.conns c).fileTransfers.lookup t = some n → n ≤ cfg.maxFileBytes) ∧
      ∑ c ∈ s.started, unreleased (s.conns c).fileTransfers (s.conns c).pc ≤ s.inflight.toInt ∧
      ∑ c ∈ s.started, unreleased (s.conns c).fileTransfers (s.conns c).pc ≤
        cfg.maxInflightBytes.toInt := by
  have h : Solvent cfg s := hr.invariant (Solvent.init hcap)
    fun _ _ _ hr' h hok hstep => h.step (sound_of_reach hr') hfile hok hstep
  have htaken : ∑ c ∈ s.started, unreleased (s.conns c).fileTransfers (s.conns c).pc ≤
      ∑ c ∈ s.started, taken (s.conns c).fileTransfers (s.conns c).pc :=
    Finset.sum_le_sum fun c _ => unreleased_le_taken (h.capped c).checked
  have hdue : ∑ c ∈ s.started, taken (s.conns c).fileTransfers (s.conns c).pc ≤
      ∑ c ∈ s.started, due (s.conns c).fileTransfers (s.conns c).pc :=
    Finset.sum_le_sum fun c _ => taken_le_due (h.capped c).checked
  exact ⟨fun c t n hn => ((h.capped c).entry t n hn).2,
    htaken.trans (hdue.trans h.counted), htaken.trans h.under⟩

end

theorem chunked_some : ((relay sampleConfig).runFrom InRange {}
    (sampleOpen ++ sampleChunk)).isSome = true := by decide +kernel

/-- Client 1 has sent 3 bytes of "f"; nothing was near the end of the range. -/
def chunked : State String :=
  ((relay sampleConfig).runFrom InRange {} (sampleOpen ++ sampleChunk)).get chunked_some

theorem transfer_caps_sample :
    ∑ c ∈ chunked.started, unreleased (chunked.conns c).fileTransfers (chunked.conns c).pc ≤
      sampleConfig.maxInflightBytes.toInt :=
  (transfer_caps (by decide) (by decide) (Lib.Machine.reach_get chunked_some)).2.2

end E2EAnon.Relay
