import NetProtocols.Lib.Estimator
import NetProtocols.Kcp.Checked
import NetProtocols.Kcp.Schedule

/-!
# NetProtocols.Kcp.Estimate — the round-trip estimator

`rx_srtt` and `rx_rttval` are a running mean and a running mean deviation of the samples, in `u32`.  As long as its sums
fit, `update_ack` computes the same averages as natural numbers would give, and these stay within the samples.

* `Kcb.estimate`: the two averages of a control block; `updateAck_of_fits`: one sample.
* `SampleFits`, `SamplesFit`: the sums of one sample, and of all samples of a sequence, fit into `u32`.
* `Estimated`: what the fields say about the samples seen; `samplesFit_of_lt`: samples below `2 ^ 29` always fit.
* `estimator_within_iff`: the estimator stays within its samples, and overflows nowhere, if and only if the sums fit.
-/

namespace NetProtocols.Kcp

open Kcb

/-- The averages, as natural numbers. -/
def Kcb.estimate (k : Kcb) : Estimate := ⟨k.rxSrtt.toNat, k.rxRttval.toNat⟩

/-- The sums that a sample takes part in, from exact averages, fit into `u32`. -/
def SampleFits (interval : ℕ) (est : Estimate) (rtt : ℕ) : Prop :=
  (est.mean ≠ 0 → 3 * est.dev + gap est.mean rtt < 2 ^ 32 ∧ 7 * est.mean + rtt < 2 ^ 32) ∧
    (est.add 7 3 rtt).mean + max interval (4 * (est.add 7 3 rtt).dev) < 2 ^ 32

/-- The sums of every sample fit. -/
def SamplesFit (interval : ℕ) (samples : List ℕ) : Prop :=
  Meets (fun est rtt => some (est.add 7 3 rtt)) (SampleFits interval) ⟨0, 0⟩ samples

instance (interval : ℕ) (est : Estimate) (rtt : ℕ) : Decidable (SampleFits interval est rtt) :=
  inferInstanceAs (Decidable (_ ∧ _))

instance (interval : ℕ) (samples : List ℕ) : Decidable (SamplesFit interval samples) :=
  inferInstanceAs (Decidable (Meets _ _ _ _))

variable {p : Profile} {k k' : Kcb} {rtt : UInt32}

theorem sampleFits_iff : SampleFits k.interval.toNat k.estimate rtt.toNat ↔ RttFits k rtt.toNat := by
  have hz : k.estimate.mean = 0 ↔ k.rxSrtt = 0 := UInt32.toNat_inj (b := 0)
  have hadd : (k.estimate.add 7 3 rtt.toNat).mean = (k.smoothed rtt.toNat).1 ∧
      (k.estimate.add 7 3 rtt.toNat).dev = (k.smoothed rtt.toNat).2 := by
    unfold Estimate.add smoothed
    split_ifs with h1 h2 h2
    · exact ⟨rfl, rfl⟩
    · exact absurd (hz.mp h1) h2
    · exact absurd (hz.mpr h2) h1
    · exact ⟨rfl, rfl⟩
  unfold SampleFits RttFits
  rw [hadd.1, hadd.2, ne_eq, ne_eq, hz]
  rfl

/-- The two averages as one sample leaves them, before the timeout is set. -/
theorem estimate_averaged (hf : SampleFits k.interval.toNat k.estimate rtt.toNat)
    (h : (if k.rxSrtt = 0 then some { k with rxSrtt := rtt, rxRttval := rtt / 2 }
      else do
        let delta ← (if k.rxSrtt < rtt then p.sub rtt k.rxSrtt else p.sub k.rxSrtt rtt)
        let x ← p.mul 3 k.rxRttval
        let x ← p.add x delta
        let y ← p.mul 7 k.rxSrtt
        let y ← p.add y rtt
        let srtt := y / 8
        some { k with rxRttval := x / 4, rxSrtt := if srtt < 1 then 1 else srtt }) = some k') :
    k'.estimate = k.estimate.add 7 3 rtt.toNat ∧ ∃ srtt rttval, k' = { k with rxSrtt := srtt, rxRttval := rttval } := by
  have hz : k.estimate.mean = 0 ↔ k.rxSrtt = 0 := UInt32.toNat_inj (b := 0)
  unfold Estimate.add
  by_cases h0 : k.rxSrtt = 0
  · rw [if_pos h0] at h
    obtain rfl := Option.some.inj h
    rw [if_pos (hz.mpr h0)]
    refine ⟨?_, _, _, rfl⟩
    show Estimate.mk rtt.toNat (rtt / 2).toNat = _
    rw [UInt32.toNat_div]
    rfl
  · have hne : k.estimate.mean ≠ 0 := fun hm => h0 (hz.mp hm)
    obtain ⟨hdev, hmean⟩ := hf.1 hne
    obtain ⟨d, hd, hgap⟩ := delta_eq (p := p) k rtt
    simp only [if_neg h0, hd, Option.bind_eq_bind, Option.bind_some, Option.bind_eq_some_iff, Option.some.injEq] at h
    obtain ⟨x, hx, x', hx', y, hy, y', hy', rfl⟩ := h
    rw [if_neg hne]
    refine ⟨?_, _, _, rfl⟩
    obtain rfl := Profile.mul_eq_some hx
    obtain rfl := Profile.add_eq_some hx'
    obtain rfl := Profile.mul_eq_some hy
    obtain rfl := Profile.add_eq_some hy'
    have h3 : (3 : UInt32).toNat = 3 := rfl
    have h7 : (7 : UInt32).toNat = 7 := rfl
    have hgap' : d.toNat = gap k.rxSrtt.toNat rtt.toNat := hgap
    have hdev' : 3 * k.rxRttval.toNat + gap k.rxSrtt.toNat rtt.toNat < 2 ^ 32 := hdev
    have hmean' : 7 * k.rxSrtt.toNat + rtt.toNat < 2 ^ 32 := hmean
    have ex : (3 * k.rxRttval).toNat = 3 * k.rxRttval.toNat := toNat_mul_of_lt (by rw [h3]; omega)
    have ey : (7 * k.rxSrtt).toNat = 7 * k.rxSrtt.toNat := toNat_mul_of_lt (by rw [h7]; omega)
    have ex' : (3 * k.rxRttval + d).toNat = 3 * k.rxRttval.toNat + d.toNat := ex ▸ toNat_add_of_lt (by omega)
    have ey' : (7 * k.rxSrtt + rtt).toNat = 7 * k.rxSrtt.toNat + rtt.toNat := ey ▸ toNat_add_of_lt (by omega)
    show Estimate.mk (if (7 * k.rxSrtt + rtt) / 8 < 1 then 1 else (7 * k.rxSrtt + rtt) / 8).toNat
      ((3 * k.rxRttval + d) / 4).toNat = _
    rw [toNat_estimate, UInt32.toNat_div, ex', ey', hgap']
    rfl

/-- **One sample.**  Where its sums fit, `update_ack` returns, and the averages are those of natural numbers. -/
theorem updateAck_of_fits (p : Profile) (hf : SampleFits k.interval.toNat k.estimate rtt.toNat) :
    ∃ k' rto, k.updateAck p rtt = some k' ∧ k'.estimate = k.estimate.add 7 3 rtt.toNat ∧
      k'.interval = k.interval ∧ k'.rxMinrto = k.rxMinrto ∧ k'.rxRto = bound k.rxMinrto rto kcpRtoMax ∧
      rto.toNat = k'.rxSrtt.toNat + max k'.interval.toNat (4 * k'.rxRttval.toNat) := by
  have hsome : (k.updateAck p rtt).isSome := by
    cases p with
    | dev => exact (isSome_updateAck_iff rtt).mpr (sampleFits_iff.mp hf)
    | release => exact Scan.updateAck_release k rtt
  obtain ⟨k', h⟩ := Option.isSome_iff_exists.mp hsome
  have hret := h
  unfold updateAck at h
  obtain ⟨k₁, h₁, h⟩ := Option.bind_eq_some_iff.mp h
  obtain ⟨z, hz, h⟩ := Option.bind_eq_some_iff.mp h
  obtain ⟨rto, hrto, h⟩ := Option.bind_eq_some_iff.mp h
  obtain rfl := Option.some.inj h
  obtain ⟨hest, srtt, rttval, hk₁⟩ := estimate_averaged hf h₁
  obtain rfl := Profile.mul_eq_some hz
  obtain rfl := Profile.add_eq_some hrto
  have hsum : k₁.rxSrtt.toNat + max k₁.interval.toNat (4 * k₁.rxRttval.toNat) < 2 ^ 32 := by
    have hi : k₁.interval = k.interval := by rw [hk₁]
    have hfit := hf.2
    rw [← hest] at hfit
    rw [hi]
    exact hfit
  have h4 : (4 : UInt32).toNat = 4 := rfl
  have ez : (4 * k₁.rxRttval).toNat = 4 * k₁.rxRttval.toNat := toNat_mul_of_lt (by rw [h4]; omega)
  have emax : (max k₁.interval (4 * k₁.rxRttval)).toNat = max k₁.interval.toNat (4 * k₁.rxRttval.toNat) := by
    rw [toNat_max, ez]
  refine ⟨_, k₁.rxSrtt + max k₁.interval (4 * k₁.rxRttval), hret, hest, ?_, ?_, ?_, ?_⟩
  · rw [hk₁]
  · rw [hk₁]
  · rw [hk₁]
  · rw [toNat_add_of_lt (by rw [emax]; exact hsum), emax]

/-! ### A sequence of samples -/

/-- What the fields say about the samples seen: `rx_srtt` is between the smallest and the largest of them, or 1 where
that is larger, `rx_rttval` is not above the largest, and `rx_rto` is within its bounds and leaves time for a round trip
and a flush interval. -/
structure Estimated (k : Kcb) (seen : List UInt32) : Prop where
  low : ∃ lo ∈ seen, lo ≤ k.rxSrtt
  high : ∃ hi ∈ seen, k.rxSrtt ≤ max hi 1 ∧ k.rxRttval ≤ hi
  minrto : k.rxMinrto ≤ k.rxRto
  maxrto : k.rxRto ≤ 60000
  enough : min 60000 (k.rxSrtt.toNat + k.interval.toNat) ≤ k.rxRto.toNat

/-- The fields after the samples `seen`, which fitted. -/
structure Sampled (k₀ k : Kcb) (seen : List UInt32) : Prop where
  estimate : k.estimate = Estimate.of 7 3 (seen.map UInt32.toNat)
  interval : k.interval = k₀.interval
  minrto : k.rxMinrto = k₀.rxMinrto

section Samples

variable {k₀ : Kcb} {seen samples : List UInt32}

theorem bound_rto {lower : UInt32} (h : lower ≤ kcpRtoMax) (rto : UInt32) :
    lower ≤ bound lower rto kcpRtoMax ∧ bound lower rto kcpRtoMax ≤ 60000 ∧
      min 60000 rto.toNat ≤ (bound lower rto kcpRtoMax).toNat := by
  have hmax : kcpRtoMax.toNat = 60000 := rfl
  have hsixty : (60000 : UInt32).toNat = 60000 := rfl
  have hle := UInt32.le_iff_toNat_le.mp h
  have hbound : (bound lower rto kcpRtoMax).toNat = min (max lower.toNat rto.toNat) 60000 := by
    rw [bound, toNat_min, toNat_max, hmax]
  rw [UInt32.le_iff_toNat_le, UInt32.le_iff_toNat_le, hbound, hsixty]
  omega

/-- **One more sample that fits**: the averages are within the samples, and the timeout within its bounds. -/
theorem Sampled.step (h : Sampled k₀ k seen) (hmin : k₀.rxMinrto ≤ kcpRtoMax)
    (hf : SampleFits k.interval.toNat k.estimate rtt.toNat) :
    ∃ k', k.updateAck .dev rtt = some k' ∧ k'.estimate = k.estimate.add 7 3 rtt.toNat ∧
      Sampled k₀ k' (seen ++ [rtt]) ∧ Estimated k' (seen ++ [rtt]) := by
  obtain ⟨k', rto, hret, hest, hi, hm, hrto, hsum⟩ := updateAck_of_fits .dev hf
  have hall : k'.estimate = Estimate.of 7 3 ((seen ++ [rtt]).map UInt32.toNat) := by
    rw [hest, h.estimate, List.map_append, List.map_singleton, Estimate.of_concat]
  have hwithin : Estimate.Within ((seen ++ [rtt]).map UInt32.toNat) k'.estimate :=
    hall ▸ Estimate.within_of (by simp)
  obtain ⟨⟨lo, hlo, hlow⟩, hi', hhi, hmean, hdev⟩ := hwithin
  obtain ⟨a, ha, rfl⟩ := List.mem_map.mp hlo
  obtain ⟨c, hc, rfl⟩ := List.mem_map.mp hhi
  obtain ⟨h1, h2, h3⟩ := bound_rto (h.minrto ▸ hmin) rto
  refine ⟨k', hret, hest, ⟨hall, hi.trans h.interval, hm.trans h.minrto⟩, ⟨a, ha, UInt32.le_iff_toNat_le.mpr hlow⟩,
    ⟨c, hc, ?_, UInt32.le_iff_toNat_le.mpr hdev⟩, ?_, ?_, ?_⟩
  · rw [UInt32.le_iff_toNat_le, toNat_max]
    exact Nat.le_trans hmean (Nat.le_max_left _ _)
  · rw [hm, hrto]
    exact h1
  · rw [hrto]
    exact h2
  · rw [hrto]
    omega

theorem Sampled.run_iff (h : Sampled k₀ k seen) (hmin : k₀.rxMinrto ≤ kcpRtoMax) (samples : List UInt32) :
    Meets (fun est rtt => some (est.add 7 3 rtt)) (SampleFits k₀.interval.toNat) k.estimate (samples.map UInt32.toNat) ↔
      ∀ l rtt rest, samples = l ++ rtt :: rest →
        ∃ k', run (fun k rtt => k.updateAck .dev rtt) k (l ++ [rtt]) = some k' ∧ Estimated k' (seen ++ l ++ [rtt]) := by
  induction samples generalizing k seen with
  | nil => exact iff_of_true trivial fun l rtt rest hl => absurd hl (by simp)
  | cons r samples ih =>
    constructor
    · rintro ⟨hf, hrest⟩ l rtt rest hl
      rw [← h.interval] at hf
      -- the first sample fits, and the others are judged from the state behind it
      obtain ⟨k₁, hret, hest, hs, he⟩ := h.step hmin hf
      cases l with
      | nil =>
        obtain ⟨rfl, -⟩ := List.cons.inj hl
        exact ⟨k₁, run_cons.mpr ⟨k₁, hret, rfl⟩, by rw [List.append_nil]; exact he⟩
      | cons r' l =>
        obtain ⟨rfl, htail⟩ := List.cons.inj hl
        have hmeets := hrest _ rfl
        rw [← hest] at hmeets
        obtain ⟨k', hrun, he'⟩ := (ih hs).mp hmeets l rtt rest htail
        refine ⟨k', run_cons.mpr ⟨k₁, hret, hrun⟩, ?_⟩
        rwa [List.append_assoc seen, List.singleton_append] at he'
    · intro hall
      obtain ⟨k', hrun, -⟩ := hall [] r samples rfl
      obtain ⟨k₁, hret, -⟩ := run_cons.mp hrun
      have hf : SampleFits k.interval.toNat k.estimate r.toNat :=
        sampleFits_iff.mpr ((isSome_updateAck_iff r).mp (Option.isSome_iff_exists.mpr ⟨k₁, hret⟩))
      obtain ⟨k₂, hret₂, hest, hs, -⟩ := h.step hmin hf
      refine ⟨h.interval ▸ hf, ?_⟩
      rintro _ ⟨⟩
      rw [← hest]
      refine (ih hs).mpr fun l rtt rest hl => ?_
      obtain ⟨k', hrun, he⟩ := hall (r :: l) rtt rest (congrArg (r :: ·) hl)
      obtain ⟨k₃, hret₃, hrun⟩ := run_cons.mp hrun
      obtain rfl := Option.some.inj (hret₂.symm.trans hret₃)
      refine ⟨k', hrun, ?_⟩
      rwa [List.append_assoc seen, List.singleton_append]

end Samples

/-- Samples below `2 ^ 29` fit: seven times the mean and one more are below `2 ^ 32`. -/
theorem samplesFit_of_lt {interval : ℕ} {samples : List ℕ} (hi : interval ≤ 5000) (h : ∀ x ∈ samples, x < 2 ^ 29) :
    SamplesFit interval samples := by
  have hall : ∀ est : Estimate, est.mean ≤ 2 ^ 29 - 1 → est.dev ≤ 2 ^ 29 - 1 →
      Meets (fun est rtt => some (est.add 7 3 rtt)) (SampleFits interval) est samples := by
    induction samples with
    | nil => exact fun _ _ _ => trivial
    | cons x samples ih =>
      intro est hmean hdev
      have hx : x ≤ 2 ^ 29 - 1 := Nat.le_sub_one_of_lt (h x List.mem_cons_self)
      obtain ⟨hmean', hdev'⟩ := Estimate.le_add (u := 7) (v := 3) hmean hdev hx
      have hgap : gap est.mean x ≤ 2 ^ 29 - 1 := gap_le hmean hx
      refine ⟨⟨fun _ => ⟨by omega, by omega⟩, by omega⟩, ?_⟩
      rintro _ ⟨⟩
      exact ih (fun y hy => h y (List.mem_cons_of_mem _ hy)) _ hmean' hdev'
  exact hall ⟨0, 0⟩ (by decide) (by decide)

/-- **When the estimator stays within its samples.**  From `Kcb::new` with any setting, for any sequence of samples:
after each of them the fields are within the samples seen and within their bounds, and a build with overflow checks has
gone on, if and only if the sums of every sample fit into `u32`.  They do if all samples are below `2 ^ 29`. -/
theorem estimator_within_iff (conv : UInt32) (c : Config) (samples : List UInt32) :
    ((∀ seen rtt rest, samples = seen ++ rtt :: rest →
      ∃ k, run (fun k rtt => k.updateAck .dev rtt) (configured conv c) (seen ++ [rtt]) = some k ∧
        Estimated k (seen ++ [rtt])) ↔
      SamplesFit (configured conv c).interval.toNat (samples.map UInt32.toNat)) ∧
    ((∀ rtt ∈ samples, rtt.toNat < 2 ^ 29) →
      SamplesFit (configured conv c).interval.toNat (samples.map UInt32.toNat)) := by
  have hmin : (configured conv c).rxMinrto ≤ kcpRtoMax := by
    rcases minrto_configured conv c with h | h <;> rw [h] <;> decide
  have hzero : (configured conv c).estimate = ⟨0, 0⟩ := by
    obtain ⟨sndWnd, rcvWnd, nodelay, rxMinrto, interval, fastresend, h⟩ := configured_eq conv c
    rw [h]
    rfl
  have hstart : Sampled (configured conv c) (configured conv c) [] := ⟨hzero, rfl, rfl⟩
  constructor
  · have hiff := hstart.run_iff hmin samples
    rw [hzero] at hiff
    exact hiff.symm
  · intro h
    refine samplesFit_of_lt (intervalFits_start conv c).2 fun x hx => ?_
    obtain ⟨rtt, hmem, rfl⟩ := List.mem_map.mp hx
    exact h rtt hmem

/-- The bound cannot be larger. -/
example : ¬ SamplesFit 100 [2 ^ 29, 2 ^ 29] := by decide

/-- An acknowledgement with a forged time stamp makes the largest sample there is, and the timeout overflows. -/
theorem estimator_overflows :
    (configured 7 {}).input .dev (encodes [{ conv := 7, cmd := kcpCmdAck, wnd := 128, ts := 2147483649 }]) = none ∧
      ¬ ∀ (conv : UInt32) (c : Config) (samples : List UInt32), (∀ rtt ∈ samples, rtt.toNat < 2 ^ 31) →
        ∀ seen rtt rest, samples = seen ++ rtt :: rest →
          ∃ k, run (fun k rtt => k.updateAck .dev rtt) (configured conv c) (seen ++ [rtt]) = some k ∧
            Estimated k (seen ++ [rtt]) := by
  refine ⟨by decide +kernel, fun hall => ?_⟩
  have hsample : ∀ rtt ∈ [(2147483647 : UInt32)], rtt.toNat < 2 ^ 31 := by
    intro rtt hr
    obtain rfl := List.mem_singleton.mp hr
    decide
  obtain ⟨k, hrun, -⟩ := hall 7 {} [2147483647] hsample [] 2147483647 [] rfl
  have hnone : run (fun k rtt => k.updateAck .dev rtt) (configured 7 {}) [2147483647] = none := by decide +kernel
  exact absurd (hrun.symm.trans hnone) (by simp)

end NetProtocols.Kcp
