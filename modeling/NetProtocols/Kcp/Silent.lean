import NetProtocols.Kcp.Emission
import NetProtocols.Kcp.OneFlush
import NetProtocols.Kcp.TryRead

/-!
# NetProtocols.Kcp.Silent — flushes that have nothing to write

A flush of a stream comes to its end only if it has nothing to write.  Here this is told from the control block before
the call, for a release build with `bytes` 0.5.

* `Kcb.Silent`: a flush of the control block has nothing to write; `silent_iff`.
* `silent_flush`: such a flush leaves nothing to write for the next, so the second flush of `poll_write` adds no
  condition to that of the first.
* `Kcb.FlushDue`, `Kcb.Quiet`: `update` comes to a flush, and to one with nothing to write; `tick_iff`.
* `Kcb.OfStream`: the control blocks of streams; `tick_flush_iff`: the two flushes of `poll_write`.
-/

namespace NetProtocols.Kcp

open Kcb Flushing

namespace Kcb

variable {k k' : Kcb} {f : Flushing} {now : UInt32}

/-- A flush of `k` has nothing to write: the buffer is empty, and no segment comes into it. -/
def Silent (k : Kcb) : Prop := k.updated = true → k.buffer = [] ∧ emissions k = []

instance (k : Kcb) : Decidable k.Silent :=
  inferInstanceAs (Decidable (k.updated = true → k.buffer = [] ∧ emissions k = []))

theorem emissions_pos (k : Kcb) : ∀ e ∈ emissions k, 0 < e := by
  intro e he
  simp only [emissions, List.mem_append, List.mem_map] at he
  rcases he with (⟨a, -, rfl⟩ | he) | ⟨seg, -, rfl⟩
  · decide
  · unfold probeSizes at he
    split at he
    · exact absurd he List.not_mem_nil
    · split_ifs at he <;> simp_all [kcpOverhead]
  · exact Nat.lt_of_lt_of_le (by decide) (Nat.le_add_right kcpOverhead _)

/-- **Nothing is written by a flush exactly when there was nothing to write.** -/
theorem silent_iff (hs : Sized k) (hf : k.flush shipped = some f) : f.Silent ↔ k.Silent := by
  have h : (∀ w ∈ f.writes, w.buffer.length ≤ 0) ↔ _ := writes_le_iff hs hf
  simp only [Nat.le_zero, List.length_eq_zero_iff] at h
  rw [Flushing.Silent, h, Silent]
  simp only [fits_zero_iff (emissions_pos k), List.length_eq_zero_iff]

/-- When `update` runs `flush`, the tick it is due at does not matter. -/
theorem silent_clocked (ts : UInt32) : (k.clocked now ts).Silent ↔ (k.clocked now 0).Silent := by
  unfold Silent
  rw [emissions_clocked]
  rfl

/-! ### A flush that is silent -/

theorem probeSizes_eq (k : Kcb) :
    ∃ t w pr, probeWindow .release k = some (k.setProbes t w pr) ∧
      probeSizes k = (if pr &&& kcpAskSend ≠ 0 then [kcpOverhead] else []) ++
        if pr &&& kcpAskTell ≠ 0 then [kcpOverhead] else [] := by
  obtain ⟨k₁, hk₁⟩ := Option.isSome_iff_exists.mp (probeWindow_release k)
  obtain ⟨t, w, pr, rfl⟩ := probeWindow_eq hk₁
  refine ⟨t, w, pr, hk₁, ?_⟩
  unfold probeSizes
  rw [hk₁]
  rfl

theorem probeSizes_eq_nil : probeSizes k = [] ↔
    ¬ (k.ProbeDue ∨ k.probe &&& kcpAskSend ≠ 0) ∧ ¬ k.probe &&& kcpAskTell ≠ 0 := by
  obtain ⟨t, w, pr, hk, hp⟩ := probeSizes_eq k
  obtain ⟨hask, htell⟩ := probe_asks hk
  rw [probe_setProbes] at hask htell
  rw [hp, List.append_eq_nil_iff, ← hask, ← htell]
  simp

/-- A probe timer that is not late is not late after a look at it. -/
theorem probeDue_again {t w pr : UInt32} (hk : probeWindow .release k = some (k.setProbes t w pr))
    (hd : ¬ k.ProbeDue) : ¬ (k.setProbes t w 0).ProbeDue := by
  rintro ⟨hclosed, hwait, hlate⟩
  replace hclosed : ¬ k.rmtWnd ≠ 0 := not_not_intro hclosed
  unfold probeWindow at hk
  rw [if_neg hclosed] at hk
  by_cases hnew : k.probeWait = 0
  · -- the timer has been set to run out at a later time
    rw [if_pos hnew] at hk
    obtain rfl : k.current + kcpProbeInit = t := congrArg (fun x => (x.map Kcb.tsProbe).getD 0) hk
    have hdiff : k.current.toInt32 - (k.current + kcpProbeInit).toInt32 = -kcpProbeInit.toInt32 := by
      rw [UInt32.toInt32_add]
      grind
    replace hlate : 0 ≤ k.current.toInt32 - (k.current + kcpProbeInit).toInt32 := hlate
    rw [hdiff] at hlate
    exact absurd hlate (by decide)
  · have hearly : ¬ 0 ≤ k.current.toInt32 - k.tsProbe.toInt32 := fun h => hd ⟨not_not.mp hclosed, hnew, h⟩
    rw [if_neg hnew] at hk
    simp only [timediff, Profile.subI32_release, Option.bind_eq_bind, Option.bind_some, if_neg hearly] at hk
    obtain rfl : k.tsProbe = t := congrArg (fun x => (x.map Kcb.tsProbe).getD 0) hk
    exact hearly hlate

theorem flushProbe_silent {b : Build} {ask : UInt32} {cmd : UInt8} {seg : Segment} (h : ¬ f.kcb.probe &&& ask ≠ 0) :
    flushProbe b ask cmd seg f = some (seg, f) := if_neg h

/-- With nothing to say, the control phases only look at the probe timer. -/
theorem flushControl_silent {t w pr : UInt32} (hack : k.acklist = [])
    (hk : probeWindow .release k = some (k.setProbes t w pr)) (hask : ¬ pr &&& kcpAskSend ≠ 0)
    (htell : ¬ pr &&& kcpAskTell ≠ 0) : flushControl shipped k = some { kcb := k.setProbes t w 0 } := by
  have hself : k.setAcklist [] = k := by
    rw [← hack]
    rfl
  have hk' : probeWindow shipped.profile k = some (k.setProbes t w pr) := hk
  simp only [flushControl, hack, flushAcks, hself, hk', Option.bind_eq_bind, Option.bind_some]
  rw [flushProbe_silent hask, Option.bind_some, flushProbe_silent htell]
  rfl

theorem fillWindow_silent {p : Profile} {edge wnd : UInt32} (h : admitted edge k.sndNxt k.sndQueue = []) :
    fillWindow p edge wnd k.sndQueue k = some k := by
  cases hq : k.sndQueue with
  | nil =>
    rw [fillWindow, ← hq]
  | cons seg rest =>
    rw [hq] at h
    unfold admitted at h
    unfold fillWindow
    split_ifs at h ⊢
    rw [← hq]

theorem flushData_silent {b : Build} {resent rtomin wnd : UInt32} {done rest : List Segment}
    (h : ∀ seg ∈ rest, due b.profile f.kcb.current resent seg = some .no) :
    flushData b resent rtomin wnd done rest f = some f := by
  induction rest generalizing done with
  | nil => rfl
  | cons seg rest ih =>
    unfold flushData
    rw [h seg List.mem_cons_self]
    have hlost : (Due.no == Due.timeout) = false := rfl
    have hchange : (Due.no == Due.fast) = false := rfl
    simp only [stamp, Option.bind_eq_bind, Option.bind_some, if_true, hlost, hchange, Bool.or_false]
    exact ih fun s hs => h s (List.mem_cons_of_mem seg hs)

/-- Without a loss, the congestion control only makes the window at least one. -/
theorem settleCwnd_silent (p : Profile) (k : Kcb) (cwnd resent : UInt32) :
    ∃ c i, settleCwnd p cwnd resent false false k = some (k.setCwnd k.ssthresh c i) := by
  unfold settleCwnd
  simp only [Bool.false_eq_true, if_false, Option.bind_eq_bind, Option.bind_some]
  split_ifs
  · exact ⟨1, _, rfl⟩
  · exact ⟨k.cwnd, k.incr, rfl⟩

/-- **What a silent flush changes**: the probe timer, and the congestion window. -/
theorem flush_of_silent (hu : k.updated = true) (hs : k.Silent) (hf : k.flush shipped = some f) :
    ∃ t w pr c i, probeWindow .release k = some (k.setProbes t w pr) ∧
      f.kcb = (k.setProbes t w 0).setCwnd k.ssthresh c i := by
  obtain ⟨hbuf, hem⟩ := hs hu
  simp only [emissions, List.append_eq_nil_iff, List.map_eq_nil_iff, List.filter_eq_nil_iff] at hem
  obtain ⟨⟨hack, hprobe⟩, hdue, hadmit⟩ := hem
  obtain ⟨t, w, pr, hk, hp⟩ := probeSizes_eq k
  rw [hp, List.append_eq_nil_iff] at hprobe
  have hask : ¬ pr &&& kcpAskSend ≠ 0 := fun h => by simp [h] at hprobe
  have htell : ¬ pr &&& kcpAskTell ≠ 0 := fun h => by simp [h] at hprobe
  have hno : ∀ seg ∈ k.sndBuf, due .release k.current k.resent seg = some .no := by
    intro seg hseg
    simpa [isDue] using hdue seg hseg
  unfold Kcb.flush at hf
  rw [if_neg (by simp [hu])] at hf
  simp only [Option.bind_eq_bind, Option.bind_eq_some_iff, Option.some.injEq] at hf
  obtain ⟨f₁, h₁, edge, he, k₂, h₂, f₃, h₃, k₄, h₄, rfl⟩ := hf
  -- phase by phase, with nothing to do but the look at the probe timer
  rw [flushControl_silent hack hk hask htell] at h₁
  obtain rfl := Option.some.inj h₁
  obtain rfl : edge = k.sndUna + k.flushWnd := Profile.add_eq_some he
  have hfill : fillWindow shipped.profile (k.sndUna + k.flushWnd) k.wndUnused k.sndQueue (k.setProbes t w 0) =
      some (k.setProbes t w 0) := fillWindow_silent (k := k.setProbes t w 0) hadmit
  obtain rfl := Option.some.inj (hfill.symm.trans h₂)
  have hdata : flushData shipped k.resent k.rtomin k.wndUnused [] k.sndBuf { kcb := k.setProbes t w 0 } =
      some { kcb := k.setProbes t w 0 } := flushData_silent hno
  obtain rfl := Option.some.inj (hdata.symm.trans h₃)
  have hrest : Flushing.writeRest shipped { kcb := k.setProbes t w 0 } =
      Flushing.writeAll { kcb := k.setProbes t w 0 } :=
    writeRest_shipped (show k.buffer.length ≤ maxLoad by rw [hbuf]; decide)
  obtain ⟨c, i, hset⟩ := settleCwnd_silent shipped.profile ((k.setProbes t w 0).setBuffer []) k.flushWnd k.resent
  rw [hrest] at h₄
  obtain rfl := Option.some.inj (hset.symm.trans h₄)
  refine ⟨t, w, pr, c, i, hk, ?_⟩
  have hself : k.setBuffer [] = k := by
    rw [← hbuf]
    rfl
  show (((k.setBuffer []).setProbes t w 0).setCwnd k.ssthresh c i) = _
  rw [hself]

/-- **A silent flush leaves nothing to write for the next**, when the congestion window is switched off. -/
theorem silent_flush (hnc : k.nocwnd = true) (hu : k.updated = true) (hs : k.Silent) (hf : k.flush shipped = some f) :
    f.kcb.Silent := by
  obtain ⟨t, w, pr, c, i, hk, e⟩ := flush_of_silent hu hs hf
  obtain ⟨hbuf, hem⟩ := hs hu
  simp only [emissions, List.append_eq_nil_iff, List.map_eq_nil_iff] at hem
  obtain ⟨⟨hack, hprobe⟩, hdue, hadmit⟩ := hem
  have hd : ¬ k.ProbeDue := fun h => (probeSizes_eq_nil.mp hprobe).1 (Or.inl h)
  have hflags : ∀ ask, f.kcb.probe &&& ask = 0 := by
    intro ask
    rw [e]
    exact UInt32.zero_and
  have hprobe' : probeSizes f.kcb = [] := by
    rw [probeSizes_eq_nil]
    refine ⟨?_, fun h => h (hflags _)⟩
    rintro (h | h)
    · rw [e] at h
      exact probeDue_again hk hd h
    · exact h (hflags _)
  have hwnd : f.kcb.flushWnd = k.flushWnd := by
    rw [e]
    simp only [flushWnd, setCwnd, setProbes, hnc]
    rfl
  intro _
  refine ⟨?_, ?_⟩
  · rw [e]
    exact hbuf
  · simp only [emissions, hprobe', hwnd, List.append_eq_nil_iff, List.map_eq_nil_iff]
    rw [e]
    exact ⟨⟨hack, trivial⟩, hdue, hadmit⟩

/-! ### `update` and `poll_write` -/

/-- `update` at `now` comes to a flush. -/
def FlushDue (k : Kcb) (now : UInt32) : Prop := (k.flushAt .release now).join.isSome

instance (k : Kcb) (now : UInt32) : Decidable (k.FlushDue now) :=
  inferInstanceAs (Decidable ((k.flushAt .release now).join.isSome = true))

/-- `update` at `now` has nothing to write. -/
def Quiet (k : Kcb) (now : UInt32) : Prop := k.FlushDue now → (k.clocked now 0).Silent

instance (k : Kcb) (now : UInt32) : Decidable (k.Quiet now) :=
  inferInstanceAs (Decidable (k.FlushDue now → (k.clocked now 0).Silent))

theorem update_shipped (hf : k.update shipped now = some f) :
    (¬ k.FlushDue now ∧ ∃ ts, f = { kcb := k.clocked now ts }) ∨
      k.FlushDue now ∧ ∃ ts, (k.clocked now ts).flush shipped = some f := by
  rw [update_eq_flushAt] at hf
  obtain ⟨due, hdue, hf⟩ := Option.bind_eq_some_iff.mp hf
  have hdue' : k.flushAt .release now = some due := hdue
  unfold FlushDue
  rw [hdue']
  cases due with
  | none =>
    obtain ⟨ts, hts⟩ := setClock_eq k now
    exact Or.inl ⟨by simp, ts, by rw [← hts]; exact (Option.some.inj hf).symm⟩
  | some k' =>
    obtain ⟨ts, rfl⟩ := flushAt_eq hdue
    exact Or.inr ⟨rfl, ts, hf⟩

theorem silent_update_iff (hs : Sized k) (hf : k.update shipped now = some f) : f.Silent ↔ k.Quiet now := by
  unfold Quiet
  rcases update_shipped hf with ⟨hdue, ts, rfl⟩ | ⟨hdue, ts, hf⟩
  · exact iff_of_true (fun w hw => absurd hw List.not_mem_nil) fun h => absurd h hdue
  · rw [silent_iff (sized_clocked.mpr hs) hf, silent_clocked]
    exact (imp_iff_right hdue).symm

/-- **`update` and `check` of a stream come to their end exactly when `update` has nothing to write.** -/
theorem tick_iff (hs : Sized k) (t : Tick) : (∃ dur k', k.tick shipped t = some (dur, k')) ↔ k.Quiet t.now := by
  obtain ⟨f, hf⟩ := Option.isSome_iff_exists.mp (update_release (b := shipped) rfl k t.now)
  rw [← silent_update_iff hs hf]
  constructor
  · rintro ⟨dur, k', h⟩
    obtain ⟨f', hf', hs, -⟩ := tick_eq_some.mp h
    obtain rfl := Option.some.inj (hf.symm.trans hf')
    exact hs
  · intro hsilent
    obtain ⟨dur, hdur⟩ := Option.isSome_iff_exists.mp (check_release f.kcb t.later)
    exact ⟨dur, f.kcb, tick_eq_some.mpr ⟨f, hf, hsilent, rfl, hdur⟩⟩

/-! ### The control block of a stream -/

/-- A run of calls leads to the control block, from the one that `connect` and `accept` build. -/
def OfStream (k : Kcb) : Prop :=
  ∃ conv ops e, run (Endpoint.exec shipped) (Endpoint.start conv streamConfig) ops = some e ∧ e.kcb = k

theorem ofStream_configured (conv : UInt32) : (Kcb.configured conv streamConfig).OfStream := ⟨conv, [], _, rfl, rfl⟩

namespace OfStream

theorem sized (h : k.OfStream) : Sized k := by
  obtain ⟨conv, ops, e, hr, rfl⟩ := h
  exact sized_run hr

theorem nocwnd (h : k.OfStream) : k.nocwnd = true := by
  obtain ⟨conv, ops, e, hr, rfl⟩ := h
  exact congrArg Settings.nocwnd (settings_run hr)

/-- The history of an endpoint does not tell what a call makes of its control block. -/
theorem exec {op : Op} {e : Endpoint} (h : k.OfStream) (he : Endpoint.exec shipped { kcb := k } op = some e) :
    e.kcb.OfStream := by
  obtain ⟨conv, ops, e₀, hr, rfl⟩ := h
  obtain ⟨e', he', hk⟩ : ∃ e', e₀.exec shipped op = some e' ∧ e'.kcb = e.kcb := by
    cases op <;>
    · simp only [Endpoint.exec, Option.map_eq_some_iff] at he ⊢
      obtain ⟨x, hx, rfl⟩ := he
      refine ⟨_, ⟨x, hx, rfl⟩, ?_⟩
      first | rfl | (obtain ⟨r, k⟩ := x; cases r <;> rfl)
  exact ⟨conv, ops ++ [op], e', run_append.mpr ⟨e₀, hr, run_cons.mpr ⟨e', he', rfl⟩⟩, hk⟩

theorem send {buf : List UInt8} {r : Except IoError ℕ} (h : k.OfStream) (hs : k.send .release buf = some (r, k')) :
    k'.OfStream := by
  have he : Endpoint.exec shipped { kcb := k } (.send buf) = some (Endpoint.sent _ buf (r, k')) :=
    congrArg (Option.map _) hs
  have hk := h.exec he
  cases r <;> exact hk

theorem recv {cap : ℕ} {r : Except IoError (List UInt8)} (h : k.OfStream) (hs : k.recv .release cap = some (r, k')) :
    k'.OfStream := by
  have he : Endpoint.exec shipped { kcb := k } (.recv cap) = some (Endpoint.got _ (r, k')) :=
    congrArg (Option.map _) hs
  have hk := h.exec he
  cases r <;> exact hk

theorem input {d : List UInt8} {r : Except IoError ℕ} (h : k.OfStream) (hs : k.input .release d = some (r, k')) :
    k'.OfStream := by
  have hs' : k.input shipped.profile d = some (r, k') := hs
  have he : Endpoint.exec shipped { kcb := k } (.input d) = some { kcb := k' } := by
    rw [Endpoint.exec, hs']
    rfl
  exact h.exec he

theorem tick {t : Tick} {dur : UInt32} (h : k.OfStream) (ht : k.tick shipped t = some (dur, k')) : k'.OfStream := by
  obtain ⟨f, hf, -, rfl, -⟩ := tick_eq_some.mp ht
  have he : Endpoint.exec shipped { kcb := k } (.update t.now none) = some (Endpoint.flushed _ none f) :=
    congrArg (Option.map _) hf
  exact h.exec he

theorem await {f : Flushing} (h : k.OfStream) (hf : k.flush shipped = some f) (ha : f.await = some k') :
    k'.OfStream := by
  obtain ⟨-, rfl⟩ := await_eq_some.mp ha
  have he : Endpoint.exec shipped { kcb := k } (.flush none) = some (Endpoint.flushed _ none f) :=
    congrArg (Option.map _) hf
  exact h.exec he

end OfStream

/-- **The two flushes of `poll_write` come to their end exactly when the first has nothing to write.** -/
theorem tick_flush_iff (h : k.OfStream) (t : Tick) :
    (∃ dur k₁ f k₂, k.tick shipped t = some (dur, k₁) ∧ k₁.flush shipped = some f ∧ f.await = some k₂) ↔
      (k.clocked t.now 0).Silent := by
  obtain ⟨f, hf⟩ := Option.isSome_iff_exists.mp (update_release (b := shipped) rfl k t.now)
  obtain ⟨f', hf'⟩ := Option.isSome_iff_exists.mp (flush_release (b := shipped) rfl f.kcb)
  have hquiet : f.Silent ↔ k.Quiet t.now := silent_update_iff h.sized hf
  have hsecond : f.Silent → (f'.Silent ↔ f.kcb.Silent) := by
    intro hs
    obtain ⟨dur, hdur⟩ := Option.isSome_iff_exists.mp (check_release f.kcb t.later)
    exact silent_iff (h.tick (tick_eq_some.mpr ⟨f, hf, hs, rfl, hdur⟩)).sized hf'
  have hboth : f.Silent ∧ f'.Silent ↔ (k.clocked t.now 0).Silent := by
    rcases update_shipped hf with ⟨hdue, ts, rfl⟩ | ⟨hdue, ts, hflush⟩
    · have hfirst : Flushing.Silent { kcb := k.clocked t.now ts } := hquiet.mpr fun hd => absurd hd hdue
      rw [and_iff_right hfirst, hsecond hfirst, silent_clocked]
    · rw [← silent_clocked ts, silent_iff (sized_clocked.mpr h.sized) hflush, and_iff_left_iff_imp]
      intro hs
      have hfirst := (silent_iff (sized_clocked.mpr h.sized) hflush).mpr hs
      have hnc : (k.clocked t.now ts).nocwnd = true := h.nocwnd
      exact (hsecond hfirst).mpr (silent_flush hnc rfl hs hflush)
  rw [← hboth]
  constructor
  · rintro ⟨dur, k₁, f₁, k₂, ht, hf₁, ha⟩
    obtain ⟨f₀, hf₀, hs, rfl, -⟩ := tick_eq_some.mp ht
    obtain rfl := Option.some.inj (hf.symm.trans hf₀)
    obtain rfl := Option.some.inj (hf'.symm.trans hf₁)
    exact ⟨hs, (await_eq_some.mp ha).1⟩
  · rintro ⟨hs, hs'⟩
    obtain ⟨dur, hdur⟩ := Option.isSome_iff_exists.mp (check_release f.kcb t.later)
    exact ⟨dur, f.kcb, f', f'.kcb, tick_eq_some.mpr ⟨f, hf, hs, rfl, hdur⟩, hf', await_eq_some.mpr ⟨hs', rfl⟩⟩

end Kcb

namespace KcpStream

variable {Addr : Type} {s s' : KcpStream Addr}

theorem ofStream_opened {conv now later : UInt32} {a : Addr} {server : Bool}
    (h : opened shipped conv a server now later = some s) : s.kcb.OfStream := by
  simp only [opened, kcpCheck, Option.bind_eq_bind, Option.bind_eq_some_iff, Option.some.injEq] at h
  obtain ⟨⟨dur, k⟩, ht, rfl⟩ := h
  exact (ofStream_configured conv).tick ht

theorem ofStream_udpRecv {pre : Option (List UInt8 × ℕ × Addr)} {t : Tick} {readiness : Except IoError Unit}
    {r : Except IoError (Option Addr)} (hs : s.kcb.OfStream)
    (h : s.udpRecvAndIucUpdate shipped pre t readiness = some (r, s')) : s'.kcb.OfStream := by
  have hnoted : ∀ s : KcpStream Addr, s.kcb.OfStream → s.udpRecvAndIucUpdate shipped none t readiness = some (r, s') →
      s'.kcb.OfStream := by
    intro s hs h
    unfold udpRecvAndIucUpdate at h
    dsimp only at h
    cases hsend : s.toSend with
    | none =>
      simp only [hsend, Option.some.injEq, Prod.mk.injEq] at h
      exact h.2 ▸ hs
    | some x =>
      simp only [hsend, Option.bind_eq_bind, Option.bind_eq_some_iff] at h
      obtain ⟨-, -, ⟨e, k⟩, hin, ⟨dur, k'⟩, ht, h⟩ := h
      have hk' : k'.OfStream := (hs.input hin).tick ht
      cases readiness <;>
      · obtain ⟨-, rfl⟩ := Prod.mk.inj (Option.some.inj h)
        exact hk'
  cases pre with
  | none => exact hnoted s hs h
  | some x => exact hnoted (s.setBuf x.1 (some x.2)) hs h

end KcpStream

end NetProtocols.Kcp
