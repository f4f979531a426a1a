import NetProtocols.Kcp.Trace
import NetProtocols.Kcp.Fragments
import NetProtocols.Kcp.SendInv

/-!
# NetProtocols.Kcp.Outbound — what the outgoing segments look like

* `Fixed.IsData`: a PUSH segment of the conversation, no longer than `send` cuts them; `outbound_run`: in every
  reachable state `snd_buf` holds such segments only.
* `outgoing_cases`: the outgoing segments are acknowledgements, at most one probe of each kind, and data segments; all
  of them tell the window that is unused when the flush begins.
* `Endpoint.output`, `output_exec`: the bytes that a call encodes are whole segments; `emitted`, `output_run`: those of
  a run of completed flushes.
-/

namespace NetProtocols.Kcp

open Kcb Flushing

/-! ### The segments of `snd_buf` -/

/-- A data segment of the conversation `conv`. -/
structure Fixed.IsData (conv : UInt32) (x : Fixed) : Prop where
  conv : x.conv = conv
  cmd : x.cmd = kcpCmdPush
  len : x.data.length ≤ kcpMtuDef - kcpOverhead

/-- The segments under way are data segments, and those that wait are as short. -/
structure Outbound (k : Kcb) : Prop where
  sndBuf : ∀ x ∈ k.sendSide.sndBuf, x.IsData k.conv
  sndQueue : ∀ seg ∈ k.sndQueue, seg.data.length ≤ kcpMtuDef - kcpOverhead
  mss : k.mss = kcpMtuDef - kcpOverhead
  stream : k.stream = false

namespace Outbound

variable {b : Build} {k k' : Kcb}

theorem of_shrinks (hk : Outbound k) (hset : k'.settings = k.settings) (hs : k.sendSide.Shrinks k'.sendSide) :
    Outbound k' := by
  have hconv : k'.conv = k.conv := congrArg Settings.conv hset
  have hqueue : k'.sndQueue = k.sndQueue := hs.queue
  constructor
  · intro x hx
    rw [hconv]
    exact hk.sndBuf x (hs.buf.subset hx)
  · rw [hqueue]
    exact hk.sndQueue
  · exact (congrArg Settings.mss hset).trans hk.mss
  · exact (congrArg Settings.stream hset).trans hk.stream

theorem flushStep {k₀ : Kcb} (h : FlushStep b k₀ k k') (hk : Outbound k) : Outbound k' := by
  cases h
  case assign seg rest wnd hq hlt =>
    have hqueue := hk.sndQueue
    rw [hq] at hqueue
    constructor
    · intro x hx
      simp only [sendSide, moveSegment, List.map_append, List.mem_append, List.map_cons, List.map_nil,
        List.mem_singleton] at hx
      rcases hx with hx | rfl
      · exact hk.sndBuf x hx
      · exact ⟨rfl, rfl, hqueue seg (by simp)⟩
    · intro s hs
      exact hqueue s (List.mem_cons_of_mem _ hs)
    · exact hk.mss
    · exact hk.stream
  case stamp done rest seg seg' xmit hb hs =>
    have hbuf := hk.sndBuf
    simp only [sendSide, hb, List.map_append, List.map_cons] at hbuf
    constructor
    · intro x hx
      simp only [sendSide, setSndBuf, List.map_append, List.map_cons, hs] at hx
      exact hbuf x hx
    · exact hk.sndQueue
    · exact hk.mss
    · exact hk.stream
  case settle cwnd resent lost change h =>
    obtain ⟨s, c, i, rfl⟩ := settleCwnd_eq h
    exact ⟨hk.sndBuf, hk.sndQueue, hk.mss, hk.stream⟩
  all_goals exact ⟨hk.sndBuf, hk.sndQueue, hk.mss, hk.stream⟩

theorem flushed {f : Flushing} (hf : Follows b k k f.kcb f.writes) (hk : Outbound k) (cut : Option ℕ) :
    Outbound (f.stopAt cut).1 :=
  (flushed_rule (I := Outbound) cut hf hk fun _ _ hi hs => hi.flushStep hs).1

theorem exec {e e' : Endpoint} {op : Op} (h : e.exec b op = some e') (hk : Outbound e.kcb) : Outbound e'.kcb := by
  refine exec_rule (I := Outbound) h ?_ ?_ ?_ fun f cut hf => hk.flushed hf cut
  · intro buf r k hs
    rcases send_message hk.stream (by rw [hk.mss]; decide) hs with ⟨err, rfl, rfl⟩ | ⟨n, rfl, hbuf, rfl⟩
    · exact hk
    · refine ⟨hk.sndBuf, ?_, hk.mss, hk.stream⟩
      intro seg hseg
      rcases List.mem_append.mp hseg with hseg | hseg
      · exact hk.sndQueue seg hseg
      · exact hk.mss ▸ length_data_fragments hseg
  · intro cap r k hs
    obtain ⟨h1, h2, h3⟩ := settings_recv hs
    exact hk.of_shrinks h1 (h3 ▸ .refl _)
  · intro d r k hs
    exact hk.of_shrinks (settings_input hs).1 (shrinks_input hs)

end Outbound

theorem outbound_start (conv : UInt32) (c : Config) : Outbound (Endpoint.start conv c).kcb := by
  obtain ⟨sndWnd, rcvWnd, nodelay, rxMinrto, interval, fastresend, h⟩ := configured_eq conv c
  rw [Endpoint.start, h]
  exact ⟨fun x hx => absurd hx List.not_mem_nil, fun s hs => absurd hs List.not_mem_nil, rfl, rfl⟩

/-- **In every reachable state `snd_buf` holds data segments only.** -/
theorem outbound_run {b : Build} {conv : UInt32} {c : Config} {ops : List Op} {e : Endpoint}
    (hr : run (Endpoint.exec b) (Endpoint.start conv c) ops = some e) : Outbound e.kcb :=
  run_invariant (I := fun e => Outbound e.kcb) (fun _ _ _ hk h => hk.exec h) hr (outbound_start conv c)

/-! ### The segments of a flush -/

variable {p : Profile} {k k' : Kcb}

/-- A data segment as it goes out: what its retransmissions keep is that of the segment, the rest is of the moment. -/
theorem mem_transmitted {resent rtomin wnd : UInt32} {l segs : List Segment}
    (h : transmitted p resent rtomin wnd k l = some segs) :
    ∀ s ∈ segs, s.wnd = wnd ∧ s.una = k.rcvNxt ∧ s.ts = k.current ∧ ∃ x ∈ l, s.fixed = x.fixed := by
  induction l generalizing k segs with
  | nil =>
    obtain rfl := Option.some.inj h
    intro s hs
    exact absurd hs List.not_mem_nil
  | cons seg rest ih =>
    simp only [transmitted, Option.bind_eq_bind, Option.bind_eq_some_iff, Option.some.injEq] at h
    obtain ⟨d, -, ⟨seg', k₁⟩, hs, segs', ht, rfl⟩ := h
    obtain ⟨hfix, xmit, rfl⟩ := stamp_eq hs
    have hrest : ∀ s ∈ segs', s.wnd = wnd ∧ s.una = k.rcvNxt ∧ s.ts = k.current ∧
        ∃ x ∈ seg :: rest, s.fixed = x.fixed := by
      intro s hs
      obtain ⟨h1, h2, h3, x, hx, h4⟩ := ih ht s hs
      exact ⟨h1, h2, h3, x, List.mem_cons_of_mem _ hx, h4⟩
    intro s hs
    split_ifs at hs
    · exact hrest s hs
    · rcases List.mem_cons.mp hs with rfl | hs
      · exact ⟨rfl, rfl, rfl, seg, by simp, hfix⟩
      · exact hrest s hs

theorem mem_fillWindow {edge wnd : UInt32} {queue : List Segment} (h : fillWindow p edge wnd queue k = some k') :
    ∀ s ∈ k'.sndBuf, s ∈ k.sndBuf ∨ s.conv = k.conv ∧ s.cmd = kcpCmdPush ∧ ∃ x ∈ queue, s.data = x.data := by
  induction queue generalizing k with
  | nil =>
    obtain rfl := Option.some.inj h
    exact fun s hs => Or.inl hs
  | cons seg rest ih =>
    unfold fillWindow at h
    split_ifs at h
    · obtain ⟨n, -, h⟩ := Option.bind_eq_some_iff.mp h
      intro s hs
      rcases ih h s hs with hs | ⟨h1, h2, x, hx, h3⟩
      · rcases List.mem_append.mp hs with hs | hs
        · exact Or.inl hs
        · obtain rfl := List.mem_singleton.mp hs
          exact Or.inr ⟨rfl, rfl, seg, by simp, rfl⟩
      · exact Or.inr ⟨h1, h2, x, List.mem_cons_of_mem _ hx, h3⟩
    · obtain rfl := Option.some.inj h
      exact fun s hs => Or.inl hs

/-- The data segments of a flush of `k`: of `snd_buf`, or made from `snd_queue`. -/
structure Kcb.Emits (k : Kcb) (s : Segment) : Prop where
  wnd : s.wnd = k.wndUnused
  una : s.una = k.rcvNxt
  ts : s.ts = k.current
  source : (∃ x ∈ k.sndBuf, s.fixed = x.fixed) ∨
    s.conv = k.conv ∧ s.cmd = kcpCmdPush ∧ ∃ x ∈ k.sndQueue, s.data = x.data

theorem Kcb.Emits.isData {s : Segment} (ho : Outbound k) (h : k.Emits s) : s.fixed.IsData k.conv := by
  rcases h.source with ⟨x, hx, e⟩ | ⟨hconv, hcmd, x, hx, e⟩
  · rw [e]
    exact ho.sndBuf x.fixed (List.mem_map_of_mem hx)
  · constructor
    · exact hconv
    · exact hcmd
    · show s.data.length ≤ _
      rw [e]
      exact ho.sndQueue x hx

/-- **The segments of a flush**, with the probe flags `pr` after the window probe. -/
theorem outgoing_cases {segs : List Segment} (hu : k.updated = true) (h : k.outgoing p = some segs) :
    ∃ t w pr data, probeWindow p (k.setAcklist []) = some ((k.setAcklist []).setProbes t w pr) ∧
      segs = k.acklist.map (ackSegment k.scratch) ++
        probeSegment kcpAskSend kcpCmdWask pr (k.acklist.foldl ackSegment k.scratch) ++
        probeSegment kcpAskTell kcpCmdWins pr (k.acklist.foldl ackSegment k.scratch) ++ data ∧
      ∀ s ∈ data, k.Emits s := by
  unfold outgoing at h
  rw [if_neg (by simp [hu])] at h
  simp only [Option.bind_eq_bind, Option.bind_eq_some_iff, Option.some.injEq] at h
  obtain ⟨k₁, hk₁, edge, -, k₂, hk₂, data, ht, rfl⟩ := h
  obtain ⟨t, w, pr, rfl⟩ := probeWindow_eq hk₁
  refine ⟨t, w, pr, data, hk₁, rfl, ?_⟩
  intro s hs
  obtain ⟨h1, h2, h3, x, hx, h4⟩ := mem_transmitted ht s hs
  obtain ⟨nxt, l, rest, e⟩ := fillWindow_eq hk₂
  refine ⟨h1, ?_, ?_, ?_⟩
  · rw [h2, e]
    rfl
  · rw [h3, e]
    rfl
  · rcases mem_fillWindow hk₂ x hx with hx | ⟨h5, h6, y, hy, h7⟩
    · exact Or.inl ⟨x, hx, h4⟩
    · refine Or.inr ⟨(congrArg Fixed.conv h4).trans h5, (congrArg Fixed.cmd h4).trans h6, y, hy, ?_⟩
      exact (congrArg Fixed.data h4).trans h7

/-- Every segment of a flush: an acknowledgement or a probe, which is header only, or a data segment. -/
theorem mem_outgoing {segs : List Segment} (hu : k.updated = true) (h : k.outgoing p = some segs) :
    ∀ s ∈ segs, Control k s ∧ (s.cmd = kcpCmdAck ∨ s.cmd = kcpCmdWask ∨ s.cmd = kcpCmdWins) ∨ k.Emits s := by
  have hscratch : ∀ (acks : List (UInt32 × UInt32)) (seg : Segment), Control k seg →
      Control k (acks.foldl ackSegment seg) := by
    intro acks
    induction acks with
    | nil => exact fun _ hc => hc
    | cons a acks ih => exact fun seg hc => ih _ ⟨hc.conv, hc.una, hc.wnd, hc.data⟩
  have hscratch₀ : Control k k.scratch := ⟨rfl, rfl, rfl, rfl⟩
  have hprobe : ∀ {ask pr : UInt32} {cmd : UInt8} {s : Segment},
      s ∈ probeSegment ask cmd pr (k.acklist.foldl ackSegment k.scratch) → Control k s ∧ s.cmd = cmd := by
    intro ask pr cmd s hs
    unfold probeSegment at hs
    split_ifs at hs
    · obtain rfl := List.mem_singleton.mp hs
      have hc := hscratch k.acklist k.scratch hscratch₀
      exact ⟨⟨hc.conv, hc.una, hc.wnd, hc.data⟩, rfl⟩
    · exact absurd hs List.not_mem_nil
  obtain ⟨t, w, pr, data, -, rfl, hdata⟩ := outgoing_cases hu h
  intro s hs
  rcases List.mem_append.mp hs with hs | hs
  · left
    rcases List.mem_append.mp hs with hs | hs
    · rcases List.mem_append.mp hs with hs | hs
      · obtain ⟨a, -, rfl⟩ := List.mem_map.mp hs
        exact ⟨⟨rfl, rfl, rfl, rfl⟩, Or.inl rfl⟩
      · obtain ⟨hc, hcmd⟩ := hprobe hs
        exact ⟨hc, Or.inr (Or.inl hcmd)⟩
    · obtain ⟨hc, hcmd⟩ := hprobe hs
      exact ⟨hc, Or.inr (Or.inr hcmd)⟩
  · exact Or.inr (hdata s hs)

theorem wnd_outgoing {segs : List Segment} (hu : k.updated = true) (h : k.outgoing p = some segs) :
    ∀ s ∈ segs, s.wnd = k.wndUnused := by
  intro s hs
  rcases mem_outgoing hu h s hs with ⟨hc, -⟩ | hd
  · exact hc.wnd
  · exact hd.wnd

/-! ### The bytes of a run -/

/-- Everything that was encoded so far: what was written, and what is left in the buffer. -/
def Endpoint.output (e : Endpoint) : List UInt8 := e.written.flatten ++ e.kcb.buffer

theorem flatten_datagrams (writes : List Kcb) : (datagrams writes).flatten = writes.flatMap fun w => w.buffer :=
  List.flatten_filter_not_isEmpty

section Output

variable {b : Build} {f : Flushing} {e e' : Endpoint} {op : Op}

/-- **What a flush has encoded where it stops**: whole segments, and those of `outgoing` when it is complete. -/
theorem stopAt_bytes (hf : k.flush b = some f) (cut : Option ℕ) :
    ∃ segs, (f.stopAt cut).2.flatten ++ (f.stopAt cut).1.buffer = k.buffer ++ encodes segs ∧
      (cut = none → k.outgoing b.profile = some segs) := by
  have hcomplete : ∃ segs, (datagrams f.writes).flatten ++ f.kcb.buffer = k.buffer ++ encodes segs ∧
      k.outgoing b.profile = some segs := by
    obtain ⟨segs, ho, hbytes⟩ := flush_outgoing hf
    exact ⟨segs, by rw [flatten_datagrams]; exact hbytes, ho⟩
  unfold stopAt
  split
  · obtain ⟨segs, hbytes, ho⟩ := hcomplete
    exact ⟨segs, hbytes, fun _ => ho⟩
  · rename_i w hw
    obtain ⟨i, rfl, hi⟩ := Option.bind_eq_some_iff.mp hw
    cases hu : k.updated with
    | false =>
      rw [Kcb.flush, hu, Bool.not_false, if_pos rfl] at hf
      obtain rfl := Option.some.inj hf
      cases hi
    | true =>
      obtain ⟨pr, moved, ht⟩ := flush_trace hu hf
      obtain ⟨segs, hbytes⟩ := ht.trace.bytes_at hi
      exact ⟨segs, by rw [flatten_datagrams]; exact hbytes, fun h => absurd h (Option.some_ne_none i)⟩

theorem output_of_flushes_none (hk : op.flushes b.profile e.kcb = none) (h : e.exec b op = some e') :
    e'.output = e.output := by
  cases op <;> simp only [Endpoint.exec, Option.map_eq_some_iff] at h
  case send buf =>
    obtain ⟨⟨r, k'⟩, hs, rfl⟩ := h
    obtain ⟨queue, rfl⟩ := send_eq hs
    cases r <;> rfl
  case recv cap =>
    obtain ⟨⟨r, k'⟩, hs, rfl⟩ := h
    have hbuf := (settings_recv hs).2.1
    cases r <;> exact congrArg (e.written.flatten ++ ·) hbuf
  case input d =>
    obtain ⟨⟨r, k'⟩, hs, rfl⟩ := h
    exact congrArg (e.written.flatten ++ ·) (settings_input hs).2
  case update now cut =>
    obtain ⟨f, hf, rfl⟩ := h
    rw [update_eq_flushAt] at hf
    obtain ⟨due, hdue, hf⟩ := Option.bind_eq_some_iff.mp hf
    rw [Op.flushes, hdue, Option.getD_some] at hk
    subst hk
    obtain rfl := Option.some.inj hf
    obtain ⟨ts, hts⟩ := setClock_eq e.kcb now
    have hbuf : (e.kcb.setClock now).buffer = e.kcb.buffer := by
      rw [hts]
      rfl
    cases cut <;> simp [Endpoint.output, Endpoint.flushed, stopAt, datagrams, hbuf]
  case flush cut =>
    obtain ⟨f, hf, rfl⟩ := h
    rw [Op.flushes] at hk
    split_ifs at hk with hu
    rw [Kcb.flush, if_pos (by simpa using hu)] at hf
    obtain rfl := Option.some.inj hf
    cases cut <;> simp [Endpoint.output, Endpoint.flushed, stopAt, datagrams]

/-- **What a call encodes**: whole segments, and those of `outgoing` unless it abandons its flush. -/
theorem output_exec (h : e.exec b op = some e') :
    ∃ segs, e'.output = e.output ++ encodes segs ∧ (op.Completed → op.outgoing b.profile e.kcb = segs) := by
  cases hk : op.flushes b.profile e.kcb with
  | none =>
    refine ⟨[], ?_, fun _ => by rw [Op.outgoing, hk]; rfl⟩
    rw [output_of_flushes_none hk h, encodes_nil, List.append_nil]
  | some k =>
    obtain ⟨f, cut, hf, rfl, hcut⟩ := exec_flushes hk h
    obtain ⟨segs, hbytes, ho⟩ := stopAt_bytes hf cut
    have hbuf : k.buffer = e.kcb.buffer := by
      obtain ⟨-, rfl | ⟨now, ts, rfl⟩⟩ := flushes_eq hk <;> rfl
    refine ⟨segs, ?_, fun hop => by rw [Op.outgoing, hk, Option.bind_some, ho (hcut hop), Option.getD_some]⟩
    show (e.written ++ (f.stopAt cut).2).flatten ++ (f.stopAt cut).1.buffer = _
    rw [List.flatten_append, List.append_assoc, hbytes, hbuf, Endpoint.output, List.append_assoc]

theorem encodes_exec {segs : List Segment} (hout : e.output = encodes segs) (h : e.exec b op = some e') :
    ∃ new, e'.output = encodes (segs ++ new) ∧ (op.Completed → op.outgoing b.profile e.kcb = new) := by
  obtain ⟨new, hnew, hall⟩ := output_exec h
  exact ⟨new, by rw [hnew, hout, encodes_append], hall⟩

/-- The segments that the calls of a run encode, one after the other. -/
def emitted (b : Build) : Endpoint → List Op → List Segment
  | _, [] => []
  | e, op :: ops =>
    op.outgoing b.profile e.kcb ++ match e.exec b op with | none => [] | some e' => emitted b e' ops

theorem emitted_cons (h : e.exec b op = some e') (ops : List Op) :
    emitted b e (op :: ops) = op.outgoing b.profile e.kcb ++ emitted b e' ops := by
  rw [emitted, h]

/-- **What a run of completed flushes encodes.** -/
theorem output_run {ops : List Op} (hops : ∀ op ∈ ops, op.Completed) (hr : run (Endpoint.exec b) e ops = some e') :
    e'.output = e.output ++ encodes (emitted b e ops) := by
  induction ops generalizing e with
  | nil =>
    obtain rfl := Option.some.inj hr
    rw [emitted, encodes_nil, List.append_nil]
  | cons op ops ih =>
    obtain ⟨e₁, h1, h2⟩ := run_cons.mp hr
    obtain ⟨segs, hout, ho⟩ := output_exec h1
    have hrest := ih (fun o ho => hops o (List.mem_cons_of_mem _ ho)) h2
    rw [hrest, hout, emitted_cons h1, ho (hops op List.mem_cons_self), encodes_append, List.append_assoc]

theorem output_start (conv : UInt32) (c : Config) : (Endpoint.start conv c).output = [] := by
  obtain ⟨sndWnd, rcvWnd, nodelay, rxMinrto, interval, fastresend, h⟩ := configured_eq conv c
  rw [Endpoint.output, Endpoint.start, h]
  rfl

end Output

end NetProtocols.Kcp
