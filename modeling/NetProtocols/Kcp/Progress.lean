import NetProtocols.Lib.Reach
import NetProtocols.Kcp.Clock
import NetProtocols.Kcp.Healthy
import NetProtocols.Kcp.Heard
import NetProtocols.Kcp.Reopen
import NetProtocols.Kcp.Retransmit
import NetProtocols.Kcp.Told

/-!
# NetProtocols.Kcp.Progress — the link never comes to a standstill

From every state that a link reaches, whatever was lost, delayed or abandoned on the way there, the two sides and the
network can still bring all accepted messages to the right side, by calls that put nothing in and by new datagrams
alone.

* `Kcb.dueAt`: when a timer is up; `Flushed`: a completed flush of one side, at a time of one's choice.
* `shoot`: the first segment in flight is sent again, acknowledged and dropped; `probe`: a closed window is asked about
  and found open; `push`: the next fragments go out; `take`: `recv` returns a message.
* `Link.owed`: what is still to be done; each of the four makes it less.
* `can_deliver`: so all is delivered in the end.
-/

namespace NetProtocols.Kcp

open Kcb Flushing

/-! ### A flush when it is wanted -/

/-- The time at which a timer set to `ts` is up: now, or then. -/
def Kcb.dueAt (k : Kcb) (ts : UInt32) : UInt32 := if 0 ≤ k.current.toInt32 - ts.toInt32 then k.current else ts

theorem dueAt_spec (k : Kcb) (ts : UInt32) :
    elapsed k.current (k.dueAt ts) ≤ 2 ^ 31 ∧ 0 ≤ (k.dueAt ts).toInt32 - ts.toInt32 := by
  unfold Kcb.dueAt
  split_ifs with hlate
  · exact ⟨by simp, hlate⟩
  · refine ⟨?_, by rw [Int32.le_iff_toInt_le, Int32.sub_self]⟩
    have hsigned := toInt_toInt32 (k.current - ts)
    rw [Int32.le_iff_toInt_le, ← UInt32.toInt32_sub, hsigned, Int32.toInt_zero] at hlate
    have h1 := elapsed_eq k.current ts
    have h2 : (k.current - ts).toNat = (2 ^ 32 - ts.toNat + k.current.toNat) % 2 ^ 32 := UInt32.toNat_sub _ _
    have hc := k.current.toNat_lt
    have ht := ts.toNat_lt
    split_ifs at hlate
    · omega
    · omega

/-- A completed flush of the endpoint `e` at the time `now`: `k` is the control block that was flushed. -/
structure Flushed (e e' : Endpoint) (now : UInt32) (k : Kcb) (f : Flushing) (pr : UInt32) (moved : List Segment) :
    Prop where
  clock : ∃ ts, k = e.kcb.clocked now ts
  flush : k.flush shipped = some f
  traced : Traced shipped k f pr moved
  result : e' = e.flushed none f

/-- A calm call that needs no datagram. -/
def Endpoint.Inward (e : Endpoint) (op : Op) : Prop := op.Calm e.kcb ∧ op.isInput = false

/-- **A flush can be had at any time** that is not before now: by `update`, or by `update` and `flush`. -/
theorem flush_now (e : Endpoint) (now : UInt32) (hnow : elapsed e.kcb.current now ≤ 2 ^ 31) :
    ∃ e' k f pr moved, Flushed e e' now k f pr moved ∧ LeadsTo (Endpoint.exec shipped) Endpoint.Inward e e' := by
  obtain ⟨f₀, hf₀⟩ := Option.isSome_iff_exists.mp (update_release (b := shipped) rfl e.kcb now)
  have hupdate : e.exec shipped (.update now none) = some (e.flushed none f₀) := by
    simp only [Endpoint.exec, hf₀, Option.map_some]
  have hok : e.Inward (.update now none) := ⟨⟨rfl, hnow⟩, rfl⟩
  obtain ⟨ts, rfl | hf⟩ := update_eq hf₀
  · -- the clock moved, and the flush is called for
    obtain ⟨f, hf⟩ := Option.isSome_iff_exists.mp (flush_release (b := shipped) rfl (e.kcb.clocked now ts))
    obtain ⟨pr, moved, ht⟩ := flush_trace rfl hf
    have he : e.flushed none { kcb := e.kcb.clocked now ts } = { e with kcb := e.kcb.clocked now ts } := by
      show ({ e with kcb := e.kcb.clocked now ts, written := e.written ++ [] } : Endpoint) = _
      rw [List.append_nil]
    rw [he] at hupdate
    refine ⟨_, _, f, pr, moved, ⟨⟨ts, rfl⟩, hf, ht, rfl⟩, .head hok hupdate (.single (a := .flush none) ⟨rfl, rfl⟩ ?_)⟩
    simp only [Endpoint.exec, hf, Option.map_some]
    rfl
  · obtain ⟨pr, moved, ht⟩ := flush_trace rfl hf
    exact ⟨_, _, f₀, pr, moved, ⟨⟨ts, rfl⟩, hf, ht, rfl⟩, .single hok hupdate⟩

/-- Only `input` needs a datagram of the other side. -/
theorem deliverable_of_inward {e : Endpoint} {op : Op} (h : e.Inward op) (written : List (List UInt8)) :
    op.deliverable written = true := by
  cases op with
  | input d => exact absurd h.2 (by simp [Op.isInput])
  | send | recv | update | flush => rfl

/-- What one side can come to by itself, the link can come to. -/
theorem reaches_left {l : Link} {e : Endpoint} (h : LeadsTo (Endpoint.exec shipped) Endpoint.Inward l.left e) :
    LeadsTo (Link.exec shipped) Link.Calm l { l with left := e } := by
  have hstep : ∀ (e : Endpoint) op e', e.Inward op → e.exec shipped op = some e' →
      Link.Calm { l with left := e } (.left op) ∧
        Link.exec shipped { l with left := e } (.left op) = some { l with left := e' } := by
    intro e op e' hok he
    refine ⟨hok.1, ?_⟩
    simp only [Link.exec, deliverable_of_inward hok, if_true, he, Option.map_some]
  exact h.map Act.left (fun e => { l with left := e }) hstep

theorem reaches_right {l : Link} {e : Endpoint} (h : LeadsTo (Endpoint.exec shipped) Endpoint.Inward l.right e) :
    LeadsTo (Link.exec shipped) Link.Calm l { l with right := e } := by
  have hstep : ∀ (e : Endpoint) op e', e.Inward op → e.exec shipped op = some e' →
      Link.Calm { l with right := e } (.right op) ∧
        Link.exec shipped { l with right := e } (.right op) = some { l with right := e' } := by
    intro e op e' hok he
    refine ⟨hok.1, ?_⟩
    simp only [Link.exec, deliverable_of_inward hok, if_true, he, Option.map_some]
  exact h.map Act.right (fun e => { l with right := e }) hstep

/-! ### After a flush -/

section Flushed

variable {e e' : Endpoint} {now : UInt32} {k : Kcb} {f : Flushing} {pr : UInt32} {moved : List Segment}

namespace Flushed

theorem updated (h : Flushed e e' now k f pr moved) : k.updated = true := by
  obtain ⟨ts, rfl⟩ := h.clock
  rfl

theorem sized (h : Flushed e e' now k f pr moved) (hs : Sized e.kcb) : Sized k := by
  obtain ⟨ts, rfl⟩ := h.clock
  exact sized_clocked.mpr hs

theorem current (h : Flushed e e' now k f pr moved) : k.current = now := by
  obtain ⟨ts, rfl⟩ := h.clock
  rfl

theorem same (h : Flushed e e' now k f pr moved) :
    k.settings = e.kcb.settings ∧ k.recvSide = e.kcb.recvSide ∧ k.sndBuf = e.kcb.sndBuf ∧ k.sendSide = e.kcb.sendSide ∧
      k.buffer = e.kcb.buffer := by
  obtain ⟨ts, rfl⟩ := h.clock
  exact ⟨rfl, rfl, rfl, rfl, rfl⟩

theorem probes (h : Flushed e e' now k f pr moved) : k.rmtWnd = e.kcb.rmtWnd ∧ k.cwnd = e.kcb.cwnd ∧
    k.probe = e.kcb.probe ∧ k.probeWait = e.kcb.probeWait ∧ k.tsProbe = e.kcb.tsProbe := by
  obtain ⟨ts, rfl⟩ := h.clock
  exact ⟨rfl, rfl, rfl, rfl, rfl⟩

theorem kcb (h : Flushed e e' now k f pr moved) : e'.kcb = f.kcb := by
  rw [h.result]
  rfl

theorem mem_written (h : Flushed e e' now k f pr moved) {d : List UInt8} (hd : d ∈ datagrams f.writes) :
    d ∈ e'.written := by
  rw [h.result]
  exact List.mem_append_right _ hd

theorem buffer (h : Flushed e e' now k f pr moved) (hs : Sized e.kcb) : e'.kcb.buffer = [] := by
  rw [h.kcb]
  exact (flush_emitted h.updated (h.sized hs) h.flush).2.2

theorem assigned (h : Flushed e e' now k f pr moved) (hi : SendInv e.kcb.sendSide) :
    ∃ n, e'.kcb.sndNxt.toNat = e.kcb.sndNxt.toNat + n ∧ e'.kcb.sndBuf.length = e.kcb.sndBuf.length + n ∧
      e'.kcb.sndQueue = e.kcb.sndQueue.drop n ∧
      ∀ i < n, e.kcb.sndNxt.toNat + i < e.kcb.sndUna.toNat + min e.kcb.sndWnd.toNat e.kcb.rmtWnd.toNat := by
  have hk := h.kcb
  obtain ⟨ts, rfl⟩ := h.clock
  obtain ⟨-, n, ha⟩ := sendInv_flushed (flush_follows h.flush rfl) none hi
  replace ha : Assigned (e.kcb.clocked now ts) f.kcb n := ha
  have hlen : ∀ (conv nxt : UInt32) (l : List Segment), (numbered conv nxt l).length = l.length := by
    intro conv nxt l
    induction l generalizing nxt with
    | nil => rfl
    | cons a l ih => rw [numbered, List.length_cons, List.length_cons, ih]
  have hbuf := congrArg List.length ha.buf
  rw [List.length_map, List.length_append, List.length_map, hlen, List.length_take, Nat.min_eq_left ha.len] at hbuf
  rw [hk]
  exact ⟨n, ha.nxt, hbuf, ha.queue, ha.wnd⟩

end Flushed

end Flushed

/-! ### The calls on the link -/

section Calls

variable {conv : UInt32} {l l' : Link}

theorem Healthy.reaches (hi : Healthy conv l) (h : LeadsTo (Link.exec shipped) Link.Calm l l') :
    Healthy conv l' ∧ l'.left.accepted = l.left.accepted := by
  refine h.invariant (I := fun x => Healthy conv x ∧ x.left.accepted = l.left.accepted) ?_ ⟨hi, rfl⟩
  rintro x a x' ⟨i1, i2⟩ hc hx
  obtain ⟨j1, j2⟩ := healthy_exec hc hx i1
  exact ⟨j1, j2.trans i2⟩

theorem Healthy.flush_left (hi : Healthy conv l) (now : UInt32) (hnow : elapsed l.left.kcb.current now ≤ 2 ^ 31) :
    ∃ e k f pr moved, Flushed l.left e now k f pr moved ∧
      LeadsTo (Link.exec shipped) Link.Calm l { l with left := e } ∧ Healthy conv { l with left := e } := by
  obtain ⟨e, k, f, pr, moved, hf, hr⟩ := flush_now l.left now hnow
  exact ⟨e, k, f, pr, moved, hf, reaches_left hr, (hi.reaches (reaches_left hr)).1⟩

theorem Healthy.flush_right (hi : Healthy conv l) :
    ∃ e k f pr moved, Flushed l.right e l.right.kcb.current k f pr moved ∧
      LeadsTo (Link.exec shipped) Link.Calm l { l with right := e } ∧ Healthy conv { l with right := e } := by
  obtain ⟨e, k, f, pr, moved, hf, hr⟩ := flush_now l.right l.right.kcb.current (by simp)
  exact ⟨e, k, f, pr, moved, hf, reaches_right hr, (hi.reaches (reaches_right hr)).1⟩

theorem Able.mss_ne {k : Kcb} (h : Able conv k) : UInt32.ofNat k.mss ≠ 0 := by
  rw [h.sized.2.1]
  decide

theorem Healthy.give_right (hi : Healthy conv l) {d : List UInt8} (hd : d ∈ l.left.written) :
    ∃ r k, l.right.kcb.input .release d = some (r, k) ∧
      LeadsTo (Link.exec shipped) Link.Calm l { l with right := { l.right with kcb := k } } ∧
      Healthy conv { l with right := { l.right with kcb := k } } := by
  obtain ⟨⟨r, k⟩, hin⟩ := Option.isSome_iff_exists.mp (input_release hi.right.mss_ne d)
  have hstep : l.exec shipped (.right (.input d)) = some { l with right := { l.right with kcb := k } } := by
    have hdel : (Op.input d).deliverable l.left.written = true := by simpa [Op.deliverable] using hd
    have hexec : l.right.exec shipped (.input d) = some { l.right with kcb := k } := by
      simp only [Endpoint.exec, shipped, hin, Option.map_some]
    simp only [Link.exec, hdel, if_true, hexec, Option.map_some]
  have hr := LeadsTo.single (show l.Calm (.right (.input d)) from trivial) hstep
  exact ⟨r, k, hin, hr, (hi.reaches hr).1⟩

theorem Healthy.give_left (hi : Healthy conv l) {d : List UInt8} (hd : d ∈ l.right.written) :
    ∃ r k, l.left.kcb.input .release d = some (r, k) ∧
      LeadsTo (Link.exec shipped) Link.Calm l { l with left := { l.left with kcb := k } } ∧
      Healthy conv { l with left := { l.left with kcb := k } } := by
  obtain ⟨⟨r, k⟩, hin⟩ := Option.isSome_iff_exists.mp (input_release hi.left.mss_ne d)
  have hstep : l.exec shipped (.left (.input d)) = some { l with left := { l.left with kcb := k } } := by
    have hdel : (Op.input d).deliverable l.right.written = true := by simpa [Op.deliverable] using hd
    have hexec : l.left.exec shipped (.input d) = some { l.left with kcb := k } := by
      simp only [Endpoint.exec, shipped, hin, Option.map_some]
    simp only [Link.exec, hdel, if_true, hexec, Option.map_some]
  have hr := LeadsTo.single (show l.Calm (.left (.input d)) from trivial) hstep
  exact ⟨r, k, hin, hr, (hi.reaches hr).1⟩

end Calls

/-! ### What is still to be done -/

namespace Link

/-- Neither side has anything left in its buffer. -/
def Idle (l : Link) : Prop := l.left.kcb.buffer = [] ∧ l.right.kcb.buffer = []

/-- What the left side has still to do: to send a fragment, and to see it acknowledged. -/
def pending (l : Link) : ℕ :=
  2 * ((pieces fullSize l.left.accepted).length - l.left.kcb.sndNxt.toNat) + l.left.kcb.sndBuf.length

/-- What the link has still to do. -/
def owed (l : Link) : ℕ := (l.left.accepted.length - l.right.received.length) + l.pending

end Link

section Rounds

variable {conv : UInt32} {l : Link}

theorem valid_controls {k : Kcb} {pr : UInt32} {segs : List Segment} (hk : Able conv k)
    (hs : ∀ y ∈ segs, y ∈ k.controls pr) : Valid conv segs := by
  intro y hy
  obtain ⟨hc, hcmd⟩ := control_of_mem_controls (hs y hy)
  exact ⟨hc.conv.trans hk.conv, validCmd_of_control hcmd⟩

theorem dataless_controls {k : Kcb} {pr : UInt32} {segs : List Segment} (hs : ∀ y ∈ segs, y ∈ k.controls pr) :
    ∀ y ∈ segs, y.data = [] :=
  fun y hy => (control_of_mem_controls (hs y hy)).1.data

theorem able_flushed {e e' : Endpoint} {now : UInt32} {k : Kcb} {f : Flushing} {pr : UInt32} {moved : List Segment}
    (h : Flushed e e' now k f pr moved) (hk : Able conv e.kcb) : Able conv k := by
  obtain ⟨ts, rfl⟩ := h.clock
  exact ⟨⟨sized_clocked.mpr hk.sized.1, hk.sized.2⟩, ⟨hk.out.sndBuf, hk.out.sndQueue, hk.out.mss, hk.out.stream⟩,
    hk.conv, hk.sndWnd, hk.rcvWnd⟩

/-- A flush of the left side does not add to what is pending, and what it moves counts. -/
theorem pending_flush {l' : Link} {now : UInt32} {k : Kcb} {f : Flushing} {pr : UInt32} {moved : List Segment}
    (hi : Healthy conv l) (hi' : Healthy conv l') (hacc : l'.left.accepted = l.left.accepted)
    (h : Flushed l.left l'.left now k f pr moved) :
    l'.pending ≤ l.pending ∧ (l'.left.kcb.sndBuf.length ≠ l.left.kcb.sndBuf.length → l'.pending < l.pending) := by
  obtain ⟨n, hnxt, hbuf, -, -⟩ := h.assigned hi.way.left
  have hle := hi'.delivers.left.carrying.nxt
  rw [hacc] at hle
  unfold Link.pending
  rw [hacc, hnxt, hbuf]
  rw [hnxt] at hle
  omega

/-- **The first segment in flight** is sent again, acknowledged and dropped. -/
theorem shoot (hi : Healthy conv l) (hidle : l.Idle) {h : Segment} {t : List Segment}
    (hb : l.left.kcb.sndBuf = h :: t) (hle : h.sn ≤ l.right.kcb.rcvNxt)
    (hmore : l.right.kcb.rcvNxt.toNat < (pieces fullSize l.left.accepted).length) :
    ∃ l', LeadsTo (Link.exec shipped) Link.Calm l l' ∧ l'.Idle ∧ l'.right.received = l.right.received ∧
      l'.pending < l.pending := by
  -- the left side flushes when the segment is due
  obtain ⟨hnow, hlate⟩ := dueAt_spec l.left.kcb h.resendts
  obtain ⟨e₁, k₁, f₁, pr₁, moved₁, hf₁, hr₁, hi₁⟩ := hi.flush_left _ hnow
  have hb₁ : k₁.sndBuf = h :: t := hf₁.same.2.2.1.trans hb
  have hbuf₁ : k₁.buffer = [] := hf₁.same.2.2.2.2.trans hidle.1
  have hsends : k₁.sends h = true := by
    have hl : 0 ≤ k₁.lateness h := by
      rw [lateness, hf₁.current]
      exact hlate
    simp [sends, hl]
  obtain ⟨a₁, c₁, ha₁, hd₁⟩ := flush_sends_head hf₁.updated (hf₁.sized hi.left.sized.1) hbuf₁ hf₁.flush hf₁.traced hb₁
    hsends
  have hfixed : (k₁.restamp h).fixed = h.fixed := (restamped k₁ h).fixed
  have hdata : h.fixed.IsData l.left.kcb.conv := by
    refine hi.left.out.sndBuf h.fixed (List.mem_map_of_mem ?_)
    rw [hb]
    exact List.mem_cons_self
  have hsn : (k₁.restamp h).sn = h.sn := congrArg Fixed.sn hfixed
  have hcmd : (k₁.restamp h).cmd = kcpCmdPush := (congrArg Fixed.cmd hfixed).trans hdata.cmd
  have hconv : (k₁.restamp h).conv = conv := (congrArg Fixed.conv hfixed).trans (hdata.conv.trans hi.left.conv)
  have hable₁ : Able conv k₁ := able_flushed hf₁ hi.left
  -- the right side hears it
  obtain ⟨r₂, k₂, hin₂, hr₂, hi₂⟩ := hi₁.give_right (hf₁.mem_written hd₁)
  have hv₁ : Valid l.right.kcb.conv (a₁ ++ [k₁.restamp h]) := by
    rw [hi.right.conv]
    intro y hy
    rcases List.mem_append.mp hy with hy | hy
    · exact valid_controls hable₁ ha₁ y hy
    · obtain rfl := List.mem_singleton.mp hy
      exact ⟨hconv, by rw [hcmd]; decide⟩
  obtain ⟨t₂, u₂, s₂, hh₂⟩ := input_reaches hin₂ hv₁ (dataless_controls ha₁)
  have hedge : (k₁.restamp h).sn < l.right.kcb.rcvNxt + l.right.kcb.rcvWnd := by
    have hshort := hi.short
    have htold := hi.told
    have hpos := hi.right.rcvWnd
    have hsum : (l.right.kcb.rcvNxt + l.right.kcb.rcvWnd).toNat = l.right.kcb.rcvNxt.toNat + l.right.kcb.rcvWnd.toNat :=
      toNat_add_of_lt (by omega)
    rw [hsn]
    refine UInt32.lt_iff_toNat_lt.mpr ?_
    have hle' := UInt32.le_iff_toNat_le.mp hle
    omega
  have hack : ((k₁.restamp h).sn, (k₁.restamp h).ts) ∈ k₂.acklist := by
    refine acklist_hears hh₂ (fun y hy => ?_) hcmd hedge
    obtain ⟨-, hc⟩ := control_of_mem_controls (ha₁ y hy)
    rcases hc with hc | hc | hc <;> rw [hc] <;> decide
  -- it flushes, and the acknowledgement is in one of its datagrams
  obtain ⟨e₃, k₃, f₃, pr₃, moved₃, hf₃, hr₃, hi₃⟩ := hi₂.flush_right
  have hack₃ : ((k₁.restamp h).sn, (k₁.restamp h).ts) ∈ k₃.acklist := by
    have e : k₃.acklist = k₂.acklist := congrArg RecvSide.acklist hf₃.same.2.1
    rw [e]
    exact hack
  have hbuf₂ : k₂.buffer = [] := (settings_input hin₂).2.trans hidle.2
  obtain ⟨a₃, x₃, c₃, ha₃, hcmd₃, hsn₃, hd₃⟩ := flush_acks hf₃.updated (hf₃.sized hi₂.right.sized.1)
    (hf₃.same.2.2.2.2.trans hbuf₂) hf₃.flush hf₃.traced hack₃
  have hable₃ : Able conv k₃ := able_flushed hf₃ hi₂.right
  -- the left side hears that
  obtain ⟨r₄, k₄, hin₄, hr₄, hi₄⟩ := hi₃.give_left (hf₃.mem_written hd₃)
  have hconv₁ : e₁.kcb.conv = conv := hi₁.left.conv
  obtain ⟨t₄, u₄, s₄, hh₄⟩ := input_reaches hin₄ (hconv₁ ▸ valid_controls hable₃ ha₃) fun y hy =>
    dataless_controls ha₃ y (List.mem_append_left _ hy)
  have hgone := sndBuf_hears hh₄ hi₁.way.left hcmd₃
  refine ⟨_, ((hr₁.trans hr₂).trans hr₃).trans hr₄, ⟨?_, hf₃.buffer hi₂.right.sized.1⟩, ?_, ?_⟩
  · exact (settings_input hin₄).2.trans (hf₁.buffer hi.left.sized.1)
  · show e₃.received = _
    rw [hf₃.result]
    rfl
  · have hacc₁ : e₁.accepted = l.left.accepted := by
      rw [hf₁.result]
      rfl
    have hpend := (pending_flush hi hi₁ hacc₁ hf₁).1
    have hshrink := shrinks_input hin₄
    have hlt : k₄.sndBuf.length < e₁.kcb.sndBuf.length := by
      have hsub : (k₄.sndBuf.map Segment.fixed).Sublist (e₁.kcb.sndBuf.map Segment.fixed) := hshrink.buf
      have hlen := hsub.length_le
      rw [List.length_map, List.length_map] at hlen
      refine lt_of_le_of_ne hlen fun heq => ?_
      -- the segment was there, and is there no more
      have hsame := hsub.eq_of_length (by rw [List.length_map, List.length_map, heq])
      have hhead : h.fixed ∈ e₁.kcb.sndBuf.map Segment.fixed := by
        rw [hf₁.kcb, hf₁.traced.sndBuf, window, hb₁, ← hfixed]
        simp
      rw [← hsame] at hhead
      exact hgone _ hhead (hsn₃.symm ▸ hsn.symm)
    have hnxt : k₄.sndNxt = e₁.kcb.sndNxt := hshrink.nxt
    refine lt_of_lt_of_le ?_ hpend
    unfold Link.pending
    dsimp only
    rw [hnxt]
    omega

theorem recvSide_controls {k k₁ k' : Kcb} {pr : UInt32} {segs : List Segment} {r : Except IoError ℕ}
    (hk : Able conv k) (hconv : k₁.conv = conv) (hs : ∀ y ∈ segs, y ∈ k.controls pr)
    (hin : k₁.input .release (encodes segs) = some (r, k')) : k'.recvSide = k₁.recvSide := by
  have hcmd : ∀ y ∈ segs, y.cmd ≠ kcpCmdPush := by
    intro y hy
    obtain ⟨-, hc⟩ := control_of_mem_controls (hs y hy)
    rcases hc with hc | hc | hc <;> rw [hc] <;> decide
  rcases List.eq_nil_or_concat segs with rfl | ⟨before, x, rfl⟩
  · obtain ⟨-, rfl⟩ := Prod.mk.inj (Option.some.inj hin)
    rfl
  · rw [List.concat_eq_append] at hs hin hcmd
    obtain ⟨t, u, s, hh⟩ := input_reaches hin (hconv.symm ▸ valid_controls hk hs) fun y hy =>
      dataless_controls hs y (List.mem_append_left _ hy)
    exact recvSide_hears hh (fun y hy => hcmd y (List.mem_append_left _ hy)) (hcmd x (by simp))
      (dataless_controls hs x (by simp))

theorem una_eq_nxt {k : Kcb} (hi : SendInv k.sendSide) (hb : k.sndBuf = []) : k.sndUna = k.sndNxt := by
  have := hi.una
  simpa [SendSide.front, sendSide, hb] using this

/-- With nothing in flight and the window closed, a flush sends nothing new. -/
theorem flush_closed {e e' : Endpoint} {now : UInt32} {k : Kcb} {f : Flushing} {pr : UInt32} {moved : List Segment}
    (h : Flushed e e' now k f pr moved) (hi : SendInv e.kcb.sendSide) (hb : e.kcb.sndBuf = [])
    (hclosed : e.kcb.rmtWnd = 0) :
    e'.kcb.sndBuf = [] ∧ e'.kcb.sndNxt = e.kcb.sndNxt ∧ e'.kcb.sndQueue = e.kcb.sndQueue ∧ e'.kcb.rmtWnd = 0 := by
  obtain ⟨n, hnxt, hbuf, hqueue, hwnd⟩ := h.assigned hi
  have hn : n = 0 := by
    by_contra hne
    have hlt := hwnd 0 (Nat.pos_of_ne_zero hne)
    rw [hclosed, una_eq_nxt hi hb] at hlt
    simp at hlt
  subst hn
  refine ⟨?_, UInt32.toNat_inj.mp hnxt, hqueue, ?_⟩
  · rw [hb] at hbuf
    exact List.length_eq_zero_iff.mp hbuf
  · rw [h.kcb, (rest_flush h.updated h.flush).1, h.probes.1, hclosed]

/-- The probe timer of a closed window is set by a flush. -/
theorem probing {l : Link} (hi : Healthy conv l) (hidle : l.Idle) (hb : l.left.kcb.sndBuf = [])
    (hclosed : l.left.kcb.rmtWnd = 0) :
    ∃ e, LeadsTo (Link.exec shipped) Link.Calm l { l with left := e } ∧ Healthy conv { l with left := e } ∧
      e.kcb.buffer = [] ∧ e.accepted = l.left.accepted ∧ e.kcb.sndBuf = [] ∧ e.kcb.sndNxt = l.left.kcb.sndNxt ∧
      e.kcb.sndQueue = l.left.kcb.sndQueue ∧ e.kcb.rmtWnd = 0 ∧ e.kcb.probeWait ≠ 0 := by
  by_cases hwait : l.left.kcb.probeWait = 0
  · obtain ⟨e, k, f, pr, moved, hf, hr, hi'⟩ := hi.flush_left l.left.kcb.current (by simp)
    obtain ⟨h1, h2, h3, h4⟩ := flush_closed hf hi.way.left hb hclosed
    refine ⟨e, hr, hi', hf.buffer hi.left.sized.1, by rw [hf.result]; rfl, h1, h2, h3, h4, ?_⟩
    obtain ⟨t, w, pr', hp, htime, -⟩ := flush_timer (able_flushed hf hi.left).out hf.updated hf.flush
    have hw : f.kcb.probeWait = w := congrArg Timing.probeWait htime
    rw [hf.kcb, hw]
    have hrmt : (k.setAcklist []).rmtWnd = 0 := hf.probes.1.trans hclosed
    have hzero : (k.setAcklist []).probeWait = 0 := hf.probes.2.2.2.1.trans hwait
    have hset : w = kcpProbeInit := by
      rw [probeWindow, if_neg (by simp [hrmt]), if_pos hzero] at hp
      obtain ⟨t', -, hp⟩ := Option.bind_eq_some_iff.mp hp
      exact (congrArg Kcb.probeWait (Option.some.inj hp)).symm
    rw [hset]
    decide
  · exact ⟨l.left, .refl l, hi, hidle.1, rfl, hb, rfl, rfl, hclosed, hwait⟩

/-- **A closed window** is asked about, and found open. -/
theorem probe (hi : Healthy conv l) (hidle : l.Idle) (hb : l.left.kcb.sndBuf = []) (hclosed : l.left.kcb.rmtWnd = 0)
    (hroom : l.right.kcb.rcvQueue.length < l.right.kcb.rcvWnd.toNat) :
    ∃ l', LeadsTo (Link.exec shipped) Link.Calm l l' ∧ l'.Idle ∧ l'.right.received = l.right.received ∧
      l'.pending = l.pending ∧ l'.left.kcb.sndBuf = [] ∧ l'.left.kcb.sndQueue = l.left.kcb.sndQueue ∧
      l'.left.kcb.rmtWnd ≠ 0 := by
  obtain ⟨e₀, hr₀, hi₀, hbuf₀, hacc₀, hb₀, hnxt₀, hqueue₀, hclosed₀, hwait₀⟩ := probing hi hidle hb hclosed
  -- the left side flushes when the probe is due
  obtain ⟨hnow, hlate⟩ := dueAt_spec e₀.kcb e₀.kcb.tsProbe
  obtain ⟨e₁, k₁, f₁, pr₁, moved₁, hf₁, hr₁, hi₁⟩ := hi₀.flush_left _ hnow
  obtain ⟨hb₁, hnxt₁, hqueue₁, -⟩ := flush_closed hf₁ hi₀.way.left hb₀ hclosed₀
  have hdue : k₁.ProbeDue := by
    obtain ⟨h1, -, -, h4, h5⟩ := hf₁.probes
    refine ⟨h1.trans hclosed₀, h4 ▸ hwait₀, ?_⟩
    rw [hf₁.current, h5]
    exact hlate
  have hwindow₁ : k₁.window moved₁ = [] := by
    rw [hf₁.kcb, hf₁.traced.sndBuf] at hb₁
    exact List.map_eq_nil_iff.mp hb₁
  obtain ⟨a₁, x₁, c₁, ha₁, hcmd₁, hd₁⟩ := flush_asks hf₁.updated (hf₁.sized hi₀.left.sized.1)
    (hf₁.same.2.2.2.2.trans hbuf₀) hf₁.flush hf₁.traced hdue hwindow₁
  have hable₁ : Able conv k₁ := able_flushed hf₁ hi₀.left
  -- the right side hears it
  obtain ⟨r₂, k₂, hin₂, hr₂, hi₂⟩ := hi₁.give_right (hf₁.mem_written hd₁)
  have hask : ∀ y ∈ a₁ ++ [x₁], y ∈ k₁.controls pr₁ := fun y hy => ha₁ y (by
    rw [List.append_cons]
    exact List.mem_append_left _ hy)
  obtain ⟨t₂, u₂, s₂, hh₂⟩ := input_reaches hin₂ (hi.right.conv.symm ▸ valid_controls hable₁ hask) fun y hy =>
    dataless_controls hask y (List.mem_append_left _ hy)
  have htell := probe_hears hh₂ hcmd₁
  have hroom₂ := recvSide_controls hable₁ hi.right.conv ha₁ hin₂
  -- it flushes, and the answer is in one of its datagrams
  obtain ⟨e₃, k₃, f₃, pr₃, moved₃, hf₃, hr₃, hi₃⟩ := hi₂.flush_right
  have hbuf₂ : k₂.buffer = [] := (settings_input hin₂).2.trans hidle.2
  have htell₃ : k₃.probe &&& kcpAskTell ≠ 0 := by
    rw [hf₃.probes.2.2.1]
    exact htell
  have hwindow : k₃.window moved₃ = [] := by
    have hsnd : k₃.sndBuf = [] := hf₃.same.2.2.1.trans hi₂.way.right.buf
    have hq : k₃.sndQueue = [] := (congrArg SendSide.sndQueue hf₃.same.2.2.2.1).trans hi₂.way.right.queue
    have hmoved := hf₃.traced.queue
    rw [hq] at hmoved
    obtain rfl := (List.append_eq_nil_iff.mp hmoved.symm).1
    rw [window, hsnd]
    rfl
  obtain ⟨a₃, x₃, ha₃, hd₃⟩ := flush_answers hf₃.updated (hf₃.sized hi₂.right.sized.1)
    (hf₃.same.2.2.2.2.trans hbuf₂) hf₃.flush hf₃.traced htell₃ hwindow
  have hable₃ : Able conv k₃ := able_flushed hf₃ hi₂.right
  -- the left side hears that
  obtain ⟨r₄, k₄, hin₄, hr₄, hi₄⟩ := hi₃.give_left (hf₃.mem_written hd₃)
  have hconv₁ : e₁.kcb.conv = conv := hi₁.left.conv
  obtain ⟨t₄, u₄, s₄, hh₄⟩ := input_reaches hin₄ (hconv₁ ▸ valid_controls hable₃ ha₃) fun y hy =>
    dataless_controls ha₃ y (List.mem_append_left _ hy)
  have hrmt := rmtWnd_hears hh₄ (dataless_controls ha₃ x₃ (by simp))
  have hshrink := shrinks_input hin₄
  have hsnd₄ : k₄.sndBuf = [] := by
    have hsub : (k₄.sndBuf.map Segment.fixed).Sublist (e₁.kcb.sndBuf.map Segment.fixed) := hshrink.buf
    rw [hb₁] at hsub
    exact List.map_eq_nil_iff.mp (List.sublist_nil.mp hsub)
  have hnxt₄ : k₄.sndNxt = e₁.kcb.sndNxt := hshrink.nxt
  have hqueue₄ : k₄.sndQueue = e₁.kcb.sndQueue := hshrink.queue
  refine ⟨_, (((hr₀.trans hr₁).trans hr₂).trans hr₃).trans hr₄, ⟨?_, hf₃.buffer hi₂.right.sized.1⟩, ?_, ?_, hsnd₄, ?_,
    ?_⟩
  · exact (settings_input hin₄).2.trans (hf₁.buffer hi₀.left.sized.1)
  · show e₃.received = _
    rw [hf₃.result]
    rfl
  · have hacc₁ : e₁.accepted = l.left.accepted := by
      rw [hf₁.result]
      exact hacc₀
    unfold Link.pending
    dsimp only
    rw [hacc₁, hsnd₄, hb, hnxt₄, hnxt₁, hnxt₀]
  · exact hqueue₄.trans (hqueue₁.trans hqueue₀)
  · -- the window told is what is unused, and fits 16 bits
    have hside₃ : k₃.recvSide = l.right.kcb.recvSide := hf₃.same.2.1.trans hroom₂
    have hqueue₃ : k₃.rcvQueue = l.right.kcb.rcvQueue := congrArg RecvSide.rcvQueue hside₃
    have hwnd₃ : k₃.rcvWnd = l.right.kcb.rcvWnd := congrArg RecvSide.rcvWnd hside₃
    have htold : x₃.wnd = k₃.wndUnused := (control_of_mem_controls (ha₃ x₃ (by simp))).1.wnd
    have hopen : k₃.wndUnused ≠ 0 := by
      rw [Ne, wndUnused_eq_zero_iff (by rw [hqueue₃, hwnd₃]; omega), hqueue₃, hwnd₃]
      omega
    have hshown : k₃.wndUnused.toUInt16 ≠ 0 := by
      rw [Ne, toUInt16_wndUnused (by rw [hwnd₃]; exact hi.told)]
      exact hopen
    intro hzero
    apply hshown
    have hnat := congrArg UInt32.toNat (hrmt.symm.trans hzero)
    rw [← UInt16.toNat_inj, ← htold]
    exact hnat

theorem flushWnd_ne_zero {k : Kcb} (hs : k.sndWnd ≠ 0) (hr : k.rmtWnd ≠ 0) (hc : k.cwnd ≠ 0) : k.flushWnd ≠ 0 := by
  have hmin : ∀ a b : UInt32, a ≠ 0 → b ≠ 0 → min a b ≠ 0 := by
    intro a b ha hb
    show (if a ≤ b then a else b) ≠ 0
    split_ifs <;> assumption
  unfold flushWnd
  dsimp only
  split_ifs
  · exact hmin _ _ hc (hmin _ _ hs hr)
  · exact hmin _ _ hs hr

/-- With the windows open and nothing in flight, a flush takes something off `snd_queue`. -/
theorem flush_moves {e e' : Endpoint} {now : UInt32} {k : Kcb} {f : Flushing} {pr : UInt32} {moved : List Segment}
    (h : Flushed e e' now k f pr moved) (hk : Able conv e.kcb) (hi : SendInv e.kcb.sendSide) (hb : e.kcb.sndBuf = [])
    (hopen : e.kcb.rmtWnd ≠ 0) (hcwnd : e.kcb.cwnd ≠ 0) (hqueue : e.kcb.sndQueue ≠ [])
    (hshort : e.kcb.sndNxt.toNat ≤ 2 ^ 31) : e'.kcb.sndBuf ≠ [] := by
  intro hnone
  obtain ⟨n, hnxt, hbuf, hq, -⟩ := h.assigned hi
  obtain rfl : n = 0 := by
    rw [hnone, hb] at hbuf
    simpa using hbuf.symm
  rcases flush_fills h.updated h.flush with hnil | hedge
  · rw [← h.kcb, hq, List.drop_zero] at hnil
    exact hqueue hnil
  · -- the edge of the window is beyond `snd_nxt`
    have hwnd : k.sndWnd = e.kcb.sndWnd := congrArg Settings.sndWnd h.same.1
    obtain ⟨hpos, hsmall⟩ := hk.sndWnd
    have hfull : k.sndWnd ≠ 0 := by
      rw [hwnd]
      intro hz
      rw [hz] at hpos
      exact absurd hpos (by decide)
    have hflush := flushWnd_ne_zero hfull (h.probes.1 ▸ hopen) (h.probes.2.1 ▸ hcwnd)
    have hflush' : 0 < k.flushWnd.toNat := Nat.pos_of_ne_zero fun hz => hflush (UInt32.toNat_inj.mp hz)
    have hle := UInt32.le_iff_toNat_le.mp (flushWnd_le k).1
    rw [hwnd] at hle
    have huna : k.sndUna = e.kcb.sndNxt := (congrArg SendSide.sndUna h.same.2.2.2.1).trans (una_eq_nxt hi hb)
    have hsum : (k.sndUna + k.flushWnd).toNat = e.kcb.sndNxt.toNat + k.flushWnd.toNat := by
      rw [huna]
      exact toNat_add_of_lt (by omega)
    apply hedge
    rw [← h.kcb, UInt32.lt_iff_toNat_lt, hsum, hnxt]
    omega

/-- **The next fragments go out**: with nothing in flight and the window open, by one flush or by a second one that
finds the congestion window open. -/
theorem push (hi : Healthy conv l) (hidle : l.Idle) (hb : l.left.kcb.sndBuf = []) (hopen : l.left.kcb.rmtWnd ≠ 0)
    (hqueue : l.left.kcb.sndQueue ≠ []) :
    ∃ l', LeadsTo (Link.exec shipped) Link.Calm l l' ∧ l'.Idle ∧ l'.right.received = l.right.received ∧
      l'.pending < l.pending := by
  obtain ⟨e₁, k₁, f₁, pr₁, moved₁, hf₁, hr₁, hi₁⟩ := hi.flush_left l.left.kcb.current (by simp)
  have hacc₁ : e₁.accepted = l.left.accepted := by
    rw [hf₁.result]
    rfl
  obtain ⟨hle₁, hlt₁⟩ := pending_flush hi hi₁ hacc₁ hf₁
  by_cases hsame : e₁.kcb.sndBuf = []
  · -- nothing went, but the congestion window is open now
    obtain ⟨n, -, hbuf₁, hq₁, -⟩ := hf₁.assigned hi.way.left
    obtain rfl : n = 0 := by
      rw [hsame, hb] at hbuf₁
      simpa using hbuf₁.symm
    have hqueue₁ : e₁.kcb.sndQueue ≠ [] := by
      rw [hq₁, List.drop_zero]
      exact hqueue
    have hcwnd : e₁.kcb.cwnd ≠ 0 := by
      rw [hf₁.kcb]
      exact cwnd_flush hf₁.updated hf₁.flush
    have hopen₁ : e₁.kcb.rmtWnd ≠ 0 := by
      rw [hf₁.kcb, (rest_flush hf₁.updated hf₁.flush).1, hf₁.probes.1]
      exact hopen
    have hshort : e₁.kcb.sndNxt.toNat ≤ 2 ^ 31 := le_trans hi₁.delivers.left.carrying.nxt hi₁.short
    -- so the next flush does send
    obtain ⟨e₂, k₂, f₂, pr₂, moved₂, hf₂, hr₂, hi₂⟩ := hi₁.flush_left e₁.kcb.current (by simp)
    have hacc₂ : e₂.accepted = e₁.accepted := by
      rw [hf₂.result]
      rfl
    have hmoved := flush_moves hf₂ hi₁.left hi₁.way.left hsame hopen₁ hcwnd hqueue₁ hshort
    refine ⟨_, hr₁.trans hr₂, ⟨hf₂.buffer hi₁.left.sized.1, hidle.2⟩, rfl, ?_⟩
    refine lt_of_lt_of_le ((pending_flush hi₁ hi₂ hacc₂ hf₂).2 fun hlen => hmoved ?_) hle₁
    replace hlen : e₂.kcb.sndBuf.length = e₁.kcb.sndBuf.length := hlen
    rw [hsame] at hlen
    exact List.length_eq_zero_iff.mp hlen
  · refine ⟨_, hr₁, ⟨hf₁.buffer hi.left.sized.1, hidle.2⟩, rfl, hlt₁ fun hlen => hsame ?_⟩
    rw [hb] at hlen
    exact List.length_eq_zero_iff.mp hlen

theorem recv_whole {k : Kcb} (hw : Whole k.rcvQueue) (hs : ∀ seg ∈ k.rcvQueue, seg.data.length < 2 ^ 32)
    (hroom : k.rcvQueue.length < 2 ^ 32) : ∃ out k', k.recv .release out.length = some (.ok out, k') := by
  have hpeek : k.peeksize .release = some (.ok ((headMessage k.rcvQueue).flatMap Segment.data).length) := by
    have hsum := sumLength_short (p := .release) hs hroom
    obtain ⟨seg, rest, hq, hfrg⟩ := hw
    unfold peeksize
    rw [hq] at hsum hfrg ⊢
    dsimp only
    by_cases hz : seg.frg = 0
    · rw [if_pos hz]
      simp [headMessage, hz]
    · have henough : ¬ (seg :: rest).length < (seg.frg + 1).toNat := Nat.not_lt.mpr (hfrg.resolve_left hz)
      rw [if_neg hz, Profile.addU8_release, Option.bind_eq_bind, Option.bind_some, if_neg henough, hsum]
      rfl
  have hne : k.rcvQueue ≠ [] := by
    obtain ⟨seg, rest, hq, -⟩ := hw
    rw [hq]
    exact List.cons_ne_nil _ _
  obtain ⟨k₁, hmove⟩ := Option.isSome_iff_exists.mp
    (Scan.moveData_release { k with rcvQueue := k.rcvQueue.drop (headMessage k.rcvQueue).length })
  have hmerge : mergeFragments ((headMessage k.rcvQueue).flatMap Segment.data).length k.rcvQueue [] 0 =
      .ok ((headMessage k.rcvQueue).flatMap Segment.data, (headMessage k.rcvQueue).length) := by
    rw [mergeFragments_ok (by simp), List.nil_append, Nat.zero_add]
  refine ⟨(headMessage k.rcvQueue).flatMap Segment.data, ?_⟩
  unfold recv
  rw [if_neg hne, hpeek]
  simp only [Option.bind_eq_bind, Option.bind_some]
  rw [if_neg (Nat.lt_irrefl _), hmerge]
  dsimp only
  rw [Profile.assert_of rfl, Option.bind_some, hmove, Option.bind_some]
  split_ifs
  · exact ⟨_, rfl⟩
  · exact ⟨_, rfl⟩

/-- **A whole message is returned.** -/
theorem take (hi : Healthy conv l) (hidle : l.Idle) (hw : Whole l.right.kcb.rcvQueue) :
    ∃ l', LeadsTo (Link.exec shipped) Link.Calm l l' ∧ l'.Idle ∧
      l'.right.received.length = l.right.received.length + 1 ∧ l'.pending = l.pending := by
  have hr := hi.delivers.right
  have hshort : ∀ seg ∈ l.right.kcb.rcvQueue, seg.data.length < 2 ^ 32 := by
    intro seg hseg
    have hmem := List.mem_of_getElem? (hr.carried seg (List.mem_append_left _ hseg))
    exact lt_of_le_of_lt (length_of_mem_pieces hmem) fullSize_pos.2
  have hroom : l.right.kcb.rcvQueue.length < 2 ^ 32 := lt_of_le_of_lt hr.recv.room (UInt32.toNat_lt _)
  obtain ⟨out, k, hrecv⟩ := recv_whole hw hshort hroom
  have hexec : l.right.exec shipped (.recv out.length) = some (l.right.got (.ok out, k)) := by
    simp only [Endpoint.exec, shipped, hrecv, Option.map_some]
  have hstep : l.exec shipped (.right (.recv out.length)) = some { l with right := l.right.got (.ok out, k) } := by
    simp only [Link.exec, Op.deliverable, if_true, hexec, Option.map_some]
  refine ⟨_, .single (show l.Calm (.right (.recv out.length)) from trivial) hstep, ⟨hidle.1, ?_⟩, ?_, rfl⟩
  · exact (settings_recv hrecv).2.1.trans hidle.2
  · exact List.length_append

/-- **Short of the goal there is always something that can be done**, and it makes less of what is owed. -/
theorem progress_step (hi : Healthy conv l) (hidle : l.Idle) (hne : l.right.received ≠ l.left.accepted) :
    ∃ l', LeadsTo (Link.exec shipped) Link.Calm l l' ∧ l'.Idle ∧ l'.owed < l.owed := by
  by_cases hw : Whole l.right.kcb.rcvQueue
  · obtain ⟨l', hr, hidle', hrec, hpend⟩ := take hi hidle hw
    obtain ⟨hi', hacc⟩ := hi.reaches hr
    have hle := hi'.delivers.right.ordered.length_le
    refine ⟨l', hr, hidle', ?_⟩
    unfold Link.owed
    rw [hacc, hrec] at hle
    rw [hacc, hrec, hpend]
    omega
  · -- `recv` has nothing to return: the next fragment is on the left side, and there is room for it
    obtain ⟨hroom, hmore⟩ := hi.room hne hw
    have hless : ∃ l', LeadsTo (Link.exec shipped) Link.Calm l l' ∧ l'.Idle ∧
        l'.right.received = l.right.received ∧ l'.pending < l.pending := by
      cases hb : l.left.kcb.sndBuf with
      | cons h t => exact shoot hi hidle hb (hi.head_le hroom hb) hmore
      | nil =>
        have hqueue := hi.queue_ne_nil hroom hmore hb
        by_cases hopen : l.left.kcb.rmtWnd = 0
        · obtain ⟨l₁, hr₁, hidle₁, hrec₁, hpend₁, hb₁, hqueue₁, hopen₁⟩ := probe hi hidle hb hopen hroom
          obtain ⟨l', hr', hidle', hrec', hlt⟩ := push (hi.reaches hr₁).1 hidle₁ hb₁ hopen₁ (hqueue₁ ▸ hqueue)
          exact ⟨l', hr₁.trans hr', hidle', hrec'.trans hrec₁, hpend₁ ▸ hlt⟩
        · exact push hi hidle hb hopen hqueue
    obtain ⟨l', hr, hidle', hrec, hlt⟩ := hless
    refine ⟨l', hr, hidle', ?_⟩
    unfold Link.owed
    rw [(hi.reaches hr).2, hrec]
    omega

end Rounds

/-! ### All is delivered in the end -/

/-- A healthy link comes to rest, and delivers. -/
theorem Healthy.delivers_all {conv : UInt32} {l : Link} (hi : Healthy conv l) :
    ∃ l', LeadsTo (Link.exec shipped) Link.Calm l l' ∧ l'.right.received = l.left.accepted := by
  obtain ⟨e, k₁, f₁, pr₁, moved₁, hf₁, hr₁, hi₁⟩ := hi.flush_left l.left.kcb.current (by simp)
  obtain ⟨e', k₂, f₂, pr₂, moved₂, hf₂, hr₂, hi₂⟩ := hi₁.flush_right
  have hidle : Link.Idle ⟨e, e'⟩ := ⟨hf₁.buffer hi.left.sized.1, hf₂.buffer hi₁.right.sized.1⟩
  have hstep : ∀ x, Healthy conv x ∧ x.Idle → ¬ x.right.received = x.left.accepted →
      ∃ y, LeadsTo (Link.exec shipped) Link.Calm x y ∧ (Healthy conv y ∧ y.Idle) ∧ y.owed < x.owed := by
    rintro x ⟨hx, hidle⟩ hne
    obtain ⟨y, hy, hidle', hlt⟩ := progress_step hx hidle hne
    exact ⟨y, hy, ⟨(hx.reaches hy).1, hidle'⟩, hlt⟩
  obtain ⟨l', hr, ⟨hi', -⟩, hgoal⟩ := LeadsTo.of_decreasing Link.owed hstep ⟨hi₂, hidle⟩
  have hall := (hr₁.trans hr₂).trans hr
  exact ⟨l', hall, hgoal.trans (hi.reaches hall).2⟩

/-- **The link never comes to a standstill.**  In a release build, take any run of the link in which the right side does
not send, and drop every datagram under way.  If no fragment can be read as a header, the messages fit the window of
the right side, the window fits the 16 bits in which it is told and there are at most `2 ^ 31` fragments, then calls
that put nothing in, abandon no flush and set no clock back, together with new datagrams alone, bring the link into a
state in which the right side has received exactly what the left side had accepted; and none of the calls stops a
thread. -/
theorem can_deliver {conv : UInt32} {cl cr : Config} {acts : List Act} {l : Link}
    (hsend : ∀ a ∈ acts, ∀ buf, a ≠ .right (.send buf))
    (hr : run (Link.exec shipped) (Link.start conv cl cr) acts = some l) (hclean : l.Clean conv fullSize)
    (hshort : (pieces fullSize l.left.accepted).length ≤ 2 ^ 31)
    (hfits : ∀ m ∈ l.left.accepted, m.length ≤ (configured conv cr).rcvWnd.toNat * fullSize)
    (htold : (configured conv cr).rcvWnd.toNat < 2 ^ 16) :
    ∃ acts' l', Meets (Link.exec shipped) Link.Calm l.lost acts' ∧ run (Link.exec shipped) l.lost acts' = some l' ∧
      l'.right.received = l.left.accepted := by
  obtain ⟨l', ⟨acts', hm, hr'⟩, hgoal⟩ := (healthy_run hsend hr hclean hshort hfits htold).delivers_all
  exact ⟨acts', l', hm, hr', hgoal⟩

/-- A message of two fragments, sent once, with both fragments lost. -/
def lostActs : List Act := [.left (.send (List.replicate 2000 1)), .left (.update 0 none), .left (.flush none)]

/-- Both fragments are lost, and the message arrives all the same. -/
theorem can_deliver_lost :
    ∃ l acts' l', run (Link.exec shipped) (Link.start 7 {} {}) lostActs = some l ∧
      Meets (Link.exec shipped) Link.Calm l.lost acts' ∧ run (Link.exec shipped) l.lost acts' = some l' ∧
      l'.right.received = [List.replicate 2000 1] := by
  have h : (run (Link.exec shipped) (Link.start 7 {} {}) lostActs).map (fun l => l.left.accepted) =
      some [List.replicate 2000 1] := by decide +kernel
  obtain ⟨l, hl, hacc⟩ := Option.map_eq_some_iff.mp h
  have hsend : ∀ a ∈ lostActs, ∀ buf, a ≠ .right (.send buf) := by
    rintro a ha buf rfl
    simp only [lostActs, List.mem_cons, List.not_mem_nil, reduceCtorEq, or_self] at ha
  obtain ⟨acts', l', hm, hr, hgoal⟩ := can_deliver hsend hl
    (by rw [Link.Clean, hacc]; decide +kernel) (by rw [hacc]; decide +kernel) (by rw [hacc]; decide +kernel)
    (by decide +kernel)
  exact ⟨l, acts', l', hl, hm, hr, hgoal.trans hacc⟩

end NetProtocols.Kcp
