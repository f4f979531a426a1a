import NetProtocols.Lib.Elapsed
import NetProtocols.Kcp.Delivery
import NetProtocols.Kcp.Discard
import NetProtocols.Kcp.Emission
import NetProtocols.Kcp.Foreign
import NetProtocols.Kcp.Outbound

/-!
# NetProtocols.Kcp.Healthy — a link that can still deliver

What is known of a link whose right side never sends, in every state it reaches, and where the two sides stand when
something is still to be delivered.

* `Able`: what is fixed at the start and never changes, for one side; `Healthy`: the link.
* `Link.Calm`: calls that put nothing in, abandon no flush and do not set a clock back; `healthy_exec`.
* `healthy_run`: every reachable state, when the messages fit the window and cannot be read as headers.
* `Healthy.room`: when `recv` has nothing to return and not everything is delivered, there is room in `rcv_queue` and
  the next fragment is not stored; `Healthy.head_le`: the first segment in flight is not beyond it.
-/

namespace NetProtocols.Kcp

open Kcb Scan

/-- The size of a full segment. -/
def fullSize : ℕ := kcpMtuDef - kcpOverhead

theorem fullSize_pos : 0 < fullSize ∧ fullSize < 2 ^ 32 := by decide

/-! ### One side -/

/-- What the start of a conversation fixes. -/
structure Able (conv : UInt32) (k : Kcb) : Prop where
  sized : SizedFrom k
  out : Outbound k
  conv : k.conv = conv
  sndWnd : 0 < k.sndWnd.toNat ∧ k.sndWnd.toNat < 2 ^ 31
  rcvWnd : 0 < k.rcvWnd.toNat

theorem able_exec {conv : UInt32} {e e' : Endpoint} {op : Op} (h : e.exec shipped op = some e')
    (hi : Able conv e.kcb) : Able conv e'.kcb := by
  have hset := settings_exec h
  have e1 : e'.kcb.conv = e.kcb.conv := congrArg Settings.conv hset
  have e2 : e'.kcb.sndWnd = e.kcb.sndWnd := congrArg Settings.sndWnd hset
  have e3 : e'.kcb.rcvWnd = e.kcb.rcvWnd := congrArg Settings.rcvWnd hset
  exact ⟨sizedFrom_exec hi.sized h, hi.out.exec h, e1.trans hi.conv, e2 ▸ hi.sndWnd, e3 ▸ hi.rcvWnd⟩

theorem able_start (conv : UInt32) (c : Config) : Able conv (Endpoint.start conv c).kcb := by
  have hconv : (configured conv c).conv = conv := by
    obtain ⟨_, _, _, _, _, _, h⟩ := configured_eq conv c
    rw [h]
    rfl
  exact ⟨sizedFrom_start conv c, outbound_start conv c, hconv, sndWnd_configured conv c, (rcvWnd_configured conv c).1⟩

/-! ### Calm calls -/

/-- The call puts no data in, abandons no flush, and does not set the clock back. -/
def Op.Calm (k : Kcb) : Op → Prop
  | .send _ => False
  | .update now cut => cut = none ∧ elapsed k.current now ≤ 2 ^ 31
  | .flush cut => cut = none
  | .recv _ | .input _ => True

/-- A calm call on either side. -/
def Link.Calm (l : Link) : Act → Prop
  | .left op => op.Calm l.left.kcb
  | .right op => op.Calm l.right.kcb

theorem accepted_calm {b : Build} {e e' : Endpoint} {op : Op} (hc : op.Calm e.kcb) (h : e.exec b op = some e') :
    e'.accepted = e.accepted := by
  cases op <;> simp only [Endpoint.exec, Option.map_eq_some_iff] at h
  case send buf => exact hc.elim
  case recv cap =>
    obtain ⟨⟨r, k'⟩, -, rfl⟩ := h
    cases r <;> rfl
  all_goals
    obtain ⟨r, -, rfl⟩ := h
    rfl

/-! ### The link -/

/-- A link that can still deliver: its right side does not send, its fragments cannot be read as headers, and its
messages fit the window of the right side, which fits the 16 bits it is told in. -/
structure Healthy (conv : UInt32) (l : Link) : Prop where
  way : OneWay l
  delivers : Delivers fullSize l
  left : Able conv l.left.kcb
  right : Able conv l.right.kcb
  clean : l.Clean conv fullSize
  short : (pieces fullSize l.left.accepted).length ≤ 2 ^ 31
  fits : ∀ m ∈ l.left.accepted, fragCount fullSize m.length ≤ l.right.kcb.rcvWnd.toNat
  told : l.right.kcb.rcvWnd.toNat < 2 ^ 16

section Exec

variable {conv : UInt32} {l l' : Link} {a : Act}

theorem able_link (h : l.exec shipped a = some l') (hl : Able conv l.left.kcb) (hr : Able conv l.right.kcb) :
    Able conv l'.left.kcb ∧ Able conv l'.right.kcb ∧ l'.right.kcb.rcvWnd = l.right.kcb.rcvWnd := by
  cases a with
  | left op =>
    obtain ⟨-, e, he, rfl⟩ := Link.link_left h
    exact ⟨able_exec he hl, hr, rfl⟩
  | right op =>
    obtain ⟨-, e, he, rfl⟩ := Link.link_right h
    exact ⟨hl, able_exec he hr, congrArg Settings.rcvWnd (settings_exec he)⟩

/-- **Calm calls leave the link healthy**, and what was accepted stays. -/
theorem healthy_exec (hc : l.Calm a) (h : l.exec shipped a = some l') (hi : Healthy conv l) :
    Healthy conv l' ∧ l'.left.accepted = l.left.accepted := by
  have hacc : l'.left.accepted = l.left.accepted := by
    cases a with
    | left op =>
      obtain ⟨-, e, he, rfl⟩ := Link.link_left h
      exact accepted_calm hc he
    | right op =>
      obtain ⟨-, e, -, rfl⟩ := Link.link_right h
      rfl
  have hsend : ∀ buf, a ≠ .right (.send buf) := by
    rintro buf rfl
    exact hc.elim
  have hclean : l'.Clean conv fullSize := by
    intro x hx
    rw [hacc] at hx
    exact hi.clean x hx
  obtain ⟨hl, hr, hwnd⟩ := able_link h hi.left hi.right
  refine ⟨⟨oneWay_exec hsend h hi.way, delivers_exec fullSize_pos hi.right.conv hclean h hi.delivers, hl, hr, hclean,
    ?_, ?_, ?_⟩, hacc⟩
  · rw [hacc]
    exact hi.short
  · rw [hacc, hwnd]
    exact hi.fits
  · rw [hwnd]
    exact hi.told

end Exec

/-- The datagrams under way are lost. -/
def Link.lost (l : Link) : Link := ⟨{ l.left with written := [] }, { l.right with written := [] }⟩

/-- **The states a link reaches are healthy**, also when what is under way is lost. -/
theorem healthy_run {conv : UInt32} {cl cr : Config} {acts : List Act} {l : Link}
    (hsend : ∀ a ∈ acts, ∀ buf, a ≠ .right (.send buf))
    (hr : run (Link.exec shipped) (Link.start conv cl cr) acts = some l) (hclean : l.Clean conv fullSize)
    (hshort : (pieces fullSize l.left.accepted).length ≤ 2 ^ 31)
    (hfits : ∀ m ∈ l.left.accepted, m.length ≤ (configured conv cr).rcvWnd.toNat * fullSize)
    (htold : (configured conv cr).rcvWnd.toNat < 2 ^ 16) : Healthy conv l.lost := by
  have hm : Meets (Link.exec shipped) (fun _ a => ∀ buf, a ≠ .right (.send buf)) (Link.start conv cl cr) acts :=
    meets_of_forall (fun _ a ha => hsend a ha) _
  -- the messages are foreign in the end, so they were all the way
  obtain ⟨hway, hdel, hl, hr', hwnd⟩ := run_invariant_of_meets (I := fun l => OneWay l ∧
    (l.Clean conv fullSize → Delivers fullSize l) ∧ Able conv l.left.kcb ∧ Able conv l.right.kcb ∧
      l.right.kcb.rcvWnd = (configured conv cr).rcvWnd) (fun l a l' hi ha h => by
      obtain ⟨i1, i2, i3, i4, i5⟩ := hi
      obtain ⟨j3, j4, j5⟩ := able_link h i3 i4
      refine ⟨oneWay_exec ha h i1, fun hc => ?_, j3, j4, j5.trans i5⟩
      exact delivers_exec fullSize_pos i4.conv hc h (i2 (hc.before (accepted_link h)))) hm hr
    ⟨oneWay_start conv cl cr, fun _ => delivers_start conv cl cr, able_start conv cl, able_start conv cr, rfl⟩
  have hd := hdel hclean
  refine ⟨⟨hway.left, ⟨hway.right.recv, hway.right.queue, hway.right.buf, hway.right.buffer, ?_⟩, hway.discards⟩,
    ⟨⟨hd.left.stream, hd.left.size, hd.left.msgs, hd.left.carrying, ?_⟩,
      hd.right.recv, hd.right.carried, hd.right.taken, hd.right.ordered⟩, hl, hr', hclean, hshort, ?_, hwnd ▸ htold⟩
  · exact fun d hd => absurd hd List.not_mem_nil
  · exact fun d hd => absurd hd List.not_mem_nil
  · intro m hm'
    show fragCount fullSize m.length ≤ l.right.kcb.rcvWnd.toNat
    rw [hwnd]
    exact (fragCount_le_iff fullSize_pos.1 (rcvWnd_configured conv cr).1).mpr (hfits m hm')

/-! ### Where the two sides stand -/

section Fronts

variable {conv : UInt32} {l : Link}

theorem frg_of_cut {mss : ℕ} {m : List UInt8} {seg : Segment} {q : List Segment} {rest : List (UInt8 × List UInt8)}
    (hmss : 0 < mss) (hm : Sendable mss m)
    (hq : (seg :: q).map Segment.piece <+: (cut mss m).map Segment.piece ++ rest) :
    seg.frg.toNat + 1 = fragCount mss m.length := by
  have hframe := frame_cut hmss hm.2
  cases hcut : (cut mss m).map Segment.piece with
  | nil => exact absurd hcut hframe.1
  | cons y ys =>
    rw [hcut] at hframe hq
    obtain ⟨t, ht⟩ := hq
    obtain ⟨rfl, -⟩ := List.cons.inj ht
    have hlen : (cut mss m).length = ys.length + 1 := by
      rw [← List.length_map (f := Segment.piece), hcut, List.length_cons]
    have hfirst := (List.cons.inj hframe.2).1
    rw [← length_cut, hlen]
    exact congrArg (· + 1) hfirst

/-- **There is room when something is missing**: `recv` has no message to return, and not all were returned. -/
theorem Healthy.room (hi : Healthy conv l) (hne : l.right.received ≠ l.left.accepted)
    (hw : ¬ Whole l.right.kcb.rcvQueue) :
    l.right.kcb.rcvQueue.length < l.right.kcb.rcvWnd.toNat ∧
      l.right.kcb.rcvNxt.toNat < (pieces fullSize l.left.accepted).length := by
  have hr := hi.delivers.right
  obtain ⟨rest, hrest⟩ := hr.ordered
  cases rest with
  | nil => exact absurd (by rw [← hrest, List.append_nil]) hne
  | cons m rest =>
    have hm : m ∈ l.left.accepted := hrest ▸ List.mem_append_right _ List.mem_cons_self
    have hsend := hi.delivers.left.msgs m hm
    have hprefix := hr.queue_prefix hrest
    have hsplit : pieces fullSize (m :: rest) = (cut fullSize m).map Segment.piece ++ pieces fullSize rest := rfl
    rw [hsplit] at hprefix
    have hpos : 0 < fragCount fullSize m.length := fragCount_pos fullSize_pos.1
    -- with all its fragments there, the message would be whole
    have hlt : l.right.kcb.rcvQueue.length < fragCount fullSize m.length := by
      by_contra hge
      cases hq : l.right.kcb.rcvQueue with
      | nil =>
        rw [hq, List.length_nil] at hge
        omega
      | cons seg q =>
        rw [hq] at hprefix hge
        have hfrg := frg_of_cut fullSize_pos.1 hsend hprefix
        refine hw ⟨seg, q, hq, Or.inr ?_⟩
        have hbound := hsend.2
        rw [UInt8.toNat_add, hq]
        have h1 : (1 : UInt8).toNat = 1 := rfl
        rw [h1]
        omega
    refine ⟨lt_of_lt_of_le hlt (hi.fits m hm), ?_⟩
    have hnum := congrArg List.length hr.recv.numbers
    have htaken := congrArg List.length hr.taken
    rw [List.length_map, List.length_append, List.length_range] at hnum
    rw [List.length_map] at htaken
    have hall : (pieces fullSize l.left.accepted).length =
        (pieces fullSize l.right.received).length + (fragCount fullSize m.length + (pieces fullSize rest).length) := by
      rw [← hrest, pieces_append, hsplit, List.length_append, List.length_append, List.length_map, length_cut]
    replace hnum : l.right.taken.length + l.right.kcb.rcvQueue.length = l.right.kcb.rcvNxt.toNat := hnum
    omega

theorem not_stored_of_room {k : Kcb} {taken : List Segment} (hi : RecvInv k.recvSide taken)
    (hroom : k.rcvQueue.length < k.rcvWnd.toNat) : ¬ k.recvSide.Stored k.rcvNxt := by
  rintro (hlt | ⟨s, hs, hsn⟩)
  · exact UInt32.lt_irrefl _ hlt
  · replace hs : s ∈ k.rcvBuf := hs
    cases hb : k.rcvBuf with
    | nil => exact absurd (hb ▸ hs) List.not_mem_nil
    | cons a l =>
      -- it would be the first of `rcv_buf`
      have hsorted : Increasing Segment.num (a :: l) := by
        have := hi.sorted
        rwa [show k.recvSide.rcvBuf = a :: l from hb] at this
      have hlow : k.rcvNxt.toNat ≤ a.num := (hi.window a (show a ∈ k.rcvBuf by simp [hb])).1
      have hsnum : s.num = k.rcvNxt.toNat := by rw [Segment.num, hsn]
      have ha : a.sn = k.rcvNxt := by
        rw [hb] at hs
        rcases List.mem_cons.mp hs with rfl | hs
        · exact hsn
        · have hlt := (increasing_cons.mp hsorted).1 s hs
          omega
      have hhead : k.recvSide.rcvBuf.head? = some a := by
        show k.rcvBuf.head? = some a
        rw [hb]
        rfl
      have hfull : k.rcvWnd.toNat ≤ k.rcvQueue.length := hi.held a hhead ha
      omega

/-- **The first segment in flight** is not beyond the fragment that comes next. -/
theorem Healthy.head_le (hi : Healthy conv l) (hroom : l.right.kcb.rcvQueue.length < l.right.kcb.rcvWnd.toNat)
    {h : Segment} {t : List Segment} (hb : l.left.kcb.sndBuf = h :: t) : h.sn ≤ l.right.kcb.rcvNxt := by
  have hmem : h.fixed ∈ l.left.kcb.sendSide.sndBuf := by
    show h.fixed ∈ l.left.kcb.sndBuf.map Segment.fixed
    rw [hb]
    exact List.mem_cons_self
  rcases UInt32.lt_or_le l.right.kcb.rcvNxt l.left.kcb.sndNxt with hlt | hle
  · rcases hi.way.discards _ hlt with ⟨f, hf, hsn⟩ | hst
    · have hsorted := hi.way.left.sorted
      replace hf : f ∈ l.left.kcb.sndBuf.map Segment.fixed := hf
      replace hsorted : Increasing Fixed.num (l.left.kcb.sndBuf.map Segment.fixed) := hsorted
      rw [hb, List.map_cons] at hf hsorted
      rcases List.mem_cons.mp hf with rfl | hf
      · exact hsn ▸ UInt32.le_refl _
      · have hlt' := (increasing_cons.mp hsorted).1 f hf
        rw [← hsn]
        exact UInt32.le_iff_toNat_le.mpr (Nat.le_of_lt hlt')
    · exact absurd hst (not_stored_of_room hi.way.right.recv hroom)
  · exact UInt32.le_of_lt (UInt32.lt_of_lt_of_le (hi.way.left.window _ hmem).2 hle)

/-- **With nothing in flight** something waits in `snd_queue`. -/
theorem Healthy.queue_ne_nil (hi : Healthy conv l) (hroom : l.right.kcb.rcvQueue.length < l.right.kcb.rcvWnd.toNat)
    (hmore : l.right.kcb.rcvNxt.toNat < (pieces fullSize l.left.accepted).length) (hb : l.left.kcb.sndBuf = []) :
    l.left.kcb.sndQueue ≠ [] := by
  have hle : l.left.kcb.sndNxt ≤ l.right.kcb.rcvNxt := by
    by_contra hlt
    rcases hi.way.discards _ (UInt32.not_le.mp hlt) with ⟨f, hf, -⟩ | hst
    · replace hf : f ∈ l.left.kcb.sndBuf.map Segment.fixed := hf
      rw [hb] at hf
      exact absurd hf List.not_mem_nil
    · exact not_stored_of_room hi.way.right.recv hroom hst
  have hle' := UInt32.le_iff_toNat_le.mp hle
  intro hnil
  have hqueue := congrArg List.length hi.delivers.left.carrying.queue
  rw [hnil, List.map_nil, List.length_nil, List.length_drop] at hqueue
  omega

end Fronts

end NetProtocols.Kcp
