import NetProtocols.Lib.KeyList
import NetProtocols.Kcp.RecvInv

/-!
# NetProtocols.Kcp.SendInv — the send window, against any peer

`SendInv` is the invariant of `snd_buf`, `snd_una` and `snd_nxt`.  Whatever acknowledgements and `una` values arrive,
`input` only ever takes segments out of `snd_buf` (`shrinks_input`), and `shrink_buf` recomputes `snd_una`.

* `SendSide.front`: what `shrink_buf` computes.
* `drop_countBelow_keeps`, `removeSn_keeps`: which segments an acknowledgement cannot take out.
* `numbered`, `Assigned`: what a flush does to `snd_queue` and `snd_buf`.
* `sendInv_exec`, `assigned_exec`: one call; `sendInv_run`: every run.
-/

namespace NetProtocols.Kcp

/-- The sequence number of a segment on the send side, as a natural number. -/
def Fixed.num (s : Fixed) : ℕ := s.sn.toNat

/-- The first unacknowledged number, by the contents of `snd_buf`. -/
def SendSide.front (r : SendSide) : UInt32 := (r.sndBuf.head?.map Fixed.sn).getD r.sndNxt

/-- **The send-side invariant.** -/
structure SendInv (r : SendSide) : Prop where
  sorted : Increasing Fixed.num r.sndBuf
  window : ∀ s ∈ r.sndBuf, r.sndUna ≤ s.sn ∧ s.sn < r.sndNxt
  una : r.sndUna = r.front
  span : r.sndNxt.toNat ≤ r.sndUna.toNat + r.sndWnd.toNat

theorem SendInv.una_le_nxt {r : SendSide} (h : SendInv r) : r.sndUna ≤ r.sndNxt := by
  cases hb : r.sndBuf with
  | nil =>
    have := h.una
    simp only [SendSide.front, hb, List.head?_nil, Option.map_none, Option.getD_none] at this
    exact this ▸ UInt32.le_refl _
  | cons s l =>
    obtain ⟨h1, h2⟩ := h.window s (by simp [hb])
    exact UInt32.le_of_lt (UInt32.lt_of_le_of_lt h1 h2)

/-- From `r` to `r'` segments may have gone from `snd_buf`, and nothing else has changed but `snd_una`. -/
structure SendSide.Shrinks (r r' : SendSide) : Prop where
  buf : r'.sndBuf.Sublist r.sndBuf
  nxt : r'.sndNxt = r.sndNxt
  wnd : r'.sndWnd = r.sndWnd
  queue : r'.sndQueue = r.sndQueue

theorem SendSide.Shrinks.refl (r : SendSide) : r.Shrinks r := ⟨.refl _, rfl, rfl, rfl⟩

theorem SendSide.Shrinks.trans {r r' r'' : SendSide} (h : r.Shrinks r') (h' : r'.Shrinks r'') : r.Shrinks r'' :=
  ⟨h'.buf.trans h.buf, h'.nxt.trans h.nxt, h'.wnd.trans h.wnd, h'.queue.trans h.queue⟩

/-- **Taking segments out of `snd_buf`** and recomputing `snd_una` keeps the invariant, and `snd_una` only grows. -/
theorem sendInv_shrinks {r r' : SendSide} (h : SendInv r) (hs : r.Shrinks r') (huna : r'.sndUna = r'.front) :
    SendInv r' ∧ r.sndUna ≤ r'.sndUna := by
  have hsorted : Increasing Fixed.num r'.sndBuf := h.sorted.sublist hs.buf
  have hmono : r.sndUna ≤ r'.sndUna := by
    rw [huna]
    unfold SendSide.front
    cases hb : r'.sndBuf with
    | nil =>
      rw [List.head?_nil, Option.map_none, Option.getD_none, hs.nxt]
      exact h.una_le_nxt
    | cons s l => exact (h.window s (hs.buf.subset (by simp [hb]))).1
  refine ⟨⟨hsorted, fun s hm => ⟨?_, hs.nxt ▸ (h.window s (hs.buf.subset hm)).2⟩, huna, ?_⟩, hmono⟩
  · rw [huna]
    unfold SendSide.front
    cases hb : r'.sndBuf with
    | nil => simp [hb] at hm
    | cons a l =>
      rw [hb] at hm hsorted
      rcases List.mem_cons.mp hm with rfl | hm
      · exact UInt32.le_refl _
      · exact UInt32.le_of_lt (UInt32.lt_iff_toNat_lt.mpr ((increasing_cons.mp hsorted).1 s hm))
  · have h1 := h.span
    have h2 := UInt32.le_iff_toNat_le.mp hmono
    rw [hs.nxt, hs.wnd]
    omega

namespace Kcb

variable {p : Profile} {k k' : Kcb}

/-! ### Acknowledgements -/

theorem removeSn_sublist (sn : UInt32) (l : List Segment) : (removeSn sn l).Sublist l := by
  induction l with
  | nil => exact .slnil
  | cons a l ih =>
    unfold removeSn
    split_ifs
    · exact List.sublist_cons_self a l
    · exact .refl _
    · exact ih.cons_cons a

theorem removeSn_keeps {sn : UInt32} {l : List Segment} {s : Segment} (hs : s ∈ l) (hne : s.sn ≠ sn) :
    s ∈ removeSn sn l := by
  induction l with
  | nil => simp at hs
  | cons a l ih =>
    unfold removeSn
    split_ifs with h1 h2
    · rcases List.mem_cons.mp hs with rfl | hs
      · exact absurd h1.symm hne
      · exact hs
    · exact hs
    · rcases List.mem_cons.mp hs with rfl | hs
      · simp
      · exact List.mem_cons_of_mem _ (ih hs)

theorem drop_countBelow_keeps {una : UInt32} {l : List Segment} {s : Segment} (hs : s ∈ l) (hle : una ≤ s.sn) :
    s ∈ l.drop (countBelow una l) := by
  induction l with
  | nil => simp at hs
  | cons a l ih =>
    unfold countBelow
    split_ifs with h1
    · rcases List.mem_cons.mp hs with rfl | hs
      · exact absurd h1 (UInt32.not_lt.mpr hle)
      · exact ih hs
    · exact hs

theorem shrinkBuf_front (k : Kcb) : k.shrinkBuf.sendSide.sndUna = k.shrinkBuf.sendSide.front := by
  unfold shrinkBuf sendSide SendSide.front
  cases k.sndBuf <;> rfl

theorem shrinks_onHeader (k : Kcb) (h : Header) : k.sendSide.Shrinks (k.onHeader h).sendSide :=
  ⟨(List.drop_sublist _ _).map _, rfl, rfl, rfl⟩

theorem shrinks_parseAck (k : Kcb) (sn : UInt32) : k.sendSide.Shrinks (k.parseAck sn).shrinkBuf.sendSide := by
  unfold parseAck
  split_ifs
  · exact ⟨.refl _, rfl, rfl, rfl⟩
  · exact ⟨(removeSn_sublist sn k.sndBuf).map _, rfl, rfl, rfl⟩

/-- On the send side, a segment is its header's `una`, and an acknowledgement if it is one. -/
theorem sendSide_taken {s s' : Scan} {h : Header} (ht : Scan.Taken p s h s') :
    s'.kcb.sendSide = (s.kcb.onHeader h).sendSide ∨
      (h.cmd = kcpCmdAck ∧ s'.kcb.sendSide = ((s.kcb.onHeader h).parseAck h.sn).shrinkBuf.sendSide) := by
  cases ht with
  | ack hc hk =>
    refine Or.inr ⟨hc, ?_⟩
    rcases hk with rfl | ⟨rtt, hk⟩
    · rfl
    · obtain ⟨srtt, rttval, rto, rfl⟩ := updateAck_eq hk
      unfold parseAck
      split_ifs <;> rfl
  | inside hc hsn hle hk =>
    rcases parseData_eq_moved hk with rfl | ⟨l, n, nxt, rfl⟩
    · exact Or.inl rfl
    · exact Or.inl rfl
  | above | below | wask | other => exact Or.inl rfl

/-- Whatever the header says, segments only go from `snd_buf`, and `snd_una` is up to date. -/
theorem shrinks_taken {s s' : Scan} {h : Header} (ht : Scan.Taken p s h s') :
    s.kcb.sendSide.Shrinks s'.kcb.sendSide ∧ s'.kcb.sendSide.sndUna = s'.kcb.sendSide.front := by
  have hh := shrinks_onHeader s.kcb h
  rcases sendSide_taken ht with e | ⟨-, e⟩
  · rw [e]
    exact ⟨hh, shrinkBuf_front _⟩
  · rw [e]
    exact ⟨hh.trans (shrinks_parseAck _ h.sn), shrinkBuf_front _⟩

theorem shrinks_input {d : List UInt8} {r : Except IoError ℕ} (h : k.input p d = some (r, k')) :
    k.sendSide.Shrinks k'.sendSide := by
  refine input_rule (I := fun s => k.sendSide.Shrinks s.kcb.sendSide) (J := fun k' => k.sendSide.Shrinks k'.sendSide)
    h (.refl _) (fun _ hs => hs) ?_ ?_
  · intro s s' hs hst
    obtain ⟨hd, rest, -, -, ht⟩ := Scan.inputStep_ok hst
    exact hs.trans (shrinks_taken (Scan.taken_of_takeSegment ht)).1
  · intro s k' hs hf
    rw [(finishInput_sides hf).2]
    exact hs

theorem sendInv_input {d : List UInt8} {r : Except IoError ℕ} (h : k.input p d = some (r, k'))
    (hi : SendInv k.sendSide) : SendInv k'.sendSide ∧ k.sndUna ≤ k'.sndUna := by
  refine input_rule (I := fun s => SendInv s.kcb.sendSide ∧ k.sndUna ≤ s.kcb.sndUna)
    (J := fun k' => SendInv k'.sendSide ∧ k.sendSide.sndUna ≤ k'.sendSide.sndUna) h ⟨hi, UInt32.le_refl _⟩
    (fun _ hs => hs) ?_ ?_
  · rintro s s' ⟨i1, i2⟩ hs
    obtain ⟨hd, rest, -, -, ht⟩ := Scan.inputStep_ok hs
    obtain ⟨t1, t2⟩ := shrinks_taken (Scan.taken_of_takeSegment ht)
    obtain ⟨j1, j2⟩ := sendInv_shrinks i1 t1 t2
    exact ⟨j1, UInt32.le_trans i2 j2⟩
  · rintro s k' ⟨i1, i2⟩ hf
    rw [(finishInput_sides hf).2]
    exact ⟨i1, i2⟩

/-! ### Assigning sequence numbers -/

/-- The segments of `snd_queue` as they enter `snd_buf`, numbered from `nxt` on. -/
def numbered (conv : UInt32) : UInt32 → List Segment → List Fixed
  | _, [] => []
  | nxt, seg :: rest => ⟨conv, kcpCmdPush, seg.frg, nxt, seg.data⟩ :: numbered conv (nxt + 1) rest

theorem numbered_append (conv nxt : UInt32) (l₁ l₂ : List Segment) :
    numbered conv nxt (l₁ ++ l₂) = numbered conv nxt l₁ ++ numbered conv (nxt + UInt32.ofNat l₁.length) l₂ := by
  induction l₁ generalizing nxt with
  | nil => simp [numbered]
  | cons a l₁ ih =>
    simp only [List.cons_append, numbered, ih, List.length_cons, UInt32.ofNat_add, List.cons_append]
    congr 3
    rw [UInt32.add_assoc, UInt32.add_comm 1]
    rfl

theorem mem_numbered (conv nxt : UInt32) {l : List Segment} {i : ℕ} (h : i < l.length) :
    ∃ f ∈ numbered conv nxt l, f.sn = nxt + UInt32.ofNat i := by
  have hsplit := numbered_append conv nxt (l.take i) (l.drop i)
  rw [List.take_append_drop, List.drop_eq_getElem_cons h, List.length_take, Nat.min_eq_left (Nat.le_of_lt h)] at hsplit
  exact ⟨_, by rw [hsplit]; exact List.mem_append_right _ List.mem_cons_self, rfl⟩

/-- From `k` to `k'` the first `n` segments of `snd_queue` went to the end of `snd_buf`, in order, with the next
`n` numbers; every one of these numbers is inside both windows. -/
structure Assigned (k k' : Kcb) (n : ℕ) : Prop where
  len : n ≤ k.sndQueue.length
  nxt : k'.sndNxt.toNat = k.sndNxt.toNat + n
  queue : k'.sndQueue = k.sndQueue.drop n
  buf : k'.sndBuf.map Segment.fixed =
    k.sndBuf.map Segment.fixed ++ numbered k.conv k.sndNxt (k.sndQueue.take n)
  wnd : ∀ i < n, k.sndNxt.toNat + i < k.sndUna.toNat + min k.sndWnd.toNat k.rmtWnd.toNat
  cwnd : k.nocwnd = false → ∀ i < n, k.sndNxt.toNat + i < k.sndUna.toNat + k.cwnd.toNat
  una : k'.sndUna = k.sndUna
  conv : k'.conv = k.conv
  sndWnd : k'.sndWnd = k.sndWnd

theorem Assigned.refl (k : Kcb) : Assigned k k 0 :=
  ⟨Nat.zero_le _, rfl, rfl, by simp [numbered], by simp, by simp, rfl, rfl, rfl⟩

theorem flushWnd_le (k : Kcb) :
    k.flushWnd ≤ k.sndWnd ∧ k.flushWnd ≤ k.rmtWnd ∧ (k.nocwnd = false → k.flushWnd ≤ k.cwnd) := by
  have hmin : ∀ a b : UInt32, min a b ≤ a ∧ min a b ≤ b := by
    intro a b
    show (if a ≤ b then a else b) ≤ a ∧ (if a ≤ b then a else b) ≤ b
    split_ifs with h
    · exact ⟨UInt32.le_refl _, h⟩
    · exact ⟨UInt32.le_of_lt (UInt32.not_le.mp h), UInt32.le_refl _⟩
  obtain ⟨h1, h2⟩ := hmin k.sndWnd k.rmtWnd
  obtain ⟨h3, h4⟩ := hmin k.cwnd (min k.sndWnd k.rmtWnd)
  unfold flushWnd
  dsimp only
  split_ifs with hn
  · exact ⟨UInt32.le_trans h4 h1, UInt32.le_trans h4 h2, fun _ => h3⟩
  · exact ⟨h1, h2, fun h => absurd (by simp [h]) hn⟩

/-- A number below the edge of the send window, as `flush` computes it, is inside both windows. -/
theorem lt_of_lt_edge {x : UInt32} (h1 : k.sndUna ≤ x) (h2 : x < k.sndUna + k.flushWnd) :
    x.toNat < k.sndUna.toNat + min k.sndWnd.toNat k.rmtWnd.toNat ∧
      (k.nocwnd = false → x.toNat < k.sndUna.toNat + k.cwnd.toNat) := by
  have hsum := toNat_add_of_between h1 h2
  obtain ⟨w1, w2, w3⟩ := flushWnd_le k
  have h2' := UInt32.lt_iff_toNat_lt.mp h2
  have w1' := UInt32.le_iff_toNat_le.mp w1
  have w2' := UInt32.le_iff_toNat_le.mp w2
  refine ⟨by omega, fun hn => ?_⟩
  have w3' := UInt32.le_iff_toNat_le.mp (w3 hn)
  omega

/-- On the send side, the only small step of a flush that counts is `assign`. -/
theorem sendSide_flushStep {b : Build} {k₀ : Kcb} (h : FlushStep b k₀ k k') :
    k'.sendSide = k.sendSide ∨ ∃ seg rest, k.sndQueue = seg :: rest ∧ k.sndNxt < k₀.sndUna + k₀.flushWnd ∧
      k'.sendSide = ⟨k.sndUna, k.sndNxt + 1, k.sndWnd, rest,
        k.sndBuf.map Segment.fixed ++ [⟨k.conv, kcpCmdPush, seg.frg, k.sndNxt, seg.data⟩]⟩ := by
  cases h
  case assign seg rest wnd hq hlt =>
    refine Or.inr ⟨seg, rest, hq, hlt, ?_⟩
    simp only [sendSide, Flushing.moveSegment, List.map_append]
    rfl
  case stamp done rest seg seg' xmit hb hs =>
    left
    simp only [sendSide, setSndBuf, hb, List.map_append, List.map_cons, hs]
  case settle cwnd resent lost change h =>
    obtain ⟨s, c, i, rfl⟩ := settleCwnd_eq h
    exact Or.inl rfl
  all_goals exact Or.inl rfl

theorem assigned_flushStep {b : Build} {k₀ : Kcb} {n : ℕ} (hle : k₀.sndUna ≤ k₀.sndNxt) (ha : Assigned k₀ k n)
    (h : FlushStep b k₀ k k') : ∃ n', Assigned k₀ k' n' := by
  have hconv : k'.conv = k₀.conv := (congrArg Settings.conv (settings_flushStep h)).trans ha.conv
  rcases sendSide_flushStep h with e | ⟨seg, rest, hq, hlt, e⟩
  · simp only [sendSide, SendSide.mk.injEq] at e
    obtain ⟨e1, e2, e3, e4, e5⟩ := e
    exact ⟨n, ha.len, by rw [e2, ha.nxt], by rw [e4, ha.queue], by rw [e5, ha.buf], ha.wnd, ha.cwnd,
      e1.trans ha.una, hconv, e3.trans ha.sndWnd⟩
  · simp only [sendSide, SendSide.mk.injEq] at e
    obtain ⟨e1, e2, e3, e4, e5⟩ := e
    rw [ha.queue] at hq
    have hlen : n < k₀.sndQueue.length := by
      have := congrArg List.length hq
      simp only [List.length_drop, List.length_cons] at this
      omega
    have hget : k₀.sndQueue[n] = seg ∧ k₀.sndQueue.drop (n + 1) = rest := by
      rw [List.drop_eq_getElem_cons hlen] at hq
      exact List.cons_eq_cons.mp hq
    have hle' : k₀.sndNxt ≤ k.sndNxt := UInt32.le_iff_toNat_le.mpr (by rw [ha.nxt]; omega)
    obtain ⟨w1, w2⟩ := lt_of_lt_edge (UInt32.le_trans hle hle') hlt
    have hnxt : k'.sndNxt.toNat = k₀.sndNxt.toNat + (n + 1) := by
      rw [e2, toNat_succ_of_lt hlt, ha.nxt]
      omega
    have hoff := eq_add_ofNat ha.nxt
    refine ⟨n + 1, hlen, hnxt, by rw [e4, ← hget.2], ?_, fun i hi => ?_, fun hn i hi => ?_, e1.trans ha.una, hconv,
      e3.trans ha.sndWnd⟩
    · rw [e5, ha.buf, List.take_succ_eq_append_getElem hlen, numbered_append, hget.1, List.append_assoc, ha.conv]
      simp [numbered, hoff, Nat.le_of_lt hlen]
    · rw [ha.nxt] at w1
      omega
    · have := w2 hn
      rw [ha.nxt] at this
      omega

theorem sendInv_flushStep {b : Build} {k₀ : Kcb} {n : ℕ} (hi : SendInv k.sendSide) (ha : Assigned k₀ k n)
    (h : FlushStep b k₀ k k') : SendInv k'.sendSide := by
  rcases sendSide_flushStep h with e | ⟨seg, rest, hq, hlt, e⟩
  · rw [e]
    exact hi
  · have hle := hi.una_le_nxt
    have hnxt := toNat_succ_of_lt hlt
    have hlt1 : k.sndNxt < k.sndNxt + 1 := UInt32.lt_iff_toNat_lt.mpr (by omega)
    obtain ⟨w1, -⟩ := lt_of_lt_edge (ha.una ▸ hle) hlt
    rw [e]
    refine ⟨?_, ?_, ?_, ?_⟩
    · refine increasing_append.mpr ⟨hi.sorted, List.pairwise_singleton _ _, fun x hx y hy => ?_⟩
      rw [List.mem_singleton.mp hy]
      exact UInt32.lt_iff_toNat_lt.mp (hi.window x hx).2
    · intro s hs
      rcases List.mem_append.mp hs with hs | hs
      · obtain ⟨h1, h2⟩ := hi.window s hs
        exact ⟨h1, UInt32.lt_of_lt_of_le h2 (UInt32.le_of_lt hlt1)⟩
      · rw [List.mem_singleton.mp hs]
        exact ⟨hle, hlt1⟩
    · have huna := hi.una
      simp only [SendSide.front, sendSide] at huna ⊢
      rw [huna]
      cases k.sndBuf <;> rfl
    · rw [← ha.una, ← ha.sndWnd] at w1
      simp only [hnxt]
      omega

theorem sendInv_flushed {b : Build} {f : Flushing} (hf : Follows b k k f.kcb f.writes) (cut : Option ℕ)
    (hi : SendInv k.sendSide) : SendInv (f.stopAt cut).1.sendSide ∧ ∃ n, Assigned k (f.stopAt cut).1 n := by
  refine (flushed_rule (I := fun k' => SendInv k'.sendSide ∧ ∃ n, Assigned k k' n) cut hf ⟨hi, 0, .refl k⟩ ?_).1
  rintro k₁ k₂ ⟨i1, n, i2⟩ hs
  exact ⟨sendInv_flushStep i1 i2 hs, assigned_flushStep hi.una_le_nxt i2 hs⟩

end Kcb

/-! ### Runs -/

open Kcb

variable {b : Build}

/-- The calls that may assign sequence numbers. -/
def Op.Flushes : Op → Prop
  | .update _ _ | .flush _ => True
  | _ => False

/-- **What a flush assigns**: consecutive numbers, in the order of the queue, inside both windows; no other call
assigns any. -/
theorem assigned_exec {e e' : Endpoint} {op : Op} (h : e.exec b op = some e') (hi : SendInv e.kcb.sendSide)
    (hop : op.Flushes) : ∃ n, Assigned e.kcb e'.kcb n := by
  cases op <;> simp only [Endpoint.exec, Option.map_eq_some_iff] at h
  case update now cut =>
    obtain ⟨f, hf, rfl⟩ := h
    exact (sendInv_flushed (update_follows hf) cut hi).2
  case flush cut =>
    obtain ⟨f, hf, rfl⟩ := h
    exact (sendInv_flushed (flush_follows hf rfl) cut hi).2
  all_goals exact hop.elim

/-- **One call keeps the send-side invariant**, and `snd_una` never decreases. -/
theorem sendInv_exec {e e' : Endpoint} {op : Op} (h : e.exec b op = some e') (hi : SendInv e.kcb.sendSide) :
    SendInv e'.kcb.sendSide ∧ e.kcb.sndUna ≤ e'.kcb.sndUna := by
  refine exec_rule (I := fun k => SendInv k.sendSide ∧ e.kcb.sndUna ≤ k.sndUna) h ?_ ?_
    (fun _ _ _ hs => sendInv_input hs hi) ?_
  · intro buf r k hs
    obtain ⟨q, rfl⟩ := send_eq hs
    exact ⟨⟨hi.sorted, hi.window, hi.una, hi.span⟩, UInt32.le_refl _⟩
  · intro cap r k hs
    have e1 := (settings_recv hs).2.2
    refine ⟨e1.symm ▸ hi, ?_⟩
    show e.kcb.sendSide.sndUna ≤ k.sendSide.sndUna
    rw [e1]
    exact UInt32.le_refl _
  · intro f cut hf
    obtain ⟨i1, n, i2⟩ := sendInv_flushed hf cut hi
    exact ⟨i1, i2.una ▸ UInt32.le_refl _⟩

theorem sendInv_start (conv : UInt32) (c : Config) : SendInv (Endpoint.start conv c).kcb.sendSide := by
  obtain ⟨sndWnd, rcvWnd, nodelay, rxMinrto, interval, fastresend, h⟩ := configured_eq conv c
  rw [Endpoint.start, h]
  exact ⟨increasing_nil, fun s hs => absurd hs List.not_mem_nil, rfl, Nat.zero_le _⟩

/-- **The send-side invariant holds in every reachable state**; from there `snd_una` never decreases, and what a
flush assigns stays inside the windows. -/
theorem sendInv_run {conv : UInt32} {c : Config} {ops : List Op} {e : Endpoint}
    (hr : run (Endpoint.exec b) (Endpoint.start conv c) ops = some e) :
    SendInv e.kcb.sendSide ∧
      (∀ ops' e', run (Endpoint.exec b) e ops' = some e' → e.kcb.sndUna ≤ e'.kcb.sndUna) ∧
      ∀ op e', op.Flushes → e.exec b op = some e' → ∃ n, Assigned e.kcb e'.kcb n := by
  have hstep : ∀ (e : Endpoint) (op : Op) e', SendInv e.kcb.sendSide → e.exec b op = some e' →
      SendInv e'.kcb.sendSide := fun e op e' hi h => (sendInv_exec h hi).1
  have hi : SendInv e.kcb.sendSide :=
    run_invariant (I := fun e => SendInv e.kcb.sendSide) hstep hr (sendInv_start conv c)
  refine ⟨hi, fun ops' e' hr' => ?_, fun op e' hop h => assigned_exec h hi hop⟩
  exact run_mono (I := fun e => SendInv e.kcb.sendSide) (R := fun e e' => e.kcb.sndUna ≤ e'.kcb.sndUna) hstep
    (fun _ => UInt32.le_refl _) (fun _ _ _ h h' => UInt32.le_trans h h') (fun _ _ _ hi h => (sendInv_exec h hi).2)
    hr' hi

/-- Two sends, a flush that has room for one of them, and a forged acknowledgement with `una` beyond `snd_nxt`. -/
theorem sendInv_run_forged :
    ∃ e, run (Endpoint.exec ⟨.release, bytesMut⟩) (Endpoint.start 1 { sndwnd := 4 })
        [.send [1, 2, 3], .send [3], .update 0 none, .update 100 none,
          .input (encodes [{ conv := 1, cmd := kcpCmdAck, wnd := 32, sn := 0, una := 7 }])] = some e ∧
      (e.kcb.sndUna, e.kcb.sndNxt, e.kcb.sndQueue.length) = (1, 1, 1) ∧ SendInv e.kcb.sendSide := by
  have h : (run (Endpoint.exec ⟨.release, bytesMut⟩) (Endpoint.start 1 { sndwnd := 4 })
      [.send [1, 2, 3], .send [3], .update 0 none, .update 100 none,
        .input (encodes [{ conv := 1, cmd := kcpCmdAck, wnd := 32, sn := 0, una := 7 }])]).map
      (fun e => (e.kcb.sndUna, e.kcb.sndNxt, e.kcb.sndQueue.length)) = some (1, 1, 1) := by
    decide +kernel
  obtain ⟨e, he, hr⟩ := Option.map_eq_some_iff.mp h
  exact ⟨e, he, hr, (sendInv_run he).1⟩

end NetProtocols.Kcp
