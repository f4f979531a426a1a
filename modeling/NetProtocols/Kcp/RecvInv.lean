import NetProtocols.Lib.KeyList
import NetProtocols.Kcp.FlushSteps

/-!
# NetProtocols.Kcp.RecvInv — the receive window, against any peer

`RecvInv` is the invariant of `rcv_buf`, `rcv_queue`, `rcv_nxt` and `acklist`; it holds after every sequence of calls,
whatever byte strings `input` is given.  No bound on `rcv_nxt + rcv_wnd` is needed: where the sum wraps, both window
tests turn every segment down.

* `RecvWindow`: the part of the invariant that holds in the middle of `parse_data` and `recv`, before the data that
  has become available is moved.
* `countReady_spec`, `scanBack_spec`, `parseData_inside`, `mergeFragments_spec`, `recv_recovers`: one statement for each
  function; `recv_cases`: what `recv` does to the receive side.
* `RecvSide.Stored`: a number that was taken over, into `rcv_queue` or `rcv_buf`; once stored, always stored.
* `recvInv_exec`, `recvInv_run`: one call, and every run.
-/

namespace NetProtocols.Kcp

/-- The sequence number of a segment, as a natural number. -/
def Segment.num (s : Segment) : ℕ := s.sn.toNat

/-- The number `sn` was handed on to `rcv_queue`, or waits in `rcv_buf`. -/
def RecvSide.Stored (r : RecvSide) (sn : UInt32) : Prop := sn < r.rcvNxt ∨ ∃ s ∈ r.rcvBuf, s.sn = sn

/-- From `r` to `r'` nothing that was taken over is lost. -/
structure RecvSide.Keeps (r r' : RecvSide) : Prop where
  nxt : r.rcvNxt ≤ r'.rcvNxt
  wnd : r'.rcvWnd = r.rcvWnd
  stored : ∀ sn, r.Stored sn → r'.Stored sn

theorem RecvSide.Keeps.refl (r : RecvSide) : r.Keeps r := ⟨UInt32.le_refl _, rfl, fun _ h => h⟩

theorem RecvSide.Keeps.trans {r r' r'' : RecvSide} (h : r.Keeps r') (h' : r'.Keeps r'') : r.Keeps r'' :=
  ⟨UInt32.le_trans h.nxt h'.nxt, h'.wnd.trans h.wnd, fun sn hs => h'.stored sn (h.stored sn hs)⟩

/-- The receive window; `taken` are the segments that `recv` has taken off `rcv_queue`. -/
structure RecvWindow (r : RecvSide) (taken : List Segment) : Prop where
  sorted : Increasing Segment.num r.rcvBuf
  window : ∀ s ∈ r.rcvBuf, r.rcvNxt.toNat ≤ s.num ∧ s.num < r.rcvNxt.toNat + r.rcvWnd.toNat
  below : ∀ s ∈ r.rcvBuf, s.num + 1 < 2 ^ 32
  room : r.rcvQueue.length ≤ r.rcvWnd.toNat
  numbers : (taken ++ r.rcvQueue).map Segment.num = List.range r.rcvNxt.toNat

/-- Data that could be delivered is held back by a full queue only. -/
def RecvSide.Held (r : RecvSide) : Prop :=
  ∀ s, r.rcvBuf.head? = some s → s.sn = r.rcvNxt → r.rcvWnd.toNat ≤ r.rcvQueue.length

/-- **The receive-side invariant**: the window, nothing held back without need, and nothing acknowledged that is
not stored. -/
structure RecvInv (r : RecvSide) (taken : List Segment) : Prop extends RecvWindow r taken where
  held : r.Held
  acked : ∀ a ∈ r.acklist, r.Stored a.1

namespace Kcb

variable {p : Profile} {k k' : Kcb} {taken : List Segment}

/-! ### Moving available data -/

/-- The counting loop takes the contiguous run at the front, as far as the queue has room. -/
theorem countReady_spec (wnd : ℕ) {l : List Segment} (nxt : UInt32) (q : ℕ)
    (hb : ∀ s ∈ l, s.num + 1 < 2 ^ 32) :
    ∃ n nxt', countReady p wnd l nxt q = some (n, nxt') ∧ nxt'.toNat = nxt.toNat + n ∧
      (l.take n).map Segment.num = List.range' nxt.toNat n ∧ n ≤ l.length ∧ (q ≤ wnd → q + n ≤ wnd) ∧
      ∀ s, (l.drop n).head? = some s → s.sn = nxt' → wnd ≤ q + n := by
  induction l generalizing nxt q with
  | nil => exact ⟨0, nxt, rfl, rfl, rfl, le_rfl, fun h => h, by simp⟩
  | cons a l ih =>
    by_cases hc : a.sn = nxt ∧ q < wnd
    · have hn : nxt.toNat + 1 < 2 ^ 32 := by
        rw [← hc.1]
        exact hb a (by simp)
      have h1 : (nxt + 1).toNat = nxt.toNat + 1 := toNat_add_of_lt hn
      have hadd : p.add nxt 1 = some (nxt + 1) := Profile.add_of_lt hn
      obtain ⟨n, nxt', h, hnxt, hmap, hlen, hroom, hstop⟩ := ih (nxt + 1) (q + 1) fun s hs => hb s (by simp [hs])
      refine ⟨n + 1, nxt', ?_, by omega, ?_, by simp [hlen], fun _ => by omega, fun s hs hsn => ?_⟩
      · simp only [countReady, if_pos hc, hadd, h, Option.bind_eq_bind, Option.bind_some]
      · simp only [List.take_succ_cons, List.map_cons, hmap, h1, List.range'_succ, List.cons.injEq, and_true]
        rw [Segment.num, hc.1]
      · have := hstop s (by simpa using hs) hsn
        omega
    · refine ⟨0, nxt, by simp only [countReady, if_neg hc], rfl, rfl, by simp, fun h => h, fun s hs hsn => ?_⟩
      simp only [List.drop_zero, List.head?_cons, Option.some.injEq] at hs
      subst hs
      by_contra hq
      exact hc ⟨hsn, by omega⟩

theorem moveData_eq (hb : ∀ s ∈ k.rcvBuf, s.num + 1 < 2 ^ 32) :
    ∃ n nxt, moveData p k = some (k.moved n nxt) ∧ nxt.toNat = k.rcvNxt.toNat + n ∧
      (k.rcvBuf.take n).map Segment.num = List.range' k.rcvNxt.toNat n ∧ n ≤ k.rcvBuf.length ∧
      (k.rcvQueue.length ≤ k.rcvWnd.toNat → k.rcvQueue.length + n ≤ k.rcvWnd.toNat) ∧
      ∀ s, (k.rcvBuf.drop n).head? = some s → s.sn = nxt → k.rcvWnd.toNat ≤ k.rcvQueue.length + n := by
  obtain ⟨n, nxt, h, hrest⟩ := countReady_spec (p := p) k.rcvWnd.toNat k.rcvNxt k.rcvQueue.length hb
  refine ⟨n, nxt, ?_, hrest⟩
  simp only [moveData, h, Option.bind_eq_bind, Option.bind_some]
  rfl

theorem keeps_moved {n : ℕ} {nxt : UInt32} (hn : nxt.toNat = k.rcvNxt.toNat + n)
    (hrun : (k.rcvBuf.take n).map Segment.num = List.range' k.rcvNxt.toNat n) :
    k.recvSide.Keeps (k.moved n nxt).recvSide := by
  refine ⟨UInt32.le_iff_toNat_le.mpr (by simp [moved, recvSide, hn]), rfl, ?_⟩
  rintro sn (hlt | ⟨s, hs, rfl⟩)
  · left
    have h1 := UInt32.lt_iff_toNat_lt.mp hlt
    refine UInt32.lt_iff_toNat_lt.mpr ?_
    show sn.toNat < nxt.toNat
    have h2 : sn.toNat < k.rcvNxt.toNat := h1
    omega
  · replace hs : s ∈ k.rcvBuf := hs
    rw [← List.take_append_drop n k.rcvBuf] at hs
    rcases List.mem_append.mp hs with hs | hs
    · left
      have h1 : s.num ∈ List.range' k.rcvNxt.toNat n := hrun ▸ List.mem_map_of_mem hs
      rw [List.mem_range'_1] at h1
      refine UInt32.lt_iff_toNat_lt.mpr ?_
      show s.num < nxt.toNat
      omega
    · exact Or.inr ⟨s, hs, rfl⟩

/-- Moving the available data keeps the window, and holds nothing back without need. -/
theorem recvWindow_moveData (hw : RecvWindow k.recvSide taken) :
    ∃ n nxt, moveData p k = some (k.moved n nxt) ∧ RecvWindow (k.moved n nxt).recvSide taken ∧
      (k.moved n nxt).recvSide.Held ∧ k.recvSide.Keeps (k.moved n nxt).recvSide := by
  obtain ⟨n, nxt, h, hn, hrun, hlen, hroom, hstop⟩ := moveData_eq (p := p) (k := k) hw.below
  have hkeep := keeps_moved hn hrun
  have hlow : ∀ s ∈ k.rcvBuf.drop n, k.rcvNxt.toNat + n ≤ s.num :=
    Increasing.le_of_mem_drop hw.sorted (fun s hs => (hw.window s hs).1) hrun
  have htake : (k.rcvBuf.take n).length = n := by simp [hlen]
  refine ⟨n, nxt, h, ?_, ?_, hkeep⟩
  · refine ⟨hw.sorted.drop n, ?_, fun s hs => hw.below s (List.mem_of_mem_drop hs), ?_, ?_⟩
    · intro s hs
      refine ⟨by simpa [moved, recvSide, hn] using hlow s hs, ?_⟩
      have := (hw.window s (List.mem_of_mem_drop hs)).2
      show s.num < nxt.toNat + k.rcvWnd.toNat
      simp only [recvSide] at this
      omega
    · simp only [moved, recvSide, List.length_append, htake]
      exact hroom hw.room
    · have hnum := hw.numbers
      simp only [recvSide, moved] at hnum ⊢
      have happ := @List.range'_append_1 0 k.rcvNxt.toNat n
      rw [Nat.zero_add] at happ
      rw [← List.append_assoc, List.map_append, hnum, hrun, hn, List.range_eq_range', List.range_eq_range', happ]
  · intro s hs hsn
    have := hstop s hs hsn
    simpa [moved, recvSide, htake] using this

/-! ### Inserting a segment -/

/-- The reverse scan finds a repeated number, or the place to insert at; its index never goes below zero. -/
theorem scanBack_spec (sn : UInt32) (l : List Segment) :
    ∃ dup i, scanBack p sn l.reverse l.length = some (dup, i) ∧ i ≤ l.length ∧
      (dup = true → ∃ s ∈ l, s.sn = sn) ∧
      (dup = false → (∀ s, (l.take i).getLast? = some s → s.sn < sn) ∧ ∀ s ∈ l.drop i, sn < s.sn) := by
  induction l using List.reverseRecOn with
  | nil => exact ⟨false, 0, rfl, le_rfl, by simp, by simp⟩
  | append_singleton l a ih =>
    rw [List.reverse_append, List.reverse_singleton, List.singleton_append, List.length_append, List.length_singleton]
    by_cases heq : sn = a.sn
    · exact ⟨true, l.length + 1, by simp only [scanBack, if_pos heq], le_rfl, fun _ => ⟨a, by simp, heq.symm⟩, by simp⟩
    by_cases hlt : a.sn < sn
    · refine ⟨false, l.length + 1, by simp only [scanBack, if_neg heq, if_pos hlt], le_rfl, by simp, fun _ => ?_⟩
      have ht : (l ++ [a]).take (l.length + 1) = l ++ [a] := List.take_of_length_le (by simp)
      have hd : (l ++ [a]).drop (l.length + 1) = [] := List.drop_of_length_le (by simp)
      rw [ht, hd]
      simpa using hlt
    · obtain ⟨dup, i, h, hi, hdup, hplace⟩ := ih
      refine ⟨dup, i, ?_, by omega, fun hd => ?_, fun hd => ?_⟩
      · simp only [scanBack, if_neg heq, if_neg hlt, Profile.subUsize_of_le (Nat.succ_le_succ (Nat.zero_le _)),
          Option.bind_eq_bind, Option.bind_some]
        exact h
      · obtain ⟨s, hs, hsn⟩ := hdup hd
        exact ⟨s, by simp [hs], hsn⟩
      · obtain ⟨h1, h2⟩ := hplace hd
        rw [List.take_append_of_le_length hi, List.drop_append_of_le_length hi]
        refine ⟨h1, fun s hs => ?_⟩
        rcases List.mem_append.mp hs with hs | hs
        · exact h2 s hs
        · rw [List.mem_singleton.mp hs]
          exact UInt32.lt_of_le_of_ne (UInt32.not_lt.mp hlt) heq

/-- `rcv_buf` after the insertion step of `parse_data`. -/
def Inserted (l : List Segment) (seg : Segment) (l' : List Segment) : Prop :=
  (l' = l ∧ ∃ s ∈ l, s.sn = seg.sn) ∨
    ∃ i ≤ l.length, l' = l.take i ++ seg :: l.drop i ∧
      (∀ s, (l.take i).getLast? = some s → s.sn < seg.sn) ∧ ∀ s ∈ l.drop i, seg.sn < s.sn

theorem Inserted.mem {l l' : List Segment} {seg s : Segment} (h : Inserted l seg l') (hs : s ∈ l') :
    s ∈ l ∨ s = seg := by
  rcases h with ⟨rfl, -⟩ | ⟨i, -, rfl, -⟩
  · exact Or.inl hs
  · rcases List.mem_append.mp hs with hs | hs
    · exact Or.inl (List.mem_of_mem_take hs)
    · rcases List.mem_cons.mp hs with hs | hs
      · exact Or.inr hs
      · exact Or.inl (List.mem_of_mem_drop hs)

theorem Inserted.subset {l l' : List Segment} {seg : Segment} (h : Inserted l seg l') : ∀ s ∈ l, s ∈ l' := by
  rcases h with ⟨rfl, -⟩ | ⟨i, -, rfl, -⟩
  · exact fun s hs => hs
  · intro s hs
    rw [← List.take_append_drop i l] at hs
    rcases List.mem_append.mp hs with hs | hs
    · exact List.mem_append_left _ hs
    · exact List.mem_append_right _ (List.mem_cons_of_mem _ hs)

theorem Inserted.present {l l' : List Segment} {seg : Segment} (h : Inserted l seg l') : ∃ s ∈ l', s.sn = seg.sn := by
  rcases h with ⟨rfl, h⟩ | ⟨i, -, rfl, -⟩
  · exact h
  · exact ⟨seg, by simp, rfl⟩

theorem Inserted.increasing {l l' : List Segment} {seg : Segment} (h : Inserted l seg l')
    (hl : Increasing Segment.num l) : Increasing Segment.num l' := by
  rcases h with ⟨rfl, -⟩ | ⟨i, -, rfl, h1, h2⟩
  · exact hl
  · rw [← List.take_append_drop i l] at hl
    exact hl.insert (fun s hs => UInt32.lt_iff_toNat_lt.mp (h1 s hs)) fun s hs => UInt32.lt_iff_toNat_lt.mp (h2 s hs)

/-- A segment inside the window goes into `rcv_buf`, and available data is moved. -/
theorem parseData_inside {seg : Segment} (h1 : k.rcvNxt ≤ seg.sn) (h2 : seg.sn < k.rcvNxt + k.rcvWnd) :
    ∃ l, Inserted k.rcvBuf seg l ∧ k.parseData p seg = moveData p { k with rcvBuf := l } := by
  have hsum := toNat_add_of_between h1 h2
  have hedge : p.add k.rcvNxt k.rcvWnd = some (k.rcvNxt + k.rcvWnd) :=
    Profile.add_of_lt (hsum ▸ (k.rcvNxt + k.rcvWnd).toNat_lt)
  have hin : ¬ (k.rcvNxt + k.rcvWnd ≤ seg.sn ∨ seg.sn < k.rcvNxt) := by
    rintro (h | h)
    · exact UInt32.not_le.mpr h2 h
    · exact UInt32.not_lt.mpr h1 h
  obtain ⟨dup, i, hs, hi, hdup, hplace⟩ := scanBack_spec (p := p) seg.sn k.rcvBuf
  unfold parseData
  simp only [hedge, if_neg hin, hs, Option.bind_eq_bind, Option.bind_some]
  cases dup with
  | true => exact ⟨k.rcvBuf, Or.inl ⟨rfl, hdup rfl⟩, rfl⟩
  | false =>
    obtain ⟨h3, h4⟩ := hplace rfl
    refine ⟨k.rcvBuf.insertIdx i seg, Or.inr ⟨i, hi, insertIdx_eq hi, h3, h4⟩, ?_⟩
    rw [Profile.assert_of hi]
    rfl

/-- A segment inside the window: the window stays, what is stored stays stored, and its number is stored. -/
theorem recvWindow_parseData {seg : Segment} (hw : RecvWindow k.recvSide taken) (h1 : k.rcvNxt ≤ seg.sn)
    (h2 : seg.sn < k.rcvNxt + k.rcvWnd) :
    ∃ k', k.parseData p seg = some k' ∧ RecvWindow k'.recvSide taken ∧ k'.recvSide.Held ∧
      k.recvSide.Keeps k'.recvSide ∧ k'.recvSide.Stored seg.sn ∧ k'.acklist = k.acklist := by
  obtain ⟨l, hl, heq⟩ := parseData_inside (p := p) h1 h2
  have hsum := toNat_add_of_between h1 h2
  have h1' := UInt32.le_iff_toNat_le.mp h1
  have h2' := UInt32.lt_iff_toNat_lt.mp h2
  have hkeep : k.recvSide.Keeps ({ k with rcvBuf := l } : Kcb).recvSide := by
    refine ⟨UInt32.le_refl _, rfl, ?_⟩
    rintro sn (hlt | ⟨s, hs, hsn⟩)
    · exact Or.inl hlt
    · exact Or.inr ⟨s, hl.subset s hs, hsn⟩
  have hw' : RecvWindow ({ k with rcvBuf := l } : Kcb).recvSide taken := by
    refine ⟨hl.increasing hw.sorted, fun s hs => ?_, fun s hs => ?_, hw.room, hw.numbers⟩
    · rcases hl.mem hs with hs | rfl
      · exact hw.window s hs
      · exact ⟨h1', by rw [hsum] at h2'; exact h2'⟩
    · rcases hl.mem hs with hs | rfl
      · exact hw.below s hs
      · have := (k.rcvNxt + k.rcvWnd).toNat_lt
        show s.sn.toNat + 1 < 2 ^ 32
        omega
  obtain ⟨n, nxt, h, hinv, hheld, hst⟩ := recvWindow_moveData (p := p) hw'
  exact ⟨_, heq.trans h, hinv, hheld, hkeep.trans hst, hst.stored _ (Or.inr hl.present), rfl⟩

/-! ### `recv` -/

/-- What `recv` copies and takes is the first message of the queue. -/
theorem mergeFragments_spec {cap : ℕ} {l : List Segment} {out out' : List UInt8} {i j : ℕ}
    (h : mergeFragments cap l out i = .ok (out', j)) :
    out' = out ++ (headMessage l).flatMap Segment.data ∧ j = i + (headMessage l).length := by
  induction l generalizing out i with
  | nil =>
    simp only [mergeFragments, Except.ok.injEq, Prod.mk.injEq] at h
    simp [headMessage, ← h.1, ← h.2]
  | cons seg rest ih =>
    simp only [mergeFragments] at h
    split_ifs at h with hcap hfrg
    · simp only [Except.ok.injEq, Prod.mk.injEq] at h
      simp [headMessage, hfrg, ← h.1, ← h.2]
    · obtain ⟨i1, i2⟩ := ih h
      simp only [headMessage, if_neg hfrg, List.flatMap_cons, List.length_cons]
      exact ⟨by rw [i1, List.append_assoc], by omega⟩

theorem headMessage_append_drop (l : List Segment) : headMessage l ++ l.drop (headMessage l).length = l := by
  induction l with
  | nil => rfl
  | cons seg rest ih =>
    unfold headMessage
    split_ifs
    · rfl
    · simp [ih]

/-- Where its length fits, `peeksize` sums up the first message. -/
theorem sumLength_eq {l : List Segment} {n : ℕ} (h : n + ((headMessage l).flatMap Segment.data).length < 2 ^ 64) :
    sumLength p l n = some (n + ((headMessage l).flatMap Segment.data).length) := by
  induction l generalizing n with
  | nil => simp [sumLength, headMessage]
  | cons a l ih =>
    unfold sumLength
    unfold headMessage at h ⊢
    by_cases hf : a.frg = 0
    · simp only [if_pos hf, List.flatMap_cons, List.flatMap_nil, List.append_nil] at h ⊢
      rw [Profile.addUsize_of_lt h]
      rfl
    · simp only [if_neg hf, List.flatMap_cons, List.length_append] at h ⊢
      rw [Profile.addUsize_of_lt (by omega), Option.bind_eq_bind, Option.bind_some, ih (by omega), Nat.add_assoc]

theorem length_data_le {l : List Segment} (h : ∀ seg ∈ l, seg.data.length < 2 ^ 32) :
    (l.flatMap Segment.data).length ≤ l.length * (2 ^ 32 - 1) := by
  induction l with
  | nil => simp
  | cons a l ih =>
    have ha := h a (by simp)
    have hl := ih fun seg hs => h seg (by simp [hs])
    rw [List.flatMap_cons, List.length_append, List.length_cons, Nat.succ_mul]
    omega

/-- `k` without the first message of its queue. -/
def popped (k : Kcb) : Kcb := { k with rcvQueue := k.rcvQueue.drop (headMessage k.rcvQueue).length }

/-- Assignment to `probe`. -/
def setProbe (k : Kcb) (probe : UInt32) : Kcb := { k with probe := probe }

@[simp] theorem setProbe_probe (k : Kcb) (probe : UInt32) : (k.setProbe probe).probe = probe := rfl

@[simp] theorem setProbe_rcvWnd (k : Kcb) (probe : UInt32) : (k.setProbe probe).rcvWnd = k.rcvWnd := rfl

@[simp] theorem setProbe_rcvQueue (k : Kcb) (probe : UInt32) : (k.setProbe probe).rcvQueue = k.rcvQueue := rfl

/-- The test of `peeksize`: the queue is as long as the first fragment says its message is. -/
def Whole (l : List Segment) : Prop :=
  ∃ seg rest, l = seg :: rest ∧ (seg.frg = 0 ∨ (seg.frg + 1).toNat ≤ l.length)

theorem whole_of_peeksize {n : ℕ} (h : k.peeksize p = some (.ok n)) : Whole k.rcvQueue := by
  unfold peeksize at h
  cases hc : k.rcvQueue with
  | nil => simp [hc] at h
  | cons seg rest =>
    refine ⟨seg, rest, rfl, ?_⟩
    rw [hc] at h
    dsimp only at h
    by_cases hf : seg.frg = 0
    · exact Or.inl hf
    · rw [if_neg hf] at h
      simp only [Option.bind_eq_bind, Option.bind_eq_some_iff] at h
      obtain ⟨m, hm, h⟩ := h
      obtain rfl := Profile.addU8_eq_some hm
      right
      by_contra hlt
      rw [if_pos (by omega)] at h
      simp at h

/-- The flags after a `recv` that has taken a message from `k` and moved data: the window is to be announced if it was
closed and is open now. -/
def recovered (k k₁ : Kcb) : UInt32 :=
  if k₁.rcvQueue.length < k₁.rcvWnd.toNat ∧ k.rcvWnd.toNat ≤ k.rcvQueue.length then k₁.probe ||| kcpAskTell
  else k₁.probe

/-- A `recv` that fails changes nothing; one that returns bytes takes the first message, moves data, and sets the
flags. -/
theorem recv_recovers {cap : ℕ} {r : Except IoError (List UInt8)} (h : k.recv p cap = some (r, k')) :
    (∃ e, r = .error e ∧ k' = k) ∨
      (r = .ok ((headMessage k.rcvQueue).flatMap Segment.data) ∧ Whole k.rcvQueue ∧
        ∃ k₁, moveData p k.popped = some k₁ ∧ k' = k₁.setProbe (recovered k k₁)) := by
  unfold recv at h
  by_cases hq : k.rcvQueue = []
  · rw [if_pos hq] at h
    simp only [Option.some.injEq, Prod.mk.injEq] at h
    exact Or.inl ⟨_, h.1.symm, h.2.symm⟩
  rw [if_neg hq] at h
  simp only [Option.bind_eq_bind, Option.bind_eq_some_iff] at h
  obtain ⟨peek, hp, h⟩ := h
  cases peek with
  | error e =>
    simp only [Option.some.injEq, Prod.mk.injEq] at h
    exact Or.inl ⟨_, h.1.symm, h.2.symm⟩
  | ok n =>
    dsimp only at h
    by_cases hcap : cap < n
    · rw [if_pos hcap] at h
      simp only [Option.some.injEq, Prod.mk.injEq] at h
      exact Or.inl ⟨_, h.1.symm, h.2.symm⟩
    rw [if_neg hcap] at h
    cases hm : mergeFragments cap k.rcvQueue [] 0 with
    | error e =>
      simp only [hm, Option.some.injEq, Prod.mk.injEq] at h
      exact Or.inl ⟨_, h.1.symm, h.2.symm⟩
    | ok x =>
      obtain ⟨out, index⟩ := x
      simp only [hm, Option.bind_eq_some_iff] at h
      obtain ⟨u, -, k1, hk1, h⟩ := h
      -- what is copied is the first message, as long as `peeksize` has said
      obtain ⟨rfl, rfl⟩ := mergeFragments_spec hm
      rw [Nat.zero_add] at hk1
      refine Or.inr ?_
      by_cases hrec : k1.rcvQueue.length < k1.rcvWnd.toNat ∧ k.rcvWnd.toNat ≤ k.rcvQueue.length
      · rw [if_pos hrec] at h
        simp only [Option.some.injEq, Prod.mk.injEq] at h
        refine ⟨h.1.symm, whole_of_peeksize hp, k1, hk1, ?_⟩
        rw [recovered, if_pos hrec]
        exact h.2.symm
      · rw [if_neg hrec] at h
        simp only [Option.some.injEq, Prod.mk.injEq] at h
        refine ⟨h.1.symm, whole_of_peeksize hp, k1, hk1, ?_⟩
        rw [recovered, if_neg hrec]
        exact h.2.symm

theorem recv_cases {cap : ℕ} {r : Except IoError (List UInt8)} (h : k.recv p cap = some (r, k')) :
    (∃ e, r = .error e ∧ k' = k) ∨
      (r = .ok ((headMessage k.rcvQueue).flatMap Segment.data) ∧ Whole k.rcvQueue ∧
        ∃ k₁ probe, moveData p k.popped = some k₁ ∧ k' = k₁.setProbe probe) := by
  rcases recv_recovers h with h | ⟨h1, h2, k₁, h3, h4⟩
  · exact Or.inl h
  · exact Or.inr ⟨h1, h2, k₁, _, h3, h4⟩

theorem settings_recv {cap : ℕ} {r : Except IoError (List UInt8)} (h : k.recv p cap = some (r, k')) :
    k'.settings = k.settings ∧ k'.buffer = k.buffer ∧ k'.sendSide = k.sendSide := by
  rcases recv_cases h with ⟨err, -, rfl⟩ | ⟨-, -, k1, pr, h1, rfl⟩
  · exact ⟨rfl, rfl, rfl⟩
  · obtain ⟨n, nxt, rfl⟩ := moveData_eq_moved h1
    exact ⟨rfl, rfl, rfl⟩

theorem recvWindow_popped (hw : RecvWindow k.recvSide taken) :
    RecvWindow k.popped.recvSide (taken ++ headMessage k.rcvQueue) := by
  refine ⟨hw.sorted, hw.window, hw.below, ?_, ?_⟩
  · have := hw.room
    simp only [recvSide, popped, List.length_drop] at this ⊢
    omega
  · rw [List.append_assoc]
    have := headMessage_append_drop k.rcvQueue
    simp only [recvSide, popped, this]
    exact hw.numbers

theorem recvInv_popped {k₁ : Kcb} {probe : UInt32} (hi : RecvInv k.recvSide taken)
    (h1 : moveData p k.popped = some k₁) :
    RecvInv (k₁.setProbe probe).recvSide (taken ++ headMessage k.rcvQueue) ∧
      k.recvSide.Keeps (k₁.setProbe probe).recvSide := by
  obtain ⟨n, nxt, h2, hw, hheld, hst⟩ := recvWindow_moveData (p := p) (recvWindow_popped hi.toRecvWindow)
  obtain rfl := Option.some.inj (h2.symm.trans h1)
  exact ⟨⟨hw, hheld, fun a ha => hst.stored a.1 (hi.acked a ha)⟩, hst.nxt, hst.wnd, hst.stored⟩

/-! ### The other calls -/

/-- Acknowledgements are only ever dropped by a flush. -/
theorem recvSide_flushStep {b : Build} {k₀ : Kcb} (h : FlushStep b k₀ k k') :
    k'.recvSide = k.recvSide ∨ k'.recvSide = { k.recvSide with acklist := [] } := by
  cases h
  case acked => exact Or.inr rfl
  case settle cwnd resent lost change h =>
    obtain ⟨s, c, i, rfl⟩ := settleCwnd_eq h
    exact Or.inl rfl
  all_goals exact Or.inl rfl

theorem queues_flushStep {b : Build} {k₀ : Kcb} (h : FlushStep b k₀ k k') :
    k'.rcvQueue = k.rcvQueue ∧ k'.rcvBuf = k.rcvBuf := by
  have hr : k'.recvSide.rcvQueue = k.recvSide.rcvQueue ∧ k'.recvSide.rcvBuf = k.recvSide.rcvBuf := by
    rcases recvSide_flushStep h with e | e <;> rw [e] <;> exact ⟨rfl, rfl⟩
  exact hr

theorem queues_flushed {b : Build} {k₀ : Kcb} {f : Flushing} (hf : Follows b k₀ k f.kcb f.writes) (cut : Option ℕ) :
    (f.stopAt cut).1.rcvQueue = k.rcvQueue ∧ (f.stopAt cut).1.rcvBuf = k.rcvBuf := by
  refine (flushed_rule (I := fun k' => k'.rcvQueue = k.rcvQueue ∧ k'.rcvBuf = k.rcvBuf) cut hf ⟨rfl, rfl⟩ ?_).1
  intro k₁ k₂ h1 hs
  have h2 := queues_flushStep hs
  exact ⟨h2.1.trans h1.1, h2.2.trans h1.2⟩

theorem recvInv_flushStep {b : Build} {k₀ : Kcb} (h : FlushStep b k₀ k k') (hi : RecvInv k.recvSide taken) :
    RecvInv k'.recvSide taken ∧ k.recvSide.Keeps k'.recvSide := by
  rcases recvSide_flushStep h with e | e
  · rw [e]
    exact ⟨hi, .refl _⟩
  · rw [e]
    exact ⟨⟨⟨hi.sorted, hi.window, hi.below, hi.room, hi.numbers⟩, hi.held, by simp⟩, UInt32.le_refl _, rfl,
      fun _ hs => hs⟩

theorem recvInv_taken {s s' : Scan} {h : Header} (ht : Scan.Taken p s h s') (hi : RecvInv s.kcb.recvSide taken) :
    RecvInv s'.kcb.recvSide taken ∧ s.kcb.recvSide.Keeps s'.kcb.recvSide := by
  have hw : RecvWindow (s.kcb.onHeader h).recvSide taken := hi.toRecvWindow
  cases ht with
  | ack hc hk =>
    rename_i k m
    have e : k.recvSide = s.kcb.recvSide := by
      rcases hk with rfl | ⟨rtt, hk⟩
      · rfl
      · obtain ⟨srtt, rttval, rto, rfl⟩ := updateAck_eq hk
        rfl
    have e' : (k.parseAck h.sn).shrinkBuf.recvSide = k.recvSide := by
      unfold parseAck
      split_ifs <;> rfl
    show RecvInv (k.parseAck h.sn).shrinkBuf.recvSide taken ∧ _
    rw [e', e]
    exact ⟨hi, .refl _⟩
  | above hc hsn => exact ⟨hi, .refl _⟩
  | below hc hsn hlt =>
    refine ⟨⟨⟨hi.sorted, hi.window, hi.below, hi.room, hi.numbers⟩, hi.held, ?_⟩, UInt32.le_refl _, rfl, fun _ hs => hs⟩
    intro a ha
    rcases List.mem_append.mp ha with ha | ha
    · exact hi.acked a ha
    · rw [List.mem_singleton.mp ha]
      exact Or.inl hlt
  | inside hc hsn hle hk =>
    -- the acknowledgement is queued first; it is the insertion that makes it true
    have hw₁ : RecvWindow ((s.kcb.onHeader h).setAcklist (s.kcb.acklist ++ [(h.sn, h.ts)])).recvSide taken :=
      ⟨hw.sorted, hw.window, hw.below, hw.room, hw.numbers⟩
    have hle' : s.kcb.rcvNxt ≤ (Scan.segmentOf h (s.buf.take h.len.toNat)).sn := hle
    obtain ⟨k', hk', hw', hheld, hkeep, hst, hack⟩ := recvWindow_parseData (p := p) hw₁ hle' hsn
    obtain rfl := Option.some.inj (hk'.symm.trans hk)
    refine ⟨⟨hw', hheld, ?_⟩, hkeep.nxt, hkeep.wnd, hkeep.stored⟩
    intro a ha
    have hack' : k'.acklist = s.kcb.acklist ++ [(h.sn, h.ts)] := hack
    replace ha : a ∈ k'.acklist := ha
    rw [hack'] at ha
    rcases List.mem_append.mp ha with ha | ha
    · exact hkeep.stored a.1 (hi.acked a ha)
    · rw [List.mem_singleton.mp ha]
      exact hst
  | wask hc => exact ⟨hi, .refl _⟩
  | other ha hc => exact ⟨hi, .refl _⟩

theorem recvInv_input {d : List UInt8} {r : Except IoError ℕ} (h : k.input p d = some (r, k'))
    (hi : RecvInv k.recvSide taken) : RecvInv k'.recvSide taken ∧ k.recvSide.Keeps k'.recvSide := by
  refine input_rule (I := fun s => RecvInv s.kcb.recvSide taken ∧ k.recvSide.Keeps s.kcb.recvSide)
    (J := fun k' => RecvInv k'.recvSide taken ∧ k.recvSide.Keeps k'.recvSide) h ⟨hi, .refl _⟩ (fun _ hs => hs) ?_ ?_
  · rintro s s' ⟨i1, i2⟩ hs
    obtain ⟨hd, rest, -, -, ht⟩ := Scan.inputStep_ok hs
    obtain ⟨j1, j2⟩ := recvInv_taken (Scan.taken_of_takeSegment ht) i1
    exact ⟨j1, i2.trans j2⟩
  · rintro s k' ⟨i1, i2⟩ hf
    rw [(finishInput_sides hf).1]
    exact ⟨i1, i2⟩

theorem recvInv_flushed {b : Build} {k₀ : Kcb} {f : Flushing} (hf : Follows b k₀ k f.kcb f.writes) (cut : Option ℕ)
    (hi : RecvInv k.recvSide taken) :
    RecvInv (f.stopAt cut).1.recvSide taken ∧ k.recvSide.Keeps (f.stopAt cut).1.recvSide := by
  refine (flushed_rule (I := fun k' => RecvInv k'.recvSide taken ∧ k.recvSide.Keeps k'.recvSide) cut hf
    ⟨hi, .refl _⟩ ?_).1
  rintro k k' ⟨i1, i2⟩ hs
  obtain ⟨j1, j2⟩ := recvInv_flushStep hs i1
  exact ⟨j1, i2.trans j2⟩

end Kcb

/-! ### Runs -/

open Kcb

variable {b : Build}

theorem settings_exec {e e' : Endpoint} {op : Op} (h : e.exec b op = some e') :
    e'.kcb.settings = e.kcb.settings := by
  refine exec_rule (I := fun k => k.settings = e.kcb.settings) h ?_ (fun _ _ _ hs => (settings_recv hs).1)
    (fun _ _ _ hs => (settings_input hs).1) fun f cut hf => settings_flushed hf cut
  intro buf r k hs
  obtain ⟨q, rfl⟩ := send_eq hs
  rfl

theorem settings_run {e e' : Endpoint} {ops : List Op} (hr : run (Endpoint.exec b) e ops = some e') :
    e'.kcb.settings = e.kcb.settings :=
  run_invariant (I := fun x => x.kcb.settings = e.kcb.settings)
    (fun _ _ _ hi hex => (settings_exec hex).trans hi) hr rfl

/-- **One call keeps the receive-side invariant**, and loses nothing that is stored. -/
theorem recvInv_exec {e e' : Endpoint} {op : Op} (h : e.exec b op = some e')
    (hi : RecvInv e.kcb.recvSide e.taken) :
    RecvInv e'.kcb.recvSide e'.taken ∧ e.kcb.recvSide.Keeps e'.kcb.recvSide := by
  cases op <;> simp only [Endpoint.exec, Option.map_eq_some_iff] at h
  case send buf =>
    obtain ⟨⟨r, k'⟩, hs, rfl⟩ := h
    obtain ⟨q, rfl⟩ := send_eq hs
    cases r <;> exact ⟨hi, .refl _⟩
  case recv cap =>
    obtain ⟨⟨r, k'⟩, hs, rfl⟩ := h
    rcases recv_cases hs with ⟨err, rfl, rfl⟩ | ⟨rfl, -, k1, pr, h1, rfl⟩
    · exact ⟨hi, .refl _⟩
    · exact recvInv_popped hi h1
  case input d =>
    obtain ⟨⟨r, k'⟩, hs, rfl⟩ := h
    exact recvInv_input hs hi
  case update now cut =>
    obtain ⟨f, hf, rfl⟩ := h
    exact recvInv_flushed (update_follows hf) cut hi
  case flush cut =>
    obtain ⟨f, hf, rfl⟩ := h
    exact recvInv_flushed (flush_follows hf rfl) cut hi

/-- A receiver that holds nothing, and has taken all that came. -/
theorem recvInv_idle {k : Kcb} {taken : List Segment} (hnum : taken.map Segment.num = List.range k.rcvNxt.toNat)
    (hq : k.rcvQueue = []) (hb : k.rcvBuf = []) (ha : k.acklist = []) : RecvInv k.recvSide taken where
  sorted := by simp [Kcb.recvSide, hb, increasing_nil]
  window := by simp [Kcb.recvSide, hb]
  below := by simp [Kcb.recvSide, hb]
  room := by simp [Kcb.recvSide, hq]
  numbers := by simp [Kcb.recvSide, hq, hnum]
  held := by simp [RecvSide.Held, Kcb.recvSide, hb]
  acked := by simp [Kcb.recvSide, ha]

theorem recvInv_start (conv : UInt32) (c : Config) :
    RecvInv (Endpoint.start conv c).kcb.recvSide (Endpoint.start conv c).taken := by
  obtain ⟨sndWnd, rcvWnd, nodelay, rxMinrto, interval, fastresend, h⟩ := configured_eq conv c
  rw [Endpoint.start, h]
  exact recvInv_idle rfl rfl rfl rfl

/-- **The receive-side invariant holds in every reachable state**: any configuration, any build, any sequence of
calls, any byte strings. -/
theorem recvInv_run {conv : UInt32} {c : Config} {ops : List Op} {e : Endpoint}
    (hr : run (Endpoint.exec b) (Endpoint.start conv c) ops = some e) : RecvInv e.kcb.recvSide e.taken :=
  run_invariant (I := fun e => RecvInv e.kcb.recvSide e.taken) (fun _ _ _ hi h => (recvInv_exec h hi).1) hr
    (recvInv_start conv c)

/-- Two segments in the wrong order, a `recv` and a datagram that is too short. -/
theorem recvInv_run_reordered :
    ∃ e, run (Endpoint.exec ⟨.dev, bytesMut⟩) (Endpoint.start 1 { rcvwnd := 4 })
        [.input (encodes [{ conv := 1, cmd := kcpCmdPush, sn := 1, data := [7] },
          { conv := 1, cmd := kcpCmdPush, sn := 0, data := [5] }]), .recv 8, .input [1, 2, 3]] = some e ∧
      e.received = [[5]] ∧ RecvInv e.kcb.recvSide e.taken := by
  have h : (run (Endpoint.exec ⟨.dev, bytesMut⟩) (Endpoint.start 1 { rcvwnd := 4 })
      [.input (encodes [{ conv := 1, cmd := kcpCmdPush, sn := 1, data := [7] },
        { conv := 1, cmd := kcpCmdPush, sn := 0, data := [5] }]), .recv 8, .input [1, 2, 3]]).map Endpoint.received =
      some [[5]] := by
    decide +kernel
  obtain ⟨e, he, hr⟩ := Option.map_eq_some_iff.mp h
  exact ⟨e, he, hr, recvInv_run he⟩

end NetProtocols.Kcp
