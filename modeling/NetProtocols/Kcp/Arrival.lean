import Mathlib.Data.List.Dedup
import Mathlib.Data.List.Sort
import NetProtocols.Kcp.RecvInv

/-!
# NetProtocols.Kcp.Arrival — reassembly and the order of arrival

`parse_data` puts a segment at its place in `rcv_buf` and moves what has become contiguous.  What it ends in depends
on which segments came, and not on when, as long as each of them came while the window test could see it: the test
compares with `rcv_nxt + rcv_wnd`, and that sum leaves 32 bits once `rcv_nxt` comes near to `2 ^ 32`.

* `Kcb.available`: the segments at hand after a set of arrivals, in order; `Kcb.advance`, `Kcb.reassembled`: how far
  `rcv_nxt` gets, and the state.
* `Reaches`: the states on the way; `reaches_step`: one arrival.
* `Timely`: the window test sees the segment; `run_parseData`, `timely_of_run`: a list of arrivals, both ways.
* `order_of_arrival`: two lists with the same segments.
-/

namespace NetProtocols.Kcp

/-! ## What the arrivals come to -/

/-- How many of the numbers `nxt`, `nxt + 1`, ... stand in a row at the front. -/
def runFrom (nxt : ℕ) : List Segment → ℕ
  | [] => 0
  | s :: l => if s.num = nxt then runFrom (nxt + 1) l + 1 else 0

namespace Kcb

/-- The segments at hand after the arrival of those of `l`, in order; where two have one number, the one that was
there before. -/
def available (k : Kcb) (l : List Segment) : List Segment :=
  (k.rcvBuf ++ l.filter fun s => ∀ b ∈ k.rcvBuf, b.sn ≠ s.sn).dedup.insertionSort fun a b => a.num ≤ b.num

/-- How far `rcv_nxt` advances: the contiguous run at hand, or the free room of `rcv_queue`. -/
def advance (k : Kcb) (l : List Segment) : ℕ :=
  min (runFrom k.rcvNxt.toNat (k.available l)) (k.rcvWnd.toNat - k.rcvQueue.length)

/-- The state after the arrival of the segments of `l`. -/
def reassembled (k : Kcb) (l : List Segment) : Kcb :=
  ({ k with rcvBuf := k.available l } : Kcb).moved (k.advance l) (k.rcvNxt + UInt32.ofNat (k.advance l))

/-- The window test sees the segment: the sum can be computed, and the segment lies below it, or is stored. -/
def Timely (p : Profile) (k : Kcb) (s : Segment) : Prop :=
  ∃ edge, p.add k.rcvNxt k.rcvWnd = some edge ∧ (s.sn < edge ∨ k.recvSide.Stored s.sn)

end Kcb

variable {p : Profile} {k k₁ k₂ : Kcb} {l l₁ l₂ : List Segment} {s t : Segment} {taken : List Segment}

theorem le_runFrom {n nxt : ℕ} (h : (l.take n).map Segment.num = List.range' nxt n) : n ≤ runFrom nxt l := by
  induction n generalizing nxt l with
  | zero => exact Nat.zero_le _
  | succ n ih =>
    cases l with
    | nil => simp at h
    | cons a l =>
      simp only [List.take_succ_cons, List.map_cons, List.range'_succ, List.cons.injEq] at h
      rw [runFrom, if_pos h.1]
      exact Nat.succ_le_succ (ih h.2)

theorem take_runFrom (nxt : ℕ) (l : List Segment) {n : ℕ} (h : n ≤ runFrom nxt l) :
    (l.take n).map Segment.num = List.range' nxt n ∧ n ≤ l.length := by
  induction l generalizing nxt n with
  | nil =>
    rw [runFrom, Nat.le_zero] at h
    subst h
    exact ⟨rfl, le_rfl⟩
  | cons a l ih =>
    rw [runFrom] at h
    cases n with
    | zero => exact ⟨rfl, Nat.zero_le _⟩
    | succ n =>
      split_ifs at h with ha
      swap
      · omega
      obtain ⟨h1, h2⟩ := ih (nxt + 1) (Nat.le_of_succ_le_succ h)
      exact ⟨by rw [List.take_succ_cons, List.map_cons, List.range'_succ, h1, ha], Nat.succ_le_succ h2⟩

/-- A contiguous front that stops at a gap or at the room is the run, or the room. -/
theorem eq_min_runFrom {n nxt room : ℕ} (h : (l.take n).map Segment.num = List.range' nxt n) (hroom : n ≤ room)
    (hstop : ∀ s, (l.drop n).head? = some s → s.num = nxt + n → room ≤ n) :
    n = min (runFrom nxt l) room := by
  refine le_antisymm (le_min (le_runFrom h) hroom) ?_
  by_contra hlt
  have hn : n + 1 ≤ runFrom nxt l := by omega
  obtain ⟨hmap, hlen'⟩ := take_runFrom nxt l hn
  have hget : (l.drop n).head? = some l[n] := by
    rw [List.head?_drop, List.getElem?_eq_getElem]
  have hnum : l[n].num = nxt + n := by
    have hlast := congrArg (·[n]?) hmap
    simp only [List.getElem?_map, List.getElem?_take, Nat.lt_succ_self, if_true,
      List.getElem?_eq_getElem (show n < l.length by omega), Option.map_some] at hlast
    rw [List.getElem?_range' (by omega)] at hlast
    simpa using hlast
  have := hstop _ hget hnum
  omega

theorem mem_available : s ∈ k.available l ↔ s ∈ k.rcvBuf ∨ s ∈ l ∧ ∀ b ∈ k.rcvBuf, b.sn ≠ s.sn := by
  simp [Kcb.available, List.mem_insertionSort, List.mem_dedup]

/-- Equal numbers mean equal segments. -/
def Consistent (l : List Segment) : Prop := ∀ s ∈ l, ∀ t ∈ l, s.sn = t.sn → s = t

/-- With a sorted buffer and consistent arrivals, the segments at hand are sorted. -/
theorem increasing_available (hbuf : Increasing Segment.num k.rcvBuf) (hl : Consistent l) :
    Increasing Segment.num (k.available l) := by
  have hinj : ∀ a ∈ k.available l, ∀ b ∈ k.available l, a.num = b.num → a = b := by
    intro a ha b hb hab
    have hsn : a.sn = b.sn := UInt32.toNat_inj.mp hab
    rcases mem_available.mp ha with ha | ⟨ha, hna⟩ <;> rcases mem_available.mp hb with hb | ⟨hb, hnb⟩
    · exact hbuf.eq_of_key_eq ha hb hab
    · exact absurd hsn (hnb a ha)
    · exact absurd hsn.symm (hna b hb)
    · exact hl a ha b hb hsn
  have hle : (k.available l).Pairwise fun a b => a.num ≤ b.num := List.pairwise_insertionSort _ _
  have hnodup : (k.available l).Nodup :=
    (List.perm_insertionSort _ _).nodup_iff.mpr (List.nodup_dedup _)
  exact (hle.and hnodup).imp_of_mem fun ha hb h => lt_of_le_of_ne h.1 fun hab => h.2 (hinj _ ha _ hb hab)

/-! ## The states on the way -/

/-- `k₁` is what `k` has become when the segments of `l` had arrived: `pool` are the segments at hand in order, of
which the first `n` have moved. -/
structure Reaches (k : Kcb) (l : List Segment) (k₁ : Kcb) (pool : List Segment) (n : ℕ) (nxt : UInt32) : Prop where
  state : k₁ = ({ k with rcvBuf := pool } : Kcb).moved n nxt
  sorted : Increasing Segment.num pool
  mem : ∀ s, s ∈ pool ↔ s ∈ k.rcvBuf ∨ s ∈ l ∧ ∀ b ∈ k.rcvBuf, b.sn ≠ s.sn
  below : ∀ s ∈ pool, k.rcvNxt.toNat ≤ s.num ∧ s.num + 1 < 2 ^ 32
  next : nxt.toNat = k.rcvNxt.toNat + n
  run : (pool.take n).map Segment.num = List.range' k.rcvNxt.toNat n
  len : n ≤ pool.length
  room : k.rcvQueue.length + n ≤ k.rcvWnd.toNat
  stop : ∀ s, (pool.drop n).head? = some s → s.sn = nxt → k.rcvWnd.toNat ≤ k.rcvQueue.length + n

theorem reaches_nil (hinv : RecvInv k.recvSide taken) : Reaches k [] k k.rcvBuf 0 k.rcvNxt where
  state := by simp [Kcb.moved]
  sorted := hinv.sorted
  mem := by simp
  below := fun s hs => ⟨(hinv.window s hs).1, hinv.below s hs⟩
  next := rfl
  run := rfl
  len := Nat.zero_le _
  room := hinv.room
  stop := hinv.held

variable {pool : List Segment} {n : ℕ} {nxt : UInt32}

/-- **The state is determined** by the segments that arrived. -/
theorem Reaches.eq_reassembled (h : Reaches k l k₁ pool n nxt) (hbuf : Increasing Segment.num k.rcvBuf)
    (hl : Consistent l) : k₁ = k.reassembled l := by
  have hpool : pool = k.available l :=
    h.sorted.eq_of_mem_iff (increasing_available hbuf hl) fun s => (h.mem s).trans mem_available.symm
  have hn : n = k.advance l := by
    rw [Kcb.advance, ← hpool]
    refine eq_min_runFrom h.run (by have := h.room; omega) fun s hs hnum => ?_
    have := h.stop s hs (UInt32.toNat_inj.mp (by rw [h.next]; exact hnum))
    omega
  have hnxt : nxt = k.rcvNxt + UInt32.ofNat (k.advance l) := by
    rw [← hn]
    exact eq_add_ofNat h.next
  rw [h.state, hpool, hn, hnxt]
  rfl

/-- What has moved lies below the new `rcv_nxt`. -/
theorem Reaches.lt_of_mem_take (h : Reaches k l k₁ pool n nxt) (hs : s ∈ pool.take n) :
    s.num < k.rcvNxt.toNat + n := by
  have hmem : s.num ∈ (pool.take n).map Segment.num := List.mem_map_of_mem hs
  rw [h.run, List.mem_range'_1] at hmem
  exact hmem.2

theorem Reaches.exists_of_stored (h : Reaches k l k₁ pool n nxt) {sn : UInt32} (hlow : k.rcvNxt ≤ sn)
    (hs : k₁.recvSide.Stored sn) : ∃ t ∈ pool, t.sn = sn := by
  rw [h.state] at hs
  rcases hs with hlt | ⟨t, ht, hsn⟩
  · have h1 : sn.toNat < nxt.toNat := UInt32.lt_iff_toNat_lt.mp hlt
    have h2 := UInt32.le_iff_toNat_le.mp hlow
    have hnx := h.next
    have hmem : sn.toNat ∈ (pool.take n).map Segment.num := by
      rw [h.run, List.mem_range'_1]
      omega
    obtain ⟨t, ht, hnum⟩ := List.mem_map.mp hmem
    exact ⟨t, List.mem_of_mem_take ht, UInt32.toNat_inj.mp hnum⟩
  · exact ⟨t, List.mem_of_mem_drop ht, hsn⟩

/-- A repetition changes nothing about what is at hand. -/
theorem Reaches.again (h : Reaches k l k₁ pool n nxt) (hl : Consistent (l ++ [s])) (ht : t ∈ pool)
    (hsn : t.sn = s.sn) : Reaches k (l ++ [s]) k₁ pool n nxt := by
  refine { h with mem := fun x => ?_ }
  rw [h.mem, List.mem_append, List.mem_singleton]
  constructor
  · rintro (hx | ⟨hx, hnew⟩)
    · exact Or.inl hx
    · exact Or.inr ⟨Or.inl hx, hnew⟩
  · rintro (hx | ⟨hx | rfl, hnew⟩)
    · exact Or.inl hx
    · exact Or.inr ⟨hx, hnew⟩
    · rcases (h.mem t).mp ht with hb | ⟨htl, -⟩
      · exact absurd hsn (hnew t hb)
      · have hts : t = x := hl t (by simp [htl]) x (by simp) hsn
        rw [hts] at htl
        exact Or.inr ⟨htl, hnew⟩

/-- What is at hand after a number that has not moved is put at its place. -/
theorem Reaches.mem_inserted (h : Reaches k l k₁ pool n nxt) (hl : Consistent (l ++ [s])) (hlow : nxt ≤ s.sn)
    {buf : List Segment} (hins : Kcb.Inserted (pool.drop n) s buf) (x : Segment) :
    x ∈ pool.take n ++ buf ↔ x ∈ k.rcvBuf ∨ x ∈ l ++ [s] ∧ ∀ b ∈ k.rcvBuf, b.sn ≠ x.sn := by
  rcases hins with ⟨rfl, t, ht, hsn⟩ | ⟨i, hi, rfl, h1, h2⟩
  · rw [List.take_append_drop]
    exact (h.again hl (List.mem_of_mem_drop ht) hsn).mem x
  · have hsplit : ∀ y, y ∈ pool.take n ++ ((pool.drop n).take i ++ s :: (pool.drop n).drop i) ↔ y ∈ pool ∨ y = s := by
      intro y
      conv_rhs => rw [← List.take_append_drop n pool, ← List.take_append_drop i (pool.drop n)]
      simp only [List.mem_append, List.mem_cons]
      tauto
    have hinc := Kcb.Inserted.increasing (Or.inr ⟨i, hi, rfl, h1, h2⟩) (h.sorted.drop n)
    -- the number was not there at the beginning either: what has moved lies below it
    have hnew : ∀ b ∈ k.rcvBuf, b.sn ≠ s.sn := by
      intro b hb hsn
      have hbs : b.num = s.num := congrArg UInt32.toNat hsn
      have hb' : b ∈ pool.take n ++ ((pool.drop n).take i ++ (pool.drop n).drop i) := by
        rw [List.take_append_drop, List.take_append_drop]
        exact (h.mem b).mpr (Or.inl hb)
      rcases List.mem_append.mp hb' with hb | hb
      · have hlt := h.lt_of_mem_take hb
        have : nxt.toNat ≤ s.num := UInt32.le_iff_toNat_le.mp hlow
        have := h.next
        omega
      · rcases List.mem_append.mp hb with hb | hb
        · have := (increasing_append.mp hinc).2.2 b hb s (by simp)
          omega
        · have : s.num < b.num := UInt32.lt_iff_toNat_lt.mp (h2 b hb)
          omega
    rw [hsplit, h.mem]
    simp only [List.mem_append, List.mem_singleton]
    constructor
    · rintro ((hx | hx) | rfl)
      · exact Or.inl hx
      · exact Or.inr ⟨Or.inl hx.1, hx.2⟩
      · exact Or.inr ⟨Or.inr rfl, hnew⟩
    · rintro (hx | ⟨hx | hx, hn⟩)
      · exact Or.inl (Or.inl hx)
      · exact Or.inl (Or.inr ⟨hx, hn⟩)
      · exact Or.inr hx

theorem Reaches.insert (h : Reaches k l k₁ pool n nxt) (hl : Consistent (l ++ [s])) (hlow : nxt ≤ s.sn)
    (hbelow : s.num + 1 < 2 ^ 32) {buf : List Segment} (hins : Kcb.Inserted k₁.rcvBuf s buf) :
    ∃ k₂ pool' n' nxt', Kcb.moveData p { k₁ with rcvBuf := buf } = some k₂ ∧
      Reaches k (l ++ [s]) k₂ pool' n' nxt' := by
  have hstate := h.state
  subst hstate
  replace hins : Kcb.Inserted (pool.drop n) s buf := hins
  have hlow' := UInt32.le_iff_toNat_le.mp hlow
  have hnext := h.next
  have hlen : (pool.take n).length = n := by rw [List.length_take, min_eq_left h.len]
  have hmem := h.mem_inserted hl hlow hins
  have hdrop : ∀ x ∈ pool.drop n, k.rcvNxt.toNat + n ≤ x.num :=
    h.sorted.le_of_mem_drop (fun x hx => (h.below x hx).1) h.run
  have hbuf : ∀ x ∈ buf, k.rcvNxt.toNat + n ≤ x.num ∧ x.num + 1 < 2 ^ 32 := by
    intro x hx
    rcases hins.mem hx with hx | rfl
    · exact ⟨hdrop x hx, (h.below x (List.mem_of_mem_drop hx)).2⟩
    · exact ⟨by rw [← hnext]; exact hlow', hbelow⟩
  -- what moves behind the number that was put in is the next part of the pool
  obtain ⟨m, nxt', hmove, hnxt', hrun, hm, hroom, hstop⟩ := Kcb.moveData_eq (p := p)
    (k := { ({ k with rcvBuf := pool } : Kcb).moved n nxt with rcvBuf := buf }) fun x hx => (hbuf x hx).2
  have htake : (pool.take n ++ buf).take (n + m) = pool.take n ++ buf.take m := by
    have h : (pool.take n ++ buf).take ((pool.take n).length + m) = pool.take n ++ buf.take m :=
      List.take_length_add_append m
    rwa [hlen] at h
  have hrest : (pool.take n ++ buf).drop (n + m) = buf.drop m := by
    have h : (pool.take n ++ buf).drop ((pool.take n).length + m) = buf.drop m := List.drop_length_add_append m
    rwa [hlen] at h
  simp only [Kcb.moved, List.length_append, hlen] at hnxt' hrun hm hroom hstop
  refine ⟨_, pool.take n ++ buf, n + m, nxt', hmove, ?_⟩
  refine ⟨?_, ?_, hmem, ?_, ?_, ?_, ?_, ?_, ?_⟩
  · simp only [Kcb.moved, htake, hrest, List.append_assoc]
  · exact increasing_append.mpr ⟨h.sorted.sublist (List.take_sublist n pool), hins.increasing (h.sorted.drop n),
      fun x hx y hy => lt_of_lt_of_le (h.lt_of_mem_take hx) (hbuf y hy).1⟩
  · intro x hx
    rcases List.mem_append.mp hx with hx | hx
    · exact h.below x (List.mem_of_mem_take hx)
    · exact ⟨by have := (hbuf x hx).1; omega, (hbuf x hx).2⟩
  · omega
  · rw [htake, List.map_append, h.run, hrun, hnext, List.range'_append_1]
  · rw [List.length_append, hlen]
    omega
  · have := h.room
    have := hroom this
    omega
  · intro x hx hsn
    rw [hrest] at hx
    have := hstop x hx hsn
    omega

/-- **One arrival.** -/
theorem reaches_step (h : Reaches k l k₁ pool n nxt) (hl : Consistent (l ++ [s]))
    (hbelow : s.num + 1 < 2 ^ 32) (hlow : k.rcvNxt ≤ s.sn) (ht : Kcb.Timely p k₁ s) :
    ∃ k₂ pool' n' nxt', k₁.parseData p s = some k₂ ∧ Reaches k (l ++ [s]) k₂ pool' n' nxt' := by
  obtain ⟨edge, hedge, htimely⟩ := ht
  have hnxt : k₁.rcvNxt = nxt := by rw [h.state]; rfl
  by_cases hin : edge ≤ s.sn ∨ s.sn < k₁.rcvNxt
  · have hstored : k₁.recvSide.Stored s.sn := by
      rcases htimely with hlt | hst
      · exact Or.inl (hin.resolve_left (UInt32.not_le.mpr hlt))
      · exact hst
    obtain ⟨t, ht, hsn⟩ := h.exists_of_stored hlow hstored
    refine ⟨k₁, pool, n, nxt, ?_, h.again hl ht hsn⟩
    unfold Kcb.parseData
    simp only [hedge, if_pos hin, Option.bind_eq_bind, Option.bind_some]
  · obtain ⟨h1, h2⟩ := not_or.mp hin
    have hlow' : k₁.rcvNxt ≤ s.sn := UInt32.not_lt.mp h2
    have hwnd : edge = k₁.rcvNxt + k₁.rcvWnd := Profile.add_eq_some hedge
    obtain ⟨buf, hins, heq⟩ := Kcb.parseData_inside (p := p) hlow' (hwnd ▸ UInt32.not_le.mp h1)
    rw [hnxt] at hlow'
    obtain ⟨k₂, pool', n', nxt', hmove, hk₂⟩ := h.insert (p := p) hl hlow' hbelow hins
    exact ⟨k₂, pool', n', nxt', heq.trans hmove, hk₂⟩

/-! ## Lists of arrivals -/

/-- The arrivals lie in the window that is open at the start. -/
def AllInWindow (k : Kcb) (l : List Segment) : Prop := ∀ s ∈ l, k.rcvNxt ≤ s.sn ∧ s.sn < k.rcvNxt + k.rcvWnd

theorem AllInWindow.num_lt (h : AllInWindow k l) (hs : s ∈ l) : s.num < k.rcvNxt.toNat + k.rcvWnd.toNat := by
  obtain ⟨h1, h2⟩ := h s hs
  rw [← toNat_add_of_between h1 h2]
  exact UInt32.lt_iff_toNat_lt.mp h2

theorem AllInWindow.below (h : AllInWindow k l) (hs : s ∈ l) : s.num + 1 < 2 ^ 32 := by
  obtain ⟨h1, h2⟩ := h s hs
  have hlt : s.num < (k.rcvNxt + k.rcvWnd).toNat := UInt32.lt_iff_toNat_lt.mp h2
  have := (k.rcvNxt + k.rcvWnd).toNat_lt
  omega

/-- Timely arrivals end in the state that the segments determine. -/
theorem run_reaches (h : Reaches k l k₁ pool n nxt) (hl : Consistent (l ++ l₁)) (hwin : AllInWindow k l₁)
    (hm : Meets (Kcb.parseData p) (Kcb.Timely p) k₁ l₁) :
    ∃ k₂ pool' n' nxt', run (Kcb.parseData p) k₁ l₁ = some k₂ ∧ Reaches k (l ++ l₁) k₂ pool' n' nxt' := by
  induction l₁ generalizing l k₁ pool n nxt with
  | nil => exact ⟨k₁, pool, n, nxt, rfl, by rwa [List.append_nil]⟩
  | cons s l₁ ih =>
    have hl' : Consistent (l ++ [s] ++ l₁) := by rwa [List.append_assoc, List.singleton_append]
    have hls : Consistent (l ++ [s]) := fun x hx y hy =>
      hl' x (List.mem_append_left _ hx) y (List.mem_append_left _ hy)
    obtain ⟨k₂, pool', n', nxt', hstep, hk₂⟩ :=
      reaches_step h hls (hwin.below (by simp)) (hwin s (by simp)).1 hm.1
    obtain ⟨k₃, pool'', n'', nxt'', hrun, hk₃⟩ :=
      ih hk₂ hl' (fun x hx => hwin x (by simp [hx])) (hm.2 k₂ hstep)
    refine ⟨k₃, pool'', n'', nxt'', run_cons.mpr ⟨k₂, hstep, hrun⟩, ?_⟩
    rwa [List.append_assoc, List.singleton_append] at hk₃

/-- **Timely arrivals**, in whatever order. -/
theorem run_parseData (hinv : RecvInv k.recvSide taken) (hl : Consistent l) (hwin : AllInWindow k l)
    (hm : Meets (Kcb.parseData p) (Kcb.Timely p) k l) : run (Kcb.parseData p) k l = some (k.reassembled l) := by
  obtain ⟨k₂, pool, n, nxt, hrun, h⟩ := run_reaches (reaches_nil hinv) hl hwin hm
  rw [hrun, h.eq_reassembled hinv.sorted hl, List.nil_append]

theorem parseData_above {edge : UInt32} (hedge : p.add k.rcvNxt k.rcvWnd = some edge) (h : edge ≤ s.sn) :
    k.parseData p s = some k := by
  unfold Kcb.parseData
  simp only [hedge, if_pos (Or.inl h : edge ≤ s.sn ∨ s.sn < k.rcvNxt), Option.bind_eq_bind, Option.bind_some]

/-- Once the edge has wrapped, the whole window lies above it, and nothing arrives any more. -/
theorem run_wrapped (h : Reaches k l k₁ pool n nxt) (hwnd : k.rcvWnd.toNat < 2 ^ 31) (hwin : AllInWindow k (s :: l₁))
    (hs : ¬ Kcb.Timely p k₁ s) (hrun : run (Kcb.parseData p) k₁ (s :: l₁) = some k₂) : k₂ = k₁ := by
  have hnxt : k₁.rcvNxt = nxt := by rw [h.state]; rfl
  have hw : k₁.rcvWnd = k.rcvWnd := by rw [h.state]; rfl
  cases hadd : p.add k₁.rcvNxt k₁.rcvWnd with
  | none =>
    obtain ⟨_, hstep, -⟩ := run_cons.mp hrun
    simp [Kcb.parseData, hadd] at hstep
  | some edge =>
    have habove : edge ≤ s.sn := UInt32.not_lt.mp fun hlt => hs ⟨edge, hadd, Or.inl hlt⟩
    have hle := UInt32.le_iff_toNat_le.mp habove
    have hlt : s.sn.toNat < k.rcvNxt.toNat + k.rcvWnd.toNat := hwin.num_lt (by simp)
    have hval : edge.toNat = (k.rcvNxt.toNat + n + k.rcvWnd.toNat) % 2 ^ 32 := by
      rw [Profile.add_eq_some hadd, UInt32.toNat_add, hnxt, hw, h.next]
    have hroom := h.room
    have hlow : edge.toNat < k.rcvNxt.toNat := by
      have := nxt.toNat_lt
      have := h.next
      omega
    have hfrozen : ∀ l' : List Segment, AllInWindow k l' → run (Kcb.parseData p) k₁ l' = some k₁ := by
      intro l'
      induction l' with
      | nil => exact fun _ => rfl
      | cons t l' ih =>
        intro hw'
        have ht := UInt32.le_iff_toNat_le.mp (hw' t (by simp)).1
        exact run_cons.mpr ⟨k₁, parseData_above hadd (UInt32.le_iff_toNat_le.mpr (by omega)),
          ih fun x hx => hw' x (by simp [hx])⟩
    rw [hfrozen _ hwin] at hrun
    exact (Option.some.inj hrun).symm

theorem timely_of_run (h : Reaches k l k₁ pool n nxt) (hwnd : k.rcvWnd.toNat < 2 ^ 31) (hl : Consistent (l ++ l₁))
    (hwin : AllInWindow k l₁) (hrun : run (Kcb.parseData p) k₁ l₁ = some k₂)
    (hstored : ∀ s ∈ l₁, k₂.recvSide.Stored s.sn) : Meets (Kcb.parseData p) (Kcb.Timely p) k₁ l₁ := by
  induction l₁ generalizing l k₁ pool n nxt with
  | nil => trivial
  | cons s l₁ ih =>
    obtain ⟨t, hstep, hrest⟩ := run_cons.mp hrun
    have htimely : Kcb.Timely p k₁ s := by
      by_contra hs
      have hsame := run_wrapped h hwnd hwin hs hrun
      have hst := hstored s (by simp)
      rw [hsame] at hst
      cases hadd : p.add k₁.rcvNxt k₁.rcvWnd with
      | none => simp [Kcb.parseData, hadd] at hstep
      | some edge => exact hs ⟨edge, hadd, Or.inr hst⟩
    have hl' : Consistent (l ++ [s] ++ l₁) := by rwa [List.append_assoc, List.singleton_append]
    have hls : Consistent (l ++ [s]) := fun x hx y hy =>
      hl' x (List.mem_append_left _ hx) y (List.mem_append_left _ hy)
    obtain ⟨k₂', pool', n', nxt', hstep', hk₂'⟩ :=
      reaches_step h hls (hwin.below (by simp)) (hwin s (by simp)).1 htimely
    refine ⟨htimely, fun s' hs' => ?_⟩
    obtain rfl := Option.some.inj (hstep.symm.trans hs')
    obtain rfl := Option.some.inj (hstep.symm.trans hstep')
    exact ih hk₂' hl' (fun x hx => hwin x (by simp [hx])) hrest fun x hx => hstored x (by simp [hx])

/-- In the state that the segments determine, all of them are stored. -/
theorem stored_reassembled (hinv : RecvInv k.recvSide taken) (hwin : AllInWindow k l) (hs : s ∈ l) :
    (k.reassembled l).recvSide.Stored s.sn := by
  obtain ⟨hrun, hlen⟩ := take_runFrom k.rcvNxt.toNat (k.available l) (n := k.advance l) (min_le_left _ _)
  have hlt : k.rcvNxt.toNat + k.advance l < 2 ^ 32 := by
    cases hn : k.advance l with
    | zero => exact k.rcvNxt.toNat_lt
    | succ n =>
      have hmem : k.rcvNxt.toNat + n ∈ ((k.available l).take (k.advance l)).map Segment.num := by
        rw [hrun, List.mem_range'_1]
        omega
      obtain ⟨t, ht, hnum⟩ := List.mem_map.mp hmem
      have hbelow : t.num + 1 < 2 ^ 32 := by
        rcases mem_available.mp (List.mem_of_mem_take ht) with ht | ⟨ht, -⟩
        · exact hinv.below t ht
        · exact hwin.below ht
      omega
  have hnext : (k.rcvNxt + UInt32.ofNat (k.advance l)).toNat = k.rcvNxt.toNat + k.advance l := by
    have hn : (UInt32.ofNat (k.advance l)).toNat = k.advance l := by
      rw [UInt32.toNat_ofNat']
      exact Nat.mod_eq_of_lt (by omega)
    rw [toNat_add_of_lt (by rwa [hn]), hn]
  refine (Kcb.keeps_moved (k := { k with rcvBuf := k.available l }) hnext hrun).stored _ (Or.inr ?_)
  by_cases hold : ∃ b ∈ k.rcvBuf, b.sn = s.sn
  · obtain ⟨b, hb, hsn⟩ := hold
    exact ⟨b, mem_available.mpr (Or.inl hb), hsn⟩
  · exact ⟨s, mem_available.mpr (Or.inr ⟨hs, fun b hb hsn => hold ⟨b, hb, hsn⟩⟩), rfl⟩

/-! ## Where the edge does not wrap -/

theorem le_runFrom_of_forall {n nxt : ℕ} (hinc : Increasing Segment.num l) (hlow : ∀ x ∈ l, nxt ≤ x.num)
    (h : ∀ i < n, ∃ x ∈ l, x.num = nxt + i) : n ≤ runFrom nxt l := by
  induction n generalizing nxt l with
  | zero => exact Nat.zero_le _
  | succ n ih =>
    obtain ⟨x, hx, hnum⟩ := h 0 (Nat.succ_pos n)
    cases l with
    | nil => simp at hx
    | cons a l =>
      obtain ⟨hhead, htail⟩ := increasing_cons.mp hinc
      have ha : a.num = nxt := by
        have hle := hlow a (by simp)
        rcases List.mem_cons.mp hx with rfl | hx
        · simpa using hnum
        · have := hhead x hx
          omega
      rw [runFrom, if_pos ha]
      refine Nat.succ_le_succ (ih htail (fun y hy => ?_) fun i hi => ?_)
      · have := hhead y hy
        omega
      · obtain ⟨y, hy, hnum⟩ := h (i + 1) (Nat.succ_lt_succ hi)
        rcases List.mem_cons.mp hy with rfl | hy
        · omega
        · exact ⟨y, hy, by omega⟩

theorem Reaches.le_advance (h : Reaches k l k₁ pool n nxt) (hinv : RecvInv k.recvSide taken)
    (hl : Consistent (l ++ l₁)) (hlow : ∀ s ∈ l ++ l₁, k.rcvNxt ≤ s.sn) : n ≤ k.advance (l ++ l₁) := by
  refine le_min (le_runFrom_of_forall (increasing_available hinv.sorted hl) ?_ ?_) (by have := h.room; omega)
  · intro x hx
    rcases mem_available.mp hx with hx | ⟨hx, -⟩
    · exact (hinv.window x hx).1
    · exact UInt32.le_iff_toNat_le.mp (hlow x hx)
  · intro i hi
    have hmem : k.rcvNxt.toNat + i ∈ (pool.take n).map Segment.num := by
      rw [h.run, List.mem_range'_1]
      omega
    obtain ⟨x, hx, hnum⟩ := List.mem_map.mp hmem
    refine ⟨x, mem_available.mpr ?_, hnum⟩
    rcases (h.mem x).mp (List.mem_of_mem_take hx) with hx | ⟨hx, hnew⟩
    · exact Or.inl hx
    · exact Or.inr ⟨List.mem_append_left _ hx, hnew⟩

/-- **Where the edge does not wrap** even when `rcv_nxt` has got as far as it gets, all arrivals are timely. -/
theorem timely_of_noWrap (h : Reaches k l k₁ pool n nxt) (hinv : RecvInv k.recvSide taken)
    (hl : Consistent (l ++ l₁)) (hlow : ∀ s ∈ l, k.rcvNxt ≤ s.sn) (hwin : AllInWindow k l₁)
    (hedge : k.rcvNxt.toNat + k.advance (l ++ l₁) + k.rcvWnd.toNat < 2 ^ 32) :
    Meets (Kcb.parseData p) (Kcb.Timely p) k₁ l₁ := by
  induction l₁ generalizing l k₁ pool n nxt with
  | nil => trivial
  | cons s l₁ ih =>
    have hlow' : ∀ x ∈ l ++ s :: l₁, k.rcvNxt ≤ x.sn := by
      intro x hx
      rcases List.mem_append.mp hx with hx | hx
      · exact hlow x hx
      · exact (hwin x hx).1
    have hn := h.le_advance hinv hl hlow'
    have hnext := h.next
    have htimely : Kcb.Timely p k₁ s := by
      have hnxt : k₁.rcvNxt = nxt := by rw [h.state]; rfl
      have hw : k₁.rcvWnd = k.rcvWnd := by rw [h.state]; rfl
      have hsum : k₁.rcvNxt.toNat + k₁.rcvWnd.toNat < 2 ^ 32 := by
        rw [hnxt, hw, hnext]
        omega
      refine ⟨k₁.rcvNxt + k₁.rcvWnd, Profile.add_of_lt hsum, Or.inl (UInt32.lt_iff_toNat_lt.mpr ?_)⟩
      have hs : s.sn.toNat < k.rcvNxt.toNat + k.rcvWnd.toNat := hwin.num_lt (by simp)
      rw [toNat_add_of_lt hsum, hnxt, hw, hnext]
      omega
    have hassoc : l ++ [s] ++ l₁ = l ++ s :: l₁ := by rw [List.append_assoc, List.singleton_append]
    have hls : Consistent (l ++ [s]) := fun x hx y hy =>
      hl x (hassoc ▸ List.mem_append_left _ hx) y (hassoc ▸ List.mem_append_left _ hy)
    obtain ⟨k₂, pool', n', nxt', hstep, hk₂⟩ :=
      reaches_step h hls (hwin.below (by simp)) (hwin s (by simp)).1 htimely
    refine ⟨htimely, fun s' hs' => ?_⟩
    obtain rfl := Option.some.inj (hstep.symm.trans hs')
    refine ih hk₂ (hassoc ▸ hl) (fun x hx => ?_) (fun x hx => hwin x (by simp [hx])) (hassoc ▸ hedge)
    exact hlow' x (hassoc ▸ List.mem_append_left _ hx)

/-! ## Two orders of arrival -/

theorem reassembled_congr (hinv : RecvInv k.recvSide taken) (hl₁ : Consistent l₁) (hl₂ : Consistent l₂)
    (hset : ∀ s, s ∈ l₁ ↔ s ∈ l₂) : k.reassembled l₁ = k.reassembled l₂ := by
  have h : k.available l₁ = k.available l₂ := by
    refine (increasing_available hinv.sorted hl₁).eq_of_mem_iff (increasing_available hinv.sorted hl₂) fun s => ?_
    rw [mem_available, mem_available, hset]
  simp only [Kcb.reassembled, Kcb.advance, h]

/-- **Reassembly is independent of the order of arrival**: two lists with the same segments, inside the window, end in
the same state, if every segment is timely, in the state in which it comes; and, for a window below `2 ^ 31` as
`wndsize` sets it, only if. -/
theorem order_of_arrival (hinv : RecvInv k.recvSide taken) (hwin : AllInWindow k l₁) (hl : Consistent l₁)
    (hset : ∀ s, s ∈ l₁ ↔ s ∈ l₂) :
    (Meets (Kcb.parseData p) (Kcb.Timely p) k l₁ ∧ Meets (Kcb.parseData p) (Kcb.Timely p) k l₂ →
      run (Kcb.parseData p) k l₁ = some (k.reassembled l₁) ∧
        run (Kcb.parseData p) k l₂ = some (k.reassembled l₁)) ∧
    (k.rcvWnd.toNat < 2 ^ 31 →
      run (Kcb.parseData p) k l₁ = some (k.reassembled l₁) ∧
        run (Kcb.parseData p) k l₂ = some (k.reassembled l₁) →
      Meets (Kcb.parseData p) (Kcb.Timely p) k l₁ ∧ Meets (Kcb.parseData p) (Kcb.Timely p) k l₂) := by
  have hwin₂ : AllInWindow k l₂ := fun s hs => hwin s ((hset s).mpr hs)
  have hl₂ : Consistent l₂ := fun s hs t ht => hl s ((hset s).mpr hs) t ((hset t).mpr ht)
  have hsame := reassembled_congr hinv hl hl₂ hset
  constructor
  · rintro ⟨hm₁, hm₂⟩
    exact ⟨run_parseData hinv hl hwin hm₁, hsame ▸ run_parseData hinv hl₂ hwin₂ hm₂⟩
  · rintro hwnd ⟨hrun₁, hrun₂⟩
    constructor
    · exact timely_of_run (reaches_nil hinv) hwnd hl hwin hrun₁ fun s hs => stored_reassembled hinv hwin hs
    · exact timely_of_run (reaches_nil hinv) hwnd hl₂ hwin₂ hrun₂ fun s hs =>
        stored_reassembled hinv hwin ((hset s).mpr hs)

/-- Three segments into a window of 32: the last two first, or in order and with a repetition. -/
theorem order_of_arrival_three :
    run (Kcb.parseData .dev) (Kcb.new 7) [{ sn := 2 }, { sn := 1 }, { sn := 0 }] =
      run (Kcb.parseData .dev) (Kcb.new 7) [{ sn := 0 }, { sn := 1 }, { sn := 0 }, { sn := 2 }] := by
  have hinv : RecvInv (Kcb.new 7).recvSide [] := recvInv_idle rfl rfl rfl rfl
  have hset : ∀ s : Segment, s ∈ [{ sn := 2 }, { sn := 1 }, ({ sn := 0 } : Segment)] ↔
      s ∈ [{ sn := 0 }, { sn := 1 }, { sn := 0 }, ({ sn := 2 } : Segment)] := by
    intro s
    simp only [List.mem_cons, List.not_mem_nil, or_false]
    tauto
  obtain ⟨h1, h2⟩ := (order_of_arrival (p := .dev) (k := Kcb.new 7) hinv (by unfold AllInWindow; decide)
    (by unfold Consistent; decide) hset).1
    ⟨timely_of_noWrap (reaches_nil hinv) hinv (by unfold Consistent; decide) (by simp) (by unfold AllInWindow; decide)
        (by decide),
      timely_of_noWrap (reaches_nil hinv) hinv (by unfold Consistent; decide) (by simp) (by unfold AllInWindow; decide)
        (by decide)⟩
  exact h1.trans h2.symm

/-- A receiver with a window of two, three segments before the end of the numbers. -/
def nearEnd : Kcb := { (Kcb.new 7).wndsize 0 2 with rcvNxt := 4294967293 }

/-- It is a state that the invariant allows: everything before has been taken. -/
theorem recvInv_nearEnd : ∃ taken, RecvInv nearEnd.recvSide taken := by
  refine ⟨(List.range 4294967293).map fun n => { sn := UInt32.ofNat n }, recvInv_idle ?_ rfl rfl rfl⟩
  rw [List.map_map]
  refine (List.map_congr_left fun n hn => ?_).trans (List.map_id _)
  have hlt := List.mem_range.mp hn
  show (UInt32.ofNat n).toNat = n
  rw [UInt32.toNat_ofNat']
  exact Nat.mod_eq_of_lt (by omega)

/-- The segments 2 ^ 32 - 3 and 2 ^ 32 - 2 in order: the first one moves `rcv_nxt`, the edge wraps to 0, and the second
one is turned down.  In the other order both arrive. -/
theorem second_turned_down :
    ¬ ∀ (k : Kcb) (taken l₁ l₂ : List Segment), RecvInv k.recvSide taken →
      k.rcvNxt.toNat + k.rcvWnd.toNat < 2 ^ 32 → AllInWindow k l₁ → Consistent l₁ → (∀ s, s ∈ l₁ ↔ s ∈ l₂) →
      ∃ k', run (Kcb.parseData .release) k l₁ = some k' ∧ run (Kcb.parseData .release) k l₂ = some k' := by
  intro h
  obtain ⟨taken, hinv⟩ := recvInv_nearEnd
  obtain ⟨k', h1, h2⟩ := h nearEnd taken [{ sn := 4294967293 }, { sn := 4294967294 }]
    [{ sn := 4294967294 }, { sn := 4294967293 }] hinv (by decide) (by unfold AllInWindow; decide)
    (by unfold Consistent; decide) (by intro s; simp only [List.mem_cons, List.not_mem_nil, or_false]; exact or_comm)
  have hne : (run (Kcb.parseData .release) nearEnd [{ sn := 4294967293 }, { sn := 4294967294 }]).map Kcb.rcvNxt ≠
      (run (Kcb.parseData .release) nearEnd [{ sn := 4294967294 }, { sn := 4294967293 }]).map Kcb.rcvNxt := by
    decide
  rw [h1, h2] at hne
  exact hne rfl

end NetProtocols.Kcp
