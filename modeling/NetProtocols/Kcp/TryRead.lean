import NetProtocols.Kcp.Stream
import NetProtocols.Kcp.RecvInv

/-!
# NetProtocols.Kcp.TryRead — the next message, and what `try_read` makes of it

* `nextMessage`: what `recv` returns into a buffer that is long enough.  Into any other buffer it returns
  "short buffer" (`recv_next`), and without a next message it fails in every buffer (`recv_of_next_none`).
* `tick_rule`, `tick_queues`: an `update` that is awaited leaves the received segments alone.
* `ReadsKcb`: the four outcomes of the part of `try_read` behind `udp_recv_and_iuc_update`; `readsKcb_of_readKcb`.
-/

namespace NetProtocols.Kcp

variable {p : Profile} {b : Build}

namespace Kcb

variable {k k' : Kcb}

/-- The bytes of the first message, as `recv` returns them into a buffer that holds all that is queued. -/
def nextMessage (p : Profile) (k : Kcb) : Option (List UInt8) :=
  match k.recv p (k.rcvQueue.flatMap Segment.data).length with
  | some (.ok out, _) => some out
  | _ => none

/-- The answer of `recv` to a buffer that the first message does not fit. -/
def shortBuffer : IoError := ⟨.invalidInput, "short buffer"⟩

/-- What has been merged into a buffer could have been merged into any buffer that it fits. -/
theorem mergeFragments_fits {cap cap' : ℕ} {l : List Segment} {out out' : List UInt8} {i j : ℕ}
    (h : mergeFragments cap l out i = .ok (out', j)) (hc : out'.length ≤ cap') :
    mergeFragments cap' l out i = .ok (out', j) := by
  induction l generalizing out i with
  | nil => exact h
  | cons seg rest ih =>
    have hlen : out.length + seg.data.length ≤ out'.length := by
      rw [(mergeFragments_spec h).1]
      unfold headMessage
      split_ifs <;> simp
    simp only [mergeFragments] at h ⊢
    split_ifs at h with hcap hfrg
    · rw [if_neg (by omega), if_pos hfrg]
      exact h
    · rw [if_neg (by omega), if_neg hfrg]
      exact ih h

/-- A call of `recv` that returns a message has read its size first, and finds the same in any buffer that it fits. -/
theorem recv_ok {cap : ℕ} {out : List UInt8} (h : k.recv p cap = some (.ok out, k')) :
    k.rcvQueue ≠ [] ∧ k.peeksize p = some (.ok out.length) ∧ out.length ≤ cap ∧
      ∀ cap', out.length ≤ cap' → k.recv p cap' = some (.ok out, k') := by
  have hq : k.rcvQueue ≠ [] := by
    intro hq
    simp [recv, hq] at h
  have h' := h
  simp only [recv, if_neg hq, Option.bind_eq_bind, Option.bind_eq_some_iff] at h
  obtain ⟨peek, hp, h⟩ := h
  cases peek with
  | error e => simp at h
  | ok n =>
    dsimp only at h
    split_ifs at h with hcap
    · simp at h
    · cases hm : mergeFragments cap k.rcvQueue [] 0 with
      | error e => simp [hm] at h
      | ok x =>
        obtain ⟨out₁, index⟩ := x
        simp only [hm, Option.bind_eq_some_iff] at h
        obtain ⟨u, hu, k₁, hk₁, h⟩ := h
        have hout : out₁ = out := by
          split_ifs at h <;> simp_all
        subst hout
        have hn : out₁.length = n := by
          unfold Profile.assert at hu
          split_ifs at hu with hn
          exact hn
        subst hn
        refine ⟨hq, hp, Nat.le_of_not_lt hcap, fun cap' hle => ?_⟩
        rw [← h']
        simp only [recv, if_neg hq, hp, Option.bind_eq_bind, Option.bind_some, if_neg (Nat.not_lt.mpr hle), if_neg hcap,
          mergeFragments_fits hm hle, hm]

theorem recv_short {cap n : ℕ} (hq : k.rcvQueue ≠ []) (hp : k.peeksize p = some (.ok n)) (hc : cap < n) :
    k.recv p cap = some (.error shortBuffer, k) := by
  simp only [recv, if_neg hq, hp, Option.bind_eq_bind, Option.bind_some, if_pos hc]
  rfl

theorem nextMessage_of_recv {cap : ℕ} {out : List UInt8} (h : k.recv p cap = some (.ok out, k')) :
    k.nextMessage p = some out := by
  have hle : out.length ≤ (k.rcvQueue.flatMap Segment.data).length := by
    rcases recv_cases h with ⟨e, he, -⟩ | ⟨he, -⟩
    · cases he
    · obtain rfl := Except.ok.inj he
      conv_rhs => rw [← headMessage_append_drop k.rcvQueue]
      simp
  unfold nextMessage
  rw [(recv_ok h).2.2.2 _ hle]

/-- **`recv` and the next message**: it is returned into every buffer that it fits, and into no other. -/
theorem recv_next {m : List UInt8} (h : k.nextMessage p = some m) :
    k.rcvQueue ≠ [] ∧ k.peeksize p = some (.ok m.length) ∧
      ∃ k', ∀ cap, k.recv p cap = if m.length ≤ cap then some (.ok m, k') else some (.error shortBuffer, k) := by
  unfold nextMessage at h
  split at h
  · rename_i out k' hr
    obtain rfl := Option.some.inj h
    obtain ⟨hq, hp, -, hfit⟩ := recv_ok hr
    refine ⟨hq, hp, k', fun cap => ?_⟩
    split_ifs with hle
    · exact hfit cap hle
    · exact recv_short hq hp (Nat.lt_of_not_le hle)
  · cases h

theorem recv_of_next_none {cap : ℕ} {r : Except IoError (List UInt8)} (hn : k.nextMessage p = none)
    (h : k.recv p cap = some (r, k')) : (∃ e, r = .error e) ∧ k' = k := by
  rcases recv_cases h with ⟨e, he, hk⟩ | ⟨he, -⟩
  · exact ⟨⟨e, he⟩, hk⟩
  · subst he
    rw [nextMessage_of_recv h] at hn
    cases hn

theorem peeksize_congr (h : k'.rcvQueue = k.rcvQueue) : k'.peeksize p = k.peeksize p := by
  unfold peeksize
  rw [h]

/-- A message that `recv` takes off is taken off the queue, and data moves up behind it. -/
theorem recv_queues {cap : ℕ} {out : List UInt8} (h : k.recv p cap = some (.ok out, k')) :
    out ++ (k'.rcvQueue ++ k'.rcvBuf).flatMap Segment.data = (k.rcvQueue ++ k.rcvBuf).flatMap Segment.data := by
  rcases recv_cases h with ⟨e, he, -⟩ | ⟨he, -, k₁, probe, hm, rfl⟩
  · cases he
  · obtain rfl := Except.ok.inj he
    obtain ⟨n, nxt, rfl⟩ := moveData_eq_moved hm
    have hq : k.rcvQueue.flatMap Segment.data = (headMessage k.rcvQueue).flatMap Segment.data ++
        (k.rcvQueue.drop (headMessage k.rcvQueue).length).flatMap Segment.data := by
      rw [← List.flatMap_append, headMessage_append_drop]
    have hb : (k.rcvBuf.take n).flatMap Segment.data ++ (k.rcvBuf.drop n).flatMap Segment.data =
        k.rcvBuf.flatMap Segment.data := by
      rw [← List.flatMap_append, List.take_append_drop]
    simp only [setProbe, moved, popped, List.flatMap_append, hq, ← hb, List.append_assoc]

/-! ### Awaiting an update -/

/-- An `update` and a `check` that come to their end have had nothing to write. -/
theorem tick_eq_some {t : Tick} {dur : UInt32} :
    k.tick b t = some (dur, k') ↔
      ∃ f, k.update b t.now = some f ∧ f.Silent ∧ k' = f.kcb ∧ f.kcb.check b.profile t.later = some dur := by
  simp only [tick, Option.bind_eq_bind, Option.bind_eq_some_iff, Flushing.await_eq_some, Option.some.injEq,
    Prod.mk.injEq]
  constructor
  · rintro ⟨f, hf, k₁, ⟨hs, rfl⟩, dur', hd, rfl, rfl⟩
    exact ⟨f, hf, hs, rfl, hd⟩
  · rintro ⟨f, hf, hs, rfl, hd⟩
    exact ⟨f, hf, _, ⟨hs, rfl⟩, dur, hd, rfl, rfl⟩

/-- What every small step of a flush preserves is preserved by awaiting an `update`. -/
theorem tick_rule {I : Kcb → Prop} {t : Tick} {dur : UInt32} (h : k.tick b t = some (dur, k')) (h0 : I k)
    (hstep : ∀ k₁ k₂, I k₁ → FlushStep b k k₁ k₂ → I k₂) : I k' := by
  obtain ⟨f, hf, -, rfl, -⟩ := tick_eq_some.mp h
  exact (flushed_rule none (update_follows hf) h0 hstep).1

theorem tick_queues {t : Tick} {dur : UInt32} (h : k.tick b t = some (dur, k')) :
    k'.rcvQueue = k.rcvQueue ∧ k'.rcvBuf = k.rcvBuf := by
  obtain ⟨f, hf, -, rfl, -⟩ := tick_eq_some.mp h
  exact queues_flushed (update_follows hf) none

end Kcb

/-! ### The outcomes of `try_read` -/

/-- The message that a read returns, if it returns one. -/
def returnedBy : Except IoError (List UInt8) → List (List UInt8)
  | .ok m => [m]
  | .error _ => []

namespace KcpStream

variable {Addr : Type} {s s' : KcpStream Addr} {cap : ℕ} {t : Tick}

/-- The answer to a caller whose buffer the message does not fit. -/
def wouldBlock : IoError := ⟨.wouldBlock, "must 1024 buf!"⟩

/-- What happens behind `udp_recv_and_iuc_update`, by the next message. -/
inductive ReadsKcb (b : Build) (s : KcpStream Addr) (cap : ℕ) (t : Tick) :
    Except IoError (List UInt8) → KcpStream Addr → Prop
  /-- There is none. -/
  | none (e : IoError) (hn : s.kcb.nextMessage b.profile = .none) : ReadsKcb b s cap t (.error e) s
  /-- The scratch buffer is too short for it. -/
  | short (m : List UInt8) (hn : s.kcb.nextMessage b.profile = some m) (hbuf : s.buf.length < m.length) :
      ReadsKcb b s cap t (.error Kcb.shortBuffer) s
  /-- The caller's buffer is too short for it: it is gone. -/
  | dropped (m : List UInt8) (k : Kcb) (hn : s.kcb.nextMessage b.profile = some m) (hbuf : m.length ≤ s.buf.length)
      (hr : s.kcb.recv b.profile s.buf.length = some (.ok m, k)) (hcap : cap < m.length) :
      ReadsKcb b s cap t (.error wouldBlock) (s.took k m)
  /-- It is returned. -/
  | returned (m : List UInt8) (k k₁ : Kcb) (dur : UInt32) (hn : s.kcb.nextMessage b.profile = some m)
      (hbuf : m.length ≤ s.buf.length) (hr : s.kcb.recv b.profile s.buf.length = some (.ok m, k))
      (hcap : m.length ≤ cap) (ht : k.tick b t = some (dur, k₁)) :
      ReadsKcb b s cap t (.ok m) (((s.took k m).setBuf [] s.toSend).setKcb k₁)

/-- **The part of `try_read` behind `udp_recv_and_iuc_update`.** -/
theorem readsKcb_of_readKcb {r : Except IoError (List UInt8)} (h : s.readKcb b cap t = some (r, s')) :
    ReadsKcb b s cap t r s' := by
  simp only [readKcb, Option.bind_eq_bind, Option.bind_eq_some_iff] at h
  obtain ⟨x, hr, h⟩ := h
  obtain ⟨q, k⟩ := x
  cases hn : s.kcb.nextMessage b.profile with
  | none =>
    -- whatever `recv` fails with, the branches of `try_read` leave the stream as it is
    obtain ⟨⟨e, rfl⟩, rfl⟩ := Kcb.recv_of_next_none hn hr
    simp only [setKcb_self] at h
    split_ifs at h
    all_goals
      simp only [Option.some.injEq, Prod.mk.injEq] at h
      obtain ⟨rfl, rfl⟩ := h
      exact .none _ hn
  | some m =>
    obtain ⟨-, -, k₁, hall⟩ := Kcb.recv_next hn
    have hr' := hr
    rw [hall] at hr'
    by_cases hbuf : m.length ≤ s.buf.length
    · rw [if_pos hbuf] at hr'
      simp only [Option.some.injEq, Prod.mk.injEq] at hr'
      obtain ⟨rfl, rfl⟩ := hr'
      dsimp only at h
      by_cases hcap : m.length ≤ cap
      · rw [if_pos hcap] at h
        simp only [kcpCheck, Option.bind_eq_bind, Option.bind_eq_some_iff, Option.some.injEq, Prod.mk.injEq] at h
        obtain ⟨s₁, ⟨⟨dur, k₂⟩, hz, rfl⟩, rfl, rfl⟩ := h
        exact .returned m k₁ k₂ dur hn hbuf hr hcap hz
      · rw [if_neg hcap] at h
        simp only [Option.some.injEq, Prod.mk.injEq] at h
        obtain ⟨rfl, rfl⟩ := h
        exact .dropped m k₁ hn hbuf hr (Nat.lt_of_not_le hcap)
    · rw [if_neg hbuf] at hr'
      simp only [Option.some.injEq, Prod.mk.injEq] at hr'
      obtain ⟨rfl, rfl⟩ := hr'
      -- "short buffer" is not of the kind `Other`, so it is handed on
      simp only [setKcb_self] at h
      rw [if_neg (by decide)] at h
      simp only [Option.some.injEq, Prod.mk.injEq] at h
      obtain ⟨rfl, rfl⟩ := h
      exact .short m hn (Nat.lt_of_not_le hbuf)

/-- A next message that the scratch buffer is too short for stays where it is. -/
theorem readKcb_short {m : List UInt8} (hn : s.kcb.nextMessage b.profile = some m) (hbuf : s.buf.length < m.length) :
    s.readKcb b cap t = some (.error Kcb.shortBuffer, s) := by
  obtain ⟨hq, hp, -⟩ := Kcb.recv_next hn
  simp only [readKcb, Kcb.recv_short hq hp hbuf, Option.bind_eq_bind, Option.bind_some, setKcb_self]
  rw [if_neg (by decide)]

/-- One that the caller's buffer is too short for is taken off the queue. -/
theorem readKcb_dropped {m : List UInt8} {k : Kcb} (hr : s.kcb.recv b.profile s.buf.length = some (.ok m, k))
    (hcap : cap < m.length) : s.readKcb b cap t = some (.error wouldBlock, s.took k m) := by
  simp only [readKcb, hr, Option.bind_eq_bind, Option.bind_some, if_neg (Nat.not_le.mpr hcap)]
  rfl

/-- With something in the scratch buffer, or nothing received, `try_read` goes straight to `recv`. -/
theorem readSocket_of {env : ReadEnv} (h : s.toSend = none ∨ s.buf ≠ []) : s.readSocket b env = some s := by
  unfold readSocket
  rcases h with h | h
  · simp [h, udpRecvAndIucUpdate]
  · by_cases hs : s.toSend = none
    · simp [hs, udpRecvAndIucUpdate]
    · rw [if_neg]
      simp [hs, h]

theorem tryRead_of {env : ReadEnv} (h : s.toSend = none ∨ s.buf ≠ []) :
    s.tryRead b cap env = s.readKcb b cap env.check := by
  simp [tryRead, readSocket_of h]

end KcpStream

end NetProtocols.Kcp
