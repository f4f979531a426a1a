import NetProtocols.Kcp.Integrity

/-!
# NetProtocols.Kcp.Foreign — data that cannot be read as a header

`input` reads data as a header only where a PUSH lies outside the receive window, so that its data is not skipped.  The
first thing it reads there is a conversation number.  Data that does not begin with the number of the conversation is
refused, whatever follows it.

* `Foreign`: such data; `refuses_of_foreign`.
* `aligned_of_foreign`: a datagram of the sender is not misread when the fragments are foreign.
* `delivers_exec`: the link stays a channel, with a condition on the messages and none on the run.
-/

namespace NetProtocols.Kcp

open Kcb Scan

/-- The data does not begin with the number of the conversation, nor with a part of it and no more. -/
def Foreign (conv : UInt32) (data : List UInt8) : Prop := ¬ data.take 4 <+: putU32le conv

instance (conv : UInt32) (data : List UInt8) : Decidable (Foreign conv data) :=
  inferInstanceAs (Decidable (¬ _))

/-- Whatever follows them, the first bytes are those of another conversation. -/
theorem refuses_of_foreign {conv : UInt32} {data : List UInt8} (h : Foreign conv data) (rest : List UInt8) :
    refuses conv (data ++ rest) = true := by
  unfold refuses
  cases hr : readHeader (data ++ rest) with
  | none => rfl
  | some x =>
    obtain ⟨hd, post⟩ := x
    have hconv : hd.conv ≠ conv := by
      rintro rfl
      simp only [readHeader, Option.bind_eq_bind, Option.bind_eq_some_iff] at hr
      obtain ⟨⟨c, b1⟩, h1, ⟨cmd, b2⟩, -, ⟨frg, b3⟩, -, ⟨wnd, b4⟩, -, ⟨ts, b5⟩, -, ⟨sn, b6⟩, -, ⟨una, b7⟩, -,
        ⟨len, b8⟩, -, e⟩ := hr
      obtain rfl : c = hd.conv := congrArg (fun x => x.1.conv) (Option.some.inj e)
      have hlen : (putU32le hd.conv).length = 4 := by simp [putU32le]
      have htake : (data ++ rest).take 4 = putU32le hd.conv := by
        rw [getU32le_eq_some.mp h1, List.take_append_of_le_length hlen.ge, List.take_of_length_le hlen.le]
      apply h
      rw [← htake, List.take_append]
      exact List.prefix_append _ _
    show (!hd.accepted conv post) = true
    simp [Header.accepted, hconv]

section Aligned

variable {p : Profile} {F : List (UInt8 × List UInt8)} {conv : UInt32}

theorem Genuine.foreign {seg : Segment} (hg : Genuine F seg) (hF : ∀ x ∈ F, Foreign conv x.2)
    (hne : seg.data ≠ []) : Foreign conv seg.data := by
  rcases hg with ⟨-, h, -⟩ | ⟨-, h⟩
  · exact hF _ (List.mem_of_getElem? h)
  · exact absurd h hne

theorem misreads_of_refuses {s : Scan} (h : refuses s.kcb.conv s.buf = true) : s.misreads = false := by
  unfold misreads
  unfold refuses at h
  cases hr : readHeader s.buf with
  | none => rfl
  | some x =>
    rw [hr] at h
    have hacc : x.1.accepted s.kcb.conv x.2 = false := by simpa using h
    simp [hacc]

theorem misreads_of_genuine {s : Scan} {seg : Segment} {segs : List Segment} (hbuf : s.buf = encodes (seg :: segs))
    (hg : Genuine F seg) (hF : ∀ x ∈ F, Foreign s.kcb.conv x.2) : s.misreads = false := by
  unfold misreads
  rw [hbuf, encodes_cons, readHeader_encode]
  by_cases hd : seg.data = []
  · have hlen : seg.header.len = 0 := by
      rw [Segment.header, hd]
      rfl
    simp [hlen]
  · have href := refuses_of_foreign (hg.foreign hF hd) (encodes segs)
    simp [href]

/-- The segment loop, before whole segments or where the header tests refuse. -/
theorem aligned_of_cursor (hF : ∀ x ∈ F, Foreign conv x.2) (fuel : ℕ) {s : Scan} (hconv : s.kcb.conv = conv)
    (hs : Made (Genuine F) s.buf ∨ refuses conv s.buf = true) : s.aligned p fuel = true := by
  induction fuel generalizing s with
  | zero => rfl
  | succ fuel ih =>
    subst hconv
    rcases hs with ⟨segs, hbuf, hsegs⟩ | href
    · cases segs with
      | nil =>
        have hstep : s.inputStep p = none := by
          rw [inputStep, hbuf]
          rfl
        have hmis : s.misreads = false := by
          rw [misreads, hbuf]
          rfl
        simp [Scan.aligned, hstep, hmis]
      | cons seg segs =>
        have hmis := misreads_of_genuine hbuf (hsegs seg (by simp)) hF
        simp only [Scan.aligned, hmis, Bool.not_false, Bool.true_and]
        split
        · rename_i t ht
          have htaken := inputStep_encodes hbuf ht
          have hconv' : t.kcb.conv = s.kcb.conv := congrArg Settings.conv (settings_taken htaken).1
          have hcursor := cursor_genuine hbuf (hsegs seg (by simp)) (fun x hx => hsegs x (by simp [hx])) hmis ht htaken
          exact ih hconv' hcursor
        · rfl
    · simp only [Scan.aligned, misreads_of_refuses href, Bool.not_false, Bool.true_and]
      split
      · rename_i t ht
        exact absurd ht (inputStep_of_refuses href)
      · rfl

/-- **A datagram of the sender is not misread** when the fragments of its messages are foreign. -/
theorem aligned_of_foreign {k : Kcb} {d : List UInt8} (hd : Made (Genuine F) d)
    (hF : ∀ x ∈ F, Foreign k.conv x.2) : k.aligned p d = true :=
  aligned_of_cursor hF d.length rfl (Or.inl hd)

end Aligned

/-! ### The link -/

/-- No fragment of the messages accepted so far can be read as a header. -/
def Link.Clean (conv : UInt32) (mss : ℕ) (l : Link) : Prop :=
  ∀ x ∈ pieces mss l.left.accepted, Foreign conv x.2

instance (conv : UInt32) (mss : ℕ) (l : Link) : Decidable (l.Clean conv mss) :=
  inferInstanceAs (Decidable (∀ x ∈ _, _))

section Delivers

variable {b : Build} {mss : ℕ} {conv : UInt32} {l l' : Link} {a : Act}

theorem accepted_exec {e e' : Endpoint} {op : Op} (h : e.exec b op = some e') : e.accepted <+: e'.accepted := by
  cases op <;> simp only [Endpoint.exec, Option.map_eq_some_iff] at h
  case send buf =>
    obtain ⟨⟨r, k'⟩, -, rfl⟩ := h
    cases r
    · exact List.prefix_refl _
    · exact List.prefix_append _ _
  case recv cap =>
    obtain ⟨⟨r, k'⟩, -, rfl⟩ := h
    cases r <;> exact List.prefix_refl _
  all_goals
    obtain ⟨r, -, rfl⟩ := h
    exact List.prefix_refl _

theorem accepted_link (h : l.exec b a = some l') : l.left.accepted <+: l'.left.accepted := by
  cases a with
  | left op =>
    obtain ⟨-, e, he, rfl⟩ := Link.link_left h
    exact accepted_exec he
  | right op =>
    obtain ⟨-, e, -, rfl⟩ := Link.link_right h
    exact List.prefix_refl _

theorem Link.Clean.before (hc : l'.Clean conv mss) (h : l.left.accepted <+: l'.left.accepted) : l.Clean conv mss :=
  fun x hx => hc x ((pieces_mono mss h).subset hx)

/-- **The link stays a channel** as long as the fragments are foreign. -/
theorem delivers_exec (hmss : 0 < mss ∧ mss < 2 ^ 32) (hconv : l.right.kcb.conv = conv) (hc : l'.Clean conv mss)
    (h : l.exec b a = some l') (hi : Delivers mss l) : Delivers mss l' := by
  have hclean : l.Clean conv mss := hc.before (accepted_link h)
  have hok : a.aligned b l = true := by
    cases a with
    | left op => rfl
    | right op =>
      cases op with
      | input d =>
        obtain ⟨hdel, -⟩ := Link.link_right h
        refine aligned_of_foreign (hi.left.written d (Link.mem_of_deliverable hdel)) ?_
        rw [hconv]
        exact hclean
      | send | recv | update | flush => rfl
  exact (link_simulates hmss l a l' ⟨_, _, hi.right.ordered⟩ hi hok h rfl rfl).1

end Delivers

end NetProtocols.Kcp
