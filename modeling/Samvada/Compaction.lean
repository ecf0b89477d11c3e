import Samvada.Sasl
import Samvada.Lib.Spans

/- Compaction moves each byte at most once. A head message moved to the front of the
   buffer stays there until it is consumed, so the next thing moved begins after it;
   and the positions of the framer count the bytes of the stream, whatever was moved. -/
namespace Samvada
open Octets Framing Resumable Resumable.Prog Relation Spans

/-- The stream bytes that compaction moved from `f` to `g`: where they start and end. -/
def shift (f g : Frame) : List (Nat × Nat) :=
  if f.off ≠ 0 ∧ g = dbusFrameCompact f then [(dbusFramePos f, dbusFrameReceived f)] else []

/-- The framers of one connection, `f₀` as it was initialised, with the spans of the
stream that were moved and the events on the way: those of the exchange, then one move
of a call or a pump after the other. -/
inductive Passage (f₀ : Frame) : List (Nat × Nat) → Frame → List Event → Prop where
  | sasl {f : Frame} {es : List Event} (h : Gathered f₀ (inbound es) f) : Passage f₀ [] f es
  | move {s : Nat} {w w' : World} {ms : List (Nat × Nat)} {es es' : List Event}
      (h : Passage f₀ ms w.fr es)
    (step : Step s w w') (ht : w'.trace = w.trace ++ es') : Passage f₀ (ms ++ shift w.fr w'.fr)
    w'.fr (es ++ es')
  | send {f : Frame} {ms : List (Nat × Nat)} {es es' : List Event} (h : Passage f₀ ms f es)
    (ho : ∀ e ∈ es', e.offers = true) : Passage f₀ ms f (es ++ es')
  /-- a Hello failed, and its descriptors are closed -/
  | dropped {f : Frame} {ms : List (Nat × Nat)} {es : List Event} (h : Passage f₀ ms f es) :
    Passage f₀ ms (dbusFrameCloseFds f).1 (es ++ (dbusFrameCloseFds f).2.map Event.close)

/-! ## Positions -/

/-- Compaction changes neither position, nor what is at the base. -/
theorem compact_positions {f : Frame} (h : f.off ≤ f.buf.length) :
    dbusFramePos (dbusFrameCompact f) = dbusFramePos f ∧
    dbusFrameReceived (dbusFrameCompact f) = dbusFrameReceived f ∧
    dbusFrameBase (dbusFrameCompact f) = dbusFrameBase f := by
  have cursor := compact_cursor f
  refine ⟨congrArg Cursor.pos cursor, ?_, congrArg Cursor.held cursor⟩
  by_cases h0 : f.off = 0
  · simp [dbusFrameCompact, h0]
  · simp only [dbusFrameCompact, h0, if_false, dbusFrameReceived,
      dbusFrameBase_length, dbusFrameHave]
    omega

/-- What is asked for belongs to the head message, so all that is buffered does. -/
theorem received_le_reach {f : Frame} (h : f.off ≤ f.buf.length) (hw : 0 < dbusFrameWant f) :
    dbusFrameReceived f ≤ dbusFrameReach f := by
  rw [received_eq h]
  refine Nat.add_le_add_left ?_ _
  unfold dbusFrameWant at hw
  by_cases hs : 0 < f.skip
  · rw [if_pos hs] at hw ⊢
    omega
  rw [if_neg hs] at hw ⊢
  by_cases hh : dbusFrameHave f < 16
  · rw [if_pos hh]
    omega
  rw [if_neg hh]
  have size : dbusFrameHdrSize = 16 := rfl
  rw [if_neg (by omega)] at hw
  have total := dbusFrameTotal_eq (p := dbusFrameBase f) (show 16 ≤ dbusFrameHave f by omega)
  cases ht : messageTotal (dbusFrameBase f) with
  | ok t =>
    rw [ht] at total
    rw [total.1] at hw
    dsimp only at hw ⊢
    split at hw
    · exact absurd hw (Nat.lt_irrefl 0)
    · omega
  | error e =>
    -- no read is asked for at a header that is not valid
    rw [ht] at total
    cases e with
    | badendian =>
      rw [show dbusFrameTotal (dbusFrameBase f) (dbusFrameHave f) = .badendian from total] at hw
      exact absurd hw (Nat.lt_irrefl 0)
    | badproto =>
      rw [show dbusFrameTotal (dbusFrameBase f) (dbusFrameHave f) = .badproto from total] at hw
      exact absurd hw (Nat.lt_irrefl 0)
    | toolong =>
      obtain ⟨t, et, hm⟩ := total
      have cap : dbusFrameCap < t := by
        show 8192 < t
        omega
      rw [et] at hw
      dsimp only at hw
      rw [if_pos cap] at hw
      exact absurd hw (Nat.lt_irrefl 0)

theorem shift_nil {f g : Frame} (h : g.abs0 = f.abs0) : shift f g = [] := by
  refine if_neg fun hc => hc.1 ?_
  have moved : (dbusFrameCompact f).abs0 = f.abs0 + f.off := by simp [dbusFrameCompact, hc.1]
  rw [← hc.2, h] at moved
  omega

/-! ## What a move keeps -/

/-- The framer `f` after the events `es`, when it has moved the spans `ms` since `f₀`: it
has read on in what it held and received, and whatever was moved is consumed or belongs
to a head message that is already at the front. -/
structure Linear (f₀ : Frame) (ms : List (Nat × Nat)) (f : Frame) (es : List Event) : Prop where
  good : f.Good
  order : InOrder ms
  moved : f.moved = f₀.moved + total ms
  settled : ∀ m ∈ ms, m.2 ≤ dbusFrameReceived f ∧
    (m.2 ≤ dbusFramePos f ∨ f.off = 0 ∧ m.2 ≤ dbusFrameReach f)
  stream : ∃ passed, dbusFrameBase f₀ ++ inbound es = passed ++ dbusFrameBase f ∧
    dbusFramePos f = dbusFramePos f₀ + passed.length

section
variable {f₀ f g : Frame} {ms : List (Nat × Nat)} {es es' : List Event}

theorem Linear.start (h : f.Good) : Linear f [] f [] where
  good := h
  order := .nil
  moved := rfl
  settled _ hm := nomatch hm
  stream := ⟨[], List.append_nil _, rfl⟩

/-- The exchange reads on in what it gathers, and moves nothing. -/
theorem Gathered.linear {R : Bytes} (hf : f₀.Good) (h : Gathered f₀ R f) (hi : inbound es = R) :
    Linear f₀ [] f es := by
  suffices good : f.Good ∧ f.moved = f₀.moved ∧ ∃ passed, dbusFrameBase f₀ ++ R = passed ++
    dbusFrameBase f ∧
      dbusFramePos f = dbusFramePos f₀ + passed.length from
    ⟨good.1, .nil, good.2.1, fun _ hm => (nomatch hm), hi.symm ▸ good.2.2⟩
  clear hi
  induction h with
  | start => exact ⟨hf, rfl, [], List.append_nil _, rfl⟩
  | @commit f R d _ room ih =>
    obtain ⟨good, moved, passed, hs, hp⟩ := ih
    have cap := good.ok.cap
    simp only [dbusFrameSpace, dbusFrameCap] at room
    refine ⟨commit_good good (by omega), moved, passed, ?_, hp⟩
    rw [← List.append_assoc, hs, List.append_assoc]
    exact congrArg (passed ++ ·) (congrArg Cursor.held (commit_cursor good.ok.off d)).symm
  | @consume f R _ n ih =>
    obtain ⟨good, moved, passed, hs, hp⟩ := ih
    have off := good.ok.off
    refine ⟨⟨⟨Nat.min_le_right _ _, good.ok.cap⟩, good.fds⟩, moved, passed ++
      (dbusFrameBase f).take n, ?_, ?_⟩
    · have left : dbusFrameBase (dbusFrameConsume f n) = (dbusFrameBase f).drop n := by
        simp only [dbusFrameBase, dbusFrameConsume, List.drop_drop]
        obtain within | past := Nat.le_total (f.off + n) f.buf.length
        · rw [Nat.min_eq_left within]
        · rw [Nat.min_eq_right past, List.drop_length, List.drop_of_length_le past]
      rw [left, List.append_assoc, List.take_append_drop, hs]
    · have size := dbusFrameBase_length f
      rw [List.length_append, List.length_take, size]
      simp only [dbusFramePos, dbusFrameConsume, dbusFrameHave] at hp ⊢
      omega

/-- The framer is where it was, the descriptors and the flags apart. -/
theorem Linear.same (h : Linear f₀ ms f es) (hg : g.Good) (hi : inbound es' = [])
    (hc : dbusFrameCursor g = dbusFrameCursor f) (ho : g.off = f.off) (hm : g.moved = f.moved) :
    Linear f₀ ms g (es ++ es') := by
  have pos : dbusFramePos g = dbusFramePos f := congrArg Cursor.pos hc
  have base : dbusFrameBase g = dbusFrameBase f := congrArg Cursor.held hc
  have received : dbusFrameReceived g = dbusFrameReceived f := by
    rw [received_eq hg.ok.off, received_eq h.good.ok.off, pos, ← dbusFrameBase_length, base,
      dbusFrameBase_length]
  refine ⟨hg, h.order, hm.trans h.moved, fun m hm => ?_, ?_⟩
  · rw [received, pos, ho, reach_congr hc]
    exact h.settled m hm
  · rw [inbound_append, hi, List.append_nil, base, pos]
    exact h.stream

/-- The framer goes on to `g` in what it holds, past what was moved. -/
theorem Linear.goesOn (h : Linear f₀ ms f es) (hg : g.Good) (hi : inbound es' = [])
    (hbuf : g.buf = f.buf) (habs : g.abs0 = f.abs0) (hoff : f.off ≤ g.off)
    (hmoved : g.moved = f.moved)
    (past : ∀ p, p ≤ dbusFrameReceived f → f.off = 0 → p ≤ dbusFrameReach f → p ≤ dbusFramePos g ∨
    g.off = 0 ∧ p ≤ dbusFrameReach g) : Linear f₀ ms g (es ++ es') := by
  have received : dbusFrameReceived g = dbusFrameReceived f := by
    simp only [dbusFrameReceived, habs, hbuf]
  have on : dbusFramePos g = dbusFramePos f + (g.off - f.off) := by
    simp only [dbusFramePos, habs]
    omega
  refine ⟨hg, h.order, hmoved.trans h.moved, fun m hm => ?_, ?_⟩
  · obtain ⟨hle, done | ⟨h0, hr⟩⟩ := h.settled m hm
    · exact ⟨received ▸ hle, .inl (by omega)⟩
    · exact ⟨received ▸ hle, past m.2 hle h0 hr⟩
  · obtain ⟨passed, hs, hp⟩ := h.stream
    have base : dbusFrameBase g = (dbusFrameBase f).drop (g.off - f.off) := by
      rw [dbusFrameBase, dbusFrameBase, hbuf, List.drop_drop]
      congr 1
      omega
    have within : g.off - f.off ≤ (dbusFrameBase f).length := by
      have := hg.ok.off
      rw [hbuf] at this
      rw [dbusFrameBase_length, dbusFrameHave]
      omega
    refine ⟨passed ++ (dbusFrameBase f).take (g.off - f.off), ?_, ?_⟩
    · rw [inbound_append, hi, List.append_nil, hs, base, List.append_assoc, List.take_append_drop]
    · rw [on, hp, List.length_append, List.length_take_of_le within, Nat.add_assoc]

/-- `dbus_frame_next`: a head message at the front stays there or is passed whole. -/
theorem Linear.pass {c : List Int} {r : FrameStatus} (h : Linear f₀ ms f es) (hg : g.Good)
    (hi : inbound es' = []) (rest : AtRest g r) (pass : Passed f g c) :
    Linear f₀ ms g (es ++ es') := by
  refine h.goesOn hg hi pass.buf pass.abs0 pass.off_le pass.moved fun p hle h0 hr => ?_
  by_cases hs : 0 < g.skip
  · -- all that is held was of the message passed over
    refine .inl ?_
    have none : dbusFrameHave g = 0 := by
      cases rest with
      | draining _ hh => exact hh
      | _ => omega
    have same : dbusFrameReceived g = dbusFrameReceived f := by
      simp only [dbusFrameReceived, pass.abs0, pass.buf]
    have at_ := received_eq hg.ok.off
    omega
  · obtain ⟨-, -, -, -, rfl | ⟨-, hs'⟩⟩ | ⟨-, -, -, -, reach⟩ := pass.fds
    · exact .inr ⟨h0, hr⟩
    · exact absurd hs' hs
    · exact .inl (hr.trans (reach (by omega)))

/-- The head message is consumed, and with it what was moved. -/
theorem Linear.advance {r : Nat} (h : Linear f₀ ms f es) (rest : AtRest f (.msg r))
    (hi : inbound es' = []) : Linear f₀ ms (dbusFrameAdvance f r).1 (es ++ es') := by
  obtain ⟨hs, ht, -, hl⟩ := rest.whole_inv
  have reach := reach_total hs ((messageTotal_ge ht).trans hl) ht
  have good := rest.advance_good h.good
  rw [rest.advance h.good.ok.off] at good ⊢
  refine h.goesOn good hi rfl rfl (Nat.le_add_right _ _) rfl fun p _ _ hr => .inl ?_
  rw [reach] at hr
  simp only [dbusFramePos] at hr ⊢
  omega

/-- Room is made for a read: a partial head message is moved to the front, where what
was moved before is behind it. -/
theorem Linear.prepare {n : Nat} (h : Linear f₀ ms f es) (hp : Prepared f g n) :
    Linear f₀ (ms ++ shift f g) g es := by
  obtain rfl | ⟨hw, rfl⟩ := hp.shift
  · rwa [shift_nil rfl, List.append_nil]
  by_cases h0 : f.off = 0
  · have e : dbusFrameCompact f = f := if_pos h0
    rwa [e, shift_nil rfl, List.append_nil]
  have ho := h.good.ok.off
  obtain ⟨pos, received, base⟩ := compact_positions ho
  have new : shift f (dbusFrameCompact f) = [(dbusFramePos f, dbusFrameReceived f)] :=
    if_pos ⟨h0, rfl⟩
  have size := received_eq ho
  have behind : ∀ m ∈ ms, m.2 ≤ dbusFramePos f := by
    intro m hm
    obtain ⟨-, done | ⟨front, -⟩⟩ := h.settled m hm
    · exact done
    · exact absurd front h0
  rw [new]
  refine ⟨hp.good h.good, h.order.snoc (by omega) behind, ?_, fun m hm => ?_, ?_⟩
  · have moved : (dbusFrameCompact f).moved = f.moved + dbusFrameHave f := by
      simp [dbusFrameCompact, h0]
    have span : total [(dbusFramePos f, dbusFrameReceived f)] = dbusFrameHave f := by
      simp [total]
      omega
    rw [moved, h.moved, total_concat, span, Nat.add_assoc]
  · rw [received, pos, reach_congr hp.cursor]
    obtain hm | hm := List.mem_append.mp hm
    · exact ⟨(h.settled m hm).1, .inl (behind m hm)⟩
    · obtain rfl := List.mem_singleton.mp hm
      refine ⟨Nat.le_refl _, .inr ⟨?_, received_le_reach ho hw⟩⟩
      simp [dbusFrameCompact, h0]
  · rw [base, pos]
    exact h.stream

/-- A receive inside the head message. -/
theorem Linear.receive {d : Bytes} (h : Linear f₀ ms f es) (hg : g.Good) (hi : inbound es' = d)
    (hc : dbusFrameCursor g = dbusFrameCursor (dbusFrameCommit f d)) (ho : g.off = f.off)
    (hm : g.moved = f.moved) : Linear f₀ ms g (es ++ es') := by
  have cursor := hc.trans (commit_cursor h.good.ok.off d)
  have pos : dbusFramePos g = dbusFramePos f := congrArg Cursor.pos cursor
  have base : dbusFrameBase g = dbusFrameBase f ++ d := congrArg Cursor.held cursor
  have more : dbusFrameReceived f ≤ dbusFrameReceived g := by
    rw [received_eq hg.ok.off, received_eq h.good.ok.off, pos, ← dbusFrameBase_length,
      ← dbusFrameBase_length, base, List.length_append]
    omega
  have reach : dbusFrameReach f ≤ dbusFrameReach g := by
    rw [reach_congr hc]
    exact reach_commit h.good.ok.off d
  refine ⟨hg, h.order, hm.trans h.moved, fun m hm => ?_, ?_⟩
  · rw [pos, ho]
    obtain ⟨hle, done | ⟨h0, hr⟩⟩ := h.settled m hm
    · exact ⟨hle.trans more, .inl done⟩
    · exact ⟨hle.trans more, .inr ⟨h0, hr.trans reach⟩⟩
  · obtain ⟨passed, hs, hp⟩ := h.stream
    exact ⟨passed, by
      rw [inbound_append, hi, base, ← List.append_assoc, hs, List.append_assoc], pos.trans hp⟩

end

/-! ## Every move -/

theorem push_buffer (f : Frame) (fd : Int) : (dbusFramePushFd f fd).1.off = f.off ∧
    (dbusFramePushFd f fd).1.abs0 = f.abs0 ∧ (dbusFramePushFd f fd).1.moved = f.moved := by
  unfold dbusFramePushFd
  repeat' split
  all_goals exact ⟨rfl, rfl, rfl⟩

theorem Queued.buffer {f g : Frame} {fds moved : List Int} {es : List Event}
    (h : Queued f fds moved es g) : g.off = f.off ∧ g.abs0 = f.abs0 ∧ g.moved = f.moved := by
  induction h with
  | nil f => exact ⟨rfl, rfl, rfl⟩
  | @keep f g fd rest moved es hfd hq ih =>
    obtain ⟨ho, ha, hm⟩ := push_buffer f fd
    exact ⟨ih.1.trans ho, ih.2.1.trans ha, ih.2.2.trans hm⟩
  | @move f g fd nfd rest moved es hfd hq ih =>
    obtain ⟨ho, ha, hm⟩ := push_buffer f nfd
    exact ⟨ih.1.trans ho, ih.2.1.trans ha, ih.2.2.trans hm⟩

theorem incomplete_buffer (g : Frame) (trunc : Bool) :
    (if trunc then dbusFrameFdsIncomplete g else g).off = g.off ∧
    (if trunc then dbusFrameFdsIncomplete g else g).abs0 = g.abs0 ∧
    (if trunc then dbusFrameFdsIncomplete g else g).moved = g.moved := by
  unfold dbusFrameFdsIncomplete
  repeat' split
  all_goals exact ⟨rfl, rfl, rfl⟩

theorem claim_buffer {f g : Frame} {i fd : Int} (h : dbusFrameClaimFd f i = (fd, g)) :
    g.off = f.off ∧ g.abs0 = f.abs0 ∧ g.moved = f.moved := by
  have e : g = (dbusFrameClaimFd f i).2 := by rw [h]
  rw [e]
  unfold dbusFrameClaimFd
  repeat' split
  all_goals exact ⟨rfl, rfl, rfl⟩

theorem advance_abs0 (f : Frame) (n : Nat) : (dbusFrameAdvance f n).1.abs0 = f.abs0 := by
  unfold dbusFrameAdvance
  split
  · rfl
  · rfl

/-- **What a move of the session layer keeps.** -/
theorem Step.linear {s : Nat} {w w' : World} {f₀ : Frame} {ms : List (Nat × Nat)} {es : List Event}
    (hstep : Step s w w')
    (h : Linear f₀ ms w.fr es) : ∃ es', w'.trace = w.trace ++ es' ∧
    Linear f₀ (ms ++ shift w.fr w'.fr) w'.fr (es ++ es') := by
  -- all but making room leaves the buffer where it is
  have stays {es' : List Event} (ht : w'.trace = w.trace ++ es') (ha : w'.fr.abs0 = w.fr.abs0)
      (hl : Linear f₀ ms w'.fr (es ++ es')) :
      ∃ es', w'.trace = w.trace ++ es' ∧ Linear f₀ (ms ++ shift w.fr w'.fr) w'.fr (es ++ es') :=
    ⟨es', ht, by rwa [shift_nil ha, List.append_nil]⟩
  cases hstep with
  | quiet hq =>
    refine stays hq.trace (by rw [hq.fr]) ?_
    rw [hq.fr]
    exact h.same h.good (inbound_silent (offers_silent hq.offers)) rfl rfl rfl
  | lost => exact stays (List.append_nil _).symm rfl (h.same h.good rfl rfl rfl rfl)
  | @next r g d rest pass =>
    refine stays rfl pass.abs0
      (h.pass ⟨pass.ok h.good.ok, pass.fds_nonneg h.good.fds⟩ (inbound_silent fun e he => ?_) rest
      pass)
    obtain he | he := List.mem_append.mp he
    · exact closes_silent _ e he
    · rw [List.mem_singleton.mp he]
      rfl
  | @advance r rest => exact stays rfl (advance_abs0 _ _) (h.advance rest (inbound_advance _ _))
  | answered rest hv => exact stays rfl rfl (h.same h.good rfl rfl rfl rfl)
  | prepare hp => exact ⟨[], (List.append_nil _).symm, by rw [List.append_nil]; exact h.prepare hp⟩
  | eof => exact stays (List.append_nil _).symm rfl (h.same (setEof_good h.good) rfl rfl rfl rfl)
  | @recvNone w' fd n want flags anc trunc hn hfr hdbm hdbs hin ht =>
    refine stays ht (by rw [hfr]) ?_
    rw [hfr]
    refine h.same h.good ?_ rfl rfl rfl
    have shut :
      ∀ e ∈ (if 0 ≤ n then (dbusSysParseRights (anc.bytes.take 1032)).2.map Event.close else []),
        e.silent = true := by
      intro e he
      split at he
      · exact closes_silent _ e he
      · cases he
    rw [(recv_account fd n want flags [] anc trunc _).1, inbound_silent shut]
    rfl
  | @receive w' fd want flags d anc trunc moved qs g rest hd hwithin hroom hin hq hfr
      hdbm hdbs ht =>
    have queued : ∀ e ∈ (dbusSysParseRights (anc.bytes.take 1032)).2.map Event.close ++ qs ++
        [.received (dbusFrameReceived w.fr) d.length moved trunc], e.silent = true := by
      intro e he
      obtain he | he := List.mem_append.mp he
      · exact (List.mem_append.mp he).elim (closes_silent _ e) (hq.silent e)
      · rw [List.mem_singleton.mp he]
        rfl
    obtain ⟨g', hg', hcur, hgood, -⟩ := incomplete_same trunc (hq.good (commit_good h.good hroom))
    obtain ⟨ho, ha, hm⟩ := incomplete_buffer g trunc
    obtain ⟨ho', ha', hm'⟩ := hq.buffer
    rw [hg'] at hfr ho ha hm
    refine stays ht (by rw [hfr]; exact ha.trans ha') ?_
    rw [hfr]
    refine h.receive hgood ?_ (hcur.trans hq.same.1) (ho.trans ho') (hm.trans hm')
    rw [(recv_account fd d.length want flags d anc trunc _).1, inbound_silent queued,
      List.append_nil]
  | @take w₁ w' r i fd g qs ok rest hc h0 hq he =>
    obtain ⟨hg, hcur, heof, -⟩ := claim_good hc h.good
    obtain ⟨ho, ha, hm⟩ := claim_buffer hc
    have claimed : Linear f₀ ms g (es ++ ([.next (.msg r) w.fr, .claimed fd] ++ qs)) := by
      refine h.same hg (inbound_silent ?_) hcur ho hm
      simpa [Event.silent] using offers_silent hq.offers
    refine stays (take_trace hq he) (by rw [he]; exact (advance_abs0 g r).trans ha) ?_
    rw [he, emit_fr, ← List.append_assoc [Event.next _ _, Event.claimed fd], ← List.append_assoc es]
    refine claimed.advance (rest.congr hcur heof) ?_
    cases ok with
    | true => exact (inbound_append _ _).trans (by rw [inbound_advance]; rfl)
    | false => exact inbound_advance g r

/-- What holds wherever a connection passes. -/
theorem Passage.linear {f₀ f : Frame} {ms : List (Nat × Nat)} {es : List Event} (hf : f₀.Good)
    (h : Passage f₀ ms f es) : Linear f₀ ms f es := by
  induction h with
  | sasl h => exact h.linear hf rfl
  | move h step ht ih =>
    obtain ⟨es', ht', next⟩ := step.linear ih
    rwa [List.append_cancel_left (ht.symm.trans ht')]
  | send h ho ih => exact ih.same ih.good (inbound_silent (offers_silent ho)) rfl rfl rfl
  | dropped h ih =>
    exact ih.same (closeFds_good ih.good) (inbound_silent (closes_silent _)) rfl rfl rfl

theorem passage_account {f₀ : Frame} (hf : f₀.Good) : Account fun f es =>
    ∃ ms, Passage f₀ ms f es where
  step := by
    rintro s w w' es hstep ⟨ms, h⟩
    obtain ⟨es', ht, -⟩ := hstep.linear (h.linear hf)
    exact ⟨es', ht, _, h.move hstep ht⟩
  offers := by
    rintro f es es' ⟨ms, h⟩ ho
    exact ⟨ms, h.send ho⟩

/-! ## One connection -/

/-- What the positions of the framer `f` say when `R` has been received since it was
initialised and `ms` moved. -/
structure Positioned (ms : List (Nat × Nat)) (R : Bytes) (f : Frame) : Prop where
  received : dbusFrameReceived f = R.length
  consumed : ∃ read, R = read ++ dbusFrameBase f ∧ dbusFramePos f = read.length
  moved : f.moved = total ms
  within : ∀ m ∈ ms, m.2 ≤ R.length
  once : ∀ p, (ms.filter (covers p)).length ≤ 1
  bound : f.moved ≤ dbusFrameReceived f

/-- Neither position is less at `g` than at `f`. -/
def Onward (f g : Frame) : Prop :=
  dbusFramePos f ≤ dbusFramePos g ∧ dbusFrameReceived f ≤ dbusFrameReceived g

theorem Linear.positioned {f₀ f : Frame} {ms : List (Nat × Nat)} {es : List Event}
    (h : Linear (dbusFrameInit f₀).1 ms f es) : Positioned ms (inbound es) f := by
  obtain ⟨read, hs, hp⟩ := h.stream
  have hs : inbound es = read ++ dbusFrameBase f := hs
  have hp : dbusFramePos f = read.length := hp.trans (Nat.zero_add _)
  have moved : f.moved = total ms := h.moved.trans (Nat.zero_add _)
  have received : dbusFrameReceived f = (inbound es).length := by
    rw [received_eq h.good.ok.off, hp, ← dbusFrameBase_length, hs, List.length_append]
  have within : ∀ m ∈ ms, m.2 ≤ dbusFrameReceived f := fun m hm => (h.settled m hm).1
  exact ⟨received, ⟨read, hs, hp⟩, moved, received ▸ within, h.order.once, moved.trans_le
    (h.order.total_le within)⟩

theorem Linear.onward {f g : Frame} {ms : List (Nat × Nat)} {es : List Event} (hf : f.Good)
    (h : Linear f ms g es) : Onward f g := by
  obtain ⟨read, hs, hp⟩ := h.stream
  have len := congrArg List.length hs
  rw [List.length_append, List.length_append, dbusFrameBase_length, dbusFrameBase_length] at len
  refine ⟨by omega, ?_⟩
  rw [received_eq hf.ok.off, received_eq h.good.ok.off]
  omega

/-- A run of operations, from wherever it starts. -/
theorem runOps_onward {u : World} (hu : u.fr.Good) (bus : Int) (ops : List BusOp) :
    Onward u.fr (runOps bus ops u).state.fr := by
  have linear : Account fun f es => ∃ ms, Linear u.fr ms f es :=
    { step := by
        rintro s w w' es hstep ⟨ms, h⟩
        obtain ⟨es', ht, next⟩ := hstep.linear h
        exact ⟨es', ht, _, next⟩
      offers := by
        rintro f es es' ⟨ms, h⟩ ho
        exact ⟨ms, h.same h.good (inbound_silent (offers_silent ho)) rfl rfl rfl⟩ }
  obtain ⟨es, -, ms, h⟩ := linear.run bus id
    (by rintro f es ⟨ms, h⟩; exact ⟨ms,
    h.same (closeFds_good h.good) (inbound_silent (closes_silent _)) rfl rfl rfl⟩)
    ops hu ⟨[], .start hu⟩
  exact h.onward hu

/-- **Compaction is linear.** On a connection from `dbus_frame_init` on, wherever the SASL
exchange and whatever operations follow it are observed, and at every move in between: each
byte received has been moved once at most, no more bytes have been moved than received, the
positions are the numbers of bytes consumed and received, and compaction changes neither.
Whatever comes next, neither decreases. -/
theorem compaction_linear (f₀ : Frame) (w : World) (hinit : w.fr = (dbusFrameInit f₀).1)
    (hauth : w.auth = {}) (fd : Int) : Passage w.fr [] (dbusSessionSasl fd w).state.fr
    (since w (dbusSessionSasl fd w).state) ∧
    (∀ rc w₀, dbusSessionSasl fd w = .done rc w₀ → ∀ bus ops,
      ∃ ms, Passage w.fr ms (runOps bus ops w₀).state.fr (since w (runOps bus ops w₀).state)) ∧
    ∀ ms f es, Passage w.fr ms f es →
      Positioned ms (inbound es) f ∧
      dbusFramePos (dbusFrameCompact f) = dbusFramePos f ∧
      dbusFrameReceived (dbusFrameCompact f) = dbusFrameReceived f ∧
      (∀ d, Onward f (dbusFrameCommit f d)) ∧ (∀ n, Onward f (dbusFrameConsume f n)) ∧
      Onward f (dbusFrameCloseFds f).1 ∧ (∀ s u u', u.fr = f → Step s u u' → Onward f u'.fr) ∧
      ∀ bus ops u, u.fr = f → Onward f (runOps bus ops u).state.fr := by
  have good : w.fr.Good := hinit ▸ (init_idle f₀).good
  have reset : w.fr = (dbusFrameInit w.fr).1 := by rw [hinit]; rfl
  have exchange : Passage w.fr [] (dbusSessionSasl fd w).state.fr
    (since w (dbusSessionSasl fd w).state) := by
    have received := sasl_received fd reset hauth
    obtain ⟨es, ht, hi⟩ := received.trace
    refine .sasl ?_
    rw [since_eq ht, hi]
    exact received.gathered
  refine ⟨exchange, fun rc w₀ hsasl bus ops => ?_, fun ms f es h => ?_⟩
  · rw [hsasl, Outcome.state_done] at exchange
    obtain ⟨es₀, ht₀, -⟩ :=
      (hsasl ▸ sasl_received fd reset hauth : Received w w.k.inbox (Outcome.done rc w₀).state).trace
    have ht₀ : w₀.trace = w.trace ++ es₀ := ht₀
    rw [since_eq ht₀] at exchange
    obtain ⟨es, ht, ms, h⟩ :=
      (passage_account good).run bus id (by rintro f es ⟨ms, h⟩; exact ⟨ms, h.dropped⟩) ops
      (exchange.linear good).good ⟨[], exchange⟩
    refine ⟨ms, ?_⟩
    rwa [since_eq (ht.trans (by rw [ht₀, List.append_assoc]))]
  · have linear := h.linear good
    have off := linear.good.ok.off
    obtain ⟨pos, received, -⟩ := compact_positions off
    refine ⟨?_, pos, received, fun d => ⟨Nat.le_refl _, ?_⟩, fun n => ⟨?_, Nat.le_refl _⟩,
      ⟨Nat.le_refl _, Nat.le_refl _⟩, ?_, ?_⟩
    · rw [hinit] at linear
      exact linear.positioned
    · simp [dbusFrameReceived, dbusFrameCommit]
    · simp only [dbusFramePos, dbusFrameConsume]
      omega
    · rintro s u u' rfl hstep
      obtain ⟨es', -, next⟩ := hstep.linear (Linear.start linear.good)
      exact next.onward linear.good
    · rintro bus ops u rfl
      exact runOps_onward linear.good bus ops

/-- The server's lines come with the header of a message of 8192 bytes, and four bytes of it
after. -/
def longAhead : World where
  k := {
    alloc := [true]
    clock := [{}, {}]
    send := [48]
    poll := [1]
    recv := [{ ret := 74 }, { ret := 4 }, { ret := -11 }]
    inbox := lit "DATA\r\nOK 0123456789abcdef0123456789abcdef\r\nAGREE_UNIX_FD\r\n" ++
      [108, 4, 0, 1, 240, 31, 0, 0, 1, 0, 0, 0, 0, 0, 0, 0, 1, 2, 3, 4] }

/-- Its header is moved to make room for it: sixteen bytes, once, of the seventy-eight received,
and the position stays where the lines end. -/
theorem compaction_linear_long :
    let v := (runOps 5 [.pump] (dbusSessionSasl 5 longAhead).state).state
    v.fr.moved = 16 ∧ v.fr.moved ≤ dbusFrameReceived v.fr ∧ ∃ read, read.length = 58 ∧
      inbound (since longAhead v) = read ++ dbusFrameBase v.fr ∧
      dbusFramePos v.fr = read.length := by
  intro v
  obtain ⟨-, runs, points⟩ := compaction_linear {} longAhead rfl rfl 5
  obtain ⟨ms, passage⟩ := runs 0 (dbusSessionSasl 5 longAhead).state (by rfl) 5 [.pump]
  obtain ⟨here, -⟩ := points ms _ _ passage
  obtain ⟨read, stream, pos⟩ := here.consumed
  have position : dbusFramePos v.fr = 58 := by decide +kernel
  exact ⟨by decide +kernel, here.bound, read, pos.symm.trans position, stream, pos⟩

end Samvada
