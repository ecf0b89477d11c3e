import Samvada.Rights

/- The control buffer of a receive, as the kernel writes it: one control message
   after another. The parse finds every one of them, so what a receive collects is
   the descriptors its SCM_RIGHTS sets carry. -/
namespace Samvada
open Octets

/-- What the parse of a control message finds in it. -/
def Cmsg.entries : Cmsg → List (Bool × Int)
  | .rights fds => fds.map fun fd => (true, (fd.val : Int))
  | .creds _ => []
  | .pidfd fd => [(false, (fd.val : Int))]

theorem load32_word (p : Bytes) (n : Nat) (q : Bytes) (h : n < 4294967296) :
    load32 (p ++ (le32 n ++ q)) p.length = n := by
  rw [← List.append_assoc, load32_at]
  omega

/-- The descriptors of a run of words. -/
theorem words_fds (p : Bytes) (fds : List FdNum) (q : Bytes) :
    (((List.range fds.length).map fun i => load32 (p ++ (fds.flatMap (fun fd => le32 fd.val) ++ q))
    (p.length + 4 * i)).filter
      (· < 2147483648)).map Int.ofNat = fds.map fun fd => (fd.val : Int) := by
  have read : (List.range fds.length).map
      (fun i => load32 (p ++ (fds.flatMap (fun fd => le32 fd.val) ++ q)) (p.length + 4 * i)) =
      fds.map (·.val) := by
    induction fds generalizing p with
    | nil => rfl
    | cons fd fds ih =>
      have hfd : fd.val < 4294967296 := by omega
      rw [List.length_cons, List.range_succ_eq_map, List.map_cons, List.map_cons, List.map_map]
      congr 1
      · rw [List.flatMap_cons, List.append_assoc]
        exact load32_word p fd.val _ hfd
      · rw [← ih (p ++ le32 fd.val)]
        refine List.map_congr_left fun i _ => ?_
        simp only [Function.comp, List.flatMap_cons, List.append_assoc,
          List.length_append, le32_length]
        congr 1
        omega
  rw [read, List.filter_eq_self.mpr, List.map_map]
  · rfl
  · intro n hn
    obtain ⟨fd, -, rfl⟩ := List.mem_map.mp hn
    exact decide_eq_true fd.isLt

theorem flatMap_le32_length (fds : List FdNum) : (fds.flatMap fun fd => le32 fd.val).length = 4 *
    fds.length := by
  induction fds with
  | nil => rfl
  | cons fd fds ih =>
    rw [List.flatMap_cons, List.length_append, ih, le32_length, List.length_cons]
    omega

theorem Cmsg.bytes_length (c : Cmsg) : c.bytes.length = align (16 + c.data.length) 8 := by
  have := le_align (16 + c.data.length) (a := 8) (by decide)
  simp only [Cmsg.bytes, List.length_append, le32_length, List.length_replicate]
  omega

/-- The four words of a control message's header. -/
theorem header_words (p q : Bytes) {a b c d : Nat} (ha : a < 4294967296) (hb : b < 4294967296)
    (hc : c < 4294967296)
    (hd : d < 4294967296) {ctrl : Bytes}
    (h : ctrl = p ++ (le32 a ++ (le32 b ++ (le32 c ++ (le32 d ++ q))))) :
    load32 ctrl p.length = a ∧ load32 ctrl (p.length + 4) = b ∧ load32 ctrl (p.length + 8) = c ∧
      load32 ctrl (p.length + 12) = d := by
  subst h
  refine ⟨load32_word p a _ ha, ?_, ?_, ?_⟩
  · have := load32_word (p ++ le32 a) b (le32 c ++ (le32 d ++ q)) hb
    rwa [List.length_append, le32_length, List.append_assoc] at this
  · have := load32_word (p ++ le32 a ++ le32 b) c (le32 d ++ q) hc
    simpa only [List.length_append, le32_length, List.append_assoc, Nat.add_assoc] using this
  · have := load32_word (p ++ le32 a ++ le32 b ++ le32 c) d q hd
    simpa only [List.length_append, le32_length, List.append_assoc, Nat.add_assoc] using this

/-- A control message is its header, its data and padding. -/
theorem Cmsg.bytes_eq (c : Cmsg) (h : 16 + c.data.length < 4294967296) : ∃ pad : Bytes, c.bytes =
    le32 (16 + c.data.length : Nat) ++
    (le32 (0 : Nat) ++ (le32 (1 : Nat) ++ (le32 c.type ++ (c.data ++ pad)))) := by
  have hz : ((16 + c.data.length : Nat) : Int) / 4294967296 = (0 : Nat) := by omega
  refine ⟨List.replicate (align (16 + c.data.length) 8 - (16 + c.data.length)) 0, ?_⟩
  simp only [Cmsg.bytes, hz, List.append_assoc]
  rfl

/-- One step of the parse reads one control message. -/
theorem cmsgs_cons (p : Bytes) (c : Cmsg) (q : Bytes) (n : Nat)
    (h : (p ++ (c.bytes ++ q)).length ≤ 1032) : dbusSysCmsgs (p ++ (c.bytes ++ q))
    (n + 1) p.length =
      c.entries ++ dbusSysCmsgs (p ++ (c.bytes ++ q)) n (p ++ c.bytes).length := by
  have hl := c.bytes_length
  have hle := le_align (16 + c.data.length) (a := 8) (by decide)
  have hlen : (p ++ (c.bytes ++ q)).length = p.length + (c.bytes.length + q.length) := by
    rw [List.length_append, List.length_append]
  obtain ⟨pad, hpad⟩ := c.bytes_eq (by omega)
  have hctrl : p ++ (c.bytes ++ q) = p ++
    (le32 (16 + c.data.length : Nat) ++ (le32 (0 : Nat) ++ (le32 (1 : Nat) ++
      (le32 c.type ++ (c.data ++ (pad ++ q)))))) := by
    rw [hpad]
    simp only [List.append_assoc]
  have htype : c.type < 4294967296 := by cases c <;> simp [Cmsg.type]
  obtain ⟨h0, h4, h8, h12⟩ :=
    header_words p (c.data ++ (pad ++ q)) (by omega) (by decide) (by decide) htype hctrl
  have hclen : load64 (p ++ (c.bytes ++ q)) p.length = 16 + c.data.length := by
    rw [load64, h0, h4]
    omega
  -- the words of the data
  have hwords : ∀ fds : List FdNum, c.data = fds.flatMap (fun fd => le32 fd.val) →
      (((List.range ((16 + c.data.length - 16) / 4)).map fun i =>
        load32 (p ++ (c.bytes ++ q)) (p.length + 16 + 4 * i)).filter (· < 2147483648)).map
          Int.ofNat =
        fds.map fun fd => (fd.val : Int) := by
    intro fds hd
    have hn : (16 + c.data.length - 16) / 4 = fds.length := by
      rw [hd, flatMap_le32_length]
      omega
    have hread :=
      words_fds (p ++ le32 (16 + c.data.length : Nat) ++ le32 (0 : Nat) ++
      le32 (1 : Nat) ++ le32 c.type)
      fds (pad ++ q)
    rw [show (p ++ le32 (16 + c.data.length : Nat) ++ le32 (0 : Nat) ++ le32 (1 : Nat) ++
      le32 c.type).length = p.length + 16 by simp only [List.length_append, le32_length]] at hread
    rw [hn, hctrl]
    rw [← hd] at hread
    simpa only [List.append_assoc] using hread
  have hnext : p.length + align (16 + c.data.length) 8 = (p ++ c.bytes).length := by
    rw [List.length_append, hl]
  have hroom : ¬ (p ++ (c.bytes ++ q)).length < p.length + dbusSysCmsghdrSize := by
    simp only [dbusSysCmsghdrSize]
    omega
  have hfits : ¬ (16 + c.data.length < dbusSysCmsghdrSize ∨
      (p ++ (c.bytes ++ q)).length - p.length < 16 + c.data.length) := by
    simp only [dbusSysCmsghdrSize]
    omega
  rw [dbusSysCmsgs, if_neg hroom]
  simp only [hclen, h8, h12, if_neg hfits, hnext]
  congr 1
  cases c with
  | rights fds =>
    rw [hwords fds rfl]
    simp [Cmsg.type, Cmsg.entries, dbusSysSolSocket, dbusSysScmRights]
  | creds data => rfl
  | pidfd fd =>
    rw [hwords [fd] (List.append_nil _).symm]
    rfl

/-- The parse finds every control message of a buffer. -/
theorem cmsgs_all (cs : List Cmsg) : ∀ (p : Bytes) (n : Nat), cs.length < n →
    (p ++ cs.flatMap Cmsg.bytes).length ≤ 1032 →
    dbusSysCmsgs (p ++ cs.flatMap Cmsg.bytes) n p.length = cs.flatMap Cmsg.entries := by
  induction cs with
  | nil =>
    intro p n hn _
    obtain ⟨n, rfl⟩ : ∃ m, n = m + 1 := ⟨n - 1, by simp only [List.length_nil] at hn; omega⟩
    rw [dbusSysCmsgs, if_pos]
    · rfl
    · simp [dbusSysCmsghdrSize]
  | cons c cs ih =>
    intro p n hn hlen
    obtain ⟨n, rfl⟩ : ∃ m, n = m + 1 := ⟨n - 1, by omega⟩
    rw [List.flatMap_cons] at hlen ⊢
    rw [cmsgs_cons p c _ n hlen, List.flatMap_cons, ← List.append_assoc p]
    rw [ih (p ++ c.bytes) n (by simp only [List.length_cons] at hn; omega)
      (by rwa [List.append_assoc])]

/-- A buffer the kernel wrote is parsed from one control message to the next. -/
theorem Ancillary.parsed (a : Ancillary) : dbusSysParseRights (a.bytes.take 1032) =
    (a.cmsgs.flatMap Cmsg.entries).foldl dbusRxAdd ([], []) := by
  have hfits : a.bytes.length ≤ 1032 := a.fits
  have hcount : a.cmsgs.length ≤ a.bytes.length := by
    have each : ∀ cs : List Cmsg, cs.length ≤ (cs.flatMap Cmsg.bytes).length := by
      intro cs
      induction cs with
      | nil => exact Nat.le_refl _
      | cons c cs ih =>
        have hl := c.bytes_length
        have := le_align (16 + c.data.length) (a := 8) (by decide)
        rw [List.flatMap_cons, List.length_append, List.length_cons]
        omega
    exact each a.cmsgs
  have hall := cmsgs_all a.cmsgs [] (a.bytes.length + 1) (by omega) hfits
  rw [List.nil_append] at hall
  rw [List.take_of_length_le hfits, dbusSysParseRights, ← hall]
  rfl

/-- The descriptors of an SCM_RIGHTS set. -/
def Cmsg.carried : Cmsg → List Int
  | .rights fds => fds.map fun fd => (fd.val : Int)
  | _ => []

/-- The descriptors sent along with a receive's bytes, in order: 253 at most, which is
all the kernel lets a message carry. -/
def Ancillary.carried (a : Ancillary) : List Int := (a.cmsgs.flatMap Cmsg.carried).take 253

/-- **A receive collects the descriptors sent along with it**, in their order. -/
theorem Ancillary.collects (a : Ancillary) :
    (dbusSysParseRights (a.bytes.take 1032)).1 = a.carried := by
  have found : rightsOf (a.cmsgs.flatMap Cmsg.entries) = a.cmsgs.flatMap Cmsg.carried := by
    induction a.cmsgs with
    | nil => rfl
    | cons c cs ih =>
      have here : rightsOf c.entries = c.carried := by
        cases c with
        | rights fds =>
          rw [rightsOf, Cmsg.entries, List.filter_eq_self.mpr (by simp), List.map_map]
          rfl
        | creds data => rfl
        | pidfd fd => rfl
      have split : rightsOf (c.entries ++ cs.flatMap Cmsg.entries) =
          rightsOf c.entries ++ rightsOf (cs.flatMap Cmsg.entries) := by simp [rightsOf]
      rw [List.flatMap_cons, List.flatMap_cons, split, here, ih]
  rw [a.parsed, (rxAdd_fold (a.cmsgs.flatMap Cmsg.entries) ([], []) (by decide)).1, found]
  rfl

end Samvada
