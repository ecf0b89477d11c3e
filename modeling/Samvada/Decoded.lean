import Samvada.Native

/- What a message says does not depend on what the decoder was left with: each
   reading of the session layer, over the decoder's state, answers what the
   message in its extent says. -/
namespace Samvada
open Octets Resumable

namespace Decode

/-- What is made of a text, or `bad` where there is none. -/
def textOr {β : Type} (bad : β) (good : Nat → Nat → β) : Except UnmarshalErr (Nat × Nat) → β
  | .error _ => bad
  | .ok (at_, n) => good at_ n

@[simp] theorem textOr_error {β : Type} (bad : β) (good : Nat → Nat → β) (e : UnmarshalErr) :
    textOr bad good (.error e) = bad := rfl

@[simp] theorem textOr_ok {β : Type} (bad : β) (good : Nat → Nat → β) (at_ n : Nat) :
    textOr bad good (.ok (at_, n)) = good at_ n := rfl

theorem destOk_answers (r : Nat) (uniq p : Bytes) :
    Answers r (dbusSessionDestOk uniq p) (Samvada.dbusSessionDestOk uniq r p) := by
  refine Answers.ite (fun _ => Answers.pure true) fun _ => Answers.bind (Answers.findField p _) ?_
  match Samvada.dbusUnmarshalFindField r p dbusMarshalFDest with
  | .error .notfound => exact Answers.pure true
  | .error .malformed => exact Answers.pure false
  | .ok (off, _) =>
    refine Answers.strAt (f := fun n q => if n < 0 then false else loadN q 0 n.toNat == uniq)
      (g := textOr false fun at_ n => loadN p at_ n == uniq) (fun at_ n => ?_) fun n q e hn =>
      if_pos hn
    show (if (n : Int) < 0 then false else loadN (p.drop at_) 0 n == uniq) = _
    rw [textOr_ok, if_neg (by omega), loadN_drop]

theorem bodySigIs_answers (r : Nat) (p : Bytes) (s : String) :
    Answers r (dbsBodySigIs p s) (Samvada.dbsBodySigIs r p s) := by
  refine Answers.bind (Answers.findField p _) ?_
  unfold Samvada.dbsBodySigIs
  match Samvada.dbusUnmarshalFindField r p dbusMarshalFSignature with
  | .error .notfound => exact Answers.pure _
  | .error .malformed => exact Answers.pure false
  | .ok (off, _) =>
    exact Answers.sigAt (f := fun n q => dbsNameIs q n s)
      (g := textOr false fun at_ n => dbsNameIs (p.drop at_) n s) (fun _ _ => rfl) fun n q e hn =>
      dbsNameIs_neg hn q s

theorem mine_answers (r : Nat) (uniq : Bytes) (serial wm pos : Nat) (p : Bytes) :
    Answers r (dbusSessionMine uniq serial wm pos p)
    (Samvada.dbusSessionMine uniq serial wm pos r p) := by
  refine Answers.bind (Answers.validate p) ?_
  unfold Samvada.dbusSessionMine
  cases Samvada.dbusUnmarshalValidate r p with
  | false => exact Answers.pure false
  | true =>
    refine Answers.bind (Answers.findField p _) ?_
    match Samvada.dbusUnmarshalFindField r p dbusMarshalFReplyser with
    | .error _ => exact Answers.pure false
    | .ok (off, _) =>
      show Answers r (if load32 p off ≠ serial then _ else if pos < wm then _ else _)
        (true && (load32 p off == serial) && !decide (pos < wm) && _)
      by_cases hs : load32 p off = serial
      · by_cases hp : pos < wm
        · simpa [hs, hp] using Answers.pure (r := r) false
        · simpa [hs, hp] using destOk_answers r uniq p
      · rw [if_pos hs, beq_false_of_ne hs]
        exact Answers.pure false

/-- The errno of an ERROR by the text of its name. -/
def errnoOf (p : Bytes) : Except UnmarshalErr (Nat × Nat) → Int
  | .ok (at_, n) => dbusSessionMapError (p.drop at_) n
  | .error _ => dbusSessionMapError [] (-1)

theorem errorOf_answers (r : Nat) (p : Bytes) :
    Answers r (dbusSessionErrorOf p) (Samvada.dbusSessionErrorOf r p) := by
  refine Answers.bind (Answers.findField p _) ?_
  unfold Samvada.dbusSessionErrorOf
  match Samvada.dbusUnmarshalFindField r p dbusMarshalFErrname with
  | .error _ => exact Answers.pure _
  | .ok (off, _) =>
    refine Answers.strAt (f := fun n q => dbusSessionMapError q n) (g := errnoOf p) (fun _ _ => rfl)
      fun n q e hn => ?_
    rw [dbusSessionMapError_short hn]
    exact (dbusSessionMapError_short (by decide) []).symm

/-- Whatever the decoder was left with, the verdict is the message's. -/
theorem verdict_eq (uniq : Bytes) (serial wm pos r : Nat) (p : Bytes) (d : Decoder) :
    (dbusSessionVerdict uniq serial wm pos r p d).1 = Samvada.dbusSessionVerdict uniq serial
    wm pos r p := by
  refine Answers.limited (Answers.bind (mine_answers r uniq serial wm pos p) ?_) d
  unfold Samvada.dbusSessionVerdict
  refine Answers.ite (fun _ => Answers.ite (fun _ => Answers.pure _) fun _ =>
    Answers.ite (fun _ => ?_) fun _ => Answers.pure _)
    fun _ => Answers.pure _
  exact Answers.bind (errorOf_answers r p) (Answers.pure _)

theorem helloName_eq (hlen : Nat) (p : Bytes) (d : Decoder) :
    (dbsHelloName hlen p d).1 = Samvada.dbsHelloName hlen p := by
  refine Answers.limited (Answers.bind (bodySigIs_answers hlen p "s") ?_) d
  refine Answers.firstStr (f := fun n q => if Samvada.dbsBodySigIs hlen p "s" && decide (2 ≤ n) &&
    load8 q 0 == 58 &&
      dbuNoNul q n.toNat then some (q, n.toNat) else none)
    (g := textOr none fun at_ n => if Samvada.dbsBodySigIs hlen p "s" && decide (2 ≤ n) &&
    load8 p at_ == 58 &&
      dbuNoNul (p.drop at_) n then some (p.drop at_, n)
      else none) (fun at_ n => ?_) fun n q e hn => ?_
  · show (if Samvada.dbsBodySigIs hlen p "s" && decide (2 ≤ (n : Int)) && load8 (p.drop at_) 0 == 58
      && dbuNoNul (p.drop at_) n then some (p.drop at_, n) else none) = _
    have two : decide (2 ≤ (n : Int)) = decide (2 ≤ n) := decide_eq_decide.mpr (by omega)
    rw [two, textOr_ok, load8_drop, Nat.add_zero]
  · have : ¬ 2 ≤ n := by omega
    simp [this]

theorem sessionPath_eq (limit : Nat) (p : Bytes) (d : Decoder) :
    (dbsSessionPath limit p d).1 = Samvada.dbsSessionPath limit p := by
  refine Answers.limited (Answers.bind (bodySigIs_answers limit p "o") ?_) d
  refine Answers.firstStr (f := fun n q => if n < 0 then none
      else if Samvada.dbsBodySigIs limit p "o" && dbusUnmarshalPathOk q n then
        some (q, n.toNat) else none)
    (g := textOr none fun at_ n => if Samvada.dbsBodySigIs limit p "o" &&
    dbusUnmarshalPathOk (p.drop at_) n
      then some (p.drop at_, n) else none)
    (fun at_ n => ?_) fun n q e hn => if_pos hn
  exact if_neg (by omega)

/-- The signature of a TakeDevice reply. -/
theorem takeSig_answers (r : Nat) (p : Bytes) :
    Answers r (dbsTakeSig p) (match Samvada.dbusUnmarshalFindField r p dbusMarshalFSignature with
      | .error _ => false
      | .ok (off, _) => match Samvada.dbusUnmarshalSigAt r p off with
        | .error _ => false
        | .ok (at_, n) => dbsNameIs (p.drop at_) n "hb") := by
  refine Answers.bind (Answers.findField p _) ?_
  match Samvada.dbusUnmarshalFindField r p dbusMarshalFSignature with
  | .error _ => exact Answers.pure false
  | .ok (off, _) =>
    exact Answers.sigAt (f := fun n q => dbsNameIs q n "hb") (g := fun x => match x with
      | .error _ => false
      | .ok (at_, n) =>
        dbsNameIs (p.drop at_) n "hb") (fun _ _ => rfl) fun n q e hn => dbsNameIs_neg hn q "hb"

theorem takeReply_eq (limit : Nat) (p : Bytes) (f : Frame) (d : Decoder) :
    (dbsTakeReply limit p f d).1 = Samvada.dbsTakeReply limit p f := by
  refine Answers.limited
    (Answers.bind (takeSig_answers limit p) (Answers.bind (Answers.findField p _) ?_)) d
  intro e he
  subst he
  exact ⟨rfl, rfl⟩

end Decode

/-- A reading that answers `f` of the world changes the decoder and nothing else. -/
theorem decode_run {α : Type} {x : World → Decode α} {f : World → α}
    (h : ∀ w d, (x w d).1 = f w) (w : World) : ∃ d, decode x w = .done (f w)
    { w with dbu := d } := by
  refine ⟨(x w w.dbu).2, ?_⟩
  rw [← h w w.dbu]
  rfl

/-- What does not look at the decoder holds after a reading. -/
theorem decode_spec {α : Type} {x : World → Decode α} {P W : World → Prop}
    (h : ∀ w d, P w → P { w with dbu := d }) : Spec P (decode x) (fun _ => P) W :=
  Spec.modifyGet fun w hw => h w _ hw

end Samvada
