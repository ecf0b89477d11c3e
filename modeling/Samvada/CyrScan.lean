import Mathlib.Data.List.Forall2
import Mathlib.Data.List.Nodup
import Mathlib.Data.List.Perm.Subperm
import Samvada.Lib.Brackets
import Samvada.Lib.Pattern

/- The declaration parser of the surface gate (`tools/cyr_scan.py`), on a text whose
   comments and strings are blanked. It finds declarations with one pattern, counts
   the `fn` and the `pub` tokens with two others, and returns only if the counts
   agree; then no token is left over. -/
namespace Samvada
namespace CyrScan
open Patterns Brackets

/-! ## The patterns -/

/-- A character of the range `[a-b]`. -/
def inRange (a b c : Char) : Bool := a.toNat ≤ c.toNat && c.toNat ≤ b.toNat

/-- `[A-Za-z_]` -/
def isIdentStart (c : Char) : Bool := inRange 'A' 'Z' c || inRange 'a' 'z' c || c == '_'

/-- `[A-Za-z0-9_]` -/
def isWord (c : Char) : Bool := isIdentStart c || inRange '0' '9' c

/-- `[A-Za-z0-9_&.]` -/
def isHeadStop (c : Char) : Bool := isWord c || c == '&' || c == '.'

/-- `\s`: white space, as Unicode has it. -/
def isSpace (c : Char) : Bool :=
  let n := c.toNat
  (9 ≤ n && n ≤ 13) || (28 ≤ n && n ≤ 32) || n == 133 || n == 160 || n == 5760 ||
    (8192 ≤ n && n ≤ 8202) || n == 8232 || n == 8233 || n == 8239 || n == 8287 || n == 12288

def ident : Pattern Char := .seq (.one isIdentStart) (.many isWord)

def pub : Pattern Char := .alt (.text ['p', 'u', 'b']) (.text ['p', 'u', 'b', 'l', 'i', 'c'])

/-- `\s+` -/
def spaces : Pattern Char := .seq (.one isSpace) (.many isSpace)

def fnHead : Pattern Char :=
  .seq (.notAfter isHeadStop)
    (.seq (.opt (.group 1 (.seq pub spaces))) (.seq (.text ['f', 'n']) (.seq spaces
    (.seq (.group 2 ident) (.seq (.many isSpace) (.text ['(']))))))

def fnToken : Pattern Char :=
  .seq (.notAfter isHeadStop) (.seq (.text ['f', 'n']) (.notBefore isWord))

def publicToken : Pattern Char := .seq (.notAfter isWord) (.seq pub (.notBefore isWord))

/-! ## The parser -/

/-- The loop of `_close_paren`, from the place `j` with `depth` parentheses open. -/
def closeParenFrom : Int → Nat → List Char → Option Nat
  | _, _, [] => none
  | depth, j, c :: rest =>
    if c = '(' then closeParenFrom (depth + 1) (j + 1) rest
    else if c = ')' then
      if depth - 1 = 0 then some j else closeParenFrom (depth - 1) (j + 1) rest
    else closeParenFrom depth (j + 1) rest

/-- The place of the `)` that closes the `(` at `k`. -/
def closeParen (code : List Char) (k : Nat) : Option Nat := closeParenFrom 0 k (code.drop k)

structure FnDecl where
  isPublic : Bool
  name : List Char
  args : List Char
  deriving DecidableEq, Repr

/-- One round of the loop of `fn_decls`: the declaration whose head is `m`. -/
def fnDecl (code : List Char) (m : Found) : Except String FnDecl :=
  let k := m.stop - 1
  let name := (m.group code 2).getD []
  match closeParen code k with
  | none => .error ("fn " ++ String.ofList name ++ ": unbalanced parameter list")
  | some e => .ok ⟨(m.group code 1).getD [] ≠ [], name, (code.drop (k + 1)).take (e - (k + 1))⟩

/-- Every `fn` declaration of the text, or why it cannot tell. -/
def fnDecls (code : List Char) : Except String (List FnDecl) := do
  let decls ← (fnHead.finditer code).mapM (fnDecl code)
  let nfn := (fnToken.finditer code).length
  let npub := (publicToken.finditer code).length
  let nmarked := decls.countP (·.isPublic)
  if nfn ≠ decls.length then
    .error (toString nfn ++ " `fn` tokens but " ++ toString decls.length ++
      " parsed declarations — a declaration form the gate does not understand")
  else if npub ≠ nmarked then
    .error (toString npub ++ " `pub`/`public` tokens but " ++ toString nmarked ++
      " `public fn` declarations — something other than a fn is marked public")
  else .ok decls

/-! ## What is written -/

/-- An `fn` token stands at `i`. -/
def FnToken (code : List Char) (i : Nat) : Prop :=
  (before code i).any isHeadStop = false ∧ Stands code i ['f', 'n'] (i + 2) ∧
    (code[i + 2]?).any isWord = false

/-- The two spellings of the public token. -/
def marks : List (List Char) := [['p', 'u', 'b'], ['p', 'u', 'b', 'l', 'i', 'c']]

/-- The token `w` stands at `i`. -/
def PubWord (code : List Char) (i : Nat) (w : List Char) : Prop :=
  (before code i).any isWord = false ∧ Stands code i w (i + w.length) ∧
    (code[i + w.length]?).any isWord = false

/-- A `pub` or `public` token stands at `i`. -/
def PubToken (code : List Char) (i : Nat) : Prop := ∃ w ∈ marks, PubWord code i w

/-- The `pub` or `public` at `i` marks what stands at `j`: only white space is between. -/
def Marks (code : List Char) (i j : Nat) : Prop :=
  ∃ w ∈ marks, ∃ gap, gap ≠ [] ∧ (∀ c ∈ gap, isSpace c = true) ∧ Stands code i (w ++ gap) j

/-- A name: `[A-Za-z_][A-Za-z0-9_]*`. -/
def IsIdent (s : List Char) : Prop :=
  ∃ c rest, s = c :: rest ∧ isIdentStart c = true ∧ ∀ x ∈ rest, isWord x = true

/-- The declaration written at the `fn` token at `j` is `d`. -/
structure Declares (code : List Char) (j : Nat) (d : FnDecl) : Prop where
  name : IsIdent d.name
  args : Balanced '(' ')' d.args
  text : ∃ gap gap' e, gap ≠ [] ∧ (∀ c ∈ gap, isSpace c = true) ∧ (∀ c ∈ gap', isSpace c = true) ∧
    Stands code j (['f', 'n'] ++ gap ++ d.name ++ gap' ++ '(' :: d.args ++ [')']) e
  marked : d.isPublic = true ↔ ∃ i, PubToken code i ∧ Marks code i j

instance (t s : List Char) (i j : Nat) : Decidable (Stands t i s j) :=
  inferInstanceAs (Decidable (_ ∧ _))

instance (code : List Char) (i : Nat) : Decidable (FnToken code i) :=
  inferInstanceAs (Decidable (_ ∧ _ ∧ _))

instance (code : List Char) (i : Nat) (w : List Char) : Decidable (PubWord code i w) :=
  inferInstanceAs (Decidable (_ ∧ _ ∧ _))

instance (code : List Char) (i : Nat) : Decidable (PubToken code i) :=
  inferInstanceAs (Decidable (∃ w ∈ marks, PubWord code i w))

/-- Where the `fn` tokens stand, from the left. -/
def fnTokens (code : List Char) : List Nat :=
  (List.range (code.length + 1)).filter fun i => FnToken code i

/-- Where the `pub` and `public` tokens stand. -/
def pubTokens (code : List Char) : List Nat :=
  (List.range (code.length + 1)).filter fun i => PubToken code i

/-! ## Characters -/

theorem inRange_iff {a b c : Char} : inRange a b c = true ↔ a.toNat ≤ c.toNat ∧
    c.toNat ≤ b.toNat := by
  rw [inRange, Bool.and_eq_true, decide_eq_true_eq, decide_eq_true_eq]

theorem isWord_headStop {c : Char} (h : isWord c = true) : isHeadStop c = true := by
  rw [isHeadStop, h]
  rfl

/-- White space stops a word, and comes before any token. -/
theorem isSpace_stop {c : Char} (h : isSpace c = true) : isHeadStop c = false := by
  cases hs : isHeadStop c with
  | false => rfl
  | true =>
    have consts : ('A' : Char).toNat = 65 ∧ ('Z' : Char).toNat = 90 ∧ ('a' : Char).toNat = 97 ∧
      ('z' : Char).toNat = 122 ∧
        ('0' : Char).toNat = 48 ∧ ('9' : Char).toNat = 57 ∧ ('_' : Char).toNat = 95 ∧
        ('&' : Char).toNat = 38 ∧ ('.' : Char).toNat = 46 := by decide
    simp only [isHeadStop, isWord, isIdentStart, Bool.or_eq_true, inRange_iff, beq_iff_eq,
      ← Char.toNat_inj, consts] at hs
    simp only [isSpace, Bool.or_eq_true, Bool.and_eq_true, decide_eq_true_eq, beq_iff_eq] at h
    omega

theorem isSpace_word {c : Char} (h : isSpace c = true) : isWord c = false := by
  cases hw : isWord c with
  | false => rfl
  | true => exact absurd ((isSpace_stop h).symm.trans (isWord_headStop hw)) (by decide)

/-- What is no stop is no word character. -/
theorem any_word {o : Option Char} (h : o.any isHeadStop = false) : o.any isWord = false := by
  cases o with
  | none => rfl
  | some c =>
    cases hw : isWord c with
    | false => exact hw
    | true => exact absurd (h.symm.trans (isWord_headStop hw)) (by decide)

theorem isIdentStart_word {c : Char} (h : isIdentStart c = true) : isWord c = true := by
  rw [isWord, h]
  rfl

/-! ## Tokens -/

theorem mem_fnToken {code : List Char} {i j : Nat} {g : Groups} :
    (j, g) ∈ Pattern.run code fnToken i ↔ FnToken code i ∧ j = i + 2 ∧ g = [] := by
  simp only [fnToken, Pattern.mem_seq, Pattern.mem_notAfter, Pattern.mem_text,
    Pattern.mem_notBefore, FnToken]
  constructor
  · rintro ⟨k, g₁, g₂, ⟨hb, rfl, rfl⟩, ⟨l, g₃, g₄, ⟨hs, rfl⟩, ⟨ha, rfl, rfl⟩, rfl⟩, rfl⟩
    have e := hs.2
    subst e
    exact ⟨⟨hb, hs, ha⟩, rfl, rfl⟩
  · rintro ⟨⟨hb, hs, ha⟩, rfl, rfl⟩
    exact ⟨i, [], [], ⟨hb, rfl, rfl⟩, ⟨i + 2, [], [], ⟨hs, rfl⟩, ⟨ha, rfl, rfl⟩, rfl⟩, rfl⟩

theorem mem_pub {code : List Char} {i j : Nat} {g : Groups} :
    (j, g) ∈ Pattern.run code pub i ↔ ∃ w ∈ marks, Stands code i w j ∧ g = [] := by
  simp only [pub, Pattern.mem_alt, Pattern.mem_text, marks, List.mem_cons, List.not_mem_nil,
    or_false, exists_eq_or_imp, exists_eq_left]

theorem mem_publicToken {code : List Char} {i j : Nat} {g : Groups} :
    (j, g) ∈ Pattern.run code publicToken i ↔ ∃ w ∈ marks, PubWord code i w ∧
    j = i + w.length ∧ g = [] := by
  simp only [publicToken, Pattern.mem_seq, Pattern.mem_notAfter, mem_pub,
    Pattern.mem_notBefore, PubWord]
  constructor
  · rintro ⟨k, g₁, g₂, ⟨hb, rfl, rfl⟩, ⟨l, g₃, g₄, ⟨w, hw, hs, rfl⟩, ⟨ha, rfl, rfl⟩, rfl⟩, rfl⟩
    have e := hs.2
    subst e
    exact ⟨w, hw, ⟨hb, hs, ha⟩, rfl, rfl⟩
  · rintro ⟨w, hw, ⟨hb, hs, ha⟩, rfl, rfl⟩
    exact ⟨i, [], [], ⟨hb, rfl, rfl⟩, ⟨i + w.length, [], [], ⟨w, hw, hs, rfl⟩, ⟨ha, rfl, rfl⟩, rfl⟩,
      rfl⟩

/-- No token starts inside a word that stands in the text. -/
theorem word_over {code w : List Char} {i j k : Nat} (h : Stands code i w j)
    (hw : ∀ c ∈ w, isWord c = true) (hk : i < k) (hb : (before code k).any isWord = false) :
    j ≤ k := by
  by_contra hlt
  have hj := h.2
  have inside : k - 1 - i < w.length := by omega
  have here := h.get inside
  have at_ : i + (k - 1 - i) = k - 1 := by omega
  rw [at_, List.getElem?_eq_getElem inside] at here
  rw [before, if_neg (by omega), here, Option.any_some, hw _ (List.getElem_mem inside)] at hb
  cases hb

theorem fn_word : ∀ c ∈ ['f', 'n'], isWord c = true := by
  simp only [List.mem_cons, List.not_mem_nil, or_false, forall_eq_or_imp, forall_eq]
  exact ⟨rfl, rfl⟩

theorem marks_word : ∀ w ∈ marks, ∀ c ∈ w, isWord c = true := fun w hw =>
  List.all_eq_true.mp (List.all_eq_true.mp (rfl : marks.all (·.all isWord) = true) w hw)

/-- The search for `fn` tokens finds every one. -/
theorem fnToken_finditer (code : List Char) : (fnToken.finditer code).map
    Found.start = fnTokens code := by
  have isSome (i : Nat) : (fnToken.found code i).isSome = true ↔ FnToken code i := by
    rw [Pattern.found_isSome]
    constructor
    · rintro ⟨j, g, h⟩
      exact (mem_fnToken.mp h).1
    · intro h
      exact ⟨i + 2, [], mem_fnToken.mpr ⟨h, rfl, rfl⟩⟩
  rw [Pattern.finditer_all, fnTokens]
  · refine List.filter_congr fun i _ => ?_
    rw [Bool.eq_iff_iff, isSome, decide_eq_true_eq]
  · intro i j m hm hlt hj
    obtain ⟨here, stop, -⟩ := mem_fnToken.mp (Pattern.found_some hm).2
    rw [stop]
    exact word_over here.2.1 fn_word hlt (any_word ((isSome j).mp hj).1)

theorem publicToken_finditer (code : List Char) : (publicToken.finditer code).map
    Found.start = pubTokens code := by
  have isSome (i : Nat) : (publicToken.found code i).isSome = true ↔ PubToken code i := by
    rw [Pattern.found_isSome]
    constructor
    · rintro ⟨j, g, h⟩
      obtain ⟨w, hw, here, -⟩ := mem_publicToken.mp h
      exact ⟨w, hw, here⟩
    · rintro ⟨w, hw, here⟩
      exact ⟨i + w.length, [], mem_publicToken.mpr ⟨w, hw, here, rfl, rfl⟩⟩
  rw [Pattern.finditer_all, pubTokens]
  · refine List.filter_congr fun i _ => ?_
    rw [Bool.eq_iff_iff, isSome, decide_eq_true_eq]
  · intro i j m hm hlt hj
    obtain ⟨w, hw, here, stop, -⟩ := mem_publicToken.mp (Pattern.found_some hm).2
    obtain ⟨w', -, there⟩ := (isSome j).mp hj
    rw [stop]
    exact word_over here.2.1 (marks_word w hw) hlt there.1

/-! ## Heads -/

/-- Where the `fn` of a head stands: after the mark, if there is one. -/
def fnAt (m : Found) : Nat := (m.span 1).elim m.start Prod.snd

theorem mem_spaces {code : List Char} {i j : Nat} {g : Groups} :
    (j, g) ∈ Pattern.run code spaces i ↔ ∃ gap, gap ≠ [] ∧ (∀ c ∈ gap, isSpace c = true) ∧
    Stands code i gap j ∧ g = [] := by
  simp only [spaces, Pattern.mem_seq, Pattern.mem_one, Pattern.mem_many]
  constructor
  · rintro ⟨k, g₁, g₂, ⟨c, hc, h, rfl⟩, ⟨s, hs, h', rfl⟩, rfl⟩
    refine ⟨c :: s, List.cons_ne_nil c s, fun x hx => ?_, h.append h', rfl⟩
    rcases List.mem_cons.mp hx with rfl | hx
    · exact hc
    · exact hs x hx
  · rintro ⟨gap, hne, hs, h, rfl⟩
    obtain ⟨c, s, rfl⟩ := List.exists_cons_of_ne_nil hne
    obtain ⟨first, rest⟩ := Stands.left (s := [c]) h
    exact ⟨i + 1, [], [], ⟨c, hs c List.mem_cons_self, first, rfl⟩,
      ⟨s, fun x hx => hs x (List.mem_cons_of_mem _ hx), rest, rfl⟩, rfl⟩

theorem mem_ident {code : List Char} {i j : Nat} {g : Groups} : (j, g) ∈ Pattern.run code ident i ↔
    ∃ s, IsIdent s ∧ Stands code i s j ∧ g = [] := by
  simp only [ident, Pattern.mem_seq, Pattern.mem_one, Pattern.mem_many]
  constructor
  · rintro ⟨k, g₁, g₂, ⟨c, hc, h, rfl⟩, ⟨s, hs, h', rfl⟩, rfl⟩
    exact ⟨c :: s, ⟨c, s, rfl, hc, hs⟩, h.append h', rfl⟩
  · rintro ⟨s, ⟨c, rest, rfl, hc, hr⟩, h, rfl⟩
    obtain ⟨first, after⟩ := Stands.left (s := [c]) h
    exact ⟨i + 1, [], [], ⟨c, hc, first, rfl⟩, ⟨rest, hr, after, rfl⟩, rfl⟩

/-- What a head's match says: the mark, the `fn` token, the name, and the `(` it ends in. -/
structure HeadOf (code : List Char) (m : Found) (name : List Char) : Prop where
  le : m.start ≤ fnAt m
  lt : fnAt m < m.stop
  token : FnToken code (fnAt m)
  named : m.group code 2 = some name ∧ IsIdent name
  text : ∃ gap gap', gap ≠ [] ∧ (∀ c ∈ gap, isSpace c = true) ∧ (∀ c ∈ gap', isSpace c = true) ∧
    Stands code (fnAt m) (['f', 'n'] ++ gap ++ name ++ gap' ++ ['(']) m.stop
  mark : m.group code 1 = none ∨
    ∃ w, m.group code 1 = some w ∧ w ≠ [] ∧ PubToken code m.start ∧ Marks code m.start (fnAt m)

theorem group_stands {code s : List Char} {m : Found} {n i j : Nat} (hs : m.span n = some (i, j))
    (h : Stands code i s j) : m.group code n = some s := by
  have len : j - i = s.length := by
    have := h.2
    omega
  rw [Found.group, hs, Option.map_some, h.1, len, List.take_left]

/-- The character after what stands, where a gap follows it. -/
theorem gap_next {code gap : List Char} {i j : Nat} (h : Stands code i gap j) (hne : gap ≠ [])
    (hs : ∀ c ∈ gap, isSpace c = true) : (code[i]?).any isWord = false := by
  obtain ⟨c, rest, rfl⟩ := List.exists_cons_of_ne_nil hne
  rw [h.head, Option.any_some]
  exact isSpace_word (hs c List.mem_cons_self)

theorem gap_before {code gap : List Char} {i j : Nat} (h : Stands code i gap j) (hne : gap ≠ [])
    (hs : ∀ c ∈ gap, isSpace c = true) : (before code j).any isHeadStop = false := by
  obtain ⟨init, c, rfl⟩ : ∃ init c, gap = init ++ [c] :=
    ⟨_, _, (List.dropLast_append_getLast hne).symm⟩
  rw [h.before, Option.any_some]
  exact isSpace_stop (hs c (by simp))

theorem head_of_mem {code : List Char} {m : Found} (h : m ∈ fnHead.finditer code) :
    ∃ name, HeadOf code m name := by
  have run := Pattern.mem_finditer h
  simp only [fnHead, Pattern.mem_seq, Pattern.mem_notAfter, Pattern.mem_opt, Pattern.mem_group,
    Pattern.mem_text, Pattern.mem_many, mem_spaces, mem_ident, mem_pub] at run
  obtain ⟨i, g₁, g₂, ⟨hb, rfl, rfl⟩,
    ⟨j, g₃, g₄, hopt, ⟨k, g₅, g₆, ⟨hfn, rfl⟩, ⟨l, g₇, g₈, ⟨gap, hgne, hgs, hgap, rfl⟩,
    ⟨n, g₉, g₁₀, ⟨g₁₁, ⟨name, hid, hname, rfl⟩, rfl⟩,
    ⟨e, g₁₂, g₁₃, ⟨gap', hgs', hgap', rfl⟩, ⟨hpar, rfl⟩, rfl⟩, rfl⟩, rfl⟩, rfl⟩, rfl⟩, hg⟩ := run
  simp only [List.nil_append, List.append_nil, List.cons_append] at hg
  have next := gap_next hgap hgne hgs
  have hk : k = j + 2 := hfn.2
  have span2 : m.span 2 = some (l, n) := by
    rw [Found.span, hg]
    rfl
  have text : Stands code j (['f', 'n'] ++ gap ++ name ++ gap' ++ ['(']) m.stop :=
    (((hfn.append hgap).append hname).append hgap').append hpar
  have longer : j < m.stop := by
    have := text.2
    simp only [List.length_append, List.length_cons, List.length_nil] at this
    omega
  rw [hk] at hfn next
  rcases hopt with ⟨g', ⟨p, g₁₄, g₁₅, ⟨w, hw, hword, rfl⟩, ⟨gapw, hwne, hws, hgapw, rfl⟩, rfl⟩,
    rfl⟩ | ⟨rfl, rfl⟩
  · -- the mark is there
    have span1 : m.span 1 = some (m.start, j) := by
      rw [Found.span, hg]
      rfl
    have at_ : fnAt m = j := by rw [fnAt, span1]; rfl
    have whole := hword.append hgapw
    have hp : p = m.start + w.length := hword.2
    have nextw := gap_next hgapw hwne hws
    rw [hp] at hword nextw
    refine ⟨name, ?_, at_.symm ▸ longer, at_.symm ▸ ⟨gap_before hgapw hwne hws, hfn, next⟩,
      ⟨group_stands span2 hname, hid⟩,
      ⟨gap, gap', hgne, hgs, hgs', at_.symm ▸ text⟩,
      .inr ⟨w ++ gapw, group_stands span1 whole, ?_, ?_, ?_⟩⟩
    · rw [at_, whole.2]
      omega
    · exact List.append_ne_nil_of_right_ne_nil w hwne
    · exact ⟨w, hw, any_word hb, hword, nextw⟩
    · exact ⟨w, hw, gapw, hwne, hws, at_.symm ▸ whole⟩
  · have span1 : m.span 1 = none := by
      rw [Found.span, hg]
      rfl
    have at_ : fnAt m = m.start := by rw [fnAt, span1]; rfl
    refine ⟨name, at_.ge, at_.symm ▸ longer, at_.symm ▸ ⟨hb, hfn, next⟩,
      ⟨group_stands span2 hname, hid⟩, ⟨gap, gap', hgne, hgs, hgs', at_.symm ▸ text⟩, .inl ?_⟩
    rw [Found.group, span1, Option.map_none]

/-! ## Declarations -/

/-- With `d + 1` parentheses open, the loop stops at the `)` after a text that leaves `d` to close.
-/
theorem closeParenFrom_some {d j e : Nat} {s : List Char}
    (h : closeParenFrom (d + 1) j s = some e) : ∃ args rest, s = args ++ ')' :: rest ∧
    e = j + args.length ∧ Closes '(' ')' d args := by
  induction s generalizing d j with
  | nil => cases h
  | cons c s ih =>
    rw [closeParenFrom] at h
    split_ifs at h with hopen hclose hzero
    · obtain ⟨args, rest, rfl, rfl, closes⟩ := ih (d := d + 1) h
      refine ⟨c :: args, rest, rfl, by simp only [List.length_cons]; omega, ?_⟩
      rw [hopen]
      exact closes.open_
    · obtain rfl : d = 0 := by omega
      cases h
      exact ⟨[], s, by rw [hclose]; rfl, rfl, .last .nil⟩
    · obtain ⟨d, rfl⟩ := Nat.exists_eq_succ_of_ne_zero (show d ≠ 0 by omega)
      have depth : ((d + 1 : Nat) : Int) + 1 - 1 = d + 1 := by omega
      rw [Nat.succ_eq_add_one, depth] at h
      obtain ⟨args, rest, rfl, rfl, closes⟩ := ih h
      refine ⟨c :: args, rest, rfl, by simp only [List.length_cons]; omega, ?_⟩
      rw [hclose]
      exact closes.close
    · obtain ⟨args, rest, rfl, rfl, closes⟩ := ih h
      exact ⟨c :: args, rest, rfl, by
        simp only [List.length_cons]; omega, closes.other hopen hclose⟩

/-- The parenthesis that closes the one at `k` is after the balanced text that follows it. -/
theorem closeParen_some {code : List Char} {k e : Nat} (hk : Stands code k ['('] (k + 1))
    (h : closeParen code k = some e) : Balanced '(' ')' ((code.drop (k + 1)).take (e - (k + 1))) ∧
      Stands code (k + 1) ((code.drop (k + 1)).take (e - (k + 1)) ++ [')']) (e + 1) := by
  rw [closeParen, hk.1, List.singleton_append, closeParenFrom, if_pos rfl] at h
  obtain ⟨args, rest, hs, rfl, closes⟩ := closeParenFrom_some (d := 0) h
  have len : k + 1 + args.length - (k + 1) = args.length := by omega
  rw [len, hs, List.take_left]
  refine ⟨closes.balanced, stands_iff.mpr ⟨⟨rest, ?_⟩, ?_⟩⟩
  · rw [hs, List.append_assoc]
    rfl
  · rw [List.length_append, List.length_singleton, Nat.add_assoc]

/-- The declaration made of a head. -/
theorem fnDecl_ok {code name : List Char} {m : Found} {d : FnDecl} (hm : HeadOf code m name)
    (h : fnDecl code m = .ok d) : d.name = name ∧ Balanced '(' ')' d.args ∧
    (d.isPublic = true ↔ m.group code 1 ≠ none) ∧
      ∃ e, Stands code m.stop (d.args ++ [')']) e := by
  have marked : ((m.group code 1).getD [] ≠ []) ↔ m.group code 1 ≠ none := by
    rcases hm.mark with none | ⟨w, mark, hne, -⟩
    · simp [none]
    · simp [mark, hne]
  have paren : Stands code (m.stop - 1) ['('] (m.stop - 1 + 1) := by
    obtain ⟨gap, gap', -, -, -, text⟩ := hm.text
    have last := text.left.2
    have hlt := hm.lt
    have hstop := last.2
    rw [List.length_singleton] at hstop
    have at_ : m.stop - 1 = fnAt m + (['f', 'n'] ++ gap ++ name ++ gap').length := by omega
    rw [at_, ← hstop]
    exact last
  have hlt := hm.lt
  have stop : m.stop - 1 + 1 = m.stop := by omega
  unfold fnDecl at h
  dsimp only at h
  cases hclose : closeParen code (m.stop - 1) with
  | none =>
    rw [hclose] at h
    cases h
  | some e =>
    rw [hclose] at h
    cases h
    obtain ⟨balanced, args⟩ := closeParen_some paren hclose
    rw [stop] at balanced args
    rw [stop]
    exact ⟨by rw [hm.named.1]; rfl, balanced, (decide_eq_true_iff).trans marked, e + 1, args⟩

theorem mapM_forall₂ {α β : Type} {f : α → Except String β} : ∀ {l : List α} {l' : List β},
    l.mapM f = .ok l' → List.Forall₂ (fun a b => f a = .ok b) l l'
  | [], l', h => by
    cases h
    exact .nil
  | a :: l, l', h => by
    rw [List.mapM_cons] at h
    cases ha : f a with
    | error e =>
      rw [ha] at h
      cases h
    | ok b =>
      cases hl : l.mapM f with
      | error e =>
        rw [ha, hl] at h
        cases h
      | ok bs =>
        rw [ha, hl] at h
        cases h
        exact .cons ha (mapM_forall₂ hl)

/-- What is returned is one declaration a head, as many as tokens. -/
theorem fnDecls_ok {code : List Char} {decls : List FnDecl} (h : fnDecls code = .ok decls) :
    List.Forall₂ (fun m d => fnDecl code m = .ok d) (fnHead.finditer code) decls ∧
    (fnTokens code).length = decls.length ∧
      (pubTokens code).length = decls.countP (·.isPublic) := by
  rw [← fnToken_finditer, ← publicToken_finditer, List.length_map, List.length_map]
  unfold fnDecls at h
  cases hm : (fnHead.finditer code).mapM (fnDecl code) with
  | error e =>
    rw [hm] at h
    cases h
  | ok ds =>
    rw [hm] at h
    dsimp only [bind, Except.bind] at h
    split_ifs at h with hfn hpub
    cases h
    exact ⟨mapM_forall₂ hm, not_not.mp hfn, not_not.mp hpub⟩

/-! ## Counting -/

/-- A sorted list inside one no longer is that list. -/
theorem sorted_eq {l l' : List Nat} (h : l.Pairwise (· < ·)) (h' : l'.Pairwise (· < ·))
    (sub : ∀ x ∈ l, x ∈ l') (len : l'.length ≤ l.length) : l = l' := by
  have nodup : l.Nodup := h.imp fun hlt => Nat.ne_of_lt hlt
  have perm := (List.subperm_of_subset nodup sub).perm_of_length_le len
  exact perm.eq_of_pairwise (fun a b _ _ hab hba => absurd hab (Nat.lt_asymm hba)) h h'

theorem forall₂_getElem? {α β : Type} {R : α → β → Prop} {l : List α} {l' : List β}
    (h : List.Forall₂ R l l') {k : Nat} {a : α} (hk : l[k]? = some a) :
    ∃ b, l'[k]? = some b ∧ R a b := by
  induction h generalizing k with
  | nil => cases hk
  | @cons a' b l l' hab hrest ih =>
    cases k with
    | zero =>
      cases hk
      exact ⟨b, rfl, hab⟩
    | succ k => exact ih hk

theorem forall₂_countP {α β : Type} {R : α → β → Prop} {p : α → Bool} {q : β → Bool}
    {l : List α} {l' : List β} (h : List.Forall₂ R l l') (hpq : ∀ a b, R a b → p a = q b) :
    l.countP p = l'.countP q := by
  induction h with
  | nil => rfl
  | cons hab _ ih => rw [List.countP_cons, List.countP_cons, ih, hpq _ _ hab]

/-- The `fn`s of the heads are in order. -/
theorem fnAt_sorted (code : List Char) : ((fnHead.finditer code).map fnAt).Pairwise (· < ·) := by
  rw [List.pairwise_map]
  refine (Pattern.finditer_apart fnHead code).imp_of_mem fun hm hm' apart => ?_
  obtain ⟨name, head⟩ := head_of_mem hm
  obtain ⟨name', head'⟩ := head_of_mem hm'
  have := head.lt
  have := head'.le
  omega

theorem start_sorted (code : List Char) :
    ((fnHead.finditer code).map Found.start).Pairwise (· < ·) := by
  rw [List.pairwise_map]
  refine (Pattern.finditer_apart fnHead code).imp_of_mem fun hm _ apart => ?_
  obtain ⟨name, head⟩ := head_of_mem hm
  have := head.lt
  have := head.le
  omega

theorem tokens_sorted (p : Nat → Prop) [DecidablePred p] (n : Nat) :
    ((List.range n).filter fun i => p i).Pairwise (· < ·) :=
  List.pairwise_lt_range.filter _

theorem mem_fnTokens {code : List Char} {i : Nat} : i ∈ fnTokens code ↔ FnToken code i := by
  rw [fnTokens, List.mem_filter, decide_eq_true_eq, and_iff_right_iff_imp]
  intro h
  have inside := h.2.1.head
  rw [List.mem_range]
  have := (List.getElem?_eq_some_iff.mp inside).1
  omega

theorem mem_pubTokens {code : List Char} {i : Nat} : i ∈ pubTokens code ↔ PubToken code i := by
  rw [pubTokens, List.mem_filter, decide_eq_true_eq, and_iff_right_iff_imp]
  rintro ⟨w, hw, h⟩
  have nonempty : ∀ w ∈ marks, 0 < w.length := by decide
  have inside := h.2.1.get (nonempty w hw)
  rw [List.getElem?_eq_getElem (nonempty w hw), Nat.add_zero] at inside
  rw [List.mem_range]
  have := (List.getElem?_eq_some_iff.mp inside).1
  omega

section
variable {code : List Char} {decls : List FnDecl} (h : fnDecls code = .ok decls)
include h

/-- **The count of the `fn` tokens leaves none over**: each is the one of a head. -/
theorem heads_tokens : (fnHead.finditer code).map fnAt = fnTokens code := by
  obtain ⟨made, count, -⟩ := fnDecls_ok h
  refine sorted_eq (fnAt_sorted code) (tokens_sorted _ _) (fun i hi => ?_) ?_
  · obtain ⟨m, hm, rfl⟩ := List.mem_map.mp hi
    obtain ⟨name, head⟩ := head_of_mem hm
    exact mem_fnTokens.mpr head.token
  · rw [count, List.length_map, made.length_eq]

/-- The declarations, each with its head. -/
theorem heads_decls : List.Forall₂ (fun m d => m ∈ fnHead.finditer code ∧ fnDecl code m = .ok d)
    (fnHead.finditer code) decls :=
  (List.forall₂_and_left _ _).mpr ⟨fun _ hm => hm, (fnDecls_ok h).1⟩

/-- **And so does the count of the `pub` tokens**: each starts a head that is marked. -/
theorem heads_marked : ((fnHead.finditer code).filter fun m => (m.group code 1).isSome).map
    Found.start = pubTokens code := by
  obtain ⟨-, -, count⟩ := fnDecls_ok h
  refine sorted_eq ?_ (tokens_sorted _ _) (fun i hi => ?_) ?_
  · have sorted := List.pairwise_map.mp (start_sorted code)
    exact List.pairwise_map.mpr (sorted.filter _)
  · obtain ⟨m, hm, rfl⟩ := List.mem_map.mp hi
    obtain ⟨hm, marked⟩ := List.mem_filter.mp hm
    obtain ⟨name, head⟩ := head_of_mem hm
    rcases head.mark with none | ⟨w, -, -, token, -⟩
    · rw [none] at marked
      cases marked
    · exact mem_pubTokens.mpr token
  · rw [count, List.length_map, ← List.countP_eq_length_filter]
    refine le_of_eq (forall₂_countP (heads_decls h) fun m d hmd => ?_).symm
    obtain ⟨name, head⟩ := head_of_mem hmd.1
    obtain ⟨-, -, marked, -⟩ := fnDecl_ok head hmd.2
    rw [Bool.eq_iff_iff, marked, Option.isSome_iff_ne_none]

/-- A `pub` token marks the declaration of a head. -/
theorem token_marks {i : Nat} (hi : PubToken code i) : ∃ m ∈ fnHead.finditer code,
    m.group code 1 ≠ none ∧ Marks code i (fnAt m) := by
  have token := mem_pubTokens.mpr hi
  rw [← heads_marked h] at token
  obtain ⟨m, hm, rfl⟩ := List.mem_map.mp token
  obtain ⟨hm, marked⟩ := List.mem_filter.mp hm
  rw [Option.isSome_iff_ne_none] at marked
  obtain ⟨name, head⟩ := head_of_mem hm
  rcases head.mark with none | ⟨w, -, -, -, marks⟩
  · exact absurd none marked
  · exact ⟨m, hm, marked, marks⟩

end

/-- The longest start of a text with a property is one only. -/
theorem span_unique {p : Char → Bool} {a a' r r' : List Char} (ha : ∀ c ∈ a, p c = true)
    (ha' : ∀ c ∈ a', p c = true)
    (hr : r.head?.any p = false) (hr' : r'.head?.any p = false) (e : a ++ r = a' ++ r') :
    a = a' := by
  have cut {s t : List Char} (hs : ∀ c ∈ s, p c = true) (ht : t.head?.any p = false) :
    (s ++ t).takeWhile p = s := by
    rw [List.takeWhile_append_of_pos hs]
    cases t with
    | nil => rw [List.takeWhile_nil, List.append_nil]
    | cons c t =>
      have hc : p c = false := ht
      rw [List.takeWhile_cons_of_neg (by simp [hc]), List.append_nil]
  rw [← cut ha hr, e, cut ha' hr']

/-- A gap of white space starts with no word character. -/
theorem gap_head {gap r : List Char} (hne : gap ≠ []) (hs : ∀ c ∈ gap, isSpace c = true) :
    (gap ++ r).head?.any isWord = false := by
  obtain ⟨c, rest, rfl⟩ := List.exists_cons_of_ne_nil hne
  exact isSpace_word (hs c List.mem_cons_self)

/-- What a token marks is one `fn` only. -/
theorem marks_unique {code : List Char} {i j j' : Nat} (h : Marks code i j) (h' : Marks code i j')
    (hj : FnToken code j) (hj' : FnToken code j') : j = j' := by
  obtain ⟨w, hw, gap, hne, hs, at_⟩ := h
  obtain ⟨w', hw', gap', hne', hs', at'⟩ := h'
  have e := at_.1.symm.trans at'.1
  rw [List.append_assoc, List.append_assoc] at e
  have same : w = w' :=
    span_unique (marks_word w hw) (marks_word w' hw') (gap_head hne hs) (gap_head hne' hs') e
  subst same
  have stop {k : Nat} (hk : FnToken code k) : (code.drop k).head?.any isSpace = false := by
    rw [List.head?_drop, hk.2.1.head]
    rfl
  have gaps : gap = gap' := span_unique hs hs' (stop hj) (stop hj') (List.append_cancel_left e)
  subst gaps
  rw [at_.2, at'.2]

/-- Only one declaration is written at a token. -/
theorem Declares.unique {code : List Char} {j : Nat} {d d' : FnDecl} (h : Declares code j d)
    (h' : Declares code j d') : d = d' := by
  obtain ⟨gap, gap₂, e, hne, hs, hs₂, text⟩ := h.text
  obtain ⟨gap', gap₂', e', hne', hs', hs₂', text'⟩ := h'.text
  have all := text.1.symm.trans text'.1
  simp only [List.append_assoc, List.cons_append, List.nil_append, List.cons.injEq, true_and] at all
  -- a name starts with no space and ends before one or a parenthesis
  have start {s r : List Char} (hid : IsIdent s) : (s ++ r).head?.any isSpace = false := by
    obtain ⟨c, rest, rfl, hc, -⟩ := hid
    cases hsp : isSpace c with
    | false => exact hsp
    | true => exact absurd ((isSpace_word hsp).symm.trans (isIdentStart_word hc)) (by decide)
  have word {s : List Char} (hid : IsIdent s) : ∀ c ∈ s, isWord c = true := by
    obtain ⟨c, rest, rfl, hc, hr⟩ := hid
    intro x hx
    rcases List.mem_cons.mp hx with rfl | hx
    · exact isIdentStart_word hc
    · exact hr x hx
  have stop {g r : List Char} (hg : ∀ c ∈ g, isSpace c = true) :
    (g ++ '(' :: r).head?.any isWord = false := by
    cases g with
    | nil => rfl
    | cons c g => exact isSpace_word (hg c List.mem_cons_self)
  obtain rfl := span_unique hs hs' (start h.name) (start h'.name) all
  have names := List.append_cancel_left all
  have name := span_unique (word h.name) (word h'.name) (stop hs₂) (stop hs₂') names
  rw [name] at names
  have gaps := List.append_cancel_left names
  obtain rfl := span_unique hs₂ hs₂' rfl rfl gaps
  have args :=
    (h.args.unique (by decide) h'.args (List.cons.inj (List.append_cancel_left gaps)).2).1
  have marked : d.isPublic = d'.isPublic := by rw [Bool.eq_iff_iff, h.marked, h'.marked]
  cases d
  cases d'
  cases name
  cases args
  cases marked
  rfl

/-- The declaration of a head is the one written at its `fn`. -/
theorem head_declares {code : List Char} {decls : List FnDecl} (h : fnDecls code = .ok decls)
    {m : Found} {d : FnDecl} (hm : m ∈ fnHead.finditer code) (hd : fnDecl code m = .ok d) :
    Declares code (fnAt m) d := by
  obtain ⟨name, head⟩ := head_of_mem hm
  obtain ⟨rfl, balanced, marked, e, args⟩ := fnDecl_ok head hd
  refine ⟨head.named.2, balanced, ?_, ?_⟩
  · obtain ⟨gap, gap', hne, hs, hs', text⟩ := head.text
    refine ⟨gap, gap', e, hne, hs, hs', ?_⟩
    have whole := text.append args
    simpa only [List.append_assoc, List.singleton_append, List.cons_append, List.nil_append]
      using whole
  · rw [marked]
    constructor
    · intro hne
      rcases head.mark with none | ⟨w, -, -, token, marks⟩
      · exact absurd none hne
      · exact ⟨m.start, token, marks⟩
    · rintro ⟨i, token, marks⟩
      obtain ⟨m', hm', hne, marks'⟩ := token_marks h token
      obtain ⟨name', head'⟩ := head_of_mem hm'
      have same := marks_unique marks' marks head'.token head.token
      have nodup : ((fnHead.finditer code).map fnAt).Nodup :=
        (fnAt_sorted code).imp fun hlt => Nat.ne_of_lt hlt
      rwa [← List.inj_on_of_nodup_map nodup hm' hm same]

/-- **The parser misses nothing it accepts.** If it returns, its declarations are, in
order, those written at the `fn` tokens of the text, one each, and every `pub` or
`public` token marks exactly one of them, which is public. -/
theorem fn_decls_exact (code : List Char) (decls : List FnDecl) (h : fnDecls code = .ok decls) :
    List.Forall₂ (Declares code) (fnTokens code) decls ∧
      ∀ i, PubToken code i → ∃! k : Nat, ∃ (j : Nat) (d : FnDecl), (fnTokens code)[k]? = some j ∧
      decls[k]? = some d ∧
        d.isPublic = true ∧ Marks code i j := by
  refine ⟨?_, fun i hi => ?_⟩
  · rw [← heads_tokens h, List.forall₂_map_left_iff]
    exact (heads_decls h).imp fun m d hmd => head_declares h hmd.1 hmd.2
  · obtain ⟨m, hm, hne, marks⟩ := token_marks h hi
    obtain ⟨name, head⟩ := head_of_mem hm
    obtain ⟨k, hk⟩ := List.mem_iff_getElem?.mp hm
    have fnAt_k : (fnTokens code)[k]? = some (fnAt m) := by
      rw [← heads_tokens h, List.getElem?_map, hk, Option.map_some]
    obtain ⟨d, hd, -, made⟩ := forall₂_getElem? (heads_decls h) hk
    obtain ⟨-, -, marked, -⟩ := fnDecl_ok head made
    refine ⟨k, ⟨fnAt m, d, fnAt_k, hd, marked.mpr hne, marks⟩, ?_⟩
    rintro k' ⟨j, d', hj, -, -, marks'⟩
    have token : FnToken code j := mem_fnTokens.mp (List.mem_of_getElem? hj)
    obtain rfl := marks_unique marks' marks token head.token
    have nodup : (fnTokens code).Nodup := (tokens_sorted _ _).imp fun hlt => Nat.ne_of_lt hlt
    exact (List.getElem?_inj (List.getElem?_eq_some_iff.mp hj).1 nodup).mp (hj.trans fnAt_k.symm)

/-- Two declarations on one line. -/
def twoDecls : List Char := "fn a() { } pub fn b(x) { f(x) }".toList

theorem fn_decls_exact_two : List.Forall₂ (Declares twoDecls) [0, 15]
    [⟨false, ['a'], []⟩, ⟨true, ['b'], ['x']⟩] ∧ ∃! k : Nat, ∃ (j : Nat) (d : FnDecl),
    (fnTokens twoDecls)[k]? = some j ∧
      [(⟨false, ['a'], []⟩ : FnDecl), ⟨true, ['b'], ['x']⟩][k]? = some d ∧ d.isPublic = true ∧
      Marks twoDecls 11 j := by
  have accepted : fnDecls twoDecls = .ok [⟨false, ['a'], []⟩, ⟨true, ['b'], ['x']⟩] := by
    decide +kernel
  have tokens : fnTokens twoDecls = [0, 15] := by decide +kernel
  have token : PubToken twoDecls 11 := by decide +kernel
  obtain ⟨written, marks⟩ := fn_decls_exact twoDecls _ accepted
  exact ⟨tokens ▸ written, marks 11 token⟩

end CyrScan
end Samvada
