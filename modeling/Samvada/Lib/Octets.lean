import Mathlib.Data.List.GetD
import Mathlib.Data.List.TakeWhile

/- Octet strings read and written by offset: fixed-width little- and
   big-endian words, padding to a power of two, C strings. A read past the end
   gives zero; what bounds the reads is proved where the reads are. -/
namespace Octets

abbrev Bytes := List UInt8

/-- The octet at `i`. -/
def load8 (p : Bytes) (i : Nat) : Nat := (p.getD i 0).toNat

/-- The little-endian word at `i`. -/
def load32 (p : Bytes) (i : Nat) : Nat :=
  load8 p i + 256 * load8 p (i + 1) + 65536 * load8 p (i + 2) + 16777216 * load8 p (i + 3)

/-- The big-endian word at `i`. -/
def load32be (p : Bytes) (i : Nat) : Nat :=
  16777216 * load8 p i + 65536 * load8 p (i + 1) + 256 * load8 p (i + 2) + load8 p (i + 3)

/-- The low octet of an integer, two's complement. -/
def low8 (v : Int) : UInt8 := UInt8.ofNat (v % 256).toNat

/-- A sum as a signed 64-bit word holds it. -/
def int64 (v : Int) : Int := (v + 9223372036854775808) % 18446744073709551616 - 9223372036854775808

/-- No block of memory is as long as this: sums with a length inside one do not wrap. -/
def memMax : Nat := 4611686018427387904

/-- The low 32 bits of an integer, little-endian. -/
def le32 (v : Int) : Bytes := [low8 v, low8 (v / 256), low8 (v / 65536), low8 (v / 16777216)]

/-- `n` octets from `i`, reading zero past the end. -/
def loadN (p : Bytes) (i n : Nat) : Bytes := (List.range n).map fun j => p.getD (i + j) 0

/-- `n` padded up to a multiple of `a`. -/
def align (n a : Nat) : Nat := (n + a - 1) / a * a

/-- The length of the C string at `p`. -/
def strlen (p : Bytes) : Nat := (p.takeWhile (· != 0)).length

/-- A string literal's octets. -/
def lit (s : String) : Bytes := s.toList.map fun c => UInt8.ofNat c.toNat

theorem int64_eq {v : Int} (h : -9223372036854775808 ≤ v) (h' : v < 9223372036854775808) :
    int64 v = v := by
  unfold int64
  omega

/-- A sum that leaves the word on the positive side is negative. -/
theorem int64_neg {v : Int} (h : 9223372036854775808 ≤ v) (h' : v < 18446744073709551616) :
    int64 v < 0 := by
  unfold int64
  omega

/-! ## Reads -/

theorem load8_lt (p : Bytes) (i : Nat) : load8 p i < 256 := UInt8.toNat_lt _

theorem load32_lt (p : Bytes) (i : Nat) : load32 p i < 4294967296 := by
  have h0 := load8_lt p i
  have h1 := load8_lt p (i + 1)
  have h2 := load8_lt p (i + 2)
  have h3 := load8_lt p (i + 3)
  unfold load32
  omega

theorem load8_append_left {p q : Bytes} {i : Nat} (h : i < p.length) :
    load8 (p ++ q) i = load8 p i := by
  unfold load8
  rw [List.getD_append _ _ _ _ h]

theorem load8_append_right {p q : Bytes} {i : Nat} (h : p.length ≤ i) :
    load8 (p ++ q) i = load8 q (i - p.length) := by
  unfold load8
  rw [List.getD_append_right _ _ _ _ h]

theorem load8_take {p : Bytes} {i n : Nat} (h : i < n) : load8 (p.take n) i = load8 p i := by
  simp [load8, List.getD_eq_getElem?_getD, h]

theorem load32_append_left {p q : Bytes} {i : Nat} (h : i + 4 ≤ p.length) :
    load32 (p ++ q) i = load32 p i := by
  unfold load32
  rw [load8_append_left (by omega), load8_append_left (by omega), load8_append_left (by omega),
    load8_append_left (by omega)]

theorem load32_take {p : Bytes} {i n : Nat} (h : i + 4 ≤ n) : load32 (p.take n) i = load32 p i := by
  unfold load32
  rw [load8_take (by omega), load8_take (by omega), load8_take (by omega), load8_take (by omega)]

theorem load32be_take {p : Bytes} {i n : Nat} (h : i + 4 ≤ n) :
    load32be (p.take n) i = load32be p i := by
  unfold load32be
  rw [load8_take (by omega), load8_take (by omega), load8_take (by omega), load8_take (by omega)]

@[simp] theorem loadN_length (p : Bytes) (i n : Nat) : (loadN p i n).length = n := by
  simp [loadN]

/-- Inside the string, `loadN` is a slice. -/
theorem loadN_eq {p : Bytes} {i n : Nat} (h : i + n ≤ p.length) :
    loadN p i n = (p.drop i).take n := by
  apply List.ext_getElem
  · simp; omega
  · intro j h1 h2
    simp only [loadN_length] at h1
    have hj : i + j < p.length := by omega
    simp [loadN, List.getElem?_eq_getElem hj]

theorem load8_add (p q : Bytes) (i : Nat) : load8 (p ++ q) (p.length + i) = load8 q i := by
  rw [load8_append_right (Nat.le_add_right _ _), Nat.add_sub_cancel_left]

theorem load32_add (p q : Bytes) (i : Nat) : load32 (p ++ q) (p.length + i) = load32 q i := by
  unfold load32
  simp only [Nat.add_assoc, load8_add]

theorem loadN_add (p q : Bytes) (i n : Nat) : loadN (p ++ q) (p.length + i) n = loadN q i n := by
  unfold loadN
  apply List.map_congr_left
  intro j _
  rw [Nat.add_assoc, List.getD_append_right _ _ _ _ (Nat.le_add_right _ _), Nat.add_sub_cancel_left]

theorem loadN_succ (p : Bytes) (i n : Nat) : loadN p i (n + 1) = p.getD i 0 :: loadN p
    (i + 1) n := by
  simp only [loadN, List.range_succ_eq_map, List.map_cons, List.map_map, Nat.add_zero]
  congr 1
  apply List.map_congr_left
  intro j _
  simp only [Function.comp_apply, Nat.succ_eq_add_one]
  congr 1
  omega

theorem loadN_getD {p : Bytes} {i n j : Nat} (h : j < n) : (loadN p i n).getD j 0 = p.getD
    (i + j) 0 := by
  simp [loadN, List.getD_eq_getElem?_getD, h]

theorem load8_loadN {p : Bytes} {i n j : Nat} (h : j < n) : load8 (loadN p i n) j = load8
    p (i + j) := by
  simp only [load8, loadN_getD h]

theorem load32_loadN {p : Bytes} {i n : Nat} (h : 4 ≤ n) : load32 (loadN p i n) 0 = load32 p i := by
  simp only [load32, load8_loadN (show 0 < n by omega), load8_loadN (show 0 + 1 < n by omega),
    load8_loadN (show 0 + 2 < n by omega), load8_loadN (show 0 + 3 < n by omega)]
  rfl

theorem loadN_drop (p : Bytes) (i n : Nat) : loadN (p.drop i) 0 n = loadN p i n := by
  apply List.map_congr_left
  intro j _
  simp [List.getD_eq_getElem?_getD, List.getElem?_drop]

theorem load8_drop (p : Bytes) (i j : Nat) : load8 (p.drop i) j = load8 p (i + j) := by
  simp [load8, List.getD_eq_getElem?_getD, List.getElem?_drop]

theorem loadN_left (p q : Bytes) : loadN (p ++ q) 0 p.length = p := by
  rw [loadN_eq (by simp)]
  simp

theorem loadN_self (p : Bytes) : loadN p 0 p.length = p := by
  have h := loadN_left p []
  rwa [List.append_nil] at h

/-! ## Padding -/

theorem align8_eq (n : Nat) : align n 8 = (n + 7) / 8 * 8 := rfl
theorem align4_eq (n : Nat) : align n 4 = (n + 3) / 4 * 4 := rfl
theorem le_align {a : Nat} (n : Nat) (h : 0 < a) : n ≤ align n a := by
  have h1 := Nat.div_add_mod (n + a - 1) a
  have h2 := Nat.mod_lt (n + a - 1) h
  unfold align
  rw [Nat.mul_comm]
  omega

/-! ## Words -/

@[simp] theorem le32_length (v : Int) : (le32 v).length = 4 := rfl

theorem low8_toNat (v : Int) : (low8 v).toNat = (v % 256).toNat := by
  unfold low8
  have : (v % 256).toNat < 256 := by omega
  simp; omega

/-- A word reads back as the low 32 bits written. -/
theorem load32_le32 (v : Int) (q : Bytes) : load32 (le32 v ++ q) 0 = (v % 4294967296).toNat := by
  have e : load32 (le32 v ++ q) 0 = (low8 v).toNat + 256 * (low8 (v / 256)).toNat +
      65536 * (low8 (v / 65536)).toNat + 16777216 * (low8 (v / 16777216)).toNat := rfl
  rw [e]
  simp only [low8_toNat]
  omega

theorem load32_at {p q : Bytes} (v : Int) :
    load32 (p ++ le32 v ++ q) p.length = (v % 4294967296).toNat := by
  rw [← load32_le32 v q, List.append_assoc]
  unfold load32
  rw [load8_append_right (p := p) (by omega), load8_append_right (p := p) (by omega),
    load8_append_right (p := p) (by omega), load8_append_right (p := p) (by omega)]
  simp

theorem load8_at {p q : Bytes} (b : UInt8) : load8 (p ++ b :: q) p.length = b.toNat := by
  rw [load8_append_right (Nat.le_refl _)]
  simp [load8]

/-! ## C strings -/

theorem strlen_le (p : Bytes) : strlen p ≤ p.length := (List.takeWhile_sublist _).length_le

end Octets
