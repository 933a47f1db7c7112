import Mathlib.Algebra.GroupWithZero.Nat
import Mathlib.Data.List.Basic

/-!
# Text

The string operations of the standard library that the code uses, on lists of
characters: white space in the sense of Unicode, words, the first line, and positions and
cuts counted in UTF-8 bytes. A cut at a byte that is not a character boundary has no result
(`dropBytes`), as slicing there panics.
-/

namespace T3Claw.Text

/-- `char::is_whitespace`: the Unicode property `White_Space`. -/
def isWhitespace (c : Char) : Bool :=
  (9 ≤ c.toNat && c.toNat ≤ 13) || c.toNat == 0x20 || c.toNat == 0x85 || c.toNat == 0xA0 ||
    c.toNat == 0x1680 || (0x2000 ≤ c.toNat && c.toNat ≤ 0x200A) || c.toNat == 0x2028 ||
    c.toNat == 0x2029 || c.toNat == 0x202F || c.toNat == 0x205F || c.toNat == 0x3000

/-- `str::trim`. -/
def trim (cs : List Char) : List Char :=
  ((cs.dropWhile isWhitespace).reverse.dropWhile isWhitespace).reverse

/-- `str::split_whitespace`. -/
def splitWhitespace (cs : List Char) : List (List Char) :=
  (cs.splitOnP isWhitespace).filter fun word => !word.isEmpty

/-- `str::lines().next()`, the empty line when there is none. -/
def firstLine (cs : List Char) : List Char := cs.takeWhile (· ≠ '\n')

/-- `str::find`: the byte offset of the first occurrence. -/
def find? (pattern : List Char) : List Char → Option ℕ
  | [] => if pattern.isEmpty then some 0 else none
  | c :: cs =>
    if pattern.isPrefixOf (c :: cs) then some 0
    else (find? pattern cs).map (· + c.utf8Size)

/-- `str::contains`. -/
def contains (pattern cs : List Char) : Bool := (find? pattern cs).isSome

/-- The number a text of decimal digits stands for, `none` when it is not one. -/
def digits? (cs : List Char) : Option ℕ :=
  if cs.isEmpty ∨ ¬cs.all Char.isDigit then none
  else some (cs.foldl (fun n c => 10 * n + (c.toNat - '0'.toNat)) 0)

/-- `str::parse::<u64>`. -/
def parseU64 (cs : List Char) : Option ℕ :=
  (digits? (if cs.head? = some '+' then cs.tail else cs)).filter (· < 2 ^ 64)

/-- `&s[n..]`, `none` where it panics. -/
def dropBytes : ℕ → List Char → Option (List Char)
  | 0, cs => some cs
  | _ + 1, [] => none
  | n + 1, c :: cs => if c.utf8Size ≤ n + 1 then dropBytes (n + 1 - c.utf8Size) cs else none

/-- `str::replace` from behind the next `skip` characters, which a replacement has taken. -/
def replaceFrom (pattern replacement : List Char) : ℕ → List Char → List Char
  | _, [] => []
  | skip + 1, _ :: cs => replaceFrom pattern replacement skip cs
  | 0, c :: cs =>
    if pattern.isPrefixOf (c :: cs) then
      replacement ++ replaceFrom pattern replacement (pattern.length - 1) cs
    else c :: replaceFrom pattern replacement 0 cs

/-- `str::replace`, for a pattern that is not empty. -/
def replace (pattern replacement cs : List Char) : List Char :=
  replaceFrom pattern replacement 0 cs

/-- `str::replacen` with a count of one, for a pattern that is not empty. -/
def replaceFirst (pattern replacement : List Char) : List Char → List Char
  | [] => []
  | c :: cs =>
    if pattern.isPrefixOf (c :: cs) then replacement ++ (c :: cs).drop pattern.length
    else c :: replaceFirst pattern replacement cs

/-- `str::matches(..).count()` from behind the next `skip` characters. -/
def countFrom (pattern : List Char) : ℕ → List Char → ℕ
  | _, [] => 0
  | skip + 1, _ :: cs => countFrom pattern skip cs
  | 0, c :: cs =>
    if pattern.isPrefixOf (c :: cs) then countFrom pattern (pattern.length - 1) cs + 1
    else countFrom pattern 0 cs

/-- `str::matches(..).count()`, for a pattern that is not empty. -/
def count (pattern cs : List Char) : ℕ := countFrom pattern 0 cs

/-- `str::trim_matches` with a character. -/
def trimMatches (c : Char) (cs : List Char) : List Char :=
  ((cs.dropWhile (· = c)).reverse.dropWhile (· = c)).reverse

/-- `str::lines`: a line ends with `\n` or `\r\n`, and the last one need not end. -/
def lines (cs : List Char) : List (List Char) :=
  let pieces := cs.splitOn '\n'
  (pieces.dropLast.map fun line => if line.getLast? = some '\r' then line.dropLast else line) ++
    pieces.getLast?.toList.filter (· ≠ [])

/-- `util.rs::floor_char_boundary`: the longest front of a text within `max` bytes. -/
def floorCharBoundary (max : ℕ) : List Char → List Char
  | [] => []
  | c :: cs => if c.utf8Size ≤ max then c :: floorCharBoundary (max - c.utf8Size) cs else []

/-- The bytes a text takes. -/
def byteLength (cs : List Char) : ℕ := (cs.map Char.utf8Size).sum

/-- Only the letters change with their case. -/
theorem toLower_eq_self_or (c : Char) :
    c.toLower = c ∨ (65 ≤ c.toNat ∧ c.toNat ≤ 90 ∧ c.toLower.toNat = c.toNat + 32) := by
  unfold Char.toLower
  split_ifs with h
  · have hle : 65 ≤ c.val.toNat := UInt32.le_iff_toNat_le.mp h.1
    have hge : c.val.toNat ≤ 90 := UInt32.le_iff_toNat_le.mp h.2
    have hshift : ('a'.val - 'A'.val).toNat = 32 := by decide
    have hadd : (c.val + ('a'.val - 'A'.val)).toNat = c.val.toNat + 32 := by
      rw [UInt32.toNat_add, hshift]
      exact Nat.mod_eq_of_lt (by omega)
    exact Or.inr ⟨hle, hge, hadd⟩
  · exact Or.inl rfl

/-- No case of a letter is white space. -/
theorem isWhitespace_toLower (c : Char) : isWhitespace c.toLower = isWhitespace c := by
  obtain heq | ⟨hle, hge, hlower⟩ := toLower_eq_self_or c
  · rw [heq]
  · have hnot {d : Char} (hle : 65 ≤ d.toNat) (hge : d.toNat ≤ 122) : isWhitespace d = false := by
      rw [Bool.eq_false_iff, isWhitespace]
      simp only [ne_eq, Bool.or_eq_true, Bool.and_eq_true, decide_eq_true_eq, beq_iff_eq]
      omega
    rw [hnot hle (by omega), hnot (by omega) (by omega)]

theorem toLower_of_isWhitespace {c : Char} (h : isWhitespace c = true) : c.toLower = c := by
  obtain heq | ⟨hle, hge, -⟩ := toLower_eq_self_or c
  · exact heq
  · rw [isWhitespace] at h
    simp only [Bool.or_eq_true, Bool.and_eq_true, decide_eq_true_eq, beq_iff_eq] at h
    omega

end T3Claw.Text

namespace T3Claw

/-- `str::eq_ignore_ascii_case`. -/
def eqIgnoreAsciiCase (a b : String) : Bool :=
  a.toList.map Char.toLower == b.toList.map Char.toLower

end T3Claw
