/-
# Text, its bytes and its lines

A text is its list of characters; a character takes one to four bytes.  The functions here read a text
the way `str` does: by lines, by words, by prefixes of so many bytes.

* `byteLen` : the length in bytes;
* `takeBytes` : the longest prefix of at most so many bytes;
* `textLines`, `words`, `trim` : lines, words, and the text without its outer white space;
* `hasInfix` : one text stands inside another.
-/
import Mathlib

namespace TextBytes

/-- A text: its characters in order. -/
abbrev Text := List Char

/-- Texts are compared character by character. -/
theorem lawfulBEq_text : LawfulBEq Text := inferInstance

/-! ## Bytes -/

/-- `str::len`: the length of the UTF-8 form. -/
def byteLen (text : Text) : ℕ := (text.map Char.utf8Size).sum

@[simp] theorem byteLen_nil : byteLen [] = 0 := rfl

@[simp] theorem byteLen_append (a b : Text) : byteLen (a ++ b) = byteLen a + byteLen b := by
  simp [byteLen]

theorem length_le_byteLen (text : Text) : text.length ≤ byteLen text := by
  induction text with
  | nil => exact le_rfl
  | cons c rest ih =>
    have hc : 0 < c.utf8Size := c.utf8Size_pos
    simp only [byteLen, List.map_cons, List.sum_cons, List.length_cons] at ih ⊢
    omega

theorem utf8ByteSize_ofList (text : Text) : (String.ofList text).utf8ByteSize = byteLen text := by
  induction text with
  | nil => rfl
  | cons c rest ih =>
    have hcons : String.ofList (c :: rest) = String.singleton c ++ String.ofList rest := by
      apply String.toList_injective
      simp
    rw [hcons, String.utf8ByteSize_append, ih, String.utf8ByteSize_singleton]
    rfl

/-- The bytes of a string are those of its characters. -/
theorem utf8ByteSize_eq_byteLen (s : String) : s.utf8ByteSize = byteLen s.toList := by
  rw [← utf8ByteSize_ofList, String.ofList_toList]

/-- A text has as many bytes as characters exactly when it is ASCII. -/
theorem byteLen_eq_length_iff {text : Text} : byteLen text = text.length ↔ ∀ c ∈ text, c.val ≤ 127 := by
  induction text with
  | nil => simp
  | cons c rest ih =>
    have hrest := length_le_byteLen rest
    have hc := c.utf8Size_pos
    have hsum : byteLen (c :: rest) = c.utf8Size + byteLen rest := rfl
    rw [List.length_cons, List.forall_mem_cons, ← ih, ← Char.utf8Size_eq_one_iff, hsum]
    omega

/-- The longest prefix of at most `max` bytes: a cut never falls inside a character. -/
def takeBytes : ℕ → Text → Text
  | _, [] => []
  | max, c :: rest => if c.utf8Size ≤ max then c :: takeBytes (max - c.utf8Size) rest else []

/-! ## White space, control characters and words -/

/-- `char::is_whitespace`: the `White_Space` property. -/
def isWhitespace (c : Char) : Bool :=
  let n := c.toNat
  (9 ≤ n && n ≤ 13) || n == 0x20 || n == 0x85 || n == 0xA0 || n == 0x1680 ||
    (0x2000 ≤ n && n ≤ 0x200A) || n == 0x2028 || n == 0x2029 || n == 0x202F || n == 0x205F || n == 0x3000

/-- `char::is_control`. -/
def isControl (c : Char) : Bool := c.toNat ≤ 0x1F || (0x7F ≤ c.toNat && c.toNat ≤ 0x9F)

/-- `str::trim_start`. -/
def trimStart (text : Text) : Text := text.dropWhile isWhitespace

/-- `str::trim_end`. -/
def trimEnd (text : Text) : Text := text.rdropWhile isWhitespace

/-- `str::trim`. -/
def trim (text : Text) : Text := trimEnd (trimStart text)

/-- `str::split_whitespace`. -/
def words (text : Text) : List Text := (text.splitOnP isWhitespace).filter (· ≠ [])

/-- `str::to_ascii_lowercase`. -/
def asciiLower (text : Text) : Text :=
  text.map fun c => if 65 ≤ c.toNat ∧ c.toNat ≤ 90 then Char.ofNat (c.toNat + 32) else c

/-! ## Lines -/

/-- `str::split_inclusive('\n')`: each line keeps its end. -/
def splitInclusive : Text → List Text
  | [] => []
  | c :: rest =>
    if c = '\n' then [c] :: splitInclusive rest
    else
      match splitInclusive rest with
      | [] => [[c]]
      | line :: lines => (c :: line) :: lines

/-- A line without its end, `\n` or `\r\n`; a line without one is left as it is. -/
def stripLineEnd (line : Text) : Text :=
  if line.getLast? = some '\n' then
    let body := line.dropLast
    if body.getLast? = some '\r' then body.dropLast else body
  else line

/-- `str::lines`. -/
def textLines (text : Text) : List Text := (splitInclusive text).map stripLineEnd

/-! ## Prefixes, splits and infixes -/

/-- `str::strip_prefix`. -/
def stripPrefix (lead text : Text) : Option Text :=
  if lead.isPrefixOf text then some (text.drop lead.length) else none

/-- `str::split_once` at a character: what stands before its first occurrence. -/
def beforeFirst (c : Char) (text : Text) : Option Text :=
  if c ∈ text then some (text.takeWhile (· ≠ c)) else none

/-- `str::contains`. -/
def hasInfix (needle : Text) (text : Text) : Bool := text.tails.any needle.isPrefixOf

theorem hasInfix_length {needle text : Text} (h : hasInfix needle text = true) :
    needle.length ≤ text.length := by
  obtain ⟨tail, htail, hprefix⟩ := List.any_eq_true.mp h
  have hneedle : needle.length ≤ tail.length := (List.isPrefixOf_iff_prefix.mp hprefix).length_le
  have htext : tail.length ≤ text.length := ((List.mem_tails tail text).mp htail).length_le
  exact hneedle.trans htext

end TextBytes
