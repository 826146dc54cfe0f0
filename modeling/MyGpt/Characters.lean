/-!
# Characters — text as a list of characters, and what Python says of one

Blanks and decimal digits as `str.isspace`, `str.strip`, `int` and `\d` know them.  `inked` is what
`"".join(ch for ch in text if not ch.isspace())` keeps of a text: taking blanks out of a text, at its ends or within, leaves
it as it is.
-/
namespace MyGpt
namespace Chat

abbrev Text := List Char

/-- Decided along the text, whatever instance there is for all characters. -/
instance (text : Text) (P : Char → Prop) [DecidablePred P] : Decidable (∀ c ∈ text, P c) := List.decidableBAll P text

theorem notMem_literal {s : String} {text : Text} (h : s = String.ofList text) {c : Char} (hc : text.contains c = false) :
    c ∉ s.toList := by
  subst h
  rw [String.toList_ofList, ← List.contains_iff_mem, hc]
  exact Bool.false_ne_true

/-- `str.isspace` of one character. -/
def isSpace (c : Char) : Bool :=
  let n := c.toNat
  (9 ≤ n && n ≤ 13) || (28 ≤ n && n ≤ 32) || n == 0x85 || n == 0xa0 || n == 0x1680 || (0x2000 ≤ n && n ≤ 0x200a) ||
    n == 0x2028 || n == 0x2029 || n == 0x202f || n == 0x205f || n == 0x3000

def strip (text : Text) : Text := ((text.dropWhile isSpace).reverse.dropWhile isSpace).reverse

/-- The zeros of the decimal digits that `\\d` matches. -/
def digitZeros : List Nat :=
  [0x30, 0x660, 0x6f0, 0x7c0, 0x966, 0x9e6, 0xa66, 0xae6, 0xb66, 0xbe6, 0xc66, 0xce6, 0xd66, 0xde6, 0xe50, 0xed0, 0xf20,
    0x1040, 0x1090, 0x17e0, 0x1810, 0x1946, 0x19d0, 0x1a80, 0x1a90, 0x1b50, 0x1bb0, 0x1c40, 0x1c50, 0xa620, 0xa8d0,
    0xa900, 0xa9d0, 0xa9f0, 0xaa50, 0xabf0, 0xff10, 0x104a0, 0x10d30, 0x11066, 0x110f0, 0x11136, 0x111d0, 0x112f0,
    0x11450, 0x114d0, 0x11650, 0x116c0, 0x11730, 0x118e0, 0x11950, 0x11c50, 0x11d50, 0x11da0, 0x11f50, 0x16a60, 0x16ac0,
    0x16b50, 0x1d7ce, 0x1d7d8, 0x1d7e2, 0x1d7ec, 0x1d7f6, 0x1e140, 0x1e2f0, 0x1e4f0, 0x1e950, 0x1fbf0]

def digitValue (c : Char) : Option Nat :=
  (digitZeros.find? (fun z => decide (z ≤ c.toNat ∧ c.toNat < z + 10))).map (c.toNat - ·)

/-! ## up to blanks -/

theorem dropWhile_isSpace_sublist (text : Text) : (text.dropWhile isSpace).Sublist text :=
  (List.dropWhile_suffix isSpace).sublist

theorem strip_sublist (text : Text) : (strip text).Sublist text := by
  unfold strip
  have hback := (dropWhile_isSpace_sublist (text.dropWhile isSpace).reverse).reverse
  rw [List.reverse_reverse] at hback
  exact hback.trans (dropWhile_isSpace_sublist text)

def inked (text : Text) : Text := text.filter (fun c => !isSpace c)

theorem inked_append (l r : Text) : inked (l ++ r) = inked l ++ inked r := List.filter_append ..

theorem inked_blanks {text : Text} (h : ∀ c ∈ text, isSpace c = true) : inked text = [] :=
  List.filter_eq_nil_iff.2 (fun c hc => by simp [h c hc])

theorem inked_dropWhile (text : Text) : inked (text.dropWhile isSpace) = inked text := by
  have hblank : ∀ c ∈ text.takeWhile isSpace, isSpace c = true := List.all_eq_true.1 List.all_takeWhile
  have hsplit := inked_append (text.takeWhile isSpace) (text.dropWhile isSpace)
  rw [List.takeWhile_append_dropWhile, inked_blanks hblank, List.nil_append] at hsplit
  exact hsplit.symm

theorem inked_reverse (text : Text) : inked text.reverse = (inked text).reverse := List.filter_reverse ..

theorem inked_strip (text : Text) : inked (strip text) = inked text := by
  rw [strip, inked_reverse, inked_dropWhile, inked_reverse, inked_dropWhile, List.reverse_reverse]

end Chat
end MyGpt
