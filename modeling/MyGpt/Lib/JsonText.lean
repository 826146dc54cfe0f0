import Mathlib.Data.List.Basic
/-!
# JsonText — which texts are JSON

A recogniser of RFC 8259: a part of a text is read from the left, and what follows it is left over.  Whoever renders a value
shows for each part that it is read up to what follows it (`number_of_parts`, `stringRest_quote`, `elements_step`).
-/
namespace JsonText

abbrev Text := List Char

/-! ## the grammar -/

def isWs (c : Char) : Bool := c == ' ' || c == '\t' || c == '\n' || c == '\r'

def skipWs (text : Text) : Text := text.dropWhile isWs

def isDigit (c : Char) : Bool := decide ('0'.toNat ≤ c.toNat ∧ c.toNat ≤ '9'.toNat)

def isHex (c : Char) : Bool :=
  isDigit c || decide ('a'.toNat ≤ c.toNat ∧ c.toNat ≤ 'f'.toNat) || decide ('A'.toNat ≤ c.toNat ∧ c.toNat ≤ 'F'.toNat)

def stringRest : Text → Option Text
  | [] => none
  | '"' :: rest => some rest
  | '\\' :: 'u' :: a :: b :: c :: d :: rest =>
    if isHex a && isHex b && isHex c && isHex d then stringRest rest else none
  | '\\' :: c :: rest => if c ∈ ['"', '\\', '/', 'b', 'f', 'n', 'r', 't'] then stringRest rest else none
  | c :: rest => if c.toNat < 32 ∨ c = '\\' then none else stringRest rest

def digits1 : Text → Option Text
  | [] => none
  | c :: rest => if isDigit c then some (rest.dropWhile isDigit) else none

def intPart : Text → Option Text
  | [] => none
  | c :: rest => if c = '0' then some rest else if isDigit c then some (rest.dropWhile isDigit) else none

def fracPart : Text → Option Text
  | '.' :: rest => digits1 rest
  | text => some text

def expPart : Text → Option Text
  | c :: rest =>
    if c = 'e' ∨ c = 'E' then
      match rest with
      | d :: more => if d = '+' ∨ d = '-' then digits1 more else digits1 rest
      | [] => none
    else some (c :: rest)
  | [] => some []

def number (text : Text) : Option Text :=
  let unsigned := if text.head? = some '-' then text.tail else text
  ((intPart unsigned).bind fracPart).bind expPart

def elements (value : Text → Option Text) : Nat → Text → Option Text
  | 0, _ => none
  | n + 1, text =>
    (value text).bind (fun rest =>
      match skipWs rest with
      | ',' :: more => elements value n (skipWs more)
      | ']' :: more => some more
      | _ => none)

def members (value : Text → Option Text) : Nat → Text → Option Text
  | 0, _ => none
  | n + 1, text =>
    match text with
    | '"' :: key =>
      (stringRest key).bind (fun rest =>
        match skipWs rest with
        | ':' :: more =>
          (value (skipWs more)).bind (fun rest =>
            match skipWs rest with
            | ',' :: more => members value n (skipWs more)
            | '}' :: more => some more
            | _ => none)
        | _ => none)
    | _ => none

def value : Nat → Text → Option Text
  | 0, _ => none
  | fuel + 1, text =>
    match text with
    | '"' :: rest => stringRest rest
    | '[' :: rest =>
      if (skipWs rest).head? = some ']' then some (skipWs rest).tail else elements (value fuel) fuel (skipWs rest)
    | '{' :: rest =>
      if (skipWs rest).head? = some '}' then some (skipWs rest).tail else members (value fuel) fuel (skipWs rest)
    | 't' :: 'r' :: 'u' :: 'e' :: rest => some rest
    | 'f' :: 'a' :: 'l' :: 's' :: 'e' :: rest => some rest
    | 'n' :: 'u' :: 'l' :: 'l' :: rest => some rest
    | text => number text

def valid (text : Text) : Bool := (value (text.length + 1) (skipWs text)).any (fun rest => skipWs rest == [])

example : valid "[1, -2.5e+07, \"a\\n\", \x7b\"k\": null\x7d]".toList = true := by decide
example : valid "[01]".toList = false := by decide
example : valid "NaN".toList = false := by decide

/-! ## parts of a number -/

def Stops (rest : Text) : Prop := ∀ c ∈ rest.head?, isDigit c = false ∧ c ≠ '.' ∧ c ≠ 'e' ∧ c ≠ 'E'

def Digits (text : Text) : Prop := ∀ c ∈ text, isDigit c = true

/-- `0`, or digits without a zero in front. -/
def IsInt (text : Text) : Prop := text = ['0'] ∨ ∃ c ds, text = c :: ds ∧ c ≠ '0' ∧ isDigit c = true ∧ Digits ds

def IsFrac (text : Text) : Prop := text = [] ∨ ∃ ds, text = '.' :: ds ∧ ds ≠ [] ∧ Digits ds

def IsExp (text : Text) : Prop :=
  text = [] ∨ ∃ sign ds, text = 'e' :: sign :: ds ∧ (sign = '+' ∨ sign = '-') ∧ ds ≠ [] ∧ Digits ds

theorem dropWhile_digits {ds rest : Text} (hds : Digits ds) (hrest : ∀ c ∈ rest.head?, isDigit c = false) :
    (ds ++ rest).dropWhile isDigit = rest := by
  rw [List.dropWhile_append_of_pos hds]
  cases rest with
  | nil => rfl
  | cons c rest =>
    have hc := hrest c rfl
    rw [List.dropWhile_cons_of_neg (by simp [hc])]

theorem digits1_append {ds rest : Text} (hne : ds ≠ []) (hds : Digits ds) (hrest : ∀ c ∈ rest.head?, isDigit c = false) :
    digits1 (ds ++ rest) = some rest := by
  cases ds with
  | nil => exact absurd rfl hne
  | cons c ds =>
    rw [List.cons_append, digits1, if_pos (hds c List.mem_cons_self),
      dropWhile_digits (fun d hd => hds d (List.mem_cons_of_mem c hd)) hrest]

theorem intPart_append {i rest : Text} (hi : IsInt i) (hrest : ∀ c ∈ rest.head?, isDigit c = false) :
    intPart (i ++ rest) = some rest := by
  rcases hi with rfl | ⟨c, ds, rfl, hzero, hc, hds⟩
  · rfl
  · rw [List.cons_append, intPart, if_neg hzero, if_pos hc, dropWhile_digits hds hrest]

theorem fracPart_append {f rest : Text} (hf : IsFrac f) (hrest : ∀ c ∈ rest.head?, isDigit c = false ∧ c ≠ '.') :
    fracPart (f ++ rest) = some rest := by
  rcases hf with rfl | ⟨ds, rfl, hne, hds⟩
  · rw [List.nil_append]
    unfold fracPart
    split
    · exact absurd rfl (hrest _ rfl).2
    · rfl
  · exact digits1_append hne hds (fun c hc => (hrest c hc).1)

theorem expPart_append {e rest : Text} (he : IsExp e) (hrest : Stops rest) : expPart (e ++ rest) = some rest := by
  rcases he with rfl | ⟨sign, ds, rfl, hsign, hne, hds⟩
  · rw [List.nil_append]
    cases rest with
    | nil => rfl
    | cons c rest =>
      obtain ⟨-, -, he, hE⟩ := hrest c rfl
      unfold expPart
      dsimp only
      rw [if_neg (not_or.2 ⟨he, hE⟩)]
  · rw [List.cons_append, List.cons_append]
    unfold expPart
    dsimp only
    rw [if_pos (.inl rfl), if_pos hsign, digits1_append hne hds (fun c hc => (hrest c hc).1)]

theorem exp_head {e rest : Text} (he : IsExp e) (hrest : Stops rest) :
    ∀ c ∈ (e ++ rest).head?, isDigit c = false ∧ c ≠ '.' := by
  intro c hc
  rcases he with rfl | ⟨sign, ds, rfl, -⟩
  · exact ⟨(hrest c hc).1, (hrest c hc).2.1⟩
  · obtain rfl : 'e' = c := Option.some_inj.1 hc
    decide

theorem frac_head {f rest : Text} (hf : IsFrac f) (hrest : ∀ c ∈ rest.head?, isDigit c = false ∧ c ≠ '.') :
    ∀ c ∈ (f ++ rest).head?, isDigit c = false := by
  intro c hc
  rcases hf with rfl | ⟨ds, rfl, -⟩
  · exact (hrest c hc).1
  · obtain rfl : '.' = c := Option.some_inj.1 hc
    decide

theorem int_head {i : Text} (rest : Text) (hi : IsInt i) : ∃ c more, i ++ rest = c :: more ∧ isDigit c = true := by
  rcases hi with rfl | ⟨c, ds, rfl, -, hc, -⟩
  · exact ⟨'0', rest, rfl, rfl⟩
  · exact ⟨c, ds ++ rest, rfl, hc⟩

/-- **A number**: a sign or none, an integral part, a fraction and an exponent, up to what follows. -/
theorem number_of_parts (negative : Bool) {i f e rest : Text} (hi : IsInt i) (hf : IsFrac f) (he : IsExp e)
    (hrest : Stops rest) : number ((if negative then ['-'] else []) ++ (i ++ (f ++ (e ++ rest)))) = some rest := by
  have hexp := exp_head he hrest
  have hunsigned : ((intPart (i ++ (f ++ (e ++ rest)))).bind fracPart).bind expPart = some rest := by
    rw [intPart_append hi (frac_head hf hexp), Option.bind_some, fracPart_append hf hexp, Option.bind_some,
      expPart_append he hrest]
  obtain ⟨c, more, hhead, hc⟩ := int_head (f ++ (e ++ rest)) hi
  unfold number
  cases negative with
  | true => exact hunsigned
  | false =>
    have hminus : (i ++ (f ++ (e ++ rest))).head? ≠ some '-' := by
      rw [hhead]
      intro heq
      obtain rfl : c = '-' := Option.some_inj.1 heq
      exact absurd hc (by decide)
    rw [if_neg Bool.false_ne_true, List.nil_append, if_neg hminus]
    exact hunsigned

theorem value_number {fuel : Nat} {c : Char} {text : Text} (hc : isDigit c = true ∨ c = '-') :
    value (fuel + 1) (c :: text) = number (c :: text) := by
  have hnot : c ≠ '"' ∧ c ≠ '[' ∧ c ≠ '\x7b' ∧ c ≠ 't' ∧ c ≠ 'f' ∧ c ≠ 'n' := by
    refine ⟨?_, ?_, ?_, ?_, ?_, ?_⟩ <;> (rintro rfl; revert hc; decide)
  obtain ⟨h1, h2, h3, h4, h5, h6⟩ := hnot
  unfold value
  split <;> simp_all

theorem skipWs_cons {c : Char} {text : Text} (hc : isWs c = false) : skipWs (c :: text) = c :: text :=
  List.dropWhile_cons_of_neg (by simp [hc])

end JsonText
