import MyGpt.ToolFence
import MyGpt.Lib.JsonText
import Mathlib.Data.Nat.Digits.Lemmas
/-!
# JsonRendering — a tool's result as bounded JSON

`bounded_json_observation` over the values that `json.dumps` takes.  Floats are rendered by their `repr`, and the three that
are no number as `NaN` and `Infinity`, which are no JSON; so what comes out is JSON exactly where the value has none of
them or is too long to be shown as it is (`observation_json_iff`).
-/
namespace MyGpt
namespace Security

open Chat (Text)
open JsonText (isDigit isHex isWs skipWs stringRest Stops Digits IsInt IsFrac IsExp)

/-! ## values -/

/-- A finite float by the digits of its `repr`: `0.d₁d₂…` times ten to the `point`. -/
structure Decimal where
  negative : Bool
  digits : List (Fin 10)
  point : Int
  nonempty : digits ≠ []
  lead : digits.head? ≠ some 0 ∨ (digits = [0] ∧ point = 1)

inductive PyFloat
  | nan
  | inf (negative : Bool)
  | finite (x : Decimal)

inductive PyKey
  | str (s : Text)
  | int (n : Int)
  | float (x : PyFloat)
  | bool (b : Bool)
  | none

inductive PyValue
  | none
  | bool (b : Bool)
  | int (n : Int)
  | float (x : PyFloat)
  | str (s : Text)
  | list (items : List PyValue)
  | dict (members : List (PyKey × PyValue))

/-! ## numbers -/

def digitChar (d : Nat) : Char := Char.ofNat ('0'.toNat + d)

def natText (n : Nat) : Text := if n = 0 then ['0'] else ((Nat.digits 10 n).reverse).map digitChar

/-- `int.__repr__`. -/
def intText (n : Int) : Text := if n < 0 then '-' :: natText n.natAbs else natText n.natAbs

def Decimal.chars (x : Decimal) : Text := x.digits.map (fun d => digitChar d.val)

/-- The integral part of `float.__repr__`, with `0` before a point that comes first. -/
def Decimal.whole (x : Decimal) : Text :=
  if x.point ≤ -4 ∨ 16 < x.point then x.chars.take 1
  else if x.point ≤ 0 then ['0']
  else x.chars.take x.point.toNat ++ List.replicate (x.point.toNat - x.chars.length) '0'

def Decimal.fraction (x : Decimal) : Text :=
  if x.point ≤ -4 ∨ 16 < x.point then if x.chars.drop 1 = [] then [] else '.' :: x.chars.drop 1
  else if x.point ≤ 0 then '.' :: (List.replicate (-x.point).toNat '0' ++ x.chars)
  else '.' :: (if x.chars.drop x.point.toNat = [] then ['0'] else x.chars.drop x.point.toNat)

def Decimal.exponent (x : Decimal) : Text :=
  if x.point ≤ -4 ∨ 16 < x.point then
    'e' :: (if x.point - 1 < 0 then '-' else '+') ::
      ((if (x.point - 1).natAbs < 10 then ['0'] else []) ++ natText (x.point - 1).natAbs)
  else []

/-- `float.__repr__` of a number. -/
def Decimal.repr (x : Decimal) : Text := (if x.negative then ['-'] else []) ++ (x.whole ++ (x.fraction ++ x.exponent))

/-- `json.dumps` of a float. -/
def PyFloat.render : PyFloat → Text
  | .nan => "NaN".toList
  | .inf negative => (if negative then ['-'] else []) ++ "Infinity".toList
  | .finite x => x.repr

/-! ## rendering -/

/-- A key of `json.dumps`, before its quotes. -/
def PyKey.text : PyKey → Text
  | .str s => s
  | .int n => intText n
  | .float x => x.render
  | .bool b => if b then "true".toList else "false".toList
  | .none => "null".toList

mutual
/-- `json.dumps(value, ensure_ascii=False)`. -/
def PyValue.render : PyValue → Text
  | .none => "null".toList
  | .bool b => if b then "true".toList else "false".toList
  | .int n => intText n
  | .float x => x.render
  | .str s => jsonString s
  | .list items => '[' :: (renderItems items ++ [']'])
  | .dict members => '\x7b' :: (renderMembers members ++ ['\x7d'])
def renderItems : List PyValue → Text
  | [] => []
  | v :: items => v.render ++ (if items.isEmpty then [] else ", ".toList ++ renderItems items)
def renderMembers : List (PyKey × PyValue) → Text
  | [] => []
  | (k, v) :: members =>
    jsonString k.text ++ (": ".toList ++ (v.render ++ (if members.isEmpty then [] else ", ".toList ++ renderMembers members)))
end

/-- `int.__repr__` raises for more digits. -/
def smallInt (n : Int) : Bool := decide (n.natAbs < 10 ^ 4300)

def PyKey.serialisable : PyKey → Bool
  | .int n => smallInt n
  | _ => true

mutual
/-- `json.dumps` returns. -/
def PyValue.serialisable : PyValue → Bool
  | .int n => smallInt n
  | .list items => serialisableItems items
  | .dict members => serialisableMembers members
  | _ => true
def serialisableItems : List PyValue → Bool
  | [] => true
  | v :: items => v.serialisable && serialisableItems items
def serialisableMembers : List (PyKey × PyValue) → Bool
  | [] => true
  | (k, v) :: members => k.serialisable && v.serialisable && serialisableMembers members
end

def PyValue.dumps (v : PyValue) : Option Text := if v.serialisable then some v.render else Option.none

/-- `bounded_json_observation`; nothing when it raises: `str` of the value meets the same number. -/
def PyValue.boundedJsonObservation (v : PyValue) (maxChars : Option Nat) (forceTruncated : Bool) : Option Text :=
  v.dumps.map (fun rendered =>
    match maxChars with
    | Option.none => rendered
    | some cap =>
      if rendered.length ≤ cap ∧ forceTruncated = false then rendered else boundedJsonPreview rendered cap)

mutual
/-- No float of the value is `nan` or infinite; keys are strings when they are rendered. -/
def PyValue.finite : PyValue → Bool
  | .float (.finite _) => true
  | .float _ => false
  | .list items => finiteItems items
  | .dict members => finiteMembers members
  | _ => true
def finiteItems : List PyValue → Bool
  | [] => true
  | v :: items => v.finite && finiteItems items
def finiteMembers : List (PyKey × PyValue) → Bool
  | [] => true
  | (_, v) :: members => v.finite && finiteMembers members
end

/-! ## numbers are JSON -/

theorem digitChar_digit : ∀ d < 10, isDigit (digitChar d) = true := by decide

theorem digitChar_ne_zero : ∀ d < 10, d ≠ 0 → digitChar d ≠ '0' := by decide

theorem natText_isInt (n : Nat) : IsInt (natText n) := by
  unfold natText
  split
  · exact .inl rfl
  · rename_i hn
    have hne : Nat.digits 10 n ≠ [] := Nat.digits_ne_nil_iff_ne_zero.2 hn
    have hlast := Nat.getLast_digit_ne_zero 10 hn
    have hlt : ∀ d ∈ (Nat.digits 10 n).reverse, d < 10 :=
      fun d hd => Nat.digits_lt_base (by decide) (List.mem_reverse.1 hd)
    have hhead : (Nat.digits 10 n).reverse.head? = some ((Nat.digits 10 n).getLast hne) := by
      rw [List.head?_reverse, List.getLast?_eq_some_getLast hne]
    cases hrev : (Nat.digits 10 n).reverse with
    | nil =>
      rw [hrev] at hhead
      cases hhead
    | cons d ds =>
      rw [hrev] at hlt hhead
      have hd := hlt d List.mem_cons_self
      rw [← Option.some_inj.1 hhead] at hlast
      refine .inr ⟨digitChar d, ds.map digitChar, rfl, digitChar_ne_zero d hd hlast, digitChar_digit d hd, fun c hc => ?_⟩
      obtain ⟨d', hd', rfl⟩ := List.mem_map.1 hc
      exact digitChar_digit d' (hlt d' (List.mem_cons_of_mem d hd'))

theorem natText_digits (n : Nat) : Digits (natText n) ∧ natText n ≠ [] := by
  rcases natText_isInt n with h | ⟨c, ds, h, -, hc, hds⟩
  · rw [h]
    exact ⟨by unfold Digits; decide, List.cons_ne_nil _ _⟩
  · rw [h]
    exact ⟨List.forall_mem_cons.2 ⟨hc, hds⟩, List.cons_ne_nil _ _⟩

namespace Decimal

variable (x : Decimal)

theorem chars_digits : Digits x.chars := by
  intro c hc
  obtain ⟨d, -, rfl⟩ := List.mem_map.1 hc
  exact digitChar_digit d.val d.isLt

theorem chars_ne_nil : x.chars ≠ [] := fun h => x.nonempty (List.map_eq_nil_iff.1 h)

theorem zeros_digits (n : Nat) : Digits (List.replicate n '0') := by
  intro c hc
  rw [(List.mem_replicate.1 hc).2]
  decide

theorem chars_cons : ∃ c ds, x.chars = c :: ds ∧ isDigit c = true ∧ Digits ds ∧
    (c ≠ '0' ∨ (c = '0' ∧ ds = [] ∧ x.point = 1)) := by
  have hdigits := x.chars_digits
  cases hx : x.digits with
  | nil => exact absurd hx x.nonempty
  | cons d ds =>
    have hchars : x.chars = digitChar d.val :: ds.map (fun d => digitChar d.val) := by
      rw [chars, hx]
      rfl
    rw [hchars] at hdigits
    refine ⟨_, _, hchars, hdigits _ List.mem_cons_self, fun c hc => hdigits c (List.mem_cons_of_mem _ hc), ?_⟩
    rcases x.lead with hlead | ⟨hzero, hpoint⟩
    · rw [hx] at hlead
      refine .inl (digitChar_ne_zero d.val d.isLt (fun hval => hlead ?_))
      exact congrArg some (Fin.ext hval)
    · rw [hx, List.cons.injEq] at hzero
      obtain ⟨rfl, rfl⟩ := hzero
      exact .inr ⟨rfl, rfl, hpoint⟩

theorem whole_isInt : IsInt x.whole := by
  obtain ⟨c, ds, hchars, hc, hds, hzero⟩ := x.chars_cons
  unfold whole
  split
  · rename_i hfar
    rw [hchars, List.take_succ_cons, List.take_zero]
    rcases hzero with hzero | ⟨-, -, hpoint⟩
    · exact .inr ⟨c, [], rfl, hzero, hc, nofun⟩
    · omega
  · split
    · exact .inl rfl
    · rename_i hpos
      obtain ⟨n, hn⟩ := Nat.exists_eq_succ_of_ne_zero (n := x.point.toNat) (by omega)
      rw [hn, hchars, List.take_succ_cons]
      rcases hzero with hzero | ⟨rfl, rfl, hpoint⟩
      · refine .inr ⟨c, _, rfl, hzero, hc, fun d hd => ?_⟩
        rcases List.mem_append.1 hd with hd | hd
        · exact hds d (List.mem_of_mem_take hd)
        · exact zeros_digits _ d hd
      · left
        have hone : n = 0 := by omega
        rw [hone]
        rfl

theorem fraction_isFrac : IsFrac x.fraction := by
  have hdigits := x.chars_digits
  unfold fraction
  split
  · split
    · exact .inl rfl
    · rename_i hne
      exact .inr ⟨_, rfl, hne, fun c hc => hdigits c (List.mem_of_mem_drop hc)⟩
  · split
    · refine .inr ⟨_, rfl, fun hnil => x.chars_ne_nil (List.append_eq_nil_iff.1 hnil).2, fun c hc => ?_⟩
      rcases List.mem_append.1 hc with hc | hc
      · exact zeros_digits _ c hc
      · exact hdigits c hc
    · refine .inr ⟨_, rfl, ?_⟩
      split
      · exact ⟨List.cons_ne_nil _ _, by unfold Digits; decide⟩
      · rename_i hne
        exact ⟨hne, fun c hc => hdigits c (List.mem_of_mem_drop hc)⟩

theorem exponent_isExp : IsExp x.exponent := by
  unfold exponent
  split
  · obtain ⟨hdigits, hne⟩ := natText_digits (x.point - 1).natAbs
    refine .inr ⟨_, _, rfl, ?_, fun hnil => hne (List.append_eq_nil_iff.1 hnil).2, fun c hc => ?_⟩
    · split
      · exact .inr rfl
      · exact .inl rfl
    · rcases List.mem_append.1 hc with hc | hc
      · split at hc
        · rw [List.mem_singleton.1 hc]
          decide
        · cases hc
      · exact hdigits c hc
  · exact .inl rfl

end Decimal

theorem number_repr (x : Decimal) {rest : Text} (h : Stops rest) : JsonText.number (x.repr ++ rest) = some rest := by
  have hparts := JsonText.number_of_parts x.negative x.whole_isInt x.fraction_isFrac x.exponent_isExp h
  rwa [Decimal.repr, List.append_assoc, List.append_assoc, List.append_assoc]

theorem intText_eq (n : Int) : intText n = (if decide (n < 0) then ['-'] else []) ++ natText n.natAbs := by
  unfold intText
  by_cases hn : n < 0 <;> simp [hn]

theorem number_intText (n : Int) {rest : Text} (h : Stops rest) : JsonText.number (intText n ++ rest) = some rest := by
  have hparts := JsonText.number_of_parts (decide (n < 0)) (natText_isInt n.natAbs) (.inl rfl) (.inl rfl) h
  rwa [intText_eq, List.append_assoc]

theorem value_of_number {fuel : Nat} (negative : Bool) {i more : Text} (hi : IsInt i) :
    JsonText.value (fuel + 1) ((if negative then ['-'] else []) ++ (i ++ more)) =
      JsonText.number ((if negative then ['-'] else []) ++ (i ++ more)) := by
  obtain ⟨c, rest, hhead, hc⟩ := JsonText.int_head more hi
  rw [hhead]
  cases negative with
  | true => exact JsonText.value_number (.inr rfl)
  | false => exact JsonText.value_number (.inl hc)

/-! ## strings are JSON -/

theorem hexDigit_hex : ∀ n < 16, isHex (hexDigit n) = true := by decide

theorem stringRest_escapeChar (c : Char) (rest : Text) : stringRest (escapeChar c ++ rest) = stringRest rest := by
  unfold escapeChar
  split
  · rfl
  split
  · rfl
  split
  · rfl
  split
  · rfl
  split
  · rfl
  split
  · rfl
  split
  · rfl
  split
  · rename_i hcontrol
    have hfirst := hexDigit_hex (c.toNat / 16) (by omega)
    have hsecond := hexDigit_hex (c.toNat % 16) (by omega)
    have hread : stringRest (['\\', 'u', '0', '0', hexDigit (c.toNat / 16), hexDigit (c.toNat % 16)] ++ rest) =
        if isHex '0' && isHex '0' && isHex (hexDigit (c.toNat / 16)) && isHex (hexDigit (c.toNat % 16)) then stringRest rest
        else none := rfl
    rw [hread, hfirst, hsecond]
    rfl
  · rename_i hquote hslash _ _ _ _ _ hcontrol
    rw [List.singleton_append]
    conv_lhs => unfold stringRest
    split <;> simp_all

theorem stringRest_escape (s rest : Text) : stringRest (escape s ++ '"' :: rest) = some rest := by
  induction s with
  | nil => rfl
  | cons c s ih =>
    have hsplit : escape (c :: s) = escapeChar c ++ escape s := rfl
    rw [hsplit, List.append_assoc, stringRest_escapeChar, ih]

theorem jsonString_append (s rest : Text) : jsonString s ++ rest = '"' :: (escape s ++ '"' :: rest) := by
  simp [jsonString]

/-! ## a rendered value is JSON -/

def Follows (rest : Text) : Prop := ∀ c ∈ rest.head?, c = ',' ∨ c = ']' ∨ c = '\x7d'

theorem Follows.stops {rest : Text} (h : Follows rest) : Stops rest := by
  intro c hc
  rcases h c hc with rfl | rfl | rfl <;> decide

theorem Follows.cons {c : Char} (rest : Text) (hc : c = ',' ∨ c = ']' ∨ c = '\x7d') : Follows (c :: rest) := by
  intro d hd
  exact Option.some_inj.1 hd ▸ hc

theorem render_head (v : PyValue) : ∃ c more, v.render = c :: more ∧ isWs c = false ∧ c ≠ ']' := by
  have hint : ∀ {i : Text} (more : Text) (negative : Bool), IsInt i → ∃ c rest,
      (if negative then ['-'] else []) ++ (i ++ more) = c :: rest ∧ isWs c = false ∧ c ≠ ']' := by
    intro i more negative hi
    obtain ⟨c, rest, hhead, hc⟩ := JsonText.int_head more hi
    rw [hhead]
    cases negative with
    | true => exact ⟨'-', c :: rest, rfl, rfl, by decide⟩
    | false =>
      refine ⟨c, rest, rfl, ?_, ?_⟩
      · simp only [isWs, Bool.or_eq_false_iff, beq_eq_false_iff_ne]
        refine ⟨⟨⟨?_, ?_⟩, ?_⟩, ?_⟩ <;> (rintro rfl; exact absurd hc (by decide))
      · rintro rfl
        exact absurd hc (by decide)
  cases v with
  | none => exact ⟨'n', _, rfl, rfl, by decide⟩
  | bool b => cases b <;> exact ⟨_, _, rfl, rfl, by decide⟩
  | int n =>
    have hhead := hint [] (decide (n < 0)) (natText_isInt n.natAbs)
    rwa [List.append_nil, ← intText_eq] at hhead
  | float x =>
    cases x with
    | nan => exact ⟨'N', _, rfl, rfl, by decide⟩
    | inf negative => cases negative <;> exact ⟨_, _, rfl, rfl, by decide⟩
    | finite x => exact hint _ x.negative x.whole_isInt
  | str s => exact ⟨'"', _, rfl, rfl, by decide⟩
  | list items => exact ⟨'[', _, rfl, rfl, by decide⟩
  | dict members => exact ⟨'\x7b', _, rfl, rfl, by decide⟩

theorem skipWs_render (v : PyValue) (rest : Text) : skipWs (v.render ++ rest) = v.render ++ rest := by
  obtain ⟨c, more, hhead, hc, -⟩ := render_head v
  rw [hhead]
  exact JsonText.skipWs_cons hc

theorem length_render_pos (v : PyValue) : 0 < v.render.length := by
  obtain ⟨c, more, hhead, -⟩ := render_head v
  rw [hhead]
  exact Nat.succ_pos _

theorem length_items : ∀ items : List PyValue, items.length ≤ (renderItems items).length
  | [] => Nat.zero_le _
  | v :: items => by
    have hpos := length_render_pos v
    have hrest := length_items items
    rw [renderItems, List.length_cons, List.length_append]
    cases items with
    | nil =>
      rw [List.length_nil]
      omega
    | cons w items =>
      rw [List.isEmpty_cons, if_neg Bool.false_ne_true, List.length_append]
      omega

theorem length_members : ∀ members : List (PyKey × PyValue), members.length ≤ (renderMembers members).length
  | [] => Nat.zero_le _
  | (k, v) :: members => by
    have hpos := length_render_pos v
    have hrest := length_members members
    rw [renderMembers, List.length_cons, List.length_append, List.length_append, List.length_append]
    cases members with
    | nil =>
      rw [List.length_nil]
      omega
    | cons m members =>
      rw [List.isEmpty_cons, if_neg Bool.false_ne_true, List.length_append]
      omega

theorem skipWs_items {items : List PyValue} (hne : items ≠ []) (rest : Text) :
    skipWs (renderItems items ++ rest) = renderItems items ++ rest ∧ (renderItems items ++ rest).head? ≠ some ']' := by
  cases items with
  | nil => exact absurd rfl hne
  | cons v items =>
    obtain ⟨c, more, hhead, hc, hclose⟩ := render_head v
    rw [renderItems, hhead, List.cons_append, List.cons_append]
    exact ⟨JsonText.skipWs_cons hc, fun heq => hclose (Option.some_inj.1 heq)⟩

mutual
/-- **A rendered value is read up to what follows it**, unless it has a float that is no number. -/
theorem value_render : ∀ (v : PyValue) (fuel : Nat) (rest : Text), v.render.length < fuel → Follows rest →
    JsonText.value fuel (v.render ++ rest) = if v.finite then some rest else none
  | v, 0, _, h, _ => absurd h (Nat.not_lt_zero _)
  | .none, fuel + 1, rest, _, _ => rfl
  | .bool b, fuel + 1, rest, _, _ => by cases b <;> rfl
  | .int n, fuel + 1, rest, _, hrest => by
    have hnumber := number_intText n hrest.stops
    rw [intText_eq, List.append_assoc] at hnumber
    rw [PyValue.render, intText_eq, List.append_assoc, value_of_number _ (natText_isInt n.natAbs), hnumber]
    rfl
  | .float .nan, fuel + 1, rest, _, _ => rfl
  | .float (.inf negative), fuel + 1, rest, _, _ => by cases negative <;> rfl
  | .float (.finite x), fuel + 1, rest, _, hrest => by
    have hnumber := number_repr x hrest.stops
    rw [Decimal.repr, List.append_assoc, List.append_assoc] at hnumber
    rw [PyValue.render, PyFloat.render, PyValue.finite, Decimal.repr, List.append_assoc, List.append_assoc,
      value_of_number _ x.whole_isInt, hnumber]
    rfl
  | .str s, fuel + 1, rest, _, _ => by
    have hstring := stringRest_escape s rest
    have hread : JsonText.value (fuel + 1) ('"' :: (escape s ++ '"' :: rest)) = stringRest (escape s ++ '"' :: rest) := rfl
    rw [PyValue.render, jsonString_append, hread, hstring]
    rfl
  | .list items, fuel + 1, rest, hfuel, _ => by
    have hsplit : (PyValue.list items).render ++ rest = '[' :: (renderItems items ++ ']' :: rest) := by
      simp [PyValue.render]
    have hlen : (PyValue.list items).render.length = (renderItems items).length + 2 := by
      simp [PyValue.render]
    rw [hsplit]
    by_cases hne : items = []
    · subst hne
      rfl
    · have helements := elements_render items fuel fuel rest hne (by omega) (by
        have hcount := length_items items
        omega)
      obtain ⟨hskip, hhead⟩ := skipWs_items hne (']' :: rest)
      have hread : JsonText.value (fuel + 1) ('[' :: (renderItems items ++ ']' :: rest)) =
          if (skipWs (renderItems items ++ ']' :: rest)).head? = some ']' then
            some (skipWs (renderItems items ++ ']' :: rest)).tail
          else JsonText.elements (JsonText.value fuel) fuel (skipWs (renderItems items ++ ']' :: rest)) := rfl
      rw [hread, hskip, if_neg hhead, helements]
      rfl
  | .dict members, fuel + 1, rest, hfuel, _ => by
    have hsplit : (PyValue.dict members).render ++ rest = '\x7b' :: (renderMembers members ++ '\x7d' :: rest) := by
      simp [PyValue.render]
    have hlen : (PyValue.dict members).render.length = (renderMembers members).length + 2 := by
      simp [PyValue.render]
    rw [hsplit]
    cases members with
    | nil => rfl
    | cons m more =>
      have hmembers := members_render (m :: more) fuel fuel rest (List.cons_ne_nil _ _) (by omega) (by
        have hcount := length_members (m :: more)
        omega)
      have hread : JsonText.value (fuel + 1) ('\x7b' :: (renderMembers (m :: more) ++ '\x7d' :: rest)) =
          JsonText.members (JsonText.value fuel) fuel (renderMembers (m :: more) ++ '\x7d' :: rest) := rfl
      rw [hread, hmembers]
      rfl
theorem elements_render : ∀ (items : List PyValue) (fuel n : Nat) (rest : Text), items ≠ [] →
    (renderItems items).length < fuel → items.length ≤ n →
    JsonText.elements (JsonText.value fuel) n (renderItems items ++ ']' :: rest) =
      if finiteItems items then some rest else none
  | [], _, _, _, hne, _, _ => absurd rfl hne
  | v :: items, fuel, n, rest, _, hfuel, hn => by
    obtain ⟨n, rfl⟩ := Nat.exists_eq_succ_of_ne_zero (n := n) (by
      rw [List.length_cons] at hn
      omega)
    rw [renderItems] at hfuel ⊢
    rw [List.length_append] at hfuel
    rw [finiteItems, JsonText.elements]
    cases items with
    | nil =>
      have hvalue := value_render v fuel (']' :: rest) (by omega) (Follows.cons rest (.inr (.inl rfl)))
      rw [List.isEmpty_nil, if_pos rfl, List.append_nil, hvalue]
      cases v.finite <;> rfl
    | cons w items =>
      have hvalue := value_render v fuel (", ".toList ++ (renderItems (w :: items) ++ ']' :: rest)) (by omega)
        (Follows.cons _ (.inl rfl))
      have hmore := elements_render (w :: items) fuel n rest (List.cons_ne_nil _ _) (by
        simp only [List.isEmpty_cons, Bool.false_eq_true, if_false, List.length_append] at hfuel
        omega) (by simpa using hn)
      obtain ⟨hskip, -⟩ := skipWs_items (List.cons_ne_nil w items) (']' :: rest)
      rw [List.isEmpty_cons, if_neg Bool.false_ne_true, List.append_assoc, List.append_assoc, hvalue]
      cases v.finite with
      | false => rfl
      | true =>
        rw [if_pos rfl, Option.bind_some, Bool.true_and, ← hmore]
        exact congrArg (JsonText.elements (JsonText.value fuel) n) hskip
theorem members_render : ∀ (members : List (PyKey × PyValue)) (fuel n : Nat) (rest : Text), members ≠ [] →
    (renderMembers members).length < fuel → members.length ≤ n →
    JsonText.members (JsonText.value fuel) n (renderMembers members ++ '\x7d' :: rest) =
      if finiteMembers members then some rest else none
  | [], _, _, _, hne, _, _ => absurd rfl hne
  | (k, v) :: members, fuel, n, rest, _, hfuel, hn => by
    obtain ⟨n, rfl⟩ := Nat.exists_eq_succ_of_ne_zero (n := n) (by
      rw [List.length_cons] at hn
      omega)
    rw [renderMembers] at hfuel ⊢
    simp only [List.length_append] at hfuel
    rw [finiteMembers]
    -- the key is a string, then comes the value
    have hkey : ∀ more, JsonText.members (JsonText.value fuel) n.succ
        (jsonString k.text ++ (": ".toList ++ (v.render ++ more))) =
        (JsonText.value fuel (v.render ++ more)).bind (fun rest =>
          match skipWs rest with
          | ',' :: more => JsonText.members (JsonText.value fuel) n (skipWs more)
          | '\x7d' :: more => some more
          | _ => none) := by
      intro more
      have hstring := stringRest_escape k.text (": ".toList ++ (v.render ++ more))
      rw [jsonString_append, JsonText.members, hstring, Option.bind_some]
      have hskip := skipWs_render v more
      exact congrArg (fun text => (JsonText.value fuel text).bind (fun rest =>
          match skipWs rest with
          | ',' :: more => JsonText.members (JsonText.value fuel) n (skipWs more)
          | '\x7d' :: more => some more
          | _ => none)) hskip
    rw [List.append_assoc, List.append_assoc, List.append_assoc, hkey]
    cases members with
    | nil =>
      have hvalue := value_render v fuel ('\x7d' :: rest) (by omega) (Follows.cons rest (.inr (.inr rfl)))
      rw [List.isEmpty_nil, if_pos rfl, List.nil_append, hvalue]
      cases v.finite <;> rfl
    | cons m more =>
      have hvalue := value_render v fuel (", ".toList ++ (renderMembers (m :: more) ++ '\x7d' :: rest)) (by omega)
        (Follows.cons _ (.inl rfl))
      have hmore := members_render (m :: more) fuel n rest (List.cons_ne_nil _ _) (by
        simp only [List.isEmpty_cons, Bool.false_eq_true, if_false, List.length_append] at hfuel
        omega) (by simpa using hn)
      rw [List.isEmpty_cons, if_neg Bool.false_ne_true, List.append_assoc, hvalue]
      cases v.finite with
      | false => rfl
      | true =>
        rw [if_pos rfl, Option.bind_some, Bool.true_and, ← hmore]
        rfl
end

theorem valid_render (v : PyValue) : JsonText.valid v.render = v.finite := by
  have hskip := skipWs_render v []
  have hvalue := value_render v (v.render.length + 1) [] (Nat.lt_succ_self _) nofun
  rw [List.append_nil] at hskip hvalue
  rw [JsonText.valid, hskip, hvalue]
  cases v.finite <;> rfl

/-! ## the bound -/

theorem previewEnvelope_eq (shown : Text) : previewEnvelope shown = (PyValue.dict
    [(.str "preview".toList, .str (shown ++ truncationMarker)), (.str "truncated".toList, .bool true)]).render := by
  rw [PyValue.render, renderMembers, renderMembers, List.isEmpty_cons, List.isEmpty_nil, if_neg Bool.false_ne_true, if_pos rfl,
    PyValue.render, PyValue.render, if_pos rfl, List.append_nil, List.append_assoc, List.append_assoc, List.append_assoc,
    jsonString_append (shown ++ truncationMarker), previewEnvelope, List.append_assoc]
  rfl

theorem valid_envelope (shown : Text) : JsonText.valid (previewEnvelope shown) = true := by
  rw [previewEnvelope_eq, valid_render]
  rfl

theorem valid_scalar : JsonText.valid (jsonString truncationMarker) = true := valid_render (.str truncationMarker)

def KeepsLongest (full : Text) (limit : Nat) (out : Text) : Prop :=
  (∃ n ≤ full.length, out = previewEnvelope (full.take n) ∧ out.length ≤ limit ∧
    ∀ m ≤ full.length, (previewEnvelope (full.take m)).length ≤ limit → m ≤ n) ∨
  ((∀ m ≤ full.length, limit < (previewEnvelope (full.take m)).length) ∧ out = jsonString truncationMarker)

theorem boundedJsonPreview_spec (full : Text) {limit : Nat} (h : 16 ≤ limit) :
    JsonText.valid (boundedJsonPreview full limit) = true ∧ KeepsLongest full limit (boundedJsonPreview full limit) := by
  have hlargest := previewCut_largest full limit
  unfold boundedJsonPreview
  cases hcut : previewCut full limit with
  | some n =>
    obtain ⟨hn, hfits, hlongest⟩ := hlargest.some n hcut
    refine ⟨valid_envelope _, .inl ⟨n, hn, rfl, of_decide_eq_true hfits, fun m hm hfit => ?_⟩⟩
    exact hlongest m hm (decide_eq_true hfit)
  | none =>
    have hscalar : previewScalar limit = jsonString truncationMarker := if_pos (Nat.le_trans (by decide) h)
    rw [hscalar]
    refine ⟨valid_scalar, .inr ⟨fun m hm => ?_, rfl⟩⟩
    exact Nat.lt_of_not_le (of_decide_eq_false (hlargest.none hcut m hm))

/-- **A bounded observation** is JSON exactly where the value has no float that is no number, or is too long to be shown
whole; it is always within the limit, the whole rendering where that fits, and the longest preview where it does not. -/
theorem observation_json_iff {v : PyValue} {full : Text} {limit : Nat} (hv : v.dumps = some full) (hlimit : 16 ≤ limit) :
    (∃ out, v.boundedJsonObservation (some limit) false = some out ∧ JsonText.valid out = true ∧ out.length ≤ limit ∧
      (full.length ≤ limit → out = full) ∧ (limit < full.length → KeepsLongest full limit out)) ↔
    (v.finite = true ∨ limit < full.length) := by
  have hfull : full = v.render := by
    unfold PyValue.dumps at hv
    split at hv
    · exact (Option.some_inj.1 hv).symm
    · cases hv
  have hrun : v.boundedJsonObservation (some limit) false =
      some (if full.length ≤ limit then full else boundedJsonPreview full limit) := by
    rw [PyValue.boundedJsonObservation, hv, Option.map_some]
    simp only [and_true]
  rw [hrun]
  by_cases hfits : full.length ≤ limit
  · rw [if_pos hfits]
    constructor
    · rintro ⟨out, hout, hvalid, -⟩
      rw [← Option.some_inj.1 hout, hfull, valid_render] at hvalid
      exact .inl hvalid
    · intro h
      have hfinite := h.resolve_right (Nat.not_lt.2 hfits)
      refine ⟨full, rfl, ?_, hfits, fun _ => rfl, fun hlong => absurd hlong (Nat.not_lt.2 hfits)⟩
      rw [hfull, valid_render, hfinite]
  · have hlong := Nat.lt_of_not_le hfits
    obtain ⟨hvalid, hlongest⟩ := boundedJsonPreview_spec full hlimit
    rw [if_neg hfits]
    refine ⟨fun _ => .inr hlong, fun _ => ⟨_, rfl, hvalid, length_boundedJsonPreview full limit, ?_, fun _ => hlongest⟩⟩
    exact fun hshort => absurd hshort hfits

theorem observation_json_iff_list :
    (∃ out, (PyValue.list [.int 1, .str ['a']]).boundedJsonObservation (some 16) false = some out ∧ JsonText.valid out = true ∧
      out.length ≤ 16 ∧ ("[1, \"a\"]".toList.length ≤ 16 → out = "[1, \"a\"]".toList) ∧
      (16 < "[1, \"a\"]".toList.length → KeepsLongest "[1, \"a\"]".toList 16 out)) ↔
    ((PyValue.list [.int 1, .str ['a']]).finite = true ∨ 16 < "[1, \"a\"]".toList.length) :=
  observation_json_iff (by decide +kernel) (by decide)

/-- A float that is no number is shown as `NaN`, which is no JSON. -/
theorem nan_no_json : (PyValue.float .nan).boundedJsonObservation (some 16) false = some "NaN".toList ∧
    JsonText.valid "NaN".toList = false := by
  decide +kernel

end Security
end MyGpt
