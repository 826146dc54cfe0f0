import MyGpt.LayoutRanges
import Mathlib.Data.List.TakeWhile
/-!
# PdfRanges — the lines of a PDF's pages in the joined text

Pages are joined and lines are placed by the page bases of that join.  When tables are folded in, the whole text is stripped
again: whitespace at its front, which only a page that OCR has replaced can bring, moves every line.
-/
namespace MyGpt
namespace Rag

open Chat (Text isSpace strip)
open Joins (slice offset)

variable {settings : Settings} {pages : List PdfPage}

def joinedTexts (settings : Settings) (pages : List PdfPage) : List Text := (finalTexts settings pages).filter (· ≠ [])

def pageStart (settings : Settings) (pages : List PdfPage) (i : Nat) : Nat :=
  offset 2 (joinedTexts settings pages) (((finalTexts settings pages).take i).filter (· ≠ [])).length

def frontLoss (settings : Settings) (pages : List PdfPage) : Nat :=
  if pdfTables pages = [] then 0 else ((blankLine.intercalate (joinedTexts settings pages)).takeWhile isSpace).length

def PdfPage.own (settings : Settings) (pages : List PdfPage) (i j : Nat) : Option Own :=
  (pages[i]?).bind (fun page => ((pdfLines (strip page.text) 0 0 page.lines)[j]?).map (fun line =>
    ⟨line.text, pageStart settings pages i + line.charStart - frontLoss settings pages⟩))

def pdfUnits (settings : Settings) (pages : List PdfPage) : List Unit :=
  match (parsePdf settings pages).layout with
  | none => []
  | some layout => layout.pages.flatMap (fun lines => lines.lines.mapIdx (fun j line =>
      ⟨line.charStart, line.charEnd, PdfPage.own settings pages (lines.page - 1) j⟩))

def PdfPage.Lined (page : PdfPage) : Prop :=
  ∃ line ∈ page.lines, strip line.text ≠ [] ∧ line.box.isSome = true ∧ line.text <:+: strip page.text

/-- **No table, or no line, or no whitespace that OCR puts at the front of the document.** -/
def PdfAligned (settings : Settings) (pages : List PdfPage) : Prop :=
  pdfTables pages = [] ∨
    (∀ i page, pages[i]? = some page → page.Lined → (ocrText settings pages i).isSome = true) ∨
    ∀ i text, ocrText settings pages i = some text →
      (∀ j page, j < i → pages[j]? = some page → strip page.text = [] ∧ ocrText settings pages j = none) →
      ∀ c ∈ text.head?, isSpace c = false

/-! ## whitespace -/

theorem length_takeWhile_le {l : Text} {n : Nat} {c : Char} (h : l[n]? = some c) (hc : isSpace c = false) :
    (l.takeWhile isSpace).length ≤ n := by
  by_contra hlong
  have hlt : n < (l.takeWhile isSpace).length := by omega
  have hin : (l.takeWhile isSpace)[n]? = some c := by
    obtain ⟨rest, hrest⟩ := List.takeWhile_prefix isSpace (l := l)
    have hget : (l.takeWhile isSpace ++ rest)[n]? = (l.takeWhile isSpace)[n]? := List.getElem?_append_left hlt
    rw [hrest, h] at hget
    exact hget.symm
  have hspace := List.mem_takeWhile_imp (List.mem_of_getElem? hin)
  simp [hc] at hspace

theorem head_strip {text rest : Text} {c : Char} (h : strip text = c :: rest) : isSpace c = false := by
  have hprefix : strip text <+: text.dropWhile isSpace := by
    unfold strip
    rw [← List.reverse_suffix, List.reverse_reverse]
    exact List.dropWhile_suffix isSpace
  obtain ⟨tail, htail⟩ := hprefix
  rw [h] at htail
  have hhead := List.head?_dropWhile_not isSpace text
  rw [← htail] at hhead
  simpa using hhead

theorem strip_eq_nil {text : Text} : strip text = [] ↔ ∀ c ∈ text, isSpace c = true := by
  unfold strip
  rw [List.reverse_eq_nil_iff, List.dropWhile_eq_nil_iff]
  constructor
  · intro h
    have hnil : text.dropWhile isSpace = [] := by
      by_contra hne
      obtain ⟨c, rest, hcons⟩ := List.exists_cons_of_ne_nil hne
      have hhead := List.head?_dropWhile_not isSpace text
      rw [hcons] at hhead
      have hspace := h c (by simp [hcons])
      simp [hspace] at hhead
    exact fun c hc => List.dropWhile_eq_nil_iff.1 hnil c hc
  · intro h c hc
    rw [List.mem_reverse] at hc
    exact h c ((List.dropWhile_sublist isSpace).subset hc)

theorem strip_append {l r : Text} (hl : strip l ≠ []) (hr : strip r ≠ []) :
    ∃ rest, strip (l ++ r) = l.dropWhile isSpace ++ rest := by
  have hleft : l.dropWhile isSpace ≠ [] := by
    intro hnil
    exact hl (strip_eq_nil.2 (List.dropWhile_eq_nil_iff.1 hnil))
  have hright : r.reverse.dropWhile isSpace ≠ [] := by
    intro hnil
    refine hr (strip_eq_nil.2 ?_)
    intro c hc
    exact List.dropWhile_eq_nil_iff.1 hnil c (List.mem_reverse.2 hc)
  refine ⟨(r.reverse.dropWhile isSpace).reverse, ?_⟩
  unfold strip
  rw [List.dropWhile_append, if_neg (by simpa using hleft), List.reverse_append, List.dropWhile_append,
    if_neg (by simpa using hright), List.reverse_append, List.reverse_reverse]

theorem strip_append_right {l r : Text} (hr : strip r ≠ []) : strip (l ++ r) ≠ [] := by
  intro hnil
  refine hr (strip_eq_nil.2 ?_)
  intro c hc
  exact strip_eq_nil.1 hnil c (by simp [hc])

theorem ne_nil_of_strip {sub text : Text} (hsub : strip sub ≠ []) (h : sub <:+: text) : text ≠ [] := by
  rintro rfl
  rw [List.infix_nil.1 h] at hsub
  exact hsub rfl

/-! ## lines of a page -/

theorem find_spec {text sub : Text} {start position : Nat} (h : find text sub start = some position) :
    slice text position (position + sub.length) = sub ∧ position + sub.length ≤ text.length := by
  have hprefix := List.find?_some h
  simp only [Bool.and_eq_true, List.isPrefixOf_iff_prefix] at hprefix
  obtain ⟨rest, hrest⟩ := hprefix.2
  have hin := List.mem_range.1 (List.mem_of_find?_eq_some h)
  have hlength := congrArg List.length hrest
  simp only [List.length_append, List.length_drop] at hlength
  refine ⟨?_, by omega⟩
  unfold slice
  rw [← hrest, Nat.add_sub_cancel_left, List.take_left]

theorem find_zero {text sub : Text} : (∃ position, find text sub 0 = some position) ↔ sub <:+: text := by
  constructor
  · rintro ⟨position, h⟩
    obtain ⟨hslice, -⟩ := find_spec h
    rw [← hslice]
    exact Joins.slice_infix _ _ _
  · rintro ⟨pre, post, h⟩
    cases hfind : find text sub 0 with
    | some position => exact ⟨position, rfl⟩
    | none =>
      have hnone := List.find?_eq_none.1 hfind pre.length
      have hbound : pre.length < text.length + 1 := by
        rw [← h, List.length_append, List.length_append]
        omega
      have hprefix : sub <+: text.drop pre.length := by
        rw [← h, List.append_assoc, List.drop_left]
        exact List.prefix_append _ _
      exact absurd (by simpa using hprefix) (hnone (List.mem_range.2 hbound))

theorem mem_pdfLines {text : Text} {base cursor : Nat} {lines : List PdfLine} {box : LineBox}
    (h : box ∈ pdfLines text base cursor lines) : strip box.text ≠ [] ∧ ∃ position,
      box.charStart = base + position ∧ box.charEnd = base + position + box.text.length ∧
      slice text position (position + box.text.length) = box.text ∧ position + box.text.length ≤ text.length := by
  induction lines generalizing cursor with
  | nil => cases h
  | cons line lines ih =>
    unfold pdfLines at h
    by_cases hblank : strip line.text = []
    · rw [if_pos hblank] at h
      exact ih h
    · rw [if_neg hblank] at h
      split at h
      · rename_i position b hposition hbox
        rcases List.mem_cons.1 h with rfl | hin
        · refine ⟨hblank, position, rfl, rfl, ?_⟩
          rcases Option.or_eq_some_iff.1 hposition with hfound | ⟨-, hfound⟩
          · exact find_spec hfound
          · exact find_spec hfound
        · exact ih hin
      · exact ih h

theorem pdfLines_ne_nil (text : Text) (base cursor : Nat) (lines : List PdfLine) :
    pdfLines text base cursor lines ≠ [] ↔
      ∃ line ∈ lines, strip line.text ≠ [] ∧ line.box.isSome = true ∧ line.text <:+: text := by
  induction lines generalizing cursor with
  | nil => simp [pdfLines]
  | cons line lines ih =>
    unfold pdfLines
    simp only [List.exists_mem_cons_iff]
    by_cases hblank : strip line.text = []
    · rw [if_pos hblank, ih]
      simp [hblank]
    · rw [if_neg hblank]
      split
      · rename_i position b hposition hbox
        have hfound : line.text <:+: text := by
          rcases Option.or_eq_some_iff.1 hposition with h | ⟨-, h⟩
          · obtain ⟨hslice, -⟩ := find_spec h
            rw [← hslice]
            exact Joins.slice_infix _ _ _
          · exact find_zero.1 ⟨position, h⟩
        simp [hblank, hbox, hfound]
      · rename_i hnone
        have hnot : ¬ (line.box.isSome = true ∧ line.text <:+: text) := by
          rintro ⟨hbox, hfound⟩
          obtain ⟨b, hb⟩ := Option.isSome_iff_exists.1 hbox
          obtain ⟨position, hposition⟩ := find_zero.2 hfound
          obtain ⟨first, hfirst⟩ : ∃ first, (find text line.text cursor).or (find text line.text 0) = some first := by
            cases hat : find text line.text cursor with
            | some first => exact ⟨first, rfl⟩
            | none => exact ⟨position, hposition⟩
          exact hnone first b hfirst hb
        rw [ih]
        simp only [hblank, not_false_eq_true, true_and, hnot, false_or, ne_eq]

/-! ## pages in the join -/

theorem pageBases_lookup {texts : List Text} {i : Nat} {text : Text} (h : texts[i]? = some text) (hne : text ≠ [])
    (number cursor : Nat) (first : Bool) :
    (pageBases number cursor first texts).lookup (number + i) =
      some ((if first then cursor else cursor + 2) +
        offset 2 (texts.filter (· ≠ [])) ((texts.take i).filter (· ≠ [])).length) := by
  induction texts generalizing i number cursor first with
  | nil => simp at h
  | cons t texts ih =>
    unfold pageBases
    by_cases ht : t = []
    · subst ht
      cases i with
      | zero =>
        obtain rfl : [] = text := by simpa using h
        exact absurd rfl hne
      | succ i =>
        have hrest := ih (by simpa using h) (number + 1) cursor first
        rw [if_pos rfl, show number + (i + 1) = number + 1 + i by omega, hrest]
        simp
    · rw [if_neg ht]
      cases i with
      | zero => simp
      | succ i =>
        have hrest := ih (by simpa using h) (number + 1) ((if first then cursor else cursor + 2) + t.length) false
        have hother : (number + (i + 1) == number) = false := by
          rw [beq_eq_false_iff_ne]
          omega
        rw [List.lookup_cons, hother]
        simp only [show number + (i + 1) = number + 1 + i by omega, hrest]
        simp [ht]
        omega

theorem filter_get {texts : List Text} {i : Nat} {text : Text} (h : texts[i]? = some text) (hne : text ≠ []) :
    (texts.filter (· ≠ []))[((texts.take i).filter (· ≠ [])).length]? = some text := by
  induction texts generalizing i with
  | nil => simp at h
  | cons t texts ih =>
    cases i with
    | zero =>
      obtain rfl : t = text := by simpa using h
      simp [hne]
    | succ i =>
      have hrest := ih (by simpa using h)
      by_cases ht : t = []
      · simpa [ht] using hrest
      · simpa [ht] using hrest

theorem finalTexts_get (settings : Settings) {i : Nat} {page : PdfPage} (h : pages[i]? = some page) :
    (finalTexts settings pages)[i]? = some ((ocrText settings pages i).getD (strip page.text)) := by
  simp [finalTexts, h]

theorem mem_pdfUnits (u : Unit) :
    u ∈ pdfUnits settings pages ↔ ∃ (i : Nat) (page : PdfPage) (line : LineBox), pages[i]? = some page ∧
      ocrText settings pages i = none ∧ line ∈ pdfLines (strip page.text) 0 0 page.lines ∧
      u = ⟨pageStart settings pages i + line.charStart, pageStart settings pages i + line.charEnd,
        some ⟨line.text, pageStart settings pages i + line.charStart - frontLoss settings pages⟩⟩ := by
  have hunits : pdfUnits settings pages =
      ((pages.mapIdx (renderPage settings pages)).filterMap id).flatMap (fun lines => lines.lines.mapIdx (fun j line =>
        ⟨line.charStart, line.charEnd, PdfPage.own settings pages (lines.page - 1) j⟩)) := by
    unfold pdfUnits parsePdf
    dsimp only
    by_cases hempty : (pages.mapIdx (renderPage settings pages)).filterMap id = []
    · rw [if_pos hempty, hempty]
      rfl
    · rw [if_neg hempty]
  -- a page that keeps its lines has text, hence a base
  have hrender : ∀ {i : Nat} {page : PdfPage}, pages[i]? = some page → renderPage settings pages i page =
      if (ocrText settings pages i).isSome = true ∨ pdfLines (strip page.text) 0 0 page.lines = [] then none
      else some ⟨i + 1, page.width, page.height,
        PageLines.moved (pageStart settings pages i) (pdfLines (strip page.text) 0 0 page.lines)⟩ := by
    intro i page hpage
    unfold renderPage
    simp only [Bool.or_eq_true, List.isEmpty_iff]
    by_cases hskip : (ocrText settings pages i).isSome = true ∨ pdfLines (strip page.text) 0 0 page.lines = []
    · rw [if_pos hskip, if_pos hskip]
    · rw [if_neg hskip, if_neg hskip]
      rw [not_or, Option.not_isSome_iff_eq_none] at hskip
      obtain ⟨line, -, hblank, -, hfound⟩ := (pdfLines_ne_nil _ _ _ _).1 hskip.2
      have hget : (finalTexts settings pages)[i]? = some (strip page.text) := by
        rw [finalTexts_get settings hpage, hskip.1]
        rfl
      have hbase := pageBases_lookup hget (ne_nil_of_strip hblank hfound) 1 0 true
      rw [Nat.add_comm] at hbase
      rw [hbase]
      simp [pageStart, joinedTexts]
  rw [hunits]
  constructor
  · intro hu
    obtain ⟨lines, hlines, hu⟩ := List.mem_flatMap.1 hu
    obtain ⟨rendered, hin, hrendered⟩ := List.mem_filterMap.1 hlines
    obtain ⟨i, hi, hat⟩ := List.mem_mapIdx.1 hin
    have hpage := List.getElem?_eq_getElem hi
    rw [hrender hpage] at hat
    split at hat
    · subst hat
      cases hrendered
    next hkept =>
      subst hat
      cases hrendered
      rw [not_or, Option.not_isSome_iff_eq_none] at hkept
      obtain ⟨j, hj, rfl⟩ := List.mem_mapIdx.1 hu
      have hjlt : j < (pdfLines (strip pages[i].text) 0 0 pages[i].lines).length := by simpa [PageLines.moved] using hj
      refine ⟨i, pages[i], (pdfLines (strip pages[i].text) 0 0 pages[i].lines)[j], hpage, hkept.1, List.getElem_mem hjlt, ?_⟩
      simp [PageLines.moved, PdfPage.own, hpage, List.getElem?_eq_getElem hjlt]
  · rintro ⟨i, page, line, hpage, hocr, hline, rfl⟩
    obtain ⟨hi, heq⟩ := List.getElem?_eq_some_iff.1 hpage
    obtain ⟨j, hj⟩ := List.mem_iff_getElem?.1 hline
    have hjlt := (List.getElem?_eq_some_iff.1 hj).1
    have hkept : ¬ ((ocrText settings pages i).isSome = true ∨ pdfLines (strip page.text) 0 0 page.lines = []) := by
      rw [hocr]
      rintro (h | h)
      · cases h
      · rw [h] at hline
        cases hline
    refine List.mem_flatMap.2 ⟨⟨i + 1, page.width, page.height,
      PageLines.moved (pageStart settings pages i) (pdfLines (strip page.text) 0 0 page.lines)⟩,
      List.mem_filterMap.2 ⟨_, List.mem_mapIdx.2 ⟨i, hi, rfl⟩, ?_⟩, ?_⟩
    · rw [heq, hrender hpage, if_neg hkept]
      rfl
    · refine List.mem_mapIdx.2 ⟨j, by simpa [PageLines.moved] using hjlt, ?_⟩
      obtain ⟨hbound, hget⟩ := List.getElem?_eq_some_iff.1 hj
      simp [PageLines.moved, PdfPage.own, hpage, hj, hget]

theorem page_placed {i : Nat} {page : PdfPage} (hpage : pages[i]? = some page) (hocr : ocrText settings pages i = none)
    (hne : strip page.text ≠ []) :
    slice (blankLine.intercalate (joinedTexts settings pages)) (pageStart settings pages i)
        (pageStart settings pages i + (strip page.text).length) = strip page.text ∧
      pageStart settings pages i + (strip page.text).length ≤ (blankLine.intercalate (joinedTexts settings pages)).length := by
  have hget : (finalTexts settings pages)[i]? = some (strip page.text) := by
    rw [finalTexts_get settings hpage, hocr]
    rfl
  exact Joins.slice_join blankLine (filter_get hget hne)

theorem frontLoss_le {i : Nat} {page : PdfPage} (hpage : pages[i]? = some page) (hocr : ocrText settings pages i = none)
    (hne : strip page.text ≠ []) : frontLoss settings pages ≤ pageStart settings pages i := by
  unfold frontLoss
  split
  · omega
  · obtain ⟨hslice, hin⟩ := page_placed hpage hocr hne
    obtain ⟨c, rest, hcons⟩ := List.exists_cons_of_ne_nil hne
    apply length_takeWhile_le (c := c)
    · have hfirst := congrArg (fun l => l[0]?) hslice
      simpa [slice, hcons] using hfirst
    · exact head_strip hcons

theorem parsePdf_text {i : Nat} {page : PdfPage} (hpage : pages[i]? = some page) (hocr : ocrText settings pages i = none)
    (hne : strip page.text ≠ []) (hloss : frontLoss settings pages = 0) :
    ∃ rest, (parsePdf settings pages).text = blankLine.intercalate (joinedTexts settings pages) ++ rest := by
  change ∃ rest, foldTables (blankLine.intercalate (joinedTexts settings pages)) (pdfTables pages) = _
  unfold foldTables
  unfold frontLoss at hloss
  split
  · exact ⟨[], by simp⟩
  next htables =>
    rw [if_neg htables] at hloss
    obtain ⟨hslice, -⟩ := page_placed hpage hocr hne
    have hjoined : strip (blankLine.intercalate (joinedTexts settings pages)) ≠ [] := by
      obtain ⟨c, rest, hcons⟩ := List.exists_cons_of_ne_nil hne
      intro hnil
      have hin : c ∈ blankLine.intercalate (joinedTexts settings pages) := by
        have hmem : c ∈ strip page.text := by simp [hcons]
        rw [← hslice] at hmem
        exact List.mem_of_mem_drop (List.mem_of_mem_take hmem)
      have hspace := strip_eq_nil.1 hnil c hin
      rw [head_strip hcons] at hspace
      cases hspace
    have hblank : strip (blankLine.intercalate (pdfTables pages)) ≠ [] := by
      obtain ⟨table, tables, hcons⟩ := List.exists_cons_of_ne_nil htables
      have htable : strip table ≠ [] := by
        have hin : table ∈ pdfTables pages := by simp [hcons]
        simpa using (List.mem_filter.1 hin).2
      intro hnil
      refine htable (strip_eq_nil.2 ?_)
      intro c hc
      exact strip_eq_nil.1 hnil c (mem_intercalate_of_part (by simp [hcons]) hc)
    rw [List.append_assoc]
    obtain ⟨rest, hrest⟩ := strip_append hjoined (strip_append_right (l := blankLine) hblank)
    refine ⟨rest, ?_⟩
    have hsplit := List.takeWhile_append_dropWhile (p := isSpace) (l := blankLine.intercalate (joinedTexts settings pages))
    rw [List.length_eq_zero_iff.1 hloss, List.nil_append] at hsplit
    rw [hrest, hsplit]

theorem pdf_unit_points {i : Nat} {page : PdfPage} {line : LineBox} (hpage : pages[i]? = some page)
    (hocr : ocrText settings pages i = none) (hline : line ∈ pdfLines (strip page.text) 0 0 page.lines) :
    Unit.Points (parsePdf settings pages).text ⟨pageStart settings pages i + line.charStart,
      pageStart settings pages i + line.charEnd,
      some ⟨line.text, pageStart settings pages i + line.charStart - frontLoss settings pages⟩⟩ ↔
      frontLoss settings pages = 0 := by
  obtain ⟨hblank, position, hstart, hend, hfound, hinside⟩ := mem_pdfLines hline
  have hne : strip page.text ≠ [] := by
    refine ne_nil_of_strip hblank ?_
    rw [← hfound]
    exact Joins.slice_infix _ _ _
  have hbefore := frontLoss_le hpage hocr hne
  constructor
  · rintro ⟨own, hown, -, -, hplace⟩
    cases hown
    dsimp only at hplace
    omega
  · intro hloss
    obtain ⟨hslice, hin⟩ := page_placed hpage hocr hne
    obtain ⟨hnested, hnestedin⟩ := slice_nested (a := position) hslice hin hinside
    obtain ⟨rest, htext⟩ := parsePdf_text hpage hocr hne hloss
    refine ⟨_, rfl, ?_, ?_, ?_⟩
    · rw [htext, hend, Nat.zero_add, List.length_append]
      dsimp only
      omega
    · rw [htext, hstart, hend, Nat.zero_add, Joins.slice_append_left _ hnestedin, hnested]
      exact hfound
    · rw [hloss]
      rfl

/-! ## the front of the join -/

theorem head_join (texts : List Text) :
    (blankLine.intercalate (texts.filter (· ≠ []))).head? = (texts.find? (· ≠ [])).bind List.head? := by
  induction texts with
  | nil => rfl
  | cons t texts ih =>
    by_cases ht : t = []
    · simpa [ht] using ih
    · obtain ⟨c, t', rfl⟩ := List.exists_cons_of_ne_nil ht
      rw [List.filter_cons_of_pos (by simp), List.find?_cons_of_pos (by simp)]
      by_cases hrest : texts.filter (· ≠ []) = []
      · rw [hrest]
        simp
      · rw [List.intercalate_cons_of_ne_nil hrest]
        simp

theorem frontLoss_eq_zero : frontLoss settings pages = 0 ↔ pdfTables pages = [] ∨
    ∀ i text, ocrText settings pages i = some text →
      (∀ j page, j < i → pages[j]? = some page → strip page.text = [] ∧ ocrText settings pages j = none) →
      ∀ c ∈ text.head?, isSpace c = false := by
  unfold frontLoss
  by_cases htables : pdfTables pages = []
  · simp [htables]
  rw [if_neg htables]
  simp only [htables, false_or]
  have hhead : ((blankLine.intercalate (joinedTexts settings pages)).takeWhile isSpace).length = 0 ↔
      ∀ c ∈ ((finalTexts settings pages).find? (· ≠ [])).bind List.head?, isSpace c = false := by
    rw [← head_join]
    change ((blankLine.intercalate ((finalTexts settings pages).filter (· ≠ []))).takeWhile isSpace).length = 0 ↔ _
    cases blankLine.intercalate ((finalTexts settings pages).filter (· ≠ [])) with
    | nil => simp
    | cons c rest =>
      by_cases hc : isSpace c = true
      · simp [hc]
      · simp [hc]
  rw [hhead]
  constructor
  · intro hfirst i text hocr hbefore c hc
    have hi : i < pages.length := by
      by_contra hbeyond
      have hnone := List.getElem?_eq_none (l := pages) (Nat.le_of_not_lt hbeyond)
      unfold ocrText at hocr
      simp [hnone] at hocr
    have hne : text ≠ [] := by
      rintro rfl
      cases hc
    refine hfirst c (Option.bind_eq_some_iff.2 ⟨text, ?_, hc⟩)
    refine List.find?_eq_some_iff_getElem.2 ⟨by simpa using hne, i, by simpa [finalTexts] using hi, ?_, ?_⟩
    · have hget := finalTexts_get settings (List.getElem?_eq_getElem hi)
      rw [hocr] at hget
      exact (List.getElem?_eq_some_iff.1 hget).2
    · intro j hj
      have hjlt : j < pages.length := by omega
      obtain ⟨hempty, hnone⟩ := hbefore j pages[j] hj (List.getElem?_eq_getElem hjlt)
      have hget := finalTexts_get settings (List.getElem?_eq_getElem hjlt)
      rw [hnone, Option.getD_none, hempty] at hget
      simp [(List.getElem?_eq_some_iff.1 hget).2]
  · intro hocrs c hc
    obtain ⟨text, hfind, hchar⟩ := Option.bind_eq_some_iff.1 hc
    obtain ⟨hne, i, hi, hat, hbefore⟩ := List.find?_eq_some_iff_getElem.1 hfind
    have hilt : i < pages.length := by simpa [finalTexts] using hi
    have hget := finalTexts_get settings (List.getElem?_eq_getElem hilt)
    rw [List.getElem?_eq_getElem hi, hat, Option.some.injEq] at hget
    cases hocr : ocrText settings pages i with
    | none =>
      rw [hocr, Option.getD_none] at hget
      obtain ⟨rest, hrest⟩ := List.head?_eq_some_iff.1 hchar
      exact head_strip (hget.symm.trans hrest)
    | some replaced =>
      rw [hocr, Option.getD_some] at hget
      subst hget
      refine hocrs i text hocr ?_ c hchar
      intro j page hj hpage
      have hjempty := hbefore j hj
      have hjget := finalTexts_get settings hpage
      rw [List.getElem?_eq_getElem (by omega)] at hjget
      have hnil : (ocrText settings pages j).getD (strip page.text) = [] := by
        rw [← Option.some.inj hjget]
        simpa using hjempty
      cases hjocr : ocrText settings pages j with
      | none => exact ⟨by simpa [hjocr] using hnil, rfl⟩
      | some other =>
        -- a page is not replaced by a blank text
        exfalso
        have hother : other = [] := by simpa [hjocr] using hnil
        subst hother
        unfold ocrText at hjocr
        dsimp only at hjocr
        split at hjocr
        · have hblank := (Option.filter_eq_some_iff.1 hjocr).2
          simp [strip] at hblank
        · cases hjocr

theorem pdf_points_iff (settings : Settings) (pages : List PdfPage) :
    (∀ u ∈ pdfUnits settings pages, u.Points (parsePdf settings pages).text) ↔ PdfAligned settings pages := by
  have hpoints : (∀ u ∈ pdfUnits settings pages, u.Points (parsePdf settings pages).text) ↔
      (∀ i page, pages[i]? = some page → page.Lined → (ocrText settings pages i).isSome = true) ∨
        frontLoss settings pages = 0 := by
    constructor
    · intro hall
      by_cases hlined : ∀ i page, pages[i]? = some page → page.Lined → (ocrText settings pages i).isSome = true
      · exact .inl hlined
      · push Not at hlined
        obtain ⟨i, page, hpage, hlines, hkept⟩ := hlined
        have hocr : ocrText settings pages i = none := by simpa using hkept
        obtain ⟨line, hline⟩ := List.exists_mem_of_ne_nil _ ((pdfLines_ne_nil (strip page.text) 0 0 page.lines).2 hlines)
        exact .inr ((pdf_unit_points hpage hocr hline).1
          (hall _ ((mem_pdfUnits _).2 ⟨i, page, line, hpage, hocr, hline, rfl⟩)))
    · intro hor u hu
      obtain ⟨i, page, line, hpage, hocr, hline, rfl⟩ := (mem_pdfUnits u).1 hu
      refine (pdf_unit_points hpage hocr hline).2 (hor.resolve_left ?_)
      intro hlined
      have hne : pdfLines (strip page.text) 0 0 page.lines ≠ [] := by
        intro hnil
        rw [hnil] at hline
        cases hline
      have hsome := hlined i page hpage ((pdfLines_ne_nil _ _ _ _).1 hne)
      rw [hocr] at hsome
      cases hsome
  rw [hpoints, frontLoss_eq_zero]
  constructor
  · rintro (h | h | h)
    · exact .inr (.inl h)
    · exact .inl h
    · exact .inr (.inr h)
  · rintro (h | h | h)
    · exact .inr (.inl h)
    · exact .inl h
    · exact .inr (.inr h)

end Rag
end MyGpt
