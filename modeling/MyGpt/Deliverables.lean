import MyGpt.Characters
import MyGpt.Lib.Regex
import Mathlib.Data.List.Nodup
/-!
# Deliverables — the files of a reply that become downloads

`extract_deliverable_paths` of `providers/hermes.py`.  A path is compared with the forbidden places as it is spelled, so
what is returned stays out of them exactly when no dot segment leads into one (`deliverables_iff`).
-/
namespace MyGpt
namespace Hermes
namespace Deliverables

open Chat (Text)
open Regex (Pattern Accepts findIter)

/-! ## the pattern -/

def isAsciiAlpha (c : Char) : Bool := ('a' ≤ c && c ≤ 'z') || ('A' ≤ c && c ≤ 'Z')

def isAsciiAlnum (c : Char) : Bool := isAsciiAlpha c || ('0' ≤ c && c ≤ '9')

/-- A character of `_PATH_SEG`. -/
def isSegmentChar (c : Char) : Bool :=
  let n := c.toNat
  isAsciiAlnum c || c == '_' || c == '.' || c == '-' || (0x4e00 ≤ n && n ≤ 0x9fff) || (0x3040 ≤ n && n ≤ 0x30ff) ||
    (0xac00 ≤ n && n ≤ 0xd7af)

def lit (c : Char) : Pattern Char := .char (· == c)

def pathSeg : Pattern Char := .seq (.char isSegmentChar) (.star (.char isSegmentChar))

/-- `[A-Za-z0-9]{2,8}` -/
def extension : Pattern Char :=
  .seq (.char isAsciiAlnum) (.seq (.char isAsciiAlnum) (.upTo 6 (.char isAsciiAlnum)))

def segments (separator : Char) : Pattern Char :=
  .seq (.star (.seq pathSeg (lit separator))) (.seq pathSeg (.seq (lit '.') extension))

def windowsPath : Pattern Char := .seq (.char isAsciiAlpha) (.seq (lit ':') (.seq (lit '\\') (segments '\\')))

def posixPath : Pattern Char := .seq (lit '/') (segments '/')

/-- `_FILE_PATH_RE`; `isWord` says which characters `\\w` has. -/
def filePathRe (isWord : Char → Bool) : Pattern Char :=
  .seq (.notBehind (fun c => isWord c || c == '.' || c == '/' || c == '\\' || c == '-'))
    (.seq (.alt windowsPath posixPath) (.notAhead (fun c => isWord c || c == '.')))

/-! ## the filter -/

def deliverableExtensions : List Text :=
  [".pdf", ".pptx", ".ppt", ".docx", ".doc", ".xlsx", ".xls", ".csv", ".txt", ".md", ".json", ".xml", ".yaml", ".yml",
    ".png", ".jpg", ".jpeg", ".gif", ".webp", ".svg", ".zip", ".tar", ".gz", ".mp3", ".mp4", ".wav", ".html", ".py",
    ".ipynb"].map String.toList

def forbiddenPrefixes : List Text := ["/etc/", "/proc/", "/sys/", "/dev/", "C:\\Windows\\"].map String.toList

/-- `raw.replace("\\", "/")` -/
def normalized (path : Text) : Text := path.map (fun c => if c = '\\' then '/' else c)

/-- `normalized.lower()`, for the characters a path can have. -/
def lowered (path : Text) : Text := (normalized path).map Char.toLower

/-- `os.path.splitext(path)[1]` -/
def splitextExt (path : Text) : Text :=
  let base := (path.reverse.takeWhile (· != '/')).reverse
  let ext := (base.reverse.takeWhile (· != '.')).reverse
  let stem := base.take (base.length - ext.length - 1)
  if base.contains '.' && stem.any (· != '.') then '.' :: ext else []

/-- `raw.rstrip(".,;:!?)]}\"'")` -/
def isClosing (c : Char) : Bool := ['.', ',', ';', ':', '!', '?', ')', ']', '\x7d', '"', '\''].contains c

def rstrip (raw : Text) : Text := (raw.reverse.dropWhile isClosing).reverse

def whitelisted (path : Text) : Bool := deliverableExtensions.contains (splitextExt (lowered path))

def startsForbidden (path : Text) : Bool := forbiddenPrefixes.any (fun p => (lowered p).isPrefixOf (lowered path))

def keepPath (out : List Text) (found : Text) : List Text :=
  let raw := rstrip found
  if !whitelisted raw then out
  else if startsForbidden raw then out
  else if out.contains raw then out
  else out ++ [raw]

def extractDeliverablePaths (isWord : Char → Bool) (text : Text) : List Text :=
  ((findIter (filePathRe isWord) text).map (·.2)).foldl keepPath []

/-- `_is_absolute_path`, which `fetch_file` asks before it reads a file. -/
def isAbsolutePath : Text → Bool
  | '/' :: _ => true
  | c :: ':' :: d :: _ => isAsciiAlpha c && (d == '\\' || d == '/')
  | _ => false

/-! ## the file a path names -/

def segmentsOf (path : Text) : List Text := (normalized path).splitOn '/'

def isDots (segment : Text) : Bool := segment == ['.'] || segment == ['.', '.']

def resolveSegments : List Text → List Text → List Text
  | stack, [] => stack.reverse
  | stack, segment :: rest =>
    if segment = [] ∨ segment = ['.'] then resolveSegments stack rest
    else if segment = ['.', '.'] then resolveSegments stack.tail rest
    else resolveSegments (segment :: stack) rest

def resolvePath (path : Text) : Text :=
  match segmentsOf path with
  | [] => []
  | root :: rest => ['/'].intercalate (root :: resolveSegments [] rest)

def hasDotSegment (path : Text) : Bool := (segmentsOf path).tail.any isDots

def firstFound (isWord : Char → Bool) (text path : Text) : Nat :=
  (((findIter (filePathRe isWord) text).find? (fun m => rstrip m.2 = path)).map (·.1)).getD 0

/-- **What the returned paths should be.** -/
structure SafePaths (isWord : Char → Bool) (text : Text) (paths : List Text) : Prop where
  absolute : ∀ path ∈ paths, isAbsolutePath path = true
  extension : ∀ path ∈ paths, whitelisted path = true
  occurs : ∀ path ∈ paths, path <:+: text
  allowed : ∀ path ∈ paths, startsForbidden (resolvePath path) = false
  nodup : paths.Nodup
  inOrder : paths.Pairwise (fun p q => firstFound isWord text p < firstFound isWord text q)

/-! ## what the pattern finds -/

theorem accepts_lit {c : Char} {u : Text} (h : Accepts (lit c) u) : u = [c] := by
  cases h with
  | char hc => rw [beq_iff_eq.1 hc]

theorem accepts_pathSeg {u : Text} (h : Accepts pathSeg u) : u ≠ [] ∧ ∀ c ∈ u, isSegmentChar c = true := by
  cases h with
  | seq hfirst hrest =>
    cases hfirst with
    | char hc =>
      refine ⟨List.cons_ne_nil _ _, fun c hmem => ?_⟩
      rcases List.mem_cons.1 hmem with rfl | hmem
      · exact hc
      · exact Accepts.rounds_forall (.inl hrest) c hmem

theorem accepts_extension {u : Text} (h : Accepts extension u) : u ≠ [] ∧ ∀ c ∈ u, isAsciiAlnum c = true := by
  cases h with
  | seq hfirst hrest =>
    cases hrest with
    | seq hsecond hmore =>
      cases hfirst with
      | char hc =>
        cases hsecond with
        | char hd =>
          refine ⟨List.cons_ne_nil _ _, fun c hmem => ?_⟩
          rcases List.mem_cons.1 hmem with rfl | hmem
          · exact hc
          · rcases List.mem_cons.1 hmem with rfl | hmem
            · exact hd
            · exact Accepts.rounds_forall (.inr ⟨6, hmore⟩) c hmem

theorem segmentChar_ne {c : Char} (h : isSegmentChar c = true) : c ≠ '/' ∧ c ≠ '\\' := by
  refine ⟨?_, ?_⟩
  · rintro rfl
    exact absurd h (by decide)
  · rintro rfl
    exact absurd h (by decide)

theorem alnum_segmentChar {c : Char} (h : isAsciiAlnum c = true) : isSegmentChar c = true := by
  simp [isSegmentChar, h]

theorem normalized_append (u v : Text) : normalized (u ++ v) = normalized u ++ normalized v := List.map_append

theorem normalized_segment {u : Text} (h : ∀ c ∈ u, isSegmentChar c = true) : normalized u = u := by
  conv_rhs => rw [← List.map_id u]
  exact List.map_congr_left (fun c hc => if_neg (segmentChar_ne (h c hc)).2)

theorem splitOn_segment {u v : Text} (h : ∀ c ∈ u, isSegmentChar c = true) :
    (normalized u ++ '/' :: v).splitOn '/' = u :: v.splitOn '/' := by
  rw [normalized_segment h]
  exact List.splitOn_append_cons_self_of_not_mem (fun hmem => (segmentChar_ne (h _ hmem)).1 rfl) v

theorem accepts_fileName {u : Text} (h : Accepts (.seq pathSeg (.seq (lit '.') extension)) u) :
    ∃ stem ext : Text, u = stem ++ ext ∧ ext ≠ [] ∧ (∀ c ∈ ext, isAsciiAlnum c = true) ∧ u ≠ [] ∧
      ∀ c ∈ u, isSegmentChar c = true := by
  cases h with
  | seq hstem hrest =>
    cases hrest with
    | @seq _ _ dot ext hdot hext =>
      rename_i stem
      obtain rfl := accepts_lit hdot
      obtain ⟨hne, hchars⟩ := accepts_pathSeg hstem
      obtain ⟨hext_ne, hext_chars⟩ := accepts_extension hext
      refine ⟨stem ++ ['.'], ext, by rw [List.append_assoc], hext_ne, hext_chars, by simp [hne], fun c hc => ?_⟩
      rcases List.mem_append.1 hc with hc | hc
      · exact hchars c hc
      · rcases List.mem_append.1 hc with hc | hc
        · rw [List.mem_singleton.1 hc]
          decide
        · exact alnum_segmentChar (hext_chars c hc)

theorem accepts_segments {separator : Char} (hsep : separator = '/' ∨ separator = '\\') {u : Text}
    (h : Accepts (segments separator) u) : (∀ segment ∈ (normalized u).splitOn '/', segment ≠ []) ∧
      ∃ front ext : Text, u = front ++ ext ∧ ext ≠ [] ∧ ∀ c ∈ ext, isAsciiAlnum c = true := by
  cases h with
  | @seq _ _ directories name hdirs hname =>
    obtain ⟨stem, ext, hsplit, hext_ne, hext, hname_ne, hchars⟩ := accepts_fileName hname
    refine ⟨?_, directories ++ stem, ext, by rw [hsplit, List.append_assoc], hext_ne, hext⟩
    rw [normalized_append]
    refine Accepts.star_rec
      (P := fun v => ∀ segment ∈ (normalized v ++ normalized name).splitOn '/', segment ≠ []) ?_ ?_ hdirs
    · rw [normalized_segment hchars]
      have hsingle : name.splitOn '/' = [name] :=
        List.splitOn_eq_singleton (fun hmem => (segmentChar_ne (hchars _ hmem)).1 rfl)
      intro segment hmem
      rw [show normalized [] ++ name = name from rfl, hsingle, List.mem_singleton] at hmem
      exact hmem ▸ hname_ne
    · intro v w hv hw
      cases hv with
      | @seq _ _ directory slash hdir hslash =>
        obtain rfl := accepts_lit hslash
        obtain ⟨hne, hdirchars⟩ := accepts_pathSeg hdir
        have hnorm : normalized [separator] = ['/'] := by
          rcases hsep with rfl | rfl <;> rfl
        intro segment hmem
        rw [normalized_append, normalized_append, hnorm, List.append_assoc, List.append_assoc, List.singleton_append,
          splitOn_segment hdirchars, List.mem_cons] at hmem
        rcases hmem with rfl | hmem
        · exact hne
        · exact hw segment hmem

/-- **What a match is**: an absolute path without empty segments that ends in a letter or a digit. -/
structure FilePath (path : Text) : Prop where
  absolute : isAbsolutePath path = true
  segments : ∀ segment ∈ (segmentsOf path).tail, segment ≠ []
  rstrip : Deliverables.rstrip path = path

theorem rstrip_ext {front ext : Text} (hne : ext ≠ []) (hext : ∀ c ∈ ext, isAsciiAlnum c = true) :
    rstrip (front ++ ext) = front ++ ext := by
  obtain ⟨init, last, rfl⟩ := List.eq_nil_or_concat ext |>.resolve_left hne
  have hlast : isClosing last = false := by
    have halnum := hext last (by simp)
    cases hclose : isClosing last with
    | false => rfl
    | true =>
      have hmem : last ∈ ['.', ',', ';', ':', '!', '?', ')', ']', '\x7d', '"', '\''] := by
        simpa [isClosing] using hclose
      have hall : ∀ c ∈ ['.', ',', ';', ':', '!', '?', ')', ']', '\x7d', '"', '\''], isAsciiAlnum c = false := by decide
      rw [hall last hmem] at halnum
      cases halnum
  unfold rstrip
  rw [List.concat_eq_append, ← List.append_assoc, List.reverse_append, List.reverse_singleton, List.singleton_append,
    List.dropWhile_cons_of_neg (by simp [hlast]), List.reverse_cons, List.reverse_reverse]

theorem absolute_drive {drive : Char} (h : isAsciiAlpha drive = true) {rest : Text} :
    isAbsolutePath (drive :: ':' :: '\\' :: rest) = true := by
  unfold isAbsolutePath
  split
  · rfl
  · rename_i heq
    simp only [List.cons.injEq] at heq
    obtain ⟨rfl, -, rfl, -⟩ := heq
    simp [h]
  · rename_i hno
    exact absurd rfl (hno drive '\\' rest)

theorem accepts_filePath {isWord : Char → Bool} {path : Text} (h : Accepts (filePathRe isWord) path) : FilePath path := by
  cases h with
  | seq hbehind hrest =>
    cases hbehind with
    | behind =>
      cases hrest with
      | seq hpath hahead =>
        cases hahead with
        | ahead =>
          rw [List.append_nil, List.nil_append]
          cases hpath with
          | left hwin =>
            cases hwin with
            | seq hdrive hrest =>
              cases hdrive with
              | @char _ drive hd =>
                cases hrest with
                | seq hcolon hrest =>
                  obtain rfl := accepts_lit hcolon
                  cases hrest with
                  | seq hslash hsegs =>
                    obtain rfl := accepts_lit hslash
                    obtain ⟨hsegs, front, ext, rfl, hne, hext⟩ := accepts_segments (.inr rfl) hsegs
                    refine ⟨absolute_drive hd, fun segment hmem => ?_, ?_⟩
                    · have hchars : ∀ c ∈ [drive, ':'], c ≠ '/' ∧ c ≠ '\\' := by
                        intro c hc
                        rcases List.mem_cons.1 hc with rfl | hc
                        · exact segmentChar_ne (alnum_segmentChar (by simp [isAsciiAlnum, hd]))
                        · rw [List.mem_singleton.1 hc]
                          decide
                      have hroot : normalized ([drive] ++ ([':'] ++ (['\\'] ++ (front ++ ext)))) =
                          [drive, ':'] ++ '/' :: normalized (front ++ ext) := by
                        have h0 := (hchars drive (by simp)).2
                        simp [normalized, h0]
                      have hsplit : segmentsOf ([drive] ++ ([':'] ++ (['\\'] ++ (front ++ ext)))) =
                          [drive, ':'] :: (normalized (front ++ ext)).splitOn '/' := by
                        unfold segmentsOf
                        rw [hroot]
                        exact List.splitOn_append_cons_self_of_not_mem (fun hmem => (hchars _ hmem).1 rfl) _
                      rw [hsplit] at hmem
                      exact hsegs segment hmem
                    · rw [show [drive] ++ ([':'] ++ (['\\'] ++ (front ++ ext))) =
                        ([drive, ':', '\\'] ++ front) ++ ext by simp]
                      exact rstrip_ext hne hext
          | right hposix =>
            cases hposix with
            | seq hslash hsegs =>
              obtain rfl := accepts_lit hslash
              obtain ⟨hsegs, front, ext, rfl, hne, hext⟩ := accepts_segments (.inl rfl) hsegs
              refine ⟨rfl, fun segment hmem => ?_, ?_⟩
              · have hsplit : segmentsOf (['/'] ++ (front ++ ext)) = [] :: (normalized (front ++ ext)).splitOn '/' :=
                  List.splitOn_append_cons_self_of_not_mem (a := '/') (@List.not_mem_nil _ '/') (normalized (front ++ ext))
                rw [hsplit] at hmem
                exact hsegs segment hmem
              · rw [← List.append_assoc]
                exact rstrip_ext hne hext

/-! ## resolution -/

theorem lowered_normalized (path : Text) : lowered (normalized path) = lowered path := by
  have hone : ∀ c : Char, (if (if c = '\\' then '/' else c) = '\\' then '/' else if c = '\\' then '/' else c) =
      if c = '\\' then '/' else c := by
    intro c
    by_cases hc : c = '\\'
    · subst hc
      rfl
    · rw [if_neg hc, if_neg hc]
  unfold lowered normalized
  rw [List.map_map, List.map_map, List.map_map]
  exact List.map_congr_left (fun c _ => congrArg Char.toLower (hone c))

theorem resolveSegments_plain : ∀ (segments stack : List Text), (∀ s ∈ segments, s ≠ []) →
    segments.any isDots = false → resolveSegments stack segments = stack.reverse ++ segments
  | [], stack, _, _ => (List.append_nil _).symm
  | s :: rest, stack, hne, hdots => by
    rw [List.any_cons, Bool.or_eq_false_iff] at hdots
    have hs : s ≠ ['.'] ∧ s ≠ ['.', '.'] := by simpa [isDots] using hdots.1
    unfold resolveSegments
    rw [if_neg (by simp [hne s List.mem_cons_self, hs.1]), if_neg hs.2,
      resolveSegments_plain rest (s :: stack) (fun t ht => hne t (List.mem_cons_of_mem _ ht)) hdots.2]
    simp

theorem startsForbidden_resolve {path : Text} (h : FilePath path) (hdots : hasDotSegment path = false) :
    startsForbidden (resolvePath path) = startsForbidden path := by
  have hresolve : resolvePath path = normalized path := by
    have hwhole : ['/'].intercalate (segmentsOf path) = normalized path := List.intercalate_splitOn '/'
    have hsegments := h.segments
    unfold hasDotSegment at hdots
    unfold resolvePath
    cases hs : segmentsOf path with
    | nil => exact absurd hs (List.splitOn_ne_nil _ _)
    | cons root rest =>
      rw [hs, List.tail_cons] at hdots hsegments
      dsimp only
      rw [resolveSegments_plain rest [] hsegments hdots, List.reverse_nil, List.nil_append, ← hs, hwhole]
  unfold startsForbidden
  rw [hresolve, lowered_normalized]

/-! ## what is kept -/

def wanted (path : Text) : Bool := whitelisted path && !startsForbidden path

theorem keepPath_eq (out : List Text) (m : Text) :
    keepPath out m = if wanted (rstrip m) = true ∧ rstrip m ∉ out then out ++ [rstrip m] else out := by
  unfold keepPath wanted
  cases hw : whitelisted (rstrip m) <;> cases hf : startsForbidden (rstrip m) <;>
    by_cases hmem : rstrip m ∈ out <;> simp [hw, hf, hmem]

def firstIn (found : List (Nat × Text)) (path : Text) : Nat :=
  ((found.find? (fun m => rstrip m.2 = path)).map (·.1)).getD 0

/-- What holds of the list after the matches `pre`. -/
structure Kept (found pre : List (Nat × Text)) (out : List Text) : Prop where
  mem : ∀ path, path ∈ out ↔ wanted path = true ∧ ∃ m ∈ pre, rstrip m.2 = path
  nodup : out.Nodup
  inOrder : out.Pairwise (fun p q => firstIn found p < firstIn found q)

theorem firstIn_lt {found pre post : List (Nat × Text)} {m : Nat × Text} (hsplit : found = pre ++ m :: post)
    (hinc : found.Pairwise (fun m m' => m.1 < m'.1)) {path : Text} (h : ∃ m' ∈ pre, rstrip m'.2 = path) :
    firstIn found path < m.1 := by
  obtain ⟨m', hm', hpath⟩ := h
  obtain ⟨first, hfirst⟩ := Option.isSome_iff_exists.1
    (List.find?_isSome (p := fun x : Nat × Text => decide (rstrip x.2 = path)).2 ⟨m', hm', by simpa using hpath⟩)
  have hfind : found.find? (fun x => decide (rstrip x.2 = path)) = some first := by
    rw [hsplit, List.find?_append, hfirst]
    rfl
  unfold firstIn
  rw [hfind]
  rw [hsplit, List.pairwise_append] at hinc
  exact hinc.2.2 first (List.mem_of_find?_eq_some hfirst) m List.mem_cons_self

theorem firstIn_new {found pre post : List (Nat × Text)} {m : Nat × Text} (hsplit : found = pre ++ m :: post)
    (h : ∀ m' ∈ pre, rstrip m'.2 ≠ rstrip m.2) : firstIn found (rstrip m.2) = m.1 := by
  have hnone : pre.find? (fun x => decide (rstrip x.2 = rstrip m.2)) = none := by
    rw [List.find?_eq_none]
    intro x hx
    simpa using h x hx
  unfold firstIn
  rw [hsplit, List.find?_append, hnone, Option.none_or, List.find?_cons_of_pos (by simp)]
  rfl

theorem Kept.step {found pre post : List (Nat × Text)} {m : Nat × Text} (hsplit : found = pre ++ m :: post)
    (hinc : found.Pairwise (fun m m' => m.1 < m'.1)) {out : List Text} (h : Kept found pre out) :
    Kept found (pre ++ [m]) (keepPath out m.2) := by
  have hmore : ∀ path, (∃ x ∈ pre ++ [m], rstrip x.2 = path) ↔ (∃ x ∈ pre, rstrip x.2 = path) ∨ rstrip m.2 = path := by
    intro path
    simp only [List.mem_append, List.mem_singleton, or_and_right, exists_or, exists_eq_left]
  rw [keepPath_eq]
  split
  · rename_i hnew
    obtain ⟨hwanted, hmem⟩ := hnew
    have hfresh : ∀ m' ∈ pre, rstrip m'.2 ≠ rstrip m.2 := fun m' hm' heq => hmem ((h.mem _).2 ⟨hwanted, m', hm', heq⟩)
    refine ⟨fun path => ?_, ?_, ?_⟩
    · rw [hmore, List.mem_append, List.mem_singleton, h.mem]
      constructor
      · rintro (⟨hw, hx⟩ | rfl)
        · exact ⟨hw, .inl hx⟩
        · exact ⟨hwanted, .inr rfl⟩
      · rintro ⟨hw, hx | rfl⟩
        · exact .inl ⟨hw, hx⟩
        · exact .inr rfl
    · rw [List.nodup_append]
      refine ⟨h.nodup, List.nodup_singleton _, fun p hp q hq heq => hmem ?_⟩
      rw [List.mem_singleton.1 hq] at heq
      exact heq ▸ hp
    · rw [List.pairwise_append]
      refine ⟨h.inOrder, List.pairwise_singleton .., fun p hp q hq => ?_⟩
      rw [List.mem_singleton.1 hq, firstIn_new hsplit hfresh]
      exact firstIn_lt hsplit hinc ((h.mem p).1 hp).2
  · rename_i hold
    refine ⟨fun path => ?_, h.nodup, h.inOrder⟩
    rw [hmore, h.mem]
    constructor
    · exact fun ⟨hw, hx⟩ => ⟨hw, .inl hx⟩
    · rintro ⟨hw, hx | rfl⟩
      · exact ⟨hw, hx⟩
      · rw [not_and, not_not] at hold
        exact (h.mem _).1 (hold hw)

theorem kept_foldl {found : List (Nat × Text)} (hinc : found.Pairwise (fun m m' => m.1 < m'.1)) :
    ∀ (post pre : List (Nat × Text)) (out : List Text), found = pre ++ post → Kept found pre out →
      Kept found found ((post.map (·.2)).foldl keepPath out) := by
  intro post
  induction post with
  | nil =>
    intro pre out hsplit h
    rw [List.append_nil] at hsplit
    rw [hsplit] at h ⊢
    exact h
  | cons m post ih =>
    intro pre out hsplit h
    rw [List.map_cons, List.foldl_cons]
    exact ih (pre ++ [m]) _ (by rw [hsplit, List.append_assoc, List.singleton_append]) (h.step hsplit hinc)

theorem kept_paths (isWord : Char → Bool) (text : Text) :
    Kept (findIter (filePathRe isWord) text) (findIter (filePathRe isWord) text)
      (extractDeliverablePaths isWord text) :=
  kept_foldl (Regex.findIter_spec _ text).2 _ [] [] rfl ⟨by simp, List.nodup_nil, .nil⟩

/-- **The returned paths are safe exactly when** no path of the text gets into a forbidden place by a dot segment, unless
it is spelled with the place in front. -/
theorem deliverables_iff (isWord : Char → Bool) (text : Text) :
    SafePaths isWord text (extractDeliverablePaths isWord text) ↔
      ∀ m ∈ findIter (filePathRe isWord) text, whitelisted m.2 = true → hasDotSegment m.2 = true →
        startsForbidden (resolvePath m.2) = true → startsForbidden m.2 = true := by
  have hspec := Regex.findIter_spec (filePathRe isWord) text
  have hkept := kept_paths isWord text
  have hpath : ∀ m ∈ findIter (filePathRe isWord) text, FilePath m.2 := fun m hm => accepts_filePath (hspec.1 m hm).1
  have hfrom : ∀ path ∈ extractDeliverablePaths isWord text, wanted path = true ∧
      ∃ m ∈ findIter (filePathRe isWord) text, m.2 = path := by
    intro path hmem
    obtain ⟨hw, m, hm, rfl⟩ := (hkept.mem path).1 hmem
    exact ⟨hw, m, hm, (hpath m hm).rstrip.symm⟩
  constructor
  · intro hsafe m hm hext _ hforbidden
    cases hspelled : startsForbidden m.2 with
    | true => rfl
    | false =>
      have hmem : m.2 ∈ extractDeliverablePaths isWord text :=
        (hkept.mem m.2).2 ⟨by simp [wanted, hext, hspelled], m, hm, (hpath m hm).rstrip⟩
      rw [hsafe.allowed m.2 hmem] at hforbidden
      cases hforbidden
  · intro hdots
    refine ⟨fun path hmem => ?_, fun path hmem => ?_, fun path hmem => ?_, fun path hmem => ?_, hkept.nodup, hkept.inOrder⟩
    · obtain ⟨-, m, hm, rfl⟩ := hfrom path hmem
      exact (hpath m hm).absolute
    · have hw := (hfrom path hmem).1
      rw [wanted, Bool.and_eq_true] at hw
      exact hw.1
    · obtain ⟨-, m, hm, rfl⟩ := hfrom path hmem
      exact (hspec.1 m hm).2.isInfix.trans (List.drop_suffix m.1 text).isInfix
    · obtain ⟨hw, m, hm, rfl⟩ := hfrom path hmem
      rw [wanted, Bool.and_eq_true, Bool.not_eq_true'] at hw
      cases hdot : hasDotSegment m.2 with
      | false => rw [startsForbidden_resolve (hpath m hm) hdot, hw.2]
      | true =>
        cases hforbidden : startsForbidden (resolvePath m.2) with
        | false => rfl
        | true =>
          rw [hdots m hm hw.1 hdot hforbidden] at hw
          exact absurd hw.2 (by decide)

/-- `\w` as far as ASCII goes. -/
def asciiWord (c : Char) : Bool := isAsciiAlnum c || c == '_'

/-- `/tmp/../etc/x.md` becomes a download, and is a file of `/etc/`. -/
theorem dots_reach_forbidden :
    ¬ SafePaths asciiWord "/tmp/../etc/x.md".toList (extractDeliverablePaths asciiWord "/tmp/../etc/x.md".toList) := by
  intro h
  have hmem : "/tmp/../etc/x.md".toList ∈ extractDeliverablePaths asciiWord "/tmp/../etc/x.md".toList := by
    decide +kernel
  have hforbidden : startsForbidden (resolvePath "/tmp/../etc/x.md".toList) = true := by decide +kernel
  rw [h.allowed _ hmem] at hforbidden
  cases hforbidden

end Deliverables
end Hermes
end MyGpt
