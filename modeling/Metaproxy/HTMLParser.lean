import Mathlib.Data.List.Basic

/-!
# HTMLParser

`html_parser.cpp`. A document is the list of its characters, up to the terminating NUL. The
functions that go over some of it return what is behind instead of how far they went.
-/

namespace Metaproxy
namespace HTMLParser

/-- The value of an attribute and its delimiter, if any. -/
structure Value where
  value : List Char
  tr : Option Char
deriving DecidableEq, Repr

/-- A call of `HTMLParserEvent`. -/
inductive Event where
  | openTagStart (tag : List Char)
  | attribute (tag attr : List Char) (value : Option Value)
  | anyTagEnd (tag : List Char) (closeIt : Bool)
  | closeTag (tag : List Char)
  | text (value : List Char)
deriving DecidableEq, Repr

def isAlpha (c : Char) : Bool := ('a' ≤ c && c ≤ 'z') || ('A' ≤ c && c ≤ 'Z')

/-- `SPACECHR`. -/
def isSpace (c : Char) : Bool := c = ' ' || c = '\t' || c = '\r' || c = '\n' || c = '\x0c'

/-- `"/><"`. -/
def isEnd (c : Char) : Bool := c = '/' || c = '>' || c = '<'

def isName (c : Char) : Bool := !(isSpace c || isEnd c || c = '=')

def skipSpace (cp : List Char) : List Char := cp.dropWhile isSpace

def skipName (cp : List Char) : List Char := cp.dropWhile isName

/-! ## Attributes -/

/-- What a value without delimiter is made of. -/
def isBare (c : Char) : Bool := !(isSpace c || c = '>')

structure Attribute where
  attr : List Char
  value : Option Value
  rest : List Char

/-- The value behind `=` and white space. -/
def skipValue (cp : List Char) : Value × List Char :=
  match cp with
  | [] => (⟨[], none⟩, [])
  | tr :: cp1 =>
    if tr = '"' ∨ tr = '\'' then
      (⟨cp1.takeWhile (· ≠ tr), some tr⟩, (cp1.dropWhile (· ≠ tr)).tail)
    else (⟨(tr :: cp1).takeWhile isBare, none⟩, (tr :: cp1).dropWhile isBare)

def skipAttribute (cp : List Char) : Attribute :=
  let attr := cp.takeWhile isName
  if attr = [] then ⟨[], none, skipSpace cp⟩
  else
    let cp1 := skipSpace (skipName cp)
    if cp1.head? = some '=' then
      let v := skipValue (skipSpace cp1.tail)
      ⟨attr, some v.1, skipSpace v.2⟩
    else ⟨attr, none, cp1⟩

/-- The loop of `tagAttrs`, which ends when `skipAttribute` goes over nothing. -/
def tagAttrsLoop (name cp : List Char) : List Event × List Char :=
  match cp with
  | [] => ([], [])
  | c :: cp1 =>
    if isEnd c then ([], c :: cp1)
    else
      let a := skipAttribute (c :: cp1)
      if a.rest.length < (c :: cp1).length then
        let p := tagAttrsLoop name a.rest
        (.attribute name a.attr a.value :: p.1, p.2)
      else ([], c :: cp1)
termination_by cp.length
decreasing_by assumption

def tagAttrs (name cp : List Char) : List Event × List Char := tagAttrsLoop name (skipSpace cp)

/-! ## Tags -/

def tagText (text : List Char) : List Event := if text = [] then [] else [.text text]

def tagEnd (tag cp : List Char) : List Event × List Char :=
  let text := tagText (cp.takeWhile (!isEnd ·))
  let cp1 := cp.dropWhile (!isEnd ·)
  let closeIt := cp1.head? = some '/'
  let cp2 := if closeIt then cp1.tail else cp1
  if cp2.head? = some '>' then (text ++ [.anyTagEnd tag closeIt], cp2.tail) else (text, cp2)

/-- What a tag, comment or declaration is reported as. -/
structure Markup where
  events : List Event
  nest : Bool
  rest : List Char

/-- The call of `tagEnd` behind `events`. -/
def endedBy (tag : List Char) (events : List Event) (nest : Bool) (cp : List Char) : Markup :=
  ⟨events ++ (tagEnd tag cp).1, nest, (tagEnd tag cp).2⟩

/-- Up to the `>` of the first `-->`. -/
def commentEnd (cp : List Char) : Option (List Char × List Char) :=
  match cp with
  | [] => none
  | c :: cp1 =>
    if c = '-' ∧ cp1.take 2 = ['-', '>'] then some (['-', '-'], cp1.tail)
    else (commentEnd cp1).map fun p => (c :: p.1, p.2)

/-- A comment that does not end takes all of the document, and is not reported. -/
def comment (cp : List Char) : Markup :=
  match commentEnd (cp.drop 3) with
  | some (tag, rest) => endedBy (cp.take 3 ++ tag) [.openTagStart (cp.take 3 ++ tag)] true rest
  | none => endedBy cp [] true []

/-- `<!` and `<?`. -/
def declaration (cp : List Char) : Markup :=
  let tag := cp.take 1 ++ cp.tail.takeWhile (· ≠ '>')
  endedBy tag [.openTagStart tag] true (cp.tail.dropWhile (· ≠ '>'))

def isScript (tag : List Char) : Bool := tag.map Char.toLower = "script".toList

/-- What stands behind a `<`, if it is not text. Without `nest`, that is inside of `script`, only the
end tag of it is not. -/
def markup (nest : Bool) (cp : List Char) : Option Markup :=
  match cp with
  | [] => none
  | c :: cp1 =>
    if nest ∧ c = '!' then
      some (if cp1.take 2 = ['-', '-'] then comment (c :: cp1) else declaration (c :: cp1))
    else if nest ∧ c = '?' then some (declaration (c :: cp1))
    else if c = '/' ∧ cp1.head?.any isAlpha then
      let tag := cp1.takeWhile isName
      if nest ∨ isScript tag ∧ (skipSpace (skipName cp1)).head? = some '>' then
        some (endedBy tag [.closeTag tag] true (skipName cp1))
      else none
    else if nest ∧ isAlpha c then
      let tag := (c :: cp1).takeWhile isName
      let a := tagAttrs tag (skipName (c :: cp1))
      some (endedBy tag (.openTagStart tag :: a.1) (!isScript tag) a.2)
    else none

def markupAt (nest : Bool) (c : Char) (cp : List Char) : Option Markup :=
  if c = '<' then markup nest cp else none

/-! ## `parse_str` -/

theorem length_skipSpace_le (cp : List Char) : (skipSpace cp).length ≤ cp.length :=
  (List.dropWhile_sublist _).length_le

theorem length_skipName_le (cp : List Char) : (skipName cp).length ≤ cp.length :=
  (List.dropWhile_sublist _).length_le

theorem length_tagAttrsLoop_le (name cp : List Char) :
    (tagAttrsLoop name cp).2.length ≤ cp.length := by
  fun_induction tagAttrsLoop name cp with
  | case1 => exact Nat.le_refl _
  | case2 c cp _ => exact Nat.le_refl _
  | case3 c cp _ a hlt p ih => exact Nat.le_trans ih (Nat.le_of_lt hlt)
  | case4 c cp _ a _ => exact Nat.le_refl _

theorem length_tagEnd_le (tag cp : List Char) : (tagEnd tag cp).2.length ≤ cp.length := by
  have h : (cp.dropWhile (!isEnd ·)).length ≤ cp.length := (List.dropWhile_sublist _).length_le
  unfold tagEnd
  simp only
  split <;> split <;> simp <;> omega

theorem length_endedBy_le (tag : List Char) (events : List Event) (nest : Bool) (cp : List Char) :
    (endedBy tag events nest cp).rest.length ≤ cp.length :=
  length_tagEnd_le tag cp

theorem length_commentEnd_le {cp : List Char} {p : List Char × List Char}
    (h : commentEnd cp = some p) : p.2.length ≤ cp.length := by
  induction cp generalizing p with
  | nil => cases h
  | cons c cp ih =>
    rw [commentEnd] at h
    split at h
    · cases h
      simp
      omega
    · obtain ⟨q, hq, rfl⟩ := Option.map_eq_some_iff.mp h
      have hle := ih hq
      exact Nat.le_trans hle (Nat.le_succ _)

theorem length_comment_le (cp : List Char) : (comment cp).rest.length ≤ cp.length := by
  unfold comment
  split
  · rename_i tag rest h
    have hrest := length_commentEnd_le h
    have := length_endedBy_le (cp.take 3 ++ tag) [.openTagStart (cp.take 3 ++ tag)] true rest
    simp at hrest
    omega
  · exact Nat.le_trans (length_endedBy_le _ _ _ _) (Nat.zero_le _)

theorem length_declaration_le (cp : List Char) : (declaration cp).rest.length ≤ cp.length := by
  refine Nat.le_trans (length_endedBy_le _ _ _ _) ?_
  exact Nat.le_trans (List.dropWhile_sublist _).length_le (by simp)

theorem length_markup_le {nest : Bool} {cp : List Char} {m : Markup}
    (h : markup nest cp = some m) : m.rest.length ≤ cp.length := by
  cases cp with
  | nil => cases h
  | cons c cp =>
    rw [markup] at h
    split at h
    · cases h
      split
      · exact length_comment_le _
      · exact length_declaration_le _
    · split at h
      · cases h
        exact length_declaration_le _
      · split at h
        · simp only at h
          split at h
          · cases h
            exact Nat.le_trans (length_endedBy_le _ _ _ _)
              (Nat.le_trans (length_skipName_le cp) (Nat.le_succ _))
          · cases h
        · split at h
          · cases h
            refine Nat.le_trans (length_endedBy_le _ _ _ _) ?_
            exact Nat.le_trans (length_tagAttrsLoop_le _ _)
              (Nat.le_trans (length_skipSpace_le _) (length_skipName_le _))
          · cases h

theorem length_markupAt_le {nest : Bool} {c : Char} {cp : List Char} {m : Markup}
    (h : markupAt nest c cp = some m) : m.rest.length ≤ cp.length := by
  rw [markupAt] at h
  split at h
  · exact length_markup_le h
  · cases h

/-- `parse_str`; `text` is what stands between `text_start` and `cp`. -/
def parseStr (nest : Bool) (text cp : List Char) : List Event :=
  match cp with
  | [] => tagText text
  | c :: cp1 =>
    match h : markupAt nest c cp1 with
    | none => parseStr nest (text ++ [c]) cp1
    | some m =>
      have := length_markupAt_le h
      tagText text ++ m.events ++ parseStr m.nest [] m.rest
termination_by cp.length
decreasing_by all_goals (simp; try omega)

def parse (str : List Char) : List Event := parseStr true [] str

end HTMLParser
end Metaproxy
