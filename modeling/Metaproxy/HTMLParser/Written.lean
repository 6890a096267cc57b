import Mathlib.Data.List.DropRight
import Metaproxy.HTMLParser

/-!
# HTMLParser.Written

What comes of a document when the events of it are written as the handler gets them.

`Covers` says that it is the document but for white space in opening tags, and `covers_parse` that
this holds when everything behind a `<` is whole. Else a `/` or the `<` of a comment is missing
(`covers_parse_iff`).
-/

namespace Metaproxy
namespace HTMLParser

/-! ## The writer -/

def Value.written (v : Value) : List Char :=
  match v.tr with
  | none => v.value
  | some tr => tr :: v.value ++ [tr]

def Event.written : Event → List Char
  | .openTagStart tag => '<' :: tag
  | .attribute _ attr none => ' ' :: attr
  | .attribute _ attr (some v) => ' ' :: attr ++ '=' :: v.written
  | .anyTagEnd _ closeIt => if closeIt then ['/', '>'] else ['>']
  | .closeTag tag => '<' :: '/' :: tag
  | .text value => value

def written (events : List Event) : List Char := events.flatMap Event.written

@[simp] theorem written_nil : written [] = [] := rfl

@[simp] theorem written_cons (e : Event) (events : List Event) :
    written (e :: events) = e.written ++ written events := rfl

@[simp] theorem written_append (events events' : List Event) :
    written (events ++ events') = written events ++ written events' :=
  List.flatMap_append

@[simp] theorem written_tagText (text : List Char) : written (tagText text) = text := by
  unfold tagText
  split
  · rename_i h
    rw [h, written_nil]
  · simp [Event.written]

def isQuote (c : Char) : Bool := c = '"' || c = '\''

/-- The document is what the writer makes of the events, but for white space in opening tags: the
flag tells that we are in one. An attribute that the document ends in has no closing quote yet. -/
inductive Covers : Bool → List Event → List Char → Prop where
  | done {b : Bool} : Covers b [] []
  | space {c : Char} {events : List Event} {doc : List Char} :
      isSpace c → Covers true events doc → Covers true events (c :: doc)
  | openTag {b : Bool} {tag : List Char} {events : List Event} {doc : List Char} :
      tag.head?.any isAlpha → Covers true events doc →
      Covers b (.openTagStart tag :: events) ('<' :: tag ++ doc)
  | declaration {b : Bool} {tag : List Char} {events : List Event} {doc : List Char} :
      Covers false events doc → Covers b (.openTagStart tag :: events) ('<' :: tag ++ doc)
  | name {tag attr : List Char} {events : List Event} {doc : List Char} :
      Covers true events doc → Covers true (.attribute tag attr none :: events) (attr ++ doc)
  | value {tag attr before behind : List Char} {v : Value} {events : List Event}
      {doc : List Char} : before.all isSpace → behind.all isSpace → Covers true events doc →
      Covers true (.attribute tag attr (some v) :: events)
        (attr ++ before ++ '=' :: behind ++ v.written ++ doc)
  | leftOpen {tag attr before behind value : List Char} {tr : Char} :
      before.all isSpace → behind.all isSpace → isQuote tr →
      Covers true [.attribute tag attr (some ⟨value, some tr⟩)]
        (attr ++ before ++ '=' :: behind ++ tr :: value)
  | tagEnd {b : Bool} {tag : List Char} {events : List Event} {doc : List Char} (closeIt : Bool) :
      Covers false events doc →
      Covers b (.anyTagEnd tag closeIt :: events) ((if closeIt then ['/', '>'] else ['>']) ++ doc)
  | closeTag {b : Bool} {tag : List Char} {events : List Event} {doc : List Char} :
      Covers false events doc → Covers b (.closeTag tag :: events) ('<' :: '/' :: tag ++ doc)
  | text {b : Bool} {text : List Char} {events : List Event} {doc : List Char} :
      Covers false events doc → Covers b (.text text :: events) (text ++ doc)

/-- From a place between two events, in a tag or not. -/
def CoversAll (events : List Event) (doc : List Char) : Prop := ∀ b, Covers b events doc

theorem CoversAll.tagText {events : List Event} {doc : List Char} (h : CoversAll events doc)
    (text : List Char) : CoversAll (tagText text ++ events) (text ++ doc) := by
  intro b
  unfold HTMLParser.tagText
  split
  · rename_i hnil
    rw [hnil]
    exact h b
  · exact .text (h false)

theorem coversAll_tagText (text : List Char) : CoversAll (tagText text) text := by
  have h : CoversAll [] [] := fun b => .done
  simpa using h.tagText text

theorem Covers.spaces {events : List Event} {doc blank : List Char} (hblank : blank.all isSpace)
    (h : Covers true events doc) : Covers true events (blank ++ doc) := by
  induction blank with
  | nil => exact h
  | cons c blank ih =>
    simp only [List.all_cons, Bool.and_eq_true] at hblank
    exact .space hblank.1 (ih hblank.2)

theorem covers_skipSpace {events : List Event} {doc : List Char}
    (h : Covers true events (skipSpace doc)) : Covers true events doc := by
  rw [← List.takeWhile_append_dropWhile (p := isSpace) (l := doc)]
  exact h.spaces List.all_takeWhile

/-! ## Attributes -/

theorem dropWhile_head {p : Char → Bool} {cp rest : List Char} {c : Char}
    (h : cp.dropWhile p = c :: rest) : p c = false := by
  have hne : cp.dropWhile p ≠ [] := by simp [h]
  have hhead := List.head_dropWhile_not p hne
  simpa [h] using hhead

theorem head_dropWhile (p : Char → Bool) (cp : List Char) :
    ∀ c ∈ (cp.dropWhile p).head?, p c = false := by
  intro c hc
  cases h : cp.dropWhile p with
  | nil =>
    rw [h] at hc
    cases hc
  | cons d rest =>
    rw [h] at hc
    cases hc
    exact dropWhile_head h

/-- The value is in the document as it is written, or it has no closing quote. -/
theorem skipValue_reads (cp : List Char) :
    cp = (skipValue cp).1.written ++ (skipValue cp).2 ∨
      ∃ tr value, isQuote tr ∧ cp = tr :: value ∧ skipValue cp = (⟨value, some tr⟩, []) := by
  cases cp with
  | nil => exact .inl rfl
  | cons tr cp =>
    rw [skipValue]
    split
    · rename_i htr
      have hsplit := List.takeWhile_append_dropWhile (p := (· ≠ tr)) (l := cp)
      cases hdrop : cp.dropWhile (· ≠ tr) with
      | nil =>
        rw [hdrop, List.append_nil] at hsplit
        refine .inr ⟨tr, cp, ?_, rfl, ?_⟩
        · rcases htr with rfl | rfl <;> rfl
        · rw [hsplit]
          rfl
      | cons c rest =>
        have hc : c = tr := by simpa using dropWhile_head hdrop
        rw [hdrop, hc] at hsplit
        refine .inl ?_
        conv => lhs; rw [← hsplit]
        simp [Value.written]
    · refine .inl ?_
      simp only [Value.written]
      rw [List.takeWhile_append_dropWhile]

theorem skipSpace_reads (cp : List Char) :
    ∃ blank, blank.all isSpace ∧ cp = blank ++ skipSpace cp :=
  ⟨cp.takeWhile isSpace, List.all_takeWhile, (List.takeWhile_append_dropWhile).symm⟩

theorem head_space {cp : List Char} (h : skipSpace cp = cp) :
    ∀ c ∈ cp.head?, isSpace c = false := by
  rw [← h]
  exact head_dropWhile isSpace cp

theorem skipSpace_skipSpace (cp : List Char) : skipSpace (skipSpace cp) = skipSpace cp :=
  List.dropWhile_idempotent _ cp

/-- What `skipAttribute` makes of an attribute: there is no value, or there is `=` and what
`skipValue` finds. -/
inductive ReadsAttribute : List Char → Attribute → Prop where
  | name {attr before rest : List Char} : attr ≠ [] → attr.all isName → before.all isSpace →
      rest.head? ≠ some '=' → skipSpace rest = rest →
      ReadsAttribute (attr ++ before ++ rest) ⟨attr, none, rest⟩
  | value {attr before behind cp : List Char} : attr ≠ [] → attr.all isName →
      before.all isSpace → behind.all isSpace → skipSpace cp = cp →
      ReadsAttribute (attr ++ before ++ '=' :: behind ++ cp)
        ⟨attr, some (skipValue cp).1, skipSpace (skipValue cp).2⟩

theorem skipAttribute_reads {cp : List Char} (h : cp.takeWhile isName ≠ []) :
    ReadsAttribute cp (skipAttribute cp) := by
  have hsplit : cp.takeWhile isName ++ skipName cp = cp := List.takeWhile_append_dropWhile
  have hname : (cp.takeWhile isName).all isName := List.all_takeWhile
  obtain ⟨before, hbefore, heq⟩ := skipSpace_reads (skipName cp)
  have hbehind := skipSpace_skipSpace (skipName cp)
  unfold skipAttribute
  simp only [if_neg h]
  generalize cp.takeWhile isName = attr, skipSpace (skipName cp) = rest at *
  rw [heq, ← List.append_assoc] at hsplit
  split
  · rename_i hvalue
    obtain ⟨tail, rfl⟩ : ∃ tail, rest = '=' :: tail := by
      cases rest with
      | nil => cases hvalue
      | cons c tail =>
        cases hvalue
        exact ⟨tail, rfl⟩
    obtain ⟨blank, hblank, htail⟩ := skipSpace_reads tail
    rw [htail] at hsplit
    rw [← hsplit, List.tail_cons, ← List.cons_append, ← List.append_assoc]
    exact .value h hname hbefore hblank (skipSpace_skipSpace tail)
  · rename_i hvalue
    rw [← hsplit]
    exact .name h hname hbefore hvalue hbehind

theorem ReadsAttribute.skipSpace_rest {cp : List Char} {a : Attribute} (h : ReadsAttribute cp a) :
    skipSpace a.rest = a.rest := by
  cases h with
  | name _ _ _ _ hrest => exact hrest
  | value _ _ _ _ _ => exact skipSpace_skipSpace _

/-- Where there is neither white space nor a name, `skipAttribute` goes over nothing. -/
theorem name_of_shorter {cp : List Char} (hspace : skipSpace cp = cp)
    (h : (skipAttribute cp).rest.length < cp.length) : cp.takeWhile isName ≠ [] := by
  intro hnil
  unfold skipAttribute at h
  simp only [if_pos hnil] at h
  rw [hspace] at h
  exact Nat.lt_irrefl _ h

theorem covers_skipAttribute {cp tag : List Char} {a : Attribute} {events : List Event}
    (h : ReadsAttribute cp a) (hcovers : Covers true events a.rest)
    (hend : a.rest = [] → events = []) :
    Covers true (.attribute tag a.attr a.value :: events) cp := by
  cases h with
  | name _ _ hbefore _ _ =>
    rw [List.append_assoc]
    exact .name (hcovers.spaces hbefore)
  | @value attr before behind cp _ _ hbefore hbehind _ =>
    rcases skipValue_reads cp with hread | ⟨tr, value, hquote, hread, hskip⟩
    · conv => rhs; rw [hread]
      rw [← List.append_assoc]
      exact .value hbefore hbehind (covers_skipSpace hcovers)
    · simp only [hskip] at hend ⊢
      cases hend rfl
      rw [hread]
      exact .leftOpen hbefore hbehind hquote

/-- What the loop of `tagAttrs` makes of the attributes. -/
inductive ReadsAttrs (tag : List Char) : List Char → List Event → List Char → Prop where
  | nil {cp : List Char} : (∀ c ∈ cp.head?, isEnd c = true ∨ c = '=') → ReadsAttrs tag cp [] cp
  | cons {cp rest : List Char} {a : Attribute} {events : List Event} :
      ReadsAttribute cp a → ReadsAttrs tag a.rest events rest →
      ReadsAttrs tag cp (.attribute tag a.attr a.value :: events) rest

theorem length_skipValue_le (cp : List Char) : (skipValue cp).2.length ≤ cp.length := by
  rcases skipValue_reads cp with hread | ⟨tr, value, -, -, hskip⟩
  · conv => rhs; rw [hread]
    simp
  · rw [hskip]
    exact Nat.zero_le _

theorem ReadsAttribute.shorter {cp : List Char} {a : Attribute} (h : ReadsAttribute cp a) :
    a.rest.length < cp.length := by
  cases h with
  | name hne _ _ _ _ =>
    have hpos := List.length_pos_iff.mpr hne
    simp
    omega
  | @value _ _ _ cp _ _ _ _ _ =>
    have hle := Nat.le_trans (length_skipSpace_le _) (length_skipValue_le cp)
    simp
    omega

theorem tagAttrsLoop_reads {name cp : List Char} (hspace : skipSpace cp = cp) :
    ReadsAttrs name cp (tagAttrsLoop name cp).1 (tagAttrsLoop name cp).2 := by
  fun_induction tagAttrsLoop name cp with
  | case1 => exact .nil (by simp)
  | case2 c cp hend => exact .nil (by simp [hend])
  | case3 c cp _ a hlt p ih =>
    have hreads := skipAttribute_reads (name_of_shorter hspace hlt)
    exact .cons hreads (ih hreads.skipSpace_rest)
  | case4 c cp hend a hlt =>
    refine .nil fun d hd => ?_
    cases hd
    by_contra hne
    have hname : isName c = true := by
      have hc := head_space hspace c rfl
      simp_all [isName]
    have hreads : ReadsAttribute (c :: cp) _ := skipAttribute_reads (by simp [hname])
    exact hlt hreads.shorter

theorem tagAttrs_reads (name cp : List Char) :
    ReadsAttrs name (skipSpace cp) (tagAttrs name cp).1 (tagAttrs name cp).2 :=
  tagAttrsLoop_reads (skipSpace_skipSpace cp)

theorem covers_attrs {name cp rest : List Char} {attrs events : List Event}
    (h : ReadsAttrs name cp attrs rest) (hcovers : Covers true events rest)
    (hend : rest = [] → events = []) : Covers true (attrs ++ events) cp := by
  induction h with
  | nil _ => exact hcovers
  | cons ha htail ih =>
    refine covers_skipAttribute ha (ih hcovers hend) fun hnil => ?_
    rw [hnil] at htail
    cases htail with
    | nil _ => exact hend rfl
    | cons ha' _ => exact absurd ha'.shorter (Nat.not_lt_zero _)

theorem covers_tagAttrs {name cp : List Char} {events : List Event}
    (hcovers : CoversAll events (tagAttrs name cp).2)
    (hend : (tagAttrs name cp).2 = [] → events = []) :
    Covers true ((tagAttrs name cp).1 ++ events) cp :=
  covers_skipSpace (covers_attrs (tagAttrs_reads name cp) (hcovers true) hend)

/-! ## Tags -/

/-- A tag goes on to a `/` that does not end it. -/
def strays (cp : List Char) : Bool :=
  let cp1 := cp.dropWhile (!isEnd ·)
  cp1.head? = some '/' && cp1.tail.head? ≠ some '>'

/-- How a tag ends that has no stray `/`. -/
inductive ReadsTagEnd (tag : List Char) : List Char → List Event → List Char → Prop where
  | ended {text rest : List Char} (closeIt : Bool) : text.all (!isEnd ·) →
      ReadsTagEnd tag (text ++ ((Event.anyTagEnd tag closeIt).written ++ rest))
        (tagText text ++ [.anyTagEnd tag closeIt]) rest
  | cut {text rest : List Char} : text.all (!isEnd ·) → (rest = [] ∨ rest.head? = some '<') →
      ReadsTagEnd tag (text ++ rest) (tagText text) rest

theorem tagEnd_reads {cp : List Char} (tag : List Char) (h : strays cp = false) :
    ReadsTagEnd tag cp (tagEnd tag cp).1 (tagEnd tag cp).2 := by
  have hsplit := List.takeWhile_append_dropWhile (p := (!isEnd ·)) (l := cp)
  have htext : (cp.takeWhile (!isEnd ·)).all (!isEnd ·) := List.all_takeWhile
  unfold strays at h
  unfold tagEnd
  simp only at h ⊢
  cases hcp1 : cp.dropWhile (!isEnd ·) with
  | nil =>
    rw [hcp1] at hsplit
    generalize cp.takeWhile (!isEnd ·) = text at *
    subst hsplit
    exact .cut htext (.inl rfl)
  | cons c cp1 =>
    have hend : isEnd c = true := by simpa using dropWhile_head hcp1
    rw [hcp1] at hsplit h
    generalize cp.takeWhile (!isEnd ·) = text at *
    subst hsplit
    simp only [isEnd, Bool.or_eq_true, decide_eq_true_eq] at hend
    rcases hend with (rfl | rfl) | rfl
    · cases cp1 with
      | nil => simp at h
      | cons c cp1 =>
        have hc : c = '>' := by simpa using h
        subst hc
        exact .ended true htext
    · exact .ended false htext
    · exact .cut htext (.inr rfl)

theorem covers_tagEnd {tag cp : List Char} {events : List Event} (h : strays cp = false)
    (hcovers : CoversAll events (tagEnd tag cp).2) :
    CoversAll ((tagEnd tag cp).1 ++ events) cp := by
  have hreads := tagEnd_reads tag h
  generalize (tagEnd tag cp).1 = es, (tagEnd tag cp).2 = rest at *
  cases hreads with
  | ended closeIt _ =>
    have hend : CoversAll (.anyTagEnd tag closeIt :: events)
        ((Event.anyTagEnd tag closeIt).written ++ rest) := fun b => .tagEnd closeIt (hcovers false)
    rw [List.append_assoc]
    exact hend.tagText _
  | cut _ _ => exact hcovers.tagText _

/-! ## What stands behind a `<` -/

/-- The cases of `markup`. -/
inductive IsMarkup : Bool → List Char → Markup → Prop where
  | comment {cp : List Char} : cp.take 2 = ['-', '-'] →
      IsMarkup true ('!' :: cp) (comment ('!' :: cp))
  | declaration {cp : List Char} : cp.take 2 ≠ ['-', '-'] →
      IsMarkup true ('!' :: cp) (declaration ('!' :: cp))
  | instruction {cp : List Char} : IsMarkup true ('?' :: cp) (declaration ('?' :: cp))
  | closing {nest : Bool} {tag cp : List Char} : tag.head?.any isAlpha → tag.all isName →
      (∀ c ∈ cp.head?, isName c = false) →
      (nest = true ∨ isScript tag = true ∧ (skipSpace cp).head? = some '>') →
      IsMarkup nest ('/' :: (tag ++ cp)) (endedBy tag [.closeTag tag] true cp)
  | opening {tag cp : List Char} : tag.head?.any isAlpha → tag.all isName →
      (∀ c ∈ cp.head?, isName c = false) →
      IsMarkup true (tag ++ cp)
        (endedBy tag (.openTagStart tag :: (tagAttrs tag cp).1) (!isScript tag) (tagAttrs tag cp).2)

theorem ne_of_isAlpha {c : Char} (h : isAlpha c = true) (d : Char) (hd : isAlpha d = false) :
    c ≠ d := by
  rintro rfl
  rw [h] at hd
  cases hd

theorem isName_of_isAlpha {c : Char} (h : isAlpha c = true) : isName c = true := by
  have hne := ne_of_isAlpha h
  simp [isName, isSpace, isEnd, hne ' ' (by decide), hne '\t' (by decide), hne '\r' (by decide),
    hne '\n' (by decide), hne '\x0c' (by decide), hne '/' (by decide), hne '>' (by decide),
    hne '<' (by decide), hne '=' (by decide)]

theorem takeWhile_stop {p : Char → Bool} {s cp : List Char} (hs : s.all p)
    (hcp : ∀ c ∈ cp.head?, p c = false) :
    (s ++ cp).takeWhile p = s ∧ (s ++ cp).dropWhile p = cp := by
  have hall : ∀ c ∈ s, p c = true := List.all_eq_true.mp hs
  rw [List.takeWhile_append_of_pos hall, List.dropWhile_append_of_pos hall]
  cases cp with
  | nil => simp
  | cons c cp => simp [hcp c rfl]

theorem takeWhile_name {tag cp : List Char} (htag : tag.all isName)
    (hcp : ∀ c ∈ cp.head?, isName c = false) :
    (tag ++ cp).takeWhile isName = tag ∧ skipName (tag ++ cp) = cp :=
  takeWhile_stop htag hcp

theorem takeWhile_alpha {cp : List Char} (h : cp.head?.any isAlpha) :
    (cp.takeWhile isName).head?.any isAlpha := by
  cases cp with
  | nil => cases h
  | cons c cp =>
    have hname : isName c = true := isName_of_isAlpha h
    rw [List.takeWhile_cons_of_pos hname]
    exact h

theorem alpha_append {tag : List Char} (h : tag.head?.any isAlpha) (cp : List Char) :
    (tag ++ cp).head?.any isAlpha := by
  cases tag with
  | nil => cases h
  | cons c tag => exact h

theorem isMarkup_of_markup {nest : Bool} {cp : List Char} {m : Markup}
    (h : markup nest cp = some m) : IsMarkup nest cp m := by
  cases cp with
  | nil => cases h
  | cons c cp =>
    rw [markup] at h
    split at h
    · rename_i hc
      obtain ⟨rfl, rfl⟩ := hc
      cases h
      split
      · rename_i hcomment
        exact .comment hcomment
      · rename_i hdeclaration
        exact .declaration hdeclaration
    · split at h
      · rename_i hc
        obtain ⟨rfl, rfl⟩ := hc
        cases h
        exact .instruction
      · split at h
        · rename_i hc
          obtain ⟨rfl, halpha⟩ := hc
          simp only at h
          split at h
          · rename_i hscript
            cases h
            have hsplit : cp.takeWhile isName ++ skipName cp = cp :=
              List.takeWhile_append_dropWhile
            conv => arg 2; rw [← hsplit]
            exact .closing (takeWhile_alpha halpha) List.all_takeWhile (head_dropWhile isName cp)
              hscript
          · cases h
        · split at h
          · rename_i hc
            obtain ⟨rfl, halpha⟩ := hc
            cases h
            have hsplit : (c :: cp).takeWhile isName ++ skipName (c :: cp) = c :: cp :=
              List.takeWhile_append_dropWhile
            have hhead : (c :: cp).head?.any isAlpha = true := halpha
            conv => arg 2; rw [← hsplit]
            exact .opening (takeWhile_alpha hhead) List.all_takeWhile (head_dropWhile isName _)
          · cases h

theorem markup_of_isMarkup {nest : Bool} {cp : List Char} {m : Markup}
    (h : IsMarkup nest cp m) : markup nest cp = some m := by
  cases h with
  | comment hcomment => simp [markup, hcomment]
  | declaration hdeclaration => simp [markup, hdeclaration]
  | instruction => simp [markup]
  | closing halpha htag hcp hscript =>
    obtain ⟨hname, hskip⟩ := takeWhile_name htag hcp
    rw [markup, if_neg (by simp), if_neg (by simp), if_pos ⟨rfl, alpha_append halpha _⟩]
    simp only [hname, hskip]
    rw [if_pos hscript]
  | @opening tag cp halpha htag hcp =>
    obtain ⟨hname, hskip⟩ := takeWhile_name htag hcp
    cases tag with
    | nil => cases halpha
    | cons c tag =>
      have hc : isAlpha c = true := halpha
      have hne := ne_of_isAlpha hc
      rw [List.cons_append, markup, if_neg (fun h => hne '!' (by decide) h.2),
        if_neg (fun h => hne '?' (by decide) h.2), if_neg (fun h => hne '/' (by decide) h.1),
        if_pos ⟨rfl, hc⟩]
      rw [← List.cons_append]
      simp only [hname, hskip]

theorem markup_eq_some_iff {nest : Bool} {cp : List Char} {m : Markup} :
    markup nest cp = some m ↔ IsMarkup nest cp m :=
  ⟨isMarkup_of_markup, markup_of_isMarkup⟩

/-- Nothing of it is dropped: a comment ends, a tag has no stray `/`. -/
def whole (cp : List Char) : Bool :=
  match cp with
  | [] => true
  | c :: cp1 =>
    if c = '!' ∧ cp1.take 2 = ['-', '-'] then (commentEnd (cp1.drop 2)).isSome
    else if c = '!' ∨ c = '?' then true
    else if c = '/' then !strays (skipName cp1)
    else !strays (tagAttrs ((c :: cp1).takeWhile isName) (skipName (c :: cp1))).2

theorem commentEnd_reads {cp tag rest : List Char} (h : commentEnd cp = some (tag, rest)) :
    ∃ cp1, rest = '>' :: cp1 ∧ cp = tag ++ rest ∧ 2 ≤ tag.length ∧
      ∀ cp2, commentEnd (tag ++ '>' :: cp2) = some (tag, '>' :: cp2) := by
  induction cp generalizing tag rest with
  | nil => cases h
  | cons c cp ih =>
    rw [commentEnd] at h
    split at h
    · rename_i hend
      obtain ⟨rfl, htake⟩ := hend
      cases h
      obtain ⟨cp1, rfl⟩ : ∃ cp1, cp = '-' :: '>' :: cp1 := by
        rcases cp with _ | ⟨d, _ | ⟨e, cp1⟩⟩
        · cases htake
        · cases htake
        · cases htake
          exact ⟨cp1, rfl⟩
      refine ⟨cp1, rfl, rfl, Nat.le_refl 2, fun cp2 => ?_⟩
      rfl
    · rename_i hgo
      obtain ⟨⟨tag, rest⟩, hrest, heq⟩ := Option.map_eq_some_iff.mp h
      cases heq
      obtain ⟨cp1, rfl, hcp, hlength, hagain⟩ := ih hrest
      refine ⟨cp1, rfl, by rw [hcp]; rfl, Nat.le_succ_of_le hlength, fun cp2 => ?_⟩
      have htake : (tag ++ '>' :: cp2).take 2 = cp.take 2 := by
        rw [hcp, List.take_append_of_le_length hlength, List.take_append_of_le_length hlength]
      rw [List.cons_append, commentEnd, htake, if_neg hgo, hagain]
      rfl

/-- A comment or declaration that is reported: the tag is what stands before the `>`. -/
theorem endedBy_tag (tag cp : List Char) :
    endedBy tag [.openTagStart tag] true ('>' :: cp) =
      ⟨[.openTagStart tag, .anyTagEnd tag false], true, cp⟩ := by
  simp [endedBy, tagEnd, isEnd, tagText]

theorem endedBy_nil (tag : List Char) (events : List Event) (nest : Bool) :
    endedBy tag events nest [] = ⟨events, nest, []⟩ := by
  simp [endedBy, tagEnd, tagText]

theorem comment_reads {cp : List Char} (hcomment : cp.take 2 = ['-', '-'])
    (hwhole : whole ('!' :: cp)) : ∃ body rest, cp = '-' :: '-' :: (body ++ '>' :: rest) ∧
      ∀ rest', comment ('!' :: '-' :: '-' :: (body ++ '>' :: rest')) =
        ⟨[.openTagStart ('!' :: '-' :: '-' :: body),
          .anyTagEnd ('!' :: '-' :: '-' :: body) false], true, rest'⟩ := by
  simp only [whole, hcomment, and_self, if_true] at hwhole
  obtain ⟨⟨body, rest⟩, hend⟩ := Option.isSome_iff_exists.mp hwhole
  obtain ⟨cp1, rfl, hcp, -, hagain⟩ := commentEnd_reads hend
  refine ⟨body, cp1, ?_, fun rest' => ?_⟩
  · conv => lhs; rw [← List.take_append_drop 2 cp, hcomment, hcp]
    rfl
  · have hend' : commentEnd (('!' :: '-' :: '-' :: (body ++ '>' :: rest')).drop 3) =
        some (body, '>' :: rest') := hagain rest'
    rw [comment, hend']
    exact endedBy_tag _ _

theorem declaration_reads (c : Char) (cp : List Char) :
    (∃ body rest, cp = body ++ '>' :: rest ∧ ∀ rest', declaration (c :: (body ++ '>' :: rest')) =
        ⟨[.openTagStart (c :: body), .anyTagEnd (c :: body) false], true, rest'⟩) ∨
      declaration (c :: cp) = ⟨[.openTagStart (c :: cp)], true, []⟩ := by
  have hsplit := List.takeWhile_append_dropWhile (p := (· ≠ '>')) (l := cp)
  cases hrest : cp.dropWhile (· ≠ '>') with
  | nil =>
    rw [hrest, List.append_nil] at hsplit
    simp only [declaration, List.take_succ_cons, List.take_zero, List.tail_cons]
    rw [hrest, hsplit]
    exact .inr (endedBy_nil _ _ _)
  | cons d rest =>
    have hd : d = '>' := by simpa using dropWhile_head hrest
    subst hd
    rw [hrest] at hsplit
    refine .inl ⟨cp.takeWhile (· ≠ '>'), rest, hsplit.symm, fun rest' => ?_⟩
    have hall : ∀ d ∈ cp.takeWhile (· ≠ '>'), decide (d ≠ '>') = true :=
      List.all_eq_true.mp List.all_takeWhile
    simp only [declaration, List.take_succ_cons, List.take_zero, List.tail_cons]
    rw [List.takeWhile_append_of_pos hall, List.dropWhile_append_of_pos hall]
    simp [endedBy_tag]

theorem covers_declaration {c : Char} {cp : List Char} {events : List Event}
    (hcovers : CoversAll events (declaration (c :: cp)).rest)
    (hend : (declaration (c :: cp)).rest = [] → events = []) :
    CoversAll ((declaration (c :: cp)).events ++ events) ('<' :: c :: cp) := by
  intro b
  rcases declaration_reads c cp with ⟨body, rest, rfl, heq⟩ | heq
  · rw [heq] at hcovers ⊢
    exact .declaration (.tagEnd false (hcovers false))
  · rw [heq] at hend ⊢
    rw [hend rfl]
    have h : Covers b [.openTagStart (c :: cp)] ('<' :: (c :: cp) ++ []) := .declaration .done
    simpa using h

theorem whole_closing {tag cp : List Char} (htag : tag.all isName)
    (hcp : ∀ c ∈ cp.head?, isName c = false) :
    whole ('/' :: (tag ++ cp)) = !strays cp := by
  simp [whole, (takeWhile_name htag hcp).2]

theorem whole_opening {tag cp : List Char} (halpha : tag.head?.any isAlpha)
    (htag : tag.all isName) (hcp : ∀ c ∈ cp.head?, isName c = false) :
    whole (tag ++ cp) = !strays (tagAttrs tag cp).2 := by
  obtain ⟨hname, hskip⟩ := takeWhile_name htag hcp
  cases tag with
  | nil => cases halpha
  | cons c tag =>
    have hne := ne_of_isAlpha (c := c) halpha
    rw [List.cons_append] at hname hskip ⊢
    simp [whole, hname, hskip, hne '!' (by decide), hne '?' (by decide), hne '/' (by decide)]

theorem covers_markup {nest : Bool} {cp : List Char} {m : Markup} {events : List Event}
    (h : IsMarkup nest cp m) (hwhole : whole cp) (hcovers : CoversAll events m.rest)
    (hend : m.rest = [] → events = []) : CoversAll (m.events ++ events) ('<' :: cp) := by
  cases h with
  | comment hcomment =>
    obtain ⟨body, rest, rfl, heq⟩ := comment_reads hcomment hwhole
    rw [heq] at hcovers ⊢
    exact fun b => .declaration (.tagEnd false (hcovers false))
  | declaration _ => exact covers_declaration hcovers hend
  | instruction => exact covers_declaration hcovers hend
  | closing halpha htag hcp _ =>
    rw [whole_closing htag hcp, Bool.not_eq_true'] at hwhole
    exact fun b => .closeTag (covers_tagEnd hwhole hcovers false)
  | @opening tag cp halpha htag hcp =>
    rw [whole_opening halpha htag hcp, Bool.not_eq_true'] at hwhole
    intro b
    show Covers b (.openTagStart tag :: (tagAttrs tag cp).1 ++ (tagEnd tag (tagAttrs tag cp).2).1 ++
      events) _
    rw [List.cons_append, List.cons_append, List.append_assoc]
    refine .openTag halpha (covers_tagAttrs (covers_tagEnd hwhole hcovers) fun hnil => ?_)
    have hrest : (tagEnd tag (tagAttrs tag cp).2) = ([], []) := by
      rw [hnil]
      rfl
    have hevents : events = [] := hend (by show (tagEnd tag (tagAttrs tag cp).2).2 = []; rw [hrest])
    rw [hrest, hevents]
    rfl

/-! ## Documents -/

/-- What stands behind the `<` of each tag, comment and declaration. -/
def tags (nest : Bool) (cp : List Char) : List (List Char) :=
  match cp with
  | [] => []
  | c :: cp1 =>
    match h : markupAt nest c cp1 with
    | none => tags nest cp1
    | some m =>
      have := length_markupAt_le h
      cp1 :: tags m.nest m.rest
termination_by cp.length
decreasing_by all_goals (simp; try omega)

/-- Along `parse_str`: the end, a character of the text, or what stands behind a `<`. -/
theorem parse_induction {P : Bool → List Char → Prop} (nil : ∀ nest, P nest [])
    (text : ∀ nest c cp, markupAt nest c cp = none → P nest cp → P nest (c :: cp))
    (markup : ∀ nest cp m, IsMarkup nest cp m → P m.nest m.rest → P nest ('<' :: cp))
    (nest : Bool) (cp : List Char) : P nest cp := by
  induction nest, cp using tags.induct with
  | case1 nest => exact nil nest
  | case2 nest c cp h ih => exact text nest c cp h ih
  | case3 nest c cp m h _ ih =>
    unfold markupAt at h
    split at h
    · rename_i hc
      subst hc
      exact markup nest cp m (markup_eq_some_iff.mp h) ih
    · cases h

section

variable {nest : Bool} {text cp : List Char} {c : Char} {m : Markup}

@[simp] theorem tags_nil : tags nest [] = [] := by
  rw [tags]

theorem tags_text (h : markupAt nest c cp = none) : tags nest (c :: cp) = tags nest cp := by
  rw [tags]
  split
  · rfl
  · rename_i hsome
    rw [h] at hsome
    cases hsome

theorem tags_markup (h : IsMarkup nest cp m) :
    tags nest ('<' :: cp) = cp :: tags m.nest m.rest := by
  have hsome : markupAt nest '<' cp = some m := markup_eq_some_iff.mpr h
  rw [tags]
  split
  · rename_i hnone
    rw [hsome] at hnone
    cases hnone
  · rename_i m' hm'
    rw [hsome] at hm'
    cases hm'
    rfl

@[simp] theorem parseStr_nil : parseStr nest text [] = tagText text := by
  rw [parseStr]

theorem parseStr_text (h : markupAt nest c cp = none) :
    parseStr nest text (c :: cp) = parseStr nest (text ++ [c]) cp := by
  rw [parseStr]
  split
  · rfl
  · rename_i hsome
    rw [h] at hsome
    cases hsome

theorem parseStr_markup (h : IsMarkup nest cp m) :
    parseStr nest text ('<' :: cp) = tagText text ++ m.events ++ parseStr m.nest [] m.rest := by
  have hsome : markupAt nest '<' cp = some m := markup_eq_some_iff.mpr h
  rw [parseStr]
  split
  · rename_i hnone
    rw [hsome] at hnone
    cases hnone
  · rename_i m' hm'
    rw [hsome] at hm'
    cases hm'
    rfl

end

theorem covers_parseStr {nest : Bool} {cp : List Char} (h : ∀ t ∈ tags nest cp, whole t) :
    ∀ text, CoversAll (parseStr nest text cp) (text ++ cp) := by
  induction nest, cp using parse_induction with
  | nil nest =>
    intro text
    simpa using coversAll_tagText text
  | text nest c cp hnone ih =>
    intro text
    rw [parseStr_text hnone]
    rw [tags_text hnone] at h
    simpa using ih h (text ++ [c])
  | markup nest cp m hm ih =>
    intro text
    rw [tags_markup hm] at h
    rw [parseStr_markup hm, List.append_assoc]
    refine CoversAll.tagText ?_ text
    refine covers_markup hm (h cp List.mem_cons_self)
      (ih (fun t ht => h t (List.mem_cons_of_mem _ ht)) []) fun hnil => ?_
    rw [hnil, parseStr_nil]
    rfl

theorem covers_parse {doc : List Char} (h : ∀ t ∈ tags true doc, whole t) :
    Covers false (parse doc) doc :=
  covers_parseStr h [] false

/-! ## What is dropped -/

/-- How many `/` and `<` there are. White space and quotes are neither. -/
def marks (cp : List Char) : Nat := cp.countP fun c => c = '/' || c = '<'

@[simp] theorem marks_nil : marks [] = 0 := rfl

@[simp] theorem marks_append (cp cp' : List Char) : marks (cp ++ cp') = marks cp + marks cp' :=
  List.countP_append

theorem marks_cons (c : Char) (cp : List Char) :
    marks (c :: cp) = (if c = '/' ∨ c = '<' then 1 else 0) + marks cp := by
  rw [marks, List.countP_cons, Nat.add_comm]
  simp [marks]

theorem marks_space {c : Char} (h : isSpace c) (cp : List Char) : marks (c :: cp) = marks cp := by
  have hne : ¬ (c = '/' ∨ c = '<') := by
    rintro (rfl | rfl) <;> cases h
  rw [marks_cons, if_neg hne, Nat.zero_add]

theorem marks_spaces {blank : List Char} (h : blank.all isSpace) : marks blank = 0 := by
  induction blank with
  | nil => rfl
  | cons c blank ih =>
    simp only [List.all_cons, Bool.and_eq_true] at h
    rw [marks_space h.1, ih h.2]

theorem marks_quote {c : Char} (h : isQuote c) (cp : List Char) : marks (c :: cp) = marks cp := by
  have hne : ¬ (c = '/' ∨ c = '<') := by
    rintro (rfl | rfl) <;> cases h
  rw [marks_cons, if_neg hne, Nat.zero_add]

theorem Covers.marks_eq {b : Bool} {events : List Event} {doc : List Char}
    (h : Covers b events doc) : marks (written events) = marks doc := by
  induction h with
  | done => rfl
  | space hc _ ih => rw [ih, marks_space hc]
  | openTag _ _ ih => simp [Event.written, marks_cons, ih]
  | declaration _ ih => simp [Event.written, marks_cons, ih]
  | name _ ih => simp [Event.written, marks_cons, ih]
  | value hbefore hbehind _ ih =>
    simp [Event.written, marks_cons, ih, marks_spaces hbefore, marks_spaces hbehind]
  | leftOpen hbefore hbehind hquote =>
    simp [Event.written, Value.written, marks_cons ' ', marks_cons '=', marks_quote hquote,
      marks_spaces hbefore, marks_spaces hbehind]
  | tagEnd closeIt _ ih => cases closeIt <;> simp [Event.written, marks_cons, ih]
  | closeTag _ ih => simp [Event.written, marks_cons, ih]
  | text _ ih => simp [Event.written, ih]

theorem marks_tagAttrs (name cp : List Char) :
    marks (written (tagAttrs name cp).1) + marks (tagAttrs name cp).2 = marks cp := by
  have h := (covers_tagAttrs (coversAll_tagText (tagAttrs name cp).2)
    (by intro hnil; rw [hnil]; rfl)).marks_eq
  simpa using h

theorem marks_strays {cp : List Char} (tag : List Char) (h : strays cp) :
    marks (written (tagEnd tag cp).1) + marks (tagEnd tag cp).2 + 1 = marks cp := by
  have hsplit := List.takeWhile_append_dropWhile (p := (!isEnd ·)) (l := cp)
  unfold strays at h
  unfold tagEnd
  simp only at h ⊢
  cases hcp1 : cp.dropWhile (!isEnd ·) with
  | nil => simp [hcp1] at h
  | cons c cp1 =>
    rw [hcp1] at h hsplit
    obtain ⟨hc, hnext⟩ := Bool.and_eq_true_iff.mp h
    obtain rfl : c = '/' := by simpa using hc
    have hne : ¬ cp1.head? = some '>' := of_decide_eq_true hnext
    simp only [List.head?_cons, if_true, List.tail_cons, if_neg hne, written_tagText]
    conv => rhs; rw [← hsplit]
    rw [marks_append, marks_cons, if_pos (.inl rfl)]
    omega

/-- A mark is missing for what is not whole. -/
theorem marks_markup {nest : Bool} {cp : List Char} {m : Markup} (h : IsMarkup nest cp m) :
    marks (written m.events) + marks m.rest + (if whole cp then 0 else 1) ≤ marks ('<' :: cp) := by
  cases hwhole : whole cp with
  | true =>
    have hmarks := (covers_markup h hwhole (coversAll_tagText m.rest)
      (by intro hnil; rw [hnil]; rfl) false).marks_eq
    simp only [written_append, written_tagText, marks_append] at hmarks
    simp [hmarks]
  | false =>
    rw [if_neg (by simp), marks_cons, if_pos (.inr rfl)]
    cases h with
    | @comment cp hcomment =>
      have hnone : commentEnd (cp.drop 2) = none := by
        simpa [whole, hcomment] using hwhole
      rw [comment, List.drop_succ_cons, hnone]
      simp [endedBy_nil]
    | declaration hne => simp [whole, hne] at hwhole
    | instruction => simp [whole] at hwhole
    | @closing _ tag cp _ htag hcp _ =>
      rw [whole_closing htag hcp, Bool.not_eq_false'] at hwhole
      have hmarks := marks_strays tag hwhole
      simp only [endedBy, List.cons_append, List.nil_append, written_cons, Event.written,
        marks_append, marks_cons]
      simp
      omega
    | @opening tag cp halpha htag hcp =>
      rw [whole_opening halpha htag hcp, Bool.not_eq_false'] at hwhole
      have hmarks := marks_strays tag hwhole
      have hattrs := marks_tagAttrs tag cp
      simp only [endedBy, List.cons_append, written_cons, written_append, Event.written,
        marks_append, marks_cons]
      simp
      omega

theorem marks_parseStr (nest : Bool) (cp : List Char) : ∀ text,
    marks (written (parseStr nest text cp)) + (tags nest cp).countP (!whole ·) ≤
      marks text + marks cp := by
  induction nest, cp using parse_induction with
  | nil nest => simp
  | text nest c cp hnone ih =>
    intro text
    rw [parseStr_text hnone, tags_text hnone]
    have hle := ih (text ++ [c])
    rw [marks_append] at hle
    have hc : marks (c :: cp) = marks [c] + marks cp := marks_append [c] cp
    omega
  | markup nest cp m hm ih =>
    intro text
    rw [parseStr_markup hm, tags_markup hm, List.countP_cons]
    have hle := ih []
    have hmarks := marks_markup hm
    simp only [written_append, written_tagText, marks_append, marks_nil] at hle ⊢
    cases hwhole : whole cp <;> simp only [hwhole] at hmarks ⊢ <;> simp at hmarks ⊢ <;> omega

/-- What is written is the document but for white space in opening tags if and only if everything
behind a `<` is whole. -/
theorem covers_parse_iff {doc : List Char} :
    Covers false (parse doc) doc ↔ ∀ t ∈ tags true doc, whole t := by
  refine ⟨fun h => ?_, covers_parse⟩
  have hle := marks_parseStr true doc []
  have heq := h.marks_eq
  have hnone : (tags true doc).countP (!whole ·) = 0 := by
    rw [parse] at heq
    simp at hle
    omega
  simpa using List.countP_eq_zero.mp hnone

end HTMLParser
end Metaproxy
