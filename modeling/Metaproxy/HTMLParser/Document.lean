import Metaproxy.HTMLParser.Reparsed

/-!
# HTMLParser.Document

Documents that are put together from tags, texts and scripts, and what the parser reports of them,
but for the attributes: `reported_parse`.
-/

namespace Metaproxy
namespace HTMLParser

/-! ## What documents consist of -/

/-- What stands in a tag behind its name: attributes, in white space. `slash` tells that a `/` comes
behind it, which would be part of a value without delimiter. -/
inductive Attrs (slash : Bool) : List Char → Prop where
  | blank {blank : List Char} : blank.all isSpace → Attrs slash blank
  | name {blank attr rest : List Char} :
      blank.all isSpace → attr ≠ [] → attr.all isName → (∀ c ∈ rest.head?, isSpace c = true) →
      Attrs slash rest → Attrs slash (blank ++ (attr ++ rest))
  | quoted {blank attr before behind value rest : List Char} {tr : Char} :
      blank.all isSpace → attr ≠ [] → attr.all isName → before.all isSpace → behind.all isSpace →
      tr = '"' ∨ tr = '\'' → tr ∉ value → Attrs slash rest →
      Attrs slash (blank ++ (attr ++ (before ++ '=' :: (behind ++ tr :: (value ++ tr :: rest)))))
  | bare {blank attr before behind value rest : List Char} {c : Char} :
      blank.all isSpace → attr ≠ [] → attr.all isName → before.all isSpace → behind.all isSpace →
      ¬ (c = '"' ∨ c = '\'') → (c :: value).all isBare → (∀ d ∈ rest.head?, isSpace d = true) →
      (rest = [] → slash = false) → Attrs slash rest →
      Attrs slash (blank ++ (attr ++ (before ++ '=' :: (behind ++ c :: (value ++ rest)))))

inductive Token where
  | text (s : List Char)
  | startTag (name attrs : List Char)
  /-- A tag that ends in `/>`. -/
  | emptyTag (name attrs : List Char)
  | endTag (name blank : List Char)
  /-- A `script` with its text and its end tag. -/
  | script (name attrs raw closing blank : List Char)
  /-- A comment, a declaration or a processing instruction. -/
  | special (tag : List Char)

def Token.render : Token → List Char
  | text s => s
  | startTag name attrs => '<' :: (name ++ (attrs ++ ['>']))
  | emptyTag name attrs => '<' :: (name ++ (attrs ++ ['/', '>']))
  | endTag name blank => '<' :: '/' :: (name ++ (blank ++ ['>']))
  | script name attrs raw closing blank =>
    '<' :: (name ++ (attrs ++ '>' :: (raw ++ '<' :: '/' :: (closing ++ (blank ++ ['>'])))))
  | special tag => '<' :: (tag ++ ['>'])

def render (tokens : List Token) : List Char := tokens.flatMap Token.render

structure IsTagName (name : List Char) : Prop where
  alpha : name.head?.any isAlpha = true
  all_isName : name.all isName = true

/-- No tag, comment or declaration starts in it. -/
def IsText (s : List Char) : Prop :=
  ∀ before c after, s = before ++ '<' :: c :: after →
    isAlpha c = false ∧ c ≠ '/' ∧ c ≠ '!' ∧ c ≠ '?'

/-- No end tag of a script starts in it. -/
def IsScriptText (s : List Char) : Prop :=
  ∀ before name after, s = before ++ '<' :: '/' :: (name ++ after) → isScript name = false

inductive IsSpecial : List Char → Prop where
  | comment {s : List Char} :
      ¬ ['-', '-', '>'] <:+: s ++ ['-', '-'] → IsSpecial ('!' :: '-' :: '-' :: (s ++ ['-', '-']))
  | declaration {s : List Char} : '>' ∉ s → ¬ ['-', '-'] <+: s → IsSpecial ('!' :: s)
  | instruction {s : List Char} : '>' ∉ s → IsSpecial ('?' :: s)

/-- The rest of a tag behind its name. -/
structure IsTagRest (slash : Bool) (attrs : List Char) : Prop where
  isAttrs : Attrs slash attrs
  space : ∀ c ∈ attrs.head?, isSpace c = true

def Token.Ok : Token → Prop
  | text s => s ≠ [] ∧ IsText s
  | startTag name attrs => IsTagName name ∧ isScript name = false ∧ IsTagRest false attrs
  | emptyTag name attrs => IsTagName name ∧ IsTagRest true attrs
  | endTag name blank => IsTagName name ∧ isScript name = false ∧ blank.all isSpace = true
  | script name attrs raw closing blank =>
    (IsTagName name ∧ isScript name = true ∧ IsTagRest false attrs) ∧ IsScriptText raw ∧
      IsTagName closing ∧ isScript closing = true ∧ blank.all isSpace = true
  | special tag => IsSpecial tag

def Token.isText : Token → Bool
  | text _ => true
  | _ => false

/-- A script that ends in `/>`. -/
def Token.isEmptyScript : Token → Bool
  | emptyTag name _ => isScript name
  | _ => false

/-- Texts are not divided. -/
def IsDocument : List Token → Prop
  | [] => True
  | t :: ts => t.Ok ∧ (t.isText = true → ts.head?.any Token.isText = false) ∧ IsDocument ts

/-- Behind a script that ends in `/>` there is only text. -/
def ScriptsEnd : List Token → Prop
  | [] => True
  | t :: ts => (t.isEmptyScript = true → ∀ t' ∈ ts, t'.isText = true) ∧ ScriptsEnd ts

/-! ## What is reported of them -/

def Token.events : Token → List Event
  | text s => [.text s]
  | startTag name _ => [.openTagStart name, .anyTagEnd name false]
  | emptyTag name _ => [.openTagStart name, .anyTagEnd name true]
  | endTag name blank => .closeTag name :: (tagText blank ++ [.anyTagEnd name false])
  | script name _ raw closing blank =>
    .openTagStart name :: .anyTagEnd name false ::
      (tagText raw ++ .closeTag closing :: (tagText blank ++ [.anyTagEnd closing false]))
  | special tag => [.openTagStart tag, .anyTagEnd tag false]

def Event.isAttribute : Event → Bool
  | .attribute _ _ _ => true
  | _ => false

/-- Without the attributes. -/
def reported (events : List Event) : List Event := events.filter fun e => !e.isAttribute

theorem reported_append (events events' : List Event) :
    reported (events ++ events') = reported events ++ reported events' :=
  List.filter_append ..

theorem reported_cons {e : Event} (h : e.isAttribute = false) (events : List Event) :
    reported (e :: events) = e :: reported events :=
  List.filter_cons_of_pos (by simp [h])

theorem reported_attributes {events : List Event} (h : ∀ e ∈ events, e.isAttribute = true) :
    reported events = [] :=
  List.filter_eq_nil_iff.mpr fun e he => by simp [h e he]

theorem reported_tagText (text : List Char) : reported (tagText text) = tagText text := by
  unfold tagText
  split
  · rfl
  · rfl

/-! ## Attributes -/

theorem skipSpace_append {blank : List Char} (h : blank.all isSpace = true) (cp : List Char) :
    skipSpace (blank ++ cp) = skipSpace cp :=
  List.dropWhile_append_of_pos (List.all_eq_true.mp h)

theorem skipAttribute_name {attr cp : List Char} (hne : attr ≠ []) (hattr : attr.all isName = true)
    (hcp : Follows none cp) : skipAttribute (attr ++ cp) = ⟨attr, none, skipSpace cp⟩ := by
  have hagain := skipAttribute_again ⟨hne, hattr, by simp⟩ hcp
  simpa using hagain

/-- White space around the `=` makes no difference. -/
theorem skipAttribute_value {attr before behind cp : List Char} {v : Value} (hne : attr ≠ [])
    (hattr : attr.all isName = true) (hbefore : before.all isSpace = true)
    (hbehind : behind.all isSpace = true) (hv : ∃ rest, IsValue v rest)
    (hcp : Follows (some v) cp) :
    skipAttribute (attr ++ (before ++ '=' :: (behind ++ (v.written ++ cp)))) =
      ⟨attr, some v, skipSpace cp⟩ := by
  obtain ⟨rest, hv⟩ := hv
  have hstop : ∀ c ∈ (before ++ '=' :: (behind ++ (v.written ++ cp))).head?, isName c = false := by
    intro c hc
    cases before with
    | nil =>
      cases hc
      decide
    | cons d before =>
      cases hc
      rw [List.all_cons, Bool.and_eq_true] at hbefore
      simp [isName, hbefore.1]
  obtain ⟨htake, hskip⟩ := takeWhile_name hattr hstop
  unfold skipAttribute
  simp only [htake, hskip, if_neg hne]
  rw [skipSpace_append hbefore, skipSpace_cons (by decide),
    if_pos (show ('=' :: _).head? = some '=' from rfl), List.tail_cons, skipSpace_append hbehind,
    skipValue_again hv hcp]

/-- One attribute of `tagAttrs`. -/
theorem tagAttrs_cons {name blank attr s cp : List Char} {value : Option Value}
    (hblank : blank.all isSpace = true) (hne : attr ≠ []) (hattr : attr.all isName = true)
    (hskip : skipAttribute (attr ++ s) = ⟨attr, value, skipSpace cp⟩)
    (hlen : cp.length ≤ s.length) :
    tagAttrs name (blank ++ (attr ++ s)) =
      (.attribute name attr value :: (tagAttrs name cp).1, (tagAttrs name cp).2) := by
  cases attr with
  | nil => exact absurd rfl hne
  | cons c attr =>
    rw [List.all_cons, Bool.and_eq_true] at hattr
    have hend := isEnd_of_isName hattr.1
    have hlt : (skipSpace cp).length < (c :: (attr ++ s)).length := by
      have hle := length_skipSpace_le cp
      simp only [List.length_cons, List.length_append]
      omega
    rw [List.cons_append] at hskip ⊢
    rw [tagAttrs, skipSpace_append hblank, skipSpace_cons (isSpace_of_isName hattr.1),
      tagAttrsLoop, if_neg (by simp [hend])]
    simp only [hskip, if_pos hlt]
    rfl

/-- What may stand behind the attributes of a tag. -/
def EndsAttrs (slash : Bool) (cp : List Char) : Prop :=
  ∀ c ∈ cp.head?, c = '>' ∨ (slash = true ∧ c = '/')

theorem EndsAttrs.isEnd {slash : Bool} {cp : List Char} (h : EndsAttrs slash cp) :
    ∀ c ∈ cp.head?, isEnd c = true := by
  intro c hc
  rcases h c hc with rfl | ⟨-, rfl⟩
  · rfl
  · rfl

theorem head_append_of_space {rest cp : List Char} (hrest : ∀ c ∈ rest.head?, isSpace c = true)
    {p : Char → Bool} (hp : ∀ c, isSpace c = true → p c = false)
    (hcp : rest = [] → ∀ c ∈ cp.head?, p c = false) : ∀ c ∈ (rest ++ cp).head?, p c = false := by
  intro c hc
  cases rest with
  | nil => exact hcp rfl c hc
  | cons d rest =>
    cases hc
    exact hp _ (hrest _ rfl)

theorem isName_of_isSpace {c : Char} (h : isSpace c = true) : isName c = false := by
  simp [isName, h]

theorem isBare_of_isSpace {c : Char} (h : isSpace c = true) : isBare c = false := by
  simp [isBare, h]

theorem isName_of_isEnd {c : Char} (h : isEnd c = true) : isName c = false := by
  simp [isName, h]

/-- Behind white space there is a name, or the end of the tag. -/
theorem Attrs.head_ne {slash : Bool} {attrs cp : List Char} (h : Attrs slash attrs)
    (hcp : EndsAttrs slash cp) : (skipSpace (attrs ++ cp)).head? ≠ some '=' := by
  have hattr : ∀ {attr s : List Char}, attr ≠ [] → attr.all isName = true →
      (skipSpace (attr ++ s)).head? ≠ some '=' := by
    intro attr s hne hname
    cases attr with
    | nil => exact absurd rfl hne
    | cons c attr =>
      rw [List.all_cons, Bool.and_eq_true] at hname
      rw [List.cons_append, skipSpace_cons (isSpace_of_isName hname.1)]
      intro hc
      cases hc
      exact absurd hname.1 (by decide)
  cases h with
  | blank hblank =>
    rw [skipSpace_append hblank,
      skipSpace_of_head fun c hc => isSpace_of_isEnd (hcp.isEnd c hc)]
    intro hc
    exact absurd (hcp.isEnd _ hc) (by decide)
  | name hblank hne hname _ _ =>
    rw [List.append_assoc, skipSpace_append hblank, List.append_assoc]
    exact hattr hne hname
  | quoted hblank hne hname _ _ _ _ _ =>
    rw [List.append_assoc, skipSpace_append hblank, List.append_assoc]
    exact hattr hne hname
  | bare hblank hne hname _ _ _ _ _ _ _ =>
    rw [List.append_assoc, skipSpace_append hblank, List.append_assoc]
    exact hattr hne hname

theorem tagAttrs_attrs {slash : Bool} {attrs : List Char} (h : Attrs slash attrs)
    (name : List Char) {cp : List Char} (hcp : EndsAttrs slash cp) :
    (∀ e ∈ (tagAttrs name (attrs ++ cp)).1, e.isAttribute = true) ∧
      (tagAttrs name (attrs ++ cp)).2 = cp := by
  induction h with
  | @blank blank hblank =>
    have hstop : tagAttrs name cp = ([], cp) := tagAttrs_stop fun c hc => .inl (hcp.isEnd c hc)
    have heq : tagAttrs name (blank ++ cp) = tagAttrs name cp := by
      rw [tagAttrs, skipSpace_append hblank, tagAttrs]
    rw [heq, hstop]
    exact ⟨fun e he => (by cases he), rfl⟩
  | @name blank attr rest hblank hne hname hrest hattrs ih =>
    have hfollows : Follows none (rest ++ cp) :=
      ⟨head_append_of_space hrest (fun _ => isName_of_isSpace)
        fun _ c hc => isName_of_isEnd (hcp.isEnd c hc), hattrs.head_ne hcp⟩
    rw [List.append_assoc, List.append_assoc, tagAttrs_cons hblank hne hname
      (skipAttribute_name hne hname hfollows) (Nat.le_refl _)]
    exact ⟨List.forall_mem_cons.mpr ⟨rfl, ih.1⟩, ih.2⟩
  | @quoted blank attr before behind value rest tr hblank hne hname hbefore hbehind htr hmem _ ih =>
    have hfollows : Follows (some ⟨value, some tr⟩) (rest ++ cp) := fun h => by cases h
    have hskip := skipAttribute_value hne hname hbefore hbehind ⟨[], .quoted htr hmem⟩ hfollows
    have heq : blank ++ (attr ++ (before ++ '=' :: (behind ++ tr :: (value ++ tr :: rest)))) ++ cp =
        blank ++ (attr ++ (before ++ '=' ::
          (behind ++ (Value.written ⟨value, some tr⟩ ++ (rest ++ cp))))) := by
      simp [Value.written]
    rw [heq, tagAttrs_cons hblank hne hname hskip (by simp; omega)]
    exact ⟨List.forall_mem_cons.mpr ⟨rfl, ih.1⟩, ih.2⟩
  | @bare blank attr before behind value rest c hblank hne hname hbefore hbehind hc hbare hrest
      hslash _ ih =>
    have hfollows : Follows (some ⟨c :: value, none⟩) (rest ++ cp) := by
      refine fun _ => ⟨fun h => (by cases h), ?_⟩
      refine head_append_of_space hrest (fun _ => isBare_of_isSpace) fun hnil d hd => ?_
      rcases hcp d hd with rfl | ⟨hslash', -⟩
      · rfl
      · rw [hslash hnil] at hslash'
        cases hslash'
    have hskip := skipAttribute_value hne hname hbefore hbehind
      ⟨[], .bare hc hbare fun d hd => (by cases hd)⟩ hfollows
    have heq : blank ++ (attr ++ (before ++ '=' :: (behind ++ c :: (value ++ rest)))) ++ cp =
        blank ++ (attr ++ (before ++ '=' ::
          (behind ++ (Value.written ⟨c :: value, none⟩ ++ (rest ++ cp))))) := by
      simp [Value.written]
    rw [heq, tagAttrs_cons hblank hne hname hskip (by simp; omega)]
    exact ⟨List.forall_mem_cons.mpr ⟨rfl, ih.1⟩, ih.2⟩

/-! ## Texts -/

/-- What the characters in front of the next `<` are for the parser. -/
theorem parseStr_append {nest : Bool} {s cp : List Char} (hcp : Cut cp)
    (hs : ∀ before after, s = before ++ '<' :: after → markup nest after = none)
    (text : List Char) : parseStr nest text (s ++ cp) = parseStr nest (text ++ s) cp := by
  induction s generalizing text with
  | nil => rw [List.append_nil, List.nil_append]
  | cons c s ih =>
    have hnone : markupAt nest c (s ++ cp) = none := by
      rw [markupAt]
      split
      · rename_i hc
        have hmarkup := hs [] s (by rw [hc]; rfl)
        have hsome : (markup nest (s ++ cp)).isSome = (markup nest s).isSome := markup_cut hcp
        rw [hmarkup] at hsome
        simpa using hsome
      · rfl
    rw [List.cons_append, parseStr_text hnone, ih (fun before after heq => ?_) (text ++ [c])]
    · rw [List.append_assoc, List.singleton_append]
    · exact hs (c :: before) after (by rw [heq]; rfl)

theorem IsText.markup_none {s : List Char} (h : IsText s) (nest : Bool) (before after : List Char)
    (heq : s = before ++ '<' :: after) : markup nest after = none := by
  cases after with
  | nil => rfl
  | cons c after =>
    obtain ⟨halpha, hslash, hbang, hquestion⟩ := h before c after heq
    rw [markup, if_neg (fun h => hbang h.2), if_neg (fun h => hquestion h.2),
      if_neg (fun h => hslash h.1), if_neg (fun h => by rw [halpha] at h; cases h.2)]

theorem IsScriptText.markup_none {s : List Char} (h : IsScriptText s) (before after : List Char)
    (heq : s = before ++ '<' :: after) : markup false after = none := by
  cases hmarkup : markup false after with
  | none => rfl
  | some m =>
    have hm := markup_eq_some_iff.mp hmarkup
    generalize hnest : false = nest at hm
    cases hm with
    | comment _ => cases hnest
    | declaration _ => cases hnest
    | instruction => cases hnest
    | @closing _ tag cp halpha htag hcp hscript =>
      cases hnest
      rcases hscript with hnest | ⟨hscript, -⟩
      · cases hnest
      · rw [h before tag cp heq] at hscript
        cases hscript
    | opening _ _ _ => cases hnest

/-- The text in front of markup is reported first. -/
theorem parseStr_cut {nest : Bool} {cp : List Char} {m : Markup} (h : IsMarkup nest cp m)
    (text : List Char) :
    parseStr nest text ('<' :: cp) = tagText text ++ parseStr nest [] ('<' :: cp) := by
  rw [parseStr_markup h, parseStr_markup h]
  simp [tagText]

/-! ## Tags -/

theorem tagEnd_close (tag cp : List Char) :
    tagEnd tag ('>' :: cp) = ([.anyTagEnd tag false], cp) := by
  simp [tagEnd, isEnd, tagText]

theorem tagEnd_empty (tag cp : List Char) :
    tagEnd tag ('/' :: '>' :: cp) = ([.anyTagEnd tag true], cp) := by
  simp [tagEnd, isEnd, tagText]

theorem tagEnd_blank {blank : List Char} (h : blank.all isSpace = true) (tag cp : List Char) :
    tagEnd tag (blank ++ '>' :: cp) = (tagText blank ++ [.anyTagEnd tag false], cp) := by
  have hall : blank.all (!isEnd ·) = true := by
    refine List.all_eq_true.mpr fun c hc => ?_
    rw [isEnd_of_isSpace (List.all_eq_true.mp h c hc)]
    rfl
  have hstop : ∀ c ∈ ('>' :: cp).head?, (!isEnd c) = false := by
    intro c hc
    cases hc
    rfl
  obtain ⟨htake, hdrop⟩ := takeWhile_stop hall hstop
  simp [tagEnd, htake, hdrop]

/-- Behind the name of a tag comes something else. -/
theorem IsTagRest.head {slash : Bool} {attrs cp : List Char} (h : IsTagRest slash attrs)
    (hcp : EndsAttrs slash cp) : ∀ c ∈ (attrs ++ cp).head?, isName c = false :=
  head_append_of_space h.space (fun _ => isName_of_isSpace)
    fun _ c hc => isName_of_isEnd (hcp.isEnd c hc)

/-- What a token is for the parser: it goes on behind it, and has reported `events`. -/
def Reads (nest nest' : Bool) (s : List Char) (events : List Event) : Prop :=
  ∀ cp, ∃ m, IsMarkup nest (s ++ cp) m ∧ m.rest = cp ∧ m.nest = nest' ∧
    reported m.events = events

theorem reads_tag {name attrs last : List Char} {slash closeIt : Bool} (hname : IsTagName name)
    (hattrs : IsTagRest slash attrs) (hlast : ∀ cp, EndsAttrs slash (last ++ cp))
    (hend : ∀ cp, tagEnd name (last ++ cp) = ([.anyTagEnd name closeIt], cp)) :
    Reads true (!isScript name) (name ++ (attrs ++ last))
      [.openTagStart name, .anyTagEnd name closeIt] := by
  intro cp
  have hrest := hattrs.head (hlast cp)
  have hopen : IsMarkup true (name ++ (attrs ++ (last ++ cp))) _ :=
    .opening hname.alpha hname.all_isName hrest
  obtain ⟨hall, hcp⟩ := tagAttrs_attrs hattrs.isAttrs name (hlast cp)
  rw [List.append_assoc, List.append_assoc]
  refine ⟨_, hopen, ?_, rfl, ?_⟩
  · rw [endedBy, hcp, hend]
  · rw [endedBy, hcp, hend, reported_append, reported_cons rfl, reported_attributes hall]
    rfl

theorem reads_startTag {name attrs : List Char} (hname : IsTagName name)
    (hattrs : IsTagRest false attrs) :
    Reads true (!isScript name) (name ++ (attrs ++ ['>']))
      [.openTagStart name, .anyTagEnd name false] := by
  refine reads_tag hname hattrs (fun cp c hc => ?_) fun cp => tagEnd_close name cp
  cases hc
  exact .inl rfl

theorem reads_emptyTag {name attrs : List Char} (hname : IsTagName name)
    (hattrs : IsTagRest true attrs) :
    Reads true (!isScript name) (name ++ (attrs ++ ['/', '>']))
      [.openTagStart name, .anyTagEnd name true] := by
  refine reads_tag hname hattrs (fun cp c hc => ?_) fun cp => tagEnd_empty name cp
  cases hc
  exact .inr ⟨rfl, rfl⟩

theorem reads_endTag {nest : Bool} {name blank : List Char} (hname : IsTagName name)
    (hblank : blank.all isSpace = true) (hnest : nest = true ∨ isScript name = true) :
    Reads nest true ('/' :: (name ++ (blank ++ ['>'])))
      (.closeTag name :: (tagText blank ++ [.anyTagEnd name false])) := by
  intro cp
  have hrest : ∀ c ∈ (blank ++ '>' :: cp).head?, isName c = false := by
    refine head_append_of_space (fun c hc => ?_) (fun _ => isName_of_isSpace) fun _ c hc => ?_
    · exact List.all_eq_true.mp hblank c (List.mem_of_mem_head? hc)
    · cases hc
      rfl
  have hspace : (skipSpace (blank ++ '>' :: cp)).head? = some '>' := by
    rw [skipSpace_append hblank, skipSpace_cons (by decide)]
    rfl
  have hclose : IsMarkup nest ('/' :: (name ++ (blank ++ '>' :: cp))) _ :=
    .closing hname.alpha hname.all_isName hrest (hnest.imp_right fun h => ⟨h, hspace⟩)
  have heq : '/' :: (name ++ (blank ++ ['>'])) ++ cp = '/' :: (name ++ (blank ++ '>' :: cp)) := by
    simp
  rw [heq]
  refine ⟨_, hclose, ?_, rfl, ?_⟩
  · rw [endedBy, tagEnd_blank hblank]
  · rw [endedBy, tagEnd_blank hblank, reported_append, reported_cons rfl, reported_append,
      reported_tagText]
    rfl

/-! ## Comments and declarations -/

theorem commentEnd_append {s : List Char} (h : ¬ ['-', '-', '>'] <:+: s ++ ['-', '-'])
    (cp : List Char) :
    commentEnd (s ++ ['-', '-'] ++ '>' :: cp) = some (s ++ ['-', '-'], '>' :: cp) := by
  induction s with
  | nil => rfl
  | cons c s ih =>
    have hno : ¬ (c = '-' ∧ (s ++ ['-', '-'] ++ '>' :: cp).take 2 = ['-', '>']) := by
      rintro ⟨rfl, htake⟩
      rw [List.take_append_of_le_length (by simp)] at htake
      refine h (List.IsPrefix.isInfix ?_)
      rw [List.cons_append, List.cons_prefix_cons]
      exact ⟨rfl, htake ▸ List.take_prefix 2 _⟩
    have hrest : ¬ ['-', '-', '>'] <:+: s ++ ['-', '-'] :=
      fun hrest => h (List.IsInfix.trans hrest (List.suffix_cons c _).isInfix)
    rw [List.cons_append, List.cons_append, commentEnd, if_neg hno, ih hrest]
    rfl

theorem declaration_eq {c : Char} {s : List Char} (h : '>' ∉ s) (cp : List Char) :
    declaration (c :: (s ++ '>' :: cp)) =
      ⟨[.openTagStart (c :: s), .anyTagEnd (c :: s) false], true, cp⟩ := by
  have hall : s.all (· ≠ '>') = true :=
    List.all_eq_true.mpr fun d hd => decide_eq_true fun heq => h (heq ▸ hd)
  have hstop : ∀ d ∈ ('>' :: cp).head?, decide (d ≠ '>') = false := by simp
  obtain ⟨htake, hdrop⟩ := takeWhile_stop hall hstop
  rw [declaration]
  simp only [List.tail_cons, htake, hdrop, endedBy, tagEnd_close]
  rfl

theorem comment_eq {s : List Char} (h : ¬ ['-', '-', '>'] <:+: s ++ ['-', '-'])
    (cp : List Char) :
    comment ('!' :: '-' :: '-' :: (s ++ ['-', '-'] ++ '>' :: cp)) =
      ⟨[.openTagStart ('!' :: '-' :: '-' :: (s ++ ['-', '-'])),
        .anyTagEnd ('!' :: '-' :: '-' :: (s ++ ['-', '-'])) false], true, cp⟩ := by
  have hdrop : ('!' :: '-' :: '-' :: (s ++ ['-', '-'] ++ '>' :: cp)).drop 3 =
      s ++ ['-', '-'] ++ '>' :: cp := rfl
  rw [comment, hdrop, commentEnd_append h]
  simp only [endedBy, tagEnd_close]
  rfl

theorem take_declaration {s cp : List Char} (h : ¬ ['-', '-'] <+: s) :
    (s ++ '>' :: cp).take 2 ≠ ['-', '-'] := by
  intro htake
  rcases s with _ | ⟨c, _ | ⟨d, s⟩⟩
  · cases htake
  · cases htake
  · cases htake
    exact h ⟨s, rfl⟩

theorem reads_special {tag : List Char} (h : IsSpecial tag) :
    Reads true true (tag ++ ['>']) [.openTagStart tag, .anyTagEnd tag false] := by
  intro cp
  rw [List.append_assoc, List.singleton_append]
  cases h with
  | @comment s hs =>
    have hmarkup : IsMarkup true ('!' :: '-' :: '-' :: (s ++ ['-', '-'] ++ '>' :: cp)) _ :=
      .comment rfl
    rw [comment_eq hs] at hmarkup
    exact ⟨_, hmarkup, rfl, rfl, rfl⟩
  | @declaration s hs hno =>
    have hmarkup : IsMarkup true ('!' :: (s ++ '>' :: cp)) _ :=
      .declaration (take_declaration hno)
    rw [declaration_eq hs] at hmarkup
    exact ⟨_, hmarkup, rfl, rfl, rfl⟩
  | @instruction s hs =>
    have hmarkup : IsMarkup true ('?' :: (s ++ '>' :: cp)) _ := .instruction
    rw [declaration_eq hs] at hmarkup
    exact ⟨_, hmarkup, rfl, rfl, rfl⟩

/-! ## Documents -/

theorem parseStr_reads {nest nest' : Bool} {s : List Char} {events : List Event}
    (h : Reads nest nest' s events) (cp : List Char) :
    reported (parseStr nest [] ('<' :: (s ++ cp))) =
      events ++ reported (parseStr nest' [] cp) := by
  obtain ⟨m, hmarkup, hrest, hnest, hevents⟩ := h cp
  rw [parseStr_markup hmarkup, reported_append, reported_append, hevents, hrest, hnest]
  rfl

/-- A text in front of markup, or at the end. -/
theorem parseStr_text_append {nest : Bool} {s cp : List Char}
    (hs : ∀ before after, s = before ++ '<' :: after → markup nest after = none)
    (hcp : cp = [] ∨ ∃ cp1 m, cp = '<' :: cp1 ∧ IsMarkup nest cp1 m) :
    reported (parseStr nest [] (s ++ cp)) = tagText s ++ reported (parseStr nest [] cp) := by
  have hcut : Cut cp := by
    intro c hc
    rcases hcp with rfl | ⟨cp1, m, rfl, -⟩
    · cases hc
    · cases hc
      rfl
  rw [parseStr_append hcut hs, List.nil_append]
  rcases hcp with rfl | ⟨cp1, m, rfl, hmarkup⟩
  · rw [parseStr_nil, parseStr_nil, reported_tagText]
    exact (List.append_nil _).symm
  · rw [parseStr_cut hmarkup, reported_append, reported_tagText]

theorem parseStr_script {name attrs raw closing blank : List Char}
    (h : (Token.script name attrs raw closing blank).Ok) (cp : List Char) :
    reported (parseStr true [] ((Token.script name attrs raw closing blank).render ++ cp)) =
      (Token.script name attrs raw closing blank).events ++ reported (parseStr true [] cp) := by
  obtain ⟨⟨hname, hscript, hattrs⟩, hraw, hclosing, hscript', hblank⟩ := h
  have hopen := reads_startTag hname hattrs
  have hclose : Reads false true ('/' :: (closing ++ (blank ++ ['>']))) _ :=
    reads_endTag hclosing hblank (.inr hscript')
  obtain ⟨m, hmarkup, -⟩ := hclose cp
  have heq : (Token.script name attrs raw closing blank).render ++ cp =
      '<' :: (name ++ (attrs ++ ['>']) ++
        (raw ++ '<' :: ('/' :: (closing ++ (blank ++ ['>'])) ++ cp))) := by
    simp [Token.render]
  rw [hscript, Bool.not_true] at hopen
  rw [heq, parseStr_reads hopen, parseStr_text_append hraw.markup_none (.inr ⟨_, m, rfl, hmarkup⟩),
    parseStr_reads hclose]
  simp [Token.events]

/-- What a token other than a text starts with. -/
theorem render_isMarkup {t : Token} (h : t.Ok) (htext : t.isText = false) (cp : List Char) :
    ∃ s m, t.render ++ cp = '<' :: s ∧ IsMarkup true s m := by
  have hof : ∀ {s events} {nest' : Bool} (cp : List Char), Reads true nest' s events →
      ∃ m, IsMarkup true (s ++ cp) m := by
    intro s events nest' cp hreads
    obtain ⟨m, hm, -⟩ := hreads cp
    exact ⟨m, hm⟩
  cases t with
  | text s => cases htext
  | startTag name attrs =>
    obtain ⟨m, hm⟩ := hof cp (reads_startTag h.1 h.2.2)
    exact ⟨_, m, rfl, hm⟩
  | emptyTag name attrs =>
    obtain ⟨m, hm⟩ := hof cp (reads_emptyTag h.1 h.2)
    exact ⟨_, m, rfl, hm⟩
  | endTag name blank =>
    obtain ⟨m, hm⟩ := hof cp (reads_endTag h.1 h.2.2 (.inl rfl))
    exact ⟨_, m, rfl, hm⟩
  | script name attrs raw closing blank =>
    obtain ⟨m, hm⟩ := hof (raw ++ '<' :: '/' :: (closing ++ (blank ++ ['>'])) ++ cp)
      (reads_startTag h.1.1 h.1.2.2)
    refine ⟨_, m, ?_, hm⟩
    simp [Token.render]
  | special tag =>
    obtain ⟨m, hm⟩ := hof cp (reads_special h)
    exact ⟨_, m, rfl, hm⟩

theorem parseStr_token_text {nest : Bool} {s cp : List Char} (hok : (Token.text s).Ok)
    (hcp : cp = [] ∨ ∃ cp1 m, cp = '<' :: cp1 ∧ IsMarkup nest cp1 m) :
    reported (parseStr nest [] (s ++ cp)) =
      (Token.text s).events ++ reported (parseStr nest [] cp) := by
  rw [parseStr_text_append (hok.2.markup_none nest) hcp, tagText, if_neg hok.1]
  rfl

theorem reported_texts {tokens : List Token} (h : IsDocument tokens)
    (htexts : ∀ t ∈ tokens, t.isText = true) (nest : Bool) :
    reported (parseStr nest [] (render tokens)) = tokens.flatMap Token.events := by
  cases tokens with
  | nil =>
    rw [render, List.flatMap_nil, parseStr_nil]
    rfl
  | cons t ts =>
    obtain ⟨hok, hjoin, -⟩ := h
    have hlast : ts = [] := by
      cases ts with
      | nil => rfl
      | cons t' ts =>
        have hno : t'.isText = false := hjoin (htexts t List.mem_cons_self)
        rw [htexts t' (List.mem_cons_of_mem _ List.mem_cons_self)] at hno
        cases hno
    subst hlast
    cases t with
    | text s =>
      have htext := @parseStr_token_text nest s [] hok (.inl rfl)
      rw [parseStr_nil] at htext
      exact htext
    | _ => cases htexts _ List.mem_cons_self

/-- The parser finds the tags and texts of a document, and nothing else. -/
theorem reported_parse {tokens : List Token} (h : IsDocument tokens)
    (hscripts : ScriptsEnd tokens) :
    reported (parse (render tokens)) = tokens.flatMap Token.events := by
  rw [parse]
  induction tokens with
  | nil =>
    rw [render, List.flatMap_nil, parseStr_nil]
    rfl
  | cons t ts ih =>
    obtain ⟨hok, hjoin, hrest⟩ := h
    obtain ⟨hlast, hscripts⟩ := hscripts
    have ih := ih hrest hscripts
    rw [render, List.flatMap_cons, List.flatMap_cons, ← render]
    cases t with
    | text s =>
      rw [← ih]
      refine parseStr_token_text hok ?_
      cases ts with
      | nil => exact .inl rfl
      | cons t' ts =>
        obtain ⟨cp, m, hcp, hmarkup⟩ := render_isMarkup hrest.1 (hjoin rfl) (render ts)
        exact .inr ⟨cp, m, hcp, hmarkup⟩
    | startTag name attrs =>
      have hreads := parseStr_reads (reads_startTag hok.1 hok.2.2) (render ts)
      rw [hok.2.1] at hreads
      rw [← ih]
      exact hreads
    | emptyTag name attrs =>
      refine (parseStr_reads (reads_emptyTag hok.1 hok.2) (render ts)).trans ?_
      cases hscript : isScript name with
      | true =>
        rw [reported_texts hrest (hlast hscript)]
        rfl
      | false =>
        rw [← ih]
        rfl
    | endTag name blank =>
      rw [← ih]
      exact parseStr_reads (reads_endTag hok.1 hok.2.2 (.inl rfl)) (render ts)
    | script name attrs raw closing blank =>
      rw [← ih]
      exact parseStr_script hok (render ts)
    | special tag =>
      rw [← ih]
      exact parseStr_reads (reads_special hok) (render ts)

end HTMLParser
end Metaproxy
