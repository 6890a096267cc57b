import Metaproxy.HTMLParser.Written

/-!
# HTMLParser.Reparsed

The document that is written is parsed again. When everything behind a `<` is whole, the events are
the same, unless a value without delimiter stands in front of white space and then of something
other than an attribute or `>`: without the white space, that is read as part of the value.
-/

namespace Metaproxy
namespace HTMLParser

/-! ## Texts are joined -/

def joinText : List Event → List Event
  | [] => []
  | .text value :: events =>
    match joinText events with
    | .text value' :: rest => .text (value ++ value') :: rest
    | rest => .text value :: rest
  | e :: events => e :: joinText events

def Event.isText : Event → Bool
  | .text _ => true
  | _ => false

theorem joinText_cons {e : Event} (h : e.isText = false) (events : List Event) :
    joinText (e :: events) = e :: joinText events := by
  cases e with
  | text => cases h
  | _ => rfl

theorem joinText_append {e : Event} (h : e.isText = false) (events events' : List Event) :
    joinText (events ++ e :: events') = joinText events ++ e :: joinText events' := by
  induction events with
  | nil => exact joinText_cons h events'
  | cons e' events ih =>
    cases e' with
    | text value =>
      rw [List.cons_append, joinText, ih, joinText]
      cases hjoin : joinText events with
      | nil =>
        cases e with
        | text => cases h
        | _ => rfl
      | cons f rest => cases f <;> rfl
    | _ => rw [List.cons_append, joinText_cons rfl, joinText_cons rfl, ih, List.cons_append]

/-- From some event on, which is no text, they are not the same. -/
def Differ (events events' : List Event) : Prop :=
  ∃ common e e' rest rest', events = common ++ e :: rest ∧ events' = common ++ e' :: rest' ∧
    e.isText = false ∧ e'.isText = false ∧ e ≠ e'

theorem Differ.joinText_ne {events events' : List Event} (h : Differ events events') :
    joinText events ≠ joinText events' := by
  obtain ⟨common, e, e', rest, rest', rfl, rfl, he, he', hne⟩ := h
  rw [joinText_append he, joinText_append he']
  intro heq
  exact hne (List.cons.inj (List.append_cancel_left heq)).1

theorem Differ.append_left {events events' : List Event} (h : Differ events events')
    (first : List Event) : Differ (first ++ events) (first ++ events') := by
  obtain ⟨common, e, e', rest, rest', rfl, rfl, h⟩ := h
  exact ⟨first ++ common, e, e', rest, rest', by simp, by simp, h⟩

theorem Differ.append_right {events events' : List Event} (h : Differ events events')
    (last last' : List Event) : Differ (events ++ last) (events' ++ last') := by
  obtain ⟨common, e, e', rest, rest', rfl, rfl, h⟩ := h
  exact ⟨common, e, e', rest ++ last, rest' ++ last', by simp, by simp, h⟩

/-! ## Attributes -/

/-- What may stand behind an attribute, so that it is read again as it is. -/
def Follows (value : Option Value) (cp : List Char) : Prop :=
  match value with
  | none => (∀ c ∈ cp.head?, isName c = false) ∧ (skipSpace cp).head? ≠ some '='
  | some v =>
    v.tr = none → (v.value = [] → ∀ c ∈ cp.head?, c = '>') ∧ ∀ c ∈ cp.head?, isBare c = false

/-- What `skipValue` finds. -/
inductive IsValue : Value → List Char → Prop where
  | quoted {value rest : List Char} {tr : Char} : tr = '"' ∨ tr = '\'' → tr ∉ value →
      IsValue ⟨value, some tr⟩ rest
  | bare {value rest : List Char} {c : Char} : ¬ (c = '"' ∨ c = '\'') →
      (c :: value).all isBare → (∀ d ∈ rest.head?, isBare d = false) →
      IsValue ⟨c :: value, none⟩ rest
  | nothing {rest : List Char} : (∀ c ∈ rest.head?, c = '>') → IsValue ⟨[], none⟩ rest

theorem skipValue_isValue {cp : List Char} (h : skipSpace cp = cp) :
    IsValue (skipValue cp).1 (skipValue cp).2 := by
  cases cp with
  | nil => exact .nothing (by simp [skipValue])
  | cons tr cp =>
    rw [skipValue]
    split
    · rename_i htr
      refine .quoted htr fun hmem => ?_
      have hall : ∀ c ∈ cp.takeWhile (· ≠ tr), decide (c ≠ tr) = true :=
        List.all_eq_true.mp List.all_takeWhile
      exact of_decide_eq_true (hall tr hmem) rfl
    · rename_i htr
      have hspace : isSpace tr = false := head_space h tr rfl
      cases hbare : isBare tr with
      | true =>
        rw [List.takeWhile_cons_of_pos hbare]
        refine .bare htr ?_ ?_
        · rw [List.all_cons, hbare, Bool.true_and]
          exact List.all_takeWhile
        · exact head_dropWhile isBare (tr :: cp)
      | false =>
        have htr' : tr = '>' := by simpa [isBare, hspace] using hbare
        rw [List.takeWhile_cons_of_neg (by simp [hbare]), List.dropWhile_cons_of_neg (by simp [hbare])]
        exact .nothing (by simpa using htr')

theorem skipSpace_cons {c : Char} (h : isSpace c = false) (cp : List Char) :
    skipSpace (c :: cp) = c :: cp := by
  rw [skipSpace, List.dropWhile_cons_of_neg (by simp [h])]

theorem skipSpace_of_head {cp : List Char} (h : ∀ c ∈ cp.head?, isSpace c = false) :
    skipSpace cp = cp := by
  cases cp with
  | nil => rfl
  | cons c cp => exact skipSpace_cons (h c rfl) cp

theorem isSpace_of_isBare {c : Char} (h : isBare c = true) : isSpace c = false := by
  simp only [isBare, Bool.not_eq_true', Bool.or_eq_false_iff] at h
  exact h.1

theorem isSpace_of_isName {c : Char} (h : isName c = true) : isSpace c = false := by
  simp only [isName, Bool.not_eq_true', Bool.or_eq_false_iff] at h
  exact h.1.1

theorem skipValue_again {v : Value} {rest cp : List Char} (hv : IsValue v rest)
    (hcp : Follows (some v) cp) :
    skipValue (skipSpace (v.written ++ cp)) = (v, cp) := by
  cases hv with
  | @quoted value _ tr htr hmem =>
    have hspace : isSpace tr = false := by
      rcases htr with rfl | rfl <;> decide
    have hall : value.all (· ≠ tr) :=
      List.all_eq_true.mpr fun c hc => decide_eq_true fun heq => hmem (heq ▸ hc)
    have hstop := takeWhile_stop hall (show ∀ c ∈ (tr :: cp).head?, decide (c ≠ tr) = false by simp)
    have hwritten : Value.written ⟨value, some tr⟩ ++ cp = tr :: (value ++ tr :: cp) := by
      simp [Value.written]
    rw [hwritten, skipSpace_cons hspace, skipValue, if_pos htr, hstop.1, hstop.2]
    rfl
  | @bare value _ c hc hall _ =>
    have hstop := takeWhile_stop hall (hcp rfl).2
    have hbare : isBare c = true := by
      rw [List.all_cons, Bool.and_eq_true] at hall
      exact hall.1
    show skipValue (skipSpace ((c :: value) ++ cp)) = _
    rw [List.cons_append] at hstop ⊢
    rw [skipSpace_cons (isSpace_of_isBare hbare), skipValue, if_neg hc, hstop.1, hstop.2]
  | nothing _ =>
    have hhead : ∀ c ∈ cp.head?, c = '>' := (hcp rfl).1 rfl
    cases cp with
    | nil => rfl
    | cons c cp =>
      obtain rfl := hhead c rfl
      rfl

/-- An attribute as `skipAttribute` finds it. -/
structure IsAttribute (attr : List Char) (value : Option Value) : Prop where
  ne_nil : attr ≠ []
  all_isName : attr.all isName
  isValue : ∀ v ∈ value, ∃ rest, IsValue v rest

theorem ReadsAttribute.isAttribute {cp : List Char} {a : Attribute} (h : ReadsAttribute cp a) :
    IsAttribute a.attr a.value := by
  cases h with
  | name hne hattr _ _ _ => exact ⟨hne, hattr, by simp⟩
  | value hne hattr _ _ hspace =>
    refine ⟨hne, hattr, fun v hv => ?_⟩
    cases hv
    exact ⟨_, skipValue_isValue hspace⟩

theorem skipAttribute_again {attr cp : List Char} {value : Option Value}
    (ha : IsAttribute attr value) (hcp : Follows value cp) :
    skipAttribute (attr ++ (value.elim [] fun v => '=' :: v.written) ++ cp) =
      ⟨attr, value, skipSpace cp⟩ := by
  cases value with
  | none =>
    obtain ⟨hfollows, hequal⟩ := hcp
    obtain ⟨htake, hskip⟩ := takeWhile_name ha.all_isName hfollows
    simp only [Option.elim_none, List.append_nil]
    unfold skipAttribute
    simp only [htake, hskip, if_neg ha.ne_nil, if_neg hequal]
  | some v =>
    obtain ⟨rest, hv⟩ := ha.isValue v rfl
    have hequal : ∀ c ∈ ('=' :: (v.written ++ cp)).head?, isName c = false := by
      simp [isName]
    obtain ⟨htake, hskip⟩ := takeWhile_name ha.all_isName hequal
    simp only [Option.elim_some, List.append_assoc, List.cons_append]
    unfold skipAttribute
    simp only [htake, hskip, if_neg ha.ne_nil]
    rw [skipSpace_cons (by decide), if_pos (show ('=' :: _).head? = some '=' from rfl),
      List.tail_cons, skipValue_again hv hcp]

theorem isEnd_of_isName {c : Char} (h : isName c = true) : isEnd c = false := by
  simp only [isName, Bool.not_eq_true', Bool.or_eq_false_iff] at h
  exact h.1.2

theorem skipSpace_blank {c : Char} (h : isName c = true) (cp : List Char) :
    skipSpace (' ' :: c :: cp) = c :: cp := by
  rw [skipSpace, List.dropWhile_cons_of_pos (by decide)]
  exact skipSpace_cons (isSpace_of_isName h) cp

theorem written_attribute (name attr : List Char) (value : Option Value) (cp : List Char) :
    (Event.attribute name attr value).written ++ cp =
      ' ' :: (attr ++ (value.elim [] fun v => '=' :: v.written) ++ cp) := by
  cases value <;> simp [Event.written]

/-- An attribute is read again as it was. -/
theorem tagAttrs_again {name attr cp : List Char} {value : Option Value}
    (ha : IsAttribute attr value) (hcp : Follows value cp) :
    tagAttrs name ((Event.attribute name attr value).written ++ cp) =
      (.attribute name attr value :: (tagAttrs name cp).1, (tagAttrs name cp).2) := by
  have hagain := skipAttribute_again ha hcp
  rw [written_attribute]
  generalize value.elim [] (fun v => '=' :: v.written) = written at *
  obtain ⟨hne, hattr, -⟩ := ha
  cases attr with
  | nil => exact absurd rfl hne
  | cons c attr =>
    rw [List.all_cons, Bool.and_eq_true] at hattr
    have hend := isEnd_of_isName hattr.1
    have hlt : (skipSpace cp).length < (c :: attr ++ written ++ cp).length := by
      have hle := length_skipSpace_le cp
      simp
      omega
    rw [List.cons_append, List.cons_append] at hagain hlt ⊢
    rw [tagAttrs, skipSpace_blank hattr.1, tagAttrsLoop, if_neg (by simp [hend])]
    simp only [hagain, if_pos hlt]
    rfl

theorem isSpace_of_isEnd {c : Char} (h : isEnd c = true) : isSpace c = false := by
  simp only [isEnd, Bool.or_eq_true, decide_eq_true_eq] at h
  rcases h with (rfl | rfl) | rfl <;> decide

theorem tagAttrs_stop {name cp : List Char} (h : ∀ c ∈ cp.head?, isEnd c = true ∨ c = '=') :
    tagAttrs name cp = ([], cp) := by
  cases cp with
  | nil => simp [tagAttrs, skipSpace, tagAttrsLoop]
  | cons c cp =>
    rcases h c rfl with hend | rfl
    · rw [tagAttrs, skipSpace_cons (isSpace_of_isEnd hend), tagAttrsLoop, if_pos hend]
    · have hspace : skipSpace ('=' :: cp) = '=' :: cp := skipSpace_cons (by decide) cp
      have hnone : skipAttribute ('=' :: cp) = ⟨[], none, '=' :: cp⟩ := by
        simp [skipAttribute, isName, hspace]
      rw [tagAttrs, hspace, tagAttrsLoop, if_neg (by decide)]
      simp only [hnone, Nat.lt_irrefl, if_false]

/-- The last attribute has a value without delimiter. -/
def endsBare (events : List Event) : Bool :=
  match events.getLast? with
  | some (.attribute _ _ (some ⟨_, none⟩)) => true
  | _ => false

/-- A value without delimiter is the last thing in the tag. -/
def apartAttrs (attrs : List Event × List Char) : Bool :=
  !endsBare attrs.1 || attrs.2.head?.all (· = '>')

theorem ReadsAttribute.head_name {cp : List Char} {a : Attribute} (h : ReadsAttribute cp a) :
    cp.head?.any isName := by
  cases h with
  | @name attr _ _ hne hall _ _ _ =>
    cases attr with
    | nil => exact absurd rfl hne
    | cons c attr =>
      rw [List.all_cons, Bool.and_eq_true] at hall
      exact hall.1
  | @value attr _ _ _ hne hall _ _ _ =>
    cases attr with
    | nil => exact absurd rfl hne
    | cons c attr =>
      rw [List.all_cons, Bool.and_eq_true] at hall
      exact hall.1

/-- Another attribute may always follow. -/
theorem follows_attribute {cp : List Char} {a a' : Attribute} (ha : ReadsAttribute cp a)
    (ha' : ReadsAttribute a.rest a') (tag cp' : List Char) :
    Follows a.value ((Event.attribute tag a'.attr a'.value).written ++ cp') := by
  obtain ⟨hne, hname, -⟩ := ha'.isAttribute
  rw [written_attribute]
  cases hattr : a'.attr with
  | nil => exact absurd hattr hne
  | cons c attr =>
    rw [hattr, List.all_cons, Bool.and_eq_true] at hname
    cases ha with
    | name _ _ _ _ _ =>
      refine ⟨by simp [isName, isSpace], ?_⟩
      rw [List.cons_append, List.cons_append, skipSpace_blank hname.1]
      rintro heq
      cases heq
      cases hname.1
    | @value _ _ _ cp _ _ _ _ hspace =>
      have hv := skipValue_isValue hspace
      have hstart := ha'.head_name
      simp only at hstart
      generalize skipValue cp = v at *
      obtain ⟨v, rest⟩ := v
      cases hv with
      | quoted _ _ => exact fun hnone => by cases hnone
      | bare _ _ _ =>
        refine fun _ => ⟨fun hnil => (by cases hnil), fun d hd => ?_⟩
        cases hd
        rfl
      | nothing hrest =>
        -- the tag ends here
        cases rest with
        | nil => cases hstart
        | cons d rest =>
          obtain rfl := hrest d rfl
          cases hstart

/-- What follows a value without delimiter is taken for a part of it. -/
theorem bare_differs {name attr value cp : List Char} {d : Char}
    (hattr : IsAttribute attr (some ⟨value, none⟩)) (hne : value ≠ []) (hd : isBare d = true) :
    Differ [.attribute name attr (some ⟨value, none⟩)]
      (tagAttrs name
        ((Event.attribute name attr (some ⟨value, none⟩)).written ++ d :: cp)).1 := by
  obtain ⟨rest, hv⟩ := hattr.isValue _ rfl
  cases hv with
  | nothing _ => exact absurd rfl hne
  | @bare value _ c hc hall _ =>
    have hrest := head_dropWhile isBare (d :: cp)
    have hsplit := List.takeWhile_append_dropWhile (p := isBare) (l := d :: cp)
    rw [List.takeWhile_cons_of_pos hd] at hsplit
    have hmore : (d :: cp.takeWhile isBare).all isBare := by
      rw [List.all_cons, hd, List.all_takeWhile]
      rfl
    generalize cp.takeWhile isBare = more, (d :: cp).dropWhile isBare = cp1 at *
    have hlonger : IsAttribute attr (some ⟨c :: (value ++ d :: more), none⟩) := by
      refine ⟨hattr.ne_nil, hattr.all_isName, fun v hv => ⟨[], ?_⟩⟩
      cases hv
      refine .bare hc ?_ (by simp)
      rw [← List.cons_append, List.all_append, hall, hmore]
      rfl
    have hwritten : (Event.attribute name attr (some ⟨c :: value, none⟩)).written ++ d :: cp =
        (Event.attribute name attr (some ⟨c :: (value ++ d :: more), none⟩)).written ++ cp1 := by
      rw [← hsplit]
      simp [Event.written, Value.written]
    rw [hwritten, tagAttrs_again hlonger fun _ => ⟨by simp, hrest⟩]
    refine ⟨[], _, _, [], _, rfl, rfl, rfl, rfl, fun heq => ?_⟩
    simp at heq

/-- The last attribute, with what may be taken for a part of its value. -/
theorem last_again {name cp cp' : List Char} {a : Attribute} (ha : ReadsAttribute cp a)
    (hstop : ∀ c ∈ a.rest.head?, isEnd c = true ∨ c = '=') (hhead : cp'.head? = a.rest.head?) :
    (apartAttrs ([.attribute name a.attr a.value], a.rest) = true →
      tagAttrs name ((Event.attribute name a.attr a.value).written ++ cp') =
        ([.attribute name a.attr a.value], cp')) ∧
    (apartAttrs ([.attribute name a.attr a.value], a.rest) = false →
      Differ [.attribute name a.attr a.value]
        (tagAttrs name ((Event.attribute name a.attr a.value).written ++ cp')).1) := by
  have hattr := ha.isAttribute
  rw [← hhead] at hstop
  have hagain : Follows a.value cp' →
      tagAttrs name ((Event.attribute name a.attr a.value).written ++ cp') =
        ([.attribute name a.attr a.value], cp') := by
    intro hfollows
    rw [tagAttrs_again hattr hfollows, tagAttrs_stop hstop]
  cases ha with
  | name _ _ _ hequal _ =>
    refine ⟨fun _ => hagain ⟨fun c hc => ?_, ?_⟩, fun hno => by cases hno⟩
    · rcases hstop c hc with hend | rfl
      · simp [isName, hend]
      · rfl
    · have hspace : skipSpace cp' = cp' := by
        refine skipSpace_of_head fun c hc => ?_
        rcases hstop c hc with hend | rfl
        · exact isSpace_of_isEnd hend
        · rfl
      rw [hspace, hhead]
      exact hequal
  | @value attr _ _ cp _ _ _ _ hspace =>
    have hv := skipValue_isValue hspace
    simp only at hhead hstop hagain hattr ⊢
    generalize skipValue cp = p at *
    obtain ⟨⟨value, tr⟩, rest⟩ := p
    cases tr with
    | some tr => exact ⟨fun _ => hagain fun hnone => (by cases hnone), fun hno => by cases hno⟩
    | none =>
      have hapart : apartAttrs ([.attribute name attr (some ⟨value, none⟩)], skipSpace rest) =
          cp'.head?.all (· = '>') := by
        rw [hhead]
        rfl
      simp only [hapart]
      cases cp' with
      | nil => exact ⟨fun _ => hagain fun _ => ⟨by simp, by simp⟩, fun hno => by cases hno⟩
      | cons d cp' =>
        simp only [List.head?_cons, Option.all_some, decide_eq_true_eq, decide_eq_false_iff_not]
        refine ⟨fun hd => hagain fun _ => ⟨by simp [hd], by simp [hd, isBare]⟩, fun hd => ?_⟩
        have hbare : isBare d = true := by
          rcases hstop d rfl with hend | rfl
          · simp [isBare, isSpace_of_isEnd hend, hd]
          · rfl
        refine bare_differs hattr (fun hnil => ?_) hbare
        -- without a value, there is `>` behind it
        cases hv with
        | bare _ _ _ => cases hnil
        | nothing hrest =>
          cases rest with
          | nil => cases hhead
          | cons e rest =>
            obtain rfl := hrest e rfl
            cases hhead
            exact hd rfl

/-- The attributes of a tag, and then the same place in another one. -/
theorem attrs_again {name cp cp' rest : List Char} {attrs : List Event}
    (h : ReadsAttrs name cp attrs rest) (hhead : cp'.head? = rest.head?) :
    (apartAttrs (attrs, rest) = true → tagAttrs name (written attrs ++ cp') = (attrs, cp')) ∧
    (apartAttrs (attrs, rest) = false → Differ attrs (tagAttrs name (written attrs ++ cp')).1) := by
  induction h with
  | nil hstop =>
    rw [← hhead] at hstop
    exact ⟨fun _ => tagAttrs_stop hstop, fun hno => by cases hno⟩
  | @cons cp rest a attrs ha htail ih =>
    cases htail with
    | nil hstop =>
      simpa using last_again ha hstop hhead
    | @cons _ _ a' attrs ha' htail =>
      have hapart : apartAttrs (.attribute name a.attr a.value ::
          .attribute name a'.attr a'.value :: attrs, rest) =
            apartAttrs (.attribute name a'.attr a'.value :: attrs, rest) := by
        simp [apartAttrs, endsBare, List.getLast?_cons_cons]
      have hfollows := follows_attribute ha ha' name (written attrs ++ cp')
      obtain ⟨hsame, hdiffer⟩ := ih hhead
      rw [hapart, written_cons, List.append_assoc]
      rw [written_cons, List.append_assoc] at hsame hdiffer
      rw [written_cons, List.append_assoc, tagAttrs_again ha.isAttribute hfollows]
      refine ⟨fun hyes => ?_, fun hno => ?_⟩
      · rw [hsame hyes]
      · exact (hdiffer hno).append_left [_]

/-! ## Tags -/

theorem ReadsTagEnd.tagEnd_eq {tag cp rest : List Char} {events : List Event}
    (h : ReadsTagEnd tag cp events rest) : tagEnd tag cp = (events, rest) := by
  cases h with
  | @ended text _ closeIt htext =>
    have hhead : ∀ c ∈ ((Event.anyTagEnd tag closeIt).written ++ rest).head?,
        (!isEnd c) = false := by
      cases closeIt <;> simp [Event.written, isEnd]
    obtain ⟨htake, hdrop⟩ := takeWhile_stop htext hhead
    unfold tagEnd
    simp only [htake, hdrop]
    cases closeIt <;> rfl
  | @cut text _ htext hrest =>
    have hhead : ∀ c ∈ rest.head?, (!isEnd c) = false := by
      rcases hrest with rfl | hlt
      · simp
      · simp [hlt, isEnd]
    obtain ⟨htake, hdrop⟩ := takeWhile_stop htext hhead
    unfold tagEnd
    simp only [htake, hdrop]
    rcases hrest with rfl | hlt
    · rfl
    · simp [hlt]

theorem tagEnd_again {tag cp cp' : List Char} (h : strays cp = false)
    (hhead : cp'.head? = (tagEnd tag cp).2.head?) :
    tagEnd tag (written (tagEnd tag cp).1 ++ cp') = ((tagEnd tag cp).1, cp') := by
  have hreads := tagEnd_reads tag h
  generalize (tagEnd tag cp).1 = events, (tagEnd tag cp).2 = rest at *
  cases hreads with
  | @ended text _ closeIt htext =>
    have hwritten : written (tagText text ++ [.anyTagEnd tag closeIt]) ++ cp' =
        text ++ ((Event.anyTagEnd tag closeIt).written ++ cp') := by simp
    rw [hwritten]
    exact (ReadsTagEnd.ended closeIt htext).tagEnd_eq
  | cut htext hrest =>
    rw [written_tagText]
    refine (ReadsTagEnd.cut htext ?_).tagEnd_eq
    rcases hrest with rfl | hlt
    · exact .inl (List.head?_eq_none_iff.mp hhead)
    · exact .inr (hhead.trans hlt)

theorem tagEnd_head {tag cp cp' : List Char} (h : strays cp = false)
    (hhead : cp'.head? = (tagEnd tag cp).2.head?) :
    (written (tagEnd tag cp).1 ++ cp').head? = cp.head? := by
  have hreads := tagEnd_reads tag h
  generalize (tagEnd tag cp).1 = events, (tagEnd tag cp).2 = rest at *
  cases hreads with
  | @ended text _ closeIt _ => cases text <;> cases closeIt <;> simp [Event.written]
  | @cut text _ _ _ => cases text <;> simp [hhead]

/-- In a tag, a value without delimiter is the last thing if it is the last attribute. -/
def apart (cp : List Char) : Bool :=
  !cp.head?.any isAlpha || apartAttrs (tagAttrs (cp.takeWhile isName) (skipName cp))

theorem apart_opening {tag cp : List Char} (halpha : tag.head?.any isAlpha)
    (htag : tag.all isName) (hcp : ∀ c ∈ cp.head?, isName c = false) :
    apart (tag ++ cp) = apartAttrs (tagAttrs tag cp) := by
  obtain ⟨hname, hskip⟩ := takeWhile_name htag hcp
  rw [apart, alpha_append halpha, hname, hskip]
  rfl

/-- What stands behind a `<` is written, and read again in front of something else. -/
def ReadAgain (nest : Bool) (cp cp' : List Char) (m : Markup) : Prop :=
  ∃ cp1, written m.events ++ cp' = '<' :: cp1 ∧
    (apart cp = true → IsMarkup nest cp1 ⟨m.events, m.nest, cp'⟩) ∧
    (apart cp = false → ∃ m', IsMarkup nest cp1 m' ∧ Differ m.events m'.events)

theorem declaration_again {c : Char} {cp cp' : List Char} (hc : c = '!' ∨ c = '?')
    (hcp : c = '!' → cp.take 2 ≠ ['-', '-'])
    (hhead : cp'.head? = (declaration (c :: cp)).rest.head?) :
    ReadAgain true (c :: cp) cp' (declaration (c :: cp)) := by
  have hapart : apart (c :: cp) = true := by
    rcases hc with rfl | rfl <;> rfl
  have hmarkup : ∀ cp1, (c = '!' → cp1.take 2 ≠ ['-', '-']) →
      IsMarkup true (c :: cp1) (declaration (c :: cp1)) := by
    intro cp1 hcp1
    rcases hc with rfl | rfl
    · exact .declaration (hcp1 rfl)
    · exact .instruction
  rcases declaration_reads c cp with ⟨body, rest, rfl, heq⟩ | heq
  · refine ⟨c :: (body ++ '>' :: cp'), by simp [heq, Event.written], fun _ => ?_, fun hno => ?_⟩
    · have h := hmarkup (body ++ '>' :: cp') fun hbang => ?_
      · rw [heq] at h ⊢
        exact h
      · have hne := hcp hbang
        rcases body with _ | ⟨d, _ | ⟨e, body⟩⟩
        · simp
        · simp
        · simpa using hne
    · rw [hapart] at hno
      cases hno
  · rw [heq] at hhead ⊢
    obtain rfl := List.head?_eq_none_iff.mp hhead
    refine ⟨c :: cp, by simp [Event.written], fun _ => ?_, fun hno => ?_⟩
    · have h := hmarkup cp hcp
      rw [heq] at h
      exact h
    · rw [hapart] at hno
      cases hno

theorem isEnd_of_isSpace {c : Char} (h : isSpace c = true) : isEnd c = false := by
  cases hend : isEnd c with
  | false => rfl
  | true =>
    rw [isSpace_of_isEnd hend] at h
    cases h

/-- The end tag of `script` is still one. -/
theorem script_again {tag cp : List Char} (h : (skipSpace cp).head? = some '>')
    (cp' : List Char) : (skipSpace (written (tagEnd tag cp).1 ++ cp')).head? = some '>' := by
  obtain ⟨blank, hblank, hcp⟩ := skipSpace_reads cp
  obtain ⟨rest, hrest⟩ : ∃ rest, skipSpace cp = '>' :: rest := by
    cases hcp1 : skipSpace cp with
    | nil =>
      rw [hcp1] at h
      cases h
    | cons c rest =>
      rw [hcp1] at h
      cases h
      exact ⟨rest, rfl⟩
  have htext : blank.all (!isEnd ·) := by
    refine List.all_eq_true.mpr fun c hc => ?_
    simp [isEnd_of_isSpace (List.all_eq_true.mp hblank c hc)]
  have heq : tagEnd tag (blank ++ '>' :: rest) = _ := (ReadsTagEnd.ended false htext).tagEnd_eq
  have hstop : ∀ c ∈ ('>' :: cp').head?, isSpace c = false := by simp [isSpace]
  have hskip := (takeWhile_stop hblank hstop).2
  rw [hcp, hrest, heq]
  simp only [written_append, written_tagText, List.append_assoc]
  rw [skipSpace]
  simpa [Event.written] using congrArg List.head? hskip

theorem attrs_head {name cp cp' rest : List Char} {attrs : List Event}
    (h : ReadsAttrs name cp attrs rest) (hhead : cp'.head? = rest.head?) :
    ∀ c ∈ (written attrs ++ cp').head?, isName c = false := by
  cases h with
  | nil hstop =>
    intro c hc
    rw [written_nil, List.nil_append, hhead] at hc
    rcases hstop c hc with hend | rfl
    · simp [isName, hend]
    · rfl
  | cons _ _ =>
    intro c hc
    rw [written_cons, List.append_assoc, written_attribute] at hc
    cases hc
    rfl

theorem markup_again {nest : Bool} {cp cp' : List Char} {m : Markup} (h : IsMarkup nest cp m)
    (hwhole : whole cp) (hhead : cp'.head? = m.rest.head?) : ReadAgain nest cp cp' m := by
  cases h with
  | comment hcomment =>
    obtain ⟨body, rest, rfl, heq⟩ := comment_reads hcomment hwhole
    refine ⟨'!' :: '-' :: '-' :: (body ++ '>' :: cp'), by simp [heq, Event.written],
      fun _ => ?_, fun hno => by cases hno⟩
    have h : IsMarkup true ('!' :: '-' :: '-' :: (body ++ '>' :: cp')) _ := .comment rfl
    rw [heq] at h ⊢
    exact h
  | declaration hcp => exact declaration_again (.inl rfl) (fun _ => hcp) hhead
  | instruction => exact declaration_again (.inr rfl) (fun h => by cases h) hhead
  | @closing _ tag cp halpha htag hcp hscript =>
    rw [whole_closing htag hcp, Bool.not_eq_true'] at hwhole
    have hagain := tagEnd_again hwhole hhead
    have hstart := tagEnd_head hwhole hhead
    have hscript' : nest = true ∨ isScript tag = true ∧
        (skipSpace (written (tagEnd tag cp).1 ++ cp')).head? = some '>' :=
      hscript.imp id fun h => ⟨h.1, script_again h.2 cp'⟩
    refine ⟨'/' :: (tag ++ (written (tagEnd tag cp).1 ++ cp')), by simp [endedBy, Event.written],
      fun _ => ?_, fun hno => by cases hno⟩
    have h := IsMarkup.closing halpha htag (by rw [hstart]; exact hcp) hscript'
    rw [endedBy, hagain] at h
    exact h
  | @opening tag cp halpha htag hcp =>
    rw [whole_opening halpha htag hcp, Bool.not_eq_true'] at hwhole
    have hreads := tagAttrs_reads tag cp
    have hstart := tagEnd_head hwhole hhead
    have hend := tagEnd_again hwhole hhead
    obtain ⟨hsame, hdiffer⟩ := attrs_again hreads hstart
    have hmarkup := IsMarkup.opening halpha htag (attrs_head hreads hstart)
    refine ⟨_, ?_, fun hyes => ?_, fun hno => ⟨_, hmarkup, ?_⟩⟩
    · simp [endedBy, Event.written]
    · rw [apart_opening halpha htag hcp] at hyes
      rw [hsame hyes, endedBy, hend] at hmarkup
      exact hmarkup
    · rw [apart_opening halpha htag hcp] at hno
      exact ((hdiffer hno).append_left [.openTagStart tag]).append_right _ _

/-! ## Documents -/

/-- What is written for the document from `cp` on. -/
def rewritten (nest : Bool) (cp : List Char) : List Char := written (parseStr nest [] cp)

theorem written_parseStr (nest : Bool) (cp : List Char) : ∀ text,
    written (parseStr nest text cp) = text ++ rewritten nest cp := by
  induction nest, cp using parse_induction with
  | nil nest => simp [rewritten]
  | text nest c cp hnone ih =>
    intro text
    rw [rewritten, parseStr_text hnone, parseStr_text hnone, ih (text ++ [c]), ih ([] ++ [c])]
    simp
  | markup nest cp m hm _ =>
    intro text
    rw [rewritten, parseStr_markup hm, parseStr_markup hm]
    simp

theorem rewritten_text {nest : Bool} {c : Char} {cp : List Char}
    (h : markupAt nest c cp = none) : rewritten nest (c :: cp) = c :: rewritten nest cp := by
  rw [rewritten, parseStr_text h, written_parseStr]
  rfl

theorem rewritten_markup {nest : Bool} {cp : List Char} {m : Markup} (h : IsMarkup nest cp m) :
    rewritten nest ('<' :: cp) = written m.events ++ rewritten m.nest m.rest := by
  rw [rewritten, parseStr_markup h, rewritten]
  simp

theorem rewritten_head {nest : Bool} {cp : List Char} (h : ∀ t ∈ tags nest cp, whole t) :
    (rewritten nest cp).head? = cp.head? := by
  induction nest, cp using parse_induction with
  | nil nest => simp [rewritten]
  | text nest c cp hnone _ => rw [rewritten_text hnone, List.head?_cons, List.head?_cons]
  | markup nest cp m hm ih =>
    rw [tags_markup hm] at h
    have hrest := ih fun t ht => h t (List.mem_cons_of_mem _ ht)
    obtain ⟨cp1, heq, -⟩ := markup_again hm (h cp List.mem_cons_self) hrest
    rw [rewritten_markup hm, heq, List.head?_cons, List.head?_cons]

/-- The end, or the next `<`. -/
def Cut (cp : List Char) : Prop := ∀ c ∈ cp.head?, c = '<'

theorem dropWhile_cut {p : Char → Bool} (hp : p '<' = false) {s cp : List Char} (hcp : Cut cp) :
    (s ++ cp).takeWhile p = s.takeWhile p ∧ (s ++ cp).dropWhile p = s.dropWhile p ++ cp := by
  induction s with
  | nil =>
    have hstop : ∀ c ∈ cp.head?, p c = false := by
      intro c hc
      rw [hcp c hc, hp]
    have hnil : ([] : List Char).all p := rfl
    simpa using takeWhile_stop hnil hstop
  | cons c s ih =>
    cases hc : p c with
    | true => simp [hc, ih.1, ih.2]
    | false => simp [hc]

/-- Whether text goes on is told by what is in front of the next `<`. -/
theorem markup_cut {nest : Bool} {s cp : List Char} (hcp : Cut cp) :
    (markup nest (s ++ cp)).isSome = (markup nest s).isSome := by
  have hhead : ∀ s : List Char, (s ++ cp).head?.any isAlpha = s.head?.any isAlpha := by
    intro s
    cases s with
    | nil =>
      cases cp with
      | nil => rfl
      | cons c cp =>
        rw [hcp c rfl]
        rfl
    | cons c s => rfl
  cases s with
  | nil =>
    cases cp with
    | nil => rfl
    | cons c cp =>
      rw [hcp c rfl]
      cases nest <;> rfl
  | cons c s =>
    obtain ⟨htake, hdrop⟩ := dropWhile_cut (p := isName) (by decide) (s := s) hcp
    have hspace := (dropWhile_cut (p := isSpace) (by decide) (s := skipName s) hcp).2
    have hend : (skipSpace (skipName (s ++ cp))).head? = some '>' ↔
        (skipSpace (skipName s)).head? = some '>' := by
      rw [show skipName (s ++ cp) = skipName s ++ cp from hdrop,
        show skipSpace (skipName s ++ cp) = skipSpace (skipName s) ++ cp from hspace]
      cases skipSpace (skipName s) with
      | nil =>
        cases cp with
        | nil => rfl
        | cons d cp =>
          rw [hcp d rfl]
          simp
      | cons d s => rfl
    rw [List.cons_append, markup, markup, hhead, htake]
    simp only [hend]
    split
    · rfl
    · split
      · rfl
      · split
        · split <;> rfl
        · split <;> rfl

theorem rewritten_cut {nest : Bool} {cp : List Char} (h : ∀ t ∈ tags nest cp, whole t) :
    ∃ s rest rest', cp = s ++ rest ∧ rewritten nest cp = s ++ rest' ∧ Cut rest ∧ Cut rest' := by
  induction nest, cp using parse_induction with
  | nil nest => exact ⟨[], [], [], rfl, by simp [rewritten], by simp [Cut], by simp [Cut]⟩
  | text nest c cp hnone ih =>
    rw [tags_text hnone] at h
    obtain ⟨s, rest, rest', hcp, hrewritten, hrest⟩ := ih h
    exact ⟨c :: s, rest, rest', by rw [hcp]; rfl, by rw [rewritten_text hnone, hrewritten]; rfl,
      hrest⟩
  | markup nest cp m hm _ =>
    have hhead := rewritten_head h
    refine ⟨[], '<' :: cp, rewritten nest ('<' :: cp), rfl, rfl, by simp [Cut], ?_⟩
    rw [Cut, hhead]
    simp

theorem markupAt_again {nest : Bool} {c : Char} {cp : List Char}
    (h : ∀ t ∈ tags nest cp, whole t) (hnone : markupAt nest c cp = none) :
    markupAt nest c (rewritten nest cp) = none := by
  unfold markupAt at hnone ⊢
  split at hnone
  · rename_i hc
    rw [if_pos hc]
    obtain ⟨s, rest, rest', hcp, hrewritten, hrest, hrest'⟩ := rewritten_cut h
    have hisNone : (markup nest cp).isSome = false := by simp [hnone]
    rw [hcp, markup_cut hrest, ← markup_cut hrest', ← hrewritten] at hisNone
    simpa using hisNone
  · rename_i hc
    rw [if_neg hc]

theorem parse_again {nest : Bool} {cp : List Char} (h : ∀ t ∈ tags nest cp, whole t) :
    ∀ text, ((∀ t ∈ tags nest cp, apart t) →
        parseStr nest text (rewritten nest cp) = parseStr nest text cp) ∧
      (¬ (∀ t ∈ tags nest cp, apart t) →
        Differ (parseStr nest text cp) (parseStr nest text (rewritten nest cp))) := by
  induction nest, cp using parse_induction with
  | nil nest => simp [rewritten]
  | text nest c cp hnone ih =>
    intro text
    rw [tags_text hnone] at h ⊢
    have hagain := markupAt_again h hnone
    rw [rewritten_text hnone, parseStr_text hnone, parseStr_text hagain]
    exact ih h (text ++ [c])
  | markup nest cp m hm ih =>
    intro text
    rw [tags_markup hm] at h ⊢
    have hrest : ∀ t ∈ tags m.nest m.rest, whole t := fun t ht => h t (List.mem_cons_of_mem _ ht)
    obtain ⟨cp1, heq, hyes, hno⟩ := markup_again hm (h cp List.mem_cons_self) (rewritten_head hrest)
    obtain ⟨hsame, hdiffer⟩ := ih hrest []
    rw [rewritten_markup hm, heq, parseStr_markup hm]
    cases hapart : apart cp with
    | true =>
      rw [parseStr_markup (hyes hapart)]
      refine ⟨fun hall => ?_, fun hnot => ?_⟩
      · rw [hsame fun t ht => hall t (List.mem_cons_of_mem _ ht)]
      · refine (hdiffer fun hall => hnot ?_).append_left _
        intro t ht
        rcases List.mem_cons.mp ht with rfl | ht
        · exact hapart
        · exact hall t ht
    | false =>
      obtain ⟨m', hm', hdiffer'⟩ := hno hapart
      rw [parseStr_markup hm']
      refine ⟨fun hall => ?_, fun _ => ?_⟩
      · rw [hall cp List.mem_cons_self] at hapart
        cases hapart
      · exact (hdiffer'.append_left _).append_right _ _

/-- Written without loss, a document is parsed again into the same events, up to joining texts, if
and only if no value without delimiter stands in front of something else in the tag. -/
theorem joinText_again_iff {doc : List Char} (h : ∀ t ∈ tags true doc, whole t) :
    joinText (parse (written (parse doc))) = joinText (parse doc) ↔
      ∀ t ∈ tags true doc, apart t := by
  obtain ⟨hsame, hdiffer⟩ := parse_again h []
  refine ⟨fun heq => ?_, fun hall => congrArg joinText (hsame hall)⟩
  by_contra hnot
  exact (hdiffer hnot).joinText_ne heq.symm

end HTMLParser
end Metaproxy
