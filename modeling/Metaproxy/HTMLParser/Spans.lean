import Metaproxy.HTMLParser.Pointers
import Metaproxy.HTMLParser.Written

/-!
# HTMLParser.Spans

What `parse_str` reads and what it passes to `HTMLParserEvent`.

* `Goes` — a piece of the parser that goes from one position to another without a fault, and calls
  `HTMLParserEvent` for what the parser of lists reports for the same characters.
* `parseStr_goes` — all of the parser.
-/

namespace Metaproxy
namespace HTMLParser
namespace Pointers

open Lib

/-! ## Calls -/

/-- What a call is passed; of the values, those that are `counted`. -/
def Call.spans (counted : Span → Bool) : Call → List Span
  | .openTagStart tag => [tag]
  | .attribute tag attr value _ => tag :: attr :: [value].filter counted
  | .anyTagEnd tag _ => [tag]
  | .closeTag tag => [tag]
  | .text value => [value]

/-- What a call is passed and no call before it was. -/
def Call.tokens (counted : Span → Bool) : Call → List Span
  | .openTagStart tag => [tag]
  | .attribute _ attr value _ => attr :: [value].filter counted
  | .anyTagEnd _ _ => []
  | .closeTag tag => [tag]
  | .text value => [value]

/-- The name of the tag that a call repeats. -/
def Call.repeated : Call → List Span
  | .attribute tag _ _ _ => [tag]
  | .anyTagEnd tag _ => [tag]
  | _ => []

theorem Call.mem_spans {counted : Span → Bool} {call : Call} {sp : Span}
    (h : sp ∈ call.spans counted) : sp ∈ call.tokens counted ∨ sp ∈ call.repeated := by
  cases call with
  | «attribute» tag attr value tr =>
    rcases List.mem_cons.mp h with rfl | h
    · exact .inr List.mem_cons_self
    · exact .inl h
  | anyTagEnd tag closeIt => exact .inr h
  | openTagStart tag => exact .inl h
  | closeTag tag => exact .inl h
  | text value => exact .inl h

/-- The call in terms of the characters it is passed. -/
def Call.event (s : Str) : Call → Event
  | .openTagStart tag => .openTagStart (s.slice tag)
  | .attribute tag attr value tr =>
    .attribute (s.slice tag) (s.slice attr)
      (value.ptr.map fun _ => ⟨s.slice value, if tr = '\x00' then none else some tr⟩)
  | .anyTagEnd tag closeIt => .anyTagEnd (s.slice tag) closeIt
  | .closeTag tag => .closeTag (s.slice tag)
  | .text value => .text (s.slice value)

def notNull (sp : Span) : Bool := sp.ptr.isSome

/-- From `p` to `q`, where `rest` stands, with `calls` for `events`. -/
structure Goes (s : Str) (p : Nat) (calls : List Call) (q : Nat) (events : List Event)
    (rest : List Char) : Prop where
  rest_at : s.At q rest
  events_eq : calls.map (Call.event s) = events
  inOrder : InOrder p (calls.flatMap (Call.tokens notNull)) q
  repeated : ∀ tag ∈ calls.flatMap Call.repeated, tag.Inside s.chars.length

variable {s : Str} {u : Nat → Uninit} {p q r cp i : Nat} {calls calls' : List Call}
  {events events' : List Event} {name l l' rest rest' : List Char} {tag : Span}

theorem Goes.nil (h : s.At q rest) (hp : p ≤ q) : Goes s p [] q [] rest :=
  ⟨h, rfl, .nil hp, fun _ hmem => by cases hmem⟩

theorem Goes.append (h : Goes s p calls q events rest) (h' : Goes s q calls' r events' rest') :
    Goes s p (calls ++ calls') r (events ++ events') rest' where
  rest_at := h'.rest_at
  events_eq := by rw [List.map_append, h.events_eq, h'.events_eq]
  inOrder := by
    rw [List.flatMap_append]
    exact h.inOrder.append h'.inOrder
  repeated := by
    intro tag hmem
    rw [List.flatMap_append] at hmem
    rcases List.mem_append.mp hmem with hmem | hmem
    · exact h.repeated tag hmem
    · exact h'.repeated tag hmem

/-- A span for a tag of the name. -/
structure Named (s : Str) (tag : Span) (name : List Char) : Prop where
  inside : tag.Inside s.chars.length
  slice_eq : s.slice tag = name

theorem inside_of_at (h : s.At p (l ++ rest)) : Span.Inside s.chars.length ⟨some p, l.length⟩ := by
  have hlen := h.length
  rw [List.length_append] at hlen
  refine ⟨p, rfl, Int.natCast_nonneg _, ?_⟩
  show (p : Int) + (l.length : Int) ≤ s.chars.length
  omega

theorem named_of_at (h : s.At p (l ++ rest)) : Named s ⟨some p, l.length⟩ l :=
  ⟨inside_of_at h, h.slice⟩

theorem named_takeWhile (h : s.At p l) (pred : Char → Bool) :
    Named s ⟨some p, (l.takeWhile pred).length⟩ (l.takeWhile pred) :=
  named_of_at (h.split pred)

/-! ## Attributes -/

theorem skipSpace_at (hs : s.chars.length < 2 ^ 31) (h : s.At cp l) :
    ∃ i, skipSpace s cp = .ok i ∧ s.At (cp + i) (HTMLParser.skipSpace l) :=
  ⟨(l.takeWhile isSpace).length, h.scan_zero hs, h.dropWhile isSpace⟩

theorem skipName_eq (hs : s.chars.length < 2 ^ 31) (h : s.At cp l) :
    skipName s cp = .ok (l.takeWhile isName).length :=
  h.scan_zero hs

theorem skipName_at (h : s.At cp l) :
    s.At (cp + (l.takeWhile isName).length) (HTMLParser.skipName l) :=
  h.dropWhile isName

/-- What `skipValue` returns for the value `v`, up to where `rest` stands. -/
structure IsValue (s : Str) (lo : Nat) (r : Span × Char × Nat) (cp : Nat) (v : Value)
    (rest : List Char) : Prop where
  rest_at : s.At (cp + r.2.2) rest
  notNull : notNull r.1 = true
  inOrder : InOrder lo [r.1] (cp + r.2.2)
  slice_eq : s.slice r.1 = v.value
  tr_eq : (if r.2.1 = '\x00' then none else some r.2.1) = v.tr

theorem isValue_of_at {k : Nat} {tr : Char} {v : List Char} {lo : Nat}
    (hlo : lo ≤ cp + i) (h : s.At (cp + i) (v ++ l)) (hk : i + v.length ≤ k)
    (hrest : s.At (cp + k) rest) :
    IsValue s lo (⟨some (cp + i), ((i + v.length : Nat) : Int) - i⟩, tr, k) cp
      ⟨v, if tr = '\x00' then none else some tr⟩ rest := by
  have hlen : ((i + v.length : Nat) : Int) - i = v.length := by omega
  rw [hlen]
  have hend : cp + i + v.length ≤ cp + k := by omega
  exact ⟨hrest, rfl, .single hlo hend, h.slice, rfl⟩

/-- Behind a delimited value. -/
theorem closing_at (hs : s.chars.length < 2 ^ 31) (h : s.At (cp + i) l) :
    ∃ k, (if l.headD '\x00' = '\x00' then .ok i else offset i 1) = .ok k ∧ i ≤ k ∧
      s.At (cp + k) l.tail := by
  cases l with
  | nil => exact ⟨i, if_pos rfl, Nat.le_refl i, h⟩
  | cons c l =>
    have htail : s.At (cp + (i + 1)) l := h.tail
    exact ⟨i + 1, (if_neg h.ne).trans (htail.offset hs), Nat.le_succ i, htail⟩

theorem skipValue_at (hs : s.chars.length < 2 ^ 31) (h : s.At (cp + i) l) :
    ∃ v, skipValue s cp i = .ok v ∧
      IsValue s (cp + i) v cp (HTMLParser.skipValue l).1 (HTMLParser.skipValue l).2 := by
  have hbare : ∃ v, (do
        let v1 ← s.scan isBare cp i
        return ((⟨some (cp + i), (v1 : Int) - i⟩, '\x00', v1) : Span × Char × Nat)) = .ok v ∧
      IsValue s (cp + i) v cp ⟨l.takeWhile isBare, none⟩ (l.dropWhile isBare) := by
    have hat := h.split isBare
    rw [h.scan hs]
    exact ⟨_, rfl, isValue_of_at (Nat.le_refl _) hat (Nat.le_refl _)
      (by rw [← Nat.add_assoc]; exact hat.append)⟩
  rw [skipValue, h.read, ok_bind]
  cases l with
  | nil => exact hbare
  | cons c l =>
    rw [List.headD_cons, HTMLParser.skipValue]
    by_cases hc : c = '"' ∨ c = '\''
    · rw [if_pos hc, if_pos hc]
      have htail : s.At (cp + (i + 1)) l := h.tail
      have hat := htail.split (· ≠ c)
      have hend : s.At (cp + (i + 1 + (l.takeWhile (· ≠ c)).length)) (l.dropWhile (· ≠ c)) := by
        rw [← Nat.add_assoc]
        exact hat.append
      obtain ⟨k, hk, hle, hrest⟩ := closing_at hs hend
      rw [htail.offset hs, ok_bind, htail.scan hs, ok_bind, hend.read, ok_bind, hk, ok_bind]
      refine ⟨_, rfl, ?_⟩
      have htr : (if c = '\x00' then none else some c) = some c := if_neg h.ne
      rw [← htr]
      exact isValue_of_at (by omega) hat hle hrest
    · rw [if_neg hc, if_neg hc]
      exact hbare

theorem goes_attribute {value : Span} {v : Option Value} {tr : Char} {attr : List Char}
    (hname : Named s tag name) (h : s.At p (attr ++ l)) (hrest : s.At q rest)
    (hvalue : (value.ptr.map fun _ =>
      (⟨s.slice value, if tr = '\x00' then none else some tr⟩ : Value)) = v)
    (horder : InOrder (p + attr.length) ([value].filter notNull) q) :
    Goes s p [.attribute tag ⟨some p, attr.length⟩ value tr] q [.attribute name attr v] rest where
  rest_at := hrest
  events_eq := by
    rw [List.map_singleton, Call.event, hname.slice_eq, h.slice, hvalue]
  inOrder := by
    rw [List.flatMap_singleton]
    exact .cons (Nat.le_refl p) horder
  repeated := by
    intro sp hmem
    cases List.mem_singleton.mp hmem
    exact hname.inside

theorem goes_attribute_none {n : Int} {tr : Char} {attr : List Char} (hname : Named s tag name)
    (h : s.At p (attr ++ l)) (hrest : s.At q rest) (hq : p + attr.length ≤ q) :
    Goes s p [.attribute tag ⟨some p, attr.length⟩ ⟨none, n⟩ tr] q [.attribute name attr none]
      rest :=
  goes_attribute hname h hrest rfl (.nil hq)

theorem goes_attribute_some {v : Span × Char × Nat} {value : Value} {attr : List Char} {lo : Nat}
    (hname : Named s tag name) (h : s.At p (attr ++ l)) (hv : IsValue s lo v p value l')
    (hlo : p + attr.length ≤ lo) (hrest : s.At q rest) (hq : p + v.2.2 ≤ q) :
    Goes s p [.attribute tag ⟨some p, attr.length⟩ v.1 v.2.1] q [.attribute name attr (some value)]
      rest := by
  refine goes_attribute hname h hrest ?_ ?_
  · obtain ⟨ptr, hptr⟩ := Option.isSome_iff_exists.mp hv.notNull
    rw [hptr, hv.slice_eq, hv.tr_eq]
    rfl
  · rw [List.filter_cons_of_pos hv.notNull, List.filter_nil]
    exact InOrder.append (.nil hlo) (hv.inOrder.mono hq)

theorem skipAttribute_goes (hs : s.chars.length < 2 ^ 31) (h : s.At cp l) (hname : Named s tag name)
    (v : Uninit) : ∃ a, skipAttribute s v cp = .ok a ∧
      Goes s cp [.attribute tag ⟨some cp, a.attrLen⟩ a.value a.tr] (cp + a.nor)
        [.attribute name (HTMLParser.skipAttribute l).attr (HTMLParser.skipAttribute l).value]
        (HTMLParser.skipAttribute l).rest := by
  have hattr := h.split isName
  rw [skipAttribute, skipName_eq hs h, ok_bind]
  unfold HTMLParser.skipAttribute
  simp only
  by_cases hempty : l.takeWhile isName = []
  · obtain ⟨ws, hws, hat⟩ := skipSpace_at hs h
    rw [if_pos (List.length_eq_zero_iff.mpr hempty), if_pos hempty, hws, ok_bind]
    refine ⟨_, rfl, ?_⟩
    rw [hempty] at hattr ⊢
    exact goes_attribute_none hname hattr hat (Nat.le_add_right cp ws)
  · rw [if_neg fun hlen => hempty (List.length_eq_zero_iff.mp hlen), if_neg hempty]
    obtain ⟨ws, hws, hat⟩ := skipSpace_at hs (skipName_at h)
    rw [Nat.add_assoc] at hat
    rw [hws, ok_bind, hat.offset hs, ok_bind, hat.read, ok_bind]
    by_cases heq : (HTMLParser.skipSpace (HTMLParser.skipName l)).head? = some '='
    · rw [if_pos ((hat.headD_eq_iff (by decide)).mpr heq), if_pos heq]
      obtain ⟨cp1, hcp1⟩ := List.head?_eq_some_iff.mp heq
      rw [hcp1] at hat ⊢
      have hbehind := hat.tail
      rw [Nat.add_assoc] at hbehind
      obtain ⟨ws1, hws1, hat1⟩ := skipSpace_at hs hbehind
      rw [Nat.add_assoc] at hat1
      obtain ⟨v1, hv1, hvalue⟩ := skipValue_at hs hat1
      obtain ⟨ws2, hws2, hat2⟩ := skipSpace_at hs hvalue.rest_at
      rw [Nat.add_assoc] at hat2
      rw [hbehind.offset hs, ok_bind, hws1, ok_bind, hat1.offset hs, ok_bind, hv1, ok_bind, hws2,
        ok_bind, hat2.offset hs, ok_bind]
      exact ⟨_, rfl, goes_attribute_some hname hattr hvalue (by omega) hat2
        (Nat.add_le_add_left (Nat.le_add_right _ _) cp)⟩
    · rw [if_neg fun hc => heq ((hat.headD_eq_iff (by decide)).mp hc), if_neg heq]
      exact ⟨_, rfl, goes_attribute_none hname hattr hat
        (Nat.add_le_add_left (Nat.le_add_right _ _) cp)⟩

theorem tagAttrsLoop_goes (hs : s.chars.length < 2 ^ 31) (hname : Named s tag name)
    (l : List Char) : ∀ i, s.At (cp + i) l → ∃ r, tagAttrsLoop s u tag cp i = .ok r ∧
      Goes s (cp + i) r.1 (cp + r.2) (HTMLParser.tagAttrsLoop name l).1
        (HTMLParser.tagAttrsLoop name l).2 := by
  fun_induction HTMLParser.tagAttrsLoop name l with
  | case1 =>
    intro i h
    rw [tagAttrsLoop, h.reading, if_pos (.inl rfl)]
    exact ⟨_, rfl, .nil h (Nat.le_refl _)⟩
  | case2 c l hend =>
    intro i h
    rw [tagAttrsLoop, h.reading, if_pos (.inr hend)]
    exact ⟨_, rfl, .nil h (Nat.le_refl _)⟩
  | case3 c l hend a hlt r ih =>
    intro i h
    obtain ⟨b, hb, hgoes⟩ := skipAttribute_goes hs h hname (u (cp + i))
    have hlen := h.length
    have hlen' : cp + i + b.nor + a.rest.length = s.chars.length := hgoes.rest_at.length
    have hnor : b.nor ≠ 0 := by omega
    have hgoes' := hgoes
    rw [Nat.add_assoc] at hgoes'
    obtain ⟨r, hr, hrest⟩ := ih _ hgoes'.rest_at
    rw [tagAttrsLoop, h.reading, List.headD_cons, if_neg (not_or.mpr ⟨h.ne, hend⟩), hb, ok_bind,
      if_neg hnor, if_pos (by omega), hr, ok_bind]
    exact ⟨_, rfl, hgoes'.append hrest⟩
  | case4 c l hend a hle =>
    intro i h
    obtain ⟨b, hb, hgoes⟩ := skipAttribute_goes hs h hname (u (cp + i))
    have hlen := h.length
    have hlen' : cp + i + b.nor + a.rest.length = s.chars.length := hgoes.rest_at.length
    have hnor : b.nor = 0 := by omega
    rw [tagAttrsLoop, h.reading, List.headD_cons, if_neg (not_or.mpr ⟨h.ne, hend⟩), hb, ok_bind,
      if_pos hnor]
    exact ⟨_, rfl, .nil h (Nat.le_refl _)⟩

theorem tagAttrs_goes (hs : s.chars.length < 2 ^ 31) (hname : Named s tag name) (h : s.At cp l) :
    ∃ r, tagAttrs s u tag cp = .ok r ∧
      Goes s cp r.1 (cp + r.2) (HTMLParser.tagAttrs name l).1 (HTMLParser.tagAttrs name l).2 := by
  obtain ⟨i, hi, hat⟩ := skipSpace_at hs h
  obtain ⟨r, hr, hgoes⟩ := tagAttrsLoop_goes (u := u) hs hname _ i hat
  rw [tagAttrs, hi, ok_bind, hr]
  have hstart : Goes s cp [] (cp + i) [] (HTMLParser.skipSpace l) :=
    .nil hat (Nat.le_add_right cp i)
  exact ⟨r, rfl, hstart.append hgoes⟩

/-! ## Tags -/

/-- A call for what stands at `p`. -/
theorem goes_token {call : Call} {e : Event} {token : List Char} (h : s.At p (token ++ rest))
    (htokens : call.tokens notNull = [⟨some p, token.length⟩]) (hrepeated : call.repeated = [])
    (hevent : call.event s = e) : Goes s p [call] (p + token.length) [e] rest where
  rest_at := h.append
  events_eq := congrArg (fun e => [e]) hevent
  inOrder := by
    rw [List.flatMap_singleton, htokens]
    exact .single (Nat.le_refl p) (Nat.le_refl _)
  repeated := by
    rw [List.flatMap_singleton, hrepeated]
    exact fun _ hmem => by cases hmem

theorem goes_text {text : List Char} (h : s.At p (text ++ rest)) :
    Goes s p (if 0 < text.length then [.text ⟨some p, text.length⟩] else []) (p + text.length)
      (HTMLParser.tagText text) rest := by
  rw [HTMLParser.tagText]
  by_cases hempty : text = []
  · subst hempty
    rw [if_pos rfl]
    exact .nil h (Nat.le_refl p)
  · rw [if_neg hempty, if_pos (List.length_pos_iff.mpr hempty)]
    exact goes_token h rfl rfl (congrArg Event.text h.slice)

theorem tagText_eq {n : Nat} (hn : n < 2 ^ 31) :
    tagText p (p + n) = if 0 < n then [.text ⟨some p, n⟩] else [] := by
  have hlen : ((p + n : Nat) : Int) - p = n := by omega
  rw [tagText, hlen, Int.bmod_eq_of_le (by omega) (by omega)]
  by_cases hpos : 0 < n
  · rw [if_pos hpos, if_neg (by omega)]
  · rw [if_neg hpos, if_pos (by omega)]

theorem goes_anyTagEnd {closeIt : Bool} (hname : Named s tag name) (hrest : s.At q rest)
    (hp : p ≤ q) : Goes s p [.anyTagEnd tag closeIt] q [.anyTagEnd name closeIt] rest where
  rest_at := hrest
  events_eq := by rw [List.map_singleton, Call.event, hname.slice_eq]
  inOrder := .nil hp
  repeated := by
    intro sp hmem
    cases List.mem_singleton.mp hmem
    exact hname.inside

/-- Over a `c`, if there is one. -/
theorem over_at (hs : s.chars.length < 2 ^ 31) (h : s.At (cp + i) l) {c : Char} (hc : c ≠ '\x00') :
    ∃ k, (if l.headD '\x00' = c then offset i 1 else .ok i) = .ok k ∧ i ≤ k ∧
      s.At (cp + k) (if l.head? = some c then l.tail else l) := by
  by_cases hhead : l.head? = some c
  · obtain ⟨l', rfl⟩ := List.head?_eq_some_iff.mp hhead
    have htail : s.At (cp + (i + 1)) l' := h.tail
    rw [if_pos (List.headD_cons), if_pos hhead]
    exact ⟨i + 1, htail.offset hs, Nat.le_succ i, htail⟩
  · rw [if_neg fun heq => hhead ((h.headD_eq_iff hc).mp heq), if_neg hhead]
    exact ⟨i, rfl, Nat.le_refl i, h⟩

theorem tagEnd_goes (hs : s.chars.length < 2 ^ 31) (hname : Named s tag name) (h : s.At cp l) :
    ∃ r, tagEnd s tag cp = .ok r ∧
      Goes s cp r.1 (cp + r.2) (HTMLParser.tagEnd name l).1 (HTMLParser.tagEnd name l).2 := by
  have hgoes := goes_text (h.split (!isEnd ·))
  have hclose := hgoes.rest_at.headD_eq_iff (c := '/') (by decide)
  obtain ⟨k, hk, hle, hat⟩ := over_at hs hgoes.rest_at (c := '/') (by decide)
  rw [tagEnd, h.scan_zero hs, ok_bind, hgoes.rest_at.read, ok_bind]
  simp only
  rw [hk, ok_bind, hat.read, ok_bind]
  unfold HTMLParser.tagEnd
  simp only [hclose]
  have hmove : Goes s (cp + (l.takeWhile (!isEnd ·)).length) [] (cp + k) [] _ :=
    .nil hat (Nat.add_le_add_left hle cp)
  by_cases hgt : (if (l.dropWhile (!isEnd ·)).head? = some '/' then (l.dropWhile (!isEnd ·)).tail
      else l.dropWhile (!isEnd ·)).head? = some '>'
  · rw [if_pos ((hat.headD_eq_iff (by decide)).mpr hgt), if_pos hgt]
    obtain ⟨l', hl'⟩ := List.head?_eq_some_iff.mp hgt
    rw [hl'] at hat ⊢
    have hbehind := hat.tail
    rw [Nat.add_assoc] at hbehind
    rw [hbehind.offset hs, ok_bind]
    exact ⟨_, rfl, hgoes.append (goes_anyTagEnd hname hbehind (by omega))⟩
  · rw [if_neg fun heq => hgt ((hat.headD_eq_iff (by decide)).mp heq), if_neg hgt]
    refine ⟨_, rfl, ?_⟩
    have happend := hgoes.append hmove
    rw [List.append_nil, List.append_nil] at happend
    exact happend

theorem endedBy_goes (hs : s.chars.length < 2 ^ 31) (nest : Bool)
    (hname : Named s ⟨some cp, i⟩ name) (h : Goes s p calls (cp + i) events l) :
    ∃ r, endedBy s calls cp i = .ok r ∧
      Goes s p r.1 (cp + r.2) (HTMLParser.endedBy name events nest l).events
        (HTMLParser.endedBy name events nest l).rest := by
  obtain ⟨r, hr, hgoes⟩ := tagEnd_goes hs hname h.rest_at
  rw [Nat.add_assoc] at hgoes
  rw [endedBy, hr, ok_bind, hgoes.rest_at.offset hs, ok_bind]
  exact ⟨_, rfl, h.append hgoes⟩

theorem goes_openTagStart (h : s.At p (name ++ rest)) :
    Goes s p [.openTagStart ⟨some p, name.length⟩] (p + name.length) [.openTagStart name] rest :=
  goes_token h rfl rfl (congrArg Event.openTagStart h.slice)

theorem goes_closeTag (h : s.At p (name ++ rest)) :
    Goes s p [.closeTag ⟨some p, name.length⟩] (p + name.length) [.closeTag name] rest :=
  goes_token h rfl rfl (congrArg Event.closeTag h.slice)

/-! ## Comments and declarations -/

theorem commentEnd_at (hs : s.chars.length < 2 ^ 31) (h : s.At (cp + i) l) :
    commentEnd s cp i = .ok ((HTMLParser.commentEnd l).map fun r => i + r.1.length,
      i + (HTMLParser.commentEnd l).elim l.length fun r => r.1.length) := by
  induction l generalizing i with
  | nil =>
    rw [commentEnd, h.reading]
    exact if_pos rfl
  | cons c l ih =>
    have hlook : s.look id (cp + i) ['-', '-', '>'] =
        .ok (decide (((c :: l).take 3).map id = ['-', '-', '>'])) := h.look (by decide)
    have hfound : ((c :: l).take 3).map id = ['-', '-', '>'] ↔ c = '-' ∧ l.take 2 = ['-', '>'] := by
      rw [List.map_id, List.take_succ_cons, List.cons.injEq]
    have hlen := h.length
    rw [List.length_cons] at hlen
    rw [commentEnd, h.reading, List.headD_cons, if_neg h.ne, hlook, ok_bind]
    simp only [HTMLParser.commentEnd, hfound, decide_eq_true_eq]
    by_cases hend : c = '-' ∧ l.take 2 = ['-', '>']
    · have hlong : 2 ≤ l.length := by
        have hlength : min 2 l.length = 2 := by rw [← List.length_take, hend.2]; rfl
        omega
      rw [if_pos hend, if_pos hend, offset_of_lt (by omega), ok_bind]
      rfl
    · have hnext : s.At (cp + (i + 1)) l := h.tail
      rw [if_neg hend, if_neg hend, if_pos (by omega), ih hnext]
      cases HTMLParser.commentEnd l with
      | none =>
        show Except.ok (none, i + 1 + l.length) = Except.ok (none, i + (c :: l).length)
        rw [List.length_cons, Nat.add_assoc, Nat.add_comm 1]
      | some r =>
        show Except.ok (some (i + 1 + r.1.length), i + 1 + r.1.length) =
          Except.ok (some (i + (c :: r.1).length), i + (c :: r.1).length)
        rw [List.length_cons, Nat.add_assoc, Nat.add_comm 1]

theorem comment_goes (hs : s.chars.length < 2 ^ 31) (h : s.At cp ('!' :: '-' :: '-' :: l)) :
    ∃ r, comment s cp = .ok r ∧
      Goes s cp r.1 (cp + r.2) (HTMLParser.comment ('!' :: '-' :: '-' :: l)).events
        (HTMLParser.comment ('!' :: '-' :: '-' :: l)).rest := by
  have hbehind : s.At (cp + 3) l := h.append (l := ['!', '-', '-'])
  have hloop := commentEnd_at hs hbehind
  unfold HTMLParser.comment
  rw [comment, hloop, ok_bind]
  simp only [List.drop_succ_cons, List.drop_zero]
  cases hend : HTMLParser.commentEnd l with
  | none =>
    have hlen : ('!' :: '-' :: '-' :: l).length = 3 + l.length := Nat.add_comm l.length 3
    have hall : s.At cp (('!' :: '-' :: '-' :: l) ++ []) := by rwa [List.append_nil]
    have hname := named_of_at hall
    have hat := hall.append
    rw [hlen] at hname hat
    exact endedBy_goes hs true hname (.nil hat (Nat.le_add_right cp _))
  | some r =>
    obtain ⟨cp1, -, hcut, -⟩ := commentEnd_reads hend
    have hlen : ('!' :: '-' :: '-' :: r.1).length = 3 + r.1.length := Nat.add_comm r.1.length 3
    have hat : s.At cp (('!' :: '-' :: '-' :: r.1) ++ r.2) := by rwa [hcut] at h
    have hname := named_of_at hat
    have hgoes := goes_openTagStart hat
    rw [hlen] at hname hgoes
    exact endedBy_goes hs true hname hgoes

theorem declaration_goes (hs : s.chars.length < 2 ^ 31) {c : Char} (h : s.At cp (c :: l)) :
    ∃ r, declaration s cp = .ok r ∧
      Goes s cp r.1 (cp + r.2) (HTMLParser.declaration (c :: l)).events
        (HTMLParser.declaration (c :: l)).rest := by
  have hat : s.At cp ((c :: l.takeWhile (· ≠ '>')) ++ l.dropWhile (· ≠ '>')) := by
    rwa [List.cons_append, List.takeWhile_append_dropWhile]
  have hlen : (c :: l.takeWhile (· ≠ '>')).length = 1 + (l.takeWhile (· ≠ '>')).length :=
    Nat.add_comm _ 1
  have hname := named_of_at hat
  have hgoes := goes_openTagStart hat
  rw [hlen] at hname hgoes
  rw [declaration, h.tail.scan hs, ok_bind]
  exact endedBy_goes hs true hname hgoes

/-! ## Tags and text -/

theorem isScript_eq (h : s.At cp l) : isScript s cp (l.takeWhile isName).length =
    .ok (HTMLParser.isScript (l.takeWhile isName)) := by
  have htake : l.take (l.takeWhile isName).length = l.takeWhile isName :=
    (List.prefix_iff_eq_take.mp (List.takeWhile_prefix isName)).symm
  rw [isScript, HTMLParser.isScript]
  by_cases hlen : (l.takeWhile isName).length = 6
  · rw [hlen] at htake
    have hlook : s.look Char.toLower cp "script".toList =
        .ok (decide ((l.take 6).map Char.toLower = "script".toList)) := h.look (by decide)
    rw [if_pos hlen, hlook, htake]
  · rw [if_neg hlen, decide_eq_false]
    intro heq
    have hlength := congrArg List.length heq
    rw [List.length_map] at hlength
    exact hlen hlength

theorem isScriptEnd_eq (hs : s.chars.length < 2 ^ 31) (h : s.At cp l) :
    isScriptEnd s cp (l.takeWhile isName).length = .ok (HTMLParser.isScript (l.takeWhile isName) ∧
      (HTMLParser.skipSpace (HTMLParser.skipName l)).head? = some '>') := by
  rw [isScriptEnd, isScript_eq h, ok_bind]
  cases hscript : HTMLParser.isScript (l.takeWhile isName) with
  | false =>
    rw [if_neg Bool.false_ne_true, decide_eq_false fun hboth => Bool.noConfusion hboth.1]
    rfl
  | true =>
    have hlen : (l.takeWhile isName).length = 6 := by
      have hlength := congrArg List.length (of_decide_eq_true hscript)
      rwa [List.length_map] at hlength
    have hname := skipName_at h
    rw [hlen] at hname
    obtain ⟨ws, hws, hat⟩ := skipSpace_at hs hname
    rw [Nat.add_assoc, Nat.add_comm 6] at hat
    rw [if_pos rfl, hws, ok_bind, hat.offset hs, ok_bind, hat.read, ok_bind]
    simp only [hat.headD_eq_iff (show '>' ≠ '\x00' by decide), true_and]
    rfl

theorem isEndTag_eq {c : Char} (h : s.At cp (c :: l)) :
    isEndTag s cp = .ok (decide (c = '/' ∧ l.head?.any isAlpha)) := by
  have halpha : isAlpha (l.headD '\x00') = l.head?.any isAlpha := by
    cases l with
    | nil => rfl
    | cons d l => rfl
  rw [isEndTag, h.read, ok_bind, List.headD_cons]
  by_cases hc : c = '/'
  · rw [if_pos hc, h.tail.read, ok_bind, halpha]
    simp only [hc, true_and, Bool.decide_eq_true]
    rfl
  · rw [if_neg hc, decide_eq_false fun hboth => hc hboth.1]
    rfl

theorem openTag_goes (hs : s.chars.length < 2 ^ 31) (nest : Bool) (h : s.At cp l) :
    ∃ r, openTag s u cp (l.takeWhile isName).length = .ok r ∧
      Goes s cp r.1 (cp + r.2)
        (HTMLParser.endedBy (l.takeWhile isName) (.openTagStart (l.takeWhile isName) ::
          (HTMLParser.tagAttrs (l.takeWhile isName) (HTMLParser.skipName l)).1) nest
          (HTMLParser.tagAttrs (l.takeWhile isName) (HTMLParser.skipName l)).2).events
        (HTMLParser.endedBy (l.takeWhile isName) (.openTagStart (l.takeWhile isName) ::
          (HTMLParser.tagAttrs (l.takeWhile isName) (HTMLParser.skipName l)).1) nest
          (HTMLParser.tagAttrs (l.takeWhile isName) (HTMLParser.skipName l)).2).rest := by
  have hat : s.At cp (l.takeWhile isName ++ HTMLParser.skipName l) := h.split isName
  have hname := named_takeWhile h isName
  have hstart := goes_openTagStart hat
  obtain ⟨a, ha, hattrs⟩ := tagAttrs_goes (u := u) hs hname hstart.rest_at
  obtain ⟨e, he, hend⟩ := tagEnd_goes hs hname hattrs.rest_at
  rw [Nat.add_assoc (cp + _)] at hend
  have hinner := hend.rest_at
  have hgoes := hstart.append (hattrs.append hend)
  rw [Nat.add_assoc cp] at hgoes
  rw [openTag, ha, ok_bind, he, ok_bind, hinner.offset hs, ok_bind, hgoes.rest_at.offset hs,
    ok_bind]
  exact ⟨_, rfl, hgoes⟩

theorem Goes.of_le (h : Goes s q calls r events rest) (hq : s.At q l) (hp : p ≤ q) :
    Goes s p calls r events rest :=
  (Goes.nil hq hp).append h

/-- With the text before it. -/
theorem Goes.behind_text {text gap : List Char} {e : Nat} (hs : s.chars.length < 2 ^ 31)
    (h : Goes s (p + text.length + gap.length) calls r events rest)
    (htext : s.At p (text ++ (gap ++ l))) (he : p + text.length = e) :
    Goes s p (tagText p e ++ calls) r (HTMLParser.tagText text ++ events) rest := by
  have hgap := htext.append
  have hlen := htext.length
  rw [List.length_append] at hlen
  rw [← he, tagText_eq (by omega)]
  exact (goes_text htext).append (h.of_le hgap.append (Nat.le_add_right _ _))

/-! ## `parse_str` -/

/-- What a round does for a `<` with `l` behind it, and `text` before it. -/
inductive IsRound (s : Str) (nest : Bool) (textStart : Nat) (text : List Char) (cp : Nat)
    (l : List Char) : Round → Prop
  | markup {m : Markup} {calls : List Call} {i : Nat} : HTMLParser.markup nest l = some m →
    Goes s textStart calls (cp + i) (HTMLParser.tagText text ++ m.events) m.rest →
    IsRound s nest textStart text cp l ⟨calls, m.nest, cp + i, i⟩
  | text (skipped : List Char) {l' : List Char} : HTMLParser.markup nest l = none →
    l = skipped ++ l' → '<' ∉ skipped →
    IsRound s nest textStart text cp l ⟨[], nest, textStart, skipped.length⟩

section

variable {nest : Bool} {textStart : Nat} {text : List Char} {m : Markup} {e : List Call × Nat}

theorem at_behind {c : Char} (htext : s.At textStart (text ++ c :: l))
    (hcp : textStart + text.length + 1 = cp) : s.At cp l := by
  rw [← hcp]
  exact htext.append.tail

/-- A round that finds markup at `cp`, or behind a `gap` from there. -/
theorem isRound_of_goes (gap : List Char) (hs : s.chars.length < 2 ^ 31)
    (htext : s.At textStart (text ++ '<' :: (gap ++ l)))
    (hcp : textStart + text.length + 1 = cp) (hm : HTMLParser.markup nest (gap ++ l) = some m)
    (h : Goes s (cp + gap.length) e.1 (cp + gap.length + e.2) m.events m.rest) :
    IsRound s nest textStart text cp (gap ++ l)
      ⟨tagText textStart (cp - 1) ++ e.1, m.nest, cp + gap.length + e.2, gap.length + e.2⟩ := by
  have hstart : cp + gap.length = textStart + text.length + ('<' :: gap).length := by
    rw [← hcp, List.length_cons]
    omega
  rw [hstart] at h
  have hgoes := Goes.behind_text hs h htext (show textStart + text.length = cp - 1 by omega)
  rw [← hstart, Nat.add_assoc] at hgoes
  rw [Nat.add_assoc]
  exact .markup hm hgoes

/-- A round that finds markup at `cp`. -/
theorem round_of_goes {x : Except Fault (List Call × Nat)} (hs : s.chars.length < 2 ^ 31)
    (htext : s.At textStart (text ++ '<' :: l)) (hcp : textStart + text.length + 1 = cp)
    (hm : HTMLParser.markup nest l = some m)
    (hx : ∃ e, x = .ok e ∧ Goes s cp e.1 (cp + e.2) m.events m.rest) :
    ∃ r, (do
      let e ← x
      return (⟨tagText textStart (cp - 1) ++ e.1, m.nest, cp + e.2, e.2⟩ : Round)) = .ok r ∧
      IsRound s nest textStart text cp l r := by
  obtain ⟨e, he, hgoes⟩ := hx
  have hround := isRound_of_goes [] hs htext hcp hm hgoes
  rw [List.length_nil, Nat.zero_add] at hround
  rw [he, ok_bind]
  exact ⟨_, rfl, hround⟩

theorem nest_comment (cp : List Char) : (HTMLParser.comment cp).nest = true := by
  rw [HTMLParser.comment]
  cases HTMLParser.commentEnd (cp.drop 3) with
  | none => rfl
  | some r => rfl

theorem bang_round (hs : s.chars.length < 2 ^ 31) (htext : s.At textStart (text ++ '<' :: '!' :: l))
    (hcp : textStart + text.length + 1 = cp) : ∃ r, markup s u true textStart cp = .ok r ∧
      IsRound s true textStart text cp ('!' :: l) r := by
  have h := at_behind htext hcp
  have hlook : s.look id (cp + 1) ['-', '-'] = .ok (decide ((l.take 2).map id = ['-', '-'])) :=
    h.tail.look (by decide)
  rw [markup, h.read, ok_bind, List.headD_cons, if_pos ⟨rfl, rfl⟩, hlook, ok_bind, List.map_id]
  have hm : HTMLParser.markup true ('!' :: l) = some (if l.take 2 = ['-', '-'] then
      HTMLParser.comment ('!' :: l) else HTMLParser.declaration ('!' :: l)) := by
    rw [HTMLParser.markup, if_pos ⟨rfl, rfl⟩]
  by_cases hdash : l.take 2 = ['-', '-']
  · rw [if_pos hdash] at hm
    rw [if_pos (decide_eq_true hdash)]
    have hl : '!' :: l = '!' :: '-' :: '-' :: l.drop 2 := by
      conv => lhs; rw [← List.take_append_drop 2 l, hdash]
      rfl
    have hround := round_of_goes hs htext hcp hm (hl ▸ comment_goes hs (hl ▸ h))
    rwa [nest_comment] at hround
  · rw [if_neg hdash] at hm
    rw [if_neg fun heq => hdash (of_decide_eq_true heq)]
    exact round_of_goes hs htext hcp hm (declaration_goes hs h)

theorem closing_round (hs : s.chars.length < 2 ^ 31)
    (htext : s.At textStart (text ++ '<' :: '/' :: l)) (hcp : textStart + text.length + 1 = cp)
    (halpha : l.head?.any isAlpha = true) : ∃ r, markup s u nest textStart cp = .ok r ∧
      IsRound s nest textStart text cp ('/' :: l) r := by
  have h := at_behind htext hcp
  have hterminated : (if nest = true then .ok true
      else isScriptEnd s (cp + 1) (l.takeWhile isName).length) =
      .ok (decide (nest = true ∨ HTMLParser.isScript (l.takeWhile isName) = true ∧
        (HTMLParser.skipSpace (HTMLParser.skipName l)).head? = some '>')) := by
    cases nest with
    | true => rfl
    | false =>
      rw [if_neg Bool.false_ne_true, isScriptEnd_eq hs h.tail]
      simp only [Bool.false_eq_true, false_or]
  have hm : HTMLParser.markup nest ('/' :: l) =
      if nest = true ∨ HTMLParser.isScript (l.takeWhile isName) = true ∧
        (HTMLParser.skipSpace (HTMLParser.skipName l)).head? = some '>' then
        some (HTMLParser.endedBy (l.takeWhile isName) [.closeTag (l.takeWhile isName)] true
          (HTMLParser.skipName l))
      else none := by
    rw [HTMLParser.markup, if_neg (by simp), if_neg (by simp), if_pos ⟨rfl, halpha⟩]
  have hend : isEndTag s cp = .ok true := by
    rw [isEndTag_eq h, decide_eq_true ⟨rfl, halpha⟩]
  rw [markup, h.read, ok_bind, List.headD_cons, if_neg fun hboth => absurd hboth.2 (by decide),
    if_neg fun hboth => absurd hboth.2 (by decide), hend, ok_bind, if_pos rfl,
    skipName_eq hs h.tail, ok_bind, hterminated, ok_bind]
  by_cases hclose : nest = true ∨ HTMLParser.isScript (l.takeWhile isName) = true ∧
      (HTMLParser.skipSpace (HTMLParser.skipName l)).head? = some '>'
  · rw [if_pos hclose] at hm
    rw [if_pos (decide_eq_true hclose)]
    have hname := named_takeWhile h.tail isName
    have htag : s.At (cp + 1) (l.takeWhile isName ++ HTMLParser.skipName l) :=
      h.tail.split isName
    obtain ⟨e, he, hgoes⟩ := endedBy_goes hs true hname (goes_closeTag htag)
    rw [he, ok_bind]
    exact ⟨_, rfl, isRound_of_goes ['/'] hs htext hcp hm hgoes⟩
  · rw [if_neg hclose] at hm
    rw [if_neg fun heq => hclose (of_decide_eq_true heq)]
    exact ⟨_, rfl, .text ['/'] hm rfl (by decide)⟩

theorem opening_round {c : Char} (hs : s.chars.length < 2 ^ 31)
    (htext : s.At textStart (text ++ '<' :: c :: l)) (hcp : textStart + text.length + 1 = cp)
    (halpha : isAlpha c = true) : ∃ r, markup s u true textStart cp = .ok r ∧
      IsRound s true textStart text cp (c :: l) r := by
  have h := at_behind htext hcp
  have hne := ne_of_isAlpha halpha
  have hslash : ¬ (c = '/' ∧ l.head?.any isAlpha = true) := fun hboth => hne '/' (by decide) hboth.1
  have hend : isEndTag s cp = .ok false := by
    rw [isEndTag_eq h, decide_eq_false hslash]
  have hm : HTMLParser.markup true (c :: l) = some (HTMLParser.endedBy ((c :: l).takeWhile isName)
      (.openTagStart ((c :: l).takeWhile isName) ::
        (HTMLParser.tagAttrs ((c :: l).takeWhile isName) (HTMLParser.skipName (c :: l))).1)
      (!HTMLParser.isScript ((c :: l).takeWhile isName))
      (HTMLParser.tagAttrs ((c :: l).takeWhile isName) (HTMLParser.skipName (c :: l))).2) := by
    rw [HTMLParser.markup, if_neg fun hboth => hne '!' (by decide) hboth.2,
      if_neg fun hboth => hne '?' (by decide) hboth.2, if_neg hslash, if_pos ⟨rfl, halpha⟩]
  rw [markup, h.read, ok_bind, List.headD_cons, if_neg fun hboth => hne '!' (by decide) hboth.2,
    if_neg fun hboth => hne '?' (by decide) hboth.2, hend, ok_bind, if_neg Bool.false_ne_true,
    if_pos ⟨rfl, halpha⟩, skipName_eq hs h, ok_bind]
  simp only [isScript_eq h, ok_bind]
  exact round_of_goes hs htext hcp hm (openTag_goes hs _ h)

theorem markup_at (hs : s.chars.length < 2 ^ 31) (htext : s.At textStart (text ++ '<' :: l))
    (hcp : textStart + text.length + 1 = cp) : ∃ r, markup s u nest textStart cp = .ok r ∧
      IsRound s nest textStart text cp l r := by
  have h := at_behind htext hcp
  cases l with
  | nil =>
    have hend : isEndTag s cp = .ok false := by
      rw [isEndTag, h.read]
      rfl
    rw [markup, h.read, ok_bind, if_neg fun hboth => absurd hboth.2 (by decide),
      if_neg fun hboth => absurd hboth.2 (by decide), hend, ok_bind, if_neg Bool.false_ne_true,
      if_neg fun hboth => absurd hboth.2 (by decide)]
    exact ⟨_, rfl, .text [] rfl rfl List.not_mem_nil⟩
  | cons c l =>
    by_cases hbang : nest = true ∧ c = '!'
    · obtain ⟨rfl, rfl⟩ := hbang
      exact bang_round hs htext hcp
    by_cases hpi : nest = true ∧ c = '?'
    · obtain ⟨rfl, rfl⟩ := hpi
      rw [markup, h.read, ok_bind, List.headD_cons, if_neg hbang, if_pos ⟨rfl, rfl⟩]
      exact round_of_goes hs htext hcp rfl (declaration_goes hs h)
    by_cases hclose : c = '/' ∧ l.head?.any isAlpha = true
    · obtain ⟨rfl, halpha⟩ := hclose
      exact closing_round hs htext hcp halpha
    by_cases hopen : nest = true ∧ isAlpha c = true
    · obtain ⟨rfl, halpha⟩ := hopen
      exact opening_round hs htext hcp halpha
    have hm : HTMLParser.markup nest (c :: l) = none := by
      rw [HTMLParser.markup, if_neg hbang, if_neg hpi, if_neg hclose, if_neg hopen]
    rw [markup, h.read, ok_bind, List.headD_cons, if_neg hbang, if_neg hpi, isEndTag_eq h, ok_bind,
      decide_eq_false hclose, if_neg Bool.false_ne_true, if_neg hopen]
    exact ⟨_, rfl, .text [] hm rfl List.not_mem_nil⟩

theorem parseStr_skipped {skipped : List Char} (h : '<' ∉ skipped) :
    HTMLParser.parseStr nest text (skipped ++ l) =
      HTMLParser.parseStr nest (text ++ skipped) l := by
  induction skipped generalizing text with
  | nil => rw [List.append_nil, List.nil_append]
  | cons c skipped ih =>
    rw [List.mem_cons, not_or] at h
    rw [List.cons_append, parseStr_text (if_neg (Ne.symm h.1)), ih h.2, List.append_assoc]
    rfl

theorem parseLoop_goes (hs : s.chars.length < 2 ^ 31) (htext : s.At textStart (text ++ l))
    (hcp : textStart + text.length = cp) : ∃ calls, parseLoop s u nest textStart cp = .ok calls ∧
      Goes s textStart calls s.chars.length (HTMLParser.parseStr nest text l) [] := by
  induction hn : l.length using Nat.strong_induction_on
    generalizing nest textStart text cp l with
  | _ n ih =>
    have h : s.At cp l := by
      rw [← hcp]
      exact htext.append
    cases l with
    | nil =>
      have hlen := htext.length
      rw [List.append_nil] at hlen
      have hgoes := goes_text htext
      rw [← tagText_eq (by omega), hcp] at hgoes
      rw [parseLoop, h.reading, parseStr_nil]
      have hend : cp = s.chars.length := h.length
      rw [← hend]
      exact ⟨_, if_pos rfl, hgoes⟩
    | cons c l =>
      rw [List.length_cons] at hn
      rw [parseLoop, h.reading, List.headD_cons, if_neg h.ne]
      by_cases hc : c = '<'
      · subst hc
        rw [if_neg (not_not.mpr rfl)]
        obtain ⟨r, hr, hround⟩ := markup_at (u := u) hs htext (by rw [hcp])
        rw [hr, ok_bind]
        cases hround with
        | @markup m calls i hm hgoes =>
          have hlen := h.length
          have hlen' := hgoes.rest_at.length
          rw [List.length_cons] at hlen
          have hloop : ∃ calls', parseLoop s u m.nest (cp + 1 + i) (cp + 1 + i) = .ok calls' ∧
              Goes s (cp + 1 + i) calls' s.chars.length (HTMLParser.parseStr m.nest [] m.rest) [] :=
            ih m.rest.length (by omega) hgoes.rest_at rfl rfl
          obtain ⟨calls', hcalls', hrest⟩ := hloop
          simp only
          rw [hcalls', ok_bind, parseStr_markup (markup_eq_some_iff.mp hm)]
          exact ⟨_, rfl, hgoes.append hrest⟩
        | @text skipped l' hm hl hskipped =>
          subst hl
          have hnone : markupAt nest '<' (skipped ++ l') = none := by rw [markupAt, if_pos rfl, hm]
          have hlen : (skipped ++ l').length = skipped.length + l'.length := List.length_append
          have htext' : s.At textStart ((text ++ '<' :: skipped) ++ l') := by
            rwa [List.append_assoc, List.cons_append]
          have hcp' : textStart + (text ++ '<' :: skipped).length = cp + 1 + skipped.length := by
            rw [List.length_append, List.length_cons]
            omega
          have hloop : ∃ calls, parseLoop s u nest textStart (cp + 1 + skipped.length) = .ok calls ∧
              Goes s textStart calls s.chars.length
                (HTMLParser.parseStr nest (text ++ '<' :: skipped) l') [] :=
            ih l'.length (by omega) htext' hcp' rfl
          obtain ⟨calls, hcalls, hgoes⟩ := hloop
          rw [hcalls, ok_bind, parseStr_text hnone, parseStr_skipped hskipped, List.append_assoc]
          exact ⟨_, rfl, hgoes⟩
      · rw [if_pos hc, parseStr_text (if_neg hc)]
        exact ih l.length (by omega) (by rwa [List.append_assoc])
          (by rw [List.length_append, ← hcp]; rfl) rfl

theorem parseStr_goes (s : Str) (u : Nat → Uninit) (nest : Bool) (hs : s.chars.length < 2 ^ 31) :
    ∃ calls, parseStr s u nest = .ok calls ∧
      Goes s 0 calls s.chars.length (HTMLParser.parseStr nest [] s.chars) [] :=
  parseLoop_goes hs s.at_zero rfl

end

/-! ## What is passed -/

/-- What is passed to the handler lies in the string, and what is new of it behind what was passed
before. -/
structure Safe (counted : Span → Bool) (s : Str) (calls : List Call) : Prop where
  inside : ∀ sp ∈ calls.flatMap (Call.spans counted), sp.Inside s.chars.length
  pairwise : (calls.flatMap (Call.tokens counted)).Pairwise Span.Before

theorem Goes.safe (h : Goes s p calls s.chars.length events rest) : Safe notNull s calls where
  inside := by
    intro sp hsp
    obtain ⟨call, hcall, hmem⟩ := List.mem_flatMap.mp hsp
    rcases Call.mem_spans hmem with hmem | hmem
    · exact h.inOrder.inside (List.mem_flatMap.mpr ⟨call, hcall, hmem⟩)
    · exact h.repeated sp (List.mem_flatMap.mpr ⟨call, hcall, hmem⟩)
  pairwise := h.inOrder.pairwise

/-- The parser of lists reports the same. -/
theorem parseStr_refines (s : Str) (u : Nat → Uninit) (nest : Bool)
    (hs : s.chars.length < 2 ^ 31) :
    ∃ calls, parseStr s u nest = .ok calls ∧
      calls.map (Call.event s) = HTMLParser.parseStr nest [] s.chars := by
  obtain ⟨calls, hcalls, hgoes⟩ := parseStr_goes s u nest hs
  exact ⟨calls, hcalls, hgoes.events_eq⟩

/-- A value that is not there is no span of the string. -/
theorem not_safe_of_event {attr : List Char}
    (h : .attribute name attr none ∈ calls.map (Call.event s)) :
    ¬ Safe (fun _ => true) s calls := by
  intro hsafe
  obtain ⟨call, hcall, hevent⟩ := List.mem_map.mp h
  cases call with
  | «attribute» tag attr value tr =>
    have hnone : value.ptr = none := by
      injection hevent with _ _ hvalue
      exact Option.map_eq_none_iff.mp hvalue
    have hmem : value ∈ Call.spans (fun _ => true) (.attribute tag attr value tr) := by
      simp [Call.spans]
    obtain ⟨p, hp, -⟩ := hsafe.inside value (List.mem_flatMap.mpr ⟨_, hcall, hmem⟩)
    rw [hnone] at hp
    cases hp
  | openTagStart tag => cases hevent
  | anyTagEnd tag closeIt => cases hevent
  | closeTag tag => cases hevent
  | text value => cases hevent

theorem parseLoop_text {nest : Bool} {textStart : Nat} (h : s.At cp l) (hl : '<' ∉ l) :
    parseLoop s u nest textStart cp = .ok (tagText textStart s.chars.length) := by
  induction l generalizing cp with
  | nil =>
    have hend : cp = s.chars.length := h.length
    rw [parseLoop, h.reading, ← hend]
    exact if_pos rfl
  | cons c l ih =>
    rw [List.mem_cons, not_or] at hl
    rw [parseLoop, h.reading, List.headD_cons, if_neg h.ne, if_pos (Ne.symm hl.1)]
    exact ih h.tail hl.2

def attributeOnly : Str := ⟨"<a b>".toList, by decide⟩

/-- A text as long as an `int` cannot be. -/
def longText : Str :=
  ⟨List.replicate (2 ^ 31) 'a', fun h => absurd (List.eq_of_mem_replicate h) (by decide)⟩

theorem parseStr_longText {nest : Bool} :
    parseStr longText u nest = .ok [.text ⟨some 0, -2 ^ 31⟩] := by
  have hlen : longText.chars.length = 2 ^ 31 := List.length_replicate
  have hno : '<' ∉ longText.chars := fun h => absurd (List.eq_of_mem_replicate h) (by decide)
  rw [parseStr, parseLoop_text longText.at_zero hno, hlen, tagText,
    if_neg (Nat.two_pow_pos 31).ne]
  rfl

theorem parseStr_safe (s : Str) (u : Nat → Uninit) (nest : Bool) (hs : s.chars.length < 2 ^ 31) :
    ∃ calls, parseStr s u nest = .ok calls ∧ Safe notNull s calls := by
  obtain ⟨calls, hcalls, hgoes⟩ := parseStr_goes s u nest hs
  exact ⟨calls, hcalls, hgoes.safe⟩

theorem parseStr_safe_attributeOnly :
    ∃ calls, parseStr attributeOnly (fun _ => ⟨0, 'x'⟩) true = .ok calls ∧
      Safe notNull attributeOnly calls :=
  parseStr_safe attributeOnly _ true (by decide)

theorem not_parseStr_safe :
    (¬ ∃ calls, parseStr attributeOnly (fun _ => ⟨0, 'x'⟩) true = .ok calls ∧
      Safe (fun _ => true) attributeOnly calls) ∧
    ¬ ∃ calls, parseStr longText (fun _ => ⟨0, 'x'⟩) true = .ok calls ∧
      Safe notNull longText calls := by
  constructor
  · rintro ⟨calls, hcalls, hsafe⟩
    obtain ⟨calls', hcalls', hgoes⟩ := parseStr_goes attributeOnly (fun _ => ⟨0, 'x'⟩) true
      (by decide)
    rw [hcalls] at hcalls'
    cases hcalls'
    have hattrs : (HTMLParser.tagAttrs ['a'] [' ', 'b', '>']).1 =
        [.attribute ['a'] ['b'] none] := by
      decide +kernel
    have hmarkup : IsMarkup true (['a'] ++ [' ', 'b', '>']) _ :=
      .opening (by decide) (by decide) fun c hc => by cases hc; decide
    have hevents : HTMLParser.parseStr true [] ('<' :: (['a'] ++ [' ', 'b', '>'])) = _ :=
      parseStr_markup hmarkup
    rw [hattrs] at hevents
    have hmem : Event.attribute ['a'] ['b'] none ∈ calls.map (Call.event attributeOnly) := by
      rw [hgoes.events_eq]
      show _ ∈ HTMLParser.parseStr true [] ('<' :: (['a'] ++ [' ', 'b', '>']))
      rw [hevents]
      refine List.mem_append_left _ (List.mem_append_right _ (List.mem_append_left _ ?_))
      exact List.mem_cons_of_mem _ List.mem_cons_self
    exact not_safe_of_event hmem hsafe
  · rintro ⟨calls, hcalls, hsafe⟩
    rw [parseStr_longText] at hcalls
    cases hcalls
    obtain ⟨p, -, hlen, -⟩ := hsafe.inside ⟨some 0, -2 ^ 31⟩ List.mem_cons_self
    exact absurd hlen (by decide)

end Pointers
end HTMLParser
end Metaproxy
