import Mathlib.Data.List.Find
import Metaproxy.HTMLParser.Document
import Metaproxy.HttpRewrite.Phase

/-!
# HttpRewrite.Nesting

Which texts of a document the writer of `Event` passes to a rule. What it keeps is a stack of the
`within` elements of open tags (`Content.stack`).

* `stack_token` — they are those of the open elements, when comments and declarations have none.
* `textRules_iff` — so this is when texts are passed to the rules of the elements they are in.
-/

namespace Metaproxy
namespace HttpRewrite

open Lib
open HTMLParser (Event Token)

variable {ρ : Type}

/-! ## The stack -/

section Stack

variable (boost : Boost ρ)

def popWithin (stack : List (Within ρ)) (tag : List Char) : List (Within ρ) :=
  match stack with
  | [] => []
  | it :: within =>
    if it.tag.any fun re => boost.regexMatch re tag then within else it :: within

variable (c : Content ρ)

/-- What an event makes of `s_within`. -/
def Content.stackAfter (stack : List (Within ρ)) : Event → List (Within ρ)
  | .openTagStart tag => (c.textWithin boost tag).toList ++ stack
  | .anyTagEnd tag closeIt => if closeIt then popWithin boost stack tag else stack
  | .closeTag tag => popWithin boost stack tag
  | .attribute _ _ _ => stack
  | .text _ => stack

def Content.stack (stack : List (Within ρ)) (events : List Event) : List (Within ρ) :=
  events.foldl (c.stackAfter boost) stack

/-- The text of an event, and what it is passed to. -/
def passed (stack : List (Within ρ)) : Event → List (List Char × Option (Within ρ))
  | .text value => [(value, stack.head?)]
  | .openTagStart _ => []
  | .anyTagEnd _ _ => []
  | .closeTag _ => []
  | .attribute _ _ _ => []

def Content.passes (stack : List (Within ρ)) : List Event → List (List Char × Option (Within ρ))
  | [] => []
  | e :: events => passed stack e ++ Content.passes (c.stackAfter boost stack e) events

end Stack

variable {boost : Boost ρ} {c : Content ρ} {env : Env ρ}

theorem pop_within (s : EventState ρ) (tag : List Char) :
    (s.pop boost tag).within = popWithin boost s.within tag := by
  rw [EventState.pop]
  cases hwithin : s.within with
  | nil => exact hwithin
  | cons it within =>
    rw [popWithin]
    simp only
    split
    · rfl
    · exact hwithin

/-- A text is passed to the `within` element on top of the stack, or copied. -/
theorem event_text (s : EventState ρ) (value : List Char) :
    c.event boost env s (.text value) =
      match s.within.head? with
      | none => pure (s.write value)
      | some it =>
        it.exec boost env s.vars value false >>= fun r =>
          pure ({ s with vars := r.vars }.write (cString r.txt)) := by
  rw [Content.event]
  cases s.within with
  | nil => rfl
  | cons it within => rfl

theorem eq_of_bind_pure {π ε α β : Type} {x : Traced π ε α} {f : α → β} {b : β}
    (h : (x >>= fun a => (pure (f a) : Traced π ε β)).result = .ok b) : ∃ a, b = f a := by
  obtain ⟨a, -, h⟩ := Traced.bind_eq_ok h
  cases h
  exact ⟨a, rfl⟩

/-- Whatever comes of the rules, the stack is `stackAfter`. -/
theorem event_within {s s' : EventState ρ} {e : Event}
    (h : (c.event boost env s e).result = .ok s') :
    s'.within = c.stackAfter boost s.within e := by
  cases e with
  | openTagStart tag =>
    cases h
    rfl
  | anyTagEnd tag closeIt =>
    cases h
    cases closeIt with
    | true => exact pop_within s tag
    | false => rfl
  | closeTag tag =>
    cases h
    exact pop_within s tag
  | «attribute» tag attr value =>
    cases value with
    | none =>
      cases h
      rfl
    | some v =>
      rw [Content.event] at h
      split at h
      · cases h
        rfl
      · obtain ⟨r, rfl⟩ := eq_of_bind_pure h
        rfl
  | text value =>
    rw [event_text] at h
    split at h
    · cases h
      rfl
    · obtain ⟨r, rfl⟩ := eq_of_bind_pure h
      rfl

/-- The stack of a run over all events. -/
theorem events_within {s s' : EventState ρ} {events : List Event}
    (h : (events.foldlM (c.event boost env) s).result = .ok s') :
    s'.within = c.stack boost s.within events := by
  induction events generalizing s with
  | nil =>
    cases h
    rfl
  | cons e events ih =>
    rw [List.foldlM_cons] at h
    obtain ⟨s1, hevent, h⟩ := Traced.bind_eq_ok h
    rw [ih h, event_within hevent]
    rfl

/-! ## Runs over several events -/

theorem stack_append (stack : List (Within ρ)) (events events' : List Event) :
    c.stack boost stack (events ++ events') = c.stack boost (c.stack boost stack events) events' :=
  List.foldl_append ..

theorem stack_cons (stack : List (Within ρ)) (e : Event) (events : List Event) :
    c.stack boost stack (e :: events) = c.stack boost (c.stackAfter boost stack e) events :=
  rfl

theorem passes_append (stack : List (Within ρ)) (events events' : List Event) :
    c.passes boost stack (events ++ events') =
      c.passes boost stack events ++ c.passes boost (c.stack boost stack events) events' := by
  induction events generalizing stack with
  | nil => rfl
  | cons e events ih =>
    rw [List.cons_append, Content.passes, Content.passes, ih, List.append_assoc]
    rfl

/-- Attributes do nothing to the stack. -/
theorem run_reported (boost : Boost ρ) (c : Content ρ) (stack : List (Within ρ))
    (events : List Event) :
    c.passes boost stack (HTMLParser.reported events) = c.passes boost stack events ∧
      c.stack boost stack (HTMLParser.reported events) = c.stack boost stack events := by
  induction events generalizing stack with
  | nil => exact ⟨rfl, rfl⟩
  | cons e events ih =>
    cases hattr : e.isAttribute with
    | false =>
      rw [HTMLParser.reported_cons hattr, Content.passes, Content.passes, (ih _).1]
      exact ⟨rfl, (ih _).2⟩
    | true =>
      have hskip : HTMLParser.reported (e :: events) = HTMLParser.reported events :=
        List.filter_cons_of_neg (by simp [hattr])
      rw [hskip]
      cases e with
      | «attribute» tag attr value => exact ih stack
      | openTagStart tag => cases hattr
      | anyTagEnd tag closeIt => cases hattr
      | closeTag tag => cases hattr
      | text value => cases hattr

/-! ## Nested documents -/

section Nested

variable (boost c)

/-- The open elements behind a token, the innermost one first. -/
def openAfter (opened : List (List Char)) : Token → List (List Char)
  | .text _ => opened
  | .startTag name _ => name :: opened
  | .emptyTag _ _ => opened
  | .endTag _ _ => opened.tail
  | .script _ _ _ _ _ => opened
  | .special _ => opened

/-- No rule tells the names apart, as when they are the same, or the same up to case. -/
def Content.Alike (name name' : List Char) : Prop :=
  ∀ it ∈ c.withinList, (it.tag.any fun re => boost.regexMatch re name) =
    it.tag.any fun re => boost.regexMatch re name'

/-- A token may stand where these elements are open. -/
def Content.Closes (opened : List (List Char)) : Token → Prop
  | .endTag name _ => ∃ name' opened', opened = name' :: opened' ∧ c.Alike boost name' name
  | .script name _ _ closing _ => c.Alike boost name closing
  | .text _ => True
  | .startTag _ _ => True
  | .emptyTag _ _ => True
  | .special _ => True

/-- Each element is closed inside of the one that it is in. -/
def Content.Nested (opened : List (List Char)) : List Token → Prop
  | [] => opened = []
  | t :: ts => c.Closes boost opened t ∧ Content.Nested (openAfter opened t) ts

/-- The rule for the text of the innermost element that has one. -/
def Content.ruleFor (opened : List (List Char)) : Option (Within ρ) :=
  opened.findSome? (c.textWithin boost)

def textFor (text : List Char) (it : Option (Within ρ)) : List (List Char × Option (Within ρ)) :=
  if text = [] then [] else [(text, it)]

/-- The texts of a token and the rules for them. White space in an end tag is behind the element. -/
def Content.textsOf (opened : List (List Char)) :
    Token → List (List Char × Option (Within ρ))
  | .text s => [(s, c.ruleFor boost opened)]
  | .startTag _ _ => []
  | .emptyTag _ _ => []
  | .endTag _ blank => textFor blank (c.ruleFor boost opened.tail)
  | .script name _ raw _ blank =>
    textFor raw (c.ruleFor boost (name :: opened)) ++ textFor blank (c.ruleFor boost opened)
  | .special _ => []

/-- The texts of a document and the rules for them. -/
def Content.texts (opened : List (List Char)) : List Token → List (List Char × Option (Within ρ))
  | [] => []
  | t :: ts => c.textsOf boost opened t ++ Content.texts (openAfter opened t) ts

end Nested

/-! ## The invariant -/

theorem textWithin_spec {tag : List Char} {it : Within ρ} (h : c.textWithin boost tag = some it) :
    it ∈ c.withinList ∧ (it.tag.any fun re => boost.regexMatch re tag) = true ∧
      (it.attr.any fun re => boost.regexMatch re "#text".toList) = true := by
  have hspec := List.find?_some h
  simp only [Bool.and_eq_true] at hspec
  exact ⟨List.mem_of_find?_eq_some h, hspec.1, hspec.2⟩

/-- What is on the stack is for texts. -/
def TextRule (c : Content ρ) (boost : Boost ρ) (it : Within ρ) : Prop :=
  it ∈ c.withinList ∧ (it.attr.any fun re => boost.regexMatch re "#text".toList) = true

/-- A tag that has no rule is not one of another element's rule. -/
theorem TextRule.any_tag {it : Within ρ} (h : TextRule c boost it) {tag : List Char}
    (hnone : c.textWithin boost tag = none) :
    (it.tag.any fun re => boost.regexMatch re tag) = false := by
  have hno := List.find?_eq_none.mp hnone it h.1
  rw [h.2, Bool.and_true] at hno
  exact Bool.eq_false_of_not_eq_true hno

theorem Content.Alike.textWithin {name name' : List Char} (h : c.Alike boost name name') :
    c.textWithin boost name = c.textWithin boost name' := by
  rw [Content.textWithin, Content.textWithin]
  refine List.find?_congr fun it hit => ?_
  rw [h it hit]

theorem filterMap_cons (name : List Char) (opened : List (List Char)) :
    (name :: opened).filterMap (c.textWithin boost) =
      (c.textWithin boost name).toList ++ opened.filterMap (c.textWithin boost) := by
  rw [List.filterMap_cons]
  cases c.textWithin boost name with
  | none => rfl
  | some it => rfl

theorem popWithin_none {stack : List (Within ρ)} {tag : List Char}
    (hstack : ∀ it ∈ stack, TextRule c boost it) (h : c.textWithin boost tag = none) :
    popWithin boost stack tag = stack := by
  cases stack with
  | nil => rfl
  | cons it within =>
    rw [popWithin, (hstack it List.mem_cons_self).any_tag h]
    rfl

theorem popWithin_some {it : Within ρ} {tag : List Char} (h : c.textWithin boost tag = some it)
    (stack : List (Within ρ)) : popWithin boost (it :: stack) tag = stack := by
  rw [popWithin, (textWithin_spec h).2.1]
  rfl

theorem textRule_of_textWithin {tag : List Char} {it : Within ρ}
    (h : it ∈ c.textWithin boost tag) : TextRule c boost it :=
  ⟨(textWithin_spec h).1, (textWithin_spec h).2.2⟩

theorem textRule_filterMap (opened : List (List Char)) :
    ∀ it ∈ opened.filterMap (c.textWithin boost), TextRule c boost it := by
  intro it hit
  obtain ⟨tag, -, htag⟩ := List.mem_filterMap.mp hit
  exact textRule_of_textWithin htag

/-- The end tag of an element takes away what its start tag has put there. -/
theorem popWithin_own {name name' : List Char} (h : c.Alike boost name name')
    (opened : List (List Char)) :
    popWithin boost ((name :: opened).filterMap (c.textWithin boost)) name' =
      opened.filterMap (c.textWithin boost) := by
  rw [filterMap_cons]
  have hsame := h.textWithin
  cases hname : c.textWithin boost name with
  | none =>
    rw [hname] at hsame
    exact popWithin_none (textRule_filterMap opened) hsame.symm
  | some it =>
    rw [hname] at hsame
    exact popWithin_some hsame.symm _

theorem run_tagText (stack : List (Within ρ)) (text : List Char) (events : List Event) :
    c.passes boost stack (HTMLParser.tagText text ++ events) =
        textFor text stack.head? ++ c.passes boost stack events ∧
      c.stack boost stack (HTMLParser.tagText text ++ events) = c.stack boost stack events := by
  rw [HTMLParser.tagText, textFor]
  split
  · exact ⟨rfl, rfl⟩
  · exact ⟨rfl, rfl⟩

theorem head?_filterMap (opened : List (List Char)) :
    (opened.filterMap (c.textWithin boost)).head? = c.ruleFor boost opened :=
  List.head?_filterMap

/-- A document's token, when the stack holds what the open elements have put there. -/
theorem run_token {opened : List (List Char)} {t : Token} (hcloses : c.Closes boost opened t)
    (hspecial : ∀ tag, t = .special tag → c.textWithin boost tag = none) :
    c.passes boost (opened.filterMap (c.textWithin boost)) t.events = c.textsOf boost opened t ∧
      c.stack boost (opened.filterMap (c.textWithin boost)) t.events =
        (openAfter opened t).filterMap (c.textWithin boost) := by
  cases t with
  | text s =>
    rw [Token.events, Content.textsOf, ← head?_filterMap]
    exact ⟨rfl, rfl⟩
  | startTag name attrs =>
    refine ⟨rfl, ?_⟩
    rw [openAfter, filterMap_cons]
    rfl
  | emptyTag name attrs =>
    have hown : c.Alike boost name name := fun _ _ => rfl
    have hpop := popWithin_own hown opened
    rw [filterMap_cons] at hpop
    exact ⟨rfl, hpop⟩
  | endTag name blank =>
    obtain ⟨name', opened', rfl, halike⟩ := hcloses
    rw [Token.events, Content.passes, Content.stack, List.foldl_cons, Content.stackAfter,
      popWithin_own halike, (run_tagText _ blank _).1, head?_filterMap]
    exact ⟨List.append_nil _, (run_tagText _ blank _).2⟩
  | script name attrs raw closing blank =>
    have hstack : c.stackAfter boost (opened.filterMap (c.textWithin boost)) (.openTagStart name) =
        (name :: opened).filterMap (c.textWithin boost) := (filterMap_cons name opened).symm
    have hclose : c.stackAfter boost ((name :: opened).filterMap (c.textWithin boost))
        (.closeTag closing) = opened.filterMap (c.textWithin boost) := popWithin_own hcloses opened
    have hend : ∀ stack tag, c.stackAfter boost stack (.anyTagEnd tag false) = stack :=
      fun _ _ => rfl
    constructor
    · rw [Token.events, Content.passes, hstack, Content.passes, hend, (run_tagText _ raw _).1,
        Content.passes, hclose, (run_tagText _ blank _).1, head?_filterMap, head?_filterMap]
      simp [Content.textsOf, passed, Content.passes]
    · rw [Token.events, stack_cons, hstack, stack_cons, hend, (run_tagText _ raw _).2, stack_cons,
        hclose, (run_tagText _ blank _).2]
      rfl
  | special tag =>
    have hnone := hspecial tag rfl
    refine ⟨rfl, ?_⟩
    rw [openAfter, Token.events, Content.stack, List.foldl_cons, Content.stackAfter, hnone]
    rfl

/-- The texts of a nested document, when comments and declarations have no rules. -/
theorem run_tokens {opened : List (List Char)} {tokens : List Token}
    (hnested : c.Nested boost opened tokens)
    (hspecial : ∀ tag, .special tag ∈ tokens → c.textWithin boost tag = none) :
    c.passes boost (opened.filterMap (c.textWithin boost)) (tokens.flatMap Token.events) =
        c.texts boost opened tokens ∧
      c.stack boost (opened.filterMap (c.textWithin boost)) (tokens.flatMap Token.events) = [] := by
  induction tokens generalizing opened with
  | nil =>
    have hopened : opened = [] := hnested
    rw [hopened]
    exact ⟨rfl, rfl⟩
  | cons t ts ih =>
    obtain ⟨hcloses, hrest⟩ := hnested
    obtain ⟨hpasses, hstack⟩ :=
      run_token hcloses fun tag ht => hspecial tag (by rw [ht]; exact List.mem_cons_self)
    obtain ⟨ihpasses, ihstack⟩ :=
      ih hrest fun tag htag => hspecial tag (List.mem_cons_of_mem t htag)
    rw [List.flatMap_cons, passes_append, stack_append, hpasses, hstack, ihpasses]
    exact ⟨rfl, ihstack⟩

/-! ## What is left on the stack -/

theorem length_popWithin {stack : List (Within ρ)} (hstack : ∀ it ∈ stack, TextRule c boost it)
    (tag : List Char) :
    stack.length ≤ (popWithin boost stack tag).length + (c.textWithin boost tag).toList.length := by
  cases htag : c.textWithin boost tag with
  | none =>
    rw [popWithin_none hstack htag]
    exact Nat.le_add_right _ _
  | some it =>
    cases stack with
    | nil => exact Nat.zero_le _
    | cons it' within =>
      rw [popWithin]
      split
      · exact Nat.le_refl _
      · exact Nat.le_add_right _ _

theorem popWithin_subset (stack : List (Within ρ)) (tag : List Char) :
    popWithin boost stack tag ⊆ stack := by
  cases stack with
  | nil => exact fun _ h => h
  | cons it within =>
    rw [popWithin]
    split
    · exact List.subset_cons_self it within
    · exact fun _ h => h

theorem textRule_stackAfter {stack : List (Within ρ)} (hstack : ∀ it ∈ stack, TextRule c boost it)
    (e : Event) : ∀ it ∈ c.stackAfter boost stack e, TextRule c boost it := by
  cases e with
  | openTagStart tag =>
    intro it hit
    rcases List.mem_append.mp hit with hit | hit
    · exact textRule_of_textWithin (Option.mem_toList.mp hit)
    · exact hstack it hit
  | anyTagEnd tag closeIt =>
    cases closeIt with
    | true => exact fun it hit => hstack it (popWithin_subset stack tag hit)
    | false => exact hstack
  | closeTag tag => exact fun it hit => hstack it (popWithin_subset stack tag hit)
  | «attribute» tag attr value => exact hstack
  | text value => exact hstack

theorem textRule_stack {stack : List (Within ρ)} (hstack : ∀ it ∈ stack, TextRule c boost it)
    (events : List Event) : ∀ it ∈ c.stack boost stack events, TextRule c boost it := by
  induction events generalizing stack with
  | nil => exact hstack
  | cons e events ih => exact ih (textRule_stackAfter hstack e)

/-- Whether a token puts something on the stack that is never taken away. -/
def Content.isPushed (c : Content ρ) (boost : Boost ρ) : Token → Bool
  | .special tag => (c.textWithin boost tag).isSome
  | .text _ => false
  | .startTag _ _ => false
  | .emptyTag _ _ => false
  | .endTag _ _ => false
  | .script _ _ _ _ _ => false

/-- The rules of the open elements. -/
def Content.rules (c : Content ρ) (boost : Boost ρ) (opened : List (List Char)) : Nat :=
  (opened.filterMap (c.textWithin boost)).length

theorem rules_cons (name : List Char) (opened : List (List Char)) :
    c.rules boost (name :: opened) =
      (c.textWithin boost name).toList.length + c.rules boost opened := by
  rw [Content.rules, filterMap_cons, List.length_append]
  rfl

theorem stack_endTag (stack : List (Within ρ)) (name blank : List Char) :
    c.stack boost stack (.closeTag name :: (HTMLParser.tagText blank ++ [.anyTagEnd name false])) =
      popWithin boost stack name := by
  rw [stack_cons, (run_tagText _ blank _).2]
  rfl

theorem stack_script (stack : List (Within ρ)) (name attrs raw closing blank : List Char) :
    c.stack boost stack (Token.script name attrs raw closing blank).events =
      popWithin boost ((c.textWithin boost name).toList ++ stack) closing := by
  have hend : ∀ stack tag, c.stackAfter boost stack (.anyTagEnd tag false) = stack :=
    fun _ _ => rfl
  rw [Token.events, stack_cons, stack_cons, hend, (run_tagText _ raw _).2, stack_endTag]
  rfl

/-- A token takes no more off the stack than the elements it ends have put there. -/
theorem length_token {stack : List (Within ρ)} (hstack : ∀ it ∈ stack, TextRule c boost it)
    {opened : List (List Char)} {t : Token} (hcloses : c.Closes boost opened t) :
    stack.length + c.rules boost (openAfter opened t) + (if c.isPushed boost t then 1 else 0) ≤
      (c.stack boost stack t.events).length + c.rules boost opened := by
  have hpush : ∀ name, ∀ it ∈ (c.textWithin boost name).toList ++ stack, TextRule c boost it :=
    fun name => textRule_stackAfter hstack (.openTagStart name)
  cases t with
  | text s => exact Nat.le_refl _
  | startTag name attrs =>
    show stack.length + c.rules boost (name :: opened) + 0 ≤
      ((c.textWithin boost name).toList ++ stack).length + c.rules boost opened
    rw [rules_cons, List.length_append]
    omega
  | emptyTag name attrs =>
    have hpop := length_popWithin (hpush name) name
    show stack.length + c.rules boost opened + 0 ≤
      (popWithin boost ((c.textWithin boost name).toList ++ stack) name).length +
        c.rules boost opened
    rw [List.length_append] at hpop
    omega
  | endTag name blank =>
    obtain ⟨name', opened', rfl, halike⟩ := hcloses
    have hpop := length_popWithin hstack name
    rw [Token.events, stack_endTag, rules_cons, halike.textWithin]
    show stack.length + c.rules boost opened' + 0 ≤ _
    omega
  | script name attrs raw closing blank =>
    have halike : c.Alike boost name closing := hcloses
    have hpop := length_popWithin (hpush name) closing
    rw [List.length_append, halike.textWithin] at hpop
    rw [stack_script, halike.textWithin]
    show stack.length + c.rules boost opened + 0 ≤ _
    omega
  | special tag =>
    show stack.length + c.rules boost opened + (if (c.textWithin boost tag).isSome then 1 else 0) ≤
      ((c.textWithin boost tag).toList ++ stack).length + c.rules boost opened
    rw [List.length_append]
    cases c.textWithin boost tag with
    | none =>
      show stack.length + c.rules boost opened + 0 ≤ 0 + stack.length + c.rules boost opened
      omega
    | some it =>
      show stack.length + c.rules boost opened + 1 ≤ 1 + stack.length + c.rules boost opened
      omega

theorem length_tokens {stack : List (Within ρ)} (hstack : ∀ it ∈ stack, TextRule c boost it)
    {opened : List (List Char)} {tokens : List Token} (hnested : c.Nested boost opened tokens) :
    stack.length + tokens.countP (c.isPushed boost) ≤
      (c.stack boost stack (tokens.flatMap Token.events)).length + c.rules boost opened := by
  induction tokens generalizing stack opened with
  | nil => exact Nat.le_add_right _ _
  | cons t ts ih =>
    obtain ⟨hcloses, hrest⟩ := hnested
    have hstep := length_token hstack hcloses
    have hih := ih (textRule_stack hstack t.events) hrest
    rw [List.countP_cons, List.flatMap_cons, stack_append]
    omega

/-- An empty stack in the end tells that comments and declarations have no rules. -/
theorem special_of_empty {tokens : List Token} (hnested : c.Nested boost [] tokens)
    (h : c.stack boost [] (tokens.flatMap Token.events) = []) (tag : List Char)
    (htag : .special tag ∈ tokens) : c.textWithin boost tag = none := by
  have hempty : ∀ it ∈ ([] : List (Within ρ)), TextRule c boost it := fun it hit => by cases hit
  have hlen := length_tokens hempty hnested
  rw [h] at hlen
  have hzero : tokens.countP (c.isPushed boost) = 0 := by
    have hrules : c.rules boost [] = 0 := rfl
    rw [hrules] at hlen
    simpa using hlen
  have hno := List.countP_eq_zero.mp hzero (.special tag) htag
  cases hnone : c.textWithin boost tag with
  | none => rfl
  | some it =>
    refine absurd ?_ hno
    rw [Content.isPushed, hnone]
    rfl

/-- In a nested document, when behind a script that ends in `/>` there is only text: each text is
passed to the rule of the innermost element around it that has one, and the stack is empty in the
end, exactly when no comment, declaration or processing instruction has a rule. -/
theorem textRules_iff (boost : Boost ρ) (c : Content ρ) (tokens : List Token)
    (hdocument : HTMLParser.IsDocument tokens) (hnested : c.Nested boost [] tokens)
    (hscripts : HTMLParser.ScriptsEnd tokens) :
    (c.passes boost [] (HTMLParser.parse (HTMLParser.render tokens)) = c.texts boost [] tokens ∧
        c.stack boost [] (HTMLParser.parse (HTMLParser.render tokens)) = []) ↔
      ∀ tag, .special tag ∈ tokens → c.textWithin boost tag = none := by
  obtain ⟨hpasses, hstack⟩ :=
    run_reported boost c [] (HTMLParser.parse (HTMLParser.render tokens))
  rw [HTMLParser.reported_parse hdocument hscripts] at hpasses hstack
  rw [← hpasses, ← hstack]
  constructor
  · rintro ⟨-, hempty⟩ tag htag
    exact special_of_empty hnested hempty tag htag
  · intro hspecial
    exact run_tokens hnested hspecial

/-! ### Regexes as predicates -/

def predicates : Boost (List Char → Bool) where
  compile _ _ := none
  unset _ := false
  regexSearch _ _ := none
  regexMatch re text := re text
  search_split re text what h := by cases h

/-- The text of the elements whose tags `p` holds of is rewritten. -/
def textContent (p : List Char → Bool) : Content (List Char → Bool) :=
  ⟨.html, fun _ => true,
    [⟨none, some fun attr => attr = "#text".toList, some p, .plain, false, []⟩]⟩

theorem isText_of_not_mem {s : List Char} (h : '<' ∉ s) : HTMLParser.IsText s := by
  rintro before c after rfl
  exact absurd (List.mem_append_right _ List.mem_cons_self) h

theorem text_ok {s : List Char} (hne : s ≠ []) (h : '<' ∉ s) : (Token.text s).Ok :=
  ⟨hne, isText_of_not_mem h⟩

theorem isTagRest_nil (slash : Bool) : HTMLParser.IsTagRest slash [] :=
  ⟨.blank rfl, fun c hc => by cases hc⟩

/-- `<!--b--><p>a</p>`. -/
def paragraph : List Token :=
  [.special "!--b--".toList, .startTag ['p'] [], .text ['a'], .endTag ['p'] []]

theorem paragraph_isDocument : HTMLParser.IsDocument paragraph := by
  have hcomment : ¬ ['-', '-', '>'] <:+: ['b'] ++ ['-', '-'] := by decide
  exact ⟨.comment hcomment, fun h => (by cases h),
    ⟨⟨rfl, rfl⟩, rfl, isTagRest_nil false⟩, fun h => (by cases h),
    text_ok (by decide) (by decide), fun _ => rfl,
    ⟨⟨rfl, rfl⟩, rfl, rfl⟩, fun h => (by cases h), trivial⟩

theorem textRules_paragraph :
    ((textContent (· = ['p'])).passes predicates []
          (HTMLParser.parse (HTMLParser.render paragraph)) =
        (textContent (· = ['p'])).texts predicates [] paragraph ∧
      (textContent (· = ['p'])).stack predicates []
          (HTMLParser.parse (HTMLParser.render paragraph)) = []) ↔
      ∀ tag, .special tag ∈ paragraph →
        (textContent (· = ['p'])).textWithin predicates tag = none := by
  refine textRules_iff predicates (textContent (· = ['p'])) paragraph paragraph_isDocument ?_ ?_
  · exact ⟨trivial, trivial, trivial, ⟨['p'], [], rfl, fun _ _ => rfl⟩, rfl⟩
  · exact ⟨fun h => (by cases h), fun h => (by cases h), fun h => (by cases h),
      fun h => (by cases h), trivial⟩

/-- `<!DOCTYPE html>a`. -/
def doctype : List Token := [.special "!DOCTYPE html".toList, .text ['a']]

/-- `<script/><p>a</p>`. -/
def emptyScript : List Token :=
  [.emptyTag "script".toList [], .startTag ['p'] [], .text ['a'], .endTag ['p'] []]

/-- A declaration is taken for an element, when the rule is for all of them. What stands behind a
script that ends in `/>` is taken for its text. -/
theorem not_textRules :
    (HTMLParser.IsDocument doctype ∧
      (textContent fun _ => true).Nested predicates [] doctype ∧
      (textContent fun _ => true).stack predicates []
        (HTMLParser.parse (HTMLParser.render doctype)) ≠ []) ∧
    (HTMLParser.IsDocument emptyScript ∧
      (textContent (· = ['p'])).Nested predicates [] emptyScript ∧
      (textContent (· = ['p'])).passes predicates []
          (HTMLParser.parse (HTMLParser.render emptyScript)) ≠
        (textContent (· = ['p'])).texts predicates [] emptyScript) := by
  have hdoctype : HTMLParser.IsDocument doctype := by
    exact ⟨.declaration (by decide) (by decide), fun h => (by cases h),
      text_ok (by decide) (by decide), fun _ => rfl, trivial⟩
  have hnested : (textContent fun _ => true).Nested predicates [] doctype :=
    ⟨trivial, trivial, rfl⟩
  have hscript : HTMLParser.IsDocument emptyScript := by
    exact ⟨⟨⟨rfl, rfl⟩, isTagRest_nil true⟩, fun h => (by cases h),
      ⟨⟨rfl, rfl⟩, rfl, isTagRest_nil false⟩, fun h => (by cases h),
      text_ok (by decide) (by decide), fun _ => rfl,
      ⟨⟨rfl, rfl⟩, rfl, rfl⟩, fun h => (by cases h), trivial⟩
  refine ⟨⟨hdoctype, hnested, fun hempty => ?_⟩, hscript, ?_, fun htexts => ?_⟩
  · have hlen : ((textContent fun _ => true).stack predicates []
        (HTMLParser.parse (HTMLParser.render doctype))).length = 1 := by decide +kernel
    rw [hempty] at hlen
    cases hlen
  · exact ⟨trivial, trivial, trivial, ⟨['p'], [], rfl, fun _ _ => rfl⟩, rfl⟩
  · have hpasses : ((textContent (· = ['p'])).passes predicates []
        (HTMLParser.parse (HTMLParser.render emptyScript))).map Prod.fst =
          ["<p>a</p>".toList] := by decide +kernel
    rw [htexts] at hpasses
    cases hpasses

end HttpRewrite
end Metaproxy
