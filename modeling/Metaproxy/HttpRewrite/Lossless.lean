import Metaproxy.HTMLParser.Reparsed
import Metaproxy.HttpRewrite.Phase

/-!
# HttpRewrite.Lossless

HTML content without `within` rules is written as it was read (`html_parse`), and what is lost of it
is what the parser does not report: `lossless_iff`.
-/

namespace Metaproxy

namespace HTMLParser

/-- The output is what the parser reports of the document, the document differs from it in white
space of opening tags only, and it is parsed into the same events, up to joining texts. -/
structure Lossless (doc out : List Char) : Prop where
  written : out = written (parse doc)
  covers : Covers false (parse doc) doc
  again : joinText (parse out) = joinText (parse doc)

theorem lossless_iff {doc out : List Char} (h : out = HTMLParser.written (parse doc)) :
    Lossless doc out ↔ ∀ t ∈ tags true doc, whole t ∧ apart t := by
  constructor
  · intro hlossless t ht
    have hwhole := covers_parse_iff.mp hlossless.covers
    have hagain := hlossless.again
    rw [h] at hagain
    exact ⟨hwhole t ht, (joinText_again_iff hwhole).mp hagain t ht⟩
  · intro hall
    have hwhole : ∀ t ∈ tags true doc, whole t := fun t ht => (hall t ht).1
    refine ⟨h, covers_parse_iff.mpr hwhole, ?_⟩
    rw [h]
    exact (joinText_again_iff hwhole).mpr fun t ht => (hall t ht).2

/-- Nothing but blanks is added, if that holds of the first event and of the others. -/
theorem mem_written_append {e : Event} {events : List Event} {piece doc : List Char}
    (he : ∀ c ∈ e.written, c = ' ' ∨ c ∈ piece)
    (h : ∀ c ∈ HTMLParser.written events, c = ' ' ∨ c ∈ doc) :
    ∀ c ∈ HTMLParser.written (e :: events), c = ' ' ∨ c ∈ piece ++ doc := by
  intro c hc
  rw [written_cons] at hc
  rcases List.mem_append.mp hc with hc | hc
  · exact (he c hc).imp id (List.mem_append_left doc)
  · exact (h c hc).imp id (List.mem_append_right piece)

theorem mem_written_value {tag attr : List Char} {v : Value} {c : Char}
    (before behind : List Char) (hc : c ∈ (Event.attribute tag attr (some v)).written) :
    c = ' ' ∨ c ∈ attr ++ before ++ '=' :: behind ++ v.written := by
  rw [Event.written, List.cons_append, List.mem_cons, List.mem_append, List.mem_cons] at hc
  simp only [List.mem_append, List.mem_cons]
  rcases hc with hblank | hattr | hequal | hvalue
  · exact .inl hblank
  · exact .inr (.inl (.inl (.inl hattr)))
  · exact .inr (.inl (.inr (.inl hequal)))
  · exact .inr (.inr hvalue)

/-- Only blanks are added. -/
theorem Covers.mem_written {b : Bool} {events : List Event} {doc : List Char}
    (h : Covers b events doc) : ∀ c ∈ HTMLParser.written events, c = ' ' ∨ c ∈ doc := by
  induction h with
  | done =>
    intro c hc
    cases hc
  | space _ _ ih =>
    intro c hc
    exact (ih c hc).imp id (List.mem_cons_of_mem _)
  | openTag _ _ ih => exact mem_written_append (fun _ => .inr) ih
  | declaration _ ih => exact mem_written_append (fun _ => .inr) ih
  | name _ ih => exact mem_written_append (fun _ hc => List.mem_cons.mp hc) ih
  | value _ _ _ ih => exact mem_written_append (fun _ => mem_written_value _ _) ih
  | @leftOpen tag attr before behind value tr _ _ _ =>
    intro c hc
    rw [written_cons, written_nil, List.append_nil] at hc
    refine (mem_written_value before behind hc).imp id fun hmem => ?_
    rw [Value.written, ← List.append_assoc] at hmem
    rcases List.mem_append.mp hmem with hmem | hmem
    · exact hmem
    · rw [List.mem_singleton.mp hmem]
      exact List.mem_append_right _ List.mem_cons_self
  | tagEnd closeIt _ ih => exact mem_written_append (fun _ => .inr) ih
  | closeTag _ ih => exact mem_written_append (fun _ => .inr) ih
  | text _ ih => exact mem_written_append (fun _ => .inr) ih

end HTMLParser

namespace HttpRewrite

open Lib
open HTMLParser (Lossless tags whole apart)

variable {ρ : Type} {boost : Boost ρ} {c : Content ρ} {env : Env ρ}

theorem event_eq (hwithin : c.withinList = []) (w : List Char) (vars : Vars)
    (e : HTMLParser.Event) :
    c.event boost env ⟨w, [], vars⟩ e = pure ⟨w ++ e.written, [], vars⟩ := by
  match e with
  | .openTagStart tag =>
    simp [Content.event, Content.textWithin, hwithin, EventState.write, HTMLParser.Event.written]
  | .anyTagEnd tag closeIt => cases closeIt <;> rfl
  | .attribute tag attr none => rfl
  | .attribute tag attr (some v) =>
    have hnone : c.attrWithin boost tag attr = none := by
      rw [Content.attrWithin, hwithin]
      rfl
    simp only [Content.event, hnone]
    cases htr : v.tr <;>
      simp [EventState.write, HTMLParser.Event.written, HTMLParser.Value.written, htr]
  | .closeTag tag => rfl
  | .text value => rfl

theorem events_eq (hwithin : c.withinList = []) (events : List HTMLParser.Event) (w : List Char)
    (vars : Vars) :
    events.foldlM (c.event boost env) ⟨w, [], vars⟩ =
      pure ⟨w ++ HTMLParser.written events, [], vars⟩ := by
  induction events generalizing w with
  | nil => simp
  | cons e events ih =>
    rw [List.foldlM_cons, event_eq hwithin, Traced.pure_bind_eq, ih, HTMLParser.written_cons,
      List.append_assoc]

theorem html_parse (htype : c.type = .html) (hwithin : c.withinList = []) {doc : List Char}
    (hdoc : '\x00' ∉ doc) (vars : Vars) :
    c.parse boost env doc vars =
      pure (cString (HTMLParser.written (HTMLParser.parse doc)), vars) := by
  rw [Content.parse, htype]
  show c.html boost env doc vars = _
  rw [Content.html, cString_eq_self hdoc, events_eq hwithin, Traced.pure_bind_eq]
  rfl

/-- A document is rewritten without loss if and only if every comment in it ends, no tag has a stray
`/`, and no value without delimiter stands in front of something else than an attribute or `>`. -/
theorem html_lossless_iff (boost : Boost ρ) (c : Content ρ) (env : Env ρ) (vars : Vars)
    (doc : List Char) (htype : c.type = .html) (hwithin : c.withinList = [])
    (hdoc : '\x00' ∉ doc) :
    ∃ out, (c.parse boost env doc vars).result = .ok (out, vars) ∧
      (Lossless doc out ↔ ∀ t ∈ tags true doc, whole t ∧ apart t) := by
  refine ⟨_, by rw [html_parse htype hwithin hdoc]; rfl, ?_⟩
  constructor
  · intro h
    exact (HTMLParser.lossless_iff h.written).mp h
  · intro h
    refine (HTMLParser.lossless_iff ?_).mpr h
    have hcovers := HTMLParser.covers_parse fun t ht => (h t ht).1
    refine cString_eq_self fun hmem => ?_
    rcases hcovers.mem_written _ hmem with hblank | hmem
    · cases hblank
    · exact hdoc hmem

/-! ### Documents -/

/-- Nothing is found. -/
def nowhere : Boost Unit where
  compile _ _ := some ()
  unset := ()
  regexSearch _ _ := none
  regexMatch _ _ := false
  search_split := nofun

def htmlContent : Content Unit := ⟨.html, (), []⟩

theorem html_lossless_iff_closed :
    ∃ out, (htmlContent.parse nowhere ⟨0, []⟩ "<a  b = \"c\" >d</a>".toList ∅).result =
        .ok (out, ∅) ∧
      (Lossless "<a  b = \"c\" >d</a>".toList out ↔
        ∀ t ∈ tags true "<a  b = \"c\" >d</a>".toList, whole t ∧ apart t) :=
  html_lossless_iff nowhere htmlContent ⟨0, []⟩ ∅ _ rfl rfl (by decide)

theorem html_loses_of {doc : List Char} (hnul : '\x00' ∉ doc)
    (h : ¬ ∀ t ∈ tags true doc, whole t ∧ apart t) :
    ∃ out, (htmlContent.parse nowhere ⟨0, []⟩ doc ∅).result = .ok (out, ∅) ∧
      ¬ Lossless doc out := by
  refine ⟨_, by rw [html_parse rfl rfl hnul]; rfl, fun hlossless => ?_⟩
  exact h ((HTMLParser.lossless_iff hlossless.written).mp hlossless)

/-- A comment that does not end is gone, a `/` is gone, and a `/` becomes part of a value. -/
theorem html_loses :
    (∃ out, (htmlContent.parse nowhere ⟨0, []⟩ "<!--a".toList ∅).result = .ok (out, ∅) ∧
      ¬ Lossless "<!--a".toList out) ∧
    (∃ out, (htmlContent.parse nowhere ⟨0, []⟩ "<a/b>".toList ∅).result = .ok (out, ∅) ∧
      ¬ Lossless "<a/b>".toList out) ∧
    ∃ out, (htmlContent.parse nowhere ⟨0, []⟩ "<a b=c />".toList ∅).result = .ok (out, ∅) ∧
      ¬ Lossless "<a b=c />".toList out := by
  refine ⟨html_loses_of (by decide) ?_, html_loses_of (by decide) ?_,
    html_loses_of (by decide) ?_⟩
  · decide +kernel
  · decide +kernel
  · decide +kernel

end HttpRewrite
end Metaproxy
