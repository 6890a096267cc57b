import Mathlib.Data.List.Infix
import Mathlib.Data.List.TakeWhile
import Metaproxy.HttpRewrite.Rule

/-!
# HttpRewrite.Literals

What `embed_quoted_literal` takes for literals, as a grammar of the text (`Scanned`), and that it
rewrites their bodies and nothing else.

* `embedLoop_result` — the loop with a rule whose result is a function of the text and the variables.
* `embedQuotedLiteralWith_scanned` — the text is put together again from its pieces.
-/

namespace Metaproxy
namespace HttpRewrite

/-! ## The scanner with any rule -/

/-- `embedLoop` with the rule as a function. -/
def embedLoopWith (rule : Vars → List Char → Rewritten) (html : Bool) (res seg : List Char)
    (vars : Vars) (replace : Bool) (cp : List Char) : Rewritten :=
  match cp with
  | [] => ⟨res ++ seg, vars, replace⟩
  | c :: cp1 =>
    if html ∧ (c :: cp1).take 6 = "&quot;".toList then
      let res := res ++ seg ++ "&quot;".toList
      let s := entityLiteral (cp1.drop 5)
      if s.2 = [] then ⟨res ++ s.1, vars, replace⟩
      else
        let r := rule vars s.1
        embedLoopWith rule html (res ++ r.txt) (s.2.take 1) r.vars (replace || r.replaces) s.2.tail
    else if c = '"' ∨ c = '\'' then
      let res := res ++ seg ++ [c]
      let s := quotedLiteral c c cp1
      if s.2 = [] then ⟨res ++ s.1, vars, replace⟩
      else
        let r := rule vars s.1
        embedLoopWith rule html (res ++ r.txt) (s.2.take 1) r.vars (replace || r.replaces) s.2.tail
    else if c = '/' ∧ cp1.head? = some '/' then
      embedLoopWith rule html res (seg ++ c :: cp1.takeWhile (· ≠ '\n')) vars replace
        (cp1.dropWhile (· ≠ '\n'))
    else embedLoopWith rule html res (seg ++ [c]) vars replace cp1
termination_by cp.length
decreasing_by
  · have hle := length_entityLiteral_le (cp1.drop 5)
    simp only [List.length_cons, List.length_tail, List.length_drop] at hle ⊢
    omega
  · have hle := length_quotedLiteral_le c cp1 c
    simp only [List.length_cons, List.length_tail] at hle ⊢
    omega
  · have hle := (List.dropWhile_sublist (· ≠ '\n') (l := cp1)).length_le
    simp only [List.length_cons] at hle ⊢
    omega
  · simp only [List.length_cons]
    omega

def embedQuotedLiteralWith (rule : Vars → List Char → Rewritten) (content : List Char)
    (vars : Vars) (html : Bool) : Rewritten :=
  embedLoopWith rule html [] [] vars false (cString content)

variable {ρ : Type} {boost : Boost ρ} {env : Env ρ} {rule : Rule ρ}
  {applied : Vars → List Char → Rewritten}

theorem result_bind {π ε α β : Type} {c : Lib.Traced π ε α} {f : α → Lib.Traced π ε β} {a : α}
    (h : c.result = .ok a) : (c >>= f).result = (f a).result := by
  rw [Lib.Traced.bind_ok h]

/-- A rule that comes to an end, whatever it is applied to. -/
theorem embedLoop_result
    (hrule : ∀ vars s, (testPatterns boost env rule vars s true).result = .ok (applied vars s))
    (html : Bool) (res seg : List Char) (vars : Vars) (replace : Bool) (cp : List Char) :
    (embedLoop boost env rule html res seg vars replace cp).result =
      .ok (embedLoopWith applied html res seg vars replace cp) := by
  fun_induction embedLoop boost env rule html res seg vars replace cp with
  | case1 res seg vars replace => rw [embedLoopWith]; rfl
  | case2 res seg vars replace c cp1 hentity res' s hend =>
    have hs : (entityLiteral (cp1.drop 5)).2 = [] := hend
    rw [embedLoopWith, if_pos hentity]
    simp only
    rw [if_pos hs]
    rfl
  | case3 res seg vars replace c cp1 hentity res' s d cp2 hend hlen ih =>
    have hs : (entityLiteral (cp1.drop 5)).2 = d :: cp2 := hend
    rw [embedLoopWith, if_pos hentity, result_bind (hrule vars s.1), ih]
    simp only [hs]
    rw [if_neg (List.cons_ne_nil d cp2)]
    rfl
  | case4 res seg vars replace c cp1 hentity hquote res' s hend =>
    have hs : (quotedLiteral c c cp1).2 = [] := hend
    rw [embedLoopWith, if_neg hentity, if_pos hquote]
    simp only
    rw [if_pos hs]
    rfl
  | case5 res seg vars replace c cp1 hentity hquote res' s d cp2 hend hlen ih =>
    have hs : (quotedLiteral c c cp1).2 = d :: cp2 := hend
    rw [embedLoopWith, if_neg hentity, if_pos hquote, result_bind (hrule vars s.1), ih]
    simp only [hs]
    rw [if_neg (List.cons_ne_nil d cp2)]
    rfl
  | case6 res seg vars replace c cp1 hentity hquote hcomment hlen ih =>
    rw [embedLoopWith, if_neg hentity, if_neg hquote, if_pos hcomment]
    exact ih
  | case7 res seg vars replace c cp1 hentity hquote hcomment ih =>
    rw [embedLoopWith, if_neg hentity, if_neg hquote, if_neg hcomment]
    exact ih

theorem embedQuotedLiteral_result
    (hrule : ∀ vars s, (testPatterns boost env rule vars s true).result = .ok (applied vars s))
    (content : List Char) (vars : Vars) (html : Bool) :
    (embedQuotedLiteral boost env content vars rule html).result =
      .ok (embedQuotedLiteralWith applied content vars html) :=
  embedLoop_result hrule html [] [] vars false _

/-! ## The grammar -/

def IsQuote (c : Char) : Prop := c = '"' ∨ c = '\''

def StartsEntity (cp : List Char) : Prop := "&quot;".toList <+: cp

/-- All on one line, and a backslash before every `q` in it. -/
def QuoteBody (q : Char) (body : List Char) : Prop :=
  '\n' ∉ body ∧ ∀ before after, body = before ++ q :: after → before.getLast? = some '\\'

/-- The end of the line, or a `q` without a backslash before it. -/
def QuoteEnd (q : Char) (body : List Char) (d : Char) : Prop :=
  d = '\n' ∨ (d = q ∧ body.getLast? ≠ some '\\')

/-- All on one line, and no `&quot;` in it. -/
def EntityBody (body : List Char) : Prop := '\n' ∉ body ∧ ¬ "&quot;".toList <:+: body

/-- The end of the line, or the next `&quot;`. -/
def EntityEnd (cp : List Char) : Prop := cp.head? = some '\n' ∨ StartsEntity cp

inductive Piece where
  | text (s : List Char)
  /-- The body of a complete literal. -/
  | literal (body : List Char)
deriving DecidableEq, Repr

/-- The pieces of a text. A literal that does not end is no literal, and the character that ends one
opens no other. -/
inductive Scanned (html : Bool) : List Char → List Piece → Prop where
  | nil : Scanned html [] []
  | quote {q d : Char} {body rest : List Char} {pieces : List Piece} :
      IsQuote q → QuoteBody q body → QuoteEnd q body d → Scanned html rest pieces →
        Scanned html (q :: (body ++ d :: rest))
          (.text [q] :: .literal body :: .text [d] :: pieces)
  | quoteOpen {q : Char} {body : List Char} :
      IsQuote q → QuoteBody q body → Scanned html (q :: body) [.text (q :: body)]
  | entity {d : Char} {body rest : List Char} {pieces : List Piece} :
      html = true → EntityBody body → EntityEnd (d :: rest) → Scanned html rest pieces →
        Scanned html ("&quot;".toList ++ (body ++ d :: rest))
          (.text "&quot;".toList :: .literal body :: .text [d] :: pieces)
  | entityOpen {body : List Char} :
      html = true → EntityBody body →
        Scanned html ("&quot;".toList ++ body) [.text ("&quot;".toList ++ body)]
  | comment {line rest : List Char} {pieces : List Piece} :
      '\n' ∉ line → (∀ c ∈ rest.head?, c = '\n') → Scanned html rest pieces →
        Scanned html ('/' :: '/' :: (line ++ rest)) (.text ('/' :: '/' :: line) :: pieces)
  | char {c : Char} {rest : List Char} {pieces : List Piece} :
      ¬ IsQuote c → ¬ (html = true ∧ StartsEntity (c :: rest)) →
        ¬ (c = '/' ∧ rest.head? = some '/') → Scanned html rest pieces →
          Scanned html (c :: rest) (.text [c] :: pieces)

def Piece.chars : Piece → List Char
  | text s => s
  | literal body => body

/-- The text put together again, with what the rule makes of the literals one after the other. -/
def rewritePieces (rule : Vars → List Char → Rewritten) (vars : Vars) : List Piece → Rewritten
  | [] => ⟨[], vars, false⟩
  | .text s :: pieces =>
    let r := rewritePieces rule vars pieces
    { r with txt := s ++ r.txt }
  | .literal body :: pieces =>
    let b := rule vars body
    let r := rewritePieces rule b.vars pieces
    ⟨b.txt ++ r.txt, r.vars, b.replaces || r.replaces⟩

/-! ## Where literals end -/

theorem quoteBody_cons_iff {q c : Char} {body : List Char} (prev : Char) :
    (∀ before after, c :: body = before ++ q :: after →
        (prev :: before).getLast? = some '\\') ↔
      (c = q → prev = '\\') ∧
        ∀ before after, body = before ++ q :: after → (c :: before).getLast? = some '\\' := by
  constructor
  · intro h
    refine ⟨fun hc => ?_, fun before after heq => ?_⟩
    · simpa using h [] body (by rw [hc]; rfl)
    · simpa [List.getLast?_cons_cons] using h (c :: before) after (by rw [heq]; rfl)
  · rintro ⟨hfirst, hrest⟩ (_ | ⟨c', before⟩) after heq
    · obtain ⟨hc, -⟩ := List.cons.inj heq
      rw [hfirst hc]
      rfl
    · obtain ⟨hc, htail⟩ := List.cons.inj heq
      cases hc
      simpa [List.getLast?_cons_cons] using hrest before after htail

/-- What `quotedLiteral` stops at, for any character before. -/
theorem quotedLiteral_spec (q : Char) (cp : List Char) (prev : Char) :
    cp = (quotedLiteral q prev cp).1 ++ (quotedLiteral q prev cp).2 ∧
      '\n' ∉ (quotedLiteral q prev cp).1 ∧
      (∀ before after, (quotedLiteral q prev cp).1 = before ++ q :: after →
        (prev :: before).getLast? = some '\\') ∧
      ∀ d ∈ (quotedLiteral q prev cp).2.head?,
        d = '\n' ∨ (d = q ∧ (prev :: (quotedLiteral q prev cp).1).getLast? ≠ some '\\') := by
  induction cp generalizing prev with
  | nil => simp [quotedLiteral]
  | cons c cp ih =>
    rw [quotedLiteral]
    by_cases hstop : prev ≠ '\\' ∧ c = q ∨ c = '\n'
    · rw [if_pos hstop]
      refine ⟨rfl, List.not_mem_nil, by simp, ?_⟩
      rintro d hd
      cases hd
      rcases hstop with ⟨hprev, hc⟩ | hc
      · exact .inr ⟨hc, by simpa using hprev⟩
      · exact .inl hc
    · rw [if_neg hstop]
      rw [not_or, not_and'] at hstop
      obtain ⟨heq, hline, hbody, hend⟩ := ih c
      refine ⟨?_, ?_, ?_, ?_⟩
      · rw [List.cons_append, ← heq]
      · simpa [hline] using Ne.symm hstop.2
      · exact (quoteBody_cons_iff prev).mpr
          ⟨fun hc => by simpa using hstop.1 hc, hbody⟩
      · intro d hd
        rw [List.getLast?_cons_cons]
        exact hend d hd

/-- A body behind `prev`, with the character that ends it. -/
theorem quotedLiteral_append {q d : Char} {body : List Char} (rest : List Char) {prev : Char}
    (hline : '\n' ∉ body)
    (hbody : ∀ before after, body = before ++ q :: after → (prev :: before).getLast? = some '\\')
    (hend : d = '\n' ∨ (d = q ∧ (prev :: body).getLast? ≠ some '\\')) :
    quotedLiteral q prev (body ++ d :: rest) = (body, d :: rest) := by
  induction body generalizing prev with
  | nil =>
    rw [List.nil_append, quotedLiteral, if_pos]
    rcases hend with hd | ⟨hd, hprev⟩
    · exact .inr hd
    · exact .inl ⟨by simpa using hprev, hd⟩
  | cons c body ih =>
    obtain ⟨hfirst, hrest⟩ := (quoteBody_cons_iff prev).mp hbody
    rw [List.mem_cons, not_or] at hline
    rw [List.getLast?_cons_cons] at hend
    rw [List.cons_append, quotedLiteral, if_neg, ih hline.2 hrest hend]
    rintro (⟨hprev, hc⟩ | hc)
    · exact hprev (hfirst hc)
    · exact hline.1 hc.symm

/-- A body that goes on to the end of the text. -/
theorem quotedLiteral_all {q : Char} {body : List Char} {prev : Char} (hline : '\n' ∉ body)
    (hbody : ∀ before after, body = before ++ q :: after →
      (prev :: before).getLast? = some '\\') :
    quotedLiteral q prev body = (body, []) := by
  induction body generalizing prev with
  | nil => rfl
  | cons c body ih =>
    obtain ⟨hfirst, hrest⟩ := (quoteBody_cons_iff prev).mp hbody
    rw [List.mem_cons, not_or] at hline
    rw [quotedLiteral, if_neg, ih hline.2 hrest]
    rintro (⟨hprev, hc⟩ | hc)
    · exact hprev (hfirst hc)
    · exact hline.1 hc.symm

/-- The quotation mark itself is no backslash. -/
theorem getLast?_quote_iff {q : Char} (hq : IsQuote q) (body : List Char) :
    (q :: body).getLast? = some '\\' ↔ body.getLast? = some '\\' := by
  cases body with
  | nil =>
    have hne : q ≠ '\\' := by
      rcases hq with rfl | rfl
      · decide
      · decide
    simpa using hne
  | cons c body => rw [List.getLast?_cons_cons]

theorem quoteBody_iff {q : Char} (hq : IsQuote q) (body : List Char) :
    QuoteBody q body ↔ '\n' ∉ body ∧ ∀ before after, body = before ++ q :: after →
      (q :: before).getLast? = some '\\' := by
  simp only [QuoteBody, getLast?_quote_iff hq]

theorem quoteEnd_iff {q d : Char} (hq : IsQuote q) (body : List Char) :
    QuoteEnd q body d ↔
      d = '\n' ∨ (d = q ∧ (q :: body).getLast? ≠ some '\\') := by
  simp only [QuoteEnd, ne_eq, getLast?_quote_iff hq]

theorem take_entity_iff (cp : List Char) : cp.take 6 = "&quot;".toList ↔ StartsEntity cp :=
  eq_comm.trans List.prefix_iff_eq_take.symm

theorem entity_infix_cons_iff {c : Char} {cp : List Char} :
    "&quot;".toList <:+: c :: cp ↔ StartsEntity (c :: cp) ∨ "&quot;".toList <:+: cp :=
  List.infix_cons_iff

theorem entityBody_cons_iff {c : Char} {body : List Char} :
    EntityBody (c :: body) ↔ c ≠ '\n' ∧ ¬ StartsEntity (c :: body) ∧ EntityBody body := by
  rw [EntityBody, EntityBody, List.mem_cons, entity_infix_cons_iff]
  constructor
  · rintro ⟨hline, hno⟩
    rw [not_or] at hline hno
    exact ⟨Ne.symm hline.1, hno.1, hline.2, hno.2⟩
  · rintro ⟨hc, hno, hline, hbody⟩
    exact ⟨not_or.mpr ⟨Ne.symm hc, hline⟩, not_or.mpr ⟨hno, hbody⟩⟩

theorem entityBody_nil : EntityBody [] := ⟨List.not_mem_nil, by decide⟩

theorem entityLiteral_stop {c : Char} {cp : List Char} (h : StartsEntity (c :: cp) ∨ c = '\n') :
    entityLiteral (c :: cp) = ([], c :: cp) := by
  rw [entityLiteral]
  exact if_pos (h.imp_left (take_entity_iff _).mpr)

theorem entityLiteral_go {c : Char} {cp : List Char}
    (h : ¬ (StartsEntity (c :: cp) ∨ c = '\n')) :
    entityLiteral (c :: cp) = (c :: (entityLiteral cp).1, (entityLiteral cp).2) := by
  rw [entityLiteral]
  exact if_neg fun hstop => h (hstop.imp_left (take_entity_iff _).mp)

/-- What `entityLiteral` stops at. -/
theorem entityLiteral_spec (cp : List Char) :
    cp = (entityLiteral cp).1 ++ (entityLiteral cp).2 ∧ EntityBody (entityLiteral cp).1 ∧
      ((entityLiteral cp).2 = [] ∨ EntityEnd (entityLiteral cp).2) := by
  induction cp with
  | nil => exact ⟨rfl, entityBody_nil, .inl rfl⟩
  | cons c cp ih =>
    by_cases hstop : StartsEntity (c :: cp) ∨ c = '\n'
    · rw [entityLiteral_stop hstop]
      refine ⟨rfl, entityBody_nil, .inr ?_⟩
      rcases hstop with h | h
      · exact .inr h
      · exact .inl (by rw [h]; rfl)
    · rw [entityLiteral_go hstop]
      rw [not_or] at hstop
      obtain ⟨heq, hbody, hend⟩ := ih
      refine ⟨by rw [List.cons_append, ← heq], entityBody_cons_iff.mpr ⟨hstop.2, ?_, hbody⟩, hend⟩
      exact fun hstart => hstop.1 (hstart.trans (List.cons_prefix_cons.mpr ⟨rfl, _, heq.symm⟩))

/-- No `&quot;` begins in a body and ends behind it. -/
theorem not_startsEntity_append {c d : Char} {body rest : List Char}
    (hbody : ¬ StartsEntity (c :: body)) (hend : EntityEnd (d :: rest)) :
    ¬ StartsEntity (c :: (body ++ d :: rest)) := by
  intro hstart
  have hwhole : c :: body <+: c :: (body ++ d :: rest) := List.prefix_append (c :: body) (d :: rest)
  by_cases hlen : "&quot;".toList.length ≤ (c :: body).length
  · exact hbody (List.prefix_of_prefix_length_le hstart hwhole hlen)
  · -- `d` would be one of the later characters of the entity
    have hshort : c :: (body ++ [d]) <+: c :: (body ++ d :: rest) := by
      rw [List.cons_prefix_cons]
      refine ⟨rfl, (List.prefix_append_right_inj body).mpr ?_⟩
      exact List.cons_prefix_cons.mpr ⟨rfl, List.nil_prefix⟩
    have hle : (c :: (body ++ [d])).length ≤ "&quot;".toList.length := by
      simp only [List.length_cons, List.length_append, List.length_nil] at hlen ⊢
      omega
    have hprefix := List.prefix_of_prefix_length_le hshort hstart hle
    have hmem : d ∈ "quot;".toList :=
      (List.cons_prefix_cons.mp hprefix).2.subset (List.mem_append_right _ List.mem_cons_self)
    rcases hend with hd | hd
    · cases hd
      revert hmem
      decide
    · obtain ⟨hd, -⟩ := List.cons_prefix_cons.mp hd
      rw [← hd] at hmem
      revert hmem
      decide

theorem entityLiteral_append {d : Char} {body rest : List Char} (hbody : EntityBody body)
    (hend : EntityEnd (d :: rest)) : entityLiteral (body ++ d :: rest) = (body, d :: rest) := by
  induction body with
  | nil =>
    refine entityLiteral_stop ?_
    rcases hend with hd | hd
    · exact .inr (Option.some.inj hd)
    · exact .inl hd
  | cons c body ih =>
    obtain ⟨hc, hno, hrest⟩ := entityBody_cons_iff.mp hbody
    rw [List.cons_append, entityLiteral_go, ih hrest]
    rintro (hstart | hline)
    · exact not_startsEntity_append hno hend hstart
    · exact hc hline

theorem entityLiteral_all {body : List Char} (hbody : EntityBody body) :
    entityLiteral body = (body, []) := by
  induction body with
  | nil => rfl
  | cons c body ih =>
    obtain ⟨hc, hno, hrest⟩ := entityBody_cons_iff.mp hbody
    rw [entityLiteral_go, ih hrest]
    rintro (hstart | hline)
    · exact hno hstart
    · exact hc hline

/-! ## Every text has its pieces -/

theorem not_isQuote_amp : ¬ IsQuote '&' := by
  rintro (h | h) <;> cases h

theorem not_isQuote_slash : ¬ IsQuote '/' := by
  rintro (h | h) <;> cases h

theorem startsEntity_cons {c : Char} {cp : List Char} (h : StartsEntity (c :: cp)) : c = '&' :=
  (List.cons_prefix_cons.mp h).1.symm

theorem exists_scanned (html : Bool) (cp : List Char) : ∃ pieces, Scanned html cp pieces := by
  induction hlen : cp.length using Nat.strong_induction_on generalizing cp with
  | _ n ih =>
    cases cp with
    | nil => exact ⟨[], .nil⟩
    | cons c cp =>
      rw [List.length_cons] at hlen
      by_cases hentity : html = true ∧ StartsEntity (c :: cp)
      · obtain ⟨hhtml, rest, hrest⟩ := hentity
        obtain ⟨heq, hbody, hend⟩ := entityLiteral_spec rest
        rw [← hrest]
        cases hs : (entityLiteral rest).2 with
        | nil =>
          rw [hs, List.append_nil] at heq
          rw [heq]
          exact ⟨_, .entityOpen hhtml hbody⟩
        | cons d later =>
          rw [hs] at heq hend
          have hshort : later.length < n := by
            have hcp := congrArg List.length hrest
            rw [heq] at hcp
            simp only [List.length_append, List.length_cons] at hcp
            omega
          obtain ⟨pieces, hpieces⟩ := ih _ hshort later rfl
          rw [heq]
          exact ⟨_, .entity hhtml hbody (hend.resolve_left (List.cons_ne_nil _ _)) hpieces⟩
      by_cases hquote : IsQuote c
      · obtain ⟨heq, hline, hbody, hend⟩ := quotedLiteral_spec c cp c
        have hqbody := (quoteBody_iff hquote _).mpr ⟨hline, hbody⟩
        cases hs : (quotedLiteral c c cp).2 with
        | nil =>
          rw [hs, List.append_nil] at heq
          rw [heq]
          exact ⟨_, .quoteOpen hquote hqbody⟩
        | cons d later =>
          have hqend := (quoteEnd_iff hquote _).mpr (hend d (by rw [hs]; rfl))
          rw [hs] at heq
          have hshort : later.length < n := by
            have hcp := congrArg List.length heq
            simp only [List.length_append, List.length_cons] at hcp
            omega
          obtain ⟨pieces, hpieces⟩ := ih _ hshort later rfl
          rw [heq]
          exact ⟨_, .quote hquote hqbody hqend hpieces⟩
      by_cases hcomment : c = '/' ∧ cp.head? = some '/'
      · obtain ⟨rfl, hhead⟩ := hcomment
        obtain ⟨line, rfl⟩ : ∃ line, cp = '/' :: line := by
          cases cp with
          | nil => cases hhead
          | cons c' line =>
            cases hhead
            exact ⟨line, rfl⟩
        have hrest : (line.dropWhile (· ≠ '\n')).length < n := by
          have hle := (List.dropWhile_sublist (· ≠ '\n') (l := line)).length_le
          rw [List.length_cons] at hlen
          omega
        obtain ⟨pieces, hpieces⟩ := ih _ hrest _ rfl
        rw [← List.takeWhile_append_dropWhile (p := fun c => decide (c ≠ '\n')) (l := line)]
        refine ⟨_, .comment (fun hmem => ?_) (fun c hc => ?_) hpieces⟩
        · simpa using List.mem_takeWhile_imp hmem
        · have hnot := List.head?_dropWhile_not (fun c => decide (c ≠ '\n')) line
          rw [hc] at hnot
          simpa using hnot
      · obtain ⟨pieces, hpieces⟩ := ih _ (by omega) cp rfl
        exact ⟨_, .char hquote hentity hcomment hpieces⟩

/-! ## The loop puts the pieces together -/

theorem not_takes_entity {html : Bool} {c : Char} {cp : List Char}
    (h : ¬ (html = true ∧ StartsEntity (c :: cp))) :
    ¬ (html = true ∧ (c :: cp).take 6 = "&quot;".toList) :=
  fun htakes => h ⟨htakes.1, (take_entity_iff _).mp htakes.2⟩

theorem IsQuote.not_startsEntity {c : Char} {cp : List Char} (h : IsQuote c) :
    ¬ StartsEntity (c :: cp) := by
  intro hstart
  rw [startsEntity_cons hstart] at h
  exact not_isQuote_amp h

/-- What is left of the loop, with what has come before. -/
def rewrittenFrom (res seg : List Char) (replace : Bool) (r : Rewritten) : Rewritten :=
  ⟨res ++ seg ++ r.txt, r.vars, replace || r.replaces⟩

theorem embedLoopWith_scanned (rule : Vars → List Char → Rewritten) {html : Bool}
    {cp : List Char} {pieces : List Piece} (h : Scanned html cp pieces) (res seg : List Char)
    (vars : Vars) (replace : Bool) :
    embedLoopWith rule html res seg vars replace cp =
      rewrittenFrom res seg replace (rewritePieces rule vars pieces) := by
  induction h generalizing res seg vars replace with
  | nil =>
    rw [embedLoopWith]
    simp [rewrittenFrom, rewritePieces]
  | @quote q d body rest pieces hquote hbody hend _ ih =>
    obtain ⟨hline, hescaped⟩ := (quoteBody_iff hquote _).mp hbody
    have hopens : q = '"' ∨ q = '\'' := hquote
    rw [embedLoopWith, if_neg (not_takes_entity fun h => hquote.not_startsEntity h.2),
      if_pos hopens, quotedLiteral_append _ hline hescaped ((quoteEnd_iff hquote _).mp hend)]
    simp only
    rw [if_neg (List.cons_ne_nil _ _), List.tail_cons, ih]
    simp [rewrittenFrom, rewritePieces, Bool.or_assoc]
  | @quoteOpen q body hquote hbody =>
    obtain ⟨hline, hescaped⟩ := (quoteBody_iff hquote _).mp hbody
    have hopens : q = '"' ∨ q = '\'' := hquote
    rw [embedLoopWith, if_neg (not_takes_entity fun h => hquote.not_startsEntity h.2),
      if_pos hopens, quotedLiteral_all hline hescaped]
    simp [rewrittenFrom, rewritePieces]
  | @entity d body rest pieces hhtml hbody hend _ ih =>
    have hcp : "&quot;".toList ++ (body ++ d :: rest) =
        '&' :: ("quot;".toList ++ (body ++ d :: rest)) := rfl
    have hdrop : ("quot;".toList ++ (body ++ d :: rest)).drop 5 = body ++ d :: rest := rfl
    rw [hcp, embedLoopWith, if_pos ⟨hhtml, rfl⟩, hdrop, entityLiteral_append hbody hend]
    simp only
    rw [if_neg (List.cons_ne_nil _ _), List.tail_cons, ih]
    simp [rewrittenFrom, rewritePieces, Bool.or_assoc]
  | @entityOpen body hhtml hbody =>
    have hcp : "&quot;".toList ++ body = '&' :: ("quot;".toList ++ body) := rfl
    have hdrop : ("quot;".toList ++ body).drop 5 = body := rfl
    rw [hcp, embedLoopWith, if_pos ⟨hhtml, rfl⟩, hdrop, entityLiteral_all hbody]
    simp [rewrittenFrom, rewritePieces]
  | @comment line rest pieces hline hrest _ ih =>
    have hno : ¬ StartsEntity ('/' :: '/' :: (line ++ rest)) := by
      intro hstart
      cases startsEntity_cons hstart
    have hslash : ¬ ('/' = '"' ∨ '/' = '\'') := not_isQuote_slash
    have hall : ∀ c ∈ '/' :: line, decide (c ≠ '\n') = true := by
      intro c hc
      refine decide_eq_true fun heq => ?_
      rw [heq] at hc
      rcases List.mem_cons.mp hc with h | h
      · exact absurd h (by decide)
      · exact hline h
    have hrest' : rest.takeWhile (fun c => decide (c ≠ '\n')) = [] ∧
        rest.dropWhile (fun c => decide (c ≠ '\n')) = rest := by
      cases rest with
      | nil => exact ⟨rfl, rfl⟩
      | cons c rest =>
        cases hrest c rfl
        exact ⟨rfl, rfl⟩
    rw [embedLoopWith, if_neg (not_takes_entity fun h => hno h.2), if_neg hslash,
      if_pos ⟨rfl, rfl⟩, ← List.cons_append, List.takeWhile_append_of_pos hall,
      List.dropWhile_append_of_pos hall, hrest'.1, hrest'.2, ih]
    simp [rewrittenFrom, rewritePieces]
  | @char c rest pieces hquote hentity hcomment _ ih =>
    have hopens : ¬ (c = '"' ∨ c = '\'') := hquote
    rw [embedLoopWith, if_neg (not_takes_entity hentity), if_neg hopens, if_neg hcomment, ih]
    simp [rewrittenFrom, rewritePieces]

theorem Scanned.chars {html : Bool} {cp : List Char} {pieces : List Piece}
    (h : Scanned html cp pieces) : pieces.flatMap Piece.chars = cp := by
  induction h with
  | nil => rfl
  | quote _ _ _ _ ih => simp [Piece.chars, ih]
  | quoteOpen _ _ => simp [Piece.chars]
  | entity _ _ _ _ ih => simp [Piece.chars, ih]
  | entityOpen _ _ => simp [Piece.chars]
  | comment _ _ _ ih => simp [Piece.chars, ih]
  | char _ _ _ _ ih => simp [Piece.chars, ih]

/-- A rule that leaves every text as it is. -/
theorem rewritePieces_same {rule : Vars → List Char → Rewritten}
    (hsame : ∀ vars s, (rule vars s).txt = s) (vars : Vars) (pieces : List Piece) :
    (rewritePieces rule vars pieces).txt = pieces.flatMap Piece.chars := by
  induction pieces generalizing vars with
  | nil => rfl
  | cons piece pieces ih =>
    cases piece with
    | text s => simp [rewritePieces, Piece.chars, ih]
    | literal body => simp [rewritePieces, Piece.chars, hsame, ih]

/-- Only the bodies of complete literals are replaced, one after the other, by what the rule makes
of them. -/
theorem embedQuotedLiteralWith_scanned (rule : Vars → List Char → Rewritten) (html : Bool)
    (vars : Vars) (content : List Char) (hnul : '\x00' ∉ content) :
    (∃ pieces, Scanned html content pieces) ∧
      (∀ pieces, Scanned html content pieces →
        pieces.flatMap Piece.chars = content ∧
          embedQuotedLiteralWith rule content vars html = rewritePieces rule vars pieces) ∧
      ((∀ vars s, (rule vars s).txt = s) →
        (embedQuotedLiteralWith rule content vars html).txt = content) := by
  have hcontent : cString content = content := cString_eq_self hnul
  have hembed : ∀ pieces, Scanned html content pieces →
      embedQuotedLiteralWith rule content vars html = rewritePieces rule vars pieces := by
    intro pieces h
    rw [embedQuotedLiteralWith, hcontent, embedLoopWith_scanned rule h]
    simp [rewrittenFrom]
  refine ⟨exists_scanned html content, fun pieces h => ⟨h.chars, hembed pieces h⟩, fun hsame => ?_⟩
  obtain ⟨pieces, h⟩ := exists_scanned html content
  rw [hembed pieces h, rewritePieces_same hsame, h.chars]

/-- A rule that empties all texts, and one literal. -/
def clear (vars : Vars) (_ : List Char) : Rewritten := ⟨[], vars, true⟩

theorem scanned_y :
    Scanned false ('\'' :: (['y'] ++ '\'' :: [])) [.text ['\''], .literal ['y'], .text ['\'']] := by
  refine .quote (.inr rfl) ⟨by decide, ?_⟩ (.inr ⟨rfl, by decide⟩) .nil
  rintro (_ | ⟨c, before⟩) after heq
  · cases heq
  · simp at heq

theorem embedQuotedLiteralWith_y :
    (embedQuotedLiteralWith clear "'y'".toList ∅ false).txt = "''".toList := by
  obtain ⟨-, hpieces, -⟩ := embedQuotedLiteralWith_scanned clear false ∅ "'y'".toList (by decide)
  rw [(hpieces _ scanned_y).2]
  rfl

end HttpRewrite
end Metaproxy
