import Mathlib.Data.List.TakeWhile
import Metaproxy.HTMLParser.Written
import Metaproxy.HttpRewrite.Configure

/-!
# HttpRewrite.Exceptions

What may throw when a request and its response are processed. What is compiled by then was compiled
when the filter was configured, but the patterns of skip links come with the request, and a recipe
is read when its rewrite matches. `process_throws_iff` says when exactly there is an exception:
`SkipLinkOk` and `WellFormed` are what it takes.
-/

namespace Metaproxy
namespace HttpRewrite

open Lib

variable {ρ : Type}

/-! ## Recipes -/

/-- A `$` that is not escaped starts a reference. -/
inductive WellFormed : List Char → Prop where
  | nil : WellFormed []
  | plain {c : Char} {s : List Char} : c ≠ '\\' → c ≠ '$' → WellFormed s → WellFormed (c :: s)
  | escaped {s : List Char} : WellFormed s.tail → WellFormed ('\\' :: s)
  | var {name s : List Char} : '}' ∉ name → WellFormed s →
      WellFormed ('$' :: '{' :: (name ++ '}' :: s))

theorem wellFormed_plain_iff {c : Char} {s : List Char} (hb : c ≠ '\\') (hd : c ≠ '$') :
    WellFormed (c :: s) ↔ WellFormed s := by
  refine ⟨fun h => ?_, .plain hb hd⟩
  cases h with
  | plain _ _ h => exact h
  | escaped _ => exact absurd rfl hb
  | var _ _ => exact absurd rfl hd

theorem wellFormed_escaped_iff {s : List Char} : WellFormed ('\\' :: s) ↔ WellFormed s.tail := by
  refine ⟨fun h => ?_, .escaped⟩
  cases h with
  | plain hb _ _ => exact absurd rfl hb
  | escaped h => exact h

theorem wellFormed_var_iff {s s' : List Char} {c : Char}
    (h : s.dropWhile (· ≠ '}') = c :: s') :
    WellFormed ('$' :: '{' :: s) ↔ WellFormed s' := by
  have hc : c = '}' := by simpa using HTMLParser.dropWhile_head h
  have hsplit := List.takeWhile_append_dropWhile (p := (· ≠ '}')) (l := s)
  rw [h, hc] at hsplit
  constructor
  · intro hwell
    generalize heq : '$' :: '{' :: s = t at hwell
    cases hwell with
    | nil => cases heq
    | plain _ hd _ =>
      cases heq
      exact absurd rfl hd
    | escaped _ => cases heq
    | @var name s1 hname hwell =>
      cases heq
      have hall : ∀ d ∈ name, decide (d ≠ '}') = true := by
        intro d hd
        refine decide_eq_true ?_
        rintro rfl
        exact hname hd
      rw [List.dropWhile_append_of_pos hall] at h
      simp at h
      rw [← h.2]
      exact hwell
  · intro hwell
    rw [← hsplit]
    refine .var (fun hmem => ?_) hwell
    have hall : ∀ d ∈ s.takeWhile (· ≠ '}'), decide (d ≠ '}') = true :=
      List.all_eq_true.mp List.all_takeWhile
    exact of_decide_eq_true (hall _ hmem) rfl

theorem not_wellFormed_open {s : List Char} (h : s.dropWhile (· ≠ '}') = []) :
    ¬ WellFormed ('$' :: '{' :: s) := by
  intro hwell
  cases hwell with
  | plain _ hd _ => exact hd rfl
  | @var name s1 _ _ =>
    have hall := List.dropWhile_eq_nil_iff.mp h '}' (by simp)
    exact of_decide_eq_true hall rfl

theorem not_wellFormed_bare {s : List Char} (h : s.head? ≠ some '{') :
    ¬ WellFormed ('$' :: s) := by
  intro hwell
  cases hwell with
  | plain _ hd _ => exact hd rfl
  | var _ _ => exact h rfl

theorem map_isOk {ε α β : Type} (f : α → β) (x : Except ε α) :
    (∃ b, x.map f = .ok b) ↔ ∃ a, x = .ok a := by
  cases x with
  | error e => simp [Except.map]
  | ok a => simp [Except.map]

theorem subVarsLoop_ok_iff (recipe : List Char) (vars : Vars) (i : Nat) (esc : Bool)
    (s : List Char) :
    (∃ out, subVarsLoop recipe vars i esc s = .ok out) ↔
      WellFormed (if esc then s.tail else s) := by
  fun_induction subVarsLoop recipe vars i esc s with
  | case1 _ esc =>
    have hnil : (if esc then ([] : List Char).tail else []) = [] := ite_self _
    rw [hnil]
    exact iff_of_true ⟨[], rfl⟩ .nil
  | case2 i esc c s1 hesc ih =>
    simp at hesc
    obtain ⟨rfl, rfl⟩ := hesc
    exact ih.trans wellFormed_escaped_iff.symm
  | case3 i esc c s1 _ hvar hopen hend =>
    simp at hvar
    obtain ⟨rfl, rfl⟩ := hvar
    obtain ⟨s2, rfl⟩ := List.head?_eq_some_iff.mp hopen
    refine iff_of_false ?_ (not_wellFormed_open hend)
    rintro ⟨out, hout⟩
    cases hout
  | case4 i esc c s1 _ hvar hopen name d s2 hend _ ih =>
    simp at hvar
    obtain ⟨rfl, rfl⟩ := hvar
    obtain ⟨s3, rfl⟩ := List.head?_eq_some_iff.mp hopen
    exact (map_isOk _ _).trans (ih.trans (wellFormed_var_iff hend).symm)
  | case5 i esc c s1 _ hvar hopen =>
    simp at hvar
    obtain ⟨rfl, rfl⟩ := hvar
    refine iff_of_false ?_ (not_wellFormed_bare hopen)
    rintro ⟨out, hout⟩
    cases hout
  | case6 i esc c s1 hesc hvar ih =>
    refine (map_isOk _ _).trans (ih.trans ?_)
    cases esc with
    | true => exact Iff.rfl
    | false =>
      simp at hesc hvar
      exact (wellFormed_plain_iff hesc hvar).symm

/-- The recipe is what decides, not the values of the variables. -/
theorem subVars_throws_iff (r : Replace ρ) (vars : Vars) :
    (∃ e, r.subVars vars = .error e) ↔ ¬ WellFormed r.recipe := by
  have hok : (∃ out, r.subVars vars = .ok out) ↔ WellFormed r.recipe :=
    subVarsLoop_ok_iff r.recipe vars 0 false r.recipe
  rw [← hok]
  cases r.subVars vars with
  | error e => simp
  | ok out => simp

/-! ## Points -/

variable (boost : Boost ρ)

/-- The page of a skip link compiles, and so does the link when the page is found in the URL. -/
def SkipLinkOk (url hv : List Char) : Prop :=
  ∀ page link, splitSkipLink hv = some (page, link) →
    ∃ pagere, boost.compile false page = some pagere ∧
      ((boost.regexSearch pagere url).isSome → (boost.compile false link).isSome)

/-- For a rule: the recipe of the rewrite that comes next is well formed. -/
def Point.Ok : Point ρ → Prop
  | .skipLink url hv => SkipLinkOk boost url hv
  | .replace rule start first =>
    ∀ bit what, choose boost rule start first = some (bit, what) → WellFormed bit.recipe

def Stop.Thrown (s : Stop) : Prop := ∃ e, s = .thrown e

/-- There is an exception exactly when a point is not `Ok`, and all points are `P`. -/
abbrev Serves (P : Point ρ → Prop) {α : Type} (Q : α → Prop) (c : Serving ρ α) : Prop :=
  Traced.Spec P (Point.Ok boost) Stop.Thrown Q c

/-- Nothing is said of the result. -/
def Anything {α : Type} (_ : α) : Prop := True

variable {boost} {P : Point ρ → Prop}

theorem serves_pure {α : Type} (a : α) :
    Serves boost P Anything (pure a : Serving ρ α) :=
  .pure trivial

theorem skipLinkOk_iff {url hv page link : List Char}
    (h : splitSkipLink hv = some (page, link)) :
    SkipLinkOk boost url hv ↔ ∃ pagere, boost.compile false page = some pagere ∧
      ((boost.regexSearch pagere url).isSome → (boost.compile false link).isSome) := by
  refine ⟨fun hok => hok page link h, ?_⟩
  intro hok page' link' h'
  rw [h] at h'
  cases h'
  exact hok

theorem readSkipLink_thrown_iff (url hv : List Char) (skips : List ρ) :
    (∃ e, Stop.Thrown e ∧ readSkipLink boost url hv skips = .error e) ↔
      ¬ (Point.skipLink url hv).Ok boost := by
  rw [Point.Ok, readSkipLink]
  cases hsplit : splitSkipLink hv with
  | none => simp [SkipLinkOk, hsplit]
  | some split =>
    obtain ⟨page, link⟩ := split
    rw [skipLinkOk_iff hsplit]
    cases hpage : boost.compile false page with
    | none => simp [hpage, Stop.Thrown]
    | some pagere =>
      cases hfound : boost.regexSearch pagere url with
      | none => simp [hpage, hfound]
      | some what =>
        cases hlink : boost.compile false link with
        | none => simp [hpage, hfound, hlink, Stop.Thrown]
        | some linkre => simp [hpage, hfound, hlink]

theorem replaceNext_thrown_iff (rule : Rule ρ) (skips : List ρ) (vars : Vars) (start : List Char)
    (first : Bool) :
    (∃ e, Stop.Thrown e ∧ replaceNext boost rule skips vars start first = .error e) ↔
      ¬ (Point.replace rule start first).Ok boost := by
  simp only [Point.Ok, replaceNext]
  cases choose boost rule start first with
  | none => simp
  | some chosen =>
    obtain ⟨bit, bwhat⟩ := chosen
    have hthrows := subVars_throws_iff bit (bit.namedGroups bwhat vars)
    have hok : (∀ bit' what, some (bit, bwhat) = some (bit', what) → WellFormed bit'.recipe) ↔
        WellFormed bit.recipe := by
      constructor
      · intro h
        exact h bit bwhat rfl
      · rintro h bit' what ⟨⟩
        exact h
    rw [hok, ← hthrows]
    cases hsub : bit.subVars (bit.namedGroups bwhat vars) with
    | error e => simp [hsub, Stop.Thrown]
    | ok rvalue => simp [hsub]

/-! ## Rules -/

/-- Any point that `test_patterns` comes to with this rule. -/
def Applies (P : Point ρ → Prop) (rule : Rule ρ) : Prop :=
  ∀ start first, P (.replace rule start first)

section Rules

variable {rule : Rule ρ} (happ : Applies P rule)

include happ

theorem testPatternsLoop_serves (skips : List ρ) (fuel : Nat) :
    ∀ (vars : Vars) (start : List Char) (first : Bool) (out : List Char) (replaces : Bool),
      Serves boost P Anything
        (testPatternsLoop boost rule skips fuel vars start first out replaces) := by
  induction fuel with
  | zero =>
    intro vars start first out replaces
    refine .fail ?_
    rintro ⟨e, he⟩
    cases he
  | succ fuel ih =>
    intro vars start first out replaces
    refine (Traced.Spec.step (Q := Anything) (happ start first)
      (replaceNext_thrown_iff rule skips vars start first) fun _ _ => trivial).bind fun next _ => ?_
    cases next with
    | none => exact serves_pure _
    | some r => exact ih _ _ _ _ _

theorem testPatterns_serves (env : Env ρ) (vars : Vars) (txt : List Char) (anchor : Bool) :
    Serves boost P Anything (testPatterns boost env rule vars txt anchor) :=
  testPatternsLoop_serves happ env.skips env.fuel vars txt anchor [] false

theorem embedLoop_serves (env : Env ρ) (html : Bool) (res seg : List Char) (vars : Vars)
    (replace : Bool) (cp : List Char) :
    Serves boost P Anything (embedLoop boost env rule html res seg vars replace cp) := by
  fun_induction embedLoop boost env rule html res seg vars replace cp with
  | case1 => exact serves_pure _
  | case2 => exact serves_pure _
  | case3 _ _ vars _ _ _ _ _ s _ _ _ _ ih =>
    exact (testPatterns_serves happ env vars s.1 true).bind fun r _ => ih r
  | case4 => exact serves_pure _
  | case5 _ _ vars _ _ _ _ _ _ s _ _ _ _ ih =>
    exact (testPatterns_serves happ env vars s.1 true).bind fun r _ => ih r
  | case6 _ _ _ _ _ _ _ _ _ _ ih => exact ih
  | case7 _ _ _ _ _ _ _ _ _ ih => exact ih

end Rules

theorem exec_serves {w : Within ρ} (happ : Applies P w.rule) (env : Env ρ) (vars : Vars)
    (txt : List Char) (anchor : Bool) :
    Serves boost P Anything (w.exec boost env vars txt anchor) := by
  unfold Within.exec
  cases w.type with
  | quotedLiteral => exact embedLoop_serves happ env true [] [] vars false _
  | plain => exact testPatterns_serves happ env vars txt anchor

/-! ## Content -/

def Content.Applies (P : Point ρ → Prop) (c : Content ρ) : Prop :=
  ∀ w ∈ c.withinList, HttpRewrite.Applies P w.rule

/-- What is open when an event comes are `within` elements of the content. -/
def EventState.Of (c : Content ρ) (s : EventState ρ) : Prop := ∀ w ∈ s.within, w ∈ c.withinList

theorem of_pop {c : Content ρ} {s : EventState ρ} (h : s.Of c) (tag : List Char) :
    (s.pop boost tag).Of c := by
  intro w hw
  refine h w ?_
  revert hw
  fun_cases EventState.pop boost s tag with
  | case1 _ => exact id
  | case2 it within heq _ =>
    intro hw
    rw [heq]
    exact List.mem_cons_of_mem it hw
  | case3 _ _ _ _ => exact id

section Content

variable {c : Content ρ} (happ : c.Applies P) (env : Env ρ)

include happ

theorem event_serves {s : EventState ρ} (hs : s.Of c) (e : HTMLParser.Event) :
    Serves boost P (EventState.Of c) (c.event boost env s e) := by
  fun_cases Content.event boost c env s e with
  | case1 tag =>
    refine .pure fun w hw => ?_
    rcases List.mem_append.mp hw with hw | hw
    · exact List.mem_of_find?_eq_some (Option.mem_toList.mp hw)
    · exact hs w hw
  | case2 tag closeIt =>
    refine .pure ?_
    cases closeIt with
    | true => exact of_pop hs tag
    | false => exact hs
  | case3 tag attr => exact .pure hs
  | case4 tag attr v _ _ => exact .pure hs
  | case5 tag attr v _ it hit =>
    refine (exec_serves (happ it (List.mem_of_find?_eq_some hit)) env _ _ _).bind fun r _ => ?_
    exact .pure hs
  | case6 tag => exact .pure (of_pop hs tag)
  | case7 value _ => exact .pure hs
  | case8 value it within heq =>
    have hit : it ∈ c.withinList := hs it (by rw [heq]; exact List.mem_cons_self)
    refine (exec_serves (happ it hit) env _ _ _).bind fun r _ => ?_
    exact .pure hs

theorem parse_serves (content : List Char) (vars : Vars) :
    Serves boost P Anything (c.parse boost env content vars) := by
  unfold Content.parse
  split
  · refine Traced.Spec.bind (Q := EventState.Of c) (.foldlM ?_ ?_) fun s _ => serves_pure _
    · intro s hs e _
      exact event_serves happ env hs e
    · intro w hw
      cases hw
  · unfold Content.quotedLiteral
    split
    · exact serves_pure _
    · rename_i it within heq
      have hit : it ∈ c.withinList := by
        rw [heq]
        exact List.mem_cons_self
      exact (embedLoop_serves (happ it hit) env false [] [] vars false _).bind fun r _ =>
        serves_pure _
  · exact serves_pure _

theorem rewriteHeader_serves (fuel : Nat) (header : Header) (vars : Vars) :
    Serves boost P Anything (c.rewriteHeader boost fuel header vars) := by
  refine .foldlM (fun s _ it hit => ?_) trivial
  have hmem : it ∈ c.withinList := List.mem_of_mem_filter hit
  exact (exec_serves (happ it hmem) _ _ _ _).bind fun r _ => serves_pure _

end Content

/-! ## Phases -/

def Phase.Applies (P : Point ρ → Prop) (phase : Phase ρ) : Prop :=
  ∀ c ∈ phase.contentList, c.Applies P

section Phase

variable {phase : Phase ρ} (happ : phase.Applies P)

include happ

/-- The headers are left as they are. -/
theorem rewriteReqline_serves (fuel : Nat) (hreq : HttpRequest) (vars : Vars)
    (bindAddr : List Char) :
    Serves boost P (fun r => r.1.headers = hreq.headers)
      (phase.rewriteReqline boost fuel hreq vars bindAddr) := by
  unfold Phase.rewriteReqline
  split
  · rename_i path c _ hc
    have hmem : c ∈ phase.contentList := List.mem_of_find?_eq_some hc
    refine Traced.Spec.bind (Q := fun s => s.hreq.headers = hreq.headers)
      (.foldlM (fun s hs it hit => ?_) rfl) fun s hs => .pure hs
    have hit : it ∈ c.withinList := List.mem_of_mem_filter hit
    refine (exec_serves (happ c hmem it hit) _ _ _ _).bind fun r _ => .pure ?_
    cases r.replaces with
    | true => exact hs
    | false => exact hs
  · exact .pure rfl

theorem rewriteHeaders_serves (fuel : Nat) (headers : List Header) (vars : Vars) :
    Serves boost P Anything (phase.rewriteHeaders boost fuel headers vars) := by
  unfold Phase.rewriteHeaders
  split
  · exact serves_pure _
  · rename_i c hc
    have hmem : c ∈ phase.contentList := List.mem_of_find?_eq_some hc
    refine .foldlM (fun s _ header _ => ?_) trivial
    exact (rewriteHeader_serves (happ c hmem) fuel header s.2).bind fun r _ => serves_pure _

theorem rewriteBody_serves (env : Env ρ) (contentType : Option (List Char)) (content : List Char)
    (vars : Vars) :
    Serves boost P Anything (phase.rewriteBody boost env contentType content vars) := by
  unfold Phase.rewriteBody
  split
  · exact serves_pure _
  · split
    · exact serves_pure _
    · rename_i c hc
      split
      · exact serves_pure _
      · have hmem : c ∈ phase.contentList := List.mem_of_find?_eq_some hc
        exact (parse_serves (happ c hmem) env content vars).bind fun r _ => serves_pure _

end Phase

/-! ## `process` -/

theorem readSkipHeaders_serves (hreq : HttpRequest) (bindAddr : List Char)
    (hskip : ∀ h ∈ hreq.headers, isSkipLink h → ∀ url, P (.skipLink url h.value)) :
    Serves boost P Anything (readSkipHeaders boost hreq bindAddr) := by
  refine Traced.Spec.bind (Q := Anything) (.foldlM (fun skips _ h hh => ?_) trivial) fun skips _ =>
    serves_pure _
  obtain ⟨hmem, hlink⟩ := List.mem_filter.mp hh
  exact .step (hskip h hmem hlink _) (readSkipLink_thrown_iff _ _ skips) fun _ _ => trivial

/-- Where the points are from: a skip link is a header of the request, and a rule is that of a
`within` element. -/
def Phases.Of (phases : Phases ρ) (request : Gdu) : Point ρ → Prop
  | .skipLink _ hv =>
    ∃ hreq, request = .httpRequest hreq ∧ ∃ h ∈ hreq.headers, isSkipLink h ∧ h.value = hv
  | .replace rule _ _ =>
    ∃ phase ∈ [phases.reqPhase, phases.resPhase], ∃ c ∈ phase.contentList, ∃ w ∈ c.withinList,
      w.rule = rule

theorem applies_of (phases : Phases ρ) {phase : Phase ρ}
    (h : phase ∈ [phases.reqPhase, phases.resPhase]) (request : Gdu) :
    phase.Applies (phases.Of request) :=
  fun c hc w hw _ _ => ⟨phase, h, c, hc, w, hw, rfl⟩

section Process

variable (phases : Phases ρ)

theorem processRequest_serves (fuel : Nat) (bindAddr : List Char) (hreq : HttpRequest) :
    Serves boost (phases.Of (.httpRequest hreq)) Anything
      (phases.processRequest boost fuel bindAddr hreq) := by
  have happ := applies_of phases List.mem_cons_self (.httpRequest hreq)
  refine (rewriteReqline_serves happ fuel hreq ∅ bindAddr).bind fun ⟨hreq1, vars1⟩ h1 => ?_
  have hskip : ∀ h ∈ hreq1.headers, isSkipLink h →
      ∀ url, phases.Of (.httpRequest hreq) (.skipLink url h.value) := by
    intro h hmem hlink url
    have hmem : h ∈ hreq.headers := h1 ▸ hmem
    exact ⟨hreq, rfl, h, hmem, hlink, rfl⟩
  refine (readSkipHeaders_serves hreq1 bindAddr hskip).bind fun ⟨hreq2, skips⟩ _ => ?_
  refine (rewriteHeaders_serves happ fuel hreq2.headers vars1).bind fun ⟨headers, vars2⟩ _ => ?_
  refine (rewriteBody_serves happ ⟨fuel, skips⟩ _ _ _).bind fun ⟨contentBuf, vars3⟩ _ => ?_
  exact serves_pure _

theorem processResponse_serves (request : Gdu) (env : Env ρ) (vars : Vars) (hres : HttpResponse) :
    Serves boost (phases.Of request) Anything
      (phases.processResponse boost env vars hres) := by
  have happ := applies_of phases (List.mem_cons_of_mem _ List.mem_cons_self) request
  refine (rewriteHeaders_serves happ env.fuel hres.headers vars).bind fun ⟨headers, vars1⟩ _ => ?_
  refine (rewriteBody_serves happ env _ _ _).bind fun ⟨contentBuf, vars2⟩ _ => ?_
  exact serves_pure _

theorem process_serves (fuel : Nat) (bindAddr : List Char) (request : Gdu) (move : Gdu → Gdu) :
    Serves boost (phases.Of request) Anything
      (phases.process boost fuel bindAddr request move) := by
  refine Traced.Spec.bind (Q := Anything) ?_ ?_
  · cases request with
    | httpRequest hreq =>
      exact (processRequest_serves phases fuel bindAddr hreq).bind fun p _ => serves_pure _
    | httpResponse hres => exact serves_pure _
    | other => exact serves_pure _
  · rintro ⟨request', skips, vars⟩ -
    simp only
    cases move request' with
    | httpResponse hres =>
      exact (processResponse_serves phases request ⟨fuel, skips⟩ vars hres).bind fun _ _ =>
        serves_pure _
    | httpRequest hreq => exact serves_pure _
    | other => exact serves_pure _

theorem choose_spec {rule : Rule ρ} {start : List Char} {first : Bool} {bit : Replace ρ}
    {what : Match} (h : choose boost rule start first = some (bit, what)) :
    bit ∈ rule ∧ bit.search boost start first = some what := by
  revert bit what
  refine List.foldlRecOn rule _ (motive := fun best : Option (Replace ρ × Match) =>
    ∀ {bit what}, best = some (bit, what) → bit ∈ rule ∧ bit.search boost start first = some what)
    (fun h => by cases h) ?_
  intro best hbest it hit bit what h
  split at h
  · exact hbest h
  case h_2 hsearch =>
    split at h
    · cases h
      exact ⟨hit, hsearch⟩
    · split at h
      · cases h
        exact ⟨hit, hsearch⟩
      · exact hbest h

theorem split_of_choose {rule : Rule ρ} {start : List Char} {first : Bool} {bit : Replace ρ}
    {what : Match} (h : choose boost rule start first = some (bit, what)) :
    what.before ++ what.matched ++ what.after = start := by
  have hsearch := (choose_spec h).2
  rw [Replace.search] at hsearch
  split at hsearch
  · cases hsearch
  · exact boost.search_split _ _ _ hsearch

/-- Every recipe that a `within` element of the phases refers to is well formed. -/
def Phases.WellFormed (phases : Phases ρ) : Prop :=
  ∀ phase ∈ [phases.reqPhase, phases.resPhase], ∀ c ∈ phase.contentList, ∀ w ∈ c.withinList,
    ∀ r ∈ w.rule, HttpRewrite.WellFormed r.recipe

/-- Every skip link of a request is good whatever its URL is rewritten to. -/
def Gdu.SkipLinksOk (boost : Boost ρ) : Gdu → Prop
  | .httpRequest hreq => ∀ h ∈ hreq.headers, isSkipLink h → ∀ url, SkipLinkOk boost url h.value
  | _ => True

theorem ok_of_wellFormed {request : Gdu} (hrecipes : phases.WellFormed)
    (hskips : request.SkipLinksOk boost) {p : Point ρ} (hp : phases.Of request p) :
    p.Ok boost := by
  cases p with
  | skipLink url hv =>
    obtain ⟨hreq, rfl, h, hmem, hlink, rfl⟩ := hp
    exact hskips h hmem hlink url
  | replace rule start first =>
    obtain ⟨phase, hphase, c, hc, w, hw, rfl⟩ := hp
    intro bit what hchoose
    exact hrecipes phase hphase c hc w hw bit (choose_spec hchoose).1

/-- While a message and what comes back for it are processed, an exception is thrown exactly when
the next rewrite of a rule has a malformed recipe or a skip link has a pattern that does not
compile. There is none for recipes that are all well formed and skip links that are all good. -/
theorem process_throws_iff (boost : Boost ρ) (phases : Phases ρ) (fuel : Nat)
    (bindAddr : List Char) (request : Gdu) (move : Gdu → Gdu) :
    ((∃ e, (phases.process boost fuel bindAddr request move).result = .error (.thrown e)) ↔
        ∃ p ∈ (phases.process boost fuel bindAddr request move).points, ¬ p.Ok boost) ∧
      (∀ p ∈ (phases.process boost fuel bindAddr request move).points, phases.Of request p) ∧
      (phases.WellFormed → request.SkipLinksOk boost →
        ∀ e, (phases.process boost fuel bindAddr request move).result ≠ .error (.thrown e)) := by
  have hserves : Serves boost (phases.Of request) Anything
      (phases.process boost fuel bindAddr request move) :=
    process_serves phases fuel bindAddr request move
  have hfails : (∃ e, (phases.process boost fuel bindAddr request move).result =
      .error (.thrown e)) ↔
      ∃ p ∈ (phases.process boost fuel bindAddr request move).points, ¬ p.Ok boost := by
    rw [← hserves.fails_iff]
    constructor
    · rintro ⟨e, he⟩
      exact ⟨.thrown e, ⟨e, rfl⟩, he⟩
    · rintro ⟨_, ⟨e, rfl⟩, he⟩
      exact ⟨e, he⟩
  refine ⟨hfails, hserves.every, ?_⟩
  intro hrecipes hskips e he
  obtain ⟨p, hp, hno⟩ := hfails.mp ⟨e, he⟩
  exact hno (ok_of_wellFormed phases hrecipes hskips (hserves.every p hp))

end Process

/-! ### A configuration and its messages -/

/-- The first place where a text is found. -/
def find (re : List Char) : List Char → Option Match
  | [] => if re = [] then some ⟨[], [], [], []⟩ else none
  | c :: text =>
    if re.isPrefixOf (c :: text) then some ⟨[], re, (c :: text).drop re.length, []⟩
    else (find re text).map fun what => { what with before := c :: what.before }

theorem find_split (re text : List Char) (what : Match) (h : find re text = some what) :
    what.before ++ what.matched ++ what.after = text := by
  induction text generalizing what with
  | nil =>
    rw [find] at h
    split at h
    · cases h
      rfl
    · cases h
  | cons c text ih =>
    rw [find] at h
    split at h
    · rename_i hprefix
      cases h
      show re ++ (c :: text).drop re.length = c :: text
      exact List.prefix_iff_eq_append.mp (List.isPrefixOf_iff_prefix.mp hprefix)
    · obtain ⟨what', hwhat', rfl⟩ := Option.map_eq_some_iff.mp h
      simpa using ih what' hwhat'

/-- Patterns of letters and digits. -/
def literal : Boost (List Char) where
  compile _ pattern := if pattern.all Char.isAlphanum then some pattern else none
  unset := []
  regexSearch := find
  regexMatch re text := re = text
  search_split := find_split

/-- A rule for referers, with a recipe whose reference does not end. -/
def refererConfig : Element :=
  .mk "filter" [] [.mk "request" [] [
    .mk "rule" [("name", "r".toList)]
      [.mk "rewrite" [("from", "home".toList), ("to", "$\x7bpage".toList)] []],
    .mk "content" [("type", "headers".toList)]
      [.mk "within" [("header", "referer".toList), ("rule", "r".toList)] []]]]

def refererRequest : Gdu :=
  .httpRequest ⟨"/".toList, [⟨"referer".toList, "home".toList⟩], []⟩

def skipLinkRequest : Gdu :=
  .httpRequest ⟨"/".toList, [⟨"X-Metaproxy-SkipLink".toList, "( link".toList⟩], []⟩

def Throws (ptr : Element) (request : Gdu) : Bool :=
  match configure literal ptr with
  | .error _ => false
  | .ok phases =>
    match (phases.process literal 3 [] request id).result with
    | .error (.thrown _) => true
    | _ => false

theorem exists_of_throws {ptr : Element} {request : Gdu} (h : Throws ptr request) :
    ∃ phases, configure literal ptr = .ok phases ∧
      ∃ e, (phases.process literal 3 [] request id).result = .error (.thrown e) := by
  unfold Throws at h
  split at h
  · cases h
  · rename_i phases hphases
    split at h
    · rename_i e he
      exact ⟨phases, hphases, e, he⟩
    · cases h

/-- Both configurations are accepted. The one throws when a referer matches, and the other, which is
empty, when the page of a skip link does not compile. -/
theorem accepted_throws :
    (∃ phases, configure literal refererConfig = .ok phases ∧
      ∃ e, (phases.process literal 3 [] refererRequest id).result = .error (.thrown e)) ∧
    ∃ phases, configure literal (.mk "filter" [] []) = .ok phases ∧
      ∃ e, (phases.process literal 3 [] skipLinkRequest id).result = .error (.thrown e) := by
  refine ⟨exists_of_throws ?_, exists_of_throws ?_⟩
  · decide +kernel
  · decide +kernel

end HttpRewrite
end Metaproxy
