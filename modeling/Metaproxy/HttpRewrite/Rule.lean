import Mathlib.Data.List.TakeWhile
import Metaproxy.Lib.Table
import Metaproxy.Lib.Traced

/-!
# HttpRewrite.Rule

Rules of `filter_http_rewrite.cpp`: `sub_vars`, `test_patterns` and `embed_quoted_literal`.

Regular expressions are those of a structure `Boost`: its constructor may throw, matching does not.
The loop of `test_patterns` takes as many steps as it is given, since a match may be empty; what it
comes to is recorded (`Point`).
-/

namespace Metaproxy
namespace HttpRewrite

open Lib

/-- `boost::smatch`: the text in front of `[0].first`, the match, the text behind it, and the
groups from `[1]` on. -/
structure Match where
  before : List Char
  matched : List Char
  after : List Char
  groups : List (List Char)

/-- `boost::regex`. -/
structure Boost (ρ : Type) where
  /-- The constructor, which throws or not. -/
  compile : (icase : Bool) → List Char → Option ρ
  /-- A regex that was given no pattern. -/
  unset : ρ
  regexSearch : ρ → List Char → Option Match
  regexMatch : ρ → List Char → Bool
  search_split : ∀ re text what, regexSearch re text = some what →
    what.before ++ what.matched ++ what.after = text

inductive Exception where
  | regexError (pattern : List Char)
  | filterException (message : List Char)
deriving DecidableEq, Repr

inductive Stop where
  | thrown (e : Exception)
  | unfinished
deriving DecidableEq, Repr

abbrev Vars := Table (List Char) (List Char)

structure Replace (ρ : Type) where
  startAnchor : Bool
  re : ρ
  recipe : List Char
  groupIndex : Table Nat (List Char)

/-- `Rule`: its `replace_list`. -/
abbrev Rule (ρ : Type) := List (Replace ρ)

/-- Where the filter may throw: the `X-Metaproxy-SkipLink` header `hv` is read, or `test_patterns`
goes on from `start`. -/
inductive Point (ρ : Type) where
  | skipLink (url hv : List Char)
  | replace (rule : Rule ρ) (start : List Char) (first : Bool)

abbrev Serving (ρ : Type) := Traced (Point ρ) Stop

def cString (s : List Char) : List Char := s.takeWhile (· ≠ '\x00')

theorem cString_eq_self {s : List Char} (h : '\x00' ∉ s) : cString s = s := by
  refine List.takeWhile_eq_self_iff.mpr fun c hc => decide_eq_true ?_
  rintro rfl
  exact h hc

variable {ρ : Type}

/-! ## `sub_vars` -/

/-- From the character at `i` on. -/
def subVarsLoop (recipe : List Char) (vars : Vars) (i : Nat) (esc : Bool) (s : List Char) :
    Except Exception (List Char) :=
  match s with
  | [] => .ok []
  | c :: s1 =>
    if !esc && c = '\\' then subVarsLoop recipe vars (i + 1) true s1
    else if !esc && c = '$' then
      if s1.head? = some '{' then
        let name := s1.tail.takeWhile (· ≠ '}')
        match h : s1.tail.dropWhile (· ≠ '}') with
        | [] => .error (.filterException ("Unterminated var ref in '".toList ++ recipe ++
            "' at ".toList ++ (toString recipe.length).toList))
        | _ :: s2 =>
          have : s2.length < s1.length + 1 := by
            have hle := (List.dropWhile_sublist (· ≠ '}') (l := s1.tail)).length_le
            rw [h] at hle
            simp at hle
            omega
          (subVarsLoop recipe vars (i + name.length + 3) false s2).map
            ((vars.lookup name).getD [] ++ ·)
      else .error (.filterException ("Malformed or trimmed var ref in '".toList ++ recipe ++
        "' at ".toList ++ (toString i).toList))
    else (subVarsLoop recipe vars (i + 1) false s1).map (c :: ·)
termination_by s.length

def Replace.subVars (r : Replace ρ) (vars : Vars) : Except Exception (List Char) :=
  subVarsLoop r.recipe vars 0 false r.recipe

/-! ## `test_patterns` -/

variable (boost : Boost ρ)

/-- The match of a rewrite, if it may match here. -/
def Replace.search (r : Replace ρ) (start : List Char) (first : Bool) : Option Match :=
  if r.startAnchor && !first then none else boost.regexSearch r.re start

/-- The first match, and of those at one place that of the first rewrite. -/
def choose (rule : Rule ρ) (start : List Char) (first : Bool) : Option (Replace ρ × Match) :=
  rule.foldl (fun best it =>
    match it.search boost start first with
    | none => best
    | some what =>
      match best with
      | none => some (it, what)
      | some (_, bwhat) =>
        if what.before.length < bwhat.before.length then some (it, what) else best) none

def Replace.namedGroups (bit : Replace ρ) (bwhat : Match) (vars : Vars) : Vars :=
  (bwhat.groups.zipIdx 1).foldl (fun vars group =>
    match bit.groupIndex.lookup group.2 with
    | none => vars
    | some name => vars.insert name group.1) vars

/-- What comes of one round of the loop. -/
structure Replaced where
  out : List Char
  vars : Vars
  start : List Char

/-- A round of the loop; `none` when there is no match. -/
def replaceNext (rule : Rule ρ) (skips : List ρ) (vars : Vars) (start : List Char) (first : Bool) :
    Except Stop (Option Replaced) :=
  match choose boost rule start first with
  | none => .ok none
  | some (bit, bwhat) =>
    let vars := bit.namedGroups bwhat vars
    let skipthis := skips.any fun si => (boost.regexSearch si bwhat.matched).isSome
    match bit.subVars vars with
    | .error e => .error (.thrown e)
    | .ok rvalue =>
      .ok (some ⟨bwhat.before ++ (if skipthis then cString bwhat.matched else rvalue), vars,
        bwhat.after⟩)

/-- A text that was rewritten. -/
structure Rewritten where
  txt : List Char
  vars : Vars
  replaces : Bool

def testPatternsLoop (rule : Rule ρ) (skips : List ρ) :
    Nat → Vars → List Char → Bool → List Char → Bool → Serving ρ Rewritten
  | 0, _, _, _, _, _ => .fail .unfinished
  | fuel + 1, vars, start, first, out, replaces =>
    Traced.step (.replace rule start first) (replaceNext boost rule skips vars start first) >>=
      fun
      | none => pure ⟨out ++ start, vars, replaces⟩
      | some r => testPatternsLoop rule skips fuel r.vars r.start false (out ++ r.out) true

/-- What a rule is applied with: the steps of its loops, and the texts that are left alone. -/
structure Env (ρ : Type) where
  fuel : Nat
  skips : List ρ

def testPatterns (env : Env ρ) (rule : Rule ρ) (vars : Vars) (txt : List Char) (anchor : Bool) :
    Serving ρ Rewritten :=
  testPatternsLoop boost rule env.skips env.fuel vars txt anchor [] false

/-! ## `embed_quoted_literal` -/

/-- Up to `&quot;` or the end of the line. -/
def entityLiteral (cp : List Char) : List Char × List Char :=
  match cp with
  | [] => ([], [])
  | c :: cp1 =>
    if (c :: cp1).take 6 = "&quot;".toList ∨ c = '\n' then ([], c :: cp1)
    else
      let p := entityLiteral cp1
      (c :: p.1, p.2)

/-- Up to the delimiter `m`, without a backslash in front of it, or the end of the line. -/
def quotedLiteral (m prev : Char) (cp : List Char) : List Char × List Char :=
  match cp with
  | [] => ([], [])
  | c :: cp1 =>
    if prev ≠ '\\' ∧ c = m ∨ c = '\n' then ([], c :: cp1)
    else
      let p := quotedLiteral m c cp1
      (c :: p.1, p.2)

theorem length_entityLiteral_le (cp : List Char) : (entityLiteral cp).2.length ≤ cp.length := by
  induction cp with
  | nil => exact Nat.le_refl _
  | cons c cp ih =>
    rw [entityLiteral]
    split
    · exact Nat.le_refl _
    · exact Nat.le_trans ih (Nat.le_succ _)

theorem length_quotedLiteral_le (m : Char) (cp : List Char) :
    ∀ prev, (quotedLiteral m prev cp).2.length ≤ cp.length := by
  induction cp with
  | nil => exact fun _ => Nat.le_refl _
  | cons c cp ih =>
    intro prev
    rw [quotedLiteral]
    split
    · exact Nat.le_refl _
    · exact Nat.le_trans (ih c) (Nat.le_succ _)

/-- The loop at `cp`, with `seg` what stands between `cp0` and `cp`. -/
def embedLoop (env : Env ρ) (rule : Rule ρ) (html : Bool) (res seg : List Char) (vars : Vars)
    (replace : Bool) (cp : List Char) : Serving ρ Rewritten :=
  match cp with
  | [] => pure ⟨res ++ seg, vars, replace⟩
  | c :: cp1 =>
    if html ∧ (c :: cp1).take 6 = "&quot;".toList then
      let res := res ++ seg ++ "&quot;".toList
      let s := entityLiteral (cp1.drop 5)
      match h : s.2 with
      | [] => pure ⟨res ++ s.1, vars, replace⟩
      | d :: cp2 =>
        have : cp2.length < cp1.length + 1 := by
          have hle := length_entityLiteral_le (cp1.drop 5)
          rw [show (entityLiteral (cp1.drop 5)).2 = d :: cp2 from h] at hle
          simp at hle
          omega
        testPatterns boost env rule vars s.1 true >>= fun r =>
          embedLoop env rule html (res ++ r.txt) [d] r.vars (replace || r.replaces) cp2
    else if c = '"' ∨ c = '\'' then
      let res := res ++ seg ++ [c]
      let s := quotedLiteral c c cp1
      match h : s.2 with
      | [] => pure ⟨res ++ s.1, vars, replace⟩
      | d :: cp2 =>
        have : cp2.length < cp1.length + 1 := by
          have hle := length_quotedLiteral_le c cp1 c
          rw [show (quotedLiteral c c cp1).2 = d :: cp2 from h] at hle
          simp at hle
          omega
        testPatterns boost env rule vars s.1 true >>= fun r =>
          embedLoop env rule html (res ++ r.txt) [d] r.vars (replace || r.replaces) cp2
    else if c = '/' ∧ cp1.head? = some '/' then
      have : (cp1.dropWhile (· ≠ '\n')).length < cp1.length + 1 :=
        Nat.lt_succ_of_le (List.dropWhile_sublist _).length_le
      embedLoop env rule html res (seg ++ c :: cp1.takeWhile (· ≠ '\n')) vars replace
        (cp1.dropWhile (· ≠ '\n'))
    else embedLoop env rule html res (seg ++ [c]) vars replace cp1
termination_by cp.length
decreasing_by all_goals (simp only [List.length_cons]; omega)

def embedQuotedLiteral (env : Env ρ) (content : List Char) (vars : Vars) (rule : Rule ρ)
    (html : Bool) : Serving ρ Rewritten :=
  embedLoop boost env rule html [] [] vars false (cString content)

/-! ## `Within` -/

inductive WithinType where
  | plain
  | quotedLiteral
deriving DecidableEq, Repr

/-- `header`, `attr` and `tag` are `none` when they are empty. -/
structure Within (ρ : Type) where
  header : Option ρ
  attr : Option ρ
  tag : Option ρ
  type : WithinType
  reqline : Bool
  rule : Rule ρ

def Within.exec (w : Within ρ) (env : Env ρ) (vars : Vars) (txt : List Char) (anchor : Bool) :
    Serving ρ Rewritten :=
  match w.type with
  | .quotedLiteral => embedQuotedLiteral boost env txt vars w.rule true
  | .plain => testPatterns boost env w.rule vars txt anchor

end HttpRewrite
end Metaproxy
