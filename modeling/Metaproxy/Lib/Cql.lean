import Mathlib.Data.List.Basic

/-!
# Lib.Cql

The part of CQL that is made of search clauses, booleans and parentheses.

A character of a term is escaped when a backslash stands before it. A term stands for a string
unless it has a mask that is not escaped (`literal`); `*` and `?` mask characters and `^` anchors
the term. In double quotes a term ends at the next quote that is not escaped; without quotes it
ends at a blank or a character that has a meaning of its own.

* `lexQuoted_written` — a term that is written with its escapes in quotes is read back.
* `lexWord_plain`, `plain_lexWord` — the words that stand for their own text.
* `parseRest_leaves` — clauses that have been read stay.
-/

namespace Lib
namespace Cql

structure TermChar where
  escaped : Bool
  char : Char
deriving DecidableEq, Repr

abbrev Term := List TermChar

def isMask (c : Char) : Bool := c = '*' || c = '?' || c = '^'

/-- The string that a term stands for. -/
def literal : Term → Option (List Char)
  | [] => some []
  | c :: cs => if !c.escaped && isMask c.char then none else (literal cs).map (c.char :: ·)

def isBlank (c : Char) : Bool := c = ' ' || c = '\t' || c = '\n' || c = '\r'

/-- Where a term without quotes ends. -/
def isSpecial (c : Char) : Bool :=
  isBlank c || c = '"' || c = '(' || c = ')' || c = '=' || c = '<' || c = '>' || c = '/'

/-! ## Tokens -/

/-- What follows the opening quote: the term, and the rest behind the closing quote. -/
def lexQuoted : List Char → Option (Term × List Char)
  | [] => none
  | c :: cs =>
    if c = '"' then some ([], cs)
    else if c = '\\' then
      match cs with
      | [] => none
      | d :: cs => (lexQuoted cs).map fun r => (⟨true, d⟩ :: r.1, r.2)
    else (lexQuoted cs).map fun r => (⟨false, c⟩ :: r.1, r.2)

def lexUntil (ends : Char → Bool) : List Char → Option (Term × List Char)
  | [] => some ([], [])
  | c :: cs =>
    if ends c then some ([], c :: cs)
    else if c = '\\' then
      match cs with
      | [] => none
      | d :: cs => (lexUntil ends cs).map fun r => (⟨true, d⟩ :: r.1, r.2)
    else (lexUntil ends cs).map fun r => (⟨false, c⟩ :: r.1, r.2)

def lexWord : List Char → Option (Term × List Char) := lexUntil isSpecial

inductive Token where
  | eof
  | symbol (s : List Char)
  | word (t : Term)
  | quoted (t : Term)
deriving DecidableEq, Repr

/-- The token that starts with `c`, which is no blank. -/
def lexAt (c : Char) (cs : List Char) : Option (Token × List Char) :=
  if c = '"' then (lexQuoted cs).map fun r => (.quoted r.1, r.2)
  else if c = '(' || c = ')' || c = '/' then some (.symbol [c], cs)
  else if c = '=' || c = '<' || c = '>' then
    match cs with
    | [] => some (.symbol [c], [])
    | d :: ds =>
      if d = '=' || (c = '<' && d = '>') then some (.symbol [c, d], ds)
      else some (.symbol [c], d :: ds)
  else (lexWord (c :: cs)).map fun r => (.word r.1, r.2)

/-- The next token and what follows it. -/
def next : List Char → Option (Token × List Char)
  | [] => some (.eof, [])
  | c :: cs => if isBlank c then next cs else lexAt c cs

/-! ## Queries -/

structure Clause (τ : Type*) where
  /-- `none` for a term alone. -/
  index : Option (List Char)
  relation : List Char
  modifiers : List (List Char)
  term : τ
deriving DecidableEq, Repr

inductive Tree (τ : Type*) where
  | clause (c : Clause τ)
  | node (op : List Char) (left right : Tree τ)
deriving DecidableEq, Repr

def Clause.map {τ τ' : Type*} (f : τ → τ') (c : Clause τ) : Clause τ' :=
  { c with term := f c.term }

def Tree.map {τ τ' : Type*} (f : τ → τ') : Tree τ → Tree τ'
  | .clause c => .clause (c.map f)
  | .node op left right => .node op (left.map f) (right.map f)

/-- The clauses from left to right. -/
def Tree.leaves {τ : Type*} : Tree τ → List (Clause τ)
  | .clause c => [c]
  | .node _ left right => left.leaves ++ right.leaves

def spelled (t : Term) : List Char := t.map TermChar.char

def lower (s : List Char) : List Char := s.map Char.toLower

def isBoolean (t : Term) : Bool :=
  lower (spelled t) = "and".toList || lower (spelled t) = "or".toList ||
    lower (spelled t) = "not".toList || lower (spelled t) = "prox".toList

/-- Names behind slashes, at most `fuel`. -/
def parseModifiers : Nat → List Char → Option (List (List Char) × List Char)
  | 0, cs => some ([], cs)
  | fuel + 1, cs =>
    match next cs with
    | some (.symbol s, rest) =>
      if s = ['/'] then
        match next rest with
        | some (.word t, rest) =>
          (parseModifiers fuel rest).map fun r => (spelled t :: r.1, r.2)
        | _ => none
      else some ([], cs)
    | _ => some ([], cs)

def parseTerm (cs : List Char) : Option (Term × List Char) :=
  match next cs with
  | some (.word t, rest) => some (t, rest)
  | some (.quoted t, rest) => some (t, rest)
  | _ => none

def isComparator (s : List Char) : Bool := s ≠ ['('] && s ≠ [')'] && s ≠ ['/']

/-- Behind index and relation. -/
def parseRelated (index relation cs : List Char) : Option (Clause Term × List Char) :=
  (parseModifiers cs.length cs).bind fun m =>
    (parseTerm m.2).map fun r => (⟨some index, relation, m.1, r.1⟩, r.2)

def parseSearchClause (cs : List Char) : Option (Clause Term × List Char) :=
  (parseTerm cs).bind fun r =>
    match next r.2 with
    | some (.symbol s, rest) =>
      if isComparator s then parseRelated (spelled r.1) s rest else some (⟨none, [], [], r.1⟩, r.2)
    | some (.word t, rest) =>
      if isBoolean t then some (⟨none, [], [], r.1⟩, r.2)
      else parseRelated (spelled r.1) (spelled t) rest
    | some (.eof, _) => some (⟨none, [], [], r.1⟩, r.2)
    | _ => none

mutual

def parseQuery : Nat → List Char → Option (Tree Term × List Char)
  | 0, _ => none
  | fuel + 1, cs => (parseClause fuel cs).bind fun r => parseRest fuel r.1 r.2

def parseClause : Nat → List Char → Option (Tree Term × List Char)
  | 0, _ => none
  | fuel + 1, cs =>
    match next cs with
    | some (.symbol s, rest) =>
      if s = ['('] then
        (parseQuery fuel rest).bind fun r =>
          match next r.2 with
          | some (.symbol s, rest) => if s = [')'] then some (r.1, rest) else none
          | _ => none
      else none
    | _ => (parseSearchClause cs).map fun r => (.clause r.1, r.2)

/-- Booleans are left associative. -/
def parseRest : Nat → Tree Term → List Char → Option (Tree Term × List Char)
  | 0, _, _ => none
  | fuel + 1, left, cs =>
    match next cs with
    | some (.word t, rest) =>
      if isBoolean t then
        (parseModifiers rest.length rest).bind fun m =>
          (parseClause fuel m.2).bind fun r =>
            parseRest fuel (.node (lower (spelled t)) left r.1) r.2
      else none
    | _ => some (left, cs)

end

def parse (cs : List Char) : Option (Tree Term) :=
  (parseQuery (2 * cs.length + 2) cs).bind fun r =>
    match next r.2 with
    | some (.eof, _) => some r.1
    | _ => none

/-! ## Quoted terms -/

/-- The text of a term between quotes. -/
def written : Term → List Char
  | [] => []
  | c :: cs => if c.escaped then '\\' :: c.char :: written cs else c.char :: written cs

/-- Quotes and backslashes are escaped. -/
def Quotable (t : Term) : Prop := ∀ c ∈ t, c.escaped = false → c.char ≠ '"' ∧ c.char ≠ '\\'

variable {t : Term} {cs rest : List Char} {s : List Char}

theorem lexQuoted_close (cs : List Char) : lexQuoted ('"' :: cs) = some ([], cs) := by
  rw [lexQuoted.eq_def]
  rfl

theorem lexQuoted_escaped (d : Char) (cs : List Char) :
    lexQuoted ('\\' :: d :: cs) = (lexQuoted cs).map fun r => (⟨true, d⟩ :: r.1, r.2) := by
  rw [lexQuoted, if_neg (by decide), if_pos rfl]

theorem lexQuoted_plain {c : Char} (hq : c ≠ '"') (hb : c ≠ '\\') (cs : List Char) :
    lexQuoted (c :: cs) = (lexQuoted cs).map fun r => (⟨false, c⟩ :: r.1, r.2) := by
  rw [lexQuoted.eq_def]
  simp only [if_neg hq, if_neg hb]

theorem lexQuoted_written (h : Quotable t) (cs : List Char) :
    lexQuoted (written t ++ '"' :: cs) = some (t, cs) := by
  induction t with
  | nil => exact lexQuoted_close cs
  | cons c t ih =>
    have ht : Quotable t := fun d hd => h d (List.mem_cons_of_mem _ hd)
    obtain ⟨escaped, char⟩ := c
    cases escaped with
    | true =>
      show lexQuoted ('\\' :: char :: (written t ++ '"' :: cs)) = _
      rw [lexQuoted_escaped, ih ht]
      rfl
    | false =>
      obtain ⟨hq, hb⟩ := h ⟨false, char⟩ List.mem_cons_self rfl
      show lexQuoted (char :: (written t ++ '"' :: cs)) = _
      rw [lexQuoted_plain hq hb, ih ht]
      rfl

theorem length_lexQuoted (h : lexQuoted cs = some (t, rest)) :
    t.length + rest.length + 1 ≤ cs.length := by
  induction cs using lexQuoted.induct generalizing t with
  | case1 => cases h
  | case2 cs =>
    rw [lexQuoted_close] at h
    cases h
    simp
  | case3 => cases h
  | case4 d cs _ ih =>
    rw [lexQuoted_escaped] at h
    obtain ⟨⟨t', rest'⟩, hr, heq⟩ := Option.map_eq_some_iff.mp h
    cases heq
    have hlen := ih hr
    simp only [List.length_cons] at hlen ⊢
    omega
  | case5 c cs hq hb ih =>
    rw [lexQuoted_plain hq hb] at h
    obtain ⟨⟨t', rest'⟩, hr, heq⟩ := Option.map_eq_some_iff.mp h
    cases heq
    have hlen := ih hr
    simp only [List.length_cons] at hlen ⊢
    omega

/-! ## Words -/

/-- A character that stands for itself in a word. -/
def isPlain (c : Char) : Bool := !isSpecial c && c ≠ '\\' && !isMask c

/-- A term without escapes. -/
def plainTerm (s : List Char) : Term := s.map fun c => ⟨false, c⟩

theorem literal_length (h : literal t = some s) : t.length = s.length := by
  induction t generalizing s with
  | nil =>
    cases h
    rfl
  | cons c t ih =>
    rw [literal] at h
    split at h
    · cases h
    · obtain ⟨s', hs', rfl⟩ := Option.map_eq_some_iff.mp h
      rw [List.length_cons, List.length_cons, ih hs']

theorem literal_plainTerm (h : ∀ c ∈ s, isMask c = false) : literal (plainTerm s) = some s := by
  induction s with
  | nil => rfl
  | cons c s ih =>
    have hc : isMask c = false := h c List.mem_cons_self
    have hs := ih fun d hd => h d (List.mem_cons_of_mem _ hd)
    show (if !false && isMask c then none else (literal (plainTerm s)).map (c :: ·)) = _
    rw [hc, hs]
    rfl

theorem lexWord_special {c : Char} (h : isSpecial c = true) (cs : List Char) :
    lexWord (c :: cs) = some ([], c :: cs) := by
  rw [lexWord, lexUntil.eq_def]
  simp only [h, if_true]

theorem lexWord_escaped (d : Char) (cs : List Char) :
    lexWord ('\\' :: d :: cs) = (lexWord cs).map fun r => (⟨true, d⟩ :: r.1, r.2) := by
  have hspecial : isSpecial '\\' = false := by decide
  rw [lexWord, lexUntil.eq_def]
  simp only [hspecial, Bool.false_eq_true, if_false, if_true]

theorem lexWord_cons {c : Char} (h : isSpecial c = false) (hb : c ≠ '\\') (cs : List Char) :
    lexWord (c :: cs) = (lexWord cs).map fun r => (⟨false, c⟩ :: r.1, r.2) := by
  rw [lexWord, lexUntil.eq_def]
  simp only [h, Bool.false_eq_true, if_false, if_neg hb]

theorem lexWord_plain (h : ∀ c ∈ s, isPlain c = true) : lexWord s = some (plainTerm s, []) := by
  induction s with
  | nil => rfl
  | cons c s ih =>
    have hc := h c List.mem_cons_self
    simp only [isPlain, Bool.and_eq_true, Bool.not_eq_true', decide_eq_true_eq] at hc
    rw [lexWord_cons hc.1.1 hc.1.2, ih fun d hd => h d (List.mem_cons_of_mem _ hd)]
    rfl

theorem length_lexWord (h : lexWord cs = some (t, rest)) : t.length + rest.length ≤ cs.length := by
  induction cs using lexUntil.induct isSpecial generalizing t with
  | case1 =>
    cases h
    exact Nat.le_refl _
  | case2 c cs hc =>
    rw [lexWord_special hc] at h
    cases h
    simp
  | case3 => cases h
  | case4 d cs _ ih =>
    rw [lexWord_escaped] at h
    obtain ⟨⟨t', rest'⟩, hr, heq⟩ := Option.map_eq_some_iff.mp h
    cases heq
    have hlen := ih hr
    simp only [List.length_cons] at hlen ⊢
    omega
  | case5 c cs hc hb ih =>
    rw [lexWord_cons (by simpa using hc) hb] at h
    obtain ⟨⟨t', rest'⟩, hr, heq⟩ := Option.map_eq_some_iff.mp h
    cases heq
    have hlen := ih hr
    simp only [List.length_cons] at hlen ⊢
    omega

/-- A word as long as its text stands for it only when every character does. -/
theorem plain_lexWord (h : lexWord cs = some (t, rest)) (hl : literal t = some s)
    (hle : cs.length ≤ s.length + rest.length) :
    cs = s ++ rest ∧ ∀ c ∈ s, isPlain c = true := by
  induction cs using lexUntil.induct isSpecial generalizing t s with
  | case1 =>
    cases h
    cases hl
    exact ⟨rfl, fun c hc => by cases hc⟩
  | case2 c cs hc =>
    rw [lexWord_special hc] at h
    cases h
    cases hl
    exact ⟨rfl, fun c hc => by cases hc⟩
  | case3 => cases h
  | case4 d cs _ ih =>
    -- an escape takes two characters for one
    rw [lexWord_escaped] at h
    obtain ⟨⟨t', rest'⟩, hr, heq⟩ := Option.map_eq_some_iff.mp h
    cases heq
    have hlen := length_lexWord hr
    have hs := literal_length hl
    simp only [List.length_cons] at hle hs
    omega
  | case5 c cs hc hb ih =>
    have hc' : isSpecial c = false := by simpa using hc
    rw [lexWord_cons hc' hb] at h
    obtain ⟨⟨t', rest'⟩, hr, heq⟩ := Option.map_eq_some_iff.mp h
    cases heq
    rw [literal] at hl
    split at hl
    · cases hl
    · rename_i hmask
      obtain ⟨s', hs', rfl⟩ := Option.map_eq_some_iff.mp hl
      have hmask' : isMask c = false := by simpa using hmask
      have hle' : cs.length ≤ s'.length + rest'.length := by
        simp only [List.length_cons] at hle
        omega
      obtain ⟨heq, hplain⟩ := ih hr hs' hle'
      refine ⟨congrArg (c :: ·) heq, ?_⟩
      intro d hd
      rcases List.mem_cons.mp hd with rfl | hd
      · simp [isPlain, hc', hb, hmask']
      · exact hplain d hd

/-! ## Terms -/

theorem next_blank {c : Char} (h : isBlank c = true) (cs : List Char) :
    next (c :: cs) = next cs := by
  rw [next, if_pos h]

theorem next_quote (cs : List Char) :
    next ('"' :: cs) = (lexQuoted cs).map fun r => (.quoted r.1, r.2) := by
  rw [next, if_neg (by decide), lexAt.eq_def]
  rfl

/-- A character that is not special starts a word. -/
theorem next_word {c : Char} (h : isSpecial c = false) (cs : List Char) :
    next (c :: cs) = (lexWord (c :: cs)).map fun r => (.word r.1, r.2) := by
  simp only [isSpecial, Bool.or_eq_false_iff, decide_eq_false_iff_not] at h
  obtain ⟨⟨⟨⟨⟨⟨⟨hblank, hquote⟩, hopen⟩, hclose⟩, heq⟩, hless⟩, hgreater⟩, hslash⟩ := h
  rw [next, hblank]
  simp [lexAt, hquote, hopen, hclose, heq, hless, hgreater, hslash]

theorem parseTerm_blank {c : Char} (h : isBlank c = true) (cs : List Char) :
    parseTerm (c :: cs) = parseTerm cs := by
  rw [parseTerm, parseTerm, next_blank h]

theorem parseTerm_quote (cs : List Char) : parseTerm ('"' :: cs) = lexQuoted cs := by
  rw [parseTerm, next_quote]
  cases lexQuoted cs with
  | none => rfl
  | some r => rfl

theorem parseTerm_word {c : Char} (h : isSpecial c = false) (cs : List Char) :
    parseTerm (c :: cs) = lexWord (c :: cs) := by
  rw [parseTerm, next_word h]
  cases lexWord (c :: cs) with
  | none => rfl
  | some r => rfl

/-- A word in front of what ends it. -/
theorem lexWord_append {d : Char} (h : ∀ c ∈ s, isPlain c = true) (hd : isSpecial d = true)
    (cs : List Char) : lexWord (s ++ d :: cs) = some (plainTerm s, d :: cs) := by
  induction s with
  | nil => exact lexWord_special hd cs
  | cons c s ih =>
    have hc := h c List.mem_cons_self
    simp only [isPlain, Bool.and_eq_true, Bool.not_eq_true', decide_eq_true_eq] at hc
    rw [List.cons_append, lexWord_cons hc.1.1 hc.1.2, ih fun d hd => h d (List.mem_cons_of_mem _ hd)]
    rfl

theorem isSpecial_of_plain {c : Char} (h : isPlain c = true) : isSpecial c = false := by
  simp only [isPlain, Bool.and_eq_true, Bool.not_eq_true'] at h
  exact h.1.1

theorem next_append {d : Char} (hs : s ≠ []) (h : ∀ c ∈ s, isPlain c = true)
    (hd : isSpecial d = true) (cs : List Char) :
    next (s ++ d :: cs) = some (.word (plainTerm s), d :: cs) := by
  have hword := lexWord_append h hd cs
  cases s with
  | nil => exact absurd rfl hs
  | cons c s =>
    rw [List.cons_append] at hword ⊢
    rw [next_word (isSpecial_of_plain (h c List.mem_cons_self)), hword]
    rfl

theorem parseTerm_append {d : Char} (hs : s ≠ []) (h : ∀ c ∈ s, isPlain c = true)
    (hd : isSpecial d = true) (cs : List Char) :
    parseTerm (s ++ d :: cs) = some (plainTerm s, d :: cs) := by
  rw [parseTerm, next_append hs h hd]

/-- A plain word starts with no symbol. -/
theorem next_append_symbol {d : Char} (hs : s ≠ []) (h : ∀ c ∈ s, isPlain c = true)
    (hd : isSpecial d = true) (cs symbol rest : List Char) :
    next (s ++ d :: cs) ≠ some (.symbol symbol, rest) := by
  rw [next_append hs h hd]
  intro heq
  cases heq

theorem next_plain (hs : s ≠ []) (h : ∀ c ∈ s, isPlain c = true) :
    next s = some (.word (plainTerm s), []) := by
  have hword := lexWord_plain h
  cases s with
  | nil => exact absurd rfl hs
  | cons c s =>
    rw [next_word (isSpecial_of_plain (h c List.mem_cons_self)), hword]
    rfl

theorem next_equal (cs : List Char) : next ('=' :: '=' :: cs) = some (.symbol ['=', '='], cs) := by
  rw [next, if_neg (by decide), lexAt.eq_def]
  rfl

theorem next_slash (cs : List Char) : next ('/' :: cs) = some (.symbol ['/'], cs) := by
  rw [next, if_neg (by decide), lexAt.eq_def]
  rfl

theorem spelled_plainTerm (s : List Char) : spelled (plainTerm s) = s := by
  rw [spelled, plainTerm, List.map_map]
  exact List.map_id s

/-- Other characters start no term. -/
theorem parseTerm_special {c : Char} (h : isSpecial c = true) (hblank : isBlank c = false)
    (hquote : c ≠ '"') (cs : List Char) : parseTerm (c :: cs) = none := by
  have hsymbol : ∃ s rest, next (c :: cs) = some (.symbol s, rest) := by
    rw [next, hblank]
    simp only [isSpecial, hblank, hquote, decide_false, Bool.or_false, Bool.false_or,
      Bool.or_eq_true, decide_eq_true_eq] at h
    simp only [Bool.false_eq_true, if_false, lexAt, hquote, Bool.or_eq_true, decide_eq_true_eq]
    by_cases hparen : (c = '(' ∨ c = ')') ∨ c = '/'
    · rw [if_pos hparen]
      exact ⟨_, _, rfl⟩
    · rw [if_neg hparen, if_pos (by tauto)]
      cases cs with
      | nil => exact ⟨_, _, rfl⟩
      | cons d ds =>
        by_cases hd : d = '=' ∨ (c = '<' && decide (d = '>')) = true
        · simp only [if_pos hd]
          exact ⟨_, _, rfl⟩
        · simp only [if_neg hd]
          exact ⟨_, _, rfl⟩
  obtain ⟨sym, rest, hnext⟩ := hsymbol
  rw [parseTerm, hnext]

/-- A term that is the whole of a text and stands for it is a word of plain characters. -/
theorem plain_of_parseTerm (h : parseTerm s = some (t, rest)) (hl : literal t = some s) :
    s ≠ [] ∧ ∀ c ∈ s, isPlain c = true := by
  have hlen := literal_length hl
  -- the text may start with blanks, behind which the term is too short
  have hshort : ∀ cs, cs.length < s.length → parseTerm cs = some (t, rest) → False := by
    intro cs
    induction cs with
    | nil =>
      intro _ hterm
      cases hterm
    | cons c cs ih =>
      intro hlt hterm
      by_cases hspecial : isSpecial c = true
      · by_cases hblank : isBlank c = true
        · rw [parseTerm_blank hblank] at hterm
          exact ih (Nat.lt_of_succ_lt hlt) hterm
        · by_cases hquote : c = '"'
          · subst hquote
            rw [parseTerm_quote] at hterm
            have hq := length_lexQuoted hterm
            simp only [List.length_cons] at hlt
            omega
          · rw [parseTerm_special hspecial (by simpa using hblank) hquote] at hterm
            cases hterm
      · rw [parseTerm_word (by simpa using hspecial)] at hterm
        have hw := length_lexWord hterm
        omega
  cases s with
  | nil => cases h
  | cons c cs =>
    refine ⟨List.cons_ne_nil _ _, ?_⟩
    by_cases hspecial : isSpecial c = true
    · by_cases hblank : isBlank c = true
      · rw [parseTerm_blank hblank] at h
        exact absurd h (hshort cs (Nat.lt_succ_self _))
      · by_cases hquote : c = '"'
        · subst hquote
          rw [parseTerm_quote] at h
          have hq := length_lexQuoted h
          simp only [List.length_cons] at hlen
          omega
        · rw [parseTerm_special hspecial (by simpa using hblank) hquote] at h
          cases h
    · rw [parseTerm_word (by simpa using hspecial)] at h
      exact (plain_lexWord h hl (Nat.le_add_right _ _)).2

/-! ## Clauses -/

theorem parseModifiers_none {fuel : Nat} (h : ∀ rest, next cs ≠ some (.symbol ['/'], rest)) :
    parseModifiers fuel cs = some ([], cs) := by
  cases fuel with
  | zero => rfl
  | succ fuel =>
    rw [parseModifiers]
    split
    · rename_i s rest hnext
      by_cases hs : s = ['/']
      · subst hs
        exact absurd hnext (h rest)
      · rw [if_neg hs]
    · rfl

/-- Without modifiers nothing was read. -/
theorem parseModifiers_nil {fuel : Nat} (h : parseModifiers fuel cs = some ([], rest)) :
    rest = cs := by
  cases fuel with
  | zero =>
    cases h
    rfl
  | succ fuel =>
    rw [parseModifiers] at h
    split at h
    · split at h
      · split at h
        · obtain ⟨r, -, heq⟩ := Option.map_eq_some_iff.mp h
          cases heq
        · cases h
      · cases h
        rfl
    · cases h
      rfl

theorem parseRelated_term {index relation : List Char}
    (h : ∀ rest, next cs ≠ some (.symbol ['/'], rest)) :
    parseRelated index relation cs =
      (parseTerm cs).map fun r => (⟨some index, relation, [], r.1⟩, r.2) := by
  rw [parseRelated, parseModifiers_none h]
  rfl

theorem next_quote_symbol (s : List Char) (rest : List Char) :
    next ('"' :: cs) ≠ some (.symbol s, rest) := by
  intro h
  rw [next_quote] at h
  obtain ⟨r, -, heq⟩ := Option.map_eq_some_iff.mp h
  cases heq

theorem parseRelated_quote (index relation cs : List Char) :
    parseRelated index relation ('"' :: cs) =
      (lexQuoted cs).map fun r => (⟨some index, relation, [], r.1⟩, r.2) := by
  rw [parseRelated_term (next_quote_symbol _), parseTerm_quote]

/-- An index and `==` in front of a term. -/
theorem parseSearchClause_equal (index : List Char) (hs : index ≠ [])
    (h : ∀ c ∈ index, isPlain c = true) {d : Char} (hd : isSpecial d = true) (cs : List Char)
    (hnext : next (d :: cs) = some (.symbol ['=', '='], rest)) :
    parseSearchClause (index ++ d :: cs) = parseRelated index ['=', '='] rest := by
  rw [parseSearchClause, parseTerm_append hs h hd, Option.bind_some]
  simp only [hnext, spelled_plainTerm]
  rfl

theorem parseClause_search {fuel : Nat} (h : ∀ s rest, next cs ≠ some (.symbol s, rest)) :
    parseClause (fuel + 1) cs = (parseSearchClause cs).map fun r => (.clause r.1, r.2) := by
  rw [parseClause]
  split
  · rename_i s rest hnext
    exact absurd hnext (h s rest)
  · rfl

/-- A boolean without modifiers goes on with the next clause. -/
theorem parseRest_boolean {fuel : Nat} {left : Tree Term} (hnext : next cs = some (.word t, rest))
    (ht : isBoolean t = true) (hmod : ∀ r, next rest ≠ some (.symbol ['/'], r)) :
    parseRest (fuel + 1) left cs = (parseClause fuel rest).bind fun r =>
      parseRest fuel (.node (lower (spelled t)) left r.1) r.2 := by
  rw [parseRest, hnext]
  simp only [ht, if_true, parseModifiers_none hmod]
  rfl

theorem parseRest_nil {fuel : Nat} (left : Tree Term) :
    parseRest (fuel + 1) left [] = some (left, []) := rfl

/-- Behind the text `pre` a quoted term is that of the clause `c`. -/
structure Opens (pre : List Char) (c : Clause Unit) : Prop where
  start : ∀ cs s rest, next (pre ++ cs) ≠ some (.symbol s, rest)
  search : ∀ cs, parseSearchClause (pre ++ cs) =
    (lexQuoted cs).map fun r => (c.map fun _ => r.1, r.2)

/-- So it is behind `pre` after a clause that `op` joins it to. -/
def Joins (pre op : List Char) (c : Clause Unit) : Prop :=
  ∀ fuel left cs, parseRest (fuel + 2) left (pre ++ cs) = (lexQuoted cs).bind fun r =>
    parseRest (fuel + 1) (.node op left (.clause (c.map fun _ => r.1))) r.2

theorem Opens.joins {pre : List Char} {c : Clause Unit} (h : Opens pre c) (op : List Char)
    (hop : ∀ cs, next (op ++ (pre ++ cs)) = some (.word t, pre ++ cs)) (ht : isBoolean t = true) :
    Joins (op ++ pre) (lower (spelled t)) c := by
  intro fuel left cs
  rw [List.append_assoc, parseRest_boolean (hop cs) ht (h.start cs _), parseClause_search (h.start cs),
    h.search cs]
  cases lexQuoted cs with
  | none => rfl
  | some r => rfl

/-! ## Trees -/

theorem Tree.leaves_map {τ τ' : Type*} (f : τ → τ') (tree : Tree τ) :
    (tree.map f).leaves = tree.leaves.map (Clause.map f) := by
  induction tree with
  | clause c => rfl
  | node op left right ihl ihr => simp only [Tree.map, Tree.leaves, ihl, ihr, List.map_append]

/-- Clauses that have been read stay the first ones of the tree. -/
theorem parseRest_leaves {fuel : Nat} {left tree : Tree Term}
    (h : parseRest fuel left cs = some (tree, rest)) : left.leaves <+: tree.leaves := by
  induction fuel generalizing left cs with
  | zero => cases h
  | succ fuel ih =>
    rw [parseRest] at h
    split at h
    · split at h
      · obtain ⟨m, -, h⟩ := Option.bind_eq_some_iff.mp h
        obtain ⟨r, -, h⟩ := Option.bind_eq_some_iff.mp h
        exact (List.prefix_append _ _).trans (ih h)
      · cases h
    · cases h
      exact List.prefix_rfl

end Cql
end Lib
