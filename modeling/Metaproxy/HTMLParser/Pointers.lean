import Metaproxy.HTMLParser
import Metaproxy.Lib.Cursor

/-!
# HTMLParser.Pointers

`html_parser.cpp` as it goes over the characters of a string. Pointers are positions in the string,
reads behind its terminator and the overflow of an `int` are faults, and what `HTMLParserEvent` is
called with are spans. The printing of `m_verbose` is left out.
-/

namespace Metaproxy
namespace HTMLParser
namespace Pointers

open Lib

/-- A NUL-terminated string. -/
abbrev Str := Terminated '\x00'

/-- A call of `HTMLParserEvent`. The last argument of `attribute` is `x[0]`. -/
inductive Call where
  | openTagStart (tag : Span)
  | attribute (tag attr value : Span) (tr : Char)
  | anyTagEnd (tag : Span) (closeIt : Bool)
  | closeTag (tag : Span)
  | text (value : Span)
deriving DecidableEq, Repr

/-- `val_len` and `tr` before they are set. -/
structure Uninit where
  valLen : Int
  tr : Char

def skipSpace (s : Str) (cp : Nat) : Except Fault Nat := s.scan isSpace cp 0

def skipName (s : Str) (cp : Nat) : Except Fault Nat := s.scan isName cp 0

/-! ## Attributes -/

structure Attribute where
  nor : Nat
  attrLen : Nat
  value : Span
  tr : Char

/-- The value at `cp[i]`, its `tr`, and `i` behind it. -/
def skipValue (s : Str) (cp i : Nat) : Except Fault (Span × Char × Nat) := do
  let tr ← s.read (cp + i)
  if tr = '"' ∨ tr = '\'' then
    let v0 ← offset i 1
    let v1 ← s.scan (· ≠ tr) cp v0
    let c ← s.read (cp + v1)
    let i ← (if c = '\x00' then .ok v1 else offset v1 1)
    return (⟨some (cp + v0), v1 - v0⟩, tr, i)
  else
    let v1 ← s.scan isBare cp i
    return (⟨some (cp + i), v1 - i⟩, '\x00', v1)

def skipAttribute (s : Str) (u : Uninit) (cp : Nat) : Except Fault Attribute := do
  let attrLen ← skipName s cp
  if attrLen = 0 then
    let nor ← skipSpace s cp
    return ⟨nor, attrLen, ⟨none, u.valLen⟩, u.tr⟩
  else
    let ws ← skipSpace s (cp + attrLen)
    let i ← offset attrLen ws
    let c ← s.read (cp + i)
    if c = '=' then
      let i ← offset i 1
      let ws ← skipSpace s (cp + i)
      let i ← offset i ws
      let v ← skipValue s cp i
      let ws ← skipSpace s (cp + v.2.2)
      let nor ← offset v.2.2 ws
      return ⟨nor, attrLen, v.1, v.2.1⟩
    else return ⟨i, attrLen, ⟨none, u.valLen⟩, u.tr⟩

/-- The loop of `tagAttrs`. In each round `val_len` and `tr` are as `u` says for where it begins. -/
def tagAttrsLoop (s : Str) (u : Nat → Uninit) (name : Span) (cp i : Nat) :
    Except Fault (List Call × Nat) :=
  s.reading (cp + i) fun c _ =>
    if c = '\x00' ∨ isEnd c then .ok ([], i)
    else do
      let a ← skipAttribute s (u (cp + i)) (cp + i)
      if a.nor = 0 then return ([], i)
      else if i + a.nor < 2 ^ 31 then
        let r ← tagAttrsLoop s u name cp (i + a.nor)
        return (.attribute name ⟨some (cp + i), a.attrLen⟩ a.value a.tr :: r.1, r.2)
      else .error .overflow
termination_by s.chars.length + 1 - (cp + i)

def tagAttrs (s : Str) (u : Nat → Uninit) (name : Span) (cp : Nat) :
    Except Fault (List Call × Nat) := do
  let i ← skipSpace s cp
  tagAttrsLoop s u name cp i

/-! ## Tags -/

def tagEnd (s : Str) (tag : Span) (cp : Nat) : Except Fault (List Call × Nat) := do
  let i ← s.scan (!isEnd ·) cp 0
  let text := if 0 < i then [.text ⟨some cp, i⟩] else []
  let c ← s.read (cp + i)
  let closeIt := c = '/'
  let i ← (if closeIt then offset i 1 else .ok i)
  let c ← s.read (cp + i)
  if c = '>' then
    let j ← offset i 1
    return (text ++ [.anyTagEnd tag closeIt], j)
  else return (text, i)

/-- The length is the difference as an `int`. -/
def tagText (textStart textEnd : Nat) : List Call :=
  if textStart = textEnd then []
  else [.text ⟨some textStart, ((textEnd : Int) - textStart).bmod (2 ^ 32)⟩]

/-- The call of `tagEnd` for the tag of length `i` at `cp`, behind `calls`. -/
def endedBy (s : Str) (calls : List Call) (cp i : Nat) : Except Fault (List Call × Nat) := do
  let e ← tagEnd s ⟨some cp, i⟩ (cp + i)
  let i ← offset i e.2
  return (calls ++ e.1, i)

/-- The loop of a comment. -/
def commentEnd (s : Str) (cp i : Nat) : Except Fault (Option Nat × Nat) :=
  s.reading (cp + i) fun c _ =>
    if c = '\x00' then .ok (none, i)
    else do
      let found ← s.look id (cp + i) ['-', '-', '>']
      if found then
        let i ← offset i 2
        return (some i, i)
      else if i + 1 < 2 ^ 31 then commentEnd s cp (i + 1)
      else .error .overflow
termination_by s.chars.length + 1 - (cp + i)

/-- `<!` with `--` behind it. -/
def comment (s : Str) (cp : Nat) : Except Fault (List Call × Nat) := do
  let r ← commentEnd s cp 3
  endedBy s (r.1.toList.map fun i => .openTagStart ⟨some cp, i⟩) cp r.2

/-- `<!` and `<?`. -/
def declaration (s : Str) (cp : Nat) : Except Fault (List Call × Nat) := do
  let i ← s.scan (· ≠ '>') cp 1
  endedBy s [.openTagStart ⟨some cp, i⟩] cp i

/-- `i == 6 && !yaz_strncasecmp(cp, "script", i)` -/
def isScript (s : Str) (cp i : Nat) : Except Fault Bool :=
  if i = 6 then s.look Char.toLower cp "script".toList else .ok false

/-- Whether an end tag inside of `script` is the one of it. -/
def isScriptEnd (s : Str) (cp i : Nat) : Except Fault Bool := do
  let script ← isScript s cp i
  if script then
    let ws ← skipSpace s (cp + 6)
    let k ← offset ws 6
    let c ← s.read (cp + k)
    return c = '>'
  else return false

/-- `*cp == '/' && isAlpha(cp[1])` -/
def isEndTag (s : Str) (cp : Nat) : Except Fault Bool := do
  let c ← s.read cp
  if c = '/' then
    let d ← s.read (cp + 1)
    return isAlpha d
  else return false

/-- The tag at `cp`, up to behind its `>`, and how far that is. -/
def openTag (s : Str) (u : Nat → Uninit) (cp i : Nat) : Except Fault (List Call × Nat) := do
  let a ← tagAttrs s u ⟨some cp, i⟩ (cp + i)
  let e ← tagEnd s ⟨some cp, i⟩ (cp + i + a.2)
  let j ← offset a.2 e.2
  let k ← offset i j
  return (.openTagStart ⟨some cp, i⟩ :: (a.1 ++ e.1), k)

/-! ## `parse_str` -/

/-- What a round of the loop calls, what it leaves `nest` and `text_start` at, and how far behind
the `<` it leaves `cp`. -/
structure Round where
  calls : List Call
  nest : Bool
  textStart : Nat
  i : Nat

/-- The round for a `<`, with `cp` behind it. -/
def markup (s : Str) (u : Nat → Uninit) (nest : Bool) (textStart cp : Nat) :
    Except Fault Round := do
  let c ← s.read cp
  if nest ∧ c = '!' then
    let dashes ← s.look id (cp + 1) ['-', '-']
    let e ← (if dashes then comment s cp else declaration s cp)
    return ⟨tagText textStart (cp - 1) ++ e.1, nest, cp + e.2, e.2⟩
  else if nest ∧ c = '?' then
    let e ← declaration s cp
    return ⟨tagText textStart (cp - 1) ++ e.1, nest, cp + e.2, e.2⟩
  else
    let endTag ← isEndTag s cp
    if endTag then
      let i ← skipName s (cp + 1)
      let terminated ← (if nest then .ok true else isScriptEnd s (cp + 1) i)
      if terminated then
        let e ← endedBy s [.closeTag ⟨some (cp + 1), i⟩] (cp + 1) i
        return ⟨tagText textStart (cp + 1 - 2) ++ e.1, true, cp + 1 + e.2, 1 + e.2⟩
      else return ⟨[], nest, textStart, 1⟩
    else if nest ∧ isAlpha c then
      let i ← skipName s cp
      let e ← openTag s u cp i
      let script ← isScript s cp i
      return ⟨tagText textStart (cp - 1) ++ e.1, nest && !script, cp + e.2, e.2⟩
    else return ⟨[], nest, textStart, 0⟩

def parseLoop (s : Str) (u : Nat → Uninit) (nest : Bool) (textStart cp : Nat) :
    Except Fault (List Call) :=
  s.reading cp fun c _ =>
    if c = '\x00' then .ok (tagText textStart cp)
    else if c ≠ '<' then parseLoop s u nest textStart (cp + 1)
    else do
      let r ← markup s u nest textStart (cp + 1)
      let calls ← parseLoop s u r.nest r.textStart (cp + 1 + r.i)
      return r.calls ++ calls
termination_by s.chars.length + 1 - cp

/-- `nest` is the member of the `Rep`, which is as the string before left it. -/
def parseStr (s : Str) (u : Nat → Uninit) (nest : Bool) : Except Fault (List Call) :=
  parseLoop s u nest 0 0

end Pointers
end HTMLParser
end Metaproxy
