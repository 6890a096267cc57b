import Mathlib.Data.List.Infix
import Metaproxy.Lib.Path
import Metaproxy.Lib.Table

/-!
# HttpFile

`filter_http_file.cpp`: files under document roots, one for each prefix of the request's path.

`fetchUri_confined_iff`: when the files that are looked at are all below the root of the area. Root
and remainder are only put behind one another, so a remainder without a leading `/` goes on with the
last name of a root without a trailing one.
-/

namespace Metaproxy
namespace HttpFile

open Lib

/-- `configure` takes no area without a root, and no text of an element has a NUL. -/
structure Area where
  urlPathPrefix : List Char
  fileRoot : List Char
  raw : Bool
  passthru : Bool
  fileRoot_ne : fileRoot ≠ []
  nul_notMem : '\x00' ∉ fileRoot

structure Request where
  method : String
  path : List Char
deriving DecidableEq, Repr

/-- `FILE *f`: its size unless it cannot be told, and what `fread` gives of it. -/
structure File where
  size : Option Nat
  bytes : Option (List UInt8)
deriving DecidableEq, Repr

/-- What is outside: the files, by their names, and `z_GDU`. -/
structure Env (γ : Type) where
  /-- `stat` says that it is a regular file. -/
  isReg : List Char → Bool
  fopen : List Char → Option File
  decodeGdu : List UInt8 → Option γ

inductive Outcome (γ : Type) where
  | move
  | response (code : Nat)
  | file (contents : List UInt8) (contentType : String)
  | raw (gdu : γ)
deriving DecidableEq, Repr

/-- What becomes of a request, and the names given to `stat` and `fopen`. -/
structure Fetch (γ : Type) where
  names : List (List Char)
  outcome : Outcome γ

variable {γ : Type}

/-- By what stands behind the last dot of the last name. -/
def mimeType (extToMap : Table (List Char) String) (fname : List Char) : String :=
  let filePart := match cutLast '/' fname with
    | some (_, name) => name
    | none => fname
  match cutLast '.' filePart with
  | none => "application/octet-stream"
  | some (_, ext) =>
    match extToMap.lookup ext with
    | none => "application/octet-stream"
    | some type => if type = "" then "application/octet-stream" else type

/-- A file that is open. -/
def sendFile (env : Env γ) (extToMap : Table (List Char) String) (fname : List Char) (raw : Bool)
    (f : File) : Outcome γ :=
  match f.size with
  | none => .response 404
  | some sz =>
    if sz > 1000000 then .response 404
    else
      match if sz > 0 then f.bytes else some [] with
      | none => .response 500
      | some fbuf =>
        if raw then
          match env.decodeGdu fbuf with
          | none => .response 500
          | some gdu => .raw gdu
        else .file fbuf (mimeType extToMap fname)

def fetchFile (env : Env γ) (extToMap : Table (List Char) String) (req : Request)
    (fname : List Char) (raw passthru : Bool) : Fetch γ :=
  if req.method ≠ "GET" then ⟨[], if passthru then .move else .response 405⟩
  else
    let name := cString fname
    if !env.isReg name then ⟨[name], if passthru then .move else .response 404⟩
    else
      match env.fopen name with
      | none => ⟨[name, name], .response 404⟩
      | some f => ⟨[name, name], sendFile env extToMap fname raw f⟩

/-- A path has a `..` somewhere. -/
def hasDotDot (path : List Char) : Bool :=
  path.tails.any (['.', '.'].isPrefixOf ·)

/-- The path without fragment and query, decoded. `decode` is `yaz_decode_uri_component`, whose
result ends at its first NUL. -/
def requestPath (decode : List Char → List Char) (path : List Char) : List Char :=
  cString (decode ((path.takeWhile (· ≠ '#')).takeWhile (· ≠ '?')))

/-- The first area whose prefix the path has. -/
def areaOf (areaList : List Area) (path : List Char) : Option Area :=
  areaList.find? fun it => it.urlPathPrefix.isPrefixOf path

def fetchUri (decode : List Char → List Char) (env : Env γ)
    (extToMap : Table (List Char) String) (areaList : List Area) (req : Request) : Fetch γ :=
  let path := requestPath decode req.path
  if hasDotDot path then ⟨[], .move⟩
  else
    match areaOf areaList path with
    | none => ⟨[], .move⟩
    | some it =>
      fetchFile env extToMap req (it.fileRoot ++ path.drop it.urlPathPrefix.length) it.raw
        it.passthru

/-! ## What is looked at -/

theorem hasDotDot_iff (path : List Char) : hasDotDot path = true ↔ ['.', '.'] <:+: path := by
  rw [hasDotDot, List.any_eq_true]
  constructor
  · rintro ⟨rest, hrest, hprefix⟩
    exact (List.isPrefixOf_iff_prefix.mp hprefix).isInfix.trans ((List.mem_tails _ _).mp hrest).isInfix
  · rintro ⟨before, after, rfl⟩
    refine ⟨['.', '.'] ++ after, (List.mem_tails _ _).mpr ?_, List.isPrefixOf_iff_prefix.mpr ?_⟩
    · rw [List.append_assoc]
      exact List.suffix_append _ _
    · exact List.prefix_append ['.', '.'] after

theorem nul_notMem_requestPath (decode : List Char → List Char) (path : List Char) :
    '\x00' ∉ requestPath decode path :=
  nul_notMem_cString _

/-- A file is looked at under one name, and only for `GET`. -/
theorem mem_names_fetchFile_iff {env : Env γ} {extToMap : Table (List Char) String} {req : Request}
    {fname name : List Char} {raw passthru : Bool} :
    name ∈ (fetchFile env extToMap req fname raw passthru).names ↔
      req.method = "GET" ∧ name = cString fname := by
  rw [fetchFile]
  by_cases hget : req.method = "GET"
  · rw [if_neg (by simpa using hget)]
    cases hreg : env.isReg (cString fname) with
    | false => simp [hreg, hget]
    | true =>
      cases hopen : env.fopen (cString fname) with
      | none => simp [hreg, hopen, hget]
      | some f => simp [hreg, hopen, hget]
  · rw [if_pos (by simpa using hget)]
    simp [hget]

variable (decode : List Char → List Char) (env : Env γ) (extToMap : Table (List Char) String)
  (areaList : List Area) (req : Request)

/-- All files that are looked at are the root of the area or below it, for the first area whose
prefix the path has. -/
def Confined (cwd : List Path.Name) : Prop :=
  ∀ name ∈ (fetchUri decode env extToMap areaList req).names,
    ∃ it, areaOf areaList (requestPath decode req.path) = some it ∧
      Path.denotes cwd it.fileRoot <+: Path.denotes cwd name

/-- The remainder of the path may follow the root of its area. -/
def Serves (cwd : List Path.Name) : Prop :=
  req.method = "GET" → hasDotDot (requestPath decode req.path) = false →
    ∀ it, areaOf areaList (requestPath decode req.path) = some it →
      Path.Follows cwd it.fileRoot
        ((requestPath decode req.path).drop it.urlPathPrefix.length)

theorem fetchUri_confined_iff (cwd : List Path.Name) :
    Confined decode env extToMap areaList req cwd ↔ Serves decode areaList req cwd := by
  rw [Confined, Serves, fetchUri]
  generalize hpath : requestPath decode req.path = path
  have hnul : '\x00' ∉ path := hpath ▸ nul_notMem_requestPath decode req.path
  cases hdots : hasDotDot path with
  | true => simp
  | false =>
    cases harea : areaOf areaList path with
    | none => simp
    | some it =>
      have hroot : '\x00' ∉ it.fileRoot ++ path.drop it.urlPathPrefix.length := by
        rw [List.mem_append, not_or]
        exact ⟨it.nul_notMem, fun h => hnul (List.mem_of_mem_drop h)⟩
      have hup : ¬ ['.', '.'] <:+: path.drop it.urlPathPrefix.length := by
        intro h
        have hmem := (hasDotDot_iff path).mpr (h.trans (List.drop_suffix _ _).isInfix)
        rw [hdots] at hmem
        cases hmem
      have hbelow : Path.denotes cwd it.fileRoot <+:
          Path.denotes cwd (it.fileRoot ++ path.drop it.urlPathPrefix.length) ↔
            Path.Follows cwd it.fileRoot (path.drop it.urlPathPrefix.length) :=
        Path.below_append_iff it.fileRoot_ne hup
      rw [if_neg (by simp)]
      simp only [mem_names_fetchFile_iff, cString_eq hroot]
      constructor
      · intro h hget _ it' hit
        cases hit
        obtain ⟨it', hit', hbelow'⟩ := h _ ⟨hget, rfl⟩
        cases hit'
        exact hbelow.mp hbelow'
      · rintro h name ⟨hget, rfl⟩
        exact ⟨it, rfl, hbelow.mpr (h hget trivial it rfl)⟩

/-- `/docs/` as prefix of a root without a trailing `/`. -/
def docs : Area where
  urlPathPrefix := "/docs/".toList
  fileRoot := "/var/www".toList
  raw := false
  passthru := false
  fileRoot_ne := by decide
  nul_notMem := by decide

def oneFile : Env Unit where
  isReg name := name = "/var/wwwsecret".toList
  fopen _ := some ⟨some 0, none⟩
  decodeGdu _ := none

/-- `/docs/secret` is answered with `/var/wwwsecret`. -/
theorem not_confined_docs :
    ¬ Confined id oneFile ∅ [docs] ⟨"GET", "/docs/secret".toList⟩ [] := by
  intro h
  obtain ⟨it, harea, hbelow⟩ := h "/var/wwwsecret".toList (by decide)
  have hdocs : areaOf [docs] (requestPath id "/docs/secret".toList) = some docs := rfl
  rw [hdocs] at harea
  cases harea
  exact absurd hbelow (by decide)

end HttpFile
end Metaproxy
