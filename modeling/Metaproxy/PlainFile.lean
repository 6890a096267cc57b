import Metaproxy.Lib.Cut
import Metaproxy.Lib.Lines

/-!
# PlainFile

`plainfile.cpp`: files of lines of words, with blank lines and comments. `readWhole_iff`: when
reading until there is no more line gives the words of all other lines.
-/

namespace Metaproxy
namespace PlainFile

open Lib

/-- `PLAINFILE_MAX_LINE`. -/
def maxLine : Nat := 256

structure Rep where
  lineno : Nat
  fh : Option IStream

def Rep.close : Rep := ⟨0, none⟩

/-- A file that could be opened. -/
def openFile (text : List Char) : Rep := ⟨0, some (IStream.new text)⟩

def isBlank (c : Char) : Bool := c = ' ' || c = '\t'

theorem length_dropWhile_le (p : Char → Bool) (l : List Char) :
    (l.dropWhile p).length ≤ l.length :=
  (List.dropWhile_sublist p).length_le

/-- The words of a line. -/
def words (cp : List Char) : List (List Char) :=
  match _h : cp.dropWhile isBlank with
  | [] => []
  | c :: rest => (c :: rest.takeWhile (!isBlank ·)) :: words (rest.dropWhile (!isBlank ·))
termination_by cp.length
decreasing_by
  have hcp := length_dropWhile_le isBlank cp
  have hrest := length_dropWhile_le (!isBlank ·) rest
  rw [_h, List.length_cons] at hcp
  omega

/-- Neither a comment nor a blank line. -/
def isLine (cp : List Char) : Bool :=
  match cp with
  | [] => false
  | first :: _ => !(first = '#' || isBlank first)

/-- The arguments of the next line, or `false` behind the last one. -/
def getline : Nat → Rep → Option (Bool × List (List Char) × Rep)
  | 0, _ => none
  | fuel + 1, m =>
    match m.fh with
    | none => some (false, [], m)
    | some fh =>
      if fh.eof then some (false, [], Rep.close)
      else
        let (lineCstr, fh) := fh.getline (maxLine - 1)
        if isLine (cString lineCstr) then
          some (true, words (cString lineCstr), ⟨m.lineno + 1, some fh⟩)
        else getline fuel ⟨m.lineno + 1, some fh⟩

/-- `while (f.getline(args))`. -/
def readAll : Nat → Rep → Option (List (List (List Char)))
  | 0, _ => none
  | fuel + 1, m =>
    match getline (fuel + 1) m with
    | none => none
    | some (false, _, _) => some []
    | some (true, args, m) => (readAll fuel m).map (args :: ·)

/-! ## The words of a line -/

theorem filter_dropWhile_isBlank (cp : List Char) :
    (cp.dropWhile isBlank).filter (!isBlank ·) = cp.filter (!isBlank ·) := by
  have hskipped : (cp.takeWhile isBlank).filter (!isBlank ·) = [] := by
    refine List.filter_eq_nil_iff.mpr fun c hc => ?_
    simpa using List.mem_takeWhile_imp hc
  conv_rhs => rw [← List.takeWhile_append_dropWhile (p := isBlank) (l := cp)]
  rw [List.filter_append, hskipped, List.nil_append]

/-- The characters of the words are those of the line that are no blanks. -/
theorem flatten_words (cp : List Char) : (words cp).flatten = cp.filter (!isBlank ·) := by
  induction cp using words.induct with
  | case1 cp h =>
    rw [words, ← filter_dropWhile_isBlank, h]
    rfl
  | case2 cp c rest h ih =>
    have hc : isBlank c = false := by
      have hne : cp.dropWhile isBlank ≠ [] := by
        rw [h]
        exact List.cons_ne_nil _ _
      simpa [h] using List.head_dropWhile_not isBlank hne
    have hword : (rest.takeWhile (!isBlank ·)).filter (!isBlank ·) =
        rest.takeWhile (!isBlank ·) :=
      List.filter_eq_self.mpr fun x hx => List.mem_takeWhile_imp (p := (!isBlank ·)) hx
    rw [words, ← filter_dropWhile_isBlank cp, h]
    simp only [List.flatten_cons, ih]
    rw [List.filter_cons_of_pos (by simp [hc]), List.cons_append]
    conv_rhs => rw [← List.takeWhile_append_dropWhile (p := (!isBlank ·)) (l := rest)]
    rw [List.filter_append, hword]

theorem words_cString_iff (line : List Char) :
    words (cString line) = words line ↔ '\x00' ∉ line := by
  constructor
  · intro heq hmem
    have hchars : (cString line).filter (!isBlank ·) = line.filter (!isBlank ·) := by
      rw [← flatten_words, heq, flatten_words]
    have hnul : '\x00' ∈ line.filter (!isBlank ·) := List.mem_filter.mpr ⟨hmem, by decide⟩
    rw [← hchars] at hnul
    exact nul_notMem_cString line (List.mem_of_mem_filter hnul)
  · intro h
    rw [cString_eq h]

/-! ## Reading all of a file -/

/-- What one reading of a line gives. -/
def readLine (lineCstr : List Char) : Option (List (List Char)) :=
  if isLine (cString lineCstr) then some (words (cString lineCstr)) else none

/-- All readings one after the other. -/
def readings (fuel : Nat) (fh : IStream) : Option (List (Option (List (List Char)))) :=
  fh.each (maxLine - 1) readLine (fun _ => false) fuel

theorem readings_succ {fh : IStream} (heof : fh.eof = false) (fuel : Nat) :
    readings (fuel + 1) fh =
      (readings fuel (fh.getline (maxLine - 1)).2).map
        (readLine (fh.getline (maxLine - 1)).1 :: ·) := by
  rw [readings, IStream.each, heof]
  rfl

theorem getline_eof {fh : IStream} (heof : fh.eof = true) (fuel lineno : Nat) :
    getline (fuel + 1) ⟨lineno, some fh⟩ = some (false, [], Rep.close) := by
  rw [getline]
  simp [heof]

theorem getline_some {fh : IStream} {args : List (List Char)} (heof : fh.eof = false)
    (hargs : readLine (fh.getline (maxLine - 1)).1 = some args) (fuel lineno : Nat) :
    getline (fuel + 1) ⟨lineno, some fh⟩ =
      some (true, args, ⟨lineno + 1, some (fh.getline (maxLine - 1)).2⟩) := by
  rw [readLine] at hargs
  split at hargs
  · next hline =>
    cases hargs
    rw [getline]
    simp [heof, hline]
  · cases hargs

theorem getline_none {fh : IStream} (heof : fh.eof = false)
    (hskip : readLine (fh.getline (maxLine - 1)).1 = none) (fuel lineno : Nat) :
    getline (fuel + 1) ⟨lineno, some fh⟩ =
      getline fuel ⟨lineno + 1, some (fh.getline (maxLine - 1)).2⟩ := by
  rw [readLine] at hskip
  split at hskip
  · cases hskip
  · next hline =>
    rw [getline]
    simp [heof, hline]

theorem getline_mono {fuel more : Nat} {m : Rep} {r : Bool × List (List Char) × Rep}
    (h : getline fuel m = some r) (hle : fuel ≤ more) : getline more m = some r := by
  induction fuel generalizing more m with
  | zero => cases h
  | succ fuel ih =>
    obtain ⟨more, rfl⟩ : ∃ k, more = k + 1 := ⟨more - 1, by omega⟩
    obtain ⟨lineno, fh⟩ := m
    cases fh with
    | none => exact h
    | some fh =>
      cases heof : fh.eof with
      | true =>
        rw [getline_eof heof] at h ⊢
        exact h
      | false =>
        cases hread : readLine (fh.getline (maxLine - 1)).1 with
        | some args =>
          rw [getline_some heof hread] at h ⊢
          exact h
        | none =>
          rw [getline_none heof hread] at h ⊢
          exact ih h (by omega)

theorem readAll_mono {fuel more : Nat} {m : Rep} {all : List (List (List Char))}
    (h : readAll fuel m = some all) (hle : fuel ≤ more) : readAll more m = some all := by
  induction fuel generalizing more m all with
  | zero => cases h
  | succ fuel ih =>
    obtain ⟨more, rfl⟩ : ∃ k, more = k + 1 := ⟨more - 1, by omega⟩
    rw [readAll] at h ⊢
    cases hline : getline (fuel + 1) m with
    | none =>
      rw [hline] at h
      cases h
    | some r =>
      obtain ⟨found, args, m'⟩ := r
      rw [hline] at h
      rw [getline_mono hline (by omega)]
      cases found with
      | false => exact h
      | true =>
        obtain ⟨rest, hrest, rfl⟩ := Option.map_eq_some_iff.mp h
        simp only
        rw [ih hrest (by omega)]
        rfl

/-- One call reads what is skipped and the line it returns. -/
theorem getline_reads {fuel lineno : Nat} {fh : IStream} {found : Bool}
    {args : List (List Char)} {m : Rep}
    (h : getline fuel ⟨lineno, some fh⟩ = some (found, args, m)) :
    (found = false ∧ ∃ k rs, readings k fh = some rs ∧ rs.reduceOption = []) ∨
      (found = true ∧ ∃ fh', m.fh = some fh' ∧ ∀ k rs', readings k fh' = some rs' →
        ∃ k' rs, readings k' fh = some rs ∧ rs.reduceOption = args :: rs'.reduceOption) := by
  induction fuel generalizing lineno fh with
  | zero => cases h
  | succ fuel ih =>
    cases heof : fh.eof with
    | true =>
      rw [getline_eof heof] at h
      cases h
      exact .inl ⟨rfl, 1, [], IStream.each_eof heof 0, rfl⟩
    | false =>
      cases hread : readLine (fh.getline (maxLine - 1)).1 with
      | some args' =>
        rw [getline_some heof hread] at h
        cases h
        refine .inr ⟨rfl, _, rfl, fun k rs' hrs' => ⟨k + 1, some args :: rs', ?_, rfl⟩⟩
        rw [readings_succ heof, hrs', hread]
        rfl
      | none =>
        rw [getline_none heof hread] at h
        rcases ih h with ⟨hfound, k, rs, hrs, hnil⟩ | ⟨hfound, fh', hfh, hrest⟩
        · refine .inl ⟨hfound, k + 1, none :: rs, ?_, hnil⟩
          rw [readings_succ heof, hrs, hread]
          rfl
        · refine .inr ⟨hfound, fh', hfh, fun k rs' hrs' => ?_⟩
          obtain ⟨k', rs, hrs, heq⟩ := hrest k rs' hrs'
          refine ⟨k' + 1, none :: rs, ?_, heq⟩
          rw [readings_succ heof, hrs, hread]
          rfl

theorem readings_of_readAll {fuel lineno : Nat} {fh : IStream} {all : List (List (List Char))}
    (h : readAll fuel ⟨lineno, some fh⟩ = some all) :
    ∃ k rs, readings k fh = some rs ∧ rs.reduceOption = all := by
  induction fuel generalizing lineno fh all with
  | zero => cases h
  | succ fuel ih =>
    rw [readAll] at h
    cases hline : getline (fuel + 1) ⟨lineno, some fh⟩ with
    | none =>
      rw [hline] at h
      cases h
    | some r =>
      obtain ⟨found, args, lineno', fhs⟩ := r
      rw [hline] at h
      rcases getline_reads hline with ⟨rfl, k, rs, hrs, hnil⟩ | ⟨rfl, fh', rfl, hrest⟩
      · cases h
        exact ⟨k, rs, hrs, hnil⟩
      · obtain ⟨rest, hall, rfl⟩ := Option.map_eq_some_iff.mp h
        obtain ⟨k, rs', hrs', rfl⟩ := ih hall
        exact hrest k rs' hrs'

theorem readAll_of_readings (lineno : Nat) {k : Nat} {fh : IStream} {rs : List (Option (List (List Char)))}
    (h : readings k fh = some rs) :
    ∃ fuel, readAll fuel ⟨lineno, some fh⟩ = some rs.reduceOption := by
  induction k generalizing lineno fh rs with
  | zero => cases h
  | succ k ih =>
    cases heof : fh.eof with
    | true =>
      have hnil : readings (k + 1) fh = some [] := IStream.each_eof heof k
      rw [hnil] at h
      cases h
      refine ⟨1, ?_⟩
      rw [readAll, getline_eof heof]
      rfl
    | false =>
      rw [readings_succ heof] at h
      obtain ⟨rs', hrs', rfl⟩ := Option.map_eq_some_iff.mp h
      obtain ⟨fuel, hfuel⟩ := ih (lineno + 1) hrs'
      cases hread : readLine (fh.getline (maxLine - 1)).1 with
      | some args =>
        refine ⟨fuel + 1, ?_⟩
        rw [readAll, getline_some heof hread]
        simp only
        rw [hfuel]
        rfl
      | none =>
        cases fuel with
        | zero => cases hfuel
        | succ fuel =>
          refine ⟨fuel + 2, ?_⟩
          have hmore := readAll_mono hfuel (Nat.le_succ _)
          cases hline : getline (fuel + 1)
              ⟨lineno + 1, some (fh.getline (maxLine - 1)).2⟩ with
          | none =>
            rw [readAll, hline] at hfuel
            cases hfuel
          | some r =>
            rw [readAll, getline_mono hline (Nat.le_succ _)] at hmore
            rw [readAll, getline_none heof hread, hline]
            exact hmore

/-! ## The lines of a file -/

/-- Nothing but blanks. -/
def Blank (line : List Char) : Prop := ∀ c ∈ line, isBlank c = true

/-- The first character that is no blank is a `#`. -/
def Comment (line : List Char) : Prop := (line.dropWhile isBlank).head? = some '#'

instance (line : List Char) : Decidable (Blank line) :=
  inferInstanceAs (Decidable (∀ c ∈ line, isBlank c = true))

instance (line : List Char) : Decidable (Comment line) :=
  inferInstanceAs (Decidable ((line.dropWhile isBlank).head? = some '#'))

/-- What a line is to give. -/
def wholeLine (line : List Char) : Option (List (List Char)) :=
  if Blank line ∨ Comment line then none else some (words line)

/-- Reading ends, and every line has been parsed whole or skipped as blank or comment. -/
def ReadWhole (text : List Char) : Prop :=
  ∃ fuel, readAll fuel (openFile text) = some ((text.splitOn '\n').filterMap wholeLine)

/-- A line that is read as it should be. -/
def Fits (line : List Char) : Prop :=
  line.length ≤ 254 ∧
    (Blank line ∨ Comment line ∨ ('\x00' ∉ line ∧ ∀ c ∈ line.head?, isBlank c = false))

theorem isLine_iff {cp : List Char} :
    isLine cp = true ↔ ∃ c rest, cp = c :: rest ∧ c ≠ '#' ∧ isBlank c = false := by
  cases cp with
  | nil => simp [isLine]
  | cons c rest => simp [isLine]

/-- A line that begins with a blank is skipped, whatever comes behind. -/
theorem readLine_skipped {line : List Char} (h : Blank line ∨ Comment line) :
    readLine line = none := by
  rw [readLine, if_neg]
  rw [isLine_iff]
  rintro ⟨c, rest, heq, hhash, hblank⟩
  cases line with
  | nil => cases heq
  | cons c' line =>
    have hc : c' = c := by
      rw [cString, List.takeWhile_cons] at heq
      split at heq
      · exact (List.cons.inj heq).1
      · cases heq
    rw [hc] at h
    rcases h with h | h
    · rw [h c List.mem_cons_self] at hblank
      cases hblank
    · rw [Comment, List.dropWhile_cons_of_neg (by simp [hblank])] at h
      exact hhash (Option.some.inj h)

theorem readLine_eq_iff (line : List Char) :
    readLine line = wholeLine line ↔
      Blank line ∨ Comment line ∨ ('\x00' ∉ line ∧ ∀ c ∈ line.head?, isBlank c = false) := by
  by_cases hskip : Blank line ∨ Comment line
  · rw [readLine_skipped hskip, wholeLine, if_pos hskip, ← or_assoc]
    exact iff_of_true rfl (.inl hskip)
  · rw [wholeLine, if_neg hskip, ← or_assoc, or_iff_right hskip]
    constructor
    · intro h
      rw [readLine] at h
      split at h
      · next hline =>
        refine ⟨(words_cString_iff line).mp (Option.some.inj h), fun c hc => ?_⟩
        obtain ⟨c', rest, heq, -, hblank⟩ := isLine_iff.mp hline
        have hnul := (words_cString_iff line).mp (Option.some.inj h)
        rw [cString_eq hnul] at heq
        rw [heq] at hc
        cases hc
        exact hblank
      · cases h
    · rintro ⟨hnul, hfirst⟩
      rw [readLine, cString_eq hnul]
      cases line with
      | nil => exact absurd (.inl fun c hc => absurd hc List.not_mem_nil) hskip
      | cons c rest =>
        have hblank := hfirst c rfl
        have hhash : c ≠ '#' := by
          rintro rfl
          exact hskip (.inr rfl)
        rw [if_pos (isLine_iff.mpr ⟨c, rest, rfl, hhash, hblank⟩)]

theorem reduceOption_map_readLine (lines : List (List Char)) :
    (lines.map readLine).reduceOption = lines.filterMap readLine := by
  show (lines.map readLine).filterMap id = _
  rw [List.filterMap_map, Function.id_comp]

theorem readAll_openFile_iff (text : List Char) (all : List (List (List Char))) :
    (∃ fuel, readAll fuel (openFile text) = some all) ↔
      (∀ l ∈ text.splitOn '\n', l.length ≤ 254) ∧
        all = (text.splitOn '\n').filterMap readLine := by
  have hread : ∀ rs, (∃ k, readings k (IStream.new text) = some rs) ↔
      (∀ l ∈ text.splitOn '\n', l.length ≤ 254) ∧ rs = (text.splitOn '\n').map readLine := by
    intro rs
    refine (IStream.each_iff_heard rfl text rs).trans ?_
    rw [IStream.heard_all]
    split
    · next hall => exact ⟨fun h => ⟨hall, (Option.some.inj h).symm⟩, fun h => by rw [h.2]⟩
    · next hlong => exact ⟨fun h => (by cases h), fun h => absurd h.1 hlong⟩
  constructor
  · rintro ⟨fuel, hfuel⟩
    obtain ⟨k, rs, hrs, rfl⟩ := readings_of_readAll hfuel
    obtain ⟨hall, rfl⟩ := (hread rs).mp ⟨k, hrs⟩
    exact ⟨hall, by rw [reduceOption_map_readLine]⟩
  · rintro ⟨hall, rfl⟩
    obtain ⟨k, hk⟩ := (hread _).mpr ⟨hall, rfl⟩
    obtain ⟨fuel, hfuel⟩ := readAll_of_readings 0 hk
    refine ⟨fuel, ?_⟩
    rw [openFile, hfuel, reduceOption_map_readLine]

theorem readWhole_iff (text : List Char) :
    ReadWhole text ↔ ∀ line ∈ text.splitOn '\n', Fits line := by
  have hskip : ∀ line, wholeLine line = none → readLine line = none := by
    intro line hnone
    rw [wholeLine] at hnone
    split at hnone
    · exact readLine_skipped ‹_›
    · cases hnone
  rw [ReadWhole, readAll_openFile_iff, eq_comm, filterMap_eq_iff hskip]
  constructor
  · rintro ⟨hlen, heq⟩ line hline
    exact ⟨hlen line hline, (readLine_eq_iff line).mp (heq line hline)⟩
  · intro hfits
    exact ⟨fun line hline => (hfits line hline).1,
      fun line hline => (readLine_eq_iff line).mpr (hfits line hline).2⟩

end PlainFile
end Metaproxy
