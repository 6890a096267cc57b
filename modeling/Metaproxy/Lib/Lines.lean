import Mathlib.Data.List.Basic
import Metaproxy.Lib.Cut

/-!
# Lib.Lines

Reading a text line by line into a buffer, with the state bits of `std::istream`.

`IStream.each` is the loop that reads until the end of the text. `each_eq_heard`: what it does is
`heard`, a recursion over the lines, which does not end behind a line that is too long for the
buffer: the stream has failed there, and the end of the text is never seen.
-/

namespace Lib

/-- What is left to be read, and the state bits. -/
structure IStream where
  rest : List Char
  eof : Bool
  fail : Bool
deriving DecidableEq, Repr

namespace IStream

def new (text : List Char) : IStream := ⟨text, false, false⟩

/-- The characters stored with `room` left for them: the end of the text is noticed first, then
the end of the line, then that there is no room. -/
def extract : Nat → List Char → List Char × IStream
  | _, [] => ([], ⟨[], true, false⟩)
  | room, c :: rest =>
    if c = '\n' then ([], ⟨rest, false, false⟩)
    else
      match room with
      | 0 => ([], ⟨c :: rest, false, true⟩)
      | room + 1 => (c :: (extract room rest).1, (extract room rest).2)

/-- `getline(buf, n)`. A stream that is not good stores nothing. -/
def getline (n : Nat) (s : IStream) : List Char × IStream :=
  if s.eof || s.fail then ([], { s with fail := true })
  else
    match s.rest with
    | [] => ([], ⟨[], true, true⟩)
    | c :: rest => extract (n - 1) (c :: rest)

variable {α : Type*}

/-- `while (!s.eof()) { s.getline(buf, n); … }`, with what the body makes of each buffer; the body
may leave the loop. -/
def each (n : Nat) (body : List Char → α) (leaves : List Char → Bool) :
    Nat → IStream → Option (List α)
  | 0, _ => none
  | fuel + 1, s =>
    if s.eof then some []
    else
      let (buf, s') := s.getline n
      if leaves buf then some [body buf] else (each n body leaves fuel s').map (body buf :: ·)

/-- The same as a recursion over the lines. -/
def heard (n : Nat) (body : List Char → α) (leaves : List Char → Bool) :
    List (List Char) → Option (List α)
  | [] => some []
  | line :: lines =>
    let buf := line.take (n - 1)
    if leaves buf then some [body buf]
    else if line.length ≤ n - 1 then (heard n body leaves lines).map (body buf :: ·)
    else none

/-! ## One line -/

theorem extract_line {l : List Char} {room : Nat} (hl : '\n' ∉ l) (hroom : l.length ≤ room)
    (rest : List Char) : extract room (l ++ '\n' :: rest) = (l, new rest) := by
  induction l generalizing room with
  | nil => cases room <;> rfl
  | cons c l ih =>
    rw [List.mem_cons, not_or] at hl
    cases room with
    | zero => simp at hroom
    | succ room =>
      rw [List.cons_append, extract, if_neg (Ne.symm hl.1), ih hl.2 (by simpa using hroom)]

theorem extract_last {l : List Char} {room : Nat} (hl : '\n' ∉ l) (hroom : l.length ≤ room) :
    extract room l = (l, ⟨[], true, false⟩) := by
  induction l generalizing room with
  | nil => cases room <;> rfl
  | cons c l ih =>
    rw [List.mem_cons, not_or] at hl
    cases room with
    | zero => simp at hroom
    | succ room => rw [extract, if_neg (Ne.symm hl.1), ih hl.2 (by simpa using hroom)]

theorem extract_long {l : List Char} {room : Nat} (hl : '\n' ∉ l) (hroom : room < l.length)
    (rest : List Char) :
    extract room (l ++ rest) = (l.take room, ⟨l.drop room ++ rest, false, true⟩) := by
  induction l generalizing room with
  | nil => simp at hroom
  | cons c l ih =>
    rw [List.mem_cons, not_or] at hl
    cases room with
    | zero =>
      rw [List.cons_append, extract, if_neg (Ne.symm hl.1)]
      rfl
    | succ room =>
      rw [List.cons_append, extract, if_neg (Ne.symm hl.1), ih hl.2 (by simpa using hroom)]
      rfl

theorem getline_new {c : Char} {text : List Char} (n : Nat) :
    getline n (new (c :: text)) = extract (n - 1) (c :: text) := rfl

theorem getline_line {n : Nat} {l : List Char} (hl : '\n' ∉ l) (hn : l.length ≤ n - 1)
    (rest : List Char) : getline n (new (l ++ '\n' :: rest)) = (l, new rest) := by
  have hextract := extract_line hl hn rest
  cases l with
  | nil => exact hextract
  | cons c l => exact hextract

/-- The last line may be empty, which is a failure as well. -/
theorem getline_last {n : Nat} {l : List Char} (hl : '\n' ∉ l) (hn : l.length ≤ n - 1) :
    (getline n (new l)).1 = l ∧ (getline n (new l)).2.eof = true := by
  cases l with
  | nil => exact ⟨rfl, rfl⟩
  | cons c l =>
    rw [getline_new, extract_last hl hn]
    exact ⟨rfl, rfl⟩

theorem getline_long {n : Nat} {l : List Char} (hl : '\n' ∉ l) (hn : n - 1 < l.length)
    (rest : List Char) :
    getline n (new (l ++ rest)) = (l.take (n - 1), ⟨l.drop (n - 1) ++ rest, false, true⟩) := by
  have hextract := extract_long hl hn rest
  cases l with
  | nil => simp at hn
  | cons c l => exact hextract

theorem getline_failed {n : Nat} {s : IStream} (h : s.fail = true) : s.getline n = ([], s) := by
  rw [getline, h, Bool.or_true, if_pos rfl]
  cases s
  cases h
  rfl

/-! ## The loop -/

variable {n : Nat} {body : List Char → α} {leaves : List Char → Bool}

/-- The loop never ends once the stream has failed before its end. -/
theorem each_failed (hblank : leaves [] = false) {s : IStream} (heof : s.eof = false)
    (hfail : s.fail = true) (fuel : Nat) : each n body leaves fuel s = none := by
  induction fuel with
  | zero => rfl
  | succ fuel ih =>
    rw [each, heof, if_neg (by simp), getline_failed hfail]
    simp only [hblank]
    rw [if_neg (by simp), ih]
    rfl

theorem each_eof {s : IStream} (h : s.eof = true) (fuel : Nat) :
    each n body leaves (fuel + 1) s = some [] := by
  rw [each, h, if_pos rfl]

theorem each_new (fuel : Nat) (text : List Char) :
    each n body leaves (fuel + 1) (new text) =
      if leaves (getline n (new text)).1 then some [body (getline n (new text)).1]
      else (each n body leaves fuel (getline n (new text)).2).map
        (body (getline n (new text)).1 :: ·) := by
  rw [each]
  exact if_neg (by simp [new])

/-- The loop as far as its first line. -/
theorem each_line {l : List Char} (hl : '\n' ∉ l) (rest : List Char) (fuel : Nat)
    (hblank : leaves [] = false) :
    each n body leaves (fuel + 1) (new (l ++ '\n' :: rest)) =
      if leaves (l.take (n - 1)) then some [body (l.take (n - 1))]
      else if l.length ≤ n - 1 then
        (each n body leaves fuel (new rest)).map (body (l.take (n - 1)) :: ·)
      else none := by
  rw [each_new]
  by_cases hn : l.length ≤ n - 1
  · rw [getline_line hl hn, List.take_of_length_le hn, if_pos hn]
  · rw [getline_long hl (by omega), if_neg hn]
    simp only
    rw [each_failed hblank rfl rfl]
    rfl

theorem each_last {l : List Char} (hl : '\n' ∉ l) (fuel : Nat) (hblank : leaves [] = false) :
    each n body leaves (fuel + 2) (new l) = heard n body leaves [l] := by
  rw [each_new, heard]
  by_cases hn : l.length ≤ n - 1
  · obtain ⟨hbuf, heof⟩ := getline_last hl hn
    rw [hbuf, each_eof heof, List.take_of_length_le hn, if_pos hn]
    rfl
  · have hlong := getline_long hl (by omega : n - 1 < l.length) []
    rw [List.append_nil] at hlong
    rw [hlong, if_neg hn]
    simp only
    rw [each_failed hblank rfl rfl]
    rfl

/-- The fuel decides nothing but whether the loop gets to its end. -/
theorem each_eq_heard (n : Nat) (body : List Char → α) (hblank : leaves [] = false) (text : List Char) :
    ∃ least, ∀ fuel ≥ least,
      each n body leaves fuel (new text) = heard n body leaves (text.splitOn '\n') := by
  induction hlines : text.splitOn '\n' generalizing text with
  | nil => exact absurd hlines (List.splitOn_ne_nil _ _)
  | cons line lines ih =>
    rcases splitOn_cases '\n' text with ⟨hl, hone⟩ | ⟨l, rest, hl, rfl, hmore⟩
    · rw [hone] at hlines
      cases hlines
      refine ⟨2, fun fuel hfuel => ?_⟩
      obtain ⟨fuel, rfl⟩ : ∃ k, fuel = k + 2 := ⟨fuel - 2, by omega⟩
      exact each_last hl fuel hblank
    · rw [hmore] at hlines
      cases hlines
      obtain ⟨least, hrest⟩ := ih rest rfl
      refine ⟨least + 1, fun fuel hfuel => ?_⟩
      obtain ⟨fuel, rfl⟩ : ∃ k, fuel = k + 1 := ⟨fuel - 1, by omega⟩
      rw [each_line hl rest fuel hblank, heard, hrest fuel (by omega)]

theorem each_mono {fuel more : Nat} {s : IStream} {rs : List α}
    (h : each n body leaves fuel s = some rs) (hle : fuel ≤ more) :
    each n body leaves more s = some rs := by
  induction fuel generalizing more s rs with
  | zero => cases h
  | succ fuel ih =>
    obtain ⟨more, rfl⟩ : ∃ k, more = k + 1 := ⟨more - 1, by omega⟩
    rw [each] at h ⊢
    split
    · rwa [if_pos ‹_›] at h
    · rw [if_neg ‹_›] at h
      simp only at h ⊢
      split
      · rwa [if_pos ‹_›] at h
      · rw [if_neg ‹_›] at h
        obtain ⟨rs', hrs, rfl⟩ := Option.map_eq_some_iff.mp h
        rw [ih hrs (by omega)]
        rfl

theorem each_iff_heard (hblank : leaves [] = false) (text : List Char) (rs : List α) :
    (∃ fuel, each n body leaves fuel (new text) = some rs) ↔
      heard n body leaves (text.splitOn '\n') = some rs := by
  obtain ⟨least, heq⟩ := each_eq_heard n body hblank text
  constructor
  · rintro ⟨fuel, hfuel⟩
    rw [← heq (max fuel least) (by omega)]
    exact each_mono hfuel (by omega)
  · intro h
    exact ⟨least, by rw [heq least (by omega), h]⟩

/-- A loop that never leaves ends if and only if no line is too long. -/
theorem heard_all (n : Nat) (body : List Char → α) (lines : List (List Char)) :
    heard n body (fun _ => false) lines =
      if ∀ l ∈ lines, l.length ≤ n - 1 then some (lines.map body) else none := by
  induction lines with
  | nil => simp [heard]
  | cons line lines ih =>
    rw [heard, if_neg (by simp), ih]
    simp only [List.forall_mem_cons]
    by_cases hn : line.length ≤ n - 1
    · rw [if_pos hn, List.take_of_length_le hn]
      by_cases hall : ∀ l ∈ lines, l.length ≤ n - 1
      · rw [if_pos hall, if_pos ⟨hn, hall⟩]
        rfl
      · rw [if_neg hall, if_neg fun h => hall h.2]
        rfl
    · rw [if_neg hn, if_neg fun h => hn h.1]

end IStream

/-! ## Skipped lines -/

section FilterMap

variable {α β : Type*} {f g : α → Option β}

theorem length_filterMap_le (h : ∀ a, g a = none → f a = none) (l : List α) :
    (l.filterMap f).length ≤ (l.filterMap g).length := by
  induction l with
  | nil => exact Nat.le_refl 0
  | cons a l ih =>
    cases hg : g a with
    | none => rwa [List.filterMap_cons_none hg, List.filterMap_cons_none (h a hg)]
    | some b =>
      rw [List.filterMap_cons_some hg, List.length_cons]
      cases hf : f a with
      | none =>
        rw [List.filterMap_cons_none hf]
        omega
      | some b' =>
        rw [List.filterMap_cons_some hf, List.length_cons]
        omega

/-- Where one function skips no less than another, the results are the same only if each is. -/
theorem filterMap_eq_iff (h : ∀ a, g a = none → f a = none) (l : List α) :
    l.filterMap f = l.filterMap g ↔ ∀ a ∈ l, f a = g a := by
  constructor
  · intro heq
    induction l with
    | nil => exact fun a ha => absurd ha List.not_mem_nil
    | cons a l ih =>
      cases hg : g a with
      | none =>
        rw [List.filterMap_cons_none hg, List.filterMap_cons_none (h a hg)] at heq
        exact List.forall_mem_cons.mpr ⟨by rw [hg, h a hg], ih heq⟩
      | some b =>
        cases hf : f a with
        | none =>
          have hle := length_filterMap_le h l
          rw [List.filterMap_cons_some hg, List.filterMap_cons_none hf] at heq
          rw [heq, List.length_cons] at hle
          omega
        | some b' =>
          rw [List.filterMap_cons_some hg, List.filterMap_cons_some hf] at heq
          obtain ⟨rfl, hrest⟩ := List.cons.inj heq
          exact List.forall_mem_cons.mpr ⟨by rw [hf, hg], ih hrest⟩
  · intro hall
    exact List.filterMap_congr hall

end FilterMap

end Lib
