import Metaproxy.AuthSimple
import Metaproxy.Lib.Lines
import Metaproxy.PlainFile

/-!
# AuthSimple.Register

How `filter_auth_simple.cpp` reads its two registers, which are files of one user a line.

* `registers_read_iff` — when the lines of a file come to their end, each of them whole, left aside
  or refused, in the two registers and in a `PlainFile`.
-/

namespace Metaproxy
namespace AuthSimple

open Lib

/-- `sizeof buf`. -/
def bufSize : Nat := 1000

def splitDb (databasesp : List Char) : List String :=
  (databasesp.splitOn ',').map String.ofList

/-- A user, a password and databases. -/
def userLine (filename : String) (buf : List Char) : Except String (String × PasswordAndDBs) :=
  match buf.dropWhile (· ≠ ':') with
  | [] => .error ("auth_simple user-register '" ++ filename ++ "': no password on line: '" ++
      String.ofList buf ++ "'")
  | _ :: passwdp =>
    let user := buf.takeWhile (· ≠ ':')
    match passwdp.dropWhile (· ≠ ':') with
    | [] => .error ("auth_simple user-register '" ++ filename ++ "': no databases on line: '" ++
        String.ofList user ++ ":" ++ String.ofList passwdp ++ "'")
    | _ :: databasesp =>
      .ok (String.ofList user,
        ⟨String.ofList (passwdp.takeWhile (· ≠ ':')), splitDb databasesp⟩)

/-- A user and targets. -/
def targetLine (filename : String) (buf : List Char) : Except String (String × List String) :=
  match buf.dropWhile (· ≠ ':') with
  | [] => .error ("auth_simple target-register '" ++ filename ++ "': no targets on line: '" ++
      String.ofList buf ++ "'")
  | _ :: targetsp => .ok (String.ofList (buf.takeWhile (· ≠ ':')), splitDb targetsp)

/-- What has been made of a line. -/
inductive LineRead (ν : Type) where
  | skipped
  | entry (user : String) (value : ν)
  /-- `die`. -/
  | refused (message : String)
deriving DecidableEq, Repr

variable {ν : Type}

def LineRead.dies : LineRead ν → Bool
  | .refused _ => true
  | _ => false

/-- The body of the two loops. -/
def readLine (parse : List Char → Except String (String × ν)) (buf : List Char) : LineRead ν :=
  let line := cString buf
  if line = [] ∨ line.head? = some '#' then .skipped
  else
    match parse line with
    | .ok (user, value) => .entry user value
    | .error message => .refused message

def registerLoop (parse : List Char → Except String (String × ν)) (fuel : Nat) (fp : IStream) :
    Option (List (LineRead ν)) :=
  fp.each bufSize (readLine parse) (fun buf => (readLine parse buf).dies) fuel

/-- The entries in the order of the lines. -/
def enter : Table String ν → List (LineRead ν) → Except String (Table String ν)
  | register, [] => .ok register
  | register, .skipped :: reads => enter register reads
  | register, .entry user value :: reads => enter (register.insert user value) reads
  | _, .refused message :: _ => .error message

/-- `none` for a file that cannot be opened. -/
def configRegister (parse : List Char → Except String (String × ν)) (filename : String)
    (fuel : Nat) (register : Table String ν) (file : Option (List Char)) :
    Option (Except String (Table String ν)) :=
  match file with
  | none => some (.error ("Could not open " ++ filename))
  | some text => (registerLoop parse fuel (IStream.new text)).map (enter register)

def configUserRegister (filename : String) (fuel : Nat) (rep : Rep) (file : Option (List Char)) :
    Option (Except String Rep) :=
  (configRegister (userLine filename) filename fuel rep.userRegister file).map
    (·.map fun userRegister => { rep with userRegister })

def configTargetRegister (filename : String) (fuel : Nat) (rep : Rep) (file : Option (List Char)) :
    Option (Except String Rep) :=
  (configRegister (targetLine filename) filename fuel rep.targetsByUser file).map
    (·.map fun targetsByUser => { rep with targetsByUser })

/-! ## Whole lines -/

/-- What is read of a line. -/
def shown (line : List Char) : List Char := line.take (bufSize - 1)

/-- Every line has been parsed whole, skipped as blank or comment, or it is reported as an error
and is the last that is looked at. -/
inductive Accounts (parse : List Char → Except String (String × ν)) :
    List (List Char) → List (LineRead ν) → Prop where
  | nil : Accounts parse [] []
  | skipped {line : List Char} {lines : List (List Char)} {reads : List (LineRead ν)} :
      line = [] ∨ line.head? = some '#' → Accounts parse lines reads →
        Accounts parse (line :: lines) (.skipped :: reads)
  | entry {line : List Char} {lines : List (List Char)} {reads : List (LineRead ν)}
      {user : String} {value : ν} :
      parse line = .ok (user, value) → Accounts parse lines reads →
        Accounts parse (line :: lines) (.entry user value :: reads)
  | refused {line part : List Char} {lines : List (List Char)} {message : String} :
      part <+: line → parse part = .error message →
        Accounts parse (line :: lines) [.refused message]

/-- The loop ends and accounts for all lines. -/
def RegisterWhole (parse : List Char → Except String (String × ν)) (text : List Char) : Prop :=
  ∃ fuel reads, registerLoop parse fuel (IStream.new text) = some reads ∧
    Accounts parse (text.splitOn '\n') reads

/-- What is read of the line is reported as an error. -/
def Refused (parse : List Char → Except String (String × ν)) (line : List Char) : Prop :=
  (readLine parse (shown line)).dies = true

/-- A line that fits the buffer and has a NUL at most in a comment. -/
def Plain (line : List Char) : Prop :=
  line.length ≤ 999 ∧ ('\x00' ∉ line ∨ line.head? = some '#')

/-- Up to the first line that is refused all lines are plain. -/
def AllPlain (parse : List Char → Except String (String × ν)) (lines : List (List Char)) : Prop :=
  ∀ before line after, lines = before ++ line :: after →
    (∀ l ∈ before, ¬ Refused parse l) → Refused parse line ∨ Plain line

variable {parse : List Char → Except String (String × ν)}

theorem allPlain_nil : AllPlain parse [] := by
  intro before line after h
  simp at h

theorem allPlain_cons_iff {line : List Char} {lines : List (List Char)} :
    AllPlain parse (line :: lines) ↔
      Refused parse line ∨ (Plain line ∧ AllPlain parse lines) := by
  constructor
  · intro h
    by_cases hrefused : Refused parse line
    · exact .inl hrefused
    · refine .inr ⟨(h [] line lines rfl fun l hl => absurd hl List.not_mem_nil).resolve_left
        hrefused, fun before l after heq hbefore => ?_⟩
      rw [heq] at h
      exact h (line :: before) l after rfl (List.forall_mem_cons.mpr ⟨hrefused, hbefore⟩)
  · rintro h (_ | ⟨first, before⟩) l after heq hbefore
    · cases heq
      exact h.imp_right And.left
    · obtain ⟨rfl, hlines⟩ := List.cons.inj heq
      rcases h with h | ⟨-, h⟩
      · exact absurd h (hbefore _ List.mem_cons_self)
      · exact h before l after hlines fun l hl => hbefore l (List.mem_cons_of_mem _ hl)

theorem head?_cString {line : List Char} (h : line.head? = some '#') :
    (cString line).head? = some '#' := by
  cases line with
  | nil => cases h
  | cons c line =>
    cases h
    rw [cString, List.takeWhile_cons_of_pos (by decide)]
    rfl

theorem readLine_comment {line : List Char} (h : line.head? = some '#') :
    readLine parse line = .skipped :=
  if_pos (.inr (head?_cString h))

theorem readLine_eq_entry {buf : List Char} {user : String} {value : ν}
    (h : readLine parse buf = .entry user value) : parse (cString buf) = .ok (user, value) := by
  rw [readLine] at h
  split at h
  · cases h
  · split at h
    · next user' value' hok =>
      cases h
      exact hok
    · cases h

theorem readLine_eq_refused {buf : List Char} {message : String}
    (h : readLine parse buf = .refused message) : parse (cString buf) = .error message := by
  rw [readLine] at h
  split at h
  · cases h
  · split at h
    · cases h
    · next message' herror =>
      cases h
      exact herror

/-- A line that is parsed can be told from what has been made of it. -/
def Injective (parse : List Char → Except String (String × ν)) : Prop :=
  ∀ line line' entry, parse line = .ok entry → parse line' = .ok entry → line = line'

/-- One line of the run. -/
theorem accounts_cons_iff (hinj : Injective parse) {line : List Char} {lines : List (List Char)}
    {reads : List (LineRead ν)} (hdies : (readLine parse line).dies = false) :
    Accounts parse (line :: lines) (readLine parse line :: reads) ↔
      ('\x00' ∉ line ∨ line.head? = some '#') ∧ Accounts parse lines reads := by
  constructor
  · intro h
    generalize hread : readLine parse line = r at h
    cases h with
    | skipped hskip hrest =>
      refine ⟨hskip.imp_left ?_, hrest⟩
      rintro rfl
      exact List.not_mem_nil
    | entry hparse hrest =>
      have heq := hinj _ _ _ (readLine_eq_entry hread) hparse
      exact ⟨.inl (cString_eq_iff.mp heq), hrest⟩
    | refused =>
      rw [hread] at hdies
      cases hdies
  · rintro ⟨hline, hrest⟩
    by_cases hhash : line.head? = some '#'
    · rw [readLine_comment hhash]
      exact .skipped (.inr hhash) hrest
    · have hwhole := cString_eq (hline.resolve_right hhash)
      cases hread : readLine parse line with
      | skipped =>
        refine .skipped (.inl ?_) hrest
        rw [readLine, hwhole] at hread
        split at hread
        · next hskip => exact hskip.resolve_right hhash
        · split at hread <;> cases hread
      | entry user value =>
        have hparse := readLine_eq_entry hread
        rw [hwhole] at hparse
        exact .entry hparse hrest
      | refused message =>
        rw [hread] at hdies
        cases hdies

theorem accounts_refused {line : List Char} {lines : List (List Char)}
    (h : Refused parse line) : Accounts parse (line :: lines) [readLine parse (shown line)] := by
  rw [Refused] at h
  cases hread : readLine parse (shown line) with
  | skipped =>
    rw [hread] at h
    cases h
  | entry user value =>
    rw [hread] at h
    cases h
  | refused message =>
    exact .refused ((List.takeWhile_prefix _).trans (List.take_prefix _ _))
      (readLine_eq_refused hread)

/-- All lines, by the first one. -/
theorem heard_accounts_iff (hinj : Injective parse) (lines : List (List Char)) :
    (∃ reads, IStream.heard bufSize (readLine parse) (fun buf => (readLine parse buf).dies) lines =
        some reads ∧ Accounts parse lines reads) ↔ AllPlain parse lines := by
  induction lines with
  | nil => exact iff_of_true ⟨[], rfl, .nil⟩ allPlain_nil
  | cons line lines ih =>
    rw [allPlain_cons_iff, ← ih, IStream.heard]
    by_cases hrefused : Refused parse line
    · have hdies : (readLine parse (line.take (bufSize - 1))).dies = true := hrefused
      rw [if_pos hdies]
      exact iff_of_true ⟨_, rfl, accounts_refused hrefused⟩ (.inl hrefused)
    · have hgoes : ¬ (readLine parse (line.take (bufSize - 1))).dies = true := hrefused
      rw [if_neg hgoes, or_iff_right hrefused]
      by_cases hlen : line.length ≤ 999
      · have hshown : line.take (bufSize - 1) = line := List.take_of_length_le hlen
        rw [hshown, Bool.not_eq_true] at hgoes
        rw [if_pos (show line.length ≤ bufSize - 1 from hlen), hshown]
        constructor
        · rintro ⟨reads, hreads, haccounts⟩
          obtain ⟨reads', hreads', rfl⟩ := Option.map_eq_some_iff.mp hreads
          obtain ⟨hline, hrest⟩ := (accounts_cons_iff hinj hgoes).mp haccounts
          exact ⟨⟨hlen, hline⟩, reads', hreads', hrest⟩
        · rintro ⟨⟨-, hline⟩, reads, hreads, haccounts⟩
          exact ⟨_, by rw [hreads]; rfl, (accounts_cons_iff hinj hgoes).mpr ⟨hline, haccounts⟩⟩
      · rw [if_neg (show ¬ line.length ≤ bufSize - 1 from hlen)]
        constructor
        · rintro ⟨reads, hreads, -⟩
          cases hreads
        · rintro ⟨⟨hshort, -⟩, -⟩
          exact absurd hshort hlen

theorem registerWhole_iff (hinj : Injective parse) (text : List Char) :
    RegisterWhole parse text ↔ AllPlain parse (text.splitOn '\n') := by
  have hblank : (readLine parse []).dies = false := rfl
  rw [← heard_accounts_iff hinj, RegisterWhole, exists_comm]
  refine exists_congr fun reads => ?_
  rw [← IStream.each_iff_heard hblank, exists_and_right]
  rfl

/-! ## The two registers -/

theorem cut_eq {c : Char} {l rest : List Char} (h : l.dropWhile (· ≠ ':') = c :: rest) :
    l = l.takeWhile (· ≠ ':') ++ ':' :: rest := by
  have hne : l.dropWhile (· ≠ ':') ≠ [] := by
    rw [h]
    exact List.cons_ne_nil _ _
  have hc : c = ':' := by
    have hhead := List.head_dropWhile_not (fun x => decide (x ≠ ':')) hne
    simp only [h, List.head_cons] at hhead
    simpa using hhead
  conv_lhs => rw [← List.takeWhile_append_dropWhile (p := (· ≠ ':')) (l := l), h, hc]

theorem splitDb_injective : Function.Injective splitDb := by
  intro l l' h
  have hsplit := List.map_injective_iff.mpr (fun a b => String.ofList_inj.mp) h
  calc l = [','].intercalate (l.splitOn ',') := (List.intercalate_splitOn ',').symm
    _ = [','].intercalate (l'.splitOn ',') := by rw [hsplit]
    _ = l' := List.intercalate_splitOn ','

theorem targetLine_eq_ok {filename user : String} {line : List Char} {targets : List String}
    (h : targetLine filename line = .ok (user, targets)) :
    ∃ rest, line = user.toList ++ ':' :: rest ∧ splitDb rest = targets := by
  rw [targetLine] at h
  split at h
  · cases h
  · next c rest hrest =>
    cases h
    exact ⟨rest, by rw [String.toList_ofList, ← cut_eq hrest], rfl⟩

theorem userLine_eq_ok {filename user : String} {line : List Char} {pdbs : PasswordAndDBs}
    (h : userLine filename line = .ok (user, pdbs)) :
    ∃ rest, line = user.toList ++ ':' :: (pdbs.password.toList ++ ':' :: rest) ∧
      splitDb rest = pdbs.dbs := by
  rw [userLine] at h
  split at h
  · cases h
  · next c passwdp hpasswd =>
    split at h
    · cases h
    · next c' rest hrest =>
      cases h
      refine ⟨rest, ?_, rfl⟩
      rw [String.toList_ofList, String.toList_ofList, ← cut_eq hrest, ← cut_eq hpasswd]

theorem targetLine_injective (filename : String) : Injective (targetLine filename) := by
  rintro line line' ⟨user, targets⟩ h h'
  obtain ⟨rest, rfl, hrest⟩ := targetLine_eq_ok h
  obtain ⟨rest', rfl, hrest'⟩ := targetLine_eq_ok h'
  rw [splitDb_injective (hrest.trans hrest'.symm)]

theorem userLine_injective (filename : String) : Injective (userLine filename) := by
  rintro line line' ⟨user, pdbs⟩ h h'
  obtain ⟨rest, rfl, hrest⟩ := userLine_eq_ok h
  obtain ⟨rest', rfl, hrest'⟩ := userLine_eq_ok h'
  rw [splitDb_injective (hrest.trans hrest'.symm)]

/-- When the files of users, of targets and of words are read to their end. -/
theorem registers_read_iff (filename : String) (text : List Char) :
    (RegisterWhole (userLine filename) text ↔
        AllPlain (userLine filename) (text.splitOn '\n')) ∧
      (RegisterWhole (targetLine filename) text ↔
        AllPlain (targetLine filename) (text.splitOn '\n')) ∧
      (PlainFile.ReadWhole text ↔ ∀ line ∈ text.splitOn '\n', PlainFile.Fits line) :=
  ⟨registerWhole_iff (userLine_injective filename) text,
    registerWhole_iff (targetLine_injective filename) text, PlainFile.readWhole_iff text⟩

/-- A comment that is too long for both buffers. -/
def longComment : List Char := List.replicate 1000 '#'

theorem splitOn_longComment : longComment.splitOn '\n' = [longComment] :=
  List.splitOn_eq_singleton fun h => absurd (List.eq_of_mem_replicate h) (by decide)

theorem not_allPlain_longComment : ¬ AllPlain parse (longComment.splitOn '\n') := by
  rw [splitOn_longComment, allPlain_cons_iff]
  rintro (h | ⟨⟨hlen, -⟩, -⟩)
  · have hskip : readLine parse (shown longComment) = .skipped := readLine_comment rfl
    rw [Refused, hskip] at h
    cases h
  · rw [longComment, List.length_replicate] at hlen
    omega

/-- Behind a line that is too long none of the three comes to an end. -/
theorem not_read_longComment :
    ¬ RegisterWhole (userLine "users") longComment ∧
      ¬ RegisterWhole (targetLine "targets") longComment ∧ ¬ PlainFile.ReadWhole longComment := by
  refine ⟨fun h => ?_, fun h => ?_, fun h => ?_⟩
  · exact not_allPlain_longComment ((registerWhole_iff (userLine_injective _) _).mp h)
  · exact not_allPlain_longComment ((registerWhole_iff (targetLine_injective _) _).mp h)
  · have hfits := (PlainFile.readWhole_iff longComment).mp h longComment (by
      rw [splitOn_longComment]
      exact List.mem_singleton_self _)
    have hlen := hfits.1
    rw [longComment, List.length_replicate] at hlen
    omega

end AuthSimple
end Metaproxy
