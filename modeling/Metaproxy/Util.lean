import Mathlib.Data.List.SplitOn

/-!
# Util

What the filters share from `util.cpp`, and the BIB-1 diagnostics they answer with.
-/

namespace Metaproxy

inductive Bib1 where
  | temporarySystemError
  | unspecifiedError
  | malformedQuery
  | unsuppSearch
  | systemErrorInPresentingRecords
  | presentRequestOutOfRange
  | resultSetExistsAndReplaceIndicatorOff
  | combiOfSpecifiedDatabasesUnsupp
  | specifiedResultSetDoesNotExist
  | queryTypeUnsupp
  | tooManyDatabasesSpecified
  | unsuppUseAttribute
  | illegalSortRelation
  | presentCompSpecParameterUnsupp
  | proxyFailure
  | databaseDoesNotExist
  | accessToSpecifiedDatabaseDenied
  | onlyASingleElementSetNameSupported
  | specifiedElementSetNameNotValid
  | recordSyntaxUnsupp
  | initAcAuthenticationSystemError
  | initAcBadUseridAndOrPassword
  | initAcBlockedNetworkAddress
  | initNegotiationOptionRequired
  /-- A condition taken over from a target. -/
  | target (condition : Int)
deriving DecidableEq, Repr

namespace Util

def databaseNameNormalize (s : String) : String :=
  String.ofList (s.toList.map fun ch =>
    if 'A' ≤ ch ∧ ch ≤ 'Z' then Char.ofNat (ch.toNat + 'a'.toNat - 'A'.toNat) else ch)

/-- Same databases in the same order, up to ASCII case. -/
def match_ : List String → List String → Bool
  | [], [] => true
  | s1 :: db1, s2 :: db2 =>
    if databaseNameNormalize s1 = databaseNameNormalize s2 then match_ db1 db2 else false
  | _, _ => false

theorem match_iff {db1 db2 : List String} :
    match_ db1 db2 = true ↔
      db1.map databaseNameNormalize = db2.map databaseNameNormalize := by
  induction db1 generalizing db2 with
  | nil => cases db2 <;> simp [match_]
  | cons s1 db1 ih =>
    cases db2 with
    | nil => simp [match_]
    | cons s2 db2 => by_cases h : databaseNameNormalize s1 = databaseNameNormalize s2 <;>
        simp [match_, h, ih]

theorem match_refl (db : List String) : match_ db db = true := match_iff.mpr rfl

/-- The databases of a target: what follows the host, separated by `+`. `hostArgs` is
`cs_get_host_args`. -/
def databasesFromZurl (hostArgs : String → Option String) (zurl : String) : Option (List String) :=
  match hostArgs zurl with
  | none => none
  | some args =>
    if args = "" then none else some ((args.toList.splitOn '+').map String.ofList)

/-- An `Odr_int` passed as an `int`. -/
def toInt (x : Int) : Int := x.bmod 4294967296

/-- An `Odr_int`. -/
def toOdrInt (x : Int) : Int := x.bmod 18446744073709551616

theorem toInt_eq {x : Int} (hlo : -2147483648 ≤ x) (hhi : x < 2147483648) : toInt x = x := by
  unfold toInt
  rw [Int.bmod_eq_of_le] <;> omega

theorem le_toInt (x : Int) : -2147483648 ≤ toInt x := Int.le_bmod (by decide)

theorem toInt_lt (x : Int) : toInt x < 2147483648 := Int.bmod_lt (by decide)

theorem toInt_toInt_add (x y : Int) : toInt (toInt x + y) = toInt (x + y) := Int.bmod_add_bmod

/-- An `int` that has become too large once. -/
theorem toInt_eq_sub {x : Int} (hlo : 2147483648 ≤ x) (hhi : x < 6442450944) :
    toInt x = x - 4294967296 := by
  have hwrap : toInt x = toInt (x - 4294967296) := by
    rw [toInt, toInt]
    exact (Int.sub_bmod_right x 4294967296).symm
  rw [hwrap, toInt_eq (by omega) (by omega)]

theorem toOdrInt_eq {x : Int} (hlo : -9223372036854775808 ≤ x) (hhi : x < 9223372036854775808) :
    toOdrInt x = x := by
  unfold toOdrInt
  rw [Int.bmod_eq_of_le] <;> omega

/-- How many records a search response brings along. -/
def piggyback (smallSetUpperBound largeSetLowerBound mediumSetPresentNumber resultSetSize : Int) :
    Int :=
  if resultSetSize < smallSetUpperBound then resultSetSize
  else if resultSetSize > largeSetLowerBound then 0
  else if mediumSetPresentNumber > resultSetSize then resultSetSize
  else mediumSetPresentNumber

/-- The element set name that `piggyback` picks. -/
def piggybackElementSetName (smallSetUpperBound largeSetLowerBound : Int)
    (smallSetElementSetNames mediumSetElementSetNames : Option (List Char)) (resultSetSize : Int) :
    Option (List Char) :=
  if resultSetSize < smallSetUpperBound then smallSetElementSetNames
  else if resultSetSize > largeSetLowerBound then none
  else mediumSetElementSetNames

/-- A pattern is a list of globs with blanks between them; without any it matches everything.
`matchGlob` is `yaz_match_glob`. -/
def matchIp (matchGlob : List Char → List Char → Bool) (pattern value : List Char) : Bool :=
  let globs := (pattern.splitOn ' ').filter (· ≠ [])
  let mapped := "::ffff:".toList
  globs.isEmpty || globs.any fun glob =>
    matchGlob glob value ||
      (!glob.contains ':' && mapped.isPrefixOf value && mapped.length < value.length &&
        matchGlob glob (value.drop mapped.length))

/-- The difference of the first two bytes that differ among the first `n`. -/
def memcmp : List UInt8 → List UInt8 → Nat → Int
  | x :: buf1, y :: buf2, n + 1 => if x = y then memcmp buf1 buf2 n else (x.toNat : Int) - y.toNat
  | _, _, _ => 0

def memcmp2 (buf1 buf2 : List UInt8) : Int :=
  let d := (buf1.length : Int) - buf2.length
  -- the common length first, then the remaining bytes
  let c := memcmp buf1 buf2 (if d > 0 then buf2.length else buf1.length)
  if c > 0 then 1
  else if c < 0 then -1
  else if d > 0 then 1
  else if d < 0 then -1
  else 0

theorem memcmp2_nil (y : UInt8) (buf2 : List UInt8) : memcmp2 [] (y :: buf2) = -1 := by
  have hd : ((0 : Nat) : Int) - ((y :: buf2).length : Int) < 0 := by
    rw [List.length_cons]
    omega
  simp only [memcmp2, memcmp, List.length_nil]
  rw [if_neg (by omega), if_neg (by omega), if_neg (by omega), if_pos hd]

theorem memcmp2_cons_nil (x : UInt8) (buf1 : List UInt8) : memcmp2 (x :: buf1) [] = 1 := by
  have hd : ((x :: buf1).length : Int) - ((0 : Nat) : Int) > 0 := by
    rw [List.length_cons]
    omega
  simp only [memcmp2, memcmp, List.length_nil]
  rw [if_neg (by omega), if_neg (by omega), if_pos hd]

theorem memcmp2_cons (x y : UInt8) (buf1 buf2 : List UInt8) :
    memcmp2 (x :: buf1) (y :: buf2) =
      if x = y then memcmp2 buf1 buf2 else if x < y then -1 else 1 := by
  have hlen : (if ((buf1.length + 1 : Nat) : Int) - ((buf2.length + 1 : Nat) : Int) > 0
        then buf2.length + 1 else buf1.length + 1) =
      (if (buf1.length : Int) - buf2.length > 0 then buf2.length else buf1.length) + 1 := by
    split <;> split <;> omega
  simp only [memcmp2, List.length_cons, hlen, memcmp]
  by_cases hxy : x = y
  · have hd : ((buf1.length + 1 : Nat) : Int) - ((buf2.length + 1 : Nat) : Int) =
        (buf1.length : Int) - buf2.length := by omega
    simp only [if_pos hxy, hd]
  · rw [if_neg hxy, if_neg hxy]
    have hne : x.toNat ≠ y.toNat := fun h => hxy (UInt8.toNat_inj.mp h)
    by_cases hlt : x < y
    · have : x.toNat < y.toNat := UInt8.lt_iff_toNat_lt.mp hlt
      rw [if_pos hlt, if_neg (by omega), if_pos (by omega)]
    · have : ¬ x.toNat < y.toNat := fun h => hlt (UInt8.lt_iff_toNat_lt.mpr h)
      rw [if_neg hlt, if_pos (by omega)]

/-- The bytes are compared as in a dictionary, a prefix coming first. -/
theorem memcmp2_compare (buf1 buf2 : List UInt8) :
    memcmp2 buf1 buf2 = match compare buf1 buf2 with
      | .lt => -1
      | .eq => 0
      | .gt => 1 := by
  induction buf1 generalizing buf2 with
  | nil =>
    cases buf2 with
    | nil => rfl
    | cons y buf2 => rw [memcmp2_nil, List.compare_nil_cons]
  | cons x buf1 ih =>
    cases buf2 with
    | nil => rw [memcmp2_cons_nil, List.compare_cons_nil]
    | cons y buf2 =>
      have hbyte : compare x y = if x < y then .lt else if x = y then .eq else .gt := rfl
      rw [memcmp2_cons, List.compare_cons_cons, ih buf2, hbyte]
      by_cases hxy : x = y
      · have hlt : ¬ x < y := by
          rw [hxy]
          exact UInt8.lt_irrefl y
        rw [if_pos hxy, if_neg hlt, if_pos hxy]
        rfl
      · by_cases hlt : x < y <;> simp only [hxy, hlt, if_true, if_false] <;> rfl

end Util
end Metaproxy
