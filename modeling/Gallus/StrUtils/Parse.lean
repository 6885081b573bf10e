import Gallus.Basic
import Mathlib.Data.List.DropRight

/-!
# The number parsers (`strutils.c`)

A NUL-terminated buffer is the list of its characters before the NUL, so that writing a NUL cuts
the list. Allocations succeed, and `mpz_get_si` and `mpz_get_ui` are those of a 64-bit platform.

* `Gmp` is the library: `mpz_init_set_str`, which accepts at least the strings of digits and gives
  their value. The other functions of the library are those of the integers.
* Each `strParse…` takes the value `*val` holds before the call and returns the one it holds
  after it.
-/

namespace Gallus
namespace StrUtils

/-! ## Characters -/

/-- `isspace` of the C locale. -/
def isspace (c : Char) : Bool :=
  c.toNat == 32 || (9 ≤ c.toNat && c.toNat ≤ 13)

/-- `skip_spaces`. -/
def skipSpaces (str : List Char) : List Char := str.dropWhile isspace

/-- `trim_spaces` from the end of the string. -/
def trimSpaces (str : List Char) : List Char := str.rdropWhile isspace

/-- `tolower` of the C locale. -/
def tolower (c : Char) : Nat :=
  if 'A'.toNat ≤ c.toNat ∧ c.toNat ≤ 'Z'.toNat then c.toNat + 32 else c.toNat

/-- `strncasecmp(str, p, n) == 0`. -/
def strncasecmpEq (str p : List Char) (n : Nat) : Bool :=
  (str.take n).map tolower == (p.take n).map tolower

/-- The value of a digit. -/
def digitVal (c : Char) : Option Nat :=
  if '0'.toNat ≤ c.toNat ∧ c.toNat ≤ '9'.toNat then some (c.toNat - '0'.toNat)
  else if 'a'.toNat ≤ c.toNat ∧ c.toNat ≤ 'f'.toNat then some (c.toNat - 'a'.toNat + 10)
  else if 'A'.toNat ≤ c.toNat ∧ c.toNat ≤ 'F'.toNat then some (c.toNat - 'A'.toNat + 10)
  else none

/-- `c` is a digit of the base. -/
def isDigit (base : Nat) (c : Char) : Bool := (digitVal c).any fun d => decide (d < base)

/-- The value of a string of digits. -/
def digitsVal (base : Nat) (digits : List Char) : Nat :=
  digits.foldl (fun n c => n * base + (digitVal c).getD 0) 0

/-! ## The library -/

/-- The integer library, as the parsers use it: `setStr digits base` is `mpz_init_set_str`, with
`none` for a result other than `0`. -/
structure Gmp where
  setStr : List Char → Nat → Option Int
  setStr_digits : ∀ {base : Nat} {digits : List Char}, 2 ≤ base → base ≤ 16 → digits ≠ [] →
    (∀ c ∈ digits, isDigit base c) → setStr digits base = some (digitsVal base digits : Int)

/-- `mpz_get_ui`: the low 64 bits of the absolute value. -/
def mpzGetUi (v : Int) : Int := (v.natAbs % 2 ^ 64 : Nat)

/-- `mpz_get_si`: the value if it is a `long`, else its low 63 bits with its sign. -/
def mpzGetSi (v : Int) : Int :=
  if -2 ^ 63 ≤ v ∧ v < 2 ^ 63 then v else v.sign * (v.natAbs % 2 ^ 63 : Nat)

/-! ## Unit letters -/

/-- The letters of `s_get_prefix_multiplier`. -/
inductive UnitLetter
  | k | m | g | t | p | x | z | y
  deriving DecidableEq, Repr

/-- The `switch` of `s_get_prefix_multiplier`. -/
def unitLetter : Char → Option UnitLetter
  | 'K' | 'k' => some .k
  | 'M' | 'm' => some .m
  | 'G' | 'g' => some .g
  | 'T' | 't' => some .t
  | 'P' | 'p' => some .p
  | 'X' | 'x' => some .x
  | 'Z' | 'z' => some .z
  | 'Y' | 'y' => some .y
  | _ => none

/-- `s_mult[i]`: `1000`, multiplied `i` times by `s_mult[0]`. -/
def mult (i : Nat) : Int := (List.range i).foldl (fun m _ => m * 1000) 1000

/-- `s_mult_i[i]`. -/
def multI (i : Nat) : Int := (List.range i).foldl (fun m _ => m * 1024) 1024

/-- `s_mult_tbl`. The key `"k"` is `(k, false)`, the key `"ki"` is `(k, true)`. -/
def multTbl : List ((UnitLetter × Bool) × Int) :=
  [((.k, false), mult 0), ((.k, true), multI 0),
   ((.m, false), mult 1), ((.m, true), multI 1),
   ((.g, false), mult 2), ((.g, true), multI 2),
   ((.t, false), mult 3), ((.t, true), multI 3),
   ((.p, false), mult 4), ((.p, true), multI 4),
   ((.x, false), mult 5), ((.x, true), multI 5),
   ((.z, false), mult 6), ((.z, true), multI 6),
   ((.y, false), mult 7), ((.y, true), multI 7)]

/-- The second half of `s_get_prefix_multiplier`, after the `i`: the rest of the buffer and the
multiplier, `none` for `NULL`. A key that is not in the table, at which the source exits, does not
occur. -/
def cutUnit (str : List Char) (gotI : Bool) : List Char × Option Int :=
  if str.length < 1 then (str, none)
  else
    let lC := str.length - 1
    let str := trimSpaces str
    let key := unitLetter (str.getD lC '\x00')
    let str := if key.isSome then trimSpaces (str.take lC) else str
    if str.length < 1 then (str, none)
    else
      match key with
      | some letter => (str, multTbl.lookup (letter, gotI))
      | none => (str, some 1)

/-- `s_get_prefix_multiplier`. -/
def getPrefixMultiplier (str : List Char) : List Char × Option Int :=
  if str.length < 1 then (str, none)
  else
    let str := trimSpaces str
    if str.length < 1 then (str, none)
    else
      let len := str.length - 1
      let last := str.getD len '\x00'
      if last = 'i' ∨ last = 'I' then
        if len < 1 then (str, none)
        else cutUnit (trimSpaces (str.take len)) true
      else cutUnit str false

/-! ## Big integers -/

/-- The optional sign both levels of the parser read: whether it is a minus, and the rest. -/
def getSign : List Char → Bool × List Char
  | '-' :: str => (true, str)
  | '+' :: str => (false, str)
  | str => (false, str)

/-- `s_parse_bigint_by_base`. -/
def parseBigintByBase (gmp : Gmp) (str : List Char) (base : Nat) : Option Int :=
  let (isNeg, str) := getSign (skipSpaces str)
  let str := skipSpaces str
  if str ≠ [] then
    let (buf, mul) := getPrefixMultiplier (trimSpaces str)
    match mul with
    | some mul =>
      (gmp.setStr buf base).map fun tmp => if isNeg then -(tmp * mul) else tmp * mul
    | none => none
  else none

/-- The base prefix `s_parse_bigint` takes: the base and the rest. -/
def getBase (str : List Char) : Nat × List Char :=
  if strncasecmpEq str ['0', 'x'] 2 || strncasecmpEq str ['\\', 'x'] 2 then (16, str.drop 2)
  else if strncasecmpEq str ['\\', '0'] 2 then (8, str.drop 2)
  else if strncasecmpEq str ['\\', 'b'] 2 then (2, str.drop 2)
  else if str.head? = some 'H' ∨ str.head? = some 'h' then (16, str.drop 1)
  else if str.head? = some 'B' ∨ str.head? = some 'b' then (2, str.drop 1)
  else (10, str)

/-- `s_parse_bigint`. -/
def parseBigint (gmp : Gmp) (str : List Char) : Option Int :=
  let (isNeg, str) := getSign (skipSpaces str)
  let (base, str) := getBase (skipSpaces str)
  let str := skipSpaces str
  if str ≠ [] then
    (parseBigintByBase gmp str base).map fun v => if isNeg then -v else v
  else none

/-- `s_parse_bigint_in_range` and `s_parse_bigint_by_base_in_range`, of what the parser gave. -/
def inRange (v : Option Int) (lower upper : Int) : Result × Int :=
  match v with
  | some v => (if lower ≤ v ∧ v ≤ upper then Result.ok else Result.outOfRange, v)
  | none => (Result.invalidArgs, 0)

/-! ## The parsers -/

/-- `(intN_t)` of a value. -/
def intN (bits : Nat) (v : Int) : Int := v.bmod (2 ^ bits)

/-- `(uintN_t)` of a value. -/
def uintN (bits : Nat) (v : Int) : Int := v % 2 ^ bits

/-- The common body of the parsers, with the range and the store of one. -/
def strParse (gmp : Gmp) (lower upper : Int) (store : Int → Int) (buf : List Char) (val : Int) :
    Result × Int :=
  if buf ≠ [] then
    let (ret, v) := inRange (parseBigint gmp buf) lower upper
    if ret = Result.ok then (ret, store v) else (ret, val)
  else (Result.anyFailures, val)

/-- The common body of the `_by_base` forms. -/
def strParseByBase (gmp : Gmp) (lower upper : Int) (store : Int → Int) (buf : List Char)
    (val : Int) (base : Nat) : Result × Int :=
  if buf ≠ [] ∧ 1 < base then
    let (ret, v) := inRange (parseBigintByBase gmp buf base) lower upper
    if ret = Result.ok then (ret, store v) else (ret, val)
  else (Result.anyFailures, val)

def shrtMin : Int := -2 ^ 15
def shrtMax : Int := 2 ^ 15 - 1
def ushrtMax : Int := 2 ^ 16 - 1
def intMin : Int := -2 ^ 31
def intMax : Int := 2 ^ 31 - 1
def uintMax : Int := 2 ^ 32 - 1
def llongMin : Int := -2 ^ 63
def llongMax : Int := 2 ^ 63 - 1
def ullongMax : Int := 2 ^ 64 - 1

/-- `gallus_str_parse_int16`. -/
def strParseInt16 (gmp : Gmp) : List Char → Int → Result × Int :=
  strParse gmp shrtMin shrtMax fun v => intN 16 (mpzGetSi v)

/-- `gallus_str_parse_uint16`. -/
def strParseUint16 (gmp : Gmp) : List Char → Int → Result × Int :=
  strParse gmp 0 ushrtMax fun v => uintN 16 (mpzGetUi v)

/-- `gallus_str_parse_int32`. -/
def strParseInt32 (gmp : Gmp) : List Char → Int → Result × Int :=
  strParse gmp intMin intMax fun v => intN 32 (mpzGetSi v)

/-- `gallus_str_parse_uint32`. -/
def strParseUint32 (gmp : Gmp) : List Char → Int → Result × Int :=
  strParse gmp 0 uintMax fun v => uintN 32 (mpzGetUi v)

/-- `gallus_str_parse_int64`. -/
def strParseInt64 (gmp : Gmp) : List Char → Int → Result × Int :=
  strParse gmp llongMin llongMax mpzGetSi

/-- `gallus_str_parse_uint64`. -/
def strParseUint64 (gmp : Gmp) : List Char → Int → Result × Int :=
  strParse gmp 0 ullongMax mpzGetUi

/-- `gallus_str_parse_int16_by_base`. -/
def strParseInt16ByBase (gmp : Gmp) : List Char → Int → Nat → Result × Int :=
  strParseByBase gmp shrtMin shrtMax fun v => intN 16 (mpzGetSi v)

/-- `gallus_str_parse_uint16_by_base`. -/
def strParseUint16ByBase (gmp : Gmp) : List Char → Int → Nat → Result × Int :=
  strParseByBase gmp 0 ushrtMax fun v => uintN 16 (mpzGetUi v)

/-- `gallus_str_parse_int32_by_base`. -/
def strParseInt32ByBase (gmp : Gmp) : List Char → Int → Nat → Result × Int :=
  strParseByBase gmp intMin intMax fun v => intN 32 (mpzGetSi v)

/-- `gallus_str_parse_uint32_by_base`. -/
def strParseUint32ByBase (gmp : Gmp) : List Char → Int → Nat → Result × Int :=
  strParseByBase gmp 0 uintMax fun v => uintN 32 (mpzGetUi v)

/-- `gallus_str_parse_int64_by_base`. -/
def strParseInt64ByBase (gmp : Gmp) : List Char → Int → Nat → Result × Int :=
  strParseByBase gmp llongMin llongMax mpzGetSi

/-- `gallus_str_parse_uint64_by_base`. -/
def strParseUint64ByBase (gmp : Gmp) : List Char → Int → Nat → Result × Int :=
  strParseByBase gmp 0 ullongMax mpzGetUi

end StrUtils
end Gallus
