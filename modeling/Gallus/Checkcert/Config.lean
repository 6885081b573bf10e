import Gallus.StrUtils.Lexeme
import Gallus.Lib.Trans

/-!
# The certificate checker (`session_checkcert.c`)

The checker reads its configuration file when a certificate is checked and the file is newer than
the last reading. A line of the file allows or denies, by regular expressions on the issuer and on
the subject; the pairs of a line are put into a hash table, copied from there into an array, and
sorted by a score.

* `Outside` is `regcomp` and `regexec`, with the pattern after the translation in `ρ`, and what
  becomes of a line that runs over the end of `tokens`: nothing is known of that.
* `Content` is the text of a file whose lines do not. The files that are read are such.
* `Serializer` is the iteration over the hash table followed by `gallus_qsort_r`: it gives the pairs
  of the table in some order that the comparison permits.
* A string that can be `NULL` is an option. Allocations succeed.
* A call of `s_check_certificates` is one step, at the time `now` in seconds.
-/

namespace Gallus
namespace Checkcert

open StrUtils

/-- `IS_VALID_STRING`. -/
def isValidString : Option (List Char) → Bool
  | some (_ :: _) => true
  | _ => false

/-- `conn_permission_t`. -/
inductive ConnPermission
  | unknown | allow | deny
  deriving DecidableEq, Repr

/-- `pattern_pair_t`. -/
structure PatternPair (ρ : Type) where
  perm : ConnPermission
  issuer : Option (List Char)
  issuerRex : Option ρ
  subject : Option (List Char)
  subjectRex : Option ρ
  cmplen : Int
  deriving DecidableEq

/-- `regcomp` and `regexec`, and what a line does that runs over the end of `tokens`. -/
structure Outside (ρ : Type) where
  regcomp : List Char → Option ρ
  regexec : ρ → List Char → Bool
  overrun : List Char → Bool → Option (PatternPair ρ) × Bool

variable {ρ : Type}

/-! ## Pairs -/

/-- `s_compile`, with `none` for an error. -/
def compile (R : Outside ρ) (pat : Option (List Char)) : Option ρ :=
  if isValidString pat then R.regcomp (pat.getD []) else none

/-- `strlen` of a pattern, as far as it is counted. -/
def patternLen (pat : Option (List Char)) : Int :=
  if isValidString pat then (pat.getD []).length else 0

/-- The offset of the deny entries. -/
def denyOffset : Int := 100000

/-- `s_create_pair`. -/
def createPair (R : Outside ρ) (perm : ConnPermission) (issuer subject : Option (List Char)) :
    Option (PatternPair ρ) :=
  if perm = .allow ∨ perm = .deny ∨ isValidString issuer ∨ isValidString subject then
    let ri := compile R issuer
    let rs := compile R subject
    if isValidString issuer ∧ ri.isNone then none
    else if isValidString subject ∧ rs.isNone then none
    else
      let cmplen := patternLen issuer + patternLen subject
      some
        { perm
          issuer := if isValidString issuer then issuer else none
          issuerRex := ri
          subject := if isValidString subject then subject else none
          subjectRex := rs
          cmplen := if perm = .deny then cmplen + denyOffset else cmplen }
  else none

/-- `regexec(rex, s) == 0`. -/
def rexMatches (R : Outside ρ) (rex : Option ρ) (s : Option (List Char)) : Bool :=
  rex.any fun r => R.regexec r (s.getD [])

/-- `s_check`. -/
def check (R : Outside ρ) (p : PatternPair ρ) (issuer subject : Option (List Char)) :
    ConnPermission :=
  if isValidString p.issuer ∧ isValidString p.subject then
    if isValidString issuer ∧ isValidString subject then
      if rexMatches R p.issuerRex issuer ∧ rexMatches R p.subjectRex subject then p.perm
      else .unknown
    else .unknown
  else if isValidString p.issuer then
    if isValidString issuer then
      if rexMatches R p.issuerRex issuer then p.perm else .unknown
    else .unknown
  else if isValidString p.subject then
    if isValidString subject then
      if rexMatches R p.subjectRex subject then p.perm else .unknown
    else .unknown
  else .unknown

/-- `s_cmp_proc`. -/
def cmpProc (p₀ p₁ : PatternPair ρ) : Int := p₁.cmplen - p₀.cmplen

/-- The order in which the pairs of the hash table come into the sorted array. -/
structure Serializer (ρ : Type) where
  pats : List (PatternPair ρ) → List (PatternPair ρ)
  perm : ∀ tbl, (pats tbl).Perm tbl
  sorted : ∀ tbl, (pats tbl).Pairwise fun p₀ p₁ => cmpProc p₀ p₁ ≤ 0

/-! ## Lines -/

/-- What the loop of `s_parse_line` writes: `s_allow_selfsigned` and three variables. -/
structure LineVars where
  allowSelfsigned : Bool
  issuer : Option (List Char)
  subject : Option (List Char)
  doCreate : Bool

/-- The quotes. -/
def quotes : List Char := ['"', '\'']

/-- The white space between the words. -/
def delimiters : List Char := ['\t', '\r', '\n', ' ']

/-- The loop of `s_parse_line` over the words behind the permission: whether it came to the end. -/
def parseWords (perm : ConnPermission) : LineVars → List (List Char) → LineVars × Bool
  | v, [] => (v, true)
  | v, tp :: words =>
    if strcasecmpEq tp "self-signed".toList ∨ strcasecmpEq tp "selfsigned".toList then
      parseWords perm { v with allowSelfsigned := decide (perm = .allow) } words
    else if strcasecmpEq tp "issuer".toList then
      if isValidString v.issuer = false then
        match words with
        | [] => (v, false)
        | tp :: words =>
          if isValidString (some tp) then
            let (n, issuer) := strUnescape tp quotes v.issuer
            if 0 < n then parseWords perm { v with issuer, doCreate := true } words
            else ({ v with issuer }, false)
          else (v, false)
      else (v, false)
    else if strcasecmpEq tp "subject".toList then
      if isValidString v.subject = false then
        match words with
        | [] => (v, false)
        | tp :: words =>
          if isValidString (some tp) then
            let (n, subject) := strUnescape tp quotes v.subject
            if 0 < n then parseWords perm { v with subject, doCreate := true } words
            else ({ v with subject }, false)
          else (v, false)
      else (v, false)
    else (v, false)

/-- The permission of a line. -/
def permission (tp : List Char) : ConnPermission :=
  if strcasecmpEq tp "allow".toList then .allow
  else if strcasecmpEq tp "deny".toList then .deny
  else .unknown

/-- The first `n` tokens. -/
def tokenList (t : Tokens) (n : Result) : List (List Char) :=
  (List.range n.toNat).map fun i => (t.get i).getD []

/-- The size of `tokens` in `s_parse_line`. -/
def tokensSize : Nat := 16

/-- The words and quoted texts of the line are no more than `tokens` has elements. -/
def LineFits (line : List Char) : Prop := (lexemes line delimiters quotes).length ≤ tokensSize

instance (line : List Char) : Decidable (LineFits line) := inferInstanceAs (Decidable (_ ≤ _))

/-- `s_parse_line`: the pair, and `s_allow_selfsigned` after the call. -/
def parseLine (R : Outside ρ) (line : List Char) (allowSelfsigned : Bool) :
    Option (PatternPair ρ) × Bool :=
  if line = [] then (none, allowSelfsigned)
  else if ¬LineFits line then R.overrun line allowSelfsigned
  else
    let (n, t) := strTokenizeQuote line 1024 delimiters quotes
    if 0 < n ∧ n < 16 then
      match tokenList t n with
      | [] => (none, allowSelfsigned)
      | tp :: words =>
        if tp.head? ≠ some '#' ∧ 1 < n ∧ permission tp ≠ .unknown then
          let (v, isok) := parseWords (permission tp) ⟨allowSelfsigned, none, none, false⟩ words
          (if isok ∧ v.doCreate then createPair R (permission tp) v.issuer v.subject else none,
            v.allowSelfsigned)
        else (none, allowSelfsigned)
    else (none, allowSelfsigned)

/-! ## The file -/

/-- `sizeof(buf)` of `s_load_config`. -/
def bufSize : Nat := 4096

/-- The pieces of a file that `fgets` reads, with `piece` the current one in reverse order. -/
def fgetsLoop (piece : List Char) : List Char → List (List Char)
  | [] => if piece = [] then [] else [piece.reverse]
  | c :: content =>
    if c = '\n' ∨ bufSize - 1 ≤ piece.length + 1 then (c :: piece).reverse :: fgetsLoop [] content
    else fgetsLoop (c :: piece) content

/-- A piece as a string, which ends at a NUL. -/
def cString (buf : List Char) : List Char := buf.takeWhile (· ≠ '\x00')

/-- A piece that is parsed fits into `tokens`. -/
def PieceFits (buf : List Char) : Prop :=
  (cString buf).length < bufSize - 1 → LineFits (cString buf)

instance (buf : List Char) : Decidable (PieceFits buf) := inferInstanceAs (Decidable (_ → _))

/-- The text of a file, whose lines fit. -/
structure Content where
  text : List Char
  fits : ∀ buf ∈ fgetsLoop [] text, PieceFits buf
  deriving DecidableEq

/-- The body of the loop over the pieces. -/
def loadLine (R : Outside ρ) (st : List (PatternPair ρ) × Bool) (buf : List Char) :
    List (PatternPair ρ) × Bool :=
  if bufSize - 1 ≤ (cString buf).length then st
  else
    let (p, allowSelfsigned) := parseLine R (cString buf) st.2
    (st.1 ++ p.toList, allowSelfsigned)

/-- What `stat` and `fopen` say about a file: its time, and its content if it can be opened. -/
structure File where
  mtime : Int
  content : Option Content
  deriving DecidableEq

/-- The variables of the checker. -/
structure Checker (ρ : Type) where
  patTbl : List (PatternPair ρ)
  pats : Option (List (PatternPair ρ))
  nPats : Nat
  filename : List Char
  lastOpen : Int
  allowSelfsigned : Bool

/-- `s_unload_config`. -/
def unloadConfig (c : Checker ρ) : Checker ρ := { c with patTbl := [], pats := none, nPats := 0 }

/-- `s_get_mtime`. -/
def getMtime (file : Option File) : Int := (file.map File.mtime).getD 0

/-- The content that can be read from a file. -/
def readable (file : Option File) : Option Content :=
  if getMtime file = 0 then none else file.bind File.content

/-- The loop of `s_load_config`. -/
def readLines (R : Outside ρ) (content : Content) (c : Checker ρ) : Checker ρ :=
  let st := (fgetsLoop [] content.text).foldl (loadLine R) (c.patTbl, c.allowSelfsigned)
  { c with patTbl := st.1, allowSelfsigned := st.2 }

/-- `s_serialize_pairs`, into `s_pats` and `s_n_pats`. -/
def serializePairs (o : Serializer ρ) (c : Checker ρ) : Checker ρ :=
  if 0 < c.patTbl.length then
    { c with pats := some (o.pats c.patTbl), nPats := c.patTbl.length }
  else { c with pats := none, nPats := 0 }

/-- Whether `s_load_config` opens the file. -/
def opens (c : Checker ρ) (file : Option File) : Prop :=
  0 < getMtime file ∧ ((c.pats = none ∨ c.lastOpen = 0) ∨ c.lastOpen < getMtime file)

instance (c : Checker ρ) (file : Option File) : Decidable (opens c file) :=
  haveI : Decidable (c.pats = none) :=
    decidable_of_iff (c.pats.isNone = true) Option.isNone_iff_eq_none
  inferInstanceAs (Decidable (_ ∧ ((_ ∨ _) ∨ _)))

/-- `s_load_config`. -/
def loadConfig (R : Outside ρ) (o : Serializer ρ) (file : Option File) (now : Int) (c : Checker ρ) :
    Checker ρ × Result :=
  let (c, ret) :=
    if isValidString (some c.filename) then
      if opens c file then
        match file.bind File.content with
        | some content =>
          let c := serializePairs o (readLines R content (unloadConfig c))
          if c.pats.isSome then ({ c with lastOpen := now }, Result.ok) else (c, Result.noMemory)
        | none => (c, Result.notFound)
      else if getMtime file = 0 then (c, Result.notFound)
      else (c, Result.ok)
    else (c, Result.invalidArgs)
  (if ret ≠ Result.ok then unloadConfig c else c, ret)

/-- The scan of `s_check_certificates` over the sorted array. -/
def scanPats (R : Outside ρ) (issuer subject : Option (List Char)) :
    List (PatternPair ρ) → Result
  | [] => Result.notAllowed
  | p :: pats =>
    match check R p issuer subject with
    | .unknown => scanPats R issuer subject pats
    | .allow => Result.ok
    | .deny => Result.notAllowed

/-- The loading part of `s_check_certificates`. -/
def loadPart (R : Outside ρ) (o : Serializer ρ) (file : Option File) (now : Int) (c : Checker ρ) :
    Checker ρ × Result :=
  if isValidString (some c.filename) then
    let (c, ret) := loadConfig R o file now c
    (if ret ≠ Result.ok then { c with allowSelfsigned := false } else c, ret)
  else (c, Result.anyFailures)

/-- What `s_check_certificates` decides after the loading part, which returned `ret`. -/
def decidePart (R : Outside ρ) (c : Checker ρ) (ret : Result)
    (issuer subject : Option (List Char)) : Result :=
  let isSelfsigned := isValidString issuer && isValidString subject && issuer == subject
  if c.allowSelfsigned = false ∧ isSelfsigned = true then Result.notAllowed
  else if ret = Result.ok then
    match c.pats with
    | some pats => scanPats R issuer subject (pats.take c.nPats)
    | none => Result.notAllowed
  else ret

/-- `s_check_certificates`. -/
def checkCertificates (R : Outside ρ) (o : Serializer ρ) (file : Option File) (now : Int)
    (c : Checker ρ) (issuer subject : Option (List Char)) : Checker ρ × Result :=
  if isValidString issuer ∨ isValidString subject then
    let (c, ret) := loadPart R o file now c
    (c, decidePart R c ret issuer subject)
  else (c, Result.invalidArgs)

/-- `s_check_certificates_set_config_file`. -/
def setConfigFile (filename : List Char) (c : Checker ρ) : Checker ρ :=
  { c with filename, lastOpen := 0 }

/-! ## Runs -/

/-- The checker and the files. -/
structure System (ρ : Type) where
  checker : Checker ρ
  files : List Char → Option File
  /-- The checker has not looked at its file since the last change of it. -/
  stale : Bool
  /-- The contents the checker has read, the latest first, with `none` where there was no file to
  read. -/
  loads : List (Option Content)

/-- What happens to the files and the checker. -/
inductive Event (ρ : Type)
  | setConfigFile (filename : List Char)
  /-- A file is written, or removed. -/
  | write (filename : List Char) (file : Option File)
  | check (o : Serializer ρ) (now : Int) (issuer subject : Option (List Char))

namespace System

/-- The file of the checker. -/
def file (s : System ρ) : Option File := s.files s.checker.filename

/-- The content that the checker can read now. -/
def content (s : System ρ) : Option Content := readable s.file

/-- Whether a loading part looks at the file. -/
def looks (s : System ρ) : Prop :=
  isValidString (some s.checker.filename) = true ∧ (getMtime s.file = 0 ∨ opens s.checker s.file)

instance (s : System ρ) : Decidable s.looks := inferInstanceAs (Decidable (_ ∧ (_ ∨ _)))

end System

def step (R : Outside ρ) (s : System ρ) : Event ρ → Option (System ρ)
  | .setConfigFile filename =>
    some { s with checker := setConfigFile filename s.checker, stale := true }
  | .write filename file =>
    some
      { s with
        files := Function.update s.files filename file
        stale := s.stale || decide (filename = s.checker.filename) }
  | .check o now issuer subject =>
    if isValidString issuer ∨ isValidString subject then
      some
        { s with
          checker := (checkCertificates R o s.file now s.checker issuer subject).1
          stale := s.stale && !decide s.looks
          loads := if s.looks then s.content :: s.loads else s.loads }
    else some s

/-- At the start the checker knows no file. -/
def System.init (files : List Char → Option File) : System ρ where
  checker :=
    { patTbl := [], pats := none, nPats := 0, filename := [], lastOpen := 0
      allowSelfsigned := false }
  files := files
  stale := true
  loads := []

end Checkcert
end Gallus
