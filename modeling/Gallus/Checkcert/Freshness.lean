import Gallus.Checkcert.Verdict

/-!
# Modifications of the configuration file (`session_checkcert.c`)

`s_load_config` reads the file again if its time is later than `s_last_open`, which is the time at
some moment after the last reading. Both are in whole seconds.

* `Disk`: a file with the second of its last modification, and whether it can be opened. `Site`: the
  files, the checker with the call in progress, and a clock that does not go back.
* `Site.stat`, `Site.read`, `Site.stamp`: the steps of a call under `s_lock`. Files are modified
  between them as well; the lines of a file are read at one moment. `alone_eq_loadPart`: without a
  modification in between they are the loading part of `s_check_certificates`.
* `usedPairs`: the pairs that a call goes over, as they are when it gives the lock back. `UsesFile`:
  they are those of the file.
* `Tracks`: what the array has come from.
* `usesFile_iff`: the calls use the pairs of the file exactly if none of them comes after a
  modification that was made after the last reading, but not after the second of `s_last_open`, and
  has changed the pairs (`Seen`).
-/

namespace Gallus
namespace Checkcert

variable {ρ : Type}

/-- A file. -/
structure Disk where
  mtime : Int
  content : Content
  readable : Bool
  deriving DecidableEq

/-- What `stat` and `fopen` say of it. -/
def Disk.file (d : Disk) : File := ⟨d.mtime, if d.readable = true then some d.content else none⟩

/-- Where the call that has `s_lock` is. -/
inductive Stage
  /-- There is none. -/
  | idle
  /-- Before `fopen`. -/
  | opening
  /-- Before `s_last_open` is set. -/
  | stamping
  deriving DecidableEq

/-- The checker, the files and the clock. -/
structure Site (ρ : Type) where
  checker : Checker ρ
  stage : Stage
  disk : List Char → Option Disk
  clock : Int
  /-- The content that has been read last. -/
  loaded : Content
  /-- The file of the checker has been modified since. -/
  changed : Bool

/-- What happens in a second. -/
inductive Happening (ρ : Type)
  | modify (filename : List Char) (content : Content) (readable : Bool)
  | remove (filename : List Char)
  /-- `chmod`, which is no modification. -/
  | permit (filename : List Char) (readable : Bool)
  | setConfigFile (filename : List Char)
  /-- A call begins, and looks at the time of the file. -/
  | check (issuer subject : Option (List Char))
  /-- It reads the file. -/
  | read (o : Serializer ρ)
  /-- It takes the time. -/
  | stamp

namespace Site

def start (disk : List Char → Option Disk) (clock : Int) : Site ρ where
  checker :=
    { patTbl := [], pats := none, nPats := 0, filename := [], lastOpen := 0
      allowSelfsigned := false }
  stage := .idle
  disk := disk
  clock := clock
  loaded := ⟨[], by decide⟩
  changed := true

/-- The file of the checker. -/
def current (s : Site ρ) : Option Disk := s.disk s.checker.filename

/-- What the checker can see of it. -/
def file (s : Site ρ) : Option File := s.current.map Disk.file

def setDisk (s : Site ρ) (filename : List Char) (d : Option Disk) : Site ρ :=
  { s with disk := Function.update s.disk filename d }

/-- A call that fails. -/
def fail (s : Site ρ) : Site ρ :=
  { s with checker := { unloadConfig s.checker with allowSelfsigned := false }, stage := .idle }

/-- `s_load_config` up to the `fopen`. -/
def stat (s : Site ρ) : Site ρ :=
  if opens s.checker s.file then { s with stage := .opening }
  else if getMtime s.file = 0 then s.fail
  else s

/-- The `fopen`, the lines and `s_serialize_pairs`. -/
def read (R : Outside ρ) (o : Serializer ρ) (s : Site ρ) : Site ρ :=
  match s.file.bind File.content with
  | some content =>
    let c := serializePairs o (readLines R content (unloadConfig s.checker))
    if c.pats.isSome then
      { s with checker := c, stage := .stamping, loaded := content, changed := false }
    else s.fail
  | none => s.fail

/-- `s_last_open = time(NULL)` -/
def stamp (now : Int) (s : Site ρ) : Site ρ :=
  { s with checker := { s.checker with lastOpen := now }, stage := .idle }

/-- The steps of a call without anything in between. -/
def alone (R : Outside ρ) (o : Serializer ρ) (now : Int) (s : Site ρ) : Site ρ :=
  if s.stat.stage = .opening then
    if (s.stat.read R o).stage = .stamping then (s.stat.read R o).stamp now else s.stat.read R o
  else s.stat

end Site

/-- A call that comes to `s_load_config`. -/
def Checks (s : Site ρ) (issuer subject : Option (List Char)) : Prop :=
  (isValidString issuer = true ∨ isValidString subject = true) ∧ s.checker.filename ≠ []

instance (s : Site ρ) (issuer subject : Option (List Char)) : Decidable (Checks s issuer subject) :=
  inferInstanceAs (Decidable (_ ∧ _))

/-- One event, at the time `now`. Who changes the checker needs the lock. -/
def happen (R : Outside ρ) (s : Site ρ) (now : Int) : Happening ρ → Option (Site ρ)
  | .modify filename content readable =>
    some { s.setDisk filename (some ⟨now, content, readable⟩) with
      changed := s.changed || decide (filename = s.checker.filename) }
  | .remove filename =>
    some { s.setDisk filename none with
      changed := s.changed || decide (filename = s.checker.filename) }
  | .permit filename readable =>
    some (s.setDisk filename ((s.disk filename).map fun d => { d with readable }))
  | .setConfigFile filename =>
    if s.stage = .idle then
      some { s with checker := setConfigFile filename s.checker, changed := true }
    else none
  | .check issuer subject =>
    if s.stage = .idle then some (if Checks s issuer subject then s.stat else s) else none
  | .read o => if s.stage = .opening then some (s.read R o) else none
  | .stamp => if s.stage = .stamping then some (s.stamp now) else none

def siteStep (R : Outside ρ) (s : Site ρ) : Int × Happening ρ → Option (Site ρ)
  | (now, e) =>
    if s.clock ≤ now then (happen R s now e).map fun s' => { s' with clock := now } else none

/-- The array that is gone over. -/
def Checker.array (c : Checker ρ) : Option (List (PatternPair ρ)) :=
  c.pats.map fun pats => pats.take c.nPats

/-- The event after which a call has its pairs: it need not read the file, or it has read it. -/
def Settles (s : Site ρ) : Happening ρ → Prop
  | .check issuer subject => Checks s issuer subject ∧ ¬opens s.checker s.file
  | .read _ => True
  | _ => False

/-- The pairs that the call goes over. -/
def usedPairs (R : Outside ρ) (s : Site ρ) : Happening ρ → Option (List (PatternPair ρ))
  | .read o => (s.read R o).checker.array
  | _ => s.checker.array

/-- The checker finds the file, with the content `d.content`: it has a time, can be opened, and has
at least one pair. -/
structure Finds (R : Outside ρ) (s : Site ρ) (d : Disk) : Prop where
  current : s.current = some d
  mtime : 0 < d.mtime
  readable : d.readable = true
  pairs : filePairs R d.content ≠ []

/-- A call that finds the file uses its pairs. -/
def UsesFile (R : Outside ρ) (s : Site ρ) (e : Int × Happening ρ) : Prop :=
  ∀ d, Finds R s d → Settles s e.2 →
    ∃ pats, usedPairs R s e.2 = some pats ∧ pats.Perm (filePairs R d.content)

/-- A call that finds the file does not come after a modification that was made after the last
reading and not after the second of `s_last_open`, unless this has left the pairs as they were. -/
def Seen (R : Outside ρ) (s : Site ρ) (e : Int × Happening ρ) : Prop :=
  ∀ issuer subject d, e.2 = .check issuer subject → Checks s issuer subject → Finds R s d →
    s.checker.pats ≠ none → s.changed = true → d.mtime ≤ s.checker.lastOpen →
    (filePairs R s.loaded).Perm (filePairs R d.content)

/-! ## What the array has come from -/

/-- The array has the pairs of the content that was read last. If the file has not been modified
since, it has this content. -/
structure Tracks (R : Outside ρ) (s : Site ρ) : Prop where
  array : ∀ pats, s.checker.pats = some pats →
    pats.Perm (filePairs R s.loaded) ∧ s.checker.nPats = pats.length
  same : s.checker.pats ≠ none → s.changed = false → ∀ d, s.current = some d → d.content = s.loaded

variable {R : Outside ρ} {s s' : Site ρ} {now : Int} {o : Serializer ρ}
  {issuer subject : Option (List Char)} {d : Disk}

theorem getMtime_file (h : s.current = some d) : getMtime s.file = d.mtime := by
  simp [getMtime, Site.file, h, Disk.file]

theorem opens_iff (h : s.current = some d) : opens s.checker s.file ↔
    0 < d.mtime ∧ ((s.checker.pats = none ∨ s.checker.lastOpen = 0) ∨
      s.checker.lastOpen < d.mtime) := by
  rw [opens, getMtime_file h]

theorem content_file {content : Content} (h : s.file.bind File.content = some content) :
    ∃ d, s.current = some d ∧ d.content = content := by
  simp only [Site.file, Option.bind_eq_some_iff, Option.map_eq_some_iff] at h
  obtain ⟨file, ⟨d, hd, rfl⟩, hcontent⟩ := h
  simp only [Disk.file] at hcontent
  split_ifs at hcontent
  exact ⟨d, hd, Option.some.inj hcontent⟩

/-- The pairs of the content, if it has any. -/
theorem serializePairs_eq (o : Serializer ρ) (content : Content) (c : Checker ρ) :
    serializePairs o (readLines R content (unloadConfig c)) =
      { c with
        patTbl := filePairs R content
        pats := if filePairs R content = [] then none else some (o.pats (filePairs R content))
        nPats := (filePairs R content).length
        allowSelfsigned := readFlag R content c.allowSelfsigned } := by
  rw [readLines_eq]
  unfold serializePairs unloadConfig
  by_cases hpairs : filePairs R content = []
  · simp [hpairs]
  · have hlen : 0 < (filePairs R content).length := List.length_pos_iff.mpr hpairs
    simp only [hpairs, hlen, if_true, if_false]

/-- How the reading ends. -/
theorem read_cases (R : Outside ρ) (o : Serializer ρ) (s : Site ρ) :
    (∃ d, s.current = some d ∧ (s.read R o).loaded = d.content ∧ (s.read R o).changed = false ∧
      (s.read R o).disk = s.disk ∧ (s.read R o).checker.filename = s.checker.filename ∧
      (s.read R o).checker.pats = some (o.pats (filePairs R d.content)) ∧
      (s.read R o).checker.nPats = (filePairs R d.content).length) ∨
    s.read R o = s.fail ∧ ∀ d, ¬Finds R s d := by
  unfold Site.read
  cases hcontent : s.file.bind File.content with
  | none =>
    refine .inr ⟨rfl, fun d hfinds => ?_⟩
    simp [Site.file, hfinds.current, Disk.file, hfinds.readable] at hcontent
  | some content =>
    obtain ⟨d, hd, rfl⟩ := content_file hcontent
    dsimp only
    rw [serializePairs_eq]
    by_cases hpairs : filePairs R d.content = []
    · refine .inr ⟨by simp [hpairs], fun d' hfinds => ?_⟩
      obtain rfl : d = d' := Option.some.inj (hd.symm.trans hfinds.current)
      exact hfinds.pairs hpairs
    · refine .inl ⟨d, hd, ?_⟩
      simp [hpairs]

/-- Without a modification in between, a call is the loading part of `s_check_certificates`. -/
theorem alone_eq_loadPart (R : Outside ρ) (o : Serializer ρ) (now : Int) {s : Site ρ}
    (hname : s.checker.filename ≠ []) (hidle : s.stage = .idle) :
    (s.alone R o now).checker = (loadPart R o s.file now s.checker).1 ∧
      (s.alone R o now).stage = .idle := by
  have hvalid := isValidString_some hname
  have hok : Result.noMemory ≠ Result.ok ∧ Result.notFound ≠ Result.ok := by decide
  have hne : Stage.idle ≠ .opening := by decide
  unfold Site.alone
  by_cases hopens : opens s.checker s.file
  · have hstat : s.stat = { s with stage := .opening } := if_pos hopens
    have hfile : ({ s with stage := Stage.opening } : Site ρ).file = s.file := rfl
    rw [hstat, if_pos rfl]
    unfold Site.read
    rw [hfile]
    cases hcontent : s.file.bind File.content with
    | none => simp [Site.fail, loadPart, loadConfig, hvalid, hopens, hcontent, hok]
    | some content =>
      by_cases hpairs : filePairs R content = []
      · simp [Site.fail, loadPart, loadConfig, hvalid, hopens, hcontent, hok, serializePairs_eq,
          hpairs]
        simp [unloadConfig]
      · simp [Site.stamp, loadPart, loadConfig, hvalid, hopens, hcontent, serializePairs_eq, hpairs]
  · by_cases hmtime : getMtime s.file = 0
    · have hstat : s.stat = s.fail := by rw [Site.stat, if_neg hopens, if_pos hmtime]
      have hstage : s.fail.stage ≠ .opening := hne
      rw [hstat, if_neg hstage]
      simp [Site.fail, loadPart, loadConfig, hvalid, hopens, hmtime, hok]
    · have hstat : s.stat = s := by rw [Site.stat, if_neg hopens, if_neg hmtime]
      have hstage : s.stage ≠ .opening := hidle ▸ hne
      rw [hstat, if_neg hstage]
      simp [loadPart, loadConfig, hvalid, hopens, hmtime, hidle]

/-! ## Events -/

theorem Tracks.start (disk : List Char → Option Disk) (clock : Int) :
    Tracks R (Site.start disk clock) where
  array := nofun
  same h := absurd rfl h

theorem Tracks.fail (s : Site ρ) : Tracks R s.fail where
  array := nofun
  same h := absurd rfl h

/-- A file is modified or removed, or what `chmod` says of it. -/
theorem Tracks.setDisk (h : Tracks R s) {filename : List Char} {d : Option Disk} {changed : Bool}
    (hsame : changed = false → s.changed = false ∧ (filename = s.checker.filename →
      ∀ d', d = some d' → ∃ d₀, s.current = some d₀ ∧ d'.content = d₀.content)) :
    Tracks R { s.setDisk filename d with changed := changed } := by
  refine ⟨h.array, fun hpats hchanged d' hd' => ?_⟩
  obtain ⟨hwas, hcontent⟩ := hsame hchanged
  by_cases hf : s.checker.filename = filename
  · simp only [Site.current, Site.setDisk, hf, Function.update_self] at hd'
    obtain ⟨d₀, hd₀, heq⟩ := hcontent hf.symm d' hd'
    exact heq.trans (h.same hpats hwas d₀ hd₀)
  · simp only [Site.current, Site.setDisk, Function.update_of_ne hf] at hd'
    exact h.same hpats hwas d' hd'

theorem Tracks.stat (h : Tracks R s) : Tracks R s.stat := by
  unfold Site.stat
  split_ifs
  · exact ⟨h.array, h.same⟩
  · exact .fail s
  · exact h

theorem Tracks.read (o : Serializer ρ) (s : Site ρ) : Tracks R (s.read R o) := by
  rcases read_cases R o s with
    ⟨d, hd, hloaded, -, hdisk, hfilename, hpats, hn⟩ | ⟨heq, -⟩
  · refine ⟨fun pats hsome => ?_, fun _ _ d' hd' => ?_⟩
    · obtain rfl : o.pats (filePairs R d.content) = pats := Option.some.inj (hpats.symm.trans hsome)
      rw [hloaded, hn, (o.perm _).length_eq]
      exact ⟨o.perm _, rfl⟩
    · rw [Site.current, hdisk, hfilename] at hd'
      obtain rfl : d = d' := Option.some.inj (hd.symm.trans hd')
      exact hloaded.symm
  · rw [heq]
    exact .fail s

/-- One event. -/
theorem happen_tracks {e : Happening ρ} (h : Tracks R s) (hstep : happen R s now e = some s') :
    Tracks R s' := by
  cases e with
  | modify filename content readable =>
    cases hstep
    refine h.setDisk fun hc => ?_
    simp only [Bool.or_eq_false_iff, decide_eq_false_iff_not] at hc
    exact ⟨hc.1, fun hf => absurd hf hc.2⟩
  | remove filename =>
    cases hstep
    refine h.setDisk fun hc => ?_
    simp only [Bool.or_eq_false_iff, decide_eq_false_iff_not] at hc
    exact ⟨hc.1, fun hf => absurd hf hc.2⟩
  | permit filename readable =>
    cases hstep
    refine h.setDisk fun hc => ⟨hc, fun hf d' hd' => ?_⟩
    obtain ⟨d₀, hd₀, rfl⟩ := Option.map_eq_some_iff.mp hd'
    exact ⟨d₀, by rw [Site.current, ← hf, hd₀], rfl⟩
  | setConfigFile filename =>
    simp only [happen] at hstep
    split_ifs at hstep
    cases hstep
    exact ⟨h.array, fun _ hc => absurd hc.symm Bool.false_ne_true⟩
  | check issuer subject =>
    simp only [happen] at hstep
    split_ifs at hstep
    · cases hstep
      exact h.stat
    · cases hstep
      exact h
  | read o =>
    simp only [happen] at hstep
    split_ifs at hstep
    cases hstep
    exact .read o s
  | stamp =>
    simp only [happen] at hstep
    split_ifs at hstep
    cases hstep
    exact ⟨h.array, h.same⟩

theorem siteStep_tracks {e : Int × Happening ρ} (h : Tracks R s)
    (hstep : siteStep R s e = some s') : Tracks R s' := by
  obtain ⟨now, e⟩ := e
  simp only [siteStep] at hstep
  split_ifs at hstep
  obtain ⟨s₁, hs₁, rfl⟩ := Option.map_eq_some_iff.mp hstep
  have h₁ := happen_tracks h hs₁
  exact ⟨h₁.array, h₁.same⟩

/-! ## Calls -/

theorem Tracks.array_eq (h : Tracks R s) {pats : List (PatternPair ρ)}
    (hpats : s.checker.pats = some pats) : s.checker.array = some pats := by
  rw [Checker.array, hpats, (h.array pats hpats).2, Option.map_some, List.take_length]

/-- A call does not read a file that is not newer than `s_last_open`. -/
theorem not_opens (h : Finds R s d) (hpats : s.checker.pats ≠ none)
    (hle : d.mtime ≤ s.checker.lastOpen) : ¬opens s.checker s.file := by
  have hmtime := h.mtime
  rw [opens_iff h.current]
  rintro ⟨-, (hnone | hlast) | hlt⟩
  · exact hpats hnone
  · omega
  · omega

/-- A call that reads the file uses its pairs; one that does not uses those of the last reading. -/
theorem usesFile_iff_seen (h : Tracks R s) (e : Int × Happening ρ) :
    UsesFile R s e ↔ Seen R s e := by
  obtain ⟨now, e⟩ := e
  cases e with
  | modify _ _ _ | remove _ | permit _ _ | setConfigFile _ | stamp =>
    exact iff_of_true (fun _ _ hsettles => hsettles.elim) nofun
  | read o =>
    refine iff_of_true (fun d hfinds _ => ?_) nofun
    rcases read_cases R o s with ⟨d', hd', -, -, -, -, hpats, hn⟩ | ⟨-, hnone⟩
    · obtain rfl : d' = d := Option.some.inj (hd'.symm.trans hfinds.current)
      refine ⟨o.pats (filePairs R d'.content), ?_, o.perm _⟩
      rw [usedPairs, Checker.array, hpats, hn, Option.map_some, ← (o.perm _).length_eq,
        List.take_length]
    · exact absurd hfinds (hnone d)
  | check issuer subject =>
    constructor
    · rintro huses issuer' subject' d ⟨⟩ hchecks hfinds hpats - hle
      obtain ⟨pats, hused, hfile⟩ := huses d hfinds ⟨hchecks, not_opens hfinds hpats hle⟩
      obtain ⟨all, hall⟩ := Option.ne_none_iff_exists'.mp hpats
      obtain rfl : all = pats := Option.some.inj ((h.array_eq hall).symm.trans hused)
      exact (h.array all hall).1.symm.trans hfile
    · rintro hseen d hfinds ⟨hchecks, hopens⟩
      rw [opens_iff hfinds.current] at hopens
      have hpats : s.checker.pats ≠ none := fun hnone => hopens ⟨hfinds.mtime, .inl (.inl hnone)⟩
      have hle : d.mtime ≤ s.checker.lastOpen :=
        not_lt.mp fun hlt => hopens ⟨hfinds.mtime, .inr hlt⟩
      obtain ⟨all, hall⟩ := Option.ne_none_iff_exists'.mp hpats
      refine ⟨all, h.array_eq hall, (h.array all hall).1.trans ?_⟩
      cases hchanged : s.changed with
      | false => rw [h.same hpats hchanged d hfinds.current]
      | true => exact hseen issuer subject d rfl hchecks hfinds hpats hchanged hle

/-- **Modifications and calls.** In every order of modifications, removals, changes of the
permission and of the file name, and of the steps of the calls, at times that do not decrease: each
call that finds the file uses its pairs exactly if no call comes after a modification that was made
after the last reading, was not made after the second of `s_last_open`, and has changed the
pairs. -/
theorem usesFile_iff {disk : List Char → Option Disk} {clock : Int}
    {es : List (Int × Happening ρ)} {s : Site ρ}
    (h : Trans.run (siteStep R) (Site.start disk clock) es = some s) :
    (∀ es₁ e es₂ s₁ s₂, es = es₁ ++ e :: es₂ →
      Trans.run (siteStep R) (Site.start disk clock) es₁ = some s₁ →
      siteStep R s₁ e = some s₂ → UsesFile R s₁ e) ↔
      Trans.Run (siteStep R) (Seen R) (Site.start disk clock) es s :=
  Trans.Run.iff_each (I := Tracks R) (P := fun s e _ => UsesFile R s e)
    (fun _ _ _ ht hstep => siteStep_tracks ht hstep) (fun _ e _ ht _ => usesFile_iff_seen ht e)
    (Tracks.start disk clock) h

/-- A call reads the file. -/
def Reads (s : Site ρ) : Int × Happening ρ → Prop
  | (_, .check _ _) => opens s.checker s.file
  | _ => True

instance (s : Site ρ) (e : Int × Happening ρ) : Decidable (Reads s e) :=
  match e with
  | (_, .check _ _) => inferInstanceAs (Decidable (opens _ _))
  | (_, .modify _ _ _) | (_, .remove _) | (_, .permit _ _) | (_, .setConfigFile _) | (_, .read _)
  | (_, .stamp) => .isTrue trivial

/-- A call that reads the file is no danger. -/
theorem seen_of_reads {e : Int × Happening ρ} (h : Reads s e) : Seen R s e := by
  rintro issuer subject d he - hfinds hpats - hle
  obtain ⟨now, e⟩ := e
  subst he
  exact absurd h (not_opens hfinds hpats hle)

/-- A file that allows an issuer. -/
def allowingFile : Content := ⟨"allow issuer a\n".toList, by decide +kernel⟩

/-- A file that denies it. -/
def deniesFile : Content := ⟨"deny issuer a\n".toList, by decide +kernel⟩

/-- A certificate of this issuer is checked. -/
def checkIssuer : Happening (List Char) := .check (some ['a']) none

/-- The file is written, and a call reads it. -/
def writtenAndRead : List (Int × Happening (List Char)) :=
  [(1, .setConfigFile ['f']), (1, .modify ['f'] allowingFile true), (1, checkIssuer),
    (1, .read insertionSerializer)]

/-- The file is modified `later` seconds after the call. -/
def modifiedAfter (later : Int) : List (Int × Happening (List Char)) :=
  writtenAndRead ++ [(1, .stamp), (1 + later, .modify ['f'] deniesFile true)]

/-- The file is modified before the call takes the time. -/
def modifiedWithin : List (Int × Happening (List Char)) :=
  writtenAndRead ++ [(2, .modify ['f'] deniesFile true), (3, .stamp)]

/-- A second later. The next call reads the file and uses the new pairs. -/
theorem usesFile_iff_later : ∃ s,
    Trans.run (siteStep prefixRegex) (Site.start (fun _ => none) 1)
        (modifiedAfter 1 ++ [(2, checkIssuer)]) = some s ∧ s.stage = .opening ∧
      s.current = some ⟨2, deniesFile, true⟩ ∧
      UsesFile prefixRegex s (2, .read insertionSerializer) := by
  have hfirst : ((Trans.run (Trans.guarded (siteStep prefixRegex) Reads)
      (Site.start (fun _ => none) 1) (modifiedAfter 1 ++ [(2, checkIssuer)])).map fun s =>
        (s.stage, s.current, s.clock)) = some (.opening, some ⟨2, deniesFile, true⟩, 2) := by
    decide +kernel
  obtain ⟨s, hs, hvals⟩ := Option.map_eq_some_iff.mp hfirst
  simp only [Prod.mk.injEq] at hvals
  obtain ⟨hstage, hcurrent, hclock⟩ := hvals
  have hrun : Trans.Run (siteStep prefixRegex) (Seen prefixRegex) (Site.start (fun _ => none) 1)
      (modifiedAfter 1 ++ [(2, checkIssuer)]) s :=
    (Trans.Run.of_guarded hs).imp (I := fun _ => True) (fun _ _ _ _ _ _ => trivial)
      (fun _ _ _ => seen_of_reads) trivial
  obtain ⟨s', hs'⟩ : ∃ s', siteStep prefixRegex s (2, .read insertionSerializer) = some s' := by
    simp [siteStep, happen, hclock, hstage]
  have hall := hrun.snoc (e := (2, .read insertionSerializer)) nofun hs'
  exact ⟨s, hrun.run_eq, hstage, hcurrent,
    (usesFile_iff hall.run_eq).mpr hall _ _ [] s s' rfl hrun.run_eq hs'⟩

/-- After `es`, a call does not read the file, and goes over the pairs that were read before. -/
def StaleAfter (es : List (Int × Happening (List Char))) : Prop :=
  ∃ s, Trans.run (siteStep prefixRegex) (Site.start (fun _ => none) 1) es = some s ∧
    s.current.map Disk.content = some deniesFile ∧
    s.checker.array = some (filePairs prefixRegex allowingFile) ∧
    ¬UsesFile prefixRegex s (3, checkIssuer)

/-- What a run has to come to. -/
theorem staleAfter_of {es : List (Int × Happening (List Char))}
    (hfound : ((Trans.run (siteStep prefixRegex) (Site.start (fun _ => none) 1) es).map fun s =>
      (s.checker.filename, s.current.map fun d => (decide (0 < d.mtime), d.content, d.readable),
        decide (opens s.checker s.file))) = some (['f'], some (true, deniesFile, true), false))
    (harray : ((Trans.run (siteStep prefixRegex) (Site.start (fun _ => none) 1) es).map fun s =>
      s.checker.array) = some (some (filePairs prefixRegex allowingFile))) : StaleAfter es := by
  obtain ⟨s, hs, hval⟩ := Option.map_eq_some_iff.mp hfound
  rw [hs, Option.map_some, Option.some.injEq] at harray
  simp only [Prod.mk.injEq, Option.map_eq_some_iff, decide_eq_true_eq, decide_eq_false_iff_not]
    at hval
  obtain ⟨hname, ⟨d, hd, hmtime, hcontent, hreadable⟩, hopens⟩ := hval
  refine ⟨s, hs, by rw [hd, Option.map_some, hcontent], harray, fun huses => ?_⟩
  have hpairs : filePairs prefixRegex deniesFile ≠ [] := by decide +kernel
  obtain ⟨pats, hused, hperm⟩ := huses d ⟨hd, hmtime, hreadable, hcontent ▸ hpairs⟩
    ⟨⟨.inl rfl, hname ▸ List.cons_ne_nil _ _⟩, hopens⟩
  obtain rfl : _ = pats := Option.some.inj (harray.symm.trans hused)
  rw [hcontent] at hperm
  exact absurd hperm (by decide +kernel)

/-- In the second of `s_last_open`, or before the call takes it. -/
theorem usesFile_stale : StaleAfter (modifiedAfter 0) ∧ StaleAfter modifiedWithin :=
  ⟨staleAfter_of (by decide +kernel) (by decide +kernel),
    staleAfter_of (by decide +kernel) (by decide +kernel)⟩

end Checkcert
end Gallus
