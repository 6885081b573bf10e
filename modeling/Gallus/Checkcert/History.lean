import Gallus.Checkcert.Verdict

/-!
# Two histories of the configuration file

`s_unload_config` empties the table and the array, but leaves `s_allow_selfsigned` as it is, and a
file without a word on self-signed certificates does not set it.

* `lastFlag`: what `s_allow_selfsigned` is after the files read so far.
* `Fresh`: the checker has looked at its file since the last change.
* `decisions_equal_iff`: after two histories that end with the same content, the decisions are the
  same if and only if this flag is, or the rules of the file allow no self-signed certificate.
* `decisions_differ_permissionLeft`: a permission that is left over.
-/

namespace Gallus
namespace Checkcert

open Rules

variable {ρ : Type} {R : Outside ρ} {s s' s₁ s₂ : System ρ}

/-! ## The flag -/

/-- `s_allow_selfsigned` after the contents that were read, the latest first. -/
def lastFlag (R : Outside ρ) : List (Option Content) → Bool
  | [] => false
  | none :: _ => false
  | some content :: loads =>
    if (filePairs R content).isEmpty then false else readFlag R content (lastFlag R loads)

/-- The lines of a file leave the flag alone, or set it to a value. -/
theorem readFlag_cases (R : Outside ρ) (content : Content) (a b : Bool) :
    readFlag R content a = readFlag R content b ∨
      readFlag R content a = a ∧ readFlag R content b = b := by
  unfold readFlag
  have hfits := content.fits
  generalize fgetsLoop [] content.text = pieces at hfits ⊢
  have hline : ∀ (tbl tbl' : List (PatternPair ρ)) (a b : Bool) (buf : List Char), PieceFits buf →
      (loadLine R (tbl, a) buf).2 = (loadLine R (tbl', b) buf).2 ∨
        (loadLine R (tbl, a) buf).2 = a ∧ (loadLine R (tbl', b) buf).2 = b := by
    intro tbl tbl' a b buf hbuf
    unfold loadLine
    split_ifs with hlong
    · exact .inr ⟨rfl, rfl⟩
    · exact (parseLine_selfsigned R (hbuf (not_le.mp hlong)) a b).2
  have hfold : ∀ (tbl tbl' : List (PatternPair ρ)) (a b : Bool),
      (pieces.foldl (loadLine R) (tbl, a)).2 = (pieces.foldl (loadLine R) (tbl', b)).2 ∨
        (pieces.foldl (loadLine R) (tbl, a)).2 = a ∧
          (pieces.foldl (loadLine R) (tbl', b)).2 = b := by
    induction pieces with
    | nil => exact fun _ _ _ _ => .inr ⟨rfl, rfl⟩
    | cons buf pieces ih =>
      intro tbl tbl' a b
      rw [List.foldl_cons, List.foldl_cons]
      have hbuf := hline tbl tbl' a b buf (hfits buf List.mem_cons_self)
      have hrest := ih fun b hb => hfits b (List.mem_cons_of_mem _ hb)
      generalize loadLine R (tbl, a) buf = st at hbuf ⊢
      generalize loadLine R (tbl', b) buf = st' at hbuf ⊢
      obtain ⟨tbl₁, a₁⟩ := st
      obtain ⟨tbl₂, b₁⟩ := st'
      rcases hbuf with heq | ⟨rfl, rfl⟩
      · cases (show a₁ = b₁ from heq)
        exact .inl (foldl_loadLine_snd R pieces tbl₁ tbl₂ a₁)
      · exact hrest tbl₁ tbl₂ a₁ b₁
  exact hfold [] [] a b

/-- Reading a file twice does what reading it once does. -/
theorem readFlag_idem (R : Outside ρ) (content : Content) (a : Bool) :
    readFlag R content (readFlag R content a) = readFlag R content a := by
  rcases readFlag_cases R content (readFlag R content a) a with h | ⟨h, -⟩ <;> exact h

/-! ## Runs -/

/-- The checker has looked at its file since the last change. -/
structure Fresh (s : System ρ) : Prop where
  named : s.checker.filename ≠ []
  mtime : 0 ≤ getMtime s.file
  read : s.loads.head? = some s.content

/-- What holds along all runs. -/
structure Kept (R : Outside ρ) (s : System ρ) : Prop where
  loaded : Loaded R s
  flag : s.checker.allowSelfsigned = lastFlag R s.loads
  fresh : s.stale = false → Fresh s

theorem Kept.init (files : List Char → Option File) : Kept R (System.init files) :=
  ⟨.init files, rfl, fun h => by cases h⟩

/-- The flag after the loading part of a call. -/
theorem loading_flag {o : Serializer ρ} {now : Int} {c : Checker ρ} {ret : Result}
    (hflag : s.checker.allowSelfsigned = lastFlag R s.loads)
    (hname : s.checker.filename ≠ []) (hload : Loading R o s.file now s.checker (c, ret)) :
    c.allowSelfsigned = lastFlag R (if s.looks then s.content :: s.loads else s.loads) := by
  have hvalid := isValidString_some hname
  cases hload with
  | read hopens hcontent hpairs =>
    rename_i content
    have hlooks : s.looks := ⟨hvalid, .inr hopens⟩
    rw [if_pos hlooks, show s.content = some content from hcontent, lastFlag,
      if_neg (by simpa using hpairs), hflag]
  | failed hret hlooks hpairs =>
    rw [if_pos (show s.looks from ⟨hvalid, hlooks⟩)]
    cases hcontent : s.content with
    | none => rfl
    | some content => rw [lastFlag, if_pos (by simpa using hpairs content hcontent)]
  | current hmtime hopens =>
    rw [if_neg fun hlooks : s.looks => hlooks.2.elim hmtime hopens]
    exact hflag

theorem loading_filename {o : Serializer ρ} {file : Option File} {now : Int} {c c' : Checker ρ}
    {ret : Result} (h : Loading R o file now c (c', ret)) : c'.filename = c.filename := by
  cases h <;> rfl

theorem Kept.step {e : Event ρ} (h : Kept R s) (hstep : step R s e = some s') : Kept R s' := by
  have hloaded := h.loaded.step hstep
  cases e with
  | setConfigFile filename =>
    cases hstep
    exact ⟨hloaded, h.flag, fun hf => by cases hf⟩
  | write filename file =>
    cases hstep
    refine ⟨hloaded, h.flag, fun hf => ?_⟩
    simp only [Bool.or_eq_false_iff, decide_eq_false_iff_not] at hf
    have hfile : Function.update s.files filename file s.checker.filename = s.file :=
      Function.update_of_ne (Ne.symm hf.2) file s.files
    obtain ⟨hnamed, hmtime, hread⟩ := h.fresh hf.1
    refine ⟨hnamed, ?_, ?_⟩
    · simpa only [System.file, hfile] using hmtime
    · simpa only [System.content, System.file, hfile] using hread
  | check o now issuer subject =>
    by_cases hvalid : isValidString issuer = true ∨ isValidString subject = true
    · obtain ⟨hchecker, hfiles, hstale, hloads⟩ := step_check hvalid hstep
      by_cases hname : s.checker.filename = []
      · have hnot : ¬ s.looks := fun hl => by simp [System.looks, hname, isValidString] at hl
        rw [loadPart_unnamed hname] at hchecker
        rw [if_neg hnot] at hloads
        refine ⟨hloaded, by rw [hchecker, hloads]; exact h.flag, fun hf => ?_⟩
        rw [hstale] at hf
        simp only [hnot, decide_false, Bool.not_false, Bool.and_true] at hf
        exact absurd hname (h.fresh hf).named
      · have hload := loadPart_loading (R := R) o s.file now (isValidString_some hname)
        generalize loadPart R o s.file now s.checker = r at hchecker hload
        obtain ⟨c, ret⟩ := r
        dsimp only at hchecker
        have hfilename : s'.checker.filename = s.checker.filename :=
          hchecker ▸ loading_filename hload
        have hfile : s'.file = s.file := by rw [System.file, System.file, hfiles, hfilename]
        refine ⟨hloaded, ?_, fun hf => ?_⟩
        · rw [hchecker, hloads]
          exact loading_flag h.flag hname hload
        · by_cases hlooks : s.looks
          · refine ⟨hfilename ▸ hname, ?_, ?_⟩
            · rw [hfile]
              exact hlooks.2.elim Int.ge_of_eq fun hopens => Int.le_of_lt hopens.1
            · rw [hloads, if_pos hlooks, System.content, System.content, hfile]
              rfl
          · rw [hstale] at hf
            simp only [hlooks, decide_false, Bool.not_false, Bool.and_true] at hf
            obtain ⟨-, hmtime, hread⟩ := h.fresh hf
            refine ⟨hfilename ▸ hname, hfile ▸ hmtime, ?_⟩
            rw [hloads, if_neg hlooks, System.content, hfile]
            exact hread
    · exact step_check_invalid hvalid hstep ▸ h

theorem Kept.of_run {files : List Char → Option File} {es : List (Event ρ)}
    (h : Trans.run (Checkcert.step R) (System.init files) es = some s) : Kept R s :=
  (Trans.Run.all_iff.mpr h).inv (fun _ _ _ hs _ hstep => hs.step hstep) (Kept.init files)

/-! ## Decisions -/

/-- The return value of a call. -/
def decision (R : Outside ρ) (o : Serializer ρ) (now : Int) (s : System ρ)
    (issuer subject : Option (List Char)) : Result :=
  (checkCertificates R o s.file now s.checker issuer subject).2

/-- The certificate is taken as self-signed. -/
def isSelfsigned (issuer subject : Option (List Char)) : Bool :=
  isValidString issuer && isValidString subject && issuer == subject

/-- The rules of the content allow a certificate. -/
def Permits (R : Outside ρ) (content : Content) (issuer subject : Option (List Char)) : Prop :=
  scanPats R issuer subject (insertionSerializer.pats (filePairs R content)) = Result.ok

theorem scanPats_perm {pats pats' : List (PatternPair ρ)} (hmade : ∀ p ∈ pats, p.Made R)
    (hsorted : Descending PatternPair.cmplen pats) (hsorted' : Descending PatternPair.cmplen pats')
    (hperm : pats.Perm pats') (issuer subject : Option (List Char)) :
    scanPats R issuer subject pats = scanPats R issuer subject pats' := by
  rw [scanPats_eq, scanPats_eq,
    firstMatch_perm hsorted hsorted' hperm (separated_of_made hmade issuer subject)]

theorem scanPats_permits {content : Content} {pats : List (PatternPair ρ)}
    (hperm : pats.Perm (filePairs R content)) (hsorted : Descending PatternPair.cmplen pats)
    (issuer subject : Option (List Char)) :
    scanPats R issuer subject pats = Result.ok ↔ Permits R content issuer subject := by
  have hmade : ∀ p ∈ pats, p.Made R := fun p hp => filePairs_made p (hperm.mem_iff.mp hp)
  rw [Permits, scanPats_perm hmade hsorted (descending_of_sorted (insertionSerializer.sorted _))
    (hperm.trans (insertionSerializer.perm _).symm)]

theorem decidePart_ok_iff {c : Checker ρ} {pats : List (PatternPair ρ)}
    (hpats : c.pats = some pats) (hn : c.nPats = pats.length)
    (issuer subject : Option (List Char)) :
    decidePart R c Result.ok issuer subject = Result.ok ↔
      (isSelfsigned issuer subject = true → c.allowSelfsigned = true) ∧
        scanPats R issuer subject pats = Result.ok := by
  have hne : Result.notAllowed ≠ Result.ok := by decide
  rw [decidePart, isSelfsigned, hpats, hn]
  simp only [List.take_length, if_true]
  split_ifs with hself
  · simp [hself.1, hself.2, hne]
  · cases hflag : c.allowSelfsigned <;> simp_all

theorem lastFlag_again (R : Outside ρ) (v : Option Content) (loads : List (Option Content)) :
    lastFlag R (v :: v :: loads) = lastFlag R (v :: loads) := by
  cases v with
  | none => rfl
  | some content =>
    simp only [lastFlag]
    split_ifs
    · rfl
    · exact readFlag_idem R content (lastFlag R loads)

theorem not_permits_nil {content : Content} (h : filePairs R content = [])
    (issuer subject : Option (List Char)) : ¬ Permits R content issuer subject := by
  have hnil : scanPats R issuer subject (insertionSerializer.pats []) = Result.notAllowed := rfl
  rw [Permits, h, hnil]
  decide

theorem Fresh.loads_eq (h : Fresh s) : ∃ loads, s.loads = s.content :: loads := by
  have hread := h.read
  cases hl : s.loads with
  | nil =>
    rw [hl] at hread
    cases hread
  | cons v loads =>
    rw [hl] at hread
    cases hread
    exact ⟨loads, rfl⟩

/-- The array after the loading part of a call, if it succeeds, has the pairs of the file. -/
theorem loading_array {o : Serializer ρ} {now : Int} {c : Checker ρ} {ret : Result}
    (h : Loaded R s) (hfresh : Fresh s) (hload : Loading R o s.file now s.checker (c, ret)) :
    (ret ≠ Result.ok ∧ ∀ content, s.content = some content → filePairs R content = []) ∨
      ret = Result.ok ∧ ∃ content pats, s.content = some content ∧ c.pats = some pats ∧
        pats.Perm (filePairs R content) ∧ Descending PatternPair.cmplen pats ∧
        c.nPats = pats.length := by
  cases hload with
  | read hopens hcontent hpairs =>
    exact .inr ⟨rfl, _, _, hcontent, rfl, o.perm _, descending_of_sorted (o.sorted _),
      (o.perm _).length_eq.symm⟩
  | failed hret hlooks hpairs => exact .inl ⟨hret, hpairs⟩
  | current hmtime hopens =>
    have hpats : s.checker.pats ≠ none := fun hnone =>
      hopens ⟨lt_of_le_of_ne hfresh.mtime hmtime.symm, .inl (.inl hnone)⟩
    obtain ⟨pats, hsome⟩ := Option.ne_none_iff_exists'.mp hpats
    obtain ⟨content, hhead, hperm, hsorted, hn⟩ := h pats hsome
    rw [hfresh.read] at hhead
    exact .inr ⟨rfl, content, pats, Option.some.inj hhead, hsome, hperm, hsorted, hn⟩

/-- The decision of a checker that has looked at its file. -/
theorem decision_ok_iff (h : Kept R s) (hstale : s.stale = false) (o : Serializer ρ) (now : Int)
    {issuer subject : Option (List Char)}
    (hvalid : isValidString issuer = true ∨ isValidString subject = true) :
    decision R o now s issuer subject = Result.ok ↔
      (isSelfsigned issuer subject = true → lastFlag R s.loads = true) ∧
        ∃ content, s.content = some content ∧ Permits R content issuer subject := by
  have hfresh := h.fresh hstale
  have hload := loadPart_loading (R := R) o s.file now (isValidString_some hfresh.named)
  rw [decision, checkCertificates_valid hvalid]
  generalize loadPart R o s.file now s.checker = r at hload ⊢
  obtain ⟨c, ret⟩ := r
  obtain ⟨loads, hloads⟩ := hfresh.loads_eq
  have hflag : c.allowSelfsigned = lastFlag R s.loads := by
    rw [loading_flag h.flag hfresh.named hload]
    split_ifs
    · rw [hloads, lastFlag_again]
    · rfl
  dsimp only
  rcases loading_array h.loaded hfresh hload with
    ⟨hret, hnil⟩ | ⟨rfl, content, pats, hcontent, hpats, hperm, hsorted, hn⟩
  · have hnot : decidePart R c ret issuer subject ≠ Result.ok := by
      unfold decidePart
      dsimp only
      rw [if_neg hret]
      split_ifs
      · decide
      · exact hret
    refine ⟨fun hok => absurd hok hnot, ?_⟩
    rintro ⟨-, content, hcontent, hpermits⟩
    exact absurd hpermits (not_permits_nil (hnil content hcontent) issuer subject)
  · rw [decidePart_ok_iff hpats hn, hflag, scanPats_permits hperm hsorted, hcontent]
    simp

theorem decision_invalid (o : Serializer ρ) (now : Int) {issuer subject : Option (List Char)}
    (hvalid : ¬ (isValidString issuer = true ∨ isValidString subject = true)) :
    decision R o now s issuer subject ≠ Result.ok := by
  rw [decision, checkCertificates, if_neg hvalid]
  exact (by decide : Result.invalidArgs ≠ Result.ok)

/-- **Two histories.** After two histories of files whose lines fit, which end with the same content
that the checker has read, the decisions are the same for all issuers and subjects, if and only if
the latest word on self-signed certificates in the files read since a failure was the same, or the
content allows no issuer as its own subject. -/
theorem decisions_equal_iff {files₁ files₂ : List Char → Option File} {es₁ es₂ : List (Event ρ)}
    (h₁ : Trans.run (step R) (System.init files₁) es₁ = some s₁)
    (h₂ : Trans.run (step R) (System.init files₂) es₂ = some s₂)
    (hread₁ : s₁.stale = false) (hread₂ : s₂.stale = false) (hsame : s₁.content = s₂.content) :
    (∀ (o₁ o₂ : Serializer ρ) (now₁ now₂ : Int) (issuer subject : Option (List Char)),
        decision R o₁ now₁ s₁ issuer subject = Result.ok ↔
          decision R o₂ now₂ s₂ issuer subject = Result.ok) ↔
      lastFlag R s₁.loads = lastFlag R s₂.loads ∨
        ∀ content, s₁.content = some content → ∀ dn, dn ≠ [] →
          ¬ (AnyMatches R .allow (filePairs R content) dn dn ∧
            ¬ AnyMatches R .deny (filePairs R content) dn dn) := by
  have hk₁ := Kept.of_run h₁
  have hk₂ := Kept.of_run h₂
  have hpermits : ∀ content dn, dn ≠ [] → (Permits R content (some dn) (some dn) ↔
      AnyMatches R .allow (filePairs R content) dn dn ∧
        ¬ AnyMatches R .deny (filePairs R content) dn dn) := by
    intro content dn hdn
    have hperm := insertionSerializer.perm (filePairs R content)
    rw [Permits, scanPats_ok_iff (fun p hp => filePairs_made p (hperm.mem_iff.mp hp))
      (descending_of_sorted (insertionSerializer.sorted _)) hdn hdn]
    simp only [AnyMatches, hperm.mem_iff]
  have hself : ∀ dn : List Char, dn ≠ [] → isSelfsigned (some dn) (some dn) = true := by
    intro dn hdn
    simp [isSelfsigned, isValidString_some hdn]
  constructor
  · intro hall
    by_contra hnot
    rw [not_or] at hnot
    obtain ⟨hne, hdn⟩ := hnot
    push Not at hdn
    obtain ⟨content, hcontent, dn, hdn, hallows⟩ := hdn
    have hvalid : isValidString (some dn) = true ∨ isValidString (some dn) = true :=
      .inl (isValidString_some hdn)
    have hboth := hall insertionSerializer insertionSerializer 0 0 (some dn) (some dn)
    rw [decision_ok_iff hk₁ hread₁ _ _ hvalid, decision_ok_iff hk₂ hread₂ _ _ hvalid, ← hsame,
      hcontent] at hboth
    have hpermitted := (hpermits content dn hdn).mpr hallows
    simp only [hself dn hdn, true_imp_iff, Option.some.injEq, exists_eq_left', hpermitted,
      and_true] at hboth
    exact hne (Bool.eq_iff_iff.mpr hboth)
  · intro hcond o₁ o₂ now₁ now₂ issuer subject
    by_cases hvalid : isValidString issuer = true ∨ isValidString subject = true
    · rw [decision_ok_iff hk₁ hread₁ _ _ hvalid, decision_ok_iff hk₂ hread₂ _ _ hvalid, ← hsame]
      rcases hcond with hflag | hnone
      · rw [hflag]
      · by_cases hs : isSelfsigned issuer subject = true
        · have hno : ¬ ∃ content, s₁.content = some content ∧ Permits R content issuer subject := by
            rintro ⟨content, hcontent, hpermit⟩
            simp only [isSelfsigned, Bool.and_eq_true, beq_iff_eq] at hs
            obtain ⟨⟨hi, -⟩, rfl⟩ := hs
            obtain ⟨dn, rfl, hdn⟩ := isValidString_iff.mp hi
            exact hnone content hcontent dn hdn ((hpermits content dn hdn).mp hpermit)
          simp only [hno, and_false]
        · simp only [hs, Bool.false_eq_true, false_imp_iff, true_and]
    · simp only [decision_invalid _ _ hvalid]

/-- A file that permits self-signed certificates of one name. -/
def permittingFile : Content := ⟨"allow self-signed issuer ca\n".toList, by decide +kernel⟩

/-- A file that says nothing of them. -/
def silentFile : Content := ⟨"allow issuer ca\n".toList, by decide +kernel⟩

/-- A file that forbids them. -/
def forbiddingFile : Content := ⟨"allow issuer ca\ndeny self-signed\n".toList, by decide +kernel⟩

/-- The contents are written to the file and read, one after the other. -/
def history : Int → List Content → List (Event (List Char))
  | _, [] => []
  | now, content :: contents =>
    .write ['f'] (some ⟨now, some content⟩) ::
      .check insertionSerializer now (some ['a']) (some ['b']) :: history (now + 1) contents

theorem decisions_equal_forbiddingFile :
    ∃ s₁ s₂ : System (List Char),
      Trans.run (step prefixRegex) (System.init fun _ => none)
        (.setConfigFile ['f'] :: history 1 [permittingFile, forbiddingFile]) = some s₁ ∧
      Trans.run (step prefixRegex) (System.init fun _ => none)
        (.setConfigFile ['f'] :: history 1 [forbiddingFile]) = some s₂ ∧
      ∀ (o₁ o₂ : Serializer (List Char)) (now₁ now₂ : Int) (issuer subject : Option (List Char)),
        decision prefixRegex o₁ now₁ s₁ issuer subject = Result.ok ↔
          decision prefixRegex o₂ now₂ s₂ issuer subject = Result.ok := by
  have h₁ : ((Trans.run (step prefixRegex) (System.init fun _ => none)
      (.setConfigFile ['f'] :: history 1 [permittingFile, forbiddingFile])).map fun s =>
        (s.stale, s.content, lastFlag prefixRegex s.loads)) =
      some (false, some forbiddingFile, false) := by decide +kernel
  have h₂ : ((Trans.run (step prefixRegex) (System.init fun _ => none)
      (.setConfigFile ['f'] :: history 1 [forbiddingFile])).map fun s =>
        (s.stale, s.content, lastFlag prefixRegex s.loads)) =
      some (false, some forbiddingFile, false) := by decide +kernel
  obtain ⟨s₁, hrun₁, hs₁⟩ := Option.map_eq_some_iff.mp h₁
  obtain ⟨s₂, hrun₂, hs₂⟩ := Option.map_eq_some_iff.mp h₂
  simp only [Prod.mk.injEq] at hs₁ hs₂
  obtain ⟨hstale₁, hcontent₁, hflag₁⟩ := hs₁
  obtain ⟨hstale₂, hcontent₂, hflag₂⟩ := hs₂
  exact ⟨s₁, s₂, hrun₁, hrun₂, (decisions_equal_iff hrun₁ hrun₂ hstale₁ hstale₂
    (hcontent₁.trans hcontent₂.symm)).mpr (.inl (hflag₁.trans hflag₂.symm))⟩

/-- The permission of the first file is left over after the second one has been read. -/
theorem decisions_differ_permissionLeft :
    ∃ s₁ s₂ : System (List Char),
      Trans.run (step prefixRegex) (System.init fun _ => none)
        (.setConfigFile ['f'] :: history 1 [permittingFile, silentFile]) = some s₁ ∧
      Trans.run (step prefixRegex) (System.init fun _ => none)
        (.setConfigFile ['f'] :: history 1 [silentFile]) = some s₂ ∧
      s₁.stale = false ∧ s₂.stale = false ∧ s₁.content = s₂.content ∧
      decision prefixRegex insertionSerializer 3 s₁ (some ['c', 'a']) (some ['c', 'a']) =
        Result.ok ∧
      decision prefixRegex insertionSerializer 3 s₂ (some ['c', 'a']) (some ['c', 'a']) =
        Result.notAllowed := by
  have h₁ : ((Trans.run (step prefixRegex) (System.init fun _ => none)
      (.setConfigFile ['f'] :: history 1 [permittingFile, silentFile])).map fun s =>
        (s.stale, s.content,
          decision prefixRegex insertionSerializer 3 s (some ['c', 'a']) (some ['c', 'a']))) =
      some (false, some silentFile, Result.ok) := by decide +kernel
  have h₂ : ((Trans.run (step prefixRegex) (System.init fun _ => none)
      (.setConfigFile ['f'] :: history 1 [silentFile])).map fun s =>
        (s.stale, s.content,
          decision prefixRegex insertionSerializer 3 s (some ['c', 'a']) (some ['c', 'a']))) =
      some (false, some silentFile, Result.notAllowed) := by decide +kernel
  obtain ⟨s₁, hrun₁, hs₁⟩ := Option.map_eq_some_iff.mp h₁
  obtain ⟨s₂, hrun₂, hs₂⟩ := Option.map_eq_some_iff.mp h₂
  simp only [Prod.mk.injEq] at hs₁ hs₂
  obtain ⟨hstale₁, hcontent₁, hok⟩ := hs₁
  obtain ⟨hstale₂, hcontent₂, hdenied⟩ := hs₂
  exact ⟨s₁, s₂, hrun₁, hrun₂, hstale₁, hstale₂, hcontent₁.trans hcontent₂.symm, hok, hdenied⟩

end Checkcert
end Gallus
