import ModelQuery.Proofs.Text.Run
import ModelQuery.Toml.Quoted

/-!
# Quoted texts are read back

Every text that is written in quotes is read back as it was, in whichever form it was written: this
is `readQuoted?_quote`. `QuotedForm.Spells` says which characters between the marks of a form stand
for which text, without saying how they are read or written. Reading follows it
(`QuotedForm.Spells.read?`), and writing keeps to it (`QuotedForm.spells_content`).

Where a tripled form ends is decided by runs of marks. A run of at most two belongs to the text; the
closing marks take the run before them along, and give back all of it but three.
-/

namespace ModelQuery.Toml

open Text

/-- How many marks the text begins with. -/
def leadingMarks (mark : Char) (text : List Char) : Nat :=
  (text.takeWhile (· == mark)).length

/-- The letters, behind a backslash, stand for the character, whatever follows them. -/
structure IsEscape (letters : List Char) (c : Char) : Prop where
  reads : ∀ rest, escape? (letters ++ rest) = some (c, letters.length)
  printable : letters.all isPrintable = true

/-- `form.Spells body text` says that the body, between the marks of the form, stands for the
text. -/
inductive QuotedForm.Spells (form : QuotedForm) : List Char → List Char → Prop where
  | nil : Spells form [] []
  | mark (body text : List Char) :
      form.multiline = true → leadingMarks form.mark (form.mark :: body) ≤ 2 →
      Spells form body text → Spells form (form.mark :: body) (form.mark :: text)
  | escape (c : Char) (letters body text : List Char) :
      form.hasEscapes = true → IsEscape letters c →
      Spells form body text → Spells form ('\\' :: (letters ++ body)) (c :: text)
  | plain (c : Char) (body text : List Char) :
      c ≠ form.mark → (form.hasEscapes = true → c ≠ '\\') →
      (isPrintable c || (form.multiline && c == '\n')) = true →
      Spells form body text → Spells form (c :: body) (c :: text)

/-! ## Runs of marks -/

/-- A run of marks that ends inside a text does not depend on what follows the text. -/
theorem leadingMarks_append {mark : Char} {text : List Char}
    (h : leadingMarks mark text < text.length) (rest : List Char) :
    leadingMarks mark (text ++ rest) = leadingMarks mark text := by
  induction text with
  | nil => cases h
  | cons c text ih =>
      unfold leadingMarks at ih h ⊢
      rw [List.cons_append, List.takeWhile_cons, List.takeWhile_cons]
      rw [List.takeWhile_cons] at h
      split
      next hc =>
        rw [if_pos hc] at h
        rw [List.length_cons, List.length_cons, ih (by simpa using h)]
      next => rfl

/-- A text in which the run of marks does not end consists of marks. -/
theorem eq_replicate_of_leadingMarks {mark : Char} {text : List Char}
    (h : text.length ≤ leadingMarks mark text) : text = List.replicate text.length mark := by
  have heq : text.takeWhile (· == mark) = text := (List.takeWhile_prefix _).eq_of_length_le h
  refine List.eq_replicate_of_mem ?_
  intro c hc
  rw [← heq] at hc
  simpa using of_mem_takeWhile c hc

/-- Without three marks in a row there is no longer run at the beginning. -/
theorem leadingMarks_of_hasTripleMark {mark : Char} {text : List Char}
    (h : hasTripleMark mark text = false) : leadingMarks mark text ≤ 2 := by
  unfold leadingMarks
  match text, h with
  | [], _ | [_], _ | [_, _], _ =>
      exact Nat.le_trans (List.takeWhile_sublist _).length_le (by simp)
  | c :: d :: e :: text, h =>
      rw [hasTripleMark] at h
      by_cases hc : c = mark
      · by_cases hd : d = mark
        · have he : e ≠ mark := by
            rintro rfl
            simp [hc, hd] at h
          simp [hc, hd, he]
        · simp [hc, hd]
      · simp [hc]

/-! ## Reading -/

/-- What an escape consists of does not begin with blank space, so the backslash before it does not
end a line. -/
theorem breaksLine_of_escape {text : List Char} {result : Char × Nat}
    (h : escape? text = some result) : breaksLine text = false := by
  cases text with
  | nil => cases h
  | cons c text =>
      have hblank : ∀ mark ∈ [' ', '\t', '\n'], c ≠ mark := by
        rintro mark hmark rfl
        simp only [List.mem_cons, List.not_mem_nil, or_false] at hmark
        rcases hmark with rfl | rfl | rfl <;> cases h
      have hspace : isSpace c = false := by
        simp [isSpace, hblank]
      simp [breaksLine, hspace, hblank]

/-- What was read, with one more character at its beginning. -/
def prepend (c : Char) (result : Option (List Char × List Char)) :
    Option (List Char × List Char) :=
  result.map fun (value, following) ↦ (c :: value, following)

namespace QuotedForm

variable {form : QuotedForm} {body text rest : List Char}

/-- The marks of a tripled form. -/
theorem marks_of_multiline (h : form.multiline = true) :
    form.marks = List.replicate 3 form.mark := by
  rw [marks, if_pos h]

/-- Up to two marks before the closing ones belong to the text. -/
theorem read?_marks (h : form.multiline = true) (hrest : beginsWith (· == form.mark) rest = false)
    {count : Nat} (hcount : count ≤ 2) :
    form.read? (List.replicate count form.mark ++ (form.marks ++ rest)) =
      some (List.replicate count form.mark, rest) := by
  have hrun : ∀ c ∈ List.replicate (count + 3) form.mark, (c == form.mark) = true := by
    intro c hc
    simpa using (List.mem_replicate.mp hc).2
  have hstream : List.replicate count form.mark ++ (form.marks ++ rest) =
      form.mark :: (List.replicate (count + 2) form.mark ++ rest) := by
    rw [marks_of_multiline h, ← List.append_assoc, List.replicate_append_replicate]
    rfl
  have hwhole : form.mark :: (List.replicate (count + 2) form.mark ++ rest) =
      List.replicate (count + 3) form.mark ++ rest := rfl
  have hmin : min (count + 3) 5 = count + 3 := by omega
  rw [hstream, read?]
  simp only [if_true, h, hwhole, takeWhile_run hrun hrest, List.length_replicate]
  rw [hmin, if_pos (by omega)]
  simp

/-- A mark of a tripled form that belongs to a run of at most two is read as itself. -/
theorem read?_mark (h : form.multiline = true) (hrest : beginsWith (· == form.mark) rest = false)
    (hrun : leadingMarks form.mark (form.mark :: body) ≤ 2) :
    form.read? (form.mark :: (body ++ (form.marks ++ rest))) =
      prepend form.mark (form.read? (body ++ (form.marks ++ rest))) := by
  by_cases hends : leadingMarks form.mark (form.mark :: body) < (form.mark :: body).length
  · have hfew := leadingMarks_append hends (form.marks ++ rest)
    unfold leadingMarks at hfew hrun
    rw [List.cons_append] at hfew
    rw [read?]
    simp only [if_true, h, hfew]
    rw [if_neg (by omega)]
    rfl
  · -- the run goes on to the closing marks, which end the text with and without this one mark
    have hle := Nat.le_of_not_lt hends
    have hmarks := eq_replicate_of_leadingMarks hle
    rw [List.length_cons] at hle hmarks
    have hbody : body = List.replicate body.length form.mark := (List.cons.inj hmarks).2
    have hlong := read?_marks h hrest (Nat.le_trans hle hrun)
    have hshort := read?_marks h hrest (Nat.le_of_succ_le (Nat.le_trans hle hrun))
    rw [List.replicate_succ, ← hbody] at hlong
    rw [← hbody] at hshort
    rw [hshort, ← List.cons_append, hlong]
    rfl

/-- A character that is neither a mark nor begins an escape is read as itself. -/
theorem read?_plain {c : Char} (hmark : c ≠ form.mark)
    (hescape : form.hasEscapes = true → c ≠ '\\')
    (hc : (isPrintable c || (form.multiline && c == '\n')) = true) :
    form.read? (c :: rest) = prepend c (form.read? rest) := by
  have hno : ¬ (c = '\\' ∧ form.hasEscapes = true) := fun h ↦ hescape h.2 h.1
  rw [read?]
  simp only [if_neg hmark, if_neg hno, if_pos hc]
  rfl

/-- An escape is read as the character that it stands for. -/
theorem read?_escape {letters : List Char} {c : Char} (hform : form.hasEscapes = true)
    (h : IsEscape letters c) :
    form.read? ('\\' :: (letters ++ rest)) = prepend c (form.read? rest) := by
  have hmark : form.mark ≠ '\\' := by
    intro hmark
    rw [hasEscapes, hmark] at hform
    cases hform
  have hbreak := breaksLine_of_escape (h.reads rest)
  rw [read?]
  simp only [if_neg hmark.symm, hform, and_self, if_true, hbreak, Bool.and_false, h.reads rest,
    List.drop_left', Bool.false_eq_true, if_false]
  rfl

/-- The closing marks end the text. -/
theorem read?_closing (hrest : beginsWith (· == form.mark) rest = false) :
    form.read? (form.marks ++ rest) = some ([], rest) := by
  cases h : form.multiline with
  | true => exact read?_marks h hrest (Nat.zero_le 2)
  | false => simp [marks, read?, h]

/-- What stands for a text between the marks is read as that text, if no further mark follows. -/
theorem Spells.read? (h : form.Spells body text)
    (hrest : beginsWith (· == form.mark) rest = false) :
    form.read? (body ++ (form.marks ++ rest)) = some (text, rest) := by
  induction h with
  | nil => exact read?_closing hrest
  | mark body text hmulti hrun _ ih =>
      rw [List.cons_append, read?_mark hmulti hrest hrun, ih]
      rfl
  | escape c letters body text hform hletters _ ih =>
      rw [List.cons_append, List.append_assoc, read?_escape hform hletters, ih]
      rfl
  | plain c body text hmark hescape hc _ ih =>
      rw [List.cons_append, read?_plain hmark hescape hc, ih]
      rfl

end QuotedForm

/-! ## Writing -/

/-- A control character is written with its code in two hexadecimal digits. -/
theorem isEscape_of_isControl {c : Char} (h : isControl c = true) :
    IsEscape ['u', '0', '0', (Nat.digitChar (c.toNat / 16)).toUpper,
      (Nat.digitChar (c.toNat % 16)).toUpper] c := by
  have hall : ∀ code : Fin 128,
      scalar? ['0', '0', (Nat.digitChar (code / 16)).toUpper,
          (Nat.digitChar (code % 16)).toUpper] = some (Char.ofNat code) ∧
        ['u', '0', '0', (Nat.digitChar (code / 16)).toUpper,
          (Nat.digitChar (code % 16)).toUpper].all isPrintable = true := by
    decide
  have hcode : c.toNat < 128 := by
    simp only [isControl, Bool.or_eq_true, Bool.and_eq_true, decide_eq_true_eq, beq_iff_eq] at h
    omega
  obtain ⟨hscalar, hprintable⟩ := hall ⟨c.toNat, hcode⟩
  rw [Char.ofNat_toNat] at hscalar
  refine ⟨?_, hprintable⟩
  intro rest
  simp [escape?, hscalar]

/-- A character that is no control character is printable, apart from the line feed. -/
theorem isPrintable_of_isControl {c : Char} (h : isControl c = false) (hfeed : c ≠ '\n') :
    isPrintable c = true := by
  by_cases htab : c = '\t'
  · simp [isPrintable, htab]
  · simpa [isControl, isPrintable, htab, hfeed] using h

/-- The ways in which a character is written between double quotes, before the rest of a text. -/
inductive EscapeStep (multiline : Bool) (marks : Nat) (c : Char) (rest : List Char) :
    List Char → Prop where
  | mark : c = '"' → multiline = true → marks < 2 →
      EscapeStep multiline marks c rest ('"' :: escapeFrom multiline (marks + 1) rest)
  | escape (letters : List Char) : IsEscape letters c →
      EscapeStep multiline marks c rest ('\\' :: (letters ++ escapeFrom multiline 0 rest))
  | plain : c ≠ '"' → c ≠ '\\' → (isPrintable c || (multiline && c == '\n')) = true →
      EscapeStep multiline marks c rest (c :: escapeFrom multiline 0 rest)

/-- A character is written in one of these ways. -/
theorem escapeFrom_step (multiline : Bool) (marks : Nat) (c : Char) (rest : List Char) :
    EscapeStep multiline marks c rest (escapeFrom multiline marks (c :: rest)) := by
  unfold escapeFrom
  split
  next =>
    split
    next h =>
      simp only [Bool.and_eq_true, decide_eq_true_eq] at h
      exact .mark rfl h.1 h.2
    next => exact .escape ['"'] ⟨fun _ ↦ rfl, rfl⟩
  next => exact .escape ['\\'] ⟨fun _ ↦ rfl, rfl⟩
  next => exact .escape ['b'] ⟨fun _ ↦ rfl, rfl⟩
  next => exact .escape ['t'] ⟨fun _ ↦ rfl, rfl⟩
  next => exact .escape ['f'] ⟨fun _ ↦ rfl, rfl⟩
  next => exact .escape ['r'] ⟨fun _ ↦ rfl, rfl⟩
  next =>
    cases multiline with
    | true => exact .plain (by decide) (by decide) rfl
    | false => exact .escape ['n'] ⟨fun _ ↦ rfl, rfl⟩
  next hquote hslash _ _ _ _ hfeed =>
    split
    next h => exact .escape ['u', '0', '0', _, _] (isEscape_of_isControl h)
    next h =>
      have hprintable := isPrintable_of_isControl (Bool.eq_false_iff.mpr h) hfeed
      exact .plain hquote hslash (by rw [hprintable, Bool.true_or])

/-- Between double quotes no more than two of them stand in a row. -/
theorem leadingMarks_escapeFrom (multiline : Bool) {marks : Nat} (h : marks ≤ 2)
    (text : List Char) : marks + leadingMarks '"' (escapeFrom multiline marks text) ≤ 2 := by
  induction text generalizing marks with
  | nil => simpa [escapeFrom, leadingMarks] using h
  | cons c text ih =>
      have hstep := escapeFrom_step multiline marks c text
      generalize escapeFrom multiline marks (c :: text) = written at hstep ⊢
      cases hstep with
      | mark _ _ hmarks =>
          have hrest : marks + 1 + leadingMarks '"' (escapeFrom multiline (marks + 1) text) ≤ 2 :=
            ih hmarks
          simp only [leadingMarks, List.takeWhile_cons, beq_self_eq_true, if_true,
            List.length_cons] at hrest ⊢
          omega
      | escape letters => simpa [leadingMarks] using h
      | plain hquote => simpa [leadingMarks, hquote] using h

namespace QuotedForm

variable {form : QuotedForm} {body text : List Char}

/-- Between double quotes every text can be written. -/
theorem spells_escapeFrom (multiline : Bool) {marks : Nat} (h : marks ≤ 2) (text : List Char) :
    Spells ⟨'"', multiline⟩ (escapeFrom multiline marks text) text := by
  induction text generalizing marks with
  | nil => exact .nil
  | cons c text ih =>
      have hstep := escapeFrom_step multiline marks c text
      have hfew := leadingMarks_escapeFrom multiline h (c :: text)
      generalize escapeFrom multiline marks (c :: text) = written at hstep hfew ⊢
      have hrest := ih (Nat.zero_le 2)
      cases hstep with
      | mark hc hmulti hmarks =>
          subst hc
          exact .mark _ _ hmulti (Nat.le_trans (Nat.le_add_left _ _) hfew) (ih hmarks)
      | escape letters hletters => exact .escape c letters _ _ rfl hletters hrest
      | plain hquote hslash hc => exact .plain c _ _ hquote (fun _ ↦ hslash) hc hrest

/-- In a form without escapes a text stands for itself, if it has no control characters and the
marks in it cannot be taken for closing ones. -/
theorem spells_self (hform : form.hasEscapes = false) (hcontrol : ∀ c ∈ text, isControl c = false)
    (htriple : form.multiline = true → hasTripleMark form.mark text = false)
    (hsingle : form.multiline = false → form.mark ∉ text ∧ '\n' ∉ text) :
    form.Spells text text := by
  induction text with
  | nil => exact .nil
  | cons c text ih =>
      obtain ⟨hc, htail⟩ := List.forall_mem_cons.mp hcontrol
      have hrest : form.Spells text text := by
        refine ih htail ?_ ?_
        · intro hmulti
          have hnone := htriple hmulti
          rw [hasTripleMark, Bool.or_eq_false_iff] at hnone
          exact hnone.2
        · intro hmulti
          obtain ⟨hmark, hfeed⟩ := hsingle hmulti
          exact ⟨fun h ↦ hmark (.tail _ h), fun h ↦ hfeed (.tail _ h)⟩
      by_cases hmark : c = form.mark
      · subst hmark
        cases hmulti : form.multiline with
        | true => exact .mark _ _ hmulti (leadingMarks_of_hasTripleMark (htriple hmulti)) hrest
        | false => exact absurd List.mem_cons_self (hsingle hmulti).1
      · refine .plain c _ _ hmark (fun h ↦ absurd h (by simp [hform])) ?_ hrest
        by_cases hfeed : c = '\n'
        · cases hmulti : form.multiline with
          | true => simp [hfeed]
          | false => exact absurd (hfeed ▸ List.mem_cons_self) (hsingle hmulti).2
        · rw [isPrintable_of_isControl hc hfeed, Bool.true_or]

/-- A text that a form without escapes can hold stands for itself there. -/
theorem spells_of_holds (hform : form.hasEscapes = false) (h : form.holds text = true) :
    form.Spells text text := by
  simp only [holds, hform, Bool.false_and, Bool.not_false, Bool.and_true, Bool.and_eq_true,
    Bool.not_eq_true', List.any_eq_false] at h
  obtain ⟨hcontrol, hmarks⟩ := h
  refine spells_self hform (fun c hc ↦ Bool.eq_false_iff.mpr (hcontrol c hc)) ?_ ?_
  · intro hmulti
    simpa [hmulti] using hmarks
  · intro hmulti
    simpa [hmulti] using hmarks

/-- The form that is chosen is one of four, and it has escapes or holds the text. -/
theorem choose_cases (text : List Char) :
    choose text ∈ [basic, literal, multilineBasic, multilineLiteral] ∧
      ((choose text).hasEscapes = true ∨ (choose text).holds text = true) := by
  simp only [choose]
  cases hfind : [basic, literal, multilineBasic, multilineLiteral].find?
      fun form ↦ form.holds text with
  | some form =>
      have hholds := List.find?_some (p := fun form : QuotedForm ↦ form.holds text) hfind
      exact ⟨List.mem_of_find?_eq_some hfind, Or.inr hholds⟩
  | none =>
      rw [Option.getD_none]
      split
      next => exact ⟨by decide, Or.inl rfl⟩
      next => exact ⟨by decide, Or.inl rfl⟩

/-- The form that is chosen has quotes for its marks. -/
theorem mark_choose (text : List Char) :
    (choose text).mark = '"' ∨ (choose text).mark = '\'' := by
  have hmarks : ∀ form ∈ [basic, literal, multilineBasic, multilineLiteral],
      form.mark = '"' ∨ form.mark = '\'' := by
    decide
  exact hmarks _ (choose_cases text).1

/-- What is written between the marks of the chosen form stands for the text. -/
theorem spells_content (text : List Char) :
    (choose text).Spells ((choose text).content text) text := by
  cases hform : (choose text).hasEscapes with
  | false =>
      have hholds := (choose_cases text).2.resolve_left (by simp [hform])
      rw [content, hform]
      exact spells_of_holds hform hholds
  | true =>
      have hmark : (choose text).mark = '"' := by simpa [hasEscapes] using hform
      have hspells := spells_escapeFrom (choose text).multiline (Nat.zero_le 2) text
      rw [← hmark] at hspells
      rw [content, hform]
      exact hspells

/-! ## Marks and what stands between them -/

/-- A body begins with a line feed only if the text has one. -/
theorem Spells.beginsWith_lineFeed (h : form.Spells body text) (hmark : form.mark ≠ '\n')
    (htext : '\n' ∉ text) : beginsWith (· == '\n') body = false := by
  cases h with
  | nil => rfl
  | mark => simpa using hmark
  | escape => rfl
  | plain c => simpa using fun h : c = '\n' ↦ htext (h ▸ List.mem_cons_self)

/-- A body of a form on one line does not begin with the mark. -/
theorem Spells.beginsWith_mark (h : form.Spells body text) (hmulti : form.multiline = false)
    (hmark : form.mark ≠ '\\') : beginsWith (· == form.mark) body = false := by
  cases h with
  | nil => rfl
  | mark _ _ htriple =>
      rw [hmulti] at htriple
      cases htriple
  | escape => simpa using hmark.symm
  | plain c _ _ hc => simpa using hc

/-- No carriage return stands in a body. -/
theorem Spells.notMem_return (h : form.Spells body text) (hmark : form.mark ≠ '\r') :
    '\r' ∉ body := by
  induction h with
  | nil => exact List.not_mem_nil
  | mark _ _ _ _ _ ih => simpa using ⟨hmark.symm, ih⟩
  | escape c letters _ _ _ hletters _ ih =>
      have hreturn : '\r' ∉ letters := by
        intro h
        exact absurd (List.all_eq_true.mp hletters.printable _ h) (by decide)
      simpa using ⟨hreturn, ih⟩
  | plain c _ _ _ _ hc _ ih =>
      have hreturn : '\r' ≠ c := by
        rintro rfl
        revert hc
        cases form.multiline <;> decide
      simpa using ⟨hreturn, ih⟩

end QuotedForm

/-- A quotation mark of either kind. -/
def isMark (c : Char) : Bool :=
  c == '"' || c == '\''

/-- A quoted text that does not begin with three marks is on one line. -/
theorem readQuoted?_single {mark : Char} (hmark : mark = '"' ∨ mark = '\'') {text : List Char}
    (h : ∀ following, text ≠ mark :: mark :: following) :
    readQuoted? (mark :: text) = QuotedForm.read? ⟨mark, false⟩ text := by
  rcases hmark with rfl | rfl
  · rw [readQuoted?]
    · rfl
    · exact h
  · rw [readQuoted?]
    · rfl
    · exact h

/-- A quoted text that begins with three marks is tripled. -/
theorem readQuoted?_triple {mark : Char} (hmark : mark = '"' ∨ mark = '\'') (text : List Char) :
    readQuoted? (mark :: mark :: mark :: text) =
      QuotedForm.read? ⟨mark, true⟩ (dropLineFeed text) := by
  rcases hmark with rfl | rfl
  · rfl
  · rfl

namespace QuotedForm

variable {form : QuotedForm} {body text rest : List Char}

/-- The line feed that is written behind tripled marks is dropped, and no other one is. -/
theorem Spells.dropLineFeed_opening (h : form.Spells body text) (hmark : form.mark ≠ '\n')
    (hmulti : form.multiline = true) :
    dropLineFeed
        ((if text.contains '\n' then ['\n'] else []) ++ (body ++ (form.marks ++ rest))) =
      body ++ (form.marks ++ rest) := by
  split
  next => rfl
  next hfeed =>
    have hbegin : beginsWith (· == '\n') (body ++ (form.marks ++ rest)) = false := by
      cases body with
      | nil => simpa [marks_of_multiline hmulti, List.replicate_succ] using hmark
      | cons c body => exact h.beginsWith_lineFeed hmark (by simpa using hfeed)
    rw [List.nil_append, dropLineFeed]
    intro following heq
    rw [heq] at hbegin
    cases hbegin

/-- What stands for a text between tripled marks is read as that text. -/
theorem Spells.readQuoted?_multiline (h : form.Spells body text)
    (hmark : form.mark = '"' ∨ form.mark = '\'') (hmulti : form.multiline = true)
    (hrest : beginsWith (· == form.mark) rest = false) :
    readQuoted? (form.marks ++
        ((if text.contains '\n' then ['\n'] else []) ++ (body ++ (form.marks ++ rest)))) =
      some (text, rest) := by
  have hfeed : form.mark ≠ '\n' := by
    intro heq
    simp [heq] at hmark
  have hform : (⟨form.mark, true⟩ : QuotedForm) = form := by rw [← hmulti]
  have hopen := readQuoted?_triple hmark
    ((if text.contains '\n' then ['\n'] else []) ++ (body ++ (form.marks ++ rest)))
  rw [h.dropLineFeed_opening hfeed hmulti, hform, h.read? hrest] at hopen
  rw [marks_of_multiline hmulti] at hopen ⊢
  exact hopen

/-- What stands for a text between single marks is read as that text. -/
theorem Spells.readQuoted?_single (h : form.Spells body text)
    (hmark : form.mark = '"' ∨ form.mark = '\'') (hmulti : form.multiline = false)
    (hrest : beginsWith (· == form.mark) rest = false) :
    readQuoted? (form.marks ++ (body ++ (form.marks ++ rest))) = some (text, rest) := by
  have hslash : form.mark ≠ '\\' := by
    intro heq
    simp [heq] at hmark
  have hform : (⟨form.mark, false⟩ : QuotedForm) = form := by rw [← hmulti]
  have hmarks : form.marks = [form.mark] := by simp [marks, hmulti]
  -- the marks around an empty text are not taken for tripled ones, because no third one follows
  have htriple : ∀ following,
      body ++ (form.marks ++ rest) ≠ form.mark :: form.mark :: following := by
    intro following heq
    have hbegin := h.beginsWith_mark hmulti hslash
    cases body with
    | nil =>
        rw [hmarks, List.nil_append, List.singleton_append] at heq
        rw [(List.cons.inj heq).2] at hrest
        simp at hrest
    | cons c body =>
        rw [List.cons_append] at heq
        rw [(List.cons.inj heq).1] at hbegin
        simp at hbegin
  have hopen := Toml.readQuoted?_single hmark htriple
  rw [hform, h.read? hrest] at hopen
  rw [hmarks] at hopen ⊢
  exact hopen

end QuotedForm

/-- A quoted text is read back, if no further mark follows it. -/
theorem readQuoted?_quote (text : List Char) {rest : List Char}
    (h : beginsWith isMark rest = false) :
    readQuoted? (quote text ++ rest) = some (text, rest) := by
  have hspells := QuotedForm.spells_content text
  have hmark := QuotedForm.mark_choose text
  have hrest : beginsWith (· == (QuotedForm.choose text).mark) rest = false := by
    cases rest with
    | nil => rfl
    | cons c rest =>
        simp only [beginsWith_cons, isMark, Bool.or_eq_false_iff] at h ⊢
        rcases hmark with hmark | hmark
        · rw [hmark]
          exact h.1
        · rw [hmark]
          exact h.2
  cases hmulti : (QuotedForm.choose text).multiline with
  | true => simpa [quote, hmulti] using hspells.readQuoted?_multiline hmark hmulti hrest
  | false => simpa [quote, hmulti] using hspells.readQuoted?_single hmark hmulti hrest

/-- No carriage return stands in a quoted text. -/
theorem notMem_return_quote (text : List Char) : '\r' ∉ quote text := by
  have hmark : (QuotedForm.choose text).mark ≠ '\r' := by
    intro h
    simpa [h] using QuotedForm.mark_choose text
  have hmarks : '\r' ∉ (QuotedForm.choose text).marks := by
    intro h
    exact hmark (List.eq_of_mem_replicate h).symm
  have hbody := (QuotedForm.spells_content text).notMem_return hmark
  have hopening : ∀ feed : Bool, '\r' ∉ (if feed then ['\n'] else []) := by decide
  simp only [quote, List.mem_append, not_or]
  exact ⟨⟨⟨hmarks, hopening _⟩, hbody⟩, hmarks⟩

/-- A quoted text begins with a mark. -/
theorem exists_quote_eq_cons (text : List Char) :
    ∃ mark rest, quote text = mark :: rest ∧ (mark = '"' ∨ mark = '\'') := by
  obtain ⟨more, hmore⟩ : ∃ more,
      (QuotedForm.choose text).marks = (QuotedForm.choose text).mark :: more := by
    unfold QuotedForm.marks
    split
    next => exact ⟨_, rfl⟩
    next => exact ⟨_, rfl⟩
  simp only [quote, hmore, List.cons_append]
  exact ⟨_, _, rfl, QuotedForm.mark_choose text⟩

end ModelQuery.Toml
