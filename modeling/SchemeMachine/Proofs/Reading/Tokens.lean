import SchemeMachine.Datum.Token

/-!
# Tokens from left to right

A line is cut into tokens in several passes: at its double quotes, at its comment, at
blanks and around parentheses.  Seen from outside it is read once, from left to right.
A blank at the front is dropped, a parenthesis or a quote mark is a token, a literal is
a token up to its second double quote, and a word is a token up to the character that
ends it: `ofLine_blank`, `ofLine_mark`, `ofLine_literal` and `ofLine_word`.  Each of
them says that the tokens of the rest of the line follow.

A text is cut at its newlines first, and no token goes past one.  So the tokens of
several texts, one to a line, are those of the texts one after another:
`ofText_joined`.
-/

namespace SchemeMachine

namespace Text

/-! ## Pieces and words -/

theorem pieces_ne_nil (separator : Char) (cs : List Char) : pieces separator cs ≠ [] := by
  induction cs with
  | nil => exact nofun
  | cons c cs ih =>
      simp only [pieces, List.foldr_cons]
      split
      · exact nofun
      · cases List.foldr _ _ cs <;> exact nofun

theorem pieces_cons_of_ne {separator c : Char} (hc : c ≠ separator) (cs : List Char) :
    pieces separator (c :: cs) = extendFirst c (pieces separator cs) := by
  simp only [pieces, List.foldr_cons, if_neg hc]

@[simp] theorem pieces_cons_self (separator : Char) (cs : List Char) :
    pieces separator (separator :: cs) = [] :: pieces separator cs := by
  simp only [pieces, List.foldr_cons, if_true]

/-- What has no separator in it belongs to the first piece. -/
theorem pieces_append {separator : Char} {cs rest first : List Char} {others : List (List Char)}
    (hcs : separator ∉ cs) (hrest : pieces separator rest = first :: others) :
    pieces separator (cs ++ rest) = (cs ++ first) :: others := by
  induction cs with
  | nil => exact hrest
  | cons c cs ih =>
      have hc : c ≠ separator := fun heq => hcs (heq ▸ List.mem_cons_self)
      rw [List.cons_append, pieces_cons_of_ne hc,
        ih fun hmem => hcs (List.mem_cons_of_mem c hmem)]
      rfl

/-- A separator ends one text and begins another. -/
theorem pieces_append_separator (separator : Char) (cs rest : List Char) :
    pieces separator (cs ++ separator :: rest) = pieces separator cs ++ pieces separator rest := by
  induction cs with
  | nil => exact pieces_cons_self separator rest
  | cons c cs ih =>
      by_cases hc : c = separator
      · subst hc
        rw [List.cons_append, pieces_cons_self, pieces_cons_self, ih, List.cons_append]
      · rw [List.cons_append, pieces_cons_of_ne hc, pieces_cons_of_ne hc, ih]
        cases hpieces : pieces separator cs with
        | nil => exact absurd hpieces (pieces_ne_nil separator cs)
        | cons piece pieces => rfl

theorem leadingWord_blank {c : Char} (hc : isBlank c = true) (cs : List Char) :
    leadingWord (c :: cs) = ([], words cs) := by
  rw [leadingWord, List.foldr_cons, if_pos hc]
  rfl

theorem words_blank {c : Char} (hc : isBlank c = true) (cs : List Char) :
    words (c :: cs) = words cs := by
  rw [words, leadingWord_blank hc]
  rfl

/-- A word ends at a blank or with the text. -/
theorem leadingWord_append {word rest : List Char} (hword : ∀ c ∈ word, isBlank c = false)
    (hrest : ∀ c ∈ rest.head?, isBlank c = true) :
    leadingWord (word ++ rest) = (word, words rest) := by
  induction word with
  | nil =>
      cases rest with
      | nil => rfl
      | cons c rest =>
          have hc : isBlank c = true := hrest c rfl
          rw [List.nil_append, leadingWord_blank hc, words_blank hc]
  | cons c word ih =>
      obtain ⟨hc, hword⟩ := List.forall_mem_cons.mp hword
      have ih := ih hword
      simp only [leadingWord] at ih
      simp only [List.cons_append, leadingWord, List.foldr_cons, hc, ih, Bool.false_eq_true,
        if_false]

theorem words_append {word rest : List Char} (hsome : word ≠ [])
    (hword : ∀ c ∈ word, isBlank c = false) (hrest : ∀ c ∈ rest.head?, isBlank c = true) :
    words (word ++ rest) = word :: words rest := by
  rw [words, leadingWord_append hword hrest, closeWord, List.isEmpty_eq_false_iff.mpr hsome]
  rfl

end Text

namespace Token

open Text

/-! ## The words of a line of code -/

theorem not_standsAlone_of_blank {c : Char} (hc : isBlank c = true) : standsAlone c = false := by
  rw [← Bool.not_eq_true]
  intro halone
  simp only [standsAlone, Bool.or_eq_true, decide_eq_true_eq] at halone
  rcases halone with ((rfl | rfl) | rfl) | rfl
  all_goals exact absurd hc (by decide)

theorem spaced_append (code rest : List Char) :
    spaced (code ++ rest) = spaced code ++ spaced rest :=
  List.flatMap_append

theorem spaced_plain {code : List Char} (hcode : ∀ c ∈ code, standsAlone c = false) :
    spaced code = code := by
  induction code with
  | nil => rfl
  | cons c code ih =>
      obtain ⟨hc, hcode⟩ := List.forall_mem_cons.mp hcode
      have hfirst : spaced (c :: code) = c :: spaced code := by
        simp only [spaced, List.flatMap_cons, hc, Bool.false_eq_true, if_false,
          List.singleton_append]
      rw [hfirst, ih hcode]

theorem spaced_alone {c : Char} (hc : standsAlone c = true) (code : List Char) :
    spaced (c :: code) = ' ' :: ([c] ++ ' ' :: spaced code) := by
  simp only [spaced, List.flatMap_cons, if_pos hc]
  rfl

theorem words_spaced_blank {c : Char} (hc : isBlank c = true) (code : List Char) :
    words (spaced (c :: code)) = words (spaced code) := by
  have hfirst : spaced (c :: code) = c :: spaced code := by
    simp only [spaced, List.flatMap_cons, not_standsAlone_of_blank hc, Bool.false_eq_true,
      if_false, List.singleton_append]
  rw [hfirst, words_blank hc]

theorem isBlank_of_standsAlone {c : Char} (hc : standsAlone c = true) : isBlank c = false := by
  rw [← Bool.not_eq_true]
  intro hblank
  rw [not_standsAlone_of_blank hblank] at hc
  cases hc

theorem words_spaced_alone {c : Char} (hc : standsAlone c = true) (code : List Char) :
    words (spaced (c :: code)) = [c] :: words (spaced code) := by
  rw [spaced_alone hc, words_blank (by decide), words_append (List.cons_ne_nil c []),
    words_blank (by decide)]
  · simpa using isBlank_of_standsAlone hc
  · rintro c ⟨⟩
    decide

theorem words_spaced_word {word code : List Char} (hsome : word ≠ [])
    (hword : ∀ c ∈ word, isBlank c = false ∧ standsAlone c = false)
    (hcode : ∀ c ∈ code.head?, isBlank c = true ∨ standsAlone c = true) :
    words (spaced (word ++ code)) = word :: words (spaced code) := by
  rw [spaced_append, spaced_plain fun c hc => (hword c hc).2]
  refine words_append hsome (fun c hc => (hword c hc).1) ?_
  cases code with
  | nil => exact nofun
  | cons c code =>
      rcases hcode c rfl with hblank | halone
      · rw [← List.singleton_append, spaced_append,
          spaced_plain (by simpa using not_standsAlone_of_blank hblank)]
        rintro _ ⟨⟩
        exact hblank
      · rw [spaced_alone halone]
        rintro _ ⟨⟩
        decide

/-! ## A line from its front -/

/-- The code of a line with its slots, and its literals. -/
def parts (line : List Char) : List Char × List (List Char) :=
  codeAndLiterals (pieces '"' line)

theorem ofLine_eq (line : List Char) :
    ofLine line = fillSlots (words (spaced (uncommented (parts line).1))) (parts line).2 := rfl

theorem parts_append {cs : List Char} (hcs : '"' ∉ cs) (rest : List Char) :
    parts (cs ++ rest) = (cs ++ (parts rest).1, (parts rest).2) := by
  cases hrest : pieces '"' rest with
  | nil => exact absurd hrest (pieces_ne_nil _ _)
  | cons first others =>
      simp only [parts, pieces_append hcs hrest, hrest]
      cases others with
      | nil => rfl
      | cons literal others => simp only [codeAndLiterals, List.append_assoc]

theorem parts_literal {content : List Char} (hcontent : '"' ∉ content) (rest : List Char) :
    parts ('"' :: (content ++ '"' :: rest)) =
      (slot :: (parts rest).1, content :: (parts rest).2) := by
  have hpieces : pieces '"' ('"' :: (content ++ '"' :: rest)) =
      [] :: content :: pieces '"' rest := by
    have hempty : pieces '"' ('"' :: rest) = [] :: pieces '"' rest := pieces_cons_self _ _
    rw [pieces_cons_self, pieces_append hcontent hempty, List.append_nil]
  rw [parts, hpieces]
  rfl

theorem uncommented_append {code : List Char} (hcode : commentStart ∉ code) (rest : List Char) :
    uncommented (code ++ rest) = code ++ uncommented rest := by
  refine List.takeWhile_append_of_pos fun c hc => ?_
  have hne : c ≠ commentStart := fun heq => hcode (heq ▸ hc)
  simpa using hne

theorem fillSlots_word {word : List Char} (hword : word ≠ [slot])
    (words literals : List (List Char)) :
    fillSlots (word :: words) literals =
      (fillSlots words literals).map (String.ofList word :: ·) := by
  rw [fillSlots.eq_def]
  exact if_neg hword

theorem fillSlots_slot (words : List (List Char)) (literal : List Char)
    (literals : List (List Char)) :
    fillSlots ([slot] :: words) (literal :: literals) =
      (fillSlots words literals).map (String.ofList ('"' :: literal) :: ·) := by
  rw [fillSlots, if_pos rfl]

/-- Blanks at the front of a line are dropped. -/
theorem ofLine_blank {c : Char} (hc : isBlank c = true) (rest : List Char) :
    ofLine (c :: rest) = ofLine rest := by
  have hquote : '"' ∉ [c] := by
    rw [List.mem_singleton]
    rintro rfl
    exact absurd hc (by decide)
  have hcomment : commentStart ∉ [c] := by
    rw [List.mem_singleton]
    rintro rfl
    exact absurd hc (by decide)
  rw [ofLine_eq, ← List.singleton_append, parts_append hquote, uncommented_append hcomment,
    List.singleton_append, words_spaced_blank hc, ← ofLine_eq]

/-- A parenthesis or a quote mark at the front of a line is a token. -/
theorem ofLine_mark {c : Char} (hc : c = '(' ∨ c = ')' ∨ c = '\'') (rest : List Char) :
    ofLine (c :: rest) = (ofLine rest).map (String.ofList [c] :: ·) := by
  have halone : standsAlone c = true ∧ '"' ∉ [c] ∧ commentStart ∉ [c] ∧ [c] ≠ [slot] := by
    rcases hc with rfl | rfl | rfl
    all_goals decide
  obtain ⟨halone, hquote, hcomment, hslot⟩ := halone
  rw [ofLine_eq, ← List.singleton_append, parts_append hquote, uncommented_append hcomment,
    List.singleton_append, words_spaced_alone halone, fillSlots_word hslot, ← ofLine_eq]

/-- A literal at the front of a line is a token, whatever stands in it. -/
theorem ofLine_literal {content : List Char} (hcontent : '"' ∉ content) (rest : List Char) :
    ofLine ('"' :: (content ++ '"' :: rest)) =
      (ofLine rest).map (String.ofList ('"' :: content) :: ·) := by
  rw [ofLine_eq, parts_literal hcontent, ← List.singleton_append,
    uncommented_append (by decide), List.singleton_append, words_spaced_alone (by decide),
    fillSlots_slot, ← ofLine_eq]

/-- Whether a character ends the word before it. -/
def endsWord (c : Char) : Bool :=
  isBlank c || standsAlone c || c = '"' || c = commentStart

/-- Nothing in front of these characters would run into them. -/
def Separated (rest : List Char) : Prop :=
  ∀ c ∈ rest.head?, endsWord c = true

theorem separated_cons {c : Char} (hc : endsWord c = true) (rest : List Char) :
    Separated (c :: rest) := by
  rintro _ ⟨⟩
  exact hc

/-- What ends a word in the line ends it in the code too, where a slot has taken the
place of a literal and nothing that of a comment. -/
theorem Separated.code {rest : List Char} (h : Separated rest) :
    ∀ c ∈ (uncommented (parts rest).1).head?, isBlank c = true ∨ standsAlone c = true := by
  cases rest with
  | nil => exact nofun
  | cons c rest =>
      have hc := h c rfl
      simp only [endsWord, Bool.or_eq_true, decide_eq_true_eq] at hc
      by_cases hquote : c = '"'
      · subst hquote
        have hcode : ∃ code, (parts ('"' :: rest)).1 = slot :: code := by
          rw [parts, pieces_cons_self]
          cases hrest : pieces '"' rest with
          | nil => exact absurd hrest (pieces_ne_nil _ _)
          | cons literal others => exact ⟨_, rfl⟩
        obtain ⟨code, hcode⟩ := hcode
        rw [hcode, ← List.singleton_append, uncommented_append (by decide)]
        rintro _ ⟨⟩
        exact .inr (by decide)
      · rw [← List.singleton_append, parts_append (by simpa using Ne.symm hquote)]
        by_cases hcomment : c = commentStart
        · subst hcomment
          exact nofun
        · rw [uncommented_append (by simpa using Ne.symm hcomment)]
          rintro _ ⟨⟩
          rcases hc with ((hblank | halone) | heq) | heq
          · exact .inl hblank
          · exact .inr halone
          · exact absurd heq hquote
          · exact absurd heq hcomment

/-- A word at the front of a line is a token. -/
theorem ofLine_word {word rest : List Char} (hsome : word ≠ [])
    (hword : ∀ c ∈ word, endsWord c = false) (hrest : Separated rest) :
    ofLine (word ++ rest) = (ofLine rest).map (String.ofList word :: ·) := by
  have hplain : ∀ c ∈ word, (isBlank c = false ∧ standsAlone c = false) ∧ c ≠ '"' ∧
      c ≠ commentStart := by
    intro c hc
    have hends := hword c hc
    simp only [endsWord, Bool.or_eq_false_iff, decide_eq_false_iff_not] at hends
    exact ⟨⟨hends.1.1.1, hends.1.1.2⟩, hends.1.2, hends.2⟩
  have hquote : '"' ∉ word := fun hmem => (hplain _ hmem).2.1 rfl
  have hcomment : commentStart ∉ word := fun hmem => (hplain _ hmem).2.2 rfl
  have hslot : word ≠ [slot] := by
    rintro rfl
    exact absurd (hplain slot List.mem_cons_self).1.2 (by decide)
  rw [ofLine_eq, parts_append hquote, uncommented_append hcomment,
    words_spaced_word hsome (fun c hc => (hplain c hc).1) hrest.code, fillSlots_word hslot,
    ← ofLine_eq]

/-! ## Several lines -/

theorem ofLines_append {lines more : List (List Char)} {tokens : List Token}
    (h : ofLines lines = .ok tokens) :
    ofLines (lines ++ more) = (ofLines more).map (tokens ++ ·) := by
  induction lines generalizing tokens with
  | nil =>
      cases h
      rw [List.nil_append]
      cases ofLines more <;> rfl
  | cons line lines ih =>
      rw [ofLines] at h
      rw [List.cons_append, ofLines]
      cases hline : ofLine line with
      | error fault => simp [hline] at h
      | ok first =>
          cases hlines : ofLines lines with
          | error fault => simp [hline, hlines, Except.map] at h
          | ok others =>
              simp only [hline, hlines, Except.map, Except.ok.injEq] at h
              subst h
              simp only [ih hlines]
              cases ofLines more <;> simp [Except.map]

/-- The tokens of two texts, the one on the lines after the other. -/
theorem ofText_lines {text more : String} {tokens others : List Token}
    (htext : ofText text = .ok tokens) (hmore : ofText more = .ok others) :
    ofText (text ++ "\n" ++ more) = .ok (tokens ++ others) := by
  have hpieces : pieces '\n' (text ++ "\n" ++ more).toList =
      pieces '\n' text.toList ++ pieces '\n' more.toList := by
    rw [← pieces_append_separator]
    simp
  rw [ofText, hpieces, ofLines_append htext]
  simp only [ofText] at hmore
  rw [hmore]
  rfl

/-- Whether a text can be cut into tokens. -/
def isCut (text : String) : Bool :=
  (ofText text).isOk

/-- The tokens of a text that can be cut into tokens, and otherwise none. -/
def ofCut (text : String) : List Token :=
  match ofText text with
  | .ok tokens => tokens
  | .error _ => []

theorem ofText_of_isCut {text : String} (h : isCut text = true) :
    ofText text = .ok (ofCut text) := by
  unfold isCut at h
  unfold ofCut
  cases htext : ofText text with
  | ok tokens => rfl
  | error fault => simp [htext, Except.isOk, Except.toBool] at h

theorem eq_error_of_map {α β : Type} {result : Except Fault α} {f : α → β} {fault : Fault}
    (h : result.map f = .error fault) : result = .error fault := by
  cases result with
  | error found => exact congrArg Except.error (Except.error.inj h)
  | ok a => cases h

theorem fillSlots_fault {words literals : List (List Char)} {fault : Fault}
    (h : fillSlots words literals = .error fault) : fault = .literalMissing := by
  induction words generalizing literals with
  | nil => cases h
  | cons word words ih =>
      rw [fillSlots.eq_def] at h
      dsimp only at h
      split at h
      · split at h
        · exact (Except.error.inj h).symm
        · exact ih (eq_error_of_map h)
      · exact ih (eq_error_of_map h)

theorem ofLines_fault {lines : List (List Char)} {fault : Fault}
    (h : ofLines lines = .error fault) : fault = .literalMissing := by
  induction lines with
  | nil => cases h
  | cons line lines ih =>
      rw [ofLines] at h
      split at h
      · next found hline =>
          cases h
          exact fillSlots_fault hline
      · exact ih (eq_error_of_map h)

/-- A text that has no tokens has a slot without a literal. -/
theorem ofText_of_not_isCut {text : String} (h : isCut text = false) :
    ofText text = .error .literalMissing := by
  unfold isCut at h
  cases htext : ofText text with
  | ok tokens => simp [htext, Except.isOk, Except.toBool] at h
  | error fault => rw [ofLines_fault htext]

/-- The tokens of some texts, one after another on lines of their own. -/
theorem ofText_joined {texts : List String} (h : ∀ text ∈ texts, isCut text = true) :
    ofText ("\n".intercalate texts) = .ok (texts.flatMap ofCut) := by
  induction texts with
  | nil => rfl
  | cons text texts ih =>
      obtain ⟨hfirst, hothers⟩ := List.forall_mem_cons.mp h
      cases texts with
      | nil =>
          rw [String.intercalate_singleton, ofText_of_isCut hfirst]
          simp
      | cons next texts =>
          rw [String.intercalate_cons_cons, ofText_lines (ofText_of_isCut hfirst) (ih hothers)]
          rfl

end Token

end SchemeMachine
