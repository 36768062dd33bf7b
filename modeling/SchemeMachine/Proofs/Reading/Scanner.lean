import SchemeMachine.Proofs.Reading.Tokens

/-!
# Tokens by a scanner

`scan` cuts a line in one pass.  It is either in code, with the word that it has seen so far,
or in a literal.  A double quote goes from the one to the other, a comment start ends the
line, and blanks, parentheses and quote marks end the word.

The tokenizer goes over a line in several passes instead, and has the literals wait in a
queue until the slots that they left are filled again.  The two agree on every line in which
the scanner meets no slot character: `filled_of_clean`.  The link between the queue and
the place in the line is that the literals which the scanner has met are the first ones of
the queue (`literals_scan_isPrefix`): those that are missing stand in the comment.

A slot character in the code takes a literal as well, and so every later literal of the line
moves to the slot before its own.  `filled` says where each literal goes.
-/

namespace SchemeMachine

namespace Text

theorem pieces_eq_splitOn (separator : Char) (cs : List Char) :
    pieces separator cs = cs.splitOn separator := by
  induction cs with
  | nil => rfl
  | cons c cs ih =>
      rw [List.splitOn, List.splitOnP_cons_eq_if_modifyHead, ← List.splitOn, ← ih]
      by_cases hc : c = separator
      · subst hc
        rw [pieces_cons_self, if_pos (beq_self_eq_true c)]
      · rw [pieces_cons_of_ne hc, if_neg (by simpa using hc)]
        cases hpieces : pieces separator cs with
        | nil => exact absurd hpieces (pieces_ne_nil separator cs)
        | cons piece others => rfl

end Text

namespace Token

open Text

/-! ## The scanner -/

/-- What the scanner finds: a word or a mark, a literal, or a slot character in the code. -/
inductive Found where
  | word (cs : List Char)
  | literal (content : List Char)
  | slotCharacter
deriving DecidableEq

/-- Where the scanner is: in code, after these characters of a word, or in a literal, after
these characters of it. -/
inductive ScanMode where
  | code (word : List Char)
  | literal (content : List Char)

/-- Put a finished word in front of what is found after it; an empty word is none. -/
def closeFound (word : List Char) (found : List Found) : List Found :=
  if word = [] then found else .word word :: found

/-- Scan the rest of a line. -/
def scan : ScanMode → List Char → List Found
  | .code word, [] => closeFound word []
  | .code word, c :: cs =>
    if c = '"' then closeFound word (scan (.literal []) cs)
    else if c = commentStart then closeFound word []
    else if c = '(' ∨ c = ')' ∨ c = '\'' then
      closeFound word (.word [c] :: scan (.code []) cs)
    else if c = slot then closeFound word (.slotCharacter :: scan (.code []) cs)
    else if isBlank c then closeFound word (scan (.code []) cs)
    else scan (.code (word ++ [c])) cs
  | .literal content, [] => [.literal content]
  | .literal content, c :: cs =>
    if c = '"' then .literal content :: scan (.code []) cs
    else scan (.literal (content ++ [c])) cs

/-- Scan a line. -/
def scanLine (line : List Char) : List Found :=
  scan (.code []) line

/-- Every second element of a list, from the second on. -/
def everySecond {α : Type} : List α → List α
  | _ :: second :: rest => second :: everySecond rest
  | _ => []

/-- The literals of a line: every second piece of the whole line, its comment included, cut at
the double quotes. -/
def literalsOf (line : List Char) : List (List Char) :=
  everySecond (line.splitOn '"')

namespace Found

/-- The token that was found. -/
def token : Found → Token
  | word cs => String.ofList cs
  | literal content => String.ofList ('"' :: content)
  | slotCharacter => String.ofList [slot]

/-- Whether what was found takes a literal. -/
def isSlot : Found → Bool
  | word _ => false
  | literal _ => true
  | slotCharacter => true

/-- The literal that was found. -/
def literal? : Found → Option (List Char)
  | literal content => some content
  | _ => none

/-- What was found as a word of the code in which slots have taken the place of literals. -/
def inCode : Found → List Char
  | word cs => cs
  | _ => [slot]

end Found

/-- The number of slots in what was found. -/
def slots (found : List Found) : Nat :=
  found.countP Found.isSlot

/-- What was found as tokens, where the slot that has `j` slots before it is the literal with
`j` literals before it. -/
def filled (literals : List (List Char)) (found : List Found) : List Token :=
  found.mapIdx fun position piece =>
    if piece.isSlot then
      String.ofList ('"' :: literals.getD (slots (found.take position)) [])
    else piece.token

/-! ## The code of a line -/

/-- The words of the code of a line. -/
def codeWords (line : List Char) : List (List Char) :=
  words (spaced (uncommented (parts line).1))

theorem ofLine_eq_fillSlots (line : List Char) :
    ofLine line = fillSlots (codeWords line) (parts line).2 := rfl

theorem codeAndLiterals_snd (pieces : List (List Char)) :
    (codeAndLiterals pieces).2 = everySecond pieces := by
  fun_induction codeAndLiterals pieces with
  | case1 => rfl
  | case2 code => rfl
  | case3 code literal rest moreCode literals heq ih =>
      rw [heq] at ih
      exact congrArg (literal :: ·) ih

theorem parts_snd (line : List Char) : (parts line).2 = literalsOf line := by
  rw [parts, codeAndLiterals_snd, pieces_eq_splitOn, literalsOf]

/-- A literal without a second double quote runs to the end of the line. -/
theorem parts_open_literal {content : List Char} (hcontent : '"' ∉ content) :
    parts ('"' :: content) = ([slot], [content]) := by
  have hpieces : pieces '"' content = [content] := by
    have happend : pieces '"' (content ++ []) = [content ++ []] := pieces_append hcontent rfl
    rwa [List.append_nil] at happend
  rw [parts, pieces_cons_self, hpieces]
  rfl

theorem codeWords_comment (rest : List Char) : codeWords (commentStart :: rest) = [] := by
  rw [codeWords, ← List.singleton_append, parts_append (by decide)]
  rfl

theorem codeWords_blank {c : Char} (hblank : isBlank c = true) (hquote : c ≠ '"')
    (hcomment : c ≠ commentStart) (rest : List Char) : codeWords (c :: rest) = codeWords rest := by
  rw [codeWords, ← List.singleton_append, parts_append (by simpa using Ne.symm hquote),
    uncommented_append (by simpa using Ne.symm hcomment), List.singleton_append,
    words_spaced_blank hblank, ← codeWords]

theorem codeWords_alone {c : Char} (halone : standsAlone c = true) (hquote : c ≠ '"')
    (hcomment : c ≠ commentStart) (rest : List Char) :
    codeWords (c :: rest) = [c] :: codeWords rest := by
  rw [codeWords, ← List.singleton_append, parts_append (by simpa using Ne.symm hquote),
    uncommented_append (by simpa using Ne.symm hcomment), List.singleton_append,
    words_spaced_alone halone, ← codeWords]

theorem codeWords_slot_of_parts {line rest : List Char} (h : (parts line).1 = slot :: rest) :
    codeWords line = [slot] :: words (spaced (uncommented rest)) := by
  rw [codeWords, h, ← List.singleton_append, uncommented_append (by decide),
    List.singleton_append, words_spaced_alone (by decide)]

theorem codeWords_literal {content : List Char} (hcontent : '"' ∉ content) (rest : List Char) :
    codeWords ('"' :: (content ++ '"' :: rest)) = [slot] :: codeWords rest := by
  apply codeWords_slot_of_parts
  rw [parts_literal hcontent]

theorem codeWords_open_literal {content : List Char} (hcontent : '"' ∉ content) :
    codeWords ('"' :: content) = [[slot]] := by
  have hcode : (parts ('"' :: content)).1 = slot :: [] := by rw [parts_open_literal hcontent]
  rw [codeWords_slot_of_parts hcode]
  rfl

/-- A character that does not end a word, taken apart. -/
theorem endsWord_eq_false_iff {c : Char} :
    endsWord c = false ↔
      isBlank c = false ∧ standsAlone c = false ∧ c ≠ '"' ∧ c ≠ commentStart := by
  simp only [endsWord, Bool.or_eq_false_iff, decide_eq_false_iff_not, and_assoc]

/-- A word in front of a character that ends it. -/
theorem codeWords_word {word : List Char} (hsome : word ≠ [])
    (hword : ∀ c ∈ word, endsWord c = false) {rest : List Char} (hrest : Separated rest) :
    codeWords (word ++ rest) = word :: codeWords rest := by
  have hquote : '"' ∉ word := fun hmem => (endsWord_eq_false_iff.mp (hword _ hmem)).2.2.1 rfl
  have hcomment : commentStart ∉ word :=
    fun hmem => (endsWord_eq_false_iff.mp (hword _ hmem)).2.2.2 rfl
  rw [codeWords, parts_append hquote, uncommented_append hcomment,
    words_spaced_word hsome _ hrest.code, ← codeWords]
  intro c hc
  have hends := endsWord_eq_false_iff.mp (hword c hc)
  exact ⟨hends.1, hends.2.1⟩

/-! ## The scanner follows the passes -/

/-- What the scanner has seen of the word or the literal that it is in. -/
def ScanMode.seen : ScanMode → List Char
  | code word => word
  | literal content => '"' :: content

/-- The scanner has not passed the end of the word or the literal that it is in. -/
def ScanMode.Open : ScanMode → Prop
  | code word => ∀ c ∈ word, endsWord c = false
  | literal content => '"' ∉ content

theorem map_inCode_closeFound {word rest : List Char} (hword : (ScanMode.code word).Open)
    (hrest : Separated rest) {found : List Found}
    (hfound : codeWords rest = found.map Found.inCode) :
    codeWords (word ++ rest) = (closeFound word found).map Found.inCode := by
  by_cases hsome : word = []
  · subst hsome
    exact hfound
  · rw [closeFound, if_neg hsome, codeWords_word hsome hword hrest, hfound]
    rfl

theorem standsAlone_eq_false_iff {c : Char} :
    standsAlone c = false ↔ ¬(c = '(' ∨ c = ')' ∨ c = '\'') ∧ c ≠ slot := by
  simp only [standsAlone, Bool.or_eq_false_iff, decide_eq_false_iff_not, not_or, and_assoc]

/-- The word goes on with a character that is none of those the scanner looks for. -/
theorem ScanMode.Open.snoc_code {word : List Char} {c : Char} (h : (ScanMode.code word).Open)
    (hquote : c ≠ '"') (hcomment : c ≠ commentStart) (hmark : ¬(c = '(' ∨ c = ')' ∨ c = '\''))
    (hslot : c ≠ slot) (hblank : ¬isBlank c = true) : (ScanMode.code (word ++ [c])).Open := by
  intro d hd
  rcases List.mem_append.mp hd with hmem | hlast
  · exact h d hmem
  · rw [List.mem_singleton.mp hlast]
    exact endsWord_eq_false_iff.mpr ⟨Bool.eq_false_iff.mpr hblank,
      standsAlone_eq_false_iff.mpr ⟨hmark, hslot⟩, hquote, hcomment⟩

theorem ScanMode.Open.snoc_literal {content : List Char} {c : Char}
    (h : (ScanMode.literal content).Open) (hc : c ≠ '"') :
    (ScanMode.literal (content ++ [c])).Open := by
  intro hmem
  rcases List.mem_append.mp hmem with hmem | hlast
  · exact h hmem
  · exact hc (List.mem_singleton.mp hlast).symm

theorem open_code_nil : (ScanMode.code []).Open := by
  intro c hc
  cases hc

theorem open_literal_nil : (ScanMode.literal []).Open := by
  intro hc
  cases hc

/-- The words of the code are what the scanner finds. -/
theorem codeWords_scan (mode : ScanMode) (cs : List Char) (hmode : mode.Open) :
    codeWords (mode.seen ++ cs) = (scan mode cs).map Found.inCode := by
  fun_induction scan mode cs with
  | case1 word =>
      exact map_inCode_closeFound hmode (fun c hc => by cases hc) rfl
  | case2 word cs ih =>
      -- a literal begins
      have hliteral := ih open_literal_nil
      exact map_inCode_closeFound hmode (separated_cons rfl cs) hliteral
  | case3 word cs hquote =>
      exact map_inCode_closeFound hmode (separated_cons rfl cs) (codeWords_comment cs)
  | case4 word c cs hquote hcomment hmark ih =>
      have halone : standsAlone c = true := by
        rcases hmark with rfl | rfl | rfl <;> rfl
      apply map_inCode_closeFound hmode
      · exact separated_cons (by simp [endsWord, halone]) cs
      · rw [codeWords_alone halone hquote hcomment]
        exact congrArg ([c] :: ·) (ih open_code_nil)
  | case5 word cs hquote hcomment hmark ih =>
      apply map_inCode_closeFound hmode (separated_cons rfl cs)
      rw [codeWords_alone rfl hquote hcomment]
      exact congrArg ([slot] :: ·) (ih open_code_nil)
  | case6 word c cs hquote hcomment hmark hslot hblank ih =>
      apply map_inCode_closeFound hmode
      · exact separated_cons (by simp [endsWord, hblank]) cs
      · rw [codeWords_blank hblank hquote hcomment]
        exact ih open_code_nil
  | case7 word c cs hquote hcomment hmark hslot hblank ih =>
      have hseen := ih (hmode.snoc_code hquote hcomment hmark hslot hblank)
      simpa only [ScanMode.seen, List.cons_append, List.append_assoc, List.nil_append] using hseen
  | case8 content =>
      rw [ScanMode.seen, List.append_nil, codeWords_open_literal hmode]
      rfl
  | case9 content cs ih =>
      have hrest := ih open_code_nil
      rw [ScanMode.seen, List.cons_append, codeWords_literal hmode]
      exact congrArg ([slot] :: ·) hrest
  | case10 content c cs hquote ih =>
      have hseen := ih (hmode.snoc_literal hquote)
      simpa only [ScanMode.seen, List.cons_append, List.append_assoc, List.nil_append] using hseen

theorem codeWords_eq_scanLine (line : List Char) :
    codeWords line = (scanLine line).map Found.inCode :=
  codeWords_scan (.code []) line open_code_nil

theorem filterMap_closeFound (word : List Char) (found : List Found) :
    (closeFound word found).filterMap Found.literal? = found.filterMap Found.literal? := by
  rw [closeFound]
  split
  · rfl
  · rfl

/-- Code in front of a line adds no literal. -/
theorem literals_append {cs : List Char} (hcs : '"' ∉ cs) (rest : List Char) :
    (parts (cs ++ rest)).2 = (parts rest).2 := by
  rw [parts_append hcs]

theorem literals_code {word : List Char} (h : (ScanMode.code word).Open) (rest : List Char) :
    (parts (word ++ rest)).2 = (parts rest).2 :=
  literals_append (fun hmem => (endsWord_eq_false_iff.mp (h _ hmem)).2.2.1 rfl) rest

theorem literals_code_cons {word : List Char} (h : (ScanMode.code word).Open) {c : Char}
    (hc : c ≠ '"') (rest : List Char) : (parts (word ++ c :: rest)).2 = (parts rest).2 := by
  rw [literals_code h, ← List.singleton_append]
  exact literals_append (by simpa using Ne.symm hc) rest

/-- The literals that the scanner finds are the first literals of the line.  It does not find
those in the comment. -/
theorem literals_scan_isPrefix (mode : ScanMode) (cs : List Char) (hmode : mode.Open) :
    (scan mode cs).filterMap Found.literal? <+: (parts (mode.seen ++ cs)).2 := by
  fun_induction scan mode cs with
  | case1 word =>
      rw [filterMap_closeFound]
      exact List.nil_prefix
  | case2 word cs ih =>
      rw [filterMap_closeFound, ScanMode.seen, literals_code hmode]
      exact ih open_literal_nil
  | case3 word cs hquote =>
      rw [filterMap_closeFound]
      exact List.nil_prefix
  | case4 word c cs hquote hcomment hmark ih =>
      rw [filterMap_closeFound, ScanMode.seen, literals_code_cons hmode hquote]
      exact ih open_code_nil
  | case5 word cs hquote hcomment hmark ih =>
      rw [filterMap_closeFound, ScanMode.seen, literals_code_cons hmode hquote]
      exact ih open_code_nil
  | case6 word c cs hquote hcomment hmark hslot hblank ih =>
      rw [filterMap_closeFound, ScanMode.seen, literals_code_cons hmode hquote]
      exact ih open_code_nil
  | case7 word c cs hquote hcomment hmark hslot hblank ih =>
      have hseen := ih (hmode.snoc_code hquote hcomment hmark hslot hblank)
      simpa only [ScanMode.seen, List.cons_append, List.append_assoc, List.nil_append] using hseen
  | case8 content =>
      rw [ScanMode.seen, List.append_nil, parts_open_literal hmode]
      exact List.prefix_refl _
  | case9 content cs ih =>
      rw [ScanMode.seen, List.cons_append, parts_literal hmode]
      exact List.prefix_cons_inj content |>.mpr (ih open_code_nil)
  | case10 content c cs hquote ih =>
      have hseen := ih (hmode.snoc_literal hquote)
      simpa only [ScanMode.seen, List.cons_append, List.append_assoc, List.nil_append] using hseen

/-! ## The words that the scanner finds -/

/-- No word that the scanner finds looks like a slot. -/
def Found.Plain : Found → Prop
  | word cs => cs ≠ [slot]
  | _ => True

theorem plain_closeFound {word : List Char} {found : List Found}
    (hword : (ScanMode.code word).Open) (hfound : ∀ piece ∈ found, piece.Plain) :
    ∀ piece ∈ closeFound word found, piece.Plain := by
  rw [closeFound]
  split
  · exact hfound
  · refine List.forall_mem_cons.mpr ⟨?_, hfound⟩
    rintro rfl
    exact absurd (hword slot List.mem_cons_self) (by decide)

theorem plain_scan (mode : ScanMode) (cs : List Char) (hmode : mode.Open) :
    ∀ piece ∈ scan mode cs, piece.Plain := by
  fun_induction scan mode cs with
  | case1 word => exact plain_closeFound hmode (fun _ h => by cases h)
  | case2 word cs ih => exact plain_closeFound hmode (ih open_literal_nil)
  | case3 word cs hquote => exact plain_closeFound hmode (fun _ h => by cases h)
  | case4 word c cs hquote hcomment hmark ih =>
      apply plain_closeFound hmode
      refine List.forall_mem_cons.mpr ⟨?_, ih open_code_nil⟩
      intro heq
      obtain rfl : c = slot := List.head_eq_of_cons_eq heq
      exact absurd hmark (by decide)
  | case5 word cs hquote hcomment hmark ih =>
      exact plain_closeFound hmode (List.forall_mem_cons.mpr ⟨trivial, ih open_code_nil⟩)
  | case6 word c cs hquote hcomment hmark hslot hblank ih =>
      exact plain_closeFound hmode (ih open_code_nil)
  | case7 word c cs hquote hcomment hmark hslot hblank ih =>
      exact ih (hmode.snoc_code hquote hcomment hmark hslot hblank)
  | case8 content => exact List.forall_mem_cons.mpr ⟨trivial, fun _ h => by cases h⟩
  | case9 content cs ih => exact List.forall_mem_cons.mpr ⟨trivial, ih open_code_nil⟩
  | case10 content c cs hquote ih => exact ih (hmode.snoc_literal hquote)

theorem plain_scanLine (line : List Char) : ∀ piece ∈ scanLine line, piece.Plain :=
  plain_scan (.code []) line open_code_nil

/-! ## Filling the slots -/

theorem slots_cons (piece : Found) (found : List Found) :
    slots (piece :: found) = slots found + if piece.isSlot then 1 else 0 :=
  List.countP_cons

theorem filled_word (literals : List (List Char)) (cs : List Char) (found : List Found) :
    filled literals (.word cs :: found) = String.ofList cs :: filled literals found := by
  rw [filled, List.mapIdx_cons]
  simp only [List.take_succ_cons, slots_cons]
  rfl

theorem filled_slot {piece : Found} (hslot : piece.isSlot = true) (literal : List Char)
    (literals : List (List Char)) (found : List Found) :
    filled (literal :: literals) (piece :: found) =
      String.ofList ('"' :: literal) :: filled literals found := by
  rw [filled, List.mapIdx_cons]
  simp only [List.take_succ_cons, slots_cons, hslot, if_true, List.getD_cons_succ]
  rfl

theorem inCode_of_isSlot {piece : Found} (hslot : piece.isSlot = true) :
    piece.inCode = [slot] := by
  cases piece with
  | word cs => cases hslot
  | literal content => rfl
  | slotCharacter => rfl

/-- The slots take the literals in order, as long as there are enough of them. -/
theorem fillSlots_map_inCode {found : List Found} (hplain : ∀ piece ∈ found, piece.Plain)
    (literals : List (List Char)) :
    fillSlots (found.map Found.inCode) literals =
      if slots found ≤ literals.length then .ok (filled literals found)
      else .error .literalMissing := by
  induction found generalizing literals with
  | nil => rfl
  | cons piece found ih =>
      obtain ⟨hfirst, hothers⟩ := List.forall_mem_cons.mp hplain
      cases hslot : piece.isSlot with
      | false =>
          cases piece with
          | word cs =>
              rw [List.map_cons, Found.inCode, fillSlots_word hfirst, ih hothers, slots_cons,
                hslot, filled_word]
              simp only [Bool.false_eq_true, if_false, Nat.add_zero]
              split <;> rfl
          | literal content => cases hslot
          | slotCharacter => cases hslot
      | true =>
          rw [List.map_cons, inCode_of_isSlot hslot, slots_cons, hslot, if_pos rfl]
          cases literals with
          | nil =>
              rw [if_neg (by simp), fillSlots, if_pos rfl]
          | cons literal literals =>
              rw [fillSlots_slot, ih hothers, filled_slot hslot, List.length_cons]
              simp only [Nat.add_le_add_iff_right]
              split <;> rfl

/-- Without slot characters each literal goes back to its own slot. -/
theorem filled_of_isPrefix {found : List Found} {literals : List (List Char)}
    (hclean : .slotCharacter ∉ found) (h : found.filterMap Found.literal? <+: literals) :
    slots found ≤ literals.length ∧ filled literals found = found.map Found.token := by
  induction found generalizing literals with
  | nil => exact ⟨Nat.zero_le _, rfl⟩
  | cons piece found ih =>
      have hothers : .slotCharacter ∉ found := fun hmem => hclean (List.mem_cons_of_mem _ hmem)
      cases piece with
      | word cs =>
          obtain ⟨hcount, hfilled⟩ := ih hothers h
          rw [slots_cons, filled_word, hfilled]
          exact ⟨hcount, rfl⟩
      | literal content =>
          obtain ⟨more, rfl⟩ := h
          obtain ⟨hcount, hfilled⟩ := ih hothers (List.prefix_append _ more)
          rw [slots_cons]
          constructor
          · exact Nat.succ_le_succ hcount
          · exact (filled_slot rfl content _ found).trans (congrArg _ hfilled)
      | slotCharacter => exact absurd List.mem_cons_self hclean

/-! ## Lines and texts -/

/-- The line has a literal for each of its slots. -/
def Supplied (line : List Char) : Prop :=
  slots (scanLine line) ≤ (literalsOf line).length

instance (line : List Char) : Decidable (Supplied line) :=
  inferInstanceAs (Decidable (_ ≤ _))

theorem ofLine_eq_filled (line : List Char) :
    ofLine line =
      if Supplied line then .ok (filled (literalsOf line) (scanLine line))
      else .error .literalMissing := by
  rw [ofLine_eq_fillSlots, codeWords_eq_scanLine, fillSlots_map_inCode (plain_scanLine line),
    parts_snd]
  rfl

theorem ofLines_eq_filled (lines : List (List Char)) :
    ofLines lines =
      if ∀ line ∈ lines, Supplied line then
        .ok (lines.flatMap fun line => filled (literalsOf line) (scanLine line))
      else .error .literalMissing := by
  induction lines with
  | nil => rfl
  | cons line lines ih =>
      rw [ofLines, ofLine_eq_filled, ih]
      simp only [List.forall_mem_cons, List.flatMap_cons]
      by_cases hline : Supplied line
      · by_cases hlines : ∀ line ∈ lines, Supplied line
        · rw [if_pos hline, if_pos hlines, if_pos ⟨hline, hlines⟩]
          rfl
        · rw [if_pos hline, if_neg hlines, if_neg fun h => hlines h.2]
          rfl
      · rw [if_neg hline]
        exact (if_neg fun h => hline h.1).symm

theorem filled_of_clean {line : List Char} (h : .slotCharacter ∉ scanLine line) :
    Supplied line ∧ filled (literalsOf line) (scanLine line) = (scanLine line).map Found.token := by
  rw [Supplied, ← parts_snd]
  exact filled_of_isPrefix h (literals_scan_isPrefix (.code []) line open_code_nil)

theorem ofText_eq_filled (text : String) :
    ofText text =
      if ∀ line ∈ text.toList.splitOn '\n', Supplied line then
        .ok ((text.toList.splitOn '\n').flatMap fun line =>
          filled (literalsOf line) (scanLine line))
      else .error .literalMissing := by
  rw [ofText, pieces_eq_splitOn, ofLines_eq_filled]

/-- **The tokenizer is a scanner.**  A text in whose code the scanner meets no slot character
has exactly the tokens that it finds, line by line.  Of a text at all, the slot of a line that
has `j` slots before it becomes the literal that has `j` literals before it, wherever the
double quotes of the line stand; and there are no tokens if and only if some line has more
slots than literals. -/
theorem tokenizer_is_a_scanner (text : String) :
    ((∀ line ∈ text.toList.splitOn '\n', .slotCharacter ∉ scanLine line) →
      ofText text = .ok ((text.toList.splitOn '\n').flatMap fun line =>
        (scanLine line).map Found.token)) ∧
    (∀ tokens, ofText text = .ok tokens →
      tokens = (text.toList.splitOn '\n').flatMap fun line =>
        filled (literalsOf line) (scanLine line)) ∧
    (∀ fault, ofText text = .error fault → fault.label = "IndexError") ∧
    ((∃ fault, ofText text = .error fault) ↔
      ∃ line ∈ text.toList.splitOn '\n', (literalsOf line).length < slots (scanLine line)) := by
  rw [ofText_eq_filled]
  by_cases hsupplied : ∀ line ∈ text.toList.splitOn '\n', Supplied line
  · rw [if_pos hsupplied]
    refine ⟨fun hclean => ?_, ?_, ?_, ?_, ?_⟩
    · have htokens : ∀ line ∈ text.toList.splitOn '\n',
          filled (literalsOf line) (scanLine line) = (scanLine line).map Found.token :=
        fun line hline => (filled_of_clean (hclean line hline)).2
      rw [List.flatMap_def, List.flatMap_def, List.map_congr_left htokens]
    · intro tokens htokens
      exact (Except.ok.inj htokens).symm
    · intro fault hfault
      cases hfault
    · rintro ⟨fault, hfault⟩
      cases hfault
    · rintro ⟨line, hline, hmore⟩
      exact absurd (hsupplied line hline) (Nat.not_le_of_lt hmore)
  · rw [if_neg hsupplied]
    refine ⟨fun hclean => ?_, ?_, ?_, fun _ => ?_, fun _ => ⟨_, rfl⟩⟩
    · exact absurd (fun line hline => (filled_of_clean (hclean line hline)).1) hsupplied
    · intro tokens htokens
      cases htokens
    · intro fault hfault
      cases hfault
      rfl
    · simp only [Classical.not_forall, Supplied, Nat.not_le] at hsupplied
      obtain ⟨line, hline, hmore⟩ := hsupplied
      exact ⟨line, hline, hmore⟩

/-- A slot character takes the literal of the code, and the literal's own slot the one of the
comment. -/
example : ofText "a\x00 \"b\" ; \"c" = .ok ["a", "\"b", "\"c"] := by rfl

end Token

end SchemeMachine
