import SchemeMachine.Proofs.Reading.Tokens

/-!
# The tokens that a text can hold

Whatever a text is, each of its tokens is a parenthesis, a quote mark, a word without any of
the characters that end a word, or a double quote with the content of a literal behind it,
which has neither a double quote nor a newline in it.  The slots are gone: a slot is a token
of its own, and each has taken a literal.
-/

namespace SchemeMachine

namespace Text

/-- A piece holds characters of the text, but no separator. -/
theorem mem_pieces {separator : Char} {cs piece : List Char} (h : piece ∈ pieces separator cs) :
    separator ∉ piece ∧ ∀ c ∈ piece, c ∈ cs := by
  induction cs generalizing piece with
  | nil =>
      rw [List.mem_singleton.mp h]
      exact ⟨List.not_mem_nil, fun c hc => hc⟩
  | cons d cs ih =>
      have hmono {piece : List Char} (h : piece ∈ pieces separator cs) :
          separator ∉ piece ∧ ∀ c ∈ piece, c ∈ d :: cs :=
        ⟨(ih h).1, fun c hc => List.mem_cons_of_mem d ((ih h).2 c hc)⟩
      by_cases hd : d = separator
      · subst hd
        rw [pieces_cons_self] at h
        rcases List.mem_cons.mp h with rfl | h
        · exact ⟨List.not_mem_nil, fun c hc => absurd hc List.not_mem_nil⟩
        · exact hmono h
      · obtain ⟨first, others, hpieces⟩ :=
          List.exists_cons_of_ne_nil (pieces_ne_nil separator cs)
        rw [hpieces] at hmono
        rw [pieces_cons_of_ne hd, hpieces, extendFirst] at h
        rcases List.mem_cons.mp h with rfl | h
        · obtain ⟨hnone, hfirst⟩ := hmono List.mem_cons_self
          refine ⟨?_, List.forall_mem_cons.mpr ⟨List.mem_cons_self, hfirst⟩⟩
          rintro (_ | ⟨_, hmem⟩)
          · exact hd rfl
          · exact hnone hmem
        · exact hmono (List.mem_cons_of_mem first h)

theorem mem_words {cs word : List Char} (h : word ∈ words cs) :
    (word ≠ [] ∧ word = (leadingWord cs).1) ∨ word ∈ (leadingWord cs).2 := by
  rw [words, closeWord] at h
  split at h
  · exact .inr h
  · next hsome =>
      rcases List.mem_cons.mp h with rfl | h
      · exact .inl ⟨by simpa using hsome, rfl⟩
      · exact .inr h

end Text

namespace Token

open Text

/-- A token that some text holds. -/
inductive IsLexeme : Token → Prop
  | mark {c : Char} (h : c = '(' ∨ c = ')' ∨ c = '\'') : IsLexeme (String.ofList [c])
  | word {word : List Char} (hsome : word ≠ []) (h : ∀ c ∈ word, endsWord c = false) :
      IsLexeme (String.ofList word)
  | literal {content : List Char} (hquote : '"' ∉ content) (hnewline : '\n' ∉ content) :
      IsLexeme (String.ofList ('"' :: content))

/-- A word of a line of code, where slots stand for the literals. -/
inductive IsCodeWord : List Char → Prop
  | alone {c : Char} (h : standsAlone c = true) : IsCodeWord [c]
  | plain {word : List Char} (hsome : word ≠ []) (h : ∀ c ∈ word, endsWord c = false) :
      IsCodeWord word

/-! ## The words of a line of code -/

theorem leadingWord_spaced {code : List Char}
    (hcode : ∀ c ∈ code, c ≠ '"' ∧ c ≠ commentStart) :
    (∀ c ∈ (leadingWord (spaced code)).1, endsWord c = false) ∧
      ∀ word ∈ (leadingWord (spaced code)).2, IsCodeWord word := by
  have hempty : ∀ c ∈ ([] : List Char), endsWord c = false := by simp
  induction code with
  | nil => exact ⟨hempty, by simp [spaced, leadingWord]⟩
  | cons c code ih =>
      obtain ⟨⟨hquote, hcomment⟩, hcode⟩ := List.forall_mem_cons.mp hcode
      obtain ⟨ihFirst, ihOthers⟩ := ih hcode
      have hwords : ∀ word ∈ words (spaced code), IsCodeWord word := by
        intro word hword
        rcases mem_words hword with ⟨hsome, rfl⟩ | hword
        · exact .plain hsome ihFirst
        · exact ihOthers word hword
      by_cases halone : standsAlone c = true
      · have hspaced : leadingWord (spaced (c :: code)) = ([], [c] :: words (spaced code)) := by
          rw [← words_spaced_alone halone, spaced_alone halone, leadingWord_blank (by decide),
            words_blank (by decide)]
        rw [hspaced]
        exact ⟨hempty, List.forall_mem_cons.mpr ⟨.alone halone, hwords⟩⟩
      · have hfirst : spaced (c :: code) = c :: spaced code := by
          simp only [spaced, List.flatMap_cons, if_neg halone, List.singleton_append]
        by_cases hblank : isBlank c = true
        · rw [hfirst, leadingWord_blank hblank]
          exact ⟨hempty, hwords⟩
        · have hends : endsWord c = false := by
            simp [endsWord, hquote, hcomment, halone, hblank]
          have hleading : leadingWord (c :: spaced code) =
              (c :: (leadingWord (spaced code)).1, (leadingWord (spaced code)).2) := by
            simp only [leadingWord, List.foldr_cons, if_neg hblank]
          rw [hfirst, hleading]
          exact ⟨List.forall_mem_cons.mpr ⟨hends, ihFirst⟩, ihOthers⟩

theorem isCodeWord_of_mem {code word : List Char}
    (hcode : ∀ c ∈ code, c ≠ '"' ∧ c ≠ commentStart) (h : word ∈ words (spaced code)) :
    IsCodeWord word := by
  obtain ⟨hfirst, hothers⟩ := leadingWord_spaced hcode
  rcases mem_words h with ⟨hsome, rfl⟩ | h
  · exact .plain hsome hfirst
  · exact hothers word h

/-- The code between the literals of a line has no double quote in it, and the literals are
pieces of the line. -/
theorem codeAndLiterals_mem {ps : List (List Char)} (hps : ∀ piece ∈ ps, '"' ∉ piece) :
    '"' ∉ (codeAndLiterals ps).1 ∧ ∀ literal ∈ (codeAndLiterals ps).2, literal ∈ ps := by
  fun_induction codeAndLiterals ps with
  | case1 => exact ⟨List.not_mem_nil, nofun⟩
  | case2 code => exact ⟨hps code List.mem_cons_self, nofun⟩
  | case3 code literal rest moreCode literals heq ih =>
      obtain ⟨hcode, hps⟩ := List.forall_mem_cons.mp hps
      obtain ⟨_, hps⟩ := List.forall_mem_cons.mp hps
      obtain ⟨hmore, hliterals⟩ := ih hps
      rw [heq] at hmore hliterals
      constructor
      · rw [List.mem_append, List.mem_cons]
        rintro (hmem | heq | hmem)
        · exact hcode hmem
        · exact absurd heq (by decide)
        · exact hmore hmem
      · refine List.forall_mem_cons.mpr ⟨by simp, fun found hfound => ?_⟩
        exact List.mem_cons_of_mem _ (List.mem_cons_of_mem _ (hliterals found hfound))

theorem mem_uncommented {code : List Char} {c : Char} (h : c ∈ uncommented code) :
    c ∈ code ∧ c ≠ commentStart := by
  refine ⟨(List.takeWhile_sublist _).mem h, ?_⟩
  have hall : (uncommented code).all (· ≠ commentStart) = true := List.all_takeWhile
  simpa using List.all_eq_true.mp hall c h

/-! ## The tokens of a line -/

theorem IsCodeWord.isLexeme {word : List Char} (h : IsCodeWord word) (hslot : word ≠ [slot]) :
    IsLexeme (String.ofList word) := by
  cases h with
  | @alone c h =>
      simp only [standsAlone, Bool.or_eq_true, decide_eq_true_eq] at h
      rcases h with ((hc | hc) | hc) | rfl
      · exact .mark (.inl hc)
      · exact .mark (.inr (.inl hc))
      · exact .mark (.inr (.inr hc))
      · exact absurd rfl hslot
  | plain hsome h => exact .word hsome h

theorem forall_mem_of_map_cons {first : Token} {P : Token → Prop} (hfirst : P first)
    {result : Except Fault (List Token)}
    (hothers : ∀ {tokens}, result = .ok tokens → ∀ token ∈ tokens, P token)
    {tokens : List Token} (h : result.map (first :: ·) = .ok tokens) :
    ∀ token ∈ tokens, P token := by
  cases result with
  | error fault => cases h
  | ok others =>
      cases h
      exact List.forall_mem_cons.mpr ⟨hfirst, hothers rfl⟩

theorem isLexeme_of_fillSlots {words literals : List (List Char)} {tokens : List Token}
    (hwords : ∀ word ∈ words, IsCodeWord word)
    (hliterals : ∀ literal ∈ literals, '"' ∉ literal ∧ '\n' ∉ literal)
    (h : fillSlots words literals = .ok tokens) : ∀ token ∈ tokens, IsLexeme token := by
  induction words generalizing literals tokens with
  | nil =>
      cases h
      exact nofun
  | cons word words ih =>
      obtain ⟨hword, hothers⟩ := List.forall_mem_cons.mp hwords
      by_cases hslot : word = [slot]
      · subst hslot
        cases literals with
        | nil =>
            rw [fillSlots, if_pos rfl] at h
            cases h
        | cons literal literals =>
            obtain ⟨⟨hquote, hnewline⟩, hliterals⟩ := List.forall_mem_cons.mp hliterals
            rw [fillSlots_slot] at h
            exact forall_mem_of_map_cons (.literal hquote hnewline) (ih hothers hliterals) h
      · rw [fillSlots_word hslot] at h
        exact forall_mem_of_map_cons (hword.isLexeme hslot) (ih hothers hliterals) h

theorem isLexeme_of_ofLine {line : List Char} {tokens : List Token} (hline : '\n' ∉ line)
    (h : ofLine line = .ok tokens) : ∀ token ∈ tokens, IsLexeme token := by
  have hpieces {piece : List Char} (hpiece : piece ∈ pieces '"' line) :
      '"' ∉ piece ∧ '\n' ∉ piece :=
    ⟨(mem_pieces hpiece).1, fun hmem => hline ((mem_pieces hpiece).2 _ hmem)⟩
  obtain ⟨hcode, hliterals⟩ := codeAndLiterals_mem fun piece hpiece => (@hpieces piece hpiece).1
  rw [ofLine_eq] at h
  refine isLexeme_of_fillSlots (fun word hword => ?_)
    (fun literal hliteral => hpieces (hliterals literal hliteral)) h
  refine isCodeWord_of_mem (fun c hc => ⟨?_, (mem_uncommented hc).2⟩) hword
  rintro rfl
  exact hcode (mem_uncommented hc).1

/-- Every token of a text is a lexeme. -/
theorem isLexeme_of_ofText {text : String} {tokens : List Token}
    (h : ofText text = .ok tokens) : ∀ token ∈ tokens, IsLexeme token := by
  have hlines (lines : List (List Char)) (hlines : ∀ line ∈ lines, '\n' ∉ line)
      {tokens : List Token} (h : ofLines lines = .ok tokens) :
      ∀ token ∈ tokens, IsLexeme token := by
    induction lines generalizing tokens with
    | nil =>
        cases h
        exact nofun
    | cons line lines ih =>
        obtain ⟨hline, hlines⟩ := List.forall_mem_cons.mp hlines
        rw [ofLines] at h
        cases hfirst : ofLine line with
        | error fault => simp [hfirst] at h
        | ok first =>
            cases hothers : ofLines lines with
            | error fault => simp [hfirst, hothers, Except.map] at h
            | ok others =>
                simp only [hfirst, hothers, Except.map, Except.ok.injEq] at h
                subst h
                exact List.forall_mem_append.mpr
                  ⟨isLexeme_of_ofLine hline hfirst, ih hlines hothers⟩
  exact hlines _ (fun line hline => (mem_pieces hline).1) h

end Token

end SchemeMachine
