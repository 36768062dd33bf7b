import SchemeMachine.Proofs.Code
import SchemeMachine.Proofs.Number.ReadBack
import SchemeMachine.Proofs.Reading.Grammar
import SchemeMachine.Proofs.Reading.Tokens
import SchemeMachine.Value.Text

/-!
# The written form reads back

A value that is built from atoms and pairs shows a datum, and its text in the form to
be read back is the text of that datum.  Most such texts denote the datum again.  Those
that do not are the ones with a string or a symbol in them that the notation has no way
to write: `Datum.readable` says which data are free of these.

The proof follows the text through both stages of reading.  The text of a readable
datum, in front of anything that does not run into it, is cut into `tokensIn`
(`ofLine_textIn`), and these tokens spell the datum (`Denoted.derives`).  Both hold of some
other data too: the symbol of a single dot is cut off as a token like any other, and is
read back where it is not an element of a list.
-/

namespace SchemeMachine

open Text (Style Outline isBlank pieces)

/-! ## The data that can be read back -/

namespace Datum

/-- Whether a symbol is read from its name. -/
def isName (name : String) : Bool :=
  name ≠ "" && name.toList.all (fun c => !Token.endsWord c) && name ≠ "#t" && name ≠ "#f" &&
    name ≠ "." && (Number.read? name.toList).isNone

/-- Whether the text of a datum denotes the datum. -/
def readable : Datum → Bool
  | string s => '"' ∉ s.toList && '\n' ∉ s.toList
  | symbol name => isName name
  | pair head tail => head.readable && tail.readable
  | _ => true

/-- The token of a datum that is written as one. -/
def token : Datum → Token
  | bool b => boolText b
  | number n => n.text
  | string s => "\"" ++ s
  | symbol name => name
  | _ => ""

/-- The tokens of the text of a datum, by itself or as what follows the first element of
a list. -/
def tokensIn (continued : Bool) : Datum → List Token
  | nil => if continued then [] else ["(", ")"]
  | pair head tail =>
    let inner := head.tokensIn false ++ tail.tokensIn true
    if continued then inner else "(" :: inner ++ [")"]
  | d => if continued then [".", d.token] else [d.token]

/-- A datum that is written as a single word. -/
inductive IsWord : Datum → Prop
  | bool (b : Bool) : IsWord (bool b)
  | number (n : Number) : IsWord (number n)
  | symbol {name : String} (h : isName name = true) : IsWord (symbol name)

/-- A datum that is written as a single token. -/
inductive IsAtom : Datum → Prop
  | word {d : Datum} (h : IsWord d) : IsAtom d
  | string {s : String} (hquote : '"' ∉ s.toList) (hnewline : '\n' ∉ s.toList) :
      IsAtom (string s)

/-- A datum that is written as a single token, be it a token that the reader treats apart. -/
inductive IsLeaf : Datum → Prop
  | atom {d : Datum} (h : IsAtom d) : IsLeaf d
  | dot : IsLeaf (symbol ".")

/-- What a readable datum is built from. -/
inductive Readable : Datum → Prop
  | nil : Readable nil
  | atom {d : Datum} (h : IsAtom d) : Readable d
  | pair {head tail : Datum} (hhead : Readable head) (htail : Readable tail) :
      Readable (pair head tail)

/-- What a datum is built from whose text is cut into its tokens. -/
inductive Spelled : Datum → Prop
  | nil : Spelled nil
  | leaf {d : Datum} (h : IsLeaf d) : Spelled d
  | pair {head tail : Datum} (hhead : Spelled head) (htail : Spelled tail) :
      Spelled (pair head tail)

/-- What a datum is built from that its tokens spell: the dot is no element of a list. -/
inductive Denoted : Datum → Prop
  | nil : Denoted nil
  | leaf {d : Datum} (h : IsLeaf d) : Denoted d
  | pair {head tail : Datum} (hhead : Denoted head) (hdot : head ≠ symbol ".")
      (htail : Denoted tail) : Denoted (pair head tail)

theorem Denoted.spelled {d : Datum} (h : Denoted d) : Spelled d := by
  induction h with
  | nil => exact .nil
  | leaf h => exact .leaf h
  | pair _ _ _ ihHead ihTail => exact .pair ihHead ihTail

theorem readable_of_eq_true {d : Datum} (h : d.readable = true) : Readable d := by
  induction d with
  | nil => exact .nil
  | bool b => exact .atom (.word (.bool b))
  | number n => exact .atom (.word (.number n))
  | string s =>
      simp only [readable, Bool.and_eq_true, decide_eq_true_eq] at h
      exact .atom (.string h.1 h.2)
  | symbol name => exact .atom (.word (.symbol h))
  | pair head tail ihHead ihTail =>
      rw [readable, Bool.and_eq_true] at h
      exact .pair (ihHead h.1) (ihTail h.2)

/-! ## Words -/

theorem isName_spec {name : String} (h : isName name = true) :
    name ≠ "" ∧ (∀ c ∈ name.toList, Token.endsWord c = false) ∧ name ≠ "#t" ∧
      name ≠ "#f" ∧ name ≠ "." ∧ Number.read? name.toList = none := by
  simp only [isName, Bool.and_eq_true, decide_eq_true_eq, List.all_eq_true, Bool.not_eq_true',
    Option.isNone_iff_eq_none] at h
  obtain ⟨⟨⟨⟨⟨hne, hchars⟩, htrue⟩, hfalse⟩, hdot⟩, hnumber⟩ := h
  exact ⟨hne, hchars, htrue, hfalse, hdot, hnumber⟩

theorem not_endsWord_of_any {word : List Char} (h : word.any Token.endsWord = false) :
    ∀ c ∈ word, Token.endsWord c = false :=
  fun c hc => Bool.eq_false_iff.mpr (List.any_eq_false.mp h c hc)

theorem endsWord_of_isInText {c : Char} (h : Number.isInText c = true) :
    Token.endsWord c = false := by
  rw [Number.isInText, Bool.or_eq_true] at h
  rcases h with hdigit | hmark
  · simp only [Char.isDigit, ge_iff_le, Bool.and_eq_true, decide_eq_true_eq] at hdigit
    have hlow : 48 ≤ c.toNat := hdigit.1
    have hhigh : c.toNat ≤ 57 := hdigit.2
    have hne {d : Char} (hd : d.toNat < 48 ∨ 57 < d.toNat) : c ≠ d := by
      rintro rfl
      omega
    have hblank : isBlank c = false := by
      simp only [isBlank, Text.blankRanges, List.any_cons, List.any_nil, Bool.or_false,
        Bool.or_eq_false_iff, Bool.and_eq_false_iff, decide_eq_false_iff_not]
      omega
    simp only [Token.endsWord, Token.standsAlone, hblank, hne (d := '(') (by decide),
      hne (d := ')') (by decide), hne (d := '\'') (by decide), hne (d := Token.slot) (by decide),
      hne (d := '"') (by decide), hne (d := Token.commentStart) (by decide), decide_false,
      Bool.or_false]
  · have hnone : "+-.einfa".toList.any Token.endsWord = false := by decide +kernel
    exact not_endsWord_of_any hnone c (of_decide_eq_true hmark)

namespace IsWord

variable {d : Datum}

theorem token_ne_empty (h : IsWord d) : d.token ≠ "" := by
  cases h with
  | bool b => cases b <;> decide
  | symbol hname => exact (isName_spec hname).1
  | number n => exact n.text_ne (by decide +kernel)

theorem token_ne_dot (h : IsWord d) : d.token ≠ "." := by
  cases h with
  | bool b => cases b <;> decide
  | symbol hname => exact (isName_spec hname).2.2.2.2.1
  | number n => exact n.text_ne (by decide +kernel)

theorem endsWord_token (h : IsWord d) : ∀ c ∈ d.token.toList, Token.endsWord c = false := by
  cases h with
  | bool b =>
      refine not_endsWord_of_any ?_
      cases b <;> decide
  | symbol hname => exact (isName_spec hname).2.1
  | number n => exact fun c hc => endsWord_of_isInText (n.isInText_text c hc)

/-- A word has none of the characters in it that would end it. -/
theorem notMem_token (h : IsWord d) {c : Char} (hc : Token.endsWord c = true) :
    c ∉ d.token.toList := by
  intro hmem
  rw [h.endsWord_token c hmem] at hc
  cases hc

theorem token_ne_mark (h : IsWord d) {c : Char} (hc : Token.endsWord c = true) :
    d.token ≠ String.ofList [c] := by
  intro heq
  refine h.notMem_token hc ?_
  rw [heq, String.toList_ofList]
  exact List.mem_singleton_self c

/-- A word stands for the datum it was written for. -/
theorem ofToken_token (h : IsWord d) : ofToken d.token = d := by
  have hquote : '"' ∉ d.token.toList := h.notMem_token (by decide)
  have hplain {content : List Char} (heq : d.token.toList = '"' :: content) : False :=
    hquote (heq ▸ List.mem_cons_self)
  cases h with
  | bool b => cases b <;> decide +kernel
  | symbol hname =>
      obtain ⟨_, _, htrue, hfalse, _, hnumber⟩ := isName_spec hname
      rw [token, ofToken, if_neg htrue, if_neg hfalse]
      split
      · next content heq => exact (hplain heq).elim
      · rw [hnumber]
  | number n =>
      rw [token, ofToken, if_neg (n.text_ne (by decide +kernel)),
        if_neg (n.text_ne (by decide +kernel))]
      split
      · next content heq => exact (hplain heq).elim
      · rw [n.read?_text]

end IsWord

/-! ## Cutting the text of a datum into tokens -/

theorem map_before (first others : List Token) (result : Except Fault (List Token)) :
    (result.map (others ++ ·)).map (first ++ ·) = result.map (first ++ others ++ ·) := by
  cases result <;> simp [Except.map]

open Token (ofLine ofLines Separated separated_cons)

/-- The text of a word is cut off as its token. -/
theorem ofLine_token {token : Token} (hne : token ≠ "")
    (hword : ∀ c ∈ token.toList, Token.endsWord c = false) {rest : List Char}
    (hrest : Separated rest) :
    ofLine (token.toList ++ rest) = (ofLine rest).map ([token] ++ ·) := by
  have hsome : token.toList ≠ [] := by simpa using hne
  rw [Token.ofLine_word hsome hword hrest, String.ofList_toList]
  rfl

/-- The text of a leaf is cut off as its token, and lies within a line. -/
theorem IsLeaf.outline {d : Datum} (h : IsLeaf d) :
    ∃ text : String, d.outline .write = .leaf text ∧ '\n' ∉ text.toList ∧
      ∀ rest, Separated rest →
        ofLine (text.toList ++ rest) = (ofLine rest).map ([d.token] ++ ·) := by
  cases h with
  | dot =>
      refine ⟨".", rfl, by decide, fun rest hrest => ?_⟩
      exact ofLine_token (by decide) (not_endsWord_of_any (by decide)) hrest
  | atom h =>
      cases h with
      | word h =>
          refine ⟨d.token, ?_, h.notMem_token (by decide), fun rest hrest => ?_⟩
          · cases h <;> rfl
          · exact ofLine_token h.token_ne_empty h.endsWord_token hrest
      | @string s hquote hnewline =>
          have htext : (Style.write.string s).toList = '"' :: (s.toList ++ ['"']) := by
            simp [Style.string]
          refine ⟨Style.write.string s, rfl, ?_, fun rest _ => ?_⟩
          · rw [htext]
            simpa using hnewline
          · have htoken : String.ofList ('"' :: s.toList) = "\"" ++ s := by
              rw [← String.toList_inj]
              simp
            rw [htext, List.cons_append, List.append_assoc, List.singleton_append,
              Token.ofLine_literal hquote, htoken]
            rfl

theorem IsLeaf.tokensIn_eq {d : Datum} (h : IsLeaf d) (continued : Bool) :
    d.tokensIn continued = if continued then [".", d.token] else [d.token] := by
  cases h with
  | dot => rfl
  | atom h =>
      cases h with
      | word h => cases h <;> rfl
      | string => rfl

/-- What goes on a list does not run into the element before it. -/
theorem separated_textIn (outline : Outline) {rest : List Char} (hrest : Separated rest) :
    Separated ((outline.textIn true).toList ++ rest) := by
  cases outline with
  | nil => exact hrest
  | leaf text =>
      simp only [Outline.textIn, if_true, String.toList_append]
      exact separated_cons (by decide) _
  | pair head tail =>
      simp only [Outline.textIn, if_true, String.toList_append]
      exact separated_cons (by decide) _

/-- The text of a datum is cut into its tokens, whatever comes after that does not run into
it. -/
theorem ofLine_textIn {d : Datum} (h : Spelled d) (continued : Bool) {rest : List Char}
    (hrest : Separated rest) :
    ofLine (((d.outline .write).textIn continued).toList ++ rest) =
      (ofLine rest).map (d.tokensIn continued ++ ·) := by
  induction h generalizing continued rest with
  | nil =>
      cases continued with
      | true =>
          have htext : ((Outline.nil).textIn true).toList ++ rest = rest := rfl
          rw [Datum.outline, htext]
          cases ofLine rest <;> rfl
      | false =>
          have htext : ((Outline.nil).textIn false).toList ++ rest = '(' :: ')' :: rest := rfl
          rw [Datum.outline, htext, Token.ofLine_mark (.inl rfl),
            Token.ofLine_mark (.inr (.inl rfl))]
          cases ofLine rest <;> rfl
  | @leaf d hleaf =>
      obtain ⟨text, houtline, _, hcut⟩ := hleaf.outline
      rw [houtline, hleaf.tokensIn_eq]
      cases continued with
      | false => exact hcut rest hrest
      | true =>
          have htext : ((Outline.leaf text).textIn true).toList ++ rest =
              ' ' :: (['.'] ++ ' ' :: (text.toList ++ rest)) := by
            simp [Outline.textIn]
          have hspace : Separated (' ' :: (text.toList ++ rest)) := separated_cons (by decide) _
          rw [htext, Token.ofLine_blank (by decide),
            Token.ofLine_word (List.cons_ne_nil _ _) (not_endsWord_of_any (by decide)) hspace,
            Token.ofLine_blank (by decide), hcut rest hrest]
          cases ofLine rest <;> rfl
  | @pair head tail _ _ ihHead ihTail =>
      -- the list goes on after the head with the tail, which ends where the rest begins
      have hinner {after : List Char} (hafter : Separated after) :
          ofLine (((head.outline .write).textIn false).toList ++
            (((tail.outline .write).textIn true).toList ++ after)) =
            (ofLine after).map (head.tokensIn false ++ tail.tokensIn true ++ ·) := by
        rw [ihHead false (separated_textIn _ hafter), ihTail true hafter, map_before]
      cases continued with
      | true =>
          have htext : (((pair head tail).outline .write).textIn true).toList ++ rest =
              ' ' :: (((head.outline .write).textIn false).toList ++
                (((tail.outline .write).textIn true).toList ++ rest)) := by
            simp [Datum.outline, Outline.textIn]
          rw [htext, Token.ofLine_blank (by decide), hinner hrest]
          rfl
      | false =>
          have htext : (((pair head tail).outline .write).textIn false).toList ++ rest =
              '(' :: (((head.outline .write).textIn false).toList ++
                (((tail.outline .write).textIn true).toList ++ ')' :: rest)) := by
            simp [Datum.outline, Outline.textIn]
          rw [htext, Token.ofLine_mark (.inl rfl), hinner (separated_cons (by decide) _),
            Token.ofLine_mark (.inr (.inl rfl))]
          cases ofLine rest <;> simp [Except.map, tokensIn]

theorem newline_notMem_textIn {d : Datum} (h : Spelled d) (continued : Bool) :
    '\n' ∉ ((d.outline .write).textIn continued).toList := by
  induction h generalizing continued with
  | nil => cases continued <;> decide
  | @leaf d hleaf =>
      obtain ⟨text, houtline, hnewline, _⟩ := hleaf.outline
      rw [houtline]
      cases continued <;> simpa [Outline.textIn] using hnewline
  | pair _ _ ihHead ihTail =>
      cases continued <;> simp [Datum.outline, Outline.textIn, ihHead false, ihTail true]

/-! ## Reading the tokens of a datum -/

/-- The token of an atom stands for the atom. -/
theorem IsAtom.derives {d : Datum} (h : IsAtom d) : Derives [d.token] d ∧ d.token ≠ "." := by
  cases h with
  | word h =>
      have hatom := Derives.atom (h.token_ne_mark (c := '(') (by decide))
        (h.token_ne_mark (c := ')') (by decide)) (h.token_ne_mark (c := '\'') (by decide))
      exact ⟨by rwa [h.ofToken_token] at hatom, h.token_ne_dot⟩
  | @string s _ _ =>
      have htoken : (token (Datum.string s)).toList = '"' :: s.toList := by
        simp [token]
      have hne {other : String} (hother : other.toList.head? ≠ some '"') :
          token (Datum.string s) ≠ other := by
        rintro rfl
        exact hother (by rw [htoken]; rfl)
      have hread : ofToken (token (Datum.string s)) = Datum.string s := by
        rw [ofToken, if_neg (hne (by decide)), if_neg (hne (by decide)), htoken]
        simp
      have hatom : Derives [token (Datum.string s)] (ofToken (token (Datum.string s))) :=
        .atom (hne (by decide)) (hne (by decide)) (hne (by decide))
      exact ⟨by rwa [hread] at hatom, hne (by decide)⟩

/-- A dot by itself stands for the symbol of that name. -/
theorem derives_dot : Derives ["."] (symbol ".") := by
  have hdot : ofToken "." = symbol "." := by decide +kernel
  exact hdot ▸ .atom (by decide) (by decide) (by decide)

theorem Derives.ne_dot {tokens : List Token} {d : Datum} (h : Derives tokens d)
    (hd : d ≠ symbol ".") : tokens ≠ ["."] := by
  rintro rfl
  exact hd (h.unique derives_dot List.prefix_rfl List.prefix_rfl).2

theorem IsLeaf.derives {d : Datum} (h : IsLeaf d) : Derives [d.token] d := by
  cases h with
  | atom h => exact h.derives.1
  | dot => exact derives_dot

/-- The tokens of a datum spell it.  As what follows the first elements of a list, they and a
closing parenthesis complete the list. -/
theorem Denoted.derives {d : Datum} (h : Denoted d) :
    Derives (d.tokensIn false) d ∧
    ∀ {tokens : List Token} {items : List Datum}, Elements tokens items → items ≠ [] →
      Derives ("(" :: (tokens ++ (d.tokensIn true ++ [")"]))) (ofList items d) := by
  induction h with
  | nil => exact ⟨.list .nil, fun helements _ => .list helements⟩
  | @leaf d hleaf =>
      rw [hleaf.tokensIn_eq, hleaf.tokensIn_eq]
      exact ⟨hleaf.derives, fun helements hsome => .dotted helements hsome hleaf.derives⟩
  | @pair head tail hhead hdot _ ihHead ihTail =>
      have hne : head.tokensIn false ≠ ["."] := ihHead.1.ne_dot hdot
      refine ⟨?_, fun {tokens items} helements _ => ?_⟩
      · have hlist := ihTail.2 (.cons ihHead.1 hne .nil) (List.cons_ne_nil head [])
        simpa [tokensIn, ofList] using hlist
      · have hlist := ihTail.2 (helements.snoc ihHead.1 hne) (by simp)
        simpa [tokensIn, ofList] using hlist

theorem Readable.denoted {d : Datum} (h : Readable d) : Denoted d := by
  induction h with
  | nil => exact .nil
  | atom h => exact .leaf (.atom h)
  | @pair head tail hhead _ ihHead ihTail =>
      refine .pair ihHead ?_ ihTail
      rintro rfl
      cases hhead with
      | atom h => exact h.derives.2 rfl

/-- The tokens of several data, one after another, hold just these data. -/
theorem readAll_tokens {data : List Datum} (h : ∀ d ∈ data, Readable d) :
    readAll (data.flatMap (tokensIn false)) = (data, none) := by
  have hreads : ReadsTo (data.flatMap (tokensIn false)) data [] := by
    induction data with
    | nil => exact .nil []
    | cons d data ih =>
        obtain ⟨hfirst, hothers⟩ := List.forall_mem_cons.mp h
        exact .cons (hfirst.denoted.derives.1.readOne_eq _) (ih hothers)
  rw [hreads.readAll_eq]
  simp [readAll, readAllFrom, Progress.start]

end Datum

/-! ## Several texts, apart from each other -/

namespace Text

/-- The text is made of these, with some spaces and newlines between each two. -/
inductive Joined : List String → String → Prop
  | none : Joined [] ""
  | one (text : String) : Joined [text] text
  | more {text next gap rest : String} {others : List String} (hgap : gap ≠ "")
      (hblank : ∀ c ∈ gap.toList, c = ' ' ∨ c = '\n') (h : Joined (next :: others) rest) :
      Joined (text :: next :: others) (text ++ gap ++ rest)

end Text

namespace Token

open Text (Joined)

theorem ofLines_cons {line : List Char} {lines : List (List Char)} :
    ofLines (line :: lines) = match ofLine line with
      | .error fault => .error fault
      | .ok tokens => (ofLines lines).map (tokens ++ ·) := rfl

/-- A space or a newline at the front of a text holds no token. -/
theorem ofLines_blank {c : Char} (hc : c = ' ' ∨ c = '\n') (rest : List Char) :
    ofLines (pieces '\n' (c :: rest)) = ofLines (pieces '\n' rest) := by
  rcases hc with rfl | rfl
  · obtain ⟨first, others, hrest⟩ := List.exists_cons_of_ne_nil (Text.pieces_ne_nil '\n' rest)
    rw [Text.pieces_cons_of_ne (by decide), hrest, Text.extendFirst, ofLines_cons,
      ofLine_blank (by decide), ← ofLines_cons]
  · rw [Text.pieces_cons_self, ofLines_cons]
    cases ofLines (pieces '\n' rest) <;> rfl

theorem ofLines_blanks {gap : List Char} (hgap : ∀ c ∈ gap, c = ' ' ∨ c = '\n')
    (rest : List Char) : ofLines (pieces '\n' (gap ++ rest)) = ofLines (pieces '\n' rest) := by
  induction gap with
  | nil => rfl
  | cons c gap ih =>
      obtain ⟨hc, hgap⟩ := List.forall_mem_cons.mp hgap
      rw [List.cons_append, ofLines_blank hc, ih hgap]

/-- The text of a datum in front of the rest of a text, where the rest is empty or
begins with a space or a newline. -/
theorem ofLines_text {d : Datum} (h : d.Spelled) {rest : List Char}
    (hrest : ∀ c ∈ rest.head?, c = ' ' ∨ c = '\n') :
    ofLines (pieces '\n' ((d.text .write).toList ++ rest)) =
      (ofLines (pieces '\n' rest)).map (d.tokensIn false ++ ·) := by
  obtain ⟨first, others, hpieces⟩ := List.exists_cons_of_ne_nil (Text.pieces_ne_nil '\n' rest)
  -- the rest of the first line begins with a space, if it is not empty
  have hfirst : Separated first := by
    cases rest with
    | nil =>
        cases hpieces
        exact nofun
    | cons c rest =>
        rcases hrest c rfl with rfl | rfl
        · obtain ⟨first', others', hpieces'⟩ :=
            List.exists_cons_of_ne_nil (Text.pieces_ne_nil '\n' rest)
          rw [Text.pieces_cons_of_ne (by decide), hpieces'] at hpieces
          cases hpieces
          exact separated_cons (by decide) _
        · rw [Text.pieces_cons_self] at hpieces
          cases hpieces
          exact nofun
  have hline := Datum.ofLine_textIn h false hfirst
  rw [Datum.text, Outline.text,
    Text.pieces_append (Datum.newline_notMem_textIn h false) hpieces, hpieces, ofLines_cons,
    ofLines_cons, hline]
  cases ofLine first with
  | error fault => rfl
  | ok tokens => cases ofLines others <;> simp [Except.map]

theorem ofText_text {d : Datum} (h : d.Spelled) :
    ofText (d.text .write) = .ok (d.tokensIn false) := by
  have hlines := @ofLines_text _ h [] nofun
  rw [List.append_nil] at hlines
  rw [ofText, hlines]
  exact congrArg Except.ok (List.append_nil _)

/-- Texts of data, kept apart by spaces and newlines, are cut into the tokens of the
data. -/
theorem ofText_joined_data {data : List Datum} {text : String}
    (hdata : ∀ d ∈ data, d.Readable) (h : Joined (data.map (Datum.text .write)) text) :
    ofText text = .ok (data.flatMap (Datum.tokensIn false)) := by
  induction data generalizing text with
  | nil =>
      cases h
      rfl
  | cons d data ih =>
      obtain ⟨hfirst, hothers⟩ := List.forall_mem_cons.mp hdata
      cases data with
      | nil =>
          cases h
          rw [ofText_text hfirst.denoted.spelled, List.flatMap_singleton]
      | cons next data =>
          cases h with
          | @more _ _ gap rest _ hgap hblank h =>
              have hrest := ih hothers h
              have hhead : ∀ c ∈ (gap.toList ++ rest.toList).head?, c = ' ' ∨ c = '\n' := by
                obtain ⟨c, cs, hcs⟩ : ∃ c cs, gap.toList = c :: cs :=
                  List.exists_cons_of_ne_nil (by simpa using hgap)
                rw [hcs]
                rintro _ ⟨⟩
                exact hblank c (hcs ▸ List.mem_cons_self)
              rw [ofText, String.toList_append, String.toList_append, List.append_assoc,
                ofLines_text hfirst.denoted.spelled hhead, ofLines_blanks hblank]
              rw [ofText] at hrest
              rw [hrest]
              rfl

end Token

/-! ## Values -/

namespace Value

theorem outline_of_datum? (s : Store) (style : Style) {v : Value} {d : Datum}
    (h : v.datum? = some d) : v.outline s style = d.outline style := by
  cases v with
  | pair stamp head tail =>
      rw [datum?] at h
      split at h
      · next hhead htail =>
          cases h
          rw [Value.outline, Datum.outline, outline_of_datum? s style hhead,
            outline_of_datum? s style htail]
      · cases h
  | nil | bool | number | string | symbol =>
      cases h
      rfl
  | _ => cases h

/-- A value is written as the datum that it shows. -/
theorem written_of_datum? (s : Store) {v : Value} {d : Datum} (h : v.datum? = some d) :
    v.written s = d.text .write := by
  rw [written, text, Saving.shown_eliding, outline_of_datum? s .write h]
  rfl

theorem map_written {s : Store} {values : List Value} {data : List Datum}
    (h : values.map datum? = data.map some) :
    values.map (written s) = data.map (Datum.text .write) := by
  induction values generalizing data with
  | nil =>
      cases data with
      | nil => rfl
      | cons => cases h
  | cons v values ih =>
      cases data with
      | nil => cases h
      | cons d data =>
          obtain ⟨hfirst, hothers⟩ := List.cons.inj h
          rw [List.map_cons, List.map_cons, written_of_datum? s hfirst, ih hothers]

/-- **What is written is read back.**  Values that show readable data, written one after
another with spaces and newlines between them, are read as exactly these data.  Two data
are equal when their leaves are: NaN is equal to itself, and the zero with a minus is not
equal to the one without. -/
theorem written_reads_back {s : Store} {values : List Value} {data : List Datum} {text : String}
    (hvalues : values.map datum? = data.map some) (hreadable : ∀ d ∈ data, d.readable = true)
    (hjoined : Text.Joined (values.map (written s)) text) :
    Datum.allOfText text = (data, none) := by
  have hdata : ∀ d ∈ data, d.Readable := fun d hd => Datum.readable_of_eq_true (hreadable d hd)
  rw [map_written hvalues] at hjoined
  rw [Datum.allOfText, Token.ofText_joined_data hdata hjoined]
  exact Datum.readAll_tokens hdata

/-- A dotted list whose string holds a parenthesis and a semicolon, a NaN and an integer,
each on a line of its own. -/
theorem written_reads_back_of_three :
    Datum.allOfText "(a \"(;\" . -0.0)\n +nan.0 \n-7" =
      ([.pair (.symbol "a") (.pair (.string "(;") (.number (.inexact (.zero true)))),
        .number (.inexact .nan), .number (.exact (-7))], none) := by
  let values : List Value :=
    [.pair 0 (.symbol "a") (.pair 1 (.string "(;") (.number (.inexact (.zero true)))),
      .number (.inexact .nan), .number (.exact (-7))]
  have hvalues : values.map datum? =
      [.pair (.symbol "a") (.pair (.string "(;") (.number (.inexact (.zero true)))),
        .number (.inexact .nan), .number (.exact (-7))].map some := rfl
  have hjoined : Text.Joined (values.map (written Store.initial))
      "(a \"(;\" . -0.0)\n +nan.0 \n-7" :=
    .more (show "\n " ≠ "" by decide) (by simp)
      (.more (show " \n" ≠ "" by decide) (by simp) (.one "-7"))
  exact written_reads_back hvalues (by decide +kernel) hjoined

end Value

end SchemeMachine
