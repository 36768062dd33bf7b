import SchemeMachine.Proofs.Reading.Lexemes
import SchemeMachine.Proofs.Reading.WriteForm

/-!
# Reading what was read, again

What is read from a text need not be free of odd symbols and strings, but each of its leaves
was a token of the text and is written as that token.  So a datum that was read from a text
can be written, and the text of it denotes the datum again, with one exception.  The symbol
of a single dot can be read at the top, after a quote mark and as the tail of a list.  After
a quote mark it becomes an element of a list, `(quote .)`, and there a dot is not the symbol:
the text of such a datum is refused.
-/

namespace SchemeMachine

open Token (IsLexeme endsWord)

namespace Datum

/-- Whether the dot is an element of a list somewhere in the datum. -/
def listsDot : Datum → Bool
  | pair head tail => head = symbol "." || head.listsDot || tail.listsDot
  | _ => false

/-- What a datum is built from that was read from a text. -/
inductive FromText : Datum → Prop
  | nil : FromText nil
  | leaf {d : Datum} (h : IsLeaf d) : FromText d
  | quotedDot : FromText (symbol ".").quoted
  | pair {head tail : Datum} (hhead : FromText head) (hdot : head ≠ symbol ".")
      (htail : FromText tail) : FromText (pair head tail)

theorem isLeaf_quote : IsLeaf (symbol "quote") :=
  .atom (.word (.symbol (by decide +kernel)))

theorem FromText.spelled {d : Datum} (h : FromText d) : Spelled d := by
  induction h with
  | nil => exact .nil
  | leaf h => exact .leaf h
  | quotedDot => exact .pair (.leaf isLeaf_quote) (.pair (.leaf .dot) .nil)
  | pair _ _ _ ihHead ihTail => exact .pair ihHead ihTail

theorem listsDot_pair {head : Datum} (hdot : head ≠ symbol ".") (tail : Datum) :
    (pair head tail).listsDot = (head.listsDot || tail.listsDot) := by
  simp [listsDot, hdot]

theorem FromText.denoted {d : Datum} (h : FromText d) (hnone : d.listsDot = false) :
    Denoted d := by
  induction h with
  | nil => exact .nil
  | leaf h => exact .leaf h
  | quotedDot => cases hnone
  | pair _ hdot _ ihHead ihTail =>
      rw [listsDot_pair hdot, Bool.or_eq_false_iff] at hnone
      exact .pair (ihHead hnone.1) hdot (ihTail hnone.2)

/-! ## What is read from a text -/

theorem ofToken_eq_symbol {token : Token} {name : String} (h : ofToken token = symbol name) :
    token = name := by
  unfold ofToken at h
  repeat' split at h
  all_goals cases h
  rfl

/-- The word of a text stands for a leaf. -/
theorem isLeaf_ofToken_word {word : List Char} (hsome : word ≠ [])
    (hword : ∀ c ∈ word, endsWord c = false) : IsLeaf (ofToken (String.ofList word)) := by
  unfold ofToken
  split
  · exact .atom (.word (.bool true))
  next htrue =>
  split
  · exact .atom (.word (.bool false))
  next hfalse =>
  rw [String.toList_ofList]
  split
  · next content =>
      exact absurd (hword '"' List.mem_cons_self) (by decide)
  · cases hnumber : Number.read? word with
    | some n => exact .atom (.word (.number n))
    | none =>
        by_cases hdot : String.ofList word = "."
        · exact hdot ▸ .dot
        · have hname : isName (String.ofList word) = true := by
            simp only [isName, String.toList_ofList, hnumber]
            simpa [htrue, hfalse, hdot, hsome] using hword
          exact .atom (.word (.symbol hname))

theorem isLeaf_ofToken {token : Token} (h : IsLexeme token) (hopen : token ≠ "(")
    (hclose : token ≠ ")") (hquote : token ≠ "'") : IsLeaf (ofToken token) := by
  cases h with
  | mark h =>
      rcases h with rfl | rfl | rfl
      · exact absurd rfl hopen
      · exact absurd rfl hclose
      · exact absurd rfl hquote
  | word hsome h => exact isLeaf_ofToken_word hsome h
  | @literal content hnone hnewline =>
      have hne {other : String} (hother : other.toList.head? ≠ some '"') :
          String.ofList ('"' :: content) ≠ other := by
        rintro rfl
        exact hother (by rw [String.toList_ofList]; rfl)
      rw [ofToken, if_neg (hne (by decide)), if_neg (hne (by decide)), String.toList_ofList]
      exact .atom (.string (by simpa using hnone) (by simpa using hnewline))

/-- Only the dot by itself spells the symbol of that name. -/
theorem Derives.eq_dot {tokens : List Token} (h : Derives tokens (symbol ".")) :
    tokens = ["."] := by
  generalize hdot : symbol "." = d at h
  cases h with
  | @atom token _ _ _ => rw [ofToken_eq_symbol hdot.symm]
  | quote _ => cases hdot
  | @list tokens items _ => cases items <;> cases hdot
  | @dotted tokens rest items tail _ hsome _ =>
      cases items with
      | nil => exact absurd rfl hsome
      | cons => cases hdot

theorem fromText_ofList {items : List Datum} {tail : Datum}
    (hitems : ∀ d ∈ items, FromText d ∧ d ≠ symbol ".") (htail : FromText tail) :
    FromText (ofList items tail) := by
  induction items with
  | nil => exact htail
  | cons d items ih =>
      obtain ⟨⟨hd, hdot⟩, hitems⟩ := List.forall_mem_cons.mp hitems
      exact .pair hd hdot (ih hitems)

theorem FromText.quoted {d : Datum} (h : FromText d) : FromText d.quoted := by
  by_cases hdot : d = symbol "."
  · exact hdot ▸ .quotedDot
  · exact .pair (.leaf isLeaf_quote) (by decide) (.pair h hdot .nil)

mutual

theorem Derives.fromText {tokens : List Token} {d : Datum} (h : Derives tokens d)
    (hlexemes : ∀ token ∈ tokens, IsLexeme token) : FromText d := by
  match h with
  | @Derives.atom token hopen hclose hquote =>
      exact .leaf (isLeaf_ofToken (hlexemes token List.mem_cons_self) hopen hclose hquote)
  | @Derives.quote tokens d h =>
      exact (h.fromText (List.forall_mem_cons.mp hlexemes).2).quoted
  | @Derives.list tokens items h =>
      refine fromText_ofList (h.fromText fun token hmem => hlexemes token ?_) .nil
      simp [hmem]
  | @Derives.dotted tokens rest items tail h _ htail =>
      refine fromText_ofList (h.fromText fun token hmem => hlexemes token ?_)
        (htail.fromText fun token hmem => hlexemes token ?_)
      · simp [hmem]
      · simp [hmem]

theorem Elements.fromText {tokens : List Token} {items : List Datum} (h : Elements tokens items)
    (hlexemes : ∀ token ∈ tokens, IsLexeme token) :
    ∀ d ∈ items, FromText d ∧ d ≠ symbol "." := by
  match h with
  | .nil => exact nofun
  | @Elements.cons tokens rest d items h hdot hrest =>
      obtain ⟨hfirst, hothers⟩ := List.forall_mem_append.mp hlexemes
      refine List.forall_mem_cons.mpr ⟨⟨h.fromText hfirst, ?_⟩, hrest.fromText hothers⟩
      rintro rfl
      exact hdot h.eq_dot

end

theorem Derives.ne_nil {p : List Token} {d : Datum} (h : Derives p d) : p ≠ [] := by
  cases h <;> exact List.cons_ne_nil _ _

/-- What is read from some tokens is spelled by tokens among them. -/
theorem derives_of_mem_readAll {tokens : List Token} {d : Datum} (h : d ∈ (readAll tokens).1) :
    ∃ p, Derives p d ∧ p ⊆ tokens := by
  -- what is left after the first datum is shorter
  induction hlength : tokens.length using Nat.strong_induction_on generalizing tokens with
  | _ n ih =>
    cases tokens with
    | nil => cases h
    | cons token tokens =>
        rw [readAll_cons] at h
        rcases hread : readOne (token :: tokens) with ⟨fault | x, rest⟩
        · rw [hread] at h
          cases h
        · rw [hread] at h
          obtain ⟨p, htokens, hp⟩ := readOne_eq_ok_iff.mp hread
          have hshorter : rest.length < n := by
            have hpos := List.length_pos_iff.mpr hp.ne_nil
            rw [← hlength, htokens, List.length_append]
            omega
          rw [htokens]
          rcases List.mem_cons.mp h with rfl | h
          · exact ⟨p, hp, List.subset_append_left p rest⟩
          · obtain ⟨q, hq, hsub⟩ := ih rest.length hshorter h rfl
            exact ⟨q, hq, List.subset_append_of_subset_right p hsub⟩

theorem fromText_of_mem {text : String} {d : Datum} (h : d ∈ (allOfText text).1) :
    FromText d := by
  unfold allOfText at h
  split at h
  · cases h
  · next tokens htext =>
      obtain ⟨p, hp, hsub⟩ := derives_of_mem_readAll h
      exact hp.fromText fun token hmem => Token.isLexeme_of_ofText htext token (hsub hmem)

/-! ## Data that list a dot -/

theorem IsLeaf.listsDot {d : Datum} (h : IsLeaf d) : d.listsDot = false := by
  cases h with
  | dot => rfl
  | atom h =>
      cases h with
      | word h => cases h <;> rfl
      | string => rfl

theorem readFrom_pair (head tail : Datum) (outer : List Opening) (rest : List Token) :
    readFrom (.datum outer) ((pair head tail).tokensIn false ++ rest) =
      readFrom (.datum (.list [] :: outer)) ((pair head tail).tokensIn true ++ ")" :: rest) := by
  have htokens : (pair head tail).tokensIn false ++ rest =
      "(" :: ((pair head tail).tokensIn true ++ ")" :: rest) := by
    simp [tokensIn]
  rw [htokens]
  exact readFrom_cons (take_open outer) _

/-- The reader refuses the tokens of a datum that lists a dot, by itself or as what follows
the first elements of a list. -/
theorem FromText.readFrom_fault {d : Datum} (h : FromText d) (hdot : d.listsDot = true) :
    (∀ outer rest, (readFrom (.datum outer) (d.tokensIn false ++ rest)).1 =
      .error .unexpectedClose) ∧
    ∀ items outer rest, (readFrom (.datum (.list items :: outer))
      (d.tokensIn true ++ ")" :: rest)).1 = .error .unexpectedClose := by
  induction h with
  | nil => cases hdot
  | leaf h => cases h.listsDot.symm.trans hdot
  | quotedDot =>
      -- the dot after `quote` announces a tail, and the list is closed instead
      have hinner (items : List Datum) (outer : List Opening) (rest : List Token) :
          (readFrom (.datum (.list items :: outer))
            ((symbol ".").quoted.tokensIn true ++ ")" :: rest)).1 = .error .unexpectedClose := by
        calc (readFrom (.datum (.list items :: outer))
              ([(symbol "quote").token] ++ "." :: ")" :: rest)).1
            = (readFrom (.datum (.list (symbol "quote" :: items) :: outer))
                ("." :: ")" :: rest)).1 := by
              rw [isLeaf_quote.derives.readFrom_eq (.inl (by decide))]
              rfl
          _ = (readFrom (.datum (.tail (symbol "quote" :: items) :: outer))
                (")" :: rest)).1 := by
              rw [readFrom_cons (take_dot (List.cons_ne_nil _ _) outer)]
              rfl
          _ = .error .unexpectedClose := rfl
      exact ⟨fun outer rest => (congrArg Prod.fst (readFrom_pair _ _ outer rest)).trans
        (hinner [] outer rest), hinner⟩
  | @pair head tail hhead hne _ ihHead ihTail =>
      have hinner (items : List Datum) (outer : List Opening) (rest : List Token) :
          (readFrom (.datum (.list items :: outer))
            ((Datum.pair head tail).tokensIn true ++ ")" :: rest)).1 =
              .error .unexpectedClose := by
        have htokens : (Datum.pair head tail).tokensIn true ++ ")" :: rest =
            head.tokensIn false ++ (tail.tokensIn true ++ ")" :: rest) := by
          simp [tokensIn]
        rw [htokens]
        cases hlists : head.listsDot with
        | true => exact (ihHead hlists).1 _ _
        | false =>
            have htail : tail.listsDot = true := by
              rwa [listsDot_pair hne, hlists, Bool.false_or] at hdot
            have hderives := (hhead.denoted hlists).derives.1
            rw [hderives.readFrom_eq (.inl (hderives.ne_dot hne))]
            exact (ihTail htail).2 (head :: items) outer rest
      exact ⟨fun outer rest => (congrArg Prod.fst (readFrom_pair _ _ outer rest)).trans
        (hinner [] outer rest), hinner⟩

theorem FromText.readAll_of_listsDot {d : Datum} (h : FromText d) (hdot : d.listsDot = true) :
    readAll (d.tokensIn false) = ([], some .unexpectedClose) := by
  have hfault := (h.readFrom_fault hdot).1 [] []
  rw [List.append_nil] at hfault
  have hsome : d.tokensIn false ≠ [] := by
    intro hnil
    rw [hnil] at hfault
    cases hfault
  exact (ReadsTo.nil _).readAll_of_fault (Prod.ext hfault rfl) hsome

end Datum

namespace Value

/-- **What was read can be written and read again,** unless it lists a dot: of every datum that
a text holds, the text of a value that shows it holds that datum and nothing else.  The
exception is a dot after a quote mark, and the text of such a datum holds no datum at all. -/
theorem written_of_read_rereads {text : String} {d : Datum} {v : Value}
    (hread : d ∈ (Datum.allOfText text).1) (hshown : v.datum? = some d) (s : Store) :
    Datum.allOfText (v.written s) =
      if d.listsDot then ([], some .unexpectedClose) else ([d], none) := by
  have hd := Datum.fromText_of_mem hread
  rw [written_of_datum? s hshown, Datum.allOfText, Token.ofText_text hd.spelled]
  dsimp only
  cases hlists : d.listsDot with
  | true =>
      rw [if_pos rfl]
      exact hd.readAll_of_listsDot hlists
  | false =>
      have hderives := (hd.denoted hlists).derives.1.readOne_eq []
      rw [List.append_nil] at hderives
      rw [if_neg Bool.false_ne_true, (Datum.ReadsTo.cons hderives (.nil [])).readAll_eq]
      rfl

/-- The dot as the tail of a list, an ellipsis, and a literal that the line ends in. -/
theorem written_of_read_rereads_of_dotted_tail :
    let d := Datum.pair (.pair (.symbol "a") (.symbol ".")) (.pair (.symbol "..") .nil)
    let v := Value.pair 1 (.pair 0 (.symbol "a") (.symbol ".")) (.pair 2 (.symbol "..") .nil)
    d ∈ (Datum.allOfText "((a . .) ..) \"b").1 ∧ v.datum? = some d ∧
      Datum.allOfText (v.written Store.initial) = ([d], none) := by
  have hread : Datum.pair (.pair (.symbol "a") (.symbol ".")) (.pair (.symbol "..") .nil) ∈
      (Datum.allOfText "((a . .) ..) \"b").1 := by
    decide +kernel
  exact ⟨hread, rfl, written_of_read_rereads hread rfl Store.initial⟩

/-- A quoted dot is read, written as a list, and then refused. -/
theorem written_quoted_dot_is_refused :
    let v := Value.pair 1 (.symbol "quote") (.pair 0 (.symbol ".") .nil)
    Datum.allOfText "'." = ([(Datum.symbol ".").quoted], none) ∧
      v.datum? = some (Datum.symbol ".").quoted ∧
      Datum.allOfText (v.written Store.initial) = ([], some .unexpectedClose) := by
  intro v
  have hshown : v.datum? = some (Datum.symbol ".").quoted := rfl
  have hread : Datum.allOfText "'." = ([(Datum.symbol ".").quoted], none) := by decide +kernel
  have hrefused : Datum.allOfText ((Datum.symbol ".").quoted.text .write) =
      ([], some .unexpectedClose) := by
    decide +kernel
  exact ⟨hread, hshown, by rw [written_of_datum? Store.initial hshown, hrefused]⟩

end Value

end SchemeMachine
